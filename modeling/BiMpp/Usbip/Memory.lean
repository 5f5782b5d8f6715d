import BiMpp.Device.Copy
import BiMpp.Host.Extent
import BiMpp.Usbip.Threads

/-!
# The two ends of a copy

The controller with the device attached to it: whatever is linked and whatever the firmware
arms, each copy of a transaction stays inside the buffer of its descriptor and inside the
declared buffer: `bi-mpp-pic24-usb-simulator-master/src/hcd.c:159–221`,
`src/usb_lib_usbip.c:124–135,232–300`.
-/

namespace BiMpp.Usbip
open BiMpp.Usb BiMpp.Base BiMpp.Host BiMpp.Device

/-! ### The controller and the device -/

/-- The controller, and the library of the device that its packets go to. -/
structure Attached where
  hcd : Hcd
  lib : UsbLib

/-- The calls of the driver, and those of the firmware. -/
inductive AttachedOp
  | link (a : LinkArgs)
  | send (w : EpdList) (epd : Option EpdPtr)
  | processDoneList
  | busReset
  | getTrnStatus
  | call (c : FirmwareCall)
  deriving DecidableEq, Repr

/-- What a step shows: what the driver did, with the copy that the device made, or nothing. -/
inductive AttachedOut
  | host (e : HcdEvent) (c : Option Copy)
  | quiet
  deriving DecidableEq, Repr

/-- An operation of the driver, after the device has done its part. -/
def Attached.host (s : Attached) (lib : UsbLib) (op : HcdOp) (c : Option Copy) :
    Except Fault (Attached × AttachedOut) := do
  let (h, o) ← hcdExec s.hcd op
  return (⟨h, lib⟩, .host (op, o) c)

/-- One step. `hcd_gtd_send` hands its packet to `__usb_transfer` and goes on with the
response; `hcd.c:159–250`. -/
def attachedExec (s : Attached) : AttachedOp → Except Fault (Attached × AttachedOut)
  | .link a => s.host s.lib (.link a) none
  | .send w epd => do
    match ← Threads.nextPacket s.hcd w epd with
    | none => s.host s.lib (.send w epd .nak) none
    | some (addr, k, data) =>
      let ep := BitVec.ofInt 8 k.ep
      let (lib, r) ← usbTransfer s.lib addr ep k.pid data k.size
      s.host lib (.send w epd r) (transferCopy s.lib addr ep k.pid k.size)
  | .processDoneList => s.host s.lib .processDoneList none
  | .busReset => do
    let (lib, _) ← usbTransfer s.lib 0 0 .reset [] 0
    return ({ s with lib := lib }, .quiet)
  | .getTrnStatus => .ok ({ s with lib := (getTrnStatus s.lib).2 }, .quiet)
  | .call c => .ok ({ s with lib := s.lib.call c }, .quiet)

/-- A step with what it showed. -/
abbrev AttachedEvent := AttachedOp × AttachedOut

/-- Finite runs of a controller and a device with these endpoints and buffers, from `hcd_init`
and `usb_init`. -/
abbrev AttachedRun (eps : Nat) (buffers : List Buffer) : List AttachedEvent → Attached → Prop :=
  Run (Fires attachedExec) ⟨hcdInit, usbInit eps buffers⟩

/-- What the driver did in a step. -/
def AttachedEvent.host : AttachedEvent → Option HcdEvent
  | (_, .host e _) => some e
  | (_, .quiet) => none

/-- The history of the driver. -/
def hostEvents (es : List AttachedEvent) : List HcdEvent := es.filterMap AttachedEvent.host

/-! ### What is to be shown -/

/-- A copy for a transaction of a descriptor linked with `a`: from the pointer handed over, it
stays inside the descriptor's buffer, and it stays inside a declared buffer. -/
structure CopyInside (buffers : List Buffer) (a : LinkArgs) (t : Transaction) (c : Copy) :
    Prop where
  start : 0 ≤ t.offset
  size : 0 ≤ c.size
  host : t.offset + c.size ≤ a.size
  empty : a.size = 0 → c.size = 0
  device : ∃ b, buffers[c.buffer]? = some b ∧ c.size ≤ b.size

/-- Every copy of a history is inside the buffer of the descriptor it was made for and inside
a declared buffer. -/
def CopiesInside (buffers : List Buffer) (es : List AttachedEvent) : Prop :=
  ∀ past op e c, past ++ [(op, .host e (some c))] <+: es → ∃ g a t,
    (g, a) ∈ links (hostEvents past) ∧ HcdEvent.transaction e = some t ∧
      transactionsOf g (hostEvents past ++ [e]) = transactionsOf g (hostEvents past) ++ [t] ∧
      CopyInside buffers a t c

/-- Every `CurrentBufferPointer` is inside the buffer its descriptor was linked with. -/
def PointersInside (es : List AttachedEvent) (h : Hcd) : Prop :=
  ∀ g n, h.heap g = some n → ∃ a, (g, a) ∈ links (hostEvents es) ∧
    0 ≤ n.currentBufferPointer ∧ n.currentBufferPointer ≤ a.size

/-- What the next step shows is the copy that it makes: none without a transaction, and with one
the copy that accounts for what the transaction moves, there if it is acknowledged. -/
def CopiesMade (s : Attached) : Prop :=
  ∀ op e c s', Fires attachedExec s (op, .host e c) s' →
    (HcdEvent.transaction e = none → c = none) ∧
    ∀ t, HcdEvent.transaction e = some t →
      Copied s.lib t.offered t.packet.size c s'.lib t.response ∧
        (t.response.isAck = true → c.isSome = true)

/-! ### The packet and its response -/

section Send

variable {h h' : Hcd} {w : EpdList} {epd : Option EpdPtr} {r : Response} {o : HcdOut}

/-- The transaction of `hcd_gtd_send` is the packet it chose with the response it got. -/
theorem nextPacket_some {addr : Int} {k : Packet} {data : List UInt8}
    (hnext : Threads.nextPacket h w epd = .ok (some (addr, k, data)))
    (hsend : hcdExec h (.send w epd r) = .ok (h', o)) :
    ∃ t, o = .sent (some t) ∧ t.packet = k ∧ t.response = r ∧ t.offered = data ∧
      t.key.functionAddress = addr := by
  obtain ⟨⟨h₁, t⟩, hgtd, ho⟩ := bind_eq_ok.mp hsend
  cases pure_eq_ok.mp ho
  obtain ⟨i, hi, hnext⟩ := bind_eq_ok.mp hnext
  obtain ⟨i', hi', hgtd⟩ := bind_eq_ok.mp hgtd
  obtain rfl := Except.ok.inj (hi.symm.trans hi')
  cases i with
  | none => cases pure_eq_ok.mp hnext
  | some i =>
    obtain ⟨e, he, hnext⟩ := bind_eq_ok.mp hnext
    obtain ⟨⟨g, n⟩, hn, hnext⟩ := bind_eq_ok.mp hnext
    obtain ⟨k', hk, hnext⟩ := bind_eq_ok.mp hnext
    cases pure_eq_ok.mp hnext
    obtain ⟨⟨h₂, t'⟩, hserve, hgtd⟩ := bind_eq_ok.mp hgtd
    cases pure_eq_ok.mp hgtd
    refine ⟨t', rfl, ?_⟩
    obtain ⟨e', he', hserve⟩ := bind_eq_ok.mp hserve
    obtain rfl := Except.ok.inj (he.symm.trans he')
    obtain ⟨⟨g', n'⟩, hn', hserve⟩ := bind_eq_ok.mp hserve
    cases Except.ok.inj (hn.symm.trans hn')
    obtain ⟨⟨t'', p, fate⟩, hx, hserve⟩ := bind_eq_ok.mp hserve
    have ht : t'' = t' := by
      dsimp only at hserve
      split at hserve
      · exact (Prod.mk.inj (pure_eq_ok.mp hserve)).2
      · obtain ⟨_, -, hserve⟩ := bind_eq_ok.mp hserve
        obtain ⟨_, -, hserve⟩ := bind_eq_ok.mp hserve
        exact (Prod.mk.inj (pure_eq_ok.mp hserve)).2
    obtain ⟨k'', hk'', -, rfl⟩ := EpdCore.exchange_ok hx
    rw [← ht]
    obtain rfl := Except.ok.inj (hk''.symm.trans hk)
    exact ⟨rfl, rfl, rfl, rfl⟩

/-- Without a packet there is no transaction. -/
theorem nextPacket_none (hnext : Threads.nextPacket h w epd = .ok none)
    (hsend : hcdExec h (.send w epd r) = .ok (h', o)) : o = .sent none := by
  obtain ⟨⟨h₁, t⟩, hgtd, ho⟩ := bind_eq_ok.mp hsend
  cases pure_eq_ok.mp ho
  obtain ⟨i, hi, hnext⟩ := bind_eq_ok.mp hnext
  obtain ⟨i', hi', hgtd⟩ := bind_eq_ok.mp hgtd
  obtain rfl := Except.ok.inj (hi.symm.trans hi')
  cases i with
  | none =>
    cases pure_eq_ok.mp hgtd
    rfl
  | some i =>
    obtain ⟨e, -, hnext⟩ := bind_eq_ok.mp hnext
    obtain ⟨⟨g, n⟩, -, hnext⟩ := bind_eq_ok.mp hnext
    obtain ⟨k, -, hnext⟩ := bind_eq_ok.mp hnext
    cases pure_eq_ok.mp hnext

-- the pid of a packet is that of a SETUP, DATA0 or DATA1 packet
private theorem choosePacket_isData {c : EpdCore} {p : Td} {k : Packet}
    (h : choosePacket c p = .ok k) : UsbPid.isData k.pid = true := by
  have hdata : UsbPid.isData p.dataPid = true := by
    unfold Td.dataPid
    split <;> rfl
  unfold choosePacket at h
  split at h
  · split at h
    · obtain rfl := Except.ok.inj h
      rfl
    · cases h
  · obtain rfl := Except.ok.inj h
    exact hdata
  · obtain rfl := Except.ok.inj h
    exact hdata

private theorem nextPacket_isData {addr : Int} {k : Packet} {data : List UInt8}
    (hnext : Threads.nextPacket h w epd = .ok (some (addr, k, data))) :
    UsbPid.isData k.pid = true := by
  obtain ⟨i, -, hnext⟩ := bind_eq_ok.mp hnext
  cases i with
  | none => cases pure_eq_ok.mp hnext
  | some i =>
    obtain ⟨e, -, hnext⟩ := bind_eq_ok.mp hnext
    obtain ⟨⟨g, n⟩, -, hnext⟩ := bind_eq_ok.mp hnext
    obtain ⟨k', hk, hnext⟩ := bind_eq_ok.mp hnext
    cases pure_eq_ok.mp hnext
    exact choosePacket_isData hk

end Send

/-! ### Steps -/

/-- A transaction is one of `__usb_transfer`, for the packet and the bytes that it shows. -/
structure Transferred (s s' : Attached) (o : AttachedOut) (d : HcdEvent) (t : Transaction) :
    Prop where
  isData : UsbPid.isData t.packet.pid = true
  transfer : usbTransfer s.lib t.key.functionAddress (BitVec.ofInt 8 t.packet.ep) t.packet.pid
    t.offered t.packet.size = .ok (s'.lib, t.response)
  copy : o = .host d (transferCopy s.lib t.key.functionAddress (BitVec.ofInt 8 t.packet.ep)
    t.packet.pid t.packet.size)
  driver : Fires hcdExec s.hcd d s'.hcd

/-- The events of the driver after one more event. -/
theorem hostEvents_snoc (es : List AttachedEvent) (e : AttachedEvent) :
    hostEvents (es ++ [e]) = hostEvents es ++ (AttachedEvent.host e).toList := by
  unfold hostEvents
  rw [List.filterMap_append]
  cases h : AttachedEvent.host e <;> simp [h]

/-- What a step of the two together is: a transaction, one of the driver without, or one of the
device alone, which may store in no buffer but by `copy_to_buffer`. -/
inductive AttachedStep (s : Attached) : AttachedEvent → Attached → Prop
  | send {op : AttachedOp} {o : AttachedOut} {d : HcdEvent} {t : Transaction} {s' : Attached} :
      HcdEvent.transaction d = some t → Transferred s s' o d t → AttachedStep s (op, o) s'
  | other {op : AttachedOp} {e : HcdEvent} {h : Hcd} : HcdEvent.transaction e = none →
      Fires hcdExec s.hcd e h → AttachedStep s (op, .host e none) { s with hcd := h }
  | quiet {op : AttachedOp} {lib : UsbLib} :
      (∀ buffers, Declared buffers s.lib → Declared buffers lib) →
      AttachedStep s (op, .quiet) { s with lib := lib }

private theorem attachedStep_host {s s' : Attached} {op : AttachedOp} {d : HcdOp}
    {out : AttachedOut} (hd : ∀ o h, hcdExec s.hcd d = .ok (h, o) →
      HcdEvent.transaction (d, o) = none)
    (h : s.host s.lib d none = .ok (s', out)) : AttachedStep s (op, out) s' := by
  obtain ⟨⟨h', o⟩, hexec, h⟩ := bind_eq_ok.mp h
  cases pure_eq_ok.mp h
  exact .other (hd o h' hexec) hexec

/-- Every step is one of these. -/
theorem attachedStep_of_exec {s s' : Attached} {e : AttachedEvent}
    (h : Fires attachedExec s e s') : AttachedStep s e s' := by
  obtain ⟨op, out⟩ := e
  have h : attachedExec s op = .ok (s', out) := h
  cases op with
  | link a =>
    refine attachedStep_host ?_ h
    intro o h' hexec
    obtain ⟨v, -, ho⟩ := bind_eq_ok.mp hexec
    cases pure_eq_ok.mp ho
    rfl
  | send w epd =>
    obtain ⟨p, hnext, h⟩ := bind_eq_ok.mp h
    cases p with
    | none =>
      refine attachedStep_host ?_ h
      intro o h' hexec
      rw [nextPacket_none hnext hexec]
      rfl
    | some v =>
      obtain ⟨addr, k, data⟩ := v
      obtain ⟨⟨lib, r⟩, htransfer, h⟩ := bind_eq_ok.mp h
      obtain ⟨⟨h', o⟩, hexec, h⟩ := bind_eq_ok.mp h
      cases pure_eq_ok.mp h
      obtain ⟨t, rfl, rfl, rfl, rfl, rfl⟩ := nextPacket_some hnext hexec
      exact .send rfl ⟨nextPacket_isData hnext, htransfer, rfl, hexec⟩
  | processDoneList =>
    refine attachedStep_host ?_ h
    intro o h' hexec
    obtain ⟨v, -, ho⟩ := bind_eq_ok.mp hexec
    cases pure_eq_ok.mp ho
    rfl
  | busReset =>
    obtain ⟨⟨lib, r⟩, htransfer, h⟩ := bind_eq_ok.mp h
    cases pure_eq_ok.mp h
    exact .quiet fun _ hd ↦ hd.copied (usbTransfer_copied (Int.le_refl 0) htransfer).1
  | getTrnStatus =>
    cases h
    exact .quiet fun _ hd ↦ hd.frame rfl
  | call c =>
    cases h
    exact .quiet fun _ hd ↦ hd.call c

/-- What makes a transaction is one of `__usb_transfer`. -/
theorem transferred_of_exec {s s' : Attached} {e : AttachedEvent} {d : HcdEvent} {t : Transaction}
    (h : Fires attachedExec s e s') (hd : AttachedEvent.host e = some d)
    (ht : HcdEvent.transaction d = some t) : Transferred s s' e.2 d t := by
  cases attachedStep_of_exec h with
  | send ht' htr =>
    obtain ⟨hdata, htransfer, rfl, hexec⟩ := htr
    obtain rfl := Option.some.inj hd
    obtain rfl := Option.some.inj (ht'.symm.trans ht)
    exact ⟨hdata, htransfer, rfl, hexec⟩
  | other hnone =>
    obtain rfl := Option.some.inj hd
    rw [hnone] at ht
    cases ht
  | quiet => cases hd

/-- The driver's part of a run is a run of the driver. -/
theorem AttachedRun.driver {eps : Nat} {buffers : List Buffer} {es : List AttachedEvent}
    {s : Attached} (h : AttachedRun eps buffers es s) : HcdRun (hostEvents es) s.hcd := by
  refine Run.project Attached.hcd AttachedEvent.host ?_ h
  intro s e s' he
  cases attachedStep_of_exec he with
  | send _ htr =>
    obtain ⟨-, -, rfl, hexec⟩ := htr
    exact hexec
  | other _ hexec => exact hexec
  | quiet _ => rfl

/-! ### Runs -/

/-- What is kept in a run: the responses fit their packets, the buffers are those declared,
and the copies so far were inside. -/
structure Contained (buffers : List Buffer) (es : List AttachedEvent) (s : Attached) :
    Prop where
  fits : ∀ e ∈ hostEvents es, HcdEvent.Fits e
  declared : Declared buffers s.lib
  copies : CopiesInside buffers es

private theorem CopiesInside.quiet {buffers : List Buffer} {es : List AttachedEvent}
    {e : AttachedEvent} (h : CopiesInside buffers es) (he : ∀ d c, e.2 ≠ .host d (some c)) :
    CopiesInside buffers (es ++ [e]) := by
  intro past op d c hpast
  rcases prefix_snoc hpast with ⟨-, rfl⟩ | hpast
  · exact (he d c rfl).elim
  · exact h past op d c hpast

/-- Every step keeps them. -/
theorem contained_step {buffers : List Buffer} {es : List AttachedEvent}
    {s s' : Attached} {e : AttachedEvent} (h : Contained buffers es s)
    (hrun : HcdRun (hostEvents es) s.hcd) (hsize : ∀ l ∈ links (hostEvents es), 0 ≤ l.2.size)
    (hs : AttachedStep s e s') : Contained buffers (es ++ [e]) s' := by
  have hfits : ∀ d : HcdEvent, HcdEvent.Fits d →
      ∀ d' ∈ hostEvents es ++ [d], HcdEvent.Fits d' := by
    intro d hd d' hd'
    rcases List.mem_append.mp hd' with hd' | hd'
    · exact h.fits d' hd'
    · rw [List.mem_singleton.mp hd']
      exact hd
  cases hs with
  | @send op o d t s' htrans htr =>
    obtain ⟨-, htransfer, rfl, hexec⟩ := htr
    obtain ⟨g, a, hreach⟩ := hrun.reaches hsize h.fits hexec htrans
    have hcopied := (usbTransfer_copied hreach.size htransfer).1
    have hnum : t.packet.endpointNumber = a.ep % 16 := hreach.number
    have hdir := (t.packet.ep_bits (by omega) (by omega)).2
    have hfit : HcdEvent.Fits d := by
      intro t' ht'
      obtain rfl := Option.some.inj (htrans.symm.trans ht')
      have hresp := usbTransfer_fits h.declared.room hreach.size t.packet.endpointNumber htransfer
      rw [hdir] at hresp
      exact hresp
    refine ⟨?_, h.declared.copied hcopied, ?_⟩
    · rw [hostEvents_snoc]
      exact hfits _ hfit
    · intro past op e c hpast
      rcases prefix_snoc hpast with ⟨rfl, hlast⟩ | hpast
      · obtain ⟨-, hlast⟩ := Prod.mk.inj hlast
        obtain ⟨rfl, hc⟩ := AttachedOut.host.inj hlast
        refine ⟨g, a, t, hreach.linked, htrans, hreach.served, ?_⟩
        rw [← hc] at hcopied
        obtain ⟨hpos, hle, b, hb, hbuf⟩ := hcopied.inside
        obtain ⟨b₀, hb₀, hsame⟩ := h.declared.size hb
        have hstart := hreach.start
        have hstop := hreach.stop
        refine ⟨hstart, hpos, by omega, fun hempty ↦ by omega, b₀, hb₀, ?_⟩
        rw [hsame]
        exact hbuf
      · exact h.copies past op e c hpast
  | other hnone hexec =>
    refine ⟨?_, h.declared, h.copies.quiet (by simp)⟩
    rw [hostEvents_snoc]
    apply hfits
    intro t ht
    rw [hnone] at ht
    cases ht
  | quiet hlib =>
    refine ⟨?_, hlib _ h.declared, h.copies.quiet (by simp)⟩
    rw [hostEvents_snoc]
    simpa [AttachedEvent.host] using h.fits

/-- Every run of the two is contained, if its links have sizes. -/
theorem AttachedRun.contained {eps : Nat} {buffers : List Buffer} {es : List AttachedEvent}
    {s : Attached} (hrun : AttachedRun eps buffers es s)
    (hbufs : ∀ b ∈ buffers, (b.data.length : Int) = b.size)
    (hsize : ∀ l ∈ links (hostEvents es), 0 ≤ l.2.size) : Contained buffers es s := by
  refine Run.invariant (P := fun es s ↦ (∀ l ∈ links (hostEvents es), 0 ≤ l.2.size) →
    Contained buffers es s) ?_ ?_ hrun hsize
  · intro _
    refine ⟨fun e he ↦ (List.not_mem_nil he).elim, Declared.init eps hbufs, ?_⟩
    intro past op e c h
    simp at h
  · intro es s e s' hrun ih hfire hsize
    have hpast : ∀ l ∈ links (hostEvents es), 0 ≤ l.2.size := by
      intro l hl
      apply hsize
      rw [hostEvents_snoc, links, List.filterMap_append]
      exact List.mem_append_left _ hl
    exact contained_step (ih hpast) (AttachedRun.driver hrun) hpast (attachedStep_of_exec hfire)

/-- What a step of a run shows is the copy that it makes. -/
theorem AttachedRun.copies_made {eps : Nat} {buffers : List Buffer} {es : List AttachedEvent}
    {s : Attached} (hrun : AttachedRun eps buffers es s)
    (hbufs : ∀ b ∈ buffers, (b.data.length : Int) = b.size)
    (hsize : ∀ l ∈ links (hostEvents es), 0 ≤ l.2.size) : CopiesMade s := by
  intro op e c s' hfire
  cases attachedStep_of_exec hfire with
  | send ht htr =>
    obtain ⟨hdata, htransfer, hcopy, hexec⟩ := htr
    obtain ⟨rfl, rfl⟩ := AttachedOut.host.inj hcopy
    obtain ⟨g, a, hreach⟩ :=
      (AttachedRun.driver hrun).reaches hsize (hrun.contained hbufs hsize).fits hexec ht
    refine ⟨fun hnone ↦ ?_, fun t' ht' ↦ ?_⟩
    · rw [ht] at hnone
      cases hnone
    · obtain rfl := Option.some.inj (ht.symm.trans ht')
      obtain ⟨hcopied, hack⟩ := usbTransfer_copied hreach.size htransfer
      exact ⟨hcopied, hack hdata⟩
  | other hnone _ =>
    refine ⟨fun _ ↦ rfl, fun t ht ↦ ?_⟩
    rw [hnone] at ht
    cases ht

/-- Transactions stay inside both buffers: in every run of a controller and a device with
declared buffers, whatever the firmware arms, every copy of `__usb_transfer` is inside the
buffer of its descriptor and inside the buffer armed, so is every pointer, and the copies shown
are those that the transactions make. -/
theorem AttachedRun.copies_inside {eps : Nat} {buffers : List Buffer} {es : List AttachedEvent}
    {s : Attached} (hrun : AttachedRun eps buffers es s)
    (hbufs : ∀ b ∈ buffers, (b.data.length : Int) = b.size)
    (hsize : ∀ l ∈ links (hostEvents es), 0 ≤ l.2.size) :
    CopiesInside buffers es ∧ PointersInside es s.hcd ∧ CopiesMade s := by
  have hinv := hrun.contained hbufs hsize
  refine ⟨hinv.copies, fun g n hn ↦ ?_, hrun.copies_made hbufs hsize⟩
  obtain ⟨a, hlink, hwithin⟩ := (AttachedRun.driver hrun).within hsize hinv.fits hn
  exact ⟨a, hlink, hwithin.start, hwithin.stop⟩

/-- The copies of a history. -/
def copiesOf (es : List AttachedEvent) : List Copy :=
  es.filterMap fun e ↦
    match e.2 with
    | .host _ c => c
    | .quiet => none

private def fewTransfers : List AttachedOp :=
  [.call .enable, .link ⟨0, 1, false, false, 2, 2, [5, 6, 7], 3, ⟨10, 3⟩⟩,
    .call (.transfStart 1 0x08 0 4), .send .bulk (some 0), .call (.transfStart 1 0x08 0 4),
    .send .bulk (some 0), .link ⟨0, 1, true, false, 2, 2, [0], 1, ⟨11, 1⟩⟩,
    .call (.transfStart 1 0x80 0 2), .send .bulk (some 0), .processDoneList,
    .link ⟨0, 1, true, false, 2, 2, [], 0, ⟨12, 0⟩⟩, .call (.transfStart 1 0x80 0 300),
    .send .bulk (some 0), .call (.transfStart 1 0x80 0 3), .send .bulk (some 0)]

/-- Four copies stay inside a buffer of four bytes. -/
theorem AttachedRun.copies_inside_example : ∃ es s, AttachedRun 2 [⟨4, [0, 0, 0, 0]⟩] es s ∧
    copiesOf es = [⟨0, false, 2⟩, ⟨0, false, 1⟩, ⟨0, true, 1⟩, ⟨0, true, 0⟩] ∧
    CopiesInside [⟨4, [0, 0, 0, 0]⟩] es ∧ PointersInside es s.hcd ∧ CopiesMade s := by
  have hcheck : runsTo attachedExec ⟨hcdInit, usbInit 2 [⟨4, [0, 0, 0, 0]⟩]⟩ fewTransfers
      (fun _ es ↦ decide (copiesOf es =
          [⟨0, false, 2⟩, ⟨0, false, 1⟩, ⟨0, true, 1⟩, ⟨0, true, 0⟩] ∧
        ∀ l ∈ links (hostEvents es), 0 ≤ l.2.size)) = true := by decide +kernel
  obtain ⟨es, s, hrun, hp⟩ := Run.of_runsTo hcheck
  obtain ⟨hcopies, hsize⟩ := of_decide_eq_true hp
  exact ⟨es, s, hrun, hcopies, AttachedRun.copies_inside hrun (by simp) hsize⟩

end BiMpp.Usbip
