import BiMpp.Base.Run
import BiMpp.Device.Packet

/-!
# Receiving on an endpoint

The host's OUT and SETUP transactions interleaved with a firmware that takes each
reported event, reads `out.cnt` bytes of the endpoint's buffer and arms the endpoint
again. The OUT branch of `__usb_transfer` leaves the ownership bit set, so nothing but
the host's own restraint keeps a second packet off an unread first one.
-/

namespace BiMpp.Device
open BiMpp.Usb BiMpp.Base

/-- Where the firmware is with the event it took, by endpoint address. -/
inductive FirmwarePc
  | idle
  | read (ep : BitVec 8)
  | rearm (ep : BitVec 8)
  deriving DecidableEq, Repr

/-- The library with the firmware using it. -/
structure Dialog where
  lib : UsbLib
  pc : FirmwarePc

/-- The steps: a packet of the host, and the firmware's three. -/
inductive DialogOp
  | packet (addr : Int) (e : Fin 16) (pid : UsbPid) (payload : List UInt8)
  | poll
  | read
  | rearm (transferType : BitVec 8) (size : Int)
  deriving DecidableEq, Repr

/-- What a step shows. -/
inductive DialogOut
  | response (r : Response)
  | event (ep : BitVec 8)
  | bytes (ep : BitVec 8) (data : List UInt8)
  | armed (ep : BitVec 8)
  deriving DecidableEq, Repr

/-- One step. Endpoint `e` receives into buffer `e`. -/
def dialogExec (s : Dialog) : DialogOp → Except Stop (Dialog × DialogOut)
  | .packet addr e pid payload =>
    if UsbPid.isData pid then
      match usbTransfer s.lib addr (outEp e) pid payload payload.length with
      | .ok (lib, r) => .ok ({ s with lib := lib }, .response r)
      | .error f => .error (.fault f)
    else .error .blocked
  | .poll =>
    if s.pc = .idle ∧ isTransferDone s.lib then
      let (ep, lib) := getTrnStatus s.lib
      .ok (⟨lib, .read ep⟩, .event ep)
    else .error .blocked
  | .read =>
    match s.pc with
    | .read ep =>
      match s.lib.bdt[ep.toNat]? with
      | some b => .ok ({ s with pc := .rearm ep },
          .bytes ep (copyFromBuffer s.lib ep.toNat b.out.cnt.toNat))
      | none => .error (.fault .badPointer)
    | _ => .error .blocked
  | .rearm transferType size =>
    match s.pc with
    | .rearm ep =>
      if transferType &&& 0x80 = 0 then
        .ok (⟨usbEpTransfStart s.lib ep.toNat transferType ep.toNat size, .idle⟩, .armed ep)
      else .error .blocked
    | _ => .error .blocked

/-- A declared endpoint with its receive buffer, and how the firmware first arms it. -/
structure EpConfig where
  bufferSize : Nat
  first : Option (BitVec 8 × Int)
  deriving DecidableEq, Repr

/-- The library enabled at an address, with every endpoint on its own buffer and no
event reported yet. -/
def dialogBoot (addr : BitVec 8) (cfg : List EpConfig) : Dialog where
  lib := {
    u1ep := List.replicate 16 0
    u1addr := addr
    sofif := false
    pktdis := false
    usben := true
    reset := false
    epQueue := ⟨0, 0, fun _ ↦ 0⟩
    bdt := cfg.mapIdx fun i c ↦
      match c.first with
      | some (transferType, size) => ⟨.start transferType i size, .zero⟩
      | none => ⟨{ BdfEntry.zero with addr := i }, .zero⟩
    buffers := cfg.map fun c ↦ ⟨c.bufferSize, List.replicate c.bufferSize 0⟩ }
  pc := .idle

/-- A step with what it showed. -/
abbrev DialogEvent := DialogOp × DialogOut

/-- Finite runs from a boot state. -/
abbrev DialogRun (boot : Dialog) : List DialogEvent → Dialog → Prop := Run (Fires dialogExec) boot

/-! ### Histories -/

/-- The bytes an event acknowledged on an endpoint. -/
def DialogEvent.acked (e : Fin 16) : DialogEvent → Option (List UInt8)
  | (.packet _ e' _ payload, .response (.ack rlen _)) =>
    if e' = e then some (payload.take rlen.toNat) else none
  | _ => none

/-- The bytes the firmware read from an endpoint in an event. -/
def DialogEvent.readOn (e : Fin 16) : DialogEvent → Option (List UInt8)
  | (_, .bytes ep data) => if ep = outEp e then some data else none
  | _ => none

/-- Whether an event re-armed an endpoint. -/
def DialogEvent.rearms (e : Fin 16) : DialogEvent → Bool
  | (_, .armed ep) => ep == outEp e
  | _ => false

/-- The byte strings acknowledged on an endpoint, in order. -/
def ackedOn (e : Fin 16) (es : List DialogEvent) : List (List UInt8) :=
  es.filterMap (DialogEvent.acked e)

/-- The byte strings read from an endpoint, in order. -/
def readsOn (e : Fin 16) (es : List DialogEvent) : List (List UInt8) :=
  es.filterMap (DialogEvent.readOn e)

/-- How often an endpoint was re-armed. -/
def rearmsOn (e : Fin 16) (es : List DialogEvent) : Nat := es.countP (DialogEvent.rearms e)

/-- The host keeps the handshake: a packet the device lets through to an endpoint's
buffer comes when every packet acknowledged there before has been read and the endpoint
armed again. -/
def Handshake (boot : Dialog) (es : List DialogEvent) : Prop :=
  ∀ past rest s addr e pid payload out,
    es = past ++ (.packet addr e pid payload, out) :: rest → DialogRun boot past s →
    s.lib.admits addr e pid payload.length = true → (ackedOn e past).length = rearmsOn e past

/-! ### The invariant of the handshake -/

section Snoc

variable (e : Fin 16) (es : List DialogEvent) (x : DialogEvent)

private theorem ackedOn_snoc :
    ackedOn e (es ++ [x]) = ackedOn e es ++ (DialogEvent.acked e x).toList := by
  unfold ackedOn
  rw [List.filterMap_append]
  cases h : DialogEvent.acked e x <;> simp [h]

private theorem readsOn_snoc :
    readsOn e (es ++ [x]) = readsOn e es ++ (DialogEvent.readOn e x).toList := by
  unfold readsOn
  rw [List.filterMap_append]
  cases h : DialogEvent.readOn e x <;> simp [h]

private theorem rearmsOn_snoc :
    rearmsOn e (es ++ [x]) = rearmsOn e es + if DialogEvent.rearms e x then 1 else 0 := by
  unfold rearmsOn
  rw [List.countP_append, List.countP_singleton]

variable {x}

private theorem ackedOn_quiet (h : DialogEvent.acked e x = none) :
    ackedOn e (es ++ [x]) = ackedOn e es := by
  rw [ackedOn_snoc, h]
  exact List.append_nil _

private theorem readsOn_quiet (h : DialogEvent.readOn e x = none) :
    readsOn e (es ++ [x]) = readsOn e es := by
  rw [readsOn_snoc, h]
  exact List.append_nil _

private theorem rearmsOn_quiet (h : DialogEvent.rearms e x = false) :
    rearmsOn e (es ++ [x]) = rearmsOn e es := by
  rw [rearmsOn_snoc, h]
  rfl

/-- An acknowledged packet counts for its own endpoint. -/
theorem ackedOn_ack (e' : Fin 16) (addr : Int) (pid : UsbPid) (payload : List UInt8) (sz : Int) :
    ackedOn e' (es ++ [(.packet addr e pid payload, .response (.ack sz []))]) =
      if e = e' then ackedOn e' es ++ [payload.take sz.toNat] else ackedOn e' es := by
  rw [ackedOn_snoc]
  by_cases he : e = e' <;> simp [DialogEvent.acked, he]

/-- Bytes that are read count for their own endpoint. -/
theorem readsOn_bytes (e' : Fin 16) (op : DialogOp) (data : List UInt8) :
    readsOn e' (es ++ [(op, .bytes (outEp e) data)]) =
      if e = e' then readsOn e' es ++ [data] else readsOn e' es := by
  rw [readsOn_snoc]
  by_cases he : e = e'
  · simp [DialogEvent.readOn, he]
  · have hne : outEp e ≠ outEp e' := fun heq ↦ he (outEp_inj heq)
    simp [DialogEvent.readOn, he, hne]

/-- A re-arm counts for its own endpoint. -/
theorem rearmsOn_armed (e' : Fin 16) (op : DialogOp) :
    rearmsOn e' (es ++ [(op, .armed (outEp e))]) =
      if e = e' then rearmsOn e' es + 1 else rearmsOn e' es := by
  rw [rearmsOn_snoc]
  by_cases he : e = e'
  · simp [DialogEvent.rearms, he]
  · have hne : outEp e ≠ outEp e' := fun heq ↦ he (outEp_inj heq)
    simp [DialogEvent.rearms, he, hne]

end Snoc

/-- An acknowledged packet waits to be read. -/
def Unread (e : Fin 16) (es : List DialogEvent) : Prop :=
  (ackedOn e es).length = rearmsOn e es + 1 ∧ (readsOn e es).length = rearmsOn e es

/-- What the history of an endpoint leaves in the library: at most one packet is unread, and that
packet is the last one acknowledged and still in the buffer. -/
structure Kept (e : Fin 16) (es : List DialogEvent) (d : UsbLib) : Prop where
  rearms_le : rearmsOn e es ≤ (readsOn e es).length
  order : readsOn e es <+: ackedOn e es
  acked_le : (ackedOn e es).length ≤ rearmsOn e es + 1
  held : Unread e es → ∃ b, d.bdt[e.val]? = some b ∧
    ackedOn e es = readsOn e es ++ [copyFromBuffer d e b.out.cnt.toNat]

/-- A packet that was read has not been armed for again. -/
def Unarmed (e : Fin 16) (es : List DialogEvent) : Prop :=
  (ackedOn e es).length = rearmsOn e es + 1 ∧ (readsOn e es).length = rearmsOn e es + 1

/-- What a history under the handshake leaves: every endpoint is on its own buffer, with what its
history leaves there, and the events queued or being handled are of endpoints with an unread
packet, each once. -/
structure Received (es : List DialogEvent) (s : Dialog) : Prop where
  own : ∀ (i : Nat) b, s.lib.bdt[i]? = some b → b.out.addr = i
  kept : ∀ e, Kept e es s.lib
  queued : ∀ ep ∈ s.lib.epQueue.contents, ∃ e, ep = outEp e ∧ Unread e es
  queue_nodup : s.lib.epQueue.contents.Nodup
  reading : ∀ ep, s.pc = .read ep → ∃ e, ep = outEp e ∧ Unread e es ∧
    ep ∉ s.lib.epQueue.contents
  rearming : ∀ ep, s.pc = .rearm ep → ∃ e, ep = outEp e ∧ Unarmed e es

/-! ### What a step leaves alone -/

/-- A step shows nothing to the history of an endpoint, and leaves its entry and its buffer as
they are. -/
structure Unmoved (e : Fin 16) (x : DialogEvent) (d d' : UsbLib) : Prop where
  acked : DialogEvent.acked e x = none
  read : DialogEvent.readOn e x = none
  rearmed : DialogEvent.rearms e x = false
  entry : d'.bdt[e.val]? = d.bdt[e.val]?
  buffer : d'.buffers[e.val]? = d.buffers[e.val]?

namespace Unmoved

variable {e : Fin 16} {x : DialogEvent} {d d' : UsbLib} {es : List DialogEvent}

/-- The endpoint is where it was with its packets. -/
theorem unread (h : Unmoved e x d d') : Unread e (es ++ [x]) ↔ Unread e es := by
  unfold Unread
  rw [ackedOn_quiet e es h.acked, readsOn_quiet e es h.read, rearmsOn_quiet e es h.rearmed]

/-- Also after a read. -/
theorem unarmed (h : Unmoved e x d d') : Unarmed e (es ++ [x]) ↔ Unarmed e es := by
  unfold Unarmed
  rw [ackedOn_quiet e es h.acked, readsOn_quiet e es h.read, rearmsOn_quiet e es h.rearmed]

/-- What its history leaves is still there. -/
theorem kept (h : Unmoved e x d d') (hk : Kept e es d) : Kept e (es ++ [x]) d' := by
  have hcopy : ∀ n, copyFromBuffer d' e n = copyFromBuffer d e n := fun n ↦ by
    simp only [copyFromBuffer, h.buffer]
  constructor
  case rearms_le =>
    rw [readsOn_quiet e es h.read, rearmsOn_quiet e es h.rearmed]
    exact hk.rearms_le
  case order =>
    rw [ackedOn_quiet e es h.acked, readsOn_quiet e es h.read]
    exact hk.order
  case acked_le =>
    rw [ackedOn_quiet e es h.acked, rearmsOn_quiet e es h.rearmed]
    exact hk.acked_le
  case held =>
    rw [h.unread, h.entry, ackedOn_quiet e es h.acked, readsOn_quiet e es h.read]
    simp only [hcopy]
    exact hk.held

end Unmoved

/-! ### What a step does to its endpoint -/

namespace Kept

variable {e : Fin 16} {es : List DialogEvent} {x : DialogEvent} {d d' : UsbLib}

private theorem all_read (h : Kept e es d) (ha : (ackedOn e es).length = rearmsOn e es) :
    readsOn e es = ackedOn e es :=
  h.order.eq_of_length (Nat.le_antisymm h.order.length_le (by rw [ha]; exact h.rearms_le))

-- a packet acknowledged where nothing is unread is the unread one
private theorem acked (h : Kept e es d) {packet : List UInt8} {b : EpBufDsc}
    (hclear : (ackedOn e es).length = rearmsOn e es)
    (hacked : ackedOn e (es ++ [x]) = ackedOn e es ++ [packet])
    (hread : DialogEvent.readOn e x = none) (hrearmed : DialogEvent.rearms e x = false)
    (hb : d'.bdt[e.val]? = some b) (hcopy : copyFromBuffer d' e b.out.cnt.toNat = packet) :
    Unread e (es ++ [x]) ∧ Kept e (es ++ [x]) d' := by
  have hreads : readsOn e (es ++ [x]) = ackedOn e es := by
    rw [readsOn_quiet e es hread, h.all_read hclear]
  have hrearms : rearmsOn e (es ++ [x]) = rearmsOn e es := rearmsOn_quiet e es hrearmed
  have hunread : Unread e (es ++ [x]) := by
    rw [Unread, hacked, hreads, hrearms, List.length_append, hclear]
    exact ⟨rfl, rfl⟩
  refine ⟨hunread, ?_⟩
  constructor
  case rearms_le => exact Nat.le_of_eq hunread.2.symm
  case order =>
    rw [hreads, hacked]
    exact List.prefix_append _ _
  case acked_le => exact Nat.le_of_eq hunread.1
  case held => exact fun _ ↦ ⟨b, hb, by rw [hacked, hreads, hcopy]⟩

-- once the unread packet is read, everything acknowledged is
private theorem read {bytes : List UInt8} (hu : Unread e es)
    (hlast : ackedOn e es = readsOn e es ++ [bytes]) (hacked : DialogEvent.acked e x = none)
    (hread : readsOn e (es ++ [x]) = readsOn e es ++ [bytes])
    (hrearmed : DialogEvent.rearms e x = false) :
    Unarmed e (es ++ [x]) ∧ Kept e (es ++ [x]) d' := by
  have hacks : ackedOn e (es ++ [x]) = ackedOn e es := ackedOn_quiet e es hacked
  have hreads : readsOn e (es ++ [x]) = ackedOn e (es ++ [x]) := by rw [hread, hacks, hlast]
  have hunarmed : Unarmed e (es ++ [x]) := by
    rw [Unarmed, hreads, hacks, rearmsOn_quiet e es hrearmed]
    exact ⟨hu.1, hu.1⟩
  refine ⟨hunarmed, ?_⟩
  constructor
  case rearms_le =>
    rw [hunarmed.2]
    exact Nat.le_succ _
  case order => exact hreads ▸ List.prefix_refl _
  case acked_le => exact Nat.le_of_eq hunarmed.1
  case held =>
    rintro ⟨-, hlen⟩
    have := hunarmed.2
    omega

-- an endpoint that is armed again has nothing unread
private theorem rearmed (h : Kept e es d) (hu : Unarmed e es)
    (hacked : DialogEvent.acked e x = none) (hread : DialogEvent.readOn e x = none)
    (hrearms : rearmsOn e (es ++ [x]) = rearmsOn e es + 1) : Kept e (es ++ [x]) d' := by
  have hacks : ackedOn e (es ++ [x]) = ackedOn e es := ackedOn_quiet e es hacked
  have hreads : readsOn e (es ++ [x]) = readsOn e es := readsOn_quiet e es hread
  obtain ⟨hlen, hlen'⟩ := hu
  constructor
  case rearms_le => exact Nat.le_of_eq (by rw [hreads, hrearms, hlen'])
  case order =>
    rw [hreads, hacks]
    exact h.order
  case acked_le =>
    rw [hacks, hrearms]
    omega
  case held =>
    rintro ⟨ha, -⟩
    rw [hacks, hrearms] at ha
    omega

end Kept

/-! ### The steps -/

namespace Received

variable {es : List DialogEvent} {s s' : Dialog} {x : DialogEvent}

-- A step that touches one endpoint keeps the invariant if it keeps that endpoint's part: the
-- others stay in the queue and in the firmware's hand as they are.
private theorem frame (h : Received es s) (e : Fin 16)
    (hothers : ∀ e', e ≠ e' → Unmoved e' x s.lib s'.lib)
    (hown : ∀ (i : Nat) b, s'.lib.bdt[i]? = some b → b.out.addr = i)
    (hkept : Kept e (es ++ [x]) s'.lib)
    (hqueued : ∀ ep ∈ s'.lib.epQueue.contents,
      ep = outEp e ∧ Unread e (es ++ [x]) ∨ ep ≠ outEp e ∧ ep ∈ s.lib.epQueue.contents)
    (hnodup : s'.lib.epQueue.contents.Nodup)
    (hread : ∀ ep, s'.pc = .read ep →
      ep ≠ outEp e ∧ s.pc = .read ep ∧ ep ∉ s'.lib.epQueue.contents)
    (hrearm : ∀ ep, s'.pc = .rearm ep →
      ep = outEp e ∧ Unarmed e (es ++ [x]) ∨ ep ≠ outEp e ∧ s.pc = .rearm ep) :
    Received (es ++ [x]) s' := by
  have hne : ∀ {e' : Fin 16}, outEp e' ≠ outEp e → e ≠ e' := by
    rintro e' hep rfl
    exact hep rfl
  constructor
  case own => exact hown
  case kept =>
    intro e'
    by_cases he : e = e'
    · rw [← he]
      exact hkept
    · exact (hothers e' he).kept (h.kept e')
  case queued =>
    intro ep hep
    rcases hqueued ep hep with ⟨rfl, hu⟩ | ⟨hother, hep⟩
    · exact ⟨e, rfl, hu⟩
    · obtain ⟨e', rfl, hu⟩ := h.queued ep hep
      exact ⟨e', rfl, (hothers e' (hne hother)).unread.mpr hu⟩
  case queue_nodup => exact hnodup
  case reading =>
    intro ep hep
    obtain ⟨hother, hpc, hm⟩ := hread ep hep
    obtain ⟨e', rfl, hu, -⟩ := h.reading ep hpc
    exact ⟨e', rfl, (hothers e' (hne hother)).unread.mpr hu, hm⟩
  case rearming =>
    intro ep hep
    rcases hrearm ep hep with ⟨rfl, hu⟩ | ⟨hother, hpc⟩
    · exact ⟨e, rfl, hu⟩
    · obtain ⟨e', rfl, hu⟩ := h.rearming ep hpc
      exact ⟨e', rfl, (hothers e' (hne hother)).unarmed.mpr hu⟩

private theorem quiet (h : Received es s) (hall : ∀ e, Unmoved e x s.lib s'.lib)
    (hbdt : s'.lib.bdt = s.lib.bdt)
    (hsub : ∀ ep ∈ s'.lib.epQueue.contents, ep ∈ s.lib.epQueue.contents)
    (hnodup : s'.lib.epQueue.contents.Nodup)
    (hread : ∀ ep, s'.pc = .read ep →
      ∃ e, ep = outEp e ∧ Unread e es ∧ ep ∉ s'.lib.epQueue.contents)
    (hrearm : ∀ ep, s'.pc = .rearm ep → s.pc = .rearm ep) : Received (es ++ [x]) s' := by
  constructor
  case own =>
    rw [hbdt]
    exact h.own
  case kept => exact fun e ↦ (hall e).kept (h.kept e)
  case queued =>
    intro ep hep
    obtain ⟨e, rfl, hu⟩ := h.queued ep (hsub ep hep)
    exact ⟨e, rfl, (hall e).unread.mpr hu⟩
  case queue_nodup => exact hnodup
  case reading =>
    intro ep hep
    obtain ⟨e, rfl, hu, hm⟩ := hread ep hep
    exact ⟨e, rfl, (hall e).unread.mpr hu, hm⟩
  case rearming =>
    intro ep hep
    obtain ⟨e, rfl, hu⟩ := h.rearming ep (hrearm ep hep)
    exact ⟨e, rfl, (hall e).unarmed.mpr hu⟩

private theorem refuse (h : Received es s) {addr : Int} {e : Fin 16} {pid : UsbPid}
    {payload : List UInt8} {r : Response} (hr : r.isAck = false)
    (hbdt : s'.lib.bdt = s.lib.bdt) (hbuf : s'.lib.buffers = s.lib.buffers)
    (hq : s'.lib.epQueue = s.lib.epQueue) (hpc : s'.pc = s.pc) :
    Received (es ++ [(.packet addr e pid payload, .response r)]) s' := by
  apply h.quiet _ hbdt
  · rw [hq]
    exact fun _ hep ↦ hep
  · rw [hq]
    exact h.queue_nodup
  · rw [hq, hpc]
    exact h.reading
  · rw [hpc]
    exact fun _ hep ↦ hep
  · intro e'
    refine ⟨?_, rfl, rfl, by rw [hbdt], by rw [hbuf]⟩
    cases r with
    | ack => cases hr
    | _ => rfl

private theorem poll (h : Received es s) (hdone : isTransferDone s.lib = true) :
    Received (es ++ [(.poll, .event (getTrnStatus s.lib).1)])
      ⟨(getTrnStatus s.lib).2, .read (getTrnStatus s.lib).1⟩ := by
  have hpop := Ring.contents_pop s.lib.epQueue hdone
  have hnodup := h.queue_nodup
  rw [hpop, List.nodup_cons] at hnodup
  refine h.quiet (fun _ ↦ ⟨rfl, rfl, rfl, rfl, rfl⟩) rfl ?_ ?_ ?_ ?_
  · intro ep hep
    rw [hpop]
    exact List.mem_cons_of_mem _ hep
  · exact hnodup.2
  · intro ep hep
    cases hep
    have hm : s.lib.epQueue.pop.1 ∈ s.lib.epQueue.contents := by
      rw [hpop]
      exact List.mem_cons_self
    obtain ⟨e, he, hu⟩ := h.queued _ hm
    exact ⟨e, he, hu, hnodup.1⟩
  · exact nofun

private theorem copy_received {d : UsbLib} {b : EpBufDsc} {buf : Buffer} {e : Fin 16}
    {payload : List UInt8} {sz : Int} {pid : UsbPid} (hget : d.buffers[e.val]? = some buf)
    (hsz : sz = min (b.out.cnt.toNat : Int) payload.length)
    (hbuf : s'.lib.buffers = d.buffers.set e
      { buf with data := writeAt buf.data 0 (payload.take sz.toNat) }) :
    copyFromBuffer s'.lib e (b.out.received pid sz).cnt.toNat = payload.take sz.toNat := by
  obtain ⟨hlt, -⟩ := List.getElem?_eq_some_iff.mp hget
  have hcnt : (b.out.received pid sz).cnt.toNat = sz.toNat := by
    have hb := b.out.cnt.isLt
    simp only [BdfEntry.received, BitVec.toNat_ofInt]
    omega
  have hlen : (payload.take sz.toNat).length = sz.toNat := by
    rw [List.length_take]
    omega
  rw [copyFromBuffer, hbuf, List.getElem?_set_self hlt, hcnt]
  change (writeAt buf.data 0 (payload.take sz.toNat)).take sz.toNat = _
  rw [writeAt]
  simp only [Int.toNat_zero, List.take_zero, List.nil_append]
  exact List.take_left' hlen

private theorem receive (h : Received es s) {addr : Int} {e : Fin 16} {pid : UsbPid}
    {payload : List UInt8} {b : EpBufDsc} {buf : Buffer} {sz : Int}
    (hclear : (ackedOn e es).length = rearmsOn e es) (hb : s.lib.bdt[e.val]? = some b)
    (hget : s.lib.buffers[b.out.addr]? = some buf)
    (hsz : sz = min (b.out.cnt.toNat : Int) payload.length)
    (hbdt : s'.lib.bdt = s.lib.bdt.set e { b with out := b.out.received pid sz })
    (hbuf : s'.lib.buffers = s.lib.buffers.set b.out.addr
      { buf with data := writeAt buf.data 0 (payload.take sz.toNat) })
    (hq : s'.lib.epQueue = s.lib.epQueue.push (outEp e)) (hpc : s'.pc = s.pc) :
    Received (es ++ [(.packet addr e pid payload, .response (.ack sz []))]) s' := by
  have haddr : b.out.addr = e := h.own e b hb
  rw [haddr] at hget hbuf
  obtain ⟨hlt, -⟩ := List.getElem?_eq_some_iff.mp hb
  -- nothing was unread on the endpoint, so no event of it is queued or being handled
  have hnot : ¬ Unread e es := by
    rintro ⟨hu, -⟩
    omega
  have hfree : outEp e ∉ s.lib.epQueue.contents := by
    intro hm
    obtain ⟨e', he', hu⟩ := h.queued _ hm
    rw [← outEp_inj he'] at hu
    exact hnot hu
  generalize hx : ((.packet addr e pid payload, .response (.ack sz [])) : DialogEvent) = x
  have hacked : ackedOn e (es ++ [x]) = ackedOn e es ++ [payload.take sz.toNat] := by
    rw [← hx, ackedOn_ack, if_pos rfl]
  have hentry : s'.lib.bdt[e.val]? = some { b with out := b.out.received pid sz } := by
    rw [hbdt, List.getElem?_set_self hlt]
  obtain ⟨hunread, hkept⟩ : Unread e (es ++ [x]) ∧ Kept e (es ++ [x]) s'.lib :=
    (h.kept e).acked hclear hacked (by rw [← hx]; rfl) (by rw [← hx]; rfl) hentry
      (copy_received hget hsz hbuf)
  apply h.frame e
  case hothers =>
    intro e' he
    have hv : e.val ≠ e'.val := fun hv ↦ he (Fin.ext hv)
    rw [← hx]
    refine ⟨if_neg he, rfl, rfl, ?_, ?_⟩
    · rw [hbdt, List.getElem?_set_ne hv]
    · rw [hbuf, List.getElem?_set_ne hv]
  case hown =>
    intro i b' hb'
    rw [hbdt, List.getElem?_set] at hb'
    split at hb'
    · next hi =>
      obtain rfl := Option.some.inj hb'
      rw [← hi]
      exact haddr
    · exact h.own i b' hb'
  case hkept => exact hkept
  case hqueued =>
    intro ep hep
    rw [hq] at hep
    rcases Ring.mem_contents_push hep with hep | hep
    · refine .inr ⟨?_, hep⟩
      rintro rfl
      exact hfree hep
    · exact .inl ⟨hep, hunread⟩
  case hnodup =>
    rw [hq]
    exact Ring.nodup_contents_push h.queue_nodup hfree
  case hread =>
    intro ep hep
    rw [hpc] at hep
    obtain ⟨e', rfl, hu, hm⟩ := h.reading ep hep
    have hne : outEp e' ≠ outEp e := by
      intro heq
      rw [outEp_inj heq] at hu
      exact hnot hu
    refine ⟨hne, hep, fun hm' ↦ ?_⟩
    rw [hq] at hm'
    rcases Ring.mem_contents_push hm' with hm' | hm'
    · exact hm hm'
    · exact hne hm'
  case hrearm =>
    intro ep hep
    rw [hpc] at hep
    obtain ⟨e', rfl, ha, -⟩ := h.rearming ep hep
    refine .inr ⟨fun heq ↦ ?_, hep⟩
    rw [outEp_inj heq] at ha
    omega

private theorem read (h : Received es s) {ep : BitVec 8} {b : EpBufDsc} (hpc : s.pc = .read ep)
    (hb : s.lib.bdt[ep.toNat]? = some b) :
    Received (es ++ [(.read, .bytes ep (copyFromBuffer s.lib ep.toNat b.out.cnt.toNat))])
      { s with pc := .rearm ep } := by
  obtain ⟨e, rfl, hu, hm⟩ := h.reading ep hpc
  rw [outEp_toNat] at hb ⊢
  obtain ⟨b', hb', hlast⟩ := (h.kept e).held hu
  obtain rfl : b' = b := Option.some.inj (hb'.symm.trans hb)
  generalize hx : ((.read, .bytes (outEp e) (copyFromBuffer s.lib e b'.out.cnt.toNat)) :
    DialogEvent) = x
  obtain ⟨hunarmed, hkept⟩ : Unarmed e (es ++ [x]) ∧ Kept e (es ++ [x]) s.lib :=
    Kept.read hu hlast (by rw [← hx]; rfl) (by rw [← hx, readsOn_bytes, if_pos rfl])
      (by rw [← hx]; rfl)
  apply h.frame e
  case hothers =>
    intro e' he
    rw [← hx]
    exact ⟨rfl, if_neg fun heq ↦ he (outEp_inj heq), rfl, rfl, rfl⟩
  case hown => exact h.own
  case hkept => exact hkept
  case hqueued =>
    intro ep hep
    refine .inr ⟨?_, hep⟩
    rintro rfl
    exact hm hep
  case hnodup => exact h.queue_nodup
  case hread =>
    intro ep hep
    cases hep
  case hrearm =>
    intro ep hep
    cases hep
    exact .inl ⟨rfl, hunarmed⟩

private theorem rearm (h : Received es s) {ep : BitVec 8} (transferType : BitVec 8) (size : Int)
    (hpc : s.pc = .rearm ep) (hout : transferType &&& 0x80 = 0) :
    Received (es ++ [(.rearm transferType size, .armed ep)])
      ⟨usbEpTransfStart s.lib ep.toNat transferType ep.toNat size, .idle⟩ := by
  obtain ⟨e, rfl, hunarmed⟩ := h.rearming ep hpc
  rw [outEp_toNat]
  generalize hx : ((.rearm transferType size, .armed (outEp e)) : DialogEvent) = x
  have hrearms : rearmsOn e (es ++ [x]) = rearmsOn e es + 1 := by
    rw [← hx, rearmsOn_armed, if_pos rfl]
  have hget : ∀ i, (usbEpTransfStart s.lib e transferType e size).bdt[i]? =
      if e.val = i then s.lib.bdt[i]?.map fun b ↦ { b with out := .start transferType e size }
      else s.lib.bdt[i]? := by
    intro i
    rw [usbEpTransfStart_entry]
    simp only [EpBufDsc.start, hout, ne_eq, not_true_eq_false, if_false]
  apply h.frame e
  case hothers =>
    intro e' he
    have hv : e.val ≠ e'.val := fun hv ↦ he (Fin.ext hv)
    rw [← hx]
    refine ⟨rfl, rfl, ?_, ?_, rfl⟩
    · exact beq_eq_false_iff_ne.mpr fun heq ↦ he (outEp_inj heq)
    · rw [hget, if_neg hv]
  case hown =>
    intro i b hb
    rw [hget] at hb
    split at hb
    · next hi =>
      obtain ⟨b', -, rfl⟩ := Option.map_eq_some_iff.mp hb
      exact hi
    · exact h.own i b hb
  case hkept =>
    exact (h.kept e).rearmed hunarmed (by rw [← hx]; rfl) (by rw [← hx]; rfl) hrearms
  case hqueued =>
    intro ep hep
    refine .inr ⟨?_, hep⟩
    -- the armed endpoint has nothing unread, so no event of it is queued
    rintro rfl
    obtain ⟨e', he', -, hu⟩ := h.queued _ hep
    rw [← outEp_inj he'] at hu
    have := hunarmed.2
    omega
  case hnodup => exact h.queue_nodup
  case hread =>
    intro ep hep
    cases hep
  case hrearm =>
    intro ep hep
    cases hep

end Received

private theorem received_boot (addr : BitVec 8) (cfg : List EpConfig) :
    Received [] (dialogBoot addr cfg) where
  own := by
    intro i b hb
    simp only [dialogBoot, List.getElem?_mapIdx] at hb
    obtain ⟨c, -, rfl⟩ := Option.map_eq_some_iff.mp hb
    cases c.first with
    | none => rfl
    | some f => rfl
  kept _ := ⟨Nat.le_refl 0, List.prefix_refl _, Nat.zero_le _, fun h ↦ by cases h.1⟩
  queued := nofun
  queue_nodup := List.nodup_nil
  reading := nofun
  rearming := nofun

private theorem received_step {es : List DialogEvent}
    {s s' : Dialog} {op : DialogOp} {out : DialogOut}
    (hclear : ∀ a e pid payload, op = .packet a e pid payload →
      s.lib.admits a e pid payload.length = true → (ackedOn e es).length = rearmsOn e es)
    (h : Received es s) (hx : dialogExec s op = .ok (s', out)) :
    Received (es ++ [(op, out)]) s' := by
  cases op with
  | packet a e pid payload =>
    simp only [dialogExec] at hx
    split at hx
    · next hpid =>
      split at hx
      · next lib r ht =>
        cases hx
        cases packetStep_of_transfer hpid ht with
        | refused hbdt hbuf hq hr => exact h.refuse hr hbdt hbuf hq rfl
        | received hadm hb hget _ hsz hbdt hbuf hq =>
          exact h.receive (hclear a e pid payload rfl hadm) hb hget hsz hbdt hbuf hq rfl
      · exact nomatch hx
    · exact nomatch hx
  | poll =>
    simp only [dialogExec] at hx
    split at hx
    · next hidle =>
      cases hx
      exact h.poll hidle.2
    · exact nomatch hx
  | read =>
    simp only [dialogExec] at hx
    split at hx
    · next ep hpc =>
      split at hx
      · next b hb =>
        cases hx
        exact h.read hpc hb
      · exact nomatch hx
    · exact nomatch hx
  | rearm transferType size =>
    simp only [dialogExec] at hx
    split at hx
    · next ep hpc =>
      split at hx
      · next hout =>
        cases hx
        exact h.rearm transferType size hpc hout
      · exact nomatch hx
    · exact nomatch hx

/-- While the host keeps the handshake, the firmware reads on every endpoint what was
acknowledged there, in order, each packet once. -/
theorem DialogRun.reads_acked {addr : BitVec 8} {cfg : List EpConfig} {es : List DialogEvent}
    {s : Dialog} (h : DialogRun (dialogBoot addr cfg) es s)
    (hh : Handshake (dialogBoot addr cfg) es) (e : Fin 16) : readsOn e es <+: ackedOn e es := by
  have hinv : Handshake (dialogBoot addr cfg) es → Received es s := by
    refine h.invariant (P := fun es s ↦ Handshake (dialogBoot addr cfg) es → Received es s)
      (fun _ ↦ received_boot addr cfg) ?_
    intro es s x s' hrun ih hfire hh
    have hpast : Handshake (dialogBoot addr cfg) es := by
      intro past rest t a e pid payload out hes
      exact hh past (rest ++ [x]) t a e pid payload out (by rw [hes]; simp)
    refine received_step ?_ (ih hpast) hfire
    intro a e pid payload hop hadm
    refine hh es [] s a e pid payload x.2 ?_ hrun hadm
    rw [← hop]
  exact ((hinv hh).kept e).order

private def keepsHandshake (past : List DialogEvent) (s : Dialog) : DialogEvent → Bool
  | (.packet addr e pid payload, _) =>
    !s.lib.admits addr e pid payload.length || (ackedOn e past).length == rearmsOn e past
  | _ => true

private theorem handshake_of_replays {boot : Dialog} {es : List DialogEvent}
    (h : replays dialogExec keepsHandshake [] boot es = true) : Handshake boot es := by
  intro past rest s a e pid payload out hes hrun hadm
  have hok := Run.of_replays h hes hrun
  simpa [keepsHandshake, hadm] using hok

private def bulkCfg : List EpConfig := [⟨64, some (0x08, 64)⟩, ⟨8, some (0, 8)⟩]

/-- Two packets, the second after the first was read and the endpoint armed again. -/
theorem DialogRun.reads_acked_example : ∃ es s, DialogRun (dialogBoot 5 bulkCfg) es s ∧
    ackedOn 1 es = [[1, 2], [3]] ∧ readsOn 1 es <+: ackedOn 1 es := by
  have hcheck : runsTo dialogExec (dialogBoot 5 bulkCfg)
      [.packet 5 1 .data0 [1, 2], .poll, .read, .rearm 0 8, .packet 5 1 .data1 [3], .poll, .read]
      (fun _ es ↦ replays dialogExec keepsHandshake [] (dialogBoot 5 bulkCfg) es &&
        decide (ackedOn 1 es = [[1, 2], [3]])) = true := by decide +kernel
  obtain ⟨es, s, hrun, hp⟩ := Run.of_runsTo hcheck
  rw [Bool.and_eq_true, decide_eq_true_eq] at hp
  exact ⟨es, s, hrun, hp.2, DialogRun.reads_acked hrun (handshake_of_replays hp.1) 1⟩

/-- A second packet before the firmware polls takes the place of the first. -/
theorem DialogRun.packet_overwritten : ¬ ∀ addr cfg es s, DialogRun (dialogBoot addr cfg) es s →
    ∀ e, readsOn e es <+: ackedOn e es := by
  intro hall
  have hcheck : runsTo dialogExec (dialogBoot 5 bulkCfg)
      [.packet 5 1 .data0 [1], .packet 5 1 .data1 [2], .poll, .read]
      (fun _ es ↦ !decide (readsOn 1 es <+: ackedOn 1 es)) = true := by decide +kernel
  obtain ⟨es, s, hrun, hp⟩ := Run.of_runsTo hcheck
  simp [hall 5 bulkCfg es s hrun 1] at hp

end BiMpp.Device
