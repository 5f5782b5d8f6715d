import BiMpp.Host.Outgoing
import BiMpp.Usbip.Memory

/-!
# From one end to the other

What a transfer carries between the buffer of its descriptor and the buffers that the firmware
arms: `hcd_gtd_send` with the `memcpy` of `__usb_transfer` and the completion of
`hcd_process_done_list`, `bi-mpp-pic24-usb-simulator-master/src/hcd.c:159–269` and
`src/usb_lib_usbip.c:232–300`. The device's side is read off its buffers, not off what the host
offered or what the device answered.
-/

namespace BiMpp.Usbip
open BiMpp.Usb BiMpp.Base BiMpp.Host BiMpp.Device

/-! ### What a copy moves -/

/-- The bytes that a copy put at the start of a buffer of the device, or took from there. -/
def AttachedOut.moved (lib : UsbLib) : AttachedOut → List UInt8
  | .host _ (some c) => copyFromBuffer lib c.buffer c.size.toNat
  | _ => []

/-- One step of the two ends, with the bytes that its copy moved as the device has them after
it. -/
abbrev deliveryExec : Attached → AttachedOp → Except Fault (Attached × AttachedOut × List UInt8) :=
  watch attachedExec fun s o ↦ o.moved s.lib

/-- A step with what it showed. -/
abbrev DeliveryEvent := AttachedOp × AttachedOut × List UInt8

/-- Finite runs of a controller and a device with these endpoints and buffers. -/
abbrev DeliveryRun (eps : Nat) (buffers : List Buffer) : List DeliveryEvent → Attached → Prop :=
  Run (Fires deliveryExec) ⟨hcdInit, usbInit eps buffers⟩

/-- What the driver did. -/
def deliveryEvents (es : List DeliveryEvent) : List HcdEvent :=
  hostEvents (es.map unwatched)

/-- The bytes of a step, if it was made for the descriptor at `g`. -/
def DeliveryEvent.movedFor (g : GtdPtr) (p : Slot → List GtdPtr) (e : DeliveryEvent) :
    List UInt8 :=
  match AttachedEvent.host (unwatched e) with
  | some d => if (HcdEvent.servedFor g p d).isSome then e.2.2 else []
  | none => []

/-- The bytes moved for the descriptor at `g`, from where `p` is waiting. -/
def movedFrom (g : GtdPtr) : (Slot → List GtdPtr) → List DeliveryEvent → List UInt8
  | _, [] => []
  | p, e :: es => DeliveryEvent.movedFor g p e ++
      movedFrom g ((AttachedEvent.host (unwatched e)).elim p (HcdEvent.pending p)) es

/-- The bytes moved for the descriptor at `g`, in order. -/
def movedFor (g : GtdPtr) (es : List DeliveryEvent) : List UInt8 := movedFrom g (fun _ ↦ []) es

private theorem deliveryEvents_snoc (es : List DeliveryEvent) (e : DeliveryEvent) :
    deliveryEvents (es ++ [e]) =
      deliveryEvents es ++ (AttachedEvent.host (unwatched e)).toList := by
  rw [deliveryEvents, List.map_append, List.map_singleton, hostEvents_snoc]
  rfl

private theorem movedFrom_snoc (g : GtdPtr) (p : Slot → List GtdPtr) (es : List DeliveryEvent)
    (e : DeliveryEvent) : movedFrom g p (es ++ [e]) =
      movedFrom g p es ++
        DeliveryEvent.movedFor g ((deliveryEvents es).foldl HcdEvent.pending p) e := by
  induction es generalizing p with
  | nil => simp [movedFrom, deliveryEvents, hostEvents]
  | cons x es ih =>
    rw [List.cons_append, movedFrom, movedFrom, ih, List.append_assoc]
    congr 3
    have hcons : deliveryEvents (x :: es) =
        (AttachedEvent.host (unwatched x)).toList ++ deliveryEvents es := by
      unfold deliveryEvents hostEvents
      rw [List.map_cons, List.filterMap_cons]
      cases AttachedEvent.host (unwatched x) <;> rfl
    rw [hcons, List.foldl_append]
    cases AttachedEvent.host (unwatched x) <;> rfl

private theorem movedFor_snoc (g : GtdPtr) (es : List DeliveryEvent) (e : DeliveryEvent) :
    movedFor g (es ++ [e]) =
      movedFor g es ++ DeliveryEvent.movedFor g (pendingAfter (deliveryEvents es)) e :=
  movedFrom_snoc g _ es e

/-! ### One transaction -/

section Transfer

variable {d d' : UsbLib} {addr size n : Int} {ep : BitVec 8} {pid : UsbPid} {data : List UInt8}

/-- What the device acknowledged of the bytes offered to it is at the start of the buffer. -/
theorem usbTransfer_stores (hsize : 0 ≤ size) (hpid : UsbPid.isData pid = true)
    (hep : (ep &&& 0x80 != 0) = false) (hlen : size.toNat ≤ data.length) {bytes : List UInt8}
    (h : usbTransfer d addr ep pid data size = .ok (d', .ack n bytes)) :
    ∃ c, transferCopy d addr ep pid size = some c ∧
      copyFromBuffer d' c.buffer c.size.toNat = data.take n.toNat := by
  obtain ⟨hcopied, hack⟩ := usbTransfer_copied hsize h
  obtain ⟨c, hc⟩ := Option.isSome_iff_exists.mp (hack hpid rfl)
  have hdir := (transferCopy_toHost hc).trans hep
  rw [hc] at hcopied
  refine ⟨c, hc, ?_⟩
  cases hcopied with
  | @out _ bi buf _ hb hpos hle hroom hbufs =>
    obtain ⟨hlt, -⟩ := List.getElem?_eq_some_iff.mp hb
    have hget : d'.buffers[bi]? =
        some { buf with data := writeAt buf.data 0 (data.take n.toNat) } := by
      rw [hbufs, List.getElem?_set_self hlt]
    have htake : (data.take n.toNat).length = n.toNat := by
      rw [List.length_take]
      omega
    simp only [copyFromBuffer, hget, writeAt, Int.toNat_zero, List.take_zero, List.nil_append]
    rw [List.take_append_of_le_length (Nat.le_of_eq htake.symm), List.take_take, Nat.min_self]
  | inn => cases hdir

/-- What the device sends is at the start of the buffer. -/
theorem usbTransfer_loads (hsize : 0 ≤ size) (hpid : UsbPid.isData pid = true)
    (hep : (ep &&& 0x80 != 0) = true) {bytes : List UInt8}
    (h : usbTransfer d addr ep pid data size = .ok (d', .ack n bytes)) :
    ∃ c, transferCopy d addr ep pid size = some c ∧
      copyFromBuffer d' c.buffer c.size.toNat = bytes := by
  obtain ⟨hcopied, hack⟩ := usbTransfer_copied hsize h
  obtain ⟨c, hc⟩ := Option.isSome_iff_exists.mp (hack hpid rfl)
  have hdir := (transferCopy_toHost hc).trans hep
  rw [hc] at hcopied
  refine ⟨c, hc, ?_⟩
  cases hcopied with
  | out => cases hdir
  | inn hb hpos hle hroom hbufs => simp only [copyFromBuffer, hbufs, hb]

end Transfer

/-! ### Runs -/

section Runs

variable {eps : Nat} {buffers : List Buffer} {es : List DeliveryEvent} {s s' : Attached}
  {e : DeliveryEvent}

private theorem Transferred.quiet {a a' : Attached} {o : AttachedOut} {d : HcdEvent}
    {t : Transaction} (h : Transferred a a' o d t) (hsize : 0 ≤ t.packet.size)
    (hack : t.response.isAck = false) : o = .host d none := by
  have hcopied := (usbTransfer_copied hsize h.transfer).1
  have hcopy := h.copy
  generalize transferCopy _ _ _ _ _ = c at hcopied hcopy
  generalize t.response = r at hcopied hack
  cases hcopied with
  | none => exact hcopy
  | out => cases hack
  | inn => cases hack

private theorem moved_step (hrun : DeliveryRun eps buffers es s)
    (hbufs : ∀ b ∈ buffers, (b.data.length : Int) = b.size)
    (hsized : ∀ l ∈ links (deliveryEvents (es ++ [e])), l.2.Sized)
    (hstep : Fires deliveryExec s e s') {d : HcdEvent} {t : Transaction}
    (hd : AttachedEvent.host (unwatched e) = some d) (ht : HcdEvent.transaction d = some t) :
    e.2.2 = t.moved := by
  obtain ⟨hfire, hview⟩ := fires_watch.mp hstep
  have hx := transferred_of_exec hfire hd ht
  have hlast : deliveryEvents (es ++ [e]) = deliveryEvents es ++ [d] := by
    rw [deliveryEvents_snoc, hd]
    rfl
  have hold : ∀ l ∈ links (deliveryEvents es), l ∈ links (deliveryEvents (es ++ [e])) := by
    intro l hl
    rw [hlast, links_snoc]
    exact List.mem_append_left _ hl
  have hdriver : HcdRun (deliveryEvents es) s.hcd := AttachedRun.driver hrun.of_watch
  have hafter : HcdRun (deliveryEvents (es ++ [e])) s'.hcd :=
    AttachedRun.driver (Run.snoc hrun hstep).of_watch
  have hpast := AttachedRun.contained hrun.of_watch hbufs fun l hl ↦ (hsized l (hold l hl)).1
  have hfits := (AttachedRun.contained (Run.snoc hrun hstep).of_watch hbufs
    fun l hl ↦ (hsized l hl).1).fits
  obtain ⟨g, a, hreach⟩ :=
    hdriver.reaches (fun l hl ↦ (hsized l (hold l hl)).1) hpast.fits hx.driver ht
  have hlink := hold _ hreach.linked
  have hmem : t ∈ transactionsOf g (deliveryEvents (es ++ [e])) := by
    rw [hlast, hreach.served]
    simp
  have hserved := fits_transactionsOf hfits g
  have hnumber := hreach.number
  unfold LinkArgs.endpoint at hnumber
  have hbits := (t.packet.ep_bits (by omega) (by omega)).2
  cases hack : t.response.isAck with
  | false =>
    have hquiet : e.2.1 = .host d none := hx.quiet hreach.size hack
    have hbytes : t.response.bytes = [] := by
      cases hr : t.response with
      | ack n bytes =>
        rw [hr] at hack
        cases hack
      | _ => rfl
    rw [hview, hquiet, Transaction.moved, Transaction.accepted_quiet hack, hbytes, ite_self]
    rfl
  | true =>
    have hcopy : e.2.1 = _ := hx.copy
    cases hr : t.response with
    | ack n bytes =>
      have htransfer := hr ▸ hx.transfer
      rw [hview, hcopy]
      cases hin : t.packet.dirIn with
      | true =>
        obtain ⟨c, hc, hloads⟩ :=
          usbTransfer_loads hreach.size hx.isData (hbits.trans hin) htransfer
        rw [hc, Transaction.moved, if_pos hin, hr]
        exact hloads
      | false =>
        have hout : a.dir = false := (hafter.directed hlink hserved t hmem).symm.trans hin
        obtain ⟨-, hoffers, -⟩ := hafter.outgoing hlink hout (hsized _ hlink) hserved
        obtain ⟨c, hc, hstores⟩ := usbTransfer_stores hreach.size hx.isData (hbits.trans hin)
          (Nat.le_of_eq (hoffers t hmem).symm) htransfer
        rw [hc, Transaction.moved, if_neg (Bool.eq_false_iff.mp hin), Transaction.accepted, hr]
        exact hstores
    | _ =>
      rw [hr] at hack
      cases hack

/-- What was moved for a descriptor is what its transactions say. -/
theorem DeliveryRun.moved (hrun : DeliveryRun eps buffers es s)
    (hbufs : ∀ b ∈ buffers, (b.data.length : Int) = b.size)
    (hsized : ∀ l ∈ links (deliveryEvents es), l.2.Sized) (g : GtdPtr) :
    movedFor g es = (transactionsOf g (deliveryEvents es)).flatMap Transaction.moved := by
  refine Run.invariant (P := fun es _ ↦ (∀ l ∈ links (deliveryEvents es), l.2.Sized) →
    movedFor g es = (transactionsOf g (deliveryEvents es)).flatMap Transaction.moved) ?_ ?_ hrun
    hsized
  · exact fun _ ↦ rfl
  · intro es s e s' hrun ih hstep hsized
    have hpast : ∀ l ∈ links (deliveryEvents es), l.2.Sized := by
      intro l hl
      apply hsized
      rw [deliveryEvents_snoc, links, List.filterMap_append]
      exact List.mem_append_left _ hl
    rw [movedFor_snoc, deliveryEvents_snoc, ih hpast]
    cases hd : AttachedEvent.host (unwatched e) with
    | none =>
      rw [DeliveryEvent.movedFor, hd, Option.toList_none, List.append_nil, List.append_nil]
    | some d =>
      rw [Option.toList_some, transactionsOf_snoc, List.flatMap_append, DeliveryEvent.movedFor, hd]
      congr 1
      cases ht : HcdEvent.servedFor g (pendingAfter (deliveryEvents es)) d with
      | none => simp [ht]
      | some t =>
        have htransaction : HcdEvent.transaction d = some t := by
          unfold HcdEvent.servedFor at ht
          exact (Option.filter_eq_some_iff.mp ht).1
        simpa [ht] using moved_step hrun hbufs hsized hstep hd htransaction

/-- What a client sends arrives: in every run of the controller and a device with declared
buffers, whatever the firmware arms and when, the bytes that the device has found in its buffers
for a SETUP or OUT transfer are, in order and with none left out or repeated, the beginning of
the client's buffer, and its completion counts them. -/
theorem DeliveryRun.arrives (hrun : DeliveryRun eps buffers es s)
    (hbufs : ∀ b ∈ buffers, (b.data.length : Int) = b.size)
    (hsized : ∀ l ∈ links (deliveryEvents es), l.2.Sized) {g : GtdPtr} {a : LinkArgs}
    (hlink : (g, a) ∈ links (deliveryEvents es)) (hout : a.dir = false) :
    movedFor g es <+: a.data ∧ ∀ c ∈ completions (deliveryEvents es), c.gtd = g →
      c.length = ((movedFor g es).length : Int) := by
  have hdriver : HcdRun (deliveryEvents es) s.hcd := AttachedRun.driver hrun.of_watch
  have hfits := fits_transactionsOf (AttachedRun.contained hrun.of_watch hbufs
    fun l hl ↦ (hsized l hl).1).fits g
  obtain ⟨hpre, -, hcount⟩ := hdriver.outgoing hlink hout (hsized _ hlink) hfits
  have hmoved := (hrun.moved hbufs hsized g).trans (hdriver.moved hlink hfits)
  rw [hout, if_neg Bool.false_ne_true] at hmoved
  rw [hmoved]
  exact ⟨hpre ▸ List.take_prefix _ _, fun c hc hg ↦ (hcount c hc hg).1⟩

/-- What a device sends arrives: the buffer that a completed IN transfer gives back holds the
bytes that its transactions found in the buffers the firmware had armed, one after the other,
and behind them what it held before. -/
theorem DeliveryRun.returns (hrun : DeliveryRun eps buffers es s)
    (hbufs : ∀ b ∈ buffers, (b.data.length : Int) = b.size)
    (hsized : ∀ l ∈ links (deliveryEvents es), l.2.Sized) {g : GtdPtr} {a : LinkArgs}
    (hlink : (g, a) ∈ links (deliveryEvents es)) (hin : a.dir = true) (hsetup : a.setup = false)
    {c : Completion} (hc : c ∈ completions (deliveryEvents es)) (hg : c.gtd = g) :
    c.length = ((movedFor g es).length : Int) ∧
      c.data = movedFor g es ++ a.data.drop (movedFor g es).length := by
  have hdriver : HcdRun (deliveryEvents es) s.hcd := AttachedRun.driver hrun.of_watch
  have hfits := fits_transactionsOf (AttachedRun.contained hrun.of_watch hbufs
    fun l hl ↦ (hsized l hl).1).fits g
  obtain ⟨q, hq, -⟩ := hdriver.queues
  have hdelivered := hq.delivered hlink hin hsetup (hsized _ hlink) hfits hc hg
  have hmoved := (hrun.moved hbufs hsized g).trans (hdriver.moved hlink hfits)
  rw [hin, if_pos rfl] at hmoved
  rw [hmoved]
  exact ⟨hdelivered.length, hdelivered.data⟩

end Runs

private def outAndIn : List AttachedOp :=
  [.call .enable, .link ⟨0, 1, false, false, 2, 2, [5, 6, 7], 3, ⟨10, 3⟩⟩,
    .call (.transfStart 1 0x08 0 4), .send .bulk (some 0), .call (.transfStart 1 0x08 1 4),
    .send .bulk (some 0), .processDoneList, .link ⟨0, 1, true, false, 2, 2, [0, 0], 2, ⟨11, 2⟩⟩,
    .call (.transfStart 1 0x80 0 2), .send .bulk (some 0), .processDoneList]

private def twoBuffers : List Buffer := [⟨4, [0, 0, 0, 0]⟩, ⟨4, [0, 0, 0, 0]⟩]

private def outLink : LinkArgs := ⟨0, 1, false, false, 2, 2, [5, 6, 7], 3, ⟨10, 3⟩⟩

private def inLink : LinkArgs := ⟨0, 1, true, false, 2, 2, [0, 0], 2, ⟨11, 2⟩⟩

private theorem outAndIn_runs : ∃ es s, DeliveryRun 2 twoBuffers es s ∧
    (movedFor 0 es = [5, 6, 7] ∧ movedFor 1 es = [5, 6]) ∧
    (0, outLink) ∈ links (deliveryEvents es) ∧ (1, inLink) ∈ links (deliveryEvents es) ∧
    (∃ c ∈ completions (deliveryEvents es), c.gtd = 1) ∧
    ∀ l ∈ links (deliveryEvents es), l.2.Sized := by
  have hcheck : runsTo deliveryExec ⟨hcdInit, usbInit 2 twoBuffers⟩ outAndIn
      (fun _ es ↦ decide ((movedFor 0 es = [5, 6, 7] ∧ movedFor 1 es = [5, 6]) ∧
        (0, outLink) ∈ links (deliveryEvents es) ∧ (1, inLink) ∈ links (deliveryEvents es) ∧
        (∃ c ∈ completions (deliveryEvents es), c.gtd = 1) ∧
        ∀ l ∈ links (deliveryEvents es), l.2.Sized)) = true := by decide +kernel
  obtain ⟨es, s, hrun, hp⟩ := Run.of_runsTo hcheck
  exact ⟨es, s, hrun, of_decide_eq_true hp⟩

/-- Three bytes of an OUT transfer arrive in the buffer of the device. -/
theorem DeliveryRun.arrives_three : ∃ es s, DeliveryRun 2 twoBuffers es s ∧
    movedFor 0 es = [5, 6, 7] ∧ movedFor 0 es <+: outLink.data ∧
    ∀ c ∈ completions (deliveryEvents es), c.gtd = 0 →
      c.length = ((movedFor 0 es).length : Int) := by
  obtain ⟨es, s, hrun, ⟨hbytes, -⟩, hlink, -, -, hsized⟩ := outAndIn_runs
  obtain ⟨hpre, hcount⟩ := DeliveryRun.arrives hrun (by decide) hsized hlink rfl
  exact ⟨es, s, hrun, hbytes, hpre, hcount⟩

/-- Two bytes of the device come back in an IN transfer. -/
theorem DeliveryRun.returns_two : ∃ es s, DeliveryRun 2 twoBuffers es s ∧
    movedFor 1 es = [5, 6] ∧ ∃ c ∈ completions (deliveryEvents es), c.gtd = 1 ∧
      c.length = ((movedFor 1 es).length : Int) ∧
      c.data = movedFor 1 es ++ inLink.data.drop (movedFor 1 es).length := by
  obtain ⟨es, s, hrun, ⟨-, hbytes⟩, -, hlink, ⟨c, hc, hg⟩, hsized⟩ := outAndIn_runs
  exact ⟨es, s, hrun, hbytes, c, hc, hg,
    DeliveryRun.returns hrun (by decide) hsized hlink rfl rfl hc hg⟩

end BiMpp.Usbip
