import BiMpp.Base.Run
import BiMpp.Device.Packet

/-!
# The events of the device

`__usb_transfer` puts the endpoint of every acknowledged transaction into a ring of
sixteen cells, the firmware takes it out again:
`bi-mpp-pic24-usb-simulator-master/src/usb_lib_usbip.c:44–84,203–209`. The ring has no
count and refuses nothing, so it is a queue for as long as at most fifteen events wait.
-/

namespace BiMpp.Device
open BiMpp.Usb BiMpp.Base

/-- The calls a firmware makes besides its polls; `usb_lib.h`. -/
inductive FirmwareCall
  | enable
  | disable
  | reset
  | isReset
  | isSof
  | initEp (num : Nat) (epType : BitVec 8)
  | transfStart (num : Nat) (transferType : BitVec 8) (buffer : BufPtr) (size : Int)
  | setAddress (addr : BitVec 8)
  | copyToBuffer (buf : BufPtr) (src : List UInt8) (size : Nat)
  deriving DecidableEq, Repr

/-- What a call does to the library. -/
def UsbLib.call (d : UsbLib) : FirmwareCall → UsbLib
  | .enable => usbEnable d
  | .disable => usbDisable d
  | .reset => usbReset d
  | .isReset => (isReset d).2
  | .isSof => (isSof d).2
  | .initEp num epType => usbInitEp d num epType
  | .transfStart num transferType buffer size => usbEpTransfStart d num transferType buffer size
  | .setAddress addr => usbSetAddress d addr
  | .copyToBuffer buf src size => Device.copyToBuffer d buf src size

/-- The library, and whether the last `is_transfer_done` said yes and its event has not
been taken since. -/
structure Polled where
  lib : UsbLib
  announced : Bool

/-- The host's transactions, the firmware's two polls, and its other calls. -/
inductive PollOp
  | transfer (addr : Int) (ep : BitVec 8) (pid : UsbPid) (data : List UInt8) (size : Int)
  | isTransferDone
  | getTrnStatus
  | call (c : FirmwareCall)
  deriving DecidableEq, Repr

/-- What a step shows. -/
inductive PollOut
  | response (r : Response)
  | done (b : Bool)
  | status (ep : BitVec 8)
  | quiet
  deriving DecidableEq, Repr

/-- One step; `get_trn_status` is called only after `is_transfer_done` returned true. -/
def pollExec (s : Polled) : PollOp → Except Stop (Polled × PollOut)
  | .transfer addr ep pid data size =>
    match usbTransfer s.lib addr ep pid data size with
    | .ok (lib, r) => .ok ({ s with lib := lib }, .response r)
    | .error f => .error (.fault f)
  | .isTransferDone =>
    .ok ({ s with announced := isTransferDone s.lib }, .done (isTransferDone s.lib))
  | .getTrnStatus =>
    if s.announced then
      let (ep, lib) := getTrnStatus s.lib
      .ok (⟨lib, false⟩, .status ep)
    else .error .blocked
  | .call c => .ok ({ s with lib := s.lib.call c }, .quiet)

/-- A step with what it showed. -/
abbrev PollEvent := PollOp × PollOut

/-- Finite runs of a device with these endpoints and buffers, from `usb_init`. -/
abbrev PollRun (eps : Nat) (buffers : List Buffer) : List PollEvent → Polled → Prop :=
  Run (Fires pollExec) ⟨usbInit eps buffers, false⟩

/-! ### Histories -/

/-- The endpoint address of an acknowledged transaction. A bus reset and a start of frame
are no transactions on an endpoint. -/
def PollEvent.acked : PollEvent → Option (BitVec 8)
  | (.transfer _ ep pid _ _, .response r) => if UsbPid.isData pid && r.isAck then some ep else none
  | _ => none

/-- The endpoint address a poll returned. -/
def PollEvent.returned : PollEvent → Option (BitVec 8)
  | (_, .status ep) => some ep
  | _ => none

/-- The endpoint addresses acknowledged, in order. -/
def ackedEps (es : List PollEvent) : List (BitVec 8) := es.filterMap PollEvent.acked

/-- The endpoint addresses returned, in order. -/
def returnedEps (es : List PollEvent) : List (BitVec 8) := es.filterMap PollEvent.returned

/-- An acknowledgement returns nothing to the firmware. -/
theorem PollEvent.returned_of_acked {x : PollEvent} (h : (PollEvent.acked x).isSome) :
    PollEvent.returned x = none := by
  unfold PollEvent.acked at h
  split at h
  · rfl
  · cases h

/-- The polls are right: what they returned is what was acknowledged, in order and once,
and there is an event exactly while something acknowledged has not been returned. -/
structure Faithful (es : List PollEvent) (s : Polled) : Prop where
  order : returnedEps es <+: ackedEps es
  done_iff : isTransferDone s.lib = true ↔ (returnedEps es).length < (ackedEps es).length

/-- Every acknowledgement finds at most fourteen events before it. -/
def Roomy (es : List PollEvent) : Prop :=
  ∀ past x, past ++ [x] <+: es → (PollEvent.acked x).isSome →
    (ackedEps past).length + 1 < (returnedEps past).length + epQueueSize

/-! ### The ring as a queue -/

section Snoc

variable (es : List PollEvent) (x : PollEvent)

private theorem ackedEps_snoc :
    ackedEps (es ++ [x]) = ackedEps es ++ (PollEvent.acked x).toList := by
  unfold ackedEps
  rw [List.filterMap_append]
  cases h : PollEvent.acked x <;> simp [h]

private theorem returnedEps_snoc :
    returnedEps (es ++ [x]) = returnedEps es ++ (PollEvent.returned x).toList := by
  unfold returnedEps
  rw [List.filterMap_append]
  cases h : PollEvent.returned x <;> simp [h]

/-- An acknowledgement counts on one side only. -/
theorem length_of_acked (h : (PollEvent.acked x).isSome) :
    (ackedEps (es ++ [x])).length = (ackedEps es).length + 1 ∧
      (returnedEps (es ++ [x])).length = (returnedEps es).length := by
  rw [ackedEps_snoc, returnedEps_snoc, PollEvent.returned_of_acked h, List.length_append,
    Option.length_toList, if_pos h]
  simp

end Snoc

/-- No call of the firmware touches the queue. -/
@[simp] theorem UsbLib.call_epQueue (d : UsbLib) (c : FirmwareCall) :
    (d.call c).epQueue = d.epQueue := by
  cases c <;> rfl

/-- The ring holds what was acknowledged and not returned, and an announced event. -/
structure Queued (es : List PollEvent) (s : Polled) : Prop where
  conserved : ackedEps es = returnedEps es ++ s.lib.epQueue.contents
  announced : s.announced = true → s.lib.epQueue.contents ≠ []

namespace Queued

variable {es : List PollEvent} {s s' : Polled} {x : PollEvent}

private theorem length (h : Queued es s) :
    (ackedEps es).length = (returnedEps es).length + s.lib.epQueue.length := by
  rw [h.conserved, List.length_append, Ring.length_contents]

private theorem faithful (h : Queued es s) : Faithful es s where
  order := by
    rw [h.conserved]
    exact List.prefix_append _ _
  done_iff := by
    have hlen := h.length
    rw [isTransferDone, Ring.nonempty_iff, ← List.length_pos_iff_ne_nil, Ring.length_contents]
    omega

private theorem push (h : Queued es s) {ep : BitVec 8} (ha : PollEvent.acked x = some ep)
    (hr : PollEvent.returned x = none) (hq : s'.lib.epQueue = s.lib.epQueue.push ep)
    (hroom : s.lib.epQueue.length + 1 < epQueueSize) : Queued (es ++ [x]) s' := by
  have hcontents : s'.lib.epQueue.contents = s.lib.epQueue.contents ++ [ep] := by
    rw [hq, Ring.contents_push, if_pos hroom]
  constructor
  · rw [ackedEps_snoc, returnedEps_snoc, ha, hr, hcontents, h.conserved]
    simp
  · intro _
    rw [hcontents]
    simp

private theorem quiet (h : Queued es s) (ha : PollEvent.acked x = none)
    (hr : PollEvent.returned x = none) (hq : s'.lib.epQueue = s.lib.epQueue)
    (hann : s'.announced = true → s.lib.epQueue.contents ≠ []) : Queued (es ++ [x]) s' := by
  constructor
  · rw [ackedEps_snoc, returnedEps_snoc, ha, hr, hq, h.conserved]
    simp
  · rw [hq]
    exact hann

private theorem pop (h : Queued es s) (hann : s.announced = true)
    (ha : PollEvent.acked x = none) (hr : PollEvent.returned x = some s.lib.epQueue.pop.1)
    (hq : s'.lib.epQueue = s.lib.epQueue.pop.2) (hann' : s'.announced = false) :
    Queued (es ++ [x]) s' := by
  have hpop := Ring.contents_pop _ ((Ring.nonempty_iff _).mpr (h.announced hann))
  constructor
  · rw [ackedEps_snoc, returnedEps_snoc, ha, hr, hq, h.conserved, hpop]
    simp
  · rw [hann']
    exact nofun

end Queued

private theorem queued_step {es : List PollEvent} {s s' : Polled} {op : PollOp} {out : PollOut}
    (h : Queued es s) (hx : pollExec s op = .ok (s', out)) :
    (((PollEvent.acked (op, out)).isSome → s.lib.epQueue.length + 1 < epQueueSize) →
      Queued (es ++ [(op, out)]) s') ∧
    ((PollEvent.acked (op, out)).isSome → ¬ s.lib.epQueue.length + 1 < epQueueSize →
      isTransferDone s'.lib = false) := by
  cases op with
  | transfer addr ep pid data size =>
    simp only [pollExec] at hx
    split at hx
    · next lib r ht =>
      cases hx
      have hq := usbTransfer_epQueue ht
      by_cases hack : (UsbPid.isData pid && r.isAck) = true
      · have ha : PollEvent.acked (.transfer addr ep pid data size, .response r) = some ep :=
          if_pos hack
        rw [if_pos hack] at hq
        rw [ha]
        refine ⟨fun hroom ↦ h.push ha rfl hq (hroom rfl), fun _ hfull ↦ ?_⟩
        rw [isTransferDone, hq, ← Bool.not_eq_true, Ring.nonempty_iff, Ring.contents_push,
          if_neg hfull]
        simp
      · have ha : PollEvent.acked (.transfer addr ep pid data size, .response r) = none :=
          if_neg hack
        rw [if_neg hack] at hq
        rw [ha]
        exact ⟨fun _ ↦ h.quiet ha rfl hq h.announced, nofun⟩
    · cases hx
  | isTransferDone =>
    cases hx
    exact ⟨fun _ ↦ h.quiet rfl rfl rfl (Ring.nonempty_iff _).mp, nofun⟩
  | getTrnStatus =>
    simp only [pollExec] at hx
    split at hx
    · next hann =>
      cases hx
      exact ⟨fun _ ↦ h.pop hann rfl rfl rfl rfl, nofun⟩
    · cases hx
  | call c =>
    cases hx
    exact ⟨fun _ ↦ h.quiet rfl rfl (UsbLib.call_epQueue _ _) h.announced, nofun⟩

private theorem queued_init (eps : Nat) (buffers : List Buffer) :
    Queued [] ⟨usbInit eps buffers, false⟩ := ⟨rfl, nofun⟩

private theorem queued_of {eps : Nat} {buffers : List Buffer} {es : List PollEvent}
    (h : ∀ past x s, past ++ [x] <+: es → PollRun eps buffers (past ++ [x]) s →
      Faithful (past ++ [x]) s ∨ ((PollEvent.acked x).isSome →
        (ackedEps past).length + 1 < (returnedEps past).length + epQueueSize)) :
    ∀ past s, past <+: es → PollRun eps buffers past s → Queued past s := by
  intro past
  -- induction on the history
  induction past using List.reverseRecOn with
  | nil =>
    intro s _ hrun
    rw [hrun.of_nil]
    exact queued_init eps buffers
  | append_singleton past x ih =>
    intro s hp hrun
    obtain ⟨s₀, hrun₀, hfire⟩ := hrun.last
    have hq := ih s₀ ((List.prefix_append _ _).trans hp) hrun₀
    have hlen := hq.length
    obtain ⟨hroom, hfull⟩ := queued_step hq hfire
    by_cases hr : (PollEvent.acked x).isSome → s₀.lib.epQueue.length + 1 < epQueueSize
    · exact hroom hr
    · -- the sixteenth event is not announced
      obtain ⟨hack, hno⟩ := Classical.not_imp.mp hr
      rcases h past x s hp hrun with hf | hok
      · have hdone := hfull hack hno
        rw [← Bool.not_eq_true, hf.done_iff] at hdone
        obtain ⟨hacked, hreturned⟩ := length_of_acked past x hack
        omega
      · have := hok hack
        omega

/-- The polls are right in every state of a run if and only if every acknowledgement of it
finds at most fourteen events waiting. -/
theorem PollRun.faithful_iff {eps : Nat} {buffers : List Buffer} {es : List PollEvent}
    {s : Polled} (h : PollRun eps buffers es s) :
    (∀ past s', past <+: es → PollRun eps buffers past s' → Faithful past s') ↔ Roomy es := by
  constructor
  · intro hf past x hp hack
    have hqueued := queued_of fun past x s' hp hrun ↦ .inl (hf _ s' hp hrun)
    obtain ⟨rest, rfl⟩ := hp
    obtain ⟨s₁, hrun₁, -⟩ := h.split
    -- the ring after the acknowledgement still holds fewer than sixteen
    have hlen := (hqueued (past ++ [x]) s₁ (List.prefix_append _ rest) hrun₁).length
    have hlt := s₁.lib.epQueue.length_lt
    obtain ⟨hacked, hreturned⟩ := length_of_acked past x hack
    omega
  · intro hroom past s' hp hrun
    exact (queued_of (fun past x _ hp _ ↦ .inr (hroom past x hp)) past s' hp hrun).faithful

private def oneBuffer : List Buffer := [⟨8, List.replicate 8 0⟩]

private def armedOps : List PollOp := [.call .enable, .call (.transfStart 0 0 0 8)]

/-- Two packets are acknowledged and one is reported. -/
theorem PollRun.faithful_iff_example : ∃ es s, PollRun 1 oneBuffer es s ∧
    ackedEps es = [0, 0] ∧ returnedEps es = [0] ∧
    ((∀ past s', past <+: es → PollRun 1 oneBuffer past s' → Faithful past s') ↔ Roomy es) := by
  have hcheck : runsTo pollExec ⟨usbInit 1 oneBuffer, false⟩
      (armedOps ++ [.transfer 0 0 .data1 [5] 1, .isTransferDone, .transfer 0 0 .data1 [6] 1,
        .getTrnStatus])
      (fun _ es ↦ decide (ackedEps es = [0, 0] ∧ returnedEps es = [0])) = true := by
    decide +kernel
  obtain ⟨es, s, hrun, hp⟩ := Run.of_runsTo hcheck
  obtain ⟨hacked, hreturned⟩ := of_decide_eq_true hp
  exact ⟨es, s, hrun, hacked, hreturned, PollRun.faithful_iff hrun⟩

/-- Sixteen packets are acknowledged and none is announced. -/
theorem PollRun.events_lost :
    ¬ ∀ eps buffers es s, PollRun eps buffers es s → Faithful es s := by
  intro hall
  have hcheck : runsTo pollExec ⟨usbInit 1 oneBuffer, false⟩
      (armedOps ++ List.replicate 16 (.transfer 0 0 .data1 [5] 1))
      (fun s es ↦ !isTransferDone s.lib &&
        decide ((returnedEps es).length < (ackedEps es).length)) = true := by decide +kernel
  obtain ⟨es, s, hrun, hp⟩ := Run.of_runsTo hcheck
  simp only [Bool.and_eq_true, Bool.not_eq_true', decide_eq_true_eq] at hp
  have hdone := (hall 1 oneBuffer es s hrun).done_iff.mpr hp.2
  rw [hp.1] at hdone
  cases hdone

end BiMpp.Device
