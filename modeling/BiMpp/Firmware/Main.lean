import BiMpp.Firmware.Control

/-!
# The main loop of the firmware

`pic_usb_device.X/main.c:344–427`, with the packets of the host in between. A step is one
packet, the bus reset of `bi-mpp-pic24-usb-simulator-master/src/hcd.c:245–250`, or one of
the three parts of a pass of the loop: the test for a reset, the polls, and the handling of
an event.
-/

namespace BiMpp.Firmware
open BiMpp.Usb BiMpp.Base BiMpp.Device

/-! ### The main loop -/

/-- `ENDPOINT_IN`; `main.c:120`. -/
abbrev endpointIn : BitVec 8 := 0x81

/-- `ENDPOINT_OUT`; `main.c:121`. -/
abbrev endpointOut : BitVec 8 := 0x02

/-- `EP2_OUT_BUF_SIZE`; `main.c:105`. -/
abbrev ep2OutBufSize : Nat := 64

/-- `process_ep_transfer`, with the key that was pressed; `main.c:344–370,412–424`. -/
def processEpTransfer (fw : PicUsbDevice) (ep : BitVec 8) (key : UInt8) : PicUsbDevice :=
  if ep = endpointIn then
    let fw := { fw with lib := copyToBuffer fw.lib ep1BufIn [key] 1 }
    { fw.start 1 (if fw.inData then usbTrnData1In else usbTrnData0In) ep1BufIn 1 with
      inData := !fw.inData }
  else if ep = endpointOut then
    { fw.start 2 (if fw.outData then usbTrnData1Out else usbTrnData0Out) ep2BufOut
        ep2OutBufSize with outData := !fw.outData }
  else fw

/-- Where the loop is: before the test for a reset, before the polls, or with an event,
that of transaction `n`, in hand. -/
inductive MainPc
  | top
  | poll
  | process (ep : BitVec 8) (n : Nat)
  deriving DecidableEq, Repr

/-- The firmware with its loop. The rest names packets by the number of transactions
acknowledged before them: whose events are in the queue, whose data the OUT buffer of
endpoint 0 holds, and which SET_ADDRESS has been handled since the last reset and still
waits for its status stage. -/
structure Running where
  fw : PicUsbDevice
  pc : MainPc
  acked : Nat
  serials : Ring Nat epQueueSize
  held : Nat
  request : Option Nat

/-- The enabled device before the first pass; `main.c:374–377`. -/
def runningInit : Running where
  fw := picUsbDeviceInit
  pc := .top
  acked := 0
  serials := ⟨0, 0, fun _ ↦ 0⟩
  held := 0
  request := none

/-- The steps. -/
inductive MainOp
  | busReset
  | transfer (addr : Int) (ep : BitVec 8) (pid : UsbPid) (data : List UInt8) (size : Int)
  | top
  | poll
  | process (key : UInt8)
  deriving DecidableEq, Repr

/-- What a step shows. `addressed` is a call of `usb_set_address`, at the event of
transaction `n`, for the SET_ADDRESS of packet `m` if one is waiting. -/
inductive MainOut
  | response (r : Response)
  | reset (taken : Bool)
  | polled (event : Option (BitVec 8 × Nat))
  | addressed (ep : BitVec 8) (n : Nat) (m : Option Nat)
  | quiet
  deriving DecidableEq, Repr

/-- A step with what it showed. -/
abbrev MainEvent := MainOp × MainOut

/-- The endpoint numbers that `main` hands to `process_control_transfer`; `main.c:407`. -/
def isControlEp (ep : BitVec 8) : Bool := ep == 0 || ep == 0x80

/-- `process_control_transfer` takes a SET_ADDRESS; `main.c:259`. -/
def takesSetAddress (fw : PicUsbDevice) (ep : BitVec 8) : Bool :=
  match fw.lib.bdt[0]? with
  | none => false
  | some e => isControlEp ep && isSetup ep e &&
    (UsbDeviceReq.ofBytes (copyFromBuffer fw.lib ep0BufOut 8)).bRequest == 5

/-- `process_control_transfer` calls `usb_set_address`; `main.c:314`. -/
def callsSetAddress (fw : PicUsbDevice) (ep : BitVec 8) : Bool :=
  match fw.lib.bdt[0]? with
  | none => false
  | some e => isControlEp ep && !isSetup ep e && fw.state == .ackad

/-- The handling of an event; `main.c:402–426`. -/
def processEvent (fw : PicUsbDevice) (ep : BitVec 8) (key : UInt8) : PicUsbDevice :=
  if isControlEp ep then processControlTransfer fw ep else processEpTransfer fw ep key

/-- Replace the library. -/
def Running.setLib (s : Running) (lib : UsbLib) : Running :=
  { s with fw := { s.fw with lib := lib } }

/-- The bookkeeping of a packet. -/
def Running.count (s : Running) (ep : BitVec 8) (counted : Bool) : Running :=
  if counted then
    { s with
      acked := s.acked + 1
      serials := s.serials.push s.acked
      held := if ep &&& 0x8F = 0 then s.acked else s.held }
  else s

/-- One step. -/
def mainExec (s : Running) : MainOp → Except Stop (Running × MainOut)
  | .busReset =>
    match usbTransfer s.fw.lib 0 0 .reset [] 0 with
    | .ok (lib, r) => .ok (s.setLib lib, .response r)
    | .error f => .error (.fault f)
  | .transfer addr ep pid data size =>
    if pid = .reset then .error .blocked
    else
      match usbTransfer s.fw.lib addr ep pid data size with
      | .ok (lib, r) => .ok ((s.setLib lib).count ep (UsbPid.isData pid && r.isAck), .response r)
      | .error f => .error (.fault f)
  | .top =>
    if s.pc = .top then
      match isReset s.fw.lib with
      | (true, lib) =>
        .ok ({ s with fw := mainReset { s.fw with lib := lib }, pc := .poll, request := none },
          .reset true)
      | (false, lib) => .ok ({ s.setLib lib with pc := .poll }, .reset false)
    else .error .blocked
  | .poll =>
    if s.pc = .poll then
      match isSof s.fw.lib with
      | (true, lib) => .ok ({ s.setLib lib with pc := .top }, .polled none)
      | (false, lib) =>
        if isTransferDone lib then
          let (ep, lib) := getTrnStatus lib
          .ok ({ s.setLib lib with pc := .process ep s.serials.pop.1, serials := s.serials.pop.2 },
            .polled (some (ep, s.serials.pop.1)))
        else .ok ({ s.setLib lib with pc := .top }, .polled none)
    else .error .blocked
  | .process key =>
    match s.pc with
    | .process ep n =>
      let s' := { s with fw := processEvent s.fw ep key, pc := .top }
      if callsSetAddress s.fw ep then .ok ({ s' with request := none }, .addressed ep n s.request)
      else if takesSetAddress s.fw ep then .ok ({ s' with request := some s.held }, .quiet)
      else .ok (s', .quiet)
    | _ => .error .blocked

/-- Finite runs from the enabled device. -/
abbrev MainRun : List MainEvent → Running → Prop := Run (Fires mainExec) runningInit

/-! ### What one step can do -/

/-- The transitions. -/
inductive MainStep (s : Running) : MainEvent → Running → Prop
  | busReset {lib : UsbLib} {r : Response} :
      usbTransfer s.fw.lib 0 0 .reset [] 0 = .ok (lib, r) →
      MainStep s (.busReset, .response r) (s.setLib lib)
  | transfer {addr : Int} {ep : BitVec 8} {pid : UsbPid} {data : List UInt8} {size : Int}
      {lib : UsbLib} {r : Response} : pid ≠ .reset →
      usbTransfer s.fw.lib addr ep pid data size = .ok (lib, r) →
      MainStep s (.transfer addr ep pid data size, .response r)
        ((s.setLib lib).count ep (UsbPid.isData pid && r.isAck))
  | reset : s.pc = .top → s.fw.lib.reset = true →
      MainStep s (.top, .reset true) { s with
        fw := mainReset { s.fw with lib := { s.fw.lib with reset := false } }
        pc := .poll
        request := none }
  | pass : s.pc = .top → s.fw.lib.reset = false →
      MainStep s (.top, .reset false) { s.setLib { s.fw.lib with reset := false } with pc := .poll }
  | idle {lib : UsbLib} : s.pc = .poll → lib = { s.fw.lib with sofif := false } →
      MainStep s (.poll, .polled none) { s.setLib lib with pc := .top }
  | event {ep : BitVec 8} {n : Nat} : s.pc = .poll → s.fw.lib.epQueue.nonempty = true →
      ep = s.fw.lib.epQueue.pop.1 → n = s.serials.pop.1 →
      MainStep s (.poll, .polled (some (ep, n))) { s.setLib { s.fw.lib with
          sofif := false
          epQueue := s.fw.lib.epQueue.pop.2 } with
        pc := .process ep n
        serials := s.serials.pop.2 }
  | addressed {ep : BitVec 8} {n : Nat} {key : UInt8} : s.pc = .process ep n →
      callsSetAddress s.fw ep = true →
      MainStep s (.process key, .addressed ep n s.request)
        { s with fw := processEvent s.fw ep key, pc := .top, request := none }
  | requested {ep : BitVec 8} {n : Nat} {key : UInt8} : s.pc = .process ep n →
      callsSetAddress s.fw ep = false → takesSetAddress s.fw ep = true →
      MainStep s (.process key, .quiet)
        { s with fw := processEvent s.fw ep key, pc := .top, request := some s.held }
  | processed {ep : BitVec 8} {n : Nat} {key : UInt8} : s.pc = .process ep n →
      callsSetAddress s.fw ep = false →
      MainStep s (.process key, .quiet) { s with fw := processEvent s.fw ep key, pc := .top }

/-- Every successful step is one of the transitions. -/
theorem mainStep_of_exec {s s' : Running} {op : MainOp} {o : MainOut}
    (h : mainExec s op = .ok (s', o)) : MainStep s (op, o) s' := by
  cases op with
  | busReset =>
    simp only [mainExec] at h
    split at h
    · next lib r ht =>
      cases h
      exact .busReset ht
    · cases h
  | transfer addr ep pid data size =>
    simp only [mainExec] at h
    split at h
    · cases h
    · next hpid =>
      split at h
      · next lib r ht =>
        cases h
        exact .transfer hpid ht
      · cases h
  | top =>
    simp only [mainExec] at h
    split at h
    · next hpc =>
      split at h
      · next lib hr =>
        obtain ⟨hreset, rfl⟩ := Prod.mk.inj hr
        cases h
        exact .reset hpc hreset
      · next lib hr =>
        obtain ⟨hreset, rfl⟩ := Prod.mk.inj hr
        cases h
        exact .pass hpc hreset
    · cases h
  | poll =>
    simp only [mainExec] at h
    split at h
    · next hpc =>
      split at h
      · next lib hsof =>
        cases h
        exact .idle hpc (Prod.mk.inj hsof).2.symm
      · next lib hsof =>
        obtain ⟨-, rfl⟩ := Prod.mk.inj hsof
        split at h
        · next hdone =>
          cases h
          exact .event hpc hdone rfl rfl
        · cases h
          exact .idle hpc rfl
    · cases h
  | process key =>
    simp only [mainExec] at h
    split at h
    · next ep n hpc =>
      split at h
      · next hcalls =>
        cases h
        exact .addressed hpc hcalls
      · next hcalls =>
        have hno := Bool.eq_false_iff.mpr hcalls
        split at h
        · next htakes =>
          cases h
          exact .requested hpc hno htakes
        · cases h
          exact .processed hpc hno
    · cases h

/-! ### What the steps leave alone -/

/-- What no handling of an event touches. -/
structure Frame (d d' : UsbLib) : Prop where
  reset : d'.reset = d.reset
  usben : d'.usben = d.usben
  epQueue : d'.epQueue = d.epQueue
  eps : d'.bdt.length = d.bdt.length

namespace Frame

variable {d d' d'' : UsbLib}

/-- The identity is framed. -/
theorem refl (d : UsbLib) : Frame d d := ⟨rfl, rfl, rfl, rfl⟩

/-- Two framed changes in a row are framed. -/
theorem trans (h : Frame d d') (h' : Frame d' d'') : Frame d d'' where
  reset := h'.reset.trans h.reset
  usben := h'.usben.trans h.usben
  epQueue := h'.epQueue.trans h.epQueue
  eps := h'.eps.trans h.eps

/-- Arming an endpoint is framed. -/
theorem start (d : UsbLib) (num : Nat) (t : BitVec 8) (buf : BufPtr) (size : Int) :
    Frame d (usbEpTransfStart d num t buf size) :=
  ⟨rfl, rfl, rfl, List.length_modify ..⟩

/-- Initialising an endpoint is framed. -/
theorem initEp (d : UsbLib) (num : Nat) (t : BitVec 8) : Frame d (usbInitEp d num t) :=
  ⟨rfl, rfl, rfl, List.length_modify ..⟩

/-- Filling a buffer is framed. -/
theorem copy (d : UsbLib) (buf : BufPtr) (src : List UInt8) (size : Nat) :
    Frame d (copyToBuffer d buf src size) := ⟨rfl, rfl, rfl, rfl⟩

end Frame

section Process

variable (fw : PicUsbDevice) (ep : BitVec 8) (key : UInt8)

private theorem sendDescriptor_frame (descr : List UInt8) (wLength : BitVec 16) (state : Cts) :
    Frame fw.lib (sendDescriptor fw descr wLength state).lib ∧
      (sendDescriptor fw descr wLength state).lib.u1addr = fw.lib.u1addr :=
  ⟨(Frame.copy fw.lib ep0BufIn descr descr.length).trans (.start _ _ _ _ _), rfl⟩

private theorem processSetup_frame (req : UsbDeviceReq) :
    Frame fw.lib (processSetup fw req).lib ∧ (processSetup fw req).lib.u1addr = fw.lib.u1addr := by
  unfold processSetup requestSwitch
  split
  · unfold getDescriptor descriptorSwitch
    split
    · exact sendDescriptor_frame fw _ _ _
    · exact sendDescriptor_frame fw _ _ _
    · exact sendDescriptor_frame fw _ _ _
    · exact ⟨.refl _, rfl⟩
  · exact ⟨.start _ _ _ _ _, rfl⟩
  · refine ⟨?_, rfl⟩
    exact (Frame.initEp fw.lib 1 epIn).trans ((Frame.initEp _ 2 epOut).trans
      ((Frame.start _ _ _ _ _).trans ((Frame.start _ _ _ _ _).trans (.start _ _ _ _ _))))
  · exact ⟨.refl _, rfl⟩

private theorem processStage_frame :
    Frame fw.lib (processStage fw).lib ∧
      (fw.state ≠ .ackad → (processStage fw).lib.u1addr = fw.lib.u1addr) := by
  unfold processStage stageSwitch
  split
  · exact ⟨.start _ _ _ _ _, fun _ ↦ rfl⟩
  · exact ⟨.start _ _ _ _ _, fun _ ↦ rfl⟩
  · exact ⟨.start _ _ _ _ _, fun _ ↦ rfl⟩
  · exact ⟨.start _ _ _ _ _, fun _ ↦ rfl⟩
  · next hstate => exact ⟨⟨rfl, rfl, rfl, List.length_modify ..⟩, fun h ↦ absurd hstate h⟩
  · exact ⟨.refl _, fun _ ↦ rfl⟩
  · exact ⟨.refl _, fun _ ↦ rfl⟩

/-- Handling an event changes the address only by `usb_set_address`. -/
theorem processEvent_frame : Frame fw.lib (processEvent fw ep key).lib ∧
    (callsSetAddress fw ep = false → (processEvent fw ep key).lib.u1addr = fw.lib.u1addr) := by
  unfold processEvent
  split
  · next hep =>
    unfold processControlTransfer controlSwitch
    split
    · exact ⟨.refl _, fun _ ↦ rfl⟩
    · next e he =>
      split
      · obtain ⟨hframe, haddr⟩ :=
          processSetup_frame fw (.ofBytes (copyFromBuffer fw.lib ep0BufOut 8))
        exact ⟨hframe, fun _ ↦ haddr⟩
      · next hsetup =>
        obtain ⟨hframe, haddr⟩ := processStage_frame fw
        refine ⟨hframe, fun hcalls ↦ haddr ?_⟩
        rintro hstate
        unfold callsSetAddress at hcalls
        rw [he] at hcalls
        simp [hep, hsetup, hstate] at hcalls
  · unfold processEpTransfer
    split
    · exact ⟨(Frame.copy fw.lib ep1BufIn [key] 1).trans (.start _ _ _ _ _), fun _ ↦ rfl⟩
    · split
      · exact ⟨.start _ _ _ _ _, fun _ ↦ rfl⟩
      · exact ⟨.refl _, fun _ ↦ rfl⟩

end Process

/-- The device is enabled and has its three endpoints, and the two queues go together. -/
structure Steady (s : Running) : Prop where
  usben : s.fw.lib.usben = true
  eps : s.fw.lib.bdt.length = 3
  front : s.serials.front = s.fw.lib.epQueue.front
  back : s.serials.back = s.fw.lib.epQueue.back

/-- The transactions whose events are still to be handled, in order. -/
def Running.waiting (s : Running) : List Nat :=
  match s.pc with
  | .process _ n => n :: s.serials.contents
  | _ => s.serials.contents

namespace Steady

variable {s s' : Running} {e : MainEvent}

/-- The program starts with the controller enabled and its endpoints declared. -/
theorem init : Steady runningInit := ⟨rfl, rfl, rfl, rfl⟩

/-- An event in the queue has its number. -/
theorem contents (h : Steady s) (hq : s.fw.lib.epQueue.nonempty = true) :
    s.serials.contents = s.serials.pop.1 :: s.serials.pop.2.contents := by
  apply Ring.contents_pop
  rw [Ring.nonempty, h.front, h.back]
  exact hq

/-- A queue without events has no numbers. -/
theorem contents_nil (h : Steady s) (hq : s.fw.lib.epQueue.nonempty = false) :
    s.serials.contents = [] := by
  by_contra hne
  have hserials := (Ring.nonempty_iff _).mpr hne
  rw [Ring.nonempty, h.front, h.back] at hserials
  rw [Ring.nonempty] at hq
  rw [hq] at hserials
  cases hserials

private theorem process (h : Steady s) (ep : BitVec 8) (key : UInt8) (q : Option Nat) :
    Steady { s with fw := processEvent s.fw ep key, pc := .top, request := q } := by
  obtain ⟨hframe, -⟩ := processEvent_frame s.fw ep key
  constructor
  · exact hframe.usben.trans h.usben
  · exact hframe.eps.trans h.eps
  · exact h.front.trans (congrArg Ring.front hframe.epQueue).symm
  · exact h.back.trans (congrArg Ring.back hframe.epQueue).symm

/-- No step disables the controller or loses an endpoint. -/
theorem step (h : Steady s) (hs : MainStep s e s') : Steady s' := by
  cases hs with
  | busReset ht =>
    obtain ⟨-, husben, heps, -⟩ := usbTransfer_fixed ht
    have hq := usbTransfer_epQueue ht
    rw [show UsbPid.isData .reset = false from rfl, Bool.false_and] at hq
    constructor
    · exact husben.trans h.usben
    · exact heps.trans h.eps
    · exact h.front.trans (congrArg Ring.front hq).symm
    · exact h.back.trans (congrArg Ring.back hq).symm
  | @transfer addr ep pid data size lib r hpid ht =>
    obtain ⟨-, husben, heps, -⟩ := usbTransfer_fixed ht
    have hq := usbTransfer_epQueue ht
    unfold Running.count
    split
    · next hcount =>
      rw [if_pos hcount] at hq
      constructor
      · exact husben.trans h.usben
      · exact heps.trans h.eps
      · exact h.front.trans (congrArg Ring.front hq).symm
      · show Ring.succ s.serials.back = lib.epQueue.back
        rw [hq, h.back]
        rfl
    · next hcount =>
      rw [if_neg hcount] at hq
      constructor
      · exact husben.trans h.usben
      · exact heps.trans h.eps
      · exact h.front.trans (congrArg Ring.front hq).symm
      · exact h.back.trans (congrArg Ring.back hq).symm
  | reset =>
    have heps : (mainReset { s.fw with lib := { s.fw.lib with reset := false } }).lib.bdt.length =
        s.fw.lib.bdt.length := by
      simp [mainReset, PicUsbDevice.start, usbEpTransfStart, usbInitEp, usbReset, clearAllEps]
    exact ⟨h.usben, heps.trans h.eps, h.front, h.back⟩
  | pass => exact ⟨h.usben, h.eps, h.front, h.back⟩
  | idle _ hlib =>
    subst hlib
    exact ⟨h.usben, h.eps, h.front, h.back⟩
  | event =>
    refine ⟨h.usben, h.eps, ?_, h.back⟩
    exact congrArg Ring.succ h.front
  | @addressed ep _ key => exact h.process ep key none
  | @requested ep _ key => exact h.process ep key (some s.held)
  | @processed ep _ key => exact h.process ep key s.request

end Steady

/-- A step takes events away, in order, or adds that of the next transaction. -/
theorem waiting_step {s s' : Running} {e : MainEvent} (h : Steady s)
    (hs : MainStep s e s') :
    (s'.waiting.Sublist s.waiting ∧ s'.acked = s.acked) ∨
      (s'.waiting.Sublist (s.waiting ++ [s.acked]) ∧ s'.acked = s.acked + 1) := by
  cases hs with
  | busReset => exact Or.inl ⟨List.Sublist.refl _, rfl⟩
  | @transfer addr ep pid data size lib r =>
    unfold Running.count
    split
    · refine Or.inr ⟨?_, rfl⟩
      have hpush := s.serials.contents_push_sublist s.acked
      unfold Running.waiting
      cases hpc : s.pc with
      | process ep n =>
        simp only [Running.setLib, hpc, List.cons_append]
        exact hpush.cons_cons n
      | _ =>
        simp only [Running.setLib, hpc]
        exact hpush
    · exact Or.inl ⟨List.Sublist.refl _, rfl⟩
  | reset hpc =>
    refine Or.inl ⟨?_, rfl⟩
    rw [Running.waiting, Running.waiting, hpc]
  | pass hpc =>
    refine Or.inl ⟨?_, rfl⟩
    rw [Running.waiting, Running.waiting, hpc]
    exact List.Sublist.refl _
  | idle hpc =>
    refine Or.inl ⟨?_, rfl⟩
    rw [Running.waiting, Running.waiting, hpc]
    exact List.Sublist.refl _
  | event hpc hq _ hn =>
    refine Or.inl ⟨?_, rfl⟩
    rw [Running.waiting, Running.waiting, hpc, h.contents hq, hn]
  | addressed hpc =>
    refine Or.inl ⟨?_, rfl⟩
    rw [Running.waiting, Running.waiting, hpc]
    exact List.sublist_cons_self ..
  | requested hpc =>
    refine Or.inl ⟨?_, rfl⟩
    rw [Running.waiting, Running.waiting, hpc]
    exact List.sublist_cons_self ..
  | processed hpc =>
    refine Or.inl ⟨?_, rfl⟩
    rw [Running.waiting, Running.waiting, hpc]
    exact List.sublist_cons_self ..

end BiMpp.Firmware
