import BiMpp.Device.Events
import BiMpp.Firmware.Main

/-!
# What the firmware asks of the library

The calls that the handling of an event makes, in their order, and the data packets they arm
endpoints 1 and 2 for: `pic_usb_device.X/main.c:213–370,379–427`. Between two events the host
and the polls may do anything to the library.
-/

namespace BiMpp.Firmware
open BiMpp.Usb BiMpp.Base BiMpp.Device

/-! ### The calls -/

/-- The three descriptor cases; `main.c:234–253`. -/
def sendDescriptorCalls (descr : List UInt8) (wLength : BitVec 16) : List FirmwareCall :=
  [.copyToBuffer ep0BufIn descr descr.length,
    .transfStart 0 usbTrnData1In ep0BufIn (min descr.length wLength.toNat : Nat)]

/-- GET DESCRIPTOR; `main.c:231–257`. -/
def getDescriptorCalls (req : UsbDeviceReq) : List FirmwareCall :=
  descriptorSwitch req (fun descr _ ↦ sendDescriptorCalls descr req.wLength) []

/-- Set configuration; `main.c:265–288`. -/
def setConfigurationCalls : List FirmwareCall :=
  [.initEp 1 epIn, .initEp 2 epOut, .transfStart 2 usbTrnData0Out ep2BufOut 0,
    .transfStart 1 usbTrnData0In ep1BufIn 0, .transfStart 0 usbTrnData1In ep0BufIn 0]

/-- A SETUP packet; `main.c:220–293`. -/
def setupCalls (req : UsbDeviceReq) : List FirmwareCall :=
  requestSwitch req (getDescriptorCalls req) [.transfStart 0 usbTrnData1In ep0BufIn 0]
    setConfigurationCalls []

/-- Any other packet; `main.c:295–326`. -/
def stageCalls (fw : PicUsbDevice) : List FirmwareCall :=
  stageSwitch fw.state [.transfStart 0 usbTrnData1Out ep0BufOut ep0OutBufSize]
    [.transfStart 0 usbTrnSetup ep0BufOut ep0OutBufSize]
    [.setAddress fw.addr, .transfStart 0 usbTrnSetup ep0BufOut ep0OutBufSize] []

/-- `process_control_transfer`; `main.c:213–327`. -/
def controlCalls (fw : PicUsbDevice) (ep : BitVec 8) : List FirmwareCall :=
  controlSwitch fw ep setupCalls (stageCalls fw) []

/-- `process_ep_transfer`; `main.c:344–370`. -/
def epTransferCalls (fw : PicUsbDevice) (ep : BitVec 8) (key : UInt8) : List FirmwareCall :=
  if ep = endpointIn then
    [.copyToBuffer ep1BufIn [key] 1,
      .transfStart 1 (if fw.inData then usbTrnData1In else usbTrnData0In) ep1BufIn 1]
  else if ep = endpointOut then
    [.transfStart 2 (if fw.outData then usbTrnData1Out else usbTrnData0Out) ep2BufOut
      ep2OutBufSize]
  else []

/-- The handling of an event; `main.c:402–426`. -/
def eventCalls (fw : PicUsbDevice) (ep : BitVec 8) (key : UInt8) : List FirmwareCall :=
  if isControlEp ep then controlCalls fw ep else epTransferCalls fw ep key

/-- The branch after a bus reset; `main.c:381–389`. -/
def resetCalls : List FirmwareCall :=
  [.reset, .initEp 0 epSetupInout, .transfStart 0 usbTrnSetup ep0BufOut ep0OutBufSize]

/-- GET DESCRIPTOR sends a descriptor or does nothing. -/
theorem getDescriptor_cases {P : PicUsbDevice → List FirmwareCall → Prop} (fw : PicUsbDevice)
    (req : UsbDeviceReq)
    (send : ∀ descr state, P (sendDescriptor fw descr req.wLength state)
      (sendDescriptorCalls descr req.wLength))
    (other : P fw []) : P (getDescriptor fw req) (getDescriptorCalls req) :=
  descriptorSwitch_rel send other

/-- The requests of a SETUP packet that do something. -/
theorem processSetup_cases {P : PicUsbDevice → List FirmwareCall → Prop} (fw : PicUsbDevice)
    (req : UsbDeviceReq)
    (descriptor : (req.bRequest == 9) = false →
      P (getDescriptor fw req) (getDescriptorCalls req))
    (address : (req.bRequest == 9) = false →
      P (setAddress fw req) [.transfStart 0 usbTrnData1In ep0BufIn 0])
    (configuration : (req.bRequest == 9) = true →
      P (setConfiguration fw req) setConfigurationCalls)
    (other : (req.bRequest == 9) = false → P fw []) :
    P (processSetup fw req) (setupCalls req) :=
  requestSwitch_rel (fun h6 ↦ descriptor (by rw [h6]; rfl)) (fun h5 ↦ address (by rw [h5]; rfl))
    (fun h9 ↦ configuration (beq_iff_eq.mpr h9)) fun h9 ↦ other (beq_eq_false_iff_ne.mpr h9)

/-- The library is as these calls leave it. -/
def Called (fw fw' : PicUsbDevice) (calls : List FirmwareCall) : Prop :=
  fw'.lib = calls.foldl UsbLib.call fw.lib

private theorem processSetup_called (fw : PicUsbDevice) (req : UsbDeviceReq) :
    Called fw (processSetup fw req) (setupCalls req) :=
  requestSwitch_rel (R := Called fw)
    (fun _ ↦ getDescriptor_cases (P := Called fw) fw req (fun _ _ ↦ rfl) rfl) (fun _ ↦ rfl)
    (fun _ ↦ rfl) fun _ ↦ rfl

private theorem processStage_called (fw : PicUsbDevice) :
    Called fw (processStage fw) (stageCalls fw) :=
  stageSwitch_rel (R := Called fw) rfl rfl (fun _ ↦ rfl) rfl

private theorem processControlTransfer_called (fw : PicUsbDevice) (ep : BitVec 8) :
    Called fw (processControlTransfer fw ep) (controlCalls fw ep) :=
  controlSwitch_rel (R := Called fw) (fun _ _ _ ↦ processSetup_called fw _)
    (fun _ _ _ ↦ processStage_called fw) rfl

private theorem processEpTransfer_called (fw : PicUsbDevice) (ep : BitVec 8) (key : UInt8) :
    Called fw (processEpTransfer fw ep key) (epTransferCalls fw ep key) := by
  unfold processEpTransfer epTransferCalls
  split
  · rfl
  · split <;> rfl

/-- What an event does to the library, it does by its calls. -/
theorem processEvent_lib (fw : PicUsbDevice) (ep : BitVec 8) (key : UInt8) :
    (processEvent fw ep key).lib = (eventCalls fw ep key).foldl UsbLib.call fw.lib := by
  unfold processEvent eventCalls
  split
  · exact processControlTransfer_called fw ep
  · exact processEpTransfer_called fw ep key

/-- So does a reset. -/
theorem mainReset_lib (fw : PicUsbDevice) :
    (mainReset fw).lib = resetCalls.foldl UsbLib.call fw.lib := rfl

/-- `process_control_transfer` takes a SET_CONFIGURATION; `main.c:265`. -/
def takesSetConfiguration (fw : PicUsbDevice) (ep : BitVec 8) : Bool :=
  match fw.lib.bdt[0]? with
  | none => false
  | some e => isControlEp ep && isSetup ep e &&
    (UsbDeviceReq.ofBytes (copyFromBuffer fw.lib ep0BufOut 8)).bRequest == 9

/-- An event of another endpoint is none. -/
theorem takesSetConfiguration_of_data {fw : PicUsbDevice} {ep : BitVec 8}
    (hep : isControlEp ep = false) : takesSetConfiguration fw ep = false := by
  unfold takesSetConfiguration
  cases fw.lib.bdt[0]? with
  | none => rfl
  | some e => simp only [hep, Bool.false_and]

/-! ### The loop of `main` -/

/-- What happens: the library changes under the firmware, a bus reset is handled, or an event
is. -/
inductive LoopOp
  | library (lib : UsbLib)
  | reset
  | event (ep : BitVec 8) (key : UInt8)

/-- The calls made, and whether a SET_CONFIGURATION was processed. -/
structure LoopOut where
  calls : List FirmwareCall
  configured : Bool
  deriving DecidableEq, Repr

/-- A step with what it showed. -/
abbrev LoopEvent := LoopOp × LoopOut

/-- One step. -/
def loopExec (fw : PicUsbDevice) : LoopOp → Except Fault (PicUsbDevice × LoopOut)
  | .library lib => .ok ({ fw with lib := lib }, ⟨[], false⟩)
  | .reset => .ok (mainReset fw, ⟨resetCalls, false⟩)
  | .event ep key =>
    .ok (processEvent fw ep key, ⟨eventCalls fw ep key, takesSetConfiguration fw ep⟩)

/-- Finite runs from program start. -/
abbrev LoopRun : List LoopEvent → PicUsbDevice → Prop := Run (Fires loopExec) picUsbDeviceInit

/-- What is handled: an event, with the key, or a bus reset. -/
def LoopOp.handles : LoopOp → Option (Option UInt8)
  | library _ => none
  | reset => some none
  | event _ key => some (some key)

@[inherit_doc LoopOp.handles] def MainEvent.handles : MainEvent → Option (Option UInt8)
  | (.process key, _) => some (some key)
  | (.top, .reset true) => some none
  | _ => none

/-- The main loop of the firmware is such a loop, whatever comes over the bus. -/
theorem MainRun.loop {es : List MainEvent} {s : Running} (h : MainRun es s) :
    ∃ ls, LoopRun ls s.fw ∧
      ls.filterMap (fun l ↦ l.1.handles) = es.filterMap MainEvent.handles := by
  refine Run.invariant (P := fun es (s : Running) ↦ ∃ ls, LoopRun ls s.fw ∧
    ls.filterMap (fun l ↦ l.1.handles) = es.filterMap MainEvent.handles) ⟨[], .nil, rfl⟩ ?_ h
  rintro es s ⟨op, o⟩ s' - ⟨ls, hls, hmap⟩ he
  have hsnoc : ∀ l fw, Fires loopExec s.fw l fw → fw = s'.fw →
      l.1.handles = MainEvent.handles (op, o) → ∃ ls, LoopRun ls s'.fw ∧
        ls.filterMap (fun l ↦ l.1.handles) = (es ++ [(op, o)]).filterMap MainEvent.handles := by
    rintro l fw hl rfl hhandles
    refine ⟨ls ++ [l], .snoc hls hl, ?_⟩
    rw [List.filterMap_append, List.filterMap_append, hmap]
    exact congrArg _ (by simp only [List.filterMap_cons, List.filterMap_nil, hhandles])
  cases mainStep_of_exec he with
  | busReset => exact hsnoc (.library _, _) _ rfl rfl rfl
  | @transfer addr ep pid data size lib r =>
    refine hsnoc (.library lib, _) _ rfl ?_ rfl
    unfold Running.count
    split <;> rfl
  | reset =>
    -- the flag is taken, then the branch runs
    have hlib : Fires loopExec s.fw (.library { s.fw.lib with reset := false }, ⟨[], false⟩)
        { s.fw with lib := { s.fw.lib with reset := false } } := rfl
    have hreset : Fires loopExec { s.fw with lib := { s.fw.lib with reset := false } }
        (.reset, ⟨resetCalls, false⟩)
        (mainReset { s.fw with lib := { s.fw.lib with reset := false } }) := rfl
    refine ⟨ls ++ [_] ++ [_], .snoc (.snoc hls hlib) hreset, ?_⟩
    rw [List.filterMap_append, List.filterMap_append, List.filterMap_append, hmap,
      List.append_assoc]
    rfl
  | pass => exact hsnoc (.library _, _) _ rfl rfl rfl
  | idle => exact hsnoc (.library _, _) _ rfl rfl rfl
  | event => exact hsnoc (.library _, _) _ rfl rfl rfl
  | @addressed ep n key => exact hsnoc (.event ep key, _) _ rfl rfl rfl
  | @requested ep n key => exact hsnoc (.event ep key, _) _ rfl rfl rfl
  | @processed ep n key => exact hsnoc (.event ep key, _) _ rfl rfl rfl

/-! ### The data packets of an endpoint -/

/-- The endpoints of the interface. -/
inductive DataEp
  | inn
  | out
  deriving DecidableEq, Repr

namespace DataEp

/-- Its number. -/
def num : DataEp → Nat
  | inn => 1
  | out => 2

/-- The transfer types of its packets. -/
def data0 : DataEp → BitVec 8
  | inn => usbTrnData0In
  | out => usbTrnData0Out

@[inherit_doc data0] def data1 : DataEp → BitVec 8
  | inn => usbTrnData1In
  | out => usbTrnData1Out

/-- `in_data` and `out_data`. -/
def flag : DataEp → PicUsbDevice → Bool
  | inn, fw => fw.inData
  | out, fw => fw.outData

end DataEp

/-- The transfer type of a call that arms the endpoint. -/
def startOn (x : DataEp) : FirmwareCall → Option (BitVec 8)
  | .transfStart num transferType _ _ => if num = x.num then some transferType else none
  | _ => none

/-- The transfer types that calls arm the endpoint with, in order. -/
def startsOn (x : DataEp) (calls : List FirmwareCall) : List (BitVec 8) :=
  calls.filterMap (startOn x)

/-- Those of a history. -/
def startsIn (x : DataEp) (es : List LoopEvent) : List (BitVec 8) :=
  es.flatMap fun e ↦ startsOn x e.2.calls

/-- DATA0 where the number is even, DATA1 where it is odd. -/
def DataEp.packet (x : DataEp) (i : Nat) : BitVec 8 := if i % 2 = 0 then x.data0 else x.data1

/-- What one step arms the endpoint with: nothing, or the packet that its variable says, which
is then the other one; and DATA0 if the step is a SET_CONFIGURATION. -/
inductive Arming (x : DataEp) (fw fw' : PicUsbDevice) (o : LoopOut) : Prop
  | first : o.configured = true → startsOn x o.calls = [x.data0] → x.flag fw' = true →
      Arming x fw fw' o
  | quiet : o.configured = false → startsOn x o.calls = [] → x.flag fw' = x.flag fw →
      Arming x fw fw' o
  | next : o.configured = false →
      startsOn x o.calls = [if x.flag fw then x.data1 else x.data0] →
      x.flag fw' = !x.flag fw → Arming x fw fw' o

section Alternation

variable {x : DataEp} {fw fw' : PicUsbDevice} {ep : BitVec 8} {key : UInt8}

private theorem getDescriptor_arming (x : DataEp) (fw : PicUsbDevice) (req : UsbDeviceReq) :
    Arming x fw (getDescriptor fw req) ⟨getDescriptorCalls req, false⟩ :=
  getDescriptor_cases (P := fun fw' calls ↦ Arming x fw fw' ⟨calls, false⟩) fw req
    (fun _ _ ↦ .quiet rfl (by cases x <;> rfl) (by cases x <;> rfl)) (.quiet rfl rfl rfl)

private theorem setup_arming (x : DataEp) (fw : PicUsbDevice) (req : UsbDeviceReq) :
    Arming x fw (processSetup fw req) ⟨setupCalls req, req.bRequest == 9⟩ := by
  refine processSetup_cases (P := fun fw' calls ↦ Arming x fw fw' ⟨calls, req.bRequest == 9⟩)
    fw req (fun h9 ↦ ?_) (fun h9 ↦ ?_) (fun h9 ↦ ?_) (fun h9 ↦ ?_)
  · rw [h9]
    exact getDescriptor_arming x fw req
  · exact .quiet h9 (by cases x <;> rfl) (by cases x <;> rfl)
  · exact .first h9 (by cases x <;> rfl) (by cases x <;> rfl)
  · exact .quiet h9 rfl rfl

private theorem stage_arming (x : DataEp) (fw : PicUsbDevice) :
    Arming x fw (processStage fw) ⟨stageCalls fw, false⟩ := by
  -- no packet of endpoint 0 arms another one
  refine stageSwitch_rel
    (R := fun (fw' : PicUsbDevice) (calls : List FirmwareCall) ↦ Arming x fw fw' ⟨calls, false⟩)
    (.quiet rfl ?_ ?_) (.quiet rfl ?_ ?_) (fun _ ↦ .quiet rfl ?_ ?_) (.quiet rfl rfl rfl)
  all_goals cases x <;> rfl

private theorem epTransfer_arming (x : DataEp) (fw : PicUsbDevice) (ep : BitVec 8) (key : UInt8) :
    Arming x fw (processEpTransfer fw ep key) ⟨epTransferCalls fw ep key, false⟩ := by
  unfold processEpTransfer epTransferCalls
  split
  · cases x with
    | inn => exact .next rfl rfl rfl
    | out => exact .quiet rfl rfl rfl
  · split
    · cases x with
      | inn => exact .quiet rfl rfl rfl
      | out => exact .next rfl rfl rfl
    · exact .quiet rfl rfl rfl

/-- Every step arms the endpoint in one of these ways. -/
theorem loop_arming (x : DataEp) {op : LoopOp} {o : LoopOut}
    (h : loopExec fw op = .ok (fw', o)) : Arming x fw fw' o := by
  cases op with
  | library lib =>
    cases h
    exact .quiet rfl rfl (by cases x <;> rfl)
  | reset =>
    cases h
    exact .quiet rfl (by cases x <;> rfl) (by cases x <;> rfl)
  | event ep key =>
    cases h
    unfold processEvent eventCalls
    cases hep : isControlEp ep with
    | false =>
      rw [takesSetConfiguration_of_data hep]
      exact epTransfer_arming x fw ep key
    | true =>
      cases he : fw.lib.bdt[0]? with
      | none =>
        simp only [takesSetConfiguration, processControlTransfer, controlCalls, controlSwitch, he]
        exact .quiet rfl rfl rfl
      | some e =>
        simp only [takesSetConfiguration, processControlTransfer, controlCalls, controlSwitch, he,
          hep, Bool.true_and]
        cases hs : isSetup ep e with
        | true => exact setup_arming x fw _
        | false => exact stage_arming x fw

end Alternation

/-! ### Alternation -/

section Runs

variable {x : DataEp} {es past after : List LoopEvent} {e : LoopEvent} {fw fw' : PicUsbDevice}

private theorem startsIn_snoc (es : List LoopEvent) (e : LoopEvent) :
    startsIn x (es ++ [e]) = startsIn x es ++ startsOn x e.2.calls := by
  rw [startsIn, List.flatMap_append, List.flatMap_singleton]
  rfl

/-- The packets of a list alternate from DATA0 on, and the variable says which one is next. -/
structure Alternates (x : DataEp) (types : List (BitVec 8)) (flag : Bool) : Prop where
  packets : ∀ i t, types[i]? = some t → t = x.packet i
  next : flag = decide (types.length % 2 = 1)

private theorem Alternates.first (x : DataEp) : Alternates x [x.data0] true where
  packets i t h := by
    cases i with
    | zero =>
      cases h
      rfl
    | succ i => cases h
  next := rfl

private theorem Alternates.snoc {types : List (BitVec 8)} {flag : Bool}
    (h : Alternates x types flag) :
    Alternates x (types ++ [if flag then x.data1 else x.data0]) (!flag) where
  packets i t hi := by
    rcases Nat.lt_trichotomy i types.length with hlt | rfl | hgt
    · rw [List.getElem?_append_left hlt] at hi
      exact h.packets i t hi
    · rw [List.getElem?_concat_length] at hi
      cases hi
      rw [DataEp.packet, h.next]
      rcases Nat.mod_two_eq_zero_or_one types.length with hp | hp
      · rw [hp]
        rfl
      · rw [hp]
        rfl
    · rw [List.getElem?_eq_none] at hi
      · cases hi
      · rw [List.length_append, List.length_singleton]
        exact hgt
  next := by
    rw [h.next, List.length_append, List.length_singleton, ← decide_not]
    congr 1
    exact propext ⟨fun hn ↦ by omega, fun hn ↦ by omega⟩

/-- The alternation since the last SET_CONFIGURATION. -/
def SinceConfigured (x : DataEp) (es : List LoopEvent) (fw : PicUsbDevice) : Prop :=
  ∀ past e after, es = past ++ e :: after → e.2.configured = true →
    (∀ y ∈ after, y.2.configured = false) →
      startsOn x e.2.calls = [x.data0] ∧ Alternates x (startsIn x (e :: after)) (x.flag fw)

private theorem SinceConfigured.step (h : SinceConfigured x es fw)
    (ha : Arming x fw fw' e.2) : SinceConfigured x (es ++ [e]) fw' := by
  intro past d after hes hd hafter
  induction after using List.reverseRecOn with
  | nil =>
    -- the step is the SET_CONFIGURATION itself
    obtain ⟨-, hlast⟩ := List.append_inj' hes rfl
    obtain rfl := List.singleton_inj.mp hlast
    have hsingle : startsIn x [e] = startsOn x e.2.calls := List.flatMap_singleton ..
    cases ha with
    | first _ hstarts hflag =>
      rw [hsingle, hstarts, hflag]
      exact ⟨rfl, .first x⟩
    | quiet hno => exact absurd (hno.symm.trans hd) Bool.false_ne_true
    | next hno => exact absurd (hno.symm.trans hd) Bool.false_ne_true
  | append_singleton after y _ =>
    rw [← List.cons_append, ← List.append_assoc] at hes
    obtain ⟨hpast, hlast⟩ := List.append_inj' hes rfl
    obtain rfl := List.singleton_inj.mp hlast
    obtain ⟨hfirst, halt⟩ := h past d after hpast hd fun y hy ↦
      hafter y (List.mem_append_left _ hy)
    have hno := hafter e (List.mem_append_right _ (List.mem_singleton_self e))
    refine ⟨hfirst, ?_⟩
    rw [← List.cons_append, startsIn_snoc]
    cases ha with
    | first hyes => exact absurd (hno.symm.trans hyes) Bool.false_ne_true
    | quiet _ hstarts hflag =>
      rw [hstarts, hflag, List.append_nil]
      exact halt
    | next _ hstarts hflag =>
      rw [hstarts, hflag]
      exact halt.snoc

private theorem LoopRun.sinceConfigured (x : DataEp) (h : LoopRun es fw) :
    SinceConfigured x es fw := by
  refine Run.invariant (P := SinceConfigured x) ?_ ?_ h
  · intro past e after hes
    cases past <;> cases hes
  · intro es s e s' _ hinv hs
    exact hinv.step (loop_arming x hs)

/-- From every SET_CONFIGURATION up to the next one the packets that endpoints 1 and 2 are
armed for are DATA0, DATA1, DATA0 and so on, whatever else happens in between. -/
theorem LoopRun.starts_alternate (h : LoopRun (past ++ e :: after) fw) (x : DataEp)
    (hconf : e.2.configured = true) (hnext : ∀ y ∈ after, y.2.configured = false) :
    startsOn x e.2.calls = [x.data0] ∧
      ∀ i t, (startsIn x (e :: after))[i]? = some t →
        t = if i % 2 = 0 then x.data0 else x.data1 := by
  obtain ⟨hfirst, halt⟩ := h.sinceConfigured x past e after rfl hconf hnext
  exact ⟨hfirst, halt.packets⟩

private def configuring : UsbLib :=
  match usbTransfer picUsbDeviceBoot.lib 0 0 .setup [0x00, 9, 1, 0, 0, 0, 0, 0] 8 with
  | .ok (lib, _) => lib
  | .error _ => picUsbDeviceBoot.lib

/-- Three transfers on the IN endpoint start with DATA0, DATA1 and DATA0. -/
theorem LoopRun.starts_alternate_twice : ∃ past e after fw, LoopRun (past ++ e :: after) fw ∧
    startsIn .inn (e :: after) = [usbTrnData0In, usbTrnData1In, usbTrnData0In] ∧
    ∀ i t, (startsIn .inn (e :: after))[i]? = some t →
      t = if i % 2 = 0 then usbTrnData0In else usbTrnData1In := by
  have hrun : LoopRun _ _ := Run.of_execAll (show execAll loopExec picUsbDeviceInit
    [.reset, .library configuring, .event 0 0, .event 0x81 0x41, .event 0x02 0,
      .event 0x81 0x42] = _ from rfl)
  have hconf : takesSetConfiguration { picUsbDeviceBoot with lib := configuring } 0 = true := by
    decide +kernel
  have hsplit : LoopRun ([_, _] ++ _ :: [_, _, _]) _ := hrun
  exact ⟨[_, _], _, [_, _, _], _, hrun, by decide +kernel,
    (hsplit.starts_alternate .inn hconf (by decide +kernel)).2⟩

end Runs

end BiMpp.Firmware
