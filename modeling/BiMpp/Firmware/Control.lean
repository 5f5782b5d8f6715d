import BiMpp.Base.Run
import BiMpp.Device.Packet

/-!
# The control endpoint of the firmware

`pic_usb_device.X/main.c`: `process_control_transfer` with its static state, driven by
the transactions that the device acknowledges on endpoint 0. Sizes are those of the
simulator build, where `unsigned int` has four bytes.
-/

namespace BiMpp.Firmware
open BiMpp.Usb BiMpp.Base BiMpp.Device

/-- `USB_TRN_SETUP`; `usb_lib.h:54`. -/
abbrev usbTrnSetup : BitVec 8 := 0x08

/-- `USB_TRN_DATA0_OUT`; `usb_lib.h:55`. -/
abbrev usbTrnData0Out : BitVec 8 := 0x08

/-- `USB_TRN_DATA0_IN`; `usb_lib.h:56`. -/
abbrev usbTrnData0In : BitVec 8 := 0x88

/-- `USB_TRN_DATA1_OUT`; `usb_lib.h:57`. -/
abbrev usbTrnData1Out : BitVec 8 := 0x48

/-- `USB_TRN_DATA1_IN`; `usb_lib.h:58`. -/
abbrev usbTrnData1In : BitVec 8 := 0xC8

/-- `EP_SETUP_INOUT`; `usb_lib.h:47`. -/
abbrev epSetupInout : BitVec 8 := 0x0D

/-- `EP_OUT`; `usb_lib.h:48`. -/
abbrev epOut : BitVec 8 := 0x09

/-- `EP_IN`; `usb_lib.h:49`. -/
abbrev epIn : BitVec 8 := 0x05

/-- `ep0_buf_out`, the first declared buffer; `main.c:114`. -/
abbrev ep0BufOut : BufPtr := 0

/-- `ep0_buf_in`; `main.c:115`. -/
abbrev ep0BufIn : BufPtr := 1

/-- `ep1_buf_in`; `main.c:116`. -/
abbrev ep1BufIn : BufPtr := 2

/-- `ep2_buf_out`; `main.c:117`. -/
abbrev ep2BufOut : BufPtr := 3

/-- `EP0_OUT_BUF_SIZE`, the size of all four; `main.c:102–105`. -/
abbrev ep0OutBufSize : Nat := 64

/-- `devdsc`; `main.c:18–33`. -/
def devdsc : List UInt8 :=
  [18, 1, 0x10, 0x01, 0, 0, 0, 64, 0x11, 0x11, 0x22, 0x22, 0x00, 0x01, 0, 0, 0, 1]

/-- `CONFIG`: configuration, interface and two endpoint descriptors; `main.c:123–169`. -/
def config : List UInt8 :=
  [9, 2, 32, 0, 1, 0x01, 0, 0x80, 50] ++ [9, 4, 0, 0, 2, 0xFF, 0, 0, 0] ++
    [7, 5, 0x81, 3, 10, 0, 1] ++ [7, 5, 0x02, 3, 10, 0, 1]

/-- `DEBUG`; `main.c:200`. -/
def debug : List UInt8 := [0x04, 0x0A, 0, 0]

/-- The values of `state`; `main.c:201–207`. -/
inductive Cts
  | setup
  | devdsc
  | ackin
  | ackad
  | cfgdsc
  | acksc
  | dbgdsc
  deriving DecidableEq, Repr

/-- `usb_device_req_t`; `usb_lib.h:102–108`. -/
structure UsbDeviceReq where
  bmRequestType : BitVec 8
  bRequest : BitVec 8
  wValue : BitVec 16
  wIndex : BitVec 16
  wLength : BitVec 16
  deriving DecidableEq, Repr

/-- The record over its eight bytes, words low byte first. -/
def UsbDeviceReq.ofBytes (l : List UInt8) : UsbDeviceReq :=
  let byte (i : Nat) : BitVec 8 := (l.getD i 0).toBitVec
  let word (i : Nat) : BitVec 16 := byte (i + 1) ++ byte i
  ⟨byte 0, byte 1, word 2, word 4, word 6⟩

/-- The library with the static variables of `main.c`. -/
structure PicUsbDevice where
  lib : UsbLib
  state : Cts
  addr : BitVec 8
  configuration : BitVec 8
  outData : Bool
  inData : Bool

/-- `usb_ep_transf_start` on a declared endpoint. -/
def PicUsbDevice.start (fw : PicUsbDevice) (num : Nat) (transferType : BitVec 8) (buffer : BufPtr)
    (size : Nat) : PicUsbDevice :=
  { fw with lib := usbEpTransfStart fw.lib num transferType buffer size }

/-- The three descriptor cases: copy it into the IN buffer and arm as much of it as was
asked for; `main.c:234–253`. -/
def sendDescriptor (fw : PicUsbDevice) (descr : List UInt8) (wLength : BitVec 16) (state : Cts) :
    PicUsbDevice :=
  let fw := { fw with lib := copyToBuffer fw.lib ep0BufIn descr descr.length }
  { fw.start 0 usbTrnData1In ep0BufIn (min descr.length wLength.toNat) with state := state }

/-- The switch over the type of a descriptor: the cases that send one, with the state behind it,
and any other; `main.c:232–256`. -/
def descriptorSwitch {α : Type} (req : UsbDeviceReq) (send : List UInt8 → Cts → α) (other : α) :
    α :=
  match ((req.wValue >>> 8) &&& 0xFF).toNat with
  | 1 => send devdsc .devdsc
  | 2 => send config .cfgdsc
  | 0xA => send debug .dbgdsc
  | _ => other

/-- GET DESCRIPTOR; `main.c:231–257`. -/
def getDescriptor (fw : PicUsbDevice) (req : UsbDeviceReq) : PicUsbDevice :=
  descriptorSwitch req (fun descr state ↦ sendDescriptor fw descr req.wLength state) fw

/-- Set address; `main.c:259–263`. -/
def setAddress (fw : PicUsbDevice) (req : UsbDeviceReq) : PicUsbDevice :=
  let fw := { fw with addr := req.wValue.setWidth 8 }
  { fw.start 0 usbTrnData1In ep0BufIn 0 with state := .ackad }

/-- Set configuration; `main.c:265–288`. -/
def setConfiguration (fw : PicUsbDevice) (req : UsbDeviceReq) : PicUsbDevice :=
  let fw := { fw with
    configuration := req.wValue.setWidth 8
    lib := usbInitEp (usbInitEp fw.lib 1 epIn) 2 epOut
    inData := false
    outData := false }
  let fw := { fw.start 2 usbTrnData0Out ep2BufOut 0 with outData := !fw.outData }
  let fw := { fw.start 1 usbTrnData0In ep1BufIn 0 with inData := !fw.inData }
  { fw.start 0 usbTrnData1In ep0BufIn 0 with state := .acksc }

/-- The switch over `req.bRequest`: its three cases, and any other; `main.c:229–291`. -/
def requestSwitch {α : Type} (req : UsbDeviceReq)
    (getDescriptor setAddress setConfiguration other : α) : α :=
  match req.bRequest.toNat with
  | 6 => getDescriptor
  | 5 => setAddress
  | 9 => setConfiguration
  | _ => other

/-- A SETUP packet; `main.c:220–293`. -/
def processSetup (fw : PicUsbDevice) (req : UsbDeviceReq) : PicUsbDevice :=
  requestSwitch req (getDescriptor fw req) (setAddress fw req) (setConfiguration fw req) fw

/-- The switch over `state`, with one case for the three descriptors. That of `CTS_ACKSC` is
commented out; `main.c:295–326`. -/
def stageSwitch {α : Type} (state : Cts) (descriptor ackin ackad other : α) : α :=
  match state with
  | .devdsc => descriptor
  | .cfgdsc => descriptor
  | .dbgdsc => descriptor
  | .ackin => ackin
  | .ackad => ackad
  | .acksc => other
  | .setup => other

/-- Any other packet. The case of `CTS_ACKAD` leaves the state as it is; `main.c:295–326`. -/
def processStage (fw : PicUsbDevice) : PicUsbDevice :=
  stageSwitch fw.state
    { fw.start 0 usbTrnData1Out ep0BufOut ep0OutBufSize with state := .ackin }
    { fw.start 0 usbTrnSetup ep0BufOut ep0OutBufSize with state := .setup }
    ({ fw with lib := usbSetAddress fw.lib fw.addr }.start 0 usbTrnSetup ep0BufOut ep0OutBufSize)
    fw

/-- The test for a SETUP packet, with the request that is in the buffer; `main.c:219–222,293`. -/
def controlSwitch {α : Type} (fw : PicUsbDevice) (ep : BitVec 8) (setup : UsbDeviceReq → α)
    (stage other : α) : α :=
  match fw.lib.bdt[0]? with
  | none => other
  | some e =>
    if isSetup ep e then setup (.ofBytes (copyFromBuffer fw.lib ep0BufOut 8)) else stage

/-- `process_control_transfer`; `main.c:213–327`. -/
def processControlTransfer (fw : PicUsbDevice) (ep : BitVec 8) : PicUsbDevice :=
  controlSwitch fw ep (processSetup fw) (processStage fw) fw

section Switches

variable {α β : Type} {R : α → β → Prop} {req : UsbDeviceReq} {fw : PicUsbDevice} {ep : BitVec 8}

/-- What is related in every case of the switch over the type of a descriptor is related. -/
theorem descriptorSwitch_rel {send : List UInt8 → Cts → α} {send' : List UInt8 → Cts → β}
    {other : α} {other' : β} (hsend : ∀ descr state, R (send descr state) (send' descr state))
    (hother : R other other') :
    R (descriptorSwitch req send other) (descriptorSwitch req send' other') := by
  unfold descriptorSwitch
  generalize ((req.wValue >>> 8) &&& 0xFF).toNat = n
  split
  · exact hsend _ _
  · exact hsend _ _
  · exact hsend _ _
  · exact hother

/-- So is what is related in every case of the switch over the request. -/
theorem requestSwitch_rel {d a c o : α} {d' a' c' o' : β} (hd : req.bRequest = 6 → R d d')
    (ha : req.bRequest = 5 → R a a') (hc : req.bRequest = 9 → R c c')
    (ho : req.bRequest ≠ 9 → R o o') :
    R (requestSwitch req d a c o) (requestSwitch req d' a' c' o') := by
  have hreq : ∀ k : BitVec 8, req.bRequest.toNat = k.toNat → req.bRequest = k :=
    fun k ↦ BitVec.eq_of_toNat_eq
  unfold requestSwitch
  generalize hn : req.bRequest.toNat = n at hreq
  split
  · exact hd (hreq 6 rfl)
  · exact ha (hreq 5 rfl)
  · exact hc (hreq 9 rfl)
  · next h6 h5 h9 =>
    refine ho fun h ↦ h9 ?_
    rw [← hn, h]
    rfl

/-- So is what is related in every case of the switch over the state. -/
theorem stageSwitch_rel {state : Cts} {d i a o : α} {d' i' a' o' : β} (hd : R d d') (hi : R i i')
    (ha : state = .ackad → R a a') (ho : R o o') :
    R (stageSwitch state d i a o) (stageSwitch state d' i' a' o') := by
  cases state with
  | ackin => exact hi
  | ackad => exact ha rfl
  | acksc => exact ho
  | setup => exact ho
  | _ => exact hd

/-- So is what is related for every packet of endpoint 0. -/
theorem controlSwitch_rel {setup : UsbDeviceReq → α} {setup' : UsbDeviceReq → β} {s o : α}
    {s' o' : β} (hsetup : ∀ e, fw.lib.bdt[0]? = some e → isSetup ep e = true →
      R (setup (.ofBytes (copyFromBuffer fw.lib ep0BufOut 8)))
        (setup' (.ofBytes (copyFromBuffer fw.lib ep0BufOut 8))))
    (hstage : ∀ e, fw.lib.bdt[0]? = some e → isSetup ep e = false → R s s') (hother : R o o') :
    R (controlSwitch fw ep setup s o) (controlSwitch fw ep setup' s' o') := by
  unfold controlSwitch
  cases he : fw.lib.bdt[0]? with
  | none => exact hother
  | some e =>
    dsimp only
    split
    · next h => exact hsetup e he h
    · next h => exact hstage e he (Bool.eq_false_iff.mpr h)

end Switches

/-- The branch of `main` after a bus reset; `main.c:381–389`. -/
def mainReset (fw : PicUsbDevice) : PicUsbDevice :=
  let fw := { fw with lib := usbInitEp (usbReset fw.lib) 0 epSetupInout }
  fw.start 0 usbTrnSetup ep0BufOut ep0OutBufSize

/-- The device at program start: zeroed variables, three endpoints, four buffers, enabled. -/
def picUsbDeviceInit : PicUsbDevice where
  lib := usbEnable {
    u1ep := List.replicate 16 0
    u1addr := 0
    sofif := false
    pktdis := false
    usben := false
    reset := false
    epQueue := ⟨0, 0, fun _ ↦ 0⟩
    bdt := List.replicate 3 ⟨.zero, .zero⟩
    buffers := List.replicate 4 ⟨ep0OutBufSize, List.replicate ep0OutBufSize 0⟩ }
  state := .setup
  addr := 0
  configuration := 0
  outData := false
  inData := false

/-- The device after the bus reset that starts enumeration. -/
def picUsbDeviceBoot : PicUsbDevice := mainReset picUsbDeviceInit

/-! ### Endpoint 0 at work -/

/-- The transactions on endpoint 0: a SETUP packet, an IN token, and a packet to the
OUT entry. -/
inductive Ep0Op
  | setup (addr : Int) (bytes : List UInt8)
  | inn (addr : Int) (size : Int)
  | out (addr : Int) (bytes : List UInt8)
  deriving DecidableEq, Repr

/-- Take the ownership bit of the entry a transaction completed. -/
def disarm (d : UsbLib) (ep : BitVec 8) : UsbLib :=
  { d with bdt := d.bdt.modify (ep &&& 0x0F).toNat fun e ↦
      if ep &&& 0x80 = 0 then { e with out := { e.out with stat := e.out.stat &&& 0x7F } }
      else { e with inn := { e.inn with stat := e.inn.stat &&& 0x7F } } }

/-- One acknowledged transaction: it disarms its entry, is reported to `main`, and
`process_control_transfer` runs to its end; `main.c:402–411`. -/
def ep0Transaction (fw : PicUsbDevice) (addr : Int) (ep : BitVec 8) (pid : UsbPid)
    (data : List UInt8) (size : Int) : Except Stop (PicUsbDevice × Response) :=
  match usbTransfer fw.lib addr ep pid data size with
  | .error f => .error (.fault f)
  | .ok (lib, r) =>
    if r.isAck then
      let (reported, lib) := getTrnStatus (disarm lib ep)
      .ok (processControlTransfer { fw with lib := lib } reported, r)
    else .error .blocked

/-- Whether the OUT entry of endpoint 0 is armed for a DATA1 packet. -/
def outArmedForData1 (d : UsbLib) : Bool :=
  match d.bdt[0]? with
  | some e => e.out.stat &&& 0x40 != 0
  | none => false

/-- One event: SETUP packets have eight bytes, and the other packets are those the
firmware armed an entry for, all of them DATA1. -/
def ep0Exec (fw : PicUsbDevice) : Ep0Op → Except Stop (PicUsbDevice × Response)
  | .setup addr bytes =>
    if bytes.length = 8 then ep0Transaction fw addr (outEp 0) .setup bytes bytes.length
    else .error .blocked
  | .inn addr size => ep0Transaction fw addr (inEp 0) .data1 [] size
  | .out addr bytes =>
    if outArmedForData1 fw.lib then ep0Transaction fw addr (outEp 0) .data1 bytes bytes.length
    else .error .blocked

/-- An event with the response the host saw. -/
abbrev Ep0Event := Ep0Op × Response

/-- Finite runs from the reset. -/
abbrev Ep0Run : List Ep0Event → PicUsbDevice → Prop := Run (Fires ep0Exec) picUsbDeviceBoot

/-! ### The stages of a control transfer -/

/-- What the host does next on endpoint 0. -/
inductive Stage
  | setup
  | dataIn
  | dataOut
  | statusIn
  | statusOut
  deriving DecidableEq, Repr

/-- The stage after a SETUP packet: data in the direction of bit 7, or without data the status
stage, which is an IN whatever bit 7 says; `sys.c:191,204,222`. -/
def UsbDeviceReq.firstStage (req : UsbDeviceReq) : Stage :=
  if req.wLength = 0 then .statusIn
  else if req.bmRequestType &&& 0x80 = 0 then .dataOut
  else .dataIn

/-- The stage after a transaction. -/
def Stage.after : Stage → Ep0Op → Stage
  | _, .setup _ bytes => (UsbDeviceReq.ofBytes bytes).firstStage
  | .dataIn, .inn _ _ => .statusOut
  | _, .inn _ _ => .setup
  | .dataOut, .out _ _ => .statusIn
  | _, .out _ _ => .setup

/-- The stage a history has led to. -/
def stageAfter (es : List Ep0Event) : Stage := es.foldl (fun st x ↦ st.after x.1) .setup

/-- The request of the last SETUP packet. -/
def currentRequest (es : List Ep0Event) : Option UsbDeviceReq :=
  es.foldl (fun q x ↦
    match x.1 with
    | .setup _ bytes => some (.ofBytes bytes)
    | _ => q) none

/-- The entry a stage needs is armed; for SETUP with the whole buffer. -/
def ArmedFor (e : EpBufDsc) : Stage → Prop
  | .setup => e.out = .start usbTrnSetup ep0BufOut ep0OutBufSize
  | .dataIn => ∃ size, e.inn = .start usbTrnData1In ep0BufIn size
  | .dataOut => ∃ size, e.out = .start usbTrnData1Out ep0BufOut size
  | .statusIn => e.inn = .start usbTrnData1In ep0BufIn 0
  | .statusOut => ∃ size, e.out = .start usbTrnData1Out ep0BufOut size

/-- Endpoint 0 is armed for the next stage or for the next SETUP packet, and packets are
let through. -/
def Ready (fw : PicUsbDevice) (st : Stage) : Prop :=
  fw.lib.pktdis = false ∧
    ∃ e, fw.lib.bdt[0]? = some e ∧ (ArmedFor e st ∨ ArmedFor e .setup)

/-- The requests `process_control_transfer` has a case for. -/
def UsbDeviceReq.Understood (req : UsbDeviceReq) : Prop :=
  req.bRequest = 5 ∨ req.bRequest = 9 ∨ req.bRequest = 6 ∧
    ((req.wValue >>> 8) &&& 0xFF = 1 ∨ (req.wValue >>> 8) &&& 0xFF = 2 ∨
      (req.wValue >>> 8) &&& 0xFF = 0xA)

/-- The requests that go on once their IN transaction is reported: SET_CONFIGURATION arms
nothing then, and a GET_DESCRIPTOR for no bytes has had its status stage and arms another. -/
def UsbDeviceReq.GoesOn (req : UsbDeviceReq) : Prop :=
  req.bRequest ≠ 9 ∧ ¬ (req.bRequest = 6 ∧ req.wLength = 0)

/-- The events the firmware has an answer to: a SETUP packet with a request it knows and no
data for the device, and the transactions of a request that goes on. -/
def Serves (past : List Ep0Event) : Ep0Op → Prop
  | .setup _ bytes => (UsbDeviceReq.ofBytes bytes).Understood ∧
      (UsbDeviceReq.ofBytes bytes).firstStage ≠ .dataOut
  | _ => ∀ req, currentRequest past = some req → req.GoesOn

private theorem stageAfter_snoc (es : List Ep0Event) (x : Ep0Event) :
    stageAfter (es ++ [x]) = (stageAfter es).after x.1 := by
  simp [stageAfter]

private theorem Stage.after_setup (st : Stage) (addr : Int) (bytes : List UInt8) :
    st.after (.setup addr bytes) = (UsbDeviceReq.ofBytes bytes).firstStage := by
  cases st <;> rfl

private theorem currentRequest_setup (es : List Ep0Event) (addr : Int) (bytes : List UInt8)
    (r : Response) :
    currentRequest (es ++ [(.setup addr bytes, r)]) = some (.ofBytes bytes) := by
  simp [currentRequest]

/-- Both entries of endpoint 0 are with the firmware. -/
def Deaf (fw : PicUsbDevice) : Prop :=
  ∃ e, fw.lib.bdt[0]? = some e ∧ e.out.owned = false ∧ e.inn.owned = false

private theorem not_ready {fw : PicUsbDevice} {e : EpBufDsc} {st : Stage}
    (he : fw.lib.bdt[0]? = some e) (hst : ¬ ArmedFor e st) (hsetup : ¬ ArmedFor e .setup) :
    ¬ Ready fw st := by
  rintro ⟨-, e', he', harmed⟩
  obtain rfl : e' = e := Option.some.inj (he'.symm.trans he)
  exact harmed.elim hst hsetup

private theorem out_not_armed {e : EpBufDsc} (hout : e.out.owned = false) {st : Stage}
    (hst : st ≠ .dataIn ∧ st ≠ .statusIn) : ¬ ArmedFor e st := by
  intro ha
  cases st with
  | dataIn => exact hst.1 rfl
  | statusIn => exact hst.2 rfl
  | setup =>
    rw [show e.out = _ from ha, owned_start] at hout
    cases hout
  | dataOut | statusOut =>
    obtain ⟨size, ha⟩ := ha
    rw [ha, owned_start] at hout
    cases hout

private theorem in_not_armed {e : EpBufDsc} (hin : e.inn.owned = false) {st : Stage}
    (hst : st = .dataIn ∨ st = .statusIn) : ¬ ArmedFor e st := by
  intro ha
  rcases hst with rfl | rfl
  · obtain ⟨size, ha⟩ := ha
    rw [ha, owned_start] at hin
    cases hin
  · rw [show e.inn = _ from ha, owned_start] at hin
    cases hin

/-- A deaf endpoint is ready for nothing. -/
theorem Deaf.not_ready {fw : PicUsbDevice} (h : Deaf fw) (st : Stage) : ¬ Ready fw st := by
  obtain ⟨e, he, hout, hin⟩ := h
  have hsetup : ¬ ArmedFor e .setup := out_not_armed hout (by decide)
  refine Firmware.not_ready he ?_ hsetup
  by_cases hst : st = .dataIn ∨ st = .statusIn
  · exact in_not_armed hin hst
  · exact out_not_armed hout (not_or.mp hst)

/-- The state that `process_control_transfer` waits in for the request's IN transaction. -/
inductive Awaits (req : UsbDeviceReq) (state : Cts) : Prop
  | descriptor : req.bRequest = 6 → state = .devdsc ∨ state = .cfgdsc ∨ state = .dbgdsc →
      Awaits req state
  | address : req.bRequest = 5 → state = .ackad → Awaits req state
  | configuration : req.bRequest = 9 → state = .acksc → Awaits req state

/-- What endpoint 0 waits for, told by what is armed: the next SETUP packet, the IN
transaction of the current request, or the OUT status stage of a GET_DESCRIPTOR. -/
inductive Phase (es : List Ep0Event) (fw : PicUsbDevice) (e : EpBufDsc) : Prop
  | listening : stageAfter es = .setup ∨ stageAfter es = .statusOut →
      e.out = .start usbTrnSetup ep0BufOut ep0OutBufSize → e.inn.owned = false → Phase es fw e
  | sending (req : UsbDeviceReq) (size : Int) : currentRequest es = some req →
      stageAfter es = req.firstStage → req.firstStage ≠ .dataOut → Awaits req fw.state →
      (req.wLength = 0 → size = 0) → e.inn = .start usbTrnData1In ep0BufIn size →
      e.out.owned = false → Phase es fw e
  | receiving : stageAfter es = .statusOut → fw.state = .ackin →
      (∀ req, currentRequest es = some req → req.GoesOn) →
      e.out = .start usbTrnData1Out ep0BufOut ep0OutBufSize → e.inn.owned = false → Phase es fw e

/-- What the firmware keeps while it is ready: nothing else is reported, packets are let
through, one entry is armed, and its state fits the stage. -/
structure Serving (es : List Ep0Event) (fw : PicUsbDevice) (e : EpBufDsc) : Prop where
  queue : fw.lib.epQueue.contents = []
  pktdis : fw.lib.pktdis = false
  entry : fw.lib.bdt[0]? = some e
  phase : Phase es fw e

/-! ### One acknowledged transaction -/

section Transactions

variable {fw fw' : PicUsbDevice} {addr : Int} {e : EpBufDsc} {r : Response}

/-- Disarming an endpoint leaves the event queue. -/
@[simp] theorem disarm_epQueue (d : UsbLib) (ep : BitVec 8) :
    (disarm d ep).epQueue = d.epQueue := rfl

/-- Disarming an endpoint leaves the buffers. -/
@[simp] theorem disarm_buffers (d : UsbLib) (ep : BitVec 8) :
    (disarm d ep).buffers = d.buffers := rfl

private theorem disarm_out {d : UsbLib} (h : d.bdt[0]? = some e) :
    (disarm d (outEp 0)).bdt[0]? =
      some ⟨{ e.out with stat := e.out.stat &&& 0x7F }, e.inn⟩ := by
  change (d.bdt.modify 0 fun e ↦ ⟨{ e.out with stat := e.out.stat &&& 0x7F }, e.inn⟩)[0]? = _
  simp [h]

private theorem disarm_in {d : UsbLib} (h : d.bdt[0]? = some e) :
    (disarm d (inEp 0)).bdt[0]? =
      some ⟨e.out, { e.inn with stat := e.inn.stat &&& 0x7F }⟩ := by
  change (d.bdt.modify 0 fun e ↦ ⟨e.out, { e.inn with stat := e.inn.stat &&& 0x7F }⟩)[0]? = _
  simp [h]

private theorem owned_disarmed (b : BdfEntry) :
    BdfEntry.owned { b with stat := b.stat &&& 0x7F } = false := by
  have hbit : ∀ x : BitVec 8, x &&& 0x7F &&& 0x80 = 0 := by decide
  rw [BdfEntry.owned, bne_eq_false_iff_eq]
  exact hbit _

private theorem isSetup_received (b : BdfEntry) (inn : BdfEntry) (sz : Int) :
    isSetup (outEp 0) ⟨{ b.received .setup sz with stat := (b.received .setup sz).stat &&& 0x7F },
      inn⟩ = true ∧
    isSetup (outEp 0) ⟨{ b.received .data1 sz with stat := (b.received .data1 sz).stat &&& 0x7F },
      inn⟩ = false := by
  have hbit : ∀ x : BitVec 8,
      ((((x &&& 0xC3 ||| 0x0D <<< 2) &&& 0x7F) >>> 2) &&& 0x0F == (0x0D : BitVec 8)) = true ∧
      ((((x &&& 0xC3 ||| 0x0B <<< 2) &&& 0x7F) >>> 2) &&& 0x0F == (0x0D : BitVec 8)) = false := by
    decide
  exact hbit b.stat

private theorem out_reported {pid : UsbPid} {data : List UInt8} {t : BitVec 8}
    (hpid : UsbPid.isData pid = true) (hq : fw.lib.epQueue.contents = [])
    (he : fw.lib.bdt[0]? = some e) (hout : e.out = .start t ep0BufOut ep0OutBufSize)
    (hx : ep0Transaction fw addr (outEp 0) pid data data.length = .ok (fw', r)) :
    ∃ lib sz, fw' = processControlTransfer { fw with lib := lib } (outEp 0) ∧
      lib.epQueue.contents = [] ∧ sz = min (ep0OutBufSize : Int) data.length ∧
      lib.bdt[0]? = some ⟨{ e.out.received pid sz with
        stat := (e.out.received pid sz).stat &&& 0x7F }, e.inn⟩ ∧
      copyFromBuffer lib ep0BufOut sz.toNat = data.take sz.toNat := by
  unfold ep0Transaction at hx
  split at hx
  · cases hx
  · next lib r' ht =>
    split at hx
    · next hack =>
      cases hx
      cases packetStep_of_transfer hpid ht with
      | refused _ _ _ hr =>
        rw [hr] at hack
        cases hack
      | @received b buf sz hadm hb hget hle hsz hbdt hbuf hpush =>
        obtain rfl : b = e := Option.some.inj (hb.symm.trans he)
        have haddr : b.out.addr = 0 := by rw [hout]; rfl
        have hcnt : b.out.cnt.toNat = ep0OutBufSize := by rw [hout]; rfl
        rw [haddr] at hget hbuf
        rw [hcnt] at hsz
        obtain ⟨hlt, -⟩ := List.getElem?_eq_some_iff.mp hget
        obtain ⟨hlt₀, -⟩ := List.getElem?_eq_some_iff.mp he
        have hentry : lib.bdt[0]? = some ⟨b.out.received pid sz, b.inn⟩ := by
          rw [hbdt]
          exact List.getElem?_set_self hlt₀
        obtain ⟨hpop, hrest⟩ := Ring.pop_push _ (outEp 0) (by decide) hq
        refine ⟨{ disarm lib (outEp 0) with
          epQueue := (disarm lib (outEp 0)).epQueue.pop.2 }, sz, ?_, ?_, hsz, ?_, ?_⟩
        · simp only [disarm_epQueue, hpush, hpop]
        · simp only [disarm_epQueue, hpush, hrest]
        · exact disarm_out hentry
        · have hlen : (data.take sz.toNat).length = sz.toNat := by
            rw [List.length_take]
            omega
          simp only [copyFromBuffer, disarm_buffers, hbuf, List.getElem?_set_self hlt]
          simp only [writeAt, Int.toNat_zero, List.take_zero, List.nil_append]
          exact List.take_left' hlen
    · cases hx

private theorem setup_reported {bytes : List UInt8} {t : BitVec 8}
    (hq : fw.lib.epQueue.contents = []) (he : fw.lib.bdt[0]? = some e)
    (hout : e.out = .start t ep0BufOut ep0OutBufSize)
    (hx : ep0Exec fw (.setup addr bytes) = .ok (fw', r)) :
    ∃ lib e', fw' = processSetup { fw with lib := lib } (.ofBytes bytes) ∧
      lib.epQueue.contents = [] ∧ lib.bdt[0]? = some e' ∧ e'.inn = e.inn ∧
      e'.out.owned = false := by
  simp only [ep0Exec] at hx
  split at hx
  · next hlen =>
    obtain ⟨lib, sz, rfl, hq', hsz, he', hcopy⟩ := out_reported rfl hq he hout hx
    have hsz8 : sz.toNat = 8 := by
      rw [hsz, hlen]
      rfl
    rw [hsz8, ← hlen, List.take_length, hlen] at hcopy
    refine ⟨lib, _, ?_, hq', he', rfl, owned_disarmed _⟩
    simp only [processControlTransfer, controlSwitch, he', (isSetup_received e.out e.inn sz).1,
      if_true, hcopy]
  · exact nomatch hx

private theorem status_reported {bytes : List UInt8} {t : BitVec 8}
    (hq : fw.lib.epQueue.contents = []) (he : fw.lib.bdt[0]? = some e)
    (hout : e.out = .start t ep0BufOut ep0OutBufSize)
    (hx : ep0Exec fw (.out addr bytes) = .ok (fw', r)) :
    ∃ lib e', fw' = processStage { fw with lib := lib } ∧
      lib.epQueue.contents = [] ∧ lib.bdt[0]? = some e' ∧ e'.inn = e.inn ∧
      e'.out.owned = false := by
  simp only [ep0Exec] at hx
  split at hx
  · obtain ⟨lib, sz, rfl, hq', -, he', -⟩ := out_reported rfl hq he hout hx
    refine ⟨lib, _, ?_, hq', he', rfl, owned_disarmed _⟩
    simp only [processControlTransfer, controlSwitch, he', (isSetup_received e.out e.inn sz).2,
      Bool.false_eq_true, if_false]
  · exact nomatch hx

private theorem in_reported {size : Int} (hq : fw.lib.epQueue.contents = [])
    (he : fw.lib.bdt[0]? = some e) (hx : ep0Exec fw (.inn addr size) = .ok (fw', r)) :
    e.inn.owned = true ∧ ∃ lib e', fw' = processStage { fw with lib := lib } ∧
      lib.epQueue.contents = [] ∧ lib.bdt[0]? = some e' ∧ e'.out = e.out ∧
      e'.inn.owned = false := by
  simp only [ep0Exec, ep0Transaction] at hx
  split at hx
  · exact nomatch hx
  · next lib r' ht =>
    split at hx
    · next hack =>
      cases hx
      obtain ⟨b, hb, howned, hbdt, -, hpush⟩ := sent_of_transfer (.inr rfl) ht hack
      obtain rfl : b = e := Option.some.inj (hb.symm.trans he)
      obtain ⟨hlt₀, -⟩ := List.getElem?_eq_some_iff.mp he
      obtain ⟨hpop, hrest⟩ := Ring.pop_push _ (inEp 0) (by decide) hq
      have hentry : lib.bdt[0]? = some ⟨b.out, b.inn.sent .data1⟩ := by
        rw [hbdt]
        exact List.getElem?_set_self hlt₀
      have he' := disarm_in hentry
      refine ⟨howned, { disarm lib (inEp 0) with
        epQueue := (disarm lib (inEp 0)).epQueue.pop.2 }, _, ?_, ?_, he', rfl,
        owned_disarmed _⟩
      · simp only [getTrnStatus, disarm_epQueue, hpush, hpop, processControlTransfer,
          controlSwitch, he']
        rfl
      · simp only [disarm_epQueue, hpush, hrest]
    · exact nomatch hx

private theorem out_owned {pid : UsbPid} {data : List UInt8} (hpid : UsbPid.isData pid = true)
    (he : fw.lib.bdt[0]? = some e)
    (hx : ep0Transaction fw addr (outEp 0) pid data data.length = .ok (fw', r)) :
    e.out.owned = true := by
  unfold ep0Transaction at hx
  split at hx
  · exact nomatch hx
  · next lib r' ht =>
    split at hx
    · next hack =>
      cases packetStep_of_transfer hpid ht with
      | refused _ _ _ hr =>
        rw [hr] at hack
        exact nomatch hack
      | received hadm => exact UsbLib.owned_of_admits hadm he
    · exact nomatch hx

end Transactions

/-! ### What the firmware arms -/

/-- Endpoint 0 is left with entries `e`, packets let through and the queue as it was. -/
structure Arms (d d' : UsbLib) (e : EpBufDsc) : Prop where
  queue : d'.epQueue = d.epQueue
  pktdis : d'.pktdis = false
  entry : d'.bdt[0]? = some e

section Arming

variable {fw : PicUsbDevice} {d : UsbLib} {e : EpBufDsc}

private theorem arms_in (size : Int) (he : d.bdt[0]? = some e) :
    Arms d (usbEpTransfStart d 0 usbTrnData1In ep0BufIn size)
      ⟨e.out, .start usbTrnData1In ep0BufIn size⟩ where
  queue := rfl
  pktdis := rfl
  entry := by
    rw [usbEpTransfStart_entry, if_pos rfl, he]
    rfl

private theorem arms_out {t : BitVec 8} (ht : t &&& 0x80 = 0) (he : d.bdt[0]? = some e) :
    Arms d (usbEpTransfStart d 0 t ep0BufOut ep0OutBufSize)
      ⟨.start t ep0BufOut ep0OutBufSize, e.inn⟩ where
  queue := rfl
  pktdis := rfl
  entry := by
    rw [usbEpTransfStart_entry, if_pos rfl, he]
    simp only [EpBufDsc.start, ht, ne_eq, not_true_eq_false, if_false, Option.map_some]

/-- What a SETUP packet does: it arms the IN entry and waits, or the request is unknown and
nothing happens. -/
inductive SetupStep (fw : PicUsbDevice) (e : EpBufDsc) (req : UsbDeviceReq) :
    PicUsbDevice → Prop
  | armed {fw' : PicUsbDevice} {size : Int} : req.Understood →
      Arms fw.lib fw'.lib ⟨e.out, .start usbTrnData1In ep0BufIn size⟩ →
      Awaits req fw'.state → (req.wLength = 0 → size = 0) → SetupStep fw e req fw'
  | unknown {fw' : PicUsbDevice} : ¬ req.Understood → fw'.lib = fw.lib → SetupStep fw e req fw'

private theorem getDescriptor_step (he : fw.lib.bdt[0]? = some e) {req : UsbDeviceReq}
    (h6 : req.bRequest = 6) : SetupStep fw e req (getDescriptor fw req) := by
  have hsend : ∀ descr state, Arms fw.lib (sendDescriptor fw descr req.wLength state).lib
      ⟨e.out, .start usbTrnData1In ep0BufIn (min descr.length req.wLength.toNat : Nat)⟩ :=
    fun descr state ↦ ⟨rfl, rfl, (arms_in _ he).entry⟩
  have hnone : ∀ descr : List UInt8, req.wLength = 0 →
      ((min descr.length req.wLength.toNat : Nat) : Int) = 0 := by
    intro descr h0
    simp [h0]
  have htype : ∀ k : BitVec 16, ((req.wValue >>> 8) &&& 0xFF).toNat = k.toNat →
      (req.wValue >>> 8) &&& 0xFF = k := fun k ↦ BitVec.eq_of_toNat_eq
  unfold getDescriptor descriptorSwitch
  split
  · next h =>
    exact .armed (.inr (.inr ⟨h6, .inl (htype 1 h)⟩)) (hsend _ _)
      (.descriptor h6 (.inl rfl)) (hnone _)
  · next h =>
    exact .armed (.inr (.inr ⟨h6, .inr (.inl (htype 2 h))⟩)) (hsend _ _)
      (.descriptor h6 (.inr (.inl rfl))) (hnone _)
  · next h =>
    exact .armed (.inr (.inr ⟨h6, .inr (.inr (htype 0xA h))⟩)) (hsend _ _)
      (.descriptor h6 (.inr (.inr rfl))) (hnone _)
  · next h1 h2 hA =>
    refine .unknown ?_ rfl
    rintro (h | h | ⟨-, h | h | h⟩)
    · rw [h6] at h
      exact absurd h (by decide)
    · rw [h6] at h
      exact absurd h (by decide)
    · exact h1 (by rw [h]; rfl)
    · exact h2 (by rw [h]; rfl)
    · exact hA (by rw [h]; rfl)

private theorem setConfiguration_arms (he : fw.lib.bdt[0]? = some e) (req : UsbDeviceReq) :
    Arms fw.lib (setConfiguration fw req).lib ⟨e.out, .start usbTrnData1In ep0BufIn 0⟩ := by
  -- the calls before the last one touch endpoints 1 and 2 only
  have hentry : (usbEpTransfStart (usbEpTransfStart (usbInitEp (usbInitEp fw.lib 1 epIn) 2 epOut)
      2 usbTrnData0Out ep2BufOut 0) 1 usbTrnData0In ep1BufIn 0).bdt[0]? = some e := by
    rw [usbEpTransfStart_entry, if_neg (by decide), usbEpTransfStart_entry, if_neg (by decide),
      usbInitEp_entry_ne _ _ _ _ (by decide), usbInitEp_entry_ne _ _ _ _ (by decide), he]
  have harms := arms_in 0 hentry
  exact ⟨harms.queue, harms.pktdis, harms.entry⟩

private theorem setupStep_of_process (he : fw.lib.bdt[0]? = some e) (req : UsbDeviceReq) :
    SetupStep fw e req (processSetup fw req) := by
  have hreq : ∀ k : BitVec 8, req.bRequest.toNat = k.toNat → req.bRequest = k :=
    fun k ↦ BitVec.eq_of_toNat_eq
  unfold processSetup requestSwitch
  split
  · next h => exact getDescriptor_step he (hreq 6 h)
  · next h =>
    have h5 := hreq 5 h
    exact .armed (.inl h5) (arms_in 0 he) (.address h5 rfl) fun _ ↦ rfl
  · next h =>
    have h9 := hreq 9 h
    exact .armed (.inr (.inl h9)) (setConfiguration_arms he req) (.configuration h9 rfl)
      fun _ ↦ rfl
  · next h6 h5 h9 =>
    refine .unknown ?_ rfl
    rintro (h | h | ⟨h, -⟩)
    · exact h5 (by rw [h]; rfl)
    · exact h9 (by rw [h]; rfl)
    · exact h6 (by rw [h]; rfl)

end Arming

/-! ### The firmware is ready while it is served what it knows -/

section Step

variable {es : List Ep0Event} {fw fw' : PicUsbDevice} {e : EpBufDsc} {r : Response}

private theorem serving_setup (h : Serving es fw e) {addr : Int} {bytes : List UInt8}
    (hx : ep0Exec fw (.setup addr bytes) = .ok (fw', r)) :
    (Serves es (.setup addr bytes) → ∃ e', Serving (es ++ [(.setup addr bytes, r)]) fw' e') ∧
    (¬ Serves es (.setup addr bytes) → ¬ Ready fw' (UsbDeviceReq.ofBytes bytes).firstStage) := by
  have howned : e.out.owned = true := by
    simp only [ep0Exec] at hx
    split at hx
    · exact out_owned rfl h.entry hx
    · cases hx
  have harmed : (∃ t, e.out = .start t ep0BufOut ep0OutBufSize) ∧ e.inn.owned = false := by
    cases h.phase with
    | listening _ hout hinn => exact ⟨⟨_, hout⟩, hinn⟩
    | sending _ _ _ _ _ _ _ _ hout =>
      rw [hout] at howned
      cases howned
    | receiving _ _ _ hout hinn => exact ⟨⟨_, hout⟩, hinn⟩
  obtain ⟨⟨t, hout⟩, hinn⟩ := harmed
  obtain ⟨lib, e₁, rfl, hq, he₁, hinn₁, hout₁⟩ := setup_reported h.queue h.entry hout hx
  have hstep : SetupStep { fw with lib := lib } e₁ (.ofBytes bytes)
      (processSetup { fw with lib := lib } (.ofBytes bytes)) := setupStep_of_process he₁ _
  generalize processSetup _ _ = fw₁ at hstep ⊢
  cases hstep with
  | @armed size hund harms hawaits hsize =>
    constructor
    · rintro ⟨-, hdir⟩
      have hqueue : fw₁.lib.epQueue.contents = [] := by
        rw [harms.queue]
        exact hq
      refine ⟨_, hqueue, harms.pktdis, harms.entry, ?_⟩
      refine .sending _ size (currentRequest_setup ..) ?_ hdir hawaits hsize rfl hout₁
      rw [stageAfter_snoc, Stage.after_setup]
    · -- data for the device: only the IN entry is armed
      intro hn
      have hdir : (UsbDeviceReq.ofBytes bytes).firstStage = .dataOut := by
        by_contra hd
        exact hn ⟨hund, hd⟩
      have hno : ∀ st : Stage, st ≠ .dataIn ∧ st ≠ .statusIn →
          ¬ ArmedFor ⟨e₁.out, .start usbTrnData1In ep0BufIn size⟩ st := by
        intro st
        apply out_not_armed
        exact hout₁
      rw [hdir]
      exact not_ready harms.entry (hno .dataOut (by decide)) (hno .setup (by decide))
  | unknown hn hlib =>
    refine ⟨fun hs ↦ (hn hs.1).elim, fun _ ↦ Deaf.not_ready ⟨e₁, ?_, hout₁, ?_⟩ _⟩
    · rw [hlib]
      exact he₁
    · rw [hinn₁]
      exact hinn

-- a request that does not go on leaves the endpoint deaf, or waiting for one more status stage
private theorem serving_in (h : Serving es fw e) {addr size : Int}
    (hx : ep0Exec fw (.inn addr size) = .ok (fw', r)) :
    (Serves es (.inn addr size) → ∃ e', Serving (es ++ [(.inn addr size, r)]) fw' e') ∧
    (¬ Serves es (.inn addr size) → ¬ Ready fw' ((stageAfter es).after (.inn addr size))) := by
  obtain ⟨howned, lib, e₁, rfl, hq, he₁, hout₁, hinn₁⟩ := in_reported h.queue h.entry hx
  have hcur : currentRequest (es ++ [(.inn addr size, r)]) = currentRequest es := by
    simp [currentRequest]
  cases h.phase with
  | listening _ _ hinn =>
    rw [hinn] at howned
    cases howned
  | receiving _ _ _ _ hinn =>
    rw [hinn] at howned
    cases howned
  | sending req n hreq hst hdir hawaits hsize hinn hout =>
    have hserves : Serves es (.inn addr size) ↔ req.GoesOn := by
      constructor
      · intro hs
        exact hs req hreq
      · intro hs req' hreq'
        rw [hreq] at hreq'
        cases hreq'
        exact hs
    rw [hserves, hst]
    cases hawaits with
    | descriptor h6 hs =>
      have harms := arms_out (t := usbTrnData1Out) (by decide) he₁
      have hproc : processStage { fw with lib := lib } =
          { fw with
            lib := usbEpTransfStart lib 0 usbTrnData1Out ep0BufOut ep0OutBufSize
            state := .ackin } := by
        rcases hs with hs | hs | hs <;> simp only [processStage, stageSwitch, hs] <;> rfl
      rw [hproc]
      by_cases hlen : req.wLength = 0
      · refine ⟨fun hs ↦ (hs.2 ⟨h6, hlen⟩).elim, fun _ ↦ ?_⟩
        have hno : ¬ ArmedFor ⟨.start usbTrnData1Out ep0BufOut ep0OutBufSize, e₁.inn⟩
            .setup := by
          have hstat : (BdfEntry.start usbTrnData1Out ep0BufOut ep0OutBufSize).stat ≠
              (BdfEntry.start usbTrnSetup ep0BufOut ep0OutBufSize).stat := by decide
          exact fun ha ↦ hstat (congrArg BdfEntry.stat ha)
        rw [UsbDeviceReq.firstStage, if_pos hlen]
        exact not_ready harms.entry hno hno
      · have hgoes : req.GoesOn := ⟨by rw [h6]; decide, fun hn ↦ hlen hn.2⟩
        refine ⟨fun _ ↦ ?_, fun hn ↦ (hn hgoes).elim⟩
        refine ⟨_, by rw [← hq, ← harms.queue], harms.pktdis, harms.entry, ?_⟩
        refine .receiving ?_ rfl ?_ rfl hinn₁
        · have hin : req.firstStage = .dataIn := by
            unfold UsbDeviceReq.firstStage at hdir ⊢
            rw [if_neg hlen] at hdir ⊢
            by_cases hbit : req.bmRequestType &&& 0x80 = 0
            · exact (hdir (if_pos hbit)).elim
            · exact if_neg hbit
          rw [stageAfter_snoc, hst, hin]
          rfl
        · rw [hcur]
          intro req' hreq'
          rw [hreq] at hreq'
          cases hreq'
          exact hgoes
    | address h5 hstate =>
      have hgoes : req.GoesOn := by
        rw [UsbDeviceReq.GoesOn, h5]
        exact ⟨by decide, fun hn ↦ absurd hn.1 (by decide)⟩
      refine ⟨fun _ ↦ ?_, fun hn ↦ (hn hgoes).elim⟩
      have harms := arms_out (t := usbTrnSetup) (d := usbSetAddress lib fw.addr) (by decide) he₁
      have hproc : processStage { fw with lib := lib } =
          { fw with
            lib := usbEpTransfStart (usbSetAddress lib fw.addr) 0 usbTrnSetup ep0BufOut
              ep0OutBufSize } := by
        simp only [processStage, stageSwitch, hstate]
        rfl
      rw [hproc]
      refine ⟨_, by rw [← hq]; exact congrArg _ harms.queue, harms.pktdis, harms.entry, ?_⟩
      refine .listening ?_ rfl hinn₁
      rw [stageAfter_snoc, hst]
      cases hfirst : req.firstStage with
      | dataOut => exact (hdir hfirst).elim
      | dataIn => exact .inr rfl
      | _ => exact .inl rfl
    | configuration h9 hstate =>
      refine ⟨fun hs ↦ (hs.1 h9).elim, fun _ ↦ ?_⟩
      have hproc : processStage { fw with lib := lib } = { fw with lib := lib } := by
        simp only [processStage, stageSwitch, hstate]
      rw [hproc]
      refine Deaf.not_ready ⟨e₁, he₁, ?_, hinn₁⟩ _
      rw [hout₁]
      exact hout

private theorem serving_out (h : Serving es fw e) {addr : Int} {bytes : List UInt8}
    (hx : ep0Exec fw (.out addr bytes) = .ok (fw', r)) :
    Serves es (.out addr bytes) ∧ ∃ e', Serving (es ++ [(.out addr bytes, r)]) fw' e' := by
  have howned : e.out.owned = true := by
    simp only [ep0Exec] at hx
    split at hx
    · exact out_owned rfl h.entry hx
    · cases hx
  cases h.phase with
  | listening _ hout _ =>
    have hno : outArmedForData1 fw.lib = false := by
      rw [outArmedForData1, h.entry]
      simp only [hout]
      decide
    simp only [ep0Exec, hno] at hx
    cases hx
  | sending _ _ _ _ _ _ _ _ hout =>
    rw [hout] at howned
    cases howned
  | receiving hst hstate hreq hout hinn =>
    obtain ⟨lib, e₁, rfl, hq, he₁, hinn₁, -⟩ := status_reported h.queue h.entry hout hx
    refine ⟨hreq, ?_⟩
    have harms := arms_out (t := usbTrnSetup) (by decide) he₁
    have hproc : processStage { fw with lib := lib } =
        { fw with
          lib := usbEpTransfStart lib 0 usbTrnSetup ep0BufOut ep0OutBufSize
          state := .setup } := by
      simp only [processStage, stageSwitch, hstate]
      rfl
    rw [hproc]
    refine ⟨_, by rw [← hq, ← harms.queue], harms.pktdis, harms.entry, ?_⟩
    refine .listening (.inl ?_) rfl ?_
    · rw [stageAfter_snoc, hst]
      rfl
    · rw [hinn₁]
      exact hinn

private theorem serving_step (h : Serving es fw e) {op : Ep0Op}
    (hx : ep0Exec fw op = .ok (fw', r)) :
    (Serves es op → ∃ e', Serving (es ++ [(op, r)]) fw' e') ∧
      (¬ Serves es op → ¬ Ready fw' (stageAfter (es ++ [(op, r)]))) := by
  rw [stageAfter_snoc]
  cases op with
  | setup addr bytes =>
    rw [Stage.after_setup]
    exact serving_setup h hx
  | inn addr size => exact serving_in h hx
  | out addr bytes =>
    obtain ⟨hserves, hserving⟩ := serving_out h hx
    exact ⟨fun _ ↦ hserving, fun hn ↦ (hn hserves).elim⟩

private theorem Serving.ready (h : Serving es fw e) : Ready fw (stageAfter es) := by
  refine ⟨h.pktdis, e, h.entry, ?_⟩
  cases h.phase with
  | listening _ hout _ => exact .inr hout
  | sending req size _ hst hdir _ hsize hinn _ =>
    rw [hst]
    unfold UsbDeviceReq.firstStage at hdir ⊢
    by_cases hlen : req.wLength = 0
    · rw [if_pos hlen]
      rw [hsize hlen] at hinn
      exact .inl hinn
    · rw [if_neg hlen] at hdir ⊢
      by_cases hbit : req.bmRequestType &&& 0x80 = 0
      · exact (hdir (if_pos hbit)).elim
      · rw [if_neg hbit]
        exact .inl ⟨size, hinn⟩
  | receiving hst _ _ hout _ =>
    rw [hst]
    exact .inl ⟨_, hout⟩

end Step

private theorem serving_boot : ∃ e, Serving [] picUsbDeviceBoot e :=
  ⟨_, rfl, rfl, rfl, .listening (.inl rfl) rfl rfl⟩

private theorem serving_of {es : List Ep0Event}
    (h : ∀ past x fw, past ++ [x] <+: es → Ep0Run (past ++ [x]) fw →
      Ready fw (stageAfter (past ++ [x])) ∨ Serves past x.1) :
    ∀ past fw, past <+: es → Ep0Run past fw → ∃ e, Serving past fw e := by
  intro past
  -- induction on the history
  induction past using List.reverseRecOn with
  | nil =>
    intro fw _ hrun
    rw [hrun.of_nil]
    exact serving_boot
  | append_singleton past x ih =>
    intro fw hp hrun
    obtain ⟨fw₀, hrun₀, hfire⟩ := hrun.last
    obtain ⟨e, hserving⟩ := ih fw₀ ((List.prefix_append _ _).trans hp) hrun₀
    obtain ⟨hyes, hno⟩ := serving_step hserving hfire
    by_cases hs : Serves past x.1
    · exact hyes hs
    · exact (hno hs ((h past x fw hp hrun).resolve_right hs)).elim

/-- Endpoint 0 is ready at every return of `process_control_transfer` exactly when every
SETUP packet carries a request the firmware knows and no data for the device, and no
SET_CONFIGURATION and no GET_DESCRIPTOR for no bytes reaches its IN transaction. -/
theorem Ep0Run.ready_iff {es : List Ep0Event} {fw : PicUsbDevice} (h : Ep0Run es fw) :
    (∀ past fw', past <+: es → Ep0Run past fw' → Ready fw' (stageAfter past)) ↔
      ∀ past x, past ++ [x] <+: es → Serves past x.1 := by
  constructor
  · intro hready past x hp
    have hserving := serving_of fun past x fw' hp hrun ↦ .inl (hready _ fw' hp hrun)
    obtain ⟨rest, rfl⟩ := hp
    obtain ⟨fw₁, hrun₁, -⟩ := h.split
    obtain ⟨fw₀, hrun₀, hfire⟩ := hrun₁.last
    obtain ⟨e, hs⟩ := hserving past fw₀
      ((List.prefix_append past [x]).trans (List.prefix_append _ rest)) hrun₀
    by_contra hn
    exact (serving_step hs hfire).2 hn (hready _ fw₁ (List.prefix_append _ rest) hrun₁)
  · intro hserves past fw' hp hrun
    obtain ⟨e, hs⟩ := serving_of (fun past x _ hp _ ↦ .inr (hserves past x hp)) past fw' hp hrun
    exact hs.ready

/-- The device descriptor is read: three events. -/
theorem Ep0Run.ready_iff_example : ∃ es fw, Ep0Run es fw ∧ es.length = 3 ∧
    ((∀ past fw', past <+: es → Ep0Run past fw' → Ready fw' (stageAfter past)) ↔
      ∀ past x, past ++ [x] <+: es → Serves past x.1) := by
  have hcheck : runsTo ep0Exec picUsbDeviceBoot
      [.setup 0 [0x80, 6, 0, 1, 0, 0, 18, 0], .inn 0 64, .out 0 []]
      (fun _ es ↦ decide (es.length = 3)) = true := by decide +kernel
  obtain ⟨es, fw, hrun, hp⟩ := Run.of_runsTo hcheck
  exact ⟨es, fw, hrun, of_decide_eq_true hp, Ep0Run.ready_iff hrun⟩

/-- SET_CONFIGURATION: its status stage is reported and nothing is armed again. -/
theorem Ep0Run.left_deaf : ¬ ∀ es fw, Ep0Run es fw → Ready fw (stageAfter es) := by
  intro hall
  have hcheck : runsTo ep0Exec picUsbDeviceBoot [.setup 0 [0, 9, 1, 0, 0, 0, 0, 0], .inn 0 64]
      (fun fw _ ↦ fw.lib.bdt[0]?.any fun e ↦ !e.out.owned && !e.inn.owned) = true := by
    decide +kernel
  obtain ⟨es, fw, hrun, hp⟩ := Run.of_runsTo hcheck
  have hdeaf : Deaf fw := by
    obtain ⟨e, he, hno⟩ := Option.any_eq_true _ _ |>.mp hp
    simp only [Bool.and_eq_true, Bool.not_eq_true'] at hno
    exact ⟨e, he, hno⟩
  exact hdeaf.not_ready _ (hall es fw hrun)

end BiMpp.Firmware
