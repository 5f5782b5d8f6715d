import BiMpp.Device.Copy
import BiMpp.Device.Steps
import BiMpp.Firmware.Calls

/-!
# What the control endpoint sends

The firmware copies a descriptor into its IN buffer and arms as much of it as was asked for:
`pic_usb_device.X/main.c:213–327,372–427`, over the library of
`bi-mpp-pic24-usb-simulator-master/src/usb_lib_usbip.c`. The packets of the host, the bus resets
and the passes of the main loop come in any order.
-/

namespace BiMpp.Firmware
open BiMpp.Usb BiMpp.Base BiMpp.Device

/-! ### Requests and answers -/

/-- The descriptor of GET DESCRIPTOR; `main.c:231–257`. -/
def UsbDeviceReq.descriptor (req : UsbDeviceReq) : List UInt8 :=
  match ((req.wValue >>> 8) &&& 0xFF).toNat with
  | 1 => devdsc
  | 2 => config
  | 0xA => debug
  | _ => []

/-- The data that a request asks for: as much of a descriptor as `wLength` says. -/
def UsbDeviceReq.answer (req : UsbDeviceReq) : List UInt8 :=
  if req.bRequest = 6 then req.descriptor.take req.wLength.toNat else []

/-- The next step is the handling of a SETUP packet with this request; `main.c:222–229`. -/
def Running.Takes (s : Running) (req : UsbDeviceReq) : Prop :=
  ∃ ep n e, s.pc = .process ep n ∧ isControlEp ep = true ∧ s.fw.lib.bdt[0]? = some e ∧
    isSetup ep e = true ∧ req = .ofBytes (copyFromBuffer s.fw.lib ep0BufOut 8)

/-- The firmware has processed this request. -/
def Processed (es : List MainEvent) (req : UsbDeviceReq) : Prop :=
  ∃ past e after s, es = past ++ e :: after ∧ MainRun past s ∧ s.Takes req

/-- No data, or what a request of a kind asks for. -/
def Answers (R : UsbDeviceReq → Prop) (bytes : List UInt8) : Prop :=
  bytes = [] ∨ ∃ req, R req ∧ bytes = req.answer

/-- A request that was processed stays processed. -/
theorem Processed.snoc {es : List MainEvent} {req : UsbDeviceReq} (h : Processed es req)
    (e : MainEvent) : Processed (es ++ [e]) req := by
  obtain ⟨past, e', after, s, rfl, hrun, ht⟩ := h
  exact ⟨past, e', after ++ [e], s, by simp, hrun, ht⟩

/-- The request the firmware takes up is processed in this step. -/
theorem Processed.last {es : List MainEvent} {s : Running} {req : UsbDeviceReq}
    (hrun : MainRun es s) (ht : s.Takes req) (e : MainEvent) : Processed (es ++ [e]) req :=
  ⟨es, e, [], s, rfl, hrun, ht⟩

/-- A request asks for one of the three descriptors, or for none. -/
theorem UsbDeviceReq.descriptor_cases (req : UsbDeviceReq) :
    req.descriptor = [] ∨ req.descriptor ∈ [devdsc, config, debug] := by
  unfold UsbDeviceReq.descriptor
  split <;> simp

/-- No descriptor is longer than the configuration. -/
theorem UsbDeviceReq.length_descriptor (req : UsbDeviceReq) : req.descriptor.length ≤ 32 := by
  unfold UsbDeviceReq.descriptor
  split <;> decide

/-! ### What the calls do to endpoint 0 -/

/-- A call that arms an OUT entry with its own buffer, the IN entry of endpoint 0 for an empty
packet only, and writes to the buffer of endpoint 1 only. -/
def Tame : FirmwareCall → Prop
  | .transfStart num t buf size =>
    (t &&& 0x80 = 0 → num = 0 ∧ buf = ep0BufOut ∧ size = ep0OutBufSize ∧
        (t = usbTrnSetup ∨ t = usbTrnData1Out) ∨
      num = 2 ∧ buf = ep2BufOut) ∧ (t &&& 0x80 ≠ 0 → num = 0 → buf = ep0BufIn ∧ size = 0)
  | .copyToBuffer buf _ _ => buf = ep1BufIn
  | _ => True

/-- The calls of an event are tame, or send the descriptor of a request in the buffer. -/
inductive EventCalls (fw : PicUsbDevice) (ep : BitVec 8) : List FirmwareCall → Prop
  | tame {calls : List FirmwareCall} : (∀ c ∈ calls, Tame c) → EventCalls fw ep calls
  | send {e : EpBufDsc} {req : UsbDeviceReq} : isControlEp ep = true → fw.lib.bdt[0]? = some e →
      isSetup ep e = true → req = .ofBytes (copyFromBuffer fw.lib ep0BufOut 8) →
      req.bRequest = 6 → EventCalls fw ep (sendDescriptorCalls req.descriptor req.wLength)

private theorem tame_in (num : Nat) {t : BitVec 8} (buf : BufPtr) {size : Int}
    (ht : t &&& 0x80 ≠ 0) (h0 : num = 0 → buf = ep0BufIn ∧ size = 0) :
    Tame (.transfStart num t buf size) :=
  ⟨fun h ↦ absurd h ht, fun _ ↦ h0⟩

private theorem tame_out0 {t : BitVec 8} (ht : t = usbTrnSetup ∨ t = usbTrnData1Out) :
    Tame (.transfStart 0 t ep0BufOut ep0OutBufSize) := by
  have hout : t &&& 0x80 = 0 := by
    rcases ht with rfl | rfl <;> decide
  exact ⟨fun _ ↦ .inl ⟨rfl, rfl, rfl, ht⟩, fun h ↦ absurd hout h⟩

private theorem tame_out2 {t : BitVec 8} (ht : t &&& 0x80 = 0) (size : Int) :
    Tame (.transfStart 2 t ep2BufOut size) :=
  ⟨fun _ ↦ .inr ⟨rfl, rfl⟩, fun h ↦ absurd ht h⟩

private theorem getDescriptor_calls (req : UsbDeviceReq) :
    getDescriptorCalls req = [] ∨
      getDescriptorCalls req = sendDescriptorCalls req.descriptor req.wLength := by
  unfold getDescriptorCalls descriptorSwitch UsbDeviceReq.descriptor
  generalize (req.wValue >>> 8 &&& 0xFF).toNat = n
  split
  · exact .inr rfl
  · exact .inr rfl
  · exact .inr rfl
  · exact .inl rfl

private theorem setup_calls (req : UsbDeviceReq) :
    (∀ c ∈ setupCalls req, Tame c) ∨ req.bRequest = 6 ∧
      setupCalls req = sendDescriptorCalls req.descriptor req.wLength := by
  unfold setupCalls requestSwitch
  split
  · next h6 =>
    rcases getDescriptor_calls req with hnone | hsend
    · rw [hnone]
      exact .inl nofun
    · exact .inr ⟨BitVec.eq_of_toNat_eq h6, hsend⟩
  · left
    intro c hc
    rw [List.mem_singleton.mp hc]
    exact tame_in 0 ep0BufIn (by decide) fun _ ↦ ⟨rfl, rfl⟩
  · left
    unfold setConfigurationCalls
    intro c hc
    simp only [List.mem_cons, List.not_mem_nil, or_false] at hc
    rcases hc with rfl | rfl | rfl | rfl | rfl
    · trivial
    · trivial
    · exact tame_out2 (by decide) 0
    · exact tame_in 1 ep1BufIn (by decide) nofun
    · exact tame_in 0 ep0BufIn (by decide) fun _ ↦ ⟨rfl, rfl⟩
  · exact .inl nofun

private theorem stage_calls (fw : PicUsbDevice) : ∀ c ∈ stageCalls fw, Tame c := by
  have hdata : Tame (.transfStart 0 usbTrnData1Out ep0BufOut ep0OutBufSize) :=
    tame_out0 (.inr rfl)
  have hsetup : Tame (.transfStart 0 usbTrnSetup ep0BufOut ep0OutBufSize) :=
    tame_out0 (.inl rfl)
  unfold stageCalls
  cases fw.state with
  | ackad => exact List.forall_mem_cons.mpr ⟨trivial, List.forall_mem_singleton.mpr hsetup⟩
  | ackin => exact List.forall_mem_singleton.mpr hsetup
  | acksc => exact nofun
  | setup => exact nofun
  | _ => exact List.forall_mem_singleton.mpr hdata

private theorem epTransfer_calls (fw : PicUsbDevice) (ep : BitVec 8) (key : UInt8) :
    ∀ c ∈ epTransferCalls fw ep key, Tame c := by
  have hin : ∀ b : Bool, (if b then usbTrnData1In else usbTrnData0In) &&& 0x80 ≠ 0 := by decide
  have hout : ∀ b : Bool, (if b then usbTrnData1Out else usbTrnData0Out) &&& 0x80 = 0 := by decide
  unfold epTransferCalls
  split
  · exact List.forall_mem_cons.mpr
      ⟨rfl, List.forall_mem_singleton.mpr (tame_in 1 ep1BufIn (hin _) nofun)⟩
  · split
    · exact List.forall_mem_singleton.mpr (tame_out2 (hout _) _)
    · exact nofun

private theorem eventCalls_cases (fw : PicUsbDevice) (ep : BitVec 8) (key : UInt8) :
    EventCalls fw ep (eventCalls fw ep key) := by
  unfold eventCalls
  split
  · next hep =>
    unfold controlCalls controlSwitch
    split
    · exact .tame nofun
    · next e he =>
      split
      · next hsetup =>
        rcases setup_calls (.ofBytes (copyFromBuffer fw.lib ep0BufOut 8)) with ht | ⟨h6, hsend⟩
        · exact .tame ht
        · rw [hsend]
          exact .send hep he hsetup rfl h6
      · exact .tame (stage_calls fw)
  · exact .tame (epTransfer_calls fw ep key)

private theorem reset_calls : ∀ c ∈ resetCalls, Tame c :=
  List.forall_mem_cons.mpr ⟨trivial, List.forall_mem_cons.mpr ⟨trivial,
    List.forall_mem_singleton.mpr (tame_out0 (.inl rfl))⟩⟩

/-! ### The OUT entries -/

/-- The armed OUT entry of an endpoint has the endpoint's own buffer. -/
def OutEntries (d : UsbLib) : Prop :=
  ∀ i e, d.bdt[i]? = some e → e.out.owned = true →
    e.out.addr = if i = 0 then ep0BufOut else ep2BufOut

section Entries

variable {d d' : UsbLib} {c : FirmwareCall} {i : Nat} {e : EpBufDsc}

/-- An entry after a call: as it was, armed by it, or disarmed. -/
theorem call_entry (h : (d.call c).bdt[i]? = some e) :
    ∃ e₀, d.bdt[i]? = some e₀ ∧
      (e = e₀ ∨ (∃ t buf size, c = .transfStart i t buf size ∧ e = e₀.start t buf size) ∨
        e.out.stat = 0 ∧ e.inn.stat = 0) := by
  cases c with
  | transfStart num t buf size =>
    have hentry : (usbEpTransfStart d num t buf size).bdt[i]? = some e := h
    rw [usbEpTransfStart_entry] at hentry
    split at hentry
    · next hi =>
      obtain ⟨e₀, he₀, rfl⟩ := Option.map_eq_some_iff.mp hentry
      exact ⟨e₀, he₀, .inr (.inl ⟨t, buf, size, by rw [hi], rfl⟩)⟩
    · exact ⟨e, hentry, .inl rfl⟩
  | reset =>
    obtain ⟨e₀, he₀, rfl⟩ := Option.map_eq_some_iff.mp ((List.getElem?_map ..).symm.trans h)
    exact ⟨e₀, he₀, .inr (.inr ⟨rfl, rfl⟩)⟩
  | initEp num t =>
    obtain ⟨e₀, he₀, hif⟩ := Option.map_eq_some_iff.mp ((List.getElem?_modify ..).symm.trans h)
    refine ⟨e₀, he₀, ?_⟩
    split at hif
    · rw [← hif]
      exact .inr (.inr ⟨rfl, rfl⟩)
    · exact .inl hif.symm
  | _ => exact ⟨e, h, .inl rfl⟩

private theorem not_owned {b : BdfEntry} (hs : b.stat = 0) : b.owned = false := by
  rw [BdfEntry.owned, hs]
  rfl

/-- A tame library call leaves the OUT entries with their own buffers. -/
theorem OutEntries.call (h : OutEntries d) (hc : Tame c) : OutEntries (d.call c) := by
  intro i e he howned
  obtain ⟨e₀, he₀, rfl | ⟨t, buf, size, rfl, rfl⟩ | ⟨hzero, -⟩⟩ := call_entry he
  · exact h i e he₀ howned
  · unfold EpBufDsc.start at howned ⊢
    split at howned
    · next ht =>
      rw [if_pos ht]
      exact h i e₀ he₀ howned
    · next ht =>
      rw [if_neg ht]
      rcases hc.1 (not_not.mp ht) with ⟨rfl, rfl, -, -⟩ | ⟨rfl, rfl⟩ <;> rfl
  · rw [not_owned hzero] at howned
    cases howned

private theorem send_entry {descr : List UInt8} {wLength : BitVec 16}
    (he : ((sendDescriptorCalls descr wLength).foldl UsbLib.call d).bdt[i]? = some e) :
    ∃ e₀, d.bdt[i]? = some e₀ ∧ e.out = e₀.out := by
  have hstart := (usbEpTransfStart_entry _ 0 i usbTrnData1In ep0BufIn _).symm.trans he
  split at hstart
  · obtain ⟨e₀, he₀, rfl⟩ := Option.map_eq_some_iff.mp hstart
    exact ⟨e₀, he₀, by rw [EpBufDsc.start, if_pos (by decide)]⟩
  · exact ⟨e, hstart, rfl⟩

/-- Sending a descriptor leaves the OUT entries with their own buffers. -/
theorem OutEntries.send (h : OutEntries d) (descr : List UInt8) (wLength : BitVec 16) :
    OutEntries ((sendDescriptorCalls descr wLength).foldl UsbLib.call d) := by
  intro i e he howned
  obtain ⟨e₀, he₀, hout⟩ := send_entry he
  rw [hout] at howned ⊢
  exact h i e₀ he₀ howned

private theorem tame_calls {P : UsbLib → Prop} {cs : List FirmwareCall}
    (hP : ∀ d c, Tame c → P d → P (d.call c)) (hc : ∀ c ∈ cs, Tame c) (h : P d) :
    P (cs.foldl UsbLib.call d) := by
  induction cs generalizing d with
  | nil => exact h
  | cons c cs ih =>
    exact ih (fun c' hc' ↦ hc c' (List.mem_cons_of_mem _ hc')) (hP d c (hc c List.mem_cons_self) h)

/-- A transaction of the host leaves the OUT entries with their own buffers. -/
theorem OutEntries.transfer (h : OutEntries d) {ep : BitVec 8} {pid : UsbPid} {data : List UInt8}
    {size : Int} {r : Response} (ht : TransferStep d ep pid data size d' r) : OutEntries d' := by
  intro i e he howned
  obtain ⟨e₀, he₀, haddr, hback, -⟩ := ht.entry he
  rw [haddr]
  exact h i e₀ he₀ (hback howned)

/-- Transactions store in the OUT buffers only. -/
theorem OutEntries.buffer (h : OutEntries d) {ep : BitVec 8} {pid : UsbPid} {data : List UInt8}
    {size : Int} {r : Response} (ht : TransferStep d ep pid data size d' r) {bi : BufPtr}
    (h0 : bi ≠ ep0BufOut) (h2 : bi ≠ ep2BufOut) : d'.buffers[bi]? = d.buffers[bi]? := by
  apply ht.buffer
  intro i e he howned
  rw [h i e he howned]
  split
  · exact Ne.symm h0
  · exact Ne.symm h2

end Entries

/-! ### What is armed to be sent -/

/-- The IN entry of endpoint 0, where it is armed, offers an answer out of its own buffer, which
has room for every descriptor. -/
structure Offers (R : UsbDeviceReq → Prop) (d : UsbLib) : Prop where
  outs : OutEntries d
  room : ∃ buf, d.buffers[ep0BufIn]? = some buf ∧ 32 ≤ buf.data.length
  inn : ∀ e, d.bdt[0]? = some e → e.inn.owned = true →
    e.inn.addr = ep0BufIn ∧ Answers R (copyFromBuffer d ep0BufIn e.inn.cnt.toNat)

namespace Offers

variable {R R' : UsbDeviceReq → Prop} {d d' : UsbLib} {c : FirmwareCall} {cs : List FirmwareCall}

/-- What answers requests of one kind answers those of a wider kind. -/
theorem mono (h : Offers R d) (hR : ∀ req, R req → R' req) : Offers R' d := by
  refine ⟨h.outs, h.room, fun e he howned ↦ ?_⟩
  obtain ⟨haddr, hnone | ⟨req, hreq, hbytes⟩⟩ := h.inn e he howned
  · exact ⟨haddr, .inl hnone⟩
  · exact ⟨haddr, .inr ⟨req, hR req hreq, hbytes⟩⟩

private theorem same (h : Offers R d) (hbdt : d'.bdt = d.bdt) (hbufs : d'.buffers = d.buffers) :
    Offers R d' := by
  obtain ⟨houts, hroom, hinn⟩ := h
  unfold copyFromBuffer at hinn
  constructor
  · unfold OutEntries
    rwa [hbdt]
  · rwa [hbufs]
  · unfold copyFromBuffer
    rwa [hbdt, hbufs]

private theorem call_buffer (hc : Tame c) :
    (d.call c).buffers[ep0BufIn]? = d.buffers[ep0BufIn]? := by
  cases c with
  | copyToBuffer buf src size =>
    obtain rfl : buf = ep1BufIn := hc
    exact List.getElem?_modify_ne _ _ (by decide)
  | _ => rfl

private theorem call (h : Offers R d) (hc : Tame c) : Offers R (d.call c) := by
  have hbuf : ∀ n, copyFromBuffer (d.call c) ep0BufIn n = copyFromBuffer d ep0BufIn n := by
    intro n
    unfold copyFromBuffer
    rw [call_buffer hc]
  refine ⟨h.outs.call hc, by rw [call_buffer hc]; exact h.room, fun e he howned ↦ ?_⟩
  rw [hbuf]
  obtain ⟨e₀, he₀, rfl | ⟨t, buf, size, rfl, rfl⟩ | ⟨-, hzero⟩⟩ := call_entry he
  · exact h.inn e he₀ howned
  · unfold EpBufDsc.start at howned ⊢
    split at howned
    · next ht =>
      rw [if_pos ht]
      obtain ⟨rfl, rfl⟩ := hc.2 ht rfl
      refine ⟨rfl, .inl ?_⟩
      show copyFromBuffer d ep0BufIn 0 = []
      unfold copyFromBuffer
      split <;> rfl
    · next ht =>
      rw [if_neg ht]
      exact h.inn e₀ he₀ howned
  · rw [not_owned hzero] at howned
    cases howned

private theorem send (h : Offers R d) {req : UsbDeviceReq} (hreq : R req) (h6 : req.bRequest = 6) :
    Offers R ((sendDescriptorCalls req.descriptor req.wLength).foldl UsbLib.call d) := by
  obtain ⟨buf, hbuf, hroom⟩ := h.room
  have hlen := req.length_descriptor
  -- the buffer once the descriptor is in it
  have hafter : (copyToBuffer d ep0BufIn req.descriptor req.descriptor.length).buffers[ep0BufIn]? =
      some { buf with data := writeAt buf.data 0 req.descriptor } := by
    simp only [copyToBuffer, List.getElem?_modify_eq, hbuf, Option.map_eq_map, Option.map_some,
      List.take_length]
  have hin : usbTrnData1In &&& 0x80 ≠ 0 := by decide
  refine ⟨h.outs.send _ _, ⟨_, hafter, ?_⟩, fun e he howned ↦ ?_⟩
  · have hle := le_length_writeAt buf.data req.descriptor 0 (Nat.zero_le _)
    exact Nat.le_trans hroom hle
  · have hentry := (usbEpTransfStart_entry _ 0 0 usbTrnData1In ep0BufIn _).symm.trans he
    rw [if_pos rfl] at hentry
    obtain ⟨e₀, he₀, rfl⟩ := Option.map_eq_some_iff.mp hentry
    rw [EpBufDsc.start, if_pos hin]
    refine ⟨rfl, .inr ⟨req, hreq, ?_⟩⟩
    have hcnt : (BitVec.ofInt 8 ((min req.descriptor.length req.wLength.toNat : Nat) : Int)).toNat =
        min req.descriptor.length req.wLength.toNat := by
      rw [BitVec.ofInt_natCast, BitVec.toNat_ofNat]
      exact Nat.mod_eq_of_lt (by omega)
    show copyFromBuffer (copyToBuffer d ep0BufIn req.descriptor req.descriptor.length) ep0BufIn
      (BitVec.ofInt 8 ((min req.descriptor.length req.wLength.toNat : Nat) : Int)).toNat = _
    rw [hcnt, UsbDeviceReq.answer, if_pos h6, copyFromBuffer, hafter]
    simp only [writeAt, Int.toNat_zero, List.take_zero, List.nil_append]
    rw [List.take_append_of_le_length (Nat.min_le_left _ _), List.take_eq_take_iff]
    omega

private theorem transfer (h : Offers R d) {ep : BitVec 8} {pid : UsbPid} {data : List UInt8}
    {size : Int} {r : Response} (ht : TransferStep d ep pid data size d' r) : Offers R d' := by
  have hbuf : d'.buffers[ep0BufIn]? = d.buffers[ep0BufIn]? :=
    h.outs.buffer ht (by decide) (by decide)
  refine ⟨h.outs.transfer ht, by rw [hbuf]; exact h.room, fun e he howned ↦ ?_⟩
  obtain ⟨e₀, he₀, -, -, hback⟩ := ht.entry he
  have hsame := hback howned
  rw [hsame] at howned ⊢
  have hold := h.inn e₀ he₀ howned
  unfold copyFromBuffer at hold ⊢
  rwa [hbuf]

private theorem sent (h : Offers R d) {ep : BitVec 8} {pid : UsbPid} {data bytes : List UInt8}
    {size n : Int} (ht : TransferStep d ep pid data size d' (.ack n bytes))
    (hep : ep &&& 0x8F = 0x80) :
    ∃ answer, Answers R answer ∧ bytes = answer.take size.toNat := by
  have hbits : ep &&& 0x80 ≠ 0 ∧ epNumber ep = 0 := by
    have hall : ∀ ep : BitVec 8,
        ep &&& 0x8F = 0x80 → ep &&& 0x80 ≠ 0 ∧ (ep &&& 0x0F).toNat = 0 := by decide
    exact hall ep hep
  cases ht with
  | quiet _ _ _ hnone =>
    obtain rfl : bytes = [] := hnone
    exact ⟨[], .inl rfl, List.take_nil.symm⟩
  | out _ hout => exact (hbits.1 hout).elim
  | @inn e buf _ _ _ he howned hbuf hle _ _ _ =>
    rw [hbits.2] at he
    obtain ⟨haddr, hanswer⟩ := h.inn e he howned
    refine ⟨_, hanswer, ?_⟩
    rw [← haddr, copyFromBuffer, hbuf, List.take_take]
    congr 1
    omega

end Offers

/-! ### Runs -/

section Runs

variable {es : List MainEvent} {s s' : Running} {e : MainEvent}

/-- Counting an acknowledgement leaves the firmware. -/
@[simp] theorem Running.count_fw (s : Running) (ep : BitVec 8) (counted : Bool) :
    (s.count ep counted).fw = s.fw := by
  unfold count
  split <;> rfl

private theorem offers_init : Offers (Processed []) runningInit.fw.lib := by
  have hzero : ∀ (i : Nat) (e : EpBufDsc), runningInit.fw.lib.bdt[i]? = some e →
      e = ⟨.zero, .zero⟩ := by
    intro i e he
    exact (List.mem_replicate.mp (List.mem_of_getElem? he)).2
  constructor
  case outs =>
    intro i e he howned
    rw [hzero i e he] at howned
    cases howned
  case room => exact ⟨_, rfl, by decide⟩
  case inn =>
    intro e he howned
    rw [hzero 0 e he] at howned
    cases howned

private theorem Offers.process {R : UsbDeviceReq → Prop} {ep : BitVec 8} {n : Nat}
    (h : Offers R s.fw.lib) (hpc : s.pc = .process ep n) (hR : ∀ req, s.Takes req → R req)
    (key : UInt8) : Offers R (processEvent s.fw ep key).lib := by
  rw [processEvent_lib]
  have hcalls := eventCalls_cases s.fw ep key
  generalize eventCalls s.fw ep key = calls at hcalls ⊢
  cases hcalls with
  | tame ht => exact tame_calls (fun _ _ hc hd ↦ hd.call hc) ht h
  | send hep he hsetup hreq h6 => exact h.send (hR _ ⟨ep, n, _, hpc, hep, he, hsetup, hreq⟩) h6

/-- What endpoint 0 is armed to send in any state of a run is an answer to a request processed
before. -/
theorem MainRun.offers (h : MainRun es s) : Offers (Processed es) s.fw.lib := by
  refine Run.invariant (P := fun es s ↦ Offers (Processed es) s.fw.lib) offers_init ?_ h
  rintro es s ⟨op, o⟩ s' hrun ih hfire
  have hold : Offers (Processed (es ++ [(op, o)])) s.fw.lib :=
    ih.mono fun req hreq ↦ hreq.snoc (op, o)
  have hlast : ∀ req, s.Takes req → Processed (es ++ [(op, o)]) req :=
    fun req ht ↦ .last hrun ht (op, o)
  cases mainStep_of_exec hfire with
  | busReset ht => exact hold.transfer (transferStep_of_transfer ht)
  | transfer _ ht =>
    rw [Running.count_fw]
    exact hold.transfer (transferStep_of_transfer ht)
  | reset =>
    have hflag : Offers (Processed (es ++ [(.top, .reset true)]))
        { s.fw.lib with reset := false } := hold.same rfl rfl
    exact tame_calls (fun _ _ hc hd ↦ hd.call hc) reset_calls hflag
  | pass => exact hold.same rfl rfl
  | idle _ hlib => exact hold.same (by rw [hlib]; rfl) (by rw [hlib]; rfl)
  | event => exact hold.same rfl rfl
  | addressed hpc => exact hold.process hpc hlast _
  | requested hpc => exact hold.process hpc hlast _
  | processed hpc => exact hold.process hpc hlast _

/-- The buffers of a run have the room they were declared with. -/
theorem MainRun.sized (h : MainRun es s) : s.fw.lib.Sized := by
  refine Run.invariant (P := fun _ s ↦ s.fw.lib.Sized) ?_ ?_ h
  · intro b hb
    rw [List.eq_of_mem_replicate hb]
    exact Int.le_refl _
  · rintro es s ⟨op, o⟩ s' - ih hfire
    have hcalls : ∀ (d : UsbLib) (cs : List FirmwareCall), d.Sized →
        (cs.foldl UsbLib.call d).Sized := by
      intro d cs hd
      induction cs generalizing d with
      | nil => exact hd
      | cons c cs ihc =>
        have hdeclared : Declared d.buffers d := ⟨rfl, hd⟩
        exact ihc _ (hdeclared.call c).room
    have hprocess : ∀ ep key, (processEvent s.fw ep key).lib.Sized := by
      intro ep key
      rw [processEvent_lib]
      exact hcalls _ _ ih
    cases mainStep_of_exec hfire with
    | busReset ht => exact (transferStep_of_transfer ht).sized ih
    | transfer _ ht =>
      rw [Running.count_fw]
      exact (transferStep_of_transfer ht).sized ih
    | reset => exact hcalls _ resetCalls ih
    | pass => exact ih
    | idle _ hlib =>
      subst hlib
      exact ih
    | event => exact ih
    | addressed => exact hprocess _ _
    | requested => exact hprocess _ _
    | processed => exact hprocess _ _

/-- The data of an IN transaction on endpoint 0 answers a request processed before it. -/
theorem MainRun.control_sent {addr : Int} {ep : BitVec 8} {pid : UsbPid} {data bytes : List UInt8}
    {size n : Int} {after : List MainEvent}
    (h : MainRun (es ++ (.transfer addr ep pid data size, .response (.ack n bytes)) :: after) s)
    (hep : ep &&& 0x8F = 0x80) :
    bytes = [] ∨ ∃ req, Processed es req ∧ req.bRequest = 6 ∧
      bytes = (req.descriptor.take req.wLength.toNat).take size.toNat := by
  obtain ⟨s₁, s₂, hrun, hfire, -⟩ := h.fired
  have hoffers := MainRun.offers hrun
  cases mainStep_of_exec hfire with
  | transfer _ ht =>
    obtain ⟨answer, rfl | ⟨req, hreq, rfl⟩, rfl⟩ :=
      hoffers.sent (transferStep_of_transfer ht) hep
    · exact .inl List.take_nil
    · by_cases h6 : req.bRequest = 6
      · exact .inr ⟨req, hreq, h6, by rw [UsbDeviceReq.answer, if_pos h6]⟩
      · left
        rw [UsbDeviceReq.answer, if_neg h6]
        exact List.take_nil

/-- Endpoint 0 gives nothing away but its descriptors: in every run, whatever the host sends and
however far behind the firmware is, the data of an IN transaction on endpoint 0 is the beginning
of the device descriptor, of the configuration or of the debug descriptor. -/
theorem MainRun.control_data {addr : Int} {ep : BitVec 8} {pid : UsbPid} {data bytes : List UInt8}
    {size n : Int} {after : List MainEvent}
    (h : MainRun (es ++ (.transfer addr ep pid data size, .response (.ack n bytes)) :: after) s)
    (hep : ep &&& 0x8F = 0x80) :
    ∃ descr ∈ [devdsc, config, debug], bytes <+: descr := by
  rcases h.control_sent hep with rfl | ⟨req, -, -, rfl⟩
  · exact ⟨devdsc, by simp, List.nil_prefix⟩
  · have hpre := ((List.take_prefix size.toNat _).trans
      (List.take_prefix req.wLength.toNat req.descriptor))
    rcases req.descriptor_cases with hnone | hmem
    · rw [hnone, List.take_nil, List.take_nil]
      exact ⟨devdsc, by simp, List.nil_prefix⟩
    · exact ⟨_, hmem, hpre⟩

end Runs

/-! ### The requests are the host's -/

/-- A SETUP packet that endpoint 0 acknowledged. -/
def MainEvent.setup : MainEvent → Option (List UInt8)
  | (.transfer _ ep pid data _, .response r) =>
    if pid = .setup ∧ r.isAck = true ∧ ep &&& 0x8F = 0 then some data else none
  | _ => none

/-- The SETUP packets of a history. -/
def setups (es : List MainEvent) : List (List UInt8) := es.filterMap MainEvent.setup

/-- An acknowledged SETUP packet has eight bytes, and all of them were taken. -/
def MainEvent.Whole : MainEvent → Prop
  | (.transfer _ ep pid data _, .response (.ack n _)) =>
    pid = .setup ∧ ep &&& 0x8F = 0 → data.length = 8 ∧ n = 8
  | _ => True

instance (e : MainEvent) : Decidable (MainEvent.Whole e) := by
  unfold MainEvent.Whole
  split <;> infer_instance

private theorem setups_snoc (es : List MainEvent) (e : MainEvent) :
    setups (es ++ [e]) = setups es ++ (MainEvent.setup e).toList := by
  unfold setups
  rw [List.filterMap_append]
  cases h : MainEvent.setup e <;> simp [h]

/-- Where the OUT entry of endpoint 0 shows a SETUP packet, the buffer holds the last one. -/
structure Asked (ps : List (List UInt8)) (d : UsbLib) : Prop where
  outs : OutEntries d
  setup : ∀ e, d.bdt[0]? = some e → isSetup 0 e = true →
    ps.getLast? = some (copyFromBuffer d ep0BufOut 8)

namespace Asked

variable {ps : List (List UInt8)} {d d' : UsbLib} {c : FirmwareCall} {cs : List FirmwareCall}

private theorem same (h : Asked ps d) (hbdt : d'.bdt = d.bdt) (hbufs : d'.buffers = d.buffers) :
    Asked ps d' := by
  obtain ⟨houts, hsetup⟩ := h
  unfold copyFromBuffer at hsetup
  constructor
  · unfold OutEntries
    rwa [hbdt]
  · unfold copyFromBuffer
    rwa [hbdt, hbufs]

private theorem armed_not_setup {t : BitVec 8} (ht : t = usbTrnSetup ∨ t = usbTrnData1Out)
    (inn : BdfEntry) : isSetup 0 ⟨.start t ep0BufOut ep0OutBufSize, inn⟩ = false := by
  have hbits : ∀ t : BitVec 8, t = usbTrnSetup ∨ t = usbTrnData1Out →
      ((BdfEntry.start t ep0BufOut ep0OutBufSize).stat >>> 2 &&& 0x0F == 0x0D) = false := by
    rintro t (rfl | rfl) <;> decide
  unfold isSetup
  rw [if_neg (by decide)]
  exact hbits t ht

private theorem call_setup (hc : Tame c) {e : EpBufDsc} (he : (d.call c).bdt[0]? = some e)
    (hsetup : isSetup 0 e = true) : ∃ e₀, d.bdt[0]? = some e₀ ∧ isSetup 0 e₀ = true := by
  obtain ⟨e₀, he₀, rfl | ⟨t, buf, size, rfl, rfl⟩ | ⟨hzero, -⟩⟩ := call_entry he
  · exact ⟨e, he₀, hsetup⟩
  · refine ⟨e₀, he₀, ?_⟩
    unfold EpBufDsc.start at hsetup
    split at hsetup
    · exact hsetup
    · next ht =>
      rcases hc.1 (not_not.mp ht) with ⟨-, rfl, rfl, hkind⟩ | ⟨hn, -⟩
      · rw [armed_not_setup hkind] at hsetup
        cases hsetup
      · cases hn
  · unfold isSetup at hsetup
    rw [hzero] at hsetup
    cases hsetup

private theorem call (h : Asked ps d) (hc : Tame c) : Asked ps (d.call c) := by
  refine ⟨h.outs.call hc, fun e he hsetup ↦ ?_⟩
  obtain ⟨e₀, he₀, hsetup₀⟩ := call_setup hc he hsetup
  have hbuf : (d.call c).buffers[ep0BufOut]? = d.buffers[ep0BufOut]? := by
    cases c with
    | copyToBuffer buf src size =>
      obtain rfl : buf = ep1BufIn := hc
      exact List.getElem?_modify_ne _ _ (by decide)
    | _ => rfl
  have hold := h.setup e₀ he₀ hsetup₀
  unfold copyFromBuffer at hold ⊢
  rwa [hbuf]

private theorem send (h : Asked ps d) (req : UsbDeviceReq) :
    Asked ps ((sendDescriptorCalls req.descriptor req.wLength).foldl UsbLib.call d) := by
  have hcopy : Asked ps (copyToBuffer d ep0BufIn req.descriptor req.descriptor.length) := by
    refine ⟨h.outs, fun e he hsetup ↦ ?_⟩
    have hold := h.setup e he hsetup
    have hbuf : (copyToBuffer d ep0BufIn req.descriptor req.descriptor.length).buffers[ep0BufOut]? =
        d.buffers[ep0BufOut]? := List.getElem?_modify_ne _ _ (by decide)
    unfold copyFromBuffer at hold ⊢
    rwa [hbuf]
  refine ⟨h.outs.send _ _, fun e he hsetup ↦ ?_⟩
  obtain ⟨e₀, he₀, hout⟩ := send_entry he
  refine hcopy.setup e₀ he₀ ?_
  unfold isSetup at hsetup ⊢
  rwa [← hout]

private theorem transfer (h : Asked ps d) {addr : Int} {ep : BitVec 8} {pid : UsbPid}
    {data : List UInt8} {size : Int} {r : Response} (ht : TransferStep d ep pid data size d' r)
    (hwhole : MainEvent.Whole (.transfer addr ep pid data size, .response r)) :
    Asked (ps ++ (MainEvent.setup (.transfer addr ep pid data size, .response r)).toList) d' := by
  have houts := h.outs.transfer ht
  have hnum : ep &&& 0x8F = 0 ↔ ep &&& 0x80 = 0 ∧ epNumber ep = 0 := by
    have hall : ∀ ep : BitVec 8, ep &&& 0x8F = 0 ↔ ep &&& 0x80 = 0 ∧ (ep &&& 0x0F).toNat = 0 := by
      decide
    exact hall ep
  -- nothing of endpoint 0 is touched, and no SETUP packet taken
  have hframe : (∀ e, d'.bdt[0]? = some e → ∃ e₀, d.bdt[0]? = some e₀ ∧ e.out = e₀.out) →
      d'.buffers[ep0BufOut]? = d.buffers[ep0BufOut]? →
      MainEvent.setup (.transfer addr ep pid data size, .response r) = none →
      Asked (ps ++ (MainEvent.setup (.transfer addr ep pid data size, .response r)).toList) d' := by
    intro hentry hbuf hnone
    rw [hnone, Option.toList_none, List.append_nil]
    refine ⟨houts, fun e he hsetup ↦ ?_⟩
    obtain ⟨e₀, he₀, hout⟩ := hentry e he
    have hold := h.setup e₀ he₀ (by
      unfold isSetup at hsetup ⊢
      rwa [← hout])
    unfold copyFromBuffer at hold ⊢
    rwa [hbuf]
  cases ht with
  | quiet hb hbufs hq =>
    refine hframe (fun e he ↦ ⟨e, by rwa [← hb], rfl⟩) (by rw [hbufs]) (if_neg ?_)
    rintro ⟨rfl, hack, -⟩
    rw [hack] at hq
    cases hq
  | @out e buf sz hpid hout he howned hbuf hle hsz hb hbufs =>
    obtain ⟨hlt, -⟩ := List.getElem?_eq_some_iff.mp he
    by_cases h0 : epNumber ep = 0
    · have hep := hnum.mpr ⟨hout, h0⟩
      have hshown : ∀ e', d'.bdt[0]? = some e' → e'.out.stat = (e.out.received pid sz).stat := by
        intro e' he'
        rw [hb, h0] at he'
        rw [h0] at hlt
        rw [List.getElem?_set_self hlt] at he'
        cases he'
        rfl
      by_cases hs : pid = .setup
      · -- the packet is the last one, and all of it is in the buffer
        have hsetup : MainEvent.setup (.transfer addr ep pid data size, .response (.ack sz [])) =
            some data := if_pos ⟨hs, rfl, hep⟩
        obtain ⟨hlen, height⟩ := hwhole ⟨hs, hep⟩
        rw [hsetup]
        refine ⟨houts, fun e' _ _ ↦ ?_⟩
        have haddr := h.outs _ e he howned
        rw [h0, if_pos rfl] at haddr
        obtain ⟨hin, -⟩ := List.getElem?_eq_some_iff.mp hbuf
        rw [haddr] at hbufs hin
        have htake : data.take sz.toNat = data := by
          rw [height]
          exact List.take_of_length_le (Nat.le_of_eq hlen)
        rw [Option.toList_some, List.getLast?_append, List.getLast?_singleton, Option.some_or,
          copyFromBuffer, hbufs, List.getElem?_set_self hin, htake]
        show some data = some ((writeAt buf.data 0 data).take 8)
        rw [writeAt, Int.toNat_zero, List.take_zero, List.nil_append,
          List.take_append_of_le_length (Nat.le_of_eq hlen.symm), List.take_of_length_le
          (Nat.le_of_eq hlen)]
      · have hnone : MainEvent.setup (.transfer addr ep pid data size, .response (.ack sz [])) =
            none := if_neg fun hx ↦ hs hx.1
        rw [hnone, Option.toList_none, List.append_nil]
        refine ⟨houts, fun e' he' hsetup ↦ ?_⟩
        have hbits : ∀ p : UsbPid, UsbPid.isData p = true → p ≠ .setup → ∀ s : BitVec 8,
            ((((s &&& 0xC3) ||| (p.code <<< 2)) >>> 2) &&& 0x0F == 0x0D) = false := by
          intro p hp hne
          cases p with
          | setup => exact (hne rfl).elim
          | reset => cases hp
          | sof => cases hp
          | _ => decide
        unfold isSetup at hsetup
        rw [if_neg (by decide), hshown e' he', BdfEntry.received, hbits pid hpid hs] at hsetup
        cases hsetup
    · refine hframe (fun e' he' ↦ ?_) ?_ (if_neg fun hx ↦ h0 (hnum.mp hx.2.2).2)
      · rw [hb, List.getElem?_set_ne h0] at he'
        exact ⟨e', he', rfl⟩
      · rw [hbufs, List.getElem?_set_ne]
        rw [h.outs _ e he howned, if_neg h0]
        decide
  | @inn e buf sz hpid hin he howned hbuf hle hsz hb hbufs =>
    refine hframe (fun e' he' ↦ ?_) (by rw [hbufs]) (if_neg fun hx ↦ hin (hnum.mp hx.2.2).1)
    rw [hb, List.getElem?_set] at he'
    split at he'
    · next h0 =>
      split at he'
      · cases he'
        exact ⟨e, h0 ▸ he, rfl⟩
      · cases he'
    · exact ⟨e', he', rfl⟩

end Asked

section Requests

variable {es : List MainEvent} {s : Running} {req : UsbDeviceReq}

/-- In a run whose SETUP packets are taken whole, the buffer of endpoint 0 holds the last of them
where its entry shows one. -/
theorem MainRun.asked (h : MainRun es s) (hwhole : ∀ e ∈ es, MainEvent.Whole e) :
    Asked (setups es) s.fw.lib := by
  refine Run.invariant (P := fun es s ↦ (∀ e ∈ es, MainEvent.Whole e) →
    Asked (setups es) s.fw.lib) ?_ ?_ h hwhole
  · intro _
    refine ⟨offers_init.outs, fun e he hsetup ↦ ?_⟩
    obtain rfl : e = ⟨.zero, .zero⟩ := (List.mem_replicate.mp (List.mem_of_getElem? he)).2
    exact absurd hsetup (by decide)
  · rintro es s ⟨op, o⟩ s' - ih hfire hwhole
    have hold := ih fun e he ↦ hwhole e (List.mem_append_left _ he)
    have hquiet : MainEvent.setup (op, o) = none → ∀ d', Asked (setups es) d' →
        Asked (setups (es ++ [(op, o)])) d' := by
      intro hnone d' hd
      rwa [setups_snoc, hnone, Option.toList_none, List.append_nil]
    have hprocess : ∀ ep key, Asked (setups es) (processEvent s.fw ep key).lib := by
      intro ep key
      rw [processEvent_lib]
      have hcalls := eventCalls_cases s.fw ep key
      generalize eventCalls s.fw ep key = calls at hcalls ⊢
      cases hcalls with
      | tame ht => exact tame_calls (fun _ _ hc hd ↦ hd.call hc) ht hold
      | send => exact hold.send _
    cases mainStep_of_exec hfire with
    | @busReset lib r ht =>
      have hstep := transferStep_of_transfer ht
      have hnone : MainEvent.setup (.transfer 0 0 .reset [] 0, .response r) = none := by
        simp [MainEvent.setup]
      have hwhole : MainEvent.Whole (.transfer 0 0 .reset [] 0, .response r) := by
        unfold MainEvent.Whole
        split
        · next hx =>
          cases hx
          rintro ⟨hpid, -⟩
          cases hpid
        · trivial
      have hafter := hold.transfer hstep hwhole
      rw [hnone, Option.toList_none, List.append_nil] at hafter
      exact hquiet rfl _ hafter
    | transfer _ ht =>
      rw [setups_snoc, Running.count_fw]
      exact hold.transfer (transferStep_of_transfer ht) (hwhole _ (by simp))
    | reset =>
      have hflag : Asked (setups es) { s.fw.lib with reset := false } := hold.same rfl rfl
      exact hquiet rfl _ (tame_calls (fun _ _ hc hd ↦ hd.call hc) reset_calls hflag)
    | pass => exact hquiet rfl _ (hold.same rfl rfl)
    | idle _ hlib => exact hquiet rfl _ (hold.same (by rw [hlib]; rfl) (by rw [hlib]; rfl))
    | event => exact hquiet rfl _ (hold.same rfl rfl)
    | addressed => exact hquiet rfl _ (hprocess _ _)
    | requested => exact hquiet rfl _ (hprocess _ _)
    | processed => exact hquiet rfl _ (hprocess _ _)

/-- What the firmware takes for a request is the last SETUP packet acknowledged. -/
theorem MainRun.takes (h : MainRun es s) (hwhole : ∀ e ∈ es, MainEvent.Whole e)
    (ht : s.Takes req) : ∃ data, (setups es).getLast? = some data ∧ req = .ofBytes data := by
  obtain ⟨ep, n, e, -, -, he, hsetup, rfl⟩ := ht
  have hzero : isSetup 0 e = true := by
    unfold isSetup at hsetup ⊢
    split at hsetup
    · cases hsetup
    · rwa [if_neg (by decide)]
  exact ⟨_, (h.asked hwhole).setup e he hzero, rfl⟩

/-- A request that was processed came in a SETUP packet. -/
theorem MainRun.processed_sent (h : MainRun es s) (hwhole : ∀ e ∈ es, MainEvent.Whole e)
    (hp : Processed es req) : ∃ data ∈ setups es, req = .ofBytes data := by
  obtain ⟨past, e, after, s₁, rfl, hrun, ht⟩ := hp
  obtain ⟨data, hlast, rfl⟩ :=
    hrun.takes (fun e' he' ↦ hwhole e' (List.mem_append_left _ he')) ht
  refine ⟨data, ?_, rfl⟩
  unfold setups
  rw [List.filterMap_append]
  exact List.mem_append_left _ (List.mem_of_getLast? hlast)

/-- The answers answer the host: if every SETUP packet is taken whole, the data of an IN
transaction on endpoint 0 is none, or the beginning of what a SETUP packet acknowledged before
asked for. -/
theorem MainRun.control_answers {addr : Int} {ep : BitVec 8} {pid : UsbPid}
    {data bytes : List UInt8} {size n : Int} {after : List MainEvent}
    (h : MainRun (es ++ (.transfer addr ep pid data size, .response (.ack n bytes)) :: after) s)
    (hwhole : ∀ e ∈ es, MainEvent.Whole e) (hep : ep &&& 0x8F = 0x80) :
    bytes = [] ∨ ∃ packet ∈ setups es, (UsbDeviceReq.ofBytes packet).bRequest = 6 ∧
      bytes = ((UsbDeviceReq.ofBytes packet).descriptor.take
        (UsbDeviceReq.ofBytes packet).wLength.toNat).take size.toNat := by
  obtain ⟨s₁, -, hrun, -, -⟩ := h.fired
  rcases h.control_sent hep with hnone | ⟨req, hreq, h6, hbytes⟩
  · exact .inl hnone
  · obtain ⟨packet, hmem, rfl⟩ := MainRun.processed_sent hrun hwhole hreq
    exact .inr ⟨packet, hmem, h6, hbytes⟩

end Requests

private def readTen : List MainEvent :=
  [(.busReset, .response (.ack 0 [])), (.top, .reset true), (.poll, .polled none),
    (.transfer 0 0 .setup [0x80, 6, 0, 1, 0, 0, 18, 0] 8, .response (.ack 8 [])),
    (.top, .reset false), (.poll, .polled (some (0, 0))), (.process 0, .quiet)]

private def tenBytes : MainEvent :=
  (.transfer 0 0x80 .data1 [] 10, .response (.ack 10 (devdsc.take 10)))

private theorem readTen_runs : ∃ s, MainRun (readTen ++ [tenBytes]) s := by
  have hcheck : runsTo mainExec runningInit ((readTen ++ [tenBytes]).map Prod.fst)
      (fun _ es ↦ decide (es = readTen ++ [tenBytes])) = true := by decide +kernel
  obtain ⟨es, s, hrun, hp⟩ := Run.of_runsTo hcheck
  obtain rfl := of_decide_eq_true hp
  exact ⟨s, hrun⟩

/-- The first ten bytes of the device descriptor are read. -/
theorem MainRun.control_data_ten : (∃ s, MainRun (readTen ++ [tenBytes]) s) ∧
    ∃ descr ∈ [devdsc, config, debug], devdsc.take 10 <+: descr := by
  obtain ⟨s, hrun⟩ := readTen_runs
  exact ⟨⟨s, hrun⟩, MainRun.control_data hrun (by decide)⟩

/-- The first ten bytes of the device descriptor answer a GET_DESCRIPTOR. -/
theorem MainRun.control_answers_ten : (∃ s, MainRun (readTen ++ [tenBytes]) s) ∧
    (devdsc.take 10 = [] ∨ ∃ packet ∈ setups readTen, (UsbDeviceReq.ofBytes packet).bRequest = 6 ∧
      devdsc.take 10 = ((UsbDeviceReq.ofBytes packet).descriptor.take
        (UsbDeviceReq.ofBytes packet).wLength.toNat).take (10 : Int).toNat) := by
  obtain ⟨s, hrun⟩ := readTen_runs
  exact ⟨⟨s, hrun⟩, MainRun.control_answers hrun (by decide) (by decide)⟩

end BiMpp.Firmware
