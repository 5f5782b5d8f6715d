import BiMpp.Base.Text
import BiMpp.Firmware.Calls
import Mathlib.Data.List.GetD

/-!
# What the firmware prints

Endpoint 2 receives packets into one buffer, and `main` prints the whole buffer as a string:
`pic_usb_device.X/main.c:264–288,344–369,417–422`, over the OUT branch of the library,
`bi-mpp-pic24-usb-simulator-master/src/usb_lib_usbip.c:258–278`. The firmware handles every
transaction before the next one comes.
-/

namespace BiMpp.Firmware
open BiMpp.Usb BiMpp.Base BiMpp.Device

/-! ### The device with its log -/

/-- `"Received: "`. -/
def received : List UInt8 := ascii ['R', 'e', 'c', 'e', 'i', 'v', 'e', 'd', ':', ' ']

/-- The text that `PRINTF` is given for `buf_to_receive`, unless the array has no terminator;
`main.c:354,418–420`. -/
def receivedText (d : UsbLib) : Option (List UInt8) :=
  (cText (copyFromBuffer d ep2BufOut ep2OutBufSize)).map (received ++ ·)

/-- The bus resets and the transactions, the last with the key pressed while their event is
handled. -/
inductive EchoOp
  | busReset
  | out (addr : Int) (e : Fin 16) (pid : UsbPid) (data : List UInt8) (key : UInt8)
  | inn (addr : Int) (e : Fin 16) (pid : UsbPid) (size : Int) (key : UInt8)
  deriving DecidableEq, Repr

/-- What the host sees, whether a SET_CONFIGURATION was processed, and what was printed for
endpoint 2. -/
structure EchoOut where
  response : Response
  configured : Bool
  printed : Option (Option (List UInt8))
  deriving DecidableEq, Repr

/-- A step with what it showed. -/
abbrev EchoEvent := EchoOp × EchoOut

/-- The handling of the event of a transaction; `main.c:402–426`. -/
def handleEvent (fw : PicUsbDevice) (r : Response) (key : UInt8) : PicUsbDevice × EchoOut :=
  let (ep, lib) := getTrnStatus fw.lib
  let fw := { fw with lib := lib }
  (processEvent fw ep key, ⟨r, takesSetConfiguration fw ep,
    if ep = endpointOut then some (receivedText lib) else none⟩)

/-- A transaction and, if it was acknowledged, the handling of its event. -/
def transact (fw : PicUsbDevice) (addr : Int) (ep : BitVec 8) (pid : UsbPid) (data : List UInt8)
    (size : Int) (key : UInt8) : Except Stop (PicUsbDevice × EchoOut) :=
  match usbTransfer fw.lib addr ep pid data size with
  | .error f => .error (.fault f)
  | .ok (lib, r) =>
    if r.isAck then .ok (handleEvent { fw with lib := lib } r key)
    else .ok ({ fw with lib := lib }, ⟨r, false, none⟩)

/-- One step. -/
def echoExec (fw : PicUsbDevice) : EchoOp → Except Stop (PicUsbDevice × EchoOut)
  | .busReset =>
    match usbTransfer fw.lib 0 0 .reset [] 0 with
    | .error f => .error (.fault f)
    | .ok (lib, r) =>
      match isReset lib with
      | (true, lib) => .ok (mainReset { fw with lib := lib }, ⟨r, false, none⟩)
      | (false, lib) => .ok ({ fw with lib := lib }, ⟨r, false, none⟩)
  | .out addr e pid data key =>
    if UsbPid.isData pid then transact fw addr (outEp e) pid data data.length key
    else .error .blocked
  | .inn addr e pid size key =>
    if pid = .data0 ∨ pid = .data1 then transact fw addr (inEp e) pid [] size key
    else .error .blocked

/-- Finite runs from program start. -/
abbrev EchoRun : List EchoEvent → PicUsbDevice → Prop := Run (Fires echoExec) picUsbDeviceInit

/-! ### Packets -/

/-- The packet that was delivered to endpoint 2. -/
def EchoEvent.packet : EchoEvent → Option (List UInt8)
  | (.out _ e _ data _, o) => if e = 2 ∧ o.response.isAck = true then some data else none
  | _ => none

/-- A packet of 1 to 64 bytes, none of them zero. -/
def Printable (data : List UInt8) : Prop := 1 ≤ data.length ∧ data.length ≤ 64 ∧ 0 ∉ data

instance (data : List UInt8) : Decidable (Printable data) := by
  unfold Printable
  infer_instance

/-- Every packet of a history is printable. -/
def AllPrintable (es : List EchoEvent) : Prop :=
  ∀ e ∈ es, ∀ data ∈ EchoEvent.packet e, Printable data

instance (es : List EchoEvent) : Decidable (AllPrintable es) := by
  unfold AllPrintable
  infer_instance

/-- Nothing of the packet was dropped, and it is what was printed. -/
def Echoed (o : EchoOut) (data : List UInt8) : Prop :=
  o.response = .ack data.length [] ∧ o.printed = some (some (received ++ data))

/-- What endpoint 2 has seen: whether a packet was handled since the last SET_CONFIGURATION,
and the packets that were not the first after theirs. -/
structure Received where
  handled : Bool
  later : List (List UInt8)
  deriving DecidableEq, Repr

/-- The history after a step. -/
def Received.after (h : Received) (e : EchoEvent) : Received :=
  if e.2.configured then { h with handled := false }
  else
    match EchoEvent.packet e with
    | some data => ⟨true, if h.handled then h.later ++ [data] else h.later⟩
    | none => h

/-- The history of a run. -/
def history (es : List EchoEvent) : Received := es.foldl Received.after ⟨false, []⟩

/-- The history after one more event. -/
theorem history_snoc (es : List EchoEvent) (e : EchoEvent) :
    history (es ++ [e]) = (history es).after e := by
  rw [history, List.foldl_append]
  rfl

/-! ### What the endpoints are armed with -/

/-- A call that gives the OUT entries of endpoints 0 and 2 their own buffers only, leaves that
of endpoint 1 alone and writes to other buffers than that of endpoint 2. -/
def Proper : FirmwareCall → Prop
  | .transfStart num t buf _ => t &&& 0x80 = 0 →
      num = 0 ∧ buf = ep0BufOut ∨ num = 2 ∧ buf = ep2BufOut
  | .copyToBuffer buf _ _ => buf ≠ ep2BufOut
  | _ => True

/-- The size that endpoint 2 is armed with after a call. -/
def armedSize (n : Nat) : FirmwareCall → Nat
  | .transfStart num t _ size =>
    if num = 2 ∧ t &&& 0x80 = 0 then (BitVec.ofInt 8 size).toNat else n
  | _ => n

/-- The OUT entries: those of endpoints 0 and 2 are armed with their own buffers, that of
endpoint 2 with `n` bytes, and that of endpoint 1 never is. -/
structure Armed (d : UsbLib) (n : Nat) : Prop where
  ep0 : ∀ b, d.bdt[0]? = some b → b.out.owned = true → b.out.addr = ep0BufOut
  ep1 : ∀ b, d.bdt[1]? = some b → b.out.owned = false
  ep2 : ∀ b, d.bdt[2]? = some b → b.out.owned = true →
    b.out.addr = ep2BufOut ∧ b.out.cnt.toNat = n

section Calls

variable {d d' : UsbLib} {n : Nat} {c : FirmwareCall} {cs : List FirmwareCall}

private theorem Armed.of_bdt (h : Armed d n) (hb : d'.bdt = d.bdt) : Armed d' n := by
  constructor
  · rw [hb]
    exact h.ep0
  · rw [hb]
    exact h.ep1
  · rw [hb]
    exact h.ep2

private theorem not_owned_of_stat (b : BdfEntry) (hs : b.stat = 0) : b.owned = false := by
  rw [BdfEntry.owned, hs]
  rfl

private theorem Armed.transfStart (h : Armed d n) {num : Nat} {t : BitVec 8} {buf : BufPtr}
    {size : Int} (hc : Proper (.transfStart num t buf size)) :
    Armed (usbEpTransfStart d num t buf size) (armedSize n (.transfStart num t buf size)) := by
  -- what became of the OUT entry of endpoint `i`
  have hentry : ∀ i b, (usbEpTransfStart d num t buf size).bdt[i]? = some b →
      ∃ b₀, d.bdt[i]? = some b₀ ∧
        (num = i ∧ t &&& 0x80 = 0 ∧ b.out = .start t buf size ∨
          ¬ (num = i ∧ t &&& 0x80 = 0) ∧ b.out = b₀.out) := by
    intro i b hb
    rw [usbEpTransfStart_entry] at hb
    split at hb
    · next hi =>
      obtain ⟨b₀, hb₀, rfl⟩ := Option.map_eq_some_iff.mp hb
      refine ⟨b₀, hb₀, ?_⟩
      unfold EpBufDsc.start
      split
      · next ht => exact .inr ⟨fun hn ↦ ht hn.2, rfl⟩
      · next ht => exact .inl ⟨hi, not_not.mp ht, rfl⟩
    · next hi => exact ⟨b, hb, .inr ⟨fun hn ↦ hi hn.1, rfl⟩⟩
  constructor
  · intro b hb howned
    obtain ⟨b₀, hb₀, ⟨rfl, ht, hout⟩ | ⟨-, hout⟩⟩ := hentry 0 b hb
    · obtain ⟨-, rfl⟩ | ⟨hn, -⟩ := hc ht
      · rw [hout]
        rfl
      · cases hn
    · rw [hout] at howned ⊢
      exact h.ep0 b₀ hb₀ howned
  · intro b hb
    obtain ⟨b₀, hb₀, ⟨rfl, ht, hout⟩ | ⟨-, hout⟩⟩ := hentry 1 b hb
    · obtain ⟨hn, -⟩ | ⟨hn, -⟩ := hc ht
      · cases hn
      · cases hn
    · rw [hout]
      exact h.ep1 b₀ hb₀
  · intro b hb howned
    obtain ⟨b₀, hb₀, ⟨rfl, ht, hout⟩ | ⟨hne, hout⟩⟩ := hentry 2 b hb
    · obtain ⟨hn, -⟩ | ⟨-, rfl⟩ := hc ht
      · cases hn
      · rw [hout, armedSize, if_pos ⟨rfl, ht⟩]
        exact ⟨rfl, rfl⟩
    · rw [hout] at howned ⊢
      rw [armedSize, if_neg hne]
      exact h.ep2 b₀ hb₀ howned

private theorem Armed.cleared (h : Armed d n)
    (hb : ∀ (i : Nat) (b : EpBufDsc), d'.bdt[i]? = some b → b.out.owned = true →
      d.bdt[i]? = some b) : Armed d' n where
  ep0 b hb' howned := h.ep0 b (hb 0 b hb' howned) howned
  ep1 b hb' := by
    by_contra howned
    rw [Bool.not_eq_false] at howned
    exact Bool.false_ne_true ((h.ep1 b (hb 1 b hb' howned)).symm.trans howned)
  ep2 b hb' howned := h.ep2 b (hb 2 b hb' howned) howned

/-- A proper library call leaves endpoint 2 armed for the size it names. -/
theorem Armed.call (h : Armed d n) (hc : Proper c) : Armed (d.call c) (armedSize n c) := by
  cases c with
  | transfStart num t buf size => exact h.transfStart hc
  | reset =>
    refine h.cleared fun i b hb howned ↦ ?_
    obtain ⟨b₀, -, rfl⟩ := Option.map_eq_some_iff.mp ((List.getElem?_map ..).symm.trans hb)
    cases howned
  | initEp num t =>
    refine h.cleared fun i b hb howned ↦ ?_
    obtain ⟨b₀, hb₀, hif⟩ := Option.map_eq_some_iff.mp ((List.getElem?_modify ..).symm.trans hb)
    split at hif
    · rw [← hif, not_owned_of_stat _ rfl] at howned
      cases howned
    · rwa [← hif]
  | _ => exact h.of_bdt rfl

/-- Proper library calls leave endpoint 2 armed for the size they end with. -/
theorem Armed.calls (h : Armed d n) (hc : ∀ c ∈ cs, Proper c) :
    Armed (cs.foldl UsbLib.call d) (cs.foldl armedSize n) := by
  induction cs generalizing d n with
  | nil => exact h
  | cons c cs ih =>
    exact ih (h.call (hc c List.mem_cons_self)) fun c' hc' ↦ hc c' (List.mem_cons_of_mem _ hc')

private theorem buffers_calls (hc : ∀ c ∈ cs, Proper c) :
    (cs.foldl UsbLib.call d).buffers[ep2BufOut]? = d.buffers[ep2BufOut]? := by
  induction cs generalizing d with
  | nil => rfl
  | cons c cs ih =>
    rw [List.foldl_cons, ih fun c' hc' ↦ hc c' (List.mem_cons_of_mem _ hc')]
    have hproper := hc c List.mem_cons_self
    cases c with
    | copyToBuffer buf src size => exact List.getElem?_modify_ne _ _ hproper
    | _ => rfl

end Calls

section Events

variable (fw : PicUsbDevice) (ep : BitVec 8) (key : UInt8) (req : UsbDeviceReq) (n : Nat)

private theorem armedSize_in (num : Nat) (buf : BufPtr) (size : Int) {t : BitVec 8}
    (ht : t &&& 0x80 ≠ 0) : armedSize n (.transfStart num t buf size) = n :=
  if_neg fun h ↦ ht h.2

-- What the calls of an event do to the OUT entries: they are proper, and endpoint 2 is armed with
-- `m` bytes after them.
private structure Rearms (calls : List FirmwareCall) (n m : Nat) : Prop where
  proper : ∀ c ∈ calls, Proper c
  size : calls.foldl armedSize n = m

private theorem Rearms.nil : Rearms [] n n := ⟨nofun, rfl⟩

private theorem Rearms.cons {c : FirmwareCall} {calls : List FirmwareCall} {n m : Nat}
    (hc : Proper c) (h : Rearms calls (armedSize n c) m) : Rearms (c :: calls) n m :=
  ⟨List.forall_mem_cons.mpr ⟨hc, h.proper⟩, h.size⟩

private theorem Rearms.cons_in {num : Nat} {t : BitVec 8} {buf : BufPtr} {size : Int}
    {calls : List FirmwareCall} {n m : Nat} (ht : t &&& 0x80 ≠ 0) (h : Rearms calls n m) :
    Rearms (.transfStart num t buf size :: calls) n m :=
  .cons (fun h0 ↦ absurd h0 ht) (by rwa [armedSize_in n num buf size ht])

private theorem sendDescriptor_rearms (descr : List UInt8) (wLength : BitVec 16) :
    Rearms (sendDescriptorCalls descr wLength) n n :=
  .cons (by decide : ep0BufIn ≠ ep2BufOut) (.cons_in (by decide) (.nil n))

private theorem getDescriptor_rearms (fw : PicUsbDevice) :
    Rearms (getDescriptorCalls req) n n :=
  getDescriptor_cases (P := fun _ calls ↦ Rearms calls n n) fw req
    (fun _ _ ↦ sendDescriptor_rearms n _ _) (.nil n)

private theorem setConfiguration_rearms : Rearms setConfigurationCalls n 0 :=
  .cons trivial (.cons trivial (.cons (fun _ ↦ .inr ⟨rfl, rfl⟩)
    (.cons_in (by decide) (.cons_in (by decide) (.nil 0)))))

private theorem setup_rearms (fw : PicUsbDevice) :
    Rearms (setupCalls req) n (if req.bRequest == 9 then 0 else n) := by
  refine @processSetup_cases (fun _ calls ↦ Rearms calls n (if req.bRequest == 9 then 0 else n))
    fw req (fun h9 ↦ ?_) (fun h9 ↦ ?_) (fun h9 ↦ ?_) (fun h9 ↦ ?_)
  · rw [h9]
    exact getDescriptor_rearms req n fw
  · rw [h9]
    exact .cons_in (by decide) (.nil n)
  · rw [h9]
    exact setConfiguration_rearms n
  · rw [h9]
    exact .nil n

private theorem stage_rearms : Rearms (stageCalls fw) n n := by
  have hout : ∀ t, Rearms [.transfStart 0 t ep0BufOut ep0OutBufSize] n n :=
    fun t ↦ .cons (fun _ ↦ .inl ⟨rfl, rfl⟩) (by
      rw [armedSize, if_neg fun h ↦ absurd h.1 (by decide)]
      exact .nil n)
  unfold stageCalls
  cases fw.state with
  | ackad => exact .cons trivial (hout _)
  | acksc => exact .nil n
  | setup => exact .nil n
  | _ => exact hout _

private theorem epTransfer_rearms : Rearms (epTransferCalls fw ep key) n
    (if ep = endpointOut then ep2OutBufSize else n) := by
  unfold epTransferCalls
  split
  · next hin =>
    have hin0 : ∀ b : Bool, (if b then usbTrnData1In else usbTrnData0In) &&& 0x80 ≠ 0 := by decide
    have hne : ep ≠ endpointOut := by
      rw [hin]
      decide
    rw [if_neg hne]
    exact .cons (by decide : ep1BufIn ≠ ep2BufOut) (.cons_in (hin0 _) (.nil n))
  · split
    · have hout : ∀ b : Bool, (if b then usbTrnData1Out else usbTrnData0Out) &&& 0x80 = 0 := by
        decide
      refine .cons (fun _ ↦ .inr ⟨rfl, rfl⟩) ?_
      rw [armedSize, if_pos ⟨rfl, hout _⟩]
      exact .nil _
    · exact .nil n

/-- The size that endpoint 2 is armed with by the handling of an event: none for a
SET_CONFIGURATION, the whole buffer for an event of its own. -/
theorem event_rearms : Rearms (eventCalls fw ep key) n
    (if takesSetConfiguration fw ep then 0 else if ep = endpointOut then ep2OutBufSize else n) := by
  unfold eventCalls
  cases hep : isControlEp ep with
  | false =>
    rw [takesSetConfiguration_of_data hep]
    exact epTransfer_rearms fw ep key n
  | true =>
    have hne : ep ≠ endpointOut := by
      rintro rfl
      cases hep
    rw [if_neg hne]
    unfold takesSetConfiguration
    cases he : fw.lib.bdt[0]? with
    | none =>
      simp only [controlCalls, controlSwitch, he]
      exact .nil n
    | some e =>
      simp only [controlCalls, controlSwitch, he, hep, Bool.true_and]
      cases hs : isSetup ep e with
      | true => exact setup_rearms _ n fw
      | false => exact stage_rearms fw n

end Events

/-! ### The invariant -/

/-- `bytes` is a full buffer in which a byte is set if and only if one of the packets reached
it. -/
structure Filled (bytes : List UInt8) (packets : List (List UInt8)) : Prop where
  length : bytes.length = ep2OutBufSize
  set : ∀ i < ep2OutBufSize, bytes.getD i 0 ≠ 0 ↔ ∃ p ∈ packets, i < p.length

/-- The number of bytes that endpoint 2 is armed with. -/
def Received.armed (h : Received) : Nat := if h.handled then ep2OutBufSize else 0

/-- Between two steps no event waits, the entries are armed as the history says, and the buffer
of endpoint 2 holds what the later packets have left there. -/
structure Echoing (h : Received) (d : UsbLib) : Prop where
  eps : d.bdt.length = 3
  queue : d.epQueue.contents = []
  armed : Armed d h.armed
  buffer : ∃ bytes, d.buffers[ep2BufOut]? = some ⟨ep2OutBufSize, bytes⟩ ∧ Filled bytes h.later

section Filling

variable {bytes data : List UInt8} {packets : List (List UInt8)}

private theorem writeAt_zero (bytes data : List UInt8) :
    writeAt bytes 0 data = data ++ bytes.drop data.length := by
  rw [writeAt, Int.toNat_zero, List.take_zero, List.nil_append, Nat.zero_add]

private theorem getD_writeAt {i : Nat} (hi : data.length ≤ i) :
    (writeAt bytes 0 data).getD i 0 = bytes.getD i 0 := by
  simp only [writeAt_zero, List.getD_eq_getElem?_getD, List.getElem?_append_right hi,
    List.getElem?_drop, Nat.add_sub_cancel' hi]

private theorem Filled.store (h : Filled bytes packets) (hp : Printable data) :
    Filled (writeAt bytes 0 data) (packets ++ [data]) := by
  obtain ⟨h1, h64, h0⟩ := hp
  constructor
  · have hlen := h.length
    rw [writeAt_zero, List.length_append, List.length_drop, hlen]
    exact Nat.add_sub_cancel' h64
  · intro i hi
    by_cases hid : i < data.length
    · have hne : (writeAt bytes 0 data).getD i 0 ≠ 0 := by
        rw [writeAt_zero, List.getD_append _ _ _ _ hid, List.getD_eq_getElem _ _ hid]
        exact fun he ↦ h0 (he ▸ List.getElem_mem hid)
      exact ⟨fun _ ↦ ⟨data, List.mem_append_right _ (List.mem_singleton_self _), hid⟩, fun _ ↦ hne⟩
    · rw [getD_writeAt (Nat.le_of_not_lt hid), h.set i hi]
      constructor
      · rintro ⟨p, hp, hip⟩
        exact ⟨p, List.mem_append_left _ hp, hip⟩
      · rintro ⟨p, hp, hip⟩
        rcases List.mem_append.mp hp with hp | hp
        · exact ⟨p, hp, hip⟩
        · exact absurd (List.mem_singleton.mp hp ▸ hip) hid

/-- The buffer with a packet in front reads as that packet exactly if the packet is not as long
as the buffer and nothing longer was there. -/
theorem Filled.reads (h : Filled bytes packets) (hp : Printable data) :
    cText (writeAt bytes 0 data) = some data ↔
      data.length < ep2OutBufSize ∧ ∀ p ∈ packets, p.length ≤ data.length := by
  -- both say that the byte behind the packet is there and not set
  have hset : data.length < ep2OutBufSize →
      (bytes.getD data.length 0 = 0 ↔ ∀ p ∈ packets, p.length ≤ data.length) := fun hlt ↦ by
    rw [← not_iff_not, ← ne_eq, h.set _ hlt]
    simp only [not_forall, not_le, exists_prop]
  rw [cText_eq_some, writeAt_zero]
  constructor
  · rintro ⟨-, r, hr⟩
    have hdrop : bytes.drop data.length = 0 :: r := List.append_cancel_left hr
    have hlt : data.length < ep2OutBufSize := by
      have hlen := congrArg List.length hdrop
      rw [List.length_drop, h.length, List.length_cons] at hlen
      omega
    refine ⟨hlt, (hset hlt).mp ?_⟩
    have hat : (bytes.drop data.length)[0]? = some 0 := by rw [hdrop]; rfl
    rw [List.getElem?_drop, Nat.add_zero] at hat
    rw [List.getD_eq_getElem?_getD, hat]
    rfl
  · rintro ⟨hlt, hall⟩
    have hlen : data.length < bytes.length := hlt.trans_eq h.length.symm
    have hzero := (hset hlt).mpr hall
    rw [List.getD_eq_getElem _ _ hlen] at hzero
    refine ⟨hp.2.2, bytes.drop (data.length + 1), ?_⟩
    rw [List.drop_eq_getElem_cons hlen, hzero]

end Filling

section Steps

variable {h : Received} {fw fw' : PicUsbDevice} {d d' : UsbLib} {r : Response} {key : UInt8}
  {n m : Nat} {ep : BitVec 8} {bytes : List UInt8} {packets : List (List UInt8)}

private theorem Echoing.of_same (hd : Echoing h d) (hb : d'.bdt = d.bdt)
    (hbuf : d'.buffers = d.buffers) (hq : d'.epQueue = d.epQueue) : Echoing h d' where
  eps := by rw [hb, hd.eps]
  queue := by rw [hq, hd.queue]
  armed := hd.armed.of_bdt hb
  buffer := by rw [hbuf]; exact hd.buffer

private theorem Echoing.event (fw : PicUsbDevice) (heps : fw.lib.bdt.length = 3)
    (hq : fw.lib.epQueue.contents = []) (ha : Armed fw.lib n)
    (hbuf : fw.lib.buffers[ep2BufOut]? = some ⟨ep2OutBufSize, bytes⟩)
    (hfill : Filled bytes h.later) (hn : h.armed =
      if takesSetConfiguration fw ep then 0 else if ep = endpointOut then ep2OutBufSize else n) :
    Echoing h (processEvent fw ep key).lib := by
  obtain ⟨hframe, -⟩ := processEvent_frame fw ep key
  have hcalls := event_rearms fw ep key n
  refine ⟨hframe.eps.trans heps, ?_, ?_, bytes, ?_, hfill⟩
  · rw [hframe.epQueue, hq]
  · rw [processEvent_lib, hn, ← hcalls.size]
    exact ha.calls hcalls.proper
  · rw [processEvent_lib, buffers_calls hcalls.proper, hbuf]

private theorem Echoing.reset (fw : PicUsbDevice) (hd : Echoing h fw.lib) :
    Echoing h (mainReset fw).lib := by
  have hcalls : Rearms resetCalls h.armed h.armed := by
    refine .cons trivial (.cons trivial (.cons (fun _ ↦ .inl ⟨rfl, rfl⟩) ?_))
    exact .nil _
  obtain ⟨bytes, hbuf, hfill⟩ := hd.buffer
  refine ⟨?_, hd.queue, ?_, bytes, ?_, hfill⟩
  · simp only [mainReset, PicUsbDevice.start, usbEpTransfStart, usbInitEp, usbReset, clearAllEps,
      List.length_modify, List.length_map, hd.eps]
  · rw [mainReset_lib]
    exact hcalls.size ▸ hd.armed.calls hcalls.proper
  · rw [mainReset_lib, buffers_calls hcalls.proper, hbuf]

private theorem Echoing.busReset (hd : Echoing h fw.lib) {o : EchoOut}
    (hx : echoExec fw .busReset = .ok (fw', o)) :
    Echoing h fw'.lib ∧ o.configured = false := by
  simp only [echoExec] at hx
  split at hx
  · cases hx
  · next lib r ht =>
    have hlib : lib.bdt = fw.lib.bdt ∧ lib.buffers = fw.lib.buffers ∧
        lib.epQueue = fw.lib.epQueue := by
      simp only [usbTransfer] at ht
      split at ht
      · cases ht
        exact ⟨rfl, rfl, rfl⟩
      · cases ht
        exact ⟨rfl, rfl, rfl⟩
    have hsame : Echoing h { lib with reset := false } := hd.of_same hlib.1 hlib.2.1 hlib.2.2
    split at hx
    · next lib' hr =>
      cases (Prod.mk.inj hr).2
      cases hx
      exact ⟨Echoing.reset { fw with lib := { lib with reset := false } } hsame, rfl⟩
    · next lib' hr =>
      cases (Prod.mk.inj hr).2
      cases hx
      exact ⟨hsame, rfl⟩

private theorem handleEvent_spec (fw : PicUsbDevice) (r : Response) (key : UInt8)
    {q : Ring (BitVec 8) epQueueSize} (hq : fw.lib.epQueue = q.push ep) (hempty : q.contents = []) :
    ∃ d, d.bdt = fw.lib.bdt ∧ d.buffers = fw.lib.buffers ∧ d.epQueue.contents = [] ∧
      handleEvent fw r key = (processEvent { fw with lib := d } ep key,
        ⟨r, takesSetConfiguration { fw with lib := d } ep,
          if ep = endpointOut then some (receivedText d) else none⟩) := by
  obtain ⟨hpop, hrest⟩ := Ring.pop_push q ep (by decide) hempty
  refine ⟨{ fw.lib with epQueue := fw.lib.epQueue.pop.2 }, rfl, rfl, ?_, ?_⟩
  · rw [hq]
    exact hrest
  · rw [handleEvent, getTrnStatus, hq, hpop]

private theorem Armed.received (ha : Armed d n) {e : Fin 16} {b : EpBufDsc} {pid : UsbPid}
    {sz : Int} (hb : d.bdt[e.val]? = some b) (howned : b.out.owned = true)
    (hbdt : d'.bdt = d.bdt.set e { b with out := b.out.received pid sz }) :
    Armed d' (if e = 2 then (BitVec.ofInt 8 sz).toNat else n) := by
  obtain ⟨hlt, -⟩ := List.getElem?_eq_some_iff.mp hb
  have hsame : ∀ i, e.val ≠ i → d'.bdt[i]? = d.bdt[i]? := fun i hi ↦ by
    rw [hbdt, List.getElem?_set_ne hi]
  have hself : ∀ b', d'.bdt[e.val]? = some b' → b'.out = b.out.received pid sz := fun b' hb' ↦ by
    rw [hbdt, List.getElem?_set_self hlt] at hb'
    cases hb'
    rfl
  refine ⟨fun b' hb' howned' ↦ ?_, fun b' hb' ↦ ?_, fun b' hb' howned' ↦ ?_⟩
  · by_cases he : e.val = 0
    · rw [← he] at hb'
      rw [hself b' hb']
      exact ha.ep0 b (he ▸ hb) howned
    · exact ha.ep0 b' (hsame 0 he ▸ hb') howned'
  · by_cases he : e.val = 1
    · exact absurd ((ha.ep1 b (he ▸ hb)).symm.trans howned) Bool.false_ne_true
    · exact ha.ep1 b' (hsame 1 he ▸ hb')
  · by_cases he : e.val = 2
    · rw [← he] at hb'
      rw [hself b' hb', if_pos (Fin.ext he)]
      exact ⟨(ha.ep2 b (he ▸ hb) howned).1, rfl⟩
    · rw [if_neg fun h ↦ he (congrArg Fin.val h)]
      exact ha.ep2 b' (hsame 2 he ▸ hb') howned'

private theorem Echoing.addr_ne (hd : Echoing h d) {e : Fin 16} {b : EpBufDsc} (he : e ≠ 2)
    (hb : d.bdt[e.val]? = some b) (howned : b.out.owned = true) : b.out.addr ≠ ep2BufOut := by
  obtain ⟨hlt, -⟩ := List.getElem?_eq_some_iff.mp hb
  rw [hd.eps] at hlt
  have hcases : e.val = 0 ∨ e.val = 1 := by
    have hne : e.val ≠ 2 := fun hv ↦ he (Fin.ext hv)
    omega
  rcases hcases with h0 | h1
  · rw [hd.armed.ep0 b (h0 ▸ hb) howned]
    decide
  · exact absurd ((hd.armed.ep1 b (h1 ▸ hb)).symm.trans howned) Bool.false_ne_true

private theorem Echoing.delivered (hd : Echoing h fw.lib) {addr : Int} {pid : UsbPid}
    {data : List UInt8} {o : EchoOut}
    (hx : echoExec fw (.out addr 2 pid data key) = .ok (fw', o))
    (hack : o.response.isAck = true) :
    ∃ d m bytes, d.bdt.length = 3 ∧ d.epQueue.contents = [] ∧ Armed d m ∧ Filled bytes h.later ∧
      d.buffers[ep2BufOut]? =
        some ⟨ep2OutBufSize, writeAt bytes 0 (data.take (min h.armed data.length))⟩ ∧
      fw' = processEvent { fw with lib := d } endpointOut key ∧
      o = ⟨.ack (min h.armed data.length : Nat) [], false, some (receivedText d)⟩ := by
  simp only [echoExec] at hx
  split at hx
  · next hpid =>
    unfold transact at hx
    split at hx
    · cases hx
    · next lib r ht =>
      cases packetStep_of_transfer hpid ht with
      | refused _ _ _ hr =>
        rw [if_neg (by rw [hr]; decide)] at hx
        cases hx
        rw [hr] at hack
        cases hack
      | @received b buf sz hadm hb hget hle hsz hbdt hbuf hpush =>
        have howned := UsbLib.owned_of_admits hadm hb
        obtain ⟨haddr, hcnt⟩ := hd.armed.ep2 b hb howned
        obtain ⟨bytes, hbytes, hfill⟩ := hd.buffer
        rw [haddr] at hget hbuf
        obtain rfl := Option.some.inj (hbytes.symm.trans hget)
        have hsz' : sz = (min h.armed data.length : Nat) := by
          rw [hsz, hcnt]
          omega
        obtain ⟨d, hdbdt, hdbuf, hdq, hspec⟩ := handleEvent_spec { fw with lib := lib }
          (.ack sz []) key hpush hd.queue
        rw [if_pos (show (Response.ack sz []).isAck = true from rfl), hspec] at hx
        cases hx
        refine ⟨d, _, bytes, ?_, hdq, (hd.armed.received hb howned hbdt).of_bdt hdbdt, hfill, ?_,
          rfl, ?_⟩
        · rw [hdbdt, hbdt, List.length_set, hd.eps]
        · obtain ⟨hlt, -⟩ := List.getElem?_eq_some_iff.mp hget
          rw [hdbuf, hbuf, List.getElem?_set_self hlt, hsz']
          rfl
        · rw [hsz', takesSetConfiguration_of_data (by decide)]
          rfl
  · cases hx

private theorem Echoing.packet (hd : Echoing h fw.lib) {addr : Int} {pid : UsbPid}
    {data : List UInt8} {o : EchoOut}
    (hx : echoExec fw (.out addr 2 pid data key) = .ok (fw', o))
    (hack : o.response.isAck = true) (hp : Printable data) :
    Echoing ⟨true, if h.handled then h.later ++ [data] else h.later⟩ fw'.lib := by
  obtain ⟨d, m, bytes, heps, hq, harmed, hfill, hbuf, rfl, -⟩ := hd.delivered hx hack
  refine Echoing.event { fw with lib := d } heps hq harmed hbuf ?_ ?_
  · cases hh : h.handled with
    | true =>
      have hsz : min h.armed data.length = data.length := by
        rw [Received.armed, hh]
        exact Nat.min_eq_right hp.2.1
      rw [hsz, List.take_length]
      exact hfill.store hp
    | false =>
      have hsz : min h.armed data.length = 0 := by
        rw [Received.armed, hh]
        exact Nat.zero_min _
      rw [hsz, List.take_zero, writeAt_zero]
      exact hfill
  · rw [takesSetConfiguration_of_data (by decide)]
    rfl

private theorem Echoing.elsewhere (hep : ep ≠ endpointOut) (heps : d.bdt.length = 3)
    (hq : d.epQueue.contents = []) (ha : Armed d h.armed)
    (hbuf : d.buffers[ep2BufOut]? = some ⟨ep2OutBufSize, bytes⟩) (hfill : Filled bytes h.later) :
    Echoing
      (if takesSetConfiguration { fw with lib := d } ep then { h with handled := false } else h)
      (processEvent { fw with lib := d } ep key).lib := by
  refine Echoing.event { fw with lib := d } (n := h.armed) heps hq ha hbuf ?_ ?_
  · split
    · exact hfill
    · exact hfill
  · rw [if_neg hep]
    split
    · rfl
    · rfl

private theorem Echoing.other (hd : Echoing h fw.lib) {addr : Int} {e : Fin 16} {pid : UsbPid}
    {data : List UInt8} {o : EchoOut} (he : e ≠ 2 ∨ o.response.isAck = false)
    (hx : echoExec fw (.out addr e pid data key) = .ok (fw', o)) :
    Echoing (if o.configured then { h with handled := false } else h) fw'.lib := by
  simp only [echoExec] at hx
  split at hx
  · next hpid =>
    unfold transact at hx
    split at hx
    · cases hx
    · next lib r ht =>
      cases packetStep_of_transfer hpid ht with
      | refused hbdt hbuf hq hr =>
        rw [hr, if_neg Bool.false_ne_true] at hx
        cases hx
        exact hd.of_same hbdt hbuf hq
      | @received b buf sz hadm hb hget hle hsz hbdt hbuf hpush =>
        have howned := UsbLib.owned_of_admits hadm hb
        obtain ⟨d, hdbdt, hdbuf, hdq, hspec⟩ := handleEvent_spec { fw with lib := lib }
          (.ack sz []) key hpush hd.queue
        rw [if_pos (show (Response.ack sz []).isAck = true from rfl), hspec] at hx
        cases hx
        have he2 : e ≠ 2 := he.resolve_right fun h ↦ by cases h
        obtain ⟨bytes, hbytes, hfill⟩ := hd.buffer
        have harmed := hd.armed.received hb howned hbdt
        rw [if_neg he2] at harmed
        refine Echoing.elsewhere (fun h ↦ he2 (outEp_inj h)) ?_ hdq (harmed.of_bdt hdbdt) ?_ hfill
        · rw [hdbdt, hbdt, List.length_set, hd.eps]
        · rw [hdbuf, hbuf, List.getElem?_set_ne (hd.addr_ne he2 hb howned), hbytes]
  · cases hx

private theorem Armed.sent (ha : Armed d n) {e : Fin 16} {b : EpBufDsc} {pid : UsbPid}
    (hb : d.bdt[e.val]? = some b)
    (hbdt : d'.bdt = d.bdt.set e { b with inn := b.inn.sent pid }) : Armed d' n := by
  obtain ⟨hlt, -⟩ := List.getElem?_eq_some_iff.mp hb
  have hout : ∀ (i : Nat) (b' : EpBufDsc), d'.bdt[i]? = some b' →
      ∃ b₀, d.bdt[i]? = some b₀ ∧ b'.out = b₀.out := by
    intro i b' hb'
    by_cases hi : e.val = i
    · subst hi
      rw [hbdt, List.getElem?_set_self hlt] at hb'
      cases hb'
      exact ⟨b, hb, rfl⟩
    · rw [hbdt, List.getElem?_set_ne hi] at hb'
      exact ⟨b', hb', rfl⟩
  refine ⟨fun b' hb' howned ↦ ?_, fun b' hb' ↦ ?_, fun b' hb' howned ↦ ?_⟩
  · obtain ⟨b₀, hb₀, ho⟩ := hout 0 b' hb'
    rw [ho] at howned ⊢
    exact ha.ep0 b₀ hb₀ howned
  · obtain ⟨b₀, hb₀, ho⟩ := hout 1 b' hb'
    rw [ho]
    exact ha.ep1 b₀ hb₀
  · obtain ⟨b₀, hb₀, ho⟩ := hout 2 b' hb'
    rw [ho] at howned ⊢
    exact ha.ep2 b₀ hb₀ howned

private theorem Echoing.token (hd : Echoing h fw.lib) {addr size : Int} {e : Fin 16}
    {pid : UsbPid} {o : EchoOut}
    (hx : echoExec fw (.inn addr e pid size key) = .ok (fw', o)) :
    Echoing (if o.configured then { h with handled := false } else h) fw'.lib := by
  simp only [echoExec] at hx
  split at hx
  · next hpid =>
    unfold transact at hx
    split at hx
    · cases hx
    · next lib r ht =>
      cases hr : r.isAck with
      | false =>
        rw [hr, if_neg Bool.false_ne_true] at hx
        cases hx
        obtain rfl := unsent_of_transfer hpid ht hr
        exact hd
      | true =>
        obtain ⟨b, hb, -, hbdt, hbuf, hpush⟩ := sent_of_transfer hpid ht hr
        obtain ⟨d, hdbdt, hdbuf, hdq, hspec⟩ := handleEvent_spec { fw with lib := lib } r key
          hpush hd.queue
        rw [hr, if_pos rfl, hspec] at hx
        cases hx
        obtain ⟨bytes, hbytes, hfill⟩ := hd.buffer
        have hne : inEp e ≠ endpointOut := fun h ↦ inEp_dir e (by rw [h]; decide)
        refine Echoing.elsewhere hne ?_ hdq ((hd.armed.sent hb hbdt).of_bdt hdbdt) ?_ hfill
        · rw [hdbdt, hbdt, List.length_set, hd.eps]
        · rw [hdbuf, hbuf, hbytes]
  · cases hx

private theorem after_other {e : EchoEvent} (hp : EchoEvent.packet e = none) :
    h.after e = if e.2.configured then { h with handled := false } else h := by
  rw [Received.after, hp]

/-- One step keeps the invariant, with its event in the history. -/
theorem Echoing.step (hd : Echoing h fw.lib) {op : EchoOp} {o : EchoOut}
    (hx : echoExec fw op = .ok (fw', o))
    (hp : ∀ data, EchoEvent.packet (op, o) = some data → Printable data) :
    Echoing (h.after (op, o)) fw'.lib := by
  cases op with
  | busReset =>
    obtain ⟨hd', hconf⟩ := hd.busReset hx
    rw [after_other rfl, hconf]
    exact hd'
  | inn addr e pid size key =>
    rw [after_other rfl]
    exact hd.token hx
  | out addr e pid data key =>
    by_cases hpk : e = 2 ∧ o.response.isAck = true
    · obtain ⟨rfl, hack⟩ := hpk
      have hpacket : EchoEvent.packet (.out addr 2 pid data key, o) = some data :=
        if_pos ⟨rfl, hack⟩
      have hd' := hd.packet hx hack (hp data hpacket)
      obtain ⟨d, m, bytes, -, -, -, -, -, -, ho⟩ := hd.delivered hx hack
      rw [Received.after, hpacket, ho]
      exact hd'
    · have hpacket : EchoEvent.packet (.out addr e pid data key, o) = none := if_neg hpk
      rw [after_other hpacket]
      refine hd.other ?_ hx
      rwa [not_and_or, Bool.not_eq_true] at hpk

/-- What is printed for a packet is the packet, with nothing dropped and nothing left over,
exactly if endpoint 2 was armed for it, the array has room for a terminator and no packet
before it was longer. -/
theorem Echoing.prints_iff (hd : Echoing h fw.lib) {addr : Int} {pid : UsbPid} {data : List UInt8}
    {o : EchoOut} (hx : echoExec fw (.out addr 2 pid data key) = .ok (fw', o))
    (hack : o.response.isAck = true) (hp : Printable data) :
    Echoed o data ↔ h.handled = true ∧ data.length < 64 ∧
      ∀ p ∈ h.later, p.length ≤ data.length := by
  obtain ⟨d, m, bytes, -, -, -, hfill, hbuf, -, rfl⟩ := hd.delivered hx hack
  cases hh : h.handled with
  | false =>
    -- nothing was armed for, so nothing was taken
    have hsz : min h.armed data.length = 0 := by
      rw [Received.armed, hh]
      exact Nat.zero_min _
    refine ⟨fun he ↦ ?_, fun hc ↦ absurd hc.1 Bool.false_ne_true⟩
    have hlen := (Response.ack.inj he.1).1
    rw [hsz] at hlen
    have h1 := hp.1
    omega
  | true =>
    have hsz : min h.armed data.length = data.length := by
      rw [Received.armed, hh]
      exact Nat.min_eq_right hp.2.1
    rw [hsz, List.take_length] at hbuf
    have hlen : (writeAt bytes 0 data).length = ep2OutBufSize := (hfill.store hp).length
    have htext : receivedText d = some (received ++ data) ↔
        cText (writeAt bytes 0 data) = some data := by
      have hcopy : copyFromBuffer d ep2BufOut ep2OutBufSize = writeAt bytes 0 data := by
        simp only [copyFromBuffer, hbuf]
        exact List.take_of_length_le (Nat.le_of_eq hlen)
      rw [receivedText, hcopy, Option.map_eq_some_iff]
      constructor
      · rintro ⟨t, ht, he⟩
        rw [ht, List.append_cancel_left he]
      · exact fun ht ↦ ⟨data, ht, rfl⟩
    rw [Echoed, hsz, Option.some.injEq, htext, hfill.reads hp]
    simp

end Steps

/-! ### Runs -/

section Runs

variable {es past after : List EchoEvent} {e : EchoEvent} {fw : PicUsbDevice} {data : List UInt8}

private theorem Echoing.init : Echoing (history []) picUsbDeviceInit.lib where
  eps := rfl
  queue := rfl
  armed := by
    have hzero : ∀ (i : Nat) (b : EpBufDsc), picUsbDeviceInit.lib.bdt[i]? = some b →
        b.out.owned = false := by
      intro i b hb
      obtain rfl := List.eq_of_mem_replicate (List.mem_of_getElem? hb)
      rfl
    exact ⟨fun b hb ho ↦ absurd ((hzero 0 b hb).symm.trans ho) Bool.false_ne_true, hzero 1,
      fun b hb ho ↦ absurd ((hzero 2 b hb).symm.trans ho) Bool.false_ne_true⟩
  buffer := by
    refine ⟨List.replicate 64 0, rfl, List.length_replicate, fun i hi ↦ ?_⟩
    have hzero : (List.replicate 64 (0 : UInt8)).getD i 0 = 0 := by
      rw [List.getD_eq_getElem?_getD, List.getElem?_replicate]
      split <;> rfl
    exact ⟨fun hne ↦ absurd hzero hne, fun ⟨p, hp, _⟩ ↦ absurd hp List.not_mem_nil⟩

private theorem EchoRun.echoing (h : EchoRun es fw) (hp : AllPrintable es) :
    Echoing (history es) fw.lib := by
  refine Run.invariant (P := fun es (fw : PicUsbDevice) ↦ AllPrintable es →
    Echoing (history es) fw.lib) (fun _ ↦ Echoing.init) ?_ h hp
  intro es fw e fw' _ ih he hp
  rw [history_snoc]
  exact (ih fun x hx ↦ hp x (List.mem_append_left _ hx)).step he
    (hp e (List.mem_append_right _ (List.mem_singleton_self e)))

/-- In every run of printable packets, the firmware prints exactly the packet it was sent if
and only if it is not the first one since SET_CONFIGURATION, has less than 64 bytes and none of
the packets it took in before was longer. -/
theorem EchoRun.echoed_iff (h : EchoRun (past ++ e :: after) fw)
    (hp : AllPrintable (past ++ e :: after)) (hpacket : EchoEvent.packet e = some data) :
    Echoed e.2 data ↔ (history past).handled = true ∧ data.length < 64 ∧
      ∀ p ∈ (history past).later, p.length ≤ data.length := by
  obtain ⟨m, m', hpast, hstep, -⟩ := h.fired
  have hd := EchoRun.echoing hpast fun x hx ↦ hp x (List.mem_append_left _ hx)
  have hdata := hp e (List.mem_append_right _ List.mem_cons_self) data hpacket
  obtain ⟨op, o⟩ := e
  cases op with
  | busReset => cases hpacket
  | inn => cases hpacket
  | out addr e pid data' key =>
    obtain ⟨⟨rfl, hack⟩, hdata'⟩ : (e = 2 ∧ o.response.isAck = true) ∧ data' = data := by
      simpa [EchoEvent.packet] using hpacket
    subst hdata'
    exact hd.prints_iff hstep hack hdata

private def echoOps (packets : List (List UInt8)) : List EchoOp :=
  .busReset :: .out 0 0 .setup [0x00, 9, 1, 0, 0, 0, 0, 0] 0 ::
    packets.map fun data ↦ .out 0 2 .data0 data 0

private def shrinking : List (List UInt8) :=
  [ascii ['H', 'E', 'L', 'L', 'O'], ascii ['H', 'E', 'L', 'L', 'O'], ascii ['A', 'B']]

private def growing : List (List UInt8) := [ascii ['o', 'k'], ascii ['f', 'i', 'n', 'e']]

private theorem echoRun_last {ops : List EchoOp} {p : List EchoEvent → EchoEvent → Bool}
    (h : runsTo echoExec picUsbDeviceInit ops
      (fun _ es ↦ decide (AllPrintable es) && es.getLast?.any (p es.dropLast)) = true) :
    ∃ past e fw, EchoRun (past ++ [e]) fw ∧ AllPrintable (past ++ [e]) ∧ p past e = true := by
  obtain ⟨es, fw, hrun, htest⟩ := Run.of_runsTo h
  obtain ⟨hprintable, hlast⟩ := Bool.and_eq_true_iff.mp htest
  obtain ⟨e, hl, he⟩ := (Option.any_eq_true ..).mp hlast
  obtain ⟨past, rfl⟩ := List.getLast?_eq_some_iff.mp hl
  rw [List.dropLast_concat] at he
  exact ⟨past, e, fw, hrun, of_decide_eq_true hprintable, he⟩

/-- A shorter packet is printed with the end of a longer one before it. -/
theorem EchoRun.echoed_garbage : ¬ ∀ past e data fw, EchoRun (past ++ [e]) fw →
    AllPrintable (past ++ [e]) → EchoEvent.packet e = some data → Echoed e.2 data := by
  intro h
  obtain ⟨past, e, fw, hrun, hprintable, he⟩ := @echoRun_last (echoOps shrinking) (fun _ e ↦
    decide (EchoEvent.packet e = some (ascii ['A', 'B']) ∧
      e.2.printed = some (some (received ++ ascii ['A', 'B', 'L', 'L', 'O'])))) (by decide +kernel)
  obtain ⟨hpacket, hprinted⟩ := of_decide_eq_true he
  have hechoed := (h past e _ fw hrun hprintable hpacket).2
  rw [hprinted] at hechoed
  exact absurd hechoed (by decide)

/-- A packet that says `fine` is echoed. -/
theorem EchoRun.echoed_fine : ∃ past e fw, EchoRun (past ++ [e]) fw ∧
    Echoed e.2 (ascii ['f', 'i', 'n', 'e']) := by
  obtain ⟨past, e, fw, hrun, hprintable, he⟩ := @echoRun_last (echoOps growing) (fun past e ↦
    decide (EchoEvent.packet e = some (ascii ['f', 'i', 'n', 'e']) ∧
      history past = ⟨true, []⟩)) (by decide +kernel)
  obtain ⟨hpacket, hhist⟩ := of_decide_eq_true he
  refine ⟨past, e, fw, hrun, (EchoRun.echoed_iff hrun hprintable hpacket).mpr ?_⟩
  rw [hhist]
  exact ⟨rfl, by decide, nofun⟩

end Runs

end BiMpp.Firmware
