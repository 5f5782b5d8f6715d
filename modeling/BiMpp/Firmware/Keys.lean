import BiMpp.Firmware.Descriptors

/-!
# What endpoint 1 sends

Each event of endpoint 1 reads a key and arms the endpoint with it:
`pic_usb_device.X/main.c:264–288,344–370,402–424`. The packets of the host, the bus resets and
the passes of the main loop come in any order.
-/

namespace BiMpp.Firmware
open BiMpp.Usb BiMpp.Base BiMpp.Device

/-! ### Keys typed and keys sent -/

/-- The event in hand after another step. -/
def MainEvent.inHand (ep : BitVec 8) : MainEvent → BitVec 8
  | (.poll, .polled (some (ep', _))) => ep'
  | _ => ep

/-- The event in hand after a history. -/
def eventInHand (es : List MainEvent) : BitVec 8 := es.foldl MainEvent.inHand 0

/-- The key that a step reads for endpoint 1, with the event `ep` in hand. -/
def MainEvent.typed (ep : BitVec 8) : MainEvent → List UInt8
  | (.process key, _) => if ep = endpointIn then [key] else []
  | _ => []

/-- The keys read for endpoint 1, with the event `ep` in hand. -/
def keysFrom : BitVec 8 → List MainEvent → List UInt8
  | _, [] => []
  | ep, e :: es => MainEvent.typed ep e ++ keysFrom (MainEvent.inHand ep e) es

/-- The keys read for endpoint 1 in a history. -/
def keysTyped (es : List MainEvent) : List UInt8 := keysFrom 0 es

/-- The bytes that an IN transaction on endpoint 1 brought. -/
def MainEvent.keys : MainEvent → List UInt8
  | (.transfer _ ep _ _ _, .response r) => if ep &&& 0x8F = 0x81 then r.bytes else []
  | _ => []

/-- The bytes that endpoint 1 sent in a history. -/
def keysSent (es : List MainEvent) : List UInt8 := es.flatMap MainEvent.keys

/-- Endpoint 1 is armed to send. -/
def armed (d : UsbLib) : Bool :=
  match d.bdt[1]? with
  | some e => e.inn.owned
  | none => false

/-- What endpoint 1 is armed to send. -/
def loaded (d : UsbLib) : List UInt8 :=
  match d.bdt[1]? with
  | some e => if e.inn.owned then copyFromBuffer d ep1BufIn e.inn.cnt.toNat else []
  | none => []

private theorem eventInHand_snoc (es : List MainEvent) (e : MainEvent) :
    eventInHand (es ++ [e]) = MainEvent.inHand (eventInHand es) e := by
  simp [eventInHand]

private theorem keysFrom_snoc (ep : BitVec 8) (es : List MainEvent) (e : MainEvent) :
    keysFrom ep (es ++ [e]) =
      keysFrom ep es ++ MainEvent.typed (es.foldl MainEvent.inHand ep) e := by
  induction es generalizing ep with
  | nil => simp [keysFrom]
  | cons x es ih =>
    rw [List.cons_append, keysFrom, keysFrom, ih, List.append_assoc]
    rfl

private theorem keysTyped_snoc (es : List MainEvent) (e : MainEvent) :
    keysTyped (es ++ [e]) = keysTyped es ++ MainEvent.typed (eventInHand es) e :=
  keysFrom_snoc 0 es e

/-- The keys sent after one more event. -/
theorem keysSent_snoc (es : List MainEvent) (e : MainEvent) :
    keysSent (es ++ [e]) = keysSent es ++ MainEvent.keys e := by
  simp [keysSent]

/-! ### What the calls do to endpoint 1 -/

/-- A call that touches neither the IN entry of endpoint 1 nor its buffer. -/
def Elsewhere : FirmwareCall → Prop
  | .transfStart num t _ _ => num ≠ 1 ∨ t &&& 0x80 = 0
  | .copyToBuffer buf _ _ => buf ≠ ep1BufIn
  | .initEp num _ => num ≠ 1
  | .reset => False
  | _ => True

/-- The calls of an event: they load a key, or an empty packet, or are made elsewhere. -/
inductive KeyCalls (fw : PicUsbDevice) (ep : BitVec 8) (key : UInt8) : List FirmwareCall → Prop
  | press {t : BitVec 8} : ep = endpointIn → t &&& 0x80 ≠ 0 →
      KeyCalls fw ep key [.copyToBuffer ep1BufIn [key] 1, .transfStart 1 t ep1BufIn 1]
  | configure : ep ≠ endpointIn → takesSetConfiguration fw ep = true →
      KeyCalls fw ep key setConfigurationCalls
  | elsewhere {calls : List FirmwareCall} : ep ≠ endpointIn → (∀ c ∈ calls, Elsewhere c) →
      KeyCalls fw ep key calls

private theorem send_elsewhere (descr : List UInt8) (wLength : BitVec 16) :
    ∀ c ∈ sendDescriptorCalls descr wLength, Elsewhere c :=
  List.forall_mem_cons.mpr ⟨(by decide : ep0BufIn ≠ ep1BufIn),
    List.forall_mem_singleton.mpr (.inl (by decide))⟩

private theorem stage_elsewhere (fw : PicUsbDevice) : ∀ c ∈ stageCalls fw, Elsewhere c := by
  have hstart : ∀ t, Elsewhere (.transfStart 0 t ep0BufOut ep0OutBufSize) :=
    fun _ ↦ .inl (by decide)
  unfold stageCalls
  cases fw.state with
  | ackad => exact List.forall_mem_cons.mpr ⟨trivial, List.forall_mem_singleton.mpr (hstart _)⟩
  | acksc => exact nofun
  | setup => exact nofun
  | _ => exact List.forall_mem_singleton.mpr (hstart _)

private theorem setup_elsewhere (fw : PicUsbDevice) (req : UsbDeviceReq) :
    (req.bRequest == 9) = true ∧ setupCalls req = setConfigurationCalls ∨
      ∀ c ∈ setupCalls req, Elsewhere c := by
  refine @processSetup_cases (fun _ calls ↦ (req.bRequest == 9) = true ∧
    calls = setConfigurationCalls ∨ ∀ c ∈ calls, Elsewhere c) fw req (fun _ ↦ .inr ?_)
    (fun _ ↦ .inr (List.forall_mem_singleton.mpr (.inl (by decide)))) (fun h9 ↦ .inl ⟨h9, rfl⟩)
    (fun _ ↦ .inr nofun)
  exact getDescriptor_cases (P := fun _ calls ↦ ∀ c ∈ calls, Elsewhere c) fw req
    (fun _ _ ↦ send_elsewhere _ _) nofun

private theorem keyCalls_of_event (fw : PicUsbDevice) (ep : BitVec 8) (key : UInt8) :
    KeyCalls fw ep key (eventCalls fw ep key) := by
  unfold eventCalls
  cases hep : isControlEp ep with
  | false =>
    have hin : ∀ b : Bool, (if b then usbTrnData1In else usbTrnData0In) &&& 0x80 ≠ 0 := by decide
    have hout : ∀ b : Bool, (if b then usbTrnData1Out else usbTrnData0Out) &&& 0x80 = 0 := by
      decide
    unfold epTransferCalls
    split
    · next h => cases h
    · split
      · next h => exact .press h (hin _)
      · next hne =>
        split
        · exact .elsewhere hne (List.forall_mem_singleton.mpr (.inr (hout _)))
        · exact .elsewhere hne nofun
  | true =>
    have hne : ep ≠ endpointIn := by
      rintro rfl
      cases hep
    unfold controlCalls controlSwitch
    rw [if_pos rfl]
    cases he : fw.lib.bdt[0]? with
    | none => exact .elsewhere hne nofun
    | some e =>
      dsimp only
      split
      · next hsetup =>
        rcases setup_elsewhere fw (.ofBytes (copyFromBuffer fw.lib ep0BufOut 8)) with
          ⟨h9, hcalls⟩ | hcalls
        · rw [hcalls]
          refine .configure hne ?_
          unfold takesSetConfiguration
          rw [he]
          simp only [hep, hsetup, h9, Bool.and_self]
        · exact .elsewhere hne hcalls
      · exact .elsewhere hne (stage_elsewhere fw)

/-! ### What is loaded -/

section Loaded

variable {d d' d'' : UsbLib} {c : FirmwareCall} {cs : List FirmwareCall}

/-- The IN entry of endpoint 1 and its buffer are as they were. -/
structure Spared (d d' : UsbLib) : Prop where
  entry : (d'.bdt[1]?).map EpBufDsc.inn = (d.bdt[1]?).map EpBufDsc.inn
  buffer : d'.buffers[ep1BufIn]? = d.buffers[ep1BufIn]?

namespace Spared

/-- The identity spares the IN entry of endpoint 1. -/
theorem refl (d : UsbLib) : Spared d d := ⟨rfl, rfl⟩

/-- Two changes that spare the IN entry of endpoint 1 spare it in a row. -/
theorem trans (h : Spared d d') (h' : Spared d' d'') : Spared d d'' :=
  ⟨h'.entry.trans h.entry, h'.buffer.trans h.buffer⟩

/-- What is armed is told by the two. -/
theorem same (h : Spared d d') : armed d' = armed d ∧ loaded d' = loaded d := by
  obtain ⟨hentry, hbuf⟩ := h
  unfold armed loaded copyFromBuffer
  rw [hbuf]
  cases he : d.bdt[1]? with
  | none =>
    rw [he, Option.map_none, Option.map_eq_none_iff] at hentry
    rw [hentry]
    exact ⟨rfl, rfl⟩
  | some e =>
    rw [he, Option.map_some] at hentry
    obtain ⟨e', he', hinn⟩ := Option.map_eq_some_iff.mp hentry
    rw [he']
    dsimp only
    rw [hinn]
    exact ⟨rfl, rfl⟩

/-- A call for something else spares the IN entry of endpoint 1. -/
theorem call (hc : Elsewhere c) : Spared d (d.call c) := by
  cases c with
  | transfStart num t buf size =>
    refine ⟨?_, rfl⟩
    show ((usbEpTransfStart d num t buf size).bdt[1]?).map EpBufDsc.inn = _
    rw [usbEpTransfStart_entry]
    split
    · next hnum =>
      have ht : t &&& 0x80 = 0 := hc.resolve_left (not_not.mpr hnum)
      rw [Option.map_map]
      congr 1
      funext e
      show (e.start t buf size).inn = e.inn
      rw [EpBufDsc.start, if_neg (not_not.mpr ht)]
    · rfl
  | copyToBuffer buf src size => exact ⟨rfl, List.getElem?_modify_ne _ _ hc⟩
  | initEp num t =>
    refine ⟨?_, rfl⟩
    show ((usbInitEp d num t).bdt[1]?).map EpBufDsc.inn = _
    rw [usbInitEp_entry_ne _ _ _ _ hc]
  | reset => exact hc.elim
  | _ => exact ⟨rfl, rfl⟩

/-- Calls for something else spare the IN entry of endpoint 1. -/
theorem calls (hc : ∀ c ∈ cs, Elsewhere c) : Spared d (cs.foldl UsbLib.call d) := by
  induction cs generalizing d with
  | nil => exact .refl d
  | cons c cs ih =>
    exact (call (hc c List.mem_cons_self)).trans
      (ih fun c' hc' ↦ hc c' (List.mem_cons_of_mem _ hc'))

end Spared

/-- Nothing is loaded where nothing is armed. -/
theorem loaded_of_not_armed (h : armed d = false) : loaded d = [] := by
  unfold armed at h
  unfold loaded
  split at h
  · rw [h]
    rfl
  · rfl

/-- Arming the endpoint loads the beginning of its buffer. -/
theorem loaded_start (heps : 1 < d.bdt.length) {t : BitVec 8} (ht : t &&& 0x80 ≠ 0) (n : Fin 256) :
    loaded (usbEpTransfStart d 1 t ep1BufIn n.val) = copyFromBuffer d ep1BufIn n := by
  have hentry := usbEpTransfStart_entry d 1 1 t ep1BufIn n.val
  rw [if_pos rfl, List.getElem?_eq_getElem heps, Option.map_some] at hentry
  have hcnt : (BitVec.ofInt 8 (n.val : Int)).toNat = n.val := by
    rw [BitVec.ofInt_natCast, BitVec.toNat_ofNat]
    exact Nat.mod_eq_of_lt n.isLt
  unfold loaded
  rw [hentry]
  dsimp only
  rw [EpBufDsc.start, if_pos ht]
  dsimp only
  rw [owned_start, if_pos rfl]
  show copyFromBuffer d ep1BufIn (BitVec.ofInt 8 (n.val : Int)).toNat = _
  rw [hcnt]

/-- A reset disarms the endpoint. -/
theorem armed_reset : armed (resetCalls.foldl UsbLib.call d) = false := by
  have hclear : armed (usbReset d) = false := by
    unfold armed
    split
    · next e he =>
      obtain ⟨e₀, -, rfl⟩ := Option.map_eq_some_iff.mp ((List.getElem?_map ..).symm.trans he)
      rfl
    · rfl
  have hrest : Spared (usbReset d) (resetCalls.tail.foldl UsbLib.call (usbReset d)) :=
    .calls (List.forall_mem_cons.mpr
      ⟨(by decide : (0 : Nat) ≠ 1), List.forall_mem_singleton.mpr (.inl (by decide))⟩)
  exact hrest.same.1.trans hclear

/-- A SET_CONFIGURATION loads nothing. -/
theorem loaded_configure (heps : 1 < d.bdt.length) :
    loaded (setConfigurationCalls.foldl UsbLib.call d) = [] := by
  have hlast : Spared (usbEpTransfStart (usbEpTransfStart (usbInitEp (usbInitEp d 1 epIn) 2 epOut)
      2 usbTrnData0Out ep2BufOut 0) 1 usbTrnData0In ep1BufIn 0)
      (setConfigurationCalls.foldl UsbLib.call d) :=
    Spared.call (c := .transfStart 0 usbTrnData1In ep0BufIn 0) (.inl (by decide))
  rw [hlast.same.2]
  refine (loaded_start ?_ (by decide) 0).trans ?_
  · simpa [usbEpTransfStart, usbInitEp] using heps
  · unfold copyFromBuffer
    split <;> rfl

/-- The device has endpoint 1 and its buffer, and where the IN entry is armed, it is armed with
that buffer and one byte at most. -/
structure Keyed (d : UsbLib) : Prop where
  eps : 1 < d.bdt.length
  room : ∃ buf, d.buffers[ep1BufIn]? = some buf
  inn : ∀ e, d.bdt[1]? = some e → e.inn.owned = true →
    e.inn.addr = ep1BufIn ∧ e.inn.cnt.toNat ≤ 1

/-- A call that arms the IN entry of endpoint 1 with its own buffer, and one byte at most. -/
def OneByte : FirmwareCall → Prop
  | .transfStart num t buf size =>
    num = 1 → t &&& 0x80 ≠ 0 → buf = ep1BufIn ∧ (size = 0 ∨ size = 1)
  | _ => True

private theorem Elsewhere.oneByte (hc : Elsewhere c) : OneByte c := by
  cases c with
  | transfStart num t buf size =>
    intro hnum ht
    rcases hc with hne | hout
    · exact absurd hnum hne
    · exact absurd hout ht
  | _ => trivial

private theorem KeyCalls.oneByte {fw : PicUsbDevice} {ep : BitVec 8} {key : UInt8}
    (h : KeyCalls fw ep key cs) : ∀ c ∈ cs, OneByte c := by
  cases h with
  | press =>
    exact List.forall_mem_cons.mpr
      ⟨trivial, List.forall_mem_singleton.mpr fun _ _ ↦ ⟨rfl, .inr rfl⟩⟩
  | configure =>
    unfold setConfigurationCalls
    refine List.forall_mem_cons.mpr ⟨trivial, List.forall_mem_cons.mpr ⟨trivial,
      List.forall_mem_cons.mpr ⟨nofun, List.forall_mem_cons.mpr ⟨fun _ _ ↦ ⟨rfl, .inl rfl⟩,
        List.forall_mem_singleton.mpr nofun⟩⟩⟩⟩
  | elsewhere _ hc => exact fun c hmem ↦ (hc c hmem).oneByte

namespace Keyed

private theorem same (h : Keyed d) (hbdt : d'.bdt = d.bdt) (hbufs : d'.buffers = d.buffers) :
    Keyed d' := by
  obtain ⟨heps, hroom, hinn⟩ := h
  exact ⟨by rwa [hbdt], by rwa [hbufs], by rwa [hbdt]⟩

/-- A call that arms one byte at most leaves one byte at most to be sent. -/
theorem call (h : Keyed d) (hc : OneByte c) : Keyed (d.call c) := by
  constructor
  · have hlen : (d.call c).bdt.length = d.bdt.length := by
      cases c with
      | transfStart => exact List.length_modify ..
      | initEp => exact List.length_modify ..
      | reset => exact List.length_map ..
      | _ => rfl
    rw [hlen]
    exact h.eps
  · obtain ⟨buf, hbuf⟩ := h.room
    cases c with
    | copyToBuffer bi src size =>
      refine Option.isSome_iff_exists.mp ?_
      show ((copyToBuffer d bi src size).buffers[ep1BufIn]?).isSome = true
      rw [copyToBuffer, List.getElem?_modify, hbuf]
      rfl
    | _ => exact ⟨buf, hbuf⟩
  · intro e he howned
    obtain ⟨e₀, he₀, rfl | ⟨t, buf, size, rfl, rfl⟩ | ⟨-, hzero⟩⟩ := call_entry he
    · exact h.inn e he₀ howned
    · unfold EpBufDsc.start at howned ⊢
      split at howned
      · next ht =>
        rw [if_pos ht]
        obtain ⟨rfl, rfl | rfl⟩ := hc rfl ht
        · exact ⟨rfl, Nat.zero_le _⟩
        · exact ⟨rfl, Nat.le_refl 1⟩
      · next ht =>
        rw [if_neg ht]
        exact h.inn e₀ he₀ howned
    · unfold BdfEntry.owned at howned
      rw [hzero] at howned
      cases howned

/-- Calls that arm one byte at most leave one byte at most to be sent. -/
theorem calls (h : Keyed d) (hc : ∀ c ∈ cs, OneByte c) : Keyed (cs.foldl UsbLib.call d) := by
  induction cs generalizing d with
  | nil => exact h
  | cons c cs ih =>
    exact ih (h.call (hc c List.mem_cons_self)) fun c' hc' ↦ hc c' (List.mem_cons_of_mem _ hc')

/-- A transaction of the host leaves one byte at most to be sent. -/
theorem transfer (h : Keyed d) (houts : OutEntries d) {ep : BitVec 8} {pid : UsbPid}
    {data : List UInt8} {size : Int} {r : Response} (ht : TransferStep d ep pid data size d' r) :
    Keyed d' := by
  constructor
  · have hlen : d'.bdt.length = d.bdt.length := by
      cases ht with
      | quiet hb => rw [hb]
      | out _ _ _ _ _ _ _ hb => rw [hb, List.length_set]
      | inn _ _ _ _ _ _ _ hb => rw [hb, List.length_set]
    rw [hlen]
    exact h.eps
  · have hbuf : d'.buffers[ep1BufIn]? = d.buffers[ep1BufIn]? :=
      houts.buffer ht (by decide) (by decide)
    rw [hbuf]
    exact h.room
  · intro e he howned
    obtain ⟨e₀, he₀, -, -, hback⟩ := ht.entry he
    have hsame := hback howned
    rw [hsame] at howned ⊢
    exact h.inn e₀ he₀ howned

private theorem press (h : Keyed d) {t : BitVec 8} (ht : t &&& 0x80 ≠ 0) (key : UInt8) :
    loaded ([FirmwareCall.copyToBuffer ep1BufIn [key] 1,
      .transfStart 1 t ep1BufIn 1].foldl UsbLib.call d) = [key] := by
  obtain ⟨buf, hbuf⟩ := h.room
  refine (loaded_start (d := copyToBuffer d ep1BufIn [key] 1) h.eps ht 1).trans ?_
  rw [copyFromBuffer, copyToBuffer]
  dsimp only
  rw [List.getElem?_modify_eq, hbuf]
  rfl

/-- One key at most is loaded. -/
theorem length_loaded (h : Keyed d) : (loaded d).length ≤ 1 := by
  unfold loaded copyFromBuffer
  split
  · next e he =>
    split
    · next howned =>
      have hcnt := (h.inn e he howned).2
      split
      · exact Nat.le_trans (List.length_take_le _ _) hcnt
      · exact Nat.zero_le 1
    · exact Nat.zero_le 1
  · exact Nat.zero_le 1

end Keyed

/-- A transaction as endpoint 1 sees it. -/
inductive KeyTransfer (d : UsbLib) (ep : BitVec 8) (pid : UsbPid) (size : Int) (d' : UsbLib)
    (r : Response) : Prop
  | spared : Spared d d' →
      (ep &&& 0x8F = 0x81 → (UsbPid.isData pid && r.isAck) = false ∧ r.bytes = []) →
      KeyTransfer d ep pid size d' r
  | sent : ep &&& 0x8F = 0x81 → r.isAck = true → armed d = true → armed d' = false →
      r.bytes = (loaded d).take size.toNat → KeyTransfer d ep pid size d' r

private theorem Keyed.keyTransfer (h : Keyed d) (houts : OutEntries d) {ep : BitVec 8}
    {pid : UsbPid} {data : List UInt8} {size : Int} {r : Response}
    (ht : TransferStep d ep pid data size d' r) :
    KeyTransfer d ep pid size d' r := by
  have hnum : ep &&& 0x8F = 0x81 ↔ ep &&& 0x80 ≠ 0 ∧ epNumber ep = 1 := by
    have hall : ∀ ep : BitVec 8,
        ep &&& 0x8F = 0x81 ↔ ep &&& 0x80 ≠ 0 ∧ (ep &&& 0x0F).toNat = 1 := by decide
    exact hall ep
  have hbuf : d'.buffers[ep1BufIn]? = d.buffers[ep1BufIn]? :=
    houts.buffer ht (by decide) (by decide)
  cases ht with
  | quiet hb _ hq hnone => exact .spared ⟨by rw [hb], hbuf⟩ fun _ ↦ ⟨hq, hnone⟩
  | @out e _ _ _ hout he _ _ _ _ hb =>
    refine .spared ⟨?_, hbuf⟩ fun hep ↦ absurd hout (hnum.mp hep).1
    rw [hb, List.getElem?_set]
    split
    · next h1 =>
      rw [← h1, he, if_pos (List.getElem?_eq_some_iff.mp he).1]
      rfl
    · rfl
  | @inn e buf sz hpid hin he howned hb₀ hle hsz hb =>
    by_cases h1 : epNumber ep = 1
    · rw [h1] at he hb
      obtain ⟨haddr, -⟩ := h.inn e he howned
      have hloaded : loaded d = buf.data.take e.inn.cnt.toNat := by
        rw [loaded, he]
        dsimp only
        rw [if_pos howned, copyFromBuffer, ← haddr, hb₀]
      refine .sent (hnum.mpr ⟨hin, h1⟩) rfl ?_ ?_ ?_
      · rw [armed, he]
        exact howned
      · rw [armed, hb, List.getElem?_set_self h.eps]
        exact owned_sent e.inn hpid
      · rw [hloaded, List.take_take]
        show buf.data.take sz.toNat = _
        congr 1
        omega
    · refine .spared ⟨?_, hbuf⟩ fun hep ↦ absurd (hnum.mp hep).2 h1
      rw [hb, List.getElem?_set_ne h1]

end Loaded

/-! ### Runs -/

/-- The events of endpoint 1 that are still to be handled. -/
def Running.keyEvents (s : Running) : Nat :=
  s.fw.lib.epQueue.contents.count endpointIn +
    match s.pc with
    | .process ep _ => if ep = endpointIn then 1 else 0
    | _ => 0

/-- The endpoint of the event that is being handled. -/
def Running.handled (s : Running) : Option (BitVec 8) :=
  match s.pc with
  | .process ep _ => some ep
  | _ => none

/-- No key is given up: a bus reset is handled, and a SET_CONFIGURATION taken, only while none is
loaded or about to be read, and whoever reads endpoint 1 takes at least one byte. -/
def KeepsKey (s : Running) : MainEvent → Prop
  | (.top, .reset true) => loaded s.fw.lib = []
  | (.process _, _) => ∀ ep ∈ s.handled, takesSetConfiguration s.fw ep = true →
      loaded s.fw.lib = [] ∧ s.keyEvents = 0
  | (.transfer _ ep _ _ size, .response r) => ep &&& 0x8F = 0x81 → r.isAck = true → 1 ≤ size
  | _ => True

instance (s : Running) (e : MainEvent) : Decidable (KeepsKey s e) := by
  unfold KeepsKey
  split <;> infer_instance

/-- A step as endpoint 1 sees it, with the event `ep` in hand. -/
inductive KeyStep (s : Running) (ep : BitVec 8) (e : MainEvent) (s' : Running) : Prop
  | spared : Spared s.fw.lib s'.fw.lib → MainEvent.keys e = [] → MainEvent.typed ep e = [] →
      s'.keyEvents ≤ s.keyEvents → KeyStep s ep e s'
  | sent {size : Int} : armed s.fw.lib = true → armed s'.fw.lib = false →
      MainEvent.keys e = (loaded s.fw.lib).take size.toNat → MainEvent.typed ep e = [] →
      (KeepsKey s e → 1 ≤ size) → s'.keyEvents ≤ s.keyEvents + 1 → KeyStep s ep e s'
  | typed {key : UInt8} : loaded s'.fw.lib = [key] → MainEvent.keys e = [] →
      MainEvent.typed ep e = [key] → s.keyEvents = s'.keyEvents + 1 → KeyStep s ep e s'
  | dropped : loaded s'.fw.lib = [] → MainEvent.keys e = [] → MainEvent.typed ep e = [] →
      s'.keyEvents ≤ s.keyEvents → (KeepsKey s e → loaded s.fw.lib = [] ∧
        (s.keyEvents = 0 ∨ armed s'.fw.lib = false)) → KeyStep s ep e s'

section Steps

variable {s s' : Running} {e : MainEvent} {es : List MainEvent} {hand ep : BitVec 8} {n : Nat}

private theorem count_push_le (q : Ring (BitVec 8) epQueueSize) (ep : BitVec 8) :
    (q.push ep).contents.count endpointIn ≤
      q.contents.count endpointIn + if ep = endpointIn then 1 else 0 := by
  refine Nat.le_trans ((q.contents_push_sublist ep).count_le _) ?_
  rw [List.count_append, List.count_singleton]
  simp only [beq_iff_eq]
  exact Nat.le_refl _

private theorem keyEvents_transfer {lib : UsbLib} {counted : Bool}
    (hq : lib.epQueue = if counted then s.fw.lib.epQueue.push ep else s.fw.lib.epQueue) :
    ((s.setLib lib).count ep counted).keyEvents ≤
      s.keyEvents + if counted = true ∧ ep = endpointIn then 1 else 0 := by
  have hpc : ((s.setLib lib).count ep counted).pc = s.pc := by
    unfold Running.count
    split <;> rfl
  unfold Running.keyEvents
  rw [hpc, Running.count_fw]
  show lib.epQueue.contents.count endpointIn + _ ≤ _
  rw [hq]
  cases counted with
  | false => exact Nat.le_add_right _ _
  | true =>
    have hpush := count_push_le s.fw.lib.epQueue ep
    simp only [if_true, true_and]
    omega

private theorem KeyStep.process {key : UInt8} {o : MainOut} (hk : Keyed s.fw.lib)
    (hpc : s.pc = .process hand n) {q : Option Nat}
    (hs' : s' = { s with fw := processEvent s.fw hand key, pc := .top, request := q }) :
    KeyStep s hand (.process key, o) s' := by
  subst hs'
  have hq := (processEvent_frame s.fw hand key).1.epQueue
  have hevents : s.keyEvents = ({ s with
      fw := processEvent s.fw hand key, pc := .top, request := q } : Running).keyEvents +
      if hand = endpointIn then 1 else 0 := by
    unfold Running.keyEvents
    rw [hpc, hq]
    rfl
  have htyped : MainEvent.typed hand (.process key, o) = if hand = endpointIn then [key] else [] :=
    rfl
  have hcalls := keyCalls_of_event s.fw hand key
  have hlib := processEvent_lib s.fw hand key
  generalize eventCalls s.fw hand key = calls at hcalls hlib
  cases hcalls with
  | press hep ht =>
    rw [if_pos hep] at hevents htyped
    refine .typed ?_ rfl htyped hevents
    rw [hlib]
    exact hk.press ht key
  | configure hep htakes =>
    rw [if_neg hep] at hevents htyped
    refine .dropped ?_ rfl htyped (Nat.le_of_eq hevents.symm) fun hc ↦ ?_
    · rw [hlib]
      exact loaded_configure hk.eps
    · have hhandled : s.handled = some hand := by
        unfold Running.handled
        rw [hpc]
      obtain ⟨hnone, hzero⟩ := hc hand hhandled htakes
      exact ⟨hnone, .inl hzero⟩
  | elsewhere hep hc =>
    rw [if_neg hep] at hevents htyped
    refine .spared ?_ rfl htyped (Nat.le_of_eq hevents.symm)
    rw [hlib]
    exact .calls hc

private theorem keyStep_of_exec (hk : Keyed s.fw.lib) (houts : OutEntries s.fw.lib)
    (hhand : ∀ ep n, s.pc = .process ep n → hand = ep) (h : MainStep s e s') :
    KeyStep s hand e s' := by
  cases h with
  | @busReset lib r ht =>
    have hq := usbTransfer_epQueue ht
    cases hk.keyTransfer houts (transferStep_of_transfer ht) with
    | spared hspared _ =>
      refine .spared hspared rfl rfl ?_
      unfold Running.keyEvents
      show lib.epQueue.contents.count endpointIn + _ ≤ _
      rw [hq]
      exact Nat.le_refl _
    | sent hep => cases hep
  | @transfer addr ep pid data size lib r hpid ht =>
    have hevents := keyEvents_transfer (s := s) (usbTransfer_epQueue ht)
    cases hk.keyTransfer houts (transferStep_of_transfer ht) with
    | spared hspared hquiet =>
      refine .spared ?_ ?_ rfl (Nat.le_trans hevents ?_)
      · rwa [Running.count_fw]
      · show (if ep &&& 0x8F = 0x81 then r.bytes else []) = []
        split
        · next hep => exact (hquiet hep).2
        · rfl
      · rw [if_neg]
        · exact Nat.le_refl _
        · rintro ⟨hcounted, rfl⟩
          rw [(hquiet rfl).1] at hcounted
          cases hcounted
    | sent hep hack harmed hafter hbytes =>
      refine @KeyStep.sent s hand _ _ size harmed ?_ ?_ rfl (fun hc ↦ hc hep hack)
        (Nat.le_trans hevents ?_)
      · rwa [Running.count_fw]
      · exact (if_pos hep).trans hbytes
      · split <;> omega
  | reset hpc hreset =>
    have hafter : armed (resetCalls.foldl UsbLib.call { s.fw.lib with reset := false }) = false :=
      armed_reset
    refine .dropped (loaded_of_not_armed hafter) rfl rfl ?_ fun hc ↦ ⟨hc, .inr hafter⟩
    unfold Running.keyEvents
    rw [hpc]
    exact Nat.le_refl _
  | pass hpc =>
    refine .spared ⟨rfl, rfl⟩ rfl rfl ?_
    unfold Running.keyEvents
    rw [hpc]
    exact Nat.le_refl _
  | idle hpc hlib =>
    subst hlib
    refine .spared ⟨rfl, rfl⟩ rfl rfl ?_
    unfold Running.keyEvents
    rw [hpc]
    exact Nat.le_refl _
  | @event ep n hpc hne hep hn =>
    refine .spared ⟨rfl, rfl⟩ rfl rfl ?_
    unfold Running.keyEvents
    rw [hpc, Ring.contents_pop _ hne, List.count_cons, ← hep]
    simp only [beq_iff_eq]
    exact Nat.le_refl _
  | @addressed ep n key hpc =>
    obtain rfl := hhand ep n hpc
    exact .process hk hpc rfl
  | @requested ep n key hpc =>
    obtain rfl := hhand ep n hpc
    exact .process hk hpc rfl
  | @processed ep n key hpc =>
    obtain rfl := hhand ep n hpc
    exact .process hk hpc (q := s.request) rfl

/-- The library of a run, and the event in hand. -/
theorem MainRun.keyed (h : MainRun es s) :
    Keyed s.fw.lib ∧ ∀ ep n, s.pc = .process ep n → eventInHand es = ep := by
  refine Run.invariant (P := fun es s ↦ Keyed s.fw.lib ∧
    ∀ ep n, s.pc = .process ep n → eventInHand es = ep) ?_ ?_ h
  · refine ⟨⟨by decide, ⟨_, rfl⟩, fun e he howned ↦ ?_⟩, nofun⟩
    obtain rfl : e = ⟨.zero, .zero⟩ := (List.mem_replicate.mp (List.mem_of_getElem? he)).2
    cases howned
  · rintro es s ⟨op, o⟩ s' hrun ⟨hk, hhand⟩ hfire
    have houts := (MainRun.offers hrun).outs
    have hprocess : ∀ ep key, Keyed (processEvent s.fw ep key).lib := by
      intro ep key
      rw [processEvent_lib]
      exact hk.calls (keyCalls_of_event s.fw ep key).oneByte
    rw [eventInHand_snoc]
    cases mainStep_of_exec hfire with
    | busReset ht => exact ⟨hk.transfer houts (transferStep_of_transfer ht), hhand⟩
    | @transfer addr ep pid data size lib r hpid ht =>
      refine ⟨?_, fun ep' n hpc ↦ hhand ep' n ?_⟩
      · rw [Running.count_fw]
        exact hk.transfer houts (transferStep_of_transfer ht)
      · unfold Running.count at hpc
        split at hpc <;> exact hpc
    | reset =>
      have hflag : Keyed { s.fw.lib with reset := false } := hk.same rfl rfl
      have hcalls : ∀ c ∈ resetCalls, OneByte c :=
        List.forall_mem_cons.mpr ⟨trivial, List.forall_mem_cons.mpr ⟨trivial,
          List.forall_mem_singleton.mpr nofun⟩⟩
      exact ⟨hflag.calls hcalls, nofun⟩
    | pass => exact ⟨hk.same rfl rfl, nofun⟩
    | idle _ hlib => exact ⟨hk.same (by rw [hlib]; rfl) (by rw [hlib]; rfl), nofun⟩
    | event =>
      refine ⟨hk.same rfl rfl, fun ep n hpc ↦ ?_⟩
      cases hpc
      rfl
    | addressed => exact ⟨hprocess _ _, nofun⟩
    | requested => exact ⟨hprocess _ _, nofun⟩
    | processed => exact ⟨hprocess _ _, nofun⟩

private theorem KeyStep.sublist (h : KeyStep s hand e s') :
    (MainEvent.keys e ++ loaded s'.fw.lib).Sublist (loaded s.fw.lib ++ MainEvent.typed hand e) := by
  cases h with
  | spared hspared hkeys htyped =>
    rw [hkeys, htyped, hspared.same.2, List.nil_append, List.append_nil]
  | sent _ hafter hkeys htyped =>
    rw [hkeys, htyped, loaded_of_not_armed hafter, List.append_nil, List.append_nil]
    exact List.take_sublist _ _
  | typed hloaded hkeys htyped =>
    rw [hkeys, htyped, hloaded]
    exact List.sublist_append_right _ _
  | dropped hloaded hkeys =>
    rw [hkeys, hloaded]
    exact List.nil_sublist _

/-- Endpoint 1 never makes a key up, sends one twice or changes their order: the bytes that it sent
and the one that it is armed with are some of the keys read for it, in their order. -/
theorem MainRun.keys_sublist (h : MainRun es s) :
    (keysSent es ++ loaded s.fw.lib).Sublist (keysTyped es) := by
  refine Run.invariant (P := fun es s ↦ (keysSent es ++ loaded s.fw.lib).Sublist (keysTyped es))
    ?_ ?_ h
  · exact List.nil_sublist _
  · rintro es s e s' hrun ih hfire
    obtain ⟨hk, hhand⟩ := MainRun.keyed hrun
    have hstep := keyStep_of_exec hk (MainRun.offers hrun).outs hhand (mainStep_of_exec hfire)
    rw [keysSent_snoc, keysTyped_snoc, List.append_assoc]
    refine (hstep.sublist.append_left (keysSent es)).trans ?_
    rw [← List.append_assoc]
    exact ih.append_right _

/-- One key at most is under way. -/
def OneKey (s : Running) : Prop := (armed s.fw.lib).toNat + s.keyEvents ≤ 1

private theorem KeyStep.exact (h : KeyStep s hand e s') (hone : OneKey s) (hk : Keyed s.fw.lib)
    (hc : KeepsKey s e) :
    MainEvent.keys e ++ loaded s'.fw.lib = loaded s.fw.lib ++ MainEvent.typed hand e ∧
      OneKey s' := by
  have hbit := Bool.toNat_le (armed s'.fw.lib)
  unfold OneKey at hone ⊢
  cases h with
  | spared hspared hkeys htyped hevents =>
    rw [hkeys, htyped, hspared.same.1, hspared.same.2, List.nil_append, List.append_nil]
    exact ⟨rfl, by omega⟩
  | @sent size harmed hafter hkeys htyped hsize hevents =>
    have hlen := hk.length_loaded
    have hroom := hsize hc
    rw [harmed, Bool.toNat_true] at hone
    rw [hkeys, htyped, hafter, loaded_of_not_armed hafter, List.append_nil, List.append_nil,
      Bool.toNat_false]
    exact ⟨List.take_of_length_le (by omega), by omega⟩
  | typed hloaded hkeys htyped hevents =>
    have hnot : armed s.fw.lib = false := by
      cases harmed : armed s.fw.lib with
      | false => rfl
      | true =>
        rw [harmed, Bool.toNat_true] at hone
        omega
    rw [hkeys, htyped, hloaded, loaded_of_not_armed hnot]
    exact ⟨rfl, by omega⟩
  | dropped hloaded hkeys htyped hevents hdrop =>
    obtain ⟨hnone, hfew⟩ := hdrop hc
    rw [hkeys, htyped, hloaded, hnone]
    refine ⟨rfl, ?_⟩
    rcases hfew with hzero | hafter
    · omega
    · rw [hafter, Bool.toNat_false]
      omega

/-- Where no key is given up, those read for endpoint 1 are accounted for. -/
theorem MainRun.keys_account (h : Run (Guarded (Fires mainExec) KeepsKey) runningInit es s) :
    keysTyped es = keysSent es ++ loaded s.fw.lib ∧ OneKey s := by
  refine Run.invariant (P := fun es s ↦ keysTyped es = keysSent es ++ loaded s.fw.lib ∧ OneKey s)
    ⟨rfl, by unfold OneKey; decide⟩ ?_ h
  rintro es s e s' hrun ⟨ih, hone⟩ ⟨hfire, hc⟩
  have hmain : MainRun es s := hrun.unguarded
  obtain ⟨hk, hhand⟩ := hmain.keyed
  have hstep := keyStep_of_exec hk hmain.offers.outs hhand (mainStep_of_exec hfire)
  obtain ⟨hkeys, hone'⟩ := hstep.exact hone hk hc
  refine ⟨?_, hone'⟩
  rw [keysSent_snoc, keysTyped_snoc, List.append_assoc, hkeys, ih, List.append_assoc]

/-- No key is lost where none is given up: then the keys read for endpoint 1 are those it sent,
and the one it is armed with if there is one. -/
theorem MainRun.keys_all (h : Run (Guarded (Fires mainExec) KeepsKey) runningInit es s) :
    keysTyped es = keysSent es ++ loaded s.fw.lib := (MainRun.keys_account h).1

end Steps

-- The device is configured, and two keys are read for endpoint 1: the first is sent, and the
-- second waits.
private def keyOps : List MainOp :=
  [.busReset, .top, .poll, .transfer 0 0 .setup [0, 9, 1, 0, 0, 0, 0, 0] 8, .top, .poll,
    .process 0, .transfer 0 0x81 .data0 [] 1, .top, .poll, .process 97,
    .transfer 0 0x81 .data0 [] 64, .top, .poll, .process 98]

/-- One key is read by the host and a second one lies armed. -/
theorem MainRun.keys_all_two : ∃ es s,
    Run (Guarded (Fires mainExec) KeepsKey) runningInit es s ∧ keysSent es = [97] ∧
    keysTyped es = keysSent es ++ loaded s.fw.lib := by
  have hcheck : runsTo (guardedExec mainExec KeepsKey .blocked) runningInit keyOps
      (fun _ es ↦ decide (keysSent es = [97])) = true := by decide +kernel
  obtain ⟨es, s, hrun, hp⟩ := Run.of_runsTo hcheck
  have hrun' := Run.of_guardedExec hrun
  exact ⟨es, s, hrun', of_decide_eq_true hp, MainRun.keys_all hrun'⟩

end BiMpp.Firmware
