import BiMpp.Device.Packet

/-!
# What an armed entry takes

The toggle check of `__usb_transfer`, and the size that `usb_ep_transf_start` has put into an
entry: `bi-mpp-pic24-usb-simulator-master/src/usb_lib_usbip.c:124–135,243–297`.
-/

namespace BiMpp.Device
open BiMpp.Usb BiMpp.Base

/-! ### An armed entry -/

/-- The endpoint number in an endpoint address; `usb_lib_usbip.c:234`. -/
def epNumber (ep : BitVec 8) : Nat := (ep &&& 0x0F).toNat

/-- The library when it looks at the endpoint's entry: a SETUP packet has disabled packets by
then; `usb_lib_usbip.c:250–251`. -/
def UsbLib.seen (d : UsbLib) (pid : UsbPid) : UsbLib :=
  if pid = .setup then { d with pktdis := true } else d

/-- The library with `sz` bytes of a packet stored, counted and reported;
`usb_lib_usbip.c:271–274`. -/
def UsbLib.stored (d : UsbLib) (ep : BitVec 8) (pid : UsbPid) (b : EpBufDsc) (buf : Buffer)
    (data : List UInt8) (sz : Int) : UsbLib :=
  notifyEp { d with
    buffers := d.buffers.set b.out.addr { buf with data := writeAt buf.data 0 (data.take sz.toNat) }
    bdt := d.bdt.set (epNumber ep) { b with out := b.out.received pid sz } } ep

section Seen

variable (d : UsbLib) (pid : UsbPid)

/-- Noting a SETUP leaves the descriptor table. -/
@[simp] theorem UsbLib.seen_bdt : (d.seen pid).bdt = d.bdt := by
  unfold seen
  split <;> rfl

/-- Noting a SETUP leaves the buffers. -/
@[simp] theorem UsbLib.seen_buffers : (d.seen pid).buffers = d.buffers := by
  unfold seen
  split <;> rfl

/-- Noting a SETUP leaves the event queue. -/
@[simp] theorem UsbLib.seen_epQueue : (d.seen pid).epQueue = d.epQueue := by
  unfold seen
  split <;> rfl

end Seen

/-- The guard lets a packet through to an enabled device that has this address and this
endpoint. -/
theorem UsbLib.refuses_eq_false {d : UsbLib} {addr : Int} {n : Nat} (hen : d.usben = true)
    (hdis : d.pktdis = false) (haddr : addr = d.u1addr.toInt) (hn : n < d.bdt.length) :
    d.refuses addr n = false := by
  have hsize : ¬ d.bdtSize ≤ n := by
    rw [bdtSize]
    omega
  simp [refuses, hen, hdis, haddr, hsize]

section Entry

variable {d : UsbLib} {addr size : Int} {ep : BitVec 8} {pid : UsbPid} {data : List UInt8}
  {b : EpBufDsc} {buf : Buffer}

/-- A data packet that the guard lets through, to an entry that does not stop a SETUP. -/
theorem usbTransfer_data (hpid : UsbPid.isData pid = true)
    (href : d.refuses addr (epNumber ep) = false) (hb : d.bdt[epNumber ep]? = some b)
    (hsetup : pid = .setup → b.out.owned = true) :
    usbTransfer d addr ep pid data size =
      if ep &&& 0x80 = 0 then outTransfer (d.seen pid) ep (epNumber ep) pid data size
      else inTransfer (d.seen pid) ep (epNumber ep) pid size := by
  unfold epNumber at href hb
  simp only [usbTransfer, href, Bool.false_eq_true, if_false]
  cases pid with
  | setup =>
    simp only [hb, hsetup rfl, Bool.not_true, Bool.false_eq_true, if_false]
    rfl
  | data0 => rfl
  | data1 => rfl
  | sof => cases hpid
  | reset => cases hpid

/-- A packet for an endpoint that the table does not have is looked up outside it. -/
theorem usbTransfer_outside (hpid : UsbPid.isData pid = true)
    (href : d.refuses addr (epNumber ep) = false) (hb : d.bdt[epNumber ep]? = none) :
    usbTransfer d addr ep pid data size = .error .badPointer := by
  unfold epNumber at href hb
  simp only [usbTransfer, href, Bool.false_eq_true, if_false]
  cases pid with
  | setup => simp only [hb]
  | data0 => simp only [outTransfer, inTransfer, hb, ite_self]
  | data1 => simp only [outTransfer, inTransfer, hb, ite_self]
  | sof => cases hpid
  | reset => cases hpid

/-- An armed OUT entry refuses a packet with a toggle it takes for wrong and one that is too
long for its buffer, and stores any other as far as `cnt` goes. -/
theorem outTransfer_owned (hb : d.bdt[epNumber ep]? = some b) (howned : b.out.owned = true)
    (hbuf : d.buffers[b.out.addr]? = some buf) :
    outTransfer d ep (epNumber ep) pid data size =
      if b.out.wrongToggle pid = true ∨ buf.size < size then .ok (d, .err)
      else .ok (d.stored ep pid b buf data (min (b.out.cnt.toNat : Int) size),
        .ack (min (b.out.cnt.toNat : Int) size) []) := by
  unfold outTransfer
  simp only [hb, howned, hbuf, Bool.not_true, Bool.false_eq_true, if_false]
  by_cases htoggle : b.out.wrongToggle pid = true
  · simp only [htoggle, if_true, true_or]
  · by_cases hsize : buf.size < size
    · simp only [htoggle, if_false, hsize, if_true, or_true, Bool.false_eq_true]
    · simp only [htoggle, if_false, hsize, or_self, Bool.false_eq_true]
      rfl

/-- An armed IN entry refuses if it has more to send than its buffer holds, and sends what it
has as far as it is asked for. -/
theorem inTransfer_owned (hb : d.bdt[epNumber ep]? = some b) (howned : b.inn.owned = true)
    (hbuf : d.buffers[b.inn.addr]? = some buf) :
    inTransfer d ep (epNumber ep) pid size =
      if buf.size < (b.inn.cnt.toNat : Int) then .ok (d, .err)
      else .ok (notifyEp { d with
          bdt := d.bdt.set (epNumber ep) { b with inn := b.inn.sent pid } } ep,
        .ack (min (b.inn.cnt.toNat : Int) size)
          (buf.data.take (min (b.inn.cnt.toNat : Int) size).toNat)) := by
  unfold inTransfer
  simp only [hb, howned, hbuf, Bool.not_true, Bool.false_eq_true, if_false]

end Entry

/-! ### The toggle check -/

/-- The toggle of a packet, SETUP counting as DATA0. -/
def UsbPid.toggle : UsbPid → Bool
  | .data1 => true
  | _ => false

/-- The toggle an entry expects: bit 6 of `stat`; `usb_lib.h:55–58`. -/
def BdfEntry.expected (b : BdfEntry) : Bool := b.stat &&& 0x40 != 0

/-- A SETUP, DATA0 or DATA1 packet to an OUT endpoint of an enabled device, armed with toggle
synchronisation on, that fits the buffer. -/
structure Presented (d : UsbLib) (addr : Int) (ep : BitVec 8) (pid : UsbPid) (data : List UInt8)
    (b : EpBufDsc) (buf : Buffer) : Prop where
  usben : d.usben = true
  pktdis : d.pktdis = false
  addr : addr = d.u1addr.toInt
  isData : UsbPid.isData pid = true
  dir : ep &&& 0x80 = 0
  entry : d.bdt[epNumber ep]? = some b
  owned : b.out.owned = true
  synchronised : b.out.stat &&& 0x08 ≠ 0
  buffer : d.buffers[b.out.addr]? = some buf
  fits : (data.length : Int) ≤ buf.size

/-- The whole packet is stored, counted, reported and acknowledged. -/
structure Taken (d : UsbLib) (ep : BitVec 8) (data : List UInt8) (b : EpBufDsc) (buf : Buffer)
    (d' : UsbLib) (r : Response) : Prop where
  ack : r = .ack data.length []
  stored : d'.buffers =
    d.buffers.set b.out.addr { buf with data := writeAt buf.data 0 data }
  counted : ∃ b', d'.bdt[epNumber ep]? = some b' ∧ b'.out.cnt.toNat = data.length
  reported : d'.epQueue = d.epQueue.push ep

/-- The call returns without ACK, and the endpoint's buffer, `out.cnt`, `out.stat` and the
event queue are unchanged. -/
structure Untouched (d : UsbLib) (ep : BitVec 8) (b : EpBufDsc) (d' : UsbLib) (r : Response) :
    Prop where
  noack : r.isAck = false
  buffer : d'.buffers[b.out.addr]? = d.buffers[b.out.addr]?
  entry : ∃ b', d'.bdt[epNumber ep]? = some b' ∧ b'.out.cnt = b.out.cnt ∧ b'.out.stat = b.out.stat
  queue : d'.epQueue = d.epQueue

/-- The packet is taken if its toggle is the expected one, and leaves all as it was if not. -/
def ChecksToggle (d : UsbLib) (addr : Int) (ep : BitVec 8) (pid : UsbPid) (data : List UInt8)
    (b : EpBufDsc) (buf : Buffer) : Prop :=
  ∃ d' r, usbTransfer d addr ep pid data data.length = .ok (d', r) ∧
    if UsbPid.toggle pid = b.out.expected then Taken d ep data b buf d' r
    else Untouched d ep b d' r

/-- The check compares bit 0 of `stat`, and only for SETUP and DATA0. -/
theorem BdfEntry.wrongToggle_iff {b : BdfEntry} {pid : UsbPid} (hpid : UsbPid.isData pid = true)
    (hsync : b.stat &&& 0x08 ≠ 0) :
    b.wrongToggle pid = true ↔ UsbPid.toggle pid = false ∧ b.stat &&& 1 ≠ 0 := by
  have hbit : b.stat &&& 8#8 ≠ 0#8 := hsync
  unfold wrongToggle
  cases pid with
  | setup => simp [hbit, data0Bit, UsbPid.toggle]
  | data0 => simp [hbit, data0Bit, UsbPid.toggle]
  | data1 => simp [data0Bit, UsbPid.toggle]
  | sof => cases hpid
  | reset => cases hpid

namespace Presented

variable {d : UsbLib} {addr : Int} {ep : BitVec 8} {pid : UsbPid} {data : List UInt8}
  {b : EpBufDsc} {buf : Buffer}

private theorem transfer (h : Presented d addr ep pid data b buf) :
    usbTransfer d addr ep pid data data.length =
      if b.out.wrongToggle pid = true then .ok (d.seen pid, .err)
      else .ok ((d.seen pid).stored ep pid b buf data (min (b.out.cnt.toNat : Int) data.length),
        .ack (min (b.out.cnt.toNat : Int) data.length) []) := by
  have hlt : epNumber ep < d.bdt.length := (List.getElem?_eq_some_iff.mp h.entry).1
  have href := UsbLib.refuses_eq_false h.usben h.pktdis h.addr hlt
  have hfits : ¬ buf.size < (data.length : Int) := Int.not_lt.mpr h.fits
  rw [usbTransfer_data h.isData href h.entry (fun _ ↦ h.owned), if_pos h.dir,
    outTransfer_owned (by rw [UsbLib.seen_bdt, h.entry]) h.owned
      (by rw [UsbLib.seen_buffers, h.buffer])]
  simp only [hfits, or_false]

private theorem taken (h : Presented d addr ep pid data b buf)
    (hcnt : data.length ≤ b.out.cnt.toNat) : Taken d ep data b buf
    ((d.seen pid).stored ep pid b buf data (min (b.out.cnt.toNat : Int) data.length))
    (.ack (min (b.out.cnt.toNat : Int) data.length) []) := by
  have hlt : epNumber ep < d.bdt.length := (List.getElem?_eq_some_iff.mp h.entry).1
  have hmin : min (b.out.cnt.toNat : Int) data.length = data.length := by omega
  rw [hmin]
  constructor
  · rfl
  · simp [UsbLib.stored, notifyEp]
  · refine ⟨{ b with out := b.out.received pid data.length }, ?_, ?_⟩
    · simp [UsbLib.stored, notifyEp, hlt]
    · have hbyte := b.out.cnt.isLt
      show (BitVec.ofInt 8 (data.length : Int)).toNat = data.length
      rw [BitVec.toNat_ofInt]
      omega
  · simp [UsbLib.stored, notifyEp]

private theorem untouched (h : Presented d addr ep pid data b buf) :
    Untouched d ep b (d.seen pid) .err := by
  constructor
  · rfl
  · rw [UsbLib.seen_buffers]
  · exact ⟨b, by rw [UsbLib.seen_bdt, h.entry], rfl, rfl⟩
  · rw [UsbLib.seen_epQueue]

/-- The device does right exactly by the expected packets that the toggle check has no reason to
refuse and that are no longer than `out.cnt`, and by the unexpected ones that the check refuses
all the same: those with toggle 0 on an entry with bit 0 of `stat` set. -/
theorem checksToggle_iff (h : Presented d addr ep pid data b buf) :
    ChecksToggle d addr ep pid data b buf ↔
      if UsbPid.toggle pid = b.out.expected then
        (UsbPid.toggle pid = true ∨ b.out.stat &&& 1 = 0) ∧ data.length ≤ b.out.cnt.toNat
      else UsbPid.toggle pid = false ∧ b.out.stat &&& 1 ≠ 0 := by
  have hwrong := BdfEntry.wrongToggle_iff h.isData h.synchronised
  have hright : UsbPid.toggle pid = true ∨ b.out.stat &&& 1 = 0 ↔
      ¬ b.out.wrongToggle pid = true := by
    rw [hwrong]
    cases UsbPid.toggle pid <;> simp
  rw [hright, ← hwrong]
  unfold ChecksToggle
  rw [h.transfer]
  by_cases hexp : UsbPid.toggle pid = b.out.expected
  · simp only [if_pos hexp]
    by_cases hw : b.out.wrongToggle pid = true
    · simp only [hw, if_true, not_true, false_and, iff_false]
      rintro ⟨d', r, he, ht⟩
      cases he
      cases ht.ack
    · rw [if_neg hw]
      refine Iff.trans ?_ (and_iff_right hw).symm
      constructor
      · rintro ⟨d', r, he, ht⟩
        cases he
        have hmin : min (b.out.cnt.toNat : Int) data.length = data.length := by
          injection ht.ack
        have hle := Int.min_le_left (b.out.cnt.toNat : Int) data.length
        omega
      · intro hcnt
        exact ⟨_, _, rfl, h.taken hcnt⟩
  · simp only [if_neg hexp]
    by_cases hw : b.out.wrongToggle pid = true
    · simp only [hw, if_true, iff_true]
      exact ⟨_, _, rfl, h.untouched⟩
    · rw [if_neg hw]
      refine iff_of_false ?_ hw
      rintro ⟨d', r, he, ht⟩
      cases he
      cases ht.noack

private def awaitsData1 : UsbLib :=
  usbEpTransfStart (usbEnable (usbInit 1 [⟨8, List.replicate 8 0⟩])) 0 0x48 0 8

private theorem presented_data (pid : UsbPid) (hpid : UsbPid.isData pid = true) :
    Presented awaitsData1 0 0 pid [7] ⟨⟨8, 0xC8, 0⟩, .zero⟩ ⟨8, List.replicate 8 0⟩ where
  usben := rfl
  pktdis := rfl
  addr := by decide
  isData := hpid
  dir := by decide
  entry := by decide
  owned := by decide
  synchronised := by decide
  buffer := by decide
  fits := by decide

/-- A byte presented as DATA1 to an endpoint that awaits it is stored and counted. -/
theorem checksToggle_iff_example :
    Presented awaitsData1 0 0 .data1 [7] ⟨⟨8, 0xC8, 0⟩, .zero⟩ ⟨8, List.replicate 8 0⟩ ∧
      ChecksToggle awaitsData1 0 0 .data1 [7] ⟨⟨8, 0xC8, 0⟩, .zero⟩ ⟨8, List.replicate 8 0⟩ :=
  ⟨presented_data .data1 rfl, (presented_data .data1 rfl).checksToggle_iff.mpr (by decide)⟩

/-- A DATA0 packet is acknowledged by an endpoint that expects DATA1. -/
theorem duplicate_taken : ¬ ∀ d addr ep pid data b buf, Presented d addr ep pid data b buf →
    ChecksToggle d addr ep pid data b buf := by
  intro hall
  have hp := presented_data .data0 rfl
  obtain ⟨d', r, he, ht⟩ := hall _ _ _ _ _ _ _ hp
  rw [hp.transfer, if_neg (by decide)] at he
  rw [if_neg (by decide)] at ht
  cases he
  cases ht.noack

end Presented

/-! ### The size of an armed entry -/

/-- The endpoint address that a transfer type arms. -/
def armedEp (num : Fin 16) (transferType : BitVec 8) : BitVec 8 :=
  if transferType &&& 0x80 ≠ 0 then inEp num else outEp num

/-- A declared endpoint of an enabled device, a declared buffer, a size that it holds and ten
bits hold, and a packet for it: an IN token, or an OUT packet with the expected toggle that
fits the buffer. -/
structure Arming (d : UsbLib) (num : Fin 16) (transferType : BitVec 8) (bi : BufPtr)
    (buf : Buffer) (size : Int) (pid : UsbPid) (data : List UInt8) : Prop where
  usben : d.usben = true
  declared : num.val < d.bdt.length
  buffer : d.buffers[bi]? = some buf
  size_nonneg : 0 ≤ size
  size_le : size ≤ min buf.size 1023
  token : transferType &&& 0x80 ≠ 0 → pid = .data0 ∨ pid = .data1
  packet : transferType &&& 0x80 = 0 → UsbPid.isData pid = true ∧
    UsbPid.toggle pid = (transferType &&& 0x40 != 0) ∧ (data.length : Int) ≤ buf.size

/-- After `usb_ep_transf_start` the toggle and synchronisation bits are those of the type, and
the packet moves the first `min(size, n)` bytes and says so, to the host's buffer of `n` bytes
or from the packet's `n` bytes into the endpoint's buffer. -/
def AgreesOnSize (d : UsbLib) (num : Fin 16) (transferType : BitVec 8) (bi : BufPtr)
    (buf : Buffer) (size : Int) (pid : UsbPid) (data : List UInt8) : Prop :=
  let armed := usbEpTransfStart d num transferType bi size
  let moved := min size (data.length : Int)
  (BdfEntry.start transferType bi size).stat &&& 0x48 = transferType &&& 0x48 ∧
    ∃ d' r, usbTransfer armed d.u1addr.toInt (armedEp num transferType) pid data data.length =
        .ok (d', r) ∧
      if transferType &&& 0x80 ≠ 0 then r = .ack moved (buf.data.take moved.toNat)
      else r = .ack moved [] ∧
        d'.buffers = d.buffers.set bi
          { buf with data := writeAt buf.data 0 (data.take moved.toNat) } ∧
        ∃ b, d'.bdt[num.val]? = some b ∧ (b.out.cnt.toNat : Int) = moved

/-- Eight bits hold the size, or what is moved is less than they hold; and an OUT entry with
toggle synchronisation has bit 0 of `stat` clear, or the packet is a DATA1. -/
def SizeKept (transferType : BitVec 8) (size : Int) (pid : UsbPid) (n : Nat) : Prop :=
  (size < 256 ∨ (n : Int) ≤ size % 256) ∧
    (transferType &&& 0x80 = 0 → transferType &&& 0x08 ≠ 0 → pid ≠ .data1 →
      transferType &&& 1 = 0 ∧ size / 256 % 2 = 0)

private theorem toNat_min_cnt (c : BitVec 8) (n : Nat) :
    ((BitVec.ofInt 8 (min (c.toNat : Int) n)).toNat : Int) = min (c.toNat : Int) n := by
  have hlt := c.isLt
  rw [BitVec.toNat_ofInt]
  omega

section Size

variable {d : UsbLib} {num : Fin 16} {ty : BitVec 8} {bi : BufPtr} {buf : Buffer} {size : Int}
  {pid : UsbPid} {data : List UInt8}

private theorem upper_bits (h0 : 0 ≤ size) (h1 : size ≤ 1023) :
    BitVec.ofInt 8 (size / 256) &&& 0x48 = 0 ∧
      (BitVec.ofInt 8 (size / 256) &&& 1 = 0 ↔ size / 256 % 2 = 0) := by
  have hall : ∀ q : Fin 4, BitVec.ofInt 8 (q.val : Int) &&& 0x48 = 0 ∧
      (BitVec.ofInt 8 (q.val : Int) &&& 1 = 0 ↔ (q.val : Int) % 2 = 0) := by decide
  have hq := hall ⟨(size / 256).toNat, by omega⟩
  have hcast : (((size / 256).toNat : Nat) : Int) = size / 256 := Int.toNat_of_nonneg (by omega)
  dsimp only at hq
  rw [hcast] at hq
  exact hq

private theorem start_stat (m : BitVec 8) (hm : m &&& 0x80 = 0)
    (h : BitVec.ofInt 8 (size / 256) &&& m = 0) :
    (BdfEntry.start ty bi size).stat &&& m = ty &&& m := by
  have h80 : (0x80 : BitVec 8) &&& m = 0 := by rw [BitVec.and_comm, hm]
  show (ty ||| BitVec.ofInt 8 (size / 256) ||| 0x80) &&& m = ty &&& m
  rw [BitVec.and_or_distrib_right, BitVec.and_or_distrib_right, h, h80]
  exact (BitVec.or_zero ..).trans (BitVec.or_zero ..)

private theorem start_cnt :
    ((BdfEntry.start ty bi size).cnt.toNat : Int) = size % 256 := by
  show ((BitVec.ofInt 8 size).toNat : Int) = size % 256
  rw [BitVec.toNat_ofInt]
  omega

private theorem moved_iff (h0 : 0 ≤ size) (n : Nat) :
    min (size % 256) (n : Int) = min size n ↔ size < 256 ∨ (n : Int) ≤ size % 256 := by
  omega

private theorem start_wrongToggle (hpid : UsbPid.isData pid = true) (h0 : 0 ≤ size)
    (h1 : size ≤ 1023) : (BdfEntry.start ty bi size).wrongToggle pid = true ↔
      ty &&& 0x08 ≠ 0 ∧ pid ≠ .data1 ∧ ¬ (ty &&& 1 = 0 ∧ size / 256 % 2 = 0) := by
  obtain ⟨hupper, hlow⟩ := upper_bits h0 h1
  have hzero : BitVec.ofInt 8 (size / 256) &&& 0x08 = 0 := by
    rw [show (0x08 : BitVec 8) = 0x48 &&& 0x08 by decide, ← BitVec.and_assoc, hupper]
    decide
  have hsync : (BdfEntry.start ty bi size).stat &&& 0x08 = ty &&& 0x08 :=
    start_stat 0x08 (by decide) hzero
  have hbit : (BdfEntry.start ty bi size).stat &&& 1 = 0 ↔ ty &&& 1 = 0 ∧ size / 256 % 2 = 0 := by
    rw [← hlow]
    show (ty ||| BitVec.ofInt 8 (size / 256) ||| 0x80) &&& 1 = 0#8 ↔ _
    rw [BitVec.and_or_distrib_right, BitVec.and_or_distrib_right, BitVec.or_eq_zero_iff,
      BitVec.or_eq_zero_iff]
    exact and_iff_left (by decide)
  by_cases hs : ty &&& 0x08 = 0
  · constructor
    · intro hw
      rw [BdfEntry.wrongToggle, hsync, hs] at hw
      cases hw
    · rintro ⟨hne, -⟩
      exact (hne hs).elim
  · rw [BdfEntry.wrongToggle_iff hpid (by rw [hsync]; exact hs), Ne, hbit]
    have htoggle : UsbPid.toggle pid = false ↔ pid ≠ .data1 := by
      cases pid <;> simp [UsbPid.toggle]
    rw [htoggle]
    exact (and_iff_right hs).symm

namespace Arming

private theorem entry (h : Arming d num ty bi buf size pid data) :
    ∃ e : EpBufDsc,
      (usbEpTransfStart d num ty bi size).bdt[num.val]? = some (e.start ty bi size) := by
  have hlt := h.declared
  refine ⟨d.bdt[num.val], ?_⟩
  rw [usbEpTransfStart_entry, if_pos rfl, List.getElem?_eq_getElem h.declared]
  rfl

private theorem refuses (h : Arming d num ty bi buf size pid data) :
    (usbEpTransfStart d num ty bi size).refuses d.u1addr.toInt num = false := by
  refine UsbLib.refuses_eq_false h.usben rfl rfl ?_
  simp only [usbEpTransfStart, List.length_modify]
  exact h.declared

private theorem inn (h : Arming d num ty bi buf size pid data) (hty : ty &&& 0x80 ≠ 0) :
    ∃ d', usbTransfer (usbEpTransfStart d num ty bi size) d.u1addr.toInt (inEp num) pid data
      data.length = .ok (d', .ack (min (size % 256) (data.length : Int))
        (buf.data.take (min (size % 256) (data.length : Int)).toNat)) := by
  obtain ⟨e, he⟩ := h.entry
  have hnum : epNumber (inEp num) = num := inEp_number num
  have hpid : UsbPid.isData pid = true := by
    rcases h.token hty with rfl | rfl <;> rfl
  have hsetup : pid ≠ .setup := by
    rcases h.token hty with rfl | rfl <;> nofun
  have hcnt : ((e.start ty bi size).inn.cnt.toNat : Int) = size % 256 := by
    rw [EpBufDsc.start, if_pos hty]
    exact start_cnt
  have howned : (e.start ty bi size).inn.owned = true := by
    rw [EpBufDsc.start, if_pos hty]
    exact owned_start ..
  have hbuf : (usbEpTransfStart d num ty bi size).buffers[(e.start ty bi size).inn.addr]? =
      some buf := by
    rw [EpBufDsc.start, if_pos hty]
    exact h.buffer
  have hroom : ¬ buf.size < size % 256 := by
    have h0 := h.size_nonneg
    have h1 := h.size_le
    omega
  rw [usbTransfer_data hpid (by rw [hnum, h.refuses]) (by rw [hnum, he])
      (fun hp ↦ absurd hp hsetup), if_neg (inEp_dir num), UsbLib.seen, if_neg hsetup,
    inTransfer_owned (by rw [hnum, he]) howned hbuf, hcnt, if_neg hroom]
  exact ⟨_, rfl⟩

private theorem out (h : Arming d num ty bi buf size pid data) (hty : ty &&& 0x80 = 0) :
    ∃ e, (usbEpTransfStart d num ty bi size).bdt[num.val]? = some e ∧
      (e.out.addr = bi ∧ e.out.cnt.toNat = size % 256) ∧
      usbTransfer (usbEpTransfStart d num ty bi size) d.u1addr.toInt (outEp num) pid data
          data.length =
        if (BdfEntry.start ty bi size).wrongToggle pid = true then
          .ok ((usbEpTransfStart d num ty bi size).seen pid, .err)
        else .ok (((usbEpTransfStart d num ty bi size).seen pid).stored (outEp num) pid e buf data
          (min (size % 256) data.length), .ack (min (size % 256) data.length) []) := by
  obtain ⟨e, he⟩ := h.entry
  obtain ⟨hpid, -, hfits⟩ := h.packet hty
  have hnum : epNumber (outEp num) = num := outEp_number num
  have hout : (e.start ty bi size).out = .start ty bi size := by
    rw [EpBufDsc.start, if_neg fun hne ↦ hne hty]
  have hcnt : ((e.start ty bi size).out.cnt.toNat : Int) = size % 256 := by
    rw [hout]
    exact start_cnt
  have howned : (e.start ty bi size).out.owned = true := by
    rw [hout]
    exact owned_start ..
  have haddr : (e.start ty bi size).out.addr = bi := by
    rw [hout]
    rfl
  have hbuf : (usbEpTransfStart d num ty bi size).buffers[(e.start ty bi size).out.addr]? =
      some buf := by
    rw [haddr]
    exact h.buffer
  have hseen : ((usbEpTransfStart d num ty bi size).seen pid).bdt[epNumber (outEp num)]? =
      some (e.start ty bi size) := by
    rw [UsbLib.seen_bdt, hnum, he]
  have hroom : ¬ buf.size < (data.length : Int) := Int.not_lt.mpr hfits
  refine ⟨e.start ty bi size, he, ⟨haddr, hcnt⟩, ?_⟩
  rw [usbTransfer_data hpid (by rw [hnum, h.refuses]) (by rw [hnum, he]) (fun _ ↦ howned),
    if_pos (outEp_dir num), outTransfer_owned hseen howned (by rw [UsbLib.seen_buffers, hbuf]),
    hcnt, hout]
  simp only [hroom, or_false]

private theorem bits (h : Arming d num ty bi buf size pid data) :
    (BdfEntry.start ty bi size).stat &&& 0x48 = ty &&& 0x48 := by
  have h1 := h.size_le
  exact start_stat 0x48 (by decide) (upper_bits h.size_nonneg (by omega)).1

private theorem stored {lib : UsbLib} {e : EpBufDsc} (he : lib.bdt[num.val]? = some e)
    (hcnt : (e.out.cnt.toNat : Int) = size % 256) :
    ∃ b, (lib.stored (outEp num) pid e buf data (min (size % 256) data.length)).bdt[num.val]? =
      some b ∧ (b.out.cnt.toNat : Int) = min (size % 256) data.length := by
  have hlt : num.val < lib.bdt.length := (List.getElem?_eq_some_iff.mp he).1
  have hnum : epNumber (outEp num) = num := outEp_number num
  refine ⟨{ e with out := e.out.received pid (min (size % 256) data.length) }, ?_, ?_⟩
  · simp [UsbLib.stored, notifyEp, hnum, hlt]
  · rw [← hcnt]
    exact toNat_min_cnt _ _

/-- Arming and transferring agree on the size exactly if the eight bits of `cnt` are enough,
and if no bit of the size is taken for a wrong toggle. -/
theorem agreesOnSize_iff (h : Arming d num ty bi buf size pid data) :
    AgreesOnSize d num ty bi buf size pid data ↔ SizeKept ty size pid data.length := by
  have h0 := h.size_nonneg
  have hle := h.size_le
  have hmoved : min (size % 256) (data.length : Int) = min size data.length ↔ _ :=
    moved_iff h0 data.length
  unfold AgreesOnSize SizeKept
  simp only [h.bits, true_and]
  by_cases hty : ty &&& 0x80 = 0
  · obtain ⟨e, he, ⟨haddr, hcnt⟩, htransfer⟩ := h.out hty
    have hwrong : (BdfEntry.start ty bi size).wrongToggle pid = true ↔ _ :=
      start_wrongToggle (h.packet hty).1 h0 (by omega)
    have hep : armedEp num ty = outEp num := if_neg fun hne ↦ hne hty
    simp only [hep, htransfer, hty, ne_eq, not_true, if_false, true_implies]
    by_cases hw : (BdfEntry.start ty bi size).wrongToggle pid = true
    · obtain ⟨hsync, hpid, hbit⟩ := hwrong.mp hw
      constructor
      · rintro ⟨d', r, hr, hack, -⟩
        rw [if_pos hw] at hr
        cases hr
        cases hack
      · rintro ⟨-, hkept⟩
        exact (hbit (hkept hsync hpid)).elim
    · have hkept : ¬ ty &&& 0x08 = 0 → ¬ pid = .data1 → ty &&& 1 = 0 ∧ size / 256 % 2 = 0 := by
        intro hsync hpid
        by_contra hbit
        exact hw (hwrong.mpr ⟨hsync, hpid, hbit⟩)
      rw [if_neg hw, ← hmoved]
      constructor
      · rintro ⟨d', r, hr, hack, -⟩
        cases hr
        exact ⟨(Response.ack.inj hack).1, hkept⟩
      · rintro ⟨hmin, -⟩
        refine ⟨_, _, rfl, by rw [hmin], ?_, ?_⟩
        · rw [← hmin]
          simp [UsbLib.stored, notifyEp, haddr, usbEpTransfStart]
        · rw [← hmin]
          exact stored (by rw [UsbLib.seen_bdt, he]) hcnt
  · obtain ⟨d', htransfer⟩ := h.inn hty
    have hep : armedEp num ty = inEp num := if_pos hty
    simp only [hep, htransfer, hty, ne_eq, not_false_eq_true, if_true, false_implies, and_true]
    rw [← hmoved]
    constructor
    · rintro ⟨d', r, hr, hack⟩
      cases hr
      exact (Response.ack.inj hack).1
    · intro hmin
      exact ⟨_, _, rfl, by rw [hmin]⟩

private def bulkDevice : UsbLib := usbEnable (usbInit 1 [⟨300, List.replicate 300 1⟩])

private theorem arming_in (size : Int) (h0 : 0 ≤ size) (h1 : size ≤ 300) : Arming bulkDevice 0
    0x88 0 ⟨300, List.replicate 300 1⟩ size .data0 (List.replicate 300 0) where
  usben := rfl
  declared := by decide
  buffer := rfl
  size_nonneg := h0
  size_le := by
    show size ≤ min 300 1023
    omega
  token := fun _ ↦ .inl rfl
  packet := fun h ↦ absurd h (by decide)

/-- 300 bytes armed for an IN endpoint arrive as 300 bytes. -/
theorem agreesOnSize_iff_example : AgreesOnSize bulkDevice 0 0x88 0 ⟨300, List.replicate 300 1⟩
    200 .data0 (List.replicate 300 0) :=
  (arming_in 200 (by decide) (by decide)).agreesOnSize_iff.mpr
    ⟨.inl (by decide), fun h ↦ absurd h (by decide)⟩

/-- An entry armed with 256 bytes sends none. -/
theorem size_lost : ¬ ∀ d num ty bi buf size pid data, Arming d num ty bi buf size pid data →
    AgreesOnSize d num ty bi buf size pid data := by
  intro hall
  have ha := arming_in 256 (by decide) (by decide)
  obtain ⟨-, d', r, hr, hack⟩ := hall _ _ _ _ _ _ _ _ ha
  obtain ⟨d'', h⟩ := ha.inn (by decide)
  rw [armedEp, if_pos (by decide), h] at hr
  rw [if_pos (by decide)] at hack
  cases hr
  have hmin := (Response.ack.inj hack).1
  rw [List.length_replicate] at hmin
  omega

end Arming

end Size

end BiMpp.Device
