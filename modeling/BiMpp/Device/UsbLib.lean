import Mathlib.Algebra.GroupWithZero.Nat
import Mathlib.Logic.Function.Basic
import BiMpp.Base.Ring
import BiMpp.Usb.Bus

/-!
# The device's USB library

`bi-mpp-pic24-usb-simulator-master/src/usb_lib_usbip.c`: the buffer descriptor table,
the packet-disable flag and the event queue shared by the firmware, which arms
endpoints, and `__usb_transfer`, which the host controller calls.

A buffer pointer is an index into the declared buffers, whose size header
`DECLARE_BUFFER` puts in front of the data; `include/usb_lib.h:37–40`.
-/

namespace BiMpp.Device
open BiMpp.Usb BiMpp.Base

/-- A declared buffer. -/
abbrev BufPtr := Nat

/-- `bdf_entry_t`; `usb_lib.h:205–209`. -/
structure BdfEntry where
  cnt : BitVec 8
  stat : BitVec 8
  addr : BufPtr
  deriving DecidableEq, Repr

/-- `ep_buf_dsc_t`; `usb_lib.h:212–216`. -/
structure EpBufDsc where
  out : BdfEntry
  inn : BdfEntry
  deriving DecidableEq, Repr

/-- A buffer with its size header; `usb_lib.h:39`. -/
structure Buffer where
  size : Int
  data : List UInt8
  deriving DecidableEq, Repr

/-- `__ep_QUEUE_SIZE`; `usb_lib_usbip.c:33`. -/
abbrev epQueueSize : Nat := 16

/-- Endpoint numbers and slots of the queue count from zero. -/
instance neZeroSixteen : NeZero 16 := ⟨by decide⟩

/-- The static variables of the library, the table and the buffers;
`usb_lib_usbip.c:37–51`. Endpoint addresses in the queue keep their direction bit. -/
structure UsbLib where
  u1ep : List (BitVec 8)
  u1addr : BitVec 8
  sofif : Bool
  pktdis : Bool
  usben : Bool
  reset : Bool
  epQueue : Ring (BitVec 8) epQueueSize
  bdt : List EpBufDsc
  buffers : List Buffer

/-- `stat & 0x80`: the entry belongs to the library, that is, it is armed. -/
def BdfEntry.owned (b : BdfEntry) : Bool := b.stat &&& 0x80 != 0

/-- `__notify_ep`; `usb_lib_usbip.c:78–84`. -/
def notifyEp (d : UsbLib) (ep : BitVec 8) : UsbLib := { d with epQueue := d.epQueue.push ep }

/-- `is_transfer_done`; `usb_lib_usbip.c:203–205,60–66`. -/
def isTransferDone (d : UsbLib) : Bool := d.epQueue.nonempty

/-- `get_trn_status`; `usb_lib_usbip.c:207–209,68–76`. -/
def getTrnStatus (d : UsbLib) : BitVec 8 × UsbLib :=
  (d.epQueue.pop.1, { d with epQueue := d.epQueue.pop.2 })

/-- A zeroed entry. -/
def BdfEntry.zero : BdfEntry := ⟨0, 0, 0⟩

/-- `clear_all_eps` and the zeroing of the table; `usb_lib_usbip.c:89–91,111–112`. -/
def clearAllEps (d : UsbLib) : UsbLib :=
  { d with
    u1ep := List.replicate 16 0
    bdt := d.bdt.map fun _ ↦ ⟨BdfEntry.zero, BdfEntry.zero⟩ }

/-- `usb_init` on the zeroed statics, with the declared endpoints and buffers;
`usb_lib_usbip.c:86–97`. -/
def usbInit (eps : Nat) (buffers : List Buffer) : UsbLib where
  u1ep := List.replicate 16 0
  u1addr := 0
  sofif := false
  pktdis := false
  usben := false
  reset := false
  epQueue := ⟨0, 0, fun _ ↦ 0⟩
  bdt := List.replicate eps ⟨BdfEntry.zero, BdfEntry.zero⟩
  buffers := buffers

/-- `usb_enable`; `usb_lib_usbip.c:99–101`. -/
def usbEnable (d : UsbLib) : UsbLib := { d with usben := true }

/-- `usb_disable`; `usb_lib_usbip.c:103–105`. -/
def usbDisable (d : UsbLib) : UsbLib := { d with usben := false }

/-- `usb_reset`; `usb_lib_usbip.c:107–113`. -/
def usbReset (d : UsbLib) : UsbLib :=
  clearAllEps { d with pktdis := false, u1addr := 0, sofif := false }

/-- `usb_init_ep`; `usb_lib_usbip.c:115–122`. -/
def usbInitEp (d : UsbLib) (num : Nat) (epType : BitVec 8) : UsbLib :=
  { d with
    bdt := d.bdt.modify num fun e ↦
      ⟨{ e.out with stat := 0, cnt := 0 }, { e.inn with stat := 0, cnt := 0 }⟩
    u1ep := d.u1ep.set num epType }

/-- The armed entry: `size & 0xFF` in `cnt`, the rest of `size` and the ownership bit
with the type in `stat`; `usb_lib_usbip.c:126–132`. -/
def BdfEntry.start (transferType : BitVec 8) (buffer : BufPtr) (size : Int) : BdfEntry where
  cnt := BitVec.ofInt 8 size
  stat := transferType ||| BitVec.ofInt 8 (size / 256) ||| 0x80
  addr := buffer

/-- Arming one entry of an endpoint. -/
def EpBufDsc.start (e : EpBufDsc) (transferType : BitVec 8) (buffer : BufPtr) (size : Int) :
    EpBufDsc :=
  if transferType &&& 0x80 ≠ 0 then { e with inn := .start transferType buffer size }
  else { e with out := .start transferType buffer size }

/-- `usb_ep_transf_start`; `usb_lib_usbip.c:124–135`. -/
def usbEpTransfStart (d : UsbLib) (num : Nat) (transferType : BitVec 8) (buffer : BufPtr)
    (size : Int) : UsbLib :=
  { d with
    bdt := d.bdt.modify num fun e ↦ e.start transferType buffer size
    pktdis := false }

/-- `usb_set_address`; `usb_lib_usbip.c:156–158`. -/
def usbSetAddress (d : UsbLib) (addr : BitVec 8) : UsbLib := { d with u1addr := addr }

/-- `copy_to_buffer`; `usb_lib_usbip.c:161–166`. -/
def copyToBuffer (d : UsbLib) (buf : BufPtr) (src : List UInt8) (size : Nat) : UsbLib :=
  { d with buffers := d.buffers.modify buf fun b ↦
      { b with data := writeAt b.data 0 (src.take size) } }

/-- `copy_from_buffer`; `usb_lib_usbip.c:168–173`. -/
def copyFromBuffer (d : UsbLib) (buf : BufPtr) (size : Nat) : List UInt8 :=
  match d.buffers[buf]? with
  | some b => b.data.take size
  | none => []

/-- `is_reset`; `usb_lib_usbip.c:183–189`. -/
def isReset (d : UsbLib) : Bool × UsbLib := (d.reset, { d with reset := false })

/-- `is_sof`; `usb_lib_usbip.c:195–201`. -/
def isSof (d : UsbLib) : Bool × UsbLib := (d.sofif, { d with sofif := false })

/-- `is_setup`; `usb_lib_usbip.c:211–216`. -/
def isSetup (dir : BitVec 8) (e : EpBufDsc) : Bool :=
  if dir ≠ 0 then false else (e.out.stat >>> 2) &&& 0x0F == 0x0D

/-- `__bdt_size`: the table's size in bytes, twenty for each endpoint. -/
def UsbLib.bdtSize (d : UsbLib) : Nat := 20 * d.bdt.length

/-- The guard of `__usb_transfer`; `usb_lib_usbip.c:239`. -/
def UsbLib.refuses (d : UsbLib) (addr : Int) (epn : Nat) : Bool :=
  !d.usben || decide (d.bdtSize ≤ epn) || decide (addr ≠ d.u1addr.toInt) || d.pktdis

/-- `data0`: set for SETUP and DATA0; `usb_lib_usbip.c:236,256`. -/
def data0Bit : UsbPid → BitVec 8
  | .setup => 0x40
  | .data0 => 0x40
  | _ => 0

/-- The toggle check of an OUT transaction. In C `==` binds tighter than `&`, so the
entry is tested against the truth value of `0x40 == data0`; `usb_lib_usbip.c:263`. -/
def BdfEntry.wrongToggle (b : BdfEntry) (pid : UsbPid) : Bool :=
  b.stat &&& 0x08 != 0 && b.stat &&& (if 0x40 = data0Bit pid then 1 else 0) != 0

/-- The entry after an OUT transaction of `sz` bytes; `usb_lib_usbip.c:272–273`. -/
def BdfEntry.received (b : BdfEntry) (pid : UsbPid) (sz : Int) : BdfEntry :=
  { b with stat := (b.stat &&& 0xC3) ||| (pid.code <<< 2), cnt := BitVec.ofInt 8 sz }

/-- The entry after an IN transaction; `usb_lib_usbip.c:290–291`. -/
def BdfEntry.sent (b : BdfEntry) (pid : UsbPid) : BdfEntry :=
  { b with stat := (b.stat &&& 0x40) ||| (pid.code <<< 2), cnt := 0 }

/-- The OUT branch of `__usb_transfer`; `usb_lib_usbip.c:258–278`. -/
def outTransfer (d : UsbLib) (ep : BitVec 8) (epn : Nat) (pid : UsbPid) (data : List UInt8)
    (size : Int) : Except Fault (UsbLib × Response) :=
  match d.bdt[epn]? with
  | none => .error .badPointer
  | some e =>
    if !e.out.owned then .ok (d, .nak)
    else if e.out.wrongToggle pid then .ok (d, .err)
    else
      match d.buffers[e.out.addr]? with
      | none => .error .badPointer
      | some b =>
        if size > b.size then .ok (d, .err)
        else
          let sz := min (e.out.cnt.toNat : Int) size
          let d := { d with
            buffers := d.buffers.set e.out.addr
              { b with data := writeAt b.data 0 (data.take sz.toNat) }
            bdt := d.bdt.set epn { e with out := e.out.received pid sz } }
          .ok (notifyEp d ep, .ack sz [])

/-- The IN branch of `__usb_transfer`; `usb_lib_usbip.c:279–297`. -/
def inTransfer (d : UsbLib) (ep : BitVec 8) (epn : Nat) (pid : UsbPid) (size : Int) :
    Except Fault (UsbLib × Response) :=
  match d.bdt[epn]? with
  | none => .error .badPointer
  | some e =>
    if !e.inn.owned then .ok (d, .nak)
    else
      match d.buffers[e.inn.addr]? with
      | none => .error .badPointer
      | some b =>
        if (e.inn.cnt.toNat : Int) > b.size then .ok (d, .err)
        else
          let sz := min (e.inn.cnt.toNat : Int) size
          let d := { d with bdt := d.bdt.set epn { e with inn := e.inn.sent pid } }
          .ok (notifyEp d ep, .ack sz (b.data.take sz.toNat))

/-- `__usb_transfer`; `usb_lib_usbip.c:232–300`. The case of SETUP falls through to the
transfer unless endpoint `epn` is not armed; the first two cases return 0, which is
`__RET_ACK`, and touch no data. -/
def usbTransfer (d : UsbLib) (addr : Int) (ep : BitVec 8) (pid : UsbPid) (data : List UInt8)
    (size : Int) : Except Fault (UsbLib × Response) :=
  let epn := (ep &&& 0x0F).toNat
  let transfer (d : UsbLib) :=
    if ep &&& 0x80 = 0 then outTransfer d ep epn pid data size
    else inTransfer d ep epn pid size
  if d.refuses addr epn then .ok (d, .err)
  else
    match pid with
    | .reset => .ok ({ d with reset := true }, .ack 0 [])
    | .sof => .ok ({ d with sofif := true }, .ack 0 [])
    | .setup =>
      let d := { d with pktdis := true }
      match d.bdt[epn]? with
      | none => .error .badPointer
      | some e => if !e.out.owned then .ok (d, .err) else transfer d
    | .data0 => transfer d
    | .data1 => transfer d

/-! ### What the firmware's calls touch -/

section Calls

variable (d : UsbLib) (num i : Nat) (b : BitVec 8) (buf : BufPtr) (size : Int)

/-- Arming an endpoint clears PKTDIS. -/
@[simp] theorem usbEpTransfStart_pktdis :
    (usbEpTransfStart d num b buf size).pktdis = false := rfl

/-- Arming an endpoint leaves the event queue. -/
@[simp] theorem usbEpTransfStart_epQueue :
    (usbEpTransfStart d num b buf size).epQueue = d.epQueue := rfl

/-- `usb_ep_transf_start` writes the entry of its endpoint only. -/
theorem usbEpTransfStart_entry : (usbEpTransfStart d num b buf size).bdt[i]? =
    if num = i then d.bdt[i]?.map fun e ↦ e.start b buf size else d.bdt[i]? := by
  simp only [usbEpTransfStart, List.getElem?_modify]
  split <;> simp

/-- Initialising an endpoint leaves the event queue. -/
@[simp] theorem usbInitEp_epQueue : (usbInitEp d num b).epQueue = d.epQueue := rfl

/-- `usb_init_ep` leaves the entries of the other endpoints. -/
theorem usbInitEp_entry_ne (h : num ≠ i) : (usbInitEp d num b).bdt[i]? = d.bdt[i]? := by
  simp [usbInitEp, h]

/-- An armed entry belongs to the library. -/
@[simp] theorem owned_start : (BdfEntry.start b buf size).owned = true := by
  have hbit : ∀ x : BitVec 8, (x ||| 0x80) &&& 0x80 ≠ 0 := by decide
  rw [BdfEntry.owned, bne_iff_ne]
  exact hbit _

end Calls

/-- Every buffer has room for as many bytes as its header says. -/
def UsbLib.Sized (d : UsbLib) : Prop := ∀ b ∈ d.buffers, b.size ≤ (b.data.length : Int)

private theorem outTransfer_fits {d d' : UsbLib} {ep : BitVec 8} {epn : Nat} {pid : UsbPid}
    {data : List UInt8} {size : Int} {r : Response} (hsize : 0 ≤ size) (n : Int)
    (h : outTransfer d ep epn pid data size = .ok (d', r)) : r.Fits ⟨n, false, pid, size⟩ := by
  unfold outTransfer at h
  split at h
  · exact nomatch h
  · split at h
    · cases h
      trivial
    · split at h
      · cases h
        trivial
      · split at h
        · exact nomatch h
        · split at h
          · cases h
            trivial
          · cases h
            refine ⟨?_, Int.min_le_right _ _, nofun⟩
            omega

private theorem inTransfer_fits {d d' : UsbLib} {ep : BitVec 8} {epn : Nat} {pid : UsbPid}
    {size : Int} {r : Response} (hd : d.Sized) (hsize : 0 ≤ size) (n : Int)
    (h : inTransfer d ep epn pid size = .ok (d', r)) : r.Fits ⟨n, true, pid, size⟩ := by
  unfold inTransfer at h
  split at h
  · exact nomatch h
  · split at h
    · cases h
      trivial
    · split at h
      · exact nomatch h
      · next e _ _ b hb =>
        have hlen := hd b (List.mem_of_getElem? hb)
        split at h
        · cases h
          trivial
        · cases h
          refine ⟨by omega, Int.min_le_right _ _, fun _ ↦ ?_⟩
          rw [List.length_take]
          omega

/-- The device acknowledges no more than it was asked for, and an IN acknowledgement
carries the bytes it counts. -/
theorem usbTransfer_fits {d d' : UsbLib} {addr : Int} {ep : BitVec 8} {pid : UsbPid}
    {data : List UInt8} {size : Int} {r : Response} (hd : d.Sized) (hsize : 0 ≤ size) (n : Int)
    (h : usbTransfer d addr ep pid data size = .ok (d', r)) :
    r.Fits ⟨n, ep &&& 0x80 != 0, pid, size⟩ := by
  have htransfer : ∀ d₁ : UsbLib, d₁.Sized →
      (if ep &&& 0x80 = 0 then outTransfer d₁ ep (ep &&& 0x0F).toNat pid data size
        else inTransfer d₁ ep (ep &&& 0x0F).toNat pid size) = .ok (d', r) →
      r.Fits ⟨n, ep &&& 0x80 != 0, pid, size⟩ := by
    intro d₁ hd₁ ht
    split at ht
    · next hout =>
      rw [hout]
      exact outTransfer_fits hsize n ht
    · next hin =>
      rw [bne_iff_ne.mpr hin]
      exact inTransfer_fits hd₁ hsize n ht
  have hack : (Response.ack 0 []).Fits ⟨n, ep &&& 0x80 != 0, pid, size⟩ :=
    ⟨Int.le_refl 0, hsize, fun _ ↦ rfl⟩
  simp only [usbTransfer] at h
  split at h
  · cases h
    trivial
  · cases pid with
    | reset =>
      cases h
      exact hack
    | sof =>
      cases h
      exact hack
    | setup =>
      simp only at h
      split at h
      · exact nomatch h
      · split at h
        · cases h
          trivial
        · exact htransfer { d with pktdis := true } hd h
    | data0 => exact htransfer d hd h
    | data1 => exact htransfer d hd h

end BiMpp.Device
