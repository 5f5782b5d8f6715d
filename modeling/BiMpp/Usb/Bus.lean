import Mathlib.Data.List.Basic

/-!
# The bus between host controller and device

Packet identifiers and transaction results of
`bi-mpp-pic24-usb-simulator-master/include/usb_lib_usbip.h:20–31`. The host side asks
through a `Packet` and learns a `Response`; the device side computes that response.
-/

namespace BiMpp.Usb

/-- The ways the process stops: a failed `assert`, a null, freed or stray
pointer dereferenced, a loop that does not end. -/
inductive Fault
  | assertion
  | badPointer
  | diverged
  deriving DecidableEq, Repr

/-- Why a step does not happen: it is not its turn, or the process stopped. -/
inductive Stop
  | blocked
  | fault (f : Fault)
  deriving DecidableEq, Repr

/-- The packet identifiers `__usb_transfer` tells apart; `usb_lib_usbip.h:20–26`. -/
inductive UsbPid
  | setup
  | data0
  | data1
  | sof
  | reset
  deriving DecidableEq, Repr

/-- The codes of `usb_lib_usbip.h:20–26`. -/
def UsbPid.code : UsbPid → BitVec 8
  | setup => 0x0D
  | data0 => 0x03
  | data1 => 0x0B
  | sof => 0x05
  | reset => 0xFF

/-- What a transaction gives back: `__RET_ACK` with `*rlen` and the bytes an IN
transaction stored at `data`, `__RET_NAK`, `__RET_ERR` or `__RET_STALL`;
`usb_lib_usbip.h:28–31`. -/
inductive Response
  | ack (rlen : Int) (bytes : List UInt8)
  | nak
  | err
  | stall
  deriving DecidableEq, Repr

/-- The acknowledgements; `__RET_ACK`. -/
def Response.isAck : Response → Bool
  | ack _ _ => true
  | _ => false

/-- The transmission errors; `__RET_ERR`. -/
def Response.isErr : Response → Bool
  | err => true
  | _ => false

/-- The responses a device gives without failing the transaction: ACK and NAK. -/
def Response.isClean : Response → Bool
  | ack _ _ => true
  | nak => true
  | _ => false

/-- The bytes an IN transaction brought. -/
def Response.bytes : Response → List UInt8
  | ack _ bytes => bytes
  | _ => []

/-- One transaction as the host offers it: the endpoint with its direction bit 7,
the packet identifier and the byte count; `hcd.c:178–198`. -/
structure Packet where
  endpointNumber : Int
  dirIn : Bool
  pid : UsbPid
  size : Int
  deriving DecidableEq, Repr

/-- The endpoint address handed to `__usb_transfer`: `EndpointNumber`, with `| 0x80`
for IN; `hcd.c:180,191`. Endpoint numbers are below 16. -/
def Packet.ep (k : Packet) : Int :=
  if k.dirIn then k.endpointNumber + 0x80 else k.endpointNumber

/-- The address of an endpoint with such a number says its number and its direction. -/
theorem Packet.ep_bits (k : Packet) (h0 : 0 ≤ k.endpointNumber) (h15 : k.endpointNumber ≤ 15) :
    ((BitVec.ofInt 8 k.ep &&& 0x0F).toNat : Int) = k.endpointNumber ∧
      (BitVec.ofInt 8 k.ep &&& 0x80 != 0) = k.dirIn := by
  obtain ⟨n, hn⟩ := Int.eq_ofNat_of_zero_le h0
  have hlt : n < 16 := by omega
  have hall : ∀ m : Nat, m < 16 →
      ((BitVec.ofInt 8 (m : Int) &&& 0x0F).toNat = m ∧
        (BitVec.ofInt 8 (m : Int) &&& 0x80 != 0) = false) ∧
      (BitVec.ofInt 8 ((m : Int) + 0x80) &&& 0x0F).toNat = m ∧
        (BitVec.ofInt 8 ((m : Int) + 0x80) &&& 0x80 != 0) = true := by decide
  obtain ⟨⟨hout, hclear⟩, hin, hset⟩ := hall n hlt
  unfold Packet.ep
  rw [hn]
  split
  · next hdir => exact ⟨congrArg _ hin, hset.trans hdir.symm⟩
  · next hdir => exact ⟨congrArg _ hout, hclear.trans (Bool.eq_false_iff.mpr hdir).symm⟩

/-- An acknowledgement of `k` moves at most the bytes asked for, and an IN
transaction stores exactly the bytes it counts. -/
def Response.Fits (r : Response) (k : Packet) : Prop :=
  match r with
  | ack rlen bytes => 0 ≤ rlen ∧ rlen ≤ k.size ∧ (k.dirIn → (bytes.length : Int) = rlen)
  | _ => True

instance (r : Response) (k : Packet) : Decidable (r.Fits k) := by
  unfold Response.Fits
  cases r <;> infer_instance

/-- Store `bytes` at offset `off` of a buffer, as the IN copy of `usb_lib_usbip.c:289`. -/
def writeAt (data : List UInt8) (off : Int) (bytes : List UInt8) : List UInt8 :=
  data.take off.toNat ++ bytes ++ data.drop (off.toNat + bytes.length)

/-- A store inside the buffer keeps its size. -/
theorem length_writeAt (data bytes : List UInt8) (off : Int)
    (h : off.toNat + bytes.length ≤ data.length) :
    (writeAt data off bytes).length = data.length := by
  simp only [writeAt, List.length_append, List.length_take, List.length_drop]
  omega

/-- A store from a place inside the buffer never shortens it. -/
theorem le_length_writeAt (data bytes : List UInt8) (off : Int) (h : off.toNat ≤ data.length) :
    data.length ≤ (writeAt data off bytes).length := by
  simp only [writeAt, List.length_append, List.length_take, List.length_drop]
  omega

end BiMpp.Usb
