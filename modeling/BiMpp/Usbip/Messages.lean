import BiMpp.Base.Words
import BiMpp.Usbip.Urb

/-!
# The messages of the protocol

The four requests `accept_loop` knows, as
`bi-mpp-pic24-usb-simulator-master/include/usbip.h:12–103` lays them out: words in
network order, then whatever is bytes already. Each is read back from its bytes.
-/

namespace BiMpp.Usbip
open BiMpp.Base

/-- `usbip_op_header_t`: its first word is `version` and `command`, or `submit_cmd`; its
second is `status` or `seqnum`; `usbip.h:12–24`. -/
structure UsbipOpHeader where
  submitCmd : BitVec 32
  seqnum : BitVec 32
  deriving DecidableEq, Repr

/-- The second half of the first word, bytes 2 and 3; `usbip.h:16`. -/
def wordCommand (w : BitVec 32) : BitVec 16 := w.extractLsb' 0 16

/-- `ntohs(header.command)`; `usbip.c:150`. -/
def UsbipOpHeader.command (h : UsbipOpHeader) : BitVec 16 := wordCommand h.submitCmd

/-- `usbip_op_cmd_submit_t` in host byte order, all of it; `usbip.h:71–86`. -/
structure OpCmdSubmit where
  submitCmd : BitVec 32
  seqnum : BitVec 32
  devid : BitVec 32
  direction : BitVec 32
  ep : BitVec 32
  flags : BitVec 32
  bufferLength : BitVec 32
  startFrame : BitVec 32
  numberOfPackets : BitVec 32
  interval : BitVec 32
  setup : List UInt8
  deriving DecidableEq, Repr

/-- The fields the server goes on with. -/
def OpCmdSubmit.toCmdSubmit (c : OpCmdSubmit) : CmdSubmit where
  seqnum := c.seqnum
  devid := c.devid
  direction := c.direction
  ep := c.ep
  bufferLength := c.bufferLength
  setup := c.setup

/-- A request with what follows it. CMD_UNLINK is read as a `usbip_op_ret_submit_t`. -/
inductive Request
  | cmdSubmit (c : OpCmdSubmit) (payload : List UInt8)
  | cmdUnlink (r : RetSubmit)
  | opReqImport (header : UsbipOpHeader) (busid : List UInt8)
  | opReqDevlist (header : UsbipOpHeader)
  deriving DecidableEq, Repr

/-! ### Bytes -/

/-- The words of a header. -/
def UsbipOpHeader.words (h : UsbipOpHeader) : List (BitVec 32) := [h.submitCmd, h.seqnum]

/-- The words of a CMD_SUBMIT. -/
def OpCmdSubmit.words (c : OpCmdSubmit) : List (BitVec 32) :=
  [c.submitCmd, c.seqnum, c.devid, c.direction, c.ep, c.flags, c.bufferLength, c.startFrame,
    c.numberOfPackets, c.interval]

/-- The words of a RET_SUBMIT. -/
def RetSubmit.words (r : RetSubmit) : List (BitVec 32) :=
  [r.submitCmd, r.seqnum, r.devid, r.direction, r.ep, r.status, r.actualLength, r.startFrame,
    r.numberOfPackets, r.errorCount]

/-- A header as sent. -/
def UsbipOpHeader.bytes (h : UsbipOpHeader) : List UInt8 := h.words.flatMap wordBytes

/-- A CMD_SUBMIT as sent. -/
def OpCmdSubmit.bytes (c : OpCmdSubmit) : List UInt8 := c.words.flatMap wordBytes ++ c.setup

/-- A request as sent. -/
def Request.bytes : Request → List UInt8
  | cmdSubmit c payload => c.bytes ++ payload
  | cmdUnlink r => r.bytes
  | opReqImport header busid => header.bytes ++ busid
  | opReqDevlist header => header.bytes

private theorem RetSubmit.bytes_eq (r : RetSubmit) :
    r.bytes = r.words.flatMap wordBytes ++ r.setup := by
  simp only [bytes, words, List.flatMap_cons, List.flatMap_nil, List.append_nil, List.append_assoc]
  rfl

/-! ### What is well formed -/

/-- How many bytes follow a CMD_SUBMIT. -/
def OpCmdSubmit.payloadLength (c : OpCmdSubmit) : Nat :=
  if c.direction = 0 then c.bufferLength.toNat else 0

/-- A request of the protocol: its own command, fields of their sizes, and for direction
OUT as many bytes behind it as `transfer_buffer_length` says. -/
def Request.WellFormed : Request → Prop
  | cmdSubmit c payload =>
    wordCommand c.submitCmd = 0x0001 ∧ c.setup.length = 8 ∧ payload.length = c.payloadLength
  | cmdUnlink r => wordCommand r.submitCmd = 0x0002 ∧ r.setup.length = 8
  | opReqImport header busid => header.command = 0x8003 ∧ busid.length = 32
  | opReqDevlist header => header.command = 0x8005

instance Request.decidableWellFormed : ∀ r : Request, Decidable r.WellFormed
  | cmdSubmit c payload => inferInstanceAs (Decidable (wordCommand c.submitCmd = 0x0001 ∧
      c.setup.length = 8 ∧ payload.length = c.payloadLength))
  | cmdUnlink r => inferInstanceAs (Decidable (wordCommand r.submitCmd = 0x0002 ∧
      r.setup.length = 8))
  | opReqImport header busid => inferInstanceAs (Decidable (header.command = 0x8003 ∧
      busid.length = 32))
  | opReqDevlist header => inferInstanceAs (Decidable (header.command = 0x8005))

/-- The messages of the protocol. -/
abbrev Message := { r : Request // r.WellFormed }

/-- The payload of a request. -/
def Request.payload : Request → List UInt8
  | cmdSubmit _ payload => payload
  | _ => []

/-- Messages back to back. -/
def stream (ms : List Message) : List UInt8 := ms.flatMap fun m ↦ m.1.bytes

/-! ### Reading -/

/-- A header from its bytes. -/
def UsbipOpHeader.read (l : List UInt8) : UsbipOpHeader where
  submitCmd := wordAt l 0
  seqnum := wordAt l 1

/-- A CMD_SUBMIT from its bytes, each word through `ntohl`; `usbip.c:159–168`. -/
def OpCmdSubmit.read (l : List UInt8) : OpCmdSubmit where
  submitCmd := wordAt l 0
  seqnum := wordAt l 1
  devid := wordAt l 2
  direction := wordAt l 3
  ep := wordAt l 4
  flags := wordAt l 5
  bufferLength := wordAt l 6
  startFrame := wordAt l 7
  numberOfPackets := wordAt l 8
  interval := wordAt l 9
  setup := l.drop 40

/-- A RET_SUBMIT from its bytes; `usbip.c:219`. -/
def RetSubmit.read (l : List UInt8) : RetSubmit where
  submitCmd := wordAt l 0
  seqnum := wordAt l 1
  devid := wordAt l 2
  direction := wordAt l 3
  ep := wordAt l 4
  status := wordAt l 5
  actualLength := wordAt l 6
  startFrame := wordAt l 7
  numberOfPackets := wordAt l 8
  errorCount := wordAt l 9
  setup := l.drop 40

section Inverse

variable (l : List UInt8)

/-- A header is read as it was written. -/
theorem UsbipOpHeader.read_bytes (h : UsbipOpHeader) (rest : List UInt8) :
    read (h.bytes ++ rest) = h := by
  have hw : ∀ i (hi : i < 2), wordAt (h.bytes ++ rest) i = h.words.get ⟨i, hi⟩ :=
    fun i hi ↦ wordAt_flatMap h.words rest hi
  simp only [read, hw 0 (by decide), hw 1 (by decide)]
  rfl

/-- A header that was read is written as it stood. -/
theorem UsbipOpHeader.bytes_read (h : 8 ≤ l.length) : (read l).bytes ++ l.drop 8 = l :=
  flatMap_wordAt (n := 2) l h

/-- A CMD_SUBMIT is read as it was written. -/
theorem OpCmdSubmit.read_bytes (c : OpCmdSubmit) : read c.bytes = c := by
  have hw : ∀ i (hi : i < 10), wordAt c.bytes i = c.words.get ⟨i, hi⟩ :=
    fun i hi ↦ wordAt_flatMap c.words c.setup hi
  have hs : c.bytes.drop 40 = c.setup := List.drop_left' (length_flatMap_wordBytes c.words)
  simp only [read, hs, hw 0 (by decide), hw 1 (by decide), hw 2 (by decide), hw 3 (by decide),
    hw 4 (by decide), hw 5 (by decide), hw 6 (by decide), hw 7 (by decide), hw 8 (by decide),
    hw 9 (by decide)]
  rfl

/-- A CMD_SUBMIT that was read is written as it stood. -/
theorem OpCmdSubmit.bytes_read (h : 40 ≤ l.length) : (read l).bytes = l :=
  flatMap_wordAt (n := 10) l h

/-- A RET_SUBMIT is read as it was written. -/
theorem RetSubmit.read_bytes (r : RetSubmit) : read r.bytes = r := by
  rw [r.bytes_eq]
  have hw : ∀ i (hi : i < 10), wordAt (r.words.flatMap wordBytes ++ r.setup) i =
      r.words.get ⟨i, hi⟩ := fun i hi ↦ wordAt_flatMap r.words r.setup hi
  have hs : (r.words.flatMap wordBytes ++ r.setup).drop 40 = r.setup :=
    List.drop_left' (length_flatMap_wordBytes r.words)
  simp only [read, hs, hw 0 (by decide), hw 1 (by decide), hw 2 (by decide), hw 3 (by decide),
    hw 4 (by decide), hw 5 (by decide), hw 6 (by decide), hw 7 (by decide), hw 8 (by decide),
    hw 9 (by decide)]
  rfl

/-- A RET_SUBMIT that was read is written as it stood. -/
theorem RetSubmit.bytes_read (h : 40 ≤ l.length) : (read l).bytes = l := by
  rw [bytes_eq]
  exact flatMap_wordAt (n := 10) l h

end Inverse

/-- A header takes eight bytes. -/
@[simp] theorem UsbipOpHeader.length_bytes (h : UsbipOpHeader) : h.bytes.length = 8 :=
  length_flatMap_wordBytes h.words

/-- A CMD_SUBMIT takes 48 bytes. -/
theorem OpCmdSubmit.length_bytes {c : OpCmdSubmit} (h : c.setup.length = 8) :
    c.bytes.length = 48 := by
  rw [bytes, List.length_append, length_flatMap_wordBytes, h]
  rfl

/-- A RET_SUBMIT takes 48 bytes. -/
theorem RetSubmit.length_bytes {r : RetSubmit} (h : r.setup.length = 8) : r.bytes.length = 48 := by
  rw [bytes_eq, List.length_append, length_flatMap_wordBytes, h]
  rfl

/-- The command of a request, as its first word has it. -/
def Request.command : Request → BitVec 16
  | cmdSubmit c _ => wordCommand c.submitCmd
  | cmdUnlink r => wordCommand r.submitCmd
  | opReqImport header _ => header.command
  | opReqDevlist header => header.command

/-- Every request begins with a header of its own command. -/
theorem Request.command_bytes (r : Request) (rest : List UInt8) :
    wordCommand (wordAt (r.bytes ++ rest) 0) = r.command := by
  cases r with
  | cmdSubmit c payload =>
    have hw : wordAt (c.bytes ++ payload ++ rest) 0 = c.submitCmd := by
      simp only [OpCmdSubmit.bytes, List.append_assoc]
      exact wordAt_flatMap c.words _ (show 0 < 10 by decide)
    exact congrArg wordCommand hw
  | cmdUnlink r =>
    have hw : wordAt (r.bytes ++ rest) 0 = r.submitCmd := by
      rw [r.bytes_eq, List.append_assoc]
      exact wordAt_flatMap r.words _ (show 0 < 10 by decide)
    exact congrArg wordCommand hw
  | opReqImport header busid =>
    have hw : wordAt (header.bytes ++ busid ++ rest) 0 = header.submitCmd := by
      rw [List.append_assoc]
      exact wordAt_flatMap header.words _ (show 0 < 2 by decide)
    exact congrArg wordCommand hw
  | opReqDevlist header =>
    exact congrArg wordCommand (wordAt_flatMap header.words rest (show 0 < 2 by decide))

/-- A message is no shorter than a header. -/
theorem Request.WellFormed.length_le {r : Request} (h : r.WellFormed) : 8 ≤ r.bytes.length := by
  cases r with
  | cmdSubmit c payload =>
    have hc := OpCmdSubmit.length_bytes h.2.1
    simp only [bytes, List.length_append]
    omega
  | cmdUnlink r =>
    have hr := RetSubmit.length_bytes h.2
    simp only [bytes]
    omega
  | opReqImport header busid => simp [bytes]
  | opReqDevlist header => simp [bytes]

/-- The stream of a message and those behind it. -/
theorem stream_cons (m : Message) (ms : List Message) : stream (m :: ms) = m.1.bytes ++ stream ms :=
  List.flatMap_cons

end BiMpp.Usbip
