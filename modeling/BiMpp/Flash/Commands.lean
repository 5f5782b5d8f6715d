import BiMpp.Flash.Scsi

/-!
# Commands over three transfers

The functions of `cv05_flash/main.c:287–596` that send a command block, move the data and read
the status, over whatever `libusb_bulk_transfer` answers. The numbers of bytes that are moved
are asked for nowhere (`main.c:294,339,561`) or never looked at (`main.c:322`); what the device
did not fill is what was in the memory before.
-/

namespace BiMpp.Flash
open BiMpp.Base

/-- What `libusb_bulk_transfer` does when it is asked for `n` bytes: the code it returns, and
the bytes it moved. -/
structure Answer (n : Nat) where
  code : Int
  bytes : List UInt8
  length_le : bytes.length ≤ n

/-- The memory that a transfer was to fill. -/
def Answer.over {n : Nat} (a : Answer n) (memory : Nat → UInt8) (i : Nat) : UInt8 :=
  a.bytes.getD i (memory i)

/-- `r != LIBUSB_SUCCESS`, which is all that is asked of a transfer;
`main.c:296,324,341,563`. -/
def Answer.succeeded {n : Nat} (a : Answer n) : Bool := decide (a.code = 0)

/-- `CSW_t`; `main.c:44–49`. -/
structure Csw where
  signature : BitVec 32
  tag : BitVec 32
  dataResidue : BitVec 32
  status : UInt8
  deriving DecidableEq, Repr

/-- `CSW_SIGNATURE`; `main.c:9`. -/
abbrev cswSignature : BitVec 32 := 0x53425355

/-- `sizeof(CBW_t)`. -/
abbrev cbwSize : Nat := 31

/-- `sizeof(CSW_t)`. -/
abbrev cswSize : Nat := 13

/-- A status block in the memory of a little-endian host. -/
def Csw.ofMemory (m : Nat → UInt8) : Csw where
  signature := wordOf (m 3) (m 2) (m 1) (m 0)
  tag := wordOf (m 7) (m 6) (m 5) (m 4)
  dataResidue := wordOf (m 11) (m 10) (m 9) (m 8)
  status := m 12

/-- What is in the memory of the host before a command: the command block, the status block and
the buffer for the data. -/
structure HostMemory where
  cbw : Cbw
  csw : Nat → UInt8
  data : Nat → UInt8

/-- What the device answers to the three transfers of a command. The length of the data phase
is an `int`; nothing is moved if it is negative. -/
structure Device (c : ScsiCommand) where
  cbw : Answer cbwSize
  data : Answer c.length.toNat
  csw : Answer cswSize

/-- The status block as `check_csw` sees it. -/
def Device.status {c : ScsiCommand} (d : Device c) (host : HostMemory) : Csw :=
  Csw.ofMemory (d.csw.over host.csw)

/-- `send_cbw`; `main.c:315–331`. -/
def sendCbw (a : Answer cbwSize) : Bool := a.succeeded

/-- `receive_data`; `main.c:333–347`. -/
def receiveData {n : Nat} (a : Answer n) : Bool := a.succeeded

/-- `send_data`; `main.c:556–569`. -/
def sendData {n : Nat} (a : Answer n) : Bool := a.succeeded

/-- `check_csw`; `main.c:287–313`. -/
def checkCsw (memory : Nat → UInt8) (a : Answer cswSize) : Bool :=
  let csw := Csw.ofMemory (a.over memory)
  if !a.succeeded then false
  else if csw.status ≠ 0 then false
  else if csw.signature ≠ cswSignature then false
  else true

namespace ScsiCommand

/-- The data phase of a command. -/
def moveData (c : ScsiCommand) (a : Answer c.length.toNat) : Bool :=
  match c with
  | write _ _ _ => sendData a
  | _ => receiveData a

/-- `inquiry`, `req_sense`, `read_capacity`, `read_data` and `write`, in one: the bytes that
are decoded or printed if they return 1; `main.c:349–371,398–421,445–470,518–554,571–596`. -/
def run (c : ScsiCommand) (host : HostMemory) (d : Device c) : Option (List UInt8) :=
  if !c.sends then none
  else if !sendCbw d.cbw then none
  else if !c.moveData d.data then none
  else if !checkCsw host.csw d.csw then none
  else some (c.printed.map (d.data.over host.data))

end ScsiCommand

/-- What shows that a command was carried out. -/
structure Evidence (c : ScsiCommand) (host : HostMemory) (d : Device c) : Prop where
  cbw : d.cbw.bytes.length = cbwSize
  data : d.data.bytes.length = (c.cbw host.cbw).dataTransferLength.toNat
  csw : d.csw.bytes.length = cswSize
  signature : (d.status host).signature = cswSignature
  tag : (d.status host).tag = (c.cbw host.cbw).tag
  status : (d.status host).status = 0
  printed : ∀ i ∈ c.printed, i < d.data.bytes.length

/-- What the device must answer for a command to be taken for done: no transfer fails, and the
memory of the status block, filled or not, says so. -/
structure Accepted (c : ScsiCommand) (host : HostMemory) (d : Device c) : Prop where
  sends : c.sends = true
  cbw : d.cbw.code = 0
  data : d.data.code = 0
  csw : d.csw.code = 0
  status : (d.status host).status = 0
  signature : (d.status host).signature = cswSignature

/-- No transfer is short of what it was asked for, the status block is the one for this command,
the length of the data phase is an `int`, and the first block is not decoded behind its end. -/
structure Complete (c : ScsiCommand) (host : HostMemory) (d : Device c) : Prop where
  cbw : d.cbw.bytes.length = cbwSize
  data : d.data.bytes.length = c.length.toNat
  csw : d.csw.bytes.length = cswSize
  tag : (d.status host).tag = (c.cbw host.cbw).tag
  counted : (c.cbw host.cbw).dataTransferLength.toNat < 2 ^ 31
  boot : c.BootFits

private theorem Answer.succeeded_iff {n : Nat} (a : Answer n) : a.succeeded = true ↔ a.code = 0 :=
  decide_eq_true_iff

private theorem ScsiCommand.moveData_iff (c : ScsiCommand) (a : Answer c.length.toNat) :
    c.moveData a = true ↔ a.code = 0 := by
  cases c <;> exact a.succeeded_iff

/-- The status block is checked for its status and its signature, not for its tag. -/
theorem checkCsw_iff (memory : Nat → UInt8) (a : Answer cswSize) : checkCsw memory a = true ↔
    a.code = 0 ∧ (Csw.ofMemory (a.over memory)).status = 0 ∧
      (Csw.ofMemory (a.over memory)).signature = cswSignature := by
  rw [checkCsw, ← a.succeeded_iff]
  simp

/-- A command returns 1 exactly if the device's answers are accepted. -/
theorem ScsiCommand.run_isSome_iff (c : ScsiCommand) (host : HostMemory) (d : Device c) :
    (c.run host d).isSome = true ↔ Accepted c host d := by
  have hcbw : sendCbw d.cbw = true ↔ d.cbw.code = 0 := d.cbw.succeeded_iff
  have hdata := c.moveData_iff d.data
  have hcsw := checkCsw_iff host.csw d.csw
  rw [run]
  constructor
  · intro h
    split at h
    · cases h
    next hsends =>
    split at h
    · cases h
    next hsent =>
    split at h
    · cases h
    next hmoved =>
    split at h
    · cases h
    next hchecked =>
    rw [Bool.not_eq_true', Bool.not_eq_false] at hsends hsent hmoved hchecked
    obtain ⟨hcode, hstatus, hsignature⟩ := hcsw.mp hchecked
    exact ⟨hsends, hcbw.mp hsent, hdata.mp hmoved, hcode, hstatus, hsignature⟩
  · intro h
    rw [h.sends, hcbw.mpr h.cbw, hdata.mpr h.data, hcsw.mpr ⟨h.csw, h.status, h.signature⟩]
    rfl

/-- The data phase is called with the announced length, as an `int`. -/
theorem ScsiCommand.length_eq (c : ScsiCommand) (stack : Cbw) :
    c.length = (c.cbw stack).dataTransferLength.toInt := by
  cases c <;> rfl

/-- The data phase moves the announced number of bytes exactly if it is not short and the
number is an `int`. -/
theorem Device.announced_iff {c : ScsiCommand} (d : Device c) (stack : Cbw) :
    d.data.bytes.length = (c.cbw stack).dataTransferLength.toNat ↔
      d.data.bytes.length = c.length.toNat ∧ (c.cbw stack).dataTransferLength.toNat < 2 ^ 31 := by
  have hle := d.data.length_le
  have hlt := (c.cbw stack).dataTransferLength.isLt
  have hlength := c.length_eq stack
  rw [BitVec.toInt_eq_toNat_cond] at hlength
  split at hlength
  · omega
  · omega

/-- Success is evidence for the command exactly if the device, wherever its answers are
accepted, moved all bytes of all three transfers and answered this command. -/
theorem run_evidence_iff (c : ScsiCommand) (host : HostMemory) (d : Device c) :
    ((c.run host d).isSome = true → Evidence c host d) ↔
      (Accepted c host d → Complete c host d) := by
  rw [c.run_isSome_iff host d]
  refine forall_congr' fun accepted ↦ ?_
  have hannounced := d.announced_iff host.cbw
  have hprinted := c.printed_lt_iff host.cbw
  constructor
  · intro h
    obtain ⟨hdata, hcounted⟩ := hannounced.mp h.data
    rw [← h.data] at hprinted
    exact ⟨h.cbw, hdata, h.csw, h.tag, hcounted, hprinted.mp h.printed⟩
  · intro h
    have hdata := hannounced.mpr ⟨h.data, h.counted⟩
    rw [← hdata] at hprinted
    exact ⟨h.cbw, hdata, h.csw, accepted.signature, h.tag, accepted.status,
      hprinted.mpr h.boot⟩

/-- An INQUIRY whose data never come, answered with the status left over from a REQUEST
SENSE. -/
def stale : Device .inquiry where
  cbw := ⟨0, List.replicate 31 0, Nat.le_refl _⟩
  data := ⟨0, [], Nat.zero_le _⟩
  csw := ⟨0, [0x55, 0x53, 0x42, 0x53, 0x78, 0x56, 0x34, 0x02, 0, 0, 0, 0, 0], Nat.le_refl _⟩

/-- The leftover status passes, and what is printed is what was on the stack. -/
theorem run_stale :
    (ScsiCommand.inquiry.run ⟨Cbw.zero, fun _ ↦ 0, fun _ ↦ 0xAA⟩ stale).isSome = true ∧
      ¬ Evidence .inquiry ⟨Cbw.zero, fun _ ↦ 0, fun _ ↦ 0xAA⟩ stale := by
  refine ⟨by decide, fun h ↦ ?_⟩
  exact absurd h.data (by decide)

end BiMpp.Flash
