import BiMpp.Flash.Commands

/-!
# A session with a flash disk

`main` of `cv05_flash/main.c:599–640` over whatever is behind the two bulk endpoints: four commands
that read, then one that writes block 1. Command blocks go over the bus as the bytes of `CBW_t` in
the memory of a little-endian host. What is printed, and `get_max_lun`, which is only printed, are
left out.
-/

namespace BiMpp.Flash
open BiMpp.Base

/-! ### Command blocks on the bus -/

/-- A word in the memory of a little-endian host. -/
def wordMemory (x : BitVec 32) : List UInt8 := (wordBytes x).reverse

/-- The bytes of a command block; `main.c:33–41`. -/
def Cbw.bytes (c : Cbw) : List UInt8 :=
  wordMemory c.signature ++ wordMemory c.tag ++ wordMemory c.dataTransferLength ++
    [c.flags, c.lun, c.cbLength] ++ c.cb.toList

/-- The word in four bytes of memory. -/
def memoryWord (l : List UInt8) (i : Nat) : BitVec 32 :=
  wordOf (l.getD (i + 3) 0) (l.getD (i + 2) 0) (l.getD (i + 1) 0) (l.getD i 0)

/-- A command block as a device reads it: of its size, and with its signature. -/
def Cbw.read (l : List UInt8) : Option Cbw :=
  if l.length = cbwSize ∧ memoryWord l 0 = 0x43425355 then
    some ⟨memoryWord l 0, memoryWord l 4, memoryWord l 8, l.getD 12 0, l.getD 13 0, l.getD 14 0,
      Vector.ofFn fun i ↦ l.getD (i + 15) 0⟩
  else none

/-- A word takes four bytes of memory. -/
@[simp] theorem length_wordMemory (x : BitVec 32) : (wordMemory x).length = 4 := rfl

/-- A command block wrapper is 31 bytes long. -/
theorem Cbw.length_bytes (c : Cbw) : c.bytes.length = cbwSize := by
  simp [bytes]

/-- A device reads a command block as it was filled. -/
theorem Cbw.read_bytes {c : Cbw} (h : c.signature = 0x43425355) : read c.bytes = some c := by
  have hsignature : memoryWord c.bytes 0 = c.signature := wordOf_extract _
  have htag : memoryWord c.bytes 4 = c.tag := wordOf_extract _
  have hlength : memoryWord c.bytes 8 = c.dataTransferLength := wordOf_extract _
  have hcb : (Vector.ofFn fun i : Fin 16 ↦ c.bytes.getD (i + 15) 0) = c.cb := by
    refine Vector.ext fun i hi ↦ ?_
    rw [Vector.getElem_ofFn]
    have hat : c.bytes.getD (i + 15) 0 = c.cb.toList.getD i 0 := rfl
    rw [hat, List.getD_eq_getElem _ _ (by rw [Vector.length_toList]; exact hi),
      Vector.getElem_toList]
  unfold read
  rw [if_pos ⟨c.length_bytes, hsignature.trans h⟩, hsignature, htag, hlength, hcb]
  rfl

/-! ### The program -/

/-- What is behind the two bulk endpoints: what `libusb_bulk_transfer` returns for bytes sent to
`ENDPOINT_OUT`, and what it does when `ENDPOINT_IN` is asked for a number of bytes. -/
structure BulkDevice (σ : Type) where
  send : σ → List UInt8 → Int × σ
  receive : σ → (n : Nat) → Answer n × σ

section Program

variable {σ : Type} (dev : BulkDevice σ)

namespace ScsiCommand

/-- The data phase of a command: the memory that was to be filled, if the transfer succeeded;
`main.c:333–347,556–569`. -/
def transfer (c : ScsiCommand) (host : HostMemory) (data : List UInt8) (s : σ) :
    Option (Nat → UInt8) × σ :=
  match c with
  | write _ _ _ =>
    let (code, s) := dev.send s (data.take c.length.toNat)
    (if code = 0 then some host.data else none, s)
  | _ =>
    let (a, s) := dev.receive s c.length.toNat
    (if receiveData a then some (a.over host.data) else none, s)

/-- `inquiry`, `req_sense`, `read_capacity`, `read_data` and `write`, in one: a transfer is made
only if those before it succeeded; `main.c:349–371,398–421,445–470,518–554,571–596`. -/
def perform (c : ScsiCommand) (host : HostMemory) (data : List UInt8) (s : σ) :
    Option (Nat → UInt8) × σ :=
  if !c.sends then (none, s)
  else
    let (code, s) := dev.send s (c.cbw host.cbw).bytes
    if code ≠ 0 then (none, s)
    else
      match c.transfer dev host data s with
      | (none, s) => (none, s)
      | (some memory, s) =>
        let (a, s) := dev.receive s cswSize
        (if checkCsw host.csw a then some memory else none, s)

end ScsiCommand

/-- What `read_capacity` makes of the memory that was to be filled; `main.c:468`. -/
def capacityIn (memory : Nat → UInt8) : TReadCapacityData :=
  decodeReadCapacityData (Vector.ofFn fun i ↦ memory i)

/-- The bytes that `main` writes; `main.c:626–628`. -/
def dataToSend (capacity : TReadCapacityData) : List UInt8 :=
  (List.range (byteCount capacity.blength 1).toNat).map fun i ↦ UInt8.ofNat (i % 256)

/-- `main` with what `find_mass_storage_device` and `configure_device` returned and what is in the
memory of the host before each command: what it returns; `main.c:599–640`. -/
def main (deviceHandle : Option Nat) (configured : Bool) (host : Nat → HostMemory) (s : σ) :
    Nat × σ :=
  if deviceHandle = none then (1, s)
  else if !configured then (1, s)
  else
    match ScsiCommand.inquiry.perform dev (host 0) [] s with
    | (none, s) => (1, s)
    | (some _, s) =>
      match ScsiCommand.reqSense.perform dev (host 1) [] s with
      | (none, s) => (1, s)
      | (some _, s) =>
        match ScsiCommand.readCapacity.perform dev (host 2) [] s with
        | (none, s) => (1, s)
        | (some memory, s) =>
          let capacity := capacityIn memory
          match (ScsiCommand.readData capacity 0 1).perform dev (host 3) [] s with
          | (none, s) => (1, s)
          | (some _, s) =>
            match (ScsiCommand.write capacity 1 1).perform dev (host 4) (dataToSend capacity) s with
            | (none, s) => (1, s)
            | (some _, s) => (0, s)

end Program

/-- What a device answers to the transfers of a command, were each of them made. -/
def BulkDevice.answers {σ : Type} (dev : BulkDevice σ) (c : ScsiCommand) (host : HostMemory)
    (data : List UInt8) (s : σ) : Device c :=
  let sent := dev.send s (c.cbw host.cbw).bytes
  { cbw := ⟨sent.1, [], Nat.zero_le _⟩
    data :=
      match c with
      | .write capacity lba bc =>
        ⟨(dev.send sent.2 (data.take (ScsiCommand.write capacity lba bc).length.toNat)).1, [],
          Nat.zero_le _⟩
      | .inquiry => (dev.receive sent.2 _).1
      | .reqSense => (dev.receive sent.2 _).1
      | .readCapacity => (dev.receive sent.2 _).1
      | .readData _ _ _ => (dev.receive sent.2 _).1
    csw := (dev.receive (c.transfer dev host data sent.2).2 cswSize).1 }

/-- The data phase succeeds if its transfer does. -/
theorem ScsiCommand.transfer_isSome {σ : Type} (dev : BulkDevice σ) (c : ScsiCommand)
    (host : HostMemory) (data : List UInt8) (s : σ) :
    (c.transfer dev host data (dev.send s (c.cbw host.cbw).bytes).2).1.isSome =
      c.moveData (dev.answers c host data s).data := by
  cases c with
  | write capacity lba bc =>
    change (if _ then some host.data else none).isSome = decide _
    split
    · next h => exact (decide_eq_true h).symm
    · next h => exact (decide_eq_false h).symm
  | _ =>
    change (if receiveData _ = true then some _ else none).isSome = receiveData _
    split
    · next h => exact h.symm
    · next h => exact (Bool.eq_false_iff.mpr h).symm

/-- A command over a device succeeds as it does with the device's answers. -/
theorem ScsiCommand.perform_isSome {σ : Type} (dev : BulkDevice σ) (c : ScsiCommand)
    (host : HostMemory) (data : List UInt8) (s : σ) :
    (c.perform dev host data s).1.isSome = (c.run host (dev.answers c host data s)).isSome := by
  have hmoved := c.transfer_isSome dev host data s
  have hsent : sendCbw (dev.answers c host data s).cbw =
      decide ((dev.send s (c.cbw host.cbw).bytes).1 = 0) := rfl
  have hcsw : (dev.answers c host data s).csw = (dev.receive
      (c.transfer dev host data (dev.send s (c.cbw host.cbw).bytes).2).2 cswSize).1 := rfl
  unfold perform run
  rw [hsent, ← hmoved, hcsw]
  split
  · rfl
  dsimp only
  by_cases hcode : (dev.send s (c.cbw host.cbw).bytes).1 = 0
  · rw [if_neg (not_not.mpr hcode), decide_eq_true hcode]
    generalize c.transfer dev host data (dev.send s (c.cbw host.cbw).bytes).2 = moved
    obtain ⟨_ | memory, s₂⟩ := moved
    · rfl
    · dsimp only [Option.isSome_some, Bool.not_true]
      cases checkCsw host.csw (dev.receive s₂ cswSize).1 <;> rfl
  · rw [if_pos hcode, decide_eq_false hcode]
    rfl

/-- A command that succeeds gives the memory of its data phase, and ends with its status block. -/
theorem ScsiCommand.perform_some {σ : Type} {dev : BulkDevice σ} {c : ScsiCommand}
    {host : HostMemory} {data : List UInt8} {s : σ} {memory : Nat → UInt8}
    (h : (c.perform dev host data s).1 = some memory) :
    (c.transfer dev host data (dev.send s (c.cbw host.cbw).bytes).2).1 = some memory ∧
      (c.perform dev host data s).2 = (dev.receive
        (c.transfer dev host data (dev.send s (c.cbw host.cbw).bytes).2).2 cswSize).2 := by
  unfold perform at h ⊢
  split at h
  · cases h
  next hsends =>
  dsimp only at h ⊢
  split at h
  · cases h
  next hcode =>
  rw [if_neg hsends, if_neg hcode]
  generalize c.transfer dev host data (dev.send s (c.cbw host.cbw).bytes).2 = moved at h ⊢
  obtain ⟨_ | memory', s₂⟩ := moved
  · cases h
  · dsimp only at h ⊢
    split at h
    · exact ⟨h, rfl⟩
    · cases h

end BiMpp.Flash
