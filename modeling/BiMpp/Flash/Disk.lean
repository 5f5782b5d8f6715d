import BiMpp.Flash.Session

/-!
# What a session leaves of a disk

`main` of `cv05_flash/main.c:599–640` with a disk behind the endpoints, told by laws that any disk
meets, whatever it answers: a block changes only by the data behind a WRITE(10) that asks for it.
The command blocks are read by the disk as they were filled, so one block is at stake.
-/

namespace BiMpp.Flash
open BiMpp.Base

/-! ### A disk -/

/-- The blocks that a command block asks to be written: WRITE(10), with its first block and their
number. -/
def Cbw.written (c : Cbw) : Option (BitVec 32 × BitVec 16) :=
  if c.cb[0] = 0x2A then some (cdbLba c.cb, cdbBlocks c.cb) else none

/-- A device with a medium: what it answers is up to it, but a block changes only as one of those
that a WRITE(10) it has read asks for, by the data behind that command block. -/
structure Disk (σ : Type) extends BulkDevice σ where
  block : σ → Nat → List UInt8
  awaits : σ → Option (BitVec 32 × BitVec 16)
  receive_block : ∀ s n, block (receive s n).2 = block s
  receive_awaits : ∀ s n, awaits s = none → awaits (receive s n).2 = none
  command_block : ∀ s l, awaits s = none → block (send s l).2 = block s
  command_awaits : ∀ s l r, awaits s = none → awaits (send s l).2 = some r →
    ∃ c, Cbw.read l = some c ∧ c.written = some r
  data_block : ∀ s l lba bc, awaits s = some (lba, bc) → ∀ i,
    ¬ (lba.toNat ≤ i ∧ i < lba.toNat + bc.toNat) → block (send s l).2 i = block s i

/-! ### What a command can change -/

/-- Every command block has the signature. -/
theorem ScsiCommand.signature_cbw (c : ScsiCommand) (stack : Cbw) :
    (c.cbw stack).signature = 0x43425355 := by
  cases c <;> rfl

/-- The operation that a command block was filled with. -/
theorem fillCbw_opcode (stack : Cbw) (tag len : BitVec 32) (flags opcode : UInt8)
    (cdb : List UInt8) : (fillCbw stack tag len flags (opcode :: cdb)).cb[0] = opcode := by
  rw [fillCbw_cb]
  rfl

/-- Only `write` asks for blocks to be written, and for its own. -/
theorem ScsiCommand.written_cbw (c : ScsiCommand) (stack : Cbw) : (c.cbw stack).written =
    match c with
    | write _ lba bc => some (lba, bc)
    | _ => none := by
  -- the other operations are no WRITE(10)
  have hother : ∀ {tag len : BitVec 32} {flags opcode : UInt8} {cdb : List UInt8},
      opcode ≠ 0x2A → (fillCbw stack tag len flags (opcode :: cdb)).written = none := by
    intro tag len flags opcode cdb hop
    unfold Cbw.written
    rw [fillCbw_opcode, if_neg hop]
  cases c with
  | inquiry => exact hother (by decide)
  | reqSense => exact hother (by decide)
  | readCapacity => exact hother (by decide)
  | readData capacity lba bc => exact hother (by decide)
  | write capacity lba bc =>
    obtain ⟨hlba, hbc⟩ := @cdb10_addresses stack 0x00045678 (byteCount capacity.blength bc) dataOut
      0x2A bc lba
    change (fillCbw stack 0x00045678 (byteCount capacity.blength bc) dataOut
      (cdb10 0x2A bc lba)).written = some (lba, bc)
    unfold Cbw.written
    rw [hlba, hbc]
    exact if_pos (fillCbw_opcode ..)

section Disk

variable {σ : Type} (d : Disk σ)

/-- The blocks that a command asks to be written. -/
def ScsiCommand.target : ScsiCommand → Nat → Prop
  | write _ lba bc, i => lba.toNat ≤ i ∧ i < lba.toNat + bc.toNat
  | _, _ => False

private theorem awaits_of_sent {c : ScsiCommand} {stack : Cbw} {s : σ} (hs : d.awaits s = none)
    {r : BitVec 32 × BitVec 16} (hr : d.awaits (d.send s (c.cbw stack).bytes).2 = some r) :
    ∃ capacity lba bc, c = .write capacity lba bc ∧ r = (lba, bc) := by
  obtain ⟨b, hread, hwritten⟩ := d.command_awaits s _ r hs hr
  rw [Cbw.read_bytes (c.signature_cbw stack)] at hread
  obtain rfl := Option.some.inj hread
  rw [c.written_cbw] at hwritten
  cases c with
  | write capacity lba bc => exact ⟨capacity, lba, bc, rfl, (Option.some.inj hwritten).symm⟩
  | _ => cases hwritten

-- The data phase changes only blocks that the command asks to be written, and leaves nothing to
-- be waited for where the command is none that writes.
private theorem transfer_block (c : ScsiCommand) (stack : Cbw) (host : HostMemory)
    (data : List UInt8) {s : σ} (hs : d.awaits s = none) :
    let s₁ := (d.send s (c.cbw stack).bytes).2
    (∀ i, ¬ c.target i → d.block (c.transfer d.toBulkDevice host data s₁).2 i = d.block s₁ i) ∧
      ((∀ capacity lba bc, c ≠ .write capacity lba bc) →
        d.awaits (c.transfer d.toBulkDevice host data s₁).2 = none) := by
  intro s₁
  have hsent : ∀ r, d.awaits s₁ = some r → ∃ capacity lba bc, c = .write capacity lba bc ∧
      r = (lba, bc) := fun r hr ↦ awaits_of_sent d hs hr
  have hread : ∀ n, (∀ i, d.block (d.receive s₁ n).2 i = d.block s₁ i) ∧
      ((∀ capacity lba bc, c ≠ .write capacity lba bc) → d.awaits (d.receive s₁ n).2 = none) := by
    intro n
    refine ⟨fun i ↦ congrFun (d.receive_block s₁ n) i, fun hc ↦ d.receive_awaits s₁ n ?_⟩
    cases h : d.awaits s₁ with
    | none => rfl
    | some r =>
      obtain ⟨capacity, lba, bc, hw, -⟩ := hsent r h
      exact (hc capacity lba bc hw).elim
  cases c with
  | inquiry => exact ⟨fun i _ ↦ (hread _).1 i, (hread _).2⟩
  | reqSense => exact ⟨fun i _ ↦ (hread _).1 i, (hread _).2⟩
  | readCapacity => exact ⟨fun i _ ↦ (hread _).1 i, (hread _).2⟩
  | readData capacity lba bc => exact ⟨fun i _ ↦ (hread _).1 i, (hread _).2⟩
  | write capacity lba bc =>
    refine ⟨fun i hi ↦ ?_, fun hc ↦ (hc _ _ _ rfl).elim⟩
    change d.block (d.send s₁ _).2 i = d.block s₁ i
    cases h : d.awaits s₁ with
    | none => exact congrFun (d.command_block s₁ _ h) i
    | some r =>
      obtain ⟨capacity', lba', bc', hw, rfl⟩ := hsent r h
      cases hw
      exact d.data_block s₁ _ lba bc h i hi

/-- A command changes no block but those it asks to be written, and leaves nothing to be waited for
if it is none that writes. -/
theorem ScsiCommand.perform_block (c : ScsiCommand) (host : HostMemory) (data : List UInt8) {s : σ}
    (hs : d.awaits s = none) :
    (∀ i, ¬ c.target i → d.block (c.perform d.toBulkDevice host data s).2 i = d.block s i) ∧
      ((∀ capacity lba bc, c ≠ .write capacity lba bc) →
        d.awaits (c.perform d.toBulkDevice host data s).2 = none) := by
  have hcommand : ∀ i, d.block (d.send s (c.cbw host.cbw).bytes).2 i = d.block s i := fun i ↦
    congrFun (d.command_block s _ hs) i
  obtain ⟨hblock, hawaits⟩ := transfer_block d c host.cbw host data hs
  have hsent : (∀ capacity lba bc, c ≠ .write capacity lba bc) →
      d.awaits (d.send s (c.cbw host.cbw).bytes).2 = none := by
    intro hc
    cases h : d.awaits (d.send s (c.cbw host.cbw).bytes).2 with
    | none => rfl
    | some r =>
      obtain ⟨capacity, lba, bc, hw, -⟩ := awaits_of_sent d hs h
      exact (hc capacity lba bc hw).elim
  unfold perform
  split
  · exact ⟨fun i _ ↦ rfl, fun _ ↦ hs⟩
  dsimp only
  split
  · exact ⟨fun i _ ↦ hcommand i, hsent⟩
  generalize c.transfer d.toBulkDevice host data (d.send s (c.cbw host.cbw).bytes).2 = moved at *
  obtain ⟨memory, s₂⟩ := moved
  cases memory with
  | none => exact ⟨fun i hi ↦ (hblock i hi).trans (hcommand i), hawaits⟩
  | some memory =>
    refine ⟨fun i hi ↦ ?_, fun hc ↦ d.receive_awaits s₂ _ (hawaits hc)⟩
    rw [← hcommand i, ← hblock i hi]
    exact congrFun (d.receive_block s₂ _) i

/-- The disk is as it was, and waits for no data. -/
def Disk.Untouched (s₀ s : σ) : Prop := d.awaits s = none ∧ ∀ i, d.block s i = d.block s₀ i

/-- A command that does not write leaves the disk as it was. -/
theorem Disk.Untouched.perform {s₀ s : σ} (h : d.Untouched s₀ s) (c : ScsiCommand)
    (hc : ∀ capacity lba bc, c ≠ .write capacity lba bc) (host : HostMemory) (data : List UInt8) :
    d.Untouched s₀ (c.perform d.toBulkDevice host data s).2 := by
  obtain ⟨hblock, hawaits⟩ := c.perform_block d host data h.1
  refine ⟨hawaits hc, fun i ↦ (hblock i ?_).trans (h.2 i)⟩
  cases c with
  | write capacity lba bc => exact (hc capacity lba bc rfl).elim
  | _ => exact id

/-- What `main` leaves of a disk: it touches nothing, or has come to the write of block 1, with the
capacity that it has read before. -/
inductive Left (host : Nat → HostMemory) (s₀ : σ) : Nat × σ → Prop
  | early {s : σ} : d.Untouched s₀ s → Left host s₀ (1, s)
  | late {s s' : σ} {memory : Nat → UInt8} {r : Option (Nat → UInt8) × σ} {code : Nat} :
      d.Untouched s₀ s → d.Untouched s₀ s' →
      (ScsiCommand.readCapacity.perform d.toBulkDevice (host 2) [] s).1 = some memory →
      (ScsiCommand.write (capacityIn memory) 1 1).perform d.toBulkDevice (host 4)
        (dataToSend (capacityIn memory)) s' = r →
      (code = 0 → r.1.isSome = true) → Left host s₀ (code, r.2)

/-- Every run of `main` ends so. -/
theorem main_left (deviceHandle : Option Nat) (configured : Bool) (host : Nat → HostMemory) {s : σ}
    (hs : d.awaits s = none) :
    Left d host s (main d.toBulkDevice deviceHandle configured host s) := by
  have h₀ : d.Untouched s s := ⟨hs, fun _ ↦ rfl⟩
  unfold main
  split
  · exact .early h₀
  split
  · exact .early h₀
  have h₁ := h₀.perform d .inquiry (fun _ _ _ h ↦ by cases h) (host 0) []
  generalize ScsiCommand.inquiry.perform d.toBulkDevice (host 0) [] s = r₁ at h₁
  obtain ⟨_ | m₁, s₁⟩ := r₁
  · exact .early h₁
  have h₂ := h₁.perform d .reqSense (fun _ _ _ h ↦ by cases h) (host 1) []
  dsimp only
  generalize ScsiCommand.reqSense.perform d.toBulkDevice (host 1) [] s₁ = r₂ at h₂
  obtain ⟨_ | m₂, s₂⟩ := r₂
  · exact .early h₂
  have h₃ := h₂.perform d .readCapacity (fun _ _ _ h ↦ by cases h) (host 2) []
  dsimp only
  generalize hr₃ : ScsiCommand.readCapacity.perform d.toBulkDevice (host 2) [] s₂ = r₃ at h₃
  obtain ⟨_ | m₃, s₃⟩ := r₃
  · exact .early h₃
  have hm₃ : (ScsiCommand.readCapacity.perform d.toBulkDevice (host 2) [] s₂).1 = some m₃ := by
    rw [hr₃]
  have h₄ := h₃.perform d (.readData (capacityIn m₃) 0 1) (fun _ _ _ h ↦ by cases h) (host 3) []
  dsimp only
  generalize (ScsiCommand.readData (capacityIn m₃) 0 1).perform d.toBulkDevice (host 3) [] s₃ = r₄
    at h₄
  obtain ⟨_ | m₄, s₄⟩ := r₄
  · exact .early h₄
  dsimp only
  generalize hr₅ : (ScsiCommand.write (capacityIn m₃) 1 1).perform d.toBulkDevice (host 4)
    (dataToSend (capacityIn m₃)) s₄ = r₅
  obtain ⟨_ | m₅, s₅⟩ := r₅
  · exact .late h₂ h₄ hm₃ hr₅ fun h ↦ by cases h
  · exact .late h₂ h₄ hm₃ hr₅ fun _ ↦ rfl

/-! ### What a disk that keeps its word is left with -/

/-- The device keeps its word: a transfer that succeeds moves all it was asked for, READ CAPACITY is
answered with the last block and the length of a block, and when the status block behind the data
of a WRITE(10) says so, the blocks are those data. -/
structure Disk.KeepsWord (mlba blength : BitVec 32) : Prop where
  whole : ∀ s n, (d.receive s n).1.code = 0 → (d.receive s n).1.bytes.length = n
  capacity : ∀ s stack, d.awaits s = none →
    (d.send s (ScsiCommand.readCapacity.cbw stack).bytes).1 = 0 →
    (d.receive (d.send s (ScsiCommand.readCapacity.cbw stack).bytes).2 8).1.code = 0 →
    (d.receive (d.send s (ScsiCommand.readCapacity.cbw stack).bytes).2 8).1.bytes =
      wordBytes mlba ++ wordBytes blength
  stored : ∀ s l data c lba bc, d.awaits s = none → Cbw.read l = some c →
    c.written = some (lba, bc) → data.length = bc.toNat * blength.toNat →
    (d.send s l).1 = 0 → (d.send (d.send s l).2 data).1 = 0 →
    (d.receive (d.send (d.send s l).2 data).2 cswSize).1.code = 0 →
    (d.receive (d.send (d.send s l).2 data).2 cswSize).1.bytes.getD 12 1 = 0 →
    ∀ k < bc.toNat, d.block (d.receive (d.send (d.send s l).2 data).2 cswSize).2 (lba.toNat + k) =
      (data.drop (k * blength.toNat)).take blength.toNat

section KeepsWord

variable {d} {mlba blength : BitVec 32}

/-- READ CAPACITY tells the capacity of the disk. -/
theorem Disk.KeepsWord.read_capacity (h : d.KeepsWord mlba blength) {s : σ}
    (hs : d.awaits s = none) {host : HostMemory} {memory : Nat → UInt8}
    (hm : (ScsiCommand.readCapacity.perform d.toBulkDevice host [] s).1 = some memory) :
    (capacityIn memory).mlba = mlba ∧ (capacityIn memory).blength = blength := by
  have hsome : (ScsiCommand.readCapacity.run host
      (d.answers ScsiCommand.readCapacity host [] s)).isSome = true := by
    rw [← ScsiCommand.perform_isSome, hm]
    rfl
  have haccepted := (ScsiCommand.run_isSome_iff ..).mp hsome
  have hbytes := h.capacity s host.cbw hs haccepted.cbw haccepted.data
  obtain ⟨htransfer, -⟩ := ScsiCommand.perform_some hm
  change (if receiveData (d.receive (d.send s (ScsiCommand.readCapacity.cbw host.cbw).bytes).2 8).1
    then some (Answer.over (d.receive (d.send s
      (ScsiCommand.readCapacity.cbw host.cbw).bytes).2 8).1 host.data) else none) = some memory
    at htransfer
  split at htransfer
  · obtain rfl := Option.some.inj htransfer
    obtain ⟨hmlba, hblength⟩ := decode_words (Vector.ofFn fun i : Fin 8 ↦
      (d.receive (d.send s (ScsiCommand.readCapacity.cbw host.cbw).bytes).2 8).1.over host.data i)
    unfold capacityIn
    rw [hmlba, hblength]
    simp only [Vector.getElem_ofFn, Answer.over, hbytes]
    exact ⟨wordOf_extract mlba, wordOf_extract blength⟩
  · cases htransfer

/-- A write of one block that succeeds leaves the data there. -/
theorem Disk.KeepsWord.write_block (h : d.KeepsWord mlba blength) {s : σ}
    (hs : d.awaits s = none) {capacity : TReadCapacityData} (hlength : capacity.blength = blength)
    (hlt : blength.toNat < 2 ^ 31) {lba : BitVec 32} {host : HostMemory}
    {r : Option (Nat → UInt8) × σ} (hr : (ScsiCommand.write capacity lba 1).perform d.toBulkDevice
      host (dataToSend capacity) s = r)
    (hsome : r.1.isSome = true) : d.block r.2 lba.toNat = dataToSend capacity := by
  obtain ⟨memory, hmemory⟩ := Option.isSome_iff_exists.mp hsome
  obtain ⟨-, hend⟩ := ScsiCommand.perform_some (hr ▸ hmemory)
  have hrun := hr ▸ hsome
  rw [ScsiCommand.perform_isSome] at hrun
  have haccepted := (ScsiCommand.run_isSome_iff ..).mp hrun
  have hcount : (byteCount capacity.blength 1).toNat = blength.toNat := by
    rw [hlength, toNat_byteCount_one]
  have hsize : (ScsiCommand.write capacity lba 1).length.toNat = blength.toNat := by
    change (byteCount capacity.blength 1).toInt.toNat = blength.toNat
    rw [BitVec.toInt_eq_toNat_cond, hcount]
    split <;> omega
  have hlen : (dataToSend capacity).length = blength.toNat := by
    rw [dataToSend, List.length_map, List.length_range, hcount]
  have htake : (dataToSend capacity).take (ScsiCommand.write capacity lba 1).length.toNat =
      dataToSend capacity := List.take_of_length_le (by omega)
  generalize hlast : d.receive (d.send (d.send s (ScsiCommand.cbw host.cbw
    (.write capacity lba 1)).bytes).2 (dataToSend capacity)).2 cswSize = last
  have hends : d.receive (ScsiCommand.transfer d.toBulkDevice (.write capacity lba 1) host
      (dataToSend capacity) (d.send s (ScsiCommand.cbw host.cbw
        (.write capacity lba 1)).bytes).2).2 cswSize = last := by
    rw [← hlast]
    change d.receive (d.send _ ((dataToSend capacity).take _)).2 cswSize = _
    rw [htake]
  have hcsw : (d.answers (.write capacity lba 1) host (dataToSend capacity) s).csw = last.1 :=
    congrArg Prod.fst hends
  have hcode := haccepted.csw
  have hzero := haccepted.status
  rw [Device.status, hcsw] at hzero
  rw [hcsw] at hcode
  -- all of the status block was filled, so its status is the device's
  have hstatus : last.1.bytes.getD 12 1 = 0 := by
    have hin : 12 < last.1.bytes.length := by
      rw [← hlast, h.whole _ _ (hlast ▸ hcode)]
      decide
    change last.1.bytes.getD 12 (host.csw 12) = 0 at hzero
    rwa [List.getD_eq_getElem _ _ hin] at hzero ⊢
  have hdata : (d.send (d.send s (ScsiCommand.cbw host.cbw (.write capacity lba 1)).bytes).2
      (dataToSend capacity)).1 = 0 := by
    rw [← htake]
    exact haccepted.data
  have hstored := h.stored s _ (dataToSend capacity) _ lba 1 hs
    (Cbw.read_bytes (ScsiCommand.signature_cbw _ _)) (ScsiCommand.written_cbw _ _)
    (by rw [hlen]; exact (Nat.one_mul _).symm) haccepted.cbw hdata
  rw [hlast] at hstored
  have hblock := hstored hcode hstatus 0 (by decide)
  rw [Nat.zero_mul, List.drop_zero, Nat.add_zero, List.take_of_length_le (by omega)] at hblock
  rw [← hr, hend, hends]
  exact hblock

end KeepsWord

/-- `main` changes no block of a disk but block 1, whatever the device answers. When it returns 0
and the device keeps its word, the bytes of that block count up from 0, over and over. -/
theorem main_writes_one (deviceHandle : Option Nat) (configured : Bool) (host : Nat → HostMemory)
    {s : σ} (hs : d.awaits s = none) :
    (∀ i, i ≠ 1 → d.block (main d.toBulkDevice deviceHandle configured host s).2 i = d.block s i) ∧
      ∀ mlba blength, d.KeepsWord mlba blength → blength.toNat < 2 ^ 31 →
        (main d.toBulkDevice deviceHandle configured host s).1 = 0 →
        d.block (main d.toBulkDevice deviceHandle configured host s).2 1 =
          (List.range blength.toNat).map fun i ↦ UInt8.ofNat (i % 256) := by
  have hleft := main_left d deviceHandle configured host hs
  generalize main d.toBulkDevice deviceHandle configured host s = r at hleft
  cases hleft with
  | early h => exact ⟨fun i _ ↦ h.2 i, fun _ _ _ _ hzero ↦ by cases hzero⟩
  | @late s₁ s₂ memory r code h₁ h₂ hm hr hcode =>
    constructor
    · intro i hi
      obtain ⟨hblock, -⟩ := (ScsiCommand.write (capacityIn memory) 1 1).perform_block d (host 4)
        (dataToSend (capacityIn memory)) h₂.1
      rw [hr] at hblock
      refine (hblock i ?_).trans (h₂.2 i)
      change ¬ (1 ≤ i ∧ i < 1 + 1)
      omega
    · intro mlba blength hkeeps hlt hzero
      obtain ⟨-, hlength⟩ := hkeeps.read_capacity h₁.1 hm
      refine (hkeeps.write_block h₂.1 hlength hlt hr (hcode hzero)).trans ?_
      rw [dataToSend, hlength, toNat_byteCount_one]

end Disk

/-! ### A stick -/

/-- Where a stick is with a command. -/
inductive StickPhase
  | command
  | dataIn (l : List UInt8)
  | dataOut (lba : BitVec 32) (bc : BitVec 16)
  | status

/-- A stick: its phase and its blocks. -/
structure Stick where
  phase : StickPhase
  block : Nat → List UInt8

namespace Stick

variable (mlba blength : BitVec 32) (s : Stick)

/-- What it answers to a command that does not write. -/
def reply (c : Cbw) : List UInt8 :=
  if c.cb[0] = 0x25 then wordBytes mlba ++ wordBytes blength
  else if c.cb[0] = 0x28 then
    (List.range (cdbBlocks c.cb).toNat).flatMap fun k ↦ s.block ((cdbLba c.cb).toNat + k)
  else List.replicate c.dataTransferLength.toNat 0

/-- A command block, or the data of a WRITE(10). -/
def send (l : List UInt8) : Int × Stick :=
  match s.phase with
  | .command =>
    match Cbw.read l with
    | none => (-9, s)
    | some c =>
      match c.written with
      | some (lba, bc) => (0, { s with phase := .dataOut lba bc })
      | none => (0, { s with phase := .dataIn (s.reply mlba blength c) })
  | .dataOut lba bc =>
    (0, ⟨.status, fun i ↦ if lba.toNat ≤ i ∧ i < lba.toNat + bc.toNat then
      (l.drop ((i - lba.toNat) * blength.toNat)).take blength.toNat else s.block i⟩)
  | _ => (-9, s)

/-- The data of a command that reads, or the status block. -/
def receive (n : Nat) : Answer n × Stick :=
  match s.phase with
  | .dataIn l =>
    if h : l.length = n then (⟨0, l, Nat.le_of_eq h⟩, { s with phase := .status })
    else (⟨-9, [], Nat.zero_le n⟩, s)
  | .status =>
    if h : 13 = n then
      (⟨0, [0x55, 0x53, 0x42, 0x53, 0, 0, 0, 0, 0, 0, 0, 0, 0], Nat.le_of_eq h⟩,
        { s with phase := .command })
    else (⟨-9, [], Nat.zero_le n⟩, s)
  | _ => (⟨-9, [], Nat.zero_le n⟩, s)

/-- The data it waits for. -/
def awaits : Option (BitVec 32 × BitVec 16) :=
  match s.phase with
  | .dataOut lba bc => some (lba, bc)
  | _ => none

/-- A stick is a disk. -/
def disk : Disk Stick where
  send s := s.send mlba blength
  receive := receive
  block := block
  awaits := awaits
  receive_block s n := by
    unfold receive
    split
    · split <;> rfl
    · split <;> rfl
    · rfl
  receive_awaits s n h := by
    unfold receive
    split
    · split
      · rfl
      · exact h
    · split
      · rfl
      · exact h
    · exact h
  command_block s l h := by
    unfold send
    split
    · split
      · rfl
      · split <;> rfl
    · next lba bc hphase =>
      rw [awaits, hphase] at h
      cases h
    · rfl
  command_awaits s l r h hr := by
    unfold send at hr
    split at hr
    · split at hr
      · cases h.symm.trans hr
      · next c hread =>
        split at hr
        · next lba bc hwritten => exact ⟨c, hread, hwritten.trans hr⟩
        · cases hr
    · next lba bc hphase =>
      rw [awaits, hphase] at h
      cases h
    · cases h.symm.trans hr
  data_block s l lba bc h i hi := by
    unfold awaits at h
    split at h
    · next lba' bc' hphase =>
      cases h
      unfold send
      rw [hphase]
      exact if_neg hi
    · cases h

section Word

/-- Writing to the stick as a disk. -/
@[simp] theorem disk_send (l : List UInt8) : (disk mlba blength).send s l = s.send mlba blength l :=
  rfl

/-- Reading from the stick as a disk. -/
@[simp] theorem disk_receive (n : Nat) : (disk mlba blength).receive s n = s.receive n := rfl

/-- The blocks of the stick as a disk. -/
@[simp] theorem disk_block : (disk mlba blength).block s = s.block := rfl

/-- What the stick as a disk waits for. -/
@[simp] theorem disk_awaits : (disk mlba blength).awaits s = s.awaits := rfl

variable {mlba blength s}

private theorem receive_whole {n : Nat} (h : (s.receive n).1.code = 0) :
    (s.receive n).1.bytes.length = n := by
  unfold receive at h ⊢
  split at h
  · split at h
    · next hlen =>
      rw [dif_pos hlen]
      exact hlen
    · cases h
  · split at h
    · next hlen =>
      rw [dif_pos hlen]
      exact hlen
    · cases h
  · cases h

private theorem send_command {l : List UInt8} {c : Cbw} (hs : s.awaits = none)
    (hread : Cbw.read l = some c) (hcode : (s.send mlba blength l).1 = 0) :
    (s.send mlba blength l).2 = { s with
      phase := match c.written with
        | some (lba, bc) => .dataOut lba bc
        | none => .dataIn (s.reply mlba blength c) } := by
  unfold send at hcode ⊢
  split at hcode
  · simp only [hread]
    cases c.written <;> rfl
  · next hphase =>
    rw [awaits, hphase] at hs
    cases hs
  · cases hcode

end Word

/-- A stick keeps its word. -/
theorem disk_keepsWord : (disk mlba blength).KeepsWord mlba blength where
  whole _ _ h := receive_whole h
  capacity s stack hs hcode _ := by
    simp only [disk_send, disk_receive, disk_awaits] at hs hcode ⊢
    have hreply : s.reply mlba blength (ScsiCommand.readCapacity.cbw stack) =
        wordBytes mlba ++ wordBytes blength := if_pos (fillCbw_opcode ..)
    have hwritten : (ScsiCommand.readCapacity.cbw stack).written = none :=
      ScsiCommand.written_cbw .readCapacity stack
    rw [send_command hs (Cbw.read_bytes (ScsiCommand.signature_cbw .readCapacity stack)) hcode,
      hwritten, hreply]
    have hlength : (wordBytes mlba ++ wordBytes blength).length = 8 := rfl
    unfold receive
    dsimp only
    rw [dif_pos hlength]
  stored s l data c lba bc hs hread hwritten _ hcode _ _ _ k hk := by
    simp only [disk_send, disk_receive, disk_block, disk_awaits] at hs hcode ⊢
    rw [send_command hs hread hcode, hwritten]
    change (if lba.toNat ≤ lba.toNat + k ∧ lba.toNat + k < lba.toNat + bc.toNat then
      (data.drop ((lba.toNat + k - lba.toNat) * blength.toNat)).take blength.toNat
      else s.block (lba.toNat + k)) = _
    rw [if_pos (by omega), Nat.add_sub_cancel_left]

end Stick

/-- The memory of a host before each command. -/
def stickHost (_ : Nat) : HostMemory := ⟨Cbw.zero, fun _ ↦ 0, fun _ ↦ 0⟩

/-- A stick before any command, with the same bytes in each block. -/
def stickBefore : Stick := ⟨.command, fun _ ↦ List.replicate 512 7⟩

/-- A session with a stick of three blocks of 512 bytes. -/
def stickSession : Nat × Stick :=
  main (Stick.disk 2 512).toBulkDevice (some 0) true stickHost stickBefore

/-- Block 1 counts up from 0, twice, the others are as they were. -/
theorem main_writes_one_stick : stickSession.1 = 0 ∧
    (∀ i, i ≠ 1 → stickSession.2.block i = List.replicate 512 7) ∧
    stickSession.2.block 1 = (List.range 512).map fun i ↦ UInt8.ofNat (i % 256) := by
  have hzero : stickSession.1 = 0 := by decide +kernel
  obtain ⟨hothers, hone⟩ := main_writes_one (Stick.disk 2 512) (some 0) true stickHost
    (s := stickBefore) rfl
  have hblock := hone 2 512 (Stick.disk_keepsWord 2 512) (by decide) hzero
  simp only [Stick.disk_block] at hothers hblock
  unfold stickSession at hzero ⊢
  refine ⟨hzero, ?_, ?_⟩
  · exact hothers
  · exact hblock

end BiMpp.Flash
