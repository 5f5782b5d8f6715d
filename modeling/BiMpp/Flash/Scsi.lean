import BiMpp.Flash.Capacity

/-!
# The commands for a flash disk

The command blocks that `cv05_flash/main.c:51–142` fills, and what the functions that send
them, `main.c:349–596`, allocate, ask for and print. Words are stored by a little-endian host;
the part of a command block that nobody fills is what was on the stack.
-/

namespace BiMpp.Flash
open BiMpp.Base

/-! ### Command blocks -/

/-- `CBW_t`; `main.c:33–41`. -/
structure Cbw where
  signature : BitVec 32
  tag : BitVec 32
  dataTransferLength : BitVec 32
  flags : UInt8
  lun : UInt8
  cbLength : UInt8
  cb : Vector UInt8 16
  deriving DecidableEq, Repr

/-- A stack of zeros. -/
def Cbw.zero : Cbw := ⟨0, 0, 0, 0, 0, 0, Vector.replicate 16 0⟩

/-- `DATA_IN`; `main.c:25`. -/
abbrev dataIn : UInt8 := 0x80

/-- `DATA_OUT`; `main.c:26`. -/
abbrev dataOut : UInt8 := 0x00

/-- What the five functions have in common: `bCBWCBLength` is the number of bytes of `CBWCB`
that are filled; `main.c:51–142`. -/
def fillCbw (cbw : Cbw) (tag dataTransferLength : BitVec 32) (flags : UInt8) (cdb : List UInt8) :
    Cbw where
  signature := 0x43425355
  tag := tag
  dataTransferLength := dataTransferLength
  flags := flags
  lun := 0
  cbLength := UInt8.ofNat cdb.length
  cb := Vector.ofFn fun i ↦ cdb.getD i cbw.cb[i]

/-- `fill_inquiry_cbw`; `main.c:51–65`. -/
def fillInquiryCbw (cbw : Cbw) : Cbw :=
  fillCbw cbw 0x12345678 36 dataIn [0x12, 0x00, 0x00, 0x00, 0x24, 0x00]

/-- `fill_request_sense_cbw`; `main.c:67–80`. -/
def fillRequestSenseCbw (cbw : Cbw) : Cbw :=
  fillCbw cbw 0x02345678 18 dataIn [0x03, 0x00, 0x00, 0x00, 0x18, 0x00]

/-- `fill_read_capacity_cbw`; `main.c:82–99`. -/
def fillReadCapacityCbw (cbw : Cbw) : Cbw :=
  fillCbw cbw 0x00345678 8 dataIn
    [0x25, 0x00, 0x00, 0x00, 0x00, 0x00, 0x00, 0x00, 0x00, 0x00]

/-- `x >> k`, stored in an `unsigned char`. -/
def byteAt {w : Nat} (x : BitVec w) (k : Nat) : UInt8 := ⟨(x >>> k).setWidth 8⟩

/-- The bytes that `fill_read_10_cbw` and `fill_write_10_cbw` fill; `main.c:113–122`. -/
def cdb10 (opcode : UInt8) (bc : BitVec 16) (lba : BitVec 32) : List UInt8 :=
  [opcode, 0x00, byteAt lba 24, byteAt lba 16, byteAt lba 8, byteAt lba 0, 0x00,
    byteAt bc 8, byteAt bc 0, 0x00]

/-- `blen * BC`, in 32 bits; `main.c:109,128,538,539,590`. -/
def byteCount (blen : BitVec 32) (bc : BitVec 16) : BitVec 32 := blen * bc.setWidth 32

/-- `fill_read_10_cbw`; `main.c:106–123`. -/
def fillRead10Cbw (cbw : Cbw) (blen : BitVec 32) (bc : BitVec 16) (lba : BitVec 32) : Cbw :=
  fillCbw cbw 0x00045678 (byteCount blen bc) dataIn (cdb10 0x28 bc lba)

/-- `fill_write_10_cbw`; `main.c:125–142`. -/
def fillWrite10Cbw (cbw : Cbw) (blen : BitVec 32) (bc : BitVec 16) (lba : BitVec 32) : Cbw :=
  fillCbw cbw 0x00045678 (byteCount blen bc) dataOut (cdb10 0x2A bc lba)

/-! ### Commands -/

/-- The functions that carry out a command, with their arguments; `main.c:349,398,445,518,571`. -/
inductive ScsiCommand
  | inquiry
  | reqSense
  | readCapacity
  | readData (capacity : TReadCapacityData) (lba : BitVec 32) (bc : BitVec 16)
  | write (capacity : TReadCapacityData) (lba : BitVec 32) (bc : BitVec 16)
  deriving DecidableEq, Repr

/-- The indices that `decode_inq_data` reads; `main.c:265–285`. -/
def inqIndices : List Nat := [0, 0, 1, 2, 3, 4, 5, 6, 7, 8] ++ List.range' 8 8 ++ List.range' 16 16

/-- Those of `decode_req_sense_data`; `main.c:373–396`. -/
def senseIndices : List Nat :=
  [0, 2, 2, 2, 2] ++ List.range' 3 4 ++ [7] ++ List.range' 8 4 ++ [12, 13, 14] ++ List.range' 15 3

/-- Those of `decode_master_boot`, whatever the length; `main.c:478–509`. -/
def bootIndices : List Nat :=
  List.range' 0 218 ++ List.range' 218 6 ++ List.range' 224 216 ++ List.range' 440 4 ++ [444] ++
    List.range' 446 16 ++ List.range' 462 16 ++ List.range' 478 16 ++ List.range' 494 16 ++
    [510, 511]

namespace ScsiCommand

/-- The tests before a command block is sent; the others compare unsigned numbers with bounds
they cannot exceed. `main.c:529–532,582–585`. -/
def sends : ScsiCommand → Bool
  | readData capacity lba _ => decide (lba ≤ capacity.mlba)
  | write capacity lba _ => decide (lba ≤ capacity.mlba)
  | _ => true

/-- The command block, over what was on the stack. -/
def cbw (stack : Cbw) : ScsiCommand → Cbw
  | inquiry => fillInquiryCbw stack
  | reqSense => fillRequestSenseCbw stack
  | readCapacity => fillReadCapacityCbw stack
  | readData capacity lba bc => fillRead10Cbw stack capacity.blength bc lba
  | write capacity lba bc => fillWrite10Cbw stack capacity.blength bc lba

/-- The `int` that the data phase is called with; `main.c:365,415,464,539,590`. -/
def length : ScsiCommand → Int
  | inquiry => 36
  | reqSense => 18
  | readCapacity => 8
  | readData capacity _ bc => (byteCount capacity.blength bc).toInt
  | write capacity _ bc => (byteCount capacity.blength bc).toInt

/-- The size of the buffer the function makes for the data; `write` is given one. -/
def bufferSize : ScsiCommand → Option Nat
  | inquiry => some 36
  | reqSense => some 18
  | readCapacity => some 8
  | readData capacity _ bc => some (byteCount capacity.blength bc).toNat
  | write _ _ _ => none

/-- The indices of the data that a successful command decodes or prints; `main.c:369,419,468`,
`main.c:546–551` with `print_hex`, `main.c:236–241`. -/
def printed : ScsiCommand → List Nat
  | inquiry => inqIndices
  | reqSense => senseIndices
  | readCapacity => List.range 8
  | readData capacity lba bc =>
    if lba = 0 ∧ bc = 1 then bootIndices
    else List.range (byteCount capacity.blength bc).toInt.toNat
  | write _ _ _ => []

/-- The range a command addresses. -/
def addressed : ScsiCommand → Option (TReadCapacityData × BitVec 32 × BitVec 16)
  | readData capacity lba bc => some (capacity, lba, bc)
  | write capacity lba bc => some (capacity, lba, bc)
  | _ => none

end ScsiCommand

/-! ### What a device reads in a command block -/

/-- The logical block address of READ(10) and WRITE(10). -/
def cdbLba (cb : Vector UInt8 16) : BitVec 32 := wordOf cb[2] cb[3] cb[4] cb[5]

/-- Their number of blocks. -/
def cdbBlocks (cb : Vector UInt8 16) : BitVec 16 := cb[7].toBitVec ++ cb[8].toBitVec

/-- The number of bytes that a command block asks for: the allocation length, the eight bytes
of READ CAPACITY, or the blocks. -/
def ScsiCommand.cdbLength (cb : Vector UInt8 16) : ScsiCommand → Nat
  | inquiry => 256 * cb[3].toNat + cb[4].toNat
  | reqSense => cb[4].toNat
  | readCapacity => 8
  | readData capacity _ _ => (cdbBlocks cb).toNat * capacity.blength.toNat
  | write capacity _ _ => (cdbBlocks cb).toNat * capacity.blength.toNat

/-- All lengths of a command are the same, what is printed lies below it, and the blocks that
the command block names are those that were asked for and are on the medium. -/
structure LengthsAgree (c : ScsiCommand) (cbw : Cbw) : Prop where
  cdb : c.cdbLength cbw.cb = cbw.dataTransferLength.toNat
  host : c.length = cbw.dataTransferLength.toNat
  buffer : ∀ n ∈ c.bufferSize, n = cbw.dataTransferLength.toNat
  printed : ∀ i ∈ c.printed, i < cbw.dataTransferLength.toNat
  range : ∀ capacity lba bc, c.addressed = some (capacity, lba, bc) →
    cdbLba cbw.cb = lba ∧ cdbBlocks cbw.cb = bc ∧
      lba.toNat + bc.toNat ≤ capacity.mlba.toNat + 1

/-- The blocks are on the medium and their bytes can be counted in an `int`. -/
def InRange (capacity : TReadCapacityData) (lba : BitVec 32) (bc : BitVec 16) : Prop :=
  lba.toNat + bc.toNat ≤ capacity.mlba.toNat + 1 ∧ bc.toNat * capacity.blength.toNat < 2 ^ 31

/-- The first block alone is always decoded up to byte 511. -/
def ScsiCommand.BootFits : ScsiCommand → Prop
  | readData capacity lba bc => lba = 0 ∧ bc = 1 → 512 ≤ capacity.blength.toNat
  | _ => True

/-- The commands whose lengths agree; REQUEST SENSE asks for 0x18 bytes and receives 18. -/
def ScsiCommand.Fits (c : ScsiCommand) : Prop :=
  c ≠ reqSense ∧ c.BootFits ∧
    ∀ capacity lba bc, c.addressed = some (capacity, lba, bc) → InRange capacity lba bc

/-! ### What a command block says -/

section Blocks

variable {stack : Cbw} {tag len : BitVec 32} {flags : UInt8} {cdb : List UInt8}

private theorem byteAt_eq {w : Nat} (x : BitVec w) (k : Nat) :
    byteAt x k = ⟨x.extractLsb' k 8⟩ := by
  refine congrArg UInt8.ofBitVec (BitVec.eq_of_toNat_eq ?_)
  rw [BitVec.toNat_setWidth, BitVec.toNat_ushiftRight, BitVec.extractLsb'_toNat]

/-- A byte of `CBWCB`: one that was filled, or what was there. -/
theorem fillCbw_cb (i : Nat) (h : i < 16) :
    (fillCbw stack tag len flags cdb).cb[i] = cdb.getD i stack.cb[i] := Vector.getElem_ofFn ..

/-- A READ(10) or WRITE(10) names the block and the number of blocks it was made for. -/
theorem cdb10_addresses (opcode : UInt8) (bc : BitVec 16) (lba : BitVec 32) :
    cdbLba (fillCbw stack tag len flags (cdb10 opcode bc lba)).cb = lba ∧
      cdbBlocks (fillCbw stack tag len flags (cdb10 opcode bc lba)).cb = bc := by
  constructor
  · rw [cdbLba, fillCbw_cb, fillCbw_cb, fillCbw_cb, fillCbw_cb]
    change wordOf (byteAt lba 24) (byteAt lba 16) (byteAt lba 8) (byteAt lba 0) = lba
    rw [byteAt_eq, byteAt_eq, byteAt_eq, byteAt_eq]
    exact wordOf_extract lba
  · rw [cdbBlocks, fillCbw_cb, fillCbw_cb]
    change (byteAt bc 8).toBitVec ++ (byteAt bc 0).toBitVec = bc
    rw [byteAt_eq, byteAt_eq]
    have hall : bc.extractLsb' 8 8 ++ bc.extractLsb' 0 8 = bc.extractLsb' 0 16 :=
      BitVec.extractLsb'_append_extractLsb'_eq_extractLsb' rfl
    exact hall.trans BitVec.extractLsb'_eq_self

private theorem toNat_byteCount (blen : BitVec 32) (bc : BitVec 16) :
    (byteCount blen bc).toNat = bc.toNat * blen.toNat % 2 ^ 32 := by
  have hbc := bc.isLt
  rw [byteCount, BitVec.toNat_mul, BitVec.toNat_setWidth,
    Nat.mod_eq_of_lt (Nat.lt_trans hbc (by decide)), Nat.mul_comm]

/-- One block has as many bytes as the device says. -/
theorem toNat_byteCount_one (blen : BitVec 32) : (byteCount blen 1).toNat = blen.toNat := by
  have hlt := blen.isLt
  have hone : (1 : BitVec 16).toNat = 1 := rfl
  rw [toNat_byteCount, hone, Nat.one_mul, Nat.mod_eq_of_lt hlt]

/-- The number of bytes is the same as a natural number, in 32 bits and as an `int` exactly if
it is less than `2 ^ 31`. -/
theorem byteCount_exact (blen : BitVec 32) (bc : BitVec 16) :
    (bc.toNat * blen.toNat = (byteCount blen bc).toNat ∧
      (byteCount blen bc).toInt = (byteCount blen bc).toNat) ↔ bc.toNat * blen.toNat < 2 ^ 31 := by
  have hlt := (byteCount blen bc).isLt
  have hnat := toNat_byteCount blen bc
  rw [BitVec.toInt_eq_toNat_cond]
  constructor
  · rintro ⟨hexact, hint⟩
    split at hint
    · omega
    · omega
  · intro h
    have hexact : bc.toNat * blen.toNat = (byteCount blen bc).toNat := by omega
    rw [if_pos (by omega)]
    exact ⟨hexact, rfl⟩

end Blocks

/-! ### All lengths of a command -/

section Lengths

variable {capacity : TReadCapacityData} {lba : BitVec 32} {bc : BitVec 16}

private theorem bootIndices_bound : 511 ∈ bootIndices ∧ ∀ i ∈ bootIndices, i < 512 := by
  decide +kernel

/-- What a command decodes or prints lies below the announced length, but for a first block of
less than 512 bytes. -/
theorem ScsiCommand.printed_lt_iff (c : ScsiCommand) (stack : Cbw) :
    (∀ i ∈ c.printed, i < (c.cbw stack).dataTransferLength.toNat) ↔ c.BootFits := by
  cases c with
  | inquiry =>
    have hprinted : ∀ i ∈ inqIndices, i < (36 : BitVec 32).toNat := by decide
    exact ⟨fun _ ↦ trivial, fun _ ↦ hprinted⟩
  | reqSense =>
    have hprinted : ∀ i ∈ senseIndices, i < (18 : BitVec 32).toNat := by decide
    exact ⟨fun _ ↦ trivial, fun _ ↦ hprinted⟩
  | readCapacity =>
    have hprinted : ∀ i ∈ List.range 8, i < (8 : BitVec 32).toNat := by decide
    exact ⟨fun _ ↦ trivial, fun _ ↦ hprinted⟩
  | readData capacity lba bc =>
    change (∀ i ∈ (readData capacity lba bc).printed, i < (byteCount capacity.blength bc).toNat) ↔
      (lba = 0 ∧ bc = 1 → 512 ≤ capacity.blength.toNat)
    rw [printed]
    split
    · next hfirst =>
      rw [hfirst.2, toNat_byteCount_one]
      constructor
      · exact fun h _ ↦ h 511 bootIndices_bound.1
      · exact fun h i hi ↦ Nat.lt_of_lt_of_le (bootIndices_bound.2 i hi) (h ⟨hfirst.1, rfl⟩)
    · next hfirst =>
      refine ⟨fun _ h ↦ absurd h hfirst, fun _ i hi ↦ ?_⟩
      have hcount := List.mem_range.mp hi
      rw [BitVec.toInt_eq_toNat_cond] at hcount
      split at hcount <;> omega
  | write capacity lba bc => exact ⟨fun _ ↦ trivial, fun _ ↦ nofun⟩

private theorem blocks_agree_iff {c : ScsiCommand} {stack : Cbw} {flags opcode : UInt8}
    (haddr : c.addressed = some (capacity, lba, bc))
    (hcbw : c.cbw stack = fillCbw stack 0x00045678 (byteCount capacity.blength bc) flags
      (cdb10 opcode bc lba))
    (hcdb : ∀ cb, c.cdbLength cb = (cdbBlocks cb).toNat * capacity.blength.toNat)
    (hlength : c.length = (byteCount capacity.blength bc).toInt)
    (hbuffer : ∀ n ∈ c.bufferSize, n = (byteCount capacity.blength bc).toNat) :
    LengthsAgree c (c.cbw stack) ↔
      (∀ i ∈ c.printed, i < (c.cbw stack).dataTransferLength.toNat) ∧
        InRange capacity lba bc := by
  have hnames := @cdb10_addresses stack 0x00045678 (byteCount capacity.blength bc) flags opcode
    bc lba
  have hexact := byteCount_exact capacity.blength bc
  rw [← hcbw] at hnames
  have hlen : (c.cbw stack).dataTransferLength = byteCount capacity.blength bc := by
    rw [hcbw]
    rfl
  rw [← hlength, ← hlen] at hexact
  constructor
  · intro h
    have htotal := h.cdb
    rw [hcdb, hnames.2] at htotal
    exact ⟨h.printed, (h.range _ _ _ haddr).2.2, hexact.mp ⟨htotal, h.host⟩⟩
  · rintro ⟨hprinted, hmedium, hint⟩
    obtain ⟨htotal, hhost⟩ := hexact.mpr hint
    refine ⟨?_, hhost, ?_, hprinted, ?_⟩
    · rw [hcdb, hnames.2]
      exact htotal
    · rw [hlen]
      exact hbuffer
    · intro capacity' lba' bc' h
      cases haddr.symm.trans h
      exact ⟨hnames.1, hnames.2, hmedium⟩

/-- The lengths of a command agree exactly if the command fits. -/
theorem ScsiCommand.agrees_iff (c : ScsiCommand) (stack : Cbw) :
    LengthsAgree c (c.cbw stack) ↔ c.Fits := by
  rw [Fits, ← c.printed_lt_iff stack]
  cases c with
  | inquiry =>
    have hbuffer : ∀ n ∈ some 36, n = (36 : BitVec 32).toNat := by decide
    refine ⟨fun h ↦ ⟨nofun, h.printed, nofun⟩, fun h ↦ ⟨?_, rfl, hbuffer, h.2.1, nofun⟩⟩
    change 256 * (fillInquiryCbw stack).cb[3].toNat + (fillInquiryCbw stack).cb[4].toNat = 36
    rw [fillInquiryCbw, fillCbw_cb, fillCbw_cb]
    rfl
  | reqSense =>
    refine ⟨fun h ↦ ?_, fun h ↦ absurd rfl h.1⟩
    have hcdb : (fillRequestSenseCbw stack).cb[4].toNat = 18 := h.cdb
    rw [fillRequestSenseCbw, fillCbw_cb] at hcdb
    cases hcdb
  | readCapacity =>
    have hbuffer : ∀ n ∈ some 8, n = (8 : BitVec 32).toNat := by decide
    exact ⟨fun h ↦ ⟨nofun, h.printed, nofun⟩, fun h ↦ ⟨rfl, rfl, hbuffer, h.2.1, nofun⟩⟩
  | readData capacity lba bc =>
    have hbuffer : ∀ n ∈ (readData capacity lba bc).bufferSize,
        n = (byteCount capacity.blength bc).toNat := fun n hn ↦ (Option.mem_some.mp hn).symm
    rw [blocks_agree_iff rfl rfl (fun _ ↦ rfl) rfl hbuffer]
    constructor
    · rintro ⟨hprinted, hrange⟩
      refine ⟨nofun, hprinted, ?_⟩
      rintro _ _ _ ⟨⟩
      exact hrange
    · exact fun ⟨_, hprinted, hrange⟩ ↦ ⟨hprinted, hrange _ _ _ rfl⟩
  | write capacity lba bc =>
    have hbuffer : ∀ n ∈ (write capacity lba bc).bufferSize,
        n = (byteCount capacity.blength bc).toNat := fun _ hn ↦ absurd hn (Option.not_mem_none _)
    rw [blocks_agree_iff rfl rfl (fun _ ↦ rfl) rfl hbuffer]
    constructor
    · rintro ⟨hprinted, hrange⟩
      refine ⟨nofun, hprinted, ?_⟩
      rintro _ _ _ ⟨⟩
      exact hrange
    · exact fun ⟨_, hprinted, hrange⟩ ↦ ⟨hprinted, hrange _ _ _ rfl⟩

/-- Of the commands that are sent, the lengths of INQUIRY and READ CAPACITY always agree, those
of REQUEST SENSE never, and those of READ(10) and WRITE(10) exactly if the blocks are on the
medium and their bytes can be counted in an `int`; the first block alone must also be long
enough to be decoded. -/
theorem lengthsAgree_iff (c : ScsiCommand) (stack : Cbw) :
    (c.sends = true → LengthsAgree c (c.cbw stack)) ↔ (c.sends = true → c.Fits) :=
  imp_congr_right fun _ ↦ c.agrees_iff stack

/-- One block too many at the end of a medium of 100 blocks is written, and REQUEST SENSE asks
for more than it is ready to receive. -/
theorem lengths_disagree :
    (ScsiCommand.write ⟨99, 512, 51200⟩ 99 2).sends = true ∧
      ¬ LengthsAgree (.write ⟨99, 512, 51200⟩ 99 2)
        ((ScsiCommand.write ⟨99, 512, 51200⟩ 99 2).cbw Cbw.zero) ∧
      ¬ LengthsAgree .reqSense (ScsiCommand.reqSense.cbw Cbw.zero) := by
  refine ⟨by decide, fun h ↦ ?_, fun h ↦ ?_⟩
  · exact absurd (h.range _ _ _ rfl).2.2 (by decide)
  · have hcdb : (fillRequestSenseCbw Cbw.zero).cb[4].toNat = 18 := h.cdb
    rw [fillRequestSenseCbw, fillCbw_cb] at hcdb
    cases hcdb

end Lengths

end BiMpp.Flash
