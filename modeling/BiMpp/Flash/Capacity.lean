import BiMpp.Base.Words

/-!
# The capacity of a flash disk

`decode_read_capacity_data` of `cv05_flash/main.c:429–443`: two words of the response, high
byte first, and their product. An `int` and a `uint32_t` are 32 bits; a byte shifted into the
sign bit of an `int` is the same bit of the `uint32_t` it is stored in.
-/

namespace BiMpp.Flash
open BiMpp.Base

/-- `TReadCapacityData`; `main.c:423–427`. -/
structure TReadCapacityData where
  mlba : BitVec 32
  blength : BitVec 32
  capacity : BitVec 64
  deriving DecidableEq, Repr

/-- `data[i] << k`, where `data[i]` has become an `int`. -/
def shifted (b : UInt8) (k : Nat) : BitVec 32 := b.toBitVec.setWidth 32 <<< k

/-- `mlba + 1`, in 32 bits; `main.c:433`. -/
def blockCount (mlba : BitVec 32) : BitVec 32 := mlba + 1

/-- `(uint64_t)(mlba+1) * blength`; `main.c:433`. -/
def capacityOf (mlba blength : BitVec 32) : BitVec 64 :=
  (blockCount mlba).setWidth 64 * blength.setWidth 64

/-- `decode_read_capacity_data`; `main.c:429–443`. -/
def decodeReadCapacityData (data : Vector UInt8 8) : TReadCapacityData :=
  let mlba := shifted data[0] 24 ||| shifted data[1] 16 ||| shifted data[2] 8 |||
    data[3].toBitVec.setWidth 32
  let blength := shifted data[4] 24 ||| shifted data[5] 16 ||| shifted data[6] 8 |||
    data[7].toBitVec.setWidth 32
  ⟨mlba, blength, capacityOf mlba blength⟩

/-- The value of four bytes, high byte first. -/
def bigEndian (a b c d : UInt8) : Nat :=
  a.toNat * 2 ^ 24 + b.toNat * 2 ^ 16 + c.toNat * 2 ^ 8 + d.toNat

/-- The response is decoded exactly, and no step on the way wraps around: not the shifts, not
the sum, not the product. -/
structure DecodedExactly (data : Vector UInt8 8) (r : TReadCapacityData) : Prop where
  mlba : r.mlba.toNat = bigEndian data[0] data[1] data[2] data[3]
  blength : r.blength.toNat = bigEndian data[4] data[5] data[6] data[7]
  capacity : r.capacity.toNat = (r.mlba.toNat + 1) * r.blength.toNat
  shifts : ∀ i : Fin 8, (shifted data[i] (24 - 8 * (i % 4))).toNat =
    data[i].toNat * 2 ^ (24 - 8 * (i.val % 4))
  sum : (blockCount r.mlba).toNat = r.mlba.toNat + 1
  product : (capacityOf r.mlba r.blength).toNat = (blockCount r.mlba).toNat * r.blength.toNat

/-- The two words of a response. -/
theorem decode_words (data : Vector UInt8 8) :
    (decodeReadCapacityData data).mlba = wordOf data[0] data[1] data[2] data[3] ∧
      (decodeReadCapacityData data).blength = wordOf data[4] data[5] data[6] data[7] :=
  ⟨or_shifts_eq_wordOf .., or_shifts_eq_wordOf ..⟩

/-- The product of two words fits into 64 bits. -/
theorem toNat_capacityOf (mlba blength : BitVec 32) :
    (capacityOf mlba blength).toNat = (blockCount mlba).toNat * blength.toNat := by
  have hm := (blockCount mlba).isLt
  have hb := blength.isLt
  have hlt : (blockCount mlba).toNat * blength.toNat < 2 ^ 64 :=
    Nat.lt_of_lt_of_eq (Nat.mul_lt_mul'' hm hb) rfl
  rw [capacityOf, BitVec.toNat_mul, BitVec.toNat_setWidth, BitVec.toNat_setWidth,
    Nat.mod_eq_of_lt (Nat.lt_trans hm (by decide)), Nat.mod_eq_of_lt (Nat.lt_trans hb (by decide)),
    Nat.mod_eq_of_lt hlt]

/-- The number of blocks is one more than the last address, but for the last word of all. -/
theorem toNat_blockCount (mlba : BitVec 32) :
    (blockCount mlba).toNat = mlba.toNat + 1 ↔ mlba.toNat ≠ 2 ^ 32 - 1 := by
  have hm := mlba.isLt
  rw [blockCount, BitVec.toNat_add]
  change (mlba.toNat + 1) % 2 ^ 32 = _ ↔ _
  omega

/-- Four bytes are the greatest word exactly if each of them is. -/
theorem bigEndian_eq_max (a b c d : UInt8) : bigEndian a b c d = 2 ^ 32 - 1 ↔
    a = 0xFF ∧ b = 0xFF ∧ c = 0xFF ∧ d = 0xFF := by
  have ha := a.toNat_lt
  have hb := b.toNat_lt
  have hc := c.toNat_lt
  have hd := d.toNat_lt
  have hmax : ∀ x : UInt8, x = 0xFF ↔ x.toNat = 255 := fun x ↦ UInt8.toNat_inj.symm
  rw [hmax, hmax, hmax, hmax, bigEndian]
  omega

/-- Every response is decoded exactly but the one whose last block address is `0xFFFFFFFF`. -/
theorem decode_exactly_iff (data : Vector UInt8 8) :
    DecodedExactly data (decodeReadCapacityData data) ↔
      ¬ (data[0] = 0xFF ∧ data[1] = 0xFF ∧ data[2] = 0xFF ∧ data[3] = 0xFF) := by
  obtain ⟨hm, hb⟩ := decode_words data
  have hmlba : (decodeReadCapacityData data).mlba.toNat =
      bigEndian data[0] data[1] data[2] data[3] := by
    rw [hm]
    exact toNat_wordOf ..
  rw [← bigEndian_eq_max, ← hmlba, ← ne_eq, ← toNat_blockCount]
  constructor
  · exact DecodedExactly.sum
  · intro hsum
    refine ⟨hmlba, ?_, ?_, fun i ↦ toNat_shiftedByte _ (Nat.sub_le _ _), hsum,
      toNat_capacityOf _ _⟩
    · rw [hb]
      exact toNat_wordOf ..
    · rw [← hsum]
      exact toNat_capacityOf _ _

/-- A disk of 2 TiB with blocks of 512 bytes is taken for an empty one. -/
theorem decode_last_address :
    (decodeReadCapacityData #v[0xFF, 0xFF, 0xFF, 0xFF, 0, 0, 2, 0]).capacity = 0 ∧
      ¬ DecodedExactly #v[0xFF, 0xFF, 0xFF, 0xFF, 0, 0, 2, 0]
        (decodeReadCapacityData #v[0xFF, 0xFF, 0xFF, 0xFF, 0, 0, 2, 0]) := by
  refine ⟨by decide, fun h ↦ ?_⟩
  exact absurd h.capacity (by decide)

end BiMpp.Flash
