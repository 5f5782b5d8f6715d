import Mathlib.Algebra.Group.Nat.Defs
import Mathlib.Data.List.Basic
import Mathlib.Data.List.GetD

/-!
# Words in a byte list

Library `Base`. Thirty-two bit words written high byte first, one after the other, and
read back by their number.
-/

namespace BiMpp.Base

/-- The four bytes of a word, high byte first. -/
def wordBytes (x : BitVec 32) : List UInt8 :=
  [⟨x.extractLsb' 24 8⟩, ⟨x.extractLsb' 16 8⟩, ⟨x.extractLsb' 8 8⟩, ⟨x.extractLsb' 0 8⟩]

/-- The word of four bytes, high byte first. -/
def wordOf (a b c d : UInt8) : BitVec 32 :=
  a.toBitVec ++ (b.toBitVec ++ (c.toBitVec ++ d.toBitVec))

/-- The `i`-th word of a byte list; bytes behind its end read as zero. -/
def wordAt (l : List UInt8) (i : Nat) : BitVec 32 :=
  wordOf (l.getD (4 * i) 0) (l.getD (4 * i + 1) 0) (l.getD (4 * i + 2) 0) (l.getD (4 * i + 3) 0)

/-- A word has four bytes. -/
@[simp] theorem length_wordBytes (x : BitVec 32) : (wordBytes x).length = 4 := rfl

/-- The bytes of a word are those it was made of. -/
theorem wordBytes_wordOf (a b c d : UInt8) : wordBytes (wordOf a b c d) = [a, b, c, d] := by
  obtain ⟨a⟩ := a
  obtain ⟨b⟩ := b
  obtain ⟨c⟩ := c
  obtain ⟨d⟩ := d
  have ha : (a ++ (b ++ (c ++ d))).extractLsb' 24 8 = a := BitVec.extractLsb'_append_eq_left
  have hb : (a ++ (b ++ (c ++ d))).extractLsb' 16 8 = b := by
    rw [BitVec.extractLsb'_append_eq_of_add_le (by decide)]
    exact BitVec.extractLsb'_append_eq_left
  have hc : (a ++ (b ++ (c ++ d))).extractLsb' 8 8 = c := by
    rw [BitVec.extractLsb'_append_eq_of_add_le (by decide),
      BitVec.extractLsb'_append_eq_of_add_le (by decide)]
    exact BitVec.extractLsb'_append_eq_left
  have hd : (a ++ (b ++ (c ++ d))).extractLsb' 0 8 = d := by
    rw [BitVec.extractLsb'_append_eq_of_add_le (by decide),
      BitVec.extractLsb'_append_eq_of_add_le (by decide),
      BitVec.extractLsb'_append_eq_of_add_le (by decide), BitVec.extractLsb'_eq_self]
  simp only [wordBytes, wordOf, ha, hb, hc, hd]

/-- A word is made of its bytes. -/
theorem wordOf_extract (x : BitVec 32) :
    wordOf ⟨x.extractLsb' 24 8⟩ ⟨x.extractLsb' 16 8⟩ ⟨x.extractLsb' 8 8⟩ ⟨x.extractLsb' 0 8⟩
      = x := by
  have hlow : x.extractLsb' 8 8 ++ x.extractLsb' 0 8 = x.extractLsb' 0 16 :=
    BitVec.extractLsb'_append_extractLsb'_eq_extractLsb' rfl
  have hmid : x.extractLsb' 16 8 ++ x.extractLsb' 0 16 = x.extractLsb' 0 24 :=
    BitVec.extractLsb'_append_extractLsb'_eq_extractLsb' rfl
  have hall : x.extractLsb' 24 8 ++ x.extractLsb' 0 24 = x.extractLsb' 0 32 :=
    BitVec.extractLsb'_append_extractLsb'_eq_extractLsb' rfl
  change x.extractLsb' 24 8 ++ (x.extractLsb' 16 8 ++ (x.extractLsb' 8 8 ++ x.extractLsb' 0 8)) = x
  rw [hlow, hmid, hall, BitVec.extractLsb'_eq_self]

private theorem or_shiftLefts {a b c d : Nat} (hb : b < 2 ^ 8) (hc : c < 2 ^ 8) (hd : d < 2 ^ 8) :
    a <<< 24 ||| (b <<< 16 ||| (c <<< 8 ||| d)) =
      a * 2 ^ 24 + b * 2 ^ 16 + c * 2 ^ 8 + d := by
  have hlow : c <<< 8 ||| d = c * 2 ^ 8 + d := by
    rw [← Nat.shiftLeft_add_eq_or_of_lt hd, Nat.shiftLeft_eq]
  have hmid : b <<< 16 ||| (c * 2 ^ 8 + d) = b * 2 ^ 16 + (c * 2 ^ 8 + d) := by
    rw [← Nat.shiftLeft_add_eq_or_of_lt (by omega), Nat.shiftLeft_eq]
  rw [hlow, hmid, ← Nat.shiftLeft_add_eq_or_of_lt (by omega), Nat.shiftLeft_eq]
  omega

/-- The value of a word, high byte first. -/
theorem toNat_wordOf (a b c d : UInt8) : (wordOf a b c d).toNat =
    a.toNat * 2 ^ 24 + b.toNat * 2 ^ 16 + c.toNat * 2 ^ 8 + d.toNat := by
  rw [wordOf, BitVec.toNat_append, BitVec.toNat_append, BitVec.toNat_append]
  exact or_shiftLefts b.toNat_lt c.toNat_lt d.toNat_lt

/-- A byte of a word, shifted to its place; no bit is lost. -/
theorem toNat_shiftedByte (x : UInt8) {k : Nat} (hk : k ≤ 24) :
    (x.toBitVec.setWidth 32 <<< k).toNat = x.toNat * 2 ^ k := by
  have hx := x.toNat_lt
  have hlt : x.toNat * 2 ^ k < 2 ^ 32 := by
    calc x.toNat * 2 ^ k ≤ x.toNat * 2 ^ 24 :=
          Nat.mul_le_mul_left _ (Nat.pow_le_pow_right (by decide) hk)
      _ < 2 ^ 32 := by omega
  rw [BitVec.toNat_shiftLeft, BitVec.toNat_setWidth, UInt8.toNat_toBitVec,
    Nat.mod_eq_of_lt (Nat.lt_trans hx (by decide)), Nat.shiftLeft_eq, Nat.mod_eq_of_lt hlt]

/-- A word put together from its shifted bytes. -/
theorem or_shifts_eq_wordOf (a b c d : UInt8) :
    (a.toBitVec.setWidth 32 <<< 24 ||| b.toBitVec.setWidth 32 <<< 16 |||
      c.toBitVec.setWidth 32 <<< 8 ||| d.toBitVec.setWidth 32) = wordOf a b c d := by
  have hlast : (d.toBitVec.setWidth 32).toNat = d.toNat := by
    rw [BitVec.toNat_setWidth, UInt8.toNat_toBitVec,
      Nat.mod_eq_of_lt (Nat.lt_trans d.toNat_lt (by decide))]
  apply BitVec.eq_of_toNat_eq
  rw [toNat_wordOf, BitVec.toNat_or, BitVec.toNat_or, BitVec.toNat_or,
    toNat_shiftedByte a (by decide), toNat_shiftedByte b (by decide),
    toNat_shiftedByte c (by decide), hlast, Nat.or_assoc, Nat.or_assoc, ← Nat.shiftLeft_eq,
    ← Nat.shiftLeft_eq, ← Nat.shiftLeft_eq]
  rw [or_shiftLefts b.toNat_lt c.toNat_lt d.toNat_lt]
  simp only [Nat.shiftLeft_eq]

/-- A word read behind the first byte is a word of the rest. -/
theorem wordAt_cons (a b c d : UInt8) (l : List UInt8) (i : Nat) :
    wordAt (a :: b :: c :: d :: l) (i + 1) = wordAt l i := by
  simp only [wordAt, Nat.mul_add, Nat.mul_one]
  rfl

/-- Words are read back as they were written. -/
theorem wordAt_flatMap (ws : List (BitVec 32)) (rest : List UInt8) {i : Nat} (h : i < ws.length) :
    wordAt (ws.flatMap wordBytes ++ rest) i = ws[i] := by
  induction ws generalizing i with
  | nil => cases h
  | cons w ws ih =>
    rw [List.flatMap_cons, List.append_assoc]
    cases i with
    | zero => exact wordOf_extract w
    | succ i =>
      have hi : i < ws.length := Nat.lt_of_succ_lt_succ h
      change wordAt (_ :: _ :: _ :: _ :: (ws.flatMap wordBytes ++ rest)) (i + 1) = ws[i]
      rw [wordAt_cons]
      exact ih hi

/-- What is behind a word does not matter to it. -/
theorem wordAt_append {l : List UInt8} (rest : List UInt8) {i : Nat} (h : 4 * i + 4 ≤ l.length) :
    wordAt (l ++ rest) i = wordAt l i := by
  have hget : ∀ j, j < l.length → (l ++ rest).getD j 0 = l.getD j 0 :=
    fun j hj ↦ List.getD_append l rest 0 j hj
  simp only [wordAt]
  rw [hget _ (by omega), hget _ (by omega), hget _ (by omega), hget _ (by omega)]

/-- Every word takes four bytes. -/
theorem length_flatMap_wordBytes (ws : List (BitVec 32)) :
    (ws.flatMap wordBytes).length = 4 * ws.length := by
  induction ws with
  | nil => rfl
  | cons w ws ih =>
    rw [List.flatMap_cons, List.length_append, ih, length_wordBytes, List.length_cons]
    omega

/-- A byte list is its first words and the rest. -/
theorem flatMap_wordAt (l : List UInt8) {n : Nat} (h : 4 * n ≤ l.length) :
    ((List.range n).map (wordAt l)).flatMap wordBytes ++ l.drop (4 * n) = l := by
  induction n generalizing l with
  | zero => rfl
  | succ n ih =>
    match l, h with
    | a :: b :: c :: d :: l, h =>
      have hl : 4 * n ≤ l.length := by
        simp only [List.length_cons] at h
        omega
      have hmap : (List.range n).map ((wordAt (a :: b :: c :: d :: l)) ∘ Nat.succ) =
          (List.range n).map (wordAt l) :=
        List.map_congr_left fun i _ ↦ wordAt_cons a b c d l i
      rw [List.range_succ_eq_map, List.map_cons, List.map_map, hmap, List.flatMap_cons,
        List.append_assoc]
      change wordBytes (wordOf a b c d) ++ (_ ++ l.drop (4 * n)) = _
      rw [ih l hl, wordBytes_wordOf]
      rfl

end BiMpp.Base
