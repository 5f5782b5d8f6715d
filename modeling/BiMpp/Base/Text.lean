import Mathlib.Data.List.TakeWhile
import Mathlib.Data.UInt

/-!
# Strings in buffers

Library `Base`. A string in memory is its characters and a zero byte; a function that is
given only the place of a string reads on to the first zero byte, if the memory has one.
-/

namespace BiMpp.Base

/-- The bytes of characters. -/
def ascii (l : List Char) : List UInt8 := l.map Char.toUInt8

/-- The bytes of a string with its terminator. -/
def cString (l : List Char) : List UInt8 := ascii l ++ [0]

/-- What is read as a string: the bytes in front of the first zero byte. -/
def cText (l : List UInt8) : Option (List UInt8) :=
  if 0 ∈ l then some (l.takeWhile (· != 0)) else none

variable {l s : List UInt8}

/-- A string without zero bytes is read up to its terminator. -/
theorem cText_of_zero (hs : 0 ∉ s) (r : List UInt8) : cText (s ++ 0 :: r) = some s := by
  have hall : ∀ b ∈ s, (b != 0) = true := fun b hb ↦ bne_iff_ne.mpr fun h ↦ hs (h ▸ hb)
  rw [cText, if_pos (List.mem_append_right _ List.mem_cons_self), List.takeWhile_append_of_pos hall,
    List.takeWhile_cons_of_neg (by simp), List.append_nil]

/-- Without a zero byte the reading does not end in the buffer. -/
theorem cText_eq_none : cText l = none ↔ 0 ∉ l := by
  unfold cText
  split
  · next h => exact ⟨nofun, fun hn ↦ absurd h hn⟩
  · next h => exact ⟨fun _ ↦ h, fun _ ↦ rfl⟩

/-- What is read ends at the first zero byte. -/
theorem cText_eq_some : cText l = some s ↔ 0 ∉ s ∧ ∃ r, l = s ++ 0 :: r := by
  constructor
  · intro h
    have hmem : 0 ∈ l := by
      by_contra hn
      rw [cText_eq_none.mpr hn] at h
      cases h
    obtain ⟨a, r, rfl, ha⟩ := List.eq_append_cons_of_mem hmem
    rw [cText_of_zero ha] at h
    cases h
    exact ⟨ha, r, rfl⟩
  · rintro ⟨hs, r, rfl⟩
    exact cText_of_zero hs r

end BiMpp.Base
