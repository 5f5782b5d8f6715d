import Mathlib.Data.List.Basic

/-!
# Ring buffers without a count

Library `Base`. A ring of `n` cells with a front and a back index and no element count:
equal indices mean empty, so the `n`-th element pushed into an empty ring makes it look
empty again. `contents` is the queue a reader still sees.
-/

namespace BiMpp.Base

universe u

variable {α : Type u} {n : Nat}

/-- A ring of `n` cells. -/
structure Ring (α : Type u) (n : Nat) where
  front : Fin n
  back : Fin n
  cells : Fin n → α

namespace Ring

/-- The cell `i` places behind `f`, wrapping once. -/
def place (f : Fin n) (i : Nat) : Fin n := ⟨(f + i) % n, Nat.mod_lt _ f.pos⟩

/-- The index after another; `(i + 1) % n`. -/
def succ (i : Fin n) : Fin n := place i 1

/-- Whether there is something to read. -/
def nonempty (r : Ring α n) : Bool := r.front != r.back

/-- Store at the back and advance it. -/
def push (r : Ring α n) (x : α) : Ring α n :=
  { r with cells := Function.update r.cells r.back x, back := succ r.back }

/-- Read at the front and advance it. -/
def pop (r : Ring α n) : α × Ring α n := (r.cells r.front, { r with front := succ r.front })

/-- The number of elements from the front to the back. -/
def length (r : Ring α n) : Nat :=
  if r.front ≤ r.back then r.back - r.front else r.back + n - r.front

/-- The elements from the front to the back. -/
def contents (r : Ring α n) : List α := (List.range r.length).map fun i ↦ r.cells (place r.front i)

/-- A place that is past the end wraps around once. -/
theorem place_eq (f : Fin n) {i : Nat} (hi : i < n) :
    (place f i : Nat) = if f + i < n then f + i else f + i - n := by
  have hf := f.isLt
  simp only [place]
  split
  · next h => exact Nat.mod_eq_of_lt h
  · next h =>
    rw [Nat.mod_eq_sub_mod (by omega), Nat.mod_eq_of_lt (by omega)]

/-- The place behind the last is the first. -/
theorem succ_eq (i : Fin n) : (succ i : Nat) = if i + 1 < n then (i : Nat) + 1 else 0 := by
  have hi := i.isLt
  by_cases h : 1 < n
  · rw [succ, place_eq i h]
    split <;> omega
  · have hn : n = 1 := by omega
    subst hn
    have hs := (succ i).isLt
    rw [if_neg (by omega)]
    omega

/-- A ring of `n` slots never holds `n` elements. -/
theorem length_lt (r : Ring α n) : r.length < n := by
  have hf := r.front.isLt
  have hb := r.back.isLt
  simp only [length, Fin.le_def]
  split <;> omega

/-- The contents are as long as the ring says. -/
@[simp] theorem length_contents (r : Ring α n) : r.contents.length = r.length := by
  simp [contents]

/-- Places behind the front are different cells. -/
theorem place_inj (f : Fin n) {i j : Nat} (hi : i < n) (hj : j < n)
    (h : place f i = place f j) : i = j := by
  have hf := f.isLt
  have hv := congrArg Fin.val h
  rw [place_eq f hi, place_eq f hj] at hv
  split at hv <;> split at hv <;> omega

/-- The back is the place behind the last element. -/
theorem place_length (r : Ring α n) : place r.front r.length = r.back := by
  have hf := r.front.isLt
  have hb := r.back.isLt
  apply Fin.ext
  rw [place_eq _ r.length_lt]
  simp only [length, Fin.le_def]
  split <;> split <;> omega

/-- The test of the two indices is the test of the contents. -/
theorem nonempty_iff (r : Ring α n) : r.nonempty = true ↔ r.contents ≠ [] := by
  have hf := r.front.isLt
  have hb := r.back.isLt
  have hlen : r.front = r.back ↔ r.length = 0 := by
    rw [Fin.ext_iff]
    simp only [length, Fin.le_def]
    split <;> omega
  rw [nonempty, bne_iff_ne, Ne, hlen, contents, Ne, List.map_eq_nil_iff, List.range_eq_nil]

/-- Pushing appends, unless the ring becomes full and looks empty. -/
theorem contents_push (r : Ring α n) (x : α) :
    (r.push x).contents = if r.length + 1 < n then r.contents ++ [x] else [] := by
  have hf := r.front.isLt
  have hb := r.back.isLt
  have hlen : (r.push x).length = if r.length + 1 < n then r.length + 1 else 0 := by
    simp only [length, push, Fin.le_def, succ_eq]
    split <;> split <;> split <;> split <;> omega
  split
  · next hlt =>
    rw [if_pos hlt] at hlen
    rw [contents, hlen, List.range_succ, List.map_append, contents]
    congr 1
    · apply List.map_congr_left
      intro i hi
      have hi := List.mem_range.mp hi
      change Function.update r.cells r.back x (place r.front i) = _
      rw [Function.update_of_ne]
      intro he
      rw [← r.place_length] at he
      have hij := place_inj r.front (by omega) r.length_lt he
      omega
    · change [Function.update r.cells r.back x (place r.front r.length)] = _
      rw [r.place_length, Function.update_self]
  · next hlt =>
    rw [if_neg hlt] at hlen
    rw [contents, hlen]
    rfl

/-- Pushing adds nothing else. -/
theorem contents_push_sublist (r : Ring α n) (x : α) :
    (r.push x).contents.Sublist (r.contents ++ [x]) := by
  rw [contents_push]
  split
  · exact List.Sublist.refl _
  · exact List.nil_sublist _

/-- What is seen after a push was there or is what was pushed. -/
theorem mem_contents_push {r : Ring α n} {x y : α} (h : y ∈ (r.push x).contents) :
    y ∈ r.contents ∨ y = x := by
  have hy := (r.contents_push_sublist x).subset h
  rcases List.mem_append.mp hy with hy | hy
  · exact Or.inl hy
  · exact Or.inr (List.mem_singleton.mp hy)

/-- Pushing something new keeps a queue free of repetitions. -/
theorem nodup_contents_push {r : Ring α n} {x : α} (h : r.contents.Nodup) (hx : x ∉ r.contents) :
    (r.push x).contents.Nodup := by
  refine (r.contents_push_sublist x).nodup (List.nodup_append.mpr ⟨h, ?_, ?_⟩)
  · exact List.pairwise_singleton _ _
  · rintro y hy z hz rfl
    rw [List.mem_singleton.mp hz] at hy
    exact hx hy

/-- Popping takes the first element. -/
theorem contents_pop (r : Ring α n) (h : r.nonempty = true) :
    r.contents = r.pop.1 :: r.pop.2.contents := by
  have hf := r.front.isLt
  have hb := r.back.isLt
  have hne : (r.front : Nat) ≠ r.back := by
    rw [nonempty, bne_iff_ne] at h
    exact fun he ↦ h (Fin.ext he)
  have hlen : r.length = r.pop.2.length + 1 := by
    simp only [length, pop, Fin.le_def, succ_eq]
    split <;> split <;> split <;> omega
  have hlt := r.length_lt
  rw [contents, hlen, List.range_succ_eq_map, List.map_cons, List.map_map]
  congr 1
  · change r.cells _ = r.cells _
    congr 1
    apply Fin.ext
    rw [place_eq _ (by omega)]
    split <;> omega
  · apply List.map_congr_left
    intro i hi
    have hi := List.mem_range.mp hi
    change r.cells (place r.front (i + 1)) = r.cells (place (succ r.front) i)
    congr 1
    apply Fin.ext
    rw [place_eq _ (by omega), place_eq _ (by omega), succ_eq]
    split <;> split <;> split <;> omega

/-- An element pushed into an empty ring is the next one popped, and the only one. -/
theorem pop_push (r : Ring α n) (x : α) (hn : 1 < n) (h : r.contents = []) :
    (r.push x).pop.1 = x ∧ (r.push x).pop.2.contents = [] := by
  have hlen : r.length = 0 := by
    rw [← length_contents, h]
    rfl
  have hpush : (r.push x).contents = [x] := by
    rw [contents_push, if_pos (by omega), h, List.nil_append]
  have hne : (r.push x).nonempty = true := by
    rw [nonempty_iff, hpush]
    exact List.cons_ne_nil x []
  rw [contents_pop _ hne, List.cons.injEq] at hpush
  exact hpush

end Ring

end BiMpp.Base
