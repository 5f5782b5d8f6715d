import Mathlib.Data.List.Basic

/-!
# Singly linked chains in a heap

Library `Base`. `next g` is the successor pointer stored in the cell at `g`, and `none`
where no cell is allocated. A chain is the list of cells met from a head pointer down
to a null pointer; it is unique, acyclic, and insensitive to cells outside it.
-/

namespace BiMpp.Base

universe u

variable {α : Type u}

/-- The cells from pointer `p` along `next` are exactly `xs`, and the last points to null. -/
def Chain (next : α → Option (Option α)) : Option α → List α → Prop
  | p, [] => p = none
  | p, g :: gs => p = some g ∧ ∃ n, next g = some n ∧ Chain next n gs

namespace Chain

variable {next next' : α → Option (Option α)} {p : Option α} {xs ys : List α} {g : α}

/-- The chain of no nodes starts at the null pointer. -/
@[simp] theorem nil_iff : Chain next p [] ↔ p = none := Iff.rfl

/-- A chain goes through its first node to the chain of the others. -/
@[simp] theorem cons_iff : Chain next p (g :: xs) ↔
    p = some g ∧ ∃ n, next g = some n ∧ Chain next n xs := Iff.rfl

/-- The head pointer is the first cell, or null for the empty chain. -/
theorem head_eq (h : Chain next p xs) : p = xs.head? := by
  cases xs with
  | nil => exact h
  | cons g gs => exact h.1

/-- The head pointer is null exactly when the chain is empty. -/
theorem head_none_iff (h : Chain next p xs) : p = none ↔ xs = [] := by
  rw [h.head_eq, List.head?_eq_none_iff]

/-- Every cell of a chain is allocated. -/
theorem allocated (h : Chain next p xs) (hg : g ∈ xs) : ∃ n, next g = some n := by
  induction xs generalizing p with
  | nil => cases hg
  | cons x xs ih =>
    obtain ⟨-, n, hn, ht⟩ := h
    rcases List.mem_cons.mp hg with rfl | hg
    · exact ⟨n, hn⟩
    · exact ih ht hg

/-- A head pointer determines the chain. -/
theorem unique (hx : Chain next p xs) (hy : Chain next p ys) : xs = ys := by
  induction xs generalizing p ys with
  | nil =>
    rw [nil_iff.mp hx] at hy
    exact (hy.head_none_iff.mp rfl).symm
  | cons x xs ih =>
    obtain ⟨rfl, n, hn, hxs⟩ := hx
    cases ys with
    | nil => exact nomatch hy
    | cons y ys =>
      obtain ⟨he, m, hm, hys⟩ := hy
      obtain rfl := Option.some.inj he
      obtain rfl := Option.some.inj (hn.symm.trans hm)
      rw [ih hxs hys]

/-- From any cell of a chain the rest of the chain hangs. -/
theorem suffix (h : Chain next p (xs ++ g :: ys)) : Chain next (some g) (g :: ys) := by
  induction xs generalizing p with
  | nil => exact ⟨rfl, h.2⟩
  | cons x xs ih =>
    obtain ⟨-, n, -, ht⟩ := h
    exact ih ht

/-- A chain never meets a cell twice. -/
theorem nodup (h : Chain next p xs) : xs.Nodup := by
  induction xs generalizing p with
  | nil => exact List.nodup_nil
  | cons x xs ih =>
    have hs : Chain next (some x) (x :: xs) := ⟨rfl, h.2⟩
    obtain ⟨-, n, -, ht⟩ := h
    refine List.nodup_cons.mpr ⟨fun hx ↦ ?_, ih ht⟩
    -- a second visit would hang the same rest below both occurrences
    obtain ⟨l₁, l₂, rfl⟩ := List.append_of_mem hx
    have hlen := congrArg List.length (hs.unique (suffix ht))
    simp only [List.length_cons, List.length_append] at hlen
    omega

/-- Changing cells outside a chain keeps it. -/
theorem frame (h : Chain next p xs) (hn : ∀ x ∈ xs, next' x = next x) : Chain next' p xs := by
  induction xs generalizing p with
  | nil => exact h
  | cons x xs ih =>
    obtain ⟨hp, n, hx, ht⟩ := h
    refine ⟨hp, n, (hn x (by simp)).trans hx, ih ht fun y hy ↦ hn y (by simp [hy])⟩

/-- Linking a fresh cell behind the last one appends it. -/
theorem snoc {t : α} (h : Chain next p xs) (hlast : xs.getLast? = some t)
    (ht : next' t = some (some g)) (hg : next' g = some none)
    (hn : ∀ x ∈ xs, x ≠ t → next' x = next x) : Chain next' p (xs ++ [g]) := by
  have hnd := h.nodup
  induction xs generalizing p with
  | nil => exact nomatch hlast
  | cons x xs ih =>
    obtain ⟨hp, n, hx, hrest⟩ := h
    obtain ⟨hxs, hnd⟩ := List.nodup_cons.mp hnd
    cases xs with
    | nil =>
      obtain rfl : x = t := by simpa using hlast
      exact ⟨hp, some g, ht, rfl, none, hg, rfl⟩
    | cons y ys =>
      have hlast' : (y :: ys).getLast? = some t := by simpa using hlast
      have hxt : x ≠ t := by
        rintro rfl
        exact hxs (List.mem_of_getLast? hlast')
      refine ⟨hp, n, (hn x (by simp) hxt).trans hx, ih hrest hlast' ?_ hnd⟩
      intro z hz
      exact hn z (by simp [hz])

/-- A cell points to the head of the rest. -/
theorem next_eq (h : Chain next p (xs ++ g :: ys)) : next g = some ys.head? := by
  obtain ⟨-, n, hn, hrest⟩ := h.suffix
  rw [hn, hrest.head_eq]

/-- Passing a cell by: its predecessor takes over its successor. -/
theorem bypass {u : α} (h : Chain next p (xs ++ g :: u :: ys)) (hg : next' g = next u)
    (hn : ∀ x ∈ xs ++ ys, next' x = next x) : Chain next' p (xs ++ g :: ys) := by
  induction xs generalizing p with
  | nil =>
    obtain ⟨hp, m, -, -, n, hu, hrest⟩ := h
    exact ⟨hp, n, hg.trans hu, hrest.frame hn⟩
  | cons x xs ih =>
    obtain ⟨hp, n, hx, hrest⟩ := h
    refine ⟨hp, n, (hn x (by simp)).trans hx, ih hrest fun y hy ↦ hn y ?_⟩
    exact List.mem_cons_of_mem _ hy

end Chain

end BiMpp.Base
