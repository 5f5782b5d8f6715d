import Mathlib.Data.List.Basic
import BiMpp.Base.Run

/-!
# Buffers

Library `Base`. Reads and writes of a buffer of fixed length, each with its bounds check.
A row of writes is a list of places and bytes; what is read back at a place is what the last
write there has put.
-/

namespace BiMpp.Base

universe u v

variable {φ : Type u} {α : Type v}

/-- The byte at a place, or `f` outside the buffer. -/
def load (f : φ) (l : List α) (i : Nat) : Except φ α :=
  match l[i]? with
  | none => .error f
  | some b => .ok b

/-- Put bytes at a place, or `f` where they do not fit. -/
def store (f : φ) (l : List α) (off : Nat) (bs : List α) : Except φ (List α) :=
  if off + bs.length ≤ l.length then .ok (l.take off ++ bs ++ l.drop (off + bs.length))
  else .error f

/-- The `n` bytes from a place on. -/
def slice (l : List α) (off n : Nat) : List α := (l.drop off).take n

variable {f : φ} {l l' l'' : List α} {i off off' n : Nat} {b : α} {bs : List α}

/-- A load succeeds exactly inside the array. -/
theorem load_eq_ok : load f l i = .ok b ↔ l[i]? = some b := by
  unfold load
  cases l[i]? <;> simp

/-- A store succeeds exactly inside the array. -/
theorem store_eq_ok : store f l off bs = .ok l' ↔
    off + bs.length ≤ l.length ∧ l.take off ++ bs ++ l.drop (off + bs.length) = l' := by
  unfold store
  split
  · next hle => simp only [hle, true_and, Except.ok.injEq]
  · next hle => simp only [hle, false_and, reduceCtorEq]

/-- A store leaves the length of the array. -/
theorem store_length (h : store f l off bs = .ok l') : l'.length = l.length := by
  obtain ⟨hle, rfl⟩ := store_eq_ok.mp h
  simp only [List.length_append, List.length_take, List.length_drop]
  omega

/-- What was written is there. -/
theorem slice_store (h : store f l off bs = .ok l') : slice l' off bs.length = bs := by
  obtain ⟨hle, rfl⟩ := store_eq_ok.mp h
  have htake : (l.take off).length = off := by
    rw [List.length_take]
    omega
  rw [slice, List.append_assoc, List.drop_left' htake, List.take_left]

/-- The rest is as it was. -/
theorem slice_store_of_disjoint (h : store f l off bs = .ok l')
    (hd : off' + n ≤ off ∨ off + bs.length ≤ off') : slice l' off' n = slice l off' n := by
  obtain ⟨hle, rfl⟩ := store_eq_ok.mp h
  have htake : (l.take off).length = off := by
    rw [List.length_take]
    omega
  rcases hd with hd | hd
  · have hfront : ∀ r, slice (l.take off ++ r) off' n = slice (l.take off) off' n := fun r ↦ by
      have hlen : n ≤ ((l.take off).drop off').length := by
        rw [List.length_drop, htake]
        omega
      rw [slice, List.drop_append_of_le_length (by omega), List.take_append_of_le_length hlen]
      rfl
    rw [List.append_assoc, hfront, ← hfront (l.drop off), List.take_append_drop]
  · have hlen : (l.take off ++ bs).length = off + bs.length := by
      rw [List.length_append, htake]
    obtain ⟨d, rfl⟩ := Nat.exists_eq_add_of_le hd
    rw [slice, ← List.drop_drop, List.drop_left' hlen, List.drop_drop]
    rfl

/-- Put bytes at several places, one after the other. -/
def storeAll (f : φ) : List α → List (Nat × List α) → Except φ (List α)
  | l, [] => .ok l
  | l, w :: ws => store f l w.1 w.2 >>= fun l ↦ storeAll f l ws

/-- Two writes do not meet. -/
def Apart (w v : Nat × List α) : Prop := w.1 + w.2.length ≤ v.1 ∨ v.1 + v.2.length ≤ w.1

variable {ws ws' : List (Nat × List α)} {w : Nat × List α}

/-- A list of stores is run part by part. -/
theorem storeAll_append : storeAll f l (ws ++ ws') =
    storeAll f l ws >>= fun l ↦ storeAll f l ws' := by
  induction ws generalizing l with
  | nil => rfl
  | cons w ws ih =>
    cases hs : store f l w.1 w.2 with
    | error e => simp only [List.cons_append, storeAll, hs, error_bind]
    | ok l' => simp only [List.cons_append, storeAll, hs, ok_bind, ih]

/-- A list of stores leaves the length of the array. -/
theorem storeAll_length (h : storeAll f l ws = .ok l') : l'.length = l.length := by
  induction ws generalizing l with
  | nil => exact congrArg List.length (Except.ok.inj h).symm
  | cons w ws ih =>
    obtain ⟨l₁, hl₁, h⟩ := bind_eq_ok.mp h
    rw [ih h, store_length hl₁]

/-- Writes that all fit succeed. -/
theorem storeAll_exists (h : ∀ w ∈ ws, w.1 + w.2.length ≤ l.length) :
    ∃ l', storeAll f l ws = .ok l' := by
  induction ws generalizing l with
  | nil => exact ⟨l, rfl⟩
  | cons w ws ih =>
    have hs := store_eq_ok (f := f).mpr ⟨h w List.mem_cons_self, rfl⟩
    obtain ⟨l', hl'⟩ := ih fun v hv ↦ by
      rw [store_length hs]
      exact h v (List.mem_cons_of_mem _ hv)
    exact ⟨l', bind_eq_ok.mpr ⟨_, hs, hl'⟩⟩

/-- A place that no write touches is as it was. -/
theorem slice_storeAll_of_disjoint (h : storeAll f l ws = .ok l')
    (hd : ∀ w ∈ ws, off' + n ≤ w.1 ∨ w.1 + w.2.length ≤ off') :
    slice l' off' n = slice l off' n := by
  induction ws generalizing l with
  | nil => rw [Except.ok.inj h]
  | cons w ws ih =>
    obtain ⟨l₁, hl₁, h⟩ := bind_eq_ok.mp h
    rw [ih h fun v hv ↦ hd v (List.mem_cons_of_mem _ hv),
      slice_store_of_disjoint hl₁ (hd w List.mem_cons_self)]

/-- A write that no later one meets is read back. -/
theorem slice_storeAll (h : storeAll f l (ws ++ w :: ws') = .ok l')
    (hd : ∀ v ∈ ws', Apart w v) : slice l' w.1 w.2.length = w.2 := by
  rw [storeAll_append] at h
  obtain ⟨l₁, -, h⟩ := bind_eq_ok.mp h
  obtain ⟨l₂, hl₂, h⟩ := bind_eq_ok.mp h
  rw [slice_storeAll_of_disjoint h hd, slice_store hl₂]

/-- Writes of which no two meet are all read back, whatever was written before them. -/
theorem slice_storeAll_of_pairwise (h : storeAll f l (ws ++ ws') = .ok l')
    (hp : ws'.Pairwise Apart) (hw : w ∈ ws') : slice l' w.1 w.2.length = w.2 := by
  obtain ⟨front, back, rfl⟩ := List.append_of_mem hw
  rw [← List.append_assoc] at h
  exact slice_storeAll h (List.pairwise_cons.mp (List.pairwise_append.mp hp).2.1).1

end BiMpp.Base
