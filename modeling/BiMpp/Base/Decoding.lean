import Mathlib.Data.List.Infix

/-!
# Messages on a stream

Library `Base`. Messages are written one behind the other and read back one at a time. If reading
one message inverts writing it, whatever part of the stream has arrived is read as the messages
that have arrived whole, and the rest is kept.
-/

namespace BiMpp.Base

variable {α β : Type*}

/-- Reading one message off a stream inverts writing one. -/
structure Decodes (write : β → List α) (Good : β → Prop)
    (next : List α → Option (β × List α)) : Prop where
  whole : ∀ x, Good x → ∀ rest, next (write x ++ rest) = some (x, rest)
  sound : ∀ l x rest, next l = some (x, rest) → Good x ∧ l = write x ++ rest
  nonempty : ∀ x, Good x → write x ≠ []

/-- Read messages as long as there is a whole one: those read, and what is left. -/
def readAll (next : List α → Option (β × List α)) : Nat → List α → List β × List α
  | 0, l => ([], l)
  | fuel + 1, l =>
    match next l with
    | none => ([], l)
    | some (x, rest) => (x :: (readAll next fuel rest).1, (readAll next fuel rest).2)

section Steps

variable {next : List α → Option (β × List α)} {fuel : Nat} {l rest : List α} {x : β}

/-- Reading stops where no frame can be read. -/
theorem readAll_none (h : next l = none) : readAll next fuel l = ([], l) := by
  cases fuel with
  | zero => rfl
  | succ fuel => simp only [readAll, h]

/-- Reading goes on behind a frame that was read. -/
theorem readAll_some (h : next l = some (x, rest)) : readAll next (fuel + 1) l =
    (x :: (readAll next fuel rest).1, (readAll next fuel rest).2) := by
  simp only [readAll, h]

end Steps

namespace Decodes

variable {write : β → List α} {Good : β → Prop} {next : List α → Option (β × List α)}

/-- A message that has not arrived whole is not read. -/
theorem short (h : Decodes write Good next) {x : β} (hx : Good x) {l : List α}
    (hl : l <+: write x) (hne : l ≠ write x) : next l = none := by
  cases hn : next l with
  | none => rfl
  | some m =>
    obtain ⟨y, rest⟩ := m
    obtain ⟨hy, rfl⟩ := h.sound _ _ _ hn
    obtain ⟨q, hq⟩ := hl
    -- the whole message would be read as `y`, with something left
    have hread : next (write x) = some (y, rest ++ q) := by
      rw [← hq, List.append_assoc]
      exact h.whole y hy _
    have hwhole := h.whole x hx []
    rw [List.append_nil, hread] at hwhole
    cases (List.append_eq_nil_iff.mp (congrArg Prod.snd (Option.some.inj hwhole))).2
    exact (hne ((List.append_nil _).symm.trans hq)).elim

/-- Nothing is read off an empty stream. -/
theorem nil (h : Decodes write Good next) : next [] = none := by
  cases hn : next [] with
  | none => rfl
  | some m =>
    obtain ⟨hx, heq⟩ := h.sound _ _ _ hn
    exact (h.nonempty _ hx (List.append_eq_nil_iff.mp heq.symm).1).elim

/-- Of a stream of messages, cut off anywhere, the reader gets the first messages. -/
theorem readAll_prefix (h : Decodes write Good next) {xs : List β} (hxs : ∀ x ∈ xs, Good x)
    {l : List α} (hl : l <+: xs.flatMap write) {fuel : Nat} (hfuel : l.length ≤ fuel) :
    (readAll next fuel l).1 <+: xs := by
  induction xs generalizing l fuel with
  | nil =>
    obtain rfl := List.prefix_nil.mp hl
    rw [readAll_none h.nil]
  | cons x xs ih =>
    have hx := hxs x List.mem_cons_self
    rw [List.flatMap_cons] at hl
    by_cases hlong : write x <+: l
    · obtain ⟨rest, rfl⟩ := hlong
      have hpos : 0 < (write x).length := List.length_pos_iff.mpr (h.nonempty x hx)
      rw [List.length_append] at hfuel
      obtain ⟨fuel, rfl⟩ := Nat.exists_eq_add_of_lt (show 0 < fuel by omega)
      rw [Nat.zero_add, readAll_some (h.whole x hx rest), List.prefix_cons_inj]
      refine ih (fun y hy ↦ hxs y (List.mem_cons_of_mem x hy)) ?_ (by omega)
      exact (List.prefix_append_right_inj (write x)).mp hl
    · -- the first message is still arriving
      have hshort : l <+: write x :=
        (List.prefix_or_prefix_of_prefix hl (List.prefix_append (write x) _)).resolve_right hlong
      have hne : l ≠ write x := by
        rintro rfl
        exact hlong List.prefix_rfl
      rw [readAll_none (h.short hx hshort hne)]
      exact List.nil_prefix

/-- A stream of whole messages is read as them, and nothing is left. -/
theorem readAll_flatMap (h : Decodes write Good next) {xs : List β} (hxs : ∀ x ∈ xs, Good x)
    {fuel : Nat} (hfuel : (xs.flatMap write).length ≤ fuel) :
    readAll next fuel (xs.flatMap write) = (xs, []) := by
  induction xs generalizing fuel with
  | nil => exact readAll_none h.nil
  | cons x xs ih =>
    have hx := hxs x List.mem_cons_self
    have hpos : 0 < (write x).length := List.length_pos_iff.mpr (h.nonempty x hx)
    rw [List.flatMap_cons, List.length_append] at hfuel
    obtain ⟨fuel, rfl⟩ := Nat.exists_eq_add_of_lt (show 0 < fuel by omega)
    rw [Nat.zero_add, List.flatMap_cons, readAll_some (h.whole x hx _),
      ih (fun y hy ↦ hxs y (List.mem_cons_of_mem x hy)) (by omega)]

end Decodes

end BiMpp.Base
