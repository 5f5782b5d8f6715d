import Mathlib.Logic.Relation
import BiMpp.Base.Run

/-!
# Loops that look for a place

Library `Base`. `search look` goes from state to state as long as `look` gives a next one.
What it returns does not depend on the fuel: the state that `look` ends in, if there is one.
`forBelow n body` counts, and is left with the first value that `body` gives; `eachBelow n body`
counts to the end, and collects.
-/

namespace BiMpp.Base

universe u

variable {σ φ : Type u}

/-- Go on from `s` until `look` says to stop there. -/
def search (look : σ → Except φ (Option σ)) (out : φ) : Nat → σ → Except φ σ
  | 0, _ => .error out
  | fuel + 1, s =>
    match look s with
    | .error f => .error f
    | .ok none => .ok s
    | .ok (some s') => search look out fuel s'

/-- `look` leads from one state to the next. -/
def Leads (look : σ → Except φ (Option σ)) (s s' : σ) : Prop := look s = .ok (some s')

variable {look : σ → Except φ (Option σ)} {out : φ} {s s' t : σ} {fuel fuel' : Nat}

/-- The search ends where a chain of steps leads. -/
theorem search_of_leads (h : Leads look s s') :
    search look out (fuel + 1) s = search look out fuel s' := by
  rw [search, h]

/-- The search ends at once where its step stops. -/
theorem search_of_stop (h : look s = .ok none) : search look out (fuel + 1) s = .ok s := by
  rw [search, h]

/-- More fuel does not change what is found. -/
theorem search_mono (h : search look out fuel s = .ok t) (hle : fuel ≤ fuel') :
    search look out fuel' s = .ok t := by
  induction fuel generalizing s fuel' with
  | zero => cases h
  | succ fuel ih =>
    obtain ⟨fuel', rfl⟩ : ∃ k, fuel' = k + 1 := ⟨fuel' - 1, by omega⟩
    cases hl : look s with
    | error f =>
      rw [search, hl] at h
      cases h
    | ok next =>
      cases next with
      | none =>
        rw [search_of_stop hl] at h ⊢
        exact h
      | some s' =>
        rw [search_of_leads hl] at h ⊢
        exact ih h (by omega)

/-- With enough fuel a search finds exactly the state where `look` stops. -/
theorem search_iff : (∃ fuel, search look out fuel s = .ok t) ↔
    Relation.ReflTransGen (Leads look) s t ∧ look t = .ok none := by
  constructor
  · rintro ⟨fuel, h⟩
    induction fuel generalizing s with
    | zero => cases h
    | succ fuel ih =>
      cases hl : look s with
      | error f =>
        rw [search, hl] at h
        cases h
      | ok next =>
        cases next with
        | none =>
          rw [search_of_stop hl] at h
          cases h
          exact ⟨.refl, hl⟩
        | some s' =>
          rw [search_of_leads hl] at h
          obtain ⟨hpath, hstop⟩ := ih h
          exact ⟨.head hl hpath, hstop⟩
  · rintro ⟨hpath, hstop⟩
    induction hpath using Relation.ReflTransGen.head_induction_on with
    | refl => exact ⟨1, search_of_stop hstop⟩
    | head hl _ ih =>
      obtain ⟨fuel, hfuel⟩ := ih
      exact ⟨fuel + 1, (search_of_leads hl).trans hfuel⟩

/-- From a state that leads to itself a search never comes back. -/
theorem search_of_leads_self (h : Leads look s s) : search look out fuel s = .error out := by
  induction fuel with
  | zero => rfl
  | succ fuel ih => rw [search_of_leads h, ih]

/-- A state that leads to itself is never left. -/
theorem Leads.stuck (h : Leads look s s) (hpath : Relation.ReflTransGen (Leads look) s t) :
    t = s := by
  induction hpath with
  | refl => rfl
  | tail _ hl ih =>
    subst ih
    exact (Option.some.inj (Except.ok.inj (h.symm.trans hl))).symm

/-! ### Counted loops -/

section ForBelow

variable {α : Type u} {n : Nat} {body : Nat → Option α} {a : α}

/-- `for (int i = 0; i < n; i++)`, left as soon as the body gives a value. -/
def forBelow (n : Nat) (body : Nat → Option α) : Option α := (List.range n).findSome? body

/-- The loop over one index more runs that index last. -/
theorem forBelow_succ : forBelow (n + 1) body = (forBelow n body).or (body n) := by
  rw [forBelow, List.range_succ, List.findSome?_append, List.findSome?_singleton, forBelow]

/-- The loop finds nothing exactly when none of its indices does. -/
theorem forBelow_eq_none : forBelow n body = none ↔ ∀ i < n, body i = none := by
  simp only [forBelow, List.findSome?_eq_none_iff, List.mem_range]

/-- The loop is left at the first index where the body gives a value. -/
theorem forBelow_eq_some : forBelow n body = some a ↔
    ∃ i < n, body i = some a ∧ ∀ j < i, body j = none := by
  induction n with
  | zero => exact ⟨nofun, fun ⟨_, hi, _⟩ ↦ absurd hi (Nat.not_lt_zero _)⟩
  | succ n ih =>
    rw [forBelow_succ, Option.or_eq_some_iff, ih, forBelow_eq_none]
    constructor
    · rintro (⟨i, hi, hbody⟩ | ⟨hnone, hbody⟩)
      · exact ⟨i, Nat.lt_succ_of_lt hi, hbody⟩
      · exact ⟨n, Nat.lt_succ_self n, hbody, hnone⟩
    · rintro ⟨i, hi, hbody, hnone⟩
      cases Nat.lt_succ_iff_lt_or_eq.mp hi with
      | inl hlt => exact .inl ⟨i, hlt, hbody, hnone⟩
      | inr heq =>
        subst heq
        exact .inr ⟨hnone, hbody⟩

end ForBelow

section EachBelow

variable {α β : Type u} {n : Nat} {body : Nat → List α}

/-- `for (int i = 0; i < n; i++)` to its end, with what the body gives each time. -/
def eachBelow (n : Nat) (body : Nat → List α) : List α := (List.range n).flatMap body

/-- What the loop collects comes from one of its indices. -/
theorem mem_eachBelow {a : α} : a ∈ eachBelow n body ↔ ∃ i < n, a ∈ body i := by
  simp only [eachBelow, List.mem_flatMap, List.mem_range]

/-- What the loop gives is in order if each pass is, and one pass before the next. -/
theorem pairwise_eachBelow {R : α → α → Prop} (hpass : ∀ i < n, (body i).Pairwise R)
    (hnext : ∀ i j, i < j → j < n → ∀ a ∈ body i, ∀ b ∈ body j, R a b) :
    (eachBelow n body).Pairwise R := by
  apply List.pairwise_flatMap.mpr
  constructor
  · exact fun i hi ↦ hpass i (List.mem_range.mp hi)
  · apply List.pairwise_lt_range.imp_of_mem
    exact fun _ hj hlt ↦ hnext _ _ hlt (List.mem_range.mp hj)

/-- A loop left at the first value finds what comes first in a loop to its end. -/
theorem forBelow_eachBelow (look : α → Option β) :
    (forBelow n fun i ↦ (body i).findSome? look) = (eachBelow n body).findSome? look := by
  unfold forBelow eachBelow
  induction List.range n with
  | nil => rfl
  | cons i l ih =>
    rw [List.flatMap_cons, List.findSome?_append, List.findSome?_cons, ih]
    cases (body i).findSome? look <;> rfl

end EachBelow

end BiMpp.Base
