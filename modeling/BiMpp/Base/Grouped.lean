import Mathlib.Data.List.Nodup

/-!
# Lists in blocks

Library `Base`. A list is grouped by a key when it is the concatenation of its blocks of
equal key, in a given order of the keys: the shape of a history in which every job runs
to its end before the next begins.
-/

namespace BiMpp.Base

variable {α β γ : Type*}

/-- What is left out gives nothing. -/
theorem flatMap_filter (l : List α) (p : α → Bool) (f : α → List β) :
    (l.filter p).flatMap f = l.flatMap fun x ↦ if p x then f x else [] := by
  induction l with
  | nil => rfl
  | cons x l ih =>
    rw [List.filter_cons, List.flatMap_cons, ← ih]
    cases p x <;> rfl

section Grouped

variable [DecidableEq β] {f : α → β} {ks : List β} {xs : List α}

/-- The list is its blocks, in the order of the keys. -/
def Grouped (f : α → β) (ks : List β) (xs : List α) : Prop :=
  xs = ks.flatMap fun k ↦ xs.filter fun x ↦ f x = k

namespace Grouped

/-- No groups have been made of an empty list. -/
theorem nil (f : α → β) (ks : List β) : Grouped f ks [] := by
  simp [Grouped]

/-- Every key in the list is one of the keys. -/
theorem mem (h : Grouped f ks xs) {x : α} (hx : x ∈ xs) : f x ∈ ks := by
  rw [h] at hx
  obtain ⟨k, hk, hxk⟩ := List.mem_flatMap.mp hx
  have heq : f x = k := of_decide_eq_true (List.mem_filter.mp hxk).2
  rw [heq]
  exact hk

/-- A block that nothing falls into. -/
theorem block_nil {k : β} (h : ∀ x ∈ xs, f x ≠ k) : (xs.filter fun x ↦ f x = k) = [] := by
  rw [List.filter_eq_nil_iff]
  intro x hx
  simpa using h x hx

/-- A key nothing has yet may come last. -/
theorem addKey (h : Grouped f ks xs) {k : β} (hk : ∀ x ∈ xs, f x ≠ k) :
    Grouped f (ks ++ [k]) xs := by
  unfold Grouped at h ⊢
  rw [List.flatMap_append, ← h]
  simp [block_nil hk]

/-- The next element may join the last block that has any. -/
theorem snoc {pre post : List β} {x : α} (h : Grouped f (pre ++ f x :: post) xs)
    (hnd : (pre ++ f x :: post).Nodup) (hpost : ∀ y ∈ xs, f y ∉ post) :
    Grouped f (pre ++ f x :: post) (xs ++ [x]) := by
  have hother : ∀ k, k ≠ f x →
      ((xs ++ [x]).filter fun y ↦ f y = k) = xs.filter fun y ↦ f y = k := by
    intro k hk
    rw [List.filter_append]
    simp [Ne.symm hk]
  have hblock : ∀ k ∈ post, (xs.filter fun y ↦ f y = k) = [] := by
    intro k hk
    refine block_nil fun y hy hyk ↦ hpost y hy ?_
    rw [hyk]
    exact hk
  have hne : ∀ k ∈ post, k ≠ f x := by
    rintro k hk rfl
    exact (List.nodup_cons.mp (List.nodup_append.mp hnd).2.1).1 hk
  have hpre : ∀ k ∈ pre, k ≠ f x :=
    fun k hk ↦ (List.nodup_append.mp hnd).2.2 k hk (f x) List.mem_cons_self
  unfold Grouped at h ⊢
  rw [List.flatMap_append, List.flatMap_cons] at h ⊢
  have h1 : (pre.flatMap fun k ↦ (xs ++ [x]).filter fun y ↦ f y = k) =
      pre.flatMap fun k ↦ xs.filter fun y ↦ f y = k :=
    List.flatMap_congr fun k hk ↦ hother k (hpre k hk)
  have h2 : (post.flatMap fun k ↦ (xs ++ [x]).filter fun y ↦ f y = k) = [] := by
    rw [List.flatMap_eq_nil_iff]
    intro k hk
    rw [hother k (hne k hk), hblock k hk]
  have h3 : (post.flatMap fun k ↦ xs.filter fun y ↦ f y = k) = [] := by
    rw [List.flatMap_eq_nil_iff]
    exact hblock
  have h4 : ((xs ++ [x]).filter fun y ↦ f y = f x) = (xs.filter fun y ↦ f y = f x) ++ [x] := by
    rw [List.filter_append]
    simp
  rw [h1, h2, h4, List.append_nil, ← List.append_assoc]
  rw [h3, List.append_nil] at h
  rw [← h]

/-- Parts of the list are grouped too. -/
theorem filter (h : Grouped f ks xs) (p : α → Bool) : Grouped f ks (xs.filter p) := by
  unfold Grouped at h ⊢
  conv_lhs => rw [h]
  rw [List.filter_flatMap]
  refine List.flatMap_congr fun k _ ↦ ?_
  rw [List.filter_filter, List.filter_filter]
  exact List.filter_congr fun x _ ↦ Bool.and_comm _ _

end Grouped

end Grouped

/-- In a list of blocks with keys of their own, no key comes back. -/
theorem no_return {l : List γ} {key : γ → β} {block : γ → List α} {f : α → β}
    (hnd : (l.map key).Nodup) (hkey : ∀ x ∈ l, ∀ t ∈ block x, f t = key x) {a b : β}
    (h : [a, b, a].Sublist ((l.flatMap block).map f)) : a = b := by
  induction l with
  | nil => exact absurd (List.sublist_nil.mp h) (by simp)
  | cons x l ih =>
    rw [List.map_cons, List.nodup_cons] at hnd
    have hfirst : ∀ c ∈ (block x).map f, c = key x := by
      intro c hc
      obtain ⟨t, ht, rfl⟩ := List.mem_map.mp hc
      exact hkey x List.mem_cons_self t ht
    have hrest : ∀ c ∈ (l.flatMap block).map f, c ∈ l.map key := by
      intro c hc
      obtain ⟨t, ht, rfl⟩ := List.mem_map.mp hc
      obtain ⟨y, hy, hty⟩ := List.mem_flatMap.mp ht
      rw [hkey y (List.mem_cons_of_mem _ hy) t hty]
      exact List.mem_map_of_mem hy
    rw [List.flatMap_cons, List.map_append, List.sublist_append_iff] at h
    obtain ⟨l₁, l₂, heq, h₁, h₂⟩ := h
    -- where the first block ends within the three
    match l₁, heq with
    | [], heq =>
      rw [List.nil_append] at heq
      rw [← heq] at h₂
      exact ih hnd.2 (fun y hy ↦ hkey y (List.mem_cons_of_mem _ hy)) h₂
    | [c], heq =>
      simp only [List.cons_append, List.nil_append, List.cons.injEq] at heq
      obtain ⟨rfl, rfl⟩ := heq
      have ha := hfirst a (h₁.subset (by simp))
      have hb := hrest a (h₂.subset (by simp))
      rw [ha] at hb
      exact (hnd.1 hb).elim
    | c :: d :: l₁, heq =>
      simp only [List.cons_append, List.cons.injEq] at heq
      obtain ⟨hc, hd, -⟩ := heq
      rw [hc, hd, hfirst c (h₁.subset (by simp)), hfirst d (h₁.subset (by simp))]

end BiMpp.Base
