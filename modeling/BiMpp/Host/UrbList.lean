import Mathlib.Data.List.Nodup
import Mathlib.Logic.Function.Basic
import BiMpp.Base.Chain
import BiMpp.Base.Run
import BiMpp.Host.Types

/-!
# The list of outstanding URBs

The insertion of `sys_urb_submit` and `sys_urb_unlink`,
`bi-mpp-pic24-usb-simulator-master/src/sys.c:153–188`, over a heap of URBs linked by
`next` and `prev`. Unlinking the sole URB or one with neighbours on both sides keeps
the list well linked; unlinking the first of several leaves its successor's `prev`
behind, and unlinking the last of several writes through its null `next`.
-/

namespace BiMpp.Host
open BiMpp.Usb BiMpp.Base

/-- Address of a URB. -/
abbrev UrbPtr := Nat

/-- The fields of `urb_t` that list membership uses; `sys` is kept as whether it is
null; `urb.h`. -/
structure UrbNode where
  next : Option UrbPtr
  prev : Option UrbPtr
  sys : Bool
  deriving DecidableEq, Repr

/-- `urb_list_head` and `urb_list_tail` of `sys_t`, with the heap of URBs; `sys.h`. -/
structure UrbList where
  urbListHead : Option UrbPtr
  urbListTail : Option UrbPtr
  heap : UrbPtr → Option UrbNode

namespace UrbList

/-- Follow a URB pointer. -/
def load (l : UrbList) (p : Option UrbPtr) : Except Fault (UrbPtr × UrbNode) :=
  match p with
  | none => .error .badPointer
  | some u =>
    match l.heap u with
    | none => .error .badPointer
    | some n => .ok (u, n)

/-- Store through a URB pointer. -/
def set (l : UrbList) (u : UrbPtr) (n : UrbNode) : UrbList :=
  { l with heap := Function.update l.heap u (some n) }

/-- The successors, as chains read them. -/
def next (l : UrbList) (u : UrbPtr) : Option (Option UrbPtr) := (l.heap u).map UrbNode.next

/-- The predecessors, as chains read them. -/
def prev (l : UrbList) (u : UrbPtr) : Option (Option UrbPtr) := (l.heap u).map UrbNode.prev

end UrbList

/-- The list of a zeroed `sys_t`; `sys.c:13–14`. -/
def urbListInit : UrbList := ⟨none, none, fun _ ↦ none⟩

/-- `urb_init` on a new URB; `urb.c:30–34`. -/
def urbInit (l : UrbList) (u : UrbPtr) : UrbList := l.set u ⟨none, none, false⟩

/-- Append a URB to the list; `sys.c:179–186`. -/
def linkUrb (l : UrbList) (u : UrbPtr) : Except Fault UrbList :=
  match l.urbListTail with
  | none => .ok { l with urbListHead := some u, urbListTail := some u }
  | some t => do
    let (_, n) ← l.load (some t)
    let l := l.set t { n with next := some u }
    let (_, m) ← l.load (some u)
    return { l.set u { m with prev := some t } with urbListTail := some u }

/-- Store through `urb->sys`. -/
def UrbList.setSys (l : UrbList) (u : UrbPtr) (sys : Bool) : Except Fault UrbList := do
  let (_, n) ← l.load (some u)
  return l.set u { n with sys := sys }

/-- The insertion at the start of `sys_urb_submit`; `sys.c:179–187`. -/
def sysUrbSubmit (l : UrbList) (u : UrbPtr) : Except Fault UrbList := do
  let l ← linkUrb l u
  l.setSys u true

/-- Take a URB with fields `n` out of the list; `sys.c:159–167`. -/
def unlinkUrb (l : UrbList) (u : UrbPtr) (n : UrbNode) : Except Fault UrbList :=
  if l.urbListHead = some u then
    let tail := if l.urbListTail = some u then none else l.urbListTail
    .ok { l with urbListTail := tail, urbListHead := n.next }
  else do
    let (p, a) ← l.load n.prev
    let l := l.set p { a with next := n.next }
    let (q, b) ← l.load n.next
    return l.set q { b with prev := n.prev }

/-- `sys_urb_unlink`; `sys.c:153–173`. -/
def sysUrbUnlink (l : UrbList) (u : UrbPtr) : Except Fault UrbList := do
  let (_, n) ← l.load (some u)
  if n.sys then
    let l ← unlinkUrb l u n
    l.setSys u false
  else return l

/-- The list operations: submitting a new URB, unlinking one. -/
inductive UrbOp
  | submit (u : UrbPtr)
  | unlink (u : UrbPtr)
  deriving DecidableEq, Repr

/-- One list operation. A submitted URB comes from `urb_create`. -/
def urbExec (l : UrbList) : UrbOp → Except Fault UrbList
  | .submit u => sysUrbSubmit (urbInit l u) u
  | .unlink u => sysUrbUnlink l u

/-- The list after a sequence of operations. -/
def urbsAfter (ops : List UrbOp) : Except Fault UrbList := ops.foldlM urbExec urbListInit

/-- The URBs submitted and not yet unlinked, in submission order. -/
def outstanding (ops : List UrbOp) : List UrbPtr :=
  ops.foldl (fun xs op ↦
    match op with
    | .submit u => xs ++ [u]
    | .unlink u => xs.erase u) []

/-- An operation used as the callers use it: a submitted URB is a new one, an unlinked
URB is in the list. -/
def UrbOp.Proper (past : List UrbOp) : UrbOp → Prop
  | submit u => u ∉ outstanding past
  | unlink u => u ∈ outstanding past

instance (past : List UrbOp) (op : UrbOp) : Decidable (op.Proper past) :=
  match op with
  | .submit u => inferInstanceAs (Decidable (u ∉ outstanding past))
  | .unlink u => inferInstanceAs (Decidable (u ∈ outstanding past))

/-- Every operation of a sequence is used as the callers use it. -/
def Proper (ops : List UrbOp) : Prop := ∀ past op, past ++ [op] <+: ops → op.Proper past

/-- Checking a sequence index by index. -/
theorem proper_iff (ops : List UrbOp) :
    Proper ops ↔ ∀ i, (h : i < ops.length) → (ops.get ⟨i, h⟩).Proper (ops.take i) := by
  constructor
  · intro hp i h
    apply hp
    rw [List.get_eq_getElem, List.take_append_getElem h]
    exact List.take_prefix _ _
  · rintro hi past op ⟨rest, rfl⟩
    have hop := hi past.length (by simp)
    simpa using hop

instance (ops : List UrbOp) : Decidable (Proper ops) := decidable_of_iff _ (proper_iff ops).symm

/-- The list is `xs`: along `next` from the head, along `prev` from the tail, both ends
null exactly when it is empty, and every URB in it points to the system. -/
structure WellLinked (l : UrbList) (xs : List UrbPtr) : Prop where
  forward : Chain l.next l.urbListHead xs
  backward : Chain l.prev l.urbListTail xs.reverse
  owned : ∀ u ∈ xs, ∀ n, l.heap u = some n → n.sys = true

/-- A URB whose unlinking `sys_urb_unlink` gets right: the sole one, or one that is
neither first nor last. -/
def Unlinkable (xs : List UrbPtr) (u : UrbPtr) : Prop :=
  xs = [u] ∨ (xs.head? ≠ some u ∧ xs.getLast? ≠ some u)

instance (xs : List UrbPtr) (u : UrbPtr) : Decidable (Unlinkable xs u) :=
  inferInstanceAs (Decidable (_ ∨ _))

namespace UrbList

variable (l : UrbList) (u v : UrbPtr) (n : UrbNode)

/-- A URB that was stored is found as it was stored. -/
@[simp] theorem heap_set : (l.set u n).heap v = if v = u then some n else l.heap v := by
  simp [set, Function.update_apply]

/-- A URB that was stored leads on where it says. -/
@[simp] theorem next_set : (l.set u n).next v = if v = u then some n.next else l.next v := by
  simp only [next, heap_set]
  split <;> rfl

/-- A URB that was stored leads back where it says. -/
@[simp] theorem prev_set : (l.set u n).prev v = if v = u then some n.prev else l.prev v := by
  simp only [prev, heap_set]
  split <;> rfl

/-- Storing a URB leaves the head of the list. -/
@[simp] theorem urbListHead_set : (l.set u n).urbListHead = l.urbListHead := rfl

/-- Storing a URB leaves the tail of the list. -/
@[simp] theorem urbListTail_set : (l.set u n).urbListTail = l.urbListTail := rfl

/-- A pointer to a URB is dereferenced. -/
theorem load_some {l : UrbList} {u : UrbPtr} {n : UrbNode} (h : l.heap u = some n) :
    l.load (some u) = .ok (u, n) := by
  simp [load, h]

private theorem setSys_some {l : UrbList} {u : UrbPtr} {n : UrbNode} (h : l.heap u = some n)
    (b : Bool) : l.setSys u b = .ok (l.set u { n with sys := b }) := by
  rw [setSys, load_some h]
  rfl

end UrbList

/-! ### Any list -/

/-- The URB is first in its list, or has neighbours on both sides. -/
def UrbList.Unlinks (l : UrbList) (u : UrbPtr) : Prop :=
  l.urbListHead = some u ∨ ∃ n p q, l.heap u = some n ∧ n.prev = some p ∧ n.next = some q ∧
    (l.heap p).isSome ∧ (l.heap q).isSome

section Faults

variable {l l' : UrbList} {u v : UrbPtr} {n : UrbNode}

private theorem load_ok {p : Option UrbPtr} {x : UrbPtr × UrbNode} :
    l.load p = .ok x ↔ p = some x.1 ∧ l.heap x.1 = some x.2 := by
  constructor
  · intro h
    unfold UrbList.load at h
    split at h
    · cases h
    · split at h
      · cases h
      · next u n hu =>
        cases h
        exact ⟨rfl, hu⟩
  · rintro ⟨rfl, hu⟩
    exact UrbList.load_some hu

-- a store takes nothing from the heap
private theorem isSome_set (m : UrbNode) (h : (l.heap u).isSome) : ((l.set v m).heap u).isSome := by
  rw [UrbList.heap_set]
  split
  · rfl
  · exact h

private theorem unlinkUrb_ok (hn : l.heap u = some n) (h : unlinkUrb l u n = .ok l') :
    l.Unlinks u ∧ (l'.heap u).isSome := by
  have hu : (l.heap u).isSome := by rw [hn]; rfl
  unfold unlinkUrb at h
  split at h
  · next hhead =>
    cases h
    exact ⟨.inl hhead, hu⟩
  · obtain ⟨⟨p, a⟩, hp, h⟩ := bind_eq_ok.mp h
    obtain ⟨⟨q, b⟩, hq, h⟩ := bind_eq_ok.mp h
    obtain ⟨hprev, ha⟩ := load_ok.mp hp
    obtain ⟨hnext, hb⟩ := load_ok.mp hq
    cases pure_eq_ok.mp h
    refine ⟨.inr ⟨n, p, q, hn, hprev, hnext, by rw [ha]; rfl, ?_⟩,
      isSome_set _ (isSome_set _ hu)⟩
    rw [UrbList.heap_set] at hb
    split at hb
    · next hqp =>
      have hqp : q = p := hqp
      rw [hqp, ha]
      rfl
    · rw [hb]
      rfl

private theorem unlinkUrb_of (hn : l.heap u = some n) (h : l.Unlinks u) :
    ∃ l', unlinkUrb l u n = .ok l' ∧ (l'.heap u).isSome := by
  have hu : (l.heap u).isSome := by rw [hn]; rfl
  unfold unlinkUrb
  split
  · exact ⟨_, rfl, hu⟩
  · next hhead =>
    obtain ⟨n', p, q, hn', hprev, hnext, hp, hq⟩ := h.resolve_left hhead
    obtain rfl := Option.some.inj (hn.symm.trans hn')
    obtain ⟨a, ha⟩ := Option.isSome_iff_exists.mp hp
    obtain ⟨b, hb⟩ := Option.isSome_iff_exists.mp
      (isSome_set (v := p) { a with next := some q } hq)
    refine ⟨_, bind_eq_ok.mpr ⟨(p, a), load_ok.mpr ⟨hprev, ha⟩, ?_⟩,
      isSome_set (v := q) { b with prev := n.prev }
        (isSome_set (v := p) { a with next := some q } hu)⟩
    rw [hnext]
    exact bind_eq_ok.mpr ⟨(q, b), load_ok.mpr ⟨rfl, hb⟩, rfl⟩

/-- A URB of the list is unlinked without a fault exactly if it is first or has both neighbours. -/
theorem sysUrbUnlink_ok_iff (hn : l.heap u = some n) (hs : n.sys = true) :
    (∃ l', sysUrbUnlink l u = .ok l') ↔ l.Unlinks u := by
  unfold sysUrbUnlink
  simp only [UrbList.load_some hn, ok_bind, hs, if_true]
  constructor
  · rintro ⟨l', h⟩
    obtain ⟨l₁, h₁, -⟩ := bind_eq_ok.mp h
    exact (unlinkUrb_ok hn h₁).1
  · intro h
    obtain ⟨l₁, h₁, hu⟩ := unlinkUrb_of hn h
    obtain ⟨m, hm⟩ := Option.isSome_iff_exists.mp hu
    exact ⟨_, bind_eq_ok.mpr ⟨l₁, h₁, UrbList.setSys_some hm false⟩⟩

/-- A new URB is inserted without a fault where the last of the list is still there. -/
theorem sysUrbSubmit_ok (htail : ∀ t, l.urbListTail = some t → (l.heap t).isSome) :
    ∃ l', sysUrbSubmit (urbInit l u) u = .ok l' := by
  have hu : ((urbInit l u).heap u).isSome := by
    unfold urbInit
    rw [UrbList.heap_set, if_pos rfl]
    rfl
  suffices h : ∃ l', linkUrb (urbInit l u) u = .ok l' ∧ (l'.heap u).isSome by
    obtain ⟨l', hlink, hu'⟩ := h
    obtain ⟨m, hm⟩ := Option.isSome_iff_exists.mp hu'
    exact ⟨_, bind_eq_ok.mpr ⟨l', hlink, UrbList.setSys_some hm true⟩⟩
  unfold linkUrb
  split
  · exact ⟨_, rfl, hu⟩
  · next t ht =>
    obtain ⟨n, hn⟩ := Option.isSome_iff_exists.mp
      (isSome_set (v := u) ⟨none, none, false⟩ (htail t ht))
    obtain ⟨m, hm⟩ := Option.isSome_iff_exists.mp (isSome_set (v := t) { n with next := some u } hu)
    refine ⟨_, bind_eq_ok.mpr ⟨(t, n), load_ok.mpr ⟨rfl, hn⟩,
      bind_eq_ok.mpr ⟨(u, m), load_ok.mpr ⟨rfl, hm⟩, rfl⟩⟩, ?_⟩
    exact isSome_set _ (isSome_set _ hu)

end Faults

namespace WellLinked

variable {l : UrbList} {xs : List UrbPtr} {u : UrbPtr}

/-- The empty list is well linked. -/
theorem init : WellLinked urbListInit [] := ⟨rfl, rfl, nofun⟩

/-- A well-linked list has every URB once. -/
theorem nodup (h : WellLinked l xs) : xs.Nodup := h.forward.nodup

/-- The URBs of the list are allocated and marked as its own. -/
theorem allocated (h : WellLinked l xs) (hu : u ∈ xs) : ∃ n, l.heap u = some n ∧ n.sys = true := by
  obtain ⟨m, hm⟩ := h.forward.allocated hu
  obtain ⟨n, hn, -⟩ := Option.map_eq_some_iff.mp hm
  exact ⟨n, hn, h.owned u hu n hn⟩

private theorem exec_submit_first (htail : l.urbListTail = none) :
    ∃ l', urbExec l (.submit u) = .ok l' ∧ l'.urbListHead = some u ∧ l'.urbListTail = some u ∧
      l'.heap u = some ⟨none, none, true⟩ := by
  have htail' : (urbInit l u).urbListTail = none := htail
  let l₁ : UrbList := { urbInit l u with urbListHead := some u, urbListTail := some u }
  have hlink : linkUrb (urbInit l u) u = .ok l₁ := by
    rw [linkUrb, htail']
  have hnew : l₁.heap u = some ⟨none, none, false⟩ := by simp [l₁, urbInit]
  refine ⟨l₁.set u ⟨none, none, true⟩, ?_, rfl, rfl, ?_⟩
  · rw [urbExec, sysUrbSubmit, hlink, ok_bind, UrbList.setSys_some hnew]
  · simp [l₁]

private theorem exec_submit_next {t : UrbPtr} {n : UrbNode} (htail : l.urbListTail = some t)
    (hn : l.heap t = some n) (htu : t ≠ u) :
    ∃ l', urbExec l (.submit u) = .ok l' ∧ l'.urbListHead = l.urbListHead ∧
      l'.urbListTail = some u ∧ ∀ v, l'.heap v =
        if v = u then some ⟨none, some t, true⟩
        else if v = t then some { n with next := some u } else l.heap v := by
  have hn' : (urbInit l u).heap t = some n := by simp [urbInit, htu, hn]
  have htail' : (urbInit l u).urbListTail = some t := htail
  let l₁ := (urbInit l u).set t { n with next := some u }
  have hnew₁ : l₁.heap u = some ⟨none, none, false⟩ := by simp [l₁, Ne.symm htu, urbInit]
  let l₂ := { l₁.set u ⟨none, some t, false⟩ with urbListTail := some u }
  have hnew₂ : l₂.heap u = some ⟨none, some t, false⟩ := by
    change (l₁.set u ⟨none, some t, false⟩).heap u = _
    simp
  have hlink : linkUrb (urbInit l u) u = .ok l₂ := by
    rw [linkUrb, htail']
    have hload : l₁.load (some u) = _ := UrbList.load_some hnew₁
    simp only [UrbList.load_some hn', ok_bind]
    rw [hload]
    rfl
  refine ⟨l₂.set u ⟨none, some t, true⟩, ?_, rfl, rfl, ?_⟩
  · rw [urbExec, sysUrbSubmit, hlink, ok_bind, UrbList.setSys_some hnew₂]
  · intro v
    rw [UrbList.heap_set]
    split
    · rfl
    · next hvu =>
      change (l₁.set u ⟨none, some t, false⟩).heap v = _
      simp [l₁, urbInit, hvu]

/-- Submitting a new URB appends it. -/
theorem submit (h : WellLinked l xs) (hu : u ∉ xs) :
    ∃ l', urbExec l (.submit u) = .ok l' ∧ WellLinked l' (xs ++ [u]) := by
  have htail := h.backward.head_eq
  rw [List.head?_reverse] at htail
  cases hl : xs.getLast? with
  | none =>
    obtain rfl := List.getLast?_eq_none_iff.mp hl
    obtain ⟨l', hexec, hhead', htail', hheap⟩ := exec_submit_first (u := u) htail
    refine ⟨l', hexec, ?_, ?_, ?_⟩
    · simp [hhead', UrbList.next, hheap]
    · simp [htail', UrbList.prev, hheap]
    · intro v hv m hm
      obtain rfl := List.mem_singleton.mp hv
      rw [hheap] at hm
      rw [← Option.some.inj hm]
  | some t =>
    rw [hl] at htail
    have ht : t ∈ xs := List.mem_of_getLast? hl
    have htu : t ≠ u := by
      rintro rfl
      exact hu ht
    obtain ⟨n, hn, hs⟩ := h.allocated ht
    obtain ⟨l', hexec, hhead', htail', hheap⟩ := exec_submit_next htail hn htu
    have hnext : ∀ v ∈ xs, v ≠ t → l'.next v = l.next v := by
      intro v hv hvt
      have hvu : v ≠ u := fun he ↦ hu (he ▸ hv)
      rw [UrbList.next, hheap, if_neg hvu, if_neg hvt]
      rfl
    have hprev : ∀ v ∈ xs, l'.prev v = l.prev v := by
      intro v hv
      have hvu : v ≠ u := fun he ↦ hu (he ▸ hv)
      rw [UrbList.prev, hheap, if_neg hvu]
      split
      · next hvt =>
        rw [hvt, UrbList.prev, hn]
        rfl
      · rfl
    refine ⟨l', hexec, ?_, ?_, ?_⟩
    · rw [hhead']
      refine h.forward.snoc hl ?_ ?_ hnext
      · rw [UrbList.next, hheap, if_neg htu, if_pos rfl]
        rfl
      · rw [UrbList.next, hheap, if_pos rfl]
        rfl
    · rw [htail', List.reverse_append, List.reverse_singleton, List.singleton_append]
      refine ⟨rfl, some t, ?_, ?_⟩
      · rw [UrbList.prev, hheap, if_pos rfl]
        rfl
      · have hback := h.backward
        rw [htail] at hback
        exact hback.frame fun v hv ↦ hprev v (List.mem_reverse.mp hv)
    · intro v hv m hm
      rw [hheap] at hm
      split at hm
      · obtain rfl := Option.some.inj hm
        rfl
      · next hvu =>
        have hvx : v ∈ xs := by
          rcases List.mem_append.mp hv with hv | hv
          · exact hv
          · exact absurd (List.mem_singleton.mp hv) hvu
        split at hm
        · obtain rfl := Option.some.inj hm
          exact hs
        · exact h.owned v hvx m hm

/-- Unlinking the sole URB empties the list. -/
theorem unlink_sole (h : WellLinked l [u]) :
    ∃ l', urbExec l (.unlink u) = .ok l' ∧ WellLinked l' [] := by
  obtain ⟨n, hn, hs⟩ := h.allocated (List.mem_singleton_self u)
  have hhead : l.urbListHead = some u := h.forward.head_eq
  have htail : l.urbListTail = some u := h.backward.head_eq
  have hnext : n.next = none := by
    have hf : Chain l.next l.urbListHead ([] ++ u :: []) := h.forward
    have hc := hf.next_eq
    rw [UrbList.next, hn, Option.map_some, Option.some.injEq] at hc
    exact hc
  let l₁ : UrbList := { l with urbListTail := none, urbListHead := n.next }
  have hlink : unlinkUrb l u n = .ok l₁ := by
    rw [unlinkUrb, if_pos hhead, htail, if_pos rfl]
  have hn₁ : l₁.heap u = some n := hn
  refine ⟨l₁.set u { n with sys := false }, ?_, hnext, rfl, nofun⟩
  simp only [urbExec, sysUrbUnlink, UrbList.load_some hn, ok_bind, hs, if_true, hlink]
  rw [UrbList.setSys_some hn₁]

private theorem neighbours {as bs : List UrbPtr} {p q : UrbPtr} {n : UrbNode}
    (h : WellLinked l (as ++ p :: u :: q :: bs)) (hn : l.heap u = some n) :
    n.next = some q ∧ n.prev = some p := by
  constructor
  · have hf : Chain l.next l.urbListHead ((as ++ [p]) ++ u :: q :: bs) := by
      simpa using h.forward
    have hc := hf.next_eq
    rw [UrbList.next, hn, Option.map_some, Option.some.injEq] at hc
    exact hc
  · have hback : Chain l.prev l.urbListTail ((bs.reverse ++ [q]) ++ u :: p :: as.reverse) := by
      simpa using h.backward
    have hc := hback.next_eq
    rw [UrbList.prev, hn, Option.map_some, Option.some.injEq] at hc
    exact hc

private theorem exec_unlink {p q : UrbPtr} {n a b : UrbNode} (hhead : l.urbListHead ≠ some u)
    (hn : l.heap u = some n) (hs : n.sys = true) (ha : l.heap p = some a) (hb : l.heap q = some b)
    (hnext : n.next = some q) (hprev : n.prev = some p) (hpu : p ≠ u) (hpq : p ≠ q)
    (huq : u ≠ q) :
    ∃ l', urbExec l (.unlink u) = .ok l' ∧ l'.urbListHead = l.urbListHead ∧
      l'.urbListTail = l.urbListTail ∧ ∀ v, l'.heap v =
        if v = u then some { n with sys := false }
        else if v = q then some { b with prev := some p }
        else if v = p then some { a with next := some q } else l.heap v := by
  let l₁ := l.set p { a with next := some q }
  have hb₁ : l₁.heap q = some b := by
    rw [UrbList.heap_set, if_neg (Ne.symm hpq)]
    exact hb
  let l₂ := l₁.set q { b with prev := some p }
  have hn₂ : l₂.heap u = some n := by
    rw [UrbList.heap_set, if_neg huq, UrbList.heap_set, if_neg (Ne.symm hpu)]
    exact hn
  have hlink : unlinkUrb l u n = .ok l₂ := by
    rw [unlinkUrb, if_neg hhead, hprev]
    simp only [UrbList.load_some ha, ok_bind, hnext]
    rw [UrbList.load_some hb₁]
    rfl
  refine ⟨l₂.set u { n with sys := false }, ?_, rfl, rfl, fun v ↦ ?_⟩
  · simp only [urbExec, sysUrbUnlink, UrbList.load_some hn, ok_bind, hs, if_true, hlink]
    rw [UrbList.setSys_some hn₂]
  · rw [UrbList.heap_set, UrbList.heap_set, UrbList.heap_set]

/-- Unlinking a URB with neighbours on both sides closes the gap. -/
theorem unlink_middle {as bs : List UrbPtr} {p q : UrbPtr}
    (h : WellLinked l (as ++ p :: u :: q :: bs)) :
    ∃ l', urbExec l (.unlink u) = .ok l' ∧ WellLinked l' (as ++ p :: q :: bs) := by
  have hnd := h.nodup
  obtain ⟨n, hn, hs⟩ := h.allocated (u := u) (by simp)
  obtain ⟨a, ha, has⟩ := h.allocated (u := p) (by simp)
  obtain ⟨b, hb, hbs⟩ := h.allocated (u := q) (by simp)
  obtain ⟨hnext, hprev⟩ := h.neighbours hn
  have hback : Chain l.prev l.urbListTail (bs.reverse ++ q :: u :: p :: as.reverse) := by
    have hb := h.backward
    simpa using hb
  simp only [List.nodup_append, List.nodup_cons, List.mem_cons, not_or] at hnd
  obtain ⟨-, ⟨⟨hpu, hpq, hpb⟩, ⟨huq, hub⟩, hqb, -⟩, hdisj⟩ := hnd
  have hhead : l.urbListHead ≠ some u := by
    rw [h.forward.head_eq]
    cases as with
    | nil => simpa using hpu
    | cons x xs =>
      have hxu := hdisj x (by simp) u (by simp)
      simpa using hxu
  obtain ⟨l', hexec, hhead', htail', hheap⟩ :=
    exec_unlink hhead hn hs ha hb hnext hprev hpu hpq huq
  refine ⟨l', hexec, ?_, ?_, ?_⟩
  · rw [hhead']
    refine h.forward.bypass ?_ fun v hv ↦ ?_
    · rw [UrbList.next, hheap, if_neg hpu, if_neg hpq, if_pos rfl, UrbList.next, hn, ← hnext]
      rfl
    · have hvp : v ≠ u ∧ v ≠ p := by
        rcases List.mem_append.mp hv with hv | hv
        · exact ⟨hdisj v hv u (by simp), hdisj v hv p (by simp)⟩
        · rcases List.mem_cons.mp hv with rfl | hv
          · exact ⟨Ne.symm huq, Ne.symm hpq⟩
          · exact ⟨fun he ↦ hub (he ▸ hv), fun he ↦ hpb (he ▸ hv)⟩
      rw [UrbList.next, hheap, if_neg hvp.1, if_neg hvp.2]
      split
      · next hvq =>
        rw [hvq, UrbList.next, hb]
        rfl
      · rfl
  · rw [htail', List.reverse_append, List.reverse_cons, List.reverse_cons, List.append_assoc,
      List.append_assoc]
    refine hback.bypass ?_ fun v hv ↦ ?_
    · rw [UrbList.prev, hheap, if_neg (Ne.symm huq), if_pos rfl, UrbList.prev, hn, ← hprev]
      rfl
    · have hvq : v ≠ u ∧ v ≠ q := by
        rcases List.mem_append.mp hv with hv | hv
        · have hv := List.mem_reverse.mp hv
          exact ⟨fun he ↦ hub (he ▸ hv), fun he ↦ hqb (he ▸ hv)⟩
        · rcases List.mem_cons.mp hv with rfl | hv
          · exact ⟨hpu, hpq⟩
          · have hv := List.mem_reverse.mp hv
            exact ⟨hdisj v hv u (by simp), hdisj v hv q (by simp)⟩
      rw [UrbList.prev, hheap, if_neg hvq.1, if_neg hvq.2]
      split
      · next hvp =>
        rw [hvp, UrbList.prev, ha]
        rfl
      · rfl
  · intro v hv m hm
    have hvu : v ≠ u := by
      rintro rfl
      rcases List.mem_append.mp hv with hv | hv
      · exact hdisj v hv v (by simp) rfl
      · simp only [List.mem_cons] at hv
        rcases hv with hv | hv | hv
        · exact hpu hv.symm
        · exact huq hv
        · exact hub hv
    rw [hheap, if_neg hvu] at hm
    split at hm
    · obtain rfl := Option.some.inj hm
      exact hbs
    · split at hm
      · obtain rfl := Option.some.inj hm
        exact has
      · refine h.owned v ?_ m hm
        simp only [List.mem_append, List.mem_cons] at hv ⊢
        grind

/-- Unlinking the first of several URBs leaves its successor pointing back to it. -/
theorem unlink_first {l' : UrbList} {v : UrbPtr} {bs : List UrbPtr}
    (h : WellLinked l (u :: v :: bs)) (hexec : urbExec l (.unlink u) = .ok l') :
    ¬ WellLinked l' (v :: bs) := by
  have hnd := h.nodup
  obtain ⟨n, hn, hs⟩ := h.allocated (u := u) (by simp)
  have hhead : l.urbListHead = some u := h.forward.head_eq
  have hvu : v ≠ u := by
    rintro rfl
    simp at hnd
  have hback : Chain l.prev l.urbListTail (bs.reverse ++ v :: [u]) := by
    have hb := h.backward
    simpa using hb
  have hprev : l.prev v = some (some u) := hback.next_eq
  let l₁ : UrbList := { l with
    urbListTail := if l.urbListTail = some u then none else l.urbListTail
    urbListHead := n.next }
  have hlink : unlinkUrb l u n = .ok l₁ := by
    rw [unlinkUrb, if_pos hhead]
  have hn₁ : l₁.heap u = some n := hn
  simp only [urbExec, sysUrbUnlink, UrbList.load_some hn, ok_bind, hs, if_true, hlink] at hexec
  rw [UrbList.setSys_some hn₁] at hexec
  obtain rfl := Except.ok.inj hexec
  intro h'
  have hback' := h'.backward
  rw [List.reverse_cons] at hback'
  have hnone := hback'.next_eq
  rw [UrbList.prev_set, if_neg hvu] at hnone
  change l.prev v = some none at hnone
  rw [hprev] at hnone
  exact nomatch hnone

/-- Unlinking the last of several URBs follows its null `next`. -/
theorem unlink_last {v : UrbPtr} {as : List UrbPtr} (h : WellLinked l (v :: as ++ [u])) :
    urbExec l (.unlink u) = .error .badPointer := by
  have hnd := h.nodup
  obtain ⟨n, hn, hs⟩ := h.allocated (u := u) (by simp)
  have hvu : v ≠ u := by
    rintro rfl
    simp at hnd
  have hhead : l.urbListHead ≠ some u := by
    rw [h.forward.head_eq]
    simpa using hvu
  have hnext : n.next = none := by
    have hc := h.forward.next_eq
    rw [UrbList.next, hn, Option.map_some, Option.some.injEq] at hc
    exact hc
  obtain ⟨p, hp⟩ : ∃ p, n.prev = some p ∧ p ∈ v :: as := by
    have hback := h.backward
    rw [List.reverse_append, List.reverse_singleton, List.singleton_append] at hback
    have hf : Chain l.prev l.urbListTail ([] ++ u :: (v :: as).reverse) := hback
    have hc := hf.next_eq
    rw [UrbList.prev, hn, Option.map_some, Option.some.injEq, List.head?_reverse] at hc
    exact ⟨_, hc.trans (List.getLast?_eq_some_getLast (List.cons_ne_nil v as)),
      List.getLast_mem _⟩
  obtain ⟨a, ha, -⟩ := h.allocated (u := p) (List.mem_append_left _ hp.2)
  have hlink : unlinkUrb l u n = .error .badPointer := by
    rw [unlinkUrb, if_neg hhead, hp.1, hnext]
    simp only [UrbList.load_some ha, ok_bind]
    rfl
  simp only [urbExec, sysUrbUnlink, UrbList.load_some hn, ok_bind, hs, if_true, hlink]
  rfl

/-- An unlinked URB is right where it is unlinkable, and only there. -/
theorem unlink_iff (h : WellLinked l xs) (hu : u ∈ xs) :
    (∃ l', urbExec l (.unlink u) = .ok l' ∧ WellLinked l' (xs.erase u)) ↔ Unlinkable xs u := by
  have hnd := h.nodup
  obtain ⟨as, bs, rfl⟩ := List.append_of_mem hu
  have hua : u ∉ as := by
    intro hm
    simp only [List.nodup_append, List.mem_cons] at hnd
    exact hnd.2.2 u hm u (.inl rfl) rfl
  have herase : (as ++ u :: bs).erase u = as ++ bs := by
    rw [List.erase_append_right _ hua, List.erase_cons_head]
  rw [herase]
  -- the cases are the position: sole, first, last, middle
  cases as with
  | nil =>
    cases bs with
    | nil => exact ⟨fun _ ↦ .inl rfl, fun _ ↦ h.unlink_sole⟩
    | cons v bs =>
      constructor
      · rintro ⟨l', hexec, hl'⟩
        exact absurd hl' (h.unlink_first hexec)
      · rintro (he | ⟨hne, -⟩)
        · simp at he
        · simp at hne
  | cons v as =>
    rcases List.eq_nil_or_concat bs with rfl | ⟨bs', q, rfl⟩
    · constructor
      · rintro ⟨l', hexec, -⟩
        rw [h.unlink_last] at hexec
        exact nomatch hexec
      · rintro (he | ⟨-, hne⟩)
        · simp at he
        · exact absurd List.getLast?_concat hne
    · constructor
      · intro _
        refine .inr ⟨fun he ↦ hua ?_, fun he ↦ ?_⟩
        · have hvu : v = u := by simpa using he
          rw [hvu]
          exact List.mem_cons_self
        · have hqu : q = u := by
            rw [List.concat_eq_append, ← List.cons_append, ← List.append_assoc,
              List.getLast?_concat] at he
            exact Option.some.inj he
          subst hqu
          simp [List.nodup_append] at hnd
      · intro _
        obtain ⟨as', p, hp⟩ : ∃ as' p, v :: as = as' ++ [p] :=
          ⟨_, _, (List.dropLast_append_getLast (List.cons_ne_nil v as)).symm⟩
        obtain ⟨q', bs'', hq⟩ : ∃ q' bs'', bs'.concat q = q' :: bs'' := by
          cases bs' with
          | nil => exact ⟨q, [], rfl⟩
          | cons x xs => exact ⟨x, xs.concat q, rfl⟩
        rw [hp, hq, List.append_assoc] at h ⊢
        exact h.unlink_middle

end WellLinked

/-! ### Histories of the list -/

private theorem urbsAfter_snoc (ops : List UrbOp) (op : UrbOp) :
    urbsAfter (ops ++ [op]) = (urbsAfter ops >>= fun l ↦ urbExec l op) := by
  unfold urbsAfter
  rw [List.foldlM_append]
  cases List.foldlM urbExec urbListInit ops with
  | error f => rfl
  | ok l =>
    change (urbExec l op >>= fun l' ↦ pure l') = urbExec l op
    cases urbExec l op <;> rfl

private theorem outstanding_submit (ops : List UrbOp) (u : UrbPtr) :
    outstanding (ops ++ [.submit u]) = outstanding ops ++ [u] := by
  simp [outstanding]

private theorem outstanding_unlink (ops : List UrbOp) (u : UrbPtr) :
    outstanding (ops ++ [.unlink u]) = (outstanding ops).erase u := by
  simp [outstanding]

/-- The list is right after a sequence of operations: none of them dereferenced a null
or freed pointer, and it links exactly the outstanding URBs in submission order. -/
def UrbListRight (ops : List UrbOp) : Prop :=
  ∃ l, urbsAfter ops = .ok l ∧ WellLinked l (outstanding ops)

/-- The list stays right over a sequence of proper operations exactly when every unlink
names the sole outstanding URB or one that is neither first nor last. -/
theorem urbList_right_iff (ops : List UrbOp) (hops : Proper ops) :
    (∀ past, past <+: ops → UrbListRight past) ↔
      ∀ past u, past ++ [.unlink u] <+: ops → Unlinkable (outstanding past) u := by
  constructor
  · intro hright past u hp
    obtain ⟨l, hl, hw⟩ := hright past ((List.prefix_append _ _).trans hp)
    obtain ⟨l', hl', hw'⟩ := hright _ hp
    rw [urbsAfter_snoc, hl, ok_bind] at hl'
    rw [outstanding_unlink] at hw'
    exact (hw.unlink_iff (hops past (.unlink u) hp)).mp ⟨l', hl', hw'⟩
  · intro hun past
    -- induction on the history: every operation keeps the list right
    induction past using List.reverseRecOn with
    | nil => exact fun _ ↦ ⟨urbListInit, rfl, WellLinked.init⟩
    | append_singleton past op ih =>
      intro hp
      obtain ⟨l, hl, hw⟩ := ih ((List.prefix_append _ _).trans hp)
      have hproper := hops past op hp
      unfold UrbListRight
      rw [urbsAfter_snoc, hl, ok_bind]
      cases op with
      | submit u =>
        rw [outstanding_submit]
        exact hw.submit hproper
      | unlink u =>
        rw [outstanding_unlink]
        exact (hw.unlink_iff hproper).mpr (hun past u hp)

/-- Three URBs, the middle one completing first. -/
theorem urbList_right_iff_example :
    (∀ past, past <+: [.submit 1, .submit 2, .submit 3, .unlink 2] → UrbListRight past) ↔
      ∀ past u, past ++ [.unlink u] <+: [.submit 1, .submit 2, .submit 3, .unlink 2] →
        Unlinkable (outstanding past) u :=
  urbList_right_iff [.submit 1, .submit 2, .submit 3, .unlink 2] (by decide)

/-- Two URBs, the later one completing first: `urb->next->prev` is written through a
null `next`. -/
theorem urbList_wrong : ¬ ∀ ops, Proper ops → UrbListRight ops := by
  intro hall
  obtain ⟨l, hl, -⟩ := hall [.submit 1, .submit 2, .unlink 2] (by decide)
  have hfault : urbsAfter [.submit 1, .submit 2, .unlink 2] = .error .badPointer := rfl
  rw [hfault] at hl
  exact nomatch hl

end BiMpp.Host
