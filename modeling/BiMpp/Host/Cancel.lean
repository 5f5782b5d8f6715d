import Mathlib.Data.List.Perm.Subperm
import BiMpp.Host.Agreement

/-!
# Taking a descriptor out of its queue

`__hcd_unlink_gtd` takes a descriptor out of the queue of the endpoint it is given and leaves
the tail pointer where it was unless the descriptor was the head; `hcd_gtd_unlink` looks at
the first control endpoint only, returns from there with `hcd->lock` held, and goes round
for ever where it finds nothing: `bi-mpp-pic24-usb-simulator-master/src/hcd.c:115–145,303–325`.
-/

namespace BiMpp.Host
open BiMpp.Usb BiMpp.Base

/-! ### What is to be shown -/

/-- The endpoint at an index of a list has the settings `c` and the queue `q`, with its head
and tail pointers. -/
def Hcd.HasQueue (h : Hcd) (w : EpdList) (i : EpdPtr) (c : EpdCore) (q : List GtdPtr) : Prop :=
  ∃ e, (h.list w)[i]? = some e ∧ e.toEpdCore = c ∧ Chain h.next e.tdQueueHeadPointer q ∧
    e.tdQueueTailPointer = q.getLast?

/-- Every endpoint has a queue with its head and tail pointers, no descriptor is in two of
them, and what is allocated has been handed out. -/
structure Hcd.WellFormed (h : Hcd) : Prop where
  queue : ∀ w i e, (h.list w)[i]? = some e → ∃ q, h.HasQueue w i e.toEpdCore q
  apart : ∀ {w w' i i' c c' q q' g}, h.HasQueue w i c q → h.HasQueue w' i' c' q' → g ∈ q → g ∈ q' →
    w = w' ∧ i = i'
  bound : ∀ g, h.heap g ≠ none → g < h.nextGtd

/-- A descriptor is in no queue. -/
def Hcd.Unqueued (h : Hcd) (g : GtdPtr) : Prop := ∀ w i c q, h.HasQueue w i c q → g ∉ q

/-- The contents of the descriptors, without their place. -/
def Hcd.contents (h : Hcd) (g : GtdPtr) : Option Td := (h.heap g).map Gtd.toTd

/-- From `h` to `h'` the descriptor `g` has left the queue of one endpoint, if it was there, and
nothing else has changed in it or in any other; where `g` was in no queue nothing has changed
at all. -/
structure Hcd.Removes (h : Hcd) (w : EpdList) (i : EpdPtr) (g : GtdPtr) (h' : Hcd) : Prop where
  own : ∀ c q, h.HasQueue w i c q → h'.HasQueue w i c (q.erase g)
  others : ∀ w' j, ¬ (w' = w ∧ j = i) → ∀ c q, h.HasQueue w' j c q → h'.HasQueue w' j c q
  contents : h'.contents = h.contents
  absent : h.Unqueued g → h' = h

/-- From `h` to `h'` the descriptor `g` has left the queue it was in, and nothing else has
changed; where it was in no queue nothing has changed at all. -/
structure Hcd.Cancels (h : Hcd) (g : GtdPtr) (h' : Hcd) : Prop where
  queues : ∀ w i c q, h.HasQueue w i c q → h'.HasQueue w i c (q.erase g)
  contents : h'.contents = h.contents
  absent : h.Unqueued g → h' = h

/-! ### `hcd_gtd_unlink` -/

/-- The cell of a queue that the cell of a descriptor follows; `hcd.c:316–321`. -/
def predecessor (h : Hcd) (g : GtdPtr) : Nat → Option GtdPtr → Except Fault (Option (GtdPtr × Gtd))
  | 0, _ => .error .diverged
  | _ + 1, none => .ok none
  | fuel + 1, some l => do
    let (_, n) ← h.load (some l)
    if n.nextTD = some g then return some (l, n)
    else predecessor h g fuel n.nextTD

/-- The loop of `hcd_gtd_unlink`, with whether it returns with `hcd->lock` held. It goes on
with the same endpoint descriptor; `hcd.c:310–324`. -/
def gtdUnlinkLoop (h : Hcd) (g : GtdPtr) : Nat → Option EpdPtr → Except Fault (Hcd × Bool)
  | 0, _ => .error .diverged
  | _ + 1, none => .ok (h, false)
  | fuel + 1, some i => do
    let e ← h.epd .control i
    if e.tdQueueHeadPointer = some g then
      let (_, n) ← h.load (some g)
      return (h.setEpd .control i { e with tdQueueHeadPointer := n.nextTD }, true)
    else
      match ← predecessor h g (h.nextGtd + 1) e.tdQueueHeadPointer with
      | some (l, n) =>
        let (_, m) ← h.load (some g)
        return (h.setGtd l { n with nextTD := m.nextTD }, true)
      | none => gtdUnlinkLoop h g fuel (some i)

/-- `hcd_gtd_unlink`, with whether it returns with `hcd->lock` held; `hcd.c:303–325`. -/
def hcdGtdUnlink (h : Hcd) (fuel : Nat) : Option GtdPtr → Except Fault (Hcd × Bool)
  | none => .ok (h, false)
  | some g => gtdUnlinkLoop h g fuel (h.listPtr .control)

/-! ### Queues of a well-formed heap -/

namespace Hcd.HasQueue

variable {h h' : Hcd} {w : EpdList} {i : EpdPtr} {c c' : EpdCore} {q q' : List GtdPtr}

/-- An endpoint has one queue. -/
theorem unique (hq : h.HasQueue w i c q) (hq' : h.HasQueue w i c' q') : c = c' ∧ q = q' := by
  obtain ⟨e, he, hc, hchain, -⟩ := hq
  obtain ⟨e', he', hc', hchain', -⟩ := hq'
  obtain rfl := Option.some.inj (he.symm.trans he')
  exact ⟨hc.symm.trans hc', hchain.unique hchain'⟩

/-- An endpoint that is stored as it was, with the cells of its queue. -/
theorem frame (hq : h.HasQueue w i c q) (hlist : (h'.list w)[i]? = (h.list w)[i]?)
    (hnext : ∀ x ∈ q, h'.next x = h.next x) : h'.HasQueue w i c q := by
  obtain ⟨e, he, hc, hchain, htail⟩ := hq
  exact ⟨e, hlist.trans he, hc, hchain.frame hnext, htail⟩

/-- A queue is no longer than what was handed out. -/
theorem length_le (hq : h.HasQueue w i c q) (hwf : h.WellFormed) : q.length ≤ h.nextGtd := by
  obtain ⟨e, -, -, hchain, -⟩ := hq
  have hsub : q ⊆ List.range h.nextGtd := by
    intro x hx
    obtain ⟨n, hn⟩ := hchain.allocated hx
    refine List.mem_range.mpr (hwf.bound x fun hnone ↦ ?_)
    rw [Hcd.next, hnone] at hn
    cases hn
  have hlen := (hchain.nodup.subperm hsub).length_le
  rwa [List.length_range] at hlen

end Hcd.HasQueue

/-- The heap that reads as queues is well formed. -/
theorem Refines.wellFormed {h : Hcd} {a : Queues} (hr : Refines h a) : h.WellFormed where
  queue w i e he := by
    have hepd := hr.epds w e (List.mem_of_getElem? he)
    exact ⟨_, e, he, rfl, hepd.chain, hepd.tail⟩
  apart := by
    rintro w w' i i' c c' q q' g ⟨e, he, -, hchain, -⟩ ⟨e', he', -, hchain', -⟩ hg hg'
    have hepd := hr.epds w e (List.mem_of_getElem? he)
    have hepd' := hr.epds w' e' (List.mem_of_getElem? he')
    rw [hchain.unique hepd.chain] at hg
    rw [hchain'.unique hepd'.chain] at hg'
    have hslot : (⟨w, e.key⟩ : Slot) = ⟨w', e'.key⟩ := by
      by_contra hne
      exact hr.wf.disjoint _ _ (fun heq ↦ hne (Option.some.inj heq)) g hg hg'
    obtain ⟨rfl, hkey⟩ := Slot.mk.inj hslot
    exact ⟨rfl, getElem_of_key (hr.keys_nodup w) he he' hkey⟩
  bound g hg := by
    obtain ⟨pl, hpl⟩ := hr.live g hg
    rw [hr.nextGtd]
    exact hr.wf.bound pl g hpl

/-- The descriptor that a head pointer names is in a queue. -/
theorem Hcd.WellFormed.queue_of_head {h : Hcd} (hwf : h.WellFormed) {w : EpdList} {i : EpdPtr}
    {e : Epd} {g : GtdPtr} (he : (h.list w)[i]? = some e) (hhead : e.tdQueueHeadPointer = some g) :
    ∃ q, h.HasQueue w i e.toEpdCore q ∧ g ∈ q := by
  obtain ⟨q, hq⟩ := hwf.queue w i e he
  refine ⟨q, hq, ?_⟩
  obtain ⟨e', he', -, hchain, -⟩ := hq
  obtain rfl := Option.some.inj (he.symm.trans he')
  rw [hchain.head_eq] at hhead
  exact List.mem_of_head? hhead

/-- Every reachable state is well formed. -/
theorem HcdRun.wellFormed {es : List HcdEvent} {h : Hcd} (hrun : HcdRun es h) : h.WellFormed := by
  obtain ⟨a, -, hr⟩ := hrun.queues
  exact hr.wellFormed

/-! ### The search -/

section Search

variable {h : Hcd} {g l : GtdPtr}

/-- One step of the search. -/
theorem predecessor_step {n : Gtd} (hn : h.heap l = some n) (fuel : Nat) :
    predecessor h g (fuel + 1) (some l) =
      if n.nextTD = some g then .ok (some (l, n)) else predecessor h g fuel n.nextTD := by
  rw [predecessor, Hcd.load_some h hn]
  rfl

/-- The search stops at the cell in front of the descriptor. -/
theorem predecessor_some {p : Option GtdPtr} {xs ys : List GtdPtr} {fuel : Nat}
    (hchain : Chain h.next p (xs ++ l :: g :: ys)) (hfuel : xs.length < fuel) :
    ∃ n, h.heap l = some n ∧ predecessor h g fuel p = .ok (some (l, n)) := by
  have hnd := hchain.nodup
  induction xs generalizing p fuel with
  | nil =>
    obtain ⟨rfl, m, hl, rfl, -⟩ := hchain
    obtain ⟨n, hn, hnext⟩ := Option.map_eq_some_iff.mp hl
    obtain ⟨fuel, rfl⟩ := Nat.exists_eq_add_one.mpr hfuel
    refine ⟨n, hn, ?_⟩
    rw [predecessor_step hn, if_pos hnext]
  | cons x xs ih =>
    obtain ⟨rfl, m, hx, hrest⟩ := hchain
    obtain ⟨n', hn', hnext⟩ := Option.map_eq_some_iff.mp hx
    obtain ⟨fuel, rfl⟩ := Nat.exists_eq_add_one.mpr (Nat.zero_lt_of_lt hfuel)
    have hnd' := (List.nodup_cons.mp hnd).2
    obtain ⟨n, hn, hfind⟩ := ih hrest (by simpa using hfuel) hnd'
    -- the descriptor is not at the head of the rest
    have hne : n'.nextTD ≠ some g := by
      rw [hnext, hrest.head_eq]
      intro hhead
      cases xs with
      | nil =>
        obtain rfl := Option.some.inj hhead
        simp at hnd'
      | cons y ys' =>
        obtain rfl := Option.some.inj hhead
        simp at hnd'
    refine ⟨n, hn, ?_⟩
    rw [predecessor_step hn', if_neg hne, hnext]
    exact hfind

/-- The search finds nothing where the descriptor is not behind the first cell. -/
theorem predecessor_none {p : Option GtdPtr} {q : List GtdPtr} {fuel : Nat}
    (hchain : Chain h.next p q) (hfuel : q.length < fuel) (hg : g ∉ q.tail) :
    predecessor h g fuel p = .ok none := by
  induction q generalizing p fuel with
  | nil =>
    obtain rfl := hchain
    obtain ⟨fuel, rfl⟩ := Nat.exists_eq_add_one.mpr (Nat.zero_lt_of_lt hfuel)
    rfl
  | cons x q ih =>
    obtain ⟨rfl, m, hx, hrest⟩ := hchain
    obtain ⟨n, hn, hnext⟩ := Option.map_eq_some_iff.mp hx
    obtain ⟨fuel, rfl⟩ := Nat.exists_eq_add_one.mpr (Nat.zero_lt_of_lt hfuel)
    have hne : n.nextTD ≠ some g := by
      rw [hnext, hrest.head_eq]
      exact fun hhead ↦ hg (List.mem_of_head? hhead)
    rw [predecessor_step hn, if_neg hne, hnext]
    exact ih hrest (by simpa using hfuel) fun hmem ↦ hg (List.mem_of_mem_tail hmem)

/-- The loop of `__hcd_unlink_gtd` is this search, with the descriptor put on the done list. -/
theorem unlinkBehind_eq (fuel : Nat) (p : Option GtdPtr) : unlinkBehind h g fuel p = do
    match ← predecessor h g fuel p with
    | some (l, n) =>
      let (_, m) ← h.load (some g)
      appendToDoneList (h.setGtd l { n with nextTD := m.nextTD }) g
    | none => return h := by
  induction fuel generalizing p with
  | zero => rfl
  | succ fuel ih =>
    cases p with
    | none => rfl
    | some l =>
      rw [unlinkBehind, predecessor]
      cases hl : h.load (some l) with
      | error f => rfl
      | ok x =>
        simp only [ok_bind]
        split
        · rfl
        · exact ih x.2.nextTD

/-- Where a descriptor is put on the done list, every other cell and every endpoint stay. -/
theorem appendToDoneList_ok {m : Gtd} (hm : h.heap g = some m) :
    ∃ h', appendToDoneList h g = .ok h' ∧ (∀ w, h'.list w = h.list w) ∧
      ∀ x, h'.heap x = if x = g then some { m with nextTD := h.doneList } else h.heap x := by
  have hnext : (if h.doneList = none then none else h.doneList) = h.doneList := by
    split
    · next hd => exact hd.symm
    · rfl
  have hrun : appendToDoneList h g =
      .ok (hcdNotify { h.setGtd g { m with nextTD := h.doneList } with doneList := some g }
        notifyDone) := by
    rw [appendToDoneList, Hcd.load_some h hm, ok_bind, hnext]
    rfl
  refine ⟨_, hrun, fun w ↦ ?_, fun x ↦ Hcd.heap_setGtd ..⟩
  rw [list_hcdNotify]
  cases w <;> rfl

end Search

/-! ### `__hcd_unlink_gtd` -/

section Unlink

variable {h : Hcd} {w : EpdList} {i : EpdPtr} {c : EpdCore} {q : List GtdPtr} {g : GtdPtr}

private theorem hcdUnlinkGtd_absent (hwf : h.WellFormed) (hq : h.HasQueue w i c q) (hg : g ∉ q) :
    hcdUnlinkGtd h w i g = .ok h := by
  have hlen := hq.length_le hwf
  obtain ⟨e, he, -, hchain, -⟩ := hq
  have hhead : e.tdQueueHeadPointer ≠ some g := by
    rw [hchain.head_eq]
    exact fun hhead ↦ hg (List.mem_of_head? hhead)
  rw [hcdUnlinkGtd, Hcd.epd_some _ _ _ _ he, ok_bind, if_neg hhead, unlinkBehind_eq,
    predecessor_none hchain (Nat.lt_succ_of_le hlen) fun hmem ↦ hg (List.mem_of_mem_tail hmem)]
  rfl

private theorem removes_absent (hq : h.HasQueue w i c q) (hg : g ∉ q) : h.Removes w i g h where
  own c' q' hq' := by
    obtain ⟨rfl, rfl⟩ := hq.unique hq'
    rw [List.erase_of_not_mem hg]
    exact hq
  others _ _ _ _ _ hq' := hq'
  contents := rfl
  absent _ := rfl

private theorem contents_eq {h' : Hcd}
    (hcell : ∀ x n, h.heap x = some n → ∃ n', h'.heap x = some n' ∧ n'.toTd = n.toTd)
    (hnone : ∀ x, h.heap x = none → h'.heap x = none) : h'.contents = h.contents := by
  funext x
  unfold Hcd.contents
  cases hx : h.heap x with
  | none => rw [hnone x hx]
  | some n =>
    obtain ⟨n', hn', htd⟩ := hcell x n hx
    rw [hn', Option.map_some, Option.map_some, htd]

private theorem hcdUnlinkGtd_first (hwf : h.WellFormed) {ys : List GtdPtr}
    (hq : h.HasQueue w i c (g :: ys)) :
    ∃ h', hcdUnlinkGtd h w i g = .ok h' ∧ h.Removes w i g h' := by
  have hq' := hq
  obtain ⟨e, he, hc, ⟨hhead, m, hgm, hrest⟩, htail⟩ := hq'
  obtain ⟨n, hn, hnext⟩ := Option.map_eq_some_iff.mp hgm
  have hnd : (g :: ys).Nodup := by
    obtain ⟨e', -, -, hchain, -⟩ := hq
    exact hchain.nodup
  obtain ⟨hgys, -⟩ := List.nodup_cons.mp hnd
  let e' : Epd := { e with
    tdQueueHeadPointer := n.nextTD
    tdQueueTailPointer := if e.tdQueueTailPointer = some g then none else e.tdQueueTailPointer }
  have hn' : (h.setEpd w i e').heap g = some n := by
    rw [Hcd.heap_setEpd]
    exact hn
  obtain ⟨h', hrun, hlist, hheap⟩ := appendToDoneList_ok hn'
  have hok : hcdUnlinkGtd h w i g = .ok h' := by
    rw [hcdUnlinkGtd, Hcd.epd_some _ _ _ _ he, ok_bind, if_pos hhead, Hcd.load_some h hn]
    exact hrun
  have hcells : ∀ x, x ≠ g → h'.heap x = h.heap x := by
    intro x hx
    rw [hheap, if_neg hx, Hcd.heap_setEpd]
  have hnexts : ∀ x, x ≠ g → h'.next x = h.next x := fun x hx ↦
    congrArg (Option.map Gtd.nextTD) (hcells x hx)
  refine ⟨h', hok, ?_, ?_, ?_, ?_⟩
  · intro c' q' hq'
    obtain ⟨rfl, rfl⟩ := hq.unique hq'
    rw [List.erase_cons_head]
    refine ⟨e', ?_, hc, ?_, ?_⟩
    · obtain ⟨hlt, -⟩ := List.getElem?_eq_some_iff.mp he
      rw [hlist, Hcd.list_setEpd, if_pos rfl, List.getElem?_set_self hlt]
    · show Chain h'.next n.nextTD ys
      rw [hnext]
      exact hrest.frame fun x hx ↦ hnexts x fun hxg ↦ hgys (hxg ▸ hx)
    · show (if e.tdQueueTailPointer = some g then none else e.tdQueueTailPointer) = ys.getLast?
      rw [htail]
      cases ys with
      | nil => exact if_pos rfl
      | cons y ys =>
        rw [List.getLast?_cons_cons, if_neg]
        exact fun hlast ↦ hgys (List.mem_of_getLast? hlast)
  · intro w' j hne c' q' hq'
    refine hq'.frame ?_ ?_
    · rw [hlist, Hcd.list_setEpd]
      split
      · next hw =>
        subst hw
        exact List.getElem?_set_ne fun hij ↦ hne ⟨rfl, hij.symm⟩
      · rfl
    · intro x hx
      refine hnexts x ?_
      rintro rfl
      exact hne (hwf.apart hq' hq hx List.mem_cons_self)
  · refine contents_eq (fun x n' hx ↦ ?_) fun x hx ↦ ?_
    · by_cases hxg : x = g
      · subst hxg
        obtain rfl := Option.some.inj (hn.symm.trans hx)
        exact ⟨_, (hheap x).trans (if_pos rfl), rfl⟩
      · exact ⟨n', (hcells x hxg).trans hx, rfl⟩
    · rw [hcells x ?_, hx]
      rintro rfl
      rw [hn] at hx
      cases hx
  · exact fun hfree ↦ (hfree w i c _ hq List.mem_cons_self).elim

private theorem hcdUnlinkGtd_behind (hwf : h.WellFormed) {xs ys : List GtdPtr} {l : GtdPtr}
    (hq : h.HasQueue w i c (xs ++ l :: g :: ys)) : ∃ h', hcdUnlinkGtd h w i g = .ok h' ∧
      (∀ v, h'.list v = h.list v) ∧ h'.next l = h.next g ∧
      (∀ x, x ≠ l → x ≠ g → h'.next x = h.next x) ∧ h'.contents = h.contents := by
  have hlen := hq.length_le hwf
  obtain ⟨e, he, -, hchain, -⟩ := hq
  have hnd := hchain.nodup
  have hlg : l ≠ g := by
    rintro rfl
    simp [List.nodup_append] at hnd
  have hhead : e.tdQueueHeadPointer ≠ some g := by
    rw [hchain.head_eq]
    intro hhead
    cases xs with
    | nil => exact hlg (Option.some.inj hhead)
    | cons x xs =>
      obtain rfl := Option.some.inj hhead
      simp at hnd
  have hfuel : xs.length < h.nextGtd + 1 := by
    rw [List.length_append] at hlen
    omega
  obtain ⟨n, hn, hfind⟩ := predecessor_some hchain hfuel
  obtain ⟨m', hm'⟩ := hchain.allocated (g := g) (by simp)
  obtain ⟨m, hm, -⟩ := Option.map_eq_some_iff.mp hm'
  have hm₁ : (h.setGtd l { n with nextTD := m.nextTD }).heap g = some m := by
    rw [Hcd.heap_setGtd, if_neg hlg.symm]
    exact hm
  obtain ⟨h', hrun, hlist, hheap⟩ := appendToDoneList_ok hm₁
  have hok : hcdUnlinkGtd h w i g = .ok h' := by
    rw [hcdUnlinkGtd, Hcd.epd_some _ _ _ _ he, ok_bind, if_neg hhead, unlinkBehind_eq, hfind,
      ok_bind]
    dsimp only
    rw [Hcd.load_some h hm, ok_bind]
    exact hrun
  have hl : h'.heap l = some { n with nextTD := m.nextTD } := by
    rw [hheap, if_neg hlg, Hcd.heap_setGtd, if_pos rfl]
  have hcells : ∀ x, x ≠ l → x ≠ g → h'.heap x = h.heap x := by
    intro x hxl hxg
    rw [hheap, if_neg hxg, Hcd.heap_setGtd, if_neg hxl]
  refine ⟨h', hok, fun v ↦ ?_, ?_, fun x hxl hxg ↦ ?_, ?_⟩
  · rw [hlist, Hcd.list_setGtd]
  · rw [Hcd.next, Hcd.next, hl, hm]
    rfl
  · rw [Hcd.next, Hcd.next, hcells x hxl hxg]
  · refine contents_eq (fun x n' hx ↦ ?_) fun x hx ↦ ?_
    · by_cases hxg : x = g
      · subst hxg
        obtain rfl := Option.some.inj (hm.symm.trans hx)
        exact ⟨_, (hheap x).trans (if_pos rfl), rfl⟩
      · by_cases hxl : x = l
        · subst hxl
          obtain rfl := Option.some.inj (hn.symm.trans hx)
          exact ⟨_, hl, rfl⟩
        · exact ⟨n', (hcells x hxl hxg).trans hx, rfl⟩
    · rw [hcells x ?_ ?_, hx]
      · rintro rfl
        rw [hn] at hx
        cases hx
      · rintro rfl
        rw [hm] at hx
        cases hx

private theorem removes_behind (hwf : h.WellFormed) {xs ys : List GtdPtr} {l : GtdPtr}
    (hq : h.HasQueue w i c (xs ++ l :: g :: ys)) {h' : Hcd} (hlist : ∀ v, h'.list v = h.list v)
    (hl : h'.next l = h.next g) (hnext : ∀ x, x ≠ l → x ≠ g → h'.next x = h.next x)
    (hcontents : h'.contents = h.contents) : h.Removes w i g h' ↔ ys ≠ [] := by
  have hq' := hq
  obtain ⟨e, he, hc, hchain, htail⟩ := hq'
  have hnd := hchain.nodup
  have herase : (xs ++ l :: g :: ys).erase g = xs ++ l :: ys := by
    simp only [List.nodup_append, List.nodup_cons, List.mem_cons, not_or] at hnd
    obtain ⟨-, ⟨⟨hlg, -⟩, -⟩, hne⟩ := hnd
    have hgxs : g ∉ xs := fun hmem ↦ hne g hmem g (.inr (.inl rfl)) rfl
    rw [List.erase_append_right _ hgxs, List.erase_cons_tail (by simpa using hlg),
      List.erase_cons_head]
  have hmem : ∀ x ∈ xs ++ ys, x ≠ l ∧ x ≠ g := by
    intro x hx
    simp only [List.nodup_append, List.nodup_cons, List.mem_cons, not_or] at hnd
    obtain ⟨-, ⟨⟨-, hlys⟩, hgys, -⟩, hne⟩ := hnd
    rcases List.mem_append.mp hx with hx | hx
    · exact ⟨hne x hx l (.inl rfl), hne x hx g (.inr (.inl rfl))⟩
    · refine ⟨?_, ?_⟩
      · rintro rfl
        exact hlys hx
      · rintro rfl
        exact hgys hx
  have hrest : Chain h'.next e.tdQueueHeadPointer (xs ++ l :: ys) :=
    hchain.bypass hl fun x hx ↦ hnext x (hmem x hx).1 (hmem x hx).2
  constructor
  · rintro hr rfl
    obtain ⟨e', he', -, -, htail'⟩ := hr.own c _ hq
    rw [hlist, he] at he'
    obtain rfl := Option.some.inj he'
    -- the tail pointer still names the descriptor that was removed
    rw [herase, htail] at htail'
    obtain rfl : g = l := by simpa using htail'
    simp [List.nodup_append] at hnd
  · intro hys
    refine ⟨?_, ?_, hcontents, ?_⟩
    · intro c' q' hq'
      obtain ⟨rfl, rfl⟩ := hq.unique hq'
      rw [herase]
      refine ⟨e, (hlist w ▸ he), hc, hrest, ?_⟩
      rw [htail]
      cases ys with
      | nil => exact (hys rfl).elim
      | cons y ys => simp
    · intro w' j hne c' q' hq'
      refine hq'.frame (by rw [hlist]) fun x hx ↦ hnext x ?_ ?_
      · rintro rfl
        exact hne (hwf.apart hq' hq hx (by simp))
      · rintro rfl
        exact hne (hwf.apart hq' hq hx (by simp))
    · exact fun hfree ↦ (hfree w i c _ hq (by simp)).elim

/-- `__hcd_unlink_gtd` removes a descriptor as it should if and only if the descriptor is not in
that queue, or its head, or not its last. -/
theorem hcdUnlinkGtd_removes (hwf : h.WellFormed) (hq : h.HasQueue w i c q) :
    (∃ h', hcdUnlinkGtd h w i g = .ok h' ∧ h.Removes w i g h') ↔
      (g ∈ q → q.head? = some g ∨ q.getLast? ≠ some g) := by
  by_cases hg : g ∈ q
  · obtain ⟨xs, ys, rfl⟩ := List.append_of_mem hg
    rcases List.eq_nil_or_concat xs with rfl | ⟨xs, l, rfl⟩
    · exact iff_of_true (hcdUnlinkGtd_first hwf hq) fun _ ↦ .inl rfl
    · have hsplit : xs.concat l ++ g :: ys = xs ++ l :: g :: ys := by simp
      rw [hsplit] at hq hg ⊢
      obtain ⟨h', hok, hlist, hl, hnext, hcontents⟩ := hcdUnlinkGtd_behind hwf hq
      have hnd : (xs ++ l :: g :: ys).Nodup := by
        obtain ⟨e, -, -, hchain, -⟩ := hq
        exact hchain.nodup
      have hhead : (xs ++ l :: g :: ys).head? ≠ some g := by
        intro hhead
        cases xs with
        | nil =>
          obtain rfl := Option.some.inj hhead
          simp at hnd
        | cons x xs =>
          obtain rfl := Option.some.inj hhead
          simp at hnd
      have hlast : (xs ++ l :: g :: ys).getLast? ≠ some g ↔ ys ≠ [] := by
        cases ys with
        | nil => simp
        | cons y ys =>
          refine iff_of_true (fun hlast ↦ ?_) nofun
          have hmem : g ∈ y :: ys := List.mem_of_getLast? (by simpa using hlast)
          simp only [List.nodup_append, List.nodup_cons] at hnd
          exact hnd.2.1.2.1 hmem
      have hiff := removes_behind hwf hq hlist hl hnext hcontents
      constructor
      · rintro ⟨h'', hok', hr⟩ -
        rw [hok] at hok'
        obtain rfl := Except.ok.inj hok'
        exact .inr (hlast.mpr (hiff.mp hr))
      · intro hcond
        exact ⟨h', hok, hiff.mpr (hlast.mp ((hcond hg).resolve_left hhead))⟩
  · have hremoves := removes_absent hq hg
    exact iff_of_true ⟨h, hcdUnlinkGtd_absent hwf hq hg, hremoves⟩ fun hmem ↦ (hg hmem).elim

end Unlink

/-! ### The search from the first control endpoint -/

section GtdUnlink

variable {h : Hcd} {g : GtdPtr}

/-- Where there is an endpoint to look at, the lock is not released. -/
theorem gtdUnlinkLoop_held {i : EpdPtr} {fuel : Nat} {h' : Hcd} {held : Bool}
    (hrun : gtdUnlinkLoop h g fuel (some i) = .ok (h', held)) : held = true := by
  induction fuel with
  | zero => cases hrun
  | succ fuel ih =>
    obtain ⟨e, -, hrun⟩ := bind_eq_ok.mp hrun
    split at hrun
    · obtain ⟨x, -, hrun⟩ := bind_eq_ok.mp hrun
      exact (Prod.mk.inj (pure_eq_ok.mp hrun)).2.symm
    · obtain ⟨found, -, hrun⟩ := bind_eq_ok.mp hrun
      cases found with
      | none => exact ih hrun
      | some x =>
        obtain ⟨y, -, hrun⟩ := bind_eq_ok.mp hrun
        exact (Prod.mk.inj (pure_eq_ok.mp hrun)).2.symm

/-- A descriptor that the first control endpoint does not have is looked for for ever. -/
theorem gtdUnlinkLoop_diverges (hwf : h.WellFormed) {i : EpdPtr} {c : EpdCore} {q : List GtdPtr}
    (hq : h.HasQueue .control i c q) (hg : g ∉ q) (fuel : Nat) :
    gtdUnlinkLoop h g fuel (some i) = .error .diverged := by
  have hlen := hq.length_le hwf
  obtain ⟨e, he, -, hchain, -⟩ := hq
  have hhead : e.tdQueueHeadPointer ≠ some g := by
    rw [hchain.head_eq]
    exact fun hhead ↦ hg (List.mem_of_head? hhead)
  have hnone := predecessor_none hchain (Nat.lt_succ_of_le hlen)
    fun hmem ↦ hg (List.mem_of_mem_tail hmem)
  induction fuel with
  | zero => rfl
  | succ fuel ih =>
    rw [gtdUnlinkLoop, Hcd.epd_some _ _ _ _ he, ok_bind, if_neg hhead, hnone]
    exact ih

/-- `hcd_gtd_unlink` cancels a descriptor as it should, with the lock released, if and only if
there is no control endpoint and the descriptor is in no queue. -/
theorem hcdGtdUnlink_cancels (h : Hcd) (g : GtdPtr) :
    (∃ fuel h', hcdGtdUnlink h fuel (some g) = .ok (h', false) ∧ h.Cancels g h') ↔
      h.controlList = [] ∧ h.Unqueued g := by
  constructor
  · rintro ⟨fuel, h', hrun, hc⟩
    have hempty : h.controlList = [] := by
      cases hl : h.controlList with
      | nil => rfl
      | cons e es =>
        have hptr : h.listPtr .control = some 0 := by
          simp [Hcd.listPtr, Hcd.list, hl]
        rw [hcdGtdUnlink, hptr] at hrun
        cases gtdUnlinkLoop_held hrun
    have hptr : h.listPtr .control = none := by simp [Hcd.listPtr, Hcd.list, hempty]
    rw [hcdGtdUnlink, hptr] at hrun
    have hsame : h' = h := by
      cases fuel with
      | zero => cases hrun
      | succ fuel => exact (Prod.mk.inj (Except.ok.inj hrun)).1.symm
    subst hsame
    refine ⟨hempty, fun w i c q hq hg ↦ ?_⟩
    have hlen := congrArg List.length (hq.unique (hc.queues w i c q hq)).2
    have hpos := List.length_pos_of_mem hg
    rw [List.length_erase_of_mem hg] at hlen
    omega
  · rintro ⟨hempty, hfree⟩
    have hptr : h.listPtr .control = none := by simp [Hcd.listPtr, Hcd.list, hempty]
    refine ⟨1, h, ?_, ?_, rfl, fun _ ↦ rfl⟩
    · rw [hcdGtdUnlink, hptr]
      rfl
    · intro w i c q hq
      rw [List.erase_of_not_mem (hfree w i c q hq)]
      exact hq

end GtdUnlink

end BiMpp.Host
