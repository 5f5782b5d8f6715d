import BiMpp.Host.Agreement
import BiMpp.Host.History

/-!
# Who owns a transfer descriptor

After any run of links, sends and done-list calls every descriptor ever linked is in
one place: the queue of its endpoint, the done list, or freed with its URB completed.
The statements are about the heap; the proofs read them off the queues.
-/

namespace BiMpp.Host
open BiMpp.Usb BiMpp.Base

/-- The places a descriptor can be in. -/
inductive Place
  | queue (s : Slot)
  | doneList
  | freed

/-- What it means on the heap that the descriptor at `g` is at a place: it is on the
`nextTD` chain from the queue's head, on the one from the done list, or its cell is free. -/
def Hcd.Holds (h : Hcd) : Place → GtdPtr → Prop
  | .queue s, g => ∃ e ∈ h.list s.list, e.key = s.key ∧
      ∃ q, Chain h.next e.tdQueueHeadPointer q ∧ g ∈ q
  | .doneList, g => ∃ q, Chain h.next h.doneList q ∧ g ∈ q
  | .freed, g => h.heap g = none

/-- The ownership invariant of a history and the heap it leads to. -/
structure Ownership (es : List HcdEvent) (h : Hcd) : Prop where
  keys : ∀ w, ((h.list w).map fun e ↦ e.key).Nodup
  ends : ∀ w, ∀ e ∈ h.list w,
    (e.tdQueueHeadPointer = none ↔ e.tdQueueTailPointer = none) ∧
    ∃ q, Chain h.next e.tdQueueHeadPointer q ∧ q.Nodup ∧ e.tdQueueTailPointer = q.getLast?
  onePlace : ∀ l ∈ links es, ∃! p, h.Holds p l.1
  ownQueue : ∀ l ∈ links es, ∀ s, h.Holds (.queue s) l.1 → s = l.2.slot
  linkOrder : ∀ w, ∀ e ∈ h.list w, ∀ q, Chain h.next e.tdQueueHeadPointer q →
    q <:+ linkedTo ⟨w, e.key⟩ es
  doneOnce : ((completions es).map Completion.urb).Nodup
  doneWhenFreed : ∀ l ∈ links es,
    l.2.urb.id ∈ (completions es).map Completion.urb ↔ h.Holds .freed l.1
  pending : ∀ g n, h.heap g = some n → n.urb.id ∉ (completions es).map Completion.urb

/-- `urb_done` accompanies leaving the done list: a step takes a descriptor off the done
list exactly when it completes that descriptor's URB. -/
def DoneOnLeaving (h : Hcd) : Prop :=
  ∀ op out h', hcdExec h op = .ok (h', out) → ∀ g,
    (h.Holds .doneList g ∧ ¬ h'.Holds .doneList g) ↔
      ∃ n c, h.heap g = some n ∧ out = .processed (some c) ∧ c.gtd = g ∧ c.urb = n.urb.id

namespace Refines

variable {h : Hcd} {a : Queues}

/-- Reading a queue off the heap. -/
theorem holds_queue (hr : Refines h a) (s : Slot) (g : GtdPtr) :
    h.Holds (.queue s) g ↔ g ∈ a.ptrs (some s) := by
  constructor
  · rintro ⟨e, he, hk, q, hq, hg⟩
    obtain ⟨i, hi⟩ := List.mem_iff_getElem?.mp he
    rwa [(hr.epd_at hi hk).chain.unique hq]
  · intro hg
    have hk : a.Known s := by
      by_contra hk
      simp [Queues.ptrs, Queues.place, hr.wf.unknown s hk] at hg
    unfold Queues.Known at hk
    rw [← hr.keys] at hk
    obtain ⟨e, he, hek⟩ := List.mem_map.mp hk
    obtain ⟨i, hi⟩ := List.mem_iff_getElem?.mp he
    exact ⟨e, he, hek, _, (hr.epd_at hi hek).chain, hg⟩

/-- Reading the done list off the heap. -/
theorem holds_doneList (hr : Refines h a) (g : GtdPtr) :
    h.Holds .doneList g ↔ g ∈ a.ptrs none := by
  constructor
  · rintro ⟨q, hq, hg⟩
    rwa [hr.done.unique hq]
  · intro hg
    exact ⟨_, hr.done, hg⟩

/-- A cell is free exactly when its address is nowhere. -/
theorem holds_freed (hr : Refines h a) (g : GtdPtr) :
    h.Holds .freed g ↔ ∀ pl, g ∉ a.ptrs pl := by
  constructor
  · intro hf pl hg
    obtain ⟨n, hn⟩ := hr.cell hg
    have hnone : h.heap g = none := hf
    rw [hn] at hnone
    exact nomatch hnone
  · intro hall
    by_contra hf
    obtain ⟨pl, hpl⟩ := hr.live g hf
    exact hall pl hpl

/-- A descriptor is in at most one place. -/
theorem holds_unique (hr : Refines h a) {g : GtdPtr} {p p' : Place} (hp : h.Holds p g)
    (hp' : h.Holds p' g) : p = p' := by
  have hd := hr.wf.disjoint
  cases p with
  | queue s =>
    rw [hr.holds_queue] at hp
    cases p' with
    | queue s' =>
      rw [hr.holds_queue] at hp'
      by_contra hne
      exact hd (some s) (some s') (fun he ↦ hne (by rw [Option.some.inj he])) g hp hp'
    | doneList =>
      rw [hr.holds_doneList] at hp'
      exact (hd (some s) none nofun g hp hp').elim
    | freed =>
      rw [hr.holds_freed] at hp'
      exact (hp' _ hp).elim
  | doneList =>
    rw [hr.holds_doneList] at hp
    cases p' with
    | queue s' =>
      rw [hr.holds_queue] at hp'
      exact (hd none (some s') nofun g hp hp').elim
    | doneList => rfl
    | freed =>
      rw [hr.holds_freed] at hp'
      exact (hp' _ hp).elim
  | freed =>
    rw [hr.holds_freed] at hp
    cases p' with
    | queue s' =>
      rw [hr.holds_queue] at hp'
      exact (hp _ hp').elim
    | doneList =>
      rw [hr.holds_doneList] at hp'
      exact (hp _ hp').elim
    | freed => rfl

/-- Every address is in some place. -/
theorem holds_some (hr : Refines h a) (g : GtdPtr) : ∃ p, h.Holds p g := by
  by_cases hf : ∀ pl, g ∉ a.ptrs pl
  · exact ⟨.freed, (hr.holds_freed g).mpr hf⟩
  · simp only [not_forall, not_not] at hf
    obtain ⟨pl, hpl⟩ := hf
    cases pl with
    | none => exact ⟨.doneList, (hr.holds_doneList g).mpr hpl⟩
    | some s => exact ⟨.queue s, (hr.holds_queue s g).mpr hpl⟩

end Refines

/-- The done stack loses an address exactly where its URB is completed. -/
theorem QueueStep.leaves_done {a b : Queues} {e : HcdEvent} (hwf : a.WF) (hs : QueueStep a e b)
    (g : GtdPtr) : (g ∈ a.ptrs none ∧ g ∉ b.ptrs none) ↔
      ∃ x rest, a.done = x :: rest ∧ x.ptr = g ∧
        e.2 = .processed (some (x.td.complete x.ptr)) := by
  have stays : ∀ {out : HcdOut}, (∀ c, out ≠ .processed (some c)) →
      (∀ g ∈ a.ptrs none, g ∈ b.ptrs none) → ((g ∈ a.ptrs none ∧ g ∉ b.ptrs none) ↔
        ∃ x rest, a.done = x :: rest ∧ x.ptr = g ∧
          out = .processed (some (x.td.complete x.ptr))) := by
    intro out hout hsub
    constructor
    · rintro ⟨hg, hng⟩
      exact (hng (hsub g hg)).elim
    · rintro ⟨x, rest, -, -, he⟩
      exact (hout _ he).elim
  cases hs with
  | @link args b' t hb ht =>
    refine stays nofun fun g hg ↦ ?_
    rw [Queues.ptrs_push, if_neg nofun, Queues.ptrs_opened hb]
    exact hg
  | idle _ => exact stays nofun fun g hg ↦ hg
  | stay _ hq _ => exact stays nofun fun g hg ↦ hg
  | retire _ hq _ _ =>
    refine stays nofun fun g hg ↦ ?_
    rw [Queues.ptrs_retire rfl, if_neg nofun, if_pos rfl]
    exact List.mem_cons_of_mem _ hg
  | empty _ => exact stays nofun fun g hg ↦ hg
  | @complete x rest hd =>
    have hdone : a.ptrs none = x.ptr :: rest.map Entry.ptr := by
      simp [Queues.ptrs, Queues.place, hd]
    have hnd := hwf.nodup none
    rw [hdone, List.nodup_cons] at hnd
    rw [hdone]
    change (g ∈ x.ptr :: rest.map Entry.ptr ∧ g ∉ rest.map Entry.ptr) ↔ _
    constructor
    · rintro ⟨hg, hng⟩
      exact ⟨x, rest, hd, ((List.mem_cons.mp hg).resolve_right hng).symm, rfl⟩
    · rintro ⟨y, rest', hd', rfl, -⟩
      rw [hd] at hd'
      obtain ⟨rfl, rfl⟩ := List.cons.inj hd'
      exact ⟨List.mem_cons_self, hnd.1⟩

private theorem ownership_of_ledger {es : List HcdEvent} {h : Hcd} {a : Queues}
    (hr : Refines h a) (hl : Ledger es a)
    (hown : ((links es).map fun l ↦ l.2.urb.id).Nodup) : Ownership es h := by
  -- a URB names its descriptor, since every link has one of its own
  have hname : ∀ l ∈ links es, ∀ l' ∈ links es, l.2.urb.id = l'.2.urb.id → l = l' :=
    fun l hm l' hm' he ↦ List.inj_on_of_nodup_map hown hm hm' he
  constructor
  case keys => exact hr.keys_nodup
  case ends =>
    intro w e he
    have hepd := hr.epds w e he
    refine ⟨?_, _, hepd.chain, hepd.chain.nodup, hepd.tail⟩
    rw [hepd.chain.head_none_iff, hepd.tail, List.getLast?_eq_none_iff]
  case onePlace =>
    intro l _
    obtain ⟨p, hp⟩ := hr.holds_some l.1
    exact ⟨p, hp, fun p' hp' ↦ hr.holds_unique hp' hp⟩
  case ownQueue =>
    intro l hm s hs
    rw [hr.holds_queue] at hs
    obtain ⟨x, hx, hxp⟩ := List.mem_map.mp hs
    obtain ⟨args, hargs, hslot, -⟩ := hl.entry (some s) x hx
    rw [hxp] at hargs
    have hsame : args = l.2 := hl.linked_unique hargs hm
    rw [← hsame, hslot, hr.wf.owner s x hx]
  case linkOrder =>
    intro w e he q hq
    rw [hq.unique (hr.epds w e he).chain]
    exact hl.order _
  case doneOnce =>
    have hnd : ((completions es).map Completion.urb).Nodup := by
      rw [List.Nodup, List.pairwise_map]
      refine (List.pairwise_map.mp hl.once).imp_of_mem ?_
      intro c c' hc hc' hne hu
      obtain ⟨args, hm, hcu⟩ := hl.completed c hc
      obtain ⟨args', hm', hcu'⟩ := hl.completed c' hc'
      have hsame := hname _ hm _ hm' (by rw [hcu, hcu', hu])
      exact hne (congrArg Prod.fst hsame)
    exact hnd
  case doneWhenFreed =>
    intro l hm
    have hlt : l.1 < a.nextGtd := hl.linked_lt hm
    rw [hr.holds_freed, ← hl.gone l.1 hlt]
    constructor
    · intro hu
      obtain ⟨c, hc, hcu⟩ := List.mem_map.mp hu
      obtain ⟨args, hm', hu'⟩ := hl.completed c hc
      have hsame := hname _ hm' _ hm (by rw [hu', hcu])
      exact List.mem_map.mpr ⟨c, hc, congrArg Prod.fst hsame⟩
    · intro hg
      obtain ⟨c, hc, hcg⟩ := List.mem_map.mp hg
      obtain ⟨args, hm', hu'⟩ := hl.completed c hc
      rw [hcg] at hm'
      have hsame : args = l.2 := hl.linked_unique hm' hm
      exact List.mem_map.mpr ⟨c, hc, by rw [← hu', hsame]⟩
  case pending =>
    intro g n hn hu
    obtain ⟨pl, hpl⟩ := hr.live g (by rw [hn]; exact nofun)
    obtain ⟨x, hx, hxp⟩ := List.mem_map.mp hpl
    obtain ⟨args, hm, -, hurb⟩ := hl.entry pl x hx
    obtain ⟨n', hn', hnt⟩ := hr.cells pl x hx
    rw [hxp, hn] at hn'
    obtain rfl := Option.some.inj hn'
    obtain ⟨c, hc, hcu⟩ := List.mem_map.mp hu
    obtain ⟨args', hm', hu'⟩ := hl.completed c hc
    have hid : args'.urb.id = args.urb.id := by rw [hu', hcu, hurb, ← hnt]
    have hsame := hname _ hm' _ hm hid
    have hgone : x.ptr ∈ (completions es).map Completion.gtd :=
      List.mem_map.mpr ⟨c, hc, congrArg Prod.fst hsame⟩
    exact (hl.gone x.ptr (hl.linked_lt hm)).mp hgone pl (List.mem_map_of_mem hx)

private theorem doneOnLeaving_of_refines {h : Hcd} {a : Queues} (hr : Refines h a) :
    DoneOnLeaving h := by
  intro op out h' hexec g
  obtain ⟨b, hb, hr'⟩ := (hr.agree op).left_ok hexec
  rw [hr.holds_doneList, hr'.holds_doneList,
    (queueStep_of_exec hb).leaves_done hr.wf g]
  constructor
  · rintro ⟨x, rest, hd, rfl, hout⟩
    obtain ⟨n, hn, hnt⟩ := hr.cells none x (by rw [Queues.place, hd]; exact List.mem_cons_self)
    exact ⟨n, _, hn, hout, rfl, by rw [← hnt]; rfl⟩
  · rintro ⟨n, c, hn, rfl, rfl, hcu⟩
    have hs := queueStep_of_exec hb
    cases hs with
    | complete hd => exact ⟨_, _, hd, rfl, rfl⟩

/-- The ownership invariant: after every run whose links have URBs of their own, each
descriptor has one owner, queues are in link order, and a URB is completed once, as its
descriptor leaves the done list. -/
theorem HcdRun.ownership {es : List HcdEvent} {h : Hcd} (hrun : HcdRun es h)
    (hown : ((links es).map fun l ↦ l.2.urb.id).Nodup) : Ownership es h ∧ DoneOnLeaving h := by
  obtain ⟨a, ha, hr⟩ := hrun.queues
  exact ⟨ownership_of_ledger hr ha.ledger hown, doneOnLeaving_of_refines hr⟩

private def ownershipOps : List HcdOp :=
  [.link ⟨1, 2, false, false, 2, 64, [7], 1, ⟨10, 1⟩⟩,
   .link ⟨1, 0, false, true, 0, 64, [0, 5, 1, 0, 0, 0, 0, 0], 8, ⟨11, 8⟩⟩,
   .send .bulk (some 0) (.ack 1 []), .processDoneList]

/-- A URB is linked, retired and completed. -/
theorem HcdRun.ownership_example : ∃ es h, HcdRun es h ∧
    (completions es).map Completion.urb = [10] ∧ Ownership es h ∧ DoneOnLeaving h := by
  have hcheck : runsTo hcdExec hcdInit ownershipOps (fun _ es ↦
      decide ((completions es).map Completion.urb = [10] ∧
        ((links es).map fun l ↦ l.2.urb.id).Nodup)) = true := by decide
  obtain ⟨es, h, hrun, hp⟩ := Run.of_runsTo hcheck
  have hp' := of_decide_eq_true hp
  exact ⟨es, h, hrun, hp'.1, HcdRun.ownership hrun hp'.2⟩

end BiMpp.Host
