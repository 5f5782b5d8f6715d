import BiMpp.Host.Queues

/-!
# Histories of the driver

What a list of events says happened: the links, the transactions and the completions.
`Ledger` relates a history to the queues it leads to: every address issued is queued at
its slot, on the done stack or completed, and a slot's queue is the tail end of its
links.
-/

namespace BiMpp.Host
open BiMpp.Usb BiMpp.Base

/-- A link: the new descriptor's address and the arguments. -/
def HcdEvent.linked : HcdEvent → Option (GtdPtr × LinkArgs)
  | (.link a, .linked g) => some (g, a)
  | _ => none

/-- The transaction made, if any. -/
def HcdEvent.transaction : HcdEvent → Option Transaction
  | (_, .sent t) => t
  | _ => none

/-- The URB completed, if any. -/
def HcdEvent.completion : HcdEvent → Option Completion
  | (_, .processed c) => c
  | _ => none

/-- The links of a history, in order. -/
def links (es : List HcdEvent) : List (GtdPtr × LinkArgs) := es.filterMap HcdEvent.linked

/-- The transactions of a history, in order. -/
def transactions (es : List HcdEvent) : List Transaction := es.filterMap HcdEvent.transaction

/-- The completions of a history, in order. -/
def completions (es : List HcdEvent) : List Completion := es.filterMap HcdEvent.completion

/-- The addresses linked to a slot, in order. -/
def linkedTo (s : Slot) (es : List HcdEvent) : List GtdPtr :=
  ((links es).filter fun l ↦ l.2.slot = s).map Prod.fst

section Snoc

variable (es : List HcdEvent) (a : LinkArgs) (g : GtdPtr) (w : EpdList) (p : Option EpdPtr)
  (r : Response) (t : Option Transaction) (c : Option Completion) (s : Slot)

/-- A link is added to the links. -/
@[simp] theorem links_link : links (es ++ [(.link a, .linked g)]) = links es ++ [(g, a)] := by
  simp [links, HcdEvent.linked]

/-- A transaction adds no link. -/
@[simp] theorem links_send : links (es ++ [(.send w p r, .sent t)]) = links es := by
  simp [links, HcdEvent.linked]

/-- Processing the done list adds no link. -/
@[simp] theorem links_process : links (es ++ [(.processDoneList, .processed c)]) = links es := by
  simp [links, HcdEvent.linked]

/-- A link completes nothing. -/
@[simp] theorem completions_link :
    completions (es ++ [(.link a, .linked g)]) = completions es := by
  simp [completions, HcdEvent.completion]

/-- A transaction completes nothing. -/
@[simp] theorem completions_send :
    completions (es ++ [(.send w p r, .sent t)]) = completions es := by
  simp [completions, HcdEvent.completion]

/-- Processing the done list adds its completion. -/
@[simp] theorem completions_process :
    completions (es ++ [(.processDoneList, .processed c)]) = completions es ++ c.toList := by
  cases c <;> simp [completions, HcdEvent.completion]

/-- A link is added to the links of its endpoint. -/
@[simp] theorem linkedTo_link : linkedTo s (es ++ [(.link a, .linked g)]) =
    if a.slot = s then linkedTo s es ++ [g] else linkedTo s es := by
  unfold linkedTo
  rw [links_link, List.filter_append, List.map_append]
  by_cases hs : a.slot = s <;> simp [hs]

/-- A transaction adds no link to an endpoint. -/
@[simp] theorem linkedTo_send : linkedTo s (es ++ [(.send w p r, .sent t)]) = linkedTo s es := by
  simp [linkedTo]

/-- Processing the done list adds no link to an endpoint. -/
@[simp] theorem linkedTo_process :
    linkedTo s (es ++ [(.processDoneList, .processed c)]) = linkedTo s es := by
  simp [linkedTo]

end Snoc

/-- The history accounts for every address. -/
structure Ledger (es : List HcdEvent) (a : Queues) : Prop where
  wf : a.WF
  issued : (links es).map Prod.fst = List.range a.nextGtd
  entry : ∀ pl, ∀ x ∈ a.place pl, ∃ args, (x.ptr, args) ∈ links es ∧ args.slot = x.owner ∧
    args.urb = x.td.urb
  order : ∀ s, a.ptrs (some s) <:+ linkedTo s es
  completed : ∀ c ∈ completions es, ∃ args, (c.gtd, args) ∈ links es ∧ args.urb.id = c.urb
  once : ((completions es).map Completion.gtd).Nodup
  gone : ∀ g < a.nextGtd, g ∈ (completions es).map Completion.gtd ↔ ∀ pl, g ∉ a.ptrs pl

namespace Ledger

variable {es : List HcdEvent} {a b : Queues}

/-- The empty run accounts for the empty queues. -/
theorem init : Ledger [] queuesInit where
  wf := Queues.wf_init
  issued := rfl
  entry pl x hx := by cases pl <;> exact nomatch hx
  order s := List.suffix_refl []
  completed c hc := nomatch hc
  once := List.nodup_nil
  gone g hg := absurd hg (Nat.not_lt_zero g)

/-- Linked addresses are below the next one. -/
theorem linked_lt (h : Ledger es a) {l : GtdPtr × LinkArgs} (hl : l ∈ links es) :
    l.1 < a.nextGtd := by
  rw [← List.mem_range, ← h.issued]
  exact List.mem_map_of_mem hl

/-- An address was linked once, with one set of arguments. -/
theorem linked_unique (h : Ledger es a) {g : GtdPtr} {args args' : LinkArgs}
    (hl : (g, args) ∈ links es) (hl' : (g, args') ∈ links es) : args = args' := by
  have hnd : ((links es).map Prod.fst).Nodup := by
    rw [h.issued]
    exact List.nodup_range
  exact congrArg Prod.snd (List.inj_on_of_nodup_map hnd hl hl' rfl)

private theorem link (h : Ledger es a) {args : LinkArgs} {t : Td}
    (hb : Opened a args.slot args.mps b) (ht : args.td = .ok t) :
    Ledger (es ++ [(.link args, .linked a.nextGtd)]) (b.push args.slot t) := by
  obtain ⟨hwf, hk⟩ := h.wf.opened hb
  obtain ⟨-, -, hnext, -⟩ := hb.frame
  have hptrs : ∀ pl, (b.push args.slot t).ptrs pl =
      if pl = some args.slot then a.ptrs pl ++ [a.nextGtd] else a.ptrs pl := by
    intro pl
    rw [Queues.ptrs_push, Queues.ptrs_opened hb, hnext]
  have hurb : t.urb = args.urb := by
    obtain ⟨pid, rfl⟩ := LinkArgs.td_ok ht
    rfl
  have hnotdone : a.nextGtd ∉ (completions es).map Completion.gtd := by
    intro hmem
    obtain ⟨c, hc, hcg⟩ := List.mem_map.mp hmem
    obtain ⟨args', hl, -⟩ := h.completed c hc
    have hlt : c.gtd < a.nextGtd := h.linked_lt hl
    rw [hcg] at hlt
    exact Nat.lt_irrefl _ hlt
  constructor
  case wf => exact hwf.push hk t
  case issued =>
    rw [links_link, List.map_append, h.issued]
    change _ = List.range (b.nextGtd + 1)
    rw [hnext, List.range_succ]
    rfl
  case entry =>
    intro pl x hx
    rw [links_link]
    rcases Queues.mem_link hb hx with hx | ⟨-, rfl⟩
    · obtain ⟨args', hl, hs, hu⟩ := h.entry pl x hx
      exact ⟨args', List.mem_append_left _ hl, hs, hu⟩
    · exact ⟨args, by simp, rfl, hurb.symm⟩
  case order =>
    intro s
    rw [hptrs, linkedTo_link]
    by_cases hs : s = args.slot
    · rw [if_pos (congrArg some hs), if_pos hs.symm]
      obtain ⟨l, hl⟩ := h.order s
      exact ⟨l, by rw [← hl, List.append_assoc]⟩
    · rw [if_neg fun he ↦ hs (Option.some.inj he), if_neg (Ne.symm hs)]
      exact h.order s
  case completed =>
    intro c hc
    rw [completions_link] at hc
    obtain ⟨args', hl, hu⟩ := h.completed c hc
    exact ⟨args', by rw [links_link]; exact List.mem_append_left _ hl, hu⟩
  case once =>
    rw [completions_link]
    exact h.once
  case gone =>
    intro g hg
    have hg' : g < a.nextGtd + 1 := hnext ▸ hg
    rw [completions_link]
    by_cases hgn : g = a.nextGtd
    · subst hgn
      refine ⟨fun hmem ↦ absurd hmem hnotdone, fun hall ↦ absurd ?_ (hall (some args.slot))⟩
      rw [hptrs, if_pos rfl]
      simp
    · rw [h.gone g (Nat.lt_of_le_of_ne (Nat.le_of_lt_succ hg') hgn)]
      have hmem : ∀ pl, g ∈ (b.push args.slot t).ptrs pl ↔ g ∈ a.ptrs pl := by
        intro pl
        rw [hptrs]
        split
        · simp [hgn]
        · rfl
      simp only [hmem]

private theorem stay (h : Ledger es a) {s : Slot} {x : Entry} {q : List Entry} {p : Td}
    {e : HcdEvent} (hq : a.queue s = x :: q) (hu : p.urb = x.td.urb)
    (hl : links (es ++ [e]) = links es) (hc : completions (es ++ [e]) = completions es) :
    Ledger (es ++ [e]) (a.keep s { x with td := p } q) := by
  have hptrs : ∀ pl, (a.keep s { x with td := p } q).ptrs pl = a.ptrs pl :=
    Queues.ptrs_keep hq rfl
  constructor
  case wf => exact h.wf.keep hq rfl rfl
  case issued =>
    rw [hl]
    exact h.issued
  case entry =>
    intro pl y hy
    rw [hl]
    rcases h.wf.mem_keep hq hy with ⟨-, rfl⟩ | ⟨hy, -⟩
    · rw [hu]
      exact h.entry (some s) x (by simp [Queues.place, hq])
    · exact h.entry pl y hy
  case order =>
    intro s'
    rw [hptrs, linkedTo, hl]
    exact h.order s'
  case completed =>
    rw [hc, hl]
    exact h.completed
  case once =>
    rw [hc]
    exact h.once
  case gone =>
    intro g hg
    simp only [hc, hptrs]
    exact h.gone g hg

private theorem retire (h : Ledger es a) {s : Slot} {x : Entry} {q : List Entry} {p : Td}
    {fate : Fate} {e : HcdEvent} (hq : a.queue s = x :: q) (hu : p.urb = x.td.urb)
    (hl : links (es ++ [e]) = links es) (hc : completions (es ++ [e]) = completions es) :
    Ledger (es ++ [e]) (a.retire s { x with td := p } q fate) := by
  have hptrs : ∀ pl, (a.retire s { x with td := p } q fate).ptrs pl =
      if pl = some s then q.map Entry.ptr
      else if pl = none then x.ptr :: a.ptrs none else a.ptrs pl := Queues.ptrs_retire rfl
  have hs : a.ptrs (some s) = x.ptr :: q.map Entry.ptr := by
    simp [Queues.ptrs, Queues.place, hq]
  constructor
  case wf => exact h.wf.retire hq rfl
  case issued =>
    rw [hl]
    exact h.issued
  case entry =>
    intro pl y hy
    rw [hl]
    rcases h.wf.mem_retire hq hy with ⟨-, rfl⟩ | ⟨hy, -⟩
    · rw [hu]
      exact h.entry (some s) x (by simp [Queues.place, hq])
    · exact h.entry pl y hy
  case order =>
    intro s'
    rw [hptrs, linkedTo, hl]
    have ho := h.order s'
    split
    · next he =>
      rw [he, hs] at ho
      exact (List.suffix_cons _ _).trans ho
    · rw [if_neg (Option.some_ne_none _)]
      exact ho
  case completed =>
    rw [hc, hl]
    exact h.completed
  case once =>
    rw [hc]
    exact h.once
  case gone =>
    intro g hg
    rw [hc, h.gone g hg]
    -- the address moves from the slot to the done stack
    constructor
    · intro hall pl
      rw [hptrs]
      have h₁ := hall (some s)
      rw [hs] at h₁
      split
      · exact fun hm ↦ h₁ (List.mem_cons_of_mem _ hm)
      · split
        · intro hm
          rcases List.mem_cons.mp hm with rfl | hm
          · exact h₁ List.mem_cons_self
          · exact hall none hm
        · exact hall pl
    · intro hall pl hpl
      by_cases hpls : pl = some s
      · rw [hpls, hs] at hpl
        rcases List.mem_cons.mp hpl with rfl | hpl
        · refine hall none ?_
          rw [hptrs, if_neg (Option.some_ne_none _).symm, if_pos rfl]
          exact List.mem_cons_self
        · refine hall (some s) ?_
          rw [hptrs, if_pos rfl]
          exact hpl
      · refine hall pl ?_
        rw [hptrs, if_neg hpls]
        split
        · next hn =>
          rw [hn] at hpl
          exact List.mem_cons_of_mem _ hpl
        · exact hpl

private theorem clear (h : Ledger es a) {e : HcdEvent} (n : BitVec 32)
    (hl : links (es ++ [e]) = links es) (hc : completions (es ++ [e]) = completions es) :
    Ledger (es ++ [e]) (a.clear n) := by
  constructor
  case wf => exact h.wf.clear n
  case issued =>
    rw [hl]
    exact h.issued
  case entry =>
    rw [hl]
    exact h.entry
  case order =>
    intro s
    rw [linkedTo, hl]
    exact h.order s
  case completed =>
    rw [hc, hl]
    exact h.completed
  case once =>
    rw [hc]
    exact h.once
  case gone =>
    rw [hc]
    exact h.gone

private theorem complete (h : Ledger es a) {x : Entry} {rest : List Entry}
    (hd : a.done = x :: rest) :
    Ledger (es ++ [(.processDoneList, .processed (some (x.td.complete x.ptr)))])
      { a with done := rest } := by
  have hx : x ∈ a.place none := by
    rw [Queues.place, hd]
    exact List.mem_cons_self
  have hdone : a.ptrs none = x.ptr :: rest.map Entry.ptr := by
    simp [Queues.ptrs, Queues.place, hd]
  obtain ⟨args, hargs, -, hu⟩ := h.entry none x hx
  have hlt : x.ptr < a.nextGtd := h.linked_lt hargs
  have hnew : x.ptr ∉ (completions es).map Completion.gtd := by
    intro hm
    refine (h.gone x.ptr hlt).mp hm none ?_
    exact List.mem_map_of_mem hx
  have hwf : Queues.WF { a with done := rest } := h.wf.complete hd
  constructor
  case wf => exact hwf
  case issued =>
    rw [links_process]
    exact h.issued
  case entry =>
    intro pl y hy
    rw [links_process]
    cases pl with
    | none =>
      refine h.entry none y ?_
      rw [Queues.place, hd]
      exact List.mem_cons_of_mem _ hy
    | some s => exact h.entry (some s) y hy
  case order =>
    intro s
    rw [linkedTo_process]
    exact h.order s
  case completed =>
    intro c hc
    rw [completions_process] at hc
    rw [links_process]
    rcases List.mem_append.mp hc with hc | hc
    · exact h.completed c hc
    · obtain rfl := List.mem_singleton.mp hc
      exact ⟨args, hargs, congrArg UrbRef.id hu⟩
  case once =>
    rw [completions_process, List.map_append]
    refine List.nodup_append.mpr ⟨h.once, by simp, ?_⟩
    intro g hg g' hg' he
    simp only [Option.toList_some, List.map_cons, List.map_nil, List.mem_singleton] at hg'
    rw [he, hg'] at hg
    exact hnew hg
  case gone =>
    intro g hg
    rw [completions_process, List.map_append, List.mem_append, h.gone g hg]
    simp only [Option.toList_some, List.map_cons, List.map_nil, List.mem_singleton]
    constructor
    · rintro (hall | rfl) pl hpl
      · refine hall pl ?_
        cases pl with
        | none => rw [hdone]; exact List.mem_cons_of_mem _ hpl
        | some s => exact hpl
      · -- the completed address was only on top of the done stack
        cases pl with
        | none =>
          have hnd := h.wf.nodup none
          rw [hdone] at hnd
          exact (List.nodup_cons.mp hnd).1 hpl
        | some s =>
          refine h.wf.disjoint (some s) none (Option.some_ne_none s) _ hpl ?_
          rw [hdone]
          exact List.mem_cons_self
    · intro hall
      by_cases hgx : g = x.ptr
      · exact .inr hgx
      · refine .inl fun pl hpl ↦ hall pl ?_
        cases pl with
        | none =>
          rw [hdone] at hpl
          exact (List.mem_cons.mp hpl).resolve_left hgx
        | some s => exact hpl

/-- Every transition keeps the ledger. -/
theorem step (h : Ledger es a) {e : HcdEvent} (hs : QueueStep a e b) : Ledger (es ++ [e]) b := by
  cases hs with
  | link hb ht => exact h.link hb ht
  | idle _ => exact h.clear _ (links_send ..) (completions_send ..)
  | stay _ hq hx =>
    exact h.stay hq (EpdCore.exchange_urb hx) (links_send ..) (completions_send ..)
  | retire _ hq hx _ =>
    exact h.retire hq (EpdCore.exchange_urb hx) (links_send ..) (completions_send ..)
  | empty _ =>
    refine h.clear _ (links_process ..) ?_
    rw [completions_process]
    simp
  | complete hd => exact h.complete hd

end Ledger

/-- Every history of the queues accounts for every address. -/
theorem QueuesRun.ledger {es : List HcdEvent} {a : Queues} (h : QueuesRun es a) :
    Ledger es a := by
  refine Run.invariant (P := Ledger) Ledger.init ?_ h
  intro _ _ _ _ _ hl he
  exact hl.step (queueStep_of_exec he)

end BiMpp.Host
