import BiMpp.Base.Grouped
import BiMpp.Host.Isolation
import BiMpp.Host.Transfers

/-!
# First in, first served

An endpoint serves one descriptor at a time, in the order they were linked: its
transactions are grouped by URB, and a URB that has any comes after those that are
retired.
-/

namespace BiMpp.Host
open BiMpp.Usb BiMpp.Base

/-- The URBs linked to a slot, in order. -/
def urbsOn (s : Slot) (es : List HcdEvent) : List Nat :=
  ((links es).filter fun l ↦ l.2.slot = s).map fun l ↦ l.2.urb.id

section Snoc

variable (s : Slot) (es : List HcdEvent) (e : HcdEvent)

/-- The transactions of an endpoint after one more event. -/
theorem transactionsOn_snoc : transactionsOn s (es ++ [e]) =
    transactionsOn s es ++ (HcdEvent.transactionOn s e).toList := by
  unfold transactionsOn
  rw [List.filterMap_append]
  cases h : HcdEvent.transactionOn s e <;> simp [h]

/-- The transactions of an endpoint are transactions of the run. -/
theorem transactionsOn_subset : transactionsOn s es ⊆ transactions es := by
  intro t ht
  obtain ⟨e, he, het⟩ := List.mem_filterMap.mp ht
  unfold HcdEvent.transactionOn at het
  exact List.mem_filterMap.mpr ⟨e, he, (Option.filter_eq_some_iff.mp het).1⟩

/-- The URBs of an endpoint are issued in the order of the run. -/
theorem urbsOn_sublist : (urbsOn s es).Sublist (issuedUrbs es) :=
  List.filter_sublist.map _

private theorem urbsOn_link (a : LinkArgs) (g : GtdPtr) : urbsOn s (es ++ [(.link a, .linked g)]) =
    if a.slot = s then urbsOn s es ++ [a.urb.id] else urbsOn s es := by
  unfold urbsOn
  rw [links_link, List.filter_append, List.map_append]
  by_cases hs : a.slot = s <;> simp [hs]

variable {e}

private theorem urbsOn_none (h : HcdEvent.linked e = none) :
    urbsOn s (es ++ [e]) = urbsOn s es := by
  unfold urbsOn
  rw [links_snoc, h, Option.toList_none, List.append_nil]

/-- An event that is no transaction adds none to any endpoint. -/
theorem transactionsOn_none (h : HcdEvent.transaction e = none) :
    transactionsOn s (es ++ [e]) = transactionsOn s es := by
  rw [transactionsOn_snoc, HcdEvent.transactionOn, h]
  simp

end Snoc

/-- Queues hold the last URBs linked, and only the first of a queue has been tried. -/
structure Fifo (es : List HcdEvent) (a : Queues) : Prop where
  queued : ∀ s, ((a.queue s).map fun x ↦ x.td.urb.id) <:+ urbsOn s es
  waiting : ∀ s x q, a.queue s = x :: q → ∀ y ∈ q, ∀ t ∈ transactions es, t.urb ≠ y.td.urb.id
  grouped : ∀ s, Grouped Transaction.urb (urbsOn s es) (transactionsOn s es)

namespace Fifo

variable {es : List HcdEvent} {a b : Queues}

private theorem init : Fifo [] queuesInit where
  queued _ := List.suffix_refl []
  waiting _ _ _ h := nomatch h
  grouped _ := Grouped.nil _ _

private theorem link (h : Fifo es a) (hacc : Account es a) {args : LinkArgs} {t : Td}
    (hown : (issuedUrbs (es ++ [(.link args, .linked a.nextGtd)])).Nodup)
    (hb : Opened a args.slot args.mps b) (ht : args.td = .ok t) :
    Fifo (es ++ [(.link args, .linked a.nextGtd)]) (b.push args.slot t) := by
  obtain ⟨hqueue, -, -, -⟩ := hb.frame
  have hurb : t.urb = args.urb := by
    obtain ⟨pid, rfl⟩ := LinkArgs.td_ok ht
    rfl
  have hfresh := hacc.fresh hown
  have hsame : transactions (es ++ [(.link args, .linked a.nextGtd)]) = transactions es := by
    rw [transactions_snoc]
    exact List.append_nil _
  constructor
  · intro s
    change ((Function.update b.queue args.slot _ s).map _) <:+ _
    rw [urbsOn_link, Function.update_apply, hqueue]
    by_cases hs : s = args.slot
    · subst hs
      rw [if_pos rfl, if_pos rfl, List.map_append]
      obtain ⟨l, hl⟩ := h.queued args.slot
      refine ⟨l, ?_⟩
      rw [← hl, List.append_assoc]
      simp [hurb]
    · rw [if_neg hs, if_neg (Ne.symm hs)]
      exact h.queued s
  · intro s x q hq y hy t' ht'
    rw [hsame] at ht'
    change Function.update b.queue args.slot _ s = x :: q at hq
    rw [Function.update_apply, hqueue] at hq
    split at hq
    · next hs =>
      cases hold : a.queue args.slot with
      | nil =>
        rw [hold] at hq
        obtain ⟨-, rfl⟩ := List.cons.inj hq
        cases hy
      | cons z q' =>
        rw [hold, List.cons_append] at hq
        obtain ⟨-, rfl⟩ := List.cons.inj hq
        rcases List.mem_append.mp hy with hy | hy
        · exact h.waiting _ z q' hold y hy t' ht'
        · obtain rfl := List.mem_singleton.mp hy
          change t'.urb ≠ t.urb.id
          rw [hurb]
          exact hfresh t' ht'
    · exact h.waiting s x q hq y hy t' ht'
  · intro s
    rw [transactionsOn_none s es rfl, urbsOn_link]
    split
    · exact (h.grouped s).addKey fun t ht ↦ hfresh t (transactionsOn_subset s es ht)
    · exact h.grouped s

private theorem quiet (h : Fifo es a) {e : HcdEvent} (hq : b.queue = a.queue)
    (hl : HcdEvent.linked e = none) (ht : HcdEvent.transaction e = none) : Fifo (es ++ [e]) b := by
  constructor
  · intro s
    rw [hq, urbsOn_none s es hl]
    exact h.queued s
  · intro s x q hx y hy t hm
    rw [hq] at hx
    rw [transactions_snoc, ht] at hm
    exact h.waiting s x q hx y hy t (by simpa using hm)
  · intro s
    rw [urbsOn_none s es hl, transactionsOn_none s es ht]
    exact h.grouped s

private theorem serve (h : Fifo es a) (hl : Ledger es a) (hown : (issuedUrbs es).Nodup)
    {s : Slot} {x : Entry} {q q' : List Entry} {p : Option EpdPtr} {r : Response}
    {t : Transaction} (hq : a.queue s = x :: q) (hu : t.urb = x.td.urb.id) (hts : t.slot = s)
    (hb : b.queue = Function.update a.queue s q')
    (hq' : (q'.map fun y ↦ y.td.urb.id) <:+ ((x :: q).map fun y ↦ y.td.urb.id))
    (hrest : ∀ y q₁, q' = y :: q₁ → q₁ ⊆ q) :
    Fifo (es ++ [(.send s.list p r, .sent (some t))]) b := by
  have hurbs : ∀ s', urbsOn s' (es ++ [(.send s.list p r, .sent (some t))]) = urbsOn s' es :=
    fun s' ↦ urbsOn_none s' es rfl
  have hlist := h.queued s
  rw [hq] at hlist
  obtain ⟨pre, hpre⟩ := hlist
  have hnd : (pre ++ x.td.urb.id :: q.map fun y ↦ y.td.urb.id).Nodup := by
    have hsub := hown.sublist (urbsOn_sublist s es)
    rwa [← hpre] at hsub
  have hbehind : ∀ y ∈ q, t.urb ≠ y.td.urb.id := by
    intro y hy he
    refine (List.nodup_cons.mp (List.nodup_append.mp hnd).2.1).1 ?_
    rw [← hu, he]
    exact List.mem_map_of_mem hy
  have hin : x ∈ a.place (some s) := by
    rw [Queues.place, hq]
    exact List.mem_cons_self
  have hmem : ∀ {t'}, t' ∈ transactions (es ++ [(.send s.list p r, .sent (some t))]) →
      t' ∈ transactions es ∨ t' = t := by
    intro t' ht'
    rw [transactions_snoc] at ht'
    simpa [HcdEvent.transaction] using ht'
  constructor
  · intro s'
    rw [hurbs, hb, Function.update_apply]
    split
    · next hs =>
      rw [hs, ← hpre]
      exact hq'.trans (List.suffix_append _ _)
    · exact h.queued s'
  · intro s' z q₁ hz y hy t' ht'
    rw [hb, Function.update_apply] at hz
    split at hz
    · have hyq := hrest z q₁ hz hy
      rcases hmem ht' with ht' | rfl
      · exact h.waiting s x q hq y hyq t' ht'
      · exact hbehind y hyq
    · next hs =>
      rcases hmem ht' with ht' | rfl
      · exact h.waiting s' z q₁ hz y hy t' ht'
      · rw [hu]
        intro he
        have hy' : y ∈ a.place (some s') := by
          rw [Queues.place, hz]
          exact List.mem_cons_of_mem _ hy
        exact hs (Option.some.inj (hl.entry_of_urb hown hin hy' he).1).symm
  · intro s'
    rw [hurbs, transactionsOn_snoc, HcdEvent.transactionOn_send]
    by_cases hs : t.slot = s'
    · have hss : s' = s := hs.symm.trans hts
      subst hss
      rw [if_pos hs, Option.toList_some, ← hpre]
      have hg := h.grouped s'
      rw [← hpre] at hg
      rw [List.map_cons, ← hu] at hg ⊢
      rw [← hu] at hnd
      refine hg.snoc hnd fun t' ht' hm ↦ ?_
      obtain ⟨y, hy, hyu⟩ := List.mem_map.mp hm
      exact h.waiting s' x q hq y hy t' (transactionsOn_subset s' es ht') hyu.symm
    · rw [if_neg hs, Option.toList_none, List.append_nil]
      exact h.grouped s'

private theorem step (h : Fifo es a) (hl : Ledger es a) (hacc : Account es a) {e : HcdEvent}
    (hown : (issuedUrbs (es ++ [e])).Nodup) (hs : QueueStep a e b) : Fifo (es ++ [e]) b := by
  have hown' : (issuedUrbs es).Nodup := hown.sublist (issuedUrbs_mono es e).sublist
  cases hs with
  | link hb ht => exact h.link hacc hown hb ht
  | idle _ => exact h.quiet rfl rfl rfl
  | @stay s epd r x q t p hseek hq hx =>
    have hts := hl.wf.transaction_slot hseek hx
    have hurb := EpdCore.exchange_urb hx
    have hu := EpdCore.exchange_owner hx
    refine h.serve hl hown' hq hu hts rfl ?_ ?_
    · refine ⟨[], ?_⟩
      rw [List.nil_append, List.map_cons, List.map_cons, hurb]
    · intro y q₁ hy
      obtain ⟨-, rfl⟩ := List.cons.inj hy
      exact List.Subset.refl _
  | @retire s epd r x q t p fate hseek hq hx _ =>
    have hts := hl.wf.transaction_slot hseek hx
    have hu := EpdCore.exchange_owner hx
    refine h.serve hl hown' hq hu hts rfl ?_ ?_
    · rw [List.map_cons]
      exact List.suffix_cons _ _
    · rintro y q₁ rfl
      exact List.subset_cons_self _ _
  | empty _ => exact h.quiet rfl rfl rfl
  | complete _ => exact h.quiet rfl rfl rfl

private theorem retired_of_unqueued (hl : Ledger es a) (hacc : Account es a) {s : Slot} {v : Nat}
    (hv : v ∈ urbsOn s es) (hq : ∀ x ∈ a.queue s, x.td.urb.id ≠ v) :
    ∃ n r, Retired es v n r := by
  obtain ⟨⟨g, args⟩, hm, hid⟩ := List.mem_map.mp hv
  obtain ⟨hm, hfilter⟩ := List.mem_filter.mp hm
  have hslot : args.slot = s := of_decide_eq_true hfilter
  have hid : args.urb.id = v := hid
  by_cases hg : g ∈ (completions es).map Completion.gtd
  · obtain ⟨c, hc, rfl⟩ := List.mem_map.mp hg
    obtain ⟨args', hm', hcu⟩ := hl.completed c hc
    obtain ⟨r, hr⟩ := hacc.completed c hc
    rw [← hcu, ← hl.linked_unique hm hm', hid] at hr
    exact ⟨_, r, hr⟩
  · rw [hl.gone g (hl.linked_lt hm)] at hg
    obtain ⟨pl, hpl⟩ := not_forall.mp hg
    obtain ⟨x, hx, rfl⟩ := List.mem_map.mp (not_not.mp hpl)
    obtain ⟨args', hm', hown, hurb⟩ := hl.entry pl x hx
    obtain rfl := hl.linked_unique hm hm'
    have hxv : x.td.urb.id = v := by rw [← hurb, hid]
    cases pl with
    | none =>
      obtain ⟨r, hr⟩ := hacc.done x hx
      rw [hxv] at hr
      exact ⟨_, r, hr⟩
    | some s' =>
      have hs : s' = s := by rw [← hl.wf.owner s' x hx, ← hown, hslot]
      subst hs
      exact (hq x hx hxv).elim

/-- Before a URB is tried, those linked to its slot ahead of it are retired. -/
theorem retired_before (h : Fifo es a) (hl : Ledger es a) (hacc : Account es a)
    (hown : (issuedUrbs es).Nodup) {s : Slot} {pre post : List Nat} {v : Nat}
    (hsplit : urbsOn s es = pre ++ v :: post) {t : Transaction} (ht : t ∈ transactions es)
    (hv : t.urb = v) : ∀ w ∈ pre, ∃ n r, Retired es w n r := by
  intro w hw
  have hmem : w ∈ urbsOn s es := by
    rw [hsplit]
    exact List.mem_append_left _ hw
  refine retired_of_unqueued hl hacc hmem fun x hx hxw ↦ ?_
  -- were `w` queued, `v` would be queued behind it, where nothing has been tried
  have hnd : (urbsOn s es).Nodup := hown.sublist (urbsOn_sublist s es)
  obtain ⟨l, hlq⟩ := h.queued s
  obtain ⟨q₁, q₂, hq⟩ := List.append_of_mem hx
  rw [hq, List.map_append, List.map_cons, hxw] at hlq
  rw [hsplit] at hlq hnd
  obtain ⟨pre₁, pre₂, rfl⟩ := List.append_of_mem hw
  have hpos : (q₂.map fun y ↦ y.td.urb.id) = pre₂ ++ v :: post := by
    have heq : (l ++ q₁.map fun y ↦ y.td.urb.id) ++ w :: (q₂.map fun y ↦ y.td.urb.id) =
        pre₁ ++ w :: (pre₂ ++ v :: post) := by simpa using hlq
    have hnd₁ : (pre₁ ++ w :: (pre₂ ++ v :: post)).Nodup := by simpa using hnd
    have hnd₂ := hnd₁
    rw [← heq] at hnd₂
    have hright : w ∉ (q₂.map fun y ↦ y.td.urb.id) :=
      (List.nodup_cons.mp (List.nodup_append.mp hnd₂).2.1).1
    have hleft : w ∉ l ++ q₁.map fun y ↦ y.td.urb.id :=
      fun hw ↦ (List.nodup_append.mp hnd₂).2.2 w hw w List.mem_cons_self rfl
    exact ((List.append_cons_inj_of_notMem hleft hright).mp heq).2.2
  have hvq : v ∈ q₂.map fun y ↦ y.td.urb.id := by
    rw [hpos]
    simp
  obtain ⟨y, hy, hyv⟩ := List.mem_map.mp hvq
  cases q₁ with
  | nil => exact h.waiting s x q₂ hq y hy t ht (by rw [hv, hyv])
  | cons z q₁ =>
    refine h.waiting s z (q₁ ++ x :: q₂) hq y ?_ t ht (by rw [hv, hyv])
    exact List.mem_append_right _ (List.mem_cons_of_mem _ hy)

end Fifo

/-- Every history of the queues with a URB for each link serves first what came first. -/
theorem QueuesRun.fifo {es : List HcdEvent} {a : Queues} (h : QueuesRun es a)
    (hown : (issuedUrbs es).Nodup) : Fifo es a := by
  have hinv : (issuedUrbs es).Nodup → Fifo es a := by
    refine Run.invariant (P := fun es a ↦ (issuedUrbs es).Nodup → Fifo es a) ?_ ?_ h
    · exact fun _ ↦ Fifo.init
    · intro es a e b hrun ih hfire hnd
      have hnd' := hnd.sublist (issuedUrbs_mono es e).sublist
      have hstep : QueueStep a e b := queueStep_of_exec hfire
      exact (ih hnd').step (QueuesRun.ledger hrun) (QueuesRun.account hrun hnd') hnd hstep
  exact hinv hown

end BiMpp.Host
