import BiMpp.Host.Descriptor

/-!
# From retirement to completion

A descriptor that is retired goes on top of the done list, with the buffer it has then, and
calls of `hcd_process_done_list` take it off and fill in its URB:
`bi-mpp-pic24-usb-simulator-master/src/hcd.c:115–145,252–269`.
-/

namespace BiMpp.Host
open BiMpp.Usb BiMpp.Base

/-- The event `x` after the history `past` retires the descriptor at `g`. -/
def RetiredBy (g : GtdPtr) (past : List HcdEvent) (x : HcdEvent) : Prop :=
  ∃ t, transactionsOf g (past ++ [x]) = transactionsOf g past ++ [t] ∧ t.retired.isSome

/-- The descriptor at `g` is on top of the done list, with contents that meet `D`. -/
def OnTop (D : Td → Prop) (g : GtdPtr) (h : Hcd) : Prop :=
  h.doneList = some g ∧ ∃ n, h.heap g = some n ∧ D n.toTd

/-- Calls of `hcd_process_done_list` one after the other, with the URBs they complete. -/
def Processes (h : Hcd) (cs : List Completion) (h' : Hcd) : Prop :=
  Run (Fires hcdExec) h (cs.map fun c ↦ (.processDoneList, .processed (some c))) h'

/-- Calls of `hcd_process_done_list` complete the descriptor at `g`, with an outcome that
meets `C`. -/
def Completes (C : Completion → Prop) (g : GtdPtr) (h : Hcd) : Prop :=
  ∃ cs c h', Processes h (cs ++ [c]) h' ∧ c.gtd = g ∧ C c

/-! ### The done stack -/

section Stack

variable {es past : List HcdEvent} {a b : Queues} {h : Hcd} {g : GtdPtr} {x : HcdEvent}

/-- A step that retires a descriptor puts it on top of the done stack. -/
theorem Attended.retired_head (hatt : Attended past a) (hwf : a.WF) (hs : QueueStep a x b)
    (hx : RetiredBy g past x) : ∃ y rest, b.done = y :: rest ∧ y.ptr = g := by
  obtain ⟨t, ht, hsome⟩ := hx
  have hgrows : transactionsOf g (past ++ [x]) ≠ transactionsOf g past := by
    rw [ht]
    exact fun h ↦ absurd (congrArg List.length h) (by simp)
  have hquiet : HcdEvent.transaction x ≠ none :=
    fun hnone ↦ hgrows (transactionsOf_none g past hnone)
  cases hs with
  | link _ _ => exact absurd rfl hquiet
  | idle _ => exact absurd rfl hquiet
  | empty _ => exact absurd rfl hquiet
  | complete _ => exact absurd rfl hquiet
  | @stay s epd r y q u p hseek hq hexch =>
    -- a transaction that keeps the descriptor does not retire it
    obtain ⟨_, -, -, hu⟩ := EpdCore.exchange_ok hexch
    rw [Attended.served hatt.pending g hq (hwf.transaction_slot hseek hexch)] at ht hgrows
    split at ht
    · obtain rfl := List.singleton_inj.mp (List.append_cancel_left ht)
      rw [hu] at hsome
      cases hsome
    · next hne => exact absurd (if_neg hne) hgrows
  | @retire s epd r y q u p fate hseek hq hexch _ =>
    rw [Attended.served hatt.pending g hq (hwf.transaction_slot hseek hexch)] at hgrows
    by_cases hg : y.ptr = g
    · exact ⟨_, _, rfl, hg⟩
    · exact absurd (if_neg hg) hgrows

/-- The done stack is completed from the top. -/
theorem Queues.process_run (above : List Entry) {rest : List Entry} (hd : a.done = above ++ rest) :
    Run (Fires queuesExec) a
      ((above.map fun y ↦ y.td.complete y.ptr).map fun c ↦ (.processDoneList, .processed (some c)))
      { a with done := rest } := by
  -- induction on how far the stack is completed
  induction above using List.reverseRecOn generalizing rest with
  | nil =>
    rw [List.nil_append] at hd
    rw [← hd]
    exact .nil
  | append_singleton above y ih =>
    rw [List.append_assoc] at hd
    rw [List.map_append, List.map_append]
    exact .snoc (ih hd) (exec_of_queueStep (.complete rfl))

/-- What is on the done stack is completed, as it is there. -/
theorem Refines.completes (hr : Refines h a) {y : Entry} (hy : y ∈ a.done)
    {C : Completion → Prop} (hc : C (y.td.complete y.ptr)) : Completes C y.ptr h := by
  obtain ⟨above, below, hd⟩ := List.append_of_mem hy
  have hsplit : a.done = (above ++ [y]) ++ below := by rw [hd, List.append_assoc]; rfl
  obtain ⟨h', hrun, -⟩ := (Queues.process_run (above ++ [y]) hsplit).realize hr
    fun _ _ op hr ↦ hr.agree op
  rw [List.map_append] at hrun
  exact ⟨_, _, h', hrun, rfl, hc⟩

end Stack

/-! ### A descriptor at the end of its life -/

section Life

variable {Q D : Int → List Transaction → Td → Prop} {es past : List HcdEvent} {h h' : Hcd}
  {g : GtdPtr} {args : LinkArgs} {x : HcdEvent}

/-- The beginnings of a history have the transactions it begins with. -/
theorem transactionsOf_upTo (g : GtdPtr) (hp : past <+: es) :
    transactionsOf g past <+: transactionsOf g es := by
  obtain ⟨rest, rfl⟩ := hp
  induction rest using List.reverseRecOn with
  | nil => exact ⟨[], by rw [List.append_nil, List.append_nil]⟩
  | append_singleton rest e ih =>
    rw [← List.append_assoc, transactionsOf_snoc]
    exact ih.trans (List.prefix_append _ _)

/-- When it is retired, a descriptor is on top of the done list, at the second stage of its
life. -/
theorem HcdRun.retired_onTop (hrun : HcdRun es h) (hrule : Lives args Q D)
    (hlink : (g, args) ∈ links es) (hfits : ∀ t ∈ transactionsOf g es, t.response.Fits t.packet)
    (hp : past ++ [x] <+: es) (hpast : HcdRun (past ++ [x]) h') (hx : RetiredBy g past x) :
    ∃ m, OnTop (D m (transactionsOf g (past ++ [x]))) g h' := by
  obtain ⟨b, hb, hr⟩ := hpast.queues
  obtain ⟨a, ha, hfire⟩ := Run.last hb
  obtain ⟨y, rest, hdone, rfl⟩ := (QueuesRun.attended ha).retired_head (QueuesRun.wf ha)
    (queueStep_of_exec hfire) hx
  have hy : y ∈ b.place none := by
    rw [Queues.place, hdone]
    exact List.mem_cons_self
  -- it was linked by then, and no other way than in the whole history
  have hlinked : (y.ptr, args) ∈ links (past ++ [x]) := by
    obtain ⟨args', hargs', -⟩ := (QueuesRun.ledger hb).entry none y hy
    obtain ⟨c, hc, -⟩ := hrun.queues
    have hmem : (y.ptr, args') ∈ links es := by
      obtain ⟨rest, rfl⟩ := hp
      rw [links, List.filterMap_append]
      exact List.mem_append_left _ hargs'
    rwa [(QueuesRun.ledger hc).linked_unique hlink hmem]
  have hlive := QueuesRun.living hb hrule hlinked fun t ht ↦
    hfits t ((transactionsOf_upTo y.ptr hp).subset ht)
  obtain ⟨n, hn, hnt⟩ := hr.cells none y hy
  refine ⟨(b.core args.slot).maximumPacketSize, ?_, n, hn, ?_⟩
  · rw [hr.done.head_eq, Queues.ptrs, Queues.place, hdone]
    rfl
  · rw [hnt]
    exact hlive.done y hy rfl

/-- A descriptor that was retired has been completed, or is by calls of
`hcd_process_done_list`. -/
theorem HcdRun.retired_completes (hrun : HcdRun es h) (hrule : Lives args Q D)
    (hlink : (g, args) ∈ links es) (hfits : ∀ t ∈ transactionsOf g es, t.response.Fits t.packet)
    (hqueued : ∀ m p, Q m (transactionsOf g es) p → ∀ t ∈ transactionsOf g es, t.retired = none)
    (hret : ∃ t ∈ transactionsOf g es, t.retired.isSome) :
    (∃ c ∈ completions es, c.gtd = g) ∨
      Completes (fun c ↦ ∃ m p, D m (transactionsOf g es) p ∧ c = p.complete g) g h := by
  obtain ⟨a, ha, hr⟩ := hrun.queues
  have hledger := QueuesRun.ledger ha
  have hlive := QueuesRun.living ha hrule hlink hfits
  by_cases hdone : g ∈ (completions es).map Completion.gtd
  · obtain ⟨c, hc, hcg⟩ := List.mem_map.mp hdone
    exact .inl ⟨c, hc, hcg⟩
  · right
    rw [hledger.gone g (hledger.linked_lt hlink)] at hdone
    obtain ⟨pl, hpl⟩ := not_forall.mp hdone
    obtain ⟨y, hy, rfl⟩ := List.mem_map.mp (not_not.mp hpl)
    cases pl with
    | some s =>
      obtain ⟨t, ht, hsome⟩ := hret
      rw [hqueued _ _ (hlive.queued s y hy rfl) t ht] at hsome
      cases hsome
    | none => exact hr.completes hy ⟨_, y.td, hlive.done y hy rfl, rfl⟩

end Life

end BiMpp.Host
