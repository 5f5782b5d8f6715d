import BiMpp.Host.Loop

/-!
# Completion order on bulk endpoints

The done list is a stack, yet bulk URBs complete in the order they were linked: the one
bulk slot of a round retires at most one descriptor, it lands on top of the stack, and
the slot after it takes the top. Between rounds the stack holds control descriptors
only.
-/

namespace BiMpp.Host
open BiMpp.Usb BiMpp.Base

/-- The links without setup to a function address and an endpoint number (`ep & 0xF`),
in order. -/
def bulkLinks (addr n : Int) (es : List HcdEvent) : List (GtdPtr × LinkArgs) :=
  (links es).filter fun l ↦ !l.2.setup && l.2.addr = addr && l.2.endpoint = n

/-- Their descriptors and URBs, in link order. -/
def linkedUrbs (addr n : Int) (es : List HcdEvent) : List (GtdPtr × Nat) :=
  (bulkLinks addr n es).map fun l ↦ (l.1, l.2.urb.id)

/-- Their descriptors and URBs in the order of the calls of `urb_done`. -/
def completedUrbs (addr n : Int) (es : List HcdEvent) : List (GtdPtr × Nat) :=
  ((completions es).filter fun c ↦ c.gtd ∈ (bulkLinks addr n es).map Prod.fst).map
    fun c ↦ (c.gtd, c.urb)

/-- Links without setup to a nonzero endpoint number share a slot of the bulk list. -/
theorem bulkLinks_eq (addr : Int) {n : Int} (hn : n ≠ 0) (es : List HcdEvent) :
    bulkLinks addr n es = (links es).filter fun l ↦ l.2.slot = ⟨.bulk, ⟨addr, n⟩⟩ := by
  apply List.filter_congr
  rintro ⟨g, args⟩ -
  have hlist : args.list = .bulk ↔ args.setup = false ∧ args.endpoint ≠ 0 := by
    unfold LinkArgs.list
    split
    · next h => simp only [reduceCtorEq, false_iff, not_and, not_not]; grind
    · next h => grind
  simp only [LinkArgs.slot, LinkArgs.key, Slot.mk.injEq, EpdKey.mk.injEq]
  grind

private def completedAt (s : Slot) (es : List HcdEvent) : List GtdPtr :=
  ((completions es).filter fun c ↦ c.gtd ∈ linkedTo s es).map Completion.gtd

private def retiredAt (s : Slot) (l : List Entry) : List GtdPtr :=
  (l.filter fun x ↦ x.owner = s).map Entry.ptr

private def ControlOnly (l : List Entry) : Prop := ∀ x ∈ l, x.owner.list = .control

-- Where a bulk descriptor may be on the done stack: on top, just after the bulk slot.
private def TopOnly : LoopSlot → List Entry → Prop
  | .done, l => ControlOnly l.tail
  | _, l => ControlOnly l

private theorem retiredAt_controlOnly {s : Slot} {l : List Entry} (h : ControlOnly l)
    (hs : s.list = .bulk) : retiredAt s l = [] := by
  unfold retiredAt
  rw [List.map_eq_nil_iff, List.filter_eq_nil_iff]
  intro x hx ho
  have hlist := h x hx
  rw [of_decide_eq_true ho, hs] at hlist
  exact nomatch hlist

-- The queues' account of one bulk slot: its links are the completed ones, then the retired one,
-- then the queued ones.
private def InOrder (s : Slot) (es : List HcdEvent) (a : Queues) : Prop :=
  linkedTo s es = completedAt s es ++ retiredAt s a.done ++ a.ptrs (some s)

namespace InOrder

variable {s : Slot} {es : List HcdEvent} {a b : Queues}

private theorem completedAt_link (hl : Ledger es a) (args : LinkArgs) :
    completedAt s (es ++ [(.link args, .linked a.nextGtd)]) = completedAt s es := by
  unfold completedAt
  rw [completions_link]
  congr 1
  apply List.filter_congr
  intro c hc
  obtain ⟨args', hm, -⟩ := hl.completed c hc
  have hlt : c.gtd < a.nextGtd := hl.linked_lt hm
  have hne : c.gtd ≠ a.nextGtd := Nat.ne_of_lt hlt
  rw [linkedTo_link]
  split
  · simp [hne]
  · rfl

private theorem completedAt_send (w : EpdList) (p : Option EpdPtr) (r : Response)
    (t : Option Transaction) :
    completedAt s (es ++ [(.send w p r, .sent t)]) = completedAt s es := by
  simp [completedAt]

private theorem link (h : InOrder s es a) (hl : Ledger es a) {args : LinkArgs} {t : Td}
    (hb : Opened a args.slot args.mps b) :
    InOrder s (es ++ [(.link args, .linked a.nextGtd)]) (b.push args.slot t) := by
  obtain ⟨-, hdone, hnext, -⟩ := hb.frame
  unfold InOrder at h ⊢
  rw [completedAt_link hl, linkedTo_link, Queues.ptrs_push, Queues.ptrs_opened hb, hnext]
  change _ = completedAt s es ++ retiredAt s b.done ++ _
  rw [hdone]
  by_cases hs : args.slot = s
  · rw [if_pos hs, if_pos (by rw [hs]), h]
    simp
  · rw [if_neg hs, if_neg fun he ↦ hs (Option.some.inj he).symm]
    exact h

private theorem stay (h : InOrder s es a) {s' : Slot} {x : Entry} {q : List Entry} {p : Td}
    (hq : a.queue s' = x :: q) {w : EpdList} {i : Option EpdPtr} {r : Response}
    {t : Option Transaction} :
    InOrder s (es ++ [(.send w i r, .sent t)]) (a.keep s' { x with td := p } q) := by
  have hptrs : ∀ pl, (a.keep s' { x with td := p } q).ptrs pl = a.ptrs pl :=
    Queues.ptrs_keep hq rfl
  unfold InOrder at h ⊢
  rw [completedAt_send, linkedTo_send, hptrs]
  exact h

private theorem retire (h : InOrder s es a) (hwf : a.WF) {s' : Slot} {x : Entry}
    {q : List Entry} {p : Td} {fate : Fate} (hq : a.queue s' = x :: q) {w : EpdList}
    {i : Option EpdPtr} {r : Response} {t : Option Transaction}
    (htop : s' = s → retiredAt s a.done = []) :
    InOrder s (es ++ [(.send w i r, .sent t)]) (a.retire s' { x with td := p } q fate) := by
  have howner : x.owner = s' := hwf.owner s' x (by simp [hq])
  unfold InOrder at h ⊢
  rw [completedAt_send, linkedTo_send, Queues.ptrs_retire rfl, h]
  change _ = completedAt s es ++ retiredAt s ({ x with td := p } :: a.done) ++ _
  by_cases hs : s' = s
  · -- the retired descriptor goes behind the completed ones, ahead of the rest of the queue
    subst hs
    have hptrs : a.ptrs (some s') = x.ptr :: q.map Entry.ptr := by
      simp [Queues.ptrs, Queues.place, hq]
    rw [htop rfl, hptrs, if_pos rfl]
    have hret : retiredAt s' ({ x with td := p } :: a.done) = x.ptr :: retiredAt s' a.done := by
      simp [retiredAt, howner]
    rw [hret, htop rfl]
    simp
  · have hret : retiredAt s ({ x with td := p } :: a.done) = retiredAt s a.done := by
      simp [retiredAt, howner, hs]
    rw [hret, if_neg fun he ↦ hs (Option.some.inj he).symm, if_neg (Option.some_ne_none _)]

private theorem complete (h : InOrder s es a) (hl : Ledger es a) {x : Entry} {rest : List Entry}
    (hd : a.done = x :: rest) :
    InOrder s (es ++ [(.processDoneList, .processed (some (x.td.complete x.ptr)))])
      { a with done := rest } := by
  obtain ⟨args, hargs, hslot, -⟩ := hl.entry none x (by simp [Queues.place, hd])
  have hmem : x.ptr ∈ linkedTo s es ↔ x.owner = s := by
    constructor
    · intro hm
      obtain ⟨⟨g, args'⟩, hm', hg⟩ := List.mem_map.mp hm
      obtain ⟨hm', hs⟩ := List.mem_filter.mp hm'
      simp only at hg
      rw [hg] at hm'
      rw [← hslot, hl.linked_unique hargs hm']
      exact of_decide_eq_true hs
    · intro ho
      refine List.mem_map.mpr ⟨(x.ptr, args), List.mem_filter.mpr ⟨hargs, ?_⟩, rfl⟩
      exact decide_eq_true (hslot.trans ho)
  unfold InOrder at h ⊢
  rw [hd] at h
  rw [linkedTo_process]
  change _ = completedAt s _ ++ retiredAt s rest ++ a.ptrs (some s)
  have hcomp : completedAt s (es ++ [(.processDoneList, .processed (some (x.td.complete x.ptr)))]) =
      completedAt s es ++ if x.owner = s then [x.ptr] else [] := by
    unfold completedAt
    rw [completions_process, linkedTo_process, List.filter_append, List.map_append]
    congr 1
    have hgtd : (x.td.complete x.ptr).gtd = x.ptr := rfl
    by_cases ho : x.owner = s
    · simp [hgtd, hmem, ho]
    · simp [hgtd, hmem, ho]
  rw [hcomp, h]
  by_cases ho : x.owner = s
  · simp [retiredAt, ho]
  · simp [retiredAt, ho]

private theorem clear (h : InOrder s es a) {e : HcdEvent} (n : BitVec 32)
    (hl : linkedTo s (es ++ [e]) = linkedTo s es) (hc : completions (es ++ [e]) = completions es) :
    InOrder s (es ++ [e]) (a.clear n) := by
  unfold InOrder completedAt at h ⊢
  rw [hl, hc]
  exact h

end InOrder

private theorem topOnly_next {i : Fin 4} {l : List Entry} (h : ControlOnly l) :
    TopOnly (LoopSlot.control i).next l :=
  match i with
  | 0 | 1 | 2 | 3 => h

private theorem controlOnly_cons {x : Entry} {l : List Entry} (hx : x.owner.list = .control)
    (h : ControlOnly l) : ControlOnly (x :: l) := by
  intro y hy
  rcases List.mem_cons.mp hy with rfl | hy
  · exact hx
  · exact h y hy

-- A send onto a stack of control descriptors keeps the bulk slots in order and pushes at most one
-- descriptor, of the list it served.
private theorem inOrder_send {w : EpdList} {es : List HcdEvent} {a b : Queues}
    {p : Option EpdPtr} {r : Response} {out : HcdOut} (hwf : a.WF) (htop : ControlOnly a.done)
    (hin : ∀ v : Slot, v.list = .bulk → InOrder v es a) (hq : QueueStep a (.send w p r, out) b) :
    (b.done = a.done ∨ ∃ x : Entry, x.owner.list = w ∧ b.done = x :: a.done) ∧
      ∀ v : Slot, v.list = .bulk → InOrder v (es ++ [(.send w p r, out)]) b := by
  cases hq with
  | idle _ =>
    exact ⟨.inl rfl, fun v hv ↦ (hin v hv).clear _ (linkedTo_send ..) (completions_send ..)⟩
  | stay _ hx _ => exact ⟨.inl rfl, fun v hv ↦ (hin v hv).stay hx⟩
  | @retire s p r x q t td fate _ hx _ _ =>
    have howner : x.owner = s := hwf.owner s x (by simp [hx])
    refine ⟨.inr ⟨{ x with td := td }, congrArg Slot.list howner, rfl⟩, fun v hv ↦ ?_⟩
    exact (hin v hv).retire hwf hx fun _ ↦ retiredAt_controlOnly htop hv

private theorem inOrder_body {slot : LoopSlot} {es : List HcdEvent} {a b : Queues}
    {p : Option EpdPtr} {r : Response} {out : HcdOut} (hl : Ledger es a)
    (htop : TopOnly slot a.done) (hin : ∀ v : Slot, v.list = .bulk → InOrder v es a)
    (hq : QueueStep a (slot.call p r, out) b) :
    TopOnly slot.next b.done ∧
      ∀ v : Slot, v.list = .bulk → InOrder v (es ++ [(slot.call p r, out)]) b := by
  cases slot with
  | control i =>
    obtain ⟨hdone, hb⟩ := inOrder_send (w := .control) hl.wf htop hin hq
    refine ⟨topOnly_next ?_, hb⟩
    rcases hdone with hd | ⟨x, hx, hd⟩
    · rw [hd]
      exact htop
    · rw [hd]
      exact controlOnly_cons hx htop
  | bulk =>
    obtain ⟨hdone, hb⟩ := inOrder_send (w := .bulk) hl.wf htop hin hq
    refine ⟨?_, hb⟩
    change ControlOnly b.done.tail
    rcases hdone with hd | ⟨x, -, hd⟩
    · rw [hd]
      exact fun y hy ↦ htop y (List.mem_of_mem_tail hy)
    · rw [hd]
      exact htop
  | done =>
    change ControlOnly a.done.tail at htop
    change QueueStep a (.processDoneList, out) b at hq
    cases hq with
    | empty hd =>
      refine ⟨?_, fun v hv ↦ (hin v hv).clear _ (linkedTo_process ..) ?_⟩
      · change ControlOnly a.done
        rw [hd]
        exact nofun
      · change completions (es ++ [(.processDoneList, .processed none)]) = _
        rw [completions_process]
        simp
    | complete hd =>
      rw [hd] at htop
      exact ⟨htop, fun v hv ↦ (hin v hv).complete hl hd⟩

private theorem inOrder_step {es : List LoopEvent} {s s' : Loop} {a b : Queues} {e : LoopEvent}
    (hb : Behind es s a) (htop : TopOnly s.slot a.done)
    (hin : ∀ v : Slot, v.list = .bulk → InOrder v (driverEvents es) a) (hs : LoopStep s e s')
    (hq : match e.2 with | none => b = a | some d => QueueStep a d b) :
    TopOnly s'.slot b.done ∧
      ∀ v : Slot, v.list = .bulk → InOrder v (driverEvents (es ++ [e])) b := by
  have hl : Ledger (driverEvents es) a := hb.run.ledger
  have happ : ∀ op d, driverEvents (es ++ [(op, some d)]) = driverEvents es ++ [d] := by
    intro op d
    simp [driverEvents]
  have hsame : ∀ op, driverEvents (es ++ [(op, none)]) = driverEvents es := by
    intro op
    simp [driverEvents]
  cases hs with
  | @link args h out hexec =>
    cases hq with
    | link hopen ht =>
      obtain ⟨-, hdone, -, -⟩ := hopen.frame
      refine ⟨?_, fun v hv ↦ ?_⟩
      · change TopOnly s.slot _
        rw [Queues.push, hdone]
        exact htop
      · rw [happ]
        exact (hin v hv).link hl hopen
  | wake _ _ =>
    obtain rfl := hq
    exact ⟨htop, fun v hv ↦ by rw [hsame]; exact hin v hv⟩
  | evaluate _ =>
    obtain rfl := hq
    exact ⟨htop, fun v hv ↦ by rw [hsame]; exact hin v hv⟩
  | @body p r h out hpc hexec =>
    rw [happ]
    exact inOrder_body hl htop hin hq

private theorem map_pair_prefix {α β : Type*} {u : β → Nat} {v : α → Nat} {f : β → GtdPtr}
    {g : α → GtdPtr} {xs : List β} {ys : List α} (h : xs.map f <+: ys.map g)
    (huv : ∀ x ∈ xs, ∀ y ∈ ys, f x = g y → u x = v y) :
    xs.map (fun x ↦ (f x, u x)) <+: ys.map fun y ↦ (g y, v y) := by
  induction xs generalizing ys with
  | nil => exact List.nil_prefix
  | cons x xs ih =>
    cases ys with
    | nil => exact absurd (List.prefix_nil.mp h) (by simp)
    | cons y ys =>
      simp only [List.map_cons, List.cons_prefix_cons, Prod.mk.injEq] at h ⊢
      refine ⟨⟨h.1, huv x (by simp) y (by simp) h.1⟩, ih h.2 fun x' hx' y' hy' ↦ ?_⟩
      exact huv x' (List.mem_cons_of_mem _ hx') y' (List.mem_cons_of_mem _ hy')

private theorem inOrder_run {es : List LoopEvent} {s : Loop} (hrun : LoopRun es s) :
    ∃ a, Behind es s a ∧ TopOnly s.slot a.done ∧
      ∀ v : Slot, v.list = .bulk → InOrder v (driverEvents es) a := by
  refine Run.invariant (P := fun es s ↦ ∃ a, Behind es s a ∧ TopOnly s.slot a.done ∧
    ∀ v : Slot, v.list = .bulk → InOrder v (driverEvents es) a)
    ⟨queuesInit, behind_init, nofun, fun _ _ ↦ rfl⟩ ?_ hrun
  rintro es s e s' - ⟨a, hb, htop, hin⟩ hfire
  have hstep := loopStep_of_exec hfire
  obtain ⟨b, hb', hq⟩ := hb.step hstep
  exact ⟨b, hb', inOrder_step hb htop hin hstep hq⟩

/-- The descriptors of a bulk endpoint are completed in the order they were linked. -/
theorem LoopRun.completed_prefix {es : List LoopEvent} {s : Loop} (hrun : LoopRun es s)
    {v : Slot} (hv : v.list = .bulk) :
    ((completions (driverEvents es)).filter fun c ↦ c.gtd ∈ linkedTo v (driverEvents es)).map
      Completion.gtd <+: linkedTo v (driverEvents es) := by
  obtain ⟨a, -, -, hin⟩ := inOrder_run hrun
  have horder := hin v hv
  unfold InOrder at horder
  rw [List.append_assoc] at horder
  exact ⟨_, horder.symm⟩

/-- URBs linked without setup to one function address and one nonzero endpoint number
have `urb_done` called in the order they were linked: those done are a prefix of those
linked. -/
theorem LoopRun.bulk_in_order {es : List LoopEvent} {s : Loop} (hrun : LoopRun es s)
    (addr n : Int) (hn : n ≠ 0) :
    completedUrbs addr n (driverEvents es) <+: linkedUrbs addr n (driverEvents es) := by
  obtain ⟨a, hb, -, hin⟩ := inOrder_run hrun
  have hl : Ledger (driverEvents es) a := hb.run.ledger
  have hprefix : completedAt ⟨.bulk, ⟨addr, n⟩⟩ (driverEvents es) <+:
      linkedTo ⟨.bulk, ⟨addr, n⟩⟩ (driverEvents es) := by
    rw [hin _ rfl, List.append_assoc]
    exact List.prefix_append _ _
  unfold completedUrbs linkedUrbs
  rw [bulkLinks_eq addr hn]
  refine map_pair_prefix hprefix ?_
  intro c hc l hm hcl
  obtain ⟨args, hm', hu⟩ := hl.completed c (List.mem_filter.mp hc).1
  rw [hcl] at hm'
  rw [← hu, hl.linked_unique hm' (List.mem_filter.mp hm).1]

-- Three control transfers and two bulk ones: the control ones are still on the done list when the
-- bulk ones complete.
private def bulkOrderOps : List LoopOp :=
  let slot (r : Response) : List LoopOp := [.wake, .evaluate, .body r]
  [.link ⟨1, 2, false, false, 2, 64, [7], 1, ⟨10, 1⟩⟩,
    .link ⟨1, 0x82, false, false, 2, 64, [8], 1, ⟨11, 1⟩⟩,
    .link ⟨1, 0, true, false, 1, 64, [], 0, ⟨12, 0⟩⟩,
    .link ⟨1, 0, true, false, 1, 64, [], 0, ⟨13, 0⟩⟩,
    .link ⟨1, 0, true, false, 1, 64, [], 0, ⟨14, 0⟩⟩] ++
  slot (.ack 0 []) ++ slot (.ack 0 []) ++ slot (.ack 0 []) ++ slot .nak ++
  slot (.ack 1 []) ++ slot .nak ++
  slot .nak ++ slot .nak ++ slot .nak ++ slot .nak ++ slot (.ack 1 []) ++ slot .nak

/-- Two bulk transfers of one endpoint are completed in the order they were linked. -/
theorem LoopRun.bulk_in_order_example : ∃ es s, LoopRun es s ∧ s.hcd.doneList = some 4 ∧
    completedUrbs 1 2 (driverEvents es) = [(0, 10), (1, 11)] ∧
    completedUrbs 1 2 (driverEvents es) <+: linkedUrbs 1 2 (driverEvents es) := by
  have hcheck : runsTo loopExec loopInit bulkOrderOps (fun s es ↦
      decide (s.hcd.doneList = some 4 ∧
        completedUrbs 1 2 (driverEvents es) = [(0, 10), (1, 11)])) = true := by decide +kernel
  obtain ⟨es, s, hrun, hp⟩ := Run.of_runsTo hcheck
  obtain ⟨htop, hdone⟩ := of_decide_eq_true hp
  exact ⟨es, s, hrun, htop, hdone, LoopRun.bulk_in_order hrun 1 2 (by decide)⟩

end BiMpp.Host
