import BiMpp.Host.Ownership

/-!
# Endpoints in isolation

A run of the driver, seen from one endpoint, is a run of the driver that was fed only
that endpoint's links and the responses its transactions got. `opsOn` picks those
operations out of a history; the simulation is on the queues, whose slots are disjoint.
-/

namespace BiMpp.Host
open BiMpp.Usb BiMpp.Base

/-- What an event feeds to a slot: its own links, and the device's response wherever a
transaction ran on it. -/
def HcdEvent.opOn (s : Slot) : HcdEvent → Option HcdOp
  | (.link a, _) => if a.slot = s then some (.link a) else none
  | (.send _ _ r, .sent (some t)) => if t.slot = s then some (.send s.list (some 0) r) else none
  | _ => none

/-- What a history feeds to a slot. -/
def opsOn (s : Slot) (es : List HcdEvent) : List HcdOp := es.filterMap (HcdEvent.opOn s)

/-- The transaction an event made on a slot. -/
def HcdEvent.transactionOn (s : Slot) (e : HcdEvent) : Option Transaction :=
  e.transaction.filter fun t ↦ t.slot = s

/-- A transaction belongs to the endpoint it addresses. -/
theorem HcdEvent.transactionOn_send (s : Slot) (w : EpdList) (p : Option EpdPtr) (r : Response)
    (t : Transaction) : HcdEvent.transactionOn s (.send w p r, .sent (some t)) =
      if t.slot = s then some t else none := by
  change (some t).filter (fun t ↦ decide (t.slot = s)) = _
  rw [Option.filter_some]
  simp only [decide_eq_true_eq]

/-- The transactions a history made on a slot. -/
def transactionsOn (s : Slot) (es : List HcdEvent) : List Transaction :=
  es.filterMap (HcdEvent.transactionOn s)

/-- What the heap shows of a slot: the settings of its endpoint, toggle and halt
included, and the contents of the descriptors queued there. -/
def Hcd.Shows (h : Hcd) (s : Slot) (c : EpdCore) (tds : List Td) : Prop :=
  ∃ e ∈ h.list s.list, e.key = s.key ∧ e.toEpdCore = c ∧
    ∃ q, Chain h.next e.tdQueueHeadPointer q ∧
      q.map (fun g ↦ (h.heap g).map Gtd.toTd) = tds.map some

/-- The heap shows a slot that exists, and shows it as its queue. -/
theorem Refines.shows_iff {h : Hcd} {a : Queues} (hr : Refines h a) (s : Slot) (c : EpdCore)
    (tds : List Td) : h.Shows s c tds ↔
      a.Known s ∧ a.core s = c ∧ (a.queue s).map Entry.td = tds := by
  have hcells : ∀ q, q = a.ptrs (some s) →
      q.map (fun g ↦ (h.heap g).map Gtd.toTd) = ((a.queue s).map Entry.td).map some := by
    rintro q rfl
    rw [Queues.ptrs, Queues.place, List.map_map, List.map_map]
    apply List.map_congr_left
    intro x hx
    obtain ⟨n, hn, hnt⟩ := hr.cells (some s) x hx
    simp [hn, hnt]
  constructor
  · rintro ⟨e, he, hk, hc, q, hq, htds⟩
    obtain ⟨i, hi⟩ := List.mem_iff_getElem?.mp he
    have hepd := hr.epd_at hi hk
    rw [hcells q (hq.unique hepd.chain)] at htds
    refine ⟨hr.known hi hk, hepd.core.symm.trans hc, ?_⟩
    exact List.map_injective_iff.mpr (fun _ _ ↦ Option.some.inj) htds
  · rintro ⟨hk, rfl, rfl⟩
    unfold Queues.Known at hk
    rw [← hr.keys] at hk
    obtain ⟨e, he, hek⟩ := List.mem_map.mp hk
    obtain ⟨i, hi⟩ := List.mem_iff_getElem?.mp he
    have hepd := hr.epd_at hi hek
    exact ⟨e, he, hek, hepd.core, _, hepd.chain, hcells _ rfl⟩

/-- `b` holds the slot `s` of `a` and nothing else. -/
structure Isolated (s : Slot) (a b : Queues) : Prop where
  core : b.core s = a.core s
  queue : (b.queue s).map Entry.td = (a.queue s).map Entry.td
  order : ∀ w, b.order w = if w = s.list ∧ a.Known s then [s.key] else []

namespace Isolated

variable {s s' : Slot} {a a' b : Queues}

/-- The empty queues show every endpoint isolated. -/
theorem init (s : Slot) : Isolated s queuesInit queuesInit where
  core := rfl
  queue := rfl
  order w := by
    rw [if_neg fun h ↦ nomatch h.2]
    rfl

private theorem known_iff (h : Isolated s a b) : b.Known s ↔ a.Known s := by
  unfold Queues.Known
  rw [h.order]
  by_cases hk : a.Known s
  · rw [if_pos ⟨rfl, hk⟩]
    exact ⟨fun _ ↦ hk, fun _ ↦ List.mem_singleton_self _⟩
  · rw [if_neg fun h ↦ hk h.2]
    exact ⟨fun h ↦ (nomatch h), fun h ↦ (hk h).elim⟩

private theorem left (h : Isolated s a b) (hc : a'.core s = a.core s)
    (hq : (a'.queue s).map Entry.td = (a.queue s).map Entry.td)
    (hk : a'.Known s ↔ a.Known s) : Isolated s a' b where
  core := by rw [hc]; exact h.core
  queue := by rw [hq]; exact h.queue
  order w := by
    rw [h.order]
    simp only [hk]

private theorem queue_cons (h : Isolated s a b) {x : Entry} {q : List Entry}
    (hq : a.queue s = x :: q) :
    ∃ y q', b.queue s = y :: q' ∧ y.td = x.td ∧ q'.map Entry.td = q.map Entry.td := by
  have hmap := h.queue
  rw [hq, List.map_cons] at hmap
  cases hb : b.queue s with
  | nil =>
    rw [hb] at hmap
    exact nomatch hmap
  | cons y q' =>
    rw [hb, List.map_cons] at hmap
    obtain ⟨hy, hrest⟩ := List.cons.inj hmap
    exact ⟨y, q', rfl, hy, hrest⟩

private theorem seek (h : Isolated s a b) (hk : a.Known s) (hr : a.ready s = true) :
    b.seek s.list (some 0) = .ok (some s) := by
  have hready : b.ready s = true := by
    have hempty : (b.queue s).isEmpty = (a.queue s).isEmpty := by
      rw [← List.isEmpty_map (f := Entry.td), h.queue, List.isEmpty_map]
    rw [Queues.ready, h.core, hempty]
    exact hr
  have horder : b.order s.list = [s.key] := by
    rw [h.order, if_pos ⟨rfl, hk⟩]
  have hfind : [s.key].find? (fun k ↦ b.ready ⟨s.list, k⟩) = some s.key := by
    rw [List.find?_cons_of_pos]
    exact hready
  simp [Queues.seek, horder, hfind]

private theorem openSelf (h : Isolated s a b) {mps : Int} (ha : Opened a s mps a') :
    ∃ b', Opened b s mps b' ∧ Isolated s a' b' ∧ a'.Known s := by
  cases ha with
  | old hk => exact ⟨b, .old (h.known_iff.mpr hk), h, hk⟩
  | @fresh c hk hc =>
    have hk' : ¬ b.Known s := fun hb ↦ hk (h.known_iff.mp hb)
    refine ⟨_, .fresh hk' hc, ⟨?_, h.queue, ?_⟩, ?_⟩
    · change Function.update b.core s c s = Function.update a.core s c s
      rw [Function.update_self, Function.update_self]
    · intro w
      have hknown : Queues.Known { a with
          order := Function.update a.order s.list (a.order s.list ++ [s.key])
          core := Function.update a.core s c } s := by simp [Queues.Known]
      change Function.update b.order s.list (b.order s.list ++ [s.key]) w = _
      rw [Function.update_apply]
      by_cases hw : w = s.list
      · rw [if_pos hw, if_pos ⟨hw, hknown⟩, h.order, if_neg fun h ↦ hk h.2]
        rfl
      · rw [if_neg hw, h.order, if_neg fun h ↦ hw h.1, if_neg fun h ↦ hw h.1]
    · simp [Queues.Known]

private theorem openOther (h : Isolated s a b) {mps : Int} (ha : Opened a s' mps a')
    (hs : s' ≠ s) : Isolated s a' b := by
  cases ha with
  | old _ => exact h
  | fresh _ _ =>
    refine h.left (Function.update_of_ne (Ne.symm hs) _ _) rfl ?_
    simp only [Queues.Known, Function.update_apply]
    split
    · next hl =>
      rw [hl, List.mem_append, List.mem_singleton]
      refine or_iff_left fun hk ↦ hs ?_
      cases s
      cases s'
      simp_all
    · rfl

/-- One event among many endpoints is one event of the isolated endpoint, with the same
transaction, or none. -/
theorem step (h : Isolated s a b) (hwf : a.WF) {e : HcdEvent} (hs : QueueStep a e a') :
    match HcdEvent.opOn s e with
    | none => HcdEvent.transactionOn s e = none ∧ Isolated s a' b
    | some op => ∃ out b', QueueStep b (op, out) b' ∧
        HcdEvent.transaction (op, out) = HcdEvent.transactionOn s e ∧ Isolated s a' b' := by
  cases hs with
  | @link args c t hc ht =>
    by_cases hsl : args.slot = s
    · subst hsl
      obtain ⟨b', hb', hi, hk⟩ := h.openSelf hc
      simp only [HcdEvent.opOn, if_true]
      refine ⟨_, _, .link hb' ht, rfl, ?_, ?_, ?_⟩
      · simp [Queues.push, hi.core]
      · simp [Queues.push, hi.queue]
      · exact hi.order
    · simp only [HcdEvent.opOn, if_neg hsl]
      have hi := h.openOther hc hsl
      exact ⟨rfl, hi.left (Function.update_of_ne (Ne.symm hsl) _ _)
        (congrArg _ (Function.update_of_ne (Ne.symm hsl) _ _)) Iff.rfl⟩
  | idle _ => exact ⟨rfl, h.left rfl rfl Iff.rfl⟩
  | @stay s' p r x q t td hseek hq hx =>
    have hslot : t.slot = s' := hwf.transaction_slot hseek hx
    by_cases hsl : s' = s
    · subst hsl
      obtain ⟨y, q', hb, hy, hrest⟩ := h.queue_cons hq
      have hseek' := h.seek (Queues.seek_known hseek) (Queues.seek_ready hseek)
      have hx' : (b.core s').exchange s'.list y.td r = .ok (t, td, .keep) := by
        rw [h.core, hy]
        exact hx
      simp only [HcdEvent.opOn, hslot, if_true]
      refine ⟨_, _, .stay hseek' hb hx', ?_, ?_, ?_, ?_⟩
      · rw [HcdEvent.transactionOn_send, if_pos hslot]
        rfl
      · exact h.core
      · simp [Queues.keep, hrest]
      · exact h.order
    · simp only [HcdEvent.opOn, hslot, if_neg hsl]
      refine ⟨by rw [HcdEvent.transactionOn_send, hslot, if_neg hsl], ?_⟩
      exact h.left rfl (congrArg _ (Function.update_of_ne (Ne.symm hsl) _ _)) Iff.rfl
  | @retire s' p r x q t td fate hseek hq hx hf =>
    have hslot : t.slot = s' := hwf.transaction_slot hseek hx
    by_cases hsl : s' = s
    · subst hsl
      obtain ⟨y, q', hb, hy, hrest⟩ := h.queue_cons hq
      have hseek' := h.seek (Queues.seek_known hseek) (Queues.seek_ready hseek)
      have hx' : (b.core s').exchange s'.list y.td r = .ok (t, td, fate) := by
        rw [h.core, hy]
        exact hx
      simp only [HcdEvent.opOn, hslot, if_true]
      refine ⟨_, _, .retire hseek' hb hx' hf, ?_, ?_, ?_, ?_⟩
      · rw [HcdEvent.transactionOn_send, if_pos hslot]
        rfl
      · simp [Queues.retire, h.core]
      · simp [Queues.retire, hrest]
      · exact h.order
    · simp only [HcdEvent.opOn, hslot, if_neg hsl]
      refine ⟨by rw [HcdEvent.transactionOn_send, hslot, if_neg hsl], ?_⟩
      exact h.left (Function.update_of_ne (Ne.symm hsl) _ _)
        (congrArg _ (Function.update_of_ne (Ne.symm hsl) _ _)) Iff.rfl
  | empty _ => exact ⟨rfl, h.left rfl rfl Iff.rfl⟩
  | complete _ => exact ⟨rfl, h.left rfl rfl Iff.rfl⟩

end Isolated

/-- The isolated run behind a run of the queues. -/
theorem QueuesRun.isolated {es : List HcdEvent} {a : Queues} (hrun : QueuesRun es a) (s : Slot) :
    ∃ es' b, QueuesRun es' b ∧ es'.map Prod.fst = opsOn s es ∧
      transactions es' = transactionsOn s es ∧ Isolated s a b := by
  induction hrun with
  | nil => exact ⟨[], _, .nil, rfl, rfl, Isolated.init s⟩
  | @snoc es a a' e hr he ih =>
    obtain ⟨es', b, hb, hops, htrans, hi⟩ := ih
    have hstep := hi.step (QueuesRun.wf hr) (queueStep_of_exec he)
    cases hop : HcdEvent.opOn s e with
    | none =>
      rw [hop] at hstep
      obtain ⟨ht, hi'⟩ := hstep
      refine ⟨es', b, hb, ?_, ?_, hi'⟩
      · simp [opsOn, hop, hops]
      · simp [transactionsOn, ht, htrans]
    | some op =>
      rw [hop] at hstep
      obtain ⟨out, b', hq, ht, hi'⟩ := hstep
      refine ⟨es' ++ [(op, out)], b', .snoc hb (exec_of_queueStep hq), ?_, ?_, hi'⟩
      · simp [opsOn, hop, hops]
      · have ht' : HcdEvent.transaction (op, out) = HcdEvent.transactionOn s e := ht
        simp only [transactions, transactionsOn] at htrans ⊢
        rw [List.filterMap_append, List.filterMap_append, htrans, List.filterMap_cons,
          List.filterMap_cons, ht']
        rfl

/-- Endpoints do not influence each other. For every run and every slot, the run of the
driver fed only that slot's links and device responses makes the same transactions,
retirements included, shows the same settings and queue contents of the slot, and has no
other endpoint. -/
theorem HcdRun.isolation {es : List HcdEvent} {h : Hcd} (hrun : HcdRun es h) (s : Slot) :
    ∃ es' h', HcdRun es' h' ∧ es'.map Prod.fst = opsOn s es ∧
      transactions es' = transactionsOn s es ∧
      (∀ c tds, h'.Shows s c tds ↔ h.Shows s c tds) ∧
      (s.key ∈ (h.list s.list).map (fun e ↦ e.key) → ∃ c tds, h.Shows s c tds) ∧
      ∀ w, ∀ e ∈ h'.list w, (⟨w, e.key⟩ : Slot) = s := by
  obtain ⟨a, ha, hr⟩ := hrun.queues
  obtain ⟨es', b, hb, hops, htrans, hi⟩ := ha.isolated s
  obtain ⟨h', hrun', hr'⟩ := hb.heap
  refine ⟨es', h', hrun', hops, htrans, ?_, ?_, ?_⟩
  · intro c tds
    rw [hr'.shows_iff, hr.shows_iff, hi.known_iff, hi.core, hi.queue]
  · intro hk
    rw [hr.keys] at hk
    exact ⟨_, _, (hr.shows_iff s _ _).mpr ⟨hk, rfl, rfl⟩⟩
  · intro w e he
    have hmem : e.key ∈ b.order w := by
      rw [← hr'.keys]
      exact List.mem_map_of_mem he
    rw [hi.order] at hmem
    split at hmem
    · next hw =>
      rw [List.mem_singleton.mp hmem, hw.1]
    · exact nomatch hmem

private def isolationOps : List HcdOp :=
  [.link ⟨1, 2, false, false, 2, 64, [7], 1, ⟨10, 1⟩⟩,
   .link ⟨1, 3, true, false, 2, 64, [0, 0], 2, ⟨11, 2⟩⟩,
   .send .bulk (some 0) .stall, .send .bulk (some 0) .nak,
   .send .bulk (some 0) (.ack 2 [8, 9])]

/-- A bulk endpoint behaves as if the traffic beside it were not there. -/
theorem HcdRun.isolation_example : ∃ es h, HcdRun es h ∧
    opsOn ⟨.bulk, ⟨1, 3⟩⟩ es = [.link ⟨1, 3, true, false, 2, 64, [0, 0], 2, ⟨11, 2⟩⟩,
      .send .bulk (some 0) .nak, .send .bulk (some 0) (.ack 2 [8, 9])] ∧
    ∃ es' h', HcdRun es' h' ∧ es'.map Prod.fst = opsOn ⟨.bulk, ⟨1, 3⟩⟩ es ∧
      transactions es' = transactionsOn ⟨.bulk, ⟨1, 3⟩⟩ es := by
  have hcheck : runsTo hcdExec hcdInit isolationOps (fun _ es ↦
      decide (opsOn ⟨.bulk, ⟨1, 3⟩⟩ es = [.link ⟨1, 3, true, false, 2, 64, [0, 0], 2, ⟨11, 2⟩⟩,
        .send .bulk (some 0) .nak, .send .bulk (some 0) (.ack 2 [8, 9])])) = true := by decide
  obtain ⟨es, h, hrun, hp⟩ := Run.of_runsTo hcheck
  obtain ⟨es', h', hrun', hops, htrans, -⟩ := HcdRun.isolation hrun ⟨.bulk, ⟨1, 3⟩⟩
  exact ⟨es, h, hrun, of_decide_eq_true hp, es', h', hrun', hops, htrans⟩

end BiMpp.Host
