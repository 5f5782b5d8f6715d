import BiMpp.Host.Refinement

/-!
# The driver and its queues have the same runs

Every operation of the heap machine agrees with the operation of the queues: the same
fault, or the same outcome in related states. Runs therefore correspond in both
directions, label for label.
-/

namespace BiMpp.Host
open BiMpp.Usb BiMpp.Base

namespace Refines

variable {h : Hcd} {a : Queues} {s : Slot} {w : EpdList} {i : EpdPtr} {e : Epd}

/-- An endpoint descriptor is ready exactly when its slot is. -/
theorem ready_eq (hr : Refines h a) (he : e ∈ h.list w) : e.ready = a.ready ⟨w, e.key⟩ := by
  have hepd := hr.epds w e he
  have hhead : e.tdQueueHeadPointer.isSome = !(a.queue ⟨w, e.key⟩).isEmpty := by
    rw [hepd.chain.head_eq, Queues.ptrs, Queues.place]
    cases a.queue ⟨w, e.key⟩ <;> rfl
  have hskip : e.skip = (a.core ⟨w, e.key⟩).skip := congrArg EpdCore.skip hepd.core
  have hhalted : e.halted = (a.core ⟨w, e.key⟩).halted := congrArg EpdCore.halted hepd.core
  rw [Epd.ready, Queues.ready, hhead, hskip, hhalted]

private theorem findIdx?_getElem? {α : Type*} {p : α → Bool} {l : List α} {j : Nat}
    (hj : l.findIdx? p = some j) : ∃ x, l[j]? = some x ∧ l.find? p = some x := by
  obtain ⟨hlt, hp, hbefore⟩ := List.findIdx?_eq_some_iff_getElem.mp hj
  refine ⟨l[j], List.getElem?_eq_getElem hlt, ?_⟩
  rw [List.find?_eq_some_iff_getElem]
  exact ⟨hp, j, hlt, rfl, fun k hk ↦ by simpa using hbefore k hk⟩

private theorem find?_ready (hr : Refines h a) (w : EpdList) (i : EpdPtr) :
    ((a.order w).drop i).find? (fun k ↦ a.ready ⟨w, k⟩) =
      (((h.list w).drop i).find? Epd.ready).map fun e ↦ e.key := by
  rw [← hr.keys, ← List.map_drop, List.find?_map]
  congr 1
  have hmem : ∀ e ∈ (h.list w).drop i, e ∈ h.list w := fun e he ↦ List.mem_of_mem_drop he
  generalize (h.list w).drop i = l at hmem
  induction l with
  | nil => rfl
  | cons e l ih =>
    have he : e.ready = a.ready ⟨w, e.key⟩ := hr.ready_eq (hmem e List.mem_cons_self)
    rw [List.find?_cons, List.find?_cons, ih fun e he ↦ hmem e (List.mem_cons_of_mem _ he), he]
    rfl

/-- The selection loop finds the descriptor of the slot that seeking finds. -/
theorem seekReady (hr : Refines h a) (w : EpdList) (p : Option EpdPtr) :
    (∃ f, seekReady (h.list w) p = .error f ∧ a.seek w p = .error f) ∨
    (seekReady (h.list w) p = .ok none ∧ a.seek w p = .ok none) ∨
    ∃ i e s, seekReady (h.list w) p = .ok (some i) ∧ a.seek w p = .ok (some s) ∧
      s.list = w ∧ (h.list s.list)[i]? = some e ∧ e.key = s.key := by
  cases p with
  | none => exact .inr (.inl ⟨rfl, rfl⟩)
  | some i =>
    have hlen : (a.order w).length = (h.list w).length := by rw [← hr.keys, List.length_map]
    simp only [Host.seekReady, Queues.seek, hlen]
    split
    · right
      rw [hr.find?_ready]
      cases hf : ((h.list w).drop i).findIdx? Epd.ready with
      | none =>
        left
        have hnone : ((h.list w).drop i).find? Epd.ready = none := by
          rw [List.find?_eq_none]
          intro e he
          simpa using List.findIdx?_eq_none_iff.mp hf e he
        rw [hnone]
        exact ⟨rfl, rfl⟩
      | some j =>
        right
        obtain ⟨e, hj, hfind⟩ := findIdx?_getElem? hf
        rw [hfind]
        refine ⟨i + j, e, ⟨w, e.key⟩, rfl, rfl, rfl, ?_, rfl⟩
        rw [List.getElem?_drop] at hj
        exact hj
    · exact .inl ⟨_, rfl, rfl⟩

/-- Serving a ready descriptor is serving its slot. -/
theorem serveEpd (hr : Refines h a) (hi : (h.list s.list)[i]? = some e) (hk : e.key = s.key)
    (r : Response) : Agree Refines (serveEpd h s.list i r) (a.serve s r) := by
  unfold Host.serveEpd Queues.serve
  rw [Hcd.epd_some _ _ _ _ hi, ok_bind]
  have he := hr.epd_at hi hk
  cases hq : a.queue s with
  | nil =>
    have hhead : e.tdQueueHeadPointer = none := by
      rw [he.chain.head_eq, Queues.ptrs, Queues.place, hq]
      rfl
    rw [hhead]
    rfl
  | cons x q =>
    obtain ⟨n, hhead, hn, hnt, -⟩ := hr.head_cell hi hk hq
    rw [hhead, Hcd.load_some _ hn, ok_bind]
    simp only [hnt, he.core]
    cases hx : (a.core s).exchange s.list x.td r with
    | error f => rfl
    | ok v =>
      obtain ⟨t, p, fate⟩ := v
      have hkeep := hr.keep hi hk hq hn p
      simp only [ok_bind]
      split
      · next hfate => exact ⟨rfl, hkeep⟩
      · next hfate =>
        have hi' : ((h.setGtd x.ptr { p with nextTD := n.nextTD }).list s.list)[i]? = some e := by
          rw [Hcd.list_setGtd]
          exact hi
        have hq' : (a.keep s { x with td := p } q).queue s = { x with td := p } :: q :=
          Function.update_self _ _ _
        obtain ⟨h', e', hunlink, hepd, href⟩ := hkeep.retire hi' hk hq' fate
        have hab : (a.keep s { x with td := p } q).retire s { x with td := p } q fate =
            a.retire s { x with td := p } q fate := by
          simp [Queues.keep, Queues.retire]
        rw [hab] at href
        simp only at hunlink
        rw [hunlink, ok_bind, hepd, ok_bind]
        exact ⟨rfl, href⟩

/-- `hcd_gtd_send` refines serving the first ready slot. -/
theorem send (hr : Refines h a) (w : EpdList) (p : Option EpdPtr) (r : Response) :
    Agree Refines (hcdExec h (.send w p r)) (queuesExec a (.send w p r)) := by
  simp only [hcdExec, queuesExec, hcdGtdSend, Queues.send]
  rcases hr.seekReady w p with ⟨f, hs, ha⟩ | ⟨hs, ha⟩ | ⟨i, e, s, hs, ha, rfl, hi, hk⟩
  · rw [hs, ha]
    rfl
  · rw [hs, ha]
    exact ⟨rfl, hr.hcdClearNotification _⟩
  · rw [hs, ha]
    have hserve := hr.serveEpd hi hk r
    simp only [ok_bind]
    generalize Host.serveEpd h s.list i r = x at hserve
    generalize a.serve s r = y at hserve
    cases x with
    | error f =>
      cases y with
      | error f' => exact hserve
      | ok v => exact hserve.elim
    | ok u =>
      cases y with
      | error f' => exact hserve.elim
      | ok v =>
        obtain ⟨heq, href⟩ := hserve
        exact ⟨by rw [heq], href⟩

/-- `hcd_process_done_list` refines completing the top of the done stack. -/
theorem processDone (hr : Refines h a) :
    Agree Refines (hcdExec h .processDoneList) (queuesExec a .processDoneList) := by
  simp only [hcdExec, queuesExec, hcdProcessDoneList, Queues.processDone]
  have hdone := hr.done
  cases hd : a.done with
  | nil =>
    have hnone : h.doneList = none := by
      rw [hdone.head_eq, Queues.ptrs, Queues.place, hd]
      rfl
    rw [hnone]
    exact ⟨rfl, hr.hcdClearNotification _⟩
  | cons x rest =>
    obtain ⟨n, hn, hnt⟩ := hr.cells none x (by rw [Queues.place, hd]; exact List.mem_cons_self)
    simp only [Queues.ptrs, Queues.place, hd, List.map_cons, Chain.cons_iff] at hdone
    obtain ⟨hhead, m, hm, hrest⟩ := hdone
    rw [Hcd.next, hn, Option.map_some, Option.some.injEq] at hm
    rw [hhead]
    simp only [Hcd.load_some _ hn, ok_bind, pure_ok, agree_ok]
    refine ⟨by rw [hnt], ?_⟩
    have hwf : Queues.WF { a with done := rest } := hr.wf.complete hd
    -- the freed cell was only on the done list
    have hfar : ∀ pl, ∀ g ∈ Queues.ptrs { a with done := rest } pl, g ≠ x.ptr := by
      intro pl g hg hgx
      rw [hgx] at hg
      cases pl with
      | none =>
        have hnd := hr.wf.nodup none
        simp only [Queues.ptrs, Queues.place, hd, List.map_cons, List.nodup_cons] at hnd
        exact hnd.1 hg
      | some s =>
        refine hr.wf.disjoint (some s) none (Option.some_ne_none s) x.ptr hg ?_
        simp only [Queues.ptrs, Queues.place, hd, List.map_cons]
        exact List.mem_cons_self
    have hnext : ∀ g, g ≠ x.ptr →
        Hcd.next { h with doneList := n.nextTD, heap := Function.update h.heap x.ptr none } g =
          h.next g := by
      intro g hg
      simp only [Hcd.next, Function.update_of_ne hg]
    constructor
    case wf => exact hwf
    case notify => exact hr.notify
    case nextGtd => exact hr.nextGtd
    case keys =>
      intro w
      cases w
      · exact hr.keys .control
      · exact hr.keys .bulk
    case epds =>
      intro w e he
      have he' : e ∈ h.list w := by cases w <;> exact he
      have hepd := hr.epds w e he'
      refine ⟨hepd.core, hepd.chain.frame fun g hg ↦ hnext g ?_, hepd.tail⟩
      exact hfar (some ⟨w, e.key⟩) g hg
    case done =>
      change Chain _ n.nextTD (rest.map Entry.ptr)
      rw [hm]
      exact hrest.frame fun g hg ↦ hnext g (hfar none g hg)
    case cells =>
      intro pl y hy
      have hne := hfar pl y.ptr (List.mem_map_of_mem hy)
      simp only [Function.update_of_ne hne]
      apply hr.cells pl
      cases pl with
      | none =>
        rw [Queues.place, hd]
        exact List.mem_cons_of_mem _ hy
      | some s => exact hy
    case live =>
      intro g hg
      by_cases hgx : g = x.ptr
      · rw [hgx] at hg
        simp at hg
      · simp only [Function.update_of_ne hgx] at hg
        obtain ⟨pl, hpl⟩ := hr.live g hg
        refine ⟨pl, ?_⟩
        cases pl with
        | none =>
          simp only [Queues.ptrs, Queues.place, hd, List.map_cons, List.mem_cons] at hpl
          exact hpl.resolve_left hgx
        | some s => exact hpl

/-- Every operation of the driver agrees with the operation of the queues. -/
theorem agree (hr : Refines h a) (op : HcdOp) : Agree Refines (hcdExec h op) (queuesExec a op) := by
  cases op with
  | link args => exact hr.link args
  | send w p r => exact hr.send w p r
  | processDoneList => exact hr.processDone

end Refines

/-- The queues behind a run of the driver. -/
theorem HcdRun.queues {es : List HcdEvent} {h : Hcd} (hrun : HcdRun es h) :
    ∃ a, QueuesRun es a ∧ Refines h a :=
  Run.refine Refines.init (fun _ _ op hr ↦ hr.agree op) hrun

/-- The heap behind a run of the queues. -/
theorem QueuesRun.heap {es : List HcdEvent} {a : Queues} (hrun : QueuesRun es a) :
    ∃ h, HcdRun es h ∧ Refines h a :=
  Run.realize Refines.init (fun _ _ op hr ↦ hr.agree op) hrun

/-! ### Faults -/

private theorem hcdEpdCreate_error {addr ep mps : Int} {f : Fault}
    (h : hcdEpdCreate addr ep mps = .error f) : f = .assertion := by
  unfold hcdEpdCreate at h
  split at h
  · exact nomatch h
  · exact (Except.error.inj h).symm

private theorem td_error {args : LinkArgs} {f : Fault} (h : args.td = .error f) :
    f = .assertion := by
  unfold LinkArgs.td LinkArgs.pid at h
  split at h
  · split at h
    · exact (Except.error.inj h).symm
    · exact nomatch h
  · split at h <;> exact nomatch h

private theorem choosePacket_error {c : EpdCore} {p : Td} {f : Fault}
    (h : choosePacket c p = .error f) : f = .assertion := by
  unfold choosePacket at h
  split at h
  · split at h
    · exact nomatch h
    · exact (Except.error.inj h).symm
  · exact nomatch h
  · exact nomatch h

private theorem exchange_error {c : EpdCore} {w : EpdList} {p : Td} {r : Response} {f : Fault}
    (h : c.exchange w p r = .error f) : f = .assertion := by
  simp only [EpdCore.exchange] at h
  split at h
  · next hk =>
    obtain rfl := Except.error.inj h
    exact choosePacket_error hk
  · cases h

private theorem queuesExec_error {a : Queues} {op : HcdOp} {f : Fault}
    (h : queuesExec a op = .error f) :
    f = .assertion ∨ ∃ w i r, op = .send w (some i) r ∧ (a.order w).length ≤ i := by
  cases op with
  | link args =>
    left
    rcases bind_eq_error.mp h with h | ⟨v, -, h⟩
    · rcases bind_eq_error.mp h with h | ⟨b, -, h⟩
      · unfold Queues.openSlot at h
        split at h
        · cases h
        · rcases bind_eq_error.mp h with h | ⟨c, -, h⟩
          · exact hcdEpdCreate_error h
          · cases h
      · rcases bind_eq_error.mp h with h | ⟨t, -, h⟩
        · exact td_error h
        · cases h
    · cases h
  | send w p r =>
    rcases bind_eq_error.mp h with h | ⟨v, -, h⟩
    · rcases bind_eq_error.mp h with h | ⟨o, hs, h⟩
      · right
        cases p with
        | none => cases h
        | some i =>
          simp only [Queues.seek] at h
          split at h
          · cases h
          · next hlt => exact ⟨w, i, r, rfl, Nat.le_of_not_lt hlt⟩
      · left
        cases o with
        | none => cases h
        | some s =>
          have hready := Queues.seek_ready hs
          rcases bind_eq_error.mp h with h | ⟨u, -, h⟩
          · unfold Queues.serve at h
            split at h
            · next hq => simp [Queues.ready, hq] at hready
            · rcases bind_eq_error.mp h with h | ⟨u, -, h⟩
              · exact exchange_error h
              · dsimp only at h
                split at h <;> cases h
          · cases h
    · cases h
  | processDoneList => cases h

/-- No run of the driver follows a null or freed pointer or loops: from every reachable
state an operation on an endpoint pointer into its list either succeeds or fails an
assertion. -/
theorem HcdRun.fault_assertion {es : List HcdEvent} {h : Hcd} {op : HcdOp} {f : Fault}
    (hrun : HcdRun es h) (hop : ∀ w i r, op = .send w (some i) r → i < (h.list w).length)
    (hf : hcdExec h op = .error f) : f = .assertion := by
  obtain ⟨a, -, hr⟩ := hrun.queues
  rcases queuesExec_error ((hr.agree op).left_error hf) with hassert | ⟨w, i, r, rfl, hle⟩
  · exact hassert
  · have hlt := hop w i r rfl
    rw [← hr.keys, List.length_map] at hle
    exact absurd hlt (Nat.not_lt.mpr hle)

end BiMpp.Host
