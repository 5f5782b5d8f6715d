import BiMpp.Host.BulkOrder
import BiMpp.Host.Fifo
import BiMpp.Host.Outgoing
import BiMpp.Host.Reassembly

/-!
# Bulk endpoints as byte streams

The traffic of an endpoint is that of its descriptors, one after the other, and the thread
completes those of a bulk endpoint in the same order: what clients have got from it, or have been
told that it took, is the beginning of what went over the bus. `hcd_gtd_link`, `hcd_gtd_send`,
`hcd_process_done_list` and `hcd_loop`,
`bi-mpp-pic24-usb-simulator-master/src/hcd.c:55–113,159–269,327–364`.
-/

namespace BiMpp.Host
open BiMpp.Usb BiMpp.Base

/-! ### An endpoint serves its descriptors in turn -/

/-- A descriptor is linked once. -/
theorem Ledger.linkedTo_nodup {es : List HcdEvent} {a : Queues} (h : Ledger es a) (s : Slot) :
    (linkedTo s es).Nodup := by
  have hnd : ((links es).map Prod.fst).Nodup := by
    rw [h.issued]
    exact List.nodup_range
  exact hnd.sublist (List.filter_sublist.map Prod.fst)

/-- Behind the head of a queue nothing has been tried, and the transactions of a slot are those of
its descriptors, in the order they were linked. -/
structure InTurn (es : List HcdEvent) (a : Queues) : Prop where
  waiting : ∀ s, ∀ y ∈ (a.queue s).tail, transactionsOf y.ptr es = []
  blocks : ∀ s, transactionsOn s es = (linkedTo s es).flatMap fun g ↦ transactionsOf g es

namespace InTurn

variable {es : List HcdEvent} {a b : Queues} {e : HcdEvent}

private theorem init : InTurn [] queuesInit where
  waiting _ _ h := nomatch h
  blocks _ := rfl

private theorem quiet (h : InTurn es a) (hq : b.queue = a.queue)
    (ht : HcdEvent.transaction e = none) (hl : ∀ s, linkedTo s (es ++ [e]) = linkedTo s es) :
    InTurn (es ++ [e]) b := by
  have hsame : ∀ g, transactionsOf g (es ++ [e]) = transactionsOf g es :=
    fun g ↦ transactionsOf_none g es ht
  constructor
  · intro s y hy
    rw [hsame]
    rw [hq] at hy
    exact h.waiting s y hy
  · intro s
    rw [transactionsOn_none s es ht, hl, h.blocks]
    exact List.flatMap_congr fun g _ ↦ (hsame g).symm

private theorem link (h : InTurn es a) (hatt : Attended es a) {args : LinkArgs} {t : Td}
    (hb : Opened a args.slot args.mps b) :
    InTurn (es ++ [(.link args, .linked a.nextGtd)]) (b.push args.slot t) := by
  obtain ⟨hqueue, -, hnext, -⟩ := hb.frame
  have hsame : ∀ g, transactionsOf g (es ++ [(.link args, .linked a.nextGtd)]) =
      transactionsOf g es := fun g ↦ transactionsOf_none g es rfl
  have hnew : transactionsOf a.nextGtd es = [] := hatt.fresh _ (Nat.le_refl _)
  constructor
  · intro s y hy
    rw [hsame]
    change y ∈ (Function.update b.queue args.slot _ s).tail at hy
    rw [Function.update_apply, hqueue, hnext] at hy
    split at hy
    · cases hold : a.queue args.slot with
      | nil =>
        rw [hold] at hy
        exact (List.not_mem_nil hy).elim
      | cons z q =>
        rw [hold, List.cons_append, List.tail_cons] at hy
        rcases List.mem_append.mp hy with hy | hy
        · exact h.waiting args.slot y (by rwa [hold])
        · rw [List.mem_singleton.mp hy]
          exact hnew
    · exact h.waiting s y hy
  · intro s
    rw [transactionsOn_none s es rfl, h.blocks, linkedTo_link]
    split
    · rw [List.flatMap_append, List.flatMap_singleton, hsame, hnew, List.append_nil]
      exact List.flatMap_congr fun g _ ↦ (hsame g).symm
    · exact List.flatMap_congr fun g _ ↦ (hsame g).symm

private theorem serve (h : InTurn es a) (hl : Ledger es a) (hatt : Attended es a) {s : Slot}
    {x : Entry} {q : List Entry} {t : Transaction} {w : EpdList} {epd : Option EpdPtr}
    {r : Response} (hq : a.queue s = x :: q) (hslot : t.slot = s)
    (htail : ∀ s', ∀ y ∈ (b.queue s').tail, y ∈ (a.queue s').tail) :
    InTurn (es ++ [(.send w epd r, .sent (some t))]) b := by
  have hserved : ∀ g, transactionsOf g (es ++ [(.send w epd r, .sent (some t))]) =
      if x.ptr = g then transactionsOf g es ++ [t] else transactionsOf g es :=
    fun g ↦ Attended.served hatt.pending g hq hslot
  have hhead : x ∈ a.place (some s) := by
    rw [Queues.place, hq]
    exact List.mem_cons_self
  constructor
  · intro s' y hy
    have hold := htail s' y hy
    have hne : x.ptr ≠ y.ptr := by
      intro hxy
      have hmem : y ∈ a.place (some s') := List.mem_of_mem_tail hold
      obtain ⟨hs, rfl⟩ := hl.wf.apart hhead hmem hxy
      obtain rfl := Option.some.inj hs
      have hnd := hl.wf.nodup (some s)
      rw [Queues.ptrs, Queues.place, hq, List.map_cons, List.nodup_cons] at hnd
      rw [hq] at hold
      exact hnd.1 (List.mem_map_of_mem hold)
    rw [hserved, if_neg hne]
    exact h.waiting s' y hold
  · intro s'
    rw [transactionsOn_snoc, HcdEvent.transactionOn_send, linkedTo_send, h.blocks, hslot]
    have hlinked : ∀ g ∈ linkedTo s' es, x.ptr = g → s = s' := by
      rintro g hg rfl
      obtain ⟨args, hargs, hown, -⟩ := hl.entry (some s) x hhead
      obtain ⟨⟨g', args'⟩, hmem, rfl⟩ := List.mem_map.mp hg
      obtain ⟨hmem, hfilter⟩ := List.mem_filter.mp hmem
      obtain rfl := hl.linked_unique hargs hmem
      rw [← hl.wf.owner s x hhead, ← hown]
      exact of_decide_eq_true hfilter
    by_cases hs : s = s'
    · subst hs
      -- the head is served, and the descriptors behind it have had nothing
      obtain ⟨pre, hpre⟩ := hl.order s
      rw [Queues.ptrs, Queues.place, hq, List.map_cons] at hpre
      have hnd : (pre ++ x.ptr :: q.map Entry.ptr).Nodup := by
        rw [hpre]
        exact hl.linkedTo_nodup s
      obtain ⟨-, hcons, hapart⟩ := List.nodup_append.mp hnd
      have hrest : ∀ g ∈ q.map Entry.ptr, transactionsOf g es = [] := by
        intro g hg
        obtain ⟨y, hy, rfl⟩ := List.mem_map.mp hg
        exact h.waiting s y (by rwa [hq])
      have hblock : ∀ g ∈ q.map Entry.ptr,
          (if x.ptr = g then transactionsOf g es ++ [t] else transactionsOf g es) = [] := by
        intro g hg
        have hne : x.ptr ≠ g := by
          rintro rfl
          exact (List.nodup_cons.mp hcons).1 hg
        rw [if_neg hne]
        exact hrest g hg
      have hbefore : ∀ g ∈ pre,
          (if x.ptr = g then transactionsOf g es ++ [t] else transactionsOf g es) =
            transactionsOf g es := by
        intro g hg
        exact if_neg fun hx ↦ hapart g hg x.ptr List.mem_cons_self hx.symm
      rw [List.flatMap_congr fun g _ ↦ hserved g, if_pos rfl, Option.toList_some, ← hpre,
        List.flatMap_append, List.flatMap_append, List.flatMap_cons, List.flatMap_cons,
        if_pos rfl, List.flatMap_congr hbefore, List.flatMap_eq_nil_iff.mpr hrest,
        List.flatMap_eq_nil_iff.mpr hblock]
      simp
    · rw [if_neg hs, Option.toList_none, List.append_nil]
      refine List.flatMap_congr fun g hg ↦ ?_
      rw [hserved, if_neg fun hx ↦ hs (hlinked g hg hx)]

private theorem step (h : InTurn es a) (hl : Ledger es a) (hatt : Attended es a)
    (hs : QueueStep a e b) : InTurn (es ++ [e]) b := by
  cases hs with
  | link hb _ => exact h.link hatt hb
  | idle _ => exact h.quiet rfl rfl fun s ↦ linkedTo_send ..
  | @stay s _ _ x q _ p hseek hq hx =>
    refine h.serve hl hatt hq (hl.wf.transaction_slot hseek hx) fun s' y hy ↦ ?_
    change y ∈ (Function.update a.queue s ({ x with td := p } :: q) s').tail at hy
    rw [Function.update_apply] at hy
    split at hy
    · next hs =>
      rw [hs, hq]
      exact hy
    · exact hy
  | @retire s _ _ x q _ p _ hseek hq hx =>
    refine h.serve hl hatt hq (hl.wf.transaction_slot hseek hx) fun s' y hy ↦ ?_
    change y ∈ (Function.update a.queue s q s').tail at hy
    rw [Function.update_apply] at hy
    split at hy
    · next hs =>
      rw [hs, hq]
      exact List.mem_of_mem_tail hy
    · exact hy
  | empty _ => exact h.quiet rfl rfl fun s ↦ linkedTo_process ..
  | complete _ => exact h.quiet rfl rfl fun s ↦ linkedTo_process ..

end InTurn

/-- Every slot serves its descriptors in turn. -/
theorem QueuesRun.inTurn {es : List HcdEvent} {a : Queues} (h : QueuesRun es a) : InTurn es a := by
  refine Run.invariant (P := InTurn) InTurn.init ?_ h
  intro es a e b hrun ih hfire
  exact ih.step (QueuesRun.ledger hrun) (QueuesRun.attended hrun) (queueStep_of_exec hfire)

/-- What a descriptor has is part of the history. -/
theorem transactionsOf_subset (g : GtdPtr) (es : List HcdEvent) :
    transactionsOf g es ⊆ transactions es := by
  induction es using List.reverseRecOn with
  | nil => exact List.Subset.refl _
  | append_singleton es e ih =>
    intro t ht
    rw [transactionsOf_snoc] at ht
    rw [transactions_snoc]
    rcases List.mem_append.mp ht with ht | ht
    · exact List.mem_append_left _ (ih ht)
    · have hserved : HcdEvent.servedFor g (pendingAfter es) e = some t := Option.mem_toList.mp ht
      exact List.mem_append_right _
        (Option.mem_toList.mpr (Option.filter_eq_some_iff.mp hserved).1)

/-- Every transaction is one of a descriptor that was linked to its slot. -/
theorem QueuesRun.transaction_link {es : List HcdEvent} {a : Queues} (h : QueuesRun es a)
    {t : Transaction} (ht : t ∈ transactions es) :
    ∃ l ∈ links es, l.2.slot = t.slot ∧ t ∈ transactionsOf l.1 es := by
  have hon : t ∈ transactionsOn t.slot es := by
    obtain ⟨e, he, htransaction⟩ := List.mem_filterMap.mp ht
    refine List.mem_filterMap.mpr ⟨e, he, ?_⟩
    exact Option.filter_eq_some_iff.mpr ⟨htransaction, decide_eq_true rfl⟩
  rw [h.inTurn.blocks] at hon
  obtain ⟨g, hg, hmem⟩ := List.mem_flatMap.mp hon
  obtain ⟨l, hl, rfl⟩ := List.mem_map.mp hg
  obtain ⟨hlink, hslot⟩ := List.mem_filter.mp hl
  exact ⟨l, hlink, of_decide_eq_true hslot, hmem⟩

/-! ### The bytes of an endpoint -/

/-- The completions of the transfers in one direction of an endpoint, in the order of the calls of
`urb_done`. -/
def completedTo (dir : Bool) (addr n : Int) (es : List HcdEvent) : List Completion :=
  (completions es).filter fun c ↦
    c.gtd ∈ ((bulkLinks addr n es).filter fun l ↦ l.2.dir = dir).map Prod.fst

/-- The bytes that clients got from an endpoint, or were told that it took. -/
def transferred (dir : Bool) (addr n : Int) (es : List HcdEvent) : List UInt8 :=
  (completedTo dir addr n es).flatMap fun c ↦ c.data.take c.length.toNat

/-- The bytes that a transaction moved in one direction. -/
def Transaction.carried (dir : Bool) (t : Transaction) : List UInt8 :=
  if t.packet.dirIn = dir then t.moved else []

/-- The bytes that went over the bus in one direction of an endpoint. -/
def carriedOn (dir : Bool) (addr n : Int) (es : List HcdEvent) : List UInt8 :=
  (transactionsOn ⟨.bulk, ⟨addr, n⟩⟩ es).flatMap (Transaction.carried dir)

/-- The transfers of an endpoint that are not completed, in the order they were linked. -/
def uncompleted (addr n : Int) (es : List HcdEvent) : List (GtdPtr × LinkArgs) :=
  (bulkLinks addr n es).filter fun l ↦ l.1 ∉ (completions es).map Completion.gtd

/-- The bytes that these have moved in one direction. -/
def unfinished (dir : Bool) (addr n : Int) (es : List HcdEvent) : List UInt8 :=
  (uncompleted addr n es).flatMap fun l ↦
    (transactionsOf l.1 es).flatMap (Transaction.carried dir)

section Bytes

variable {es : List HcdEvent} {h : Hcd}

/-- An address among some of the links is that of its own link. -/
theorem Ledger.mem_fst_iff {a : Queues} (hl : Ledger es a) {ls : List (GtdPtr × LinkArgs)}
    (hsub : ls ⊆ links es) {g : GtdPtr} {args : LinkArgs} (hlink : (g, args) ∈ links es) :
    g ∈ ls.map Prod.fst ↔ (g, args) ∈ ls := by
  refine ⟨fun hg ↦ ?_, fun hm ↦ List.mem_map_of_mem hm⟩
  obtain ⟨⟨g', args'⟩, hm, rfl⟩ := List.mem_map.mp hg
  rwa [hl.linked_unique hlink (hsub hm)]

private theorem completed_carried (hrun : HcdRun es h) (hsized : ∀ l ∈ links es, l.2.Sized)
    (hfits : ∀ e ∈ es, HcdEvent.Fits e) {c : Completion} (hc : c ∈ completions es) {a : LinkArgs}
    (hlink : (c.gtd, a) ∈ links es) (hsetup : a.setup = false) (dir : Bool) :
    (transactionsOf c.gtd es).flatMap (Transaction.carried dir) =
      if a.dir = dir then c.data.take c.length.toNat else [] := by
  have hserved := fits_transactionsOf hfits c.gtd
  have hdir := hrun.directed hlink hserved
  by_cases ha : a.dir = dir
  · have hmoved := hrun.moved hlink hserved
    have hall : (transactionsOf c.gtd es).flatMap (Transaction.carried dir) =
        (transactionsOf c.gtd es).flatMap Transaction.moved :=
      List.flatMap_congr fun t ht ↦ if_pos ((hdir t ht).trans ha)
    rw [if_pos ha, hall, hmoved]
    cases hin : a.dir with
    | true =>
      obtain ⟨q, hq, -⟩ := hrun.queues
      have hdelivered := hq.delivered hlink hin hsetup (hsized _ hlink) hserved hc rfl
      rw [if_pos rfl, hdelivered.length, hdelivered.data, Int.toNat_natCast, List.take_left']
      rfl
    | false =>
      obtain ⟨hpieces, -, hcount⟩ := hrun.outgoing hlink hin (hsized _ hlink) hserved
      obtain ⟨hlength, hdata⟩ := hcount c hc rfl
      rw [if_neg Bool.false_ne_true, hlength, hdata, Int.toNat_natCast]
      exact hpieces
  · rw [if_neg ha]
    exact List.flatMap_eq_nil_iff.mpr fun t ht ↦ if_neg fun hx ↦ ha ((hdir t ht).symm.trans hx)

end Bytes

section Thread

variable {es : List LoopEvent} {s : Loop}

/-- What an endpoint carries is what its descriptors carry, in the order they were linked. -/
theorem LoopRun.carriedOn_eq (hrun : LoopRun es s) (dir : Bool) (addr n : Int) :
    carriedOn dir addr n (driverEvents es) =
      (linkedTo ⟨.bulk, ⟨addr, n⟩⟩ (driverEvents es)).flatMap fun g ↦
        (transactionsOf g (driverEvents es)).flatMap (Transaction.carried dir) := by
  obtain ⟨a, hb⟩ := hrun.behind
  rw [carriedOn, hb.run.inTurn.blocks, List.flatMap_assoc]

/-- The completed descriptors of a bulk endpoint come first, then those that are not. -/
theorem LoopRun.linkedTo_eq (hrun : LoopRun es s) (addr : Int) {n : Int} (hn : n ≠ 0) :
    linkedTo ⟨.bulk, ⟨addr, n⟩⟩ (driverEvents es) =
      ((completions (driverEvents es)).filter fun c ↦
        c.gtd ∈ linkedTo ⟨.bulk, ⟨addr, n⟩⟩ (driverEvents es)).map Completion.gtd ++
      (uncompleted addr n (driverEvents es)).map Prod.fst := by
  obtain ⟨a, hb⟩ := hrun.behind
  have hnd := Ledger.linkedTo_nodup hb.run.ledger ⟨.bulk, ⟨addr, n⟩⟩
  obtain ⟨rest, hrest⟩ := hrun.completed_prefix (v := ⟨.bulk, ⟨addr, n⟩⟩) rfl
  have hopen : (uncompleted addr n (driverEvents es)).map Prod.fst =
      (linkedTo ⟨.bulk, ⟨addr, n⟩⟩ (driverEvents es)).filter
        fun g ↦ g ∉ (completions (driverEvents es)).map Completion.gtd := by
    rw [uncompleted, bulkLinks_eq addr hn, linkedTo, List.filter_map]
    rfl
  rw [hopen]
  -- a completed descriptor is not among the rest, for it is linked once
  generalize hdone : ((completions (driverEvents es)).filter fun c ↦
    c.gtd ∈ linkedTo ⟨.bulk, ⟨addr, n⟩⟩ (driverEvents es)).map Completion.gtd = done at hrest ⊢
  rw [← hrest] at hnd
  obtain ⟨-, -, hapart⟩ := List.nodup_append.mp hnd
  have hfirst : done.filter (fun g ↦ g ∉ (completions (driverEvents es)).map Completion.gtd) =
      [] := by
    refine List.filter_eq_nil_iff.mpr fun g hg ↦ ?_
    rw [← hdone] at hg
    have hmem := (List.filter_sublist.map Completion.gtd).subset hg
    simpa using hmem
  have hlast : rest.filter (fun g ↦ g ∉ (completions (driverEvents es)).map Completion.gtd) =
      rest := by
    refine List.filter_eq_self.mpr fun g hg ↦ decide_eq_true fun hmem ↦ ?_
    obtain ⟨c, hc, rfl⟩ := List.mem_map.mp hmem
    refine hapart c.gtd ?_ c.gtd hg rfl
    rw [← hdone]
    refine List.mem_map_of_mem (List.mem_filter.mpr ⟨hc, decide_eq_true ?_⟩)
    rw [← hrest]
    exact List.mem_append_right _ hg
  rw [← hrest, List.filter_append, hfirst, hlast, List.nil_append]

/-- What the completed descriptors of a bulk endpoint carried is what their completions say. -/
theorem LoopRun.completed_eq (hrun : LoopRun es s)
    (hsized : ∀ l ∈ links (driverEvents es), l.2.Sized)
    (hfits : ∀ e ∈ driverEvents es, HcdEvent.Fits e) (addr : Int) {n : Int} (hn : n ≠ 0)
    (dir : Bool) :
    (((completions (driverEvents es)).filter fun c ↦
      c.gtd ∈ linkedTo ⟨.bulk, ⟨addr, n⟩⟩ (driverEvents es)).map Completion.gtd).flatMap (fun g ↦
        (transactionsOf g (driverEvents es)).flatMap (Transaction.carried dir)) =
      transferred dir addr n (driverEvents es) := by
  obtain ⟨a, hb⟩ := hrun.behind
  have hl : Ledger (driverEvents es) a := hb.run.ledger
  rw [List.flatMap_map, transferred, completedTo, flatMap_filter, flatMap_filter]
  refine List.flatMap_congr fun c hc ↦ ?_
  obtain ⟨a, hlink, -⟩ := hl.completed c hc
  have hmem : c.gtd ∈ linkedTo ⟨.bulk, ⟨addr, n⟩⟩ (driverEvents es) ↔
      (c.gtd, a) ∈ bulkLinks addr n (driverEvents es) := by
    rw [linkedTo, ← bulkLinks_eq addr hn]
    exact hl.mem_fst_iff List.filter_sublist.subset hlink
  have hway : c.gtd ∈ ((bulkLinks addr n (driverEvents es)).filter
      fun l ↦ l.2.dir = dir).map Prod.fst ↔
      (c.gtd, a) ∈ bulkLinks addr n (driverEvents es) ∧ a.dir = dir := by
    have hsub : (bulkLinks addr n (driverEvents es)).filter (fun l ↦ l.2.dir = dir) ⊆
        links (driverEvents es) := (List.filter_sublist.trans List.filter_sublist).subset
    rw [hl.mem_fst_iff hsub hlink, List.mem_filter]
    exact and_congr_right fun _ ↦ decide_eq_true_iff
  simp only [hmem, hway, decide_eq_true_eq]
  by_cases hbulk : (c.gtd, a) ∈ bulkLinks addr n (driverEvents es)
  · have hsetup : a.setup = false := by
      have hfilter := (List.mem_filter.mp hbulk).2
      simp only [Bool.and_eq_true, Bool.not_eq_true'] at hfilter
      exact hfilter.1.1
    rw [if_pos hbulk, completed_carried hrun.driver_run hsized hfits hc hlink hsetup]
    simp only [hbulk, true_and]
  · rw [if_neg hbulk, if_neg fun hx ↦ hbulk hx.1]

/-- A bulk endpoint is a byte stream in either direction: in every run of the controller's thread,
whatever is linked meanwhile, and whichever packets are lost, refused or cut short, the bytes that
went over the bus one way are those that the completed transfers say they carried, in the order of
their completion, and then those of the transfers that are not completed, in the order in which
these were linked. -/
theorem LoopRun.stream (hrun : LoopRun es s) (hsized : ∀ l ∈ links (driverEvents es), l.2.Sized)
    (hfits : ∀ e ∈ driverEvents es, HcdEvent.Fits e) (addr : Int) {n : Int} (hn : n ≠ 0)
    (dir : Bool) : carriedOn dir addr n (driverEvents es) =
      transferred dir addr n (driverEvents es) ++ unfinished dir addr n (driverEvents es) := by
  rw [hrun.carriedOn_eq, hrun.linkedTo_eq addr hn, List.flatMap_append,
    hrun.completed_eq hsized hfits addr hn, List.flatMap_map]
  rfl

end Thread

private def streamOps : List LoopOp :=
  let slot (r : Response) : List LoopOp := [.wake, .evaluate, .body r]
  let round (r : Response) : List LoopOp :=
    slot .nak ++ slot .nak ++ slot .nak ++ slot .nak ++ slot r ++ slot .nak
  [.link ⟨1, 0x82, true, false, 2, 2, [0, 0, 0], 3, ⟨10, 3⟩⟩,
    .link ⟨1, 2, false, false, 2, 2, [5, 6], 2, ⟨11, 2⟩⟩,
    .link ⟨1, 0x82, true, false, 2, 2, [0, 0, 0, 0], 4, ⟨12, 4⟩⟩] ++
  round (.ack 2 [7, 8]) ++ round .err ++ round (.ack 1 [9]) ++ round (.ack 2 []) ++
  round (.ack 2 [1, 2])

/-- Three bytes are carried and two more lie in an unfinished transfer. -/
theorem LoopRun.stream_example : ∃ es s, LoopRun es s ∧
    transferred true 1 2 (driverEvents es) = [7, 8, 9] ∧
    unfinished true 1 2 (driverEvents es) = [1, 2] ∧
    carriedOn true 1 2 (driverEvents es) =
      transferred true 1 2 (driverEvents es) ++ unfinished true 1 2 (driverEvents es) := by
  have hcheck : runsTo loopExec loopInit streamOps (fun _ es ↦
      decide (transferred true 1 2 (driverEvents es) = [7, 8, 9] ∧
        unfinished true 1 2 (driverEvents es) = [1, 2] ∧
        (∀ l ∈ links (driverEvents es), l.2.Sized) ∧
        ∀ e ∈ driverEvents es, HcdEvent.Fits e)) = true := by decide +kernel
  obtain ⟨es, s, hrun, hp⟩ := Run.of_runsTo hcheck
  obtain ⟨hbytes, hopen, hsized, hfits⟩ := of_decide_eq_true hp
  exact ⟨es, s, hrun, hbytes, hopen, LoopRun.stream hrun hsized hfits 1 (by decide) true⟩

end BiMpp.Host
