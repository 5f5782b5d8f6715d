import BiMpp.Host.History

/-!
# The life of one transfer

What a history says about a URB: the responses its descriptor got, the one that retired
it, and, once completed, its status and length. The URBs of the links are all different
here, as the callers make them.
-/

namespace BiMpp.Host
open BiMpp.Usb BiMpp.Base

/-- The responses to a URB's transactions, in order. -/
def responsesOf (v : Nat) (es : List HcdEvent) : List Response :=
  ((transactions es).filter fun t ↦ t.urb = v).map Transaction.response

/-- The responses that retired a URB's descriptor. -/
def retirementsOf (v : Nat) (es : List HcdEvent) : List Response :=
  ((transactions es).filter fun t ↦ t.urb = v && t.retired.isSome).map Transaction.response

/-- The URBs of the links, in order. -/
def issuedUrbs (es : List HcdEvent) : List Nat := (links es).map fun l ↦ l.2.urb.id

namespace Ledger

variable {es : List HcdEvent} {a : Queues}

/-- A URB names its link. -/
theorem link_of_urb (hown : (issuedUrbs es).Nodup) {l l' : GtdPtr × LinkArgs}
    (hl : l ∈ links es) (hl' : l' ∈ links es) (h : l.2.urb.id = l'.2.urb.id) : l = l' :=
  List.inj_on_of_nodup_map hown hl hl' h

/-- A URB names one entry in one place. -/
theorem entry_of_urb (h : Ledger es a) (hown : (issuedUrbs es).Nodup) {pl pl' : Option Slot}
    {x y : Entry} (hx : x ∈ a.place pl) (hy : y ∈ a.place pl')
    (hu : x.td.urb.id = y.td.urb.id) : pl = pl' ∧ x = y := by
  obtain ⟨args, hl, -, hurb⟩ := h.entry pl x hx
  obtain ⟨args', hl', -, hurb'⟩ := h.entry pl' y hy
  have hsame := link_of_urb hown hl hl' (by rw [hurb, hurb', hu])
  exact h.wf.apart hx hy (congrArg Prod.fst hsame)

/-- A URB with an entry is not completed. -/
theorem pending (h : Ledger es a) (hown : (issuedUrbs es).Nodup) {pl : Option Slot}
    {x : Entry} (hx : x ∈ a.place pl) {c : Completion} (hc : c ∈ completions es) :
    c.urb ≠ x.td.urb.id := by
  intro hu
  obtain ⟨args, hl, -, hurb⟩ := h.entry pl x hx
  obtain ⟨args', hl', hcu⟩ := h.completed c hc
  have hsame := link_of_urb hown hl hl' (by rw [hurb, hcu, hu])
  have hptr : x.ptr = c.gtd := congrArg Prod.fst hsame
  refine (h.gone x.ptr (h.linked_lt hl)).mp ?_ pl (List.mem_map_of_mem hx)
  rw [hptr]
  exact List.mem_map_of_mem hc

/-- The URB of an entry was linked. -/
theorem entry_linked (h : Ledger es a) {pl : Option Slot} {x : Entry} (hx : x ∈ a.place pl) :
    x.td.urb.id ∈ issuedUrbs es := by
  obtain ⟨args, hl, -, hurb⟩ := h.entry pl x hx
  rw [← hurb]
  exact List.mem_map_of_mem hl

end Ledger

section Snoc

variable (es : List HcdEvent) (e : HcdEvent) (v : Nat)

/-- The links after one more event. -/
theorem links_snoc : links (es ++ [e]) = links es ++ (HcdEvent.linked e).toList := by
  unfold links
  rw [List.filterMap_append]
  cases h : HcdEvent.linked e <;> simp [h]

/-- The transactions after one more event. -/
theorem transactions_snoc :
    transactions (es ++ [e]) = transactions es ++ (HcdEvent.transaction e).toList := by
  unfold transactions
  rw [List.filterMap_append]
  cases h : HcdEvent.transaction e <;> simp [h]

/-- The completions after one more event. -/
theorem completions_snoc :
    completions (es ++ [e]) = completions es ++ (HcdEvent.completion e).toList := by
  unfold completions
  rw [List.filterMap_append]
  cases h : HcdEvent.completion e <;> simp [h]

/-- A URB that was issued stays issued. -/
theorem issuedUrbs_mono : issuedUrbs es <+: issuedUrbs (es ++ [e]) := by
  unfold issuedUrbs
  rw [links_snoc, List.map_append]
  exact List.prefix_append _ _

variable {e v}

/-- A step without a transaction adds no response. -/
theorem responses_none (h : HcdEvent.transaction e = none) :
    responsesOf v (es ++ [e]) = responsesOf v es ∧
      retirementsOf v (es ++ [e]) = retirementsOf v es := by
  simp [responsesOf, retirementsOf, transactions_snoc, h]

/-- A transaction of another URB adds none either. -/
theorem responses_other {t : Transaction} (h : HcdEvent.transaction e = some t) (hv : t.urb ≠ v) :
    responsesOf v (es ++ [e]) = responsesOf v es ∧
      retirementsOf v (es ++ [e]) = retirementsOf v es := by
  simp [responsesOf, retirementsOf, transactions_snoc, h, hv]

/-- A transaction of the URB adds its response, to both where it retires. -/
theorem responses_own {t : Transaction} (h : HcdEvent.transaction e = some t) (hv : t.urb = v) :
    responsesOf v (es ++ [e]) = responsesOf v es ++ [t.response] ∧
      retirementsOf v (es ++ [e]) =
        retirementsOf v es ++ if t.retired.isSome then [t.response] else [] := by
  refine ⟨by simp [responsesOf, transactions_snoc, h, hv], ?_⟩
  cases hr : t.retired <;> simp [retirementsOf, transactions_snoc, h, hv, hr]

end Snoc

/-! ### Errors and retirement -/

/-- A URB in a queue: nothing has retired it, and its errors are counted. -/
structure Unretired (es : List HcdEvent) (v n : Nat) : Prop where
  retirement : retirementsOf v es = []
  errors : (responsesOf v es).countP Response.isErr = n
  stalls : Response.stall ∉ responsesOf v es

/-- A URB out of its queue: one response has retired it, not a NAK; a STALL always does;
and `n` is zero exactly if it met no error. -/
structure Retired (es : List HcdEvent) (v n : Nat) (r : Response) : Prop where
  retirement : retirementsOf v es = [r]
  mem : r ∈ responsesOf v es
  not_nak : r ≠ .nak
  stalls : Response.stall ∈ responsesOf v es → r = .stall
  errors : n = 0 ↔ ∀ r' ∈ responsesOf v es, r'.isErr = false

section Frame

variable {es : List HcdEvent} {e : HcdEvent} {v n : Nat} {r : Response}

private theorem Unretired.frame (h : Unretired es v n)
    (he : responsesOf v (es ++ [e]) = responsesOf v es ∧
      retirementsOf v (es ++ [e]) = retirementsOf v es) : Unretired (es ++ [e]) v n := by
  constructor
  · rw [he.2]
    exact h.retirement
  · rw [he.1]
    exact h.errors
  · rw [he.1]
    exact h.stalls

private theorem Retired.frame (h : Retired es v n r)
    (he : responsesOf v (es ++ [e]) = responsesOf v es ∧
      retirementsOf v (es ++ [e]) = retirementsOf v es) : Retired (es ++ [e]) v n r := by
  constructor
  · rw [he.2]
    exact h.retirement
  · rw [he.1]
    exact h.mem
  · exact h.not_nak
  · rw [he.1]
    exact h.stalls
  · rw [he.1]
    exact h.errors

private theorem Unretired.keep (h : Unretired es v n) {c : EpdCore} {w : EpdList} {p p' : Td}
    {t : Transaction} (hn : p.errorCount = n) (hv : p.urb.id = v)
    (hx : c.exchange w p r = .ok (t, p', .keep)) (he : HcdEvent.transaction e = some t) :
    Unretired (es ++ [e]) v p'.errorCount := by
  obtain ⟨k, -, hr, ht⟩ := EpdCore.exchange_ok hx
  have hown := responses_own es he (v := v) (by rw [ht]; exact hv)
  have hnot : t.retired = none := by rw [ht]; rfl
  have hresp : t.response = r := by rw [ht]
  have hload : (p.loadToggle c.toggleCarry).errorCount = n := by
    rw [Td.errorCount_loadToggle, hn]
  rw [hnot, hresp] at hown
  constructor
  · rw [hown.2, h.retirement]
    rfl
  · rw [hown.1, List.countP_append, h.errors]
    cases r with
    | ack rlen bytes =>
      obtain ⟨rfl, -⟩ := Prod.mk.inj hr
      exact hload.symm
    | nak =>
      obtain ⟨rfl, -⟩ := Prod.mk.inj hr
      exact hload.symm
    | err =>
      simp only [Td.respond] at hr
      split at hr
      · cases (Prod.mk.inj hr).2
      · obtain ⟨rfl, -⟩ := Prod.mk.inj hr
        change n + 1 = (p.loadToggle c.toggleCarry).errorCount + 1
        rw [hload]
    | stall => cases (Prod.mk.inj hr).2
  · rw [hown.1, List.mem_append, List.mem_singleton]
    rintro (hs | rfl)
    · exact h.stalls hs
    · cases (Prod.mk.inj hr).2

private theorem Unretired.retire (h : Unretired es v n) {c : EpdCore} {w : EpdList} {p p' : Td}
    {t : Transaction} {fate : Fate} (hn : p.errorCount = n) (hv : p.urb.id = v)
    (hx : c.exchange w p r = .ok (t, p', fate)) (hf : fate ≠ .keep)
    (he : HcdEvent.transaction e = some t) : Retired (es ++ [e]) v p'.errorCount r := by
  obtain ⟨k, -, hr, ht⟩ := EpdCore.exchange_ok hx
  have hown := responses_own es he (v := v) (by rw [ht]; exact hv)
  have hret : t.retired.isSome = true := by rw [ht, if_neg hf]; rfl
  have hresp : t.response = r := by rw [ht]
  have hload : (p.loadToggle c.toggleCarry).errorCount = n := by
    rw [Td.errorCount_loadToggle, hn]
  rw [hret, hresp, if_pos rfl, h.retirement, List.nil_append] at hown
  have hzero : n = 0 ↔ ∀ r' ∈ responsesOf v es, r'.isErr = false := by
    rw [← h.errors, List.countP_eq_zero]
    simp
  constructor
  · exact hown.2
  · rw [hown.1]
    simp
  · rintro rfl
    exact hf (Prod.mk.inj hr).2.symm
  · intro hs
    rw [hown.1, List.mem_append, List.mem_singleton] at hs
    exact (hs.resolve_left h.stalls).symm
  · rw [hown.1, List.forall_mem_append, List.forall_mem_singleton]
    cases r with
    | ack rlen bytes =>
      obtain ⟨rfl, -⟩ := Prod.mk.inj hr
      change (p.loadToggle c.toggleCarry).errorCount = 0 ↔ _
      rw [hload, hzero]
      exact (and_iff_left rfl).symm
    | nak => exact (hf (Prod.mk.inj hr).2.symm).elim
    | err =>
      simp only [Td.respond] at hr
      split at hr
      · next h2 =>
        obtain ⟨rfl, -⟩ := Prod.mk.inj hr
        rw [h2]
        exact iff_of_false (by decide) fun hall ↦ Bool.noConfusion hall.2
      · exact (hf (Prod.mk.inj hr).2.symm).elim
    | stall =>
      obtain ⟨rfl, -⟩ := Prod.mk.inj hr
      rw [hload, hzero]
      exact (and_iff_left rfl).symm

end Frame

/-- Every URB's responses are accounted for: in its descriptor while it has one, in its
status once it is completed. -/
structure Account (es : List HcdEvent) (a : Queues) : Prop where
  linked : ∀ t ∈ transactions es, t.urb ∈ issuedUrbs es
  queued : ∀ s, ∀ x ∈ a.queue s, Unretired es x.td.urb.id x.td.errorCount
  done : ∀ x ∈ a.done, ∃ r, Retired es x.td.urb.id x.td.errorCount r
  completed : ∀ c ∈ completions es, ∃ r, Retired es c.urb c.status r

namespace Account

variable {es : List HcdEvent} {a b : Queues}

private theorem init : Account [] queuesInit where
  linked _ ht := nomatch ht
  queued _ _ hx := nomatch hx
  done _ hx := nomatch hx
  completed _ hc := nomatch hc

/-- A URB not linked before has no transaction. -/
theorem fresh (h : Account es a) {args : LinkArgs} {g : GtdPtr}
    (hown : (issuedUrbs (es ++ [(.link args, .linked g)])).Nodup) :
    ∀ t ∈ transactions es, t.urb ≠ args.urb.id := by
  intro t ht hu
  have hsplit : issuedUrbs (es ++ [(.link args, .linked g)]) = issuedUrbs es ++ [args.urb.id] := by
    simp [issuedUrbs]
  rw [hsplit, List.nodup_append] at hown
  exact hown.2.2 t.urb (h.linked t ht) args.urb.id (by simp) hu

private theorem untouched (h : Account es a) {e : HcdEvent} (ht : HcdEvent.transaction e = none) :
    (∀ t ∈ transactions (es ++ [e]), t.urb ∈ issuedUrbs (es ++ [e])) ∧
    (∀ s, ∀ y ∈ a.queue s, Unretired (es ++ [e]) y.td.urb.id y.td.errorCount) ∧
    (∀ y ∈ a.done, ∃ r, Retired (es ++ [e]) y.td.urb.id y.td.errorCount r) ∧
    (∀ c ∈ completions es, ∃ r, Retired (es ++ [e]) c.urb c.status r) := by
  refine ⟨?_, ?_, ?_, ?_⟩
  · intro t hm
    rw [transactions_snoc, ht] at hm
    simp only [Option.toList_none, List.append_nil] at hm
    exact (issuedUrbs_mono es _).subset (h.linked t hm)
  · intro s y hy
    exact (h.queued s y hy).frame (responses_none _ ht)
  · intro y hy
    obtain ⟨r, hr⟩ := h.done y hy
    exact ⟨r, hr.frame (responses_none _ ht)⟩
  · intro c hc
    obtain ⟨r, hr⟩ := h.completed c hc
    exact ⟨r, hr.frame (responses_none _ ht)⟩

private theorem link (h : Account es a) {args : LinkArgs} {t : Td}
    (hown : (issuedUrbs (es ++ [(.link args, .linked a.nextGtd)])).Nodup)
    (hb : Opened a args.slot args.mps b) (ht : args.td = .ok t) :
    Account (es ++ [(.link args, .linked a.nextGtd)]) (b.push args.slot t) := by
  obtain ⟨-, hdone, -, -⟩ := hb.frame
  have hnone : HcdEvent.transaction (.link args, .linked a.nextGtd) = none := rfl
  obtain ⟨pid, rfl⟩ := LinkArgs.td_ok ht
  have hfresh := h.fresh hown
  have hnew : Unretired (es ++ [(.link args, .linked a.nextGtd)]) args.urb.id 0 := by
    have hfilter : ((transactions es).filter fun t ↦ t.urb = args.urb.id) = [] := by
      rw [List.filter_eq_nil_iff]
      simpa using hfresh
    have hfilter' :
        ((transactions es).filter fun t ↦ t.urb = args.urb.id && t.retired.isSome) = [] := by
      rw [List.filter_eq_nil_iff]
      intro t ht
      simp [hfresh t ht]
    have hresp := responses_none es (v := args.urb.id) hnone
    constructor
    · rw [hresp.2, retirementsOf, hfilter']
      rfl
    · rw [hresp.1, responsesOf, hfilter]
      rfl
    · rw [hresp.1, responsesOf, hfilter]
      exact nofun
  obtain ⟨hlinked, hqueued, hretired, hcompleted⟩ := h.untouched hnone
  refine ⟨hlinked, ?_, ?_, by rw [completions_link]; exact hcompleted⟩
  · intro s x hx
    have hpl : x ∈ (b.push args.slot _).place (some s) := hx
    rcases Queues.mem_link hb hpl with hx | ⟨-, rfl⟩
    · exact hqueued s x hx
    · exact hnew
  · intro x hx
    change x ∈ b.done at hx
    rw [hdone] at hx
    exact hretired x hx

private theorem quiet (h : Account es a) {e : HcdEvent} (hq : b.queue = a.queue)
    (hd : b.done = a.done) (ht : HcdEvent.transaction e = none)
    (hc : completions (es ++ [e]) = completions es) : Account (es ++ [e]) b := by
  obtain ⟨hlinked, hqueued, hretired, hcompleted⟩ := h.untouched ht
  refine ⟨hlinked, ?_, ?_, ?_⟩
  · rw [hq]
    exact hqueued
  · rw [hd]
    exact hretired
  · rw [hc]
    exact hcompleted

private theorem complete (h : Account es a) {x : Entry} {rest : List Entry}
    (hd : a.done = x :: rest) :
    Account (es ++ [(.processDoneList, .processed (some (x.td.complete x.ptr)))])
      { a with done := rest } := by
  have hnone : HcdEvent.transaction
      (.processDoneList, .processed (some (x.td.complete x.ptr))) = none := rfl
  obtain ⟨hlinked, hqueued, hretired, hcompleted⟩ := h.untouched hnone
  refine ⟨hlinked, hqueued, ?_, ?_⟩
  · intro y hy
    exact hretired y (by rw [hd]; exact List.mem_cons_of_mem _ hy)
  · intro c hc
    rw [completions_process] at hc
    rcases List.mem_append.mp hc with hc | hc
    · exact hcompleted c hc
    · rw [Option.toList_some, List.mem_singleton] at hc
      subst hc
      obtain ⟨r, hr⟩ := hretired x (by rw [hd]; exact List.mem_cons_self)
      have hstatus : (x.td.complete x.ptr).status = 0 ↔ x.td.errorCount = 0 := by
        simp [Td.complete]
      exact ⟨r, hr.retirement, hr.mem, hr.not_nak, hr.stalls, hstatus.trans hr.errors⟩

private theorem others (h : Account es a) (hl : Ledger es a) (hown : (issuedUrbs es).Nodup)
    {s : Slot} {x : Entry} {q : List Entry} {e : HcdEvent} {t : Transaction}
    (hq : a.queue s = x :: q) (ht : HcdEvent.transaction e = some t)
    (hu : t.urb = x.td.urb.id) :
    (∀ t' ∈ transactions (es ++ [e]), t'.urb ∈ issuedUrbs (es ++ [e])) ∧
    (∀ s', ∀ y ∈ a.queue s', y ≠ x → Unretired (es ++ [e]) y.td.urb.id y.td.errorCount) ∧
    (∀ y ∈ a.done, ∃ r, Retired (es ++ [e]) y.td.urb.id y.td.errorCount r) ∧
    (∀ c ∈ completions es, ∃ r, Retired (es ++ [e]) c.urb c.status r) := by
  have hx : x ∈ a.place (some s) := by
    rw [Queues.place, hq]
    exact List.mem_cons_self
  refine ⟨?_, ?_, ?_, ?_⟩
  · intro t' ht'
    rw [transactions_snoc, ht] at ht'
    apply (issuedUrbs_mono es _).subset
    rcases List.mem_append.mp ht' with ht' | ht'
    · exact h.linked t' ht'
    · rw [Option.toList_some, List.mem_singleton] at ht'
      rw [ht', hu]
      exact hl.entry_linked hx
  · intro s' y hy hne
    refine (h.queued s' y hy).frame (responses_other _ ht ?_)
    intro hid
    have hy' : y ∈ a.place (some s') := hy
    exact hne (hl.entry_of_urb hown hy' hx (by rw [← hid, hu])).2
  · intro y hy
    obtain ⟨r, hr⟩ := h.done y hy
    refine ⟨r, hr.frame (responses_other _ ht ?_)⟩
    intro hid
    have hy' : y ∈ a.place none := hy
    cases (hl.entry_of_urb hown hy' hx (by rw [← hid, hu])).1
  · intro c hc
    obtain ⟨r, hr⟩ := h.completed c hc
    refine ⟨r, hr.frame (responses_other _ ht ?_)⟩
    intro hid
    exact hl.pending hown hx hc (by rw [← hid, hu])

private theorem step (h : Account es a) (hl : Ledger es a) {e : HcdEvent}
    (hown : (issuedUrbs (es ++ [e])).Nodup) (hs : QueueStep a e b) : Account (es ++ [e]) b := by
  have hown' : (issuedUrbs es).Nodup := hown.sublist (issuedUrbs_mono es e).sublist
  cases hs with
  | link hb ht => exact h.link hown hb ht
  | idle _ => exact h.quiet rfl rfl rfl (completions_send ..)
  | @stay s epd r x q t p _ hq hx =>
    have hu := EpdCore.exchange_owner hx
    have hurb := EpdCore.exchange_urb hx
    have hin : x ∈ a.queue s := by
      rw [hq]
      exact List.mem_cons_self
    obtain ⟨hlinked, hqueued, hdone, hcompleted⟩ := h.others hl hown'
      (e := (.send s.list epd r, .sent (some t))) hq rfl hu
    refine ⟨hlinked, ?_, hdone, by rw [completions_send]; exact hcompleted⟩
    intro s' y hy
    have hpl : y ∈ (a.keep s { x with td := p } q).place (some s') := hy
    rcases hl.wf.mem_keep hq hpl with ⟨-, rfl⟩ | ⟨hy, hne⟩
    · rw [hurb]
      exact (h.queued s x hin).keep rfl rfl hx rfl
    · exact hqueued s' y hy hne
  | @retire s epd r x q t p fate _ hq hx hf =>
    have hu := EpdCore.exchange_owner hx
    have hurb := EpdCore.exchange_urb hx
    have hin : x ∈ a.queue s := by
      rw [hq]
      exact List.mem_cons_self
    obtain ⟨hlinked, hqueued, hdone, hcompleted⟩ := h.others hl hown'
      (e := (.send s.list epd r, .sent (some t))) hq rfl hu
    refine ⟨hlinked, ?_, ?_, by rw [completions_send]; exact hcompleted⟩
    · intro s' y hy
      have hpl : y ∈ (a.retire s { x with td := p } q fate).place (some s') := hy
      rcases hl.wf.mem_retire hq hpl with ⟨hne, -⟩ | ⟨hy, hne⟩
      · cases hne
      · exact hqueued s' y hy hne
    · intro y hy
      have hpl : y ∈ (a.retire s { x with td := p } q fate).place none := hy
      rcases hl.wf.mem_retire hq hpl with ⟨-, rfl⟩ | ⟨hy, -⟩
      · rw [hurb]
        exact ⟨r, (h.queued s x hin).retire rfl rfl hx hf rfl⟩
      · exact hdone y hy
  | empty _ =>
    refine h.quiet rfl rfl rfl ?_
    rw [completions_process]
    simp
  | complete hd => exact h.complete hd

end Account

/-- Every history of the queues with a URB for each link accounts for every response. -/
theorem QueuesRun.account {es : List HcdEvent} {a : Queues} (h : QueuesRun es a)
    (hown : (issuedUrbs es).Nodup) : Account es a := by
  have hinv : (issuedUrbs es).Nodup → Account es a := by
    refine Run.invariant (P := fun es a ↦ (issuedUrbs es).Nodup → Account es a) ?_ ?_ h
    · exact fun _ ↦ Account.init
    · intro es a e b hrun ih hfire hnd
      have hnd' := hnd.sublist (issuedUrbs_mono es e).sublist
      have hstep : QueueStep a e b := queueStep_of_exec hfire
      exact (ih hnd').step (QueuesRun.ledger hrun) hnd hstep
  exact hinv hown

/-! ### Lengths -/

/-- A descriptor with a buffer of `size` bytes and its pointer inside. -/
structure Td.Within (size : Int) (p : Td) : Prop where
  bufferEnd : p.bufferEnd + 1 = size
  start : 0 ≤ p.currentBufferPointer
  stop : p.currentBufferPointer ≤ size

/-- A descriptor inside its buffer, which has the length of the URB's. -/
structure Td.Sized (p : Td) : Prop where
  nonneg : 0 ≤ p.currentBufferPointer
  inside : p.currentBufferPointer ≤ p.bufferEnd + 1
  urb : p.bufferEnd + 1 = p.urb.bufferLength
  data : (p.data.length : Int) = p.bufferEnd + 1

/-- A link with as many bytes as it says and as its URB has room for. -/
def LinkArgs.Sized (a : LinkArgs) : Prop :=
  0 ≤ a.size ∧ a.size = a.urb.bufferLength ∧ (a.data.length : Int) = a.size

instance (a : LinkArgs) : Decidable a.Sized :=
  inferInstanceAs (Decidable (_ ∧ _))

/-- The device's answer to the transaction of an event fits its packet. -/
def HcdEvent.Fits (e : HcdEvent) : Prop :=
  ∀ t, HcdEvent.transaction e = some t → t.response.Fits t.packet

instance (e : HcdEvent) : Decidable (HcdEvent.Fits e) :=
  inferInstanceAs (Decidable (∀ t ∈ HcdEvent.transaction e, t.response.Fits t.packet))

/-- A completion that transferred no more than its URB has room for, in a buffer of that
size. -/
def Completion.Sized (c : Completion) (urb : UrbRef) : Prop :=
  urb.id = c.urb ∧ 0 ≤ c.length ∧ c.length ≤ urb.bufferLength ∧
    (c.data.length : Int) = urb.bufferLength

/-- A packet asks for no more than is left in the buffer. -/
theorem choosePacket_size {c : EpdCore} {p : Td} {k : Packet} (h : choosePacket c p = .ok k) :
    k.size ≤ p.buflen := by
  unfold choosePacket at h
  split at h
  · split at h
    · obtain rfl := Except.ok.inj h
      exact Int.le_refl _
    · exact nomatch h
  · obtain rfl := Except.ok.inj h
    exact Int.min_le_right _ _
  · obtain rfl := Except.ok.inj h
    exact Int.le_refl _

namespace Td.Within

variable {size : Int} {p p' : Td}

/-- What is left of the buffer. -/
theorem buflen (h : p.Within size) : p.buflen = size - p.currentBufferPointer := by
  have hend := h.bufferEnd
  unfold Td.buflen
  omega

/-- Loading the toggle leaves the position in the buffer. -/
theorem loadToggle (h : p.Within size) (carry : BitVec 32) : (p.loadToggle carry).Within size := by
  have hload := Td.loaded p carry
  constructor
  · rw [hload.bufferEnd, h.bufferEnd]
  · rw [hload.pointer]
    exact h.start
  · rw [hload.pointer]
    exact h.stop

/-- A fitting response leaves the pointer inside. -/
theorem exchange (h : p.Within size) {c : EpdCore} {w : EpdList} {r : Response} {t : Transaction}
    {fate : Fate} (hx : c.exchange w p r = .ok (t, p', fate))
    (hfits : t.response.Fits t.packet) : p'.Within size := by
  obtain ⟨k, hk, hr, rfl⟩ := EpdCore.exchange_ok hx
  have hq := h.loadToggle c.toggleCarry
  generalize p.loadToggle c.toggleCarry = q at hk hr hfits hq
  have hkept := Td.responded q k c.maximumPacketSize r
  have hend := hkept.bufferEnd.symm ▸ hq.bufferEnd
  rw [hr] at hkept hend
  cases hack : r.isAck with
  | false =>
    have hsame := hkept.pointer hack
    exact ⟨hend, hsame ▸ hq.start, hsame ▸ hq.stop⟩
  | true =>
    cases r with
    | ack rlen bytes =>
      obtain ⟨rfl, -⟩ := Prod.mk.inj hr
      have hsize := choosePacket_size hk
      have hroom := hq.buflen
      have hstart := hq.start
      obtain ⟨hpos, hle, -⟩ := hfits
      have hle : rlen ≤ k.size := hle
      have hptr : (q.advance k rlen bytes).currentBufferPointer = q.currentBufferPointer + rlen :=
        rfl
      refine ⟨hend, ?_, ?_⟩
      · rw [hptr]
        omega
      · rw [hptr]
        omega
    | _ => cases hack

end Td.Within

/-- A fitting response leaves a buffer its length. -/
theorem Td.length_respond {q : Td} (k : Packet) (mps : Int) (r : Response)
    (hpos : 0 ≤ q.currentBufferPointer) (hroom : q.currentBufferPointer + k.size ≤ q.data.length)
    (hfits : r.Fits k) : (q.respond k mps r).1.data.length = q.data.length := by
  cases hack : r.isAck with
  | false => rw [(Td.responded q k mps r).data hack]
  | true =>
    cases r with
    | ack rlen bytes =>
      obtain ⟨-, hle, hbytes⟩ := hfits
      show (if k.dirIn then writeAt q.data q.currentBufferPointer bytes else q.data).length = _
      split
      · next hin =>
        have hcount := hbytes hin
        exact length_writeAt _ _ _ (by omega)
      · rfl
    | _ => cases hack

/-- A fitting response keeps the descriptor inside its buffer. -/
theorem Td.Sized.exchange {c : EpdCore} {w : EpdList} {p p' : Td} {r : Response}
    {t : Transaction} {fate : Fate} (h : p.Sized) (hx : c.exchange w p r = .ok (t, p', fate))
    (hfits : t.response.Fits t.packet) : p'.Sized := by
  have hwithin : p'.Within (p.bufferEnd + 1) :=
    Td.Within.exchange ⟨rfl, h.nonneg, h.inside⟩ hx hfits
  obtain ⟨k, hk, hr, rfl⟩ := EpdCore.exchange_ok hx
  have hload := Td.loaded p c.toggleCarry
  have hkept := Td.responded (p.loadToggle c.toggleCarry) k c.maximumPacketSize r
  have hroom : (p.loadToggle c.toggleCarry).currentBufferPointer + k.size ≤
      (p.loadToggle c.toggleCarry).data.length := by
    have hsize := choosePacket_size hk
    unfold Td.buflen at hsize
    rw [hload.data, h.data, ← hload.bufferEnd]
    omega
  have hlen := Td.length_respond k c.maximumPacketSize r (hload.pointer ▸ h.nonneg) hroom hfits
  rw [hr] at hkept hlen
  have hend := hwithin.bufferEnd
  refine ⟨hwithin.start, hend.symm ▸ hwithin.stop, ?_, ?_⟩
  · rw [hend, hkept.urb, hload.urb]
    exact h.urb
  · rw [hend, hlen, hload.data]
    exact h.data

private theorem sized_td {args : LinkArgs} {t : Td} (h : args.Sized) (ht : args.td = .ok t) :
    t.Sized := by
  obtain ⟨hpos, hurb, hdata⟩ := h
  obtain ⟨pid, rfl⟩ := LinkArgs.td_ok ht
  constructor <;> simp only [hcdGtdCreate] <;> omega

private theorem sized_step {a b : Queues} {e : HcdEvent} (hwf : a.WF)
    (h : ∀ pl, ∀ x ∈ a.place pl, x.td.Sized) (hs : QueueStep a e b)
    (hlink : ∀ g args, HcdEvent.linked e = some (g, args) → args.Sized)
    (hfits : HcdEvent.Fits e) : ∀ pl, ∀ x ∈ b.place pl, x.td.Sized := by
  cases hs with
  | @link args c t hb ht =>
    intro pl x hx
    rcases Queues.mem_link hb hx with hx | ⟨-, rfl⟩
    · exact h pl x hx
    · exact sized_td (hlink _ _ rfl) ht
  | idle _ =>
    intro pl x hx
    exact h pl x (by cases pl <;> exact hx)
  | @stay s epd r x q t p _ hq hx =>
    have hp : p.Sized := (h (some s) x (by simp [Queues.place, hq])).exchange hx (hfits t rfl)
    intro pl y hy
    rcases hwf.mem_keep hq hy with ⟨-, rfl⟩ | ⟨hy, -⟩
    · exact hp
    · exact h pl y hy
  | @retire s epd r x q t p fate _ hq hx hf =>
    have hp : p.Sized := (h (some s) x (by simp [Queues.place, hq])).exchange hx (hfits t rfl)
    intro pl y hy
    rcases hwf.mem_retire hq hy with ⟨-, rfl⟩ | ⟨hy, -⟩
    · exact hp
    · exact h pl y hy
  | empty _ =>
    intro pl x hx
    exact h pl x (by cases pl <;> exact hx)
  | complete hd =>
    intro pl y hy
    cases pl with
    | none =>
      refine h none y ?_
      rw [Queues.place, hd]
      exact List.mem_cons_of_mem _ hy
    | some s => exact h (some s) y hy

/-- With sized links and fitting answers, every completion is within its URB's room. -/
theorem QueuesRun.completion_sized {es : List HcdEvent} {a : Queues} (h : QueuesRun es a)
    (hlinks : ∀ l ∈ links es, l.2.Sized) (hfits : ∀ e ∈ es, HcdEvent.Fits e) :
    ∀ c ∈ completions es, ∃ l ∈ links es, c.Sized l.2.urb := by
  have hinv : (∀ l ∈ links es, l.2.Sized) → (∀ e ∈ es, HcdEvent.Fits e) →
      (∀ pl, ∀ x ∈ a.place pl, x.td.Sized) ∧
        ∀ c ∈ completions es, ∃ l ∈ links es, c.Sized l.2.urb := by
    refine Run.invariant (P := fun es a ↦ (∀ l ∈ links es, l.2.Sized) →
      (∀ e ∈ es, HcdEvent.Fits e) → (∀ pl, ∀ x ∈ a.place pl, x.td.Sized) ∧
        ∀ c ∈ completions es, ∃ l ∈ links es, c.Sized l.2.urb) ?_ ?_ h
    · intro _ _
      refine ⟨fun pl x hx ↦ ?_, nofun⟩
      cases pl <;> exact nomatch hx
    · intro es a e b hrun ih hfire hlinks hfits
      have hstep : QueueStep a e b := queueStep_of_exec hfire
      have hsub : ∀ l ∈ links es, l ∈ links (es ++ [e]) := by
        intro l hl
        rw [links_snoc]
        exact List.mem_append_left _ hl
      obtain ⟨hsized, hdone⟩ := ih (fun l hl ↦ hlinks l (hsub l hl))
        (fun e' he' ↦ hfits e' (List.mem_append_left _ he'))
      constructor
      · refine sized_step (QueuesRun.wf hrun) hsized hstep ?_ (hfits e (by simp))
        intro g args hl
        refine hlinks (g, args) ?_
        rw [links_snoc, hl]
        simp
      · intro c hc
        rw [completions_snoc] at hc
        rcases List.mem_append.mp hc with hc | hc
        · obtain ⟨l, hl, hcl⟩ := hdone c hc
          exact ⟨l, hsub l hl, hcl⟩
        · cases hstep with
          | @complete x rest hd =>
            obtain rfl : c = x.td.complete x.ptr := by
              simpa [HcdEvent.completion] using hc
            have hx : x ∈ a.place none := by
              rw [Queues.place, hd]
              exact List.mem_cons_self
            obtain ⟨args, hl, -, hurb⟩ := (QueuesRun.ledger hrun).entry none x hx
            have hs := hsized none x hx
            have h1 := hs.nonneg
            have h2 := hs.inside
            have h3 := hs.urb
            have h4 := hs.data
            refine ⟨_, hsub _ hl, ?_⟩
            rw [hurb]
            simp only [Completion.Sized, Td.complete]
            exact ⟨trivial, by omega, by omega, by omega⟩
          | link => simp [HcdEvent.completion] at hc
          | idle => simp [HcdEvent.completion] at hc
          | stay => simp [HcdEvent.completion] at hc
          | retire => simp [HcdEvent.completion] at hc
          | empty => simp [HcdEvent.completion] at hc
  exact (hinv hlinks hfits).2

end BiMpp.Host
