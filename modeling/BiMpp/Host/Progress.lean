import Mathlib.Algebra.BigOperators.Group.List.Lemmas
import Mathlib.Algebra.Order.BigOperators.Group.List
import Mathlib.Algebra.Order.Group.Nat
import BiMpp.Host.Extent
import BiMpp.Host.Outcome
import BiMpp.Host.Stream
import BiMpp.Host.Toggle

/-!
# How much a transfer may cost

A NAK puts a transaction off; every other answer moves a full packet, ends the descriptor or is
one of the three errors that end it: `hcd_gtd_send`,
`bi-mpp-pic24-usb-simulator-master/src/hcd.c:159–243`. So what the requests may cost the bus is
known when they are linked.
-/

namespace BiMpp.Host
open BiMpp.Usb BiMpp.Base

/-! ### The price of a transfer -/

/-- The packets of a transfer of `n` bytes with `m` in a packet; an empty one takes one. -/
def packetCount (n m : Int) : Nat := max 1 ((n + m - 1) / m).toNat

/-- The transactions that were not put off. -/
def workOf (ts : List Transaction) : Nat := ts.countP fun t ↦ decide (t.response ≠ .nak)

/-- The device took all of a packet, if it took it. -/
def Transaction.Taken (t : Transaction) : Prop :=
  match t.response with
  | .ack rlen _ => t.packet.dirIn = false → rlen = t.packet.size
  | _ => True

instance (t : Transaction) : Decidable t.Taken := by
  unfold Transaction.Taken
  cases t.response <;> infer_instance

/-- A descriptor that still asks for something has room for one more packet. -/
theorem succ_le_packetCount {n m : Int} (hm : 0 < m) {k : Nat} (h : k = 0 ∨ k * m < n) :
    k + 1 ≤ packetCount n m := by
  unfold packetCount
  rcases h with rfl | h
  · exact Nat.le_max_left _ _
  · have hdiv : (k : Int) + 1 ≤ (n + m - 1) / m := by
      apply Int.le_ediv_of_mul_le hm
      rw [Int.add_mul, Int.one_mul]
      omega
    omega

section Counts

variable (ts : List Transaction) (t : Transaction)

private theorem acksOf_snoc :
    acksOf (ts ++ [t]) = acksOf ts + if t.response.isAck then 1 else 0 := by
  rw [acksOf_append, acksOf_singleton]

private theorem workOf_snoc :
    workOf (ts ++ [t]) = workOf ts + if t.response ≠ .nak then 1 else 0 := by
  rw [workOf, List.countP_append, List.countP_singleton]
  simp only [decide_eq_true_eq]
  rfl

end Counts

/-! ### One descriptor -/

/-- A queued descriptor: every packet it got was full, and its work was packets and errors. -/
structure Moving (a : LinkArgs) (m : Int) (ts : List Transaction) (p : Td) : Prop where
  within : p.Within a.size
  full : acksOf ts * m ≤ p.currentBufferPointer
  unfinished : acksOf ts = 0 ∨ p.currentBufferPointer < a.size
  errors : p.errorCount = errorsOf ts
  few : errorsOf ts ≤ 2
  work : workOf ts = acksOf ts + errorsOf ts

/-- What a descriptor may cost. -/
structure Cheap (a : LinkArgs) (m : Int) (ts : List Transaction) : Prop where
  acks : acksOf ts ≤ packetCount a.size m
  work : workOf ts ≤ packetCount a.size m + 2

section Exchange

variable {a : LinkArgs} {m : Int} {ts : List Transaction} {t : Transaction} {p p' : Td}

private theorem Moving.new (h : 0 ≤ a.size) (ht : a.td = .ok p) : Moving a m [] p := by
  obtain ⟨pid, rfl⟩ := LinkArgs.td_ok ht
  constructor
  · exact ⟨by simp [hcdGtdCreate], Int.le_refl _, h⟩
  · simp [acksOf, hcdGtdCreate]
  · exact .inl rfl
  · rfl
  · exact Nat.zero_le 2
  · rfl

private theorem Moving.room (h : Moving a m ts p) (hm : 0 < m) :
    acksOf ts + 1 ≤ packetCount a.size m := by
  apply succ_le_packetCount hm
  rcases h.unfinished with hzero | hlt
  · exact .inl hzero
  · exact .inr (Int.lt_of_le_of_lt h.full hlt)

private theorem Moving.cheap (h : Moving a m ts p) (hm : 0 < m) : Cheap a m ts := by
  have hroom := h.room hm
  have hfew := h.few
  have hwork := h.work
  constructor
  · omega
  · omega

private theorem Moving.advance {q : Td} {k : Packet} {c : EpdCore} {rlen : Int}
    {bytes : List UInt8} (hq : q.Within a.size) (hk : choosePacket c q = .ok k)
    (htaken : k.dirIn = false → rlen = k.size)
    (hkeep : (q.advance k rlen bytes).filled k c.maximumPacketSize rlen = false) :
    c.maximumPacketSize ≤ rlen ∧ q.currentBufferPointer + rlen < a.size := by
  have hend := hq.bufferEnd
  unfold Td.filled Td.advance at hkeep
  simp only [Bool.or_eq_false_iff, Bool.and_eq_false_iff, decide_eq_false_iff_not] at hkeep
  obtain ⟨hmore, hshort⟩ := hkeep
  refine ⟨?_, by omega⟩
  -- an OUT packet that is not the last one is full; a SETUP packet is the last one
  unfold choosePacket Td.buflen at hk
  split at hk
  · split at hk
    · obtain rfl := Except.ok.inj hk
      have hall : rlen = q.bufferEnd - q.currentBufferPointer + 1 := htaken rfl
      omega
    · cases hk
  · obtain rfl := Except.ok.inj hk
    have hall : rlen = min c.maximumPacketSize (q.bufferEnd - q.currentBufferPointer + 1) :=
      htaken rfl
    omega
  · obtain rfl := Except.ok.inj hk
    rcases hshort with hin | hlong
    · cases hin
    · omega

private theorem Moving.packet (h : Moving a m ts p) {ts' : List Transaction} {rlen : Int}
    (hwithin : p'.Within a.size) (hlong : m ≤ rlen)
    (hptr : p'.currentBufferPointer = p.currentBufferPointer + rlen)
    (hmore : p'.currentBufferPointer < a.size) (herr : p'.errorCount = errorsOf ts)
    (hcount : acksOf ts' = acksOf ts + 1) (hpaid : workOf ts' = workOf ts + 1)
    (hsame : errorsOf ts' = errorsOf ts) : Moving a m ts' p' := by
  have hfull := h.full
  have hfew := h.few
  have hwork := h.work
  refine ⟨hwithin, ?_, .inr hmore, ?_, ?_, ?_⟩
  · rw [hcount, hptr, Int.natCast_add, Int.add_mul, Int.natCast_one, Int.one_mul]
    omega
  · rw [hsame]
    exact herr
  · omega
  · omega

private theorem Moving.again (h : Moving a m ts p) {ts' : List Transaction}
    (hwithin : p'.Within a.size) (hptr : p'.currentBufferPointer = p.currentBufferPointer)
    (hcount : acksOf ts' = acksOf ts) (herr : p'.errorCount = errorsOf ts')
    (hfew : errorsOf ts' ≤ 2) (hwork : workOf ts' = acksOf ts' + errorsOf ts') :
    Moving a m ts' p' := by
  refine ⟨hwithin, ?_, ?_, herr, hfew, hwork⟩
  · rw [hcount, hptr]
    exact h.full
  · rw [hcount, hptr]
    exact h.unfinished

private theorem Moving.exchange (h : Moving a m ts p) (hm : 0 < m) {c : EpdCore} {w : EpdList}
    {r : Response} {fate : Fate} (hc : c.maximumPacketSize = m)
    (hx : c.exchange w p r = .ok (t, p', fate)) (hfits : t.response.Fits t.packet)
    (htaken : t.Taken) :
    if fate = .keep then Moving a m (ts ++ [t]) p' else Cheap a m (ts ++ [t]) := by
  have hwithin := h.within.exchange hx hfits
  obtain ⟨k, hk, hr, ht⟩ := EpdCore.exchange_ok hx
  have hq := h.within.loadToggle c.toggleCarry
  have hptr := (Td.loaded p c.toggleCarry).pointer
  have herr : (p.loadToggle c.toggleCarry).errorCount = errorsOf ts := by
    rw [Td.errorCount_loadToggle, h.errors]
  generalize p.loadToggle c.toggleCarry = q at hk hr ht hq hptr herr
  have hroom := h.room hm
  have hfew := h.few
  have hwork := h.work
  have hresp : t.response = r := by rw [ht]
  have hpacket : t.packet = k := by rw [ht]
  have hacks := acksOf_snoc ts t
  have hcost := workOf_snoc ts t
  have herrs := errorsOf_snoc ts t
  unfold Transaction.Taken at htaken
  rw [hresp] at hacks hcost herrs htaken
  rw [hpacket] at htaken
  cases r with
  | ack rlen bytes =>
    obtain ⟨rfl, hfate⟩ := Prod.mk.inj hr
    have hcount : acksOf (ts ++ [t]) = acksOf ts + 1 := hacks
    have hpaid : workOf (ts ++ [t]) = workOf ts + 1 := hcost
    have hsame : errorsOf (ts ++ [t]) = errorsOf ts := herrs
    by_cases hkeep : fate = .keep
    · rw [hkeep] at hfate
      have hnot : (q.advance k rlen bytes).filled k c.maximumPacketSize rlen = false := by
        by_contra hyes
        rw [if_pos (Bool.of_not_eq_false hyes)] at hfate
        cases hfate
      obtain ⟨hlong, hmore⟩ := Moving.advance hq hk htaken hnot
      rw [if_pos hkeep]
      exact h.packet hwithin (hc ▸ hlong) (congrArg (· + rlen) hptr) hmore herr hcount hpaid hsame
    · rw [if_neg hkeep]
      constructor
      · omega
      · omega
  | nak =>
    obtain ⟨rfl, rfl⟩ := Prod.mk.inj hr
    have hcount : acksOf (ts ++ [t]) = acksOf ts := hacks
    have hpaid : workOf (ts ++ [t]) = workOf ts := hcost
    have hsame : errorsOf (ts ++ [t]) = errorsOf ts := herrs
    rw [if_pos rfl]
    apply h.again hwithin hptr hcount
    · rw [hsame]
      exact herr
    · omega
    · omega
  | err =>
    have hcount : acksOf (ts ++ [t]) = acksOf ts := hacks
    have hpaid : workOf (ts ++ [t]) = workOf ts + 1 := hcost
    have hone : errorsOf (ts ++ [t]) = errorsOf ts + 1 := herrs
    rw [Td.respond] at hr
    split at hr
    · obtain ⟨rfl, rfl⟩ := Prod.mk.inj hr
      have hends : Fate.failed ≠ .keep := by decide
      rw [if_neg hends]
      constructor
      · omega
      · omega
    · next hne =>
      obtain ⟨rfl, rfl⟩ := Prod.mk.inj hr
      rw [if_pos rfl]
      apply h.again hwithin hptr hcount
      · rw [hone]
        exact congrArg (· + 1) herr
      · omega
      · omega
  | stall =>
    obtain ⟨rfl, rfl⟩ := Prod.mk.inj hr
    have hcount : acksOf (ts ++ [t]) = acksOf ts := hacks
    have hpaid : workOf (ts ++ [t]) = workOf ts + 1 := hcost
    have hends : Fate.stalled ≠ .keep := by decide
    rw [if_neg hends]
    constructor
    · omega
    · omega

private theorem moving_lives (h : 0 ≤ a.size) :
    Lives a (fun m ts p ↦ 0 < m → (∀ t ∈ ts, t.Taken) → Moving a m ts p)
      (fun m ts _ ↦ 0 < m → (∀ t ∈ ts, t.Taken) → Cheap a m ts) := by
  constructor
  · exact fun m td htd _ _ ↦ Moving.new h htd
  · intro c w p p' r t fate ts _ _ hfit hp hx
    have hnext : 0 < c.maximumPacketSize → (∀ u ∈ ts ++ [t], u.Taken) →
        if fate = .keep then Moving a c.maximumPacketSize (ts ++ [t]) p'
        else Cheap a c.maximumPacketSize (ts ++ [t]) := by
      intro hm htaken
      have hpast := hp hm fun u hu ↦ htaken u (List.mem_append_left _ hu)
      exact hpast.exchange hm rfl hx hfit (htaken t (by simp))
    split
    · next hf =>
      simp only [if_pos hf] at hnext
      exact hnext
    · next hf =>
      simp only [if_neg hf] at hnext
      exact hnext

end Exchange

/-! ### All descriptors -/

section Runs

variable {es : List HcdEvent}

/-- The packet size of the endpoint that a link goes to. -/
def linkedSize (es : List HcdEvent) (a : LinkArgs) : Int :=
  ((firstLink a.slot es).map LinkArgs.mps).getD 0

/-- Every descriptor is cheap. -/
theorem QueuesRun.cheap {q : Queues} (h : QueuesRun es q) {g : GtdPtr} {a : LinkArgs}
    (hlink : (g, a) ∈ links es) (hsize : 0 ≤ a.size) (hm : 0 < linkedSize es a)
    (hfits : ∀ t ∈ transactionsOf g es, t.response.Fits t.packet)
    (htaken : ∀ t ∈ transactionsOf g es, t.Taken) :
    Cheap a (linkedSize es a) (transactionsOf g es) := by
  obtain ⟨f, hf, hmps⟩ := h.packetSize_first ((QueuesRun.attended h).known _ hlink)
  have hlinked : linkedSize es a = (q.core a.slot).maximumPacketSize := by
    rw [linkedSize, hf, hmps]
    rfl
  rw [hlinked] at hm ⊢
  obtain ⟨p, hp | hp⟩ := h.lived (moving_lives hsize) hlink hfits
  · exact (hp hm htaken).cheap hm
  · exact hp hm htaken

private theorem sum_links {q : Queues} (hl : Ledger es q) {g : GtdPtr} (hg : g < q.nextGtd)
    (f : GtdPtr → Nat) (n : Nat) :
    ((links es).map fun l ↦ f l.1 + if l.1 = g then n else 0).sum =
      ((links es).map fun l ↦ f l.1).sum + n := by
  have hone : ((links es).map fun l ↦ if l.1 = g then n else 0).sum = n := by
    have hrange : ((links es).map fun l ↦ if l.1 = g then n else 0) =
        (List.range q.nextGtd).map fun y ↦ if y = g then n else 0 := by
      rw [← hl.issued, List.map_map]
      rfl
    rw [hrange, List.sum_map_eq_nsmul_single g _ fun y hy _ ↦ if_neg hy, if_pos rfl,
      List.count_eq_one_of_mem List.nodup_range (List.mem_range.mpr hg), one_nsmul]
  rw [List.sum_map_add, hone]

/-- The transactions of a history are those of its descriptors. -/
theorem QueuesRun.workOf_split {q : Queues} (h : QueuesRun es q) :
    workOf (transactions es) = ((links es).map fun l ↦ workOf (transactionsOf l.1 es)).sum := by
  refine Run.invariant (P := fun es _ ↦ workOf (transactions es) =
    ((links es).map fun l ↦ workOf (transactionsOf l.1 es)).sum) rfl ?_ h
  intro es a e b hrun ih hfire
  have hs : QueueStep a e b := queueStep_of_exec hfire
  have hl := QueuesRun.ledger hrun
  have hatt := QueuesRun.attended hrun
  have hquiet : HcdEvent.transaction e = none → HcdEvent.linked e = none →
      workOf (transactions (es ++ [e])) =
        ((links (es ++ [e])).map fun l ↦ workOf (transactionsOf l.1 (es ++ [e]))).sum := by
    intro hnone hlinked
    rw [transactions_snoc, hnone, links_snoc, hlinked, Option.toList_none, Option.toList_none,
      List.append_nil, List.append_nil, ih]
    simp only [transactionsOf_none _ es hnone]
  have hserve : ∀ {s : Slot} {x : Entry} {rest : List Entry} {t : Transaction} {w : EpdList}
      {epd : Option EpdPtr} {r : Response}, a.queue s = x :: rest → t.slot = s →
      e = (.send w epd r, .sent (some t)) → workOf (transactions (es ++ [e])) =
        ((links (es ++ [e])).map fun l ↦ workOf (transactionsOf l.1 (es ++ [e]))).sum := by
    rintro s x rest t w epd r hq hslot rfl
    have hlt : x.ptr < a.nextGtd := by
      apply hl.wf.bound (some s)
      rw [Queues.ptrs, Queues.place, hq]
      exact List.mem_cons_self
    have hmore : ∀ g, workOf (transactionsOf g (es ++ [(.send w epd r, .sent (some t))])) =
        workOf (transactionsOf g es) + if g = x.ptr then workOf [t] else 0 := by
      intro g
      rw [Attended.served hatt.pending g hq hslot]
      by_cases hg : x.ptr = g
      · rw [if_pos hg, if_pos hg.symm]
        exact List.countP_append ..
      · rw [if_neg hg, if_neg (Ne.symm hg), Nat.add_zero]
    have hall : transactions (es ++ [(.send w epd r, .sent (some t))]) =
        transactions es ++ [t] := by
      rw [transactions_snoc]
      rfl
    rw [links_send, hall]
    simp only [hmore]
    rw [sum_links hl hlt (fun g ↦ workOf (transactionsOf g es)), ← ih]
    exact List.countP_append ..
  cases hs with
  | @link args b₀ td hb ht =>
    -- a new descriptor has done nothing
    rw [transactions_snoc, links_link, List.map_append, List.sum_append]
    simp only [transactionsOf_none _ es (e := (.link args, .linked a.nextGtd)) rfl]
    rw [List.map_singleton, List.sum_singleton, hatt.fresh _ (Nat.le_refl _)]
    exact (congrArg workOf (List.append_nil _)).trans ih
  | idle => exact hquiet rfl rfl
  | stay hseek hq hx => exact hserve hq (hl.wf.transaction_slot hseek hx) rfl
  | retire hseek hq hx _ => exact hserve hq (hl.wf.transaction_slot hseek hx) rfl
  | empty => exact hquiet rfl rfl
  | complete => exact hquiet rfl rfl

/-- Work is bounded by what was asked for: in every run, if no endpoint was created for empty
packets, the answers fit, and a device that takes a packet takes all of it, the transactions that
were not put off are at most the packets of the transfers that were linked, and two more for each
of them. -/
theorem HcdRun.work_bounded {h : Hcd} (hrun : HcdRun es h) (hsize : ∀ l ∈ links es, 0 ≤ l.2.size)
    (hmps : ∀ l ∈ links es, 0 < l.2.mps) (hfits : ∀ e ∈ es, HcdEvent.Fits e)
    (htaken : ∀ t ∈ transactions es, t.Taken) :
    workOf (transactions es) ≤
      ((links es).map fun l ↦ packetCount l.2.size (linkedSize es l.2) + 2).sum := by
  obtain ⟨q, hq, -⟩ := hrun.queues
  rw [hq.workOf_split]
  apply List.sum_le_sum
  intro l hl
  have hm : 0 < linkedSize es l.2 := by
    obtain ⟨f, hf, -⟩ := hq.packetSize_first ((QueuesRun.attended hq).known _ hl)
    obtain ⟨l', hl', rfl⟩ := List.mem_map.mp (List.mem_of_find?_eq_some hf)
    rw [linkedSize, hf]
    exact hmps l' hl'
  exact (hq.cheap hl (hsize l hl) hm (fits_transactionsOf hfits l.1)
    fun t ht ↦ htaken t (transactionsOf_subset _ _ ht)).work

end Runs

private def readAndWrite : List HcdOp :=
  let next (r : Response) : HcdOp := .send .bulk (some 0) r
  [.link ⟨1, 2, true, false, 2, 2, [0, 0, 0], 3, ⟨10, 3⟩⟩, next .nak, next .err, next .err,
    next (.ack 2 [5, 6]), next (.ack 1 [7]),
    .link ⟨1, 0, false, true, 0, 8, [0, 9, 1, 0, 0, 0, 0, 0], 8, ⟨11, 8⟩⟩,
    .send .control (some 0) (.ack 8 [])]

/-- Five transactions and retirements keep to the bound. -/
theorem HcdRun.work_bounded_five : ∃ es h, HcdRun es h ∧ workOf (transactions es) = 5 ∧
    workOf (transactions es) ≤
      ((links es).map fun l ↦ packetCount l.2.size (linkedSize es l.2) + 2).sum := by
  have hcheck : runsTo hcdExec hcdInit readAndWrite (fun _ es ↦ decide (
      workOf (transactions es) = 5 ∧ (∀ l ∈ links es, 0 ≤ l.2.size) ∧
      (∀ l ∈ links es, 0 < l.2.mps) ∧ (∀ e ∈ es, HcdEvent.Fits e) ∧
      ∀ t ∈ transactions es, t.Taken)) = true := by decide +kernel
  obtain ⟨es, h, hrun, hp⟩ := Run.of_runsTo hcheck
  obtain ⟨hfive, hsize, hmps, hfits, htaken⟩ := of_decide_eq_true hp
  exact ⟨es, h, hrun, hfive, HcdRun.work_bounded hrun hsize hmps hfits htaken⟩

end BiMpp.Host
