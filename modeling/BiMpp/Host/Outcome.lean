import BiMpp.Host.Reassembly

/-!
# How a descriptor ends

Whatever its direction, a descriptor ends with an ACK, a STALL or its third error:
`hcd_gtd_send`, `bi-mpp-pic24-usb-simulator-master/src/hcd.c:205–241`. Where every
descriptor has a URB of its own, its transactions are those of the URB.
-/

namespace BiMpp.Host
open BiMpp.Usb BiMpp.Base

/-! ### The last transaction -/

/-- The transactions of a queued descriptor: no STALL, at most two errors, and none that
retired it. -/
structure Unfinished (ts : List Transaction) : Prop where
  few : errorsOf ts ≤ 2
  stalls : ∀ t ∈ ts, t.response ≠ .stall
  unretired : ∀ t ∈ ts, t.retired = none

/-- The transactions of a retired descriptor: the last one retired it, and it was no NAK,
and no error unless there were two before. -/
def Ended (ts : List Transaction) : Prop :=
  ∃ past t, ts = past ++ [t] ∧ Unfinished past ∧ t.retired.isSome = true ∧ t.response ≠ .nak ∧
    (t.response = .err → errorsOf past = 2)

private theorem errorsOf_quiet {ts : List Transaction} {t : Transaction}
    (h : t.response.isErr = false) : errorsOf (ts ++ [t]) = errorsOf ts := by
  rw [errorsOf_snoc, h]
  rfl

/-- A descriptor ends with an ACK exactly if the device never stalled it and failed it at
most twice. -/
theorem Ended.ack_iff {ts : List Transaction} (h : Ended ts) :
    (∃ t ∈ ts, t.retired.isSome = true ∧ t.response.isAck = true) ↔
      (∀ t ∈ ts, t.response ≠ .stall) ∧ errorsOf ts ≤ 2 := by
  obtain ⟨past, t, rfl, hpast, hret, hnak, herr⟩ := h
  constructor
  · rintro ⟨u, hu, huret, huack⟩
    have hut : u = t := by
      rcases List.mem_append.mp hu with hu | hu
      · rw [hpast.unretired u hu] at huret
        cases huret
      · exact List.mem_singleton.mp hu
    subst hut
    constructor
    · intro v hv
      rcases List.mem_append.mp hv with hv | hv
      · exact hpast.stalls v hv
      · rw [List.mem_singleton.mp hv]
        intro hstall
        rw [hstall] at huack
        cases huack
    · have hne : u.response.isErr = false := by
        cases hr : u.response with
        | err =>
          rw [hr] at huack
          cases huack
        | _ => rfl
      rw [errorsOf_quiet hne]
      exact hpast.few
  · rintro ⟨hstall, hfew⟩
    have hmem : t ∈ past ++ [t] := List.mem_append_right _ (List.mem_singleton_self t)
    refine ⟨t, hmem, hret, ?_⟩
    cases hr : t.response with
    | ack rlen bytes => rfl
    | nak => exact absurd hr hnak
    | err =>
      have hthree : errorsOf (past ++ [t]) = 3 := by
        rw [errorsOf_snoc, herr hr, hr]
        rfl
      omega
    | stall => exact absurd hr (hstall t hmem)

private def Counted (_ : Int) (ts : List Transaction) (p : Td) : Prop :=
  Unfinished ts ∧ p.errorCount = errorsOf ts

private theorem lives_counted (args : LinkArgs) :
    Lives args Counted fun _ ts _ ↦ Ended ts := by
  constructor
  · intro m td htd
    obtain ⟨pid, rfl⟩ := LinkArgs.td_ok htd
    exact ⟨⟨Nat.zero_le 2, by simp, by simp⟩, rfl⟩
  · intro c w p p' r t fate ts _ _ _ hp hx
    obtain ⟨hun, hcount⟩ := hp
    obtain ⟨k, -, hr, ht⟩ := EpdCore.exchange_ok hx
    have hload : (p.loadToggle c.toggleCarry).errorCount = errorsOf ts := by
      rw [Td.errorCount_loadToggle, hcount]
    have hresp : t.response = r := by rw [ht]
    split
    · next hf =>
      have hret : t.retired = none := by
        rw [ht]
        exact if_pos hf
      have hkeep : r ≠ .stall ∧ p'.errorCount = errorsOf (ts ++ [t]) ∧
          errorsOf (ts ++ [t]) ≤ 2 := by
        rw [hf] at hr
        have hfew := hun.few
        cases r with
        | ack rlen bytes =>
          obtain ⟨rfl, -⟩ := Prod.mk.inj hr
          rw [errorsOf_quiet (by rw [hresp]; rfl)]
          exact ⟨by simp, hload, hfew⟩
        | nak =>
          obtain ⟨rfl, -⟩ := Prod.mk.inj hr
          rw [errorsOf_quiet (by rw [hresp]; rfl)]
          exact ⟨by simp, hload, hfew⟩
        | err =>
          have hone : errorsOf (ts ++ [t]) = errorsOf ts + 1 := by
            rw [errorsOf_snoc, hresp]
            rfl
          rw [Td.respond] at hr
          split at hr
          · cases (Prod.mk.inj hr).2
          · next hne =>
            obtain ⟨rfl, -⟩ := Prod.mk.inj hr
            rw [hone]
            refine ⟨by simp, ?_, by omega⟩
            show (p.loadToggle c.toggleCarry).errorCount + 1 = errorsOf ts + 1
            rw [hload]
        | stall => cases (Prod.mk.inj hr).2
      refine ⟨⟨hkeep.2.2, ?_, ?_⟩, hkeep.2.1⟩
      · intro u hu
        rcases List.mem_append.mp hu with hu | hu
        · exact hun.stalls u hu
        · rw [List.mem_singleton.mp hu, hresp]
          exact hkeep.1
      · intro u hu
        rcases List.mem_append.mp hu with hu | hu
        · exact hun.unretired u hu
        · rw [List.mem_singleton.mp hu]
          exact hret
    · next hf =>
      refine ⟨ts, t, rfl, hun, ?_, ?_, ?_⟩
      · rw [ht]
        simp [hf]
      · rw [hresp]
        rintro rfl
        exact hf (Prod.mk.inj hr).2.symm
      · rw [hresp]
        rintro rfl
        rw [Td.respond] at hr
        split at hr
        · next htwo => rw [← hload, htwo]
        · exact absurd (Prod.mk.inj hr).2.symm hf

/-- A completed descriptor has ended. -/
theorem QueuesRun.ended {es : List HcdEvent} {a : Queues} (h : QueuesRun es a) {g : GtdPtr}
    {args : LinkArgs} (hlink : (g, args) ∈ links es)
    (hfits : ∀ t ∈ transactionsOf g es, t.response.Fits t.packet) {c : Completion}
    (hc : c ∈ completions es) (hg : c.gtd = g) : Ended (transactionsOf g es) := by
  obtain ⟨p, hp, -⟩ := (h.living (lives_counted args) hlink hfits).completed c hc hg
  exact hp

/-! ### The transactions of a URB -/

/-- The transactions made for a URB. -/
def transactionsFor (v : Nat) (es : List HcdEvent) : List Transaction :=
  (transactions es).filter fun t ↦ t.urb = v

private theorem transactionsFor_snoc (v : Nat) (es : List HcdEvent) (e : HcdEvent) :
    transactionsFor v (es ++ [e]) =
      transactionsFor v es ++ ((HcdEvent.transaction e).filter fun t ↦ t.urb = v).toList := by
  rw [transactionsFor, transactions_snoc, List.filter_append]
  cases HcdEvent.transaction e with
  | none => rfl
  | some t => by_cases ht : t.urb = v <;> simp [transactionsFor, ht, Option.filter]

section Urb

variable {es : List HcdEvent} {e : HcdEvent} {g : GtdPtr} {v : Nat}

private theorem unserved (es : List HcdEvent) (g : GtdPtr) (v : Nat)
    (h : HcdEvent.transaction e = none) :
    transactionsOf g (es ++ [e]) = transactionsOf g es ∧
      transactionsFor v (es ++ [e]) = transactionsFor v es := by
  refine ⟨transactionsOf_none g es h, ?_⟩
  rw [transactionsFor_snoc, h]
  exact List.append_nil _

private theorem served {a : Queues} (hl : Ledger es a) (hatt : Attended es a)
    (hown : (issuedUrbs es).Nodup) {l : GtdPtr × LinkArgs} (hlink : l ∈ links es)
    (hsame : transactionsOf l.1 es = transactionsFor l.2.urb.id es) {s : Slot}
    {x : Entry} {q : List Entry} {t : Transaction} {epd : Option EpdPtr} {r : Response}
    (hq : a.queue s = x :: q) (hslot : t.slot = s) (ht : t.urb = x.td.urb.id) :
    transactionsOf l.1 (es ++ [(.send s.list epd r, .sent (some t))]) =
      transactionsFor l.2.urb.id (es ++ [(.send s.list epd r, .sent (some t))]) := by
  have hx : x ∈ a.place (some s) := by
    rw [Queues.place, hq]
    exact List.mem_cons_self
  obtain ⟨args, hxl, -, hxurb⟩ := hl.entry (some s) x hx
  have hiff : x.ptr = l.1 ↔ t.urb = l.2.urb.id := by
    rw [ht, ← hxurb]
    constructor
    · intro hptr
      have hl' : (x.ptr, l.2) ∈ links es := hptr ▸ hlink
      rw [hl.linked_unique hxl hl']
    · intro hid
      exact congrArg Prod.fst (Ledger.link_of_urb hown hxl hlink hid)
  rw [Attended.served hatt.pending l.1 hq hslot, transactionsFor_snoc, hsame]
  by_cases hptr : x.ptr = l.1
  · have hid := hiff.mp hptr
    rw [if_pos hptr]
    simp [HcdEvent.transaction, Option.filter, hid]
  · have hid : ¬ t.urb = l.2.urb.id := fun h ↦ hptr (hiff.mpr h)
    rw [if_neg hptr]
    simp [HcdEvent.transaction, Option.filter, hid]

/-- Where every descriptor has a URB of its own, its transactions are the URB's. -/
theorem QueuesRun.transactionsOf_eq {a : Queues} (h : QueuesRun es a)
    (hown : (issuedUrbs es).Nodup) {l : GtdPtr × LinkArgs} (hlink : l ∈ links es) :
    transactionsOf l.1 es = transactionsFor l.2.urb.id es := by
  refine Run.invariant (P := fun es _ ↦ (issuedUrbs es).Nodup → ∀ l ∈ links es,
    transactionsOf l.1 es = transactionsFor l.2.urb.id es) ?_ ?_ h hown l hlink
  · intro _ l hl
    cases hl
  · intro es a e b hrun ih hfire hnd l hl
    have hnd' := hnd.sublist (issuedUrbs_mono es e).sublist
    have hstep : QueueStep a e b := queueStep_of_exec hfire
    have hledger := QueuesRun.ledger hrun
    have hatt := QueuesRun.attended hrun
    have hold : HcdEvent.transaction e = none → l ∈ links es →
        transactionsOf l.1 (es ++ [e]) = transactionsFor l.2.urb.id (es ++ [e]) := by
      intro hnone hl
      obtain ⟨h1, h2⟩ := unserved es l.1 l.2.urb.id hnone
      rw [h1, h2]
      exact ih hnd' l hl
    cases hstep with
    | @link args b₀ t hb ht =>
      rw [links_link] at hl
      rcases List.mem_append.mp hl with hl | hl
      · exact hold rfl hl
      · obtain rfl := List.mem_singleton.mp hl
        -- a new descriptor, with a URB that no transaction was made for
        have hfresh := (QueuesRun.account hrun hnd').fresh hnd
        obtain ⟨h1, h2⟩ := unserved es a.nextGtd args.urb.id
          (e := (.link args, .linked a.nextGtd)) rfl
        rw [h1, h2, hatt.fresh _ (Nat.le_refl _)]
        symm
        rw [transactionsFor, List.filter_eq_nil_iff]
        simpa using hfresh
    | idle _ =>
      rw [links_send] at hl
      exact hold rfl hl
    | stay hseek hq hx =>
      rw [links_send] at hl
      exact served hledger hatt hnd' hl (ih hnd' l hl) hq (hledger.wf.transaction_slot hseek hx)
        (EpdCore.exchange_owner hx)
    | retire hseek hq hx _ =>
      rw [links_send] at hl
      exact served hledger hatt hnd' hl (ih hnd' l hl) hq (hledger.wf.transaction_slot hseek hx)
        (EpdCore.exchange_owner hx)
    | empty _ =>
      rw [links_process] at hl
      exact hold rfl hl
    | complete _ =>
      rw [links_process] at hl
      exact hold rfl hl

end Urb

end BiMpp.Host
