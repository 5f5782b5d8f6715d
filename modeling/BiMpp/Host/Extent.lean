import BiMpp.Host.Descriptor

/-!
# Inside the buffer

The pointer of a descriptor moves over its buffer and never leaves it, and no packet asks for
more than is left: `hcd_gtd_send`, `bi-mpp-pic24-usb-simulator-master/src/hcd.c:159–221`.
-/

namespace BiMpp.Host
open BiMpp.Usb BiMpp.Base

/-- A packet goes to the endpoint's number. -/
theorem choosePacket_number {c : EpdCore} {p : Td} {k : Packet} (h : choosePacket c p = .ok k) :
    k.endpointNumber = c.endpointNumber := by
  unfold choosePacket at h
  split at h
  · split at h
    · obtain rfl := Except.ok.inj h
      rfl
    · exact nomatch h
  · obtain rfl := Except.ok.inj h
    rfl
  · obtain rfl := Except.ok.inj h
    rfl

/-- A packet comes from the endpoint of its descriptor and has no negative size. -/
theorem choosePacket_nonneg {c : EpdCore} {p : Td} {k : Packet} (h : choosePacket c p = .ok k)
    (hm : 0 ≤ c.maximumPacketSize) (hp : 0 ≤ p.buflen) :
    0 ≤ k.size ∧ k.endpointNumber = c.endpointNumber := by
  unfold choosePacket at h
  split at h
  · split at h
    · obtain rfl := Except.ok.inj h
      exact ⟨hp, rfl⟩
    · exact nomatch h
  · obtain rfl := Except.ok.inj h
    exact ⟨Int.le_min.mpr ⟨hm, hp⟩, rfl⟩
  · obtain rfl := Except.ok.inj h
    exact ⟨hp, rfl⟩

private theorem within_lives {a : LinkArgs} (h : 0 ≤ a.size) :
    Lives a (fun _ _ p ↦ p.Within a.size) (fun _ _ p ↦ p.Within a.size) := by
  constructor
  · intro m td htd
    obtain ⟨pid, rfl⟩ := LinkArgs.td_ok htd
    exact ⟨by simp [hcdGtdCreate], Int.le_refl _, h⟩
  · intro c w p p' r t fate ts hkey hcarry hfit hp hx
    rw [ite_self]
    exact hp.exchange hx hfit

section Run

variable {es : List HcdEvent}

/-- What was served was answered in some event. -/
theorem fits_transactionsOf (hfits : ∀ e ∈ es, HcdEvent.Fits e) (g : GtdPtr) :
    ∀ t ∈ transactionsOf g es, t.response.Fits t.packet := by
  induction es using List.reverseRecOn with
  | nil => exact fun t ht ↦ (List.not_mem_nil ht).elim
  | append_singleton es e ih =>
    intro t ht
    rw [transactionsOf_snoc] at ht
    rcases List.mem_append.mp ht with ht | ht
    · exact ih (fun e' he' ↦ hfits e' (List.mem_append_left _ he')) t ht
    · have hserved := Option.mem_toList.mp ht
      unfold HcdEvent.servedFor at hserved
      exact hfits e (by simp) t (Option.filter_eq_some_iff.mp hserved).1

/-- Every descriptor there is was linked, and is inside the buffer it was linked with. -/
theorem QueuesRun.within {a : Queues} (h : QueuesRun es a) (hsize : ∀ l ∈ links es, 0 ≤ l.2.size)
    (hfits : ∀ e ∈ es, HcdEvent.Fits e) {pl : Option Slot} {x : Entry} (hx : x ∈ a.place pl) :
    ∃ args, (x.ptr, args) ∈ links es ∧ args.slot = x.owner ∧ x.td.Within args.size := by
  obtain ⟨args, hlink, howner, -⟩ := (QueuesRun.ledger h).entry pl x hx
  have hlive := h.living (within_lives (hsize _ hlink)) hlink (fits_transactionsOf hfits x.ptr)
  refine ⟨args, hlink, howner, ?_⟩
  cases pl with
  | none => exact hlive.done x hx rfl
  | some s => exact hlive.queued s x hx rfl

/-- The packet size of an endpoint was checked when it was created. -/
theorem QueuesRun.mps_nonneg {a : Queues} (h : QueuesRun es a) :
    ∀ s, a.Known s → 0 ≤ (a.core s).maximumPacketSize := by
  refine Run.invariant (P := fun _ a ↦ ∀ s, a.Known s → 0 ≤ (a.core s).maximumPacketSize) ?_ ?_ h
  · intro s hk
    exact (List.not_mem_nil hk).elim
  · intro es a e b hrun ih hfire s hk
    have hstep : QueueStep a e b := queueStep_of_exec hfire
    rcases core_cases hstep hk with hka | ⟨args, c, -, -, hc, hcore⟩
    · rw [(core_step hstep hka).2.mps]
      exact ih s hka
    · rw [hcore]
      unfold hcdEpdCreate at hc
      split at hc
      · next hb =>
        cases hc
        exact hb.2.2.1
      · cases hc

/-- What every exchange of a queued descriptor shows, as long as it keeps the descriptor in a
condition that a link gives it, holds of all its transactions. -/
theorem QueuesRun.all_transactions {a : Queues} (h : QueuesRun es a) {I : Td → Prop}
    {P : Transaction → Prop} {args : LinkArgs} (hnew : ∀ td, args.td = .ok td → I td)
    (hserve : ∀ {c : EpdCore} {w : EpdList} {p p' : Td} {r : Response} {t : Transaction}
      {fate : Fate}, 0 ≤ c.maximumPacketSize → t.response.Fits t.packet → I p →
      c.exchange w p r = .ok (t, p', fate) → P t ∧ (fate = .keep → I p'))
    {g : GtdPtr} (hlink : (g, args) ∈ links es)
    (hfits : ∀ t ∈ transactionsOf g es, t.response.Fits t.packet) :
    ∀ t ∈ transactionsOf g es, P t := by
  have hrule : Lives args (fun m ts p ↦ 0 ≤ m → I p ∧ ∀ t ∈ ts, P t)
      (fun m ts _ ↦ 0 ≤ m → ∀ t ∈ ts, P t) := by
    constructor
    · exact fun m td htd _ ↦ ⟨hnew td htd, fun t ht ↦ (List.not_mem_nil ht).elim⟩
    · intro c w p p' r t fate ts _ _ hfit hp hx
      have hall : 0 ≤ c.maximumPacketSize →
          (fate = .keep → I p') ∧ ∀ u ∈ ts ++ [t], P u := by
        intro hm
        obtain ⟨hI, hts⟩ := hp hm
        obtain ⟨ht, hkeep⟩ := hserve hm hfit hI hx
        refine ⟨hkeep, fun u hu ↦ ?_⟩
        rcases List.mem_append.mp hu with hu | hu
        · exact hts u hu
        · rw [List.mem_singleton.mp hu]
          exact ht
      split
      · next hf => exact fun hm ↦ ⟨(hall hm).1 hf, (hall hm).2⟩
      · exact fun hm ↦ (hall hm).2
  have hm := h.mps_nonneg args.slot ((QueuesRun.attended h).known _ hlink)
  obtain ⟨p, hp | hp⟩ := h.lived hrule hlink hfits
  · exact (hp hm).2
  · exact hp hm

/-- A transaction of the descriptor at `g`, linked with `a`, for bytes of its buffer. -/
structure Reaches (es : List HcdEvent) (e : HcdEvent) (t : Transaction) (g : GtdPtr)
    (a : LinkArgs) : Prop where
  linked : (g, a) ∈ links es
  served : transactionsOf g (es ++ [e]) = transactionsOf g es ++ [t]
  number : t.packet.endpointNumber = a.endpoint
  start : 0 ≤ t.offset
  size : 0 ≤ t.packet.size
  stop : t.offset + t.packet.size ≤ a.size

/-- Every transaction is one of a descriptor, for bytes of its buffer. -/
theorem HcdRun.reaches {h h' : Hcd} (hrun : HcdRun es h) (hsize : ∀ l ∈ links es, 0 ≤ l.2.size)
    (hfits : ∀ e ∈ es, HcdEvent.Fits e) {e : HcdEvent} (hstep : Fires hcdExec h e h')
    {t : Transaction} (ht : HcdEvent.transaction e = some t) : ∃ g a, Reaches es e t g a := by
  obtain ⟨a, ha, hr⟩ := hrun.queues
  obtain ⟨b, hb, -⟩ := (hr.agree e.1).left_ok hstep
  have hs : QueueStep a e b := queueStep_of_exec hb
  have hl := QueuesRun.ledger ha
  have hserve : ∀ {s : Slot} {x : Entry} {q : List Entry} {epd : Option EpdPtr} {r : Response}
      {p : Td} {fate : Fate}, a.seek s.list epd = .ok (some s) → a.queue s = x :: q →
      (a.core s).exchange s.list x.td r = .ok (t, p, fate) →
      ∃ g a, Reaches es (.send s.list epd r, .sent (some t)) t g a := by
    intro s x q epd r p fate hseek hq hx
    have hmem : x ∈ a.place (some s) := by
      rw [Queues.place, hq]
      exact List.mem_cons_self
    obtain ⟨args, hlink, howner, hwithin⟩ := ha.within hsize hfits hmem
    have hknown : a.Known s := by
      by_contra hno
      rw [Queues.place, hl.wf.unknown s hno] at hmem
      exact List.not_mem_nil hmem
    have hnumber : (a.core s).endpointNumber = args.endpoint := by
      have hslot : args.slot = s := howner.trans (hl.wf.owner s x hmem)
      have hname := congrArg EpdKey.endpointNumber (hl.wf.named s hknown)
      rw [← hslot] at hname ⊢
      exact hname
    obtain ⟨k, hk, -, rfl⟩ := EpdCore.exchange_ok hx
    have hload := hwithin.loadToggle (a.core s).toggleCarry
    have hbuflen := hload.buflen
    have hupper := choosePacket_size hk
    have hstop := hload.stop
    obtain ⟨hlower, hn⟩ := choosePacket_nonneg hk (ha.mps_nonneg s hknown) (by omega)
    refine ⟨x.ptr, args, hlink, ?_, hn.trans hnumber, hload.start, hlower, ?_⟩
    · rw [Attended.served (QueuesRun.attended ha).pending x.ptr hq
        (hl.wf.transaction_slot hseek hx), if_pos rfl]
    · show (x.td.loadToggle _).currentBufferPointer + k.size ≤ _
      omega
  cases hs with
  | link => cases ht
  | idle => cases ht
  | stay hseek hq hx =>
    cases ht
    exact hserve hseek hq hx
  | retire hseek hq hx _ =>
    cases ht
    exact hserve hseek hq hx
  | empty => cases ht
  | complete => cases ht

/-- A packet goes to the endpoint that its transaction names. -/
theorem HcdRun.packet_endpoint {h h' : Hcd} (hrun : HcdRun es h) {e : HcdEvent}
    (hstep : Fires hcdExec h e h') {t : Transaction} (ht : HcdEvent.transaction e = some t) :
    t.packet.endpointNumber = t.key.endpointNumber := by
  obtain ⟨a, -, hr⟩ := hrun.queues
  obtain ⟨b, hb, -⟩ := (hr.agree e.1).left_ok hstep
  have hs : QueueStep a e b := queueStep_of_exec hb
  have hserve : ∀ {c : EpdCore} {w : EpdList} {p p' : Td} {r : Response} {fate : Fate},
      c.exchange w p r = .ok (t, p', fate) → t.packet.endpointNumber = t.key.endpointNumber := by
    intro c w p p' r fate hx
    obtain ⟨k, hk, -, rfl⟩ := EpdCore.exchange_ok hx
    exact choosePacket_number hk
  cases hs with
  | link => cases ht
  | idle => cases ht
  | stay _ _ hx =>
    cases ht
    exact hserve hx
  | retire _ _ hx _ =>
    cases ht
    exact hserve hx
  | empty => cases ht
  | complete => cases ht

/-- Every packet of a run goes to the endpoint that its transaction names. -/
theorem HcdRun.packets_named {h : Hcd} (hrun : HcdRun es h) :
    ∀ t ∈ transactions es, t.packet.endpointNumber = t.key.endpointNumber := by
  refine Run.invariant (P := fun es _ ↦ ∀ t ∈ transactions es,
    t.packet.endpointNumber = t.key.endpointNumber) (fun t ht ↦ (List.not_mem_nil ht).elim) ?_ hrun
  intro es s e s' hpast ih hfire t ht
  rw [transactions_snoc] at ht
  rcases List.mem_append.mp ht with ht | ht
  · exact ih t ht
  · exact HcdRun.packet_endpoint hpast hfire (Option.mem_toList.mp ht)

/-- The pointer of a descriptor in the heap is inside the buffer it was linked with. -/
theorem HcdRun.within {h : Hcd} (hrun : HcdRun es h) (hsize : ∀ l ∈ links es, 0 ≤ l.2.size)
    (hfits : ∀ e ∈ es, HcdEvent.Fits e) {g : GtdPtr} {n : Gtd} (hn : h.heap g = some n) :
    ∃ a, (g, a) ∈ links es ∧ n.toTd.Within a.size := by
  obtain ⟨a, ha, hr⟩ := hrun.queues
  obtain ⟨pl, hpl⟩ := hr.live g (by rw [hn]; exact nofun)
  obtain ⟨x, hx, rfl⟩ := List.mem_map.mp hpl
  obtain ⟨m, hm, hmx⟩ := hr.cells pl x hx
  obtain rfl := Option.some.inj (hn.symm.trans hm)
  obtain ⟨args, hlink, -, hwithin⟩ := ha.within hsize hfits hx
  exact ⟨args, hlink, hmx ▸ hwithin⟩

end Run

end BiMpp.Host
