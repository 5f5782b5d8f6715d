import BiMpp.Host.Transfers
import BiMpp.Usbip.System

/-!
# Who holds a request

Every request is with one thread, or with the controller as a direct transfer; its
transfer descriptors are linked once each, in the order of its stages; and a thread past
a stage has its completion. `Held`, `Issued` and `Progress` say so of every reachable
state.
-/

namespace BiMpp.Usbip
open BiMpp.Usb BiMpp.Base BiMpp.Host

/-- The request a thread is busy with. -/
def Pc.held : Pc → Option (Nat × Urb)
  | idle => none
  | insert u b => some (u, b)
  | link u b _ => some (u, b)
  | wait u b _ _ => some (u, b)
  | reply u b => some (u, b)
  | payload u b => some (u, b)
  | free u b => some (u, b)

/-- The stage a thread is at. -/
def Pc.stage : Pc → Option Stage
  | link _ _ st => some st
  | wait _ _ st _ => some st
  | _ => none

/-- The stages of a request whose descriptors may be linked have codes below this. -/
def Pc.linkedBelow : Pc → Nat
  | idle => 0
  | insert _ _ => 0
  | link _ _ st => st.code
  | wait _ _ st _ => st.code + 1
  | _ => 4

/-- The stages of a request with codes below this are completed. -/
def Pc.doneBelow : Pc → Nat
  | idle => 0
  | insert _ _ => 0
  | link _ _ st => st.code
  | wait _ _ st none => st.code
  | wait _ _ st (some _) => st.code + 1
  | _ => 4

/-- The request an event begins. -/
def ServerEvent.request : ServerEvent → Option (Nat × CmdSubmit)
  | (.start _ submit _ _, .started u) => some (u, submit)
  | _ => none

/-- The CMD_SUBMIT an event receives. -/
def ServerEvent.received : ServerEvent → Option (Nat × CmdSubmit)
  | (.start .accept submit _ _, .started u) => some (u, submit)
  | _ => none

/-- The requests of a history, of both threads. -/
def requests (es : List ServerEvent) : List (Nat × CmdSubmit) :=
  es.filterMap ServerEvent.request

/-- The CMD_SUBMITs of a history. -/
def received (es : List ServerEvent) : List (Nat × CmdSubmit) :=
  es.filterMap ServerEvent.received

/-- What is received is begun. -/
theorem ServerEvent.request_of_received {e : ServerEvent} {r : Nat × CmdSubmit}
    (h : ServerEvent.received e = some r) : ServerEvent.request e = some r := by
  unfold received at h
  split at h
  · exact h
  · exact nomatch h

/-- A step of the controller begins no request. -/
theorem ServerEvent.request_loop (op : ServerOp) (x : LoopEvent) :
    ServerEvent.request (op, .loop x) = none ∧ ServerEvent.received (op, .loop x) = none := by
  cases op with
  | start t => cases t <;> exact ⟨rfl, rfl⟩
  | _ => exact ⟨rfl, rfl⟩

section Snoc

variable (es : List ServerEvent) (e : ServerEvent)

/-- The requests after one more event. -/
theorem requests_snoc : requests (es ++ [e]) = requests es ++ (ServerEvent.request e).toList := by
  unfold requests
  rw [List.filterMap_append]
  cases h : ServerEvent.request e <;> simp [h]

/-- The requests of the client after one more event. -/
theorem received_snoc : received (es ++ [e]) = received es ++ (ServerEvent.received e).toList := by
  unfold received
  rw [List.filterMap_append]
  cases h : ServerEvent.received e <;> simp [h]

end Snoc

/-! ### Stages -/

/-- When a request has a stage. -/
def CmdSubmit.Has (c : CmdSubmit) : Stage → Prop
  | .setup => c.isControl = true
  | .data => c.isControl = true ∧ 0 < c.wLength
  | .status => c.isControl = true
  | .direct => c.isControl = false

/-- The stages listed are the stages a request has. -/
theorem CmdSubmit.mem_stages (c : CmdSubmit) (st : Stage) : st ∈ c.stages ↔ c.Has st := by
  unfold stages
  split <;> rename_i hc
  · split <;> rename_i hw <;> cases st <;> simp [Has, hc, hw]
  · cases st <;> simp [Has, hc]

/-- A request has its first stage. -/
theorem CmdSubmit.firstStage_mem (c : CmdSubmit) : c.firstStage ∈ c.stages := by
  rw [mem_stages, firstStage]
  split
  · next h => exact h
  · next h => exact Bool.eq_false_iff.mpr h

private theorem CmdSubmit.nextStage_mem {c : CmdSubmit} {st st' : Stage} (h : st ∈ c.stages)
    (hn : c.nextStage st = some st') : st' ∈ c.stages := by
  rw [mem_stages] at h ⊢
  cases st <;> simp only [nextStage] at hn
  · split at hn
    · next hw =>
      obtain rfl := Option.some.inj hn
      exact ⟨h, hw⟩
    · obtain rfl := Option.some.inj hn
      exact h
  · obtain rfl := Option.some.inj hn
    exact h.1
  · exact nomatch hn
  · exact nomatch hn

/-- No stage of a request lies between one and the next. -/
theorem CmdSubmit.nextStage_code {c : CmdSubmit} {st st' : Stage}
    (hn : c.nextStage st = some st') :
    st.code < st'.code ∧ ∀ st'' ∈ c.stages, st''.code < st'.code → st''.code < st.code + 1 := by
  cases st <;> simp only [nextStage] at hn
  · split at hn
    · obtain rfl := Option.some.inj hn
      exact ⟨by decide, fun _ _ hlt ↦ hlt⟩
    · next hw =>
      obtain rfl := Option.some.inj hn
      refine ⟨by decide, fun st'' hm hlt ↦ ?_⟩
      rw [mem_stages] at hm
      cases st'' with
      | setup => decide
      | data => exact absurd hm.2 hw
      | status => exact absurd hlt (by decide)
      | direct => exact absurd hlt (by decide)
  · obtain rfl := Option.some.inj hn
    exact ⟨by decide, fun _ _ hlt ↦ hlt⟩
  · exact nomatch hn
  · exact nomatch hn

/-- The last stage of a request has the highest code. -/
theorem CmdSubmit.lastStage_code {c : CmdSubmit} {st : Stage} (h : st ∈ c.stages)
    (hn : c.nextStage st = none) : ∀ st' ∈ c.stages, st'.code < st.code + 1 := by
  intro st' hm
  rw [mem_stages] at h hm
  cases st <;> simp only [nextStage] at hn
  · split at hn <;> exact nomatch hn
  · exact nomatch hn
  · cases st' with
    | setup => decide
    | data => decide
    | status => decide
    | direct => simp [Has] at h hm; simp [h] at hm
  · cases st' <;> decide

/-! ### Who has it -/

/-- Every request is with one thread or, as a direct transfer, with the controller. -/
structure Held (es : List ServerEvent) (s : Server) : Prop where
  ids : (requests es).map Prod.fst = List.range s.nextUrb
  mine : ∀ t u b, (s.pc t).held = some (u, b) → (u, b.submit) ∈ requests es
  client : ∀ t u b, t ≠ .system → (s.pc t).held = some (u, b) → (u, b.submit) ∈ received es
  host : ∀ u b, (s.pc .system).held = some (u, b) → b.submit.isControl = true
  staged : ∀ t u b st, (s.pc t).held = some (u, b) → (s.pc t).stage = some st →
    st ∈ b.submit.stages
  parked : ∀ u b, s.direct u = some b → (u, b.submit) ∈ received es ∧
    b.submit.isControl = false
  apart : ∀ t t' u b b', (s.pc t).held = some (u, b) → (s.pc t').held = some (u, b') → t = t'
  apartDirect : ∀ t u b b', (s.pc t).held = some (u, b) → s.direct u ≠ some b'

/-- A thread that was moved is where it was moved to, the others where they were. -/
@[simp] theorem Server.pc_setPc (s : Server) (t t' : Thread) (p : Pc) :
    (s.setPc t p).pc t' = if t' = t then p else s.pc t' := by
  simp [setPc, Function.update_apply]

/-- Moving a thread to a place with the same of something changes it for no thread. -/
theorem Server.same_setPc {α : Type} {f : Pc → α} {s s' : Server} {t : Thread} {p : Pc}
    (hp : f p = f (s.pc t)) (hpc : s'.pc = (s.setPc t p).pc) (t' : Thread) :
    f (s'.pc t') = f (s.pc t') := by
  rw [hpc, pc_setPc]
  split
  · next ht => rw [ht, hp]
  · rfl

/-- A thread on its own keeps its request, or is done with it, and what completed stages leave
as it is stays. -/
theorem PcStep.held_of {α : Type} {f : Urb → α} (hf : ∀ b c st, f (Urb.afterStage b c st) = f b)
    {t : Thread} {p p' : Pc} {e : ServerEvent} (h : PcStep t p e p') {u : Nat} {b' : Urb}
    (hp : p'.held = some (u, b')) : ∃ b, p.held = some (u, b) ∧ f b = f b' := by
  cases h with
  | @insert v b =>
    cases hp
    exact ⟨_, rfl, rfl⟩
  | @resume v b st c =>
    refine ⟨b, ?_, ?_⟩
    · unfold Urb.advance at hp
      split at hp
      · cases hp
        rfl
      · split at hp <;> cases hp <;> rfl
    · unfold Urb.advance at hp
      split at hp
      · cases hp
        exact (hf ..).symm
      · split at hp <;> cases hp <;> exact (hf ..).symm
  | @header v b stack _ =>
    split at hp <;> cases hp <;> exact ⟨_, rfl, rfl⟩
  | payload =>
    cases hp
    exact ⟨_, rfl, rfl⟩
  | free => exact nomatch hp

/-- A step of a thread makes up no request. -/
theorem PcStep.held {t : Thread} {p p' : Pc} {e : ServerEvent} (h : PcStep t p e p') {u : Nat}
    {b' : Urb} (hp : p'.held = some (u, b')) :
    ∃ b, p.held = some (u, b) ∧ b.submit = b'.submit :=
  h.held_of Urb.submit_afterStage hp

/-- A thread on its own comes to stages its request has. -/
theorem PcStep.staged {t : Thread} {p p' : Pc} {e : ServerEvent} (h : PcStep t p e p') {u : Nat}
    {b' : Urb} {st : Stage} (hp : p'.held = some (u, b')) (hst : p'.stage = some st)
    (hold : ∀ u b st, p.held = some (u, b) → p.stage = some st → st ∈ b.submit.stages) :
    st ∈ b'.submit.stages := by
  cases h with
  | insert =>
    cases hp
    cases hst
    exact CmdSubmit.firstStage_mem _
  | @resume v b st₀ c =>
    unfold Urb.advance at hp hst
    split at hp
    · next st' hn =>
      rw [hn] at hst
      cases hp
      cases hst
      rw [Urb.submit_afterStage] at hn ⊢
      exact CmdSubmit.nextStage_mem (hold _ b st₀ rfl rfl) hn
    · next hn =>
      simp only [hn] at hst
      split at hst <;> simp [Pc.stage] at hst
  | header => split at hst <;> simp [Pc.stage] at hst
  | payload => exact nomatch hst
  | free => exact nomatch hst

/-- A step of a thread takes up no request. -/
theorem PcStep.request {t : Thread} {p p' : Pc} {e : ServerEvent} (h : PcStep t p e p') :
    ServerEvent.request e = none ∧ ServerEvent.received e = none := by
  cases h <;> exact ⟨rfl, rfl⟩

namespace Held

variable {es : List ServerEvent} {s s' : Server} {e : ServerEvent}

/-- No request is held before the first step. -/
theorem init : Held [] serverInit where
  ids := rfl
  mine _ _ _ h := nomatch h
  client _ _ _ _ h := nomatch h
  host _ _ h := nomatch h
  staged _ _ _ _ h := nomatch h
  parked _ _ h := nomatch h
  apart _ _ _ _ _ h := nomatch h
  apartDirect _ _ _ _ h := nomatch h

/-- A request in a history has a number below the next. -/
theorem request_lt (h : Held es s) {r : Nat × CmdSubmit} (hr : r ∈ requests es) :
    r.1 < s.nextUrb := by
  rw [← List.mem_range, ← h.ids]
  exact List.mem_map_of_mem hr

/-- A number names one request. -/
theorem request_unique (h : Held es s) {u : Nat} {c c' : CmdSubmit} (hc : (u, c) ∈ requests es)
    (hc' : (u, c') ∈ requests es) : c = c' := by
  have hnd : ((requests es).map Prod.fst).Nodup := by
    rw [h.ids]
    exact List.nodup_range
  exact congrArg Prod.snd (List.inj_on_of_nodup_map hnd hc hc' rfl)

/-- A CMD_SUBMIT is a request. -/
theorem request_of_received {r : Nat × CmdSubmit} (h : r ∈ received es) : r ∈ requests es := by
  obtain ⟨e, he, hr⟩ := List.mem_filterMap.mp h
  exact List.mem_filterMap.mpr ⟨e, he, ServerEvent.request_of_received hr⟩

/-- CMD_SUBMITs are numbered apart. -/
theorem received_nodup (h : Held es s) : ((received es).map Prod.fst).Nodup := by
  have hclient : received es =
      (es.filter fun e ↦ (ServerEvent.received e).isSome).filterMap ServerEvent.request := by
    rw [List.filterMap_filter]
    apply List.filterMap_congr
    intro e _
    cases hr : ServerEvent.received e with
    | none => rfl
    | some r => exact (ServerEvent.request_of_received hr).symm
  have hsub : (received es).Sublist (requests es) := by
    rw [hclient]
    exact List.filter_sublist.filterMap _
  refine List.Nodup.sublist (hsub.map Prod.fst) ?_
  rw [h.ids]
  exact List.nodup_range

/-- A held request is below the next number. -/
theorem held_lt (h : Held es s) {t : Thread} {u : Nat} {b : Urb}
    (hp : (s.pc t).held = some (u, b)) : u < s.nextUrb := h.request_lt (h.mine t u b hp)

private theorem keep (h : Held es s) (hreq : ServerEvent.request e = none)
    (hrec : ServerEvent.received e = none) (hnext : s'.nextUrb = s.nextUrb)
    (hheld : ∀ t u b', (s'.pc t).held = some (u, b') →
      (∃ b, (s.pc t).held = some (u, b) ∧ b.submit = b'.submit) ∨
      (t = .hcd ∧ ∃ b, s.direct u = some b ∧ b.submit = b'.submit ∧ s'.direct u = none))
    (hstaged : ∀ t u b st, (s'.pc t).held = some (u, b) → (s'.pc t).stage = some st →
      st ∈ b.submit.stages)
    (hdirect : ∀ u b, s'.direct u = some b → s.direct u = some b ∨
      ((∀ t b', (s'.pc t).held ≠ some (u, b')) ∧
        ∃ t, t ≠ .system ∧ (s.pc t).held = some (u, b) ∧ b.submit.isControl = false)) :
    Held (es ++ [e]) s' := by
  have hreqs : requests (es ++ [e]) = requests es := by
    rw [requests_snoc, hreq]
    simp
  have hrecs : received (es ++ [e]) = received es := by
    rw [received_snoc, hrec]
    simp
  constructor
  case ids =>
    rw [hreqs, hnext]
    exact h.ids
  case mine =>
    intro t u b' hp
    rw [hreqs]
    rcases hheld t u b' hp with ⟨b, hb, hs⟩ | ⟨-, b, hb, hs, -⟩
    · rw [← hs]
      exact h.mine t u b hb
    · rw [← hs]
      exact request_of_received (h.parked u b hb).1
  case client =>
    intro t u b' ht hp
    rw [hrecs]
    rcases hheld t u b' hp with ⟨b, hb, hs⟩ | ⟨-, b, hb, hs, -⟩
    · rw [← hs]
      exact h.client t u b ht hb
    · rw [← hs]
      exact (h.parked u b hb).1
  case host =>
    intro u b' hp
    rcases hheld .system u b' hp with ⟨b, hb, hs⟩ | ⟨ht, -⟩
    · rw [← hs]
      exact h.host u b hb
    · exact nomatch ht
  case staged => exact hstaged
  case parked =>
    intro u b hb
    rw [hrecs]
    rcases hdirect u b hb with hb | ⟨-, t, ht, hp, hc⟩
    · exact h.parked u b hb
    · exact ⟨h.client t u b ht hp, hc⟩
  case apart =>
    intro t t' u b b' hp hp'
    rcases hheld t u b hp with ⟨c, hc, -⟩ | ⟨ht, c, hc, -, -⟩
    · rcases hheld t' u b' hp' with ⟨c', hc', -⟩ | ⟨-, c', hc', -, -⟩
      · exact h.apart t t' u c c' hc hc'
      · exact (h.apartDirect t u c c' hc hc').elim
    · rcases hheld t' u b' hp' with ⟨c', hc', -⟩ | ⟨ht', -⟩
      · exact (h.apartDirect t' u c' c hc' hc).elim
      · rw [ht, ht']
  case apartDirect =>
    intro t u b b' hp hd
    rcases hdirect u b' hd with hd' | ⟨hnone, -⟩
    · rcases hheld t u b hp with ⟨c, hc, -⟩ | ⟨-, -, -, -, hnone⟩
      · exact h.apartDirect t u c b' hc hd'
      · rw [hnone] at hd
        exact nomatch hd
    · exact hnone t b hp

private theorem start (h : Held es s) {t : Thread} {submit : CmdSubmit} {mps : Int}
    {data : List UInt8} (ht : t ≠ .hcd) (hidle : s.pc t = .idle)
    (hsys : t = .system → submit.isControl = true) :
    Held (es ++ [(.start t submit mps data, .started s.nextUrb)])
      { s.setPc t (.insert s.nextUrb ⟨submit, mps, data, 0⟩) with nextUrb := s.nextUrb + 1 } := by
  have hreqs : requests (es ++ [(.start t submit mps data, .started s.nextUrb)]) =
      requests es ++ [(s.nextUrb, submit)] := by
    simp [requests_snoc, ServerEvent.request]
  have hrecs : ∀ r ∈ received es,
      r ∈ received (es ++ [(.start t submit mps data, .started s.nextUrb)]) := by
    intro r hr
    rw [received_snoc]
    exact List.mem_append_left _ hr
  have hnew : t ≠ .system → (s.nextUrb, submit) ∈
      received (es ++ [(.start t submit mps data, .started s.nextUrb)]) := by
    intro hts
    obtain rfl : t = .accept := by cases t <;> simp_all
    simp [received_snoc, ServerEvent.received]
  -- the new number is held by nobody else
  have hfresh : ∀ t' b, (s.pc t').held ≠ some (s.nextUrb, b) := by
    intro t' b hp
    exact Nat.lt_irrefl _ (h.held_lt hp)
  have hfreshDirect : ∀ b, s.direct s.nextUrb ≠ some b := by
    intro b hb
    exact Nat.lt_irrefl _ (h.request_lt (request_of_received (h.parked _ _ hb).1))
  have hpc : ∀ t' u b, (({ s.setPc t (.insert s.nextUrb ⟨submit, mps, data, 0⟩) with
      nextUrb := s.nextUrb + 1 } : Server).pc t').held = some (u, b) →
      (t' = t ∧ u = s.nextUrb ∧ b.submit = submit) ∨ (t' ≠ t ∧ (s.pc t').held = some (u, b)) := by
    intro t' u b hp
    change ((s.setPc t _).pc t').held = some (u, b) at hp
    rw [Server.pc_setPc] at hp
    split at hp
    · next he =>
      cases hp
      exact .inl ⟨he, rfl, rfl⟩
    · next he => exact .inr ⟨he, hp⟩
  constructor
  case ids =>
    rw [hreqs, List.map_append, h.ids]
    exact List.range_succ.symm
  case mine =>
    intro t' u b hp
    rw [hreqs]
    rcases hpc t' u b hp with ⟨-, rfl, rfl⟩ | ⟨-, hp⟩
    · simp
    · exact List.mem_append_left _ (h.mine t' u b hp)
  case client =>
    intro t' u b ht' hp
    rcases hpc t' u b hp with ⟨rfl, rfl, rfl⟩ | ⟨-, hp⟩
    · exact hnew ht'
    · exact hrecs _ (h.client t' u b ht' hp)
  case host =>
    intro u b hp
    rcases hpc .system u b hp with ⟨he, -, rfl⟩ | ⟨-, hp⟩
    · exact hsys he.symm
    · exact h.host u b hp
  case staged =>
    intro t' u b st hp hst
    change ((s.setPc t _).pc t').stage = some st at hst
    rcases hpc t' u b hp with ⟨rfl, -⟩ | ⟨hne, hp⟩
    · rw [Server.pc_setPc, if_pos rfl] at hst
      exact nomatch hst
    · rw [Server.pc_setPc, if_neg hne] at hst
      exact h.staged t' u b st hp hst
  case parked =>
    intro u b hb
    exact ⟨hrecs _ (h.parked u b hb).1, (h.parked u b hb).2⟩
  case apart =>
    intro t₁ t₂ u b b' hp hp'
    rcases hpc t₁ u b hp with ⟨h1, rfl, -⟩ | ⟨-, hp⟩
    · rcases hpc t₂ _ b' hp' with ⟨h2, -⟩ | ⟨-, hp'⟩
      · rw [h1, h2]
      · exact (hfresh t₂ b' hp').elim
    · rcases hpc t₂ u b' hp' with ⟨-, rfl, -⟩ | ⟨-, hp'⟩
      · exact (hfresh t₁ b hp).elim
      · exact h.apart t₁ t₂ u b b' hp hp'
  case apartDirect =>
    intro t' u b b' hp
    rcases hpc t' u b hp with ⟨-, rfl, -⟩ | ⟨-, hp⟩
    · exact hfreshDirect b'
    · exact h.apartDirect t' u b b' hp

private theorem repc (h : Held es s) {t : Thread} {p : Pc} {l : UrbList} {loop : Loop}
    (hreq : ServerEvent.request e = none) (hrec : ServerEvent.received e = none)
    (hheld : ∀ u b', p.held = some (u, b') → ∃ b, (s.pc t).held = some (u, b) ∧
      b.submit = b'.submit)
    (hstaged : ∀ u b st, p.held = some (u, b) → p.stage = some st → st ∈ b.submit.stages) :
    Held (es ++ [e]) { s.setPc t p with urbList := l, loop := loop } := by
  refine h.keep hreq hrec rfl ?_ ?_ fun u b hb ↦ .inl hb
  · intro t' u b' hp
    change ((s.setPc t p).pc t').held = some (u, b') at hp
    rw [Server.pc_setPc] at hp
    split at hp
    · next he =>
      rw [he]
      exact .inl (hheld u b' hp)
    · exact .inl ⟨b', hp, rfl⟩
  · intro t' u b st hp hst
    change ((s.setPc t p).pc t').held = some (u, b) at hp
    change ((s.setPc t p).pc t').stage = some st at hst
    rw [Server.pc_setPc] at hp hst
    split at hp
    · next he =>
      rw [if_pos he] at hst
      exact hstaged u b st hp hst
    · next he =>
      rw [if_neg he] at hst
      exact h.staged t' u b st hp hst

private theorem linkDirect (h : Held es s) {t : Thread} {u : Nat} {b : Urb} {x : LoopEvent}
    {loop : Loop} (hpc : s.pc t = .link u b .direct) :
    Held (es ++ [(.link t, .loop x)]) { { s with loop := loop }.setPc t .idle with
      direct := Function.update s.direct u (some b) } := by
  have hp : (s.pc t).held = some (u, b) := by rw [hpc]; rfl
  have hcontrol : b.submit.isControl = false := by
    have hst := h.staged t u b .direct hp (by rw [hpc]; rfl)
    rw [CmdSubmit.mem_stages] at hst
    exact hst
  have hclient : t ≠ .system := by
    rintro rfl
    rw [h.host u b hp] at hcontrol
    exact nomatch hcontrol
  have hold : ∀ t' u' b', (({ s with loop := loop }.setPc t .idle).pc t').held = some (u', b') →
      t' ≠ t ∧ (s.pc t').held = some (u', b') := by
    intro t' u' b' hp'
    rw [Server.pc_setPc] at hp'
    split at hp'
    · exact nomatch hp'
    · next he => exact ⟨he, hp'⟩
  refine h.keep rfl rfl rfl ?_ ?_ ?_
  · intro t' u' b' hp'
    exact .inl ⟨b', (hold t' u' b' hp').2, rfl⟩
  · intro t' u' b' st hp' hst
    obtain ⟨hne, hp'⟩ := hold t' u' b' hp'
    change (({ s with loop := loop }.setPc t .idle).pc t').stage = some st at hst
    rw [Server.pc_setPc, if_neg hne] at hst
    exact h.staged t' u' b' st hp' hst
  · intro u' b' hb
    change Function.update s.direct u (some b) u' = some b' at hb
    rw [Function.update_apply] at hb
    split at hb
    · next hu =>
      cases hb
      subst hu
      refine .inr ⟨?_, t, hclient, hp, hcontrol⟩
      intro t' b'' hp'
      obtain ⟨hne, hp'⟩ := hold t' u' b'' hp'
      exact hne (h.apart t' t u' b'' b hp' hp)
    · exact .inl hb

private theorem doneDirect (h : Held es s) {r : Response} {x : LoopEvent} {loop : Loop}
    {c : Completion} {u : Nat} {b : Urb} (hb : s.direct u = some b) :
    Held (es ++ [(.body r, .loop x)])
      { { s with loop := loop }.setPc .hcd (.reply u (b.afterStage c .direct)) with
        direct := Function.update s.direct u none } := by
  refine h.keep rfl rfl rfl ?_ ?_ ?_
  · intro t' u' b' hp
    change (({ s with loop := loop }.setPc .hcd _).pc t').held = some (u', b') at hp
    rw [Server.pc_setPc] at hp
    split at hp
    · next ht =>
      cases hp
      refine .inr ⟨ht, b, hb, (Urb.submit_afterStage b c .direct).symm, ?_⟩
      exact Function.update_self u none s.direct
    · exact .inl ⟨b', hp, rfl⟩
  · intro t' u' b' st hp hst
    change (({ s with loop := loop }.setPc .hcd _).pc t').held = some (u', b') at hp
    change (({ s with loop := loop }.setPc .hcd _).pc t').stage = some st at hst
    rw [Server.pc_setPc] at hp hst
    split at hp
    · next ht =>
      rw [if_pos ht] at hst
      exact nomatch hst
    · next ht =>
      rw [if_neg ht] at hst
      exact h.staged t' u' b' st hp hst
  · intro u' b' hb'
    change Function.update s.direct u none u' = some b' at hb'
    rw [Function.update_apply] at hb'
    split at hb'
    · exact nomatch hb'
    · exact .inl hb'

/-- Every step keeps every request in one place. -/
theorem step (h : Held es s) (hs : ServerStep s e s') : Held (es ++ [e]) s' := by
  cases hs with
  | start ht hidle _ _ hsys => exact h.start ht hidle hsys
  | @move t e p l hp =>
    exact h.repc hp.request.1 hp.request.2 (fun _ _ hheld ↦ hp.held hheld)
      fun _ _ _ hheld hst ↦ hp.staged hheld hst fun u b st ↦ h.staged t u b st
  | @linkStage t u b st x loop hpc =>
    refine h.repc rfl rfl ?_ ?_
    · intro u' b' hp
      cases hp
      exact ⟨_, by rw [hpc]; rfl, rfl⟩
    · intro u' b' st' hp hst
      cases hp
      cases hst
      exact h.staged t u b st (by rw [hpc]; rfl) (by rw [hpc]; rfl)
  | linkDirect hpc => exact h.linkDirect hpc
  | @loop op x =>
    obtain ⟨hreq, hrec⟩ := ServerEvent.request_loop op x
    refine h.keep hreq hrec rfl (fun t u b hp ↦ .inl ⟨b, hp, rfl⟩) ?_ fun u b hb ↦ .inl hb
    exact h.staged
  | @doneStage r x loop c t u b st _ _ _ _ _ _ hpc =>
    refine h.repc rfl rfl ?_ ?_
    · intro u' b' hp
      cases hp
      exact ⟨_, by rw [hpc]; rfl, rfl⟩
    · intro u' b' st' hp hst
      cases hp
      cases hst
      exact h.staged t u b st (by rw [hpc]; rfl) (by rw [hpc]; rfl)
  | doneDirect _ _ _ _ _ hb => exact h.doneDirect hb

end Held

/-- In every reachable state every request is in one place. -/
theorem ServerRun.held {es : List ServerEvent} {s : Server} (h : ServerRun es s) : Held es s := by
  refine Run.invariant (P := Held) Held.init ?_ h
  intro _ _ _ _ _ hh he
  exact hh.step (serverStep_of_exec he)

end BiMpp.Usbip
