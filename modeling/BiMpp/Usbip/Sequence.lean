import BiMpp.Host.Extent
import BiMpp.Usbip.StageOutcome

/-!
# The stages of a control transfer

`sys_urb_submit` links the SETUP stage, the data stage of a request with a length, and the
status stage, each after the one before is done, however that ended, and the status stage
against bit 7 of the request, also where there is no data stage:
`bi-mpp-pic24-usb-simulator-master/src/sys.c:189–231`.
-/

namespace BiMpp.Usbip
open BiMpp.Usb BiMpp.Base BiMpp.Host

/-! ### What is to be shown -/

/-- The transfer descriptors linked for a request, in order. -/
def requestLinks (es : List ServerEvent) (u : Nat) : List LinkArgs :=
  ((links (hcdEvents es)).filter fun l ↦ urbOwner l.2.urb.id = u).map Prod.snd

/-- A stage of a request has been issued. -/
def Issued (es : List ServerEvent) (u : Nat) (st : Stage) : Prop :=
  stageUrb u st ∈ issuedUrbs (hcdEvents es)

instance (es : List ServerEvent) (u : Nat) (st : Stage) : Decidable (Issued es u st) :=
  inferInstanceAs (Decidable (_ ∈ _))

/-- A stage of a request, and the one that follows it. -/
def CmdSubmit.Follows (c : CmdSubmit) (st st' : Stage) : Prop :=
  st ∈ c.stages ∧ c.nextStage st = some st'

/-- The direction of a status stage: opposite to the data stage, and IN without one. -/
def CmdSubmit.statusIn (c : CmdSubmit) : Bool := if 0 < c.wLength then !c.requestIn else true

/-- The descriptor that a stage of a control transfer is meant to be. -/
def Meant (c : CmdSubmit) : Stage → LinkArgs → Prop
  | .setup, a => a.setup = true ∧ a.dir = false ∧ a.data = c.setup ∧ a.size = 8
  | .data, a => a.setup = false ∧ a.dir = c.requestIn ∧ a.toggle = 1 ∧ a.size = c.size
  | .status, a => a.setup = false ∧ a.dir = c.statusIn ∧ a.toggle = 1 ∧ a.size = 0
  | .direct, _ => False

/-- The packets that a stage of a control transfer is meant to send. -/
def Carries (c : CmdSubmit) : Stage → List Transaction → Prop
  | .setup, ts => ∀ t ∈ ts, t.packet.pid = .setup ∧ t.packet.dirIn = false ∧ t.packet.size = 8 ∧
      t.offered = c.setup
  | .data, ts => (∀ t ∈ ts, t.packet.dirIn = c.requestIn) ∧
      ∀ t, ts.head? = some t → t.packet.pid = .data1
  | .status, ts => ∀ t ∈ ts, t.packet.pid = .data1 ∧ t.packet.dirIn = c.statusIn ∧
      t.packet.size = 0
  | .direct, _ => False

/-- A stage was completed without error: its descriptor is done, and an ACK retired it. -/
def Passed (es : List ServerEvent) (u : Nat) (st : Stage) : Prop :=
  (∃ d ∈ completions (hcdEvents es), d.urb = stageUrb u st) ∧
    ∃ t ∈ stageTransactions es u st, t.retired.isSome = true ∧ t.response.isAck = true

/-- The bytes that the data stage of a request has moved. -/
def movedBytes (es : List ServerEvent) (u : Nat) (c : CmdSubmit) : List UInt8 :=
  if c.requestIn then receivedBytes (stageTransactions es u .data)
  else acceptedBytes (stageTransactions es u .data)

/-- The request that a thread has all stages of behind it. -/
def Pc.over : Pc → Option (Nat × Urb)
  | reply u b => some (u, b)
  | payload u b => some (u, b)
  | free u b => some (u, b)
  | _ => none

/-- A control request is the right sequence of stages: what is linked for it are the first of
its stages, each as it is meant to be and sending what it is meant to send, and all of them
once it is over and none before the last failed; a stage is issued only after the one before
was completed without error, and the length that the request's thread goes on with is what the
data stage moved. -/
structure Staged (es : List ServerEvent) (s : Server) (u : Nat) (c : CmdSubmit) : Prop where
  issued : ∃ sts, sts <+: c.stages ∧ List.Forall₂ (Meant c) sts (requestLinks es u)
  whole : ∀ t b, (s.pc t).over = some (u, b) →
    (∀ st st', c.Follows st st' → Passed es u st) →
    (requestLinks es u).length = c.stages.length
  carries : ∀ st, Issued es u st → Carries c st (stageTransactions es u st)
  passed : ∀ st st', c.Follows st st' → Issued es u st' → Passed es u st
  moved : ∀ t b, (s.pc t).filled = some (u, b) → b.length = ((movedBytes es u c).length : Int)

/-- The request has a data stage or bit 7 clear, as far as its status stage is concerned, and
the device stalled no stage that was followed by another, and failed none of these more than
twice. -/
structure Untroubled (es : List ServerEvent) (u : Nat) (c : CmdSubmit) : Prop where
  direction : Issued es u .status → 0 < c.wLength ∨ c.requestIn = false
  stalls : ∀ st st', c.Follows st st' → Issued es u st' →
    ∀ t ∈ stageTransactions es u st, t.response ≠ .stall
  errors : ∀ st st', c.Follows st st' → Issued es u st' →
    errorsOf (stageTransactions es u st) ≤ 2

/-! ### The order of the links -/

/-- The stages of a request with codes below a number. -/
def CmdSubmit.before (c : CmdSubmit) (n : Nat) : List Stage := c.stages.filter fun st ↦ st.code < n

namespace CmdSubmit

variable {c : CmdSubmit} {st st' : Stage}

private theorem before_succ (h : st ∈ c.stages) :
    c.before (st.code + 1) = c.before st.code ++ [st] := by
  rw [mem_stages] at h
  unfold before stages
  cases st with
  | setup =>
    have hc : c.isControl = true := h
    rw [if_pos hc]
    split <;> rfl
  | data =>
    rw [if_pos h.1, if_pos h.2]
    rfl
  | status =>
    have hc : c.isControl = true := h
    rw [if_pos hc]
    split <;> rfl
  | direct =>
    have hc : c.isControl = false := h
    rw [hc]
    rfl

/-- Between a stage and the next there is none. -/
theorem before_next (hn : c.nextStage st = some st') :
    c.before (st.code + 1) = c.before st'.code := by
  apply List.filter_congr
  intro x hx
  obtain ⟨hlt, hgap⟩ := nextStage_code hn
  simp only [decide_eq_decide]
  exact ⟨fun h ↦ by omega, hgap x hx⟩

/-- Behind the last stage there is none. -/
theorem before_last (h : st ∈ c.stages) (hn : c.nextStage st = none) :
    c.before (st.code + 1) = c.before 4 := by
  apply List.filter_congr
  intro x hx
  have hlast := lastStage_code h hn x hx
  have hlt := x.code_lt
  simp [hlast, hlt]

private theorem before_zero (c : CmdSubmit) : c.before 0 = [] :=
  List.filter_eq_nil_iff.mpr fun st _ ↦ by simp

private theorem before_first (c : CmdSubmit) : c.before c.firstStage.code = [] := by
  unfold before stages firstStage
  split
  · exact List.filter_eq_nil_iff.mpr fun st _ ↦ by simp [Stage.code]
  · rfl

private theorem before_stages (c : CmdSubmit) (n : Nat) : c.before n <+: c.stages := by
  unfold before stages
  split
  · split
    · rcases n with _ | _ | _ | n
      · exact List.nil_prefix
      · exact ⟨[.data, .status], rfl⟩
      · exact ⟨[.status], rfl⟩
      · refine ⟨[], ?_⟩
        simp [Stage.code]
    · rcases n with _ | _ | _ | n
      · exact List.nil_prefix
      · exact ⟨[.status], rfl⟩
      · exact ⟨[.status], rfl⟩
      · refine ⟨[], ?_⟩
        simp [Stage.code]
  · by_cases hn : 3 < n
    · refine ⟨[], ?_⟩
      simp [Stage.code, hn]
    · refine ⟨[.direct], ?_⟩
      simp [Stage.code, hn]

end CmdSubmit

/-- The URBs of the descriptors linked for a request, in order. -/
def requestUrbs (es : List ServerEvent) (u : Nat) : List Nat :=
  (requestLinks es u).map fun a ↦ a.urb.id

/-- What is linked for a control request are the first of its stages, and those its thread has
gone by. -/
structure InOrder (es : List ServerEvent) (s : Server) : Prop where
  first : ∀ r ∈ requests es, r.2.isControl = true →
    ∃ sts, sts <+: r.2.stages ∧ requestUrbs es r.1 = sts.map (stageUrb r.1)
  mine : ∀ t u b, (s.pc t).held = some (u, b) → b.submit.isControl = true →
    requestUrbs es u = (b.submit.before (s.pc t).linkedBelow).map (stageUrb u)

namespace InOrder

variable {es : List ServerEvent} {s s' : Server} {e : ServerEvent}

private theorem requestUrbs_snoc (u : Nat) : requestUrbs (es ++ [e]) u = requestUrbs es u ++
    ((ServerEvent.linked e).toList.filter fun l ↦ urbOwner l.2.urb.id = u).map
      fun l ↦ l.2.urb.id := by
  unfold requestUrbs requestLinks
  rw [links_hcdEvents_snoc, List.filter_append, List.map_append, List.map_append,
    List.map_map (l := (ServerEvent.linked e).toList.filter _)]
  rfl

private theorem requestUrbs_quiet {u : Nat}
    (h : ∀ l, ServerEvent.linked e = some l → urbOwner l.2.urb.id ≠ u) :
    requestUrbs (es ++ [e]) u = requestUrbs es u := by
  rw [requestUrbs_snoc]
  cases hl : ServerEvent.linked e with
  | none => simp
  | some l => simp [h l hl]

private theorem requestUrbs_other {u u' : Nat} {g : GtdPtr} {b : Urb} {st : Stage}
    (hg : ServerEvent.linked e = some (g, b.linkArgs u st)) (hne : u' ≠ u) :
    requestUrbs (es ++ [e]) u' = requestUrbs es u' := by
  apply requestUrbs_quiet
  intro l hl
  obtain rfl := Option.some.inj (hg.symm.trans hl)
  rw [Urb.linkArgs_urb_id, urbOwner_stageUrb]
  exact hne.symm

private theorem requestUrbs_fresh (hl : StageLinks es) (hh : Held es s) :
    requestUrbs es s.nextUrb = [] := by
  unfold requestUrbs requestLinks
  rw [List.map_eq_nil_iff, List.map_eq_nil_iff, List.filter_eq_nil_iff]
  intro l hmem
  obtain ⟨u, b, st, hargs, hb, -⟩ := hl l hmem
  have hlt := hh.request_lt hb
  rw [hargs, Urb.linkArgs_urb_id, urbOwner_stageUrb]
  simp only [decide_eq_true_eq]
  omega

/-- No stage is linked before the first step. -/
theorem init : InOrder [] serverInit where
  first _ hr := (List.not_mem_nil hr).elim
  mine _ _ _ h := nomatch h

private theorem before_own {t : Thread} {p p' : Pc} (h : PcStep t p e p') {u : Nat} {b' : Urb}
    (hp : p'.held = some (u, b'))
    (hold : ∀ u b st, p.held = some (u, b) → p.stage = some st → st ∈ b.submit.stages) :
    b'.submit.before p'.linkedBelow = b'.submit.before p.linkedBelow := by
  cases h with
  | @insert v b =>
    cases hp
    exact b'.submit.before_first.trans b'.submit.before_zero.symm
  | @resume v b st c =>
    have hmem := hold v b st rfl rfl
    show _ = b'.submit.before (st.code + 1)
    unfold Urb.advance at hp ⊢
    rw [Urb.submit_afterStage] at hp ⊢
    cases hn : b.submit.nextStage st with
    | some st' =>
      rw [hn] at hp
      cases hp
      rw [Urb.submit_afterStage]
      exact (CmdSubmit.before_next hn).symm
    | none =>
      rw [hn] at hp
      dsimp only at hp ⊢
      have hsub : b'.submit = b.submit := by
        split at hp <;> cases hp <;> simp
      rw [hsub, CmdSubmit.before_last hmem hn]
      split <;> rfl
  | header => split <;> rfl
  | payload => rfl
  | free => exact nomatch hp

private theorem of_mine (h : InOrder es s)
    (hmine : ∀ t u b, (s'.pc t).held = some (u, b) → b.submit.isControl = true →
      requestUrbs (es ++ [e]) u = (b.submit.before (s'.pc t).linkedBelow).map (stageUrb u))
    (hfirst : ∀ r ∈ requests (es ++ [e]), r.2.isControl = true →
      (r ∈ requests es ∧ requestUrbs (es ++ [e]) r.1 = requestUrbs es r.1) ∨
      ∃ t b, (s'.pc t).held = some (r.1, b) ∧ b.submit = r.2) : InOrder (es ++ [e]) s' where
  first r hr hc := by
    rcases hfirst r hr hc with ⟨hr, hsame⟩ | ⟨t, b, hheld, hsub⟩
    · rw [hsame]
      exact h.first r hr hc
    · refine ⟨_, r.2.before_stages (s'.pc t).linkedBelow, ?_⟩
      have hm := hmine t r.1 b hheld (hsub ▸ hc)
      rwa [hsub] at hm
  mine := hmine

private theorem quiet (h : InOrder es s) (hlinked : ServerEvent.linked e = none)
    (hreq : ServerEvent.request e = none)
    (hmine : ∀ t u b', (s'.pc t).held = some (u, b') → b'.submit.isControl = true →
      ∃ b, (s.pc t).held = some (u, b) ∧ b.submit = b'.submit ∧
        b'.submit.before (s'.pc t).linkedBelow = b'.submit.before (s.pc t).linkedBelow) :
    InOrder (es ++ [e]) s' := by
  have hsame : ∀ u, requestUrbs (es ++ [e]) u = requestUrbs es u := by
    intro u
    apply requestUrbs_quiet
    intro l hl
    rw [hlinked] at hl
    cases hl
  apply h.of_mine
  · intro t u b' hp hc
    obtain ⟨b, hheld, hsub, hbelow⟩ := hmine t u b' hp hc
    rw [hsame, hbelow, ← hsub]
    exact h.mine t u b hheld (hsub ▸ hc)
  · intro r hr _
    rw [requests_snoc, hreq, Option.toList_none, List.append_nil] at hr
    exact .inl ⟨hr, hsame r.1⟩

private theorem start (h : InOrder es s) (hl : StageLinks es) (hh : Held es s) (t : Thread)
    (submit : CmdSubmit) (mps : Int) (data : List UInt8) :
    InOrder (es ++ [(.start t submit mps data, .started s.nextUrb)])
      { s.setPc t (.insert s.nextUrb ⟨submit, mps, data, 0⟩) with nextUrb := s.nextUrb + 1 } := by
  have hsame : ∀ u, requestUrbs (es ++ [(.start t submit mps data, .started s.nextUrb)]) u =
      requestUrbs es u := fun u ↦ requestUrbs_quiet fun l hl ↦ nomatch hl
  have hpc : ∀ t', ({ s.setPc t (.insert s.nextUrb ⟨submit, mps, data, 0⟩) with
      nextUrb := s.nextUrb + 1 } : Server).pc t' =
      if t' = t then .insert s.nextUrb ⟨submit, mps, data, 0⟩ else s.pc t' :=
    fun t' ↦ s.pc_setPc t t' _
  apply h.of_mine
  · intro t' u b hp hc
    rw [hpc] at hp ⊢
    rw [hsame]
    split at hp
    · next ht' =>
      cases hp
      rw [if_pos ht', requestUrbs_fresh hl hh]
      exact (congrArg (List.map _) (CmdSubmit.before_zero _)).symm
    · next ht' =>
      rw [if_neg ht']
      exact h.mine t' u b hp hc
  · intro r hr _
    rw [requests_snoc] at hr
    rcases List.mem_append.mp hr with hr | hr
    · exact .inl ⟨hr, hsame r.1⟩
    · obtain rfl := List.mem_singleton.mp hr
      refine .inr ⟨t, ⟨submit, mps, data, 0⟩, ?_, rfl⟩
      rw [hpc, if_pos rfl]
      rfl

private theorem linkStage (h : InOrder es s) (hh : Held es s) {t : Thread} {u : Nat} {b : Urb}
    {st : Stage} {g : GtdPtr} (hpc : s.pc t = .link u b st)
    (hg : ServerEvent.linked e = some (g, b.linkArgs u st)) (hreq : ServerEvent.request e = none)
    (hs' : ∀ t', s'.pc t' = if t' = t then .wait u b st none else s.pc t') :
    InOrder (es ++ [e]) s' := by
  have hheld : (s.pc t).held = some (u, b) := by
    rw [hpc]
    rfl
  apply h.of_mine
  · intro t' u' b' hp hc
    rw [hs'] at hp ⊢
    split at hp
    · next ht' =>
      cases hp
      have hmine := h.mine t u b hheld hc
      rw [hpc] at hmine
      have hmem := hh.staged t u b st hheld (by rw [hpc]; rfl)
      rw [if_pos ht', requestUrbs_snoc, hg, hmine]
      show _ = (b.submit.before (st.code + 1)).map (stageUrb u)
      rw [CmdSubmit.before_succ hmem, List.map_append]
      simp [Pc.linkedBelow]
    · next ht' =>
      have hne : u' ≠ u := by
        rintro rfl
        exact ht' (hh.apart t' t u' b' b hp hheld)
      rw [if_neg ht', requestUrbs_other hg hne]
      exact h.mine t' u' b' hp hc
  · intro r hr _
    rw [requests_snoc, hreq, Option.toList_none, List.append_nil] at hr
    by_cases hu : r.1 = u
    · refine .inr ⟨t, b, ?_, ?_⟩
      · rw [hs', if_pos rfl, hu]
        rfl
      · exact hh.request_unique (hh.mine t u b hheld) (hu ▸ hr)
    · exact .inl ⟨hr, requestUrbs_other hg hu⟩

private theorem linkDirect (h : InOrder es s) (hh : Held es s) {t : Thread} {u : Nat} {b : Urb}
    {g : GtdPtr} (hpc : s.pc t = .link u b .direct)
    (hg : ServerEvent.linked e = some (g, b.linkArgs u .direct))
    (hreq : ServerEvent.request e = none)
    (hs' : ∀ t', s'.pc t' = if t' = t then .idle else s.pc t') : InOrder (es ++ [e]) s' := by
  have hheld : (s.pc t).held = some (u, b) := by
    rw [hpc]
    rfl
  have hdirect : b.submit.isControl = false :=
    (CmdSubmit.mem_stages _ _).mp (hh.staged t u b .direct hheld (by rw [hpc]; rfl))
  apply h.of_mine
  · intro t' u' b' hp hc
    rw [hs'] at hp ⊢
    split at hp
    · cases hp
    · next ht' =>
      have hne : u' ≠ u := by
        rintro rfl
        exact ht' (hh.apart t' t u' b' b hp hheld)
      rw [if_neg ht', requestUrbs_other hg hne]
      exact h.mine t' u' b' hp hc
  · intro r hr hc
    rw [requests_snoc, hreq, Option.toList_none, List.append_nil] at hr
    refine .inl ⟨hr, requestUrbs_other hg ?_⟩
    intro hu
    obtain ⟨v, c⟩ := r
    obtain rfl : v = u := hu
    have hsub := hh.request_unique (hh.mine t v b hheld) hr
    rw [← hsub, hdirect] at hc
    cases hc

private theorem step (h : InOrder es s) (ht : Tracked es s) (hh : Held es s)
    (hs : ServerStep s e s') : InOrder (es ++ [e]) s' := by
  cases hs with
  | @start t submit mps data => exact h.start ht.links hh t submit mps data
  | @move t _ p l hown =>
    refine h.quiet hown.linked hown.request.1 ?_
    intro t' u b' hp hc
    change ((s.setPc t p).pc t').held = _ at hp
    show ∃ b, _ ∧ _ ∧ b'.submit.before ((s.setPc t p).pc t').linkedBelow = _
    rw [Server.pc_setPc] at hp ⊢
    split at hp
    · next ht' =>
      subst ht'
      obtain ⟨b, hheld, hsub⟩ := hown.held hp
      rw [if_pos rfl]
      exact ⟨b, hheld, hsub, before_own hown hp fun u b st ↦ hh.staged t' u b st⟩
    · next ht' =>
      rw [if_neg ht']
      exact ⟨b', hp, rfl, rfl⟩
  | @linkStage t u b st x loop hpc _ _ hx hfire =>
    obtain ⟨g, hg⟩ := ServerEvent.linked_link (t := t) hx hfire
    exact h.linkStage hh hpc hg (ServerEvent.request_loop _ x).1 fun t' ↦ Server.pc_setPc _ t t' _
  | @linkDirect t u b x loop hpc _ hx hfire =>
    obtain ⟨g, hg⟩ := ServerEvent.linked_link (t := t) hx hfire
    exact h.linkDirect hh hpc hg (ServerEvent.request_loop _ x).1
      fun t' ↦ Server.pc_setPc { s with loop := loop } t t' .idle
  | loop hidle hx hfire =>
    exact h.quiet (ServerEvent.linked_other hx hfire) (ServerEvent.request_loop _ _).1
      fun t u b hp _ ↦ ⟨b, hp, rfl, rfl⟩
  | @doneStage r x loop c t u b st hidle hx hfire hfits hc hne hpc hu =>
    refine h.quiet (ServerEvent.linked_other (by rw [hx]; exact nofun) hfire)
      (ServerEvent.request_loop _ _).1 ?_
    intro t' u' b' hp _
    rw [Server.pc_setPc] at hp ⊢
    split at hp
    · next ht' =>
      rw [if_pos ht', ht', hpc]
      exact ⟨b', hp, rfl, rfl⟩
    · next ht' =>
      rw [if_neg ht']
      exact ⟨b', hp, rfl, rfl⟩
  | @doneDirect r x loop c u b hidle hx hfire hfits hc hdirect hu =>
    refine h.quiet (ServerEvent.linked_other (by rw [hx]; exact nofun) hfire)
      (ServerEvent.request_loop _ _).1 ?_
    intro t' u' b' hp hcontrol
    change ((({ s with loop := loop } : Server).setPc .hcd _).pc t').held = _ at hp
    show ∃ b, _ ∧ _ ∧ b'.submit.before
      ((({ s with loop := loop } : Server).setPc .hcd _).pc t').linkedBelow = _
    rw [Server.pc_setPc] at hp ⊢
    split at hp
    · cases hp
      rw [Urb.submit_afterStage, (hh.parked u b hdirect).2] at hcontrol
      cases hcontrol
    · next ht' =>
      rw [if_neg ht']
      exact ⟨b', hp, rfl, rfl⟩

end InOrder

/-- In every reachable state the stages of the requests are in order. -/
theorem ServerRun.inOrder {es : List ServerEvent} {s : Server} (h : ServerRun es s) :
    InOrder es s := by
  refine Run.invariant (P := InOrder) InOrder.init ?_ h
  intro es s e s' hrun ih hfire
  exact ih.step (ServerRun.tracked hrun) (ServerRun.held hrun) (serverStep_of_exec hfire)

/-! ### What a stage sends -/

section Sends

variable {es : List HcdEvent} {a : Queues} {g : GtdPtr} {u : Nat} {b : Urb}

/-- The pid of a descriptor that is no SETUP. -/
def dataPidOf (dir : Bool) : GtdPid := if dir then .inn else .out

private theorem td_data {args : LinkArgs} {td : Td} (hsetup : args.setup = false)
    (h : args.td = .ok td) :
    td = hcdGtdCreate (dataPidOf args.dir) args.toggle args.data args.size args.urb := by
  have hpid : args.pid = .ok (dataPidOf args.dir) := by
    rw [LinkArgs.pid, hsetup, if_neg Bool.false_ne_true]
    cases args.dir <;> rfl
  rw [LinkArgs.td, hpid] at h
  exact (Except.ok.inj h).symm

private theorem chosen {c : EpdCore} {q : Td} {k : Packet} {dir : Bool}
    (hpid : q.pid = dataPidOf dir) (hk : choosePacket c q = .ok k) : k.dirIn = dir ∧
      k.pid = q.dataPid ∧
      k.size = if dir then q.buflen else min c.maximumPacketSize q.buflen := by
  unfold choosePacket at hk
  cases dir <;> rw [hpid] at hk <;> obtain rfl := Except.ok.inj hk <;> exact ⟨rfl, rfl, rfl⟩

private theorem data_respond {q : Td} {k : Packet} {mps : Int} {r : Response}
    (hdir : k.dirIn = false) : (q.respond k mps r).1.data = q.data := by
  cases hack : r.isAck with
  | false => exact (Td.responded q k mps r).data hack
  | true =>
    cases r with
    | ack rlen bytes =>
      show (if k.dirIn then _ else q.data) = q.data
      rw [hdir, if_neg Bool.false_ne_true]
    | _ => cases hack

private theorem setup_sends (h : QueuesRun es a) (hlen : b.submit.setup.length = 8)
    (hlink : (g, b.linkArgs u .setup) ∈ links es)
    (hfits : ∀ t ∈ transactionsOf g es, t.response.Fits t.packet) :
    Carries b.submit .setup (transactionsOf g es) := by
  refine h.all_transactions
    (I := fun p ↦ p.pid = .setup ∧ p.bufferEnd = 7 ∧ p.data = b.submit.setup) ?_ ?_ hlink hfits
  · intro td htd
    cases htd
    exact ⟨rfl, rfl, rfl⟩
  · rintro c w p p' r t fate - - ⟨hpid, hend, hdata⟩ hx
    obtain ⟨k, hk, hr, rfl⟩ := EpdCore.exchange_ok hx
    have hload := Td.loaded p c.toggleCarry
    rw [← hload.pid] at hpid
    rw [← hload.bufferEnd] at hend
    rw [← hload.data] at hdata
    generalize p.loadToggle c.toggleCarry = q at hk hr hpid hend hdata
    unfold choosePacket at hk
    rw [hpid] at hk
    dsimp only at hk
    split at hk
    · next hbuflen =>
      obtain rfl := Except.ok.inj hk
      have hkept := Td.responded q ⟨c.endpointNumber, false, .setup, q.buflen⟩ c.maximumPacketSize r
      have hsame : (q.respond ⟨c.endpointNumber, false, .setup, q.buflen⟩ c.maximumPacketSize
          r).1.data = q.data := data_respond rfl
      rw [hr] at hkept hsame
      have hstart : q.currentBufferPointer = 0 := by
        unfold Td.buflen at hbuflen
        omega
      have hoffered : q.offered ⟨c.endpointNumber, false, .setup, q.buflen⟩ = b.submit.setup := by
        rw [Td.offered, if_neg Bool.false_ne_true, hstart, hdata]
        show List.take q.buflen.toNat (List.drop 0 b.submit.setup) = _
        rw [hbuflen, List.drop_zero]
        exact List.take_of_length_le (by rw [hlen]; exact Nat.le_refl 8)
      refine ⟨⟨rfl, rfl, hbuflen, hoffered⟩, fun _ ↦ ?_⟩
      exact ⟨hkept.pid.trans hpid, hkept.bufferEnd.trans hend, hsame.trans hdata⟩
    · cases hk

private theorem data_sends (h : QueuesRun es a) (hlink : (g, b.linkArgs u .data) ∈ links es)
    (hfits : ∀ t ∈ transactionsOf g es, t.response.Fits t.packet) :
    ∀ t ∈ transactionsOf g es, t.packet.dirIn = b.submit.requestIn := by
  refine h.all_transactions (I := fun p ↦ p.pid = dataPidOf b.submit.requestIn) ?_ ?_ hlink hfits
  · intro td htd
    rw [td_data rfl htd]
    rfl
  · rintro c w p p' r t fate - - hpid hx
    obtain ⟨k, hk, hr, rfl⟩ := EpdCore.exchange_ok hx
    rw [← (Td.loaded p c.toggleCarry).pid] at hpid
    have hkept := (Td.responded (p.loadToggle c.toggleCarry) k c.maximumPacketSize r).pid
    rw [hr] at hkept
    exact ⟨(chosen hpid hk).1, fun _ ↦ hkept.trans hpid⟩

private theorem data_begins (h : QueuesRun es a) (hlink : (g, b.linkArgs u .data) ∈ links es)
    (hfits : ∀ t ∈ transactionsOf g es, t.response.Fits t.packet) :
    ∀ t, (transactionsOf g es).head? = some t → t.packet.pid = .data1 := by
  have hrule : Lives (b.linkArgs u .data)
      (fun _ ts p ↦ (ts = [] → p.pid = dataPidOf b.submit.requestIn ∧ p.dataToggle = 1) ∧
        ∀ t, ts.head? = some t → t.packet.pid = .data1)
      (fun _ ts _ ↦ ∀ t, ts.head? = some t → t.packet.pid = .data1) := by
    constructor
    · intro m td htd
      rw [td_data rfl htd]
      exact ⟨fun _ ↦ ⟨rfl, rfl⟩, fun t ht ↦ nomatch ht⟩
    · rintro c w p p' r t fate ts - - - ⟨hfirst, hhead⟩ hx
      have hnew : ∀ v, (ts ++ [t]).head? = some v → v.packet.pid = .data1 := by
        intro v hv
        cases ts with
        | nil =>
          obtain rfl := Option.some.inj hv
          obtain ⟨k, hk, hr, rfl⟩ := EpdCore.exchange_ok hx
          obtain ⟨hpid, htoggle⟩ := hfirst rfl
          rw [Td.loadToggle_eq _ (by rw [htoggle]; decide)] at hk
          show k.pid = .data1
          rw [(chosen hpid hk).2.1, Td.dataPid, htoggle]
          rfl
        | cons v' ts => exact hhead v hv
      split
      · exact ⟨fun hnil ↦ by simp at hnil, hnew⟩
      · exact hnew
  obtain ⟨p, hp | hp⟩ := h.lived hrule hlink hfits
  · exact hp.2
  · exact hp

private theorem status_sends (h : QueuesRun es a) (hlink : (g, b.linkArgs u .status) ∈ links es)
    (hfits : ∀ t ∈ transactionsOf g es, t.response.Fits t.packet) :
    ∀ t ∈ transactionsOf g es, t.packet.pid = .data1 ∧
      t.packet.dirIn = (!b.submit.requestIn) ∧ t.packet.size = 0 := by
  refine h.all_transactions (I := fun p ↦ p.pid = dataPidOf (!b.submit.requestIn) ∧
    p.dataToggle = 1 ∧ p.bufferEnd = -1 ∧ p.currentBufferPointer = 0) ?_ ?_ hlink hfits
  · intro td htd
    rw [td_data rfl htd]
    exact ⟨rfl, rfl, rfl, rfl⟩
  · rintro c w p p' r t fate hm hfit ⟨hpid, htoggle, hend, hptr⟩ hx
    obtain ⟨k, hk, hr, rfl⟩ := EpdCore.exchange_ok hx
    rw [Td.loadToggle_eq _ (by rw [htoggle]; decide)] at hk hr
    obtain ⟨hdir, hkpid, hsize⟩ := chosen hpid hk
    have hbuflen : p.buflen = 0 := by
      unfold Td.buflen
      omega
    have hempty : k.size = 0 := by
      rw [hsize, hbuflen]
      split
      · rfl
      · exact Int.min_eq_right hm
    have hdata1 : k.pid = .data1 := by
      rw [hkpid, Td.dataPid, htoggle]
      rfl
    refine ⟨⟨hdata1, hdir, hempty⟩, ?_⟩
    rintro rfl
    cases r with
    | ack rlen bytes =>
      -- an ACK retires an empty descriptor
      obtain ⟨hpos, -, -⟩ := hfit
      have hfull : (p.advance k rlen bytes).filled k c.maximumPacketSize rlen = true := by
        have hend' : (p.advance k rlen bytes).bufferEnd = p.bufferEnd := rfl
        have hptr' : (p.advance k rlen bytes).currentBufferPointer =
            p.currentBufferPointer + rlen := rfl
        rw [Td.filled, hend', hptr', Bool.or_eq_true, decide_eq_true_eq]
        exact .inl (by omega)
      rw [Td.respond, hfull] at hr
      cases (Prod.mk.inj hr).2
    | nak =>
      obtain ⟨rfl, -⟩ := Prod.mk.inj hr
      exact ⟨hpid, htoggle, hend, hptr⟩
    | err =>
      rw [Td.respond] at hr
      split at hr
      · cases (Prod.mk.inj hr).2
      · obtain ⟨rfl, -⟩ := Prod.mk.inj hr
        exact ⟨hpid, htoggle, hend, hptr⟩
    | stall => cases (Prod.mk.inj hr).2

end Sends

/-! ### The sequence -/

namespace CmdSubmit

/-- The status stage goes against bit 7 of the request: with a data stage that is the right
direction, without one it is only where bit 7 is clear. -/
theorem statusIn_iff (c : CmdSubmit) :
    (!c.requestIn) = c.statusIn ↔ 0 < c.wLength ∨ c.requestIn = false := by
  unfold statusIn
  split
  · next hw => exact iff_of_true rfl (.inl hw)
  · next hw =>
    rw [Bool.not_eq_true']
    exact ⟨.inr, fun h ↦ h.resolve_left hw⟩

end CmdSubmit

section Request

variable {es : List ServerEvent} {s : Server} {u : Nat} {c : CmdSubmit} {b : Urb} {st st' : Stage}

private theorem meant_linkArgs (hc : c.isControl = true) (hst : st ∈ c.stages) (hb : b.submit = c)
    (hdir : st = .status → 0 < c.wLength ∨ c.requestIn = false) :
    Meant c st (b.linkArgs u st) := by
  subst hb
  cases st with
  | setup => exact ⟨rfl, rfl, rfl, rfl⟩
  | data => exact ⟨rfl, rfl, rfl, rfl⟩
  | status => exact ⟨rfl, b.submit.statusIn_iff.mpr (hdir rfl), rfl, rfl⟩
  | direct =>
    rw [CmdSubmit.mem_stages] at hst
    have hno : b.submit.isControl = false := hst
    rw [hno] at hc
    cases hc

private theorem direction_of_meant (hb : b.submit = c) (h : Meant c st (b.linkArgs u .status)) :
    0 < c.wLength ∨ c.requestIn = false := by
  subst hb
  cases st with
  | setup => cases h.1
  | data => exact absurd h.2.1 (by simp [Urb.linkArgs])
  | status => exact b.submit.statusIn_iff.mp h.2.1
  | direct => exact h.elim

private theorem exists_of_forall₂ {α β : Type} {R : α → β → Prop} {l₁ : List α} {l₂ : List β}
    (h : List.Forall₂ R l₁ l₂) {b : β} (hb : b ∈ l₂) : ∃ a ∈ l₁, R a b := by
  induction h with
  | nil => cases hb
  | cons hr _ ih =>
    rcases List.mem_cons.mp hb with rfl | hb
    · exact ⟨_, List.mem_cons_self, hr⟩
    · obtain ⟨a, ha, hab⟩ := ih hb
      exact ⟨a, List.mem_cons_of_mem _ ha, hab⟩

/-- The links of a request are those of its URBs. -/
theorem mem_requestLinks {a : LinkArgs} : a ∈ requestLinks es u ↔
    ∃ g, (g, a) ∈ links (hcdEvents es) ∧ urbOwner a.urb.id = u := by
  unfold requestLinks
  rw [List.mem_map]
  constructor
  · rintro ⟨⟨g, a'⟩, hl, rfl⟩
    obtain ⟨hl, hown⟩ := List.mem_filter.mp hl
    exact ⟨g, hl, of_decide_eq_true hown⟩
  · rintro ⟨g, hl, hown⟩
    exact ⟨(g, a), List.mem_filter.mpr ⟨hl, decide_eq_true hown⟩, rfl⟩

private theorem Issued.link (h : Issued es u st) :
    ∃ l ∈ links (hcdEvents es), l.2.urb.id = stageUrb u st :=
  List.mem_map.mp h

private theorem ServerRun.linked_stages (h : ServerRun es s) (hreq : (u, c) ∈ requests es)
    (hc : c.isControl = true) : ∃ sts, sts <+: c.stages ∧
      List.Forall₂ (fun st a ↦ ∃ b : Urb, b.submit = c ∧ a = b.linkArgs u st) sts
        (requestLinks es u) := by
  obtain ⟨sts, hpre, hurbs⟩ := h.inOrder.first (u, c) hreq hc
  refine ⟨sts, hpre, ?_⟩
  have hsame : List.Forall₂ (fun st a ↦ stageUrb u st = a.urb.id) sts (requestLinks es u) := by
    have heq : List.Forall₂ (· = ·) (sts.map (stageUrb u))
        ((requestLinks es u).map fun a ↦ a.urb.id) := by
      rw [List.forall₂_eq_eq_eq]
      exact hurbs.symm
    exact List.forall₂_map_right_iff.mp (List.forall₂_map_left_iff.mp heq)
  rw [List.forall₂_iff_zip] at hsame ⊢
  refine ⟨hsame.1, fun {st a} hmem ↦ ?_⟩
  obtain ⟨g, hlink, -⟩ := mem_requestLinks.mp (List.of_mem_zip hmem).2
  obtain ⟨b, hb, -, hargs, -⟩ := h.stage_link hreq hlink (hsame.2 hmem).symm
  exact ⟨b, hb, hargs⟩

private theorem ServerRun.issued_mem (h : ServerRun es s) (hreq : (u, c) ∈ requests es)
    (hc : c.isControl = true) (hi : Issued es u st) : st ∈ c.stages := by
  obtain ⟨sts, hpre, hurbs⟩ := h.inOrder.first (u, c) hreq hc
  obtain ⟨l, hlink, hid⟩ := hi.link
  have hmem : stageUrb u st ∈ requestUrbs es u :=
    List.mem_map.mpr ⟨l.2, mem_requestLinks.mpr ⟨l.1, hlink, by rw [hid, urbOwner_stageUrb]⟩, hid⟩
  rw [hurbs] at hmem
  obtain ⟨st', hst', hu⟩ := List.mem_map.mp hmem
  obtain ⟨-, rfl⟩ := stageUrb_inj hu
  exact hpre.subset hst'

private theorem ServerRun.linked_whole (h : ServerRun es s) (hreq : (u, c) ∈ requests es)
    (hc : c.isControl = true) {t : Thread} (hover : (s.pc t).over = some (u, b)) :
    (requestLinks es u).length = c.stages.length := by
  have hheld : (s.pc t).held = some (u, b) ∧ (s.pc t).linkedBelow = 4 := by
    cases hp : s.pc t <;> rw [hp] at hover <;> cases hover <;> exact ⟨rfl, rfl⟩
  have hsub : b.submit = c :=
    (ServerRun.held h).request_unique ((ServerRun.held h).mine t u b hheld.1) hreq
  have hmine := h.inOrder.mine t u b hheld.1 (hsub ▸ hc)
  have hall : b.submit.before 4 = b.submit.stages :=
    List.filter_eq_self.mpr fun st _ ↦ decide_eq_true st.code_lt
  rw [hheld.2, hall, hsub] at hmine
  have hlen := congrArg List.length hmine
  rwa [requestUrbs, List.length_map, List.length_map] at hlen

private theorem ServerRun.sends (h : ServerRun es s) (hreq : (u, c) ∈ requests es)
    (hc : c.isControl = true) (hi : Issued es u st)
    (hdir : st = .status → 0 < c.wLength ∨ c.requestIn = false) :
    Carries c st (stageTransactions es u st) := by
  obtain ⟨a, ha⟩ := ServerRun.queues h
  obtain ⟨l, hlink, hid⟩ := hi.link
  obtain ⟨b, rfl, hsized, hargs, hof, hfits⟩ := h.stage_link hreq hlink hid
  have hlink' : (l.1, b.linkArgs u st) ∈ links (hcdEvents es) := hargs ▸ hlink
  rw [← hof]
  cases st with
  | setup => exact setup_sends ha hsized.valid.1 hlink' hfits
  | data => exact ⟨data_sends ha hlink' hfits, data_begins ha hlink' hfits⟩
  | status =>
    have hstatus := b.submit.statusIn_iff.mpr (hdir rfl)
    intro t ht
    rw [← hstatus]
    exact status_sends ha hlink' hfits t ht
  | direct =>
    have hdirect : b.submit.isControl = false :=
      (CmdSubmit.mem_stages _ _).mp (h.issued_mem hreq hc hi)
    rw [hdirect] at hc
    cases hc

private theorem ServerRun.completed_before (h : ServerRun es s) : ∀ u c st st',
    (u, c) ∈ requests es → c.Follows st st' → Issued es u st' →
    ∃ d ∈ completions (hcdEvents es), d.urb = stageUrb u st := by
  refine Run.invariant (P := fun es _ ↦ ∀ u c st st', (u, c) ∈ requests es →
    c.Follows st st' → Issued es u st' →
    ∃ d ∈ completions (hcdEvents es), d.urb = stageUrb u st) ?_ ?_ h
  · intro u c st st' hreq
    exact (List.not_mem_nil hreq).elim
  · intro es s e s' hrun ih hfire u c st st' hreq hn hi
    have hstep : ServerStep s e s' := serverStep_of_exec hfire
    have hh' := ServerRun.held (.snoc hrun hfire)
    obtain ⟨l, hlink, hid⟩ := hi.link
    rw [links_hcdEvents_snoc] at hlink
    rcases List.mem_append.mp hlink with hlink | hlink
    · -- issued before
      have hpast : Issued es u st' := List.mem_map.mpr ⟨l, hlink, hid⟩
      obtain ⟨u', b, st₀, hargs, hb, -⟩ := (ServerRun.tracked hrun).links l hlink
      rw [hargs, Urb.linkArgs_urb_id] at hid
      obtain ⟨rfl, rfl⟩ := stageUrb_inj hid
      obtain rfl := hh'.request_unique (requests_mono e hb) hreq
      obtain ⟨d, hd, hu⟩ := ih u' b.submit st st₀ hb hn hpast
      exact ⟨d, completions_mono e hd, hu⟩
    · -- issued now, by a thread that has the stage before behind it
      obtain ⟨t, u', b, st₀, hpc, hargs, -⟩ := hstep.linked_by (Option.mem_toList.mp hlink)
      rw [hargs, Urb.linkArgs_urb_id] at hid
      obtain ⟨rfl, rfl⟩ := stageUrb_inj hid
      have hheld : (s.pc t).held = some (u', b) := by
        rw [hpc]
        rfl
      have hb := (ServerRun.held hrun).mine t u' b hheld
      obtain rfl := hh'.request_unique (requests_mono e hb) hreq
      obtain ⟨d, hd, hu⟩ := (ServerRun.tracked hrun).past t u' b st hheld hn.1
        (by rw [hpc]; exact (CmdSubmit.nextStage_code hn.2).1)
      exact ⟨d, completions_mono e hd, hu⟩

-- A stage that another follows was completed without error exactly if the device never stalled it
-- and failed it at most twice.
private theorem ServerRun.passed_iff (h : ServerRun es s) (hreq : (u, c) ∈ requests es)
    (hn : c.Follows st st') (hi : Issued es u st') : Passed es u st ↔
      (∀ t ∈ stageTransactions es u st, t.response ≠ .stall) ∧
        errorsOf (stageTransactions es u st) ≤ 2 := by
  obtain ⟨d, hd, hu⟩ := h.completed_before u c st st' hreq hn hi
  rw [← h.acked_iff hreq hd hu]
  exact ⟨And.right, fun hack ↦ ⟨⟨d, hd, hu⟩, hack⟩⟩

private theorem ServerRun.no_transactions (h : ServerRun es s) (hi : ¬ Issued es u st) :
    stageTransactions es u st = [] := by
  obtain ⟨a, ha⟩ := ServerRun.queues h
  refine List.filter_eq_nil_iff.mpr fun t ht hurb ↦ hi ?_
  have hlinked := (ha.account (ServerRun.tracked h).once).linked t ht
  rwa [of_decide_eq_true hurb] at hlinked

private theorem ServerRun.moved (h : ServerRun es s) (hreq : (u, c) ∈ requests es)
    (hc : c.isControl = true) {t : Thread} (hp : (s.pc t).filled = some (u, b)) :
    b.length = ((movedBytes es u c).length : Int) := by
  have hsub : b.submit = c := by
    have hheld : (s.pc t).held = some (u, b) := by
      unfold Pc.filled at hp
      split at hp <;> cases hp <;> simp only [Pc.held, *]
    exact (ServerRun.held h).request_unique ((ServerRun.held h).mine t u b hheld) hreq
  unfold movedBytes
  rcases h.counted hp (hsub ▸ hc) with ⟨hno, hlen⟩ | ⟨hd, d, hcomp, hu, hlen⟩
  · have hnone : stageTransactions es u .data = [] :=
      h.no_transactions fun hi ↦ hno (hsub ▸ h.issued_mem hreq hc hi)
    rw [hnone, hlen]
    split <;> rfl
  · obtain ⟨a, ha, b', hb', hsized, hlink, hof, hfits⟩ := h.completed_link hreq hcomp hu
    rw [← hlen, ← hof]
    split
    · next hin =>
      exact (ha.delivered hlink (by rw [← hb'] at hin; exact hin) rfl
        (hsized.linkArgs u .data) hfits hcomp rfl).length
    · next hout =>
      exact ha.accepted_length hlink (by rw [← hb'] at hout; exact Bool.not_eq_true _ ▸ hout) rfl
        (hsized.linkArgs u .data) hfits hcomp rfl

/-- A control request is the right sequence of stages if and only if its status stage has the
right direction and the device completed every stage that another followed. -/
theorem ServerRun.staged_iff (h : ServerRun es s) (hreq : (u, c) ∈ requests es)
    (hc : c.isControl = true) : Staged es s u c ↔ Untroubled es u c := by
  obtain ⟨sts, hpre, hall⟩ := h.linked_stages hreq hc
  constructor
  · intro hs
    refine ⟨?_, ?_, ?_⟩
    · intro hi
      obtain ⟨l, hlink, hid⟩ := hi.link
      obtain ⟨b, hb, -, hargs, -⟩ := h.stage_link hreq hlink hid
      have hmem : b.linkArgs u .status ∈ requestLinks es u :=
        mem_requestLinks.mpr ⟨l.1, hargs ▸ hlink, by rw [Urb.linkArgs_urb_id, urbOwner_stageUrb]⟩
      obtain ⟨sts', -, hmeant⟩ := hs.issued
      obtain ⟨st, -, hst⟩ := exists_of_forall₂ hmeant hmem
      exact direction_of_meant hb hst
    · exact fun st st' hn hi ↦ ((h.passed_iff hreq hn hi).mp (hs.passed st st' hn hi)).1
    · exact fun st st' hn hi ↦ ((h.passed_iff hreq hn hi).mp (hs.passed st st' hn hi)).2
  · intro hu
    constructor
    · refine ⟨sts, hpre, ?_⟩
      rw [List.forall₂_iff_zip] at hall ⊢
      refine ⟨hall.1, fun {st a} hmem ↦ ?_⟩
      obtain ⟨b, hb, rfl⟩ := hall.2 hmem
      obtain ⟨hst, ha⟩ := List.of_mem_zip hmem
      refine meant_linkArgs hc (hpre.subset hst) hb ?_
      rintro rfl
      obtain ⟨g, hlink, -⟩ := mem_requestLinks.mp ha
      exact hu.direction (List.mem_map.mpr ⟨_, hlink, Urb.linkArgs_urb_id u b .status⟩)
    · exact fun t b hover _ ↦ h.linked_whole hreq hc hover
    · intro st hi
      refine h.sends hreq hc hi ?_
      rintro rfl
      exact hu.direction hi
    · exact fun st st' hn hi ↦
        (h.passed_iff hreq hn hi).mpr ⟨hu.stalls st st' hn hi, hu.errors st st' hn hi⟩
    · exact fun t b hp ↦ h.moved hreq hc hp

end Request

private def servedOps (r : Response) : List ServerOp :=
  .link .accept :: (hcdTurn r ++ hcdTurn .nak ++ hcdTurn .nak ++ hcdTurn .nak ++ hcdTurn .nak ++
    hcdTurn .nak ++ [.resume .accept])

private def getStatus : CmdSubmit := ⟨7, 0x10001, 1, 0, 2, [0x80, 0, 0, 0, 0, 0, 2, 0]⟩

/-- A GET_STATUS goes through its three stages. -/
theorem ServerRun.staged_iff_example : ∃ es s, ServerRun es s ∧ Issued es 0 .status ∧
    movedBytes es 0 getStatus = [1, 0] ∧ Staged es s 0 getStatus := by
  have hcheck : runsTo serverExec serverInit
      ([.start .accept getStatus 8 [0, 0], .insert .accept] ++
        servedOps (.ack 8 []) ++ servedOps (.ack 2 [1, 0]) ++ servedOps (.ack 0 []))
      (fun _ es ↦ decide ((0, getStatus) ∈ requests es ∧ Issued es 0 .status ∧
        movedBytes es 0 getStatus = [1, 0] ∧ ∀ st ∈ getStatus.stages,
          (∀ t ∈ stageTransactions es 0 st, t.response ≠ .stall) ∧
            errorsOf (stageTransactions es 0 st) ≤ 2)) = true := by decide +kernel
  obtain ⟨es, s, hrun, hp⟩ := Run.of_runsTo hcheck
  obtain ⟨hreq, hstatus, hmoved, hclean⟩ := of_decide_eq_true hp
  refine ⟨es, s, hrun, hstatus, hmoved, (ServerRun.staged_iff hrun hreq rfl).mpr ⟨?_, ?_, ?_⟩⟩
  · exact fun _ ↦ .inl (by decide)
  · exact fun st _ hn _ ↦ (hclean st hn.1).1
  · exact fun st _ hn _ ↦ (hclean st hn.1).2

private def inWithoutData : CmdSubmit := ⟨7, 0x10001, 1, 0, 0, [0x80, 0, 0, 0, 0, 0, 0, 0]⟩

/-- The status stage of a request without data follows bit 7. -/
theorem ServerRun.status_outwards : ¬ ∀ es s, ServerRun es s → ∀ u c, (u, c) ∈ requests es →
    c.isControl = true → Staged es s u c := by
  intro hall
  have hcheck : runsTo serverExec serverInit
      ([.start .accept inWithoutData 8 [], .insert .accept] ++
        servedOps (.ack 8 []) ++ servedOps (.ack 0 [])) (fun _ es ↦
      decide ((0, inWithoutData) ∈ requests es ∧ Issued es 0 .status ∧
        ∃ t ∈ stageTransactions es 0 .status, t.packet.dirIn = false)) = true := by decide +kernel
  obtain ⟨es, s, hrun, hp⟩ := Run.of_runsTo hcheck
  obtain ⟨hreq, hstatus, t, ht, hout⟩ := of_decide_eq_true hp
  have hcarries := (hall es s hrun 0 inWithoutData hreq rfl).carries .status hstatus t ht
  rw [hout] at hcarries
  exact absurd hcarries.2.1 (by decide)

end BiMpp.Usbip
