import BiMpp.Usbip.Stages

/-!
# The status a client is told

`on_urb_complete` answers with status 0 whatever became of the request, and
`hcd_process_done_list` sets `urb->status` from the error count, which a STALL does not
raise and a retry does not clear: `bi-mpp-pic24-usb-simulator-master/src/usbip.c:96`,
`src/hcd.c:205–241,263`. So the two are honest about a request exactly if the device
failed none of its transactions.
-/

namespace BiMpp.Usbip
open BiMpp.Usb BiMpp.Base BiMpp.Host

/-- The response that retired a stage's descriptor. -/
def RetiredBy (es : List ServerEvent) (u : Nat) (st : Stage) (r : Response) : Prop :=
  r ∈ retirementsOf (stageUrb u st) (hcdEvents es)

/-- Whether every completion of a stage left `urb->status` 0. -/
def StatusZero (es : List ServerEvent) (u : Nat) (st : Stage) : Prop :=
  ∀ c ∈ completions (hcdEvents es), c.urb = stageUrb u st → c.status = 0

/-- The reported status is honest: zero everywhere exactly if every descriptor of the
transfer was retired by an ACK, nonzero in the reply if one was retired by a STALL or an
ERR, and zero in a URB whose descriptor was retired by an ACK, whatever came before. -/
structure Honest (es : List ServerEvent) (u : Nat) (b : Urb) (stack : List UInt8) : Prop where
  zero_iff : ((retSubmit b stack).status = 0 ∧ ∀ st ∈ b.submit.stages, StatusZero es u st) ↔
    ∀ st ∈ b.submit.stages, ∃ r, RetiredBy es u st r ∧ r.isAck = true
  failed : ∀ st ∈ b.submit.stages, ∀ r, RetiredBy es u st r → r = .stall ∨ r = .err →
    (retSubmit b stack).status ≠ 0
  transient : ∀ st ∈ b.submit.stages, ∀ r, RetiredBy es u st r → r.isAck = true →
    StatusZero es u st

/-- The device acknowledged or put off every transaction of the transfer. -/
def NoFailure (es : List ServerEvent) (u : Nat) (b : Urb) : Prop :=
  ∀ st ∈ b.submit.stages, ∀ r ∈ responsesOf (stageUrb u st) (hcdEvents es), r.isClean = true

instance (es : List ServerEvent) (u : Nat) (b : Urb) : Decidable (NoFailure es u b) :=
  inferInstanceAs (Decidable (∀ _ ∈ _, ∀ _ ∈ _, _))

/-! ### A reply comes after every stage -/

/-- The events of the driver in two parts of a run. -/
theorem hcdEvents_append (es es' : List ServerEvent) :
    hcdEvents (es ++ es') = hcdEvents es ++ hcdEvents es' := by
  simp [hcdEvents, loopEvents, driverEvents]

/-- A reply is sent by a thread that has finished the request, and goes on to the payload
or to the end. -/
theorem ServerStep.header_pc {s s' : Server} {t : Thread} {stack : List UInt8} {u : Nat}
    {b : Urb} (h : ServerStep s (.header t stack, .header u b) s') :
    s.pc t = .reply u b ∧
      s'.pc = (s.setPc t (if b.submit.dirIn then .payload u b else .free u b)).pc ∧
      s'.direct = s.direct ∧ stack.length = 8 := by
  generalize he : ((.header t stack, .header u b) : ServerEvent) = e at h
  cases h with
  | move hp =>
    revert hp
    generalize hq : s.pc _ = q
    intro hp
    cases hp with
    | header hlen =>
      cases he
      exact ⟨hq, rfl, rfl, hlen⟩
    | insert => exact nomatch he
    | resume => exact nomatch he
    | payload => exact nomatch he
    | free => exact nomatch he
  | start => exact nomatch he
  | linkStage => exact nomatch he
  | linkDirect => exact nomatch he
  | loop => exact nomatch he
  | doneStage => exact nomatch he
  | doneDirect => exact nomatch he

/-- Once a request is answered, every stage of it is completed. -/
theorem ServerRun.stage_completed {es : List ServerEvent} {s : Server} (h : ServerRun es s)
    {t : Thread} {stack : List UInt8} {u : Nat} {b : Urb}
    (hr : (.header t stack, .header u b) ∈ es) {st : Stage} (hst : st ∈ b.submit.stages) :
    ∃ c ∈ completions (hcdEvents es), c.urb = stageUrb u st := by
  obtain ⟨l₁, l₂, rfl⟩ := List.append_of_mem hr
  obtain ⟨m, m', hm, hfire, -⟩ := h.fired
  have hstep : ServerStep m _ m' := serverStep_of_exec hfire
  obtain ⟨hpc, -⟩ := hstep.header_pc
  have hbelow : st.code < (m.pc t).doneBelow := by
    rw [hpc]
    exact st.code_lt
  obtain ⟨c, hc, hu⟩ := (ServerRun.tracked hm).past t u b st (by rw [hpc]; rfl) hst hbelow
  refine ⟨c, ?_, hu⟩
  rw [hcdEvents_append, completions, List.filterMap_append]
  exact List.mem_append_left _ hc

/-! ### What a completed stage says -/

section Stage

variable {es : List ServerEvent} {u n : Nat} {st : Stage} {r : Response}

private theorem retiredBy_iff (h : Retired (hcdEvents es) (stageUrb u st) n r) (r' : Response) :
    RetiredBy es u st r' ↔ r' = r := by
  unfold RetiredBy
  rw [h.retirement, List.mem_singleton]

private theorem isAck_of {r : Response} (hnak : r ≠ .nak) (hstall : r ≠ .stall)
    (herr : r ≠ .err) : r.isAck = true := by
  cases r with
  | ack => rfl
  | nak => exact (hnak rfl).elim
  | err => exact (herr rfl).elim
  | stall => exact (hstall rfl).elim

private theorem isClean_of {r : Response} (herr : r.isErr = false) (hstall : r ≠ .stall) :
    r.isClean = true := by
  cases r with
  | ack => rfl
  | nak => rfl
  | err => exact nomatch herr
  | stall => exact (hstall rfl).elim

private theorem isErr_of_isClean {r : Response} (h : r.isClean = true) : r.isErr = false := by
  cases r with
  | ack => rfl
  | nak => rfl
  | err => exact nomatch h
  | stall => rfl

private theorem isAck_of_isClean (h : Retired (hcdEvents es) (stageUrb u st) n r)
    (hclean : ∀ r' ∈ responsesOf (stageUrb u st) (hcdEvents es), r'.isClean = true) :
    r.isAck = true := by
  have hr := hclean r h.mem
  refine isAck_of h.not_nak ?_ ?_
  · rintro rfl
    exact nomatch hr
  · rintro rfl
    exact nomatch hr

end Stage

private theorem ServerRun.stage_retired {es : List ServerEvent} {s : Server} (h : ServerRun es s)
    {t : Thread} {stack : List UInt8} {u : Nat} {b : Urb}
    (hr : (.header t stack, .header u b) ∈ es) {st : Stage} (hst : st ∈ b.submit.stages) :
    ∃ c ∈ completions (hcdEvents es), c.urb = stageUrb u st ∧
      ∃ r, Retired (hcdEvents es) (stageUrb u st) c.status r := by
  obtain ⟨a, ha⟩ := ServerRun.queues h
  obtain ⟨c, hc, hu⟩ := ServerRun.stage_completed h hr hst
  obtain ⟨r, hret⟩ := (ha.account (ServerRun.tracked h).once).completed c hc
  rw [hu] at hret
  exact ⟨c, hc, hu, r, hret⟩

private theorem ServerRun.statusZero {es : List ServerEvent} {s : Server} (h : ServerRun es s)
    {u : Nat} {st : Stage}
    (herr : ∀ r ∈ responsesOf (stageUrb u st) (hcdEvents es), r.isErr = false) :
    StatusZero es u st := by
  intro c hc hu
  obtain ⟨a, ha⟩ := ServerRun.queues h
  obtain ⟨r, hret⟩ := (ha.account (ServerRun.tracked h).once).completed c hc
  rw [hu] at hret
  exact hret.errors.mpr herr

private theorem Honest.retired_by_ack {es : List ServerEvent} {u n : Nat} {b : Urb}
    {stack : List UInt8} (h : Honest es u b stack) {st : Stage} (hst : st ∈ b.submit.stages)
    {r : Response} (hret : Retired (hcdEvents es) (stageUrb u st) n r) :
    RetiredBy es u st r ∧ r.isAck = true := by
  have hby : RetiredBy es u st r := (retiredBy_iff hret r).mpr rfl
  refine ⟨hby, isAck_of hret.not_nak ?_ ?_⟩
  · rintro rfl
    exact h.failed st hst _ hby (.inl rfl) rfl
  · rintro rfl
    exact h.failed st hst _ hby (.inr rfl) rfl

/-- The status reported for an answered request is honest if and only if the device
answered all its transactions with ACK or NAK. -/
theorem ServerRun.honest_iff {es : List ServerEvent} {s : Server} (h : ServerRun es s)
    {t : Thread} {stack : List UInt8} {u : Nat} {b : Urb}
    (hr : (.header t stack, .header u b) ∈ es) : Honest es u b stack ↔ NoFailure es u b := by
  constructor
  · intro hh st hst r' hr'
    obtain ⟨c, hc, hu, r, hret⟩ := ServerRun.stage_retired h hr hst
    have hack : ∀ st ∈ b.submit.stages, ∃ r, RetiredBy es u st r ∧ r.isAck = true := by
      intro st hst
      obtain ⟨c, -, -, r, hret⟩ := ServerRun.stage_retired h hr hst
      exact ⟨r, hh.retired_by_ack hst hret⟩
    have hstatus : c.status = 0 := (hh.zero_iff.mpr hack).2 st hst c hc hu
    refine isClean_of (hret.errors.mp hstatus r' hr') ?_
    rintro rfl
    obtain rfl := hret.stalls hr'
    exact nomatch (hh.retired_by_ack hst hret).2
  · intro hclean
    have hzero : ∀ st ∈ b.submit.stages, StatusZero es u st := fun st hst ↦
      ServerRun.statusZero h fun r hr ↦ isErr_of_isClean (hclean st hst r hr)
    have hack : ∀ st ∈ b.submit.stages, ∃ r, RetiredBy es u st r ∧ r.isAck = true := by
      intro st hst
      obtain ⟨c, -, -, r, hret⟩ := ServerRun.stage_retired h hr hst
      exact ⟨r, (retiredBy_iff hret r).mpr rfl, isAck_of_isClean hret (hclean st hst)⟩
    refine ⟨⟨fun _ ↦ hack, fun _ ↦ ⟨rfl, hzero⟩⟩, ?_, fun st hst _ _ _ ↦ hzero st hst⟩
    intro st hst r hby hbad
    obtain ⟨c, -, -, r', hret⟩ := ServerRun.stage_retired h hr hst
    obtain rfl := (retiredBy_iff hret r).mp hby
    have hr' := isAck_of_isClean hret (hclean st hst)
    rcases hbad with rfl | rfl <;> exact nomatch hr'

private def bulkIn : CmdSubmit := ⟨7, 0x10001, 1, 2, 2, [0, 0, 0, 0, 0, 0, 0, 0]⟩

private def bulkInOps (r : Response) : List ServerOp :=
  [.start .accept bulkIn 64 [0, 0], .insert .accept, .link .accept] ++
  hcdTurn .nak ++ hcdTurn .nak ++ hcdTurn .nak ++ hcdTurn .nak ++ hcdTurn r ++ hcdTurn .nak ++
  [.header .hcd [0, 0, 0, 0, 0, 0, 0, 0]]

/-- A transfer without an error is answered honestly. -/
theorem ServerRun.honest_iff_example : ∃ es s b, ServerRun es s ∧
    (.header .hcd [0, 0, 0, 0, 0, 0, 0, 0], .header 0 b) ∈ es ∧
    Honest es 0 b [0, 0, 0, 0, 0, 0, 0, 0] := by
  have hcheck : runsTo serverExec serverInit (bulkInOps (.ack 2 [5, 6])) (fun _ es ↦
      decide ((.header .hcd [0, 0, 0, 0, 0, 0, 0, 0], .header 0 ⟨bulkIn, 64, [5, 6], 2⟩) ∈ es ∧
        NoFailure es 0 ⟨bulkIn, 64, [5, 6], 2⟩)) = true := by decide +kernel
  obtain ⟨es, s, hrun, hp⟩ := Run.of_runsTo hcheck
  obtain ⟨hmem, hclean⟩ := of_decide_eq_true hp
  exact ⟨es, s, _, hrun, hmem, (ServerRun.honest_iff hrun hmem).mpr hclean⟩

/-- A STALL is reported as success. -/
theorem ServerRun.stall_unreported : ¬ ∀ es s, ServerRun es s → ∀ t stack u b,
    (.header t stack, .header u b) ∈ es → Honest es u b stack := by
  intro hall
  have hcheck : runsTo serverExec serverInit (bulkInOps .stall) (fun _ es ↦
      decide ((.header .hcd [0, 0, 0, 0, 0, 0, 0, 0], .header 0 ⟨bulkIn, 64, [0, 0], 0⟩) ∈ es ∧
        .stall ∈ retirementsOf (stageUrb 0 .direct) (hcdEvents es))) = true := by decide +kernel
  obtain ⟨es, s, hrun, hp⟩ := Run.of_runsTo hcheck
  obtain ⟨hmem, hstall⟩ := of_decide_eq_true hp
  have hh := hall es s hrun _ _ _ _ hmem
  exact hh.failed .direct (by decide) .stall hstall (.inl rfl) rfl

end BiMpp.Usbip
