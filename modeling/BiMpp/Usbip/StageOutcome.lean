import BiMpp.Host.Outcome
import BiMpp.Host.Segmentation
import BiMpp.Usbip.Stages

/-!
# How the stages of a request end

A stage ends as its descriptor does, with what its transactions moved, and the data stage
leaves its bytes and their number in the request's URB:
`bi-mpp-pic24-usb-simulator-master/src/sys.c:189–231`, `src/hcd.c:172–269`.
-/

namespace BiMpp.Usbip
open BiMpp.Usb BiMpp.Base BiMpp.Host

/-- The transactions of a stage of a request. -/
def stageTransactions (es : List ServerEvent) (u : Nat) (st : Stage) : List Transaction :=
  transactionsFor (stageUrb u st) (hcdEvents es)

section Stage

variable {es : List ServerEvent} {s : Server} {u : Nat} {c : CmdSubmit} {st : Stage}

/-- A link with the URB of a stage is the link of that stage, and its transactions are the
stage's. -/
theorem ServerRun.stage_link (h : ServerRun es s) (hreq : (u, c) ∈ requests es)
    {l : GtdPtr × LinkArgs} (hlink : l ∈ links (hcdEvents es))
    (hid : l.2.urb.id = stageUrb u st) : ∃ b : Urb, b.submit = c ∧ b.Sized ∧
      l.2 = b.linkArgs u st ∧ transactionsOf l.1 (hcdEvents es) = stageTransactions es u st ∧
      ∀ t ∈ transactionsOf l.1 (hcdEvents es), t.response.Fits t.packet := by
  obtain ⟨a, ha⟩ := ServerRun.queues h
  have ht := ServerRun.tracked h
  obtain ⟨u', b, st', hargs, hb, hsized⟩ := ht.links _ hlink
  have hurb : stageUrb u' st' = stageUrb u st := by
    rw [← hid, hargs, Urb.linkArgs_urb_id]
  obtain ⟨rfl, rfl⟩ := stageUrb_inj hurb
  have hof : transactionsOf l.1 (hcdEvents es) = stageTransactions es u' st' := by
    rw [ha.transactionsOf_eq ht.once hlink, hid]
    rfl
  refine ⟨b, (ServerRun.held h).request_unique hb hreq, hsized, hargs, hof, ?_⟩
  intro t hmem
  rw [hof] at hmem
  obtain ⟨d, hd, hdt⟩ := List.mem_filterMap.mp (List.mem_filter.mp hmem).1
  exact ServerRun.fits h d hd t hdt

/-- The descriptor of a completed stage, and its transactions. -/
theorem ServerRun.completed_link (h : ServerRun es s) (hreq : (u, c) ∈ requests es)
    {d : Completion} (hd : d ∈ completions (hcdEvents es)) (hu : d.urb = stageUrb u st) :
    ∃ a, QueuesRun (hcdEvents es) a ∧ ∃ b : Urb, b.submit = c ∧ b.Sized ∧
      (d.gtd, b.linkArgs u st) ∈ links (hcdEvents es) ∧
      transactionsOf d.gtd (hcdEvents es) = stageTransactions es u st ∧
      ∀ t ∈ transactionsOf d.gtd (hcdEvents es), t.response.Fits t.packet := by
  obtain ⟨a, ha⟩ := ServerRun.queues h
  obtain ⟨args, hlink, hid⟩ := (QueuesRun.ledger ha).completed d hd
  obtain ⟨b, hsub, hsized, rfl, hof, hfits⟩ := h.stage_link hreq hlink (hid.trans hu)
  exact ⟨a, ha, b, hsub, hsized, hlink, hof, hfits⟩

/-- A completed stage ended with an ACK exactly if the device never stalled it and failed it
at most twice. -/
theorem ServerRun.acked_iff (h : ServerRun es s) (hreq : (u, c) ∈ requests es)
    {d : Completion} (hd : d ∈ completions (hcdEvents es)) (hu : d.urb = stageUrb u st) :
    (∃ t ∈ stageTransactions es u st, t.retired.isSome = true ∧ t.response.isAck = true) ↔
      (∀ t ∈ stageTransactions es u st, t.response ≠ .stall) ∧
        errorsOf (stageTransactions es u st) ≤ 2 := by
  obtain ⟨a, ha, b, -, -, hlink, hof, hfits⟩ := h.completed_link hreq hd hu
  have hended := ha.ended hlink hfits hd rfl
  rw [hof] at hended
  exact hended.ack_iff

end Stage

/-! ### What the data stage brought -/

/-- The URB of a thread that has its data stage behind it. -/
def Pc.filled : Pc → Option (Nat × Urb)
  | link u b .status => some (u, b)
  | wait u b .status _ => some (u, b)
  | reply u b => some (u, b)
  | payload u b => some (u, b)
  | free u b => some (u, b)
  | _ => none

/-- What is said of a control request's URB once its data stage, or the SETUP stage of a
request without one, is behind it, and stays true as the history goes on. -/
structure Fills (P : List ServerEvent → Nat → Urb → Prop) : Prop where
  mono : ∀ {es : List ServerEvent} {u : Nat} {b : Urb} (e : ServerEvent),
    P es u b → P (es ++ [e]) u b
  setup : ∀ {es : List ServerEvent} {u : Nat} {b : Urb} (c : Completion),
    .data ∉ b.submit.stages → P es u (b.afterStage c .setup)
  data : ∀ {es : List ServerEvent} {u : Nat} {b : Urb} {c : Completion},
    .data ∈ b.submit.stages → c ∈ completions (hcdEvents es) → c.urb = stageUrb u .data →
    P es u (b.afterStage c .data)

namespace Fills

variable {P : List ServerEvent → Nat → Urb → Prop} {es : List ServerEvent} {s s' : Server}

private theorem resume (hP : Fills P) (h : ∀ t u b, (s.pc t).filled = some (u, b) →
      b.submit.isControl = true → P es u b) (ht : Tracked es s) (hh : Held es s) {t : Thread}
    {u u' : Nat} {b b' : Urb} {st : Stage} {c : Completion} (hpc : s.pc t = .wait u b st (some c))
    (hp : ((b.afterStage c st).advance t u st).filled = some (u', b'))
    (hcontrol : b'.submit.isControl = true) : P es u' b' := by
  have hstaged := hh.staged t u b st (by rw [hpc]; rfl) (by rw [hpc]; rfl)
  unfold Urb.advance at hp
  rw [Urb.submit_afterStage] at hp
  cases st with
  | setup =>
    unfold CmdSubmit.nextStage at hp
    dsimp only at hp
    split at hp
    · next st' hn =>
      split at hn
      · cases hn
        cases hp
      · next hw =>
        cases hn
        cases hp
        apply hP.setup
        rw [CmdSubmit.mem_stages]
        exact fun hd ↦ hw hd.2
    · next hn => split at hn <;> cases hn
  | data =>
    cases hp
    obtain ⟨hc, hu⟩ := ht.given t u b .data c hpc
    exact hP.data hstaged hc hu
  | status =>
    have hb : (u', b') = (u, b) := by
      unfold CmdSubmit.nextStage at hp
      dsimp only at hp
      split at hp <;> exact (Option.some.inj hp).symm
    cases hb
    exact h t u b (by rw [hpc]; rfl) hcontrol
  | direct =>
    rw [CmdSubmit.mem_stages] at hstaged
    have hsub : b'.submit = b.submit := by
      unfold CmdSubmit.nextStage at hp
      dsimp only at hp
      split at hp
      · cases hp
        rfl
      · cases hp
        rfl
    have hdirect : b.submit.isControl = false := hstaged
    rw [hsub, hdirect] at hcontrol
    cases hcontrol

private theorem step (hP : Fills P) (h : ∀ t u b, (s.pc t).filled = some (u, b) →
      b.submit.isControl = true → P es u b) (ht : Tracked es s) (hh : Held es s)
    {e : ServerEvent} (hs : ServerStep s e s') : ∀ t u b, (s'.pc t).filled = some (u, b) →
      b.submit.isControl = true → P (es ++ [e]) u b := by
  intro t u b hp hcontrol
  have hold : (s.pc t).filled = some (u, b) → P (es ++ [e]) u b :=
    fun hf ↦ hP.mono e (h t u b hf hcontrol)
  have hmove := hs.pc_move t
  revert hp hmove
  generalize s'.pc t = p
  intro hp hmove
  cases hmove with
  | keep => exact hold hp
  | start => cases hp
  | own hown =>
    generalize hq : s.pc t = q at hown
    cases hown with
    | @insert v b₀ =>
      unfold CmdSubmit.firstStage at hp
      split at hp <;> cases hp
    | @resume v b₀ st c => exact hP.mono _ (hP.resume h ht hh hq hp hcontrol)
    | @header v b₀ stack =>
      have hb : (u, b) = (v, b₀) := by split at hp <;> exact (Option.some.inj hp).symm
      cases hb
      exact hold (by rw [hq]; rfl)
    | payload =>
      cases hp
      exact hold (by rw [hq]; rfl)
    | free => cases hp
  | @stage v b₀ st hq =>
    cases st with
    | status => exact hold (by rw [hq]; exact hp)
    | _ => cases hp
  | park => cases hp
  | @done v b₀ st c hq =>
    cases st with
    | status => exact hold (by rw [hq]; exact hp)
    | _ => cases hp
  | direct _ _ hdirect =>
    cases hp
    have hnone := (hh.parked _ _ hdirect).2
    rw [Urb.submit_afterStage, hnone] at hcontrol
    cases hcontrol

end Fills

/-- What fills is true in every reachable state. -/
theorem ServerRun.fills {P : List ServerEvent → Nat → Urb → Prop} (hP : Fills P)
    {es : List ServerEvent} {s : Server} (h : ServerRun es s) : ∀ t u b,
      (s.pc t).filled = some (u, b) → b.submit.isControl = true → P es u b := by
  refine Run.invariant (P := fun es s ↦ ∀ t u b, (s.pc t).filled = some (u, b) →
    b.submit.isControl = true → P es u b) ?_ ?_ h
  · intro t u b hp
    cases hp
  · intro es s e s' hrun ih hfire
    exact Fills.step hP ih (ServerRun.tracked hrun) (ServerRun.held hrun)
      (serverStep_of_exec hfire)

/-- The data in the URB of a thread is that of its data stage's completion. -/
def Kept (es : List ServerEvent) (s : Server) : Prop :=
  ∀ t u b, (s.pc t).filled = some (u, b) → .data ∈ b.submit.stages →
    ∃ c ∈ completions (hcdEvents es), c.urb = stageUrb u .data ∧ c.data = b.data

/-- A URB is filled with the data of its data stage. -/
theorem ServerRun.kept {es : List ServerEvent} {s : Server} (h : ServerRun es s) : Kept es s := by
  have hfills : Fills fun es u b ↦ .data ∈ b.submit.stages →
      ∃ c ∈ completions (hcdEvents es), c.urb = stageUrb u .data ∧ c.data = b.data := by
    constructor
    · intro es u b e hb hd
      obtain ⟨c, hc, hu⟩ := hb hd
      exact ⟨c, completions_mono e hc, hu⟩
    · intro es u b c hno hd
      exact (hno hd).elim
    · intro es u b c _ hc hu _
      exact ⟨c, hc, hu, rfl⟩
  intro t u b hp hd
  rw [CmdSubmit.mem_stages] at hd
  exact h.fills hfills t u b hp hd.1 ((CmdSubmit.mem_stages _ _).mpr hd)

/-- The length in the URB of a thread is that of its data stage's completion, or 0 without a
data stage. -/
theorem ServerRun.counted {es : List ServerEvent} {s : Server} (h : ServerRun es s) {t : Thread}
    {u : Nat} {b : Urb} (hp : (s.pc t).filled = some (u, b))
    (hcontrol : b.submit.isControl = true) :
    .data ∉ b.submit.stages ∧ b.length = 0 ∨ .data ∈ b.submit.stages ∧
      ∃ c ∈ completions (hcdEvents es), c.urb = stageUrb u .data ∧ c.length = b.length := by
  refine h.fills (P := fun es u b ↦ .data ∉ b.submit.stages ∧ b.length = 0 ∨
    .data ∈ b.submit.stages ∧
      ∃ c ∈ completions (hcdEvents es), c.urb = stageUrb u .data ∧ c.length = b.length) ?_
    t u b hp hcontrol
  constructor
  · rintro es u b e (hb | ⟨hd, c, hc, hu⟩)
    · exact .inl hb
    · exact .inr ⟨hd, c, completions_mono e hc, hu⟩
  · intro es u b c hno
    exact .inl ⟨hno, rfl⟩
  · intro es u b c hd hc hu
    exact .inr ⟨hd, c, hc, hu, rfl⟩

end BiMpp.Usbip
