import BiMpp.Host.Fifo
import BiMpp.Usbip.Stages

/-!
# Control transfers on endpoint 0

The three stages of a control transfer are three links with waits between, made by
`accept_loop` and by `system_loop` without a lock that spans them:
`bi-mpp-pic24-usb-simulator-master/src/sys.c:189–231`. Endpoint 0 serves them in link
order, so its transfers do not mix as long as none begins while another has linked its
SETUP and not yet its status stage.
-/

namespace BiMpp.Usbip
open BiMpp.Usb BiMpp.Base BiMpp.Host

/-- Endpoint 0 of a function. -/
def endpointZero (a : Int) : Slot := ⟨.control, ⟨a, 0⟩⟩

/-- Whether a request is for endpoint 0 of a function (`ep & 0xF`). -/
def CmdSubmit.OnZero (c : CmdSubmit) (a : Int) : Prop := c.address = a ∧ c.ep.toInt % 16 = 0

instance (c : CmdSubmit) (a : Int) : Decidable (c.OnZero a) := inferInstanceAs (Decidable (_ ∧ _))

/-- The successful transactions on endpoint 0 of a function. -/
def successesOn (a : Int) (es : List ServerEvent) : List Transaction :=
  (transactionsOn (endpointZero a) (hcdEvents es)).filter fun t ↦ t.response.isAck

/-- Those of one transfer, stage by stage. -/
def transferOn (a : Int) (es : List ServerEvent) (x : Nat × CmdSubmit) : List Transaction :=
  x.2.stages.flatMap fun st ↦ (successesOn a es).filter fun t ↦ t.urb = stageUrb x.1 st

/-- A transfer every stage of which is retired. -/
def Finished (es : List ServerEvent) (x : Nat × CmdSubmit) : Prop :=
  ∀ st ∈ x.2.stages, ∃ r, retirementsOf (stageUrb x.1 st) (hcdEvents es) = [r]

/-- The successful transactions on endpoint 0 are those of one transfer after another,
and none has any before the ones ahead of it are finished. -/
def Serialized (a : Int) (es : List ServerEvent) : Prop :=
  ∃ l : List (Nat × CmdSubmit), (l.map Prod.fst).Nodup ∧ (∀ x ∈ l, x ∈ requests es) ∧
    successesOn a es = l.flatMap (transferOn a es) ∧
    l.Pairwise fun x y ↦ transferOn a es y ≠ [] → Finished es x

/-- A thread that has linked the SETUP of a transfer on endpoint 0 and not its status. -/
def Pc.Midway (a : Int) : Pc → Prop
  | wait _ b .setup _ => b.submit.OnZero a
  | link _ b .data => b.submit.OnZero a
  | wait _ b .data _ => b.submit.OnZero a
  | link _ b .status => b.submit.OnZero a
  | _ => False

instance (a : Int) (p : Pc) : Decidable (p.Midway a) := by
  unfold Pc.Midway
  split <;> infer_instance

/-- The first stage on an endpoint 0 is linked when no thread is midway there. -/
def FirstAlone (s : Server) (e : ServerEvent) : Prop :=
  match e.1 with
  | .link t =>
    match s.pc t with
    | .link _ b st => st = b.submit.firstStage → b.submit.ep.toInt % 16 = 0 →
        ∀ t', ¬ (s.pc t').Midway b.submit.address
    | _ => True
  | _ => True

instance (s : Server) (e : ServerEvent) : Decidable (FirstAlone s e) := by
  unfold FirstAlone
  split
  · split <;> infer_instance
  · infer_instance

/-- The URBs of a whole request. -/
def stageUrbs (x : Nat × CmdSubmit) : List Nat := x.2.stages.map (stageUrb x.1)

/-- A control transfer is over with its status stage. -/
theorem stageUrbs_control {u : Nat} {c : CmdSubmit} (h : c.isControl = true) :
    (if 0 < c.wLength then [stageUrb u .setup, stageUrb u .data] else [stageUrb u .setup]) ++
      [stageUrb u .status] = stageUrbs (u, c) := by
  unfold stageUrbs CmdSubmit.stages
  rw [if_pos h]
  split <;> rfl

/-- The URBs a thread midway has linked. -/
def Pc.partialUrbs (a : Int) : Pc → List Nat
  | wait u b .setup _ => if b.submit.OnZero a then [stageUrb u .setup] else []
  | link u b .data => if b.submit.OnZero a then [stageUrb u .setup] else []
  | wait u b .data _ =>
    if b.submit.OnZero a then [stageUrb u .setup, stageUrb u .data] else []
  | link u b .status =>
    if b.submit.OnZero a then
      if 0 < b.submit.wLength then [stageUrb u .setup, stageUrb u .data] else [stageUrb u .setup]
    else []
  | _ => []

private theorem Pc.partialUrbs_of_not {a : Int} {p : Pc} (h : ¬ p.Midway a) :
    p.partialUrbs a = [] := by
  unfold Pc.Midway at h
  unfold Pc.partialUrbs
  split at h <;> simp_all

private theorem Pc.midway_of_partialUrbs {a : Int} {p : Pc} (h : p.partialUrbs a ≠ []) :
    p.Midway a := by
  by_contra hm
  exact h (partialUrbs_of_not hm)

/-- All stages of a request for endpoint 0 go there, and no others. -/
theorem Urb.linkArgs_slot (u : Nat) (b : Urb) (st : Stage) (a : Int) :
    (b.linkArgs u st).slot = endpointZero a ↔ b.submit.OnZero a := by
  have hkey : (b.linkArgs u st).key = ⟨b.submit.address, b.submit.ep.toInt % 16⟩ := by
    cases st <;> rfl
  have hend : (b.linkArgs u st).endpoint = b.submit.ep.toInt % 16 := by
    cases st <;> rfl
  unfold LinkArgs.slot endpointZero CmdSubmit.OnZero LinkArgs.list
  rw [hkey, hend, Slot.mk.injEq, EpdKey.mk.injEq]
  constructor
  · exact fun h ↦ h.2
  · exact fun h ↦ ⟨if_pos (.inr h.2), h⟩

/-! ### Links of one transfer stay together -/

/-- The links of endpoint 0: whole requests, and of the last one what its thread has
linked so far. -/
structure Lined (a : Int) (es : List ServerEvent) (s : Server) : Prop where
  urbs : ∃ l : List (Nat × CmdSubmit), (∀ x ∈ l, x ∈ requests es) ∧
    urbsOn (endpointZero a) (hcdEvents es) =
      l.flatMap stageUrbs ++ Thread.collect fun t ↦ (s.pc t).partialUrbs a
  alone : ∀ t t', (s.pc t).partialUrbs a ≠ [] → (s.pc t').partialUrbs a ≠ [] → t = t'

private theorem urbsOn_hcdEvents_snoc (v : Slot) (es : List ServerEvent) (e : ServerEvent) :
    urbsOn v (hcdEvents (es ++ [e])) = urbsOn v (hcdEvents es) ++
      ((ServerEvent.linked e).toList.filter fun l ↦ l.2.slot = v).map fun l ↦ l.2.urb.id := by
  unfold urbsOn
  rw [links_hcdEvents_snoc, List.filter_append, List.map_append]

private theorem partialUrbs_own {a : Int} {t : Thread} {p p' : Pc} {e : ServerEvent}
    (h : PcStep t p e p')
    (hold : ∀ u b st, p.held = some (u, b) → p.stage = some st → st ∈ b.submit.stages) :
    p'.partialUrbs a = p.partialUrbs a := by
  cases h with
  | @insert u b =>
    unfold CmdSubmit.firstStage
    split <;> rfl
  | @resume u b st c =>
    have hmem := hold u b st rfl rfl
    rw [CmdSubmit.mem_stages] at hmem
    unfold Urb.advance
    rw [Urb.submit_afterStage]
    cases st with
    | setup =>
      by_cases hw : 0 < b.submit.wLength
      · simp [CmdSubmit.nextStage, Pc.partialUrbs, hw]
      · simp [CmdSubmit.nextStage, Pc.partialUrbs, hw]
    | data =>
      have hw : 0 < b.submit.wLength := hmem.2
      simp [CmdSubmit.nextStage, Pc.partialUrbs, hw]
    | status =>
      simp only [CmdSubmit.nextStage]
      split <;> rfl
    | direct =>
      simp only [CmdSubmit.nextStage]
      split <;> rfl
  | header => split <;> rfl
  | payload => rfl
  | free => rfl

namespace Lined

variable {a : Int} {es : List ServerEvent} {s s' : Server} {e : ServerEvent}

/-- No control stage is linked before the first step. -/
theorem init (a : Int) : Lined a [] serverInit where
  urbs := ⟨[], nofun, rfl⟩
  alone _ _ h := (h rfl).elim

private theorem quiet (h : Lined a es s)
    (hurbs : urbsOn (endpointZero a) (hcdEvents (es ++ [e])) =
      urbsOn (endpointZero a) (hcdEvents es))
    (hpart : ∀ t, (s'.pc t).partialUrbs a = (s.pc t).partialUrbs a) :
    Lined a (es ++ [e]) s' := by
  obtain ⟨l, hl, heq⟩ := h.urbs
  refine ⟨⟨l, fun x hx ↦ requests_mono e (hl x hx), ?_⟩, ?_⟩
  · rw [hurbs, heq]
    exact congrArg _ (congrArg Thread.collect (funext hpart)).symm
  · intro t t'
    rw [hpart, hpart]
    exact h.alone t t'

private theorem link (h : Lined a es s) {t : Thread} {u : Nat} {b : Urb} {st : Stage} {p : Pc}
    {g : GtdPtr} (hother : ∀ t', t' ≠ t → (s.pc t').partialUrbs a = [])
    (hlinked : ServerEvent.linked e = some (g, b.linkArgs u st)) (hzero : b.submit.OnZero a)
    (hpc : s'.pc = (s.setPc t p).pc)
    (hnew : ∀ l : List (Nat × CmdSubmit), (∀ x ∈ l, x ∈ requests es) →
      ∃ l' : List (Nat × CmdSubmit), (∀ x ∈ l', x ∈ requests es) ∧
      l.flatMap stageUrbs ++ (s.pc t).partialUrbs a ++ [stageUrb u st] =
        l'.flatMap stageUrbs ++ p.partialUrbs a) : Lined a (es ++ [e]) s' := by
  obtain ⟨l, hl, heq⟩ := h.urbs
  rw [Thread.collect_of_alone hother] at heq
  obtain ⟨l', hl', hlast⟩ := hnew l hl
  have hself : (s'.pc t).partialUrbs a = p.partialUrbs a := by
    rw [hpc, Server.pc_setPc, if_pos rfl]
  have hrest : ∀ t', t' ≠ t → (s'.pc t').partialUrbs a = [] := by
    intro t' ht
    rw [hpc, Server.pc_setPc, if_neg ht]
    exact hother t' ht
  constructor
  · refine ⟨l', fun x hx ↦ requests_mono e (hl' x hx), ?_⟩
    rw [urbsOn_hcdEvents_snoc, hlinked, heq, Thread.collect_of_alone hrest, hself, ← hlast]
    simp [(Urb.linkArgs_slot u b st a).mpr hzero]
  · exact fun _ _ ↦ Thread.alone_of hrest

private theorem elsewhere (h : Lined a es s) {t : Thread} {u : Nat} {b : Urb} {st : Stage}
    {p : Pc} {g : GtdPtr} (ht : s.pc t = .link u b st)
    (hlinked : ServerEvent.linked e = some (g, b.linkArgs u st)) (hzero : ¬ b.submit.OnZero a)
    (hpc : s'.pc = (s.setPc t p).pc) (hp : p.partialUrbs a = []) : Lined a (es ++ [e]) s' := by
  have hslot : (b.linkArgs u st).slot ≠ endpointZero a :=
    fun h ↦ hzero ((Urb.linkArgs_slot u b st a).mp h)
  refine h.quiet ?_ fun t' ↦ ?_
  · rw [urbsOn_hcdEvents_snoc, hlinked]
    simp [hslot]
  · rw [hpc, Server.pc_setPc]
    split
    · next he =>
      rw [he, hp, ht, Pc.partialUrbs_of_not]
      unfold Pc.Midway
      cases st with
      | setup => exact id
      | data => exact hzero
      | status => exact hzero
      | direct => exact id
    · rfl

private theorem append_request {l : List (Nat × CmdSubmit)} {x : Nat × CmdSubmit}
    (hl : ∀ y ∈ l, y ∈ requests es) (hx : x ∈ requests es) : ∀ y ∈ l ++ [x], y ∈ requests es := by
  intro y hy
  rcases List.mem_append.mp hy with hy | hy
  · exact hl y hy
  · rw [List.mem_singleton.mp hy]
    exact hx

private theorem others_of_first {t : Thread} {u : Nat} {b : Urb} {st : Stage} {out : ServerOut}
    (hok : FirstAlone s (.link t, out)) (ht : s.pc t = .link u b st)
    (hst : st = b.submit.firstStage) (hzero : b.submit.OnZero a) :
    ∀ t', (s.pc t').partialUrbs a = [] := by
  intro t'
  apply Pc.partialUrbs_of_not
  unfold FirstAlone at hok
  simp only [ht] at hok
  rw [← hzero.1]
  exact hok hst hzero.2 t'

private theorem others_of_later (h : Lined a es s) {t : Thread}
    (ht : (s.pc t).partialUrbs a ≠ []) : ∀ t', t' ≠ t → (s.pc t').partialUrbs a = [] :=
  Thread.others_of_alone h.alone ht

private theorem linkStage (h : Lined a es s) (hh : Held es s) {t : Thread} {u : Nat} {b : Urb}
    {st : Stage} {g : GtdPtr} {out : ServerOut} (ht : s.pc t = .link u b st) (hst : st ≠ .direct)
    (hlinked : ServerEvent.linked (.link t, out) = some (g, b.linkArgs u st))
    (hok : FirstAlone s (.link t, out))
    (hpc : s'.pc = (s.setPc t (.wait u b st none)).pc) : Lined a (es ++ [(.link t, out)]) s' := by
  have hheld : (s.pc t).held = some (u, b) := by rw [ht]; rfl
  have hreq := hh.mine t u b hheld
  have hmem : st ∈ b.submit.stages := hh.staged t u b st hheld (by rw [ht]; rfl)
  rw [CmdSubmit.mem_stages] at hmem
  by_cases hzero : b.submit.OnZero a
  · cases st with
    | setup =>
      have hfirst : Stage.setup = b.submit.firstStage := (if_pos hmem).symm
      have hnone := others_of_first hok ht hfirst hzero
      refine h.link (fun t' _ ↦ hnone t') hlinked hzero hpc fun l hl ↦ ⟨l, hl, ?_⟩
      rw [hnone t, List.append_nil]
      simp [Pc.partialUrbs, hzero]
    | data =>
      have hpart : (s.pc t).partialUrbs a = [stageUrb u .setup] := by
        rw [ht]
        exact if_pos hzero
      refine h.link (h.others_of_later (by rw [hpart]; simp)) hlinked hzero hpc
        fun l hl ↦ ⟨l, hl, ?_⟩
      rw [hpart]
      simp [Pc.partialUrbs, hzero]
    | status =>
      have hcontrol : b.submit.isControl = true := hmem
      have hpart : (s.pc t).partialUrbs a = if 0 < b.submit.wLength then
          [stageUrb u .setup, stageUrb u .data] else [stageUrb u .setup] := by
        rw [ht]
        exact if_pos hzero
      have hne : (s.pc t).partialUrbs a ≠ [] := by
        rw [hpart]
        split <;> simp
      -- the status stage completes the request
      refine h.link (h.others_of_later hne) hlinked hzero hpc
        fun l hl ↦ ⟨l ++ [(u, b.submit)], append_request hl hreq, ?_⟩
      have hlast : (Pc.wait u b .status none).partialUrbs a = [] := rfl
      rw [hpart, hlast, List.append_nil, List.append_assoc, stageUrbs_control hcontrol]
      simp
    | direct => exact (hst rfl).elim
  · refine h.elsewhere ht hlinked hzero hpc (Pc.partialUrbs_of_not ?_)
    unfold Pc.Midway
    cases st with
    | setup => exact hzero
    | data => exact hzero
    | status => exact id
    | direct => exact id

private theorem linkDirect (h : Lined a es s) (hh : Held es s) {t : Thread} {u : Nat} {b : Urb}
    {g : GtdPtr} {out : ServerOut} (ht : s.pc t = .link u b .direct)
    (hlinked : ServerEvent.linked (.link t, out) = some (g, b.linkArgs u .direct))
    (hok : FirstAlone s (.link t, out)) (hpc : s'.pc = (s.setPc t .idle).pc) :
    Lined a (es ++ [(.link t, out)]) s' := by
  have hheld : (s.pc t).held = some (u, b) := by rw [ht]; rfl
  have hmem : Stage.direct ∈ b.submit.stages := hh.staged t u b .direct hheld (by rw [ht]; rfl)
  rw [CmdSubmit.mem_stages] at hmem
  have hcontrol : b.submit.isControl = false := hmem
  by_cases hzero : b.submit.OnZero a
  · have hfirst : Stage.direct = b.submit.firstStage := by simp [CmdSubmit.firstStage, hcontrol]
    have hnone := others_of_first hok ht hfirst hzero
    refine h.link (fun t' _ ↦ hnone t') hlinked hzero hpc
      fun l hl ↦ ⟨l ++ [(u, b.submit)], append_request hl (hh.mine t u b hheld), ?_⟩
    have hidle : Pc.idle.partialUrbs a = [] := rfl
    rw [hnone t, hidle, List.flatMap_append]
    simp [stageUrbs, CmdSubmit.stages, hcontrol]
  · exact h.elsewhere ht hlinked hzero hpc rfl

/-- Every step that begins no transfer while another is midway keeps the links of one
transfer together. -/
theorem step (h : Lined a es s) (hh : Held es s) (hs : ServerStep s e s')
    (hok : FirstAlone s e) : Lined a (es ++ [e]) s' := by
  have hnone : ServerEvent.linked e = none →
      urbsOn (endpointZero a) (hcdEvents (es ++ [e])) =
        urbsOn (endpointZero a) (hcdEvents es) := by
    intro hl
    rw [urbsOn_hcdEvents_snoc, hl]
    exact List.append_nil _
  cases hs with
  | start _ hidle =>
    refine h.quiet (hnone rfl) (Server.same_setPc ?_ rfl)
    rw [hidle]
    rfl
  | @move t e p l hp =>
    exact h.quiet (hnone hp.linked) (Server.same_setPc (partialUrbs_own hp (hh.staged t)) rfl)
  | @linkStage t u b st x loop ht hst _ hx hfire =>
    obtain ⟨g, hg⟩ := ServerEvent.linked_link (t := t) hx hfire
    exact h.linkStage hh ht hst hg hok rfl
  | @linkDirect t u b x loop ht _ hx hfire =>
    obtain ⟨g, hg⟩ := ServerEvent.linked_link (t := t) hx hfire
    exact h.linkDirect hh ht hg hok rfl
  | loop _ hx hfire => exact h.quiet (hnone (ServerEvent.linked_other hx hfire)) fun _ ↦ rfl
  | @doneStage r x loop c t u b st _ hx hfire _ _ _ hpc =>
    refine h.quiet (hnone (ServerEvent.linked_other (by rw [hx]; exact nofun) hfire))
      (Server.same_setPc ?_ rfl)
    rw [hpc]
    cases st <;> rfl
  | doneDirect hidle hx hfire =>
    refine h.quiet (hnone (ServerEvent.linked_other (by rw [hx]; exact nofun) hfire))
      (Server.same_setPc ?_ rfl)
    rw [hidle]
    rfl

end Lined

/-! ### Transfers one after another -/

private theorem owner_of_mem {x : Nat × CmdSubmit} {v : Nat} (h : v ∈ stageUrbs x) :
    urbOwner v = x.1 := by
  obtain ⟨st, -, rfl⟩ := List.mem_map.mp h
  exact urbOwner_stageUrb _ _

private theorem CmdSubmit.stages_nodup (c : CmdSubmit) : c.stages.Nodup := by
  unfold stages
  split
  · split <;> decide
  · decide

private theorem stageUrbs_nodup (x : Nat × CmdSubmit) : (stageUrbs x).Nodup :=
  (CmdSubmit.stages_nodup x.2).map fun _ _ h ↦ (stageUrb_inj h).2

/-- The first URB of a request. -/
theorem first_mem_stageUrbs (x : Nat × CmdSubmit) : stageUrb x.1 x.2.firstStage ∈ stageUrbs x :=
  List.mem_map_of_mem (CmdSubmit.firstStage_mem x.2)

private theorem partialUrbs_prefix {a : Int} {p : Pc} (h : p.partialUrbs a ≠ [])
    (hst : ∀ u b st, p.held = some (u, b) → p.stage = some st → st ∈ b.submit.stages) :
    ∃ u b, p.held = some (u, b) ∧ p.partialUrbs a <+: stageUrbs (u, b.submit) ∧
      stageUrb u b.submit.firstStage ∈ p.partialUrbs a := by
  have hm := Pc.midway_of_partialUrbs h
  have hstages : ∀ {u : Nat} {b : Urb} {st : Stage}, p.held = some (u, b) → p.stage = some st →
      b.submit.Has st := fun hheld hstage ↦ (CmdSubmit.mem_stages _ _).mp (hst _ _ _ hheld hstage)
  unfold Pc.Midway at hm
  split at hm
  · next u b c =>
    have hcontrol : b.submit.isControl = true := hstages rfl rfl
    refine ⟨u, b, rfl, ?_, ?_⟩
    · simp only [Pc.partialUrbs, if_pos hm, stageUrbs, CmdSubmit.stages, if_pos hcontrol]
      split <;> simp
    · simp [Pc.partialUrbs, hm, CmdSubmit.firstStage, hcontrol]
  · next u b =>
    obtain ⟨hcontrol, hw⟩ : b.submit.isControl = true ∧ 0 < b.submit.wLength := hstages rfl rfl
    refine ⟨u, b, rfl, ?_, ?_⟩
    · simp [Pc.partialUrbs, hm, stageUrbs, CmdSubmit.stages, hcontrol, hw]
    · simp [Pc.partialUrbs, hm, CmdSubmit.firstStage, hcontrol]
  · next u b c =>
    obtain ⟨hcontrol, hw⟩ : b.submit.isControl = true ∧ 0 < b.submit.wLength := hstages rfl rfl
    refine ⟨u, b, rfl, ?_, ?_⟩
    · simp [Pc.partialUrbs, hm, stageUrbs, CmdSubmit.stages, hcontrol, hw]
    · simp [Pc.partialUrbs, hm, CmdSubmit.firstStage, hcontrol]
  · next u b =>
    have hcontrol : b.submit.isControl = true := hstages rfl rfl
    refine ⟨u, b, rfl, ?_, ?_⟩
    · simp only [Pc.partialUrbs, if_pos hm, ← stageUrbs_control hcontrol]
      exact List.prefix_append _ _
    · simp only [Pc.partialUrbs, if_pos hm, CmdSubmit.firstStage, if_pos hcontrol]
      split <;> simp
  · exact hm.elim

/-- The URBs of an endpoint are those of requests apart, whole but for the last. -/
structure Blocks (l : List (Nat × CmdSubmit)) (urbs : List Nat) : Prop where
  apart : (l.map Prod.fst).Nodup
  within : urbs <+: l.flatMap stageUrbs
  whole : ∀ r₁ r₂, l = r₁ ++ r₂ → r₂ ≠ [] → r₁.flatMap stageUrbs <+: urbs

private theorem fst_nodup {es : List ServerEvent} {s : Server} (hh : Held es s)
    {l : List (Nat × CmdSubmit)} (hl : ∀ x ∈ l, x ∈ requests es)
    (hnd : (l.flatMap stageUrbs).Nodup) : (l.map Prod.fst).Nodup := by
  induction l with
  | nil => exact List.nodup_nil
  | cons x l ih =>
    rw [List.flatMap_cons, List.nodup_append] at hnd
    rw [List.map_cons, List.nodup_cons]
    refine ⟨?_, ih (fun y hy ↦ hl y (List.mem_cons_of_mem _ hy)) hnd.2.1⟩
    intro hmem
    obtain ⟨⟨u, c⟩, hy, hu⟩ := List.mem_map.mp hmem
    have hx := hl x List.mem_cons_self
    have hy' := hl _ (List.mem_cons_of_mem _ hy)
    have hxy : (u, c) = x := by
      obtain ⟨u', c'⟩ := x
      obtain rfl : u = u' := hu
      rw [hh.request_unique hx hy']
    rw [hxy] at hy
    exact hnd.2.2 _ (first_mem_stageUrbs x) _
      (List.mem_flatMap.mpr ⟨x, hy, first_mem_stageUrbs x⟩) rfl

private theorem Lined.blocks {a : Int} {es : List ServerEvent} {s : Server} (h : Lined a es s)
    (hh : Held es s) (hnd : (urbsOn (endpointZero a) (hcdEvents es)).Nodup) :
    ∃ l, (∀ x ∈ l, x ∈ requests es) ∧ Blocks l (urbsOn (endpointZero a) (hcdEvents es)) := by
  obtain ⟨l, hl, heq⟩ := h.urbs
  rw [heq] at hnd ⊢
  have hapart := fst_nodup hh hl (List.nodup_append.mp hnd).1
  by_cases hnone : ∀ t, (s.pc t).partialUrbs a = []
  · rw [Thread.collect_eq_nil.mpr hnone, List.append_nil]
    refine ⟨l, hl, hapart, List.prefix_refl _, ?_⟩
    rintro r₁ r₂ rfl -
    rw [List.flatMap_append]
    exact List.prefix_append _ _
  · obtain ⟨t, ht⟩ := not_forall.mp hnone
    rw [Thread.collect_of_alone (h.others_of_later ht)] at hnd ⊢
    obtain ⟨u, b, hheld, hpre, hfirst⟩ := partialUrbs_prefix ht (hh.staged t)
    have hreq := hh.mine t u b hheld
    refine ⟨l ++ [(u, b.submit)], append_request hl hreq, ?_, ?_, ?_⟩
    · rw [List.map_append, List.nodup_append]
      refine ⟨hapart, by simp, ?_⟩
      rintro v hv v' hv' rfl
      obtain ⟨⟨u', c⟩, hy, hu⟩ := List.mem_map.mp hv
      have hvu : v = u := List.mem_singleton.mp hv'
      obtain rfl : u' = u := Eq.trans hu hvu
      obtain rfl : c = b.submit := hh.request_unique (hl _ hy) hreq
      exact (List.nodup_append.mp hnd).2.2 _
        (List.mem_flatMap.mpr ⟨_, hy, first_mem_stageUrbs (u', b.submit)⟩) _ hfirst rfl
    · rw [List.flatMap_append, List.flatMap_singleton]
      exact (List.prefix_append_right_inj _).mpr hpre
    · intro r₁ r₂ hr hne
      have hr₁ : r₁ <+: l := by
        refine List.prefix_of_prefix_length_le ⟨r₂, hr.symm⟩ (List.prefix_append _ _) ?_
        have hlen := congrArg List.length hr
        have hpos := List.length_pos_iff.mpr hne
        simp only [List.length_append, List.length_singleton] at hlen
        omega
      obtain ⟨r, rfl⟩ := hr₁
      rw [List.flatMap_append, List.append_assoc]
      exact List.prefix_append _ _

private theorem Blocks.nodup {l : List (Nat × CmdSubmit)} {urbs : List Nat} (h : Blocks l urbs) :
    (l.flatMap stageUrbs).Nodup := by
  rw [List.nodup_flatMap]
  refine ⟨fun x _ ↦ stageUrbs_nodup x, ?_⟩
  refine (List.pairwise_map.mp h.apart).imp ?_
  intro x y hne v hx hy
  exact hne ((owner_of_mem hx).symm.trans (owner_of_mem hy))

private theorem Blocks.transfers {a : Int} {es : List ServerEvent} {l : List (Nat × CmdSubmit)}
    {urbs : List Nat} (h : Blocks l urbs) (hg : Grouped Transaction.urb urbs (successesOn a es)) :
    successesOn a es = l.flatMap (transferOn a es) := by
  have htransfer : ∀ x ∈ l, transferOn a es x =
      (stageUrbs x).flatMap fun v ↦ (successesOn a es).filter fun t ↦ t.urb = v := by
    intro x _
    rw [transferOn, stageUrbs, List.flatMap_map]
  obtain ⟨rest, hrest⟩ := h.within
  have hnd := h.nodup
  rw [← hrest, List.nodup_append] at hnd
  have hnil : (rest.flatMap fun v ↦ (successesOn a es).filter fun t ↦ t.urb = v) = [] := by
    rw [List.flatMap_eq_nil_iff]
    intro v hv
    exact Grouped.block_nil fun t ht he ↦ hnd.2.2 t.urb (hg.mem ht) v hv he
  rw [List.flatMap_congr htransfer, ← List.flatMap_assoc, ← hrest, List.flatMap_append, hnil,
    List.append_nil]
  exact hg

private theorem mem_transferOn {a : Int} {es : List ServerEvent} {x : Nat × CmdSubmit}
    {t : Transaction} (h : t ∈ transferOn a es x) :
    t ∈ successesOn a es ∧ urbOwner t.urb = x.1 := by
  obtain ⟨st, -, ht⟩ := List.mem_flatMap.mp h
  obtain ⟨ht, hurb⟩ := List.mem_filter.mp ht
  have hurb : t.urb = stageUrb x.1 st := of_decide_eq_true hurb
  exact ⟨ht, by rw [hurb, urbOwner_stageUrb]⟩

private theorem Blocks.behind {l₁ l₂ : List (Nat × CmdSubmit)} {urbs : List Nat}
    (h : Blocks (l₁ ++ l₂) urbs) {y : Nat × CmdSubmit} (hy : y ∈ l₂) {v : Nat} (hv : v ∈ urbs)
    (hvy : urbOwner v = y.1) : ∃ b₁ b₂, urbs = (l₁.flatMap stageUrbs ++ b₁) ++ v :: b₂ := by
  obtain ⟨post, hpost⟩ := h.whole l₁ l₂ rfl (List.ne_nil_of_mem hy)
  have hpos : v ∈ post := by
    rw [← hpost] at hv
    refine (List.mem_append.mp hv).resolve_left fun hv ↦ ?_
    obtain ⟨z, hz, hvz⟩ := List.mem_flatMap.mp hv
    have hzy : z.1 = y.1 := by rw [← owner_of_mem hvz, hvy]
    have hapart := h.apart
    rw [List.map_append, List.nodup_append] at hapart
    exact hapart.2.2 _ (List.mem_map_of_mem hz) _ (List.mem_map_of_mem hy) hzy
  obtain ⟨b₁, b₂, rfl⟩ := List.append_of_mem hpos
  exact ⟨b₁, b₂, by rw [← hpost, List.append_assoc]⟩

private theorem ServerRun.lined {es : List ServerEvent} {s : Server}
    (h : Run (Guarded (Fires serverExec) FirstAlone) serverInit es s) (a : Int) :
    Lined a es s := by
  refine Run.invariant (P := Lined a) (Lined.init a) ?_ h
  intro es s e s' hrun ih hfire
  exact ih.step (ServerRun.held hrun.unguarded) (serverStep_of_exec hfire.1) hfire.2

/-- As long as no transfer is begun while another is midway on the same endpoint
0, every endpoint 0 sees whole transfers, one after another. -/
theorem ServerRun.control_serialized {es : List ServerEvent} {s : Server}
    (h : Run (Guarded (Fires serverExec) FirstAlone) serverInit es s) (a : Int) :
    Serialized a es := by
  have hrun : ServerRun es s := h.unguarded
  have hown := (ServerRun.tracked hrun).once
  obtain ⟨q, hq⟩ := ServerRun.queues hrun
  have hfifo : Fifo (hcdEvents es) q := hq.fifo hown
  obtain ⟨l, hl, hblocks⟩ :=
    (ServerRun.lined h a).blocks (ServerRun.held hrun) (hown.sublist (urbsOn_sublist _ _))
  have hg : Grouped Transaction.urb (urbsOn (endpointZero a) (hcdEvents es)) (successesOn a es) :=
    (hfifo.grouped _).filter _
  refine ⟨l, hblocks.apart, hl, hblocks.transfers hg, ?_⟩
  rw [List.pairwise_iff_forall_sublist]
  intro x y hxy hne
  obtain ⟨l₁, l₂, rfl, hx, hy⟩ := List.cons_sublist_iff.mp hxy
  obtain ⟨t, ht⟩ := List.exists_mem_of_ne_nil _ hne
  obtain ⟨hts, howner⟩ := mem_transferOn ht
  obtain ⟨b₁, b₂, hsplit⟩ :=
    hblocks.behind (List.singleton_sublist.mp hy) (hg.mem hts) howner
  -- a URB behind those of `x` was tried, so they are retired
  intro st hst
  have hin : stageUrb x.1 st ∈ l₁.flatMap stageUrbs ++ b₁ :=
    List.mem_append_left _ (List.mem_flatMap.mpr ⟨x, hx, List.mem_map_of_mem hst⟩)
  have htrans : t ∈ transactions (hcdEvents es) :=
    transactionsOn_subset _ _ (List.mem_filter.mp hts).1
  obtain ⟨n, r, hr⟩ :=
    hfifo.retired_before hq.ledger (hq.account hown) hown hsplit htrans rfl _ hin
  exact ⟨r, hr.retirement⟩

private def setConfiguration : CmdSubmit := ⟨0, 1, 0, 0, 0, [0, 9, 1, 0, 0, 0, 0, 0]⟩

private def getConfiguration : CmdSubmit := ⟨9, 0x10001, 1, 0, 1, [0x80, 8, 0, 0, 0, 0, 1, 0]⟩

private def controlRound (rs : List Response) : List ServerOp :=
  rs.flatMap hcdTurn ++ hcdTurn .nak ++ hcdTurn .nak

private def beginOps (t : Thread) (c : CmdSubmit) (data : List UInt8) : List ServerOp :=
  [.start t c 8 data, .insert t, .link t]

private def nextOps (t : Thread) : List ServerOp := [.resume t, .link t]

/-- Two control requests to one device are serialized. -/
theorem ServerRun.control_serialized_example : ∃ es s,
    Run (Guarded (Fires serverExec) FirstAlone) serverInit es s ∧
    ((successesOn 1 es).map fun t ↦ urbOwner t.urb) = [0, 0, 1] ∧ Serialized 1 es := by
  have hcheck : runsTo (guardedExec serverExec FirstAlone .blocked) serverInit
      (beginOps .system setConfiguration [] ++ controlRound [.ack 8 [], .nak, .nak, .nak] ++
        nextOps .system ++ beginOps .accept getConfiguration [0] ++
        controlRound [.ack 0 [], .ack 8 [], .nak, .nak]) (fun _ es ↦
        decide (((successesOn 1 es).map fun t ↦ urbOwner t.urb) = [0, 0, 1])) = true := by
    decide +kernel
  obtain ⟨es, s, hrun, hp⟩ := Run.of_runsTo hcheck
  have hrun' := Run.of_guardedExec hrun
  exact ⟨es, s, hrun', of_decide_eq_true hp, ServerRun.control_serialized hrun' 1⟩

/-- Serialized transfers do not take turns. -/
theorem Serialized.no_return {a : Int} {es : List ServerEvent} (h : Serialized a es) {u v : Nat}
    (huv : [u, v, u].Sublist ((successesOn a es).map fun t ↦ urbOwner t.urb)) : u = v := by
  obtain ⟨l, hnd, -, heq, -⟩ := h
  rw [heq] at huv
  refine BiMpp.Base.no_return hnd ?_ huv
  intro x _ t ht
  exact (mem_transferOn ht).2

/-- Both threads set up a transfer before either is over. -/
theorem ServerRun.control_interleaved : ¬ ∀ es s, ServerRun es s → ∀ a, Serialized a es := by
  intro hall
  have hcheck : runsTo serverExec serverInit
      (beginOps .system setConfiguration [] ++ beginOps .accept getConfiguration [0] ++
        controlRound [.ack 8 [], .ack 8 [], .nak, .nak] ++ nextOps .accept ++
        controlRound [.ack 1 [1], .nak, .nak, .nak] ++ nextOps .accept ++
        controlRound [.ack 0 [], .nak, .nak, .nak] ++ controlRound [.nak, .nak, .nak, .nak] ++
        nextOps .system ++ controlRound [.ack 0 [], .nak, .nak, .nak]) (fun _ es ↦
        decide ([0, 1, 0].Sublist ((successesOn 1 es).map fun t ↦ urbOwner t.urb))) = true := by
    decide +kernel
  obtain ⟨es, s, hrun, hp⟩ := Run.of_runsTo hcheck
  exact absurd (Serialized.no_return (hall es s hrun 1) (of_decide_eq_true hp)) (by decide)

end BiMpp.Usbip
