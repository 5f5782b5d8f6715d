import BiMpp.Host.Cancel
import BiMpp.Usbip.Locking

/-!
# Destroying a URB

`hcd_gtd_unlink` as a thread runs it, and what is left of a URB's descriptors when the URB is
destroyed: `bi-mpp-pic24-usb-simulator-master/src/hcd.c:303–325`, `src/sys.c:153–173`,
`src/urb.c:48–57`. `sys_urb_unlink` passes `urb->td`, which is never set.
-/

namespace BiMpp.Usbip
open BiMpp.Usb BiMpp.Base BiMpp.Host BiMpp.Device BiMpp.Base.Prog

/-- A queued descriptor refers to a URB. -/
def RefersTo (h : Hcd) (u : UrbPtr) : Prop :=
  ∃ w i c q, h.HasQueue w i c q ∧ ∃ g ∈ q, ∃ n, h.heap g = some n ∧ n.urb.id = u

namespace Threads

/-! ### `hcd_gtd_unlink` under its lock -/

section Unlink

variable {h : Hcd} {g : GtdPtr}

/-- The search of the thread is the search for the cell in front. -/
theorem searchBehind_eq (fuel : Nat) (p : Option GtdPtr) : searchBehind h g fuel p = (do
    match ← predecessor h g fuel p with
    | some (l, n) =>
      let (_, m) ← h.load (some g)
      return h.setGtd l { n with nextTD := m.nextTD }
    | none => .error .diverged) := by
  induction fuel generalizing p with
  | zero => rfl
  | succ fuel ih =>
    cases p with
    | none => rfl
    | some l =>
      rw [searchBehind, predecessor]
      cases h.load (some l) with
      | error f => rfl
      | ok x =>
        simp only [ok_bind]
        split
        · rfl
        · exact ih x.2.nextTD

/-- However often the loop goes round, it does what its first round does. -/
theorem gtdUnlinkLoop_eq (fuel : Nat) :
    gtdUnlinkLoop h g (fuel + 1) (some 0) = (unlinkAtFirst h g).map (·, true) := by
  have hround : ∀ fuel, gtdUnlinkLoop h g fuel (some 0) = .error .diverged ∨
      gtdUnlinkLoop h g fuel (some 0) = (unlinkAtFirst h g).map (·, true) →
      gtdUnlinkLoop h g (fuel + 1) (some 0) = (unlinkAtFirst h g).map (·, true) := by
    intro fuel hrest
    rw [gtdUnlinkLoop, unlinkAtFirst]
    unfold unlinkAtFirst at hrest
    cases he : h.epd .control 0 with
    | error f => rfl
    | ok e =>
      simp only [he, ok_bind] at hrest ⊢
      by_cases hhead : e.tdQueueHeadPointer = some g
      · rw [if_pos hhead, if_pos hhead]
        cases h.load (some g) with
        | error f => rfl
        | ok x => rfl
      · rw [if_neg hhead, searchBehind_eq] at hrest
        rw [if_neg hhead, if_neg hhead, searchBehind_eq]
        cases hfind : predecessor h g (h.nextGtd + 1) e.tdQueueHeadPointer with
        | error f => rfl
        | ok found =>
          simp only [hfind, ok_bind] at hrest ⊢
          cases found with
          | none => exact hrest.elim id id
          | some x =>
            cases h.load (some g) with
            | error f => rfl
            | ok y => rfl
  induction fuel with
  | zero => exact hround 0 (.inl rfl)
  | succ fuel ih => exact hround (fuel + 1) (.inr ih)

private theorem alone_empty {s : Shared} (h : s.hcd.controlList = []) :
    (hcdGtdUnlink (some g)).alone [] s = some ((), [], s) := by
  show (if s.hcd.controlList.isEmpty then (mutexUnlock .hcd : SimProg Unit)
    else _).alone [.hcd] s = _
  rw [h]
  rfl

private theorem alone_first {s : Shared} {e : Epd} {es : List Epd}
    (h : s.hcd.controlList = e :: es) : (hcdGtdUnlink (some g)).alone [] s =
      (unlinkAtFirst s.hcd g).toOption.map fun h' ↦ ((), [.hcd], { s with hcd := h' }) := by
  show (if s.hcd.controlList.isEmpty then (mutexUnlock .hcd : SimProg Unit) else do
    let _ ← access (fun s : Shared ↦ unlinkAtFirst s.hcd g)
      fun s h' ↦ { s with hcd := h' }).alone [.hcd] s = _
  rw [h]
  show (access (fun s : Shared ↦ unlinkAtFirst s.hcd g) (fun s h' ↦ { s with hcd := h' }) >>=
    fun _ ↦ (ret () : SimProg Unit)).alone [.hcd] s = _
  rw [alone_access]
  cases unlinkAtFirst s.hcd g with
  | ok h' => rfl
  | error f => rfl

/-- `hcd_gtd_unlink` as a thread runs it that holds nothing. -/
theorem hcdGtdUnlink_alone {s s' : Shared} {held : List Mutex} :
    (hcdGtdUnlink (some g)).alone [] s = some ((), held, s') ↔
      ∃ fuel h' b, Host.hcdGtdUnlink s.hcd fuel (some g) = .ok (h', b) ∧
        held = (if b then [.hcd] else []) ∧ s' = { s with hcd := h' } := by
  cases hl : s.hcd.controlList with
  | nil =>
    have hptr : s.hcd.listPtr .control = none := by simp [Hcd.listPtr, Hcd.list, hl]
    rw [alone_empty hl]
    constructor
    · rintro ⟨⟩
      refine ⟨1, s.hcd, false, ?_, rfl, rfl⟩
      rw [Host.hcdGtdUnlink, hptr]
      rfl
    · rintro ⟨fuel, h', b, hloop, rfl, rfl⟩
      rw [Host.hcdGtdUnlink, hptr] at hloop
      cases fuel with
      | zero => cases hloop
      | succ fuel =>
        obtain ⟨rfl, rfl⟩ := Prod.mk.inj (Except.ok.inj hloop)
        rfl
  | cons e es =>
    have hptr : s.hcd.listPtr .control = some 0 := by simp [Hcd.listPtr, Hcd.list, hl]
    rw [alone_first hl]
    constructor
    · intro hs
      cases hu : unlinkAtFirst s.hcd g with
      | error f =>
        rw [hu] at hs
        cases hs
      | ok h₁ =>
        rw [hu] at hs
        cases hs
        refine ⟨1, h₁, true, ?_, rfl, rfl⟩
        rw [Host.hcdGtdUnlink, hptr, gtdUnlinkLoop_eq, hu]
        rfl
    · rintro ⟨fuel, h', b, hloop, rfl, rfl⟩
      rw [Host.hcdGtdUnlink, hptr] at hloop
      cases fuel with
      | zero => cases hloop
      | succ fuel =>
        rw [gtdUnlinkLoop_eq] at hloop
        cases hu : unlinkAtFirst s.hcd g with
        | error f =>
          rw [hu] at hloop
          cases hloop
        | ok h₁ =>
          rw [hu] at hloop
          obtain ⟨rfl, rfl⟩ := Prod.mk.inj (Except.ok.inj hloop)
          rfl

end Unlink

end Threads

/-! ### URBs that are destroyed -/

section Destroy

variable {lib : UsbLib} {es : List ((SimThread × SimInput) × Unit)} {c : Sim}

/-- No URB has a descriptor that destroying it could take out of a queue. -/
theorem SimRun.urbDestroy_hcd (h : SimRun lib es c) {u : UrbPtr} {l l' : List Mutex}
    {s' : Shared} (hrun : (Threads.urbDestroy u).alone l c.shared = some ((), l', s')) :
    s'.hcd = c.shared.hcd := by
  have hsteps := alone_wp (fun _ _ hs hG ↦ hG.td hs) (Threads.urbDestroy_apart onlyHcd_empty u)
    h.tdNull hrun
  clear hrun
  induction hsteps with
  | refl => rfl
  | tail _ hstep ih => exact hstep.hcd.trans ih

/-- A URB that a queued descriptor refers to is still referred to when it has been destroyed. -/
theorem SimRun.refersTo (h : SimRun lib es c) {u : UrbPtr} {l l' : List Mutex} {s' : Shared}
    (hrun : (Threads.urbDestroy u).alone l c.shared = some ((), l', s')) :
    (RefersTo c.shared.hcd u → ¬ RefersTo s'.hcd u) ↔ ¬ RefersTo c.shared.hcd u := by
  rw [h.urbDestroy_hcd hrun]
  exact ⟨fun himp hr ↦ himp hr hr, fun hn _ ↦ hn⟩

end Destroy

/-- `hcd_gtd_unlink` cancels a descriptor if and only if there is no control endpoint and the
descriptor is in no queue, `__hcd_unlink_gtd` removes one if and only if it is not in that
queue, or its head, or not its last, and a URB that is destroyed loses its descriptors if and
only if it had none. -/
theorem cancel_iff {h : Hcd} (hwf : h.WellFormed) (g : GtdPtr) :
    ((∃ fuel h', hcdGtdUnlink h fuel (some g) = .ok (h', false) ∧ h.Cancels g h') ↔
      h.controlList = [] ∧ h.Unqueued g) ∧
    (∀ w i c q, h.HasQueue w i c q →
      ((∃ h', hcdUnlinkGtd h w i g = .ok h' ∧ h.Removes w i g h') ↔
        (g ∈ q → q.head? = some g ∨ q.getLast? ≠ some g))) ∧
    ∀ lib es c, SimRun lib es c → c.shared.hcd = h → ∀ u l l' s',
      (Threads.urbDestroy u).alone l c.shared = some ((), l', s') →
      ((RefersTo h u → ¬ RefersTo s'.hcd u) ↔ ¬ RefersTo h u) := by
  refine ⟨hcdGtdUnlink_cancels h g, fun w i c q hq ↦ hcdUnlinkGtd_removes hwf hq, ?_⟩
  rintro lib es c hrun rfl u l l' s' hdestroy
  exact hrun.refersTo hdestroy

private def readingQueued : List (SimThread × SimInput) :=
  List.replicate 12 (.acceptLoop, inRequest)

/-- A reading that is still queued is destroyed, and the driver keeps referring to it. -/
theorem cancel_iff_example : ∃ lib es c l' s', SimRun lib es c ∧
    RefersTo c.shared.hcd (stageUrb 0 .direct) ∧
    (Threads.urbDestroy (stageUrb 0 .direct)).alone [] c.shared = some ((), l', s') ∧
    RefersTo s'.hcd (stageUrb 0 .direct) := by
  have hcheck : runsTo simExec (Config.init (sharedInit (usbInit 2 [⟨0, []⟩]))) readingQueued
      (fun c _ ↦ decide ((∃ e ∈ (c.shared.hcd.list .bulk)[0]?, e.tdQueueHeadPointer = some 0) ∧
        (∃ n ∈ c.shared.hcd.heap 0, n.urb.id = stageUrb 0 .direct) ∧
        ((Threads.urbDestroy (stageUrb 0 .direct)).alone [] c.shared).isSome)) = true := by
    decide +kernel
  obtain ⟨es, c, hrun, hp⟩ := Run.of_runsTo hcheck
  obtain ⟨⟨e, he, hhead⟩, ⟨n, hn, hid⟩, hsome⟩ := of_decide_eq_true hp
  obtain ⟨⟨_, l', s'⟩, hdestroy⟩ := Option.isSome_iff_exists.mp hsome
  obtain ⟨hes, hhcd⟩ := SimRun.hcd_run hrun
  have hwf := hhcd.wellFormed
  obtain ⟨q, hq, hg⟩ := hwf.queue_of_head he hhead
  have hrefers : RefersTo c.shared.hcd (stageUrb 0 .direct) :=
    ⟨_, _, _, q, hq, 0, hg, n, hn, hid⟩
  obtain ⟨-, -, hleft⟩ := cancel_iff hwf 0
  have hiff := hleft _ es c hrun rfl _ _ _ s' hdestroy
  refine ⟨_, es, c, l', s', hrun, hrefers, hdestroy, ?_⟩
  by_contra hnone
  exact hiff.mp (fun _ ↦ hnone) hrefers

/-- A descriptor that is queued on the only control endpoint leaves the lock held. -/
theorem cancel_held : ¬ ∀ h g w i c q, Hcd.WellFormed h → h.HasQueue w i c q → g ∈ q →
    ∃ fuel h', hcdGtdUnlink h fuel (some g) = .ok (h', false) ∧ h.Cancels g h' := by
  intro hall
  have hcheck : runsTo hcdExec hcdInit
      [.link ⟨0, 0, false, true, 0, 8, [0, 9, 1, 0, 0, 0, 0, 0], 8, ⟨3, 8⟩⟩] (fun h _ ↦
        decide (∃ e ∈ (h.list .control)[0]?, e.tdQueueHeadPointer = some 0)) = true := by
    decide +kernel
  obtain ⟨es, h, hrun, hp⟩ := Run.of_runsTo hcheck
  obtain ⟨e, he, hhead⟩ := of_decide_eq_true hp
  have hwf := HcdRun.wellFormed hrun
  obtain ⟨q, hq, hg⟩ := hwf.queue_of_head he hhead
  have hempty := ((hcdGtdUnlink_cancels h 0).mp (hall h 0 _ _ _ q hwf hq hg)).1
  rw [Hcd.list, hempty] at he
  cases he

end BiMpp.Usbip
