import BiMpp.Host.Agreement
import BiMpp.Host.History

/-!
# The host controller's thread

`hcd_loop` of `bi-mpp-pic24-usb-simulator-master/src/hcd.c:327–364` with
`hcd_wait_for_event` as its guard, in atomic steps: the guard, the evaluation of the
argument `hcd->control_list` or `hcd->bulk_list` outside the lock, and the locked body.
Between any two of them other threads link.
-/

namespace BiMpp.Host
open BiMpp.Usb BiMpp.Base

/-- The values of `state`: 0 to 3, −1 and −2; `hcd.c:330–360`. -/
inductive LoopSlot
  | control (i : Fin 4)
  | bulk
  | done
  deriving DecidableEq, Repr

/-- The list a slot serves; the last slot serves the done list. -/
def LoopSlot.list : LoopSlot → Option EpdList
  | control _ => some .control
  | bulk => some .bulk
  | done => none

/-- The assignment to `state` at the end of each case. -/
def LoopSlot.next : LoopSlot → LoopSlot
  | control 0 => control 1
  | control 1 => control 2
  | control 2 => control 3
  | control 3 => bulk
  | bulk => done
  | done => control 0

/-- Where the thread stands: in `hcd_wait_for_event`, before the evaluation of the
argument, or before the locked body with the argument it was called with. -/
inductive LoopPc
  | wait
  | evaluate
  | body (epd : Option EpdPtr)
  deriving DecidableEq, Repr

/-- The driver with its thread. -/
structure Loop where
  hcd : Hcd
  slot : LoopSlot
  pc : LoopPc

/-- Before the thread's first step. -/
def loopInit : Loop := ⟨hcdInit, .control 0, .wait⟩

/-- The steps: a link of another thread, and the three of `hcd_loop`, the last with the
device's response. -/
inductive LoopOp
  | link (a : LinkArgs)
  | wake
  | evaluate
  | body (r : Response)
  deriving DecidableEq, Repr

/-- The argument of the call: the list's head pointer as it is now; `hcd.c:337–353`. -/
def LoopSlot.argument (slot : LoopSlot) (h : Hcd) : Option EpdPtr := slot.list.bind h.listPtr

/-- The locked body of a slot. -/
def LoopSlot.call (slot : LoopSlot) (epd : Option EpdPtr) (r : Response) : HcdOp :=
  match slot.list with
  | some w => .send w epd r
  | none => .processDoneList

/-- A locked operation of the driver, with its event. -/
def Loop.locked (s : Loop) (op : HcdOp) : Except Stop (Hcd × HcdEvent) :=
  match hcdExec s.hcd op with
  | .ok (h, out) => .ok (h, (op, out))
  | .error f => .error (.fault f)

/-- One atomic step, with the driver event it makes. -/
def loopExec (s : Loop) : LoopOp → Except Stop (Loop × Option HcdEvent)
  | .link a => do
    let (h, e) ← s.locked (.link a)
    return ({ s with hcd := h }, some e)
  | .wake =>
    if s.pc = .wait ∧ s.hcd.notify ≠ 0 then .ok ({ s with pc := .evaluate }, none)
    else .error .blocked
  | .evaluate =>
    if s.pc = .evaluate then .ok ({ s with pc := .body (s.slot.argument s.hcd) }, none)
    else .error .blocked
  | .body r =>
    match s.pc with
    | .body epd => do
      let (h, e) ← s.locked (s.slot.call epd r)
      return (⟨h, s.slot.next, .wait⟩, some e)
    | _ => .error .blocked

/-- A step with the driver event it made. -/
abbrev LoopEvent := LoopOp × Option HcdEvent

/-- Finite runs of the thread among other threads' links. -/
abbrev LoopRun : List LoopEvent → Loop → Prop := Run (Fires loopExec) loopInit

/-- The driver events of a history. -/
def driverEvents (es : List LoopEvent) : List HcdEvent := es.filterMap Prod.snd

/-- The transitions of the thread and its environment. -/
inductive LoopStep (s : Loop) : LoopEvent → Loop → Prop
  | link {a : LinkArgs} {h : Hcd} {out : HcdOut} : hcdExec s.hcd (.link a) = .ok (h, out) →
      LoopStep s (.link a, some (.link a, out)) { s with hcd := h }
  | wake : s.pc = .wait → s.hcd.notify ≠ 0 → LoopStep s (.wake, none) { s with pc := .evaluate }
  | evaluate : s.pc = .evaluate →
      LoopStep s (.evaluate, none) { s with pc := .body (s.slot.argument s.hcd) }
  | body {epd : Option EpdPtr} {r : Response} {h : Hcd} {out : HcdOut} : s.pc = .body epd →
      hcdExec s.hcd (s.slot.call epd r) = .ok (h, out) →
      LoopStep s (.body r, some (s.slot.call epd r, out)) ⟨h, s.slot.next, .wait⟩

private theorem locked_ok {s : Loop} {op : HcdOp} {h : Hcd} {e : HcdEvent}
    (hl : s.locked op = .ok (h, e)) : ∃ out, e = (op, out) ∧ hcdExec s.hcd op = .ok (h, out) := by
  unfold Loop.locked at hl
  split at hl
  · next h' out hexec =>
    simp only [Except.ok.injEq, Prod.mk.injEq] at hl
    obtain ⟨rfl, rfl⟩ := hl
    exact ⟨out, rfl, hexec⟩
  · exact nomatch hl

/-- Every successful step is one of the transitions. -/
theorem loopStep_of_exec {s s' : Loop} {op : LoopOp} {o : Option HcdEvent}
    (h : loopExec s op = .ok (s', o)) : LoopStep s (op, o) s' := by
  cases op with
  | link a =>
    obtain ⟨⟨h', e⟩, hl, hs⟩ := bind_eq_ok.mp h
    cases pure_eq_ok.mp hs
    obtain ⟨out, rfl, hexec⟩ := locked_ok hl
    exact .link hexec
  | wake =>
    simp only [loopExec] at h
    split at h
    · next hw =>
      cases Except.ok.inj h
      exact .wake hw.1 hw.2
    · exact nomatch h
  | evaluate =>
    simp only [loopExec] at h
    split at h
    · next he =>
      cases Except.ok.inj h
      exact .evaluate he
    · exact nomatch h
  | body r =>
    simp only [loopExec] at h
    split at h
    · next epd hpc =>
      obtain ⟨⟨h', e⟩, hl, hs⟩ := bind_eq_ok.mp h
      cases pure_eq_ok.mp hs
      obtain ⟨out, rfl, hexec⟩ := locked_ok hl
      exact .body hpc hexec
    · exact nomatch h

/-- The queues behind a state of the thread, with the history that led to them. -/
structure Behind (es : List LoopEvent) (s : Loop) (a : Queues) : Prop where
  run : QueuesRun (driverEvents es) a
  refines : Refines s.hcd a

/-- How a step of the thread moves the queues behind it. -/
theorem Behind.step {es : List LoopEvent} {s s' : Loop} {a : Queues} {e : LoopEvent}
    (h : Behind es s a) (hs : LoopStep s e s') :
    ∃ b, Behind (es ++ [e]) s' b ∧
      match e.2 with
      | none => b = a
      | some d => QueueStep a d b := by
  have hkeep : ∀ e', e'.2 = none → driverEvents (es ++ [e']) = driverEvents es := by
    intro e' he
    simp [driverEvents, he]
  have hmove : ∀ {op op' out h'}, hcdExec s.hcd op' = .ok (h', out) →
      ∃ b, QueuesRun (driverEvents (es ++ [(op, some (op', out))])) b ∧ Refines h' b ∧
        QueueStep a (op', out) b := by
    intro op op' out h' hexec
    obtain ⟨b, hb, hr⟩ := (h.refines.agree op').left_ok hexec
    refine ⟨b, ?_, hr, queueStep_of_exec hb⟩
    have happ : driverEvents (es ++ [(op, some (op', out))]) = driverEvents es ++ [(op', out)] := by
      simp [driverEvents]
    rw [happ]
    exact .snoc h.run hb
  cases hs with
  | link hexec =>
    obtain ⟨b, hb, hr, hq⟩ := hmove hexec
    exact ⟨b, ⟨hb, hr⟩, hq⟩
  | wake _ _ => exact ⟨a, ⟨by rw [hkeep _ rfl]; exact h.run, h.refines⟩, rfl⟩
  | evaluate _ => exact ⟨a, ⟨by rw [hkeep _ rfl]; exact h.run, h.refines⟩, rfl⟩
  | body _ hexec =>
    obtain ⟨b, hb, hr, hq⟩ := hmove hexec
    exact ⟨b, ⟨hb, hr⟩, hq⟩

/-- The initial thread stands before empty queues. -/
theorem behind_init : Behind [] loopInit queuesInit := ⟨.nil, Refines.init⟩

/-- Every run of the thread stands before queues. -/
theorem LoopRun.behind {es : List LoopEvent} {s : Loop} (h : LoopRun es s) :
    ∃ a, Behind es s a := by
  refine Run.invariant (P := fun es s ↦ ∃ a, Behind es s a) ⟨queuesInit, behind_init⟩ ?_ h
  rintro es s e s' - ⟨a, ha⟩ hfire
  obtain ⟨b, hb, -⟩ := ha.step (loopStep_of_exec hfire)
  exact ⟨b, hb⟩

/-- The driver behind the thread is in a run of its own. -/
theorem LoopRun.driver_run {es : List LoopEvent} {s : Loop} (h : LoopRun es s) :
    HcdRun (driverEvents es) s.hcd := by
  refine Run.project Loop.hcd Prod.snd ?_ h
  intro s e s' hfire
  have hstep : LoopStep s e s' := loopStep_of_exec hfire
  cases hstep with
  | link hexec => exact hexec
  | wake => rfl
  | evaluate => rfl
  | body _ hexec => exact hexec

end BiMpp.Host
