import BiMpp.Host.Loop

/-!
# Wake-ups of the host controller's thread

The notification bits against the queues. `hcd_gtd_send` clears a list's bit when it
finds nothing to serve from the pointer it was given, and it was given the list's head
as read before the lock was taken. A link between that read and the body can therefore
lose its notification, and only when the head read was null.
-/

namespace BiMpp.Host
open BiMpp.Usb BiMpp.Base

/-- `hcd_loop` is at `hcd_wait_for_event` with no notification. -/
def Loop.Asleep (s : Loop) : Prop := s.pc = .wait ∧ s.hcd.notify = 0

/-- Nothing is left to do: the done list is empty and every endpoint that is neither
skipped nor halted has an empty queue. -/
def Hcd.Idle (h : Hcd) : Prop :=
  h.doneList = none ∧ ∀ w, ∀ e ∈ h.list w, e.skip = false → e.halted = false →
    e.tdQueueHeadPointer = none

/-- No link goes to the list whose head `hcd_loop` has read as null and not yet used. -/
def NullReadStands (s : Loop) (e : LoopEvent) : Prop :=
  ∀ a, e.1 = .link a → s.pc = .body none → s.slot.list ≠ some a.list

instance (s : Loop) (e : LoopEvent) : Decidable (NullReadStands s e) :=
  match h : e.1 with
  | .link a => decidable_of_iff (s.pc = .body none → s.slot.list ≠ some a.list)
      ⟨fun hs _ ha ↦ (LoopOp.link.inj (h.symm.trans ha)) ▸ hs, fun hs ↦ hs a h⟩
  | .wake => .isTrue fun _ ha ↦ nomatch h.symm.trans ha
  | .evaluate => .isTrue fun _ ha ↦ nomatch h.symm.trans ha
  | .body _ => .isTrue fun _ ha ↦ nomatch h.symm.trans ha

/-! ### Notification bits -/

private theorem set_ne_zero {n m : BitVec 32} (hm : m ≠ 0) : (n ||| m) &&& m ≠ 0 := by
  have he : (n ||| m) &&& m = m := by
    ext i hi
    simp only [BitVec.getElem_and, BitVec.getElem_or]
    cases n[i] <;> cases m[i] <;> rfl
  rw [he]
  exact hm

private theorem of_set_eq_zero {n m k : BitVec 32} (h : (n ||| m) &&& k = 0) : n &&& k = 0 := by
  ext i hi
  have hbit : ((n ||| m) &&& k)[i] = (0 : BitVec 32)[i] := by rw [h]
  simp only [BitVec.getElem_and, BitVec.getElem_or] at hbit ⊢
  rw [← hbit]
  cases hn : n[i] <;> cases hk : k[i] <;> cases hm : m[i] <;> simp_all

private theorem clear_and {n m k : BitVec 32} (h : k &&& m = 0) :
    n &&& ~~~m &&& k = n &&& k := by
  ext i hi
  have hbit : (k &&& m)[i] = (0 : BitVec 32)[i] := by rw [h]
  simp only [BitVec.getElem_and, BitVec.getElem_not] at hbit ⊢
  cases hk : k[i] <;> cases hm : m[i] <;> simp_all

private theorem EpdList.notification_ne_zero (w : EpdList) : w.notification ≠ 0 := by
  cases w <;> decide

private theorem EpdList.notification_disjoint {w w' : EpdList} (h : w ≠ w') :
    w.notification &&& w'.notification = 0 := by
  cases w <;> cases w' <;> first | exact absurd rfl h | decide

private theorem EpdList.notification_done (w : EpdList) :
    w.notification &&& notifyDone = 0 ∧ notifyDone &&& w.notification = 0 := by
  cases w <;> decide

/-! ### The bits cover the queues -/

/-- A clear bit means nothing to do behind it. -/
structure Covered (a : Queues) : Prop where
  ready : ∀ w, a.notify &&& w.notification = 0 → ∀ k ∈ a.order w, a.ready ⟨w, k⟩ = false
  done : a.notify &&& notifyDone = 0 → a.done = []

/-- What the thread knows between the evaluation of the argument and the body. -/
def ArgumentStands (s : Loop) (a : Queues) : Prop :=
  ∀ p w, s.pc = .body p → s.slot.list = some w →
    match p with
    | none => a.order w = []
    | some i => i = 0

-- Sends start where nothing before them is ready.
private def FromHead (a : Queues) : HcdOp → Prop
  | .send w none _ => a.order w = []
  | .send _ (some i) _ => i = 0
  | _ => True

namespace Covered

variable {a b : Queues}

/-- The empty queues have nothing to notify. -/
theorem init : Covered queuesInit where
  ready _ _ _ hk := nomatch hk
  done _ := rfl

private theorem link (h : Covered a) {args : LinkArgs} {t : Td}
    (hc : Opened a args.slot args.mps b) : Covered (b.push args.slot t) := by
  obtain ⟨-, hdone, -, hnot⟩ := hc.frame
  constructor
  · intro w hw k hk
    change (b.notify ||| args.list.notification) &&& w.notification = 0 at hw
    by_cases hwl : w = args.list
    · subst hwl
      exact absurd hw (set_ne_zero (EpdList.notification_ne_zero _))
    · -- the other list is untouched
      have hne : (⟨w, k⟩ : Slot) ≠ args.slot := fun he ↦ hwl (congrArg Slot.list he)
      have hold := h.ready w (by rw [← hnot]; exact of_set_eq_zero hw) k
      cases hc with
      | old _ => simpa [Queues.ready, Queues.push, hne] using hold hk
      | fresh _ _ =>
        simp only [Queues.push, LinkArgs.slot, Function.update_of_ne hwl] at hk
        simpa [Queues.ready, Queues.push, hne] using hold hk
  · intro hd
    change b.done = []
    rw [hdone]
    apply h.done
    rw [← hnot]
    exact of_set_eq_zero hd

private theorem idle (h : Covered a) {w : EpdList} {p : Option EpdPtr} {r : Response}
    (hseek : a.seek w p = .ok none) (hop : FromHead a (.send w p r)) :
    Covered (a.clear w.notification) := by
  constructor
  · intro v hv k hk
    by_cases hvw : v = w
    · subst hvw
      cases p with
      | none =>
        have hempty : a.order v = [] := hop
        change k ∈ a.order v at hk
        rw [hempty] at hk
        cases hk
      | some i =>
        obtain rfl : i = 0 := hop
        exact Queues.seek_none hseek (s := ⟨v, k⟩) rfl hk
    · refine h.ready v ?_ k hk
      change a.notify &&& ~~~w.notification &&& v.notification = 0 at hv
      rwa [clear_and (EpdList.notification_disjoint hvw)] at hv
  · intro hd
    change a.notify &&& ~~~w.notification &&& notifyDone = 0 at hd
    rw [clear_and (EpdList.notification_done w).2] at hd
    exact h.done hd

private theorem stay (h : Covered a) {s : Slot} {x x' : Entry} {q : List Entry}
    (hq : a.queue s = x :: q) : Covered (a.keep s x' q) := by
  constructor
  · intro w hw k hk
    rw [← h.ready w hw k hk]
    by_cases hs : (⟨w, k⟩ : Slot) = s
    · rw [hs]
      simp [Queues.ready, Queues.keep, hq]
    · simp [Queues.ready, Queues.keep, hs]
  · exact h.done

private theorem retire (h : Covered a) {s : Slot} {p : Option EpdPtr} {x : Entry}
    {q : List Entry} {fate : Fate} (hseek : a.seek s.list p = .ok (some s)) :
    Covered (a.retire s x q fate) := by
  constructor
  · intro w hw k hk
    have hclear : a.notify &&& w.notification = 0 := of_set_eq_zero hw
    by_cases hs : (⟨w, k⟩ : Slot) = s
    · -- the slot was ready, so its bit is set
      have hready := Queues.seek_ready hseek
      rw [← hs, h.ready w hclear k hk] at hready
      cases hready
    · rw [← h.ready w hclear k hk]
      simp [Queues.ready, Queues.retire, hs]
  · intro hd
    exact absurd hd (set_ne_zero (by decide))

private theorem empty (h : Covered a) (hd : a.done = []) : Covered (a.clear notifyDone) := by
  constructor
  · intro w hw k hk
    refine h.ready w ?_ k hk
    change a.notify &&& ~~~notifyDone &&& w.notification = 0 at hw
    rwa [clear_and (EpdList.notification_done w).1] at hw
  · intro _
    exact hd

private theorem complete (h : Covered a) {x : Entry} {rest : List Entry}
    (hd : a.done = x :: rest) : Covered { a with done := rest } := by
  constructor
  · exact h.ready
  · intro hn
    have hempty := h.done hn
    rw [hd] at hempty
    cases hempty

private theorem step (h : Covered a) {e : HcdEvent} (hs : QueueStep a e b)
    (hop : FromHead a e.1) : Covered b := by
  cases hs with
  | link hc _ => exact h.link hc
  | idle hseek => exact h.idle hseek hop
  | stay _ hq _ => exact h.stay hq
  | retire hseek _ _ _ => exact h.retire hseek
  | empty hd => exact h.empty hd
  | complete hd => exact h.complete hd

end Covered

private theorem covered_step {es : List LoopEvent} {s s' : Loop} {a b : Queues} {e : LoopEvent}
    (hb : Behind es s a) (hc : Covered a) (harg : ArgumentStands s a) (hs : LoopStep s e s')
    (hok : NullReadStands s e)
    (hq : match e.2 with | none => b = a | some d => QueueStep a d b) :
    Covered b ∧ ArgumentStands s' b := by
  cases hs with
  | @link args h out hexec =>
    refine ⟨hc.step hq trivial, ?_⟩
    intro p w hpc hw
    have hold := harg p w hpc hw
    cases p with
    | some i => exact hold
    | none =>
      have hne : w ≠ args.list := fun he ↦ hok args rfl hpc (he ▸ hw)
      cases hq with
      | link hopen ht =>
        cases hopen with
        | old _ => exact hold
        | fresh _ _ =>
          change Function.update a.order args.list _ w = []
          rw [Function.update_of_ne hne]
          exact hold
  | wake _ _ =>
    obtain rfl := hq
    exact ⟨hc, fun p w hpc _ ↦ nomatch hpc⟩
  | evaluate _ =>
    obtain rfl := hq
    refine ⟨hc, fun p w hpc hw ↦ ?_⟩
    obtain rfl := LoopPc.body.inj hpc
    have hkeys := hb.refines.keys w
    have harg' : s.slot.argument s.hcd = s.hcd.listPtr w := by
      have hw' : s.slot.list = some w := hw
      rw [LoopSlot.argument, hw']
      rfl
    rw [harg']
    unfold Hcd.listPtr
    cases hl : s.hcd.list w with
    | nil =>
      rw [hl] at hkeys
      exact hkeys.symm
    | cons _ _ => rfl
  | @body p r h out hpc hexec =>
    refine ⟨hc.step hq ?_, fun p w hpc _ ↦ nomatch hpc⟩
    cases hl : s.slot.list with
    | none =>
      simp only [LoopSlot.call, hl]
      trivial
    | some w =>
      have hold := harg p w hpc hl
      simp only [LoopSlot.call, hl]
      cases p with
      | none => exact hold
      | some i => exact hold

/-- Wake-ups are kept in every run in which no link goes to a list whose head `hcd_loop`
has read as null and not yet used: whenever the thread would sleep, nothing is left to
do. -/
theorem LoopRun.wakeup_kept {es : List LoopEvent} {s : Loop}
    (hrun : Run (Guarded (Fires loopExec) NullReadStands) loopInit es s) (hs : s.Asleep) :
    s.hcd.Idle := by
  have hinv : ∃ a, Behind es s a ∧ Covered a ∧ ArgumentStands s a := by
    refine Run.invariant (P := fun es s ↦ ∃ a, Behind es s a ∧ Covered a ∧ ArgumentStands s a)
      ⟨queuesInit, behind_init, Covered.init, nofun⟩ ?_ hrun
    rintro es s e s' - ⟨a, hb, hc, harg⟩ ⟨hfire, hok⟩
    have hstep := loopStep_of_exec hfire
    obtain ⟨b, hb', hq⟩ := hb.step hstep
    exact ⟨b, hb', covered_step hb hc harg hstep hok hq⟩
  obtain ⟨a, hb, hc, -⟩ := hinv
  have hzero : a.notify = 0 := by
    rw [← hb.refines.notify]
    exact hs.2
  constructor
  · have hdone : a.done = [] := hc.done (by rw [hzero]; rfl)
    rw [hb.refines.done.head_eq, Queues.ptrs, Queues.place, hdone]
    rfl
  · intro w e he hskip hhalted
    have hmem : e.key ∈ a.order w := by
      rw [← hb.refines.keys]
      exact List.mem_map_of_mem he
    have hready : a.ready ⟨w, e.key⟩ = false := by
      apply hc.ready w _ _ hmem
      rw [hzero]
      cases w <;> rfl
    rw [← hb.refines.ready_eq he] at hready
    simpa [Epd.ready, hskip, hhalted] using hready

private def slotRun (r : Response) : List LoopOp := [.wake, .evaluate, .body r]

private def bulkLink : LoopOp := .link ⟨1, 2, false, false, 2, 64, [7], 1, ⟨10, 1⟩⟩

private def controlLink : LoopOp :=
  .link ⟨0, 0, false, true, 0, 64, [0, 5, 1, 0, 0, 0, 0, 0], 8, ⟨11, 8⟩⟩

/-- The bulk transfer is linked before the control list is read. -/
theorem LoopRun.wakeup_kept_example : ∃ es s,
    Run (Guarded (Fires loopExec) NullReadStands) loopInit es s ∧ es.length = 37 ∧ s.Asleep ∧
      s.hcd.Idle := by
  have hcheck : runsTo (guardedExec loopExec NullReadStands .blocked) loopInit
      (bulkLink :: slotRun .nak ++ slotRun .nak ++ slotRun .nak ++ slotRun .nak ++
        slotRun (.ack 1 []) ++ slotRun .nak ++ slotRun .nak ++ slotRun .nak ++ slotRun .nak ++
        slotRun .nak ++ slotRun .nak ++ slotRun .nak)
      (fun s es ↦ decide (s.pc = .wait ∧ s.hcd.notify = 0 ∧ es.length = 37)) = true := by
    decide +kernel
  obtain ⟨es, s, hrun, hp⟩ := Run.of_runsTo hcheck
  obtain ⟨hpc, hzero, hlen⟩ := of_decide_eq_true hp
  have hguarded := hrun.of_guardedExec
  exact ⟨es, s, hguarded, hlen, ⟨hpc, hzero⟩, LoopRun.wakeup_kept hguarded ⟨hpc, hzero⟩⟩

/-- A bulk transfer is retired and completed; in the fourth control slot of the next
round the control list is read as null, the first control transfer is linked, and the
body clears its notification. The bulk and done slots clear theirs, and the thread
sleeps with the control transfer queued. -/
theorem LoopRun.wakeup_lost : ¬ ∀ es s, LoopRun es s → s.Asleep → s.hcd.Idle := by
  intro hall
  have hcheck : runsTo loopExec loopInit
      (bulkLink :: slotRun .nak ++ slotRun .nak ++ slotRun .nak ++ slotRun .nak ++
        slotRun (.ack 1 []) ++ slotRun .nak ++
        slotRun .nak ++ slotRun .nak ++ slotRun .nak ++
        [.wake, .evaluate, controlLink, .body .nak] ++ slotRun .nak ++ slotRun .nak)
      (fun s _ ↦ decide (s.pc = .wait ∧ s.hcd.notify = 0) &&
        s.hcd.controlList.any fun e ↦ !e.skip && !e.halted && e.tdQueueHeadPointer.isSome) =
      true := by decide +kernel
  obtain ⟨es, s, hrun, hp⟩ := Run.of_runsTo hcheck
  rw [Bool.and_eq_true, decide_eq_true_eq, List.any_eq_true] at hp
  obtain ⟨hasleep, e, he, hready⟩ := hp
  simp only [Bool.and_eq_true, Bool.not_eq_true', Option.isSome_iff_ne_none] at hready
  exact hready.2 ((hall es s hrun hasleep).2 .control e he hready.1.1 hready.1.2)

end BiMpp.Host
