import Mathlib.Data.Nat.Find
import BiMpp.Base.Search
import BiMpp.Usbip.Threads

/-!
# Waiting for a URB

The loop of `urb_wait` with its deadlines, over whatever the clock, the condition variable and
the other threads do in each round: `bi-mpp-pic24-usb-simulator-master/src/urb.c:64–81`. Neither
result of a wait is a negative number, and only a negative one leaves the loop
(`urb.c:76–78`).
-/

namespace BiMpp.Usbip
open BiMpp.Usb BiMpp.Base BiMpp.Host BiMpp.Base.Prog

/-! ### The loop -/

/-- `struct timespec`. -/
structure Timespec where
  sec : Int
  nsec : Int
  deriving DecidableEq, Repr

namespace Timespec

/-- What `pthread_cond_timedwait` asks of its deadline. -/
def Normalised (x : Timespec) : Prop := 0 ≤ x.nsec ∧ x.nsec < 1000000000

/-- The time in nanoseconds. -/
def total (x : Timespec) : Int := x.sec * 1000000000 + x.nsec

end Timespec

/-- What `clock_gettime` gives. -/
structure ClockReading extends Timespec where
  normalised : toTimespec.Normalised

/-- An `int` that is not negative. -/
abbrev TimeoutMs := Fin 2147483648

/-- The timeout of all calls; `sys.c:201,215,229,252,266`. -/
abbrev urbTimeoutMs : TimeoutMs := 100

/-- `timeout_ms * 1000`, a product of `int` that wraps; `urb.c:71`. -/
def timeoutProduct (timeoutMs : TimeoutMs) : Int :=
  (BitVec.ofNat 32 timeoutMs * 1000).toInt

/-- `end_time`; `urb.c:69–75`. -/
def endTime (timeoutMs : TimeoutMs) (now : Timespec) : Timespec :=
  let nsec := now.nsec + timeoutProduct timeoutMs
  if 1000000000 ≤ nsec then ⟨now.sec + 1, nsec - 1000000000⟩ else ⟨now.sec, nsec⟩

/-- How a wait on `done_cond` ends. -/
inductive TimedWait
  | wakeup
  | expired
  deriving DecidableEq, Repr

/-- The result of `pthread_cond_timedwait`: 0, or `ETIMEDOUT`. -/
def TimedWait.code : TimedWait → Int
  | wakeup => 0
  | expired => 110

/-- What a round of the loop meets: `urb->done` at the test, and then the clock and the end of
the wait. -/
structure WaitRound where
  done : Bool
  clock : ClockReading
  result : TimedWait

/-- The loop between two tests: the deadlines so far with the readings they were computed
from, and whether it was left by `break`. -/
structure Waiting where
  deadlines : List (ClockReading × Timespec)
  left : Bool

/-- How often it has waited. -/
def Waiting.waits (w : Waiting) : Nat := w.deadlines.length

/-- The loop before its first test. -/
def waitingInit : Waiting := ⟨[], false⟩

/-- One test of `urb->done` with the round behind it; `urb.c:66–79`. -/
def waitRound (timeoutMs : TimeoutMs) (rounds : Nat → WaitRound) (w : Waiting) :
    Except Fault (Option Waiting) :=
  let x := rounds w.waits
  if w.left || x.done then .ok none
  else .ok (some ⟨w.deadlines ++ [(x.clock, endTime timeoutMs x.clock.toTimespec)],
    decide (x.result.code < 0)⟩)

/-- `urb_wait`; `urb.c:64–81`. -/
def urbWait (timeoutMs : TimeoutMs) (rounds : Nat → WaitRound) (fuel : Nat) :
    Except Fault Waiting :=
  search (waitRound timeoutMs rounds) .diverged fuel waitingInit

/-- The loop gets here. -/
def Waits (timeoutMs : TimeoutMs) (rounds : Nat → WaitRound) (w : Waiting) : Prop :=
  Relation.ReflTransGen (Leads (waitRound timeoutMs rounds)) waitingInit w

/-- `urb_wait` returns when it has waited `n` times. -/
def ReturnsAfter (timeoutMs : TimeoutMs) (rounds : Nat → WaitRound) (n : Nat) : Prop :=
  ∃ fuel w, urbWait timeoutMs rounds fuel = .ok w ∧ w.waits = n

/-! ### What it is for -/

/-- After `n` waits there is nothing more to wait for: the URB is done, or the last wait
expired. -/
def Due (rounds : Nat → WaitRound) (n : Nat) : Prop :=
  (rounds n).done = true ∨ ∃ m, n = m + 1 ∧ (rounds m).result = .expired

/-- Every deadline is a time of the clock and `timeout_ms` milliseconds away, and `urb_wait`
returns as soon as there is nothing to wait for. -/
structure WaitsProperly (timeoutMs : TimeoutMs) (rounds : Nat → WaitRound) : Prop where
  deadlines : ∀ w, Waits timeoutMs rounds w → ∀ x ∈ w.deadlines,
    x.2.Normalised ∧ x.2.total = x.1.total + timeoutMs.val * 1000000
  returns : ∀ n, ReturnsAfter timeoutMs rounds n ↔
    Due rounds n ∧ ∀ k < n, ¬ Due rounds k

/-! ### Deadlines -/

section Deadlines

variable {timeoutMs : TimeoutMs}

/-- The product is 1000 times the timeout as long as that is an `int`. -/
theorem timeoutProduct_of_lt (h : timeoutMs.val * 1000 < 2147483648) :
    timeoutProduct timeoutMs = timeoutMs.val * 1000 := by
  have hms := timeoutMs.isLt
  have hnat : (BitVec.ofNat 32 timeoutMs.val * 1000).toNat = timeoutMs.val * 1000 := by
    rw [BitVec.toNat_mul, BitVec.toNat_ofNat]
    show timeoutMs.val % 4294967296 * 1000 % 4294967296 = timeoutMs.val * 1000
    omega
  rw [timeoutProduct, BitVec.toInt_eq_toNat_of_lt (by omega), hnat]
  omega

private theorem timeoutProduct_lt (timeoutMs : TimeoutMs) : timeoutProduct timeoutMs < 2147483648 :=
  BitVec.toInt_lt

/-- The carry does not change the time: a deadline is `timeout_ms * 1000` nanoseconds away. -/
theorem endTime_total (timeoutMs : TimeoutMs) (now : Timespec) :
    (endTime timeoutMs now).total = now.total + timeoutProduct timeoutMs := by
  unfold endTime Timespec.total
  dsimp only
  split <;> dsimp only <;> omega

/-- One second is carried, and none is borrowed. -/
theorem endTime_normalised_iff (timeoutMs : TimeoutMs) (now : Timespec) :
    (endTime timeoutMs now).Normalised ↔
      0 ≤ now.nsec + timeoutProduct timeoutMs ∧
        now.nsec + timeoutProduct timeoutMs < 2000000000 := by
  unfold endTime Timespec.Normalised
  dsimp only
  split <;> dsimp only <;> omega

/-- The factor is that from microseconds: the product is right for no other timeout than 0. -/
theorem timeoutProduct_eq_iff : timeoutProduct timeoutMs = timeoutMs.val * 1000000 ↔
    timeoutMs = 0 := by
  constructor
  · intro h
    have hlt := timeoutProduct_lt timeoutMs
    have hsmall : timeoutProduct timeoutMs = timeoutMs.val * 1000 :=
      timeoutProduct_of_lt (by omega)
    have hzero : timeoutMs.val = 0 := by omega
    exact Fin.ext hzero
  · rintro rfl
    rfl

/-- A deadline that is right is the reading of the clock itself. -/
theorem endTime_right_iff (clock : ClockReading) :
    ((endTime timeoutMs clock.toTimespec).Normalised ∧
      (endTime timeoutMs clock.toTimespec).total = clock.total + timeoutMs.val * 1000000) ↔
      timeoutMs = 0 := by
  rw [endTime_total]
  constructor
  · rintro ⟨_, htotal⟩
    exact timeoutProduct_eq_iff.mp (by omega)
  · intro h
    have hproduct := timeoutProduct_eq_iff.mpr h
    refine ⟨(endTime_normalised_iff _ _).mpr ?_, by rw [hproduct]⟩
    obtain ⟨hnonneg, hlt⟩ := clock.normalised
    subst h
    rw [hproduct]
    exact ⟨by omega, by omega⟩

end Deadlines

/-! ### Rounds -/

section Rounds

variable {timeoutMs : TimeoutMs} {rounds : Nat → WaitRound} {w : Waiting} {n : Nat}

/-- The loop after `n` waits that left `urb->done` unset. -/
def waitingAfter (timeoutMs : TimeoutMs) (rounds : Nat → WaitRound) (n : Nat) : Waiting where
  deadlines := (List.range n).map fun k ↦
    ((rounds k).clock, endTime timeoutMs (rounds k).clock.toTimespec)
  left := false

/-- As many waits have been made as there were rounds. -/
@[simp] theorem waits_waitingAfter : (waitingAfter timeoutMs rounds n).waits = n := by
  simp [Waiting.waits, waitingAfter]

/-- Neither end of a wait leaves the loop. -/
theorem TimedWait.code_nonneg (r : TimedWait) : ¬ r.code < 0 := by
  cases r with
  | wakeup => exact Int.not_lt.mpr (Int.le_refl 0)
  | expired => exact Int.not_lt.mpr (Int.le_of_lt (by decide))

/-- A round stops where the URB is done, and else waits once more. -/
theorem waitRound_waitingAfter : waitRound timeoutMs rounds (waitingAfter timeoutMs rounds n) =
    .ok (if (rounds n).done then none else some (waitingAfter timeoutMs rounds (n + 1))) := by
  rw [waitRound, waits_waitingAfter]
  cases hdone : (rounds n).done with
  | true => rfl
  | false =>
    have hstay : decide ((rounds n).result.code < 0) = false :=
      decide_eq_false (rounds n).result.code_nonneg
    rw [hstay]
    simp [waitingAfter, List.range_succ]

/-- The loop gets as far as its first `n` tests find the URB not done. -/
theorem waits_iff : Waits timeoutMs rounds w ↔
    ∃ n, w = waitingAfter timeoutMs rounds n ∧ ∀ k < n, (rounds k).done = false := by
  constructor
  · intro h
    induction h with
    | refl => exact ⟨0, rfl, fun k hk ↦ absurd hk (Nat.not_lt_zero k)⟩
    | tail _ hl ih =>
      obtain ⟨n, rfl, hnot⟩ := ih
      have hround := hl.symm.trans waitRound_waitingAfter
      cases hdone : (rounds n).done with
      | true =>
        rw [hdone] at hround
        cases hround
      | false =>
        rw [hdone] at hround
        cases hround
        refine ⟨n + 1, rfl, fun k hk ↦ ?_⟩
        cases Nat.lt_succ_iff_lt_or_eq.mp hk with
        | inl hlt => exact hnot k hlt
        | inr heq => rw [heq, hdone]
  · rintro ⟨n, rfl, hnot⟩
    induction n with
    | zero => exact .refl
    | succ n ih =>
      refine .tail (ih fun k hk ↦ hnot k (Nat.lt_succ_of_lt hk)) ?_
      rw [Leads, waitRound_waitingAfter, hnot n (Nat.lt_succ_self n)]
      rfl

/-- `urb_wait` returns at the first test that finds the URB done, and nowhere else. -/
theorem returnsAfter_iff : ReturnsAfter timeoutMs rounds n ↔
    (rounds n).done = true ∧ ∀ k < n, (rounds k).done = false := by
  constructor
  · rintro ⟨fuel, w, hwait, rfl⟩
    obtain ⟨hpath, hstop⟩ := search_iff.mp ⟨fuel, hwait⟩
    obtain ⟨m, rfl, hnot⟩ := waits_iff.mp hpath
    rw [waitRound_waitingAfter] at hstop
    rw [waits_waitingAfter]
    cases hdone : (rounds m).done with
    | true => exact ⟨rfl, hnot⟩
    | false =>
      rw [hdone] at hstop
      cases hstop
  · rintro ⟨hdone, hnot⟩
    have hstop : waitRound timeoutMs rounds (waitingAfter timeoutMs rounds n) = .ok none := by
      rw [waitRound_waitingAfter, hdone]
      rfl
    obtain ⟨fuel, hwait⟩ := search_iff.mpr ⟨waits_iff.mpr ⟨n, rfl, hnot⟩, hstop⟩
    exact ⟨fuel, _, hwait, waits_waitingAfter⟩

/-- If the URB is never done, no deadline ends the wait. -/
theorem never_returnsAfter (h : ∀ k, (rounds k).done = false) :
    ¬ ReturnsAfter timeoutMs rounds n := by
  intro hret
  have hdone := (returnsAfter_iff.mp hret).1
  rw [h n] at hdone
  cases hdone

/-- All deadlines are right if none is computed, or if there is no timeout. -/
theorem deadlines_right_iff : (∀ w, Waits timeoutMs rounds w → ∀ x ∈ w.deadlines,
      x.2.Normalised ∧ x.2.total = x.1.total + timeoutMs.val * 1000000) ↔
    (rounds 0).done = true ∨ timeoutMs = 0 := by
  constructor
  · intro h
    cases hstart : (rounds 0).done with
    | true => exact .inl rfl
    | false =>
      have hreached : Waits timeoutMs rounds (waitingAfter timeoutMs rounds 1) :=
        waits_iff.mpr ⟨1, rfl, fun k hk ↦ by rw [Nat.lt_one_iff.mp hk, hstart]⟩
      exact .inr ((endTime_right_iff (rounds 0).clock).mp
        (h _ hreached _ (List.mem_singleton.mpr rfl)))
  · intro h w hw x hx
    obtain ⟨n, rfl, hnot⟩ := waits_iff.mp hw
    obtain ⟨k, hk, rfl⟩ := List.mem_map.mp hx
    refine (endTime_right_iff (rounds k).clock).mpr (h.resolve_left fun hdone ↦ ?_)
    rw [hnot 0 (Nat.zero_lt_of_lt (List.mem_range.mp hk))] at hdone
    cases hdone

/-- As long as every expiry finds the URB done, the first test that does is the first where
nothing is left to wait for. -/
theorem firstDue_iff (h : ∀ m, (∀ k ≤ m, (rounds k).done = false) →
      (rounds m).result = .expired → (rounds (m + 1)).done = true) :
    (Due rounds n ∧ ∀ k < n, ¬ Due rounds k) ↔
      (rounds n).done = true ∧ ∀ k < n, (rounds k).done = false := by
  constructor
  · rintro ⟨hdue, hfirst⟩
    have hnot : ∀ k < n, (rounds k).done = false := fun k hk ↦
      Bool.eq_false_iff.mpr fun hdone ↦ hfirst k hk (.inl hdone)
    refine ⟨?_, hnot⟩
    rcases hdue with hdone | ⟨m, rfl, hexpired⟩
    · exact hdone
    · exact h m (fun k hk ↦ hnot k (Nat.lt_succ_of_le hk)) hexpired
  · rintro ⟨hdone, hnot⟩
    refine ⟨.inl hdone, ?_⟩
    rintro k hk (hearly | ⟨m, rfl, hexpired⟩)
    · rw [hnot k hk] at hearly
      cases hearly
    · have hlate := h m (fun j hj ↦ hnot j (by omega)) hexpired
      rw [hnot (m + 1) hk] at hlate
      cases hlate

/-- The wait ends as soon as it should if every expiry finds the URB done. -/
theorem returns_promptly_iff :
    (∀ n, ReturnsAfter timeoutMs rounds n ↔ Due rounds n ∧ ∀ k < n, ¬ Due rounds k) ↔
      ∀ m, (∀ k ≤ m, (rounds k).done = false) → (rounds m).result = .expired →
        (rounds (m + 1)).done = true := by
  constructor
  · intro h m hnot hexpired
    -- The loop returns where something is due first, and there the URB is done.
    have hdue : ∃ n, Due rounds n := ⟨m + 1, .inr ⟨m, rfl, hexpired⟩⟩
    classical
    have hreturn := (h (Nat.find hdue)).mpr
      ⟨Nat.find_spec hdue, fun k hk ↦ Nat.find_min hdue hk⟩
    have hdone := (returnsAfter_iff.mp hreturn).1
    have hle : Nat.find hdue ≤ m + 1 := Nat.find_min' hdue (.inr ⟨m, rfl, hexpired⟩)
    cases Nat.lt_or_eq_of_le hle with
    | inl hlt =>
      rw [hnot _ (Nat.lt_succ_iff.mp hlt)] at hdone
      cases hdone
    | inr heq => rwa [heq] at hdone
  · intro h n
    exact returnsAfter_iff.trans (firstDue_iff h).symm

/-- A wait is proper if the URB is done when it begins, or else for a timeout of 0 as long as
every expiry finds the URB done. -/
theorem urbWait_proper_iff : WaitsProperly timeoutMs rounds ↔ (rounds 0).done = true ∨
    (timeoutMs = 0 ∧ ∀ m, (∀ k ≤ m, (rounds k).done = false) →
      (rounds m).result = .expired → (rounds (m + 1)).done = true) := by
  constructor
  · rintro ⟨hdeadlines, hreturns⟩
    exact (deadlines_right_iff.mp hdeadlines).imp_right fun hzero ↦
      ⟨hzero, returns_promptly_iff.mp hreturns⟩
  · rintro (hdone | ⟨hzero, hexpiry⟩)
    · refine ⟨deadlines_right_iff.mpr (.inl hdone), returns_promptly_iff.mpr ?_⟩
      intro m hnot
      rw [hnot 0 (Nat.zero_le m)] at hdone
      cases hdone
    · exact ⟨deadlines_right_iff.mpr (.inr hzero), returns_promptly_iff.mpr hexpiry⟩

end Rounds

/-- The device answers NAK for ever: the URB is never done, and every wait expires at its
deadline. -/
def nakForEver (k : Nat) : WaitRound where
  done := false
  clock := ⟨⟨k / 10000, k % 10000 * 100000⟩, by constructor <;> dsimp only <;> omega⟩
  result := .expired

/-- The first deadline is a tenth of a millisecond away, and no expiry ends the wait. -/
theorem urbWait_held :
    (endTime urbTimeoutMs (nakForEver 0).clock.toTimespec).total = 100000 ∧
      (∀ n, ¬ ReturnsAfter urbTimeoutMs nakForEver n) ∧
      ¬ WaitsProperly urbTimeoutMs nakForEver := by
  have hreturns : ∀ n, ¬ ReturnsAfter urbTimeoutMs nakForEver n := fun n ↦
    never_returnsAfter fun _ ↦ rfl
  refine ⟨by decide, hreturns, fun h ↦ hreturns 1 ((h.returns 1).mpr ⟨?_, ?_⟩)⟩
  · exact .inr ⟨0, rfl, rfl⟩
  · rintro k hk (hdone | ⟨m, rfl, -⟩)
    · cases hdone
    · omega

/-! ### The thread that waits -/

/-- The program of the threads waits where the URB is not done, and goes through where it is. -/
theorem Threads.urbWait_alone (u : UrbPtr) (s : Shared) : (Threads.urbWait u).alone [] s =
    if (s.urb u).done then some ((), [], s) else none := by
  show (if !(s.urb u).done then none
    else (mutexUnlock (.urb u) : SimProg Unit).alone [.urb u] s) = _
  cases (s.urb u).done with
  | true => simp [mutexUnlock, alone]
  | false => rfl

/-- It goes through at the same test. -/
theorem urbWait_alone_iff {timeoutMs : TimeoutMs} {rounds : Nat → WaitRound} {u : UrbPtr}
    {mem : Nat → Shared} (h : ∀ k, (rounds k).done = ((mem k).urb u).done) {n : Nat} :
    ReturnsAfter timeoutMs rounds n ↔
      (Threads.urbWait u).alone [] (mem n) = some ((), [], mem n) ∧
        ∀ k < n, (Threads.urbWait u).alone [] (mem k) = none := by
  rw [returnsAfter_iff]
  simp only [Threads.urbWait_alone, h]
  simp

/-- Whatever the other threads do, a thread that is about to wait for a URB waits for it as long
as it is not done. -/
theorem urbWait_holds {c c' : Sim} {es : List ((SimThread × SimInput) × Unit)} {t : SimThread}
    {u : UrbPtr} {f : Unit → SimProg Unit} (h : c.thread t = .running (Threads.urbWait u >>= f))
    (hrun : Run (Guarded (Fires simExec) fun c _ ↦ (c.shared.urb u).done = false) c es c') :
    (c'.thread t).Waits (.urb u) (fun s ↦ !(s.urb u).done) (mutexUnlock (.urb u) >>= f) := by
  have hstart : (c.thread t).Waits (.urb u) (fun s : Shared ↦ !(s.urb u).done)
      (mutexUnlock (.urb u) >>= f) := by
    rw [h]
    exact .woken
  refine Run.waits hstart (hrun.mono fun c e c' he ↦ ⟨he.1, ?_⟩)
  show (!(c.shared.urb u).done) = true
  rw [he.2]
  rfl

end BiMpp.Usbip
