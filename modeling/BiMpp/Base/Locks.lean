import Mathlib.Logic.Relation
import Mathlib.Order.BooleanAlgebra.Set
import BiMpp.Base.Run

/-!
# Threads that take mutexes

Library `Base`. A thread runs a program over shared memory whose steps take and give back
non-recursive mutexes, or wait on a condition with one of them. `Prog.wp` follows such a
program with the mutexes it holds: it asks of every mutex that it ranks above all those
held, and of every access to the memory that it is one the threads agree on. Threads that
all do so cannot deadlock.
-/

namespace BiMpp.Base

/-- A program of a thread: `σ` is the shared memory, `M` the mutexes and `ι` what comes from
outside. `waitWhile` is a loop around a condition wait, `act` one access to the memory,
and `stop` goes no further: it stands for an endless loop and for a process that ends. -/
inductive Prog (σ M ι α : Type)
  | ret (a : α)
  | lock (m : M) (k : Prog σ M ι α)
  | unlock (m : M) (k : Prog σ M ι α)
  | waitWhile (m : M) (q : σ → Bool) (k : Prog σ M ι α)
  | act (f : σ → σ) (k : σ → Prog σ M ι α)
  | input (k : ι → Prog σ M ι α)
  | stop

namespace Prog

variable {σ M ι α β : Type}

/-- One program after another. -/
def bind (p : Prog σ M ι α) (f : α → Prog σ M ι β) : Prog σ M ι β :=
  match p with
  | ret a => f a
  | lock m k => lock m (k.bind f)
  | unlock m k => unlock m (k.bind f)
  | waitWhile m q k => waitWhile m q (k.bind f)
  | act g k => act g fun s ↦ (k s).bind f
  | input k => input fun i ↦ (k i).bind f
  | stop => stop

instance : Monad (Prog σ M ι) where
  pure := ret
  bind := bind

/-- Take a mutex. -/
def mutexLock (m : M) : Prog σ M ι Unit := lock m (ret ())

/-- Give a mutex back. -/
def mutexUnlock (m : M) : Prog σ M ι Unit := unlock m (ret ())

/-- Wait on a condition for as long as a test of the memory succeeds. -/
def condWaitWhile (m : M) (q : σ → Bool) : Prog σ M ι Unit := waitWhile m q (ret ())

/-- Look at the memory. -/
def get : Prog σ M ι σ := act id ret

/-- Change the memory. -/
def modify (f : σ → σ) : Prog σ M ι Unit := act f fun _ ↦ ret ()

/-- An access that may fault: what is computed from the memory, and how it is stored. -/
def access {φ : Type} (f : σ → Except φ α) (store : σ → α → σ) : Prog σ M ι α :=
  act
    (fun s ↦ match f s with
      | .ok a => store s a
      | .error _ => s)
    (fun s ↦ match f s with
      | .ok a => ret a
      | .error _ => stop)

/-- What comes from outside. -/
def receive : Prog σ M ι ι := input ret

/-! ### The discipline -/

section Discipline

variable {ρ : Type} [Preorder ρ] (I : σ → Prop) (G : σ → σ → Prop) (rank : M → ρ)

/-- A mutex ranks above all those held. -/
def Above (m : M) (held : Set M) : Prop := ∀ m' ∈ held, rank m' < rank m

/-- From the mutexes held, the program ends only with a result and mutexes held that meet
`Q`, and each of its accesses is one of `G`, provided that the memory meets `I` there. -/
def wp : Prog σ M ι α → (α → Set M → Prop) → Set M → Prop
  | ret a, Q, held => Q a held
  | lock m k, Q, held => Above rank m held ∧ wp k Q (insert m held)
  | unlock m k, Q, held => m ∈ held ∧ wp k Q (held \ {m})
  | waitWhile m _ k, Q, held => m ∈ held ∧ Above rank m (held \ {m}) ∧ wp k Q held
  | act f k, Q, held => ∀ s, I s → G s (f s) ∧ wp (k s) Q held
  | input k, Q, held => ∀ i, wp (k i) Q held
  | stop, _, _ => True

/-- The program ends with the mutexes it began with. -/
def Balanced (held : Set M) (p : Prog σ M ι α) : Prop :=
  p.wp I G rank (fun _ held' ↦ held' = held) held

variable {I G rank} {held : Set M} {m : M} {p : Prog σ M ι α} {f : α → Prog σ M ι β}
  {Q Q' : α → Set M → Prop} {R : β → Set M → Prop}

/-- A lock that may still be taken is not held. -/
theorem Above.not_mem (h : Above rank m held) : m ∉ held := fun hm ↦ lt_irrefl _ (h m hm)

/-- Taking a lock and giving it back leaves the locks held as they were. -/
theorem Above.insert_diff (h : Above rank m held) : insert m held \ {m} = held := by
  rw [Set.insert_sdiff_of_mem _ (Set.mem_singleton m)]
  exact Set.sdiff_singleton_eq_self h.not_mem

/-- The precondition of two programs in a row. -/
theorem wp_bind : (p >>= f).wp I G rank R held ↔
    p.wp I G rank (fun a held' ↦ (f a).wp I G rank R held') held := by
  show (p.bind f).wp I G rank R held ↔ _
  induction p generalizing held with
  | ret a => exact Iff.rfl
  | lock m k ih => simp only [bind, wp, ih]
  | unlock m k ih => simp only [bind, wp, ih]
  | waitWhile m q k ih => simp only [bind, wp, ih]
  | act g k ih => simp only [bind, wp, ih]
  | input k ih => simp only [bind, wp, ih]
  | stop => exact Iff.rfl

/-- A weaker postcondition has a weaker precondition. -/
theorem wp_mono (hQ : ∀ a held', Q a held' → Q' a held') (h : p.wp I G rank Q held) :
    p.wp I G rank Q' held := by
  induction p generalizing held with
  | ret a => exact hQ a held h
  | lock m k ih => exact ⟨h.1, ih h.2⟩
  | unlock m k ih => exact ⟨h.1, ih h.2⟩
  | waitWhile m q k ih => exact ⟨h.1, h.2.1, ih h.2.2⟩
  | act g k ih => exact fun s hs ↦ ⟨(h s hs).1, ih s (h s hs).2⟩
  | input k ih => exact fun i ↦ ih i (h i)
  | stop => trivial

/-- A balanced program in front leaves what is held to the rest. -/
theorem Balanced.seq (h : Balanced I G rank held p) (hf : ∀ a, (f a).wp I G rank R held) :
    (p >>= f).wp I G rank R held := by
  rw [wp_bind]
  refine wp_mono ?_ h
  rintro a held' rfl
  exact hf a

/-- Two balanced programs in a row are balanced. -/
theorem Balanced.bind (h : Balanced I G rank held p) (hf : ∀ a, Balanced I G rank held (f a)) :
    Balanced I G rank held (p >>= f) :=
  h.seq hf

/-- A program that only answers is balanced. -/
theorem Balanced.pure (a : α) : Balanced I G rank held (pure a : Prog σ M ι α) := rfl

/-- A program that stops its thread is balanced. -/
theorem Balanced.stop : Balanced I G rank held (stop : Prog σ M ι α) := trivial

/-- Receiving an input takes no lock. -/
theorem Balanced.receive : Balanced I G rank held (receive : Prog σ M ι ι) := fun _ ↦ rfl

/-- A change of the shared state that keeps to the guarantee is balanced. -/
theorem Balanced.modify {g : σ → σ} (h : ∀ s, I s → G s (g s)) :
    Balanced I G rank held (modify g : Prog σ M ι Unit) :=
  fun s hs ↦ ⟨h s hs, rfl⟩

/-- What a program reads meets the invariant. -/
theorem get_seq {k : σ → Prog σ M ι α} (hG : ∀ s, G s s) (h : ∀ s, I s → (k s).wp I G rank Q held) :
    (get >>= k).wp I G rank Q held :=
  fun s hs ↦ ⟨hG s, h s hs⟩

/-- A fallible access that keeps to the guarantee is balanced, whether or not it faults. -/
theorem Balanced.access {φ : Type} {g : σ → Except φ α} {store : σ → α → σ}
    (hG : ∀ s, G s s) (h : ∀ s a, I s → g s = .ok a → G s (store s a)) :
    Balanced I G rank held (access g store : Prog σ M ι α) := by
  intro s hs
  cases hg : g s with
  | error e =>
    simp only [hg]
    exact ⟨hG s, trivial⟩
  | ok a =>
    simp only [hg]
    exact ⟨h s a hs hg, rfl⟩

/-- A mutex is taken in order. -/
theorem mutexLock_seq {k : Unit → Prog σ M ι α} (h : Above rank m held)
    (hk : (k ()).wp I G rank Q (insert m held)) : (mutexLock m >>= k).wp I G rank Q held :=
  ⟨h, hk⟩

/-- The mutex taken last is given back. -/
theorem mutexUnlock_seq {k : Unit → Prog σ M ι α} (h : Above rank m held)
    (hk : (k ()).wp I G rank Q held) : (mutexUnlock m >>= k).wp I G rank Q (insert m held) := by
  refine ⟨Set.mem_insert _ _, ?_⟩
  rw [h.insert_diff]
  exact hk

/-- The program ends with giving back the mutex taken last. -/
theorem mutexUnlock_last {Q : Unit → Set M → Prop} (h : Above rank m held) (hQ : Q () held) :
    (mutexUnlock m : Prog σ M ι Unit).wp I G rank Q (insert m held) := by
  refine ⟨Set.mem_insert _ _, ?_⟩
  rw [h.insert_diff]
  exact hQ

/-- Waiting gives the mutex back for a while and takes it again. -/
theorem condWaitWhile_seq {q : σ → Bool} {k : Unit → Prog σ M ι α} (h : Above rank m held)
    (hk : (k ()).wp I G rank Q (insert m held)) :
    (condWaitWhile m q >>= k).wp I G rank Q (insert m held) := by
  refine ⟨Set.mem_insert _ _, ?_, hk⟩
  rw [h.insert_diff]
  exact h

/-- A critical section. -/
theorem Balanced.critical (h : Above rank m held) (hp : Balanced I G rank (insert m held) p) :
    Balanced I G rank held (do
      mutexLock m
      let _ ← p
      mutexUnlock m : Prog σ M ι Unit) :=
  mutexLock_seq h (hp.seq fun _ ↦ mutexUnlock_last h rfl)

/-- Accesses that the threads agree on under one agreement they agree on under a weaker one. -/
theorem wp_weaken {G' : σ → σ → Prop} (hG : ∀ s s', G s s' → G' s s')
    (h : p.wp I G rank Q held) : p.wp I G' rank Q held := by
  induction p generalizing held with
  | ret a => exact h
  | lock m k ih => exact ⟨h.1, ih h.2⟩
  | unlock m k ih => exact ⟨h.1, ih h.2⟩
  | waitWhile m q k ih => exact ⟨h.1, h.2.1, ih h.2.2⟩
  | act f k ih => exact fun s hs ↦ ⟨hG _ _ (h s hs).1, ih s (h s hs).2⟩
  | input k ih => exact fun i ↦ ih i (h i)
  | stop => trivial

end Discipline

/-! ### A program on its own -/

section Alone

variable [DecidableEq M]

/-- What a program does while the other threads do nothing and hold nothing: its result with
the mutexes it holds then and the memory, or nothing where it waits, asks for what comes from
outside, or goes no further. -/
def alone : Prog σ M ι α → List M → σ → Option (α × List M × σ)
  | ret a, held, s => some (a, held, s)
  | lock m k, held, s => if m ∈ held then none else k.alone (m :: held) s
  | unlock m k, held, s => k.alone (held.erase m) s
  | waitWhile _ q k, held, s => if q s then none else k.alone held s
  | act f k, held, s => (k s).alone held (f s)
  | input _, _, _ => none
  | stop, _, _ => none

/-- An access that faults ends a program that is on its own. -/
theorem alone_access {φ : Type} {g : σ → Except φ α} {store : σ → α → σ}
    {f : α → Prog σ M ι β} {held : List M} {s : σ} : (access g store >>= f).alone held s =
      match g s with
      | .ok a => (f a).alone held (store s a)
      | .error _ => none := by
  show (((match g s with
      | .ok a => ret a
      | .error _ => stop : Prog σ M ι α).bind f).alone held
    (match g s with
      | .ok a => store s a
      | .error _ => s)) = _
  cases g s with
  | ok a => rfl
  | error e => rfl

/-- On its own a program changes the memory by the accesses that it was checked for. -/
theorem alone_wp {ρ : Type} [Preorder ρ] {I : σ → Prop} {G : σ → σ → Prop} {rank : M → ρ}
    {Q : α → Set M → Prop} {held : Set M} {p : Prog σ M ι α} (hI : ∀ s s', I s → G s s' → I s')
    (h : p.wp I G rank Q held) {l l' : List M} {s s' : σ} {a : α} (hs : I s)
    (hrun : p.alone l s = some (a, l', s')) : Relation.ReflTransGen G s s' := by
  induction p generalizing held l s with
  | ret b =>
    cases hrun
    exact .refl
  | lock m k ih =>
    rw [alone] at hrun
    split at hrun
    · cases hrun
    · exact ih h.2 hs hrun
  | unlock m k ih => exact ih h.2 hs hrun
  | waitWhile m q k ih =>
    rw [alone] at hrun
    split at hrun
    · cases hrun
    · exact ih h.2.2 hs hrun
  | act f k ih =>
    obtain ⟨hG, hk⟩ := h s hs
    exact (ih s hk (hI _ _ hs hG) hrun).head hG
  | input k => cases hrun
  | stop => cases hrun

end Alone

end Prog

/-! ### Threads -/

/-- What a thread does: it runs, or sleeps on a condition until it is woken and takes its
mutex again. -/
inductive Activity (σ M ι : Type)
  | running (p : Prog σ M ι Unit)
  | asleep (m : M) (p : Prog σ M ι Unit)

/-- The memory, the holder of each mutex and the threads. -/
structure Config (T σ M ι : Type) where
  shared : σ
  holder : M → Option T
  thread : T → Activity σ M ι

/-- Why a thread cannot take a step. -/
inductive Refused
  | held
  | stopped
  deriving DecidableEq, Repr

namespace Config

variable {T σ M ι : Type} [DecidableEq T] [DecidableEq M] (c : Config T σ M ι)

/-- A thread does something else. -/
def set (t : T) (a : Activity σ M ι) : Config T σ M ι :=
  { c with thread := Function.update c.thread t a }

omit [DecidableEq M] in
/-- A thread that was set is found as it was set. -/
@[simp] theorem thread_set_self (t : T) (a : Activity σ M ι) : (c.set t a).thread t = a :=
  Function.update_self ..

omit [DecidableEq M] in
/-- Setting one thread leaves the others alone. -/
theorem thread_set_of_ne {t t' : T} (a : Activity σ M ι) (h : t' ≠ t) :
    (c.set t a).thread t' = c.thread t' := Function.update_of_ne h ..

/-- A mutex gets a holder, or none. -/
def setHolder (m : M) (o : Option T) : Config T σ M ι :=
  { c with holder := Function.update c.holder m o }

/-- One step of a thread, with what comes from outside. A finished program starts again; a
sleeping thread may wake at any time, as a condition wait may. -/
def exec (body : T → Prog σ M ι Unit) : T × ι → Except Refused (Config T σ M ι × Unit)
  | (t, i) =>
    match c.thread t with
    | .asleep m p => .ok (c.set t (.running (.lock m p)), ())
    | .running (.ret _) => .ok (c.set t (.running (body t)), ())
    | .running (.lock m k) =>
      match c.holder m with
      | some _ => .error .held
      | none => .ok ((c.setHolder m (some t)).set t (.running k), ())
    | .running (.unlock m k) => .ok ((c.setHolder m none).set t (.running k), ())
    | .running (.waitWhile m q k) =>
      if q c.shared then
        .ok ((c.setHolder m none).set t (.asleep m (.waitWhile m q k)), ())
      else .ok (c.set t (.running k), ())
    | .running (.act f k) =>
      .ok ({ c with shared := f c.shared }.set t (.running (k c.shared)), ())
    | .running (.input k) => .ok (c.set t (.running (k i)), ())
    | .running .stop => .error .stopped

/-- Every thread is about to start its program. -/
def init (s : σ) : Config T σ M ι := ⟨s, fun _ ↦ none, fun _ ↦ .running (.ret ())⟩

/-- What a step can be: one case for each thing that a thread can be about to do. -/
theorem exec_cases {body : T → Prog σ M ι Unit} {c c' : Config T σ M ι} {t : T} {i : ι}
    {P : Config T σ M ι → Prop} (h : c.exec body (t, i) = .ok (c', ()))
    (woken : ∀ m p, c.thread t = .asleep m p → P (c.set t (.running (.lock m p))))
    (restart : ∀ a, c.thread t = .running (.ret a) → P (c.set t (.running (body t))))
    (lock : ∀ m k, c.thread t = .running (.lock m k) → c.holder m = none →
      P ((c.setHolder m (some t)).set t (.running k)))
    (unlock : ∀ m k, c.thread t = .running (.unlock m k) →
      P ((c.setHolder m none).set t (.running k)))
    (sleep : ∀ m q k, c.thread t = .running (.waitWhile m q k) → q c.shared = true →
      P ((c.setHolder m none).set t (.asleep m (.waitWhile m q k))))
    (pass : ∀ m q k, c.thread t = .running (.waitWhile m q k) → q c.shared = false →
      P (c.set t (.running k)))
    (act : ∀ f k, c.thread t = .running (.act f k) →
      P ({ c with shared := f c.shared }.set t (.running (k c.shared))))
    (input : ∀ k, c.thread t = .running (.input k) → P (c.set t (.running (k i)))) : P c' := by
  unfold exec at h
  dsimp only at h
  split at h
  · next m p hthread =>
    cases h
    exact woken m p hthread
  · next a hthread =>
    cases h
    exact restart a hthread
  · next m k hthread =>
    split at h
    · cases h
    · next hfree =>
      cases h
      exact lock m k hthread hfree
  · next m k hthread =>
    cases h
    exact unlock m k hthread
  · next m q k hthread =>
    split at h
    · next hq =>
      cases h
      exact sleep m q k hthread hq
    · next hq =>
      cases h
      exact pass m q k hthread (Bool.eq_false_iff.mpr hq)
  · next f k hthread =>
    cases h
    exact act f k hthread
  · next k hthread =>
    cases h
    exact input k hthread
  · cases h

omit [DecidableEq T] [DecidableEq M]

/-- The mutex that a thread asks for. -/
def requests (t : T) : Option M :=
  match c.thread t with
  | .running (.lock m _) => some m
  | _ => none

/-- The holder of the mutex that a thread asks for. -/
def waitsFor (t : T) : Option T := (c.requests t).bind c.holder

/-- No thread asks for a mutex that it holds, and no threads wait for each other in a
circle. -/
structure DeadlockFree : Prop where
  own : ∀ t m, c.requests t = some m → c.holder m ≠ some t
  acyclic : ∀ t, ¬ Relation.TransGen (fun t t' ↦ c.waitsFor t = some t') t t

/-- The mutexes that a thread holds. -/
def held (t : T) : Set M := {m | c.holder m = some t}

variable {c} [DecidableEq M] {t t' : T} {m : M}

/-- Who takes a mutex holds it then. -/
theorem held_take :
    (c.setHolder m (some t)).held t = insert m (c.held t) := by
  ext m'
  by_cases hm : m' = m
  · simp [held, setHolder, hm]
  · simp [held, setHolder, hm]

/-- A thread that takes another lock holds what it held. -/
theorem held_take_ne (hfree : c.holder m = none) (ht : t' ≠ t) :
    (c.setHolder m (some t)).held t' = c.held t' := by
  ext m'
  by_cases hm : m' = m
  · simp [held, setHolder, hm, hfree, ht.symm]
  · simp [held, setHolder, hm]

/-- Who gives a mutex back does not hold it any more. -/
theorem held_give : (c.setHolder m none).held t = c.held t \ {m} := by
  ext m'
  by_cases hm : m' = m
  · simp [held, setHolder, hm]
  · simp [held, setHolder, hm]

/-- Giving a lock back leaves the other locks with their holders. -/
theorem held_give_ne (hm : m ∈ c.held t) (ht : t' ≠ t) :
    (c.setHolder m none).held t' = c.held t' := by
  rw [held_give]
  refine Set.sdiff_singleton_eq_self fun hm' ↦ ht ?_
  exact Option.some.inj (hm'.symm.trans hm)

end Config

/-! ### A thread that waits -/

/-- In the loop around a condition wait: about to test, asleep, or woken and back for the
mutex. -/
inductive Activity.Waits {σ M ι : Type} (m : M) (q : σ → Bool) (k : Prog σ M ι Unit) :
    Activity σ M ι → Prop
  | tests : Waits m q k (running (.waitWhile m q k))
  | asleep : Waits m q k (asleep m (.waitWhile m q k))
  | woken : Waits m q k (running (.lock m (.waitWhile m q k)))

section Waiting

variable {T σ M ι : Type} [DecidableEq T] [DecidableEq M] {c c' : Config T σ M ι}
  {body : T → Prog σ M ι Unit} {t : T} {m : M} {q : σ → Bool} {k : Prog σ M ι Unit}

/-- A step is one of its thread only. -/
theorem Config.exec_other {t' : T} {i : ι} (h : c.exec body (t', i) = .ok (c', ()))
    (ht : t ≠ t') : c'.thread t = c.thread t := by
  refine Config.exec_cases (P := fun c' ↦ c'.thread t = c.thread t) h ?woken ?restart ?lock
    ?unlock ?sleep ?pass ?act ?input
  case woken => exact fun _ _ _ ↦ Config.thread_set_of_ne _ _ ht
  case restart => exact fun _ _ ↦ Config.thread_set_of_ne _ _ ht
  case lock => exact fun _ _ _ _ ↦ Config.thread_set_of_ne _ _ ht
  case unlock => exact fun _ _ _ ↦ Config.thread_set_of_ne _ _ ht
  case sleep => exact fun _ _ _ _ _ ↦ Config.thread_set_of_ne _ _ ht
  case pass => exact fun _ _ _ _ _ ↦ Config.thread_set_of_ne _ _ ht
  case act => exact fun _ _ _ ↦ Config.thread_set_of_ne _ _ ht
  case input => exact fun _ _ ↦ Config.thread_set_of_ne _ _ ht

/-- A step that finds the condition true leaves every thread in its loop. -/
theorem Activity.Waits.step {e : (T × ι) × Unit} (h : (c.thread t).Waits m q k)
    (hq : q c.shared = true) (he : Fires (fun c ↦ c.exec body) c e c') :
    (c'.thread t).Waits m q k := by
  obtain ⟨⟨t', i⟩, ⟨⟩⟩ := e
  by_cases ht : t = t'
  · subst ht
    refine Config.exec_cases (P := fun c' ↦ (c'.thread t).Waits m q k) he ?woken ?restart ?lock
      ?unlock ?sleep ?pass ?act ?input
    case woken =>
      intro m' p hthread
      rw [hthread] at h
      cases h
      rw [Config.thread_set_self]
      exact .woken
    case lock =>
      intro m' k' hthread _
      rw [hthread] at h
      cases h
      rw [Config.thread_set_self]
      exact .tests
    case sleep =>
      intro m' q' k' hthread _
      rw [hthread] at h
      cases h
      rw [Config.thread_set_self]
      exact .asleep
    case pass =>
      intro m' q' k' hthread hfalse
      rw [hthread] at h
      cases h
      rw [hq] at hfalse
      cases hfalse
    case restart =>
      intro a hthread
      rw [hthread] at h
      cases h
    case unlock =>
      intro m' k' hthread
      rw [hthread] at h
      cases h
    case act =>
      intro f k' hthread
      rw [hthread] at h
      cases h
    case input =>
      intro k' hthread
      rw [hthread] at h
      cases h
  · rw [Config.exec_other he ht]
    exact h

/-- As long as the condition is true no thread gets out of its loop. -/
theorem Run.waits {es : List ((T × ι) × Unit)} (h : (c.thread t).Waits m q k)
    (hrun : Run (Guarded (Fires fun c ↦ c.exec body) fun c _ ↦ q c.shared = true) c es c') :
    (c'.thread t).Waits m q k :=
  hrun.invariant (P := fun _ c ↦ (c.thread t).Waits m q k) h
    fun _ _ _ _ _ hw he ↦ hw.step he.2 he.1

end Waiting

section Threads

variable {T σ M ι ρ : Type} [Preorder ρ] (I : σ → Prop) (G : σ → σ → Prop) (rank : M → ρ)

/-- What is left of a thread's program keeps the discipline. -/
def Activity.Follows (held : Set M) : Activity σ M ι → Prop
  | running p => p.wp I G rank (fun _ held' ↦ held' = ∅) held
  | asleep m p => (Prog.lock m p).wp I G rank (fun _ held' ↦ held' = ∅) held

/-- The memory meets the invariant and every thread keeps the discipline. -/
structure Config.Disciplined (c : Config T σ M ι) : Prop where
  inv : I c.shared
  follows : ∀ t, (c.thread t).Follows I G rank (c.held t)

variable {I G rank} {c : Config T σ M ι}

/-- A thread asks only for mutexes that rank above all it holds. -/
theorem Config.Disciplined.above (h : c.Disciplined I G rank) {t : T} {m : M}
    (hm : c.requests t = some m) : Prog.Above rank m (c.held t) := by
  have ht := h.follows t
  unfold Config.requests at hm
  split at hm
  · next hp =>
    cases hm
    rw [hp] at ht
    exact ht.1
  · cases hm

/-- The mutexes asked for rank higher and higher from one waiting thread to the next. -/
theorem Config.Disciplined.rank_le (h : c.Disciplined I G rank) {t t' : T}
    (hw : Relation.TransGen (fun t t' ↦ c.waitsFor t = some t') t t') :
    ∃ m m', c.requests t = some m ∧ c.holder m' = some t' ∧ rank m ≤ rank m' := by
  have hone : ∀ {t t' : T}, c.waitsFor t = some t' →
      ∃ m, c.requests t = some m ∧ c.holder m = some t' := fun hw ↦ Option.bind_eq_some_iff.mp hw
  induction hw with
  | single hw =>
    obtain ⟨m, hm, hholder⟩ := hone hw
    exact ⟨m, m, hm, hholder, le_refl _⟩
  | tail _ hw ih =>
    obtain ⟨m, m₁, hm, hholder, hle⟩ := ih
    obtain ⟨m', hm', hholder'⟩ := hone hw
    have hlt : rank m₁ < rank m' := h.above hm' m₁ hholder
    exact ⟨m, m', hm, hholder', le_trans hle (le_of_lt hlt)⟩

/-- Threads that keep the discipline are in no deadlock. -/
theorem Config.Disciplined.deadlockFree (h : c.Disciplined I G rank) : c.DeadlockFree := by
  constructor
  · intro t m hm hown
    exact lt_irrefl _ (h.above hm m hown)
  · intro t hw
    obtain ⟨m, m', hm, hholder, hle⟩ := h.rank_le hw
    have hlt : rank m' < rank m := h.above hm m' hholder
    exact lt_irrefl _ (lt_of_le_of_lt hle hlt)

/-! ### Every step keeps the discipline -/

section Step

variable [DecidableEq T]

/-- A thread goes on, and leaves the others their mutexes. -/
theorem Config.Disciplined.go (h : c.Disciplined I G rank) {c' : Config T σ M ι} {t : T}
    {a : Activity σ M ι} (hinv : I c'.shared) (hthread : c'.thread = c.thread)
    (hheld : ∀ t' ≠ t, c'.held t' = c.held t') (ha : a.Follows I G rank (c'.held t)) :
    (c'.set t a).Disciplined I G rank := by
  refine ⟨hinv, fun t' ↦ ?_⟩
  show ((c'.set t a).thread t').Follows I G rank (c'.held t')
  by_cases ht : t' = t
  · subst ht
    rw [Config.thread_set_self]
    exact ha
  · rw [Config.thread_set_of_ne c' a ht, hthread, hheld t' ht]
    exact h.follows t'

/-- A thread goes on with the mutexes it holds. -/
theorem Config.Disciplined.stay (h : c.Disciplined I G rank) {t : T} {a : Activity σ M ι}
    (ha : a.Follows I G rank (c.held t)) : (c.set t a).Disciplined I G rank :=
  h.go h.inv rfl (fun _ _ ↦ rfl) ha

variable [DecidableEq M]

/-- One step keeps the discipline. -/
theorem Config.Disciplined.step {body : T → Prog σ M ι Unit} {c' : Config T σ M ι}
    {e : (T × ι) × Unit} (hI : ∀ s s', I s → G s s' → I s')
    (hbody : ∀ t, Prog.Balanced I G rank ∅ (body t))
    (h : c.Disciplined I G rank) (he : Fires (fun c ↦ c.exec body) c e c') :
    c'.Disciplined I G rank := by
  obtain ⟨⟨t, i⟩, ⟨⟩⟩ := e
  have ht := h.follows t
  refine Config.exec_cases (P := fun c' ↦ c'.Disciplined I G rank) he ?woken ?restart ?lock
    ?unlock ?sleep ?pass ?act ?input
  case woken =>
    intro m p hthread
    rw [hthread] at ht
    exact h.stay ht
  case restart =>
    intro a hthread
    rw [hthread] at ht
    refine h.stay ?_
    have hnone : c.held t = ∅ := ht
    rw [hnone]
    exact hbody t
  case lock =>
    intro m k hthread hfree
    rw [hthread] at ht
    refine h.go h.inv rfl (fun t' ht' ↦ Config.held_take_ne hfree ht') ?_
    rw [Config.held_take]
    exact ht.2
  case unlock =>
    intro m k hthread
    rw [hthread] at ht
    refine h.go h.inv rfl (fun t' ht' ↦ Config.held_give_ne ht.1 ht') ?_
    rw [Config.held_give]
    exact ht.2
  case sleep =>
    intro m q k hthread _
    rw [hthread] at ht
    obtain ⟨hm, habove, hk⟩ := ht
    refine h.go h.inv rfl (fun t' ht' ↦ Config.held_give_ne hm ht') ?_
    rw [Config.held_give]
    refine ⟨habove, ?_⟩
    rw [Set.insert_sdiff_singleton, Set.insert_eq_of_mem hm]
    exact ⟨hm, habove, hk⟩
  case pass =>
    intro m q k hthread _
    rw [hthread] at ht
    exact h.stay ht.2.2
  case act =>
    intro f k hthread
    rw [hthread] at ht
    obtain ⟨hstep, hk⟩ := ht c.shared h.inv
    exact h.go (hI _ _ h.inv hstep) rfl (fun _ _ ↦ rfl) hk
  case input =>
    intro k hthread
    rw [hthread] at ht
    exact h.stay (ht i)

/-- One step leaves the memory alone or is an access that the threads agree on. -/
theorem Config.Disciplined.shared {body : T → Prog σ M ι Unit} {c' : Config T σ M ι}
    {e : (T × ι) × Unit} (h : c.Disciplined I G rank)
    (he : Fires (fun c ↦ c.exec body) c e c') : c'.shared = c.shared ∨ G c.shared c'.shared := by
  obtain ⟨⟨t, i⟩, ⟨⟩⟩ := e
  refine Config.exec_cases (P := fun c' ↦ c'.shared = c.shared ∨ G c.shared c'.shared) he ?woken
    ?restart ?lock ?unlock ?sleep ?pass ?act ?input
  case woken => exact fun _ _ _ ↦ .inl rfl
  case restart => exact fun _ _ ↦ .inl rfl
  case lock => exact fun _ _ _ _ ↦ .inl rfl
  case unlock => exact fun _ _ _ ↦ .inl rfl
  case sleep => exact fun _ _ _ _ _ ↦ .inl rfl
  case pass => exact fun _ _ _ _ _ ↦ .inl rfl
  case act =>
    intro f k hthread
    have ht := h.follows t
    rw [hthread] at ht
    exact .inr (ht c.shared h.inv).1
  case input => exact fun _ _ ↦ .inl rfl

section Runs

variable {body : T → Prog σ M ι Unit} {s : σ} {es : List ((T × ι) × Unit)}

/-- Threads whose programs keep the discipline keep it in every run. -/
theorem Run.disciplined (hs : I s) (hI : ∀ s s', I s → G s s' → I s')
    (hbody : ∀ t, Prog.Balanced I G rank ∅ (body t))
    (h : Run (Fires fun c ↦ c.exec body) (Config.init s) es c) : c.Disciplined I G rank := by
  refine h.invariant (P := fun _ c ↦ c.Disciplined I G rank) ?_ ?_
  · refine ⟨hs, fun t ↦ ?_⟩
    show (Config.init s).held t = ∅
    exact Set.eq_empty_of_forall_notMem fun m hm ↦ nomatch hm
  · intro es c e c' _ hc he
    exact hc.step hI hbody he

/-- What the accesses that the threads agree on keep holds of the memory after every run. -/
theorem Run.shared_invariant {P : σ → Prop} (hs : I s) (hI : ∀ s s', I s → G s s' → I s')
    (hbody : ∀ t, Prog.Balanced I G rank ∅ (body t)) (h0 : P s)
    (hP : ∀ s s', I s → G s s' → P s → P s')
    (h : Run (Fires fun c ↦ c.exec body) (Config.init s) es c) : P c.shared := by
  refine h.invariant (P := fun _ c ↦ P c.shared) h0 ?_
  intro es c e c' hrun hc he
  have hd := Run.disciplined hs hI hbody hrun
  rcases hd.shared he with heq | hstep
  · rw [heq]
    exact hc
  · exact hP _ _ hd.inv hstep hc

end Runs

end Step

end Threads

end BiMpp.Base
