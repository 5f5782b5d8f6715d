import Mathlib.Data.List.Basic
import Mathlib.Data.List.Induction

/-!
# Labelled runs of a transition relation

Library `Base`. A `Run` is a finite sequence of labelled steps from a fixed start;
the labels are the history of the run, so history variables are functions of the
label list and the state carries none. `Fires` turns an executable step with an
outcome into such a relation.
-/

namespace BiMpp.Base

universe u v w

variable {σ : Type u} {ε : Type v}

/-- Finite runs from `s₀`: the labels in order and the state they lead to. -/
inductive Run (step : σ → ε → σ → Prop) (s₀ : σ) : List ε → σ → Prop
  | nil : Run step s₀ [] s₀
  | snoc {es : List ε} {s s' : σ} {e : ε} :
      Run step s₀ es s → step s e s' → Run step s₀ (es ++ [e]) s'

/-- The steps whose pre-state and label meet a condition. -/
def Guarded (step : σ → ε → σ → Prop) (ok : σ → ε → Prop) : σ → ε → σ → Prop :=
  fun s e s' ↦ step s e s' ∧ ok s e

namespace Run

variable {step : σ → ε → σ → Prop} {s₀ s s' : σ} {es : List ε}

/-- Invariant rule: what holds initially and is kept by every step holds after every
run. The step premise may use that its pre-state was reached. -/
theorem invariant {P : List ε → σ → Prop} (h0 : P [] s₀)
    (hs : ∀ es s e s', Run step s₀ es s → P es s → step s e s' → P (es ++ [e]) s')
    (h : Run step s₀ es s) : P es s := by
  induction h with
  | nil => exact h0
  | snoc hr he ih => exact hs _ _ _ _ hr ih he

/-- A run of a stronger step relation is a run of a weaker one. -/
theorem mono {step' : σ → ε → σ → Prop} (hs : ∀ s e s', step s e s' → step' s e s')
    (h : Run step s₀ es s) : Run step' s₀ es s := by
  induction h with
  | nil => exact nil
  | snoc _ he ih => exact snoc ih (hs _ _ _ he)

/-- Forgetting the condition of a guarded run. -/
theorem unguarded {ok : σ → ε → Prop} (h : Run (Guarded step ok) s₀ es s) :
    Run step s₀ es s :=
  h.mono fun _ _ _ hs ↦ hs.1

/-- The last step of a nonempty run. -/
theorem last {e : ε} (h : Run step s₀ (es ++ [e]) s') :
    ∃ s, Run step s₀ es s ∧ step s e s' := by
  generalize hl : es ++ [e] = l at h
  cases h with
  | nil => simp at hl
  | snoc hr he =>
    obtain ⟨rfl, hlast⟩ := List.append_inj' hl rfl
    obtain rfl := List.singleton_inj.mp hlast
    exact ⟨_, hr, he⟩

/-- The empty run goes nowhere. -/
theorem of_nil (h : Run step s₀ [] s) : s = s₀ := by
  generalize hl : ([] : List ε) = l at h
  cases h with
  | nil => rfl
  | snoc => simp at hl

/-- Splitting a run at any point of its history. -/
theorem split {l₁ l₂ : List ε} (h : Run step s₀ (l₁ ++ l₂) s) :
    ∃ m, Run step s₀ l₁ m ∧ Run step m l₂ s := by
  induction l₂ using List.reverseRecOn generalizing s with
  | nil => exact ⟨s, by simpa using h, nil⟩
  | append_singleton l e ih =>
    rw [← List.append_assoc] at h
    obtain ⟨t, ht, he⟩ := h.last
    obtain ⟨m, hm, hmt⟩ := ih ht
    exact ⟨m, hm, snoc hmt he⟩

/-- Every label of a run was fired in a state that a prefix of the run reaches. -/
theorem fired {l₁ l₂ : List ε} {e : ε} (h : Run step s₀ (l₁ ++ e :: l₂) s) :
    ∃ m m', Run step s₀ l₁ m ∧ step m e m' ∧ Run step m' l₂ s := by
  rw [List.append_cons] at h
  obtain ⟨m', hm', hrest⟩ := h.split
  obtain ⟨m, hm, he⟩ := hm'.last
  exact ⟨m, m', hm, he, hrest⟩

section Simulation

variable {τ : Type w} {stepA : τ → ε → τ → Prop} {t₀ : τ}

/-- Forward simulation: related starts and matched steps give matched runs with the
same labels. -/
theorem simulate {R : σ → τ → Prop} (h0 : R s₀ t₀)
    (hs : ∀ s t e s', R s t → step s e s' → ∃ t', stepA t e t' ∧ R s' t')
    (h : Run step s₀ es s) : ∃ t, Run stepA t₀ es t ∧ R s t := by
  induction h with
  | nil => exact ⟨t₀, nil, h0⟩
  | snoc _ he ih =>
    obtain ⟨t, ht, hR⟩ := ih
    obtain ⟨t', ht', hR'⟩ := hs _ _ _ _ hR he
    exact ⟨t', snoc ht ht', hR'⟩

end Simulation

section Project

variable {τ : Type w} {δ : Type*} {stepP : τ → δ → τ → Prop}

/-- Projection: a component of a composed system makes the steps its labels name and
no others. -/
theorem project (view : σ → τ) (label : ε → Option δ)
    (hs : ∀ s e s', step s e s' →
      match label e with
      | none => view s' = view s
      | some d => stepP (view s) d (view s'))
    (h : Run step s₀ es s) : Run stepP (view s₀) (es.filterMap label) (view s) := by
  induction h with
  | nil => exact nil
  | @snoc es s s' e _ he ih =>
    have hstep := hs s e s' he
    cases hl : label e with
    | none =>
      rw [hl] at hstep
      simpa [hl, hstep] using ih
    | some d =>
      rw [hl] at hstep
      simpa [hl] using snoc ih hstep

/-- Steps that are steps of another relation under other names. -/
theorem relabel {step' : σ → δ → σ → Prop} (label : ε → δ)
    (hs : ∀ s e s', step s e s' → step' s (label e) s') (h : Run step s₀ es s) :
    Run step' s₀ (es.map label) s := by
  induction h with
  | nil => exact nil
  | snoc _ he ih =>
    rw [List.map_append, List.map_singleton]
    exact snoc ih (hs _ _ _ he)

end Project

end Run

/-- A beginning of a history and its last label are the whole of it, or were there before its
last label. -/
theorem prefix_snoc {past es : List ε} {d e : ε} (h : past ++ [d] <+: es ++ [e]) :
    past = es ∧ d = e ∨ past ++ [d] <+: es := by
  rcases List.prefix_concat_iff.mp h with he | h
  · obtain ⟨rfl, hd⟩ := List.append_inj' he rfl
    exact .inl ⟨rfl, List.singleton_inj.mp hd⟩
  · exact .inr h

section Faults

variable {φ : Type u} {α β : Type v}

/-- A successful sequence: both halves succeeded. -/
theorem bind_eq_ok {x : Except φ α} {f : α → Except φ β} {b : β} :
    (x >>= f) = .ok b ↔ ∃ v, x = .ok v ∧ f v = .ok b := by
  cases x with
  | error e => simp [bind, Except.bind]
  | ok v => simp [bind, Except.bind]

/-- A failed sequence: the first half failed, or the second did on its result. -/
theorem bind_eq_error {x : Except φ α} {f : α → Except φ β} {e : φ} :
    (x >>= f) = .error e ↔ x = .error e ∨ ∃ v, x = .ok v ∧ f v = .error e := by
  cases x with
  | error e' => simp [bind, Except.bind]
  | ok v => simp [bind, Except.bind]

/-- A successful return. -/
theorem pure_eq_ok {v b : α} : (pure v : Except φ α) = .ok b ↔ v = b := by
  simp [pure, Except.pure]

/-- A loop without a result succeeds exactly if every pass does. -/
theorem forM_eq_ok {l : List α} {f : α → Except φ PUnit} :
    l.forM f = .ok ⟨⟩ ↔ ∀ x ∈ l, f x = .ok ⟨⟩ := by
  induction l with
  | nil => exact ⟨fun _ x hx ↦ (List.not_mem_nil hx).elim, fun _ ↦ rfl⟩
  | cons x l ih =>
    show (f x >>= fun _ ↦ l.forM f) = _ ↔ _
    rw [bind_eq_ok, List.forall_mem_cons, ← ih]
    constructor
    · rintro ⟨⟨⟩, hx, hl⟩
      exact ⟨hx, hl⟩
    · rintro ⟨hx, hl⟩
      exact ⟨⟨⟩, hx, hl⟩

/-- A computation that succeeded hands its value on. -/
@[simp] theorem ok_bind {v : α} {f : α → Except φ β} : (.ok v >>= f) = f v := rfl

/-- A computation that failed ends the ones behind it. -/
@[simp] theorem error_bind {e : φ} {f : α → Except φ β} : (.error e >>= f) = .error e := rfl

/-- Returning a value succeeds. -/
@[simp] theorem pure_ok {v : α} : (pure v : Except φ α) = .ok v := rfl

end Faults

section Execution

variable {ι : Type v} {ω φ : Type w}

/-- The step relation of an executable step: the label is the input with its outcome. -/
def Fires (exec : σ → ι → Except φ (σ × ω)) : σ → ι × ω → σ → Prop :=
  fun s e s' ↦ exec s e.1 = .ok (s', e.2)

/-- Run a list of inputs and collect the labels, stopping at the first fault. -/
def execAll (exec : σ → ι → Except φ (σ × ω)) : σ → List ι → Except φ (σ × List (ι × ω))
  | s, [] => .ok (s, [])
  | s, i :: is =>
    match exec s i with
    | .error f => .error f
    | .ok (s', o) =>
      match execAll exec s' is with
      | .error f => .error f
      | .ok (s'', es) => .ok (s'', (i, o) :: es)

private theorem run_cons {step : σ → ε → σ → Prop} {s t u : σ} {e : ε} {es : List ε}
    (he : step s e t) (h : Run step t es u) : Run step s (e :: es) u := by
  induction h with
  | nil => exact .snoc .nil he
  | snoc _ hl ih => exact .snoc ih hl

/-- What the executable run computes is a run. -/
theorem Run.of_execAll {exec : σ → ι → Except φ (σ × ω)} {s s' : σ} {is : List ι}
    {es : List (ι × ω)} (h : execAll exec s is = .ok (s', es)) :
    Run (Fires exec) s es s' := by
  induction is generalizing s es with
  | nil =>
    simp only [execAll, Except.ok.injEq, Prod.mk.injEq] at h
    obtain ⟨rfl, rfl⟩ := h
    exact .nil
  | cons i is ih =>
    simp only [execAll] at h
    split at h
    · exact nomatch h
    · next s₁ o hexec =>
      split at h
      · exact nomatch h
      · next s₂ es₂ hrest =>
        simp only [Except.ok.injEq, Prod.mk.injEq] at h
        obtain ⟨rfl, rfl⟩ := h
        exact run_cons hexec (ih hrest)

/-- Whether an executable run succeeds with a state and labels that pass a test. -/
def runsTo (exec : σ → ι → Except φ (σ × ω)) (s : σ) (is : List ι)
    (p : σ → List (ι × ω) → Bool) : Bool :=
  match execAll exec s is with
  | .error _ => false
  | .ok (s', es) => p s' es

/-- An executable run that passes a test is a run that passes it. -/
theorem Run.of_runsTo {exec : σ → ι → Except φ (σ × ω)} {s : σ} {is : List ι}
    {p : σ → List (ι × ω) → Bool} (h : runsTo exec s is p = true) :
    ∃ es s', Run (Fires exec) s es s' ∧ p s' es = true := by
  unfold runsTo at h
  split at h
  · exact nomatch h
  · next s' es hexec => exact ⟨es, s', of_execAll hexec, h⟩

/-- An executable step that refuses, with `f`, the steps a condition excludes. -/
def guardedExec (exec : σ → ι → Except φ (σ × ω)) (ok : σ → ι × ω → Prop)
    [∀ s e, Decidable (ok s e)] (f : φ) (s : σ) (i : ι) : Except φ (σ × ω) :=
  match exec s i with
  | .error f' => .error f'
  | .ok (s', o) => if ok s (i, o) then .ok (s', o) else .error f

/-- A run of the refusing step is a guarded run. -/
theorem Run.of_guardedExec {exec : σ → ι → Except φ (σ × ω)} {ok : σ → ι × ω → Prop}
    [∀ s e, Decidable (ok s e)] {f : φ} {s s' : σ} {es : List (ι × ω)}
    (h : Run (Fires (guardedExec exec ok f)) s es s') : Run (Guarded (Fires exec) ok) s es s' := by
  refine h.mono fun t e t' he ↦ ?_
  unfold Fires guardedExec at he
  split at he
  · exact nomatch he
  · next u o hexec =>
    split at he
    · next hok =>
      simp only [Except.ok.injEq, Prod.mk.injEq] at he
      obtain ⟨rfl, rfl⟩ := he
      exact ⟨hexec, hok⟩
    · exact nomatch he

/-- An executable step that also shows something of the state it leads to. -/
def watch {ν : Type w} (exec : σ → ι → Except φ (σ × ω)) (view : σ → ω → ν) (s : σ) (i : ι) :
    Except φ (σ × ω × ν) :=
  match exec s i with
  | .error f => .error f
  | .ok (s', o) => .ok (s', o, view s' o)

/-- The label without what is shown of the state. -/
def unwatched {ν : Type w} (e : ι × ω × ν) : ι × ω := (e.1, e.2.1)

/-- A watched step is a step, and shows the state after it. -/
theorem fires_watch {ν : Type w} {exec : σ → ι → Except φ (σ × ω)} {view : σ → ω → ν} {s s' : σ}
    {e : ι × ω × ν} : Fires (watch exec view) s e s' ↔
      Fires exec s (unwatched e) s' ∧ e.2.2 = view s' e.2.1 := by
  obtain ⟨i, o, v⟩ := e
  unfold Fires watch unwatched
  cases hexec : exec s i with
  | error f => simp
  | ok x =>
    obtain ⟨t, o'⟩ := x
    simp only [Except.ok.injEq, Prod.mk.injEq]
    constructor
    · rintro ⟨rfl, rfl, rfl⟩
      exact ⟨⟨rfl, rfl⟩, rfl⟩
    · rintro ⟨⟨rfl, rfl⟩, rfl⟩
      exact ⟨rfl, rfl, rfl⟩

/-- A watched run is a run. -/
theorem Run.of_watch {ν : Type w} {exec : σ → ι → Except φ (σ × ω)} {view : σ → ω → ν} {s₀ s : σ}
    {es : List (ι × ω × ν)} (h : Run (Fires (watch exec view)) s₀ es s) :
    Run (Fires exec) s₀ (es.map unwatched) s :=
  h.relabel unwatched fun _ _ _ he ↦ (fires_watch.mp he).1

/-- Replay a history and check a condition on the past, the state and the label. -/
def replays (exec : σ → ι → Except φ (σ × ω)) (ok : List (ι × ω) → σ → ι × ω → Bool) :
    List (ι × ω) → σ → List (ι × ω) → Bool
  | _, _, [] => true
  | past, s, x :: rest =>
    ok past s x &&
      match exec s x.1 with
      | .ok (s', _) => replays exec ok (past ++ [x]) s' rest
      | .error _ => true

/-- A replay that passes its check passes it at every label of every run. -/
theorem Run.of_replays {exec : σ → ι → Except φ (σ × ω)}
    {ok : List (ι × ω) → σ → ι × ω → Bool} {past es l₁ l₂ : List (ι × ω)} {x : ι × ω} {s m : σ}
    (h : replays exec ok past s es = true) (hes : es = l₁ ++ x :: l₂)
    (hrun : Run (Fires exec) s l₁ m) : ok (past ++ l₁) m x = true := by
  induction l₁ generalizing past s es with
  | nil =>
    subst hes
    simp only [List.nil_append, replays, Bool.and_eq_true] at h
    obtain rfl := hrun.of_nil
    simpa using h.1
  | cons y l₁ ih =>
    subst hes
    simp only [List.cons_append, replays, Bool.and_eq_true] at h
    have hcons : Run (Fires exec) s ([] ++ y :: l₁) m := hrun
    obtain ⟨m₀, s₁, hm₀, hfire, hrest⟩ := hcons.fired
    obtain rfl := hm₀.of_nil
    rw [show exec m₀ y.1 = .ok (s₁, y.2) from hfire] at h
    rw [List.append_cons]
    exact ih h.2 rfl hrest

section Agreement

variable {τ : Type*} {R : σ → τ → Prop}

/-- Two outcomes agree: the same fault, or the same output in related states. -/
def Agree (R : σ → τ → Prop) : Except φ (σ × ω) → Except φ (τ × ω) → Prop
  | .ok (s, o), .ok (t, o') => o = o' ∧ R s t
  | .error f, .error f' => f = f'
  | _, _ => False

/-- Two results agree when their answers are equal and their states related. -/
@[simp] theorem agree_ok {s : σ} {t : τ} {o o' : ω} :
    Agree R (.ok (s, o) : Except φ (σ × ω)) (.ok (t, o')) ↔ o = o' ∧ R s t := Iff.rfl

/-- Two failures agree when they are the same. -/
@[simp] theorem agree_error {f f' : φ} :
    Agree R (.error f : Except φ (σ × ω)) (.error f') ↔ f = f' := Iff.rfl

/-- A successful step of the left machine is a step of the right one. -/
theorem Agree.left_ok {x : Except φ (σ × ω)} {y : Except φ (τ × ω)} {s : σ} {o : ω}
    (h : Agree R x y) (hx : x = .ok (s, o)) : ∃ t, y = .ok (t, o) ∧ R s t := by
  subst hx
  cases y with
  | error f => exact h.elim
  | ok p =>
    obtain ⟨rfl, hR⟩ := h
    exact ⟨p.1, rfl, hR⟩

/-- A fault of the left machine is a fault of the right one. -/
theorem Agree.left_error {x : Except φ (σ × ω)} {y : Except φ (τ × ω)} {f : φ}
    (h : Agree R x y) (hx : x = .error f) : y = .error f := by
  subst hx
  cases y with
  | error f' => exact congrArg _ (agree_error.mp h).symm
  | ok p => exact h.elim

/-- A successful step of the right machine is a step of the left one. -/
theorem Agree.right_ok {x : Except φ (σ × ω)} {y : Except φ (τ × ω)} {t : τ} {o : ω}
    (h : Agree R x y) (hy : y = .ok (t, o)) : ∃ s, x = .ok (s, o) ∧ R s t := by
  subst hy
  cases x with
  | error f => exact h.elim
  | ok p =>
    obtain ⟨rfl, hR⟩ := h
    exact ⟨p.1, rfl, hR⟩

variable {exec : σ → ι → Except φ (σ × ω)} {execA : τ → ι → Except φ (τ × ω)}
  {s₀ s : σ} {t₀ t : τ} {es : List (ι × ω)}

/-- Machines that agree on every input have the same runs, left to right. -/
theorem Run.refine (h0 : R s₀ t₀) (ha : ∀ s t i, R s t → Agree R (exec s i) (execA t i))
    (h : Run (Fires exec) s₀ es s) : ∃ t, Run (Fires execA) t₀ es t ∧ R s t :=
  h.simulate h0 fun s t e _ hR he ↦ (ha s t e.1 hR).left_ok he

/-- Machines that agree on every input have the same runs, right to left. -/
theorem Run.realize (h0 : R s₀ t₀) (ha : ∀ s t i, R s t → Agree R (exec s i) (execA t i))
    (h : Run (Fires execA) t₀ es t) : ∃ s, Run (Fires exec) s₀ es s ∧ R s t :=
  h.simulate (R := fun t s ↦ R s t) h0 fun t s e _ hR he ↦ (ha s t e.1 hR).right_ok he

end Agreement

end Execution

end BiMpp.Base
