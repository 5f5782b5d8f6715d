import BiMpp.Host.Loop
import BiMpp.Host.UrbList
import BiMpp.Usbip.Urb

/-!
# The server's threads

`accept_loop` and `system_loop` running `sys_urb_submit`, `hcd_loop` running the host
controller, and `on_urb_complete`, which the first runs for control transfers and the
last, under the controller's lock, for all others:
`bi-mpp-pic24-usb-simulator-master/src/sys.c`, `src/usbip.c`, `src/hcd.c`. A step is one
locked region, one wait that ends, or one `send`.
-/

namespace BiMpp.Usbip
open BiMpp.Usb BiMpp.Base BiMpp.Host

/-- The three threads. -/
inductive Thread
  | accept
  | system
  | hcd
  deriving DecidableEq, Repr

instance Thread.decidableForall {P : Thread → Prop} [∀ t, Decidable (P t)] :
    Decidable (∀ t, P t) :=
  decidable_of_iff (P .accept ∧ P .system ∧ P .hcd)
    ⟨fun ⟨ha, hs, hh⟩ t ↦ match t with | .accept => ha | .system => hs | .hcd => hh,
      fun h ↦ ⟨h _, h _, h _⟩⟩

/-- What the threads have of something, one after the other. -/
def Thread.collect {α : Type} (f : Thread → List α) : List α := f .accept ++ f .system ++ f .hcd

section Collect

variable {α : Type} {f : Thread → List α}

/-- Nothing is collected exactly when no thread has anything. -/
theorem Thread.collect_eq_nil : collect f = [] ↔ ∀ t, f t = [] := by
  unfold collect
  rw [List.append_eq_nil_iff, List.append_eq_nil_iff]
  constructor
  · rintro ⟨⟨ha, hs⟩, hh⟩ t
    cases t with
    | accept => exact ha
    | system => exact hs
    | hcd => exact hh
  · intro h
    exact ⟨⟨h .accept, h .system⟩, h .hcd⟩

/-- One thread has all of it. -/
theorem Thread.collect_of_alone {t : Thread} (h : ∀ t', t' ≠ t → f t' = []) :
    collect f = f t := by
  unfold collect
  cases t with
  | accept => rw [h .system nofun, h .hcd nofun, List.append_nil, List.append_nil]
  | system => rw [h .accept nofun, h .hcd nofun, List.append_nil, List.nil_append]
  | hcd => rw [h .accept nofun, h .system nofun, List.nil_append, List.nil_append]

/-- Where one thread has all of it, no two threads have any. -/
theorem Thread.alone_of {t t₁ t₂ : Thread} (h : ∀ t', t' ≠ t → f t' = []) (h₁ : f t₁ ≠ [])
    (h₂ : f t₂ ≠ []) : t₁ = t₂ := by
  have h1 : t₁ = t := by_contra fun hne ↦ h₁ (h t₁ hne)
  have h2 : t₂ = t := by_contra fun hne ↦ h₂ (h t₂ hne)
  rw [h1, h2]

/-- Where no two threads have any, one that has some has all of it. -/
theorem Thread.others_of_alone {t : Thread} (h : ∀ t t', f t ≠ [] → f t' ≠ [] → t = t')
    (ht : f t ≠ []) : ∀ t', t' ≠ t → f t' = [] := by
  intro t' hne
  by_contra ht'
  exact hne (h t' t ht' ht)

end Collect

/-- Where a thread is with a request. `wait` is `urb_wait` on a stage's URB, with what
`hcd_process_done_list` stored there once it is done; the last three are the steps of
`on_urb_complete`. -/
inductive Pc
  | idle
  | insert (u : Nat) (b : Urb)
  | link (u : Nat) (b : Urb) (st : Stage)
  | wait (u : Nat) (b : Urb) (st : Stage) (done : Option Completion)
  | reply (u : Nat) (b : Urb)
  | payload (u : Nat) (b : Urb)
  | free (u : Nat) (b : Urb)
  deriving DecidableEq, Repr

/-- The controller with its thread, the other threads, the list of URBs, and the URBs
given to the controller for direct transfers. -/
structure Server where
  loop : Loop
  pc : Thread → Pc
  urbList : UrbList
  direct : Nat → Option Urb
  nextUrb : Nat

/-- Before any request. -/
def serverInit : Server where
  loop := loopInit
  pc := fun _ ↦ .idle
  urbList := urbListInit
  direct := fun _ ↦ none
  nextUrb := 0

/-- Move a thread. -/
def Server.setPc (s : Server) (t : Thread) (p : Pc) : Server :=
  { s with pc := Function.update s.pc t p }

/-- The steps. `start` is a CMD_SUBMIT received by `accept_loop`, with the bytes that
follow it or are in the allocated buffer, or a control transfer of `system_loop`. -/
inductive ServerOp
  | start (t : Thread) (submit : CmdSubmit) (maxPacketSize : Int) (data : List UInt8)
  | insert (t : Thread)
  | link (t : Thread)
  | resume (t : Thread)
  | header (t : Thread) (stack : List UInt8)
  | payload (t : Thread)
  | free (t : Thread)
  | wake
  | evaluate
  | body (r : Response)
  deriving DecidableEq, Repr

/-- What a step shows. -/
inductive ServerOut
  | started (u : Nat)
  | quiet
  | loop (x : LoopEvent)
  | header (u : Nat) (b : Urb)
  | payload (bytes : List UInt8)
  deriving DecidableEq, Repr

/-- A step with what it showed. -/
abbrev ServerEvent := ServerOp × ServerOut

/-- `urb_free` of a URB in the list: `sys_urb_unlink`, then its memory is gone;
`urb.c:48–62`. -/
def urbFree (l : UrbList) (u : UrbPtr) : Except Fault UrbList := do
  let l ← urbExec l (.unlink u)
  return { l with heap := Function.update l.heap u none }

/-- A thread after the stage it waited for: the next stage, or the end of
`sys_urb_submit`, where `accept_loop` runs `on_urb_complete` and `system_loop` frees the
URB; `sys.c:201–231,251–253`. -/
def Urb.advance (t : Thread) (u : Nat) (b : Urb) (st : Stage) : Pc :=
  match b.submit.nextStage st with
  | some st' => .link u b st'
  | none => if t = .accept then .reply u b else .free u b

/-- A thread waiting for the URB of a completion. -/
def Pc.deliver (p : Pc) (c : Completion) : Option Pc :=
  match p with
  | .wait u b st none => if stageUrb u st = c.urb then some (.wait u b st (some c)) else none
  | _ => none

/-- `urb_done` on the URB of a completion: the handler runs for a direct transfer, the
waiting thread is woken for a stage; `hcd.c:263–267`, `urb.c:96–112`. -/
def Server.deliver (s : Server) (c : Completion) : Except Fault Server :=
  let u := urbOwner c.urb
  if c.urb = stageUrb u .direct then
    match s.direct u with
    | some b =>
      .ok { s.setPc .hcd (.reply u (b.afterStage c .direct)) with
        direct := Function.update s.direct u none }
    | none => .error .badPointer
  else
    match (s.pc .accept).deliver c with
    | some p => .ok (s.setPc .accept p)
    | none =>
      match (s.pc .system).deliver c with
      | some p => .ok (s.setPc .system p)
      | none => .error .badPointer

/-- The device's answer fits the packet it was asked for; `usbTransfer_fits`. -/
def LoopEvent.Fits (x : LoopEvent) : Prop :=
  ∀ t, x.2.bind HcdEvent.transaction = some t → t.response.Fits t.packet

instance (x : LoopEvent) : Decidable (LoopEvent.Fits x) :=
  match h : x.2.bind HcdEvent.transaction with
  | none => isTrue (by simp [LoopEvent.Fits, h])
  | some t => decidable_of_iff (t.response.Fits t.packet) (by simp [LoopEvent.Fits, h])

/-- A step of `hcd_loop`, when its thread is not in `on_urb_complete`. -/
def Server.loopStep (s : Server) (op : LoopOp) : Except Stop (Server × LoopEvent) :=
  if s.pc .hcd = .idle then do
    let (loop, e) ← loopExec s.loop op
    if LoopEvent.Fits (op, e) then return ({ s with loop := loop }, (op, e))
    else .error .blocked
  else .error .blocked

/-- Raise a fault of the process. -/
def stopOn {α : Type} (x : Except Fault α) : Except Stop α := x.mapError .fault

/-- One step. -/
def serverExec (s : Server) : ServerOp → Except Stop (Server × ServerOut)
  | .start t submit mps data =>
    if t ≠ .hcd ∧ s.pc t = .idle ∧ submit.Valid ∧ (data.length : Int) = submit.size ∧
        (t = .system → submit.isControl) then
      .ok ({ s.setPc t (.insert s.nextUrb ⟨submit, mps, data, 0⟩) with
        nextUrb := s.nextUrb + 1 }, .started s.nextUrb)
    else .error .blocked
  | .insert t =>
    match s.pc t with
    | .insert u b => do
      let l ← stopOn (urbExec s.urbList (.submit u))
      return ({ s.setPc t (.link u b b.submit.firstStage) with urbList := l }, .quiet)
    | _ => .error .blocked
  | .link t =>
    match s.pc t with
    | .link u b st => do
      let (s, x) ← s.loopStep (.link (b.linkArgs u st))
      if st = .direct then
        return ({ s.setPc t .idle with direct := Function.update s.direct u (some b) }, .loop x)
      else return (s.setPc t (.wait u b st none), .loop x)
    | _ => .error .blocked
  | .resume t =>
    match s.pc t with
    | .wait u b st (some c) => .ok (s.setPc t ((b.afterStage c st).advance t u st), .quiet)
    | _ => .error .blocked
  | .header t stack =>
    match s.pc t with
    | .reply u b =>
      if stack.length = 8 then
        .ok (s.setPc t (if b.submit.dirIn then .payload u b else .free u b), .header u b)
      else .error .blocked
    | _ => .error .blocked
  | .payload t =>
    match s.pc t with
    | .payload u b => .ok (s.setPc t (.free u b), .payload (b.data.take b.length.toNat))
    | _ => .error .blocked
  | .free t =>
    match s.pc t with
    | .free u _ => do
      let l ← stopOn (urbFree s.urbList u)
      return ({ s.setPc t .idle with urbList := l }, .quiet)
    | _ => .error .blocked
  | .wake => do
    let (s, x) ← s.loopStep .wake
    return (s, .loop x)
  | .evaluate => do
    let (s, x) ← s.loopStep .evaluate
    return (s, .loop x)
  | .body r => do
    let (s, x) ← s.loopStep (.body r)
    match x.2.bind HcdEvent.completion with
    | none => return (s, .loop x)
    | some c => do
      let s ← stopOn (s.deliver c)
      return (s, .loop x)

/-- One turn of `hcd_loop`, with the device's response. -/
def hcdTurn (r : Response) : List ServerOp := [.wake, .evaluate, .body r]

/-- Finite runs of the server. -/
abbrev ServerRun : List ServerEvent → Server → Prop := Run (Fires serverExec) serverInit

/-! ### What one step can do -/

/-- The moves of a thread on its own: what it leaves, what it shows, where it gets. -/
inductive PcStep (t : Thread) : Pc → ServerEvent → Pc → Prop
  | insert {u : Nat} {b : Urb} :
      PcStep t (.insert u b) (.insert t, .quiet) (.link u b b.submit.firstStage)
  | resume {u : Nat} {b : Urb} {st : Stage} {c : Completion} :
      PcStep t (.wait u b st (some c)) (.resume t, .quiet) ((b.afterStage c st).advance t u st)
  | header {u : Nat} {b : Urb} {stack : List UInt8} : stack.length = 8 →
      PcStep t (.reply u b) (.header t stack, .header u b)
        (if b.submit.dirIn then .payload u b else .free u b)
  | payload {u : Nat} {b : Urb} :
      PcStep t (.payload u b) (.payload t, .payload (b.data.take b.length.toNat)) (.free u b)
  | free {u : Nat} {b : Urb} : PcStep t (.free u b) (.free t, .quiet) .idle

/-- The transitions of the server. -/
inductive ServerStep (s : Server) : ServerEvent → Server → Prop
  | start {t : Thread} {submit : CmdSubmit} {mps : Int} {data : List UInt8} :
      t ≠ .hcd → s.pc t = .idle → submit.Valid → (data.length : Int) = submit.size →
      (t = .system → submit.isControl = true) →
      ServerStep s (.start t submit mps data, .started s.nextUrb)
        { s.setPc t (.insert s.nextUrb ⟨submit, mps, data, 0⟩) with nextUrb := s.nextUrb + 1 }
  | move {t : Thread} {e : ServerEvent} {p : Pc} {l : UrbList} : PcStep t (s.pc t) e p →
      ServerStep s e { s.setPc t p with urbList := l }
  | linkStage {t : Thread} {u : Nat} {b : Urb} {st : Stage} {x : LoopEvent} {loop : Loop} :
      s.pc t = .link u b st → st ≠ .direct → s.pc .hcd = .idle →
      x.1 = .link (b.linkArgs u st) → Fires loopExec s.loop x loop → LoopEvent.Fits x →
      ServerStep s (.link t, .loop x)
        ({ s with loop := loop }.setPc t (.wait u b st none))
  | linkDirect {t : Thread} {u : Nat} {b : Urb} {x : LoopEvent} {loop : Loop} :
      s.pc t = .link u b .direct → s.pc .hcd = .idle →
      x.1 = .link (b.linkArgs u .direct) → Fires loopExec s.loop x loop → LoopEvent.Fits x →
      ServerStep s (.link t, .loop x)
        { { s with loop := loop }.setPc t .idle with direct := Function.update s.direct u (some b) }
  | loop {op : ServerOp} {x : LoopEvent} {loop : Loop} :
      s.pc .hcd = .idle → (∀ a, x.1 ≠ .link a) → Fires loopExec s.loop x loop →
      LoopEvent.Fits x → x.2.bind HcdEvent.completion = none →
      ServerStep s (op, .loop x) { s with loop := loop }
  | doneStage {r : Response} {x : LoopEvent} {loop : Loop} {c : Completion} {t : Thread}
      {u : Nat} {b : Urb} {st : Stage} :
      s.pc .hcd = .idle → x.1 = .body r → Fires loopExec s.loop x loop → LoopEvent.Fits x →
      x.2.bind HcdEvent.completion = some c → t ≠ .hcd → s.pc t = .wait u b st none →
      stageUrb u st = c.urb →
      ServerStep s (.body r, .loop x)
        ({ s with loop := loop }.setPc t (.wait u b st (some c)))
  | doneDirect {r : Response} {x : LoopEvent} {loop : Loop} {c : Completion} {u : Nat} {b : Urb} :
      s.pc .hcd = .idle → x.1 = .body r → Fires loopExec s.loop x loop → LoopEvent.Fits x →
      x.2.bind HcdEvent.completion = some c → s.direct u = some b → c.urb = stageUrb u .direct →
      ServerStep s (.body r, .loop x)
        { { s with loop := loop }.setPc .hcd (.reply u (b.afterStage c .direct)) with
          direct := Function.update s.direct u none }

/-- A step of the driver thread is a step of its loop. -/
theorem loopStep_ok {s s' : Server} {op : LoopOp} {x : LoopEvent}
    (h : s.loopStep op = .ok (s', x)) : ∃ loop, s.pc .hcd = .idle ∧ x.1 = op ∧
      Fires loopExec s.loop x loop ∧ LoopEvent.Fits x ∧ s' = { s with loop := loop } := by
  unfold Server.loopStep at h
  split at h
  · next hidle =>
    obtain ⟨⟨loop, e⟩, hl, hs⟩ := bind_eq_ok.mp h
    dsimp only at hs
    split at hs
    · next hfits =>
      cases pure_eq_ok.mp hs
      exact ⟨loop, hidle, rfl, hl, hfits, rfl⟩
    · exact nomatch hs
  · exact nomatch h

private theorem deliver_wait {p p' : Pc} {c : Completion} (h : p.deliver c = some p') :
    ∃ u b st, p = .wait u b st none ∧ stageUrb u st = c.urb ∧ p' = .wait u b st (some c) := by
  unfold Pc.deliver at h
  split at h
  · next u b st =>
    split at h
    · next hu => exact ⟨u, b, st, rfl, hu, (Option.some.inj h).symm⟩
    · exact nomatch h
  · exact nomatch h

private theorem silent {l l' : Loop} {x : LoopEvent} (hop : x.1 = .wake ∨ x.1 = .evaluate)
    (h : Fires loopExec l x l') : x.2 = none := by
  have hs : LoopStep l x l' := loopStep_of_exec h
  cases hs with
  | link => simp at hop
  | wake => rfl
  | evaluate => rfl
  | body => simp at hop

/-- A step that does not stop did not fault. -/
theorem stopOn_ok {α : Type} {x : Except Fault α} {v : α} (h : stopOn x = .ok v) :
    x = .ok v := by
  cases x with
  | error f => exact nomatch h
  | ok w => exact congrArg _ (Except.ok.inj h)

private theorem serverStep_of_silent {s s' : Server} {op : LoopOp} {x : LoopEvent} {o : ServerOp}
    (hop : op = .wake ∨ op = .evaluate) (h : s.loopStep op = .ok (s', x)) :
    ServerStep s (o, .loop x) s' := by
  obtain ⟨loop, hidle, rfl, hfire, hfits, rfl⟩ := loopStep_ok h
  refine .loop hidle (fun a ha ↦ ?_) hfire hfits ?_
  · rw [ha] at hop
    exact hop.elim nofun nofun
  · rw [silent hop hfire]
    rfl

private theorem deliver_ok {s s' : Server} {c : Completion} (h : s.deliver c = .ok s') :
    (∃ u b, c.urb = stageUrb u .direct ∧ s.direct u = some b ∧
      s' = { s.setPc .hcd (.reply u (b.afterStage c .direct)) with
        direct := Function.update s.direct u none }) ∨
    ∃ t u b st, t ≠ .hcd ∧ s.pc t = .wait u b st none ∧ stageUrb u st = c.urb ∧
      s' = s.setPc t (.wait u b st (some c)) := by
  unfold Server.deliver at h
  dsimp only at h
  split at h
  · next hdirect =>
    split at h
    · next b hb =>
      cases h
      exact .inl ⟨_, b, hdirect, hb, rfl⟩
    · exact nomatch h
  · split at h
    · next p hp =>
      cases h
      obtain ⟨u, b, st, hpc, hu, rfl⟩ := deliver_wait hp
      exact .inr ⟨.accept, u, b, st, nofun, hpc, hu, rfl⟩
    · split at h
      · next p hp =>
        cases h
        obtain ⟨u, b, st, hpc, hu, rfl⟩ := deliver_wait hp
        exact .inr ⟨.system, u, b, st, nofun, hpc, hu, rfl⟩
      · exact nomatch h

/-- Every successful step is one of the transitions. -/
theorem serverStep_of_exec {s s' : Server} {op : ServerOp} {out : ServerOut}
    (h : serverExec s op = .ok (s', out)) : ServerStep s (op, out) s' := by
  cases op with
  | start t submit mps data =>
    simp only [serverExec] at h
    split at h
    · next hg =>
      cases h
      exact .start hg.1 hg.2.1 hg.2.2.1 hg.2.2.2.1 hg.2.2.2.2
    · exact nomatch h
  | insert t =>
    simp only [serverExec] at h
    split at h
    · next u b hpc =>
      obtain ⟨l, -, hs⟩ := bind_eq_ok.mp h
      cases pure_eq_ok.mp hs
      exact .move (by rw [hpc]; exact .insert)
    · exact nomatch h
  | link t =>
    simp only [serverExec] at h
    split at h
    · next u b st hpc =>
      obtain ⟨⟨s₁, x⟩, hl, hs⟩ := bind_eq_ok.mp h
      obtain ⟨loop, hidle, hop, hfire, hfits, rfl⟩ := loopStep_ok hl
      dsimp only at hs
      split at hs
      · next hst =>
        subst hst
        cases pure_eq_ok.mp hs
        exact .linkDirect hpc hidle hop hfire hfits
      · next hst =>
        cases pure_eq_ok.mp hs
        exact .linkStage hpc hst hidle hop hfire hfits
    · exact nomatch h
  | resume t =>
    simp only [serverExec] at h
    split at h
    · next u b st c hpc =>
      cases h
      exact .move (by rw [hpc]; exact .resume)
    · exact nomatch h
  | header t stack =>
    simp only [serverExec] at h
    split at h
    · next u b hpc =>
      split at h
      · next hlen =>
        cases h
        exact .move (by rw [hpc]; exact .header hlen)
      · exact nomatch h
    · exact nomatch h
  | payload t =>
    simp only [serverExec] at h
    split at h
    · next u b hpc =>
      cases h
      exact .move (by rw [hpc]; exact .payload)
    · exact nomatch h
  | free t =>
    simp only [serverExec] at h
    split at h
    · next u b hpc =>
      obtain ⟨l, -, hs⟩ := bind_eq_ok.mp h
      cases pure_eq_ok.mp hs
      exact .move (by rw [hpc]; exact .free)
    · exact nomatch h
  | wake =>
    obtain ⟨⟨s₁, x⟩, hl, hs⟩ := bind_eq_ok.mp h
    cases pure_eq_ok.mp hs
    exact serverStep_of_silent (.inl rfl) hl
  | evaluate =>
    obtain ⟨⟨s₁, x⟩, hl, hs⟩ := bind_eq_ok.mp h
    cases pure_eq_ok.mp hs
    exact serverStep_of_silent (.inr rfl) hl
  | body r =>
    obtain ⟨⟨s₁, x⟩, hl, hs⟩ := bind_eq_ok.mp h
    obtain ⟨loop, hidle, hop, hfire, hfits, rfl⟩ := loopStep_ok hl
    dsimp only at hs
    split at hs
    · next hnone =>
      cases pure_eq_ok.mp hs
      exact .loop hidle (by rw [hop]; exact nofun) hfire hfits hnone
    · next c hc =>
      obtain ⟨s₂, hd, hs⟩ := bind_eq_ok.mp hs
      cases pure_eq_ok.mp hs
      rcases deliver_ok (stopOn_ok hd) with ⟨u, b, hdirect, hb, rfl⟩ |
        ⟨t, u, b, st, ht, hpc, hu, rfl⟩
      · exact .doneDirect hidle hop hfire hfits hc hb hdirect
      · exact .doneStage hidle hop hfire hfits hc ht hpc hu

/-! ### The controller inside the server -/

/-- The step of the controller's thread or its environment in an event. -/
def ServerEvent.loopEvent : ServerEvent → Option LoopEvent
  | (_, .loop x) => some x
  | _ => none

/-- The controller's share of a history. -/
def loopEvents (es : List ServerEvent) : List LoopEvent := es.filterMap ServerEvent.loopEvent

/-- The driver's share of a history. -/
def hcdEvents (es : List ServerEvent) : List HcdEvent := driverEvents (loopEvents es)

/-- The driver event of a step. -/
def ServerEvent.hcdEvent (e : ServerEvent) : Option HcdEvent :=
  (ServerEvent.loopEvent e).bind Prod.snd

/-- The events of the driver after one more event. -/
theorem hcdEvents_snoc (es : List ServerEvent) (e : ServerEvent) :
    hcdEvents (es ++ [e]) = hcdEvents es ++ (ServerEvent.hcdEvent e).toList := by
  unfold hcdEvents loopEvents driverEvents ServerEvent.hcdEvent
  rw [List.filterMap_append, List.filterMap_append]
  cases h : ServerEvent.loopEvent e with
  | none => simp [h]
  | some x => cases hx : x.2 <;> simp [h, hx]

/-- A thread on its own does not move the controller. -/
theorem PcStep.loopEvent {t : Thread} {p p' : Pc} {e : ServerEvent} (h : PcStep t p e p') :
    ServerEvent.loopEvent e = none := by
  cases h <;> rfl

/-- A step moves the controller by its event, or not at all. -/
theorem ServerStep.loop_step {s s' : Server} {e : ServerEvent} (h : ServerStep s e s') :
    match ServerEvent.loopEvent e with
    | none => s'.loop = s.loop
    | some x => Fires loopExec s.loop x s'.loop := by
  cases h with
  | start => rfl
  | move hp =>
    rw [hp.loopEvent]
    rfl
  | linkStage _ _ _ _ hfire => exact hfire
  | linkDirect _ _ _ hfire => exact hfire
  | loop _ _ hfire => exact hfire
  | doneStage _ _ hfire => exact hfire
  | doneDirect _ _ hfire => exact hfire

/-- The controller of a server run is in a run of its own. -/
theorem ServerRun.loop_run {es : List ServerEvent} {s : Server} (h : ServerRun es s) :
    LoopRun (loopEvents es) s.loop := by
  refine h.project Server.loop ServerEvent.loopEvent ?_
  intro s e s' hs
  have hstep : ServerStep s e s' := serverStep_of_exec hs
  have hloop := hstep.loop_step
  cases he : ServerEvent.loopEvent e with
  | none =>
    rw [he] at hloop
    exact hloop
  | some x =>
    rw [he] at hloop
    exact hloop

end BiMpp.Usbip
