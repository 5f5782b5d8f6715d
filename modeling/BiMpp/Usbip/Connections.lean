import BiMpp.Usbip.Replies

/-!
# Successive connections

`accept_loop` serves one client after another. The handler of a request keeps the
descriptor number its CMD_SUBMIT came from, and writes to whatever that number is open for
when the request is done: `bi-mpp-pic24-usb-simulator-master/src/usbip.c:76–149,185,207`.
-/

namespace BiMpp.Usbip
open BiMpp.Usb BiMpp.Base BiMpp.Host

/-! ### The program -/

/-- The server and its clients: the number of connections accepted so far, `sfd` with the
number of its connection, what a descriptor number is open for, and `args->fd` of each
request. -/
structure Connections where
  server : Server
  accepted : Nat
  current : Option (Nat × Nat)
  files : Nat → Option Nat
  args : Nat → Option Nat

/-- Before the first client. -/
def connectionsInit : Connections where
  server := serverInit
  accepted := 0
  current := none
  files := fun _ ↦ none
  args := fun _ ↦ none

/-- The steps: `accept`, with the number it returns; the `recv` that finds the client gone,
and `close`; and any step of the server. -/
inductive ConnectionOp
  | accept (fd : Nat)
  | close
  | server (op : ServerOp)
  deriving DecidableEq, Repr

/-- What a step shows: for a CMD_SUBMIT the connection it came from, and for a `send` the
request it is for and the connection it reaches, none if its number is closed. -/
inductive ConnectionOut
  | accepted (c : Nat)
  | closed (c : Nat)
  | received (e : ServerEvent) (u : Nat) (submit : CmdSubmit) (c : Nat)
  | sent (e : ServerEvent) (u : Nat) (dest : Option Nat)
  | server (e : ServerEvent)
  deriving DecidableEq, Repr

/-- A step with what it showed. -/
abbrev ConnectionEvent := ConnectionOp × ConnectionOut

/-- The request whose reply a step sends a part of. -/
def Server.sending (s : Server) : ServerOp → Option Nat
  | .header t _ =>
    match s.pc t with
    | .reply u _ => some u
    | _ => none
  | .payload t =>
    match s.pc t with
    | .payload u _ => some u
    | _ => none
  | _ => none

/-- One step. -/
def connectionsExec (s : Connections) :
    ConnectionOp → Except Stop (Connections × ConnectionOut)
  | .accept fd =>
    if s.current = none ∧ s.server.pc .accept = .idle ∧ s.files fd = none then
      .ok ({ s with
        accepted := s.accepted + 1
        current := some (fd, s.accepted)
        files := Function.update s.files fd (some s.accepted) }, .accepted s.accepted)
    else .error .blocked
  | .close =>
    match s.current with
    | some (fd, c) =>
      if s.server.pc .accept = .idle then
        .ok ({ s with current := none, files := Function.update s.files fd none }, .closed c)
      else .error .blocked
    | none => .error .blocked
  | .server op => do
    let (server, o) ← serverExec s.server op
    match ServerEvent.received (op, o), s.current, s.server.sending op with
    | some (u, submit), some (fd, c), _ =>
      return ({ s with server := server, args := Function.update s.args u (some fd) },
        .received (op, o) u submit c)
    | some _, none, _ => .error .blocked
    | none, _, some u =>
      return ({ s with server := server }, .sent (op, o) u ((s.args u).bind s.files))
    | none, _, none => return ({ s with server := server }, .server (op, o))

/-- Finite runs. -/
abbrev ConnectionsRun : List ConnectionEvent → Connections → Prop :=
  Run (Fires connectionsExec) connectionsInit

/-- The step of the server in an event. -/
def ConnectionEvent.serverEvent : ConnectionEvent → Option ServerEvent
  | (_, .received e _ _ _) => some e
  | (_, .sent e _ _) => some e
  | (_, .server e) => some e
  | _ => none

/-- The server's part of a history. -/
def threadEvents (es : List ConnectionEvent) : List ServerEvent :=
  es.filterMap ConnectionEvent.serverEvent

/-- The CMD_SUBMIT an event receives, with its connection. -/
def ConnectionEvent.receivedOn : ConnectionEvent → Option ((Nat × CmdSubmit) × Nat)
  | (_, .received _ u submit c) => some ((u, submit), c)
  | _ => none

/-- The CMD_SUBMITs of a history, with their connections. -/
def receivedOn (es : List ConnectionEvent) : List ((Nat × CmdSubmit) × Nat) :=
  es.filterMap ConnectionEvent.receivedOn

/-! ### What one step can do -/

/-- The transitions. -/
inductive ConnectionStep (s : Connections) : ConnectionEvent → Connections → Prop
  | accept {fd : Nat} : s.current = none → s.server.pc .accept = .idle → s.files fd = none →
      ConnectionStep s (.accept fd, .accepted s.accepted) { s with
        accepted := s.accepted + 1
        current := some (fd, s.accepted)
        files := Function.update s.files fd (some s.accepted) }
  | close {fd c : Nat} : s.current = some (fd, c) → s.server.pc .accept = .idle →
      ConnectionStep s (.close, .closed c)
        { s with current := none, files := Function.update s.files fd none }
  | received {e : ServerEvent} {server : Server} {u fd c : Nat} {submit : CmdSubmit} :
      Fires serverExec s.server e server → ServerEvent.received e = some (u, submit) →
      s.current = some (fd, c) →
      ConnectionStep s (.server e.1, .received e u submit c)
        { s with server := server, args := Function.update s.args u (some fd) }
  | sent {e : ServerEvent} {server : Server} {u : Nat} :
      Fires serverExec s.server e server → ServerEvent.received e = none →
      s.server.sending e.1 = some u →
      ConnectionStep s (.server e.1, .sent e u ((s.args u).bind s.files))
        { s with server := server }
  | server {e : ServerEvent} {server : Server} :
      Fires serverExec s.server e server → ServerEvent.received e = none →
      ConnectionStep s (.server e.1, .server e) { s with server := server }

/-- Every successful step is one of the transitions. -/
theorem connectionStep_of_exec {s s' : Connections} {op : ConnectionOp} {o : ConnectionOut}
    (h : connectionsExec s op = .ok (s', o)) : ConnectionStep s (op, o) s' := by
  cases op with
  | accept fd =>
    simp only [connectionsExec] at h
    split at h
    · next hg =>
      cases h
      exact .accept hg.1 hg.2.1 hg.2.2
    · cases h
  | close =>
    simp only [connectionsExec] at h
    split at h
    · next fd c hcur =>
      split at h
      · next hidle =>
        cases h
        exact .close hcur hidle
      · cases h
    · cases h
  | server op =>
    obtain ⟨⟨server, o'⟩, hfire, h⟩ := bind_eq_ok.mp h
    dsimp only at h
    split at h
    · next hrec hcur =>
      cases pure_eq_ok.mp h
      exact .received (e := (op, o')) hfire hrec hcur
    · cases h
    · next hrec hsend =>
      cases pure_eq_ok.mp h
      exact .sent (e := (op, o')) hfire hrec hsend
    · next hrec _ =>
      cases pure_eq_ok.mp h
      exact .server (e := (op, o')) hfire hrec

/-- The server of a run is in a run of its own. -/
theorem ConnectionsRun.server_run {es : List ConnectionEvent} {s : Connections}
    (h : ConnectionsRun es s) : ServerRun (threadEvents es) s.server := by
  apply h.project Connections.server ConnectionEvent.serverEvent
  intro s e s' hs
  have hstep : ConnectionStep s e s' := connectionStep_of_exec hs
  cases hstep with
  | accept => rfl
  | close => rfl
  | received hfire => exact hfire
  | sent hfire => exact hfire
  | server hfire => exact hfire

/-! ### Who is still to be answered -/

/-- The request a thread has not finished answering. -/
def Pc.owes : Pc → Option Nat
  | idle => none
  | insert u _ => some u
  | link u _ _ => some u
  | wait u _ _ _ => some u
  | reply u _ => some u
  | payload u _ => some u
  | free _ _ => none

/-- A request that is not fully answered. -/
def Server.Owing (s : Server) (u : Nat) : Prop :=
  (s.direct u).isSome = true ∨ ∃ t, (s.pc t).owes = some u

instance (s : Server) (u : Nat) : Decidable (s.Owing u) :=
  decidable_of_iff ((s.direct u).isSome = true ∨ ¬ ∀ t, (s.pc t).owes ≠ some u)
    (or_congr Iff.rfl (by simp))

private theorem owes_own {t : Thread} {p p' : Pc} {e : ServerEvent} (h : PcStep t p e p')
    {u : Nat} (hp : p'.owes = some u) : p.owes = some u := by
  cases h with
  | insert => exact hp
  | @resume v b st c =>
    unfold Urb.advance at hp
    split at hp
    · exact hp
    · split at hp
      · exact hp
      · cases hp
  | header =>
    split at hp
    · exact hp
    · cases hp
  | payload => cases hp
  | free => cases hp

/-- Only a request that begins comes to be owed. -/
theorem ServerStep.owing_before {s s' : Server} {e : ServerEvent} (h : ServerStep s e s')
    {u : Nat} (hlt : u < s.nextUrb) (hu : s'.Owing u) : s.Owing u := by
  rcases hu with hd | ⟨t, hp⟩
  · obtain ⟨b, hb⟩ := Option.isSome_iff_exists.mp hd
    rcases h.direct_of hb with hb | ⟨t, ht⟩
    · exact Or.inl (Option.isSome_iff_exists.mpr ⟨b, hb⟩)
    · exact Or.inr ⟨t, by rw [ht]; rfl⟩
  · have hmove := h.pc_move t
    revert hp hmove
    generalize s'.pc t = p
    intro hp hmove
    cases hmove with
    | keep => exact Or.inr ⟨t, hp⟩
    | start =>
      cases hp
      exact absurd hlt (Nat.lt_irrefl _)
    | own hown => exact Or.inr ⟨t, owes_own hown hp⟩
    | stage hpc =>
      cases hp
      exact Or.inr ⟨t, by rw [hpc]; rfl⟩
    | park => cases hp
    | done hpc =>
      cases hp
      exact Or.inr ⟨t, by rw [hpc]; rfl⟩
    | direct _ _ hb =>
      cases hp
      exact Or.inl (Option.isSome_iff_exists.mpr ⟨_, hb⟩)

private theorem sending_owes {s : Server} {e : ServerEvent} {s' : Server} {v : Nat}
    (h : ServerStep s e s') (hv : s.sending e.1 = some v) :
    s.Owing v ∧ ∀ t stack u b, e = (.header t stack, .header u b) → u = v := by
  obtain ⟨op, o⟩ := e
  cases op with
  | header t stack =>
    simp only [Server.sending] at hv
    split at hv
    · next u b hpc =>
      cases hv
      refine ⟨Or.inr ⟨t, by rw [hpc]; rfl⟩, ?_⟩
      intro t' stack' u' b' he
      cases he
      have hreply := h.header_pc.1
      rw [hpc] at hreply
      cases hreply
      rfl
    · cases hv
  | payload t =>
    simp only [Server.sending] at hv
    split at hv
    · next u b hpc =>
      cases hv
      exact ⟨Or.inr ⟨t, by rw [hpc]; rfl⟩, by simp⟩
    · cases hv
  | _ => cases hv

/-! ### Where the answers go -/

/-- Every RET_SUBMIT written to a connection answers a CMD_SUBMIT received on it, and what
is sent for a CMD_SUBMIT goes to its connection or nowhere. -/
structure OwnConnection (es : List ConnectionEvent) : Prop where
  replies : ∀ t stack u b v c,
    (.server (.header t stack), .sent (.header t stack, .header u b) v (some c)) ∈ es →
    ∃ submit, ((u, submit), c) ∈ receivedOn es ∧ (Reply.mk u b stack).Answers submit
  data : ∀ op e u c c' submit, (op, .sent e u (some c')) ∈ es →
    ((u, submit), c) ∈ receivedOn es → c' = c

/-- `accept` does not return a number that an unanswered request still has. -/
def Spare (s : Connections) (e : ConnectionEvent) : Prop :=
  ∀ fd, e.1 = .accept fd → ∀ u < s.server.nextUrb, s.server.Owing u → s.args u ≠ some fd

instance (s : Connections) (e : ConnectionEvent) : Decidable (Spare s e) :=
  match h : e.1 with
  | .accept fd =>
    decidable_of_iff (∀ u < s.server.nextUrb, s.server.Owing u → s.args u ≠ some fd)
      ⟨fun hall fd' hfd ↦ by cases h.symm.trans hfd; exact hall, fun hall ↦ hall fd h⟩
  | .close => isTrue fun fd hfd ↦ by cases h.symm.trans hfd
  | .server _ => isTrue fun fd hfd ↦ by cases h.symm.trans hfd

section Snoc

variable (es : List ConnectionEvent) (e : ConnectionEvent)

private theorem threadEvents_snoc : threadEvents (es ++ [e]) =
    threadEvents es ++ (ConnectionEvent.serverEvent e).toList := by
  rw [threadEvents, List.filterMap_append]
  cases h : ConnectionEvent.serverEvent e <;> simp [threadEvents, h]

private theorem receivedOn_snoc : receivedOn (es ++ [e]) =
    receivedOn es ++ (ConnectionEvent.receivedOn e).toList := by
  rw [receivedOn, List.filterMap_append]
  cases h : ConnectionEvent.receivedOn e <;> simp [receivedOn, h]

end Snoc

/-- What has been sent went home, and a number that an unanswered request has is its
connection's or closed. -/
structure Homed (es : List ConnectionEvent) (s : Connections) : Prop where
  listed : (receivedOn es).map Prod.fst = received (threadEvents es)
  current : ∀ fd c, s.current = some (fd, c) → s.files fd = some c
  home : ∀ u fd, s.args u = some fd → ∃ submit c, ((u, submit), c) ∈ receivedOn es ∧
    (s.server.Owing u → ∀ c', s.files fd = some c' → c' = c)
  sent : ∀ op e v c, (op, .sent e v (some c)) ∈ es → ∃ submit, ((v, submit), c) ∈ receivedOn es
  named : ∀ op t stack u b v d, (op, .sent (.header t stack, .header u b) v d) ∈ es → u = v

namespace Homed

variable {es : List ConnectionEvent} {s : Connections}

/-- No request has a connection before the first step. -/
theorem init : Homed [] connectionsInit where
  listed := rfl
  current _ _ h := by cases h
  home _ _ h := by cases h
  sent _ _ _ _ h := by cases h
  named _ _ _ _ _ _ _ h := by cases h

private theorem received_lt (h : Homed es s) (hh : Held (threadEvents es) s.server)
    {r : (Nat × CmdSubmit) × Nat} (hr : r ∈ receivedOn es) : r.1.1 < s.server.nextUrb := by
  apply hh.request_lt (r := r.1)
  apply Held.request_of_received
  rw [← h.listed]
  exact List.mem_map_of_mem hr

private theorem quiet (h : Homed es s) {e : ConnectionEvent}
    (he : ∀ x v d, e.2 ≠ .sent x v d) :
    (∀ op x v c, (op, .sent x v (some c)) ∈ es ++ [e] →
      ∃ submit, ((v, submit), c) ∈ receivedOn (es ++ [e])) ∧
    ∀ op t stack u b v d, (op, .sent (.header t stack, .header u b) v d) ∈ es ++ [e] → u = v := by
  constructor
  · intro op x v c hmem
    rcases List.mem_append.mp hmem with hold | hnew
    · obtain ⟨submit, hr⟩ := h.sent op x v c hold
      refine ⟨submit, ?_⟩
      rw [receivedOn_snoc]
      exact List.mem_append_left _ hr
    · rw [← List.mem_singleton.mp hnew] at he
      exact absurd rfl (he x v (some c))
  · intro op t stack u b v d hmem
    rcases List.mem_append.mp hmem with hold | hnew
    · exact h.named op t stack u b v d hold
    · rw [← List.mem_singleton.mp hnew] at he
      exact absurd rfl (he _ v d)

private theorem home_server (h : Homed es s) (hh : Held (threadEvents es) s.server)
    {x : ServerEvent} {server : Server} (hs : ServerStep s.server x server) {u fd : Nat}
    (hu : s.args u = some fd) : ∃ submit c, ((u, submit), c) ∈ receivedOn es ∧
      (server.Owing u → ∀ c', s.files fd = some c' → c' = c) := by
  obtain ⟨submit, c, hr, hfd⟩ := h.home u fd hu
  exact ⟨submit, c, hr, fun ho ↦ hfd (hs.owing_before (h.received_lt hh hr) ho)⟩

private theorem accept (h : Homed es s) (hh : Held (threadEvents es) s.server) {fd₀ : Nat}
    (hok : Spare s (.accept fd₀, .accepted s.accepted)) :
    Homed (es ++ [(.accept fd₀, .accepted s.accepted)]) { s with
      accepted := s.accepted + 1
      current := some (fd₀, s.accepted)
      files := Function.update s.files fd₀ (some s.accepted) } := by
  have hrec : receivedOn (es ++ [(.accept fd₀, .accepted s.accepted)]) = receivedOn es := by
    rw [receivedOn_snoc]
    exact List.append_nil _
  obtain ⟨hsent, hnamed⟩ := h.quiet (e := (.accept fd₀, .accepted s.accepted)) (by simp)
  constructor
  · rw [hrec, h.listed, threadEvents_snoc]
    exact congrArg received (List.append_nil _).symm
  · intro fd c hcur
    cases hcur
    exact Function.update_self ..
  · intro u fd hu
    obtain ⟨submit, c, hr, hfd⟩ := h.home u fd hu
    rw [hrec]
    refine ⟨submit, c, hr, fun ho c' hc' ↦ hfd ho c' ?_⟩
    -- the number is not the one accepted, which no unanswered request has
    have hne : fd ≠ fd₀ := by
      rintro rfl
      exact hok fd rfl u (h.received_lt hh hr) ho hu
    exact (Function.update_of_ne hne ..).symm.trans hc'
  · exact hsent
  · exact hnamed

private theorem close (h : Homed es s) {fd₀ c₀ : Nat} :
    Homed (es ++ [(.close, .closed c₀)])
      { s with current := none, files := Function.update s.files fd₀ none } := by
  have hrec : receivedOn (es ++ [(.close, .closed c₀)]) = receivedOn es := by
    rw [receivedOn_snoc]
    exact List.append_nil _
  obtain ⟨hsent, hnamed⟩ := h.quiet (e := (.close, .closed c₀)) (by simp)
  constructor
  · rw [hrec, h.listed, threadEvents_snoc]
    exact congrArg received (List.append_nil _).symm
  · intro fd c hcur
    cases hcur
  · intro u fd hu
    obtain ⟨submit, c, hr, hfd⟩ := h.home u fd hu
    rw [hrec]
    refine ⟨submit, c, hr, fun ho c' hc' ↦ hfd ho c' ?_⟩
    change Function.update s.files fd₀ none fd = some c' at hc'
    rw [Function.update_apply] at hc'
    split at hc'
    · cases hc'
    · exact hc'
  · exact hsent
  · exact hnamed

private theorem receive (h : Homed es s) (hh : Held (threadEvents es) s.server)
    {x : ServerEvent} {server : Server} {u₀ fd₀ c₀ : Nat} {submit₀ : CmdSubmit}
    (hs : ServerStep s.server x server) (hx : ServerEvent.received x = some (u₀, submit₀))
    (hcur : s.current = some (fd₀, c₀)) :
    Homed (es ++ [(.server x.1, .received x u₀ submit₀ c₀)])
      { s with server := server, args := Function.update s.args u₀ (some fd₀) } := by
  have hrec : receivedOn (es ++ [(.server x.1, .received x u₀ submit₀ c₀)]) =
      receivedOn es ++ [((u₀, submit₀), c₀)] := by
    rw [receivedOn_snoc]
    rfl
  obtain ⟨hsent, hnamed⟩ := h.quiet (e := (.server x.1, .received x u₀ submit₀ c₀)) (by simp)
  constructor
  · rw [hrec, List.map_append, h.listed, threadEvents_snoc]
    show _ = received (threadEvents es ++ [x])
    rw [received_snoc, hx]
    rfl
  · exact h.current
  · intro u fd hu
    change Function.update s.args u₀ (some fd₀) u = some fd at hu
    rw [Function.update_apply] at hu
    rw [hrec]
    split at hu
    · next he =>
      cases hu
      subst he
      refine ⟨submit₀, c₀, List.mem_append_right _ (List.mem_singleton_self _), ?_⟩
      intro _ c' hc'
      exact Option.some.inj (hc'.symm.trans (h.current _ _ hcur))
    · obtain ⟨submit, c, hr, hfd⟩ := h.home_server hh hs hu
      exact ⟨submit, c, List.mem_append_left _ hr, hfd⟩
  · exact hsent
  · exact hnamed

private theorem send (h : Homed es s) (hh : Held (threadEvents es) s.server)
    {x : ServerEvent} {server : Server} {v : Nat} (hs : ServerStep s.server x server)
    (hx : ServerEvent.received x = none) (hv : s.server.sending x.1 = some v) :
    Homed (es ++ [(.server x.1, .sent x v ((s.args v).bind s.files))])
      { s with server := server } := by
  have hrec : receivedOn (es ++ [(.server x.1, .sent x v ((s.args v).bind s.files))]) =
      receivedOn es := by
    rw [receivedOn_snoc]
    exact List.append_nil _
  obtain ⟨howes, hname⟩ := sending_owes hs hv
  constructor
  · rw [hrec, h.listed, threadEvents_snoc]
    show _ = received (threadEvents es ++ [x])
    rw [received_snoc, hx, Option.toList_none, List.append_nil]
  · exact h.current
  · intro u fd hu
    rw [hrec]
    exact h.home_server hh hs hu
  · intro op y w c hmem
    rw [hrec]
    rcases List.mem_append.mp hmem with hold | hnew
    · exact h.sent op y w c hold
    · have heq := List.mem_singleton.mp hnew
      simp only [Prod.mk.injEq, ConnectionOut.sent.injEq] at heq
      obtain ⟨-, -, rfl, hto⟩ := heq
      obtain ⟨fd, hfd, hc⟩ := Option.bind_eq_some_iff.mp hto.symm
      obtain ⟨submit, c₀, hr, hown⟩ := h.home w fd hfd
      rw [hown howes c hc]
      exact ⟨submit, hr⟩
  · intro op t stack u b w d hmem
    rcases List.mem_append.mp hmem with hold | hnew
    · exact h.named op t stack u b w d hold
    · have heq := List.mem_singleton.mp hnew
      simp only [Prod.mk.injEq, ConnectionOut.sent.injEq] at heq
      obtain ⟨-, hx', rfl, -⟩ := heq
      exact hname t stack u b hx'.symm

private theorem step (h : Homed es s) (hh : Held (threadEvents es) s.server)
    {e : ConnectionEvent} {s' : Connections} (hs : ConnectionStep s e s') (hok : Spare s e) :
    Homed (es ++ [e]) s' := by
  cases hs with
  | accept => exact h.accept hh hok
  | close => exact h.close
  | received hfire hx hcur => exact h.receive hh (serverStep_of_exec hfire) hx hcur
  | sent hfire hx hv => exact h.send hh (serverStep_of_exec hfire) hx hv
  | @server x server hfire hx =>
    have hrec : receivedOn (es ++ [(.server x.1, .server x)]) = receivedOn es := by
      rw [receivedOn_snoc]
      exact List.append_nil _
    obtain ⟨hsent, hnamed⟩ := h.quiet (e := (.server x.1, .server x)) (by simp)
    constructor
    · rw [hrec, h.listed, threadEvents_snoc]
      show _ = received (threadEvents es ++ [x])
      rw [received_snoc, hx, Option.toList_none, List.append_nil]
    · exact h.current
    · intro u fd hu
      rw [hrec]
      exact h.home_server hh (serverStep_of_exec hfire) hu
    · exact hsent
    · exact hnamed

end Homed

/-- As long as `accept` returns no number that an unanswered request has, answers stay on
their own connection. -/
theorem ConnectionsRun.own {es : List ConnectionEvent} {s : Connections}
    (h : Run (Guarded (Fires connectionsExec) Spare) connectionsInit es s) :
    OwnConnection es := by
  have hrun := (show ConnectionsRun es s from h.unguarded).server_run
  have hhomed : Homed es s := by
    apply Run.invariant (P := Homed) Homed.init _ h
    intro es s e s' hprefix ih hfire
    have hheld := ServerRun.held (ConnectionsRun.server_run hprefix.unguarded)
    exact ih.step hheld (connectionStep_of_exec hfire.1) hfire.2
  -- a number names one CMD_SUBMIT, and so one connection
  have hunique : ∀ {u submit submit' c c'}, ((u, submit), c) ∈ receivedOn es →
      ((u, submit'), c') ∈ receivedOn es → submit = submit' ∧ c = c' := by
    intro u submit submit' c c' hr hr'
    have hnd : ((receivedOn es).map fun r ↦ r.1.1).Nodup := by
      have hnodup := (ServerRun.held hrun).received_nodup
      rw [← hhomed.listed, List.map_map] at hnodup
      exact hnodup
    have heq := List.inj_on_of_nodup_map hnd hr hr' rfl
    simp only [Prod.mk.injEq] at heq
    exact ⟨heq.1.2, heq.2⟩
  constructor
  · intro t stack u b v c hmem
    obtain rfl := hhomed.named _ _ _ _ _ _ _ hmem
    obtain ⟨submit, hr⟩ := hhomed.sent _ _ _ _ hmem
    have hreply : Reply.mk u b stack ∈ replies (threadEvents es) := by
      apply List.mem_filterMap.mpr
      exact ⟨_, List.mem_filterMap.mpr ⟨_, hmem, rfl⟩, rfl⟩
    obtain ⟨hown, hsized, -⟩ := (ServerRun.settled hrun).own _ hreply
    have hown : (u, b.submit) ∈ received (threadEvents es) := hown
    rw [← hhomed.listed] at hown
    obtain ⟨r, hr', hru⟩ := List.mem_map.mp hown
    obtain ⟨r₁, c'⟩ := r
    dsimp only at hru
    subst hru
    obtain ⟨rfl, rfl⟩ := hunique hr hr'
    exact ⟨_, hr, Reply.answers_of_sized hsized⟩
  · intro op e u c c' submit hmem hr
    obtain ⟨submit', hr'⟩ := hhomed.sent _ _ _ _ hmem
    exact (hunique hr' hr).2

private def strayRequest : CmdSubmit := ⟨7, 0x10001, 1, 2, 2, [0, 0, 0, 0, 0, 0, 0, 0]⟩

private def askOps (fd : Nat) : List ConnectionOp :=
  .accept fd :: [.start .accept strayRequest 64 [0, 0], .insert .accept, .link .accept].map
    ConnectionOp.server

private def answerOps : List ConnectionOp :=
  (hcdTurn .nak ++ hcdTurn .nak ++ hcdTurn .nak ++ hcdTurn .nak ++ hcdTurn (.ack 2 [5, 6]) ++
    hcdTurn .nak ++
    [ServerOp.header .hcd (List.replicate 8 0), .payload .hcd, .free .hcd]).map
    ConnectionOp.server

private def payloadTo (c : Nat) : ConnectionEvent :=
  (.server (.payload .hcd), .sent (.payload .hcd, .payload [5, 6]) 0 (some c))

/-- A payload goes out on the connection that asked for it. -/
theorem ConnectionsRun.own_example : ∃ es s,
    Run (Guarded (Fires connectionsExec) Spare) connectionsInit es s ∧ payloadTo 0 ∈ es ∧
    (.accept 4, .accepted 1) ∈ es ∧ OwnConnection es := by
  have hcheck : runsTo (guardedExec connectionsExec Spare .blocked) connectionsInit
      (askOps 4 ++ answerOps ++ [.close, .accept 4]) (fun _ es ↦
        decide (payloadTo 0 ∈ es ∧ (.accept 4, .accepted 1) ∈ es)) = true := by decide +kernel
  obtain ⟨es, s, hrun, hp⟩ := Run.of_runsTo hcheck
  have hrun' := Run.of_guardedExec hrun
  obtain ⟨hpay, hacc⟩ := of_decide_eq_true hp
  exact ⟨es, s, hrun', hpay, hacc, ConnectionsRun.own hrun'⟩

/-- A client goes away before the device has answered its request; the next one gets the
number of its descriptor, and its answer. -/
theorem ConnectionsRun.answer_astray : ¬ ∀ es s, ConnectionsRun es s → OwnConnection es := by
  intro hall
  have hcheck : runsTo connectionsExec connectionsInit
      (askOps 4 ++ [.close, .accept 4] ++ answerOps) (fun _ es ↦
        decide (payloadTo 1 ∈ es ∧ ((0, strayRequest), 0) ∈ receivedOn es)) = true := by
    decide +kernel
  obtain ⟨es, s, hrun, hp⟩ := Run.of_runsTo hcheck
  obtain ⟨hpay, hrec⟩ := of_decide_eq_true hp
  have heq := (hall es s hrun).data _ _ _ _ _ _ hpay hrec
  cases heq

end BiMpp.Usbip
