import BiMpp.Usbip.Status

/-!
# Replies on the wire

`on_urb_complete` writes a reply in two `send`s, the header and then the payload, from
two threads: `accept_loop` for control transfers, outside every lock, and `hcd_loop` for
the others; `bi-mpp-pic24-usb-simulator-master/src/usbip.c:101–106`. As long as no
header gets between another's header and payload, the bytes written are whole replies,
one for each request at most, in the requests' own names.
-/

namespace BiMpp.Usbip
open BiMpp.Usb BiMpp.Base BiMpp.Host

/-- A reply: the number of the request, its URB as it is answered, and the bytes of the
header that were never assigned. -/
structure Reply where
  request : Nat
  urb : Urb
  stack : List UInt8

/-- The header as sent. -/
def Reply.header (r : Reply) : List UInt8 := (retSubmit r.urb r.stack).bytes

/-- The header and its payload, one after the other. -/
def Reply.frame (r : Reply) : List UInt8 := r.header ++ r.urb.payload

/-- The reply an event begins. -/
def ServerEvent.reply : ServerEvent → Option Reply
  | (.header _ stack, .header u b) => some ⟨u, b, stack⟩
  | _ => none

/-- The bytes an event sends. -/
def ServerEvent.sent : ServerEvent → List UInt8
  | (.header _ stack, .header _ b) => (retSubmit b stack).bytes
  | (.payload _, .payload bytes) => bytes
  | _ => []

/-- The replies of a history. -/
def replies (es : List ServerEvent) : List Reply := es.filterMap ServerEvent.reply

/-- The bytes of a history. -/
def wire (es : List ServerEvent) : List UInt8 := es.flatMap ServerEvent.sent

/-- What a thread has still to send of a reply it has begun. -/
def Pc.owed : Pc → List UInt8
  | payload _ b => b.data.take b.length.toNat
  | _ => []

/-- What the threads have still to send. -/
def Server.owed (s : Server) : List UInt8 := Thread.collect fun t ↦ (s.pc t).owed

/-- A reply is for a request: command word 3 and its seqnum, devid, direction and ep in
the first five words, a length within its own in the seventh, and as many bytes of the
URB's buffer behind them, or none when the direction is zero. -/
structure Reply.Answers (r : Reply) (c : CmdSubmit) : Prop where
  identity : r.header.take 20 =
    htonl 3 ++ htonl c.seqnum ++ htonl c.devid ++ htonl c.direction ++ htonl c.ep
  length : ∃ n : Nat, (n : Int) ≤ c.size ∧ (r.header.drop 24).take 4 = htonl (BitVec.ofNat 32 n) ∧
    r.urb.payload = (if c.dirIn then r.urb.data.take n else []) ∧
    r.urb.payload.length = if c.dirIn then n else 0

/-- What the client may rely on. -/
structure Answered (es : List ServerEvent) (s : Server) : Prop where
  numbered : ((received es).map Prod.fst).Nodup
  once : ((replies es).map Reply.request).Nodup
  answers : ∀ r ∈ replies es, ∃ c, (r.request, c) ∈ received es ∧ r.Answers c
  framed : wire es ++ s.owed = (replies es).flatMap Reply.frame

/-- The sending of a header. -/
def ServerOp.isHeader : ServerOp → Bool
  | header _ _ => true
  | _ => false

/-- A header is sent when no other reply has bytes outstanding. -/
def HeaderAlone (s : Server) (e : ServerEvent) : Prop := e.1.isHeader = true → s.owed = []

instance (s : Server) (e : ServerEvent) : Decidable (HeaderAlone s e) :=
  inferInstanceAs (Decidable (_ → _))

section Snoc

variable (es : List ServerEvent) (e : ServerEvent)

/-- The replies after one more event. -/
theorem replies_snoc : replies (es ++ [e]) = replies es ++ (ServerEvent.reply e).toList := by
  unfold replies
  rw [List.filterMap_append]
  cases h : ServerEvent.reply e <;> simp [h]

private theorem wire_snoc : wire (es ++ [e]) = wire es ++ ServerEvent.sent e := by
  simp [wire]

end Snoc

/-! ### Each request once, in its own name -/

/-- Whether a thread has begun the reply to its request, or ends without one. -/
def Pc.answered : Pc → Bool
  | payload _ _ => true
  | free _ _ => true
  | _ => false

/-- A reply is for a request that nobody will answer again. -/
structure Settled (es : List ServerEvent) (s : Server) : Prop where
  once : ((replies es).map Reply.request).Nodup
  own : ∀ r ∈ replies es, (r.request, r.urb.submit) ∈ received es ∧ r.urb.Sized ∧
    r.stack.length = 8
  ended : ∀ r ∈ replies es, ∀ t b, (s.pc t).held = some (r.request, b) →
    (s.pc t).answered = true
  gone : ∀ r ∈ replies es, s.direct r.request = none

/-- The event that begins a reply. -/
theorem ServerEvent.eq_of_reply {e : ServerEvent} {r : Reply} (hr : ServerEvent.reply e = some r) :
    ∃ t, e = (.header t r.stack, .header r.request r.urb) := by
  unfold ServerEvent.reply at hr
  split at hr
  · next t stack u b =>
    obtain rfl := Option.some.inj hr
    exact ⟨t, rfl⟩
  · cases hr

namespace Settled

variable {es : List ServerEvent} {s s' : Server} {e : ServerEvent}

/-- No reply has been sent before the first step. -/
theorem init : Settled [] serverInit where
  once := List.nodup_nil
  own _ h := nomatch h
  ended _ h := nomatch h
  gone _ h := nomatch h

private theorem ended_step (h : Settled es s) (hh : Held es s) (hs : ServerStep s e s')
    {r : Reply} (hr : r ∈ replies es) {t : Thread} {b : Urb}
    (hp : (s'.pc t).held = some (r.request, b)) : (s'.pc t).answered = true := by
  have hmove := hs.pc_move t
  revert hp hmove
  generalize s'.pc t = p
  intro hp hmove
  -- a thread that has it has answered it, so it is at the payload or at the end
  have hbusy : ∀ {q : Pc}, s.pc t = q → ∀ b, q.held = some (r.request, b) → q.answered = true := by
    rintro q rfl b hb
    exact h.ended r hr t b hb
  cases hmove with
  | keep => exact hbusy rfl b hp
  | start =>
    have hnew : s.nextUrb = r.request := congrArg Prod.fst (Option.some.inj hp)
    have hlt : r.request < s.nextUrb := hh.request_lt (Held.request_of_received (h.own r hr).1)
    omega
  | own hown =>
    revert hown
    generalize hq : s.pc t = q
    intro hown
    obtain ⟨b₀, hb₀, -⟩ := hown.held hp
    have hans := hbusy hq b₀ hb₀
    cases hown with
    | payload => rfl
    | free => exact nomatch hp
    | insert => exact nomatch hans
    | resume => exact nomatch hans
    | header => exact nomatch hans
  | stage hpc =>
    cases hp
    exact nomatch hbusy hpc _ rfl
  | park => exact nomatch hp
  | done hpc =>
    cases hp
    exact nomatch hbusy hpc _ rfl
  | @direct u c _ _ _ hb =>
    have hu : u = r.request := congrArg Prod.fst (Option.some.inj hp)
    rw [hu, h.gone r hr] at hb
    exact nomatch hb

private theorem gone_step (h : Settled es s) (hs : ServerStep s e s') {r : Reply}
    (hr : r ∈ replies es) : s'.direct r.request = none := by
  cases hd : s'.direct r.request with
  | none => rfl
  | some b =>
    rcases hs.direct_of hd with hb | ⟨t, hpc⟩
    · exact nomatch (h.gone r hr).symm.trans hb
    · have hans := h.ended r hr t b (by rw [hpc]; rfl)
      rw [hpc] at hans
      exact nomatch hans

/-- Every step settles at most one request, and that for good. -/
theorem step (h : Settled es s) (hh : Held es s) (ht : Tracked es s)
    (hsys : ∀ u b, s.pc .system ≠ .reply u b) (hs : ServerStep s e s') :
    Settled (es ++ [e]) s' := by
  have hrec : ∀ x ∈ received es, x ∈ received (es ++ [e]) := by
    intro x hx
    rw [received_snoc]
    exact List.mem_append_left _ hx
  have hown : ∀ r ∈ replies es, (r.request, r.urb.submit) ∈ received (es ++ [e]) ∧ r.urb.Sized ∧
      r.stack.length = 8 := fun r hr ↦ ⟨hrec _ (h.own r hr).1, (h.own r hr).2⟩
  cases hr : ServerEvent.reply e with
  | none =>
    have hsame : replies (es ++ [e]) = replies es := by simp [replies_snoc, hr]
    refine ⟨?_, ?_, ?_, ?_⟩ <;> rw [hsame]
    · exact h.once
    · exact hown
    · exact fun r hr t b hp ↦ h.ended_step hh hs hr hp
    · exact fun r hr ↦ h.gone_step hs hr
  | some r =>
    have hnew : replies (es ++ [e]) = replies es ++ [r] := by simp [replies_snoc, hr]
    obtain ⟨t, rfl⟩ := ServerEvent.eq_of_reply hr
    obtain ⟨hpc, hpc', hdirect, hlen⟩ := hs.header_pc
    have hheld : (s.pc t).held = some (r.request, r.urb) := by rw [hpc]; rfl
    have hclient : t ≠ .system := by
      rintro rfl
      exact hsys _ _ hpc
    refine ⟨?_, ?_, ?_, ?_⟩ <;> rw [hnew]
    · rw [List.map_append]
      refine List.nodup_append.mpr ⟨h.once, by simp, ?_⟩
      rintro u hu u' hu' rfl
      obtain ⟨r', hr', hru⟩ := List.mem_map.mp hu
      obtain rfl := List.mem_singleton.mp hu'
      have hans := h.ended r' hr' t r.urb (by rw [hheld, hru])
      rw [hpc] at hans
      exact nomatch hans
    · intro r' hr'
      rcases List.mem_append.mp hr' with hr' | hr'
      · exact hown r' hr'
      · obtain rfl := List.mem_singleton.mp hr'
        exact ⟨hrec _ (hh.client t _ _ hclient hheld), ht.held t _ _ hheld, hlen⟩
    · intro r' hr' t' b hp
      rcases List.mem_append.mp hr' with hr' | hr'
      · exact h.ended_step hh hs hr' hp
      · obtain rfl := List.mem_singleton.mp hr'
        rw [hpc', Server.pc_setPc] at hp ⊢
        split
        · split <;> rfl
        · next hne =>
          rw [if_neg hne] at hp
          exact (hne (hh.apart t' t _ _ _ hp hheld)).elim
    · intro r' hr'
      rcases List.mem_append.mp hr' with hr' | hr'
      · exact h.gone_step hs hr'
      · obtain rfl := List.mem_singleton.mp hr'
        rw [hdirect]
        cases hd : s.direct r'.request with
        | none => rfl
        | some b => exact (hh.apartDirect t _ _ b hheld hd).elim

end Settled

/-- In every run a reply is the only one to its request, and its request is over. -/
theorem ServerRun.settled {es : List ServerEvent} {s : Server} (h : ServerRun es s) :
    Settled es s := by
  refine Run.invariant (P := Settled) Settled.init ?_ h
  intro es s e s' hrun ih hfire
  exact ih.step (ServerRun.held hrun) (ServerRun.tracked hrun)
    (fun u b ↦ ServerRun.system_reply hrun u b) (serverStep_of_exec hfire)

/-- A sized URB makes a reply that answers its request. -/
theorem Reply.answers_of_sized {r : Reply} (h : r.urb.Sized) : r.Answers r.urb.submit := by
  have hpos := h.nonneg
  have hle := h.inside
  have hdata := h.data
  refine ⟨rfl, r.urb.length.toNat, by omega, ?_, rfl, ?_⟩
  · have hn : (r.urb.length.toNat : Int) = r.urb.length := Int.toNat_of_nonneg hpos
    rw [← BitVec.ofInt_natCast, hn]
    rfl
  · unfold Urb.payload
    split
    · rw [List.length_take]
      omega
    · rfl

/-! ### Whole replies -/

/-- The bytes written and those outstanding are whole replies, and one thread at most
has any outstanding. -/
structure Framed (es : List ServerEvent) (s : Server) : Prop where
  frames : wire es ++ s.owed = (replies es).flatMap Reply.frame
  alone : ∀ t t', (s.pc t).owed ≠ [] → (s.pc t').owed ≠ [] → t = t'

namespace Framed

variable {es : List ServerEvent} {s s' : Server} {e : ServerEvent}

/-- Nothing has been written before the first step. -/
theorem init : Framed [] serverInit where
  frames := rfl
  alone _ _ h := (h rfl).elim

private theorem quiet (h : Framed es s) (hsent : ServerEvent.sent e = [])
    (hreply : ServerEvent.reply e = none) (howed : ∀ t, (s'.pc t).owed = (s.pc t).owed) :
    Framed (es ++ [e]) s' := by
  have hsame : s'.owed = s.owed := congrArg Thread.collect (funext howed)
  constructor
  · rw [wire_snoc, replies_snoc, hsent, hreply, hsame, List.append_nil, Option.toList_none,
      List.append_nil]
    exact h.frames
  · intro t t'
    rw [howed, howed]
    exact h.alone t t'

private theorem header (h : Framed es s) {t : Thread} {u : Nat} {b : Urb} {stack : List UInt8}
    (halone : s.owed = [])
    (hpc : s'.pc = (s.setPc t (if b.submit.dirIn then .payload u b else .free u b)).pc) :
    Framed (es ++ [(.header t stack, .header u b)]) s' := by
  have hnone := Thread.collect_eq_nil.mp halone
  have hself : (s'.pc t).owed = b.payload := by
    rw [hpc, Server.pc_setPc, if_pos rfl]
    unfold Urb.payload
    split <;> rfl
  have hother : ∀ t', t' ≠ t → (s'.pc t').owed = [] := by
    intro t' ht
    rw [hpc, Server.pc_setPc, if_neg ht]
    exact hnone t'
  constructor
  · have hframes := h.frames
    rw [halone, List.append_nil] at hframes
    have howed : s'.owed = b.payload := (Thread.collect_of_alone hother).trans hself
    rw [wire_snoc, replies_snoc, hframes, howed, List.flatMap_append]
    simp [ServerEvent.sent, ServerEvent.reply, Reply.frame, Reply.header]
  · exact fun _ _ ↦ Thread.alone_of hother

private theorem payload (h : Framed es s) {t : Thread} {u : Nat} {b : Urb}
    (ht : s.pc t = .payload u b) (hpc : s'.pc = (s.setPc t (.free u b)).pc) :
    Framed (es ++ [(.payload t, .payload (b.data.take b.length.toNat))]) s' := by
  have howed : (s.pc t).owed = b.data.take b.length.toNat := by rw [ht]; rfl
  have hself : (s'.pc t).owed = [] := by
    rw [hpc, Server.pc_setPc, if_pos rfl]
    rfl
  have hother : ∀ t', t' ≠ t → (s'.pc t').owed = (s.pc t').owed := by
    intro t' hne
    rw [hpc, Server.pc_setPc, if_neg hne]
  have hsent : ServerEvent.sent (.payload t, .payload (b.data.take b.length.toNat)) =
      (s.pc t).owed := howed.symm
  have hreply : ServerEvent.reply (.payload t, .payload (b.data.take b.length.toNat)) = none := rfl
  by_cases hempty : (s.pc t).owed = []
  · refine h.quiet (hsent.trans hempty) hreply fun t' ↦ ?_
    by_cases hne : t' = t
    · rw [hne, hself, hempty]
    · exact hother t' hne
  · have hnone : ∀ t', t' ≠ t → (s.pc t').owed = [] := Thread.others_of_alone h.alone hempty
    have hall : ∀ t', (s'.pc t').owed = [] := by
      intro t'
      by_cases hne : t' = t
      · rw [hne, hself]
      · rw [hother t' hne, hnone t' hne]
    constructor
    · have hframes := h.frames
      have hbefore : s.owed = (s.pc t).owed := Thread.collect_of_alone hnone
      have hafter : s'.owed = [] := Thread.collect_eq_nil.mpr hall
      rw [hbefore] at hframes
      rw [wire_snoc, replies_snoc, hsent, hreply, hafter, List.append_nil, Option.toList_none,
        List.append_nil]
      exact hframes
    · intro t₁ t₂ h₁
      exact (h₁ (hall t₁)).elim

private theorem move (h : Framed es s) (hsent : ServerEvent.sent e = [])
    (hreply : ServerEvent.reply e = none) {t : Thread} {p q : Pc} (hq : s.pc t = q)
    (hpc : s'.pc = (s.setPc t p).pc) (hp : p.owed = q.owed) : Framed (es ++ [e]) s' := by
  subst hq
  exact h.quiet hsent hreply (Server.same_setPc hp hpc)

/-- Every step that begins no reply while another is unfinished keeps the replies whole. -/
theorem step (h : Framed es s) (hs : ServerStep s e s') (hok : HeaderAlone s e) :
    Framed (es ++ [e]) s' := by
  cases hs with
  | start _ hidle => exact h.move rfl rfl hidle rfl rfl
  | @move t e p l hp =>
    revert hp
    generalize hq : s.pc t = q
    intro hp
    cases hp with
    | insert => exact h.move rfl rfl hq rfl rfl
    | resume =>
      refine h.move rfl rfl hq rfl ?_
      unfold Urb.advance
      split
      · rfl
      · split <;> rfl
    | header hlen => exact h.header (hok rfl) rfl
    | payload => exact h.payload hq rfl
    | free => exact h.move rfl rfl hq rfl rfl
  | linkStage hpc => exact h.move rfl rfl hpc rfl rfl
  | linkDirect hpc => exact h.move rfl rfl hpc rfl rfl
  | @loop op x =>
    refine h.quiet ?_ ?_ fun _ ↦ rfl
    · cases op <;> rfl
    · cases op <;> rfl
  | doneStage _ _ _ _ _ _ hpc => exact h.move rfl rfl hpc rfl rfl
  | doneDirect hidle => exact h.move rfl rfl hidle rfl rfl

end Framed

/-- As long as headers are sent alone, the bytes written are the replies as far as they are
sent. -/
theorem ServerRun.framed {es : List ServerEvent} {s : Server}
    (h : Run (Guarded (Fires serverExec) HeaderAlone) serverInit es s) : Framed es s := by
  refine Run.invariant (P := Framed) Framed.init ?_ h
  intro es s e s' _ ih hfire
  exact ih.step (serverStep_of_exec hfire.1) hfire.2

/-- As long as headers are sent alone, every request is answered at most once, in its own
name, with a length within its own and exactly that many bytes behind the header. -/
theorem ServerRun.answered {es : List ServerEvent} {s : Server}
    (h : Run (Guarded (Fires serverExec) HeaderAlone) serverInit es s) : Answered es s := by
  have hrun : ServerRun es s := h.unguarded
  have hset := ServerRun.settled hrun
  refine ⟨(ServerRun.held hrun).received_nodup, hset.once, ?_, (ServerRun.framed h).frames⟩
  intro r hr
  obtain ⟨hrec, hsized, -⟩ := hset.own r hr
  exact ⟨_, hrec, Reply.answers_of_sized hsized⟩

private def bulkRequest : CmdSubmit := ⟨7, 0x10001, 1, 2, 1, [0, 0, 0, 0, 0, 0, 0, 0]⟩

private def controlRequest : CmdSubmit := ⟨8, 0x10001, 0, 0, 0, [0, 9, 1, 0, 0, 0, 0, 0]⟩

private def hcdRound (r r' : Response) : List ServerOp :=
  hcdTurn r ++ hcdTurn .nak ++ hcdTurn .nak ++ hcdTurn .nak ++ hcdTurn r' ++ hcdTurn .nak

private def repliesOps : List ServerOp :=
  [.start .accept bulkRequest 64 [0], .insert .accept, .link .accept,
    .start .accept controlRequest 8 [], .insert .accept, .link .accept] ++
  hcdRound (.ack 8 []) .nak ++ [.resume .accept, .link .accept] ++
  hcdRound (.ack 0 []) .nak ++ [.resume .accept] ++ hcdRound .nak (.ack 1 [5])

private def zeros : List UInt8 := [0, 0, 0, 0, 0, 0, 0, 0]

/-- Two requests are answered in their own frames. -/
theorem ServerRun.answered_example : ∃ es s,
    Run (Guarded (Fires serverExec) HeaderAlone) serverInit es s ∧
    (replies es).map Reply.request = [0, 1] ∧ Answered es s := by
  have hcheck : runsTo (guardedExec serverExec HeaderAlone .blocked) serverInit
      (repliesOps ++ [.header .hcd zeros, .payload .hcd, .header .accept zeros]) (fun _ es ↦
        decide ((replies es).map Reply.request = [0, 1])) = true := by decide +kernel
  obtain ⟨es, s, hrun, hp⟩ := Run.of_runsTo hcheck
  have hrun' := Run.of_guardedExec hrun
  exact ⟨es, s, hrun', of_decide_eq_true hp, ServerRun.answered hrun'⟩

/-- A control reply gets between the header and the payload of a bulk one. -/
theorem ServerRun.answer_torn : ¬ ∀ es s, ServerRun es s → Answered es s := by
  intro hall
  have hcheck : runsTo serverExec serverInit
      (repliesOps ++ [.header .hcd zeros, .header .accept zeros, .payload .hcd]) (fun s es ↦
        decide (wire es ++ s.owed ≠ (replies es).flatMap Reply.frame)) = true := by decide +kernel
  obtain ⟨es, s, hrun, hp⟩ := Run.of_runsTo hcheck
  exact of_decide_eq_true hp (hall es s hrun).framed

end BiMpp.Usbip
