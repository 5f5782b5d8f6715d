import Mathlib.Data.List.Flatten
import BiMpp.Host.Stream
import BiMpp.Usbip.Replies
import BiMpp.Usbip.StageOutcome

/-!
# The replies to direct transfers

`hcd_process_done_list` calls the handler of a direct transfer itself, on the controller's thread,
which takes nothing more from the done list before the reply is sent: these replies are the direct
completions, in their order. `bi-mpp-pic24-usb-simulator-master/src/hcd.c:252–269`,
`src/urb.c:96–112`, `src/usbip.c:82–110`.
-/

namespace BiMpp.Usbip
open BiMpp.Usb BiMpp.Base BiMpp.Host

/-! ### Who waits, and for what -/

/-- Nobody waits for a direct transfer. -/
def Server.Patient (s : Server) : Prop :=
  ∀ t u b st d, s.pc t = .wait u b st d → st ≠ .direct

private theorem patient_setPc {s s' : Server} {t : Thread} {p : Pc} (h : s.Patient)
    (hpc : s'.pc = (s.setPc t p).pc) (hp : ∀ u b st d, p = .wait u b st d → st ≠ .direct) :
    s'.Patient := by
  intro t' u b st d hw
  rw [hpc, Server.pc_setPc] at hw
  split at hw
  · exact hp u b st d hw
  · exact h t' u b st d hw

private theorem own_patient {t : Thread} {p p' : Pc} {e : ServerEvent} (h : PcStep t p e p')
    {u : Nat} {b : Urb} {st : Stage} {d : Option Completion} : p' ≠ .wait u b st d := by
  cases h with
  | resume =>
    unfold Urb.advance
    split
    · exact nofun
    · split <;> exact nofun
  | header => split <;> exact nofun
  | _ => exact nofun

private theorem Server.Patient.step {s s' : Server} {e : ServerEvent} (h : s.Patient)
    (hs : ServerStep s e s') : s'.Patient := by
  cases hs with
  | start => exact patient_setPc h rfl nofun
  | move hp => exact patient_setPc h rfl fun _ _ _ _ hw ↦ (own_patient hp hw).elim
  | linkStage _ hst =>
    refine patient_setPc h rfl ?_
    rintro u b st d ⟨⟩
    exact hst
  | linkDirect => exact patient_setPc h rfl nofun
  | loop => exact h
  | doneStage _ _ _ _ _ _ hpc =>
    refine patient_setPc h rfl ?_
    rintro u b st d ⟨⟩
    exact h _ _ _ _ _ hpc
  | doneDirect => exact patient_setPc h rfl nofun

/-- No thread ever waits for a direct transfer. -/
theorem ServerRun.patient {es : List ServerEvent} {s : Server} (h : ServerRun es s) :
    s.Patient := by
  refine Run.invariant (P := fun _ s ↦ s.Patient) (fun _ _ _ _ _ hw ↦ nomatch hw) ?_ h
  intro es s e s' _ ih hfire
  exact ih.step (serverStep_of_exec hfire)

/-- Every link is for a stage that its request has. -/
theorem ServerRun.linked_staged {es : List ServerEvent} {s : Server} (h : ServerRun es s) :
    ∀ l ∈ links (hcdEvents es), ∃ (u : Nat) (b : Urb) (st : Stage), l.2 = b.linkArgs u st ∧
      (u, b.submit) ∈ requests es ∧ st ∈ b.submit.stages := by
  refine Run.invariant (P := fun es _ ↦ ∀ l ∈ links (hcdEvents es), ∃ (u : Nat) (b : Urb)
    (st : Stage), l.2 = b.linkArgs u st ∧ (u, b.submit) ∈ requests es ∧ st ∈ b.submit.stages)
    (fun l hl ↦ (List.not_mem_nil hl).elim) ?_ h
  intro es s e s' hrun ih hfire l hl
  rw [links_hcdEvents_snoc] at hl
  rcases List.mem_append.mp hl with hl | hl
  · obtain ⟨u, b, st, hargs, hreq, hst⟩ := ih l hl
    exact ⟨u, b, st, hargs, requests_mono e hreq, hst⟩
  · have hheld := ServerRun.held hrun
    obtain ⟨t, u, b, st, hpc, hargs, -⟩ :=
      (serverStep_of_exec hfire).linked_by (Option.mem_toList.mp hl)
    have hu : (s.pc t).held = some (u, b) := by rw [hpc]; rfl
    exact ⟨u, b, st, hargs, requests_mono e (hheld.mine t u b hu),
      hheld.staged t u b st hu (by rw [hpc]; rfl)⟩

/-! ### Replies and completions, side by side -/

/-- The reply that the controller's thread begins in an event. -/
def ServerEvent.directReply : ServerEvent → Option Reply
  | (.header .hcd stack, .header u b) => some ⟨u, b, stack⟩
  | _ => none

/-- The replies that the controller's thread has begun. -/
def directReplies (es : List ServerEvent) : List Reply := es.filterMap ServerEvent.directReply

/-- The request that a thread is about to answer. -/
def Pc.replying : Pc → List (Nat × Urb)
  | reply u b => [(u, b)]
  | _ => []

/-- The requests that the controller's thread has answered, and the one it is about to. -/
def answering (es : List ServerEvent) (s : Server) : List (Nat × Urb) :=
  (directReplies es).map (fun r ↦ (r.request, r.urb)) ++ (s.pc .hcd).replying

/-- A completion of a direct transfer; `urb.c:96`. -/
def isDirect (c : Completion) : Bool := c.urb = stageUrb (urbOwner c.urb) .direct

/-- A request answered with what a completion of its direct transfer brought. -/
structure Brought (es : List ServerEvent) (x : Nat × Urb) (c : Completion) : Prop where
  urb : c.urb = stageUrb x.1 .direct
  data : x.2.data = c.data
  length : x.2.length = c.length
  request : (x.1, x.2.submit) ∈ requests es
  completed : c ∈ completions (hcdEvents es)

private theorem directReplies_snoc (es : List ServerEvent) (e : ServerEvent) :
    directReplies (es ++ [e]) = directReplies es ++ (ServerEvent.directReply e).toList := by
  unfold directReplies
  rw [List.filterMap_append]
  cases h : ServerEvent.directReply e <;> simp [h]

private theorem answering_same {es : List ServerEvent} {s s' : Server} {e : ServerEvent}
    (h : (ServerEvent.directReply e).toList.map (fun r ↦ (r.request, r.urb)) ++
      (s'.pc .hcd).replying = (s.pc .hcd).replying) :
    answering (es ++ [e]) s' = answering es s := by
  rw [answering, directReplies_snoc, List.map_append, List.append_assoc, h]
  rfl

private theorem own_replying {p p' : Pc} {e : ServerEvent} (h : PcStep .hcd p e p') :
    (ServerEvent.directReply e).toList.map (fun r ↦ (r.request, r.urb)) ++ p'.replying =
      p.replying := by
  cases h with
  | resume =>
    unfold Urb.advance
    split
    · rfl
    · rfl
  | header => split <;> rfl
  | _ => rfl

private theorem own_directReply {t : Thread} {p p' : Pc} {e : ServerEvent} (h : PcStep t p e p')
    (ht : t ≠ .hcd) : ServerEvent.directReply e = none := by
  cases h with
  | header =>
    cases t with
    | hcd => exact (ht rfl).elim
    | _ => rfl
  | _ => rfl

private theorem ServerEvent.directReply_loop (op : ServerOp) (x : LoopEvent) :
    directReply (op, .loop x) = none := by
  unfold directReply
  split
  · next h => cases h
  · rfl

/-- A link completes nothing. -/
theorem ServerEvent.completion_link {l l' : Loop} {t : Thread} {x : LoopEvent} {args : LinkArgs}
    (hx : x.1 = .link args) (h : Fires loopExec l x l') :
    ServerEvent.completion (.link t, .loop x) = none := by
  have hs : LoopStep l x l' := loopStep_of_exec h
  cases hs with
  | link hexec =>
    obtain ⟨v, -, hp⟩ := bind_eq_ok.mp hexec
    cases pure_eq_ok.mp hp
    rfl
  | wake => exact nomatch hx
  | evaluate => exact nomatch hx
  | body => exact nomatch hx

private theorem ServerStep.answering {es : List ServerEvent} {s s' : Server} {e : ServerEvent}
    (h : ServerStep s e s') (hp : s.Patient) :
    (∀ c, ServerEvent.completion e = some c → isDirect c = false) ∧
      Usbip.answering (es ++ [e]) s' = Usbip.answering es s ∨
    ∃ u b c, ServerEvent.completion e = some c ∧ c.urb = stageUrb u .direct ∧
      s.direct u = some b ∧
      Usbip.answering (es ++ [e]) s' = Usbip.answering es s ++ [(u, b.afterStage c .direct)] := by
  -- the thread that is moved is another, or what it is about to answer stays
  have hmoved : ∀ (s₀ : Server) {t : Thread} {p : Pc}, s₀.pc = s.pc →
      ServerEvent.directReply e = none → (t = .hcd → p.replying = (s.pc .hcd).replying) →
      Usbip.answering (es ++ [e]) (s₀.setPc t p) = Usbip.answering es s := by
    intro s₀ t p hpc hnone hsame
    refine answering_same ?_
    rw [hnone, Server.pc_setPc, hpc]
    split
    · next ht => exact hsame ht.symm
    · rfl
  cases h with
  | start ht =>
    refine .inl ⟨fun c hc ↦ ?_, hmoved s rfl rfl fun h ↦ (ht h).elim⟩
    cases hc
  | @move t _ p l hown =>
    refine .inl ⟨fun c hc ↦ ?_, ?_⟩
    · unfold ServerEvent.completion ServerEvent.hcdEvent at hc
      rw [hown.loopEvent] at hc
      cases hc
    · by_cases ht : t = .hcd
      · subst ht
        refine answering_same ?_
        have hself : ({ s.setPc .hcd p with urbList := l } : Server).pc .hcd = p := by
          simp [Server.setPc]
        rw [hself]
        exact own_replying hown
      · exact hmoved { s with urbList := l } rfl (own_directReply hown ht)
          fun h ↦ (ht h).elim
  | @linkStage t u b st x loop hpc _ _ hx hfire =>
    refine .inl ⟨fun c hc ↦ ?_, hmoved { s with loop := loop } rfl rfl fun ht ↦ ?_⟩
    · cases (ServerEvent.completion_link hx hfire).symm.trans hc
    · rw [← ht, hpc]
      rfl
  | @linkDirect t u b x loop hpc _ hx hfire =>
    refine .inl ⟨fun c hc ↦ ?_, ?_⟩
    · cases (ServerEvent.completion_link hx hfire).symm.trans hc
    · refine hmoved { s with loop := loop, direct := _ } rfl rfl fun ht ↦ ?_
      rw [← ht, hpc]
      rfl
  | loop _ _ _ _ hnone =>
    refine .inl ⟨fun c hc ↦ ?_, answering_same ?_⟩
    · cases hnone.symm.trans hc
    · rw [ServerEvent.directReply_loop]
      rfl
  | @doneStage r x loop c t u b st _ _ _ _ hc ht hpc hu =>
    refine .inl ⟨fun c' hc' ↦ ?_, hmoved { s with loop := loop } rfl rfl fun h ↦ (ht h).elim⟩
    obtain rfl := Option.some.inj (hc.symm.trans hc')
    refine decide_eq_false fun hdirect ↦ ?_
    exact hp t u b st none hpc (stageUrb_inj (hu.trans hdirect)).2
  | @doneDirect r x loop c u b hidle _ _ _ hc hb hu =>
    refine .inr ⟨u, b, c, hc, hu, hb, ?_⟩
    have hnew : ({ ({ s with loop := loop } : Server).setPc .hcd (.reply u (b.afterStage c .direct))
        with direct := Function.update s.direct u none } : Server).pc .hcd =
        .reply u (b.afterStage c .direct) := by simp [Server.setPc]
    rw [Usbip.answering, Usbip.answering, directReplies_snoc, ServerEvent.directReply_loop, hnew,
      hidle, Option.toList_none, List.append_nil]
    simp only [Pc.replying, List.append_nil]

/-! ### Every run -/

private theorem ServerRun.direct_answers {es : List ServerEvent} {s : Server} (h : ServerRun es s) :
    List.Forall₂ (Brought es) (answering es s)
      ((completions (hcdEvents es)).filter isDirect) := by
  refine Run.invariant (P := fun es s ↦ List.Forall₂ (Brought es) (answering es s)
    ((completions (hcdEvents es)).filter isDirect)) .nil ?_ h
  intro es s e s' hrun ih hfire
  have hmono : List.Forall₂ (Brought (es ++ [e])) (answering es s)
      ((completions (hcdEvents es)).filter isDirect) :=
    ih.imp fun x c hb ↦ ⟨hb.urb, hb.data, hb.length, requests_mono e hb.request,
      completions_mono e hb.completed⟩
  rw [completions_hcdEvents_snoc, List.filter_append]
  rcases (serverStep_of_exec hfire).answering (ServerRun.patient hrun) with ⟨hnone, hsame⟩ |
    ⟨u, b, c, hc, hu, hdirect, hnew⟩
  · have hquiet : ((ServerEvent.completion e).toList).filter isDirect = [] := by
      rw [List.filter_eq_nil_iff]
      intro c hc
      rw [hnone c (Option.mem_toList.mp hc)]
      exact Bool.false_ne_true
    rw [hsame, hquiet, List.append_nil]
    exact hmono
  · have hreq := (ServerRun.held hrun).parked u b hdirect
    have hlast : [c].filter isDirect = [c] := by
      have hc : isDirect c = true := by
        unfold isDirect
        rw [hu, urbOwner_stageUrb]
        exact decide_eq_true rfl
      rw [List.filter_cons, if_pos hc, List.filter_nil]
    rw [hnew, hc, Option.toList_some, hlast]
    refine List.rel_append hmono (.cons ⟨hu, rfl, rfl, ?_, completions_last hc⟩ .nil)
    exact requests_mono e (Held.request_of_received hreq.1)

/-! ### The bytes of an endpoint -/

/-- The bytes that a URB brings the client from an endpoint. -/
def Urb.bytesOn (addr n : Int) (b : Urb) : List UInt8 :=
  if b.submit.address = addr ∧ b.submit.ep.toInt % 16 = n then b.payload else []

/-- The bytes of an endpoint that the replies to direct requests bring. -/
def answeredOn (addr n : Int) (es : List ServerEvent) : List UInt8 :=
  (directReplies es).flatMap fun r ↦ r.urb.bytesOn addr n

/-- Those of the reply that is about to be sent. -/
def Server.unsent (addr n : Int) (s : Server) : List UInt8 :=
  (s.pc .hcd).replying.flatMap fun x ↦ x.2.bytesOn addr n

/-- No control request is made for an endpoint. -/
def Uncontrolled (addr n : Int) (es : List ServerEvent) : Prop :=
  ∀ r ∈ requests es, r.2.address = addr → r.2.ep.toInt % 16 = n → r.2.isControl = false

instance (addr n : Int) (es : List ServerEvent) : Decidable (Uncontrolled addr n es) :=
  inferInstanceAs (Decidable (∀ r ∈ _, _))

private def broughtOn (addr n : Int) (es : List HcdEvent) (c : Completion) : List UInt8 :=
  if c.gtd ∈ ((bulkLinks addr n es).filter fun l ↦ l.2.dir = true).map Prod.fst then
    c.data.take c.length.toNat
  else []

private theorem transferred_eq (addr n : Int) (es : List HcdEvent) :
    transferred true addr n es = (completions es).flatMap (broughtOn addr n es) := by
  rw [transferred, completedTo, flatMap_filter]
  refine List.flatMap_congr fun c _ ↦ ?_
  simp only [broughtOn, decide_eq_true_eq]

section Bytes

variable {es : List ServerEvent} {s : Server}

private theorem broughtOn_link (h : ServerRun es s) (addr n : Int) {c : Completion} {a : LinkArgs}
    (hlink : (c.gtd, a) ∈ links (hcdEvents es)) : broughtOn addr n (hcdEvents es) c =
      if a.setup = false ∧ a.addr = addr ∧ a.endpoint = n ∧ a.dir = true then
        c.data.take c.length.toNat
      else [] := by
  obtain ⟨q, hq⟩ := ServerRun.queues h
  have hsub : (bulkLinks addr n (hcdEvents es)).filter (fun l ↦ l.2.dir = true) ⊆
      links (hcdEvents es) := fun l hl ↦ List.filter_sublist.subset (List.filter_sublist.subset hl)
  have hmem : c.gtd ∈ ((bulkLinks addr n (hcdEvents es)).filter fun l ↦ l.2.dir = true).map
      Prod.fst ↔ a.setup = false ∧ a.addr = addr ∧ a.endpoint = n ∧ a.dir = true := by
    rw [(QueuesRun.ledger hq).mem_fst_iff hsub hlink, bulkLinks, List.filter_filter,
      List.mem_filter]
    simp only [hlink, true_and, Bool.and_eq_true, Bool.not_eq_true', decide_eq_true_eq]
    constructor
    · rintro ⟨hdir, ⟨hsetup, haddr⟩, hn⟩
      exact ⟨hsetup, haddr, hn, hdir⟩
    · rintro ⟨hsetup, haddr, hn, hdir⟩
      exact ⟨hdir, ⟨hsetup, haddr⟩, hn⟩
  unfold broughtOn
  exact if_congr hmem rfl rfl

private theorem Brought.bytesOn (h : ServerRun es s) (addr n : Int) {x : Nat × Urb}
    {c : Completion} (hb : Brought es x c) :
    x.2.bytesOn addr n = broughtOn addr n (hcdEvents es) c := by
  obtain ⟨q, hq, b, hsub, -, hlink, -⟩ := h.completed_link hb.request hb.completed hb.urb
  rw [broughtOn_link h addr n hlink]
  unfold Urb.bytesOn Urb.payload
  rw [hb.data, hb.length, ← hsub]
  simp only [Urb.linkArgs, LinkArgs.endpoint, true_and]
  split <;> split <;> simp_all

private theorem answered_direct (h : ServerRun es s) (addr n : Int) :
    answeredOn addr n es ++ s.unsent addr n =
      ((completions (hcdEvents es)).filter isDirect).flatMap (broughtOn addr n (hcdEvents es)) := by
  have hall : answeredOn addr n es ++ s.unsent addr n =
      (answering es s).flatMap fun x ↦ x.2.bytesOn addr n := by
    rw [answering, List.flatMap_append, List.flatMap_map]
    rfl
  have hsame : ∀ x c, Brought es x c →
      List.Forall₂ (· = ·) (x.2.bytesOn addr n) (broughtOn addr n (hcdEvents es) c) := by
    intro x c hb
    rw [List.forall₂_eq_eq_eq]
    exact hb.bytesOn h addr n
  have hbytes := List.rel_flatMap (ServerRun.direct_answers h) fun {x c} hb ↦ hsame x c hb
  rw [List.forall₂_eq_eq_eq] at hbytes
  rw [hall]
  exact hbytes

/-- The replies to direct requests bring the client, in order, some of what the completed
transfers of the endpoint brought. -/
theorem ServerRun.answered_sublist (h : ServerRun es s) (addr n : Int) :
    (answeredOn addr n es ++ s.unsent addr n).Sublist (transferred true addr n (hcdEvents es)) := by
  rw [answered_direct h, transferred_eq]
  exact List.filter_sublist.flatMap _

/-- They bring all of it, if no control request is made for the endpoint. -/
theorem ServerRun.answered_eq (h : ServerRun es s) {addr n : Int} (hun : Uncontrolled addr n es) :
    answeredOn addr n es ++ s.unsent addr n = transferred true addr n (hcdEvents es) := by
  rw [answered_direct h, transferred_eq, flatMap_filter]
  refine List.flatMap_congr fun c hc ↦ ?_
  split
  · rfl
  · next hdirect =>
    obtain ⟨q, hq⟩ := ServerRun.queues h
    obtain ⟨a, hlink, hid⟩ := (QueuesRun.ledger hq).completed c hc
    obtain ⟨u, b, st, rfl, hreq, hst⟩ := h.linked_staged _ hlink
    rw [broughtOn_link h addr n hlink, if_neg]
    rintro ⟨-, haddr, hn, -⟩
    -- a request for the endpoint has one stage, and it is direct
    have hon : b.submit.address = addr ∧ b.submit.ep.toInt % 16 = n := by
      cases st <;> exact ⟨haddr, hn⟩
    have hcontrol : b.submit.isControl = false := hun _ hreq hon.1 hon.2
    rw [CmdSubmit.mem_stages] at hst
    cases st with
    | direct =>
      apply hdirect
      unfold isDirect
      rw [← hid, Urb.linkArgs_urb_id, urbOwner_stageUrb]
      exact decide_eq_true rfl
    | setup => exact nomatch hcontrol.symm.trans hst
    | data => exact nomatch hcontrol.symm.trans hst.1
    | status => exact nomatch hcontrol.symm.trans hst

end Bytes

end BiMpp.Usbip
