import BiMpp.Host.Ownership
import BiMpp.Usbip.DirectReplies

/-!
# Where the client's requests are

A CMD_SUBMIT is with a thread that has begun no reply to it, or its descriptor is in the controller,
or a reply to it has been begun: one of these, in every state that the threads can reach, whatever
their order. `bi-mpp-pic24-usb-simulator-master/src/usbip.c:82–184`, `src/sys.c:163–257`,
`src/hcd.c:46–145,252–269`.
-/

namespace BiMpp.Usbip
open BiMpp.Usb BiMpp.Base BiMpp.Host

/-- The places a CMD_SUBMIT can be in. -/
inductive Whereabouts
  | thread (t : Thread)
  | controller (p : Place)
  | replied

/-- What it means that a CMD_SUBMIT is at a place: the thread is busy with it and has begun no
reply, the descriptor of its direct transfer is on a list of the controller, or a reply to it has
been begun. -/
def Server.Has (es : List ServerEvent) (s : Server) (u : Nat) : Whereabouts → Prop
  | .thread t => ∃ b, (s.pc t).held = some (u, b) ∧ (s.pc t).answered = false
  | .controller p => p ≠ .freed ∧ ∃ l ∈ links (hcdEvents es),
      l.2.urb.id = stageUrb u .direct ∧ s.loop.hcd.Holds p l.1
  | .replied => u ∈ (replies es).map Reply.request

/-- No thread is busy, and the controller's lists are empty. -/
def Server.AtRest (s : Server) : Prop :=
  (∀ t, s.pc t = .idle) ∧ s.loop.hcd.doneList = none ∧
    ∀ e ∈ s.loop.hcd.controlList ++ s.loop.hcd.bulkList, e.tdQueueHeadPointer = none

instance (s : Server) : Decidable s.AtRest := inferInstanceAs (Decidable (_ ∧ _ ∧ _))

/-! ### The controller's thread -/

/-- Whether a thread has stages of its request before it. -/
def Pc.staging : Pc → Bool
  | insert _ _ => true
  | link _ _ _ => true
  | wait _ _ _ _ => true
  | _ => false

private theorem own_staging {t : Thread} {p p' : Pc} {e : ServerEvent} (h : PcStep t p e p')
    (hp : p.staging = false) : p'.staging = false := by
  cases h with
  | insert => cases hp
  | resume => cases hp
  | header => split <;> rfl
  | payload => rfl
  | free => rfl

/-- The controller's thread has only replies to send. -/
theorem ServerRun.hcd_staging {es : List ServerEvent} {s : Server} (h : ServerRun es s) :
    (s.pc .hcd).staging = false := by
  refine Run.invariant (P := fun _ s ↦ (s.pc .hcd).staging = false) rfl ?_ h
  intro es s e s' _ ih hfire
  -- a step that moves another thread
  have hother : ∀ {s₀ : Server} {t : Thread} {p : Pc}, s₀.pc = s.pc → .hcd ≠ t →
      ((s₀.setPc t p).pc .hcd).staging = false := by
    intro s₀ t p hpc ht
    rw [Server.pc_setPc, if_neg ht, hpc]
    exact ih
  have hs : ServerStep s e s' := serverStep_of_exec hfire
  cases hs with
  | start ht => exact hother rfl ht.symm
  | @move t _ p l hown =>
    by_cases ht : .hcd = t
    · subst ht
      show ((s.setPc .hcd p).pc .hcd).staging = false
      rw [Server.pc_setPc, if_pos rfl]
      exact own_staging hown ih
    · exact hother rfl ht
  | linkStage hpc _ hidle =>
    refine hother rfl ?_
    rintro rfl
    cases hpc.symm.trans hidle
  | linkDirect hpc hidle =>
    refine hother rfl ?_
    rintro rfl
    cases hpc.symm.trans hidle
  | loop => exact ih
  | doneStage _ _ _ _ _ ht => exact hother rfl ht.symm
  | @doneDirect r x loop c u b =>
    show ((({ s with loop := loop } : Server).setPc .hcd _).pc .hcd).staging = false
    rw [Server.pc_setPc, if_pos rfl]
    rfl

/-! ### Direct transfers and their descriptors -/

/-- A direct transfer is linked and not completed. -/
def Underway (es : List ServerEvent) (u : Nat) : Prop :=
  stageUrb u .direct ∈ issuedUrbs (hcdEvents es) ∧
    stageUrb u .direct ∉ (completions (hcdEvents es)).map Completion.urb

section Underway

variable {es : List ServerEvent} {e : ServerEvent} {u : Nat}

private theorem underway_same
    (hl : ∀ l, ServerEvent.linked e = some l → l.2.urb.id ≠ stageUrb u .direct)
    (hc : ∀ c, ServerEvent.completion e = some c → c.urb ≠ stageUrb u .direct) :
    Underway (es ++ [e]) u ↔ Underway es u := by
  unfold Underway issuedUrbs
  rw [links_hcdEvents_snoc, completions_hcdEvents_snoc, List.map_append, List.map_append,
    List.mem_append, List.mem_append]
  refine and_congr (or_iff_left ?_) (not_congr (or_iff_left ?_))
  · intro h
    obtain ⟨l, hm, hid⟩ := List.mem_map.mp h
    exact hl l (Option.mem_toList.mp hm) hid
  · intro h
    obtain ⟨c, hm, hid⟩ := List.mem_map.mp h
    exact hc c (Option.mem_toList.mp hm) hid

private theorem not_underway {c : Completion} (hc : ServerEvent.completion e = some c)
    (hu : c.urb = stageUrb u .direct) : ¬ Underway (es ++ [e]) u := by
  intro h
  apply h.2
  rw [← hu]
  exact List.mem_map_of_mem (completions_last hc)

private theorem underway_linked {s : Server} (h : ServerRun es s) {l : GtdPtr × LinkArgs}
    (hl : ServerEvent.linked e = some l) (hid : l.2.urb.id = stageUrb u .direct)
    (hc : ServerEvent.completion e = none)
    (hnew : stageUrb u .direct ∉ issuedUrbs (hcdEvents es)) : Underway (es ++ [e]) u := by
  constructor
  · unfold issuedUrbs
    rw [links_hcdEvents_snoc, hl, List.map_append, Option.toList_some]
    exact List.mem_append_right _ (by rw [List.map_singleton, hid]; exact List.mem_singleton_self _)
  · rw [completions_hcdEvents_snoc, hc, Option.toList_none, List.append_nil]
    intro hm
    obtain ⟨c, hc, hu⟩ := List.mem_map.mp hm
    obtain ⟨q, hq⟩ := ServerRun.queues h
    obtain ⟨a, hlink, hurb⟩ := (QueuesRun.ledger hq).completed c hc
    apply hnew
    rw [← hu, ← hurb]
    exact List.mem_map_of_mem (f := fun l ↦ l.2.urb.id) hlink

end Underway

/-- The controller has the URB of a direct transfer exactly while it is underway. -/
theorem ServerRun.direct_iff {es : List ServerEvent} {s : Server} (h : ServerRun es s) (u : Nat) :
    s.direct u ≠ none ↔ Underway es u := by
  refine Run.invariant (P := fun es s ↦ ∀ u, s.direct u ≠ none ↔ Underway es u) ?_ ?_ h u
  · intro u
    constructor
    · intro hne
      exact (hne rfl).elim
    · intro hu
      exact (List.not_mem_nil hu.1).elim
  · intro es s e s' hrun ih hfire u
    have hs : ServerStep s e s' := serverStep_of_exec hfire
    -- a step of the controller that links nothing
    have hlinked : ∀ {op : ServerOp} {x : LoopEvent} {loop : Loop}, (∀ a, x.1 ≠ .link a) →
        Fires loopExec s.loop x loop → ∀ l, ServerEvent.linked (op, .loop x) = some l →
        l.2.urb.id ≠ stageUrb u .direct := by
      intro op x loop hx hf l hl
      cases (ServerEvent.linked_other hx hf).symm.trans hl
    cases hs with
    | start =>
      rw [underway_same (fun l hl ↦ by cases hl) fun c hc ↦ by cases hc]
      exact ih u
    | move hown =>
      rw [underway_same (fun l hl ↦ by cases hown.linked.symm.trans hl)]
      · exact ih u
      · intro c hc
        unfold ServerEvent.completion ServerEvent.hcdEvent at hc
        rw [hown.loopEvent] at hc
        cases hc
    | @linkStage t v b st x loop hpc hst _ hx hf =>
      obtain ⟨g, hg⟩ := ServerEvent.linked_link (t := t) hx hf
      rw [underway_same]
      · exact ih u
      · intro l hl
        obtain rfl := Option.some.inj (hg.symm.trans hl)
        rw [Urb.linkArgs_urb_id]
        intro hid
        exact hst (stageUrb_inj hid).2
      · intro c hc
        cases (ServerEvent.completion_link hx hf).symm.trans hc
    | @linkDirect t v b x loop hpc _ hx hf =>
      obtain ⟨g, hg⟩ := ServerEvent.linked_link (t := t) hx hf
      have hquiet := ServerEvent.completion_link (t := t) hx hf
      change Function.update s.direct v (some b) u ≠ none ↔ _
      rw [Function.update_apply]
      split
      · next hu =>
        subst hu
        refine iff_of_true (Option.some_ne_none b) ?_
        refine underway_linked hrun hg (Urb.linkArgs_urb_id ..) hquiet fun hold ↦ ?_
        have hlt := (ServerRun.tracked hrun).next t u b .direct (by rw [hpc]; rfl) hold
        rw [hpc] at hlt
        exact Nat.lt_irrefl _ hlt
      · next hu =>
        rw [underway_same]
        · exact ih u
        · intro l hl
          obtain rfl := Option.some.inj (hg.symm.trans hl)
          rw [Urb.linkArgs_urb_id]
          intro hid
          exact hu (stageUrb_inj hid).1.symm
        · intro c hc
          cases hquiet.symm.trans hc
    | loop _ hx hf _ hnone =>
      rw [underway_same (hlinked hx hf) fun c hc ↦ by cases hnone.symm.trans hc]
      exact ih u
    | @doneStage r x loop c t v b st _ hx hf _ hc ht hpc hid =>
      rw [underway_same (hlinked (by rw [hx]; exact fun a ha ↦ by cases ha) hf)]
      · exact ih u
      · intro c' hc' hu
        obtain rfl := Option.some.inj (hc.symm.trans hc')
        exact ServerRun.patient hrun t v b st none hpc (stageUrb_inj (hid.trans hu)).2
    | @doneDirect r x loop c v b _ hx hf _ hc hb hid =>
      change Function.update s.direct v none u ≠ none ↔ _
      rw [Function.update_apply]
      split
      · next hu =>
        subst hu
        exact iff_of_false (fun h ↦ h rfl) (not_underway hc hid)
      · next hu =>
        rw [underway_same (hlinked (by rw [hx]; exact fun a ha ↦ by cases ha) hf)]
        · exact ih u
        · intro c' hc' hu'
          obtain rfl := Option.some.inj (hc.symm.trans hc')
          exact hu (stageUrb_inj (hid.symm.trans hu')).1.symm

/-! ### No request is lost -/

/-- A CMD_SUBMIT is answered, in the hands of a thread that answers, or with the controller. -/
def Accounted (es : List ServerEvent) (s : Server) (u : Nat) : Prop :=
  u ∈ (replies es).map Reply.request ∨
    (∃ t b, t ≠ .system ∧ (s.pc t).held = some (u, b) ∧ (s.pc t).answered = false) ∨
    s.direct u ≠ none

section Accounted

variable {es : List ServerEvent} {s s' : Server} {e : ServerEvent} {u : Nat}

private theorem replied_mono (h : u ∈ (replies es).map Reply.request) :
    u ∈ (replies (es ++ [e])).map Reply.request := by
  rw [replies_snoc, List.map_append]
  exact List.mem_append_left _ h

private theorem accounted_held {t : Thread} {b : Urb} {p : Pc} (ht : t ≠ .system)
    (hpc : s'.pc t = p) (hp : p.held = some (u, b)) (ha : p.answered = false) :
    Accounted (es ++ [e]) s' u := by
  refine .inr (.inl ⟨t, b, ht, ?_, ?_⟩)
  · rw [hpc]
    exact hp
  · rw [hpc]
    exact ha

private theorem accounted_moved {t : Thread} {b : Urb} {p : Pc} (ht : t ≠ .system)
    (hpc : s'.pc = (s.setPc t p).pc) (hp : p.held = some (u, b)) (ha : p.answered = false) :
    Accounted (es ++ [e]) s' u := by
  refine accounted_held ht ?_ hp ha
  rw [hpc, Server.pc_setPc, if_pos rfl]

private theorem accounted_own {t : Thread} {b : Urb} {p : Pc} (ht : t ≠ .system)
    (hhcd : t = .hcd → (s.pc t).staging = false) (h : PcStep t (s.pc t) e p)
    (hpc : s'.pc t = p) (hp : (s.pc t).held = some (u, b)) (ha : (s.pc t).answered = false) :
    Accounted (es ++ [e]) s' u := by
  generalize s.pc t = q at hhcd h hp ha
  cases h with
  | insert =>
    cases hp
    exact accounted_held ht hpc rfl rfl
  | @resume v b st c =>
    cases hp
    unfold Urb.advance at hpc
    split at hpc
    · exact accounted_held ht hpc rfl rfl
    · have haccept : t = .accept := by
        cases t with
        | accept => rfl
        | system => exact (ht rfl).elim
        | hcd => cases hhcd rfl
      rw [if_pos haccept] at hpc
      exact accounted_held ht hpc rfl rfl
  | @header v b stack =>
    cases hp
    left
    rw [replies_snoc, List.map_append]
    exact List.mem_append_right _ (List.mem_singleton_self _)
  | payload => cases ha
  | free => cases ha

private theorem accounted_other {t t' : Thread} {b : Urb} {p : Pc} (ht : t ≠ .system)
    (hpc : s'.pc = (s.setPc t' p).pc) (hne : t ≠ t') (hp : (s.pc t).held = some (u, b))
    (ha : (s.pc t).answered = false) : Accounted (es ++ [e]) s' u := by
  refine accounted_held ht ?_ hp ha
  rw [hpc, Server.pc_setPc, if_neg hne]

private theorem accounted_thread (hrun : ServerRun es s) (hs : ServerStep s e s') {t : Thread}
    {b : Urb} (ht : t ≠ .system) (hp : (s.pc t).held = some (u, b))
    (ha : (s.pc t).answered = false) : Accounted (es ++ [e]) s' u := by
  cases hs with
  | @start t' _ _ _ _ hidle =>
    refine accounted_other ht rfl ?_ hp ha
    rintro rfl
    rw [hidle] at hp
    cases hp
  | @move t' _ p l hown =>
    by_cases hne : t = t'
    · subst hne
      refine accounted_own ht ?_ hown ?_ hp ha
      · rintro rfl
        exact ServerRun.hcd_staging hrun
      · exact Function.update_self ..
    · exact accounted_other ht rfl hne hp ha
  | @linkStage t' v b' st x loop hpc =>
    by_cases hne : t = t'
    · subst hne
      rw [hpc] at hp
      cases hp
      exact accounted_moved ht rfl rfl rfl
    · exact accounted_other ht rfl hne hp ha
  | @linkDirect t' v b' x loop hpc =>
    by_cases hne : t = t'
    · subst hne
      rw [hpc] at hp
      cases hp
      right
      right
      show Function.update s.direct u (some b) u ≠ none
      rw [Function.update_self]
      exact Option.some_ne_none b
    · exact accounted_other ht rfl hne hp ha
  | loop => exact accounted_held ht rfl hp ha
  | @doneStage r x loop c t' v b' st _ _ _ _ _ _ hpc =>
    by_cases hne : t = t'
    · subst hne
      rw [hpc] at hp
      cases hp
      exact accounted_moved ht rfl rfl rfl
    · exact accounted_other ht rfl hne hp ha
  | doneDirect hidle =>
    refine accounted_other ht rfl ?_ hp ha
    rintro rfl
    rw [hidle] at hp
    cases hp

-- A step loses no request that the controller has: it completes it, and the controller's thread
-- gets the reply to send.
private theorem accounted_direct (hs : ServerStep s e s') (hd : s.direct u ≠ none) :
    Accounted (es ++ [e]) s' u := by
  cases hs with
  | start => exact .inr (.inr hd)
  | move => exact .inr (.inr hd)
  | linkStage => exact .inr (.inr hd)
  | @linkDirect t v b =>
    right
    right
    show Function.update s.direct v (some b) u ≠ none
    rw [Function.update_apply]
    split
    · exact Option.some_ne_none b
    · exact hd
  | loop => exact .inr (.inr hd)
  | doneStage => exact .inr (.inr hd)
  | @doneDirect r x loop c v b =>
    by_cases hu : u = v
    · subst hu
      exact accounted_moved (t := .hcd) (fun h ↦ by cases h) rfl rfl rfl
    · right
      right
      show Function.update s.direct v none u ≠ none
      rw [Function.update_of_ne hu]
      exact hd

/-- No CMD_SUBMIT is lost. -/
theorem ServerRun.all_accounted (h : ServerRun es s) : ∀ r ∈ received es, Accounted es s r.1 := by
  refine Run.invariant (P := fun es s ↦ ∀ r ∈ received es, Accounted es s r.1) ?_ ?_ h
  · intro r hr
    exact (List.not_mem_nil hr).elim
  · intro es s e s' hrun ih hfire r hr
    have hs : ServerStep s e s' := serverStep_of_exec hfire
    rw [received_snoc] at hr
    rcases List.mem_append.mp hr with hr | hr
    · rcases ih r hr with hreply | ⟨t, b, ht, hp, ha⟩ | hd
      · exact .inl (replied_mono hreply)
      · exact accounted_thread hrun hs ht hp ha
      · exact accounted_direct hs hd
    · rw [Option.mem_toList] at hr
      cases hs with
      | @start t submit mps data =>
        cases t with
        | accept =>
          cases hr
          exact accounted_moved (t := .accept) (fun h ↦ by cases h) rfl rfl rfl
        | system => cases hr
        | hcd => cases hr
      | move hown => cases hown.request.2.symm.trans hr
      | linkStage => cases hr
      | linkDirect => cases hr
      | @loop op x => cases (ServerEvent.request_loop op x).2.symm.trans hr
      | doneStage => cases hr
      | doneDirect => cases hr

end Accounted

/-! ### Each in one place -/

section Places

variable {es : List ServerEvent} {s : Server} {u : Nat}

private theorem underway_iff (h : ServerRun es s) {l : GtdPtr × LinkArgs}
    (hl : l ∈ links (hcdEvents es)) (hid : l.2.urb.id = stageUrb u .direct) {a : Queues}
    (hq : QueuesRun (hcdEvents es) a) (hr : Refines s.loop.hcd a) :
    Underway es u ↔ ¬ s.loop.hcd.Holds .freed l.1 := by
  have hledger := QueuesRun.ledger hq
  have hissued : stageUrb u .direct ∈ issuedUrbs (hcdEvents es) := by
    rw [← hid]
    exact List.mem_map_of_mem (f := fun l ↦ l.2.urb.id) hl
  rw [Underway, and_iff_right hissued, hr.holds_freed,
    ← hledger.gone l.1 (hledger.linked_lt hl)]
  refine not_congr ⟨fun hm ↦ ?_, fun hm ↦ ?_⟩
  · obtain ⟨c, hc, hu⟩ := List.mem_map.mp hm
    obtain ⟨args, hlink, hurb⟩ := hledger.completed c hc
    have hsame : (c.gtd, args) = l := Ledger.link_of_urb (ServerRun.tracked h).once hlink hl
      (by rw [hid, ← hu]; exact hurb)
    rw [← hsame]
    exact List.mem_map_of_mem hc
  · obtain ⟨c, hc, hg⟩ := List.mem_map.mp hm
    obtain ⟨args, hlink, hurb⟩ := hledger.completed c hc
    rw [hg] at hlink
    have hargs : args = l.2 := hledger.linked_unique hlink hl
    rw [← hid, ← hargs, hurb]
    exact List.mem_map_of_mem hc

private theorem underway_of_has (h : ServerRun es s) {p : Place} (hp : s.Has es u (.controller p)) :
    Underway es u := by
  obtain ⟨hlive, l, hl, hid, hholds⟩ := hp
  obtain ⟨a, ha⟩ := (ServerRun.loop_run h).behind
  rw [underway_iff h hl hid ha.run ha.refines]
  exact fun hfreed ↦ hlive (ha.refines.holds_unique hholds hfreed)

private theorem has_unique (h : ServerRun es s) {w w' : Whereabouts} (hw : s.Has es u w)
    (hw' : s.Has es u w') : w = w' := by
  have hheld := ServerRun.held h
  -- a thread has a request that is neither answered nor with the controller
  have hthread : ∀ {t : Thread} {w : Whereabouts}, s.Has es u (.thread t) → s.Has es u w →
      w = .thread t := by
    rintro t w ⟨b, hp, ha⟩ hw
    cases w with
    | thread t' =>
      obtain ⟨b', hp', -⟩ := hw
      rw [hheld.apart t t' u b b' hp hp']
    | controller p =>
      have hd := (h.direct_iff u).mpr (underway_of_has h hw)
      obtain ⟨b', hb'⟩ := Option.ne_none_iff_exists'.mp hd
      exact (hheld.apartDirect t u b b' hp hb').elim
    | replied =>
      obtain ⟨r, hr, rfl⟩ := List.mem_map.mp hw
      rw [(ServerRun.settled h).ended r hr t b hp] at ha
      cases ha
  cases w with
  | thread t => exact (hthread hw hw').symm
  | controller p =>
    cases w' with
    | thread t => exact hthread hw' hw
    | controller p' =>
      obtain ⟨-, l, hl, hid, hholds⟩ := hw
      obtain ⟨-, l', hl', hid', hholds'⟩ := hw'
      obtain rfl := Ledger.link_of_urb (ServerRun.tracked h).once hl hl' (hid.trans hid'.symm)
      obtain ⟨a, ha⟩ := (ServerRun.loop_run h).behind
      rw [ha.refines.holds_unique hholds hholds']
    | replied =>
      obtain ⟨r, hr, rfl⟩ := List.mem_map.mp hw'
      exact ((h.direct_iff _).mpr (underway_of_has h hw) ((ServerRun.settled h).gone r hr)).elim
  | replied =>
    cases w' with
    | thread t => exact hthread hw' hw
    | controller p =>
      obtain ⟨r, hr, rfl⟩ := List.mem_map.mp hw
      exact ((h.direct_iff _).mpr (underway_of_has h hw') ((ServerRun.settled h).gone r hr)).elim
    | replied => rfl

private theorem has_some (h : ServerRun es s) (hu : Accounted es s u) : ∃ w, s.Has es u w := by
  rcases hu with hr | ⟨t, b, -, hp, ha⟩ | hd
  · exact ⟨.replied, hr⟩
  · exact ⟨.thread t, b, hp, ha⟩
  · have hunder := (h.direct_iff u).mp hd
    obtain ⟨l, hl, hid⟩ := List.mem_map.mp hunder.1
    obtain ⟨a, ha⟩ := (ServerRun.loop_run h).behind
    obtain ⟨p, hp⟩ := ha.refines.holds_some l.1
    refine ⟨.controller p, ?_, l, hl, hid, hp⟩
    rintro rfl
    exact (underway_iff h hl hid ha.run ha.refines).mp hunder hp

private theorem replied_of_rest (hrest : s.AtRest) {w : Whereabouts}
    (hw : s.Has es u w) : u ∈ (replies es).map Reply.request := by
  cases w with
  | thread t =>
    obtain ⟨b, hp, -⟩ := hw
    rw [hrest.1 t] at hp
    cases hp
  | controller p =>
    obtain ⟨hlive, l, -, -, hholds⟩ := hw
    cases p with
    | queue slot =>
      obtain ⟨e, he, -, q, hq, hl⟩ := hholds
      have hmem : e ∈ s.loop.hcd.controlList ++ s.loop.hcd.bulkList := by
        rw [List.mem_append]
        cases hlist : slot.list with
        | control => exact .inl (by rwa [hlist] at he)
        | bulk => exact .inr (by rwa [hlist] at he)
      rw [hq.head_none_iff.mp (hrest.2.2 e hmem)] at hl
      exact (List.not_mem_nil hl).elim
    | doneList =>
      obtain ⟨q, hq, hl⟩ := hholds
      rw [hq.head_none_iff.mp hrest.2.1] at hl
      exact (List.not_mem_nil hl).elim
    | freed => exact (hlive rfl).elim
  | replied => exact hw

/-- At rest the replies are to the CMD_SUBMITs received. -/
theorem ServerRun.replies_perm (h : ServerRun es s) (hrest : s.AtRest) :
    ((replies es).map fun r ↦ (r.request, r.urb.submit)).Perm (received es) := by
  have hset := ServerRun.settled h
  have hheld := ServerRun.held h
  have honce : ((replies es).map fun r ↦ (r.request, r.urb.submit)).Nodup := by
    refine List.Nodup.of_map Prod.fst ?_
    rw [List.map_map]
    exact hset.once
  rw [List.perm_ext_iff_of_nodup honce (List.Nodup.of_map Prod.fst hheld.received_nodup)]
  intro x
  constructor
  · intro hx
    obtain ⟨r, hr, rfl⟩ := List.mem_map.mp hx
    exact (hset.own r hr).1
  · intro hx
    obtain ⟨w, hw⟩ := has_some h (h.all_accounted x hx)
    obtain ⟨r, hr, hru⟩ := List.mem_map.mp (replied_of_rest hrest hw)
    have hsub : r.urb.submit = x.2 := by
      refine hheld.request_unique (u := x.1) ?_ (Held.request_of_received hx)
      rw [← hru]
      exact Held.request_of_received (hset.own r hr).1
    exact List.mem_map.mpr ⟨r, hr, Prod.ext hru hsub⟩

/-- Every CMD_SUBMIT is in exactly one place: no request is lost and none is answered while it is
still being worked on. When the server is at rest, the replies are to the CMD_SUBMITs received, one
to each. -/
theorem ServerRun.accounted (h : ServerRun es s) :
    (∀ r ∈ received es, ∃! w, s.Has es r.1 w) ∧
      (s.AtRest → ((replies es).map fun r ↦ (r.request, r.urb.submit)).Perm (received es)) := by
  constructor
  · intro r hr
    obtain ⟨w, hw⟩ := has_some h (h.all_accounted r hr)
    exact ⟨w, hw, fun w' hw' ↦ has_unique h hw' hw⟩
  · exact h.replies_perm

end Places

private def accountedOps : List ServerOp :=
  let round (r r' : Response) :=
    hcdTurn r ++ hcdTurn .nak ++ hcdTurn .nak ++ hcdTurn .nak ++ hcdTurn r' ++ hcdTurn .nak
  [.start .accept ⟨7, 0x10001, 1, 2, 1, [0, 0, 0, 0, 0, 0, 0, 0]⟩ 64 [0], .insert .accept,
    .link .accept, .start .accept ⟨8, 0x10001, 0, 0, 0, [0, 9, 1, 0, 0, 0, 0, 0]⟩ 8 [],
    .insert .accept, .link .accept] ++
  round (.ack 8 []) .nak ++ [.resume .accept, .link .accept] ++ round (.ack 0 []) .nak ++
  [.resume .accept] ++ round .nak (.ack 1 [5]) ++
  [.header .hcd (List.replicate 8 0), .header .accept (List.replicate 8 0), .payload .hcd,
    .free .hcd, .free .accept]

/-- Two requests are received and answered. -/
theorem ServerRun.accounted_two : ∃ es s, ServerRun es s ∧ s.AtRest ∧
    (received es).map Prod.fst = [0, 1] ∧ (∀ r ∈ received es, ∃! w, s.Has es r.1 w) ∧
    ((replies es).map fun r ↦ (r.request, r.urb.submit)).Perm (received es) := by
  have hcheck : runsTo serverExec serverInit accountedOps (fun s es ↦
      decide (s.AtRest ∧ (received es).map Prod.fst = [0, 1])) = true := by decide +kernel
  obtain ⟨es, s, hrun, hp⟩ := Run.of_runsTo hcheck
  have hp' := of_decide_eq_true hp
  have hall := ServerRun.accounted hrun
  exact ⟨es, s, hrun, hp'.1, hp'.2, hall.1, hall.2 hp'.1⟩

end BiMpp.Usbip
