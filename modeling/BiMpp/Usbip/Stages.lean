import BiMpp.Usbip.Requests

/-!
# The stages of a request

A thread links the stages of its request one after another, each with a URB of its own,
and goes on only with the last one's completion. `Tracked` says what a thread's place
tells about the links and completions of the controller, and that every length stays
inside the buffer.
-/

namespace BiMpp.Usbip
open BiMpp.Usb BiMpp.Base BiMpp.Host

/-- The descriptor linked in an event. -/
def ServerEvent.linked (e : ServerEvent) : Option (GtdPtr × LinkArgs) :=
  (ServerEvent.hcdEvent e).bind HcdEvent.linked

/-- The descriptor completed in an event. -/
def ServerEvent.completion (e : ServerEvent) : Option Completion :=
  (ServerEvent.hcdEvent e).bind HcdEvent.completion

section Snoc

variable (es : List ServerEvent) (e : ServerEvent)

/-- The links of the driver after one more event. -/
theorem links_hcdEvents_snoc : links (hcdEvents (es ++ [e])) =
    links (hcdEvents es) ++ (ServerEvent.linked e).toList := by
  unfold ServerEvent.linked
  rw [hcdEvents_snoc]
  cases ServerEvent.hcdEvent e with
  | none => simp
  | some d => rw [Option.toList_some, links_snoc, Option.bind_some]

/-- The completions of the driver after one more event. -/
theorem completions_hcdEvents_snoc : completions (hcdEvents (es ++ [e])) =
    completions (hcdEvents es) ++ (ServerEvent.completion e).toList := by
  unfold ServerEvent.completion
  rw [hcdEvents_snoc]
  cases ServerEvent.hcdEvent e with
  | none => simp
  | some d => rw [Option.toList_some, completions_snoc, Option.bind_some]

end Snoc

/-! ### One step, seen from a thread -/

/-- What a step does to one thread: where it gets. -/
inductive PcMove (s : Server) (e : ServerEvent) (t : Thread) : Pc → Prop
  | keep : PcMove s e t (s.pc t)
  | start {submit : CmdSubmit} {mps : Int} {data : List UInt8} :
      s.pc t = .idle → submit.Valid → (data.length : Int) = submit.size →
      PcMove s e t (.insert s.nextUrb ⟨submit, mps, data, 0⟩)
  | own {p : Pc} : PcStep t (s.pc t) e p → PcMove s e t p
  | stage {u : Nat} {b : Urb} {st : Stage} : s.pc t = .link u b st →
      PcMove s e t (.wait u b st none)
  | park {u : Nat} {b : Urb} : s.pc t = .link u b .direct → PcMove s e t .idle
  | done {u : Nat} {b : Urb} {st : Stage} {c : Completion} : s.pc t = .wait u b st none →
      ServerEvent.completion e = some c → c.urb = stageUrb u st →
      PcMove s e t (.wait u b st (some c))
  | direct {u : Nat} {b : Urb} {c : Completion} : t = .hcd → s.pc t = .idle →
      s.direct u = some b →
      ServerEvent.completion e = some c → c.urb = stageUrb u .direct →
      PcMove s e t (.reply u (b.afterStage c .direct))

private theorem setPc_move {s s₀ : Server} {e : ServerEvent} {t : Thread} {p : Pc}
    (h : PcMove s e t p) (hs : s₀.pc = s.pc) (t' : Thread) :
    PcMove s e t' ((s₀.setPc t p).pc t') := by
  rw [Server.pc_setPc]
  split
  · next ht =>
    rw [ht]
    exact h
  · rw [hs]
    exact .keep

/-- A step does one of these to every thread. -/
theorem ServerStep.pc_move {s s' : Server} {e : ServerEvent} (h : ServerStep s e s')
    (t : Thread) : PcMove s e t (s'.pc t) := by
  cases h with
  | start _ hidle hv hd => exact setPc_move (.start hidle hv hd) rfl t
  | move hp => exact setPc_move (.own hp) rfl t
  | linkStage hpc => exact setPc_move (.stage hpc) rfl t
  | linkDirect hpc => exact setPc_move (.park hpc) rfl t
  | loop => exact .keep
  | @doneStage r x _ _ _ _ _ _ _ _ _ _ hc _ hpc hu =>
    have hc' : ServerEvent.completion (.body r, .loop x) = _ := hc
    exact setPc_move (.done hpc hc' hu.symm) rfl t
  | @doneDirect r x _ _ _ _ hidle _ _ _ hc hb hu =>
    have hc' : ServerEvent.completion (.body r, .loop x) = _ := hc
    exact setPc_move (.direct rfl hidle hb hc' hu) rfl t

/-- A direct transfer comes from the thread that linked it. -/
theorem ServerStep.direct_of {s s' : Server} {e : ServerEvent} (h : ServerStep s e s') {u : Nat}
    {b : Urb} (hd : s'.direct u = some b) :
    s.direct u = some b ∨ ∃ t, s.pc t = .link u b .direct := by
  cases h with
  | start => exact .inl hd
  | move => exact .inl hd
  | linkStage => exact .inl hd
  | @linkDirect t v c x loop hpc =>
    change Function.update s.direct v (some c) u = some b at hd
    rw [Function.update_apply] at hd
    split at hd
    · next hu =>
      obtain rfl := Option.some.inj hd
      subst hu
      exact .inr ⟨t, hpc⟩
    · exact .inl hd
  | loop => exact .inl hd
  | doneStage => exact .inl hd
  | @doneDirect r x loop c v b' =>
    change Function.update s.direct v none u = some b at hd
    rw [Function.update_apply] at hd
    split at hd
    · exact nomatch hd
    · exact .inl hd

/-- A link shows in the event of a thread that makes it. -/
theorem ServerEvent.linked_link {l l' : Loop} {t : Thread} {x : LoopEvent} {args : LinkArgs}
    (hx : x.1 = .link args) (h : Fires loopExec l x l') :
    ∃ g, ServerEvent.linked (.link t, .loop x) = some (g, args) := by
  have hs : LoopStep l x l' := loopStep_of_exec h
  cases hs with
  | @link a h out hexec =>
    obtain rfl := LoopOp.link.inj hx
    obtain ⟨⟨h', g⟩, -, hp⟩ := bind_eq_ok.mp hexec
    cases pure_eq_ok.mp hp
    exact ⟨g, rfl⟩
  | wake => exact nomatch hx
  | evaluate => exact nomatch hx
  | body => exact nomatch hx

/-- The other steps of the controller link nothing. -/
theorem ServerEvent.linked_other {l l' : Loop} {op : ServerOp} {x : LoopEvent}
    (hx : ∀ a, x.1 ≠ .link a) (h : Fires loopExec l x l') :
    ServerEvent.linked (op, .loop x) = none := by
  have hs : LoopStep l x l' := loopStep_of_exec h
  cases hs with
  | link => exact (hx _ rfl).elim
  | wake => rfl
  | evaluate => rfl
  | @body epd r h out =>
    change HcdEvent.linked (l.slot.call epd r, out) = none
    unfold LoopSlot.call
    split <;> rfl

/-- A thread on its own links nothing. -/
theorem PcStep.linked {t : Thread} {p p' : Pc} {e : ServerEvent} (h : PcStep t p e p') :
    ServerEvent.linked e = none := by
  unfold ServerEvent.linked ServerEvent.hcdEvent
  rw [h.loopEvent]
  rfl

/-- A link is made by a thread for the stage it is at, which it then waits for or leaves
to the controller. -/
theorem ServerStep.linked_by {s s' : Server} {e : ServerEvent} (h : ServerStep s e s')
    {l : GtdPtr × LinkArgs} (hl : ServerEvent.linked e = some l) :
    ∃ t u b st, s.pc t = .link u b st ∧ l.2 = b.linkArgs u st ∧
      ((s'.pc t = .wait u b st none) ∨ (s'.direct u = some b)) := by
  cases h with
  | start => exact nomatch hl
  | move hp => exact nomatch hp.linked.symm.trans hl
  | @linkStage t u b st x loop hpc _ _ hx hfire =>
    obtain ⟨g, hg⟩ := ServerEvent.linked_link (t := t) hx hfire
    obtain rfl := Option.some.inj (hg.symm.trans hl)
    exact ⟨t, u, b, st, hpc, rfl, .inl (by simp)⟩
  | @linkDirect t u b x loop hpc _ hx hfire =>
    obtain ⟨g, hg⟩ := ServerEvent.linked_link (t := t) hx hfire
    obtain rfl := Option.some.inj (hg.symm.trans hl)
    exact ⟨t, u, b, .direct, hpc, rfl, .inr (Function.update_self ..)⟩
  | loop _ hx hfire => exact nomatch (ServerEvent.linked_other hx hfire).symm.trans hl
  | doneStage _ hx hfire =>
    exact nomatch (ServerEvent.linked_other (by rw [hx]; exact nofun) hfire).symm.trans hl
  | doneDirect _ hx hfire =>
    exact nomatch (ServerEvent.linked_other (by rw [hx]; exact nofun) hfire).symm.trans hl

/-- The device's answer in a step fits its packet. -/
theorem ServerStep.loop_fits {s s' : Server} {e : ServerEvent} (h : ServerStep s e s')
    {x : LoopEvent} (hx : ServerEvent.loopEvent e = some x) : LoopEvent.Fits x := by
  cases h with
  | start => exact nomatch hx
  | move hp =>
    rw [hp.loopEvent] at hx
    exact nomatch hx
  | linkStage _ _ _ _ _ hfits =>
    obtain rfl := Option.some.inj hx
    exact hfits
  | linkDirect _ _ _ _ hfits =>
    obtain rfl := Option.some.inj hx
    exact hfits
  | loop _ _ _ hfits =>
    obtain rfl := Option.some.inj hx
    exact hfits
  | doneStage _ _ _ hfits =>
    obtain rfl := Option.some.inj hx
    exact hfits
  | doneDirect _ _ _ hfits =>
    obtain rfl := Option.some.inj hx
    exact hfits

/-! ### Lengths -/

/-- A URB inside its buffer. -/
structure Urb.Sized (b : Urb) : Prop where
  valid : b.submit.Valid
  data : (b.data.length : Int) = b.submit.size
  nonneg : 0 ≤ b.length
  inside : b.length ≤ b.submit.size

namespace Urb.Sized

variable {b : Urb}

/-- Every stage is linked with its buffer. -/
theorem linkArgs (h : b.Sized) (u : Nat) (st : Stage) : (b.linkArgs u st).Sized := by
  have hpos := h.valid.2
  cases st with
  | setup =>
    have hlen := h.valid.1
    refine ⟨by simp [Urb.linkArgs], rfl, ?_⟩
    change (b.submit.setup.length : Int) = 8
    omega
  | data => exact ⟨hpos, rfl, h.data⟩
  | status => exact ⟨Int.le_refl 0, rfl, rfl⟩
  | direct => exact ⟨hpos, rfl, h.data⟩

/-- A completed stage leaves the URB inside its buffer. -/
theorem afterStage (h : b.Sized) {c : Completion} {u : Nat} {st : Stage}
    (hc : c.Sized (b.linkArgs u st).urb) : (b.afterStage c st).Sized := by
  obtain ⟨-, hpos, hle, hlen⟩ := hc
  cases st with
  | setup => exact ⟨h.valid, h.data, Int.le_refl 0, h.valid.2⟩
  | data => exact ⟨h.valid, hlen, hpos, hle⟩
  | status => exact h
  | direct => exact ⟨h.valid, hlen, hpos, hle⟩

end Urb.Sized

/-- The room of a stage depends on the request alone. -/
theorem Urb.linkArgs_urb {b b' : Urb} (h : b.submit = b'.submit) (u : Nat) (st : Stage) :
    (b.linkArgs u st).urb = (b'.linkArgs u st).urb := by
  cases st <;> simp [Urb.linkArgs, h]

/-! ### What a thread's place tells -/

/-- Every link is for a stage of a request, with a URB inside its buffer. -/
def StageLinks (es : List ServerEvent) : Prop :=
  ∀ l ∈ links (hcdEvents es), ∃ (u : Nat) (b : Urb) (st : Stage), l.2 = b.linkArgs u st ∧
    (u, b.submit) ∈ requests es ∧ b.Sized

/-- What a history and a state have to do with one another: the stages linked and
completed for a request are told by the place of the thread that has it. -/
structure Tracked (es : List ServerEvent) (s : Server) : Prop where
  links : StageLinks es
  once : (issuedUrbs (hcdEvents es)).Nodup
  next : ∀ t u b st, (s.pc t).held = some (u, b) → stageUrb u st ∈ issuedUrbs (hcdEvents es) →
    st.code < (s.pc t).linkedBelow
  past : ∀ t u b st, (s.pc t).held = some (u, b) → st ∈ b.submit.stages →
    st.code < (s.pc t).doneBelow → ∃ c ∈ completions (hcdEvents es), c.urb = stageUrb u st
  given : ∀ t u b st c, s.pc t = .wait u b st (some c) →
    c ∈ completions (hcdEvents es) ∧ c.urb = stageUrb u st
  held : ∀ t u b, (s.pc t).held = some (u, b) → b.Sized
  parked : ∀ u b, s.direct u = some b → b.Sized

section Monotone

variable {es : List ServerEvent} (e : ServerEvent)

/-- A request that was taken up stays in the history. -/
theorem requests_mono {r : Nat × CmdSubmit} (h : r ∈ requests es) : r ∈ requests (es ++ [e]) := by
  rw [requests_snoc]
  exact List.mem_append_left _ h

/-- A completion stays in the history. -/
theorem completions_mono {c : Completion} (h : c ∈ completions (hcdEvents es)) :
    c ∈ completions (hcdEvents (es ++ [e])) := by
  rw [completions_hcdEvents_snoc]
  exact List.mem_append_left _ h

/-- The completion of the last event. -/
theorem completions_last {e : ServerEvent} {c : Completion}
    (h : ServerEvent.completion e = some c) : c ∈ completions (hcdEvents (es ++ [e])) := by
  rw [completions_hcdEvents_snoc, h]
  simp

end Monotone

/-- A completed stage of a request fits the stage's room. -/
theorem StageLinks.fits {es : List ServerEvent} {s : Server} (hl : StageLinks es)
    (hh : Held es s)
    (hsized : ∀ c ∈ completions (hcdEvents es), ∃ l ∈ links (hcdEvents es), c.Sized l.2.urb)
    {c : Completion} (hc : c ∈ completions (hcdEvents es)) {u : Nat} {b : Urb} {st : Stage}
    (hu : c.urb = stageUrb u st) (hb : (u, b.submit) ∈ requests es) :
    c.Sized (b.linkArgs u st).urb := by
  obtain ⟨l, hm, hcl⟩ := hsized c hc
  obtain ⟨u', b', st', hargs, hb', -⟩ := hl l hm
  rw [hargs] at hcl
  have hid : stageUrb u' st' = stageUrb u st := by
    rw [← hu, ← hcl.1, Urb.linkArgs_urb_id]
  obtain ⟨rfl, rfl⟩ := stageUrb_inj hid
  rwa [Urb.linkArgs_urb (hh.request_unique hb hb')]

/-! ### One step -/

/-- There are four stages. -/
theorem Stage.code_lt (st : Stage) : st.code < 4 := by
  cases st <;> decide

private theorem linkedBelow_own {t : Thread} {p p' : Pc} {e : ServerEvent} (h : PcStep t p e p')
    {u : Nat} {b' : Urb} (hp : p'.held = some (u, b')) : p.linkedBelow ≤ p'.linkedBelow := by
  cases h with
  | insert => exact Nat.zero_le _
  | @resume v b st c =>
    unfold Urb.advance
    split
    · next st' hn => exact (CmdSubmit.nextStage_code hn).1
    · split <;> exact st.code_lt
  | header => split <;> exact Nat.le_refl 4
  | payload => exact Nat.le_refl 4
  | free => exact nomatch hp

private theorem doneBelow_own {t : Thread} {p p' : Pc} {e : ServerEvent} (h : PcStep t p e p')
    {u : Nat} {b' : Urb} (hp : p'.held = some (u, b')) {st : Stage} (hst : st ∈ b'.submit.stages)
    (hold : ∀ u b st, p.held = some (u, b) → p.stage = some st → st ∈ b.submit.stages)
    (hlt : st.code < p'.doneBelow) : st.code < p.doneBelow := by
  cases h with
  | @insert v b =>
    cases hp
    change st.code < (CmdSubmit.firstStage _).code at hlt
    rw [CmdSubmit.mem_stages] at hst
    unfold CmdSubmit.firstStage at hlt
    split at hlt
    · exact absurd hlt (Nat.not_lt_zero _)
    · next hc =>
      cases st with
      | setup => exact (hc hst).elim
      | data => exact (hc hst.1).elim
      | status => exact (hc hst).elim
      | direct => exact absurd hlt (by decide)
  | @resume v b st₀ c =>
    change st.code < st₀.code + 1
    unfold Urb.advance at hp hlt
    split at hp
    · next st' hn =>
      simp only [hn] at hlt
      cases hp
      exact (CmdSubmit.nextStage_code hn).2 st hst hlt
    · next hn =>
      have hmem := hold v b st₀ rfl rfl
      rw [Urb.submit_afterStage] at hn
      have hsub : b'.submit = b.submit := by
        split at hp <;> cases hp <;> simp
      rw [hsub] at hst
      exact CmdSubmit.lastStage_code hmem hn st hst
  | header => exact st.code_lt
  | payload => exact st.code_lt
  | free => exact nomatch hp

private theorem sized_own {t : Thread} {p p' : Pc} {e : ServerEvent} (h : PcStep t p e p')
    {u : Nat} {b' : Urb} (hp : p'.held = some (u, b'))
    (hold : ∀ u b, p.held = some (u, b) → b.Sized)
    (hgiven : ∀ u b st c, p = .wait u b st (some c) → c.Sized (b.linkArgs u st).urb) :
    b'.Sized := by
  cases h with
  | insert =>
    cases hp
    exact hold _ _ rfl
  | @resume v b st c =>
    have hb : (b.afterStage c st).Sized := (hold v b rfl).afterStage (hgiven v b st c rfl)
    unfold Urb.advance at hp
    split at hp
    · cases hp
      exact hb
    · split at hp <;> cases hp <;> exact hb
  | header =>
    split at hp <;> cases hp <;> exact hold _ _ rfl
  | payload =>
    cases hp
    exact hold _ _ rfl
  | free => exact nomatch hp

private theorem not_given_own {t : Thread} {p p' : Pc} {e : ServerEvent} (h : PcStep t p e p')
    {u : Nat} {b : Urb} {st : Stage} {c : Completion} (hp : p' = .wait u b st (some c)) :
    False := by
  cases h with
  | insert => exact nomatch hp
  | resume =>
    unfold Urb.advance at hp
    split at hp
    · exact nomatch hp
    · split at hp <;> exact nomatch hp
  | header => split at hp <;> exact nomatch hp
  | payload => exact nomatch hp
  | free => exact nomatch hp

namespace Tracked

variable {es : List ServerEvent} {s s' : Server} {e : ServerEvent}

/-- No stage has been linked or completed before the first step. -/
theorem init : Tracked [] serverInit where
  links _ h := nomatch h
  once := List.nodup_nil
  next _ _ _ _ h := nomatch h
  past _ _ _ _ h := nomatch h
  given _ _ _ _ _ h := nomatch h
  held _ _ _ h := nomatch h
  parked _ _ h := nomatch h

private theorem links_step (h : Tracked es s) (hh : Held es s) (hs : ServerStep s e s') :
    StageLinks (es ++ [e]) := by
  intro l hl
  rw [links_hcdEvents_snoc] at hl
  rcases List.mem_append.mp hl with hl | hl
  · obtain ⟨u, b, st, hargs, hb, hsz⟩ := h.links l hl
    exact ⟨u, b, st, hargs, requests_mono e hb, hsz⟩
  · rw [Option.mem_toList] at hl
    obtain ⟨t, u, b, st, hpc, hargs, -⟩ := hs.linked_by hl
    have hheld : (s.pc t).held = some (u, b) := by rw [hpc]; rfl
    exact ⟨u, b, st, hargs, requests_mono e (hh.mine t u b hheld), h.held t u b hheld⟩

private theorem urbs_step (es : List ServerEvent) (hs : ServerStep s e s') :
    issuedUrbs (hcdEvents (es ++ [e])) = issuedUrbs (hcdEvents es) ∨
      ∃ t u b st, s.pc t = .link u b st ∧
        ((s'.pc t = .wait u b st none) ∨ (s'.direct u = some b)) ∧
        issuedUrbs (hcdEvents (es ++ [e])) = issuedUrbs (hcdEvents es) ++ [stageUrb u st] := by
  unfold issuedUrbs
  rw [links_hcdEvents_snoc]
  cases hl : ServerEvent.linked e with
  | none => exact .inl (by simp)
  | some l =>
    obtain ⟨t, u, b, st, hpc, hargs, hpc'⟩ := hs.linked_by hl
    refine .inr ⟨t, u, b, st, hpc, hpc', ?_⟩
    simp [hargs]

private theorem once_step (h : Tracked es s) (hs : ServerStep s e s') :
    (issuedUrbs (hcdEvents (es ++ [e]))).Nodup := by
  rcases urbs_step es hs with heq | ⟨t, u, b, st, hpc, -, heq⟩
  · rw [heq]
    exact h.once
  · rw [heq]
    refine List.nodup_append.mpr ⟨h.once, by simp, ?_⟩
    rintro v hv v' hv' rfl
    obtain rfl := List.mem_singleton.mp hv'
    have hlt := h.next t u b st (by rw [hpc]; rfl) hv
    rw [hpc] at hlt
    exact Nat.lt_irrefl _ hlt

private theorem next_step (h : Tracked es s) (hh : Held es s) (hh' : Held (es ++ [e]) s')
    (hs : ServerStep s e s') (t : Thread) (u : Nat) (b : Urb) (st : Stage)
    (hp : (s'.pc t).held = some (u, b)) (hm : stageUrb u st ∈ issuedUrbs (hcdEvents (es ++ [e]))) :
    st.code < (s'.pc t).linkedBelow := by
  have hold : stageUrb u st ∈ issuedUrbs (hcdEvents es) → st.code < (s'.pc t).linkedBelow := by
    intro hm
    have hmove := hs.pc_move t
    revert hp hmove
    generalize s'.pc t = p
    intro hp hmove
    cases hmove with
    | keep => exact h.next t u b st hp hm
    | start =>
      cases hp
      obtain ⟨l, hl, hid⟩ := List.mem_map.mp hm
      obtain ⟨u', b', st', hargs, hb', -⟩ := h.links l hl
      rw [hargs, Urb.linkArgs_urb_id] at hid
      obtain ⟨rfl, -⟩ := stageUrb_inj hid
      exact (Nat.lt_irrefl _ (hh.request_lt hb')).elim
    | own hown =>
      obtain ⟨b₀, hb₀, -⟩ := hown.held hp
      exact Nat.lt_of_lt_of_le (h.next t u b₀ st hb₀ hm) (linkedBelow_own hown hp)
    | @stage u' b' st' hpc =>
      cases hp
      have hlt := h.next t u b st (by rw [hpc]; rfl) hm
      rw [hpc] at hlt
      exact Nat.lt_succ_of_lt hlt
    | park => exact nomatch hp
    | @done u' b' st' c hpc =>
      cases hp
      have hlt := h.next t u b st (by rw [hpc]; rfl) hm
      rw [hpc] at hlt
      exact hlt
    | direct => exact st.code_lt
  rcases urbs_step es hs with heq | ⟨t', u', b', st', -, hpc', heq⟩
  · rw [heq] at hm
    exact hold hm
  · rw [heq] at hm
    rcases List.mem_append.mp hm with hm | hm
    · exact hold hm
    · obtain ⟨rfl, rfl⟩ := stageUrb_inj (List.mem_singleton.mp hm)
      rcases hpc' with hpc' | hd
      · obtain rfl : t = t' := hh'.apart t t' u b b' hp (by rw [hpc']; rfl)
        rw [hpc']
        exact Nat.lt_succ_self _
      · exact (hh'.apartDirect t u b b' hp hd).elim

private theorem past_step (h : Tracked es s) (hh : Held es s) (hs : ServerStep s e s')
    (t : Thread) (u : Nat) (b : Urb) (st : Stage) (hp : (s'.pc t).held = some (u, b))
    (hst : st ∈ b.submit.stages) (hlt : st.code < (s'.pc t).doneBelow) :
    ∃ c ∈ completions (hcdEvents (es ++ [e])), c.urb = stageUrb u st := by
  have hold : ∀ b₀, (s.pc t).held = some (u, b₀) → b₀.submit = b.submit →
      st.code < (s.pc t).doneBelow →
      ∃ c ∈ completions (hcdEvents (es ++ [e])), c.urb = stageUrb u st := by
    intro b₀ hb₀ hsub hlt
    obtain ⟨c, hc, hu⟩ := h.past t u b₀ st hb₀ (by rw [hsub]; exact hst) hlt
    exact ⟨c, completions_mono e hc, hu⟩
  have hmove := hs.pc_move t
  revert hp hlt hmove
  generalize s'.pc t = p
  intro hp hlt hmove
  cases hmove with
  | keep => exact hold b hp rfl hlt
  | start => exact absurd hlt (Nat.not_lt_zero _)
  | own hown =>
    obtain ⟨b₀, hb₀, hsub⟩ := hown.held hp
    exact hold b₀ hb₀ hsub (doneBelow_own hown hp hst (fun u b st ↦ hh.staged t u b st) hlt)
  | stage hpc =>
    cases hp
    refine hold b (by rw [hpc]; rfl) rfl ?_
    rw [hpc]
    exact hlt
  | park => exact nomatch hp
  | @done u' b' st' c hpc hc hu =>
    cases hp
    rcases Nat.lt_succ_iff_lt_or_eq.mp hlt with hlt | heq
    · refine hold b (by rw [hpc]; rfl) rfl ?_
      rw [hpc]
      exact hlt
    · obtain rfl : st = st' := by cases st <;> cases st' <;> first | rfl | exact nomatch heq
      exact ⟨c, completions_last hc, hu⟩
  | @direct u' b' c _ _ hb hc hu =>
    cases hp
    have hcontrol := (hh.parked u b' hb).2
    rw [Urb.submit_afterStage, CmdSubmit.mem_stages] at hst
    obtain rfl : st = .direct := by
      cases st with
      | setup => exact nomatch hcontrol.symm.trans hst
      | data => exact nomatch hcontrol.symm.trans hst.1
      | status => exact nomatch hcontrol.symm.trans hst
      | direct => rfl
    exact ⟨c, completions_last hc, hu⟩

private theorem given_step (h : Tracked es s) (hs : ServerStep s e s') (t : Thread) (u : Nat)
    (b : Urb) (st : Stage) (c : Completion) (hp : s'.pc t = .wait u b st (some c)) :
    c ∈ completions (hcdEvents (es ++ [e])) ∧ c.urb = stageUrb u st := by
  have hmove := hs.pc_move t
  rw [hp] at hmove
  generalize hq : Pc.wait u b st (some c) = p at hmove
  cases hmove with
  | keep =>
    obtain ⟨hc, hu⟩ := h.given t u b st c hq.symm
    exact ⟨completions_mono e hc, hu⟩
  | start => exact nomatch hq
  | own hown => exact (not_given_own hown hq.symm).elim
  | stage => exact nomatch hq
  | park => exact nomatch hq
  | done _ hc hu =>
    cases hq
    exact ⟨completions_last hc, hu⟩
  | direct => exact nomatch hq

private theorem held_step (h : Tracked es s) (hh : Held es s) (hh' : Held (es ++ [e]) s')
    (hs : ServerStep s e s') (hl : StageLinks (es ++ [e]))
    (hsized : ∀ c ∈ completions (hcdEvents (es ++ [e])),
      ∃ l ∈ BiMpp.Host.links (hcdEvents (es ++ [e])), c.Sized l.2.urb)
    (t : Thread) (u : Nat) (b : Urb) (hp : (s'.pc t).held = some (u, b)) : b.Sized := by
  have hfits : ∀ {c : Completion} {u : Nat} {b : Urb} {st : Stage},
      c ∈ completions (hcdEvents (es ++ [e])) → c.urb = stageUrb u st →
      (u, b.submit) ∈ requests es → c.Sized (b.linkArgs u st).urb := by
    intro c u b st hc hu hb
    exact hl.fits hh' hsized hc hu (requests_mono e hb)
  have hmove := hs.pc_move t
  revert hp hmove
  generalize s'.pc t = p
  intro hp hmove
  cases hmove with
  | keep => exact h.held t u b hp
  | start _ hv hd =>
    cases hp
    exact ⟨hv, hd, Int.le_refl 0, hv.2⟩
  | own hown =>
    refine sized_own hown hp (h.held t) ?_
    intro u₀ b₀ st c hpc
    obtain ⟨hc, hu⟩ := h.given t u₀ b₀ st c hpc
    exact hfits (completions_mono e hc) hu (hh.mine t u₀ b₀ (by rw [hpc]; rfl))
  | stage hpc =>
    cases hp
    exact h.held t u b (by rw [hpc]; rfl)
  | park => exact nomatch hp
  | done hpc =>
    cases hp
    exact h.held t u b (by rw [hpc]; rfl)
  | @direct u' b' c _ _ hb hc hu =>
    cases hp
    have hreq := Held.request_of_received (hh.parked u b' hb).1
    exact (h.parked u b' hb).afterStage (hfits (completions_last hc) hu hreq)

/-- Every step keeps track of every request. -/
theorem step (h : Tracked es s) (hh : Held es s) (hh' : Held (es ++ [e]) s')
    (hs : ServerStep s e s') {a : Queues} (hq : QueuesRun (hcdEvents (es ++ [e])) a)
    (hfits : ∀ d ∈ hcdEvents (es ++ [e]), HcdEvent.Fits d) : Tracked (es ++ [e]) s' := by
  have hlinks := h.links_step hh hs
  have hsized := hq.completion_sized (fun l hl ↦ by
    obtain ⟨u, b, st, hargs, -, hsz⟩ := hlinks l hl
    rw [hargs]
    exact hsz.linkArgs u st) hfits
  refine ⟨hlinks, h.once_step hs, h.next_step hh hh' hs, h.past_step hh hs, h.given_step hs,
    h.held_step hh hh' hs hlinks hsized, ?_⟩
  intro u b hb
  rcases hs.direct_of hb with hb | ⟨t, hpc⟩
  · exact h.parked u b hb
  · exact h.held t u b (by rw [hpc]; rfl)

end Tracked

/-! ### Every run -/

/-- The queues behind a run of the server. -/
theorem ServerRun.queues {es : List ServerEvent} {s : Server} (h : ServerRun es s) :
    ∃ a, QueuesRun (hcdEvents es) a := by
  obtain ⟨a, ha⟩ := (ServerRun.loop_run h).behind
  exact ⟨a, ha.run⟩

/-- The device's answers fit. -/
theorem ServerRun.fits {es : List ServerEvent} {s : Server} (h : ServerRun es s) :
    ∀ d ∈ hcdEvents es, HcdEvent.Fits d := by
  have hinit : ∀ d ∈ hcdEvents [], HcdEvent.Fits d := fun d hd ↦ nomatch hd
  refine Run.invariant (P := fun es _ ↦ ∀ d ∈ hcdEvents es, HcdEvent.Fits d) hinit ?_ h
  intro es s e s' _ ih hfire d hd
  rw [hcdEvents_snoc] at hd
  rcases List.mem_append.mp hd with hd | hd
  · exact ih d hd
  · rw [Option.mem_toList] at hd
    obtain ⟨x, hx, hxd⟩ := Option.bind_eq_some_iff.mp hd
    intro t ht
    have hstep : ServerStep s e s' := serverStep_of_exec hfire
    exact hstep.loop_fits hx t (by rw [hxd]; exact ht)

/-- In every reachable state every request is tracked. -/
theorem ServerRun.tracked {es : List ServerEvent} {s : Server} (h : ServerRun es s) :
    Tracked es s := by
  refine Run.invariant (P := Tracked) Tracked.init ?_ h
  intro es s e s' hrun ih hfire
  have hrun' : ServerRun (es ++ [e]) s' := .snoc hrun hfire
  obtain ⟨a, ha⟩ := ServerRun.queues hrun'
  exact ih.step (ServerRun.held hrun) (ServerRun.held hrun') (serverStep_of_exec hfire) ha
    (ServerRun.fits hrun')

/-- `system_loop` answers nobody. -/
theorem ServerRun.system_reply {es : List ServerEvent} {s : Server} (h : ServerRun es s)
    (u : Nat) (b : Urb) : s.pc .system ≠ .reply u b := by
  have hinit : ∀ u b, serverInit.pc .system ≠ .reply u b := fun _ _ ↦ nofun
  refine Run.invariant (P := fun _ s ↦ ∀ u b, s.pc .system ≠ .reply u b) hinit ?_ h u b
  intro es s e s' _ ih hfire u b hp
  have hstep : ServerStep s e s' := serverStep_of_exec hfire
  have hmove := hstep.pc_move .system
  rw [hp] at hmove
  generalize hq : Pc.reply u b = p at hmove
  cases hmove with
  | keep => exact ih u b hq.symm
  | own hown =>
    generalize s.pc .system = q at hown
    cases hown with
    | resume =>
      unfold Urb.advance at hq
      split at hq
      · exact nomatch hq
      · rw [if_neg nofun] at hq
        exact nomatch hq
    | header => split at hq <;> exact nomatch hq
    | insert => exact nomatch hq
    | payload => exact nomatch hq
    | free => exact nomatch hq
  | direct ht => exact nomatch ht
  | start => exact nomatch hq
  | stage => exact nomatch hq
  | park => exact nomatch hq
  | done => exact nomatch hq

end BiMpp.Usbip
