import BiMpp.Host.Agreement
import BiMpp.Host.Transfers

/-!
# The life of a descriptor

A transaction belongs to the descriptor at the head of the queue it ran on; what has
happened to a descriptor is the list of its transactions. What is true of it when it is
linked, and kept by every exchange, is true of it in every reachable state:
`hcd_gtd_send`, `bi-mpp-pic24-usb-simulator-master/src/hcd.c:159–243`.
-/

namespace BiMpp.Host
open BiMpp.Usb BiMpp.Base

/-! ### The transactions of one descriptor -/

/-- The descriptors waiting at each slot after an event. -/
def HcdEvent.pending (p : Slot → List GtdPtr) : HcdEvent → Slot → List GtdPtr
  | (.link a, .linked g) => Function.update p a.slot (p a.slot ++ [g])
  | (_, .sent (some t)) =>
    if t.retired.isSome then Function.update p t.slot (p t.slot).tail else p
  | _ => p

/-- The descriptors waiting at each slot after a history. -/
def pendingAfter (es : List HcdEvent) : Slot → List GtdPtr :=
  es.foldl HcdEvent.pending fun _ ↦ []

/-- The transaction of an event, if it was made for the descriptor at `g`. -/
def HcdEvent.servedFor (g : GtdPtr) (p : Slot → List GtdPtr) (e : HcdEvent) : Option Transaction :=
  (HcdEvent.transaction e).filter fun t ↦ (p t.slot).head? = some g

/-- The transactions made for the descriptor at `g`, from where `p` is waiting. -/
def servedFrom (g : GtdPtr) : (Slot → List GtdPtr) → List HcdEvent → List Transaction
  | _, [] => []
  | p, e :: es => (HcdEvent.servedFor g p e).toList ++ servedFrom g (HcdEvent.pending p e) es

/-- The transactions made for the descriptor at `g`, in order. -/
def transactionsOf (g : GtdPtr) (es : List HcdEvent) : List Transaction :=
  servedFrom g (fun _ ↦ []) es

private theorem pendingAfter_snoc (es : List HcdEvent) (e : HcdEvent) :
    pendingAfter (es ++ [e]) = HcdEvent.pending (pendingAfter es) e := by
  simp [pendingAfter]

private theorem servedFrom_snoc (g : GtdPtr) (p : Slot → List GtdPtr) (es : List HcdEvent)
    (e : HcdEvent) : servedFrom g p (es ++ [e]) =
      servedFrom g p es ++ (HcdEvent.servedFor g (es.foldl HcdEvent.pending p) e).toList := by
  induction es generalizing p with
  | nil => simp [servedFrom]
  | cons x es ih =>
    rw [List.cons_append, servedFrom, servedFrom, ih, List.append_assoc]
    rfl

/-- The transactions of a descriptor after one more event. -/
theorem transactionsOf_snoc (g : GtdPtr) (es : List HcdEvent) (e : HcdEvent) :
    transactionsOf g (es ++ [e]) =
      transactionsOf g es ++ (HcdEvent.servedFor g (pendingAfter es) e).toList :=
  servedFrom_snoc g _ es e

/-! ### The descriptor in the driver -/

/-- The packet size of an endpoint is fixed, and the carried toggle does not ask for
itself. -/
structure Settled (c c' : EpdCore) : Prop where
  mps : c'.maximumPacketSize = c.maximumPacketSize
  carry : c.toggleCarry &&& 2 = 0 → c'.toggleCarry &&& 2 = 0

private theorem settled_settle (c : EpdCore) (p : Td) (fate : Fate) :
    Settled c (c.settle p fate) := by
  cases fate with
  | accepted =>
    refine ⟨rfl, fun _ ↦ ?_⟩
    change p.dataToggle &&& 1 &&& 2 = 0
    grind
  | _ => exact ⟨rfl, id⟩

/-- A step settles the endpoints there are. -/
theorem core_step {a b : Queues} {e : HcdEvent} (hs : QueueStep a e b) {s : Slot}
    (hk : a.Known s) : b.Known s ∧ Settled (a.core s) (b.core s) := by
  cases hs with
  | @link args b₀ t hb _ =>
    have hopen : b₀.Known s ∧ b₀.core s = a.core s := by
      cases hb with
      | old _ => exact ⟨hk, rfl⟩
      | fresh hnew _ =>
        have hne : s ≠ args.slot := by
          rintro rfl
          exact hnew hk
        refine ⟨?_, Function.update_of_ne hne ..⟩
        simp only [Queues.Known, Function.update_apply]
        split
        · next hl =>
          rw [← hl]
          exact List.mem_append_left _ hk
        · exact hk
    refine ⟨hopen.1, ?_⟩
    change Settled _ (Function.update b₀.core args.slot _ s)
    rw [Function.update_apply, ← hopen.2]
    split
    · next he =>
      subst he
      exact ⟨rfl, id⟩
    · exact ⟨rfl, id⟩
  | idle _ => exact ⟨hk, rfl, id⟩
  | stay _ _ _ => exact ⟨hk, rfl, id⟩
  | @retire s' _ _ x _ _ _ fate _ _ _ _ =>
    refine ⟨hk, ?_⟩
    change Settled _ (Function.update a.core s' _ s)
    rw [Function.update_apply]
    split
    · next he =>
      subst he
      exact settled_settle _ _ _
    · exact ⟨rfl, id⟩
  | empty _ => exact ⟨hk, rfl, id⟩
  | complete _ => exact ⟨hk, rfl, id⟩

/-- An endpoint that was not there before a step is the one that its link creates. -/
theorem core_cases {a b : Queues} {e : HcdEvent} (hs : QueueStep a e b) {s : Slot}
    (hk : b.Known s) : a.Known s ∨ ∃ args c, e.1 = .link args ∧ s = args.slot ∧
      hcdEpdCreate args.addr args.endpoint args.mps = .ok c ∧
      b.core s = { c with skip := false, halted := false } := by
  cases hs with
  | @link args b₀ t hb _ =>
    have hk : b₀.Known s := hk
    cases hb with
    | old _ => exact .inl hk
    | @fresh c hnew hc =>
      by_cases he : s = args.slot
      · subst he
        exact .inr ⟨args, c, rfl, rfl, hc, by simp [Queues.push]⟩
      · left
        simp only [Queues.Known, Function.update_apply] at hk
        split at hk
        · next hl =>
          unfold Queues.Known
          rw [hl]
          refine (List.mem_append.mp hk).resolve_right fun hmem ↦ he ?_
          rw [List.mem_singleton] at hmem
          cases s
          cases hs : args.slot
          simp_all
        · exact hk
  | idle _ => exact .inl hk
  | stay _ _ _ => exact .inl hk
  | retire _ _ _ _ => exact .inl hk
  | empty _ => exact .inl hk
  | complete _ => exact .inl hk

/-- The history knows which descriptor waits where and what was served so far. -/
structure Attended (es : List HcdEvent) (a : Queues) : Prop where
  pending : ∀ s, pendingAfter es s = a.ptrs (some s)
  fresh : ∀ g, a.nextGtd ≤ g → transactionsOf g es = []
  carry : ∀ s, a.Known s → (a.core s).toggleCarry &&& 2 = 0
  known : ∀ l ∈ links es, a.Known l.2.slot

/-- An event without a transaction serves nobody. -/
theorem transactionsOf_none (g : GtdPtr) (es : List HcdEvent) {e : HcdEvent}
    (h : HcdEvent.transaction e = none) : transactionsOf g (es ++ [e]) = transactionsOf g es := by
  rw [transactionsOf_snoc, HcdEvent.servedFor, h]
  exact List.append_nil _

private theorem servedFor_head {g : GtdPtr} {p : Slot → List GtdPtr} {e : HcdEvent}
    {t : Transaction} {y : GtdPtr} {l : List GtdPtr} (h : HcdEvent.transaction e = some t)
    (hp : p t.slot = y :: l) :
    HcdEvent.servedFor g p e = if y = g then some t else none := by
  rw [HcdEvent.servedFor, h, Option.filter_some, hp, List.head?_cons]
  by_cases hy : y = g <;> simp [hy]

namespace Attended

variable {es : List HcdEvent} {a b : Queues}

private theorem init : Attended [] queuesInit where
  pending _ := rfl
  fresh _ _ := rfl
  carry _ h := nomatch h
  known _ h := nomatch h

private theorem pending_step (hwf : a.WF) (h : ∀ s, pendingAfter es s = a.ptrs (some s))
    {e : HcdEvent} (hs : QueueStep a e b) (s : Slot) :
    pendingAfter (es ++ [e]) s = b.ptrs (some s) := by
  rw [pendingAfter_snoc]
  cases hs with
  | @link args b₀ t hb _ =>
    obtain ⟨-, -, hnext, -⟩ := hb.frame
    change Function.update (pendingAfter es) args.slot _ s = _
    rw [Queues.ptrs_push, Queues.ptrs_opened hb, hnext, Function.update_apply, h, h]
    by_cases he : s = args.slot
    · subst he
      rw [if_pos rfl, if_pos rfl]
    · rw [if_neg he, if_neg fun hse ↦ he (Option.some.inj hse)]
  | idle _ => exact h s
  | @stay s' epd r x q t p hseek hq hx =>
    obtain ⟨_, -, -, ht⟩ := EpdCore.exchange_ok hx
    have hnone : t.retired = none := by
      rw [ht]
      rfl
    have hptrs : ∀ pl, (a.keep s' { x with td := p } q).ptrs pl = a.ptrs pl :=
      Queues.ptrs_keep hq rfl
    change (if t.retired.isSome then _ else pendingAfter es) s = _
    rw [hnone, hptrs]
    exact h s
  | @retire s' epd r x q t p fate hseek hq hx hf =>
    obtain ⟨_, -, -, ht⟩ := EpdCore.exchange_ok hx
    have hsome : t.retired.isSome := by
      rw [ht]
      simp [hf]
    have hslot := hwf.transaction_slot hseek hx
    have hptrs : a.ptrs (some s') = x.ptr :: q.map Entry.ptr := by
      rw [Queues.ptrs, Queues.place, hq]
      rfl
    change (if t.retired.isSome then _ else pendingAfter es) s = _
    rw [if_pos hsome, hslot, Queues.ptrs_retire rfl, Function.update_apply, h, h, hptrs]
    by_cases he : s = s'
    · rw [if_pos he, if_pos (congrArg some he)]
      rfl
    · rw [if_neg he, if_neg fun hse ↦ he (Option.some.inj hse), if_neg (Option.some_ne_none s)]
  | empty _ => exact h s
  | complete _ => exact h s

/-- The transaction of a step on the head of a slot. -/
theorem served (h : ∀ s, pendingAfter es s = a.ptrs (some s)) (g : GtdPtr) {s : Slot}
    {x : Entry} {q : List Entry} {t : Transaction} (hq : a.queue s = x :: q) (hslot : t.slot = s)
    {w : EpdList} {epd : Option EpdPtr} {r : Response} :
    transactionsOf g (es ++ [(.send w epd r, .sent (some t))]) =
      if x.ptr = g then transactionsOf g es ++ [t] else transactionsOf g es := by
  have hp : pendingAfter es t.slot = x.ptr :: q.map Entry.ptr := by
    rw [h, hslot, Queues.ptrs, Queues.place, hq]
    rfl
  rw [transactionsOf_snoc, servedFor_head rfl hp]
  split <;> simp

private theorem fresh_step (hwf : a.WF) (hp : ∀ s, pendingAfter es s = a.ptrs (some s))
    (h : ∀ g, a.nextGtd ≤ g → transactionsOf g es = []) {e : HcdEvent} (hs : QueueStep a e b)
    {g : GtdPtr} (hg : b.nextGtd ≤ g) : transactionsOf g (es ++ [e]) = [] := by
  have hhead : ∀ {s x q}, a.queue s = x :: q → a.nextGtd ≤ g → x.ptr ≠ g := by
    rintro s x q hq hle rfl
    refine Nat.not_lt.mpr hle (hwf.bound (some s) x.ptr ?_)
    rw [Queues.ptrs, Queues.place, hq]
    exact List.mem_cons_self
  cases hs with
  | link hb _ =>
    obtain ⟨-, -, hnext, -⟩ := hb.frame
    have hle : a.nextGtd ≤ g := by
      rw [← hnext]
      exact Nat.le_of_succ_le hg
    rw [transactionsOf_none g es rfl, h g hle]
  | idle _ =>
    rw [transactionsOf_none g es rfl, h g hg]
  | stay hseek hq hx =>
    rw [served hp g hq (hwf.transaction_slot hseek hx), if_neg (hhead hq hg), h g hg]
  | retire hseek hq hx _ =>
    rw [served hp g hq (hwf.transaction_slot hseek hx), if_neg (hhead hq hg), h g hg]
  | empty _ =>
    rw [transactionsOf_none g es rfl, h g hg]
  | complete _ =>
    rw [transactionsOf_none g es rfl, h g hg]

private theorem carry_step (h : ∀ s, a.Known s → (a.core s).toggleCarry &&& 2 = 0) {e : HcdEvent}
    (hs : QueueStep a e b) {s : Slot} (hk : b.Known s) : (b.core s).toggleCarry &&& 2 = 0 := by
  rcases core_cases hs hk with hka | ⟨args, c, -, -, hc, hcore⟩
  · exact (core_step hs hka).2.carry (h s hka)
  · rw [hcore]
    unfold hcdEpdCreate at hc
    split at hc
    · cases hc
      exact BitVec.zero_and
    · cases hc

private theorem known_step (hwf : a.WF) (h : ∀ l ∈ links es, a.Known l.2.slot) {e : HcdEvent}
    (hs : QueueStep a e b) {l : GtdPtr × LinkArgs} (hl : l ∈ links (es ++ [e])) :
    b.Known l.2.slot := by
  rw [links_snoc] at hl
  rcases List.mem_append.mp hl with hl | hl
  · exact (core_step hs (h l hl)).1
  · cases hs with
    | link hb _ =>
      obtain rfl : l = _ := List.mem_singleton.mp hl
      exact (hwf.opened hb).2
    | idle _ => cases hl
    | stay _ _ _ => cases hl
    | retire _ _ _ _ => cases hl
    | empty _ => cases hl
    | complete _ => cases hl

private theorem step (h : Attended es a) (hwf : a.WF) {e : HcdEvent} (hs : QueueStep a e b) :
    Attended (es ++ [e]) b where
  pending := pending_step hwf h.pending hs
  fresh _ hg := fresh_step hwf h.pending h.fresh hs hg
  carry _ hk := carry_step h.carry hs hk
  known _ hl := known_step hwf h.known hs hl

end Attended

/-- Every history of the queues is attended. -/
theorem QueuesRun.attended {es : List HcdEvent} {a : Queues} (h : QueuesRun es a) :
    Attended es a := by
  refine Run.invariant (P := Attended) Attended.init ?_ h
  intro es a e b hrun ih hfire
  exact ih.step (QueuesRun.wf hrun) (queueStep_of_exec hfire)

/-! ### Induction over the life of a descriptor -/

/-- Two stages of a life, `Q` in a queue and `D` after it: what a link gives is in the
first, and an exchange on an endpoint with packets of `m` leaves it there or, where it
unlinks the descriptor, takes it to the second. -/
structure Lives (args : LinkArgs) (Q D : Int → List Transaction → Td → Prop) : Prop where
  new : ∀ m td, args.td = .ok td → Q m [] td
  serve : ∀ {c : EpdCore} {w : EpdList} {p p' : Td} {r : Response} {t : Transaction} {fate : Fate}
    {ts : List Transaction}, c.key = args.key → c.toggleCarry &&& 2 = 0 →
    t.response.Fits t.packet → Q c.maximumPacketSize ts p →
    c.exchange w p r = .ok (t, p', fate) →
    if fate = .keep then Q c.maximumPacketSize (ts ++ [t]) p'
    else D c.maximumPacketSize (ts ++ [t]) p'

/-- Where the descriptor at `g` is, its contents are at that stage of its transactions. -/
structure Living (Q D : Int → List Transaction → Td → Prop) (g : GtdPtr) (args : LinkArgs)
    (es : List HcdEvent) (a : Queues) : Prop where
  queued : ∀ s, ∀ x ∈ a.place (some s), x.ptr = g →
    Q (a.core args.slot).maximumPacketSize (transactionsOf g es) x.td
  done : ∀ x ∈ a.place none, x.ptr = g →
    D (a.core args.slot).maximumPacketSize (transactionsOf g es) x.td
  completed : ∀ c ∈ completions es, c.gtd = g →
    ∃ p : Td, D (a.core args.slot).maximumPacketSize (transactionsOf g es) p ∧ c = p.complete g

namespace Living

variable {Q D : Int → List Transaction → Td → Prop} {g : GtdPtr} {args : LinkArgs}
  {es : List HcdEvent} {a b : Queues} {e : HcdEvent}

private theorem frame (h : Living Q D g args es a)
    (hcore : Settled (a.core args.slot) (b.core args.slot))
    (hserved : transactionsOf g (es ++ [e]) = transactionsOf g es)
    (hplace : ∀ pl, ∀ x ∈ b.place pl, x.ptr = g → x ∈ a.place pl)
    (hdone : ∀ c ∈ completions (es ++ [e]), c.gtd = g → c ∈ completions es) :
    Living Q D g args (es ++ [e]) b := by
  constructor
  · rw [hserved, hcore.mps]
    exact fun s x hx hg ↦ h.queued s x (hplace _ x hx hg) hg
  · rw [hserved, hcore.mps]
    exact fun x hx hg ↦ h.done x (hplace _ x hx hg) hg
  · rw [hserved, hcore.mps]
    exact fun c hc hg ↦ h.completed c (hdone c hc hg) hg

private theorem not_completed (hl : Ledger es a) {pl : Option Slot} {x : Entry}
    (hx : x ∈ a.place pl) : ∀ c ∈ completions es, c.gtd ≠ x.ptr := by
  intro c hc hg
  have hlt := hl.wf.bound pl x.ptr (List.mem_map_of_mem hx)
  refine (hl.gone x.ptr hlt).mp ?_ pl (List.mem_map_of_mem hx)
  rw [← hg]
  exact List.mem_map_of_mem hc

private theorem slot_eq (hl : Ledger es a) {s : Slot} {x : Entry} (hx : x ∈ a.queue s)
    (hlink : (x.ptr, args) ∈ links es) : s = args.slot := by
  obtain ⟨args', hlink', hslot, -⟩ := hl.entry (some s) x hx
  rw [hl.linked_unique hlink hlink', hslot, hl.wf.owner s x hx]

private theorem link (hl : Ledger es a) (hatt : Attended es a) (hrule : Lives args Q D) {t : Td}
    (hb : Opened a args.slot args.mps b) (ht : args.td = .ok t) :
    Living Q D a.nextGtd args (es ++ [(.link args, .linked a.nextGtd)]) (b.push args.slot t) := by
  have hserved : transactionsOf a.nextGtd (es ++ [(.link args, .linked a.nextGtd)]) = [] := by
    rw [transactionsOf_none _ es rfl, hatt.fresh _ (Nat.le_refl _)]
  have hold : ∀ pl, ∀ x ∈ a.place pl, x.ptr ≠ a.nextGtd := fun pl x hx ↦
    Nat.ne_of_lt (hl.wf.bound pl x.ptr (List.mem_map_of_mem hx))
  constructor
  · intro s x hx hg
    rcases Queues.mem_link hb hx with hx | ⟨-, rfl⟩
    · exact (hold _ x hx hg).elim
    · rw [hserved]
      exact hrule.new _ t ht
  · intro x hx hg
    rcases Queues.mem_link hb hx with hx | ⟨hn, -⟩
    · exact (hold _ x hx hg).elim
    · cases hn
  · intro c hc hg
    rw [completions_link] at hc
    obtain ⟨args', hlink, -⟩ := hl.completed c hc
    exact (Nat.ne_of_lt (hl.linked_lt hlink) hg).elim

private theorem serve (h : Living Q D g args es a) (hl : Ledger es a) (hatt : Attended es a)
    (hrule : Lives args Q D) (hlink : (g, args) ∈ links es) {s : Slot} {x : Entry} {q : List Entry}
    {epd : Option EpdPtr} {r : Response} {t : Transaction} {p : Td} {fate : Fate}
    (hseek : a.seek s.list epd = .ok (some s)) (hq : a.queue s = x :: q)
    (hx : (a.core s).exchange s.list x.td r = .ok (t, p, fate)) (hg : x.ptr = g)
    (hfits : ∀ t' ∈ transactionsOf g (es ++ [(.send s.list epd r, .sent (some t))]),
      t'.response.Fits t'.packet) :
    transactionsOf g (es ++ [(.send s.list epd r, .sent (some t))]) = transactionsOf g es ++ [t] ∧
      if fate = .keep then Q (a.core args.slot).maximumPacketSize (transactionsOf g es ++ [t]) p
      else D (a.core args.slot).maximumPacketSize (transactionsOf g es ++ [t]) p := by
  subst hg
  have hmem : x ∈ a.queue s := by
    rw [hq]
    exact List.mem_cons_self
  have hserved : transactionsOf x.ptr (es ++ [(.send s.list epd r, .sent (some t))]) =
      transactionsOf x.ptr es ++ [t] := by
    rw [Attended.served hatt.pending x.ptr hq (hl.wf.transaction_slot hseek hx), if_pos rfl]
  obtain rfl := slot_eq hl hmem hlink
  have hkey : (a.core args.slot).key = args.key := hl.wf.named args.slot (hatt.known _ hlink)
  refine ⟨hserved, hrule.serve hkey ?_ ?_ (h.queued _ x hmem rfl) hx⟩
  · exact hatt.carry args.slot (hatt.known _ hlink)
  · apply hfits
    rw [hserved]
    simp

private theorem moved (hl : Ledger es a) {pl pl' : Option Slot} {x x' : Entry} {m : Int}
    {ts : List Transaction} (hm : m = (a.core args.slot).maximumPacketSize)
    (hts : ts = transactionsOf g (es ++ [e]))
    (hx : x ∈ a.place pl) (hg : x.ptr = g) (hcore : Settled (a.core args.slot) (b.core args.slot))
    (hcompleted : completions (es ++ [e]) = completions es)
    (hplace : ∀ pl₁, ∀ y ∈ b.place pl₁, pl₁ = pl' ∧ y = x' ∨ y ∈ a.place pl₁ ∧ y ≠ x)
    (hnew : match pl' with
      | some _ => Q m ts x'.td
      | none => D m ts x'.td) : Living Q D g args (es ++ [e]) b := by
  subst hg
  have hhere : ∀ pl₁, ∀ y ∈ b.place pl₁, y.ptr = x.ptr → pl₁ = pl' ∧ y = x' := by
    intro pl₁ y hy hyg
    rcases hplace pl₁ y hy with hnew | ⟨hold, hne⟩
    · exact hnew
    · exact (hne (hl.wf.apart hold hx hyg).2).elim
  rw [hts, hm, ← hcore.mps] at hnew
  constructor
  · intro s y hy hyg
    obtain ⟨rfl, rfl⟩ := hhere _ y hy hyg
    exact hnew
  · intro y hy hyg
    obtain ⟨rfl, rfl⟩ := hhere _ y hy hyg
    exact hnew
  · intro c hc hcg
    rw [hcompleted] at hc
    exact (not_completed hl hx c hc hcg).elim

private theorem beside (h : Living Q D g args es a) (hl : Ledger es a) (hatt : Attended es a)
    (hcore : Settled (a.core args.slot) (b.core args.slot)) {s : Slot} {x x' : Entry}
    {q : List Entry} {epd : Option EpdPtr} {r : Response} {t : Transaction} {p : Td} {fate : Fate}
    (hseek : a.seek s.list epd = .ok (some s)) (hq : a.queue s = x :: q)
    (hx : (a.core s).exchange s.list x.td r = .ok (t, p, fate)) (hg : x.ptr ≠ g)
    {pl' : Option Slot}
    (hplace : ∀ pl, ∀ y ∈ b.place pl, pl = pl' ∧ y = x' ∨ y ∈ a.place pl ∧ y ≠ x)
    (hsame : x'.ptr = x.ptr) :
    Living Q D g args (es ++ [(.send s.list epd r, .sent (some t))]) b := by
  refine h.frame hcore ?_ ?_ ?_
  · rw [Attended.served hatt.pending g hq (hl.wf.transaction_slot hseek hx), if_neg hg]
  · intro pl y hy hyg
    rcases hplace pl y hy with ⟨-, rfl⟩ | ⟨hy, -⟩
    · exact (hg (hsame.symm.trans hyg)).elim
    · exact hy
  · rw [completions_send]
    exact fun c hc _ ↦ hc

private theorem complete (h : Living Q D g args es a) (hl : Ledger es a) {x : Entry}
    {rest : List Entry} (hd : a.done = x :: rest) : Living Q D g args
      (es ++ [(.processDoneList, .processed (some (x.td.complete x.ptr)))])
      { a with done := rest } := by
  have hmem : x ∈ a.place none := by
    rw [Queues.place, hd]
    exact List.mem_cons_self
  have hsub : ∀ pl, ∀ y ∈ Queues.place { a with done := rest } pl, y ∈ a.place pl := by
    intro pl y hy
    cases pl with
    | none =>
      rw [Queues.place, hd]
      exact List.mem_cons_of_mem _ hy
    | some s => exact hy
  by_cases hg : x.ptr = g
  · -- the descriptor leaves its last place
    subst hg
    have hgone : ∀ pl, ∀ y ∈ Queues.place { a with done := rest } pl, y.ptr ≠ x.ptr := by
      intro pl y hy hyg
      obtain ⟨rfl, rfl⟩ := hl.wf.apart (hsub pl y hy) hmem hyg
      have hnd := hl.wf.nodup none
      rw [Queues.ptrs, Queues.place, hd, List.map_cons, List.nodup_cons] at hnd
      exact hnd.1 (List.mem_map_of_mem hy)
    refine ⟨fun s y hy hyg ↦ (hgone _ y hy hyg).elim, fun y hy hyg ↦ (hgone _ y hy hyg).elim, ?_⟩
    intro c hc hcg
    rw [completions_process] at hc
    rcases List.mem_append.mp hc with hc | hc
    · exact (not_completed hl hmem c hc hcg).elim
    · rw [Option.toList_some, List.mem_singleton] at hc
      subst hc
      rw [transactionsOf_none x.ptr es rfl]
      exact ⟨x.td, h.done x hmem rfl, rfl⟩
  · refine h.frame ⟨rfl, id⟩ (transactionsOf_none g es rfl) (fun pl y hy _ ↦ hsub pl y hy) ?_
    intro c hc hcg
    rw [completions_process] at hc
    rcases List.mem_append.mp hc with hc | hc
    · exact hc
    · rw [Option.toList_some, List.mem_singleton] at hc
      subst hc
      exact (hg hcg).elim

private theorem step (h : (g, args) ∈ links es → (∀ t ∈ transactionsOf g es,
      t.response.Fits t.packet) → Living Q D g args es a) (hl : Ledger es a)
    (hatt : Attended es a) (hrule : Lives args Q D) (hs : QueueStep a e b)
    (hlink : (g, args) ∈ links (es ++ [e]))
    (hfits : ∀ t ∈ transactionsOf g (es ++ [e]), t.response.Fits t.packet) :
    Living Q D g args (es ++ [e]) b := by
  have hpast : (g, args) ∈ links es → Living Q D g args es a := by
    intro hlink
    refine h hlink fun t ht ↦ hfits t ?_
    rw [transactionsOf_snoc]
    exact List.mem_append_left _ ht
  have hcore : (g, args) ∈ links es → Settled (a.core args.slot) (b.core args.slot) :=
    fun hlink ↦ (core_step hs (hatt.known _ hlink)).2
  have hmem : ∀ {s x q}, a.queue s = x :: q → x ∈ a.place (some s) := by
    intro s x q hq
    rw [Queues.place, hq]
    exact List.mem_cons_self
  have hnone : HcdEvent.transaction e = none →
      transactionsOf g (es ++ [e]) = transactionsOf g es := transactionsOf_none g es
  cases hs with
  | @link args' b₀ t hb ht =>
    rw [links_link] at hlink
    rcases List.mem_append.mp hlink with hlink | hlink
    · refine (hpast hlink).frame (hcore hlink) (hnone rfl) ?_ ?_
      · intro pl x hx hg
        rcases Queues.mem_link hb hx with hx | ⟨-, rfl⟩
        · exact hx
        · exact (Nat.ne_of_lt (hl.linked_lt hlink) hg.symm).elim
      · rw [completions_link]
        exact fun c hc _ ↦ hc
    · cases List.mem_singleton.mp hlink
      exact link hl hatt hrule hb ht
  | idle _ =>
    rw [links_send] at hlink
    refine (hpast hlink).frame (hcore hlink) (hnone rfl) ?_ ?_
    · exact fun pl x hx _ ↦ by cases pl <;> exact hx
    · rw [completions_send]
      exact fun c hc _ ↦ hc
  | @stay s epd r x q t p hseek hq hx =>
    rw [links_send] at hlink
    by_cases hg : x.ptr = g
    · obtain ⟨hserved, hstep⟩ := (hpast hlink).serve hl hatt hrule hlink hseek hq hx hg hfits
      rw [if_pos rfl] at hstep
      exact moved hl rfl hserved.symm (hmem hq) hg (hcore hlink) (completions_send ..)
        (fun pl y hy ↦ hl.wf.mem_keep hq hy) hstep
    · exact (hpast hlink).beside hl hatt (hcore hlink) hseek hq hx hg
        (fun pl y hy ↦ hl.wf.mem_keep hq hy) rfl
  | @retire s epd r x q t p fate hseek hq hx hf =>
    rw [links_send] at hlink
    by_cases hg : x.ptr = g
    · obtain ⟨hserved, hstep⟩ := (hpast hlink).serve hl hatt hrule hlink hseek hq hx hg hfits
      rw [if_neg hf] at hstep
      exact moved hl rfl hserved.symm (hmem hq) hg (hcore hlink) (completions_send ..)
        (fun pl y hy ↦ hl.wf.mem_retire hq hy) hstep
    · exact (hpast hlink).beside hl hatt (hcore hlink) hseek hq hx hg
        (fun pl y hy ↦ hl.wf.mem_retire hq hy) rfl
  | empty _ =>
    rw [links_process] at hlink
    refine (hpast hlink).frame (hcore hlink) (hnone rfl) ?_ ?_
    · exact fun pl x hx _ ↦ by cases pl <;> exact hx
    · rw [completions_process, Option.toList_none, List.append_nil]
      exact fun c hc _ ↦ hc
  | @complete x rest hd =>
    rw [links_process] at hlink
    exact (hpast hlink).complete hl hd

end Living

/-- Every descriptor of a history of the queues is at some stage of its life. -/
theorem QueuesRun.living {Q D : Int → List Transaction → Td → Prop} {es : List HcdEvent}
    {a : Queues} (h : QueuesRun es a) {g : GtdPtr} {args : LinkArgs} (hrule : Lives args Q D)
    (hlink : (g, args) ∈ links es) (hfits : ∀ t ∈ transactionsOf g es, t.response.Fits t.packet) :
    Living Q D g args es a := by
  refine Run.invariant (P := fun es a ↦ (g, args) ∈ links es → (∀ t ∈ transactionsOf g es,
    t.response.Fits t.packet) → Living Q D g args es a) ?_ ?_ h hlink hfits
  · intro hnone
    cases hnone
  · intro es a e b hrun ih hfire hlink hfits
    exact Living.step ih (QueuesRun.ledger hrun) (QueuesRun.attended hrun) hrule
      (queueStep_of_exec hfire) hlink hfits

/-- A linked descriptor is at one of the two stages. -/
theorem QueuesRun.lived {Q D : Int → List Transaction → Td → Prop} {es : List HcdEvent}
    {a : Queues} (h : QueuesRun es a) {g : GtdPtr} {args : LinkArgs} (hrule : Lives args Q D)
    (hlink : (g, args) ∈ links es) (hfits : ∀ t ∈ transactionsOf g es, t.response.Fits t.packet) :
    ∃ p, Q (a.core args.slot).maximumPacketSize (transactionsOf g es) p ∨
      D (a.core args.slot).maximumPacketSize (transactionsOf g es) p := by
  have hlive := h.living hrule hlink hfits
  have hl := QueuesRun.ledger h
  by_cases hg : g ∈ (completions es).map Completion.gtd
  · obtain ⟨c, hc, hcg⟩ := List.mem_map.mp hg
    obtain ⟨p, hp, -⟩ := hlive.completed c hc hcg
    exact ⟨p, .inr hp⟩
  · rw [hl.gone g (hl.linked_lt hlink)] at hg
    obtain ⟨pl, hpl⟩ := not_forall.mp hg
    obtain ⟨x, hx, hxg⟩ := List.mem_map.mp (not_not.mp hpl)
    cases pl with
    | none => exact ⟨x.td, .inr (hlive.done x hx hxg)⟩
    | some s => exact ⟨x.td, .inl (hlive.queued s x hx hxg)⟩

/-- A descriptor of the controller is at some stage of its life on the endpoint it was linked
to, and a completed one went through both. -/
theorem HcdRun.lived {Q D : Int → List Transaction → Td → Prop} {es : List HcdEvent} {h : Hcd}
    (hrun : HcdRun es h) {g : GtdPtr} {args : LinkArgs} (hrule : Lives args Q D)
    (hlink : (g, args) ∈ links es) (hfits : ∀ t ∈ transactionsOf g es, t.response.Fits t.packet) :
    ∃ e ∈ h.list args.list, e.key = args.key ∧
      (∃ p, Q e.maximumPacketSize (transactionsOf g es) p ∨
        D e.maximumPacketSize (transactionsOf g es) p) ∧
      ∀ c ∈ completions es, c.gtd = g →
        ∃ p : Td, D e.maximumPacketSize (transactionsOf g es) p ∧ c = p.complete g := by
  obtain ⟨q, hq, hr⟩ := hrun.queues
  have hknown : args.key ∈ (h.list args.list).map fun e ↦ e.key := by
    rw [hr.keys]
    exact (QueuesRun.attended hq).known _ hlink
  obtain ⟨e, he, hkey⟩ := List.mem_map.mp hknown
  have hmps : e.maximumPacketSize = (q.core args.slot).maximumPacketSize := by
    have hcore := (hr.epds args.list e he).core
    rw [hkey] at hcore
    exact congrArg EpdCore.maximumPacketSize hcore
  refine ⟨e, he, hkey, ?_, ?_⟩
  · rw [hmps]
    exact QueuesRun.lived hq hrule hlink hfits
  · rw [hmps]
    exact (QueuesRun.living hq hrule hlink hfits).completed

/-! ### The packet size of an endpoint -/

/-- The link that was the first to a slot. -/
def firstLink (s : Slot) (es : List HcdEvent) : Option LinkArgs :=
  ((links es).map Prod.snd).find? fun a ↦ a.slot = s

/-- The endpoint that a link goes to has packets of `n` bytes. -/
def Hcd.UsesSize (h : Hcd) (a : LinkArgs) (n : Int) : Prop :=
  ∃ e ∈ h.list a.list, e.key = a.key ∧ e.maximumPacketSize = n

instance (h : Hcd) (a : LinkArgs) (n : Int) : Decidable (h.UsesSize a n) :=
  inferInstanceAs (Decidable (∃ e ∈ _, _))

private theorem firstLink_snoc {s : Slot} {es : List HcdEvent} {f : LinkArgs}
    (h : firstLink s es = some f) (e : HcdEvent) : firstLink s (es ++ [e]) = some f := by
  unfold firstLink at h ⊢
  rw [links_snoc, List.map_append, List.find?_append, h]
  rfl

/-- An endpoint keeps the packet size of the link that created it. -/
theorem QueuesRun.packetSize_first {es : List HcdEvent} {a : Queues} (h : QueuesRun es a)
    {s : Slot} (hk : a.Known s) :
    ∃ f, firstLink s es = some f ∧ (a.core s).maximumPacketSize = f.mps := by
  refine Run.invariant (P := fun es a ↦ ∀ s, a.Known s →
    ∃ f, firstLink s es = some f ∧ (a.core s).maximumPacketSize = f.mps) ?_ ?_ h s hk
  · intro s hnone
    cases hnone
  · intro es a e b hrun ih hfire s hk
    have hs : QueueStep a e b := queueStep_of_exec hfire
    by_cases hka : a.Known s
    · obtain ⟨f, hf, hmps⟩ := ih s hka
      exact ⟨f, firstLink_snoc hf e, ((core_step hs hka).2.mps).trans hmps⟩
    · obtain ⟨args, c, he, rfl, hc, hcore⟩ := (core_cases hs hk).resolve_left hka
      have hnone : firstLink args.slot es = none := by
        rw [firstLink, List.find?_eq_none]
        intro f hf hslot
        obtain ⟨l, hl, rfl⟩ := List.mem_map.mp hf
        rw [decide_eq_true_eq] at hslot
        exact hka (hslot ▸ (QueuesRun.attended hrun).known l hl)
      have hnew : firstLink args.slot (es ++ [e]) = some args := by
        cases hs with
        | link _ _ =>
          obtain rfl := HcdOp.link.inj he
          unfold firstLink at hnone ⊢
          rw [links_link, List.map_append, List.find?_append, hnone]
          simp
        | idle _ => cases he
        | stay _ _ _ => cases he
        | retire _ _ _ _ => cases he
        | empty _ => cases he
        | complete _ => cases he
      refine ⟨args, hnew, ?_⟩
      rw [hcore]
      unfold hcdEpdCreate at hc
      split at hc
      · cases hc
        rfl
      · cases hc

/-- The packet size that a linked descriptor gets is that of the first link to its slot. -/
theorem HcdRun.usesSize_iff {es : List HcdEvent} {h : Hcd} (hrun : HcdRun es h) {g : GtdPtr}
    {a : LinkArgs} (hlink : (g, a) ∈ links es) (n : Int) :
    h.UsesSize a n ↔ ∃ f, firstLink a.slot es = some f ∧ f.mps = n := by
  obtain ⟨q, hq, hr⟩ := hrun.queues
  have hknown : q.Known a.slot := (QueuesRun.attended hq).known _ hlink
  obtain ⟨f, hf, hmps⟩ := QueuesRun.packetSize_first hq hknown
  have hsize : ∀ e ∈ h.list a.list, e.key = a.key → e.maximumPacketSize = f.mps := by
    intro e he hkey
    have hcore := (hr.epds a.list e he).core
    rw [hkey] at hcore
    exact (congrArg EpdCore.maximumPacketSize hcore).trans hmps
  constructor
  · rintro ⟨e, he, hkey, rfl⟩
    exact ⟨f, hf, (hsize e he hkey).symm⟩
  · rintro ⟨f', hf', rfl⟩
    obtain rfl := Option.some.inj (hf.symm.trans hf')
    have hthere : a.key ∈ (h.list a.list).map fun e ↦ e.key := by
      rw [hr.keys]
      exact hknown
    obtain ⟨e, he, hkey⟩ := List.mem_map.mp hthere
    exact ⟨e, he, hkey, hsize e he hkey⟩

end BiMpp.Host
