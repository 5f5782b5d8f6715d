import Mathlib.Data.List.Nodup
import Mathlib.Logic.Function.Basic
import BiMpp.Host.Controller

/-!
# The driver as queues

What the driver is for, without its heap: a queue of transfers per endpoint slot, a
stack of retired ones, and three notification bits. A slot is an endpoint key on one of
the two lists. `HcdOp` and `HcdOut` are shared with the heap level, which refines this
machine.
-/

namespace BiMpp.Host
open BiMpp.Usb BiMpp.Base

/-- An endpoint: the list it is on and its key. -/
structure Slot where
  list : EpdList
  key : EpdKey
  deriving DecidableEq, Repr

/-- The slot a link goes to. -/
def LinkArgs.slot (a : LinkArgs) : Slot := ⟨a.list, a.key⟩

/-- The slot a transaction ran on. -/
def Transaction.slot (t : Transaction) : Slot := ⟨t.list, t.key⟩

/-- A transfer: its address, the slot it was linked to and its descriptor. -/
structure Entry where
  ptr : GtdPtr
  owner : Slot
  td : Td
  deriving DecidableEq, Repr

/-- Endpoints in creation order, their settings, their queues, and the done stack. -/
structure Queues where
  notify : BitVec 32
  order : EpdList → List EpdKey
  core : Slot → EpdCore
  queue : Slot → List Entry
  done : List Entry
  nextGtd : GtdPtr

/-- No endpoint yet. -/
def queuesInit : Queues where
  notify := 0
  order := fun _ ↦ []
  core := fun s ↦ ⟨s.key.functionAddress, s.key.endpointNumber, false, 0, 0, false⟩
  queue := fun _ ↦ []
  done := []
  nextGtd := 0

namespace Queues

/-- The transfers at a place: a slot's queue, or the done stack. -/
def place (a : Queues) : Option Slot → List Entry
  | some s => a.queue s
  | none => a.done

/-- The endpoints that exist. -/
def Known (a : Queues) (s : Slot) : Prop := s.key ∈ a.order s.list

instance (a : Queues) (s : Slot) : Decidable (a.Known s) :=
  inferInstanceAs (Decidable (_ ∈ _))

/-- Make sure the slot exists, creating it behind the others. -/
def openSlot (a : Queues) (s : Slot) (mps : Int) : Except Fault Queues :=
  if a.Known s then .ok a
  else do
    let c ← hcdEpdCreate s.key.functionAddress s.key.endpointNumber mps
    return { a with
      order := Function.update a.order s.list (a.order s.list ++ [s.key])
      core := Function.update a.core s c }

/-- Append a transfer to a slot and let it run. -/
def push (a : Queues) (s : Slot) (t : Td) : Queues :=
  { a with
    core := Function.update a.core s { a.core s with skip := false, halted := false }
    queue := Function.update a.queue s (a.queue s ++ [⟨a.nextGtd, s, t⟩])
    nextGtd := a.nextGtd + 1
    notify := a.notify ||| s.list.notification }

/-- Link a transfer. -/
def link (a : Queues) (args : LinkArgs) : Except Fault (Queues × GtdPtr) := do
  let b ← a.openSlot args.slot args.mps
  let t ← args.td
  return (b.push args.slot t, a.nextGtd)

/-- A slot that can be served: neither skipped nor halted, with a transfer queued. -/
def ready (a : Queues) (s : Slot) : Bool :=
  !(a.core s).skip && !(a.core s).halted && !(a.queue s).isEmpty

/-- The first ready slot from an endpoint pointer on. -/
def seek (a : Queues) (w : EpdList) : Option EpdPtr → Except Fault (Option Slot)
  | none => .ok none
  | some i =>
    if i < (a.order w).length then
      .ok ((((a.order w).drop i).find? fun k ↦ a.ready ⟨w, k⟩).map (⟨w, ·⟩))
    else .error .badPointer

/-- Keep the head of a slot's queue with new descriptor contents. -/
def keep (a : Queues) (s : Slot) (x : Entry) (q : List Entry) : Queues :=
  { a with queue := Function.update a.queue s (x :: q) }

/-- Move the head of a slot's queue to the done stack. -/
def retire (a : Queues) (s : Slot) (x : Entry) (q : List Entry) (fate : Fate) : Queues :=
  { a with
    core := Function.update a.core s ((a.core s).settle x.td fate)
    queue := Function.update a.queue s q
    done := x :: a.done
    notify := a.notify ||| notifyDone }

/-- Serve the head of a slot's queue. -/
def serve (a : Queues) (s : Slot) (r : Response) : Except Fault (Queues × Transaction) :=
  match a.queue s with
  | [] => .error .badPointer
  | x :: q => do
    let (t, p, fate) ← (a.core s).exchange s.list x.td r
    if fate = .keep then return (a.keep s { x with td := p } q, t)
    return (a.retire s { x with td := p } q fate, t)

/-- Clear notification bits. -/
def clear (a : Queues) (n : BitVec 32) : Queues := { a with notify := a.notify &&& ~~~n }

/-- Serve the first ready slot, or clear the list's notification. -/
def send (a : Queues) (w : EpdList) (epd : Option EpdPtr) (r : Response) :
    Except Fault (Queues × Option Transaction) := do
  match ← a.seek w epd with
  | none => return (a.clear w.notification, none)
  | some s =>
    let (b, t) ← a.serve s r
    return (b, some t)

/-- Complete the top of the done stack, or clear its notification. -/
def processDone (a : Queues) : Queues × Option Completion :=
  match a.done with
  | [] => (a.clear notifyDone, none)
  | x :: rest => ({ a with done := rest }, some (x.td.complete x.ptr))

end Queues

/-- One operation on the queues. -/
def queuesExec (a : Queues) : HcdOp → Except Fault (Queues × HcdOut)
  | .link args => do
    let (b, g) ← a.link args
    return (b, .linked g)
  | .send w epd r => do
    let (b, t) ← a.send w epd r
    return (b, .sent t)
  | .processDoneList => .ok (a.processDone.1, .processed a.processDone.2)

/-- Finite runs of the queues. -/
abbrev QueuesRun : List HcdEvent → Queues → Prop := Run (Fires queuesExec) queuesInit

/-! ### What one operation can do -/

/-- A slot with its existence settled before a link. -/
inductive Opened (a : Queues) (s : Slot) (mps : Int) : Queues → Prop
  | old : a.Known s → Opened a s mps a
  | fresh {c : EpdCore} : ¬ a.Known s →
      hcdEpdCreate s.key.functionAddress s.key.endpointNumber mps = .ok c →
      Opened a s mps { a with
        order := Function.update a.order s.list (a.order s.list ++ [s.key])
        core := Function.update a.core s c }

/-- The transitions of the queues. -/
inductive QueueStep (a : Queues) : HcdEvent → Queues → Prop
  | link {args : LinkArgs} {b : Queues} {t : Td} :
      Opened a args.slot args.mps b → args.td = .ok t →
      QueueStep a (.link args, .linked a.nextGtd) (b.push args.slot t)
  | idle {w : EpdList} {epd : Option EpdPtr} {r : Response} :
      a.seek w epd = .ok none →
      QueueStep a (.send w epd r, .sent none) (a.clear w.notification)
  | stay {s : Slot} {epd : Option EpdPtr} {r : Response} {x : Entry} {q : List Entry}
      {t : Transaction} {p : Td} :
      a.seek s.list epd = .ok (some s) → a.queue s = x :: q →
      (a.core s).exchange s.list x.td r = .ok (t, p, .keep) →
      QueueStep a (.send s.list epd r, .sent (some t)) (a.keep s { x with td := p } q)
  | retire {s : Slot} {epd : Option EpdPtr} {r : Response} {x : Entry} {q : List Entry}
      {t : Transaction} {p : Td} {fate : Fate} :
      a.seek s.list epd = .ok (some s) → a.queue s = x :: q →
      (a.core s).exchange s.list x.td r = .ok (t, p, fate) → fate ≠ .keep →
      QueueStep a (.send s.list epd r, .sent (some t)) (a.retire s { x with td := p } q fate)
  | empty : a.done = [] →
      QueueStep a (.processDoneList, .processed none) (a.clear notifyDone)
  | complete {x : Entry} {rest : List Entry} : a.done = x :: rest →
      QueueStep a (.processDoneList, .processed (some (x.td.complete x.ptr)))
        { a with done := rest }

private theorem opened_of_ok {a b : Queues} {s : Slot} {mps : Int}
    (h : a.openSlot s mps = .ok b) : Opened a s mps b := by
  unfold Queues.openSlot at h
  split at h
  · next hk =>
    obtain rfl := Except.ok.inj h
    exact .old hk
  · next hk =>
    obtain ⟨c, hc, hb⟩ := bind_eq_ok.mp h
    obtain rfl := pure_eq_ok.mp hb
    exact .fresh hk hc

/-- Opening a slot moves no transfer. -/
theorem Opened.frame {a b : Queues} {s : Slot} {mps : Int} (h : Opened a s mps b) :
    b.queue = a.queue ∧ b.done = a.done ∧ b.nextGtd = a.nextGtd ∧ b.notify = a.notify := by
  cases h <;> exact ⟨rfl, rfl, rfl, rfl⟩

/-- The slot that seeking finds, as a search of the list's order. -/
theorem Queues.seek_some {a : Queues} {w : EpdList} {epd : Option EpdPtr} {s : Slot}
    (h : a.seek w epd = .ok (some s)) : ∃ i k,
      ((a.order w).drop i).find? (fun k ↦ a.ready ⟨w, k⟩) = some k ∧ s = ⟨w, k⟩ := by
  cases epd with
  | none => cases h
  | some i =>
    simp only [Queues.seek] at h
    split at h
    · obtain ⟨k, hk, rfl⟩ := Option.map_eq_some_iff.mp (Except.ok.inj h)
      exact ⟨i, k, hk, rfl⟩
    · cases h

/-- Where seeking finds a slot, the slot is on the list searched. -/
theorem Queues.seek_list {a : Queues} {w : EpdList} {epd : Option EpdPtr} {s : Slot}
    (h : a.seek w epd = .ok (some s)) : s.list = w := by
  obtain ⟨i, k, -, rfl⟩ := seek_some h
  rfl

/-- A slot found by seeking is ready. -/
theorem Queues.seek_ready {a : Queues} {w : EpdList} {epd : Option EpdPtr} {s : Slot}
    (h : a.seek w epd = .ok (some s)) : a.ready s = true := by
  obtain ⟨i, k, hk, rfl⟩ := seek_some h
  have hr := List.find?_some hk
  exact hr

/-- A slot found by seeking exists. -/
theorem Queues.seek_known {a : Queues} {w : EpdList} {epd : Option EpdPtr} {s : Slot}
    (h : a.seek w epd = .ok (some s)) : a.Known s := by
  obtain ⟨i, k, hk, rfl⟩ := seek_some h
  exact List.mem_of_mem_drop (List.mem_of_find?_eq_some hk)

/-- Seeking from the head finds nothing only where nothing is ready. -/
theorem Queues.seek_none {a : Queues} {w : EpdList} (h : a.seek w (some 0) = .ok none)
    {s : Slot} (hs : s.list = w) (hk : a.Known s) : a.ready s = false := by
  subst hs
  simp only [Queues.seek] at h
  split at h
  · have hnone := Option.map_eq_none_iff.mp (Except.ok.inj h)
    rw [List.drop_zero, List.find?_eq_none] at hnone
    simpa using hnone s.key hk
  · exact nomatch h

/-- Every successful operation is one of the transitions. -/
theorem queueStep_of_exec {a b : Queues} {op : HcdOp} {out : HcdOut}
    (h : queuesExec a op = .ok (b, out)) : QueueStep a (op, out) b := by
  cases op with
  | link args =>
    obtain ⟨⟨c, g⟩, hl, hb⟩ := bind_eq_ok.mp h
    cases pure_eq_ok.mp hb
    obtain ⟨d, hd, hl⟩ := bind_eq_ok.mp hl
    obtain ⟨t, ht, hl⟩ := bind_eq_ok.mp hl
    cases pure_eq_ok.mp hl
    exact .link (opened_of_ok hd) ht
  | send w epd r =>
    obtain ⟨⟨c, t⟩, hs, hb⟩ := bind_eq_ok.mp h
    cases pure_eq_ok.mp hb
    obtain ⟨s, hseek, hs⟩ := bind_eq_ok.mp hs
    cases s with
    | none =>
      cases pure_eq_ok.mp hs
      exact .idle hseek
    | some s =>
      obtain rfl := Queues.seek_list hseek
      obtain ⟨⟨d, u⟩, hserve, hs⟩ := bind_eq_ok.mp hs
      cases pure_eq_ok.mp hs
      unfold Queues.serve at hserve
      split at hserve
      · exact nomatch hserve
      · next x q hq =>
        obtain ⟨⟨u', p, fate⟩, hx, hserve⟩ := bind_eq_ok.mp hserve
        dsimp only at hserve
        split at hserve
        · next hf =>
          subst hf
          cases pure_eq_ok.mp hserve
          exact .stay hseek hq hx
        · next hf =>
          cases pure_eq_ok.mp hserve
          exact .retire hseek hq hx hf
  | processDoneList =>
    simp only [queuesExec, Except.ok.injEq, Prod.mk.injEq] at h
    obtain ⟨rfl, rfl⟩ := h
    unfold Queues.processDone
    cases hd : a.done with
    | nil => exact .empty hd
    | cons x rest => exact .complete hd

private theorem openSlot_of_opened {a b : Queues} {s : Slot} {mps : Int}
    (h : Opened a s mps b) : a.openSlot s mps = .ok b := by
  cases h with
  | old hk => exact if_pos hk
  | fresh hk hc =>
    unfold Queues.openSlot
    rw [if_neg hk, hc]
    rfl

/-- Every transition is a successful operation. -/
theorem exec_of_queueStep {a b : Queues} {e : HcdEvent} (h : QueueStep a e b) :
    queuesExec a e.1 = .ok (b, e.2) := by
  cases h with
  | link hb ht => simp [queuesExec, Queues.link, openSlot_of_opened hb, ht]
  | idle hs => simp [queuesExec, Queues.send, hs]
  | stay hs hq hx => simp [queuesExec, Queues.send, hs, Queues.serve, hq, hx]
  | retire hs hq hx hf => simp [queuesExec, Queues.send, hs, Queues.serve, hq, hx, hf]
  | empty hd => simp [queuesExec, Queues.processDone, hd]
  | complete hd => simp [queuesExec, Queues.processDone, hd]

/-! ### Well-formed queues -/

namespace Queues

/-- The addresses at a place. -/
def ptrs (a : Queues) (pl : Option Slot) : List GtdPtr := (a.place pl).map Entry.ptr

/-- Keys are unique, entries sit with their owner, and no address is in two places. -/
structure WF (a : Queues) : Prop where
  order_nodup : ∀ w, (a.order w).Nodup
  unknown : ∀ s, ¬ a.Known s → a.queue s = []
  owner : ∀ s, ∀ x ∈ a.queue s, x.owner = s
  named : ∀ s, a.Known s → (a.core s).key = s.key
  nodup : ∀ pl, (a.ptrs pl).Nodup
  disjoint : ∀ pl pl', pl ≠ pl' → ∀ g ∈ a.ptrs pl, g ∉ a.ptrs pl'
  bound : ∀ pl, ∀ g ∈ a.ptrs pl, g < a.nextGtd

variable {a : Queues}

/-- Opening a slot keeps every entry where it is. -/
theorem place_opened {s : Slot} {mps : Int} {b : Queues} (hb : Opened a s mps b)
    (pl : Option Slot) : b.place pl = a.place pl := by
  obtain ⟨hq, hd, -, -⟩ := hb.frame
  cases pl with
  | none => exact hd
  | some s' => exact congrFun hq s'

/-- Opening a slot keeps every address where it is. -/
theorem ptrs_opened {s : Slot} {mps : Int} {b : Queues} (hb : Opened a s mps b)
    (pl : Option Slot) : b.ptrs pl = a.ptrs pl :=
  congrArg (List.map Entry.ptr) (place_opened hb pl)

/-- An address names one entry in one place. -/
theorem WF.apart (h : a.WF) {pl pl' : Option Slot} {x y : Entry} (hx : x ∈ a.place pl)
    (hy : y ∈ a.place pl') (hp : x.ptr = y.ptr) : pl = pl' ∧ x = y := by
  have hpl : pl = pl' := by
    by_contra hne
    refine h.disjoint pl pl' hne x.ptr (List.mem_map_of_mem hx) ?_
    rw [hp]
    exact List.mem_map_of_mem hy
  subst hpl
  exact ⟨rfl, List.inj_on_of_nodup_map (h.nodup pl) hx hy hp⟩

/-- The empty queues are well formed. -/
theorem wf_init : WF queuesInit where
  order_nodup _ := List.nodup_nil
  unknown _ _ := rfl
  owner _ _ hx := nomatch hx
  named _ hs := nomatch hs
  nodup pl := by cases pl <;> exact List.nodup_nil
  disjoint pl _ _ _ hg := by cases pl <;> exact nomatch hg
  bound pl _ hg := by cases pl <;> exact nomatch hg

/-- A new descriptor is behind the others of its endpoint. -/
theorem ptrs_push (s : Slot) (t : Td) (pl : Option Slot) : (a.push s t).ptrs pl =
    if pl = some s then a.ptrs pl ++ [a.nextGtd] else a.ptrs pl := by
  cases pl with
  | none => rfl
  | some s' =>
    by_cases hs : s' = s
    · subst hs
      simp [ptrs, place, push]
    · simp [ptrs, place, push, hs]

/-- A descriptor that stays is where it was. -/
theorem ptrs_keep {s : Slot} {x x' : Entry} {q : List Entry} (hq : a.queue s = x :: q)
    (hx : x'.ptr = x.ptr) (pl : Option Slot) : (a.keep s x' q).ptrs pl = a.ptrs pl := by
  cases pl with
  | none => rfl
  | some s' =>
    by_cases hs : s' = s
    · subst hs
      simp [ptrs, place, keep, hq, hx]
    · simp [ptrs, place, keep, hs]

/-- A retired descriptor moves from its endpoint to the done list. -/
theorem ptrs_retire {s : Slot} {x x' : Entry} {q : List Entry} {fate : Fate}
    (hx : x'.ptr = x.ptr) (pl : Option Slot) :
    (a.retire s x' q fate).ptrs pl =
      if pl = some s then q.map Entry.ptr
      else if pl = none then x.ptr :: a.ptrs none else a.ptrs pl := by
  cases pl with
  | none => simp [ptrs, place, retire, hx]
  | some s' =>
    by_cases hs : s' = s
    · subst hs
      simp [ptrs, place, retire]
    · simp [ptrs, place, retire, hs]

/-- Opening an endpoint that is not known keeps the queues well formed. -/
theorem WF.fresh_open (h : a.WF) {s : Slot} {c : EpdCore} (hs : ¬ a.Known s)
    (hc : c.key = s.key) : WF { a with
      order := Function.update a.order s.list (a.order s.list ++ [s.key])
      core := Function.update a.core s c } where
  order_nodup w := by
    change (Function.update a.order s.list (a.order s.list ++ [s.key]) w).Nodup
    by_cases hw : w = s.list
    · subst hw
      rw [Function.update_self, List.nodup_append]
      refine ⟨h.order_nodup _, List.nodup_singleton _, ?_⟩
      intro k hk k' hk' he
      obtain rfl := List.mem_singleton.mp hk'
      rw [he] at hk
      exact hs hk
    · rw [Function.update_of_ne hw]
      exact h.order_nodup w
  unknown s' hs' := by
    refine h.unknown s' fun hk ↦ hs' ?_
    simp only [Known, Function.update_apply] at hk ⊢
    split
    · next hl => rw [hl] at hk; exact List.mem_append_left _ hk
    · exact hk
  owner := h.owner
  named s' hs' := by
    by_cases he : s' = s
    · subst he
      simpa using hc
    · simp only [Function.update_of_ne he]
      refine h.named s' ?_
      simp only [Known, Function.update_apply] at hs' ⊢
      split at hs'
      · next hl =>
        rcases List.mem_append.mp hs' with hk | hk
        · rwa [hl]
        · exact absurd (by cases s'; cases s; simp_all) he
      · exact hs'
  nodup := h.nodup
  disjoint := h.disjoint
  bound := h.bound

/-- The key of a created descriptor. -/
theorem key_hcdEpdCreate {addr ep mps : Int} {c : EpdCore}
    (h : hcdEpdCreate addr ep mps = .ok c) : c.key = ⟨addr, ep⟩ := by
  unfold hcdEpdCreate at h
  split at h
  · obtain rfl := Except.ok.inj h
    rfl
  · exact nomatch h

/-- Looking an endpoint up, or opening it, keeps the queues well formed. -/
theorem WF.opened (h : a.WF) {s : Slot} {mps : Int} {b : Queues} (hb : Opened a s mps b) :
    b.WF ∧ b.Known s := by
  cases hb with
  | old hk => exact ⟨h, hk⟩
  | fresh hk hc =>
    refine ⟨h.fresh_open hk (key_hcdEpdCreate hc), ?_⟩
    simp [Known]

/-- Linking a descriptor keeps the queues well formed. -/
theorem WF.push (h : a.WF) {s : Slot} (hs : a.Known s) (t : Td) : (a.push s t).WF where
  order_nodup := h.order_nodup
  unknown s' hs' := by
    have hne : s' ≠ s := fun he ↦ hs' (he ▸ hs)
    simpa [Queues.push, hne] using h.unknown s' hs'
  owner s' x hx := by
    by_cases he : s' = s
    · subst he
      simp only [Queues.push, Function.update_self, List.mem_append, List.mem_singleton] at hx
      rcases hx with hx | rfl
      · exact h.owner s' x hx
      · rfl
    · simp only [Queues.push, Function.update_of_ne he] at hx
      exact h.owner s' x hx
  named s' hs' := by
    by_cases he : s' = s
    · subst he
      simpa [Queues.push, EpdCore.key] using h.named s' hs'
    · simpa [Queues.push, he] using h.named s' hs'
  nodup pl := by
    rw [ptrs_push]
    split
    · refine List.nodup_append.mpr ⟨h.nodup pl, List.nodup_singleton _, ?_⟩
      intro g hg g' hg'
      obtain rfl := List.mem_singleton.mp hg'
      exact Nat.ne_of_lt (h.bound pl g hg)
    · exact h.nodup pl
  disjoint pl pl' hne g hg hg' := by
    have hb := h.bound pl
    have hb' := h.bound pl'
    have hd := h.disjoint pl pl' hne g
    rw [ptrs_push] at hg hg'
    -- the fresh address is in no old place
    split at hg <;> split at hg'
    · next h1 h2 => exact hne (h1.trans h2.symm)
    · rcases List.mem_append.mp hg with hg | hg
      · exact hd hg hg'
      · rw [List.mem_singleton.mp hg] at hg'
        exact Nat.lt_irrefl _ (hb' _ hg')
    · rcases List.mem_append.mp hg' with hg' | hg'
      · exact hd hg hg'
      · rw [List.mem_singleton.mp hg'] at hg
        exact Nat.lt_irrefl _ (hb _ hg)
    · exact hd hg hg'
  bound pl g hg := by
    rw [ptrs_push] at hg
    have hb := h.bound pl g
    change g < a.nextGtd + 1
    split at hg
    · rcases List.mem_append.mp hg with hg | hg
      · exact Nat.lt_succ_of_lt (hb hg)
      · exact List.mem_singleton.mp hg ▸ Nat.lt_succ_self _
    · exact Nat.lt_succ_of_lt (hb hg)

/-- A transaction that leaves its descriptor queued keeps the queues well formed. -/
theorem WF.keep (h : a.WF) {s : Slot} {x x' : Entry} {q : List Entry}
    (hq : a.queue s = x :: q) (hp : x'.ptr = x.ptr) (ho : x'.owner = x.owner) :
    (a.keep s x' q).WF where
  order_nodup := h.order_nodup
  unknown s' hs' := by
    have hne : s' ≠ s := by
      rintro rfl
      have := h.unknown s' hs'
      simp [hq] at this
    simpa [Queues.keep, hne] using h.unknown s' hs'
  owner s' y hy := by
    by_cases he : s' = s
    · subst he
      simp only [Queues.keep, Function.update_self, List.mem_cons] at hy
      rcases hy with rfl | hy
      · rw [ho]
        exact h.owner s' x (by simp [hq])
      · exact h.owner s' y (by simp [hq, hy])
    · simp only [Queues.keep, Function.update_of_ne he] at hy
      exact h.owner s' y hy
  named := h.named
  nodup pl := by rw [ptrs_keep hq hp]; exact h.nodup pl
  disjoint pl pl' hne g := by
    rw [ptrs_keep hq hp, ptrs_keep hq hp]
    exact h.disjoint pl pl' hne g
  bound pl g := by
    rw [ptrs_keep hq hp]
    exact h.bound pl g

/-- Retiring a descriptor keeps the queues well formed. -/
theorem WF.retire (h : a.WF) {s : Slot} {x x' : Entry} {q : List Entry} {fate : Fate}
    (hq : a.queue s = x :: q) (hp : x'.ptr = x.ptr) : (a.retire s x' q fate).WF where
  order_nodup := h.order_nodup
  unknown s' hs' := by
    have hne : s' ≠ s := by
      rintro rfl
      have := h.unknown s' hs'
      simp [hq] at this
    simpa [Queues.retire, hne] using h.unknown s' hs'
  owner s' y hy := by
    by_cases he : s' = s
    · subst he
      simp only [Queues.retire, Function.update_self] at hy
      exact h.owner s' y (by simp [hq, hy])
    · simp only [Queues.retire, Function.update_of_ne he] at hy
      exact h.owner s' y hy
  named s' hs' := by
    by_cases he : s' = s
    · subst he
      simpa [Queues.retire] using h.named s' hs'
    · simpa [Queues.retire, he] using h.named s' hs'
  nodup pl := by
    have hs : (x.ptr :: q.map Entry.ptr).Nodup := by simpa [ptrs, place, hq] using h.nodup (some s)
    rw [ptrs_retire hp]
    split
    · exact (List.nodup_cons.mp hs).2
    · split
      · refine List.nodup_cons.mpr ⟨?_, h.nodup none⟩
        exact h.disjoint (some s) none nofun _ (by simp [ptrs, place, hq])
      · exact h.nodup pl
  disjoint pl pl' hne g hg hg' := by
    have hs : x.ptr ∉ q.map Entry.ptr := by
      have := h.nodup (some s)
      simp only [ptrs, place, hq, List.map_cons, List.nodup_cons] at this
      exact this.1
    have hxs : x.ptr ∈ a.ptrs (some s) := by simp [ptrs, place, hq]
    have hqs : ∀ g ∈ q.map Entry.ptr, g ∈ a.ptrs (some s) := by
      intro g hg
      simp only [ptrs, place, hq, List.map_cons]
      exact List.mem_cons_of_mem _ hg
    rw [ptrs_retire hp] at hg hg'
    -- the moved address leaves the slot and joins the done stack
    by_cases h1 : pl = some s
    · subst h1
      rw [if_pos rfl] at hg
      rw [if_neg (Ne.symm hne)] at hg'
      split at hg'
      · rcases List.mem_cons.mp hg' with rfl | hg'
        · exact hs hg
        · exact h.disjoint (some s) none nofun g (hqs g hg) hg'
      · exact h.disjoint (some s) pl' hne g (hqs g hg) hg'
    · rw [if_neg h1] at hg
      by_cases h2 : pl' = some s
      · subst h2
        rw [if_pos rfl] at hg'
        split at hg
        · rcases List.mem_cons.mp hg with rfl | hg
          · exact hs hg'
          · exact h.disjoint none (some s) nofun g hg (hqs g hg')
        · exact h.disjoint pl (some s) hne g hg (hqs g hg')
      · rw [if_neg h2] at hg'
        split at hg <;> split at hg'
        · next h3 h4 => exact hne (h3.trans h4.symm)
        · next h3 h4 =>
          rcases List.mem_cons.mp hg with rfl | hg
          · exact h.disjoint (some s) pl' (Ne.symm h2) _ hxs hg'
          · exact h.disjoint none pl' (Ne.symm h4) g hg hg'
        · next h3 h4 =>
          rcases List.mem_cons.mp hg' with rfl | hg'
          · exact h.disjoint (some s) pl (Ne.symm h1) _ hxs hg
          · exact h.disjoint none pl (Ne.symm h3) g hg' hg
        · exact h.disjoint pl pl' hne g hg hg'
  bound pl g hg := by
    have hb := h.bound (some s)
    simp only [ptrs, place, hq, List.map_cons, List.mem_cons, forall_eq_or_imp] at hb
    rw [ptrs_retire hp] at hg
    change g < a.nextGtd
    split at hg
    · exact hb.2 g hg
    · split at hg
      · rcases List.mem_cons.mp hg with rfl | hg
        · exact hb.1
        · exact h.bound none g hg
      · exact h.bound pl g hg

/-- Processing the done list keeps the queues well formed. -/
theorem WF.complete (h : a.WF) {x : Entry} {rest : List Entry} (hd : a.done = x :: rest) :
    WF { a with done := rest } := by
  have hsub : ∀ pl, (ptrs { a with done := rest } pl).Sublist (a.ptrs pl) := by
    intro pl
    cases pl with
    | none => simp [ptrs, place, hd]
    | some s => exact List.Sublist.refl _
  exact {
    order_nodup := h.order_nodup
    unknown := h.unknown
    owner := h.owner
    named := h.named
    nodup := fun pl ↦ (h.nodup pl).sublist (hsub pl)
    disjoint := fun pl pl' hne g hg hg' ↦
      h.disjoint pl pl' hne g ((hsub pl).subset hg) ((hsub pl').subset hg')
    bound := fun pl g hg ↦ h.bound pl g ((hsub pl).subset hg) }

/-- Clearing notifications keeps the queues well formed. -/
theorem WF.clear (h : a.WF) (n : BitVec 32) : (a.clear n).WF :=
  ⟨h.order_nodup, h.unknown, h.owner, h.named, h.nodup, h.disjoint, h.bound⟩

/-- Pushing adds one entry, to its slot. -/
theorem mem_push {s : Slot} {t : Td} {pl : Option Slot} {x : Entry}
    (hx : x ∈ (a.push s t).place pl) :
    x ∈ a.place pl ∨ pl = some s ∧ x = ⟨a.nextGtd, s, t⟩ := by
  cases pl with
  | none => exact .inl hx
  | some s' =>
    change x ∈ Function.update a.queue s _ s' at hx
    rw [Function.update_apply] at hx
    split at hx
    · next hs =>
      subst hs
      rcases List.mem_append.mp hx with hx | hx
      · exact .inl hx
      · exact .inr ⟨rfl, List.mem_singleton.mp hx⟩
    · exact .inl hx

/-- A link adds one entry, to its slot. -/
theorem mem_link {s : Slot} {mps : Int} {b : Queues} {t : Td} {pl : Option Slot} {x : Entry}
    (hb : Opened a s mps b) (hx : x ∈ (b.push s t).place pl) :
    x ∈ a.place pl ∨ pl = some s ∧ x = ⟨a.nextGtd, s, t⟩ := by
  obtain ⟨-, -, hnext, -⟩ := hb.frame
  have hadd := mem_push hx
  rwa [place_opened hb, hnext] at hadd

/-- The head of a queue is neither behind itself nor in another place. -/
theorem WF.mem_place_ne (h : a.WF) {s : Slot} {x y : Entry} {q : List Entry} {pl : Option Slot}
    (hq : a.queue s = x :: q) (hy : y ∈ if pl = some s then q else a.place pl) :
    y ∈ a.place pl ∧ y ≠ x := by
  have hx : x ∈ a.place (some s) := by
    rw [place, hq]
    exact List.mem_cons_self
  split at hy
  · next hpl =>
    subst hpl
    refine ⟨?_, ?_⟩
    · rw [place, hq]
      exact List.mem_cons_of_mem _ hy
    · rintro rfl
      have hnd := h.nodup (some s)
      rw [ptrs, place, hq, List.map_cons, List.nodup_cons] at hnd
      exact hnd.1 (List.mem_map_of_mem hy)
  · next hpl =>
    refine ⟨hy, ?_⟩
    rintro rfl
    exact hpl (h.apart hy hx rfl).1

/-- Keeping the head of a queue changes that entry only. -/
theorem WF.mem_keep (h : a.WF) {s : Slot} {x x' y : Entry} {q : List Entry} {pl : Option Slot}
    (hq : a.queue s = x :: q) (hy : y ∈ (a.keep s x' q).place pl) :
    pl = some s ∧ y = x' ∨ y ∈ a.place pl ∧ y ≠ x := by
  cases pl with
  | none => exact .inr (h.mem_place_ne hq (by rwa [if_neg (Option.some_ne_none s).symm]))
  | some s' =>
    change y ∈ Function.update a.queue s (x' :: q) s' at hy
    rw [Function.update_apply] at hy
    by_cases hs : s' = s
    · subst hs
      rw [if_pos rfl] at hy
      rcases List.mem_cons.mp hy with rfl | hy
      · exact .inl ⟨rfl, rfl⟩
      · exact .inr (h.mem_place_ne hq (by rwa [if_pos rfl]))
    · rw [if_neg hs] at hy
      exact .inr (h.mem_place_ne hq (by rwa [if_neg fun he ↦ hs (Option.some.inj he)]))

/-- Retiring the head of a queue moves that entry only. -/
theorem WF.mem_retire (h : a.WF) {s : Slot} {x x' y : Entry} {q : List Entry} {fate : Fate}
    {pl : Option Slot} (hq : a.queue s = x :: q) (hy : y ∈ (a.retire s x' q fate).place pl) :
    pl = none ∧ y = x' ∨ y ∈ a.place pl ∧ y ≠ x := by
  cases pl with
  | none =>
    rcases List.mem_cons.mp hy with rfl | hy
    · exact .inl ⟨rfl, rfl⟩
    · exact .inr (h.mem_place_ne hq (by rwa [if_neg (Option.some_ne_none s).symm]))
  | some s' =>
    change y ∈ Function.update a.queue s q s' at hy
    rw [Function.update_apply] at hy
    exact .inr (h.mem_place_ne hq (by simpa only [place, Option.some.injEq] using hy))

/-- A transaction names the slot it was made on. -/
theorem WF.transaction_slot (h : a.WF) {s : Slot} {epd : Option EpdPtr} {x : Entry} {r : Response}
    {t : Transaction} {p : Td} {fate : Fate} (hs : a.seek s.list epd = .ok (some s))
    (hx : (a.core s).exchange s.list x.td r = .ok (t, p, fate)) : t.slot = s := by
  obtain ⟨k, -, -, rfl⟩ := EpdCore.exchange_ok hx
  have hk : (a.core s).key = s.key := h.named s (seek_known hs)
  rw [Transaction.slot, hk]

/-- Every transition keeps the queues well formed. -/
theorem WF.step (h : a.WF) {e : HcdEvent} {b : Queues} (hs : QueueStep a e b) : b.WF := by
  cases hs with
  | link hb _ =>
    obtain ⟨hwf, hk⟩ := h.opened hb
    exact hwf.push hk _
  | idle _ => exact h.clear _
  | stay _ hq _ => exact h.keep hq rfl rfl
  | retire _ hq _ _ => exact h.retire hq rfl
  | empty _ => exact h.clear _
  | complete hd => exact h.complete hd

end Queues

/-- Every reachable state of the queues is well formed. -/
theorem QueuesRun.wf {es : List HcdEvent} {a : Queues} (h : QueuesRun es a) : a.WF := by
  refine Run.invariant (P := fun _ a ↦ a.WF) Queues.wf_init ?_ h
  intro _ _ _ _ _ hwf he
  exact hwf.step (queueStep_of_exec he)

end BiMpp.Host
