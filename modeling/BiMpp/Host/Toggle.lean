import Mathlib.Algebra.BigOperators.Group.List.Basic
import Mathlib.Algebra.GroupWithZero.Nat
import BiMpp.Host.Fifo
import BiMpp.Host.Reassembly

/-!
# The data toggle

A descriptor that asks for its endpoint's toggle takes `toggleCarry` when it is first
attempted, flips it with every ACK, and puts it back when an ACK retires it; an error or a
STALL retires it without. One `toggleCarry` serves both directions of an endpoint number:
`hcd_gtd_send`, `bi-mpp-pic24-usb-simulator-master/src/hcd.c:172–241`.
-/

namespace BiMpp.Host
open BiMpp.Usb BiMpp.Base

/-! ### What is to be shown -/

/-- The data pid after `n` packets that began with DATA0. -/
def toggled (n : Nat) : UsbPid := if n % 2 = 0 then .data0 else .data1

/-- DATA0, DATA1, DATA0, ... -/
def Alternates (pids : List UsbPid) : Prop := pids = (List.range pids.length).map toggled

instance (pids : List UsbPid) : Decidable (Alternates pids) := inferInstanceAs (Decidable (_ = _))

/-- An acknowledged data packet in a direction. -/
def Transaction.isData (dirIn : Bool) (t : Transaction) : Bool :=
  t.response.isAck && t.packet.pid != .setup && t.packet.dirIn == dirIn

/-- The data pids of the packets acknowledged at an endpoint in one direction. -/
def dataPids (s : Slot) (dirIn : Bool) (es : List HcdEvent) : List UsbPid :=
  ((transactionsOn s es).filter (Transaction.isData dirIn)).map fun t ↦ t.packet.pid

/-- The ACKs among a list of transactions. -/
def acksOf (ts : List Transaction) : Nat := ts.countP fun t ↦ t.response.isAck

/-- The packets acknowledged at an endpoint that are no data packets in one direction: those
in the other, and SETUPs. -/
def acksBeside (s : Slot) (dirIn : Bool) (es : List HcdEvent) : Nat :=
  acksOf ((transactionsOn s es).filter fun t ↦ !t.isData dirIn)

/-- The device stalled a descriptor or failed it three times. -/
def Failed (ts : List Transaction) : Prop := (∃ t ∈ ts, t.response = .stall) ∨ 2 < errorsOf ts

instance (ts : List Transaction) : Decidable (Failed ts) := inferInstanceAs (Decidable (_ ∨ _))

/-- The packets of a descriptor that were acknowledged before it failed. -/
def lostOf (ts : List Transaction) : Nat := if Failed ts then acksOf ts else 0

/-- The packets acknowledged at an endpoint in descriptors that failed. -/
def acksLost (s : Slot) (es : List HcdEvent) : Nat :=
  ((linkedTo s es).map fun g ↦ lostOf (transactionsOf g es)).sum

/-! ### Counting -/

section Counting

variable {ts : List Transaction} {t : Transaction}

/-- The acknowledgements of two lists of transactions. -/
theorem acksOf_append (ts ts' : List Transaction) : acksOf (ts ++ ts') = acksOf ts + acksOf ts' :=
  List.countP_append

/-- The acknowledgements of one transaction. -/
theorem acksOf_singleton (t : Transaction) :
    acksOf [t] = if t.response.isAck then 1 else 0 :=
  List.countP_singleton ..

private theorem failed_snoc (ts : List Transaction) (t : Transaction) : Failed (ts ++ [t]) ↔
    Failed ts ∨ t.response = .stall ∨ 2 < errorsOf (ts ++ [t]) := by
  have hmono := errorsOf_snoc ts t
  constructor
  · rintro (⟨u, hu, hstall⟩ | hmany)
    · rcases List.mem_append.mp hu with hu | hu
      · exact .inl (.inl ⟨u, hu, hstall⟩)
      · exact .inr (.inl (List.mem_singleton.mp hu ▸ hstall))
    · exact .inr (.inr hmany)
  · rintro ((⟨u, hu, hstall⟩ | hmany) | hstall | hmany)
    · exact .inl ⟨u, List.mem_append_left _ hu, hstall⟩
    · exact .inr (by omega)
    · exact .inl ⟨t, by simp, hstall⟩
    · exact .inr hmany

private theorem alive_snoc (h : ¬ Failed ts) (hstall : t.response ≠ .stall)
    (hfew : errorsOf (ts ++ [t]) ≤ 2) : ¬ Failed (ts ++ [t]) := by
  rw [failed_snoc]
  rintro (hf | hf | hf)
  · exact h hf
  · exact hstall hf
  · omega

/-- The packets acknowledged at an endpoint: the data packets in a direction, and the others. -/
theorem acksOn_eq (s : Slot) (dirIn : Bool) (es : List HcdEvent) :
    acksOf (transactionsOn s es) = (dataPids s dirIn es).length + acksBeside s dirIn es := by
  unfold dataPids acksBeside
  rw [List.length_map]
  induction transactionsOn s es with
  | nil => rfl
  | cons t ts ih =>
    have hcons : ∀ l : List Transaction,
        acksOf (t :: l) = acksOf l + if t.response.isAck then 1 else 0 :=
      fun l ↦ List.countP_cons ..
    rw [hcons, ih]
    cases hd : t.isData dirIn with
    | true =>
      have hack : t.response.isAck = true := by
        unfold Transaction.isData at hd
        simp only [Bool.and_eq_true] at hd
        exact hd.1.1
      simp [hd, hack]
      omega
    | false =>
      simp [hd, hcons]
      omega

private theorem sum_map_change {l : List Nat} (hnd : l.Nodup) {g : Nat} (hg : g ∈ l)
    (f f' : Nat → Nat) (hsame : ∀ x ∈ l, x ≠ g → f' x = f x) (hzero : f g = 0) :
    (l.map f').sum = (l.map f).sum + f' g := by
  rw [← List.sum_map_erase f' hg, ← List.sum_map_erase f hg, hzero]
  have hrest : (l.erase g).map f' = (l.erase g).map f := by
    refine List.map_congr_left fun x hx ↦ ?_
    obtain ⟨hne, hx⟩ := hnd.mem_erase_iff.mp hx
    exact hsame x hx hne
  rw [hrest]
  omega

end Counting

/-! ### The toggle as a parity -/

/-- The toggle bit of a number of packets. -/
def parity (n : Nat) : BitVec 32 := BitVec.ofNat 32 (n % 2)

private theorem parity_congr {m n : Nat} (h : m % 2 = n % 2) : parity m = parity n := by
  unfold parity
  rw [h]

private theorem parity_and_one (n : Nat) : parity n &&& 1 = parity n := by
  unfold parity
  rcases Nat.mod_two_eq_zero_or_one n with h | h <;> rw [h] <;> rfl

private theorem parity_and_two (n : Nat) : parity n &&& 2 = 0 := by
  unfold parity
  rcases Nat.mod_two_eq_zero_or_one n with h | h <;> rw [h] <;> rfl

private theorem parity_xor_one (n : Nat) : parity n ^^^ 1 = parity (n + 1) := by
  unfold parity
  rcases Nat.mod_two_eq_zero_or_one n with h | h
  · have hs : (n + 1) % 2 = 1 := by omega
    rw [h, hs]
    rfl
  · have hs : (n + 1) % 2 = 0 := by omega
    rw [h, hs]
    rfl

private theorem dataPid_parity {p : Td} {n : Nat} (h : p.dataToggle = parity n) :
    p.dataPid = toggled n := by
  unfold Td.dataPid toggled
  rw [h, parity_and_one, parity]
  rcases Nat.mod_two_eq_zero_or_one n with hn | hn <;> rw [hn] <;> rfl

private theorem choosePacket_pid {c : EpdCore} {p : Td} {k : Packet}
    (h : choosePacket c p = .ok k) : k.pid = .setup ∨ k.pid = p.dataPid := by
  unfold choosePacket at h
  split at h
  · split at h
    · obtain rfl := Except.ok.inj h
      exact .inl rfl
    · cases h
  · obtain rfl := Except.ok.inj h
    exact .inr rfl
  · obtain rfl := Except.ok.inj h
    exact .inr rfl

/-! ### One descriptor -/

/-- The descriptor being served after `n` packets of its endpoint, with the transactions `ts`:
its toggle counts all of them, the endpoint's only those of the descriptors before. -/
structure Serving (n : Nat) (carry : BitVec 32) (ts : List Transaction) (p : Td) : Prop where
  toggle : p.dataToggle = parity n
  carry : carry = parity (n + acksOf ts)
  errors : p.errorCount = errorsOf ts
  alive : ¬ Failed ts

private theorem Serving.kept {n : Nat} {carry : BitVec 32} {ts : List Transaction} {p p' : Td}
    {t : Transaction} (h : Serving n carry ts p) (htoggle : p'.dataToggle = parity (n + acksOf [t]))
    (herrors : p'.errorCount = errorsOf (ts ++ [t])) (halive : ¬ Failed (ts ++ [t])) :
    Serving (n + acksOf [t] + lostOf (ts ++ [t])) carry (ts ++ [t]) p' := by
  rw [lostOf, if_neg halive]
  refine ⟨htoggle, ?_, herrors, halive⟩
  rw [h.carry, acksOf_append]
  exact parity_congr (by omega)

private theorem Serving.exchange {n : Nat} {c : EpdCore} {ts : List Transaction} {p p' : Td}
    {w : EpdList} {r : Response} {t : Transaction} {fate : Fate}
    (h : Serving n c.toggleCarry ts (p.loadToggle c.toggleCarry))
    (hx : c.exchange w p r = .ok (t, p', fate)) :
    (t.packet.pid = .setup ∨ t.packet.pid = toggled n) ∧
      if fate = .keep then
        Serving (n + acksOf [t] + lostOf (ts ++ [t])) c.toggleCarry (ts ++ [t]) p'
      else (c.settle p' fate).toggleCarry = parity (n + acksOf [t] + lostOf (ts ++ [t])) := by
  obtain ⟨k, hk, hr, ht⟩ := EpdCore.exchange_ok hx
  generalize p.loadToggle c.toggleCarry = q at h hk hr ht
  have hkt : t.packet = k := by rw [ht]
  have hrt : t.response = r := by rw [ht]
  have hpid := choosePacket_pid hk
  rw [dataPid_parity h.toggle, ← hkt] at hpid
  refine ⟨hpid, ?_⟩
  have hfew : errorsOf ts ≤ 2 := Nat.le_of_not_lt fun hmany ↦ h.alive (.inr hmany)
  have herrs := errorsOf_snoc ts t
  have hone := acksOf_singleton t
  rw [hrt] at herrs hone
  -- after a failure the packets of the descriptor no longer count
  have hfail : acksOf [t] = 0 → Failed (ts ++ [t]) →
      c.toggleCarry = parity (n + acksOf [t] + lostOf (ts ++ [t])) := by
    intro hnone hf
    rw [h.carry, lostOf, if_pos hf, acksOf_append, hnone]
    rfl
  cases r with
  | ack rlen bytes =>
    replace herrs : errorsOf (ts ++ [t]) = errorsOf ts := herrs
    replace hone : acksOf [t] = 1 := hone
    have halive := alive_snoc h.alive (by rw [hrt]; simp) (herrs ▸ hfew)
    obtain ⟨rfl, hfate⟩ := Prod.mk.inj hr
    have hflip : (q.advance k rlen bytes).dataToggle = parity (n + acksOf [t]) := by
      show q.dataToggle ^^^ 1 = _
      rw [h.toggle, parity_xor_one, hone]
    split at hfate
    · subst hfate
      rw [if_neg (by decide), lostOf, if_neg halive]
      show (q.advance k rlen bytes).dataToggle &&& 1 = _
      rw [hflip, parity_and_one]
      rfl
    · subst hfate
      rw [if_pos rfl]
      exact h.kept hflip (h.errors.trans herrs.symm) halive
  | nak =>
    replace herrs : errorsOf (ts ++ [t]) = errorsOf ts := herrs
    replace hone : acksOf [t] = 0 := hone
    have halive := alive_snoc h.alive (by rw [hrt]; simp) (herrs ▸ hfew)
    obtain ⟨rfl, rfl⟩ := Prod.mk.inj hr
    rw [if_pos rfl]
    exact h.kept (by rw [hone]; exact h.toggle) (h.errors.trans herrs.symm) halive
  | err =>
    replace herrs : errorsOf (ts ++ [t]) = errorsOf ts + 1 := herrs
    replace hone : acksOf [t] = 0 := hone
    rw [Td.respond] at hr
    split at hr
    · next htwo =>
      obtain ⟨rfl, rfl⟩ := Prod.mk.inj hr
      rw [if_neg (by decide)]
      have htwo' := h.errors ▸ htwo
      exact hfail hone ((failed_snoc ts t).mpr (.inr (.inr (by omega))))
    · next hne =>
      obtain ⟨rfl, rfl⟩ := Prod.mk.inj hr
      rw [if_pos rfl]
      have hne' := h.errors ▸ hne
      have halive := alive_snoc h.alive (by rw [hrt]; simp) (by omega)
      refine h.kept (by rw [hone]; exact h.toggle) ?_ halive
      show q.errorCount + 1 = _
      rw [h.errors, herrs]
  | stall =>
    replace hone : acksOf [t] = 0 := hone
    obtain ⟨rfl, rfl⟩ := Prod.mk.inj hr
    rw [if_neg (by decide)]
    exact hfail hone ((failed_snoc ts t).mpr (.inr (.inl hrt)))

/-! ### One endpoint -/

/-- A queued descriptor that asks for the toggle and was not attempted yet. -/
structure Untried (es : List HcdEvent) (x : Entry) : Prop where
  toggle : x.td.dataToggle = 2
  errors : x.td.errorCount = 0
  transactions : transactionsOf x.ptr es = []

/-- A queue after `n` packets of its endpoint: only its head was attempted. -/
def Line (es : List HcdEvent) (n : Nat) (carry : BitVec 32) : List Entry → Prop
  | [] => carry = parity n
  | x :: q => (Untried es x ∧ carry = parity n ∨ Serving n carry (transactionsOf x.ptr es) x.td) ∧
      ∀ y ∈ q, Untried es y

/-- The packets that the toggle of an endpoint counts: those acknowledged, and once more those
of the descriptors that failed. -/
def counted (s : Slot) (es : List HcdEvent) : Nat := acksOf (transactionsOn s es) + acksLost s es

/-- The toggle of an endpoint, and those of the descriptors queued at it. -/
structure Toggling (s : Slot) (es : List HcdEvent) (a : Queues) : Prop where
  fresh : ¬ a.Known s → (a.core s).toggleCarry = 0
  line : Line es (counted s es) (a.core s).toggleCarry (a.queue s)

namespace Line

variable {es : List HcdEvent} {n : Nat} {carry : BitVec 32} {x : Entry} {q : List Entry}

/-- An untried descriptor takes the endpoint's toggle. -/
theorem serving (h : Line es n carry (x :: q)) :
    Serving n carry (transactionsOf x.ptr es) (x.td.loadToggle carry) := by
  rcases h.1 with ⟨hx, hcarry⟩ | hx
  · rw [hx.transactions]
    have hload : x.td.loadToggle carry = { x.td with dataToggle := carry } :=
      if_pos (by rw [hx.toggle]; decide)
    rw [hload]
    exact ⟨hcarry, hcarry, hx.errors, by simp [Failed, errorsOf]⟩
  · rw [Td.loadToggle_eq _ (by rw [hx.toggle, parity_and_two])]
    exact hx

/-- Nothing is served at the endpoint. -/
theorem frame {es' : List HcdEvent} (h : Line es n carry q)
    (hsame : ∀ x ∈ q, transactionsOf x.ptr es' = transactionsOf x.ptr es) :
    Line es' n carry q := by
  have huntried : ∀ x ∈ q, Untried es x → Untried es' x :=
    fun x hx hu ↦ ⟨hu.toggle, hu.errors, (hsame x hx).trans hu.transactions⟩
  cases q with
  | nil => exact h
  | cons x q =>
    refine ⟨?_, fun y hy ↦ huntried y (List.mem_cons_of_mem _ hy) (h.2 y hy)⟩
    rw [hsame x List.mem_cons_self]
    exact h.1.imp (fun hx ↦ ⟨huntried x List.mem_cons_self hx.1, hx.2⟩) id

/-- A new descriptor goes behind the others. -/
theorem snoc (h : Line es n carry q) (hx : Untried es x) : Line es n carry (q ++ [x]) := by
  cases q with
  | nil => exact ⟨.inl ⟨hx, h⟩, fun y hy ↦ (List.not_mem_nil hy).elim⟩
  | cons y q =>
    refine ⟨h.1, fun z hz ↦ ?_⟩
    rcases List.mem_append.mp hz with hz | hz
    · exact h.2 z hz
    · rw [List.mem_singleton.mp hz]
      exact hx

/-- The head is gone, and the endpoint has the toggle for the next. -/
theorem next (h : ∀ y ∈ q, Untried es y) (hcarry : carry = parity n) : Line es n carry q := by
  cases q with
  | nil => exact hcarry
  | cons y q =>
    exact ⟨.inl ⟨h y List.mem_cons_self, hcarry⟩, fun z hz ↦ h z (List.mem_cons_of_mem _ hz)⟩

end Line

namespace Toggling

variable {s : Slot} {es : List HcdEvent} {a b : Queues} {e : HcdEvent}

/-- The toggle of an endpoint that was never addressed is zero. -/
theorem init (s : Slot) : Toggling s [] queuesInit where
  fresh _ := rfl
  line := rfl

private theorem linkedTo_nodup (hl : Ledger es a) : (linkedTo s es).Nodup := by
  have hnd : ((links es).map Prod.fst).Nodup := by
    rw [hl.issued]
    exact List.nodup_range
  exact hnd.sublist (List.filter_sublist.map _)

private theorem not_linkedTo (hl : Ledger es a) {s' : Slot} {x : Entry} (hx : x ∈ a.queue s')
    (hne : s' ≠ s) : x.ptr ∉ linkedTo s es := by
  intro hmem
  obtain ⟨⟨g, args⟩, hlink, hg⟩ := List.mem_map.mp hmem
  obtain ⟨hlink, hslot⟩ := List.mem_filter.mp hlink
  obtain rfl : g = x.ptr := hg
  obtain ⟨args', hlink', hslot', -⟩ := hl.entry (some s') x hx
  obtain rfl := hl.linked_unique hlink hlink'
  rw [hl.wf.owner s' x hx] at hslot'
  exact hne (hslot'.symm.trans (of_decide_eq_true hslot))

private theorem counted_none (hatt : Attended es a) (htrans : HcdEvent.transaction e = none)
    (hlink : linkedTo s (es ++ [e]) = linkedTo s es ∨
      linkedTo s (es ++ [e]) = linkedTo s es ++ [a.nextGtd]) :
    counted s (es ++ [e]) = counted s es := by
  unfold counted acksLost
  have hsame : ∀ l : List GtdPtr, (l.map fun g ↦ lostOf (transactionsOf g (es ++ [e]))) =
      l.map fun g ↦ lostOf (transactionsOf g es) := by
    intro l
    exact List.map_congr_left fun g _ ↦ by rw [transactionsOf_none g es htrans]
  rw [transactionsOn_none s es htrans, hsame]
  rcases hlink with hlink | hlink
  · rw [hlink]
  · have hnew : lostOf (transactionsOf a.nextGtd es) = 0 := by
      rw [hatt.fresh _ (Nat.le_refl _)]
      rfl
    rw [hlink, List.map_append, List.sum_append, List.map_singleton, List.sum_singleton, hnew]
    rfl

private theorem frame (h : Toggling s es a) (hcount : counted s (es ++ [e]) = counted s es)
    (hknown : a.Known s → b.Known s) (hcarry : (b.core s).toggleCarry = (a.core s).toggleCarry)
    (hqueue : b.queue s = a.queue s)
    (hsame : ∀ x ∈ a.queue s, transactionsOf x.ptr (es ++ [e]) = transactionsOf x.ptr es) :
    Toggling s (es ++ [e]) b where
  fresh hno := hcarry.trans (h.fresh fun hk ↦ hno (hknown hk))
  line := by
    rw [hcount, hcarry, hqueue]
    exact h.line.frame hsame

private theorem carry_link (hfresh : ¬ a.Known s → (a.core s).toggleCarry = 0) {s' : Slot}
    {mps : Int} {t : Td} (hb : Opened a s' mps b) :
    ((b.push s' t).core s).toggleCarry = (a.core s).toggleCarry := by
  have hopen : (b.core s).toggleCarry = (a.core s).toggleCarry := by
    cases hb with
    | old _ => rfl
    | @fresh c hnew hc =>
      show (Function.update a.core s' c s).toggleCarry = _
      rw [Function.update_apply]
      split
      · next hs =>
        rw [hs] at hfresh ⊢
        rw [hfresh hnew]
        unfold hcdEpdCreate at hc
        split at hc
        · cases hc
          rfl
        · cases hc
      · rfl
  show (Function.update b.core s' _ s).toggleCarry = _
  rw [Function.update_apply, ← hopen]
  split
  · next hs => rw [hs]
  · rfl

private theorem link (h : Toggling s es a) (hatt : Attended es a) {args : LinkArgs} {t : Td}
    (hatt' : Attended (es ++ [(.link args, .linked a.nextGtd)]) (b.push args.slot t))
    (hb : Opened a args.slot args.mps b) (ht : args.td = .ok t)
    (hknown : a.Known s → (b.push args.slot t).Known s)
    (htoggle : args.slot = s → args.toggle = 2) :
    Toggling s (es ++ [(.link args, .linked a.nextGtd)]) (b.push args.slot t) := by
  have hcarry := carry_link (t := t) h.fresh hb
  have hnone : ∀ g, transactionsOf g (es ++ [(.link args, .linked a.nextGtd)]) =
      transactionsOf g es := fun g ↦ transactionsOf_none g es rfl
  have hqueue : (b.push args.slot t).queue s =
      if s = args.slot then a.queue s ++ [⟨a.nextGtd, args.slot, t⟩] else a.queue s := by
    obtain ⟨hq, -, hnext, -⟩ := hb.frame
    show Function.update b.queue args.slot _ s = _
    rw [Function.update_apply, hq, hnext]
    split
    · next hs => rw [hs]
    · rfl
  by_cases hs : args.slot = s
  · have hcount : counted s (es ++ [(.link args, .linked a.nextGtd)]) = counted s es :=
      counted_none hatt rfl (.inr (by rw [linkedTo_link, if_pos hs]))
    refine ⟨fun hno ↦ (hno ?_).elim, ?_⟩
    · rw [← hs]
      exact hatt'.known (a.nextGtd, args) (by rw [links_link]; simp)
    · rw [hcount, hcarry, hqueue, if_pos hs.symm]
      refine (h.line.frame fun x _ ↦ hnone x.ptr).snoc ?_
      obtain ⟨pid, rfl⟩ := LinkArgs.td_ok ht
      refine ⟨htoggle hs, rfl, ?_⟩
      rw [hnone]
      exact hatt.fresh _ (Nat.le_refl _)
  · have hcount : counted s (es ++ [(.link args, .linked a.nextGtd)]) = counted s es :=
      counted_none hatt rfl (.inl (by rw [linkedTo_link, if_neg hs]))
    exact h.frame hcount hknown hcarry (by rw [hqueue, if_neg (Ne.symm hs)]) fun x _ ↦ hnone x.ptr

private theorem counted_served (hl : Ledger es a) (hatt : Attended es a) {x : Entry}
    {q : List Entry} {t : Transaction} {epd : Option EpdPtr} {r : Response}
    (hq : a.queue s = x :: q) (hslot : t.slot = s) (halive : ¬ Failed (transactionsOf x.ptr es)) :
    counted s (es ++ [(.send s.list epd r, .sent (some t))]) =
      counted s es + acksOf [t] + lostOf (transactionsOf x.ptr es ++ [t]) := by
  have hserved : ∀ g, transactionsOf g (es ++ [(.send s.list epd r, .sent (some t))]) =
      if x.ptr = g then transactionsOf g es ++ [t] else transactionsOf g es :=
    fun g ↦ Attended.served hatt.pending g hq hslot
  have hmem : x.ptr ∈ linkedTo s es := by
    refine (hl.order s).subset ?_
    rw [Queues.ptrs, Queues.place, hq]
    exact List.mem_cons_self
  have hsum : ((linkedTo s es).map fun g ↦
        lostOf (transactionsOf g (es ++ [(.send s.list epd r, .sent (some t))]))).sum =
      acksLost s es + lostOf (transactionsOf x.ptr es ++ [t]) := by
    refine (sum_map_change (linkedTo_nodup hl) hmem (fun g ↦ lostOf (transactionsOf g es)) _
      (fun g _ hne ↦ ?_) (if_neg halive)).trans ?_
    · rw [hserved, if_neg (Ne.symm hne)]
    · rw [hserved, if_pos rfl]
      rfl
  unfold counted
  rw [transactionsOn_snoc, HcdEvent.transactionOn_send, if_pos hslot, Option.toList_some,
    acksOf_append, acksLost, linkedTo_send, hsum]
  omega

private theorem counted_other (hl : Ledger es a) (hatt : Attended es a) {s' : Slot} (hne : s' ≠ s)
    {x : Entry} {q : List Entry} {t : Transaction} {epd : Option EpdPtr} {r : Response}
    (hq : a.queue s' = x :: q) (hslot : t.slot = s') :
    counted s (es ++ [(.send s'.list epd r, .sent (some t))]) = counted s es := by
  have hserved : ∀ g, transactionsOf g (es ++ [(.send s'.list epd r, .sent (some t))]) =
      if x.ptr = g then transactionsOf g es ++ [t] else transactionsOf g es :=
    fun g ↦ Attended.served hatt.pending g hq hslot
  have hx : x ∈ a.queue s' := hq ▸ List.mem_cons_self
  unfold counted acksLost
  rw [transactionsOn_snoc, HcdEvent.transactionOn_send, if_neg (fun h ↦ hne (hslot.symm.trans h)),
    Option.toList_none, List.append_nil, linkedTo_send]
  congr 2
  refine List.map_congr_left fun g hg ↦ ?_
  have hg' : x.ptr ≠ g := fun h ↦ not_linkedTo hl hx hne (h ▸ hg)
  rw [hserved, if_neg hg']

private theorem head_ne (hl : Ledger es a) {s' : Slot} {x y : Entry} {q : List Entry}
    (pl : Option Slot) (hq : a.queue s' = x :: q)
    (hy : y ∈ if pl = some s' then q else a.place pl) : x.ptr ≠ y.ptr := by
  obtain ⟨hy, hne⟩ := hl.wf.mem_place_ne hq hy
  have hx : x ∈ a.place (some s') := by
    rw [Queues.place, hq]
    exact List.mem_cons_self
  intro hg
  exact hne (hl.wf.apart hy hx hg.symm).2

-- A transaction on the endpoint: its pid is told by what was counted, and what it counts is right
-- for the next.
private theorem serve (h : Toggling s es a) (hl : Ledger es a) (hatt : Attended es a)
    (epd : Option EpdPtr) {x : Entry} {q : List Entry} {r : Response} {t : Transaction} {p : Td}
    {fate : Fate} (hq : a.queue s = x :: q) (hslot : t.slot = s)
    (hx : (a.core s).exchange s.list x.td r = .ok (t, p, fate)) :
    (t.packet.pid = .setup ∨ t.packet.pid = toggled (counted s es)) ∧
      (∀ y ∈ q, Untried (es ++ [(.send s.list epd r, .sent (some t))]) y) ∧
      if fate = .keep then
        Line (es ++ [(.send s.list epd r, .sent (some t))])
          (counted s (es ++ [(.send s.list epd r, .sent (some t))])) (a.core s).toggleCarry
          ({ x with td := p } :: q)
      else ((a.core s).settle p fate).toggleCarry =
        parity (counted s (es ++ [(.send s.list epd r, .sent (some t))])) := by
  have hserved : ∀ g, transactionsOf g (es ++ [(.send s.list epd r, .sent (some t))]) =
      if x.ptr = g then transactionsOf g es ++ [t] else transactionsOf g es :=
    fun g ↦ Attended.served hatt.pending g hq hslot
  have hline := h.line
  rw [hq] at hline
  have hserving := hline.serving
  obtain ⟨hpid, hnext⟩ := hserving.exchange hx
  rw [counted_served hl hatt hq hslot hserving.alive]
  have hrest : ∀ y ∈ q, Untried (es ++ [(.send s.list epd r, .sent (some t))]) y := by
    intro y hy
    have hy' := hline.2 y hy
    have hne : x.ptr ≠ y.ptr := head_ne hl (some s) hq (by rwa [if_pos rfl])
    refine ⟨hy'.toggle, hy'.errors, ?_⟩
    rw [hserved, if_neg hne]
    exact hy'.transactions
  refine ⟨hpid, hrest, ?_⟩
  split
  · next hf =>
    rw [if_pos hf] at hnext
    refine ⟨.inr ?_, hrest⟩
    rw [hserved, if_pos rfl]
    exact hnext
  · next hf =>
    rw [if_neg hf] at hnext
    exact hnext

private theorem step (h : Toggling s es a) (hl : Ledger es a) (hatt : Attended es a)
    (hatt' : Attended (es ++ [e]) b) (hs : QueueStep a e b)
    (htoggle : ∀ l ∈ links (es ++ [e]), l.2.slot = s → l.2.toggle = 2) :
    Toggling s (es ++ [e]) b := by
  have hknown : a.Known s → b.Known s := fun hk ↦ (core_step hs hk).1
  have hquiet : HcdEvent.transaction e = none → linkedTo s (es ++ [e]) = linkedTo s es →
      b.core s = a.core s → b.queue s = a.queue s → Toggling s (es ++ [e]) b :=
    fun htrans hlink hcore hqueue ↦ h.frame (counted_none hatt htrans (.inl hlink)) hknown
      (by rw [hcore]) hqueue fun x _ ↦ transactionsOf_none x.ptr es htrans
  -- a transaction on another endpoint
  have hother : ∀ {s' : Slot} {epd : Option EpdPtr} {r : Response} {x : Entry} {q : List Entry}
      {t : Transaction}, s' ≠ s → a.queue s' = x :: q → t.slot = s' →
      e = (.send s'.list epd r, .sent (some t)) → b.core s = a.core s → b.queue s = a.queue s →
      Toggling s (es ++ [e]) b := by
    rintro s' epd r x q t hne hq hslot rfl hcore hqueue
    refine h.frame (counted_other hl hatt hne hq hslot) hknown (by rw [hcore]) hqueue ?_
    intro y hy
    have hptr : x.ptr ≠ y.ptr := by
      refine head_ne hl (some s) hq ?_
      rwa [if_neg fun h ↦ hne (Option.some.inj h).symm]
    rw [Attended.served hatt.pending y.ptr hq hslot, if_neg hptr]
  cases hs with
  | @link args b₀ t hb ht =>
    exact h.link hatt hatt' hb ht hknown (htoggle (a.nextGtd, args) (by rw [links_link]; simp))
  | idle _ => exact hquiet rfl (linkedTo_send ..) rfl rfl
  | @stay s' epd r x q t p hseek hq hx =>
    have hslot := hl.wf.transaction_slot hseek hx
    by_cases hs : s' = s
    · subst hs
      obtain ⟨-, -, hnext⟩ := h.serve hl hatt epd hq hslot hx
      refine ⟨fun hno ↦ h.fresh fun hk ↦ hno (hknown hk), ?_⟩
      show Line _ _ (a.core s').toggleCarry (Function.update a.queue s' _ s')
      rw [Function.update_self]
      exact hnext
    · exact hother hs hq hslot rfl rfl (Function.update_of_ne (Ne.symm hs) ..)
  | @retire s' epd r x q t p fate hseek hq hx hf =>
    have hslot := hl.wf.transaction_slot hseek hx
    by_cases hs : s' = s
    · subst hs
      obtain ⟨-, hrest, hcarry⟩ := h.serve hl hatt epd hq hslot hx
      rw [if_neg hf] at hcarry
      refine ⟨fun hno ↦ (hno ?_).elim, ?_⟩
      · refine hknown ?_
        by_contra hnone
        rw [hl.wf.unknown s' hnone] at hq
        cases hq
      · show Line _ _ (Function.update a.core s' _ s').toggleCarry
          (Function.update a.queue s' _ s')
        rw [Function.update_self, Function.update_self]
        exact Line.next hrest hcarry
    · exact hother hs hq hslot rfl (Function.update_of_ne (Ne.symm hs) ..)
        (Function.update_of_ne (Ne.symm hs) ..)
  | empty _ => exact hquiet rfl (linkedTo_process ..) rfl rfl
  | complete _ => exact hquiet rfl (linkedTo_process ..) rfl rfl

end Toggling

/-! ### Every run -/

section Run

variable {s : Slot} {dirIn : Bool} {es : List HcdEvent}

/-- The toggles are right in every reachable state. -/
theorem QueuesRun.toggling {a : Queues} (h : QueuesRun es a)
    (htoggle : ∀ l ∈ links es, l.2.slot = s → l.2.toggle = 2) : Toggling s es a := by
  refine Run.invariant (P := fun es a ↦ (∀ l ∈ links es, l.2.slot = s → l.2.toggle = 2) →
    Toggling s es a) ?_ ?_ h htoggle
  · exact fun _ ↦ Toggling.init s
  · intro es a e b hrun ih hfire htoggle
    have hpast := ih fun l hl ↦ htoggle l (by rw [links_snoc]; exact List.mem_append_left _ hl)
    exact hpast.step (QueuesRun.ledger hrun) (QueuesRun.attended hrun)
      (QueuesRun.attended (.snoc hrun hfire)) (queueStep_of_exec hfire) htoggle

/-- The pid of every packet is told by what was counted before it. -/
theorem QueuesRun.pid {a : Queues} (h : QueuesRun es a)
    (htoggle : ∀ l ∈ links es, l.2.slot = s → l.2.toggle = 2) {past : List HcdEvent} {e : HcdEvent}
    {t : Transaction} (hp : past ++ [e] <+: es) (ht : HcdEvent.transactionOn s e = some t) :
    t.packet.pid = .setup ∨ t.packet.pid = toggled (counted s past) := by
  obtain ⟨rest, rfl⟩ := hp
  rw [List.append_assoc, List.singleton_append] at h htoggle
  obtain ⟨a₁, a₂, hrun, hfire, -⟩ := Run.fired h
  have htoggling : Toggling s past a₁ := by
    refine QueuesRun.toggling hrun fun l hl ↦ htoggle l ?_
    unfold links at hl ⊢
    rw [List.filterMap_append]
    exact List.mem_append_left _ hl
  have hl := QueuesRun.ledger hrun
  have hatt := QueuesRun.attended hrun
  obtain ⟨ht, hslot⟩ := Option.filter_eq_some_iff.mp ht
  have hslot : t.slot = s := of_decide_eq_true hslot
  have hs : QueueStep a₁ e a₂ := queueStep_of_exec hfire
  cases hs with
  | link => cases ht
  | idle => cases ht
  | stay hseek hq hx =>
    cases ht
    obtain rfl := (hl.wf.transaction_slot hseek hx).symm.trans hslot
    exact (htoggling.serve hl hatt none hq hslot hx).1
  | retire hseek hq hx _ =>
    cases ht
    obtain rfl := (hl.wf.transaction_slot hseek hx).symm.trans hslot
    exact (htoggling.serve hl hatt none hq hslot hx).1
  | empty => cases ht
  | complete => cases ht

private theorem dataPids_snoc (s : Slot) (dirIn : Bool) (es : List HcdEvent) (e : HcdEvent) :
    dataPids s dirIn (es ++ [e]) = dataPids s dirIn es ++
      ((HcdEvent.transactionOn s e).toList.filter (Transaction.isData dirIn)).map
        fun t ↦ t.packet.pid := by
  unfold dataPids
  rw [transactionsOn_snoc, List.filter_append, List.map_append]

private theorem toggled_eq_iff {m n : Nat} : toggled m = toggled n ↔ m % 2 = n % 2 := by
  unfold toggled
  rcases Nat.mod_two_eq_zero_or_one m with hm | hm <;>
    rcases Nat.mod_two_eq_zero_or_one n with hn | hn <;> simp [hm, hn]

private theorem alternates_snoc {l : List UsbPid} {pid : UsbPid} :
    Alternates (l ++ [pid]) ↔ Alternates l ∧ pid = toggled l.length := by
  unfold Alternates
  rw [List.length_append, List.length_singleton, List.range_succ, List.map_append,
    List.map_singleton]
  constructor
  · intro h
    obtain ⟨hl, hp⟩ := List.append_inj' h rfl
    exact ⟨hl, List.singleton_inj.mp hp⟩
  · rintro ⟨hl, hp⟩
    rw [← hl, hp]

-- Where every pid is the parity of what was counted, the data pids of a direction alternate
-- exactly if nothing odd was counted beside them.
private theorem alternates_iff_even (htold : ∀ past e t, past ++ [e] <+: es →
      HcdEvent.transactionOn s e = some t →
      t.packet.pid = .setup ∨ t.packet.pid = toggled (counted s past)) :
    Alternates (dataPids s dirIn es) ↔ ∀ past e t, past ++ [e] <+: es →
      HcdEvent.transactionOn s e = some t → t.isData dirIn = true →
      (acksBeside s dirIn past + acksLost s past) % 2 = 0 := by
  induction es using List.reverseRecOn with
  | nil => exact iff_of_true rfl fun past e t hp ↦ by simp at hp
  | append_singleton es e ih =>
    have ih := ih fun past e' t hp ↦
      htold past e' t (hp.trans (List.prefix_append es [e]))
    have hlast : (∀ past e' t, past ++ [e'] <+: es ++ [e] → HcdEvent.transactionOn s e' = some t →
        t.isData dirIn = true → (acksBeside s dirIn past + acksLost s past) % 2 = 0) ↔
        (∀ past e' t, past ++ [e'] <+: es → HcdEvent.transactionOn s e' = some t →
          t.isData dirIn = true → (acksBeside s dirIn past + acksLost s past) % 2 = 0) ∧
        ∀ t, HcdEvent.transactionOn s e = some t → t.isData dirIn = true →
          (acksBeside s dirIn es + acksLost s es) % 2 = 0 := by
      constructor
      · exact fun h ↦ ⟨fun past e' t hp ↦ h past e' t (hp.trans (List.prefix_append es [e])),
          fun t ↦ h es e t List.prefix_rfl⟩
      · rintro ⟨hpast, hnow⟩ past e' t hp
        rcases prefix_snoc hp with ⟨rfl, rfl⟩ | hp
        · exact hnow t
        · exact hpast past e' t hp
    rw [hlast, ← ih, dataPids_snoc]
    cases ht : HcdEvent.transactionOn s e with
    | none => simp
    | some t =>
      cases hdata : t.isData dirIn with
      | false => simp [hdata]
      | true =>
        have hpid : t.packet.pid = toggled (counted s es) := by
          refine (htold es e t List.prefix_rfl ht).resolve_left fun hsetup ↦ ?_
          unfold Transaction.isData at hdata
          simp [hsetup] at hdata
        rw [Option.toList_some, List.filter_cons_of_pos hdata, List.filter_nil, List.map_singleton,
          alternates_snoc, hpid, toggled_eq_iff, counted, acksOn_eq s dirIn es]
        have hparity : ((dataPids s dirIn es).length + acksBeside s dirIn es + acksLost s es) % 2 =
            (dataPids s dirIn es).length % 2 ↔
            (acksBeside s dirIn es + acksLost s es) % 2 = 0 := by omega
        rw [hparity]
        simp [hdata]

/-- At an endpoint whose descriptors all ask for its toggle, the data pids acknowledged in a
direction alternate if and only if, at each of them, the packets acknowledged before in the
other direction and those acknowledged in descriptors that failed add up to an even number. -/
theorem HcdRun.alternates_iff {h : Hcd} (hrun : HcdRun es h) (s : Slot) (dirIn : Bool)
    (htoggle : ∀ l ∈ links es, l.2.slot = s → l.2.toggle = 2) :
    Alternates (dataPids s dirIn es) ↔ ∀ past e t, past ++ [e] <+: es →
      HcdEvent.transactionOn s e = some t → t.isData dirIn = true →
      (acksBeside s dirIn past + acksLost s past) % 2 = 0 := by
  obtain ⟨q, hq, -⟩ := hrun.queues
  exact alternates_iff_even fun past e t hp ht ↦ QueuesRun.pid hq htoggle hp ht

private def readFour : LinkArgs := ⟨1, 2, true, false, 2, 2, [0, 0, 0, 0], 4, ⟨10, 4⟩⟩

/-- Three packets of an IN endpoint are DATA0, DATA1 and DATA0. -/
theorem HcdRun.alternates_iff_example : ∃ es h, HcdRun es h ∧
    dataPids readFour.slot true es = [.data0, .data1, .data0] ∧
    ∀ past e t, past ++ [e] <+: es → HcdEvent.transactionOn readFour.slot e = some t →
      t.isData true = true →
      (acksBeside readFour.slot true past + acksLost readFour.slot past) % 2 = 0 := by
  have hcheck : runsTo hcdExec hcdInit
      [.link readFour, .link readFour, .send .bulk (some 0) (.ack 2 [5, 6]),
        .send .bulk (some 0) .err, .send .bulk (some 0) (.ack 2 [7, 8]),
        .send .bulk (some 0) .nak, .send .bulk (some 0) (.ack 1 [9])]
      (fun _ es ↦ decide (dataPids readFour.slot true es = [.data0, .data1, .data0] ∧
        ∀ l ∈ links es, l.2.slot = readFour.slot → l.2.toggle = 2)) = true := by decide +kernel
  obtain ⟨es, h, hrun, hp⟩ := Run.of_runsTo hcheck
  obtain ⟨hpids, htoggle⟩ := of_decide_eq_true hp
  refine ⟨es, h, hrun, hpids, (HcdRun.alternates_iff hrun readFour.slot true htoggle).mp ?_⟩
  rw [hpids]
  decide

/-- A STALL after one packet takes the toggle back: the next transfer begins with the pid of
the packet before it. -/
theorem HcdRun.toggle_repeated : ¬ ∀ es h, HcdRun es h → ∀ s dirIn,
    (∀ l ∈ links es, l.2.slot = s → l.2.toggle = 2) → Alternates (dataPids s dirIn es) := by
  intro hall
  have hcheck : runsTo hcdExec hcdInit
      [.link readFour, .send .bulk (some 0) (.ack 2 [5, 6]), .send .bulk (some 0) .stall,
        .link readFour, .send .bulk (some 0) (.ack 2 [5, 6])]
      (fun _ es ↦ decide (dataPids readFour.slot true es = [.data0, .data0] ∧
        ∀ l ∈ links es, l.2.slot = readFour.slot → l.2.toggle = 2)) = true := by decide +kernel
  obtain ⟨es, h, hrun, hp⟩ := Run.of_runsTo hcheck
  obtain ⟨hpids, htoggle⟩ := of_decide_eq_true hp
  have halt := hall es h hrun readFour.slot true htoggle
  rw [hpids] at halt
  exact absurd halt (by decide)

end Run

end BiMpp.Host
