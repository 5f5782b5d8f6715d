import BiMpp.Host.Reassembly

/-!
# Writing out of a buffer

An OUT descriptor offers what is left of its buffer in pieces of the endpoint's packet size,
from the first byte that was not accepted on, until all are: `hcd_gtd_send` and the length
that `hcd_process_done_list` computes, `bi-mpp-pic24-usb-simulator-master/src/hcd.c:159–269`.
-/

namespace BiMpp.Host
open BiMpp.Usb BiMpp.Base

/-! ### What is to be shown -/

/-- The bytes of an OUT transaction that the device accepted. -/
def Transaction.accepted (t : Transaction) : List UInt8 :=
  match t.response with
  | .ack rlen _ => t.offered.take rlen.toNat
  | _ => []

/-- The bytes accepted in a list of transactions, in order. -/
def acceptedBytes (ts : List Transaction) : List UInt8 := ts.flatMap Transaction.accepted

/-- The responses that end a transfer of `n` bytes after `past`: one that accepts the last of
them, the third error, a STALL. -/
def Exhausts (n : Int) (past : List Transaction) : Response → Prop
  | .ack rlen _ => (acceptedBytes past).length + rlen = n
  | .nak => False
  | .err => errorsOf past = 2
  | .stall => True

/-- The transactions of an OUT descriptor linked with `a` on an endpoint with packets of `m`:
each offers the next bytes not accepted yet, the same packet follows a NAK or an error, the
descriptor is retired by the first response that ends the transfer, an empty buffer takes one
empty packet, and what was accepted is the buffer as far as it goes. -/
structure Segments (a : LinkArgs) (m : Int) (ts : List Transaction) : Prop where
  offers : ∀ past t, past ++ [t] <+: ts →
    (∃ pid, t.packet = ⟨a.endpoint, false, pid, min m (a.size - (acceptedBytes past).length)⟩) ∧
      t.offered = (a.data.drop (acceptedBytes past).length).take t.packet.size.toNat
  repeats : ∀ past t t', past ++ [t, t'] <+: ts → t.response = .nak ∨ t.response = .err →
    t'.packet = t.packet ∧ t'.offered = t.offered
  retires : ∀ past t, past ++ [t] <+: ts → (t.retired.isSome ↔ Exhausts a.size past t.response)
  last : ∀ past t, past ++ [t] <+: ts → t.retired.isSome → ts = past ++ [t]
  empty : a.size = 0 → ∀ past t, past ++ [t] <+: ts → t.response.isAck = true →
    (∀ u ∈ past, u.response.isAck = false) ∧ t.packet.size = 0 ∧ t.retired.isSome
  pieces : ((acceptedBytes ts).length : Int) ≤ a.size ∧
    acceptedBytes ts = a.data.take (acceptedBytes ts).length

/-- No transaction takes no bytes. -/
@[simp] theorem acceptedBytes_nil : acceptedBytes [] = [] := rfl

private theorem acceptedBytes_snoc (ts : List Transaction) (t : Transaction) :
    acceptedBytes (ts ++ [t]) = acceptedBytes ts ++ t.accepted := by
  simp [acceptedBytes]

/-- Only an ACK accepts bytes. -/
theorem Transaction.accepted_quiet {t : Transaction} (h : t.response.isAck = false) :
    t.accepted = [] := by
  unfold accepted
  split
  · next hr =>
    rw [hr] at h
    cases h
  · rfl

namespace Segments

variable {a : LinkArgs} {m : Int} {ts : List Transaction} {t : Transaction}

/-- No bytes have been sent before the first transaction. -/
theorem nil (h : 0 ≤ a.size) : Segments a m [] := by
  constructor
  case offers =>
    intro past t hp
    simp at hp
  case repeats =>
    intro past t t' hp
    simp at hp
  case retires =>
    intro past t hp
    simp at hp
  case last =>
    intro past t hp
    simp at hp
  case empty =>
    intro _ past t hp
    simp at hp
  case pieces => exact ⟨by simpa using h, by simp⟩

private theorem emptyPacket (h : Segments a m ts) (hzero : a.size = 0)
    (hoffer : ∃ pid, t.packet =
      ⟨a.endpoint, false, pid, min m (a.size - (acceptedBytes ts).length)⟩)
    (hret : t.retired.isSome ↔ Exhausts a.size ts t.response) (hfits : t.response.Fits t.packet)
    (hack : t.response.isAck = true) : t.packet.size = 0 ∧ t.retired.isSome := by
  obtain ⟨pid, hpacket⟩ := hoffer
  have hnone := h.pieces.1
  have hsize : t.packet.size = min m (a.size - (acceptedBytes ts).length) := by rw [hpacket]
  cases hr : t.response with
  | ack rlen bytes =>
    rw [hr] at hfits hret
    obtain ⟨hpos, hle, -⟩ := hfits
    refine ⟨by omega, hret.mpr ?_⟩
    show ((acceptedBytes ts).length : Int) + rlen = a.size
    omega
  | _ =>
    rw [hr] at hack
    cases hack

/-- One more transaction, none before it having retired the descriptor. -/
theorem snoc (h : Segments a m ts) (hun : ∀ u ∈ ts, u.retired = none)
    (hoffer : (∃ pid, t.packet =
        ⟨a.endpoint, false, pid, min m (a.size - (acceptedBytes ts).length)⟩) ∧
      t.offered = (a.data.drop (acceptedBytes ts).length).take t.packet.size.toNat)
    (hrep : ∀ past u, ts = past ++ [u] → u.response = .nak ∨ u.response = .err →
      t.packet = u.packet)
    (hret : t.retired.isSome ↔ Exhausts a.size ts t.response)
    (hpieces : ((acceptedBytes (ts ++ [t])).length : Int) ≤ a.size ∧
      acceptedBytes (ts ++ [t]) = a.data.take (acceptedBytes (ts ++ [t])).length)
    (hfits : t.response.Fits t.packet) : Segments a m (ts ++ [t]) := by
  constructor
  case offers =>
    intro past u hp
    rcases prefix_snoc hp with ⟨rfl, rfl⟩ | hp
    · exact hoffer
    · exact h.offers past u hp
  case repeats =>
    intro past u u' hp hu
    rw [List.append_cons] at hp
    rcases prefix_snoc hp with ⟨hts, rfl⟩ | hp
    · have hpacket := hrep past u hts.symm hu
      have hquiet : u.response.isAck = false := by
        rcases hu with hu | hu <;> rw [hu] <;> rfl
      have hsame : acceptedBytes ts = acceptedBytes past := by
        rw [← hts, acceptedBytes_snoc, Transaction.accepted_quiet hquiet, List.append_nil]
      refine ⟨hpacket, ?_⟩
      rw [hoffer.2, hpacket, hsame, (h.offers past u (hts ▸ List.prefix_rfl)).2]
    · rw [List.append_assoc] at hp
      exact h.repeats past u u' hp hu
  case retires =>
    intro past u hp
    rcases prefix_snoc hp with ⟨rfl, rfl⟩ | hp
    · exact hret
    · exact h.retires past u hp
  case last =>
    intro past u hp hu
    rcases prefix_snoc hp with ⟨rfl, rfl⟩ | hp
    · rfl
    · rw [hun u (hp.subset (by simp))] at hu
      cases hu
  case empty =>
    intro hzero past u hp hack
    rcases prefix_snoc hp with ⟨rfl, rfl⟩ | hp
    · refine ⟨?_, emptyPacket h hzero hoffer.1 hret hfits hack⟩
      intro v hv
      by_contra hvack
      obtain ⟨l₁, l₂, hsplit⟩ := List.append_of_mem hv
      have hpre : l₁ ++ [v] <+: past := ⟨l₂, by rw [hsplit, List.append_assoc]; rfl⟩
      have hvret := (h.empty hzero l₁ v hpre (by simpa using hvack)).2.2
      rw [hun v hv] at hvret
      cases hvret
    · exact h.empty hzero past u hp hack
  case pieces => exact hpieces

end Segments

/-! ### One descriptor through its transactions -/

/-- An OUT descriptor with its buffer and what of it was accepted. -/
structure Offering (a : LinkArgs) (ts : List Transaction) (p : Td) : Prop where
  urb : p.urb = a.urb
  bufferEnd : p.bufferEnd + 1 = a.size
  pointer : p.currentBufferPointer = ((acceptedBytes ts).length : Int)
  data : p.data = a.data

/-- A queued OUT descriptor between two transactions. -/
structure Sending (a : LinkArgs) (m : Int) (ts : List Transaction) (p : Td) : Prop
    extends Offering a ts p where
  history : Segments a m ts
  unretired : ∀ t ∈ ts, t.retired = none
  pid : p.pid = .out
  errors : p.errorCount = errorsOf ts
  toggle : ts ≠ [] → p.dataToggle &&& 2 = 0
  again : ∀ past t, ts = past ++ [t] → t.response = .nak ∨ t.response = .err →
    p.dataPid = t.packet.pid

/-- A retired OUT descriptor. -/
structure Sent (a : LinkArgs) (m : Int) (ts : List Transaction) (p : Td) : Prop
    extends Offering a ts p where
  history : Segments a m ts
  retired : ∃ t ∈ ts, t.retired.isSome

section Exchange

variable {a : LinkArgs} {m : Int} {ts : List Transaction} {t : Transaction} {p p' q : Td}

private theorem sending_create (hout : a.dir = false) (hsetup : a.setup = false)
    (hsized : a.Sized) (ht : a.td = .ok p) : Sending a m [] p := by
  have hpid : a.pid = .ok .out := by simp [LinkArgs.pid, hsetup, hout]
  rw [LinkArgs.td, hpid] at ht
  cases ht
  constructor
  · constructor
    · rfl
    · simp [hcdGtdCreate]
    · rfl
    · rfl
  · exact Segments.nil hsized.1
  · intro t ht
    cases ht
  · rfl
  · rfl
  · intro hne
    exact (hne rfl).elim
  · intro past t h
    simp at h

/-- Loading the toggle moves nothing. -/
theorem Offering.load (h : Offering a ts p) (carry : BitVec 32) :
    Offering a ts (p.loadToggle carry) := by
  have hload := Td.loaded p carry
  constructor
  · rw [hload.urb, h.urb]
  · rw [hload.bufferEnd, h.bufferEnd]
  · rw [hload.pointer, h.pointer]
  · rw [hload.data, h.data]

private theorem Offering.packet (h : Offering a ts q) (hpid : q.pid = .out) {c : EpdCore}
    {k : Packet} (hep : c.endpointNumber = a.endpoint) (hk : choosePacket c q = .ok k) :
    k = ⟨a.endpoint, false, q.dataPid,
        min c.maximumPacketSize (a.size - (acceptedBytes ts).length)⟩ ∧
      q.offered k = (a.data.drop (acceptedBytes ts).length).take k.size.toNat := by
  have hlen : q.buflen = a.size - (acceptedBytes ts).length := by
    rw [Td.buflen, h.pointer, ← h.bufferEnd]
    omega
  rw [choosePacket, hpid, hlen, hep] at hk
  obtain rfl := Except.ok.inj hk
  refine ⟨rfl, ?_⟩
  rw [Td.offered, if_neg Bool.false_ne_true, h.data, h.pointer, Int.toNat_natCast]

/-- What is accepted of a packet is the next piece of the buffer. -/
theorem pieces_snoc (hsized : a.Sized)
    (h : ((acceptedBytes ts).length : Int) ≤ a.size ∧
      acceptedBytes ts = a.data.take (acceptedBytes ts).length)
    (hoffered : t.offered = (a.data.drop (acceptedBytes ts).length).take t.packet.size.toNat)
    (hsize : t.packet.size ≤ a.size - (acceptedBytes ts).length)
    (hfits : t.response.Fits t.packet) :
    (((acceptedBytes (ts ++ [t])).length : Int) ≤ a.size ∧
      acceptedBytes (ts ++ [t]) = a.data.take (acceptedBytes (ts ++ [t])).length) ∧
      ∀ rlen bytes, t.response = .ack rlen bytes →
        ((acceptedBytes (ts ++ [t])).length : Int) = (acceptedBytes ts).length + rlen := by
  rw [acceptedBytes_snoc]
  cases hr : t.response with
  | ack rlen bytes =>
    rw [hr] at hfits
    obtain ⟨hpos, hle, -⟩ := hfits
    have hacc : t.accepted = (a.data.drop (acceptedBytes ts).length).take rlen.toNat := by
      unfold Transaction.accepted
      rw [hr]
      show t.offered.take rlen.toNat = _
      rw [hoffered, List.take_take]
      congr 1
      omega
    have hlen : t.accepted.length = rlen.toNat := by
      have hdata := hsized.2.2
      rw [hacc, List.length_take, List.length_drop]
      omega
    refine ⟨⟨?_, ?_⟩, ?_⟩
    · rw [List.length_append, hlen]
      omega
    · rw [List.length_append, hlen, List.take_add, ← h.2, hacc]
    · intro rlen' bytes' he
      obtain ⟨rfl, -⟩ := Response.ack.inj he
      rw [List.length_append, hlen]
      omega
  | _ =>
    rw [Transaction.accepted_quiet (by rw [hr]; rfl), List.append_nil]
    exact ⟨h, nofun⟩

/-- A response leaves the buffer and moves the pointer by what it accepts. -/
theorem Offering.respond (h : Offering a ts q) {k : Packet} {r : Response} {fate : Fate}
    (hdir : k.dirIn = false) (hr : q.respond k m r = (p', fate)) (hresp : t.response = r)
    (hmoved : ∀ rlen bytes, t.response = .ack rlen bytes →
      ((acceptedBytes (ts ++ [t])).length : Int) = (acceptedBytes ts).length + rlen) :
    Offering a (ts ++ [t]) p' := by
  have hkept := Td.responded q k m r
  rw [hr] at hkept
  have hurb := hkept.urb.trans h.urb
  have hend : p'.bufferEnd + 1 = a.size := by rw [hkept.bufferEnd, h.bufferEnd]
  cases hack : r.isAck with
  | false =>
    refine ⟨hurb, hend, ?_, (hkept.data hack).trans h.data⟩
    rw [hkept.pointer hack, h.pointer, acceptedBytes_snoc,
      Transaction.accepted_quiet (by rw [hresp, hack]), List.append_nil]
  | true =>
    cases r with
    | ack rlen bytes =>
      obtain ⟨rfl, -⟩ := Prod.mk.inj hr
      refine ⟨hurb, hend, ?_, ?_⟩
      · rw [hmoved rlen bytes hresp, ← h.pointer]
        rfl
      · show (if k.dirIn then _ else q.data) = a.data
        rw [hdir, if_neg Bool.false_ne_true, h.data]
    | _ => cases hack

private theorem Offering.exhausts (h : Offering a ts q) {k : Packet} {r : Response}
    (hdir : k.dirIn = false) (hroom : k.size ≤ a.size - (acceptedBytes ts).length)
    (herrors : q.errorCount = errorsOf ts) (hfits : r.Fits k) :
    (q.respond k m r).2 ≠ .keep ↔ Exhausts a.size ts r := by
  rw [Td.fate_respond]
  cases r with
  | ack rlen bytes =>
    obtain ⟨-, hle, -⟩ := hfits
    have hptr : (q.advance k rlen bytes).currentBufferPointer =
        (acceptedBytes ts).length + rlen := by
      change q.currentBufferPointer + rlen = _
      rw [h.pointer]
    have hend : (q.advance k rlen bytes).bufferEnd + 1 = a.size := h.bufferEnd
    simp only [Td.filled, hptr, hend, hdir, Exhausts, Bool.false_and, Bool.or_false,
      decide_eq_true_eq]
    omega
  | nak => exact Iff.rfl
  | err => rw [herrors, Exhausts]
  | stall => exact Iff.rfl

private theorem Sending.repeats (h : Sending a m ts p) {past : List Transaction} {u : Transaction}
    (hts : ts = past ++ [u]) (hu : u.response = .nak ∨ u.response = .err) :
    u.packet = ⟨a.endpoint, false, p.dataPid, min m (a.size - (acceptedBytes ts).length)⟩ := by
  obtain ⟨pid, hpacket⟩ := (h.history.offers past u (hts ▸ List.prefix_rfl)).1
  have hquiet : u.response.isAck = false := by
    rcases hu with hu | hu <;> rw [hu] <;> rfl
  have hsame : acceptedBytes ts = acceptedBytes past := by
    rw [hts, acceptedBytes_snoc, Transaction.accepted_quiet hquiet, List.append_nil]
  have hagain := h.again past u hts hu
  rw [hpacket] at hagain
  rw [hpacket, hsame, hagain]

private theorem Sending.exchange (h : Sending a m ts p) (hsized : a.Sized) {c : EpdCore}
    {w : EpdList} {r : Response} {fate : Fate} (hx : c.exchange w p r = .ok (t, p', fate))
    (hep : c.endpointNumber = a.endpoint) (hm : c.maximumPacketSize = m)
    (hcarry : c.toggleCarry &&& 2 = 0) (hfits : t.response.Fits t.packet) :
    if fate = .keep then Sending a m (ts ++ [t]) p' else Sent a m (ts ++ [t]) p' := by
  obtain ⟨k, hk, hr, ht⟩ := EpdCore.exchange_ok hx
  have hq := h.toOffering.load c.toggleCarry
  have hpid : (p.loadToggle c.toggleCarry).pid = .out := (Td.loaded p _).pid.trans h.pid
  have herrors : (p.loadToggle c.toggleCarry).errorCount = errorsOf ts := by
    rw [Td.errorCount_loadToggle, h.errors]
  have htoggle := Td.loadToggle_loaded p hcarry
  have hsame : ts ≠ [] → p.loadToggle c.toggleCarry = p :=
    fun hne ↦ Td.loadToggle_eq _ (h.toggle hne)
  generalize p.loadToggle c.toggleCarry = q at hk hr ht hq hpid herrors htoggle hsame
  rw [hm] at hr
  obtain ⟨hpacket, hoffered⟩ := hq.packet hpid hep hk
  rw [hm] at hpacket
  have hkt : t.packet = k := by rw [ht]
  have hrt : t.response = r := by rw [ht]
  have hot : t.offered = q.offered k := by rw [ht]
  have hret : t.retired = if fate = .keep then none
      else some ⟨p'.currentBufferPointer, p'.errorCount, p'.data⟩ := by rw [ht]
  have hdir : k.dirIn = false := by rw [hpacket]
  have hroom : k.size ≤ a.size - (acceptedBytes ts).length := by
    rw [hpacket]
    exact Int.min_le_right _ _
  rw [← hot, ← hkt] at hoffered
  obtain ⟨hpieces, hmoved⟩ :=
    pieces_snoc hsized h.history.pieces hoffered (hkt ▸ hroom) hfits
  have hends : fate ≠ .keep ↔ Exhausts a.size ts r := by
    rw [← hq.exhausts hdir hroom herrors (hrt ▸ hkt ▸ hfits), hr]
  have hkept := Td.responded q k m r
  have herrs : (q.respond k m r).2 = .keep →
      (q.respond k m r).1.errorCount = q.errorCount + if r.isErr then 1 else 0 :=
    Td.errorCount_respond
  rw [hr] at hkept herrs
  have hhistory : Segments a m (ts ++ [t]) := by
    refine h.history.snoc h.unretired ⟨⟨q.dataPid, hkt.trans hpacket⟩, hoffered⟩ ?_ ?_ hpieces hfits
    · intro past u hts hu
      rw [hkt, hpacket, h.repeats hts hu, hsame (by simp [hts])]
    · rw [hrt, ← hends, hret]
      split
      · next hf => simp [hf]
      · next hf => simp [hf]
  have hoff := hq.respond hdir hr hrt hmoved
  split
  · next hf =>
    rw [if_pos hf] at hret
    refine ⟨hoff, hhistory, ?_, hkept.pid.trans hpid, ?_, fun _ ↦ hkept.toggle htoggle, ?_⟩
    · intro u hu
      rcases List.mem_append.mp hu with hu | hu
      · exact h.unretired u hu
      · rw [List.mem_singleton.mp hu, hret]
    · rw [herrs hf, herrors, errorsOf_snoc, hrt]
    · intro past u hts hu
      obtain ⟨-, hut⟩ := List.append_inj' hts rfl
      obtain rfl := List.singleton_inj.mp hut
      have hquiet : r.isAck = false := by
        rcases hrt ▸ hu with hu | hu <;> rw [hu] <;> rfl
      rw [hkept.dataPid hquiet, hkt, hpacket]
  · next hf =>
    rw [if_neg hf] at hret
    exact ⟨hoff, hhistory, t, by simp, by rw [hret]; rfl⟩

end Exchange

/-- A completion of an OUT descriptor: it was retired, and its URB gets the number of bytes
accepted. -/
structure Consumed (a : LinkArgs) (ts : List Transaction) (c : Completion) : Prop where
  retired : ∃ t ∈ ts, t.retired.isSome
  urb : c.urb = a.urb.id
  length : c.length = ((acceptedBytes ts).length : Int)
  data : c.data = a.data

private theorem Sent.consumed {a : LinkArgs} {m : Int} {ts : List Transaction} {p : Td}
    (h : Sent a m ts p) (hsized : a.Sized) (g : GtdPtr) : Consumed a ts (p.complete g) where
  retired := h.retired
  urb := congrArg UrbRef.id h.urb
  length := by
    have hurb := hsized.2.1
    simp only [Td.complete, h.urb, h.bufferEnd, h.pointer]
    omega
  data := h.data

private theorem sending_lives {a : LinkArgs} (hout : a.dir = false) (hsetup : a.setup = false)
    (hsized : a.Sized) : Lives a (Sending a) (Sent a) := by
  constructor
  · intro m td htd
    exact sending_create hout hsetup hsized htd
  · intro c w p p' r t fate ts hkey hcarry hfit hp hx
    exact hp.exchange hsized hx (congrArg EpdKey.endpointNumber hkey) rfl hcarry hfit

/-- An OUT descriptor that was linked with `a` as `g`, on an endpoint with packets of `m`: its
transactions cut the buffer as they should; when it is retired, it is on top of the done list
with its pointer behind what was accepted; a retired one has been completed or is by calls of
`hcd_process_done_list`; and every completion of it tells its URB how much was accepted. -/
structure WritesExactly (a : LinkArgs) (m : Int) (g : GtdPtr) (es : List HcdEvent) (h : Hcd) :
    Prop where
  history : Segments a m (transactionsOf g es)
  retirement : ∀ past x h', past ++ [x] <+: es → HcdRun (past ++ [x]) h' → RetiredBy g past x →
    OnTop (Offering a (transactionsOf g (past ++ [x]))) g h'
  processing : (∃ t ∈ transactionsOf g es, t.retired.isSome) →
    (∃ c ∈ completions es, c.gtd = g) ∨ Completes (Consumed a (transactionsOf g es)) g h
  completed : ∀ c ∈ completions es, c.gtd = g → Consumed a (transactionsOf g es) c

/-- The length of the completion of an OUT descriptor in a history of the queues. -/
theorem QueuesRun.accepted_length {es : List HcdEvent} {q : Queues} (h : QueuesRun es q)
    {g : GtdPtr} {a : LinkArgs} (hlink : (g, a) ∈ links es) (hout : a.dir = false)
    (hsetup : a.setup = false) (hsized : a.Sized)
    (hfits : ∀ t ∈ transactionsOf g es, t.response.Fits t.packet) {c : Completion}
    (hc : c ∈ completions es) (hg : c.gtd = g) :
    c.length = ((acceptedBytes (transactionsOf g es)).length : Int) := by
  have hlive := h.living (sending_lives hout hsetup hsized) hlink hfits
  obtain ⟨p, hp, rfl⟩ := hlive.completed c hc hg
  exact (hp.consumed hsized g).length

/-- An OUT descriptor writes exactly, after every run. -/
theorem HcdRun.out_segmented {es : List HcdEvent} {h : Hcd} (hrun : HcdRun es h) {g : GtdPtr}
    {a : LinkArgs} (hlink : (g, a) ∈ links es) (hout : a.dir = false) (hsetup : a.setup = false)
    (hsized : a.Sized) (hfits : ∀ t ∈ transactionsOf g es, t.response.Fits t.packet) :
    ∃ e ∈ h.list a.list, e.key = a.key ∧ WritesExactly a e.maximumPacketSize g es h := by
  have hrule := sending_lives hout hsetup hsized
  obtain ⟨e, he, hkey, ⟨p, hp⟩, hdone⟩ := hrun.lived hrule hlink hfits
  refine ⟨e, he, hkey, ?_, ?_, ?_, ?_⟩
  · rcases hp with hp | hp
    · exact hp.history
    · exact hp.history
  · intro past x h' hpre hpast hx
    obtain ⟨m, hhead, n, hn, hsent⟩ := hrun.retired_onTop hrule hlink hfits hpre hpast hx
    exact ⟨hhead, n, hn, hsent.toOffering⟩
  · intro hret
    refine (hrun.retired_completes hrule hlink hfits (fun m p hq ↦ hq.unretired) hret).imp_right ?_
    rintro ⟨cs, c, h', hcs, hg, m, p, hsent, rfl⟩
    exact ⟨cs, _, h', hcs, hg, hsent.consumed hsized g⟩
  · intro c hc hg
    obtain ⟨p, hsent, rfl⟩ := hdone c hc hg
    exact hsent.consumed hsized g

private def writeThree : LinkArgs := ⟨1, 2, false, false, 2, 2, [5, 6, 7], 3, ⟨10, 3⟩⟩

/-- The three bytes are written and reported. -/
theorem HcdRun.out_segmented_example : ∃ es h, HcdRun es h ∧
    acceptedBytes (transactionsOf 0 es) = [5, 6, 7] ∧
    (∃ c ∈ completions es, c.gtd = 0 ∧ c.urb = 10 ∧ c.length = 3) ∧
    ∃ e ∈ h.list .bulk, e.key = writeThree.key ∧
      WritesExactly writeThree e.maximumPacketSize 0 es h := by
  have hcheck : runsTo hcdExec hcdInit
      [.link writeThree, .send .bulk (some 0) .nak, .send .bulk (some 0) (.ack 2 []),
        .send .bulk (some 0) .err, .send .bulk (some 0) (.ack 1 []), .processDoneList]
      (fun _ es ↦ decide (acceptedBytes (transactionsOf 0 es) = [5, 6, 7] ∧
        (∃ c ∈ completions es, c.gtd = 0 ∧ c.urb = 10 ∧ c.length = 3) ∧
        (0, writeThree) ∈ links es ∧
        ∀ t ∈ transactionsOf 0 es, t.response.Fits t.packet)) = true := by decide +kernel
  obtain ⟨es, h, hrun, hp⟩ := Run.of_runsTo hcheck
  obtain ⟨hbytes, hcompleted, hlink, hfits⟩ := of_decide_eq_true hp
  exact ⟨es, h, hrun, hbytes, hcompleted,
    HcdRun.out_segmented hrun hlink rfl rfl ⟨by decide, rfl, rfl⟩ hfits⟩

end BiMpp.Host
