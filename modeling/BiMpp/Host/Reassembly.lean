import BiMpp.Host.Retirement

/-!
# Reading into a buffer

An IN descriptor asks for all that is left of its buffer until a packet fills it or falls
short of the endpoint's packet size, or the device fails: `hcd_gtd_send` and the length
that `hcd_process_done_list` computes, `bi-mpp-pic24-usb-simulator-master/src/hcd.c:159–269`.
A transaction belongs to the descriptor at the head of the queue it ran on.
-/

namespace BiMpp.Host
open BiMpp.Usb BiMpp.Base

/-! ### What is to be shown -/

/-- The bytes acknowledged in a list of transactions, in order. -/
def receivedBytes (ts : List Transaction) : List UInt8 :=
  ts.flatMap fun t ↦ t.response.bytes

/-- The errors among a list of transactions. -/
def errorsOf (ts : List Transaction) : Nat := ts.countP fun t ↦ t.response.isErr

/-- The responses that end a transfer of `n` bytes in packets of `m`, after `past`: one
that fills the buffer or is short, the third error, a STALL. -/
def Finishes (n m : Int) (past : List Transaction) : Response → Prop
  | .ack rlen _ => (receivedBytes past).length + rlen = n ∨ rlen < m
  | .nak => False
  | .err => errorsOf past = 2
  | .stall => True

/-- The transactions of an IN descriptor linked with `a` on an endpoint with packets of
`m`: each asks for the bytes still missing, the same request follows a NAK or an error,
the descriptor is retired by the first response that ends the transfer, with the packets
in its buffer and the rest of it untouched. -/
structure Reassembles (a : LinkArgs) (m : Int) (ts : List Transaction) : Prop where
  asks : ∀ past t, past ++ [t] <+: ts →
    ∃ pid, t.packet = ⟨a.endpoint, true, pid, a.size - (receivedBytes past).length⟩
  repeats : ∀ past t t', past ++ [t, t'] <+: ts → t.response = .nak ∨ t.response = .err →
    t'.packet = t.packet
  retires : ∀ past t, past ++ [t] <+: ts → (t.retired.isSome ↔ Finishes a.size m past t.response)
  last : ∀ past t, past ++ [t] <+: ts → t.retired.isSome → ts = past ++ [t]
  buffer : ∀ past t ret, past ++ [t] <+: ts → t.retired = some ret →
    ((receivedBytes ts).length : Int) ≤ a.size ∧ ret.offset = ((receivedBytes ts).length : Int) ∧
      ret.data = receivedBytes ts ++ a.data.drop (receivedBytes ts).length

/-- No transaction brings no bytes. -/
@[simp] theorem receivedBytes_nil : receivedBytes [] = [] := rfl

private theorem receivedBytes_snoc (ts : List Transaction) (t : Transaction) :
    receivedBytes (ts ++ [t]) = receivedBytes ts ++ t.response.bytes := by
  simp [receivedBytes]

/-- The errors after one more transaction. -/
theorem errorsOf_snoc (ts : List Transaction) (t : Transaction) :
    errorsOf (ts ++ [t]) = errorsOf ts + if t.response.isErr then 1 else 0 := by
  simp [errorsOf, List.countP_append, List.countP_singleton]

namespace Reassembles

variable {a : LinkArgs} {m : Int} {ts : List Transaction} {t : Transaction}

/-- No bytes have been received before the first transaction. -/
theorem nil : Reassembles a m [] := by
  constructor <;> intros <;> simp_all

/-- One more transaction, none before it having retired the descriptor. -/
theorem snoc (h : Reassembles a m ts) (hun : ∀ u ∈ ts, u.retired = none)
    (hask : ∃ pid, t.packet = ⟨a.endpoint, true, pid, a.size - (receivedBytes ts).length⟩)
    (hrep : ∀ past u, ts = past ++ [u] → u.response = .nak ∨ u.response = .err →
      t.packet = u.packet)
    (hret : t.retired.isSome ↔ Finishes a.size m ts t.response)
    (hbuf : ∀ ret, t.retired = some ret →
      ((receivedBytes (ts ++ [t])).length : Int) ≤ a.size ∧
        ret.offset = ((receivedBytes (ts ++ [t])).length : Int) ∧
        ret.data = receivedBytes (ts ++ [t]) ++ a.data.drop (receivedBytes (ts ++ [t])).length) :
    Reassembles a m (ts ++ [t]) := by
  constructor
  · intro past u hp
    rcases prefix_snoc hp with ⟨rfl, rfl⟩ | hp
    · exact hask
    · exact h.asks past u hp
  · intro past u u' hp hu
    rw [List.append_cons] at hp
    rcases prefix_snoc hp with ⟨rfl, rfl⟩ | hp
    · exact hrep past u rfl hu
    · rw [List.append_assoc] at hp
      exact h.repeats past u u' hp hu
  · intro past u hp
    rcases prefix_snoc hp with ⟨rfl, rfl⟩ | hp
    · exact hret
    · exact h.retires past u hp
  · intro past u hp hu
    rcases prefix_snoc hp with ⟨rfl, rfl⟩ | hp
    · rfl
    · rw [hun u (hp.subset (by simp))] at hu
      cases hu
  · intro past u ret hp hu
    rcases prefix_snoc hp with ⟨rfl, rfl⟩ | hp
    · exact hbuf ret hu
    · rw [hun u (hp.subset (by simp))] at hu
      cases hu

/-- Where every packet is short, one at most brings anything, and it asked for the whole buffer. -/
theorem short (h : Reassembles a m ts)
    (hshort : ∀ u ∈ ts, ∀ rlen bytes, u.response = .ack rlen bytes → rlen < m) :
    receivedBytes ts = [] ∨ ∃ u ∈ ts, receivedBytes ts = u.response.bytes ∧
      u.packet.size = a.size := by
  rcases List.eq_nil_or_concat' ts with rfl | ⟨past, u, rfl⟩
  · exact .inl rfl
  · -- an acknowledgement would have been the last transaction
    have hpast : receivedBytes past = [] := by
      refine List.flatMap_eq_nil_iff.mpr fun v hv ↦ ?_
      cases hr : v.response with
      | ack rlen bytes =>
        obtain ⟨l₁, l₂, rfl⟩ := List.append_of_mem hv
        have hpre : l₁ ++ [v] <+: (l₁ ++ v :: l₂) ++ [u] := ⟨l₂ ++ [u], by simp⟩
        have hlt := hshort v (by simp) rlen bytes hr
        have hret := (h.retires l₁ v hpre).mpr (by rw [hr]; exact .inr hlt)
        have hlast := congrArg List.length (h.last l₁ v hpre hret)
        simp at hlast
      | _ => rfl
    obtain ⟨pid, hask⟩ := h.asks past u (List.prefix_refl _)
    refine .inr ⟨u, by simp, ?_, ?_⟩
    · rw [receivedBytes_snoc, hpast, List.nil_append]
    · rw [hask, hpast]
      exact Int.sub_zero _

/-- What was received begins with the first packet that was not empty, which asked for the whole
buffer. -/
theorem first (h : Reassembles a m ts) : receivedBytes ts = [] ∨ ∃ u ∈ ts,
    u.response.bytes ≠ [] ∧ u.response.bytes <+: receivedBytes ts ∧ u.packet.size = a.size := by
  have hall : ∀ past, past <+: ts → receivedBytes past = [] ∨ ∃ u ∈ past,
      u.response.bytes ≠ [] ∧ u.response.bytes <+: receivedBytes past ∧ u.packet.size = a.size := by
    intro past
    induction past using List.reverseRecOn with
    | nil => exact fun _ ↦ .inl rfl
    | append_singleton past t ih =>
      intro hp
      rw [receivedBytes_snoc]
      rcases ih ((List.prefix_append past [t]).trans hp) with hnone | ⟨u, hu, hne, hpre, hsize⟩
      · rw [hnone, List.nil_append]
        by_cases hb : t.response.bytes = []
        · exact .inl hb
        · obtain ⟨pid, hask⟩ := h.asks past t hp
          refine .inr ⟨t, by simp, hb, List.prefix_refl _, ?_⟩
          rw [hask, hnone]
          exact Int.sub_zero _
      · exact .inr ⟨u, List.mem_append_left _ hu, hne, hpre.trans (List.prefix_append _ _), hsize⟩
  exact hall ts (List.prefix_refl _)

end Reassembles

/-! ### One descriptor through its transactions -/

/-- The buffer of a descriptor: the packets acknowledged, then what was there before. -/
structure Holds (a : LinkArgs) (ts : List Transaction) (p : Td) : Prop where
  urb : p.urb = a.urb
  bufferEnd : p.bufferEnd + 1 = a.size
  pointer : p.currentBufferPointer = ((receivedBytes ts).length : Int)
  inside : ((receivedBytes ts).length : Int) ≤ a.size
  data : p.data = receivedBytes ts ++ a.data.drop (receivedBytes ts).length

/-- A queued IN descriptor between two transactions. -/
structure Filling (a : LinkArgs) (m : Int) (ts : List Transaction) (p : Td) : Prop
    extends Holds a ts p where
  history : Reassembles a m ts
  unretired : ∀ t ∈ ts, t.retired = none
  pid : p.pid = .inn
  errors : p.errorCount = errorsOf ts
  toggle : ts ≠ [] → p.dataToggle &&& 2 = 0
  again : ∀ past t, ts = past ++ [t] → t.response = .nak ∨ t.response = .err →
    p.dataPid = t.packet.pid

/-- A retired IN descriptor. -/
structure Filled (a : LinkArgs) (m : Int) (ts : List Transaction) (p : Td) : Prop
    extends Holds a ts p where
  history : Reassembles a m ts
  retired : ∃ t ∈ ts, t.retired.isSome

section Exchange

variable {a : LinkArgs} {m : Int} {ts : List Transaction} {t : Transaction} {p p' : Td}

private theorem filling_create (hin : a.dir = true) (hsetup : a.setup = false)
    (hsized : a.Sized) (ht : a.td = .ok p) : Filling a m [] p := by
  have hpid : a.pid = .ok .inn := by simp [LinkArgs.pid, hsetup, hin]
  rw [LinkArgs.td, hpid] at ht
  cases ht
  constructor
  · constructor
    · rfl
    · simp [hcdGtdCreate]
    · simp [hcdGtdCreate]
    · simpa using hsized.1
    · simp [hcdGtdCreate]
  · exact Reassembles.nil
  · intro t ht
    cases ht
  · rfl
  · rfl
  · intro hne
    exact (hne rfl).elim
  · intro past t h
    simp at h

private theorem Holds.quiet (h : Holds a ts p) (hb : t.response.bytes = [])
    (hurb : p'.urb = p.urb) (hend : p'.bufferEnd = p.bufferEnd)
    (hptr : p'.currentBufferPointer = p.currentBufferPointer) (hdata : p'.data = p.data) :
    Holds a (ts ++ [t]) p' := by
  have hsame : receivedBytes (ts ++ [t]) = receivedBytes ts := by
    rw [receivedBytes_snoc, hb, List.append_nil]
  constructor
  · rw [hurb, h.urb]
  · rw [hend, h.bufferEnd]
  · rw [hptr, hsame, h.pointer]
  · rw [hsame]
    exact h.inside
  · rw [hdata, hsame, h.data]

private theorem Holds.advance (h : Holds a ts p)
    {k : Packet} {rlen : Int} {bytes : List UInt8} (hin : k.dirIn = true)
    (hr : t.response = .ack rlen bytes) (hlen : (bytes.length : Int) = rlen)
    (hle : ((receivedBytes ts).length : Int) + rlen ≤ a.size) :
    Holds a (ts ++ [t]) (p.advance k rlen bytes) := by
  have hgot : receivedBytes (ts ++ [t]) = receivedBytes ts ++ bytes := by
    rw [receivedBytes_snoc, hr]
    rfl
  constructor
  · exact h.urb
  · exact h.bufferEnd
  · change p.currentBufferPointer + rlen = _
    rw [hgot, h.pointer, List.length_append, Int.natCast_add, hlen]
  · rw [hgot, List.length_append, Int.natCast_add, hlen]
    exact hle
  · change (if k.dirIn then writeAt p.data p.currentBufferPointer bytes else p.data) = _
    rw [if_pos hin, hgot, h.pointer, h.data, writeAt, Int.toNat_natCast, List.take_left,
      List.append_assoc, List.append_assoc, List.drop_append, List.length_append,
      List.drop_eq_nil_of_le (Nat.le_add_right _ _), List.nil_append, List.drop_drop]
    congr 3
    omega

private theorem Holds.load (h : Holds a ts p) (carry : BitVec 32) :
    Holds a ts (p.loadToggle carry) := by
  have hload := Td.loaded p carry
  constructor
  · rw [hload.urb, h.urb]
  · rw [hload.bufferEnd, h.bufferEnd]
  · rw [hload.pointer, h.pointer]
  · exact h.inside
  · rw [hload.data, h.data]

private theorem Holds.packet (h : Holds a ts p) (hpid : p.pid = .inn) {c : EpdCore} {k : Packet}
    (hep : c.endpointNumber = a.endpoint) (hk : choosePacket c p = .ok k) :
    k = ⟨a.endpoint, true, p.dataPid, a.size - (receivedBytes ts).length⟩ := by
  have hlen : p.buflen = a.size - (receivedBytes ts).length := by
    rw [Td.buflen, h.pointer, ← h.bufferEnd]
    omega
  rw [choosePacket, hpid, hlen, hep] at hk
  exact (Except.ok.inj hk).symm

private theorem Filling.history_snoc (h : Filling a m ts p) {pid : UsbPid}
    (hk : t.packet = ⟨a.endpoint, true, pid, a.size - (receivedBytes ts).length⟩)
    (hpid : ts ≠ [] → pid = p.dataPid) (hh : Holds a (ts ++ [t]) p')
    (hret : t.retired.isSome ↔ Finishes a.size m ts t.response)
    (hshown : ∀ ret, t.retired = some ret →
      ret.offset = p'.currentBufferPointer ∧ ret.data = p'.data) :
    Reassembles a m (ts ++ [t]) := by
  refine h.history.snoc h.unretired ⟨pid, hk⟩ ?_ hret ?_
  · intro past u hts hu
    obtain ⟨pid', hu'⟩ := h.history.asks past u (hts ▸ List.prefix_rfl)
    have hnone : u.response.bytes = [] := by
      rcases hu with hu | hu <;> rw [hu] <;> rfl
    have hgot : receivedBytes ts = receivedBytes past := by
      rw [hts, receivedBytes_snoc, hnone, List.append_nil]
    have hagain := h.again past u hts hu
    rw [hu'] at hagain
    rw [hk, hu', hgot, hpid (by simp [hts]), hagain]
  · intro ret hr
    obtain ⟨hoffset, hdata⟩ := hshown ret hr
    exact ⟨hh.inside, hoffset.trans hh.pointer, hdata.trans hh.data⟩

private theorem filled_iff {q : Td} {k : Packet} {rlen : Int} {bytes : List UInt8}
    (hq : Holds a ts q) (hin : k.dirIn = true) (hle : (receivedBytes ts).length + rlen ≤ a.size) :
    (q.advance k rlen bytes).filled k m rlen = true ↔
      Finishes a.size m ts (.ack rlen bytes) := by
  have hptr : (q.advance k rlen bytes).currentBufferPointer = (receivedBytes ts).length + rlen := by
    change q.currentBufferPointer + rlen = _
    rw [hq.pointer]
  have hend : (q.advance k rlen bytes).bufferEnd + 1 = a.size := hq.bufferEnd
  simp only [Td.filled, hptr, hend, hin, Finishes, Bool.or_eq_true, Bool.true_and,
    decide_eq_true_eq]
  omega

private theorem Holds.respond {q : Td} {k : Packet} {r : Response} {fate : Fate}
    (h : Holds a ts q) (hin : k.dirIn = true) (hsize : k.size = a.size - (receivedBytes ts).length)
    (hfits : r.Fits k) (hresp : t.response = r) (hr : q.respond k m r = (p', fate)) :
    Holds a (ts ++ [t]) p' := by
  have hkept := Td.responded q k m r
  rw [hr] at hkept
  cases hack : r.isAck with
  | false =>
    refine h.quiet ?_ hkept.urb hkept.bufferEnd (hkept.pointer hack) (hkept.data hack)
    rw [hresp]
    cases r with
    | ack rlen bytes => cases hack
    | _ => rfl
  | true =>
    cases r with
    | ack rlen bytes =>
      obtain ⟨rfl, -⟩ := Prod.mk.inj hr
      obtain ⟨-, hle, hbytes⟩ := hfits
      exact h.advance hin hresp (hbytes hin) (by omega)
    | _ => cases hack

private theorem Holds.finishes {q : Td} {k : Packet} {r : Response} (h : Holds a ts q)
    (hin : k.dirIn = true) (hsize : k.size = a.size - (receivedBytes ts).length)
    (herrors : q.errorCount = errorsOf ts) (hfits : r.Fits k) :
    (q.respond k m r).2 ≠ .keep ↔ Finishes a.size m ts r := by
  rw [Td.fate_respond]
  cases r with
  | ack rlen bytes =>
    obtain ⟨-, hle, -⟩ := hfits
    exact filled_iff h hin (by omega)
  | nak => exact Iff.rfl
  | err => rw [herrors, Finishes]
  | stall => exact Iff.rfl

-- One response to a descriptor that is being filled: it goes on being filled, or it is retired.
private theorem Filling.exchange (h : Filling a m ts p) {c : EpdCore} {w : EpdList} {r : Response}
    {fate : Fate} (hx : c.exchange w p r = .ok (t, p', fate)) (hep : c.endpointNumber = a.endpoint)
    (hm : c.maximumPacketSize = m) (hcarry : c.toggleCarry &&& 2 = 0)
    (hfits : t.response.Fits t.packet) :
    if fate = .keep then Filling a m (ts ++ [t]) p' else Filled a m (ts ++ [t]) p' := by
  obtain ⟨k, hk, hr, ht⟩ := EpdCore.exchange_ok hx
  have hq := h.toHolds.load c.toggleCarry
  have hpid : (p.loadToggle c.toggleCarry).pid = .inn := (Td.loaded p _).pid.trans h.pid
  have herrors : (p.loadToggle c.toggleCarry).errorCount = errorsOf ts := by
    rw [Td.errorCount_loadToggle, h.errors]
  have htoggle := Td.loadToggle_loaded p hcarry
  have hsame : ts ≠ [] → p.loadToggle c.toggleCarry = p :=
    fun hne ↦ Td.loadToggle_eq _ (h.toggle hne)
  generalize p.loadToggle c.toggleCarry = q at hk hr ht hq hpid herrors htoggle hsame
  have hpacket := hq.packet hpid hep hk
  have hkt : t.packet = k := by rw [ht]
  have hrt : t.response = r := by rw [ht]
  have hret : t.retired = if fate = .keep then none
      else some ⟨p'.currentBufferPointer, p'.errorCount, p'.data⟩ := by rw [ht]
  rw [hm] at hr
  rw [hkt, hrt] at hfits
  have hin : k.dirIn = true := by rw [hpacket]
  have hsize : k.size = a.size - (receivedBytes ts).length := by rw [hpacket]
  have hh := hq.respond hin hsize hfits hrt hr
  have hends : fate ≠ .keep ↔ Finishes a.size m ts r := by
    rw [← hq.finishes hin hsize herrors hfits, hr]
  have hkept := Td.responded q k m r
  have herrs : (q.respond k m r).2 = .keep →
      (q.respond k m r).1.errorCount = q.errorCount + if r.isErr then 1 else 0 :=
    Td.errorCount_respond
  rw [hr] at hkept herrs
  have hhistory : Reassembles a m (ts ++ [t]) := by
    refine h.history_snoc (hkt.trans hpacket) (fun hne ↦ by rw [hsame hne]) hh ?_ ?_
    · rw [hrt, ← hends, hret]
      split
      · next hf => simp [hf]
      · next hf => simp [hf]
    · intro ret hshown
      rw [hret] at hshown
      split at hshown
      · cases hshown
      · cases hshown
        exact ⟨rfl, rfl⟩
  split
  · next hf =>
    rw [if_pos hf] at hret
    refine ⟨hh, hhistory, ?_, hkept.pid.trans hpid, ?_, fun _ ↦ hkept.toggle htoggle, ?_⟩
    · intro u hu
      rcases List.mem_append.mp hu with hu | hu
      · exact h.unretired u hu
      · rw [List.mem_singleton.mp hu, hret]
    · rw [herrs hf, herrors, errorsOf_snoc, hrt]
    · intro past u hts hu
      obtain ⟨-, hut⟩ := List.append_inj' hts rfl
      obtain rfl := List.singleton_inj.mp hut
      have hquiet : r.isAck = false := by
        rcases hrt ▸ hu with hu | hu <;> rw [hu] <;> rfl
      rw [hkept.dataPid hquiet, hkt, hpacket]
  · next hf =>
    rw [if_neg hf] at hret
    exact ⟨hh, hhistory, t, by simp, by rw [hret]; rfl⟩

end Exchange

/-- A completion of an IN descriptor: it was retired, and its URB gets the bytes received and
their number. -/
structure Delivered (a : LinkArgs) (ts : List Transaction) (c : Completion) : Prop where
  retired : ∃ t ∈ ts, t.retired.isSome
  urb : c.urb = a.urb.id
  length : c.length = ((receivedBytes ts).length : Int)
  data : c.data = receivedBytes ts ++ a.data.drop (receivedBytes ts).length

private theorem Filled.delivered {a : LinkArgs} {m : Int} {ts : List Transaction} {p : Td}
    (h : Filled a m ts p) (hsized : a.Sized) (g : GtdPtr) : Delivered a ts (p.complete g) where
  retired := h.retired
  urb := congrArg UrbRef.id h.urb
  length := by
    have hurb := hsized.2.1
    simp only [Td.complete, h.urb, h.bufferEnd, h.pointer]
    omega
  data := h.data

/-- An IN descriptor that was linked with `a` as `g`, on an endpoint with packets of `m`: its
transactions fill the buffer as they should; when it is retired, it is on top of the done list
with the buffer filled so far; a retired one has been completed or is by calls of
`hcd_process_done_list`; and every completion of it gives its URB what was received. -/
structure ReadsExactly (a : LinkArgs) (m : Int) (g : GtdPtr) (es : List HcdEvent) (h : Hcd) :
    Prop where
  history : Reassembles a m (transactionsOf g es)
  retirement : ∀ past x h', past ++ [x] <+: es → HcdRun (past ++ [x]) h' → RetiredBy g past x →
    OnTop (Holds a (transactionsOf g (past ++ [x]))) g h'
  processing : (∃ t ∈ transactionsOf g es, t.retired.isSome) →
    (∃ c ∈ completions es, c.gtd = g) ∨ Completes (Delivered a (transactionsOf g es)) g h
  completed : ∀ c ∈ completions es, c.gtd = g → Delivered a (transactionsOf g es) c

/-- An IN descriptor is being filled until it is retired. -/
theorem filling_lives {a : LinkArgs} (hin : a.dir = true) (hsetup : a.setup = false)
    (hsized : a.Sized) : Lives a (Filling a) (Filled a) := by
  constructor
  · intro m td htd
    exact filling_create hin hsetup hsized htd
  · intro c w p p' r t fate ts hkey hcarry hfit hp hx
    exact hp.exchange hx (congrArg EpdKey.endpointNumber hkey) rfl hcarry hfit

/-- The completion of an IN descriptor in a history of the queues. -/
theorem QueuesRun.delivered {es : List HcdEvent} {q : Queues} (h : QueuesRun es q) {g : GtdPtr}
    {a : LinkArgs} (hlink : (g, a) ∈ links es) (hin : a.dir = true) (hsetup : a.setup = false)
    (hsized : a.Sized) (hfits : ∀ t ∈ transactionsOf g es, t.response.Fits t.packet)
    {c : Completion} (hc : c ∈ completions es) (hg : c.gtd = g) :
    Delivered a (transactionsOf g es) c := by
  have hlive := h.living (filling_lives hin hsetup hsized) hlink hfits
  obtain ⟨p, hp, rfl⟩ := hlive.completed c hc hg
  exact hp.delivered hsized g

/-- An IN descriptor reads exactly, after every run. -/
theorem HcdRun.in_reassembled {es : List HcdEvent} {h : Hcd} (hrun : HcdRun es h) {g : GtdPtr}
    {a : LinkArgs} (hlink : (g, a) ∈ links es) (hin : a.dir = true) (hsetup : a.setup = false)
    (hsized : a.Sized) (hfits : ∀ t ∈ transactionsOf g es, t.response.Fits t.packet) :
    ∃ e ∈ h.list a.list, e.key = a.key ∧ ReadsExactly a e.maximumPacketSize g es h := by
  have hrule := filling_lives hin hsetup hsized
  obtain ⟨e, he, hkey, ⟨p, hp⟩, hdone⟩ := hrun.lived hrule hlink hfits
  refine ⟨e, he, hkey, ?_, ?_, ?_, ?_⟩
  · rcases hp with hp | hp
    · exact hp.history
    · exact hp.history
  · intro past x h' hpre hpast hx
    obtain ⟨m, hhead, n, hn, hfilled⟩ := hrun.retired_onTop hrule hlink hfits hpre hpast hx
    exact ⟨hhead, n, hn, hfilled.toHolds⟩
  · intro hret
    refine (hrun.retired_completes hrule hlink hfits (fun m p hq ↦ hq.unretired) hret).imp_right ?_
    rintro ⟨cs, c, h', hcs, hg, m, p, hfilled, rfl⟩
    exact ⟨cs, _, h', hcs, hg, hfilled.delivered hsized g⟩
  · intro c hc hg
    obtain ⟨p, hfilled, rfl⟩ := hdone c hc hg
    exact hfilled.delivered hsized g

private def readThree : LinkArgs := ⟨1, 2, true, false, 2, 2, [0, 0, 0], 3, ⟨10, 3⟩⟩

/-- The three bytes are read and reported. -/
theorem HcdRun.in_reassembled_example : ∃ es h, HcdRun es h ∧
    receivedBytes (transactionsOf 0 es) = [5, 6, 7] ∧
    (∃ c ∈ completions es, c.gtd = 0 ∧ c.urb = 10 ∧ c.length = 3 ∧ c.data = [5, 6, 7]) ∧
    ∃ e ∈ h.list .bulk, e.key = readThree.key ∧
      ReadsExactly readThree e.maximumPacketSize 0 es h := by
  have hcheck : runsTo hcdExec hcdInit
      [.link readThree, .send .bulk (some 0) .nak, .send .bulk (some 0) (.ack 2 [5, 6]),
        .send .bulk (some 0) .err, .send .bulk (some 0) (.ack 1 [7]), .processDoneList]
      (fun _ es ↦ decide (receivedBytes (transactionsOf 0 es) = [5, 6, 7] ∧
        (∃ c ∈ completions es, c.gtd = 0 ∧ c.urb = 10 ∧ c.length = 3 ∧ c.data = [5, 6, 7]) ∧
        (0, readThree) ∈ links es ∧
        ∀ t ∈ transactionsOf 0 es, t.response.Fits t.packet)) = true := by decide +kernel
  obtain ⟨es, h, hrun, hp⟩ := Run.of_runsTo hcheck
  obtain ⟨hbytes, hcompleted, hlink, hfits⟩ := of_decide_eq_true hp
  exact ⟨es, h, hrun, hbytes, hcompleted,
    HcdRun.in_reassembled hrun hlink rfl rfl ⟨by decide, rfl, rfl⟩ hfits⟩

end BiMpp.Host
