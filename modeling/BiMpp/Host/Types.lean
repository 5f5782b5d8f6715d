import BiMpp.Usb.Bus

/-!
# Host controller data

The records of `bi-mpp-pic24-usb-simulator-master/include/hcd.h` and the parts of
`hcd_gtd_send` that touch one transfer descriptor only. Endpoint descriptors are never
freed or reordered and `nextEPD` only changes from null to a new descriptor, so each
list is a Lean list and an `EpdPtr` is an index into it. Transfer descriptors move
between queues and are freed, so they live in a heap and are linked by `nextTD`.

A transfer descriptor points into a buffer its caller hands over with it; the model
keeps that buffer in `data`, and `currentBufferPointer` and `bufferEnd` are offsets
from its start.
-/

namespace BiMpp.Host
open BiMpp.Usb

/-- The two endpoint lists of `hcd_t`; `hcd.h:61–62`. -/
inductive EpdList
  | control
  | bulk
  deriving DecidableEq, Repr

/-- Address of a transfer descriptor. -/
abbrev GtdPtr := Nat

/-- Address of an endpoint descriptor within its list. -/
abbrev EpdPtr := Nat

/-- `__GTD_PID_SETUP`, `__GTD_PID_OUT`, `__GTD_PID_IN`; `hcd.h:23–25`. -/
inductive GtdPid
  | setup
  | out
  | inn
  deriving DecidableEq, Repr

/-- What the controller reads of a URB: its identity and `submit.buffer_length`. -/
structure UrbRef where
  id : Nat
  bufferLength : Int
  deriving DecidableEq, Repr

/-- The fields of `hcd_gtd_t` other than `nextTD`, with the buffer pointed into;
`hcd.h:27–38`. -/
structure Td where
  pid : GtdPid
  dataToggle : BitVec 32
  errorCount : Nat
  currentBufferPointer : Int
  bufferEnd : Int
  data : List UInt8
  urb : UrbRef
  deriving DecidableEq, Repr

/-- `hcd_gtd_t`; `hcd.h:27–38`. -/
structure Gtd extends Td where
  nextTD : Option GtdPtr
  deriving DecidableEq, Repr

/-- `hcd_gtd_create`; `hcd.c:45–53`. -/
def hcdGtdCreate (pid : GtdPid) (toggle : BitVec 32) (data : List UInt8) (size : Int)
    (urb : UrbRef) : Td where
  pid := pid
  dataToggle := toggle
  errorCount := 0
  currentBufferPointer := 0
  bufferEnd := size - 1
  data := data
  urb := urb

/-- The pair that names an endpoint; `hcd.c:79`. -/
structure EpdKey where
  functionAddress : Int
  endpointNumber : Int
  deriving DecidableEq, Repr

/-- The fields of `hcd_epd_t` other than its queue; `hcd.h:40–53`. -/
structure EpdCore where
  functionAddress : Int
  endpointNumber : Int
  skip : Bool
  maximumPacketSize : Int
  toggleCarry : BitVec 32
  halted : Bool
  deriving DecidableEq, Repr

/-- The key of an endpoint descriptor. -/
def EpdCore.key (c : EpdCore) : EpdKey := ⟨c.functionAddress, c.endpointNumber⟩

/-- `hcd_epd_t`; `hcd.h:40–53`. -/
structure Epd extends EpdCore where
  tdQueueTailPointer : Option GtdPtr
  tdQueueHeadPointer : Option GtdPtr
  deriving DecidableEq, Repr

/-- `hcd_epd_create` with its three assertions; `hcd.c:33–43`. -/
def hcdEpdCreate (addr ep mps : Int) : Except Fault EpdCore :=
  if 0 ≤ ep ∧ ep ≤ 15 ∧ 0 ≤ mps ∧ mps ≤ 1024 ∧ 0 ≤ addr ∧ addr ≤ 127 then
    .ok { functionAddress := addr, endpointNumber := ep, skip := false,
          maximumPacketSize := mps, toggleCarry := 0, halted := false }
  else .error .assertion

/-- Bytes left in the buffer; `hcd.c:174`. -/
def Td.buflen (p : Td) : Int := p.bufferEnd - p.currentBufferPointer + 1

/-- Take the toggle from the endpoint when bit 1 asks for it; `hcd.c:175–177`. -/
def Td.loadToggle (carry : BitVec 32) (p : Td) : Td :=
  if p.dataToggle &&& 2 ≠ 0 then { p with dataToggle := carry } else p

/-- `DATA0` or `DATA1` from bit 0 of the toggle; `hcd.c:187,192`. -/
def Td.dataPid (p : Td) : UsbPid := if p.dataToggle &&& 1 = 0 then .data0 else .data1

/-- The switch on the descriptor's pid; `hcd.c:178–198`. -/
def choosePacket (c : EpdCore) (p : Td) : Except Fault Packet :=
  match p.pid with
  | .setup =>
    if p.buflen = 8 then .ok ⟨c.endpointNumber, false, .setup, p.buflen⟩
    else .error .assertion
  | .out => .ok ⟨c.endpointNumber, false, p.dataPid, min c.maximumPacketSize p.buflen⟩
  | .inn => .ok ⟨c.endpointNumber, true, p.dataPid, p.buflen⟩

/-- What a response does with the descriptor's place in its queue: it stays, or it is
unlinked after an ACK, after its third ERR or after a STALL. -/
inductive Fate
  | keep
  | accepted
  | failed
  | stalled
  deriving DecidableEq, Repr

/-- The bytes an OUT or SETUP transaction offers, from the current buffer pointer. -/
def Td.offered (p : Td) (k : Packet) : List UInt8 :=
  if k.dirIn then [] else (p.data.drop p.currentBufferPointer.toNat).take k.size.toNat

/-- The descriptor after an ACK: the IN bytes are in its buffer, the pointer and the
toggle have advanced; `hcd.c:208–209`. -/
def Td.advance (p : Td) (k : Packet) (rlen : Int) (bytes : List UInt8) : Td :=
  { p with
    data := if k.dirIn then writeAt p.data p.currentBufferPointer bytes else p.data
    currentBufferPointer := p.currentBufferPointer + rlen
    dataToggle := p.dataToggle ^^^ 1 }

/-- Whether an ACK retires the advanced descriptor; `hcd.c:210–220`. -/
def Td.filled (p : Td) (k : Packet) (mps rlen : Int) : Bool :=
  decide (p.bufferEnd + 1 ≤ p.currentBufferPointer) || (k.dirIn && decide (rlen < mps))

/-- The switch on the device's response; `hcd.c:205–241`. -/
def Td.respond (p : Td) (k : Packet) (mps : Int) : Response → Td × Fate
  | .ack rlen bytes =>
    let p' := p.advance k rlen bytes
    (p', if p'.filled k mps rlen then .accepted else .keep)
  | .nak => (p, .keep)
  | .err =>
    if p.errorCount = 2 then (p, .failed)
    else ({ p with errorCount := p.errorCount + 1 }, .keep)
  | .stall => (p, .stalled)

/-- What a retired descriptor carries away: its offset, error count and buffer. -/
structure Retirement where
  offset : Int
  errorCount : Nat
  data : List UInt8
  deriving DecidableEq, Repr

/-- One transaction as it happened, seen from the endpoint it ran on. -/
structure Transaction where
  list : EpdList
  key : EpdKey
  packet : Packet
  offset : Int
  offered : List UInt8
  response : Response
  urb : Nat
  retired : Option Retirement
  deriving DecidableEq, Repr

/-- The whole exchange on one descriptor: toggle, packet, response; `hcd.c:172–241`
without the list surgery. -/
def EpdCore.exchange (c : EpdCore) (w : EpdList) (p : Td) (r : Response) :
    Except Fault (Transaction × Td × Fate) :=
  let q := p.loadToggle c.toggleCarry
  match choosePacket c q with
  | .error f => .error f
  | .ok k =>
    let (q', fate) := q.respond k c.maximumPacketSize r
    .ok ({ list := w, key := c.key, packet := k, offset := q.currentBufferPointer,
           offered := q.offered k, response := r, urb := q.urb.id,
           retired := if fate = .keep then none
             else some ⟨q'.currentBufferPointer, q'.errorCount, q'.data⟩ }, q', fate)

/-- Loading the toggle leaves the URB. -/
@[simp] theorem Td.urb_loadToggle (p : Td) (carry : BitVec 32) :
    (p.loadToggle carry).urb = p.urb := by
  unfold loadToggle
  split <;> rfl

/-- Loading the toggle leaves the error count. -/
@[simp] theorem Td.errorCount_loadToggle (p : Td) (carry : BitVec 32) :
    (p.loadToggle carry).errorCount = p.errorCount := by
  unfold loadToggle
  split <;> rfl

/-- No answer changes the URB. -/
@[simp] theorem Td.urb_respond (p : Td) (k : Packet) (mps : Int) (r : Response) :
    (p.respond k mps r).1.urb = p.urb := by
  cases r with
  | err =>
    simp only [respond]
    split <;> rfl
  | _ => rfl

/-- What loading the toggle leaves of a descriptor. -/
structure Td.Loaded (p q : Td) : Prop where
  pid : q.pid = p.pid
  bufferEnd : q.bufferEnd = p.bufferEnd
  pointer : q.currentBufferPointer = p.currentBufferPointer
  data : q.data = p.data
  urb : q.urb = p.urb
  errorCount : q.errorCount = p.errorCount

/-- What loading the toggle does to a descriptor. -/
theorem Td.loaded (p : Td) (carry : BitVec 32) : Td.Loaded p (p.loadToggle carry) := by
  unfold loadToggle
  split <;> exact ⟨rfl, rfl, rfl, rfl, rfl, rfl⟩

/-- A descriptor that does not ask for the toggle keeps its own. -/
theorem Td.loadToggle_eq {p : Td} (carry : BitVec 32) (h : p.dataToggle &&& 2 = 0) :
    p.loadToggle carry = p :=
  if_neg fun hne ↦ hne h

/-- A toggle that was loaded does not ask for another. -/
theorem Td.loadToggle_loaded (p : Td) {carry : BitVec 32} (h : carry &&& 2 = 0) :
    (p.loadToggle carry).dataToggle &&& 2 = 0 := by
  unfold loadToggle
  split
  · exact h
  · next hne => exact not_not.mp hne

/-- What a response leaves of a descriptor: always its pid, end and URB, and everything but
the error count where it is no ACK. -/
structure Td.Responded (q p : Td) (r : Response) : Prop where
  pid : p.pid = q.pid
  bufferEnd : p.bufferEnd = q.bufferEnd
  urb : p.urb = q.urb
  toggle : q.dataToggle &&& 2 = 0 → p.dataToggle &&& 2 = 0
  pointer : r.isAck = false → p.currentBufferPointer = q.currentBufferPointer
  data : r.isAck = false → p.data = q.data
  dataPid : r.isAck = false → p.dataPid = q.dataPid

/-- What the answer of the device does to a descriptor. -/
theorem Td.responded (q : Td) (k : Packet) (mps : Int) (r : Response) :
    Td.Responded q (q.respond k mps r).1 r := by
  cases r with
  | ack rlen bytes =>
    refine ⟨rfl, rfl, rfl, fun hbit ↦ ?_, nofun, nofun, nofun⟩
    change (q.dataToggle ^^^ 1) &&& 2 = 0
    grind
  | nak => exact ⟨rfl, rfl, rfl, id, fun _ ↦ rfl, fun _ ↦ rfl, fun _ ↦ rfl⟩
  | err =>
    simp only [respond]
    split <;> exact ⟨rfl, rfl, rfl, id, fun _ ↦ rfl, fun _ ↦ rfl, fun _ ↦ rfl⟩
  | stall => exact ⟨rfl, rfl, rfl, id, fun _ ↦ rfl, fun _ ↦ rfl, fun _ ↦ rfl⟩

/-- A response that keeps the descriptor counts its error. -/
theorem Td.errorCount_respond {q : Td} {k : Packet} {mps : Int} {r : Response}
    (h : (q.respond k mps r).2 = .keep) :
    (q.respond k mps r).1.errorCount = q.errorCount + if r.isErr then 1 else 0 := by
  cases r with
  | err =>
    simp only [respond] at h ⊢
    split at h
    · cases h
    · next hne =>
      rw [if_neg hne]
      rfl
  | _ => rfl

/-- When a response ends a descriptor. -/
theorem Td.fate_respond (q : Td) (k : Packet) (mps : Int) (r : Response) :
    (q.respond k mps r).2 ≠ .keep ↔
      match r with
      | .ack rlen bytes => (q.advance k rlen bytes).filled k mps rlen = true
      | .nak => False
      | .err => q.errorCount = 2
      | .stall => True := by
  cases r with
  | ack rlen bytes =>
    simp only [respond]
    split <;> simp [*]
  | nak => simp [respond]
  | err =>
    simp only [respond]
    split <;> simp [*]
  | stall => simp [respond]

/-- A successful exchange: the packet chosen, the response applied, what is shown. -/
theorem EpdCore.exchange_ok {c : EpdCore} {w : EpdList} {p p' : Td} {r : Response}
    {t : Transaction} {fate : Fate} (h : c.exchange w p r = .ok (t, p', fate)) :
    ∃ k, choosePacket c (p.loadToggle c.toggleCarry) = .ok k ∧
      (p.loadToggle c.toggleCarry).respond k c.maximumPacketSize r = (p', fate) ∧
      t = { list := w, key := c.key, packet := k
            offset := (p.loadToggle c.toggleCarry).currentBufferPointer
            offered := (p.loadToggle c.toggleCarry).offered k, response := r, urb := p.urb.id
            retired := if fate = .keep then none
              else some ⟨p'.currentBufferPointer, p'.errorCount, p'.data⟩ } := by
  simp only [exchange] at h
  cases hk : choosePacket c (p.loadToggle c.toggleCarry) with
  | error f =>
    rw [hk] at h
    exact nomatch h
  | ok k =>
    rw [hk] at h
    simp only [Except.ok.injEq, Prod.mk.injEq] at h
    obtain ⟨rfl, rfl, rfl⟩ := h
    exact ⟨k, rfl, rfl, by rw [Td.urb_loadToggle]⟩

/-- A descriptor belongs to one URB for life. -/
theorem EpdCore.exchange_urb {c : EpdCore} {w : EpdList} {p p' : Td} {r : Response}
    {t : Transaction} {fate : Fate} (h : c.exchange w p r = .ok (t, p', fate)) :
    p'.urb = p.urb := by
  obtain ⟨k, -, hr, -⟩ := exchange_ok h
  have hu := Td.urb_respond (p.loadToggle c.toggleCarry) k c.maximumPacketSize r
  rw [hr, Td.urb_loadToggle] at hu
  exact hu

/-- A transaction names the URB of its descriptor. -/
theorem EpdCore.exchange_owner {c : EpdCore} {w : EpdList} {p p' : Td} {r : Response}
    {t : Transaction} {fate : Fate} (h : c.exchange w p r = .ok (t, p', fate)) :
    t.urb = p.urb.id := by
  obtain ⟨k, -, -, rfl⟩ := exchange_ok h
  rfl

/-- What the response leaves in the endpoint: the carried toggle after an accepted
descriptor, the halt after a STALL; `hcd.c:213,218,236`. -/
def EpdCore.settle (c : EpdCore) (p : Td) : Fate → EpdCore
  | .keep => c
  | .accepted => { c with toggleCarry := p.dataToggle &&& 1 }
  | .failed => c
  | .stalled => { c with halted := true }

/-- Settling never renames an endpoint. -/
@[simp] theorem EpdCore.key_settle (c : EpdCore) (p : Td) (fate : Fate) :
    (c.settle p fate).key = c.key := by
  cases fate <;> rfl

/-- What `hcd_process_done_list` does to a URB before `urb_done`; `hcd.c:260–267`.
The buffer goes back to the caller with it. -/
structure Completion where
  gtd : GtdPtr
  urb : Nat
  status : Nat
  length : Int
  data : List UInt8
  deriving DecidableEq, Repr

/-- The fields set in the URB of a descriptor taken from the done list; `hcd.c:263–264`. -/
def Td.complete (p : Td) (g : GtdPtr) : Completion where
  gtd := g
  urb := p.urb.id
  status := if p.errorCount ≠ 0 then 1 else 0
  length := p.urb.bufferLength - (p.bufferEnd + 1 - p.currentBufferPointer)
  data := p.data

/-- The arguments of `hcd_gtd_link`; `hcd.c:55`. `dir` and `setup` are only tested
against zero. -/
structure LinkArgs where
  addr : Int
  ep : Int
  dir : Bool
  setup : Bool
  toggle : BitVec 32
  mps : Int
  data : List UInt8
  size : Int
  urb : UrbRef
  deriving DecidableEq, Repr

/-- `ep &= 0xF`; `hcd.c:61`. -/
def LinkArgs.endpoint (a : LinkArgs) : Int := a.ep % 16

/-- The list a link goes to; `hcd.c:62–76`. -/
def LinkArgs.list (a : LinkArgs) : EpdList :=
  if a.setup ∨ a.endpoint = 0 then .control else .bulk

/-- The key a link looks for; `hcd.c:79`. -/
def LinkArgs.key (a : LinkArgs) : EpdKey := ⟨a.addr, a.endpoint⟩

/-- The pid of the new descriptor, with the assertion on `dir`; `hcd.c:90–98`. -/
def LinkArgs.pid (a : LinkArgs) : Except Fault GtdPid :=
  if a.setup then if a.dir then .error .assertion else .ok .setup
  else if a.dir then .ok .inn else .ok .out

/-- The descriptor a link creates; `hcd.c:90–100`. -/
def LinkArgs.td (a : LinkArgs) : Except Fault Td :=
  a.pid.map fun pid ↦ hcdGtdCreate pid a.toggle a.data a.size a.urb

/-- The descriptor of a link takes everything but its pid from the arguments. -/
theorem LinkArgs.td_ok {a : LinkArgs} {t : Td} (h : a.td = .ok t) :
    ∃ pid, t = hcdGtdCreate pid a.toggle a.data a.size a.urb := by
  unfold LinkArgs.td at h
  cases hp : a.pid with
  | error f =>
    rw [hp] at h
    cases h
  | ok pid =>
    rw [hp] at h
    exact ⟨pid, (Except.ok.inj h).symm⟩

end BiMpp.Host
