import BiMpp.Device.Refusal
import BiMpp.Host.UrbList
import BiMpp.Usbip.Bounds
import BiMpp.Usbip.Framing
import BiMpp.Usbip.UrbWait

/-!
# Coming back from a request

What `accept_loop` does with a request once it is read, with all that can keep it from its next
iteration: locks, waits and sends that do not end, exits, assertions, and memory that is not
there: `bi-mpp-pic24-usb-simulator-master/src/usbip.c:81–112,182–272`, `src/sys.c:153–240`,
`src/hcd.c:33–98,159–204`, `src/usb_lib_usbip.c:232–300`. What the other threads, the device and
the socket do meanwhile is given. Memory for what is of a fixed size is always there.
-/

namespace BiMpp.Usbip
open BiMpp.Usb BiMpp.Base BiMpp.Host BiMpp.Device

/-! ### What the handling meets -/

/-- Why a thread does not come back: it waits for ever, or the process is gone. -/
inductive Ending
  | blocked
  | exit
  | sigpipe
  | fault (f : Fault)
  deriving DecidableEq, Repr

/-- What a `send` without flags comes to: its result, a wait that does not end, or the signal
that a connection closed by the other side raises. -/
inductive SendResult
  | returned (r : Int)
  | blocks
  | sigpipe
  deriving DecidableEq, Repr

/-- What has become of a descriptor when a packet of it is made: the bytes acknowledged before,
and its toggle. -/
structure Progress where
  moved : Nat
  toggle : BitVec 32

/-- What one iteration meets: its reads; the published fields, the controller and the device at
each packet, with the progress of the descriptor; the buffer that `malloc` gives; the mutexes that
other threads never give back; the list of URBs before the request's own is in it, and when it
is taken out; the tests of `urb_wait`; whether a direct transfer is completed; the sends. -/
structure Moment extends Arrival, Surroundings where
  devlistSize : Option Nat
  progress : Stage → Nat → Progress
  buffer : Option (List UInt8)
  held : Mutex → Bool
  urb : UrbPtr
  before : UrbList
  tail : ∀ t, before.urbListTail = some t → (before.heap t).isSome
  after : UrbList
  listed : ∃ n, after.heap urb = some n ∧ n.sys = true
  rounds : Stage → Nat → WaitRound
  completes : Bool
  sent : SendResult
  sentPayload : SendResult

/-- Raise what has gone wrong in the process. -/
def raise {α : Type} (x : Except Fault α) : Except Ending α := x.mapError .fault

/-- `pthread_mutex_lock`. -/
def Moment.lock (m : Moment) (x : Mutex) : Except Ending Unit :=
  if m.held x then .error .blocked else .ok ⟨⟩

/-- The result of a `send`, where there is one. -/
def SendResult.get : SendResult → Except Ending Int
  | returned r => .ok r
  | blocks => .error .blocked
  | sigpipe => .error .sigpipe

/-! ### A stage -/

/-- The `memcpy` of `n` bytes of `__usb_transfer`, its count a `size_t`, from or to a host's
buffer that may be null; `usb_lib_usbip.c:271,289`. -/
def memcpy (null : Bool) (n : Int) : Except Fault Unit :=
  if n < 0 ∨ (null = true ∧ 0 < n) then .error .badPointer else .ok ⟨⟩

/-- `__usb_transfer` with its `memcpy`; `usb_lib_usbip.c:232–300`. -/
def transferCopies (d : UsbLib) (addr : Int) (ep : BitVec 8) (pid : UsbPid) (data : List UInt8)
    (size : Int) (null : Bool) : Except Fault Unit := do
  let (_, r) ← usbTransfer d addr ep pid data size
  match r with
  | .ack n _ => memcpy null n
  | _ => return ⟨⟩

/-- One packet of a descriptor; `hcd.c:172–202`. -/
def makePacket (d : UsbLib) (e : EpdCore) (q : Td) (null : Bool) : Except Fault Unit := do
  let k ← choosePacket e q
  transferCopies d e.functionAddress (BitVec.ofInt 8 k.ep) k.pid (q.offered k) k.size null

/-- A descriptor with what has become of it. -/
def Progress.apply (x : Progress) (t : Td) : Td :=
  { t with currentBufferPointer := x.moved, dataToggle := x.toggle }

/-- The host's end of a stage's copies is the buffer that `malloc` has not given;
`usbip.c:183`, `sys.c:211,222,236`. -/
def Moment.null (m : Moment) (c : CmdSubmit) : Stage → Bool
  | .data => c.dirIn && m.buffer.isNone
  | .direct => c.dirIn && m.buffer.isNone
  | _ => false

/-- The packets of a stage's descriptor; `hcd.c:159–204`. -/
def Moment.packets (m : Moment) (c : CmdSubmit) (st : Stage) (e : EpdCore) (t : Td) :
    Except Fault Unit :=
  (m.libs st).zipIdx.forM fun x ↦ makePacket x.1 e ((m.progress st x.2).apply t) (m.null c st)

/-- A stage: `hcd_gtd_link` finds or creates its endpoint, and `hcd_gtd_send` makes the packets;
`hcd.c:55–100`. -/
def Moment.serve (m : Moment) (b : Urb) (st : Stage) : Except Fault Unit := do
  let a := b.linkArgs 0 st
  let (l, i) ← findEpd ((m.hcd st).list a.list) a.key a.mps
  let t ← a.td
  match l[i]? with
  | none => .error .badPointer
  | some e => m.packets b.submit st e.toEpdCore t

/-- A stage of a control transfer, up to the end of `urb_wait`; `sys.c:195–202`. -/
def Moment.stage (m : Moment) (fuel : Stage → Nat) (b : Urb) (st : Stage) :
    Except Ending Unit := do
  m.lock .hcd
  raise (m.serve b st)
  let _ ← raise (urbWait urbTimeoutMs (m.rounds st) (fuel st))
  return ⟨⟩

/-! ### The requests -/

/-- The second `send` of a reply; `usbip.c:105–109`. -/
def Moment.sendPayload (m : Moment) (c : CmdSubmit) : Except Ending Int :=
  if c.dirIn then m.sentPayload.get else .ok 0

/-- `on_urb_complete`; results of `send` other than those that end it are only printed;
`usbip.c:81–112`, `urb.c:48–62`, `sys.c:153–168`. -/
def Moment.reply (m : Moment) (c : CmdSubmit) : Except Ending Unit := do
  let _ ← m.sent.get
  let _ ← m.sendPayload c
  m.lock .sys
  let _ ← raise (urbFree m.after m.urb)
  return ⟨⟩

/-- What another thread does keeps this one only by ending the process. -/
def elsewhere : Except Ending Unit → Except Ending Unit
  | .error .blocked => .ok ⟨⟩
  | x => x

/-- `sys_urb_submit` behind the insertion, with what `hcd_loop` does for a direct transfer;
`sys.c:189–239`. -/
def Moment.transfer (m : Moment) (fuel : Stage → Nat) (b : Urb) : Except Ending Unit := do
  if b.submit.isControl then
    b.submit.stages.forM (m.stage fuel b)
    m.reply b.submit
  else
    m.lock .hcd
    raise (m.serve b .direct)
    if m.completes then elsewhere (m.reply b.submit) else return ⟨⟩

/-- `urb->data`; `usbip.c:183,195–205`. -/
def Moment.data (m : Moment) (c : OpCmdSubmit) (payload : List UInt8) : List UInt8 :=
  if c.direction ≠ 0 then m.buffer.getD [] else payload

/-- `case 0x0001` behind its reads; `usbip.c:182–216`, `sys.c:176–188`. -/
def Moment.submit (m : Moment) (fuel : Stage → Nat) (c : OpCmdSubmit) (payload : List UInt8) :
    Except Ending Unit := do
  let mps ← raise (m.packetSize c.ep)
  m.lock .sys
  let _ ← raise (sysUrbSubmit (urbInit m.before m.urb) m.urb)
  m.transfer fuel ⟨c.toCmdSubmit, mps, m.data c payload, 0⟩

/-- The check of a `send` of `size` bytes; `usbip.c:252–255,267–270`. -/
def Moment.sendAll (m : Moment) (size : Nat) : Except Ending Unit := do
  let r ← m.sent.get
  if r < 0 ∨ r ≠ size then .error .exit else return ⟨⟩

/-- The size of the reply to OP_REQ_IMPORT; `usbip.c:239–243`, `usbip.h:26–69`. -/
def importSize (busid : List UInt8) : Nat := if importStatus busid = 0 then 320 else 8

/-- What `accept_loop` does with a request; `usbip.c:182–272`. -/
def Moment.handle (m : Moment) (fuel : Stage → Nat) : Request → Except Ending Unit
  | .cmdSubmit c payload => m.submit fuel c payload
  | .cmdUnlink _ => .ok ⟨⟩
  | .opReqImport _ busid =>
    match m.devlistSize with
    | none => .error (.fault .badPointer)
    | some _ => m.sendAll (importSize busid)
  | .opReqDevlist _ => do
    m.lock .sys
    m.sendAll (m.devlistSize.getD 0)

/-- The loop comes back from a request. -/
def Returns (m : Moment) (r : Request) : Prop := ∃ fuel, m.handle fuel r = .ok ⟨⟩

/-! ### What brings it back -/

/-- The endpoint descriptor that a link finds in its list, or creates; `hcd.c:33–43,62–88`. -/
def endpointOf (l : List Epd) (a : LinkArgs) : EpdCore :=
  match l.find? (fun e ↦ e.key = a.key) with
  | some e => e.toEpdCore
  | none => ⟨a.addr, a.endpoint, false, a.mps, 0, false⟩

/-- The descriptor of a link, whatever `assert(dir == 0)` says; `hcd.c:90–100`. -/
def gtdOf (a : LinkArgs) : Td :=
  hcdGtdCreate (if a.setup then .setup else if a.dir then .inn else .out) a.toggle a.data a.size
    a.urb

/-- The packet of a descriptor, whatever `assert(buflen == 8)` says; `hcd.c:178–198`. -/
def packetOf (e : EpdCore) (q : Td) : Packet :=
  match q.pid with
  | .setup => ⟨e.endpointNumber, false, .setup, q.buflen⟩
  | .out => ⟨e.endpointNumber, false, q.dataPid, min e.maximumPacketSize q.buflen⟩
  | .inn => ⟨e.endpointNumber, true, q.dataPid, q.buflen⟩

/-- A packet to the device as it is does no harm: SETUP comes with all its bytes, and the guard
refuses the packet, or what it reads is there and the endpoint turns it away, or what is copied has
a length and a host's buffer. -/
structure Bears (d : UsbLib) (e : EpdCore) (q : Td) (null : Bool) : Prop where
  whole : q.pid = .setup → q.buflen = 8
  copied : let k := packetOf e q
    let ep := BitVec.ofInt 8 k.ep
    d.refuses e.functionAddress (epNumber ep) = true ∨ d.reaches ep k.pid = true ∧
      (d.turnsAway ep k.pid k.size = true ∨
        0 ≤ k.size ∧ (null = true → d.count ep = 0 ∨ k.size = 0))

/-- A stage does no harm: its endpoint is known or within bounds, and each of its packets does no
harm. -/
structure StageBears (m : Moment) (b : Urb) (st : Stage) : Prop where
  known : (∃ e ∈ (m.hcd st).list (b.linkArgs 0 st).list, e.key = (b.linkArgs 0 st).key) ∨
    b.maxPacketSize ≤ 1024 ∧ b.submit.address ≤ 127
  packets : ∀ i d, (m.libs st)[i]? = some d →
    Bears d (endpointOf ((m.hcd st).list (b.linkArgs 0 st).list) (b.linkArgs 0 st))
      ((m.progress st i).apply (gtdOf (b.linkArgs 0 st))) (m.null b.submit st)

/-- A reply is sent, and its URB freed. -/
structure Moment.Replies (m : Moment) (c : CmdSubmit) : Prop where
  sent : ∃ r, m.sent = .returned r
  payload : c.dirIn = true → ∃ r, m.sentPayload = .returned r
  unlinks : m.after.Unlinks m.urb

/-- A reply is sent by `hcd_loop` and its URB freed, or `hcd_loop` does not get as far. -/
def Moment.Spares (m : Moment) (c : CmdSubmit) : Prop :=
  m.Replies c ∨ m.sent = .blocks ∨
    c.dirIn = true ∧ (∃ r, m.sent = .returned r) ∧ m.sentPayload = .blocks

/-- What it takes to come back from a CMD_SUBMIT. -/
structure Moment.Submits (m : Moment) (c : OpCmdSubmit) (payload : List UInt8) : Prop where
  inside : c.ep ≠ 0 → Inside m.cfg (c.ep - 1).toNat
  sys : m.held .sys = false
  hcd : m.held .hcd = false
  stages : ∀ mps, m.packetSize c.ep = .ok mps → ∀ st ∈ c.toCmdSubmit.stages,
    StageBears m ⟨c.toCmdSubmit, mps, m.data c payload, 0⟩ st
  waits : c.toCmdSubmit.isControl = true → ∀ st ∈ c.toCmdSubmit.stages,
    ∃ n, (m.rounds st n).done = true
  control : c.toCmdSubmit.isControl = true → m.Replies c.toCmdSubmit
  direct : c.toCmdSubmit.isControl = false → m.completes = true → m.Spares c.toCmdSubmit

/-- What it takes to come back from a request. -/
def Moment.Handles (m : Moment) : Request → Prop
  | .cmdSubmit c payload => m.Submits c payload
  | .cmdUnlink _ => True
  | .opReqImport _ busid => m.devlistSize ≠ none ∧ m.sent = .returned (importSize busid : Nat)
  | .opReqDevlist _ => m.held .sys = false ∧ m.sent = .returned (m.devlistSize.getD 0 : Nat)

section Parts

variable {m : Moment} {c : CmdSubmit} {b : Urb} {st : Stage} {d : UsbLib} {e : EpdCore} {q : Td}
  {null : Bool}

private theorem raise_ok {α : Type} {x : Except Fault α} {v : α} :
    raise x = .ok v ↔ x = .ok v := by
  cases x <;> simp [raise, Except.mapError]

private theorem lock_ok {x : Mutex} : m.lock x = .ok ⟨⟩ ↔ m.held x = false := by
  unfold Moment.lock
  cases m.held x <;> simp

private theorem get_ok {s : SendResult} {r : Int} : s.get = .ok r ↔ s = .returned r := by
  cases s <;> simp [SendResult.get]

private theorem memcpy_ok {n : Int} :
    memcpy null n = .ok ⟨⟩ ↔ 0 ≤ n ∧ (null = true → n ≤ 0) := by
  unfold memcpy
  split
  · next h =>
    refine iff_of_false (fun hok ↦ by cases hok) ?_
    rintro ⟨hpos, hnull⟩
    rcases h with h | ⟨hn, h⟩
    · omega
    · have := hnull hn
      omega
  · next h =>
    simp only [not_or, not_and] at h
    exact iff_of_true rfl ⟨by omega, fun hn ↦ Int.not_lt.mp (h.2 hn)⟩

private theorem choosePacket_ok {k : Packet} : choosePacket e q = .ok k ↔
    (q.pid = .setup → q.buflen = 8) ∧ packetOf e q = k := by
  unfold choosePacket packetOf
  cases q.pid with
  | setup =>
    dsimp only
    split
    · next h8 => simp [h8]
    · next h8 => simp [h8]
  | out => simp
  | inn => simp

private theorem packetOf_isData : UsbPid.isData (packetOf e q).pid = true := by
  unfold packetOf
  cases q.pid with
  | setup => rfl
  | _ =>
    dsimp only
    unfold Td.dataPid
    split <;> rfl

private theorem transferCopies_ok {addr size : Int} {ep : BitVec 8} {pid : UsbPid}
    {data : List UInt8} (hpid : UsbPid.isData pid = true) :
    transferCopies d addr ep pid data size null = .ok ⟨⟩ ↔
      d.refuses addr (epNumber ep) = true ∨ d.reaches ep pid = true ∧
        (d.turnsAway ep pid size = true ∨
          0 ≤ size ∧ (null = true → d.count ep = 0 ∨ size = 0)) := by
  -- the bytes that move are no more than are asked for, and than the endpoint is armed for
  have hmin : (0 ≤ min (d.count ep : Int) size ∧
      (null = true → min (d.count ep : Int) size ≤ 0)) ↔
      0 ≤ size ∧ (null = true → d.count ep = 0 ∨ size = 0) := by
    constructor
    · rintro ⟨hpos, hnull⟩
      refine ⟨by omega, fun hn ↦ ?_⟩
      have := hnull hn
      omega
    · rintro ⟨hpos, hnull⟩
      refine ⟨by omega, fun hn ↦ ?_⟩
      have := hnull hn
      omega
  rw [← hmin, ← usbTransfer_moves_iff (P := fun n ↦ 0 ≤ n ∧ (null = true → n ≤ 0)) hpid]
  unfold transferCopies
  rw [bind_eq_ok]
  constructor
  · rintro ⟨⟨d', r⟩, htransfer, hcopy⟩
    refine ⟨d', r, htransfer, ?_⟩
    rintro n bytes rfl
    exact memcpy_ok.mp hcopy
  · rintro ⟨d', r, htransfer, hcopy⟩
    refine ⟨(d', r), htransfer, ?_⟩
    cases r with
    | ack n bytes => exact memcpy_ok.mpr (hcopy n bytes rfl)
    | _ => rfl

private theorem makePacket_ok : makePacket d e q null = .ok ⟨⟩ ↔ Bears d e q null := by
  unfold makePacket
  rw [bind_eq_ok]
  constructor
  · rintro ⟨k, hk, hcopies⟩
    obtain ⟨hwhole, rfl⟩ := choosePacket_ok.mp hk
    exact ⟨hwhole, (transferCopies_ok packetOf_isData).mp hcopies⟩
  · rintro ⟨hwhole, hcopied⟩
    exact ⟨_, choosePacket_ok.mpr ⟨hwhole, rfl⟩, (transferCopies_ok packetOf_isData).mpr hcopied⟩

-- a link goes to the endpoint that it finds or creates
private theorem findEpd_endpoint {l l' : List Epd} {i : EpdPtr} {a : LinkArgs}
    (h : findEpd l a.key a.mps = .ok (l', i)) :
    ∃ x, l'[i]? = some x ∧ x.toEpdCore = endpointOf l a := by
  unfold findEpd at h
  unfold endpointOf
  rw [List.find?_eq_bind_findIdx?_getElem?]
  split at h
  · next j hj =>
    cases h
    obtain ⟨hlt, -, -⟩ := List.findIdx?_eq_some_iff_getElem.mp hj
    have hx : l[i]? = some l[i] := List.getElem?_eq_getElem hlt
    refine ⟨l[i], hx, ?_⟩
    rw [hj, Option.bind_some, hx]
  · next hnone =>
    obtain ⟨x, hx, h⟩ := bind_eq_ok.mp h
    cases pure_eq_ok.mp h
    refine ⟨_, List.getElem?_concat_length, ?_⟩
    rw [hnone, Option.bind_none]
    unfold hcdEpdCreate at hx
    split at hx
    · cases hx
      rfl
    · cases hx

-- no stage has a SETUP that goes in
private theorem linkArgs_td : (b.linkArgs 0 st).td = .ok (gtdOf (b.linkArgs 0 st)) := by
  unfold LinkArgs.td LinkArgs.pid gtdOf Urb.linkArgs
  cases st with
  | setup => rfl
  | data =>
    dsimp only
    cases b.submit.requestIn <;> rfl
  | status =>
    dsimp only
    cases b.submit.requestIn <;> rfl
  | direct =>
    dsimp only
    cases b.submit.dirIn <;> rfl

private theorem packets_ok {t : Td} : m.packets c st e t = .ok ⟨⟩ ↔
    ∀ i d, (m.libs st)[i]? = some d → Bears d e ((m.progress st i).apply t) (m.null c st) := by
  unfold Moment.packets
  rw [forM_eq_ok]
  constructor
  · intro h i d hd
    exact makePacket_ok.mp (h (d, i) (List.mk_mem_zipIdx_iff_getElem?.mpr hd))
  · rintro h ⟨d, i⟩ hd
    exact makePacket_ok.mpr (h i d (List.mk_mem_zipIdx_iff_getElem?.mp hd))

-- a link finds its endpoint, or creates it within bounds
private theorem link_ok (l : List Epd) (hmps : 0 ≤ b.maxPacketSize) :
    (∃ r, findEpd l (b.linkArgs 0 st).key (b.linkArgs 0 st).mps = .ok r) ↔
      (∃ x ∈ l, x.key = (b.linkArgs 0 st).key) ∨
        b.maxPacketSize ≤ 1024 ∧ b.submit.address ≤ 127 := by
  have haddr : 0 ≤ b.submit.address := Int.natCast_nonneg _
  rw [findEpd_ok, linkArgs_key, Urb.linkArgs_mps]
  dsimp only
  apply or_congr_right
  omega

private theorem serve_stage_ok (hmps : 0 ≤ b.maxPacketSize) :
    m.serve b st = .ok ⟨⟩ ↔ StageBears m b st := by
  unfold Moment.serve
  dsimp only
  rw [bind_eq_ok]
  constructor
  · rintro ⟨⟨l, i⟩, hfind, hrest⟩
    obtain ⟨x, hx, hcore⟩ := findEpd_endpoint hfind
    rw [linkArgs_td, ok_bind] at hrest
    simp only [hx, packets_ok, hcore] at hrest
    exact ⟨(link_ok _ hmps).mp ⟨_, hfind⟩, hrest⟩
  · rintro ⟨hknown, hall⟩
    obtain ⟨⟨l, i⟩, hfind⟩ := (link_ok _ hmps).mpr hknown
    obtain ⟨x, hx, hcore⟩ := findEpd_endpoint hfind
    refine ⟨_, hfind, ?_⟩
    rw [linkArgs_td, ok_bind]
    simp only [hx, packets_ok, hcore]
    exact hall

private theorem sendPayload_ok : (∃ r, m.sendPayload c = .ok r) ↔
    (c.dirIn = true → ∃ r, m.sentPayload = .returned r) := by
  unfold Moment.sendPayload
  cases c.dirIn with
  | true => simp [get_ok]
  | false => simp

private theorem reply_ok (hsys : m.held .sys = false) :
    m.reply c = .ok ⟨⟩ ↔ m.Replies c := by
  obtain ⟨n, hn, hs⟩ := m.listed
  have hfree : (∃ l, urbFree m.after m.urb = .ok l) ↔ m.after.Unlinks m.urb := by
    rw [← sysUrbUnlink_ok_iff hn hs]
    unfold urbFree
    simp only [bind_eq_ok, pure_eq_ok]
    exact ⟨fun ⟨_, l, hl, _⟩ ↦ ⟨l, hl⟩, fun ⟨l, hl⟩ ↦ ⟨_, l, hl, rfl⟩⟩
  unfold Moment.reply
  simp only [bind_eq_ok, get_ok, raise_ok, pure_eq_ok]
  constructor
  · rintro ⟨r, hr, r', hr', -, -, l, hl, -⟩
    exact ⟨⟨r, hr⟩, sendPayload_ok.mp ⟨r', hr'⟩, hfree.mp ⟨l, hl⟩⟩
  · rintro ⟨⟨r, hr⟩, hpayload, hunlinks⟩
    obtain ⟨r', hr'⟩ := sendPayload_ok.mpr hpayload
    obtain ⟨l, hl⟩ := hfree.mpr hunlinks
    exact ⟨r, hr, r', hr', ⟨⟩, lock_ok.mpr hsys, l, hl, trivial⟩

private theorem get_blocked {s : SendResult} : s.get = .error .blocked ↔ s = .blocks := by
  cases s <;> simp [SendResult.get]

private theorem raise_not_blocked {α : Type} {x : Except Fault α} : raise x ≠ .error .blocked := by
  cases x <;> simp [raise, Except.mapError]

private theorem reply_blocked (hsys : m.held .sys = false) :
    m.reply c = .error .blocked ↔ m.sent = .blocks ∨
      c.dirIn = true ∧ (∃ r, m.sent = .returned r) ∧ m.sentPayload = .blocks := by
  have hpayload : m.sendPayload c = .error .blocked ↔
      c.dirIn = true ∧ m.sentPayload = .blocks := by
    unfold Moment.sendPayload
    cases c.dirIn with
    | true => simp [get_blocked]
    | false => simp
  have hlock : m.lock .sys ≠ .error .blocked := by
    rw [lock_ok.mpr hsys]
    simp
  unfold Moment.reply
  simp only [bind_eq_error, get_blocked, get_ok, hpayload, hlock, raise_not_blocked, false_or]
  constructor
  · rintro (hsent | ⟨r, hr, ⟨hin, hblocks⟩ | ⟨r', -, -, -, l, -, hpure⟩⟩)
    · exact .inl hsent
    · exact .inr ⟨hin, ⟨r, hr⟩, hblocks⟩
    · cases hpure
  · rintro (hsent | ⟨hin, ⟨r, hr⟩, hblocks⟩)
    · exact .inl hsent
    · exact .inr ⟨r, hr, .inl ⟨hin, hblocks⟩⟩

private theorem elsewhere_ok {x : Except Ending Unit} :
    elsewhere x = .ok ⟨⟩ ↔ x = .ok ⟨⟩ ∨ x = .error .blocked := by
  cases x with
  | ok v => simp [elsewhere]
  | error f => cases f <;> simp [elsewhere]

-- a wait ends exactly if a test of it finds the URB done
private theorem wait_ok {rounds : Nat → WaitRound} :
    (∃ fuel w, urbWait urbTimeoutMs rounds fuel = .ok w) ↔ ∃ n, (rounds n).done = true := by
  constructor
  · rintro ⟨fuel, w, hw⟩
    exact ⟨_, (returnsAfter_iff.mp ⟨fuel, w, hw, rfl⟩).1⟩
  · intro h
    classical
    have hfirst : ∀ k < Nat.find h, (rounds k).done = false := fun k hk ↦
      Bool.eq_false_iff.mpr (Nat.find_min h hk)
    obtain ⟨fuel, w, hw, -⟩ := returnsAfter_iff.mpr ⟨Nat.find_spec h, hfirst⟩
    exact ⟨fuel, w, hw⟩

private theorem stage_ok (hhcd : m.held .hcd = false) (hmps : 0 ≤ b.maxPacketSize)
    {fuel : Stage → Nat} : m.stage fuel b st = .ok ⟨⟩ ↔
      StageBears m b st ∧ ∃ w, urbWait urbTimeoutMs (m.rounds st) (fuel st) = .ok w := by
  unfold Moment.stage
  simp only [bind_eq_ok, raise_ok, serve_stage_ok hmps, pure_eq_ok]
  constructor
  · rintro ⟨-, -, -, hbears, w, hw, -⟩
    exact ⟨hbears, w, hw⟩
  · rintro ⟨hbears, w, hw⟩
    exact ⟨⟨⟩, lock_ok.mpr hhcd, ⟨⟩, hbears, w, hw, trivial⟩

private theorem stages_ok (hhcd : m.held .hcd = false) (hmps : 0 ≤ b.maxPacketSize)
    (sts : List Stage) : (∃ fuel, sts.forM (m.stage fuel b) = .ok ⟨⟩) ↔
      (∀ st ∈ sts, StageBears m b st) ∧ ∀ st ∈ sts, ∃ n, (m.rounds st n).done = true := by
  simp only [forM_eq_ok, stage_ok hhcd hmps]
  constructor
  · rintro ⟨fuel, h⟩
    exact ⟨fun st hst ↦ (h st hst).1, fun st hst ↦ wait_ok.mp ⟨fuel st, (h st hst).2⟩⟩
  · rintro ⟨hbears, hwaits⟩
    have hfuel : ∀ st, ∃ fuel, st ∈ sts → ∃ w, urbWait urbTimeoutMs (m.rounds st) fuel = .ok w := by
      intro st
      by_cases hst : st ∈ sts
      · obtain ⟨fuel, hw⟩ := wait_ok.mpr (hwaits st hst)
        exact ⟨fuel, fun _ ↦ hw⟩
      · exact ⟨0, fun h ↦ absurd h hst⟩
    choose fuel hfuel using hfuel
    exact ⟨fuel, fun st hst ↦ ⟨hbears st hst, hfuel st hst⟩⟩

private theorem sendAll_ok {size : Nat} :
    m.sendAll size = .ok ⟨⟩ ↔ m.sent = .returned (size : Int) := by
  unfold Moment.sendAll
  simp only [bind_eq_ok, get_ok]
  constructor
  · rintro ⟨r, hr, hcheck⟩
    split at hcheck
    · cases hcheck
    · next hsize =>
      rw [not_or, not_not] at hsize
      rw [hr, hsize.2]
  · intro hr
    refine ⟨size, hr, ?_⟩
    rw [if_neg (by omega)]
    rfl

private theorem control_ok (hsys : m.held .sys = false) (hhcd : m.held .hcd = false)
    (hmps : 0 ≤ b.maxPacketSize) (hctl : b.submit.isControl = true) :
    (∃ fuel, m.transfer fuel b = .ok ⟨⟩) ↔ (∀ st ∈ b.submit.stages, StageBears m b st) ∧
      (∀ st ∈ b.submit.stages, ∃ n, (m.rounds st n).done = true) ∧ m.Replies b.submit := by
  rw [← and_assoc, ← stages_ok hhcd hmps]
  unfold Moment.transfer
  simp only [hctl, if_true, bind_eq_ok, reply_ok hsys]
  constructor
  · rintro ⟨fuel, _, hstages, hreplies⟩
    exact ⟨⟨fuel, hstages⟩, hreplies⟩
  · rintro ⟨⟨fuel, hstages⟩, hreplies⟩
    exact ⟨fuel, ⟨⟩, hstages, hreplies⟩

private theorem direct_ok (hsys : m.held .sys = false) (hhcd : m.held .hcd = false)
    (hmps : 0 ≤ b.maxPacketSize) (hctl : b.submit.isControl = false) :
    (∃ fuel, m.transfer fuel b = .ok ⟨⟩) ↔ (∀ st ∈ b.submit.stages, StageBears m b st) ∧
      (m.completes = true → m.Spares b.submit) := by
  have hstages : b.submit.stages = [.direct] := by
    unfold CmdSubmit.stages
    rw [hctl, if_neg (by decide)]
  have hreply : ((if m.completes = true then elsewhere (m.reply b.submit) else pure ⟨⟩) =
      (.ok ⟨⟩ : Except Ending Unit)) ↔ (m.completes = true → m.Spares b.submit) := by
    cases m.completes with
    | true =>
      simp only [if_true, elsewhere_ok, reply_ok hsys, reply_blocked hsys, true_imp_iff]
      rfl
    | false => simp
  rw [← hreply, hstages]
  unfold Moment.transfer
  simp only [hctl, Bool.false_eq_true, if_false, bind_eq_ok, raise_ok, serve_stage_ok hmps,
    List.mem_singleton, forall_eq]
  constructor
  · rintro ⟨-, _, -, _, hbears, hrest⟩
    exact ⟨hbears, hrest⟩
  · rintro ⟨hbears, hrest⟩
    exact ⟨fun _ ↦ 0, ⟨⟩, lock_ok.mpr hhcd, ⟨⟩, hbears, hrest⟩

-- a transfer takes the lock of the controller
private theorem hcd_free {fuel : Stage → Nat} (h : m.transfer fuel b = .ok ⟨⟩) :
    m.held .hcd = false := by
  unfold Moment.transfer at h
  split at h
  · next hctl =>
    have hsetup : .setup ∈ b.submit.stages := by
      unfold CmdSubmit.stages
      rw [if_pos hctl]
      split <;> exact List.mem_cons_self
    obtain ⟨_, hstages, -⟩ := bind_eq_ok.mp h
    obtain ⟨_, hlock, -⟩ := bind_eq_ok.mp (forM_eq_ok.mp hstages .setup hsetup)
    exact lock_ok.mp hlock
  · obtain ⟨_, hlock, -⟩ := bind_eq_ok.mp h
    exact lock_ok.mp hlock

end Parts

/-- The loop comes back from a CMD_SUBMIT exactly if it can take its locks, the published fields
and the device stand what it makes of them, its waits end, and its reply is sent. -/
theorem submits_iff (m : Moment) (c : OpCmdSubmit) (payload : List UInt8) :
    (∃ fuel, m.submit fuel c payload = .ok ⟨⟩) ↔ m.Submits c payload := by
  have hsubmit : ∀ fuel, m.submit fuel c payload = .ok ⟨⟩ ↔
      ∃ mps, m.packetSize c.ep = .ok mps ∧ m.held .sys = false ∧
        m.transfer fuel ⟨c.toCmdSubmit, mps, m.data c payload, 0⟩ = .ok ⟨⟩ := by
    intro fuel
    obtain ⟨l, hl⟩ := sysUrbSubmit_ok (u := m.urb) m.tail
    unfold Moment.submit
    simp only [bind_eq_ok, raise_ok]
    constructor
    · rintro ⟨mps, hmps, _, hlock, -, -, htransfer⟩
      exact ⟨mps, hmps, lock_ok.mp hlock, htransfer⟩
    · rintro ⟨mps, hmps, hsys, htransfer⟩
      exact ⟨mps, hmps, ⟨⟩, lock_ok.mpr hsys, l, hl, htransfer⟩
  constructor
  · rintro ⟨fuel, h⟩
    obtain ⟨mps, hmps, hsys, htransfer⟩ := (hsubmit fuel).mp h
    have hinside : c.ep ≠ 0 → Inside m.cfg (c.ep - 1).toNat := inside_of_packetSize hmps
    obtain ⟨mps', hmps', hpos⟩ := packetSize_ok hinside
    obtain rfl := Except.ok.inj (hmps.symm.trans hmps')
    have hhcd := hcd_free htransfer
    cases hctl : c.toCmdSubmit.isControl with
    | true =>
      obtain ⟨hstages, hwaits, hreplies⟩ := (control_ok hsys hhcd hpos hctl).mp ⟨fuel, htransfer⟩
      refine ⟨hinside, hsys, hhcd, ?_, fun _ ↦ hwaits, fun _ ↦ hreplies, ?_⟩
      · intro mps' hmps'
        obtain rfl := Except.ok.inj (hmps.symm.trans hmps')
        exact hstages
      · intro hdirect
        rw [hctl] at hdirect
        cases hdirect
    | false =>
      obtain ⟨hstages, hspares⟩ := (direct_ok hsys hhcd hpos hctl).mp ⟨fuel, htransfer⟩
      refine ⟨hinside, hsys, hhcd, ?_, ?_, ?_, fun _ ↦ hspares⟩
      · intro mps' hmps'
        obtain rfl := Except.ok.inj (hmps.symm.trans hmps')
        exact hstages
      · intro hcontrol
        rw [hctl] at hcontrol
        cases hcontrol
      · intro hcontrol
        rw [hctl] at hcontrol
        cases hcontrol
  · intro h
    obtain ⟨mps, hmps, hpos⟩ := packetSize_ok h.inside
    simp only [hsubmit]
    suffices htransfer : ∃ fuel,
        m.transfer fuel ⟨c.toCmdSubmit, mps, m.data c payload, 0⟩ = .ok ⟨⟩ by
      obtain ⟨fuel, htransfer⟩ := htransfer
      exact ⟨fuel, mps, hmps, h.sys, htransfer⟩
    cases hctl : c.toCmdSubmit.isControl with
    | true =>
      exact (control_ok h.sys h.hcd hpos hctl).mpr
        ⟨h.stages mps hmps, h.waits hctl, h.control hctl⟩
    | false =>
      exact (direct_ok h.sys h.hcd hpos hctl).mpr ⟨h.stages mps hmps, h.direct hctl⟩

/-- The loop comes back from a request exactly if everything is there that it takes. -/
theorem returns_iff (m : Moment) (r : Request) : Returns m r ↔ m.Handles r := by
  unfold Returns
  cases r with
  | cmdSubmit c payload => exact submits_iff m c payload
  | cmdUnlink _ => exact iff_of_true ⟨fun _ ↦ 0, rfl⟩ trivial
  | opReqImport _ busid =>
    unfold Moment.handle Moment.Handles
    cases m.devlistSize with
    | none => simp
    | some size => simp [sendAll_ok]
  | opReqDevlist _ =>
    unfold Moment.handle Moment.Handles
    simp only [bind_eq_ok, sendAll_ok]
    constructor
    · rintro ⟨-, _, hlock, hsent⟩
      exact ⟨lock_ok.mp hlock, hsent⟩
    · rintro ⟨hlock, hsent⟩
      exact ⟨fun _ ↦ 0, ⟨⟩, lock_ok.mpr hlock, hsent⟩

end BiMpp.Usbip
