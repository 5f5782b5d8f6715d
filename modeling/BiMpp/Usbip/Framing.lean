import Mathlib.Algebra.Group.Nat.Defs
import BiMpp.Usbip.Messages

/-!
# How the byte stream is cut into requests

The inner loop of `accept_loop`: peek at a header, dispatch on its command, read what the
command takes; `bi-mpp-pic24-usb-simulator-master/src/usbip.c:128–276`. Here is only what
it reads, and when it leaves; what it then does with a request is elsewhere.
-/

namespace BiMpp.Usbip
open BiMpp.Base

/-! ### One iteration -/

/-- What a call of `recv` comes to: it fails, gives all it asks for, or at most so many bytes. -/
inductive Recv
  | failed
  | full
  | upTo (n : Nat)
  deriving DecidableEq, Repr

/-- It gives `n` bytes if there are as many and they are asked for. -/
def Recv.Covers (n : Nat) : Recv → Prop
  | failed => False
  | full => True
  | upTo k => n ≤ k

instance Recv.decidableCovers (n : Nat) : ∀ x : Recv, Decidable (x.Covers n)
  | failed => isFalse id
  | full => isTrue trivial
  | upTo _ => inferInstanceAs (Decidable (_ ≤ _))

/-- What an iteration gets from its socket: the peek, with what the header variable held before,
and the reads of a message and of its payload; `usbip.c:131,141,154,199`. -/
structure Arrival where
  peek : Recv
  stack : List UInt8
  first : Recv
  second : Recv

/-- The bytes that the peek finds, at least one if any are left and at most a header; `none` for
an error; `usbip.c:141`. -/
def Arrival.received (a : Arrival) (l : List UInt8) : Option (List UInt8) :=
  match a.peek with
  | .failed => none
  | .full => some (l.take 8)
  | .upTo k => some (l.take (max 1 (min k 8)))

/-- The header variable after a peek of some bytes. -/
def Arrival.header (a : Arrival) (got : List UInt8) : UsbipOpHeader :=
  .read (got ++ a.stack.drop got.length)

/-- The bytes that a `recv` of `n` with `MSG_WAITALL` gives; `none` for an error. -/
def Recv.given (x : Recv) (n : Nat) (l : List UInt8) : Option (List UInt8) :=
  match x with
  | failed => none
  | full => some (l.take n)
  | upTo k => some (l.take (min k n))

/-- `recv` of `n` bytes with `MSG_WAITALL`, and the check of its result, which is kept in
an `int`; `none` is `exit(1)`; `usbip.c:154–158,199–203`. -/
def recvAll (x : Recv) (n : Nat) (l : List UInt8) : Option (List UInt8 × List UInt8) :=
  match x.given n l with
  | none => none
  | some got =>
    let r := (BitVec.ofNat 32 got.length).toInt
    if r < 0 ∨ r ≠ n then none else some (got, l.drop got.length)

/-- How an iteration ends: the connection closed, a request read, nothing done at all, or
the process gone. -/
inductive Iteration
  | closed
  | handled (req : Request) (rest : List UInt8)
  | unknown
  | exit
  deriving DecidableEq, Repr

/-- `case 0x0001`; `usbip.c:153–217`. -/
def submitCase (a : Arrival) (l : List UInt8) : Iteration :=
  match recvAll a.first 48 l with
  | none => .exit
  | some (got, rest) =>
    let c := OpCmdSubmit.read got
    if c.direction ≠ 0 then .handled (.cmdSubmit c []) rest
    else
      let size := c.bufferLength.toNat
      if size ≠ 0 then
        match recvAll a.second size rest with
        | none => .exit
        | some (buffer, rest) => .handled (.cmdSubmit c buffer) rest
      else .handled (.cmdSubmit c []) rest

/-- `case 0x0002`; `usbip.c:218–229`. -/
def unlinkCase (a : Arrival) (l : List UInt8) : Iteration :=
  match recvAll a.first 48 l with
  | none => .exit
  | some (got, rest) => .handled (.cmdUnlink (.read got)) rest

/-- `case 0x8003`; `usbip.c:230–235`. -/
def importCase (a : Arrival) (l : List UInt8) : Iteration :=
  match recvAll a.first 40 l with
  | none => .exit
  | some (got, rest) => .handled (.opReqImport (.read got) (got.drop 8)) rest

/-- `case 0x8005`; `usbip.c:257–262`. -/
def devlistCase (a : Arrival) (l : List UInt8) : Iteration :=
  match recvAll a.first 8 l with
  | none => .exit
  | some (got, rest) => .handled (.opReqDevlist (.read got)) rest

/-- One pass of the inner loop on what is left of the stream, `l`; `usbip.c:141–275`. -/
def acceptIteration (a : Arrival) (l : List UInt8) : Iteration :=
  match a.received l with
  | none => .exit
  | some got =>
    if got = [] then .closed
    else
      let cmd := (a.header got).command
      if cmd = 0x0001 then submitCase a l
      else if cmd = 0x0002 then unlinkCase a l
      else if cmd = 0x8003 then importCase a l
      else if cmd = 0x8005 then devlistCase a l
      else .unknown

/-- Where the next iteration reads, if there is one. -/
def nextPosition (a : Arrival) (l : List UInt8) : Option (List UInt8) :=
  match acceptIteration a l with
  | .closed => none
  | .handled _ rest => some rest
  | .unknown => some l
  | .exit => none

/-- What is left of the stream at each iteration, the requests before having been dealt
with. -/
def position (arrivals : Nat → Arrival) (l : List UInt8) : Nat → Option (List UInt8)
  | 0 => some l
  | i + 1 => (position arrivals l i).bind (nextPosition (arrivals i))

/-! ### Reading what was written -/

/-- A length as the `int` that `recv` returned. -/
theorem toInt_ofNat_of_lt {k : Nat} (h : k < 2 ^ 31) : (BitVec.ofNat 32 k).toInt = k := by
  rw [BitVec.toInt_eq_toNat_of_lt, BitVec.toNat_ofNat, Nat.mod_eq_of_lt (by omega)]
  rw [BitVec.toNat_ofNat]
  omega

/-- Lengths that are no `int` come back negative. -/
theorem toInt_ofNat_neg {k : Nat} (h : 2 ^ 31 ≤ k) (h' : k < 2 ^ 32) :
    (BitVec.ofNat 32 k).toInt < 0 := by
  rw [BitVec.toInt_eq_toNat_cond, BitVec.toNat_ofNat, Nat.mod_eq_of_lt h']
  split
  · omega
  · omega

-- what is given is no more than is asked for
private theorem Recv.given_length {x : Recv} {n : Nat} {l got : List UInt8}
    (h : x.given n l = some got) : got.length ≤ n := by
  cases x with
  | failed => cases h
  | full =>
    cases h
    rw [List.length_take]
    omega
  | upTo k =>
    cases h
    rw [List.length_take]
    omega

/-- `recv` gives the bytes asked for, if it can and their number is an `int`. -/
theorem recvAll_append {x : Recv} {a : List UInt8} (rest : List UInt8) {n : Nat}
    (hn : a.length = n) (hx : x.Covers n) (h : n < 2 ^ 31) :
    recvAll x n (a ++ rest) = some (a, rest) := by
  have hgiven : x.given n (a ++ rest) = some a := by
    cases x with
    | failed => exact hx.elim
    | full => exact congrArg some (List.take_left' hn)
    | upTo k =>
      have hmin : min k n = n := Nat.min_eq_right hx
      rw [Recv.given, hmin, List.take_left' hn]
  have hr : (BitVec.ofNat 32 a.length).toInt = n := by
    rw [hn]
    exact toInt_ofNat_of_lt h
  simp only [recvAll, hgiven, hr, List.drop_left]
  apply if_neg
  omega

/-- What it cannot give, or is more than an `int` counts, ends the process. -/
theorem recvAll_eq_none {x : Recv} {n : Nat} (l : List UInt8) (h : n < 2 ^ 32)
    (hx : ¬ (x.Covers n ∧ n < 2 ^ 31)) : recvAll x n l = none := by
  unfold recvAll
  cases hgiven : x.given n l with
  | none => rfl
  | some got =>
    have hle := Recv.given_length hgiven
    apply if_pos
    by_cases hs : got.length < 2 ^ 31
    · right
      rw [toInt_ofNat_of_lt hs]
      intro hr
      have hlen : got.length = n := by omega
      refine hx ⟨?_, by omega⟩
      cases x with
      | failed => cases hgiven
      | full => trivial
      | upTo k =>
        cases hgiven
        rw [List.length_take] at hlen
        show n ≤ k
        omega
    · left
      exact toInt_ofNat_neg (by omega) (by omega)

/-- Enough for the command of whatever is in front has arrived by the peek. -/
theorem Arrival.received_covers {a : Arrival} (hp : a.peek.Covers 4) (l : List UInt8) :
    ∃ n, 4 ≤ n ∧ n ≤ 8 ∧ a.received l = some (l.take n) := by
  unfold received
  cases hpeek : a.peek with
  | failed =>
    rw [hpeek] at hp
    exact hp.elim
  | full => exact ⟨8, by decide, Nat.le_refl 8, rfl⟩
  | upTo k =>
    rw [hpeek] at hp
    have hk : 4 ≤ k := hp
    exact ⟨_, by omega, by omega, rfl⟩

/-- The peeked command is that of the request in front. -/
theorem Arrival.header_command (a : Arrival) {r : Request} (rest : List UInt8)
    (hr : r.WellFormed) {n : Nat} (hn : 4 ≤ n) :
    (a.header ((r.bytes ++ rest).take n)).command = r.command := by
  have hlen := hr.length_le
  have htake : 4 ≤ ((r.bytes ++ rest).take n).length := by
    rw [List.length_take, List.length_append]
    omega
  rw [← r.command_bytes rest, header, UsbipOpHeader.read, UsbipOpHeader.command]
  dsimp only
  rw [wordAt_append (i := 0) _ htake]
  apply congrArg wordCommand
  conv_rhs => rw [← List.take_append_drop n (r.bytes ++ rest)]
  exact (wordAt_append (i := 0) _ htake).symm

/-- How many bytes of a request are read before its payload; `usbip.c:154,219,231,258`. -/
def Request.headLength : Request → Nat
  | cmdSubmit _ _ => 48
  | cmdUnlink _ => 48
  | opReqImport _ _ => 40
  | opReqDevlist _ => 8

/-- The `recv`s of a request, the second of which is made for a payload only, give all they ask
for. -/
def Arrival.Reads (a : Arrival) (r : Request) : Prop :=
  a.first.Covers r.headLength ∧ (r.payload = [] ∨ a.second.Covers r.payload.length)

instance (a : Arrival) (r : Request) : Decidable (a.Reads r) :=
  inferInstanceAs (Decidable (_ ∧ _))

/-- A CMD_SUBMIT with its payload is read as it was written, or not at all. -/
theorem submitCase_bytes {a : Arrival} {c : OpCmdSubmit} {payload : List UInt8}
    (rest : List UInt8) (h : (Request.cmdSubmit c payload).WellFormed) :
    submitCase a (c.bytes ++ payload ++ rest) =
      if payload.length < 2 ^ 31 ∧ a.Reads (.cmdSubmit c payload) then
        .handled (.cmdSubmit c payload) rest
      else .exit := by
  obtain ⟨-, hset, hpay⟩ := h
  have hread : a.Reads (.cmdSubmit c payload) ↔
      a.first.Covers 48 ∧ (payload = [] ∨ a.second.Covers payload.length) := Iff.rfl
  rw [submitCase, List.append_assoc]
  by_cases hfirst : a.first.Covers 48
  · rw [recvAll_append (payload ++ rest) (c.length_bytes hset) hfirst (by decide)]
    dsimp only
    rw [c.read_bytes]
    unfold OpCmdSubmit.payloadLength at hpay
    by_cases hdir : c.direction = 0
    · rw [if_pos hdir] at hpay
      rw [if_neg (not_not.mpr hdir)]
      by_cases hz : c.bufferLength.toNat = 0
      · have hnil : payload = [] := List.eq_nil_of_length_eq_zero (hpay.trans hz)
        subst hnil
        rw [if_neg (not_not.mpr hz), List.nil_append]
        exact (if_pos ⟨Nat.two_pow_pos 31, hread.mpr ⟨hfirst, .inl rfl⟩⟩).symm
      · have hne : payload ≠ [] := by
          rintro rfl
          exact hz hpay.symm
        have hlt : c.bufferLength.toNat < 2 ^ 32 := c.bufferLength.isLt
        rw [if_pos hz]
        by_cases hs : a.second.Covers payload.length ∧ payload.length < 2 ^ 31
        · rw [if_pos ⟨hs.2, hread.mpr ⟨hfirst, .inr hs.1⟩⟩, ← hpay,
            recvAll_append rest rfl hs.1 hs.2]
        · rw [if_neg fun hok ↦ hs ⟨(hread.mp hok.2).2.resolve_left hne, hok.1⟩, ← hpay,
            recvAll_eq_none _ (by omega) hs]
    · rw [if_neg hdir] at hpay
      have hnil : payload = [] := List.eq_nil_of_length_eq_zero hpay
      subst hnil
      rw [if_pos hdir, List.nil_append]
      exact (if_pos ⟨Nat.two_pow_pos 31, hread.mpr ⟨hfirst, .inl rfl⟩⟩).symm
  · rw [recvAll_eq_none _ (by decide) fun hok ↦ hfirst hok.1]
    exact (if_neg fun hok ↦ hfirst (hread.mp hok.2).1).symm

/-- So is a CMD_UNLINK. -/
theorem unlinkCase_bytes {a : Arrival} {r : RetSubmit} (rest : List UInt8)
    (h : r.setup.length = 8) : unlinkCase a (r.bytes ++ rest) =
      if a.first.Covers 48 then .handled (.cmdUnlink r) rest else .exit := by
  unfold unlinkCase
  by_cases hfirst : a.first.Covers 48
  · rw [if_pos hfirst, recvAll_append rest (RetSubmit.length_bytes h) hfirst (by decide)]
    dsimp only
    rw [r.read_bytes]
  · rw [if_neg hfirst, recvAll_eq_none _ (by decide) fun hok ↦ hfirst hok.1]

/-- So is an OP_REQ_IMPORT. -/
theorem importCase_bytes {a : Arrival} {header : UsbipOpHeader} {busid : List UInt8}
    (rest : List UInt8) (h : busid.length = 32) : importCase a (header.bytes ++ busid ++ rest) =
      if a.first.Covers 40 then .handled (.opReqImport header busid) rest else .exit := by
  have hlen : (header.bytes ++ busid).length = 40 := by
    rw [List.length_append, header.length_bytes, h]
  unfold importCase
  by_cases hfirst : a.first.Covers 40
  · rw [if_pos hfirst, recvAll_append rest hlen hfirst (by decide)]
    dsimp only
    rw [header.read_bytes, List.drop_left' header.length_bytes]
  · rw [if_neg hfirst, recvAll_eq_none _ (by decide) fun hok ↦ hfirst hok.1]

/-- So is an OP_REQ_DEVLIST. -/
theorem devlistCase_bytes {a : Arrival} {header : UsbipOpHeader} (rest : List UInt8) :
    devlistCase a (header.bytes ++ rest) =
      if a.first.Covers 8 then .handled (.opReqDevlist header) rest else .exit := by
  have hread := header.read_bytes []
  rw [List.append_nil] at hread
  unfold devlistCase
  by_cases hfirst : a.first.Covers 8
  · rw [if_pos hfirst, recvAll_append rest header.length_bytes hfirst (by decide)]
    dsimp only
    rw [hread]
  · rw [if_neg hfirst, recvAll_eq_none _ (by decide) fun hok ↦ hfirst hok.1]

/-- The bytes sent with a message are so few that their number is an `int`. -/
def Message.Small (m : Message) : Prop := m.1.payload.length < 2 ^ 31

instance (m : Message) : Decidable m.Small := inferInstanceAs (Decidable (_ < _))

-- without a payload there is one thing to read
private theorem reads_iff (a : Arrival) (m : Message) (h : m.1.payload = []) :
    m.Small ∧ a.Reads m.1 ↔ a.first.Covers m.1.headLength := by
  have hsmall : m.Small := by
    rw [Message.Small, h]
    exact Nat.two_pow_pos 31
  exact ⟨fun hok ↦ hok.2.1, fun hfirst ↦ ⟨hsmall, hfirst, .inl h⟩⟩

/-- A message in front is recognised as what it is, and exactly its bytes are taken; or
it is too long, or not all given, and the process ends. -/
theorem acceptIteration_message {a : Arrival} {m : Message} (rest : List UInt8)
    (hp : a.peek.Covers 4) : acceptIteration a (m.1.bytes ++ rest) =
      if m.Small ∧ a.Reads m.1 then .handled m.1 rest else .exit := by
  obtain ⟨r, hr⟩ := m
  have hlen := hr.length_le
  obtain ⟨n, hn, -, hgot⟩ := Arrival.received_covers hp (r.bytes ++ rest)
  have hne : (r.bytes ++ rest).take n ≠ [] := by
    intro hnil
    have hzero := congrArg List.length hnil
    rw [List.length_take, List.length_append, List.length_nil] at hzero
    omega
  unfold acceptIteration
  simp only [hgot, if_neg hne, a.header_command rest hr hn]
  cases r with
  | cmdSubmit c payload =>
    have hcmd : (Request.cmdSubmit c payload).command = 0x0001 := hr.1
    rw [hcmd, if_pos rfl]
    exact submitCase_bytes rest hr
  | cmdUnlink r =>
    have hcmd : (Request.cmdUnlink r).command = 0x0002 := hr.1
    rw [hcmd, if_neg (by decide), if_pos rfl]
    exact (unlinkCase_bytes rest hr.2).trans (if_congr (reads_iff a ⟨_, hr⟩ rfl).symm rfl rfl)
  | opReqImport header busid =>
    have hcmd : (Request.opReqImport header busid).command = 0x8003 := hr.1
    rw [hcmd, if_neg (by decide), if_neg (by decide), if_pos rfl]
    exact (importCase_bytes rest hr.2).trans (if_congr (reads_iff a ⟨_, hr⟩ rfl).symm rfl rfl)
  | opReqDevlist header =>
    have hcmd : (Request.opReqDevlist header).command = 0x8005 := hr
    rw [hcmd, if_neg (by decide), if_neg (by decide), if_neg (by decide), if_pos rfl]
    exact (devlistCase_bytes rest).trans (if_congr (reads_iff a ⟨_, hr⟩ rfl).symm rfl rfl)

/-! ### A stream of messages -/

/-- The stream from a message on starts with its bytes. -/
theorem stream_drop {ms : List Message} {i : Nat} (h : i < ms.length) :
    stream (ms.drop i) = (ms.get ⟨i, h⟩).1.bytes ++ stream (ms.drop (i + 1)) := by
  rw [List.drop_eq_getElem_cons h, stream_cons]
  rfl

section Positions

variable {arrivals : Nat → Arrival} {ms : List Message}

/-- A message that was handled moves the position behind it. -/
theorem position_succ {l rest : List UInt8} {i : Nat} {req : Request}
    (h : position arrivals l i = some rest) {rest' : List UInt8}
    (ha : acceptIteration (arrivals i) rest = .handled req rest') :
    position arrivals l (i + 1) = some rest' := by
  show (position arrivals l i).bind (nextPosition (arrivals i)) = some rest'
  rw [h, Option.bind_some, nextPosition, ha]

/-- One message more. -/
theorem iteration_stream {i : Nat} (hi : i < ms.length) (hp : (arrivals i).peek.Covers 4)
    (hs : (ms.get ⟨i, hi⟩).Small) (hr : (arrivals i).Reads (ms.get ⟨i, hi⟩).1) :
    acceptIteration (arrivals i) (stream (ms.drop i)) =
      .handled (ms.get ⟨i, hi⟩).1 (stream (ms.drop (i + 1))) := by
  rw [stream_drop hi, acceptIteration_message _ hp]
  exact if_pos ⟨hs, hr⟩

/-- The messages are taken one by one. -/
theorem position_stream {i : Nat} (hi : i ≤ ms.length)
    (hp : ∀ j < ms.length, (arrivals j).peek.Covers 4) (hs : ∀ m ∈ ms, Message.Small m)
    (hr : ∀ j (hj : j < ms.length), (arrivals j).Reads (ms.get ⟨j, hj⟩).1) :
    position arrivals (stream ms) i = some (stream (ms.drop i)) := by
  induction i with
  | zero => rfl
  | succ i ih =>
    have hlt : i < ms.length := hi
    apply position_succ (ih (by omega))
    exact iteration_stream hlt (hp i hlt) (hs _ (List.get_mem ms _)) (hr i hlt)

/-- At the end of the stream the connection is closed, or the process ends. -/
theorem acceptIteration_nil (a : Arrival) :
    acceptIteration a [] = if a.peek = .failed then .exit else .closed := by
  unfold acceptIteration Arrival.received
  cases a.peek <;> simp

/-- Where the stream ends there is no iteration after it. -/
theorem position_end {l : List UInt8} {i j : Nat} (h : position arrivals l i = some [])
    (hj : i < j) : position arrivals l j = none := by
  induction j with
  | zero => omega
  | succ j ih =>
    show (position arrivals l j).bind (nextPosition (arrivals j)) = none
    by_cases hij : i = j
    · rw [← hij, h, Option.bind_some, nextPosition, acceptIteration_nil]
      cases (arrivals i).peek <;> rfl
    · rw [ih (by omega)]
      rfl

end Positions

/-- The loop recognises a list of messages: every iteration takes the next of them as it
was written and ends where it ends, and after the last the connection is closed. -/
structure Recognises (arrivals : Nat → Arrival) (ms : List Message) : Prop where
  each : ∀ i (hi : i < ms.length), position arrivals (stream ms) i = some (stream (ms.drop i)) ∧
    acceptIteration (arrivals i) (stream (ms.drop i)) =
      .handled (ms.get ⟨i, hi⟩).1 (stream (ms.drop (i + 1)))
  finish : position arrivals (stream ms) ms.length = some [] ∧
    acceptIteration (arrivals ms.length) [] = .closed

/-- Every `recv` of an iteration gives what it asks for. -/
structure Arrival.Full (a : Arrival) : Prop where
  peek : a.peek.Covers 8
  first : a.first.Covers 48
  second : ∀ n, a.second.Covers n

/-- A `recv` that returns enough returns enough for less. -/
theorem Recv.Covers.mono {x : Recv} {m n : Nat} (h : x.Covers n) (hle : m ≤ n) : x.Covers m := by
  cases x with
  | failed => exact h.elim
  | full => trivial
  | upTo k => exact Nat.le_trans hle h

/-- An iteration whose calls all return what they ask for reads any request. -/
theorem Arrival.Full.reads {a : Arrival} (h : a.Full) (r : Request) : a.Reads r := by
  have hle : r.headLength ≤ 48 := by
    cases r <;> simp [Request.headLength]
  exact ⟨h.first.mono hle, .inr (h.second _)⟩

private theorem Arrival.Full.peek_four {a : Arrival} (h : a.Full) : a.peek.Covers 4 :=
  h.peek.mono (by decide)

/-- Where every `recv` gives what was asked for, a list of messages is recognised if and
only if no payload is too long for an `int`. -/
theorem recognises_iff {arrivals : Nat → Arrival} (hfull : ∀ i, (arrivals i).Full)
    (ms : List Message) : Recognises arrivals ms ↔ ∀ m ∈ ms, Message.Small m := by
  have hpeek : ∀ i, (arrivals i).peek.Covers 4 := fun i ↦ (hfull i).peek_four
  constructor
  · intro h m hm
    obtain ⟨⟨i, hi⟩, rfl⟩ := List.get_of_mem hm
    by_contra hbig
    have hacc := (h.each i hi).2
    rw [stream_drop hi, acceptIteration_message _ (hpeek i), if_neg fun hok ↦ hbig hok.1] at hacc
    cases hacc
  · intro hs
    have hreads : ∀ i (hi : i < ms.length), (arrivals i).Reads (ms.get ⟨i, hi⟩).1 :=
      fun i _ ↦ (hfull i).reads _
    constructor
    · intro i hi
      have hm := hs _ (List.get_mem ms ⟨i, hi⟩)
      exact ⟨position_stream (by omega) (fun j _ ↦ hpeek j) hs hreads,
        iteration_stream hi (hpeek i) hm (hreads i hi)⟩
    · have hend := position_stream (Nat.le_refl ms.length) (fun j _ ↦ hpeek j) hs hreads
      rw [List.drop_length] at hend
      refine ⟨hend, ?_⟩
      rw [acceptIteration_nil]
      apply if_neg
      intro hfailed
      have hcover := hpeek ms.length
      rw [hfailed] at hcover
      exact hcover

/-- Every `recv` gives what it asks for. -/
def wholeArrivals : Nat → Arrival := fun _ ↦ ⟨.full, [], .full, .full⟩

/-- Calls that return everything return what they are asked for. -/
theorem wholeArrivals_full (i : Nat) : (wholeArrivals i).Full :=
  ⟨trivial, trivial, fun _ ↦ trivial⟩

/-- An OP_REQ_DEVLIST of protocol version 1.1.1. -/
def reqDevlist : Message := ⟨.opReqDevlist ⟨0x01118005, 0⟩, by decide⟩

/-- A device list is asked for twice, and both requests are recognised. -/
theorem recognises_iff_example : Recognises wholeArrivals [reqDevlist, reqDevlist] :=
  (recognises_iff wholeArrivals_full [reqDevlist, reqDevlist]).mpr (by
    intro m hm
    have hm' : m = reqDevlist := by simpa using hm
    rw [hm']
    exact Nat.two_pow_pos 31)

/-- A CMD_SUBMIT of direction OUT with `n` zero bytes. -/
def submitZeros (n : BitVec 32) : Message :=
  ⟨.cmdSubmit ⟨1, 1, 1, 0, 2, 0, n, 0, 0, 0, List.replicate 8 0⟩ (List.replicate n.toNat 0),
    rfl, List.length_replicate, List.length_replicate⟩

/-- Two gigabytes of payload make the process exit. -/
theorem submitZeros_not_recognised : ¬ Recognises wholeArrivals [submitZeros 0x80000000] := by
  intro h
  have hacc := (h.each 0 Nat.one_pos).2
  have hlen : (submitZeros 0x80000000).1.payload.length = 2 ^ 31 := List.length_replicate
  have hbig : ¬ (submitZeros 0x80000000).Small := by
    show ¬ (submitZeros 0x80000000).1.payload.length < 2 ^ 31
    rw [hlen]
    exact Nat.lt_irrefl _
  rw [stream_drop Nat.one_pos, acceptIteration_message _ (wholeArrivals_full 0).peek_four] at hacc
  rw [show [submitZeros 0x80000000].get ⟨0, Nat.one_pos⟩ = submitZeros 0x80000000 from rfl] at hacc
  rw [if_neg fun hok ↦ hbig hok.1] at hacc
  cases hacc

end BiMpp.Usbip
