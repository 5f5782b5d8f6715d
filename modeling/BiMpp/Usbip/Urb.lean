import BiMpp.Host.Types

/-!
# Requests, replies and URBs

The messages of `bi-mpp-pic24-usb-simulator-master/include/usbip.h:71–103`, the URB that
carries a request through the server, and the transfer descriptors `sys_urb_submit`
links for it, `src/sys.c:189–239`.
-/

namespace BiMpp.Usbip
open BiMpp.Usb BiMpp.Host

/-- `usbip_op_cmd_submit_t` in host byte order, with the fields the server uses;
`usbip.h:71–86`. -/
structure CmdSubmit where
  seqnum : BitVec 32
  devid : BitVec 32
  direction : BitVec 32
  ep : BitVec 32
  bufferLength : BitVec 32
  setup : List UInt8
  deriving DecidableEq, Repr

namespace CmdSubmit

/-- `submit.setup.as_int != 0`: the request is a control transfer; `sys.c:189`. -/
def isControl (c : CmdSubmit) : Bool := c.setup.any (· != 0)

/-- `submit.devid & 0xFFFF`; `sys.c:195`. -/
def address (c : CmdSubmit) : Int := ((c.devid &&& 0xFFFF).toNat : Int)

/-- `submit.direction` as a truth value. -/
def dirIn (c : CmdSubmit) : Bool := c.direction != 0

/-- `bmRequestType & 0x80`; `sys.c:191`. -/
def requestIn (c : CmdSubmit) : Bool := c.setup.getD 0 0 &&& 0x80 != 0

/-- `setup.as_req.wLength`. -/
def wLength (c : CmdSubmit) : Nat := (c.setup.getD 6 0).toNat + 256 * (c.setup.getD 7 0).toNat

/-- `submit.buffer_length` as the `int` it becomes. -/
def size (c : CmdSubmit) : Int := c.bufferLength.toInt

/-- A request with a setup field of eight bytes and a non-negative signed length. -/
def Valid (c : CmdSubmit) : Prop := c.setup.length = 8 ∧ 0 ≤ c.size

instance (c : CmdSubmit) : Decidable c.Valid := inferInstanceAs (Decidable (_ ∧ _))

end CmdSubmit

/-- The fields of `urb_t` that the threads use; `urb.h`. -/
structure Urb where
  submit : CmdSubmit
  maxPacketSize : Int
  data : List UInt8
  length : Int
  deriving DecidableEq, Repr

/-- `htonl`: the four bytes of a word on the wire. -/
def htonl (x : BitVec 32) : List UInt8 :=
  [⟨x.extractLsb' 24 8⟩, ⟨x.extractLsb' 16 8⟩, ⟨x.extractLsb' 8 8⟩, ⟨x.extractLsb' 0 8⟩]

/-- `usbip_op_ret_submit_t` in host byte order; `usbip.h:88–103`. -/
structure RetSubmit where
  submitCmd : BitVec 32
  seqnum : BitVec 32
  devid : BitVec 32
  direction : BitVec 32
  ep : BitVec 32
  status : BitVec 32
  actualLength : BitVec 32
  startFrame : BitVec 32
  numberOfPackets : BitVec 32
  errorCount : BitVec 32
  setup : List UInt8
  deriving DecidableEq, Repr

/-- The reply as it is sent. -/
def RetSubmit.bytes (r : RetSubmit) : List UInt8 :=
  htonl r.submitCmd ++ htonl r.seqnum ++ htonl r.devid ++ htonl r.direction ++ htonl r.ep ++
    htonl r.status ++ htonl r.actualLength ++ htonl r.startFrame ++ htonl r.numberOfPackets ++
    htonl r.errorCount ++ r.setup

/-- The reply `on_urb_complete` builds; its `setup` is never assigned and holds whatever
was on the stack; `usbip.c:85–100`. -/
def retSubmit (b : Urb) (stack : List UInt8) : RetSubmit where
  submitCmd := 3
  seqnum := b.submit.seqnum
  devid := b.submit.devid
  direction := b.submit.direction
  ep := b.submit.ep
  status := 0
  actualLength := BitVec.ofInt 32 b.length
  startFrame := 0
  numberOfPackets := 0
  errorCount := 0
  setup := stack

/-- The payload after the reply; `usbip.c:105–106`. -/
def Urb.payload (b : Urb) : List UInt8 :=
  if b.submit.dirIn then b.data.take b.length.toNat else []

/-- The transfer descriptors of a request: the three stages of a control transfer, or
the one of any other. -/
inductive Stage
  | setup
  | data
  | status
  | direct
  deriving DecidableEq, Repr

/-- The stages in the order `sys_urb_submit` links them. -/
def Stage.code : Stage → Nat
  | setup => 0
  | data => 1
  | status => 2
  | direct => 3

/-- The URB of a stage: the request's own for a direct transfer, one of the submitting
thread's stack otherwise. The number only keeps them apart. -/
def stageUrb (u : Nat) (st : Stage) : Nat := 4 * u + st.code

/-- The request a URB belongs to. -/
def urbOwner (v : Nat) : Nat := v / 4

/-- The URB of a stage belongs to its request. -/
@[simp] theorem urbOwner_stageUrb (u : Nat) (st : Stage) : urbOwner (stageUrb u st) = u := by
  cases st <;> simp only [urbOwner, stageUrb, Stage.code] <;> omega

/-- Different requests and stages have different URBs. -/
theorem stageUrb_inj {u u' : Nat} {st st' : Stage} (h : stageUrb u st = stageUrb u' st') :
    u = u' ∧ st = st' := by
  cases st <;> cases st' <;> simp only [stageUrb, Stage.code] at h <;>
    first
    | exact ⟨by omega, rfl⟩
    | omega

/-- The first stage linked; `sys.c:189`. -/
def CmdSubmit.firstStage (c : CmdSubmit) : Stage := if c.isControl then .setup else .direct

/-- The stage after one whose URB is done; `sys.c:203–219`. -/
def CmdSubmit.nextStage (c : CmdSubmit) : Stage → Option Stage
  | .setup => if 0 < c.wLength then some .data else some .status
  | .data => some .status
  | .status => none
  | .direct => none

/-- The stages of a request. -/
def CmdSubmit.stages (c : CmdSubmit) : List Stage :=
  if c.isControl then
    if 0 < c.wLength then [.setup, .data, .status] else [.setup, .status]
  else [.direct]

/-- The calls of `hcd_gtd_link`; `sys.c:193–238`. -/
def Urb.linkArgs (u : Nat) (b : Urb) : Stage → LinkArgs
  | .setup =>
    ⟨b.submit.address, b.submit.ep.toInt, false, true, 0, b.maxPacketSize, b.submit.setup, 8,
      ⟨stageUrb u .setup, 8⟩⟩
  | .data =>
    ⟨b.submit.address, b.submit.ep.toInt, b.submit.requestIn, false, 1, b.maxPacketSize, b.data,
      b.submit.size, ⟨stageUrb u .data, b.submit.size⟩⟩
  | .status =>
    ⟨b.submit.address, b.submit.ep.toInt, !b.submit.requestIn, false, 1, b.maxPacketSize, [], 0,
      ⟨stageUrb u .status, 0⟩⟩
  | .direct =>
    ⟨b.submit.address, b.submit.ep.toInt, b.submit.dirIn, false, 2, b.maxPacketSize, b.data,
      b.submit.size, ⟨stageUrb u .direct, b.submit.size⟩⟩

/-- A stage is linked with the packet size of its URB. -/
@[simp] theorem Urb.linkArgs_mps (u : Nat) (b : Urb) (st : Stage) :
    (b.linkArgs u st).mps = b.maxPacketSize := by
  cases st <;> rfl

/-- A stage is linked under a name of its own. -/
@[simp] theorem Urb.linkArgs_urb_id (u : Nat) (b : Urb) (st : Stage) :
    (b.linkArgs u st).urb.id = stageUrb u st := by
  cases st <;> rfl

/-- What a completed stage leaves in the request's URB; `sys.c:203,216`. -/
def Urb.afterStage (b : Urb) (c : Completion) : Stage → Urb
  | .setup => { b with length := 0 }
  | .data => { b with data := c.data, length := c.length }
  | .status => b
  | .direct => { b with data := c.data, length := c.length }

/-- A stage that completes leaves the request. -/
@[simp] theorem Urb.submit_afterStage (b : Urb) (c : Completion) (st : Stage) :
    (b.afterStage c st).submit = b.submit := by
  cases st <;> rfl

/-- A stage that completes leaves the packet size. -/
@[simp] theorem Urb.maxPacketSize_afterStage (b : Urb) (c : Completion) (st : Stage) :
    (b.afterStage c st).maxPacketSize = b.maxPacketSize := by
  cases st <;> rfl

end BiMpp.Usbip
