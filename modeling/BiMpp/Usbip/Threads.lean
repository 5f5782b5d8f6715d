import BiMpp.Base.Locks
import BiMpp.Device.Events
import BiMpp.Host.Loop
import BiMpp.Host.UrbList
import BiMpp.Usbip.Enumeration

/-!
# The four threads

`accept_loop`, `system_loop`, `hcd_loop` and the firmware's main loop as programs over the
memory they share, with every mutex operation a step of its own: `hcd.c`, `sys.c`, `urb.c`,
`usbip.c` and `usb_lib_usbip.c` under `bi-mpp-pic24-usb-simulator-master/src`. The accesses
between two mutex operations are those of the models of the driver, the URB list and the
library. What a thread reads from the network or from descriptors is its input.
-/

namespace BiMpp.Usbip
open BiMpp.Usb BiMpp.Base BiMpp.Host BiMpp.Device

/-! ### What the threads share -/

/-- The threads. -/
inductive SimThread
  | acceptLoop
  | systemLoop
  | hcdLoop
  | firmware
  deriving DecidableEq, Repr

/-- The mutexes: `hcd->lock`, `sys->lock`, the `lock` of each URB and that of the event
queue. -/
inductive Mutex
  | hcd
  | sys
  | urb (u : UrbPtr)
  | epQueue
  deriving DecidableEq, Repr

/-- The only handler ever set; `usbip.c:192,214`. -/
inductive DoneHandler
  | onUrbComplete
  deriving DecidableEq, Repr

/-- The fields of `urb_t` that completing and freeing a URB read, besides those of the list;
`urb.h`. -/
structure UrbFields where
  done : Bool
  doneHandler : Option DoneHandler
  td : Option GtdPtr
  deriving DecidableEq, Repr

/-- The memory. `slot` is the local `state` of `hcd_loop`; the number of a request tells its
URBs from those of other requests. -/
structure Shared where
  hcd : Hcd
  slot : LoopSlot
  attached : Bool
  devReady : Bool
  urbs : UrbList
  urb : UrbPtr → UrbFields
  nextUrb : Nat
  lib : UsbLib

/-- After `usb_init`, with the library as it left it; `usbip_server.c:13–22`. -/
def sharedInit (lib : UsbLib) : Shared where
  hcd := hcdInit
  slot := loopInit.slot
  attached := false
  devReady := false
  urbs := urbListInit
  urb := fun _ ↦ ⟨false, none, none⟩
  nextUrb := 0
  lib := lib

/-- Change the fields of a URB. -/
def Shared.setUrb (s : Shared) (u : UrbPtr) (f : UrbFields → UrbFields) : Shared :=
  { s with urb := Function.update s.urb u (f (s.urb u)) }

/-- A URB after `urb_init`. -/
def Shared.initUrb (s : Shared) (u : UrbPtr) : Shared :=
  { s with urbs := Host.urbInit s.urbs u, urb := Function.update s.urb u ⟨false, none, none⟩ }

/-- What the firmware does next with the library; calls that only read are left out. -/
inductive FirmwareStep
  | isTransferDone
  | getTrnStatus
  | call (c : FirmwareCall)
  deriving DecidableEq, Repr

/-- What comes from outside a thread's program: the message read, what the buffer allocated
for it holds, whether `recv` or `send` did all they were asked for, what the fields of
`sys_t` say, and the firmware's choice. -/
structure SimInput where
  request : Option Request
  buffer : List UInt8
  complete : Bool
  sys : Sys
  firmware : FirmwareStep

/-- The programs of the simulator. -/
abbrev SimProg := Prog Shared Mutex SimInput

open Prog

namespace Threads

/-! ### The event queue -/

/-- `__notify_ep`; `usb_lib_usbip.c:78–84`. -/
def notifyEp (ep : BitVec 8) : SimProg Unit := do
  mutexLock .epQueue
  modify fun s ↦ { s with lib := Device.notifyEp s.lib ep }
  mutexUnlock .epQueue

/-- `__usb_transfer`, with `__notify_ep` for an acknowledged transaction;
`usb_lib_usbip.c:232–300`. -/
def usbTransfer (addr : Int) (ep : BitVec 8) (pid : UsbPid) (data : List UInt8)
    (size : Int) : SimProg Response := do
  let (_, r) ← access (fun s : Shared ↦ Device.usbTransfer s.lib addr ep pid data size)
    fun s x ↦ { s with lib := { x.1 with epQueue := s.lib.epQueue } }
  if UsbPid.isData pid && r.isAck then
    notifyEp ep
    return r
  else return r

/-- With nothing in between, the two halves are the whole of `__usb_transfer`. -/
theorem usbTransfer_halves {d d' : UsbLib} {addr : Int} {ep : BitVec 8} {pid : UsbPid}
    {data : List UInt8} {size : Int} {r : Response}
    (h : Device.usbTransfer d addr ep pid data size = .ok (d', r)) :
    (if UsbPid.isData pid && r.isAck then Device.notifyEp { d' with epQueue := d.epQueue } ep
      else { d' with epQueue := d.epQueue }) = d' := by
  have hq := usbTransfer_epQueue h
  unfold Device.notifyEp
  split at hq
  · next hack =>
    rw [if_pos hack]
    dsimp only
    rw [← hq]
  · next hquiet => rw [if_neg hquiet, ← hq]

/-- `is_transfer_done`; `usb_lib_usbip.c:60–66,203–205`. -/
def isTransferDone : SimProg Bool := do
  mutexLock .epQueue
  let s ← get
  mutexUnlock .epQueue
  return Device.isTransferDone s.lib

/-- `get_trn_status`; `usb_lib_usbip.c:68–76,207–209`. -/
def getTrnStatus : SimProg (BitVec 8) := do
  mutexLock .epQueue
  let s ← get
  modify fun s ↦ { s with lib := (Device.getTrnStatus s.lib).2 }
  mutexUnlock .epQueue
  return (Device.getTrnStatus s.lib).1

/-- One round of the firmware's main loop, whatever it does next. -/
def mainLoop : SimProg Unit := do
  let x ← receive
  match x.firmware with
  | .isTransferDone =>
    let _ ← isTransferDone
  | .getTrnStatus =>
    let _ ← getTrnStatus
  | .call c => modify fun s ↦ { s with lib := s.lib.call c }

/-! ### The driver -/

/-- `hcd_gtd_link`; `hcd.c:55–113`. -/
def hcdGtdLink (a : LinkArgs) : SimProg Unit := do
  mutexLock .hcd
  let _ ← access (fun s : Shared ↦ Host.hcdGtdLink s.hcd a) fun s x ↦ { s with hcd := x.1 }
  mutexUnlock .hcd

/-- `hcd_bus_reset`; `hcd.c:245–250`. -/
def hcdBusReset : SimProg Unit := do
  mutexLock .hcd
  let _ ← usbTransfer 0 0 .reset [] 0
  mutexUnlock .hcd

/-- The search of `hcd_gtd_unlink` behind the first descriptor of a queue. It finds nothing
at the queue's end and begins again, for ever; `hcd.c:310–322`. -/
def searchBehind (h : Hcd) (g : GtdPtr) : Nat → Option GtdPtr → Except Fault Hcd
  | 0, _ => .error .diverged
  | _ + 1, none => .error .diverged
  | fuel + 1, some l => do
    let (_, n) ← h.load (some l)
    if n.nextTD = some g then
      let (_, m) ← h.load (some g)
      return h.setGtd l { n with nextTD := m.nextTD }
    else searchBehind h g fuel n.nextTD

/-- The loop of `hcd_gtd_unlink` at the first control endpoint, which it never leaves for the
next one; `hcd.c:309–323`. -/
def unlinkAtFirst (h : Hcd) (g : GtdPtr) : Except Fault Hcd := do
  let e ← h.epd .control 0
  if e.tdQueueHeadPointer = some g then
    let (_, n) ← h.load (some g)
    return h.setEpd .control 0 { e with tdQueueHeadPointer := n.nextTD }
  else searchBehind h g (h.nextGtd + 1) e.tdQueueHeadPointer

/-- `hcd_gtd_unlink`. Where it finds the descriptor it returns without unlocking;
`hcd.c:303–325`. -/
def hcdGtdUnlink : Option GtdPtr → SimProg Unit
  | none => return ()
  | some g => do
    mutexLock .hcd
    let s ← get
    if s.hcd.controlList.isEmpty then mutexUnlock .hcd
    else
      let _ ← access (fun s : Shared ↦ unlinkAtFirst s.hcd g) fun s h ↦ { s with hcd := h }

/-! ### URBs -/

/-- `urb_init`; `urb.c:30–34`. -/
def urbInit (u : UrbPtr) : SimProg Unit := modify fun s ↦ s.initUrb u

/-- `urb_create`: the number of a new request, whose own URB is ready; `urb.c:36–46`. -/
def urbCreate : SimProg Nat :=
  access (fun s : Shared ↦ (.ok s.nextUrb : Except Fault Nat))
    fun s u ↦ { s.initUrb (stageUrb u .direct) with nextUrb := u + 1 }

/-- `urb_set_done_handler`; `urb.c:83–88`. -/
def urbSetDoneHandler (u : UrbPtr) (handler : Option DoneHandler) : SimProg Unit := do
  mutexLock (.urb u)
  modify fun s ↦ s.setUrb u fun b ↦ { b with doneHandler := handler }
  mutexUnlock (.urb u)

/-- `urb_wait`. A wait that times out gives a positive number, and only a negative one would
end the loop; `urb.c:64–81`. -/
def urbWait (u : UrbPtr) : SimProg Unit := do
  mutexLock (.urb u)
  condWaitWhile (.urb u) fun s ↦ !(s.urb u).done
  mutexUnlock (.urb u)

/-- `sys_urb_unlink`; `sys.c:153–173`. -/
def sysUrbUnlink (u : UrbPtr) : SimProg Unit := do
  let (_, n) ← access (fun s : Shared ↦ s.urbs.load (some u)) fun s _ ↦ s
  if n.sys then
    mutexLock .sys
    let (_, n) ← access (fun s : Shared ↦ s.urbs.load (some u)) fun s _ ↦ s
    let _ ← access (fun s : Shared ↦ unlinkUrb s.urbs u n) fun s l ↦ { s with urbs := l }
    mutexUnlock .sys
    let s ← get
    hcdGtdUnlink (s.urb u).td
    let _ ← access (fun s : Shared ↦ s.urbs.setSys u false) fun s l ↦ { s with urbs := l }
    modify fun s ↦ s.setUrb u fun b ↦ { b with td := none }
  else return ()

/-- `urb_destroy`; `urb.c:48–57`. -/
def urbDestroy (u : UrbPtr) : SimProg Unit := do
  let (_, n) ← access (fun s : Shared ↦ s.urbs.load (some u)) fun s _ ↦ s
  if n.sys then sysUrbUnlink u else return ()

/-- `urb_free`. The address is not used again; `urb.c:59–62`. -/
def urbFree (u : UrbPtr) : SimProg Unit := urbDestroy u

/-- `on_urb_complete`; its two `send` take no mutex; `usbip.c:81–112`. -/
def onUrbComplete (u : UrbPtr) : SimProg Unit := urbFree u

/-- `urb_done`, with the handler; `urb.c:96–112`. -/
def urbDone (u : UrbPtr) : SimProg Unit := do
  mutexLock (.urb u)
  modify fun s ↦ s.setUrb u fun b ↦ { b with done := true }
  let s ← get
  mutexUnlock (.urb u)
  match (s.urb u).doneHandler with
  | some .onUrbComplete => onUrbComplete u
  | none => return ()

/-! ### `hcd_loop` -/

/-- `hcd_wait_for_event`; `hcd.c:271–277`. -/
def hcdWaitForEvent : SimProg Unit := do
  mutexLock .hcd
  condWaitWhile .hcd fun s ↦ s.hcd.notify == 0
  mutexUnlock .hcd

/-- The packet for the first ready endpoint, with the address it goes to and the bytes it
offers; `hcd.c:164–202`. -/
def nextPacket (h : Hcd) (w : EpdList) (epd : Option EpdPtr) :
    Except Fault (Option (Int × Packet × List UInt8)) := do
  match ← seekReady (h.list w) epd with
  | none => return none
  | some i =>
    let e ← h.epd w i
    let (_, n) ← h.load e.tdQueueHeadPointer
    let p := n.toTd.loadToggle e.toggleCarry
    let k ← choosePacket e.toEpdCore p
    return some (e.functionAddress, k, p.offered k)

/-- What `hcd_gtd_send` does to the driver, with the device's response; `hcd.c:164–242`. -/
def served (w : EpdList) (epd : Option EpdPtr) (r : Response) : SimProg Unit :=
  do
    let _ ← access (fun s : Shared ↦ Host.hcdGtdSend s.hcd w epd w.notification r)
      fun s x ↦ { s with hcd := x.1 }

/-- `hcd_gtd_send` on the endpoint pointer it was called with. If no endpoint is ready there
is no response, and none is looked at; `hcd.c:159–243`. -/
def hcdGtdSend (w : EpdList) (epd : Option EpdPtr) : SimProg Unit := do
  mutexLock .hcd
  let packet ← access (fun s : Shared ↦ nextPacket s.hcd w epd) fun s _ ↦ s
  match packet with
  | none =>
    served w epd .nak
    mutexUnlock .hcd
  | some (addr, k, data) =>
    let r ← usbTransfer addr (BitVec.ofInt 8 k.ep) k.pid data k.size
    served w epd r
    mutexUnlock .hcd

/-- `hcd_process_done_list`; `hcd.c:252–269`. -/
def hcdProcessDoneList : SimProg Unit := do
  mutexLock .hcd
  let (_, completion) ← access (fun s : Shared ↦ Host.hcdProcessDoneList s.hcd)
    fun s x ↦ { s with hcd := x.1 }
  match completion with
  | none => mutexUnlock .hcd
  | some c =>
    modify fun s ↦ s.setUrb c.urb fun b ↦ { b with td := none }
    urbDone c.urb
    mutexUnlock .hcd

/-- What `hcd_loop` calls, with the argument evaluated outside the lock; `hcd.c:335–361`. -/
def hcdCall (slot : LoopSlot) : SimProg Unit := do
  let s ← get
  match slot.list with
  | some w => hcdGtdSend w (s.hcd.listPtr w)
  | none => hcdProcessDoneList

/-- One round of `hcd_loop`; `hcd.c:327–364`. -/
def hcdLoop : SimProg Unit := do
  hcdWaitForEvent
  let s ← get
  hcdCall s.slot
  modify fun s ↦ { s with slot := s.slot.next }

/-! ### Submitting -/

/-- One stage of a control transfer, with its URB on the submitting thread's stack;
`sys.c:193–230`. -/
def controlStage (u : Nat) (b : Urb) (st : Stage) : SimProg Unit := do
  urbInit (stageUrb u st)
  hcdGtdLink (b.linkArgs u st)
  urbWait (stageUrb u st)
  urbDestroy (stageUrb u st)

/-- The data stage, if there is one; `sys.c:204–218`. -/
def dataStage (u : Nat) (b : Urb) : SimProg Unit :=
  if 0 < b.submit.wLength then controlStage u b .data else return ()

/-- `sys_urb_submit`; `sys.c:175–240`. -/
def sysUrbSubmit (u : Nat) (b : Urb) : SimProg Unit := do
  mutexLock .sys
  let _ ← access (fun s : Shared ↦ Host.sysUrbSubmit s.urbs (stageUrb u .direct))
    fun s l ↦ { s with urbs := l }
  mutexUnlock .sys
  if b.submit.isControl then
    controlStage u b .setup
    dataStage u b
    controlStage u b .status
    urbDone (stageUrb u .direct)
  else hcdGtdLink (b.linkArgs u .direct)

/-! ### `system_loop` -/

/-- `sys_usb_control_transfer`; `sys.c:242–256`. -/
def sysUsbControlTransfer (sys : Sys) (k : Transfer) : SimProg Int := do
  let u ← urbCreate
  sysUrbSubmit u ⟨sys.submit k, sys.maxPacketSize k, sys.buffer k, 0⟩
  urbWait (stageUrb u .direct)
  urbFree (stageUrb u .direct)
  return sys.returned k

/-- One instruction of an attempt, and whether the attempt goes on; `sys.c:94–138`. -/
def runInstr : Instr → SimProg Bool
  | .busReset => do
    hcdBusReset
    return true
  | .transfer k => do
    let x ← receive
    let r ← sysUsbControlTransfer x.sys k
    return decide (r = x.sys.expected k)
  | .calloc => return true
  | .publish => do
    mutexLock .sys
    modify fun s ↦ { s with devReady := true }
    mutexUnlock .sys
    return true

/-- The rest of an attempt, up to the first failed check. -/
def runInstrs : List Instr → SimProg Bool
  | [] => return true
  | i :: is => do
    if ← runInstr i then runInstrs is else return false

/-- The `for` loop over the attempts that are left; `sys.c:93–140`. -/
def attempts : Nat → SimProg Unit
  | 0 => return ()
  | n + 1 => do
    if ← runInstrs attempt then return () else attempts n

/-- One round of `system_loop`; `sys.c:89–146`. -/
def systemLoop : SimProg Unit := do
  let s ← get
  if !s.attached && s.lib.usben then
    modify fun s ↦ { s with attached := true }
    attempts 3
  else return ()

/-! ### `accept_loop` -/

/-- One message of `accept_loop`. Where `recv` or `send` do not do all they were asked for,
the process ends; `usbip.c:131–275`. -/
def acceptLoop : SimProg Unit := do
  let x ← receive
  match x.request with
  | none => return ()
  | some (.cmdSubmit c payload) =>
    if x.complete then
      let u ← urbCreate
      match x.sys.packetSize c.ep with
      | .error _ => stop
      | .ok mps =>
        urbSetDoneHandler (stageUrb u .direct) (some .onUrbComplete)
        let data := if c.direction ≠ 0 then x.buffer else payload
        sysUrbSubmit u ⟨c.toCmdSubmit, mps, data, 0⟩
    else stop
  | some (.cmdUnlink _) => if x.complete then return () else stop
  | some (.opReqImport _ _) => if x.complete then return () else stop
  | some (.opReqDevlist _) =>
    if x.complete then
      mutexLock .sys
      let x ← receive
      if x.complete then mutexUnlock .sys else stop
    else stop

end Threads

/-! ### The simulator -/

/-- What each thread runs, round after round. -/
def SimThread.body : SimThread → SimProg Unit
  | acceptLoop => Threads.acceptLoop
  | systemLoop => Threads.systemLoop
  | hcdLoop => Threads.hcdLoop
  | firmware => Threads.mainLoop

/-- The simulator between two steps. -/
abbrev Sim := Config SimThread Shared Mutex SimInput

/-- One step of one thread. -/
def simExec (c : Sim) : SimThread × SimInput → Except Refused (Sim × Unit) :=
  c.exec SimThread.body

/-- Finite runs of the four threads, interleaved in any way. -/
def SimRun (lib : UsbLib) : List ((SimThread × SimInput) × Unit) → Sim → Prop :=
  Run (Fires simExec) (Config.init (sharedInit lib))

end BiMpp.Usbip
