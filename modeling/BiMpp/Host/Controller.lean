import Mathlib.Logic.Function.Basic
import BiMpp.Base.Run
import BiMpp.Base.Chain
import BiMpp.Host.Types

/-!
# The host controller driver on its heap

`bi-mpp-pic24-usb-simulator-master/src/hcd.c`: linking, sending and retiring transfer
descriptors over a heap of cells linked by `nextTD`. Each function is one locked body;
dereferencing a null or freed cell is the fault `badPointer`. A freed address is not
handed out again, so an address names one descriptor over a whole run.
-/

namespace BiMpp.Host
open BiMpp.Usb BiMpp.Base

/-- `HCD_NOTIFY_CONTROL` and `HCD_NOTIFY_BULK`; `hcd.h:18–19`. -/
def EpdList.notification : EpdList → BitVec 32
  | control => 2
  | bulk => 4

/-- `HCD_NOTIFY_DONE`; `hcd.h:21`. -/
def notifyDone : BitVec 32 := 16

/-- The part of `hcd_t` the driver works on, with the heap of its descriptors;
`hcd.h:55–66`. -/
structure Hcd where
  notify : BitVec 32
  controlList : List Epd
  bulkList : List Epd
  doneList : Option GtdPtr
  heap : GtdPtr → Option Gtd
  nextGtd : GtdPtr

namespace Hcd

/-- The endpoint descriptors of a list. -/
def list (h : Hcd) : EpdList → List Epd
  | .control => h.controlList
  | .bulk => h.bulkList

/-- Replace a list. -/
def setList (h : Hcd) (w : EpdList) (l : List Epd) : Hcd :=
  match w with
  | .control => { h with controlList := l }
  | .bulk => { h with bulkList := l }

/-- Store through an endpoint pointer. -/
def setEpd (h : Hcd) (w : EpdList) (i : EpdPtr) (e : Epd) : Hcd :=
  h.setList w ((h.list w).set i e)

/-- Store through a descriptor pointer. -/
def setGtd (h : Hcd) (g : GtdPtr) (n : Gtd) : Hcd :=
  { h with heap := Function.update h.heap g (some n) }

/-- The successor stored in a cell, as chains read it. -/
def next (h : Hcd) (g : GtdPtr) : Option (Option GtdPtr) := (h.heap g).map Gtd.nextTD

/-- Load an endpoint descriptor. -/
def epd (h : Hcd) (w : EpdList) (i : EpdPtr) : Except Fault Epd :=
  match (h.list w)[i]? with
  | some e => .ok e
  | none => .error .badPointer

/-- Follow a descriptor pointer: the address with the cell there. -/
def load (h : Hcd) (p : Option GtdPtr) : Except Fault (GtdPtr × Gtd) :=
  match p with
  | none => .error .badPointer
  | some g =>
    match h.heap g with
    | none => .error .badPointer
    | some n => .ok (g, n)

/-- The pointer `hcd->control_list` or `hcd->bulk_list`. -/
def listPtr (h : Hcd) (w : EpdList) : Option EpdPtr :=
  if (h.list w).isEmpty then none else some 0

end Hcd

/-- `hcd_init`: the zeroed record; `hcd.c:17–31`. -/
def hcdInit : Hcd where
  notify := 0
  controlList := []
  bulkList := []
  doneList := none
  heap := fun _ ↦ none
  nextGtd := 0

/-- `__hcd_notify`; `hcd.c:294–297`. -/
def hcdNotify (h : Hcd) (notification : BitVec 32) : Hcd :=
  { h with notify := h.notify ||| notification }

/-- `__hcd_clear_notification`; `hcd.c:299–301`. -/
def hcdClearNotification (h : Hcd) (notification : BitVec 32) : Hcd :=
  { h with notify := h.notify &&& ~~~notification }

/-- `__append_to_done_list`; `hcd.c:115–124`. -/
def appendToDoneList (h : Hcd) (g : GtdPtr) : Except Fault Hcd := do
  let (_, n) ← h.load (some g)
  let next := if h.doneList = none then none else h.doneList
  return hcdNotify { h.setGtd g { n with nextTD := next } with doneList := some g } notifyDone

/-- The search loop of `__hcd_unlink_gtd` for a descriptor behind the head;
`hcd.c:136–144`. -/
def unlinkBehind (h : Hcd) (g : GtdPtr) : Nat → Option GtdPtr → Except Fault Hcd
  | 0, _ => .error .diverged
  | _ + 1, none => .ok h
  | fuel + 1, some l => do
    let (_, n) ← h.load (some l)
    if n.nextTD = some g then
      let (_, m) ← h.load (some g)
      appendToDoneList (h.setGtd l { n with nextTD := m.nextTD }) g
    else unlinkBehind h g fuel n.nextTD

/-- `__hcd_unlink_gtd`; `hcd.c:126–145`. The loop visits each cell at most once, so
the number of cells ever allocated bounds it. -/
def hcdUnlinkGtd (h : Hcd) (w : EpdList) (i : EpdPtr) (g : GtdPtr) : Except Fault Hcd := do
  let e ← h.epd w i
  if e.tdQueueHeadPointer = some g then
    let (_, n) ← h.load (some g)
    let tail := if e.tdQueueTailPointer = some g then none else e.tdQueueTailPointer
    appendToDoneList
      (h.setEpd w i { e with tdQueueHeadPointer := n.nextTD, tdQueueTailPointer := tail }) g
  else unlinkBehind h g (h.nextGtd + 1) e.tdQueueHeadPointer

/-- The endpoint search of `hcd_gtd_link`: the first descriptor with the key, or a new
one behind the last; `hcd.c:62–88`. -/
def findEpd (l : List Epd) (k : EpdKey) (mps : Int) : Except Fault (List Epd × EpdPtr) :=
  match l.findIdx? (fun e ↦ e.key = k) with
  | some i => .ok (l, i)
  | none => do
    let c ← hcdEpdCreate k.functionAddress k.endpointNumber mps
    return (l ++ [{ c with tdQueueTailPointer := none, tdQueueHeadPointer := none }], l.length)

/-- Allocate a new descriptor; `hcd.c:46,100`. -/
def Hcd.alloc (h : Hcd) (t : Td) : Hcd :=
  { h.setGtd h.nextGtd { t with nextTD := none } with nextGtd := h.nextGtd + 1 }

/-- Link cell `g` behind the tail, if there is one; `hcd.c:101–103`. -/
def linkBehindTail (h : Hcd) (g : GtdPtr) : Option GtdPtr → Except Fault Hcd
  | none => .ok h
  | some l => do
    let (_, n) ← h.load (some l)
    return h.setGtd l { n with nextTD := some g }

/-- The endpoint with `g` as its new tail, running again; `hcd.c:104–109`. -/
def Epd.enqueued (e : Epd) (g : GtdPtr) : Epd :=
  { e with
    tdQueueHeadPointer := if e.tdQueueHeadPointer = none then some g else e.tdQueueHeadPointer
    tdQueueTailPointer := some g
    skip := false
    halted := false }

/-- `hcd_gtd_link`; `hcd.c:55–113`. Gives the address of the new descriptor. -/
def hcdGtdLink (h : Hcd) (a : LinkArgs) : Except Fault (Hcd × GtdPtr) := do
  let (l, i) ← findEpd (h.list a.list) a.key a.mps
  let t ← a.td
  let h := h.setList a.list l
  let g := h.nextGtd
  let e ← h.epd a.list i
  let h ← linkBehindTail (h.alloc t) g e.tdQueueTailPointer
  return (hcdNotify (h.setEpd a.list i (e.enqueued g)) a.list.notification, g)

/-- The loop condition that lets an endpoint be served; `hcd.c:164`. -/
def Epd.ready (e : Epd) : Bool := !e.skip && !e.halted && e.tdQueueHeadPointer.isSome

/-- The selection loop of `hcd_gtd_send`, from an endpoint pointer; `hcd.c:164–166`. -/
def seekReady (l : List Epd) : Option EpdPtr → Except Fault (Option EpdPtr)
  | none => .ok none
  | some i =>
    if i < l.length then .ok (((l.drop i).findIdx? Epd.ready).map (i + ·))
    else .error .badPointer

/-- Serve the head of a ready endpoint's queue with the device's response;
`hcd.c:172–241`. -/
def serveEpd (h : Hcd) (w : EpdList) (i : EpdPtr) (r : Response) :
    Except Fault (Hcd × Transaction) := do
  let e ← h.epd w i
  let (g, n) ← h.load e.tdQueueHeadPointer
  let (t, p, fate) ← e.exchange w n.toTd r
  let h := h.setGtd g { p with nextTD := n.nextTD }
  if fate = .keep then return (h, t)
  let h ← hcdUnlinkGtd h w i g
  let e' ← h.epd w i
  return (h.setEpd w i { e' with toEpdCore := e'.settle p fate }, t)

/-- `hcd_gtd_send` on the endpoint pointer it was called with and the device's
response to the transaction it makes; `hcd.c:159–243`. -/
def hcdGtdSend (h : Hcd) (w : EpdList) (epd : Option EpdPtr) (notification : BitVec 32)
    (r : Response) : Except Fault (Hcd × Option Transaction) := do
  match ← seekReady (h.list w) epd with
  | none => return (hcdClearNotification h notification, none)
  | some i =>
    let (h, t) ← serveEpd h w i r
    return (h, some t)

/-- `hcd_process_done_list`; `hcd.c:252–269`. The URB's new fields are the outcome. -/
def hcdProcessDoneList (h : Hcd) : Except Fault (Hcd × Option Completion) :=
  match h.doneList with
  | none => .ok (hcdClearNotification h notifyDone, none)
  | some g => do
    let (_, n) ← h.load (some g)
    return ({ h with doneList := n.nextTD, heap := Function.update h.heap g none },
      some (n.toTd.complete g))

/-- The locked operations on the driver. -/
inductive HcdOp
  | link (a : LinkArgs)
  | send (w : EpdList) (epd : Option EpdPtr) (r : Response)
  | processDoneList
  deriving DecidableEq, Repr

/-- What an operation shows: the new descriptor, the transaction made (if any endpoint
was ready), the URB completed (if the done list was not empty). -/
inductive HcdOut
  | linked (g : GtdPtr)
  | sent (t : Option Transaction)
  | processed (c : Option Completion)
  deriving DecidableEq, Repr

/-- One locked operation. -/
def hcdExec (h : Hcd) : HcdOp → Except Fault (Hcd × HcdOut)
  | .link a => do
    let (h, g) ← hcdGtdLink h a
    return (h, .linked g)
  | .send w epd r => do
    let (h, t) ← hcdGtdSend h w epd w.notification r
    return (h, .sent t)
  | .processDoneList => do
    let (h, c) ← hcdProcessDoneList h
    return (h, .processed c)

/-- An operation with what it showed. -/
abbrev HcdEvent := HcdOp × HcdOut

/-- Finite runs of the driver from `hcd_init`. -/
abbrev HcdRun : List HcdEvent → Hcd → Prop := Run (Fires hcdExec) hcdInit

end BiMpp.Host
