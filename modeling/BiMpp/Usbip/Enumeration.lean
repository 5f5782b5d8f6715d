import BiMpp.Usbip.Messages
import BiMpp.Usbip.Stages

/-!
# Enumerating and serving the device

`system_loop` resets the device, reads its descriptors, gives it an address and publishes
what it has read, `bi-mpp-pic24-usb-simulator-master/src/sys.c:34–148`, while
`accept_loop` already answers clients from the same fields, `src/usbip.c:182–272`. A step
is one of `system_loop` between two transfers, the handling of one message, or one step
of the server underneath.
-/

namespace BiMpp.Usbip
open BiMpp.Usb BiMpp.Base BiMpp.Host

/-! ### The program of `system_loop` -/

/-- `usb_device_req_t`; `usb_lib.h`. -/
structure UsbDeviceReq where
  bmRequestType : UInt8
  bRequest : UInt8
  wValue : BitVec 16
  wIndex : BitVec 16
  wLength : BitVec 16
  deriving DecidableEq, Repr

/-- A word as the host stores it, low byte first. -/
def hostWord (x : BitVec 16) : List UInt8 := [⟨x.extractLsb' 0 8⟩, ⟨x.extractLsb' 8 8⟩]

/-- The setup packet of a request. -/
def UsbDeviceReq.bytes (r : UsbDeviceReq) : List UInt8 :=
  [r.bmRequestType, r.bRequest] ++ hostWord r.wValue ++ hostWord r.wIndex ++ hostWord r.wLength

/-- The control transfers of one attempt, in their order; `sys.c:95–136`. -/
inductive Transfer
  | firstDevice
  | firstConfig
  | resetDevice
  | setAddress
  | device
  | config
  | wholeConfig
  | setConfiguration
  | setInterface
  deriving DecidableEq, Repr

/-- What an attempt does, step by step. -/
inductive Instr
  | busReset
  | transfer (k : Transfer)
  | calloc
  | publish
  deriving DecidableEq, Repr

/-- One pass of the `for` loop; `sys.c:94–139`. -/
def attempt : List Instr :=
  [.busReset, .transfer .firstDevice, .transfer .firstConfig, .busReset,
    .transfer .resetDevice, .transfer .setAddress, .transfer .device, .transfer .config,
    .calloc, .transfer .wholeConfig, .publish, .transfer .setConfiguration,
    .transfer .setInterface]

/-- Where `system_loop` is: at the test of `hcd->attached`, before instruction `n` of
attempt `i`, or inside `sys_usb_control_transfer`. -/
inductive SysPc
  | poll
  | run (i n : Nat)
  | waiting (i n : Nat) (k : Transfer)
  deriving DecidableEq, Repr

/-- The configuration buffer, and whether the transfer that fills it has returned. -/
structure CfgBuffer where
  bytes : List UInt8
  filled : Bool
  deriving DecidableEq, Repr

/-- `sys_t` with the locals of `system_loop`, and the server. The device list is known by
the two descriptors it was made of; `sys.h`, `sys.c:34–87`. -/
structure Sys where
  server : Server
  attached : Bool
  pc : SysPc
  wLength : BitVec 16
  cfg : List UInt8
  devDsc : List UInt8
  cfgDsc : Option CfgBuffer
  devlist : Option (List UInt8 × List UInt8)
  devReady : Bool

/-- Before anything has happened, with what is on the stack in `cfg_dsc`; `sys.c:14,39,52`. -/
def sysInit (stack : Vector UInt8 9) : Sys where
  server := serverInit
  attached := false
  pc := .poll
  wLength := 9
  cfg := stack.toList
  devDsc := List.replicate 18 0
  cfgDsc := none
  devlist := none
  devReady := false

/-- `cfg_dsc.wTotalLength`. -/
def totalLength (cfg : List UInt8) : BitVec 16 :=
  (cfg.getD 3 0).toBitVec ++ (cfg.getD 2 0).toBitVec

/-- The requests; `sys.c:40–87,115,132`. -/
def Sys.req (s : Sys) : Transfer → UsbDeviceReq
  | .firstDevice | .resetDevice | .device => ⟨0x80, 0x06, 0x0100, 0, 18⟩
  | .firstConfig | .config | .wholeConfig => ⟨0x80, 0x06, 0x0200, 0, s.wLength⟩
  | .setAddress => ⟨0x00, 0x05, 0x0001, 0, 0⟩
  | .setConfiguration => ⟨0x00, 0x09, (s.cfg.getD 5 0).toBitVec.setWidth 16, 0, 0⟩
  | .setInterface => ⟨0x01, 0x0B, 0x0000, 0, 0⟩

/-- The address a transfer goes to; `sys.c:95–136`. -/
def Transfer.addr : Transfer → BitVec 32
  | firstDevice | firstConfig | resetDevice | setAddress => 0
  | _ => 1

/-- The `max_packet_size` of a transfer; `sys.c:95–136`. -/
def Sys.maxPacketSize (s : Sys) : Transfer → Int
  | .firstDevice => 8
  | _ => ((s.devDsc.getD 7 0).toNat : Int)

/-- The `size` of a transfer; `sys.c:95–136`. -/
def Sys.size (s : Sys) : Transfer → BitVec 16
  | .firstDevice | .resetDevice | .device => 18
  | .firstConfig | .config => 9
  | .wholeConfig => totalLength s.cfg
  | .setAddress | .setConfiguration | .setInterface => 0

/-- The buffer of a transfer; `sys.c:95–136`. -/
def Sys.buffer (s : Sys) : Transfer → List UInt8
  | .firstDevice | .resetDevice | .device => s.devDsc
  | .firstConfig | .config => s.cfg
  | .wholeConfig => (s.cfgDsc.map CfgBuffer.bytes).getD []
  | .setAddress | .setConfiguration | .setInterface => []

/-- The URB `sys_usb_control_transfer` submits; `sys.c:243–250`. -/
def Sys.submit (s : Sys) (k : Transfer) : CmdSubmit where
  seqnum := 0
  devid := k.addr
  direction := 0
  ep := 0
  bufferLength := (s.size k).setWidth 32
  setup := (s.req k).bytes

/-- What `sys_usb_control_transfer` returns; `sys.c:254–255`. -/
def Sys.returned (s : Sys) (k : Transfer) : Int := ((s.size k).toNat : Int)

/-- What `system_loop` compares it with; `sys.c:96–137`. -/
def Sys.expected (s : Sys) : Transfer → Int
  | .firstDevice | .resetDevice | .device => 18
  | .firstConfig | .config => 9
  | .wholeConfig => ((totalLength s.cfg).toNat : Int)
  | .setAddress | .setConfiguration | .setInterface => 0

/-- The bytes a transfer has left where it was told to put them. -/
def Sys.store (s : Sys) (data : List UInt8) : Transfer → Sys
  | .firstDevice | .resetDevice | .device => { s with devDsc := data }
  | .firstConfig | .config => { s with cfg := data }
  | .wholeConfig => { s with cfgDsc := some ⟨data, true⟩ }
  | .setAddress | .setConfiguration | .setInterface => s

/-- Whether the check after a transfer is passed. -/
def Sys.passes (s : Sys) (k : Transfer) : Bool := decide (s.returned k = s.expected k)

/-- The next instruction, or after a failed check, the next attempt; `sys.c:93,97`. -/
def nextPc (i n : Nat) (passed : Bool) : SysPc :=
  if passed then .run i (n + 1) else if i + 1 < 3 then .run (i + 1) 0 else .poll

/-- The instruction `system_loop` is at. -/
def Sys.instr (s : Sys) : Option Instr :=
  match s.pc with
  | .run _ n => attempt[n]?
  | _ => none

/-! ### The fields `accept_loop` reads -/

/-- The fields of `sys_t` that `system_loop` publishes. -/
inductive Field
  | devDsc
  | cfgDsc
  | devlist
  | devlistSize
  deriving DecidableEq, Repr

/-- What the handling of a request reads of them; `usbip.c:187–191,209–213,239,247,266`. -/
def Request.reads : Request → List Field
  | cmdSubmit c _ => if c.ep = 0 then [.devDsc] else [.cfgDsc]
  | cmdUnlink _ => []
  | opReqImport _ _ => [.devlist]
  | opReqDevlist _ => [.devlist, .devlistSize]

/-- `sys->cfg_dsc->interfaces[0].endpoints[ep - 1].wMaxPacketSize`; `usbip.c:190,212`. -/
def wMaxPacketSize (cfg : List UInt8) (ep : BitVec 32) : Except Fault Int :=
  let off := 18 + 7 * (ep - 1).toNat + 4
  if off + 1 < cfg.length then
    .ok ((cfg.getD off 0).toNat + 256 * (cfg.getD (off + 1) 0).toNat : Nat)
  else .error .badPointer

/-- `urb->max_packet_size`; `usbip.c:187–191,209–213`. -/
def Sys.packetSize (s : Sys) (ep : BitVec 32) : Except Fault Int :=
  if ep = 0 then .ok ((s.devDsc.getD 7 0).toNat : Nat)
  else
    match s.cfgDsc with
    | none => .error .badPointer
    | some buf => wMaxPacketSize buf.bytes ep

/-- The status of the reply to OP_REQ_IMPORT: whether the bus id is "1-1"; `usbip.c:239–247`. -/
def importStatus (busid : List UInt8) : BitVec 32 :=
  if busid.take 4 = [0x31, 0x2D, 0x31, 0] then 0 else 1

/-! ### Steps -/

/-- The steps. `client` is a message `accept_loop` has read, with what the buffer it
allocates holds; `server` is any step of the server that begins no request. -/
inductive SysOp
  | attach
  | busReset
  | begin
  | calloc
  | publish
  | leave
  | client (r : Request) (buffer : List UInt8)
  | server (op : ServerOp)
  deriving DecidableEq, Repr

/-- What a step shows. `returned` is the end of a control transfer of attempt `i`, with its
URB and whether the check was passed. -/
inductive SysOut
  | quiet
  | server (e : ServerEvent)
  | returned (e : ServerEvent) (i : Nat) (k : Transfer) (u : Nat) (b : Urb) (passed : Bool)
  | published (i : Nat) (devDsc cfgDsc : List UInt8)
  | imported (status : BitVec 32)
  | listed (devlist : Option (List UInt8 × List UInt8))
  deriving DecidableEq, Repr

/-- A step with what it showed. -/
abbrev SysEvent := SysOp × SysOut

/-- Whether a step of the server begins a request. -/
def ServerOp.isStart : ServerOp → Bool
  | start _ _ _ _ => true
  | _ => false

/-- `accept_loop` with one message; `usbip.c:152–275`. -/
def clientExec (s : Sys) (r : Request) (buffer : List UInt8) : Except Stop (Sys × SysOut) :=
  if s.server.pc .accept = .idle then
    match r with
    | .cmdSubmit c payload => do
      let mps ← stopOn (s.packetSize c.ep)
      let data := if c.direction ≠ 0 then buffer else payload
      let op := ServerOp.start .accept c.toCmdSubmit mps data
      let (server, o) ← serverExec s.server op
      return ({ s with server := server }, .server (op, o))
    | .cmdUnlink _ => .ok (s, .quiet)
    | .opReqImport _ busid =>
      match s.devlist with
      | none => .error (.fault .badPointer)
      | some _ => .ok (s, .imported (importStatus busid))
    | .opReqDevlist _ => .ok (s, .listed s.devlist)
  else .error .blocked

/-- One step. -/
def sysExec (s : Sys) : SysOp → Except Stop (Sys × SysOut)
  | .attach =>
    if s.pc = .poll ∧ s.attached = false then
      .ok ({ s with attached := true, pc := .run 0 0 }, .quiet)
    else .error .blocked
  | .busReset =>
    match s.pc, s.instr with
    | .run i n, some .busReset => .ok ({ s with pc := .run i (n + 1) }, .quiet)
    | _, _ => .error .blocked
  | .begin =>
    match s.pc, s.instr with
    | .run i n, some (.transfer k) => do
      let op := ServerOp.start .system (s.submit k) (s.maxPacketSize k) (s.buffer k)
      let (server, o) ← serverExec s.server op
      return ({ s with server := server, pc := .waiting i n k }, .server (op, o))
    | _, _ => .error .blocked
  | .calloc =>
    match s.pc, s.instr with
    | .run i n, some .calloc =>
      .ok ({ s with
        cfgDsc := some ⟨List.replicate (totalLength s.cfg).toNat 0, false⟩
        wLength := totalLength s.cfg
        pc := .run i (n + 1) }, .quiet)
    | _, _ => .error .blocked
  | .publish =>
    match s.pc, s.instr, s.cfgDsc with
    | .run i n, some .publish, some buf =>
      .ok ({ s with
        devlist := some (s.devDsc, buf.bytes)
        devReady := true
        pc := .run i (n + 1) }, .published i s.devDsc buf.bytes)
    | .run _ _, some .publish, none => .error (.fault .badPointer)
    | _, _, _ => .error .blocked
  | .leave =>
    match s.pc with
    | .run _ n => if n = attempt.length then .ok ({ s with pc := .poll }, .quiet)
      else .error .blocked
    | _ => .error .blocked
  | .client r buffer => clientExec s r buffer
  | .server op =>
    if op.isStart then .error .blocked
    else do
      let (server, o) ← serverExec s.server op
      match s.pc, op, s.server.pc .system with
      | .waiting i n k, .free .system, .free u b =>
        let s' := { s with server := server }.store b.data k
        return ({ s' with pc := nextPc i n (s'.passes k) },
          .returned (op, o) i k u b (s'.passes k))
      | _, _, _ => return ({ s with server := server }, .server (op, o))

/-- Finite runs, from any contents of the stack. -/
def SysRun (es : List SysEvent) (s : Sys) : Prop :=
  ∃ stack, Run (Fires sysExec) (sysInit stack) es s

/-- The step of the server in an event. -/
def SysEvent.serverEvent : SysEvent → Option ServerEvent
  | (_, .server e) => some e
  | (_, .returned e _ _ _ _ _) => some e
  | _ => none

/-- The server's part of a history. -/
def serverEvents (es : List SysEvent) : List ServerEvent := es.filterMap SysEvent.serverEvent

/-- A step adds its server event, if it has one. -/
theorem serverEvents_snoc (es : List SysEvent) (e : SysEvent) :
    serverEvents (es ++ [e]) = serverEvents es ++ (SysEvent.serverEvent e).toList := by
  rw [serverEvents, List.filterMap_append]
  cases h : SysEvent.serverEvent e <;> simp [serverEvents, h]

/-! ### What one step can do -/

/-- The check after a transfer compares a number with itself. -/
theorem Sys.passes_eq (s : Sys) (k : Transfer) : s.passes k = true := by
  unfold passes
  rw [decide_eq_true_eq]
  cases k <;> rfl

/-- The transitions of `system_loop`, of `accept_loop` with a message, and of the server
underneath. -/
inductive SysStep (s : Sys) : SysEvent → Sys → Prop
  | attach : s.pc = .poll → s.attached = false →
      SysStep s (.attach, .quiet) { s with attached := true, pc := .run 0 0 }
  | busReset {i n : Nat} : s.pc = .run i n → attempt[n]? = some .busReset →
      SysStep s (.busReset, .quiet) { s with pc := .run i (n + 1) }
  | begin {i n : Nat} {k : Transfer} {e : ServerEvent} {server : Server} :
      s.pc = .run i n → attempt[n]? = some (.transfer k) →
      e.1 = .start .system (s.submit k) (s.maxPacketSize k) (s.buffer k) →
      Fires serverExec s.server e server →
      SysStep s (.begin, .server e) { s with server := server, pc := .waiting i n k }
  | calloc {i n : Nat} : s.pc = .run i n → attempt[n]? = some .calloc →
      SysStep s (.calloc, .quiet) { s with
        cfgDsc := some ⟨List.replicate (totalLength s.cfg).toNat 0, false⟩
        wLength := totalLength s.cfg
        pc := .run i (n + 1) }
  | publish {i n : Nat} {buf : CfgBuffer} : s.pc = .run i n → attempt[n]? = some .publish →
      s.cfgDsc = some buf →
      SysStep s (.publish, .published i s.devDsc buf.bytes) { s with
        devlist := some (s.devDsc, buf.bytes)
        devReady := true
        pc := .run i (n + 1) }
  | leave {i : Nat} : s.pc = .run i attempt.length →
      SysStep s (.leave, .quiet) { s with pc := .poll }
  | submit {c : OpCmdSubmit} {payload buffer : List UInt8} {mps : Int} {e : ServerEvent}
      {server : Server} : s.packetSize c.ep = .ok mps →
      e.1 = .start .accept c.toCmdSubmit mps (if c.direction ≠ 0 then buffer else payload) →
      Fires serverExec s.server e server →
      SysStep s (.client (.cmdSubmit c payload) buffer, .server e) { s with server := server }
  | answer {r : Request} {buffer : List UInt8} {o : SysOut} :
      (o = .quiet ∨ (∃ st, o = .imported st) ∨ ∃ l, o = .listed l) →
      SysStep s (.client r buffer, o) s
  | server {e : ServerEvent} {server : Server} : e.1.isStart = false →
      Fires serverExec s.server e server →
      (∀ i n k, s.pc = .waiting i n k → e.1 = .free .system →
        ∀ u b, s.server.pc .system ≠ .free u b) →
      SysStep s (.server e.1, .server e) { s with server := server }
  | returned {i n : Nat} {k : Transfer} {o : ServerOut} {u : Nat} {b : Urb} {server : Server} :
      s.pc = .waiting i n k → s.server.pc .system = .free u b →
      Fires serverExec s.server (.free .system, o) server →
      SysStep s (.server (.free .system), .returned (.free .system, o) i k u b true)
        { ({ s with server := server }.store b.data k) with pc := .run i (n + 1) }

private theorem clientStep_of_exec {s s' : Sys} {r : Request} {buffer : List UInt8} {o : SysOut}
    (h : clientExec s r buffer = .ok (s', o)) : SysStep s (.client r buffer, o) s' := by
  unfold clientExec at h
  split at h
  · cases r with
    | cmdSubmit c payload =>
      obtain ⟨mps, hmps, h⟩ := bind_eq_ok.mp h
      obtain ⟨⟨server, o'⟩, hfire, h⟩ := bind_eq_ok.mp h
      cases pure_eq_ok.mp h
      exact .submit (stopOn_ok hmps) rfl hfire
    | cmdUnlink r =>
      cases h
      exact .answer (Or.inl rfl)
    | opReqImport header busid =>
      dsimp only at h
      split at h
      · cases h
      · cases h
        exact .answer (Or.inr (Or.inl ⟨_, rfl⟩))
    | opReqDevlist header =>
      cases h
      exact .answer (Or.inr (Or.inr ⟨_, rfl⟩))
  · cases h

private theorem instr_run {s : Sys} {i n : Nat} {x : Instr} (hpc : s.pc = .run i n)
    (h : s.instr = some x) : attempt[n]? = some x := by
  rw [Sys.instr, hpc] at h
  exact h

/-- Every successful step is one of the transitions. -/
theorem sysStep_of_exec {s s' : Sys} {op : SysOp} {o : SysOut}
    (h : sysExec s op = .ok (s', o)) : SysStep s (op, o) s' := by
  cases op with
  | attach =>
    simp only [sysExec] at h
    split at h
    · next hg =>
      cases h
      exact .attach hg.1 hg.2
    · cases h
  | busReset =>
    simp only [sysExec] at h
    split at h
    · next i n hpc hi =>
      cases h
      exact .busReset hpc (instr_run hpc hi)
    · cases h
  | begin =>
    simp only [sysExec] at h
    split at h
    · next i n k hpc hi =>
      obtain ⟨⟨server, o'⟩, hfire, h⟩ := bind_eq_ok.mp h
      cases pure_eq_ok.mp h
      exact .begin hpc (instr_run hpc hi) rfl hfire
    · cases h
  | calloc =>
    simp only [sysExec] at h
    split at h
    · next i n hpc hi =>
      cases h
      exact .calloc hpc (instr_run hpc hi)
    · cases h
  | publish =>
    simp only [sysExec] at h
    split at h
    · next i n buf hpc hi hbuf =>
      cases h
      exact .publish hpc (instr_run hpc hi) hbuf
    · cases h
    · cases h
  | leave =>
    simp only [sysExec] at h
    split at h
    · next i n hpc =>
      split at h
      · next hn =>
        cases h
        exact .leave (hn ▸ hpc)
      · cases h
    · cases h
  | client r buffer => exact clientStep_of_exec h
  | server op =>
    simp only [sysExec] at h
    split at h
    · cases h
    · next hstart =>
      have hst : op.isStart = false := Bool.eq_false_iff.mpr hstart
      obtain ⟨⟨server, o'⟩, hfire, h⟩ := bind_eq_ok.mp h
      dsimp only at h
      split at h
      · next i n k u b hpc hfree _ =>
        simp only [Sys.passes_eq] at h
        cases pure_eq_ok.mp h
        exact .returned hpc hfree hfire
      · next hnone =>
        cases pure_eq_ok.mp h
        refine .server (e := (_, o')) hst hfire ?_
        intro i n k hpc hop u b hfree
        exact hnone i n k u b hpc hop hfree

/-- The server of a run is in a run of its own. -/
theorem SysRun.server_run {es : List SysEvent} {s : Sys} (h : SysRun es s) :
    ServerRun (serverEvents es) s.server := by
  obtain ⟨stack, h⟩ := h
  apply h.project Sys.server SysEvent.serverEvent
  intro s e s' hs
  have hstep : SysStep s e s' := sysStep_of_exec hs
  cases hstep with
  | attach => rfl
  | busReset => rfl
  | begin _ _ _ hfire => exact hfire
  | calloc => rfl
  | publish => rfl
  | leave => rfl
  | submit _ _ hfire => exact hfire
  | answer ho => rcases ho with rfl | ⟨st, rfl⟩ | ⟨l, rfl⟩ <;> rfl
  | server _ hfire => exact hfire
  | @returned i n k o u b server _ _ hfire => cases k <;> exact hfire

/-! ### How far an attempt has got -/

/-- The number of instructions behind `system_loop`. -/
def Sys.past (s : Sys) : Nat :=
  match s.pc with
  | .poll => if s.attached then attempt.length else 0
  | .run _ n => n
  | .waiting _ n _ => n

/-- The place of a transfer in an attempt. -/
def Transfer.index : Transfer → Nat
  | firstDevice => 1
  | firstConfig => 2
  | resetDevice => 4
  | setAddress => 5
  | device => 6
  | config => 7
  | wholeConfig => 9
  | setConfiguration => 11
  | setInterface => 12

/-- The end of a transfer in a history. -/
def Returned (es : List SysEvent) (i : Nat) (k : Transfer) (u : Nat) (b : Urb) (passed : Bool) :
    Prop :=
  ∃ op e, (op, .returned e i k u b passed) ∈ es

/-- The publication in a history. -/
def Published (es : List SysEvent) (i : Nat) (devDsc cfgDsc : List UInt8) : Prop :=
  (.publish, .published i devDsc cfgDsc) ∈ es

instance (es : List SysEvent) (i : Nat) (d c : List UInt8) : Decidable (Published es i d c) :=
  inferInstanceAs (Decidable (_ ∈ _))

section Place

variable {n : Nat}

private theorem lt_of_instr {x : Instr} (h : attempt[n]? = some x) : n < 13 :=
  (List.getElem?_eq_some_iff.mp h).1

/-- A transfer stands at its index. -/
theorem attempt_transfer {k : Transfer} (h : attempt[n]? = some (.transfer k)) : n = k.index := by
  have hall : ∀ m < 13, attempt[m]? = some (.transfer k) → m = k.index := by
    cases k <;> decide
  exact hall n (lt_of_instr h) h

/-- The bus is reset at the start and behind the first two transfers. -/
theorem attempt_busReset (h : attempt[n]? = some .busReset) : n = 0 ∨ n = 3 := by
  have hall : ∀ m < 13, attempt[m]? = some .busReset → m = 0 ∨ m = 3 := by decide
  exact hall n (lt_of_instr h) h

/-- The configuration is allocated once its length is known. -/
theorem attempt_calloc (h : attempt[n]? = some .calloc) : n = 8 := by
  have hall : ∀ m < 13, attempt[m]? = some .calloc → m = 8 := by decide
  exact hall n (lt_of_instr h) h

/-- The descriptors are published once they are read. -/
theorem attempt_publish (h : attempt[n]? = some .publish) : n = 10 := by
  have hall : ∀ m < 13, attempt[m]? = some .publish → m = 10 := by decide
  exact hall n (lt_of_instr h) h

end Place

/-- Transfers have places of their own. -/
theorem Transfer.index_inj {k k' : Transfer} (h : k.index = k'.index) : k = k' := by
  cases k <;> cases k' <;> first | rfl | exact absurd h (by decide)

/-- No transfer stands where something else is done. -/
theorem Transfer.index_ne (k : Transfer) : k.index ≠ 0 ∧ k.index ≠ 3 ∧ k.index ≠ 8 ∧
    k.index ≠ 10 := by
  cases k <;> decide

/-- In every reachable state the first attempt is still going on or over; what is behind
it has happened, and the fields hold what the last transfers left in them. -/
structure Enumerated (es : List SysEvent) (s : Sys) : Prop where
  attached : s.pc ≠ .poll → s.attached = true
  first : ∀ i n, s.pc = .run i n → i = 0
  waiting : ∀ i n k, s.pc = .waiting i n k → i = 0 ∧ n = k.index
  returned : ∀ k, k.index < s.past → ∃ u b, Returned es 0 k u b true
  device : 6 < s.past → ∃ u b, Returned es 0 .device u b true ∧ s.devDsc = b.data
  whole : 9 < s.past → ∃ u b, Returned es 0 .wholeConfig u b true ∧ s.cfgDsc = some ⟨b.data, true⟩
  ready : s.devReady = true ↔ 10 < s.past
  list : 10 < s.past → s.devlist ≠ none
  published : 10 < s.past ↔ ∃ i d c, Published es i d c
  contents : ∀ i d c, Published es i d c → i = 0 ∧
    (∀ k, k.index < 10 → ∃ u b, Returned es 0 k u b true) ∧
    (∃ u b, Returned es 0 .device u b true ∧ d = b.data) ∧
    ∃ u b, Returned es 0 .wholeConfig u b true ∧ c = b.data

namespace Enumerated

variable {es : List SysEvent} {s s' : Sys}

/-- Nothing has been read before the first step. -/
theorem init (stack : Vector UInt8 9) : Enumerated [] (sysInit stack) where
  attached h := absurd rfl h
  first _ _ h := by cases h
  waiting _ _ _ h := by cases h
  returned k h := absurd h (Nat.not_lt_zero _)
  device h := absurd h (Nat.not_lt_zero _)
  whole h := absurd h (Nat.not_lt_zero _)
  ready := ⟨fun h ↦ (Bool.false_ne_true h).elim, fun h ↦ absurd h (Nat.not_lt_zero _)⟩
  list h := absurd h (Nat.not_lt_zero _)
  published := ⟨fun h ↦ absurd h (Nat.not_lt_zero _), fun ⟨_, _, _, h⟩ ↦ by cases h⟩
  contents _ _ _ h := by cases h

private theorem returned_mono {i : Nat} {k : Transfer} {u : Nat} {b : Urb} {p : Bool}
    (h : Returned es i k u b p) (e : SysEvent) : Returned (es ++ [e]) i k u b p := by
  obtain ⟨op, x, hx⟩ := h
  exact ⟨op, x, List.mem_append_left _ hx⟩

private theorem frame (h : Enumerated es s) {e : SysEvent}
    (hpub : ∀ i d c, e ≠ (.publish, .published i d c))
    (hatt : s'.pc ≠ .poll → s'.attached = true)
    (hfirst : ∀ i n, s'.pc = .run i n → i = 0)
    (hwait : ∀ i n k, s'.pc = .waiting i n k → i = 0 ∧ n = k.index)
    (hpast : ∀ j, j ≠ 0 → j ≠ 3 → j ≠ 8 → (j < s'.past ↔ j < s.past))
    (hdev : s'.devDsc = s.devDsc) (hcfg : 9 < s.past → s'.cfgDsc = s.cfgDsc)
    (hlist : s'.devlist = s.devlist) (hready : s'.devReady = s.devReady) :
    Enumerated (es ++ [e]) s' := by
  have hpublished : ∀ i d c, Published (es ++ [e]) i d c ↔ Published es i d c := by
    intro i d c
    unfold Published
    rw [List.mem_append, List.mem_singleton]
    exact or_iff_left (Ne.symm (hpub i d c))
  constructor
  case attached => exact hatt
  case first => exact hfirst
  case waiting => exact hwait
  case returned =>
    intro k hk
    obtain ⟨h0, h3, h8, -⟩ := k.index_ne
    obtain ⟨u, b, hr⟩ := h.returned k ((hpast _ h0 h3 h8).mp hk)
    exact ⟨u, b, returned_mono hr e⟩
  case device =>
    intro hp
    obtain ⟨u, b, hr, hd⟩ := h.device ((hpast 6 (by decide) (by decide) (by decide)).mp hp)
    exact ⟨u, b, returned_mono hr e, hdev.trans hd⟩
  case whole =>
    intro hp
    have hp' := (hpast 9 (by decide) (by decide) (by decide)).mp hp
    obtain ⟨u, b, hr, hc⟩ := h.whole hp'
    exact ⟨u, b, returned_mono hr e, (hcfg hp').trans hc⟩
  case ready => rw [hready, h.ready, hpast 10 (by decide) (by decide) (by decide)]
  case list =>
    intro hp
    rw [hlist]
    exact h.list ((hpast 10 (by decide) (by decide) (by decide)).mp hp)
  case published =>
    simp only [hpublished]
    rw [hpast 10 (by decide) (by decide) (by decide)]
    exact h.published
  case contents =>
    intro i d c hp
    obtain ⟨hi, hall, ⟨u, b, hr, hd⟩, u', b', hr', hc⟩ :=
      h.contents i d c ((hpublished i d c).mp hp)
    refine ⟨hi, ?_, ⟨u, b, returned_mono hr e, hd⟩, u', b', returned_mono hr' e, hc⟩
    intro k hk
    obtain ⟨u, b, hr⟩ := hall k hk
    exact ⟨u, b, returned_mono hr e⟩

private theorem publish (h : Enumerated es s) {i n : Nat} {buf : CfgBuffer}
    (hpc : s.pc = .run i n) (hi : attempt[n]? = some .publish) (hbuf : s.cfgDsc = some buf) :
    Enumerated (es ++ [(.publish, .published i s.devDsc buf.bytes)]) { s with
      devlist := some (s.devDsc, buf.bytes)
      devReady := true
      pc := .run i (n + 1) } := by
  obtain rfl := attempt_publish hi
  obtain rfl := h.first i 10 hpc
  have hpast : s.past = 10 := by
    rw [Sys.past, hpc]
  have hmono : ∀ {i k u b p}, Returned es i k u b p →
      Returned (es ++ [(.publish, .published 0 s.devDsc buf.bytes)]) i k u b p :=
    fun hr ↦ returned_mono hr _
  obtain ⟨u, b, hr, hd⟩ := h.device (by omega)
  obtain ⟨u', b', hr', hc⟩ := h.whole (by omega)
  have hbytes : buf.bytes = b'.data := by
    rw [hbuf] at hc
    exact congrArg CfgBuffer.bytes (Option.some.inj hc)
  have hall : ∀ k : Transfer, k.index < 10 → ∃ u b,
      Returned (es ++ [(.publish, .published 0 s.devDsc buf.bytes)]) 0 k u b true := by
    intro k hk
    obtain ⟨u, b, hr⟩ := h.returned k (by omega)
    exact ⟨u, b, hmono hr⟩
  constructor
  case attached =>
    intro _
    exact h.attached (by rw [hpc]; simp)
  case first =>
    intro i n hrun
    cases hrun
    rfl
  case waiting =>
    intro i n k hwait
    cases hwait
  case returned =>
    intro k hk
    have hne := k.index_ne.2.2.2
    have hk' : k.index < 11 := hk
    exact hall k (by omega)
  case device =>
    intro _
    exact ⟨u, b, hmono hr, hd⟩
  case whole =>
    intro _
    exact ⟨u', b', hmono hr', hc⟩
  case ready => exact ⟨fun _ ↦ (by decide : 10 < 11), fun _ ↦ rfl⟩
  case list =>
    intro _
    simp
  case published =>
    refine ⟨fun _ ↦ ⟨0, s.devDsc, buf.bytes, ?_⟩, fun _ ↦ (by decide : 10 < 11)⟩
    exact List.mem_append_right _ (List.mem_singleton_self _)
  case contents =>
    intro i d c hp
    rcases List.mem_append.mp hp with hold | hnew
    · have hpub := h.published.mpr ⟨i, d, c, hold⟩
      omega
    · cases List.mem_singleton.mp hnew
      exact ⟨rfl, hall, ⟨u, b, hmono hr, hd⟩, u', b', hmono hr', hbytes⟩

private theorem store (h : Enumerated es s) {i n u : Nat} {k : Transfer} {b : Urb}
    {e : ServerEvent} {op : SysOp} (server : Server) (hpc : s.pc = .waiting i n k) :
    Enumerated (es ++ [(op, .returned e i k u b true)])
      { ({ s with server := server }.store b.data k) with pc := .run i (n + 1) } := by
  obtain ⟨rfl, rfl⟩ := h.waiting i n k hpc
  have hpast : s.past = k.index := by
    rw [Sys.past, hpc]
  have hmono : ∀ {i k' u' b' p}, Returned es i k' u' b' p →
      Returned (es ++ [(op, .returned e 0 k u b true)]) i k' u' b' p :=
    fun hr ↦ returned_mono hr _
  have hnew : Returned (es ++ [(op, .returned e 0 k u b true)]) 0 k u b true :=
    ⟨op, e, List.mem_append_right _ (List.mem_singleton_self _)⟩
  have hpublished : ∀ i d c, Published (es ++ [(op, .returned e 0 k u b true)]) i d c ↔
      Published es i d c := by
    intro i d c
    unfold Published
    rw [List.mem_append, List.mem_singleton]
    exact or_iff_left (by simp)
  obtain ⟨-, -, -, hten⟩ := k.index_ne
  constructor
  case attached =>
    intro _
    have hatt := h.attached (by rw [hpc]; simp)
    cases k <;> exact hatt
  case first =>
    intro i n hrun
    cases hrun
    rfl
  case waiting =>
    intro i n k hwait
    cases hwait
  case returned =>
    intro k' hk'
    by_cases hkk : k' = k
    · rw [hkk]
      exact ⟨u, b, hnew⟩
    · have hne : k'.index ≠ k.index := fun hi ↦ hkk (Transfer.index_inj hi)
      have hlt : k'.index < k.index + 1 := hk'
      obtain ⟨u', b', hr⟩ := h.returned k' (by omega)
      exact ⟨u', b', hmono hr⟩
  case device =>
    intro hp
    have hlt : 6 < k.index + 1 := hp
    by_cases hk : k = .device
    · subst hk
      exact ⟨u, b, hnew, rfl⟩
    · have hne : k.index ≠ 6 := fun hi ↦ hk (Transfer.index_inj hi)
      obtain ⟨u', b', hr, hd⟩ := h.device (by omega)
      refine ⟨u', b', hmono hr, ?_⟩
      cases k with
      | firstDevice => exact absurd hlt (by decide)
      | resetDevice => exact absurd hlt (by decide)
      | device => exact absurd rfl hk
      | _ => exact hd
  case whole =>
    intro hp
    have hlt : 9 < k.index + 1 := hp
    by_cases hk : k = .wholeConfig
    · subst hk
      exact ⟨u, b, hnew, rfl⟩
    · have hne : k.index ≠ 9 := fun hi ↦ hk (Transfer.index_inj hi)
      obtain ⟨u', b', hr, hc⟩ := h.whole (by omega)
      refine ⟨u', b', hmono hr, ?_⟩
      cases k with
      | wholeConfig => exact absurd rfl hk
      | _ => exact hc
  case ready =>
    have hiff : 10 < k.index ↔ 10 < k.index + 1 := by omega
    have hready := h.ready
    rw [hpast, hiff] at hready
    cases k <;> exact hready
  case list =>
    intro hp
    have hlt : 10 < k.index + 1 := hp
    have hlist := h.list (by omega)
    cases k <;> exact hlist
  case published =>
    have hiff : 10 < k.index ↔ 10 < k.index + 1 := by omega
    have hpub := h.published
    rw [hpast, hiff] at hpub
    simp only [hpublished]
    exact hpub
  case contents =>
    intro i d c hp
    obtain ⟨hi, hall, ⟨u', b', hr, hd⟩, u'', b'', hr', hc⟩ :=
      h.contents i d c ((hpublished i d c).mp hp)
    refine ⟨hi, ?_, ⟨u', b', hmono hr, hd⟩, u'', b'', hmono hr', hc⟩
    intro k' hk'
    obtain ⟨u', b', hr⟩ := hall k' hk'
    exact ⟨u', b', hmono hr⟩

private theorem step (h : Enumerated es s) {e : SysEvent} (hs : SysStep s e s') :
    Enumerated (es ++ [e]) s' := by
  have hidle : s.pc = .poll → s.attached = false → s.past = 0 := by
    intro hpc hatt
    rw [Sys.past, hpc, hatt]
    rfl
  have hrun : ∀ {i n}, s.pc = .run i n → s.past = n := by
    intro i n hpc
    rw [Sys.past, hpc]
  cases hs with
  | attach hpc hatt =>
    have hp := hidle hpc hatt
    refine h.frame (by simp) (fun _ ↦ rfl) ?_ (by simp) ?_ rfl (fun _ ↦ rfl) rfl rfl
    · intro i n hi
      cases hi
      rfl
    · intro j _ _ _
      rw [hp]
      rfl
  | @busReset i n hpc hi =>
    have hp := hrun hpc
    have hn := attempt_busReset hi
    refine h.frame (by simp) (fun _ ↦ h.attached (by rw [hpc]; simp)) ?_ (by simp) ?_ rfl
      (fun _ ↦ rfl) rfl rfl
    · intro i' n' hi'
      cases hi'
      exact h.first _ _ hpc
    · intro j h0 h3 _
      show j < n + 1 ↔ j < s.past
      omega
  | @begin i n k e server hpc hi _ _ =>
    have hp := hrun hpc
    refine h.frame (by simp) (fun _ ↦ h.attached (by rw [hpc]; simp)) (by simp) ?_ ?_ rfl
      (fun _ ↦ rfl) rfl rfl
    · intro i' n' k' hi'
      cases hi'
      exact ⟨h.first _ _ hpc, attempt_transfer hi⟩
    · intro j _ _ _
      show j < n ↔ j < s.past
      rw [hp]
  | @calloc i n hpc hi =>
    have hp := hrun hpc
    obtain rfl := attempt_calloc hi
    refine h.frame (by simp) (fun _ ↦ h.attached (by rw [hpc]; simp)) ?_ (by simp) ?_ rfl
      ?_ rfl rfl
    · intro i' n' hi'
      cases hi'
      exact h.first _ _ hpc
    · intro j _ _ h8
      show j < 8 + 1 ↔ j < s.past
      omega
    · intro hlt
      omega
  | publish hpc hi hbuf => exact h.publish hpc hi hbuf
  | leave hpc =>
    have hp := hrun hpc
    have hatt := h.attached (by rw [hpc]; simp)
    refine h.frame (by simp) (fun hne ↦ absurd rfl hne) (by simp) (by simp) ?_ rfl
      (fun _ ↦ rfl) rfl rfl
    intro j _ _ _
    rw [hp, Sys.past]
    simp [hatt]
  | submit =>
    exact h.frame (by simp) h.attached h.first h.waiting (fun _ _ _ _ ↦ Iff.rfl) rfl
      (fun _ ↦ rfl) rfl rfl
  | answer =>
    exact h.frame (by simp) h.attached h.first h.waiting (fun _ _ _ _ ↦ Iff.rfl) rfl
      (fun _ ↦ rfl) rfl rfl
  | server =>
    exact h.frame (by simp) h.attached h.first h.waiting (fun _ _ _ _ ↦ Iff.rfl) rfl
      (fun _ ↦ rfl) rfl rfl
  | returned hpc => exact h.store _ hpc

end Enumerated

/-- Every run is in its first attempt or past it. -/
theorem SysRun.enumerated {es : List SysEvent} {s : Sys} (h : SysRun es s) : Enumerated es s := by
  obtain ⟨stack, h⟩ := h
  apply Run.invariant (P := Enumerated) (Enumerated.init stack) _ h
  intro es s e s' _ ih hfire
  exact ih.step (sysStep_of_exec hfire)

/-! ### An enumeration -/

/-- One stage, with the device's response to its first packet and no other packet needed. -/
def stageOps (r : Response) : List ServerOp :=
  .link .system :: (hcdTurn r ++ hcdTurn .nak ++ hcdTurn .nak ++ hcdTurn .nak ++ hcdTurn .nak ++
    hcdTurn .nak ++ [.resume .system])

/-- One control transfer, in which the device sends `data`. -/
def transferOps (data : List UInt8) : List SysOp :=
  .begin :: (.insert .system :: stageOps (.ack 8 []) ++
    (if data = [] then [] else stageOps (.ack data.length data)) ++ stageOps (.ack 0 []) ++
    [ServerOp.free .system]).map .server

/-- A device descriptor. -/
def exampleDevice : List UInt8 := [18, 1, 16, 1, 0, 0, 0, 64, 17, 17, 34, 34, 0, 1, 0, 0, 0, 1]

/-- A configuration without interfaces. -/
def exampleConfig : List UInt8 := [9, 2, 9, 0, 0, 1, 0, 0x80, 50]

/-- `system_loop` up to the publication, with a device that answers at once. -/
def enumerationOps : List SysOp :=
  [.attach, .busReset] ++ transferOps exampleDevice ++ transferOps exampleConfig ++
    [.busReset] ++ transferOps exampleDevice ++ transferOps [] ++ transferOps exampleDevice ++
    transferOps exampleConfig ++ [.calloc] ++ transferOps exampleConfig ++ [.publish]

/-- Zeros on the stack. -/
def zeroStack : Vector UInt8 9 := ⟨Array.replicate 9 0, rfl⟩

end BiMpp.Usbip
