import BiMpp.Usbip.Enumeration
import BiMpp.Usbip.Simulator

/-!
# The whole program

`system_loop`, `accept_loop` and `hcd_loop` with the device and its firmware: what the simulator
is together with the thread that enumerates the device, whose bus resets go to the device under
the lock of the controller; `bi-mpp-pic24-usb-simulator-master/src/sys.c:34–148`,
`src/hcd.c:245–250,327–364`, `pic_usb_device.X/main.c`.
-/

namespace BiMpp.Usbip
open BiMpp.Usb BiMpp.Base BiMpp.Host BiMpp.Device
open BiMpp.Firmware hiding LoopOp LoopEvent loopExec LoopRun

/-! ### Steps -/

/-- `sys_t` with everything behind it, and the device. -/
structure Program where
  sys : Sys
  device : Running

/-- Before the device is found attached; `stack` is what `cfg_dsc` holds. -/
def programInit (stack : Vector UInt8 9) : Program := ⟨sysInit stack, runningInit⟩

/-- The server with its controller, and the device. -/
def Program.simulator (s : Program) : Simulator := ⟨s.sys.server, s.device⟩

/-- The steps: those of the threads, a bus reset of `system_loop`, the body of the controller's
loop, and those of the firmware. -/
inductive ProgramOp
  | sys (op : SysOp)
  | busReset
  | body
  | device (op : MainOp)
  deriving DecidableEq, Repr

/-- The steps that the parts make. -/
structure ProgramOut where
  sys : Option SysEvent
  device : Option MainEvent
  deriving DecidableEq, Repr

/-- A step with what it showed. -/
abbrev ProgramEvent := ProgramOp × ProgramOut

/-- A step of a thread, after the device has made its own. -/
def Program.serve (s : Program) (device : Running) (op : SysOp) (e : Option MainEvent) :
    Except Stop (Program × ProgramOut) := do
  let (sys, o) ← sysExec s.sys op
  return (⟨sys, device⟩, ⟨some (op, o), e⟩)

/-- One step. -/
def programExec (s : Program) : ProgramOp → Except Stop (Program × ProgramOut)
  | .sys .busReset => .error .blocked
  | .sys (.server (.body _)) => .error .blocked
  | .sys op => s.serve s.device op none
  | .busReset => do
    let (device, o) ← mainExec s.device .busReset
    s.serve device .busReset (some (.busReset, o))
  | .body => do
    let (device, r, e) ← s.simulator.coupled.answer
    s.serve device (.server (.body r)) e
  | .device .busReset => .error .blocked
  | .device (.transfer ..) => .error .blocked
  | .device op => do
    let (device, o) ← mainExec s.device op
    return ({ s with device := device }, ⟨none, some (op, o)⟩)

/-- Finite runs of the program. -/
def ProgramRun (es : List ProgramEvent) (s : Program) : Prop :=
  ∃ stack, Run (Fires programExec) (programInit stack) es s

/-- What the threads did. -/
def sysEvents (es : List ProgramEvent) : List SysEvent := es.filterMap fun e ↦ e.2.sys

/-- A step of the server as one of the simulator. -/
def simulatorOp : ServerOp → SimulatorOp
  | .body _ => .body
  | op => .server op

/-- What the simulator does in a step. -/
def ProgramEvent.simulator (e : ProgramEvent) : Option SimulatorEvent :=
  match e.2.sys.bind SysEvent.serverEvent, e.2.device with
  | some x, d => some (simulatorOp x.1, ⟨some x, d⟩)
  | none, some d => some (.device d.1, ⟨none, some d⟩)
  | none, none => none

/-- What the simulator did. -/
def simulatorEvents (es : List ProgramEvent) : List SimulatorEvent :=
  es.filterMap ProgramEvent.simulator

/-! ### What a step is made of -/

/-- The steps of the program. -/
inductive ProgramStep (s : Program) : ProgramEvent → Program → Prop
  | sys {op : ProgramOp} {e : SysEvent} {sys : Sys} : Fires sysExec s.sys e sys →
      (∀ r, e.1 ≠ .server (.body r)) →
      ProgramStep s (op, ⟨some e, none⟩) { s with sys := sys }
  | busReset {o : MainOut} {o' : SysOut} {device : Running} {sys : Sys} :
      Fires mainExec s.device (.busReset, o) device → Fires sysExec s.sys (.busReset, o') sys →
      ProgramStep s (.busReset, ⟨some (.busReset, o'), some (.busReset, o)⟩) ⟨sys, device⟩
  | idle {o : SysOut} {sys : Sys} : s.simulator.coupled.packet = .ok none →
      Fires sysExec s.sys (.server (.body .nak), o) sys →
      ProgramStep s (.body, ⟨some (.server (.body .nak), o), none⟩) { s with sys := sys }
  | send {addr : Int} {k : Packet} {data : List UInt8} {r : Response} {o : SysOut} {sys : Sys}
      {device : Running} : s.simulator.coupled.packet = .ok (some (addr, k, data)) →
      Fires mainExec s.device (transferOp addr k data, .response r) device →
      Fires sysExec s.sys (.server (.body r), o) sys →
      ProgramStep s (.body, ⟨some (.server (.body r), o),
        some (transferOp addr k data, .response r)⟩) ⟨sys, device⟩
  | device {op : ProgramOp} {e : MainEvent} {device : Running} : Fires mainExec s.device e device →
      e.1 ≠ .busReset → (∀ addr ep pid data size, e.1 ≠ .transfer addr ep pid data size) →
      ProgramStep s (op, ⟨none, some e⟩) { s with device := device }

section Steps

variable {s s' : Program} {e : ProgramEvent}

private theorem threads_ok {device : Running} {op : SysOp} {d : Option MainEvent}
    {out : ProgramOut} (h : s.serve device op d = .ok (s', out)) :
    ∃ sys o, Fires sysExec s.sys (op, o) sys ∧ s' = ⟨sys, device⟩ ∧ out = ⟨some (op, o), d⟩ := by
  obtain ⟨⟨sys, o⟩, hsys, h⟩ := bind_eq_ok.mp h
  cases pure_eq_ok.mp h
  exact ⟨sys, o, hsys, rfl, rfl⟩

private theorem sysStep_ok {op : SysOp} {out : ProgramOut} (hop : ∀ r, op ≠ .server (.body r))
    (h : s.serve s.device op none = .ok (s', out)) : ProgramStep s (.sys op, out) s' := by
  obtain ⟨sys, o, hsys, rfl, rfl⟩ := threads_ok h
  exact .sys hsys hop

private theorem deviceStep_ok {op : MainOp} {out : ProgramOut} (hreset : op ≠ .busReset)
    (hop : ∀ addr ep pid data size, op ≠ .transfer addr ep pid data size)
    (h : (do
      let (device, o) ← mainExec s.device op
      return ({ s with device := device }, ⟨none, some (op, o)⟩) :
      Except Stop (Program × ProgramOut)) = .ok (s', out)) :
    ProgramStep s (.device op, out) s' := by
  obtain ⟨⟨device, o⟩, hexec, h⟩ := bind_eq_ok.mp h
  cases pure_eq_ok.mp h
  exact .device hexec hreset hop

/-- What the executable step does is a step of the program. -/
theorem programStep_of_exec (h : Fires programExec s e s') : ProgramStep s e s' := by
  obtain ⟨op, out⟩ := e
  have h : programExec s op = .ok (s', out) := h
  cases op with
  | sys op =>
    cases op with
    | busReset => cases h
    | server op =>
      cases op with
      | body => cases h
      | _ => exact sysStep_ok (fun r hr ↦ by cases hr) h
    | _ => exact sysStep_ok (fun r hr ↦ by cases hr) h
  | busReset =>
    obtain ⟨⟨device, o⟩, hdevice, h⟩ := bind_eq_ok.mp h
    obtain ⟨sys, o', hsys, rfl, rfl⟩ := threads_ok h
    exact .busReset hdevice hsys
  | body =>
    obtain ⟨⟨device, r, d⟩, hanswer, h⟩ := bind_eq_ok.mp h
    obtain ⟨sys, o, hsys, rfl, rfl⟩ := threads_ok h
    rcases Coupled.answer_ok hanswer with
      ⟨hpacket, rfl, rfl, rfl⟩ | ⟨addr, k, data, hpacket, hdevice, rfl⟩
    · exact .idle hpacket hsys
    · exact .send hpacket hdevice hsys
  | device op =>
    cases op with
    | busReset => cases h
    | transfer => cases h
    | _ => exact deviceStep_ok (fun hr ↦ by cases hr) (fun _ _ _ _ _ hr ↦ by cases hr) h

private theorem sys_server {m m' : Sys} {x : SysEvent} (h : Fires sysExec m x m') :
    match SysEvent.serverEvent x with
    | none => m'.server = m.server
    | some y => Fires serverExec m.server y m'.server ∧
        ((∀ r, x.1 ≠ .server (.body r)) → ∀ r, y.1 ≠ .body r) := by
  have hstep : SysStep m x m' := sysStep_of_exec h
  cases hstep with
  | attach => rfl
  | busReset => rfl
  | begin _ _ hstart hfire =>
    refine ⟨hfire, fun _ r hr ↦ ?_⟩
    rw [hstart] at hr
    cases hr
  | calloc => rfl
  | publish => rfl
  | leave => rfl
  | submit _ hstart hfire =>
    refine ⟨hfire, fun _ r hr ↦ ?_⟩
    rw [hstart] at hr
    cases hr
  | answer ho => rcases ho with rfl | ⟨st, rfl⟩ | ⟨l, rfl⟩ <;> rfl
  | server _ hfire => exact ⟨hfire, fun hbody r hr ↦ hbody r (congrArg SysOp.server hr)⟩
  | @returned i n k o u b server _ _ hfire =>
    refine ⟨?_, fun _ r hr ↦ by cases hr⟩
    cases k <;> exact hfire

private theorem sys_body {m m' : Sys} {r : Response} {o : SysOut}
    (h : Fires sysExec m (.server (.body r), o) m') :
    ∃ o', o = .server (.body r, o') ∧ Fires serverExec m.server (.body r, o') m'.server := by
  have hstep : SysStep m (.server (.body r), o) m' := sysStep_of_exec h
  generalize hop : SysOp.server (.body r) = op at hstep
  cases hstep with
  | @server x server _ hfire =>
    obtain ⟨y, o'⟩ := x
    obtain rfl := SysOp.server.inj hop
    exact ⟨o', rfl, hfire⟩
  | _ => cases hop

/-- What the simulator does in a step is one of its steps. -/
theorem ProgramStep.simulator (h : ProgramStep s e s') :
    match ProgramEvent.simulator e with
    | none => s'.simulator = s.simulator
    | some x => Fires simulatorExec s.simulator x s'.simulator := by
  -- a step of the server without the device
  have hserver : ∀ {x : ServerEvent} {server : Server}, Fires serverExec s.sys.server x server →
      (∀ r, x.1 ≠ .body r) →
      Fires simulatorExec s.simulator (simulatorOp x.1, ⟨some x, none⟩) ⟨server, s.device⟩ := by
    intro x server hfire hbody
    obtain ⟨op, o⟩ := x
    have hserve : s.simulator.serve s.device op none =
        .ok (⟨server, s.device⟩, ⟨some (op, o), none⟩) := by
      have hexec : serverExec s.sys.server op = .ok (server, o) := hfire
      simp only [Simulator.serve, Program.simulator, hexec]
      rfl
    cases op with
    | body r => exact (hbody r rfl).elim
    | _ => exact hserve
  cases h with
  | @sys op x sys hsys hop =>
    have hmove := sys_server hsys
    cases hx : SysEvent.serverEvent x with
    | none =>
      rw [hx] at hmove
      have hnone : ProgramEvent.simulator (op, ⟨some x, none⟩) = none := by
        simp only [ProgramEvent.simulator, Option.bind_some, hx]
      rw [hnone]
      exact congrArg (Simulator.mk · s.device) hmove
    | some y =>
      rw [hx] at hmove
      have hsome : ProgramEvent.simulator (op, ⟨some x, none⟩) =
          some (simulatorOp y.1, ⟨some y, none⟩) := by
        simp only [ProgramEvent.simulator, Option.bind_some, hx]
      rw [hsome]
      exact hserver hmove.1 (hmove.2 hop)
  | @busReset o o' device sys hdevice hsys =>
    have hstep : SysStep s.sys (.busReset, o') sys := sysStep_of_exec hsys
    have hexec : mainExec s.device .busReset = .ok (device, o) := hdevice
    cases hstep with
    | busReset =>
      show simulatorExec s.simulator (.device .busReset) = .ok (⟨s.sys.server, device⟩, _)
      simp only [simulatorExec, Program.simulator, hexec]
      rfl
  | @idle o sys hpacket hsys =>
    obtain ⟨o', rfl, hfire⟩ := sys_body hsys
    have hexec : serverExec s.simulator.server (.body .nak) = .ok (sys.server, o') := hfire
    show simulatorExec s.simulator .body = .ok (⟨sys.server, s.device⟩, _)
    simp only [simulatorExec, Coupled.answer_idle hpacket, ok_bind, Simulator.serve, hexec]
    rfl
  | @send addr k data r o sys device hpacket hdevice hsys =>
    obtain ⟨o', rfl, hfire⟩ := sys_body hsys
    have hexec : serverExec s.simulator.server (.body r) = .ok (sys.server, o') := hfire
    show simulatorExec s.simulator .body = .ok (⟨sys.server, device⟩, _)
    simp only [simulatorExec, Coupled.answer_send hpacket hdevice, ok_bind, Simulator.serve, hexec]
    rfl
  | @device op x device hdevice hreset hop =>
    obtain ⟨op', o⟩ := x
    show simulatorExec s.simulator (.device op') = .ok (⟨s.sys.server, device⟩, _)
    have hexec : mainExec s.simulator.device op' = .ok (device, o) := hdevice
    cases op' with
    | transfer addr ep pid data size => exact (hop addr ep pid data size rfl).elim
    | busReset => exact (hreset rfl).elim
    | _ =>
      simp only [simulatorExec, hexec]
      rfl

/-- What the threads do in a step is one of theirs. -/
theorem ProgramStep.threads (h : ProgramStep s e s') :
    match e.2.sys with
    | none => s'.sys = s.sys
    | some x => Fires sysExec s.sys x s'.sys := by
  cases h with
  | sys hsys => exact hsys
  | busReset _ hsys => exact hsys
  | idle _ hsys => exact hsys
  | send _ _ hsys => exact hsys
  | device => rfl

end Steps

/-! ### Runs of the parts -/

section Runs

variable {es : List ProgramEvent} {s : Program}

/-- The simulator's part of a run. -/
theorem ProgramRun.simulator (h : ProgramRun es s) :
    SimulatorRun (simulatorEvents es) s.simulator := by
  obtain ⟨stack, h⟩ := h
  refine Run.project Program.simulator ProgramEvent.simulator ?_ h
  intro s e s' hfire
  have hstep := (programStep_of_exec hfire).simulator
  cases hx : ProgramEvent.simulator e with
  | none =>
    rw [hx] at hstep
    exact hstep
  | some x =>
    rw [hx] at hstep
    exact hstep

/-- The part of the threads. -/
theorem ProgramRun.sys (h : ProgramRun es s) : SysRun (sysEvents es) s.sys := by
  obtain ⟨stack, h⟩ := h
  refine ⟨stack, Run.project Program.sys (fun e ↦ e.2.sys) ?_ h⟩
  intro s e s' hfire
  have hstep := (programStep_of_exec hfire).threads
  cases hx : e.2.sys with
  | none =>
    rw [hx] at hstep
    exact hstep
  | some x =>
    rw [hx] at hstep
    exact hstep

/-- The server has seen the same in both. -/
theorem servedEvents_simulator (es : List ProgramEvent) :
    servedEvents (simulatorEvents es) = serverEvents (sysEvents es) := by
  have hsame : ∀ e : ProgramEvent, (ProgramEvent.simulator e).bind (fun x ↦ x.2.server) =
      e.2.sys.bind SysEvent.serverEvent := by
    intro e
    unfold ProgramEvent.simulator
    cases e.2.sys.bind SysEvent.serverEvent <;> cases e.2.device <;> rfl
  unfold servedEvents simulatorEvents serverEvents sysEvents
  rw [List.filterMap_filterMap, List.filterMap_filterMap]
  exact List.filterMap_congr fun e _ ↦ hsame e

/-- The events of the system after one more event. -/
theorem sysEvents_snoc (es : List ProgramEvent) (e : ProgramEvent) :
    sysEvents (es ++ [e]) = sysEvents es ++ e.2.sys.toList := by
  unfold sysEvents
  rw [List.filterMap_append]
  cases h : e.2.sys <;> simp [h]

end Runs

end BiMpp.Usbip
