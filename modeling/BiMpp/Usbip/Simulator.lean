import BiMpp.Usbip.Coupled
import BiMpp.Usbip.DirectReplies

/-!
# The simulator as a whole

The threads of the server, the controller they share, and the device with its firmware: the
requests that `accept_loop` and `system_loop` link are served by `hcd_loop`, whose packets
`__usb_transfer` gives to the device; `bi-mpp-pic24-usb-simulator-master/src/sys.c:172–256`,
`src/usbip.c:82–110`, `src/hcd.c:159–269,327–364`, `src/usb_lib_usbip.c:232–300`,
`pic_usb_device.X/main.c`. What clients ask for, and when, is open.
-/

namespace BiMpp.Usbip
open BiMpp.Usb BiMpp.Base BiMpp.Host BiMpp.Device
open BiMpp.Firmware hiding LoopOp LoopEvent loopExec LoopRun

/-! ### The parts -/

/-- The server, and the device that its controller drives. -/
structure Simulator where
  server : Server
  device : Running

/-- Before any request. -/
def simulatorInit : Simulator := ⟨serverInit, runningInit⟩

/-- The controller and the device. -/
def Simulator.coupled (s : Simulator) : Coupled := ⟨s.server.loop, s.device⟩

/-- The steps: those of the server's threads, the body of the controller's loop, and those of the
device. -/
inductive SimulatorOp
  | server (op : ServerOp)
  | body
  | device (op : MainOp)
  deriving DecidableEq, Repr

/-- The steps that the parts make. -/
structure SimulatorOut where
  server : Option ServerEvent
  device : Option MainEvent
  deriving DecidableEq, Repr

/-- A step of the server, after the device has made its own. -/
def Simulator.serve (s : Simulator) (device : Running) (op : ServerOp) (e : Option MainEvent) :
    Except Stop (Simulator × SimulatorOut) := do
  let (server, o) ← serverExec s.server op
  return (⟨server, device⟩, ⟨some (op, o), e⟩)

/-- One step. -/
def simulatorExec (s : Simulator) : SimulatorOp → Except Stop (Simulator × SimulatorOut)
  | .server (.body _) => .error .blocked
  | .server op => s.serve s.device op none
  | .body => do
    let (device, r, e) ← s.coupled.answer
    s.serve device (.body r) e
  | .device (.transfer ..) => .error .blocked
  | .device op => do
    let (device, o) ← mainExec s.device op
    return ({ s with device := device }, ⟨none, some (op, o)⟩)

/-- A step with what it showed. -/
abbrev SimulatorEvent := SimulatorOp × SimulatorOut

/-- Finite runs of the simulator. -/
abbrev SimulatorRun : List SimulatorEvent → Simulator → Prop :=
  Run (Fires simulatorExec) simulatorInit

/-- What the server did. -/
def servedEvents (es : List SimulatorEvent) : List ServerEvent := es.filterMap fun e ↦ e.2.server

/-- What the firmware did. -/
def firmwareEvents (es : List SimulatorEvent) : List MainEvent := es.filterMap fun e ↦ e.2.device

/-- A step of the controller's thread, as one of the controller and the device. -/
def coupledOp : LoopOp → CoupledOp
  | .link a => .link a
  | .wake => .wake
  | .evaluate => .evaluate
  | .body _ => .body

/-- What the controller and the device do in a step. -/
def SimulatorEvent.coupled (e : SimulatorEvent) : Option CoupledEvent :=
  match e.2.server.bind ServerEvent.loopEvent, e.2.device with
  | some x, d => some (coupledOp x.1, ⟨some x, d⟩)
  | none, some d => some (.device d.1, ⟨none, some d⟩)
  | none, none => none

/-! ### Steps -/

/-- What a step of the simulator is made of. -/
inductive SimulatorStep (s : Simulator) : SimulatorEvent → Simulator → Prop
  | server {op : SimulatorOp} {e : ServerEvent} {server : Server} :
      Fires serverExec s.server e server → (∀ r, e.1 ≠ .body r) →
      SimulatorStep s (op, ⟨some e, none⟩) { s with server := server }
  | idle {o : ServerOut} {server : Server} : s.coupled.packet = .ok none →
      Fires serverExec s.server (.body .nak, o) server →
      SimulatorStep s (.body, ⟨some (.body .nak, o), none⟩) { s with server := server }
  | send {addr : Int} {k : Packet} {data : List UInt8} {r : Response} {o : ServerOut}
      {server : Server} {device : Running} : s.coupled.packet = .ok (some (addr, k, data)) →
      Fires mainExec s.device (transferOp addr k data, .response r) device →
      Fires serverExec s.server (.body r, o) server →
      SimulatorStep s
        (.body, ⟨some (.body r, o), some (transferOp addr k data, .response r)⟩) ⟨server, device⟩
  | device {op : SimulatorOp} {e : MainEvent} {device : Running} :
      Fires mainExec s.device e device →
      (∀ addr ep pid data size, e.1 ≠ .transfer addr ep pid data size) →
      SimulatorStep s (op, ⟨none, some e⟩) { s with device := device }

section Steps

variable {s s' : Simulator} {e : SimulatorEvent}

private theorem serve_ok {device : Running} {op : ServerOp} {d : Option MainEvent}
    {out : SimulatorOut} (h : s.serve device op d = .ok (s', out)) :
    ∃ server o, serverExec s.server op = .ok (server, o) ∧ s' = ⟨server, device⟩ ∧
      out = ⟨some (op, o), d⟩ := by
  obtain ⟨⟨server, o⟩, hserver, h⟩ := bind_eq_ok.mp h
  cases pure_eq_ok.mp h
  exact ⟨server, o, hserver, rfl, rfl⟩

private theorem simulatorStep_of_exec (h : Fires simulatorExec s e s') : SimulatorStep s e s' := by
  obtain ⟨op, out⟩ := e
  have h : simulatorExec s op = .ok (s', out) := h
  cases op with
  | server op =>
    have hserver : ∀ {op : ServerOp}, (∀ r, op ≠ .body r) →
        s.serve s.device op none = .ok (s', out) → SimulatorStep s (.server op, out) s' := by
      intro op hop h
      obtain ⟨server, o, hexec, rfl, rfl⟩ := serve_ok h
      exact .server hexec hop
    cases op with
    | body => cases h
    | _ => exact hserver nofun h
  | body =>
    obtain ⟨⟨device, r, d⟩, hanswer, h⟩ := bind_eq_ok.mp h
    obtain ⟨server, o, hserver, rfl, rfl⟩ := serve_ok h
    rcases Coupled.answer_ok hanswer with
      ⟨hpacket, rfl, rfl, rfl⟩ | ⟨addr, k, data, hpacket, hdevice, rfl⟩
    · exact .idle hpacket hserver
    · exact .send hpacket hdevice hserver
  | device op =>
    have hdevice : ∀ {op : MainOp}, (∀ addr ep pid data size,
        op ≠ .transfer addr ep pid data size) → (do
          let (device, o) ← mainExec s.device op
          return ({ s with device := device }, ⟨none, some (op, o)⟩) :
          Except Stop (Simulator × SimulatorOut)) = .ok (s', out) →
        SimulatorStep s (.device op, out) s' := by
      intro op hop h
      obtain ⟨⟨device, o⟩, hexec, h⟩ := bind_eq_ok.mp h
      cases pure_eq_ok.mp h
      exact .device hexec hop
    cases op with
    | transfer => cases h
    | _ => exact hdevice nofun h

/-- The body of the controller's loop is a step of its own. -/
theorem serverExec_body {s s' : Server} {op : ServerOp} {x : LoopEvent}
    (h : Fires serverExec s (op, .loop x) s') (r : Response) : x.1 = .body r ↔ op = .body r := by
  have hloop : ∀ {op' : LoopOp} {s₁ : Server} {y : LoopEvent}, s.loopStep op' = .ok (s₁, y) →
      y.1 = op' := by
    intro op' s₁ y hl
    obtain ⟨loop, -, hop, -⟩ := loopStep_ok hl
    exact hop
  have h : serverExec s op = .ok (s', .loop x) := h
  cases op with
  | start =>
    simp only [serverExec] at h
    split at h <;> cases h
  | insert =>
    simp only [serverExec] at h
    split at h
    · obtain ⟨l, -, hs⟩ := bind_eq_ok.mp h
      cases pure_eq_ok.mp hs
    · cases h
  | link =>
    simp only [serverExec] at h
    split at h
    · obtain ⟨⟨s₁, y⟩, hl, hs⟩ := bind_eq_ok.mp h
      have hop := hloop hl
      dsimp only at hs
      split at hs <;> cases pure_eq_ok.mp hs <;> rw [hop] <;> constructor <;> intro hx <;> cases hx
    · cases h
  | resume =>
    simp only [serverExec] at h
    split at h <;> cases h
  | header =>
    simp only [serverExec] at h
    split at h
    · split at h <;> cases h
    · cases h
  | payload =>
    simp only [serverExec] at h
    split at h <;> cases h
  | free =>
    simp only [serverExec] at h
    split at h
    · obtain ⟨l, -, hs⟩ := bind_eq_ok.mp h
      cases pure_eq_ok.mp hs
    · cases h
  | wake =>
    obtain ⟨⟨s₁, y⟩, hl, hs⟩ := bind_eq_ok.mp h
    cases pure_eq_ok.mp hs
    rw [hloop hl]
    constructor <;> intro hx <;> cases hx
  | evaluate =>
    obtain ⟨⟨s₁, y⟩, hl, hs⟩ := bind_eq_ok.mp h
    cases pure_eq_ok.mp hs
    rw [hloop hl]
    constructor <;> intro hx <;> cases hx
  | body r' =>
    obtain ⟨⟨s₁, y⟩, hl, hs⟩ := bind_eq_ok.mp h
    have hop := hloop hl
    dsimp only at hs
    have hx : x = y := by
      split at hs
      · cases pure_eq_ok.mp hs
        rfl
      · obtain ⟨s₂, -, hs⟩ := bind_eq_ok.mp hs
        cases pure_eq_ok.mp hs
        rfl
    rw [hx, hop]
    exact ⟨fun h ↦ congrArg _ (LoopOp.body.inj h), fun h ↦ congrArg _ (ServerOp.body.inj h)⟩

/-- The body of the controller's loop shows what it does. -/
theorem serverExec_body_shows {s s' : Server} {r : Response} {o : ServerOut}
    (h : Fires serverExec s (.body r, o) s') : ∃ x, o = .loop x := by
  obtain ⟨⟨s₁, y⟩, -, hs⟩ := bind_eq_ok.mp h
  dsimp only at hs
  split at hs
  · cases pure_eq_ok.mp hs
    exact ⟨y, rfl⟩
  · obtain ⟨s₂, -, hs⟩ := bind_eq_ok.mp hs
    cases pure_eq_ok.mp hs
    exact ⟨y, rfl⟩

private theorem coupled_host {l : Loop} {x : LoopEvent} {loop : Loop}
    (h : Fires loopExec l x loop) (d d' : Running) (c : Option MainEvent) :
    Coupled.host ⟨l, d⟩ d' x.1 c = .ok (⟨loop, d'⟩, ⟨some x, c⟩) := by
  have hexec : loopExec l x.1 = .ok (loop, x.2) := h
  unfold Coupled.host
  rw [hexec]
  rfl

private theorem body_moves {l l' : Server} {r : Response} {o : ServerOut}
    (h : Fires serverExec l (.body r, o) l') :
    ∃ y, o = .loop (.body r, y) ∧ Fires loopExec l.loop (.body r, y) l'.loop := by
  obtain ⟨x, rfl⟩ := serverExec_body_shows h
  have hx : x.1 = .body r := (serverExec_body h r).mpr rfl
  obtain ⟨op, y⟩ := x
  obtain rfl := hx
  exact ⟨y, rfl, (serverStep_of_exec h).loop_step⟩

/-- What the controller and the device do in a step is a step of the two. -/
theorem SimulatorStep.coupled (h : SimulatorStep s e s') :
    match SimulatorEvent.coupled e with
    | none => s'.coupled = s.coupled
    | some c => Fires coupledExec s.coupled c s'.coupled := by
  cases h with
  | @server op e server hfire hop =>
    have hstep := (serverStep_of_exec hfire).loop_step
    cases hx : ServerEvent.loopEvent e with
    | none =>
      rw [hx] at hstep
      simp only [SimulatorEvent.coupled, Option.bind_some, hx, Simulator.coupled, hstep]
    | some x =>
      rw [hx] at hstep
      obtain ⟨op', o⟩ := e
      have ho : o = .loop x := by
        unfold ServerEvent.loopEvent at hx
        split at hx
        · next hsame =>
          obtain rfl := Option.some.inj hx
          exact congrArg Prod.snd hsame
        · cases hx
      subst ho
      have hbody : ∀ r, x.1 ≠ .body r := fun r hr ↦ hop r ((serverExec_body hfire r).mp hr)
      have hhost := coupled_host hstep s.device s.device none
      show coupledExec s.coupled (coupledOp x.1) = .ok (⟨server.loop, s.device⟩, ⟨some x, none⟩)
      rw [← hhost]
      obtain ⟨y, z⟩ := x
      cases y with
      | body r => exact (hbody r rfl).elim
      | _ => rfl
  | @idle o server hpacket hfire =>
    obtain ⟨y, rfl, hloop⟩ := body_moves hfire
    have hhost := coupled_host hloop s.device s.device none
    show coupledExec s.coupled .body = .ok (⟨server.loop, s.device⟩, ⟨some (.body .nak, y), none⟩)
    simp only [coupledExec, Coupled.answer_idle hpacket, ok_bind]
    exact hhost
  | @send addr k data r o server device hpacket hdevice hfire =>
    obtain ⟨y, rfl, hloop⟩ := body_moves hfire
    have hhost := coupled_host hloop s.device device
      (some (transferOp addr k data, .response r))
    show coupledExec s.coupled .body = .ok (⟨server.loop, device⟩,
      ⟨some (.body r, y), some (transferOp addr k data, .response r)⟩)
    simp only [coupledExec, Coupled.answer_send hpacket hdevice, ok_bind]
    exact hhost
  | @device op e device hfire hop =>
    obtain ⟨op', o⟩ := e
    show coupledExec s.coupled (.device op') = .ok (⟨s.server.loop, device⟩, ⟨none, some (op', o)⟩)
    cases op' with
    | transfer addr ep pid data size => exact (hop addr ep pid data size rfl).elim
    | _ =>
      have hexec : mainExec s.device _ = .ok (device, o) := hfire
      simp only [coupledExec, Simulator.coupled, hexec]
      rfl

end Steps

/-! ### Runs of the parts -/

section Runs

variable {es : List SimulatorEvent} {s : Simulator}

/-- What the controller and the device did. -/
def coupledEvents (es : List SimulatorEvent) : List CoupledEvent :=
  es.filterMap SimulatorEvent.coupled

/-- The controller's and the device's part of a run. -/
theorem SimulatorRun.coupled (h : SimulatorRun es s) : CoupledRun (coupledEvents es) s.coupled := by
  refine Run.project Simulator.coupled SimulatorEvent.coupled ?_ h
  intro s e s' hfire
  have hstep := (simulatorStep_of_exec hfire).coupled
  cases hc : SimulatorEvent.coupled e with
  | none =>
    rw [hc] at hstep
    exact hstep
  | some c =>
    rw [hc] at hstep
    exact hstep

/-- The server's part of a run. -/
theorem SimulatorRun.served (h : SimulatorRun es s) : ServerRun (servedEvents es) s.server := by
  refine Run.project Simulator.server (fun e ↦ e.2.server) ?_ h
  intro s e s' hfire
  cases simulatorStep_of_exec hfire with
  | server hserver => exact hserver
  | idle _ hserver => exact hserver
  | send _ _ hserver => exact hserver
  | device => rfl

/-- The server and the bus have seen the same. -/
theorem busEvents_coupled (es : List SimulatorEvent) :
    busEvents (coupledEvents es) = hcdEvents (servedEvents es) := by
  have hsame : ∀ e : SimulatorEvent, (SimulatorEvent.coupled e).bind (fun c ↦ c.2.host) =
      e.2.server.bind ServerEvent.loopEvent := by
    intro e
    unfold SimulatorEvent.coupled
    cases e.2.server.bind ServerEvent.loopEvent <;> cases e.2.device <;> rfl
  unfold busEvents hcdEvents loopEvents coupledEvents servedEvents
  rw [List.filterMap_filterMap, List.filterMap_filterMap]
  exact congrArg _ (List.filterMap_congr fun e _ ↦ hsame e)

/-- The device has seen what the firmware has. -/
theorem deviceEvents_coupled (es : List SimulatorEvent) :
    deviceEvents (coupledEvents es) = firmwareEvents es := by
  have hsame : ∀ e : SimulatorEvent, (SimulatorEvent.coupled e).bind (fun c ↦ c.2.device) =
      e.2.device := by
    intro e
    unfold SimulatorEvent.coupled
    cases e.2.server.bind ServerEvent.loopEvent <;> cases e.2.device <;> rfl
  unfold deviceEvents coupledEvents firmwareEvents
  rw [List.filterMap_filterMap]
  exact List.filterMap_congr fun e _ ↦ hsame e

/-- Every transfer of a server fits its buffer. -/
theorem SimulatorRun.sized (h : SimulatorRun es s) :
    ∀ l ∈ links (busEvents (coupledEvents es)), l.2.Sized := by
  rw [busEvents_coupled]
  intro l hl
  obtain ⟨u, b, st, hargs, -, hsized⟩ := (ServerRun.tracked h.served).links l hl
  rw [hargs]
  exact hsized.linkArgs u st

/-- The server never has to wait because an answer of the device does not fit: its check is there
for other devices. -/
theorem SimulatorRun.fits (h : SimulatorRun es s) {addr : Int} {k : Packet} {data : List UInt8}
    {r : Response} {device : Running} {loop : Loop} {d : Option HcdEvent}
    (hpacket : s.coupled.packet = .ok (some (addr, k, data)))
    (hdevice : Fires mainExec s.device (transferOp addr k data, .response r) device)
    (hloop : Fires loopExec s.server.loop (.body r, d) loop) : LoopEvent.Fits (.body r, d) := by
  have hhost := coupled_host hloop s.device device
    (some (transferOp addr k data, .response r))
  have hfire : Fires coupledExec s.coupled (.body, ⟨some (.body r, d),
      some (transferOp addr k data, .response r)⟩) ⟨loop, device⟩ := by
    show coupledExec s.coupled .body = _
    simp only [coupledExec, Coupled.answer_send hpacket hdevice, ok_bind]
    exact hhost
  have hrun : CoupledRun _ _ := Run.snoc h.coupled hfire
  intro t ht
  obtain ⟨x, hx, hxt⟩ := Option.bind_eq_some_iff.mp ht
  obtain rfl : d = some x := hx
  refine hrun.fits (fun l hl ↦ ?_) x ?_ t hxt
  · rw [busEvents_snoc, links, List.filterMap_append] at hl
    rcases List.mem_append.mp hl with hl | hl
    · exact (h.sized l hl).1
    · -- the body of the loop links nothing
      obtain ⟨y, hy, hlink⟩ := List.mem_filterMap.mp hl
      obtain rfl : x = y := Option.some.inj (Option.mem_toList.mp hy)
      have hnone : ServerEvent.linked (.body r, .loop (.body r, some x)) = none := by
        refine ServerEvent.linked_other (fun a ha ↦ ?_) hloop
        cases ha
      cases hnone.symm.trans hlink
  · rw [busEvents_snoc]
    simp

/-! ### Keys -/

/-- The requests for an endpoint are all for this address, and none is a control request. -/
def OnlyReader (addr n : Int) (es : List ServerEvent) : Prop :=
  ∀ r ∈ requests es, r.2.ep.toInt % 16 = n → r.2.address = addr ∧ r.2.isControl = false

instance (addr n : Int) (es : List ServerEvent) : Decidable (OnlyReader addr n es) :=
  inferInstanceAs (Decidable (∀ r ∈ _, _))

private theorem OnlyReader.uncontrolled {addr n : Int} {es : List ServerEvent}
    (h : OnlyReader addr n es) : Uncontrolled addr n es := fun r hr _ hn ↦ (h r hr hn).2

/-- Where all of an endpoint's requests are for one address, nobody else reads it. -/
theorem ServerRun.oneReader {es : List ServerEvent} {s : Server} (h : ServerRun es s) {addr : Int}
    (honly : OnlyReader addr 1 es) : OneReader addr (hcdEvents es) := by
  intro t ht hdir hnumber
  obtain ⟨q, hq⟩ := ServerRun.queues h
  have hdriver : HcdRun (hcdEvents es) s.loop.hcd := (ServerRun.loop_run h).driver_run
  obtain ⟨l, hlink, hslot, hmem⟩ := hq.transaction_link ht
  obtain ⟨u, b, st, hargs, hreq, -⟩ := h.linked_staged l hlink
  have hin : l.2.dir = true :=
    (hdriver.directed hlink (fits_transactionsOf (ServerRun.fits h) l.1) t hmem).symm.trans hdir
  have hkey : l.2.key.endpointNumber = 1 := by
    have hnamed := hdriver.packets_named t ht
    rw [hnumber] at hnamed
    exact (congrArg (fun v : Slot ↦ v.key.endpointNumber) hslot).trans hnamed.symm
  have hend : l.2.endpoint = 1 := hkey
  have hon : b.submit.ep.toInt % 16 = 1 ∧ l.2.addr = b.submit.address ∧ l.2.setup = false := by
    rw [hargs] at hend hin ⊢
    cases st with
    | setup => cases hin
    | _ => exact ⟨hend, rfl, rfl⟩
  obtain ⟨haddr, -⟩ := honly _ hreq hon.1
  rw [← hslot, LinkArgs.slot, LinkArgs.key, LinkArgs.list, hend, hon.2.1, hon.2.2]
  simp [haddr]

/-- The keys reach the clients: in every run of the simulator, whatever clients ask for, and
whatever is reset, refused or overrun, the bytes in the replies to direct requests for endpoint 1
of an address are, reply after reply, some of the keys that the firmware read for it, in the order
in which it read them, each at most once. -/
theorem SimulatorRun.keys_answered (h : SimulatorRun es s) (addr : Int) :
    (answeredOn addr 1 (servedEvents es)).Sublist (keysTyped (firmwareEvents es)) := by
  have hcoupled := h.coupled
  have hsize : ∀ l ∈ links (busEvents (coupledEvents es)), 0 ≤ l.2.size :=
    fun l hl ↦ (h.sized l hl).1
  have hanswered := h.served.answered_sublist addr 1
  have hcarried := (hcoupled.carried_keys hsize addr).1
  rw [hcoupled.carried_split h.sized addr, busEvents_coupled, deviceEvents_coupled] at hcarried
  have htyped := hcoupled.main.keys_sublist
  rw [deviceEvents_coupled] at htyped
  calc (answeredOn addr 1 (servedEvents es)).Sublist _ := List.sublist_append_left _ _
    List.Sublist _ (transferred true addr 1 (hcdEvents (servedEvents es))) := hanswered
    List.Sublist _ _ := List.sublist_append_left _ _
    List.Sublist _ (keysSent (firmwareEvents es)) := hcarried
    List.Sublist _ _ := List.sublist_append_left _ _
    List.Sublist _ (keysTyped (firmwareEvents es)) := htyped

/-- A step of the simulator in which no key is given up. -/
def KeysKept (s : Simulator) (e : SimulatorEvent) : Prop := ∀ d ∈ e.2.device, KeepsKey s.device d

instance (s : Simulator) (e : SimulatorEvent) : Decidable (KeysKept s e) :=
  inferInstanceAs (Decidable (∀ d ∈ e.2.device, _))

/-- No key is lost between the keypad and the clients: where none is given up, and the requests
for endpoint 1 are direct and for one address, the keys that the firmware read are those in the
replies, those of the reply about to be sent, those of the transfers under way and the one that
waits in the device. -/
theorem SimulatorRun.keys_delivered
    (h : Run (Guarded (Fires simulatorExec) KeysKept) simulatorInit es s) {addr : Int}
    (honly : OnlyReader addr 1 (servedEvents es)) :
    keysTyped (firmwareEvents es) = answeredOn addr 1 (servedEvents es) ++
      s.server.unsent addr 1 ++ unfinished true addr 1 (hcdEvents (servedEvents es)) ++
      loaded s.device.fw.lib := by
  have hrun : SimulatorRun es s := h.unguarded
  have hmain : Run (Guarded (Fires mainExec) KeepsKey) runningInit (firmwareEvents es)
      s.device := by
    refine Run.project Simulator.device (fun e ↦ e.2.device) ?_ h
    rintro s e s' ⟨hfire, hkept⟩
    cases simulatorStep_of_exec hfire with
    | server => rfl
    | idle => rfl
    | send _ hdevice => exact ⟨hdevice, hkept _ rfl⟩
    | device hdevice => exact ⟨hdevice, hkept _ rfl⟩
  have hcoupled := hrun.coupled
  have hreader : OneReader addr (busEvents (coupledEvents es)) := by
    rw [busEvents_coupled]
    exact hrun.served.oneReader honly
  have hcarried := (hcoupled.carried_keys (fun l hl ↦ (hrun.sized l hl).1) addr).2 hreader
  rw [hcoupled.carried_split hrun.sized addr, busEvents_coupled, deviceEvents_coupled,
    ← hrun.served.answered_eq honly.uncontrolled] at hcarried
  rw [hcarried]
  exact (MainRun.keys_account hmain).1

end Runs

-- A client configures the device and asks for two keys: nothing is there at first, then the first
-- key is, and a second one waits.
private def askTwice : List SimulatorOp :=
  let turn : List SimulatorOp := [.server .wake, .server .evaluate, .body]
  let round : List SimulatorOp := turn ++ turn ++ turn ++ turn ++ turn ++ turn
  let handle (key : UInt8) : List SimulatorOp :=
    [.device .top, .device .poll, .device (.process key)]
  let ask (c : CmdSubmit) (data : List UInt8) : List SimulatorOp :=
    [.server (.start .accept c 64 data), .server (.insert .accept), .server (.link .accept)]
  let stack : List UInt8 := List.replicate 8 0
  let answer : List SimulatorOp :=
    [.server (.header .hcd stack), .server (.payload .hcd), .server (.free .hcd)]
  let configure : CmdSubmit := ⟨1, 0x10000, 0, 0, 0, [0, 9, 1, 0, 0, 0, 0, 0]⟩
  let read (seqnum : BitVec 32) : CmdSubmit := ⟨seqnum, 0x10000, 1, 1, 2, stack⟩
  [.device .busReset, .device .top, .device .poll] ++ ask configure [] ++ turn ++ handle 0 ++
  turn ++ turn ++ turn ++ turn ++ turn ++ [.server (.resume .accept), .server (.link .accept)] ++
  round ++ [.server (.resume .accept), .server (.header .accept stack), .server (.free .accept)] ++
  handle 0 ++ ask (read 2) [0, 0] ++ round ++ answer ++ handle 97 ++ ask (read 3) [0, 0] ++ round ++
  answer ++ handle 98

private theorem askTwice_runs : ∃ es s,
    Run (Guarded (Fires simulatorExec) KeysKept) simulatorInit es s ∧
    answeredOn 0 1 (servedEvents es) = [97] ∧ keysTyped (firmwareEvents es) = [97, 98] ∧
    OnlyReader 0 1 (servedEvents es) := by
  have hcheck : runsTo (guardedExec simulatorExec KeysKept .blocked) simulatorInit askTwice
      (fun _ es ↦ decide (answeredOn 0 1 (servedEvents es) = [97] ∧
        keysTyped (firmwareEvents es) = [97, 98] ∧ OnlyReader 0 1 (servedEvents es))) = true := by
    decide +kernel
  obtain ⟨es, s, hrun, hp⟩ := Run.of_runsTo hcheck
  exact ⟨es, s, Run.of_guardedExec hrun, of_decide_eq_true hp⟩

/-- A client is answered with a key that was typed. -/
theorem SimulatorRun.keys_answered_one : ∃ es s, SimulatorRun es s ∧
    answeredOn 0 1 (servedEvents es) = [97] ∧
    (answeredOn 0 1 (servedEvents es)).Sublist (keysTyped (firmwareEvents es)) := by
  obtain ⟨es, s, hrun, hbytes, -, -⟩ := askTwice_runs
  exact ⟨es, s, hrun.unguarded, hbytes, SimulatorRun.keys_answered hrun.unguarded 0⟩

/-- Two keys typed are accounted for over the whole simulator. -/
theorem SimulatorRun.keys_delivered_two : ∃ es s,
    Run (Guarded (Fires simulatorExec) KeysKept) simulatorInit es s ∧
    keysTyped (firmwareEvents es) = [97, 98] ∧
    keysTyped (firmwareEvents es) = answeredOn 0 1 (servedEvents es) ++
      s.server.unsent 0 1 ++ unfinished true 0 1 (hcdEvents (servedEvents es)) ++
      loaded s.device.fw.lib := by
  obtain ⟨es, s, hrun, -, htyped, honly⟩ := askTwice_runs
  exact ⟨es, s, hrun, htyped, SimulatorRun.keys_delivered hrun honly⟩

end BiMpp.Usbip
