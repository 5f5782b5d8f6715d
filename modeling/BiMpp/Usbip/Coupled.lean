import BiMpp.Firmware.Keys
import BiMpp.Host.Stream
import BiMpp.Usbip.Memory

/-!
# The controller and the firmware together

`hcd_loop` with the device it drives, which runs `pic_usb_device.X/main.c` over the library: each
packet of `hcd_gtd_send` is a call of `__usb_transfer`, and its answer is the device's;
`bi-mpp-pic24-usb-simulator-master/src/hcd.c:159–269,327–364`, `src/usb_lib_usbip.c:232–300`.
What clients link, and when, is open.
-/

namespace BiMpp.Usbip
open BiMpp.Usb BiMpp.Base BiMpp.Host BiMpp.Device
open BiMpp.Firmware hiding LoopOp LoopEvent loopExec LoopRun

/-! ### The two machines -/

/-- The thread of the controller, and the device with its firmware. -/
structure Coupled where
  loop : Loop
  device : Running

/-- Before either has made a step. -/
def coupledInit : Coupled := ⟨loopInit, runningInit⟩

/-- A client's link, the steps of the thread, and those of the device: the bus reset, and the
parts of a pass of its loop. -/
inductive CoupledOp
  | link (a : LinkArgs)
  | wake
  | evaluate
  | body
  | device (op : MainOp)
  deriving DecidableEq, Repr

/-- The steps that the two machines make in a step of both. -/
structure CoupledOut where
  host : Option LoopEvent
  device : Option MainEvent
  deriving DecidableEq, Repr

/-- The packet that the thread is about to send; `hcd.c:164–202`. -/
def Coupled.packet (s : Coupled) : Except Fault (Option (Int × Packet × List UInt8)) :=
  match s.loop.pc, s.loop.slot.list with
  | .body epd, some w => Threads.nextPacket s.loop.hcd w epd
  | _, _ => .ok none

/-- The packet as `__usb_transfer` gets it; `hcd.c:205–206`. -/
def transferOp (addr : Int) (k : Packet) (data : List UInt8) : MainOp :=
  .transfer addr (BitVec.ofInt 8 k.ep) k.pid data k.size

/-- The device after its answer to the packet that the thread is about to send, the answer, and its
part of the step; without a packet the device does nothing. -/
def Coupled.answer (s : Coupled) : Except Stop (Running × Response × Option MainEvent) :=
  match s.packet with
  | .error f => .error (.fault f)
  | .ok none => .ok (s.device, .nak, none)
  | .ok (some (addr, k, data)) =>
    match mainExec s.device (transferOp addr k data) with
    | .ok (device, .response r) => .ok (device, r, some (transferOp addr k data, .response r))
    | .ok _ => .error .blocked
    | .error f => .error f

/-- A step of the thread, after the device has made its own. -/
def Coupled.host (s : Coupled) (device : Running) (op : LoopOp) (e : Option MainEvent) :
    Except Stop (Coupled × CoupledOut) := do
  let (loop, o) ← loopExec s.loop op
  return (⟨loop, device⟩, ⟨some (op, o), e⟩)

/-- One step. -/
def coupledExec (s : Coupled) : CoupledOp → Except Stop (Coupled × CoupledOut)
  | .link a => s.host s.device (.link a) none
  | .wake => s.host s.device .wake none
  | .evaluate => s.host s.device .evaluate none
  | .body => do
    let (device, r, e) ← s.answer
    s.host device (.body r) e
  | .device (.transfer ..) => .error .blocked
  | .device op => do
    let (device, o) ← mainExec s.device op
    return ({ s with device := device }, ⟨none, some (op, o)⟩)

/-- A step with what it showed. -/
abbrev CoupledEvent := CoupledOp × CoupledOut

/-- Finite runs of the two. -/
abbrev CoupledRun : List CoupledEvent → Coupled → Prop := Run (Fires coupledExec) coupledInit

/-- What the controller did. -/
def busEvents (es : List CoupledEvent) : List HcdEvent :=
  Host.driverEvents (es.filterMap fun e ↦ e.2.host)

/-- What the device did. -/
def deviceEvents (es : List CoupledEvent) : List MainEvent := es.filterMap fun e ↦ e.2.device

/-! ### Steps -/

/-- A transaction of both, or a step of one of them without. -/
inductive CoupledStep (s : Coupled) : CoupledEvent → Coupled → Prop
  | send {w : EpdList} {epd : Option EpdPtr} {t : Transaction} {loop : Loop} {device : Running} :
      Fires hcdExec s.loop.hcd (.send w epd t.response, .sent (some t)) loop.hcd →
      Fires loopExec s.loop
        (.body t.response, some (.send w epd t.response, .sent (some t))) loop →
      Fires mainExec s.device
        (transferOp t.key.functionAddress t.packet t.offered, .response t.response) device →
      CoupledStep s (.body, ⟨some (.body t.response, some (.send w epd t.response, .sent (some t))),
        some (transferOp t.key.functionAddress t.packet t.offered, .response t.response)⟩)
        ⟨loop, device⟩
  | host {op : CoupledOp} {e : LoopEvent} {loop : Loop} : Fires loopExec s.loop e loop →
      (∀ d, e.2 = some d → HcdEvent.transaction d = none) →
      CoupledStep s (op, ⟨some e, none⟩) { s with loop := loop }
  | device {op : CoupledOp} {e : MainEvent} {device : Running} :
      Fires mainExec s.device e device → (∀ addr ep pid data size,
        e.1 ≠ .transfer addr ep pid data size) →
      CoupledStep s (op, ⟨none, some e⟩) { s with device := device }

section Steps

variable {s s' : Coupled} {e : CoupledEvent}

private theorem host_ok {device : Running} {op : LoopOp} {e : Option MainEvent} {out : CoupledOut}
    (h : s.host device op e = .ok (s', out)) : ∃ loop o, loopExec s.loop op = .ok (loop, o) ∧
      s' = ⟨loop, device⟩ ∧ out = ⟨some (op, o), e⟩ := by
  obtain ⟨⟨loop, o⟩, hloop, h⟩ := bind_eq_ok.mp h
  cases pure_eq_ok.mp h
  exact ⟨loop, o, hloop, rfl, rfl⟩

/-- There is a packet and the device has answered it, or there is none. -/
theorem Coupled.answer_ok {device : Running} {r : Response} {d : Option MainEvent}
    (h : s.answer = .ok (device, r, d)) :
    s.packet = .ok none ∧ device = s.device ∧ r = .nak ∧ d = none ∨
      ∃ addr k data, s.packet = .ok (some (addr, k, data)) ∧
        Fires mainExec s.device (transferOp addr k data, .response r) device ∧
        d = some (transferOp addr k data, .response r) := by
  unfold Coupled.answer at h
  split at h
  · cases h
  · next hpacket =>
    cases h
    exact .inl ⟨hpacket, rfl, rfl, rfl⟩
  · next addr k data hpacket =>
    split at h
    · next hdevice =>
      cases h
      exact .inr ⟨addr, k, data, hpacket, hdevice, rfl⟩
    · cases h
    · cases h

/-- Without a packet the device does nothing. -/
theorem Coupled.answer_idle (h : s.packet = .ok none) :
    s.answer = .ok (s.device, .nak, none) := by
  unfold Coupled.answer
  rw [h]

/-- A packet is answered. -/
theorem Coupled.answer_send {addr : Int} {k : Packet} {data : List UInt8} {r : Response}
    {device : Running} (h : s.packet = .ok (some (addr, k, data)))
    (hdevice : Fires mainExec s.device (transferOp addr k data, .response r) device) :
    s.answer = .ok (device, r, some (transferOp addr k data, .response r)) := by
  have hexec : mainExec s.device (transferOp addr k data) = .ok (device, .response r) := hdevice
  unfold Coupled.answer
  simp only [h, hexec]

private theorem packet_some {v : Int × Packet × List UInt8} (h : s.packet = .ok (some v)) :
    ∃ w epd, s.loop.pc = .body epd ∧ s.loop.slot.list = some w ∧
      Threads.nextPacket s.loop.hcd w epd = .ok (some v) := by
  unfold Coupled.packet at h
  split at h
  · next epd w hpc hlist => exact ⟨w, epd, hpc, hlist, h⟩
  · cases h

private theorem body_quiet {r : Response} {loop : Loop} {o : Option HcdEvent}
    (hpacket : s.packet = .ok none) (h : loopExec s.loop (.body r) = .ok (loop, o)) :
    ∀ d, o = some d → HcdEvent.transaction d = none := by
  rintro d rfl
  cases loopStep_of_exec h with
  | @body epd _ hcd out hpc hexec =>
    unfold LoopSlot.call at hexec ⊢
    cases hlist : s.loop.slot.list with
    | none =>
      rw [hlist] at hexec
      obtain ⟨v, -, ho⟩ := bind_eq_ok.mp hexec
      cases pure_eq_ok.mp ho
      rfl
    | some w =>
      rw [hlist] at hexec
      unfold Coupled.packet at hpacket
      rw [hpc, hlist] at hpacket
      rw [nextPacket_none hpacket hexec]
      rfl

/-- What the executable step does is a step of the coupled system. -/
theorem coupledStep_of_exec (h : Fires coupledExec s e s') : CoupledStep s e s' := by
  obtain ⟨op, out⟩ := e
  have h : coupledExec s op = .ok (s', out) := h
  cases op with
  | link a =>
    obtain ⟨loop, o, hloop, rfl, rfl⟩ := host_ok h
    refine .host hloop ?_
    rintro d rfl
    cases loopStep_of_exec hloop with
    | link hexec =>
      obtain ⟨v, -, ho⟩ := bind_eq_ok.mp hexec
      cases pure_eq_ok.mp ho
      rfl
  | wake =>
    obtain ⟨loop, o, hloop, rfl, rfl⟩ := host_ok h
    have hnone : o = none := by
      cases loopStep_of_exec hloop
      rfl
    subst hnone
    exact .host hloop fun d hd ↦ by cases hd
  | evaluate =>
    obtain ⟨loop, o, hloop, rfl, rfl⟩ := host_ok h
    have hnone : o = none := by
      cases loopStep_of_exec hloop
      rfl
    subst hnone
    exact .host hloop fun d hd ↦ by cases hd
  | body =>
    obtain ⟨⟨device, r, d⟩, hanswer, h⟩ := bind_eq_ok.mp h
    obtain ⟨loop, o, hloop, rfl, rfl⟩ := host_ok h
    rcases Coupled.answer_ok hanswer with
      ⟨hpacket, rfl, rfl, rfl⟩ | ⟨addr, k, data, hpacket, hdevice, rfl⟩
    · exact .host hloop (body_quiet hpacket hloop)
    · obtain ⟨w, epd, hpc, hlist, hnext⟩ := packet_some hpacket
      have hstep := loopStep_of_exec hloop
      cases hstep with
      | @body epd' _ hcd out hpc' hexec =>
        obtain rfl := LoopPc.body.inj (hpc.symm.trans hpc')
        have hcall : s.loop.slot.call epd r = .send w epd r := by
          unfold LoopSlot.call
          rw [hlist]
        rw [hcall] at hexec hloop ⊢
        obtain ⟨t, rfl, rfl, rfl, rfl, rfl⟩ := nextPacket_some hnext hexec
        exact .send hexec hloop hdevice
  | device op =>
    have hdevice : ∀ {op : MainOp}, (∀ addr ep pid data size,
        op ≠ .transfer addr ep pid data size) → (do
          let (device, o) ← mainExec s.device op
          return ({ s with device := device }, ⟨none, some (op, o)⟩) :
          Except Stop (Coupled × CoupledOut)) = .ok (s', out) →
        CoupledStep s (.device op, out) s' := by
      intro op hop h
      obtain ⟨⟨device, o⟩, hexec, h⟩ := bind_eq_ok.mp h
      cases pure_eq_ok.mp h
      exact .device hexec hop
    cases op with
    | transfer => cases h
    | _ => exact hdevice nofun h

end Steps

/-! ### Runs of the parts -/

section Runs

variable {es : List CoupledEvent} {s : Coupled}

/-- The thread's part of a run. -/
theorem CoupledRun.thread (h : CoupledRun es s) :
    Host.LoopRun (es.filterMap fun e ↦ e.2.host) s.loop := by
  refine Run.project Coupled.loop (fun e ↦ e.2.host) ?_ h
  intro s e s' hfire
  cases coupledStep_of_exec hfire with
  | send _ hloop => exact hloop
  | host hloop => exact hloop
  | device => rfl

/-- The device's part of a run. -/
theorem CoupledRun.main (h : CoupledRun es s) : MainRun (deviceEvents es) s.device := by
  refine Run.project Coupled.device (fun e ↦ e.2.device) ?_ h
  intro s e s' hfire
  cases coupledStep_of_exec hfire with
  | send _ _ hdevice => exact hdevice
  | host => rfl
  | device hdevice => exact hdevice

/-- The driver's part of a run. -/
theorem CoupledRun.driver (h : CoupledRun es s) : HcdRun (busEvents es) s.loop.hcd :=
  h.thread.driver_run

/-- The events of the bus after one more event. -/
theorem busEvents_snoc (es : List CoupledEvent) (e : CoupledEvent) :
    busEvents (es ++ [e]) = busEvents es ++ (e.2.host.bind Prod.snd).toList := by
  unfold busEvents Host.driverEvents
  rw [List.filterMap_append, List.filterMap_append]
  cases h : e.2.host with
  | none => simp [h]
  | some x => cases hx : x.2 <;> simp [h, hx]

/-- The events of the device after one more event. -/
theorem deviceEvents_snoc (es : List CoupledEvent) (e : CoupledEvent) :
    deviceEvents (es ++ [e]) = deviceEvents es ++ e.2.device.toList := by
  unfold deviceEvents
  rw [List.filterMap_append]
  cases h : e.2.device <;> simp [h]

private theorem links_mono (es : List CoupledEvent) (e : CoupledEvent) :
    links (busEvents es) ⊆ links (busEvents (es ++ [e])) := by
  intro l hl
  rw [busEvents_snoc, links, List.filterMap_append]
  exact List.mem_append_left _ hl

/-- What the device answers fits the packet that the controller sent. -/
theorem CoupledRun.fits (h : CoupledRun es s) (hsize : ∀ l ∈ links (busEvents es), 0 ≤ l.2.size) :
    ∀ d ∈ busEvents es, HcdEvent.Fits d := by
  refine Run.invariant (P := fun es _ ↦ (∀ l ∈ links (busEvents es), 0 ≤ l.2.size) →
    ∀ d ∈ busEvents es, HcdEvent.Fits d) (fun _ d hd ↦ (List.not_mem_nil hd).elim) ?_ h hsize
  intro es s e s' hrun ih hfire hsize d hd
  have hpast := fun l hl ↦ hsize l (links_mono es e hl)
  rw [busEvents_snoc] at hd
  rcases List.mem_append.mp hd with hd | hd
  · exact ih hpast d hd
  · have hd : e.2.host.bind Prod.snd = some d := Option.mem_toList.mp hd
    cases coupledStep_of_exec hfire with
    | @send w epd t loop device hcd hloop hdevice =>
      obtain rfl := Option.some.inj hd
      rintro t' ⟨⟩
      obtain ⟨g, a, hreach⟩ := (CoupledRun.driver hrun).reaches hpast (ih hpast) hcd rfl
      have hnumber := hreach.number
      unfold LinkArgs.endpoint at hnumber
      have hdir := (t.packet.ep_bits (by omega) (by omega)).2
      cases mainStep_of_exec hdevice with
      | transfer _ ht =>
        have hresp := usbTransfer_fits (MainRun.sized (CoupledRun.main hrun)) hreach.size
          t.packet.endpointNumber ht
        rw [hdir] at hresp
        exact hresp
    | host _ hquiet =>
      intro t ht
      rw [hquiet d hd] at ht
      cases ht
    | device => cases hd

/-! ### Keys -/

/-- The bytes that an event of the bus carries for a slot. -/
theorem carriedOn_snoc (dir : Bool) (addr n : Int) (es : List HcdEvent) (d : HcdEvent) :
    carriedOn dir addr n (es ++ [d]) = carriedOn dir addr n es ++
      (HcdEvent.transactionOn ⟨.bulk, ⟨addr, n⟩⟩ d).toList.flatMap (Transaction.carried dir) := by
  rw [carriedOn, transactionsOn_snoc, List.flatMap_append]
  rfl

private theorem keys_transferOp {t : Transaction} (h0 : 0 ≤ t.packet.endpointNumber)
    (h15 : t.packet.endpointNumber ≤ 15) :
    MainEvent.keys (transferOp t.key.functionAddress t.packet t.offered, .response t.response) =
      if t.packet.dirIn = true ∧ t.packet.endpointNumber = 1 then t.response.bytes else [] := by
  have hep : BitVec.ofInt 8 t.packet.ep &&& 0x8F = 0x81 ↔
      t.packet.dirIn = true ∧ t.packet.endpointNumber = 1 := by
    have hall : ∀ m : Nat, m < 16 →
        (BitVec.ofInt 8 ((m : Int) + 0x80) &&& 0x8F = 0x81 ↔ m = 1) ∧
          BitVec.ofInt 8 (m : Int) &&& 0x8F ≠ 0x81 := by decide
    obtain ⟨m, hm⟩ := Int.eq_ofNat_of_zero_le h0
    obtain ⟨hin, hout⟩ := hall m (by omega)
    unfold Packet.ep
    rw [hm]
    split
    · next hdir =>
      rw [hdir]
      exact hin.trans ⟨fun h ↦ ⟨rfl, by omega⟩, fun h ↦ by omega⟩
    · next hdir => exact iff_of_false hout fun h ↦ hdir h.1
  show (if BitVec.ofInt 8 t.packet.ep &&& 0x8F = 0x81 then _ else _) = _
  by_cases hkey : t.packet.dirIn = true ∧ t.packet.endpointNumber = 1
  · rw [if_pos hkey, if_pos (hep.mpr hkey)]
  · rw [if_neg hkey, if_neg fun h ↦ hkey (hep.mp h)]

private theorem carried_transaction (addr : Int) {t : Transaction} {w : EpdList}
    {epd : Option EpdPtr} : (HcdEvent.transactionOn ⟨.bulk, ⟨addr, 1⟩⟩
      (.send w epd t.response, .sent (some t))).toList.flatMap (Transaction.carried true) =
      if t.slot = ⟨.bulk, ⟨addr, 1⟩⟩ ∧ t.packet.dirIn = true then t.response.bytes else [] := by
  rw [HcdEvent.transactionOn_send]
  by_cases hslot : t.slot = ⟨.bulk, ⟨addr, 1⟩⟩
  · rw [if_pos hslot, Option.toList_some, List.flatMap_singleton, Transaction.carried,
      Transaction.moved]
    by_cases hdir : t.packet.dirIn = true
    · rw [if_pos hdir, if_pos hdir, if_pos ⟨hslot, hdir⟩]
    · rw [if_neg hdir, if_neg fun h ↦ hdir h.2]
  · rw [if_neg hslot, if_neg fun h ↦ hslot h.1]
    rfl

/-- The transactions of endpoint 1 are all made for this address. -/
def OneReader (addr : Int) (es : List HcdEvent) : Prop :=
  ∀ t ∈ transactions es, t.packet.dirIn = true → t.packet.endpointNumber = 1 →
    t.slot = ⟨.bulk, ⟨addr, 1⟩⟩

instance (addr : Int) (es : List HcdEvent) : Decidable (OneReader addr es) :=
  inferInstanceAs (Decidable (∀ t ∈ _, _))

/-- What the controller receives on endpoint 1 of an address is some of what the device sent, and
all of it if nobody else reads there. -/
theorem CoupledRun.carried_keys (h : CoupledRun es s)
    (hsize : ∀ l ∈ links (busEvents es), 0 ≤ l.2.size) (addr : Int) :
    (carriedOn true addr 1 (busEvents es)).Sublist (keysSent (deviceEvents es)) ∧
      (OneReader addr (busEvents es) →
        carriedOn true addr 1 (busEvents es) = keysSent (deviceEvents es)) := by
  refine Run.invariant (P := fun es _ ↦ (∀ l ∈ links (busEvents es), 0 ≤ l.2.size) →
    (carriedOn true addr 1 (busEvents es)).Sublist (keysSent (deviceEvents es)) ∧
      (OneReader addr (busEvents es) →
        carriedOn true addr 1 (busEvents es) = keysSent (deviceEvents es))) ?_ ?_ h hsize
  · exact fun _ ↦ ⟨List.nil_sublist _, fun _ ↦ rfl⟩
  · intro es s e s' hrun ih hfire hsize
    have hpast := fun l hl ↦ hsize l (links_mono es e hl)
    obtain ⟨hsome, hall⟩ := ih hpast
    cases coupledStep_of_exec hfire with
    | @send w epd t loop device hcd hloop hdevice =>
      obtain ⟨g, a, hreach⟩ :=
        (CoupledRun.driver hrun).reaches hpast (CoupledRun.fits hrun hpast) hcd rfl
      have hnumber := hreach.number
      unfold LinkArgs.endpoint at hnumber
      have hname := (CoupledRun.driver hrun).packet_endpoint hcd rfl
      have hone : t.slot = ⟨.bulk, ⟨addr, 1⟩⟩ → t.packet.endpointNumber = 1 := by
        intro hslot
        rw [hname]
        exact congrArg (fun s ↦ s.key.endpointNumber) hslot
      rw [busEvents_snoc, deviceEvents_snoc]
      show (carriedOn true addr 1 (busEvents es ++
          [(.send w epd t.response, .sent (some t))])).Sublist (keysSent (deviceEvents es ++
          [(transferOp t.key.functionAddress t.packet t.offered, .response t.response)])) ∧
        (OneReader addr (busEvents es ++ [(.send w epd t.response, .sent (some t))]) →
          carriedOn true addr 1 (busEvents es ++ [(.send w epd t.response, .sent (some t))]) =
            keysSent (deviceEvents es ++
              [(transferOp t.key.functionAddress t.packet t.offered, .response t.response)]))
      rw [carriedOn_snoc, keysSent_snoc, carried_transaction,
        keys_transferOp (by omega) (by omega)]
      refine ⟨hsome.append ?_, fun hreader ↦ ?_⟩
      · split
        · next hx => rw [if_pos ⟨hx.2, hone hx.1⟩]
        · exact List.nil_sublist _
      · have hbefore : OneReader addr (busEvents es) := by
          intro t' ht'
          apply hreader t'
          rw [transactions_snoc]
          exact List.mem_append_left _ ht'
        have hlast := hreader t (by rw [transactions_snoc]; simp [HcdEvent.transaction])
        rw [hall hbefore]
        congr 1
        by_cases hx : t.packet.dirIn = true ∧ t.packet.endpointNumber = 1
        · rw [if_pos hx, if_pos ⟨hlast hx.1 hx.2, hx.1⟩]
        · rw [if_neg hx, if_neg fun hy ↦ hx ⟨hy.2, hone hy.1⟩]
    | @host op e loop hloop hquiet =>
      rw [busEvents_snoc, deviceEvents_snoc, Option.toList_none, List.append_nil]
      cases hd : e.2 with
      | none => simpa [hd] using ih hpast
      | some d =>
        have hnone : carriedOn true addr 1 (busEvents es ++ [d]) =
            carriedOn true addr 1 (busEvents es) := by
          rw [carriedOn, transactionsOn_none _ _ (hquiet d hd)]
          rfl
        have hreader : OneReader addr (busEvents es ++ [d]) ↔ OneReader addr (busEvents es) := by
          unfold OneReader
          rw [transactions_snoc, hquiet d hd, Option.toList_none, List.append_nil]
        simpa [hd, hnone, hreader] using ih hpast
    | @device op e device hexec htransfer =>
      have hquiet : MainEvent.keys e = [] := by
        unfold MainEvent.keys
        split
        · exact (htransfer _ _ _ _ _ rfl).elim
        · rfl
      rw [busEvents_snoc, deviceEvents_snoc, Option.toList_some, keysSent_snoc, hquiet,
        List.append_nil]
      simpa using ih hpast

/-- What endpoint 1 carried is with the client, or with reads under way. -/
theorem CoupledRun.carried_split (h : CoupledRun es s)
    (hsized : ∀ l ∈ links (busEvents es), l.2.Sized) (addr : Int) :
    carriedOn true addr 1 (busEvents es) =
      transferred true addr 1 (busEvents es) ++ unfinished true addr 1 (busEvents es) := by
  have hfits := h.fits fun l hl ↦ (hsized l hl).1
  have hone : (1 : Int) ≠ 0 := by decide
  rw [busEvents, h.thread.carriedOn_eq, h.thread.linkedTo_eq addr hone, List.flatMap_append,
    h.thread.completed_eq hsized hfits addr hone, List.flatMap_map]
  rfl

/-- The keys reach the client: in every run of the controller and the firmware, whatever is linked,
reset, refused or overrun, the bytes that the completed bulk reads of endpoint 1 brought a client,
in the order of their completion, are some of the keys that the firmware read for it, in the order
in which it read them, each at most once. -/
theorem CoupledRun.keys_reach (h : CoupledRun es s)
    (hsized : ∀ l ∈ links (busEvents es), l.2.Sized) (addr : Int) :
    (transferred true addr 1 (busEvents es)).Sublist (keysTyped (deviceEvents es)) := by
  have hsize : ∀ l ∈ links (busEvents es), 0 ≤ l.2.size := fun l hl ↦ (hsized l hl).1
  have hcarried := (h.carried_keys hsize addr).1
  rw [h.carried_split hsized addr] at hcarried
  have hsent := (List.sublist_append_left _ _).trans hcarried
  exact hsent.trans ((List.sublist_append_left _ _).trans h.main.keys_sublist)

/-- A step of both in which no key is given up. -/
def KeyKept (s : Coupled) (e : CoupledEvent) : Prop := ∀ d ∈ e.2.device, KeepsKey s.device d

instance (s : Coupled) (e : CoupledEvent) : Decidable (KeyKept s e) :=
  inferInstanceAs (Decidable (∀ d ∈ e.2.device, _))

/-- No key is lost on its way: where none is given up and one address reads endpoint 1, the keys
that the firmware read for it are those that the completed reads brought the client, those that
the reads under way have got, and the one that waits in the device. -/
theorem CoupledRun.keys_conserved
    (h : Run (Guarded (Fires coupledExec) KeyKept) coupledInit es s)
    (hsized : ∀ l ∈ links (busEvents es), l.2.Sized) {addr : Int}
    (hreader : OneReader addr (busEvents es)) :
    keysTyped (deviceEvents es) = transferred true addr 1 (busEvents es) ++
      unfinished true addr 1 (busEvents es) ++ loaded s.device.fw.lib := by
  have hrun : CoupledRun es s := h.unguarded
  have hmain : Run (Guarded (Fires mainExec) KeepsKey) runningInit (deviceEvents es) s.device := by
    refine Run.project Coupled.device (fun e ↦ e.2.device) ?_ h
    rintro s e s' ⟨hfire, hkept⟩
    cases coupledStep_of_exec hfire with
    | send _ _ hdevice => exact ⟨hdevice, hkept _ rfl⟩
    | host => rfl
    | device hdevice => exact ⟨hdevice, hkept _ rfl⟩
  have hcarried := (hrun.carried_keys (fun l hl ↦ (hsized l hl).1) addr).2 hreader
  rw [← hrun.carried_split hsized addr, hcarried]
  exact (MainRun.keys_account hmain).1

end Runs

-- The device is configured, three reads are linked, and three keys are pressed: the first read
-- brings nothing, the next two a key each, and the last key waits.
private def threeKeys : List CoupledOp :=
  let turn : List CoupledOp := [.wake, .evaluate, .body]
  let round : List CoupledOp := turn ++ turn ++ turn ++ turn ++ turn ++ turn
  let handle (key : UInt8) : List CoupledOp :=
    [.device .top, .device .poll, .device (.process key)]
  [.device .busReset, .device .top, .device .poll,
    .link ⟨0, 0, false, true, 0, 64, [0, 9, 1, 0, 0, 0, 0, 0], 8, ⟨10, 8⟩⟩] ++ turn ++ handle 0 ++
  [.link ⟨0, 0x81, true, false, 2, 64, [0, 0], 2, ⟨11, 2⟩⟩,
    .link ⟨0, 0x81, true, false, 2, 64, [0, 0], 2, ⟨12, 2⟩⟩,
    .link ⟨0, 0x81, true, false, 2, 64, [0, 0], 2, ⟨13, 2⟩⟩] ++ turn ++ turn ++ turn ++ turn ++
  turn ++ handle 97 ++ round ++ handle 98 ++ round ++ handle 99 ++ round

private theorem threeKeys_runs : ∃ es s,
    Run (Guarded (Fires coupledExec) KeyKept) coupledInit es s ∧
    transferred true 0 1 (busEvents es) = [97, 98] ∧
    (∀ l ∈ links (busEvents es), l.2.Sized) ∧ OneReader 0 (busEvents es) := by
  have hcheck : runsTo (guardedExec coupledExec KeyKept .blocked) coupledInit threeKeys
      (fun _ es ↦ decide (transferred true 0 1 (busEvents es) = [97, 98] ∧
        (∀ l ∈ links (busEvents es), l.2.Sized) ∧ OneReader 0 (busEvents es))) = true := by
    decide +kernel
  obtain ⟨es, s, hrun, hp⟩ := Run.of_runsTo hcheck
  exact ⟨es, s, Run.of_guardedExec hrun, of_decide_eq_true hp⟩

/-- Two keys reach the driver. -/
theorem CoupledRun.keys_reach_two : ∃ es s, CoupledRun es s ∧
    transferred true 0 1 (busEvents es) = [97, 98] ∧
    (transferred true 0 1 (busEvents es)).Sublist (keysTyped (deviceEvents es)) := by
  obtain ⟨es, s, hrun, hbytes, hsized, -⟩ := threeKeys_runs
  exact ⟨es, s, hrun.unguarded, hbytes, CoupledRun.keys_reach hrun.unguarded hsized 0⟩

/-- Two keys have reached the driver and a third is on its way. -/
theorem CoupledRun.keys_conserved_three : ∃ es s,
    Run (Guarded (Fires coupledExec) KeyKept) coupledInit es s ∧
    transferred true 0 1 (busEvents es) = [97, 98] ∧
    keysTyped (deviceEvents es) = transferred true 0 1 (busEvents es) ++
      unfinished true 0 1 (busEvents es) ++ loaded s.device.fw.lib := by
  obtain ⟨es, s, hrun, hbytes, hsized, hreader⟩ := threeKeys_runs
  exact ⟨es, s, hrun, hbytes, CoupledRun.keys_conserved hrun hsized hreader⟩

end BiMpp.Usbip
