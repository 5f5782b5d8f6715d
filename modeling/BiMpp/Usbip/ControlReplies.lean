import BiMpp.Usbip.ControlReads
import BiMpp.Usbip.Simulator

/-!
# What the replies to control requests bring

A descriptor that a client gets in the reply to a control request, from the request to
`process_control_transfer` and back: `bi-mpp-pic24-usb-simulator-master/src/sys.c:189–231`,
`src/usbip.c:82–110`, `src/hcd.c:159–269`, `pic_usb_device.X/main.c:213–327,372–427`.
-/

namespace BiMpp.Usbip
open BiMpp.Usb BiMpp.Base BiMpp.Host BiMpp.Device
open BiMpp.Firmware hiding LoopOp LoopEvent loopExec LoopRun

section Server

variable {es : List ServerEvent} {s : Server}

/-- The URB of a control request has its data from the data stage, once there was one. -/
theorem ServerRun.stage_filled (h : ServerRun es s) {t : Thread} {u : Nat} {b : Urb}
    (hfilled : (s.pc t).filled = some (u, b)) (hcontrol : b.submit.isControl = true) :
    b.length = 0 ∨ ∃ c ∈ completions (hcdEvents es), c.urb = stageUrb u .data ∧
      b.data = c.data ∧ b.length = c.length := by
  have hfills : Fills fun es u b ↦ b.length = 0 ∨ ∃ c ∈ completions (hcdEvents es),
      c.urb = stageUrb u .data ∧ b.data = c.data ∧ b.length = c.length := by
    constructor
    · rintro es u b e (hzero | ⟨c, hc, hu⟩)
      · exact .inl hzero
      · exact .inr ⟨c, completions_mono e hc, hu⟩
    · exact fun _ _ ↦ .inl rfl
    · exact fun _ hc hu ↦ .inr ⟨_, hc, hu, rfl, rfl⟩
  exact ServerRun.fills hfills h t u b hfilled hcontrol

/-- The URB of a reply to a control request has it, too. -/
theorem ServerRun.reply_filled (h : ServerRun es s) {r : Reply} (hr : r ∈ replies es)
    (hcontrol : r.urb.submit.isControl = true) :
    r.urb.length = 0 ∨ ∃ c ∈ completions (hcdEvents es), c.urb = stageUrb r.request .data ∧
      r.urb.data = c.data ∧ r.urb.length = c.length := by
  obtain ⟨e, he, hreply⟩ := List.mem_filterMap.mp hr
  obtain ⟨t, rfl⟩ := ServerEvent.eq_of_reply hreply
  obtain ⟨past, rest, rfl⟩ := List.append_of_mem he
  obtain ⟨m, m', hm, hfire, -⟩ := h.fired
  have hstep : ServerStep m _ m' := serverStep_of_exec hfire
  obtain ⟨hpc, -⟩ := hstep.header_pc
  have hfilled : (m.pc t).filled = some (r.request, r.urb) := by
    rw [hpc]
    rfl
  rcases ServerRun.stage_filled hm hfilled hcontrol with hzero | ⟨c, hc, hu⟩
  · exact .inl hzero
  · refine .inr ⟨c, ?_, hu⟩
    rw [hcdEvents_append, completions, List.filterMap_append]
    exact List.mem_append_left _ hc

end Server

section Runs

variable {es : List SimulatorEvent} {s : Simulator}

/-- The SETUP packets that the device takes are the setup fields of control requests. -/
theorem SimulatorRun.setups_requested (h : SimulatorRun es s) {packet : List UInt8}
    (hp : packet ∈ setups (firmwareEvents es)) :
    ∃ q ∈ requests (servedEvents es), q.2.isControl = true ∧ q.2.setup = packet := by
  rw [← deviceEvents_coupled] at hp
  obtain ⟨t, ht, hpid, rfl⟩ := h.coupled.setups_sent packet hp
  rw [busEvents_coupled] at ht
  have hserved := h.served
  obtain ⟨a, ha⟩ := ServerRun.queues hserved
  have hdriver : HcdRun (hcdEvents (servedEvents es)) s.server.loop.hcd :=
    (ServerRun.loop_run hserved).driver_run
  obtain ⟨l, hlink, -, hmem⟩ := ha.transaction_link ht
  have hfits := fits_transactionsOf (ServerRun.fits hserved) l.1
  obtain ⟨u, b, st, hargs, hreq, hst⟩ := hserved.linked_staged l hlink
  have hsetup := hdriver.setup_linked hlink hfits t hmem hpid
  have hsized : l.2.Sized := by
    have hall := h.sized
    rw [busEvents_coupled] at hall
    exact hall l hlink
  rw [hargs] at hsetup
  cases st with
  | setup =>
    refine ⟨(u, b.submit), hreq, (CmdSubmit.mem_stages _ _).mp hst, ?_⟩
    have hoffered := hdriver.setup_offered hlink (by rw [hargs]; rfl) hsized (by rw [hargs]; rfl)
      hfits t hmem
    rw [hoffered, hargs]
    rfl
  | _ => cases hsetup

/-- A request that the firmware processed is the setup field of a control request, if every SETUP
packet is taken whole. -/
theorem SimulatorRun.processed_requested (h : SimulatorRun es s)
    (hwhole : ∀ e ∈ firmwareEvents es, MainEvent.Whole e) {req : Firmware.UsbDeviceReq}
    (hreq : Processed (firmwareEvents es) req) :
    ∃ q ∈ requests (servedEvents es), q.2.isControl = true ∧ req = .ofBytes q.2.setup := by
  have hmain := h.coupled.main
  rw [deviceEvents_coupled] at hmain
  obtain ⟨packet, hmem, rfl⟩ := hmain.processed_sent hwhole hreq
  obtain ⟨q, hq, hcontrol, rfl⟩ := h.setups_requested hmem
  exact ⟨q, hq, hcontrol, rfl⟩

private theorem data_linked (h : SimulatorRun es s) {u : Nat} {submit : CmdSubmit} {c : Completion}
    (hreq : (u, submit) ∈ requests (servedEvents es))
    (hc : c ∈ completions (hcdEvents (servedEvents es))) (hu : c.urb = stageUrb u .data)
    (hin : submit.requestIn = true) (hep : submit.ep.toInt % 16 = 0) :
    ∃ a : LinkArgs, (c.gtd, a) ∈ links (hcdEvents (servedEvents es)) ∧ a.dir = true ∧
      a.setup = false ∧ a.endpoint = 0 ∧ a.addr = submit.address ∧ a.size = submit.size := by
  obtain ⟨q, hq, b, rfl, -, hlink, -⟩ := h.served.completed_link hreq hc hu
  exact ⟨_, hlink, hin, rfl, hep, rfl, rfl⟩

/-- What the data stage of a control read of endpoint 0 brought was asked for, if the packets of
that endpoint are longer than any descriptor. -/
theorem SimulatorRun.data_requested (h : SimulatorRun es s)
    (hwhole : ∀ e ∈ firmwareEvents es, MainEvent.Whole e) {u : Nat} {submit : CmdSubmit}
    {c : Completion} (hreq : (u, submit) ∈ requests (servedEvents es))
    (hc : c ∈ completions (hcdEvents (servedEvents es))) (hu : c.urb = stageUrb u .data)
    (hin : submit.requestIn = true) (hep : submit.ep.toInt % 16 = 0)
    (hmps : ∀ l ∈ links (hcdEvents (servedEvents es)), l.2.addr = submit.address →
      l.2.endpoint = 0 → 32 < l.2.mps) :
    c.data.take c.length.toNat = [] ∨ ∃ q ∈ requests (servedEvents es), q.2.isControl = true ∧
      (UsbDeviceReq.ofBytes q.2.setup).bRequest = 6 ∧ c.data.take c.length.toNat =
        ((UsbDeviceReq.ofBytes q.2.setup).descriptor.take
          (UsbDeviceReq.ofBytes q.2.setup).wLength.toNat).take submit.size.toNat := by
  obtain ⟨a, hlink, hdir, hsetup, hendpoint, haddr, hsize⟩ := data_linked h hreq hc hu hin hep
  have hread := h.coupled.read_processed (c := c) (a := a) h.sized
  rw [busEvents_coupled, deviceEvents_coupled] at hread
  have hslot : ∀ l ∈ links (hcdEvents (servedEvents es)), l.2.slot = a.slot → 32 < l.2.mps := by
    intro l hl hslot
    have hkey : l.2.key = a.key := congrArg Slot.key hslot
    refine hmps l hl ?_ ?_
    · exact (congrArg EpdKey.functionAddress hkey).trans haddr
    · exact (congrArg EpdKey.endpointNumber hkey).trans hendpoint
  rcases hread hslot hc hlink hdir hsetup hendpoint with hnone | ⟨req, hprocessed, h6, hbytes⟩
  · exact .inl hnone
  · obtain ⟨q, hq, hcontrol, rfl⟩ := h.processed_requested hwhole hprocessed
    exact .inr ⟨q, hq, hcontrol, h6, hsize ▸ hbytes⟩

/-- Whatever the packet size is, it begins with something that was asked for. -/
theorem SimulatorRun.data_begins (h : SimulatorRun es s)
    (hwhole : ∀ e ∈ firmwareEvents es, MainEvent.Whole e) {u : Nat} {submit : CmdSubmit}
    {c : Completion} (hreq : (u, submit) ∈ requests (servedEvents es))
    (hc : c ∈ completions (hcdEvents (servedEvents es))) (hu : c.urb = stageUrb u .data)
    (hin : submit.requestIn = true) (hep : submit.ep.toInt % 16 = 0) :
    c.data.take c.length.toNat = [] ∨ ∃ q ∈ requests (servedEvents es), q.2.isControl = true ∧
      (UsbDeviceReq.ofBytes q.2.setup).bRequest = 6 ∧
      ((UsbDeviceReq.ofBytes q.2.setup).descriptor.take
        (UsbDeviceReq.ofBytes q.2.setup).wLength.toNat).take submit.size.toNat ≠ [] ∧
      ((UsbDeviceReq.ofBytes q.2.setup).descriptor.take
        (UsbDeviceReq.ofBytes q.2.setup).wLength.toNat).take submit.size.toNat <+:
          c.data.take c.length.toNat := by
  obtain ⟨a, hlink, hdir, hsetup, hendpoint, -, hsize⟩ := data_linked h hreq hc hu hin hep
  have hread := h.coupled.read_begins (c := c) (a := a) h.sized
  rw [busEvents_coupled, deviceEvents_coupled] at hread
  rcases hread hc hlink hdir hsetup hendpoint with hnone | ⟨req, hprocessed, h6, hsome, hpre⟩
  · exact .inl hnone
  · obtain ⟨q, hq, hcontrol, rfl⟩ := h.processed_requested hwhole hprocessed
    rw [hsize] at hsome hpre
    exact .inr ⟨q, hq, hcontrol, h6, hsome, hpre⟩

/-- Clients get the descriptors that were asked for: in every run of the simulator in which the
packets are longer than any descriptor and every SETUP packet is taken whole, the reply to a
control read brings nothing, or the beginning of the descriptor that the setup field of a control
request asks for, cut to the `wLength` of that field and to the length of the read. -/
theorem SimulatorRun.descriptors_answered (h : SimulatorRun es s)
    (hmps : ∀ l ∈ links (hcdEvents (servedEvents es)), 32 < l.2.mps)
    (hwhole : ∀ e ∈ firmwareEvents es, MainEvent.Whole e) {r : Reply}
    (hr : r ∈ replies (servedEvents es)) (hcontrol : r.urb.submit.isControl = true)
    (hin : r.urb.submit.requestIn = true) (hep : r.urb.submit.ep.toInt % 16 = 0) :
    r.urb.payload = [] ∨ ∃ q ∈ requests (servedEvents es), q.2.isControl = true ∧
      (UsbDeviceReq.ofBytes q.2.setup).bRequest = 6 ∧ r.urb.payload =
        ((UsbDeviceReq.ofBytes q.2.setup).descriptor.take
          (UsbDeviceReq.ofBytes q.2.setup).wLength.toNat).take r.urb.submit.size.toNat := by
  have hserved := h.served
  have hreq : (r.request, r.urb.submit) ∈ requests (servedEvents es) :=
    Held.request_of_received (hserved.settled.own r hr).1
  unfold Urb.payload
  split
  · rcases hserved.reply_filled hr hcontrol with hzero | ⟨c, hc, hu, hdata, hlength⟩
    · rw [hzero]
      exact .inl rfl
    · rw [hdata, hlength]
      exact h.data_requested hwhole hreq hc hu hin hep fun l hl _ _ ↦ hmps l hl
  · exact .inl rfl

end Runs

private def askDevice : CmdSubmit := ⟨1, 0x10000, 1, 0, 18, [0x80, 6, 0, 1, 0, 0, 18, 0]⟩

private def readDevice : List SimulatorOp :=
  let turn : List SimulatorOp := [.server .wake, .server .evaluate, .body]
  let round : List SimulatorOp := turn ++ turn ++ turn ++ turn ++ turn ++ turn
  let handle : List SimulatorOp := [.device .top, .device .poll, .device (.process 0)]
  let next : List SimulatorOp := [.server (.resume .accept), .server (.link .accept)]
  [.device .busReset, .device .top, .device .poll,
    .server (.start .accept askDevice 64 (List.replicate 18 0)), .server (.insert .accept),
    .server (.link .accept)] ++ turn ++ handle ++ turn ++ turn ++ turn ++ turn ++ turn ++
  next ++ round ++ handle ++ next ++ round ++
  [.server (.resume .accept), .server (.header .accept (List.replicate 8 0))]

/-- A client reads the device descriptor of the firmware. -/
theorem SimulatorRun.descriptors_answered_device : ∃ es s r, SimulatorRun es s ∧
    r ∈ replies (servedEvents es) ∧ r.urb.payload = devdsc ∧
    (r.urb.payload = [] ∨ ∃ q ∈ requests (servedEvents es), q.2.isControl = true ∧
      (UsbDeviceReq.ofBytes q.2.setup).bRequest = 6 ∧ r.urb.payload =
        ((UsbDeviceReq.ofBytes q.2.setup).descriptor.take
          (UsbDeviceReq.ofBytes q.2.setup).wLength.toNat).take r.urb.submit.size.toNat) := by
  have hcheck : runsTo simulatorExec simulatorInit readDevice (fun _ es ↦ decide (
      (∀ l ∈ links (hcdEvents (servedEvents es)), 32 < l.2.mps) ∧
      (∀ e ∈ firmwareEvents es, MainEvent.Whole e) ∧
      ⟨askDevice, 64, devdsc, 18⟩ ∈ (replies (servedEvents es)).map Reply.urb)) = true := by
    decide +kernel
  obtain ⟨es, s, hrun, hp⟩ := Run.of_runsTo hcheck
  obtain ⟨hmps, hwhole, hurb⟩ := of_decide_eq_true hp
  obtain ⟨r, hr, hurb⟩ := List.mem_map.mp hurb
  refine ⟨es, s, r, hrun, hr, by rw [hurb]; decide, ?_⟩
  exact SimulatorRun.descriptors_answered hrun hmps hwhole hr (by rw [hurb]; rfl)
    (by rw [hurb]; decide) (by rw [hurb]; decide)

end BiMpp.Usbip
