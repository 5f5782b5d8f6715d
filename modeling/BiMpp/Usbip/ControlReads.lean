import BiMpp.Usbip.Coupled

/-!
# What a control read brings

A completed IN transfer on endpoint 0 and the SETUP packet it answers, with the controller and the
firmware together: `bi-mpp-pic24-usb-simulator-master/src/hcd.c:159–269` and
`pic_usb_device.X/main.c:213–327,372–427`.
-/

namespace BiMpp.Usbip
open BiMpp.Usb BiMpp.Base BiMpp.Host BiMpp.Device
open BiMpp.Firmware hiding LoopOp LoopEvent loopExec LoopRun

/-- The bytes of a transaction answer a request that the firmware processed before. -/
def AnswersRequest (es : List MainEvent) (t : Transaction) : Prop :=
  t.response.bytes = [] ∨ ∃ req, Processed es req ∧ req.bRequest = 6 ∧
    t.response.bytes = (req.descriptor.take req.wLength.toNat).take t.packet.size.toNat

section Runs

variable {es : List CoupledEvent} {s : Coupled}

/-- What the controller receives on endpoint 0 answers a request that the firmware processed. -/
theorem CoupledRun.answers (h : CoupledRun es s) : ∀ t ∈ transactions (busEvents es),
    t.packet.dirIn = true → t.packet.endpointNumber = 0 → AnswersRequest (deviceEvents es) t := by
  refine Run.invariant (P := fun es _ ↦ ∀ t ∈ transactions (busEvents es), t.packet.dirIn = true →
    t.packet.endpointNumber = 0 → AnswersRequest (deviceEvents es) t)
    (fun t ht ↦ (List.not_mem_nil ht).elim) ?_ h
  intro es s e s' hrun ih hfire t ht hdir hnumber
  have hrun' : CoupledRun (es ++ [e]) s' := hrun.snoc hfire
  have hlater : AnswersRequest (deviceEvents es) t →
      AnswersRequest (deviceEvents (es ++ [e])) t := by
    rintro (hnone | ⟨req, hreq, h6, hbytes⟩)
    · exact .inl hnone
    · refine .inr ⟨req, ?_, h6, hbytes⟩
      rw [deviceEvents_snoc]
      cases e.2.device with
      | none => rwa [Option.toList_none, List.append_nil]
      | some d => exact hreq.snoc d
  rw [busEvents_snoc, transactions, List.filterMap_append] at ht
  rcases List.mem_append.mp ht with ht | ht
  · exact hlater (ih t ht hdir hnumber)
  · obtain ⟨d, hd, htransaction⟩ := List.mem_filterMap.mp ht
    have hd : e.2.host.bind Prod.snd = some d := Option.mem_toList.mp hd
    cases coupledStep_of_exec hfire with
    | @send w epd t' loop device hcd hloop hdevice =>
      obtain rfl := Option.some.inj hd
      obtain rfl := Option.some.inj htransaction
      apply hlater
      cases hr : t'.response with
      | ack n bytes =>
        have hmain := hrun'.main
        rw [deviceEvents_snoc] at hmain
        have hmain : MainRun (deviceEvents es ++ [(transferOp t'.key.functionAddress t'.packet
            t'.offered, .response (.ack n bytes))]) device := hr ▸ hmain
        have hep : BitVec.ofInt 8 t'.packet.ep &&& 0x8F = 0x80 := by
          rw [Packet.ep, if_pos hdir, hnumber]
          decide
        have hsent := hmain.control_sent hep
        unfold AnswersRequest
        rw [hr]
        exact hsent
      | _ =>
        left
        rw [hr]
        rfl
    | host _ hquiet =>
      rw [hquiet d hd] at htransaction
      cases htransaction
    | device => cases hd

private theorem CoupledRun.read_answers (h : CoupledRun es s)
    (hsized : ∀ l ∈ links (busEvents es), l.2.Sized) {c : Completion} {a : LinkArgs}
    (hc : c ∈ completions (busEvents es)) (hlink : (c.gtd, a) ∈ links (busEvents es))
    (hin : a.dir = true) (hsetup : a.setup = false) (hendpoint : a.endpoint = 0) :
    ∃ m ts, Reassembles a m ts ∧ (∃ l ∈ links (busEvents es), l.2.slot = a.slot ∧ l.2.mps = m) ∧
      c.data.take c.length.toNat = receivedBytes ts ∧
      ∀ t ∈ ts, AnswersRequest (deviceEvents es) t ∧ t.packet.dirIn = true ∧
        t.response.Fits t.packet := by
  have hdriver := h.driver
  have hserved := fits_transactionsOf (h.fits fun l hl ↦ (hsized l hl).1) c.gtd
  have hdirected := hdriver.directed hlink hserved
  obtain ⟨e, he, hkey, -, hdone⟩ :=
    hdriver.lived (filling_lives hin hsetup (hsized _ hlink)) hlink hserved
  obtain ⟨p, hp, -⟩ := hdone c hc rfl
  refine ⟨e.maximumPacketSize, _, hp.history, ?_, ?_, fun t ht ↦ ⟨?_, ?_, hserved t ht⟩⟩
  · obtain ⟨f, hf, hsize⟩ :=
      (hdriver.usesSize_iff hlink e.maximumPacketSize).mp ⟨e, he, hkey, rfl⟩
    have hslot : f.slot = a.slot := by
      have hfound := List.find?_some hf
      exact of_decide_eq_true hfound
    obtain ⟨l, hl, rfl⟩ := List.mem_map.mp (List.mem_of_find?_eq_some hf)
    exact ⟨l, hl, hslot, hsize⟩
  · obtain ⟨q, hq, -⟩ := hdriver.queues
    have hdelivered := hq.delivered hlink hin hsetup (hsized _ hlink) hserved hc rfl
    rw [hdelivered.length, hdelivered.data, Int.toNat_natCast, List.take_left']
    rfl
  · refine h.answers t (transactionsOf_subset _ _ ht) ((hdirected t ht).trans hin) ?_
    obtain ⟨past, rest, hsplit⟩ := List.append_of_mem ht
    obtain ⟨pid, hask⟩ := hp.history.asks past t ⟨rest, by simp [hsplit]⟩
    rw [hask]
    exact hendpoint
  · exact (hdirected t ht).trans hin

/-- A completed IN transfer on endpoint 0 brought the beginning of what a request asked for that
the firmware processed, if the packets of the endpoint are longer than any descriptor. -/
theorem CoupledRun.read_processed (h : CoupledRun es s)
    (hsized : ∀ l ∈ links (busEvents es), l.2.Sized) {c : Completion} {a : LinkArgs}
    (hmps : ∀ l ∈ links (busEvents es), l.2.slot = a.slot → 32 < l.2.mps)
    (hc : c ∈ completions (busEvents es)) (hlink : (c.gtd, a) ∈ links (busEvents es))
    (hin : a.dir = true) (hsetup : a.setup = false) (hendpoint : a.endpoint = 0) :
    c.data.take c.length.toNat = [] ∨ ∃ req, Processed (deviceEvents es) req ∧
      req.bRequest = 6 ∧ c.data.take c.length.toNat =
        (req.descriptor.take req.wLength.toNat).take a.size.toNat := by
  obtain ⟨m, ts, hhistory, ⟨l, hl, hslot, rfl⟩, hbytes, hanswers⟩ :=
    h.read_answers hsized hc hlink hin hsetup hendpoint
  have hlong := hmps l hl hslot
  have hshort : ∀ t ∈ ts, ∀ rlen bytes, t.response = .ack rlen bytes → rlen < l.2.mps := by
    intro t ht rlen bytes hr
    obtain ⟨hanswer, hdir, hfit⟩ := hanswers t ht
    rw [hr] at hfit
    have hlen := hfit.2.2 hdir
    have hle : bytes.length ≤ 32 := by
      unfold AnswersRequest at hanswer
      rw [hr] at hanswer
      rcases hanswer with hnone | ⟨req, -, -, hbytes⟩
      · rw [show bytes = [] from hnone]
        exact Nat.zero_le _
      · rw [show bytes = _ from hbytes, List.length_take, List.length_take]
        have hdescr := req.length_descriptor
        omega
    omega
  rw [hbytes]
  rcases hhistory.short hshort with hnone | ⟨t, ht, hreceived, hask⟩
  · exact .inl hnone
  · rw [hreceived, ← hask]
    exact (hanswers t ht).1

/-- Whatever the packet size is, it brought nothing, or began with what a request asked for. -/
theorem CoupledRun.read_begins (h : CoupledRun es s)
    (hsized : ∀ l ∈ links (busEvents es), l.2.Sized) {c : Completion} {a : LinkArgs}
    (hc : c ∈ completions (busEvents es)) (hlink : (c.gtd, a) ∈ links (busEvents es))
    (hin : a.dir = true) (hsetup : a.setup = false) (hendpoint : a.endpoint = 0) :
    c.data.take c.length.toNat = [] ∨ ∃ req, Processed (deviceEvents es) req ∧
      req.bRequest = 6 ∧ (req.descriptor.take req.wLength.toNat).take a.size.toNat ≠ [] ∧
      (req.descriptor.take req.wLength.toNat).take a.size.toNat <+:
        c.data.take c.length.toNat := by
  obtain ⟨m, ts, hhistory, -, hbytes, hanswers⟩ :=
    h.read_answers hsized hc hlink hin hsetup hendpoint
  rw [hbytes]
  rcases hhistory.first with hnone | ⟨t, ht, hsome, hpre, hask⟩
  · exact .inl hnone
  · rcases (hanswers t ht).1 with hnone | ⟨req, hreq, h6, hanswer⟩
    · exact absurd hnone hsome
    · rw [hask] at hanswer
      rw [hanswer] at hsome hpre
      exact .inr ⟨req, hreq, h6, hsome, hpre⟩

/-- A control read brings what was asked for: if the packets of the endpoints are longer than any
descriptor and every SETUP packet is taken whole, a completed IN transfer on endpoint 0 brought
nothing, or the beginning of the descriptor that a SETUP packet asked for, cut to the `wLength` of
that packet and to the length of the transfer. -/
theorem CoupledRun.requests_answered (h : CoupledRun es s)
    (hsized : ∀ l ∈ links (busEvents es), l.2.Sized)
    (hmps : ∀ l ∈ links (busEvents es), 32 < l.2.mps)
    (hwhole : ∀ e ∈ deviceEvents es, MainEvent.Whole e) {c : Completion} {a : LinkArgs}
    (hc : c ∈ completions (busEvents es)) (hlink : (c.gtd, a) ∈ links (busEvents es))
    (hin : a.dir = true) (hsetup : a.setup = false) (hendpoint : a.endpoint = 0) :
    c.data.take c.length.toNat = [] ∨ ∃ packet ∈ setups (deviceEvents es),
      (UsbDeviceReq.ofBytes packet).bRequest = 6 ∧ c.data.take c.length.toNat =
        ((UsbDeviceReq.ofBytes packet).descriptor.take
          (UsbDeviceReq.ofBytes packet).wLength.toNat).take a.size.toNat := by
  rcases h.read_processed hsized (fun l hl _ ↦ hmps l hl) hc hlink hin hsetup hendpoint with
    hnone | ⟨req, hreq, h6, hbytes⟩
  · exact .inl hnone
  · obtain ⟨packet, hmem, rfl⟩ := h.main.processed_sent hwhole hreq
    exact .inr ⟨packet, hmem, h6, hbytes⟩

/-- The SETUP packets that the device took are those of the controller's SETUP transactions. -/
theorem CoupledRun.setups_sent (h : CoupledRun es s) : ∀ packet ∈ setups (deviceEvents es),
    ∃ t ∈ transactions (busEvents es), t.packet.pid = .setup ∧ t.offered = packet := by
  refine Run.invariant (P := fun es _ ↦ ∀ packet ∈ setups (deviceEvents es),
    ∃ t ∈ transactions (busEvents es), t.packet.pid = .setup ∧ t.offered = packet)
    (fun packet hp ↦ (List.not_mem_nil hp).elim) ?_ h
  intro es s e s' hrun ih hfire packet hp
  have hmono : ∀ t ∈ transactions (busEvents es), t ∈ transactions (busEvents (es ++ [e])) := by
    intro t ht
    rw [busEvents_snoc, transactions, List.filterMap_append]
    exact List.mem_append_left _ ht
  rw [deviceEvents_snoc, setups, List.filterMap_append] at hp
  rcases List.mem_append.mp hp with hp | hp
  · obtain ⟨t, ht, hpid, hoffered⟩ := ih packet hp
    exact ⟨t, hmono t ht, hpid, hoffered⟩
  · obtain ⟨d, hd, hsetup⟩ := List.mem_filterMap.mp hp
    have hd : e.2.device = some d := Option.mem_toList.mp hd
    cases coupledStep_of_exec hfire with
    | @send w epd t =>
      cases hd
      unfold MainEvent.setup transferOp at hsetup
      dsimp only at hsetup
      split at hsetup
      · next hs =>
        refine ⟨t, ?_, hs.1, Option.some.inj hsetup⟩
        rw [busEvents_snoc, transactions, List.filterMap_append]
        exact List.mem_append_right _ List.mem_cons_self
      · cases hsetup
    | host => cases hd
    | device _ hop =>
      cases hd
      obtain ⟨op', o⟩ := d
      cases op' with
      | transfer addr ep pid data size => exact (hop addr ep pid data size rfl).elim
      | _ => cases hsetup

end Runs

private def readTen : List CoupledOp :=
  let turn : List CoupledOp := [.wake, .evaluate, .body]
  [.device .busReset, .device .top, .device .poll,
    .link ⟨0, 0, false, true, 0, 64, [0x80, 6, 0, 1, 0, 0, 18, 0], 8, ⟨10, 8⟩⟩] ++ turn ++
  [.device .top, .device .poll, .device (.process 0), .link ⟨0, 0x80, true, false, 1, 64,
    List.replicate 10 0, 10, ⟨11, 10⟩⟩] ++ turn ++ turn ++ turn ++ turn ++ turn

/-- Ten bytes of the device descriptor answer a request over the coupled system. -/
theorem CoupledRun.requests_answered_ten : ∃ es s c, CoupledRun es s ∧
    c ∈ completions (busEvents es) ∧ c.data = devdsc.take 10 ∧
    (c.data.take c.length.toNat = [] ∨ ∃ packet ∈ setups (deviceEvents es),
      (UsbDeviceReq.ofBytes packet).bRequest = 6 ∧ c.data.take c.length.toNat =
        ((UsbDeviceReq.ofBytes packet).descriptor.take
          (UsbDeviceReq.ofBytes packet).wLength.toNat).take (10 : Int).toNat) := by
  have hcheck : runsTo coupledExec coupledInit readTen (fun _ es ↦ decide (
      (∀ l ∈ links (busEvents es), l.2.Sized) ∧ (∀ l ∈ links (busEvents es), 32 < l.2.mps) ∧
      (∀ e ∈ deviceEvents es, MainEvent.Whole e) ∧
      (∃ c ∈ completions (busEvents es), c.gtd = 1 ∧ c.data = devdsc.take 10) ∧
      (1, ⟨0, 0x80, true, false, 1, 64, List.replicate 10 0, 10, ⟨11, 10⟩⟩) ∈
        links (busEvents es))) = true := by decide +kernel
  obtain ⟨es, s, hrun, hp⟩ := Run.of_runsTo hcheck
  obtain ⟨hsized, hmps, hwhole, ⟨c, hc, hg, hdata⟩, hlink⟩ := of_decide_eq_true hp
  rw [← hg] at hlink
  exact ⟨es, s, c, hrun, hc, hdata,
    CoupledRun.requests_answered hrun hsized hmps hwhole hc hlink rfl rfl rfl⟩

end BiMpp.Usbip
