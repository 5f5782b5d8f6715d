import BiMpp.Usbip.ControlReplies
import BiMpp.Usbip.PacketSize
import BiMpp.Usbip.Program
import BiMpp.Usbip.Publication

/-!
# What the published descriptors are

The descriptors that `system_loop` publishes, from the requests it makes to the descriptors that
the firmware sends: `bi-mpp-pic24-usb-simulator-master/src/sys.c:34–123,242–256`,
`pic_usb_device.X/main.c:18–33,123–169,213–257`. Nothing tells `system_loop` how many bytes it
received (its TODO); the lengths alone would tell it whether they are the right ones.
-/

namespace BiMpp.Usbip
open BiMpp.Usb BiMpp.Base BiMpp.Host BiMpp.Device
open BiMpp.Firmware hiding LoopOp LoopEvent loopExec LoopRun

/-! ### The requests of `system_loop` -/

/-- The firmware reads the request that the host wrote. -/
theorem ofBytes_bytes (r : UsbDeviceReq) : Firmware.UsbDeviceReq.ofBytes r.bytes =
    ⟨r.bmRequestType.toBitVec, r.bRequest.toBitVec, r.wValue, r.wIndex, r.wLength⟩ := by
  have hword : ∀ x : BitVec 16, x.extractLsb' 8 8 ++ x.extractLsb' 0 8 = x := fun x ↦
    (BitVec.extractLsb'_append_extractLsb'_eq_extractLsb' rfl).trans BitVec.extractLsb'_eq_self
  show Firmware.UsbDeviceReq.mk _ _ (_ ++ _) (_ ++ _) (_ ++ _) = _
  simp only [UsbDeviceReq.bytes, hostWord]
  exact congr (congr (congrArg _ (hword r.wValue)) (hword r.wIndex)) (hword r.wLength)

/-- A request for a descriptor, as `system_loop` makes them. -/
def Wanted (s : Sys) (req : Firmware.UsbDeviceReq) : Prop :=
  req.descriptor = devdsc ∧ req.wLength = 18 ∨
    req.descriptor = config ∧ (req.wLength = 9 ∨ 8 < s.past ∧ req.wLength = totalLength s.cfg)

private theorem descriptor_device {req : Firmware.UsbDeviceReq} (h : req.wValue = 0x0100) :
    req.descriptor = devdsc := by
  unfold Firmware.UsbDeviceReq.descriptor
  rw [h]
  rfl

private theorem descriptor_config {req : Firmware.UsbDeviceReq} (h : req.wValue = 0x0200) :
    req.descriptor = config := by
  unfold Firmware.UsbDeviceReq.descriptor
  rw [h]
  rfl

private theorem wanted_submit {s : Sys} (hm : Measured s) {k : Transfer} (hk : s.past = k.index)
    (h6 : (Firmware.UsbDeviceReq.ofBytes (s.submit k).setup).bRequest = 6) :
    Wanted s (.ofBytes (s.submit k).setup) := by
  have hread : Firmware.UsbDeviceReq.ofBytes (s.submit k).setup = _ := ofBytes_bytes (s.req k)
  rw [hread] at h6 ⊢
  have hshort : k.index ≤ 8 → s.wLength = 9 := fun hle ↦ hm.short (hk ▸ hle)
  cases k with
  | firstDevice => exact .inl ⟨descriptor_device rfl, rfl⟩
  | resetDevice => exact .inl ⟨descriptor_device rfl, rfl⟩
  | device => exact .inl ⟨descriptor_device rfl, rfl⟩
  | firstConfig => exact .inr ⟨descriptor_config rfl, .inl (hshort (by decide))⟩
  | config => exact .inr ⟨descriptor_config rfl, .inl (hshort (by decide))⟩
  | wholeConfig =>
    have hlate : 8 < s.past := by
      rw [hk]
      decide
    exact .inr ⟨descriptor_config rfl, .inr ⟨hlate, hm.whole hlate⟩⟩
  | setAddress => exact absurd (show (5 : BitVec 8) = 6 from h6) (by decide)
  | setConfiguration => exact absurd (show (9 : BitVec 8) = 6 from h6) (by decide)
  | setInterface => exact absurd (show (0x0B : BitVec 8) = 6 from h6) (by decide)

private theorem Wanted.mono {s s' : Sys} {req : Firmware.UsbDeviceReq} (hw : Wanted s req)
    (h : 8 < s.past → 8 < s'.past ∧ s'.cfg = s.cfg) : Wanted s' req := by
  rcases hw with hdevice | ⟨hconfig, hnine | ⟨hlate, hall⟩⟩
  · exact .inl hdevice
  · exact .inr ⟨hconfig, .inl hnine⟩
  · obtain ⟨hlater, hcfg⟩ := h hlate
    exact .inr ⟨hconfig, .inr ⟨hlater, hcfg ▸ hall⟩⟩

/-- A client submits a URB. -/
def SysOp.submits : SysOp → Bool
  | client (.cmdSubmit _ _) _ => true
  | _ => false

/-! ### What a transfer brings -/

/-- What a request brings into a buffer of a length. -/
def Brings (req : Firmware.UsbDeviceReq) (size : Int) : List UInt8 :=
  (req.descriptor.take req.wLength.toNat).take size.toNat

/-- A transfer that reads something is at its end and has received what it asked for. -/
structure ReadAll (s : Sys) (k : Transfer) (u : Nat) (b : Urb) : Prop where
  waiting : ∃ i n, s.pc = .waiting i n k
  free : s.server.pc .system = .free u b
  length : b.length = b.submit.size
  pos : 0 < b.submit.size

private theorem requestIn_submit {s : Sys} {k : Transfer} (h : 0 < (s.submit k).size) :
    (s.submit k).requestIn = true := by
  have hread : ((0x80 : UInt8) &&& 0x80 != 0) = true := by decide
  have hnone : ¬ 0 < (((0 : BitVec 16).toNat : Nat) : Int) := by decide
  rw [s.size_submit] at h
  cases k with
  | setAddress => exact absurd h hnone
  | setConfiguration => exact absurd h hnone
  | setInterface => exact absurd h hnone
  | _ => exact hread

section Transfers

variable {es : List ProgramEvent} {s : Program} {u : Nat} {k : Transfer} {b : Urb}

private theorem transfer_filled (h : ProgramRun es s) (hr : ReadAll s.sys k u b) :
    b.submit = s.sys.submit k ∧ (u, b.submit) ∈ requests (servedEvents (simulatorEvents es)) ∧
      (b.data.length : Int) = b.submit.size ∧
      ∃ c ∈ completions (hcdEvents (servedEvents (simulatorEvents es))),
        c.urb = stageUrb u .data ∧ c.data.take c.length.toNat = b.data := by
  rw [servedEvents_simulator]
  obtain ⟨⟨i, n, hpc⟩, hfree, hlength, hpos⟩ := hr
  have hserver := h.sys.server_run
  have hheld : (s.sys.server.pc .system).held = some (u, b) := by rw [hfree]; rfl
  have hfilled : (s.sys.server.pc .system).filled = some (u, b) := by rw [hfree]; rfl
  obtain ⟨i', n', k', hpc', hsub⟩ := h.sys.asked u b hheld
  obtain ⟨rfl, rfl, rfl⟩ := SysPc.waiting.inj (hpc.symm.trans hpc')
  have hsized := (ServerRun.tracked hserver).held .system u b hheld
  have hcontrol := (ServerRun.held hserver).host u b hheld
  refine ⟨hsub, (ServerRun.held hserver).mine .system u b hheld, hsized.data, ?_⟩
  rcases ServerRun.stage_filled hserver hfilled hcontrol with hzero | ⟨c, hc, hu, hdata, hlen⟩
  · omega
  · refine ⟨c, hc, hu, ?_⟩
    have hall := hsized.data
    rw [← hdata, ← hlen]
    exact List.take_of_length_le (by omega)

private theorem transfer_begins (h : ProgramRun es s)
    (hwhole : ∀ e ∈ firmwareEvents (simulatorEvents es), MainEvent.Whole e)
    (hwanted : ∀ q ∈ requests (serverEvents (sysEvents es)), q.2.isControl = true →
      (Firmware.UsbDeviceReq.ofBytes q.2.setup).bRequest = 6 → Wanted s.sys (.ofBytes q.2.setup))
    (hr : ReadAll s.sys k u b) :
    ∃ req, Wanted s.sys req ∧ Brings req b.submit.size <+: b.data := by
  obtain ⟨hsub, hreq, hlen, c, hc, hu, hbytes⟩ := transfer_filled h hr
  have hin : b.submit.requestIn = true := hsub ▸ requestIn_submit (hsub ▸ hr.pos)
  have hread := h.simulator.data_begins hwhole hreq hc hu hin (by rw [hsub]; rfl)
  rw [hbytes] at hread
  rcases hread with hnone | ⟨q, hq, hcontrol, h6, -, hpre⟩
  · have hpos := hr.pos
    rw [← hlen, hnone] at hpos
    exact absurd hpos (by decide)
  · rw [servedEvents_simulator] at hq
    exact ⟨_, hwanted q hq hcontrol h6, hpre⟩

private theorem transfer_whole (h : ProgramRun es s)
    (hwhole : ∀ e ∈ firmwareEvents (simulatorEvents es), MainEvent.Whole e)
    (hwanted : ∀ q ∈ requests (serverEvents (sysEvents es)), q.2.isControl = true →
      (Firmware.UsbDeviceReq.ofBytes q.2.setup).bRequest = 6 → Wanted s.sys (.ofBytes q.2.setup))
    (hmps : ∀ l ∈ links (hcdEvents (serverEvents (sysEvents es))), l.2.addr = b.submit.address →
      32 < l.2.mps)
    (hr : ReadAll s.sys k u b) : (b.data.length : Int) = b.submit.size ∧
      ∃ req, Wanted s.sys req ∧ b.data = Brings req b.submit.size := by
  obtain ⟨hsub, hreq, hlen, c, hc, hu, hbytes⟩ := transfer_filled h hr
  refine ⟨hlen, ?_⟩
  rw [← servedEvents_simulator] at hmps
  have hin : b.submit.requestIn = true := hsub ▸ requestIn_submit (hsub ▸ hr.pos)
  have hread := h.simulator.data_requested hwhole hreq hc hu hin (by rw [hsub]; rfl)
    fun l hl haddr _ ↦ hmps l hl haddr
  rw [hbytes] at hread
  rcases hread with hnone | ⟨q, hq, hcontrol, h6, hdata⟩
  · have hpos := hr.pos
    rw [← hlen, hnone] at hpos
    exact absurd hpos (by decide)
  · rw [servedEvents_simulator] at hq
    exact ⟨_, hwanted q hq hcontrol h6, hdata⟩

end Transfers

/-! ### What has been fetched -/

/-- The descriptors as far as `system_loop` has got, if every transfer received what it asked for
and no client has submitted a URB. -/
structure Fetched (es : List SysEvent) (s : Sys) : Prop where
  wanted : ∀ r ∈ sizedRequests (serverEvents es), r.2.1.isControl = true →
    (Firmware.UsbDeviceReq.ofBytes r.2.1.setup).bRequest = 6 → Wanted s (.ofBytes r.2.1.setup)
  sized : ∀ r ∈ sizedRequests (serverEvents es), r.2.1.address = 1 → 32 < r.2.2
  size : 4 < s.past → 32 < ((s.devDsc.getD 7 0).toNat : Int)
  device : 6 < s.past → s.devDsc = devdsc
  config : 7 < s.past → s.cfg = config.take 9 ∨ s.cfg = devdsc.take 9
  whole : 9 < s.past → ∃ buf, s.cfgDsc = some buf ∧ buf.bytes = BiMpp.Firmware.config

namespace Fetched

variable {es : List SysEvent} {s s' : Sys} {e : SysEvent}

private theorem keep (h : Fetched es s)
    (hreq : sizedRequests (serverEvents (es ++ [e])) = sizedRequests (serverEvents es))
    (hlater : 8 < s.past → 8 < s'.past ∧ s'.cfg = s.cfg)
    (hsize : 4 < s'.past → 32 < ((s'.devDsc.getD 7 0).toNat : Int))
    (hdevice : 6 < s'.past → s'.devDsc = devdsc)
    (hconfig : 7 < s'.past →
      s'.cfg = BiMpp.Firmware.config.take 9 ∨ s'.cfg = devdsc.take 9)
    (hwhole : 9 < s'.past → ∃ buf, s'.cfgDsc = some buf ∧ buf.bytes = BiMpp.Firmware.config) :
    Fetched (es ++ [e]) s' := by
  refine ⟨?_, ?_, hsize, hdevice, hconfig, hwhole⟩
  · rw [hreq]
    intro r hr hcontrol h6
    exact (h.wanted r hr hcontrol h6).mono hlater
  · rw [hreq]
    exact h.sized

private theorem frame (h : Fetched es s)
    (hreq : sizedRequests (serverEvents (es ++ [e])) = sizedRequests (serverEvents es))
    (hup : s.past ≤ s'.past)
    (hdown : ∀ j, j = 4 ∨ j = 6 ∨ j = 7 ∨ j = 9 → j < s'.past → j < s.past)
    (hdev : s'.devDsc = s.devDsc) (hcfg : s'.cfg = s.cfg)
    (hbuf : 9 < s.past → s'.cfgDsc = s.cfgDsc) : Fetched (es ++ [e]) s' := by
  apply h.keep hreq
  · exact fun hlate ↦ ⟨by omega, hcfg⟩
  · rw [hdev]
    exact fun hlt ↦ h.size (hdown 4 (by omega) hlt)
  · rw [hdev]
    exact fun hlt ↦ h.device (hdown 6 (by omega) hlt)
  · rw [hcfg]
    exact fun hlt ↦ h.config (hdown 7 (by omega) hlt)
  · intro hlt
    have hlate := hdown 9 (by omega) hlt
    rw [hbuf hlate]
    exact h.whole hlate

private theorem begins (h : Fetched es s) (hm : Measured s) {i n : Nat} {k : Transfer}
    {x : ServerEvent} {server : Server} (hpc : s.pc = .run i n)
    (hi : attempt[n]? = some (.transfer k))
    (hop : x.1 = .start .system (s.submit k) (s.maxPacketSize k) (s.buffer k)) :
    Fetched (es ++ [(.begin, .server x)]) { s with server := server, pc := .waiting i n k } := by
  have hpast : s.past = n := by rw [Sys.past, hpc]
  have hk : s.past = k.index := hpast.trans (attempt_transfer hi)
  have hsame : ({ s with server := server, pc := .waiting i n k } : Sys).past = s.past := hpast.symm
  have hnew : ∀ r ∈ (ServerEvent.sized x).toList,
      r.2.1 = s.submit k ∧ r.2.2 = s.maxPacketSize k := by
    intro r hr
    obtain ⟨op, o⟩ := x
    obtain rfl : op = _ := hop
    cases o with
    | started u =>
      obtain rfl := List.mem_singleton.mp hr
      exact ⟨rfl, rfl⟩
    | _ => cases hr
  have hreq : sizedRequests (serverEvents (es ++ [(.begin, .server x)])) =
      sizedRequests (serverEvents es) ++ (ServerEvent.sized x).toList := by
    rw [serverEvents_snoc]
    exact sizedRequests_snoc _ _
  refine ⟨?_, ?_, hsame ▸ h.size, hsame ▸ h.device, hsame ▸ h.config, hsame ▸ h.whole⟩
  · intro r hr hcontrol h6
    unfold Wanted
    rw [hsame]
    rw [hreq] at hr
    rcases List.mem_append.mp hr with hr | hr
    · exact h.wanted r hr hcontrol h6
    · rw [(hnew r hr).1] at h6 ⊢
      exact wanted_submit hm hk h6
  · intro r hr haddr
    rw [hreq] at hr
    rcases List.mem_append.mp hr with hr | hr
    · exact h.sized r hr haddr
    · obtain ⟨hsub, hmps⟩ := hnew r hr
      rw [hsub] at haddr
      rw [hmps]
      have haddr : ((k.addr &&& 0xFFFF).toNat : Int) = 1 := haddr
      have hlate : 4 < k.index → 32 < ((s.devDsc.getD 7 0).toNat : Int) := by
        rw [← hk]
        exact h.size
      cases k with
      | firstDevice => exact absurd haddr (by decide)
      | firstConfig => exact absurd haddr (by decide)
      | resetDevice => exact absurd haddr (by decide)
      | setAddress => exact absurd haddr (by decide)
      | device => exact hlate (by decide)
      | config => exact hlate (by decide)
      | wholeConfig => exact hlate (by decide)
      | setConfiguration => exact hlate (by decide)
      | setInterface => exact hlate (by decide)

private theorem brings_early {req : Firmware.UsbDeviceReq} (hw : Wanted s req) (hp : s.past ≤ 8)
    (size : Int) : Brings req size = devdsc.take size.toNat ∨
      Brings req size = (BiMpp.Firmware.config.take 9).take size.toNat := by
  unfold Brings
  rcases hw with ⟨hdescr, hlen⟩ | ⟨hdescr, hlen | ⟨hlate, -⟩⟩
  · rw [hdescr, hlen]
    exact .inl rfl
  · rw [hdescr, hlen]
    exact .inr rfl
  · omega

private theorem brings_whole {req : Firmware.UsbDeviceReq} (hw : Wanted s req)
    (hcfg : s.cfg = BiMpp.Firmware.config.take 9 ∨ s.cfg = devdsc.take 9)
    (hlen : (Brings req (totalLength s.cfg).toNat).length = (totalLength s.cfg).toNat) :
    Brings req (totalLength s.cfg).toNat = BiMpp.Firmware.config := by
  unfold Brings at hlen ⊢
  have hdevice : (totalLength (devdsc.take 9)).toNat = 272 := by decide
  have hconfig : (totalLength (BiMpp.Firmware.config.take 9)).toNat = 32 := by decide
  rw [List.length_take, List.length_take] at hlen
  have hshort := req.length_descriptor
  rcases hcfg with hcfg | hcfg
  · rw [hcfg, hconfig] at hlen ⊢
    rcases hw with ⟨hdescr, hl⟩ | ⟨hdescr, hl | ⟨-, hl⟩⟩
    · have hfew : req.wLength.toNat = 18 := congrArg BitVec.toNat hl
      omega
    · have hfew : req.wLength.toNat = 9 := congrArg BitVec.toNat hl
      omega
    · rw [hdescr, hl, hcfg, hconfig]
      rfl
  · rw [hcfg, hdevice] at hlen
    omega

private theorem brings_size {req : Firmware.UsbDeviceReq} (hw : Wanted s req) (hp : s.past ≤ 8)
    {data : List UInt8} (hpre : Brings req 18 <+: data) : 32 < ((data.getD 7 0).toNat : Int) := by
  obtain ⟨rest, rfl⟩ := hpre
  rcases brings_early hw hp 18 with hb | hb
  · rw [hb]
    show 32 < ((64 : UInt8).toNat : Int)
    decide
  · rw [hb]
    show 32 < ((0x80 : UInt8).toNat : Int)
    decide

private theorem brings_device {req : Firmware.UsbDeviceReq} (hw : Wanted s req) (hp : s.past ≤ 8)
    (hlen : (Brings req 18).length = 18) : Brings req 18 = devdsc := by
  rcases brings_early hw hp 18 with hb | hb
  · exact hb
  · rw [hb] at hlen
    exact absurd hlen (by decide)

private theorem early (h : Fetched es s)
    (hreq : sizedRequests (serverEvents (es ++ [e])) = sizedRequests (serverEvents es))
    (hp : s.past ≤ 8) (hp' : s'.past ≤ 6)
    (hsize : 4 < s'.past → 32 < ((s'.devDsc.getD 7 0).toNat : Int)) : Fetched (es ++ [e]) s' := by
  refine h.keep hreq (fun hlate ↦ ?_) hsize (fun hlt ↦ ?_) (fun hlt ↦ ?_) fun hlt ↦ ?_
  · omega
  · omega
  · omega
  · omega

private theorem bare (h : Fetched es s)
    (hreq : sizedRequests (serverEvents (es ++ [e])) = sizedRequests (serverEvents es))
    (hp : s.past = 5 ∨ s.past = 11 ∨ s.past = 12) (hp' : s'.past = s.past + 1)
    (hdev : s'.devDsc = s.devDsc) (hcfg : s'.cfg = s.cfg) (hbuf : s'.cfgDsc = s.cfgDsc) :
    Fetched (es ++ [e]) s' := by
  refine h.frame hreq ?_ ?_ hdev hcfg fun _ ↦ hbuf
  · omega
  · intro j hj hlt
    omega

private theorem ends (h : Fetched es s) {i u : Nat} {k : Transfer} {b : Urb} {server : Server}
    {o : ServerOut} (hpc : s.pc = .waiting i k.index k) (hsub : b.submit = s.submit k)
    (hbegins : 0 < b.submit.size → ∃ req, Wanted s req ∧ Brings req b.submit.size <+: b.data)
    (hexact : 0 < b.submit.size → b.submit.address = 1 →
      (b.data.length : Int) = b.submit.size ∧ ∃ req, Wanted s req ∧
        b.data = Brings req b.submit.size) :
    Fetched (es ++ [(.server (.free .system), .returned (.free .system, o) i k u b true)])
      { ({ s with server := server }.store b.data k) with pc := .run i (k.index + 1) } := by
  have hpast : s.past = k.index := by rw [Sys.past, hpc]
  have hreq : sizedRequests (serverEvents (es ++ [(.server (.free .system),
      .returned (.free .system, o) i k u b true)])) = sizedRequests (serverEvents es) := by
    rw [serverEvents_snoc]
    exact (sizedRequests_snoc _ _).trans (List.append_nil _)
  have hsize : b.submit.size = ((s.size k).toNat : Int) := by rw [hsub, Sys.size_submit]
  have hat : b.submit.address = ((k.addr &&& 0xFFFF).toNat : Int) := by rw [hsub]; rfl
  rw [hsize] at hbegins hexact
  rw [hat] at hexact
  have hearly : k.index ≤ 8 → s.past ≤ 8 := fun hle ↦ hpast.trans_le hle
  cases k with
  | firstDevice =>
    refine h.early hreq (hearly (by decide)) (by decide : 2 ≤ 6) fun hlt ↦ ?_
    exact absurd (show 4 < 2 from hlt) (by decide)
  | firstConfig =>
    refine h.early hreq (hearly (by decide)) (by decide : 3 ≤ 6) fun hlt ↦ ?_
    exact absurd (show 4 < 3 from hlt) (by decide)
  | resetDevice =>
    have hp := hearly (by decide)
    obtain ⟨req, hw, hpre⟩ := hbegins (by decide : (0 : Int) < (18 : BitVec 16).toNat)
    exact h.early hreq hp (by decide : 5 ≤ 6) fun _ ↦ brings_size hw hp hpre
  | setAddress => exact h.bare hreq (.inl hpast) (congrArg (· + 1) hpast.symm) rfl rfl rfl
  | device =>
    have hp := hearly (by decide)
    obtain ⟨hlen, req, hw, hdata⟩ :=
      hexact (by decide : (0 : Int) < (18 : BitVec 16).toNat) (by decide)
    have hdevice : b.data = devdsc := by
      rw [hdata] at hlen ⊢
      exact brings_device hw hp (Int.ofNat.inj hlen)
    refine h.keep hreq (fun hlate ↦ by omega) (fun _ ↦ ?_) (fun _ ↦ hdevice) ?_ ?_
    · show 32 < ((b.data.getD 7 0).toNat : Int)
      rw [hdevice]
      decide
    · exact fun hlt ↦ absurd (show 7 < 7 from hlt) (by decide)
    · exact fun hlt ↦ absurd (show 9 < 7 from hlt) (by decide)
  | config =>
    have hp := hearly (by decide)
    have hlate : s.past = 7 := hpast
    obtain ⟨-, req, hw, hdata⟩ :=
      hexact (by decide : (0 : Int) < (9 : BitVec 16).toNat) (by decide)
    refine h.keep hreq (fun hlate ↦ by omega) (fun _ ↦ h.size (by omega))
      (fun _ ↦ h.device (by omega)) (fun _ ↦ ?_) ?_
    · show b.data = _ ∨ b.data = _
      rw [hdata]
      exact (brings_early hw hp 9).symm
    · exact fun hlt ↦ absurd (show 9 < 8 from hlt) (by decide)
  | wholeConfig =>
    have hlate : s.past = 9 := hpast
    have hcfg := h.config (by omega)
    have hpos : (0 : Int) < ((totalLength s.cfg).toNat : Int) := by
      rcases hcfg with hcfg | hcfg <;> rw [hcfg] <;> decide
    obtain ⟨hlen, req, hw, hdata⟩ := hexact hpos (by decide)
    have hwhole : b.data = BiMpp.Firmware.config := by
      rw [hdata] at hlen ⊢
      exact brings_whole hw hcfg (Int.ofNat.inj hlen)
    exact h.keep hreq (fun _ ↦ ⟨(by decide : 8 < 10), rfl⟩) (fun _ ↦ h.size (by omega))
      (fun _ ↦ h.device (by omega)) (fun _ ↦ hcfg) fun _ ↦ ⟨_, rfl, hwhole⟩
  | setConfiguration =>
    exact h.bare hreq (.inr (.inl hpast)) (congrArg (· + 1) hpast.symm) rfl rfl rfl
  | setInterface =>
    exact h.bare hreq (.inr (.inr hpast)) (congrArg (· + 1) hpast.symm) rfl rfl rfl

private theorem step (h : Fetched es s) (he : Enumerated es s) (ha : Asked s) (hm : Measured s)
    (hs : SysStep s e s') (hquiet : e.1.submits = false)
    (hlength : ∀ o i k u b p, e.2 = .returned o i k u b p → b.length = b.submit.size)
    (hbegins : ∀ k u b, ReadAll s k u b → ∃ req, Wanted s req ∧
      Brings req b.submit.size <+: b.data)
    (hexact : ∀ k u b, ReadAll s k u b → b.submit.address = 1 →
      (b.data.length : Int) = b.submit.size ∧ ∃ req, Wanted s req ∧
        b.data = Brings req b.submit.size) : Fetched (es ++ [e]) s' := by
  have hrun : ∀ {i n}, s.pc = .run i n → s.past = n := by
    intro i n hpc
    rw [Sys.past, hpc]
  have hnone : SysEvent.serverEvent e = none →
      sizedRequests (serverEvents (es ++ [e])) = sizedRequests (serverEvents es) := by
    intro hx
    rw [serverEvents_snoc, hx, Option.toList_none, List.append_nil]
  cases hs with
  | attach hpc hatt =>
    have hp : s.past = 0 := by
      rw [Sys.past, hpc, hatt]
      rfl
    refine h.frame (hnone rfl) (Nat.le_of_eq hp) ?_ rfl rfl fun _ ↦ rfl
    intro j _ hlt
    exact absurd (show j < 0 from hlt) (Nat.not_lt_zero j)
  | @busReset i n hpc hi =>
    have hp := hrun hpc
    have hn := attempt_busReset hi
    refine h.frame (hnone rfl) ?_ ?_ rfl rfl fun _ ↦ rfl
    · exact hp.trans_le (Nat.le_succ n)
    · intro j hj hlt
      have hlt : j < n + 1 := hlt
      omega
  | begin hpc hi hop => exact h.begins hm hpc hi hop
  | @calloc i n hpc hi =>
    have hp := hrun hpc
    obtain rfl := attempt_calloc hi
    refine h.frame (hnone rfl) ?_ ?_ rfl rfl ?_
    · exact hp.trans_le (Nat.le_succ 8)
    · intro j hj hlt
      have hlt : j < 8 + 1 := hlt
      omega
    · intro hlate
      omega
  | @publish i n buf hpc hi =>
    have hp := hrun hpc
    obtain rfl := attempt_publish hi
    refine h.frame (hnone rfl) ?_ ?_ rfl rfl fun _ ↦ rfl
    · exact hp.trans_le (Nat.le_succ 10)
    · intro j hj hlt
      have hlt : j < 10 + 1 := hlt
      omega
  | @leave i hpc =>
    have hp := hrun hpc
    have hatt := he.attached (by rw [hpc]; simp)
    have hafter : ({ s with pc := .poll } : Sys).past = s.past := by
      rw [hp, Sys.past]
      simp [hatt]
    exact h.frame (hnone rfl) hafter.ge (fun j _ hlt ↦ hafter ▸ hlt) rfl rfl fun _ ↦ rfl
  | submit => cases hquiet
  | answer ho =>
    refine h.frame (hnone ?_) le_rfl (fun _ _ hlt ↦ hlt) rfl rfl fun _ ↦ rfl
    rcases ho with rfl | ⟨st, rfl⟩ | ⟨l, rfl⟩ <;> rfl
  | @server x server hstart =>
    refine h.frame ?_ le_rfl (fun _ _ hlt ↦ hlt) rfl rfl fun _ ↦ rfl
    rw [serverEvents_snoc]
    refine (sizedRequests_snoc _ _).trans ?_
    have hunsized : ServerEvent.sized x = none := by
      obtain ⟨op, o⟩ := x
      cases op with
      | start => cases hstart
      | _ => rfl
    rw [hunsized, Option.toList_none, List.append_nil]
  | @returned i n k o u b server hpc hfree =>
    obtain ⟨-, rfl⟩ := he.waiting i n k hpc
    obtain ⟨i', n', k', hpc', hsub⟩ := ha u b (by rw [hfree]; rfl)
    obtain ⟨rfl, rfl, rfl⟩ := SysPc.waiting.inj (hpc.symm.trans hpc')
    have hread : 0 < b.submit.size → ReadAll s k u b := fun hpos ↦
      ⟨⟨i, k.index, hpc⟩, hfree, hlength _ _ _ _ _ _ rfl, hpos⟩
    exact h.ends hpc hsub (fun hpos ↦ hbegins k u b (hread hpos))
      fun hpos ↦ hexact k u b (hread hpos)

end Fetched

/-! ### Runs -/

section Runs

variable {es : List ProgramEvent} {s : Program}

private theorem Fetched.reads (hf : Fetched (sysEvents es) s.sys) (h : ProgramRun es s)
    (hwhole : ∀ e ∈ firmwareEvents (simulatorEvents es), MainEvent.Whole e) {k : Transfer}
    {u : Nat} {b : Urb} (hr : ReadAll s.sys k u b) :
    (∃ req, Wanted s.sys req ∧ Brings req b.submit.size <+: b.data) ∧
      (b.submit.address = 1 → (b.data.length : Int) = b.submit.size ∧
        ∃ req, Wanted s.sys req ∧ b.data = Brings req b.submit.size) := by
  have hwanted : ∀ q ∈ requests (serverEvents (sysEvents es)), q.2.isControl = true →
      (Firmware.UsbDeviceReq.ofBytes q.2.setup).bRequest = 6 →
      Wanted s.sys (.ofBytes q.2.setup) := by
    intro q hq
    rw [requests_eq] at hq
    obtain ⟨r, hr, rfl⟩ := List.mem_map.mp hq
    exact hf.wanted r hr
  constructor
  · exact transfer_begins h hwhole hwanted hr
  · intro haddr
    refine transfer_whole h hwhole hwanted ?_ hr
    intro l hl hla
    obtain ⟨u', b', st, hargs, hsized⟩ := (ServerRun.given h.sys.server_run).links l hl
    have hto : (b'.linkArgs u' st).addr = b'.submit.address ∧
        (b'.linkArgs u' st).mps = b'.maxPacketSize := by cases st <;> exact ⟨rfl, rfl⟩
    rw [hargs] at hla ⊢
    rw [hto.2]
    exact hf.sized _ hsized (hto.1.symm.trans (hla.trans haddr))

private theorem ProgramRun.fetched (h : ProgramRun es s)
    (hwhole : ∀ e ∈ firmwareEvents (simulatorEvents es), MainEvent.Whole e)
    (hquiet : ∀ e ∈ sysEvents es, e.1.submits = false)
    (hlength : ∀ i k u b p, Returned (sysEvents es) i k u b p → b.length = b.submit.size) :
    Fetched (sysEvents es) s.sys := by
  obtain ⟨stack, h⟩ := h
  refine Run.invariant (P := fun es s ↦
    (∀ e ∈ firmwareEvents (simulatorEvents es), MainEvent.Whole e) →
    (∀ e ∈ sysEvents es, e.1.submits = false) →
    (∀ i k u b p, Returned (sysEvents es) i k u b p → b.length = b.submit.size) →
    Fetched (sysEvents es) s.sys) ?_ ?_ h hwhole hquiet hlength
  · intro _ _ _
    constructor
    · exact fun r hr ↦ absurd hr (List.not_mem_nil (a := r))
    · exact fun r hr ↦ absurd hr (List.not_mem_nil (a := r))
    all_goals exact fun hlt ↦ absurd hlt (Nat.not_lt_zero _)
  · intro es s e s' hrun ih hfire hwhole hquiet hlength
    have hprog : ProgramRun es s := ⟨stack, hrun⟩
    have hpast : ∀ x ∈ firmwareEvents (simulatorEvents es), MainEvent.Whole x := by
      intro x hx
      apply hwhole x
      unfold firmwareEvents simulatorEvents at hx ⊢
      rw [List.filterMap_append, List.filterMap_append]
      exact List.mem_append_left _ hx
    rw [sysEvents_snoc] at hquiet hlength ⊢
    have hf := ih hpast (fun x hx ↦ hquiet x (List.mem_append_left _ hx))
      fun i k u b p ⟨op, o, hr⟩ ↦ hlength i k u b p ⟨op, o, List.mem_append_left _ hr⟩
    have hstep := (programStep_of_exec hfire).threads
    cases hx : e.2.sys with
    | none =>
      rw [hx] at hstep
      rw [Option.toList_none, List.append_nil, hstep]
      exact hf
    | some x =>
      rw [hx] at hstep hquiet hlength
      have hsys := hprog.sys
      have hnew : x ∈ sysEvents es ++ (some x).toList :=
        List.mem_append_right _ (List.mem_singleton_self x)
      refine hf.step hsys.enumerated hsys.asked hsys.measured (sysStep_of_exec hstep)
        (hquiet x hnew) ?_ (fun k u b hr ↦ (hf.reads hprog hpast hr).1)
        fun k u b hr ↦ (hf.reads hprog hpast hr).2
      intro o i k u b p hret
      exact hlength i k u b p ⟨x.1, o, hret ▸ hnew⟩

private theorem publish_fields {s s' : Sys} {i : Nat} {d c : List UInt8}
    (hs : SysStep s (.publish, .published i d c) s') :
    s.past = 10 ∧ d = s.devDsc ∧ ∃ buf, s.cfgDsc = some buf ∧ c = buf.bytes := by
  generalize he : ((SysOp.publish, SysOut.published i d c) : SysEvent) = e at hs
  cases hs with
  | publish hpc hi hbuf =>
    obtain rfl := attempt_publish hi
    cases he
    exact ⟨by rw [Sys.past, hpc], rfl, _, hbuf, rfl⟩
  | _ => cases he

/-- What `system_loop` publishes is what the firmware has, if every transfer has received what it
asked for, no client has submitted a URB and the firmware has handled nothing but whole setup
packets. -/
theorem ProgramRun.published_firmware (h : ProgramRun es s)
    (hwhole : ∀ e ∈ firmwareEvents (simulatorEvents es), MainEvent.Whole e)
    (hquiet : ∀ e ∈ sysEvents es, e.1.submits = false)
    (hlength : ∀ i k u b p, Returned (sysEvents es) i k u b p → b.length = b.submit.size)
    {i : Nat} {d c : List UInt8} (hp : Published (sysEvents es) i d c) :
    d = devdsc ∧ c = config := by
  obtain ⟨e, he, hx⟩ := List.mem_filterMap.mp hp
  obtain ⟨l₁, l₂, rfl⟩ := List.append_of_mem he
  obtain ⟨stack, h⟩ := h
  obtain ⟨m, m', hrun, hfire, -⟩ := h.fired
  have hprog : ProgramRun l₁ m := ⟨stack, hrun⟩
  have hbefore : sysEvents l₁ ⊆ sysEvents (l₁ ++ e :: l₂) :=
    (List.sublist_append_left l₁ (e :: l₂)).filterMap _ |>.subset
  have hdevice : firmwareEvents (simulatorEvents l₁) ⊆
      firmwareEvents (simulatorEvents (l₁ ++ e :: l₂)) :=
    ((List.sublist_append_left l₁ (e :: l₂)).filterMap _).filterMap _ |>.subset
  have hf := hprog.fetched (fun x hx ↦ hwhole x (hdevice hx)) (fun x hx ↦ hquiet x (hbefore hx))
    fun i k u b p ⟨op, o, hr⟩ ↦ hlength i k u b p ⟨op, o, hbefore hr⟩
  have hstep := (programStep_of_exec hfire).threads
  rw [hx] at hstep
  obtain ⟨hpast, rfl, buf, hbuf, rfl⟩ := publish_fields (sysStep_of_exec hstep)
  obtain ⟨buf', hbuf', hbytes⟩ := hf.whole (by omega)
  obtain rfl := Option.some.inj (hbuf.symm.trans hbuf')
  exact ⟨hf.device (by omega), hbytes⟩

end Runs

private def enumerateDevice : List ProgramOp :=
  let wait : List ProgramOp := [.device .top, .device .poll]
  let turn : List ProgramOp := [.sys (.server .wake), .sys (.server .evaluate), .body]
  let round : List ProgramOp := turn ++ wait ++ [.device (.process 0)] ++ turn ++ turn ++ turn ++
    turn ++ turn
  let stage : List ProgramOp := [.sys (.server (.link .system))] ++ round ++
    [.sys (.server (.resume .system))]
  let write : List ProgramOp := [.sys .begin, .sys (.server (.insert .system))] ++ stage ++ stage ++
    [.sys (.server (.free .system))]
  let read : List ProgramOp := [.sys .begin, .sys (.server (.insert .system))] ++ stage ++ stage ++
    stage ++ [.sys (.server (.free .system))]
  [.sys .attach, .busReset] ++ wait ++ read ++ read ++ [.busReset] ++ wait ++ read ++ write ++
    read ++ read ++ [.sys .calloc] ++ read ++ [.sys .publish]

/-- The descriptors of the firmware are published. -/
theorem ProgramRun.published_firmware_once : ∃ es s d c, ProgramRun es s ∧
    Published (sysEvents es) 0 d c ∧ d = devdsc ∧ c = config := by
  have hcheck : runsTo programExec (programInit zeroStack) enumerateDevice (fun _ es ↦
      decide ((∀ e ∈ firmwareEvents (simulatorEvents es), MainEvent.Whole e) ∧
        (∀ e ∈ sysEvents es, e.1.submits = false) ∧ Published (sysEvents es) 0 devdsc config) &&
      everyReturned (fun _ _ b ↦ decide (b.length = b.submit.size)) (sysEvents es)) = true := by
    decide +kernel
  obtain ⟨es, s, hrun, hp⟩ := Run.of_runsTo hcheck
  obtain ⟨hall, hlength⟩ := Bool.and_eq_true_iff.mp hp
  obtain ⟨hwhole, hquiet, hpub⟩ := of_decide_eq_true hall
  have hprog : ProgramRun es s := ⟨zeroStack, hrun⟩
  refine ⟨es, s, devdsc, config, hprog, hpub, ?_⟩
  exact ProgramRun.published_firmware hprog hwhole hquiet
    (fun i k u b p hr ↦ of_decide_eq_true (everyReturned_apply hlength hr)) hpub

end BiMpp.Usbip
