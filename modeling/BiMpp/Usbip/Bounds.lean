import BiMpp.Device.Transaction
import BiMpp.Usbip.Enumeration

/-!
# What a CMD_SUBMIT can reach

The fields of a CMD_SUBMIT choose an endpoint descriptor in the fetched configuration, an
endpoint descriptor of the controller and an entry of the device's table, each through a
mask or a check of its own:
`bi-mpp-pic24-usb-simulator-master/src/usbip.c:187–191,209–213`, `src/sys.c:189–239`,
`src/hcd.c:33–98,178–202`, `src/usb_lib_usbip.c:232–246`.
-/

namespace BiMpp.Usbip
open BiMpp.Usb BiMpp.Base BiMpp.Host BiMpp.Device

/-! ### The handling of one message -/

/-- What the handling of a message comes upon: the two descriptors, the device the message
arrives at, the controller at each `hcd_gtd_link`, and the device at each packet of a
stage. The endpoints are declared once and for all. -/
structure Surroundings where
  devDsc : List UInt8
  cfg : List UInt8
  lib : UsbLib
  hcd : Stage → Hcd
  libs : Stage → List UsbLib
  declared : ∀ st, ∀ d ∈ libs st, d.bdt.length = lib.bdt.length

/-- The endpoint descriptor at an index lies inside the configuration. -/
def Inside (cfg : List UInt8) (i : Nat) : Prop := 18 + 7 * (i + 1) ≤ cfg.length

instance (cfg : List UInt8) (i : Nat) : Decidable (Inside cfg i) :=
  inferInstanceAs (Decidable (_ ≤ _))

/-- `urb->max_packet_size`, from an endpoint descriptor of the configuration;
`usbip.c:187–191,209–213`. -/
def Surroundings.packetSize (s : Surroundings) (ep : BitVec 32) : Except Fault Int :=
  if ep = 0 then .ok ((s.devDsc.getD 7 0).toNat : Nat)
  else if Inside s.cfg (ep - 1).toNat then wMaxPacketSize s.cfg ep
  else .error .badPointer

/-- What `__usb_transfer` does with its table before anything else: nothing if the guard
refuses, and else it reads entry `ep & 0x0F`; `usb_lib_usbip.c:234–260`. -/
def UsbLib.entry (d : UsbLib) (addr : Int) (ep : BitVec 8) : Except Fault Unit :=
  if d.refuses addr (ep &&& 0x0F).toNat then .ok ()
  else
    match d.bdt[(ep &&& 0x0F).toNat]? with
    | none => .error .badPointer
    | some _ => .ok ()

/-- One stage: `hcd_gtd_link` finds or creates the endpoint, and each packet asks the device
as it is then; `hcd.c:55–100,172–202`. -/
def handleStage (s : Surroundings) (b : Urb) (st : Stage) : Except Fault Unit := do
  let a := b.linkArgs 0 st
  let (l, i) ← findEpd ((s.hcd st).list a.list) a.key a.mps
  let t ← a.td
  match l[i]? with
  | none => .error .badPointer
  | some e =>
    let k ← choosePacket e.toEpdCore t
    (s.libs st).forM fun d ↦ UsbLib.entry d e.functionAddress (BitVec.ofInt 8 k.ep)

/-- A CMD_SUBMIT up to its reply, with the buffer, the length that the transfers leave and
what is on the stack. -/
def handleSubmit (s : Surroundings) (c : OpCmdSubmit) (buffer : List UInt8) (length : Int)
    (stack : List UInt8) : Except Fault RetSubmit := do
  let mps ← s.packetSize c.ep
  let b : Urb := ⟨c.toCmdSubmit, mps, buffer, length⟩
  c.toCmdSubmit.stages.forM (handleStage s b)
  return retSubmit b stack

/-- The message names an address or an endpoint that the device does not have. -/
def Missing (d : UsbLib) (c : CmdSubmit) : Prop :=
  c.address ≠ d.u1addr.toInt ∨ d.bdt.length ≤ c.ep.toNat

instance (d : UsbLib) (c : CmdSubmit) : Decidable (Missing d c) :=
  inferInstanceAs (Decidable (_ ∨ _))

/-- The handling of a message stays inside every table and fails no assertion, and a message
that names something the device does not have is answered with an error. -/
def Safe (s : Surroundings) (c : OpCmdSubmit) : Prop :=
  ∀ buffer length stack, ∃ r, handleSubmit s c buffer length stack = .ok r ∧
    (Missing s.lib c.toCmdSubmit → r.status ≠ 0)

/-- The message names the device's address and one of its endpoints, whose descriptor is in
the configuration, and at every link the endpoint is known to the controller or its packet
size is within bounds. -/
structure Named (s : Surroundings) (c : OpCmdSubmit) : Prop where
  has : ¬ Missing s.lib c.toCmdSubmit
  inside : c.ep ≠ 0 → Inside s.cfg (c.ep - 1).toNat
  known : ∀ st ∈ c.toCmdSubmit.stages, ∀ mps, s.packetSize c.ep = .ok mps →
    let a := Urb.linkArgs 0 ⟨c.toCmdSubmit, mps, [], 0⟩ st
    (∃ e ∈ (s.hcd st).list a.list, e.key = a.key) ∨ mps ≤ 1024

/-! ### Its parts -/

/-- `UsbLib.entry` fails where `__usb_transfer` reads outside its table. -/
theorem usbTransfer_of_entry {d : UsbLib} {addr : Int} {ep : BitVec 8} {pid : UsbPid}
    {data : List UInt8} {size : Int} {f : Fault} (hpid : UsbPid.isData pid = true)
    (h : UsbLib.entry d addr ep = .error f) :
    usbTransfer d addr ep pid data size = .error f := by
  unfold UsbLib.entry at h
  split at h
  · cases h
  · next href =>
    split at h
    · next hnone =>
      cases h
      exact usbTransfer_outside hpid (Bool.eq_false_iff.mpr href) hnone
    · cases h

/-- Inside the configuration this is the packet size that the server finds. -/
theorem packetSize_sys {s : Surroundings} {y : Sys} {buf : CfgBuffer} {ep : BitVec 32}
    (hdev : y.devDsc = s.devDsc) (hcfg : y.cfgDsc = some buf) (hbytes : buf.bytes = s.cfg)
    (h : ep ≠ 0 → Inside s.cfg (ep - 1).toNat) : s.packetSize ep = y.packetSize ep := by
  unfold Surroundings.packetSize Sys.packetSize
  rw [hdev, hcfg]
  split
  · rfl
  · next hep =>
    rw [if_pos (h hep)]
    show _ = wMaxPacketSize buf.bytes ep
    rw [hbytes]

section Parts

variable {s : Surroundings} {c : OpCmdSubmit}

/-- The packet size is found exactly if the endpoint descriptor is inside. -/
theorem packetSize_ok (h : c.ep ≠ 0 → Inside s.cfg (c.ep - 1).toNat) :
    ∃ mps, s.packetSize c.ep = .ok mps ∧ 0 ≤ mps := by
  unfold Surroundings.packetSize
  split
  · exact ⟨_, rfl, Int.natCast_nonneg _⟩
  · next hep =>
    have hin := h hep
    rw [if_pos hin]
    unfold Inside at hin
    unfold wMaxPacketSize
    dsimp only
    rw [if_pos (by omega)]
    exact ⟨_, rfl, Int.natCast_nonneg _⟩

/-- A packet size that is found was inside. -/
theorem inside_of_packetSize {mps : Int} (h : s.packetSize c.ep = .ok mps)
    (hep : c.ep ≠ 0) : Inside s.cfg (c.ep - 1).toNat := by
  unfold Surroundings.packetSize at h
  rw [if_neg hep] at h
  split at h
  · next hin => exact hin
  · cases h

/-- The endpoint that a link finds or creates has its key. -/
theorem findEpd_key {l l' : List Epd} {i : EpdPtr} {k : EpdKey} {mps : Int}
    (h : findEpd l k mps = .ok (l', i)) : ∃ e, l'[i]? = some e ∧ e.key = k := by
  unfold findEpd at h
  split at h
  · next j hj =>
    cases h
    obtain ⟨hlt, hkey, -⟩ := List.findIdx?_eq_some_iff_getElem.mp hj
    exact ⟨l[i], List.getElem?_eq_getElem hlt, by simpa using hkey⟩
  · obtain ⟨e, he, h⟩ := bind_eq_ok.mp h
    cases pure_eq_ok.mp h
    refine ⟨_, List.getElem?_concat_length, ?_⟩
    unfold hcdEpdCreate at he
    split at he
    · cases he
      rfl
    · cases he

/-- A link finds or creates its endpoint exactly if it is known, or its three numbers are
within bounds. -/
theorem findEpd_ok (l : List Epd) (k : EpdKey) (mps : Int) :
    (∃ r, findEpd l k mps = .ok r) ↔ (∃ e ∈ l, e.key = k) ∨
      (0 ≤ k.endpointNumber ∧ k.endpointNumber ≤ 15 ∧ 0 ≤ mps ∧ mps ≤ 1024 ∧
        0 ≤ k.functionAddress ∧ k.functionAddress ≤ 127) := by
  unfold findEpd
  split
  · next j hj =>
    obtain ⟨hlt, hkey, -⟩ := List.findIdx?_eq_some_iff_getElem.mp hj
    constructor
    · intro _
      exact Or.inl ⟨l[j], List.getElem_mem hlt, by simpa using hkey⟩
    · intro _
      exact ⟨_, rfl⟩
  · next hnone =>
    have hno : ¬ ∃ e ∈ l, e.key = k := by
      rintro ⟨e, he, hkey⟩
      have hfalse := List.findIdx?_eq_none_iff.mp hnone e he
      simp [hkey] at hfalse
    unfold hcdEpdCreate
    split
    · next hb =>
      constructor
      · intro _
        exact Or.inr hb
      · intro _
        exact ⟨_, rfl⟩
    · next hb =>
      constructor
      · rintro ⟨r, hr⟩
        cases hr
      · rintro (hk | hb')
        · exact absurd hk hno
        · exact absurd hb' hb

private theorem stage_packet (b : Urb) (st : Stage) (e : EpdCore) :
    ∃ t k, (b.linkArgs 0 st).td = .ok t ∧ choosePacket e t = .ok k ∧
      k.endpointNumber = e.endpointNumber := by
  have hdir : ∀ a : LinkArgs, a.setup = false → ∃ t k, a.td = .ok t ∧
      choosePacket e t = .ok k ∧ k.endpointNumber = e.endpointNumber := by
    intro a ha
    unfold LinkArgs.td LinkArgs.pid
    rw [ha]
    cases a.dir with
    | false => exact ⟨_, _, rfl, rfl, rfl⟩
    | true => exact ⟨_, _, rfl, rfl, rfl⟩
  cases st with
  | setup => exact ⟨_, _, rfl, rfl, rfl⟩
  | data => exact hdir _ rfl
  | status => exact hdir _ rfl
  | direct => exact hdir _ rfl

/-- The endpoint a link looks for: the low four bits of the number in the message. -/
theorem linkArgs_key (b : Urb) (st : Stage) :
    (b.linkArgs 0 st).key = ⟨b.submit.address, ((b.submit.ep.toNat % 16 : Nat) : Int)⟩ := by
  have hmod : b.submit.ep.toInt % 16 = ((b.submit.ep.toNat % 16 : Nat) : Int) := by
    rw [BitVec.toInt_eq_toNat_cond]
    split <;> omega
  cases st <;> exact congrArg _ hmod

private theorem linkArgs_list (c : CmdSubmit) (mps : Int) (data : List UInt8) (length : Int)
    (st : Stage) : (Urb.linkArgs 0 ⟨c, mps, data, length⟩ st).list =
      (Urb.linkArgs 0 ⟨c, mps, [], 0⟩ st).list := by
  cases st <;> rfl

private theorem handleStage_ok (b : Urb) (st : Stage) : handleStage s b st = .ok ⟨⟩ ↔
    (∃ r, findEpd ((s.hcd st).list (b.linkArgs 0 st).list) (b.linkArgs 0 st).key
      (b.linkArgs 0 st).mps = .ok r) ∧
    ∀ d ∈ s.libs st, d.refuses b.submit.address (b.submit.ep.toNat % 16) = true ∨
      b.submit.ep.toNat % 16 < d.bdt.length := by
  have hkey := linkArgs_key b st
  -- what a packet does, once the endpoint is there
  have hentry : ∀ (e : EpdCore) (k : Packet), e.key = (b.linkArgs 0 st).key →
      k.endpointNumber = e.endpointNumber → ∀ d : UsbLib,
      (UsbLib.entry d e.functionAddress (BitVec.ofInt 8 k.ep) = .ok ⟨⟩ ↔
        (d.refuses b.submit.address (b.submit.ep.toNat % 16) = true ∨
          b.submit.ep.toNat % 16 < d.bdt.length)) := by
    intro e k he hk d
    rw [hkey] at he
    obtain ⟨haddr, hnum⟩ := EpdKey.mk.inj he
    have hepn : (BitVec.ofInt 8 k.ep &&& 0x0F).toNat = b.submit.ep.toNat % 16 := by
      have hn := (k.ep_bits (by omega) (by omega)).1
      omega
    unfold UsbLib.entry
    rw [hepn, haddr]
    split
    · next href => simp [href]
    · next href =>
      split
      · next hnone =>
        have hlen := List.getElem?_eq_none_iff.mp hnone
        simp [href, hlen]
      · next x hx =>
        have hlen := (List.getElem?_eq_some_iff.mp hx).1
        simp [hlen]
  unfold handleStage
  constructor
  · intro h
    obtain ⟨⟨l, i⟩, hfind, h⟩ := bind_eq_ok.mp h
    obtain ⟨e, he, hk⟩ := findEpd_key hfind
    obtain ⟨t, k, ht, hchoose, hnum⟩ := stage_packet b st e.toEpdCore
    obtain ⟨t', ht', h⟩ := bind_eq_ok.mp h
    obtain rfl := Except.ok.inj (ht.symm.trans ht')
    simp only [he] at h
    obtain ⟨k', hk', h⟩ := bind_eq_ok.mp h
    obtain rfl := Except.ok.inj (hchoose.symm.trans hk')
    refine ⟨⟨_, hfind⟩, fun d hd ↦ ?_⟩
    exact (hentry _ _ hk hnum d).mp (forM_eq_ok.mp h d hd)
  · rintro ⟨⟨⟨l, i⟩, hfind⟩, hall⟩
    obtain ⟨e, he, hk⟩ := findEpd_key hfind
    obtain ⟨t, k, ht, hchoose, hnum⟩ := stage_packet b st e.toEpdCore
    refine bind_eq_ok.mpr ⟨(l, i), hfind, bind_eq_ok.mpr ⟨t, ht, ?_⟩⟩
    simp only [he]
    refine bind_eq_ok.mpr ⟨k, hchoose, forM_eq_ok.mpr fun d hd ↦ ?_⟩
    exact (hentry _ _ hk hnum d).mpr (hall d hd)

private theorem handleSubmit_ok {buffer stack : List UInt8} {length : Int} {r : RetSubmit} :
    handleSubmit s c buffer length stack = .ok r ↔ ∃ mps, s.packetSize c.ep = .ok mps ∧
      (∀ st ∈ c.toCmdSubmit.stages,
        handleStage s ⟨c.toCmdSubmit, mps, buffer, length⟩ st = .ok ⟨⟩) ∧
      r = retSubmit ⟨c.toCmdSubmit, mps, buffer, length⟩ stack := by
  unfold handleSubmit
  constructor
  · intro h
    obtain ⟨mps, hmps, h⟩ := bind_eq_ok.mp h
    obtain ⟨⟨⟩, hall, h⟩ := bind_eq_ok.mp h
    exact ⟨mps, hmps, forM_eq_ok.mp hall, (pure_eq_ok.mp h).symm⟩
  · rintro ⟨mps, hmps, hall, rfl⟩
    exact bind_eq_ok.mpr ⟨mps, hmps, bind_eq_ok.mpr ⟨⟨⟩, forM_eq_ok.mpr hall, rfl⟩⟩

end Parts

/-- A CMD_SUBMIT is handled safely if and only if it names the device's address and one of
its endpoints, with a descriptor inside the configuration, and finds its endpoint known or
a packet size within bounds. -/
theorem safe_iff (s : Surroundings) (c : OpCmdSubmit) : Safe s c ↔ Named s c := by
  constructor
  · intro h
    obtain ⟨r, hr, hmissing⟩ := h [] 0 []
    obtain ⟨mps, hmps, hall, rfl⟩ := handleSubmit_ok.mp hr
    constructor
    · intro hm
      exact hmissing hm rfl
    · exact inside_of_packetSize hmps
    · intro st hst mps' hmps'
      obtain rfl := Except.ok.inj (hmps.symm.trans hmps')
      have hlink := ((handleStage_ok _ st).mp (hall st hst)).1
      rcases (findEpd_ok _ _ _).mp hlink with hknown | hbounds
      · exact Or.inl hknown
      · refine Or.inr ?_
        have hle := hbounds.2.2.2.1
        rw [Urb.linkArgs_mps] at hle
        exact hle
  · intro h buffer length stack
    obtain ⟨mps, hmps, hpos⟩ := packetSize_ok h.inside
    have hhas := h.has
    unfold Missing at hhas
    simp only [not_or, not_not, Nat.not_le] at hhas
    obtain ⟨haddr, hep⟩ := hhas
    refine ⟨_, handleSubmit_ok.mpr ⟨mps, hmps, ?_, rfl⟩, fun hm ↦ absurd hm h.has⟩
    intro st hst
    refine (handleStage_ok _ st).mpr ⟨(findEpd_ok _ _ _).mpr ?_, ?_⟩
    · rcases h.known st hst mps hmps with hknown | hle
      · refine Or.inl ?_
        rw [linkArgs_list, linkArgs_key]
        rw [linkArgs_key] at hknown
        exact hknown
      · refine Or.inr ?_
        rw [linkArgs_key, Urb.linkArgs_mps]
        have hlow : 0 ≤ c.toCmdSubmit.address := Int.natCast_nonneg _
        have hhigh := BitVec.toInt_lt (x := s.lib.u1addr)
        dsimp only
        omega
    · intro d hd
      refine Or.inr ?_
      rw [s.declared st d hd]
      have hmod := Nat.mod_le c.toCmdSubmit.ep.toNat 16
      exact Nat.lt_of_le_of_lt hmod hep

/-- A configuration with two endpoint descriptors, and a device that declares endpoints 0 to
2. -/
def twoEndpoints : Surroundings where
  devDsc := exampleDevice
  cfg := [9, 2, 32, 0, 1, 1, 0, 0x80, 50, 9, 4, 0, 0, 2, 0xFF, 0, 0, 0,
    7, 5, 0x81, 2, 64, 0, 0, 7, 5, 2, 2, 64, 0, 0]
  lib := { usbEnable (usbInit 3 []) with u1addr := 1 }
  hcd := fun _ ↦ hcdInit
  libs := fun _ ↦ []
  declared := fun _ _ hd ↦ absurd hd List.not_mem_nil

/-- An IN request to endpoint 5 reads a descriptor that the configuration does not have. -/
theorem undeclared_endpoint_unsafe : ¬ ∀ s c, Safe s c := by
  intro hall
  obtain ⟨r, hr, -⟩ := hall twoEndpoints
    ⟨1, 1, 0x10001, 1, 5, 0, 64, 0, 0, 0, [0, 0, 0, 0, 0, 0, 0, 0]⟩ [] 0 []
  have hfault : handleSubmit twoEndpoints
      ⟨1, 1, 0x10001, 1, 5, 0, 64, 0, 0, 0, [0, 0, 0, 0, 0, 0, 0, 0]⟩ [] 0 [] =
        .error .badPointer := by
    rfl
  rw [hfault] at hr
  cases hr

end BiMpp.Usbip
