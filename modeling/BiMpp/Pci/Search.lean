import Mathlib.Algebra.Group.Nat.Defs
import Mathlib.Order.WellFounded
import Mathlib.Data.Fin.Basic
import BiMpp.Base.Search

/-!
# Searching the configuration space

The search for a PCI function and what is done to it; `cv03_pci_map/main.c:8–111`. The index
register at 0xCF8 names a configuration register if its highest bit is set; a read or write of
the data port is then one of that register. Nobody else uses the two ports meanwhile.
-/

namespace BiMpp.Pci
open BiMpp.Base

/-- The value of a register that is not there, and of a search that finds nothing. -/
abbrev allOnes : BitVec 32 := 0xFFFFFFFF

/-! ### The configuration space -/

/-- A configuration space behind the two ports: its registers by their address, and what is
read from the data port when it is not the way to a register. -/
structure Chipset where
  register : BitVec 32 → BitVec 32
  plain : BitVec 32

/-- `0x80000000 | (bus_num << 16) | (dev_num << 11) | (func_num << 8)`; `main.c:26`. -/
def cfgAddress (bus dev func : Nat) : BitVec 32 :=
  0x80000000 ||| BitVec.ofNat 32 bus <<< 16 ||| BitVec.ofNat 32 dev <<< 11 |||
    BitVec.ofNat 32 func <<< 8

/-- A function of a device on a bus. -/
structure PciFunction where
  bus : Fin 256
  dev : Fin 32
  func : Fin 8
  deriving DecidableEq, Repr

namespace PciFunction

/-- The place in bus, device, function order. -/
def number (f : PciFunction) : Nat := (f.bus * 32 + f.dev) * 8 + f.func

/-- The address of its configuration space. -/
def address (f : PciFunction) : BitVec 32 := cfgAddress f.bus f.dev f.func

/-- A function that is there and has these IDs. -/
def Matches (c : Chipset) (deviceId vendorId : BitVec 16) (f : PciFunction) : Prop :=
  c.register f.address ≠ allOnes ∧ (c.register f.address).setWidth 16 = vendorId ∧
    (c.register f.address >>> 16).setWidth 16 = deviceId

/-- The first of them. -/
structure IsFirst (c : Chipset) (deviceId vendorId : BitVec 16) (f : PciFunction) : Prop where
  here : f.Matches c deviceId vendorId
  first : ∀ g : PciFunction, g.Matches c deviceId vendorId → f.number ≤ g.number

end PciFunction

/-! ### The search -/

/-- `pci_cfg_read`; `main.c:13–16`. -/
def pciCfgRead (c : Chipset) (addr : BitVec 32) : BitVec 32 :=
  if addr.msb then c.register addr else c.plain

/-- The body of the three loops; `main.c:26–34`. -/
def tryFunction (c : Chipset) (deviceId vendorId : BitVec 16) (bus dev func : Nat) :
    Option (BitVec 32) :=
  let address := cfgAddress bus dev func
  let val := pciCfgRead c address
  if val = allOnes then none
  else if val.setWidth 16 = vendorId ∧ (val >>> 16).setWidth 16 = deviceId then some address
  else none

/-- `get_cfgbase`; `main.c:22–38`. -/
def getCfgbase (c : Chipset) (deviceId vendorId : BitVec 16) : BitVec 32 :=
  (forBelow 256 fun bus ↦ forBelow 32 fun dev ↦ forBelow 7 fun func ↦
    tryFunction c deviceId vendorId bus dev func).getD allOnes

/-- `get_bar`; `main.c:41–43`. -/
def getBar (c : Chipset) (deviceId vendorId : BitVec 16) : BitVec 32 :=
  getCfgbase c deviceId vendorId + 0x10

/-! ### What is done with the result -/

/-- An access to a port. -/
inductive Access
  | outl (val : BitVec 32) (port : BitVec 16)
  | inl (port : BitVec 16)
  | outb (val : BitVec 8) (port : BitVec 16)
  | inb (port : BitVec 16)
  deriving DecidableEq, Repr

/-- `INDEXPORT`; `main.c:5`. -/
abbrev indexPort : BitVec 16 := 0x0CF8

/-- `DATAPORT`; `main.c:6`. -/
abbrev dataPort : BitVec 16 := 0x0CFC

/-- `pci_cfg_write`; `main.c:8–11`. -/
def pciCfgWrite (addr val : BitVec 32) : List Access :=
  [.outl addr indexPort, .outl val dataPort]

/-- The accesses of `pci_cfg_read`; `main.c:13–16`. -/
def pciCfgReadAccesses (addr : BitVec 32) : List Access := [.outl addr indexPort, .inl dataPort]

/-- `(val & ~3) + 7`; `main.c:47,102`. -/
def scratchpad (val : BitVec 32) : BitVec 16 := ((val &&& ~~~3) + 7).setWidth 16

/-- `test_scratchreg_write`; `main.c:45–53`. -/
def testScratchregWrite (bar0Val : BitVec 32) : List Access :=
  [.outb 0x5A (scratchpad bar0Val), .inb (scratchpad bar0Val)]

/-- `get_bar_size`, whose result is only printed; `main.c:55–58`. -/
def getBarSize (barAddr : BitVec 32) : List Access :=
  pciCfgWrite barAddr allOnes ++ pciCfgReadAccesses barAddr

/-- `main` behind the search, where the first read gives `bar0Val`; `main.c:89–109`. -/
def mainAccesses (bar0Addr bar0Val : BitVec 32) : List Access :=
  pciCfgReadAccesses bar0Addr ++ testScratchregWrite bar0Val ++ getBarSize bar0Addr ++
    pciCfgWrite bar0Addr 0x2000 ++ testScratchregWrite bar0Val ++ [.inb (scratchpad 0x2000)] ++
    pciCfgWrite bar0Addr bar0Val

/-- The index register is only written as a whole. -/
def Access.index (index : BitVec 32) : Access → BitVec 32
  | outl val port => if port = indexPort then val else index
  | _ => index

/-- The port it goes to. -/
def Access.port : Access → BitVec 16
  | outl _ port => port
  | inl port => port
  | outb _ port => port
  | inb port => port

/-- An access to one of the four bytes of the data port, on the way to a register. -/
def Access.configures (index : BitVec 32) (a : Access) : Bool :=
  index.msb && decide (dataPort ≤ a.port ∧ a.port ≤ dataPort + 3)

/-- The addresses of the configuration registers that are read or written. -/
def configured (index : BitVec 32) : List Access → List (BitVec 32)
  | [] => []
  | a :: rest =>
    (if a.configures index then [index] else []) ++ configured (a.index index) rest

/-- The search finds the first function if there is one, says truly if there is none, and what
follows then leaves all configuration registers alone. -/
structure SearchComplete (c : Chipset) (deviceId vendorId : BitVec 16) : Prop where
  found : ∀ f : PciFunction, f.IsFirst c deviceId vendorId →
    getCfgbase c deviceId vendorId = f.address
  absent : getCfgbase c deviceId vendorId = allOnes ↔
    ∀ f : PciFunction, ¬ f.Matches c deviceId vendorId
  distinct : (∀ f : PciFunction, ¬ f.Matches c deviceId vendorId) →
    ∀ f : PciFunction, getBar c deviceId vendorId ≠ f.address + 0x10
  untouched : (∀ f : PciFunction, ¬ f.Matches c deviceId vendorId) →
    ∀ index bar0Val, configured index (mainAccesses (getBar c deviceId vendorId) bar0Val) = []

/-! ### Addresses -/

section Addresses

private theorem toNat_place {n k : Nat} (h : n * 2 ^ k < 2 ^ 32) :
    (BitVec.ofNat 32 n <<< k).toNat = n * 2 ^ k := by
  have hn : n < 2 ^ 32 := Nat.lt_of_le_of_lt (Nat.le_mul_of_pos_right n (Nat.two_pow_pos k)) h
  rw [BitVec.toNat_shiftLeft, BitVec.toNat_ofNat, Nat.mod_eq_of_lt hn, Nat.shiftLeft_eq,
    Nat.mod_eq_of_lt h]

/-- The parts of an address do not overlap. -/
theorem toNat_cfgAddress {bus dev func : Nat} (hb : bus < 256) (hd : dev < 32) (hf : func < 8) :
    (cfgAddress bus dev func).toNat = 2 ^ 31 + bus * 2 ^ 16 + dev * 2 ^ 11 + func * 2 ^ 8 := by
  have hlow : dev * 2 ^ 11 ||| func * 2 ^ 8 = dev * 2 ^ 11 + func * 2 ^ 8 := by
    rw [← Nat.shiftLeft_eq dev, ← Nat.shiftLeft_add_eq_or_of_lt (by omega)]
  have hmid : bus * 2 ^ 16 ||| (dev * 2 ^ 11 + func * 2 ^ 8) =
      bus * 2 ^ 16 + (dev * 2 ^ 11 + func * 2 ^ 8) := by
    rw [← Nat.shiftLeft_eq bus, ← Nat.shiftLeft_add_eq_or_of_lt (by omega)]
  have hhigh : 2 ^ 31 ||| (bus * 2 ^ 16 + (dev * 2 ^ 11 + func * 2 ^ 8)) =
      2 ^ 31 + (bus * 2 ^ 16 + (dev * 2 ^ 11 + func * 2 ^ 8)) := by
    have hone : 2 ^ 31 = 1 <<< 31 := rfl
    rw [hone, ← Nat.shiftLeft_add_eq_or_of_lt (by omega)]
  rw [cfgAddress, BitVec.toNat_or, BitVec.toNat_or, BitVec.toNat_or, toNat_place (by omega),
    toNat_place (by omega), toNat_place (by omega), Nat.or_assoc, Nat.or_assoc, hlow, hmid]
  exact hhigh.trans (by omega)

/-- The highest bit of an address is set. -/
theorem msb_cfgAddress (bus dev func : Nat) : (cfgAddress bus dev func).msb = true := by
  rw [cfgAddress, BitVec.msb_or, BitVec.msb_or, BitVec.msb_or]
  rfl

private theorem PciFunction.toNat_address (f : PciFunction) :
    f.address.toNat = 2 ^ 31 + f.bus * 2 ^ 16 + f.dev * 2 ^ 11 + f.func * 2 ^ 8 :=
  toNat_cfgAddress f.bus.isLt f.dev.isLt f.func.isLt

/-- Functions have different addresses. -/
theorem PciFunction.address_inj {f g : PciFunction} (h : f.address = g.address) : f = g := by
  have hnat := congrArg BitVec.toNat h
  rw [f.toNat_address, g.toNat_address] at hnat
  obtain ⟨⟨b, hb⟩, ⟨d, hd⟩, ⟨k, hk⟩⟩ := f
  obtain ⟨⟨b', hb'⟩, ⟨d', hd'⟩, ⟨k', hk'⟩⟩ := g
  simp only at hnat
  obtain rfl : b = b' := by omega
  obtain rfl : d = d' := by omega
  obtain rfl : k = k' := by omega
  rfl

/-- No function is where a search that finds nothing says. -/
theorem PciFunction.address_ne (f : PciFunction) : f.address ≠ allOnes := by
  intro h
  have hnat := f.toNat_address
  have hones : allOnes.toNat = 2 ^ 32 - 1 := rfl
  have hbus := f.bus.isLt
  have hdev := f.dev.isLt
  have hfunc := f.func.isLt
  rw [h, hones] at hnat
  omega

end Addresses

/-! ### What the loops find -/

section Loops

variable {c : Chipset} {deviceId vendorId : BitVec 16}

/-- An existing function is taken exactly if it matches. -/
theorem tryFunction_eq (f : PciFunction) (a : BitVec 32) :
    tryFunction c deviceId vendorId f.bus f.dev f.func = some a ↔
      f.Matches c deviceId vendorId ∧ f.address = a := by
  have hread : pciCfgRead c (cfgAddress f.bus f.dev f.func) = c.register f.address :=
    if_pos (msb_cfgAddress ..)
  rw [tryFunction, hread, PciFunction.Matches]
  split
  · next h => exact ⟨nofun, fun hm ↦ absurd h hm.1.1⟩
  · next hthere =>
    split
    · next hid => exact ⟨fun h ↦ ⟨⟨hthere, hid⟩, Option.some.inj h⟩, fun h ↦ congrArg some h.2⟩
    · next hid => exact ⟨nofun, fun h ↦ absurd h.1.2 hid⟩

private theorem tryFunction_none (f : PciFunction) :
    tryFunction c deviceId vendorId f.bus f.dev f.func = none ↔
      ¬ f.Matches c deviceId vendorId := by
  rw [Option.eq_none_iff_forall_ne_some]
  constructor
  · exact fun h hm ↦ h f.address ((tryFunction_eq f _).mpr ⟨hm, rfl⟩)
  · exact fun h a ha ↦ h ((tryFunction_eq f a).mp ha).1

/-- The first matching function is found, if the loops reach it. -/
theorem getCfgbase_first {f : PciFunction} (h : f.IsFirst c deviceId vendorId)
    (hfunc : f.func ≠ 7) : getCfgbase c deviceId vendorId = f.address := by
  have hlast : f.func.val < 7 := by
    have hlt := f.func.isLt
    have hne : f.func.val ≠ 7 := fun heq ↦ hfunc (Fin.ext heq)
    omega
  have hbus := f.bus.isLt
  have hdev := f.dev.isLt
  have hnumber : f.number = (f.bus * 32 + f.dev) * 8 + f.func := rfl
  have hbefore : ∀ bus dev func, bus < 256 → dev < 32 → func < 7 →
      (bus * 32 + dev) * 8 + func < f.number →
      tryFunction c deviceId vendorId bus dev func = none := by
    intro bus dev func hb hd hf hlt
    let g : PciFunction := ⟨⟨bus, hb⟩, ⟨dev, hd⟩, ⟨func, Nat.lt_succ_of_lt hf⟩⟩
    exact (tryFunction_none g).mpr fun hm ↦ absurd (h.first g hm) (Nat.not_le_of_lt hlt)
  have hfound : (forBelow 256 fun bus ↦ forBelow 32 fun dev ↦ forBelow 7 fun func ↦
      tryFunction c deviceId vendorId bus dev func) = some f.address := by
    refine forBelow_eq_some.mpr ⟨f.bus, hbus, forBelow_eq_some.mpr ⟨f.dev, hdev,
      forBelow_eq_some.mpr ⟨f.func, hlast, (tryFunction_eq f _).mpr ⟨h.here, rfl⟩, ?_⟩, ?_⟩, ?_⟩
    · intro func hlt
      exact hbefore _ _ _ hbus hdev (by omega) (by omega)
    · intro dev hlt
      refine forBelow_eq_none.mpr fun func hf ↦ ?_
      exact hbefore _ _ _ hbus (by omega) hf (by omega)
    · intro bus hlt
      refine forBelow_eq_none.mpr fun dev hd ↦ forBelow_eq_none.mpr fun func hf ↦ ?_
      exact hbefore _ _ _ (by omega) hd hf (by omega)
  rw [getCfgbase, hfound]
  rfl

/-- What is found is a matching function that the loops reach. -/
theorem getCfgbase_found : getCfgbase c deviceId vendorId = allOnes ∨
    ∃ f : PciFunction, f.Matches c deviceId vendorId ∧ f.func ≠ 7 ∧
      getCfgbase c deviceId vendorId = f.address := by
  rw [getCfgbase]
  cases h : forBelow 256 fun bus ↦ forBelow 32 fun dev ↦ forBelow 7 fun func ↦
      tryFunction c deviceId vendorId bus dev func with
  | none => exact .inl rfl
  | some a =>
    obtain ⟨bus, hb, hbus, -⟩ := forBelow_eq_some.mp h
    obtain ⟨dev, hd, hdev, -⟩ := forBelow_eq_some.mp hbus
    obtain ⟨func, hf, hfunc, -⟩ := forBelow_eq_some.mp hdev
    let g : PciFunction := ⟨⟨bus, hb⟩, ⟨dev, hd⟩, ⟨func, Nat.lt_succ_of_lt hf⟩⟩
    obtain ⟨hm, rfl⟩ := (tryFunction_eq g a).mp hfunc
    exact .inr ⟨g, hm, fun heq ↦ absurd (congrArg Fin.val heq) (Nat.ne_of_lt hf), rfl⟩

/-- If a function matches, one of them is the first. -/
theorem PciFunction.exists_first {f : PciFunction} (h : f.Matches c deviceId vendorId) :
    ∃ g : PciFunction, g.IsFirst c deviceId vendorId := by
  obtain ⟨g, hg, hmin⟩ := WellFounded.has_min (measure PciFunction.number).wf
    {g | g.Matches c deviceId vendorId} ⟨f, h⟩
  exact ⟨g, hg, fun g' hg' ↦ Nat.le_of_not_lt (hmin g' hg')⟩

end Loops

/-! ### What follows the search -/

/-- A register is touched under an address with the highest bit, one that was in the index
register or is written to it. -/
theorem mem_configured {index r : BitVec 32} {l : List Access} (h : r ∈ configured index l) :
    r.msb = true ∧ (r = index ∨ .outl r indexPort ∈ l) := by
  induction l generalizing index with
  | nil => cases h
  | cons a rest ih =>
    rw [configured, List.mem_append] at h
    rcases h with hhere | hrest
    · split at hhere
      · next hconf =>
        obtain rfl := List.mem_singleton.mp hhere
        exact ⟨(Bool.and_eq_true_iff.mp hconf).1, .inl rfl⟩
      · cases hhere
    · obtain ⟨hmsb, hindex | hmem⟩ := ih hrest
      · refine ⟨hmsb, ?_⟩
        cases a with
        | outl val port =>
          rw [Access.index] at hindex
          split at hindex
          · next hport =>
            subst hport hindex
            exact .inr List.mem_cons_self
          · exact .inl hindex
        | _ => exact .inl hindex
      · exact ⟨hmsb, .inr (List.mem_cons_of_mem _ hmem)⟩

/-- Behind the search `main` touches no register but the one it was given, and that one only if
its address has the highest bit. -/
theorem configured_mainAccesses {index bar0Addr bar0Val r : BitVec 32}
    (h : r ∈ configured index (mainAccesses bar0Addr bar0Val)) :
    r = bar0Addr ∧ bar0Addr.msb = true := by
  have hrest : r ∈ configured bar0Addr (mainAccesses bar0Addr bar0Val).tail := by
    have hport : (Access.outl bar0Addr indexPort).configures index = false := Bool.and_false _
    change r ∈ (if (Access.outl bar0Addr indexPort).configures index then [index] else []) ++
      configured bar0Addr (mainAccesses bar0Addr bar0Val).tail at h
    rwa [hport] at h
  obtain ⟨hmsb, hr⟩ := mem_configured hrest
  have heq : r = bar0Addr := by
    rcases hr with heq | hmem
    · exact heq
    · simpa [mainAccesses, pciCfgReadAccesses, pciCfgWrite, testScratchregWrite,
        getBarSize] using hmem
  rw [heq] at hmsb
  exact ⟨heq, hmsb⟩

private theorem PciFunction.msb_bar (f : PciFunction) : (f.address + 0x10).msb = true := by
  have hnat := f.toNat_address
  have hbus := f.bus.isLt
  have hdev := f.dev.isLt
  have hfunc := f.func.isLt
  have hoffset : (0x10 : BitVec 32).toNat = 16 := rfl
  rw [BitVec.msb_eq_decide, decide_eq_true_eq, BitVec.toNat_add, hoffset]
  omega

/-- The search is complete exactly if the first matching function, if there is one, is not a
function 7: those are never looked at. -/
theorem searchComplete_iff (c : Chipset) (deviceId vendorId : BitVec 16) :
    SearchComplete c deviceId vendorId ↔
      ∀ f : PciFunction, f.IsFirst c deviceId vendorId → f.func ≠ 7 := by
  constructor
  · intro h f hf hfunc
    have hfound := h.found f hf
    rcases getCfgbase_found with hnone | ⟨g, -, hg, hgbase⟩
    · exact f.address_ne (hfound.symm.trans hnone)
    · obtain rfl := PciFunction.address_inj (hfound.symm.trans hgbase)
      exact hg hfunc
  · intro h
    have hfound : ∀ f : PciFunction, f.IsFirst c deviceId vendorId →
        getCfgbase c deviceId vendorId = f.address := fun f hf ↦ getCfgbase_first hf (h f hf)
    have habsent : getCfgbase c deviceId vendorId = allOnes ↔
        ∀ f : PciFunction, ¬ f.Matches c deviceId vendorId := by
      constructor
      · intro hnone f hm
        obtain ⟨g, hg⟩ := PciFunction.exists_first hm
        exact g.address_ne ((hfound g hg).symm.trans hnone)
      · intro hno
        rcases getCfgbase_found with hnone | ⟨g, hm, -⟩
        · exact hnone
        · exact absurd hm (hno g)
    have hbar : (∀ f : PciFunction, ¬ f.Matches c deviceId vendorId) →
        (getBar c deviceId vendorId).msb = false := by
      intro hno
      rw [getBar, habsent.mpr hno]
      decide
    refine ⟨hfound, habsent, fun hno f heq ↦ ?_, fun hno index bar0Val ↦ ?_⟩
    · have hmsb := hbar hno
      rw [heq, f.msb_bar] at hmsb
      cases hmsb
    · refine List.eq_nil_iff_forall_not_mem.mpr fun r hr ↦ ?_
      have hmsb := (configured_mainAccesses hr).2
      rw [hbar hno] at hmsb
      cases hmsb

/-- A host bridge, and a serial controller as function 7 of the same device. -/
def multifunction : Chipset where
  register := fun a ↦
    if a = 0x80000000 then 0x12378086 else if a = 0x80000700 then 0xA13D8086 else allOnes
  plain := allOnes

/-- The controller is not found. -/
theorem getCfgbase_multifunction :
    PciFunction.Matches multifunction 0xA13D 0x8086 ⟨0, 0, 7⟩ ∧
      getCfgbase multifunction 0xA13D 0x8086 = allOnes ∧
      ¬ SearchComplete multifunction 0xA13D 0x8086 := by
  have hmatch : PciFunction.Matches multifunction 0xA13D 0x8086 ⟨0, 0, 7⟩ := by
    unfold PciFunction.Matches
    decide
  have hnone : getCfgbase multifunction 0xA13D 0x8086 = allOnes := by
    rcases getCfgbase_found with hnone | ⟨g, ⟨hthere, -, hid⟩, hg, -⟩
    · exact hnone
    · simp only [multifunction] at hthere hid
      split at hid
      · exact absurd hid (by decide)
      · split at hid
        · next hseven =>
          obtain rfl : g = ⟨0, 0, 7⟩ := PciFunction.address_inj hseven
          exact absurd rfl hg
        · next hzero hseven => exact absurd ((if_neg hzero).trans (if_neg hseven)) hthere
  exact ⟨hmatch, hnone, fun h ↦ h.absent.mp hnone _ hmatch⟩

end BiMpp.Pci
