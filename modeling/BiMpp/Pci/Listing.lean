import BiMpp.Pci.Search

/-!
# Listing the configuration space

What `cv02_rtc_pci/pci/main.c:18–38` prints of the functions on all buses, and that the search of
`cv03_pci_map/main.c:22–38` finds the first printed.
-/

namespace BiMpp.Pci
open BiMpp.Base

/-! ### What is printed -/

/-- A printed line. -/
structure PciLine where
  vendorId : BitVec 16
  deviceId : BitVec 16
  address : BitVec 32
  deriving DecidableEq, Repr

/-- The body of the innermost loop; `main.c:20–26`. -/
def printFunction (c : Chipset) (bus dev func : Nat) : List PciLine :=
  let address := cfgAddress bus dev func
  let val := pciCfgRead c address
  if val = allOnes then []
  else [⟨val.setWidth 16, (val >>> 16).setWidth 16, address⟩]

/-- `print_pci_dev_funcs`; `main.c:18–28`. -/
def printPciDevFuncs (c : Chipset) (bus dev : Nat) : List PciLine :=
  eachBelow 7 (printFunction c bus dev)

/-- `print_pci_devs`; `main.c:30–33`. -/
def printPciDevs (c : Chipset) (bus : Nat) : List PciLine := eachBelow 32 (printPciDevFuncs c bus)

/-- `print_all_pci_ids`; `main.c:35–38`. -/
def printAllPciIds (c : Chipset) : List PciLine := eachBelow 256 (printPciDevs c)

/-- The line of a function. -/
def PciFunction.line (c : Chipset) (f : PciFunction) : PciLine :=
  ⟨(c.register f.address).setWidth 16, (c.register f.address >>> 16).setWidth 16, f.address⟩

/-- A line with these IDs, by its address. -/
def PciLine.names (deviceId vendorId : BitVec 16) (l : PciLine) : Option (BitVec 32) :=
  if l.vendorId = vendorId ∧ l.deviceId = deviceId then some l.address else none

/-- The list of functions that are there, in the order of their addresses, in which a search finds
the first. -/
structure Lists (c : Chipset) (lines : List PciLine) : Prop where
  ordered : lines.Pairwise fun l l' ↦ l.address < l'.address
  present : ∀ l, l ∈ lines ↔
    ∃ f : PciFunction, f.func ≠ 7 ∧ c.register f.address ≠ allOnes ∧ l = f.line c
  searched : ∀ deviceId vendorId,
    getCfgbase c deviceId vendorId =
      (lines.findSome? (PciLine.names deviceId vendorId)).getD allOnes

/-! ### The list -/

section Lines

variable {c : Chipset} {bus dev func : Nat} {l : PciLine}

private theorem mem_printFunction : l ∈ printFunction c bus dev func ↔
    c.register (cfgAddress bus dev func) ≠ allOnes ∧
      l = ⟨(c.register (cfgAddress bus dev func)).setWidth 16,
        (c.register (cfgAddress bus dev func) >>> 16).setWidth 16, cfgAddress bus dev func⟩ := by
  have hread : pciCfgRead c (cfgAddress bus dev func) = c.register (cfgAddress bus dev func) :=
    if_pos (msb_cfgAddress ..)
  simp only [printFunction, hread]
  split
  · next hgone => exact ⟨fun h ↦ absurd h List.not_mem_nil, fun h ↦ absurd hgone h.1⟩
  · next hthere =>
    rw [List.mem_singleton]
    exact ⟨fun h ↦ ⟨hthere, h⟩, fun h ↦ h.2⟩

private theorem tryFunction_printed (deviceId vendorId : BitVec 16) :
    tryFunction c deviceId vendorId bus dev func =
      (printFunction c bus dev func).findSome? (PciLine.names deviceId vendorId) := by
  unfold tryFunction printFunction
  dsimp only
  split
  · rfl
  · exact (List.findSome?_singleton ..).symm

private theorem mem_printAllPciIds : l ∈ printAllPciIds c ↔
    ∃ bus < 256, ∃ dev < 32, ∃ func < 7, l ∈ printFunction c bus dev func := by
  simp only [printAllPciIds, printPciDevs, printPciDevFuncs, mem_eachBelow]

private theorem cfgAddress_lt {bus' dev' func' : Nat} (hb : bus' < 256) (hd : dev < 32)
    (hd' : dev' < 32) (hf : func < 7) (hf' : func' < 7)
    (h : bus < bus' ∨ bus = bus' ∧ (dev < dev' ∨ dev = dev' ∧ func < func')) :
    cfgAddress bus dev func < cfgAddress bus' dev' func' := by
  rw [BitVec.lt_def, toNat_cfgAddress (by omega) hd (by omega),
    toNat_cfgAddress hb hd' (by omega)]
  omega

end Lines

/-- `print_all_pci_ids` prints the functions 0 to 6 that are there, each once and in order, and
`get_cfgbase` finds the first printed with the IDs it is given. -/
theorem printAllPciIds_lists (c : Chipset) : Lists c (printAllPciIds c) := by
  constructor
  · have haddress : ∀ {bus dev func l}, l ∈ printFunction c bus dev func →
        l.address = cfgAddress bus dev func := by
      intro bus dev func l hl
      rw [(mem_printFunction.mp hl).2]
    apply pairwise_eachBelow
    · intro bus hb
      apply pairwise_eachBelow
      · intro dev hd
        apply pairwise_eachBelow
        · intro func hf
          unfold printFunction
          dsimp only
          split
          · exact List.Pairwise.nil
          · exact List.pairwise_singleton _ _
        · intro func func' hlt hf' l hl l' hl'
          rw [haddress hl, haddress hl']
          exact cfgAddress_lt hb hd hd (by omega) hf' (.inr ⟨rfl, .inr ⟨rfl, hlt⟩⟩)
      · intro dev dev' hlt hd' l hl l' hl'
        obtain ⟨func, hf, hl⟩ := mem_eachBelow.mp hl
        obtain ⟨func', hf', hl'⟩ := mem_eachBelow.mp hl'
        rw [haddress hl, haddress hl']
        exact cfgAddress_lt hb (by omega) hd' hf hf' (.inr ⟨rfl, .inl hlt⟩)
    · intro bus bus' hlt hb' l hl l' hl'
      obtain ⟨dev, hd, hl⟩ := mem_eachBelow.mp hl
      obtain ⟨func, hf, hl⟩ := mem_eachBelow.mp hl
      obtain ⟨dev', hd', hl'⟩ := mem_eachBelow.mp hl'
      obtain ⟨func', hf', hl'⟩ := mem_eachBelow.mp hl'
      rw [haddress hl, haddress hl']
      exact cfgAddress_lt hb' hd hd' hf hf' (.inl hlt)
  · intro l
    rw [mem_printAllPciIds]
    constructor
    · rintro ⟨bus, hb, dev, hd, func, hf, hl⟩
      obtain ⟨hthere, rfl⟩ := mem_printFunction.mp hl
      refine ⟨⟨⟨bus, hb⟩, ⟨dev, hd⟩, ⟨func, Nat.lt_succ_of_lt hf⟩⟩, fun heq ↦ ?_, hthere, rfl⟩
      exact absurd (congrArg Fin.val heq) (Nat.ne_of_lt hf)
    · rintro ⟨f, hfunc, hthere, rfl⟩
      have hne : f.func.val ≠ 7 := fun heq ↦ hfunc (Fin.ext heq)
      have hlast : f.func.val < 7 := by omega
      exact ⟨f.bus, f.bus.isLt, f.dev, f.dev.isLt, f.func, hlast,
        mem_printFunction.mpr ⟨hthere, rfl⟩⟩
  · intro deviceId vendorId
    unfold getCfgbase printAllPciIds printPciDevs printPciDevFuncs
    simp only [← forBelow_eachBelow, tryFunction_printed]

end BiMpp.Pci
