import Mathlib.Data.List.Basic

/-!
# Finding the device

The search for a mass-storage device over whatever devices are attached and whatever libusb
answers; `cv05_flash/main.c:143–195`. Of a device whose class is per interface only the first
interface is looked at (`main.c:176`), and the `break` of the inner loop (`main.c:185`) does
not end the outer one. A call of `libusb_open` that fails leaves the handle as it was.
-/

namespace BiMpp.Flash

/-- `LIBUSB_CLASS_PER_INTERFACE`. -/
abbrev classPerInterface : UInt8 := 0

/-- `LIBUSB_CLASS_MASS_STORAGE`. -/
abbrev classMassStorage : UInt8 := 8

/-- What a call of libusb returns: 0, or the negative number of an error. -/
structure ReturnCode where
  code : Int
  nonpos : code ≤ 0

/-- `r < 0`. -/
def ReturnCode.failed (r : ReturnCode) : Bool := decide (r.code < 0)

/-- A device: what its descriptors say and what the calls for it return. Of an interface there
are the `bInterfaceClass` of its settings; `libusbOpen k` is for the call behind `k` others. -/
structure UsbDevice where
  deviceDescriptor : ReturnCode
  bDeviceClass : UInt8
  configDescriptor : ReturnCode
  interfaces : List (List UInt8)
  libusbOpen : Nat → ReturnCode

/-- `device_handle`, and all devices that were opened, by their places in the list. None is
closed. -/
structure Handles where
  deviceHandle : Option Nat
  opened : List Nat
  deriving DecidableEq, Repr

namespace Handles

/-- No handle, and nothing opened. -/
def init : Handles := ⟨none, []⟩

/-- `libusb_open` where it succeeds. -/
def openDevice (s : Handles) (i : Nat) : Handles := ⟨some i, s.opened ++ [i]⟩

end Handles

/-! ### The search -/

/-- The loop over the settings of an interface; `main.c:177–187`. -/
def altsettingLoop (d : UsbDevice) (i : Nat) : List UInt8 → Nat → Handles → Handles
  | [], _, s => s
  | bInterfaceClass :: rest, calls, s =>
    if bInterfaceClass = classMassStorage then
      if (d.libusbOpen calls).failed then altsettingLoop d i rest (calls + 1) s
      else s.openDevice i
    else altsettingLoop d i rest calls s

/-- The body of the loop over the devices, and whether it is left by `break`. Without an
interface it reads where no array is; `main.c:152–191`. -/
def tryDevice (d : UsbDevice) (i : Nat) (s : Handles) : Option (Handles × Bool) :=
  if d.deviceDescriptor.failed then some (s, false)
  else if d.bDeviceClass = classMassStorage then
    if (d.libusbOpen 0).failed then some (s, false) else some (s.openDevice i, true)
  else if d.bDeviceClass = classPerInterface then
    if d.configDescriptor.failed then some (s, false)
    else
      match d.interfaces with
      | [] => none
      | settings :: _ => some (altsettingLoop d i settings 0 s, false)
  else some (s, false)

/-- The loop from the `i`-th device on; `main.c:151–192`. -/
def deviceLoop : List UsbDevice → Nat → Handles → Option Handles
  | [], _, s => some s
  | d :: devs, i, s => do
    let (s', left) ← tryDevice d i s
    if left then return s' else deviceLoop devs (i + 1) s'

/-- `find_mass_storage_device`, with nothing for the list if it cannot be had;
`main.c:143–195`. -/
def findMassStorageDevice : Option (List UsbDevice) → Option Handles
  | none => some .init
  | some devs => deviceLoop devs 0 .init

/-! ### What it is for -/

namespace UsbDevice

variable (d : UsbDevice) (n : Nat)

/-- One of `n` calls of `libusb_open` succeeds. -/
def opens : Bool := (List.range n).any fun k ↦ !(d.libusbOpen k).failed

/-- A mass-storage device that can be opened, by its class or by one of `n` settings. -/
def suitableBy : Bool :=
  !d.deviceDescriptor.failed &&
    (d.bDeviceClass == classMassStorage && d.opens 1 ||
      d.bDeviceClass == classPerInterface && !d.configDescriptor.failed && d.opens n)

/-- By any setting of any interface. -/
def suitable : Bool := d.suitableBy (d.interfaces.flatten.count classMassStorage)

end UsbDevice

/-- The handle is that of the first suitable device, if there is one, and no other device is
open. -/
def PicksOne (devs : List UsbDevice) : Prop :=
  ∃ s, findMassStorageDevice (some devs) = some s ∧
    s.deviceHandle = devs.findIdx? UsbDevice.suitable ∧ s.opened = s.deviceHandle.toList

/-! ### One device -/

namespace UsbDevice

/-- Suitable by its class or by a setting of its first interface. -/
def found (d : UsbDevice) : Bool :=
  d.suitableBy ((d.interfaces.headD []).count classMassStorage)

/-- Suitable by its class, which ends the search. -/
def ends (d : UsbDevice) : Bool :=
  !d.deviceDescriptor.failed && (d.bDeviceClass == classMassStorage && d.opens 1)

/-- It has a first interface where one is looked at. -/
def readable (d : UsbDevice) : Bool :=
  d.deviceDescriptor.failed || d.bDeviceClass != classPerInterface || d.configDescriptor.failed ||
    !d.interfaces.isEmpty

variable {d : UsbDevice} {n m i : Nat} {s : Handles}

private theorem opens_mono (h : n ≤ m) (hn : d.opens n = true) : d.opens m = true := by
  obtain ⟨k, hk, hopen⟩ := List.any_eq_true.mp hn
  exact List.any_eq_true.mpr
    ⟨k, List.mem_range.mpr (Nat.lt_of_lt_of_le (List.mem_range.mp hk) h), hopen⟩

private theorem opens_one : d.opens 1 = !(d.libusbOpen 0).failed := Bool.or_false _

private theorem suitableBy_mono (h : n ≤ m) (hn : d.suitableBy n = true) :
    d.suitableBy m = true := by
  simp only [suitableBy, Bool.and_eq_true, Bool.or_eq_true] at hn ⊢
  exact hn.imp_right (.imp_right (.imp_right (opens_mono h)))

/-- What is found by the first interface is suitable. -/
theorem suitable_of_found (h : d.found = true) : d.suitable = true := by
  refine suitableBy_mono ?_ h
  cases d.interfaces with
  | nil => exact Nat.le_refl 0
  | cons settings rest =>
    show settings.count classMassStorage ≤ (settings ++ rest.flatten).count classMassStorage
    rw [List.count_append]
    exact Nat.le_add_right _ _

private theorem found_of_ends (h : d.ends = true) : d.found = true := by
  simp only [ends, found, suitableBy, Bool.and_eq_true, Bool.or_eq_true] at h ⊢
  exact h.imp_right .inl

private theorem readable_of_ends (h : d.ends = true) : d.readable = true := by
  simp only [ends, Bool.and_eq_true, beq_iff_eq] at h
  have hclass : (classMassStorage != classPerInterface) = true := rfl
  rw [readable, h.2.1, hclass]
  simp

/-- The settings are tried one after the other until a call succeeds. -/
theorem altsettingLoop_eq (settings : List UInt8) (calls : Nat) :
    altsettingLoop d i settings calls s =
      if (List.range' calls (settings.count classMassStorage)).any
        (fun k ↦ !(d.libusbOpen k).failed) then s.openDevice i else s := by
  induction settings generalizing calls with
  | nil => rfl
  | cons bInterfaceClass rest ih =>
    rw [altsettingLoop]
    by_cases hclass : bInterfaceClass = classMassStorage
    · subst hclass
      rw [if_pos rfl, List.count_cons_self, List.range'_succ, List.any_cons]
      cases hopen : (d.libusbOpen calls).failed with
      | true => exact ih (calls + 1)
      | false => rfl
    · rw [if_neg hclass, List.count_cons_of_ne hclass]
      exact ih calls

/-- A device is opened if it is found, once, and the search ends with it or goes on. -/
theorem tryDevice_eq : tryDevice d i s =
    if d.readable then some (if d.found then s.openDevice i else s, d.ends) else none := by
  unfold tryDevice readable found suitableBy ends
  cases hdevice : d.deviceDescriptor.failed with
  | true => rfl
  | false =>
    by_cases hstorage : d.bDeviceClass = classMassStorage
    · rw [hstorage, opens_one]
      cases (d.libusbOpen 0).failed with
      | true => rfl
      | false => rfl
    · by_cases hper : d.bDeviceClass = classPerInterface
      · rw [hper]
        cases hconfig : d.configDescriptor.failed with
        | true => rfl
        | false =>
          cases hinterfaces : d.interfaces with
          | nil => rfl
          | cons settings rest =>
            show some (altsettingLoop d i settings 0 s, false) = _
            rw [altsettingLoop_eq, ← List.range_eq_range']
            rfl
      · simp [hstorage, hper]

end UsbDevice

/-! ### All devices -/

section Devices

variable {devs : List UsbDevice} {s : Handles} {i : Nat}

/-- The places of the devices that are opened, from the `i`-th on. -/
def foundFrom : List UsbDevice → Nat → List Nat
  | [], _ => []
  | d :: devs, i =>
    if d.ends then [i]
    else if d.found then i :: foundFrom devs (i + 1) else foundFrom devs (i + 1)

/-- Open one device after the other. -/
def Handles.openAll (s : Handles) (places : List Nat) : Handles := places.foldl openDevice s

/-- The devices that are looked at before the one that ends the search. -/
def passed (devs : List UsbDevice) : List UsbDevice := devs.takeWhile fun d ↦ !d.ends

/-- The search opens whatever it finds up to the device that ends it. -/
theorem deviceLoop_eq : deviceLoop devs i s =
    if (passed devs).all UsbDevice.readable then some (s.openAll (foundFrom devs i)) else none := by
  induction devs generalizing i s with
  | nil => rfl
  | cons d devs ih =>
    rw [deviceLoop, UsbDevice.tryDevice_eq]
    cases hends : d.ends with
    | true =>
      rw [if_pos (UsbDevice.readable_of_ends hends), if_pos (UsbDevice.found_of_ends hends)]
      simp [passed, foundFrom, hends, Handles.openAll]
    | false =>
      have hpassed : passed (d :: devs) = d :: passed devs := by simp [passed, hends]
      rw [hpassed, List.all_cons]
      cases hreadable : d.readable with
      | false => rfl
      | true =>
        refine ih.trans ?_
        cases hfound : d.found with
        | true => simp [foundFrom, hends, hfound, Handles.openAll]
        | false => simp [foundFrom, hends, hfound]

/-- The handle is that of the device opened last. -/
theorem Handles.openAll_eq (s : Handles) (places : List Nat) :
    s.openAll places = ⟨places.getLast?.or s.deviceHandle, s.opened ++ places⟩ := by
  induction places generalizing s with
  | nil => simp [openAll]
  | cons i places ih =>
    have hstep : s.openAll (i :: places) = (s.openDevice i).openAll places := rfl
    rw [hstep, ih, openDevice, List.getLast?_cons]
    cases places.getLast? <;> simp

/-- What the search returns. -/
theorem findMassStorageDevice_eq : findMassStorageDevice (some devs) =
    if (passed devs).all UsbDevice.readable
    then some ⟨(foundFrom devs 0).getLast?, foundFrom devs 0⟩ else none := by
  rw [findMassStorageDevice, deviceLoop_eq, Handles.openAll_eq]
  simp [Handles.init]

/-! ### The first suitable device -/

private theorem le_of_mem_foundFrom {j : Nat} (h : j ∈ foundFrom devs i) : i ≤ j := by
  induction devs generalizing i with
  | nil => cases h
  | cons d devs ih =>
    rw [foundFrom] at h
    split at h
    · exact Nat.le_of_eq (List.mem_singleton.mp h).symm
    · split at h
      · cases h with
        | head => exact Nat.le_refl _
        | tail _ hrest => exact Nat.le_of_succ_le (ih hrest)
      · exact Nat.le_of_succ_le (ih h)

private theorem foundFrom_eq_nil : foundFrom devs i = [] ↔ ∀ e ∈ devs, e.found = false := by
  induction devs generalizing i with
  | nil => exact ⟨fun _ ↦ nofun, fun _ ↦ rfl⟩
  | cons d devs ih =>
    rw [foundFrom, List.forall_mem_cons, ← ih (i := i + 1)]
    cases hends : d.ends with
    | true => simp [UsbDevice.found_of_ends hends]
    | false => cases d.found <;> simp

/-- The first suitable device is recognised, and no other one is found behind it. -/
def FirstStandsOut (devs : List UsbDevice) : Prop :=
  ∀ front d back, devs = front ++ d :: back → (∀ e ∈ front, e.suitable = false) →
    d.suitable = true → d.found = true ∧ (d.ends = true ∨ ∀ e ∈ back, e.found = false)

variable {d : UsbDevice}

private theorem firstStandsOut_cons_of_suitable (h : d.suitable = true) :
    FirstStandsOut (d :: devs) ↔
      d.found = true ∧ (d.ends = true ∨ ∀ e ∈ devs, e.found = false) := by
  constructor
  · intro hfirst
    exact hfirst [] d devs rfl nofun h
  · intro hd front d' back heq hnone hsuitable
    cases front with
    | nil =>
      cases heq
      exact hd
    | cons e front =>
      cases heq
      rw [hnone d (List.mem_cons_self ..)] at h
      cases h

private theorem firstStandsOut_cons_of_not (h : d.suitable = false) :
    FirstStandsOut (d :: devs) ↔ FirstStandsOut devs := by
  constructor
  · intro hfirst front d' back heq hnone
    exact hfirst (d :: front) d' back (by rw [heq]; rfl) (List.forall_mem_cons.mpr ⟨h, hnone⟩)
  · intro hfirst front d' back heq hnone hsuitable
    cases front with
    | nil =>
      cases heq
      rw [h] at hsuitable
      cases hsuitable
    | cons e front =>
      cases heq
      exact hfirst front d' back rfl (fun x hx ↦ hnone x (List.mem_cons_of_mem _ hx)) hsuitable

/-- Exactly the first suitable device is opened. -/
theorem foundFrom_eq_iff :
    foundFrom devs i = ((devs.findIdx? UsbDevice.suitable).map (i + ·)).toList ↔
      FirstStandsOut devs := by
  induction devs generalizing i with
  | nil =>
    refine iff_of_true rfl fun front d back heq ↦ ?_
    cases front <;> cases heq
  | cons d devs ih =>
    rw [foundFrom, List.findIdx?_cons]
    cases hsuitable : d.suitable with
    | false =>
      have hfound : d.found = false := Bool.eq_false_iff.mpr fun h ↦
        Bool.eq_false_iff.mp hsuitable (UsbDevice.suitable_of_found h)
      have hends : d.ends = false := Bool.eq_false_iff.mpr fun h ↦
        Bool.eq_false_iff.mp hfound (UsbDevice.found_of_ends h)
      rw [firstStandsOut_cons_of_not hsuitable, ← ih (i := i + 1), hfound, hends]
      simp [Option.map_map, Function.comp_def, Nat.add_comm, Nat.add_left_comm]
    | true =>
      rw [firstStandsOut_cons_of_suitable hsuitable]
      cases hends : d.ends with
      | true => simp [UsbDevice.found_of_ends hends]
      | false =>
        cases hfound : d.found with
        | true => simp [foundFrom_eq_nil]
        | false =>
          have hlater : foundFrom devs (i + 1) ≠ [i] := by
            intro heq
            have hmem : i ∈ foundFrom devs (i + 1) := by
              rw [heq]
              exact List.mem_singleton.mpr rfl
            exact Nat.not_succ_le_self i (le_of_mem_foundFrom hmem)
          simp [hlater]

/-- One device is picked if every device looked at has an interface to look at, and the first
suitable one is found by its class, or by its first interface with none found behind it. -/
theorem picksOne_iff : PicksOne devs ↔
    (∀ d ∈ passed devs, d.readable = true) ∧ FirstStandsOut devs := by
  have hplace : (devs.findIdx? UsbDevice.suitable).map (0 + ·) =
      devs.findIdx? UsbDevice.suitable := by simp
  rw [PicksOne, findMassStorageDevice_eq, ← foundFrom_eq_iff (i := 0), ← List.all_eq_true, hplace]
  cases (passed devs).all UsbDevice.readable with
  | false => simp
  | true =>
    constructor
    · rintro ⟨s, hs, hhandle, hopened⟩
      obtain rfl := Option.some.inj hs
      refine ⟨rfl, ?_⟩
      rw [← hhandle]
      exact hopened
    · rintro ⟨-, hfound⟩
      refine ⟨_, rfl, ?_⟩
      rw [hfound]
      cases devs.findIdx? UsbDevice.suitable with
      | none => exact ⟨rfl, rfl⟩
      | some i => exact ⟨rfl, rfl⟩

/-- A device with its class in its interfaces, and nothing that fails. -/
def pluggedIn (interfaces : List (List UInt8)) : UsbDevice where
  deviceDescriptor := ⟨0, Int.le_refl 0⟩
  bDeviceClass := classPerInterface
  configDescriptor := ⟨0, Int.le_refl 0⟩
  interfaces := interfaces
  libusbOpen := fun _ ↦ ⟨0, Int.le_refl 0⟩

/-- Of two flash disks the second is returned and both are open; one that is the second
interface of its device is not found. -/
theorem findMassStorageDevice_secondDisk :
    (findMassStorageDevice (some [pluggedIn [[8]], pluggedIn [[8]]]) = some ⟨some 1, [0, 1]⟩ ∧
      ¬ PicksOne [pluggedIn [[8]], pluggedIn [[8]]]) ∧
    findMassStorageDevice (some [pluggedIn [[3], [8]]]) = some ⟨none, []⟩ ∧
      ¬ PicksOne [pluggedIn [[3], [8]]] := by
  refine ⟨⟨rfl, ?_⟩, rfl, ?_⟩
  · rintro ⟨s, hs, hhandle, -⟩
    cases hs
    exact absurd hhandle (by decide)
  · rintro ⟨s, hs, hhandle, -⟩
    cases hs
    exact absurd hhandle (by decide)

end Devices

end BiMpp.Flash
