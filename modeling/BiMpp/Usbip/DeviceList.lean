import BiMpp.Base.Search
import BiMpp.Base.Store
import BiMpp.Base.Text
import BiMpp.Usbip.Enumeration
import Mathlib.Data.List.Iterate

/-!
# The exported device list

`create_op_rep_list` answers OP_REQ_DEVLIST once for all: it copies fields of the device
descriptor into a fresh list and walks the configuration for its interface descriptors, one
cursor for the loop that counts them and the loop that skips what lies between.
`bi-mpp-pic24-usb-simulator-master/src/usbip.c:18–74`, `include/usbip.h:11–59`,
`include/usb_lib.h:109–161`.
-/

namespace BiMpp.Usbip
open BiMpp.Usb BiMpp.Base BiMpp.Host

/-! ### Descriptors -/

/-- The descriptors that follow one another, each as long as its first byte says. -/
def descriptorsFrom : Nat → List UInt8 → Option (List (List UInt8))
  | _, [] => some []
  | 0, _ :: _ => none
  | n + 1, b :: bs =>
    if 2 ≤ b.toNat ∧ b.toNat ≤ bs.length + 1 then
      (descriptorsFrom n ((b :: bs).drop b.toNat)).map ((b :: bs).take b.toNat :: ·)
    else none

/-- The descriptors of a configuration. -/
def descriptors (cfg : List UInt8) : Option (List (List UInt8)) := descriptorsFrom cfg.length cfg

/-- `device_descr_t`: its bytes; `usb_lib.h:109–125`. -/
abbrev DeviceDescr := Vector UInt8 18

namespace DeviceDescr

/-- `idVendor`, `idProduct` and `bcdDevice`, stored low byte first. -/
def idVendor (d : DeviceDescr) : BitVec 16 := d[9].toBitVec ++ d[8].toBitVec

@[inherit_doc idVendor] def idProduct (d : DeviceDescr) : BitVec 16 :=
  d[11].toBitVec ++ d[10].toBitVec

@[inherit_doc idVendor] def bcdDevice (d : DeviceDescr) : BitVec 16 :=
  d[13].toBitVec ++ d[12].toBitVec

end DeviceDescr

/-! ### `create_op_rep_list` -/

/-- `htons`: the two bytes of a half word on the wire. -/
def htons (x : BitVec 16) : List UInt8 := [⟨x.extractLsb' 8 8⟩, ⟨x.extractLsb' 0 8⟩]

/-- `devices[0].path`; `usbip.c:39`. -/
def devlistPath : List UInt8 :=
  cString ['/', 's', 'y', 's', '/', 'd', 'e', 'v', 'i', 'c', 'e', 's', '/', 'p', 'i', 'c', '2',
    '4', '/', 'u', 's', 'b', '1', '/', '1', '-', '1']

/-- `devices[0].busid`; `usbip.c:41`. -/
def devlistBusid : List UInt8 := cString ['1', '-', '1']

/-- `*devlist_size`: the reply header, one device, and its interfaces; `usbip.c:23–25`. -/
def devlistSize (n : UInt8) : Nat := 12 + 312 + 4 * n.toNat

/-- Where interface `i` is in the list. -/
def interfacePlace (i : Nat) : Nat := 12 + 312 + 4 * i

/-- The fields before the interfaces, at their places, in the order they are written;
`usbip.c:32–53`. -/
def devlistFields (dev : DeviceDescr) (bNumInterfaces bConfigurationValue : UInt8) :
    List (Nat × List UInt8) :=
  [(0, htons 0x0111), (2, htons 0x0005), (4, htonl 0), (8, htonl 1),
    (12, List.replicate 256 0), (12, devlistPath),
    (268, List.replicate 32 0), (268, devlistBusid),
    (300, htonl 1), (304, htonl 1), (308, htonl 2),
    (312, htons dev.idVendor), (314, htons dev.idProduct), (316, htons dev.bcdDevice),
    (318, [dev[4]]), (319, [dev[5]]), (320, [dev[6]]),
    (321, [bConfigurationValue]), (322, [dev[17]]), (323, [bNumInterfaces])]

/-- One test of the inner loop at offset `p`: the cursor behind the block, or none where the
loop ends; `usbip.c:59–63`. -/
def skipBlock (cfg : List UInt8) (p : Nat) : Except Fault (Option Nat) :=
  if p < (totalLength cfg).toNat then do
    let bDescriptorType ← load .badPointer cfg (p + 1)
    if bDescriptorType = 4 then .ok none
    else do
      let bLength ← load .badPointer cfg p
      return some (p + bLength.toNat)
  else .ok none

/-- The outer loop, with `n` interfaces to come; `usbip.c:57–71`. -/
def interfaceLoop (fuel : Nat) (cfg : List UInt8) :
    Nat → Nat → Nat → List UInt8 → Except Fault (List UInt8)
  | 0, _, _, devlist => .ok devlist
  | n + 1, i, p, devlist => do
    let p ← search (skipBlock cfg) .diverged fuel p
    let bInterfaceClass ← load .badPointer cfg (p + 5)
    let bInterfaceSubClass ← load .badPointer cfg (p + 6)
    let bInterfaceProtocol ← load .badPointer cfg (p + 7)
    let devlist ← store .badPointer devlist (interfacePlace i)
      [bInterfaceClass, bInterfaceSubClass, bInterfaceProtocol, 0]
    let bLength ← load .badPointer cfg p
    interfaceLoop fuel cfg n (i + 1) (p + bLength.toNat) devlist

/-- `create_op_rep_list`: the size and the bytes of the list; `usbip.c:18–74`. The two bytes
of `wTotalLength` lie in front of the two that are read first. -/
def createOpRepList (fuel : Nat) (dev : DeviceDescr) (cfg : List UInt8) :
    Except Fault (Nat × List UInt8) := do
  let bNumInterfaces ← load .badPointer cfg 4
  let size := devlistSize bNumInterfaces
  let bConfigurationValue ← load .badPointer cfg 5
  let devlist ← storeAll .badPointer (List.replicate size 0)
    (devlistFields dev bNumInterfaces bConfigurationValue)
  let bLength ← load .badPointer cfg 0
  let devlist ← interfaceLoop fuel cfg bNumInterfaces.toNat 0 bLength.toNat devlist
  return (size, devlist)

/-! ### The walk over the blocks -/

/-- The cursor stops at `p`: behind the configuration, or at an interface descriptor. -/
def StopsAt (cfg : List UInt8) (p : Nat) : Prop :=
  (totalLength cfg).toNat ≤ p ∨ cfg.getD (p + 1) 0 = 4

instance (cfg : List UInt8) (p : Nat) : Decidable (StopsAt cfg p) := by
  unfold StopsAt
  infer_instance

/-- The place behind the block at `p`. -/
def nextPlace (cfg : List UInt8) (p : Nat) : Nat := p + (cfg.getD p 0).toNat

/-- What the loops read of the block at `p` is in the buffer, and a block that is skipped is
not empty. -/
def FitsAt (cfg : List UInt8) (p : Nat) : Prop :=
  if StopsAt cfg p then p + 8 ≤ cfg.length
  else p + 2 ≤ cfg.length ∧ cfg.getD p 0 ≠ 0

/-- The entry made from the block at `p`. -/
def entryAt (cfg : List UInt8) (p : Nat) : List UInt8 :=
  [cfg.getD (p + 5) 0, cfg.getD (p + 6) 0, cfg.getD (p + 7) 0, 0]

/-- From `p` on the cursor stops at `qs`, one after the other, and every read is in the
buffer. -/
inductive Visits (cfg : List UInt8) : Nat → List Nat → Prop
  | nil (p : Nat) : Visits cfg p []
  | skip {p : Nat} {q : Nat} {qs : List Nat} : ¬ StopsAt cfg p → FitsAt cfg p →
      Visits cfg (nextPlace cfg p) (q :: qs) → Visits cfg p (q :: qs)
  | stop {p : Nat} {qs : List Nat} : StopsAt cfg p → FitsAt cfg p →
      Visits cfg (nextPlace cfg p) qs → Visits cfg p (p :: qs)

/-- The writes of the outer loop from interface `i` on. -/
def entryWrites (cfg : List UInt8) : Nat → List Nat → List (Nat × List UInt8)
  | _, [] => []
  | i, q :: qs => (interfacePlace i, entryAt cfg q) :: entryWrites cfg (i + 1) qs

section Walk

variable {cfg devlist l : List UInt8} {p q i n fuel fuel' : Nat} {qs : List Nat}

private theorem load_getD {b : UInt8} :
    load Fault.badPointer cfg p = .ok b ↔ p < cfg.length ∧ cfg.getD p 0 = b := by
  rw [load_eq_ok]
  by_cases h : p < cfg.length
  · rw [List.getElem?_eq_getElem h, List.getD_eq_getElem _ _ h, Option.some.injEq]
    exact ⟨fun hb ↦ ⟨h, hb⟩, And.right⟩
  · rw [List.getElem?_eq_none (Nat.le_of_not_lt h)]
    exact ⟨nofun, fun hb ↦ absurd hb.1 h⟩

/-- The inner loop ends where the cursor stops, if the type byte there can be read. -/
theorem skipBlock_none : skipBlock cfg p = .ok none ↔
    StopsAt cfg p ∧ (p < (totalLength cfg).toNat → p + 1 < cfg.length) := by
  unfold skipBlock StopsAt
  split
  · next hp =>
    rw [bind_eq_ok]
    constructor
    · rintro ⟨t, ht, hx⟩
      obtain ⟨hlt, rfl⟩ := load_getD.mp ht
      split at hx
      · next h4 => exact ⟨.inr h4, fun _ ↦ hlt⟩
      · obtain ⟨len, -, hx⟩ := bind_eq_ok.mp hx
        cases hx
    · rintro ⟨hstop, hlt⟩
      refine ⟨_, load_getD.mpr ⟨hlt hp, rfl⟩, ?_⟩
      rw [if_pos (hstop.resolve_left (Nat.not_le_of_lt hp))]
  · next hp => exact ⟨fun _ ↦ ⟨.inl (Nat.le_of_not_lt hp), fun h ↦ absurd h hp⟩, fun _ ↦ rfl⟩

/-- Elsewhere it goes on behind the block, if the head of the block can be read. -/
theorem skipBlock_some : skipBlock cfg p = .ok (some q) ↔
    ¬ StopsAt cfg p ∧ p + 1 < cfg.length ∧ nextPlace cfg p = q := by
  unfold skipBlock StopsAt
  split
  · next hp =>
    rw [bind_eq_ok]
    constructor
    · rintro ⟨t, ht, hx⟩
      obtain ⟨hlt, rfl⟩ := load_getD.mp ht
      split at hx
      · cases hx
      · next h4 =>
        obtain ⟨len, hlen, hx⟩ := bind_eq_ok.mp hx
        obtain ⟨-, rfl⟩ := load_getD.mp hlen
        cases hx
        exact ⟨not_or.mpr ⟨Nat.not_le_of_lt hp, h4⟩, hlt, rfl⟩
    · rintro ⟨hstop, hlt, rfl⟩
      refine ⟨_, load_getD.mpr ⟨hlt, rfl⟩, ?_⟩
      rw [if_neg (not_or.mp hstop).2]
      exact bind_eq_ok.mpr ⟨_, load_getD.mpr ⟨by omega, rfl⟩, rfl⟩
  · next hp => exact ⟨nofun, fun h ↦ absurd (Or.inl (Nat.le_of_not_lt hp)) h.1⟩

private theorem FitsAt.of_stop (h : FitsAt cfg p) (hs : StopsAt cfg p) : p + 8 ≤ cfg.length := by
  rwa [FitsAt, if_pos hs] at h

private theorem FitsAt.of_skip (h : FitsAt cfg p) (hs : ¬ StopsAt cfg p) :
    p + 2 ≤ cfg.length ∧ cfg.getD p 0 ≠ 0 := by
  rwa [FitsAt, if_neg hs] at h

/-- The next stop is the one that the inner loop finds. -/
theorem visits_cons : Visits cfg p (q :: qs) ↔
    (∃ fuel, search (skipBlock cfg) .diverged fuel p = .ok q) ∧ q + 8 ≤ cfg.length ∧
      Visits cfg (nextPlace cfg q) qs := by
  rw [search_iff]
  constructor
  · intro h
    generalize hl : q :: qs = l at h
    induction h with
    | nil p => cases hl
    | @skip p _ _ hskip hfit _ ih =>
      obtain ⟨⟨hpath, hstop⟩, hrest⟩ := ih hl
      have hlead := skipBlock_some.mpr ⟨hskip, (hfit.of_skip hskip).1, rfl⟩
      exact ⟨⟨.head hlead hpath, hstop⟩, hrest⟩
    | @stop p _ hstop hfit hrest ih =>
      cases hl
      have hle := hfit.of_stop hstop
      exact ⟨⟨.refl, skipBlock_none.mpr ⟨hstop, fun _ ↦ by omega⟩⟩, hle, hrest⟩
  · rintro ⟨⟨hpath, hnone⟩, hle, hrest⟩
    have hstop := (skipBlock_none.mp hnone).1
    induction hpath using Relation.ReflTransGen.head_induction_on with
    | refl =>
      refine .stop hstop ?_ hrest
      rw [FitsAt, if_pos hstop]
      exact hle
    | @head p p' hlead hpath ih =>
      obtain ⟨hskip, hlt, rfl⟩ := skipBlock_some.mp hlead
      refine .skip hskip ?_ ih
      rw [FitsAt, if_neg hskip]
      refine ⟨hlt, fun hzero ↦ hskip ?_⟩
      -- behind an empty block the loop finds the same block
      have hself : Leads (skipBlock cfg) p p := by
        refine skipBlock_some.mpr ⟨hskip, hlt, ?_⟩
        rw [nextPlace, hzero]
        rfl
      exact hself.stuck (.head hlead hpath) ▸ hstop

private theorem interfaceLoop_mono (h : interfaceLoop fuel cfg n i p devlist = .ok l)
    (hle : fuel ≤ fuel') : interfaceLoop fuel' cfg n i p devlist = .ok l := by
  induction n generalizing i p devlist with
  | zero => exact h
  | succ n ih =>
    rw [interfaceLoop] at h ⊢
    obtain ⟨q, hq, h⟩ := bind_eq_ok.mp h
    obtain ⟨cls, hcls, h⟩ := bind_eq_ok.mp h
    obtain ⟨sub, hsub, h⟩ := bind_eq_ok.mp h
    obtain ⟨prot, hprot, h⟩ := bind_eq_ok.mp h
    obtain ⟨devlist', hstore, h⟩ := bind_eq_ok.mp h
    obtain ⟨len, hlen, h⟩ := bind_eq_ok.mp h
    rw [search_mono hq hle, ok_bind, hcls, ok_bind, hsub, ok_bind, hprot, ok_bind, hstore, ok_bind,
      hlen, ok_bind]
    exact ih h

/-- The outer loop returns exactly where the walk has a stop for every interface, and has
then written an entry for each. -/
theorem interfaceLoop_iff : (∃ fuel, interfaceLoop fuel cfg n i p devlist = .ok l) ↔
    ∃ qs, qs.length = n ∧ Visits cfg p qs ∧
      storeAll Fault.badPointer devlist (entryWrites cfg i qs) = .ok l := by
  induction n generalizing i p devlist with
  | zero =>
    constructor
    · rintro ⟨fuel, h⟩
      exact ⟨[], rfl, .nil p, h⟩
    · rintro ⟨qs, hqs, -, h⟩
      obtain rfl := List.length_eq_zero_iff.mp hqs
      exact ⟨0, h⟩
  | succ n ih =>
    constructor
    · rintro ⟨fuel, h⟩
      obtain ⟨q, hq, h⟩ := bind_eq_ok.mp h
      obtain ⟨cls, hcls, h⟩ := bind_eq_ok.mp h
      obtain ⟨sub, hsub, h⟩ := bind_eq_ok.mp h
      obtain ⟨prot, hprot, h⟩ := bind_eq_ok.mp h
      obtain ⟨devlist', hstore, h⟩ := bind_eq_ok.mp h
      obtain ⟨len, hlen, h⟩ := bind_eq_ok.mp h
      obtain ⟨-, rfl⟩ := load_getD.mp hcls
      obtain ⟨-, rfl⟩ := load_getD.mp hsub
      obtain ⟨hlt, rfl⟩ := load_getD.mp hprot
      obtain ⟨-, rfl⟩ := load_getD.mp hlen
      obtain ⟨qs, rfl, hvisits, hall⟩ := ih.mp ⟨fuel, h⟩
      exact ⟨q :: qs, rfl, visits_cons.mpr ⟨⟨fuel, hq⟩, hlt, hvisits⟩,
        bind_eq_ok.mpr ⟨devlist', hstore, hall⟩⟩
    · rintro ⟨qs, hqs, hvisits, hall⟩
      cases qs with
      | nil => cases hqs
      | cons q qs =>
        obtain ⟨⟨fuel, hq⟩, hle, hvisits⟩ := visits_cons.mp hvisits
        obtain ⟨devlist', hstore, hall⟩ := bind_eq_ok.mp hall
        obtain ⟨fuel', hrest⟩ := ih.mpr ⟨qs, Nat.succ.inj hqs, hvisits, hall⟩
        -- one fuel for both loops
        refine ⟨max fuel fuel', ?_⟩
        have hload : ∀ k, k < 8 → load Fault.badPointer cfg (q + k) = .ok (cfg.getD (q + k) 0) :=
          fun k hk ↦ load_getD.mpr ⟨by omega, rfl⟩
        rw [interfaceLoop, search_mono hq (Nat.le_max_left _ _), ok_bind, hload 5 (by decide),
          ok_bind, hload 6 (by decide), ok_bind, hload 7 (by decide), ok_bind]
        refine bind_eq_ok.mpr ⟨devlist', hstore, ?_⟩
        rw [show load Fault.badPointer cfg q = .ok (cfg.getD q 0) from hload 0 (by decide), ok_bind]
        exact interfaceLoop_mono hrest (Nat.le_max_right _ _)

end Walk

/-! ### What is written -/

/-- `htons` gives two bytes. -/
@[simp] theorem length_htons (x : BitVec 16) : (htons x).length = 2 := rfl

/-- `htonl` gives four bytes. -/
@[simp] theorem length_htonl (x : BitVec 32) : (htonl x).length = 4 := rfl

section Writes

variable {cfg l : List UInt8} {dev : DeviceDescr} {i : Nat} {qs : List Nat} {n c : UInt8}
  {w : Nat × List UInt8} {r : Nat × List UInt8}

private theorem entryWrites_bounds (h : w ∈ entryWrites cfg i qs) :
    interfacePlace i ≤ w.1 ∧ w.1 + w.2.length ≤ interfacePlace (i + qs.length) := by
  induction qs generalizing i with
  | nil => cases h
  | cons q qs ih =>
    rcases List.mem_cons.mp h with rfl | h
    · have hlen : (entryAt cfg q).length = 4 := rfl
      simp only [interfacePlace, List.length_cons, hlen]
      omega
    · have hb := ih h
      simp only [interfacePlace, List.length_cons] at hb ⊢
      omega

private theorem entryWrites_pairwise : (entryWrites cfg i qs).Pairwise Apart := by
  induction qs generalizing i with
  | nil => exact .nil
  | cons q qs ih =>
    refine .cons (fun w hw ↦ .inl ?_) ih
    have hb := (entryWrites_bounds hw).1
    have hlen : (entryAt cfg q).length = 4 := rfl
    simp only [interfacePlace, hlen] at hb ⊢
    omega

private theorem entryWrites_mem {j : Nat} {q : Nat} (h : qs[j]? = some q) :
    (interfacePlace (i + j), entryAt cfg q) ∈ entryWrites cfg i qs := by
  induction qs generalizing i j with
  | nil => cases h
  | cons q' qs ih =>
    cases j with
    | zero =>
      cases h
      exact List.mem_cons_self
    | succ j =>
      rw [Nat.add_comm j, ← Nat.add_assoc]
      exact List.mem_cons_of_mem _ (ih h)

private theorem devlistFields_bounds :
    ∀ w ∈ devlistFields dev n c, w.1 + w.2.length ≤ interfacePlace 0 := by
  have hpath : devlistPath.length = 28 := rfl
  have hbusid : devlistBusid.length = 4 := rfl
  simp only [devlistFields, List.forall_mem_cons, length_htons, length_htonl, hpath, hbusid,
    List.length_replicate, List.length_singleton, interfacePlace]
  simp

private theorem devlistFields_pairwise : ((devlistFields dev n c).drop 8).Pairwise Apart := by
  simp only [devlistFields, List.drop_succ_cons, List.drop_zero, List.pairwise_cons,
    List.forall_mem_cons, Apart, length_htons, length_htonl, List.length_singleton]
  simp

/-- All writes are in the list, and all but the strings are read back. -/
theorem writes_fit : ∀ w ∈ devlistFields dev n c ++ entryWrites cfg 0 qs,
    w.1 + w.2.length ≤ interfacePlace qs.length := by
  intro w hw
  rcases List.mem_append.mp hw with hw | hw
  · have hb := devlistFields_bounds w hw
    simp only [interfacePlace] at hb ⊢
    omega
  · have hb := (entryWrites_bounds hw).2
    rwa [Nat.zero_add] at hb

@[inherit_doc writes_fit] theorem slice_devlist {f : Fault} {l₀ : List UInt8}
    (h : storeAll f l₀ (devlistFields dev n c ++ entryWrites cfg 0 qs) = .ok l)
    (hw : w ∈ (devlistFields dev n c).drop 8 ++ entryWrites cfg 0 qs) :
    slice l w.1 w.2.length = w.2 := by
  rw [← List.take_append_drop 8 (devlistFields dev n c), List.append_assoc] at h
  refine slice_storeAll_of_pairwise h (List.pairwise_append.mpr ?_) hw
  refine ⟨devlistFields_pairwise, entryWrites_pairwise, fun v hv u hu ↦ .inl ?_⟩
  exact Nat.le_trans (devlistFields_bounds v (List.mem_of_mem_drop hv)) (entryWrites_bounds hu).1

/-- `create_op_rep_list` returns exactly where the walk has a stop for every interface the
configuration announces, with the fields and an entry for each stop. -/
theorem createOpRepList_iff : (∃ fuel, createOpRepList fuel dev cfg = .ok r) ↔
    6 ≤ cfg.length ∧ ∃ qs l, qs.length = (cfg.getD 4 0).toNat ∧
      Visits cfg (cfg.getD 0 0).toNat qs ∧
      storeAll Fault.badPointer (List.replicate (devlistSize (cfg.getD 4 0)) 0)
        (devlistFields dev (cfg.getD 4 0) (cfg.getD 5 0) ++ entryWrites cfg 0 qs) = .ok l ∧
      (devlistSize (cfg.getD 4 0), l) = r := by
  constructor
  · rintro ⟨fuel, h⟩
    obtain ⟨n, hn, h⟩ := bind_eq_ok.mp h
    obtain ⟨c, hc, h⟩ := bind_eq_ok.mp h
    obtain ⟨l₁, hl₁, h⟩ := bind_eq_ok.mp h
    obtain ⟨len, hlen, h⟩ := bind_eq_ok.mp h
    obtain ⟨l, hl, hret⟩ := bind_eq_ok.mp h
    obtain ⟨-, rfl⟩ := load_getD.mp hn
    obtain ⟨hlt, rfl⟩ := load_getD.mp hc
    obtain ⟨-, rfl⟩ := load_getD.mp hlen
    obtain ⟨qs, hqs, hvisits, hall⟩ := interfaceLoop_iff.mp ⟨fuel, hl⟩
    refine ⟨hlt, qs, l, hqs, hvisits, ?_, pure_eq_ok.mp hret⟩
    rw [storeAll_append]
    exact bind_eq_ok.mpr ⟨l₁, hl₁, hall⟩
  · rintro ⟨hlen, qs, l, hqs, hvisits, hall, rfl⟩
    rw [storeAll_append] at hall
    obtain ⟨l₁, hl₁, hall⟩ := bind_eq_ok.mp hall
    obtain ⟨fuel, hfuel⟩ := interfaceLoop_iff.mpr ⟨qs, hqs, hvisits, hall⟩
    have hload : ∀ k, k < 6 → load Fault.badPointer cfg k = .ok (cfg.getD k 0) :=
      fun k hk ↦ load_getD.mpr ⟨by omega, rfl⟩
    refine ⟨fuel, ?_⟩
    rw [createOpRepList, hload 4 (by decide), ok_bind, hload 5 (by decide), ok_bind, hl₁, ok_bind,
      hload 0 (by decide), ok_bind, hfuel]
    rfl

private theorem createOpRepList_mono {fuel fuel' : Nat} (h : createOpRepList fuel dev cfg = .ok r)
    (hle : fuel ≤ fuel') : createOpRepList fuel' dev cfg = .ok r := by
  obtain ⟨n, hn, h⟩ := bind_eq_ok.mp h
  obtain ⟨c, hc, h⟩ := bind_eq_ok.mp h
  obtain ⟨l₁, hl₁, h⟩ := bind_eq_ok.mp h
  obtain ⟨len, hlen, h⟩ := bind_eq_ok.mp h
  obtain ⟨l, hl, hret⟩ := bind_eq_ok.mp h
  rw [createOpRepList, hn, ok_bind, hc, ok_bind, hl₁, ok_bind, hlen, ok_bind,
    interfaceLoop_mono hl hle, ok_bind]
  exact hret

/-- Whatever the walk is, there is room for what is written. -/
theorem writes_exist (dev : DeviceDescr) (hqs : qs.length = (cfg.getD 4 0).toNat) :
    ∃ l, storeAll Fault.badPointer (List.replicate (devlistSize (cfg.getD 4 0)) 0)
      (devlistFields dev (cfg.getD 4 0) (cfg.getD 5 0) ++ entryWrites cfg 0 qs) = .ok l := by
  refine storeAll_exists fun w hw ↦ ?_
  have hfit := writes_fit w hw
  rwa [List.length_replicate, devlistSize, ← hqs]

end Writes

/-! ### The list of a configuration -/

/-- An interface descriptor. -/
def isInterface (d : List UInt8) : Bool := d.getD 1 0 == 4

/-- A configuration of `wTotalLength` bytes: a configuration descriptor and a chain of others,
the interface descriptors among them whole. -/
structure ConfigValid (cfg : List UInt8) (ds : List (List UInt8)) : Prop where
  chain : descriptors cfg = some ds
  config : ∃ c ∈ ds.head?, 9 ≤ c.length
  interfaces : ∀ d ∈ ds.tail, isInterface d → 9 ≤ d.length
  total : (totalLength cfg).toNat = cfg.length

/-- The interface descriptors of a configuration, in order. -/
def interfaceDescriptors (ds : List (List UInt8)) : List (List UInt8) := ds.tail.filter isInterface

/-- The entry of an interface descriptor: class, subclass, protocol and a zero byte. -/
def interfaceEntry (d : List UInt8) : List UInt8 := [d.getD 5 0, d.getD 6 0, d.getD 7 0, 0]

/-- A list that shows the device and its configuration. -/
structure Reflects (dev : DeviceDescr) (cfg : List UInt8) (ds : List (List UInt8))
    (devlist : List UInt8) : Prop where
  size : devlist.length = 12 + 312 + 4 * (cfg.getD 4 0).toNat
  interface : ∀ i < (cfg.getD 4 0).toNat, ∃ d ∈ (interfaceDescriptors ds)[i]?,
    slice devlist (12 + 312 + 4 * i) 4 = interfaceEntry d
  busnum : slice devlist 300 4 = htonl 1
  devnum : slice devlist 304 4 = htonl 1
  speed : slice devlist 308 4 = htonl 2
  idVendor : slice devlist 312 2 = htons dev.idVendor
  idProduct : slice devlist 314 2 = htons dev.idProduct
  bcdDevice : slice devlist 316 2 = htons dev.bcdDevice

section Chains

variable {cfg pre : List UInt8} {d : List UInt8} {ds : List (List UInt8)} {n : Nat}

/-- A chain of descriptors is the bytes of them all, each as long as it says. -/
theorem descriptorsFrom_spec (h : descriptorsFrom n cfg = some ds) :
    ds.flatten = cfg ∧ ∀ d ∈ ds, 2 ≤ d.length ∧ (d.getD 0 0).toNat = d.length := by
  induction n generalizing cfg ds with
  | zero =>
    cases cfg with
    | nil =>
      cases h
      exact ⟨rfl, nofun⟩
    | cons b bs => cases h
  | succ n ih =>
    cases cfg with
    | nil =>
      cases h
      exact ⟨rfl, nofun⟩
    | cons b bs =>
      rw [descriptorsFrom] at h
      split at h
      · next hb =>
        obtain ⟨rest, hrest, rfl⟩ := Option.map_eq_some_iff.mp h
        obtain ⟨hflat, hlen⟩ := ih hrest
        refine ⟨by rw [List.flatten_cons, hflat, List.take_append_drop], ?_⟩
        have hlength : ((b :: bs).take b.toNat).length = b.toNat := by
          rw [List.length_take, List.length_cons]
          omega
        refine List.forall_mem_cons.mpr ⟨⟨hb.1.trans_eq hlength.symm, ?_⟩, hlen⟩
        have hhead : ∀ k, 2 ≤ k → ((b :: bs).take k).getD 0 0 = b := fun k hk ↦ by
          cases k with
          | zero => cases hk
          | succ k => rfl
        rw [hlength, hhead _ hb.1]
      · cases h

/-- From the start of a row of descriptors on, the cursor stops at its interface descriptors. -/
theorem visits_interfaces (hcfg : cfg = pre ++ ds.flatten)
    (htotal : (totalLength cfg).toNat = cfg.length)
    (hlen : ∀ d ∈ ds, 2 ≤ d.length ∧ (d.getD 0 0).toNat = d.length)
    (hwhole : ∀ d ∈ ds, isInterface d → 9 ≤ d.length) (hn : n ≤ (ds.filter isInterface).length) :
    ∃ qs, qs.length = n ∧ Visits cfg pre.length qs ∧
      qs.map (entryAt cfg) = ((ds.filter isInterface).take n).map interfaceEntry := by
  induction ds generalizing pre n with
  | nil =>
    obtain rfl := Nat.le_zero.mp hn
    exact ⟨[], rfl, .nil _, rfl⟩
  | cons d ds ih =>
    obtain ⟨hd, hlen⟩ := List.forall_mem_cons.mp hlen
    obtain ⟨hdw, hwhole⟩ := List.forall_mem_cons.mp hwhole
    have hcfg' : cfg = (pre ++ d) ++ ds.flatten := by
      rw [hcfg, List.flatten_cons, List.append_assoc]
    have hat : ∀ j < d.length, cfg.getD (pre.length + j) 0 = d.getD j 0 := fun j hj ↦ by
      rw [hcfg', List.append_assoc, List.getD_append_right _ _ _ _ (Nat.le_add_right _ _),
        Nat.add_sub_cancel_left, List.getD_append _ _ _ _ hj]
    have hle : pre.length + d.length ≤ cfg.length := by
      rw [hcfg', List.length_append, List.length_append]
      omega
    have hstop : StopsAt cfg pre.length ↔ isInterface d = true := by
      unfold StopsAt isInterface
      rw [htotal, hat 1 (by omega), beq_iff_eq]
      exact or_iff_right (by omega)
    have hnext : nextPlace cfg pre.length = (pre ++ d).length := by
      rw [nextPlace, show cfg.getD pre.length 0 = d.getD 0 0 from hat 0 (by omega), hd.2,
        List.length_append]
    cases n with
    | zero => exact ⟨[], rfl, .nil _, rfl⟩
    | succ n =>
      cases hi : isInterface d with
      | true =>
        rw [List.filter_cons_of_pos hi] at hn ⊢
        obtain ⟨qs, hqs, hvisits, hmap⟩ := ih hcfg' hlen hwhole (Nat.le_of_succ_le_succ hn)
        have h9 := hdw hi
        refine ⟨pre.length :: qs, congrArg Nat.succ hqs, .stop (hstop.mpr hi) ?_ ?_, ?_⟩
        · rw [FitsAt, if_pos (hstop.mpr hi)]
          omega
        · rwa [hnext]
        · rw [List.take_succ_cons, List.map_cons, List.map_cons, hmap, entryAt, interfaceEntry,
            hat 5 (by omega), hat 6 (by omega), hat 7 (by omega)]
      | false =>
        have hi' : ¬ isInterface d = true := Bool.eq_false_iff.mp hi
        rw [List.filter_cons_of_neg hi'] at hn ⊢
        obtain ⟨qs, hqs, hvisits, hmap⟩ := ih hcfg' hlen hwhole hn
        refine ⟨qs, hqs, ?_, hmap⟩
        cases qs with
        | nil => cases hqs
        | cons q qs =>
          refine .skip (fun hs ↦ hi' (hstop.mp hs)) ?_ (by rwa [hnext])
          rw [FitsAt, if_neg fun hs ↦ hi' (hstop.mp hs)]
          refine ⟨by omega, fun hzero ↦ ?_⟩
          have hz : (d.getD 0 0).toNat = 0 := by
            rw [← hat 0 (by omega)]
            exact congrArg UInt8.toNat hzero
          omega

end Chains

private theorem reflects_of_writes {dev : DeviceDescr} {cfg l l₀ : List UInt8}
    {ds : List (List UInt8)} {qs : List Nat} (hqs : qs.length = (cfg.getD 4 0).toNat)
    (hmap : qs.map (entryAt cfg) =
      ((interfaceDescriptors ds).take (cfg.getD 4 0).toNat).map interfaceEntry)
    (hl : storeAll Fault.badPointer l₀
      (devlistFields dev (cfg.getD 4 0) (cfg.getD 5 0) ++ entryWrites cfg 0 qs) = .ok l)
    (hsize : l₀.length = devlistSize (cfg.getD 4 0)) : Reflects dev cfg ds l := by
  -- the fields behind the strings are known by their number
  have hfield : ∀ (k : Nat) (w : Nat × List UInt8),
      ((devlistFields dev (cfg.getD 4 0) (cfg.getD 5 0)).drop 8)[k]? = some w →
        slice l w.1 w.2.length = w.2 :=
    fun k w hw ↦ slice_devlist hl (List.mem_append_left _ (List.mem_of_getElem? hw))
  refine ⟨(storeAll_length hl).trans hsize, fun i hi ↦ ?_, hfield 0 _ rfl, hfield 1 _ rfl,
    hfield 2 _ rfl, hfield 3 _ rfl, hfield 4 _ rfl, hfield 5 _ rfl⟩
  · have hlt : i < qs.length := hqs ▸ hi
    have hq : qs[i]? = some qs[i] := List.getElem?_eq_getElem hlt
    have hentry : slice l (interfacePlace i) 4 = entryAt cfg qs[i] := by
      have hmem : (interfacePlace (0 + i), entryAt cfg _) ∈ entryWrites cfg 0 qs :=
        entryWrites_mem hq
      rw [Nat.zero_add] at hmem
      exact slice_devlist hl (List.mem_append_right _ hmem)
    have hi' := congrArg (·[i]?) hmap
    simp only [List.getElem?_map, hq, Option.map_some, List.getElem?_take_of_lt hi] at hi'
    obtain ⟨d, hd, he⟩ := Option.map_eq_some_iff.mp hi'.symm
    exact ⟨d, hd, hentry.trans he.symm⟩

/-- A valid configuration is shown as it is: the interfaces are its interface descriptors. -/
theorem createOpRepList_reflects (dev : DeviceDescr) {cfg : List UInt8} {ds : List (List UInt8)}
    (h : ConfigValid cfg ds) (hn : (cfg.getD 4 0).toNat ≤ (interfaceDescriptors ds).length) :
    ∃ fuel devlist, (∀ fuel' ≥ fuel, createOpRepList fuel' dev cfg =
        .ok (12 + 312 + 4 * (cfg.getD 4 0).toNat, devlist)) ∧ Reflects dev cfg ds devlist := by
  obtain ⟨hflat, hlen⟩ := descriptorsFrom_spec h.chain
  obtain ⟨c, hc, h9⟩ := h.config
  obtain ⟨rest, rfl⟩ : ∃ rest, ds = c :: rest := ⟨ds.tail, List.eq_cons_of_mem_head? hc⟩
  obtain ⟨hclen, hlen⟩ := List.forall_mem_cons.mp hlen
  have hcfg : cfg = c ++ rest.flatten := hflat.symm
  have hfirst : (cfg.getD 0 0).toNat = c.length := by
    rw [hcfg, List.getD_append _ _ _ _ (by omega), hclen.2]
  have h6 : 6 ≤ cfg.length := by
    rw [hcfg, List.length_append]
    omega
  obtain ⟨qs, hqs, hvisits, hmap⟩ := visits_interfaces hcfg h.total hlen h.interfaces hn
  obtain ⟨devlist, hl⟩ := writes_exist dev hqs
  obtain ⟨fuel, hfuel⟩ := createOpRepList_iff.mpr
    ⟨h6, qs, devlist, hqs, by rwa [hfirst], hl, rfl⟩
  exact ⟨fuel, devlist, fun fuel' hle ↦ createOpRepList_mono hfuel hle,
    reflects_of_writes hqs hmap hl List.length_replicate⟩

private def twoInterfaces : List (List UInt8) :=
  [[9, 2, 39, 0, 2, 1, 0, 0x80, 50], [9, 4, 0, 0, 1, 0xFF, 1, 2, 0], [7, 5, 0x81, 2, 64, 0, 0],
    [5, 0x24, 0, 0x10, 1], [9, 4, 1, 0, 0, 8, 6, 0x50, 0]]

/-- A configuration of two interfaces is reflected in 332 bytes. -/
theorem createOpRepList_reflects_two : ∃ fuel devlist,
    createOpRepList fuel (Vector.replicate 18 0) twoInterfaces.flatten = .ok (332, devlist) ∧
      slice devlist 324 4 = [0xFF, 0x01, 0x02, 0] ∧
      slice devlist 328 4 = [0x08, 0x06, 0x50, 0] := by
  have hvalid : ConfigValid twoInterfaces.flatten twoInterfaces :=
    ⟨by decide, ⟨_, rfl, by decide⟩, by decide, by decide⟩
  obtain ⟨fuel, devlist, hret, hr⟩ :=
    createOpRepList_reflects (Vector.replicate 18 0) hvalid (by decide)
  obtain ⟨d₀, hd₀, h₀⟩ := hr.interface 0 (by decide)
  obtain ⟨d₁, hd₁, h₁⟩ := hr.interface 1 (by decide)
  cases hd₀
  cases hd₁
  exact ⟨fuel, devlist, hret fuel (Nat.le_refl fuel), h₀, h₁⟩

/-! ### Any configuration -/

/-- The first `k` places of the walk. -/
def places (cfg : List UInt8) (k : Nat) : List Nat :=
  List.iterate (nextPlace cfg) (cfg.getD 0 0).toNat k

/-- A walk is its places one after the other, whichever of them the cursor stops at. -/
theorem visits_iff {cfg : List UInt8} {p n : Nat} :
    (∃ qs, qs.length = n ∧ Visits cfg p qs) ↔
      ∃ k, ((List.iterate (nextPlace cfg) p k).countP fun q ↦ StopsAt cfg q) = n ∧
        ∀ q ∈ List.iterate (nextPlace cfg) p k, FitsAt cfg q := by
  constructor
  · rintro ⟨qs, rfl, h⟩
    induction h with
    | nil p => exact ⟨0, rfl, nofun⟩
    | skip hskip hfit _ ih =>
      obtain ⟨k, hk, hall⟩ := ih
      refine ⟨k + 1, ?_, List.forall_mem_cons.mpr ⟨hfit, hall⟩⟩
      rw [List.iterate, List.countP_cons_of_neg (by simpa using hskip), hk]
    | stop hstop hfit _ ih =>
      obtain ⟨k, hk, hall⟩ := ih
      refine ⟨k + 1, ?_, List.forall_mem_cons.mpr ⟨hfit, hall⟩⟩
      rw [List.iterate, List.countP_cons_of_pos (by simpa using hstop), hk]
      rfl
  · rintro ⟨k, hk, hall⟩
    induction k generalizing p n with
    | zero => exact ⟨[], hk, .nil p⟩
    | succ k ih =>
      obtain ⟨hfit, hall⟩ := List.forall_mem_cons.mp hall
      by_cases hstop : StopsAt cfg p
      · rw [List.iterate, List.countP_cons_of_pos (by simpa using hstop)] at hk
        obtain ⟨qs, hqs, hvisits⟩ := ih rfl hall
        exact ⟨p :: qs, (congrArg Nat.succ hqs).trans hk, .stop hstop hfit hvisits⟩
      · rw [List.iterate, List.countP_cons_of_neg (by simpa using hstop)] at hk
        obtain ⟨qs, hqs, hvisits⟩ := ih hk hall
        refine ⟨qs, hqs, ?_⟩
        cases qs with
        | nil => exact .nil p
        | cons q qs => exact .skip hstop hfit hvisits

/-- Whatever the device returns as its configuration, the list is built exactly if the walk
comes to a stop for every announced interface, all its places in the buffer and no block on
the way empty. -/
theorem createOpRepList_returns_iff (dev : DeviceDescr) (cfg : List UInt8) :
    (∃ fuel r, createOpRepList fuel dev cfg = .ok r) ↔
      6 ≤ cfg.length ∧ ∃ k, ((places cfg k).countP fun p ↦ StopsAt cfg p) = (cfg.getD 4 0).toNat ∧
        ∀ p ∈ places cfg k, FitsAt cfg p := by
  constructor
  · rintro ⟨fuel, r, h⟩
    obtain ⟨h6, qs, l, hqs, hvisits, -⟩ := createOpRepList_iff.mp ⟨fuel, h⟩
    exact ⟨h6, visits_iff.mp ⟨qs, hqs, hvisits⟩⟩
  · rintro ⟨h6, hwalk⟩
    obtain ⟨qs, hqs, hvisits⟩ := visits_iff.mpr hwalk
    obtain ⟨l, hl⟩ := writes_exist dev hqs
    obtain ⟨fuel, h⟩ := createOpRepList_iff.mpr ⟨h6, qs, l, hqs, hvisits, hl, rfl⟩
    exact ⟨fuel, _, h⟩

/-- An announced interface that is not there is looked for behind the buffer, and behind an
empty block the search goes on for ever. -/
theorem createOpRepList_malformed :
    (∀ fuel r, createOpRepList fuel (Vector.replicate 18 0)
      [9, 2, 9, 0, 1, 1, 0, 0x80, 50] ≠ .ok r) ∧
    ∀ fuel, createOpRepList fuel (Vector.replicate 18 0)
      [9, 2, 11, 0, 1, 1, 0, 0x80, 50, 0, 5] = .error .diverged := by
  constructor
  · intro fuel r h
    obtain ⟨-, qs, l, hqs, hvisits, -⟩ := createOpRepList_iff.mp ⟨fuel, h⟩
    obtain ⟨q, rfl⟩ := List.length_eq_one_iff.mp hqs
    cases hvisits with
    | skip hskip => exact hskip (by decide)
    | stop hstop hfit => exact absurd (hfit.of_stop hstop) (by decide)
  · intro fuel
    have hself : Leads (skipBlock [9, 2, 11, 0, 1, 1, 0, 0x80, 50, 0, 5]) 9 9 :=
      skipBlock_some.mpr (by decide)
    have hroom : ∀ w ∈ devlistFields (Vector.replicate 18 0) 1 1,
        w.1 + w.2.length ≤ (List.replicate (devlistSize 1) (0 : UInt8)).length := fun w hw ↦
      (devlistFields_bounds w hw).trans (List.length_replicate.symm ▸ by decide)
    obtain ⟨l, hl⟩ := storeAll_exists (f := Fault.badPointer) hroom
    refine bind_eq_error.mpr (.inr ⟨1, rfl, bind_eq_error.mpr (.inr ⟨1, rfl, ?_⟩)⟩)
    refine bind_eq_error.mpr (.inr ⟨l, hl, bind_eq_error.mpr (.inr ⟨9, rfl, ?_⟩)⟩)
    exact bind_eq_error.mpr (.inl (bind_eq_error.mpr (.inl (search_of_leads_self hself))))

end BiMpp.Usbip
