import BiMpp.Firmware.Main

/-!
# Bus resets

`hcd_bus_reset` sets a flag through the guard that every packet passes, and the main loop of
the firmware finds it and starts over, with the events and the control state it had:
`bi-mpp-pic24-usb-simulator-master/src/hcd.c:245–250`, `src/usb_lib_usbip.c:107–113,239`,
`pic_usb_device.X/main.c:312–316,379–390`.
-/

namespace BiMpp.Firmware
open BiMpp.Usb BiMpp.Base BiMpp.Device

/-! ### The default state -/

/-- Address 0, packets are let through, and endpoint 0 is armed for SETUP. -/
def Default (d : UsbLib) : Prop :=
  d.u1addr = 0 ∧ d.pktdis = false ∧ ∃ e, d.bdt[0]? = some e ∧ ArmedFor e .setup

/-- A transaction that the device acknowledged. -/
def MainEvent.isAcked : MainEvent → Bool
  | (.transfer _ _ pid _ _, .response r) => UsbPid.isData pid && r.isAck
  | _ => false

/-- The number of transactions acknowledged in a history. -/
def acks (es : List MainEvent) : Nat := es.countP MainEvent.isAcked

/-- The SET_ADDRESS that a call of `usb_set_address` is for. -/
def MainEvent.addressedFor : MainEvent → Option (Option Nat)
  | (_, .addressed _ _ m) => some m
  | _ => none

/-- The SET_ADDRESSes that calls of `usb_set_address` in a history are for. -/
def addressedFor (es : List MainEvent) : List (Option Nat) := es.filterMap MainEvent.addressedFor

/-- Bus resets work. After one and the pass of the main loop that follows it, the device is
in its default state; from then on no event of a transaction before it is reported, and the
address stays 0 until the status stage, an IN transaction after the SETUP packet, of a
SET_ADDRESS that came after it; and no SET_ADDRESS sets the address twice. -/
structure Restored (es : List MainEvent) (s : Running) : Prop where
  default : ∀ past r between x, es = past ++ (.busReset, r) :: (between ++ [(.top, x)]) →
    (∀ e ∈ between, e.1 ≠ .top) → Default s.fw.lib
  reported : ∀ past after, es = past ++ (.top, .reset true) :: after →
    ∀ ep n, (.poll, .polled (some (ep, n))) ∈ after → acks past ≤ n
  address : ∀ past after, es = past ++ (.top, .reset true) :: after → s.fw.lib.u1addr ≠ 0 →
    ∃ key n m, (.process key, .addressed 0x80 n (some m)) ∈ after ∧ acks past ≤ m ∧ m < n
  once : (addressedFor es).Nodup ∧ ∀ m ∈ addressedFor es, m.isSome = true

/-- The steps at which nothing goes wrong: a bus reset finds address 0 and packets let
through, or the last one still unseen; the reset branch finds no event waiting; SET_ADDRESS
is handled while its packet is the last in the buffer; and `usb_set_address` is called at an
IN transaction, with a SET_ADDRESS waiting. -/
def Clean (s : Running) (e : MainEvent) : Prop :=
  match e.1, s.pc with
  | .busReset, _ => s.fw.lib.reset = true ∨ s.fw.lib.u1addr = 0 ∧ s.fw.lib.pktdis = false
  | .top, _ => s.fw.lib.reset = true → isTransferDone s.fw.lib = false
  | .process _, .process ep n => (takesSetAddress s.fw ep = true → s.held = n) ∧
      (callsSetAddress s.fw ep = true → ep = 0x80 ∧ s.request.isSome = true)
  | _, _ => True

instance (s : Running) (e : MainEvent) : Decidable (Clean s e) := by
  unfold Clean
  split <;> infer_instance

/-! ### The numbers of the packets -/

/-- Events wait in the order of their transactions, behind the SETUP packet of a SET_ADDRESS
that waits. -/
structure Booked (s : Running) : Prop where
  sorted : (s.waiting ++ [s.acked]).Pairwise (· < ·)
  request : ∀ m, s.request = some m → ∀ n ∈ s.waiting ++ [s.acked], m < n

namespace Booked

variable {s s' : Running} {e : MainEvent}

/-- The serial numbers are in order before the first step. -/
theorem init : Booked runningInit := by
  constructor
  · exact List.pairwise_singleton ..
  · intro m hm
    cases hm

/-- The event in hand is the first. -/
theorem first (h : Booked s) {ep : BitVec 8} {n : Nat} (hpc : s.pc = .process ep n) :
    s.waiting = n :: s.serials.contents ∧ ∀ n' ∈ s.serials.contents ++ [s.acked], n < n' := by
  have hwait : s.waiting = n :: s.serials.contents := by
    rw [Running.waiting, hpc]
  have hsorted := h.sorted
  rw [hwait, List.cons_append] at hsorted
  exact ⟨hwait, (List.pairwise_cons.mp hsorted).1⟩

private theorem ahead (h : Steady s) (hs : MainStep s e s') {n : Nat}
    (hn : n ∈ s'.waiting ++ [s'.acked]) :
    n ∈ s.waiting ++ [s.acked] ∨ s.acked < n := by
  rcases waiting_step h hs with ⟨hsub, hacked⟩ | ⟨hsub, hacked⟩
  · rw [hacked] at hn
    exact Or.inl ((hsub.append_right [s.acked]).subset hn)
  · rcases List.mem_append.mp hn with hn | hn
    · exact Or.inl (hsub.subset hn)
    · rw [List.mem_singleton.mp hn, hacked]
      exact Or.inr (Nat.lt_succ_self _)

private theorem sorted_step (h : Booked s) (hst : Steady s) (hs : MainStep s e s') :
    (s'.waiting ++ [s'.acked]).Pairwise (· < ·) := by
  rcases waiting_step hst hs with ⟨hsub, hacked⟩ | ⟨hsub, hacked⟩
  · rw [hacked]
    exact h.sorted.sublist (hsub.append_right [s.acked])
  · rw [hacked, List.pairwise_append]
    refine ⟨h.sorted.sublist hsub, List.pairwise_singleton .., ?_⟩
    intro n hn m hm
    have hn := hsub.subset hn
    rw [List.mem_singleton.mp hm]
    have hlast : n ≤ s.acked := by
      rcases List.mem_append.mp hn with hn | hn
      · exact Nat.le_of_lt ((List.pairwise_append.mp h.sorted).2.2 n hn _ (by simp))
      · exact Nat.le_of_eq (List.mem_singleton.mp hn)
    omega

/-- A step without a stray reset keeps the serial numbers in order. -/
theorem step (h : Booked s) (hst : Steady s) (hs : MainStep s e s') (hok : Clean s e) :
    Booked s' := by
  have hkeep : s'.request = s.request ∨ s'.request = none → Booked s' := by
    intro hreq
    refine ⟨h.sorted_step hst hs, ?_⟩
    intro m hm n hn
    have hm : s.request = some m := by
      rcases hreq with hreq | hreq
      · exact hreq.symm.trans hm
      · rw [hreq] at hm
        cases hm
    rcases ahead hst hs hn with hn | hn
    · exact h.request m hm n hn
    · exact Nat.lt_trans (h.request m hm s.acked (by simp)) hn
  have hsorted := h.sorted_step hst hs
  cases hs with
  | @requested ep n key hpc _ htakes =>
    refine ⟨hsorted, ?_⟩
    obtain ⟨-, hfirst⟩ := h.first hpc
    have hheld : s.held = n := by
      simp only [Clean, hpc] at hok
      exact hok.1 htakes
    intro m hm n' hn'
    cases hm
    rw [hheld]
    exact hfirst n' hn'
  | @transfer addr ep pid data size lib r =>
    apply hkeep
    unfold Running.count
    split
    · exact Or.inl rfl
    · exact Or.inl rfl
  | reset => exact hkeep (Or.inr rfl)
  | addressed => exact hkeep (Or.inr rfl)
  | _ => exact hkeep (Or.inl rfl)

end Booked

private theorem addressedFor_snoc (es : List MainEvent) (e : MainEvent) :
    addressedFor (es ++ [e]) = addressedFor es ++ (MainEvent.addressedFor e).toList := by
  rw [addressedFor, List.filterMap_append]
  cases h : MainEvent.addressedFor e <;> simp [addressedFor, h]

private theorem acks_snoc (es : List MainEvent) (e : MainEvent) :
    acks (es ++ [e]) = acks es + if MainEvent.isAcked e then 1 else 0 := by
  rw [acks, List.countP_append]
  simp [acks]

private theorem addressedFor_same {s s' : Running} {e : MainEvent} {es : List MainEvent}
    (hs : MainStep s e s') (h : ∀ key ep n m, e ≠ (.process key, .addressed ep n m)) :
    addressedFor (es ++ [e]) = addressedFor es := by
  rw [addressedFor_snoc]
  cases hs with
  | addressed => exact absurd rfl (h _ _ _ _)
  | _ => exact List.append_nil _

/-- The calls of `usb_set_address` were for packets before all that is still to come. -/
structure Addressed (es : List MainEvent) (s : Running) : Prop where
  done : ∀ x ∈ addressedFor es, ∃ m, x = some m ∧ (∀ n ∈ s.waiting ++ [s.acked], m < n) ∧
    ∀ r, s.request = some r → m < r
  nodup : (addressedFor es).Nodup
  acked : s.acked = acks es

namespace Addressed

variable {es : List MainEvent} {s s' : Running} {e : MainEvent}

/-- No request has been answered with an address before the first step. -/
theorem init : Addressed [] runningInit where
  done _ h := by cases h
  nodup := List.nodup_nil
  acked := rfl

private theorem acked_step (h : Addressed es s) (hs : MainStep s e s') :
    s'.acked = acks (es ++ [e]) := by
  rw [acks_snoc, ← h.acked]
  cases hs with
  | transfer =>
    unfold Running.count MainEvent.isAcked
    dsimp only
    split
    · rfl
    · rfl
  | _ => rfl

private theorem below_step (hst : Steady s) (hs : MainStep s e s') {m : Nat}
    (hm : ∀ n ∈ s.waiting ++ [s.acked], m < n) : ∀ n ∈ s'.waiting ++ [s'.acked], m < n := by
  intro n hn
  rcases Booked.ahead hst hs hn with hn | hn
  · exact hm n hn
  · exact Nat.lt_trans (hm s.acked (by simp)) hn

/-- A step without a stray reset adds one address at most, for a later request. -/
theorem step (h : Addressed es s) (hb : Booked s) (hst : Steady s) (hs : MainStep s e s')
    (hok : Clean s e) : Addressed (es ++ [e]) s' := by
  have hacked := h.acked_step hs
  have hbelow : ∀ {m}, (∀ n ∈ s.waiting ++ [s.acked], m < n) →
      ∀ n ∈ s'.waiting ++ [s'.acked], m < n := below_step hst hs
  -- the steps that call nothing and leave the waiting request alone or drop it
  have hquiet : (∀ key ep n m, e ≠ (.process key, .addressed ep n m)) →
      (s'.request = s.request ∨ s'.request = none) → Addressed (es ++ [e]) s' := by
    intro he hreq
    have hsame : addressedFor (es ++ [e]) = addressedFor es := addressedFor_same hs he
    refine ⟨?_, by rw [hsame]; exact h.nodup, hacked⟩
    intro x hx
    rw [hsame] at hx
    obtain ⟨m, rfl, hm, hr⟩ := h.done x hx
    refine ⟨m, rfl, hbelow hm, ?_⟩
    intro r hr'
    rcases hreq with hreq | hreq
    · exact hr r (hreq.symm.trans hr')
    · rw [hreq] at hr'
      cases hr'
  cases hs with
  | @addressed ep n key hpc hcalls =>
    simp only [Clean, hpc] at hok
    obtain ⟨m₀, hm₀⟩ := Option.isSome_iff_exists.mp (hok.2 hcalls).2
    have hlist : addressedFor (es ++ [(.process key, .addressed ep n s.request)]) =
        addressedFor es ++ [some m₀] := by
      rw [addressedFor_snoc, hm₀]
      rfl
    refine ⟨?_, ?_, hacked⟩
    · intro x hx
      rw [hlist] at hx
      have hnone : ∀ m r : Nat, (none : Option Nat) = some r → m < r := by
        intro m r hr
        cases hr
      rcases List.mem_append.mp hx with hx | hx
      · obtain ⟨m, rfl, hm, -⟩ := h.done x hx
        exact ⟨m, rfl, hbelow hm, hnone m⟩
      · exact ⟨m₀, List.mem_singleton.mp hx, hbelow (hb.request m₀ hm₀), hnone m₀⟩
    · rw [hlist]
      refine List.nodup_append.mpr ⟨h.nodup, by simp, ?_⟩
      rintro x hx y hy rfl
      obtain ⟨m, rfl, -, hr⟩ := h.done x hx
      have hlt := hr m₀ hm₀
      obtain rfl := Option.some.inj (List.mem_singleton.mp hy)
      exact Nat.lt_irrefl _ hlt
  | @requested ep n key hpc hcalls htakes =>
    have hsame : addressedFor (es ++ [(.process key, .quiet)]) = addressedFor es := by
      rw [addressedFor_snoc]
      exact List.append_nil _
    obtain ⟨hwait, -⟩ := hb.first hpc
    simp only [Clean, hpc] at hok
    refine ⟨?_, by rw [hsame]; exact h.nodup, hacked⟩
    intro x hx
    rw [hsame] at hx
    obtain ⟨m, rfl, hm, -⟩ := h.done x hx
    refine ⟨m, rfl, hbelow hm, ?_⟩
    intro r hr
    cases hr
    rw [hok.1 htakes]
    exact hm n (by simp [hwait])
  | @transfer addr ep pid data size lib r =>
    apply hquiet (by simp)
    unfold Running.count
    split
    · exact Or.inl rfl
    · exact Or.inl rfl
  | reset => exact hquiet (by simp) (Or.inr rfl)
  | _ => exact hquiet (by simp) (Or.inl rfl)

end Addressed

/-! ### After a reset -/

/-- What is so after a reset before which `k` transactions were acknowledged. -/
structure Since (k : Nat) (after : List MainEvent) (s : Running) : Prop where
  ahead : ∀ n ∈ s.waiting ++ [s.acked], k ≤ n
  request : ∀ m, s.request = some m → k ≤ m
  reported : ∀ ep n, (.poll, .polled (some (ep, n))) ∈ after → k ≤ n
  address : s.fw.lib.u1addr ≠ 0 →
    ∃ key n m, (.process key, .addressed 0x80 n (some m)) ∈ after ∧ k ≤ m ∧ m < n

namespace Since

variable {k : Nat} {after : List MainEvent} {s s' : Running} {e : MainEvent}

/-- The reset branch, entered with no event waiting. -/
theorem reset (h : Steady s) (hok : Clean s (.top, .reset true))
    (hs : MainStep s (.top, .reset true) s') : Since s.acked [] s' := by
  cases hs with
  | reset hpc hr =>
    have hnil : s.serials.contents = [] := h.contents_nil (hok hr)
    constructor
    · intro n hn
      simp only [Running.waiting, hnil, List.nil_append, List.mem_singleton] at hn
      exact Nat.le_of_eq hn.symm
    · intro m hm
      cases hm
    · intro ep n hmem
      cases hmem
    · intro haddr
      exact absurd rfl haddr

private theorem ahead_step (h : Since k after s) (hst : Steady s) (hs : MainStep s e s') :
    ∀ n ∈ s'.waiting ++ [s'.acked], k ≤ n := by
  intro n hn
  rcases Booked.ahead hst hs hn with hn | hn
  · exact h.ahead n hn
  · exact Nat.le_of_lt (Nat.lt_of_le_of_lt (h.ahead s.acked (by simp)) hn)

private theorem reported_step (h : Since k after s) (hst : Steady s) (hs : MainStep s e s') :
    ∀ ep n, (.poll, .polled (some (ep, n))) ∈ after ++ [e] → k ≤ n := by
  intro ep n hmem
  rcases List.mem_append.mp hmem with hmem | hmem
  · exact h.reported ep n hmem
  · have he := List.mem_singleton.mp hmem
    cases hs with
    | @event ep' n' hpc hq _ hn =>
      simp only [Prod.mk.injEq, MainOut.polled.injEq, Option.some.injEq, true_and] at he
      apply h.ahead
      have hwait : s.waiting = s.serials.contents := by rw [Running.waiting, hpc]
      rw [hwait, hst.contents hq, he.2, hn]
      simp
    | _ => cases he

private theorem keep (h : Since k after s) (haddr : s'.fw.lib.u1addr = s.fw.lib.u1addr) :
    s'.fw.lib.u1addr ≠ 0 →
      ∃ key n m, (.process key, .addressed 0x80 n (some m)) ∈ after ++ [e] ∧ k ≤ m ∧ m < n := by
  intro hne
  rw [haddr] at hne
  obtain ⟨key, n, m, hmem, hm⟩ := h.address hne
  exact ⟨key, n, m, List.mem_append_left _ hmem, hm⟩

/-- What is known since a bus reset is still known a step later. -/
theorem step (h : Since k after s) (hst : Steady s) (hb : Booked s) (hs : MainStep s e s')
    (hok : Clean s e) : Since k (after ++ [e]) s' := by
  have hahead := h.ahead_step hst hs
  have hreported := h.reported_step hst hs
  cases hs with
  | busReset ht =>
    exact ⟨hahead, h.request, hreported, h.keep (usbTransfer_fixed ht).1⟩
  | @transfer addr ep pid data size lib r _ ht =>
    refine ⟨hahead, ?_, hreported, h.keep ?_⟩
    · unfold Running.count
      split
      · exact h.request
      · exact h.request
    · unfold Running.count
      split
      · exact (usbTransfer_fixed ht).1
      · exact (usbTransfer_fixed ht).1
  | reset =>
    refine ⟨hahead, ?_, hreported, fun hne ↦ absurd rfl hne⟩
    intro m hm
    cases hm
  | pass => exact ⟨hahead, h.request, hreported, h.keep rfl⟩
  | idle _ hlib =>
    subst hlib
    exact ⟨hahead, h.request, hreported, h.keep rfl⟩
  | event => exact ⟨hahead, h.request, hreported, h.keep rfl⟩
  | @addressed ep n key hpc hcalls =>
    simp only [Clean, hpc] at hok
    obtain ⟨rfl, hsome⟩ := hok.2 hcalls
    obtain ⟨m, hm⟩ := Option.isSome_iff_exists.mp hsome
    refine ⟨hahead, ?_, hreported, fun _ ↦ ⟨key, n, m, ?_, h.request m hm, ?_⟩⟩
    · intro m' hm'
      cases hm'
    · rw [← hm]
      exact List.mem_append_right _ (List.mem_singleton_self _)
    · exact hb.request m hm n (by simp [(hb.first hpc).1])
  | @requested ep n key hpc hcalls htakes =>
    simp only [Clean, hpc] at hok
    refine ⟨hahead, ?_, hreported, h.keep ((processEvent_frame s.fw ep key).2 hcalls)⟩
    intro m hm
    cases hm
    rw [hok.1 htakes]
    exact h.ahead n (by simp [(hb.first hpc).1])
  | @processed ep n key _ hcalls =>
    exact ⟨hahead, h.request, hreported, h.keep ((processEvent_frame s.fw ep key).2 hcalls)⟩

end Since

/-! ### Every run -/

private theorem reset_kept {s s' : Running} {e : MainEvent} (hs : MainStep s e s')
    (htop : e.1 ≠ .top) (hreset : s.fw.lib.reset = true) : s'.fw.lib.reset = true := by
  cases hs with
  | busReset ht => exact (usbTransfer_fixed ht).2.2.2 hreset
  | @transfer addr ep pid data size lib r _ ht =>
    unfold Running.count
    split
    · exact (usbTransfer_fixed ht).2.2.2 hreset
    · exact (usbTransfer_fixed ht).2.2.2 hreset
  | reset => exact absurd rfl htop
  | pass => exact absurd rfl htop
  | idle _ hlib =>
    subst hlib
    exact hreset
  | event => exact hreset
  | @addressed ep _ key => exact (processEvent_frame s.fw ep key).1.reset.trans hreset
  | @requested ep _ key => exact (processEvent_frame s.fw ep key).1.reset.trans hreset
  | @processed ep _ key => exact (processEvent_frame s.fw ep key).1.reset.trans hreset

private theorem busReset_seen {s s' : Running} {r : MainOut} (h : Steady s)
    (hs : MainStep s (.busReset, r) s') (hok : Clean s (.busReset, r)) :
    s'.fw.lib.reset = true := by
  cases hs with
  | busReset ht =>
    rcases hok with hreset | ⟨haddr, hpktdis⟩
    · exact (usbTransfer_fixed ht).2.2.2 hreset
    · have hpasses : s.fw.lib.refuses 0 0 = false := by
        simp [UsbLib.refuses, UsbLib.bdtSize, h.usben, h.eps, haddr, hpktdis]
      have hepn : ((0 : BitVec 8) &&& 0x0F).toNat = 0 := by decide
      simp only [usbTransfer, hepn, hpasses] at ht
      cases ht
      rfl

/-- A bus reset that the guard refuses leaves a device that is not in its default state as it
is. -/
theorem Steady.refused {s s' s'' : Running} {r x : MainOut} (h : Steady s)
    (hreset : s.fw.lib.reset = false)
    (href : ¬ (s.fw.lib.u1addr = 0 ∧ s.fw.lib.pktdis = false))
    (hs : MainStep s (.busReset, r) s') (ht : MainStep s' (.top, x) s'') :
    ¬ Default s''.fw.lib := by
  have hrefuses : s.fw.lib.refuses 0 0 = true := by
    by_contra hno
    apply href
    simp only [UsbLib.refuses, h.usben, Bool.not_true, Bool.false_or, Bool.or_eq_true,
      decide_eq_true_eq, not_or, not_not, Bool.not_eq_true] at hno
    obtain ⟨⟨-, haddr⟩, hpktdis⟩ := hno
    refine ⟨?_, hpktdis⟩
    apply BitVec.eq_of_toInt_eq
    exact haddr.symm
  have hsame : s'.fw.lib = s.fw.lib := by
    cases hs with
    | busReset hu =>
      have hepn : ((0 : BitVec 8) &&& 0x0F).toNat = 0 := by decide
      simp only [usbTransfer, hepn, hrefuses] at hu
      cases hu
      rfl
  cases ht with
  | reset _ hr =>
    rw [hsame, hreset] at hr
    cases hr
  | pass =>
    rintro ⟨haddr, hpktdis, -⟩
    apply href
    rw [← hsame]
    exact ⟨haddr, hpktdis⟩

private theorem default_mainReset {fw : PicUsbDevice} (h : fw.lib.bdt.length = 3) :
    Default (mainReset fw).lib := by
  refine ⟨rfl, rfl, ?_⟩
  have hzero : 0 < (usbInitEp (usbReset fw.lib) 0 epSetupInout).bdt.length := by
    simp [usbInitEp, usbReset, clearAllEps, h]
  refine ⟨(usbInitEp (usbReset fw.lib) 0 epSetupInout).bdt[0].start usbTrnSetup ep0BufOut
    ep0OutBufSize, ?_, ?_⟩
  · rw [mainReset, PicUsbDevice.start, usbEpTransfStart_entry, if_pos rfl,
      List.getElem?_eq_getElem hzero]
    rfl
  · rfl

section Run

variable {es : List MainEvent} {s : Running}

private theorem booked_of_run
    (h : Run (Guarded (Fires mainExec) Clean) runningInit es s) :
    Steady s ∧ Booked s ∧ Addressed es s := by
  refine Run.invariant (P := fun es s ↦ Steady s ∧ Booked s ∧ Addressed es s) ?_ ?_ h
  · exact ⟨.init, .init, .init⟩
  · rintro es s e s' - ⟨hst, hb, ha⟩ ⟨hfire, hok⟩
    have hstep : MainStep s e s' := mainStep_of_exec hfire
    exact ⟨hst.step hstep, hb.step hst hstep hok, ha.step hb hst hstep hok⟩

private theorem since_of_run {past after : List MainEvent}
    (h : Run (Guarded (Fires mainExec) Clean) runningInit (past ++ (.top, .reset true) :: after)
      s) : Since (acks past) after s := by
  obtain ⟨m, m', hpast, ⟨hfire, hok⟩, hafter⟩ := h.fired
  obtain ⟨hst, hb, ha⟩ := booked_of_run hpast
  have hreset : MainStep m _ m' := mainStep_of_exec hfire
  have hfirst := Since.reset hst hok hreset
  rw [ha.acked] at hfirst
  have hall : Steady s ∧ Booked s ∧ Since (acks past) after s := by
    refine Run.invariant (P := fun after s ↦ Steady s ∧ Booked s ∧ Since (acks past) after s)
      ?_ ?_ hafter
    · exact ⟨hst.step hreset, hb.step hst hreset hok, hfirst⟩
    · rintro after s e s' - ⟨hst, hb, hsince⟩ ⟨hfire, hok⟩
      have hstep : MainStep s e s' := mainStep_of_exec hfire
      exact ⟨hst.step hstep, hb.step hst hstep hok, hsince.step hst hb hstep hok⟩
  exact hall.2.2

private theorem default_of_run {past between : List MainEvent} {r x : MainOut}
    (h : Run (Guarded (Fires mainExec) Clean) runningInit
      (past ++ (.busReset, r) :: (between ++ [(.top, x)])) s)
    (htop : ∀ e ∈ between, e.1 ≠ .top) : Default s.fw.lib := by
  obtain ⟨m, m', hpast, ⟨hfire, hok⟩, hafter⟩ := h.fired
  obtain ⟨hst, -, -⟩ := booked_of_run hpast
  have hbus : MainStep m _ m' := mainStep_of_exec hfire
  obtain ⟨q, hbetween, hfire', -⟩ := hafter.last
  -- the flag survives until the test
  have hseen : Steady q ∧ ((∀ e ∈ between, e.1 ≠ .top) → q.fw.lib.reset = true) := by
    refine Run.invariant (P := fun es q ↦ Steady q ∧
      ((∀ e ∈ es, e.1 ≠ .top) → q.fw.lib.reset = true)) ?_ ?_ hbetween
    · exact ⟨hst.step hbus, fun _ ↦ busReset_seen hst hbus hok⟩
    · rintro es s e s' - ⟨hst, hseen⟩ ⟨hfire, -⟩
      have hstep : MainStep s e s' := mainStep_of_exec hfire
      refine ⟨hst.step hstep, fun hall ↦ ?_⟩
      exact reset_kept hstep (hall e (by simp)) (hseen fun e he ↦ hall e (by simp [he]))
  have htest : MainStep q _ s := mainStep_of_exec hfire'
  have hreset := hseen.2 htop
  cases htest with
  | reset => exact default_mainReset hseen.1.eps
  | pass _ hno =>
    rw [hreset] at hno
    cases hno

end Run

/-- In every run whose steps are clean, bus resets work. -/
theorem MainRun.restored {es : List MainEvent} {s : Running}
    (h : Run (Guarded (Fires mainExec) Clean) runningInit es s) : Restored es s := by
  obtain ⟨-, -, ha⟩ := booked_of_run h
  constructor
  · rintro past r between x rfl htop
    exact default_of_run h htop
  · rintro past after rfl
    exact (since_of_run h).reported
  · rintro past after rfl
    exact (since_of_run h).address
  · refine ⟨ha.nodup, fun x hx ↦ ?_⟩
    obtain ⟨m, rfl, -⟩ := ha.done x hx
    rfl

private def addressOps : List MainOp :=
  [.busReset, .top, .poll, .transfer 0 0 .setup [0, 5, 1, 0, 0, 0, 0, 0] 8, .top, .poll,
    .process 0, .transfer 0 0x80 .data1 [] 64, .top, .poll, .process 0]

/-- A SET_ADDRESS behind a bus reset gives the firmware address 1. -/
theorem MainRun.restored_example : ∃ es s,
    Run (Guarded (Fires mainExec) Clean) runningInit es s ∧ s.fw.lib.u1addr = 1 ∧
    Restored es s := by
  have hcheck : runsTo (guardedExec mainExec Clean .blocked) runningInit addressOps
      (fun s _ ↦ decide (s.fw.lib.u1addr = 1)) = true := by decide +kernel
  obtain ⟨es, s, hrun, hp⟩ := Run.of_runsTo hcheck
  have hrun' := Run.of_guardedExec hrun
  exact ⟨es, s, hrun', of_decide_eq_true hp, MainRun.restored hrun'⟩

/-- A device with an address takes no notice of a bus reset. -/
theorem MainRun.reset_refused : ¬ ∀ es s, MainRun es s → Restored es s := by
  intro hall
  have hcheck : runsTo mainExec runningInit (addressOps ++ [.busReset, .top]) (fun s es ↦
      decide (es.drop 11 = [(.busReset, .response .err), (.top, .reset false)] ∧
        s.fw.lib.u1addr = 1)) = true := by decide +kernel
  obtain ⟨es, s, hrun, hp⟩ := Run.of_runsTo hcheck
  obtain ⟨hlast, haddr⟩ := of_decide_eq_true hp
  have hes : es = es.take 11 ++ (.busReset, .response .err) :: ([] ++ [(.top, .reset false)]) := by
    rw [List.nil_append, ← hlast, List.take_append_drop]
  obtain ⟨hzero, -⟩ := (hall es s hrun).default _ _ _ _ hes (by simp)
  rw [haddr] at hzero
  cases hzero

end BiMpp.Firmware
