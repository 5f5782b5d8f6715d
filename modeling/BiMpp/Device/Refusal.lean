import BiMpp.Device.Transaction

/-!
# Refused transactions

`__usb_transfer` refuses at its guard and at five points behind it, and a SETUP packet has
disabled packets by then: `bi-mpp-pic24-usb-simulator-master/src/usb_lib_usbip.c:239–287`.
The host repeats what was refused, `src/hcd.c:222–233`.
-/

namespace BiMpp.Device
open BiMpp.Usb BiMpp.Base

/-- An OUT entry refuses: it is not armed, takes the toggle for wrong, or has too short a
buffer; `usb_lib_usbip.c:260–269`. -/
def UsbLib.outRefuses (d : UsbLib) (e : EpBufDsc) (pid : UsbPid) (size : Int) : Bool :=
  !e.out.owned || e.out.wrongToggle pid ||
    match d.buffers[e.out.addr]? with
    | none => false
    | some b => decide (b.size < size)

/-- An IN entry refuses: it is not armed, or is armed for more than its buffer holds;
`usb_lib_usbip.c:281–287`. -/
def UsbLib.inRefuses (d : UsbLib) (e : EpBufDsc) : Bool :=
  !e.inn.owned ||
    match d.buffers[e.inn.addr]? with
    | none => false
    | some b => decide (b.size < (e.inn.cnt.toNat : Int))

/-- A declared endpoint refuses what the guard has let through; a SETUP packet needs an armed
OUT entry in either direction; `usb_lib_usbip.c:252–287`. -/
def UsbLib.turnsAway (d : UsbLib) (ep : BitVec 8) (pid : UsbPid) (size : Int) : Bool :=
  match d.bdt[epNumber ep]? with
  | none => false
  | some e =>
    (pid == .setup && !e.out.owned) ||
      if ep &&& 0x80 = 0 then d.outRefuses e pid size else d.inRefuses e

/-- What a data packet reads behind the guard is there: the endpoint is declared and, where the
code goes on to the buffer of its entry, so is that buffer; `usb_lib_usbip.c:252–287`. -/
def UsbLib.reaches (d : UsbLib) (ep : BitVec 8) (pid : UsbPid) : Bool :=
  match d.bdt[epNumber ep]? with
  | none => false
  | some e =>
    (pid == .setup && !e.out.owned) ||
      if ep &&& 0x80 = 0 then
        !e.out.owned || e.out.wrongToggle pid || d.buffers[e.out.addr]?.isSome
      else !e.inn.owned || d.buffers[e.inn.addr]?.isSome

/-- The bytes that an endpoint is armed for in the direction of its address. -/
def UsbLib.count (d : UsbLib) (ep : BitVec 8) : Nat :=
  match d.bdt[epNumber ep]? with
  | none => 0
  | some e => if ep &&& 0x80 = 0 then e.out.cnt.toNat else e.inn.cnt.toNat

/-- The call comes back and, if its answer is NAK or ERR, the device and the host's buffer are
as before, and the same packet once more gets the same answer. -/
def Harmless (d : UsbLib) (addr : Int) (ep : BitVec 8) (pid : UsbPid) (data : List UInt8)
    (size : Int) : Prop :=
  ∃ d' r, usbTransfer d addr ep pid data size = .ok (d', r) ∧
    (r = .nak ∨ r = .err → d' = d ∧ writeAt data 0 r.bytes = data ∧
      usbTransfer d' addr ep pid data size = .ok (d', r))

section Refusal

variable {d d' : UsbLib} {addr size : Int} {ep : BitVec 8} {pid : UsbPid} {data : List UInt8}
  {r : Response} {e : EpBufDsc}

private theorem outTransfer_refused (he : d.bdt[epNumber ep]? = some e)
    (h : d.outRefuses e pid size = true) : ∃ r, (r = .nak ∨ r = .err) ∧
      outTransfer d ep (epNumber ep) pid data size = .ok (d, r) := by
  unfold UsbLib.outRefuses at h
  unfold outTransfer
  simp only [he]
  by_cases hown : e.out.owned = true
  · by_cases htoggle : e.out.wrongToggle pid = true
    · exact ⟨.err, .inr rfl, by simp [hown, htoggle]⟩
    · cases hb : d.buffers[e.out.addr]? with
      | none => simp [hown, htoggle, hb] at h
      | some b =>
        have hsize : b.size < size := by simpa [hown, htoggle, hb] using h
        exact ⟨.err, .inr rfl, by simp [hown, htoggle, hsize]⟩
  · exact ⟨.nak, .inl rfl, by simp [hown]⟩

private theorem outTransfer_acked (he : d.bdt[epNumber ep]? = some e)
    (href : d.outRefuses e pid size = false)
    (h : outTransfer d ep (epNumber ep) pid data size = .ok (d', r)) : r.isAck = true := by
  simp only [UsbLib.outRefuses, Bool.or_eq_false_iff] at href
  obtain ⟨⟨hown, htoggle⟩, hsize⟩ := href
  simp only [outTransfer, he, hown, htoggle, Bool.false_eq_true, if_false] at h
  cases hb : d.buffers[e.out.addr]? with
  | none => simp [hb] at h
  | some b =>
    rw [hb, decide_eq_false_iff_not] at hsize
    simp only [hb, gt_iff_lt, if_neg hsize] at h
    cases h
    rfl

private theorem inTransfer_refused (he : d.bdt[epNumber ep]? = some e)
    (h : d.inRefuses e = true) : ∃ r, (r = .nak ∨ r = .err) ∧
      inTransfer d ep (epNumber ep) pid size = .ok (d, r) := by
  unfold UsbLib.inRefuses at h
  unfold inTransfer
  simp only [he]
  by_cases hown : e.inn.owned = true
  · cases hb : d.buffers[e.inn.addr]? with
    | none => simp [hown, hb] at h
    | some b =>
      have hsize : b.size < (e.inn.cnt.toNat : Int) := by simpa [hown, hb] using h
      exact ⟨.err, .inr rfl, by simp [hown, hsize]⟩
  · exact ⟨.nak, .inl rfl, by simp [hown]⟩

private theorem inTransfer_acked (he : d.bdt[epNumber ep]? = some e)
    (href : d.inRefuses e = false)
    (h : inTransfer d ep (epNumber ep) pid size = .ok (d', r)) : r.isAck = true := by
  simp only [UsbLib.inRefuses, Bool.or_eq_false_iff] at href
  obtain ⟨hown, hsize⟩ := href
  simp only [inTransfer, he, hown, Bool.false_eq_true, if_false] at h
  cases hb : d.buffers[e.inn.addr]? with
  | none => simp [hb] at h
  | some b =>
    rw [hb, decide_eq_false_iff_not] at hsize
    simp only [hb, gt_iff_lt, if_neg hsize] at h
    cases h
    rfl

private theorem unchanged (h : usbTransfer d addr ep pid data size = .ok (d', r)) (hd : d' = d)
    (hr : r = .nak ∨ r = .err) :
    d' = d ∧ writeAt data 0 r.bytes = data ∧
      usbTransfer d' addr ep pid data size = .ok (d', r) := by
  have hbytes : r.bytes = [] := by
    rcases hr with rfl | rfl <;> rfl
  refine ⟨hd, ?_, ?_⟩
  · rw [hbytes, writeAt]
    simp
  · rw [hd] at h ⊢
    exact h

private theorem outRefuses_seen : (d.seen pid).outRefuses e pid size = d.outRefuses e pid size := by
  unfold UsbLib.outRefuses
  rw [UsbLib.seen_buffers]

private theorem inRefuses_seen : (d.seen pid).inRefuses e = d.inRefuses e := by
  unfold UsbLib.inRefuses
  rw [UsbLib.seen_buffers]

private theorem transfer_refused (hpid : UsbPid.isData pid = true)
    (href : d.refuses addr (epNumber ep) = false) (haway : d.turnsAway ep pid size = true) :
    ∃ r, (r = .nak ∨ r = .err) ∧
      usbTransfer d addr ep pid data size = .ok (d.seen pid, r) := by
  unfold UsbLib.turnsAway at haway
  cases he : d.bdt[epNumber ep]? with
  | none => simp [he] at haway
  | some e =>
    have hseen : (d.seen pid).bdt[epNumber ep]? = some e := by rw [UsbLib.seen_bdt, he]
    by_cases hsetup : pid = .setup ∧ e.out.owned = false
    · obtain ⟨rfl, hown⟩ := hsetup
      unfold epNumber at href he
      refine ⟨.err, .inr rfl, ?_⟩
      simp only [usbTransfer, href, Bool.false_eq_true, if_false, he, hown, Bool.not_false, if_true]
      rfl
    · have hown : pid = .setup → e.out.owned = true := by
        intro hp
        by_contra ho
        exact hsetup ⟨hp, Bool.eq_false_iff.mpr ho⟩
      have hfirst : (pid == .setup && !e.out.owned) = false := by simpa using hsetup
      simp only [he, hfirst, Bool.false_or] at haway
      rw [usbTransfer_data hpid href he hown]
      split at haway
      · next hdir =>
        rw [if_pos hdir]
        exact outTransfer_refused hseen (outRefuses_seen.trans haway)
      · next hdir =>
        rw [if_neg hdir]
        exact inTransfer_refused hseen (inRefuses_seen.trans haway)

private theorem transfer_acked (hpid : UsbPid.isData pid = true)
    (href : d.refuses addr (epNumber ep) = false) (haway : d.turnsAway ep pid size = false)
    (h : usbTransfer d addr ep pid data size = .ok (d', r)) : r.isAck = true := by
  unfold UsbLib.turnsAway at haway
  cases he : d.bdt[epNumber ep]? with
  | none =>
    rw [usbTransfer_outside hpid href he] at h
    cases h
  | some e =>
    have hseen : (d.seen pid).bdt[epNumber ep]? = some e := by rw [UsbLib.seen_bdt, he]
    simp only [he, Bool.or_eq_false_iff] at haway
    obtain ⟨hfirst, haway⟩ := haway
    have hown : pid = .setup → e.out.owned = true := by
      rintro rfl
      simpa using hfirst
    rw [usbTransfer_data hpid href he hown] at h
    split at haway
    · next hdir =>
      rw [if_pos hdir] at h
      exact outTransfer_acked hseen (outRefuses_seen.trans haway) h
    · next hdir =>
      rw [if_neg hdir] at h
      exact inTransfer_acked hseen (inRefuses_seen.trans haway) h

private theorem transfer_other (h : usbTransfer d addr ep pid data size = .ok (d', r))
    (hother : d.refuses addr (epNumber ep) = true ∨ UsbPid.isData pid = false)
    (hr : r = .nak ∨ r = .err) : d' = d := by
  unfold epNumber at hother
  simp only [usbTransfer] at h
  split at h
  · cases h
    rfl
  · next href =>
    have hpid : UsbPid.isData pid = false := hother.resolve_left href
    cases pid with
    | reset =>
      cases h
      rcases hr with hr | hr <;> cases hr
    | sof =>
      cases h
      rcases hr with hr | hr <;> cases hr
    | _ => cases hpid

private theorem transfer_answers
    (hother : d.refuses addr (epNumber ep) = true ∨ UsbPid.isData pid = false) :
    ∃ d' r, usbTransfer d addr ep pid data size = .ok (d', r) := by
  unfold epNumber at hother
  simp only [usbTransfer]
  split
  · exact ⟨_, _, rfl⟩
  · next href =>
    have hpid : UsbPid.isData pid = false := hother.resolve_left href
    cases pid with
    | reset => exact ⟨_, _, rfl⟩
    | sof => exact ⟨_, _, rfl⟩
    | _ => cases hpid

private theorem exists_of_isOk {x : Except Fault (UsbLib × Response)} (h : x.isOk = true) :
    ∃ d' r, x = .ok (d', r) := by
  cases x with
  | error f => cases h
  | ok y => exact ⟨y.1, y.2, rfl⟩

private theorem outTransfer_isOk (he : d.bdt[epNumber ep]? = some e) :
    (outTransfer d ep (epNumber ep) pid data size).isOk =
      (!e.out.owned || e.out.wrongToggle pid || d.buffers[e.out.addr]?.isSome) := by
  simp only [outTransfer, he]
  by_cases hown : e.out.owned = true
  · by_cases htoggle : e.out.wrongToggle pid = true
    · simp [hown, htoggle, Except.isOk, Except.toBool]
    · cases hb : d.buffers[e.out.addr]? with
      | none => simp [hown, htoggle, Except.isOk, Except.toBool]
      | some b =>
        simp only [hown, htoggle, Bool.not_true, Bool.false_eq_true, if_false]
        split <;> rfl
  · simp [hown, Except.isOk, Except.toBool]

private theorem inTransfer_isOk (he : d.bdt[epNumber ep]? = some e) :
    (inTransfer d ep (epNumber ep) pid size).isOk =
      (!e.inn.owned || d.buffers[e.inn.addr]?.isSome) := by
  simp only [inTransfer, he]
  by_cases hown : e.inn.owned = true
  · cases hb : d.buffers[e.inn.addr]? with
    | none => simp [hown, Except.isOk, Except.toBool]
    | some b =>
      simp only [hown, Bool.not_true, Bool.false_eq_true, if_false]
      split <;> rfl
  · simp [hown, Except.isOk, Except.toBool]

private theorem transfer_isOk (hpid : UsbPid.isData pid = true)
    (href : d.refuses addr (epNumber ep) = false) :
    (usbTransfer d addr ep pid data size).isOk = d.reaches ep pid := by
  unfold UsbLib.reaches
  cases he : d.bdt[epNumber ep]? with
  | none => rw [usbTransfer_outside hpid href he]; rfl
  | some e =>
    have hseen : (d.seen pid).bdt[epNumber ep]? = some e := by rw [UsbLib.seen_bdt, he]
    by_cases hsetup : pid = .setup ∧ e.out.owned = false
    · obtain ⟨rfl, hown⟩ := hsetup
      unfold epNumber at href he
      simp only [usbTransfer, href, Bool.false_eq_true, if_false, he, hown, Bool.not_false, if_true]
      rfl
    · have hown : pid = .setup → e.out.owned = true := by
        intro hp
        by_contra ho
        exact hsetup ⟨hp, Bool.eq_false_iff.mpr ho⟩
      have hfirst : (pid == .setup && !e.out.owned) = false := by simpa using hsetup
      rw [usbTransfer_data hpid href he hown]
      simp only [hfirst, Bool.false_or]
      split
      · rw [outTransfer_isOk hseen, UsbLib.seen_buffers]
      · rw [inTransfer_isOk hseen, UsbLib.seen_buffers]

private theorem outTransfer_count {n : Int} {bytes : List UInt8}
    (he : d.bdt[epNumber ep]? = some e)
    (h : outTransfer d ep (epNumber ep) pid data size = .ok (d', .ack n bytes)) :
    n = min (e.out.cnt.toNat : Int) size := by
  simp only [outTransfer, he] at h
  split at h
  · cases h
  · split at h
    · cases h
    · split at h
      · cases h
      · split at h
        · cases h
        · cases h
          rfl

private theorem inTransfer_count {n : Int} {bytes : List UInt8}
    (he : d.bdt[epNumber ep]? = some e)
    (h : inTransfer d ep (epNumber ep) pid size = .ok (d', .ack n bytes)) :
    n = min (e.inn.cnt.toNat : Int) size := by
  simp only [inTransfer, he] at h
  split at h
  · cases h
  · split at h
    · cases h
    · split at h
      · cases h
      · cases h
        rfl

private theorem transfer_count {n : Int} {bytes : List UInt8} (hpid : UsbPid.isData pid = true)
    (href : d.refuses addr (epNumber ep) = false) (haway : d.turnsAway ep pid size = false)
    (h : usbTransfer d addr ep pid data size = .ok (d', .ack n bytes)) :
    n = min (d.count ep : Int) size := by
  unfold UsbLib.turnsAway at haway
  unfold UsbLib.count
  cases he : d.bdt[epNumber ep]? with
  | none =>
    rw [usbTransfer_outside hpid href he] at h
    cases h
  | some e =>
    have hseen : (d.seen pid).bdt[epNumber ep]? = some e := by rw [UsbLib.seen_bdt, he]
    simp only [he, Bool.or_eq_false_iff] at haway
    have hown : pid = .setup → e.out.owned = true := by
      rintro rfl
      simpa using haway.1
    rw [usbTransfer_data hpid href he hown] at h
    dsimp only
    split at h
    · next hdir =>
      rw [if_pos hdir]
      exact outTransfer_count hseen h
    · next hdir =>
      rw [if_neg hdir]
      exact inTransfer_count hseen h

/-- A data packet comes back, and moves as many bytes as `P` allows, exactly if the guard refuses
it, or what it reads is there and the endpoint turns it away or is armed for so many. -/
theorem usbTransfer_moves_iff {P : Int → Prop} (hpid : UsbPid.isData pid = true) :
    (∃ d' r, usbTransfer d addr ep pid data size = .ok (d', r) ∧
        ∀ n bytes, r = .ack n bytes → P n) ↔
      d.refuses addr (epNumber ep) = true ∨ d.reaches ep pid = true ∧
        (d.turnsAway ep pid size = true ∨ P (min (d.count ep : Int) size)) := by
  by_cases href : d.refuses addr (epNumber ep) = true
  · refine iff_of_true ⟨d, .err, ?_, fun n bytes hr ↦ by cases hr⟩ (.inl href)
    unfold epNumber at href
    simp only [usbTransfer, href, if_true]
  · rw [Bool.not_eq_true] at href
    have hok : (usbTransfer d addr ep pid data size).isOk = d.reaches ep pid :=
      transfer_isOk hpid href
    simp only [href, Bool.false_eq_true, false_or]
    constructor
    · rintro ⟨d', r, htransfer, hmoves⟩
      rw [htransfer] at hok
      refine ⟨hok.symm, ?_⟩
      cases haway : d.turnsAway ep pid size with
      | true => exact .inl rfl
      | false =>
        have hack := transfer_acked hpid href haway htransfer
        cases r with
        | ack n bytes =>
          rw [← transfer_count hpid href haway htransfer]
          exact .inr (hmoves n bytes rfl)
        | nak => cases hack
        | err => cases hack
        | stall => cases hack
    · rintro ⟨hreach, hmoves⟩
      rw [hreach] at hok
      obtain ⟨d', r, htransfer⟩ := exists_of_isOk hok
      refine ⟨d', r, htransfer, ?_⟩
      rintro n bytes rfl
      cases haway : d.turnsAway ep pid size with
      | true =>
        obtain ⟨r', hr, hrefused⟩ := transfer_refused hpid href haway
        rw [htransfer] at hrefused
        cases hrefused
        rcases hr with hr | hr <;> cases hr
      | false =>
        rw [transfer_count hpid href haway htransfer]
        rw [haway] at hmoves
        exact hmoves.resolve_left (by decide)

end Refusal

/-- A refused transaction changes nothing exactly if the guard refuses it, or what it reads
behind the guard is there and it is no SETUP that the endpoint turns away: that one has
disabled packets. -/
theorem harmless_iff (d : UsbLib) (addr : Int) (ep : BitVec 8) (pid : UsbPid)
    (data : List UInt8) (size : Int) : Harmless d addr ep pid data size ↔
      d.refuses addr (epNumber ep) = true ∨ UsbPid.isData pid = false ∨
        d.reaches ep pid = true ∧ ¬ (pid = .setup ∧ d.turnsAway ep pid size = true) := by
  by_cases hother : d.refuses addr (epNumber ep) = true ∨ UsbPid.isData pid = false
  · refine iff_of_true ?_ (hother.imp_right .inl)
    obtain ⟨d', r, htransfer⟩ : ∃ d' r, usbTransfer d addr ep pid data size = .ok (d', r) :=
      transfer_answers hother
    exact ⟨d', r, htransfer, fun hr ↦ unchanged htransfer (transfer_other htransfer hother hr) hr⟩
  · rw [not_or, Bool.not_eq_true, Bool.not_eq_false] at hother
    obtain ⟨href, hpid⟩ := hother
    have hok : (usbTransfer d addr ep pid data size).isOk = d.reaches ep pid :=
      transfer_isOk hpid href
    simp only [href, hpid, Bool.false_eq_true, Bool.true_eq_false, false_or]
    constructor
    · rintro ⟨d', r, htransfer, h⟩
      rw [htransfer] at hok
      refine ⟨hok.symm, ?_⟩
      rintro ⟨rfl, haway⟩
      have haway : d.turnsAway ep .setup size = true := haway
      obtain ⟨r', hr, hrefused⟩ := transfer_refused rfl href haway
      cases htransfer.symm.trans hrefused
      have hdis : d.pktdis = true := congrArg UsbLib.pktdis (h hr).1.symm
      simp [UsbLib.refuses, hdis] at href
    · rintro ⟨hreach, hnot⟩
      rw [hreach] at hok
      obtain ⟨d', r, htransfer⟩ := exists_of_isOk hok
      refine ⟨d', r, htransfer, fun hr ↦ unchanged htransfer ?_ hr⟩
      cases haway : d.turnsAway ep pid size with
      | true =>
        obtain ⟨r', -, h⟩ := transfer_refused hpid href haway
        have hd : d' = d.seen pid := congrArg Prod.fst (Except.ok.inj (htransfer.symm.trans h))
        rw [hd, UsbLib.seen, if_neg fun hsetup ↦ hnot ⟨hsetup, haway⟩]
      | false =>
        have hack := transfer_acked hpid href haway htransfer
        rcases hr with rfl | rfl <;> cases hack

/-- A SETUP packet to a declared endpoint that is not armed is refused, and disables packets. -/
theorem refused_setup_harms :
    usbTransfer (usbEnable (usbInit 1 [])) 0 0 .setup (List.replicate 8 0) 8 =
        .ok ({ usbEnable (usbInit 1 []) with pktdis := true }, .err) ∧
      ¬ Harmless (usbEnable (usbInit 1 [])) 0 0 .setup (List.replicate 8 0) 8 := by
  refine ⟨rfl, ?_⟩
  rintro ⟨d', r, htransfer, h⟩
  cases htransfer
  cases congrArg UsbLib.pktdis (h (.inr rfl)).1

end BiMpp.Device
