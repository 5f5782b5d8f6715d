import BiMpp.Device.UsbLib

/-!
# What one transaction does to the device

The outcomes of `__usb_transfer` for a SETUP or OUT packet and for an IN token on an
endpoint, as one step lemma each.
-/

namespace BiMpp.Device
open BiMpp.Usb BiMpp.Base

/-- The packets of an OUT or SETUP transaction. -/
def UsbPid.isData : UsbPid → Bool
  | .setup => true
  | .data0 => true
  | .data1 => true
  | _ => false

/-- The OUT endpoint address of an endpoint number. -/
def outEp (e : Fin 16) : BitVec 8 := BitVec.ofNat 8 e

/-- The guards an OUT or SETUP packet passes on its way to the buffer. -/
def UsbLib.admits (d : UsbLib) (addr : Int) (e : Fin 16) (pid : UsbPid) (size : Int) : Bool :=
  !d.refuses addr e &&
    match d.bdt[e.val]? with
    | none => false
    | some b => b.out.owned && !b.out.wrongToggle pid &&
      match d.buffers[b.out.addr]? with
      | none => false
      | some buf => decide (size ≤ buf.size)

/-- The number an OUT endpoint address is looked up by. -/
theorem outEp_number (e : Fin 16) : (outEp e &&& 0x0F).toNat = e := by
  revert e
  decide

/-- An OUT endpoint address has bit 7 clear. -/
theorem outEp_dir (e : Fin 16) : outEp e &&& 0x80 = 0 := by
  revert e
  decide

/-- An OUT endpoint address is its number. -/
@[simp] theorem outEp_toNat (e : Fin 16) : (outEp e).toNat = e := by
  revert e
  decide

/-- Different OUT endpoints have different addresses. -/
theorem outEp_inj {e e' : Fin 16} (h : outEp e = outEp e') : e = e' := by
  have hn := congrArg BitVec.toNat h
  rw [outEp_toNat, outEp_toNat] at hn
  exact Fin.ext hn

/-- A packet is refused and moves no data, or it is admitted, stored and reported. -/
inductive PacketStep (d : UsbLib) (addr : Int) (e : Fin 16) (pid : UsbPid)
    (payload : List UInt8) : UsbLib → Response → Prop
  | refused {d' : UsbLib} {r : Response} : d'.bdt = d.bdt → d'.buffers = d.buffers →
      d'.epQueue = d.epQueue → r.isAck = false → PacketStep d addr e pid payload d' r
  | received {d' : UsbLib} {b : EpBufDsc} {buf : Buffer} {sz : Int} :
      d.admits addr e pid payload.length = true → d.bdt[e.val]? = some b →
      d.buffers[b.out.addr]? = some buf → (payload.length : Int) ≤ buf.size →
      sz = min (b.out.cnt.toNat : Int) payload.length →
      d'.bdt = d.bdt.set e { b with out := b.out.received pid sz } →
      d'.buffers = d.buffers.set b.out.addr
        { buf with data := writeAt buf.data 0 (payload.take sz.toNat) } →
      d'.epQueue = d.epQueue.push (outEp e) →
      PacketStep d addr e pid payload d' (.ack sz [])

private theorem packetStep_transfer {d d' : UsbLib} (d₁ : UsbLib) {addr : Int} {e : Fin 16}
    {pid : UsbPid} {payload : List UInt8} {r : Response} (hb : d₁.bdt = d.bdt)
    (hbuf : d₁.buffers = d.buffers) (hq : d₁.epQueue = d.epQueue) (href : d.refuses addr e = false)
    (h : outTransfer d₁ (outEp e) e pid payload payload.length = .ok (d', r)) :
    PacketStep d addr e pid payload d' r := by
  unfold outTransfer at h
  rw [hb, hbuf] at h
  split at h
  · exact nomatch h
  · next b hbdt =>
    split at h
    · cases h
      exact .refused hb hbuf hq rfl
    · next howned =>
      split at h
      · cases h
        exact .refused hb hbuf hq rfl
      · next htoggle =>
        split at h
        · exact nomatch h
        · next buf hget =>
          split at h
          · cases h
            exact .refused hb hbuf hq rfl
          · next hsize =>
            cases h
            have hle : (payload.length : Int) ≤ buf.size := by omega
            refine .received ?_ hbdt hget hle rfl rfl rfl (by rw [← hq]; rfl)
            simp only [Bool.not_eq_true, Bool.not_eq_false'] at howned htoggle
            simp [UsbLib.admits, href, hbdt, howned, htoggle, hget, hle]

/-- Every packet of a run takes one of the two steps. -/
theorem packetStep_of_transfer {d d' : UsbLib} {addr : Int} {e : Fin 16} {pid : UsbPid}
    {payload : List UInt8} {r : Response} (hpid : UsbPid.isData pid = true)
    (h : usbTransfer d addr (outEp e) pid payload payload.length = .ok (d', r)) :
    PacketStep d addr e pid payload d' r := by
  simp only [usbTransfer, outEp_number, outEp_dir, if_true] at h
  split at h
  · cases h
    exact .refused rfl rfl rfl rfl
  · next href =>
    have href' : d.refuses addr e = false := by simpa using href
    cases pid with
    | reset => cases hpid
    | sof => cases hpid
    | setup =>
      simp only at h
      split at h
      · cases h
      · split at h
        · cases h
          exact .refused rfl rfl rfl rfl
        · exact packetStep_transfer { d with pktdis := true } rfl rfl rfl href' h
    | data0 => exact packetStep_transfer d rfl rfl rfl href' h
    | data1 => exact packetStep_transfer d rfl rfl rfl href' h

/-- An admitted packet found its entry armed. -/
theorem UsbLib.owned_of_admits {d : UsbLib} {addr size : Int} {e : Fin 16} {pid : UsbPid}
    {b : EpBufDsc} (h : d.admits addr e pid size = true) (hb : d.bdt[e.val]? = some b) :
    b.out.owned = true := by
  simp only [UsbLib.admits, hb, Bool.and_eq_true] at h
  exact h.2.1.1

/-- The IN endpoint address of an endpoint number. -/
def inEp (e : Fin 16) : BitVec 8 := outEp e ||| 0x80

/-- The number an IN endpoint address is looked up by. -/
theorem inEp_number (e : Fin 16) : (inEp e &&& 0x0F).toNat = e := by
  revert e
  decide

/-- An IN endpoint address has bit 7 set. -/
theorem inEp_dir (e : Fin 16) : inEp e &&& 0x80 ≠ 0 := by
  revert e
  decide

/-- An acknowledged IN token found the entry armed, takes it away from the library, and
is reported. -/
theorem sent_of_transfer {d d' : UsbLib} {addr size : Int} {e : Fin 16} {pid : UsbPid}
    {data : List UInt8} {r : Response} (hpid : pid = .data0 ∨ pid = .data1)
    (h : usbTransfer d addr (inEp e) pid data size = .ok (d', r)) (hr : r.isAck = true) :
    ∃ b, d.bdt[e.val]? = some b ∧ b.inn.owned = true ∧
      d'.bdt = d.bdt.set e { b with inn := b.inn.sent pid } ∧ d'.buffers = d.buffers ∧
      d'.epQueue = d.epQueue.push (inEp e) := by
  have hin : usbTransfer d addr (inEp e) pid data size =
      if d.refuses addr e then .ok (d, .err) else inTransfer d (inEp e) e pid size := by
    rcases hpid with rfl | rfl <;> simp only [usbTransfer, inEp_number, if_neg (inEp_dir e)]
  rw [hin] at h
  split at h
  · cases h
    cases hr
  · unfold inTransfer at h
    split at h
    · cases h
    · next b hb =>
      split at h
      · cases h
        cases hr
      · next howned =>
        split at h
        · cases h
        · split at h
          · cases h
            cases hr
          · cases h
            exact ⟨b, hb, by simpa using howned, rfl, rfl, rfl⟩

/-- An IN token that is not acknowledged does nothing. -/
theorem unsent_of_transfer {d d' : UsbLib} {addr size : Int} {e : Fin 16} {pid : UsbPid}
    {data : List UInt8} {r : Response} (hpid : pid = .data0 ∨ pid = .data1)
    (h : usbTransfer d addr (inEp e) pid data size = .ok (d', r)) (hr : r.isAck = false) :
    d' = d := by
  have hin : usbTransfer d addr (inEp e) pid data size =
      if d.refuses addr e then .ok (d, .err) else inTransfer d (inEp e) e pid size := by
    rcases hpid with rfl | rfl <;> simp only [usbTransfer, inEp_number, if_neg (inEp_dir e)]
  rw [hin] at h
  split at h
  · cases h
    rfl
  · unfold inTransfer at h
    split at h
    · cases h
    · split at h
      · cases h
        rfl
      · split at h
        · cases h
        · split at h
          · cases h
            rfl
          · cases h
            cases hr

/-! ### What is reported -/

private theorem outTransfer_epQueue {d d' : UsbLib} {ep : BitVec 8} {epn : Nat} {pid : UsbPid}
    {data : List UInt8} {size : Int} {r : Response}
    (h : outTransfer d ep epn pid data size = .ok (d', r)) :
    d'.epQueue = if r.isAck then d.epQueue.push ep else d.epQueue := by
  unfold outTransfer at h
  split at h
  · cases h
  · split at h
    · cases h
      rfl
    · split at h
      · cases h
        rfl
      · split at h
        · cases h
        · split at h
          · cases h
            rfl
          · cases h
            rfl

private theorem inTransfer_epQueue {d d' : UsbLib} {ep : BitVec 8} {epn : Nat} {pid : UsbPid}
    {size : Int} {r : Response} (h : inTransfer d ep epn pid size = .ok (d', r)) :
    d'.epQueue = if r.isAck then d.epQueue.push ep else d.epQueue := by
  unfold inTransfer at h
  split at h
  · cases h
  · split at h
    · cases h
      rfl
    · split at h
      · cases h
      · split at h
        · cases h
          rfl
        · cases h
          rfl

/-- An acknowledged transaction is reported, and nothing else is. -/
theorem usbTransfer_epQueue {d d' : UsbLib} {addr : Int} {ep : BitVec 8} {pid : UsbPid}
    {data : List UInt8} {size : Int} {r : Response}
    (h : usbTransfer d addr ep pid data size = .ok (d', r)) :
    d'.epQueue = if UsbPid.isData pid && r.isAck then d.epQueue.push ep else d.epQueue := by
  have htransfer : ∀ d₁ : UsbLib, d₁.epQueue = d.epQueue →
      (if ep &&& 0x80 = 0 then outTransfer d₁ ep (ep &&& 0x0F).toNat pid data size
        else inTransfer d₁ ep (ep &&& 0x0F).toNat pid size) = .ok (d', r) →
      d'.epQueue = if r.isAck then d.epQueue.push ep else d.epQueue := by
    intro d₁ hq ht
    rw [← hq]
    split at ht
    · exact outTransfer_epQueue ht
    · exact inTransfer_epQueue ht
  simp only [usbTransfer] at h
  split at h
  · cases h
    rw [show Response.isAck .err = false from rfl, Bool.and_false]
    rfl
  · cases pid with
    | reset =>
      cases h
      rfl
    | sof =>
      cases h
      rfl
    | setup =>
      simp only at h
      split at h
      · cases h
      · split at h
        · cases h
          rfl
        · exact htransfer { d with pktdis := true } rfl h
    | data0 => exact htransfer d rfl h
    | data1 => exact htransfer d rfl h

/-! ### What a packet leaves alone -/

private def fixed (d : UsbLib) : BitVec 8 × Bool × Nat × Bool :=
  (d.u1addr, d.usben, d.bdt.length, d.reset)

private theorem outTransfer_fixed {d d' : UsbLib} {ep : BitVec 8} {epn : Nat} {pid : UsbPid}
    {data : List UInt8} {size : Int} {r : Response}
    (h : outTransfer d ep epn pid data size = .ok (d', r)) : fixed d' = fixed d := by
  unfold outTransfer at h
  split at h
  · cases h
  · split at h
    · cases h
      rfl
    · split at h
      · cases h
        rfl
      · split at h
        · cases h
        · split at h
          · cases h
            rfl
          · cases h
            simp [fixed, notifyEp]

private theorem inTransfer_fixed {d d' : UsbLib} {ep : BitVec 8} {epn : Nat} {pid : UsbPid}
    {size : Int} {r : Response} (h : inTransfer d ep epn pid size = .ok (d', r)) :
    fixed d' = fixed d := by
  unfold inTransfer at h
  split at h
  · cases h
  · split at h
    · cases h
      rfl
    · split at h
      · cases h
      · split at h
        · cases h
          rfl
        · cases h
          simp [fixed, notifyEp]

/-- A packet changes neither the address nor the endpoints there are, and takes back no
reset. -/
theorem usbTransfer_fixed {d d' : UsbLib} {addr : Int} {ep : BitVec 8} {pid : UsbPid}
    {data : List UInt8} {size : Int} {r : Response}
    (h : usbTransfer d addr ep pid data size = .ok (d', r)) :
    d'.u1addr = d.u1addr ∧ d'.usben = d.usben ∧ d'.bdt.length = d.bdt.length ∧
      (d.reset = true → d'.reset = true) := by
  have hsame : fixed d' = fixed d → d'.u1addr = d.u1addr ∧ d'.usben = d.usben ∧
      d'.bdt.length = d.bdt.length ∧ (d.reset = true → d'.reset = true) := by
    intro hf
    simp only [fixed, Prod.mk.injEq] at hf
    obtain ⟨haddr, husben, hlen, hreset⟩ := hf
    exact ⟨haddr, husben, hlen, fun h ↦ hreset.trans h⟩
  have htransfer : ∀ d₁ : UsbLib, fixed d₁ = fixed d →
      (if ep &&& 0x80 = 0 then outTransfer d₁ ep (ep &&& 0x0F).toNat pid data size
        else inTransfer d₁ ep (ep &&& 0x0F).toNat pid size) = .ok (d', r) →
      fixed d' = fixed d := by
    intro d₁ hd₁ ht
    rw [← hd₁]
    split at ht
    · exact outTransfer_fixed ht
    · exact inTransfer_fixed ht
  simp only [usbTransfer] at h
  split at h
  · cases h
    exact hsame rfl
  · cases pid with
    | reset =>
      cases h
      exact ⟨rfl, rfl, rfl, fun _ ↦ rfl⟩
    | sof =>
      cases h
      exact hsame rfl
    | setup =>
      simp only at h
      split at h
      · cases h
      · split at h
        · cases h
          exact hsame rfl
        · exact hsame (htransfer { d with pktdis := true } rfl h)
    | data0 => exact hsame (htransfer d rfl h)
    | data1 => exact hsame (htransfer d rfl h)

end BiMpp.Device
