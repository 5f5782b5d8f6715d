import BiMpp.Device.Transaction

/-!
# What a transaction can do

`__usb_transfer` on any endpoint and in any direction, as one inversion lemma over the table and
the buffers: `bi-mpp-pic24-usb-simulator-master/src/usb_lib_usbip.c:232–300`.
-/

namespace BiMpp.Device
open BiMpp.Usb BiMpp.Base

/-- A transaction leaves the table and the buffers alone, or an armed OUT entry takes a packet,
or an armed IN entry sends one. -/
inductive TransferStep (d : UsbLib) (ep : BitVec 8) (pid : UsbPid) (data : List UInt8)
    (size : Int) : UsbLib → Response → Prop
  | quiet {d' : UsbLib} {r : Response} : d'.bdt = d.bdt → d'.buffers = d.buffers →
      (UsbPid.isData pid && r.isAck) = false → r.bytes = [] →
      TransferStep d ep pid data size d' r
  | out {d' : UsbLib} {e : EpBufDsc} {buf : Buffer} {sz : Int} : UsbPid.isData pid = true →
      ep &&& 0x80 = 0 → d.bdt[epNumber ep]? = some e → e.out.owned = true →
      d.buffers[e.out.addr]? = some buf → size ≤ buf.size →
      sz = min (e.out.cnt.toNat : Int) size →
      d'.bdt = d.bdt.set (epNumber ep) { e with out := e.out.received pid sz } →
      d'.buffers = d.buffers.set e.out.addr
        { buf with data := writeAt buf.data 0 (data.take sz.toNat) } →
      TransferStep d ep pid data size d' (.ack sz [])
  | inn {d' : UsbLib} {e : EpBufDsc} {buf : Buffer} {sz : Int} : UsbPid.isData pid = true →
      ep &&& 0x80 ≠ 0 → d.bdt[epNumber ep]? = some e → e.inn.owned = true →
      d.buffers[e.inn.addr]? = some buf → (e.inn.cnt.toNat : Int) ≤ buf.size →
      sz = min (e.inn.cnt.toNat : Int) size →
      d'.bdt = d.bdt.set (epNumber ep) { e with inn := e.inn.sent pid } →
      d'.buffers = d.buffers →
      TransferStep d ep pid data size d' (.ack sz (buf.data.take sz.toNat))

variable {d d' d₁ : UsbLib} {addr size : Int} {ep : BitVec 8} {pid : UsbPid} {data : List UInt8}
  {r : Response}

private theorem outTransfer_step (hpid : UsbPid.isData pid = true) (hout : ep &&& 0x80 = 0)
    (hbdt : d₁.bdt = d.bdt) (hbufs : d₁.buffers = d.buffers)
    (h : outTransfer d₁ ep (epNumber ep) pid data size = .ok (d', r)) :
    TransferStep d ep pid data size d' r := by
  unfold outTransfer at h
  rw [hbdt, hbufs] at h
  split at h
  · cases h
  · next e he =>
    split at h
    · cases h
      exact .quiet hbdt hbufs (Bool.and_false _) rfl
    · next howned =>
      split at h
      · cases h
        exact .quiet hbdt hbufs (Bool.and_false _) rfl
      · split at h
        · cases h
        · next buf hbuf =>
          split at h
          · cases h
            exact .quiet hbdt hbufs (Bool.and_false _) rfl
          · next hlong =>
            cases h
            exact .out hpid hout he (by simpa using howned) hbuf (Int.not_lt.mp hlong) rfl rfl rfl

private theorem inTransfer_step (hpid : UsbPid.isData pid = true) (hin : ep &&& 0x80 ≠ 0)
    (hbdt : d₁.bdt = d.bdt) (hbufs : d₁.buffers = d.buffers)
    (h : inTransfer d₁ ep (epNumber ep) pid size = .ok (d', r)) :
    TransferStep d ep pid data size d' r := by
  unfold inTransfer at h
  rw [hbdt, hbufs] at h
  split at h
  · cases h
  · next e he =>
    split at h
    · cases h
      exact .quiet hbdt hbufs (Bool.and_false _) rfl
    · next howned =>
      split at h
      · cases h
      · next buf hbuf =>
        split at h
        · cases h
          exact .quiet hbdt hbufs (Bool.and_false _) rfl
        · next hlong =>
          cases h
          exact .inn hpid hin he (by simpa using howned) hbuf (Int.not_lt.mp hlong) rfl rfl rfl

/-- Every transaction is one of the three. -/
theorem transferStep_of_transfer (h : usbTransfer d addr ep pid data size = .ok (d', r)) :
    TransferStep d ep pid data size d' r := by
  have htransfer : ∀ d₁ : UsbLib, d₁.bdt = d.bdt → d₁.buffers = d.buffers →
      UsbPid.isData pid = true →
      (if ep &&& 0x80 = 0 then outTransfer d₁ ep (epNumber ep) pid data size
        else inTransfer d₁ ep (epNumber ep) pid size) = .ok (d', r) →
      TransferStep d ep pid data size d' r := by
    intro d₁ hbdt hbufs hpid ht
    split at ht
    · next hout => exact outTransfer_step hpid hout hbdt hbufs ht
    · next hin => exact inTransfer_step hpid hin hbdt hbufs ht
  change (if d.refuses addr (epNumber ep) then _ else _) = _ at h
  split at h
  · cases h
    exact .quiet rfl rfl (Bool.and_false _) rfl
  · cases pid with
    | reset =>
      cases h
      exact .quiet rfl rfl rfl rfl
    | sof =>
      cases h
      exact .quiet rfl rfl rfl rfl
    | setup =>
      dsimp only at h
      split at h
      · cases h
      · split at h
        · cases h
          exact .quiet rfl rfl rfl rfl
        · exact htransfer { d with pktdis := true } rfl rfl rfl h
    | data0 => exact htransfer d rfl rfl rfl h
    | data1 => exact htransfer d rfl rfl rfl h

/-! ### What a transaction leaves -/

/-- An entry that has sent a packet is with the firmware. -/
theorem owned_sent (b : BdfEntry) (hpid : UsbPid.isData pid = true) :
    (b.sent pid).owned = false := by
  have hbit : ∀ s : BitVec 8, ((s &&& 0x40) ||| (pid.code <<< 2)) &&& 0x80 = 0 := by
    cases pid with
    | reset => cases hpid
    | sof => cases hpid
    | _ => decide
  rw [BdfEntry.owned, BdfEntry.sent, hbit]
  rfl

namespace TransferStep

/-- A transaction arms no entry, and the IN entries that are still armed are as they were. -/
theorem entry (h : TransferStep d ep pid data size d' r) {i : Nat} {e : EpBufDsc}
    (he : d'.bdt[i]? = some e) :
    ∃ e₀, d.bdt[i]? = some e₀ ∧ e.out.addr = e₀.out.addr ∧
      (e.out.owned = true → e₀.out.owned = true) ∧ (e.inn.owned = true → e.inn = e₀.inn) := by
  cases h with
  | quiet hb =>
    rw [hb] at he
    exact ⟨e, he, rfl, id, fun _ ↦ rfl⟩
  | @out e₁ buf sz hpid hout he₁ howned _ _ _ hb =>
    rw [hb, List.getElem?_set] at he
    split at he
    · next hi =>
      split at he
      · cases he
        exact ⟨e₁, hi ▸ he₁, rfl, fun _ ↦ howned, fun _ ↦ rfl⟩
      · cases he
    · exact ⟨e, he, rfl, id, fun _ ↦ rfl⟩
  | @inn e₁ buf sz hpid hin he₁ howned _ _ _ hb =>
    rw [hb, List.getElem?_set] at he
    split at he
    · next hi =>
      split at he
      · cases he
        refine ⟨e₁, hi ▸ he₁, rfl, id, fun h ↦ ?_⟩
        rw [owned_sent e₁.inn hpid] at h
        cases h
      · cases he
    · exact ⟨e, he, rfl, id, fun _ ↦ rfl⟩

/-- A transaction stores in a buffer that an OUT entry is armed with, or in none. -/
theorem buffer (h : TransferStep d ep pid data size d' r) {bi : BufPtr}
    (hne : ∀ (i : Nat) (e : EpBufDsc), d.bdt[i]? = some e → e.out.owned = true → e.out.addr ≠ bi) :
    d'.buffers[bi]? = d.buffers[bi]? := by
  cases h with
  | quiet _ hbufs => rw [hbufs]
  | out _ _ he howned _ _ _ _ hbufs => rw [hbufs, List.getElem?_set_ne (hne _ _ he howned)]
  | inn _ _ _ _ _ _ _ _ hbufs => rw [hbufs]

/-- A transaction leaves every buffer its room. -/
theorem sized (h : TransferStep d ep pid data size d' r) (hd : d.Sized) : d'.Sized := by
  cases h with
  | quiet _ hbufs =>
    unfold UsbLib.Sized
    rwa [hbufs]
  | @out e buf sz _ _ _ _ hbuf _ _ _ hbufs =>
    intro b hb
    rw [hbufs] at hb
    rcases List.mem_or_eq_of_mem_set hb with hb | rfl
    · exact hd b hb
    · have hlen := le_length_writeAt buf.data (data.take sz.toNat) 0 (Nat.zero_le _)
      have hold := hd buf (List.mem_of_getElem? hbuf)
      show buf.size ≤ ((writeAt buf.data 0 (data.take sz.toNat)).length : Int)
      omega
  | inn _ _ _ _ _ _ _ _ hbufs =>
    unfold UsbLib.Sized
    rwa [hbufs]

end TransferStep

end BiMpp.Device
