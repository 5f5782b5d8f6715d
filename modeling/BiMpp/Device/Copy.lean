import BiMpp.Device.Events
import BiMpp.Device.Transaction

/-!
# The copies of a transaction

`__usb_transfer` calls `memcpy` once at most, between the pointer that the host hands over and
the start of the buffer that the firmware armed the endpoint with:
`bi-mpp-pic24-usb-simulator-master/src/usb_lib_usbip.c:232–300`.
-/

namespace BiMpp.Device
open BiMpp.Usb BiMpp.Base

/-- The arguments of a `memcpy` of `__usb_transfer`: the buffer, whether the bytes go to the
host's `data` or come from it, and how many; `usb_lib_usbip.c:271,289`. -/
structure Copy where
  buffer : BufPtr
  toHost : Bool
  size : Int
  deriving DecidableEq, Repr

/-- The copy of the OUT branch; `usb_lib_usbip.c:258–271`. -/
def outCopy (d : UsbLib) (epn : Nat) (pid : UsbPid) (size : Int) : Option Copy :=
  match d.bdt[epn]? with
  | none => none
  | some e =>
    if !e.out.owned then none
    else if e.out.wrongToggle pid then none
    else
      match d.buffers[e.out.addr]? with
      | none => none
      | some b =>
        if size > b.size then none
        else some ⟨e.out.addr, false, min (e.out.cnt.toNat : Int) size⟩

/-- The copy of the IN branch; `usb_lib_usbip.c:279–289`. -/
def inCopy (d : UsbLib) (epn : Nat) (size : Int) : Option Copy :=
  match d.bdt[epn]? with
  | none => none
  | some e =>
    if !e.inn.owned then none
    else
      match d.buffers[e.inn.addr]? with
      | none => none
      | some b =>
        if (e.inn.cnt.toNat : Int) > b.size then none
        else some ⟨e.inn.addr, true, min (e.inn.cnt.toNat : Int) size⟩

/-- The copy that `__usb_transfer` makes, if it makes one; `usb_lib_usbip.c:232–300`. -/
def transferCopy (d : UsbLib) (addr : Int) (ep : BitVec 8) (pid : UsbPid) (size : Int) :
    Option Copy :=
  let copy := if ep &&& 0x80 = 0 then outCopy d (epNumber ep) pid size
    else inCopy d (epNumber ep) size
  if d.refuses addr (epNumber ep) then none
  else
    match pid with
    | .reset => none
    | .sof => none
    | .setup =>
      match d.bdt[epNumber ep]? with
      | none => none
      | some e => if !e.out.owned then none else copy
    | .data0 => copy
    | .data1 => copy

/-- What a transaction moves is what its copy says: nothing without one, else bytes between the
host and a declared buffer, as many as both have. -/
inductive Copied (d : UsbLib) (data : List UInt8) (size : Int) : Option Copy → UsbLib → Response →
    Prop
  | none {d' : UsbLib} {r : Response} : d'.buffers = d.buffers → r.bytes = [] →
      Copied d data size none d' r
  | out {d' : UsbLib} {bi : BufPtr} {buf : Buffer} {n : Int} : d.buffers[bi]? = some buf →
      0 ≤ n → n ≤ size → n ≤ buf.size →
      d'.buffers = d.buffers.set bi { buf with data := writeAt buf.data 0 (data.take n.toNat) } →
      Copied d data size (some ⟨bi, false, n⟩) d' (.ack n [])
  | inn {d' : UsbLib} {bi : BufPtr} {buf : Buffer} {n : Int} : d.buffers[bi]? = some buf →
      0 ≤ n → n ≤ size → n ≤ buf.size → d'.buffers = d.buffers →
      Copied d data size (some ⟨bi, true, n⟩) d' (.ack n (buf.data.take n.toNat))

/-- A copy moves as many bytes as both its ends have. -/
theorem Copied.inside {d d' : UsbLib} {data : List UInt8} {size : Int} {c : Copy} {r : Response}
    (h : Copied d data size (some c) d' r) : 0 ≤ c.size ∧ c.size ≤ size ∧
      ∃ b, d.buffers[c.buffer]? = some b ∧ c.size ≤ b.size := by
  cases h with
  | out hb hpos hle hbuf _ => exact ⟨hpos, hle, _, hb, hbuf⟩
  | inn hb hpos hle hbuf _ => exact ⟨hpos, hle, _, hb, hbuf⟩

section Transfer

variable {d d' : UsbLib} {addr size : Int} {ep : BitVec 8} {epn : Nat} {pid : UsbPid}
  {data : List UInt8} {r : Response}

private theorem outTransfer_copied (hsize : 0 ≤ size) {d₁ : UsbLib} (hbdt : d₁.bdt = d.bdt)
    (hbufs : d₁.buffers = d.buffers) (h : outTransfer d₁ ep epn pid data size = .ok (d', r)) :
    Copied d data size (outCopy d epn pid size) d' r ∧
      (r.isAck = true → (outCopy d epn pid size).isSome = true) := by
  unfold outTransfer at h
  rw [hbdt, hbufs] at h
  unfold outCopy
  cases he : d.bdt[epn]? with
  | none =>
    rw [he] at h
    cases h
  | some e =>
    rw [he] at h
    dsimp only at h ⊢
    split at h
    · next howned =>
      cases h
      rw [if_pos howned]
      exact ⟨.none hbufs rfl, fun hack ↦ by cases hack⟩
    · next howned =>
      rw [if_neg howned]
      split at h
      · next htoggle =>
        cases h
        rw [if_pos htoggle]
        exact ⟨.none hbufs rfl, fun hack ↦ by cases hack⟩
      · next htoggle =>
        rw [if_neg htoggle]
        cases hb : d.buffers[e.out.addr]? with
        | none =>
          rw [hb] at h
          cases h
        | some b =>
          rw [hb] at h
          dsimp only at h ⊢
          split at h
          · next hlong =>
            cases h
            rw [if_pos hlong]
            exact ⟨.none hbufs rfl, fun hack ↦ by cases hack⟩
          · next hlong =>
            cases h
            rw [if_neg hlong]
            exact ⟨.out hb (by omega) (by omega) (by omega) rfl, fun _ ↦ rfl⟩

private theorem inTransfer_copied (hsize : 0 ≤ size) {d₁ : UsbLib} (hbdt : d₁.bdt = d.bdt)
    (hbufs : d₁.buffers = d.buffers) (h : inTransfer d₁ ep epn pid size = .ok (d', r)) :
    Copied d data size (inCopy d epn size) d' r ∧
      (r.isAck = true → (inCopy d epn size).isSome = true) := by
  unfold inTransfer at h
  rw [hbdt, hbufs] at h
  unfold inCopy
  cases he : d.bdt[epn]? with
  | none =>
    rw [he] at h
    cases h
  | some e =>
    rw [he] at h
    dsimp only at h ⊢
    split at h
    · next howned =>
      cases h
      rw [if_pos howned]
      exact ⟨.none hbufs rfl, fun hack ↦ by cases hack⟩
    · next howned =>
      rw [if_neg howned]
      cases hb : d.buffers[e.inn.addr]? with
      | none =>
        rw [hb] at h
        cases h
      | some b =>
        rw [hb] at h
        dsimp only at h ⊢
        split at h
        · next hlong =>
          cases h
          rw [if_pos hlong]
          exact ⟨.none hbufs rfl, fun hack ↦ by cases hack⟩
        · next hlong =>
          cases h
          rw [if_neg hlong]
          exact ⟨.inn hb (by omega) (by omega) (by omega) rfl, fun _ ↦ rfl⟩

/-- The copy of a transaction is the one it makes, stays inside both its ends, and is there if
the transaction is acknowledged. -/
theorem usbTransfer_copied (hsize : 0 ≤ size)
    (h : usbTransfer d addr ep pid data size = .ok (d', r)) :
    Copied d data size (transferCopy d addr ep pid size) d' r ∧
      (UsbPid.isData pid = true → r.isAck = true →
        (transferCopy d addr ep pid size).isSome = true) := by
  have htransfer : ∀ d₁ : UsbLib, d₁.bdt = d.bdt → d₁.buffers = d.buffers →
      (if ep &&& 0x80 = 0 then outTransfer d₁ ep (epNumber ep) pid data size
        else inTransfer d₁ ep (epNumber ep) pid size) = .ok (d', r) →
      Copied d data size (if ep &&& 0x80 = 0 then outCopy d (epNumber ep) pid size
        else inCopy d (epNumber ep) size) d' r ∧
      (UsbPid.isData pid = true → r.isAck = true →
        (if ep &&& 0x80 = 0 then outCopy d (epNumber ep) pid size
          else inCopy d (epNumber ep) size).isSome = true) := by
    intro d₁ hbdt hbufs ht
    split at ht
    · next hout =>
      rw [if_pos hout]
      obtain ⟨hcopied, hack⟩ := outTransfer_copied hsize hbdt hbufs ht
      exact ⟨hcopied, fun _ ↦ hack⟩
    · next hin =>
      rw [if_neg hin]
      obtain ⟨hcopied, hack⟩ := inTransfer_copied hsize hbdt hbufs ht
      exact ⟨hcopied, fun _ ↦ hack⟩
  change (if d.refuses addr (epNumber ep) then _ else _) = _ at h
  unfold transferCopy
  dsimp only
  split at h
  · next href =>
    cases h
    rw [if_pos href]
    exact ⟨.none rfl rfl, fun _ hack ↦ by cases hack⟩
  · next href =>
    rw [if_neg href]
    cases pid with
    | reset =>
      cases h
      exact ⟨.none rfl rfl, fun hdata ↦ by cases hdata⟩
    | sof =>
      cases h
      exact ⟨.none rfl rfl, fun hdata ↦ by cases hdata⟩
    | setup =>
      dsimp only at h ⊢
      split at h
      · cases h
      · next e he =>
        have he : d.bdt[epNumber ep]? = some e := he
        rw [he]
        dsimp only
        split at h
        · next howned =>
          cases h
          rw [if_pos howned]
          exact ⟨.none rfl rfl, fun _ hack ↦ by cases hack⟩
        · next howned =>
          rw [if_neg howned]
          exact htransfer { d with pktdis := true } rfl rfl h
    | data0 => exact htransfer d rfl rfl h
    | data1 => exact htransfer d rfl rfl h

private theorem outCopy_toHost {c : Copy} (h : outCopy d epn pid size = some c) :
    c.toHost = false := by
  unfold outCopy at h
  split at h
  · cases h
  · split at h
    · cases h
    · split at h
      · cases h
      · split at h
        · cases h
        · split at h
          · cases h
          · cases h
            rfl

private theorem inCopy_toHost {c : Copy} (h : inCopy d epn size = some c) : c.toHost = true := by
  unfold inCopy at h
  split at h
  · cases h
  · split at h
    · cases h
    · split at h
      · cases h
      · split at h
        · cases h
        · cases h
          rfl

/-- The copy of a transaction is the one of its direction, or there is none. -/
theorem transferCopy_cases (d : UsbLib) (addr : Int) (ep : BitVec 8) (pid : UsbPid) (size : Int) :
    transferCopy d addr ep pid size = none ∨
      ep &&& 0x80 = 0 ∧ transferCopy d addr ep pid size = outCopy d (epNumber ep) pid size ∨
      ep &&& 0x80 ≠ 0 ∧ transferCopy d addr ep pid size = inCopy d (epNumber ep) size := by
  unfold transferCopy
  dsimp only
  split
  · exact .inl rfl
  · cases pid with
    | reset => exact .inl rfl
    | sof => exact .inl rfl
    | setup =>
      dsimp only
      split
      · exact .inl rfl
      · split
        · exact .inl rfl
        · split
          · next hout => exact .inr (.inl ⟨hout, rfl⟩)
          · next hin => exact .inr (.inr ⟨hin, rfl⟩)
    | _ =>
      dsimp only
      split
      · next hout => exact .inr (.inl ⟨hout, rfl⟩)
      · next hin => exact .inr (.inr ⟨hin, rfl⟩)

/-- The direction of a copy is that of the endpoint. -/
theorem transferCopy_toHost {c : Copy} (h : transferCopy d addr ep pid size = some c) :
    c.toHost = (ep &&& 0x80 != 0) := by
  rcases transferCopy_cases d addr ep pid size with hnone | ⟨hout, hcopy⟩ | ⟨hin, hcopy⟩
  · rw [hnone] at h
    cases h
  · rw [hcopy] at h
    rw [hout]
    exact outCopy_toHost h
  · rw [hcopy] at h
    rw [bne_iff_ne.mpr hin]
    exact inCopy_toHost h

end Transfer

/-! ### Declared buffers -/

/-- The buffers of the library are those declared, with whatever is in them. -/
structure Declared (buffers : List Buffer) (d : UsbLib) : Prop where
  sizes : d.buffers.map Buffer.size = buffers.map Buffer.size
  room : d.Sized

namespace Declared

variable {buffers : List Buffer} {d d' : UsbLib}

/-- The buffers are declared right after `usb_init`. -/
theorem init (eps : Nat) (h : ∀ b ∈ buffers, (b.data.length : Int) = b.size) :
    Declared buffers (usbInit eps buffers) :=
  ⟨rfl, fun b hb ↦ Int.le_of_eq (h b hb).symm⟩

/-- A buffer is as long as it was declared. -/
theorem size (h : Declared buffers d) {i : BufPtr} {b : Buffer} (hb : d.buffers[i]? = some b) :
    ∃ b₀, buffers[i]? = some b₀ ∧ b₀.size = b.size := by
  have hsize := congrArg (fun l ↦ l[i]?) h.sizes
  simp only [List.getElem?_map, hb, Option.map_some] at hsize
  obtain ⟨b₀, hb₀, hsame⟩ := Option.map_eq_some_iff.mp hsize.symm
  exact ⟨b₀, hb₀, hsame⟩

/-- A step that leaves the buffers leaves them declared. -/
theorem frame (h : Declared buffers d) (hb : d'.buffers = d.buffers) : Declared buffers d' := by
  obtain ⟨hsizes, hroom⟩ := h
  refine ⟨by rw [hb, hsizes], ?_⟩
  unfold UsbLib.Sized
  rw [hb]
  exact hroom

/-- A store at the start of a buffer leaves its size, and takes no room away. -/
theorem store (h : Declared buffers d) {i : BufPtr} {bytes : List UInt8} {b : Buffer}
    (hi : d.buffers[i]? = some b)
    (hb : d'.buffers = d.buffers.set i { b with data := writeAt b.data 0 bytes }) :
    Declared buffers d' := by
  constructor
  · obtain ⟨hlt, rfl⟩ := List.getElem?_eq_some_iff.mp hi
    have hlen : i < (d.buffers.map Buffer.size).length := by simpa using hlt
    have hset : (d.buffers.map Buffer.size).set i (d.buffers.map Buffer.size)[i] = _ :=
      List.set_getElem_self hlen
    rw [List.getElem_map] at hset
    rw [hb, List.map_set, hset, h.sizes]
  · intro x hx
    rw [hb] at hx
    rcases List.mem_or_eq_of_mem_set hx with hx | rfl
    · exact h.room x hx
    · have hroom := h.room b (List.mem_of_getElem? hi)
      have hlen := le_length_writeAt b.data bytes 0 (Nat.zero_le _)
      show b.size ≤ ((writeAt b.data 0 bytes).length : Int)
      omega

/-- No call of the firmware declares a buffer. -/
theorem call (h : Declared buffers d) (c : FirmwareCall) : Declared buffers (d.call c) := by
  cases c with
  | copyToBuffer i src n =>
    cases hi : d.buffers[i]? with
    | none =>
      apply h.frame
      exact List.modify_eq_self (List.getElem?_eq_none_iff.mp hi)
    | some b =>
      apply h.store hi
      show d.buffers.modify i _ = _
      rw [List.modify_eq_set_getElem?, hi]
      rfl
  | _ => exact h.frame rfl

/-- No transaction does. -/
theorem copied (h : Declared buffers d) {data : List UInt8} {size : Int} {c : Option Copy}
    {r : Response} (hc : Copied d data size c d' r) : Declared buffers d' := by
  cases hc with
  | none hb _ => exact h.frame hb
  | out hi _ _ _ hb => exact h.store hi hb
  | inn _ _ _ _ hb => exact h.frame hb

end Declared

end BiMpp.Device
