import BiMpp.Chardev.Driver

/-!
# The buffers of a caller

What `mpp_read` leaves in the buffer it is given and what `mpp_write` logs of one, after any
history of calls; `cv10_kernel_chardev/kernel_driver/mpp.c:72–98`.
-/

namespace BiMpp.Chardev
open BiMpp.Base

/-! ### Reads -/

/-- A read stays in the user's buffer, delivers the greeting, and returns how much of it. -/
structure RespectsBuffer (calls : List Call) (size : BitVec 64) (r : ReadResult) : Prop where
  fits : r.written.length ≤ size.toNat
  leading : r.written <+: enabled calls greeting
  counted : r.ret.toInt = r.written.length ∨ r.ret.toInt < 0

/-- A read always delivers what of the greeting could be copied, whatever was asked for. -/
theorem mppRead_written (calls : List Call) (size : BitVec 64) (n : Fin (greetingSize + 1)) :
    (mppRead (switches calls) size n).written <+: enabled calls greeting ∧
      (mppRead (switches calls) size n).written.length = greetingSize - n := by
  have hlen : (enabled calls greeting).length = greetingSize := List.length_map ..
  change ((switches calls).transform greeting).take _ <+: _ ∧
    (((switches calls).transform greeting).take _).length = _
  rw [transform_eq calls (by decide), List.length_take, hlen]
  exact ⟨List.take_prefix .., Nat.min_eq_left (Nat.sub_le ..)⟩

/-- The signed value of a difference of which the second part is small. -/
theorem toInt_sub_small (size : BitVec 64) {n : Nat} (hn : n ≤ 20) :
    (size - BitVec.ofNat 64 n).toInt =
      if size.toNat < 2 ^ 63 + n then (size.toNat : Int) - n else size.toNat - n - 2 ^ 64 := by
  have hlt := size.isLt
  have hsmall : (BitVec.ofNat 64 n).toNat = n := by
    rw [BitVec.toNat_ofNat]
    exact Nat.mod_eq_of_lt (by omega)
  rw [BitVec.toInt_eq_toNat_cond, BitVec.toNat_sub, hsmall]
  split <;> split <;> omega

/-- A read respects the caller's buffer exactly if the caller asks for the 20 bytes of the
greeting, or if what is returned is negative: by the wrap of a difference, when more bytes
are left uncopied than were asked for, or for sizes that are negative themselves. -/
theorem mppRead_respects_iff (calls : List Call) (size : BitVec 64)
    (n : Fin (greetingSize + 1)) :
    RespectsBuffer calls size (mppRead (switches calls) size n) ↔
      size.toNat = greetingSize ∨ (greetingSize - n.val ≤ size.toNat ∧ size.toNat < n.val) ∨
        2 ^ 63 + n.val ≤ size.toNat := by
  obtain ⟨hlead, hlen⟩ := mppRead_written calls size n
  have hsize : greetingSize = 20 := rfl
  have hn : n.val ≤ 20 := n.is_le
  have hlt := size.isLt
  have hret : (mppRead (switches calls) size n).ret.toInt = _ := toInt_sub_small size hn
  constructor
  · intro h
    have hfits := h.fits
    have hcounted := h.counted
    rw [hlen] at hfits hcounted
    rw [hret] at hcounted
    split at hcounted <;> omega
  · intro h
    refine ⟨?_, hlead, ?_⟩
    · rw [hlen]
      omega
    · rw [hret, hlen]
      split <;> omega

/-- The demo program asks for 21 bytes, and is told that it got them; a caller with room for
five bytes gets twenty. -/
theorem mppRead_disrespects :
    (mppRead (switches []) 21 0).written.length = 20 ∧ (mppRead (switches []) 21 0).ret = 21 ∧
      ¬ RespectsBuffer [] 21 (mppRead (switches []) 21 0) ∧
      ¬ RespectsBuffer [] 5 (mppRead (switches []) 5 0) := by
  refine ⟨by decide, by decide, fun h ↦ ?_, fun h ↦ ?_⟩
  · exact absurd h.counted (by decide)
  · exact absurd h.fits (by decide)

/-! ### Writes -/

/-- A write logs the user's bytes and nothing else, where a zero byte at their end may be their
terminator; a write that fails says so and logs nothing. -/
structure LogsBytes (calls : List Call) (size : BitVec 64) (buf : List UInt8) (k : Kernel)
    (r : WriteResult) : Prop where
  inside : r.outside = false
  exact : k.kmalloc size = true → (k.copyFromUser buf).2 = 0 → r.texts = [enabled calls buf] ∨
    ∃ t, buf = t ++ [0] ∧ r.texts = [enabled calls t]
  failed : k.kmalloc size = false ∨ (k.copyFromUser buf).2 ≠ 0 →
    r.texts = [] ∧ ∃ ret, r.ret = some ret ∧ ret.toInt < 0

/-- Capitals are made of letters only. -/
theorem toCapital_eq_zero (b : UInt8) : toCapital b = 0 ↔ b = 0 := by
  unfold toCapital
  split
  · grind
  · rfl

/-- The cipher makes another byte of a terminator, and nothing else does. -/
theorem enabledByte_zero (calls : List Call) :
    enabledByte calls 0 = if isOn reqCipher calls then 0x55 else 0 := by
  unfold enabledByte
  cases isOn reqCapitalise calls <;> rfl

/-- Without the cipher the zero bytes of a buffer stay where they are. -/
theorem zero_mem_enabled {calls : List Call} (h : isOn reqCipher calls = false)
    (buf : List UInt8) : 0 ∈ enabled calls buf ↔ 0 ∈ buf := by
  have hbyte : ∀ b, enabledByte calls b = 0 ↔ b = 0 := by
    intro b
    unfold enabledByte
    rw [h]
    split
    · exact toCapital_eq_zero b
    · rfl
  rw [enabled, List.mem_map]
  constructor
  · rintro ⟨b, hb, hzero⟩
    rwa [← (hbyte b).mp hzero]
  · exact fun hmem ↦ ⟨0, hmem, (hbyte 0).mpr rfl⟩

section Write

variable {s : Switches} {size : BitVec 64} {buf : Vector UInt8 size.toNat} {k : Kernel}

/-- What is said to be copied as a whole is. -/
theorem Kernel.Documented.copied_all (hk : k.Documented) {user : List UInt8}
    (h : (k.copyFromUser user).2 = 0) : (k.copyFromUser user).1 = user := by
  have hcopied := hk.copied user
  rwa [h, Nat.sub_zero, List.take_length, ← hk.copied_length user, List.take_length] at hcopied

/-- No more is logged of a string than it has. -/
theorem Kernel.Documented.printk_le (hk : k.Documented) {t : List UInt8} (ht : 0 ∉ t)
    (r : List UInt8) : (k.printk (t ++ 0 :: r)).1.length ≤ t.length := by
  cases hmark : k.marked t with
  | true => exact Nat.le_of_lt (hk.printk_level t r ht hmark)
  | false =>
    by_cases hlen : t.length ≤ k.limit
    · rw [hk.printk_whole t r ht hlen hmark]
    · exact (hk.printk_cut t r ht).trans (Nat.le_of_not_le hlen)

/-- As much is logged of a string as it has exactly if a record holds it and it begins with no
level. -/
theorem Kernel.Documented.printk_all (hk : k.Documented) {t : List UInt8} (ht : 0 ∉ t)
    (r : List UInt8) : (k.printk (t ++ 0 :: r)).1.length = t.length ↔
      t.length ≤ k.limit ∧ k.marked t = false := by
  constructor
  · intro h
    refine ⟨h ▸ hk.printk_cut t r ht, ?_⟩
    cases hmark : k.marked t with
    | true => exact absurd h (Nat.ne_of_lt (hk.printk_level t r ht hmark))
    | false => rfl
  · rintro ⟨hlen, hmark⟩
    rw [hk.printk_whole t r ht hlen hmark]

/-- The only string in the log of a write with memory for its bytes is what is logged of them. -/
theorem mppWrite_prints (s : Switches) (buf : Vector UInt8 size.toNat)
    (halloc : k.kmalloc size = true) (hsize : size ≠ 0) :
    let printed := k.printk (s.transform (k.copyFromUser buf.toList).1 ++ k.behind)
    (mppWrite s buf k).texts = [printed.1] ∧
      (mppWrite s buf k).outside = decide (size.toNat < printed.2) := by
  obtain ⟨cap, cip⟩ := s
  simp only [mppWrite, halloc, Bool.true_or, if_true, if_neg hsize]
  cases cap <;> cases cip <;> exact ⟨rfl, trivial⟩

/-- A write of no bytes logs the name of a place that cannot be read. -/
theorem mppWrite_none (hsize : size = 0) : (mppWrite s buf k).texts = [k.printkInvalid] := by
  obtain ⟨cap, cip⟩ := s
  simp only [mppWrite, hsize, decide_true, Bool.or_true, if_true]
  cases cap <;> cases cip <;> rfl

/-- A write without memory does not come back, or logs the name of the null pointer. -/
theorem mppWrite_null (halloc : k.kmalloc size = false) (hsize : size ≠ 0) :
    (mppWrite s buf k).ret = none ∨ (mppWrite s buf k).texts ≠ [] := by
  simp only [mppWrite, halloc, hsize, Bool.false_or, decide_false, Bool.false_eq_true, if_false]
  split
  · exact .inl rfl
  · split
    · exact .inl rfl
    · split
      · exact .inl rfl
      · exact .inr (List.cons_ne_nil _ _)

variable {calls : List Call}

-- a write for which memory or bytes are missing does not report it
private theorem LogsBytes.complete
    (h : LogsBytes calls size buf.toList k (mppWrite (switches calls) buf k)) :
    k.kmalloc size = true ∧ (k.copyFromUser buf.toList).2 = 0 := by
  by_contra hnot
  have hfails : k.kmalloc size = false ∨ (k.copyFromUser buf.toList).2 ≠ 0 := by
    rwa [not_and_or, Bool.not_eq_true] at hnot
  obtain ⟨hnone, ret, hret, -⟩ := h.failed hfails
  by_cases hsize : size = 0
  · rw [mppWrite_none hsize] at hnone
    cases hnone
  · cases halloc : k.kmalloc size with
    | true =>
      rw [(mppWrite_prints _ buf halloc hsize).1] at hnone
      cases hnone
    | false =>
      have hnull : (mppWrite (switches calls) buf k).ret = none ∨
          (mppWrite (switches calls) buf k).texts ≠ [] := mppWrite_null halloc hsize
      rcases hnull with hn | hn
      · rw [hn] at hret
        cases hret
      · exact hn hnone

private theorem transform_copied (hk : k.Documented) (halloc : k.kmalloc size = true)
    (hun : (k.copyFromUser buf.toList).2 = 0) :
    (switches calls).transform (k.copyFromUser buf.toList).1 = enabled calls buf.toList := by
  rw [hk.copied_all hun]
  apply transform_eq
  rw [Vector.length_toList]
  exact Nat.le_of_lt (hk.kmalloc_lt size halloc)

-- the string that is read ends in the buffer, at the user's terminator
private theorem terminated {l t r : List UInt8} (h : enabled calls l ++ k.behind = t ++ 0 :: r)
    {u : List UInt8} (hl : l = u ++ [0]) (hu : u.length = t.length) :
    enabled calls u = t ∧ isOn reqCipher calls = false := by
  have hsplit : enabled calls l = enabled calls u ++ [enabledByte calls 0] := by
    rw [hl, enabled, List.map_append]
    rfl
  have hlen : (enabled calls u).length = t.length := by rw [enabled, List.length_map, hu]
  rw [hsplit, List.append_assoc] at h
  obtain ⟨ht, hrest⟩ := List.append_inj h hlen
  refine ⟨ht, ?_⟩
  have hzero : enabledByte calls 0 = 0 := (List.cons.inj hrest).1
  rw [enabledByte_zero] at hzero
  cases hon : isOn reqCipher calls with
  | false => rfl
  | true =>
    rw [hon] at hzero
    cases hzero

end Write

/-- A write is logged as the user's bytes exactly if nothing is missing, the cipher is off, the
only zero byte is the last one, and the text in front of it fits a record and begins with no
log level. -/
theorem mppWrite_logs_iff (calls : List Call) {size : BitVec 64} (buf : Vector UInt8 size.toNat)
    (k : Kernel) (hk : k.Documented) :
    LogsBytes calls size buf.toList k (mppWrite (switches calls) buf k) ↔
      k.kmalloc size = true ∧ (k.copyFromUser buf.toList).2 = 0 ∧ isOn reqCipher calls = false ∧
        ∃ t, buf.toList = t ++ [0] ∧ 0 ∉ t ∧ t.length ≤ k.limit ∧
          k.marked (enabled calls t) = false := by
  have hbuf : buf.toList.length = size.toNat := Vector.length_toList ..
  have hlen : ∀ l, (enabled calls l).length = l.length := fun l ↦ List.length_map ..
  constructor
  · intro h
    obtain ⟨halloc, hun⟩ := h.complete
    have hexact := h.exact halloc hun
    have hinside := h.inside
    by_cases hsize : size = 0
    · -- nothing is written, and something is logged
      rw [mppWrite_none hsize] at hexact
      have hnil : buf.toList = [] := List.eq_nil_of_length_eq_zero (by rw [hbuf, hsize]; rfl)
      rw [hnil] at hexact
      rcases hexact with hempty | ⟨u, hu, -⟩
      · exact absurd (List.singleton_inj.mp hempty) hk.printk_invalid
      · exact absurd hu.symm (List.append_ne_nil_of_right_ne_nil _ (List.cons_ne_nil _ _))
    · obtain ⟨htexts, houtside⟩ := mppWrite_prints (switches calls) buf halloc hsize
      rw [transform_copied hk halloc hun] at htexts houtside
      obtain ⟨t, r, hmem, ht⟩ := List.eq_append_cons_of_mem
        (List.mem_append_right (enabled calls buf.toList) hk.behind_text)
      rw [hmem] at htexts houtside
      rw [houtside, hk.printk_reads t r ht, decide_eq_false_iff_not] at hinside
      have hle := hk.printk_le ht r
      simp only [htexts, List.singleton_inj] at hexact
      rcases hexact with hall | ⟨u, hu, htext⟩
      · -- the zero byte that ends the reading would be logged
        have hcount := congrArg List.length hall
        rw [hlen] at hcount
        omega
      · have hcount := congrArg List.length htext
        have hlast := congrArg List.length hu
        rw [hlen] at hcount
        rw [List.length_append, List.length_singleton] at hlast
        have hut : u.length = t.length := by omega
        obtain ⟨hfits, hmark⟩ := (hk.printk_all ht r).mp (by omega)
        obtain ⟨rfl, hoff⟩ := terminated hmem hu hut
        refine ⟨halloc, hun, hoff, u, hu, (zero_mem_enabled hoff u).not.mp ht, ?_, hmark⟩
        rwa [hut]
  · rintro ⟨halloc, hun, hoff, u, hu, hzero, hfits, hmark⟩
    have hsize : size ≠ 0 := by
      rintro rfl
      have hlast := congrArg List.length hu
      rw [hbuf, List.length_append] at hlast
      cases hlast
    have hmem : enabled calls buf.toList ++ k.behind = enabled calls u ++ 0 :: k.behind := by
      rw [hu, enabled, List.map_append, List.map_singleton, enabledByte_zero, hoff,
        List.append_assoc]
      rfl
    have ht := (zero_mem_enabled hoff u).not.mpr hzero
    obtain ⟨htexts, houtside⟩ := mppWrite_prints (switches calls) buf halloc hsize
    rw [transform_copied hk halloc hun, hmem] at htexts houtside
    rw [hk.printk_whole _ _ ht (by rwa [hlen]) hmark] at htexts
    rw [hk.printk_reads _ _ ht, hlen] at houtside
    refine ⟨?_, fun _ _ ↦ .inr ⟨u, hu, htexts⟩, ?_⟩
    · have hlast := congrArg List.length hu
      rw [hbuf, List.length_append, List.length_singleton] at hlast
      rw [houtside, decide_eq_false_iff_not]
      omega
    · rintro (hnull | hmissing)
      · cases halloc.symm.trans hnull
      · exact absurd hun hmissing

/-! ### A kernel -/

/-- Take off the log levels that a text begins with, each `KERN_SOH` and a digit or `c`. -/
def stripLevels : List UInt8 → List UInt8
  | 1 :: c :: t => if c ∈ ascii "01234567c".toList then stripLevels t else 1 :: c :: t
  | t => t

/-- A kernel with records of 1023 bytes, memory for up to 4 MiB, every user's byte there, and
four bytes in front of the next zero byte. -/
def sampleKernel : Kernel where
  kmalloc size := decide (size.toNat ≤ 2 ^ 22)
  copyFromUser user := (user, 0)
  nullCopy := false
  behind := [0xDE, 0xAD, 0xBE, 0xEF, 0]
  printk mem :=
    let t := mem.takeWhile (· != 0)
    (stripLevels (t.take 1023), t.length + 1)
  printkInvalid := ascii "(efault)".toList
  limit := 1023
  levels := ascii "01234567c".toList

private theorem stripLevels_length (t : List UInt8) : (stripLevels t).length ≤ t.length := by
  fun_induction stripLevels t with
  | case1 c t h ih => exact ih.trans (by simp only [List.length_cons]; omega)
  | case2 c t h => exact Nat.le_refl _
  | case3 t h => exact Nat.le_refl _

/-- The kernel does what the documentation says. -/
theorem sampleKernel_documented : sampleKernel.Documented := by
  have hread : ∀ t r : List UInt8, 0 ∉ t → (t ++ 0 :: r).takeWhile (· != 0) = t := by
    intro t r ht
    have htext := cText_of_zero ht r
    rw [cText, if_pos (List.mem_append_right _ List.mem_cons_self)] at htext
    exact Option.some.inj htext
  have hprintk : ∀ t r : List UInt8, 0 ∉ t →
      sampleKernel.printk (t ++ 0 :: r) = (stripLevels (t.take 1023), t.length + 1) := by
    intro t r ht
    simp only [sampleKernel, hread t r ht]
  constructor
  · intro size h
    have hle : size.toNat ≤ 2 ^ 22 := of_decide_eq_true h
    omega
  · exact fun _ ↦ rfl
  · exact fun _ ↦ rfl
  · intro t r ht
    rw [hprintk t r ht]
  · intro t r ht hlen hmark
    have hle : t.length ≤ 1023 := hlen
    rw [hprintk t r ht, List.take_of_length_le hle]
    unfold stripLevels
    split
    · exact if_neg (of_decide_eq_false hmark)
    · rfl
  · intro t r ht
    rw [hprintk t r ht]
    exact (stripLevels_length _).trans (List.length_take_le _ _)
  · intro t r ht hmark
    rw [hprintk t r ht]
    unfold Kernel.marked at hmark
    split at hmark
    · next c t =>
      have hc : c ∈ ascii "01234567c".toList := of_decide_eq_true hmark
      show (stripLevels (1 :: c :: t.take 1021)).length < (1 :: c :: t).length
      rw [stripLevels, if_pos hc]
      have hle := (stripLevels_length (t.take 1021)).trans (List.length_take_le' _ _)
      simp only [List.length_cons]
      omega
    · cases hmark
  · decide
  · decide

/-- The message that the demo program writes when it has switched the cipher on. -/
def secret : Vector UInt8 (17 : BitVec 64).toNat :=
  ⟨(cString "Super tajna vec\n".toList).toArray, by decide⟩

/-- While the cipher is off the message is logged as it is. -/
theorem mppWrite_logs_iff_example : sampleKernel.Documented ∧
    LogsBytes [] 17 secret.toList sampleKernel (mppWrite (switches []) secret sampleKernel) :=
  ⟨sampleKernel_documented, (mppWrite_logs_iff [] secret sampleKernel sampleKernel_documented).mpr
    ⟨by decide, rfl, by decide, ascii "Super tajna vec\n".toList, by decide, by decide, by decide,
      by decide⟩⟩

/-- The terminator of the secret message is ciphered, and the kernel's own bytes are logged. -/
theorem mppWrite_secret :
    sampleKernel.Documented ∧
      (mppWrite (switches [.ioctl reqCipher 1]) secret sampleKernel).outside = true ∧
      ¬ LogsBytes [.ioctl reqCipher 1] 17 secret.toList sampleKernel
        (mppWrite (switches [.ioctl reqCipher 1]) secret sampleKernel) := by
  have houtside :
      (mppWrite (switches [.ioctl reqCipher 1]) secret sampleKernel).outside = true := by decide
  exact ⟨sampleKernel_documented, houtside, fun h ↦ absurd h.inside (by rw [houtside]; decide)⟩

end BiMpp.Chardev
