import BiMpp.Base.Text

/-!
# The character device

The driver of `cv10_kernel_chardev/kernel_driver/mpp.c:57–124`: a greeting that can be read, a
log that can be written, and two switches that transform what passes. `kmalloc`,
`copy_from_user`, `copy_to_user` and `printk` are the kernel's: parameters, of which is assumed
what their documentation says.
-/

namespace BiMpp.Chardev
open BiMpp.Base

/-! ### The switches -/

/-- `g_Capitalise` and `g_CipherToggle`; `mpp.c:42–43`. -/
structure Switches where
  capitalise : Bool
  cipher : Bool
  deriving DecidableEq, Repr

/-- `REQ_CAPITALISE`; `mpp.c:101`. -/
abbrev reqCapitalise : BitVec 32 := 100

/-- `REQ_CIPHER`; `mpp.c:102`. -/
abbrev reqCipher : BitVec 32 := 200

/-- `mpp_ioctl`, which returns 0 for every request; `mpp.c:104–124`. -/
def mppIoctl (s : Switches) (request : BitVec 32) (param : BitVec 64) : Switches :=
  if request = reqCapitalise then { s with capitalise := decide (param = 1) }
  else if request = reqCipher then { s with cipher := decide (param = 1) }
  else s

/-- The calls of the driver; `mpp.c:14–40`. -/
inductive Call
  | ioctl (request : BitVec 32) (param : BitVec 64)
  | openDevice
  | read
  | write
  | release
  deriving DecidableEq, Repr

/-- The switches after a call. -/
def Switches.after (s : Switches) : Call → Switches
  | .ioctl request param => mppIoctl s request param
  | _ => s

/-- The switches after a history of calls; both are off when the module is loaded. -/
def switches (calls : List Call) : Switches := calls.foldl Switches.after ⟨false, false⟩

/-! ### Transforming bytes -/

/-- `for ( int i = 0; i < size; i++ )` over a buffer. Behind `INT_MAX` the counter is negative,
and more than `size` when it is compared with it. -/
def eachByte (f : UInt8 → UInt8) (buf : List UInt8) : List UInt8 :=
  (buf.take (2 ^ 31)).map f ++ buf.drop (2 ^ 31)

/-- A small letter in capitals; `mpp.c:68–69`. -/
def toCapital (b : UInt8) : UInt8 := if 0x61 ≤ b ∧ b ≤ 0x7A then b - 0x61 + 0x41 else b

/-- `cipher`; `mpp.c:57–62`. -/
def cipher (buf : List UInt8) : List UInt8 := eachByte (· ^^^ 0x55) buf

/-- `capitalise`; `mpp.c:64–70`. -/
def capitalise (buf : List UInt8) : List UInt8 := eachByte toCapital buf

/-- What the switches make of a buffer; `mpp.c:77–78,91–92`. -/
def Switches.transform (s : Switches) (buf : List UInt8) : List UInt8 :=
  let buf := if s.capitalise then Chardev.capitalise buf else buf
  if s.cipher then Chardev.cipher buf else buf

/-- A call of `printk`: a fixed message, or what is logged of a string from memory. -/
inductive LogEntry
  | message (m : String)
  | text (t : List UInt8)
  deriving DecidableEq, Repr

/-- The messages of `capitalise` and `cipher`. -/
def Switches.messages (s : Switches) : List LogEntry :=
  (if s.capitalise then [.message "capitalise\n"] else []) ++
    (if s.cipher then [.message "cipher\n"] else [])

/-! ### Reading -/

/-- `str`; `mpp.c:75`. -/
def greeting : List UInt8 := cString "Hello from kernel!\n".toList

/-- `sizeof(str)`. -/
abbrev greetingSize : Nat := 20

/-- What `mpp_read` does: its messages, the bytes it leaves in the user's buffer, from the
first on, and what it returns. -/
structure ReadResult where
  log : List LogEntry
  written : List UInt8
  ret : BitVec 64
  deriving DecidableEq, Repr

/-- `mpp_read`, where `copy_to_user` leaves the last bytes uncopied; `mpp.c:72–82`. -/
def mppRead (s : Switches) (size : BitVec 64) (notCopied : Fin (greetingSize + 1)) :
    ReadResult where
  log := .message "mpp_read\n" :: s.messages
  written := (s.transform greeting).take (greetingSize - notCopied)
  ret := size - BitVec.ofNat 64 notCopied

/-! ### Writing -/

/-- The kernel under `mpp_write`: whether there is memory; what `copy_from_user` leaves in the
memory of the user's bytes, and how many it says are missing; whether it comes back from a null
pointer; what lies behind the memory; what `printk("%s")` logs of the memory from a place on,
and how many bytes it reads there; what it logs for a place that is no memory; the most bytes
it logs, and the bytes that name a log level. -/
structure Kernel where
  kmalloc : BitVec 64 → Bool
  copyFromUser : List UInt8 → List UInt8 × Nat
  nullCopy : Bool
  behind : List UInt8
  printk : List UInt8 → List UInt8 × Nat
  printkInvalid : List UInt8
  limit : Nat
  levels : List UInt8

/-- A text that begins with a log level: `KERN_SOH` and the byte that names it. -/
def Kernel.marked (k : Kernel) : List UInt8 → Bool
  | 1 :: c :: _ => decide (c ∈ k.levels)
  | _ => false

/-- What the documentation says of the kernel's functions. `kmalloc` gives out less than 2 GiB.
`copy_from_user` fills the memory, and has copied what it does not say is missing. `printk`
reads a string with its terminator; it logs the string if that is no longer than a record and
begins with no level, never more than a record holds, and never a level it begins with; it names
a place that it cannot read. Somewhere behind the memory is a zero byte. -/
structure Kernel.Documented (k : Kernel) : Prop where
  kmalloc_lt : ∀ size, k.kmalloc size = true → size.toNat < 2 ^ 31
  copied_length : ∀ user, (k.copyFromUser user).1.length = user.length
  copied : ∀ user, (k.copyFromUser user).1.take (user.length - (k.copyFromUser user).2) =
    user.take (user.length - (k.copyFromUser user).2)
  printk_reads : ∀ t r, 0 ∉ t → (k.printk (t ++ 0 :: r)).2 = t.length + 1
  printk_whole : ∀ t r, 0 ∉ t → t.length ≤ k.limit → k.marked t = false →
    (k.printk (t ++ 0 :: r)).1 = t
  printk_cut : ∀ t r, 0 ∉ t → (k.printk (t ++ 0 :: r)).1.length ≤ k.limit
  printk_level : ∀ t r, 0 ∉ t → k.marked t = true → (k.printk (t ++ 0 :: r)).1.length < t.length
  printk_invalid : k.printkInvalid ≠ []
  behind_text : 0 ∈ k.behind

/-- What `mpp_write` does: its log, whether it read a byte outside its memory, and what it
returns, unless it writes through a null pointer and returns no more. -/
structure WriteResult where
  log : List LogEntry
  outside : Bool
  ret : Option (BitVec 64)
  deriving DecidableEq, Repr

/-- The strings of a log, without the fixed messages. -/
def WriteResult.texts (r : WriteResult) : List (List UInt8) :=
  r.log.filterMap fun e ↦ match e with
    | .text t => some t
    | .message _ => none

/-- `mpp_write`; `mpp.c:84–98`. No pointer is checked: without memory the kernel's functions and
the loops get the null pointer. The memory for no bytes is at a place that is not read. -/
def mppWrite (s : Switches) {size : BitVec 64} (buf : Vector UInt8 size.toNat) (k : Kernel) :
    WriteResult :=
  if k.kmalloc size || size = 0 then
    let kbuf := s.transform (k.copyFromUser buf.toList).1
    let (text, read) := if size = 0 then (k.printkInvalid, 0) else k.printk (kbuf ++ k.behind)
    ⟨.message "mpp_write\n" :: s.messages ++ [.text text], size.toNat < read, some size⟩
  else if !k.nullCopy then ⟨[.message "mpp_write\n"], false, none⟩
  else if s.capitalise then ⟨[.message "mpp_write\n", .message "capitalise\n"], false, none⟩
  else if s.cipher then ⟨[.message "mpp_write\n", .message "cipher\n"], false, none⟩
  else ⟨[.message "mpp_write\n", .text k.printkInvalid], false, some size⟩

/-! ### What the switches are for -/

/-- What a call says about a switch: a request for it switches it on with 1, and off with
anything else. -/
def Call.sets (request : BitVec 32) : Call → Option Bool
  | ioctl r param => if r = request then some (decide (param = 1)) else none
  | _ => none

/-- A switch is as the last request for it left it, and off before the first one. -/
def isOn (request : BitVec 32) (calls : List Call) : Bool :=
  (calls.filterMap (Call.sets request)).getLast?.getD false

/-- A byte, transformed by the switches that are on. -/
def enabledByte (calls : List Call) (b : UInt8) : UInt8 :=
  let b := if isOn reqCapitalise calls then toCapital b else b
  if isOn reqCipher calls then b ^^^ 0x55 else b

/-- Bytes, transformed by the switches that are on. -/
def enabled (calls : List Call) (bytes : List UInt8) : List UInt8 := bytes.map (enabledByte calls)

private theorem isOn_concat (request : BitVec 32) (calls : List Call) (c : Call) :
    isOn request (calls ++ [c]) = (c.sets request).getD (isOn request calls) := by
  rw [isOn, List.filterMap_append, List.getLast?_append]
  cases h : c.sets request <;> simp [isOn, h]

private theorem switches_concat (calls : List Call) (c : Call) :
    switches (calls ++ [c]) = (switches calls).after c := List.foldl_concat ..

/-- One call leaves the switches as it says. -/
theorem Switches.after_eq (s : Switches) (c : Call) : s.after c =
    ⟨(c.sets reqCapitalise).getD s.capitalise, (c.sets reqCipher).getD s.cipher⟩ := by
  cases c with
  | ioctl request param =>
    simp only [after, mppIoctl, Call.sets]
    split
    · next h =>
      subst h
      rfl
    · split <;> rfl
  | _ => rfl

/-- After any history the variables of the driver are the switches. -/
theorem switches_eq (calls : List Call) :
    switches calls = ⟨isOn reqCapitalise calls, isOn reqCipher calls⟩ := by
  induction calls using List.reverseRecOn with
  | nil => rfl
  | append_singleton calls c ih =>
    rw [switches_concat, Switches.after_eq, ih, isOn_concat, isOn_concat]

/-- A buffer of at most 2 GiB is transformed as a whole. -/
theorem eachByte_eq {f : UInt8 → UInt8} {buf : List UInt8} (h : buf.length ≤ 2 ^ 31) :
    eachByte f buf = buf.map f := by
  rw [eachByte, List.take_of_length_le h, List.drop_of_length_le h, List.append_nil]

/-- After any history the driver transforms bytes as the switches say. -/
theorem transform_eq (calls : List Call) {buf : List UInt8} (h : buf.length ≤ 2 ^ 31) :
    (switches calls).transform buf = enabled calls buf := by
  have hcap : capitalise buf = buf.map toCapital := eachByte_eq h
  have hlen : (buf.map toCapital).length ≤ 2 ^ 31 := by rwa [List.length_map]
  rw [switches_eq, Switches.transform, hcap, cipher, enabled]
  unfold enabledByte
  cases isOn reqCapitalise calls with
  | true =>
    cases isOn reqCipher calls with
    | true => exact (eachByte_eq hlen).trans List.map_map
    | false => rfl
  | false =>
    cases isOn reqCipher calls with
    | true => exact eachByte_eq h
    | false => exact (List.map_id' buf).symm

end BiMpp.Chardev
