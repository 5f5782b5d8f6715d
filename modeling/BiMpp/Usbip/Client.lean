import BiMpp.Base.Decoding
import BiMpp.Usbip.Accounting
import BiMpp.Usbip.Messages

/-!
# What a client reads

A client reads RET_SUBMITs off its connection: a header of 48 bytes and, for direction IN, as many
bytes behind it as its `actual_length` says, which is how `on_urb_complete` writes them:
`bi-mpp-pic24-usb-simulator-master/include/usbip.h:88–103`, `src/usbip.c:81–112`. As long as
headers are sent alone, what has arrived is read as the first of the replies, and at rest as one
reply to each CMD_SUBMIT.
-/

namespace BiMpp.Usbip
open BiMpp.Usb BiMpp.Base BiMpp.Host

/-! ### The reader -/

/-- A RET_SUBMIT with what follows it. -/
abbrev RetMessage := RetSubmit × List UInt8

/-- How many bytes follow a RET_SUBMIT. -/
def RetSubmit.payloadLength (r : RetSubmit) : Nat :=
  if r.direction = 0 then 0 else r.actualLength.toNat

/-- A reply as it is sent. -/
def RetMessage.bytes (x : RetMessage) : List UInt8 := x.1.bytes ++ x.2

/-- A header of its size, with as many bytes behind it as it says. -/
def RetMessage.WellFormed (x : RetMessage) : Prop :=
  x.1.setup.length = 8 ∧ x.2.length = x.1.payloadLength

/-- Read one reply, if it has arrived. -/
def readReply (l : List UInt8) : Option (RetMessage × List UInt8) :=
  let r := RetSubmit.read (l.take 48)
  if 48 + r.payloadLength ≤ l.length then
    some ((r, (l.drop 48).take r.payloadLength), l.drop (48 + r.payloadLength))
  else none

/-- Read the replies that have arrived: these, and the bytes of the one that is still arriving. -/
def readReplies (l : List UInt8) : List RetMessage × List UInt8 := readAll readReply l.length l

private theorem readReply_bytes {x : RetMessage} (h : x.WellFormed) (rest : List UInt8) :
    readReply (x.bytes ++ rest) = some (x, rest) := by
  obtain ⟨r, payload⟩ := x
  have hlen : r.bytes.length = 48 := RetSubmit.length_bytes h.1
  have hread : RetSubmit.read ((RetMessage.bytes (r, payload) ++ rest).take 48) = r := by
    rw [RetMessage.bytes, List.append_assoc, List.take_left' hlen]
    exact RetSubmit.read_bytes r
  have hdrop : (RetMessage.bytes (r, payload) ++ rest).drop 48 = payload ++ rest := by
    rw [RetMessage.bytes, List.append_assoc]
    exact List.drop_left' hlen
  have hpayload : payload.length = r.payloadLength := h.2
  unfold readReply
  simp only [hread]
  rw [if_pos, ← List.drop_drop, hdrop, List.take_left' hpayload, List.drop_left' hpayload]
  rw [RetMessage.bytes, List.length_append, List.length_append, hlen, hpayload]
  exact Nat.le_add_right ..

private theorem readReply_sound {l rest : List UInt8} {x : RetMessage}
    (h : readReply l = some (x, rest)) : x.WellFormed ∧ l = x.bytes ++ rest := by
  unfold readReply at h
  dsimp only at h
  split at h
  · next hle =>
    obtain ⟨rfl, rfl⟩ := Prod.mk.inj (Option.some.inj h)
    have hlen : (l.take 48).length = 48 := by
      rw [List.length_take]
      omega
    constructor
    · constructor
      · show ((l.take 48).drop 40).length = 8
        rw [List.length_drop, hlen]
      · show ((l.drop 48).take _).length = _
        rw [List.length_take, List.length_drop]
        exact Nat.min_eq_left (by omega)
    · rw [RetMessage.bytes, RetSubmit.bytes_read _ (by omega), List.append_assoc, ← List.drop_drop,
        List.take_append_drop, List.take_append_drop]
  · cases h

private theorem decodes_readReply : Decodes RetMessage.bytes RetMessage.WellFormed readReply where
  whole _ h := readReply_bytes h
  sound _ _ _ := readReply_sound
  nonempty x h hnil := by
    have hlen : x.1.bytes.length = 48 := RetSubmit.length_bytes h.1
    rw [RetMessage.bytes, List.append_eq_nil_iff] at hnil
    rw [hnil.1] at hlen
    cases hlen

/-! ### The replies of a run -/

/-- A reply as a client is to read it. -/
def Reply.message (r : Reply) : RetMessage := (retSubmit r.urb r.stack, r.urb.payload)

/-- A reply to a request: in its own name, and within its own length. -/
structure RetMessage.Answers (x : RetMessage) (c : CmdSubmit) : Prop where
  seqnum : x.1.seqnum = c.seqnum
  devid : x.1.devid = c.devid
  direction : x.1.direction = c.direction
  ep : x.1.ep = c.ep
  length : (x.2.length : Int) ≤ c.size

section Run

variable {es : List ServerEvent} {s : Server}

private theorem message_wellFormed {r : Reply} (hstack : r.stack.length = 8)
    (hsized : r.urb.Sized) : r.message.WellFormed := by
  refine ⟨hstack, ?_⟩
  have hpos := hsized.nonneg
  have hle := hsized.inside
  have hdata := hsized.data
  have hlt : r.urb.submit.size < 2 ^ 31 := BitVec.toInt_lt
  have hlength : (BitVec.ofInt 32 r.urb.length).toNat = r.urb.length.toNat := by
    rw [BitVec.toNat_ofInt]
    omega
  show r.urb.payload.length = RetSubmit.payloadLength (retSubmit r.urb r.stack)
  unfold Urb.payload RetSubmit.payloadLength CmdSubmit.dirIn
  change _ = if r.urb.submit.direction = 0 then 0 else (BitVec.ofInt 32 r.urb.length).toNat
  rw [hlength]
  by_cases hdir : r.urb.submit.direction = 0
  · rw [if_pos hdir, if_neg (by simp [hdir])]
    rfl
  · rw [if_neg hdir, if_pos (bne_iff_ne.mpr hdir), List.length_take]
    omega

private theorem message_answers {r : Reply} (hsized : r.urb.Sized) :
    r.message.Answers r.urb.submit := by
  refine ⟨rfl, rfl, rfl, rfl, ?_⟩
  have hpos := hsized.nonneg
  have hle := hsized.inside
  show (r.urb.payload.length : Int) ≤ _
  unfold Urb.payload
  split
  · rw [List.length_take]
    omega
  · exact Int.le_trans hpos hle

-- the bytes of the replies are those of their messages
private theorem Framed.messages (h : Framed es s) :
    wire es ++ s.owed = ((replies es).map Reply.message).flatMap RetMessage.bytes := by
  rw [h.frames, List.flatMap_map]
  rfl

/-- As long as headers are sent alone, whatever has been written is read as the first of the
replies: each of these is to a CMD_SUBMIT, in its name and within its length. At rest nothing is
left over, and the sequence numbers read are those of the CMD_SUBMITs, each as often as it was
received. -/
theorem ServerRun.client_reads
    (h : Run (Guarded (Fires serverExec) HeaderAlone) serverInit es s) :
    (readReplies (wire es)).1 <+: (replies es).map Reply.message ∧
      (∀ x ∈ (readReplies (wire es)).1, ∃ c ∈ (received es).map Prod.snd, x.Answers c) ∧
      (s.AtRest → (readReplies (wire es)).2 = [] ∧
        ((readReplies (wire es)).1.map fun x ↦ x.1.seqnum).Perm
          ((received es).map fun c ↦ c.2.seqnum)) := by
  have hrun : ServerRun es s := h.unguarded
  have hset := ServerRun.settled hrun
  have hgood : ∀ x ∈ (replies es).map Reply.message, x.WellFormed := by
    intro x hx
    obtain ⟨r, hr, rfl⟩ := List.mem_map.mp hx
    obtain ⟨-, hsized, hstack⟩ := hset.own r hr
    exact message_wellFormed hstack hsized
  have hwire := (ServerRun.framed h).messages
  have hfirst : (readReplies (wire es)).1 <+: (replies es).map Reply.message :=
    decodes_readReply.readAll_prefix hgood ⟨s.owed, hwire⟩ (Nat.le_refl _)
  refine ⟨hfirst, ?_, ?_⟩
  · intro x hx
    obtain ⟨r, hr, rfl⟩ := List.mem_map.mp (hfirst.subset hx)
    obtain ⟨hrec, hsized, -⟩ := hset.own r hr
    exact ⟨r.urb.submit, List.mem_map_of_mem (f := Prod.snd) hrec, message_answers hsized⟩
  · intro hrest
    have howed : s.owed = [] := by
      refine Thread.collect_eq_nil.mpr fun t ↦ ?_
      rw [hrest.1 t]
      rfl
    rw [howed, List.append_nil] at hwire
    have hall : readReplies (wire es) = ((replies es).map Reply.message, []) := by
      unfold readReplies
      rw [hwire]
      exact decodes_readReply.readAll_flatMap hgood (Nat.le_refl _)
    rw [hall]
    have hperm := (hrun.replies_perm hrest).map fun c ↦ c.2.seqnum
    rw [List.map_map] at hperm
    rw [List.map_map]
    exact ⟨rfl, hperm⟩

end Run

private def clientOps : List ServerOp :=
  [.start .accept ⟨7, 0x10001, 1, 2, 1, [0, 0, 0, 0, 0, 0, 0, 0]⟩ 64 [0], .insert .accept,
    .link .accept] ++ hcdTurn .nak ++ hcdTurn .nak ++ hcdTurn .nak ++ hcdTurn .nak ++
  hcdTurn (.ack 1 [5]) ++ hcdTurn .nak ++
  [.header .hcd (List.replicate 8 0), .payload .hcd, .free .hcd]

/-- A client reads its one reply. -/
theorem ServerRun.client_reads_one : ∃ es s,
    Run (Guarded (Fires serverExec) HeaderAlone) serverInit es s ∧ s.AtRest ∧
    (readReplies (wire es)).1.map Prod.snd = [[5]] ∧
    ((readReplies (wire es)).1.map fun x ↦ x.1.seqnum).Perm
      ((received es).map fun c ↦ c.2.seqnum) := by
  have hcheck : runsTo (guardedExec serverExec HeaderAlone .blocked) serverInit clientOps
      (fun s es ↦ decide (s.AtRest ∧ (readReplies (wire es)).1.map Prod.snd = [[5]])) = true := by
    decide +kernel
  obtain ⟨es, s, hrun, hp⟩ := Run.of_runsTo hcheck
  have hrun' := Run.of_guardedExec hrun
  have hp' := of_decide_eq_true hp
  exact ⟨es, s, hrun', hp'.1, hp'.2, ((ServerRun.client_reads hrun').2.2 hp'.1).2⟩

end BiMpp.Usbip
