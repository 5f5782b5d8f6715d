import BiMpp.Usbip.Handling

/-!
# Any stream

The inner loop of `accept_loop` on whatever a client sends:
`bi-mpp-pic24-usb-simulator-master/src/usbip.c:128–276`. It takes a message and comes back, or
closes the connection, as long as the stream is made of whole messages that nothing is wrong
with. An unknown command is never taken, and anything cut short ends the process.
-/

namespace BiMpp.Usbip
open BiMpp.Usb BiMpp.Base BiMpp.Host BiMpp.Device

/-- What the iterations get from the socket. -/
def arrivals (moments : Nat → Moment) (i : Nat) : Arrival := (moments i).toArrival

/-- An iteration as it should be: it closes the connection, or it takes one whole message,
chosen by header bytes that had arrived, and comes back from handling it. -/
def Sound (m : Moment) (l : List UInt8) : Prop :=
  acceptIteration m.toArrival l = .closed ∨
    ∃ (msg : Message) (rest got : List UInt8),
      acceptIteration m.toArrival l = .handled msg.1 rest ∧ l = msg.1.bytes ++ rest ∧
        m.received l = some got ∧ 4 ≤ got.length ∧ Returns m msg.1

/-- A stream that neither wedges nor kills the server: all iterations are as they should
be, and one closes the connection. -/
structure Unwedged (moments : Nat → Moment) (l : List UInt8) : Prop where
  sound : ∀ i rest, position (arrivals moments) l i = some rest → Sound (moments i) rest
  ends : ∃ i rest, position (arrivals moments) l i = some rest ∧
    acceptIteration (moments i).toArrival rest = .closed

/-- Whole messages with payloads whose lengths are `int`s, at least half of every header in time
for the peek, every read given all it asks for, every request with what it takes, and no error at
the end of the stream. -/
structure Orderly (moments : Nat → Moment) (l : List UInt8) (ms : List Message) : Prop where
  whole : l = stream ms
  small : ∀ m ∈ ms, Message.Small m
  peeked : ∀ i < ms.length, (moments i).peek.Covers 4
  read : ∀ i (hi : i < ms.length), (moments i).Reads (ms.get ⟨i, hi⟩).1
  handled : ∀ i (hi : i < ms.length), (moments i).Handles (ms.get ⟨i, hi⟩).1
  closes : (moments ms.length).peek ≠ .failed

section Stream

variable {moments : Nat → Moment} {m : Moment} {a : Arrival} {l rest : List UInt8}
  {ms : List Message}

private theorem submitCase_not_closed : submitCase a l ≠ .closed := by
  unfold submitCase
  split
  · simp
  · dsimp only
    split
    · simp
    · split
      · split <;> simp
      · simp

private theorem unlinkCase_not_closed : unlinkCase a l ≠ .closed := by
  unfold unlinkCase
  split <;> simp

private theorem importCase_not_closed : importCase a l ≠ .closed := by
  unfold importCase
  split <;> simp

private theorem devlistCase_not_closed : devlistCase a l ≠ .closed := by
  unfold devlistCase
  split <;> simp

-- a peek of a stream with bytes left finds one
private theorem received_nil (h : a.received l = some []) : l = [] ∧ a.peek ≠ .failed := by
  unfold Arrival.received at h
  have hzero : ∀ n, 0 < n → l.take n = [] → l = [] := by
    intro n hn hnil
    exact (List.take_eq_nil_iff.mp hnil).resolve_left (by omega)
  split at h
  · cases h
  · next hpeek => exact ⟨hzero 8 (by decide) (Option.some.inj h), by simp [hpeek]⟩
  · next k hpeek =>
    exact ⟨hzero _ (by omega) (Option.some.inj h), by simp [hpeek]⟩

/-- A connection is closed at the end of the stream only. -/
theorem eq_nil_of_closed (h : acceptIteration a l = .closed) : l = [] ∧ a.peek ≠ .failed := by
  unfold acceptIteration at h
  split at h
  · cases h
  · next got hgot =>
    split at h
    · next hnil =>
      rw [hnil] at hgot
      exact received_nil hgot
    · dsimp only at h
      split at h
      · exact absurd h submitCase_not_closed
      · split at h
        · exact absurd h unlinkCase_not_closed
        · split at h
          · exact absurd h importCase_not_closed
          · split at h
            · exact absurd h devlistCase_not_closed
            · cases h

-- a peek that finds so many bytes could
private theorem covers_of_received {got : List UInt8} {n : Nat} (h : a.received l = some got)
    (hn : n ≤ got.length) (h1 : 1 < n) : a.peek.Covers n := by
  unfold Arrival.received at h
  split at h
  · cases h
  · next hpeek =>
    rw [hpeek]
    trivial
  · next k hpeek =>
    cases h
    rw [List.length_take] at hn
    rw [hpeek]
    show n ≤ k
    omega

/-- Where an iteration takes a message, everything is there that it takes. -/
theorem handled_iff {msg : Message} (hp : m.peek.Covers 4) :
    acceptIteration m.toArrival (msg.1.bytes ++ rest) = .handled msg.1 rest ∧ Returns m msg.1 ↔
      msg.Small ∧ m.Reads msg.1 ∧ m.Handles msg.1 := by
  rw [acceptIteration_message rest hp, returns_iff]
  split
  · next h => simp [h]
  · next h =>
    simp only [reduceCtorEq, false_and, false_iff]
    exact fun hall ↦ h ⟨hall.1, hall.2.1⟩

/-- Where every iteration is as it should be, what is left of the stream is orderly. -/
theorem orderly_of_sound
    (h : ∀ i rest, position (arrivals moments) l i = some rest → Sound (moments i) rest)
    {k : Nat} (hk : position (arrivals moments) l k = some rest) :
    ∃ ms, Orderly (fun i ↦ moments (k + i)) rest ms := by
  -- what is left gets shorter with every message
  induction hlen : rest.length using Nat.strongRecOn generalizing k rest with
  | _ n ih =>
    rcases h k rest hk with hclosed | ⟨m, rest', got, hacc, hwhole, hgot, hrec, hret⟩
    · obtain ⟨hnil, hpeek⟩ := eq_nil_of_closed hclosed
      refine ⟨[], hnil, ?_, ?_, ?_, ?_, hpeek⟩
      · intro m hm
        cases hm
      all_goals exact fun i hi ↦ absurd hi (Nat.not_lt_zero i)
    · have hpeek : (moments k).peek.Covers 4 := covers_of_received hgot hrec (by decide)
      have hacc' := hacc
      rw [hwhole] at hacc'
      obtain ⟨hsmall, hreads, hhandles⟩ := (handled_iff hpeek).mp ⟨hacc', hret⟩
      have hshort : rest'.length < n := by
        have hm := m.2.length_le
        rw [hwhole, List.length_append] at hlen
        omega
      obtain ⟨ms, hms⟩ := ih rest'.length hshort (position_succ hk hacc) rfl
      have hmoment : ∀ i, moments (k + 1 + i) = moments (k + (i + 1)) := fun i ↦ by
        rw [Nat.add_assoc, Nat.add_comm 1 i]
      refine ⟨m :: ms, ?_, ?_, ?_, ?_, ?_, ?_⟩
      · rw [stream_cons, ← hms.whole]
        exact hwhole
      · intro m' hm'
        rcases List.mem_cons.mp hm' with rfl | hm'
        · exact hsmall
        · exact hms.small m' hm'
      · intro i hi
        cases i with
        | zero => exact hpeek
        | succ i =>
          rw [← hmoment]
          exact hms.peeked i (Nat.lt_of_succ_lt_succ hi)
      · intro i hi
        cases i with
        | zero => exact hreads
        | succ i =>
          rw [← hmoment]
          exact hms.read i (Nat.lt_of_succ_lt_succ hi)
      · intro i hi
        cases i with
        | zero => exact hhandles
        | succ i =>
          rw [← hmoment]
          exact hms.handled i (Nat.lt_of_succ_lt_succ hi)
      · rw [List.length_cons, ← hmoment]
        exact hms.closes

namespace Orderly

/-- After as many messages, an orderly stream is left with the others. -/
theorem position_eq (h : Orderly moments l ms) {i : Nat} (hi : i ≤ ms.length) :
    position (arrivals moments) l i = some (stream (ms.drop i)) := by
  rw [h.whole]
  exact position_stream hi h.peeked h.small h.read

/-- At its end the connection is closed. -/
theorem finish (h : Orderly moments l ms) :
    position (arrivals moments) l ms.length = some [] ∧
      acceptIteration (moments ms.length).toArrival [] = .closed := by
  have hend := h.position_eq (Nat.le_refl ms.length)
  rw [List.drop_length] at hend
  refine ⟨hend, ?_⟩
  rw [acceptIteration_nil, if_neg h.closes]

/-- An orderly stream keeps every iteration as it should be. -/
theorem sound (h : Orderly moments l ms) {i : Nat}
    (hi : position (arrivals moments) l i = some rest) : Sound (moments i) rest := by
  rcases Nat.lt_trichotomy i ms.length with hlt | heq | hgt
  · obtain rfl := Option.some.inj (hi.symm.trans (h.position_eq (Nat.le_of_lt hlt)))
    have hpeek := h.peeked i hlt
    obtain ⟨hacc, hret⟩ : acceptIteration (moments i).toArrival
        ((ms.get ⟨i, hlt⟩).1.bytes ++ stream (ms.drop (i + 1))) =
          .handled (ms.get ⟨i, hlt⟩).1 (stream (ms.drop (i + 1))) ∧
        Returns (moments i) (ms.get ⟨i, hlt⟩).1 :=
      (handled_iff hpeek).mpr
        ⟨h.small _ (List.get_mem ms ⟨i, hlt⟩), h.read i hlt, h.handled i hlt⟩
    obtain ⟨n, hn, -, hgot⟩ := Arrival.received_covers hpeek (stream (ms.drop i))
    refine .inr ⟨ms.get ⟨i, hlt⟩, stream (ms.drop (i + 1)), _, ?_, stream_drop hlt, hgot, ?_, hret⟩
    · rw [stream_drop hlt]
      exact hacc
    · have hm := (ms.get ⟨i, hlt⟩).2.length_le
      rw [List.length_take, stream_drop hlt, List.length_append]
      omega
  · subst heq
    obtain ⟨hend, hclosed⟩ := h.finish
    obtain rfl := Option.some.inj (hi.symm.trans hend)
    exact .inl hclosed
  · rw [position_end h.finish.1 hgt] at hi
    cases hi

/-- An orderly stream neither wedges nor kills the server. -/
theorem unwedged (h : Orderly moments l ms) : Unwedged moments l :=
  ⟨fun _ _ hi ↦ h.sound hi, ms.length, [], h.finish⟩

end Orderly

end Stream

/-- A stream neither wedges nor kills the server if and only if it is orderly. -/
theorem unwedged_iff (moments : Nat → Moment) (l : List UInt8) :
    Unwedged moments l ↔ ∃ ms, Orderly moments l ms := by
  constructor
  · intro h
    obtain ⟨ms, hms⟩ := orderly_of_sound h.sound (k := 0) rfl
    simp only [Nat.zero_add] at hms
    exact ⟨ms, hms⟩
  · rintro ⟨ms, h⟩
    exact h.unwedged

/-- Everything is there: a published device that is not armed yet, free locks, sends that return
the size of its list. -/
def calmMoment : Moment where
  toArrival := ⟨.full, [], .full, .full⟩
  toSurroundings := { twoEndpoints with
    libs := fun _ ↦ [twoEndpoints.lib]
    declared := fun _ d hd ↦ by rw [List.mem_singleton.mp hd] }
  devlistSize := some 328
  progress := fun _ _ ↦ ⟨0, 0⟩
  buffer := some (List.replicate 64 0)
  held := fun _ ↦ false
  urb := 1
  before := urbListInit
  tail := fun _ h ↦ by cases h
  after := ⟨some 1, some 1, fun _ ↦ some ⟨none, none, true⟩⟩
  listed := ⟨_, rfl, rfl⟩
  rounds := fun _ ↦ nakForEver
  completes := false
  sent := .returned 328
  sentPayload := .returned 0

/-- An IN request of 64 bytes to endpoint 1. -/
def submitIn : Message :=
  ⟨.cmdSubmit ⟨1, 1, 0x10001, 1, 1, 0, 64, 0, 0, 0, List.replicate 8 0⟩ [], by decide⟩

example : Unwedged (fun _ ↦ calmMoment) (stream [submitIn, reqDevlist]) := by
  have hsubmits : calmMoment.Handles submitIn.1 := by
    refine ⟨fun _ ↦ by decide, rfl, rfl, ?_, ?_, ?_, ?_⟩
    · intro mps hmps st hst
      have hsize : calmMoment.packetSize 1 = .ok 64 := rfl
      obtain rfl := Except.ok.inj (hsize.symm.trans hmps)
      obtain rfl : st = .direct := List.mem_singleton.mp hst
      refine ⟨.inr (by decide), fun i d hd ↦ ?_⟩
      cases i with
      | zero =>
        obtain rfl : twoEndpoints.lib = d := Option.some.inj hd
        refine ⟨fun hsetup ↦ ?_, .inr ⟨by decide, .inl (by decide)⟩⟩
        cases hsetup
      | succ i => cases hd
    · intro h
      cases h
    · intro h
      cases h
    · intro _ h
      cases h
  have hlists : calmMoment.Handles reqDevlist.1 := ⟨rfl, rfl⟩
  have horderly : Orderly (fun _ ↦ calmMoment) (stream [submitIn, reqDevlist])
      [submitIn, reqDevlist] := by
    refine ⟨rfl, by decide, fun _ _ ↦ trivial, ?_, ?_, by decide⟩
    · exact fun i _ ↦ (wholeArrivals_full i).reads _
    · intro i hi
      match i with
      | 0 => exact hsubmits
      | 1 => exact hlists
  exact horderly.unwedged

/-- Eight zero bytes have no command, and are never taken. -/
theorem zeros_wedged : ¬ Unwedged (fun _ ↦ calmMoment) (List.replicate 8 0) := by
  intro h
  have hunknown : acceptIteration calmMoment.toArrival (List.replicate 8 0) = .unknown := by decide
  rcases h.sound 0 (List.replicate 8 0) rfl with hacc | ⟨m, rest, got, hacc, -⟩
  · rw [hunknown] at hacc
    cases hacc
  · rw [hunknown] at hacc
    cases hacc

end BiMpp.Usbip
