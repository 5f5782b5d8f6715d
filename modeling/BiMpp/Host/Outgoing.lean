import BiMpp.Host.Extent
import BiMpp.Host.Segmentation

/-!
# What a descriptor sends

SETUP and OUT descriptors together: what the device has accepted of one is the beginning of its
buffer, and each packet offers as many bytes as it says, from the first that was not accepted on:
`hcd_gtd_send` and `hcd_process_done_list`,
`bi-mpp-pic24-usb-simulator-master/src/hcd.c:159–269`.
-/

namespace BiMpp.Host
open BiMpp.Usb BiMpp.Base

/-- The bytes that a transaction moved, one way or the other. -/
def Transaction.moved (t : Transaction) : List UInt8 :=
  if t.packet.dirIn then t.response.bytes else t.accepted

/-- A SETUP or OUT descriptor after the transactions `ts`. -/
structure Outgoing (a : LinkArgs) (ts : List Transaction) (p : Td) : Prop
    extends Offering a ts p where
  pid : p.pid ≠ .inn
  inside : ((acceptedBytes ts).length : Int) ≤ a.size
  pieces : acceptedBytes ts = a.data.take (acceptedBytes ts).length
  offers : ∀ t ∈ ts, t.offered.length = t.packet.size.toNat

section Exchange

variable {a : LinkArgs} {ts : List Transaction} {p : Td}

private theorem outgoing_create (hout : a.dir = false) (hsized : a.Sized) (ht : a.td = .ok p) :
    Outgoing a [] p := by
  have hpid : ∃ pid, a.pid = .ok pid ∧ pid ≠ .inn := by
    unfold LinkArgs.pid
    rw [hout]
    split
    · exact ⟨.setup, rfl, nofun⟩
    · exact ⟨.out, rfl, nofun⟩
  obtain ⟨pid, hpid, hne⟩ := hpid
  rw [LinkArgs.td, hpid] at ht
  cases ht
  refine ⟨⟨rfl, by simp [hcdGtdCreate], rfl, rfl⟩, hne, hsized.1, rfl, ?_⟩
  exact fun t ht ↦ (List.not_mem_nil ht).elim

private theorem choosePacket_out {c : EpdCore} {k : Packet} (h : choosePacket c p = .ok k)
    (hpid : p.pid ≠ .inn) : k.dirIn = false := by
  unfold choosePacket at h
  split at h
  · split at h
    · obtain rfl := Except.ok.inj h
      rfl
    · exact nomatch h
  · obtain rfl := Except.ok.inj h
    rfl
  · next hin => exact (hpid hin).elim

private theorem Outgoing.exchange (h : Outgoing a ts p) (hsized : a.Sized) {c : EpdCore}
    {w : EpdList} {r : Response} {t : Transaction} {p' : Td} {fate : Fate}
    (hx : c.exchange w p r = .ok (t, p', fate)) (hfits : t.response.Fits t.packet) :
    Outgoing a (ts ++ [t]) p' := by
  obtain ⟨k, hk, hr, ht⟩ := EpdCore.exchange_ok hx
  have hq := h.toOffering.load c.toggleCarry
  have hpid : (p.loadToggle c.toggleCarry).pid ≠ .inn := by
    rw [(Td.loaded p _).pid]
    exact h.pid
  generalize p.loadToggle c.toggleCarry = q at hk hr ht hq hpid
  have hkt : t.packet = k := by rw [ht]
  have hrt : t.response = r := by rw [ht]
  have hdir := choosePacket_out hk hpid
  have hroom : t.packet.size ≤ a.size - (acceptedBytes ts).length := by
    have hle := choosePacket_size hk
    have hend := hq.bufferEnd
    have hpointer := hq.pointer
    unfold Td.buflen at hle
    rw [hkt]
    omega
  have hoffered : t.offered = (a.data.drop (acceptedBytes ts).length).take t.packet.size.toNat := by
    have hot : t.offered = q.offered k := by rw [ht]
    rw [hot, hkt, Td.offered, hdir, if_neg Bool.false_ne_true, hq.data, hq.pointer,
      Int.toNat_natCast]
  obtain ⟨⟨hinside, hpieces⟩, hmoved⟩ :=
    pieces_snoc hsized ⟨h.inside, h.pieces⟩ hoffered hroom hfits
  have hkept := Td.responded q k c.maximumPacketSize r
  rw [hr] at hkept
  refine ⟨hq.respond hdir hr hrt hmoved, ?_, hinside, hpieces, ?_⟩
  · rw [hkept.pid]
    exact hpid
  · intro u hu
    rcases List.mem_append.mp hu with hu | hu
    · exact h.offers u hu
    · rw [List.mem_singleton.mp hu]
      have hdata := hsized.2.2
      rw [hoffered, List.length_take, List.length_drop]
      omega

end Exchange

private theorem outgoing_lives {a : LinkArgs} (hout : a.dir = false) (hsized : a.Sized) :
    Lives a (fun _ ts p ↦ Outgoing a ts p) (fun _ ts p ↦ Outgoing a ts p) := by
  constructor
  · exact fun m td htd ↦ outgoing_create hout hsized htd
  · intro c w p p' r t fate ts hkey hcarry hfit hp hx
    rw [ite_self]
    exact hp.exchange hsized hx hfit

section Run

variable {es : List HcdEvent} {h : Hcd} {g : GtdPtr} {a : LinkArgs}

/-- The packets of a descriptor go the way it was linked for. -/
theorem HcdRun.directed (hrun : HcdRun es h) (hlink : (g, a) ∈ links es)
    (hfits : ∀ t ∈ transactionsOf g es, t.response.Fits t.packet) :
    ∀ t ∈ transactionsOf g es, t.packet.dirIn = a.dir := by
  obtain ⟨q, hq, -⟩ := hrun.queues
  refine hq.all_transactions (I := fun p ↦ p.pid = .inn ↔ a.dir = true) ?_ ?_ hlink hfits
  · intro td htd
    have hpid : a.pid = .ok td.pid := by
      unfold LinkArgs.td at htd
      cases hp : a.pid with
      | error f =>
        rw [hp] at htd
        cases htd
      | ok pid =>
        rw [hp] at htd
        cases htd
        rfl
    unfold LinkArgs.pid at hpid
    split at hpid
    · split at hpid
      · cases hpid
      · next hdir =>
        rw [← Except.ok.inj hpid]
        exact ⟨nofun, fun hin ↦ absurd hin hdir⟩
    · split at hpid
      · next hdir =>
        rw [← Except.ok.inj hpid]
        exact ⟨fun _ ↦ hdir, fun _ ↦ rfl⟩
      · next hdir =>
        rw [← Except.ok.inj hpid]
        exact ⟨nofun, fun hin ↦ absurd hin hdir⟩
  · intro c w p p' r t fate hm hfit hI hx
    obtain ⟨k, hk, hr, rfl⟩ := EpdCore.exchange_ok hx
    have hpid := (Td.loaded p c.toggleCarry).pid
    have hkept := Td.responded (p.loadToggle c.toggleCarry) k c.maximumPacketSize r
    rw [hr] at hkept
    refine ⟨?_, fun _ ↦ by rw [hkept.pid, hpid, hI]⟩
    show k.dirIn = a.dir
    by_cases hin : p.pid = .inn
    · rw [choosePacket, hpid, hin] at hk
      rw [← Except.ok.inj hk, hI.mp hin]
    · rw [choosePacket_out hk (hpid ▸ hin)]
      exact (Bool.eq_false_iff.mpr fun hdir ↦ hin (hI.mpr hdir)).symm

/-- The bytes moved for a descriptor are those its transactions received or had accepted. -/
theorem HcdRun.moved (hrun : HcdRun es h) (hlink : (g, a) ∈ links es)
    (hfits : ∀ t ∈ transactionsOf g es, t.response.Fits t.packet) :
    (transactionsOf g es).flatMap Transaction.moved =
      if a.dir then receivedBytes (transactionsOf g es)
      else acceptedBytes (transactionsOf g es) := by
  have hdir := hrun.directed hlink hfits
  split
  · next hin => exact List.flatMap_congr fun t ht ↦ if_pos ((hdir t ht).trans hin)
  · next hout => exact List.flatMap_congr fun t ht ↦ if_neg (hdir t ht ▸ hout)

/-- What a SETUP or OUT descriptor has sent is the beginning of its buffer, its packets offer
what they say, and its completion counts what it has sent and gives its buffer back. -/
theorem HcdRun.outgoing (hrun : HcdRun es h) (hlink : (g, a) ∈ links es) (hout : a.dir = false)
    (hsized : a.Sized) (hfits : ∀ t ∈ transactionsOf g es, t.response.Fits t.packet) :
    acceptedBytes (transactionsOf g es) =
        a.data.take (acceptedBytes (transactionsOf g es)).length ∧
      (∀ t ∈ transactionsOf g es, t.offered.length = t.packet.size.toNat) ∧
      ∀ c ∈ completions es, c.gtd = g →
        c.length = ((acceptedBytes (transactionsOf g es)).length : Int) ∧ c.data = a.data := by
  obtain ⟨e, -, -, ⟨p, hp⟩, hdone⟩ := hrun.lived (outgoing_lives hout hsized) hlink hfits
  rw [or_self] at hp
  refine ⟨hp.pieces, hp.offers, fun c hc hg ↦ ?_⟩
  obtain ⟨q, hq, rfl⟩ := hdone c hc hg
  have hend := hq.bufferEnd
  have hurb := hsized.2.1
  refine ⟨?_, hq.data⟩
  simp only [Td.complete, hq.urb, hq.pointer]
  omega

private theorem pid_of_td {p : Td} (h : a.td = .ok p) :
    (p.pid = .setup ↔ a.setup = true) ∧ (a.setup = true → a.dir = false) := by
  unfold LinkArgs.td LinkArgs.pid at h
  split at h
  · next hsetup =>
    split at h
    · cases h
    · next hdir =>
      cases h
      exact ⟨⟨fun _ ↦ hsetup, fun _ ↦ rfl⟩, fun _ ↦ Bool.eq_false_iff.mpr hdir⟩
  · next hsetup =>
    split at h <;> cases h <;> exact ⟨⟨nofun, fun hs ↦ absurd hs hsetup⟩, fun hs ↦ absurd hs hsetup⟩

/-- A SETUP packet is of a descriptor that was linked for one. -/
theorem HcdRun.setup_linked (hrun : HcdRun es h) (hlink : (g, a) ∈ links es)
    (hfits : ∀ t ∈ transactionsOf g es, t.response.Fits t.packet) :
    ∀ t ∈ transactionsOf g es, t.packet.pid = .setup → a.setup = true := by
  obtain ⟨q, hq, -⟩ := hrun.queues
  refine hq.all_transactions (I := fun p ↦ p.pid = .setup ↔ a.setup = true) ?_ ?_ hlink hfits
  · exact fun td htd ↦ (pid_of_td htd).1
  · intro c w p p' r t fate _ _ hI hx
    obtain ⟨k, hk, hr, rfl⟩ := EpdCore.exchange_ok hx
    have hpid := (Td.loaded p c.toggleCarry).pid
    have hkept := Td.responded (p.loadToggle c.toggleCarry) k c.maximumPacketSize r
    rw [hr] at hkept
    refine ⟨fun hs ↦ hI.mp ?_, fun _ ↦ by rw [hkept.pid, hpid, hI]⟩
    have hs : k.pid = .setup := hs
    have hdata : ∀ q : Td, q.dataPid ≠ .setup := by
      intro q
      unfold Td.dataPid
      split <;> exact nofun
    rw [← hpid]
    unfold choosePacket at hk
    split at hk
    · next hin => exact hin
    · cases hk
      exact (hdata _ hs).elim
    · cases hk
      exact (hdata _ hs).elim

/-- A SETUP packet of eight bytes offers the whole buffer. -/
theorem HcdRun.setup_offered (hrun : HcdRun es h) (hlink : (g, a) ∈ links es)
    (hsetup : a.setup = true) (hsized : a.Sized) (height : a.size = 8)
    (hfits : ∀ t ∈ transactionsOf g es, t.response.Fits t.packet) :
    ∀ t ∈ transactionsOf g es, t.offered = a.data := by
  obtain ⟨q, hq, -⟩ := hrun.queues
  refine hq.all_transactions (I := fun p ↦ p.pid = .setup ∧ ∃ ts, Outgoing a ts p) ?_ ?_ hlink hfits
  · intro td htd
    obtain ⟨hpid, hdir⟩ := pid_of_td htd
    exact ⟨hpid.mpr hsetup, [], outgoing_create (hdir hsetup) hsized htd⟩
  · rintro c w p p' r t fate - hfit ⟨hpid, ts, hout⟩ hx
    have hnext := hout.exchange hsized hx hfit
    obtain ⟨k, hk, hr, rfl⟩ := EpdCore.exchange_ok hx
    have hload := Td.loaded p c.toggleCarry
    have hkept := Td.responded (p.loadToggle c.toggleCarry) k c.maximumPacketSize r
    rw [hr] at hkept
    refine ⟨?_, fun _ ↦ ⟨by rw [hkept.pid, hload.pid, hpid], _, hnext⟩⟩
    -- eight bytes are left only where none was taken
    have hq := hout.load c.toggleCarry
    have hqpid : (p.loadToggle c.toggleCarry).pid = .setup := hload.pid.trans hpid
    generalize p.loadToggle c.toggleCarry = q at hk hq hqpid
    unfold choosePacket at hk
    rw [hqpid] at hk
    dsimp only at hk
    split at hk
    · next hlen =>
      cases hk
      have hend := hq.bufferEnd
      have hpointer : q.currentBufferPointer = 0 := by
        unfold Td.buflen at hlen
        omega
      have hall : a.data.length ≤ 8 := by
        have hdata := hsized.2.2
        omega
      show q.offered ⟨c.endpointNumber, false, .setup, q.buflen⟩ = a.data
      rw [Td.offered, if_neg Bool.false_ne_true, hq.data, hpointer, hlen]
      exact List.take_of_length_le hall
    · cases hk

end Run

end BiMpp.Host
