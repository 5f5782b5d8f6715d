import BiMpp.Host.Agreement

/-!
# Which endpoint is served

`hcd_gtd_send` looks for a ready endpoint from the head of its list on, every time:
`bi-mpp-pic24-usb-simulator-master/src/hcd.c:159–204,335–355`. The fields of `hcd_t` for a
current endpoint, `include/hcd.h:64–65`, are not used, so an endpoint that stays ready keeps
those behind it from being served.
-/

namespace BiMpp.Host
open BiMpp.Usb BiMpp.Base

/-- Consecutive calls of `hcd_gtd_send` on a list, with the device's responses. -/
def hcdGtdSends (h : Hcd) (w : EpdList) : List Response → Except Fault (Hcd × List Transaction)
  | [] => .ok (h, [])
  | r :: rs => do
    let (h, t) ← hcdGtdSend h w (h.listPtr w) w.notification r
    let (h, ts) ← hcdGtdSends h w rs
    return (h, t.toList ++ ts)

/-- The number of ready endpoints of a list. -/
def Hcd.readyCount (h : Hcd) (w : EpdList) : Nat := (h.list w).countP Epd.ready

/-- Every ready endpoint has a transaction. -/
def AllServed (h : Hcd) (w : EpdList) (ts : List Transaction) : Prop :=
  ∀ e ∈ h.list w, e.ready = true → ∃ t ∈ ts, t.key = e.key

/-! ### One call -/

section Call

variable {h h' : Hcd} {w : EpdList} {r : Response} {n : BitVec 32} {t : Transaction}

private theorem seekReady_listPtr {o : Option EpdPtr}
    (hs : seekReady (h.list w) (h.listPtr w) = .ok o) :
    o = (h.list w).findIdx? Epd.ready := by
  unfold Hcd.listPtr at hs
  split at hs
  · next hempty =>
    rw [List.isEmpty_iff.mp hempty]
    exact (Except.ok.inj hs).symm
  · next hne =>
    have hpos : 0 < (h.list w).length := by
      rw [List.length_pos_iff]
      simpa using hne
    rw [seekReady, if_pos hpos, List.drop_zero] at hs
    obtain rfl := Except.ok.inj hs
    cases (h.list w).findIdx? Epd.ready <;> simp

private theorem first_at {l : List Epd} {i : EpdPtr} (hi : l.findIdx? Epd.ready = some i) :
    ∃ e, l[i]? = some e ∧ l.find? Epd.ready = some e := by
  obtain ⟨hlt, hready, hbefore⟩ := List.findIdx?_eq_some_iff_getElem.mp hi
  refine ⟨l[i], List.getElem?_eq_getElem hlt, ?_⟩
  rw [List.find?_eq_some_iff_getElem]
  exact ⟨hready, i, hlt, rfl, fun j hj ↦ by simpa using hbefore j hj⟩

private theorem send_kept (hs : hcdGtdSend h w (h.listPtr w) n r = .ok (h', some t))
    (hkeep : t.retired = none) : h'.list w = h.list w ∧
      ∃ e, (h.list w).find? Epd.ready = some e ∧ t.key = e.key := by
  unfold hcdGtdSend at hs
  obtain ⟨o, hseek, hs⟩ := bind_eq_ok.mp hs
  cases o with
  | none => cases pure_eq_ok.mp hs
  | some i =>
    obtain ⟨e, hi, hfirst⟩ := first_at (seekReady_listPtr hseek).symm
    obtain ⟨⟨h₁, t₁⟩, hserve, hs⟩ := bind_eq_ok.mp hs
    cases pure_eq_ok.mp hs
    obtain ⟨e', he', hserve⟩ := bind_eq_ok.mp hserve
    rw [Hcd.epd_some h w i e hi] at he'
    obtain rfl := Except.ok.inj he'
    obtain ⟨⟨g, m⟩, -, hserve⟩ := bind_eq_ok.mp hserve
    obtain ⟨⟨t₂, p, fate⟩, hx, hserve⟩ := bind_eq_ok.mp hserve
    obtain ⟨k, -, -, ht⟩ := EpdCore.exchange_ok hx
    dsimp only at hserve
    split at hserve
    · cases pure_eq_ok.mp hserve
      refine ⟨Hcd.list_setGtd .., e, hfirst, ?_⟩
      rw [ht]
    · next hfate =>
      obtain ⟨h₂, -, hserve⟩ := bind_eq_ok.mp hserve
      obtain ⟨e₂, -, hserve⟩ := bind_eq_ok.mp hserve
      cases pure_eq_ok.mp hserve
      rw [ht] at hkeep
      simp [hfate] at hkeep

private theorem send_idle (hs : hcdGtdSend h w (h.listPtr w) n r = .ok (h', none)) :
    h'.list w = h.list w ∧ (h.list w).find? Epd.ready = none := by
  unfold hcdGtdSend at hs
  obtain ⟨o, hseek, hs⟩ := bind_eq_ok.mp hs
  cases o with
  | none =>
    cases pure_eq_ok.mp hs
    have hnone := (seekReady_listPtr hseek).symm
    rw [List.findIdx?_eq_none_iff] at hnone
    exact ⟨list_hcdClearNotification .., List.find?_eq_none.mpr fun e he ↦ by simp [hnone e he]⟩
  | some i =>
    obtain ⟨x, -, hs⟩ := bind_eq_ok.mp hs
    cases pure_eq_ok.mp hs

end Call

/-! ### Consecutive calls -/

section Calls

variable {h h' : Hcd} {w : EpdList} {rs : List Response} {ts : List Transaction}

private theorem sends_first (hs : hcdGtdSends h w rs = .ok (h', ts))
    (hkeep : ∀ t ∈ ts, t.retired = none) :
    ∀ t ∈ ts, ∃ e, (h.list w).find? Epd.ready = some e ∧ t.key = e.key := by
  induction rs generalizing h ts with
  | nil =>
    cases hs
    intro t ht
    cases ht
  | cons r rs ih =>
    obtain ⟨⟨h₁, o⟩, hfirst, hs⟩ := bind_eq_ok.mp hs
    obtain ⟨⟨h₂, us⟩, hrest, hs⟩ := bind_eq_ok.mp hs
    cases pure_eq_ok.mp hs
    cases o with
    | none =>
      rw [← (send_idle hfirst).1]
      exact ih hrest hkeep
    | some t₁ =>
      have hone := send_kept hfirst (hkeep t₁ List.mem_cons_self)
      intro t ht
      rcases List.mem_cons.mp ht with rfl | ht
      · exact hone.2
      · have hlater := ih hrest (fun u hu ↦ hkeep u (List.mem_cons_of_mem _ hu)) t ht
        rw [hone.1] at hlater
        exact hlater

private theorem sends_ne_nil {e : Epd} {r : Response} (he : e ∈ h.list w)
    (hready : e.ready = true) (hs : hcdGtdSends h w (r :: rs) = .ok (h', ts)) : ts ≠ [] := by
  obtain ⟨⟨h₁, o⟩, hfirst, hs⟩ := bind_eq_ok.mp hs
  obtain ⟨⟨h₂, us⟩, hrest, hs⟩ := bind_eq_ok.mp hs
  cases pure_eq_ok.mp hs
  cases o with
  | none =>
    have hnone := List.find?_eq_none.mp (send_idle hfirst).2 e he
    exact (hnone hready).elim
  | some t => exact List.cons_ne_nil _ _

end Calls

/-- As many calls as there are ready endpoints, none of which retires a descriptor, serve all
of them exactly if there is no more than one. -/
theorem HcdRun.allServed_iff {es : List HcdEvent} {h h' : Hcd} (hrun : HcdRun es h) {w : EpdList}
    {rs : List Response} {ts : List Transaction} (hlen : rs.length = h.readyCount w)
    (hs : hcdGtdSends h w rs = .ok (h', ts)) (hkeep : ∀ t ∈ ts, t.retired = none) :
    AllServed h w ts ↔ h.readyCount w ≤ 1 := by
  obtain ⟨q, -, hr⟩ := hrun.queues
  have hfirst := sends_first hs hkeep
  cases hf : (h.list w).find? Epd.ready with
  | none =>
    have hnone := List.find?_eq_none.mp hf
    have hzero : h.readyCount w = 0 := List.countP_eq_zero.mpr hnone
    rw [hzero]
    exact ⟨fun _ ↦ Nat.zero_le 1, fun _ e he hready ↦ (hnone e he hready).elim⟩
  | some e =>
    obtain ⟨hready, l₁, l₂, hl, hbefore⟩ := List.find?_eq_some_iff_append.mp hf
    have hcount : h.readyCount w = l₂.countP Epd.ready + 1 := by
      have hzero : l₁.countP Epd.ready = 0 :=
        List.countP_eq_zero.mpr fun x hx ↦ by simpa using hbefore x hx
      rw [Hcd.readyCount, hl, List.countP_append, hzero, List.countP_cons_of_pos hready,
        Nat.zero_add]
    have hmem : e ∈ h.list w := List.mem_of_find?_eq_some hf
    -- the endpoints behind the first have other keys
    have hother : ∀ x ∈ l₂, x.key ≠ e.key := by
      have hnd := hr.keys_nodup w
      rw [hl, List.map_append, List.map_cons] at hnd
      have hhead := (List.nodup_cons.mp (List.nodup_append.mp hnd).2.1).1
      intro x hx hkey
      exact hhead (hkey ▸ List.mem_map_of_mem hx)
    constructor
    · intro hall
      have hzero : l₂.countP Epd.ready = 0 := by
        refine List.countP_eq_zero.mpr fun x hx hxready ↦ ?_
        have hxmem : x ∈ h.list w := by
          rw [hl]
          exact List.mem_append_right _ (List.mem_cons_of_mem _ hx)
        obtain ⟨t, ht, htkey⟩ := hall x hxmem hxready
        obtain ⟨e', he', hkey⟩ := hfirst t ht
        obtain rfl := Option.some.inj (hf.symm.trans he')
        exact hother x hx (htkey.symm.trans hkey)
      omega
    · intro hle x hx hxready
      have hzero : l₂.countP Epd.ready = 0 := by omega
      have hxe : x = e := by
        rw [hl] at hx
        rcases List.mem_append.mp hx with hx | hx
        · exact absurd hxready (by simpa using hbefore x hx)
        · rcases List.mem_cons.mp hx with rfl | hx
          · rfl
          · exact (List.countP_eq_zero.mp hzero x hx hxready).elim
      subst hxe
      obtain ⟨r, rfl⟩ : ∃ r, rs = [r] := List.length_eq_one_iff.mp (by omega)
      obtain ⟨t, ht⟩ := List.exists_mem_of_ne_nil ts (sends_ne_nil hmem hready hs)
      obtain ⟨e', he', hkey⟩ := hfirst t ht
      obtain rfl := Option.some.inj (hf.symm.trans he')
      exact ⟨t, ht, hkey⟩

private def bulkSends (h : Hcd) (rs : List Response) : Option (List Transaction) :=
  match hcdGtdSends h .bulk rs with
  | .ok (_, ts) => some ts
  | .error _ => none

private theorem bulkSends_ok {h : Hcd} {rs : List Response} {p : List Transaction → Prop}
    (hp : ∃ ts, bulkSends h rs = some ts ∧ p ts) :
    ∃ h' ts, hcdGtdSends h .bulk rs = .ok (h', ts) ∧ p ts := by
  obtain ⟨ts, hs, hts⟩ := hp
  unfold bulkSends at hs
  split at hs
  · next h' us heq =>
    obtain rfl := Option.some.inj hs
    exact ⟨h', us, heq, hts⟩
  · cases hs

private def reading (ep : Int) : LinkArgs := ⟨1, ep, true, false, 2, 8, [0, 0], 2, ⟨4, 2⟩⟩

/-- One ready endpoint is served by one call. -/
theorem HcdRun.allServed_iff_example : ∃ es h h' ts, HcdRun es h ∧ h.readyCount .bulk = 1 ∧
    hcdGtdSends h .bulk [.nak] = .ok (h', ts) ∧
    (AllServed h .bulk ts ↔ h.readyCount .bulk ≤ 1) := by
  have hcheck : runsTo hcdExec hcdInit [.link (reading 1)]
      (fun h _ ↦ decide (h.readyCount .bulk = 1 ∧
        ∃ ts ∈ bulkSends h [.nak], ∀ t ∈ ts, t.retired = none)) = true := by decide +kernel
  obtain ⟨es, h, hrun, hp⟩ := Run.of_runsTo hcheck
  obtain ⟨hone, hsends⟩ := of_decide_eq_true hp
  obtain ⟨h', ts, hs, hkeep⟩ := bulkSends_ok hsends
  exact ⟨es, h, h', ts, hrun, hone, hs, HcdRun.allServed_iff hrun (by rw [hone]; rfl) hs hkeep⟩

/-- An endpoint that answers NAK for ever keeps the next one waiting. -/
theorem HcdRun.starved : ¬ ∀ es h h' w rs ts, HcdRun es h → rs.length = h.readyCount w →
    hcdGtdSends h w rs = .ok (h', ts) → (∀ t ∈ ts, t.retired = none) → AllServed h w ts := by
  intro hall
  have hcheck : runsTo hcdExec hcdInit [.link (reading 1), .link (reading 2)]
      (fun h _ ↦ decide (h.readyCount .bulk = 2 ∧
        (∃ e ∈ h.list .bulk, e.ready = true ∧ e.key = (reading 2).key) ∧
        ∃ ts ∈ bulkSends h [.nak, .nak], (∀ t ∈ ts, t.retired = none) ∧
          ∀ t ∈ ts, t.key ≠ (reading 2).key)) = true := by decide +kernel
  obtain ⟨es, h, hrun, hp⟩ := Run.of_runsTo hcheck
  obtain ⟨htwo, ⟨e, he, hready, hkey⟩, hsends⟩ := of_decide_eq_true hp
  obtain ⟨h', ts, hs, hkeep, hother⟩ := bulkSends_ok hsends
  obtain ⟨t, ht, htkey⟩ := hall es h h' .bulk _ ts hrun (by rw [htwo]; rfl) hs hkeep e he hready
  exact hother t ht (htkey.trans hkey)

end BiMpp.Host
