import BiMpp.Usbip.DeviceList
import BiMpp.Usbip.Sequence

/-!
# Packet sizes

`accept_loop` looks the packet size of an endpoint up by its number, at the place it would
have if the endpoint descriptors followed the first interface descriptor in that order, and
`hcd_gtd_link` uses what it is given only where it creates the endpoint: the first transfer on
a list, an address and a number decides for all that follow.
`bi-mpp-pic24-usb-simulator-master/src/usbip.c:187–213`, `src/hcd.c:55–88`, `src/sys.c:93–138`.
-/

namespace BiMpp.Usbip
open BiMpp.Usb BiMpp.Base BiMpp.Host

/-! ### Configuration descriptors -/

/-- A configuration descriptor with `wTotalLength` bytes that are a chain of descriptors. -/
structure ChainValid (cfg : List UInt8) (ds : List (List UInt8)) : Prop where
  chain : descriptors cfg = some ds
  first : ∃ c ∈ ds.head?, c.length = 9 ∧ c.getD 1 0 = 2
  total : (totalLength cfg).toNat = cfg.length

/-- The endpoint descriptor for a number and a direction. -/
structure Describes (d : List UInt8) (ep : BitVec 32) (dirIn : Bool) : Prop where
  endpoint : d.getD 1 0 = 5 ∧ 7 ≤ d.length
  number : (d.getD 2 0 &&& 0x0F).toNat = ep.toNat
  direction : (d.getD 2 0 &&& 0x80 != 0) = dirIn

/-- The `wMaxPacketSize` of an endpoint descriptor. -/
def endpointSize (d : List UInt8) : Int := ((d.getD 4 0).toNat + 256 * (d.getD 5 0).toNat : Nat)

/-- The descriptors of a valid chain are the configuration. -/
theorem ChainValid.flatten {cfg : List UInt8} {ds : List (List UInt8)} (h : ChainValid cfg ds) :
    ds.flatten = cfg :=
  (descriptorsFrom_spec h.chain).1

/-! ### Requests with the sizes they are given -/

/-- The request an event begins, with the packet size it is given. -/
def ServerEvent.sized : ServerEvent → Option (Nat × CmdSubmit × Int)
  | (.start _ submit mps _, .started u) => some (u, submit, mps)
  | _ => none

/-- The requests of a history, with their packet sizes. -/
def sizedRequests (es : List ServerEvent) : List (Nat × CmdSubmit × Int) :=
  es.filterMap ServerEvent.sized

section Sized

variable {es : List ServerEvent} {s s' : Server} {e : ServerEvent} {u : Nat} {b b' : Urb}

/-- The requests with their packet sizes after one more event. -/
theorem sizedRequests_snoc (es : List ServerEvent) (e : ServerEvent) :
    sizedRequests (es ++ [e]) = sizedRequests es ++ (ServerEvent.sized e).toList := by
  unfold sizedRequests
  rw [List.filterMap_append]
  cases h : ServerEvent.sized e <;> simp [h]

/-- They are the requests. -/
theorem requests_eq (es : List ServerEvent) :
    requests es = (sizedRequests es).map fun r ↦ (r.1, r.2.1) := by
  unfold requests sizedRequests
  rw [List.map_filterMap]
  refine List.filterMap_congr fun e _ ↦ ?_
  obtain ⟨op, o⟩ := e
  cases op <;> cases o <;> rfl

/-- A number names one request with one packet size. -/
theorem Held.size_unique (h : Held es s) {r r' : CmdSubmit × Int} (hr : (u, r) ∈ sizedRequests es)
    (hr' : (u, r') ∈ sizedRequests es) : r = r' := by
  have hnd : ((sizedRequests es).map Prod.fst).Nodup := by
    have hids := h.ids
    rw [requests_eq, List.map_map] at hids
    have hfst : (Prod.fst ∘ fun r : Nat × CmdSubmit × Int ↦ (r.1, r.2.1)) = Prod.fst := rfl
    rw [← hfst, hids]
    exact List.nodup_range
  exact congrArg Prod.snd (List.inj_on_of_nodup_map hnd hr hr' rfl)

/-- A URB of a request has the packet size that the request was given. -/
def SizedAs (es : List ServerEvent) (u : Nat) (b : Urb) : Prop :=
  (u, b.submit, b.maxPacketSize) ∈ sizedRequests es

/-- Every URB, wherever it is, and every link of it have the size that was given. -/
structure Given (es : List ServerEvent) (s : Server) : Prop where
  held : ∀ t u b, (s.pc t).held = some (u, b) → SizedAs es u b
  parked : ∀ u b, s.direct u = some b → SizedAs es u b
  links : ∀ l ∈ links (hcdEvents es), ∃ u b st, l.2 = b.linkArgs u st ∧ SizedAs es u b

private theorem SizedAs.mono (h : SizedAs es u b) (e : ServerEvent) :
    SizedAs (es ++ [e]) u b := by
  unfold SizedAs
  rw [sizedRequests_snoc]
  exact List.mem_append_left _ h

private theorem SizedAs.congr (h : SizedAs es u b)
    (hb : (b.submit, b.maxPacketSize) = (b'.submit, b'.maxPacketSize)) : SizedAs es u b' := by
  obtain ⟨hsub, hmps⟩ := Prod.mk.inj hb
  unfold SizedAs at h ⊢
  rwa [← hsub, ← hmps]

private theorem sized_afterStage (b : Urb) (c : Completion) (st : Stage) :
    ((b.afterStage c st).submit, (b.afterStage c st).maxPacketSize) =
      (b.submit, b.maxPacketSize) := by
  rw [Urb.submit_afterStage, Urb.maxPacketSize_afterStage]

private theorem Given.step (h : Given es s) (hs : ServerStep s e s') : Given (es ++ [e]) s' := by
  have hold : ∀ t u b, (s.pc t).held = some (u, b) → SizedAs (es ++ [e]) u b :=
    fun t u b hp ↦ (h.held t u b hp).mono e
  have hset : ∀ (t₀ : Thread) (p : Pc), (∀ u b, p.held = some (u, b) → SizedAs (es ++ [e]) u b) →
      ∀ t u b, ((s.setPc t₀ p).pc t).held = some (u, b) → SizedAs (es ++ [e]) u b := by
    intro t₀ p hp t u b hheld
    rw [Server.pc_setPc] at hheld
    split at hheld
    · exact hp u b hheld
    · exact hold t u b hheld
  have hparked : ∀ u b, s.direct u = some b → SizedAs (es ++ [e]) u b :=
    fun u b hd ↦ (h.parked u b hd).mono e
  refine ⟨?_, ?_, ?_⟩
  · cases hs with
    | @start t submit mps data =>
      refine hset t _ fun u b hp ↦ ?_
      cases hp
      unfold SizedAs
      rw [sizedRequests_snoc]
      exact List.mem_append_right _ (List.mem_singleton_self _)
    | @move t _ p l hown =>
      refine hset t p fun u b hp ↦ ?_
      obtain ⟨b₀, hb₀, hsame⟩ := hown.held_of
        (f := fun b ↦ (b.submit, b.maxPacketSize)) sized_afterStage hp
      exact (hold t u b₀ hb₀).congr hsame
    | @linkStage t u b st x loop hpc =>
      refine hset t _ fun u' b' hp ↦ ?_
      cases hp
      exact hold t u b (by rw [hpc]; rfl)
    | @linkDirect t =>
      refine hset t .idle fun u' b' hp ↦ ?_
      cases hp
    | loop => exact hold
    | @doneStage r x loop c t u b st _ _ _ _ _ _ hpc =>
      refine hset t _ fun u' b' hp ↦ ?_
      cases hp
      exact hold t u b (by rw [hpc]; rfl)
    | @doneDirect r x loop c u b _ _ _ _ _ hb =>
      refine hset .hcd _ fun u' b' hp ↦ ?_
      cases hp
      exact (hparked u b hb).congr (sized_afterStage b c .direct).symm
  · intro u b hd
    rcases hs.direct_of hd with hd | ⟨t, hpc⟩
    · exact hparked u b hd
    · exact hold t u b (by rw [hpc]; rfl)
  · intro l hl
    rw [links_hcdEvents_snoc] at hl
    rcases List.mem_append.mp hl with hl | hl
    · obtain ⟨u, b, st, hargs, hb⟩ := h.links l hl
      exact ⟨u, b, st, hargs, hb.mono e⟩
    · obtain ⟨t, u, b, st, hpc, hargs, -⟩ := hs.linked_by (Option.mem_toList.mp hl)
      exact ⟨u, b, st, hargs, hold t u b (by rw [hpc]; rfl)⟩

private theorem Given.init : Given [] serverInit where
  held _ _ _ h := nomatch h
  parked _ _ h := nomatch h
  links _ h := nomatch h

/-- Every URB keeps the packet size it was submitted with. -/
theorem ServerRun.given (h : ServerRun es s) : Given es s := by
  refine Run.invariant (P := Given) Given.init ?_ h
  intro es s e s' _ ih hfire
  exact ih.step (serverStep_of_exec hfire)

end Sized

/-! ### Transfers and the sizes they require -/

/-- A transfer as it was submitted, with its `max_packet_size` and with the configuration
that `sys->cfg_dsc` pointed to then. -/
structure Submitted where
  urb : Nat
  submit : CmdSubmit
  maxPacketSize : Int
  cfgDsc : Option (List UInt8)
  deriving DecidableEq, Repr

/-- The transfer that an event submits. -/
def Sys.submitted (s : Sys) (e : SysEvent) : Option Submitted :=
  ((SysEvent.serverEvent e).bind ServerEvent.sized).map fun r ↦
    ⟨r.1, r.2.1, r.2.2, s.cfgDsc.map CfgBuffer.bytes⟩

/-- The state after an event, and the transfers up to it. -/
def Sys.record (x : Sys × List Submitted) (e : SysEvent) : Sys × List Submitted :=
  (match sysExec x.1 e.1 with
    | .ok (s, _) => s
    | .error _ => x.1, x.2 ++ (x.1.submitted e).toList)

/-- The transfers of a history, of clients and of `system_loop`. -/
def submissions (s : Sys) (es : List SysEvent) : List Submitted := (es.foldl Sys.record (s, [])).2

/-- The packet size of a transfer: what its own submitter passed on endpoint 0, and the
`wMaxPacketSize` of the descriptor for its endpoint and direction on any other. -/
def Submitted.Requires (x : Submitted) (n : Int) : Prop :=
  if x.submit.ep = 0 then x.maxPacketSize = n
  else ∃ cfg ∈ x.cfgDsc, ∃ ds, ChainValid cfg ds ∧
    ∃ d ∈ ds, Describes d x.submit.ep x.submit.dirIn ∧ endpointSize d = n

/-- What the place of the lookup holds: on endpoint 0 what its own submitter passed, and on
any other the word that is at byte 22 for endpoint 1 and seven bytes further on for each
endpoint after it. -/
def Submitted.Passes (x : Submitted) (n : Int) : Prop :=
  if x.submit.ep = 0 then x.maxPacketSize = n
  else ∃ cfg ∈ x.cfgDsc, ∃ lo hi, cfg[22 + 7 * (x.submit.ep - 1).toNat]? = some lo ∧
    cfg[23 + 7 * (x.submit.ep - 1).toNat]? = some hi ∧ ((lo.toNat + 256 * hi.toNat : Nat) : Int) = n

/-- A transfer descriptor that was linked for a transfer. -/
structure LinkedFor (s₀ : Sys) (es : List SysEvent) (x : Submitted) (a : LinkArgs) : Prop where
  submitted : x ∈ submissions s₀ es
  linked : a ∈ requestLinks (serverEvents es) x.urb

/-- A transfer was the first to link to a slot. -/
def Opens (es : List ServerEvent) (slot : Slot) (u : Nat) : Prop :=
  ∃ f ∈ firstLink slot (hcdEvents es), urbOwner f.urb.id = u

instance (es : List ServerEvent) (slot : Slot) (u : Nat) : Decidable (Opens es slot u) :=
  inferInstanceAs (Decidable (∃ f ∈ firstLink slot (hcdEvents es), _))

section Transfers

variable {s₀ s : Sys} {es : List SysEvent} {x : Submitted}

private theorem record_state (h : Run (Fires sysExec) s₀ es s) :
    (es.foldl Sys.record (s₀, [])).1 = s := by
  induction h with
  | nil => rfl
  | @snoc es s s' e _ hfire ih =>
    rw [List.foldl_append, List.foldl_cons, List.foldl_nil]
    show (match sysExec (es.foldl Sys.record (s₀, [])).1 e.1 with
      | .ok (s, _) => s
      | .error _ => _) = s'
    have hexec : sysExec s e.1 = .ok (s', e.2) := hfire
    rw [ih, hexec]

private theorem submissions_snoc (h : Run (Fires sysExec) s₀ es s) (e : SysEvent) :
    submissions s₀ (es ++ [e]) = submissions s₀ es ++ (s.submitted e).toList := by
  unfold submissions
  rw [List.foldl_append, List.foldl_cons, List.foldl_nil, ← record_state h]
  rfl

/-- They are the requests of the server with their packet sizes. -/
theorem submissions_sized (h : Run (Fires sysExec) s₀ es s) :
    (submissions s₀ es).map (fun x ↦ (x.urb, x.submit, x.maxPacketSize)) =
      sizedRequests (serverEvents es) := by
  induction h with
  | nil => rfl
  | @snoc es s s' e hrun _ ih =>
    rw [submissions_snoc hrun, List.map_append, ih, serverEvents_snoc]
    unfold Sys.submitted
    cases hserver : SysEvent.serverEvent e with
    | none => simp
    | some d =>
      rw [Option.bind_some, Option.toList_some, sizedRequests_snoc]
      cases ServerEvent.sized d with
      | none => simp
      | some r => simp

private def Submitted.LookedUp (x : Submitted) : Prop :=
  x.submit.ep = 0 ∨ ∃ cfg, x.cfgDsc = some cfg ∧
    wMaxPacketSize cfg x.submit.ep = .ok x.maxPacketSize

private theorem wMaxPacketSize_ok {cfg : List UInt8} {ep : BitVec 32} {n : Int} :
    wMaxPacketSize cfg ep = .ok n ↔ ∃ lo hi, cfg[22 + 7 * (ep - 1).toNat]? = some lo ∧
      cfg[23 + 7 * (ep - 1).toNat]? = some hi ∧ ((lo.toNat + 256 * hi.toNat : Nat) : Int) = n := by
  have hoff : 18 + 7 * (ep - 1).toNat + 4 = 22 + 7 * (ep - 1).toNat := by omega
  have hnext : 22 + 7 * (ep - 1).toNat + 1 = 23 + 7 * (ep - 1).toNat := by omega
  simp only [wMaxPacketSize, hoff, hnext, List.getD_eq_getElem?_getD]
  constructor
  · intro h
    split at h
    · next hlt =>
      have hlo := List.getElem?_eq_getElem (Nat.lt_of_succ_lt (hnext ▸ hlt))
      have hhi := List.getElem?_eq_getElem hlt
      rw [hlo, hhi] at h
      exact ⟨_, _, hlo, hhi, Except.ok.inj h⟩
    · cases h
  · rintro ⟨lo, hi, hlo, hhi, rfl⟩
    obtain ⟨hlt, -⟩ := List.getElem?_eq_some_iff.mp hhi
    rw [if_pos hlt, hlo, hhi]
    rfl

private theorem passes_of_lookedUp (h : x.LookedUp) (n : Int) :
    x.Passes n ↔ x.maxPacketSize = n := by
  unfold Submitted.Passes
  split
  · exact Iff.rfl
  · next hep =>
    obtain ⟨cfg, hcfg, hlook⟩ := h.resolve_left hep
    constructor
    · rintro ⟨cfg', hcfg', hbytes⟩
      obtain rfl := Option.some.inj (hcfg.symm.trans hcfg')
      exact Except.ok.inj (hlook.symm.trans (wMaxPacketSize_ok.mpr hbytes))
    · rintro rfl
      exact ⟨cfg, hcfg, wMaxPacketSize_ok.mp hlook⟩

private theorem sized_start {d : ServerEvent} {r : Nat × CmdSubmit × Int}
    (h : ServerEvent.sized d = some r) : ∃ t data, d.1 = .start t r.2.1 r.2.2 data := by
  unfold ServerEvent.sized at h
  split at h
  · next t submit mps data u =>
    cases h
    exact ⟨t, data, rfl⟩
  · cases h

private theorem lookedUp_step {s' : Sys} {e : SysEvent} (hs : SysStep s e s')
    (h : s.submitted e = some x) : x.LookedUp := by
  unfold Sys.submitted at h
  obtain ⟨r, hr, rfl⟩ := Option.map_eq_some_iff.mp h
  obtain ⟨d, hd, hr⟩ := Option.bind_eq_some_iff.mp hr
  obtain ⟨t, data, hstart⟩ := sized_start hr
  cases hs with
  | attach => cases hd
  | busReset => cases hd
  | begin _ _ hop _ =>
    obtain rfl := Option.some.inj hd
    obtain ⟨-, hsub, -, -⟩ := ServerOp.start.inj (hstart.symm.trans hop)
    exact .inl (congrArg CmdSubmit.ep hsub)
  | calloc => cases hd
  | publish => cases hd
  | leave => cases hd
  | @submit c payload buffer mps e server hmps hop _ =>
    obtain rfl := Option.some.inj hd
    obtain ⟨-, hsub, hsize, -⟩ := ServerOp.start.inj (hstart.symm.trans hop)
    have hep : r.2.1.ep = c.ep := congrArg CmdSubmit.ep hsub
    unfold Sys.packetSize at hmps
    rw [← hep, ← hsize] at hmps
    split at hmps
    · next hzero => exact .inl hzero
    · split at hmps
      · cases hmps
      · next buf hbuf => exact .inr ⟨buf.bytes, by rw [hbuf]; rfl, hmps⟩
  | answer ho => rcases ho with rfl | ⟨st, rfl⟩ | ⟨l, rfl⟩ <;> cases hd
  | server hno _ _ =>
    obtain rfl := Option.some.inj hd
    rw [hstart] at hno
    cases hno
  | returned =>
    obtain rfl := Option.some.inj hd
    cases hr

/-- What is passed for a transfer of a run is its `max_packet_size`. -/
theorem Submitted.passes_iff (h : Run (Fires sysExec) s₀ es s) (hx : x ∈ submissions s₀ es)
    (n : Int) : x.Passes n ↔ x.maxPacketSize = n := by
  have hlooked : ∀ x ∈ submissions s₀ es, x.LookedUp := by
    refine h.invariant (P := fun es _ ↦ ∀ x ∈ submissions s₀ es, x.LookedUp) nofun ?_
    intro es s e s' hrun ih hfire x hx
    rw [submissions_snoc hrun] at hx
    rcases List.mem_append.mp hx with hx | hx
    · exact ih x hx
    · exact lookedUp_step (sysStep_of_exec hfire) (Option.mem_toList.mp hx)
  exact passes_of_lookedUp (hlooked x hx) n

/-- The place of the lookup is right where the descriptor for the endpoint is at it. -/
theorem Submitted.passes_at {cfg d : List UInt8} {before after : List (List UInt8)}
    (hep : x.submit.ep ≠ 0) (hcfg : x.cfgDsc = some cfg)
    (hvalid : ChainValid cfg (before ++ d :: after)) (hlen : 7 ≤ d.length)
    (hplace : before.flatten.length = 18 + 7 * (x.submit.ep - 1).toNat) (n : Int) :
    x.Passes n ↔ endpointSize d = n := by
  have hword : ∀ k < 7, cfg[18 + 7 * (x.submit.ep - 1).toNat + k]? = some (d.getD k 0) := by
    intro k hk
    rw [← hvalid.flatten, List.flatten_append, List.flatten_cons, ← hplace,
      List.getElem?_append_right (Nat.le_add_right ..), Nat.add_sub_cancel_left,
      List.getElem?_append_left (by omega), List.getD_eq_getElem _ _ (by omega)]
    exact List.getElem?_eq_getElem _
  have hlo := hword 4 (by decide)
  have hhi := hword 5 (by decide)
  rw [show 18 + 7 * (x.submit.ep - 1).toNat + 4 = 22 + 7 * (x.submit.ep - 1).toNat by omega] at hlo
  rw [show 18 + 7 * (x.submit.ep - 1).toNat + 5 = 23 + 7 * (x.submit.ep - 1).toNat by omega] at hhi
  unfold Submitted.Passes
  rw [if_neg hep]
  constructor
  · rintro ⟨cfg', hcfg', lo, hi, hlo', hhi', rfl⟩
    obtain rfl := Option.some.inj (hcfg.symm.trans hcfg')
    obtain rfl := Option.some.inj (hlo.symm.trans hlo')
    obtain rfl := Option.some.inj (hhi.symm.trans hhi')
    rfl
  · rintro rfl
    exact ⟨cfg, hcfg, _, _, hlo, hhi, rfl⟩

-- What is linked for a request has the packet size of the transfer, and the first link to a slot
-- that of the transfer that opened it.
private theorem opened_iff {stack : Vector UInt8 9} (h : Run (Fires sysExec) (sysInit stack) es s)
    {slot : Slot} {f : LinkArgs} (hf : firstLink slot (hcdEvents (serverEvents es)) = some f)
    (n : Int) : f.mps = n ↔
      ∃ y ∈ submissions (sysInit stack) es, Opens (serverEvents es) slot y.urb ∧ y.Passes n := by
  have hserver : ServerRun (serverEvents es) s.server := SysRun.server_run ⟨stack, h⟩
  obtain ⟨l, hl, rfl⟩ := List.mem_map.mp (List.mem_of_find?_eq_some hf)
  obtain ⟨u, b, st, hargs, hsized⟩ := (ServerRun.given hserver).links l hl
  have hmps : l.2.mps = b.maxPacketSize := by rw [hargs, Urb.linkArgs_mps]
  have howner : urbOwner l.2.urb.id = u := by
    rw [hargs, Urb.linkArgs_urb_id, urbOwner_stageUrb]
  constructor
  · rintro rfl
    unfold SizedAs at hsized
    rw [← submissions_sized h] at hsized
    obtain ⟨y, hy, heq⟩ := List.mem_map.mp hsized
    obtain ⟨rfl, hsub, hsize⟩ := by simpa using heq
    refine ⟨y, hy, ⟨l.2, hf, howner⟩, (Submitted.passes_iff h hy _).mpr ?_⟩
    rw [hsize, hmps]
  · rintro ⟨y, hy, ⟨f', hf', hurb⟩, hpass⟩
    obtain rfl := Option.some.inj (hf.symm.trans hf')
    have hmem : (y.urb, y.submit, y.maxPacketSize) ∈ sizedRequests (serverEvents es) := by
      rw [← submissions_sized h]
      exact List.mem_map_of_mem (f := fun x ↦ (x.urb, x.submit, x.maxPacketSize)) hy
    rw [← hurb, howner] at hmem
    have hsame : y.maxPacketSize = b.maxPacketSize :=
      congrArg Prod.snd ((ServerRun.held hserver).size_unique hmem hsized)
    rw [hmps, ← hsame]
    exact (Submitted.passes_iff h hy n).mp hpass

/-- A transfer uses the packet size that it requires if and only if that is what was passed for
the transfer that was the first to link to the same list, address and endpoint number. -/
theorem SysRun.ownSize_iff {stack : Vector UInt8 9}
    (h : Run (Fires sysExec) (sysInit stack) es s) {a : LinkArgs}
    (ha : LinkedFor (sysInit stack) es x a) :
    (∀ n, x.Requires n → s.server.loop.hcd.UsesSize a n) ↔
      ∀ n, x.Requires n → ∃ y ∈ submissions (sysInit stack) es,
        Opens (serverEvents es) a.slot y.urb ∧ y.Passes n := by
  have hserver : ServerRun (serverEvents es) s.server := SysRun.server_run ⟨stack, h⟩
  have hhcd := (ServerRun.loop_run hserver).driver_run
  obtain ⟨g, hlink, -⟩ := mem_requestLinks.mp ha.linked
  refine forall₂_congr fun n _ ↦ ?_
  rw [hhcd.usesSize_iff hlink n]
  constructor
  · rintro ⟨f, hf, hn⟩
    exact (opened_iff h hf n).mp hn
  · rintro ⟨y, hy, ⟨f, hf, hurb⟩, hpass⟩
    exact ⟨f, hf, (opened_iff h hf n).mpr ⟨y, hy, ⟨f, hf, hurb⟩, hpass⟩⟩

end Transfers

/-! ### Two runs -/

private def sampleConfig : List (List UInt8) :=
  [[9, 2, 32, 0, 1, 1, 0, 0x80, 50], [9, 4, 0, 0, 2, 0xFF, 0, 0, 0], [7, 5, 1, 2, 8, 0, 0],
    [7, 5, 0x82, 2, 16, 0, 0]]

private def endpointTwo : List UInt8 := [7, 5, 0x82, 2, 16, 0, 0]

private def readEndpoint : List SysOp :=
  [.attach, .busReset] ++ transferOps exampleDevice ++ transferOps (sampleConfig.flatten.take 9) ++
    [.busReset] ++ transferOps exampleDevice ++ transferOps [] ++ transferOps exampleDevice ++
    transferOps (sampleConfig.flatten.take 9) ++ [.calloc] ++ transferOps sampleConfig.flatten ++
    [.publish, .client (.cmdSubmit ⟨1, 1, 1, 1, 2, 0, 4, 0, 0, 0, List.replicate 8 0⟩ [])
      [0, 0, 0, 0], .server (.insert .accept), .server (.link .accept)]

/-- A request that needs packets of 16 bytes is linked with them. -/
theorem SysRun.ownSize_iff_example : ∃ es s x a, Run (Fires sysExec) (sysInit zeroStack) es s ∧
    LinkedFor (sysInit zeroStack) es x a ∧ x.submit.ep = 2 ∧ x.Requires 16 ∧
    s.server.loop.hcd.UsesSize a 16 := by
  have hcheck : runsTo sysExec (sysInit zeroStack) readEndpoint (fun _ es ↦
      decide (∃ x ∈ submissions (sysInit zeroStack) es,
        (x.submit.ep = 2 ∧ x.submit.dirIn = true ∧ x.cfgDsc = some sampleConfig.flatten) ∧
        ∃ a ∈ requestLinks (serverEvents es) x.urb, Opens (serverEvents es) a.slot x.urb)) =
      true := by
    decide +kernel
  obtain ⟨es, s, hrun, hp⟩ := Run.of_runsTo hcheck
  obtain ⟨x, hx, ⟨hep, hdir, hcfg⟩, a, ha, hopens⟩ := of_decide_eq_true hp
  have hne : x.submit.ep ≠ 0 := by rw [hep]; decide
  have hvalid : ChainValid sampleConfig.flatten sampleConfig :=
    ⟨by decide, ⟨_, rfl, rfl, rfl⟩, by decide⟩
  have hdescribes : Describes endpointTwo 2 true := ⟨⟨rfl, by decide⟩, rfl, rfl⟩
  have hrequires : x.Requires 16 := by
    unfold Submitted.Requires
    rw [if_neg hne, hep, hdir]
    exact ⟨_, hcfg, _, hvalid, endpointTwo, by decide, hdescribes, rfl⟩
  have hlinked : LinkedFor (sysInit zeroStack) es x a := ⟨hx, ha⟩
  refine ⟨es, s, x, a, hrun, hlinked, hep, hrequires, ?_⟩
  refine (SysRun.ownSize_iff hrun hlinked).mpr (fun n hn ↦ ⟨x, hx, hopens, ?_⟩) 16 hrequires
  unfold Submitted.Requires at hn
  rw [if_neg hne, hep, hdir] at hn
  obtain ⟨cfg, hcfg', ds, hvalid', d, hd, hdesc, hsize⟩ := hn
  obtain rfl := Option.some.inj (hcfg.symm.trans hcfg')
  obtain rfl := Option.some.inj (hvalid.chain.symm.trans hvalid'.chain)
  have honly : ∀ d ∈ sampleConfig, d.getD 1 0 = 5 → (d.getD 2 0 &&& 0x0F).toNat = 2 →
      d = endpointTwo := by decide
  obtain rfl := honly d hd hdesc.endpoint.1 hdesc.number
  have hplaced : ChainValid sampleConfig.flatten (sampleConfig.take 3 ++ endpointTwo :: []) :=
    hvalid
  refine (Submitted.passes_at hne hcfg hplaced (by decide) ?_ n).mpr hsize
  rw [hep]
  rfl

private def secondTransfer : List SysOp :=
  [.attach, .busReset] ++ transferOps exampleDevice ++
    [.begin, .server (.insert .system), .server (.link .system)]

/-- The second transfer of an enumeration is passed what the device descriptor says and uses the
8 of the first. -/
theorem SysRun.size_of_first : ¬ ∀ stack es s, Run (Fires sysExec) (sysInit stack) es s →
    ∀ x a, LinkedFor (sysInit stack) es x a → ∀ n, x.Requires n →
      s.server.loop.hcd.UsesSize a n := by
  intro hall
  have hcheck : runsTo sysExec (sysInit zeroStack) secondTransfer (fun s es ↦
      decide (∃ x ∈ submissions (sysInit zeroStack) es, (x.submit.ep = 0 ∧ x.maxPacketSize = 64) ∧
        ∃ a ∈ requestLinks (serverEvents es) x.urb, ¬ s.server.loop.hcd.UsesSize a 64)) =
      true := by
    decide +kernel
  obtain ⟨es, s, hrun, hp⟩ := Run.of_runsTo hcheck
  obtain ⟨x, hx, ⟨hep, hsize⟩, a, ha, hnot⟩ := of_decide_eq_true hp
  refine hnot (hall _ es s hrun x a ⟨hx, ha⟩ 64 ?_)
  unfold Submitted.Requires
  rw [if_pos hep]
  exact hsize

end BiMpp.Usbip
