import BiMpp.Usbip.Enumeration
import BiMpp.Usbip.StageOutcome

/-!
# What the published descriptors are worth

`sys_usb_control_transfer` returns the size it was given, whatever the device did, so
`system_loop` publishes what is in its buffers after the seventh transfer:
`bi-mpp-pic24-usb-simulator-master/src/sys.c:95–123,242–256`. They hold the device's
bytes, all of them, exactly if the device let every transfer come to its end.
-/

namespace BiMpp.Usbip
open BiMpp.Usb BiMpp.Base BiMpp.Host

/-! ### The request of a transfer -/

private theorem held_before {s s' : Server} {e : ServerEvent} (hs : ServerStep s e s')
    (hstart : e.1.isStart = false) {u : Nat} {b' : Urb}
    (h : (s'.pc .system).held = some (u, b')) :
    ∃ b, (s.pc .system).held = some (u, b) ∧ b.submit = b'.submit := by
  have hset : ∀ (t : Thread) (p : Pc), (Function.update s.pc t p .system).held = some (u, b') →
      (t = .system → p.held = some (u, b') →
        ∃ b, (s.pc .system).held = some (u, b) ∧ b.submit = b'.submit) →
      ∃ b, (s.pc .system).held = some (u, b) ∧ b.submit = b'.submit := by
    intro t p hp hown
    rw [Function.update_apply] at hp
    split at hp
    · next ht => exact hown ht.symm hp
    · exact ⟨b', hp, rfl⟩
  cases hs with
  | start => cases hstart
  | @move t _ p l hown =>
    apply hset t p h
    rintro rfl hp
    exact hown.held hp
  | @linkStage t v b₀ st x loop hpc =>
    apply hset t (.wait v b₀ st none) h
    rintro rfl hp
    rw [hpc]
    exact ⟨b', hp, rfl⟩
  | @linkDirect t =>
    apply hset t .idle h
    intro _ hp
    cases hp
  | loop => exact ⟨b', h, rfl⟩
  | @doneStage r x loop c t v b₀ st _ _ _ _ _ _ hpc =>
    apply hset t (.wait v b₀ st (some c)) h
    rintro rfl hp
    rw [hpc]
    exact ⟨b', hp, rfl⟩
  | @doneDirect r x loop c v b₀ =>
    apply hset .hcd (.reply v (b₀.afterStage c .direct)) h
    intro ht
    cases ht

private theorem start_held {s s' : Server} {t : Thread} {submit : CmdSubmit} {mps : Int}
    {data : List UInt8} {o : ServerOut}
    (h : serverExec s (.start t submit mps data) = .ok (s', o)) :
    ∃ u, s'.pc = Function.update s.pc t (.insert u ⟨submit, mps, data, 0⟩) := by
  simp only [serverExec] at h
  split at h
  · cases h
    exact ⟨_, rfl⟩
  · cases h

private theorem free_held {s s' : Server} {u : Nat} {b : Urb} {o : ServerOut}
    (hpc : s.pc .system = .free u b) (h : serverExec s (.free .system) = .ok (s', o)) :
    s'.pc .system = .idle := by
  simp only [serverExec, hpc] at h
  obtain ⟨l, -, h⟩ := bind_eq_ok.mp h
  cases pure_eq_ok.mp h
  show (s.setPc .system .idle).pc .system = .idle
  rw [Server.pc_setPc, if_pos rfl]

/-- What `system_loop` has with the server is the request of the transfer it waits for. -/
def Asked (s : Sys) : Prop :=
  ∀ u b, (s.server.pc .system).held = some (u, b) →
    ∃ i n k, s.pc = .waiting i n k ∧ b.submit = s.submit k

private theorem Asked.step {s s' : Sys} {e : SysEvent} (h : Asked s) (hs : SysStep s e s') :
    Asked s' := by
  have hnone : (∀ i n k, s.pc ≠ .waiting i n k) → ∀ u b,
      (s.server.pc .system).held ≠ some (u, b) := by
    intro hpc u b hb
    obtain ⟨i, n, k, hw, -⟩ := h u b hb
    exact hpc i n k hw
  intro u b hb
  cases hs with
  | attach hpc => exact absurd hb (hnone (by simp [hpc]) u b)
  | busReset hpc => exact absurd hb (hnone (by simp [hpc]) u b)
  | @begin i n k e server hpc hi he hfire =>
    obtain ⟨op, o⟩ := e
    dsimp only at he
    subst he
    obtain ⟨v, hv⟩ := start_held hfire
    dsimp only at hb
    rw [hv, Function.update_self] at hb
    cases hb
    exact ⟨i, n, k, rfl, rfl⟩
  | calloc hpc => exact absurd hb (hnone (by simp [hpc]) u b)
  | publish hpc => exact absurd hb (hnone (by simp [hpc]) u b)
  | leave hpc => exact absurd hb (hnone (by simp [hpc]) u b)
  | @submit c payload buffer mps e server _ he hfire =>
    obtain ⟨op, o⟩ := e
    dsimp only at he
    subst he
    obtain ⟨v, hv⟩ := start_held hfire
    dsimp only at hb
    rw [hv, Function.update_of_ne (by simp)] at hb
    exact h u b hb
  | answer => exact h u b hb
  | server hstart hfire =>
    obtain ⟨b', hb', hsub⟩ := held_before (serverStep_of_exec hfire) hstart hb
    obtain ⟨i, n, k, hw, hk⟩ := h u b' hb'
    exact ⟨i, n, k, hw, hsub.symm.trans hk⟩
  | @returned i n k o v c server _ hpc hfire =>
    have hidle := free_held hpc hfire
    have hserver : (({ s with server := server }.store c.data k).server).pc .system = .idle := by
      cases k <;> exact hidle
    dsimp only at hb
    rw [hserver] at hb
    cases hb

/-- `system_loop` holds the request of the transfer it waits for. -/
theorem SysRun.asked {es : List SysEvent} {s : Sys} (h : SysRun es s) : Asked s := by
  obtain ⟨stack, h⟩ := h
  refine Run.invariant (P := fun _ s ↦ Asked s) ?_ ?_ h
  · intro u b hb
    cases hb
  · intro es s e s' _ ih hfire
    exact ih.step (sysStep_of_exec hfire)

/-! ### How a transfer went -/

/-- The bytes the device sent in the data stage of a request. -/
def sentBytes (es : List ServerEvent) (u : Nat) : List UInt8 :=
  receivedBytes (stageTransactions es u .data)

/-- The transfer has all its stages acknowledged and moved the number of bytes it was asked
for, which are what it leaves. -/
structure Exact (es : List ServerEvent) (u : Nat) (b : Urb) : Prop where
  acked : ∀ st ∈ b.submit.stages, ∃ t ∈ stageTransactions es u st,
    t.retired.isSome = true ∧ t.response.isAck = true
  moved : ((sentBytes es u).length : Int) = b.submit.size
  data : b.data = sentBytes es u

/-- The device stalled no stage of the request, failed none of them more than twice, and
sent as many bytes as were asked for. -/
structure Smooth (es : List ServerEvent) (u : Nat) (c : CmdSubmit) : Prop where
  stalls : ∀ st ∈ c.stages, ∀ t ∈ stageTransactions es u st, t.response ≠ .stall
  errors : ∀ st ∈ c.stages, errorsOf (stageTransactions es u st) ≤ 2
  whole : ((sentBytes es u).length : Int) = c.size

instance (es : List ServerEvent) (u : Nat) (c : CmdSubmit) : Decidable (Smooth es u c) :=
  decidable_of_iff ((∀ st ∈ c.stages, ∀ t ∈ stageTransactions es u st, t.response ≠ .stall) ∧
      (∀ st ∈ c.stages, errorsOf (stageTransactions es u st) ≤ 2) ∧
      ((sentBytes es u).length : Int) = c.size)
    ⟨fun h ↦ ⟨h.1, h.2.1, h.2.2⟩, fun h ↦ ⟨h.stalls, h.errors, h.whole⟩⟩

/-- A transfer `system_loop` has done. -/
structure Done (es : List ServerEvent) (u : Nat) (b : Urb) : Prop where
  request : (u, b.submit) ∈ requests es
  sized : b.Sized
  measured : .data ∉ b.submit.stages → b.submit.size = 0
  incoming : .data ∈ b.submit.stages → b.submit.requestIn = true
  stages : ∀ st ∈ b.submit.stages, ∃ c ∈ completions (hcdEvents es), c.urb = stageUrb u st
  data : .data ∈ b.submit.stages →
    ∃ c ∈ completions (hcdEvents es), c.urb = stageUrb u .data ∧ c.data = b.data

/-- What a finished URB went through stays in the history. -/
theorem Done.mono {es : List ServerEvent} {u : Nat} {b : Urb} (h : Done es u b)
    (e : ServerEvent) : Done (es ++ [e]) u b where
  request := requests_mono e h.request
  sized := h.sized
  measured := h.measured
  incoming := h.incoming
  stages st hst := by
    obtain ⟨c, hc, hu⟩ := h.stages st hst
    exact ⟨c, completions_mono e hc, hu⟩
  data hst := by
    obtain ⟨c, hc, hu⟩ := h.data hst
    exact ⟨c, completions_mono e hc, hu⟩

section Stage

variable {es : List ServerEvent} {s : Server} {u : Nat} {b : Urb}

private theorem Done.acked_iff (hd : Done es u b) (h : ServerRun es s) {st : Stage}
    (hst : st ∈ b.submit.stages) :
    (∃ t ∈ stageTransactions es u st, t.retired.isSome = true ∧ t.response.isAck = true) ↔
      (∀ t ∈ stageTransactions es u st, t.response ≠ .stall) ∧
        errorsOf (stageTransactions es u st) ≤ 2 := by
  obtain ⟨c, hc, hu⟩ := hd.stages st hst
  exact h.acked_iff hd.request hc hu

private theorem Done.data_eq (hd : Done es u b) (h : ServerRun es s)
    (hwhole : ((sentBytes es u).length : Int) = b.submit.size) : b.data = sentBytes es u := by
  by_cases hst : .data ∈ b.submit.stages
  · obtain ⟨c, hc, hu, hdata⟩ := hd.data hst
    obtain ⟨a, ha, b', hsub, hsized, hlink, hof, hfits⟩ := h.completed_link hd.request hc hu
    have hin : (b'.linkArgs u .data).dir = true := by
      show b'.submit.requestIn = true
      rw [hsub]
      exact hd.incoming hst
    have hdel :=
      (QueuesRun.delivered ha hlink hin rfl (hsized.linkArgs u .data) hfits hc rfl).data
    rw [hof] at hdel
    have hroom : b'.data.drop (sentBytes es u).length = [] := by
      apply List.drop_eq_nil_of_le
      have hlen := hsized.data
      rw [hsub] at hlen
      omega
    calc
      b.data = c.data := hdata.symm
      _ = sentBytes es u ++ b'.data.drop (sentBytes es u).length := hdel
      _ = sentBytes es u := by rw [hroom, List.append_nil]
  · have hzero := hd.measured hst
    have hlen := hd.sized.data
    rw [List.eq_nil_of_length_eq_zero (l := b.data) (by omega),
      List.eq_nil_of_length_eq_zero (l := sentBytes es u) (by omega)]

/-- A transfer is exact exactly if the device let it come to its end. -/
theorem Done.exact_iff (hd : Done es u b) (h : ServerRun es s) :
    Exact es u b ↔ Smooth es u b.submit := by
  constructor
  · intro he
    constructor
    · intro st hst
      exact ((hd.acked_iff h hst).mp (he.acked st hst)).1
    · intro st hst
      exact ((hd.acked_iff h hst).mp (he.acked st hst)).2
    · exact he.moved
  · intro hs
    constructor
    · intro st hst
      exact (hd.acked_iff h hst).mpr ⟨hs.stalls st hst, hs.errors st hst⟩
    · exact hs.whole
    · exact hd.data_eq h hs.whole

end Stage

/-! ### What a transfer asks for -/

private theorem hostWord_value (x : BitVec 16) :
    ((hostWord x).getD 0 0).toNat + 256 * ((hostWord x).getD 1 0).toNat = x.toNat := by
  have hlow : ((hostWord x).getD 0 0).toNat = x.toNat % 256 := by
    show (x.extractLsb' 0 8).toNat = _
    simp
  have hhigh : ((hostWord x).getD 1 0).toNat = x.toNat / 256 := by
    show (x.extractLsb' 8 8).toNat = _
    have hx := x.isLt
    rw [BitVec.extractLsb'_toNat, Nat.shiftRight_eq_div_pow]
    omega
  omega

private theorem Sys.wLength_submit (s : Sys) (k : Transfer) :
    (s.submit k).wLength = (s.req k).wLength.toNat := hostWord_value (s.req k).wLength

/-- A transfer is submitted with the length of its request. -/
theorem Sys.size_submit (s : Sys) (k : Transfer) :
    (s.submit k).size = ((s.size k).toNat : Int) := by
  have hx := (s.size k).isLt
  show ((s.size k).setWidth 32).toInt = _
  rw [BitVec.toInt_eq_toNat_of_lt, BitVec.toNat_setWidth]
  · omega
  · rw [BitVec.toNat_setWidth]
    omega

private theorem Sys.data_mem (s : Sys) (k : Transfer) :
    .data ∈ (s.submit k).stages ↔ 0 < (s.req k).wLength.toNat := by
  have hcontrol : (s.submit k).isControl = true := by
    cases k <;> simp [CmdSubmit.isControl, Sys.submit, Sys.req, UsbDeviceReq.bytes]
  rw [CmdSubmit.mem_stages, ← s.wLength_submit]
  exact and_iff_right hcontrol

/-- `wLength` of the configuration requests is what their buffer holds. -/
structure Measured (s : Sys) : Prop where
  short : s.past ≤ 8 → s.wLength = 9
  whole : 8 < s.past → s.wLength = totalLength s.cfg

private theorem Measured.step {es : List SysEvent} {s s' : Sys} {e : SysEvent} (h : Measured s)
    (he : Enumerated es s) (hs : SysStep s e s') : Measured s' := by
  have hrun : ∀ {i n}, s.pc = .run i n → s.past = n := by
    intro i n hpc
    rw [Sys.past, hpc]
  have hframe : ∀ {t : Sys}, (t.past ≤ 8 ↔ s.past ≤ 8) → t.wLength = s.wLength → t.cfg = s.cfg →
      Measured t := by
    intro t hp hw hc
    constructor
    · intro hle
      rw [hw]
      exact h.short (hp.mp hle)
    · intro hlt
      rw [hw, hc]
      exact h.whole (by omega)
  cases hs with
  | attach hpc hatt =>
    refine hframe ?_ rfl rfl
    rw [Sys.past, Sys.past, hpc, hatt]
    simp
  | @busReset i n hpc hi =>
    have hp := hrun hpc
    have hn := attempt_busReset hi
    refine hframe ?_ rfl rfl
    show n + 1 ≤ 8 ↔ s.past ≤ 8
    omega
  | @begin i n k e server hpc =>
    refine hframe ?_ rfl rfl
    rw [hrun hpc]
    rfl
  | @calloc i n hpc hi =>
    obtain rfl := attempt_calloc hi
    constructor
    · intro hle
      exact absurd (show 8 + 1 ≤ 8 from hle) (by decide)
    · intro _
      rfl
  | @publish i n buf hpc hi =>
    have hp := hrun hpc
    have hn := attempt_publish hi
    refine hframe ?_ rfl rfl
    show n + 1 ≤ 8 ↔ s.past ≤ 8
    omega
  | @leave i hpc =>
    have hatt := he.attached (by simp [hpc])
    refine hframe ?_ rfl rfl
    rw [Sys.past, hrun hpc]
    simp [hatt]
  | submit => exact hframe Iff.rfl rfl rfl
  | answer => exact h
  | server => exact hframe Iff.rfl rfl rfl
  | @returned i n k o u b server hpc =>
    obtain ⟨rfl, rfl⟩ := he.waiting i n k hpc
    have hp : s.past = k.index := by rw [Sys.past, hpc]
    have hne := k.index_ne
    constructor
    · intro hle
      have hlt : k.index + 1 ≤ 8 := hle
      have hw := h.short (by omega)
      cases k <;> exact hw
    · intro hlt
      have hlt : 8 < k.index + 1 := hlt
      have hw := h.whole (by omega)
      cases k with
      | firstConfig => exact absurd hlt (by decide)
      | config => exact absurd hlt (by decide)
      | _ => exact hw

/-- The configuration is asked for with nine bytes, then with its own length. -/
theorem SysRun.measured {es : List SysEvent} {s : Sys} (h : SysRun es s) : Measured s := by
  obtain ⟨stack, h⟩ := h
  refine Run.invariant (P := fun _ s ↦ Measured s) ?_ ?_ h
  · exact ⟨fun _ ↦ rfl, fun hlt ↦ absurd hlt (Nat.not_lt_zero _)⟩
  · intro es s e s' hrun ih hfire
    exact ih.step (SysRun.enumerated ⟨stack, hrun⟩) (sysStep_of_exec hfire)

private theorem Measured.stage {es : List SysEvent} {s : Sys} (h : Measured s)
    (he : Enumerated es s) {i n : Nat} {k : Transfer} (hpc : s.pc = .waiting i n k) :
    (.data ∉ (s.submit k).stages → (s.submit k).size = 0) ∧
      (.data ∈ (s.submit k).stages → (s.submit k).requestIn = true) := by
  obtain ⟨-, rfl⟩ := he.waiting i n k hpc
  have hp : s.past = k.index := by rw [Sys.past, hpc]
  have hread : ((0x80 : UInt8) &&& 0x80 != 0) = true := by decide
  have hdevice : 0 < (18 : BitVec 16).toNat := by decide
  have hnone : ¬ 0 < (0 : BitVec 16).toNat := by decide
  rw [s.data_mem, s.size_submit]
  cases k with
  | firstDevice => exact ⟨fun hz ↦ absurd hdevice hz, fun _ ↦ hread⟩
  | resetDevice => exact ⟨fun hz ↦ absurd hdevice hz, fun _ ↦ hread⟩
  | device => exact ⟨fun hz ↦ absurd hdevice hz, fun _ ↦ hread⟩
  | firstConfig =>
    have hw : (s.req .firstConfig).wLength = 9 := h.short (by rw [hp]; decide)
    rw [hw]
    exact ⟨fun hz ↦ absurd (by decide) hz, fun _ ↦ hread⟩
  | config =>
    have hw : (s.req .config).wLength = 9 := h.short (by rw [hp]; decide)
    rw [hw]
    exact ⟨fun hz ↦ absurd (by decide) hz, fun _ ↦ hread⟩
  | wholeConfig =>
    have hw : (s.req .wholeConfig).wLength = totalLength s.cfg := h.whole (by rw [hp]; decide)
    rw [hw]
    refine ⟨fun hz ↦ ?_, fun _ ↦ hread⟩
    rw [Sys.size, Nat.eq_zero_of_not_pos hz]
    rfl
  | setAddress => exact ⟨fun _ ↦ rfl, fun hd ↦ absurd hd hnone⟩
  | setConfiguration => exact ⟨fun _ ↦ rfl, fun hd ↦ absurd hd hnone⟩
  | setInterface => exact ⟨fun _ ↦ rfl, fun hd ↦ absurd hd hnone⟩

private theorem Done.mono_sys {es : List SysEvent} {u : Nat} {b : Urb}
    (h : Done (serverEvents es) u b) (e : SysEvent) : Done (serverEvents (es ++ [e])) u b := by
  rw [serverEvents_snoc]
  cases SysEvent.serverEvent e with
  | none =>
    rw [Option.toList_none, List.append_nil]
    exact h
  | some x => exact h.mono x

private theorem SysRun.done_free {es : List SysEvent} {s : Sys} (h : SysRun es s) {i n : Nat}
    {k : Transfer} {u : Nat} {b : Urb} (hpc : s.pc = .waiting i n k)
    (hfree : s.server.pc .system = .free u b) : Done (serverEvents es) u b := by
  have hrun := h.server_run
  have ht := ServerRun.tracked hrun
  have hheld : (s.server.pc .system).held = some (u, b) := by rw [hfree]; rfl
  have hfilled : (s.server.pc .system).filled = some (u, b) := by rw [hfree]; rfl
  obtain ⟨i', n', k', hpc', hsub⟩ := h.asked u b hheld
  obtain ⟨rfl, rfl, rfl⟩ := SysPc.waiting.inj (hpc.symm.trans hpc')
  obtain ⟨hzero, hin⟩ := h.measured.stage h.enumerated hpc
  rw [← hsub] at hzero hin
  constructor
  · exact (ServerRun.held hrun).mine .system u b hheld
  · exact ht.held .system u b hheld
  · exact hzero
  · exact hin
  · intro st hst
    apply ht.past .system u b st hheld hst
    rw [hfree]
    exact st.code_lt
  · exact ServerRun.kept hrun .system u b hfilled

/-- Every transfer that has returned is done, and has passed its check. -/
theorem SysRun.done {es : List SysEvent} {s : Sys} (h : SysRun es s) {i : Nat} {k : Transfer}
    {u : Nat} {b : Urb} {p : Bool} (hr : Returned es i k u b p) :
    p = true ∧ Done (serverEvents es) u b := by
  obtain ⟨stack, h⟩ := h
  refine Run.invariant (P := fun es _ ↦ ∀ i k u b p, Returned es i k u b p →
    p = true ∧ Done (serverEvents es) u b) ?_ ?_ h i k u b p hr
  · intro i k u b p ⟨op, e, hmem⟩
    cases hmem
  · intro es s e s' hrun ih hfire i k u b p ⟨op, x, hmem⟩
    have hsys : SysRun es s := ⟨stack, hrun⟩
    rcases List.mem_append.mp hmem with hold | hnew
    · obtain ⟨hp, hd⟩ := ih i k u b p ⟨op, x, hold⟩
      exact ⟨hp, hd.mono_sys e⟩
    · obtain rfl := List.mem_singleton.mp hnew
      have hstep : SysStep s _ s' := sysStep_of_exec hfire
      generalize hq : SysOut.returned x i k u b p = o at hstep
      cases hstep with
      | @returned i' n k' o u' b' server hpc hfree hfire' =>
        cases hq
        exact ⟨rfl, (hsys.done_free hpc hfree).mono_sys _⟩
      | answer ho => rcases ho with rfl | ⟨st, rfl⟩ | ⟨l, rfl⟩ <;> cases hq
      | _ => cases hq

/-! ### What is published -/

/-- The device is published only after every transfer of the attempt was exact, with the
bytes it sent, and a transfer that is not abandons the attempt. -/
structure Careful (es : List SysEvent) (s : Sys) : Prop where
  ready : s.devReady = true → ∃ i d c, Published es i d c
  before : ∀ i d c, Published es i d c → ∀ k, k.index < 10 →
    ∃ u b, Returned es i k u b true ∧ Exact (serverEvents es) u b
  device : ∀ i d c, Published es i d c →
    ∃ u b, Returned es i .device u b true ∧ d = sentBytes (serverEvents es) u
  config : ∀ i d c, Published es i d c →
    ∃ u b, Returned es i .wholeConfig u b true ∧ c = sentBytes (serverEvents es) u
  abandons : ∀ i k u b p, Returned es i k u b p → ¬ Exact (serverEvents es) u b → p = false

/-- In every run, the device is published with care if and only if it let every transfer come
to its end. -/
theorem SysRun.careful_iff {es : List SysEvent} {s : Sys} (h : SysRun es s) :
    Careful es s ↔ ∀ i k u b p, Returned es i k u b p → Smooth (serverEvents es) u b.submit := by
  have hrun := h.server_run
  have he := h.enumerated
  have hiff : ∀ i k u b p, Returned es i k u b p →
      (Exact (serverEvents es) u b ↔ Smooth (serverEvents es) u b.submit) := by
    intro i k u b p hr
    exact (h.done hr).2.exact_iff hrun
  constructor
  · intro hc i k u b p hr
    by_contra hs
    have hp := hc.abandons i k u b p hr fun hx ↦ hs ((hiff i k u b p hr).mp hx)
    rw [(h.done hr).1] at hp
    cases hp
  · intro hall
    have hexact : ∀ i k u b p, Returned es i k u b p → Exact (serverEvents es) u b := by
      intro i k u b p hr
      exact (hiff i k u b p hr).mpr (hall i k u b p hr)
    constructor
    · intro hready
      exact he.published.mp (he.ready.mp hready)
    · intro i d c hp k hk
      obtain ⟨rfl, hback, -⟩ := he.contents i d c hp
      obtain ⟨u, b, hr⟩ := hback k hk
      exact ⟨u, b, hr, hexact _ _ _ _ _ hr⟩
    · intro i d c hp
      obtain ⟨rfl, -, ⟨u, b, hr, hd⟩, -⟩ := he.contents i d c hp
      exact ⟨u, b, hr, hd.trans (hexact _ _ _ _ _ hr).data⟩
    · intro i d c hp
      obtain ⟨rfl, -, -, u, b, hr, hc⟩ := he.contents i d c hp
      exact ⟨u, b, hr, hc.trans (hexact _ _ _ _ _ hr).data⟩
    · intro i k u b p hr hx
      exact absurd (hexact i k u b p hr) hx

/-- Whether a condition on the URB holds of every transfer in a history that has returned. -/
def everyReturned (p : Transfer → Nat → Urb → Bool) (es : List SysEvent) : Bool :=
  es.all fun e ↦ match e.2 with
    | .returned _ _ k u b _ => p k u b
    | _ => true

/-- A test that every returned URB passes is passed by each. -/
theorem everyReturned_apply {p : Transfer → Nat → Urb → Bool} {es : List SysEvent}
    (h : everyReturned p es = true) {i : Nat} {k : Transfer} {u : Nat} {b : Urb} {q : Bool}
    (hr : Returned es i k u b q) : p k u b = true := by
  obtain ⟨op, e, hmem⟩ := hr
  exact List.all_eq_true.mp h _ hmem

/-- A device that answers in full is published carefully. -/
theorem SysRun.careful_iff_example : ∃ es s, SysRun es s ∧ Careful es s ∧
    Published es 0 exampleDevice exampleConfig := by
  have hcheck : runsTo sysExec (sysInit zeroStack) enumerationOps (fun _ es ↦
      decide (Published es 0 exampleDevice exampleConfig) &&
        everyReturned (fun _ u b ↦ decide (Smooth (serverEvents es) u b.submit)) es) = true := by
    decide +kernel
  obtain ⟨es, s, hrun, hp⟩ := Run.of_runsTo hcheck
  obtain ⟨hpub, hall⟩ := Bool.and_eq_true_iff.mp hp
  have hsys : SysRun es s := ⟨zeroStack, hrun⟩
  refine ⟨es, s, hsys, (SysRun.careful_iff hsys).mpr ?_, of_decide_eq_true hpub⟩
  intro i k u b q hr
  exact of_decide_eq_true (everyReturned_apply hall hr)

/-- One control transfer of which the device stalls every stage. -/
def stalledOps (stages : Nat) : List SysOp :=
  .begin :: (.insert .system :: (List.replicate stages (stageOps .stall)).flatten ++
    [ServerOp.free .system]).map .server

/-- `system_loop` up to the publication, with a device that stalls everything. -/
def stalledEnumeration : List SysOp :=
  [.attach, .busReset] ++ stalledOps 3 ++ stalledOps 3 ++ [.busReset] ++ stalledOps 3 ++
    stalledOps 2 ++ stalledOps 3 ++ stalledOps 3 ++ [.calloc] ++ stalledOps 2 ++ [.publish]

/-- A device that stalls everything is published with the zeros that were in the buffers. -/
theorem stalled_published : ¬ ∀ es s, SysRun es s → Careful es s := by
  intro hall
  have hcheck : runsTo sysExec (sysInit zeroStack) stalledEnumeration (fun _ es ↦
      decide (Published es 0 (List.replicate 18 0) []) &&
        everyReturned (fun _ u _ ↦ decide (sentBytes (serverEvents es) u = [])) es) = true := by
    decide +kernel
  obtain ⟨es, s, hrun, hp⟩ := Run.of_runsTo hcheck
  obtain ⟨hpub, hnone⟩ := Bool.and_eq_true_iff.mp hp
  obtain ⟨u, b, hr, hd⟩ := (hall es s ⟨zeroStack, hrun⟩).device 0 _ _ (of_decide_eq_true hpub)
  have hempty : sentBytes (serverEvents es) u = [] :=
    of_decide_eq_true (everyReturned_apply hnone hr)
  rw [hempty] at hd
  cases hd

end BiMpp.Usbip
