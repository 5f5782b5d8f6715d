import BiMpp.Usbip.Enumeration

/-!
# Serving before the device is ready

The listening socket is open from the start, and `accept_loop` never looks at
`sys->dev_ready`: `bi-mpp-pic24-usb-simulator-master/src/usbip.c:182–272`. What it reads
is in place from the publication on, and `system_loop` never takes it back, since no
check of it ever fails and no second attempt is made.
-/

namespace BiMpp.Usbip
open BiMpp.Usb BiMpp.Base BiMpp.Host

/-! ### What the handling of a message depends on -/

/-- States that agree on some of the fields. -/
structure Sys.Agrees (s s' : Sys) (fs : List Field) : Prop where
  devDsc : .devDsc ∈ fs → s.devDsc = s'.devDsc
  cfgDsc : .cfgDsc ∈ fs → s.cfgDsc = s'.cfgDsc
  devlist : .devlist ∈ fs → s.devlist = s'.devlist

/-- What the environment sees of a step. -/
def seen (x : Except Stop (Sys × SysOut)) : Except Stop (Server × SysOut) :=
  x.map fun y ↦ (y.1.server, y.2)

private theorem packetSize_congr {s s' : Sys} {c : OpCmdSubmit} {payload : List UInt8}
    (h : s.Agrees s' (Request.cmdSubmit c payload).reads) :
    s.packetSize c.ep = s'.packetSize c.ep := by
  unfold Sys.packetSize
  by_cases hep : c.ep = 0
  · have hr : (Request.cmdSubmit c payload).reads = [.devDsc] := if_pos hep
    rw [if_pos hep, if_pos hep, h.devDsc (by rw [hr]; decide)]
  · have hr : (Request.cmdSubmit c payload).reads = [.cfgDsc] := if_neg hep
    rw [if_neg hep, if_neg hep, h.cfgDsc (by rw [hr]; decide)]

/-- The handling of a message depends on the server and on the fields it reads, and on
nothing else of `sys_t`. -/
theorem seen_client {s s' : Sys} {r : Request} (hserver : s.server = s'.server)
    (h : s.Agrees s' r.reads) (buffer : List UInt8) :
    seen (clientExec s r buffer) = seen (clientExec s' r buffer) := by
  unfold clientExec
  rw [hserver]
  by_cases hidle : s'.server.pc .accept = .idle
  · rw [if_pos hidle, if_pos hidle]
    cases r with
    | cmdSubmit c payload =>
      dsimp only
      rw [packetSize_congr h]
      cases stopOn (s'.packetSize c.ep) with
      | error f => rfl
      | ok mps =>
        simp only [bind, Except.bind]
        split <;> rfl
    | cmdUnlink r =>
      simp only [seen, Except.map, hserver]
    | opReqImport header busid =>
      have hlist := h.devlist (by simp [Request.reads])
      dsimp only
      rw [hlist]
      split
      · rfl
      · simp only [seen, Except.map, hserver]
    | opReqDevlist header =>
      have hlist := h.devlist (by simp [Request.reads])
      simp only [seen, Except.map, hserver, hlist]
  · rw [if_neg hidle, if_neg hidle]

/-! ### Readiness -/

/-- A message finds what its handling reads: `dev_ready` is set, the device list exists,
and so does the configuration, in a buffer that has been filled. -/
structure Serves (s : Sys) (r : Request) : Prop where
  ready : r.reads ≠ [] → s.devReady = true
  devlist : .devlist ∈ r.reads → s.devlist ≠ none
  cfgDsc : .cfgDsc ∈ r.reads → ∃ buf, s.cfgDsc = some buf ∧ buf.filled = true

/-- In every reachable state, a message finds what its handling reads if and only if it
reads nothing or `system_loop` has published the device. -/
theorem SysRun.serves_iff {es : List SysEvent} {s : Sys} (h : SysRun es s) (r : Request) :
    Serves s r ↔ (r.reads ≠ [] → ∃ i d c, Published es i d c) := by
  have he := h.enumerated
  constructor
  · intro hs hr
    rw [← he.published, ← he.ready]
    exact hs.ready hr
  · intro hp
    have hpast : r.reads ≠ [] → 10 < s.past := fun hr ↦ he.published.mpr (hp hr)
    constructor
    · intro hr
      exact he.ready.mpr (hpast hr)
    · intro hm
      exact he.list (hpast (List.ne_nil_of_mem hm))
    · intro hm
      have hlt := hpast (List.ne_nil_of_mem hm)
      obtain ⟨u, b, -, hc⟩ := he.whole (by omega)
      exact ⟨_, hc, rfl⟩

/-- A request for the device list is served after enumeration. -/
theorem SysRun.serves_iff_example : ∃ es s, SysRun es s ∧
    Serves s (.opReqDevlist ⟨0x01118005, 0⟩) := by
  have hcheck : runsTo sysExec (sysInit zeroStack) enumerationOps (fun _ es ↦
      decide (Published es 0 exampleDevice exampleConfig)) = true := by
    decide +kernel
  obtain ⟨es, s, hrun, hp⟩ := Run.of_runsTo hcheck
  have hpub : ∃ i d c, Published es i d c := ⟨_, _, _, of_decide_eq_true hp⟩
  have hsys : SysRun es s := ⟨zeroStack, hrun⟩
  exact ⟨es, s, hsys, (SysRun.serves_iff hsys _).mpr fun _ ↦ hpub⟩

/-- The bus id that is served. -/
def exampleBusid : List UInt8 := [0x31, 0x2D, 0x31] ++ List.replicate 29 0

/-- A client that asks to import the device before anything else has happened makes
`accept_loop` read a null pointer. -/
theorem sysInit_not_serves : ¬ ∀ es s, SysRun es s → ∀ r, Serves s r := by
  intro hall
  have hs := hall [] (sysInit zeroStack) ⟨zeroStack, .nil⟩
    (.opReqImport ⟨0x01118003, 0⟩ exampleBusid)
  exact hs.devlist (List.mem_singleton_self _) rfl

end BiMpp.Usbip
