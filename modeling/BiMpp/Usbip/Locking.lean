import BiMpp.Usbip.Threads

/-!
# The locking

`hcd->lock` is taken by a thread that holds nothing, and the other mutexes under it at most:
`bi-mpp-pic24-usb-simulator-master/src/hcd.c:252–325`, `src/sys.c:153–240`,
`src/urb.c:48–112`, `src/usbip.c:81–112`. The handler that runs under `hcd->lock` frees its
URB and would come back for `hcd->lock` if the URB still had a descriptor. None ever has.
-/

namespace BiMpp.Usbip
open BiMpp.Usb BiMpp.Base BiMpp.Host BiMpp.Device BiMpp.Base.Prog

/-- The order: `hcd->lock` before all others. -/
def Mutex.rank : Mutex → Nat
  | hcd => 0
  | sys | urb _ | epQueue => 1

/-- `urb->td` is null in every URB. -/
def TdNull (s : Shared) : Prop := ∀ u, (s.urb u).td = none

/-- At most `hcd->lock` is held. -/
def OnlyHcd (held : Set Mutex) : Prop := ∀ m ∈ held, m = .hcd

/-- What the threads agree to do to the memory: `urb->td` stays null, and the driver makes a
step of its own or none. -/
structure Agreed (s s' : Shared) : Prop where
  td : TdNull s → TdNull s'
  hcd : s'.hcd = s.hcd ∨ ∃ e, Fires hcdExec s.hcd e s'.hcd

/-- What a thread does to the memory without the driver. -/
structure Apart (s s' : Shared) : Prop where
  td : TdNull s → TdNull s'
  hcd : s'.hcd = s.hcd

/-- A program of the simulator that keeps to the agreement and the order. -/
abbrev Keeps {α : Type} (held : Set Mutex) (p : SimProg α) : Prop :=
  Balanced TdNull Agreed Mutex.rank held p

private theorem above_empty (m : Mutex) : Above Mutex.rank m ∅ := fun _ h ↦ h.elim

/-- Every other mutex may be taken while `hcd->lock` alone is held. -/
theorem OnlyHcd.above {held : Set Mutex} (h : OnlyHcd held) {m : Mutex} (hm : m ≠ .hcd) :
    Above Mutex.rank m held := by
  intro m' hm'
  rw [h m' hm']
  cases m with
  | hcd => exact absurd rfl hm
  | sys => exact Nat.zero_lt_one
  | urb u => exact Nat.zero_lt_one
  | epQueue => exact Nat.zero_lt_one

/-- Nothing is held. -/
theorem onlyHcd_empty : OnlyHcd ∅ := fun _ h ↦ h.elim

private theorem onlyHcd_hcd : OnlyHcd (insert .hcd ∅) := by
  rintro m (rfl | h)
  · rfl
  · exact h.elim

/-! ### Accesses -/

section Accesses

variable {s s' : Shared}

/-- Doing nothing is agreed on. -/
theorem Agreed.refl (s : Shared) : Agreed s s := ⟨id, Or.inl rfl⟩

/-- The rest of the memory does not matter. -/
theorem Agreed.congr {s'' : Shared} (h : Agreed s s') (hurb : s''.urb = s'.urb)
    (hhcd : s''.hcd = s'.hcd) : Agreed s s'' := by
  refine ⟨fun htd u ↦ ?_, ?_⟩
  · rw [hurb]
    exact h.td htd u
  · rw [hhcd]
    exact h.hcd

/-- A step beside the URBs and the driver is agreed on. -/
theorem Agreed.other (hurb : s'.urb = s.urb) (hhcd : s'.hcd = s.hcd) : Agreed s s' :=
  (Agreed.refl s).congr hurb hhcd

/-- A step of the driver. -/
theorem Agreed.step {op : HcdOp} {x : Hcd × HcdOut} (hurb : s'.urb = s.urb)
    (hx : hcdExec s.hcd op = .ok x) (hhcd : s'.hcd = x.1) : Agreed s s' := by
  refine ⟨fun htd u ↦ ?_, Or.inr ⟨(op, x.2), ?_⟩⟩
  · rw [hurb]
    exact htd u
  · rw [hhcd]
    exact hx

private theorem Apart.agreed (h : Apart s s') : Agreed s s' := ⟨h.td, Or.inl h.hcd⟩

/-- An access to neither the driver nor the URBs' fields. -/
theorem Apart.other (hurb : s'.urb = s.urb) (hhcd : s'.hcd = s.hcd) : Apart s s' :=
  ⟨fun h u ↦ (congrArg UrbFields.td (congrFun hurb u)).trans (h u), hhcd⟩

/-- Writing a URB without linking it stays apart from the driver. -/
theorem Apart.setUrb (s : Shared) (u : UrbPtr) {f : UrbFields → UrbFields}
    (hf : ∀ b : UrbFields, b.td = none → (f b).td = none) : Apart s (s.setUrb u f) := by
  refine ⟨fun h v ↦ ?_, rfl⟩
  show (Function.update s.urb u (f (s.urb u)) v).td = none
  by_cases hv : v = u
  · subst hv
    rw [Function.update_self]
    exact hf _ (h v)
  · rw [Function.update_of_ne hv]
    exact h v

/-- Writing a URB without linking it is agreed on. -/
theorem Agreed.setUrb (s : Shared) (u : UrbPtr) {f : UrbFields → UrbFields}
    (hf : ∀ b : UrbFields, b.td = none → (f b).td = none) : Agreed s (s.setUrb u f) :=
  (Apart.setUrb s u hf).agreed

/-- Initialising a URB is agreed on. -/
theorem Agreed.initUrb (s : Shared) (u : UrbPtr) : Agreed s (s.initUrb u) := by
  refine ⟨fun h v ↦ ?_, Or.inl rfl⟩
  show (Function.update s.urb u ⟨false, none, none⟩ v).td = none
  by_cases hv : v = u
  · subst hv
    rw [Function.update_self]
  · rw [Function.update_of_ne hv]
    exact h v

end Accesses

namespace Threads

variable {held : Set Mutex} {α β : Type}

private theorem notifyEp_keeps (hheld : OnlyHcd held) (ep : BitVec 8) :
    Keeps held (notifyEp ep) := by
  have hmodify : Keeps (insert .epQueue held) (Prog.modify fun s : Shared ↦
      { s with lib := Device.notifyEp s.lib ep }) :=
    Balanced.modify fun s _ ↦ Agreed.other rfl rfl
  exact Balanced.critical (hheld.above nofun) hmodify

private theorem usbTransfer_keeps (hheld : OnlyHcd held) (addr : Int) (ep : BitVec 8)
    (pid : UsbPid) (data : List UInt8) (size : Int) :
    Keeps held (usbTransfer addr ep pid data size) := by
  refine Balanced.bind (Balanced.access Agreed.refl fun s x _ _ ↦ Agreed.other rfl rfl) ?_
  rintro ⟨d, r⟩
  dsimp only
  split
  · exact (notifyEp_keeps hheld ep).bind fun _ ↦ Balanced.pure r
  · exact Balanced.pure r

/-- A reading of the memory. -/
theorem keeps_get {f : Shared → SimProg α} (h : ∀ s, TdNull s → Keeps held (f s)) :
    Keeps held (Prog.get >>= f) :=
  get_seq Agreed.refl h

/-- An access that leaves the driver and the URBs' fields alone. -/
theorem apart_access {φ : Type} {g : Shared → Except φ α} {store : Shared → α → Shared}
    (hurb : ∀ s a, (store s a).urb = s.urb) (hhcd : ∀ s a, (store s a).hcd = s.hcd) :
    Balanced TdNull Apart Mutex.rank held (access g store : SimProg α) :=
  Balanced.access (fun _ ↦ Apart.other rfl rfl) fun s a _ _ ↦ Apart.other (hurb s a) (hhcd s a)

private theorem keeps_other {φ : Type} {g : Shared → Except φ α} {store : Shared → α → Shared}
    (hurb : ∀ s a, (store s a).urb = s.urb) (hhcd : ∀ s a, (store s a).hcd = s.hcd) :
    Keeps held (access g store : SimProg α) :=
  wp_weaken (fun _ _ ↦ Apart.agreed) (apart_access hurb hhcd)

/-! ### The firmware -/

private theorem isTransferDone_keeps : Keeps ∅ isTransferDone := by
  refine mutexLock_seq (above_empty _) (get_seq Agreed.refl fun s _ ↦ ?_)
  exact mutexUnlock_seq (above_empty _) rfl

private theorem getTrnStatus_keeps : Keeps ∅ getTrnStatus := by
  refine mutexLock_seq (above_empty _) (get_seq Agreed.refl fun s _ ↦ ?_)
  refine Balanced.seq (Balanced.modify fun s _ ↦ Agreed.other rfl rfl) fun _ ↦ ?_
  exact mutexUnlock_seq (above_empty _) rfl

private theorem mainLoop_keeps : Keeps ∅ mainLoop := by
  refine Balanced.receive.bind fun x ↦ ?_
  split
  · exact isTransferDone_keeps.bind fun _ ↦ Balanced.pure _
  · exact getTrnStatus_keeps.bind fun _ ↦ Balanced.pure _
  · exact Balanced.modify fun s _ ↦ Agreed.other rfl rfl

/-! ### The driver -/

private theorem hcdGtdLink_keeps (a : LinkArgs) : Keeps ∅ (hcdGtdLink a) := by
  refine Balanced.critical (above_empty _) (Balanced.access Agreed.refl fun s x _ hx ↦ ?_)
  have hstep : hcdExec s.hcd (.link a) = .ok (x.1, .linked x.2) := bind_eq_ok.mpr ⟨x, hx, rfl⟩
  exact Agreed.step rfl hstep rfl

private theorem hcdBusReset_keeps : Keeps ∅ hcdBusReset :=
  Balanced.critical (above_empty _) (usbTransfer_keeps onlyHcd_hcd _ _ _ _ _)

/-- Without a descriptor nothing is locked. -/
theorem hcdGtdUnlink_apart : Balanced TdNull Apart Mutex.rank held (hcdGtdUnlink none) :=
  Balanced.pure _

/-! ### URBs -/

section Urbs

variable (hheld : OnlyHcd held) (u : UrbPtr)

private theorem urbInit_keeps : Keeps held (urbInit u) :=
  Balanced.modify fun s _ ↦ Agreed.initUrb s u

private theorem urbCreate_keeps : Keeps held urbCreate :=
  Balanced.access Agreed.refl fun s u _ _ ↦
    (Agreed.initUrb s (stageUrb u .direct)).congr rfl rfl

include hheld

private theorem urbSetDoneHandler_keeps (handler : Option DoneHandler) :
    Keeps held (urbSetDoneHandler u handler) :=
  Balanced.critical (hheld.above nofun)
    (Balanced.modify fun s _ ↦ Agreed.setUrb s u fun _ h ↦ h)

private theorem urbWait_keeps : Keeps held (urbWait u) := by
  have habove := hheld.above (m := .urb u) nofun
  exact mutexLock_seq habove (condWaitWhile_seq habove (mutexUnlock_last habove rfl))

/-- The URB leaves the list under `sys->lock` and brings no descriptor to
`hcd_gtd_unlink`. -/
theorem sysUrbUnlink_apart : Balanced TdNull Apart Mutex.rank held (sysUrbUnlink u) := by
  refine Balanced.bind (apart_access (fun _ _ ↦ rfl) fun _ _ ↦ rfl) ?_
  rintro ⟨v, n⟩
  dsimp only
  split
  · refine mutexLock_seq (hheld.above nofun) ?_
    refine Balanced.seq (apart_access (fun _ _ ↦ rfl) fun _ _ ↦ rfl) ?_
    rintro ⟨v, n⟩
    refine Balanced.seq (apart_access (fun _ _ ↦ rfl) fun _ _ ↦ rfl) fun _ ↦ ?_
    refine mutexUnlock_seq (hheld.above nofun) ?_
    refine get_seq (fun s ↦ Apart.other rfl rfl) fun s htd ↦ ?_
    rw [htd u]
    refine hcdGtdUnlink_apart.seq fun _ ↦ ?_
    refine Balanced.seq (apart_access (fun _ _ ↦ rfl) fun _ _ ↦ rfl) fun _ ↦ ?_
    exact Balanced.modify fun s _ ↦ Apart.setUrb s u fun _ _ ↦ rfl
  · exact Balanced.pure _

/-- Destroying a URB never touches the driver. -/
theorem urbDestroy_apart : Balanced TdNull Apart Mutex.rank held (urbDestroy u) := by
  refine Balanced.bind (apart_access (fun _ _ ↦ rfl) fun _ _ ↦ rfl) ?_
  rintro ⟨v, n⟩
  dsimp only
  split
  · exact sysUrbUnlink_apart hheld u
  · exact Balanced.pure _

private theorem urbDestroy_keeps : Keeps held (urbDestroy u) :=
  wp_weaken (fun _ _ ↦ Apart.agreed) (urbDestroy_apart hheld u)

/-- The handler runs with the URB's lock given back. -/
theorem urbDone_keeps : Keeps held (urbDone u) := by
  refine mutexLock_seq (hheld.above nofun) ?_
  refine Balanced.seq (Balanced.modify fun s _ ↦ Agreed.setUrb s u fun _ h ↦ h) fun _ ↦ ?_
  refine get_seq Agreed.refl fun s _ ↦ ?_
  refine mutexUnlock_seq (hheld.above nofun) ?_
  split
  · exact urbDestroy_keeps hheld u
  · rfl

end Urbs

/-! ### `hcd_loop` -/

private theorem hcdWaitForEvent_keeps : Keeps ∅ hcdWaitForEvent := by
  have habove := above_empty .hcd
  exact mutexLock_seq habove (condWaitWhile_seq habove (mutexUnlock_last habove rfl))

private theorem served_keeps (w : EpdList) (epd : Option EpdPtr) (r : Response) :
    Keeps held (served w epd r) := by
  refine Balanced.bind (Balanced.access Agreed.refl fun s x _ hx ↦ ?_) fun _ ↦ Balanced.pure _
  have hstep : hcdExec s.hcd (.send w epd r) = .ok (x.1, .sent x.2) :=
    bind_eq_ok.mpr ⟨x, hx, rfl⟩
  exact Agreed.step rfl hstep rfl

private theorem hcdGtdSend_keeps (w : EpdList) (epd : Option EpdPtr) :
    Keeps ∅ (hcdGtdSend w epd) := by
  refine mutexLock_seq (above_empty _) ?_
  refine Balanced.seq (keeps_other (fun _ _ ↦ rfl) fun _ _ ↦ rfl) fun packet ↦ ?_
  split
  · exact (served_keeps w epd .nak).seq fun _ ↦ mutexUnlock_last (above_empty _) rfl
  · refine (usbTransfer_keeps onlyHcd_hcd _ _ _ _ _).seq fun r ↦ ?_
    exact (served_keeps w epd r).seq fun _ ↦ mutexUnlock_last (above_empty _) rfl

/-- The completion runs under `hcd->lock`. -/
theorem hcdProcessDoneList_keeps : Keeps ∅ hcdProcessDoneList := by
  refine mutexLock_seq (above_empty _) ?_
  refine Balanced.seq (Balanced.access Agreed.refl fun s x _ hx ↦ ?_) ?_
  · have hstep : hcdExec s.hcd .processDoneList = .ok (x.1, .processed x.2) :=
      bind_eq_ok.mpr ⟨x, hx, rfl⟩
    exact Agreed.step rfl hstep rfl
  · rintro ⟨h, completion⟩
    dsimp only
    split
    · exact mutexUnlock_last (above_empty _) rfl
    · refine Balanced.seq (Balanced.modify fun s _ ↦ Agreed.setUrb s _ fun _ _ ↦ rfl) fun _ ↦ ?_
      refine (urbDone_keeps onlyHcd_hcd _).seq fun _ ↦ ?_
      exact mutexUnlock_last (above_empty _) rfl

private theorem hcdLoop_keeps : Keeps ∅ hcdLoop := by
  refine hcdWaitForEvent_keeps.bind fun _ ↦ keeps_get fun s _ ↦ ?_
  refine Balanced.bind (keeps_get fun s' _ ↦ ?_) fun _ ↦ ?_
  · split
    · exact hcdGtdSend_keeps _ _
    · exact hcdProcessDoneList_keeps
  · exact Balanced.modify fun s _ ↦ Agreed.other rfl rfl

/-! ### `accept_loop` and `system_loop` -/

private theorem controlStage_keeps (u : Nat) (b : Urb) (st : Stage) :
    Keeps ∅ (controlStage u b st) := by
  refine (urbInit_keeps _).bind fun _ ↦ (hcdGtdLink_keeps _).bind fun _ ↦ ?_
  refine (urbWait_keeps onlyHcd_empty _).bind fun _ ↦ ?_
  exact urbDestroy_keeps onlyHcd_empty _

private theorem dataStage_keeps (u : Nat) (b : Urb) : Keeps ∅ (dataStage u b) := by
  unfold dataStage
  split
  · exact controlStage_keeps u b .data
  · exact Balanced.pure _

private theorem sysUrbSubmit_keeps (u : Nat) (b : Urb) : Keeps ∅ (sysUrbSubmit u b) := by
  refine mutexLock_seq (above_empty _) ?_
  refine Balanced.seq (keeps_other (fun _ _ ↦ rfl) fun _ _ ↦ rfl) fun _ ↦ ?_
  refine mutexUnlock_seq (above_empty _) ?_
  split
  · refine (controlStage_keeps u b .setup).bind fun _ ↦ (dataStage_keeps u b).bind fun _ ↦ ?_
    refine (controlStage_keeps u b .status).bind fun _ ↦ ?_
    exact urbDone_keeps onlyHcd_empty _
  · exact hcdGtdLink_keeps _

private theorem sysUsbControlTransfer_keeps (sys : Sys) (k : Transfer) :
    Keeps ∅ (sysUsbControlTransfer sys k) := by
  refine urbCreate_keeps.bind fun u ↦ (sysUrbSubmit_keeps u _).bind fun _ ↦ ?_
  refine (urbWait_keeps onlyHcd_empty _).bind fun _ ↦ ?_
  exact (urbDestroy_keeps onlyHcd_empty _).bind fun _ ↦ Balanced.pure _

private theorem runInstr_keeps (i : Instr) : Keeps ∅ (runInstr i) := by
  cases i with
  | busReset => exact hcdBusReset_keeps.bind fun _ ↦ Balanced.pure _
  | transfer k =>
    refine Balanced.receive.bind fun x ↦ ?_
    exact (sysUsbControlTransfer_keeps x.sys k).bind fun r ↦ Balanced.pure _
  | calloc => exact Balanced.pure _
  | publish =>
    refine mutexLock_seq (above_empty _) ?_
    refine Balanced.seq (Balanced.modify fun s _ ↦ Agreed.other rfl rfl) fun _ ↦ ?_
    exact mutexUnlock_seq (above_empty _) rfl

private theorem runInstrs_keeps (is : List Instr) : Keeps ∅ (runInstrs is) := by
  induction is with
  | nil => exact Balanced.pure _
  | cons i is ih =>
    refine (runInstr_keeps i).bind fun b ↦ ?_
    split
    · exact ih
    · exact Balanced.pure _

private theorem attempts_keeps (n : Nat) : Keeps ∅ (attempts n) := by
  induction n with
  | zero => exact Balanced.pure _
  | succ n ih =>
    refine (runInstrs_keeps attempt).bind fun b ↦ ?_
    split
    · exact Balanced.pure _
    · exact ih

private theorem systemLoop_keeps : Keeps ∅ systemLoop := by
  refine keeps_get fun s _ ↦ ?_
  split
  · refine Balanced.bind (Balanced.modify fun s _ ↦ Agreed.other rfl rfl) fun _ ↦ ?_
    exact attempts_keeps 3
  · exact Balanced.pure _

private theorem acceptLoop_keeps : Keeps ∅ acceptLoop := by
  refine Balanced.receive.bind fun x ↦ ?_
  split
  · exact Balanced.pure _
  · split
    · refine urbCreate_keeps.bind fun u ↦ ?_
      split
      · exact Balanced.stop
      · refine (urbSetDoneHandler_keeps onlyHcd_empty _ _).bind fun _ ↦ ?_
        exact sysUrbSubmit_keeps u _
    · exact Balanced.stop
  · split
    · exact Balanced.pure _
    · exact Balanced.stop
  · split
    · exact Balanced.pure _
    · exact Balanced.stop
  · split
    · refine mutexLock_seq (above_empty _) (Balanced.receive.seq fun x ↦ ?_)
      split
      · exact mutexUnlock_last (above_empty _) rfl
      · trivial
    · exact Balanced.stop

end Threads

/-! ### All four together -/

/-- Every thread takes its mutexes in order and keeps to the agreement. -/
theorem body_keeps (t : SimThread) : Keeps ∅ t.body := by
  cases t with
  | acceptLoop => exact Threads.acceptLoop_keeps
  | systemLoop => exact Threads.systemLoop_keeps
  | hcdLoop => exact Threads.hcdLoop_keeps
  | firmware => exact Threads.mainLoop_keeps

section Runs

variable {lib : UsbLib} {es : List ((SimThread × SimInput) × Unit)} {c : Sim}

/-- In every state of every run, no thread asks for a mutex that it holds, and the threads do
not wait for each other in a circle. -/
theorem SimRun.no_deadlock (h : SimRun lib es c) : c.DeadlockFree :=
  (Run.disciplined (fun _ ↦ rfl) (fun _ _ hs hG ↦ hG.td hs) body_keeps h).deadlockFree

/-- An IN request to endpoint 1 of a device that has nothing to send. -/
def inRequest : SimInput where
  request := some (.cmdSubmit ⟨1, 1, 0, 1, 1, 0, 0, 0, 0, 0, [0, 0, 0, 0, 0, 0, 0, 0]⟩ [])
  buffer := []
  complete := true
  sys := { sysInit zeroStack with cfgDsc := some ⟨List.replicate 32 0, true⟩ }
  firmware := .isTransferDone

/-- The request is served while `accept_loop` begins to send the device list. -/
def servedUnderList : List (SimThread × SimInput) :=
  List.replicate 12 (.acceptLoop, inRequest) ++ List.replicate 59 (.hcdLoop, inRequest) ++
    List.replicate 3 (.acceptLoop, { inRequest with request := some (.opReqDevlist ⟨0, 0⟩ ) }) ++
    List.replicate 15 (.hcdLoop, inRequest)

/-- One thread waits for another, and there is no deadlock. -/
theorem SimRun.no_deadlock_example : ∃ lib es c, SimRun lib es c ∧
    c.waitsFor .hcdLoop = some .acceptLoop ∧ c.DeadlockFree := by
  have hcheck : runsTo simExec
      (Config.init (sharedInit (usbEnable (usbEpTransfStart (usbInit 2 [⟨0, []⟩]) 1 0x80 0 0))))
      servedUnderList (fun c _ ↦ decide (c.waitsFor .hcdLoop = some .acceptLoop)) = true := by
    decide +kernel
  obtain ⟨es, c, hrun, hwaits⟩ := Run.of_runsTo hcheck
  exact ⟨_, es, c, hrun, of_decide_eq_true hwaits, SimRun.no_deadlock hrun⟩

/-- No URB ever has a descriptor. -/
theorem SimRun.tdNull (h : SimRun lib es c) : TdNull c.shared :=
  (Run.disciplined (fun _ ↦ rfl) (fun _ _ hs hG ↦ hG.td hs) body_keeps h).inv

/-- Whatever the interleaving, the driver goes through a run of its locked operations. -/
theorem SimRun.hcd_run (h : SimRun lib es c) : ∃ hes, HcdRun hes c.shared.hcd := by
  refine Run.shared_invariant (P := fun s ↦ ∃ hes, HcdRun hes s.hcd) (fun _ ↦ rfl)
    (fun _ _ hs hG ↦ hG.td hs) body_keeps ⟨[], .nil⟩ ?_ h
  rintro s s' - hG ⟨hes, hrun⟩
  rcases hG.hcd with heq | ⟨e, he⟩
  · rw [heq]
    exact ⟨hes, hrun⟩
  · exact ⟨_, hrun.snoc he⟩

end Runs

end BiMpp.Usbip
