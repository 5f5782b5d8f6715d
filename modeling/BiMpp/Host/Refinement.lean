import BiMpp.Host.Queues

/-!
# The heap refines the queues

`Refines h a` reads the queues `a` off the heap `h`: every endpoint's head pointer
starts a chain over its queue, its tail pointer names the last cell, and the done list
is the done stack. Each operation of the driver takes related states to related states
with the same outcome, so the two machines have the same runs, and no run of the
driver follows a null or freed pointer.
-/

namespace BiMpp.Host
open BiMpp.Usb BiMpp.Base

/-- One endpoint descriptor reads as its slot. -/
structure EpdRefines (h : Hcd) (a : Queues) (s : Slot) (e : Epd) : Prop where
  core : e.toEpdCore = a.core s
  chain : Chain h.next e.tdQueueHeadPointer (a.ptrs (some s))
  tail : e.tdQueueTailPointer = (a.ptrs (some s)).getLast?

/-- The heap reads as the queues. -/
structure Refines (h : Hcd) (a : Queues) : Prop where
  wf : a.WF
  notify : h.notify = a.notify
  nextGtd : h.nextGtd = a.nextGtd
  keys : ∀ w, (h.list w).map (fun e ↦ e.key) = a.order w
  epds : ∀ w, ∀ e ∈ h.list w, EpdRefines h a ⟨w, e.key⟩ e
  done : Chain h.next h.doneList (a.ptrs none)
  cells : ∀ pl, ∀ x ∈ a.place pl, ∃ n, h.heap x.ptr = some n ∧ n.toTd = x.td
  live : ∀ g, h.heap g ≠ none → ∃ pl, g ∈ a.ptrs pl

/-- The slots beside `s` are as they were, with their queues and the successors in these. -/
structure Beside (s : Slot) (h h' : Hcd) (a b : Queues) : Prop where
  order : b.order = a.order
  core : ∀ s', s' ≠ s → b.core s' = a.core s'
  ptrs : ∀ s', s' ≠ s → b.ptrs (some s') = a.ptrs (some s')
  next : ∀ s', s' ≠ s → ∀ g ∈ a.ptrs (some s'), h'.next g = h.next g

/-- The memory holds the done list and every entry, and nothing else. -/
structure Stored (h : Hcd) (a : Queues) : Prop where
  done : Chain h.next h.doneList (a.ptrs none)
  cells : ∀ pl, ∀ x ∈ a.place pl, ∃ n, h.heap x.ptr = some n ∧ n.toTd = x.td
  live : ∀ g, h.heap g ≠ none → ∃ pl, g ∈ a.ptrs pl

/-! ### Reading and writing the record -/

namespace Hcd

variable (h : Hcd) (w : EpdList) (l : List Epd) (g : GtdPtr) (n : Gtd) (i : EpdPtr) (e : Epd)

/-- A list that was set is found as it was set, the others as they were. -/
@[simp] theorem list_setList (w' : EpdList) :
    (h.setList w l).list w' = if w' = w then l else h.list w' := by
  cases w <;> cases w' <;> rfl

/-- Setting a list leaves the heap. -/
@[simp] theorem heap_setList : (h.setList w l).heap = h.heap := by cases w <;> rfl

/-- Setting a list leaves the done list. -/
@[simp] theorem doneList_setList : (h.setList w l).doneList = h.doneList := by cases w <;> rfl

/-- Setting a list leaves the notifications. -/
@[simp] theorem notify_setList : (h.setList w l).notify = h.notify := by cases w <;> rfl

/-- Setting a list allocates nothing. -/
@[simp] theorem nextGtd_setList : (h.setList w l).nextGtd = h.nextGtd := by cases w <;> rfl

/-- Setting a list leaves the links of the descriptors. -/
@[simp] theorem next_setList : (h.setList w l).next = h.next := by cases w <;> rfl

/-- Setting a list to itself changes nothing. -/
@[simp] theorem setList_self : h.setList w (h.list w) = h := by cases w <;> rfl

/-- An endpoint descriptor is replaced in its own list. -/
@[simp] theorem list_setEpd (w' : EpdList) :
    (h.setEpd w i e).list w' = if w' = w then (h.list w).set i e else h.list w' := by
  simp [setEpd]

/-- Replacing an endpoint descriptor leaves the heap. -/
@[simp] theorem heap_setEpd : (h.setEpd w i e).heap = h.heap := by simp [setEpd]

/-- Replacing an endpoint descriptor leaves the done list. -/
@[simp] theorem doneList_setEpd : (h.setEpd w i e).doneList = h.doneList := by simp [setEpd]

/-- Replacing an endpoint descriptor leaves the notifications. -/
@[simp] theorem notify_setEpd : (h.setEpd w i e).notify = h.notify := by simp [setEpd]

/-- Replacing an endpoint descriptor allocates nothing. -/
@[simp] theorem nextGtd_setEpd : (h.setEpd w i e).nextGtd = h.nextGtd := by simp [setEpd]

/-- Replacing an endpoint descriptor leaves the links of the descriptors. -/
@[simp] theorem next_setEpd : (h.setEpd w i e).next = h.next := by simp [setEpd]

/-- Storing a descriptor leaves the lists. -/
@[simp] theorem list_setGtd (w' : EpdList) : (h.setGtd g n).list w' = h.list w' := by
  cases w' <;> rfl

/-- A descriptor that was stored is found as it was stored. -/
@[simp] theorem heap_setGtd (g' : GtdPtr) :
    (h.setGtd g n).heap g' = if g' = g then some n else h.heap g' := by
  simp [setGtd, Function.update_apply]

/-- A descriptor that was stored leads where it says. -/
@[simp] theorem next_setGtd (g' : GtdPtr) :
    (h.setGtd g n).next g' = if g' = g then some n.nextTD else h.next g' := by
  simp only [next, heap_setGtd]
  split <;> rfl

/-- Storing a descriptor leaves the done list. -/
@[simp] theorem doneList_setGtd : (h.setGtd g n).doneList = h.doneList := rfl

/-- Storing a descriptor leaves the notifications. -/
@[simp] theorem notify_setGtd : (h.setGtd g n).notify = h.notify := rfl

/-- Storing a descriptor allocates nothing. -/
@[simp] theorem nextGtd_setGtd : (h.setGtd g n).nextGtd = h.nextGtd := rfl

/-- An allocation leaves the lists. -/
@[simp] theorem list_alloc (t : Td) (w' : EpdList) : (h.alloc t).list w' = h.list w' := by
  cases w' <;> rfl

/-- The new descriptor is found where it was allocated. -/
@[simp] theorem heap_alloc (t : Td) (g' : GtdPtr) :
    (h.alloc t).heap g' = if g' = h.nextGtd then some { t with nextTD := none } else h.heap g' := by
  simp [alloc, setGtd, Function.update_apply]

/-- An allocation leaves the done list. -/
@[simp] theorem doneList_alloc (t : Td) : (h.alloc t).doneList = h.doneList := rfl

/-- An allocation leaves the notifications. -/
@[simp] theorem notify_alloc (t : Td) : (h.alloc t).notify = h.notify := rfl

/-- The next allocation is elsewhere. -/
@[simp] theorem nextGtd_alloc (t : Td) : (h.alloc t).nextGtd = h.nextGtd + 1 := rfl

/-- The new descriptor leads nowhere. -/
@[simp] theorem next_alloc (t : Td) (g' : GtdPtr) :
    (h.alloc t).next g' = if g' = h.nextGtd then some none else h.next g' := by
  simp only [next, heap_alloc]
  split <;> rfl

/-- A pointer to a descriptor is dereferenced. -/
theorem load_some {p : GtdPtr} {m : Gtd} (hp : h.heap p = some m) :
    h.load (some p) = .ok (p, m) := by
  simp [load, hp]

/-- An endpoint descriptor is found at its position. -/
theorem epd_some (hi : (h.list w)[i]? = some e) : h.epd w i = .ok e := by
  simp [epd, hi]

end Hcd

/-- `hcd_notify` leaves the lists. -/
@[simp] theorem list_hcdNotify (h : Hcd) (b : BitVec 32) (w : EpdList) :
    (hcdNotify h b).list w = h.list w := by cases w <;> rfl

/-- `hcd_clear_notification` leaves the lists. -/
@[simp] theorem list_hcdClearNotification (h : Hcd) (b : BitVec 32) (w : EpdList) :
    (hcdClearNotification h b).list w = h.list w := by cases w <;> rfl

/-! ### Endpoint lists -/

/-- A key is at one index of a list. -/
theorem getElem_of_key {l : List Epd} (hnd : (l.map fun e ↦ e.key).Nodup) {i j : Nat}
    {e f : Epd} (hi : l[i]? = some e) (hj : l[j]? = some f) (hk : e.key = f.key) : i = j := by
  have hi' : (l.map fun e ↦ e.key)[i]? = some e.key := by simp [hi]
  have hj' : (l.map fun e ↦ e.key)[j]? = some e.key := by simp [hj, hk]
  obtain ⟨hlt, -⟩ := List.getElem?_eq_some_iff.mp hi'
  exact (List.getElem?_inj hlt hnd).mp (hi'.trans hj'.symm)

private theorem mem_set {l : List Epd} (hnd : (l.map fun e ↦ e.key).Nodup) {i : Nat}
    {e e' x : Epd} (hi : l[i]? = some e) (hk : e'.key = e.key) (hx : x ∈ l.set i e') :
    x = e' ∨ (x ∈ l ∧ x.key ≠ e'.key) := by
  obtain ⟨j, hj⟩ := List.mem_iff_getElem?.mp hx
  rw [List.getElem?_set] at hj
  split at hj
  · next hij =>
    subst hij
    split at hj
    · exact .inl (Option.some.inj hj).symm
    · exact nomatch hj
  · next hij =>
    refine .inr ⟨List.mem_iff_getElem?.mpr ⟨j, hj⟩, fun hxk ↦ hij ?_⟩
    exact getElem_of_key hnd hi hj (by rw [hxk, hk])

private theorem map_key_set {l : List Epd} {i : Nat} {e e' : Epd} (hi : l[i]? = some e)
    (hk : e'.key = e.key) : (l.set i e').map (fun x ↦ x.key) = l.map fun x ↦ x.key := by
  obtain ⟨hlt, he⟩ := List.getElem?_eq_some_iff.mp hi
  rw [List.map_set, hk, ← he]
  apply List.ext_getElem (by simp)
  intro j h1 h2
  simp only [List.getElem_set, List.getElem_map]
  split
  · next hij => subst hij; rfl
  · rfl

namespace Refines

variable {h h' : Hcd} {a b : Queues} {s : Slot} {w : EpdList} {i : EpdPtr} {e : Epd}

private theorem frame_epd (he : EpdRefines h a s e) (hc : b.core s = a.core s)
    (hp : b.ptrs (some s) = a.ptrs (some s)) (hn : ∀ g ∈ a.ptrs (some s), h'.next g = h.next g) :
    EpdRefines h' b s e where
  core := by rw [hc]; exact he.core
  chain := by rw [hp]; exact he.chain.frame hn
  tail := by rw [hp]; exact he.tail

/-- No two endpoint descriptors of a list are for one endpoint. -/
theorem keys_nodup (hr : Refines h a) (w : EpdList) : ((h.list w).map fun e ↦ e.key).Nodup := by
  rw [hr.keys]
  exact hr.wf.order_nodup w

/-- The descriptor at an index reads as the slot of its key. -/
theorem epd_at (hr : Refines h a) (hi : (h.list s.list)[i]? = some e) (hk : e.key = s.key) :
    EpdRefines h a s e := by
  have he := hr.epds s.list e (List.mem_of_getElem? hi)
  rw [hk] at he
  exact he

/-- An endpoint descriptor makes its endpoint known. -/
theorem known (hr : Refines h a) (hi : (h.list s.list)[i]? = some e) (hk : e.key = s.key) :
    a.Known s := by
  unfold Queues.Known
  rw [← hr.keys, ← hk]
  exact List.mem_map_of_mem (List.mem_of_getElem? hi)

/-- Every address at a place is an allocated cell. -/
theorem cell (hr : Refines h a) {pl : Option Slot} {g : GtdPtr} (hg : g ∈ a.ptrs pl) :
    ∃ n, h.heap g = some n := by
  obtain ⟨x, hx, rfl⟩ := List.mem_map.mp hg
  obtain ⟨n, hn, -⟩ := hr.cells pl x hx
  exact ⟨n, hn⟩

/-- An address not handed out yet is free. -/
theorem fresh (hr : Refines h a) (pl : Option Slot) : h.nextGtd ∉ a.ptrs pl := by
  intro hg
  have hlt := hr.wf.bound pl _ hg
  rw [hr.nextGtd] at hlt
  exact Nat.lt_irrefl _ hlt

/-- The initial heap reads as no queues. -/
theorem init : Refines hcdInit queuesInit where
  wf := Queues.wf_init
  notify := rfl
  nextGtd := rfl
  keys w := by cases w <;> rfl
  epds w e he := by cases w <;> exact nomatch he
  done := rfl
  cells pl x hx := by cases pl <;> exact nomatch hx
  live g hg := absurd rfl hg

/-! ### Notification bits -/

/-- `hcd_notify` sets the same bits in both machines. -/
theorem hcdNotify (hr : Refines h a) (n : BitVec 32) :
    Refines (hcdNotify h n) { a with notify := a.notify ||| n } where
  wf := ⟨hr.wf.order_nodup, hr.wf.unknown, hr.wf.owner, hr.wf.named, hr.wf.nodup,
    hr.wf.disjoint, hr.wf.bound⟩
  notify := congrArg (· ||| n) hr.notify
  nextGtd := hr.nextGtd
  keys w := by rw [list_hcdNotify]; exact hr.keys w
  epds w e he := by
    rw [list_hcdNotify] at he
    exact ⟨(hr.epds w e he).core, (hr.epds w e he).chain, (hr.epds w e he).tail⟩
  done := hr.done
  cells := hr.cells
  live := hr.live

/-- `hcd_clear_notification` clears the same bits in both machines. -/
theorem hcdClearNotification (hr : Refines h a) (n : BitVec 32) :
    Refines (hcdClearNotification h n) (a.clear n) where
  wf := hr.wf.clear n
  notify := congrArg (· &&& ~~~n) hr.notify
  nextGtd := hr.nextGtd
  keys w := by rw [list_hcdClearNotification]; exact hr.keys w
  epds w e he := by
    rw [list_hcdClearNotification] at he
    exact ⟨(hr.epds w e he).core, (hr.epds w e he).chain, (hr.epds w e he).tail⟩
  done := hr.done
  cells := hr.cells
  live := hr.live

/-! ### Linking -/

private theorem open_fresh (hr : Refines h a) (hk : ¬ a.Known s) {c : EpdCore}
    (hc : c.key = s.key) :
    Refines (h.setList s.list (h.list s.list ++
        [{ c with tdQueueTailPointer := none, tdQueueHeadPointer := none }]))
      { a with order := Function.update a.order s.list (a.order s.list ++ [s.key])
               core := Function.update a.core s c } where
  wf := hr.wf.fresh_open hk hc
  notify := by rw [Hcd.notify_setList]; exact hr.notify
  nextGtd := by rw [Hcd.nextGtd_setList]; exact hr.nextGtd
  keys w := by
    rw [Hcd.list_setList]
    change _ = Function.update a.order s.list (a.order s.list ++ [s.key]) w
    rw [Function.update_apply]
    split
    · rw [List.map_append, hr.keys, ← hc]
      rfl
    · exact hr.keys w
  epds w e he := by
    rw [Hcd.list_setList] at he
    have hold : e ∈ h.list w → EpdRefines h a ⟨w, e.key⟩ e ∧ (⟨w, e.key⟩ : Slot) ≠ s := by
      intro hm
      refine ⟨hr.epds w e hm, ?_⟩
      rintro rfl
      refine hk ?_
      unfold Queues.Known
      rw [← hr.keys]
      exact List.mem_map_of_mem hm
    have hkeep : EpdRefines h a ⟨w, e.key⟩ e → (⟨w, e.key⟩ : Slot) ≠ s →
        EpdRefines (h.setList s.list (h.list s.list ++
          [{ c with tdQueueTailPointer := none, tdQueueHeadPointer := none }]))
        { a with order := Function.update a.order s.list (a.order s.list ++ [s.key])
                 core := Function.update a.core s c } ⟨w, e.key⟩ e := by
      intro he hne
      exact frame_epd he (Function.update_of_ne hne _ _) rfl fun g _ ↦ by
        rw [Hcd.next_setList]
    split at he
    · next hw =>
      subst hw
      rcases List.mem_append.mp he with hm | hm
      · exact hkeep (hold hm).1 (hold hm).2
      · -- the new descriptor has the slot's key and an empty queue
        obtain rfl := List.mem_singleton.mp hm
        have hs : (⟨s.list, c.key⟩ : Slot) = s := by rw [hc]
        change EpdRefines _ _ ⟨s.list, c.key⟩ _
        rw [hs]
        have hq : a.ptrs (some s) = [] := by
          simp [Queues.ptrs, Queues.place, hr.wf.unknown s hk]
        constructor
        · exact (Function.update_self s c a.core).symm
        · change Chain _ _ (a.ptrs (some s))
          rw [hq]
          rfl
        · change _ = (a.ptrs (some s)).getLast?
          rw [hq]
          rfl
    · exact hkeep (hold he).1 (hold he).2
  done := by
    rw [Hcd.next_setList, Hcd.doneList_setList]
    exact hr.done
  cells pl x hx := by
    rw [Hcd.heap_setList]
    exact hr.cells pl x hx
  live g hg := by
    rw [Hcd.heap_setList] at hg
    exact hr.live g hg

/-- The endpoint search and the opening of a slot agree. -/
theorem findEpd (hr : Refines h a) (s : Slot) (mps : Int) :
    (∃ f, findEpd (h.list s.list) s.key mps = .error f ∧ a.openSlot s mps = .error f) ∨
    ∃ l i e b, findEpd (h.list s.list) s.key mps = .ok (l, i) ∧ a.openSlot s mps = .ok b ∧
      Refines (h.setList s.list l) b ∧ l[i]? = some e ∧ e.key = s.key := by
  unfold Host.findEpd Queues.openSlot
  cases hf : (h.list s.list).findIdx? (fun e ↦ e.key = s.key) with
  | some i =>
    right
    obtain ⟨hlt, hi, -⟩ := List.findIdx?_eq_some_iff_getElem.mp hf
    have hi : ((h.list s.list)[i]).key = s.key := by simpa using hi
    have hget : (h.list s.list)[i]? = some (h.list s.list)[i] := List.getElem?_eq_getElem hlt
    have hk : a.Known s := hr.known hget hi
    refine ⟨_, i, (h.list s.list)[i], a, rfl, if_pos hk, ?_, hget, hi⟩
    rw [Hcd.setList_self]
    exact hr
  | none =>
    have hk : ¬ a.Known s := by
      unfold Queues.Known
      rw [← hr.keys]
      intro hm
      obtain ⟨e, he, hek⟩ := List.mem_map.mp hm
      simpa [hek] using List.findIdx?_eq_none_iff.mp hf e he
    rw [if_neg hk]
    cases hc : hcdEpdCreate s.key.functionAddress s.key.endpointNumber mps with
    | error f => exact .inl ⟨f, rfl, rfl⟩
    | ok c =>
      have hck : c.key = s.key := Queues.key_hcdEpdCreate hc
      exact .inr ⟨_, _, _, _, rfl, rfl, hr.open_fresh hk hck, List.getElem?_concat_length, hck⟩

private theorem patch (hr : Refines h a) (e' : Epd) (hi : (h.list s.list)[i]? = some e)
    (hk : e.key = s.key)
    (hlist : ∀ w, h'.list w = if w = s.list then (h.list w).set i e' else h.list w)
    (hwf : b.WF) (hnotify : h'.notify = b.notify) (hnext : h'.nextGtd = b.nextGtd)
    (hkey : e'.key = s.key) (he : EpdRefines h' b s e') (hbeside : Beside s h h' a b)
    (hstored : Stored h' b) : Refines h' b where
  wf := hwf
  notify := hnotify
  nextGtd := hnext
  keys w := by
    rw [hlist, hbeside.order]
    split
    · next hw =>
      subst hw
      rw [map_key_set hi (hkey.trans hk.symm)]
      exact hr.keys s.list
    · exact hr.keys w
  epds w x hx := by
    have hframe : ∀ v, x ∈ h.list v → (⟨v, x.key⟩ : Slot) ≠ s → EpdRefines h' b ⟨v, x.key⟩ x :=
      fun v hx hs ↦ frame_epd (hr.epds v x hx) (hbeside.core _ hs) (hbeside.ptrs _ hs)
        (hbeside.next _ hs)
    rw [hlist] at hx
    split at hx
    · next hw =>
      subst hw
      rcases mem_set (hr.keys_nodup s.list) hi (hkey.trans hk.symm) hx with rfl | ⟨hx, hne⟩
      · rw [hkey]
        exact he
      · refine hframe _ hx fun hs ↦ hne ?_
        rw [hkey, ← hs]
    · next hw => exact hframe _ hx fun hs ↦ hw (by rw [← hs])
  done := hstored.done
  cells := hstored.cells
  live := hstored.live

/-- The memory after a new descriptor is linked behind the tail of an endpoint's queue;
`hcd.c:90–98`. -/
structure Linked (h h' : Hcd) (e : Epd) (t : Td) : Prop where
  doneList : h'.doneList = h.doneList
  kept : ∀ g, g ≠ h.nextGtd → (h'.heap g).map Gtd.toTd = (h.heap g).map Gtd.toTd
  created : h'.heap h.nextGtd = some { t with nextTD := none }
  next : ∀ g, g ≠ h.nextGtd → some g ≠ e.tdQueueTailPointer → h'.next g = h.next g
  last : ∀ l, e.tdQueueTailPointer = some l → h'.next l = some (some h.nextGtd)

private theorem linkBehindTail (hr : Refines h a) (hi : (h.list s.list)[i]? = some e)
    (hk : e.key = s.key) (t : Td) :
    ∃ h', Host.linkBehindTail (h.alloc t) h.nextGtd e.tdQueueTailPointer = .ok h' ∧
      (∀ w, h'.list w = h.list w) ∧ h'.notify = h.notify ∧ h'.nextGtd = h.nextGtd + 1 ∧
      Linked h h' e t := by
  have he := hr.epd_at hi hk
  cases htail : e.tdQueueTailPointer with
  | none =>
    refine ⟨h.alloc t, rfl, by simp, rfl, rfl, rfl, ?_, by simp, ?_, ?_⟩
    · intro g hg
      rw [Hcd.heap_alloc, if_neg hg]
    · intro g hg _
      rw [Hcd.next_alloc, if_neg hg]
    · intro l hl
      rw [htail] at hl
      cases hl
  | some l =>
    have hl : l ∈ a.ptrs (some s) := by
      apply List.mem_of_getLast?
      rw [← he.tail, htail]
    have hne : l ≠ h.nextGtd := by
      rintro rfl
      exact hr.fresh _ hl
    obtain ⟨n, hn⟩ := hr.cell hl
    have hload : (h.alloc t).load (some l) = .ok (l, n) := by
      apply Hcd.load_some
      rw [Hcd.heap_alloc, if_neg hne]
      exact hn
    have hstep : Host.linkBehindTail (h.alloc t) h.nextGtd (some l) =
        .ok ((h.alloc t).setGtd l { n with nextTD := some h.nextGtd }) := by
      rw [Host.linkBehindTail, hload]
      rfl
    refine ⟨_, hstep, by simp, rfl, rfl, rfl, ?_, ?_, ?_, ?_⟩
    · intro g hg
      rw [Hcd.heap_setGtd]
      split
      · next hgl =>
        subst hgl
        rw [hn]
        rfl
      · rw [Hcd.heap_alloc, if_neg hg]
    · rw [Hcd.heap_setGtd, if_neg (Ne.symm hne), Hcd.heap_alloc, if_pos rfl]
    · intro g hg hgl
      have hgl' : g ≠ l := by
        rintro rfl
        exact hgl htail.symm
      rw [Hcd.next_setGtd, if_neg hgl', Hcd.next_alloc, if_neg hg]
    · intro l' hl'
      obtain rfl := Option.some.inj (htail.symm.trans hl')
      rw [Hcd.next_setGtd, if_pos rfl]

namespace Linked

variable {t : Td}

private theorem store (hl : Linked h h' e t) (e' : Epd) (b : BitVec 32) :
    Linked h (Host.hcdNotify (h'.setEpd w i e') b) e t := by
  have hheap : (Host.hcdNotify (h'.setEpd w i e') b).heap = h'.heap := Hcd.heap_setEpd h' w i e'
  have hnext : (Host.hcdNotify (h'.setEpd w i e') b).next = h'.next := Hcd.next_setEpd h' w i e'
  constructor
  case doneList => exact (Hcd.doneList_setEpd h' w i e').trans hl.doneList
  case kept =>
    rw [hheap]
    exact hl.kept
  case created =>
    rw [hheap]
    exact hl.created
  case next =>
    rw [hnext]
    exact hl.next
  case last =>
    rw [hnext]
    exact hl.last

private theorem chain (hl : Linked h h' e t) (hr : Refines h a)
    (he : EpdRefines h a s e) :
    Chain h'.next (e.enqueued h.nextGtd).tdQueueHeadPointer (a.ptrs (some s) ++ [h.nextGtd]) := by
  have hnew : h'.next h.nextGtd = some none := by simp [Hcd.next, hl.created]
  cases hq : a.ptrs (some s) with
  | nil =>
    have hhead : e.tdQueueHeadPointer = none := he.chain.head_none_iff.mpr hq
    simp [Epd.enqueued, hhead, hnew]
  | cons x xs =>
    have hhead : e.tdQueueHeadPointer = some x := by
      rw [he.chain.head_eq, hq]
      rfl
    have hchain := he.chain
    rw [hq, hhead] at hchain
    obtain ⟨l, hlast⟩ : ∃ l, (x :: xs).getLast? = some l :=
      ⟨_, List.getLast?_eq_some_getLast (List.cons_ne_nil x xs)⟩
    have htail : e.tdQueueTailPointer = some l := by rw [he.tail, hq, hlast]
    have hhead' : (e.enqueued h.nextGtd).tdQueueHeadPointer = some x := by
      simp [Epd.enqueued, hhead]
    rw [hhead']
    refine hchain.snoc hlast (hl.last l htail) hnew ?_
    intro y hy hyl
    apply hl.next
    · rintro rfl
      exact hr.fresh (some s) (by rw [hq]; exact hy)
    · rw [htail]
      simpa using hyl

private theorem frame (hl : Linked h h' e t) (hr : Refines h a)
    (he : EpdRefines h a s e) {pl : Option Slot} (hpl : pl ≠ some s) :
    ∀ g ∈ a.ptrs pl, h'.next g = h.next g := by
  intro g hg
  apply hl.next
  · rintro rfl
    exact hr.fresh pl hg
  · intro htail
    rw [he.tail] at htail
    exact hr.wf.disjoint pl (some s) hpl g hg (List.mem_of_getLast? htail.symm)

private theorem beside (hl : Linked h h' e t) (hr : Refines h a)
    (he : EpdRefines h a s e) : Beside s h h' a (a.push s t) where
  order := rfl
  core s' hs := Function.update_of_ne hs _ _
  ptrs s' hs := by rw [Queues.ptrs_push, if_neg fun hs' ↦ hs (Option.some.inj hs')]
  next s' hs := hl.frame hr he fun hs' ↦ hs (Option.some.inj hs')

private theorem stored (hl : Linked h h' e t) (hr : Refines h a)
    (he : EpdRefines h a s e) : Stored h' (a.push s t) where
  done := by
    rw [hl.doneList, Queues.ptrs_push, if_neg (Option.some_ne_none s).symm]
    exact hr.done.frame (hl.frame hr he (Option.some_ne_none s).symm)
  cells pl x hx := by
    rcases Queues.mem_push hx with hx | ⟨-, rfl⟩
    · obtain ⟨n, hn, hnt⟩ := hr.cells pl x hx
      have hne : x.ptr ≠ h.nextGtd := by
        intro hx'
        apply hr.fresh pl
        rw [← hx']
        exact List.mem_map_of_mem hx
      have hkept := hl.kept x.ptr hne
      rw [hn] at hkept
      obtain ⟨n', hn', hnt'⟩ := Option.map_eq_some_iff.mp hkept
      exact ⟨n', hn', hnt'.trans hnt⟩
    · rw [← hr.nextGtd, hl.created]
      exact ⟨_, rfl, rfl⟩
  live g hg := by
    by_cases hnew : g = h.nextGtd
    · refine ⟨some s, ?_⟩
      rw [Queues.ptrs_push, if_pos rfl, ← hr.nextGtd, hnew]
      simp
    · have hold : h.heap g ≠ none := by
        intro hnone
        have hkept := hl.kept g hnew
        rw [hnone] at hkept
        exact hg (Option.map_eq_none_iff.mp hkept)
      obtain ⟨pl, hpl⟩ := hr.live g hold
      refine ⟨pl, ?_⟩
      rw [Queues.ptrs_push]
      split
      · exact List.mem_append_left _ hpl
      · exact hpl

end Linked

/-- Linking a descriptor appends it to its slot's queue. -/
theorem push (hr : Refines h a) (hi : (h.list s.list)[i]? = some e) (hk : e.key = s.key)
    (t : Td) :
    ∃ h', Host.linkBehindTail (h.alloc t) h.nextGtd e.tdQueueTailPointer = .ok h' ∧
      Refines (Host.hcdNotify (h'.setEpd s.list i (e.enqueued h.nextGtd)) s.list.notification)
        (a.push s t) := by
  have he := hr.epd_at hi hk
  obtain ⟨h', hlink, hlist, hnotify, hgtd, hlinked⟩ := hr.linkBehindTail hi hk t
  have hl := hlinked.store (w := s.list) (i := i) (e.enqueued h.nextGtd) s.list.notification
  refine ⟨h', hlink, ?_⟩
  refine hr.patch (e.enqueued h.nextGtd) hi hk ?_ (hr.wf.push (hr.known hi hk) t) ?_ ?_ hk ?_
    (hl.beside hr he) (hl.stored hr he)
  · intro w
    rw [list_hcdNotify, Hcd.list_setEpd, hlist, hlist]
    split
    · next hw => rw [hw]
    · rfl
  · change (h'.setEpd s.list i _).notify ||| _ = a.notify ||| _
    rw [Hcd.notify_setEpd, hnotify, hr.notify]
  · change (h'.setEpd s.list i _).nextGtd = a.nextGtd + 1
    rw [Hcd.nextGtd_setEpd, hgtd, hr.nextGtd]
  · constructor
    · change { e.toEpdCore with skip := false, halted := false } =
        Function.update a.core s { a.core s with skip := false, halted := false } s
      rw [Function.update_self, he.core]
    · rw [Queues.ptrs_push, if_pos rfl, ← hr.nextGtd]
      exact hl.chain hr he
    · rw [Queues.ptrs_push, if_pos rfl, List.getLast?_concat, ← hr.nextGtd]
      rfl

/-- `hcd_gtd_link` refines linking. -/
theorem link (hr : Refines h a) (args : LinkArgs) :
    Agree Refines (hcdExec h (.link args)) (queuesExec a (.link args)) := by
  simp only [hcdExec, queuesExec, hcdGtdLink, Queues.link]
  rcases hr.findEpd args.slot args.mps with ⟨f, hf, ho⟩ | ⟨l, i, e, b, hf, ho, hb, hi, hk⟩
  · have hf' : Host.findEpd (h.list args.list) args.key args.mps = .error f := hf
    rw [hf', ho]
    rfl
  · have hf' : Host.findEpd (h.list args.list) args.key args.mps = .ok (l, i) := hf
    rw [hf', ho]
    cases ht : args.td with
    | error f => rfl
    | ok t =>
      have hi' : ((h.setList args.slot.list l).list args.slot.list)[i]? = some e := by
        rw [Hcd.list_setList, if_pos rfl]
        exact hi
      obtain ⟨h', hlink, hp⟩ := hb.push hi' hk t
      have hepd : (h.setList args.list l).epd args.list i = .ok e := Hcd.epd_some _ _ _ _ hi'
      have hlink' : Host.linkBehindTail ((h.setList args.list l).alloc t)
          (h.setList args.list l).nextGtd e.tdQueueTailPointer = .ok h' := hlink
      simp only [ok_bind, hepd, hlink', pure_ok, agree_ok]
      refine ⟨?_, hp⟩
      rw [Hcd.nextGtd_setList, hr.nextGtd]

/-! ### Serving -/

/-- A slot's queue on the heap: its head cell and its tail. -/
theorem head_cell (hr : Refines h a) (hi : (h.list s.list)[i]? = some e)
    (hk : e.key = s.key) {x : Entry} {q : List Entry} (hq : a.queue s = x :: q) :
    ∃ n, e.tdQueueHeadPointer = some x.ptr ∧ h.heap x.ptr = some n ∧ n.toTd = x.td ∧
      Chain h.next n.nextTD (q.map Entry.ptr) := by
  have hmem : x ∈ a.place (some s) := by
    rw [Queues.place, hq]
    exact List.mem_cons_self
  obtain ⟨n, hn, hnt⟩ := hr.cells (some s) x hmem
  have hchain := (hr.epd_at hi hk).chain
  simp only [Queues.ptrs, Queues.place, hq, List.map_cons, Chain.cons_iff] at hchain
  obtain ⟨hhead, m, hm, hrest⟩ := hchain
  refine ⟨n, hhead, hn, hnt, ?_⟩
  have hm' : some n.nextTD = some m := by
    rw [← hm, Hcd.next, hn]
    rfl
  rw [Option.some.inj hm']
  exact hrest

private theorem cells_setHead (hr : Refines h a) {x : Entry} {q : List Entry}
    (hq : a.queue s = x :: q) {m : Gtd} {pl : Option Slot} {y : Entry} (hy : y ∈ a.place pl)
    (hyx : y ≠ x) : ∃ n, (h.setGtd x.ptr m).heap y.ptr = some n ∧ n.toTd = y.td := by
  have hmem : x ∈ a.place (some s) := by
    rw [Queues.place, hq]
    exact List.mem_cons_self
  have hne : y.ptr ≠ x.ptr := fun hp ↦ hyx (hr.wf.apart hy hmem hp).2
  rw [Hcd.heap_setGtd, if_neg hne]
  exact hr.cells pl y hy

/-- A descriptor that stays is rewritten in place. -/
theorem keep (hr : Refines h a) (hi : (h.list s.list)[i]? = some e) (hk : e.key = s.key)
    {x : Entry} {q : List Entry} (hq : a.queue s = x :: q) {n : Gtd}
    (hn : h.heap x.ptr = some n) (p : Td) :
    Refines (h.setGtd x.ptr { p with nextTD := n.nextTD }) (a.keep s { x with td := p } q) := by
  have hptrs : ∀ pl, (a.keep s { x with td := p } q).ptrs pl = a.ptrs pl :=
    Queues.ptrs_keep hq rfl
  have hnext : (h.setGtd x.ptr { p with nextTD := n.nextTD }).next = h.next := by
    funext g
    rw [Hcd.next_setGtd]
    split
    · next hg =>
      rw [hg, Hcd.next, hn]
      rfl
    · rfl
  refine hr.patch e hi hk ?_ (hr.wf.keep hq rfl rfl) hr.notify hr.nextGtd hk ?_
    ⟨rfl, fun _ _ ↦ rfl, fun _ _ ↦ hptrs _, fun _ _ _ _ ↦ by rw [hnext]⟩ ⟨?_, ?_, ?_⟩
  · intro w
    rw [Hcd.list_setGtd]
    split
    · next hw =>
      subst hw
      obtain ⟨hlt, he⟩ := List.getElem?_eq_some_iff.mp hi
      rw [← he, List.set_getElem_self]
    · rfl
  · exact frame_epd (hr.epd_at hi hk) rfl (hptrs _) fun g _ ↦ by rw [hnext]
  · rw [hnext, hptrs]
    exact hr.done
  · intro pl y hy
    rcases hr.wf.mem_keep hq hy with ⟨-, rfl⟩ | ⟨hy, hyx⟩
    · rw [Hcd.heap_setGtd, if_pos rfl]
      exact ⟨_, rfl, rfl⟩
    · exact hr.cells_setHead hq hy hyx
  · intro g hg
    rw [Hcd.heap_setGtd] at hg
    have hold : h.heap g ≠ none := by
      split at hg
      · next hgx => rw [hgx, hn]; exact Option.some_ne_none _
      · exact hg
    obtain ⟨pl, hpl⟩ := hr.live g hold
    exact ⟨pl, by rwa [hptrs]⟩

private def retiredHeap (h : Hcd) (w : EpdList) (i : EpdPtr) (e : Epd) (g : GtdPtr) (n : Gtd) :
    Hcd :=
  Host.hcdNotify
    { (h.setEpd w i { e with
        tdQueueHeadPointer := n.nextTD
        tdQueueTailPointer := if e.tdQueueTailPointer = some g then none
          else e.tdQueueTailPointer }).setGtd g { n with nextTD := h.doneList } with
      doneList := some g } notifyDone

private theorem hcdUnlinkGtd_head (hi : (h.list w)[i]? = some e) {g : GtdPtr} {n : Gtd}
    (hhead : e.tdQueueHeadPointer = some g) (hn : h.heap g = some n) :
    hcdUnlinkGtd h w i g = .ok (retiredHeap h w i e g n) := by
  have hnext : (if h.doneList = none then none else h.doneList) = h.doneList := by
    split
    · next hd => exact hd.symm
    · rfl
  have hload : ∀ e', (h.setEpd w i e').load (some g) = .ok (g, n) := by
    intro e'
    apply Hcd.load_some
    rw [Hcd.heap_setEpd]
    exact hn
  simp only [hcdUnlinkGtd, Hcd.epd_some _ _ _ _ hi, ok_bind, hhead, Hcd.load_some _ hn,
    appendToDoneList, hload, if_true, Hcd.doneList_setEpd, hnext, pure_ok]
  rfl

/-- The memory after the endpoint of a retired descriptor is stored again. -/
structure Retired (h h' : Hcd) (w : EpdList) (i : EpdPtr) (e' : Epd) (g : GtdPtr) (n : Gtd) :
    Prop where
  list : ∀ v, h'.list v = if v = w then (h.list v).set i e' else h.list v
  notify : h'.notify = h.notify ||| notifyDone
  nextGtd : h'.nextGtd = h.nextGtd
  doneList : h'.doneList = some g
  heap : ∀ g', h'.heap g' = if g' = g then some { n with nextTD := h.doneList } else h.heap g'

private theorem retired (h : Hcd) (w : EpdList) (i : EpdPtr) (e e' : Epd) (g : GtdPtr)
    (n : Gtd) : Retired h ((retiredHeap h w i e g n).setEpd w i e') w i e' g n := by
  let e₁ : Epd := { e with
    tdQueueHeadPointer := n.nextTD
    tdQueueTailPointer := if e.tdQueueTailPointer = some g then none else e.tdQueueTailPointer }
  let h₁ := (h.setEpd w i e₁).setGtd g { n with nextTD := h.doneList }
  have hlist : ∀ v, (retiredHeap h w i e g n).list v = h₁.list v := by
    intro v
    cases v <;> rfl
  refine ⟨fun v ↦ ?_, ?_, ?_, ?_, fun g' ↦ ?_⟩
  · rw [Hcd.list_setEpd, hlist, hlist, Hcd.list_setGtd, Hcd.list_setGtd, Hcd.list_setEpd,
      Hcd.list_setEpd, if_pos rfl]
    split
    · next hv => rw [hv, List.set_set]
    · rfl
  · rw [Hcd.notify_setEpd]
    change h₁.notify ||| notifyDone = _
    rw [Hcd.notify_setGtd, Hcd.notify_setEpd]
  · rw [Hcd.nextGtd_setEpd]
    change h₁.nextGtd = _
    rw [Hcd.nextGtd_setGtd, Hcd.nextGtd_setEpd]
  · rw [Hcd.doneList_setEpd]
    rfl
  · rw [Hcd.heap_setEpd]
    change h₁.heap g' = _
    rw [Hcd.heap_setGtd, Hcd.heap_setEpd]

private theorem tail_unlinked {g : GtdPtr} {gs : List GtdPtr} (h : g ∉ gs) :
    (if (g :: gs).getLast? = some g then none else (g :: gs).getLast?) = gs.getLast? := by
  cases gs with
  | nil => simp
  | cons y ys =>
    rw [List.getLast?_cons_cons, if_neg]
    intro hy
    exact h (List.mem_of_getLast? hy)

namespace Retired

variable {e' : Epd} {x : Entry} {q : List Entry} {n : Gtd} {fate : Fate}

private theorem next (ht : Retired h h' s.list i e' x.ptr n) {g : GtdPtr} (hg : g ≠ x.ptr) :
    h'.next g = h.next g := by
  rw [Hcd.next, ht.heap, if_neg hg]
  rfl

private theorem frame (ht : Retired h h' s.list i e' x.ptr n) (hr : Refines h a)
    (hq : a.queue s = x :: q) {pl : Option Slot} (hpl : pl ≠ some s) :
    ∀ g ∈ a.ptrs pl, h'.next g = h.next g := by
  intro g hg
  apply ht.next
  rintro rfl
  refine hr.wf.disjoint pl (some s) hpl _ hg ?_
  rw [Queues.ptrs, Queues.place, hq]
  exact List.mem_cons_self

private theorem beside (ht : Retired h h' s.list i e' x.ptr n) (hr : Refines h a)
    (hq : a.queue s = x :: q) : Beside s h h' a (a.retire s x q fate) where
  order := rfl
  core s' hs := Function.update_of_ne hs _ _
  ptrs s' hs := by
    rw [Queues.ptrs_retire rfl, if_neg fun hs' ↦ hs (Option.some.inj hs'),
      if_neg (Option.some_ne_none _)]
  next s' hs := ht.frame hr hq fun hs' ↦ hs (Option.some.inj hs')

private theorem stored (ht : Retired h h' s.list i e' x.ptr n) (hr : Refines h a)
    (hq : a.queue s = x :: q) (hnt : n.toTd = x.td) : Stored h' (a.retire s x q fate) where
  done := by
    rw [ht.doneList, Queues.ptrs_retire rfl, if_neg (Option.some_ne_none _).symm, if_pos rfl]
    refine ⟨rfl, h.doneList, ?_, hr.done.frame ?_⟩
    · rw [Hcd.next, ht.heap, if_pos rfl]
      rfl
    · exact ht.frame hr hq (Option.some_ne_none _).symm
  cells pl y hy := by
    have hx : x ∈ a.place (some s) := by
      rw [Queues.place, hq]
      exact List.mem_cons_self
    rcases hr.wf.mem_retire hq hy with ⟨-, rfl⟩ | ⟨hy, hyx⟩
    · rw [ht.heap, if_pos rfl]
      exact ⟨_, rfl, hnt⟩
    · have hne : y.ptr ≠ x.ptr := fun hp ↦ hyx (hr.wf.apart hy hx hp).2
      rw [ht.heap, if_neg hne]
      exact hr.cells pl y hy
  live g hg := by
    rw [ht.heap] at hg
    by_cases hgx : g = x.ptr
    · refine ⟨none, ?_⟩
      rw [Queues.ptrs_retire rfl, if_neg (Option.some_ne_none _).symm, if_pos rfl, hgx]
      exact List.mem_cons_self
    · rw [if_neg hgx] at hg
      obtain ⟨pl, hpl⟩ := hr.live g hg
      refine ⟨pl, ?_⟩
      rw [Queues.ptrs_retire rfl]
      split
      · next hpls =>
        subst hpls
        simp only [Queues.ptrs, Queues.place, hq, List.map_cons, List.mem_cons] at hpl
        exact hpl.resolve_left hgx
      · split
        · next hpln =>
          subst hpln
          exact List.mem_cons_of_mem _ hpl
        · exact hpl

end Retired

/-- Retiring the head of a queue puts it on top of the done list. -/
theorem retire (hr : Refines h a) (hi : (h.list s.list)[i]? = some e) (hk : e.key = s.key)
    {x : Entry} {q : List Entry} (hq : a.queue s = x :: q) (fate : Fate) :
    ∃ h' e', hcdUnlinkGtd h s.list i x.ptr = .ok h' ∧ h'.epd s.list i = .ok e' ∧
      Refines (h'.setEpd s.list i { e' with toEpdCore := e'.settle x.td fate })
        (a.retire s x q fate) := by
  have he := hr.epd_at hi hk
  obtain ⟨n, hhead, hn, hnt, hrest⟩ := hr.head_cell hi hk hq
  obtain ⟨hlt, -⟩ := List.getElem?_eq_some_iff.mp hi
  have hxq : x.ptr ∉ q.map Entry.ptr := by
    have hnd := hr.wf.nodup (some s)
    simp only [Queues.ptrs, Queues.place, hq, List.map_cons, List.nodup_cons] at hnd
    exact hnd.1
  let e₁ : Epd := { e with
    tdQueueHeadPointer := n.nextTD
    tdQueueTailPointer := if e.tdQueueTailPointer = some x.ptr then none
      else e.tdQueueTailPointer }
  have hget : ((retiredHeap h s.list i e x.ptr n).list s.list)[i]? = some e₁ := by
    change (((h.setEpd s.list i e₁).setGtd x.ptr { n with nextTD := h.doneList }).list
      s.list)[i]? = some e₁
    rw [Hcd.list_setGtd, Hcd.list_setEpd, if_pos rfl, List.getElem?_set_self hlt]
  refine ⟨_, e₁, hcdUnlinkGtd_head hi hhead hn, Hcd.epd_some _ _ _ _ hget, ?_⟩
  have ht := retired h s.list i e { e₁ with toEpdCore := e₁.settle x.td fate } x.ptr n
  generalize (retiredHeap h s.list i e x.ptr n).setEpd s.list i
    { e₁ with toEpdCore := e₁.settle x.td fate } = h' at ht ⊢
  refine hr.patch { e₁ with toEpdCore := e₁.settle x.td fate } hi hk ht.list
    (hr.wf.retire hq rfl) ?_ ?_ ?_ ?_ (ht.beside hr hq) (ht.stored hr hq hnt)
  · rw [ht.notify, hr.notify]
    rfl
  · rw [ht.nextGtd, hr.nextGtd]
    rfl
  · change (e.toEpdCore.settle x.td fate).key = s.key
    rw [EpdCore.key_settle]
    exact hk
  · constructor
    · change e.toEpdCore.settle x.td fate = Function.update a.core s _ s
      rw [Function.update_self, he.core]
    · rw [Queues.ptrs_retire rfl, if_pos rfl]
      refine hrest.frame fun g hg ↦ ht.next ?_
      rintro rfl
      exact hxq hg
    · rw [Queues.ptrs_retire rfl, if_pos rfl]
      change (if e.tdQueueTailPointer = some x.ptr then none else e.tdQueueTailPointer) = _
      rw [he.tail, Queues.ptrs, Queues.place, hq, List.map_cons]
      exact tail_unlinked hxq

end Refines

end BiMpp.Host
