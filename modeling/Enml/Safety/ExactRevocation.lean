import Enml.Lib.ParentLinks
import Enml.Safety.CapabilityForest

/-! Revocation removes a capability with its descendants and nothing else. The
sweep works on slots in table order; what it reaches is stated here by ids, along
the parent each capability names. -/
namespace Enml.OsKernel

open ParentLinks List Relation.ReflTransGen

namespace CapabilityTable

variable {slot : Slot} {i n : ℕ} {roots : Set CapabilityId}

/-- How a slot names itself and its parent. -/
def capabilityLinks : Links Slot CapabilityId where
  id := Slot.id
  parent := Slot.parent
  top := invalidCapability

/-- The live capabilities, in table order. -/
def live (t : CapabilityTable) : List Slot := t.slots.filter fun slot => slot.occupied

/-- The capability `id` is one of `roots` or descends from one. -/
def Under (t : CapabilityTable) (roots : Set CapabilityId) (id : CapabilityId) : Prop :=
  ∃ root ∈ roots, capabilityLinks.Within t.live id root

/-- From `t` to `t'` the capabilities under `roots` are removed, `removed` in
number, and every other one keeps its place and all its fields. -/
structure RemovesExactly (t : CapabilityTable) (roots : Set CapabilityId) (t' : CapabilityTable)
    (removed : ℕ) : Prop where
  gone : ∀ slot ∈ t.live, t.Under roots slot.id → ∀ slot' ∈ t'.live, slot'.id ≠ slot.id
  kept : ∀ (i : ℕ) (slot : Slot), t.slots[i]? = some slot → slot.occupied = true →
    ¬ t.Under roots slot.id → t'.slots[i]? = some slot
  nothingNew : ∀ (i : ℕ) (slot : Slot), t'.slots[i]? = some slot → slot.occupied = true →
    t.slots[i]? = some slot
  counted : removed + t'.live.length = t.live.length

variable {t : CapabilityTable}

theorem mem_live : slot ∈ t.live ↔ slot ∈ t.slots ∧ slot.occupied = true := mem_filter

theorem mem_live_of_getElem? (hCell : t.slots[i]? = some slot) (hLive : slot.occupied = true) :
    slot ∈ t.live :=
  mem_live.mpr ⟨mem_of_getElem? hCell, hLive⟩

theorem length_live : t.live.length = t.slots.countP fun slot => slot.occupied :=
  countP_eq_length_filter.symm

namespace Forest

variable {marks : Set ℕ}

/-- The parent a live slot names stands where it says. -/
theorem parentIndex_of_live (hForest : Forest t) (hCell : t.slots[i]? = some slot)
    (hLive : slot.occupied = true) (hChild : slot.parent ≠ invalidCapability) :
    ∃ parent, parentIndex t.slots i = some slot.parentSlot ∧
      t.slots[slot.parentSlot]? = some parent ∧ parent.occupied = true ∧
      parent.id = slot.parent := by
  obtain ⟨parent, hPar, -⟩ := hForest.derived slot (mem_of_getElem? hCell) hLive hChild
  obtain ⟨-, hAbove, hParLive, hId⟩ := parentOf_eq_some.mp hPar
  exact ⟨parent, parentIndex_eq_some.mpr ⟨slot, parent, hCell, hLive, hPar, rfl⟩, hAbove,
    hParLive, hId⟩

/-- A path over slots is a path over ids. -/
theorem within_of_path {j : ℕ}
    (hPath : Relation.ReflTransGen (fun a b => parentIndex t.slots a = some b) i j) {above : Slot}
    (hCell : t.slots[i]? = some slot) (hAbove : t.slots[j]? = some above) :
    capabilityLinks.Within t.live slot.id above.id := by
  induction hPath using head_induction_on generalizing slot with
  | refl =>
    cases hCell.symm.trans hAbove
    exact refl
  | head hUp _ ih =>
    obtain ⟨child, parent, hChild, hLive, hPar, rfl⟩ := parentIndex_eq_some.mp hUp
    cases hCell.symm.trans hChild
    obtain ⟨hNamed, hParCell, -, hId⟩ := parentOf_eq_some.mp hPar
    have hStep : capabilityLinks.ParentOf t.live slot.id parent.id :=
      ⟨slot, mem_live_of_getElem? hCell hLive, rfl, hId.symm, hId ▸ hNamed⟩
    exact head hStep (ih hParCell)

/-- A path over ids is a path over slots. -/
theorem path_of_within (hForest : Forest t) {c a : CapabilityId}
    (hWithin : capabilityLinks.Within t.live c a) {j : ℕ} {above : Slot}
    (hCell : t.slots[i]? = some slot) (hLive : slot.occupied = true) (hId : slot.id = c)
    (hAbove : t.slots[j]? = some above) (hAboveLive : above.occupied = true)
    (hAboveId : above.id = a) :
    Relation.ReflTransGen (fun a b => parentIndex t.slots a = some b) i j := by
  induction hWithin using head_induction_on generalizing i slot with
  | refl =>
    rw [hForest.distinct i j slot above hCell hAbove hLive hAboveLive (hId.trans hAboveId.symm)]
  | head hStep _ ih =>
    obtain ⟨d, hd, hdId, hdParent, hNamed⟩ := hStep
    obtain ⟨hdMem, hdLive⟩ := mem_live.mp hd
    obtain ⟨k, hdCell⟩ := mem_iff_getElem?.mp hdMem
    obtain rfl := hForest.distinct i k slot d hCell hdCell hLive hdLive (hId.trans hdId.symm)
    cases hCell.symm.trans hdCell
    have hChild : slot.parent ≠ invalidCapability := by
      intro hRoot
      exact hNamed (hdParent.symm.trans hRoot)
    obtain ⟨parent, hUp, hParCell, hParLive, hParId⟩ :=
      hForest.parentIndex_of_live hCell hLive hChild
    exact head hUp
      (ih hParCell hParLive (hParId.trans hdParent))

/-- What spreads from the marked slots is what stands under their ids. -/
theorem mem_below_iff (hForest : Forest t) (hRoots : ∀ id, id ∈ roots ↔
      ∃ j ∈ marks, ∃ above, t.slots[j]? = some above ∧ above.occupied = true ∧ above.id = id)
    (hMarks : ∀ j ∈ marks, ∃ above, t.slots[j]? = some above ∧ above.occupied = true)
    (hCell : t.slots[i]? = some slot) (hLive : slot.occupied = true) :
    i ∈ Spread.below (parentIndex t.slots) marks ↔ t.Under roots slot.id := by
  constructor
  · rintro ⟨j, hj, hPath⟩
    obtain ⟨above, hAbove, hAboveLive⟩ := hMarks j hj
    exact ⟨above.id, (hRoots _).mpr ⟨j, hj, above, hAbove, hAboveLive, rfl⟩,
      within_of_path hPath hCell hAbove⟩
  · rintro ⟨root, hRoot, hWithin⟩
    obtain ⟨j, hj, above, hAbove, hAboveLive, hId⟩ := (hRoots root).mp hRoot
    exact ⟨j, hj, hForest.path_of_within hWithin hCell hLive rfl hAbove hAboveLive hId⟩

/-- Emptying what spreads from the marks removes exactly what is under them. -/
theorem removesExactly_without (hForest : Forest t) (hRoots : ∀ id, id ∈ roots ↔
      ∃ j ∈ marks, ∃ above, t.slots[j]? = some above ∧ above.occupied = true ∧ above.id = id)
    (hMarks : ∀ j ∈ marks, ∃ above, t.slots[j]? = some above ∧ above.occupied = true)
    (hCnt : n + (t.without (Spread.below (parentIndex t.slots) marks)).occupied = t.occupied) :
    t.RemovesExactly roots (t.without (Spread.below (parentIndex t.slots) marks)) n where
  gone := by
    intro slot hSlot hUnder slot' hSlot' hSame
    obtain ⟨hMem', hLive'⟩ := mem_live.mp hSlot'
    obtain ⟨i, hCell'⟩ := mem_iff_getElem?.mp hMem'
    obtain ⟨hLeft, hOld⟩ := getElem?_of_without hCell' hLive'
    rw [← hSame] at hUnder
    exact hLeft ((hForest.mem_below_iff hRoots hMarks hOld hLive').mpr hUnder)
  kept := by
    intro i slot hCell hLive hFree
    rw [getElem?_without_of_notMem t
      (mt (hForest.mem_below_iff hRoots hMarks hCell hLive).mp hFree)]
    exact hCell
  nothingNew := fun i slot hCell hLive => (getElem?_of_without hCell hLive).2
  counted := by
    rw [length_live, length_live, ← hForest.counted]
    exact hCnt

theorem removesExactly_revokeWith (hForest : Forest t) {held : Slot → Bool} {id : CapabilityId}
    (hDone : (t.revokeWith held id).2 = .ok n) :
    t.Live id ∧ t.RemovesExactly {id} (t.revokeWith held id).1 n := by
  obtain ⟨e, hRefused⟩ | ⟨i, target, m, hCell, hLive, hId, -, hCnt, hRevoked⟩ :=
    hForest.revokeWith_cases held id
  · simp [hRefused] at hDone
  rw [hRevoked] at hDone ⊢
  cases hDone
  refine ⟨⟨target, mem_of_getElem? hCell, hLive, hId⟩, ?_⟩
  refine hForest.removesExactly_without ?_ ?_ hCnt
  · intro root
    simp only [Set.mem_singleton_iff, exists_eq_left]
    constructor
    · rintro rfl
      exact ⟨target, hCell, hLive, hId⟩
    · rintro ⟨above, hAbove, -, rfl⟩
      cases hCell.symm.trans hAbove
      exact hId
  · rintro _ rfl
    exact ⟨target, hCell, hLive⟩

end Forest

/-- Every live capability has a holder. -/
def Held (t : CapabilityTable) : Prop :=
  ∀ slot ∈ t.slots, slot.occupied = true → slot.holder ≠ invalidThread

theorem Held.issue (h : Held t) (hHolder : slot.holder ≠ invalidThread) :
    Held (t.issue slot).1 := by
  unfold CapabilityTable.issue
  split_ifs
  · exact h
  split
  next slots hIns =>
    obtain ⟨front, free, back, hSlots, -, -, hSlots'⟩ := SlotTable.insert_eq_some hIns
    intro cell hCell hLive
    have hCells : cell ∈ front ++ { slot with id := t.nextId, occupied := true } :: back :=
      hSlots' ▸ hCell
    rcases mem_append.mp hCells with hFront | hRest
    · exact h cell (by rw [hSlots]; exact mem_append_left _ hFront) hLive
    rcases mem_cons.mp hRest with rfl | hBack
    · exact hHolder
    · refine h cell ?_ hLive
      rw [hSlots]
      exact mem_append_right _ (mem_cons_of_mem _ hBack)
  next => exact h

theorem Held.derive (h : Held t) (id : CapabilityId) (held : Slot → Bool) (place : Slot → Slot)
    (hPlace : ∀ child, (place child).holder ≠ invalidThread) (rights : Rights)
    (transferable : Bool) : Held (t.derive id held place rights transferable).1 := by
  obtain ⟨e, hRefused⟩ | ⟨parent, -, -, -, -, -, hDerived⟩ :=
    Forest.derive_cases (t := t) id held place rights transferable
  · rw [hRefused]
    exact h
  · rw [hDerived]
    exact h.issue (hPlace _)

theorem Held.removed (h : Held t) {t' : CapabilityTable} (hRemoved : t.RemovesExactly roots t' n) :
    Held t' := by
  intro slot hMem hLive
  obtain ⟨i, hCell⟩ := mem_iff_getElem?.mp hMem
  exact h slot (mem_of_getElem? (hRemoved.nothingNew i slot hCell hLive)) hLive

theorem ExecutionAuthority.thread_ne {a : ExecutionAuthority} (h : a.valid = true) :
    a.thread ≠ invalidThread := by
  simp only [ExecutionAuthority.valid, Bool.and_eq_true, bne_iff_ne] at h
  exact h.1

/-- The ids of the capabilities a thread holds, bound or not. -/
def heldIds (t : CapabilityTable) (holder : ThreadId) : Set CapabilityId :=
  {id | ∃ slot ∈ t.live, slot.holder = holder ∧ slot.id = id}

/-- Nothing is under no root. -/
theorem removesExactly_nothing (hNone : roots = ∅) : t.RemovesExactly roots t 0 where
  gone := by
    rintro slot - ⟨root, hRoot, -⟩
    rw [hNone] at hRoot
    exact absurd hRoot (Set.notMem_empty root)
  kept := fun _ _ hCell _ _ => hCell
  nothingNew := fun _ _ hCell _ => hCell
  counted := Nat.zero_add _

theorem Forest.removesExactly_revokeAllHeldBy (hForest : Forest t) (hHeld : Held t)
    (holder : ThreadId) :
    t.RemovesExactly (t.heldIds holder) (t.revokeAllHeldBy holder).1
      (t.revokeAllHeldBy holder).2 := by
  by_cases hHolder : holder = invalidThread
  · rw [revokeAllHeldBy, if_pos hHolder]
    apply removesExactly_nothing
    apply Set.eq_empty_of_forall_notMem
    rintro id ⟨slot, hSlot, hNobody, -⟩
    obtain ⟨hMem, hLive⟩ := mem_live.mp hSlot
    exact hHeld slot hMem hLive (hNobody.trans hHolder)
  · obtain ⟨hSwept, hCnt⟩ := hForest.revokeAllHeldBy_spec hHolder
    rw [hSwept]
    refine hForest.removesExactly_without ?_ ?_ hCnt
    · intro id
      constructor
      · rintro ⟨slot, hSlot, hOwn, hId⟩
        obtain ⟨hMem, hLive⟩ := mem_live.mp hSlot
        obtain ⟨i, hCell⟩ := mem_iff_getElem?.mp hMem
        exact ⟨i, ⟨slot, hCell, hLive, hOwn⟩, slot, hCell, hLive, hId⟩
      · rintro ⟨i, ⟨slot, hCell, hLive, hOwn⟩, above, hAbove, -, hId⟩
        cases hCell.symm.trans hAbove
        exact ⟨slot, mem_live_of_getElem? hCell hLive, hOwn, hId⟩
    · rintro i ⟨slot, hCell, hLive, -⟩
      exact ⟨slot, hCell, hLive⟩

theorem Held.revokeWith (h : Held t) (hForest : Forest t) (held : Slot → Bool)
    (id : CapabilityId) : Held (t.revokeWith held id).1 := by
  obtain ⟨e, hRefused⟩ | ⟨i, target, n, -, -, -, -, -, hRevoked⟩ := hForest.revokeWith_cases held id
  · rw [hRefused]
    exact h
  · have hDone : (t.revokeWith held id).2 = .ok n := by rw [hRevoked]
    exact h.removed (hForest.removesExactly_revokeWith hDone).2

theorem Held.step (h : Held t) (hForest : Forest t) (op : CapabilityOp) : Held (t.step op).1 := by
  cases op with
  | mint =>
    dsimp only [CapabilityTable.step, Prod.map, mint]
    split_ifs with hHolder
    · exact h
    · exact h
    · exact h.issue hHolder
  | mintBound =>
    dsimp only [CapabilityTable.step, Prod.map, mintBound]
    split_ifs with hHolder
    · exact h
    · exact h
    · exact h.issue (ExecutionAuthority.thread_ne (by simpa using hHolder))
  | grant =>
    dsimp only [CapabilityTable.step, Prod.map, grant]
    split_ifs with hThrs
    · exact h
    · exact h
    · exact h.derive _ _ _ (fun _ => (not_or.mp hThrs).2) _ _
  | grantBound _ _ recipient =>
    dsimp only [CapabilityTable.step, Prod.map, grantBound]
    split_ifs with hThrs
    · exact h
    · exact h
    have hRecipient : recipient.valid = true := by
      simp only [Bool.or_eq_true, Bool.not_eq_true', not_or, Bool.not_eq_false] at hThrs
      exact hThrs.2
    exact h.derive _ _ _ (fun _ => ExecutionAuthority.thread_ne hRecipient) _ _
  | revoke | revokeBound =>
    dsimp only [CapabilityTable.step, Prod.map, revoke, revokeBound]
    split_ifs
    · exact h
    · exact h.revokeWith hForest _ _
  | revokeAllHeldBy holder => exact h.removed (hForest.removesExactly_revokeAllHeldBy h holder)

/-- Each way of revoking removes what it names with all that descends from it. -/
structure RevokesExactly (t : CapabilityTable) : Prop where
  byThread : ∀ revoker id n, (t.revoke revoker id).2 = .ok n →
    t.Live id ∧ t.RemovesExactly {id} (t.revoke revoker id).1 n
  byAuthority : ∀ revoker id n, (t.revokeBound revoker id).2 = .ok n →
    t.Live id ∧ t.RemovesExactly {id} (t.revokeBound revoker id).1 n
  allHeld : ∀ holder, t.RemovesExactly (t.heldIds holder) (t.revokeAllHeldBy holder).1
    (t.revokeAllHeldBy holder).2

theorem Forest.revokesExactly (hForest : Forest t) (hHeld : Held t) : t.RevokesExactly where
  byThread := by
    intro revoker id n hDone
    unfold revoke at hDone ⊢
    split_ifs at hDone ⊢ with hRevoker
    exact hForest.removesExactly_revokeWith hDone
  byAuthority := by
    intro revoker id n hDone
    unfold revokeBound at hDone ⊢
    split_ifs at hDone ⊢ with hRevoker
    exact hForest.removesExactly_revokeWith hDone
  allHeld := hForest.removesExactly_revokeAllHeldBy hHeld

theorem held_empty : Held {} := by
  intro slot hMem hLive
  have hFree := eq_of_mem_replicate hMem
  simp [hFree] at hLive

/-- In every state of every run, revocation is exact. -/
theorem revocation_is_exact (ops : List CapabilityOp) :
    Run.Always CapabilityTable.step RevokesExactly {} ops := by
  have hBoth : Run.Always CapabilityTable.step (fun t => Forest t ∧ Held t) {} ops :=
    Run.always_of_invariant ⟨forest_empty, held_empty⟩
      fun _ op h => ⟨h.1.step op, h.2.step h.1 op⟩
  exact fun n => (hBoth n).1.revokesExactly (hBoth n).2

end CapabilityTable

end Enml.OsKernel
