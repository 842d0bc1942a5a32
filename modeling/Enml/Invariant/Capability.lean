import Enml.Lib.Spread
import Enml.OsKernel.Operation

/-! The forest of capabilities: what a sweep removes, and the invariant that
issuing and sweeping keep. Slots are compared by index, since a child names its
parent by index and id. -/
namespace Enml.OsKernel

open List Spread SlotTable Option Function Set

namespace CapabilityTable

variable {id : CapabilityId} {i j : ℕ} {gone : Set ℕ} {t' : CapabilityTable}
  {slot : Slot} {t : CapabilityTable}

/-- The index `indexOf` computes is where the found slot stands. -/
theorem getElem?_indexOf (h : t.find id = some slot) : t.slots[t.indexOf id]? = some slot := by
  unfold find at h
  split_ifs at h
  rwa [indexOf, ← find?_eq_getElem?_findIdx]

theorem find_eq_some (h : t.find id = some slot) :
    id ≠ invalidCapability ∧ slot ∈ t.slots ∧ slot.occupied = true ∧ slot.id = id := by
  unfold find at h
  split_ifs at h with hId
  obtain ⟨hMem, hKey⟩ := mem_of_lookup h
  simp only [Slot.key, ite_none_right_eq_some, some.injEq] at hKey
  exact ⟨hId, hMem, hKey⟩

theorem heldBy_iff {authority : ExecutionAuthority} :
    slot.heldBy authority = true ↔ slot.contextBound = true ∧ authority.valid = true ∧
      slot.holder = authority.thread ∧ slot.holderAddressSpace = authority.addressSpace := by
  simp [Slot.heldBy, and_assoc]

theorem heldByThread_iff {thread : ThreadId} :
    slot.heldByThread thread = true ↔ slot.contextBound = false ∧ slot.holder = thread := by
  simp [Slot.heldByThread]

/-- The index a live slot names as its parent, when `parentOf` accepts it. -/
def parentIndex (slots : List Slot) (i : ℕ) : Option ℕ :=
  match slots[i]? with
  | none => none
  | some slot =>
    if slot.occupied && (parentOf slots slot).isSome then some slot.parentSlot else none

open Classical in
/-- The slots with a mark at every index in `marks`. -/
noncomputable def marked (slots : List Slot) (marks : Set ℕ) : List Slot :=
  slots.mapIdx fun i slot => if i ∈ marks then { slot with doomed := true } else slot

variable {slots : List Slot}

theorem parentOf_eq_some {parent : Slot} :
    parentOf slots slot = some parent ↔
      slot.parent ≠ invalidCapability ∧ slots[slot.parentSlot]? = some parent ∧
        parent.occupied = true ∧ parent.id = slot.parent := by
  unfold parentOf
  split_ifs with hRoot
  · simp [hRoot]
  cases hCell : slots[slot.parentSlot]? with
  | none => simp
  | some =>
    simp only [Bool.or_eq_true, Bool.not_eq_true', bne_iff_ne, ne_eq, some.injEq]
    split_ifs with hStale
    · simp only [false_iff, not_and]
      rintro - rfl hLive hId
      rw [hLive, hId] at hStale
      simp at hStale
    simp only [not_or, Bool.not_eq_false, not_not] at hStale
    simp only [some.injEq, hRoot, not_false_eq_true, true_and]
    constructor
    · rintro rfl
      exact ⟨rfl, hStale⟩
    · exact And.left

theorem parentIndex_eq_some :
    parentIndex slots i = some j ↔ ∃ slot parent, slots[i]? = some slot ∧ slot.occupied = true ∧
        parentOf slots slot = some parent ∧ slot.parentSlot = j := by
  unfold parentIndex
  cases hCell : slots[i]? with
  | none => simp
  | some slot =>
    simp only [Bool.and_eq_true, isSome_iff_exists, ite_none_right_eq_some, some.injEq]
    constructor
    · rintro ⟨⟨hLive, parent, hPar⟩, hIdx⟩
      exact ⟨slot, parent, rfl, hLive, hPar, hIdx⟩
    · rintro ⟨_, parent, rfl, hLive, hPar, hIdx⟩
      exact ⟨⟨hLive, parent, hPar⟩, hIdx⟩

open Classical in
theorem getElem?_marked (slots : List Slot) (marks : Set ℕ) (i : ℕ) :
    (marked slots marks)[i]? =
      slots[i]?.map fun slot => if i ∈ marks then { slot with doomed := true } else slot := by
  rw [marked, getElem?_mapIdx]

@[simp] theorem length_marked (slots : List Slot) (marks : Set ℕ) :
    (marked slots marks).length = slots.length := by
  simp [marked]

open Classical in
/-- Marks change no parent, only whether it is seen as marked. -/
theorem parentOf_marked (slots : List Slot) (marks : Set ℕ) (slot : Slot) :
    parentOf (marked slots marks) slot = (parentOf slots slot).map fun parent =>
      if slot.parentSlot ∈ marks then { parent with doomed := true } else parent := by
  unfold parentOf
  rw [getElem?_marked]
  cases slots[slot.parentSlot]? with
  | none => simp
  | some =>
    by_cases hMark : slot.parentSlot ∈ marks
    · simp only [map_some, hMark, if_true]
      split_ifs <;> rfl
    · simp only [map_some, hMark, if_false]
      split_ifs <;> rfl

theorem marked_empty (slots : List Slot) : marked slots ∅ = slots := by
  apply ext_getElem?
  intro i
  simp [getElem?_marked]

theorem set_marked (h : slots[i]? = some slot) (marks : Set ℕ) :
    (marked slots marks).set i { slot with doomed := true } = marked slots (insert i marks) := by
  apply ext_getElem?
  intro j
  rw [getElem?_set, getElem?_marked, getElem?_marked, length_marked]
  have hi : i < slots.length := (List.getElem?_eq_some_iff.mp h).1
  by_cases hij : i = j
  · subst hij
    rw [if_pos rfl, if_pos hi, h, map_some, if_pos (mem_insert i marks)]
  have hMem : j ∈ insert i marks ↔ j ∈ marks :=
    mem_insert_iff.trans (or_iff_right fun hji => hij hji.symm)
  rw [if_neg hij]
  by_cases hj : j ∈ marks
  · simp only [hj, if_true, if_pos (hMem.mpr hj)]
  · simp only [hj, if_false, if_neg (hMem.not.mpr hj)]

theorem spreadAt_of_unmarked {state : List Slot × Bool} (h : (spreadAt state i).2 = false) :
    spreadAt state i = state := by
  unfold spreadAt at h ⊢
  split at h
  · rfl
  split_ifs at h ⊢
  · rfl
  split at h
  · rfl
  · split_ifs at h ⊢
    rfl

/-- A pass that reports no mark has changed nothing. -/
theorem spreadPass_of_unmarked (h : (spreadPass slots).2 = false) :
    (spreadPass slots).1 = slots := by
  have hFold : ∀ (nodes : List ℕ) (state : List Slot × Bool),
      (nodes.foldl spreadAt state).2 = false → nodes.foldl spreadAt state = state := by
    intro nodes
    induction nodes with
    | nil => intro state _; rfl
    | cons _ _ ih =>
      intro state hState
      rw [foldl_cons] at hState ⊢
      have hRest := ih _ hState
      rw [hRest] at hState ⊢
      exact spreadAt_of_unmarked hState
  exact congrArg Prod.fst (hFold _ (slots, false) h)

/-- Stopping early makes no difference. -/
theorem spread_eq_iterate (passes : ℕ) (slots : List Slot) :
    spread passes slots = (fun slots => (spreadPass slots).1)^[passes] slots := by
  induction passes generalizing slots with
  | zero => rfl
  | succ passes ih =>
    show (if (spreadPass slots).2 then spread passes (spreadPass slots).1
      else (spreadPass slots).1) = _
    split_ifs with hMarked
    · exact ih _
    · have hSame := spreadPass_of_unmarked (Bool.eq_false_iff.mpr hMarked)
      rw [hSame, iterate_fixed hSame]

section Sweep

variable (hClean : ∀ slot ∈ slots, slot.doomed = false)
include hClean

theorem getElem?_clean (h : slots[i]? = some slot) : slot.doomed = false :=
  hClean slot (mem_of_getElem? h)

/-- A visit of the loop is a visit of the marked set. -/
theorem spreadAt_marked (marks : Set ℕ) (flag : Bool) (i : ℕ) :
    (spreadAt (marked slots marks, flag) i).1 =
      marked slots (visit (parentIndex slots) marks i) := by
  unfold spreadAt
  rw [getElem?_marked]
  cases hCell : slots[i]? with
  | none =>
    have hNone : parentIndex slots i = none := by simp [parentIndex, hCell]
    rw [visit_of_not_up (by simp [hNone])]
    rfl
  | some slot =>
    have hFresh := getElem?_clean hClean hCell
    by_cases hMark : i ∈ marks
    · rw [visit_of_not_up (fun _ _ _ => hMark)]
      simp [hMark]
    cases hLive : slot.occupied with
    | false =>
      have hNone : parentIndex slots i = none := by simp [parentIndex, hCell, hLive]
      rw [visit_of_not_up (by simp [hNone])]
      simp [hMark, hLive]
    | true =>
      simp only [map_some, hMark, if_false, hLive, hFresh, parentOf_marked]
      cases hPar : parentOf slots slot with
      | none =>
        have hNone : parentIndex slots i = none := by simp [parentIndex, hCell, hPar]
        rw [visit_of_not_up (by simp [hNone])]
        rfl
      | some parent =>
        have hUp : parentIndex slots i = some slot.parentSlot :=
          parentIndex_eq_some.mpr ⟨slot, parent, hCell, hLive, hPar, rfl⟩
        have hParFresh := getElem?_clean hClean (parentOf_eq_some.mp hPar).2.1
        by_cases hAbove : slot.parentSlot ∈ marks
        · rw [visit_of_up hUp hAbove]
          rw [← set_marked hCell marks]
          simp [hAbove, hLive]
        have hStay : ∀ j ∈ marks, parentIndex slots i = some j → i ∈ marks := by
          intro j hj hSome
          rw [hUp, some.injEq] at hSome
          exact absurd (hSome ▸ hj) hAbove
        rw [visit_of_not_up hStay]
        simp [hAbove, hParFresh]

theorem spreadPass_marked (marks : Set ℕ) :
    (spreadPass (marked slots marks)).1 =
      marked slots (pass (parentIndex slots) slots.length marks) := by
  have hFold : ∀ (nodes : List ℕ) (marks : Set ℕ) (flag : Bool),
      (nodes.foldl spreadAt (marked slots marks, flag)).1 =
        marked slots (nodes.foldl (visit (parentIndex slots)) marks) := by
    intro nodes
    induction nodes with
    | nil => intro marks flag; rfl
    | cons i _ ih =>
      intro marks flag
      have hVisit := spreadAt_marked hClean marks flag i
      rw [foldl_cons, foldl_cons, ← ih _ (spreadAt (marked slots marks, flag) i).2, ← hVisit]
  rw [spreadPass, length_marked]
  exact hFold _ marks false

theorem spread_marked (passes : ℕ) (marks : Set ℕ) :
    spread passes (marked slots marks) =
      marked slots ((pass (parentIndex slots) slots.length)^[passes] marks) := by
  rw [spread_eq_iterate]
  induction passes generalizing marks with
  | zero => rfl
  | succ _ ih =>
    rw [iterate_succ_apply, iterate_succ_apply, spreadPass_marked hClean]
    exact ih _

end Sweep

open Classical in
/-- The table with the slots at the indices in `gone` emptied. -/
noncomputable def without (t : CapabilityTable) (gone : Set ℕ) : CapabilityTable :=
  let slots := t.slots.mapIdx fun i slot => if i ∈ gone then {} else slot
  { t with slots, occupied := slots.countP fun slot => slot.occupied }

open Classical in
theorem getElem?_without (t : CapabilityTable) (gone : Set ℕ) (i : ℕ) :
    (t.without gone).slots[i]? = t.slots[i]?.map fun slot => if i ∈ gone then {} else slot := by
  simp only [without]
  rw [getElem?_mapIdx]

theorem getElem?_without_of_mem (t : CapabilityTable) (h : i ∈ gone) :
    (t.without gone).slots[i]? = t.slots[i]?.map fun _ => {} := by
  simp only [getElem?_without, if_pos h]

theorem getElem?_without_of_notMem (t : CapabilityTable) (h : i ∉ gone) :
    (t.without gone).slots[i]? = t.slots[i]? := by
  simp only [getElem?_without, if_neg h]
  exact map_id'

/-- A live slot that is left was there before, outside what was emptied. -/
theorem getElem?_of_without (h : (t.without gone).slots[i]? = some slot)
    (hLive : slot.occupied = true) :
    i ∉ gone ∧ t.slots[i]? = some slot := by
  by_cases hGone : i ∈ gone
  · rw [getElem?_without_of_mem t hGone, map_eq_some_iff] at h
    obtain ⟨_, _, rfl⟩ := h
    simp at hLive
  · rw [getElem?_without_of_notMem t hGone] at h
    exact ⟨hGone, h⟩

/-- Clearing accounts for every live slot. -/
theorem countP_clearDoomed (slots : List Slot) :
    slots.countP (fun slot => slot.occupied) =
      (slots.map Slot.clearDoomed).countP (fun slot => slot.occupied) +
        slots.countP fun slot => slot.occupied && slot.doomed := by
  induction slots with
  | nil => rfl
  | cons slot _ ih =>
    simp only [map_cons, countP_cons, ih]
    cases hLive : slot.occupied <;> cases hDoomed : slot.doomed <;>
      simp [Slot.clearDoomed, hLive, hDoomed] <;> omega

theorem countP_marked (slots : List Slot) (marks : Set ℕ) :
    (marked slots marks).countP (fun slot => slot.occupied) =
      slots.countP fun slot => slot.occupied := by
  have hMap : (marked slots marks).map (fun slot => slot.occupied) =
      slots.map fun slot => slot.occupied := by
    apply ext_getElem?
    intro i
    rw [getElem?_map, getElem?_map, getElem?_marked, Option.map_map]
    congr 1
    funext slot
    split_ifs <;> rfl
  have hCnt := congrArg (countP id) hMap
  simpa only [countP_map, id_comp] using hCnt

/-- What a child takes over from its parent, and what it may only narrow. -/
structure Slot.DerivedFrom (child parent : Slot) : Prop where
  depth : child.depth.toNat = parent.depth.toNat + 1
  shallow : child.depth.toNat ≤ maxDerivationDepth
  object : child.object = parent.object
  rights : child.rights &&& ~~~parent.rights = noRights
  transferable : parent.transferable = true
  contextBound : child.contextBound = parent.contextBound

structure Forest (t : CapabilityTable) : Prop where
  length : t.slots.length = maxCapabilities
  counted : t.occupied = t.slots.countP fun slot => slot.occupied
  clean : ∀ slot ∈ t.slots, slot.doomed = false
  nonzero : ∀ slot ∈ t.slots, slot.occupied = true → slot.id ≠ invalidCapability
  issued : ∀ slot ∈ t.slots, slot.occupied = true →
    slot.id < t.nextId ∨ t.nextId = invalidCapability
  distinct : ∀ (i j : ℕ) (slot slot' : Slot), t.slots[i]? = some slot → t.slots[j]? = some slot' →
    slot.occupied = true → slot'.occupied = true → slot.id = slot'.id → i = j
  root : ∀ slot ∈ t.slots, slot.occupied = true → slot.parent = invalidCapability → slot.depth = 0
  derived : ∀ slot ∈ t.slots, slot.occupied = true → slot.parent ≠ invalidCapability →
    ∃ parent, parentOf t.slots slot = some parent ∧ slot.DerivedFrom parent

/-- A table with no live slot satisfies every statement about live slots. -/
theorem forest_empty : Forest {} := by
  have hFree : ∀ slot ∈ ({} : CapabilityTable).slots, slot = {} := by
    intro slot hMem
    exact eq_of_mem_replicate hMem
  have hDead : ∀ slot ∈ ({} : CapabilityTable).slots, slot.occupied ≠ true := by
    intro slot hMem
    simp [hFree slot hMem]
  have hCnt : ({} : CapabilityTable).slots.countP (fun slot => slot.occupied) = 0 :=
    countP_eq_zero.mpr hDead
  exact
    { length := length_replicate
      counted := hCnt.symm
      clean := fun slot hMem => by rw [hFree slot hMem]
      nonzero := fun slot hMem hLive => absurd hLive (hDead slot hMem)
      issued := fun slot hMem hLive => absurd hLive (hDead slot hMem)
      distinct := fun i j slot slot' hCell hCell' hLive =>
        absurd hLive (hDead slot (mem_of_getElem? hCell))
      root := fun slot hMem hLive => absurd hLive (hDead slot hMem)
      derived := fun slot hMem hLive => absurd hLive (hDead slot hMem) }

/-- A slot that may be issued as it stands: a root, or a child of the live
capability it names. -/
def Fits (t : CapabilityTable) (slot : Slot) : Prop :=
  slot.parent = invalidCapability ∧ slot.depth = 0 ∨
    ∃ parent, parentOf t.slots slot = some parent ∧ slot.DerivedFrom parent

theorem issue_eq_ok (h : t.issue slot = (t', .ok id)) :
    ∃ i free, t.nextId ≠ invalidCapability ∧ id = t.nextId ∧ t.slots[i]? = some free ∧
      free.occupied = false ∧ t'.slots = t.slots.set i { slot with id, occupied := true } ∧
      t'.occupied = t.occupied + 1 ∧ t'.nextId = t.nextId + 1 := by
  unfold issue at h
  split_ifs at h with hNext
  · simp at h
  split at h
  next slots hIns =>
    obtain ⟨front, free, back, hSlots, -, hFree, hSlots'⟩ := insert_eq_some hIns
    obtain ⟨rfl, rfl⟩ := h
    refine ⟨front.length, free, hNext, rfl, ?_, ?_, ?_, rfl, rfl⟩
    · rw [hSlots, getElem?_append_right le_rfl]
      simp
    · simpa [Slot.key] using hFree
    · rw [hSlots', hSlots]
      simp
  next => simp at h

namespace Forest

/-- The depth recorded in a slot is its depth in the forest. -/
theorem depth_parentIndex (hForest : Forest t) (h : parentIndex t.slots i = some j) :
    ((t.slots[i]?.map fun slot => slot.depth.toNat).getD 0 =
      (t.slots[j]?.map fun slot => slot.depth.toNat).getD 0 + 1) ∧
      i < t.slots.length ∧
      (t.slots[i]?.map fun slot => slot.depth.toNat).getD 0 ≤ maxDerivationDepth := by
  obtain ⟨slot, parent, hCell, hLive, hPar, rfl⟩ := parentIndex_eq_some.mp h
  obtain ⟨hChild, hAbove, -, -⟩ := parentOf_eq_some.mp hPar
  obtain ⟨parent', hPar', hDerived⟩ := hForest.derived slot (mem_of_getElem? hCell) hLive hChild
  obtain rfl : parent' = parent := some.inj (hPar'.symm.trans hPar)
  rw [hCell, hAbove]
  exact ⟨hDerived.depth, (List.getElem?_eq_some_iff.mp hCell).1, hDerived.shallow⟩

/-- Emptying indices that are closed under descent keeps the forest: a child
that is left still has its parent. -/
theorem without (hForest : Forest t)
    (hClosed : ∀ i j, parentIndex t.slots i = some j → j ∈ gone → i ∈ gone) :
    Forest (t.without gone) := by
  have hSurvives : ∀ slot ∈ (t.without gone).slots, slot.occupied = true →
      ∃ i, i ∉ gone ∧ t.slots[i]? = some slot ∧ slot ∈ t.slots := by
    intro slot hMem hLive
    obtain ⟨i, hCell⟩ := mem_iff_getElem?.mp hMem
    obtain ⟨hGone, hCell⟩ := getElem?_of_without hCell hLive
    exact ⟨i, hGone, hCell, mem_of_getElem? hCell⟩
  constructor
  · simp [CapabilityTable.without, hForest.length]
  · rfl
  · intro slot hMem
    cases hLive : slot.occupied with
    | true =>
      obtain ⟨-, -, -, hMem⟩ := hSurvives slot hMem hLive
      exact hForest.clean slot hMem
    | false =>
      obtain ⟨i, hCell⟩ := mem_iff_getElem?.mp hMem
      by_cases hGone : i ∈ gone
      · rw [getElem?_without_of_mem t hGone, map_eq_some_iff] at hCell
        obtain ⟨_, _, rfl⟩ := hCell
        rfl
      · rw [getElem?_without_of_notMem t hGone] at hCell
        exact hForest.clean slot (mem_of_getElem? hCell)
  · intro slot hMem hLive
    obtain ⟨-, -, -, hMem⟩ := hSurvives slot hMem hLive
    exact hForest.nonzero slot hMem hLive
  · intro slot hMem hLive
    obtain ⟨-, -, -, hMem⟩ := hSurvives slot hMem hLive
    exact hForest.issued slot hMem hLive
  · intro i j slot slot' hCell hCell' hLive hLive' hId
    exact hForest.distinct i j slot slot' (getElem?_of_without hCell hLive).2
      (getElem?_of_without hCell' hLive').2 hLive hLive' hId
  · intro slot hMem hLive
    obtain ⟨-, -, -, hMem⟩ := hSurvives slot hMem hLive
    exact hForest.root slot hMem hLive
  · intro slot hMem hLive hChild
    obtain ⟨i, hGone, hCell, hMem⟩ := hSurvives slot hMem hLive
    obtain ⟨parent, hPar, hDerived⟩ := hForest.derived slot hMem hLive hChild
    refine ⟨parent, ?_, hDerived⟩
    have hUp : parentIndex t.slots i = some slot.parentSlot :=
      parentIndex_eq_some.mpr ⟨slot, parent, hCell, hLive, hPar, rfl⟩
    have hAbove : slot.parentSlot ∉ gone := fun hAbove => hGone (hClosed _ _ hUp hAbove)
    obtain ⟨-, hParCell, hParLive, hParId⟩ := parentOf_eq_some.mp hPar
    rw [parentOf_eq_some, getElem?_without_of_notMem t hAbove]
    exact ⟨hChild, hParCell, hParLive, hParId⟩

/-- Finding a capability and standing at its slot are the same thing. -/
theorem find_eq_some_iff (hForest : Forest t) :
    t.find id = some slot ↔ slot ∈ t.slots ∧ slot.occupied = true ∧ slot.id = id := by
  have hKey : ∀ s : Slot, s.key = some id ↔ s.occupied = true ∧ s.id = id := by
    intro s
    simp [Slot.key]
  constructor
  · intro hFind
    exact (find_eq_some hFind).2
  rintro ⟨hMem, hLive, rfl⟩
  rw [find, if_neg (hForest.nonzero slot hMem hLive)]
  cases hFind : lookup Slot.key slot.id t.slots with
  | none =>
    have hAbsent := lookup_eq_none_iff.mp hFind
    exact absurd (mem_keys_iff.mpr ⟨slot, hMem, (hKey slot).mpr ⟨hLive, rfl⟩⟩)
      hAbsent
  | some found =>
    obtain ⟨hFoundMem, hFound⟩ := mem_of_lookup hFind
    obtain ⟨i, hCell⟩ := mem_iff_getElem?.mp hMem
    obtain ⟨j, hFoundCell⟩ := mem_iff_getElem?.mp hFoundMem
    obtain ⟨hFoundLive, hFoundId⟩ := (hKey found).mp hFound
    obtain rfl := hForest.distinct i j slot found hCell hFoundCell hLive hFoundLive
      hFoundId.symm
    exact hFoundCell.symm.trans hCell

/-- The counter passes every identifier it has issued, until it wraps. -/
theorem lt_or_eq_zero_of_succ {next : CapabilityId} (h : id < next ∨ id = next) :
    id < next + 1 ∨ next + 1 = 0 := by
  have hBound := next.toNat_lt
  have hSucc : (next + 1).toNat = (next.toNat + 1) % 2 ^ 64 := by simp [UInt64.toNat_add]
  have hLe : id.toNat ≤ next.toNat := by
    rcases h with h | rfl
    · exact (UInt64.lt_iff_toNat_lt.mp h).le
    · exact le_rfl
  rw [UInt64.lt_iff_toNat_lt, ← UInt64.toNat_inj, hSucc]
  have hZero : UInt64.toNat 0 = 0 := rfl
  omega

/-- Filling a free slot disturbs no parent. -/
theorem parentOf_set {slots : List Slot} {free value parent : Slot} (hFree : slots[i]? = some free)
    (hDead : free.occupied = false) (h : parentOf slots slot = some parent) :
    parentOf (slots.set i value) slot = some parent := by
  obtain ⟨hChild, hCell, hLive, hId⟩ := parentOf_eq_some.mp h
  have hne : i ≠ slot.parentSlot := by
    rintro rfl
    rw [hFree, some.injEq] at hCell
    rw [hCell, hLive] at hDead
    simp at hDead
  rw [parentOf_eq_some, getElem?_set_ne hne]
  exact ⟨hChild, hCell, hLive, hId⟩

theorem issue (hForest : Forest t) (hFits : t.Fits slot) (hFresh : slot.doomed = false)
    (h : t.issue slot = (t', .ok id)) :
    Forest t' := by
  obtain ⟨i, free, hNext, rfl, hFree, hDead, hSlots, hOcc, hCounter⟩ := issue_eq_ok h
  have hi : i < t.slots.length := (List.getElem?_eq_some_iff.mp hFree).1
  have hCells : ∀ (j : ℕ) (cell : Slot), t'.slots[j]? = some cell →
      j = i ∧ cell = { slot with id := t.nextId, occupied := true } ∨
        j ≠ i ∧ t.slots[j]? = some cell := by
    intro j cell hCell
    rw [hSlots, getElem?_set] at hCell
    by_cases hij : i = j
    · subst hij
      simp only [hi, if_true, some.injEq] at hCell
      exact .inl ⟨rfl, hCell.symm⟩
    · rw [if_neg hij] at hCell
      exact .inr ⟨fun hji => hij hji.symm, hCell⟩
  have hMem : ∀ cell ∈ t'.slots,
      cell = { slot with id := t.nextId, occupied := true } ∨ cell ∈ t.slots := by
    intro cell hCell
    rw [hSlots] at hCell
    exact (mem_or_eq_of_mem_set hCell).symm
  have hUnused : ∀ cell ∈ t.slots, cell.occupied = true → cell.id ≠ t.nextId := by
    intro cell hCell hLive hId
    rcases hForest.issued cell hCell hLive with hLt | hZero
    · rw [hId] at hLt
      exact absurd hLt (UInt64.lt_irrefl _)
    · exact hNext hZero
  constructor
  · rw [hSlots, length_set, hForest.length]
  · rw [hOcc, hForest.counted, hSlots, countP_set hi]
    have hGet : t.slots[i] = free := (List.getElem?_eq_some_iff.mp hFree).2
    simp [hGet, hDead]
  · intro cell hCell
    rcases hMem cell hCell with rfl | hOld
    · exact hFresh
    · exact hForest.clean cell hOld
  · intro cell hCell hLive
    rcases hMem cell hCell with rfl | hOld
    · exact hNext
    · exact hForest.nonzero cell hOld hLive
  · intro cell hCell hLive
    rw [hCounter]
    rcases hMem cell hCell with rfl | hOld
    · exact lt_or_eq_zero_of_succ (.inr rfl)
    · rcases hForest.issued cell hOld hLive with hLt | hZero
      · exact lt_or_eq_zero_of_succ (.inl hLt)
      · exact absurd hZero hNext
  · intro j k cell cell' hj hk hLive hLive' hId
    rcases hCells j cell hj with ⟨rfl, rfl⟩ | ⟨-, hj⟩
    · rcases hCells k cell' hk with ⟨rfl, -⟩ | ⟨-, hk⟩
      · rfl
      · exact absurd hId.symm (hUnused cell' (mem_of_getElem? hk) hLive')
    · rcases hCells k cell' hk with ⟨rfl, rfl⟩ | ⟨-, hk⟩
      · exact absurd hId (hUnused cell (mem_of_getElem? hj) hLive)
      · exact hForest.distinct j k cell cell' hj hk hLive hLive' hId
  · intro cell hCell hLive hRoot
    rcases hMem cell hCell with rfl | hOld
    · rcases hFits with hFits | ⟨parent, hPar, -⟩
      · exact hFits.2
      · exact absurd hRoot (parentOf_eq_some.mp hPar).1
    · exact hForest.root cell hOld hLive hRoot
  · intro cell hCell hLive hChild
    rw [hSlots]
    rcases hMem cell hCell with rfl | hOld
    · rcases hFits with hFits | ⟨parent, hPar, hDerived⟩
      · exact absurd hFits.1 hChild
      · exact ⟨parent, parentOf_set hFree hDead hPar, { hDerived with }⟩
    · obtain ⟨parent, hPar, hDerived⟩ := hForest.derived cell hOld hLive hChild
      exact ⟨parent, parentOf_set hFree hDead hPar, hDerived⟩

/-- A sweep empties exactly what is marked or descends from a marked slot, and
counts what it empties. -/
theorem sweepDoomed_marked (hForest : Forest t) {marks : Set ℕ}
    (hMarks : ∀ i ∈ marks, ∃ slot, t.slots[i]? = some slot ∧ slot.occupied = true) :
    ({ t with slots := marked t.slots marks }.sweepDoomed).1 =
        t.without (below (parentIndex t.slots) marks) ∧
      ({ t with slots := marked t.slots marks }.sweepDoomed).2 +
        (t.without (below (parentIndex t.slots) marks)).occupied = t.occupied := by
  have hBelow : ∀ i ∈ below (parentIndex t.slots) marks,
      ∃ slot, t.slots[i]? = some slot ∧ slot.occupied = true := by
    rintro i ⟨j, hj, hPath⟩
    rcases Relation.ReflTransGen.cases_head hPath with rfl | ⟨_, hUp, -⟩
    · exact hMarks _ hj
    · obtain ⟨slot, -, hCell, hLive, -⟩ := parentIndex_eq_some.mp hUp
      exact ⟨slot, hCell, hLive⟩
  have hSpread : spread maxDerivationDepth (marked t.slots marks) =
      marked t.slots (below (parentIndex t.slots) marks) := by
    rw [spread_marked hForest.clean]
    congr 1
    exact iterate_pass_eq_below (fun i j hUp => (hForest.depth_parentIndex hUp).1)
      (fun i j hUp => (hForest.depth_parentIndex hUp).2) marks
  have hCleared : (marked t.slots (below (parentIndex t.slots) marks)).map
      Slot.clearDoomed = (t.without (below (parentIndex t.slots) marks)).slots := by
    apply ext_getElem?
    intro i
    rw [getElem?_map, getElem?_marked]
    by_cases hi : i ∈ below (parentIndex t.slots) marks
    · obtain ⟨slot, hCell, hLive⟩ := hBelow i hi
      rw [getElem?_without_of_mem t hi, hCell]
      simp [hi, Slot.clearDoomed, hLive]
    rw [getElem?_without_of_notMem t hi]
    cases hCell : t.slots[i]? with
    | none => rfl
    | some slot =>
      have hFresh := hForest.clean slot (mem_of_getElem? hCell)
      simp [hi, Slot.clearDoomed, hFresh]
  have hCnt := countP_clearDoomed (marked t.slots (below (parentIndex t.slots) marks))
  rw [hCleared, countP_marked, ← hForest.counted] at hCnt
  unfold sweepDoomed
  rw [hSpread]
  simp only [hCleared, hCnt, Nat.add_sub_cancel]
  exact ⟨rfl, Nat.add_comm _ _⟩

theorem without_empty (hForest : Forest t) : t.without ∅ = t := by
  have hSlots : (t.without ∅).slots = t.slots := by
    apply ext_getElem?
    intro i
    exact getElem?_without_of_notMem t (notMem_empty i)
  have hCnt : (t.without ∅).occupied = t.occupied := by
    rw [hForest.counted, ← hSlots]
    rfl
  cases t
  simp only [CapabilityTable.without, mk.injEq] at hSlots hCnt ⊢
  exact ⟨hSlots, hCnt, trivial⟩

/-- A revocation that is accepted removes the target with all its descendants. -/
theorem revokeWith_cases (hForest : Forest t) (held : Slot → Bool) (id : CapabilityId) :
    (∃ e, t.revokeWith held id = (t, .error e)) ∨
      ∃ i target n, t.slots[i]? = some target ∧ target.occupied = true ∧ target.id = id ∧
        (held target = true ∨
          ∃ parent, parentOf t.slots target = some parent ∧ held parent = true) ∧
        n + (t.without (below (parentIndex t.slots) {i})).occupied = t.occupied ∧
        t.revokeWith held id =
          (t.without (below (parentIndex t.slots) {i}), .ok n) := by
  unfold revokeWith
  split_ifs with hId
  · exact .inl ⟨_, rfl⟩
  cases hFind : t.find id with
  | none => exact .inl ⟨_, rfl⟩
  | some target =>
    simp only
    split_ifs with hRefused
    · exact .inl ⟨_, rfl⟩
    obtain ⟨-, -, hLive, hTarget⟩ := find_eq_some hFind
    have hCell := getElem?_indexOf hFind
    have hHeld : held target = true ∨
        ∃ parent, parentOf t.slots target = some parent ∧ held parent = true := by
      cases hPar : parentOf t.slots target with
      | none => simpa [hPar] using hRefused
      | some parent =>
        by_cases hOwn : held target = true
        · exact .inl hOwn
        · exact .inr ⟨parent, rfl, by simpa [hPar, hOwn] using hRefused⟩
    have hMarked : modify Slot.key id (fun slot => { slot with doomed := true })
        t.slots = marked t.slots {t.indexOf id} := by
      rw [find, if_neg hId] at hFind
      have hSet := updateFirst_eq_set hFind fun slot => { slot with doomed := true }
      have hMark := set_marked hCell ∅
      rw [marked_empty, insert_empty_eq] at hMark
      exact hSet.trans hMark
    have hMarks : ∀ i ∈ ({t.indexOf id} : Set ℕ),
        ∃ slot, t.slots[i]? = some slot ∧ slot.occupied = true := by
      rintro _ rfl
      exact ⟨target, hCell, hLive⟩
    have hSwept := hForest.sweepDoomed_marked hMarks
    right
    refine ⟨t.indexOf id, target,
      ({ t with slots := marked t.slots {t.indexOf id} }.sweepDoomed).2, hCell, hLive, hTarget,
      hHeld, hSwept.2, ?_⟩
    rw [hMarked]
    simp only [Prod.mk.injEq, and_true]
    exact hSwept.1

end Forest

/-- Where the live capabilities of a thread stand. -/
def heldIndices (t : CapabilityTable) (holder : ThreadId) : Set ℕ :=
  {i | ∃ slot, t.slots[i]? = some slot ∧ slot.occupied = true ∧ slot.holder = holder}

/-- Teardown removes what the thread holds and all that descends from it. -/
theorem Forest.revokeAllHeldBy_spec (hForest : Forest t) {holder : ThreadId}
    (hHolder : holder ≠ invalidThread) :
    (t.revokeAllHeldBy holder).1 = t.without (below (parentIndex t.slots) (t.heldIndices holder)) ∧
      (t.revokeAllHeldBy holder).2 +
        (t.without (below (parentIndex t.slots) (t.heldIndices holder))).occupied =
          t.occupied := by
  have hMarked : t.slots.map (Slot.doomIfHeldBy holder) =
      marked t.slots (t.heldIndices holder) := by
    apply ext_getElem?
    intro i
    rw [getElem?_map, getElem?_marked]
    cases hCell : t.slots[i]? with
    | none => rfl
    | some slot =>
      have hMem : i ∈ t.heldIndices holder ↔ slot.occupied = true ∧ slot.holder = holder := by
        simp [heldIndices, hCell]
      simp only [map_some, Slot.doomIfHeldBy, hMem, Bool.and_eq_true, beq_iff_eq]
  unfold revokeAllHeldBy
  rw [if_neg hHolder]
  split_ifs with hNone
  · have hEmpty : t.heldIndices holder = ∅ := by
      apply eq_empty_of_forall_notMem
      rintro i ⟨slot, hCell, hLive, hHeld⟩
      have hAny : t.slots.any (fun slot => slot.occupied && slot.holder == holder) = true :=
        any_eq_true.mpr ⟨slot, mem_of_getElem? hCell, by simp [hLive, hHeld]⟩
      rw [hAny] at hNone
      simp at hNone
    have hBelow : below (parentIndex t.slots) ∅ = ∅ := by
      apply eq_empty_of_forall_notMem
      rintro i ⟨j, hj, -⟩
      exact hj
    rw [hEmpty, hBelow, hForest.without_empty]
    exact ⟨rfl, Nat.zero_add _⟩
  · rw [hMarked]
    apply hForest.sweepDoomed_marked
    rintro i ⟨slot, hCell, hLive, -⟩
    exact ⟨slot, hCell, hLive⟩

/-- What a call on the table can do to it. -/
inductive Change (t : CapabilityTable) : CapabilityTable → Prop
  | same : Change t t
  | issue {slot : Slot} {t' : CapabilityTable} {id : CapabilityId} (hFits : t.Fits slot)
      (hFresh : slot.doomed = false) (hIssue : t.issue slot = (t', .ok id)) : Change t t'
  | remove (marks : Set ℕ)
      (hMarks : ∀ i ∈ marks, ∃ slot, t.slots[i]? = some slot ∧ slot.occupied = true) :
      Change t (t.without (below (parentIndex t.slots) marks))

namespace Forest

theorem change_issue (hFits : t.Fits slot) (hFresh : slot.doomed = false) :
    Change t (t.issue slot).1 := by
  cases hIssue : t.issue slot with
  | mk t' outcome =>
    cases outcome with
    | ok => exact Change.issue hFits hFresh hIssue
    | error =>
      have hSame : t' = t := by
        unfold CapabilityTable.issue at hIssue
        split_ifs at hIssue
        · exact (congrArg Prod.fst hIssue).symm
        · split at hIssue
          · simp at hIssue
          · exact (congrArg Prod.fst hIssue).symm
      rw [hSame]
      exact Change.same

/-- A grant is refused or issues a child of a live, transferable parent whose
rights cover the child's. -/
theorem derive_cases (id : CapabilityId) (held : Slot → Bool) (place : Slot → Slot)
    (rights : Rights) (transferable : Bool) :
    (∃ e, t.derive id held place rights transferable = (t, .error e)) ∨
      ∃ parent, t.find id = some parent ∧ held parent = true ∧ parent.transferable = true ∧
        rights &&& ~~~parent.rights = noRights ∧
        parent.depth.toNat + 1 ≤ maxDerivationDepth ∧
        t.derive id held place rights transferable = t.issue (place
          { parent := id, object := parent.object, rights, parentSlot := t.indexOf id,
            transferable, depth := parent.depth + 1 }) := by
  unfold derive
  split_ifs with hId
  · exact .inl ⟨_, rfl⟩
  cases hFind : t.find id with
  | none => exact .inl ⟨_, rfl⟩
  | some parent =>
    simp only
    split_ifs with hHeld hTransferable hRights hDepth
    iterate 4 exact .inl ⟨_, rfl⟩
    · exact .inr ⟨parent, rfl, by simpa using hHeld, by simpa using hTransferable,
        not_not.mp hRights, Nat.le_of_not_lt hDepth, rfl⟩

/-- The child a grant builds fits, wherever its recipient is written. -/
theorem fits_child {parent child : Slot} (hFind : t.find id = some parent)
    (hTransferable : parent.transferable = true)
    (hRights : child.rights &&& ~~~parent.rights = noRights)
    (hDepth : parent.depth.toNat + 1 ≤ maxDerivationDepth) (hPar : child.parent = id)
    (hIdx : child.parentSlot = t.indexOf id) (hObject : child.object = parent.object)
    (hLevel : child.depth = parent.depth + 1) (hBound : child.contextBound = parent.contextBound) :
    t.Fits child := by
  obtain ⟨hId, -, hLive, hParId⟩ := find_eq_some hFind
  have hNext : child.depth.toNat = parent.depth.toNat + 1 := by
    have hSmall : maxDerivationDepth = 8 := rfl
    rw [hLevel, UInt8.toNat_add, UInt8.toNat_one]
    omega
  right
  refine ⟨parent, ?_, ⟨hNext, hNext ▸ hDepth, hObject, hRights, hTransferable, hBound⟩⟩
  rw [parentOf_eq_some, hPar, hIdx]
  exact ⟨hId, getElem?_indexOf hFind, hLive, hParId⟩

theorem change_revokeWith (hForest : Forest t) (held : Slot → Bool) (id : CapabilityId) :
    Change t (t.revokeWith held id).1 := by
  obtain ⟨e, hRefused⟩ | ⟨i, target, n, hCell, hLive, -, -, -, hRevoked⟩ :=
    hForest.revokeWith_cases held id
  · rw [hRefused]
    exact Change.same
  rw [hRevoked]
  apply Change.remove
  rintro _ rfl
  exact ⟨target, hCell, hLive⟩

theorem change_step (hForest : Forest t) (op : CapabilityOp) : Change t (t.step op).1 := by
  cases op with
  | mint | mintBound =>
    dsimp only [step, Prod.map, mint, mintBound]
    split_ifs
    · exact Change.same
    · exact Change.same
    · exact change_issue (.inl ⟨rfl, rfl⟩) rfl
  | grant granter capability recipient rights transferable =>
    show Change t (t.grant granter capability recipient rights transferable).1
    unfold grant
    split_ifs
    · exact Change.same
    · exact Change.same
    obtain ⟨e, hRefused⟩ | ⟨parent, hFind, hHeld, hTransferable, hRights, hDepth, hDerive⟩ :=
      derive_cases (t := t) capability (fun parent => parent.heldByThread granter)
        (fun child => { child with holder := recipient }) rights transferable
    · rw [hRefused]
      exact Change.same
    rw [hDerive]
    have hBound : false = parent.contextBound := (heldByThread_iff.mp hHeld).1.symm
    exact change_issue
      (fits_child hFind hTransferable hRights hDepth rfl rfl rfl rfl hBound) rfl
  | grantBound granter capability recipient rights transferable =>
    show Change t (t.grantBound granter capability recipient rights transferable).1
    unfold grantBound
    split_ifs
    · exact Change.same
    · exact Change.same
    obtain ⟨e, hRefused⟩ | ⟨parent, hFind, hHeld, hTransferable, hRights, hDepth, hDerive⟩ :=
      derive_cases (t := t) capability (fun parent => parent.heldBy granter)
        (fun child => { child with
          holder := recipient.thread
          holderAddressSpace := recipient.addressSpace
          contextBound := true }) rights transferable
    · rw [hRefused]
      exact Change.same
    rw [hDerive]
    have hBound : true = parent.contextBound := (heldBy_iff.mp hHeld).1.symm
    exact change_issue
      (fits_child hFind hTransferable hRights hDepth rfl rfl rfl rfl hBound) rfl
  | revoke | revokeBound =>
    dsimp only [step, Prod.map, revoke, revokeBound]
    split_ifs
    · exact Change.same
    · exact hForest.change_revokeWith _ _
  | revokeAllHeldBy holder =>
    show Change t (t.revokeAllHeldBy holder).1
    by_cases hHolder : holder = invalidThread
    · rw [revokeAllHeldBy, if_pos hHolder]
      exact Change.same
    rw [(hForest.revokeAllHeldBy_spec hHolder).1]
    apply Change.remove
    rintro i ⟨slot, hCell, hLive, -⟩
    exact ⟨slot, hCell, hLive⟩

theorem change (hForest : Forest t) (h : Change t t') : Forest t' := by
  cases h with
  | same => exact hForest
  | issue hFits hFresh hIssue => exact hForest.issue hFits hFresh hIssue
  | remove => exact hForest.without fun i j hUp hj => mem_below_of_up hUp hj

theorem step (hForest : Forest t) (op : CapabilityOp) : Forest (t.step op).1 :=
  hForest.change (hForest.change_step op)

end Forest

end CapabilityTable

end Enml.OsKernel
