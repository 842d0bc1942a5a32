import Enml.OsDisplay.Input
import Enml.Safety.SurfaceTable
import Mathlib.Data.Prod.Lex

/-! Input that reaches the surface it was aimed at. A hit does not store where its
target is; that the target has not moved follows from the frame it presents, which a
change of bounds takes away and only a newer frame can replace. -/
namespace Enml.OsDisplay

open Enml.Core List Slot Compositor Int32

variable {s : Slot}

/-- What surfaces are ordered by. The stack counts among applications only. -/
def Slot.stackKey (s : Slot) : ℕ ×ₗ ℕ ×ₗ ℕ ×ₗ ℕ :=
  let band := roleBand s.descriptor.role
  toLex (band, toLex (if band = 1 then s.stackSerial.toNat else 0,
    toLex (roleRankWithinBand s.descriptor.role, s.creationSerial.toNat)))

theorem Slot.after_iff {left right : Slot} :
    left.after right = true ↔ right.stackKey < left.stackKey := by
  unfold after stackKey
  simp only [Prod.Lex.toLex_lt_toLex]
  by_cases hBand : roleBand left.descriptor.role = roleBand right.descriptor.role
  · rw [if_neg (not_not.mpr hBand), hBand]
    by_cases hFirst : roleBand right.descriptor.role = 1
    · by_cases hStack : left.stackSerial = right.stackSerial
      · rw [if_neg (by simp [hStack]), hStack]
        split_ifs with hRank
        · simp
          omega
        · simp [UInt64.lt_iff_toNat_lt, not_not.mp hRank]
      · rw [if_pos ⟨hFirst, hStack⟩, if_pos hFirst, if_pos hFirst]
        have hNat : left.stackSerial.toNat ≠ right.stackSerial.toNat :=
          fun h => hStack (UInt64.toNat_inj.mp h)
        simp [UInt64.lt_iff_toNat_lt]
        omega
    · rw [if_neg (fun h => hFirst h.1), if_neg hFirst, if_neg hFirst]
      split_ifs with hRank
      · simp
        omega
      · simp [UInt64.lt_iff_toNat_lt, not_not.mp hRank]
  · rw [if_pos hBand]
    simp
    omega

/-- The sorted part, from its end on: nothing is stacked above what comes before it. -/
def Descending (slots : List Slot) : Prop := slots.Pairwise fun high low => low.after high = false

theorem placeSlot_perm (current : Slot) (sorted : List Slot) :
    (placeSlot current sorted).Perm (current :: sorted) := by
  induction sorted with
  | nil => exact List.Perm.refl _
  | cons last rest ih =>
    rw [placeSlot]
    split_ifs
    · exact (ih.cons last).trans (List.Perm.swap current last rest)
    · exact List.Perm.refl _

theorem descending_placeSlot {current : Slot} {sorted : List Slot} (h : Descending sorted) :
    Descending (placeSlot current sorted) := by
  induction sorted with
  | nil => exact pairwise_singleton _ _
  | cons _ rest ih =>
    obtain ⟨hLast, hRest⟩ := pairwise_cons.mp h
    rw [placeSlot]
    split_ifs with hAfter
    · refine pairwise_cons.mpr ⟨fun s hs => ?_, ih hRest⟩
      rcases mem_cons.mp ((placeSlot_perm current rest).mem_iff.mp hs) with rfl | hOld
      · rw [← Bool.not_eq_true, after_iff]
        exact lt_asymm (after_iff.mp hAfter)
      · exact hLast s hOld
    · refine pairwise_cons.mpr ⟨fun s hs => ?_, h⟩
      rw [after_iff, not_lt] at hAfter
      rcases mem_cons.mp hs with rfl | hOld
      · rw [← Bool.not_eq_true, after_iff]
        exact not_lt.mpr hAfter
      · have hBelow := hLast s hOld
        rw [← Bool.not_eq_true, after_iff, not_lt] at hBelow ⊢
        exact hBelow.trans hAfter

namespace Compositor

variable {c : Compositor}

theorem foldl_placeSlot (slots sorted : List Slot) (h : Descending sorted) :
    Descending (slots.foldl (fun sorted s => placeSlot s sorted) sorted) ∧
      (slots.foldl (fun sorted s => placeSlot s sorted) sorted).Perm (slots ++ sorted) := by
  induction slots generalizing sorted with
  | nil => exact ⟨h, List.Perm.refl _⟩
  | cons s rest ih =>
    obtain ⟨hSorted, hPerm⟩ := ih (placeSlot s sorted) (descending_placeSlot h)
    refine ⟨hSorted, hPerm.trans ?_⟩
    exact ((placeSlot_perm s sorted).append_left rest).trans perm_middle

theorem mem_orderedSlots : s ∈ c.orderedSlots ↔ s ∈ c.surfaces := by
  obtain ⟨-, hPerm⟩ := foldl_placeSlot (c.slots.filter fun s => s.occupied) [] List.Pairwise.nil
  rw [orderedSlots, mem_reverse, hPerm.mem_iff, append_nil, mem_filter, mem_surfaces]

/-- The scene goes from the lowest surface to the highest. -/
theorem orderedSlots_ascending (c : Compositor) :
    c.orderedSlots.Pairwise fun low high => low.after high = false := by
  obtain ⟨hSorted, -⟩ := foldl_placeSlot (c.slots.filter fun s => s.occupied) [] List.Pairwise.nil
  exact pairwise_reverse.mpr hSorted

end Compositor

/-- The rectangle contains a point of the display. -/
def Rect.Covers (r : Rect) (x y : Int) : Prop :=
  r.x.toInt ≤ x ∧ x < r.x.toInt + r.width.toNat ∧ r.y.toInt ≤ y ∧ y < r.y.toInt + r.height.toNat

theorem pointInside_iff {r : Rect} {x y : Int32} :
    pointInside r x y = true ↔ r.Covers x.toInt y.toInt := by
  unfold pointInside Rect.Covers
  split_ifs with hOutside
  · rw [lt_iff_toInt_lt, lt_iff_toInt_lt] at hOutside
    simp only [false_iff]
    omega
  · rw [lt_iff_toInt_lt, lt_iff_toInt_lt] at hOutside
    simp only [Bool.and_eq_true, decide_eq_true_eq]
    omega

theorem rectsOverlap_of_covers {a b : Rect} {x y : Int} (ha : a.Covers x y) (hb : b.Covers x y) :
    rectsOverlap a b = true := by
  unfold Rect.Covers at ha hb
  simp [rectsOverlap]
  omega

/-- No surface of another owner that draws something reaches over the surface. -/
def Compositor.Uncovered (c : Compositor) (s : Slot) : Prop :=
  ∀ other ∈ c.surfaces, other.after s = true → other.descriptor.visibility = .visible →
    other.hasFrame = true → other.descriptor.owner ≠ s.descriptor.owner →
    ∀ x y, ¬(other.descriptor.bounds.Covers x y ∧ s.descriptor.bounds.Covers x y)

namespace Compositor

variable {c : Compositor} {index : Nat}

theorem uncovered_of_scene (hAt : c.orderedSlots[index]? = some s)
    {x y : Int32} (h : (obscurationAbove c.sceneSnapshot index s.descriptor.owner
      s.descriptor.bounds x y).partially = false) : c.Uncovered s := by
  intro other hOther hAfter hVisible hFrame hForeign px py hCommon
  obtain ⟨place, hPlace⟩ := getElem?_of_mem (mem_orderedSlots.mpr hOther)
  obtain ⟨hBound, hEntry⟩ := List.getElem?_eq_some_iff.mp hPlace
  obtain ⟨hTarget, hSelf⟩ := List.getElem?_eq_some_iff.mp hAt
  rcases Nat.lt_trichotomy place index with hBelow | rfl | hAbove
  · -- What comes before the target in the scene is not stacked above it.
    have hSorted := pairwise_iff_getElem.mp c.orderedSlots_ascending place index hBound hTarget
      hBelow
    rw [hEntry, hSelf, hAfter] at hSorted
    cases hSorted
  · exact hForeign (by rw [← hEntry, hSelf])
  · have hMem : other.entry ∈ foreignAbove c.sceneSnapshot index s.descriptor.owner := by
      refine mem_filter.mpr ⟨?_, ?_⟩
      · refine mem_iff_getElem?.mpr ⟨place - (index + 1), ?_⟩
        have hSum : index + 1 + (place - (index + 1)) = place := by omega
        rw [getElem?_drop, hSum, sceneSnapshot, getElem?_map, hPlace]
        rfl
      · simpa [entry, hVisible, hFrame] using hForeign
    have hClear := any_eq_false.mp h _ hMem
    exact hClear (rectsOverlap_of_covers hCommon.1 hCommon.2)

theorem getD_sceneSnapshot (h : c.orderedSlots[index]? = some s) :
    c.sceneSnapshot.getD index {} = s.entry := by
  rw [sceneSnapshot, getD_eq_getElem?_getD, getElem?_map, h]
  rfl

theorem topmostIndex_eq_some {x y : Int32} (h : topmostIndex c.sceneSnapshot x y = some index) :
    ∃ s, c.orderedSlots[index]? = some s ∧ s.entry.takes x y = true := by
  have hMem := mem_of_find?_eq_some h
  have hTakes := find?_some h
  rw [mem_reverse, mem_range, sceneSnapshot, length_map] at hMem
  have hAt : c.orderedSlots[index]? = some c.orderedSlots[index] := getElem?_eq_getElem hMem
  rw [getD_sceneSnapshot hAt] at hTakes
  exact ⟨_, hAt, hTakes⟩

theorem hitTestInput_eq_ok {x y : Int32} {hit : SurfaceInputHit}
    (h : c.hitTestInput x y = .ok hit) :
    c.hitTest x y = .ok hit.surface ∧ hit.valid = true ∧
      ∃ s ∈ c.surfaces, s.entry.takes x y = true ∧ hit = hitOf s.entry x y ∧ c.Uncovered s := by
  unfold hitTestInput at h
  split_ifs at h with hValid
  split at h
  · cases h
  rename_i hIdx
  obtain ⟨s, hAt, hTakes⟩ := topmostIndex_eq_some hIdx
  rw [getD_sceneSnapshot hAt] at h
  simp only at h
  split_ifs at h with hObscured hGeometry
  cases h
  rw [Bool.or_eq_true, not_or, Bool.not_eq_true, Bool.not_eq_true] at hObscured
  refine ⟨?_, by simpa using hGeometry, s, mem_orderedSlots.mp (mem_of_getElem? hAt), hTakes,
    rfl, uncovered_of_scene hAt hObscured.2⟩
  rw [hitTest, if_neg hValid, hIdx]
  simp only [getD_sceneSnapshot hAt]
  rfl

theorem validateInputHit_eq_ok (hCoherent : c.Coherent) {hit : SurfaceInputHit}
    (h : c.validateInputHit hit = .ok ()) :
    ∃ s, c.findSlot hit.surface = some s ∧ s.answers hit = true ∧ c.Uncovered s := by
  iterate 3
    obtain ⟨-, h⟩ := guard_ok h
  split at h
  · cases h
  rename_i s hFind
  obtain ⟨hAns, h⟩ := guard_ok h
  obtain ⟨hObscured, -⟩ := guard_ok h
  have hAns : s.answers hit = true := by simpa using hAns
  refine ⟨s, hFind, hAns, ?_⟩
  obtain ⟨-, hs, hId⟩ := mem_of_findSlot hFind
  -- The scene shows the target, and no other surface under its identifier.
  have hShown : ∃ index, (c.sceneSnapshot.findIdx? fun entry => entry.surface.id == hit.surface) =
      some index ∧ c.orderedSlots[index]? = some s := by
    have hSome :
        (c.sceneSnapshot.findIdx? fun entry => entry.surface.id == hit.surface).isSome := by
      rw [findIdx?_isSome, any_eq_true]
      exact ⟨s.entry, mem_map.mpr ⟨s, mem_orderedSlots.mpr hs, rfl⟩, beq_iff_eq.mpr hId⟩
    obtain ⟨index, hIdx⟩ := Option.isSome_iff_exists.mp hSome
    obtain ⟨hBound, hMatch, -⟩ := findIdx?_eq_some_iff_getElem.mp hIdx
    have hBound' : index < c.orderedSlots.length := by
      simpa only [sceneSnapshot, length_map] using hBound
    have hAt := getElem?_eq_getElem hBound'
    refine ⟨index, hIdx, hAt.trans (congrArg some ?_)⟩
    refine hCoherent.eq_of_id (mem_orderedSlots.mp (getElem_mem hBound')) hs ?_
    simp only [sceneSnapshot, getElem_map, beq_iff_eq] at hMatch
    exact hMatch.trans hId.symm
  obtain ⟨index, hIdx, hAt⟩ := hShown
  simp only [answers, Bool.and_eq_true, beq_iff_eq] at hAns
  simp only [obscuredNow, hIdx, getD_sceneSnapshot hAt] at hObscured
  rw [Bool.or_eq_true, not_or, Bool.not_eq_true, Bool.not_eq_true] at hObscured
  have hOwner : s.descriptor.owner = hit.owner := hAns.1.1.1.1.1.1.1.1
  exact uncovered_of_scene hAt (hOwner ▸ hObscured.2)

/-- The surface `s` after a step is the surface `t` before it, and if it still shows the
same frame, it shows it at the same place. -/
structure Descends (s t : Slot) : Prop where
  id : t.descriptor.id = s.descriptor.id
  owner : t.descriptor.owner = s.descriptor.owner
  role : t.descriptor.role = s.descriptor.role
  sequence : t.frameSequence ≤ s.frameSequence
  shown : s.hasFrame = true → s.frameSequence = t.frameSequence →
    t.hasFrame = true ∧ t.descriptor.bounds = s.descriptor.bounds ∧ t.buffer = s.buffer ∧
      t.bufferSlot = s.bufferSlot

theorem Descends.refl (s : Slot) : Descends s s :=
  ⟨rfl, rfl, rfl, UInt64.le_refl _, fun hFrame _ => ⟨hFrame, rfl, rfl, rfl⟩⟩

variable {c' : Compositor}

theorem Change.descends {op : CompositorOp} (h : c.Sound) (hChange : Change c op c')
    (hs : s ∈ c'.surfaces) :
    (c.valid = true ∧ c.nextSurfaceSerial ≠ 0 ∧ s.descriptor.id =
      makeDisplayObjectValue c.objectGeneration.toUInt64 c.nextSurfaceSerial) ∨
      ∃ t ∈ c.surfaces, Descends s t := by
  cases hChange with
  | created hAdded =>
    rcases mem_cons.mp (hAdded.perm.mem_iff.mp hs) with rfl | hOld
    · exact .inl ⟨hAdded.valid, hAdded.serial, hAdded.id⟩
    · exact .inr ⟨s, hOld, .refl s⟩
  | destroyed hOwned =>
    rw [surfaces_destroySurface h.toCoherent hOwned] at hs
    exact .inr ⟨s, (mem_filter.mp hs).1, .refl s⟩
  | moved =>
    obtain ⟨t, ht, ⟨-, rfl⟩ | ⟨-, rfl⟩⟩ := mem_surfaces_modifySlot h.toCoherent hs
    · exact .inr ⟨t, ht, rfl, rfl, rfl, UInt64.le_refl _, by rintro ⟨⟩⟩
    · exact .inr ⟨s, ht, .refl s⟩
  | shown =>
    obtain ⟨t, ht, ⟨-, rfl⟩ | ⟨-, rfl⟩⟩ := mem_surfaces_modifySlot h.toCoherent hs
    · exact .inr ⟨t, ht, rfl, rfl, rfl, UInt64.le_refl _, fun hFrame _ => ⟨hFrame, rfl, rfl, rfl⟩⟩
    · exact .inr ⟨s, ht, .refl s⟩
  | activated =>
    rw [surfaces, slots_restack h.toCoherent, SlotTable.entries_map (keeps_raised.ite _).key] at hs
    obtain ⟨t, ht, rfl⟩ := mem_map.mp hs
    refine .inr ⟨t, ht, ?_⟩
    split_ifs
    · exact ⟨rfl, rfl, rfl, UInt64.le_refl _, fun hFrame _ => ⟨hFrame, rfl, rfl, rfl⟩⟩
    · exact .refl t
  | submitted hOwned _ hSeq =>
    obtain ⟨hFind, -⟩ := findOwnedSlot_eq_ok hOwned
    obtain ⟨-, hMem, hId⟩ := mem_of_findSlot hFind
    obtain ⟨t, ht, ⟨hSame, rfl⟩ | ⟨-, rfl⟩⟩ := mem_surfaces_modifySlot h.toCoherent hs
    · have hFound := h.eq_of_id ht hMem (hSame.trans hId.symm)
      rw [← hFound] at hSeq
      refine .inr ⟨t, ht, rfl, rfl, rfl, UInt64.le_of_lt hSeq, fun _ hEqual => ?_⟩
      exact absurd hEqual.symm (UInt64.ne_of_lt hSeq)
    · exact .inr ⟨s, ht, .refl s⟩
  | @invalidated buffer =>
    unfold invalidateBuffer at hs
    split_ifs at hs
    · exact .inr ⟨s, hs, .refl s⟩
    rw [surfaces, SlotTable.entries_map
      (keeps_unframed.ite fun s => (s.occupied && s.buffer == buffer) = true).key] at hs
    obtain ⟨t, ht, rfl⟩ := mem_map.mp hs
    refine .inr ⟨t, ht, ?_⟩
    split_ifs
    · exact ⟨rfl, rfl, rfl, UInt64.le_refl _, by rintro ⟨⟩⟩
    · exact .refl t
  | revoked =>
    unfold revokeProcess at hs
    split_ifs at hs
    · exact .inr ⟨s, hs, .refl s⟩
    · rw [surfaces_clearSlots] at hs
      exact .inr ⟨s, (mem_filter.mp hs).1, .refl s⟩

end Compositor

/-- The surface `s` is the surface `t`, at the same place and with the same frame. -/
structure SameTarget (t s : Slot) : Prop where
  id : s.descriptor.id = t.descriptor.id
  owner : s.descriptor.owner = t.descriptor.owner
  role : s.descriptor.role = t.descriptor.role
  bounds : s.descriptor.bounds = t.descriptor.bounds
  hasFrame : s.hasFrame = true
  frameSequence : s.frameSequence = t.frameSequence
  buffer : s.buffer = t.buffer
  bufferSlot : s.bufferSlot = t.bufferSlot

namespace DisplayRun

variable {r : DisplayRun} {t : Slot}

/-- The target `t` of a hit is in the table from the call `m` up to the call `n`. -/
structure Untouched (r : DisplayRun) (t : Slot) (m n : Nat) : Prop where
  live : ∀ k, m ≤ k → k ≤ n → ∃ s ∈ (r.reached k).surfaces, SameTarget t s
  unmoved : ∀ k caller bounds, m ≤ k → k < n →
    ¬r.Accepted k (.setBounds caller t.descriptor.id bounds)
  unsubmitted : ∀ k caller submission nowNs, m ≤ k → k < n → submission.surface = t.descriptor.id →
    ¬r.Accepted k (.submitFrame caller submission nowNs)
  undestroyed : ∀ k caller, m ≤ k → k < n → ¬r.Accepted k (.destroySurface caller t.descriptor.id)
  unreused : ∀ k descriptor, m ≤ k → k < n → r.CreatedAt k descriptor →
    descriptor.id ≠ t.descriptor.id

/-- What is known of the surface under the identifier of the target, later on. The
frame never goes back, and while it is the same the surface was not touched. -/
structure Pursued (r : DisplayRun) (t : Slot) (m n : Nat) : Prop where
  issued : Issued (r.reached n) t.descriptor.id
  later : ∀ s ∈ (r.reached n).surfaces, s.descriptor.id = t.descriptor.id →
    t.frameSequence ≤ s.frameSequence
  untouched : ∀ s ∈ (r.reached n).surfaces, s.descriptor.id = t.descriptor.id →
    s.hasFrame = true → s.frameSequence = t.frameSequence → SameTarget t s ∧ r.Untouched t m n

theorem pursued_start {m : Nat} (ht : t ∈ (r.reached m).surfaces)
    (hFrame : t.hasFrame = true) : r.Pursued t m m := by
  have hOnly : ∀ s ∈ (r.reached m).surfaces, s.descriptor.id = t.descriptor.id → s = t :=
    fun s hs hId => (r.sound_reached m).eq_of_id hs ht hId
  have hSelf : SameTarget t t := ⟨rfl, rfl, rfl, rfl, hFrame, rfl, rfl, rfl⟩
  refine ⟨(r.sound_reached m).issued t ht, ?_, ?_⟩
  · intro s hs hId
    rw [hOnly s hs hId]
    exact UInt64.le_refl _
  intro s hs hId _ _
  rw [hOnly s hs hId]
  refine ⟨hSelf, ?_, ?_, ?_, ?_, ?_⟩
  · intro k hmk hkm
    obtain rfl := Nat.le_antisymm hmk hkm
    exact ⟨t, ht, hSelf⟩
  all_goals intros; omega

/-- An identifier that has been issued is not that of a new surface. -/
theorem CreatedAt.id_ne {k : Nat} {descriptor : SurfaceDescriptor} {id : SurfaceId}
    (h : r.CreatedAt k descriptor) (hIssued : Issued (r.reached k) id) : descriptor.id ≠ id := by
  obtain ⟨v, rfl, hv⟩ := h.added
  rintro rfl
  rw [hv.id] at hIssued
  exact not_issued_next (r.sound_reached k) hv.valid hv.serial hIssued

/-- A surface that was destroyed is not in the table. -/
theorem Accepted.id_ne_destroyed {k : Nat} {caller : PeerIdentity} {surface : SurfaceId}
    (h : r.Accepted k (.destroySurface caller surface)) {s : Slot}
    (hs : s ∈ (r.reached (k + 1)).surfaces) : s.descriptor.id ≠ surface := by
  rcases r.reached_succ_cases k with ⟨-, hNot⟩ | ⟨op, hAcc, hChange⟩
  · exact absurd h (hNot _)
  obtain rfl := Option.some.inj (hAcc.1.symm.trans h.1)
  generalize r.reached (k + 1) = next at hChange hs
  cases hChange with
  | destroyed hOwned =>
    rw [surfaces_destroySurface (r.sound_reached k).toCoherent hOwned] at hs
    have hKept := (mem_filter.mp hs).2
    rw [Bool.and_eq_true, bne_iff_ne] at hKept
    exact hKept.1
  | activated _ _ _ hOp =>
    rcases hOp with ⟨_, hOp⟩ | ⟨_, _, hOp⟩
    all_goals cases hOp

theorem Untouched.extend {m n : Nat} (h : r.Untouched t m n)
    (hIssued : Issued (r.reached n) t.descriptor.id) (hs : s ∈ (r.reached (n + 1)).surfaces)
    (hSame : SameTarget t s)
    (hBounds : ∀ caller bounds, ¬r.Accepted n (.setBounds caller t.descriptor.id bounds))
    (hSubmit : ∀ caller submission nowNs, submission.surface = t.descriptor.id →
      ¬r.Accepted n (.submitFrame caller submission nowNs)) : r.Untouched t m (n + 1) := by
  constructor
  · intro k hmk hkn
    rcases Nat.le_succ_iff.mp hkn with hEarlier | rfl
    · exact h.live k hmk hEarlier
    · exact ⟨s, hs, hSame⟩
  · intro k caller bounds hmk hkn
    rcases Nat.lt_succ_iff_lt_or_eq.mp hkn with hEarlier | rfl
    · exact h.unmoved k caller bounds hmk hEarlier
    · exact hBounds caller bounds
  · intro k caller submission nowNs hmk hkn hSurface
    rcases Nat.lt_succ_iff_lt_or_eq.mp hkn with hEarlier | rfl
    · exact h.unsubmitted k caller submission nowNs hmk hEarlier hSurface
    · exact hSubmit caller submission nowNs hSurface
  · intro k caller hmk hkn hAcc
    rcases Nat.lt_succ_iff_lt_or_eq.mp hkn with hEarlier | rfl
    · exact h.undestroyed k caller hmk hEarlier hAcc
    · exact hAcc.id_ne_destroyed hs hSame.id
  intro k descriptor hmk hkn hCreated
  rcases Nat.lt_succ_iff_lt_or_eq.mp hkn with hEarlier | rfl
  · exact h.unreused k descriptor hmk hEarlier hCreated
  · exact hCreated.id_ne hIssued

theorem SameTarget.of_descends {v : Slot} (h : SameTarget t v)
    (hDescends : Compositor.Descends s v) (hFrame : s.hasFrame = true)
    (hSeq : s.frameSequence = v.frameSequence) : SameTarget t s := by
  obtain ⟨-, hBounds, hBuf, hBufSlot⟩ := hDescends.shown hFrame hSeq
  exact ⟨hDescends.id.symm.trans h.id, hDescends.owner.symm.trans h.owner,
    hDescends.role.symm.trans h.role, hBounds.symm.trans h.bounds, hFrame,
    hSeq.trans h.frameSequence, hBuf.symm.trans h.buffer,
    hBufSlot.symm.trans h.bufferSlot⟩

theorem Pursued.succ {m n : Nat} (h : r.Pursued t m n) : r.Pursued t m (n + 1) := by
  have hIssued := issued_reached (Nat.le_succ n) h.issued
  rcases r.reached_succ_cases n with ⟨hStill, hNot⟩ | ⟨op, hAcc, hChange⟩
  · refine ⟨hIssued, ?_, ?_⟩
    · rw [hStill]
      exact h.later
    · intro s hs hId hFrame hSeq
      obtain ⟨hSame, hUntouched⟩ := h.untouched s (hStill ▸ hs) hId hFrame hSeq
      exact ⟨hSame, hUntouched.extend h.issued hs hSame (fun _ _ => hNot _) fun _ _ _ _ => hNot _⟩
  have hSound := r.sound_reached n
  have hOnly : ∀ op', r.Accepted n op' → op = op' := fun op' hAcc' =>
    Option.some.inj (hAcc.1.symm.trans hAcc'.1)
  -- The identifier has been issued, so that the surface was in the table before.
  have hBefore : ∀ s ∈ (r.reached (n + 1)).surfaces, s.descriptor.id = t.descriptor.id →
      ∃ v ∈ (r.reached n).surfaces, Compositor.Descends s v := by
    intro s hs hId
    rcases hChange.descends hSound hs with ⟨hValid, hSerial, hNew⟩ | hOld
    · have hAgain := h.issued
      rw [← hId, hNew] at hAgain
      exact absurd hAgain (not_issued_next hSound hValid hSerial)
    · exact hOld
  refine ⟨hIssued, ?_, ?_⟩
  · intro s hs hId
    obtain ⟨v, hv, hDescends⟩ := hBefore s hs hId
    exact UInt64.le_trans (h.later v hv (hDescends.id.trans hId)) hDescends.sequence
  intro s hs hId hFrame hSeq
  obtain ⟨v, hv, hDescends⟩ := hBefore s hs hId
  have hOldId := hDescends.id.trans hId
  have hOldSeq : v.frameSequence = t.frameSequence :=
    UInt64.le_antisymm (hSeq ▸ hDescends.sequence) (h.later v hv hOldId)
  have hUnchanged : s.frameSequence = v.frameSequence := hSeq.trans hOldSeq.symm
  obtain ⟨hOldFrame, -⟩ := hDescends.shown hFrame hUnchanged
  obtain ⟨hOldSame, hUntouched⟩ := h.untouched v hv hOldId hOldFrame hOldSeq
  have hSame := SameTarget.of_descends hOldSame hDescends hFrame hUnchanged
  refine ⟨hSame, hUntouched.extend h.issued hs hSame ?_ ?_⟩
  · intro caller bounds hMoved
    cases hChange.origin hSound hs with
    | fresh _ _ _ hBlank => simp [hBlank] at hFrame
    | kept _ _ _ hKept => exact (hKept hFrame).2.2 caller bounds (hId ▸ hOnly _ hMoved)
    | submitted _ _ hCall => cases hCall.symm.trans (hOnly _ hMoved)
  · intro caller submission nowNs hSurface hSubmitted
    cases hChange.origin hSound hs with
    | fresh _ _ _ hBlank => simp [hBlank] at hFrame
    | kept _ _ _ _ hOther =>
      exact hOther caller submission nowNs (hOnly _ hSubmitted) (hSurface.trans hId.symm)
    | submitted hMem hSameId _ _ hLater hSubmittedSeq =>
      obtain rfl := hSound.eq_of_id hMem hv (hSameId.trans hDescends.id.symm)
      rw [← hSubmittedSeq, hUnchanged] at hLater
      exact UInt64.lt_irrefl _ hLater

theorem pursued_reached {m n : Nat} (hmn : m ≤ n) (ht : t ∈ (r.reached m).surfaces)
    (hFrame : t.hasFrame = true) : r.Pursued t m n := by
  induction hmn with
  | refl => exact pursued_start ht hFrame
  | step _ ih => exact ih.succ

/-- The local coordinate is the distance from the origin of the surface. -/
theorem toInt_local {x origin : Int32} (hLow : origin.toInt ≤ x.toInt) (hZero : 0 ≤ origin.toInt) :
    origin.toInt + (x.toInt64 - origin.toInt64).toInt32.toInt = x.toInt := by
  have hx := x.toInt_lt
  rw [Int64.toInt32_sub, toInt32_toInt64, toInt32_toInt64, toInt_sub,
    Int.bmod_eq_of_le (by omega) (by omega)]
  omega

/-- In every run input goes to the surface that the plain hit test names, which nothing
of another owner reaches over. When the hit is accepted later on, its target is still
the same surface at the same place with the same frame, the point is where it was, and
nothing of another owner has come over it. -/
theorem input_reaches_what_was_aimed_at (r : DisplayRun) :
    (∀ n x y hit, (r.reached n).hitTestInput x y = .ok hit →
      (r.reached n).hitTest x y = .ok hit.surface ∧
        ∃ t ∈ (r.reached n).surfaces, t.descriptor.id = hit.surface ∧ (r.reached n).Uncovered t) ∧
      ∀ m n x y hit, m ≤ n → (r.reached m).hitTestInput x y = .ok hit →
        (r.reached n).validateInputHit hit = .ok () →
        ∃ t ∈ (r.reached m).surfaces, hit = Compositor.hitOf t.entry x y ∧ r.Untouched t m n ∧
          ∃ s ∈ (r.reached n).surfaces, SameTarget t s ∧
            s.descriptor.bounds.Covers x.toInt y.toInt ∧
            s.descriptor.bounds.x.toInt + hit.localX.toInt = x.toInt ∧
            s.descriptor.bounds.y.toInt + hit.localY.toInt = y.toInt ∧
            (r.reached n).Uncovered s := by
  constructor
  · intro n x y hit hHit
    obtain ⟨hPlain, -, t, ht, -, rfl, hUncovered⟩ := hitTestInput_eq_ok hHit
    exact ⟨hPlain, t, ht, rfl, hUncovered⟩
  · intro m n x y hit hmn hHit hAcc
    obtain ⟨-, -, t, ht, hTakes, rfl, -⟩ := hitTestInput_eq_ok hHit
    obtain ⟨s, hFind, hAns, hUncovered⟩ :=
      validateInputHit_eq_ok (r.sound_reached n).toCoherent hAcc
    obtain ⟨-, hs, hId⟩ := mem_of_findSlot hFind
    simp only [SceneEntry.takes, Bool.and_eq_true] at hTakes
    simp only [answers, Bool.and_eq_true, beq_iff_eq] at hAns
    obtain ⟨⟨⟨⟨⟨-, hFrame⟩, hSeq⟩, -⟩, -⟩, -⟩ := hAns
    obtain ⟨hSame, hUntouched⟩ := (pursued_reached hmn ht hTakes.1.2).untouched s hs hId hFrame hSeq
    have hCovers : t.descriptor.bounds.Covers x.toInt y.toInt := pointInside_iff.mp hTakes.2
    obtain ⟨hX, hY, -⟩ := (r.sound_reached m).inside t ht
    refine ⟨t, ht, rfl, hUntouched, s, hs, hSame, ?_, ?_, ?_, hUncovered⟩
    · rw [hSame.bounds]
      exact hCovers
    · rw [hSame.bounds]
      exact toInt_local hCovers.1 hX
    · rw [hSame.bounds]
      exact toInt_local hCovers.2.2.1 hY

end DisplayRun

end Enml.OsDisplay
