import Enml.Invariant.TreeEdits

/-! Nodes that come and go: adding a leaf, and removing a subtree. -/
namespace Enml.OsUi

open ParentLinks List SlotTable Slot UiNodeDescriptor

namespace SemanticTree

variable {t : SemanticTree} {k : UiNodeId} {d : UiNodeDescriptor}
  {spec : UiNodeSpec} {e : UiNodeDescriptor}

/-- The tree with one more node, a leaf. -/
structure Grown (t : SemanticTree) (d : UiNodeDescriptor) (t' : SemanticTree) : Prop where
  sound : t'.Sound
  id : d.id = t.nextId
  named : t.nextId ≠ 0
  nextId : t'.nextId = t.nextId + 1
  mem : d ∈ t'.nodes
  ids : (t'.nodes.map UiNodeDescriptor.id).Perm (d.id :: t.nodes.map UiNodeDescriptor.id)
  clean : ∀ e ∈ t'.clean, e ∈ t.clean
  removedDirty : t'.removedDirty = t.removedDirty
  dirtyOverflow : t'.dirtyOverflow = t.dirtyOverflow
  raised : Raised t t'
  revision : t.revision ≤ t'.revision
  shown : ∀ c, c ≠ d.id → (Shown t'.nodes c ↔ Shown t.nodes c)

theorem entries_slots (slots : List Slot) : entries key slots = slots.filter occupied := by
  unfold entries
  congr 1
  funext s
  unfold key
  split <;> simp_all

theorem childCount_eq (t : SemanticTree) (k : UiNodeId) :
    t.childCount k = t.nodes.countP fun d => d.parent == k := by
  rw [childCount, nodes, countP_map, countP_filter]
  refine countP_congr fun s _ => ?_
  simp [and_comm]

/-- What `add` has checked of a specification makes the node valid. -/
theorem checkSpec_eq_ok {u : Unit} (h : checkSpec spec = .ok u) :
    spec.role ≠ .root ∧ spec.bounds.bounded = true ∧ styleTokenValid spec.style = true ∧
      actionsValid spec.role spec.actions = true ∧
      labelValidForRole spec.role spec.label spec.accessibilityHidden = true ∧
      stateValid spec.role spec.actions spec.state = true := by
  obtain ⟨-, h⟩ | ⟨hRole, h⟩ := ite_eq_iff.mp h
  · simp at h
  obtain ⟨-, h⟩ | ⟨hBounds, h⟩ := ite_eq_iff.mp h
  · simp at h
  obtain ⟨-, h⟩ | ⟨hStyle, h⟩ := ite_eq_iff.mp h
  · simp at h
  obtain ⟨-, h⟩ | ⟨hActions, h⟩ := ite_eq_iff.mp h
  · simp at h
  obtain ⟨-, h⟩ | ⟨-, h⟩ := ite_eq_iff.mp h
  · simp at h
  obtain ⟨-, h⟩ | ⟨hLabel, h⟩ := ite_eq_iff.mp h
  · simp at h
  obtain ⟨-, h⟩ | ⟨hState, -⟩ := ite_eq_iff.mp h
  · simp at h
  exact ⟨hRole, by simpa using hBounds, by simpa using hStyle, by simpa using hActions,
    by simpa using hLabel, by simpa using hState⟩

theorem checkPlace_eq_ok {parent : UiNodeId} {slot : Slot} {u : Unit}
    (h : t.checkPlace parent slot spec = .ok u) :
    roleCanHaveChildren slot.descriptor.spec.role = true ∧
      t.childCount parent < maxUiChildrenPerNode ∧ slot.descriptor.depth < maxUiDepth ∧
      t.nextId ≠ 0 ∧ (spec.state.focused = true → t.effectivelyVisible slot = true) := by
  obtain ⟨-, h⟩ | ⟨hKind, h⟩ := ite_eq_iff.mp h
  · simp at h
  obtain ⟨-, h⟩ | ⟨hRoom, h⟩ := ite_eq_iff.mp h
  · simp at h
  obtain ⟨-, h⟩ | ⟨hDepth, h⟩ := ite_eq_iff.mp h
  · simp at h
  obtain ⟨-, h⟩ | ⟨-, h⟩ := ite_eq_iff.mp h
  · simp at h
  obtain ⟨-, h⟩ | ⟨hNext, h⟩ := ite_eq_iff.mp h
  · simp at h
  obtain ⟨-, h⟩ | ⟨hFocus, -⟩ := ite_eq_iff.mp h
  · simp at h
  refine ⟨by simpa using hKind, by omega, by omega, hNext, ?_⟩
  intro hFocused
  simpa [hFocused] using hFocus

section Insert

variable {slots : List Slot}
  (hIns : insert key { occupied := true, dirty := true, descriptor := d } t.slots = some slots)

include hIns

theorem nodes_withNode : (t.withNode slots d.spec).nodes.Perm (d :: t.nodes) := by
  have hEnts : (entries key slots).Perm _ := entries_insert rfl hIns
  rw [entries_slots, entries_slots] at hEnts
  exact hEnts.map descriptor

theorem mem_clean_withNode (he : e ∈ (t.withNode slots d.spec).clean) : e ∈ t.clean := by
  obtain ⟨s, hs, hOcc, hDirty, rfl⟩ := mem_clean.mp he
  have hKey : s.key ≠ none := by simp [key, hOcc]
  rcases (mem_insert hIns hKey).mp hs with hOld | rfl
  · exact mem_clean.mpr ⟨s, hOld, hOcc, hDirty, rfl⟩
  · simp at hDirty

/-- A leaf in a free slot, under a parent that may have it. -/
theorem Sound.grown (h : t.Sound) (hValid : NodeValid d) (hRole : d.spec.role ≠ .root)
    (hId : d.id = t.nextId) {p : UiNodeDescriptor} (hp : p ∈ t.nodes) (hPar : p.id = d.parent)
    (hKind : roleCanHaveChildren p.spec.role = true) (hDepth : d.depth = p.depth + 1)
    (hRoom : t.childCount d.parent < maxUiChildrenPerNode)
    (hFocus : d.spec.state.focused = true → t.focused = 0 ∧ Shown t.nodes d.parent) :
    Grown t d (t.withNode slots d.spec) := by
  have hNext : t.nextId ≠ 0 := hId ▸ hValid.named
  have hFresh : ∀ e ∈ t.nodes, e.id < d.id := fun e he => hId ▸ h.fresh hNext e he
  have hPerm := nodes_withNode hIns
  have hWell : WellFormed (d :: t.nodes) := by
    refine h.nodes.cons hValid hFresh hRole hp hPar hKind hDepth ?_
    rw [← childCount_eq]
    exact hRoom
  have hChildless : ∀ e ∈ t.nodes, e.parent ≠ d.id := by
    intro e he hSame
    by_cases hRoot : e.id = 1
    · exact hValid.named (hSame.symm.trans (h.nodes.root e he hRoot).2.1)
    · obtain ⟨-, q, hq, hqId, -⟩ := h.nodes.child e he hRoot
      exact UInt32.ne_of_lt (hFresh q hq) (hqId.trans hSame)
  have hShown : ∀ c, c ≠ d.id → (Shown (t.withNode slots d.spec).nodes c ↔ Shown t.nodes c) := by
    intro c hc
    unfold Shown
    rw [Links.allAbove_congr (fun e => hPerm.mem_iff)]
    exact Links.allAbove_cons (L := nodeLinks) hChildless hc
  have hMem : d ∈ (t.withNode slots d.spec).nodes := hPerm.mem_iff.mpr mem_cons_self
  have hNodes : WellFormed (t.withNode slots d.spec).nodes := hWell.perm hPerm.symm
  have hParNe : d.parent ≠ d.id := hPar ▸ UInt32.ne_of_lt (hFresh p hp)
  exact {
    sound := {
      valid := h.valid
      rootId := h.rootId
      capacity := (length_insert hIns).trans h.capacity
      nodes := hNodes
      counted := by
        rw [hPerm.length_eq, length_cons, ← h.counted]
        rfl
      fresh := by
        intro hMore e he
        have hStep : t.nextId < t.nextId + 1 := by
          refine UInt32.lt_add_one fun hLast => hMore ?_
          show t.nextId + 1 = 0
          rw [hLast]
          rfl
        rcases mem_cons.mp (hPerm.mem_iff.mp he) with rfl | hOld
        · exact hId ▸ hStep
        · exact UInt32.lt_trans (h.fresh hNext e hOld) hStep
      named := by
        intro e he hFlag
        show e.id = if d.spec.state.focused then t.nextId else t.focused
        rcases mem_cons.mp (hPerm.mem_iff.mp he) with rfl | hOld
        · rw [if_pos hFlag, hId]
        have hNamed := h.named e hOld hFlag
        have hNot : ¬ d.spec.state.focused = true := fun hNew =>
          (h.nodes.valid e hOld).named (hNamed.trans (hFocus hNew).1)
        rw [if_neg hNot]
        exact hNamed
      honest := by
        show (if d.spec.state.focused then t.nextId else t.focused) ≠ 0 → _
        intro hSome
        by_cases hNew : d.spec.state.focused = true
        · refine ⟨d, hMem, ?_, hNew, ?_⟩
          · show d.id = if d.spec.state.focused then t.nextId else t.focused
            rw [if_pos hNew, hId]
          · rw [hNodes.shown_iff hMem, hShown d.parent hParNe]
            exact ⟨(stateValid_focused hValid.state hNew).1, .inr (hFocus hNew).2⟩
        · rw [if_neg hNew] at hSome
          obtain ⟨e, he, heId, hFlag, hSeen⟩ := h.honest hSome
          refine ⟨e, hPerm.mem_iff.mpr (mem_cons_of_mem d he), ?_, hFlag, ?_⟩
          · show e.id = if d.spec.state.focused then t.nextId else t.focused
            rw [if_neg hNew]
            exact heId
          · exact (hShown e.id (UInt32.ne_of_lt (hFresh e he))).mpr hSeen
      started := bumped_pos h.started
      fits := bumped_le h.fits }
    id := hId
    named := hNext
    nextId := rfl
    mem := hMem
    ids := hPerm.map UiNodeDescriptor.id
    clean := fun e he => mem_clean_withNode hIns he
    removedDirty := rfl
    dirtyOverflow := rfl
    raised := bumped_raises t.revision
    revision := le_bumped t.revision
    shown := hShown }

end Insert

/-- Growth after the focus has been settled is growth. -/
theorem Grown.after {t₁ t' : SemanticTree} (hSteady : Steady t t₁) (h : Grown t₁ d t') :
    Grown t d t' where
  sound := h.sound
  id := h.id.trans hSteady.retouch.nextId
  named := hSteady.retouch.nextId ▸ h.named
  nextId := by rw [h.nextId, hSteady.retouch.nextId]
  mem := h.mem
  ids := by
    rw [← hSteady.retouch.ids]
    exact h.ids
  clean := fun e he => hSteady.retouch.clean e (h.clean e he)
  removedDirty := h.removedDirty.trans hSteady.retouch.removedDirty
  dirtyOverflow := h.dirtyOverflow.trans hSteady.retouch.dirtyOverflow
  raised := by
    have hLe := hSteady.retouch.revision
    have hRaised := h.raised
    have hMore := h.revision
    unfold Raised at hRaised ⊢
    omega
  revision := le_trans hSteady.retouch.revision h.revision
  shown := fun c hc => (h.shown c hc).trans (hSteady.shown c)

theorem Sound.childCount_clearFocus (h : t.Sound) (k : UiNodeId) :
    t.clearFocus.childCount k = t.childCount k := by
  rw [childCount_eq, childCount_eq, h.nodes_clearFocus, countP_map]
  rfl

theorem Sound.store_cases (h : t.Sound) (hValid : NodeValid d) (hRole : d.spec.role ≠ .root)
    (hId : d.id = t.nextId) {slot : Slot} (hFound : t.find d.parent = some slot)
    (hKind : roleCanHaveChildren slot.descriptor.spec.role = true)
    (hDepth : d.depth = slot.descriptor.depth + 1)
    (hRoom : t.childCount d.parent < maxUiChildrenPerNode)
    (hVisible : d.spec.state.focused = true → Shown t.nodes d.parent) :
    (∃ e, t.store d = (t, .error e)) ∨ ∃ t', t.store d = (t', .ok d) ∧ Grown t d t' := by
  unfold store
  generalize hSettled : (if d.spec.state.focused && t.focused != 0 then t.clearFocus else t) = t₁
  have hReleased : t₁ = t ∨ t₁ = t.clearFocus := by
    rw [← hSettled]
    split
    · exact .inr rfl
    · exact .inl rfl
  have hFree : d.spec.state.focused = true → t₁.focused = 0 := by
    intro hFocused
    rw [← hSettled]
    split
    · rfl
    next hNone => simpa [hFocused] using hNone
  have hChildren : t₁.childCount d.parent = t.childCount d.parent := by
    rcases hReleased with rfl | rfl
    · rfl
    · exact h.childCount_clearFocus d.parent
  obtain ⟨hSteady, p, hp, hpId, hSame⟩ := h.find_released hFound hReleased
  have hpRole : p.spec.role = slot.descriptor.spec.role := congrArg (fun d => d.spec.role) hSame
  have hpDepth : p.depth = slot.descriptor.depth := congrArg (fun d => d.depth) hSame
  simp only []
  split
  · exact .inl ⟨_, rfl⟩
  rename_i slots hIns
  refine .inr ⟨_, rfl, Grown.after hSteady ?_⟩
  refine hSteady.sound.grown hIns hValid hRole (hId.trans hSteady.retouch.nextId.symm) hp hpId
    (hpRole ▸ hKind) (hpDepth ▸ hDepth) (hChildren ▸ hRoom) ?_
  intro hFocused
  exact ⟨hFree hFocused, (hSteady.shown _).mpr (hVisible hFocused)⟩

/-- A call of `add` is refused with the tree unchanged, or grows it by a leaf. -/
theorem Sound.add_cases (h : t.Sound) (parent : UiNodeId) (spec : UiNodeSpec) :
    (∃ e, t.add parent spec = (t, .error e)) ∨
      ∃ d t', t.add parent spec = (t', .ok d) ∧ Grown t d t' := by
  unfold add
  split
  · exact .inl ⟨_, rfl⟩
  split
  · exact .inl ⟨_, rfl⟩
  rename_i hSpec
  split
  · exact .inl ⟨_, rfl⟩
  rename_i slot hFound
  split
  · exact .inl ⟨_, rfl⟩
  rename_i hPlace
  obtain ⟨hRole, hBounds, hStyle, hActions, hLabel, hState⟩ := checkSpec_eq_ok hSpec
  obtain ⟨hKind, hRoom, hDepth, hNext, hVisible⟩ := checkPlace_eq_ok hPlace
  obtain ⟨hs, hId⟩ := mem_of_find h.nodes hFound
  have hValid : NodeValid (t.placed parent slot spec) :=
    ⟨hNext, hDepth, hBounds, hStyle, hActions, hLabel, hState⟩
  have hStored := h.store_cases hValid hRole rfl hFound hKind rfl hRoom fun hFocused => by
    have hShown := (effectivelyVisible_iff h.nodes hs).mp (hVisible hFocused)
    rwa [hId] at hShown
  refine hStored.imp_right ?_
  rintro ⟨t', hRes, hGrown⟩
  exact ⟨_, t', hRes, hGrown⟩

/-- The tree without a node and its descendants. -/
structure Pruned (t : SemanticTree) (node : UiNodeId) (t' : SemanticTree) : Prop where
  sound : t'.Sound
  nextId : t'.nextId = t.nextId
  mem : ∀ d, d ∈ t'.nodes ↔ d ∈ t.nodes ∧ ¬ InSubtree t.nodes d.id node
  clean : ∀ d ∈ t'.clean, d ∈ t.clean
  gone : ∀ d ∈ t.nodes, InSubtree t.nodes d.id node →
    d.id ∈ t'.removedDirty ∨ t'.dirtyOverflow = true
  removedDirty : ∃ ids, t'.removedDirty = t.removedDirty ++ ids ∧ ids.Nodup ∧
    ∀ k ∈ ids, ∃ d ∈ t.nodes, d.id = k ∧ InSubtree t.nodes d.id node
  room : t.removedDirty.length ≤ maxUiNodes → t'.removedDirty.length ≤ maxUiNodes
  dirtyOverflow : t.dirtyOverflow = true → t'.dirtyOverflow = true
  raised : Raised t t'
  revision : t.revision ≤ t'.revision
  shown : ∀ d ∈ t'.nodes, Shown t'.nodes d.id ↔ Shown t.nodes d.id

/-- What the loop over the nodes that go does to the rest of the tree. -/
structure Forgotten (t : SemanticTree) (ids : List UiNodeId) (t' : SemanticTree) : Prop where
  slots : t'.slots = t.slots
  rootId : t'.rootId = t.rootId
  nextId : t'.nextId = t.nextId
  nodeCount : t'.nodeCount = t.nodeCount
  revision : t'.revision = t.revision
  valid : t'.valid = t.valid
  focused : t'.focused = if t.focused ∈ ids then 0 else t.focused
  removedDirty : ∃ recorded, t'.removedDirty = t.removedDirty ++ recorded ∧ recorded.Sublist ids
  gone : ∀ k ∈ ids, k ∈ t'.removedDirty ∨ t'.dirtyOverflow = true
  dirtyOverflow : t.dirtyOverflow = true → t'.dirtyOverflow = true
  room : t.removedDirty.length ≤ maxUiNodes → t'.removedDirty.length ≤ maxUiNodes

theorem forgotten_one (t : SemanticTree) (k : UiNodeId) : Forgotten t [k] (t.forget k) := by
  have hFocused : (t.recordRemoved k).focused = t.focused := by
    unfold recordRemoved
    split <;> rfl
  have hRec : ∃ recorded, (t.recordRemoved k).removedDirty = t.removedDirty ++ recorded ∧
      recorded.Sublist [k] := by
    unfold recordRemoved
    split
    · exact ⟨[k], rfl, List.Sublist.refl _⟩
    · exact ⟨[], by simp, nil_sublist _⟩
  have hGone : k ∈ (t.recordRemoved k).removedDirty ∨ (t.recordRemoved k).dirtyOverflow = true := by
    unfold recordRemoved
    split
    · exact .inl (by simp)
    · exact .inr rfl
  have hOverflow : t.dirtyOverflow = true → (t.recordRemoved k).dirtyOverflow = true := by
    intro hAlready
    unfold recordRemoved
    split
    · exact hAlready
    · rfl
  have hRoom : t.removedDirty.length ≤ maxUiNodes →
      (t.recordRemoved k).removedDirty.length ≤ maxUiNodes := by
    intro hFits
    unfold recordRemoved
    split
    next hMore =>
        rw [length_append]
        exact hMore
    · exact hFits
  have hRest : (t.recordRemoved k).slots = t.slots ∧ (t.recordRemoved k).rootId = t.rootId ∧
      (t.recordRemoved k).nextId = t.nextId ∧ (t.recordRemoved k).nodeCount = t.nodeCount ∧
      (t.recordRemoved k).revision = t.revision ∧ (t.recordRemoved k).valid = t.valid := by
    unfold recordRemoved
    split <;> exact ⟨rfl, rfl, rfl, rfl, rfl, rfl⟩
  obtain ⟨hSlots, hRoot, hNext, hCnt, hRevision, hValid⟩ := hRest
  simp only [forget, hFocused]
  split
  next hHere =>
      exact ⟨hSlots, hRoot, hNext, hCnt, hRevision, hValid, by simp [hHere], hRec,
        by simpa using hGone, hOverflow, hRoom⟩
  next hElsewhere =>
      exact ⟨hSlots, hRoot, hNext, hCnt, hRevision, hValid,
        by simp [hFocused, Ne.symm hElsewhere], hRec, by simpa using hGone, hOverflow, hRoom⟩

theorem forgotten_foldl (t : SemanticTree) (ids : List UiNodeId) :
    Forgotten t ids (ids.foldl forget t) := by
  induction ids generalizing t with
  | nil =>
    exact ⟨rfl, rfl, rfl, rfl, rfl, rfl, by simp, ⟨[], by simp, List.Sublist.refl _⟩,
      by simp, fun hAlready => hAlready, fun hFits => hFits⟩
  | cons k rest ih =>
    have hFirst := forgotten_one t k
    have hRest := ih (t.forget k)
    obtain ⟨first, hFirstRec, hFirstSub⟩ := hFirst.removedDirty
    obtain ⟨second, hSndRec, hSndSub⟩ := hRest.removedDirty
    have hKept : ∀ j ∈ (t.forget k).removedDirty,
        j ∈ (rest.foldl forget (t.forget k)).removedDirty := by
      intro j hj
      rw [hSndRec]
      exact mem_append_left _ hj
    exact {
      slots := hRest.slots.trans hFirst.slots
      rootId := hRest.rootId.trans hFirst.rootId
      nextId := hRest.nextId.trans hFirst.nextId
      nodeCount := hRest.nodeCount.trans hFirst.nodeCount
      revision := hRest.revision.trans hFirst.revision
      valid := hRest.valid.trans hFirst.valid
      focused := by
        rw [foldl_cons, hRest.focused, hFirst.focused]
        by_cases hHere : t.focused = k
        all_goals simp [hHere]
      removedDirty := by
        refine ⟨first ++ second, ?_, hFirstSub.append hSndSub⟩
        rw [foldl_cons, hSndRec, hFirstRec, append_assoc]
      gone := by
        intro j hj
        rcases mem_cons.mp hj with rfl | hj
        · rcases hFirst.gone j mem_cons_self with hRecorded | hFull
          · exact .inl (hKept j hRecorded)
          · exact .inr (hRest.dirtyOverflow hFull)
        · exact hRest.gone j hj
      dirtyOverflow := fun hAlready => hRest.dirtyOverflow (hFirst.dirtyOverflow hAlready)
      room := fun hFits => hRest.room (hFirst.room hFits) }

/-- The ids of the nodes that go with a node. -/
def doomedIds (t : SemanticTree) (node : UiNodeId) : List UiNodeId :=
  (t.slots.filter (t.inSubtree node)).map fun slot => slot.descriptor.id

theorem forgotten_withoutSubtree (t : SemanticTree) (node : UiNodeId) :
    Forgotten
      { t with
        slots := t.slots.map fun slot => if t.inSubtree node slot then {} else slot
        nodeCount := t.nodeCount - (t.slots.filter (t.inSubtree node)).length
        revision := bumped t.revision }
      (t.doomedIds node) (t.withoutSubtree node) := by
  have hFold := forgotten_foldl
    { t with
      slots := t.slots.map fun slot => if t.inSubtree node slot then {} else slot
      nodeCount := t.nodeCount - (t.slots.filter (t.inSubtree node)).length
      revision := bumped t.revision } (t.doomedIds node)
  rw [doomedIds, foldl_map] at hFold
  exact hFold

section Remove

variable {node : UiNodeId} (hNodes : WellFormed t.nodes)

include hNodes

theorem mem_doomedIds :
    k ∈ t.doomedIds node ↔ ∃ d ∈ t.nodes, d.id = k ∧ InSubtree t.nodes d.id node := by
  simp only [doomedIds, mem_map, mem_filter]
  constructor
  · rintro ⟨s, ⟨hs, hIn⟩, rfl⟩
    obtain ⟨hOcc, hBelow⟩ := (inSubtree_eq_true_iff hNodes hs).mp hIn
    exact ⟨s.descriptor, mem_nodes.mpr ⟨s, hs, hOcc, rfl⟩, rfl, hBelow⟩
  · rintro ⟨d, hd, rfl, hBelow⟩
    obtain ⟨s, hs, hOcc, rfl⟩ := mem_nodes.mp hd
    exact ⟨s, ⟨hs, (inSubtree_eq_true_iff hNodes hs).mpr ⟨hOcc, hBelow⟩⟩, rfl⟩

omit hNodes in
theorem doomedIds_sublist : (t.doomedIds node).Sublist (t.nodes.map UiNodeDescriptor.id) := by
  unfold doomedIds nodes
  rw [map_map]
  refine List.Sublist.map _ (monotone_filter_right _ fun s hs => ?_)
  exact (Bool.and_eq_true _ _ ▸ hs : s.occupied = true ∧ _).1

omit hNodes in
theorem mem_slots_withoutSubtree {s : Slot} (hOcc : s.occupied = true) :
    s ∈ (t.withoutSubtree node).slots ↔ s ∈ t.slots ∧ t.inSubtree node s = false := by
  rw [(forgotten_withoutSubtree t node).slots]
  simp only [mem_map]
  constructor
  · rintro ⟨s', hs', rfl⟩
    cases hIn : t.inSubtree node s' with
    | true =>
      rw [hIn] at hOcc
      simp at hOcc
    | false => exact ⟨hs', by simp [hIn]⟩
  · rintro ⟨hs, hOut⟩
    exact ⟨s, hs, by simp [hOut]⟩

theorem nodes_withoutSubtree {keep : UiNodeDescriptor → Bool}
    (hKeep : ∀ d, keep d = true ↔ ¬ InSubtree t.nodes d.id node) :
    (t.withoutSubtree node).nodes = t.nodes.filter keep := by
  unfold nodes
  rw [(forgotten_withoutSubtree t node).slots]
  have hLoop : ∀ slots : List Slot, (∀ s ∈ slots, s ∈ t.slots) →
      ((slots.map fun slot => if t.inSubtree node slot then ({} : Slot) else slot).filter
        occupied).map descriptor =
      ((slots.filter occupied).map descriptor).filter keep := by
    intro slots hSub
    induction slots with
    | nil => rfl
    | cons s _ ih =>
      have hRest := ih fun x hx => hSub x (mem_cons_of_mem s hx)
      have hIff := inSubtree_eq_true_iff (a := node) hNodes (hSub s mem_cons_self)
      cases hOcc : s.occupied with
      | false =>
        have hOut : t.inSubtree node s = false := by simp [inSubtree, hOcc]
        simp [hOut, hOcc, hRest]
      | true =>
        cases hIn : t.inSubtree node s with
        | true =>
          have hDrop : keep s.descriptor = false := by
            have hBelow := (hIff.mp hIn).2
            cases hKept : keep s.descriptor with
            | false => rfl
            | true => exact absurd hBelow ((hKeep _).mp hKept)
          simp [hIn, hOcc, hDrop, hRest]
        | false =>
          have hStay : keep s.descriptor = true := by
            rw [hKeep]
            intro hBelow
            rw [hIff.mpr ⟨hOcc, hBelow⟩] at hIn
            simp at hIn
          simp [hIn, hOcc, hStay, hRest]
  exact hLoop t.slots fun s hs => hs

/-- Whatever is neither the node nor below it has its parent among the like. -/
theorem not_inSubtree_parent (hd : d ∈ t.nodes) (hOut : ¬ InSubtree t.nodes d.id node)
    (he : e ∈ t.nodes) (hPar : e.id = d.parent) :
    ¬ InSubtree t.nodes e.id node := by
  intro hBelow
  refine hOut ((hNodes.inSubtree_iff hd).mpr (.inr ⟨?_, hPar ▸ hBelow⟩))
  exact hPar ▸ (hNodes.valid e he).named

/-- The root is in no other node's subtree. -/
theorem root_not_inSubtree (hd : d ∈ t.nodes) (hRoot : d.id = 1) (hNode : node ≠ 1) :
    ¬ InSubtree t.nodes d.id node := by
  rw [hNodes.inSubtree_iff hd, (hNodes.root d hd hRoot).2.1, hRoot]
  rintro (hSame | ⟨hTop, -⟩)
  · exact hNode hSame.symm
  · exact hTop rfl

omit hNodes in
theorem length_withoutSubtree (t : SemanticTree) (node : UiNodeId) :
    (t.slots.filter (t.inSubtree node)).length + (t.withoutSubtree node).nodes.length =
      t.nodes.length := by
  unfold nodes
  rw [(forgotten_withoutSubtree t node).slots, length_map, length_map]
  have hLoop : ∀ slots : List Slot, (slots.filter (t.inSubtree node)).length +
        ((slots.map fun slot => if t.inSubtree node slot then ({} : Slot) else slot).filter
          occupied).length = (slots.filter occupied).length := by
    intro slots
    induction slots with
    | nil => rfl
    | cons s =>
      cases hIn : t.inSubtree node s with
      | true =>
        have hOcc : s.occupied = true := by
          rw [inSubtree, Bool.and_eq_true] at hIn
          exact hIn.1
        simp only [filter_cons, map_cons, hIn, hOcc, if_true, length_cons]
        simp only [Bool.false_eq_true, if_false]
        omega
      | false =>
        cases hOcc : s.occupied <;>
          simp only [filter_cons, map_cons, hIn, hOcc, Bool.false_eq_true,
            if_false, if_true, length_cons] <;> omega
  exact hLoop t.slots

end Remove

/-- A subtree below the root goes as a whole, and everything else stays. -/
theorem Sound.pruned (h : t.Sound) {node : UiNodeId} (hNode : node ≠ 1) :
    Pruned t node (t.withoutSubtree node) := by
  classical
  have hNodes := h.nodes
  have hFacts := forgotten_withoutSubtree t node
  let keep : UiNodeDescriptor → Bool := fun d => decide (¬ InSubtree t.nodes d.id node)
  have hKeep : ∀ d, keep d = true ↔ ¬ InSubtree t.nodes d.id node := fun d => decide_eq_true_iff
  have hFiltered := nodes_withoutSubtree (t := t) hNodes hKeep
  have hMem : ∀ d, d ∈ (t.withoutSubtree node).nodes ↔
      d ∈ t.nodes ∧ ¬ InSubtree t.nodes d.id node := by
    intro d
    rw [hFiltered, mem_filter, hKeep]
  have hClosed : ∀ d ∈ t.nodes, keep d = true → ∀ e ∈ t.nodes, e.id = d.parent → keep e = true := by
    intro d hd hStay e he hPar
    exact (hKeep e).mpr (not_inSubtree_parent hNodes hd ((hKeep d).mp hStay) he hPar)
  have hShown : ∀ d ∈ (t.withoutSubtree node).nodes,
      Shown (t.withoutSubtree node).nodes d.id ↔ Shown t.nodes d.id := by
    intro d hd
    obtain ⟨hOld, hOut⟩ := (hMem d).mp hd
    rw [hFiltered]
    exact Links.allAbove_filter (L := nodeLinks) hClosed hNodes.distinct hOld ((hKeep d).mpr hOut)
  have hFocus : (t.withoutSubtree node).focused =
      if t.focused ∈ t.doomedIds node then 0 else t.focused := hFacts.focused
  have hRevision : (t.withoutSubtree node).revision = bumped t.revision := hFacts.revision
  refine {
    sound := {
      valid := hFacts.valid.trans h.valid
      rootId := hFacts.rootId.trans h.rootId
      capacity := ?_
      nodes := ?_
      counted := ?_
      fresh := ?_
      named := ?_
      honest := ?_
      started := hRevision ▸ bumped_pos h.started
      fits := hRevision ▸ bumped_le h.fits }
    nextId := hFacts.nextId
    mem := hMem
    clean := ?_
    gone := ?_
    removedDirty := ?_
    room := hFacts.room
    dirtyOverflow := hFacts.dirtyOverflow
    raised := ?_
    revision := hRevision ▸ le_bumped t.revision
    shown := hShown }
  · rw [hFacts.slots, length_map]
    exact h.capacity
  · rw [hFiltered]
    refine hNodes.filter ?_ hClosed
    intro d hd hRoot
    exact (hKeep d).mpr (root_not_inSubtree hNodes hd hRoot hNode)
  · have hLen := length_withoutSubtree t node
    have hCnt := hFacts.nodeCount
    have hCounted := h.counted
    simp only at hCnt
    omega
  · rw [hFacts.nextId]
    intro hNext d hd
    exact h.fresh hNext d ((hMem d).mp hd).1
  · intro d hd hFlag
    obtain ⟨hOld, hOut⟩ := (hMem d).mp hd
    have hNamed := h.named d hOld hFlag
    have hSpared : t.focused ∉ t.doomedIds node := by
      rw [mem_doomedIds hNodes, ← hNamed]
      rintro ⟨e, he, hSame, hBelow⟩
      exact hOut (hSame ▸ hBelow)
    rw [hFocus, if_neg hSpared]
    exact hNamed
  · rw [hFocus]
    split
    · exact fun hZero => absurd rfl hZero
    rename_i hSpared
    intro hSome
    obtain ⟨d, hd, hId, hFlag, hSeen⟩ := h.honest hSome
    have hStay : d ∈ (t.withoutSubtree node).nodes := by
      refine (hMem d).mpr ⟨hd, fun hBelow => hSpared ?_⟩
      exact (mem_doomedIds hNodes).mpr ⟨d, hd, hId, hBelow⟩
    exact ⟨d, hStay, hId, hFlag, (hShown d hStay).mpr hSeen⟩
  · intro d hd
    obtain ⟨s, hs, hOcc, hDirty, rfl⟩ := mem_clean.mp hd
    exact mem_clean.mpr ⟨s, ((mem_slots_withoutSubtree hOcc).mp hs).1, hOcc, hDirty, rfl⟩
  · intro d hd hBelow
    exact hFacts.gone d.id ((mem_doomedIds hNodes).mpr ⟨d, hd, rfl, hBelow⟩)
  · obtain ⟨recorded, hRec, hSub⟩ := hFacts.removedDirty
    refine ⟨recorded, hRec, (hNodes.distinct.sublist doomedIds_sublist).sublist hSub, ?_⟩
    intro j hj
    exact (mem_doomedIds hNodes).mp (hSub.subset hj)
  · unfold Raised
    rw [hRevision]
    exact bumped_raises t.revision

theorem Sound.removeSubtree_cases (h : t.Sound) (node : UiNodeId) :
    (∃ e, t.removeSubtree node = (t, .error e)) ∨
      ∃ t', t.removeSubtree node = (t', .ok ()) ∧ Pruned t node t' := by
  unfold removeSubtree
  iterate 3
    split
    · exact .inl ⟨_, rfl⟩
  next hRoot =>
      split
      · exact .inl ⟨_, rfl⟩
      · exact .inr ⟨_, rfl, h.pruned (h.rootId ▸ hRoot)⟩

end SemanticTree

end Enml.OsUi
