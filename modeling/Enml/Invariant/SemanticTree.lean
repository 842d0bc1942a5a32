import Enml.Lib.ParentLinks
import Enml.OsUi.Tree

/-! The semantic tree as a list of nodes that name their parents, and what the
tree's operations do to that list. -/
namespace Enml.OsUi

open ParentLinks List UiNodeDescriptor Slot SlotTable

/-- A node names itself and its parent; zero names no node. -/
def nodeLinks : Links UiNodeDescriptor UiNodeId where
  id := id
  parent := parent
  top := 0

/-- A node and all its ancestors are visible. -/
def Shown (nodes : List UiNodeDescriptor) (id : UiNodeId) : Prop :=
  nodeLinks.AllAbove (fun d => d.spec.state.visible = true) nodes id

/-- The node named `c` is the one named `a` or a descendant of it. -/
def InSubtree (nodes : List UiNodeDescriptor) (c a : UiNodeId) : Prop := nodeLinks.Within nodes c a

structure NodeValid (d : UiNodeDescriptor) : Prop where
  named : d.id ≠ 0
  depth : d.depth ≤ maxUiDepth
  bounded : d.spec.bounds.bounded = true
  style : styleTokenValid d.spec.style = true
  actions : actionsValid d.spec.role d.spec.actions = true
  label : labelValidForRole d.spec.role d.spec.label d.spec.accessibilityHidden = true
  state : stateValid d.spec.role d.spec.actions d.spec.state = true

variable {role : UiRole} {actions : UiActionMask} {state : UiNodeState}

theorem stateValid_focused (hValid : stateValid role actions state = true)
    (hFocused : state.focused = true) :
    state.visible = true ∧ state.enabled = true ∧ hasAction actions .focus = true := by
  unfold stateValid at hValid
  split at hValid
  · simp at hValid
  rename_i hNot
  rw [hFocused] at hNot
  simp only [Bool.true_and, Bool.or_eq_true, Bool.not_eq_true', not_or, Bool.not_eq_false] at hNot
  exact ⟨hNot.1.1, hNot.1.2, hNot.2⟩

/-- Only the first check of a state looks at its focus. -/
theorem stateValid_withFocus (hValid : stateValid role actions state = true) (focused : Bool)
    (hFocus : focused = true →
      state.visible = true ∧ state.enabled = true ∧ hasAction actions .focus = true) :
    stateValid role actions { state with focused } = true := by
  have hFirst :
      (focused && (!state.visible || !state.enabled || !hasAction actions .focus)) = false := by
    cases focused with
    | false => rfl
    | true =>
      obtain ⟨hVisible, hEnabled, hAction⟩ := hFocus rfl
      simp [hVisible, hEnabled, hAction]
  unfold stateValid at hValid ⊢
  rw [hFirst]
  split at hValid
  · simp at hValid
  · exact hValid

theorem actionsValid_known (h : actionsValid role actions = true) :
    (actions &&& ~~~knownActions == 0) = true := by
  unfold actionsValid at h
  split at h
  · simp at h
  next hKnown => simpa using hKnown

theorem labelValidForRole_text {label : SemanticText} {hidden : Bool}
    (h : labelValidForRole role label hidden = true) : semanticTextValid label = true := by
  unfold labelValidForRole at h
  split at h
  · simp at h
  next hText => simpa using hText

/-- The node with a given id is rewritten, and the others stay. -/
def editAt (k : UiNodeId) (f : UiNodeSpec → UiNodeSpec) (d : UiNodeDescriptor) : UiNodeDescriptor :=
  if d.id = k then { d with spec := f d.spec } else d

section EditAt

variable {k : UiNodeId} {f : UiNodeSpec → UiNodeSpec} {d : UiNodeDescriptor}

@[simp] theorem editAt_id : (editAt k f d).id = d.id := by
  unfold editAt
  split <;> rfl

@[simp] theorem editAt_parent : (editAt k f d).parent = d.parent := by
  unfold editAt
  split <;> rfl

@[simp] theorem editAt_depth : (editAt k f d).depth = d.depth := by
  unfold editAt
  split <;> rfl

theorem editAt_self (h : d.id = k) : editAt k f d = { d with spec := f d.spec } := if_pos h

theorem editAt_ne (h : d.id ≠ k) : editAt k f d = d := if_neg h

/-- What an edit keeps of every specification it keeps of every node. -/
theorem editAt_kept {α : Type} {g : UiNodeSpec → α} (h : ∀ spec, g (f spec) = g spec) :
    g (editAt k f d).spec = g d.spec := by
  unfold editAt
  split
  · exact h d.spec
  · rfl

end EditAt

/-- A tree of nodes: one root, named one, and below it nodes whose parents came
before them. -/
structure WellFormed (nodes : List UiNodeDescriptor) : Prop where
  distinct : (nodes.map UiNodeDescriptor.id).Nodup
  valid : ∀ d ∈ nodes, NodeValid d
  rooted : ∃ d ∈ nodes, d.id = 1
  root : ∀ d ∈ nodes, d.id = 1 → d.spec.role = .root ∧ d.parent = 0 ∧ d.depth = 0
  child : ∀ d ∈ nodes, d.id ≠ 1 → d.spec.role ≠ .root ∧
    ∃ p ∈ nodes, p.id = d.parent ∧ p.id < d.id ∧ roleCanHaveChildren p.spec.role = true ∧
      d.depth = p.depth + 1
  fanout : ∀ k, (nodes.countP fun d => d.parent == k) ≤ maxUiChildrenPerNode

namespace WellFormed

variable {nodes : List UiNodeDescriptor} {d e : UiNodeDescriptor}

theorem eq_of_id (h : WellFormed nodes) (hd : d ∈ nodes) (he : e ∈ nodes) (hId : d.id = e.id) :
    d = e := inj_on_of_nodup_map h.distinct hd he hId

theorem ranked (h : WellFormed nodes) : nodeLinks.Ranked depth nodes := by
  intro d hd
  by_cases hRoot : d.id = 1
  · exact .inl (h.root d hd hRoot).2.1
  · obtain ⟨-, p, hp, hId, -, -, hDepth⟩ := h.child d hd hRoot
    exact .inr ⟨p, hp, hId, hDepth⟩

theorem role_eq_root_iff (h : WellFormed nodes) (hd : d ∈ nodes) :
    d.spec.role = .root ↔ d.id = 1 := by
  constructor
  · intro hRole
    by_contra hRoot
    exact (h.child d hd hRoot).1 hRole
  · intro hRoot
    exact (h.root d hd hRoot).1

theorem parent_eq_zero_iff (h : WellFormed nodes) (hd : d ∈ nodes) : d.parent = 0 ↔ d.id = 1 := by
  constructor
  · intro hTop
    by_contra hRoot
    obtain ⟨-, p, hp, hId, -⟩ := h.child d hd hRoot
    exact (h.valid p hp).named (hId.trans hTop)
  · intro hRoot
    exact (h.root d hd hRoot).2.1

theorem shown_iff (h : WellFormed nodes) (hd : d ∈ nodes) :
    Shown nodes d.id ↔ d.spec.state.visible = true ∧ (d.parent = 0 ∨ Shown nodes d.parent) :=
  Links.allAbove_iff (L := nodeLinks) h.distinct hd

theorem inSubtree_iff (h : WellFormed nodes) (hd : d ∈ nodes) {a : UiNodeId} :
    InSubtree nodes d.id a ↔ d.id = a ∨ (d.parent ≠ 0 ∧ InSubtree nodes d.parent a) :=
  Links.within_iff (L := nodeLinks) h.distinct hd

/-- The order of the list does not matter. -/
theorem perm {other : List UiNodeDescriptor} (h : WellFormed nodes) (hPerm : nodes.Perm other) :
    WellFormed other where
  distinct := (hPerm.map UiNodeDescriptor.id).nodup_iff.mp h.distinct
  valid := fun d hd => h.valid d (hPerm.mem_iff.mpr hd)
  rooted := by
    obtain ⟨d, hd, hId⟩ := h.rooted
    exact ⟨d, hPerm.mem_iff.mp hd, hId⟩
  root := fun d hd => h.root d (hPerm.mem_iff.mpr hd)
  child := by
    intro d hd hRoot
    obtain ⟨hRole, p, hp, hRest⟩ := h.child d (hPerm.mem_iff.mpr hd) hRoot
    exact ⟨hRole, p, hPerm.mem_iff.mp hp, hRest⟩
  fanout := by
    intro k
    rw [← hPerm.countP_eq]
    exact h.fanout k

/-- An edit that keeps the role and passes the node's checks. -/
theorem edit (h : WellFormed nodes) {k : UiNodeId} {f : UiNodeSpec → UiNodeSpec}
    (hRole : ∀ spec, (f spec).role = spec.role)
    (hValid : ∀ d ∈ nodes, d.id = k → NodeValid { d with spec := f d.spec }) :
    WellFormed (nodes.map (editAt k f)) where
  distinct := by
    rw [map_map]
    simpa [Function.comp_def] using h.distinct
  valid := by
    simp only [mem_map, forall_exists_index, and_imp, forall_apply_eq_imp_iff₂]
    intro d hd
    by_cases hId : d.id = k
    · rw [editAt_self hId]
      exact hValid d hd hId
    · rw [editAt_ne hId]
      exact h.valid d hd
  rooted := by
    obtain ⟨d, hd, hId⟩ := h.rooted
    exact ⟨editAt k f d, mem_map_of_mem hd, by rw [editAt_id, hId]⟩
  root := by
    simp only [mem_map, forall_exists_index, and_imp, forall_apply_eq_imp_iff₂, editAt_id,
      editAt_parent, editAt_depth, editAt_kept hRole]
    exact h.root
  child := by
    simp only [mem_map, forall_exists_index, and_imp, forall_apply_eq_imp_iff₂, editAt_id,
      editAt_parent, editAt_depth, editAt_kept hRole]
    intro d hd hRoot
    obtain ⟨hKind, p, hp, hRest⟩ := h.child d hd hRoot
    refine ⟨hKind, editAt k f p, ⟨p, hp, rfl⟩, ?_⟩
    simpa only [editAt_id, editAt_depth, editAt_kept hRole] using hRest
  fanout := by
    intro j
    rw [countP_map]
    simpa [Function.comp_def] using h.fanout j

/-- A new leaf. -/
theorem cons (h : WellFormed nodes) (hValid : NodeValid d) (hFresh : ∀ e ∈ nodes, e.id < d.id)
    (hRole : d.spec.role ≠ .root) {p : UiNodeDescriptor} (hp : p ∈ nodes) (hPar : p.id = d.parent)
    (hKind : roleCanHaveChildren p.spec.role = true) (hDepth : d.depth = p.depth + 1)
    (hRoom : (nodes.countP fun e => e.parent == d.parent) < maxUiChildrenPerNode) :
    WellFormed (d :: nodes) where
  distinct := by
    rw [map_cons, nodup_cons]
    refine ⟨?_, h.distinct⟩
    intro hMem
    obtain ⟨e, he, hId⟩ := mem_map.mp hMem
    exact (UInt32.ne_of_lt (hFresh e he)) hId
  valid := by
    intro e he
    rcases mem_cons.mp he with rfl | he
    · exact hValid
    · exact h.valid e he
  rooted := by
    obtain ⟨e, he, hId⟩ := h.rooted
    exact ⟨e, mem_cons_of_mem d he, hId⟩
  root := by
    intro e he hRoot
    rcases mem_cons.mp he with rfl | he
    · obtain ⟨r, hr, hId⟩ := h.rooted
      exact absurd (hId.trans hRoot.symm) (UInt32.ne_of_lt (hFresh r hr))
    · exact h.root e he hRoot
  child := by
    intro e he hRoot
    rcases mem_cons.mp he with rfl | he
    · exact ⟨hRole, p, mem_cons_of_mem _ hp, hPar, hFresh p hp, hKind, hDepth⟩
    · obtain ⟨hKept, q, hq, hRest⟩ := h.child e he hRoot
      exact ⟨hKept, q, mem_cons_of_mem d hq, hRest⟩
  fanout := by
    intro k
    rw [countP_cons]
    by_cases hk : d.parent = k
    · subst hk
      simp only [beq_self_eq_true, if_true]
      omega
    · simpa [hk] using h.fanout k

/-- Taking out whole subtrees below the root. -/
theorem filter (h : WellFormed nodes) {keep : UiNodeDescriptor → Bool}
    (hRoot : ∀ d ∈ nodes, d.id = 1 → keep d = true)
    (hClosed : ∀ d ∈ nodes, keep d = true → ∀ e ∈ nodes, e.id = d.parent → keep e = true) :
    WellFormed (nodes.filter keep) where
  distinct := h.distinct.sublist ((List.filter_sublist (l := nodes)).map UiNodeDescriptor.id)
  valid := fun d hd => h.valid d (mem_filter.mp hd).1
  rooted := by
    obtain ⟨d, hd, hId⟩ := h.rooted
    exact ⟨d, mem_filter.mpr ⟨hd, hRoot d hd hId⟩, hId⟩
  root := fun d hd => h.root d (mem_filter.mp hd).1
  child := by
    intro d hd hNot
    obtain ⟨hMem, hKeep⟩ := mem_filter.mp hd
    obtain ⟨hRole, p, hp, hId, hRest⟩ := h.child d hMem hNot
    exact ⟨hRole, p, mem_filter.mpr ⟨hp, hClosed d hMem hKeep p hp hId⟩, hId, hRest⟩
  fanout := by
    intro k
    exact le_trans ((filter_sublist (l := nodes)).countP_le (p := fun d => d.parent == k))
      (h.fanout k)

end WellFormed

namespace SemanticTree

/-- The nodes of the tree, in the order of their slots. -/
def nodes (t : SemanticTree) : List UiNodeDescriptor := (t.slots.filter occupied).map descriptor

/-- The nodes that have not changed since the renderer drained the tree. -/
def clean (t : SemanticTree) : List UiNodeDescriptor :=
  (t.slots.filter fun slot => slot.occupied && !slot.dirty).map descriptor

variable {t : SemanticTree} {k : UiNodeId} {f : UiNodeSpec → UiNodeSpec} {d : UiNodeDescriptor}

theorem mem_nodes : d ∈ t.nodes ↔ ∃ s ∈ t.slots, s.occupied = true ∧ s.descriptor = d := by
  simp [nodes, and_assoc]

theorem mem_clean :
    d ∈ t.clean ↔ ∃ s ∈ t.slots, s.occupied = true ∧ s.dirty = false ∧ s.descriptor = d := by
  simp [clean, and_assoc]

theorem mem_nodes_of_clean (h : d ∈ t.clean) : d ∈ t.nodes := by
  obtain ⟨s, hs, hOcc, -, hd⟩ := mem_clean.mp h
  exact mem_nodes.mpr ⟨s, hs, hOcc, hd⟩

theorem key_eq_some_iff {s : Slot} : s.key = some k ↔ s.occupied = true ∧ s.descriptor.id = k := by
  unfold key
  split <;> simp_all

theorem keys_slots (t : SemanticTree) :
    keys Slot.key t.slots = t.nodes.map UiNodeDescriptor.id := by
  unfold nodes SlotTable.keys
  induction t.slots with
  | nil => rfl
  | cons s _ ih =>
    cases hs : s.occupied with
    | false => simp [key, hs, ih]
    | true => simp [Slot.key, hs, ih]

section Distinct

variable (hDist : (t.nodes.map UiNodeDescriptor.id).Nodup)

include hDist

theorem find_eq_some_iff {s : Slot} :
    t.find k = some s ↔ k ≠ 0 ∧ s ∈ t.slots ∧ s.occupied = true ∧ s.descriptor.id = k := by
  unfold find
  split
  next hZero => simp [hZero]
  rename_i hNamed
  rw [lookup_eq_some_iff (by rw [keys_slots]; exact hDist), key_eq_some_iff]
  simp [hNamed]

theorem slots_editSpec :
    (t.editSpec k f).slots = t.slots.map fun slot =>
      if slot.key = some k then
        { slot with
          dirty := true
          descriptor := { slot.descriptor with spec := f slot.descriptor.spec } }
      else slot :=
  modify_eq_map (by rw [keys_slots]; exact hDist)

theorem nodes_editSpec : (t.editSpec k f).nodes = t.nodes.map (editAt k f) := by
  unfold nodes
  rw [slots_editSpec hDist, filter_map, map_map, map_map]
  have hOcc : (occupied ∘ fun slot : Slot =>
      if slot.key = some k then
        { slot with
          dirty := true
          descriptor := { slot.descriptor with spec := f slot.descriptor.spec } }
      else slot) = occupied := by
    funext slot
    by_cases hKey : slot.key = some k <;> simp [hKey]
  rw [hOcc]
  refine map_congr_left fun slot hSlot => ?_
  obtain ⟨-, hUsed⟩ := mem_filter.mp hSlot
  simp only [Function.comp_apply, key_eq_some_iff, hUsed, true_and, editAt]
  split <;> rfl

/-- An edited node is dirty, and the others are as clean as before. -/
theorem mem_clean_editSpec : d ∈ (t.editSpec k f).clean ↔ d ∈ t.clean ∧ d.id ≠ k := by
  rw [mem_clean, mem_clean, slots_editSpec hDist]
  simp only [mem_map, exists_exists_and_eq_and]
  constructor
  · rintro ⟨s, hs, hOcc, hDirty, rfl⟩
    by_cases hKey : s.key = some k
    · simp [hKey] at hDirty
    simp only [if_neg hKey] at hOcc hDirty ⊢
    refine ⟨⟨s, hs, hOcc, hDirty, rfl⟩, ?_⟩
    intro hId
    exact hKey (key_eq_some_iff.mpr ⟨hOcc, hId⟩)
  · rintro ⟨⟨s, hs, hOcc, hDirty, rfl⟩, hId⟩
    have hKey : s.key ≠ some k := fun hKey => hId (key_eq_some_iff.mp hKey).2
    exact ⟨s, hs, by simpa [hKey] using ⟨hOcc, hDirty⟩⟩

end Distinct

section Walks

variable (hNodes : WellFormed t.nodes)

include hNodes

theorem find_of_mem (hd : d ∈ t.nodes) :
    ∃ s, t.find d.id = some s ∧ s ∈ t.slots ∧ s.occupied = true ∧ s.descriptor = d := by
  obtain ⟨s, hs, hOcc, rfl⟩ := mem_nodes.mp hd
  have hFound := (find_eq_some_iff hNodes.distinct).mpr
    ⟨(hNodes.valid _ hd).named, hs, hOcc, rfl⟩
  exact ⟨s, hFound, hs, hOcc, rfl⟩

variable {s : Slot} {n : ℕ} {a : UiNodeId}

theorem mem_of_find (h : t.find k = some s) : s.descriptor ∈ t.nodes ∧ s.descriptor.id = k := by
  obtain ⟨-, hs, hOcc, hId⟩ := (find_eq_some_iff hNodes.distinct).mp h
  exact ⟨mem_nodes.mpr ⟨s, hs, hOcc, rfl⟩, hId⟩

omit hNodes in
/-- The loop looks at nothing of a slot but its node. -/
theorem visibleFrom_descriptor (n : ℕ) (s : Slot) :
    t.visibleFrom n s = t.visibleFrom n { descriptor := s.descriptor } := by
  cases n <;> rfl

theorem visibleFrom_iff (hd : d ∈ t.nodes) (hFuel : d.depth < n) :
    t.visibleFrom n { descriptor := d } = true ↔ Shown t.nodes d.id := by
  refine Links.walk_iff (L := nodeLinks) (fun d => d.spec.state.visible)
    (fun k => (t.find k).map descriptor) (fun n d => t.visibleFrom n { descriptor := d })
    hNodes.distinct hNodes.ranked ?_ ?_ ?_ hd hFuel
  · intro e he
    obtain ⟨s, hFound, -, -, hs⟩ := find_of_mem hNodes he
    simp only [nodeLinks, hFound, Option.map_some, hs]
  · intro n e _ hTop
    have hTop : e.parent = 0 := hTop
    cases hVisible : e.spec.state.visible <;> simp [visibleFrom, hVisible, hTop]
  intro n e _ hTop
  have hTop : e.parent ≠ 0 := hTop
  have hWalk : (t.visibleFrom n) = fun s => t.visibleFrom n { descriptor := s.descriptor } :=
    funext (visibleFrom_descriptor n)
  cases hVisible : e.spec.state.visible with
  | false => simp [visibleFrom, hVisible]
  | true =>
    simp only [visibleFrom, hVisible, Bool.not_true, if_neg hTop, Bool.true_and, nodeLinks]
    rw [Option.any_map, hWalk]
    rfl

theorem effectivelyVisible_iff (hs : s.descriptor ∈ t.nodes) :
    t.effectivelyVisible s = true ↔ Shown t.nodes s.descriptor.id := by
  rw [effectivelyVisible, visibleFrom_descriptor]
  exact visibleFrom_iff hNodes hs (Nat.lt_succ_of_le (hNodes.valid _ hs).depth)

/-- Where a walk stands: past the root, or at a node it can still climb from. -/
theorem parent_cases (hd : d ∈ t.nodes) :
    d.parent = 0 ∨ ∃ s, t.find d.parent = some s ∧ s.descriptor ∈ t.nodes ∧
      s.descriptor.id = d.parent ∧ d.parent ≠ 0 ∧ d.depth = s.descriptor.depth + 1 := by
  rcases hNodes.ranked d hd with hTop | ⟨p, hp, hId, hDepth⟩
  · exact .inl hTop
  obtain ⟨s, hFound, -, -, rfl⟩ := find_of_mem hNodes hp
  have hId : s.descriptor.id = d.parent := hId
  rw [hId] at hFound
  exact .inr ⟨s, hFound, hp, hId, hId ▸ (hNodes.valid _ hp).named, hDepth⟩

theorem climbsTo_iff (hd : d ∈ t.nodes) (hFuel : d.depth ≤ n) :
    t.climbsTo a (n + 1) d.parent = true ↔ d.parent ≠ 0 ∧ InSubtree t.nodes d.parent a := by
  induction n generalizing d with
  | zero =>
    rcases parent_cases hNodes hd with hTop | ⟨s, -, -, -, -, hDepth⟩
    · simp [climbsTo, hTop]
    · omega
  | succ n ih =>
    rcases parent_cases hNodes hd with hTop | ⟨s, hFound, hs, hId, hTop, hDepth⟩
    · simp [climbsTo, hTop]
    rw [climbsTo, if_neg hTop, hFound, Option.any_some, ← hId, hNodes.inSubtree_iff hs]
    have hUp := ih hs (by omega)
    have hNamed : s.descriptor.id ≠ 0 := (hNodes.valid _ hs).named
    by_cases hHere : s.descriptor.id = a
    · rw [if_pos hHere]
      simp [hHere ▸ hNamed, hHere]
    · simp [hHere, hUp, hNamed]

theorem isDescendantOf_iff (hs : s.descriptor ∈ t.nodes) :
    t.isDescendantOf s a = true ↔
      s.descriptor.parent ≠ 0 ∧ InSubtree t.nodes s.descriptor.parent a :=
  climbsTo_iff hNodes hs (hNodes.valid _ hs).depth

theorem inSubtree_eq_true_iff (hs : s ∈ t.slots) :
    t.inSubtree a s = true ↔ s.occupied = true ∧ InSubtree t.nodes s.descriptor.id a := by
  rw [inSubtree, Bool.and_eq_true]
  refine and_congr_right fun hOcc => ?_
  have hd : s.descriptor ∈ t.nodes := mem_nodes.mpr ⟨s, hs, hOcc, rfl⟩
  rw [Bool.or_eq_true, beq_iff_eq, isDescendantOf_iff hNodes hd, hNodes.inSubtree_iff hd]

theorem pathVisible_iff (hd : d ∈ t.nodes) (hFuel : d.depth ≤ n) :
    t.pathVisible (n + 1) d.parent = true ↔ d.parent = 0 ∨ Shown t.nodes d.parent := by
  induction n generalizing d with
  | zero =>
    rcases parent_cases hNodes hd with hTop | ⟨s, -, -, -, -, hDepth⟩
    · simp [pathVisible, hTop]
    · omega
  | succ n ih =>
    rcases parent_cases hNodes hd with hTop | ⟨s, hFound, hs, hId, hTop, hDepth⟩
    · simp [pathVisible, hTop]
    · rw [pathVisible, if_neg hTop, hFound, Option.any_some, Bool.and_eq_true,
        ih hs (by omega), ← hId, hNodes.shown_iff hs]
      simp [hId ▸ hTop]

end Walks

end SemanticTree

end Enml.OsUi
