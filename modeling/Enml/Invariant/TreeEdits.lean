import Enml.Invariant.SemanticTree

/-! What holds of a semantic tree throughout, and that the calls which edit nodes
and move the focus keep it. -/
namespace Enml.OsUi

open Enml.Core ParentLinks List

namespace SemanticTree

variable {revision : ℕ} {nodes : List UiNodeDescriptor} {c : UiNodeId} {slot : Slot}

/-- The nodes form a tree, the counters agree with the slots, and the focus that
the tree names is the one that is flagged. -/
structure Sound (t : SemanticTree) : Prop where
  valid : t.valid = true
  rootId : t.rootId = 1
  capacity : t.slots.length = maxUiNodes
  nodes : WellFormed t.nodes
  counted : t.nodeCount = t.nodes.length
  fresh : t.nextId ≠ 0 → ∀ d ∈ t.nodes, d.id < t.nextId
  named : ∀ d ∈ t.nodes, d.spec.state.focused = true → d.id = t.focused
  honest : t.focused ≠ 0 →
    ∃ d ∈ t.nodes, d.id = t.focused ∧ d.spec.state.focused = true ∧ Shown t.nodes d.id
  started : 0 < t.revision
  fits : t.revision ≤ revisionMax

/-- The revision went up, unless it was already at its end. -/
def Raised (t t' : SemanticTree) : Prop := t.revision < t'.revision ∨ t.revision = revisionMax

variable {t : SemanticTree} {k : UiNodeId} {f : UiNodeSpec → UiNodeSpec} {d : UiNodeDescriptor}

theorem bumped_raises (revision : ℕ) : revision < bumped revision ∨ revision = revisionMax := by
  unfold bumped
  split
  · omega
  split
  · omega
  next hMax => exact .inr (not_not.mp hMax)

theorem le_bumped (revision : ℕ) : revision ≤ bumped revision := by
  unfold bumped
  split
  · omega
  split
  · omega
  · exact le_refl _

theorem bumped_le (h : revision ≤ revisionMax) : bumped revision ≤ revisionMax := by
  have hPos : 1 ≤ revisionMax := by decide
  unfold bumped
  split
  · exact hPos
  split
  · omega
  · exact h

theorem bumped_pos (h : 0 < revision) : 0 < bumped revision := lt_of_lt_of_le h (le_bumped revision)

theorem shown_editAt :
    Shown (nodes.map (editAt k f)) c ↔
      nodeLinks.AllAbove (fun d => (editAt k f d).spec.state.visible = true) nodes c :=
  Links.allAbove_map (fun _ => editAt_id) (fun _ => editAt_parent)

theorem shown_editAt_of_kept (hVisible : ∀ spec, (f spec).state.visible = spec.state.visible) :
    Shown (nodes.map (editAt k f)) c ↔ Shown nodes c := by
  rw [shown_editAt, Shown]
  have hSame : ∀ d : UiNodeDescriptor,
      (editAt k f d).spec.state.visible = d.spec.state.visible := fun d =>
    editAt_kept (g := fun spec => spec.state.visible) hVisible
  simp only [hSame]

/-- An edit of one node along with a change of the focus. -/
theorem Sound.rewrite (h : t.Sound) (v : UiNodeId) (hRole : ∀ spec, (f spec).role = spec.role)
    (hValid : ∀ d ∈ t.nodes, d.id = k → NodeValid { d with spec := f d.spec })
    (hNamed : ∀ d ∈ t.nodes, (editAt k f d).spec.state.focused = true → d.id = v)
    (hHonest : v ≠ 0 → ∃ d ∈ t.nodes, d.id = v ∧ (editAt k f d).spec.state.focused = true ∧
      Shown (t.nodes.map (editAt k f)) v) :
    ({ t with focused := v }.editSpec k f).Sound := by
  have hNodes : ({ t with focused := v }.editSpec k f).nodes = t.nodes.map (editAt k f) :=
    nodes_editSpec (t := { t with focused := v }) h.nodes.distinct
  exact {
    valid := h.valid
    rootId := h.rootId
    capacity := (SlotTable.length_modify _ _ _).trans h.capacity
    nodes := hNodes ▸ h.nodes.edit hRole hValid
    counted := by
      rw [hNodes, length_map]
      exact h.counted
    fresh := by
      intro hNext d hd
      rw [hNodes] at hd
      obtain ⟨e, he, rfl⟩ := mem_map.mp hd
      rw [editAt_id]
      exact h.fresh hNext e he
    named := by
      intro d hd hFocused
      rw [hNodes] at hd
      obtain ⟨e, he, rfl⟩ := mem_map.mp hd
      rw [editAt_id]
      exact hNamed e he hFocused
    honest := by
      intro hFocus
      obtain ⟨d, hd, hId, hFlag, hShown⟩ := hHonest hFocus
      rw [hNodes]
      refine ⟨editAt k f d, mem_map_of_mem hd, ?_, hFlag, ?_⟩
      · rw [editAt_id]
        exact hId
      · rw [editAt_id, hId]
        exact hShown
    started := bumped_pos h.started
    fits := bumped_le h.fits }

/-- An edit that leaves the role and the state of its node alone. -/
theorem Sound.editKept (h : t.Sound) (hRole : ∀ spec, (f spec).role = spec.role)
    (hState : ∀ spec, (f spec).state = spec.state)
    (hValid : ∀ d ∈ t.nodes, d.id = k → NodeValid { d with spec := f d.spec }) :
    (t.editSpec k f).Sound := by
  have hSame : ∀ d : UiNodeDescriptor, (editAt k f d).spec.state = d.spec.state := fun d =>
    editAt_kept (g := UiNodeSpec.state) hState
  have hShown : ∀ c, Shown (t.nodes.map (editAt k f)) c ↔ Shown t.nodes c := fun c =>
    shown_editAt_of_kept fun spec => by rw [hState]
  refine h.rewrite t.focused hRole hValid ?_ ?_
  · intro d hd hFlag
    rw [hSame] at hFlag
    exact h.named d hd hFlag
  intro hFocus
  obtain ⟨d, hd, hId, hFlag, hShow⟩ := h.honest hFocus
  refine ⟨d, hd, hId, ?_, ?_⟩
  · rw [hSame]
    exact hFlag
  · rw [hShown, ← hId]
    exact hShow

/-- A node without the focus flag. -/
def unfocus (d : UiNodeDescriptor) : UiNodeDescriptor := { d with spec := withFocus false d.spec }

theorem unfocus_of_not {d : UiNodeDescriptor} (h : d.spec.state.focused = false) :
    unfocus d = d := by
  obtain ⟨id, parent, depth, spec⟩ := d
  obtain ⟨role, bounds, actions, state, style, label, hidden⟩ := spec
  obtain ⟨visible, enabled, focused, selected, checked, pressed⟩ := state
  simp only at h
  subst h
  rfl

theorem NodeValid.withFocus (h : NodeValid d) (focused : Bool)
    (hFocus : focused = true → d.spec.state.visible = true ∧ d.spec.state.enabled = true ∧
      hasAction d.spec.actions .focus = true) :
    NodeValid { d with spec := SemanticTree.withFocus focused d.spec } where
  named := h.named
  depth := h.depth
  bounded := h.bounded
  style := h.style
  actions := h.actions
  label := h.label
  state := stateValid_withFocus h.state focused hFocus

/-- Clearing the focus takes the flag from whichever node has it. -/
theorem Sound.nodes_clearFocus (h : t.Sound) : t.clearFocus.nodes = t.nodes.map unfocus := by
  have hOthers : ∀ d ∈ t.nodes, d.id ≠ t.focused → unfocus d = d := by
    intro d hd hId
    refine unfocus_of_not ?_
    cases hFlag : d.spec.state.focused with
    | false => rfl
    | true => exact absurd (h.named d hd hFlag) hId
  unfold clearFocus
  split
  next hFlagged =>
      show (t.editSpec t.focused (withFocus false)).nodes = _
      rw [nodes_editSpec h.nodes.distinct]
      refine map_congr_left fun d hd => ?_
      by_cases hId : d.id = t.focused
      · exact editAt_self hId
      · rw [editAt_ne hId, hOthers d hd hId]
  next hFlagged =>
      have hKept : ∀ d ∈ t.nodes, unfocus d = id d := by
        intro d hd
        by_cases hId : d.id = t.focused
        · obtain ⟨s, hFound, -, -, rfl⟩ := find_of_mem h.nodes hd
          rw [← hId, hFound] at hFlagged
          exact unfocus_of_not (by simpa using hFlagged)
        · exact hOthers d hd hId
      rw [map_congr_left hKept, map_id]
      rfl

theorem Sound.clearFocus (h : t.Sound) : t.clearFocus.Sound := by
  unfold SemanticTree.clearFocus
  split
  next hFlagged =>
      refine h.rewrite 0 (fun _ => rfl) ?_ ?_ (fun hZero => absurd rfl hZero)
      · intro d hd hId
        exact NodeValid.withFocus (h.nodes.valid d hd) false (fun hFalse => by simp at hFalse)
      intro d hd hFlag
      by_cases hId : d.id = t.focused
      · rw [editAt_self hId] at hFlag
        simp [withFocus] at hFlag
      · rw [editAt_ne hId] at hFlag
        exact absurd (h.named d hd hFlag) hId
  next hFlagged =>
      exact {
        valid := h.valid
        rootId := h.rootId
        capacity := h.capacity
        nodes := h.nodes
        counted := h.counted
        fresh := h.fresh
        named := by
          intro d hd hFlag
          obtain ⟨s, hFound, -, -, rfl⟩ := find_of_mem h.nodes hd
          rw [← h.named _ hd hFlag, hFound] at hFlagged
          simp [hFlag] at hFlagged
        honest := fun hZero => absurd rfl hZero
        started := h.started
        fits := h.fits }

@[simp] theorem clearFocus_focused : t.clearFocus.focused = 0 := rfl

/-- No node comes or goes, and every node that is touched is marked. -/
structure Retouch (t t' : SemanticTree) : Prop where
  ids : t'.nodes.map UiNodeDescriptor.id = t.nodes.map UiNodeDescriptor.id
  nextId : t'.nextId = t.nextId
  clean : ∀ d ∈ t'.clean, d ∈ t.clean
  removedDirty : t'.removedDirty = t.removedDirty
  dirtyOverflow : t'.dirtyOverflow = t.dirtyOverflow
  revision : t.revision ≤ t'.revision
  raised : t'.nodes = t.nodes ∨ Raised t t'

theorem Retouch.refl (t : SemanticTree) : Retouch t t where
  ids := rfl
  nextId := rfl
  clean := fun _ hd => hd
  removedDirty := rfl
  dirtyOverflow := rfl
  revision := le_refl _
  raised := .inl rfl

theorem Retouch.trans {t t' t'' : SemanticTree} (hFirst : Retouch t t') (hSnd : Retouch t' t'') :
    Retouch t t'' where
  ids := hSnd.ids.trans hFirst.ids
  nextId := hSnd.nextId.trans hFirst.nextId
  clean := fun d hd => hFirst.clean d (hSnd.clean d hd)
  removedDirty := hSnd.removedDirty.trans hFirst.removedDirty
  dirtyOverflow := hSnd.dirtyOverflow.trans hFirst.dirtyOverflow
  revision := le_trans hFirst.revision hSnd.revision
  raised := by
    have hFirstLe := hFirst.revision
    have hSndLe := hSnd.revision
    rcases hFirst.raised with hSame | hRaised
    · rcases hSnd.raised with hSame' | hRaised
      · exact .inl (hSame'.trans hSame)
      · refine .inr ?_
        unfold Raised at hRaised ⊢
        omega
    · refine .inr ?_
      unfold Raised at hRaised ⊢
      omega

theorem retouch_rewrite (hDist : (t.nodes.map UiNodeDescriptor.id).Nodup) (v : UiNodeId) :
    Retouch t ({ t with focused := v }.editSpec k f) where
  ids := by
    rw [nodes_editSpec (t := { t with focused := v }) hDist, map_map]
    exact map_congr_left fun _ _ => editAt_id
  nextId := rfl
  clean := fun d hd => ((mem_clean_editSpec (t := { t with focused := v }) hDist).mp hd).1
  removedDirty := rfl
  dirtyOverflow := rfl
  revision := le_bumped t.revision
  raised := .inr (bumped_raises t.revision)

theorem retouch_clearFocus (hDist : (t.nodes.map UiNodeDescriptor.id).Nodup) :
    Retouch t t.clearFocus := by
  unfold SemanticTree.clearFocus
  split
  · exact retouch_rewrite hDist 0
  · exact { Retouch.refl t with }

theorem shown_unfocus : Shown (nodes.map unfocus) c ↔ Shown nodes c :=
  Links.allAbove_map (f := unfocus) (fun _ => rfl) (fun _ => rfl)

/-- What every call that adds or removes no node comes to: a sound tree whose
nodes are visible as before. -/
structure Steady (t t' : SemanticTree) : Prop where
  sound : t'.Sound
  retouch : Retouch t t'
  shown : ∀ c, Shown t'.nodes c ↔ Shown t.nodes c

theorem Sound.steady_refl (h : t.Sound) : Steady t t where
  sound := h
  retouch := Retouch.refl t
  shown := fun _ => Iff.rfl

theorem Sound.steady_clearFocus (h : t.Sound) : Steady t t.clearFocus where
  sound := h.clearFocus
  retouch := retouch_clearFocus h.nodes.distinct
  shown := fun c => by rw [h.nodes_clearFocus, shown_unfocus]

/-- A call that adds or removes no node, and that leaves the tree when it refuses. -/
structure Settled (t : SemanticTree) (r : SemanticTree × Result Unit) : Prop where
  steady : Steady t r.1
  refused : ∀ e, r.2 = .error e → r.1 = t

theorem Sound.unchanged (h : t.Sound) (r : Result Unit) : Settled t (t, r) where
  steady := h.steady_refl
  refused := fun _ _ => rfl

theorem Steady.settled {t' : SemanticTree} (h : Steady t t') : Settled t (t', .ok ()) where
  steady := h
  refused := fun _ hErr => by simp at hErr

/-- An edit of a field that neither the structure nor the focus depends on. -/
theorem Sound.settled_edit (h : t.Sound) (hFound : t.find k = some slot)
    (hRole : ∀ spec, (f spec).role = spec.role) (hState : ∀ spec, (f spec).state = spec.state)
    (hValid : NodeValid slot.descriptor →
      NodeValid { slot.descriptor with spec := f slot.descriptor.spec }) :
    Settled t (t.editSpec k f, .ok ()) := by
  obtain ⟨hs, hSlot⟩ := mem_of_find h.nodes hFound
  refine Steady.settled ⟨h.editKept hRole hState ?_, retouch_rewrite h.nodes.distinct t.focused, ?_⟩
  · intro d hd hId
    rw [h.nodes.eq_of_id hd hs (hId.trans hSlot.symm)]
    exact hValid (h.nodes.valid _ hs)
  · intro c
    rw [nodes_editSpec h.nodes.distinct]
    exact shown_editAt_of_kept fun spec => by rw [hState]

section Plain

variable {node : UiNodeId}

theorem settled_setBounds (h : t.Sound) {bounds : LogicalRect} :
    Settled t (t.setBounds node bounds) := by
  unfold setBounds
  split
  · exact h.unchanged _
  split
  · exact h.unchanged _
  rename_i hBounded
  split
  · exact h.unchanged _
  rename_i slot hFound
  split
  · exact h.unchanged _
  exact h.settled_edit hFound (fun _ => rfl) (fun _ => rfl) fun hOld =>
      ⟨hOld.named, hOld.depth, by simpa using hBounded, hOld.style, hOld.actions,
        hOld.label, hOld.state⟩

theorem settled_setLabel (h : t.Sound) {label : SemanticText} :
    Settled t (t.setLabel node label) := by
  unfold setLabel
  split
  · exact h.unchanged _
  split
  · exact h.unchanged _
  rename_i slot hFound
  split
  · exact h.unchanged _
  rename_i hLabel
  split
  · exact h.unchanged _
  exact h.settled_edit hFound (fun _ => rfl) (fun _ => rfl) fun hOld =>
      ⟨hOld.named, hOld.depth, hOld.bounded, hOld.style, hOld.actions,
        by simpa using hLabel, hOld.state⟩

theorem settled_setStyle (h : t.Sound) {style : StyleTokenId} :
    Settled t (t.setStyle node style) := by
  unfold setStyle
  split
  · exact h.unchanged _
  split
  · exact h.unchanged _
  rename_i hStyle
  split
  · exact h.unchanged _
  rename_i slot hFound
  split
  · exact h.unchanged _
  exact h.settled_edit hFound (fun _ => rfl) (fun _ => rfl) fun hOld =>
      ⟨hOld.named, hOld.depth, hOld.bounded, by simpa using hStyle, hOld.actions,
        hOld.label, hOld.state⟩

end Plain

/-- The focus moves to a node that may have it, after it has been taken from
wherever it was. -/
theorem Sound.steady_grant (h : t.Sound) (hFree : t.focused = 0) (hFound : t.find k = some slot)
    (hAction : hasAction slot.descriptor.spec.actions .focus = true)
    (hEnabled : slot.descriptor.spec.state.enabled = true) (hShown : Shown t.nodes k) :
    Steady t ({ t with focused := k }.editSpec k (withFocus true)) := by
  obtain ⟨hs, hId⟩ := mem_of_find h.nodes hFound
  have hVisible : slot.descriptor.spec.state.visible = true :=
    ((h.nodes.shown_iff hs).mp (hId.symm ▸ hShown)).1
  have hSame : ∀ c, Shown (t.nodes.map (editAt k (withFocus true))) c ↔ Shown t.nodes c := fun c =>
    shown_editAt_of_kept fun _ => rfl
  refine { sound := ?_, retouch := retouch_rewrite h.nodes.distinct k, shown := ?_ }
  · refine h.rewrite k (fun _ => rfl) ?_ ?_ ?_
    · intro d hd hd'
      cases h.nodes.eq_of_id hd hs (hd'.trans hId.symm)
      exact NodeValid.withFocus (h.nodes.valid _ hs) true fun _ => ⟨hVisible, hEnabled, hAction⟩
    · intro d hd hFlag
      by_contra hNe
      rw [editAt_ne hNe] at hFlag
      exact (h.nodes.valid d hd).named ((h.named d hd hFlag).trans hFree)
    · intro _
      refine ⟨slot.descriptor, hs, hId, ?_, (hSame k).mpr hShown⟩
      rw [editAt_self hId]
      rfl
  · intro c
    rw [nodes_editSpec (t := { t with focused := k }) h.nodes.distinct]
    exact hSame c

theorem Steady.trans {t t' t'' : SemanticTree} (hFirst : Steady t t') (hSnd : Steady t' t'') :
    Steady t t'' where
  sound := hSnd.sound
  retouch := hFirst.retouch.trans hSnd.retouch
  shown := fun c => (hSnd.shown c).trans (hFirst.shown c)

/-- A node found before the focus was cleared is found after it, without the flag. -/
theorem Sound.find_clearFocus (h : t.Sound) (hFound : t.find k = some slot) :
    ∃ slot', t.clearFocus.find k = some slot' ∧ slot'.descriptor = unfocus slot.descriptor := by
  obtain ⟨hs, hId⟩ := mem_of_find h.nodes hFound
  have hThere : unfocus slot.descriptor ∈ t.clearFocus.nodes := by
    rw [h.nodes_clearFocus]
    exact mem_map_of_mem hs
  obtain ⟨slot', hFound', -, -, hs'⟩ := find_of_mem h.clearFocus.nodes hThere
  have hKey : (unfocus slot.descriptor).id = k := hId
  rw [hKey] at hFound'
  exact ⟨slot', hFound', hs'⟩

theorem settled_focus (h : t.Sound) {node : UiNodeId} : Settled t (t.focus node) := by
  unfold focus
  split
  · exact h.unchanged _
  split
  · exact h.unchanged _
  rename_i slot hFound
  split
  · exact h.unchanged _
  rename_i hAllowed
  split
  · exact h.unchanged _
  simp only [Bool.or_eq_true, Bool.not_eq_true', not_or, Bool.not_eq_false] at hAllowed
  obtain ⟨⟨hAction, hEnabled⟩, hVisible⟩ := hAllowed
  obtain ⟨hs, hId⟩ := mem_of_find h.nodes hFound
  rw [effectivelyVisible_iff h.nodes hs, hId] at hVisible
  obtain ⟨slot', hFound', hSlot'⟩ := h.find_clearFocus hFound
  refine (h.steady_clearFocus.trans
    (h.clearFocus.steady_grant rfl hFound' ?_ ?_ ?_)).settled
  · rw [hSlot']
    exact hAction
  · rw [hSlot']
    exact hEnabled
  · exact (h.steady_clearFocus.shown node).mpr hVisible

section SetState

variable {node : UiNodeId} {state : UiNodeState} {t₁ : SemanticTree}

/-- The specification with another state. -/
def withState (state : UiNodeState) (spec : UiNodeSpec) : UiNodeSpec := { spec with state }

/-- The tree after the focus has or has not been cleared, with the node as it
was but for its flag. -/
theorem Sound.find_released (h : t.Sound) (hFound : t.find node = some slot)
    (hReleased : t₁ = t ∨ t₁ = t.clearFocus) :
    Steady t t₁ ∧ ∃ d ∈ t₁.nodes, d.id = node ∧ unfocus d = unfocus slot.descriptor := by
  obtain ⟨hs, hId⟩ := mem_of_find h.nodes hFound
  rcases hReleased with rfl | rfl
  · exact ⟨h.steady_refl, slot.descriptor, hs, hId, rfl⟩
  · refine ⟨h.steady_clearFocus, unfocus slot.descriptor, ?_, hId, rfl⟩
    rw [h.nodes_clearFocus]
    exact mem_map_of_mem hs

/-- The node passes its checks with the new state, which its role and actions allow. -/
theorem Sound.valid_withState (h : t₁.Sound)
    (hState : stateValid slot.descriptor.spec.role slot.descriptor.spec.actions state = true)
    (hd : d ∈ t₁.nodes) (hSame : unfocus d = unfocus slot.descriptor) :
    NodeValid { d with spec := withState state d.spec } := by
  have hOld := h.nodes.valid d hd
  have hRole : d.spec.role = slot.descriptor.spec.role := congrArg (fun d => d.spec.role) hSame
  have hActions : d.spec.actions = slot.descriptor.spec.actions :=
    congrArg (fun d => d.spec.actions) hSame
  refine ⟨hOld.named, hOld.depth, hOld.bounded, hOld.style, hOld.actions, hOld.label, ?_⟩
  show stateValid d.spec.role d.spec.actions state = true
  rw [hRole, hActions]
  exact hState

theorem releaseHidden_cases :
    t.releaseHidden node state = t ∨ t.releaseHidden node state = t.clearFocus := by
  unfold releaseHidden
  split
  · exact .inr rfl
  · exact .inl rfl

theorem releaseHidden_of_visible (hVisible : state.visible = true) :
    t.releaseHidden node state = t := by
  rw [releaseHidden, if_neg]
  simp [hVisible]

/-- A focus that is left does not sit below a node that is being hidden. -/
theorem Sound.focus_survives (h : t.Sound) (hLeft : (t.releaseHidden node state).focused ≠ 0)
    (hOther : (t.releaseHidden node state).focused ≠ node)
    (hBelow :
      InSubtree (t.releaseHidden node state).nodes (t.releaseHidden node state).focused node) :
    state.visible = true := by
  unfold releaseHidden at hLeft hOther hBelow
  split at hLeft
  · simp at hLeft
  rename_i hKeep
  rw [if_neg hKeep] at hOther hBelow
  obtain ⟨d, hd, hId, -, -⟩ := h.honest hLeft
  obtain ⟨s, hFound, -, -, rfl⟩ := find_of_mem h.nodes hd
  rw [← hId, h.nodes.inSubtree_iff hd] at hBelow
  have hUp := hBelow.resolve_left fun hSame => hOther (hId.symm.trans hSame)
  rw [hId] at hFound
  have hAny : ((t.find t.focused).any fun slot => t.isDescendantOf slot node) = true := by
    rw [hFound, Option.any_some, isDescendantOf_iff h.nodes hd]
    exact hUp
  cases hVisible : state.visible with
  | true => rfl
  | false => simp [hVisible, hLeft, hOther, hAny] at hKeep

/-- Making a node visible hides nothing. -/
theorem shown_withState_of_visible (hVisible : state.visible = true) (hShown : Shown nodes c) :
    Shown (nodes.map (editAt node (withState state))) c := by
  rw [shown_editAt]
  intro e he hUp
  by_cases hId : e.id = node
  · rw [editAt_self hId]
    exact hVisible
  · rw [editAt_ne hId]
    exact hShown e he hUp

/-- Writing a state that has the focus, once no other node has it. -/
theorem Sound.write_focused (h : t.Sound) (hd : d ∈ t.nodes) (hId : d.id = node)
    (hValid : NodeValid { d with spec := withState state d.spec })
    (hElsewhere : t.focused = 0 ∨ t.focused = node) (hFocused : state.focused = true)
    (hVisible : state.visible = true) (hPath : d.parent = 0 ∨ Shown t.nodes d.parent) :
    ({ t with focused := node }.editSpec node (withState state)).Sound := by
  have hOnly : ∀ e ∈ t.nodes, e.id = node →
      NodeValid { e with spec := withState state e.spec } := by
    intro e he heId
    cases h.nodes.eq_of_id he hd (heId.trans hId.symm)
    exact hValid
  refine h.rewrite node (fun _ => rfl) hOnly ?_ ?_
  · intro e he hFlag
    by_contra hNe
    rw [editAt_ne hNe] at hFlag
    have hNamed := h.named e he hFlag
    rcases hElsewhere with hZero | hNode
    · exact (h.nodes.valid e he).named (hNamed.trans hZero)
    · exact hNe (hNamed.trans hNode)
  · intro _
    refine ⟨d, hd, hId, ?_, ?_⟩
    · rw [editAt_self hId]
      exact hFocused
    have hThere : editAt node (withState state) d ∈
        t.nodes.map (editAt node (withState state)) := mem_map_of_mem hd
    have hIff := (h.nodes.edit (f := withState state) (fun _ => rfl) hOnly).shown_iff hThere
    rw [editAt_id, hId, editAt_parent, editAt_self hId] at hIff
    exact hIff.mpr ⟨hVisible, hPath.imp_right (shown_withState_of_visible hVisible)⟩

/-- Writing a state that does not have the focus, when no focus is left below
a node that is being hidden. -/
theorem Sound.write_unfocused (h : t.Sound) (hd : d ∈ t.nodes) (hId : d.id = node)
    (hValid : NodeValid { d with spec := withState state d.spec })
    (hFocused : state.focused = false)
    (hSurvives : t.focused ≠ 0 → t.focused ≠ node → InSubtree t.nodes t.focused node →
      state.visible = true) :
    ({ t with focused := if t.focused = node then 0 else t.focused }.editSpec node
      (withState state)).Sound := by
  refine h.rewrite _ (fun _ => rfl) ?_ ?_ ?_
  · intro e he heId
    cases h.nodes.eq_of_id he hd (heId.trans hId.symm)
    exact hValid
  · intro e he hFlag
    by_cases hNode : e.id = node
    · rw [editAt_self hNode] at hFlag
      simp [withState, hFocused] at hFlag
    rw [editAt_ne hNode] at hFlag
    have hNamed := h.named e he hFlag
    rw [if_neg (hNamed ▸ hNode)]
    exact hNamed
  · intro hLeft
    have hOther : t.focused ≠ node := by
      intro hSame
      exact hLeft (if_pos hSame)
    rw [if_neg hOther] at hLeft ⊢
    obtain ⟨e, he, heId, hFlag, hShown⟩ := h.honest hLeft
    refine ⟨e, he, heId, ?_, ?_⟩
    · rw [editAt_ne (heId.symm ▸ hOther)]
      exact hFlag
    rw [shown_editAt]
    intro g hg hUp
    by_cases hNode : g.id = node
    · rw [editAt_self hNode]
      exact hSurvives hLeft hOther (hNode ▸ hUp)
    · rw [editAt_ne hNode]
      exact hShown g hg (heId.symm ▸ hUp)

/-- A refusal leaves the tree, and an accepted call writes the state after the
focus has been settled. -/
theorem Sound.applyState_cases (h : t.Sound) (hFound : t.find node = some slot)
    (hState : stateValid slot.descriptor.spec.role slot.descriptor.spec.actions state = true) :
    (∃ e, t.applyState node slot state = (t, .error e)) ∨ ∃ t₁ v, (t₁ = t ∨ t₁ = t.clearFocus) ∧
        t.applyState node slot state =
          ({ t₁ with focused := v }.editSpec node (withState state), .ok ()) ∧
        ({ t₁ with focused := v }.editSpec node (withState state)).Sound := by
  obtain ⟨hs, hId⟩ := mem_of_find h.nodes hFound
  cases hFocused : state.focused with
  | true =>
    obtain ⟨hVisible, -, -⟩ := stateValid_focused hState hFocused
    simp only [applyState, releaseHidden_of_visible hVisible, hFocused, if_true]
    split
    · exact .inl ⟨_, rfl⟩
    rename_i hPath
    rw [Bool.not_eq_true', Bool.not_eq_false,
      pathVisible_iff h.nodes hs (h.nodes.valid _ hs).depth] at hPath
    generalize hSettled : (if t.focused ≠ node then t.clearFocus else t) = t₁
    have hReleased : (t₁ = t ∨ t₁ = t.clearFocus) ∧ (t₁.focused = 0 ∨ t₁.focused = node) := by
      rw [← hSettled]
      split
      · exact ⟨.inr rfl, .inl rfl⟩
      next hHere => exact ⟨.inl rfl, .inr (not_not.mp hHere)⟩
    obtain ⟨hSteady, d, hd, hdId, hSame⟩ := h.find_released hFound hReleased.1
    have hPar : d.parent = slot.descriptor.parent := congrArg (fun d => d.parent) hSame
    refine .inr ⟨t₁, node, hReleased.1, rfl, ?_⟩
    refine hSteady.sound.write_focused hd hdId
      (hSteady.sound.valid_withState hState hd hSame) hReleased.2 hFocused hVisible ?_
    rw [hPar]
    exact hPath.imp_right fun hUp => (hSteady.shown _).mpr hUp
  | false =>
    obtain ⟨hSteady, d, hd, hdId, hSame⟩ := h.find_released hFound releaseHidden_cases
    refine .inr ⟨t.releaseHidden node state,
      if (t.releaseHidden node state).focused = node then 0
        else (t.releaseHidden node state).focused, releaseHidden_cases, ?_, ?_⟩
    · simp only [applyState, hFocused, Bool.false_eq_true, if_false]
      split
      · rfl
      · rfl
    · exact hSteady.sound.write_unfocused hd hdId
        (hSteady.sound.valid_withState hState hd hSame) hFocused h.focus_survives

theorem Sound.setState_cases (h : t.Sound) (node : UiNodeId) (state : UiNodeState) :
    (∃ r, t.setState node state = (t, r)) ∨
      ∃ slot t₁ v, t.find node = some slot ∧ (t₁ = t ∨ t₁ = t.clearFocus) ∧ t.setState node state =
          ({ t₁ with focused := v }.editSpec node (withState state), .ok ()) ∧
        ({ t₁ with focused := v }.editSpec node (withState state)).Sound := by
  unfold setState
  split
  · exact .inl ⟨_, rfl⟩
  split
  · exact .inl ⟨_, rfl⟩
  rename_i slot hFound
  split
  · exact .inl ⟨_, rfl⟩
  split
  · exact .inl ⟨_, rfl⟩
  rename_i hState
  split
  · exact .inl ⟨_, rfl⟩
  rcases h.applyState_cases hFound (by simpa using hState) with ⟨e, hRefused⟩ | hWritten
  · exact .inl ⟨_, hRefused⟩
  · obtain ⟨t₁, v, hReleased, hRes, hSound⟩ := hWritten
    exact .inr ⟨slot, t₁, v, hFound, hReleased, hRes, hSound⟩

end SetState

end SemanticTree

end Enml.OsUi
