import Enml.Invariant.DamagePlan

/-! Damage between two frames: the planner redraws what was marked, and a node
is marked when it is edited, so the plan covers every changed command as long as
no edit shows or hides nodes other than the one it is about. -/
namespace Enml.OsUi

open Enml.Core ParentLinks List Run

/-- Every point of a rectangle lies in one of the planned ones. -/
def Covered (rects : List LogicalRect) (rect : LogicalRect) : Prop :=
  ∀ point, pointInside rect point = true → ∃ r ∈ rects, pointInside r point = true

/-- Wherever the two buffers differ, the plan covers the old and the new bounds. -/
def CoversChanges (previous next : RenderCommandBuffer) (plan : RenderDamagePlan) : Prop :=
  plan.fullRedraw = true ∨ ∀ id, findCommand previous id ≠ findCommand next id →
      (∀ command ∈ findCommand previous id, Covered plan.rects command.bounds) ∧
      ∀ command ∈ findCommand next id, Covered plan.rects command.bounds

theorem covered_of_includes {plan : RenderDamagePlan} {command : Option RenderCommand}
    (hOpen : plan.fullRedraw ≠ true) (h : plan.Includes command) :
    ∀ c ∈ command, Covered plan.rects c.bounds := by
  intro c hc point hInside
  exact ⟨c.bounds, h.resolve_left hOpen c hc, hInside⟩

namespace SemanticTree

variable {t t₁ : SemanticTree} {node v : UiNodeId} {state : UiNodeState} {d : UiNodeDescriptor}
  {t' : SemanticTree}

/-- A styled node that nothing has marked, below another node and hidden by no
node on the way up but perhaps that one. -/
def Exposed (t : SemanticTree) (node : UiNodeId) (d : UiNodeDescriptor) : Prop :=
  d ∈ t.clean ∧ d.spec.style ≠ 0 ∧ d.id ≠ node ∧ InSubtree t.nodes d.id node ∧
    ∀ e ∈ t.nodes, InSubtree t.nodes d.id e.id → e.id ≠ node → e.spec.state.visible = true

/-- A call that shows or hides a node shows or hides no unmarked node with it. -/
def MarksAll (t : SemanticTree) (op : TreeOp) : Prop :=
  ∀ node state slot, op = .setState node state → t.find node = some slot →
    (t.setState node state).2 = .ok () → slot.descriptor.spec.state.visible ≠ state.visible →
    ∀ d, ¬ Exposed t node d

/-- How a tree stands to what it was at the last frame, when its record was drained. -/
structure Since (t₁ t : SemanticTree) : Prop where
  sound : t.Sound
  revision : t₁.revision ≤ t.revision
  clean : ∀ d ∈ t.clean, d ∈ t₁.nodes ∧
    (d.spec.style ≠ 0 → (Shown t.nodes d.id ↔ Shown t₁.nodes d.id))
  kept : ∀ d ∈ t₁.nodes, t.Live d.id ∨ d.id ∈ t.removedDirty ∨ t.dirtyOverflow = true
  room : t.removedDirty.length ≤ maxUiNodes
  distinct : t.removedDirty.Nodup
  gone : ∀ k ∈ t.removedDirty, k ≠ 0 ∧ t.Spent k ∧ ¬ t.Live k

/-- What is shown after a state has been written: the node counts with its new state. -/
theorem Sound.shown_written (h : t.Sound) (hReleased : t₁ = t ∨ t₁ = t.clearFocus) {c : UiNodeId} :
    Shown ({ t₁ with focused := v }.editSpec node (withState state)).nodes c ↔ nodeLinks.AllAbove
        (fun e => (if e.id = node then state.visible else e.spec.state.visible) = true)
        t.nodes c := by
  have hEdited : ∀ e : UiNodeDescriptor, (editAt node (withState state) e).spec.state.visible =
      if e.id = node then state.visible else e.spec.state.visible := by
    intro e
    by_cases hId : e.id = node
    · rw [editAt_self hId, if_pos hId]
      rfl
    · rw [editAt_ne hId, if_neg hId]
  have hDist := (h.steady_released hReleased).sound.nodes.distinct
  rw [nodes_editSpec (t := { t₁ with focused := v }) hDist]
  show Shown (t₁.nodes.map (editAt node (withState state))) c ↔ _
  rw [shown_editAt]
  simp only [hEdited]
  rcases hReleased with rfl | rfl
  · exact Iff.rfl
  · rw [h.nodes_clearFocus]
    exact Links.allAbove_map (f := unfocus) (fun _ => rfl) (fun _ => rfl)

/-- Writing a state leaves the other clean nodes shown or hidden as they were,
unless it exposes one. -/
theorem Sound.shown_written_of_not_exposed (h : t.Sound) (hReleased : t₁ = t ∨ t₁ = t.clearFocus)
    {slot : Slot} (hFound : t.find node = some slot)
    (hNone : slot.descriptor.spec.state.visible ≠ state.visible → ∀ d, ¬ Exposed t node d)
    (hClean : d ∈ t.clean) (hStyled : d.spec.style ≠ 0) (hOther : d.id ≠ node) :
    Shown ({ t₁ with focused := v }.editSpec node (withState state)).nodes d.id ↔
      Shown t.nodes d.id := by
  obtain ⟨hs, hId⟩ := mem_of_find h.nodes hFound
  rw [h.shown_written hReleased]
  by_cases hFlip : slot.descriptor.spec.state.visible = state.visible
  · refine forall₂_congr fun e he => imp_congr_right fun _ => ?_
    show (if e.id = node then state.visible else e.spec.state.visible) = true ↔
      e.spec.state.visible = true
    by_cases hNode : e.id = node
    · rw [if_pos hNode, h.nodes.eq_of_id he hs (hNode.trans hId.symm), hFlip]
    · rw [if_neg hNode]
  · have hUnexposed := hNone hFlip d
    by_cases hBelow : InSubtree t.nodes d.id node
    · -- some other node on the way up hides the whole path before and after
      have hHidden : ∃ e ∈ t.nodes, InSubtree t.nodes d.id e.id ∧ e.id ≠ node ∧
          e.spec.state.visible = false := by
        by_contra hAll
        refine hUnexposed ⟨hClean, hStyled, hOther, hBelow, ?_⟩
        intro e he hUp hNode
        by_contra hInvisible
        exact hAll ⟨e, he, hUp, hNode, by simpa using hInvisible⟩
      obtain ⟨e, he, hUp, hNode, hInvisible⟩ := hHidden
      refine iff_of_false (fun hShown => ?_) fun hShown => ?_
      · have hVisible := hShown e he hUp
        simp [hNode, hInvisible] at hVisible
      · have hVisible := hShown e he hUp
        simp [hInvisible] at hVisible
    · refine forall₂_congr fun e _ => imp_congr_right fun hUp => ?_
      have hNode : e.id ≠ node := by
        rintro rfl
        exact hBelow hUp
      simp only [if_neg hNode]

theorem live_iff_mem_ids {k : UiNodeId} : t.Live k ↔ k ∈ t.nodes.map UiNodeDescriptor.id := by
  rw [mem_map]
  rfl

/-- A step that only retouches nodes. -/
theorem Since.retouched (h : Since t₁ t) (hSound : t'.Sound) (hRetouch : Retouch t t')
    (hShown : ∀ d ∈ t'.clean, d.spec.style ≠ 0 → (Shown t'.nodes d.id ↔ Shown t.nodes d.id)) :
    Since t₁ t' := by
  have hLive : ∀ k, t'.Live k ↔ t.Live k := by
    intro k
    rw [live_iff_mem_ids, live_iff_mem_ids, hRetouch.ids]
  exact {
    sound := hSound
    revision := le_trans h.revision hRetouch.revision
    clean := by
      intro d hd
      obtain ⟨hOld, hSame⟩ := h.clean d (hRetouch.clean d hd)
      exact ⟨hOld, fun hStyled => (hShown d hd hStyled).trans (hSame hStyled)⟩
    kept := by
      intro d hd
      rw [hLive, hRetouch.removedDirty, hRetouch.dirtyOverflow]
      exact h.kept d hd
    room := hRetouch.removedDirty ▸ h.room
    distinct := hRetouch.removedDirty ▸ h.distinct
    gone := by
      intro k hk
      rw [hRetouch.removedDirty] at hk
      rw [hLive, Spent, hRetouch.nextId]
      exact h.gone k hk }

theorem Since.grown (h : Since t₁ t) (hGrown : Grown t d t')
    (hGone : ∀ k, t.Spent k ∧ ¬ t.Live k → t'.Spent k ∧ ¬ t'.Live k) : Since t₁ t' where
  sound := hGrown.sound
  revision := le_trans h.revision hGrown.revision
  clean := by
    intro e he
    have hOld := hGrown.clean e he
    obtain ⟨hThen, hSame⟩ := h.clean e hOld
    have hNew : e.id ≠ d.id := by
      rw [hGrown.id]
      exact UInt32.ne_of_lt (h.sound.fresh hGrown.named e (mem_nodes_of_clean hOld))
    exact ⟨hThen, fun hStyled => (hGrown.shown e.id hNew).trans (hSame hStyled)⟩
  kept := by
    intro e he
    rw [hGrown.removedDirty, hGrown.dirtyOverflow]
    refine (h.kept e he).imp_left fun hLive => ?_
    rw [live_iff_mem_ids] at hLive ⊢
    exact hGrown.ids.mem_iff.mpr (mem_cons_of_mem d.id hLive)
  room := hGrown.removedDirty ▸ h.room
  distinct := hGrown.removedDirty ▸ h.distinct
  gone := by
    intro k hk
    rw [hGrown.removedDirty] at hk
    obtain ⟨hNamed, hOut⟩ := h.gone k hk
    exact ⟨hNamed, hGone k hOut⟩

theorem Since.pruned (h : Since t₁ t) (hPruned : Pruned t node t')
    (hGone : ∀ k, t.Spent k ∧ ¬ t.Live k → t'.Spent k ∧ ¬ t'.Live k) : Since t₁ t' := by
  obtain ⟨ids, hRec, hIds, hDoomed⟩ := hPruned.removedDirty
  have hNotLive : ∀ k ∈ ids, ¬ t'.Live k := by
    rintro k hk ⟨e, he, rfl⟩
    obtain ⟨hThere, hOut⟩ := (hPruned.mem e).mp he
    obtain ⟨d, hd, hSame, hBelow⟩ := hDoomed e.id hk
    exact hOut (hSame ▸ hBelow)
  exact {
    sound := hPruned.sound
    revision := le_trans h.revision hPruned.revision
    clean := by
      intro d hd
      obtain ⟨hOld, hSame⟩ := h.clean d (hPruned.clean d hd)
      exact ⟨hOld, fun hStyled => (hPruned.shown d (mem_nodes_of_clean hd)).trans (hSame hStyled)⟩
    kept := by
      intro d hd
      rcases h.kept d hd with ⟨e, he, hSame⟩ | hRecorded | hFull
      · by_cases hBelow : InSubtree t.nodes e.id node
        · exact .inr (hSame ▸ hPruned.gone e he hBelow)
        · exact .inl ⟨e, (hPruned.mem e).mpr ⟨he, hBelow⟩, hSame⟩
      · rw [hRec]
        exact .inr (.inl (mem_append_left ids hRecorded))
      · exact .inr (.inr (hPruned.dirtyOverflow hFull))
    room := hPruned.room h.room
    distinct := by
      rw [hRec, nodup_append]
      refine ⟨h.distinct, hIds, ?_⟩
      rintro k hk j hj rfl
      obtain ⟨d, hd, hSame, -⟩ := hDoomed k hj
      exact (h.gone k hk).2.2 ⟨d, hd, hSame⟩
    gone := by
      intro k hk
      rw [hRec] at hk
      rcases mem_append.mp hk with hOld | hNew
      · obtain ⟨hNamed, hOut⟩ := h.gone k hOld
        exact ⟨hNamed, hGone k hOut⟩
      obtain ⟨d, hd, rfl, -⟩ := hDoomed k hNew
      refine ⟨(h.sound.nodes.valid d hd).named, ?_, hNotLive d.id hNew⟩
      rw [Spent, hPruned.nextId]
      exact h.sound.spent_of_live ⟨d, hd, rfl⟩ }

/-- A step that drains nothing and marks all it shows or hides. -/
theorem Since.step (h : Since t₁ t) {op : TreeOp} (hDrains : op ≠ .takeRendererDelta)
    (hMarks : MarksAll t op) : Since t₁ (t.step op).1 := by
  have hGone : ∀ k, t.Spent k ∧ ¬ t.Live k →
      (t.step op).1.Spent k ∧ ¬ (t.step op).1.Live k := fun k hk => h.sound.gone_step hk op
  have hEffect := h.sound.effect op
  have hOutput : (t.step op).2 = (t.step op).2 := rfl
  generalize hr : t.step op = r at hEffect hGone
  cases hEffect with
  | steady hSteady =>
    exact h.retouched hSteady.sound hSteady.retouch fun d _ _ => hSteady.shown d.id
  | @written node v state slot t₂ hFound hReleased hSound =>
    have hRetouch := h.sound.retouch_write hReleased node v state
    refine h.retouched hSound hRetouch fun d hd hStyled => ?_
    have hAcc : (t.setState node state).2 = .ok () := by
      have hDone : TreeOutput.done (t.setState node state).2 = .done (.ok ()) :=
        congrArg Prod.snd hr
      simpa using hDone
    have hDist := (h.sound.steady_released hReleased).sound.nodes.distinct
    have hOther := ((mem_clean_editSpec (t := { t₂ with focused := v }) hDist).mp hd).2
    exact h.sound.shown_written_of_not_exposed hReleased hFound
      (hMarks node state slot rfl hFound hAcc) (hRetouch.clean d hd) hStyled hOther
  | grown hGrown => exact h.grown hGrown hGone
  | pruned hPruned => exact h.pruned hPruned hGone
  | drained => exact absurd rfl hDrains

/-- Draining starts a frame: every node is clean, and nothing is on record. -/
theorem Sound.since_drained (h : t.Sound) : Since t t.takeRendererDelta.1 where
  sound := h.takeRendererDelta
  revision := by simp [SemanticTree.takeRendererDelta, h.valid]
  clean := by
    intro d hd
    have hThere := mem_nodes_of_clean hd
    rw [h.nodes_takeRendererDelta] at hThere ⊢
    exact ⟨hThere, fun _ => Iff.rfl⟩
  kept := by
    intro d hd
    rw [← h.nodes_takeRendererDelta] at hd
    exact .inl ⟨d, hd, rfl⟩
  room := by simp [SemanticTree.takeRendererDelta, h.valid]
  distinct := by simp [SemanticTree.takeRendererDelta, h.valid]
  gone := by simp [SemanticTree.takeRendererDelta, h.valid]

/-- What a drained record says: the ids of the nodes that are not clean, and those removed. -/
theorem Sound.delta_eq (h : t.Sound) :
    t.takeRendererDelta.2.revision = t.revision ∧
    (t.takeRendererDelta.2.changed.Nodup ∧ t.takeRendererDelta.2.changed.length ≤ maxUiNodes) ∧
    (∀ k ∈ t.takeRendererDelta.2.changed, k ≠ 0 ∧ t.Live k) ∧
    (∀ d ∈ t.nodes, d ∈ t.clean ∨ d.id ∈ t.takeRendererDelta.2.changed) ∧
    t.takeRendererDelta.2.removed.Perm t.removedDirty ∧
    t.takeRendererDelta.2.fullResyncRequired = t.dirtyOverflow := by
  have hDelta : t.takeRendererDelta.2 = {
      revision := t.revision
      changed := sortNodeIds ((t.slots.filter fun slot => slot.occupied && slot.dirty).map
        fun slot => slot.descriptor.id)
      removed := sortNodeIds t.removedDirty
      fullResyncRequired := t.dirtyOverflow } := by
    simp only [SemanticTree.takeRendererDelta, h.valid, Bool.not_true, Bool.false_eq_true, if_false]
  have hPerm : ∀ ids : List UiNodeId, (sortNodeIds ids).Perm ids := perm_insertionSort _
  have hSub : ((t.slots.filter fun slot => slot.occupied && slot.dirty).map
      fun slot => slot.descriptor.id).Sublist (t.nodes.map UiNodeDescriptor.id) := by
    rw [SemanticTree.nodes, map_map]
    refine List.Sublist.map _ (monotone_filter_right _ fun s hs => ?_)
    simp only [Bool.and_eq_true] at hs
    exact hs.1
  rw [hDelta]
  refine ⟨rfl, ⟨?_, ?_⟩, ?_, ?_, hPerm _, rfl⟩
  · exact (hPerm _).nodup_iff.mpr (h.nodes.distinct.sublist hSub)
  · rw [(hPerm _).length_eq, length_map, ← h.capacity]
    exact length_filter_le _ _
  · intro k hk
    obtain ⟨d, hd, rfl⟩ := mem_map.mp (hSub.subset ((hPerm _).mem_iff.mp hk))
    exact ⟨(h.nodes.valid d hd).named, d, hd, rfl⟩
  intro d hd
  obtain ⟨s, hs, hOcc, rfl⟩ := mem_nodes.mp hd
  cases hDirty : s.dirty with
  | false => exact .inl (mem_clean.mpr ⟨s, hs, hOcc, hDirty, rfl⟩)
  | true =>
    refine .inr ((hPerm _).mem_iff.mpr (mem_map.mpr ⟨s, ?_, rfl⟩))
    exact mem_filter.mpr ⟨hs, by simp [hOcc, hDirty]⟩

section Frames

variable {options : RenderBuildOptions} {previous next : RenderCommandBuffer}

theorem Frame.commandBufferValid (hFrame : Frame t options previous) (h : t.Sound) :
    commandBufferValid previous = true := by
  have hLen : previous.commands.length ≤ maxUiNodes := by
    have hSame := congrArg length hFrame.sources
    rw [length_map, length_map] at hSame
    rw [hSame]
    exact le_trans (length_filter_le _ _) h.length_sorted
  have hNodup : (previous.commands.map RenderCommand.source).Nodup :=
    (pairwise_map.mpr (hFrame.sorted h)).imp UInt32.ne_of_lt
  have hStarted : previous.revision ≠ 0 := by
    rw [hFrame.revision]
    exact Nat.ne_of_gt h.started
  have hEach : ∀ command ∈ previous.commands,
      command.source ≠ 0 ∧ command.bounds.bounded = true := by
    intro command hCmd
    obtain ⟨d, hd, hBuilt⟩ := hFrame.mem_iff.mp hCmd
    obtain ⟨hSrc, hBounds⟩ := buildCommand_source hBuilt
    have hValid := h.nodes.valid d (h.mem_emitting.mp hd).1
    rw [hSrc, hBounds]
    exact ⟨hValid.named, hValid.bounded⟩
  unfold OsUi.commandBufferValid
  rw [if_neg (by omega), if_neg fun hBoth => hStarted hBoth.2]
  simp only [Bool.and_eq_true, all_eq_true, bne_iff_ne, decide_eq_true_eq]
  exact ⟨hEach, hNodup⟩

/-- The command of a node is the one built from it. -/
theorem Frame.findCommand_eq_some_iff (hFrame : Frame t options previous) (h : t.Sound)
    {id : UiNodeId} {command : RenderCommand} :
    findCommand previous id = some command ↔
      ∃ d ∈ t.nodes, d.id = id ∧ Shown t.nodes d.id ∧ d.spec.style ≠ 0 ∧
        buildCommand options d = .ok command := by
  constructor
  · intro hFound
    obtain ⟨d, hd, hBuilt⟩ := hFrame.mem_iff.mp (mem_of_find?_eq_some hFound)
    obtain ⟨hThere, hShown, hStyled⟩ := h.mem_emitting.mp hd
    have hSrc : command.source = id := by simpa using find?_some hFound
    exact ⟨d, hThere, (buildCommand_source hBuilt).1.symm.trans hSrc, hShown, hStyled, hBuilt⟩
  · rintro ⟨d, hd, rfl, hShown, hStyled, hBuilt⟩
    have hMem := hFrame.mem_iff.mpr ⟨d, h.mem_emitting.mpr ⟨hd, hShown, hStyled⟩, hBuilt⟩
    cases hFound : findCommand previous d.id with
    | none =>
      have hAbsent := find?_eq_none.mp hFound command hMem
      simp [(buildCommand_source hBuilt).1] at hAbsent
    | some other =>
      obtain ⟨e, he, hOther⟩ := hFrame.mem_iff.mp (mem_of_find?_eq_some hFound)
      have hSrc : other.source = d.id := by simpa using find?_some hFound
      have hId : e.id = d.id := (buildCommand_source hOther).1.symm.trans hSrc
      rw [h.nodes.eq_of_id (h.mem_emitting.mp he).1 hd hId, hBuilt] at hOther
      cases hOther
      rfl

/-- A node that is clean at the second frame has the same command in both. -/
theorem Since.findCommand_of_clean (hSince : Since t₁ t) (h₁ : t₁.Sound)
    (hPrev : Frame t₁ options previous) (hNext : Frame t options next) (hd : d ∈ t.clean) :
    findCommand previous d.id = findCommand next d.id := by
  obtain ⟨hThen, hShown⟩ := hSince.clean d hd
  have hNow := mem_nodes_of_clean hd
  refine Option.ext fun command => ?_
  rw [hPrev.findCommand_eq_some_iff h₁, hNext.findCommand_eq_some_iff hSince.sound]
  constructor
  · rintro ⟨e, he, hId, hSeen, hStyled, hBuilt⟩
    cases h₁.nodes.eq_of_id he hThen hId
    exact ⟨d, hNow, rfl, (hShown hStyled).mpr hSeen, hStyled, hBuilt⟩
  · rintro ⟨e, he, hId, hSeen, hStyled, hBuilt⟩
    cases hSince.sound.nodes.eq_of_id he hNow hId
    exact ⟨d, hThen, rfl, (hShown hStyled).mp hSeen, hStyled, hBuilt⟩

theorem Since.deltaValid (hSince : Since t₁ t) : deltaValid t.takeRendererDelta.2 = true := by
  obtain ⟨hRevision, ⟨hNodup, hLen⟩, hChanged, -, hRemoved, -⟩ := hSince.sound.delta_eq
  have hStarted := hSince.sound.started
  have hRoom : t.takeRendererDelta.2.removed.length ≤ maxUiNodes := by
    rw [hRemoved.length_eq]
    exact hSince.room
  have hGone : ∀ k ∈ t.takeRendererDelta.2.removed, k ≠ 0 ∧ ¬ t.Live k := by
    intro k hk
    obtain ⟨hNamed, -, hOut⟩ := hSince.gone k (hRemoved.mem_iff.mp hk)
    exact ⟨hNamed, hOut⟩
  unfold OsUi.deltaValid
  rw [if_neg (by omega)]
  simp only [Bool.and_eq_true, all_eq_true, bne_iff_ne, decide_eq_true_eq,
    Bool.not_eq_true', contains_eq_mem, decide_eq_false_iff_not]
  refine ⟨⟨⟨fun k hk => ⟨(hChanged k hk).1, fun hBoth => ?_⟩, hNodup⟩, fun k hk => (hGone k hk).1⟩,
    hRemoved.nodup_iff.mpr hSince.distinct⟩
  exact (hGone k hBoth).2 (hChanged k hk).2

/-- The plan made of the drained record covers every change since the last frame. -/
theorem Since.plan_covers (hSince : Since t₁ t) (h₁ : t₁.Sound)
    (hPrev : Frame t₁ options previous) (hNext : Frame t options next) :
    ∃ plan, planRenderDamage previous next t.takeRendererDelta.2 = .ok plan ∧
      CoversChanges previous next plan := by
  have h := hSince.sound
  obtain ⟨hRevision, -, -, hDirty, hRemoved, hOverflow⟩ := h.delta_eq
  have hBounded : ∀ {t : SemanticTree} {buffer : RenderCommandBuffer}, t.Sound →
      Frame t options buffer → ∀ c ∈ buffer.commands, c.bounds.bounded = true := by
    intro t buffer hSound hFrame c hc
    obtain ⟨d, hd, hBuilt⟩ := hFrame.mem_iff.mp hc
    rw [(buildCommand_source hBuilt).2]
    exact (hSound.nodes.valid d (hSound.mem_emitting.mp hd).1).bounded
  have hAbsent : ∀ id ∈ t.takeRendererDelta.2.removed, findCommand next id = none := by
    intro id hId
    cases hFound : findCommand next id with
    | none => rfl
    | some =>
      obtain ⟨d, hd, rfl, -⟩ := (hNext.findCommand_eq_some_iff h).mp hFound
      exact absurd ⟨d, hd, rfl⟩ (hSince.gone _ (hRemoved.mem_iff.mp hId)).2.2
  have hOrder : previous.revision ≤ next.revision := by
    rw [hPrev.revision, hNext.revision]
    exact hSince.revision
  obtain ⟨plan, hPlan, hFull, hChangedIn, hRemovedIn⟩ := planRenderDamage_spec
    (hBounded h₁ hPrev) (hBounded h hNext) (hPrev.commandBufferValid h₁)
    (hNext.commandBufferValid h) hSince.deltaValid (hRevision.trans hNext.revision.symm) hOrder
    hAbsent
  refine ⟨plan, hPlan, ?_⟩
  by_cases hOpen : plan.fullRedraw = true
  · exact .inl hOpen
  refine .inr fun id hDiffer => ?_
  have hNoResync : t.dirtyOverflow ≠ true := by
    rw [← hOverflow]
    exact fun hResync => hOpen (hFull hResync)
  -- a node in the tree is dirty, because a clean one would have the same command
  have hLive : t.Live id → (∀ c ∈ findCommand previous id, Covered plan.rects c.bounds) ∧
      ∀ c ∈ findCommand next id, Covered plan.rects c.bounds := by
    rintro ⟨d, hd, rfl⟩
    rcases hDirty d hd with hClean | hChanged
    · exact absurd (hSince.findCommand_of_clean h₁ hPrev hNext hClean) hDiffer
    · obtain ⟨hOld, hNew⟩ := hChangedIn d.id hChanged
      exact ⟨covered_of_includes hOpen hOld, covered_of_includes hOpen hNew⟩
  by_cases hThere : t.Live id
  · exact hLive hThere
  refine ⟨fun c hc => ?_, fun c hc => ?_⟩
  · obtain ⟨d, hd, rfl, -⟩ := (hPrev.findCommand_eq_some_iff h₁).mp hc
    rcases hSince.kept d hd with hStill | hGone | hFull
    · exact absurd hStill hThere
    · exact covered_of_includes hOpen (hRemovedIn d.id (hRemoved.mem_iff.mpr hGone)) c hc
    · exact absurd hFull hNoResync
  · obtain ⟨d, hd, rfl, -⟩ := (hNext.findCommand_eq_some_iff h).mp hc
    exact absurd ⟨d, hd, rfl⟩ hThere

end Frames

/-- What happens between two frames drains nothing, and marks all it shows or hides. -/
def BetweenFrames (t : SemanticTree) (op : TreeOp) : Prop := op ≠ .takeRendererDelta ∧ MarksAll t op

/-- Between two frames any number of edits may be made: if each marks what it shows or hides, the
damage planned from the delta covers every command that changed. -/
theorem damage_covers_changed_commands {rootBounds : LogicalRect}
    (hValid : (make rootBounds).valid = true) (before between : List TreeOp)
    (hBetween : Run.EachStep step BetweenFrames
      (after step (make rootBounds) before).takeRendererDelta.1 between)
    {options : RenderBuildOptions} {previous next : RenderCommandBuffer}
    (hPrev : buildRenderCommands (after step (make rootBounds) before).rendererSnapshot
      options = .ok previous)
    (hNext : buildRenderCommands (after step
      (after step (make rootBounds) before).takeRendererDelta.1 between).rendererSnapshot
      options = .ok next) :
    ∃ plan, planRenderDamage previous next (after step
        (after step (make rootBounds) before).takeRendererDelta.1
        between).takeRendererDelta.2 = .ok plan ∧
      CoversChanges previous next plan := by
  have hStart := sound_after hValid before
  have hSince := (always_of_step (P := Since (after step (make rootBounds) before))
    hStart.since_drained (fun t op h hOp => h.step hOp.1 hOp.2) hBetween).final
  exact hSince.plan_covers hStart (hStart.frame_of_ok hPrev) (hSince.sound.frame_of_ok hNext)

/-- A square, as far across as one logical pixel. -/
def tile : LogicalRect := { widthQ6 := 64, heightQ6 := 64 }

/-- The same square, a little to the right. -/
def besideTile : LogicalRect := { tile with xQ6 := 128 }

/-- A styled container, with a styled node beside it as its child. -/
def containerAndChild : List TreeOp :=
  [.add 1 { bounds := tile, style := StyleTokens.surface },
    .add 2 { bounds := besideTile, style := StyleTokens.surface }]

/-- Hiding the container hides the child as well. -/
def hideContainer : List TreeOp := [.setState 2 { visible := false }]

/-- What the frames before and after hiding come to, computed. -/
theorem hideContainer_values :
    (make tile).valid = true ∧
    (∀ d ∈ (after step (make tile) containerAndChild).takeRendererDelta.1.nodes, d.parent ≠ 3) ∧
    (do
      let first := after step (make tile) containerAndChild
      let hidden := after step first.takeRendererDelta.1 hideContainer
      let previous ← buildRenderCommands first.rendererSnapshot {}
      let next ← buildRenderCommands hidden.rendererSnapshot {}
      let plan ← planRenderDamage previous next hidden.takeRendererDelta.2
      .ok ((findCommand previous 3).map RenderCommand.bounds, findCommand next 3, plan)) =
    .ok (some besideTile, none, { revision := 4, rects := [tile] }) := by
  decide +kernel

/-- The child vanishes with its container, and nothing redraws where it was. -/
theorem vanished_child_is_not_covered :
    (make tile).valid = true ∧
    ∃ previous next plan,
      buildRenderCommands (after step (make tile) containerAndChild).rendererSnapshot {} =
        .ok previous ∧
      buildRenderCommands (after step
        (after step (make tile) containerAndChild).takeRendererDelta.1
        hideContainer).rendererSnapshot {} = .ok next ∧
      planRenderDamage previous next (after step
        (after step (make tile) containerAndChild).takeRendererDelta.1
        hideContainer).takeRendererDelta.2 = .ok plan ∧
      ¬ CoversChanges previous next plan := by
  obtain ⟨hValid, -, hValues⟩ := hideContainer_values
  obtain ⟨previous, hPrev, hValues⟩ := bind_eq_ok_iff.mp hValues
  obtain ⟨next, hNext, hValues⟩ := bind_eq_ok_iff.mp hValues
  obtain ⟨plan, hPlan, hValues⟩ := bind_eq_ok_iff.mp hValues
  simp only [Except.ok.injEq, Prod.mk.injEq, Option.map_eq_some_iff] at hValues
  obtain ⟨⟨command, hOld, hBounds⟩, hGone, rfl⟩ := hValues
  refine ⟨hValid, previous, next, _, hPrev, hNext, hPlan, ?_⟩
  rintro (hFull | hCovers)
  · simp at hFull
  · have hDiffer : findCommand previous 3 ≠ findCommand next 3 := by
      rw [hOld, hGone]
      exact Option.some_ne_none command
    have hInside : pointInside command.bounds { xQ6 := 128 } = true := by
      rw [hBounds]
      decide
    obtain ⟨r, hr, hCover⟩ := (hCovers 3 hDiffer).1 command hOld { xQ6 := 128 } hInside
    cases mem_singleton.mp hr
    exact absurd hCover (by decide)

/-- Hiding the child itself leaves nothing uncovered. -/
theorem damage_covers_changed_commands_hidden_child :
    (make tile).valid = true ∧
    ∃ previous next plan,
      buildRenderCommands (after step (make tile) containerAndChild).rendererSnapshot {} =
        .ok previous ∧
      buildRenderCommands (after step
        (after step (make tile) containerAndChild).takeRendererDelta.1
        [.setState 3 { visible := false }]).rendererSnapshot {} = .ok next ∧
      planRenderDamage previous next (after step
        (after step (make tile) containerAndChild).takeRendererDelta.1
        [.setState 3 { visible := false }]).takeRendererDelta.2 = .ok plan ∧
      CoversChanges previous next plan := by
  have hValid := hideContainer_values.1
  have hSound := sound_after hValid containerAndChild
  have hHidden := hSound.takeRendererDelta.step (.setState 3 { visible := false })
  obtain ⟨previous, hPrev, -⟩ := hSound.buildRenderCommands_eq_ok default_options_valid
  obtain ⟨next, hNext, -⟩ := hHidden.buildRenderCommands_eq_ok default_options_valid
  have hBetween : Run.EachStep step BetweenFrames
      (after step (make tile) containerAndChild).takeRendererDelta.1
      [.setState 3 { visible := false }] := by
    intro n op hOp
    have hLen : n < 1 := (List.getElem?_eq_some_iff.mp hOp).1
    obtain rfl : n = 0 := by omega
    cases hOp
    refine ⟨by simp, ?_⟩
    rintro node state slot hSame - - - d ⟨hClean, -, hOther, hBelow, -⟩
    cases hSame
    obtain hEnd | ⟨b, -, e, he, -, hPar, -⟩ := Relation.ReflTransGen.cases_tail hBelow
    · exact hOther hEnd.symm
    · exact hideContainer_values.2.1 e he hPar
  obtain ⟨plan, hPlan, hCovers⟩ := damage_covers_changed_commands hValid containerAndChild
    [.setState 3 { visible := false }] hBetween hPrev hNext
  exact ⟨hValid, previous, next, plan, hPrev, hNext, hPlan, hCovers⟩

end SemanticTree

end Enml.OsUi
