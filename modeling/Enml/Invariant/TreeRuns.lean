import Enml.Invariant.TreeGrowth
import Enml.Lib.Run

/-! Steps and runs of the tree: what a step can do, the ids it gives out, and the
states a run reaches. -/
namespace Enml.OsUi

open Enml.Core ParentLinks List

namespace SemanticTree

variable {t : SemanticTree} {k : UiNodeId} {d : UiNodeDescriptor}

theorem Sound.nodes_takeRendererDelta (h : t.Sound) : t.takeRendererDelta.1.nodes = t.nodes := by
  have hKept : ∀ slots : List Slot, ((slots.map fun slot =>
        if slot.occupied && slot.dirty then { slot with dirty := false } else slot).filter
          Slot.occupied).map Slot.descriptor =
        (slots.filter Slot.occupied).map Slot.descriptor := by
    intro slots
    induction slots with
    | nil => rfl
    | cons s _ ih =>
      simp only [Bool.and_eq_true] at ih
      cases hOcc : s.occupied <;> cases hDirty : s.dirty <;> simp [hOcc, hDirty, ih]
  simp only [takeRendererDelta, h.valid, Bool.not_true, Bool.false_eq_true, if_false]
  exact hKept t.slots

theorem Sound.takeRendererDelta (h : t.Sound) : t.takeRendererDelta.1.Sound := by
  have hNodes := h.nodes_takeRendererDelta
  have hRest : t.takeRendererDelta.1 = { t with
      slots := t.takeRendererDelta.1.slots, removedDirty := [], dirtyOverflow := false } := by
    simp only [SemanticTree.takeRendererDelta, h.valid, Bool.not_true, Bool.false_eq_true, if_false]
  have hLen : t.takeRendererDelta.1.slots.length = t.slots.length := by
    simp [SemanticTree.takeRendererDelta, h.valid]
  rw [hRest] at hNodes ⊢
  exact {
    valid := h.valid
    rootId := h.rootId
    capacity := hLen.trans h.capacity
    nodes := hNodes ▸ h.nodes
    counted := h.counted.trans (by rw [hNodes])
    fresh := hNodes ▸ h.fresh
    named := hNodes ▸ h.named
    honest := hNodes ▸ h.honest
    started := h.started
    fits := h.fits }

theorem Sound.steady_released (h : t.Sound) {t₁ : SemanticTree}
    (hReleased : t₁ = t ∨ t₁ = t.clearFocus) : Steady t t₁ := by
  rcases hReleased with rfl | rfl
  · exact h.steady_refl
  · exact h.steady_clearFocus

theorem Sound.retouch_write (h : t.Sound) {t₁ : SemanticTree}
    (hReleased : t₁ = t ∨ t₁ = t.clearFocus) (node v : UiNodeId) (state : UiNodeState) :
    Retouch t ({ t₁ with focused := v }.editSpec node (withState state)) :=
  have hSteady := h.steady_released hReleased
  hSteady.retouch.trans (retouch_rewrite hSteady.sound.nodes.distinct v)

/-- What a step can do to a sound tree. -/
inductive Effect (t : SemanticTree) : TreeOp → SemanticTree × TreeOutput → Prop where
  | steady {op : TreeOp} {t' : SemanticTree} {output : TreeOutput} (hSteady : Steady t t')
      (hRefused : output.refused = true → t' = t) : Effect t op (t', output)
  | written {node v : UiNodeId} {state : UiNodeState} {slot : Slot} {t₁ : SemanticTree}
      (hFound : t.find node = some slot) (hReleased : t₁ = t ∨ t₁ = t.clearFocus)
      (hSound : ({ t₁ with focused := v }.editSpec node (withState state)).Sound) :
      Effect t (.setState node state)
        ({ t₁ with focused := v }.editSpec node (withState state), .done (.ok ()))
  | grown {parent : UiNodeId} {spec : UiNodeSpec} {d : UiNodeDescriptor} {t' : SemanticTree}
      (hGrown : Grown t d t') : Effect t (.add parent spec) (t', .added (.ok d))
  | pruned {node : UiNodeId} {t' : SemanticTree} (hPruned : Pruned t node t') :
      Effect t (.removeSubtree node) (t', .done (.ok ()))
  | drained : Effect t .takeRendererDelta
      (t.takeRendererDelta.1, .drained t.takeRendererDelta.2)

theorem Settled.effect {r : SemanticTree × Result Unit} (h : Settled t r) {op : TreeOp} :
    Effect t op (r.1, .done r.2) := by
  refine .steady h.steady ?_
  cases hRes : r.2 with
  | ok => simp [TreeOutput.refused]
  | error e => exact fun _ => h.refused e hRes

theorem Sound.effect (h : t.Sound) (op : TreeOp) : Effect t op (t.step op) := by
  cases op with
  | add parent spec =>
    rcases h.add_cases parent spec with ⟨e, hRes⟩ | ⟨d, t', hRes, hGrown⟩
    · simp only [step, hRes]
      exact .steady h.steady_refl fun _ => rfl
    · simp only [step, hRes]
      exact .grown hGrown
  | removeSubtree node =>
    rcases h.removeSubtree_cases node with ⟨e, hRes⟩ | ⟨t', hRes, hPruned⟩
    · simp only [step, hRes]
      exact .steady h.steady_refl fun _ => rfl
    · simp only [step, hRes]
      exact .pruned hPruned
  | setBounds => exact (settled_setBounds h).effect
  | setState node state =>
    rcases h.setState_cases node state with
      ⟨r, hRes⟩ | ⟨slot, t₁, v, hFound, hReleased, hRes, hSound⟩
    · simp only [step, hRes]
      exact .steady h.steady_refl fun _ => rfl
    · simp only [step, hRes]
      exact .written hFound hReleased hSound
  | setLabel => exact (settled_setLabel h).effect
  | setStyle => exact (settled_setStyle h).effect
  | focus => exact (settled_focus h).effect
  | clearFocus =>
    exact .steady h.steady_clearFocus fun hRefused => by simp [TreeOutput.refused] at hRefused
  | takeRendererDelta => exact .drained

theorem Sound.step (h : t.Sound) (op : TreeOp) : (t.step op).1.Sound := by
  have hEffect := h.effect op
  generalize t.step op = r at hEffect
  cases hEffect with
  | steady hSteady => exact hSteady.sound
  | written _ _ hSound => exact hSound
  | grown hGrown => exact hGrown.sound
  | pruned hPruned => exact hPruned.sound
  | drained => exact h.takeRendererDelta

/-- A node with this id is in the tree. -/
def Live (t : SemanticTree) (k : UiNodeId) : Prop := ∃ d ∈ t.nodes, d.id = k

/-- An id below the counter has been given out, and none is left when it is zero. -/
def Spent (t : SemanticTree) (k : UiNodeId) : Prop := t.nextId = 0 ∨ k < t.nextId

theorem Sound.spent_of_live (h : t.Sound) (hLive : t.Live k) : t.Spent k := by
  obtain ⟨d, hd, rfl⟩ := hLive
  by_cases hNext : t.nextId = 0
  · exact .inl hNext
  · exact .inr (h.fresh hNext d hd)

/-- A step gives out no id but the one the counter stands at. -/
theorem Sound.ids_step (h : t.Sound) (op : TreeOp) :
    ((t.step op).1.nextId = t.nextId ∧ ∀ k, (t.step op).1.Live k → t.Live k) ∨
      (t.nextId ≠ 0 ∧ (t.step op).1.nextId = t.nextId + 1 ∧
        ∀ k, (t.step op).1.Live k → k = t.nextId ∨ t.Live k) := by
  have hRetouched : ∀ t', Retouch t t' → ∀ k, t'.Live k → t.Live k := by
    rintro t' hRetouch k ⟨d, hd, rfl⟩
    have hId : d.id ∈ t'.nodes.map UiNodeDescriptor.id := mem_map_of_mem hd
    rw [hRetouch.ids] at hId
    obtain ⟨e, he, hSame⟩ := mem_map.mp hId
    exact ⟨e, he, hSame⟩
  have hEffect := h.effect op
  generalize t.step op = r at hEffect
  cases hEffect with
  | steady hSteady => exact .inl ⟨hSteady.retouch.nextId, hRetouched _ hSteady.retouch⟩
  | @written node v state _ _ _ hReleased _ =>
    have hAll := h.retouch_write hReleased node v state
    exact .inl ⟨hAll.nextId, hRetouched _ hAll⟩
  | @grown _ _ d t' hGrown =>
    refine .inr ⟨hGrown.named, hGrown.nextId, ?_⟩
    rintro k ⟨e, he, rfl⟩
    have hId := hGrown.ids.mem_iff.mp (mem_map_of_mem (f := UiNodeDescriptor.id) he)
    rcases mem_cons.mp hId with hNew | hOld
    · exact .inl (hNew.trans hGrown.id)
    · obtain ⟨g, hg, hSame⟩ := mem_map.mp hOld
      exact .inr ⟨g, hg, hSame⟩
  | pruned hPruned =>
    refine .inl ⟨hPruned.nextId, ?_⟩
    rintro k ⟨d, hd, rfl⟩
    exact ⟨d, ((hPruned.mem d).mp hd).1, rfl⟩
  | drained =>
    refine .inl ⟨?_, ?_⟩
    · simp [SemanticTree.takeRendererDelta, h.valid]
    · rintro k ⟨d, hd, rfl⟩
      rw [h.nodes_takeRendererDelta] at hd
      exact ⟨d, hd, rfl⟩

theorem Sound.spent_step (h : t.Sound) (hSpent : t.Spent k) (op : TreeOp) :
    (t.step op).1.Spent k := by
  rcases h.ids_step op with ⟨hNext, -⟩ | ⟨hNamed, hNext, -⟩
  · rw [Spent, hNext]
    exact hSpent
  rw [Spent, hNext]
  by_cases hLast : t.nextId + 1 = 0
  · exact .inl hLast
  have hStep : t.nextId < t.nextId + 1 := by
    refine UInt32.lt_add_one fun hMax => hLast ?_
    rw [hMax]
    rfl
  exact .inr (UInt32.lt_trans (hSpent.resolve_left hNamed) hStep)

/-- An id that has been given out and is no longer in the tree does not return. -/
theorem Sound.gone_step (h : t.Sound) (hGone : t.Spent k ∧ ¬ t.Live k)
    (op : TreeOp) : (t.step op).1.Spent k ∧ ¬ (t.step op).1.Live k := by
  refine ⟨h.spent_step hGone.1 op, fun hLive => ?_⟩
  rcases h.ids_step op with ⟨-, hOld⟩ | ⟨hNamed, -, hOld⟩
  · exact hGone.2 (hOld k hLive)
  rcases hOld k hLive with rfl | hStill
  · rcases hGone.1 with hZero | hBelow
    · exact hNamed hZero
    · exact UInt32.lt_irrefl _ hBelow
  · exact hGone.2 hStill

/-- The only node of a new tree. -/
def rootNode (rootBounds : LogicalRect) : UiNodeDescriptor :=
  { id := 1, spec := { role := .root, bounds := rootBounds, style := StyleTokens.surface } }

variable {rootBounds : LogicalRect}

theorem make_eq (hBounded : rootBounds.bounded = true) :
    make rootBounds =
      { slots := { occupied := true, dirty := true, descriptor := rootNode rootBounds } ::
          List.replicate (maxUiNodes - 1) {}
        rootId := 1
        nextId := 2
        nodeCount := 1
        revision := 1
        valid := true } := by
  rw [make, hBounded]
  rfl

theorem nodes_make (hBounded : rootBounds.bounded = true) :
    (make rootBounds).nodes = [rootNode rootBounds] := by
  simp [nodes, make_eq hBounded]

theorem nodeValid_rootNode (hBounded : rootBounds.bounded = true) :
    NodeValid (rootNode rootBounds) where
  named := (by decide : (1 : UiNodeId) ≠ 0)
  depth := Nat.zero_le _
  bounded := hBounded
  style := (by decide : styleTokenValid StyleTokens.surface = true)
  actions := (by decide : actionsValid .root 0 = true)
  label := by simp [rootNode, labelValidForRole, semanticTextValid, SemanticText.view, validUtf8,
    interactiveRole]
  state := (by decide : stateValid .root 0 {} = true)

theorem wellFormed_root (hBounded : rootBounds.bounded = true) :
    WellFormed [rootNode rootBounds] where
  distinct := by simp
  valid := by simpa using nodeValid_rootNode hBounded
  rooted := ⟨_, mem_singleton_self _, rfl⟩
  root := by simp [rootNode]
  child := by simp [rootNode]
  fanout := by
    intro k
    have hOne := countP_le_length (p := fun d => d.parent == k) (l := [rootNode rootBounds])
    exact le_trans hOne (by decide : 1 ≤ maxUiChildrenPerNode)

theorem sound_make (hBounded : rootBounds.bounded = true) : (make rootBounds).Sound := by
  have hNodes := nodes_make hBounded
  have hTree := make_eq hBounded
  exact {
    valid := by rw [hTree]
    rootId := by rw [hTree]
    capacity := by
      rw [hTree, length_cons, length_replicate]
      rfl
    nodes := hNodes ▸ wellFormed_root hBounded
    counted := by
      rw [hNodes, hTree]
      rfl
    fresh := by
      rw [hNodes, hTree]
      simp [rootNode]
    named := by
      rw [hNodes]
      simp [rootNode]
    honest := by
      rw [hTree]
      exact fun hZero => absurd rfl hZero
    started := by
      rw [hTree]
      exact Nat.one_pos
    fits := by
      rw [hTree]
      exact (by decide : 1 ≤ revisionMax) }

theorem bounded_of_valid (hValid : (make rootBounds).valid = true) : rootBounds.bounded = true := by
  cases hBounded : rootBounds.bounded with
  | true => rfl
  | false =>
    rw [make, hBounded] at hValid
    simp at hValid

/-- Every state that a run from a valid tree reaches. -/
theorem sound_after (hValid : (make rootBounds).valid = true) (ops : List TreeOp) :
    (Run.after SemanticTree.step (make rootBounds) ops).Sound :=
  (Run.always_of_invariant (sound_make (bounded_of_valid hValid)) fun _ op h => h.step op).final

end SemanticTree

end Enml.OsUi
