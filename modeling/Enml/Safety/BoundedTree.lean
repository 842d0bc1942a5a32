import Enml.Invariant.TreeSnapshots

/-! Over whole runs the semantic tree stays a bounded tree with one honest
focus, and its snapshots are ones that their readers accept. -/
namespace Enml.OsUi

open Enml.Core Run

namespace SemanticTree

/-- What a reader may rely on in any state of the tree. -/
structure BoundedTree (t : SemanticTree) : Prop where
  distinct : (t.nodes.map UiNodeDescriptor.id).Nodup
  parent : ∀ d ∈ t.nodes, d.id ≠ t.rootId →
    ∃ p ∈ t.nodes, p.id = d.parent ∧ p.id < d.id ∧ roleCanHaveChildren p.spec.role = true ∧
      d.depth = p.depth + 1
  depth : ∀ d ∈ t.nodes, d.depth ≤ maxUiDepth
  children : ∀ d ∈ t.nodes, (t.nodes.countP fun e => e.parent == d.id) ≤ maxUiChildrenPerNode
  counted : t.nodeCount = t.slots.countP Slot.occupied
  focusHonest : ∀ d ∈ t.nodes, d.spec.state.focused = true →
    d.id = t.focused ∧ d.spec.state.enabled = true ∧ hasAction d.spec.actions .focus = true ∧
      Shown t.nodes d.id
  focusFlagged : t.focused ≠ 0 → ∃ d ∈ t.nodes, d.id = t.focused ∧ d.spec.state.focused = true
  rendererAccepts : Renderer.snapshotValid t.rendererSnapshot = true
  inputAccepts : Input.snapshotValid t.rendererSnapshot = true
  accessible : ∃ shown : List UiNodeDescriptor,
    t.accessibilitySnapshot = shown.map t.accessibilityNode ∧
    (shown.Pairwise fun a b => a.id < b.id) ∧
    ∀ d, d ∈ shown ↔ d ∈ t.nodes ∧ d.spec.accessibilityHidden = false ∧ Shown t.nodes d.id

/-- What a caller may rely on in any step. -/
structure HonestStep (t : SemanticTree) (op : TreeOp) : Prop where
  refused : (t.step op).2.refused = true → (t.step op).1 = t
  raised : (t.step op).1.nodes ≠ t.nodes →
    t.revision < (t.step op).1.revision ∨ t.revision = revisionMax
  removed : ∀ node, op = .removeSubtree node → (t.step op).2 = .done (.ok ()) →
    ∀ d, d ∈ (t.step op).1.nodes ↔ d ∈ t.nodes ∧ ¬ InSubtree t.nodes d.id node

variable {t : SemanticTree}

theorem Sound.boundedTree (h : t.Sound) : BoundedTree t where
  distinct := h.nodes.distinct
  parent := by
    rw [h.rootId]
    intro d hd hRoot
    exact (h.nodes.child d hd hRoot).2
  depth := fun d hd => (h.nodes.valid d hd).depth
  children := fun d _ => h.nodes.fanout d.id
  counted := by rw [h.counted, SemanticTree.nodes, List.length_map, List.countP_eq_length_filter]
  focusHonest := by
    intro d hd hFlag
    obtain ⟨-, hEnabled, hAction⟩ := stateValid_focused (h.nodes.valid d hd).state hFlag
    have hNamed := h.named d hd hFlag
    have hSome : t.focused ≠ 0 := hNamed ▸ (h.nodes.valid d hd).named
    obtain ⟨e, he, heId, -, hShown⟩ := h.honest hSome
    cases h.nodes.eq_of_id he hd (heId.trans hNamed.symm)
    exact ⟨hNamed, hEnabled, hAction, hShown⟩
  focusFlagged := by
    intro hSome
    obtain ⟨d, hd, hId, hFlag, -⟩ := h.honest hSome
    exact ⟨d, hd, hId, hFlag⟩
  rendererAccepts := h.renderer_accepts
  inputAccepts := h.input_accepts
  accessible := h.accessibilitySnapshot_eq

theorem Sound.honestStep (h : t.Sound) (op : TreeOp) : HonestStep t op where
  refused := by
    have hEffect := h.effect op
    generalize t.step op = r at hEffect
    cases hEffect with
    | steady _ hRefused => exact hRefused
    | written | grown | pruned | drained => simp [TreeOutput.refused]
  raised := by
    intro hChanged
    have hEffect := h.effect op
    generalize t.step op = r at hEffect hChanged
    cases hEffect with
    | steady hSteady => exact hSteady.retouch.raised.resolve_left hChanged
    | @written node v state _ _ _ hReleased _ =>
      exact (h.retouch_write hReleased node v state).raised.resolve_left hChanged
    | grown hGrown => exact hGrown.raised
    | pruned hPruned => exact hPruned.raised
    | drained => exact absurd h.nodes_takeRendererDelta hChanged
  removed := by
    rintro node rfl hDone
    rcases h.removeSubtree_cases node with ⟨e, hRes⟩ | ⟨t', hRes, hPruned⟩
    · simp [SemanticTree.step, hRes] at hDone
    · simpa only [SemanticTree.step, hRes] using hPruned.mem

theorem never_reused {rootBounds : LogicalRect} (hValid : (make rootBounds).valid = true)
    (ops : List TreeOp) {k : UiNodeId} {n m p : ℕ} (hnm : n ≤ m) (hmp : m ≤ p)
    (hBefore : (after step (make rootBounds) (ops.take n)).Live k)
    (hAfter : (after step (make rootBounds) (ops.take p)).Live k) :
    (after step (make rootBounds) (ops.take m)).Live k := by
  have hSound := fun i => sound_after hValid (ops.take i)
  have hSpent := (hSound n).spent_of_live hBefore
  by_contra hGone
  have hSpentThen := stable (P := fun t : SemanticTree => t.Sound ∧ t.Spent k)
    (fun t op hs => ⟨hs.1.step op, hs.1.spent_step hs.2 op⟩) hnm ⟨hSound n, hSpent⟩
  have hNever := stable (P := fun t : SemanticTree => t.Sound ∧ t.Spent k ∧ ¬ t.Live k)
    (fun t op hs => ⟨hs.1.step op, hs.1.gone_step hs.2 op⟩) hmp
    ⟨hSound m, hSpentThen.2, hGone⟩
  exact hNever.2.2 hAfter

/-- Every run from a valid tree keeps it a bounded tree with one honest focus,
step by step, and gives no id a second time. -/
theorem semantic_tree_stays_bounded {rootBounds : LogicalRect}
    (hValid : (make rootBounds).valid = true) (ops : List TreeOp) :
    Run.Always step BoundedTree (make rootBounds) ops ∧
      Run.EachStep step HonestStep (make rootBounds) ops ∧
      ∀ k n m p, n ≤ m → m ≤ p → (after step (make rootBounds) (ops.take n)).Live k →
        (after step (make rootBounds) (ops.take p)).Live k →
        (after step (make rootBounds) (ops.take m)).Live k := by
  have hSound := fun n => sound_after hValid (ops.take n)
  refine ⟨fun n => (hSound n).boundedTree, fun n op _ => (hSound n).honestStep op, ?_⟩
  intro k n m p hnm hmp
  exact never_reused hValid ops hnm hmp

/-- The bounds of a root one logical pixel across. -/
def oneDp : LogicalRect := { widthQ6 := 64, heightQ6 := 64 }

def focusable : UiNodeSpec where
  role := .button
  bounds := oneDp
  actions := actionMask .focus
  label := { bytes := Vector.replicate 160 65, length := 1 }

/-- A button in a panel has the focus when the panel is hidden, and a second one
is added to the panel that asks for it. -/
def hiddenFocus : List TreeOp :=
  [.add 1 { bounds := oneDp }, .add 2 focusable, .focus 3, .setState 2 { visible := false },
    .add 2 { focusable with state := { focused := true } }]

/-- The focus is taken from the first button and refused to the second. -/
theorem semantic_tree_stays_bounded_hidden :
    (make oneDp).valid = true ∧ Run.Always step BoundedTree (make oneDp) hiddenFocus ∧
      (after step (make oneDp) (hiddenFocus.take 3)).focused = 3 ∧
      (after step (make oneDp) hiddenFocus).focused = 0 ∧
      (after step (make oneDp) hiddenFocus).nodes.length = 3 := by
  have hValid : (make oneDp).valid = true := by decide +kernel
  refine ⟨hValid, (semantic_tree_stays_bounded hValid _).1, ?_, ?_, ?_⟩
  all_goals decide +kernel

end SemanticTree

end Enml.OsUi
