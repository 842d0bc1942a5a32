import Enml.Invariant.TreeRuns
import Enml.OsUi.Input

/-! The snapshots of a sound tree: both checks accept the renderer's, and every
walk on it decides whether a node is shown. -/
namespace Enml.OsUi

open ParentLinks List Renderer Input

variable {nodes : List UiNodeDescriptor}

namespace SemanticTree

instance : Std.Total fun a b : UiNodeDescriptor => a.id ≤ b.id where
  total a b := UInt32.le_total a.id b.id

instance : IsTrans UiNodeDescriptor fun a b => a.id ≤ b.id where
  trans _ _ _ := UInt32.le_trans

theorem sortNodes_perm (nodes : List UiNodeDescriptor) : (sortNodes nodes).Perm nodes :=
  perm_insertionSort _ nodes

/-- With distinct ids the order is strict. -/
theorem sortNodes_sorted (hDist : (nodes.map UiNodeDescriptor.id).Nodup) :
    (sortNodes nodes).Pairwise fun a b => a.id < b.id := by
  have hSorted : (sortNodes nodes).Pairwise fun a b => a.id ≤ b.id := pairwise_insertionSort _ nodes
  have hNodup : ((sortNodes nodes).map UiNodeDescriptor.id).Nodup :=
    ((sortNodes_perm nodes).map _).nodup_iff.mpr hDist
  rw [List.Nodup, pairwise_map] at hNodup
  refine (hSorted.and hNodup).imp ?_
  rintro a b ⟨hLe, hNe⟩
  exact UInt32.lt_of_le_of_ne hLe hNe

end SemanticTree

section Accepted

variable {d : UiNodeDescriptor} (hNodes : WellFormed nodes)

include hNodes

theorem findNode_of_mem (hd : d ∈ nodes) : findNode nodes d.id = some d := by
  rw [findNode, if_neg (hNodes.valid d hd).named]
  cases hFound : nodes.find? fun node => node.id == d.id with
  | none =>
    have hAbsent := find?_eq_none.mp hFound d hd
    simp at hAbsent
  | some e =>
    have hId : e.id = d.id := by simpa using find?_some hFound
    rw [hNodes.eq_of_id (mem_of_find?_eq_some hFound) hd hId]

theorem linkValid_of_mem (hd : d ∈ nodes) : linkValid nodes d = true := by
  unfold linkValid
  by_cases hRoot : d.id = 1
  · obtain ⟨hRole, hPar, hDepth⟩ := hNodes.root d hd hRoot
    simp [hRole, hPar, hDepth]
  obtain ⟨hRole, p, hp, hId, -, -, hDepth⟩ := hNodes.child d hd hRoot
  have hTop : ¬ (d.parent = 0 ∨ d.depth = 0) := by
    rintro (hTop | hZero)
    · exact (hNodes.valid p hp).named (hId.trans hTop)
    · omega
  rw [if_neg hRole, if_neg hTop, ← hId, findNode_of_mem hNodes hp, Option.any_some, beq_iff_eq]
  omega

theorem reachesRoot_of_mem {n : ℕ} (hd : d ∈ nodes) (hFuel : d.depth < n) :
    reachesRoot nodes n d = true := by
  induction n generalizing d with
  | zero => omega
  | succ n ih =>
    unfold reachesRoot
    by_cases hRoot : d.id = 1
    · rw [if_pos (hNodes.root d hd hRoot).1]
    · obtain ⟨hRole, p, hp, hId, -, -, hDepth⟩ := hNodes.child d hd hRoot
      rw [if_neg hRole, ← hId, findNode_of_mem hNodes hp, Option.any_some]
      exact ih hp (by omega)

theorem countP_root : (nodes.countP fun node => node.spec.role = .root) = 1 := by
  have hSame : (nodes.countP fun node => node.spec.role = .root) =
      (nodes.map UiNodeDescriptor.id).count 1 := by
    rw [count, countP_map]
    refine countP_congr fun d hd => ?_
    simp [hNodes.role_eq_root_iff hd]
  obtain ⟨d, hd, hId⟩ := hNodes.rooted
  rw [hSame, count_eq_one_of_mem hNodes.distinct]
  exact hId ▸ mem_map_of_mem hd

/-- A check that passes every valid node passes the snapshot. -/
theorem snapshotAccepted_of_wellFormed (hLen : nodes.length ≤ maxUiNodes)
    {nodeValid : UiNodeDescriptor → Bool} (hValid : ∀ d ∈ nodes, nodeValid d = true)
    (revision : ℕ) : snapshotAccepted nodeValid { revision, nodes } = true := by
  obtain ⟨r, hr, -⟩ := hNodes.rooted
  have hSome : nodes.length ≠ 0 := by
    rw [Ne, length_eq_zero_iff]
    rintro rfl
    simp at hr
  have hRange : ¬ (nodes.length = 0 ∨ maxUiNodes < nodes.length) := by omega
  unfold snapshotAccepted
  rw [if_neg hRange]
  simp only [Bool.and_eq_true, all_eq_true, decide_eq_true_eq, beq_iff_eq]
  refine ⟨⟨⟨fun d hd => ⟨hValid d hd, linkValid_of_mem hNodes hd⟩, hNodes.distinct⟩,
    countP_root hNodes⟩, fun d hd => reachesRoot_of_mem hNodes hd ?_⟩
  exact Nat.lt_succ_of_le (hNodes.valid d hd).depth

theorem rendererNodeValid_of_mem (hd : d ∈ nodes) : Renderer.nodeValid d = true := by
  have hValid := hNodes.valid d hd
  have hText := labelValidForRole_text hValid.label
  simp [Renderer.nodeValid, hValid.named, hValid.depth, hValid.bounded, hText, hValid.style]

theorem inputNodeValid_of_mem (hd : d ∈ nodes) : Input.nodeValid d = true := by
  have hValid := hNodes.valid d hd
  have hKnown := actionsValid_known hValid.actions
  simp only [Input.nodeValid, hValid.bounded, hKnown, Bool.and_true, Bool.and_eq_true, bne_iff_ne,
    decide_eq_true_eq]
  exact ⟨hValid.named, hValid.depth⟩

theorem role_eq_root_iff_parent {e : UiNodeDescriptor} (he : e ∈ nodes) :
    e.spec.role = .root ↔ e.parent = 0 :=
  (hNodes.role_eq_root_iff he).trans (hNodes.parent_eq_zero_iff he).symm

theorem rendererVisible_iff (hd : d ∈ nodes) :
    Renderer.effectivelyVisible nodes d = true ↔ Shown nodes d.id := by
  refine Links.walk_iff (L := nodeLinks) (fun d => d.spec.state.visible) (findNode nodes)
    (fun n d => d.spec.state.visible && Renderer.visibleFrom nodes n d)
    hNodes.distinct hNodes.ranked (fun e he => findNode_of_mem hNodes he) ?_ ?_ hd
    (Nat.lt_succ_of_le (hNodes.valid d hd).depth)
  · intro n e he hTop
    have hRole := (role_eq_root_iff_parent hNodes he).mpr hTop
    simp [Renderer.visibleFrom, hRole]
  intro n e he hTop
  have hRole := (not_congr (role_eq_root_iff_parent hNodes he)).mpr hTop
  simp only [Renderer.visibleFrom, if_neg hRole]
  rfl

theorem inputVisible_iff (hd : d ∈ nodes) :
    Input.effectivelyVisible nodes d = true ↔ Shown nodes d.id := by
  refine Links.walk_iff (L := nodeLinks) (fun d => d.spec.state.visible) (findNode nodes)
    (Input.visibleFrom nodes) hNodes.distinct hNodes.ranked (fun e he => findNode_of_mem hNodes he)
    ?_ ?_ hd (Nat.lt_succ_of_le (hNodes.valid d hd).depth)
  · intro n e he hTop
    have hRole := (role_eq_root_iff_parent hNodes he).mpr hTop
    cases hVisible : e.spec.state.visible <;> simp [Input.visibleFrom, hRole, hVisible]
  intro n e he hTop
  have hRole := (not_congr (role_eq_root_iff_parent hNodes he)).mpr hTop
  cases hVisible : e.spec.state.visible with
  | false => simp [Input.visibleFrom, hVisible]
  | true =>
    simp only [Input.visibleFrom, hVisible, Bool.not_true, Bool.false_eq_true, if_false,
      if_neg hRole, Bool.true_and]
    rfl

end Accepted

namespace SemanticTree

variable {t : SemanticTree}

theorem Sound.rendererSnapshot_eq (h : t.Sound) :
    t.rendererSnapshot = { revision := t.revision, nodes := sortNodes t.nodes } := by
  simp only [rendererSnapshot, h.valid, Bool.not_true, Bool.false_eq_true, if_false]
  rfl

theorem Sound.wellFormed_sorted (h : t.Sound) : WellFormed (sortNodes t.nodes) :=
  h.nodes.perm (sortNodes_perm t.nodes).symm

theorem shown_sortNodes {c : UiNodeId} : Shown (sortNodes nodes) c ↔ Shown nodes c :=
  Links.allAbove_congr fun _ => (sortNodes_perm nodes).mem_iff

theorem Sound.length_sorted (h : t.Sound) : (sortNodes t.nodes).length ≤ maxUiNodes := by
  rw [(sortNodes_perm t.nodes).length_eq, SemanticTree.nodes, length_map, ← h.capacity]
  exact length_filter_le _ _

theorem Sound.renderer_accepts (h : t.Sound) :
    Renderer.snapshotValid t.rendererSnapshot = true := by
  rw [h.rendererSnapshot_eq]
  exact snapshotAccepted_of_wellFormed h.wellFormed_sorted h.length_sorted
    (fun d hd => rendererNodeValid_of_mem h.wellFormed_sorted hd) t.revision

theorem Sound.input_accepts (h : t.Sound) : Input.snapshotValid t.rendererSnapshot = true := by
  rw [h.rendererSnapshot_eq]
  exact snapshotAccepted_of_wellFormed h.wellFormed_sorted h.length_sorted
    (fun d hd => inputNodeValid_of_mem h.wellFormed_sorted hd) t.revision

/-- The accessibility snapshot is the visible, unhidden nodes in the order of their ids. -/
theorem Sound.accessibilitySnapshot_eq (h : t.Sound) :
    ∃ shown : List UiNodeDescriptor, t.accessibilitySnapshot = shown.map t.accessibilityNode ∧
      (shown.Pairwise fun a b => a.id < b.id) ∧
      ∀ d, d ∈ shown ↔
        d ∈ t.nodes ∧ d.spec.accessibilityHidden = false ∧ Shown t.nodes d.id := by
  refine ⟨sortNodes ((t.slots.filter fun slot => slot.occupied &&
    !slot.descriptor.spec.accessibilityHidden && t.effectivelyVisible slot).map Slot.descriptor),
    ?_, ?_, ?_⟩
  · simp only [accessibilitySnapshot, h.valid, Bool.not_true, Bool.false_eq_true, if_false]
  · refine sortNodes_sorted ?_
    refine h.nodes.distinct.sublist ?_
    unfold SemanticTree.nodes
    rw [map_map, map_map]
    refine List.Sublist.map _ (monotone_filter_right _ fun s hs => ?_)
    simp only [Bool.and_eq_true] at hs
    exact hs.1.1
  · intro d
    rw [(sortNodes_perm _).mem_iff]
    simp only [mem_map, mem_filter, Bool.and_eq_true, Bool.not_eq_true']
    constructor
    · rintro ⟨s, ⟨hs, ⟨hOcc, hHidden⟩, hVisible⟩, rfl⟩
      have hd : s.descriptor ∈ t.nodes := mem_nodes.mpr ⟨s, hs, hOcc, rfl⟩
      exact ⟨hd, hHidden, (effectivelyVisible_iff h.nodes hd).mp hVisible⟩
    · rintro ⟨hd, hHidden, hShown⟩
      obtain ⟨s, hs, hOcc, rfl⟩ := mem_nodes.mp hd
      exact ⟨s, ⟨hs, ⟨hOcc, hHidden⟩, (effectivelyVisible_iff h.nodes hd).mpr hShown⟩, rfl⟩

end SemanticTree

end Enml.OsUi
