import Enml.Invariant.RenderCommands

/-! Painting goes by id and hit testing by depth and then id, so the node that a
press reaches is the one painted last exactly when the newest node at the point
is also a deepest one. -/
namespace Enml.OsUi

open RenderCommand List UiNodeDescriptor Run

/-- The command painted last over a point. -/
def paintedOnTop (buffer : RenderCommandBuffer) (point : LogicalPoint) : Option RenderCommand :=
  buffer.commands.reverse.find? fun command => pointInside command.bounds point

/-- A node that lies below another where both are hit. -/
def UnderHit (a b : UiNodeDescriptor) : Prop := a.depth < b.depth ∨ a.depth = b.depth ∧ a.id ≤ b.id

theorem UnderHit.trans {a b c : UiNodeDescriptor} (hab : UnderHit a b) (hbc : UnderHit b c) :
    UnderHit a c := by
  rcases hab with hab | ⟨hab, hab'⟩
  · rcases hbc with hbc | ⟨hbc, -⟩ <;> exact .inl (by omega)
  · rcases hbc with hbc | ⟨hbc, hbc'⟩
    · exact .inl (by omega)
    · exact .inr ⟨hab.trans hbc, UInt32.le_trans hab' hbc'⟩

theorem higherHit_spec (topmost : Option UiNodeDescriptor) (node : UiNodeDescriptor) :
    ∃ m, higherHit topmost node = some m ∧ UnderHit node m ∧ (∀ a ∈ topmost, UnderHit a m) ∧
      (m = node ∨ m ∈ topmost) := by
  have hSelf : ∀ a : UiNodeDescriptor, UnderHit a a := fun a => .inr ⟨rfl, UInt32.le_refl a.id⟩
  cases topmost with
  | none => exact ⟨node, rfl, hSelf node, by simp, .inl rfl⟩
  | some top =>
    by_cases hHigher : top.depth < node.depth ∨ (node.depth = top.depth ∧ top.id < node.id)
    · refine ⟨node, if_pos hHigher, hSelf node, ?_, .inl rfl⟩
      simp only [Option.mem_def, Option.some.injEq, forall_eq']
      rcases hHigher with hDeeper | ⟨hSame, hNewer⟩
      · exact .inl hDeeper
      · exact .inr ⟨hSame.symm, UInt32.le_of_lt hNewer⟩
    · refine ⟨top, if_neg hHigher, ?_, by simpa using hSelf top, .inr rfl⟩
      rw [not_or, not_and] at hHigher
      rcases Nat.lt_or_ge node.depth top.depth with hShallow | hDeep
      · exact .inl hShallow
      · have hSame : node.depth = top.depth := by omega
        exact .inr ⟨hSame, UInt32.not_lt.mp (hHigher.2 hSame)⟩

/-- The loop keeps the highest of the nodes it has been given. -/
theorem foldl_higherHit (hit : UiNodeDescriptor → Bool) (l : List UiNodeDescriptor)
    (start : Option UiNodeDescriptor) :
    let result := l.foldl (fun topmost node => if hit node then higherHit topmost node else topmost)
      start
    (∀ m ∈ result, (m ∈ start ∨ m ∈ l ∧ hit m = true) ∧
      (∀ a ∈ start, UnderHit a m) ∧ ∀ a ∈ l, hit a = true → UnderHit a m) ∧
    (result = none → start = none ∧ ∀ a ∈ l, hit a = false) := by
  induction l generalizing start with
  | nil =>
    refine ⟨fun m hm => ⟨.inl hm, ?_, by simp⟩, fun hNone => ⟨hNone, by simp⟩⟩
    intro a ha
    rw [Option.mem_def] at ha hm
    cases ha.symm.trans hm
    exact .inr ⟨rfl, UInt32.le_refl _⟩
  | cons node _ ih =>
    cases hHit : hit node with
    | false =>
      obtain ⟨hMax, hNone⟩ := ih start
      simp only [foldl_cons, hHit, Bool.false_eq_true, if_false] at hMax hNone ⊢
      refine ⟨fun m hm => ?_, fun hr => ?_⟩
      · obtain ⟨hFrom, hStart, hRest⟩ := hMax m hm
        refine ⟨hFrom.imp_right fun hm => ⟨mem_cons_of_mem node hm.1, hm.2⟩, hStart, ?_⟩
        intro a ha haHit
        rcases mem_cons.mp ha with rfl | ha
        · simp [hHit] at haHit
        · exact hRest a ha haHit
      · obtain ⟨hStart, hRest⟩ := hNone hr
        refine ⟨hStart, fun a ha => ?_⟩
        rcases mem_cons.mp ha with rfl | ha
        · exact hHit
        · exact hRest a ha
    | true =>
      obtain ⟨top, hTop, hNode, hStart, hFrom⟩ := higherHit_spec start node
      obtain ⟨hMax, hNone⟩ := ih (some top)
      simp only [foldl_cons, hHit, if_true, hTop] at hMax hNone ⊢
      refine ⟨fun m hm => ?_, fun hr => absurd (hNone hr).1 (by simp)⟩
      obtain ⟨hOrigin, hAbove, hRest⟩ := hMax m hm
      have hTopUnder := hAbove top rfl
      refine ⟨?_, fun a ha => (hStart a ha).trans hTopUnder, ?_⟩
      · rcases hOrigin with hm | ⟨hm, hmHit⟩
        · cases hm
          rcases hFrom with rfl | hOld
          · exact .inr ⟨mem_cons_self, hHit⟩
          · exact .inl hOld
        · exact .inr ⟨mem_cons_of_mem node hm, hmHit⟩
      · intro a ha haHit
        rcases mem_cons.mp ha with rfl | ha
        · exact hNode.trans hTopUnder
        · exact hRest a ha haHit

namespace SemanticTree

variable {t : SemanticTree} {point : LogicalPoint}
  {options : RenderBuildOptions} {buffer : RenderCommandBuffer}

/-- An effectively visible node that contains the point. -/
def HitAt (t : SemanticTree) (point : LogicalPoint) (d : UiNodeDescriptor) : Prop :=
  d ∈ t.nodes ∧ Shown t.nodes d.id ∧ pointInside d.spec.bounds point = true

theorem Sound.hitBy_iff (h : t.Sound) {d : UiNodeDescriptor} (hd : d ∈ sortNodes t.nodes) :
    hitBy (sortNodes t.nodes) point d = true ↔ HitAt t point d := by
  have hMem : d ∈ t.nodes := (sortNodes_perm t.nodes).mem_iff.mp hd
  rw [hitBy, Bool.and_eq_true, inputVisible_iff h.wellFormed_sorted hd, shown_sortNodes]
  exact ⟨fun hBoth => ⟨hMem, hBoth⟩, fun hHit => hHit.2⟩

theorem Sound.topmostHit_spec (h : t.Sound) (point : LogicalPoint) :
    (∃ m, topmostHit t.rendererSnapshot point = some m ∧ HitAt t point m ∧
      ∀ d, HitAt t point d → UnderHit d m) ∨
    (topmostHit t.rendererSnapshot point = none ∧ ∀ d, ¬ HitAt t point d) := by
  obtain ⟨hMax, hNone⟩ := foldl_higherHit (hitBy (sortNodes t.nodes) point)
    (sortNodes t.nodes) none
  have hSorted : ∀ d, HitAt t point d → d ∈ sortNodes t.nodes := fun d hd =>
    (sortNodes_perm t.nodes).mem_iff.mpr hd.1
  rw [h.rendererSnapshot_eq]
  cases hRes : topmostHit { revision := t.revision, nodes := sortNodes t.nodes } point with
  | none =>
    refine .inr ⟨rfl, fun d hd => ?_⟩
    have hMiss := (hNone hRes).2 d (hSorted d hd)
    rw [(h.hitBy_iff (hSorted d hd)).mpr hd] at hMiss
    simp at hMiss
  | some m =>
    obtain ⟨hFrom, -, hAll⟩ := hMax m hRes
    obtain ⟨hm, hHit⟩ := hFrom.resolve_left (by simp)
    refine .inl ⟨m, rfl, (h.hitBy_iff hm).mp hHit, fun d hd => ?_⟩
    exact hAll d (hSorted d hd) ((h.hitBy_iff (hSorted d hd)).mpr hd)

/-- Every shown node has a style, so that it is painted. -/
def AllStyled (t : SemanticTree) : Prop := ∀ d ∈ t.nodes, Shown t.nodes d.id → d.spec.style ≠ 0

/-- Of the nodes at a point the one with the largest id is painted last. -/
theorem Sound.paintedOnTop_spec (h : t.Sound) (hStyled : AllStyled t)
    (hFrame : Frame t options buffer) (point : LogicalPoint) :
    (∃ last command, paintedOnTop buffer point = some command ∧ command.source = last.id ∧
      HitAt t point last ∧ ∀ d, HitAt t point d → d.id ≤ last.id) ∨
    (paintedOnTop buffer point = none ∧ ∀ d, ¬ HitAt t point d) := by
  have hPainted : ∀ d, HitAt t point d → ∃ command ∈ buffer.commands, command.source = d.id ∧
        pointInside command.bounds point = true := by
    rintro d ⟨hd, hShown, hInside⟩
    have hEmits := h.mem_emitting.mpr ⟨hd, hShown, hStyled d hd hShown⟩
    have hId : d.id ∈ buffer.commands.map source := by
      rw [hFrame.sources]
      exact mem_map_of_mem hEmits
    obtain ⟨command, hCmd, hSrc⟩ := mem_map.mp hId
    obtain ⟨e, he, hBuilt⟩ := hFrame.mem_iff.mp hCmd
    obtain ⟨hFrom, hBounds⟩ := buildCommand_source hBuilt
    cases h.nodes.eq_of_id (h.mem_emitting.mp he).1 hd (hFrom.symm.trans hSrc)
    exact ⟨command, hCmd, hSrc, hBounds ▸ hInside⟩
  cases hRes : paintedOnTop buffer point with
  | none =>
    refine .inr ⟨rfl, fun d hd => ?_⟩
    obtain ⟨command, hCmd, -, hInside⟩ := hPainted d hd
    exact find?_eq_none.mp hRes command (mem_reverse.mpr hCmd) hInside
  | some command =>
    obtain ⟨hInside, later, earlier, hSplit, hLater⟩ := find?_eq_some_iff_append.mp hRes
    have hCmds : buffer.commands = earlier.reverse ++ command :: later.reverse := by
      rw [← reverse_reverse buffer.commands, hSplit]
      simp
    have hMem : command ∈ buffer.commands := by rw [hCmds]; simp
    obtain ⟨last, hLast, hBuilt⟩ := hFrame.mem_iff.mp hMem
    obtain ⟨hSrc, hBounds⟩ := buildCommand_source hBuilt
    obtain ⟨hd, hShown, -⟩ := h.mem_emitting.mp hLast
    refine .inl ⟨last, command, rfl, hSrc, ⟨hd, hShown, hBounds ▸ hInside⟩, fun d hd => ?_⟩
    obtain ⟨other, hOther, hOtherSrc, hOtherInside⟩ := hPainted d hd
    have hSorted := hFrame.sorted h
    rw [hCmds] at hOther hSorted
    rw [← hOtherSrc, ← hSrc]
    rcases mem_append.mp hOther with hBefore | hAfter
    · exact UInt32.le_of_lt ((pairwise_append.mp hSorted).2.2 other hBefore command mem_cons_self)
    rcases mem_cons.mp hAfter with rfl | hAfter
    · exact UInt32.le_refl _
    · have hMiss := hLater other (mem_reverse.mp hAfter)
      simp [hOtherInside] at hMiss

/-- The newest of the nodes at the point is as deep as any of them. -/
def NewestIsDeepest (t : SemanticTree) (point : LogicalPoint) : Prop :=
  ∀ last, HitAt t point last → (∀ d, HitAt t point d → d.id ≤ last.id) →
    ∀ d, HitAt t point d → d.depth ≤ last.depth

theorem Sound.topmost_is_painted_iff (h : t.Sound) (hStyled : AllStyled t)
    (hFrame : Frame t options buffer) (point : LogicalPoint) :
    (topmostHit t.rendererSnapshot point).map UiNodeDescriptor.id =
        (paintedOnTop buffer point).map source ↔
      NewestIsDeepest t point := by
  rcases h.paintedOnTop_spec hStyled hFrame point with
    ⟨last, command, hPainted, hSrc, hLast, hNewest⟩ | ⟨hPainted, hNobody⟩
  · rcases h.topmostHit_spec point with ⟨m, hTop, hm, hHighest⟩ | ⟨-, hNobody⟩
    · rw [hPainted, hTop, Option.map_some, Option.map_some, hSrc, Option.some.injEq]
      constructor
      · intro hSame other hOther hOtherNewest d hd
        have hId : other.id = m.id := by
          rw [hSame]
          exact UInt32.le_antisymm (hNewest other hOther) (hOtherNewest last hLast)
        rw [h.nodes.eq_of_id hOther.1 hm.1 hId]
        rcases hHighest d hd with hBelow | ⟨hLevel, -⟩ <;> omega
      · intro hDeepest
        have hDepth := hDeepest last hLast hNewest m hm
        refine UInt32.le_antisymm (hNewest m hm) ?_
        rcases hHighest last hLast with hBelow | ⟨-, hOlder⟩
        · omega
        · exact hOlder
    · exact absurd hLast (hNobody last)
  · rcases h.topmostHit_spec point with ⟨m, -, hm, -⟩ | ⟨hTop, -⟩
    · exact absurd hm (hNobody m)
    · rw [hPainted, hTop]
      exact iff_of_true rfl fun last hLast => absurd hLast (hNobody last)

/-- In every reachable tree whose shown nodes are styled, the node a press starts
from is the one painted last at the point exactly if the newest node there is a
deepest one. -/
theorem press_starts_at_last_painted_iff {rootBounds : LogicalRect}
    (hValid : (make rootBounds).valid = true) (ops : List TreeOp)
    (hStyled : AllStyled (after step (make rootBounds) ops)) {options : RenderBuildOptions}
    {buffer : RenderCommandBuffer}
    (hBuilt : buildRenderCommands (after step (make rootBounds) ops).rendererSnapshot options =
      .ok buffer) (point : LogicalPoint) :
    (topmostHit (after step (make rootBounds) ops).rendererSnapshot point).map
          UiNodeDescriptor.id =
        (paintedOnTop buffer point).map source ↔
      NewestIsDeepest (after step (make rootBounds) ops) point := by
  have hSound := sound_after hValid ops
  exact hSound.topmost_is_painted_iff hStyled (hSound.frame_of_ok hBuilt) point

/-- A square, as far across as ten logical pixels. -/
def square : LogicalRect := { widthQ6 := 640, heightQ6 := 640 }

/-- A panel with a button in it, and a second panel over both. -/
def coveredButton : List TreeOp :=
  [.add 1 { bounds := square, style := StyleTokens.surface },
    .add 2 { role := .button
             bounds := square
             actions := actionMask .activate
             style := StyleTokens.primaryAction
             label := { bytes := Vector.replicate 160 65, length := 1 } },
    .add 1 { bounds := square, style := StyleTokens.surface }]

/-- What the lists below come to, computed. -/
theorem coveredButton_values :
    (make square).valid = true ∧
    (∀ d ∈ (after step (make square) coveredButton).nodes, d.spec.style ≠ 0) ∧
    (topmostHit (after step (make square) coveredButton).rendererSnapshot {}).map
      UiNodeDescriptor.id = some 3 ∧
    ((routePointerAction (after step (make square) coveredButton).rendererSnapshot {}
      .activate).toOption.map PointerRoute.target) = some 3 ∧
    ((buildRenderCommands (after step (make square) coveredButton).rendererSnapshot
      {}).toOption.bind fun buffer => (paintedOnTop buffer {}).map source) = some 4 := by
  decide +kernel

/-- The press goes to the button, though the second panel is painted over it. -/
theorem covered_button_is_pressed :
    (make square).valid = true ∧ AllStyled (after step (make square) coveredButton) ∧
    (routePointerAction (after step (make square) coveredButton).rendererSnapshot {}
      .activate).toOption.map PointerRoute.target = some 3 ∧
    ∃ buffer, buildRenderCommands (after step (make square) coveredButton).rendererSnapshot {} =
        .ok buffer ∧
      (paintedOnTop buffer {}).map source = some 4 ∧
      (topmostHit (after step (make square) coveredButton).rendererSnapshot {}).map
        UiNodeDescriptor.id ≠ (paintedOnTop buffer {}).map RenderCommand.source := by
  obtain ⟨hValid, hStyled, hTop, hRoute, hPainted⟩ := coveredButton_values
  refine ⟨hValid, fun d hd _ => hStyled d hd, hRoute, ?_⟩
  obtain ⟨buffer, hBuilt, -⟩ :=
    (sound_after hValid coveredButton).buildRenderCommands_eq_ok default_options_valid
  rw [hBuilt] at hPainted
  have hLast : (paintedOnTop buffer {}).map source = some 4 := hPainted
  refine ⟨buffer, hBuilt, hLast, ?_⟩
  rw [hTop, hLast]
  decide

/-- The covered button is styled and painted, so the press is decided by depth. -/
theorem press_starts_at_last_painted_iff_covered :
    (make square).valid = true ∧ AllStyled (after step (make square) coveredButton) ∧
    ∃ buffer, buildRenderCommands (after step (make square) coveredButton).rendererSnapshot {} =
        .ok buffer ∧
      ((topmostHit (after step (make square) coveredButton).rendererSnapshot {}).map
          UiNodeDescriptor.id = (paintedOnTop buffer {}).map RenderCommand.source ↔
        NewestIsDeepest (after step (make square) coveredButton) {}) := by
  obtain ⟨hValid, hStyled, -⟩ := coveredButton_values
  have hAll : AllStyled (after step (make square) coveredButton) := fun d hd _ => hStyled d hd
  obtain ⟨buffer, hBuilt, -⟩ :=
    (sound_after hValid coveredButton).buildRenderCommands_eq_ok default_options_valid
  exact ⟨hValid, hAll, buffer, hBuilt,
    press_starts_at_last_painted_iff hValid coveredButton hAll hBuilt {}⟩

end SemanticTree

end Enml.OsUi
