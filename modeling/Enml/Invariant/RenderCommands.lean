import Enml.Invariant.TreeSnapshots

/-! The commands built from a sound tree: one for each shown and styled node, in
the order of the ids, whatever the options. -/
namespace Enml.OsUi

open Enml.Core ParentLinks List

/-- The options that `build_render_commands` takes. -/
structure RenderBuildOptions.Valid (options : RenderBuildOptions) : Prop where
  capabilities : capabilitiesValid options.capabilities = true
  scaleLow : minTextScalePercent ≤ options.textScalePercent
  scaleHigh : options.textScalePercent ≤ maxTextScalePercent

theorem default_options_valid : RenderBuildOptions.Valid {} := by
  constructor <;> decide

variable {options : RenderBuildOptions} {nodes : List UiNodeDescriptor} {d : UiNodeDescriptor}

theorem buildCommand_eq_ok (hOptions : options.Valid) (hStyle : styleTokenValid d.spec.style = true)
    (hStyled : d.spec.style ≠ 0) (hBounded : d.spec.bounds.bounded = true) :
    ∃ command, buildCommand options d = .ok command := by
  obtain ⟨resolved, hResolved⟩ := resolveVisualStyle_eq_ok hStyle hStyled options.preferences
  obtain ⟨contour, hContour⟩ := resolveContour_eq_ok hBounded
    (applyCapabilityBudget (applyQualityBudget resolved options.quality)
      options.capabilities).token.curve
  obtain ⟨textStyle, hText⟩ := resolveTextStyle_eq_ok hOptions.scaleLow hOptions.scaleHigh
    (applyCapabilityBudget (applyQualityBudget resolved options.quality)
      options.capabilities).token.typography
  exact ⟨_, bind_eq_ok_iff.mpr ⟨_, hResolved, bind_eq_ok_iff.mpr ⟨_, hContour, ok_bind hText rfl⟩⟩⟩

/-- A command tells which node it was built from, and where that node is. -/
theorem buildCommand_source {command : RenderCommand} (h : buildCommand options d = .ok command) :
    command.source = d.id ∧ command.bounds = d.spec.bounds := by
  obtain ⟨resolved, -, h⟩ := bind_ok h
  obtain ⟨contour, -, h⟩ := bind_ok h
  obtain ⟨textStyle, -, h⟩ := bind_ok h
  cases h
  exact ⟨rfl, rfl⟩

/-- The loop makes one command of every node that emits one, in order. -/
theorem buildCommands_eq_ok {l : List UiNodeDescriptor}
    (h : ∀ d ∈ l, emits nodes d = true → ∃ command, buildCommand options d = .ok command) :
    ∃ commands, buildCommands options nodes l = .ok commands ∧
      List.Forall₂ (fun d command => buildCommand options d = .ok command)
        (l.filter (emits nodes)) commands := by
  induction l with
  | nil => exact ⟨[], rfl, List.Forall₂.nil⟩
  | cons d _ ih =>
    obtain ⟨commands, hCmds, hAll⟩ := ih fun e he => h e (mem_cons_of_mem d he)
    cases hEmits : emits nodes d with
    | false =>
      refine ⟨commands, ?_, ?_⟩
      · simp [buildCommands, hEmits, hCmds]
      · rw [filter_cons_of_neg (by simp [hEmits])]
        exact hAll
    | true =>
      obtain ⟨command, hCmd⟩ := h d mem_cons_self hEmits
      refine ⟨command :: commands, ?_, ?_⟩
      · simp only [buildCommands, hEmits, Bool.not_true, Bool.false_eq_true, if_false]
        exact bind_eq_ok_iff.mpr ⟨command, hCmd, bind_eq_ok_iff.mpr ⟨commands, hCmds, rfl⟩⟩
      · rw [filter_cons_of_pos hEmits]
        exact List.Forall₂.cons hCmd hAll

namespace SemanticTree

variable {t : SemanticTree}

theorem sortNodes_sortNodes (nodes : List UiNodeDescriptor) :
    sortNodes (sortNodes nodes) = sortNodes nodes :=
  List.Pairwise.insertionSort_eq (pairwise_insertionSort _ nodes)

/-- The nodes that get a command, in the order of their ids. -/
def emitting (t : SemanticTree) : List UiNodeDescriptor :=
  (sortNodes t.nodes).filter (emits (sortNodes t.nodes))

theorem Sound.mem_emitting (h : t.Sound) :
    d ∈ t.emitting ↔ d ∈ t.nodes ∧ Shown t.nodes d.id ∧ d.spec.style ≠ 0 := by
  rw [emitting, mem_filter, (sortNodes_perm t.nodes).mem_iff]
  refine and_congr_right fun hd => ?_
  rw [emits, Bool.and_eq_true, bne_iff_ne,
    rendererVisible_iff h.wellFormed_sorted ((sortNodes_perm t.nodes).mem_iff.mpr hd),
    shown_sortNodes]

theorem Sound.emitting_sorted (h : t.Sound) : t.emitting.Pairwise fun a b => a.id < b.id :=
  (sortNodes_sorted h.nodes.distinct).filter _

/-- What the buffer of a frame holds. -/
structure Frame (t : SemanticTree) (options : RenderBuildOptions) (buffer : RenderCommandBuffer) :
    Prop where
  revision : buffer.revision = t.revision
  commands : List.Forall₂ (fun d command => buildCommand options d = .ok command) t.emitting
    buffer.commands

/-- Building succeeds on every sound tree, and only the options can refuse it. -/
theorem Sound.buildRenderCommands_eq_ok (h : t.Sound) (hOptions : options.Valid) :
    ∃ buffer, buildRenderCommands t.rendererSnapshot options = .ok buffer ∧
      Frame t options buffer := by
  have hAll : ∀ d ∈ sortNodes t.nodes, emits (sortNodes t.nodes) d = true →
      ∃ command, buildCommand options d = .ok command := by
    intro d hd hEmits
    have hValid := h.wellFormed_sorted.valid d hd
    rw [emits, Bool.and_eq_true, bne_iff_ne] at hEmits
    exact buildCommand_eq_ok hOptions hValid.style hEmits.2 hValid.bounded
  obtain ⟨commands, hCmds, hForall⟩ := buildCommands_eq_ok hAll
  have hScale : ¬ (options.textScalePercent < minTextScalePercent ∨
      maxTextScalePercent < options.textScalePercent) := by
    have hLow := hOptions.scaleLow
    have hHigh := hOptions.scaleHigh
    omega
  refine ⟨{ revision := t.revision, commands }, ?_, rfl, hForall⟩
  rw [buildRenderCommands, hOptions.capabilities, h.renderer_accepts, h.rendererSnapshot_eq,
    sortNodes_sortNodes]
  simp only [Bool.not_true, Bool.false_eq_true, if_false, if_neg hScale]
  exact bind_eq_ok_iff.mpr ⟨commands, hCmds, rfl⟩

/-- Whatever is built is what is described. -/
theorem Sound.frame_of_ok (h : t.Sound) {buffer : RenderCommandBuffer}
    (hBuilt : buildRenderCommands t.rendererSnapshot options = .ok buffer) :
    Frame t options buffer := by
  have hOptions : options.Valid := by
    obtain ⟨-, hBuilt⟩ | ⟨hCaps, hBuilt⟩ := ite_eq_iff.mp hBuilt
    · simp at hBuilt
    obtain ⟨-, hBuilt⟩ | ⟨hScale, -⟩ := ite_eq_iff.mp hBuilt
    · simp at hBuilt
    exact ⟨by simpa using hCaps, by omega, by omega⟩
  obtain ⟨built, hSame, hFrame⟩ := h.buildRenderCommands_eq_ok hOptions
  rw [hBuilt] at hSame
  cases hSame
  exact hFrame

namespace Frame

variable {buffer : RenderCommandBuffer} {command : RenderCommand}

theorem sources (h : Frame t options buffer) :
    buffer.commands.map RenderCommand.source = t.emitting.map UiNodeDescriptor.id := by
  have hEach := h.commands
  generalize t.emitting = l at hEach
  generalize buffer.commands = commands at hEach
  induction hEach with
  | nil => rfl
  | cons hFirst _ ih => rw [map_cons, map_cons, ih, (buildCommand_source hFirst).1]

theorem mem_iff (h : Frame t options buffer) :
    command ∈ buffer.commands ↔ ∃ d ∈ t.emitting, buildCommand options d = .ok command := by
  have hEach := h.commands
  generalize t.emitting = l at hEach
  generalize buffer.commands = commands at hEach
  induction hEach with
  | nil => simp
  | @cons d first rest commands hFirst _ ih =>
    have hHead : command = first ↔ buildCommand options d = .ok command := by
      rw [hFirst, Except.ok.injEq]
      exact eq_comm
    simp [ih, hHead]

theorem sorted (h : Frame t options buffer) (hSound : t.Sound) :
    buffer.commands.Pairwise fun a b => a.source < b.source := by
  have hIds : (t.emitting.map UiNodeDescriptor.id).Pairwise (· < ·) :=
    pairwise_map.mpr hSound.emitting_sorted
  rw [← h.sources] at hIds
  exact pairwise_map.mp hIds

end Frame

end SemanticTree

end Enml.OsUi
