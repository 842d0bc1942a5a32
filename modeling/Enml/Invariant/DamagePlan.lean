import Enml.Invariant.RenderCommands

/-! What the planner's loops leave in a plan: the bounds of every command they
looked up, unless they gave up on single rectangles. -/
namespace Enml.OsUi

open Enml.Core

/-- The plan holds everything another one held, or asks for a full redraw. -/
def RenderDamagePlan.Extends (plan before : RenderDamagePlan) : Prop :=
  plan.fullRedraw = true ∨ before.fullRedraw = false ∧ ∀ rect ∈ before.rects, rect ∈ plan.rects

/-- The plan holds the bounds of a command, or asks for a full redraw. -/
def RenderDamagePlan.Includes (plan : RenderDamagePlan) (command : Option RenderCommand) : Prop :=
  plan.fullRedraw = true ∨ ∀ c ∈ command, c.bounds ∈ plan.rects

section Plan

variable {plan first second : RenderDamagePlan} {command : Option RenderCommand}

theorem RenderDamagePlan.Extends.includes (h : second.Extends first)
    (hFirst : first.Includes command) :
    second.Includes command := by
  rcases h with hFull | ⟨hOpen, hKept⟩
  · exact .inl hFull
  rcases hFirst with hFull | hThere
  · rw [hOpen] at hFull
    simp at hFull
  · exact .inr fun c hc => hKept _ (hThere c hc)

theorem RenderDamagePlan.Extends.trans {third : RenderDamagePlan} (hFirst : second.Extends first)
    (hSnd : third.Extends second) : third.Extends first := by
  rcases hSnd with hFull | ⟨hOpen, hKept⟩
  · exact .inl hFull
  rcases hFirst with hFull | ⟨hOpen', hKept'⟩
  · rw [hOpen] at hFull
    simp at hFull
  · exact .inr ⟨hOpen', fun rect hRect => hKept rect (hKept' rect hRect)⟩

theorem appendCommand_spec (hOpen : plan.fullRedraw = false)
    (hBounded : ∀ c ∈ command, c.bounds.bounded = true) :
    ∃ plan', appendCommand plan command = .ok plan' ∧ plan'.Extends plan ∧
      plan'.Includes command := by
  cases command with
  | none => exact ⟨plan, rfl, .inr ⟨hOpen, fun _ h => h⟩, .inr (by simp)⟩
  | some c =>
    have hIn : c.bounds.bounded = true := hBounded c rfl
    simp only [appendCommand, appendRect, hIn, Bool.not_true, Bool.false_eq_true, if_false]
    by_cases hThere : plan.rects.contains c.bounds = true
    · rw [if_pos hThere]
      refine ⟨plan, rfl, .inr ⟨hOpen, fun _ h => h⟩, .inr ?_⟩
      simpa using hThere
    rw [if_neg hThere]
    by_cases hMany : maxRenderDamageRects ≤ plan.rects.length
    · rw [if_pos hMany]
      exact ⟨_, rfl, .inl rfl, .inl rfl⟩
    · rw [if_neg hMany]
      refine ⟨_, rfl, .inr ⟨hOpen, fun rect hRect => List.mem_append_left _ hRect⟩, .inr ?_⟩
      simp

/-- One round of the loops. What the rest of the loop is to give must hold of a plan
that has given up, too. -/
theorem appendCommand_then {rest : RenderDamagePlan → Result RenderDamagePlan}
    {P : RenderDamagePlan → Prop} (hOpen : plan.fullRedraw = false)
    (hBounded : ∀ c ∈ command, c.bounds.bounded = true) (hFull : ∀ p, p.fullRedraw = true → P p)
    (hRest : ∀ p, p.fullRedraw = false → ∃ p', rest p = .ok p' ∧ p'.Extends p ∧ P p') :
    ∃ p', (do let p ← appendCommand plan command; if p.fullRedraw then .ok p else rest p) = .ok p' ∧
      p'.Extends plan ∧ p'.Includes command ∧ P p' := by
  obtain ⟨p, hRun, hExt, hIn⟩ := appendCommand_spec hOpen hBounded
  cases hDone : p.fullRedraw with
  | true =>
    exact ⟨p, bind_eq_ok_iff.mpr ⟨p, hRun, by rw [hDone]; rfl⟩, .inl hDone, .inl hDone,
      hFull p hDone⟩
  | false =>
    obtain ⟨p', hMore, hExt', hP⟩ := hRest p hDone
    exact ⟨p', bind_eq_ok_iff.mpr ⟨p, hRun, by rw [hDone]; exact hMore⟩, hExt.trans hExt',
      hExt'.includes hIn, hP⟩

end Plan

section Loops

variable {previous next : RenderCommandBuffer}
  (hPrev : ∀ c ∈ previous.commands, c.bounds.bounded = true)
  (hNext : ∀ c ∈ next.commands, c.bounds.bounded = true)

theorem bounded_findCommand {buffer : RenderCommandBuffer}
    (hBuf : ∀ c ∈ buffer.commands, c.bounds.bounded = true) (id : UiNodeId) :
    ∀ c ∈ findCommand buffer id, c.bounds.bounded = true := by
  intro c hc
  exact hBuf c (List.mem_of_find?_eq_some hc)

include hPrev hNext

theorem planChanged_spec (ids : List UiNodeId) (plan : RenderDamagePlan)
    (hOpen : plan.fullRedraw = false) :
    ∃ plan', planChanged previous next ids plan = .ok plan' ∧ plan'.Extends plan ∧
      ∀ id ∈ ids, plan'.Includes (findCommand previous id) ∧
        plan'.Includes (findCommand next id) := by
  induction ids generalizing plan with
  | nil => exact ⟨plan, rfl, .inr ⟨hOpen, fun _ h => h⟩, by simp⟩
  | cons id _ ih =>
    obtain ⟨last, hRun, hExt, hPrevIn, hNextIn, hRest⟩ :=
      appendCommand_then hOpen (bounded_findCommand hPrev id)
        (fun p hFull => ⟨.inl hFull, fun _ _ => ⟨.inl hFull, .inl hFull⟩⟩) fun first hFirst =>
          appendCommand_then hFirst (bounded_findCommand hNext id)
            (fun p hFull _ _ => ⟨.inl hFull, .inl hFull⟩) ih
    exact ⟨last, hRun, hExt, List.forall_mem_cons.mpr ⟨⟨hPrevIn, hNextIn⟩, hRest⟩⟩

omit hNext in
theorem planRemoved_spec (ids : List UiNodeId) (plan : RenderDamagePlan)
    (hOpen : plan.fullRedraw = false) (hGone : ∀ id ∈ ids, findCommand next id = none) :
    ∃ plan', planRemoved previous next ids plan = .ok plan' ∧ plan'.Extends plan ∧
      ∀ id ∈ ids, plan'.Includes (findCommand previous id) := by
  induction ids generalizing plan with
  | nil => exact ⟨plan, rfl, .inr ⟨hOpen, fun _ h => h⟩, by simp⟩
  | cons id _ ih =>
    obtain ⟨hNone, hGone⟩ := List.forall_mem_cons.mp hGone
    simp only [planRemoved, hNone, Option.isSome_none, Bool.false_eq_true, if_false]
    obtain ⟨last, hRun, hExt, hPrevIn, hRest⟩ :=
      appendCommand_then hOpen (bounded_findCommand hPrev id) (fun p hFull _ _ => .inl hFull)
        fun first hFirst => ih first hFirst hGone
    exact ⟨last, hRun, hExt, List.forall_mem_cons.mpr ⟨hPrevIn, hRest⟩⟩

/-- On inputs that pass the checks, the plan holds the bounds of every command of
a changed node and of every command that a removed node had. -/
theorem planRenderDamage_spec {delta : RendererDelta} (hValid : commandBufferValid previous = true)
    (hValid' : commandBufferValid next = true) (hDelta : deltaValid delta = true)
    (hRevision : delta.revision = next.revision) (hOrder : previous.revision ≤ next.revision)
    (hGone : ∀ id ∈ delta.removed, findCommand next id = none) :
    ∃ plan, planRenderDamage previous next delta = .ok plan ∧
      (delta.fullResyncRequired = true → plan.fullRedraw = true) ∧
      (∀ id ∈ delta.changed, plan.Includes (findCommand previous id) ∧
        plan.Includes (findCommand next id)) ∧
      ∀ id ∈ delta.removed, plan.Includes (findCommand previous id) := by
  have hLate : ¬ next.revision < previous.revision := by omega
  simp only [planRenderDamage, hValid, hValid', hDelta, hRevision, hLate, Bool.not_true,
    Bool.or_false, bne_self_eq_false, decide_false, Bool.and_false, Bool.false_eq_true, if_false]
  by_cases hResync : previous.revision = 0 ∨ delta.fullResyncRequired = true
  · rw [if_pos hResync]
    exact ⟨_, rfl, fun _ => rfl, fun _ _ => ⟨.inl rfl, .inl rfl⟩, fun _ _ => .inl rfl⟩
  rw [if_neg hResync]
  rw [not_or] at hResync
  obtain ⟨first, hFirst, -, hFirstIn⟩ := planChanged_spec hPrev hNext delta.changed
    { revision := next.revision } rfl
  cases hFull : first.fullRedraw with
  | true =>
    refine ⟨first, bind_eq_ok_iff.mpr ⟨first, hFirst, by rw [hFull]; rfl⟩,
      fun h => absurd h hResync.2, hFirstIn, fun _ _ => .inl hFull⟩
  | false =>
    obtain ⟨last, hLast, hLastExt, hLastIn⟩ :=
      planRemoved_spec hPrev delta.removed first hFull hGone
    refine ⟨last, bind_eq_ok_iff.mpr ⟨first, hFirst, by rw [hFull]; exact hLast⟩,
      fun h => absurd h hResync.2, ?_, hLastIn⟩
    intro id hId
    exact ⟨hLastExt.includes (hFirstIn id hId).1, hLastExt.includes (hFirstIn id hId).2⟩

end Loops

end Enml.OsUi
