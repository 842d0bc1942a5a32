import Mathlib.Data.List.Basic

/-! Runs of a deterministic machine on a list of inputs. A property is stated
of every state a run passes through, and a condition of every input it takes
together with the state that takes it. -/
namespace Run

open List

variable {σ ι ο : Type*} (step : σ → ι → σ × ο)
  {P W : σ → Prop} {C : σ → ι → Prop} {R : σ → σ → Prop} {A : σ → σ → ι → ι → Prop}

/-- The state reached from `s` by taking the inputs in order. -/
def after (s : σ) (inputs : List ι) : σ := inputs.foldl (fun s i => (step s i).1) s

/-- `P` holds at the start, at the end and at every state between. -/
def Always (P : σ → Prop) (s : σ) (inputs : List ι) : Prop := ∀ n, P (after step s (inputs.take n))

/-- `C` holds of every input at the state that takes it. -/
def EachStep (C : σ → ι → Prop) (s : σ) (inputs : List ι) : Prop :=
  ∀ n i, inputs[n]? = some i → C (after step s (inputs.take n)) i

variable {step}

@[simp] theorem after_nil (s : σ) : after step s [] = s := rfl

theorem after_append (s : σ) (first second : List ι) :
    after step s (first ++ second) = after step (after step s first) second := by
  rw [after, foldl_append]
  rfl

variable {s : σ} {inputs : List ι} {n : Nat}

theorem after_take_succ {i : ι} (h : inputs[n]? = some i) :
    after step s (inputs.take (n + 1)) = (step (after step s (inputs.take n)) i).1 := by
  rw [take_add_one, h, Option.toList_some, after_append]
  rfl

theorem take_succ_of_none (h : inputs[n]? = none) : inputs.take (n + 1) = inputs.take n := by
  rw [take_add_one, h, Option.toList_none, append_nil]

theorem Always.final (h : Always step P s inputs) : P (after step s inputs) := by
  have hEnd := h inputs.length
  rwa [take_length] at hEnd

theorem EachStep.cons {i : ι} (hNow : C s i) (hRest : EachStep step C (step s i).1 inputs) :
    EachStep step C s (i :: inputs) := by
  intro n j hj
  cases n with
  | zero =>
    cases hj
    exact hNow
  | succ n => exact hRest n j hj

/-- A property of the start that every permitted step keeps holds throughout. -/
theorem always_of_step (hStart : P s) (hStep : ∀ s i, P s → C s i → P (step s i).1)
    (hEach : EachStep step C s inputs) :
    Always step P s inputs := by
  intro n
  induction n with
  | zero => simpa using hStart
  | succ n ih =>
    cases hi : inputs[n]? with
    | none => rwa [take_succ_of_none hi]
    | some i =>
      rw [after_take_succ hi]
      exact hStep _ _ ih (hEach n i hi)

theorem always_of_invariant (hStart : P s) (hStep : ∀ s i, P s → P (step s i).1) :
    Always step P s inputs :=
  always_of_step (C := fun _ _ => True) hStart (fun s i h _ => hStep s i h)
    (fun _ _ _ => trivial)

/-- What every step on a permitted input keeps is kept for as long as the inputs
are permitted. `W` is what may be assumed of every state. -/
theorem stable_of_permitted {C : ι → Prop} (hW : Always step W s inputs)
    (hStep : ∀ s i, W s → P s → C i → P (step s i).1) {n m : Nat} (hnm : n ≤ m)
    (hC : ∀ i ∈ inputs.take m, C i) (h : P (after step s (inputs.take n))) :
    P (after step s (inputs.take m)) := by
  induction hnm with
  | refl => exact h
  | @step m _ ih =>
    have hEarlier := ih fun i hi => hC i (take_subset_take_left inputs (Nat.le_succ m) hi)
    cases hi : inputs[m]? with
    | none => rwa [take_succ_of_none hi]
    | some i =>
      rw [after_take_succ hi]
      refine hStep _ _ (hW m) hEarlier (hC i ?_)
      rw [take_add_one, hi]
      simp

/-- What every step keeps, once reached, is kept from there on. -/
theorem stable (hStep : ∀ s i, P s → P (step s i).1) {n m : Nat} (hnm : n ≤ m)
    (h : P (after step s (inputs.take n))) : P (after step s (inputs.take m)) :=
  stable_of_permitted (W := fun _ => True) (C := fun _ => True) (fun _ => trivial)
    (fun s i _ hP _ => hStep s i hP) hnm (fun _ _ => trivial) h

/-- When a step keeps `P` exactly if it meets `C`, a run keeps `P` exactly if
all its steps meet `C`. `W` is what may be assumed of every state. -/
theorem always_iff_eachStep (hWStart : W s) (hWStep : ∀ s i, W s → W (step s i).1) (hStart : P s)
    (hStep : ∀ s i, W s → P s → (P (step s i).1 ↔ C s i)) :
    Always step P s inputs ↔ EachStep step C s inputs := by
  have hW : Always step W s inputs := always_of_invariant hWStart hWStep
  constructor
  · intro h n i hi
    have hNext := h (n + 1)
    rw [after_take_succ hi] at hNext
    exact (hStep _ _ (hW n) (h n)).mp hNext
  intro h
  have hBoth : Always step (fun s => W s ∧ P s) s inputs :=
    always_of_step ⟨hWStart, hStart⟩
      (fun s i hs hi => ⟨hWStep s i hs.1, (hStep s i hs.1 hs.2).mpr hi⟩) h
  intro n
  exact (hBoth n).2

variable (step) in
/-- Each state of the run with the input it took and the output it gave. -/
def history (s : σ) : List ι → List (σ × ι × ο)
  | [] => []
  | i :: rest => (s, i, (step s i).2) :: history (step s i).1 rest

variable (step) in
def outputs (s : σ) (inputs : List ι) : List ο := (history step s inputs).map fun e => e.2.2

/-- A view of the state that every step updates from what can be seen of it is a
fold over what has been seen. -/
theorem view_after {ω : Type*} {v : σ → ω} {record : ω → ι × ο → ω}
    (hStep : ∀ s i, v (step s i).1 = record (v s) (i, (step s i).2)) (s : σ)
    (inputs : List ι) :
    v (after step s inputs) =
      ((history step s inputs).map Prod.snd).foldl record (v s) := by
  induction inputs generalizing s with
  | nil => rfl
  | cons i rest ih =>
    show v (after step (step s i).1 rest) = _
    rw [ih, hStep]
    rfl

/-- An invariant holds of every state in the history. -/
theorem of_mem_history {s : σ} {inputs : List ι} (hStart : P s)
    (hStep : ∀ s i, P s → P (step s i).1) {e : σ × ι × ο} (h : e ∈ history step s inputs) :
    P e.1 ∧ e.2.2 = (step e.1 e.2.1).2 := by
  induction inputs generalizing s with
  | nil => cases h
  | cons i _ ih =>
    rcases mem_cons.mp h with rfl | hRest
    · exact ⟨hStart, rfl⟩
    · exact ih (hStep s i hStart) hRest

/-- An event that costs credit happens no more often than the start can pay for,
when no step adds credit. -/
theorem countP_history_le {event : σ × ι × ο → Bool} (credit : σ → ℕ) {s : σ}
    {inputs : List ι} (hStart : P s) (hStep : ∀ s i, P s → P (step s i).1)
    (hSpend : ∀ s i, P s →
      (if event (s, i, (step s i).2) then 1 else 0) + credit (step s i).1 ≤ credit s) :
    (history step s inputs).countP event ≤ credit s := by
  induction inputs generalizing s with
  | nil => simp [history]
  | cons i _ ih =>
    have hRest := ih (hStep s i hStart)
    have hHead := hSpend s i hStart
    rw [history, countP_cons]
    omega

variable (step) in
/-- Two runs side by side take inputs that `A` relates at the states they are in. -/
def Paired (A : σ → σ → ι → ι → Prop) : σ → σ → List ι → List ι → Prop
  | _, _, [], [] => True
  | s, s', i :: rest, i' :: rest' => A s s' i i' ∧ Paired A (step s i).1 (step s' i').1 rest rest'
  | _, _, _, _ => False

/-- Unwinding: a relation on states that related inputs keep, and under which
they give one output, makes the outputs of paired runs the same. -/
theorem outputs_eq_of_paired (hStep : ∀ s s' i i', R s s' → A s s' i i' →
      (step s i).2 = (step s' i').2 ∧ R (step s i).1 (step s' i').1)
    {s s' : σ} {inputs inputs' : List ι} (hStart : R s s')
    (hPaired : Paired step A s s' inputs inputs') :
    outputs step s inputs = outputs step s' inputs' := by
  induction inputs generalizing s s' inputs' with
  | nil =>
    cases inputs' with
    | nil => rfl
    | cons => exact hPaired.elim
  | cons i _ ih =>
    cases inputs' with
    | nil => exact hPaired.elim
    | cons i' =>
      obtain ⟨hHead, hRest⟩ := hPaired
      obtain ⟨hOutput, hNext⟩ := hStep s s' i i' hStart hHead
      exact congrArg₂ List.cons hOutput (ih hNext hRest)

/-- When paired inputs give one view exactly if `A` relates them, and then keep
the relation on states, the runs look alike exactly if `A` holds at every pair
of steps. -/
theorem outputs_eq_iff_paired {ω : Type*} {B : ι → ι → Prop} {view : ο → ω}
    (hView : ∀ s s' i i', R s s' → B i i' → (view (step s i).2 = view (step s' i').2 ↔ A s s' i i'))
    (hStep : ∀ s s' i i', R s s' → B i i' → A s s' i i' → R (step s i).1 (step s' i').1)
    {s s' : σ} {inputs inputs' : List ι} (hStart : R s s')
    (hInputs : List.Forall₂ B inputs inputs') :
    (outputs step s inputs).map view = (outputs step s' inputs').map view ↔
      Paired step A s s' inputs inputs' := by
  induction hInputs generalizing s s' with
  | nil => exact ⟨fun _ => trivial, fun _ => rfl⟩
  | @cons i i' rest rest' hHead _ ih =>
    have hFirst := hView s s' i i' hStart hHead
    show view (step s i).2 :: (outputs step (step s i).1 rest).map view =
        view (step s' i').2 :: (outputs step (step s' i').1 rest').map view ↔
      A s s' i i' ∧ Paired step A (step s i).1 (step s' i').1 rest rest'
    rw [List.cons.injEq, hFirst]
    refine and_congr_right fun hA => ?_
    exact ih (hStep s s' i i' hStart hHead hA)

end Run
