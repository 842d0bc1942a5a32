import Mathlib.Data.Set.Insert

/-! Marks that spread from parents to children, one visit after another. When
chains of parents are at most `d` long, `d` passes over the nodes reach every
node below a marked one and no other. -/
namespace Spread

open Relation.ReflTransGen

variable (up : ℕ → Option ℕ)

/-- Mark `i` when its parent is marked. -/
def visit (marks : Set ℕ) (i : ℕ) : Set ℕ := {x | x ∈ marks ∨ x = i ∧ ∃ j ∈ marks, up i = some j}

/-- Visit the nodes below `n` in order. -/
def pass (n : ℕ) (marks : Set ℕ) : Set ℕ := (List.range n).foldl (visit up) marks

/-- The nodes that are marked or below a marked node. -/
def below (marks : Set ℕ) : Set ℕ :=
  {i | ∃ j ∈ marks, Relation.ReflTransGen (fun a b => up a = some b) i j}

variable {up}

theorem subset_visit (marks : Set ℕ) (i : ℕ) : marks ⊆ visit up marks i := fun _ => .inl

variable {marks start : Set ℕ} {i j : ℕ}

theorem visit_of_up (hUp : up i = some j) (hj : j ∈ marks) : visit up marks i = insert i marks := by
  ext x
  simp only [visit, Set.mem_ofPred_eq, Set.mem_insert_iff]
  constructor
  · rintro (hx | ⟨hx, -⟩)
    · exact .inr hx
    · exact .inl hx
  · rintro (hx | hx)
    · exact .inr ⟨hx, j, hj, hUp⟩
    · exact .inl hx

theorem visit_of_not_up (h : ∀ j ∈ marks, up i = some j → i ∈ marks) :
    visit up marks i = marks := by
  ext x
  simp only [visit, Set.mem_ofPred_eq]
  constructor
  · rintro (hx | ⟨rfl, j, hj, hUp⟩)
    · exact hx
    · exact h j hj hUp
  · exact .inl

theorem subset_foldl_visit (nodes : List ℕ) (marks : Set ℕ) :
    marks ⊆ nodes.foldl (visit up) marks := by
  induction nodes generalizing marks with
  | nil => exact subset_rfl
  | cons i _ ih => exact (subset_visit marks i).trans (ih _)

theorem subset_pass (n : ℕ) (marks : Set ℕ) : marks ⊆ pass up n marks := subset_foldl_visit _ _

theorem subset_below (marks : Set ℕ) : marks ⊆ below up marks :=
  fun i hi => ⟨i, hi, refl⟩

/-- What is below is closed under the spreading. -/
theorem mem_below_of_up (hUp : up i = some j) (hj : j ∈ below up marks) : i ∈ below up marks := by
  obtain ⟨root, hRoot, hPath⟩ := hj
  exact ⟨root, hRoot, head hUp hPath⟩

theorem visit_subset_below (h : marks ⊆ below up start) (i : ℕ) :
    visit up marks i ⊆ below up start := by
  rintro x (hx | ⟨rfl, j, hj, hUp⟩)
  · exact h hx
  · exact mem_below_of_up hUp (h hj)

theorem pass_subset_below (h : marks ⊆ below up start) (n : ℕ) :
    pass up n marks ⊆ below up start := by
  unfold pass
  induction List.range n generalizing marks with
  | nil => exact h
  | cons i _ ih => exact ih (visit_subset_below h i)

/-- A pass marks at least the children of what was marked before it. -/
theorem mem_pass_of_up {n : ℕ} (hi : i < n) (hUp : up i = some j) (hj : j ∈ marks) :
    i ∈ pass up n marks := by
  obtain ⟨front, back, hRange⟩ := List.append_of_mem (List.mem_range.mpr hi)
  rw [pass, hRange, List.foldl_append, List.foldl_cons]
  apply subset_foldl_visit
  exact .inr ⟨rfl, j, subset_foldl_visit front marks hj, hUp⟩

theorem iterate_pass_subset_below (h : marks ⊆ below up start) (n k : ℕ) :
    (pass up n)^[k] marks ⊆ below up start := by
  induction k generalizing marks with
  | zero => exact h
  | succ k ih => exact ih (pass_subset_below h n)

section Depth

variable {depth : ℕ → ℕ} (hDepth : ∀ i j, up i = some j → depth i = depth j + 1)
include hDepth

theorem depth_le_of_path {i j : ℕ} (h : Relation.ReflTransGen (fun a b => up a = some b) i j) :
    depth j ≤ depth i := by
  induction h with
  | refl => exact le_rfl
  | tail _ hUp =>
    have hStep := hDepth _ _ hUp
    omega

theorem mem_iterate_pass {n : ℕ} {marks : Set ℕ} (hBound : ∀ i j, up i = some j → i < n)
    {i j : ℕ} (hPath : Relation.ReflTransGen (fun a b => up a = some b) i j) (hj : j ∈ marks)
    {k : ℕ} (hk : depth i ≤ depth j + k) : i ∈ (pass up n)^[k] marks := by
  induction hPath using head_induction_on generalizing k with
  | refl =>
    clear hk
    induction k generalizing marks with
    | zero => exact hj
    | succ k ih => exact ih (subset_pass n marks hj)
  | head hUp hRest ih =>
    have hStep := hDepth _ _ hUp
    have hBelow := depth_le_of_path hDepth hRest
    obtain ⟨k, rfl⟩ : ∃ k', k = k' + 1 := ⟨k - 1, by omega⟩
    rw [Function.iterate_succ_apply']
    exact mem_pass_of_up (hBound _ _ hUp) hUp (ih (by omega))

/-- With depths up to `d`, `d` passes mark exactly what is below. -/
theorem iterate_pass_eq_below {n d : ℕ} (hBound : ∀ i j, up i = some j → i < n ∧ depth i ≤ d)
    (marks : Set ℕ) : (pass up n)^[d] marks = below up marks := by
  apply Set.Subset.antisymm
  · exact iterate_pass_subset_below (subset_below marks) n d
  rintro i ⟨j, hj, hPath⟩
  apply mem_iterate_pass hDepth (fun a b h => (hBound a b h).1) hPath hj
  rcases cases_head hPath with rfl | ⟨b, hUp, -⟩
  · omega
  · have hLe := (hBound i b hUp).2
    omega

end Depth

end Spread
