import Mathlib.Data.List.Nodup
import Mathlib.Logic.Relation

/-! Records that name their parents. A list of records is a forest once every
name occurs once and every parent is in the list with a smaller rank; a walk
towards the top that may take as many steps as the rank of where it starts then
sees every record above it. -/
namespace ParentLinks

open Relation.ReflTransGen

/-- How a record gives its own name and its parent's. `top` names no record. -/
structure Links (α κ : Type*) where
  id : α → κ
  parent : α → κ
  top : κ

namespace Links

variable {α κ : Type*} (L : Links α κ) {p : α → Prop} {first second : List α} {f : α → α}

/-- `p` is the parent of the record named `c`. -/
def ParentOf (nodes : List α) (c p : κ) : Prop :=
  ∃ d ∈ nodes, L.id d = c ∧ L.parent d = p ∧ p ≠ L.top

/-- The record named `c` is the one named `a` or lies below it. -/
def Within (nodes : List α) : κ → κ → Prop := Relation.ReflTransGen (L.ParentOf nodes)

/-- Every record from `c` upwards satisfies `p`. -/
def AllAbove (p : α → Prop) (nodes : List α) (c : κ) : Prop :=
  ∀ d ∈ nodes, L.Within nodes c (L.id d) → p d

/-- Each parent is in the list, one rank above its child. -/
def Ranked (rank : α → ℕ) (nodes : List α) : Prop :=
  ∀ d ∈ nodes, L.parent d = L.top ∨ ∃ p ∈ nodes, L.id p = L.parent d ∧ rank d = rank p + 1

variable {L} {nodes : List α} {a c : κ} {d : α}

theorem eq_of_id (hDist : (nodes.map L.id).Nodup) {d e : α} (hd : d ∈ nodes) (he : e ∈ nodes)
    (hSame : L.id d = L.id e) : d = e :=
  List.inj_on_of_nodup_map hDist hd he hSame

/-- One step of a path upwards. -/
theorem within_iff (hDist : (nodes.map L.id).Nodup) (hd : d ∈ nodes) :
    L.Within nodes (L.id d) a ↔
      L.id d = a ∨ (L.parent d ≠ L.top ∧ L.Within nodes (L.parent d) a) := by
  rw [Within, cases_head_iff]
  refine or_congr_right ?_
  constructor
  · rintro ⟨p, ⟨e, he, hId, hPar, hTop⟩, hRest⟩
    cases eq_of_id hDist he hd hId
    rw [hPar]
    exact ⟨hTop, hRest⟩
  · rintro ⟨hTop, hRest⟩
    exact ⟨L.parent d, ⟨d, hd, rfl, rfl, hTop⟩, hRest⟩

theorem Within.refl (c : κ) : L.Within nodes c c := Relation.ReflTransGen.refl

/-- A path that leaves its start begins at a record with a parent. -/
theorem Within.eq_or_parent (h : L.Within nodes c a) :
    c = a ∨ ∃ d ∈ nodes, L.id d = c ∧ L.parent d ≠ L.top ∧ L.Within nodes (L.parent d) a := by
  rcases cases_head h with hSame | ⟨p, ⟨d, hd, hId, rfl, hTop⟩, hRest⟩
  · exact .inl hSame
  · exact .inr ⟨d, hd, hId, hTop, hRest⟩

/-- What all records above a record satisfy, seen from its parent. -/
theorem allAbove_iff (hDist : (nodes.map L.id).Nodup) (hd : d ∈ nodes) :
    L.AllAbove p nodes (L.id d) ↔
      p d ∧ (L.parent d = L.top ∨ L.AllAbove p nodes (L.parent d)) := by
  constructor
  · intro h
    refine ⟨h d hd (Within.refl _), ?_⟩
    by_cases hTop : L.parent d = L.top
    · exact .inl hTop
    · refine .inr fun e he hAbove => h e he ?_
      rw [within_iff hDist hd]
      exact .inr ⟨hTop, hAbove⟩
  · rintro ⟨hHere, hRest⟩ e he hAbove
    rcases (within_iff hDist hd).mp hAbove with hSame | ⟨hTop, hAbove⟩
    · rwa [← eq_of_id hDist hd he hSame]
    · exact hRest.resolve_left hTop e he hAbove

/-- A loop that tests a record and moves on to its parent, with as many steps as
the rank of its start, decides whether all records above satisfy the test. -/
theorem walk_iff {rank : α → ℕ} (p : α → Bool) (find : κ → Option α) (walk : ℕ → α → Bool)
    (hDist : (nodes.map L.id).Nodup) (hRanked : L.Ranked rank nodes)
    (hFind : ∀ d ∈ nodes, find (L.id d) = some d)
    (hStop : ∀ n, ∀ d ∈ nodes, L.parent d = L.top → walk (n + 1) d = p d)
    (hStep : ∀ n, ∀ d ∈ nodes, L.parent d ≠ L.top →
      walk (n + 1) d = (p d && (find (L.parent d)).any (walk n)))
    {n : ℕ} (hd : d ∈ nodes) (hFuel : rank d < n) :
    walk n d = true ↔ L.AllAbove (fun d => p d = true) nodes (L.id d) := by
  induction n generalizing d with
  | zero => omega
  | succ n ih =>
    rw [allAbove_iff hDist hd]
    rcases hRanked d hd with hTop | ⟨e, he, hPar, hRank⟩
    · rw [hStop n d hd hTop]
      simp [hTop]
    by_cases hTop : L.parent d = L.top
    · rw [hStop n d hd hTop]
      simp [hTop]
    rw [hStep n d hd hTop, ← hPar, hFind e he, Option.any_some, Bool.and_eq_true, ih he (by omega)]
    rw [← hPar] at hTop
    simp [hTop]

theorem within_congr (h : ∀ d, d ∈ first ↔ d ∈ second) :
    L.Within first c a ↔ L.Within second c a := by
  have hSame : L.ParentOf first = L.ParentOf second := by
    funext c p
    simp only [ParentOf, h]
  rw [Within, Within, hSame]

theorem allAbove_congr (h : ∀ d, d ∈ first ↔ d ∈ second) :
    L.AllAbove p first c ↔ L.AllAbove p second c := by
  simp only [AllAbove, within_congr h, h]

/-- A rewrite that keeps names and parents keeps the paths. -/
theorem within_map (hId : ∀ d, L.id (f d) = L.id d) (hPar : ∀ d, L.parent (f d) = L.parent d) :
    L.Within (nodes.map f) c a ↔ L.Within nodes c a := by
  have hSame : L.ParentOf (nodes.map f) = L.ParentOf nodes := by
    funext c p
    simp [ParentOf, hId, hPar]
  rw [Within, Within, hSame]

theorem allAbove_map (hId : ∀ d, L.id (f d) = L.id d) (hPar : ∀ d, L.parent (f d) = L.parent d) :
    L.AllAbove p (nodes.map f) c ↔ L.AllAbove (fun d => p (f d)) nodes c := by
  simp [AllAbove, within_map hId hPar, hId]

theorem Within.mono (hSub : ∀ d ∈ first, d ∈ second) (h : L.Within first c a) :
    L.Within second c a := by
  induction h with
  | refl => exact Within.refl _
  | tail _ hLast ih =>
    obtain ⟨d, hd, hRest⟩ := hLast
    exact tail ih ⟨d, hSub d hd, hRest⟩

/-- A new record that no other names changes no path of the others. -/
theorem within_cons (hChildless : ∀ e ∈ nodes, L.parent e ≠ L.id d) (hc : c ≠ L.id d) :
    L.Within (d :: nodes) c a ↔ L.Within nodes c a := by
  constructor
  · intro h
    induction h using head_induction_on with
    | refl => exact Within.refl _
    | @head c b hHead _ ih =>
      obtain ⟨e, he, rfl, rfl, hTop⟩ := hHead
      rcases List.mem_cons.mp he with rfl | he
      · exact absurd rfl hc
      · exact head ⟨e, he, rfl, rfl, hTop⟩ (ih (hChildless e he))
  · exact Within.mono fun e he => List.mem_cons_of_mem d he

theorem allAbove_cons (hChildless : ∀ e ∈ nodes, L.parent e ≠ L.id d) (hc : c ≠ L.id d) :
    L.AllAbove p (d :: nodes) c ↔ L.AllAbove p nodes c := by
  simp only [AllAbove, List.mem_cons, forall_eq_or_imp, within_cons hChildless hc]
  refine and_iff_right_of_imp fun _ hAbove => ?_
  -- no path among the others ends at the new record
  rcases cases_tail hAbove with hSame | ⟨b, -, e, he, -, hPar, -⟩
  · exact absurd hSame.symm hc
  · exact absurd hPar (hChildless e he)

section Filter

variable {keep : α → Bool}
  (hClosed : ∀ d ∈ nodes, keep d = true → ∀ e ∈ nodes, L.id e = L.parent d → keep e = true)
  (hDist : (nodes.map L.id).Nodup)

include hClosed hDist

/-- What is kept along with the parents is kept all the way up. -/
theorem keep_of_within (hd : d ∈ nodes) (hKeep : keep d = true) {e : α} (he : e ∈ nodes)
    (h : L.Within nodes (L.id d) (L.id e)) : keep e = true := by
  generalize hc : L.id d = c at h
  induction h using head_induction_on generalizing d with
  | refl => rwa [← eq_of_id hDist hd he hc]
  | @head c b hHead hRest ih =>
    obtain ⟨f, hf, hId, rfl, -⟩ := hHead
    cases eq_of_id hDist hf hd (hId.trans hc.symm)
    rcases Within.eq_or_parent hRest with hEnd | ⟨g, hg, hPar, -⟩
    · exact hClosed d hd hKeep e he hEnd.symm
    · exact ih hg (hClosed d hd hKeep g hg hPar) hPar

/-- Dropping records that nothing kept lies below keeps the paths of the rest. -/
theorem within_filter (hd : d ∈ nodes) (hKeep : keep d = true) :
    L.Within (nodes.filter keep) (L.id d) a ↔ L.Within nodes (L.id d) a := by
  constructor
  · exact Within.mono fun e he => (List.mem_filter.mp he).1
  intro h
  generalize hc : L.id d = c at h ⊢
  induction h using head_induction_on generalizing d with
  | refl => exact Within.refl _
  | @head c b hHead hRest ih =>
    obtain ⟨f, hf, hId, rfl, hTop⟩ := hHead
    cases eq_of_id hDist hf hd (hId.trans hc.symm)
    refine head
      ⟨d, List.mem_filter.mpr ⟨hd, hKeep⟩, hc, rfl, hTop⟩ ?_
    rcases Within.eq_or_parent hRest with rfl | ⟨g, hg, hPar, -⟩
    · exact Within.refl _
    · exact ih hg (hClosed d hd hKeep g hg hPar) hPar

theorem allAbove_filter (hd : d ∈ nodes) (hKeep : keep d = true) :
    L.AllAbove p (nodes.filter keep) (L.id d) ↔ L.AllAbove p nodes (L.id d) := by
  simp only [AllAbove, within_filter hClosed hDist hd hKeep, List.mem_filter]
  constructor
  · intro h e he hUp
    exact h e ⟨he, keep_of_within hClosed hDist hd hKeep he hUp⟩ hUp
  · intro h e he hUp
    exact h e he.1 hUp

end Filter

end Links

end ParentLinks
