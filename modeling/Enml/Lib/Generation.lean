import Mathlib.Data.List.Basic

/-! Slots that are reused under a generation that only moves forward. A name is
a slot and a generation; once its slot has gone past it, it names nothing ever
again. -/
namespace Generation

variable {σ : Type*} (generation : σ → ℕ) (live : σ → Bool) {i g : ℕ}

/-- Slot `i` is live at generation `g`. -/
def Named (slots : List σ) (i g : ℕ) : Prop :=
  ∃ s, slots[i]? = some s ∧ generation s = g ∧ live s = true

/-- Slot `i` has ended generation `g`, or is beyond it. -/
def Past (slots : List σ) (i g : ℕ) : Prop :=
  ∃ s, slots[i]? = some s ∧ (g < generation s ∨ g = generation s ∧ live s = false)

/-- Every slot moves to a later generation, or stays in its own without coming
back to life. -/
def Advances (slots slots' : List σ) : Prop :=
  ∀ (i : ℕ) (s : σ), slots[i]? = some s → ∃ s', slots'[i]? = some s' ∧
    (generation s < generation s' ∨ generation s = generation s' ∧ (live s' = true → live s = true))

variable {generation live} {slots slots' slots'' : List σ}

theorem Advances.refl (slots : List σ) : Advances generation live slots slots :=
  fun _ s h => ⟨s, h, .inr ⟨rfl, id⟩⟩

theorem Advances.trans (h : Advances generation live slots slots')
    (h' : Advances generation live slots' slots'') : Advances generation live slots slots'' := by
  intro i s hs
  obtain ⟨s', hs', hNext⟩ := h i s hs
  obtain ⟨s'', hs'', hLast⟩ := h' i s' hs'
  refine ⟨s'', hs'', ?_⟩
  rcases hNext with hLt | ⟨hEq, hLive⟩
  · left
    rcases hLast with hLt' | ⟨hEq', -⟩ <;> omega
  rcases hLast with hLt' | ⟨hEq', hLive'⟩
  · left
    omega
  · exact .inr ⟨hEq.trans hEq', fun h => hLive (hLive' h)⟩

theorem Advances.set {s s' : σ} (hs : slots[i]? = some s) (h : generation s < generation s' ∨
      generation s = generation s' ∧ (live s' = true → live s = true)) :
    Advances generation live slots (slots.set i s') := by
  intro j t ht
  rcases eq_or_ne i j with rfl | hne
  · rw [hs] at ht
    cases ht
    exact ⟨s', List.getElem?_set_self (List.getElem?_eq_some_iff.mp hs).1, h⟩
  · exact ⟨t, by rw [List.getElem?_set_ne hne, ht], .inr ⟨rfl, id⟩⟩

/-- Whatever is done to one slot without touching its generation or reviving it. -/
theorem Advances.modify {f : σ → σ} (hGen : ∀ s, generation (f s) = generation s)
    (hLive : ∀ s, live (f s) = true → live s = true) (i : ℕ) :
    Advances generation live slots (slots.modify i f) := by
  intro j t ht
  rw [List.getElem?_modify, ht]
  by_cases hij : i = j
  · exact ⟨f t, by simp [hij], .inr ⟨(hGen t).symm, hLive t⟩⟩
  · exact ⟨t, by simp [hij], .inr ⟨rfl, id⟩⟩

theorem Past.not_named (h : Past generation live slots i g) :
    ¬ Named generation live slots i g := by
  rintro ⟨s, hs, hGen, hLive⟩
  obtain ⟨s', hs', hPast⟩ := h
  rw [hs] at hs'
  cases hs'
  rcases hPast with hLt | ⟨-, hDead⟩
  · omega
  · rw [hLive] at hDead
    cases hDead

theorem Past.advances (h : Past generation live slots i g)
    (hStep : Advances generation live slots slots') : Past generation live slots' i g := by
  obtain ⟨s, hs, hPast⟩ := h
  obtain ⟨s', hs', hNext⟩ := hStep i s hs
  refine ⟨s', hs', ?_⟩
  rcases hPast with hLt | ⟨hEq, hDead⟩
  · left
    rcases hNext with hLt' | ⟨hEq', -⟩ <;> omega
  rcases hNext with hLt' | ⟨hEq', hLive⟩
  · left
    omega
  refine .inr ⟨hEq.trans hEq', ?_⟩
  rw [Bool.eq_false_iff]
  intro hAlive
  rw [hLive hAlive] at hDead
  cases hDead

/-- A name that has stopped naming is past. -/
theorem past_of_ended (hNamed : Named generation live slots i g)
    (hStep : Advances generation live slots slots') (hEnded : ¬ Named generation live slots' i g) :
    Past generation live slots' i g := by
  obtain ⟨s, hs, rfl, -⟩ := hNamed
  obtain ⟨s', hs', hNext⟩ := hStep i s hs
  refine ⟨s', hs', ?_⟩
  rcases hNext with hLt | ⟨hEq, -⟩
  · exact .inl hLt
  refine .inr ⟨hEq, ?_⟩
  rw [Bool.eq_false_iff]
  intro hAlive
  exact hEnded ⟨s', hs', hEq.symm, hAlive⟩

variable {free spent : σ → Bool}

/-- Slot `i` is free and has a generation left. -/
def Usable (free spent : σ → Bool) (slots : List σ) (i : ℕ) : Prop :=
  ∃ s, slots[i]? = some s ∧ free s = true ∧ spent s = false

/-- Slot `i` is free, but its generations are used up. -/
def Stuck (free spent : σ → Bool) (slots : List σ) (i : ℕ) : Prop :=
  ∃ s, slots[i]? = some s ∧ free s = true ∧ spent s = true

/-- A usable slot, if there is one, comes before every stuck slot. -/
def Unblocked (free spent : σ → Bool) (slots : List σ) : Prop :=
  ∀ i k, Stuck free spent slots i → Usable free spent slots k →
    ∃ j, j < i ∧ Usable free spent slots j

theorem find?_zipIdx {s : σ} (h : (slots.zipIdx.find? fun entry => free entry.1) = some (s, i)) :
    slots[i]? = some s ∧ free s = true ∧ ∀ j t, j < i → slots[j]? = some t → free t = false := by
  obtain ⟨hFree, k, hk, hCell, hBefore⟩ := List.find?_eq_some_iff_getElem.mp h
  simp only [List.getElem_zipIdx, Nat.zero_add, Prod.mk.injEq] at hCell
  obtain ⟨rfl, rfl⟩ := hCell
  have hLen : k < slots.length := by simpa using hk
  refine ⟨by simp [hLen], hFree, fun j t hj hCell => ?_⟩
  obtain ⟨hBound, rfl⟩ := List.getElem?_eq_some_iff.mp hCell
  simpa using hBefore j hj

/-- Taking the first free slot and failing when it is stuck serves every caller
that could be served, exactly if no stuck slot stands before the usable ones. -/
theorem first_free_iff_unblocked :
    ((∃ k, Usable free spent slots k) →
        ∃ s i, (slots.zipIdx.find? fun entry => free entry.1) = some (s, i) ∧ spent s = false) ↔
      Unblocked free spent slots := by
  constructor
  · intro h i k hStuck hUsable
    obtain ⟨s, j, hFind, hSpent⟩ := h ⟨k, hUsable⟩
    obtain ⟨hCell, hFree, hBefore⟩ := find?_zipIdx hFind
    obtain ⟨t, hStuckCell, hStuckFree, hStuckSpent⟩ := hStuck
    refine ⟨j, ?_, s, hCell, hFree, hSpent⟩
    by_contra hLate
    rcases Nat.lt_or_eq_of_le (Nat.le_of_not_lt hLate) with hLt | rfl
    · simp [hBefore i t hLt hStuckCell] at hStuckFree
    · simp_all
  · rintro h ⟨k, t, hCell, hFree, hSpent⟩
    cases hFind : slots.zipIdx.find? fun entry => free entry.1 with
    | none =>
      have hNone := List.find?_eq_none.mp hFind (t, k) (List.mk_mem_zipIdx_iff_getElem?.mpr hCell)
      simp [hFree] at hNone
    | some entry =>
      obtain ⟨s, i⟩ := entry
      obtain ⟨hFirst, hFirstFree, hBefore⟩ := find?_zipIdx hFind
      refine ⟨s, i, rfl, ?_⟩
      by_contra hStuck
      obtain ⟨j, hj, u, hu, hFree', -⟩ :=
        h i k ⟨s, hFirst, hFirstFree, by simpa using hStuck⟩ ⟨t, hCell, hFree, hSpent⟩
      simp [hBefore j u hj hu] at hFree'

end Generation
