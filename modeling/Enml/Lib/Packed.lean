import Enml.Lib.SlotTable

/-! Slot tables that fill from the front and are never freed: the slots in use come
first, and the rest are blank. Such a table is its list of entries. -/
namespace SlotTable

open List

variable {σ κ : Type*} {p : σ → Bool} {f : σ → σ} {front back : List σ} {s v : σ}

theorem updateFirst_append_of_back (h : ∀ s ∈ back, p s = false) :
    updateFirst p f (front ++ back) = updateFirst p f front ++ back := by
  induction front with
  | nil =>
    refine updateFirst_of_find_none (find?_eq_none.mpr fun s hs => ?_) f
    simp [h s hs]
  | cons x _ ih =>
    cases hx : p x with
    | true => simp [updateFirst, hx]
    | false => simp [updateFirst, hx, ih]

theorem updateFirst_append_of_front (h : ∀ s ∈ front, p s = false) :
    updateFirst p f (front ++ back) = front ++ updateFirst p f back := by
  induction front with
  | nil => rfl
  | cons x _ ih =>
    simp [updateFirst, h x mem_cons_self, ih fun s hs => h s (mem_cons_of_mem _ hs)]

/-- The table of `size` slots with the entries `xs`. -/
def packed (blank : σ) (size : ℕ) (xs : List σ) : List σ := xs ++ replicate (size - xs.length) blank

variable {blank : σ} {size : ℕ} {xs : List σ}

theorem packed_nil : packed blank size [] = replicate size blank := by
  rw [packed, nil_append, length_nil, Nat.sub_zero]

theorem length_packed (h : xs.length ≤ size) : (packed blank size xs).length = size := by
  rw [packed, length_append, length_replicate]
  omega

theorem mem_packed (h : s ∈ packed blank size xs) : s ∈ xs ∨ s = blank := by
  rcases mem_append.mp h with h | h
  · exact .inl h
  · exact .inr (eq_of_mem_replicate h)

theorem mem_packed_of_mem (h : s ∈ xs) : s ∈ packed blank size xs := mem_append_left _ h

theorem getElem?_packed {i : ℕ} (h : xs[i]? = some s) : (packed blank size xs)[i]? = some s := by
  rw [packed, List.getElem?_append_left (List.getElem?_eq_some_iff.mp h).1]
  exact h

theorem getElem?_of_packed {i : ℕ} (h : (packed blank size xs)[i]? = some s) (hUsed : s ≠ blank) :
    xs[i]? = some s := by
  rw [packed, getElem?_append] at h
  split_ifs at h
  · exact h
  · exact absurd (eq_of_mem_replicate (mem_of_getElem? h)) hUsed

/-- Filling the first slot that is blank. -/
theorem set_packed (h : xs.length < size) :
    (packed blank size xs).set xs.length v = packed blank size (xs ++ [v]) := by
  obtain ⟨k, hk⟩ : ∃ k, size - xs.length = k + 1 := ⟨size - xs.length - 1, by omega⟩
  have hRest : size - (xs ++ [v]).length = k := by
    rw [length_append, length_singleton]
    omega
  rw [packed, packed, hk, hRest, set_append_right _ _ (Nat.le_refl _), Nat.sub_self,
    replicate_succ, set_cons_zero, append_assoc, singleton_append]

theorem countP_packed (hBlank : p blank = false) (hAll : ∀ s ∈ xs, p s = true) :
    (packed blank size xs).countP p = xs.length := by
  rw [packed, countP_append, countP_eq_length.mpr hAll, countP_replicate, hBlank,
    if_neg (by decide), Nat.add_zero]

/-- The table is full when its entries are as many as its slots. -/
theorem all_packed (hBlank : p blank = false) (hAll : ∀ s ∈ xs, p s = true) :
    (packed blank size xs).all p = decide (size ≤ xs.length) := by
  rw [packed, all_append, all_eq_true.mpr hAll, Bool.true_and]
  by_cases hFull : size ≤ xs.length
  · rw [Nat.sub_eq_zero_of_le hFull]
    simp [hFull]
  · obtain ⟨k, hk⟩ : ∃ k, size - xs.length = k + 1 := ⟨size - xs.length - 1, by omega⟩
    simp [hk, replicate_succ, hBlank, hFull]

variable {key : σ → Option κ}

theorem entries_packed (hBlank : key blank = none) (hAll : ∀ s ∈ xs, (key s).isSome = true) :
    entries key (packed blank size xs) = xs := by
  have hRest : entries key (replicate (size - xs.length) blank) = [] := entries_replicate hBlank _
  rw [entries] at hRest
  rw [entries, packed, filter_append, hRest, append_nil, filter_eq_self.mpr hAll]

variable [DecidableEq κ]

theorem lookup_packed (hBlank : key blank = none) (k : κ) :
    lookup key k (packed blank size xs) = lookup key k xs := by
  have hRest : (replicate (size - xs.length) blank).find?
      (fun s => decide (key s = some k)) = none := by
    rw [find?_eq_none]
    intro s hs
    simp [eq_of_mem_replicate hs, hBlank]
  rw [lookup, packed, find?_append, hRest, Option.or_none, lookup]

theorem modify_packed (hBlank : key blank = none) (k : κ) (f : σ → σ) :
    modify key k f (packed blank size xs) = packed blank size (modify key k f xs) := by
  have hLen : (modify key k f xs).length = xs.length := length_modify ..
  rw [packed, packed, hLen, modify, updateFirst_append_of_back]
  · rfl
  · intro s hs
    simp [eq_of_mem_replicate hs, hBlank]

omit [DecidableEq κ] in
theorem insert_packed (hBlank : key blank = none) (hAll : ∀ s ∈ xs, (key s).isSome = true)
    (h : xs.length < size) :
    insert key v (packed blank size xs) = some (packed blank size (xs ++ [v])) := by
  obtain ⟨k, hk⟩ : ∃ k, size - xs.length = k + 1 := ⟨size - xs.length - 1, by omega⟩
  have hRest : size - (xs ++ [v]).length = k := by
    rw [length_append, length_singleton]
    omega
  have hFree : (packed blank size xs).any (fun s => (key s).isNone) = true := by
    rw [packed, hk, replicate_succ]
    simp [hBlank]
  rw [insert, if_pos hFree, packed, packed, hk, hRest, updateFirst_append_of_front]
  · simp [replicate_succ, updateFirst, hBlank]
  · intro s hs
    simpa using hAll s hs

end SlotTable
