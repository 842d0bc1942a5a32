import Mathlib.Data.List.Basic
import Mathlib.Order.Nat

/-! Tables of tables in a flat memory. A table is named by its page, each of its
entries has an address, and an entry above the last level is blank or names the
next table. Several trees may share the memory. A path is a list of indices with
the last one first, and the table it leads to is a table of the tree. -/
namespace RadixTable

open Function

/-- How pages, indices, addresses and entries go together. Pages that are `ok`
have entries at addresses of their own. -/
structure Format (P I A V : Type*) where
  slot : P → I → A
  blank : V
  encode : P → V
  decode : V → Option P
  ok : P → Prop
  decode_blank : decode blank = none
  decode_encode : ∀ p, ok p → decode (encode p) = some p
  slot_inj : ∀ p q i j, ok p → ok q → slot p i = slot q j → p = q ∧ i = j

variable {κ P I A V : Type*} (F : Format P I A V)

/-- The table at the end of a path. -/
def table (mem : A → V) (roots : κ → Option P) (k : κ) : List I → Option P
  | [] => roots k
  | i :: s => (table mem roots k s).bind fun p => F.decode (mem (F.slot p i))

/-- The entry at index `i` of the table at the end of a path; blank where there
is no such table. -/
def entry (mem : A → V) (roots : κ → Option P) (k : κ) (s : List I) (i : I) : V :=
  match table F mem roots k s with
  | none => F.blank
  | some p => mem (F.slot p i)

/-- Trees whose tables down to `depth` are all different. -/
structure Separate (depth : Nat) (mem : A → V) (roots : κ → Option P) : Prop where
  sound : ∀ k s p, s.length ≤ depth → table F mem roots k s = some p → F.ok p
  apart : ∀ k s k' s' p, s.length ≤ depth → s'.length ≤ depth →
    table F mem roots k s = some p → table F mem roots k' s' = some p → k = k' ∧ s = s'
  formed : ∀ k s i, s.length < depth →
    entry F mem roots k s i = F.blank ∨ ∃ q, F.ok q ∧ entry F mem roots k s i = F.encode q

/-- A page no tree uses. -/
def Unused (depth : Nat) (mem : A → V) (roots : κ → Option P) (q : P) : Prop :=
  ∀ k s, s.length ≤ depth → table F mem roots k s ≠ some q

variable {F} {mem mem' : A → V} {roots : κ → Option P} {depth : Nat}

theorem table_cons (k : κ) (i : I) (s : List I) :
    table F mem roots k (i :: s) = F.decode (entry F mem roots k s i) := by
  rw [table, entry]
  cases table F mem roots k s with
  | none => simp [F.decode_blank]
  | some => rfl

theorem entry_of_table {k : κ} {s : List I} {p : P} (h : table F mem roots k s = some p) (i : I) :
    entry F mem roots k s i = mem (F.slot p i) := by
  rw [entry, h]

theorem entry_of_none {k : κ} {s : List I} (h : table F mem roots k s = none) (i : I) :
    entry F mem roots k s i = F.blank := by
  rw [entry, h]

/-- Memory that keeps the entries of all tables has the same tables. -/
theorem table_congr (hMem : ∀ k s p i, s.length ≤ depth → table F mem roots k s = some p →
      mem' (F.slot p i) = mem (F.slot p i)) (k : κ) (s : List I) (hs : s.length ≤ depth) :
    table F mem' roots k s = table F mem roots k s := by
  induction s with
  | nil => rfl
  | cons i s ih =>
    have hs' : s.length ≤ depth := Nat.le_of_succ_le hs
    rw [table, table, ih hs']
    cases hTbl : table F mem roots k s with
    | none => rfl
    | some p =>
      show F.decode (mem' (F.slot p i)) = F.decode (mem (F.slot p i))
      rw [hMem k s p i hs' hTbl]

theorem entry_congr (hMem : ∀ k s p i, s.length ≤ depth → table F mem roots k s = some p →
      mem' (F.slot p i) = mem (F.slot p i)) (k : κ) (s : List I) (i : I) (hs : s.length ≤ depth) :
    entry F mem' roots k s i = entry F mem roots k s i := by
  rw [entry, entry, table_congr hMem k s hs]
  cases hTbl : table F mem roots k s with
  | none => rfl
  | some p => exact hMem k s p i hs hTbl

theorem Separate.congr (h : Separate F depth mem roots)
    (hMem : ∀ k s p i, s.length ≤ depth → table F mem roots k s = some p →
      mem' (F.slot p i) = mem (F.slot p i)) : Separate F depth mem' roots := by
  refine ⟨?_, ?_, ?_⟩
  · intro k s p hs hp
    rw [table_congr hMem k s hs] at hp
    exact h.sound k s p hs hp
  · intro k s k' s' p hs hs' hp hp'
    rw [table_congr hMem k s hs] at hp
    rw [table_congr hMem k' s' hs'] at hp'
    exact h.apart k s k' s' p hs hs' hp hp'
  · intro k s i hs
    rw [entry_congr hMem k s i hs.le]
    exact h.formed k s i hs

section Write

variable [DecidableEq κ] [DecidableEq I] [DecidableEq A] {k₀ : κ} {s₀ : List I} {i₀ : I} {p₀ : P}
  {v : V}

/-- Where the tables are the same after a write, exactly one entry changed. -/
theorem Separate.entry_update (h : Separate F depth mem roots) (hDepth : s₀.length ≤ depth)
    (hp : table F mem roots k₀ s₀ = some p₀) {k : κ} {s : List I} (hs : s.length ≤ depth)
    (hSame : table F (update mem (F.slot p₀ i₀) v) roots k s = table F mem roots k s)
    (i : I) :
    entry F (update mem (F.slot p₀ i₀) v) roots k s i =
      if k = k₀ ∧ s = s₀ ∧ i = i₀ then v else entry F mem roots k s i := by
  rw [entry, hSame]
  cases hTbl : table F mem roots k s with
  | none =>
    rw [entry_of_none hTbl, if_neg]
    rintro ⟨rfl, rfl, -⟩
    rw [hp] at hTbl
    cases hTbl
  | some p =>
    rw [entry_of_table hTbl]
    by_cases hHere : k = k₀ ∧ s = s₀ ∧ i = i₀
    · obtain ⟨rfl, rfl, rfl⟩ := hHere
      rw [hp] at hTbl
      cases hTbl
      simp
    rw [if_neg hHere]
    apply update_of_ne
    intro hSlot
    obtain ⟨rfl, rfl⟩ := F.slot_inj p p₀ i i₀ (h.sound k s p hs hTbl)
      (h.sound k₀ s₀ p₀ hDepth hp) hSlot
    obtain ⟨rfl, rfl⟩ := h.apart k s k₀ s₀ p hs hDepth hTbl hp
    exact hHere ⟨rfl, rfl, rfl⟩

/-- A write to a table of the last level moves no table. -/
theorem Separate.table_update_last (h : Separate F depth mem roots) (hDepth : s₀.length = depth)
    (hp : table F mem roots k₀ s₀ = some p₀) (k : κ) (s : List I) (hs : s.length ≤ depth) :
    table F (update mem (F.slot p₀ i₀) v) roots k s = table F mem roots k s := by
  induction s with
  | nil => rfl
  | cons i s ih =>
    have hs' : s.length ≤ depth := Nat.le_of_succ_le hs
    rw [table_cons, table_cons, h.entry_update hDepth.le hp hs' (ih hs'), if_neg]
    rintro ⟨-, rfl, -⟩
    rw [List.length_cons] at hs
    omega

theorem Separate.entry_update_last (h : Separate F depth mem roots) (hDepth : s₀.length = depth)
    (hp : table F mem roots k₀ s₀ = some p₀) (k : κ) (s : List I) (hs : s.length ≤ depth) (i : I) :
    entry F (update mem (F.slot p₀ i₀) v) roots k s i =
      if k = k₀ ∧ s = s₀ ∧ i = i₀ then v else entry F mem roots k s i :=
  h.entry_update hDepth.le hp hs (h.table_update_last hDepth hp k s hs) i

theorem Separate.update_last (h : Separate F depth mem roots) (hDepth : s₀.length = depth)
    (hp : table F mem roots k₀ s₀ = some p₀) :
    Separate F depth (update mem (F.slot p₀ i₀) v) roots := by
  refine ⟨?_, ?_, ?_⟩
  · intro k s p hs hTbl
    rw [h.table_update_last hDepth hp k s hs] at hTbl
    exact h.sound k s p hs hTbl
  · intro k s k' s' p hs hs' hTbl hTbl'
    rw [h.table_update_last hDepth hp k s hs] at hTbl
    rw [h.table_update_last hDepth hp k' s' hs'] at hTbl'
    exact h.apart k s k' s' p hs hs' hTbl hTbl'
  intro k s i hs
  rw [h.entry_update_last hDepth hp k s hs.le, if_neg]
  · exact h.formed k s i hs
  · rintro ⟨-, rfl, -⟩
    omega

variable {q : P}

/-- A page ready to become the table at `i₀ :: s₀`. -/
structure Linkable (F : Format P I A V) (depth : Nat) (mem : A → V) (roots : κ → Option P) (k₀ : κ)
    (s₀ : List I) (i₀ : I) (p₀ q : P) : Prop where
  inside : s₀.length < depth
  above : table F mem roots k₀ s₀ = some p₀
  vacant : table F mem roots k₀ (i₀ :: s₀) = none
  ok : F.ok q
  unused : Unused F depth mem roots q
  blank : ∀ i, mem (F.slot q i) = F.blank

/-- One entry changes, whether or not its table is the new one. -/
theorem Linkable.entry_link (hLink : Linkable F depth mem roots k₀ s₀ i₀ p₀ q)
    (h : Separate F depth mem roots) {k : κ} {s : List I} (hs : s.length ≤ depth)
    (hTbl : table F (update mem (F.slot p₀ i₀) (F.encode q)) roots k s =
      if k = k₀ ∧ s = i₀ :: s₀ then some q else table F mem roots k s) (i : I) :
    entry F (update mem (F.slot p₀ i₀) (F.encode q)) roots k s i =
      if k = k₀ ∧ s = s₀ ∧ i = i₀ then F.encode q else entry F mem roots k s i := by
  by_cases hNew : k = k₀ ∧ s = i₀ :: s₀
  · obtain ⟨rfl, rfl⟩ := hNew
    rw [if_pos ⟨rfl, rfl⟩] at hTbl
    rw [entry_of_table hTbl, entry_of_none hLink.vacant, if_neg]
    · rw [update_of_ne, hLink.blank]
      intro hSlot
      obtain ⟨rfl, -⟩ := F.slot_inj q p₀ i i₀ hLink.ok
        (h.sound k s₀ p₀ hLink.inside.le hLink.above) hSlot
      exact hLink.unused k s₀ hLink.inside.le hLink.above
    · rintro ⟨-, hLoop, -⟩
      exact List.cons_ne_self i₀ s₀ hLoop
  · rw [if_neg hNew] at hTbl
    exact h.entry_update hLink.inside.le hLink.above hs hTbl i

theorem Linkable.table_link (hLink : Linkable F depth mem roots k₀ s₀ i₀ p₀ q)
    (h : Separate F depth mem roots) (k : κ) (s : List I) (hs : s.length ≤ depth) :
    table F (update mem (F.slot p₀ i₀) (F.encode q)) roots k s =
      if k = k₀ ∧ s = i₀ :: s₀ then some q else table F mem roots k s := by
  induction s with
  | nil =>
    rw [if_neg]
    · rfl
    · rintro ⟨-, hNil⟩
      cases hNil
  | cons i s ih =>
    have hs' : s.length ≤ depth := Nat.le_of_succ_le hs
    rw [table_cons, table_cons, hLink.entry_link h hs' (ih hs') i]
    by_cases hHere : k = k₀ ∧ s = s₀ ∧ i = i₀
    · obtain ⟨rfl, rfl, rfl⟩ := hHere
      rw [if_pos ⟨rfl, rfl, rfl⟩, if_pos ⟨rfl, rfl⟩, F.decode_encode q hLink.ok]
    rw [if_neg hHere, if_neg]
    rintro ⟨rfl, hPath⟩
    cases hPath
    exact hHere ⟨rfl, rfl, rfl⟩

theorem Linkable.separate (hLink : Linkable F depth mem roots k₀ s₀ i₀ p₀ q)
    (h : Separate F depth mem roots) :
    Separate F depth (update mem (F.slot p₀ i₀) (F.encode q)) roots := by
  refine ⟨?_, ?_, ?_⟩
  · intro k s p hs hTbl
    rw [hLink.table_link h k s hs] at hTbl
    split at hTbl
    · cases hTbl
      exact hLink.ok
    · exact h.sound k s p hs hTbl
  · intro k s k' s' p hs hs' hTbl hTbl'
    rw [hLink.table_link h k s hs] at hTbl
    rw [hLink.table_link h k' s' hs'] at hTbl'
    split at hTbl
    · rename_i hNew
      cases hTbl
      split at hTbl'
      · rename_i hNew'
        exact ⟨hNew.1.trans hNew'.1.symm, hNew.2.trans hNew'.2.symm⟩
      · exact absurd hTbl' (hLink.unused k' s' hs')
    · split at hTbl'
      · cases hTbl'
        exact absurd hTbl (hLink.unused k s hs)
      · exact h.apart k s k' s' p hs hs' hTbl hTbl'
  · intro k s i hs
    rw [hLink.entry_link h hs.le (hLink.table_link h k s hs.le) i]
    split
    · exact .inr ⟨q, hLink.ok, rfl⟩
    · exact h.formed k s i hs

end Write

section Root

variable [DecidableEq κ] {k₀ : κ} {q : P}

theorem table_root (hNone : roots k₀ = none) (hBlank : ∀ i, mem (F.slot q i) = F.blank) (k : κ)
    (s : List I) :
    table F mem (update roots k₀ (some q)) k s =
      if k = k₀ ∧ s = [] then some q else table F mem roots k s := by
  have hVacant : ∀ s : List I, table F mem roots k₀ s = none := by
    intro s
    induction s with
    | nil => exact hNone
    | cons i s ih => rw [table, ih, Option.bind_none]
  induction s with
  | nil =>
    rcases eq_or_ne k k₀ with rfl | hk
    · simp [table]
    · simp [table, hk]
  | cons i s ih =>
    have hCons : ¬ (k = k₀ ∧ i :: s = []) := by simp
    rw [if_neg hCons, table, ih]
    split
    · rename_i hRoot
      obtain ⟨rfl, rfl⟩ := hRoot
      rw [Option.bind_some, hBlank, F.decode_blank, hVacant]
    · rfl

theorem entry_root (hNone : roots k₀ = none) (hBlank : ∀ i, mem (F.slot q i) = F.blank) (k : κ)
    (s : List I) (i : I) :
    entry F mem (update roots k₀ (some q)) k s i = entry F mem roots k s i := by
  rw [entry, table_root hNone hBlank]
  split
  · rename_i hTbl
    split at hTbl
    · cases hTbl
    · rw [entry_of_none hTbl]
  rename_i hTbl
  split at hTbl
  · rename_i hRoot
    obtain ⟨rfl, rfl⟩ := hRoot
    cases hTbl
    rw [hBlank, entry_of_none (s := []) hNone]
  · rw [entry_of_table hTbl]

theorem Separate.root (h : Separate F depth mem roots) (hNone : roots k₀ = none) (hOk : F.ok q)
    (hUnused : Unused F depth mem roots q) (hBlank : ∀ i, mem (F.slot q i) = F.blank) :
    Separate F depth mem (update roots k₀ (some q)) := by
  refine ⟨?_, ?_, ?_⟩
  · intro k s p hs hTbl
    rw [table_root hNone hBlank] at hTbl
    split at hTbl
    · cases hTbl
      exact hOk
    · exact h.sound k s p hs hTbl
  · intro k s k' s' p hs hs' hTbl hTbl'
    rw [table_root hNone hBlank] at hTbl hTbl'
    split at hTbl
    · rename_i hNew
      cases hTbl
      split at hTbl'
      · rename_i hNew'
        exact ⟨hNew.1.trans hNew'.1.symm, hNew.2.trans hNew'.2.symm⟩
      · exact absurd hTbl' (hUnused k' s' hs')
    · split at hTbl'
      · cases hTbl'
        exact absurd hTbl (hUnused k s hs)
      · exact h.apart k s k' s' p hs hs' hTbl hTbl'
  · intro k s i hs
    rw [entry_root hNone hBlank]
    exact h.formed k s i hs

theorem table_drop (k : κ) (s : List I) :
    table F mem (update roots k₀ none) k s =
      if k = k₀ then none else table F mem roots k s := by
  induction s with
  | nil =>
    rcases eq_or_ne k k₀ with rfl | hk
    · simp [table]
    · simp [table, hk]
  | cons i s ih =>
    rw [table, ih]
    split
    all_goals rfl

theorem entry_drop (k : κ) (s : List I) (i : I) :
    entry F mem (update roots k₀ none) k s i =
      if k = k₀ then F.blank else entry F mem roots k s i := by
  rw [entry, table_drop]
  split
  · rename_i hTbl
    split
    · rfl
    · rename_i hk
      rw [if_neg hk] at hTbl
      rw [entry_of_none hTbl]
  · rename_i hTbl
    split at hTbl
    · cases hTbl
    · rename_i hk
      rw [if_neg hk, entry_of_table hTbl]

theorem Separate.drop (h : Separate F depth mem roots) :
    Separate F depth mem (update roots k₀ none) := by
  refine ⟨?_, ?_, ?_⟩
  · intro k s p hs hTbl
    rw [table_drop] at hTbl
    split at hTbl
    · cases hTbl
    · exact h.sound k s p hs hTbl
  · intro k s k' s' p hs hs' hTbl hTbl'
    rw [table_drop] at hTbl hTbl'
    split at hTbl
    · cases hTbl
    split at hTbl'
    · cases hTbl'
    · exact h.apart k s k' s' p hs hs' hTbl hTbl'
  · intro k s i hs
    rw [entry_drop]
    split
    · exact .inl rfl
    · exact h.formed k s i hs

end Root

end RadixTable
