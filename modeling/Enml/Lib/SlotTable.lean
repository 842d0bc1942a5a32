import Mathlib.Data.List.Induction
import Mathlib.Data.List.Nodup
import Mathlib.Data.List.Perm.Basic

/-! Fixed arrays of slots searched from the front. A slot is free when it has
no key, and a table is a list whose length never changes. Nothing here assumes
that keys are distinct unless the statement says so. -/
namespace SlotTable

open List

variable {σ κ : Type*} {p q : σ → Bool} {f g : σ → σ} {x : σ}

/-- Rewrite the first slot satisfying `p` and leave every later match alone. -/
def updateFirst (p : σ → Bool) (f : σ → σ) : List σ → List σ
  | [] => []
  | s :: rest => if p s then f s :: rest else s :: updateFirst p f rest

@[simp] theorem length_updateFirst (p : σ → Bool) (f : σ → σ) (slots : List σ) :
    (updateFirst p f slots).length = slots.length := by
  induction slots with
  | nil => rfl
  | cons s _ ih => by_cases h : p s <;> simp [updateFirst, h, ih]

/-- Names stay apart when an entry with a name of its own is taken in. -/
theorem nodup_map_of_perm {name : σ → κ} {slots slots' : List σ} (hPerm : slots'.Perm (x :: slots))
    (h : (slots.map name).Nodup) (hNew : ∀ s ∈ slots, name s ≠ name x) :
    (slots'.map name).Nodup := by
  rw [(hPerm.map name).nodup_iff, map_cons, nodup_cons]
  refine ⟨?_, h⟩
  intro hMem
  obtain ⟨s, hs, hSame⟩ := mem_map.mp hMem
  exact hNew s hs hSame

/-- What every step settles for its own slot and keeps for those before it holds
of a whole fold. -/
theorem foldl_covers {β : Type*} {step : β → σ → β} (C : β → σ → Prop)
    (hNew : ∀ b s, C (step b s) s) (hKeep : ∀ b s t, C b t → C (step b s) t) (b : β)
    (slots : List σ) : ∀ s ∈ slots, C (slots.foldl step b) s := by
  induction slots using reverseRecOn with
  | nil => simp
  | append_singleton slots last ih =>
    intro s hs
    rw [foldl_append]
    rcases mem_append.mp hs with hOld | hLast
    · exact hKeep _ _ _ (ih s hOld)
    · rw [mem_singleton.mp hLast]
      exact hNew _ _

variable {slots : List σ} {s : σ}

/-- The first match splits the array; only the cell at the split changes. -/
theorem updateFirst_of_find (h : slots.find? p = some s) (f : σ → σ) :
    ∃ front back, slots = front ++ s :: back ∧ (∀ x ∈ front, p x = false) ∧ p s = true ∧
      updateFirst p f slots = front ++ f s :: back := by
  induction slots with
  | nil => simp at h
  | cons x rest ih =>
    by_cases hx : p x
    · simp only [find?_cons_of_pos hx, Option.some.injEq] at h
      subst h
      exact ⟨[], rest, rfl, by simp, hx, by simp [updateFirst, hx]⟩
    rw [find?_cons_of_neg hx] at h
    obtain ⟨front, back, hs, hf, hp, hu⟩ := ih h
    refine ⟨x :: front, back, by simp [hs], ?_, hp, by simp [updateFirst, hx, hu]⟩
    intro y hy
    rcases mem_cons.mp hy with rfl | hy
    · simpa using hx
    · exact hf y hy

theorem updateFirst_of_find_none (h : slots.find? p = none) (f : σ → σ) :
    updateFirst p f slots = slots := by
  induction slots with
  | nil => rfl
  | cons x _ ih =>
    by_cases hx : p x
    · simp [hx] at h
    · rw [find?_cons_of_neg hx] at h
      simp [updateFirst, hx, ih h]

/-- Two rewrites of the same slot are one. -/
theorem updateFirst_updateFirst (hf : ∀ s, p s = true → p (f s) = true) (slots : List σ) :
    updateFirst p g (updateFirst p f slots) = updateFirst p (fun s => g (f s)) slots := by
  induction slots with
  | nil => rfl
  | cons s _ ih =>
    cases hs : p s with
    | true => simp [updateFirst, hs, hf s hs]
    | false => simp [updateFirst, hs, ih]

theorem updateFirst_congr (h : ∀ s ∈ slots, p s = q s) (f : σ → σ) :
    updateFirst p f slots = updateFirst q f slots := by
  induction slots with
  | nil => rfl
  | cons x _ ih =>
    rw [updateFirst, updateFirst, h x mem_cons_self, ih fun s hs => h s (mem_cons_of_mem _ hs)]

theorem updateFirst_eq_set (h : slots.find? p = some s) (f : σ → σ) :
    updateFirst p f slots = slots.set (slots.findIdx p) (f s) := by
  induction slots with
  | nil => simp at h
  | cons x _ ih =>
    by_cases hx : p x
    · rw [find?_cons_of_pos hx, Option.some.injEq] at h
      subst h
      simp [updateFirst, findIdx_cons, hx]
    · rw [find?_cons_of_neg hx] at h
      simp [updateFirst, findIdx_cons, hx, ih h]

/-- Every cell of the result is an old cell or the rewritten first match. -/
theorem mem_updateFirst (h : x ∈ updateFirst p f slots) :
    x ∈ slots ∨ ∃ s, slots.find? p = some s ∧ x = f s := by
  cases hFind : slots.find? p with
  | none => exact .inl (by rwa [updateFirst_of_find_none hFind] at h)
  | some s =>
    obtain ⟨front, back, hs, _, _, hu⟩ := updateFirst_of_find hFind f
    rw [hu] at h
    rw [hs]
    simp only [mem_append, mem_cons] at h ⊢
    rcases h with h | rfl | h
    · exact .inl (.inl h)
    · exact .inr ⟨s, rfl, rfl⟩
    · exact .inl (.inr (.inr h))

/-- A search that the rewrite can neither gain nor lose is unaffected by it. -/
theorem find?_updateFirst_of_ne (h : ∀ s, p s = true → q s = false ∧ q (f s) = false) :
    (updateFirst p f slots).find? q = slots.find? q := by
  induction slots with
  | nil => rfl
  | cons x _ ih =>
    by_cases hx : p x
    · simp [updateFirst, hx, (h x hx).1, (h x hx).2]
    · by_cases hq : q x <;> simp [updateFirst, hx, hq, ih]

/-- Searching again with the same test finds the rewritten cell. -/
theorem find?_updateFirst_self (h : ∀ s, p s = true → p (f s) = true) :
    (updateFirst p f slots).find? p = (slots.find? p).map f := by
  induction slots with
  | nil => rfl
  | cons x _ ih =>
    by_cases hx : p x
    · simp [updateFirst, hx, h x hx]
    · simp [updateFirst, hx, ih]

/-- A fold that cannot tell the rewritten cell from the old one is unchanged. -/
theorem foldl_updateFirst {β : Type*} {g : β → σ → β}
    (h : ∀ s, slots.find? p = some s → ∀ b, g b (f s) = g b s) (b : β) :
    (updateFirst p f slots).foldl g b = slots.foldl g b := by
  induction slots generalizing b with
  | nil => rfl
  | cons x rest ih =>
    by_cases hx : p x
    · have hSame := h x (by simp [hx]) b
      simp [updateFirst, hx, hSame]
    have hRest : ∀ s, rest.find? p = some s → ∀ b, g b (f s) = g b s := by
      intro s hs
      exact h s (by simpa [find?_cons_of_neg hx] using hs)
    simp [updateFirst, hx, ih hRest]

section Keyed

variable [DecidableEq κ] (key : σ → Option κ)

/-- The first slot carrying key `k`. -/
def lookup (k : κ) (slots : List σ) : Option σ := slots.find? fun s => decide (key s = some k)

/-- Rewrite the slot that `lookup` finds. -/
def modify (k : κ) (f : σ → σ) (slots : List σ) : List σ :=
  updateFirst (fun s => decide (key s = some k)) f slots

/-- Store `v` in the first free slot, or fail when every slot is taken. -/
def insert (v : σ) (slots : List σ) : Option (List σ) :=
  if slots.any (fun s => (key s).isNone) then
    some (updateFirst (fun s => (key s).isNone) (fun _ => v) slots)
  else none

/-- The keys in use, in array order. -/
def keys (slots : List σ) : List κ := slots.filterMap key

variable {key}

@[simp] theorem length_modify (k : κ) (f : σ → σ) (slots : List σ) :
    (modify key k f slots).length = slots.length := length_updateFirst _ _ _

variable {k k' : κ} {slots' : List σ} {v : σ}

theorem mem_of_lookup (h : lookup key k slots = some s) : s ∈ slots ∧ key s = some k := by
  have hMem := mem_of_find?_eq_some h
  have hKey := find?_some h
  exact ⟨hMem, by simpa using hKey⟩

theorem lookup_eq_none_iff : lookup key k slots = none ↔ k ∉ keys key slots := by
  simp [lookup, keys, find?_eq_none]

theorem lookup_isSome_iff : (lookup key k slots).isSome ↔ k ∈ keys key slots := by
  rw [← not_iff_not, Bool.not_eq_true, Option.isSome_eq_false_iff, Option.isNone_iff_eq_none]
  exact lookup_eq_none_iff

omit [DecidableEq κ] in
theorem mem_keys_iff : k ∈ keys key slots ↔ ∃ s ∈ slots, key s = some k := by simp [keys]

theorem lookup_modify_self (h : ∀ s, key s = some k → key (f s) = some k) :
    lookup key k (modify key k f slots) = (lookup key k slots).map f :=
  find?_updateFirst_self (by simpa using h)

theorem lookup_modify_ne (hne : k' ≠ k) (h : ∀ s, key s = some k → key (f s) ≠ some k') :
    lookup key k' (modify key k f slots) = lookup key k' slots := by
  apply find?_updateFirst_of_ne
  intro s hs
  have hs : key s = some k := by simpa using hs
  refine ⟨?_, by simpa using h s hs⟩
  simp [hs, Ne.symm hne]

theorem keys_modify (h : ∀ s, key s = some k → key (f s) = some k) :
    keys key (modify key k f slots) = keys key slots := by
  induction slots with
  | nil => rfl
  | cons x _ ih =>
    by_cases hx : key x = some k
    · simp [modify, updateFirst, keys, hx, h x hx]
    · simp only [modify, keys] at ih
      simp [modify, updateFirst, keys, hx, filterMap_cons, ih]

/-- Emptying the found slot removes exactly the first occurrence of its key. -/
theorem keys_modify_free (h : ∀ s, key s = some k → key (f s) = none) :
    keys key (modify key k f slots) = (keys key slots).erase k := by
  induction slots with
  | nil => rfl
  | cons x _ ih =>
    simp only [modify, keys] at ih
    cases hx : key x with
    | none => simp [modify, updateFirst, keys, hx, ih]
    | some j =>
      by_cases hj : j = k
      · subst hj
        simp [modify, updateFirst, keys, hx, h x hx]
      · simp [modify, updateFirst, keys, hx, hj, ih]

theorem lookup_modify_free (hDist : (keys key slots).Nodup)
    (h : ∀ s, key s = some k → key (f s) = none) : lookup key k (modify key k f slots) = none := by
  rw [lookup_eq_none_iff, keys_modify_free h]
  exact hDist.not_mem_erase

omit [DecidableEq κ] in
theorem insert_eq_none_iff : insert key v slots = none ↔ ∀ s ∈ slots, key s ≠ none := by
  simp [insert]

omit [DecidableEq κ] in
theorem insert_eq_some (h : insert key v slots = some slots') :
    ∃ front free back, slots = front ++ free :: back ∧ (∀ s ∈ front, key s ≠ none) ∧
      key free = none ∧ slots' = front ++ v :: back := by
  unfold insert at h
  split_ifs at h with hAny
  obtain ⟨free, hFind⟩ : ∃ free, slots.find? (fun s => (key s).isNone) = some free := by
    rw [← Option.isSome_iff_exists, find?_isSome]
    simpa using hAny
  obtain ⟨front, back, hs, hf, hp, hu⟩ := updateFirst_of_find hFind (fun _ => v)
  refine ⟨front, free, back, hs, ?_, by simpa using hp, ?_⟩
  · intro s hs
    have := hf s hs
    intro hNone
    simp [hNone] at this
  · rw [← hu]
    exact (Option.some.inj h).symm

omit [DecidableEq κ] in
theorem length_insert (h : insert key v slots = some slots') : slots'.length = slots.length := by
  obtain ⟨front, free, back, hs, _, _, hs'⟩ := insert_eq_some h
  simp [hs, hs']

omit [DecidableEq κ] in
/-- Occupied cells survive an insertion and the stored cell is the only new one. -/
theorem mem_insert (h : insert key v slots = some slots') (hx : key x ≠ none) :
    x ∈ slots' ↔ x ∈ slots ∨ x = v := by
  obtain ⟨front, free, back, hs, _, hFree, hs'⟩ := insert_eq_some h
  subst hs hs'
  have hne : x ≠ free := by
    rintro rfl
    exact hx hFree
  simp only [mem_append, mem_cons, hne, false_or]
  tauto

omit [DecidableEq κ] in
theorem keys_insert (hv : key v = some k) (h : insert key v slots = some slots') :
    (keys key slots').Perm (k :: keys key slots) := by
  obtain ⟨front, free, back, hs, _, hFree, hs'⟩ := insert_eq_some h
  subst hs hs'
  simp only [keys, filterMap_append, filterMap_cons, hFree, hv]
  exact perm_middle

/-- Emptying what was just inserted gives the table back, when all its free
slots are alike. -/
theorem modify_insert {free : σ} (hv : key v = some k) (hAbsent : lookup key k slots = none)
    (hFree : ∀ s ∈ slots, key s = none → s = free) (h : insert key v slots = some slots') :
    modify key k (fun _ => free) slots' = slots := by
  obtain ⟨front, vacant, back, rfl, -, hVacant, rfl⟩ := insert_eq_some h
  have hFront : ∀ s ∈ front, ¬ key s = some k := by
    intro s hs hKey
    rw [lookup_eq_none_iff] at hAbsent
    exact hAbsent (mem_keys_iff.mpr ⟨s, mem_append_left _ hs, hKey⟩)
  have hSame : free = vacant := (hFree vacant (by simp) hVacant).symm
  subst hSame
  have hUndo : ∀ front : List σ, (∀ s ∈ front, ¬ key s = some k) →
      modify key k (fun _ => free) (front ++ v :: back) = front ++ free :: back := by
    intro front
    induction front with
    | nil =>
      intro _
      simp [modify, updateFirst, hv]
    | cons s _ ih =>
      intro hNone
      have hRest := ih fun x hx => hNone x (mem_cons_of_mem s hx)
      simp only [modify] at hRest
      simp [modify, updateFirst, hNone s mem_cons_self, hRest]
  exact hUndo front hFront

theorem lookup_insert_self (hv : key v = some k) (hNone : lookup key k slots = none)
    (h : insert key v slots = some slots') : lookup key k slots' = some v := by
  obtain ⟨front, free, back, hs, _, hFree, hs'⟩ := insert_eq_some h
  subst hs hs'
  simp only [lookup, find?_append, Option.or_eq_none_iff] at hNone ⊢
  simp [hNone.1, hv]

theorem lookup_insert_ne (hv : key v = some k) (hne : k' ≠ k)
    (h : insert key v slots = some slots') : lookup key k' slots' = lookup key k' slots := by
  obtain ⟨front, free, back, hs, _, hFree, hs'⟩ := insert_eq_some h
  subst hs hs'
  simp [lookup, find?_append, hFree, hv, Ne.symm hne]

omit [DecidableEq κ] in
/-- The first cell has a key that no later cell has. -/
theorem keys_tail {rest : List σ} (hDist : (keys key (x :: rest)).Nodup) :
    (keys key rest).Nodup ∧ ∀ k, key x = some k → ∀ s ∈ rest, key s ≠ some k := by
  cases hx : key x with
  | none => exact ⟨by simpa [keys, hx] using hDist, fun k hk => nomatch hk⟩
  | some j =>
    have hKeys : keys key (x :: rest) = j :: keys key rest := by simp [keys, hx]
    rw [hKeys, nodup_cons] at hDist
    obtain ⟨hHead, hTail⟩ := hDist
    refine ⟨hTail, ?_⟩
    rintro k hk s hs hKey
    cases hk
    exact hHead (mem_keys_iff.mpr ⟨s, hs, hKey⟩)

/-- With distinct keys, lookup and membership say the same thing. -/
theorem lookup_eq_some_iff (hDist : (keys key slots).Nodup) :
    lookup key k slots = some s ↔ s ∈ slots ∧ key s = some k := by
  refine ⟨mem_of_lookup, ?_⟩
  rintro ⟨hMem, hKey⟩
  induction slots with
  | nil => simp at hMem
  | cons x _ ih =>
    obtain ⟨hTail, hOthers⟩ := keys_tail hDist
    rcases mem_cons.mp hMem with rfl | hMem
    · simp [lookup, hKey]
    · have hx : key x ≠ some k := fun hx => hOthers k hx s hMem hKey
      simpa [lookup, hx] using ih hTail hMem

/-- With distinct keys there is one cell to store at. -/
theorem set_findIdx_map (hDist : (keys key slots).Nodup) :
    (slots.map g).set (slots.findIdx fun s => decide (key s = some k)) v =
      slots.map fun s => if key s = some k then v else g s := by
  induction slots with
  | nil => rfl
  | cons x rest ih =>
    obtain ⟨hTail, hOthers⟩ := keys_tail hDist
    by_cases hx : key x = some k
    · have hKept : rest.map (fun s => if key s = some k then v else g s) = rest.map g :=
        map_congr_left fun s hs => if_neg (hOthers k hx s hs)
      simp [findIdx_cons, hx, hKept]
    · simp [findIdx_cons, hx, ih hTail]

/-- With distinct keys, rewriting the first match is rewriting every match. -/
theorem modify_eq_map (hDist : (keys key slots).Nodup) :
    modify key k f slots = slots.map fun s => if key s = some k then f s else s := by
  induction slots with
  | nil => rfl
  | cons x rest ih =>
    obtain ⟨hTail, hOthers⟩ := keys_tail hDist
    by_cases hx : key x = some k
    · have hKept : rest.map (fun s => if key s = some k then f s else s) = rest.map id :=
        map_congr_left fun s hs => if_neg (hOthers k hx s hs)
      simp [modify, updateFirst, hx, hKept]
    · have hRest := ih hTail
      simp only [modify] at hRest
      simp [modify, updateFirst, hx, hRest]

/-- A sweep that keeps keys commutes with lookup. -/
theorem lookup_map (h : ∀ s, key (f s) = key s) :
    lookup key k (slots.map f) = (lookup key k slots).map f := by
  have hSame : (fun s => decide (key s = some k)) ∘ f = fun s => decide (key s = some k) := by
    funext s
    rw [Function.comp_apply, h]
  rw [lookup, lookup, find?_map, hSame]

omit [DecidableEq κ] in
theorem keys_map (h : ∀ s, key (f s) = key s) : keys key (slots.map f) = keys key slots := by
  simp [keys, filterMap_map, h]

omit [DecidableEq κ] in
/-- Freeing one slot leaves a sublist of the keys. -/
theorem keys_updateFirst_sublist (h : ∀ s, key (f s) = none) (slots : List σ) :
    (keys key (updateFirst p f slots)).Sublist (keys key slots) := by
  induction slots with
  | nil => exact List.Sublist.refl _
  | cons x _ ih =>
    simp only [keys] at ih ⊢
    by_cases hx : p x
    · simp only [updateFirst, hx, if_true, filterMap_cons, h x]
      cases key x with
      | none => exact List.Sublist.refl _
      | some k => exact sublist_cons_self k _
    simp only [updateFirst, hx, filterMap_cons]
    cases hKey : key x with
    | none => simpa [filterMap_cons, hKey] using ih
    | some => simpa [filterMap_cons, hKey] using ih

omit [DecidableEq κ] in
theorem length_keys_le (slots : List σ) : (keys key slots).length ≤ slots.length :=
  length_filterMap_le key slots

omit [DecidableEq κ] in
/-- There is room exactly while fewer keys are in use than there are slots. -/
theorem insert_isSome_iff :
    (insert key v slots).isSome ↔ (keys key slots).length < slots.length := by
  rw [← not_iff_not, Bool.not_eq_true, Option.isSome_eq_false_iff, Option.isNone_iff_eq_none,
    insert_eq_none_iff, Nat.not_lt]
  induction slots with
  | nil => simp [keys]
  | cons x rest ih =>
    have hLe : (keys key rest).length ≤ rest.length := length_keys_le rest
    simp only [keys] at ih hLe
    cases hx : key x with
    | none =>
      simp only [keys, mem_cons, forall_eq_or_imp, hx, filterMap_cons,
        length_cons, ne_eq, not_true_eq_false, false_and, false_iff, Nat.not_le]
      omega
    | some =>
      simp only [keys, mem_cons, forall_eq_or_imp, hx, filterMap_cons,
        length_cons, Nat.add_le_add_iff_right, ← ih]
      simp

variable (key) in
/-- The occupied cells, in array order. -/
def entries (slots : List σ) : List σ := slots.filter fun s => (key s).isSome

variable {free : σ}

omit [DecidableEq κ] in
theorem mem_entries {s : σ} : s ∈ entries key slots ↔ s ∈ slots ∧ (key s).isSome := mem_filter

omit [DecidableEq κ] in
theorem entries_replicate (hFree : key free = none) (n : Nat) :
    entries key (replicate n free) = [] := by
  simp [entries, hFree]

omit [DecidableEq κ] in
theorem entries_insert {slots' : List σ} (hv : (key v).isSome)
    (h : insert key v slots = some slots') :
    (entries key slots').Perm (v :: entries key slots) := by
  obtain ⟨front, free, back, hs, _, hFree, hs'⟩ := insert_eq_some h
  subst hs hs'
  simp only [entries, filter_append, filter_cons, hFree, hv]
  exact perm_middle

omit [DecidableEq κ] in
/-- A rewrite that keeps what `g` reads keeps it of all the entries. -/
theorem map_entries_updateFirst {α : Type*} {g : σ → α} (hKey : ∀ s, key (f s) = key s)
    (hRead : ∀ s, g (f s) = g s) (slots : List σ) :
    (entries key (updateFirst p f slots)).map g = (entries key slots).map g := by
  induction slots with
  | nil => rfl
  | cons x _ ih =>
    simp only [entries] at ih ⊢
    cases hp : p x with
    | true => cases hx : (key x).isSome <;> simp [updateFirst, hp, hKey, hRead, hx]
    | false => cases hx : (key x).isSome <;> simp [updateFirst, hp, hx, ih]

omit [DecidableEq κ] in
theorem entries_map (h : ∀ s, key (f s) = key s) (slots : List σ) :
    entries key (slots.map f) = (entries key slots).map f := by
  induction slots with
  | nil => rfl
  | cons x _ ih =>
    simp only [entries] at ih ⊢
    cases hx : (key x).isSome <;> simp [h x, hx, ih]

omit [DecidableEq κ] in
/-- Freeing the cells that satisfy `p` keeps the others as they are. -/
theorem entries_map_free (hFree : key free = none) (slots : List σ) :
    entries key (slots.map fun s => if p s then free else s) =
      (entries key slots).filter fun s => !p s := by
  induction slots with
  | nil => rfl
  | cons x _ ih =>
    simp only [entries] at ih ⊢
    cases hp : p x with
    | true => cases hx : (key x).isSome <;> simp [hp, hFree, hx, ih]
    | false => cases hx : (key x).isSome <;> simp [hp, hx, ih]

omit [DecidableEq κ] in
/-- Freeing the first match of `p` removes the first matching entry. -/
theorem entries_updateFirst_free (hFree : key free = none) (hp : ∀ s, p s = true → (key s).isSome)
    (slots : List σ) :
    entries key (updateFirst p (fun _ => free) slots) = (entries key slots).eraseP p := by
  induction slots with
  | nil => rfl
  | cons x _ ih =>
    simp only [entries] at ih ⊢
    cases hx : p x with
    | true => simp [updateFirst, hx, hFree, hp x hx]
    | false => cases hk : (key x).isSome <;> simp [updateFirst, hx, hk, ih]

theorem entries_modify_free (hFree : key free = none) (slots : List σ) :
    entries key (modify key k (fun _ => free) slots) =
      (entries key slots).eraseP fun s => decide (key s = some k) :=
  entries_updateFirst_free hFree (by simp +contextual) slots

omit [DecidableEq κ] in
theorem keys_entries (slots : List σ) : (entries key slots).filterMap key = keys key slots := by
  induction slots with
  | nil => rfl
  | cons x _ ih =>
    simp only [entries, keys] at ih ⊢
    cases hx : key x <;> simp [hx, ih]

omit [DecidableEq κ] in
theorem length_entries (slots : List σ) : (entries key slots).length = (keys key slots).length := by
  induction slots with
  | nil => rfl
  | cons x _ ih =>
    simp only [entries, keys] at ih ⊢
    cases hx : key x <;> simp [hx, ih]

omit [DecidableEq κ] in
theorem insert_isSome_of_entries (h : (entries key slots).length < slots.length) :
    (insert key v slots).isSome := by
  rw [length_entries] at h
  exact insert_isSome_iff.mpr h

theorem lookup_entries (slots : List σ) :
    (entries key slots).find? (fun s => decide (key s = some k)) = lookup key k slots := by
  rw [entries, find?_filter]
  apply congrArg (fun p => find? p slots)
  funext s
  cases key s <;> simp

end Keyed

/-- Erasing the first match takes exactly the element `find?` returns. -/
theorem perm_cons_eraseP {α : Type*} {p : α → Bool} {l : List α} {x : α}
    (h : l.find? p = some x) : l.Perm (x :: l.eraseP p) := by
  obtain ⟨hx, front, back, rfl, hFront⟩ := find?_eq_some_iff_append.mp h
  have hNone : ∀ y ∈ front, ¬ p y = true := by simpa using hFront
  rw [eraseP_append_right _ hNone, eraseP_cons_of_pos hx]
  exact perm_middle

/-- Freeing the first match takes exactly that cell out of the entries. -/
theorem perm_entries_updateFirst {σ κ : Type*} {key : σ → Option κ} {p : σ → Bool} {free x : σ}
    {slots : List σ} (hFree : key free = none) (hp : ∀ s, p s = true → (key s).isSome)
    (h : slots.find? p = some x) :
    (entries key slots).Perm (x :: entries key (updateFirst p (fun _ => free) slots)) := by
  rw [entries_updateFirst_free hFree hp]
  apply perm_cons_eraseP
  rw [entries, find?_filter, ← h]
  apply congrArg (fun q => find? q slots)
  funext s
  cases hs : p s with
  | false => simp
  | true => simp [hp s hs]

/-- Erasing the entry with a key that occurs once leaves the other keys. -/
theorem mem_eraseP_iff_of_nodup {α β : Type*} {f : α → β} {l : List α} {p : α → Bool} {x y : α}
    (hNodup : (l.map f).Nodup) (hx : x ∈ l) (hp : p x = true)
    (hUnique : ∀ z, p z = true → f z = f x) : y ∈ l.eraseP p ↔ y ∈ l ∧ f y ≠ f x := by
  obtain ⟨z, front, back, -, hz, hl, hErase⟩ := exists_of_eraseP hx hp
  have hfz := hUnique z hz
  rw [hErase]
  subst hl
  rw [map_append, map_cons, nodup_middle, nodup_cons, ← map_append, hfz] at hNodup
  constructor
  · intro hy
    refine ⟨?_, ?_⟩
    · simp only [mem_append, mem_cons] at hy ⊢
      tauto
    · intro hEq
      exact hNodup.1 (hEq ▸ mem_map_of_mem hy)
  · rintro ⟨hy, hne⟩
    have hyz : y ≠ z := by
      rintro rfl
      exact hne hfz
    simp only [mem_append, mem_cons] at hy ⊢
    tauto

end SlotTable
