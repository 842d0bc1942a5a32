import Mathlib.Algebra.Group.Nat.Defs
import Mathlib.Data.Nat.Log

/-! Hash trees over lists, split at the largest power of two below the size. The
hash is any function of the encoded leaves and nodes. A path that leads to the
root from something that is not the entry at its place shows two inputs of the
hash that collide. -/

/-- A hash and the two kinds of input it is given. -/
structure TreeHash (ε β δ : Type*) where
  hash : β → δ
  leaf : ε → β
  node : δ → δ → β
  leaf_injective : Function.Injective leaf
  node_injective : ∀ {a b a' b'}, node a b = node a' b' → a = a' ∧ b = b'
  leaf_ne_node : ∀ {e a b}, leaf e ≠ node a b

namespace TreeHash

open List

variable {ε β δ : Type*} {n i : ℕ} {entries : List ε}

/-- The largest power of two below `n`. -/
def split (n : ℕ) : ℕ := 2 ^ Nat.log 2 (n - 1)

theorem split_lt (h : 1 < n) : split n < n := by
  have hLe := Nat.pow_log_le_self 2 (show n - 1 ≠ 0 by omega)
  unfold split
  omega

theorem split_pos (n : ℕ) : 0 < split n := Nat.pow_pos (by decide)

theorem le_two_mul_split (n : ℕ) : n ≤ 2 * split n := by
  have hLt := Nat.lt_pow_succ_log_self (b := 2) (by decide) (n - 1)
  rw [Nat.pow_succ] at hLt
  unfold split
  omega

/-- The power of two that `n` is above and not twice above. -/
theorem eq_split {k : ℕ} (hBelow : 2 ^ k < n) (hAbove : n ≤ 2 ^ (k + 1)) : 2 ^ k = split n := by
  rw [split, Nat.log_eq_of_pow_le_of_lt_pow] <;> omega

/-- The size of the subtree on one side of the split, and what becomes of an index there. -/
def share (left : Bool) (n : ℕ) : ℕ := if left then split n else n - split n

def place (left : Bool) (i n : ℕ) : ℕ := if left then i else i - split n

def half (left : Bool) (entries : List ε) : List ε :=
  if left then entries.take (split entries.length) else entries.drop (split entries.length)

theorem share_lt (h : 1 < n) (left : Bool) : share left n < n := by
  have hLt := split_lt h
  have hPos := split_pos n
  unfold share
  split <;> omega

theorem length_half (h : 1 < entries.length) (left : Bool) :
    (half left entries).length = share left entries.length := by
  have hLt := split_lt h
  cases left <;> simp [half, share]
  omega

theorem half_ne_nil (h : 1 < entries.length) (left : Bool) : half left entries ≠ [] := by
  have hLt := split_lt h
  have hPos := split_pos entries.length
  apply ne_nil_of_length_pos
  cases left <;> simp [half] <;> omega

theorem getElem?_half (entries : List ε) (i : ℕ) :
    (half (i < split entries.length) entries)[place (i < split entries.length) i entries.length]? =
      entries[i]? := by
  by_cases hLeft : i < split entries.length
  · simp [half, place, hLeft, List.getElem?_take_of_lt]
  · simp [half, place, hLeft, List.getElem?_drop, Nat.add_sub_cancel' (Nat.not_lt.mp hLeft)]

/-- On which side of each split the entry at `i` lies, from the root down. -/
def sides (i n : ℕ) : List Bool :=
  if h : n ≤ 1 then []
  else
    have := share_lt (Nat.not_le.mp h)
    (i < split n) :: sides (place (i < split n) i n) (share (i < split n) n)
termination_by n
decreasing_by exact this _

theorem sides_split (h : 1 < n) :
    sides i n = (i < split n : Bool) :: sides (place (i < split n) i n)
      (share (i < split n) n) := by
  rw [sides, dif_neg (by omega)]

theorem sides_of_le (h : n ≤ 1) : sides i n = [] := by rw [sides, dif_pos h]

variable (t : TreeHash ε β δ)

/-- The input of a node whose digest on the flagged side is `below`. -/
def join (step : Bool × δ) (below : δ) : β :=
  if step.1 then t.node below step.2 else t.node step.2 below

/-- What the last hash on the way up from `bottom` is of. `steps` are from the root down. -/
def climb (bottom : β) : List (Bool × δ) → β
  | [] => bottom
  | step :: rest => t.join step (t.hash (climb bottom rest))

variable [Inhabited ε]

/-- What the root of a tree is the hash of. -/
def input (entries : List ε) : β :=
  if h : entries.length ≤ 1 then t.leaf (entries.headD default)
  else
    have := fun left => length_half (Nat.not_le.mp h) left ▸ share_lt (Nat.not_le.mp h) left
    t.node (t.hash (input (half true entries))) (t.hash (input (half false entries)))
termination_by entries.length
decreasing_by all_goals exact this _

def root (entries : List ε) : δ := t.hash (t.input entries)

/-- The roots of the trees the entry at `i` is joined with, from the leaf up. -/
def auditPath (entries : List ε) (i : ℕ) : List δ :=
  if h : entries.length ≤ 1 then []
  else
    have := fun left => length_half (Nat.not_le.mp h) left ▸ share_lt (Nat.not_le.mp h) left
    auditPath (half (i < split entries.length) entries)
      (place (i < split entries.length) i entries.length) ++
        [t.root (half (!(i < split entries.length : Bool)) entries)]
termination_by entries.length
decreasing_by exact this _

variable {t}

theorem input_split (h : 1 < entries.length) (left : Bool) :
    t.input entries =
      t.join (left, t.root (half (!left) entries)) (t.root (half left entries)) := by
  rw [input, dif_neg (by omega)]
  cases left <;> rfl

/-- The path of an entry has a step for each side and leads to the root. -/
theorem climb_auditPath {e : ε} (h : entries[i]? = some e) :
    (t.auditPath entries i).length = (sides i entries.length).length ∧
      t.climb (t.leaf e) ((sides i entries.length).zip (t.auditPath entries i).reverse) =
        t.input entries := by
  induction hn : entries.length using Nat.strong_induction_on generalizing entries i with
  | _ n ih =>
  subst hn
  rcases Nat.lt_or_ge 1 entries.length with hMany | hOne
  · obtain ⟨hSteps, hClimb⟩ := ih _ (share_lt hMany (i < split entries.length))
      ((getElem?_half entries i).trans h) (length_half hMany _)
    rw [auditPath, dif_neg (by omega), sides_split hMany,
      input_split hMany (i < split entries.length)]
    exact ⟨by simp [hSteps], by simp [climb, hClimb, root]⟩
  obtain ⟨hi, rfl⟩ := List.getElem?_eq_some_iff.mp h
  obtain ⟨f, rfl⟩ := length_eq_one_iff.mp (by omega : entries.length = 1)
  have hIdx : i = 0 := by simpa using hi
  subst hIdx
  simp [sides, auditPath, climb, input]

/-- A tree is no larger than the path of its first entry allows. -/
theorem length_le_two_pow : entries.length ≤ 2 ^ (t.auditPath entries 0).length := by
  induction hn : entries.length using Nat.strong_induction_on generalizing entries with
  | _ n ih =>
  subst hn
  rcases Nat.lt_or_ge 1 entries.length with hMany | hOne
  · have hTwice := le_two_mul_split entries.length
    have hLeft := ih _ (share_lt hMany true) (length_half hMany true)
    rw [auditPath, dif_neg (by omega), length_append, length_singleton, Nat.pow_succ]
    simp only [share, place, split_pos, decide_true, if_true] at hLeft ⊢
    omega
  · exact hOne.trans Nat.one_le_two_pow

/-- The inputs hashed on the way up from `d`, each with the input of the real
tree at its place, from the root down. -/
def levels (t : TreeHash ε β δ) (d : ε) : List ε → List (Bool × δ) → List (β × β)
  | entries, [] => [(t.leaf d, t.input entries)]
  | entries, step :: rest =>
    (t.climb (t.leaf d) (step :: rest), t.input entries) :: levels t d (half step.1 entries) rest

/-- Steps that lead from `d` to the root of a tree show a collision at one of
their levels, or `d` is an entry, the one at every index whose sides they take. -/
theorem entry_or_collision {d : ε} {steps : List (Bool × δ)} (hSome : entries ≠ [])
    (h : t.hash (t.climb (t.leaf d) steps) = t.root entries) :
    (d ∈ entries ∧
      ∀ i < entries.length, steps.map Prod.fst = sides i entries.length → entries[i]? = some d) ∨
    ∃ pair ∈ t.levels d entries steps, pair.1 ≠ pair.2 ∧ t.hash pair.1 = t.hash pair.2 := by
  induction steps generalizing entries with
  | nil =>
    by_cases hSame : t.leaf d = t.input entries
    · left
      rcases Nat.lt_or_ge 1 entries.length with hMany | hOne
      · rw [input_split hMany true] at hSame
        exact absurd hSame t.leaf_ne_node
      have hLen := length_pos_iff.mpr hSome
      obtain ⟨e, rfl⟩ := length_eq_one_iff.mp (by omega : entries.length = 1)
      rw [input, dif_pos hOne] at hSame
      cases t.leaf_injective hSame
      refine ⟨mem_singleton_self _, fun i hi _ => ?_⟩
      have hIdx : i = 0 := by simpa using hi
      rw [hIdx]
      rfl
    · exact .inr ⟨_, mem_singleton_self _, hSame, h⟩
  | cons step rest ih =>
    by_cases hSame : t.climb (t.leaf d) (step :: rest) = t.input entries
    · rcases Nat.lt_or_ge 1 entries.length with hMany | hOne
      · have hBelow : t.hash (t.climb (t.leaf d) rest) = t.root (half step.1 entries) := by
          rw [input_split hMany step.1] at hSame
          obtain ⟨left | left, beside⟩ := step
          · exact (t.node_injective hSame).2
          · exact (t.node_injective hSame).1
        rcases ih (half_ne_nil hMany _) hBelow with ⟨hMem, hIdx⟩ | ⟨pair, hPair, hCollides⟩
        · refine .inl ⟨?_, fun i hi hSides => ?_⟩
          · unfold half at hMem
            split_ifs at hMem
            · exact mem_of_mem_take hMem
            · exact mem_of_mem_drop hMem
          · rw [map_cons, sides_split hMany] at hSides
            obtain ⟨hLeft, hRest⟩ := List.cons.inj hSides
            rw [hLeft, length_half hMany] at hIdx
            rw [← getElem?_half]
            refine hIdx _ ?_ hRest
            have hLt := (List.getElem?_eq_some_iff.mp
              ((getElem?_half entries i).trans (List.getElem?_eq_getElem hi))).1
            rwa [length_half hMany] at hLt
        · exact .inr ⟨pair, mem_cons_of_mem _ hPair, hCollides⟩
      · rw [input, dif_pos hOne, climb, join] at hSame
        split_ifs at hSame <;> exact absurd hSame.symm t.leaf_ne_node
    · exact .inr ⟨_, mem_cons_self, hSame, h⟩

end TreeHash
