import Mathlib.Data.List.Basic

/-! A buffer read at offsets and filled from the front. -/
namespace Buffer

open List

variable {α : Type*}

/-- The `count` cells from `offset` on. -/
def slice (cells : List α) (offset count : ℕ) : List α := (cells.drop offset).take count

variable {cells first second : List α} {offset count : ℕ}

@[simp] theorem length_slice (h : offset + count ≤ cells.length) :
    (slice cells offset count).length = count := by
  simp only [slice, length_take, length_drop]
  omega

/-- Neighbouring slices join. -/
theorem slice_append {next first second : ℕ} (h : next = offset + first) :
    slice cells offset first ++ slice cells next second =
      slice cells offset (first + second) := by
  rw [h, slice, slice, slice, ← drop_drop, take_add]

theorem slice_zero (cells : List α) (count : ℕ) : slice cells 0 count = cells.take count := by
  simp [slice]

/-- The slice that is the first of two parts. -/
theorem slice_left (h : first.length = count) : slice (first ++ second) 0 count = first := by
  rw [slice_zero, take_left' h]

/-- A slice past the first of two parts. -/
theorem slice_right (h : first.length ≤ offset) :
    slice (first ++ second) offset count = slice second (offset - first.length) count := by
  rw [slice, slice, drop_append, drop_of_length_le h, nil_append]

theorem slice_whole (h : cells.length = count) : slice cells 0 count = cells := by
  rw [slice_zero, take_of_length_le (Nat.le_of_eq h)]

/-- What a slice is made of, part by part. -/
theorem slice_eq_append_iff {more : ℕ} (hFirst : first.length = count)
    (h : offset + count ≤ cells.length) :
    slice cells offset (count + more) = first ++ second ↔
      slice cells offset count = first ∧ slice cells (offset + count) more = second := by
  have hSlice : (slice cells offset count).length = first.length := by rw [length_slice h, hFirst]
  rw [← slice_append (rfl : offset + count = offset + count)]
  constructor
  · intro hSame
    exact append_inj hSame hSlice
  · rintro ⟨rfl, rfl⟩
    rfl

/-- Reading cell by cell gives the slice. -/
theorem map_getD_range (blank : α) (h : offset + count ≤ cells.length) :
    ((range count).map fun i => cells.getD (offset + i) blank) = slice cells offset count := by
  refine ext_getElem (by rw [length_slice h]; simp) fun i hi _ => ?_
  have hi : i < count := by simpa using hi
  have hBound : offset + i < cells.length := by omega
  simp [slice, getElem?_eq_getElem hBound]

/-- The cells before an offset, what is stored there, and the cells after it. -/
theorem store_at (h : offset + count ≤ cells.length) (value : ℕ → α) :
    (range count).foldl (fun cells i => cells.set (offset + i) (value i)) cells =
      cells.take offset ++ ((range count).map value ++ cells.drop (offset + count)) := by
  induction count with
  | zero => simp
  | succ count ih =>
    have hBound : offset + count < cells.length := by omega
    have hFront : (cells.take offset).length = offset := by
      rw [length_take]
      omega
    have hSet : (cells.drop (offset + count)).set 0 (value count) =
        value count :: cells.drop (offset + (count + 1)) := by
      rw [drop_eq_getElem_cons hBound]
      rfl
    rw [range_succ, foldl_append, ih (by omega), foldl_cons, foldl_nil,
      set_append_right _ _ (by omega), hFront, Nat.add_sub_cancel_left,
      set_append_right _ _ (by simp), length_map, length_range, Nat.sub_self, hSet,
      map_append, append_assoc]
    rfl

/-- A buffer whose front is written, with `count` blank cells still to come. -/
def filled (blank : α) (done : List α) (count : ℕ) (rest : List α) : List α :=
  done ++ (replicate count blank ++ rest)

variable {blank : α} {done rest : List α}

theorem filled_zero : filled blank done 0 rest = done ++ rest := rfl

/-- Cells that are left blank count as written. -/
theorem filled_skip (first second : ℕ) :
    filled blank done (first + second) rest =
      filled blank (done ++ replicate first blank) second rest := by
  rw [filled, filled, replicate_add, append_assoc, append_assoc]

theorem filled_set {offset count : ℕ} (hOffset : offset = done.length) (value : α) :
    (filled blank done (1 + count) rest).set offset value =
      filled blank (done ++ [value]) count rest := by
  subst hOffset
  simp [filled, set_append_right, Nat.add_comm 1 count, replicate_succ]

/-- The loop that stores one cell after the other. -/
theorem filled_store {offset first second : ℕ} (hOffset : offset = done.length) (value : ℕ → α) :
    (range first).foldl (fun cells i => cells.set (offset + i) (value i))
        (filled blank done (first + second) rest) =
      filled blank (done ++ (range first).map value) second rest := by
  induction first generalizing second with
  | zero => simp
  | succ first ih =>
    have hSplit : first + 1 + second = first + (1 + second) := by omega
    rw [range_succ, foldl_append, hSplit, ih, foldl_cons, foldl_nil,
      filled_set (by simp [hOffset]), map_append, append_assoc]
    rfl

/-- The same loop over what was in the buffer before. -/
theorem store_front {cells : List α} {count : ℕ} (h : count ≤ cells.length) (value : ℕ → α) :
    (range count).foldl (fun cells i => cells.set (0 + i) (value i)) cells =
      (range count).map value ++ cells.drop count := by
  have hRoom : 0 + count ≤ cells.length := by omega
  have hStore := store_at hRoom value
  rw [take_zero, nil_append, Nat.zero_add] at hStore
  exact hStore

end Buffer
