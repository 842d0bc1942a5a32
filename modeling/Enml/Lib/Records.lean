import Enml.Lib.Buffer
import Mathlib.Tactic.Ring

/-! A run of records. A reader takes them one after the other, with a state it
carries along; a writer puts them down from the front of a blank buffer. Both
are described by the layout of a single record. Records of one size are read at
offsets, records of any size from the front of what is left. -/
namespace Records

open Buffer List

variable {α β σ ε : Type*}
  {admits : σ → α → Prop} {state : σ} {as : List α} {cells : List β} {n offset : ℕ}

/-- Read `n` records of `size` cells from `offset` on. `one` reads the record at
an offset, `next` is what it leaves behind for the following ones. -/
def readAll (size : ℕ) (one : σ → ℕ → Except ε α) (next : σ → α → σ) : ℕ → ℕ → σ → Except ε (List α)
  | 0, _, _ => .ok []
  | n + 1, offset, state => do
      let a ← one state offset
      let rest ← readAll size one next n (offset + size) (next state a)
      .ok (a :: rest)

/-- Read `n` records from the front of the cells. `one` reads the record in front
and hands back the cells behind it. -/
def takeAll (one : σ → List β → Except ε (α × List β)) (next : σ → α → σ) :
    ℕ → σ → List β → Except ε (List α × List β)
  | 0, _, cells => .ok ([], cells)
  | n + 1, state, cells => do
      let (a, cells) ← one state cells
      let (as, cells) ← takeAll one next n (next state a) cells
      .ok (a :: as, cells)

/-- Each record is admitted by what the ones before it left behind. -/
def Chain (next : σ → α → σ) (admits : σ → α → Prop) : σ → List α → Prop
  | _, [] => True
  | state, a :: rest => admits state a ∧ Chain next admits (next state a) rest

theorem Chain.snoc {next : σ → α → σ} {a : α} (h : Chain next admits state as)
    (ha : admits (as.foldl next state) a) :
    Chain next admits state (as ++ [a]) := by
  induction as generalizing state with
  | nil => exact ⟨ha, trivial⟩
  | cons _ _ ih => exact ⟨h.1, ih h.2 ha⟩

variable {size : ℕ} {one : σ → ℕ → Except ε α} {next : σ → α → σ} {layout : α → List β}

theorem length_flatMap (hSize : ∀ a, (layout a).length = size) (as : List α) :
    (as.flatMap layout).length = as.length * size := by
  induction as with
  | nil => simp
  | cons _ _ ih =>
    rw [flatMap_cons, length_append, hSize, ih, length_cons]
    ring

/-- A reader that takes a record exactly if the cells are its layout and the
state admits it takes a run of them exactly if the cells are their layouts one
after the other. -/
theorem readAll_eq_ok_iff (hSize : ∀ a, (layout a).length = size)
    (hOne : ∀ state offset a, offset + size ≤ cells.length →
      (one state offset = .ok a ↔ slice cells offset size = layout a ∧ admits state a))
    (hRoom : offset + n * size ≤ cells.length) :
    readAll size one next n offset state = .ok as ↔
      as.length = n ∧ slice cells offset (n * size) = as.flatMap layout ∧
        Chain next admits state as := by
  induction n generalizing offset state as with
  | zero =>
    rw [readAll]
    constructor
    · rintro h
      cases h
      exact ⟨rfl, by simp [slice], trivial⟩
    · rintro ⟨hNone, -, -⟩
      rw [length_eq_zero_iff.mp hNone]
  | succ n ih =>
    have hSplit : (n + 1) * size = size + n * size := by ring
    rw [hSplit] at hRoom ⊢
    have hHere : offset + size ≤ cells.length := by omega
    rw [readAll, ← slice_append (rfl : offset + size = offset + size)]
    constructor
    · intro h
      cases hFirst : one state offset with
      | error =>
        rw [hFirst] at h
        cases h
      | ok a =>
        rw [hFirst] at h
        cases hRest : readAll size one next n (offset + size) (next state a) with
        | error =>
          simp only [bind, Except.bind, hRest] at h
          cases h
        | ok =>
          simp only [bind, Except.bind, hRest] at h
          obtain rfl := Except.ok.inj h
          obtain ⟨hCells, hAdmits⟩ := (hOne _ _ _ hHere).mp hFirst
          obtain ⟨hLen, hTail, hChain⟩ := (ih (by omega)).mp hRest
          refine ⟨by rw [length_cons, hLen], ?_, hAdmits, hChain⟩
          rw [hCells, hTail, flatMap_cons]
    · rintro ⟨hLen, hCells, hChain⟩
      cases as with
      | nil => cases hLen
      | cons a rest =>
        have hWidth : (slice cells offset size).length = (layout a).length := by
          rw [length_slice hHere, hSize]
        rw [flatMap_cons] at hCells
        obtain ⟨hHead, hTail⟩ := append_inj hCells hWidth
        have hFirst := (hOne state offset a hHere).mpr ⟨hHead, hChain.1⟩
        have hRest : readAll size one next n (offset + size) (next state a) = .ok rest :=
          (ih (by omega)).mpr ⟨Nat.succ.inj hLen, hTail, hChain.2⟩
        simp only [bind, Except.bind, hFirst, hRest]

/-- The same for records that are read from the front. -/
theorem takeAll_eq_ok_iff {take : σ → List β → Except ε (α × List β)} (hOne : ∀ state cells a left,
      take state cells = .ok (a, left) ↔ cells = layout a ++ left ∧ admits state a)
    {left : List β} :
    takeAll take next n state cells = .ok (as, left) ↔
      as.length = n ∧ cells = as.flatMap layout ++ left ∧ Chain next admits state as := by
  induction n generalizing state cells as with
  | zero =>
    rw [takeAll]
    constructor
    · intro h
      cases h
      exact ⟨rfl, rfl, trivial⟩
    rintro ⟨hNone, hCells, -⟩
    obtain rfl := length_eq_zero_iff.mp hNone
    rw [hCells]
    rfl
  | succ n ih =>
    rw [takeAll]
    constructor
    · intro h
      rcases hFirst : take state cells with e | ⟨a, behind⟩
      · simp only [bind, Except.bind, hFirst] at h
        cases h
      rcases hRest : takeAll take next n (next state a) behind with e | ⟨rest, left'⟩
      · simp only [bind, Except.bind, hFirst, hRest] at h
        cases h
      simp only [bind, Except.bind, hFirst, hRest] at h
      cases h
      obtain ⟨hCells, hAdmits⟩ := (hOne ..).mp hFirst
      obtain ⟨hLen, hBehind, hChain⟩ := ih.mp hRest
      refine ⟨by rw [length_cons, hLen], ?_, hAdmits, hChain⟩
      rw [hCells, hBehind, flatMap_cons, append_assoc]
    · rintro ⟨hLen, hCells, hChain⟩
      cases as with
      | nil => cases hLen
      | cons a =>
        rw [flatMap_cons, append_assoc] at hCells
        have hFirst := (hOne state cells a _).mpr ⟨hCells, hChain.1⟩
        have hRest := ih.mpr ⟨Nat.succ.inj hLen, rfl, hChain.2⟩
        simp only [bind, Except.bind, hFirst, hRest]

theorem flatMap_inj (hSize : ∀ a, (layout a).length = size) (hInj : Function.Injective layout)
    {bs : List α} (hLen : as.length = bs.length) (h : as.flatMap layout = bs.flatMap layout) :
    as = bs := by
  induction as generalizing bs with
  | nil => exact (length_eq_zero_iff.mp hLen.symm).symm
  | cons _ _ ih =>
    cases bs with
    | nil => cases hLen
    | cons =>
      obtain ⟨hHead, hTail⟩ := append_inj h (by rw [hSize, hSize])
      rw [hInj hHead, ih (Nat.succ.inj hLen) hTail]

/-- The cells of one record among the others. -/
theorem slice_record (hSize : ∀ a, (layout a).length = size)
    (hRoom : offset + as.length * size ≤ cells.length)
    (h : slice cells offset (as.length * size) = as.flatMap layout) {i : ℕ} {a : α}
    (hAt : as[i]? = some a) : slice cells (offset + i * size) size = layout a := by
  induction as generalizing offset i with
  | nil => cases hAt
  | cons b rest ih =>
    have hSplit : (b :: rest).length * size = size + rest.length * size := by
      rw [length_cons]
      ring
    rw [hSplit] at hRoom h
    rw [flatMap_cons, slice_eq_append_iff (hSize b) (by omega)] at h
    cases i with
    | zero =>
      obtain rfl := Option.some.inj hAt
      rw [Nat.zero_mul, Nat.add_zero]
      exact h.1
    | succ i =>
      have hNext : offset + (i + 1) * size = offset + size + i * size := by ring
      rw [hNext]
      exact ih (by omega) h.2 hAt

/-- Write the records from `offset` on. -/
def writeAll (size : ℕ) (one : List β → ℕ → α → List β) : List β → ℕ → List α → List β
  | cells, _, [] => cells
  | cells, offset, a :: rest => writeAll size one (one cells offset a) (offset + size) rest

theorem writeAll_filled {blank : β} {put : List β → ℕ → α → List β} (done rest : List β)
    (hSize : ∀ a, (layout a).length = size)
    (hPut : ∀ (done : List β) count a, put (filled blank done (size + count) rest) done.length a =
      filled blank (done ++ layout a) count rest) (as : List α) :
    writeAll size put (filled blank done (as.length * size) rest) done.length as =
      done ++ as.flatMap layout ++ rest := by
  induction as generalizing done with
  | nil => simp [writeAll, filled]
  | cons a as ih =>
    have hSplit : (a :: as).length * size = size + as.length * size := by
      rw [length_cons]
      ring
    have hNext : done.length + size = (done ++ layout a).length := by rw [length_append, hSize]
    rw [writeAll, hSplit, hPut, hNext, ih, flatMap_cons]
    simp only [append_assoc]

end Records
