import Enml.Invariant.Stage1

/-! What the builder's calls do to the tables. Pages come from the arenas, where
every page is handed out once; a call may link new tables below the root it is
given, and of the leaves it writes at most the one of its own address. -/
namespace Enml.OsKernel

open Enml.Core RadixTable Descriptor List Memory Function UInt64 MachineErrors

variable {q t : UInt64} {s : List (Fin 512)}

namespace EarlyPageArena

/-- What is left of the bump range. -/
def bumpPages (a : EarlyPageArena) : List UInt64 :=
  if a.bumpValid then
    (range ((a.bumpEnd - a.next) / architecturalPageSize).toNat).map (pageAt a.next)
  else []

/-- The pages an arena still has, in the order it hands them out. -/
def pages (a : EarlyPageArena) : List UInt64 := a.donated ++ a.bumpPages

theorem length_pages (a : EarlyPageArena) : a.pages.length = a.remainingPages := by
  rw [pages, bumpPages, remainingPages, length_append, Nat.add_comm]
  split
  · rw [length_map, length_range]
  · rfl

theorem bumpValid_iff (a : EarlyPageArena) :
    a.bumpValid = true ↔ a.next.toNat % 4096 = 0 ∧ a.bumpEnd.toNat % 4096 = 0 ∧
      a.next.toNat < a.bumpEnd.toNat ∧ a.bumpEnd.toNat ≤ 2 ^ 48 := by
  have hPage : architecturalPageSize.toNat = 4096 := rfl
  have hMask : pageAddressMask.toNat = 2 ^ 48 - 4096 := rfl
  simp only [bumpValid, Bool.and_eq_true, pageAligned_iff, stage1PhysicalAddress_iff,
    decide_eq_true_iff, UInt64.lt_iff_toNat_lt, UInt64.le_iff_toNat_le, UInt64.toNat_sub, hPage,
    hMask]
  have := a.next.toNat_lt
  have := a.bumpEnd.toNat_lt
  constructor
  · rintro ⟨⟨⟨⟨hNext, hEnd⟩, hLess⟩, -⟩, hLast⟩
    omega
  · rintro ⟨hNext, hEnd, hLess, hLast⟩
    omega

theorem pageAt_succ (base : UInt64) (page : Nat) :
    pageAt base (page + 1) = pageAt (base + architecturalPageSize) page := by
  have hOne : ofNat 1 = 1 := rfl
  rw [pageAt, pageAt, ofNat_add, add_mul, hOne, one_mul, add_assoc, add_comm architecturalPageSize]

theorem pageAt_zero (base : UInt64) : pageAt base 0 = base := by simp [pageAt]

/-- Taking the next page of the bump range. -/
theorem bumpPages_cons {a : EarlyPageArena} (h : a.bumpValid = true) :
    a.bumpPages = a.next :: ({ a with next := a.next + architecturalPageSize }).bumpPages := by
  obtain ⟨hNext, hEnd, hLess, hLast⟩ := (bumpValid_iff a).mp h
  have hPage : architecturalPageSize.toNat = 4096 := rfl
  have hCnt : ((a.bumpEnd - a.next) / architecturalPageSize).toNat =
      (a.bumpEnd.toNat - a.next.toNat) / 4096 := by
    rw [UInt64.toNat_div, UInt64.toNat_sub_of_le _ _ (UInt64.le_iff_toNat_le.mpr hLess.le), hPage]
  have hMoved : (a.next + architecturalPageSize).toNat = a.next.toNat + 4096 := by
    rw [UInt64.toNat_add, hPage]
    omega
  have hRest : ({ a with next := a.next + architecturalPageSize } : EarlyPageArena).bumpPages =
      (range ((a.bumpEnd.toNat - a.next.toNat) / 4096 - 1)).map
        (pageAt (a.next + architecturalPageSize)) := by
    rw [bumpPages]
    split
    · rename_i hValid
      obtain ⟨-, -, hLess', -⟩ := (bumpValid_iff _).mp hValid
      rw [hMoved] at hLess'
      have hCnt' : ((a.bumpEnd - (a.next + architecturalPageSize)) / architecturalPageSize).toNat =
          (a.bumpEnd.toNat - a.next.toNat) / 4096 - 1 := by
        rw [UInt64.toNat_div, UInt64.toNat_sub_of_le _ _
          (le_iff_toNat_le.mpr (by rw [hMoved]; exact hLess'.le)), hMoved, hPage]
        omega
      rw [hCnt']
    · rename_i hSpent
      rw [bumpValid_iff] at hSpent
      simp only [hMoved] at hSpent
      have hNone : (a.bumpEnd.toNat - a.next.toNat) / 4096 - 1 = 0 := by omega
      rw [hNone]
      rfl
  rw [hRest, bumpPages, if_pos h, hCnt]
  obtain ⟨n, hn⟩ : ∃ n, (a.bumpEnd.toNat - a.next.toNat) / 4096 = n + 1 :=
    ⟨(a.bumpEnd.toNat - a.next.toNat) / 4096 - 1, by omega⟩
  rw [hn, range_succ_eq_map, map_cons, map_map, pageAt_zero, Nat.add_sub_cancel]
  refine congrArg (cons a.next) (map_congr_left ?_)
  intro page _
  exact pageAt_succ a.next page

/-- An arena hands out its first page, and fails only when it has none. -/
theorem allocatePage_cases (a : EarlyPageArena) :
    (a.pages = [] ∧ ∃ e, a.allocatePage = (a, .error e)) ∨
      ∃ page a', a.allocatePage = (a', .ok page) ∧ a.pages = page :: a'.pages := by
  unfold allocatePage
  split
  · rename_i page donated hDonated
    right
    refine ⟨page, { a with donated }, rfl, ?_⟩
    rw [pages, hDonated, cons_append]
    rfl
  · rename_i hDonated
    split
    · rename_i hSpent
      left
      refine ⟨?_, _, rfl⟩
      rw [pages, hDonated, nil_append, bumpPages, if_neg]
      intro hValid
      obtain ⟨hNext, hEnd, hLess, hLast⟩ := (bumpValid_iff a).mp hValid
      have hPage : architecturalPageSize.toNat = 4096 := rfl
      simp only [hValid, Bool.not_true, Bool.false_or, decide_eq_true_iff,
        UInt64.lt_iff_toNat_lt, UInt64.toNat_sub, hPage] at hSpent
      omega
    · rename_i hLeft
      simp only [Bool.or_eq_true, not_or, Bool.not_eq_true', Bool.not_eq_false] at hLeft
      right
      refine ⟨a.next, { a with next := a.next + architecturalPageSize }, rfl, ?_⟩
      rw [pages, hDonated, nil_append, bumpPages_cons hLeft.1]
      simp only [pages, hDonated, nil_append]

end EarlyPageArena

variable {ι : Type}

/-- The tables under the roots of all spaces, and what their leaves may be. -/
structure Tables (mem : Memory) (roots : ι → Option UInt64) : Prop where
  separate : Separate stage1Format 2 mem roots
  leaves : ∀ i s c, s.length = 2 → entry stage1Format mem roots i s c = 0 ∨
    entry stage1Format mem roots i s c &&& valid ≠ 0 ∧
      entry stage1Format mem roots i s c &&& tableOrPage ≠ 0

/-- The leaf of an address: zero where a table is missing on the way. -/
def leafOf (mem : Memory) (roots : ι → Option UInt64) (i : ι) (va : UInt64) : UInt64 :=
  entry stage1Format mem roots i (leafPath va) (index3 va)

namespace EarlyStage1Builder

variable {b : EarlyStage1Builder} {mem : Memory} {roots : ι → Option UInt64} {i : ι} {va : UInt64}

theorem nextTable_tableDescriptor (hq : stage1PhysicalAddress q = true) :
    nextTable (tableDescriptor q) = .ok q := by
  rw [nextTable, if_neg (tableDescriptor_tableOrPage q), tableDescriptor_address hq, hq]
  rfl

theorem walkTable_eq (h : Tables mem roots) (hs : s.length < 2)
    (ht : table stage1Format mem roots i s = some t) (c : Fin 512) :
    walkTable mem (entryAddress t c) =
      match table stage1Format mem roots i (c :: s) with
      | none => .error (kernelError notMapped)
      | some q => .ok q := by
  have hEntry : entry stage1Format mem roots i s c = mem (entryAddress t c) := entry_of_table ht c
  rw [table_cons, walkTable, ← hEntry]
  rcases h.separate.formed i s c hs with hBlank | ⟨q, hq, hNext⟩
  · rw [hBlank, stage1Format.decode_blank]
    rfl
  · rw [hNext, stage1Format.decode_encode q hq]
    show (if tableDescriptor q &&& valid = 0 then _ else nextTable (tableDescriptor q)) = _
    rw [if_neg (tableDescriptor_valid q), nextTable_tableDescriptor hq]

/-- The address of a leaf is found exactly when the tables above it exist. -/
theorem leafPointer_eq (h : Tables mem roots) (hRoot : roots i = some b.root)
    (hCheck : b.checkAddress va = .ok ()) :
    b.leafPointer mem va =
      match table stage1Format mem roots i (leafPath va) with
      | none => .error (kernelError notMapped)
      | some t => .ok (stage1Format.slot t (index3 va)) := by
  have hPath : leafPath va = [index2 va, index1 va] := rfl
  have hFirst := walkTable_eq (i := i) h (s := []) (by decide) hRoot (index1 va)
  change walkTable mem (entryAddress b.root (level1Index va)) = _ at hFirst
  unfold leafPointer
  simp only [hCheck, bind, Except.bind, hFirst]
  cases hSnd : table stage1Format mem roots i [index1 va] with
  | none =>
    have hNone : table stage1Format mem roots i (leafPath va) = none := by
      rw [hPath, table, hSnd]
      rfl
    rw [hNone]
  | some l2 =>
    have hNext := walkTable_eq (i := i) h (s := [index1 va]) (by simp) hSnd (index2 va)
    change walkTable mem (entryAddress l2 (level2Index va)) = _ at hNext
    simp only [hNext, ← hPath]
    cases hThird : table stage1Format mem roots i (leafPath va) with
    | none => rfl
    | some l3 =>
      have hEntry : entry stage1Format mem roots i (leafPath va) (index3 va) =
          mem (entryAddress l3 (level3Index va)) := entry_of_table hThird _
      simp only [← hEntry]
      rw [if_neg]
      · rfl
      rintro ⟨hValid, hBlock⟩
      rcases h.leaves i (leafPath va) (index3 va) rfl with hZero | ⟨-, hPage⟩
      · rw [hZero] at hValid
        exact hValid (by decide)
      · exact hPage hBlock

/-- `mapped` reads the valid bit of the leaf. -/
theorem mapped_eq (h : Tables mem roots) (hRoot : roots i = some b.root)
    (hCheck : b.checkAddress va = .ok ()) :
    b.mapped mem va = .ok (leafOf mem roots i va &&& valid != 0) := by
  rw [mapped, leafPointer_eq h hRoot hCheck, leafOf]
  cases hTbl : table stage1Format mem roots i (leafPath va) with
  | none =>
    rw [entry_of_none hTbl]
    rfl
  | some => rw [entry_of_table hTbl]

/-- Without an acceptable address and a root there is an answer only in error. -/
theorem checkAddress_of_mapped {found : Bool} (h : b.mapped mem va = .ok found) :
    b.checkAddress va = .ok () := by
  unfold mapped leafPointer at h
  cases hCheck : b.checkAddress va with
  | ok => rfl
  | error e =>
    exfalso
    have hCode : e.code ≠ notMapped := by
      unfold checkAddress at hCheck
      split at hCheck
      · cases hCheck
        decide
      split at hCheck
      · cases hCheck
        decide
      · cases hCheck
    simp only [hCheck, bind, Except.bind, if_neg hCode] at h
    cases h

end EarlyStage1Builder

/-- The tables, with the pages the arenas still have: each in one arena once, and
used by no table. -/
structure Physical.Laid (p : Physical) (roots : ι → Option UInt64) : Prop where
  tables : Tables p.memory roots
  nodup : ∀ id, (p.arenas id).pages.Nodup
  apart : ∀ id id', id ≠ id' → ∀ q ∈ (p.arenas id).pages, q ∉ (p.arenas id').pages
  fresh : ∀ id, ∀ q ∈ (p.arenas id).pages,
    stage1PhysicalAddress q = true ∧ Unused stage1Format 2 p.memory roots q

/-- A page that has been supplied: a table or still in an arena. -/
def Physical.Supplied (p : Physical) (roots : ι → Option UInt64) (q : UInt64) : Prop :=
  (∃ i s, s.length ≤ 2 ∧ table stage1Format p.memory roots i s = some q) ∨
    ∃ id, q ∈ (p.arenas id).pages

/-- Tables have been added below the roots, from the pages of one arena. No leaf
has changed. -/
structure Physical.Grown (p : Physical) (roots : ι → Option UInt64) (id : ArenaId)
    (p' : Physical) : Prop where
  laid : p'.Laid roots
  kept : ∀ i s q, s.length ≤ 2 → table stage1Format p.memory roots i s = some q →
    table stage1Format p'.memory roots i s = some q
  leaves : ∀ i s c, s.length = 2 → entry stage1Format p'.memory roots i s c =
    entry stage1Format p.memory roots i s c
  others : ∀ id', id' ≠ id → p'.arenas id' = p.arenas id'

namespace Physical

variable {p p' p'' : Physical} {roots : ι → Option UInt64} {id : ArenaId} {page : UInt64}

theorem Grown.refl (h : p.Laid roots) (id : ArenaId) : p.Grown roots id p :=
  ⟨h, fun _ _ _ _ hq => hq, fun _ _ _ _ => rfl, fun _ _ => rfl⟩

theorem Grown.trans (h : p.Grown roots id p') (h' : p'.Grown roots id p'') :
    p.Grown roots id p'' := by
  refine ⟨h'.laid, ?_, ?_, ?_⟩
  · intro i s q hs hq
    exact h'.kept i s q hs (h.kept i s q hs hq)
  · intro i s c hs
    rw [h'.leaves i s c hs, h.leaves i s c hs]
  · intro id' hid
    rw [h'.others id' hid, h.others id' hid]

theorem Grown.leafOf (h : p.Grown roots id p') (i : ι) (va : UInt64) :
    leafOf p'.memory roots i va = OsKernel.leafOf p.memory roots i va :=
  h.leaves i (leafPath va) (index3 va) rfl

/-- A page taken from an arena and zeroed. -/
structure Taken (p : Physical) (id : ArenaId) (page : UInt64) (p' : Physical) : Prop where
  memory : p'.memory = p.memory.zeroTable page
  pages : (p.arenas id).pages = page :: (p'.arenas id).pages
  others : ∀ id', id' ≠ id → p'.arenas id' = p.arenas id'

/-- Zeroing a page no table uses touches no table. -/
theorem Taken.slots (h : p.Taken id page p') (hLaid : p.Laid roots) (i : ι)
    (s : List (Fin 512)) (t : UInt64) (c : Fin 512) (hs : s.length ≤ 2)
    (ht : table stage1Format p.memory roots i s = some t) :
    p'.memory (stage1Format.slot t c) = p.memory (stage1Format.slot t c) := by
  have hMem : page ∈ (p.arenas id).pages := h.pages ▸ mem_cons_self
  obtain ⟨hOk, hUnused⟩ := hLaid.fresh id page hMem
  rw [h.memory]
  apply zeroTable_slot_ne (hLaid.tables.separate.sound i s t hs ht) hOk
  rintro rfl
  exact hUnused i s hs ht

theorem Taken.pages_subset (h : p.Taken id page p') (id' : ArenaId) :
    (p'.arenas id').pages ⊆ (p.arenas id').pages := by
  rcases eq_or_ne id' id with rfl | hid
  · rw [h.pages]
    exact subset_cons_self ..
  · rw [h.others id' hid]
    exact List.Subset.refl _

theorem Taken.laid (h : p.Taken id page p') (hLaid : p.Laid roots) : p'.Laid roots := by
  have hSlots := h.slots hLaid
  refine ⟨⟨hLaid.tables.separate.congr hSlots, ?_⟩, ?_, ?_, ?_⟩
  · intro i s c hs
    rw [entry_congr hSlots i s c hs.le]
    exact hLaid.tables.leaves i s c hs
  · intro id'
    rcases eq_or_ne id' id with rfl | hid
    · have hNodup := hLaid.nodup id'
      rw [h.pages] at hNodup
      exact hNodup.of_cons
    · rw [h.others id' hid]
      exact hLaid.nodup id'
  · intro id' id'' hNe q hq hq'
    exact hLaid.apart id' id'' hNe q (h.pages_subset id' hq) (h.pages_subset id'' hq')
  · intro id' q hq
    obtain ⟨hOk, hUnused⟩ := hLaid.fresh id' q (h.pages_subset id' hq)
    refine ⟨hOk, ?_⟩
    intro i s hs
    rw [table_congr hSlots i s hs]
    exact hUnused i s hs

theorem Taken.page_not_mem (h : p.Taken id page p') (hLaid : p.Laid roots)
    (id' : ArenaId) : page ∉ (p'.arenas id').pages := by
  rcases eq_or_ne id' id with rfl | hid
  · have hNodup := hLaid.nodup id'
    rw [h.pages] at hNodup
    exact (nodup_cons.mp hNodup).1
  · rw [h.others id' hid]
    exact hLaid.apart id id' hid.symm page (h.pages ▸ mem_cons_self)

theorem Taken.unused (h : p.Taken id page p') (hLaid : p.Laid roots) :
    Unused stage1Format 2 p'.memory roots page := by
  have hMem : page ∈ (p.arenas id).pages := h.pages ▸ mem_cons_self
  intro i s hs
  rw [table_congr (h.slots hLaid) i s hs]
  exact (hLaid.fresh id page hMem).2 i s hs

theorem Taken.ok (h : p.Taken id page p') (hLaid : p.Laid roots) :
    stage1PhysicalAddress page = true :=
  (hLaid.fresh id page (h.pages ▸ mem_cons_self)).1

theorem Taken.blank (h : p.Taken id page p') (hLaid : p.Laid roots) (c : Fin 512) :
    p'.memory (stage1Format.slot page c) = 0 := by
  rw [h.memory]
  exact zeroTable_slot_self (h.ok hLaid) c

end Physical

namespace EarlyStage1Builder

variable {b : EarlyStage1Builder} {p : Physical} {roots : ι → Option UInt64} {id : ArenaId} {i : ι}

theorem allocateTable_cases (hArena : b.arena = some id) (p : Physical) :
    ((p.arenas id).pages = [] ∧ ∃ e, b.allocateTable p = (p, .error e)) ∨
      ∃ page p', b.allocateTable p = (p', .ok page) ∧ p.Taken id page p' := by
  unfold allocateTable
  rw [hArena]
  rcases (p.arenas id).allocatePage_cases with ⟨hNone, e, hFail⟩ | ⟨page, a', hTake, hPages⟩
  · exact .inl ⟨hNone, e, by simp only [hFail]⟩
  refine .inr ⟨page, _, by simp only [hTake]; rfl, rfl, ?_, ?_⟩
  · simpa using hPages
  · intro id' hid
    exact update_of_ne hid _ _

/-- The table below an entry is there, new if it was not there before. -/
structure Ensured (p : Physical) (roots : ι → Option UInt64) (id : ArenaId) (i : ι)
    (s : List (Fin 512)) (q : UInt64) (p' : Physical) : Prop where
  grown : p.Grown roots id p'
  there : table stage1Format p'.memory roots i s = some q
  spent : (p.arenas id).pages.length = (p'.arenas id).pages.length +
    if table stage1Format p.memory roots i s = none then 1 else 0

variable [DecidableEq ι]

/-- Linking a page just taken from the arena. -/
theorem ensured_link {p₁ : Physical} {page : UInt64} {c : Fin 512} (hLaid : p.Laid roots)
    (hTaken : p.Taken id page p₁) (hs : s.length < 2)
    (ht : table stage1Format p.memory roots i s = some t)
    (hVacant : table stage1Format p.memory roots i (c :: s) = none) :
    Ensured p roots id i (c :: s) page
      { p₁ with memory := update p₁.memory (stage1Format.slot t c) (tableDescriptor page) } := by
  have hSlots := hTaken.slots hLaid
  have hLaid₁ := hTaken.laid hLaid
  have hLink : Linkable stage1Format 2 p₁.memory roots i s c t page := by
    refine ⟨hs, ?_, ?_, hTaken.ok hLaid, hTaken.unused hLaid, hTaken.blank hLaid⟩
    · rw [table_congr hSlots i s hs.le]
      exact ht
    · rw [table_congr hSlots i (c :: s) hs]
      exact hVacant
  have hTbl := hLink.table_link hLaid₁.tables.separate
  have hEntry : ∀ k u d, u.length = 2 → entry stage1Format (update p₁.memory (stage1Format.slot t c)
        (tableDescriptor page)) roots k u d = entry stage1Format p₁.memory roots k u d := by
    intro k u d hu
    have hWritten := hLink.entry_link hLaid₁.tables.separate hu.le (hTbl k u hu.le) d
    rw [if_neg] at hWritten
    · exact hWritten
    · rintro ⟨-, rfl, -⟩
      omega
  refine ⟨⟨⟨⟨hLink.separate hLaid₁.tables.separate, ?_⟩, hLaid₁.nodup, hLaid₁.apart, ?_⟩,
    ?_, ?_, hTaken.others⟩, ?_, ?_⟩
  · intro k u d hu
    rw [hEntry k u d hu]
    exact hLaid₁.tables.leaves k u d hu
  · intro id' q hq
    obtain ⟨hOk, hUnused⟩ := hLaid₁.fresh id' q hq
    refine ⟨hOk, ?_⟩
    intro k u hu
    show table stage1Format (update _ _ (stage1Format.encode page)) roots k u ≠ some q
    rw [hTbl k u hu]
    split
    · intro hSame
      cases hSame
      exact hTaken.page_not_mem hLaid id' hq
    · exact hUnused k u hu
  · intro k u q hu hq
    show table stage1Format (update _ _ (stage1Format.encode page)) roots k u = some q
    rw [hTbl k u hu, if_neg]
    · rw [table_congr hSlots k u hu]
      exact hq
    · rintro ⟨rfl, rfl⟩
      rw [hVacant] at hq
      cases hq
  · intro k u d hu
    rw [hEntry k u d hu, entry_congr hSlots k u d hu.le]
  · show table stage1Format (update _ _ (stage1Format.encode page)) roots i (c :: s) = _
    rw [hTbl i (c :: s) hs, if_pos ⟨rfl, rfl⟩]
  · rw [hVacant, if_pos rfl, hTaken.pages]
    rfl

theorem ensureNextTable_cases (hLaid : p.Laid roots) (hArena : b.arena = some id)
    (hs : s.length < 2) (ht : table stage1Format p.memory roots i s = some t) (c : Fin 512) :
    (∃ q p', b.ensureNextTable p (entryAddress t c) = (p', .ok q) ∧
        Ensured p roots id i (c :: s) q p') ∨
      table stage1Format p.memory roots i (c :: s) = none ∧ (p.arenas id).pages = [] ∧
        ∃ e, b.ensureNextTable p (entryAddress t c) = (p, .error e) := by
  have hEntry : entry stage1Format p.memory roots i s c = p.memory (entryAddress t c) :=
    entry_of_table ht c
  unfold ensureNextTable
  rw [← hEntry]
  rcases hLaid.tables.separate.formed i s c hs with hBlank | ⟨q, hq, hNext⟩
  · have hVacant : table stage1Format p.memory roots i (c :: s) = none := by
      rw [table_cons, hBlank, stage1Format.decode_blank]
    have hInvalid : ¬ (stage1Format.blank &&& valid ≠ 0) := by decide
    rw [hBlank, if_neg hInvalid]
    rcases allocateTable_cases hArena p with ⟨hNone, e, hFail⟩ | ⟨page, p₁, hTake, hTaken⟩
    · rw [hFail]
      exact .inr ⟨hVacant, hNone, e, rfl⟩
    rw [hTake]
    refine .inl ⟨page, _, rfl, ?_⟩
    rw [write_eq_update]
    exact ensured_link hLaid hTaken hs ht hVacant
  · have hThere : table stage1Format p.memory roots i (c :: s) = some q := by
      rw [table_cons, hNext, stage1Format.decode_encode q hq]
    rw [hNext]
    have hValid : stage1Format.encode q &&& valid ≠ 0 := tableDescriptor_valid q
    rw [if_pos hValid]
    refine .inl ⟨q, p, ?_, Physical.Grown.refl hLaid id, hThere, ?_⟩
    · exact congrArg (Prod.mk p) (nextTable_tableDescriptor hq)
    · simp [hThere]

/-- The table pages missing above the leaf of an address. -/
def missing (p : Physical) (roots : ι → Option UInt64) (i : ι) (va : UInt64) : Nat :=
  (if table stage1Format p.memory roots i [index1 va] = none then 1 else 0) +
    if table stage1Format p.memory roots i (leafPath va) = none then 1 else 0

/-- One leaf has been written, and the tables above it are there. -/
structure Installed (p : Physical) (roots : ι → Option UInt64) (id : ArenaId) (i : ι)
    (va leaf : UInt64) (p' : Physical) : Prop where
  laid : p'.Laid roots
  kept : ∀ k s q, s.length ≤ 2 → table stage1Format p.memory roots k s = some q →
    table stage1Format p'.memory roots k s = some q
  leaves : ∀ k s c, s.length = 2 → entry stage1Format p'.memory roots k s c =
    if k = i ∧ s = leafPath va ∧ c = index3 va then leaf
    else entry stage1Format p.memory roots k s c
  others : ∀ id', id' ≠ id → p'.arenas id' = p.arenas id'
  above : table stage1Format p'.memory roots i [index1 va] ≠ none ∧
    table stage1Format p'.memory roots i (leafPath va) ≠ none
  spent : (p.arenas id).pages.length ≤ (p'.arenas id).pages.length + missing p roots i va

/-- Writing a leaf into a table of the last level. -/
theorem laid_write (hLaid : p.Laid roots) (hs : s.length = 2)
    (ht : table stage1Format p.memory roots i s = some t) (c : Fin 512) {leaf : UInt64}
    (hLeaf : leaf = 0 ∨ leaf &&& valid ≠ 0 ∧ leaf &&& tableOrPage ≠ 0) :
    ({ p with memory := p.memory.write (stage1Format.slot t c) leaf } : Physical).Laid roots := by
  simp only [write_eq_update]
  refine ⟨⟨hLaid.tables.separate.update_last hs ht, ?_⟩, hLaid.nodup, hLaid.apart, ?_⟩
  · intro k u d hu
    rw [hLaid.tables.separate.entry_update_last hs ht k u hu.le d]
    split
    · exact hLeaf
    · exact hLaid.tables.leaves k u d hu
  · intro id' q hq
    obtain ⟨hOk, hUnused⟩ := hLaid.fresh id' q hq
    refine ⟨hOk, ?_⟩
    intro k u hu
    rw [hLaid.tables.separate.table_update_last hs ht k u hu]
    exact hUnused k u hu

theorem installed_write {p₂ : Physical} {va leaf l2 l3 : UInt64} (hGrown : p.Grown roots id p₂)
    (hSnd : table stage1Format p₂.memory roots i [index1 va] = some l2)
    (hLast : table stage1Format p₂.memory roots i (leafPath va) = some l3)
    (hLeaf : leaf &&& valid ≠ 0 ∧ leaf &&& tableOrPage ≠ 0)
    (hSpent : (p.arenas id).pages.length ≤ (p₂.arenas id).pages.length + missing p roots i va) :
    Installed p roots id i va leaf
      { p₂ with memory := p₂.memory.write (stage1Format.slot l3 (index3 va)) leaf } := by
  have hSep := hGrown.laid.tables.separate
  have hPath : (leafPath va).length = 2 := rfl
  have hTables : ∀ k (u : List (Fin 512)), u.length ≤ 2 →
      table stage1Format (update p₂.memory (stage1Format.slot l3 (index3 va)) leaf) roots k u =
        table stage1Format p₂.memory roots k u :=
    hSep.table_update_last hPath hLast
  refine ⟨laid_write hGrown.laid hPath hLast (index3 va) (.inr hLeaf), ?_, ?_, hGrown.others,
    ⟨?_, ?_⟩, hSpent⟩
  · intro k u q hu hq
    simp only [write_eq_update]
    rw [hTables k u hu]
    exact hGrown.kept k u q hu hq
  · intro k u c hu
    simp only [write_eq_update]
    rw [hSep.entry_update_last hPath hLast k u hu.le c, hGrown.leaves k u c hu]
  · simp only [write_eq_update]
    rw [hTables i [index1 va] (by simp), hSnd]
    simp
  · simp only [write_eq_update]
    rw [hTables i (leafPath va) hPath.le, hLast]
    simp

/-- The leaf is installed unless one is there already or the arena has too few
pages for the tables above it; even then no leaf changes. -/
theorem installLeaf_cases (hLaid : p.Laid roots) (hArena : b.arena = some id)
    (hRoot : roots i = some b.root) {va leaf : UInt64} (hCheck : b.checkAddress va = .ok ())
    (hLeaf : leaf &&& valid ≠ 0 ∧ leaf &&& tableOrPage ≠ 0) :
    (∃ p', b.installLeaf p va leaf = (p', .ok ()) ∧ Installed p roots id i va leaf p') ∨
      ∃ p' e, b.installLeaf p va leaf = (p', .error e) ∧ p.Grown roots id p' ∧
        (leafOf p.memory roots i va &&& valid ≠ 0 ∨
          (p.arenas id).pages.length < missing p roots i va) := by
  have hNonzero : leaf ≠ 0 := by
    rintro rfl
    exact hLeaf.1 (by decide)
  unfold installLeaf
  rw [hCheck]
  rw [if_neg hNonzero]
  rcases ensureNextTable_cases hLaid hArena (i := i) (s := []) (by decide) hRoot (index1 va) with
    ⟨l2, p₁, hFirst, hEnsured⟩ | ⟨hNone, hEmpty, e, hFail⟩
  swap
  · change b.ensureNextTable p (entryAddress b.root (level1Index va)) = _ at hFail
    rw [hFail]
    refine .inr ⟨p, e, rfl, Physical.Grown.refl hLaid id, .inr ?_⟩
    rw [hEmpty, missing, hNone, if_pos rfl, length_nil]
    omega
  change b.ensureNextTable p (entryAddress b.root (level1Index va)) = _ at hFirst
  rw [hFirst]
  dsimp only
  have hStill : table stage1Format p₁.memory roots i (leafPath va) = none →
      table stage1Format p.memory roots i (leafPath va) = none := by
    intro hNone
    cases hOld : table stage1Format p.memory roots i (leafPath va) with
    | none => rfl
    | some q =>
      rw [hEnsured.grown.kept i (leafPath va) q (Nat.le_refl 2) hOld] at hNone
      cases hNone
  have hSpent := hEnsured.spent
  rcases ensureNextTable_cases hEnsured.grown.laid hArena (i := i) (s := [index1 va]) (by simp)
      hEnsured.there (index2 va) with ⟨l3, p₂, hSnd, hEnsured'⟩ | ⟨hNone, hEmpty, e, hFail⟩
  swap
  · change b.ensureNextTable p₁ (entryAddress l2 (level2Index va)) = _ at hFail
    rw [hFail]
    refine .inr ⟨p₁, e, rfl, hEnsured.grown, .inr ?_⟩
    rw [hEmpty, length_nil] at hSpent
    rw [missing, hStill hNone, if_pos (rfl : (none : Option UInt64) = none)]
    omega
  change b.ensureNextTable p₁ (entryAddress l2 (level2Index va)) = _ at hSnd
  rw [hSnd]
  dsimp only
  have hGrown := hEnsured.grown.trans hEnsured'.grown
  have hLast : table stage1Format p₂.memory roots i (leafPath va) = some l3 := hEnsured'.there
  have hOldLeaf : p₂.memory (entryAddress l3 (level3Index va)) = leafOf p.memory roots i va := by
    rw [← hGrown.leafOf i va]
    exact (entry_of_table hLast (index3 va)).symm
  rw [hOldLeaf]
  split
  · rename_i hTaken
    exact .inr ⟨p₂, _, rfl, hGrown, .inl hTaken⟩
  have hThere := hEnsured'.grown.kept i [index1 va] l2 (by simp) hEnsured.there
  refine .inl ⟨_, rfl, installed_write hGrown hThere hLast hLeaf ?_⟩
  have hSpent' : (p₁.arenas id).pages.length = (p₂.arenas id).pages.length +
      if table stage1Format p₁.memory roots i (leafPath va) = none then 1 else 0 :=
    hEnsured'.spent
  rw [missing, hSpent, hSpent']
  split at hSpent'
  · rename_i hNone
    rw [if_pos hNone, if_pos (hStill hNone)]
    omega
  · rename_i hSome
    rw [if_neg hSome]
    omega

end EarlyStage1Builder

section Pages

variable [DecidableEq ι]

namespace Physical

variable {p p' : Physical} {roots : ι → Option UInt64} {id : ArenaId} {page : UInt64} {i : ι}
  {arena : EarlyPageArena}

/-- A page taken for a new root. -/
theorem Taken.laid_root (h : p.Taken id page p') (hLaid : p.Laid roots) (hNone : roots i = none) :
    p'.Laid (update roots i (some page)) := by
  have hLaid' := h.laid hLaid
  have hBlank := h.blank hLaid
  refine ⟨⟨hLaid'.tables.separate.root hNone (h.ok hLaid) (h.unused hLaid) hBlank, ?_⟩,
    hLaid'.nodup, hLaid'.apart, ?_⟩
  · intro k s c hs
    rw [entry_root hNone hBlank]
    exact hLaid'.tables.leaves k s c hs
  intro id' q hq
  obtain ⟨hOk, hUnused⟩ := hLaid'.fresh id' q hq
  refine ⟨hOk, ?_⟩
  intro k s hs
  rw [table_root hNone hBlank]
  split
  · intro hSame
    cases hSame
    exact h.page_not_mem hLaid id' hq
  · exact hUnused k s hs

theorem Taken.leafOf_root (h : p.Taken id page p') (hLaid : p.Laid roots) (hNone : roots i = none)
    (k : ι) (va : UInt64) :
    leafOf p'.memory (update roots i (some page)) k va = leafOf p.memory roots k va := by
  rw [leafOf, entry_root hNone (h.blank hLaid)]
  exact entry_congr (h.slots hLaid) k (leafPath va) (index3 va) (Nat.le_refl 2)

theorem Laid.drop (h : p.Laid roots) (i : ι) : p.Laid (update roots i none) := by
  refine ⟨⟨h.tables.separate.drop, ?_⟩, h.nodup, h.apart, ?_⟩
  · intro k s c hs
    rw [entry_drop]
    split
    · exact .inl rfl
    · exact h.tables.leaves k s c hs
  · intro id q hq
    obtain ⟨hOk, hUnused⟩ := h.fresh id q hq
    refine ⟨hOk, ?_⟩
    intro k s hs
    rw [table_drop]
    split
    · simp
    · exact hUnused k s hs

omit [DecidableEq ι] in
/-- A page nobody has been supplied with goes on top of an arena. -/
theorem Laid.donate (h : p.Laid roots) (hOk : stage1PhysicalAddress page = true)
    (hNew : ¬ p.Supplied roots page) (hPages : arena.pages = page :: (p.arenas id).pages) :
    ({ p with arenas := update p.arenas id arena } : Physical).Laid roots := by
  have hOutside : ∀ id', page ∉ (p.arenas id').pages := fun id' hMem => hNew (.inr ⟨id', hMem⟩)
  have hCases : ∀ id' q, q ∈ (update p.arenas id arena id').pages →
      q = page ∧ id' = id ∨ q ∈ (p.arenas id').pages := by
    intro id' q hq
    rcases eq_or_ne id' id with rfl | hid
    · rw [update_self, hPages] at hq
      rcases mem_cons.mp hq with rfl | hOld
      · exact .inl ⟨rfl, rfl⟩
      · exact .inr hOld
    · rw [update_of_ne hid] at hq
      exact .inr hq
  refine ⟨h.tables, ?_, ?_, ?_⟩
  · intro id'
    rcases eq_or_ne id' id with rfl | hid
    · show (update p.arenas id' arena id').pages.Nodup
      rw [update_self, hPages]
      exact nodup_cons.mpr ⟨hOutside id', h.nodup id'⟩
    · show (update p.arenas id arena id').pages.Nodup
      rw [update_of_ne hid]
      exact h.nodup id'
  · intro id' id'' hNe q hq hq'
    rcases hCases id' q hq with ⟨rfl, rfl⟩ | hOld
    · rcases hCases id'' q hq' with ⟨-, hSame⟩ | hOld'
      · exact hNe hSame.symm
      · exact hOutside id'' hOld'
    · rcases hCases id'' q hq' with ⟨rfl, rfl⟩ | hOld'
      · exact hOutside id' hOld
      · exact h.apart id' id'' hNe q hOld hOld'
  · intro id' q hq
    rcases hCases id' q hq with ⟨rfl, rfl⟩ | hOld
    · refine ⟨hOk, ?_⟩
      intro k s hs hTbl
      exact hNew (.inl ⟨k, s, hs, hTbl⟩)
    · exact h.fresh id' q hOld

end Physical

end Pages

end Enml.OsKernel
