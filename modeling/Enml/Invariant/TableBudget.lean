import Enml.Invariant.Ckx
import Enml.Invariant.PageLoops
import Mathlib.Algebra.Order.BigOperators.Group.List

/-! Two counts of the tables a range needs. The image's budget divides the ends
of the range; the kernel walks its pages and counts the changes of index. For a
range of the lower region they are the same number. -/
namespace Enml

open List

variable {base length : UInt64}

/-- The blocks of `size` bytes that a range, taken as not empty, touches. -/
def spans (size base length : Nat) : Nat := (base + (length - 1)) / size - base / size + 1

namespace OsKernel

/-- What the count is after the pages from `base` to `last`. -/
structure TableCount.Counts (c : TableCount) (base last : Nat) : Prop where
  l1 : c.l1Regions = last / 2 ^ 30 - base / 2 ^ 30 + 1
  l2 : c.l2Regions = last / 2 ^ 21 - base / 2 ^ 21 + 1
  previousL1 : c.previousL1 = some (last / 2 ^ 30 % 512)
  previousL2 : c.previousL2 = some (last / 2 ^ 21 % 512)

theorem TableCount.counts_first (va : UInt64) :
    (({} : TableCount).next va).Counts va.toNat va.toNat := by
  constructor <;> simp [next, level1Index_eq, level2Index_eq]

/-- The next page is in the same tables, or in a new table of the last level, or
in new tables of both. -/
theorem TableCount.Counts.next {c : TableCount} {base last : Nat} (h : c.Counts base last)
    (hBase : base ≤ last) (hAligned : last % 4096 = 0) {va : UInt64}
    (hNext : va.toNat = last + 4096) :
    (c.next va).Counts base va.toNat := by
  obtain ⟨hOne, hTwo⟩ := c.next_previous va
  rw [level1Index_eq] at hOne
  rw [level2Index_eq] at hTwo
  by_cases hFirst : va.toNat / 2 ^ 30 = last / 2 ^ 30
  · have hSameL1 : some (level1Index va) = c.previousL1 := by
      rw [h.previousL1, level1Index_eq, hFirst]
    by_cases hSnd : va.toNat / 2 ^ 21 = last / 2 ^ 21
    · have hSameL2 : some (level2Index va) = c.previousL2 := by
        rw [h.previousL2, level2Index_eq, hSnd]
      have hCnt : c.next va = c := by simp [TableCount.next, hSameL1, hSameL2]
      refine ⟨?_, ?_, hOne, hTwo⟩
      · rw [hCnt, h.l1, hFirst]
      · rw [hCnt, h.l2, hSnd]
    · have hNewL2 : some (level2Index va) ≠ c.previousL2 := by
        rw [h.previousL2, level2Index_eq, ne_eq, Option.some.injEq]
        omega
      refine ⟨?_, ?_, hOne, hTwo⟩
      · simp only [TableCount.next, hSameL1, hNewL2, ne_eq, not_true_eq_false, not_false_eq_true,
          if_true, if_false, h.l1, hFirst]
      · simp only [TableCount.next, hSameL1, hNewL2, ne_eq, not_true_eq_false, not_false_eq_true,
          if_true, if_false, h.l2]
        omega
  · have hNewL1 : some (level1Index va) ≠ c.previousL1 := by
      rw [h.previousL1, level1Index_eq, ne_eq, Option.some.injEq]
      omega
    refine ⟨?_, ?_, hOne, hTwo⟩
    · simp only [TableCount.next, hNewL1, ne_eq, not_false_eq_true, if_true, reduceCtorEq, h.l1]
      omega
    · simp only [TableCount.next, hNewL1, ne_eq, not_false_eq_true, if_true, reduceCtorEq, h.l2]
      omega

theorem counts_through (h : RangeWithin (2 ^ 39) base length) {n : Nat} (hn : n < pageCount length)
    :
    (({} : TableCount).through base (range (n + 1))).Counts base.toNat
      (base.toNat + 4096 * n) := by
  induction n with
  | zero =>
    have hFirst := TableCount.counts_first (pageAt base 0)
    rwa [toNat_pageAt h (by norm_num) hn] at hFirst
  | succ n ih =>
    have hEarlier := ih (by omega)
    have hNat := toNat_pageAt h (by norm_num) hn
    have hAligned := h.1
    have hLast : (base.toNat + 4096 * n) % 4096 = 0 := by omega
    have hNext : (pageAt base (n + 1)).toNat = base.toNat + 4096 * n + 4096 := by
      rw [hNat, Nat.mul_succ, Nat.add_assoc]
    have hCounts := hEarlier.next (Nat.le_add_right _ _) hLast hNext
    rw [hNat] at hCounts
    rw [range_succ, TableCount.through, foldl_append]
    exact hCounts

/-- The kernel asks for one table of the second level for each gigabyte the range
touches and one of the last level for each two megabytes. -/
theorem requiredTablePages_eq (h : RangeWithin (2 ^ 39) base length) :
    requiredTablePages base (pageCount length) =
      spans (2 ^ 30) base.toNat length.toNat + spans (2 ^ 21) base.toNat length.toNat := by
  obtain ⟨hBase, hLen, hPos, hWithin⟩ := h
  obtain ⟨n, hn⟩ : ∃ n, pageCount length = n + 1 := by
    rw [pageCount_eq]
    exact ⟨length.toNat / 4096 - 1, by omega⟩
  have hCounts := counts_through ⟨hBase, hLen, hPos, hWithin⟩ (n := n) (by omega)
  rw [pageCount_eq] at hn
  rw [pageCount_eq, hn]
  change (({} : TableCount).through base (range (n + 1))).l1Regions +
    (({} : TableCount).through base (range (n + 1))).l2Regions = _
  rw [hCounts.l1, hCounts.l2, spans, spans]
  omega

end OsKernel

namespace OsImage

variable {span : UInt64}

/-- The tables a region is charged. -/
def CkxRegion.tables (region : CkxRegion) : Nat :=
  spans (2 ^ 30) region.virtualAddress.toNat region.length.toNat +
    spans (2 ^ 21) region.virtualAddress.toNat region.length.toNat

variable {region : CkxRegion}

/-- The range of a region, which may end at the top of the address space. -/
theorem CkxRegion.Accepted.range {bytes : List UInt8} {row : Nat} (h : region.Accepted bytes row) :
    region.virtualAddress.toNat % 4096 = 0 ∧ region.length.toNat % 4096 = 0 ∧
      0 < region.length.toNat ∧
        region.virtualAddress.toNat + (region.length.toNat - 1) < 2 ^ 64 := by
  have hPos : 0 < region.length.toNat :=
    Nat.pos_of_ne_zero fun hZero => h.length_ne (UInt64.toNat_inj.mp hZero)
  refine ⟨?_, ?_, hPos, (OsKernel.le_max_sub_iff hPos).mp h.within⟩
  · have hAligned := congrArg UInt64.toNat h.aligned
    rwa [UInt64.toNat_mod] at hAligned
  · have hWhole := congrArg UInt64.toNat h.whole
    rwa [UInt64.toNat_mod] at hWhole

/-- The division of the two ends, without a wrap: the last byte is in range, and
the number of spans leaves room for the one that is added. -/
theorem toNat_spansTouched (hPos : 0 < length.toNat)
    (hFits : base.toNat + (length.toNat - 1) < 2 ^ 64) (hSpan : 2 ≤ span.toNat) :
    (spansTouched base length span).toNat = spans span.toNat base.toNat length.toNat := by
  have hSome : length ≠ 0 := by
    rintro rfl
    exact absurd hPos (by decide)
  have hOne : (1 : UInt64).toNat = 1 := rfl
  have hLess : (length - 1).toNat = length.toNat - 1 :=
    UInt64.toNat_sub_of_le _ _ (UInt64.le_iff_toNat_le.mpr hPos)
  have hLast : ((base + (length - 1)) / span).toNat =
      (base.toNat + (length.toNat - 1)) / span.toNat := by
    rw [UInt64.toNat_div, UInt64.toNat_add, hLess, Nat.mod_eq_of_lt hFits]
  have hOrder : base / span ≤ (base + (length - 1)) / span := by
    rw [UInt64.le_iff_toNat_le, hLast, UInt64.toNat_div]
    exact Nat.div_le_div_right (Nat.le_add_right _ _)
  have hHalf : (base.toNat + (length.toNat - 1)) / span.toNat < 2 ^ 63 :=
    calc (base.toNat + (length.toNat - 1)) / span.toNat
        ≤ (base.toNat + (length.toNat - 1)) / 2 := Nat.div_le_div_left hSpan (by norm_num)
      _ < 2 ^ 63 := by omega
  rw [spansTouched, if_neg hSome, spans]
  rw [UInt64.toNat_add, UInt64.toNat_sub_of_le _ _ hOrder, hLast, UInt64.toNat_div, hOne]
  apply Nat.mod_eq_of_lt
  generalize (base.toNat + (length.toNat - 1)) / span.toNat = last at hHalf
  generalize base.toNat / span.toNat = first
  omega

theorem spans_le {size base length : Nat} (hFits : base + (length - 1) < 2 ^ 64) :
    spans size base length ≤ 2 ^ 64 / size + 1 := by
  have hLast : (base + (length - 1)) / size ≤ 2 ^ 64 / size := Nat.div_le_div_right hFits.le
  rw [spans]
  exact Nat.succ_le_succ ((Nat.sub_le _ _).trans hLast)

/-- A sum of 64-bit numbers that has room for its largest term at every turn. -/
theorem toNat_foldl_add {α : Type} {f : α → UInt64} (bound : Nat) {l : List α}
    (hTerms : ∀ a ∈ l, (f a).toNat ≤ bound) {start : UInt64}
    (hRoom : start.toNat + bound * l.length < 2 ^ 64) :
    (l.foldl (fun sum a => sum + f a) start).toNat =
      start.toNat + (l.map fun a => (f a).toNat).sum := by
  induction l generalizing start with
  | nil => simp
  | cons a _ ih =>
    have hFirst := hTerms a mem_cons_self
    rw [length_cons, Nat.mul_succ] at hRoom
    have hSum : (start + f a).toNat = start.toNat + (f a).toNat := by
      rw [UInt64.toNat_add]
      omega
    rw [foldl_cons, ih (fun b hb => hTerms b (mem_cons_of_mem _ hb)) (by omega), hSum,
      map_cons, sum_cons]
    omega

/-- The three sums of the loop, each by itself. -/
theorem foldl_cost (regions : List CkxRegion) (backingPages level2Tables level3Tables : UInt64) :
    regions.foldl (fun (backingPages, level2Tables, level3Tables) region =>
      (backingPages + region.pages,
        level2Tables + spansTouched region.virtualAddress region.length level1Span,
        level3Tables + spansTouched region.virtualAddress region.length level2Span))
      (backingPages, level2Tables, level3Tables) =
    (regions.foldl (fun sum region => sum + region.pages) backingPages,
      regions.foldl (fun sum region =>
        sum + spansTouched region.virtualAddress region.length level1Span) level2Tables,
      regions.foldl (fun sum region =>
        sum + spansTouched region.virtualAddress region.length level2Span) level3Tables) := by
  induction regions generalizing backingPages level2Tables level3Tables with
  | nil => rfl
  | cons _ _ ih => exact ih _ _ _

theorem sum_map_le {α : Type} {f : α → Nat} {bound : Nat} {l : List α}
    (h : ∀ a ∈ l, f a ≤ bound) : (l.map f).sum ≤ bound * l.length := by
  have hSum := sum_le_card_nsmul (l.map f) bound (by
    intro x hx
    obtain ⟨a, ha, rfl⟩ := mem_map.mp hx
    exact h a ha)
  rw [length_map] at hSum
  rw [Nat.mul_comm]
  exact hSum

section Cost

variable {bytes : List UInt8} {image : CkxImage}

theorem toNat_spans_of_accepted (h : image.Accepted bytes) (hSpan : 2 ≤ span.toNat)
    (hMem : region ∈ image.used) :
    (spansTouched region.virtualAddress region.length span).toNat =
      spans span.toNat region.virtualAddress.toNat region.length.toNat := by
  obtain ⟨row, hRow⟩ := h.region hMem
  obtain ⟨-, -, hPos, hFits⟩ := hRow.range
  exact toNat_spansTouched hPos hFits hSpan

/-- A region of at most the whole address space. -/
theorem spans_le_of_accepted (h : image.Accepted bytes) (hSpan : 2 ^ 21 ≤ span.toNat)
    (hMem : region ∈ image.used) :
    spans span.toNat region.virtualAddress.toNat region.length.toNat ≤ 2 ^ 44 := by
  obtain ⟨row, hRow⟩ := h.region hMem
  have hSpans : spans span.toNat region.virtualAddress.toNat region.length.toNat ≤
      2 ^ 64 / span.toNat + 1 := spans_le hRow.range.2.2.2
  have hDivide : 2 ^ 64 / span.toNat ≤ 2 ^ 64 / 2 ^ 21 := Nat.div_le_div_left hSpan (by norm_num)
  omega

theorem toNat_foldl_spans (h : image.Accepted bytes) (hSpan : 2 ^ 21 ≤ span.toNat) :
    (image.used.foldl (fun sum region =>
        sum + spansTouched region.virtualAddress region.length span) 0).toNat =
      (image.used.map fun region =>
        spans span.toNat region.virtualAddress.toNat region.length.toNat).sum := by
  have hTerm : ∀ region ∈ image.used,
      (spansTouched region.virtualAddress region.length span).toNat =
        spans span.toNat region.virtualAddress.toNat region.length.toNat :=
    fun region hMem => toNat_spans_of_accepted h (by omega) hMem
  have hCnt := h.count_le
  rw [maxCkxRegions] at hCnt
  have hZero : (0 : UInt64).toNat = 0 := rfl
  rw [toNat_foldl_add (2 ^ 44) (fun region hMem => ?_) (by omega), hZero, Nat.zero_add,
    map_congr_left hTerm]
  rw [hTerm region hMem]
  exact spans_le_of_accepted h hSpan hMem

/-- The budget is the sum in exact arithmetic. -/
theorem toNat_cost (h : image.Accepted bytes) :
    (aarch64ConstructionCost image).backingPages.toNat =
        (image.used.map fun region => region.length.toNat / 4096).sum ∧
      (aarch64ConstructionCost image).tablePages.toNat =
        1 + (image.used.map CkxRegion.tables).sum := by
  have hCnt := h.count_le
  rw [maxCkxRegions] at hCnt
  have hZero : (0 : UInt64).toNat = 0 := rfl
  have hOne : (1 : UInt64).toNat = 1 := rfl
  have hLevel1 : level1Span.toNat = 2 ^ 30 := rfl
  have hLevel2 : level2Span.toNat = 2 ^ 21 := rfl
  rw [aarch64ConstructionCost, foldl_cost]
  constructor
  · have hPages : ∀ region ∈ image.used, region.pages.toNat = region.length.toNat / 4096 :=
      fun region _ => UInt64.toNat_div _ _
    rw [toNat_foldl_add (2 ^ 52) (fun region hMem => ?_) (by omega), hZero, Nat.zero_add,
      map_congr_left hPages]
    rw [hPages region hMem]
    have := region.length.toNat_lt
    omega
  · have hFirst := toNat_foldl_spans h (hLevel1 ▸ by norm_num : 2 ^ 21 ≤ level1Span.toNat)
    have hSnd := toNat_foldl_spans h (hLevel2 ▸ by norm_num : 2 ^ 21 ≤ level2Span.toNat)
    have hSums : (image.used.map CkxRegion.tables).sum =
        (image.used.map fun region =>
          spans level1Span.toNat region.virtualAddress.toNat region.length.toNat).sum +
        (image.used.map fun region =>
          spans level2Span.toNat region.virtualAddress.toNat region.length.toNat).sum :=
      sum_map_add
    have hFirstLe := sum_map_le fun region hMem =>
      spans_le_of_accepted h (hLevel1 ▸ by norm_num : 2 ^ 21 ≤ level1Span.toNat) hMem
    have hSndLe := sum_map_le fun region hMem =>
      spans_le_of_accepted h (hLevel2 ▸ by norm_num : 2 ^ 21 ≤ level2Span.toNat) hMem
    rw [UInt64.toNat_add, UInt64.toNat_add, hFirst, hSnd, hOne, hSums]
    omega

end Cost

end OsImage

end Enml
