import Mathlib.Tactic.Linarith
import Enml.OsKernel.MappingState

/-! Addresses as numbers: what the mask tests of the page-table code say about
the value, and what its 64-bit comparisons say about ranges that do not wrap. -/
namespace Enml.OsKernel

variable {base length a b : UInt64}

theorem pageAligned_iff (v : UInt64) : pageAligned v = true ↔ v.toNat % 4096 = 0 := by
  have hAnd : (v &&& pageMask).toNat = v.toNat % 4096 := by
    rw [UInt64.toNat_and]
    exact Nat.and_two_pow_sub_one_eq_mod v.toNat 12
  rw [pageAligned, beq_iff_eq, ← UInt64.toNat_inj, hAnd]
  rfl

/-- The bits outside the address field are the low twelve and the high sixteen. -/
theorem and_outside_eq_zero_iff {n : Nat} (h : n < 2 ^ 64) :
    n &&& 0xFFFF000000000FFF = 0 ↔ n % 4096 = 0 ∧ n < 2 ^ 48 := by
  have hLow : (n &&& 0xFFFF000000000FFF) % 2 ^ 12 = n % 4096 := by
    rw [Nat.and_mod_two_pow]
    have hMask : 0xFFFF000000000FFF % 2 ^ 12 = 2 ^ 12 - 1 := by norm_num
    rw [hMask, Nat.and_two_pow_sub_one_of_lt_two_pow (Nat.mod_lt _ (by norm_num))]
  have hMiddle : (n &&& 0xFFFF000000000FFF) / 2 ^ 12 % 2 ^ 36 = 0 := by
    rw [Nat.and_div_two_pow, Nat.and_mod_two_pow]
    have hMask : 0xFFFF000000000FFF / 2 ^ 12 % 2 ^ 36 = 0 := by norm_num
    rw [hMask, Nat.and_zero]
  have hHigh : (n &&& 0xFFFF000000000FFF) / 2 ^ 48 = n / 2 ^ 48 := by
    rw [Nat.and_div_two_pow]
    have hMask : 0xFFFF000000000FFF / 2 ^ 48 = 2 ^ 16 - 1 := by norm_num
    rw [hMask, Nat.and_two_pow_sub_one_of_lt_two_pow]
    omega
  omega

theorem stage1PhysicalAddress_iff (v : UInt64) :
    stage1PhysicalAddress v = true ↔ v.toNat % 4096 = 0 ∧ v.toNat < 2 ^ 48 := by
  have hAligned : v &&& 0xFFF == 0 ↔ v.toNat % 4096 = 0 := pageAligned_iff v
  have hOutside : v &&& ~~~0x0000FFFFFFFFF000 = 0 ↔ v.toNat % 4096 = 0 ∧ v.toNat < 2 ^ 48 := by
    rw [← UInt64.toNat_inj, UInt64.toNat_and]
    exact and_outside_eq_zero_iff v.toNat_lt
  rw [stage1PhysicalAddress, Bool.and_eq_true, hAligned, beq_iff_eq, hOutside]
  tauto

theorem stage1VirtualAddress_iff (v : UInt64) :
    stage1VirtualAddress v = true ↔ v.toNat < 2 ^ 39 := by
  rw [stage1VirtualAddress, decide_eq_true_iff, UInt64.lt_iff_toNat_lt]
  rfl

/-- A range the mapping code accepts: whole pages, below `limit`, not empty. -/
def RangeWithin (limit : Nat) (base length : UInt64) : Prop :=
  base.toNat % 4096 = 0 ∧ length.toNat % 4096 = 0 ∧ 0 < length.toNat ∧
    base.toNat + length.toNat ≤ limit

theorem toNat_add_sub_page (hLen : length.toNat % 4096 = 0) (hPos : 0 < length.toNat)
    (hFits : base.toNat + (length.toNat - 1) < 2 ^ 64) :
    (base + length - architecturalPageSize).toNat = base.toNat + length.toNat - 4096 := by
  have hPage : architecturalPageSize.toNat = 4096 := rfl
  rw [UInt64.toNat_sub, UInt64.toNat_add, hPage]
  omega

/-- The test that a sum leaves 64 bits. -/
theorem max_sub_lt_iff : 0xFFFFFFFFFFFFFFFF - a < b ↔ 2 ^ 64 ≤ a.toNat + b.toNat := by
  have hMax : (0xFFFFFFFFFFFFFFFF : UInt64).toNat = 2 ^ 64 - 1 := rfl
  have hA := a.toNat_lt
  rw [UInt64.lt_iff_toNat_lt, UInt64.toNat_sub, hMax]
  omega

/-- The comparison against `UINT64_MAX - (length - 1)`. -/
theorem le_max_sub_iff (hPos : 0 < length.toNat) :
    base ≤ 0xFFFFFFFFFFFFFFFF - (length - 1) ↔ base.toNat + (length.toNat - 1) < 2 ^ 64 := by
  have hOne : (1 : UInt64).toNat = 1 := rfl
  have hLess : (length - 1).toNat = length.toNat - 1 := by
    rw [UInt64.toNat_sub, hOne]
    have := length.toNat_lt
    omega
  rw [← UInt64.not_lt, max_sub_lt_iff, hLess]
  omega

theorem ne_zero_iff (v : UInt64) : (v != 0) = true ↔ 0 < v.toNat := by
  rw [bne_iff_ne, ne_eq, ← UInt64.toNat_inj]
  exact Nat.pos_iff_ne_zero.symm

theorem physicalRangeValid_iff (base length : UInt64) :
    physicalRangeValid base length = true ↔ RangeWithin (2 ^ 48) base length := by
  simp only [physicalRangeValid, Bool.and_eq_true, ne_zero_iff, pageAligned_iff,
    stage1PhysicalAddress_iff, decide_eq_true_iff, RangeWithin]
  constructor
  · rintro ⟨⟨⟨⟨⟨hPos, hLen⟩, hBase⟩, -, hBelow⟩, hFits⟩, -, hLast⟩
    rw [le_max_sub_iff hPos] at hFits
    rw [toNat_add_sub_page hLen hPos hFits] at hLast
    omega
  rintro ⟨hBase, hLen, hPos, hWithin⟩
  have hFits : base.toNat + (length.toNat - 1) < 2 ^ 64 := by omega
  rw [le_max_sub_iff hPos, toNat_add_sub_page hLen hPos hFits]
  omega

theorem MapRequest.rangeValid_iff (r : MapRequest) :
    r.rangeValid = true ↔ RangeWithin (2 ^ 48) r.physicalBase r.length ∧
        RangeWithin (2 ^ 39) r.virtualBase r.length := by
  simp only [rangeValid, Bool.and_eq_true, physicalRangeValid_iff, pageAligned_iff,
    stage1VirtualAddress_iff, decide_eq_true_iff]
  constructor
  · rintro ⟨⟨⟨⟨hPhys, hBase⟩, hBelow⟩, hFits⟩, hLast⟩
    have hLen := hPhys.2.1
    have hPos := hPhys.2.2.1
    rw [le_max_sub_iff hPos] at hFits
    rw [toNat_add_sub_page hLen hPos hFits] at hLast
    refine ⟨hPhys, hBase, hLen, hPos, ?_⟩
    omega
  · rintro ⟨hPhys, hBase, hLen, hPos, hWithin⟩
    have hFits : r.virtualBase.toNat + (r.length.toNat - 1) < 2 ^ 64 := by omega
    rw [le_max_sub_iff hPos, toNat_add_sub_page hLen hPos hFits]
    refine ⟨⟨⟨⟨hPhys, hBase⟩, ?_⟩, hFits⟩, ?_⟩
    all_goals omega

/-- On ranges that do not wrap, `overlap` is the overlap of the two intervals. -/
theorem overlaps_iff {la lb : UInt64} (ha : a.toNat + la.toNat < 2 ^ 64)
    (hb : b.toNat + lb.toNat < 2 ^ 64) :
    overlaps a la b lb = true ↔
      a.toNat < b.toNat + lb.toNat ∧ b.toNat < a.toNat + la.toNat := by
  have hA : (a + la).toNat = a.toNat + la.toNat := by rw [UInt64.toNat_add, Nat.mod_eq_of_lt ha]
  have hB : (b + lb).toNat = b.toNat + lb.toNat := by rw [UInt64.toNat_add, Nat.mod_eq_of_lt hb]
  rw [overlaps, Bool.and_eq_true, decide_eq_true_iff, decide_eq_true_iff,
    UInt64.lt_iff_toNat_lt, UInt64.lt_iff_toNat_lt, hA, hB]

theorem RangeWithin.lt {limit : Nat} (h : RangeWithin limit base length) (hLimit : limit < 2 ^ 64) :
    base.toNat + length.toNat < 2 ^ 64 :=
  h.2.2.2.trans_lt hLimit

end Enml.OsKernel
