import Enml.Invariant.Addresses
import Enml.Lib.RadixTable

/-! The stage-1 tables as tables of tables: a page holds 512 entries, an entry
above the last level is zero or a page with the two low bits set, and a virtual
address is a path of two indices and the index of its leaf. -/
namespace Enml.OsKernel

open RadixTable Memory Descriptor

variable {c p q : UInt64}

theorem or_and_distrib (a b c : UInt64) : (a ||| b) &&& c = a &&& c ||| b &&& c := by
  apply UInt64.toBitVec_inj.mp
  simp only [UInt64.toBitVec_and, UInt64.toBitVec_or]
  exact BitVec.and_or_distrib_right

theorem or_and_ne_zero_left {a : UInt64} (h : a &&& c ≠ 0) (b : UInt64) : (a ||| b) &&& c ≠ 0 := by
  rw [or_and_distrib, ne_eq, UInt64.or_eq_zero_iff]
  exact fun hBoth => h hBoth.1

theorem or_and_ne_zero_right {b : UInt64} (h : b &&& c ≠ 0) (a : UInt64) : (a ||| b) &&& c ≠ 0 := by
  rw [or_and_distrib, ne_eq, UInt64.or_eq_zero_iff]
  exact fun hBoth => h hBoth.2

/-- An address a descriptor can hold is what the address field of it holds. -/
theorem and_pageAddressMask (h : stage1PhysicalAddress p = true) : p &&& pageAddressMask = p := by
  have hOutside : p &&& ~~~pageAddressMask = 0 := by
    simp only [stage1PhysicalAddress, Bool.and_eq_true, beq_iff_eq] at h
    exact h.2
  have hAll : p = p &&& pageAddressMask ||| p &&& ~~~pageAddressMask := by
    apply UInt64.toBitVec_inj.mp
    simp only [UInt64.toBitVec_and, UInt64.toBitVec_or, UInt64.toBitVec_not,
      ← BitVec.and_or_distrib_left]
    exact BitVec.and_allOnes.symm
  rw [hOutside, UInt64.or_zero] at hAll
  exact hAll.symm

theorem toNat_entryAddress (hp : stage1PhysicalAddress p = true) (i : Fin 512) :
    (entryAddress p i).toNat = p.toNat + 8 * i := by
  obtain ⟨-, hBelow⟩ := (stage1PhysicalAddress_iff p).mp hp
  have hIdx : (UInt64.ofNat i.val).toNat = i := by
    rw [UInt64.toNat_ofNat', Nat.mod_eq_of_lt (by have := i.isLt; omega)]
  have hEight : (8 : UInt64).toNat = 8 := rfl
  rw [entryAddress, UInt64.toNat_add, UInt64.toNat_mul, hIdx, hEight]
  have := i.isLt
  omega

/-- A table entry that names the next table. -/
def tableDescriptor (page : UInt64) : UInt64 := page ||| valid ||| tableOrPage

theorem tableDescriptor_valid (page : UInt64) : tableDescriptor page &&& valid ≠ 0 :=
  or_and_ne_zero_left (or_and_ne_zero_right (by decide) page) _

theorem tableDescriptor_tableOrPage (page : UInt64) : tableDescriptor page &&& tableOrPage ≠ 0 :=
  or_and_ne_zero_right (by decide) _

theorem tableDescriptor_address {page : UInt64} (h : stage1PhysicalAddress page = true) :
    tableDescriptor page &&& pageAddressMask = page := by
  have hValid : valid &&& pageAddressMask = 0 := by decide
  have hTbl : tableOrPage &&& pageAddressMask = 0 := by decide
  rw [tableDescriptor, or_and_distrib, or_and_distrib, hValid, hTbl, UInt64.or_zero,
    UInt64.or_zero, and_pageAddressMask h]

def stage1Format : Format UInt64 (Fin 512) UInt64 UInt64 where
  slot p i := entryAddress p i
  blank := 0
  encode := tableDescriptor
  decode e := if e &&& valid = 0 then none else some (e &&& pageAddressMask)
  ok p := stage1PhysicalAddress p = true
  decode_blank := by decide
  decode_encode p hp := by rw [if_neg (tableDescriptor_valid p), tableDescriptor_address hp]
  slot_inj p q i j hp hq hSlot := by
    have hNat := congrArg UInt64.toNat hSlot
    rw [toNat_entryAddress hp, toNat_entryAddress hq] at hNat
    obtain ⟨hAlignedP, -⟩ := (stage1PhysicalAddress_iff p).mp hp
    obtain ⟨hAlignedQ, -⟩ := (stage1PhysicalAddress_iff q).mp hq
    have := i.isLt
    have := j.isLt
    constructor
    · apply UInt64.toNat_inj.mp
      omega
    · apply Fin.ext
      omega

theorem write_eq_update (m : Memory) (address value : UInt64) :
    m.write address value = Function.update m address value := by
  funext a
  simp only [write, Function.update_apply]

/-- Zeroing a page leaves the entries of every other table. -/
theorem zeroTable_slot_ne {m : Memory} (hp : stage1PhysicalAddress p = true)
    (hq : stage1PhysicalAddress q = true) (hNe : p ≠ q) (i : Fin 512) :
    m.zeroTable q (stage1Format.slot p i) = m (stage1Format.slot p i) := by
  have hSlot := toNat_entryAddress hp i
  obtain ⟨hAlignedP, hBelow⟩ := (stage1PhysicalAddress_iff p).mp hp
  obtain ⟨hAlignedQ, -⟩ := (stage1PhysicalAddress_iff q).mp hq
  have hApart : p.toNat ≠ q.toNat := fun hSame => hNe (UInt64.toNat_inj.mp hSame)
  rw [zeroTable, zeroRange, if_neg]
  rintro ⟨hLower, hUpper⟩
  have hPage : architecturalPageSize.toNat = 4096 := rfl
  change q ≤ entryAddress p i at hLower
  change entryAddress p i - q < architecturalPageSize at hUpper
  rw [UInt64.le_iff_toNat_le, hSlot] at hLower
  rw [UInt64.lt_iff_toNat_lt, UInt64.toNat_sub, hSlot, hPage] at hUpper
  have := i.isLt
  have := q.toNat_lt
  omega

theorem zeroTable_slot_self {m : Memory} (hq : stage1PhysicalAddress q = true) (i : Fin 512) :
    m.zeroTable q (stage1Format.slot q i) = 0 := by
  have hSlot := toNat_entryAddress hq i
  obtain ⟨-, hBelow⟩ := (stage1PhysicalAddress_iff q).mp hq
  have hPage : architecturalPageSize.toNat = 4096 := rfl
  rw [zeroTable, zeroRange, if_pos]
  constructor
  · change q ≤ entryAddress q i
    rw [UInt64.le_iff_toNat_le, hSlot]
    omega
  change entryAddress q i - q < architecturalPageSize
  rw [UInt64.lt_iff_toNat_lt, UInt64.toNat_sub, hSlot, hPage]
  have := i.isLt
  omega

theorem toNat_and_indexMask (v : UInt64) : (v &&& 0x1FF).toNat = v.toNat % 512 := by
  rw [UInt64.toNat_and]
  exact Nat.and_two_pow_sub_one_eq_mod v.toNat 9

theorem level1Index_eq (va : UInt64) : level1Index va = va.toNat / 2 ^ 30 % 512 := by
  rw [level1Index, toNat_and_indexMask, UInt64.toNat_shiftRight, Nat.shiftRight_eq_div_pow]
  rfl

theorem level2Index_eq (va : UInt64) : level2Index va = va.toNat / 2 ^ 21 % 512 := by
  rw [level2Index, toNat_and_indexMask, UInt64.toNat_shiftRight, Nat.shiftRight_eq_div_pow]
  rfl

theorem level3Index_eq (va : UInt64) : level3Index va = va.toNat / 2 ^ 12 % 512 := by
  rw [level3Index, toNat_and_indexMask, UInt64.toNat_shiftRight, Nat.shiftRight_eq_div_pow]
  rfl

def index1 (va : UInt64) : Fin 512 :=
  ⟨level1Index va, by rw [level1Index_eq]; exact Nat.mod_lt _ (by decide)⟩

def index2 (va : UInt64) : Fin 512 :=
  ⟨level2Index va, by rw [level2Index_eq]; exact Nat.mod_lt _ (by decide)⟩

def index3 (va : UInt64) : Fin 512 :=
  ⟨level3Index va, by rw [level3Index_eq]; exact Nat.mod_lt _ (by decide)⟩

/-- The path to the last table of an address. -/
def leafPath (va : UInt64) : List (Fin 512) := [index2 va, index1 va]

/-- A page of the lower region is named by its three indices. -/
theorem eq_of_indices {va va' : UInt64} (ha : va.toNat % 4096 = 0) (ha' : va'.toNat % 4096 = 0)
    (hb : va.toNat < 2 ^ 39) (hb' : va'.toNat < 2 ^ 39) (hPath : leafPath va = leafPath va')
    (hIdx : index3 va = index3 va') : va = va' := by
  simp only [leafPath, List.cons.injEq, and_true, index1, index2, Fin.mk.injEq, level1Index_eq,
    level2Index_eq] at hPath
  simp only [index3, Fin.mk.injEq, level3Index_eq] at hIdx
  obtain ⟨hSnd, hFirst⟩ := hPath
  apply UInt64.toNat_inj.mp
  omega

end Enml.OsKernel
