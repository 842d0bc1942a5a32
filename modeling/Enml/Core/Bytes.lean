import Enml.Core.Result
import Enml.Lib.Buffer
import Enml.Lib.LittleEndian

/-! Little-endian fields of a byte span. Each record format of the system reads
and writes its fields with the same loops, at offsets that its own file lists. -/
namespace Enml.Core

open Buffer LittleEndian

/-- The byte at an offset. Every read is inside the span once its length has
been checked. -/
def spanByte (bytes : List UInt8) (offset : Nat) : UInt8 := bytes.getD offset 0

def readU16Le (bytes : List UInt8) (offset : Nat) : UInt16 :=
  (spanByte bytes offset).toUInt16 ||| ((spanByte bytes (offset + 1)).toUInt16 <<< 8)

def readU32Le (bytes : List UInt8) (offset : Nat) : UInt32 :=
  (List.range 4).foldl
    (fun value i => value ||| ((spanByte bytes (offset + i)).toUInt32 <<< UInt32.ofNat (8 * i))) 0

def readU64Le (bytes : List UInt8) (offset : Nat) : UInt64 :=
  (List.range 8).foldl
    (fun value i => value ||| ((spanByte bytes (offset + i)).toUInt64 <<< UInt64.ofNat (8 * i))) 0

/-- Store `value i` at `offset + i`, for `i` from zero. -/
def storeSpan (out : List UInt8) (offset count : Nat) (value : Nat → UInt8) : List UInt8 :=
  (List.range count).foldl (fun out i => out.set (offset + i) (value i)) out

def writeU16Le (out : List UInt8) (offset : Nat) (value : UInt16) : List UInt8 :=
  (out.set offset (value &&& 0xFF).toUInt8).set (offset + 1) ((value >>> 8) &&& 0xFF).toUInt8

def writeU32Le (out : List UInt8) (offset : Nat) (value : UInt32) : List UInt8 :=
  storeSpan out offset 4 fun i => ((value >>> UInt32.ofNat (8 * i)) &&& 0xFF).toUInt8

def writeU64Le (out : List UInt8) (offset : Nat) (value : UInt64) : List UInt8 :=
  storeSpan out offset 8 fun i => ((value >>> UInt64.ofNat (8 * i)) &&& 0xFF).toUInt8

namespace Errors
def overflow : UInt32 := 1
end Errors

def coreError (code : UInt32) : Error := makeError .core code

def sizeMax : Nat := 2 ^ 64 - 1

def checkedAdd (a b : Nat) : Result Nat :=
  if sizeMax - a < b then .error (coreError Errors.overflow) else .ok (a + b)

def rangeFits (total offset size : Nat) : Bool :=
  decide (offset ≤ total) && decide (size ≤ total - offset)

/-- Fail with an error unless the condition holds. -/
def ensure (condition : Bool) (e : Error) : Result Unit := if condition then .ok () else .error e

@[simp] theorem ensure_eq_ok_iff {condition : Bool} {e : Error} {u : Unit} :
    ensure condition e = .ok u ↔ condition = true := by
  unfold ensure
  split <;> simp_all

section Reads

variable {bytes : List UInt8} {offset : Nat}

theorem map_spanByte {count : Nat} (h : offset + count ≤ bytes.length) :
    ((List.range count).map fun i => spanByte bytes (offset + i)) = slice bytes offset count :=
  map_getD_range 0 h

theorem slice_eq_singleton_iff (h : offset + 1 ≤ bytes.length) {b : UInt8} :
    slice bytes offset 1 = [b] ↔ spanByte bytes offset = b := by
  have hRead : [spanByte bytes offset] = slice bytes offset 1 := map_spanByte h
  rw [← hRead, List.cons.injEq]
  simp

theorem bytesOf_readU16Le (h : offset + 2 ≤ bytes.length) :
    bytesOf 2 (readU16Le bytes offset).toNat = slice bytes offset 2 := by
  have hRead : [spanByte bytes offset, spanByte bytes (offset + 1)] = slice bytes offset 2 :=
    map_spanByte h
  have hValue := bytesOf_valueOf (slice bytes offset 2)
  rw [length_slice h] at hValue
  rw [readU16Le, toNat_or_halves, hRead, hValue]

theorem bytesOf_readU32Le (h : offset + 4 ≤ bytes.length) :
    bytesOf 4 (readU32Le bytes offset).toNat = slice bytes offset 4 := by
  have hValue := bytesOf_valueOf (slice bytes offset 4)
  rw [length_slice h] at hValue
  rw [readU32Le, toNat_foldl_or32 (le_refl 4), map_spanByte h, hValue]

theorem bytesOf_readU64Le (h : offset + 8 ≤ bytes.length) :
    bytesOf 8 (readU64Le bytes offset).toNat = slice bytes offset 8 := by
  have hValue := bytesOf_valueOf (slice bytes offset 8)
  rw [length_slice h] at hValue
  rw [readU64Le, toNat_foldl_or (le_refl 8), map_spanByte h, hValue]

/-- The bytes of a field determine what is read from it, and the other way
round. -/
theorem slice_eq_u16_iff (h : offset + 2 ≤ bytes.length) {value : UInt16} :
    slice bytes offset 2 = bytesOf 2 value.toNat ↔ readU16Le bytes offset = value := by
  rw [← bytesOf_readU16Le h]
  constructor
  · intro hSame
    exact UInt16.toNat_inj.mp (bytesOf_inj (UInt16.toNat_lt _) (UInt16.toNat_lt _) hSame)
  · rintro rfl
    rfl

theorem slice_eq_u32_iff (h : offset + 4 ≤ bytes.length) {value : UInt32} :
    slice bytes offset 4 = bytesOf 4 value.toNat ↔ readU32Le bytes offset = value := by
  rw [← bytesOf_readU32Le h]
  constructor
  · intro hSame
    exact UInt32.toNat_inj.mp (bytesOf_inj (UInt32.toNat_lt _) (UInt32.toNat_lt _) hSame)
  · rintro rfl
    rfl

theorem slice_eq_u64_iff (h : offset + 8 ≤ bytes.length) {value : UInt64} :
    slice bytes offset 8 = bytesOf 8 value.toNat ↔ readU64Le bytes offset = value := by
  rw [← bytesOf_readU64Le h]
  constructor
  · intro hSame
    exact UInt64.toNat_inj.mp (bytesOf_inj (UInt64.toNat_lt _) (UInt64.toNat_lt _) hSame)
  · rintro rfl
    rfl

/-- The same for bytes that hold the number and nothing else. -/
theorem eq_u16_iff (h : bytes.length = 2) (value : UInt16) :
    bytes = bytesOf 2 value.toNat ↔ readU16Le bytes 0 = value := by
  rw [← slice_eq_u16_iff (by omega), slice_whole h]

theorem eq_u32_iff (h : bytes.length = 4) (value : UInt32) :
    bytes = bytesOf 4 value.toNat ↔ readU32Le bytes 0 = value := by
  rw [← slice_eq_u32_iff (by omega), slice_whole h]

theorem eq_u64_iff (h : bytes.length = 8) (value : UInt64) :
    bytes = bytesOf 8 value.toNat ↔ readU64Le bytes 0 = value := by
  rw [← slice_eq_u64_iff (by omega), slice_whole h]

/-- A loop that compares byte by byte. -/
theorem slice_eq_iff_all {expected : List UInt8} (h : offset + expected.length ≤ bytes.length) :
    slice bytes offset expected.length = expected ↔
      ((List.range expected.length).all fun i =>
        spanByte bytes (offset + i) == spanByte expected i) = true := by
  have hExpected : ((List.range expected.length).map fun i => spanByte expected (0 + i)) =
      slice expected 0 expected.length := map_spanByte (by omega)
  rw [slice_whole rfl] at hExpected
  simp only [Nat.zero_add] at hExpected
  conv_lhs => rhs; rw [← hExpected]
  rw [← map_spanByte h, List.map_inj_left, List.all_eq_true]
  simp only [beq_iff_eq]

/-- A loop that looks for a byte that is not zero. -/
theorem slice_eq_replicate_iff {count : Nat} (h : offset + count ≤ bytes.length) :
    slice bytes offset count = List.replicate count 0 ↔
      ((List.range count).all fun i => spanByte bytes (offset + i) == 0) = true := by
  rw [← map_spanByte h, List.eq_replicate_iff, List.all_eq_true]
  simp

theorem slice_eq_vector_iff {count : Nat} (h : offset + count ≤ bytes.length)
    {cells : Vector UInt8 count} :
    slice bytes offset count = cells.toList ↔
      (Vector.ofFn fun i : Fin count => spanByte bytes (offset + i)) = cells := by
  have hRead : (Vector.ofFn fun i : Fin count => spanByte bytes (offset + i)).toList =
      slice bytes offset count := by
    rw [← map_spanByte h]
    refine List.ext_getElem (by simp) fun i _ _ => ?_
    simp
  rw [← hRead, Vector.toList_inj]

end Reads

section Writes

variable {done rest : List UInt8} {offset first second count : Nat} {out : List UInt8}

theorem storeSpan_filled (hOffset : offset = done.length) (value : Nat → UInt8) :
    storeSpan (filled 0 done (first + second) rest) offset first value =
      filled 0 (done ++ (List.range first).map value) second rest :=
  filled_store hOffset value

theorem writeU16Le_filled (hOffset : offset = done.length) (value : UInt16) :
    writeU16Le (filled 0 done (2 + count) rest) offset value =
      filled 0 (done ++ bytesOf 2 value.toNat) count rest := by
  have hSplit : 2 + count = 1 + (1 + count) := by omega
  rw [writeU16Le, hSplit, filled_set hOffset, filled_set (by simp [hOffset]), ← halves_mask,
    List.append_assoc]
  rfl

theorem writeU32Le_filled (hOffset : offset = done.length) (value : UInt32) :
    writeU32Le (filled 0 done (4 + count) rest) offset value =
      filled 0 (done ++ bytesOf 4 value.toNat) count rest := by
  rw [writeU32Le, storeSpan_filled hOffset, map_shift_mask32]

theorem writeU64Le_filled (hOffset : offset = done.length) (value : UInt64) :
    writeU64Le (filled 0 done (8 + count) rest) offset value =
      filled 0 (done ++ bytesOf 8 value.toNat) count rest := by
  rw [writeU64Le, storeSpan_filled hOffset, map_shift_mask]

theorem map_spanByte_vector (cells : Vector UInt8 count) :
    ((List.range count).map fun i => spanByte cells.toList i) = cells.toList := by
  have hLen : cells.toList.length = count := cells.length_toList
  have hSlice : ((List.range count).map fun i => spanByte cells.toList (0 + i)) =
      slice cells.toList 0 count := map_spanByte (by omega)
  rw [slice_whole hLen] at hSlice
  simpa only [Nat.zero_add] using hSlice

/-- Stores to different places may change places. -/
theorem set_storeSpan {place : Nat} (h : place < offset) (value : Nat → UInt8) (b : UInt8) :
    (storeSpan out offset count value).set place b =
      storeSpan (out.set place b) offset count value := by
  unfold storeSpan
  induction count with
  | zero => rfl
  | succ _ ih =>
    rw [List.range_succ, List.foldl_append, List.foldl_append, ← ih]
    exact List.set_comm _ _ (by omega)

theorem writeU16Le_writeU32Le (h : first + 2 ≤ second) (value : UInt16) (above : UInt32) :
    writeU16Le (writeU32Le out second above) first value =
      writeU32Le (writeU16Le out first value) second above := by
  rw [writeU16Le, writeU32Le, set_storeSpan (by omega), set_storeSpan (by omega)]
  rfl

/-- A buffer whose front has been cleared. -/
theorem storeSpan_blank (h : count ≤ out.length) :
    storeSpan out 0 count (fun _ => 0) = filled 0 [] count (out.drop count) := by
  rw [storeSpan, store_front h, filled]
  simp

end Writes

end Enml.Core
