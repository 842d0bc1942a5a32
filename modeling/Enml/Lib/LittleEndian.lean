import Mathlib.Data.Nat.Digits.Lemmas
import Mathlib.Data.UInt

/-! Numbers of a fixed width as bytes, least significant first, and the shift
and mask loops that read and write them. -/
namespace LittleEndian

open List

variable {width value i n : ℕ} {byte : ℕ → UInt8}

/-- The low `width` bytes of a number. -/
def bytesOf (width value : ℕ) : List UInt8 :=
  (range width).map fun i => UInt8.ofNat (value / 256 ^ i)

def valueOf (bytes : List UInt8) : ℕ := Nat.ofDigits 256 (bytes.map UInt8.toNat)

@[simp] theorem length_bytesOf (width value : ℕ) : (bytesOf width value).length = width := by
  simp [bytesOf]

theorem bytesOf_succ (width value : ℕ) :
    bytesOf (width + 1) value = UInt8.ofNat value :: bytesOf width (value / 256) := by
  simp [bytesOf, range_succ_eq_map, Function.comp_def, Nat.pow_succ', Nat.div_div_eq_div_mul]

@[simp] theorem valueOf_cons (b : UInt8) (bytes : List UInt8) :
    valueOf (b :: bytes) = b.toNat + 256 * valueOf bytes := by
  simp [valueOf, Nat.ofDigits_cons]

theorem valueOf_append (first second : List UInt8) :
    valueOf (first ++ second) = valueOf first + 256 ^ first.length * valueOf second := by
  simp [valueOf, Nat.ofDigits_append]

theorem valueOf_lt (bytes : List UInt8) : valueOf bytes < 256 ^ bytes.length := by
  induction bytes with
  | nil => simp [valueOf]
  | cons b =>
    have hb := b.toNat_lt
    rw [valueOf_cons, length_cons, Nat.pow_succ']
    omega

theorem bytesOf_valueOf (bytes : List UInt8) : bytesOf bytes.length (valueOf bytes) = bytes := by
  induction bytes with
  | nil => rfl
  | cons b rest ih =>
    have hb := b.toNat_lt
    rw [length_cons, bytesOf_succ, valueOf_cons]
    congr 1
    · refine UInt8.toNat_inj.mp ?_
      rw [UInt8.toNat_ofNat']
      omega
    · rw [show (b.toNat + 256 * valueOf rest) / 256 = valueOf rest by omega, ih]

theorem valueOf_bytesOf (h : value < 256 ^ width) : valueOf (bytesOf width value) = value := by
  induction width generalizing value with
  | zero =>
    have hZero : value = 0 := by simpa using h
    subst hZero
    rfl
  | succ _ ih =>
    rw [Nat.pow_succ'] at h
    rw [bytesOf_succ, valueOf_cons, ih (by omega), UInt8.toNat_ofNat']
    omega

theorem bytesOf_inj {a b : ℕ} (ha : a < 256 ^ width) (hb : b < 256 ^ width)
    (h : bytesOf width a = bytesOf width b) : a = b := by
  rw [← valueOf_bytesOf ha, h, valueOf_bytesOf hb]

theorem toNat_ofNat_bits (hi : i < 8) : (UInt64.ofNat (8 * i)).toNat % 64 = 8 * i := by
  rw [UInt64.toNat_ofNat']
  omega

theorem toNat_ofNat_bits32 (hi : i < 4) : (UInt32.ofNat (8 * i)).toNat % 32 = 8 * i := by
  rw [UInt32.toNat_ofNat']
  omega

theorem pow_bytes (i : ℕ) : 256 ^ i = 2 ^ (8 * i) := by
  rw [pow_mul]
  rfl

theorem byte_shift_lt (b : UInt8) (hi : i < width) : b.toNat <<< (8 * i) < 2 ^ (8 * width) := by
  have hb : b.toNat < 2 ^ 8 := b.toNat_lt
  rw [Nat.shiftLeft_eq]
  calc b.toNat * 2 ^ (8 * i)
    _ < 2 ^ 8 * 2 ^ (8 * i) := Nat.mul_lt_mul_of_pos_right hb (Nat.two_pow_pos _)
    _ = 2 ^ (8 + 8 * i) := (Nat.pow_add 2 8 (8 * i)).symm
    _ ≤ 2 ^ (8 * width) := Nat.pow_le_pow_right (by decide) (by omega)

theorem or_shift (b : UInt8) (h : value < 256 ^ i) :
    value ||| b.toNat <<< (8 * i) = value + 256 ^ i * b.toNat := by
  rw [pow_bytes] at h ⊢
  rw [Nat.or_comm, ← Nat.shiftLeft_add_eq_or_of_lt h, Nat.shiftLeft_eq]
  ring

/-- Adding a byte above a number that is still below it. -/
theorem toNat_or_shift {value : UInt64} {b : UInt8} (hi : i < 8) (hValue : value.toNat < 256 ^ i) :
    (value ||| (b.toUInt64 <<< UInt64.ofNat (8 * i))).toNat =
      value.toNat + 256 ^ i * b.toNat := by
  have hShift : (b.toUInt64 <<< UInt64.ofNat (8 * i)).toNat = b.toNat <<< (8 * i) := by
    rw [UInt64.toNat_shiftLeft, toNat_ofNat_bits hi, UInt8.toNat_toUInt64,
      Nat.mod_eq_of_lt (byte_shift_lt b hi)]
  rw [UInt64.toNat_or, hShift, or_shift b hValue]

theorem toNat_or_shift32 {value : UInt32} {b : UInt8} (hi : i < 4) (hValue : value.toNat < 256 ^ i)
    :
    (value ||| (b.toUInt32 <<< UInt32.ofNat (8 * i))).toNat =
      value.toNat + 256 ^ i * b.toNat := by
  have hShift : (b.toUInt32 <<< UInt32.ofNat (8 * i)).toNat = b.toNat <<< (8 * i) := by
    rw [UInt32.toNat_shiftLeft, toNat_ofNat_bits32 hi, UInt8.toNat_toUInt32,
      Nat.mod_eq_of_lt (byte_shift_lt b hi)]
  rw [UInt32.toNat_or, hShift, or_shift b hValue]

theorem shift_mask (value : UInt64) (hi : i < 8) :
    ((value >>> UInt64.ofNat (8 * i)) &&& 0xFF).toUInt8 = UInt8.ofNat (value.toNat / 256 ^ i) := by
  refine UInt8.toNat_inj.mp ?_
  have hMask : ((value >>> UInt64.ofNat (8 * i)) &&& 0xFF).toNat = value.toNat / 256 ^ i % 256 := by
    rw [UInt64.toNat_and, UInt64.toNat_shiftRight, toNat_ofNat_bits hi, pow_bytes,
      Nat.shiftRight_eq_div_pow]
    exact Nat.and_two_pow_sub_one_eq_mod _ 8
  rw [UInt64.toNat_toUInt8, hMask, UInt8.toNat_ofNat']
  omega

theorem shift_mask32 (value : UInt32) (hi : i < 4) :
    ((value >>> UInt32.ofNat (8 * i)) &&& 0xFF).toUInt8 = UInt8.ofNat (value.toNat / 256 ^ i) := by
  refine UInt8.toNat_inj.mp ?_
  have hMask : ((value >>> UInt32.ofNat (8 * i)) &&& 0xFF).toNat = value.toNat / 256 ^ i % 256 := by
    rw [UInt32.toNat_and, UInt32.toNat_shiftRight, toNat_ofNat_bits32 hi, pow_bytes,
      Nat.shiftRight_eq_div_pow]
    exact Nat.and_two_pow_sub_one_eq_mod _ 8
  rw [UInt32.toNat_toUInt8, hMask, UInt8.toNat_ofNat']
  omega

/-- A loop that puts one byte after the other above what it has read. -/
theorem foldl_put {ω : Type*} {toNat : ω → ℕ} {f : ω → ℕ → UInt8 → ω} {zero : ω} (hn : n ≤ width)
    (hZero : toNat zero = 0)
    (hPut : ∀ w i b, i < width → toNat w < 256 ^ i → toNat (f w i b) = toNat w + 256 ^ i * b.toNat)
    (byte : ℕ → UInt8) :
    toNat ((range n).foldl (fun w i => f w i (byte i)) zero) =
      valueOf ((range n).map byte) := by
  induction n with
  | zero => simpa [valueOf] using hZero
  | succ n ih =>
    have ih := ih (by omega)
    have hLt := valueOf_lt ((range n).map byte)
    rw [length_map, length_range, ← ih] at hLt
    rw [range_succ, foldl_append, map_append, valueOf_append, foldl_cons,
      foldl_nil, hPut _ _ _ (by omega) hLt, ih, length_map, length_range]
    simp [valueOf]

/-- The loop that reads a number byte by byte. -/
theorem toNat_foldl_or (hn : n ≤ 8) :
    ((range n).foldl
        (fun value i => value ||| ((byte i).toUInt64 <<< UInt64.ofNat (8 * i))) 0).toNat =
      valueOf ((range n).map byte) :=
  foldl_put (f := fun value i b => value ||| (b.toUInt64 <<< UInt64.ofNat (8 * i))) hn rfl
    (fun _ _ _ hi hValue => toNat_or_shift hi hValue) byte

theorem toNat_foldl_or32 (hn : n ≤ 4) :
    ((range n).foldl
        (fun value i => value ||| ((byte i).toUInt32 <<< UInt32.ofNat (8 * i))) 0).toNat =
      valueOf ((range n).map byte) :=
  foldl_put (f := fun value i b => value ||| (b.toUInt32 <<< UInt32.ofNat (8 * i))) hn rfl
    (fun _ _ _ hi hValue => toNat_or_shift32 hi hValue) byte

/-- The loop that writes one. -/
theorem map_shift_mask (value : UInt64) :
    ((range 8).map fun i => ((value >>> UInt64.ofNat (8 * i)) &&& 0xFF).toUInt8) =
      bytesOf 8 value.toNat := by
  refine map_congr_left fun i hi => ?_
  exact shift_mask value (mem_range.mp hi)

theorem map_shift_mask32 (value : UInt32) :
    ((range 4).map fun i => ((value >>> UInt32.ofNat (8 * i)) &&& 0xFF).toUInt8) =
      bytesOf 4 value.toNat := by
  refine map_congr_left fun i hi => ?_
  exact shift_mask32 value (mem_range.mp hi)

/-- The two halves of a 16-bit number. -/
theorem toNat_or_halves (low high : UInt8) :
    (low.toUInt16 ||| (high.toUInt16 <<< 8)).toNat = valueOf [low, high] := by
  have hLow : low.toNat < 2 ^ 8 := low.toNat_lt
  have hHigh : high.toNat < 2 ^ 8 := high.toNat_lt
  have hShift : (high.toUInt16 <<< 8).toNat = high.toNat <<< 8 := by
    rw [UInt16.toNat_shiftLeft, UInt8.toNat_toUInt16]
    show high.toNat <<< 8 % 2 ^ 16 = high.toNat <<< 8
    rw [Nat.shiftLeft_eq]
    omega
  rw [UInt16.toNat_or, UInt8.toNat_toUInt16, hShift, Nat.or_comm,
    ← Nat.shiftLeft_add_eq_or_of_lt hLow, Nat.shiftLeft_eq]
  rw [valueOf_cons, valueOf_cons]
  simp [valueOf]
  omega

theorem halves_mask (value : UInt16) :
    [(value &&& 0xFF).toUInt8, ((value >>> 8) &&& 0xFF).toUInt8] = bytesOf 2 value.toNat := by
  have hMask : ∀ v : UInt16, (v &&& 0xFF).toUInt8 = UInt8.ofNat v.toNat := by
    intro v
    refine UInt8.toNat_inj.mp ?_
    have hLow : (v &&& 0xFF).toNat = v.toNat % 256 := by
      rw [UInt16.toNat_and]
      exact Nat.and_two_pow_sub_one_eq_mod _ 8
    rw [UInt16.toNat_toUInt8, hLow, UInt8.toNat_ofNat']
    omega
  have hShift : (value >>> 8).toNat = value.toNat / 256 := by
    rw [UInt16.toNat_shiftRight]
    exact Nat.shiftRight_eq_div_pow value.toNat 8
  rw [bytesOf_succ, bytesOf_succ, hMask, hMask, hShift]
  rfl

end LittleEndian
