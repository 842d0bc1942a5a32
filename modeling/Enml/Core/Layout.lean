import Enml.Core.Bytes

/-! Records that are laid out field by field, each field with its width and its value.
What is written to a blank record in the order of the fields is its layout, and every
field can be read back from it. -/
namespace Enml.Core

open Buffer LittleEndian List

def layout (fields : List (Nat × Nat)) : List UInt8 := fields.flatMap fun f => bytesOf f.1 f.2

/-- Where the next field starts. -/
def widths (fields : List (Nat × Nat)) : Nat := (fields.map Prod.fst).sum

theorem length_layout (fields : List (Nat × Nat)) : (layout fields).length = widths fields := by
  simp [layout, widths, length_flatMap]

theorem layout_append (front back : List (Nat × Nat)) :
    layout (front ++ back) = layout front ++ layout back := flatMap_append

theorem layout_cons_append (f : Nat × Nat) (fields : List (Nat × Nat)) (behind : List UInt8) :
    layout (f :: fields) ++ behind = bytesOf f.1 f.2 ++ (layout fields ++ behind) := by
  rw [layout, flatMap_cons, append_assoc]
  rfl

/-- A field stands behind those in front of it. -/
theorem slice_layout {fields : List (Nat × Nat)} {i width value : Nat}
    (h : fields[i]? = some (width, value)) :
    slice (layout fields) (widths (fields.take i)) width = bytesOf width value ∧
      widths (fields.take i) + width ≤ (layout fields).length := by
  obtain ⟨hi, hField⟩ := List.getElem?_eq_some_iff.mp h
  have hSplit : layout fields =
      layout (fields.take i) ++ (bytesOf width value ++ layout (fields.drop (i + 1))) := by
    conv_lhs => rw [← take_append_drop i fields, layout_append, drop_eq_getElem_cons hi, hField]
    rfl
  have hFront := length_layout (fields.take i)
  rw [hSplit]
  constructor
  · rw [slice_right (le_of_eq hFront), hFront, Nat.sub_self, slice_left (length_bytesOf ..)]
  · rw [length_append, length_append, length_bytesOf, hFront]
    omega

section

variable {fields : List (Nat × Nat)} {offset : Nat} (i : Nat)

theorem readU16Le_layout {value : UInt16} (h : fields[i]? = some (2, value.toNat))
    (hOffset : offset = widths (fields.take i)) : readU16Le (layout fields) offset = value := by
  obtain ⟨hSlice, hFits⟩ := slice_layout h
  rw [hOffset]
  exact (slice_eq_u16_iff hFits).mp hSlice

theorem readU32Le_layout {value : UInt32} (h : fields[i]? = some (4, value.toNat))
    (hOffset : offset = widths (fields.take i)) : readU32Le (layout fields) offset = value := by
  obtain ⟨hSlice, hFits⟩ := slice_layout h
  rw [hOffset]
  exact (slice_eq_u32_iff hFits).mp hSlice

theorem readU64Le_layout {value : UInt64} (h : fields[i]? = some (8, value.toNat))
    (hOffset : offset = widths (fields.take i)) : readU64Le (layout fields) offset = value := by
  obtain ⟨hSlice, hFits⟩ := slice_layout h
  rw [hOffset]
  exact (slice_eq_u64_iff hFits).mp hSlice

end

/-- The record with its first fields written and `count` bytes to come. -/
def begun (fields : List (Nat × Nat)) (count : Nat) : List UInt8 :=
  filled 0 (layout fields) count []

theorem begun_nil (count : Nat) : begun [] count = replicate count 0 := by
  rw [begun, filled]
  simp [layout]

theorem begun_zero (fields : List (Nat × Nat)) : begun fields 0 = layout fields := by
  rw [begun, filled_zero, append_nil]

section

variable {fields : List (Nat × Nat)} {offset : Nat} (count : Nat)

theorem writeU16Le_begun (hOffset : offset = widths fields) (value : UInt16) :
    writeU16Le (begun fields (2 + count)) offset value =
      begun (fields ++ [(2, value.toNat)]) count := by
  rw [begun, writeU16Le_filled (hOffset.trans (length_layout fields).symm), begun, layout_append]
  simp [layout]

theorem writeU32Le_begun (hOffset : offset = widths fields) (value : UInt32) :
    writeU32Le (begun fields (4 + count)) offset value =
      begun (fields ++ [(4, value.toNat)]) count := by
  rw [begun, writeU32Le_filled (hOffset.trans (length_layout fields).symm), begun, layout_append]
  simp [layout]

theorem writeU64Le_begun (hOffset : offset = widths fields) (value : UInt64) :
    writeU64Le (begun fields (8 + count)) offset value =
      begun (fields ++ [(8, value.toNat)]) count := by
  rw [begun, writeU64Le_filled (hOffset.trans (length_layout fields).symm), begun, layout_append]
  simp [layout]

end

theorem exists_front {out : List UInt8} {count : Nat} (h : count ≤ out.length) :
    ∃ front rest, front.length = count ∧ out = front ++ rest :=
  ⟨out.take count, out.drop count, length_take_of_le h, (take_append_drop ..).symm⟩

/-- A span whose front has been overwritten with `done`. -/
def written (done out : List UInt8) : List UInt8 := done ++ out.drop done.length

theorem length_written {done out : List UInt8} (h : done.length ≤ out.length) :
    (written done out).length = out.length := by
  rw [written, length_append, length_drop]
  omega

theorem take_written {done out : List UInt8} {count : Nat} (h : count = done.length) :
    (written done out).take count = done := by
  rw [written, h, take_left]

theorem written_whole {done out : List UInt8} (h : out.length ≤ done.length) :
    written done out = done := by
  rw [written, drop_of_length_le h, append_nil]

section

variable {done out : List UInt8} {offset : Nat}

theorem storeSpan_written {count : Nat} (hOffset : offset = done.length)
    (hRoom : done.length + count ≤ out.length) (value : Nat → UInt8) :
    storeSpan (written done out) offset count value =
      written (done ++ (range count).map value) out := by
  have hLen : (written done out).length = out.length := length_written (by omega)
  rw [hOffset, storeSpan, store_at (by omega), take_written rfl, written, written,
    drop_append, drop_of_length_le (by omega), nil_append, Nat.add_sub_cancel_left,
    drop_drop, length_append, length_map, length_range, append_assoc]

theorem writeU16Le_written (hOffset : offset = done.length) (hRoom : done.length + 2 ≤ out.length)
    (value : UInt16) :
    writeU16Le (written done out) offset value = written (done ++ bytesOf 2 value.toNat) out := by
  have hStores : ∀ bytes : List UInt8, writeU16Le bytes offset value =
      storeSpan bytes offset 2 fun i =>
        if i = 0 then (value &&& 0xFF).toUInt8 else ((value >>> 8) &&& 0xFF).toUInt8 := fun _ => rfl
  have hBytes : ((range 2).map fun i =>
      if i = 0 then (value &&& 0xFF).toUInt8 else ((value >>> 8) &&& 0xFF).toUInt8) =
      bytesOf 2 value.toNat := halves_mask value
  rw [hStores, storeSpan_written hOffset hRoom, hBytes]

theorem writeU32Le_written (hOffset : offset = done.length) (hRoom : done.length + 4 ≤ out.length)
    (value : UInt32) :
    writeU32Le (written done out) offset value = written (done ++ bytesOf 4 value.toNat) out := by
  rw [writeU32Le, storeSpan_written hOffset hRoom, map_shift_mask32]

theorem writeU64Le_written (hOffset : offset = done.length) (hRoom : done.length + 8 ≤ out.length)
    (value : UInt64) :
    writeU64Le (written done out) offset value = written (done ++ bytesOf 8 value.toNat) out := by
  rw [writeU64Le, storeSpan_written hOffset hRoom, map_shift_mask]

end

end Enml.Core
