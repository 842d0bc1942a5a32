import Enml.Core.Layout

/-! Records that are written and read through a cursor: a writer puts field after field
behind what it has written, as long as there is room, and a reader takes field after
field from the front of what it has not read. -/
namespace Enml.Core

open Buffer LittleEndian
open List hiding Vector

/-- A field that does not fit is not written. -/
def putField (limit : Nat) (e : Error) (done field : List UInt8) : Result (List UInt8) :=
  if limit - done.length < field.length then .error e else .ok (done ++ field)

def putFields (limit : Nat) (e : Error) (done : List UInt8) :
    List (List UInt8) → Result (List UInt8)
  | [] => .ok done
  | field :: rest => do
      let done ← putField limit e done field
      putFields limit e done rest

theorem putFields_eq {limit : Nat} (e : Error) {done : List UInt8} {fields : List (List UInt8)}
    (h : done.length + fields.flatten.length ≤ limit) :
    putFields limit e done fields = .ok (done ++ fields.flatten) := by
  induction fields generalizing done with
  | nil => simp [putFields]
  | cons field rest ih =>
    rw [flatten_cons, length_append] at h
    have hField : putField limit e done field = .ok (done ++ field) := if_neg (by omega)
    have hRest : putFields limit e (done ++ field) rest =
        .ok (done ++ field ++ rest.flatten) := ih (by rw [length_append]; omega)
    rw [putFields, hField, flatten_cons, ← append_assoc]
    exact hRest

/-- The next `size` bytes, as the value they stand for. -/
def takeField {α : Type} (size : Nat) (read : List UInt8 → α) (e : Error) (rest : List UInt8) :
    Result (α × List UInt8) :=
  if rest.length < size then .error e else .ok (read (rest.take size), rest.drop size)

def takeBytes (size : Nat) : Error → List UInt8 → Result (List UInt8 × List UInt8) :=
  takeField size fun field => field

def takeU16 : Error → List UInt8 → Result (UInt16 × List UInt8) :=
  takeField 2 fun field => readU16Le field 0

def takeU32 : Error → List UInt8 → Result (UInt32 × List UInt8) :=
  takeField 4 fun field => readU32Le field 0

def takeU64 : Error → List UInt8 → Result (UInt64 × List UInt8) :=
  takeField 8 fun field => readU64Le field 0

def takeVector (size : Nat) : Error → List UInt8 → Result (Vector UInt8 size × List UInt8) :=
  takeField size fun field => Vector.ofFn fun i : Fin size => spanByte field i

section

variable {e : Error} {rest left : List UInt8}

/-- A value is taken from the bytes it is written as. -/
theorem takeField_eq_ok_iff {α : Type} {size : Nat} {read : List UInt8 → α} {bytes : α → List UInt8}
    (hRead : ∀ field a, field.length = size → (field = bytes a ↔ read field = a))
    (hSize : ∀ a, (bytes a).length = size) (value : α) :
    takeField size read e rest = .ok (value, left) ↔ rest = bytes value ++ left := by
  unfold takeField
  constructor
  · intro h
    split_ifs at h with hShort
    simp only [Except.ok.injEq, Prod.mk.injEq] at h
    have hFront := length_take_of_le (Nat.le_of_not_lt hShort)
    rw [← (hRead _ value hFront).mpr h.1, ← h.2, take_append_drop]
  · rintro rfl
    have hFront : (bytes value ++ left).take size = bytes value := by rw [← hSize value, take_left]
    have hBack : (bytes value ++ left).drop size = left := by rw [← hSize value, drop_left]
    rw [hFront, hBack, (hRead _ value (hSize value)).mp rfl, if_neg]
    rw [length_append, hSize]
    omega

theorem takeBytes_eq_ok_iff {size : Nat} {text : List UInt8} :
    takeBytes size e rest = .ok (text, left) ↔ rest = text ++ left ∧ text.length = size := by
  unfold takeBytes takeField
  constructor
  · intro h
    split_ifs at h with hShort
    cases h
    exact ⟨(take_append_drop size rest).symm, length_take_of_le (Nat.le_of_not_lt hShort)⟩
  · rintro ⟨rfl, rfl⟩
    simp

theorem takeU16_eq_ok_iff {value : UInt16} :
    takeU16 e rest = .ok (value, left) ↔ rest = bytesOf 2 value.toNat ++ left :=
  takeField_eq_ok_iff (fun _ a hLen => eq_u16_iff hLen a) (fun a => length_bytesOf 2 a.toNat) value

theorem takeU32_eq_ok_iff {value : UInt32} :
    takeU32 e rest = .ok (value, left) ↔ rest = bytesOf 4 value.toNat ++ left :=
  takeField_eq_ok_iff (fun _ a hLen => eq_u32_iff hLen a) (fun a => length_bytesOf 4 a.toNat) value

theorem takeU64_eq_ok_iff {value : UInt64} :
    takeU64 e rest = .ok (value, left) ↔ rest = bytesOf 8 value.toNat ++ left :=
  takeField_eq_ok_iff (fun _ a hLen => eq_u64_iff hLen a) (fun a => length_bytesOf 8 a.toNat) value

theorem takeVector_eq_ok_iff {size : Nat} {value : Vector UInt8 size} :
    takeVector size e rest = .ok (value, left) ↔ rest = value.toList ++ left := by
  refine takeField_eq_ok_iff ?_ (fun cells : Vector UInt8 size => cells.length_toList) value
  intro field cells hLen
  have hField : slice field 0 size = cells.toList ↔
      (Vector.ofFn fun i : Fin size => spanByte field (0 + i)) = cells :=
    slice_eq_vector_iff (by omega)
  simpa only [slice_whole hLen, Nat.zero_add] using hField

end

end Enml.Core
