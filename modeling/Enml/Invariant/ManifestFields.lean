import Enml.Core.Layout
import Enml.OsPackage.Analyzer

/-! What the readers and the text parsers of the manifest accept, and that they stay
inside the bytes they are given. -/
namespace Enml.OsPackage

open Enml.Core LittleEndian Buffer List Reader

variable {text : List UInt8}

def idCharacter (value : UInt8) : Bool :=
  asciiLower value || asciiDigit value || value == 45 || value == 95

/-- A segment of a package identifier starts with a letter. -/
def idSegment : List UInt8 → Bool
  | [] => false
  | first :: rest => asciiLower first && rest.all idCharacter

/-- Dots separate the segments of a package identifier. -/
structure ValidPackageId (text : List UInt8) : Prop where
  size : text.length ≤ maxPackageIdBytes
  segments : ∀ segment ∈ text.splitOn 46, idSegment segment = true

/-- Slashes separate the segments of a path. -/
structure ValidPath (text : List UInt8) : Prop where
  size : text.length ≤ maxManifestPathBytes
  characters : ∀ value ∈ text, value = 47 ∨ pathCharacterAllowed value = true
  segments : ∀ segment ∈ text.splitOn 47, segmentAllowed segment = true

theorem packageIdRest_eq_true (text : List UInt8) :
    (packageIdRest true text = true ↔ ∀ segment ∈ text.splitOn 46, idSegment segment = true) ∧
    (packageIdRest false text = true ↔ ∃ first more, text.splitOn 46 = first :: more ∧
      first.all idCharacter = true ∧ ∀ segment ∈ more, idSegment segment = true) := by
  induction text with
  | nil => simp [packageIdRest, idSegment]
  | cons value rest ih =>
    obtain ⟨ihStart, ihInside⟩ := ih
    obtain ⟨first, more, hSplit⟩ := exists_cons_of_ne_nil (splitOn_ne_nil 46 rest)
    rw [hSplit] at ihStart ihInside
    have hInside : packageIdRest false rest = true ↔
        first.all idCharacter = true ∧ ∀ segment ∈ more, idSegment segment = true := by
      rw [ihInside]
      constructor
      · rintro ⟨first', more', hEq, h⟩
        cases hEq
        exact h
      · intro h
        exact ⟨first, more, rfl, h⟩
    by_cases hDot : value = 46
    · have hNew : (value :: rest).splitOn 46 = [] :: first :: more := by
        rw [splitOn_cons_eq_if_modifyHead, if_pos (by simp [hDot]), hSplit]
      rw [hNew]
      constructor
      · simp [packageIdRest, hDot, idSegment, asciiLower]
      rw [packageIdRest, if_pos hDot, ihStart]
      constructor
      · intro h
        exact ⟨_, _, rfl, rfl, h⟩
      · rintro ⟨first', more', hEq, -, h⟩
        cases hEq
        exact h
    · have hNew : (value :: rest).splitOn 46 = (value :: first) :: more := by
        rw [splitOn_cons_eq_if_modifyHead, if_neg (by simp [hDot]), hSplit]
        rfl
      rw [hNew]
      constructor
      · rw [packageIdRest, Bool.and_eq_true, hInside]
        simp [idSegment, and_assoc]
      rw [packageIdRest, if_neg hDot, Bool.and_eq_true, hInside]
      constructor
      · rintro ⟨hValue, hFirst, hMore⟩
        refine ⟨_, _, rfl, ?_, hMore⟩
        rw [all_cons, Bool.and_eq_true]
        exact ⟨hValue, hFirst⟩
      rintro ⟨first', more', hEq, hFirst, hMore⟩
      cases hEq
      rw [all_cons, Bool.and_eq_true] at hFirst
      exact ⟨hFirst.1, hFirst.2, hMore⟩

theorem packageIdText_iff (text : List UInt8) :
    packageIdText text = true ↔ ValidPackageId text := by
  rw [packageIdText, Bool.and_eq_true, Bool.and_eq_true, decide_eq_true_eq,
    (packageIdRest_eq_true text).1]
  constructor
  · rintro ⟨⟨-, hSize⟩, hSegments⟩
    exact ⟨hSize, hSegments⟩
  rintro ⟨hSize, hSegments⟩
  refine ⟨⟨?_, hSize⟩, hSegments⟩
  cases text with
  | nil => exact absurd (hSegments [] (by simp)) (by decide)
  | cons => rfl

theorem manifestPathRest_eq_true (text : List UInt8) (segment : List UInt8) :
    manifestPathRest segment text = true ↔
      (∀ value ∈ text, value = 47 ∨ pathCharacterAllowed value = true) ∧
      ∀ s ∈ (text.splitOn 47).modifyHead (segment ++ ·), segmentAllowed s = true := by
  induction text generalizing segment with
  | nil => simp [manifestPathRest]
  | cons value rest ih =>
    obtain ⟨first, more, hSplit⟩ := exists_cons_of_ne_nil (splitOn_ne_nil 47 rest)
    by_cases hSlash : value = 47
    · have hNew : (value :: rest).splitOn 47 = [] :: first :: more := by
        rw [splitOn_cons_eq_if_modifyHead, if_pos (by simp [hSlash]), hSplit]
      rw [manifestPathRest, if_pos hSlash, Bool.and_eq_true, ih, hNew, hSplit]
      simp only [modifyHead_cons, append_nil, nil_append, forall_mem_cons,
        hSlash, true_or, true_and]
      tauto
    · have hNew : (value :: rest).splitOn 47 = (value :: first) :: more := by
        rw [splitOn_cons_eq_if_modifyHead, if_neg (by simp [hSlash]), hSplit]
        rfl
      rw [manifestPathRest, if_neg hSlash, Bool.and_eq_true, ih, hNew, hSplit]
      simp only [modifyHead_cons, append_assoc, singleton_append, forall_mem_cons, hSlash, false_or]
      tauto

theorem getLast_of_rest {segment : List UInt8} (h : manifestPathRest segment text = true) :
    text.getLast? ≠ some 47 := by
  induction text generalizing segment with
  | nil => simp
  | cons value rest ih =>
    rw [manifestPathRest] at h
    cases rest with
    | nil =>
      intro hLast
      have hSlash : value = 47 := by simpa using hLast
      rw [if_pos hSlash, Bool.and_eq_true] at h
      exact absurd h.2 (by decide)
    | cons =>
      rw [getLast?_cons_cons]
      split_ifs at h with hSlash
      all_goals exact ih (Bool.and_eq_true _ _ ▸ h).2

/-- The checks on the two ends say nothing the segments do not say. -/
theorem manifestPathText_iff (text : List UInt8) :
    manifestPathText text = true ↔ ValidPath text := by
  have hRest := manifestPathRest_eq_true text []
  have hSame : (text.splitOn 47).modifyHead (([] : List UInt8) ++ ·) = text.splitOn 47 := by
    cases text.splitOn 47 <;> rfl
  rw [hSame] at hRest
  constructor
  · intro h
    simp only [manifestPathText, Bool.and_eq_true, decide_eq_true_eq] at h
    obtain ⟨hCharacters, hSegments⟩ := hRest.mp h.2
    exact ⟨h.1.1.1.2, hCharacters, hSegments⟩
  rintro ⟨hSize, hCharacters, hSegments⟩
  have hAll := hRest.mpr ⟨hCharacters, hSegments⟩
  have hLast := getLast_of_rest hAll
  simp only [manifestPathText, Bool.and_eq_true, decide_eq_true_eq, bne_iff_ne]
  refine ⟨⟨⟨⟨?_, hSize⟩, ?_⟩, hLast⟩, hAll⟩
  · cases text with
    | nil => exact absurd hAll (by decide)
    | cons => rfl
  cases text with
  | nil => simp
  | cons value =>
    intro hHead
    have hSlash : value = 47 := by simpa using hHead
    rw [manifestPathRest, if_pos hSlash] at hAll
    exact absurd hAll (by simp [segmentAllowed])

section Readers

variable {rest left : List UInt8}

@[simp] theorem require_eq_ok_iff {condition : Bool} {code : UInt32} {u : Unit} :
    require condition code = .ok u ↔ condition = true := by
  unfold require
  split <;> simp_all

@[simp] theorem parsed_eq_ok_iff {α : Type} {x : Result α} {a : α} :
    Analysis.parsed x = .ok a ↔ x = .ok a := by
  cases x <;> simp [Analysis.parsed]

theorem mapM_byteAt {offsets : List ℕ} (h : ∀ i ∈ offsets, i < rest.length) :
    offsets.mapM (byteAt rest) = .ok (offsets.map (spanByte rest)) := by
  induction offsets with
  | nil => rfl
  | cons i _ ih =>
    have hHead := h i mem_cons_self
    have hByte : byteAt rest i = .ok (spanByte rest i) := by
      simp [byteAt, spanByte, getElem?_eq_getElem hHead]
    rw [mapM_cons, hByte, ih fun j hj => h j (mem_cons_of_mem _ hj)]
    rfl

/-- A text that fits is read without leaving the bytes. -/
theorem readText_eq (size : ℕ) (rest : List UInt8) : readText size rest =
    if rest.length < size then .error (.error (manifestError ManifestErrors.truncated))
    else .ok (rest.take size, rest.drop size) := by
  unfold readText
  split_ifs with hShort
  · rfl
  have hFits : size ≤ rest.length := Nat.le_of_not_lt hShort
  have hRead : (range size).map (spanByte rest) = rest.take size := by
    have hSlice : (range size).map (fun i => spanByte rest (0 + i)) = slice rest 0 size :=
      map_spanByte (by omega)
    simpa only [Nat.zero_add, slice_zero] using hSlice
  rw [mapM_byteAt (by simp; omega), hRead]
  rfl

theorem readText_eq_ok_iff {size : ℕ} :
    readText size rest = .ok (text, left) ↔ rest = text ++ left ∧ text.length = size := by
  rw [readText_eq]
  constructor
  · intro h
    split_ifs at h with hShort
    cases h
    exact ⟨(take_append_drop size rest).symm, length_take_of_le (Nat.le_of_not_lt hShort)⟩
  · rintro ⟨rfl, rfl⟩
    simp

/-- A number is read off its bytes. -/
theorem readNumber_eq_ok_iff {α : Type} {size : ℕ} {read : List UInt8 → α} {bytes : α → List UInt8}
    (hRead : ∀ field a, field.length = size → (field = bytes a ↔ read field = a))
    (hSize : ∀ a, (bytes a).length = size) (value : α) :
    (readText size rest >>= fun p => .ok (read p.1, p.2)) = .ok (value, left) ↔
      rest = bytes value ++ left := by
  rw [bind_eq_ok_iff]
  constructor
  · rintro ⟨⟨field, left'⟩, hField, h⟩
    cases h
    obtain ⟨rfl, hLen⟩ := readText_eq_ok_iff.mp hField
    rw [← (hRead field _ hLen).mpr rfl]
  · rintro rfl
    refine ⟨(bytes value, left), readText_eq_ok_iff.mpr ⟨rfl, hSize value⟩, ?_⟩
    rw [(hRead _ value (hSize value)).mp rfl]

theorem readU16_eq_ok_iff {value : UInt16} :
    readU16 rest = .ok (value, left) ↔ rest = bytesOf 2 value.toNat ++ left :=
  readNumber_eq_ok_iff (fun _ a hLen => eq_u16_iff hLen a) (fun a => length_bytesOf 2 a.toNat) value

theorem readU32_eq_ok_iff {value : UInt32} :
    readU32 rest = .ok (value, left) ↔ rest = bytesOf 4 value.toNat ++ left :=
  readNumber_eq_ok_iff (fun _ a hLen => eq_u32_iff hLen a) (fun a => length_bytesOf 4 a.toNat) value

theorem readU64_eq_ok_iff {value : UInt64} :
    readU64 rest = .ok (value, left) ↔ rest = bytesOf 8 value.toNat ++ left :=
  readNumber_eq_ok_iff (fun _ a hLen => eq_u64_iff hLen a) (fun a => length_bytesOf 8 a.toNat) value

theorem parsePath_eq_ok_iff {path : ManifestPath} :
    ManifestPath.parse text = .ok path ↔ path.text = text ∧ ValidPath text := by
  rw [ManifestPath.parse, ← manifestPathText_iff]
  constructor
  · intro h
    split_ifs at h with hText
    cases h
    exact ⟨rfl, hText⟩
  · rintro ⟨rfl, hText⟩
    rw [dif_pos hText]

theorem parseId_eq_ok_iff {id : PackageId} :
    PackageId.parse text = .ok id ↔ id.text = text ∧ ValidPackageId text := by
  rw [PackageId.parse, ← packageIdText_iff]
  constructor
  · intro h
    split_ifs at h with hText
    cases h
    exact ⟨rfl, hText⟩
  · rintro ⟨rfl, hText⟩
    rw [dif_pos hText]

end Readers

/-- The analysis makes no read outside the bytes. -/
def Inside {α : Type} (x : Analysis α) : Prop := x ≠ .error .outside

namespace Inside

variable {α β : Type}

theorem bind {x : Analysis α} {f : α → Analysis β} (hFirst : Inside x)
    (hRest : ∀ a, Inside (f a)) : Inside (x >>= f) := bind_ne_error hFirst hRest

theorem ok (a : α) : Inside (.ok a) := nofun

theorem require (condition : Bool) (code : UInt32) : Inside (require condition code) := by
  unfold Enml.OsPackage.require
  split <;> exact nofun

theorem parsed (x : Result α) : Inside (Analysis.parsed x) := by
  cases x <;> exact nofun

theorem readText (size : ℕ) (rest : List UInt8) : Inside (readText size rest) := by
  rw [readText_eq]
  split <;> exact nofun

theorem readU16 (rest : List UInt8) : Inside (readU16 rest) := bind (readText _ _) fun _ => ok _

theorem readU32 (rest : List UInt8) : Inside (readU32 rest) := bind (readText _ _) fun _ => ok _

theorem readU64 (rest : List UInt8) : Inside (readU64 rest) := bind (readText _ _) fun _ => ok _

theorem takeAll {σ : Type} {take : σ → List UInt8 → Analysis (α × List UInt8)} {next : σ → α → σ}
    (hTake : ∀ state rest, Inside (take state rest)) (n : ℕ) (state : σ) (rest : List UInt8) :
    Inside (Records.takeAll take next n state rest) := by
  induction n generalizing state rest with
  | zero => exact ok _
  | succ n ih => exact bind (hTake _ _) fun _ => bind (ih _ _) fun _ => ok _

end Inside

end Enml.OsPackage
