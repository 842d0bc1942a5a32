import Enml.OsIpc.Codec

/-! Paths of the private storage. A path that is not empty has passed the parser,
which is the only way to make one. -/
namespace Enml.OsStorage

open Enml.Core Enml.OsIpc List

namespace Errors
def invalidPath : UInt32 := 1
def pathTooLong : UInt32 := 2
def segmentTooLong : UInt32 := 3
def pathEscape : UInt32 := 4
def invalidOptions : UInt32 := 17
end Errors

open Errors

def storageError (code : UInt32) : Error := makeError .storage code

def maxRelativePathBytes : Nat := 1024

def maxPathSegmentBytes : Nat := 255

def slash : UInt8 := 0x2F

def backslash : UInt8 := 0x5C

def dot : UInt8 := 0x2E

def checkSegment (segment : List UInt8) : Result Unit :=
  if segment.isEmpty then .error (storageError invalidPath)
  else if maxPathSegmentBytes < segment.length then .error (storageError segmentTooLong)
  else if segment = [dot] ∨ segment = [dot, dot] then .error (storageError pathEscape)
  else .ok ()

/-- The loop over the text, with the segment it is in. The end of the text closes the
last segment like a slash. -/
def checkSegments (segment : List UInt8) : List UInt8 → Result Unit
  | [] => checkSegment segment
  | value :: rest =>
    if value = 0 ∨ value = backslash then .error (storageError invalidPath)
    else if value ≠ slash then checkSegments (segment ++ [value]) rest
    else
      match checkSegment segment with
      | .error e => .error e
      | .ok () => checkSegments [] rest

/-- What `parse` demands of a text. -/
def checkPath (text : List UInt8) : Result Unit :=
  if text.isEmpty ∨ text.head? = some slash ∨ text.getLast? = some slash then
    .error (storageError invalidPath)
  else if maxRelativePathBytes < text.length then .error (storageError pathTooLong)
  else if !isValidUtf8 text then .error (storageError invalidPath)
  else checkSegments [] text

theorem parsed_nil : ([] : List UInt8) = [] ∨ checkPath [] = .ok () := .inl rfl

/-- Nothing, or a path that passed `checkPath`. -/
structure RelativePath where
  view : List UInt8 := []
  parsed : view = [] ∨ checkPath view = .ok () := by exact parsed_nil
  deriving DecidableEq

instance : Inhabited RelativePath := ⟨{}⟩

def RelativePath.parse (text : List UInt8) : Result RelativePath :=
  match h : checkPath text with
  | .error e => .error e
  | .ok () => .ok ⟨text, .inr h⟩

def RelativePath.valid (path : RelativePath) : Bool := path.view.length != 0

def joinRelativePaths (parent child : RelativePath) : Result RelativePath :=
  if !parent.valid || !child.valid then .error (storageError invalidPath)
  else if maxRelativePathBytes < parent.view.length + 1 + child.view.length then
    .error (storageError pathTooLong)
  else RelativePath.parse (parent.view ++ [slash] ++ child.view)

theorem RelativePath.ext {a b : RelativePath} (h : a.view = b.view) : a = b := by
  obtain ⟨view, _⟩ := a
  cases h
  rfl

variable {text : List UInt8} {path parent child : RelativePath}

theorem RelativePath.parse_eq_ok_iff :
    RelativePath.parse text = .ok path ↔ checkPath text = .ok () ∧ path.view = text := by
  unfold RelativePath.parse
  constructor
  · intro h
    split at h
    · cases h
    · rename_i hChecked
      cases h
      exact ⟨hChecked, rfl⟩
  · rintro ⟨hChecked, hView⟩
    split
    · rename_i hErr
      rw [hChecked] at hErr
      cases hErr
    · exact congrArg Except.ok (RelativePath.ext hView.symm)

theorem RelativePath.view_ne_nil (h : path.valid = true) : path.view ≠ [] := by
  rintro hEmpty
  rw [RelativePath.valid, hEmpty] at h
  cases h

/-- A path that is not empty is what its own text parses to. -/
theorem RelativePath.parse_view (h : path.valid = true) : RelativePath.parse path.view = .ok path :=
  RelativePath.parse_eq_ok_iff.mpr ⟨path.parsed.resolve_left (RelativePath.view_ne_nil h), rfl⟩

theorem checkPath_length (h : checkPath text = .ok ()) :
    0 < text.length ∧ text.length ≤ maxRelativePathBytes := by
  unfold checkPath at h
  split_ifs at h with hEnds hLong
  refine ⟨length_pos_of_ne_nil ?_, Nat.not_lt.mp hLong⟩
  rintro rfl
  exact hEnds (.inl rfl)

theorem RelativePath.length_view (h : path.valid = true) :
    0 < path.view.length ∧ path.view.length ≤ maxRelativePathBytes :=
  checkPath_length (path.parsed.resolve_left (RelativePath.view_ne_nil h))

/-- The segments of a text, closed by slashes. -/
def segmentsFrom (segment : List UInt8) : List UInt8 → List (List UInt8)
  | [] => [segment]
  | value :: rest =>
    if value = slash then segment :: segmentsFrom [] rest
    else segmentsFrom (segment ++ [value]) rest

def RelativePath.segments (path : RelativePath) : List (List UInt8) :=
  if path.view.isEmpty then [] else segmentsFrom [] path.view

theorem segmentsFrom_append (segment front back : List UInt8) :
    segmentsFrom segment (front ++ [slash] ++ back) =
      segmentsFrom segment front ++ segmentsFrom [] back := by
  induction front generalizing segment with
  | nil => simp [segmentsFrom]
  | cons _ _ ih =>
    simp only [cons_append, segmentsFrom]
    split_ifs
    · rw [ih, cons_append]
    · exact ih _

theorem view_of_join (h : joinRelativePaths parent child = .ok path) :
    parent.valid = true ∧ child.valid = true ∧
      path.view = parent.view ++ [slash] ++ child.view := by
  unfold joinRelativePaths at h
  split_ifs at h with hInvalid hLong
  rw [Bool.or_eq_true, not_or, Bool.not_eq_true', Bool.not_eq_true', Bool.not_eq_false,
    Bool.not_eq_false] at hInvalid
  exact ⟨hInvalid.1, hInvalid.2, (RelativePath.parse_eq_ok_iff.mp h).2⟩

/-- The segments of a joined path are those of its parts. -/
theorem segments_of_join (h : joinRelativePaths parent child = .ok path) :
    path.segments = parent.segments ++ child.segments := by
  obtain ⟨hParent, hChild, hView⟩ := view_of_join h
  have hParent := RelativePath.view_ne_nil hParent
  have hChild := RelativePath.view_ne_nil hChild
  rw [RelativePath.segments, RelativePath.segments, RelativePath.segments, hView,
    if_neg (by simp), if_neg (by simpa using hParent), if_neg (by simpa using hChild),
    segmentsFrom_append]

theorem segmentsFrom_eq (segment text : List UInt8) :
    segmentsFrom segment text = (text.splitOn slash).modifyHead (segment ++ ·) := by
  induction text generalizing segment with
  | nil => simp [segmentsFrom]
  | cons value rest ih =>
    rw [segmentsFrom, splitOn_cons_eq_if_modifyHead, ih, ih]
    by_cases hSlash : value = slash
    · cases rest.splitOn slash <;> simp [hSlash]
    · cases rest.splitOn slash <;> simp [hSlash]

theorem segmentsFrom_nil (text : List UInt8) : segmentsFrom [] text = text.splitOn slash := by
  rw [segmentsFrom_eq]
  cases text.splitOn slash <;> rfl

theorem RelativePath.segments_eq (h : path.valid = true) :
    path.segments = path.view.splitOn slash := by
  rw [RelativePath.segments, if_neg (by simpa using RelativePath.view_ne_nil h), segmentsFrom_nil]

/-- The name of an entry of a directory. -/
structure EntryName (segment : List UInt8) : Prop where
  size : 1 ≤ segment.length ∧ segment.length ≤ maxPathSegmentBytes
  notDots : segment ≠ [dot] ∧ segment ≠ [dot, dot]

theorem checkSegment_eq_ok_iff {segment : List UInt8} :
    checkSegment segment = .ok () ↔ EntryName segment := by
  unfold checkSegment
  constructor
  · intro h
    split_ifs at h with hEmpty hLong hDots
    rw [List.isEmpty_iff] at hEmpty
    exact ⟨⟨length_pos_of_ne_nil hEmpty, Nat.not_lt.mp hLong⟩, not_or.mp hDots⟩
  · rintro ⟨⟨hPos, hFits⟩, hDots⟩
    rw [if_neg (by simpa using ne_nil_of_length_pos hPos), if_neg (Nat.not_lt.mpr hFits),
      if_neg (not_or.mpr hDots)]

theorem checkSegments_eq_ok_iff {segment : List UInt8} :
    checkSegments segment text = .ok () ↔ (0 ∉ text ∧ backslash ∉ text) ∧
        ∀ s ∈ segmentsFrom segment text, EntryName s := by
  induction text generalizing segment with
  | nil => simp [checkSegments, segmentsFrom, checkSegment_eq_ok_iff]
  | cons value rest ih =>
    rw [checkSegments, segmentsFrom]
    by_cases hBad : value = 0 ∨ value = backslash
    · rw [if_pos hBad]
      refine iff_of_false (by simp) ?_
      rintro ⟨⟨hZero, hBack⟩, -⟩
      exact hBad.elim (fun h => hZero (h ▸ mem_cons_self))
        fun h => hBack (h ▸ mem_cons_self)
    have hClean :
        (0 ∉ value :: rest ∧ backslash ∉ value :: rest) ↔ 0 ∉ rest ∧ backslash ∉ rest := by
      rw [not_or] at hBad
      simp [Ne.symm hBad.1, Ne.symm hBad.2]
    rw [if_neg hBad, hClean]
    by_cases hSlash : value = slash
    · rw [if_neg (not_not.mpr hSlash), if_pos hSlash, forall_mem_cons, ← checkSegment_eq_ok_iff]
      cases checkSegment segment with
      | error e => simp
      | ok =>
        dsimp only
        rw [ih]
        simp
    · rw [if_pos hSlash, if_neg hSlash, ih]

/-- The texts that are paths below a directory. -/
structure Relative (text : List UInt8) : Prop where
  utf8 : ∃ chars : List Char, text = chars.flatMap String.utf8EncodeChar
  size : 1 ≤ text.length ∧ text.length ≤ maxRelativePathBytes
  clean : 0 ∉ text ∧ backslash ∉ text
  names : ∀ segment ∈ text.splitOn slash, EntryName segment

theorem checkPath_eq_ok_iff : checkPath text = .ok () ↔ Relative text := by
  unfold checkPath
  constructor
  · intro h
    split_ifs at h with hEnds hLong hUtf8
    rw [Bool.not_eq_true', Bool.not_eq_false] at hUtf8
    obtain ⟨hClean, hNames⟩ := checkSegments_eq_ok_iff.mp h
    rw [segmentsFrom_nil] at hNames
    rw [not_or, List.isEmpty_iff] at hEnds
    exact ⟨isValidUtf8_iff.mp hUtf8, ⟨length_pos_of_ne_nil hEnds.1, Nat.not_lt.mp hLong⟩,
      hClean, hNames⟩
  · rintro ⟨hUtf8, ⟨hPos, hFits⟩, hClean, hNames⟩
    rw [← segmentsFrom_nil] at hNames
    have hNoEmpty : [] ∉ segmentsFrom [] text := fun hMem => by simpa using (hNames _ hMem).size
    -- a slash at an end would close an empty segment there
    have hEnds :
        ¬ (text.isEmpty = true ∨ text.head? = some slash ∨ text.getLast? = some slash) := by
      rintro (hEmpty | hHead | hLast)
      · rw [List.isEmpty_iff.mp hEmpty] at hPos
        cases hPos
      · obtain ⟨rest, rfl⟩ := head?_eq_some_iff.mp hHead
        exact hNoEmpty (by simp [segmentsFrom])
      obtain ⟨front, rfl⟩ := getLast?_eq_some_iff.mp hLast
      have hAppend := segmentsFrom_append [] front []
      rw [append_nil] at hAppend
      exact hNoEmpty (by simp [hAppend, segmentsFrom])
    rw [if_neg hEnds, if_neg (Nat.not_lt.mpr hFits), if_neg (by simp [isValidUtf8_iff.mpr hUtf8])]
    exact checkSegments_eq_ok_iff.mpr ⟨hClean, hNames⟩

theorem Relative.join {front back : List UInt8} (hFront : Relative front) (hBack : Relative back)
    (hFits : front.length + 1 + back.length ≤ maxRelativePathBytes) :
    Relative (front ++ [slash] ++ back) := by
  obtain ⟨fronts, hFronts⟩ := hFront.utf8
  obtain ⟨backs, hBacks⟩ := hBack.utf8
  have hSize : (front ++ [slash] ++ back).length = front.length + 1 + back.length := by
    simp only [length_append, length_singleton]
  refine ⟨⟨fronts ++ ['/'] ++ backs, ?_⟩, ⟨by omega, hSize ▸ hFits⟩, ?_, ?_⟩
  · rw [flatMap_append, flatMap_append, hFronts, hBacks]
    rfl
  · simpa [hFront.clean, hBack.clean] using ⟨by decide, by decide⟩
  · rw [← segmentsFrom_nil, segmentsFrom_append, segmentsFrom_nil, segmentsFrom_nil]
    exact forall_mem_append.mpr ⟨hFront.names, hBack.names⟩

theorem relative_view (h : path.valid = true) : Relative path.view :=
  checkPath_eq_ok_iff.mp (path.parsed.resolve_left (RelativePath.view_ne_nil h))

theorem joinRelativePaths_eq_ok_iff (hParent : parent.valid = true) (hChild : child.valid = true) :
    joinRelativePaths parent child = .ok path ↔
      parent.view.length + 1 + child.view.length ≤ maxRelativePathBytes ∧
        path.view = parent.view ++ [slash] ++ child.view := by
  unfold joinRelativePaths
  rw [if_neg (by simp [hParent, hChild])]
  split_ifs with hLong
  · simp [Nat.not_le.mpr hLong]
  · rw [Nat.not_lt] at hLong
    rw [RelativePath.parse_eq_ok_iff, checkPath_eq_ok_iff, and_iff_right hLong]
    exact and_iff_right ((relative_view hParent).join (relative_view hChild) hLong)

/-- The place a path leads to from a directory, named by the segments from the root
to it, when every segment but the dots descends. -/
def enter (place : List (List UInt8)) (segment : List UInt8) : List (List UInt8) :=
  if segment = [dot] then place
  else if segment = [dot, dot] then place.dropLast
  else place ++ [segment]

theorem foldl_enter {names : List (List UInt8)} (h : ∀ segment ∈ names, EntryName segment)
    (place : List (List UInt8)) : names.foldl enter place = place ++ names := by
  induction names generalizing place with
  | nil => simp
  | cons name rest ih =>
    obtain ⟨hName, hRest⟩ := forall_mem_cons.mp h
    rw [foldl_cons, ih hRest, enter, if_neg hName.notDots.1, if_neg hName.notDots.2,
      append_assoc, singleton_append]

/-- What joining a path to a parent does: it is defined when the result fits, its
segments are those of the two, it can be regrouped and undone, and no step of a
walk along the result leaves the directory the walk began in. -/
structure Composes (parent child : RelativePath) : Prop where
  defined : (∃ path, joinRelativePaths parent child = .ok path) ↔
    parent.view.length + 1 + child.view.length ≤ maxRelativePathBytes
  segments : ∀ path, joinRelativePaths parent child = .ok path →
    path.segments = parent.segments ++ child.segments ∧ child.segments ≠ []
  grouped : ∀ third path, third.valid = true →
    ((∃ front, joinRelativePaths parent child = .ok front ∧
        joinRelativePaths front third = .ok path) ↔
      ∃ back, joinRelativePaths child third = .ok back ∧ joinRelativePaths parent back = .ok path)
  injective : ∀ other path, joinRelativePaths parent child = .ok path →
    joinRelativePaths parent other = .ok path → child = other
  confined : ∀ path place n, joinRelativePaths parent child = .ok path →
    place <+: (path.segments.take n).foldl enter place

theorem exists_join (hParent : parent.valid = true) (hChild : child.valid = true)
    (hFits : parent.view.length + 1 + child.view.length ≤ maxRelativePathBytes) :
    ∃ path, joinRelativePaths parent child = .ok path :=
  ⟨⟨_, .inr (checkPath_eq_ok_iff.mpr ((relative_view hParent).join (relative_view hChild) hFits))⟩,
    (joinRelativePaths_eq_ok_iff hParent hChild).mpr ⟨hFits, rfl⟩⟩

theorem valid_of_join (h : joinRelativePaths parent child = .ok path) : path.valid = true := by
  have hView := (view_of_join h).2.2
  simp [RelativePath.valid, hView]

theorem length_of_join (h : joinRelativePaths parent child = .ok path) :
    path.view.length = parent.view.length + 1 + child.view.length := by
  simp only [(view_of_join h).2.2, length_append, length_singleton]

theorem composes (hParent : parent.valid = true) (hChild : child.valid = true) :
    Composes parent child where
  defined := by
    refine ⟨?_, exists_join hParent hChild⟩
    rintro ⟨path, h⟩
    exact ((joinRelativePaths_eq_ok_iff hParent hChild).mp h).1
  segments path h := by
    refine ⟨segments_of_join h, ?_⟩
    rw [RelativePath.segments_eq hChild]
    exact splitOn_ne_nil slash child.view
  grouped third path hThird := by
    constructor
    · rintro ⟨front, hFront, hPath⟩
      have hFits := ((joinRelativePaths_eq_ok_iff (valid_of_join hFront) hThird).mp hPath).1
      have hLen := length_of_join hFront
      obtain ⟨back, hBack⟩ := exists_join hChild hThird (by omega)
      refine ⟨back, hBack, (joinRelativePaths_eq_ok_iff hParent (valid_of_join hBack)).mpr ⟨?_, ?_⟩⟩
      · rw [length_of_join hBack]
        omega
      · simp [(view_of_join hPath).2.2, (view_of_join hFront).2.2, (view_of_join hBack).2.2]
    · rintro ⟨back, hBack, hPath⟩
      have hFits := ((joinRelativePaths_eq_ok_iff hParent (valid_of_join hBack)).mp hPath).1
      have hLen := length_of_join hBack
      obtain ⟨front, hFront⟩ := exists_join hParent hChild (by omega)
      refine ⟨front, hFront,
        (joinRelativePaths_eq_ok_iff (valid_of_join hFront) hThird).mpr ⟨?_, ?_⟩⟩
      · rw [length_of_join hFront]
        omega
      · simp [(view_of_join hPath).2.2, (view_of_join hFront).2.2, (view_of_join hBack).2.2]
  injective other path h hOther := by
    have hViews := (view_of_join h).2.2.symm.trans (view_of_join hOther).2.2
    exact RelativePath.ext (append_cancel_left hViews)
  confined path place n h := by
    have hNames := (relative_view (valid_of_join h)).names
    rw [RelativePath.segments_eq (valid_of_join h), foldl_enter]
    · exact prefix_append ..
    · intro segment hMem
      exact hNames segment (mem_of_mem_take hMem)

/-- The parser accepts the relative paths and nothing else, and they compose. -/
theorem relative_paths_confined (text : List UInt8) (parent child : RelativePath) :
    ((∃ path, RelativePath.parse text = .ok path) ↔ Relative text) ∧
      (parent.valid = true ∧ child.valid = true → Composes parent child) := by
  refine ⟨?_, fun h => composes h.1 h.2⟩
  rw [← checkPath_eq_ok_iff]
  constructor
  · rintro ⟨path, h⟩
    exact (RelativePath.parse_eq_ok_iff.mp h).1
  · intro h
    exact ⟨⟨text, .inr h⟩, RelativePath.parse_eq_ok_iff.mpr ⟨h, rfl⟩⟩

end Enml.OsStorage
