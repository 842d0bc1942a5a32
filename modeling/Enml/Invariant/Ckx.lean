import Enml.OsImage.Ckx

/-! What `parse_ckx` vouches for. A region of an accepted image says what its row
of the table says, covers whole pages and does not wrap; the entry lies in a
region the image makes executable. -/
namespace Enml.OsImage

open Enml.Core List

@[simp] theorem require_eq_ok_iff {condition : Bool} {code : UInt32} {u : Unit} :
    require condition code = .ok u ↔ condition = true := by
  unfold require
  split <;> simp_all

variable {p : CkxPermissions} {bytes : List UInt8} {previous regions : List CkxRegion}
  {image : CkxImage}

theorem raw_of_validPermissions {raw : UInt8} (h : validPermissions raw = .ok p) : p.raw = raw := by
  unfold validPermissions at h
  iterate 3
    split at h
    · cases h
      exact Eq.symm ‹_›
  · cases h

theorem CkxPermissions.raw_inj {q : CkxPermissions} (h : p.raw = q.raw) : p = q := by
  cases p <;> cases q <;> first | rfl | exact absurd h (by decide)

/-- Where a row of the table starts. -/
def rowOffset (row : Nat) : Nat := ckxHeaderBytes + row * ckxRegionBytes

/-- The region agrees with a row of the table and keeps the rules for one region. -/
structure CkxRegion.Accepted (bytes : List UInt8) (row : Nat) (region : CkxRegion) : Prop where
  address : region.virtualAddress = readU64 bytes (rowOffset row)
  permissions : region.permissions.raw = byteAt bytes (rowOffset row + 16)
  length_ne : region.length ≠ 0
  whole : region.length % ckxPageBytes = 0
  aligned : region.virtualAddress % ckxPageBytes = 0
  within : region.virtualAddress ≤ 0xFFFFFFFFFFFFFFFF - (region.length - 1)

/-- The later of two regions was compared with the earlier one. -/
def CkxRegion.Apart (earlier later : CkxRegion) : Prop :=
  rangesOverlap later.virtualAddress later.length earlier.virtualAddress earlier.length = false

theorem accepted_of_parseRegion {region : CkxRegion} (h : parseRegion bytes previous = .ok region) :
    region.Accepted bytes previous.length ∧ ∀ other ∈ previous, other.Apart region := by
  unfold parseRegion at h
  simp only [bind_eq_ok_iff, require_eq_ok_iff] at h
  obtain ⟨permissions, hPerms, disclosure, hDisclosure, content, hContent, -, -, -, hRange,
    -, -, -, -, -, hApart, hRegion⟩ := h
  obtain rfl := Except.ok.inj hRegion
  simp only [Bool.not_eq_true', Bool.or_eq_false_iff, beq_eq_false_iff_ne, bne_eq_false_iff_eq,
    decide_eq_false_iff_not, UInt64.not_lt] at hRange
  obtain ⟨⟨⟨hLen, hWhole⟩, hAligned⟩, hWithin⟩ := hRange
  refine ⟨⟨rfl, raw_of_validPermissions hPerms, hLen, hWhole, hAligned, hWithin⟩, ?_⟩
  intro other hMem
  have hOther := all_eq_true.mp hApart other hMem
  rwa [Bool.not_eq_true'] at hOther

/-- The loop appends one region a turn, each read from its own row. -/
theorem accepted_of_parseRegions {remaining : Nat}
    (hPrev : ∀ row (region : CkxRegion), previous[row]? = some region → region.Accepted bytes row)
    (hApart : previous.Pairwise CkxRegion.Apart)
    (h : parseRegions bytes remaining previous = .ok regions) :
    regions.length = previous.length + remaining ∧
      (∀ row (region : CkxRegion), regions[row]? = some region → region.Accepted bytes row) ∧
      regions.Pairwise CkxRegion.Apart := by
  induction remaining generalizing previous with
  | zero =>
    cases h
    exact ⟨rfl, hPrev, hApart⟩
  | succ _ ih =>
    rw [parseRegions, bind_eq_ok_iff] at h
    obtain ⟨added, hAdded, hRest⟩ := h
    obtain ⟨hAcc, hOthers⟩ := accepted_of_parseRegion hAdded
    have hNext : ∀ row (region : CkxRegion), (previous ++ [added])[row]? = some region →
        region.Accepted bytes row := by
      intro row region hRow
      rcases lt_or_ge row previous.length with hOld | hNew
      · rw [List.getElem?_append_left hOld] at hRow
        exact hPrev row region hRow
      rw [List.getElem?_append_right hNew, List.getElem?_singleton] at hRow
      split at hRow
      · cases hRow
        have hLast : row = previous.length := by omega
        exact hLast ▸ hAcc
      · cases hRow
    have hNextApart : (previous ++ [added]).Pairwise CkxRegion.Apart := by
      refine pairwise_append.mpr ⟨hApart, pairwise_singleton _ _, ?_⟩
      intro other hOther region hRegion
      rw [mem_singleton.mp hRegion]
      exact hOthers other hOther
    obtain ⟨hLen, hRows, hPairs⟩ := ih hNext hNextApart hRest
    refine ⟨?_, hRows, hPairs⟩
    rw [hLen, length_append, length_singleton]
    omega

theorem CkxImage.used_fillRegions (hRegions : image.regions = fillRegions regions)
    (hCnt : regions.length = image.regionCount) (hMax : image.regionCount ≤ maxCkxRegions) :
    image.used = regions := by
  rw [← hCnt] at hMax
  rw [used, hRegions, ← hCnt]
  refine ext_getElem (by simp [hMax]) fun i _ hi => ?_
  simp [fillRegions, hi]

/-- What acceptance says of an image and the bytes it was read from. -/
structure CkxImage.Accepted (bytes : List UInt8) (image : CkxImage) : Prop where
  entry : image.entry = readU64 bytes 8
  count : image.used.length = (readU16 bytes 6).toNat
  count_le : image.used.length ≤ maxCkxRegions
  rows : ∀ row (region : CkxRegion), image.used[row]? = some region → region.Accepted bytes row
  apart : image.used.Pairwise CkxRegion.Apart
  executable : entryIsExecutable image.entry image.used

theorem accepted_of_parse (h : parseCkx bytes = .ok image) : image.Accepted bytes := by
  unfold parseCkx at h
  simp only [bind_eq_ok_iff, require_eq_ok_iff] at h
  obtain ⟨-, -, -, -, -, -, -, hCnt, -, -, -, -, -, -, -, -, regions, hRegions, -, hExec,
    hImage⟩ := h
  simp only [Bool.not_eq_true', Bool.or_eq_false_iff, decide_eq_false_iff_not, not_lt] at hCnt
  obtain ⟨hLen, hRows, hApart⟩ := accepted_of_parseRegions (by simp) .nil hRegions
  rw [length_nil, Nat.zero_add] at hLen
  have hImage := Except.ok.inj hImage
  have hArray : image.regions = fillRegions regions := by rw [← hImage]
  have hDeclared : (readU16 bytes 6).toNat = image.regionCount := by rw [← hImage]
  have hEntry : image.entry = readU64 bytes 8 := by rw [← hImage]
  have hUsed : image.used = regions :=
    CkxImage.used_fillRegions hArray (hLen.trans hDeclared) (hDeclared ▸ hCnt.2)
  constructor
  · exact hEntry
  · rw [hUsed, hLen]
  · rw [hUsed, hLen]
    exact hCnt.2
  · rw [hUsed]
    exact hRows
  · rw [hUsed]
    exact hApart
  · rw [hUsed, hEntry]
    exact hExec

theorem CkxImage.Accepted.region (h : image.Accepted bytes) {region : CkxRegion}
    (hMem : region ∈ image.used) : ∃ row, region.Accepted bytes row := by
  obtain ⟨row, hRow⟩ := mem_iff_getElem?.mp hMem
  exact ⟨row, h.rows row region hRow⟩

end Enml.OsImage
