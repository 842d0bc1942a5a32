import Enml.Invariant.PackageDecoding
import Enml.OsApp.PrincipalStore
import Mathlib.Algebra.Group.Action.Defs
import Mathlib.Algebra.Order.BigOperators.Group.List

/-! What a snapshot of application principals looks like: every sound store is written
so, and nothing else is read. -/
namespace Enml.OsApp

open Enml.Core LittleEndian Buffer OsPackage List ApplicationPrincipalRecord
  ApplicationPrincipalStore
open Enml.OsPackage (ApplicationIdentity PackageId someByte maxPackageIdBytes)

/-- Nobody is in the store twice, no principal is, and the next one is above all of
them. -/
structure ApplicationPrincipalStore.Sound (s : ApplicationPrincipalStore) : Prop where
  capacity : s.records.length ≤ m1ApplicationPrincipalCapacity
  records : ∀ r ∈ s.records, r.valid = true
  distinct : s.records.Pairwise fun prior r => r.collides prior = false
  below : ∀ r ∈ s.records, r.principal.low < s.nextPrincipalLow
  next : s.nextPrincipalLow ≠ 0

def ApplicationPrincipalRecord.bytes (r : ApplicationPrincipalRecord) : List UInt8 :=
  layout [(2, r.application.packageId.text.length), (2, 0), (8, r.user.toNat),
    (8, r.principal.low.toNat)] ++ (r.application.signerLineage.toList ++
      r.application.packageId.text)

namespace ApplicationPrincipalStore

def payload (s : ApplicationPrincipalStore) : List UInt8 :=
  s.records.flatMap ApplicationPrincipalRecord.bytes

def headerFields (s : ApplicationPrincipalStore) (size : Nat) : List (Nat × Nat) :=
  [(4, applicationPrincipalSnapshotMagicV1.toNat), (2, applicationPrincipalSnapshotVersionV1.toNat),
    (2, applicationPrincipalSnapshotHeaderSizeV1.toNat), (4, size), (2, s.records.length), (2, 0),
    (8, s.nextPrincipalLow.toNat), (8, 0)]

def bytes (s : ApplicationPrincipalStore) : List UInt8 :=
  layout (s.headerFields (applicationPrincipalSnapshotHeaderSizeV1.toNat + s.payload.length)) ++
    s.payload

theorem length_bytes (s : ApplicationPrincipalStore) :
    s.bytes.length = applicationPrincipalSnapshotHeaderSizeV1.toNat + s.payload.length := by
  rw [bytes, length_append, length_layout]
  rfl

end ApplicationPrincipalStore

open ApplicationPrincipalStore

namespace ApplicationPrincipalRecord

variable {r : ApplicationPrincipalRecord}

theorem valid_iff : r.valid = true ↔
    r.application.packageId.valid = true ∧ someByte r.application.signerLineage = true ∧
      r.principal.high = applicationPrincipalHighV1 ∧ r.principal.low ≠ 0 := by
  simp only [valid, ApplicationIdentity.valid, validPrincipal, Bool.and_eq_true, Bool.or_eq_true,
    bne_iff_ne, beq_iff_eq]
  tauto

theorem length_bytes_le (h : r.valid = true) : r.bytes.length ≤ 148 := by
  have hText : r.application.packageId.text.length ≤ 96 := (length_text (valid_iff.mp h).1).2.1
  rw [bytes, length_append, length_append, length_layout, Vector.length_toList]
  change 20 + (32 + r.application.packageId.text.length) ≤ 148
  omega

end ApplicationPrincipalRecord

section

variable {s : ApplicationPrincipalStore}

/-- A full store of the longest names is well below the limit. -/
theorem ApplicationPrincipalStore.Sound.length_le (h : s.Sound) : s.bytes.length ≤ 9504 := by
  have hCnt : s.records.length ≤ 64 := h.capacity
  have hSum := sum_le_card_nsmul (s.records.map fun r => r.bytes.length) 148
    (by simpa using fun r hr => length_bytes_le (h.records r hr))
  rw [length_map, smul_eq_mul] at hSum
  rw [length_bytes, payload, length_flatMap]
  change 32 + _ ≤ 9504
  have hAll := hSum.trans (Nat.mul_le_mul_right 148 hCnt)
  omega

end

variable {records prior : List ApplicationPrincipalRecord} {next : UInt64} {bytes : List UInt8}
  {s : ApplicationPrincipalStore}

theorem foldl_highest_lt_iff {highest : UInt64} :
    records.foldl (fun highest record =>
        if highest < record.principal.low then record.principal.low else highest) highest < next ↔
      highest < next ∧ ∀ r ∈ records, r.principal.low < next := by
  induction records generalizing highest with
  | nil => simp
  | cons _ _ ih =>
    rw [foldl_cons, ih, forall_mem_cons, ← and_assoc]
    refine and_congr_left fun _ => ?_
    split_ifs with hHigher
    all_goals
      simp only [UInt64.lt_iff_toNat_lt] at hHigher ⊢
      omega

theorem highestLow_lt_iff :
    highestLow records < next ↔ next ≠ 0 ∧ ∀ r ∈ records, r.principal.low < next := by
  rw [highestLow, foldl_highest_lt_iff]
  refine and_congr_left fun _ => ?_
  rw [UInt64.lt_iff_toNat_lt, ne_eq, ← UInt64.toNat_inj, UInt64.toNat_zero]
  omega

/-- What a record that is read or written next to `prior` has to be. -/
def Admitted (prior : List ApplicationPrincipalRecord) (r : ApplicationPrincipalRecord) : Prop :=
  r.valid = true ∧ ∀ p ∈ prior, r.collides p = false

theorem chain_records :
    Records.Chain (fun prior r => prior ++ [r]) Admitted prior records ↔
      (∀ r ∈ records, r.valid = true) ∧
      (∀ p ∈ prior, ∀ r ∈ records, r.collides p = false) ∧
      records.Pairwise fun p r => r.collides p = false := by
  induction records generalizing prior with
  | nil => simp [Records.Chain]
  | cons _ _ ih =>
    simp only [Records.Chain, ih, Admitted, forall_mem_cons, pairwise_cons,
      mem_append, mem_singleton, or_imp, forall_and, forall_eq]
    tauto

theorem parsePackageId_eq_ok_iff {text : List UInt8} {id : PackageId} :
    parsePackageId text = .ok id ↔ PackageId.parse text = .ok id := by
  unfold parsePackageId
  cases PackageId.parse text <;> simp

variable {r : ApplicationPrincipalRecord}

theorem unlisted_iff : (!(prior.any r.collides)) = true ↔ ∀ p ∈ prior, r.collides p = false := by
  simp

theorem decodeRecord_eq_ok_iff (prior : List ApplicationPrincipalRecord) (rest : List UInt8)
    (r : ApplicationPrincipalRecord) (left : List UInt8) :
    decodeRecord prior rest = .ok (r, left) ↔ rest = r.bytes ++ left ∧ Admitted prior r := by
  rw [decodeRecord]
  simp only [bind_eq_ok_iff, ensure_eq_ok_iff, Prod.exists, takeU16_eq_ok_iff, takeU64_eq_ok_iff,
    takeVector_eq_ok_iff, takeBytes_eq_ok_iff, parsePackageId_eq_ok_iff, Except.ok.injEq,
    Prod.mk.injEq, exists_const, unlisted_iff]
  constructor
  · rintro ⟨size, r₁, h₁, reserved, r₂, h₂, user, r₃, h₃, low, r₄, h₄, signer, r₅, h₅, hShape,
      text, r₆, ⟨h₆, hSize⟩, id, hId, -, hValid, hNew, hRec, hLeft⟩
    simp only [Bool.and_eq_true, beq_iff_eq] at hShape
    have hText := parse_eq_ok hId
    subst hRec hLeft
    refine ⟨?_, hValid, hNew⟩
    rw [h₁, h₂, h₃, h₄, h₅, h₆, hShape.1.2, ← hSize, ← hText]
    simp [ApplicationPrincipalRecord.bytes, layout]
  · rintro ⟨rfl, hValid, hNew⟩
    obtain ⟨hId, hSigner, hHigh, hLow⟩ := valid_iff.mp hValid
    obtain ⟨hSome, hShort, hParse⟩ := length_text hId
    have hLen : (UInt16.ofNat r.application.packageId.text.length).toNat =
        r.application.packageId.text.length := by
      unfold maxPackageIdBytes at hShort
      rw [UInt16.toNat_ofNat']
      omega
    have hRec : r = { r with
        principal := { high := applicationPrincipalHighV1, low := r.principal.low } } := by
      rw [← hHigh]
    refine ⟨UInt16.ofNat r.application.packageId.text.length, _, ?_, 0, _, rfl, r.user, _, rfl,
      r.principal.low, _, rfl, r.application.signerLineage, _, rfl, ?_,
      r.application.packageId.text, left, ⟨rfl, hLen.symm⟩, r.application.packageId, hParse,
      hSigner, hRec ▸ hValid, hRec ▸ hNew, hRec.symm, rfl⟩
    · simp [ApplicationPrincipalRecord.bytes, layout, hLen]
    · simp only [Bool.and_eq_true, bne_iff_ne, ne_eq, ← UInt16.toNat_inj, hLen,
        decide_eq_true_eq, UInt16.toNat_zero, beq_self_eq_true]
      exact ⟨⟨⟨by omega, hShort⟩, trivial⟩, hLow⟩

theorem takeRecords_eq_ok_iff {rest left : List UInt8} {n : ℕ} :
    Records.takeAll decodeRecord (fun prior r => prior ++ [r]) n [] rest = .ok (records, left) ↔
      records.length = n ∧ rest = records.flatMap ApplicationPrincipalRecord.bytes ++ left ∧
        (∀ r ∈ records, r.valid = true) ∧ records.Pairwise fun p r => r.collides p = false := by
  rw [Records.takeAll_eq_ok_iff decodeRecord_eq_ok_iff, chain_records]
  simp

theorem decodeSnapshot_eq_ok_iff : decodeSnapshot bytes = .ok s ↔ s.Sound ∧ s.bytes = bytes := by
  have hHeader : applicationPrincipalSnapshotHeaderSizeV1.toNat = 32 := rfl
  rw [decodeSnapshot]
  simp only [bind_eq_ok_iff, ensure_eq_ok_iff, Prod.exists, takeU16_eq_ok_iff, takeU32_eq_ok_iff,
    takeU64_eq_ok_iff, takeRecords_eq_ok_iff, Except.ok.injEq, exists_const, beq_iff_eq,
    Bool.and_eq_true, decide_eq_true_eq, bne_iff_ne, List.isEmpty_iff, highestLow_lt_iff]
  constructor
  · rintro ⟨magic, r₁, h₁, version, r₂, h₂, headerSize, r₃, h₃, totalSize, r₄, h₄, count, r₅, h₅,
      reserved0, r₆, h₆, nextLow, r₇, h₇, reserved1, r₈, h₈, hMagic, hVer, hShape, h⟩
    obtain ⟨⟨⟨⟨⟨hSize, hTotal⟩, hReserved0⟩, hReserved1⟩, -⟩, hCapacity⟩ := hShape
    obtain ⟨records, left, ⟨hCnt, hRecs, hValid, hDist⟩, ⟨hEnd, hNext, hBelow⟩, hs⟩ := h
    subst hs
    refine ⟨⟨hCnt ▸ hCapacity, hValid, hDist, hBelow, hNext⟩, ?_⟩
    rw [hEnd, List.append_nil] at hRecs
    have hBytes : bytes = layout [(4, magic.toNat), (2, version.toNat), (2, headerSize.toNat),
        (4, totalSize.toNat), (2, count.toNat), (2, reserved0.toNat), (8, nextLow.toNat),
        (8, reserved1.toNat)] ++ r₈ := by
      rw [h₁, h₂, h₃, h₄, h₅, h₆, h₇, h₈]
      simp only [layout_cons_append]
      rfl
    have hLen : bytes.length = applicationPrincipalSnapshotHeaderSizeV1.toNat + r₈.length := by
      rw [hBytes, length_append, length_layout]
      rfl
    rw [hBytes, hTotal, hLen, hMagic, hVer, hSize, hReserved0, hReserved1, ← hCnt, hRecs]
    rfl
  · rintro ⟨h, rfl⟩
    have hLimit := h.length_le
    rw [length_bytes] at hLimit
    have hCapacity : s.records.length ≤ 64 := h.capacity
    have hTotal : (UInt32.ofNat
        (applicationPrincipalSnapshotHeaderSizeV1.toNat + s.payload.length)).toNat =
        applicationPrincipalSnapshotHeaderSizeV1.toNat + s.payload.length := by
      rw [UInt32.toNat_ofNat']
      omega
    have hCnt : (UInt16.ofNat s.records.length).toNat = s.records.length := by
      rw [UInt16.toNat_ofNat']
      omega
    refine ⟨applicationPrincipalSnapshotMagicV1, _, layout_cons_append ..,
      applicationPrincipalSnapshotVersionV1, _, layout_cons_append ..,
      applicationPrincipalSnapshotHeaderSizeV1, _, layout_cons_append ..,
      UInt32.ofNat (applicationPrincipalSnapshotHeaderSizeV1.toNat + s.payload.length), _,
      (by rw [hTotal]; exact layout_cons_append ..), UInt16.ofNat s.records.length, _,
      (by rw [hCnt]; exact layout_cons_append ..), 0, _, layout_cons_append ..,
      s.nextPrincipalLow, _, layout_cons_append .., 0, s.payload, layout_cons_append .., rfl, rfl,
      ?_, s.records, [], ⟨hCnt.symm, (append_nil _).symm, h.records, h.distinct⟩,
      ⟨rfl, h.next, h.below⟩, rfl⟩
    rw [hTotal, length_bytes, hCnt]
    exact ⟨⟨⟨⟨⟨rfl, rfl⟩, rfl⟩, rfl⟩, h.next⟩, h.capacity⟩

theorem encodeRecord_eq (done : List UInt8) (h : Admitted prior r)
    (hRoom : done.length + r.bytes.length ≤ maxApplicationPrincipalSnapshotBytes) :
    encodeRecord prior done r = .ok (done ++ r.bytes) := by
  obtain ⟨hSome, hShort, -⟩ := length_text (valid_iff.mp h.1).1
  have hWide : r.application.packageId.text.length ≤ 0xFFFF := hShort.trans (by decide)
  have hFields : ([u16Bytes (UInt16.ofNat r.application.packageId.text.length),
      u16Bytes 0, u64Bytes r.user, u64Bytes r.principal.low,
      r.application.signerLineage.toList, r.application.packageId.text] :
      List (List UInt8)).flatten = r.bytes := by
    have hLen : (UInt16.ofNat r.application.packageId.text.length).toNat =
        r.application.packageId.text.length := by
      rw [UInt16.toNat_ofNat']
      omega
    simp [ApplicationPrincipalRecord.bytes, layout, u16Bytes_eq, u64Bytes_eq, hLen]
  have hNew : (!(prior.any r.collides)) = true := unlisted_iff.mpr h.2
  have hNonempty : r.application.packageId.text.isEmpty = false := by
    simpa [List.isEmpty_iff] using List.ne_nil_of_length_pos hSome
  have hShape : (r.valid && !r.application.packageId.text.isEmpty &&
      decide (r.application.packageId.text.length ≤ maxPackageIdBytes) &&
      decide (r.application.packageId.text.length ≤ 0xFFFF)) = true := by
    simp [h.1, hNonempty, hShort, hWide]
  rw [encodeRecord, ensure_true hShape, ensure_true hNew, write, ← hFields]
  exact putFields_eq _ (by rw [hFields]; exact hRoom)

theorem encodeRecords_eq (done : List UInt8)
    (h : Records.Chain (fun prior r => prior ++ [r]) Admitted prior records)
    (hRoom : done.length + (records.flatMap ApplicationPrincipalRecord.bytes).length ≤
      maxApplicationPrincipalSnapshotBytes) :
    encodeRecords prior done records =
      .ok (done ++ records.flatMap ApplicationPrincipalRecord.bytes) := by
  induction records generalizing prior done with
  | nil => simp [encodeRecords]
  | cons r _ ih =>
    rw [flatMap_cons, length_append] at hRoom
    have hFirst := encodeRecord_eq done h.1 (by omega)
    have hRest := ih (done ++ r.bytes) h.2 (by rw [length_append]; omega)
    rw [encodeRecords, hFirst, flatMap_cons, ← append_assoc]
    exact hRest

/-- The size is put into the place that was left for it. -/
theorem patch_headerFields (s : ApplicationPrincipalStore) (size : UInt32) (rest : List UInt8) :
    writeU32Le (layout (s.headerFields 0) ++ rest) 8 size =
      layout (s.headerFields size.toNat) ++ rest := by
  let front := layout ((s.headerFields 0).take 3)
  let back := layout ((s.headerFields 0).drop 4) ++ rest
  have hBefore : layout (s.headerFields 0) ++ rest = filled 0 front (4 + 0) back := by
    simp [ApplicationPrincipalStore.headerFields, layout, filled, front, back, bytesOf]
  have hAfter : layout (s.headerFields size.toNat) ++ rest =
      filled 0 (front ++ bytesOf 4 size.toNat) 0 back := by
    simp [ApplicationPrincipalStore.headerFields, layout, filled, front, back]
  have hPlace : front.length = 8 := length_layout _
  rw [hBefore, writeU32Le_filled hPlace.symm, hAfter]

/-- Every sound store is written, and its snapshot is within the limit. -/
theorem ApplicationPrincipalStore.Sound.encodeSnapshot_eq (h : s.Sound) :
    encodeSnapshot s = .ok s.bytes := by
  have hLimit := h.length_le
  have hCapacity : s.records.length ≤ 64 := h.capacity
  have hLen := s.length_bytes
  have hHeaderSize : applicationPrincipalSnapshotHeaderSizeV1.toNat = 32 := rfl
  have hMax : maxApplicationPrincipalSnapshotBytes = 16384 := rfl
  have hCnt : (UInt16.ofNat s.records.length).toNat = s.records.length := by
    rw [UInt16.toNat_ofNat']
    omega
  have hWidths : (layout (s.headerFields 0)).length = 32 := length_layout _
  have hFields : ([u32Bytes applicationPrincipalSnapshotMagicV1,
      u16Bytes applicationPrincipalSnapshotVersionV1,
      u16Bytes applicationPrincipalSnapshotHeaderSizeV1, u32Bytes 0,
      u16Bytes (UInt16.ofNat s.records.length), u16Bytes 0,
      u64Bytes s.nextPrincipalLow, u64Bytes 0] : List (List UInt8)).flatten =
      layout (s.headerFields 0) := by
    simp [ApplicationPrincipalStore.headerFields, layout, u16Bytes_eq,
      u32Bytes_eq, u64Bytes_eq, hCnt]
  have hHeader := hFields ▸ putFields_eq (principalError PrincipalErrors.snapshotTooLarge)
    (show ([] : List UInt8).length + _ ≤ maxApplicationPrincipalSnapshotBytes by
      rw [hFields, hWidths, hMax]
      decide)
  have hChain : Records.Chain (fun prior r => prior ++ [r]) Admitted [] s.records :=
    chain_records.mpr ⟨h.records, by simp, h.distinct⟩
  have hRecs := encodeRecords_eq (layout (s.headerFields 0)) hChain
    (by rw [hWidths, hMax]; change 32 + s.payload.length ≤ 16384; omega)
  have hTotal : (layout (s.headerFields 0) ++
      s.records.flatMap ApplicationPrincipalRecord.bytes).length = s.bytes.length := by
    rw [length_append, hWidths, hLen]
    rfl
  have hShape : (decide (s.records.length ≤ m1ApplicationPrincipalCapacity) &&
      decide (s.records.length ≤ 0xFFFF) && s.nextPrincipalLow != 0) = true := by
    have hWide : s.records.length ≤ 0xFFFF := by omega
    simp [h.capacity, hWide, h.next]
  have hEnd : (decide (highestLow s.records < s.nextPrincipalLow) &&
      decide ((layout (s.headerFields 0) ++
        s.records.flatMap ApplicationPrincipalRecord.bytes).length ≤ 0xFFFFFFFF)) = true := by
    rw [hTotal, decide_eq_true (highestLow_lt_iff.mpr ⟨h.next, h.below⟩), decide_eq_true (by omega)]
    rfl
  have hSize : (UInt32.ofNat s.bytes.length).toNat = s.bytes.length := by
    rw [UInt32.toNat_ofNat']
    omega
  rw [encodeSnapshot]
  simp only [bind_eq_ok_iff, ensure_eq_ok_iff, exists_const, Except.ok.injEq]
  refine ⟨hShape, _, hHeader, _, hRecs, hEnd, ?_⟩
  rw [hTotal, patch_headerFields, hSize, hLen]
  rfl

theorem loadSnapshot_nil : loadSnapshot (some []) = .ok {} := rfl

/-- A file that holds something is accepted exactly as what its store is written as. -/
theorem loadSnapshot_eq_ok_iff (hSome : bytes ≠ []) {s : ApplicationPrincipalStore} :
    loadSnapshot (some bytes) = .ok s ↔ s.Sound ∧ s.bytes = bytes := by
  rw [← decodeSnapshot_eq_ok_iff, loadSnapshot, Option.getD_some]
  have hNonempty : bytes.isEmpty = false := by simpa [List.isEmpty_iff] using hSome
  have hHeader : applicationPrincipalSnapshotHeaderSizeV1.toNat = 32 := rfl
  have hMax : maxApplicationPrincipalSnapshotBytes = 16384 := rfl
  by_cases hFits : bytes.length ≤ maxApplicationPrincipalSnapshotBytes ∧
      applicationPrincipalSnapshotHeaderSizeV1.toNat ≤ bytes.length
  · rw [if_neg (by omega), hNonempty, if_neg (by decide), if_neg (by omega)]
  have hRefused : ¬decodeSnapshot bytes = .ok s := by
    rw [decodeSnapshot_eq_ok_iff]
    rintro ⟨h, rfl⟩
    have hLimit := h.length_le
    have hLen := s.length_bytes
    omega
  simp only [hRefused, iff_false]
  split_ifs with hLarge hNone hShort
  · nofun
  · rw [hNonempty] at hNone
    cases hNone
  · nofun
  · omega

theorem sound_empty : ({} : ApplicationPrincipalStore).Sound where
  capacity := Nat.zero_le _
  records := nofun
  distinct := List.Pairwise.nil
  below := nofun
  next := by decide

end Enml.OsApp
