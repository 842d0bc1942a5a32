import Enml.Invariant.ManifestFields
import Mathlib.Algebra.Group.Action.Defs
import Mathlib.Algebra.Order.BigOperators.Group.List

/-! The manifest analyzer accepts the serialised form of well-formed manifests and
nothing else, and returns the manifest that was serialised. -/
namespace Enml.OsPackage

open Enml.Core LittleEndian PackageManifestAnalyzer AnalyzedPackageManifest List ManifestFileRecord
  FileState

variable {permissions : List UInt32} {s : FileState} {text : List UInt8}

def ManifestFileRecord.bytes (f : ManifestFileRecord) : List UInt8 :=
  layout [(2, f.path.text.length), (2, f.flags.toNat), (8, f.declaredSize.toNat)] ++ f.path.text

namespace AnalyzedPackageManifest

/-- What stands behind the header. -/
def payload (m : AnalyzedPackageManifest) : List UInt8 :=
  m.packageId.text ++ m.entryPoint.text ++
    m.requestedPermissions.flatMap (fun permission => bytesOf 4 permission.toNat) ++
    m.files.flatMap bytes

/-- Version 1 of the format. The total size counts the header. -/
def serialise (m : AnalyzedPackageManifest) : List UInt8 :=
  layout [(4, packageManifestMagicV1.toNat), (2, packageManifestVersionV1.toNat),
    (2, packageManifestHeaderSizeV1.toNat),
    (4, packageManifestHeaderSizeV1.toNat + m.payload.length), (2, m.packageId.text.length),
    (2, m.entryPoint.text.length), (2, m.files.length), (2, m.requestedPermissions.length),
    (4, 0)] ++ m.payload

/-- The entry point is one of the files, and that file can be executed. -/
structure WellFormed (m : AnalyzedPackageManifest) : Prop where
  packageId : ValidPackageId m.packageId.text
  entryPoint : ValidPath m.entryPoint.text
  entry : ∃ f ∈ m.files, f.path = m.entryPoint ∧ f.executable = true ∧
    ∀ g ∈ m.files, g.path = m.entryPoint → g = f
  ascending : m.requestedPermissions.Pairwise (· < ·)
  nonzero : ∀ permission ∈ m.requestedPermissions, permission ≠ 0
  permissionCount : m.requestedPermissions.length ≤ maxRequestedPermissions
  fileCount : 1 ≤ m.files.length ∧ m.files.length ≤ maxManifestFiles
  paths : ∀ f ∈ m.files, ValidPath f.path.text
  distinct : (m.files.map (·.path)).Nodup
  flags : ∀ f ∈ m.files, f.flags &&& ~~~manifestFileKnownFlags = 0
  declared : m.declaredContentBytes.toNat = (m.files.map (·.declaredSize.toNat)).sum
  bounded : (m.files.map (·.declaredSize.toNat)).sum ≤ m1MaxDeclaredPackageBytes.toNat

end AnalyzedPackageManifest

variable {rest left : List UInt8}

theorem readPermission_eq_ok_iff (previous : UInt32) (rest : List UInt8) (permission : UInt32)
    (left : List UInt8) :
    readPermission previous rest = .ok (permission, left) ↔
      rest = bytesOf 4 permission.toNat ++ left ∧ previous < permission := by
  have hAbove : ∀ p : UInt32,
      (!(p == 0 || decide (p < previous))) = true ∧ (p != previous) = true ↔ previous < p := by
    intro p
    simp only [Bool.not_eq_true', Bool.or_eq_false_iff, beq_eq_false_iff_ne, ne_eq,
      decide_eq_false_iff_not, bne_iff_ne, UInt32.lt_iff_toNat_lt, ← UInt32.toNat_inj,
      UInt32.toNat_zero]
    omega
  rw [readPermission]
  simp only [bind_eq_ok_iff, require_eq_ok_iff, Prod.exists, readU32_eq_ok_iff, Except.ok.injEq,
    Prod.mk.injEq, exists_const]
  constructor
  · rintro ⟨p, behind, hRest, hZero, hNew, rfl, rfl⟩
    exact ⟨hRest, (hAbove p).mp ⟨hZero, hNew⟩⟩
  · rintro ⟨hRest, hLt⟩
    obtain ⟨hZero, hNew⟩ := (hAbove permission).mpr hLt
    exact ⟨permission, left, hRest, hZero, hNew, rfl, rfl⟩

theorem chain_permissions {previous : UInt32} :
    Records.Chain (fun _ permission => permission)
        (fun previous permission => previous < permission) previous permissions ↔
      (previous :: permissions).Pairwise (· < ·) := by
  induction permissions generalizing previous with
  | nil => simp [Records.Chain]
  | cons permission _ ih =>
    rw [Records.Chain, ih, pairwise_cons (a := previous)]
    constructor
    · rintro ⟨hFirst, hRest⟩
      refine ⟨?_, hRest⟩
      intro p hp
      rcases mem_cons.mp hp with rfl | hp
      · exact hFirst
      · exact UInt32.lt_trans hFirst ((pairwise_cons.mp hRest).1 p hp)
    · rintro ⟨hAll, hRest⟩
      exact ⟨hAll permission mem_cons_self, hRest⟩

theorem pairwise_zero :
    ((0 : UInt32) :: permissions).Pairwise (· < ·) ↔
      permissions.Pairwise (· < ·) ∧ ∀ permission ∈ permissions, permission ≠ 0 := by
  have hPos : ∀ p : UInt32, 0 < p ↔ p ≠ 0 := by
    intro p
    rw [UInt32.lt_iff_toNat_lt, ne_eq, ← UInt32.toNat_inj, UInt32.toNat_zero]
    omega
  rw [pairwise_cons]
  simp only [hPos]
  exact and_comm

/-- What the loop over the files asks of one more file. -/
structure FileAdmitted (entryPoint : ManifestPath) (s : FileState) (f : ManifestFileRecord) :
    Prop where
  path : ValidPath f.path.text
  flags : f.flags &&& ~~~manifestFileKnownFlags = 0
  new : f.path ∉ s.files.map (·.path)
  bounded : s.declaredContentBytes.toNat + f.declaredSize.toNat ≤ m1MaxDeclaredPackageBytes.toNat
  executable : f.path = entryPoint → f.executable = true

/-- The subtraction of the check cannot wrap. -/
theorem declared_check (total declared : UInt64) :
    (!(decide (m1MaxDeclaredPackageBytes < declared) ||
      decide (m1MaxDeclaredPackageBytes - declared < total))) = true ↔
      total.toNat + declared.toNat ≤ m1MaxDeclaredPackageBytes.toNat := by
  simp only [Bool.not_eq_true', Bool.or_eq_false_iff, decide_eq_false_iff_not, UInt64.not_lt]
  constructor
  · rintro ⟨hDeclared, hLeft⟩
    rw [UInt64.le_iff_toNat_le, UInt64.toNat_sub_of_le _ _ hDeclared] at hLeft
    rw [UInt64.le_iff_toNat_le] at hDeclared
    omega
  intro hSum
  have hDeclared : declared ≤ m1MaxDeclaredPackageBytes := by
    rw [UInt64.le_iff_toNat_le]
    omega
  refine ⟨hDeclared, ?_⟩
  rw [UInt64.le_iff_toNat_le, UInt64.toNat_sub_of_le _ _ hDeclared]
  omega

theorem readFile_eq_ok_iff (entryPoint : ManifestPath) (s : FileState) (rest : List UInt8)
    (f : ManifestFileRecord) (left : List UInt8) :
    readFile entryPoint s rest = .ok (f, left) ↔
      rest = f.bytes ++ left ∧ FileAdmitted entryPoint s f := by
  rw [readFile]
  simp only [bind_eq_ok_iff, require_eq_ok_iff, Prod.exists, readU16_eq_ok_iff, readU64_eq_ok_iff,
    readText_eq_ok_iff, parsed_eq_ok_iff, parsePath_eq_ok_iff, Except.ok.injEq, Prod.mk.injEq,
    exists_const, declared_check]
  have hUnlisted : ∀ path : ManifestPath,
      (!s.files.any fun prior => prior.path == path) = true ↔ path ∉ s.files.map (·.path) := by
    intro path
    simp only [Bool.not_eq_true', any_eq_false, mem_map, not_exists, not_and, beq_iff_eq]
  constructor
  · rintro ⟨size, r₁, rfl, flags, r₂, rfl, declared, r₃, rfl, -, hFlags, text, r₄, ⟨rfl, hSize⟩,
      path, ⟨rfl, hPath⟩, hNew, hBounded, hExec, rfl, rfl⟩
    refine ⟨by simp [bytes, layout, hSize], hPath, by simpa using hFlags,
      (hUnlisted path).mp hNew, hBounded, ?_⟩
    rintro rfl
    simpa using hExec
  · rintro ⟨rfl, hPath, hFlags, hNew, hBounded, hExec⟩
    have hLen : (UInt16.ofNat f.path.text.length).toNat = f.path.text.length := by
      have hSize : f.path.text.length ≤ 256 := hPath.size
      rw [UInt16.toNat_ofNat']
      omega
    refine ⟨UInt16.ofNat f.path.text.length, _, ?_, f.flags, _, rfl, f.declaredSize, _, rfl, ?_,
      by simpa using hFlags, f.path.text, left, ⟨rfl, hLen.symm⟩, f.path, ⟨rfl, hPath⟩,
      (hUnlisted f.path).mpr hNew, hBounded, ?_, rfl, rfl⟩
    · simp [bytes, layout, hLen]
    · have hSize : f.path.text.length ≤ maxManifestPathBytes := hPath.size
      have hSome : f.path.text.length ≠ 0 := by
        intro hNone
        have hEmpty := hPath.segments
        rw [length_eq_zero_iff.mp hNone] at hEmpty
        exact absurd (hEmpty [] (by simp)) (by decide)
      simp only [Bool.not_eq_true', Bool.or_eq_false_iff, beq_eq_false_iff_ne, ne_eq,
        decide_eq_false_iff_not, hLen, ← UInt16.toNat_inj, UInt16.toNat_zero]
      omega
    · by_cases hEntry : f.path = entryPoint
      · simp [hExec hEntry]
      · simp [hEntry]

theorem declared_record (entryPoint : ManifestPath) {f : ManifestFileRecord}
    (h : s.declaredContentBytes.toNat + f.declaredSize.toNat ≤ m1MaxDeclaredPackageBytes.toNat) :
    (s.record entryPoint f).declaredContentBytes.toNat =
      s.declaredContentBytes.toNat + f.declaredSize.toNat := by
  have hMax : m1MaxDeclaredPackageBytes.toNat = 536870912 := rfl
  rw [record, UInt64.toNat_add, Nat.mod_eq_of_lt (by omega)]

/-- Together, the steps of the loop say this of the files. -/
theorem chain_files (entryPoint : ManifestPath) (files : List ManifestFileRecord)
    (hTotal : s.declaredContentBytes.toNat ≤ m1MaxDeclaredPackageBytes.toNat) :
    Records.Chain (record entryPoint) (FileAdmitted entryPoint) s files ↔
      (∀ f ∈ files, ValidPath f.path.text ∧ f.flags &&& ~~~manifestFileKnownFlags = 0 ∧
        (f.path = entryPoint → f.executable = true)) ∧
      (files.map (·.path)).Nodup ∧ (∀ f ∈ files, f.path ∉ s.files.map (·.path)) ∧
      s.declaredContentBytes.toNat + (files.map (·.declaredSize.toNat)).sum ≤
        m1MaxDeclaredPackageBytes.toNat := by
  induction files generalizing s with
  | nil => simpa [Records.Chain] using hTotal
  | cons f rest ih =>
    simp only [Records.Chain, map_cons, nodup_cons, forall_mem_cons, sum_cons]
    constructor
    · rintro ⟨⟨hPath, hFlags, hNew, hBounded, hExec⟩, hRest⟩
      obtain ⟨hAll, hDist, hApart, hTotal'⟩ :=
        (ih (declared_record entryPoint hBounded ▸ hBounded)).mp hRest
      rw [declared_record entryPoint hBounded] at hTotal'
      have hSplit : ∀ g ∈ rest, g.path ∉ s.files.map (·.path) ∧ g.path ≠ f.path := by
        intro g hg
        have hNot := hApart g hg
        simp only [record, map_append, mem_append, not_or, map_cons, map_nil, mem_singleton] at hNot
        exact hNot
      refine ⟨⟨⟨hPath, hFlags, hExec⟩, hAll⟩, ⟨?_, hDist⟩,
        ⟨hNew, fun g hg => (hSplit g hg).1⟩, by omega⟩
      intro hMem
      obtain ⟨g, hg, hEq⟩ := mem_map.mp hMem
      exact (hSplit g hg).2 hEq
    · rintro ⟨⟨⟨hPath, hFlags, hExec⟩, hAll⟩, ⟨hFirst, hDist⟩, ⟨hNew, hApart⟩, hTotal'⟩
      have hBounded : s.declaredContentBytes.toNat + f.declaredSize.toNat ≤
          m1MaxDeclaredPackageBytes.toNat := by omega
      refine ⟨⟨hPath, hFlags, hNew, hBounded, hExec⟩,
        (ih (declared_record entryPoint hBounded ▸ hBounded)).mpr ⟨hAll, hDist, ?_, ?_⟩⟩
      · intro g hg
        simp only [record, map_append, mem_append, not_or, map_cons, map_nil, mem_singleton]
        refine ⟨hApart g hg, ?_⟩
        intro hEq
        exact hFirst (hEq ▸ mem_map_of_mem hg)
      · rw [declared_record entryPoint hBounded]
        omega

/-- What the loop has in the end. -/
theorem foldl_record (entryPoint : ManifestPath) (s : FileState) (files : List ManifestFileRecord)
    (hTotal : s.declaredContentBytes.toNat + (files.map (·.declaredSize.toNat)).sum ≤
      m1MaxDeclaredPackageBytes.toNat) :
    (files.foldl (record entryPoint) s).files = s.files ++ files ∧
      (files.foldl (record entryPoint) s).declaredContentBytes.toNat =
        s.declaredContentBytes.toNat + (files.map (·.declaredSize.toNat)).sum ∧
      (files.foldl (record entryPoint) s).entryPointFound =
        (s.entryPointFound || files.any fun f => f.path == entryPoint) := by
  induction files generalizing s with
  | nil => simp
  | cons f _ ih =>
    rw [map_cons, sum_cons] at hTotal
    have hSum := declared_record entryPoint (s := s) (f := f) (by omega)
    obtain ⟨hFiles, hDeclared, hFound⟩ := ih (s.record entryPoint f) (by omega)
    refine ⟨?_, ?_, ?_⟩
    · rw [foldl_cons, hFiles]
      simp [record]
    · rw [foldl_cons, hDeclared, hSum, map_cons, sum_cons, Nat.add_assoc]
    · rw [foldl_cons, hFound]
      simp [record, Bool.or_assoc]

theorem takePermissions_eq_ok_iff {n : ℕ} :
    Records.takeAll readPermission (fun _ permission => permission) n 0 rest =
        .ok (permissions, left) ↔
      permissions.length = n ∧
        rest = permissions.flatMap (fun permission => bytesOf 4 permission.toNat) ++ left ∧
        permissions.Pairwise (· < ·) ∧ ∀ permission ∈ permissions, permission ≠ 0 := by
  rw [← pairwise_zero, ← chain_permissions]
  exact Records.takeAll_eq_ok_iff readPermission_eq_ok_iff

theorem takeFiles_eq_ok_iff {entryPoint : ManifestPath} {n : ℕ} {files : List ManifestFileRecord} :
    Records.takeAll (readFile entryPoint) (record entryPoint) n {} rest = .ok (files, left) ↔
      files.length = n ∧ rest = files.flatMap bytes ++ left ∧
        (∀ f ∈ files, ValidPath f.path.text ∧ f.flags &&& ~~~manifestFileKnownFlags = 0 ∧
          (f.path = entryPoint → f.executable = true)) ∧
        (files.map (·.path)).Nodup ∧
        (files.map (·.declaredSize.toNat)).sum ≤ m1MaxDeclaredPackageBytes.toNat := by
  rw [Records.takeAll_eq_ok_iff (readFile_eq_ok_iff entryPoint),
    chain_files entryPoint files (Nat.zero_le _)]
  simp

theorem inside_analyze (bytes : List UInt8) : Inside (analyze bytes) := by
  have hPerm : ∀ previous rest, Inside (readPermission previous rest) := by
    intro previous rest
    exact .bind (.readU32 _) fun _ => .bind (.require _ _) fun _ => .bind (.require _ _) fun _ =>
      .ok _
  have hFile : ∀ entryPoint s rest, Inside (readFile entryPoint s rest) := by
    intro entryPoint s rest
    exact .bind (.readU16 _) fun _ => .bind (.readU16 _) fun _ => .bind (.readU64 _) fun _ =>
      .bind (.require _ _) fun _ => .bind (.require _ _) fun _ => .bind (.readText _ _) fun _ =>
      .bind (.parsed _) fun _ => .bind (.require _ _) fun _ => .bind (.require _ _) fun _ =>
      .bind (.require _ _) fun _ => .ok _
  refine .bind (.require _ _) fun _ => .bind (.require _ _) fun _ => .bind (.readU32 _) fun _ =>
    .bind (.readU16 _) fun _ => .bind (.readU16 _) fun _ => .bind (.readU32 _) fun _ =>
    .bind (.readU16 _) fun _ => .bind (.readU16 _) fun _ => .bind (.readU16 _) fun _ =>
    .bind (.readU16 _) fun _ => .bind (.readU32 _) fun _ => ?_
  refine .bind (.require _ _) fun _ => .bind (.require _ _) fun _ => .bind (.require _ _) fun _ =>
    .bind (.require _ _) fun _ => .bind (.require _ _) fun _ => .bind (.require _ _) fun _ =>
    .bind (.readText _ _) fun _ => .bind (.readText _ _) fun _ => .bind (.parsed _) fun _ =>
    .bind (.parsed _) fun _ => .bind (.takeAll hPerm _ _ _) fun _ =>
    .bind (.takeAll (hFile _) _ _ _) fun _ => .bind (.require _ _) fun _ =>
    .bind (.require _ _) fun _ => .ok _

theorem ne_nil_of_validPath (h : ValidPath text) : text.length ≠ 0 := by
  intro hNone
  have hSegments := h.segments
  rw [length_eq_zero_iff.mp hNone] at hSegments
  exact absurd (hSegments [] (by simp)) (by decide)

theorem ne_nil_of_validPackageId (h : ValidPackageId text) : text.length ≠ 0 := by
  intro hNone
  have hSegments := h.segments
  rw [length_eq_zero_iff.mp hNone] at hSegments
  exact absurd (hSegments [] (by simp)) (by decide)

/-- The header limits, as the code tests them. -/
theorem sizes_check (packageIdSize entryPointSize fileCount permissionCount : UInt16) :
    (!(packageIdSize == 0 || decide (maxPackageIdBytes < packageIdSize.toNat) ||
      entryPointSize == 0 || decide (maxManifestPathBytes < entryPointSize.toNat) ||
      fileCount == 0 || decide (maxManifestFiles < fileCount.toNat) ||
      decide (maxRequestedPermissions < permissionCount.toNat))) = true ↔
    packageIdSize.toNat ≠ 0 ∧ packageIdSize.toNat ≤ maxPackageIdBytes ∧
      entryPointSize.toNat ≠ 0 ∧ entryPointSize.toNat ≤ maxManifestPathBytes ∧
      fileCount.toNat ≠ 0 ∧ fileCount.toNat ≤ maxManifestFiles ∧
      permissionCount.toNat ≤ maxRequestedPermissions := by
  simp only [Bool.not_eq_true', Bool.or_eq_false_iff, beq_eq_false_iff_ne, ne_eq,
    decide_eq_false_iff_not, Nat.not_lt, ← UInt16.toNat_inj, UInt16.toNat_zero, and_assoc]

namespace AnalyzedPackageManifest

variable {m : AnalyzedPackageManifest}

theorem length_serialise (m : AnalyzedPackageManifest) :
    m.serialise.length = packageManifestHeaderSizeV1.toNat + m.payload.length := by
  rw [serialise, length_append, length_layout]
  rfl

/-- The limits on the parts keep a manifest well below the limit on the whole. -/
theorem WellFormed.length_le (h : m.WellFormed) :
    packageManifestHeaderSizeV1.toNat + m.payload.length ≤ maxPackageManifestBytes := by
  have hId : m.packageId.text.length ≤ 96 := h.packageId.size
  have hEntry : m.entryPoint.text.length ≤ 256 := h.entryPoint.size
  have hPerms : (m.requestedPermissions.flatMap fun permission =>
      bytesOf 4 permission.toNat).length ≤ 32 * 4 := by
    have hCnt : m.requestedPermissions.length ≤ 32 := h.permissionCount
    rw [length_flatMap]
    simp only [length_bytesOf, map_const', sum_replicate_nat]
    omega
  have hFiles : (m.files.flatMap bytes).length ≤ 128 * 268 := by
    have hCnt : m.files.length ≤ 128 := h.fileCount.2
    have hOne : ∀ f ∈ m.files, f.bytes.length ≤ 268 := by
      intro f hf
      have hPath : f.path.text.length ≤ 256 := (h.paths f hf).size
      rw [bytes, length_append, length_layout]
      change 12 + f.path.text.length ≤ 268
      omega
    rw [length_flatMap]
    have hSum := sum_le_card_nsmul (m.files.map fun f => f.bytes.length) 268
      (by simpa using hOne)
    rw [length_map, smul_eq_mul] at hSum
    exact hSum.trans (Nat.mul_le_mul_right _ hCnt)
  have hHeader : packageManifestHeaderSizeV1.toNat = 24 := rfl
  have hMax : maxPackageManifestBytes = 65536 := rfl
  rw [payload, length_append, length_append, length_append]
  omega

end AnalyzedPackageManifest

theorem analyze_eq_ok_iff {bytes : List UInt8} {m : AnalyzedPackageManifest} :
    analyze bytes = .ok m ↔ m.WellFormed ∧ m.serialise = bytes := by
  rw [analyze]
  simp only [bind_eq_ok_iff, require_eq_ok_iff, Prod.exists, readU16_eq_ok_iff, readU32_eq_ok_iff,
    readText_eq_ok_iff, parsed_eq_ok_iff, parsePath_eq_ok_iff, parseId_eq_ok_iff,
    takePermissions_eq_ok_iff, takeFiles_eq_ok_iff, sizes_check, Except.ok.injEq, exists_const,
    beq_iff_eq, decide_eq_true_eq]
  constructor
  · rintro ⟨-, -, magic, r₁, h₁, version, r₂, h₂, headerSize, r₃, h₃, totalSize, r₄, h₄,
      packageIdSize, r₅, h₅, entryPointSize, r₆, h₆, fileCount, r₇, h₇, permissionCount, r₈,
      h₈, reserved, r₉, h₉, hMagic, hVer, hHeader, hTotal, hResv, hSizes, h⟩
    obtain ⟨-, -, -, -, hSomeFile, hFileMax, hPermMax⟩ := hSizes
    obtain ⟨idText, r₁₀, ⟨h₁₀, hIdSize⟩, entryText, r₁₁, ⟨h₁₁, hEntrySize⟩, h⟩ := h
    obtain ⟨packageId, ⟨hIdText, hId⟩, entryPoint, ⟨hEntryText, hEntry⟩, h⟩ := h
    obtain ⟨permissions, r₁₂, ⟨hPermCnt, h₁₂, hAscending, hNonzero⟩, h⟩ := h
    obtain ⟨files, r₁₃, ⟨hFileCnt, h₁₃, hFiles, hDist, hBounded⟩, hFound, hEnd, hm⟩ := h
    obtain ⟨hKept, hDeclared, hSeen⟩ := foldl_record entryPoint {} files (by simpa using hBounded)
    rw [nil_append] at hKept
    rw [hKept] at hm
    rw [hSeen, Bool.false_or, any_eq_true] at hFound
    obtain ⟨f, hf, hPath⟩ := hFound
    have hPath : f.path = entryPoint := by simpa using hPath
    subst hm
    refine ⟨⟨hIdText ▸ hId, hEntryText ▸ hEntry, ⟨f, hf, hPath, (hFiles f hf).2.2 hPath, ?_⟩,
      hAscending, hNonzero, hPermCnt ▸ hPermMax, ⟨?_, hFileCnt ▸ hFileMax⟩,
      fun g hg => (hFiles g hg).1, hDist, fun g hg => (hFiles g hg).2.1, ?_, hBounded⟩, ?_⟩
    · intro g hg hSame
      exact inj_on_of_nodup_map hDist hg hf (hSame.trans hPath.symm)
    · change 1 ≤ files.length
      omega
    · rw [hDeclared]
      exact Nat.zero_add _
    have hLeft : r₁₃ = [] := isEmpty_iff.mp hEnd
    rw [hLeft, append_nil] at h₁₃
    have hPayload : r₉ = idText ++ entryText ++
        permissions.flatMap (fun permission => bytesOf 4 permission.toNat) ++
        files.flatMap ManifestFileRecord.bytes := by
      rw [h₁₀, h₁₁, h₁₂, h₁₃]
      simp only [append_assoc]
    have hBytes : bytes = layout [(4, magic.toNat), (2, version.toNat), (2, headerSize.toNat),
        (4, totalSize.toNat), (2, packageIdSize.toNat), (2, entryPointSize.toNat),
        (2, fileCount.toNat), (2, permissionCount.toNat), (4, reserved.toNat)] ++ r₉ := by
      rw [h₁, h₂, h₃, h₄, h₅, h₆, h₇, h₈, h₉]
      simp only [layout_cons_append]
      rfl
    have hLen : bytes.length = packageManifestHeaderSizeV1.toNat + r₉.length := by
      rw [hBytes, length_append, length_layout]
      rfl
    rw [serialise, hBytes, hTotal, hLen, hMagic, hVer, hHeader, hResv, ← hIdSize,
      ← hEntrySize, ← hFileCnt, ← hPermCnt, hPayload, payload, hIdText, hEntryText]
    rfl
  · rintro ⟨h, rfl⟩
    have hMax := h.length_le
    have hHeader : packageManifestHeaderSizeV1.toNat = 24 := rfl
    have hLimit : maxPackageManifestBytes = 65536 := rfl
    have hTotal : (UInt32.ofNat (packageManifestHeaderSizeV1.toNat + m.payload.length)).toNat =
        packageManifestHeaderSizeV1.toNat + m.payload.length := by
      rw [UInt32.toNat_ofNat']
      omega
    have hNarrow : ∀ n ≤ 256, (UInt16.ofNat n).toNat = n := by
      intro n hn
      rw [UInt16.toNat_ofNat']
      omega
    have hIdMax : m.packageId.text.length ≤ 96 := h.packageId.size
    have hEntryMax : m.entryPoint.text.length ≤ 256 := h.entryPoint.size
    have hFileMax : m.files.length ≤ 128 := h.fileCount.2
    have hPermMax : m.requestedPermissions.length ≤ 32 := h.permissionCount
    have hId := hNarrow m.packageId.text.length (by omega)
    have hEntry := hNarrow m.entryPoint.text.length hEntryMax
    have hFiles := hNarrow m.files.length (by omega)
    have hPerms := hNarrow m.requestedPermissions.length (by omega)
    obtain ⟨hKept, hDeclared, hSeen⟩ :=
      foldl_record m.entryPoint {} m.files (by simpa using h.bounded)
    obtain ⟨f, hf, hPath, hExec, hOnly⟩ := h.entry
    refine ⟨by rw [length_serialise]; omega, by rw [length_serialise]; omega,
      packageManifestMagicV1, _, (layout_cons_append ..), packageManifestVersionV1, _,
      (layout_cons_append ..), packageManifestHeaderSizeV1, _, (layout_cons_append ..),
      UInt32.ofNat (packageManifestHeaderSizeV1.toNat + m.payload.length), _,
      (by rw [hTotal]; exact layout_cons_append ..), UInt16.ofNat m.packageId.text.length, _,
      (by rw [hId]; exact layout_cons_append ..), UInt16.ofNat m.entryPoint.text.length, _,
      (by rw [hEntry]; exact layout_cons_append ..), UInt16.ofNat m.files.length, _,
      (by rw [hFiles]; exact layout_cons_append ..), UInt16.ofNat m.requestedPermissions.length, _,
      (by rw [hPerms]; exact layout_cons_append ..), 0, m.payload,
      (layout_cons_append ..), rfl, rfl, rfl, (by rw [hTotal, length_serialise]), rfl, ?_, ?_⟩
    · rw [hId, hEntry, hFiles, hPerms]
      exact ⟨ne_nil_of_validPackageId h.packageId, hIdMax, ne_nil_of_validPath h.entryPoint,
        hEntryMax, Nat.one_le_iff_ne_zero.mp h.fileCount.1, hFileMax, hPermMax⟩
    refine ⟨m.packageId.text, _, ⟨by rw [payload]; simp only [append_assoc], hId.symm⟩,
      m.entryPoint.text, _, ⟨rfl, hEntry.symm⟩, m.packageId, ⟨rfl, h.packageId⟩, m.entryPoint,
      ⟨rfl, h.entryPoint⟩, m.requestedPermissions, _,
      ⟨hPerms.symm, rfl, h.ascending, h.nonzero⟩, m.files, [],
      ⟨hFiles.symm, (append_nil _).symm, ?_, h.distinct, h.bounded⟩, ?_, rfl, ?_⟩
    · intro g hg
      refine ⟨h.paths g hg, h.flags g hg, ?_⟩
      intro hEq
      rw [hOnly g hg hEq]
      exact hExec
    · rw [hSeen, Bool.false_or, any_eq_true]
      exact ⟨f, hf, by simp [hPath]⟩
    · have hTotal' : (m.files.foldl (record m.entryPoint) {}).declaredContentBytes =
          m.declaredContentBytes := by
        refine UInt64.toNat_inj.mp ?_
        rw [hDeclared, h.declared]
        exact Nat.zero_add _
      rw [hKept, hTotal']
      rfl

/-- For every byte string the analysis ends without a read outside it, and it returns
a manifest exactly if that manifest is well formed and the bytes are its serialised
form. So no two byte strings give one manifest. -/
theorem analyze_accepts_exactly_serialised (bytes : List UInt8) :
    analyze bytes ≠ .error .outside ∧
      (∀ m, analyze bytes = .ok m ↔ m.WellFormed ∧ m.serialise = bytes) ∧
      ∀ other m, analyze bytes = .ok m → analyze other = .ok m → bytes = other := by
  refine ⟨inside_analyze bytes, fun m => analyze_eq_ok_iff, ?_⟩
  intro other m hBytes hOther
  exact (analyze_eq_ok_iff.mp hBytes).2.symm.trans (analyze_eq_ok_iff.mp hOther).2

end Enml.OsPackage
