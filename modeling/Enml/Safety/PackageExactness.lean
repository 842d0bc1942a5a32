import Enml.Invariant.PackageDecoding
import Enml.Safety.PackageOwnership

/-! The package registry and its file say the same thing. Whatever file there is
that holds anything is read as the one registry that is written so; a file of no
bytes is taken for no file at all, and read as an empty registry. -/
namespace Enml.OsPackage

open Enml.Core LittleEndian Buffer PackageRun OsPackage List

namespace PackageRegistry

/-- `persist_candidate` of the registry, with all its calls on files made, leaves
these bytes. -/
def WrittenAs (r : PackageRegistry) (bytes : List UInt8) : Prop :=
  ∀ file, persistCandidate file r {} = (some bytes, .ok ())

variable {r : PackageRegistry} {bytes : List UInt8}

theorem Sound.persistCandidate_eq_ok (h : r.Sound) {file written : Option (List UInt8)}
    {calls : FileCalls} (hDone : persistCandidate file r calls = (written, .ok ())) :
    written = some (snapshotBytes r) := by
  obtain ⟨e, hPersist, -⟩ | ⟨e, hPersist, -⟩ | ⟨hPersist, -⟩ :=
    PackageService.persistCandidate_cases file h calls
  · rw [hPersist] at hDone
    cases hDone
  · rw [hPersist] at hDone
    cases hDone
  · rw [hPersist] at hDone
    cases hDone
    rfl

theorem Sound.writtenAs (h : r.Sound) : r.WrittenAs (snapshotBytes r) := by
  intro file
  rw [persistCandidate, encodeSnapshot_eq h]
  rfl

/-- Nothing is written as a file of no bytes. -/
theorem Sound.not_writtenAs_nil (h : r.Sound) : ¬r.WrittenAs [] := by
  intro hWritten
  have hBytes := h.persistCandidate_eq_ok (hWritten none)
  have hLen := OsPackage.length_snapshotBytes r
  rw [← Option.some.inj hBytes, length_nil] at hLen
  omega

/-- A file that holds something is accepted exactly as what its registry is written as. -/
theorem loadSnapshot_eq_ok (hSome : bytes ≠ []) (h : loadSnapshot (some bytes) = .ok r) :
    bytes = snapshotBytes r := by
  rw [loadSnapshot, Option.getD_some] at h
  obtain ⟨-, h⟩ := guard_ok h
  obtain ⟨hNone, -⟩ | ⟨-, h⟩ := ite_eq_iff.mp h
  · exact absurd (by simpa using hNone) hSome
  obtain ⟨-, h⟩ := guard_ok h
  exact decodeSnapshot_eq_ok h

theorem loadSnapshot_nil : loadSnapshot (some []) = .ok {} := rfl

/-- What is read from a file is written as that file, unless there is nothing in it. -/
theorem writtenAs_iff (bytes : List UInt8) :
    (∀ r, loadSnapshot (some bytes) = .ok r → r.WrittenAs bytes) ↔ bytes ≠ [] := by
  constructor
  · rintro hExact rfl
    exact sound_empty.not_writtenAs_nil (hExact {} loadSnapshot_nil)
  intro hSome r hLoad
  have hBytes := loadSnapshot_eq_ok hSome hLoad
  rw [hBytes]
  exact (loadSnapshot_sound hLoad).writtenAs

/-- The header says how long the file is. -/
theorem slice_size (r : PackageRegistry) :
    slice (snapshotBytes r) 8 4 = u32Bytes (UInt32.ofNat (snapshotBytes r).length) := by
  let front := u32Bytes packageRegistrySnapshotMagic ++ (u16Bytes packageRegistrySnapshotVersion ++
    u16Bytes packageRegistrySnapshotHeaderSize)
  have hFront : front.length = 8 := by simp [front]
  have hSplit : ∃ back, snapshotBytes r =
      front ++ (u32Bytes (UInt32.ofNat (snapshotBytes r).length) ++ back) := by
    rw [length_snapshotBytes]
    exact ⟨_, by simp [snapshotBytes, headerFields, front]; rfl⟩
  obtain ⟨back, hBytes⟩ := hSplit
  rw [hBytes, slice_right (Nat.le_of_eq hFront), hFront, Nat.sub_self,
    slice_left (length_u32Bytes _), ← hBytes]

/-- Of a file cut short only nothing at all is accepted. -/
theorem Sound.truncated_iff (h : r.Sound) {n : ℕ} (hCut : n < (snapshotBytes r).length) :
    (¬∃ r', loadSnapshot (some ((snapshotBytes r).take n)) = .ok r') ↔ n ≠ 0 := by
  constructor
  · rintro hRefused rfl
    exact hRefused ⟨{}, loadSnapshot_nil⟩
  rintro hSome ⟨r', hLoad⟩
  have hLen : ((snapshotBytes r).take n).length = n := by
    rw [length_take]
    omega
  have hBytes : (snapshotBytes r).take n = snapshotBytes r' := by
    refine loadSnapshot_eq_ok (fun hNil => hSome ?_) hLoad
    rw [← hLen, hNil, length_nil]
  have hShort : (snapshotBytes r').length = n := by rw [← hBytes, hLen]
  -- the cut leaves the header, and with it the size of the whole
  have hSize : slice (snapshotBytes r') 8 4 = slice (snapshotBytes r) 8 4 := by
    have hHeader := OsPackage.length_snapshotBytes r'
    rw [← hBytes, slice, slice, List.drop_take, List.take_take]
    congr 1
    omega
  rw [slice_size, slice_size, u32Bytes_eq, u32Bytes_eq] at hSize
  have hWords := bytesOf_inj (UInt32.toNat_lt _) (UInt32.toNat_lt _) hSize
  have hLimit := h.length_snapshotBytes
  unfold maxPackageRegistrySnapshotBytes at hLimit
  rw [UInt32.toNat_ofNat', UInt32.toNat_ofNat', hShort, Nat.mod_eq_of_lt (by omega),
    Nat.mod_eq_of_lt (by omega)] at hWords
  omega

/-- In every run the file of a registry is read as that registry. Every other
file is read as what it is written from exactly if there is something in it, and
a file cut short is refused exactly if something is left of it. -/
theorem damaged_registry_is_refused_iff (ms : List Mutation) :
    (∀ file written calls, persistCandidate file (Run.after step {} ms) calls = (written, .ok ()) →
      loadSnapshot written = .ok (Run.after step {} ms)) ∧
    (∀ bytes, (∀ r, loadSnapshot (some bytes) = .ok r → r.WrittenAs bytes) ↔ bytes ≠ []) ∧
    ∀ bytes n, (Run.after step {} ms).WrittenAs bytes → n < bytes.length →
      ((¬∃ r', loadSnapshot (some (bytes.take n)) = .ok r') ↔ n ≠ 0) := by
  have hSound : (Run.after step {} ms).Sound := (sound_run ms).final
  refine ⟨fun file written calls hDone => ?_, writtenAs_iff, fun bytes n hWritten hCut => ?_⟩
  · rw [hSound.persistCandidate_eq_ok hDone]
    exact loadSnapshot_snapshotBytes hSound
  · obtain rfl : bytes = snapshotBytes _ :=
      Option.some.inj (hSound.persistCandidate_eq_ok (hWritten none))
    exact hSound.truncated_iff hCut

/-- Cut to nothing, the file of a registry with a package in it is accepted, and
the package has no owner any more. -/
theorem empty_file_forgets_owner :
    ∃ bytes owner, (Run.after step {} [.stageGeneration sampleRecord]).WrittenAs bytes ∧
      (Run.after step {} [.stageGeneration sampleRecord]).owner
        sampleRecord.application.packageId = .ok owner ∧
      loadSnapshot (some (bytes.take 0)) = .ok {} ∧
      ({} : PackageRegistry).owner sampleRecord.application.packageId =
        .error (packageError Errors.unknownPackage) ∧
      ¬({} : PackageRegistry).WrittenAs (bytes.take 0) := by
  have hSound := (sound_run [.stageGeneration sampleRecord]).final
  refine ⟨_, sampleRecord.application, hSound.writtenAs, by decide +kernel,
    loadSnapshot_nil, by decide +kernel, sound_empty.not_writtenAs_nil⟩

end PackageRegistry

end Enml.OsPackage
