import Enml.Invariant.PackageSnapshot
import Enml.Lib.Run
import Enml.OsPackage.Persistence

/-! The running registry and the one that is read from the file. A mutation becomes
visible with the rename. When the directory cannot be synced after that, the call fails
and the service goes on with the registry it had before. -/
namespace Enml.OsPackage

open Enml.Core List

namespace PackageRegistry

variable {m : Mutation} {generation : PackageGenerationId}

/-- No question that can be asked tells the two registries apart. -/
structure SameAnswers (r again : PackageRegistry) : Prop where
  active : ∀ application, r.active application = again.active application
  generation : ∀ application generationId,
    r.generation application generationId = again.generation application generationId
  owner : ∀ packageId, r.owner packageId = again.owner packageId
  applicationCount : r.applicationCount = again.applicationCount

variable {r c : PackageRegistry}

theorem SameAnswers.refl (r : PackageRegistry) : r.SameAnswers r :=
  ⟨fun _ => rfl, fun _ _ => rfl, fun _ => rfl, rfl⟩

/-- The mutation asks for what is the case already. -/
def Idle (r : PackageRegistry) : Mutation → Prop
  | .stageGeneration _ => False
  | .activate application generation =>
    ∃ record, r.active application = .ok record ∧ record.generation = generation
  | .uninstall application => ¬∃ record, r.active application = .ok record

theorem Sound.candidate (h : r.Sound) (hCand : r.candidate m = .ok c) : c.Sound := by
  cases m with
  | stageGeneration record => exact h.stageGeneration hCand
  | activate application generation => exact h.activate hCand
  | uninstall application => exact h.uninstall hCand

theorem Sound.modifySlot_of_fixed (h : r.Sound) {packageId : PackageId} {f : Slot → Slot}
    {slot : Slot} (hFind : r.findByPackageId packageId = some slot) (hFixed : f slot = slot) :
    r.modifySlot packageId f = r := by
  have hSame : (r.slots.map fun s => if s.key = some packageId then f s else s) = r.slots := by
    refine (map_congr_left fun s hs => ?_).trans (map_id r.slots)
    split_ifs with hKey
    · obtain ⟨hMem, hId⟩ := mem_of_find hFind
      have hOnly : s = slot :=
        inj_on_of_nodup_map h.ids hs hMem ((Option.some.inj hKey).trans hId.symm)
      rw [hOnly, hFixed, id]
    · rfl
  rw [PackageRegistry.modifySlot, SlotTable.modify_eq_map h.keys, hSame]

variable {application : ApplicationIdentity} {slot : Slot} {record : PackageGenerationRecord}

theorem generation_eq_ok_iff (hValid : application.valid = true) (hNonzero : generation ≠ 0)
    (hSlot : r.slotOf application = .ok slot) :
    r.generation application generation = .ok record ↔
      slot.generations.find? (fun g => g.generation == generation) = some record := by
  rw [PackageRegistry.generation, if_neg (by simp [hValid, hNonzero]), hSlot]
  simp only
  cases slot.generations.find? fun g => g.generation == generation with
  | none | some g => simp

theorem active_eq_ok (h : r.active application = .ok record) :
    ∃ slot, r.slotOf application = .ok slot ∧
      slot.hasActive = true ∧ record.generation = slot.activeGeneration := by
  rw [active] at h
  obtain ⟨hValid, h⟩ := guard_ok h
  split at h
  · cases h
  rename_i slot hSlot
  obtain ⟨hActive, h⟩ := guard_ok h
  refine ⟨slot, hSlot, by simpa using hActive, ?_⟩
  by_cases hZero : slot.activeGeneration = 0
  · simp [PackageRegistry.generation, hZero] at h
  · rw [generation_eq_ok_iff (by simpa using hValid) hZero hSlot] at h
    have hHit := List.find?_some h
    exact beq_iff_eq.mp hHit

theorem active_of_slot (hValid : application.valid = true)
    (hSlot : r.slotOf application = .ok slot) (hSound : slot.Sound)
    (hActive : slot.hasActive = true) :
    ∃ record, r.active application = .ok record ∧ record.generation = slot.activeGeneration := by
  obtain ⟨g, hg, hSame⟩ := hSound.active hActive
  cases hFind : slot.generations.find? (fun g => g.generation == slot.activeGeneration) with
  | none => exact absurd (beq_iff_eq.mpr hSame) (List.find?_eq_none.mp hFind g hg)
  | some record =>
    have hHit := List.find?_some hFind
    refine ⟨record, ?_, beq_iff_eq.mp hHit⟩
    rw [active, if_neg (by simp [hValid]), hSlot]
    simp only [hActive]
    exact (generation_eq_ok_iff hValid (hSound.active_ne_zero hActive) hSlot).mpr hFind

theorem active_of_inactive (hSlot : r.slotOf application = .ok slot)
    (hActive : slot.hasActive = false) : ¬∃ record, r.active application = .ok record := by
  rintro ⟨record, h⟩
  obtain ⟨slot', hSlot', hActive', -⟩ := active_eq_ok h
  rw [hSlot] at hSlot'
  cases hSlot'
  rw [hActive] at hActive'
  cases hActive'

/-- A generation that was staged could not be found before. -/
theorem Sound.not_same_stage (h : r.Sound) {record : PackageGenerationRecord}
    (hStaged : r.stageGeneration record = .ok c) : ¬r.SameAnswers c := by
  intro hSame
  obtain ⟨hValid, hCases⟩ := stageGeneration_eq_ok hStaged
  have hParts := hValid
  simp only [PackageGenerationRecord.valid, Bool.and_eq_true, bne_iff_ne] at hParts
  obtain ⟨⟨hApp, hNonzero⟩, -⟩ := hParts
  have hEqual := hSame.generation record.application record.generation
  rcases hCases with ⟨hNew, -, rfl⟩ | ⟨slot, hSlot, hLast, -, rfl⟩
  · let slot : Slot := { application := record.application, generations := [record] }
    have hFind := find_last (s := slot) (find_eq_none.mp hNew)
    have hNext := slotOf_of_find record.application hFind rfl
    have hAfter : PackageRegistry.generation { slots := r.slots ++ [slot] } record.application
        record.generation = .ok record :=
      (generation_eq_ok_iff hApp hNonzero hNext).mpr (by simp [slot])
    rw [hAfter, PackageRegistry.generation, if_neg (by simp [hApp, hNonzero]), slotOf,
      hNew] at hEqual
    cases hEqual
  · obtain ⟨hFind, hOwner⟩ := slotOf_eq_ok hSlot
    have hOlder := lt_of_getLast (h.slots slot (mem_of_find hFind).1).increasing hLast
    have hBefore : ∀ found, r.generation record.application record.generation ≠ .ok found := by
      intro found hFound
      rw [generation_eq_ok_iff hApp hNonzero hSlot] at hFound
      have hHit := List.find?_some hFound
      have hLess := hOlder found (mem_of_find?_eq_some hFound)
      rw [beq_iff_eq.mp hHit] at hLess
      exact UInt64.lt_irrefl _ hLess
    have hNext := slotOf_of_find record.application
      (Sound.find_modifySlot (f := fun s => { s with generations := s.generations ++ [record] })
        hFind fun _ => rfl) hOwner
    have hSome : ((slot.generations ++ [record]).find? fun g =>
        g.generation == record.generation).isSome = true := by
      rw [List.find?_isSome]
      exact ⟨record, by simp, by simp⟩
    obtain ⟨found, hFound⟩ := Option.isSome_iff_exists.mp hSome
    have hAfter := (generation_eq_ok_iff hApp hNonzero hNext).mpr hFound
    exact hBefore found (hEqual.trans hAfter)

theorem Sound.same_activate_iff (h : r.Sound)
    (hActivated : r.activate application generation = .ok c) :
    r.SameAnswers c ↔ r.Idle (.activate application generation) := by
  have hSound := h.activate hActivated
  obtain ⟨hValid, -, slot, hSlot, -, rfl⟩ := activate_eq_ok hActivated
  obtain ⟨hFind, hApp⟩ := slotOf_eq_ok hSlot
  constructor
  · intro hSame
    have hNext := slotOf_of_find application
      (Sound.find_modifySlot (f := fun s =>
        { s with activeGeneration := generation, hasActive := true }) hFind fun _ => rfl)
      hApp
    have hSlotSound := hSound.slots _ (mem_of_find (slotOf_eq_ok hNext).1).1
    obtain ⟨record, hActive, hGen⟩ := active_of_slot hValid hNext hSlotSound rfl
    exact ⟨record, (hSame.active application).trans hActive, hGen⟩
  · rintro ⟨record, hActive, hGen⟩
    obtain ⟨slot', hSlot', hHasActive, hSameGen⟩ := active_eq_ok hActive
    rw [hSlot] at hSlot'
    cases hSlot'
    have hFixed : { slot with activeGeneration := generation, hasActive := true } = slot := by
      rw [← hHasActive, ← hGen, hSameGen]
    rw [h.modifySlot_of_fixed hFind hFixed]
    exact .refl r

theorem Sound.same_uninstall_iff (h : r.Sound) (hRemoved : r.uninstall application = .ok c) :
    r.SameAnswers c ↔ r.Idle (.uninstall application) := by
  obtain ⟨hValid, slot, hSlot, rfl⟩ := uninstall_eq_ok hRemoved
  obtain ⟨hFind, hApp⟩ := slotOf_eq_ok hSlot
  have hSlotSound := h.slots slot (mem_of_find hFind).1
  constructor
  · rintro hSame ⟨record, hActive⟩
    have hNext := slotOf_of_find application
      (Sound.find_modifySlot (f := fun s => { s with hasActive := false, activeGeneration := 0 })
        hFind fun _ => rfl) hApp
    rw [hSame.active] at hActive
    exact active_of_inactive hNext rfl ⟨record, hActive⟩
  · intro hNone
    have hInactive : slot.hasActive = false := by
      cases hActive : slot.hasActive with
      | false => rfl
      | true =>
        obtain ⟨record, hRec, -⟩ := active_of_slot hValid hSlot hSlotSound hActive
        exact absurd ⟨record, hRec⟩ hNone
    have hFixed : { slot with hasActive := false, activeGeneration := 0 } = slot := by
      rw [← hInactive, ← hSlotSound.inactive hInactive]
    rw [h.modifySlot_of_fixed hFind hFixed]
    exact .refl r

/-- A mutation can be noticed unless it asks for what is the case already. -/
theorem Sound.same_candidate_iff (h : r.Sound) (hCand : r.candidate m = .ok c) :
    r.SameAnswers c ↔ r.Idle m := by
  cases m with
  | stageGeneration => exact iff_of_false (h.not_same_stage hCand) id
  | activate => exact h.same_activate_iff hCand
  | uninstall => exact h.same_uninstall_iff hCand

end PackageRegistry

/-- The new file took the place of the old one, and the directory was not synced. -/
def FileCalls.unsettled (calls : FileCalls) : Prop :=
  calls.unlinkTemp = true ∧ calls.openTemp = true ∧ calls.chmodTemp = true ∧
    calls.writeTemp = true ∧ calls.syncTemp = true ∧ calls.rename = true ∧
    calls.syncDirectory = false

namespace PackageService

variable {s : PackageService} {r : PackageRegistry}

/-- The registry of the running service has a snapshot, and answers as the one that would
be read from the file. -/
def Agrees (s : PackageService) : Prop :=
  ∀ r, s.registry = some r → (∃ again, loadSnapshot s.file = .ok again ∧ r.SameAnswers again) ∧
      ∃ bytes, encodeSnapshot r = .ok bytes ∧ bytes.length ≤ maxPackageRegistrySnapshotBytes

/-- A step that leaves a file the service does not know about has asked for nothing new. -/
def Settled (s : PackageService) : PackageOp → Prop
  | .start _ _ => True
  | .mutate mutation calls => ∀ r c, s.registry = some r → r.candidate mutation = .ok c →
      calls.unsettled → r.Idle mutation

def Kept (s : PackageService) : Prop := ∀ r, s.registry = some r → r.Sound

theorem persistCandidate_cases (file : Option (List UInt8)) {c : PackageRegistry} (h : c.Sound)
    (calls : FileCalls) :
    (∃ e, persistCandidate file c calls = (file, .error e) ∧ ¬calls.unsettled) ∨
      (∃ e, persistCandidate file c calls = (some (snapshotBytes c), .error e) ∧ calls.unsettled) ∨
      (persistCandidate file c calls = (some (snapshotBytes c), .ok ()) ∧
        ¬calls.unsettled) := by
  rw [persistCandidate, encodeSnapshot_eq h]
  simp only [FileCalls.unsettled]
  cases calls.unlinkTemp with
  | false => simp
  | true =>
  cases calls.openTemp with
  | false => simp
  | true =>
  cases calls.chmodTemp with
  | false => simp
  | true =>
  cases calls.writeTemp with
  | false => simp
  | true =>
  cases calls.syncTemp with
  | false => simp
  | true =>
  cases calls.rename with
  | false => simp
  | true =>
  cases calls.syncDirectory with
  | false | true => simp

/-- What a mutation leaves behind. -/
theorem mutateWith_cases (h : r.Sound) (mutation : Mutation) (calls : FileCalls) :
    ((s.mutateWith r mutation calls).1 = s ∧ ∀ c, r.candidate mutation = .ok c → ¬calls.unsettled) ∨
      ∃ c, r.candidate mutation = .ok c ∧ c.Sound ∧
        (((s.mutateWith r mutation calls).1 = { s with file := some (snapshotBytes c) } ∧
            calls.unsettled) ∨
          ((s.mutateWith r mutation calls).1 =
              { file := some (snapshotBytes c), registry := some c } ∧
            ¬calls.unsettled)) := by
  cases hCand : r.candidate mutation with
  | error =>
    refine .inl ⟨?_, nofun⟩
    rw [mutateWith, hCand]
  | ok c =>
    have hSound := h.candidate hCand
    obtain ⟨e, hPersist, hSettled⟩ | ⟨e, hPersist, hSettled⟩ | ⟨hPersist, hSettled⟩ :=
      persistCandidate_cases s.file hSound calls
    · refine .inl ⟨?_, fun _ _ => hSettled⟩
      rw [mutateWith, hCand]
      simp only [hPersist]
    · refine .inr ⟨c, rfl, hSound, .inl ⟨?_, hSettled⟩⟩
      rw [mutateWith, hCand]
      simp only [hPersist]
    · refine .inr ⟨c, rfl, hSound, .inr ⟨?_, hSettled⟩⟩
      rw [mutateWith, hCand]
      simp only [hPersist]

theorem openRegistry_eq_ok {directory readable : Bool}
    (h : s.openRegistry directory readable = .ok r) : loadSnapshot s.file = .ok r := by
  rw [openRegistry] at h
  obtain ⟨-, h⟩ := guard_ok h
  obtain ⟨-, h⟩ := guard_ok h
  exact h

theorem Kept.step (h : s.Kept) (op : PackageOp) : (s.step op).1.Kept := by
  cases op with
  | start directory readable =>
    cases hOpen : s.openRegistry directory readable with
    | error => simp [Kept, PackageService.step, hOpen]
    | ok =>
      intro r' hr
      simp only [PackageService.step, hOpen] at hr
      cases hr
      exact loadSnapshot_sound (openRegistry_eq_ok hOpen)
  | mutate mutation calls =>
    cases hReg : s.registry with
    | none => simp [Kept, PackageService.step, hReg]
    | some r =>
      have hState : (s.step (.mutate mutation calls)).1 = (s.mutateWith r mutation calls).1 := by
        simp only [PackageService.step, hReg]
      rw [hState]
      obtain ⟨hSame, -⟩ | ⟨c, -, hSound, ⟨hNext, -⟩ | ⟨hNext, -⟩⟩ :=
        mutateWith_cases (s := s) (h r hReg) mutation calls
      · rw [hSame]
        exact h
      · rw [hNext]
        exact h
      rw [hNext]
      intro r' hr
      cases hr
      exact hSound

theorem agrees_of_load (hReg : s.registry = some r) (h : r.Sound)
    {again : PackageRegistry} (hLoad : loadSnapshot s.file = .ok again) :
    s.Agrees ↔ r.SameAnswers again := by
  constructor
  · intro hAgrees
    obtain ⟨⟨again', hLoad', hSame⟩, -⟩ := hAgrees r hReg
    rw [hLoad] at hLoad'
    cases hLoad'
    exact hSame
  · intro hSame r' hr
    rw [hReg] at hr
    cases hr
    exact ⟨⟨again, hLoad, hSame⟩, snapshotBytes r, encodeSnapshot_eq h, h.length_snapshotBytes⟩

/-- A step keeps the agreement exactly if it is settled. -/
theorem agrees_step_iff (hKept : s.Kept) (hAgrees : s.Agrees) (op : PackageOp) :
    (s.step op).1.Agrees ↔ s.Settled op := by
  cases op with
  | start directory readable =>
    refine iff_of_true ?_ trivial
    cases hOpen : s.openRegistry directory readable with
    | error => simp [Agrees, PackageService.step, hOpen]
    | ok r =>
      have hLoad := openRegistry_eq_ok hOpen
      have hState : (s.step (.start directory readable)).1 = { s with registry := some r } := by
        simp only [PackageService.step, hOpen]
      rw [hState]
      exact (agrees_of_load (s := { s with registry := some r }) rfl (loadSnapshot_sound hLoad)
        hLoad).mpr (.refl r)
  | mutate mutation calls =>
    cases hReg : s.registry with
    | none =>
      refine iff_of_true ?_ fun r c hr => ?_
      · simp [Agrees, PackageService.step, hReg]
      · rw [hReg] at hr
        cases hr
    | some r =>
      have hSound := hKept r hReg
      have hState : (s.step (.mutate mutation calls)).1 = (s.mutateWith r mutation calls).1 := by
        simp only [PackageService.step, hReg]
      have hSettled : s.Settled (.mutate mutation calls) ↔
          ∀ c, r.candidate mutation = .ok c → calls.unsettled →
            r.Idle mutation := by
        constructor
        · exact fun h c => h r c hReg
        intro h r' c hr
        rw [hReg] at hr
        cases hr
        exact h c
      rw [hState, hSettled]
      obtain ⟨hSame, hOnly⟩ | ⟨c, hCand, hNew, ⟨hNext, hUnsettled⟩ | ⟨hNext, hOnly⟩⟩ :=
        mutateWith_cases (s := s) hSound mutation calls
      · rw [hSame]
        exact iff_of_true hAgrees fun c hc hUnsettled => absurd hUnsettled (hOnly c hc)
      · -- The file is that of the mutation, the registry is the old one.
        rw [hNext, agrees_of_load (s := { s with file := some (snapshotBytes c) }) hReg
          hSound (loadSnapshot_snapshotBytes hNew), hSound.same_candidate_iff hCand]
        exact ⟨fun h _ _ _ => h, fun h => h c hCand hUnsettled⟩
      · rw [hNext, agrees_of_load (s := { file := _, registry := _ }) rfl hNew
           (loadSnapshot_snapshotBytes hNew)]
        exact iff_of_true (.refl c) fun _ _ hUnsettled => absurd hUnsettled hOnly

end PackageService

namespace PackageRun

open PackageService

/-- In a run from any file, the service and its file agree after every call exactly if no
mutation that changes something is renamed into place without the directory being synced. -/
theorem service_agrees_with_file_iff_settled (file : Option (List UInt8)) (ops : List PackageOp) :
    Run.Always PackageService.step Agrees { file } ops ↔
      Run.EachStep PackageService.step Settled { file } ops := by
  refine Run.always_iff_eachStep (W := Kept) ?_ ?_ ?_ ?_
  · exact nofun
  · exact fun s op h => h.step op
  · exact nofun
  · exact fun s op hKept hAgrees => agrees_step_iff hKept hAgrees op

def sampleRecord : PackageGenerationRecord where
  application :=
    { packageId := { text := [97], parsed := .inr (by decide) }
      signerLineage := Vector.replicate 32 1 }
  generation := 1
  content := Vector.replicate 32 2

/-- The first package is staged, and the directory cannot be synced after the rename. -/
def unsyncedStage : List PackageOp :=
  [.start true true, .mutate (.stageGeneration sampleRecord) { syncDirectory := false }]

/-- The service does not know the package, and after a restart it does. -/
theorem staged_package_appears_on_restart :
    ¬∀ (file : Option (List UInt8)) (ops : List PackageOp),
      Run.Always PackageService.step Agrees { file } ops := by
  intro h
  have hReg : (Run.after PackageService.step {} unsyncedStage).registry = some {} := by
    decide +kernel
  have hFile : (loadSnapshot (Run.after PackageService.step {} unsyncedStage).file).toOption.map
      PackageRegistry.applicationCount = some 1 := by
    decide +kernel
  obtain ⟨⟨again, hLoad, hSame⟩, -⟩ := (h none unsyncedStage).final {} hReg
  rw [hLoad] at hFile
  have hCnt : again.applicationCount = 1 := Option.some.inj hFile
  rw [← hSame.applicationCount] at hCnt
  cases hCnt

end PackageRun

end Enml.OsPackage
