import Enml.Safety.PackageReopen

/-! A package name belongs to the signer that staged it first. Over a run of
calls the record of each package is the list of the generations that were
accepted for it, and neither its owner nor that list is ever rewritten. -/
namespace Enml.OsPackage

open Enml.Core List Run PackageGenerationRecord

namespace PackageRegistry

variable {r r' : PackageRegistry} {m : Mutation} {id : PackageId}
  {f : Slot → Slot} {record : PackageGenerationRecord}

/-- Taking the slot first makes no difference: a slot that is new refuses nothing. -/
theorem stageInPlace_eq (r : PackageRegistry) (record : PackageGenerationRecord) :
    r.stageInPlace record = r.settle (r.stageGeneration record) := by
  rw [stageInPlace, PackageRegistry.stageGeneration]
  by_cases hValid : (!record.valid) = true
  · rw [if_pos hValid, if_pos hValid]
    rfl
  rw [if_neg hValid, if_neg hValid]
  cases hFind : r.findByPackageId record.application.packageId with
  | none =>
    simp only
    by_cases hFull : registryApplicationCapacity ≤ r.slots.length
    · rw [if_pos hFull, if_pos hFull]
      rfl
    have hModify := modify_last (s := { application := record.application })
      (fun s => { s with generations := s.generations ++ [record] }) (find_eq_none.mp hFind)
    rw [if_neg hFull, if_neg hFull, stageInSlot, if_neg (by simp),
      if_neg (by simp [registryGenerationsPerApplication])]
    exact congrArg (fun r => (r, Except.ok ())) hModify
  | some slot =>
    simp only
    by_cases hSigner : slot.application.signerLineage ≠ record.application.signerLineage
    · rw [if_pos hSigner, if_pos hSigner]
      rfl
    · rw [if_neg hSigner, if_neg hSigner, stageInSlot]
      split_ifs <;> rfl

theorem step_eq (r : PackageRegistry) (m : Mutation) : r.step m = r.settle (r.candidate m) := by
  cases m with
  | stageGeneration record => exact r.stageInPlace_eq record
  | activate | uninstall => rfl

theorem step_cases (r : PackageRegistry) (m : Mutation) :
    (∃ e, r.step m = (r, .error e)) ∨ ∃ r', r.candidate m = .ok r' ∧ r.step m = (r', .ok ()) := by
  rw [step_eq]
  cases r.candidate m with
  | error e => exact .inl ⟨e, rfl⟩
  | ok r' => exact .inr ⟨r', rfl, rfl⟩

theorem candidate_of_done (h : (r.step m).2 = .ok ()) : r.candidate m = .ok (r.step m).1 := by
  obtain ⟨e, hRefused⟩ | ⟨r', hCand, hDone⟩ := r.step_cases m
  · simp [hRefused] at h
  · rw [hCand, hDone]

theorem Sound.step (h : r.Sound) (m : Mutation) : (r.step m).1.Sound := by
  obtain ⟨e, hRefused⟩ | ⟨r', hCand, hDone⟩ := r.step_cases m
  · rw [hRefused]
    exact h
  rw [hDone]
  cases m with
  | stageGeneration => exact h.stageGeneration hCand
  | activate => exact h.activate hCand
  | uninstall => exact h.uninstall hCand

/-- The slot of the package after an accepted call, from the one before if there is one. -/
def written (m : Mutation) (before : Option Slot) : Slot :=
  let slot := before.getD { application := m.application }
  match m with
  | .stageGeneration record => { slot with generations := slot.generations ++ [record] }
  | .activate _ generation => { slot with activeGeneration := generation, hasActive := true }
  | .uninstall _ => { slot with hasActive := false, activeGeneration := 0 }

variable {packageId : PackageId} {slot : Slot} {a : ApplicationIdentity}

theorem find_modifySlot_ne (hOther : id ≠ packageId)
    (hApp : ∀ s, (f s).application = s.application) :
    (r.modifySlot packageId f).findByPackageId id = r.findByPackageId id := by
  refine SlotTable.lookup_modify_ne hOther fun s hKey => ?_
  rw [Slot.key, hApp]
  exact fun hOwn => hOther (Option.some.inj (hOwn.symm.trans hKey))

/-- A rewritten slot is found with its rewriting, and every other as it was. -/
theorem find_modified (hFind : r.findByPackageId packageId = some slot)
    (hApp : ∀ s, (f s).application = s.application) (id : PackageId) :
    (r.modifySlot packageId f).findByPackageId id =
      if id = packageId then some (f slot) else r.findByPackageId id := by
  split_ifs with hSame
  · rw [hSame]
    exact Sound.find_modifySlot hFind hApp
  · exact find_modifySlot_ne hSame hApp

theorem find_appended (hNew : r.findByPackageId slot.application.packageId = none)
    (id : PackageId) :
    findByPackageId { slots := r.slots ++ [slot] } id =
      if id = slot.application.packageId then some slot else r.findByPackageId id := by
  split_ifs with hSame
  · rw [hSame]
    exact find_last (find_eq_none.mp hNew)
  have hOther : ¬slot.key = some id := fun hKey => hSame (Option.some.inj hKey).symm
  unfold findByPackageId SlotTable.lookup
  rw [List.find?_append]
  simp [hOther]

/-- An accepted call is made by the owner, if there is one, and writes the slot
of its package alone. -/
theorem find_candidate (h : r.candidate m = .ok r') :
    (∀ slot, r.findByPackageId m.application.packageId = some slot →
      slot.application = m.application) ∧
    ∀ id, r'.findByPackageId id =
      if id = m.application.packageId then some (written m (r.findByPackageId id))
      else r.findByPackageId id := by
  have hKeeps : ∀ s, (written m (some s)).application = s.application := by
    intro s
    cases m <;> rfl
  have hRewritten : ∀ slot, r.slotOf m.application = .ok slot →
      r' = r.modifySlot m.application.packageId (fun s => written m (some s)) →
      (∀ slot, r.findByPackageId m.application.packageId = some slot →
        slot.application = m.application) ∧
      ∀ id, r'.findByPackageId id =
        if id = m.application.packageId then some (written m (r.findByPackageId id))
        else r.findByPackageId id := by
    intro slot hSlot hModified
    obtain ⟨hFind, hOwner⟩ := slotOf_eq_ok hSlot
    refine ⟨fun s hs => ?_, fun id => ?_⟩
    · rw [hFind] at hs
      cases hs
      exact hOwner
    rw [hModified, find_modified hFind hKeeps]
    split_ifs with hSame
    · rw [hSame, hFind]
    · rfl
  cases m with
  | stageGeneration record =>
    obtain ⟨-, ⟨hNew, -, rfl⟩ | ⟨slot, hSlot, -, -, hModified⟩⟩ := stageGeneration_eq_ok h
    · refine ⟨fun s hs => ?_, fun id => ?_⟩
      · exact absurd (hNew.symm.trans hs) nofun
      · rw [find_appended hNew]
        show (if id = record.application.packageId then _ else _) =
          if id = record.application.packageId then _ else _
        split_ifs with hSame
        · have hNone : r.findByPackageId id = none := hSame ▸ hNew
          rw [hNone]
          rfl
        · rfl
    · exact hRewritten slot hSlot hModified
  | activate =>
    obtain ⟨-, -, slot, hSlot, -, hModified⟩ := activate_eq_ok h
    exact hRewritten slot hSlot hModified
  | uninstall =>
    obtain ⟨-, slot, hSlot, hModified⟩ := uninstall_eq_ok h
    exact hRewritten slot hSlot hModified

theorem written_application (m : Mutation) {before : Option Slot}
    (hOwner : ∀ slot, before = some slot → slot.application = m.application) :
    (written m before).application = m.application := by
  have hSlot : (before.getD { application := m.application }).application = m.application := by
    cases before with
    | none => rfl
    | some slot => exact hOwner slot rfl
  cases m with
  | stageGeneration | activate | uninstall => exact hSlot

/-- The generations on record for a package, in the order they were staged. -/
def recorded (r : PackageRegistry) (id : PackageId) : List PackageGenerationRecord :=
  match r.findByPackageId id with
  | none => []
  | some slot => slot.generations

/-- What a call with its answer has staged for a package. -/
def stagedFor (id : PackageId) : PackageRegistry × Mutation × Result Unit →
    Option PackageGenerationRecord
  | (_, .stageGeneration record, .ok ()) =>
    if id = record.application.packageId then some record else none
  | _ => none

theorem recorded_step (r : PackageRegistry) (m : Mutation) (id : PackageId) :
    (r.step m).1.recorded id =
      r.recorded id ++ (stagedFor id (r, m, (r.step m).2)).toList := by
  obtain ⟨e, hRefused⟩ | ⟨r', hCand, hDone⟩ := r.step_cases m
  · rw [hRefused]
    cases m <;> simp [stagedFor]
  rw [hDone, recorded, (find_candidate hCand).2 id]
  by_cases hSame : id = m.application.packageId
  · rw [if_pos hSame, recorded]
    cases m with
    | stageGeneration record =>
      have hId : id = record.application.packageId := hSame
      cases r.findByPackageId id <;> simp [written, stagedFor, hId]
    | activate | uninstall => cases r.findByPackageId id <;> simp [written, stagedFor]
  · rw [if_neg hSame]
    cases m with
    | stageGeneration record =>
      have hId : ¬id = record.application.packageId := hSame
      simp [stagedFor, hId, recorded]
    | activate | uninstall => simp [stagedFor, recorded]

/-- Over a run, the record of a package is what was accepted for it, in order. -/
theorem recorded_after (r : PackageRegistry) (ms : List Mutation) (id : PackageId) :
    (after step r ms).recorded id =
      r.recorded id ++ (history step r ms).filterMap (stagedFor id) := by
  induction ms generalizing r with
  | nil => simp [history]
  | cons m rest ih =>
    have hRest := ih (r.step m).1
    rw [recorded_step, append_assoc] at hRest
    have hHistory : (history step r (m :: rest)).filterMap (stagedFor id) =
        (stagedFor id (r, m, (r.step m).2)).toList ++
          (history step (r.step m).1 rest).filterMap (stagedFor id) := by
      rw [history, filterMap_cons]
      cases stagedFor id (r, m, (r.step m).2) <;> rfl
    rw [hHistory]
    exact hRest

theorem Sound.recorded_increasing (h : r.Sound) (id : PackageId) :
    (r.recorded id).Pairwise fun g g' => g.generation < g'.generation := by
  unfold recorded
  cases hFind : r.findByPackageId id with
  | none => exact List.Pairwise.nil
  | some slot => exact (h.slots slot (mem_of_find hFind).1).increasing

theorem owner_eq_ok_iff :
    r.owner id = .ok a ↔
      id.valid = true ∧ ∃ slot, r.findByPackageId id = some slot ∧ slot.application = a := by
  rw [owner]
  by_cases hValid : id.valid = true
  · rw [if_neg (by simp [hValid])]
    cases r.findByPackageId id <;> simp [hValid]
  · rw [if_pos (by simpa using hValid)]
    simp [hValid]

/-- The owner of a package never changes. -/
theorem owner_step (h : r.owner id = .ok a) (m : Mutation) : (r.step m).1.owner id = .ok a := by
  obtain ⟨e, hRefused⟩ | ⟨r', hCand, hDone⟩ := r.step_cases m
  · rw [hRefused]
    exact h
  rw [hDone]
  obtain ⟨hValid, slot, hFind, hOwner⟩ := owner_eq_ok_iff.mp h
  obtain ⟨hOwn, hFound⟩ := find_candidate hCand
  refine owner_eq_ok_iff.mpr ⟨hValid, ?_⟩
  rw [hFound id]
  split_ifs with hSame
  · rw [hSame] at hFind
    rw [hSame, hFind]
    refine ⟨_, rfl, (written_application m ?_).trans ((hOwn slot hFind).symm.trans hOwner)⟩
    rintro s hs
    cases hs
    exact hOwn slot hFind
  · exact ⟨slot, hFind, hOwner⟩

/-- Nobody but the owner has a call accepted. -/
theorem application_of_done (h : r.owner m.application.packageId = .ok a)
    (hDone : (r.step m).2 = .ok ()) : m.application = a := by
  obtain ⟨-, slot, hFind, hOwner⟩ := owner_eq_ok_iff.mp h
  exact ((find_candidate (candidate_of_done hDone)).1 slot hFind).symm.trans hOwner

/-- A generation that is accepted belongs to the owner of its package. -/
theorem owner_of_staged (hDone : (r.step (.stageGeneration record)).2 = .ok ()) :
    (r.step (.stageGeneration record)).1.owner record.application.packageId =
      .ok record.application := by
  have hCand := candidate_of_done hDone
  obtain ⟨hValid, -⟩ := stageGeneration_eq_ok hCand
  obtain ⟨hOwn, hFound⟩ := find_candidate hCand
  simp only [valid, ApplicationIdentity.valid, Bool.and_eq_true] at hValid
  refine owner_eq_ok_iff.mpr ⟨hValid.1.1.1, _, (hFound _).trans (if_pos rfl), ?_⟩
  exact written_application _ hOwn

/-- The generation a slot has active, looked up among its records. -/
def activeIn (s : Slot) : Option PackageGenerationRecord :=
  if s.hasActive then s.generations.find? fun g => g.generation == s.activeGeneration else none

theorem slotOf_eq_ok_iff :
    r.slotOf a = .ok slot ↔ r.findByPackageId a.packageId = some slot ∧ slot.application = a :=
  ⟨slotOf_eq_ok, fun h => slotOf_of_find a h.1 h.2⟩

/-- The active generation of an application is that of its slot. -/
theorem Sound.active_toOption (h : r.Sound) (a : ApplicationIdentity) :
    (r.active a).toOption = if a.valid then
      ((r.findByPackageId a.packageId).filter fun slot => slot.application = a).bind activeIn
    else none := by
  cases hValid : a.valid with
  | false => rw [active, if_pos (by simp [hValid])]; rfl
  | true =>
    rw [active, if_neg (by simp [hValid]), if_pos rfl]
    cases hSlot : r.slotOf a with
    | error =>
      have hNone : (r.findByPackageId a.packageId).filter (fun slot => slot.application = a) =
          none := by
        rw [Option.filter_eq_none_iff]
        intro slot hFind hOwner
        have hFound := slotOf_eq_ok_iff.mpr ⟨hFind, by simpa using hOwner⟩
        simp [hSlot] at hFound
      rw [hNone]
      rfl
    | ok slot =>
      obtain ⟨hFind, hOwner⟩ := slotOf_eq_ok_iff.mp hSlot
      have hSound := h.slots slot (mem_of_find hFind).1
      rw [hFind, Option.filter_some_pos (by simpa using hOwner), Option.bind_some, activeIn]
      cases hActive : slot.hasActive with
      | false => simp [hActive]; rfl
      | true =>
        simp only [hActive, Bool.not_true, Bool.false_eq_true, if_false, if_true]
        have hRec : ∀ record, r.generation a slot.activeGeneration = .ok record ↔
            slot.generations.find? (fun g => g.generation == slot.activeGeneration) = some record :=
          fun _ => generation_eq_ok_iff hValid (hSound.active_ne_zero hActive) hSlot
        refine Option.ext fun record => ?_
        rw [← hRec record]
        cases r.generation a slot.activeGeneration <;> simp [Except.toOption]

theorem activeIn_staged {s : Slot} (h : s.Sound) (record : PackageGenerationRecord) :
    activeIn { s with generations := s.generations ++ [record] } = activeIn s := by
  unfold activeIn
  cases hActive : s.hasActive with
  | false => rfl
  | true =>
    obtain ⟨g, hg, hSame⟩ := h.active hActive
    simp only [if_true, List.find?_append]
    cases hFind : s.generations.find? fun g => g.generation == s.activeGeneration with
    | none => exact absurd (beq_iff_eq.mpr hSame) (List.find?_eq_none.mp hFind g hg)
    | some => rfl

/-- A call leaves the active generation of an application alone, unless it
activates or uninstalls that application. -/
theorem Sound.active_candidate (h : r.Sound) (hCand : r.candidate m = .ok r')
    (h' : r'.Sound) (a : ApplicationIdentity)
    (hOther : m.application ≠ a ∨ ∃ record, m = .stageGeneration record) :
    (r'.active a).toOption = (r.active a).toOption := by
  obtain ⟨hOwn, hFound⟩ := find_candidate hCand
  rw [h'.active_toOption, h.active_toOption, hFound]
  by_cases hSame : a.packageId = m.application.packageId
  · rw [if_pos hSame]
    by_cases hOwner : m.application = a
    · obtain ⟨record, rfl⟩ := hOther.resolve_left (not_not.mpr hOwner)
      congr 1
      cases hFind : r.findByPackageId a.packageId with
      | none =>
        have hNew : activeIn (written (.stageGeneration record) none) = none := rfl
        simp [Option.filter, hNew]
      | some slot =>
        have hStaged := activeIn_staged (h.slots slot (mem_of_find hFind).1) record
        have hSlot : written (.stageGeneration record) (some slot) =
            { slot with generations := slot.generations ++ [record] } := rfl
        rw [hSlot]
        by_cases hIs : slot.application = a
        · rw [Option.filter_some_pos (by simpa using hIs),
            Option.filter_some_pos (by simpa using hIs)]
          exact hStaged
        · rw [Option.filter_some_neg (by simpa using hIs),
            Option.filter_some_neg (by simpa using hIs)]
    · have hWritten : (written m (r.findByPackageId a.packageId)).application ≠ a := by
        rw [written_application m (hSame ▸ hOwn)]
        exact hOwner
      have hNone : (r.findByPackageId a.packageId).filter (fun slot => slot.application = a) =
          none := by
        rw [Option.filter_eq_none_iff]
        intro slot hFind hIs
        exact hOwner ((hOwn slot (hSame ▸ hFind)).symm.trans (by simpa using hIs))
      rw [hNone, Option.filter_some_neg (by simpa using hWritten)]
  · rw [if_neg hSame]

theorem Sound.active_step (h : r.Sound) (a : ApplicationIdentity)
    (hChanged : ((r.step m).1.active a).toOption ≠ (r.active a).toOption) :
    (∃ generation, m = .activate a generation) ∨ m = .uninstall a := by
  have hSound := h.step m
  obtain ⟨e, hRefused⟩ | ⟨r', hCand, hDone⟩ := r.step_cases m
  · rw [hRefused] at hChanged
    exact absurd rfl hChanged
  rw [hDone] at hChanged hSound
  have hSame := mt (h.active_candidate hCand hSound a) hChanged
  rw [not_or, not_not] at hSame
  obtain ⟨rfl, hKind⟩ := hSame
  cases m with
  | stageGeneration record => exact absurd ⟨record, rfl⟩ hKind
  | activate _ generation => exact .inl ⟨generation, rfl⟩
  | uninstall => exact .inr rfl

/-- What the registry keeps of each package. -/
structure KeepsRecords (r : PackageRegistry) : Prop where
  increasing : ∀ id, (r.recorded id).Pairwise fun g g' => g.generation < g'.generation
  active : ∀ slot ∈ r.slots, slot.hasActive = true ↔
    ∃ g ∈ slot.generations, g.generation = slot.activeGeneration

/-- What a caller may rely on in any call. -/
structure HonestCall (r : PackageRegistry) (m : Mutation) : Prop where
  refused : (r.step m).2 ≠ .ok () → (r.step m).1 = r
  active : ∀ a, ((r.step m).1.active a).toOption ≠ (r.active a).toOption →
    (∃ generation, m = .activate a generation) ∨ m = .uninstall a

theorem Sound.keepsRecords (h : r.Sound) : r.KeepsRecords where
  increasing := h.recorded_increasing
  active := by
    intro slot hSlot
    have hSound := h.slots slot hSlot
    refine ⟨hSound.active, ?_⟩
    rintro ⟨g, hg, hSame⟩
    by_contra hInactive
    have hZero := hSound.inactive (by simpa using hInactive)
    have hValid := (hSound.records g hg).1
    simp [valid, hSame, hZero] at hValid

theorem Sound.honestCall (h : r.Sound) (m : Mutation) : r.HonestCall m where
  refused := by
    intro hRefused
    obtain ⟨e, hSame⟩ | ⟨r', -, hDone⟩ := r.step_cases m
    · rw [hSame]
    · exact absurd (by rw [hDone]) hRefused
  active := fun a => h.active_step a

section Runs

variable (ms : List Mutation)

theorem sound_run : Run.Always step Sound {} ms :=
  always_of_invariant sound_empty fun _ m h => h.step m

/-- The generation was accepted in step `n` of the run. -/
def StagedAt (n : ℕ) (record : PackageGenerationRecord) : Prop :=
  ms[n]? = some (.stageGeneration record) ∧
    ((after step {} (ms.take n)).step (.stageGeneration record)).2 = .ok ()

variable {ms}

theorem owner_after {n k : ℕ} (hStaged : StagedAt ms n record) (hnk : n < k) :
    (after step {} (ms.take k)).owner record.application.packageId =
      .ok record.application := by
  obtain ⟨hAt, hDone⟩ := hStaged
  refine stable (P := fun r : PackageRegistry => r.owner record.application.packageId =
    .ok record.application) (fun r m h => owner_step h m) hnk ?_
  rw [after_take_succ hAt]
  exact owner_of_staged hDone

theorem recorded_prefix {n k : ℕ} (hnk : n ≤ k) (id : PackageId) :
    (after step {} (ms.take n)).recorded id <+:
      (after step {} (ms.take k)).recorded id := by
  have hSplit : ms.take k = ms.take n ++ (ms.take k).drop n := by
    conv_lhs => rw [← take_append_drop n (ms.take k)]
    rw [take_take, Nat.min_eq_left hnk]
  rw [hSplit, after_append, recorded_after (after step {} (ms.take n))]
  exact prefix_append _ _

end Runs

/-- In every run a package belongs to the signer whose generation was accepted
first, its record is the list of what was accepted for it, and only the calls
that say so change what is active. -/
theorem package_belongs_to_first_signer (ms : List Mutation) :
    Run.Always step KeepsRecords {} ms ∧ Run.EachStep step HonestCall {} ms ∧
      (∀ id, (after step {} ms).recorded id = (history step {} ms).filterMap (stagedFor id)) ∧
      (∀ id n k, n ≤ k → (after step {} (ms.take n)).recorded id <+:
        (after step {} (ms.take k)).recorded id) ∧
      ∀ n k record, StagedAt ms n record → n < k →
        (after step {} (ms.take k)).owner record.application.packageId = .ok record.application ∧
          ∀ m : Mutation, m.application.packageId = record.application.packageId →
            ((after step {} (ms.take k)).step m).2 = .ok () →
            m.application = record.application := by
  have hSound := sound_run ms
  refine ⟨fun n => (hSound n).keepsRecords, fun n m _ => (hSound n).honestCall m, fun id => ?_,
    fun id n k hnk => recorded_prefix hnk id, fun n k record hStaged hnk => ?_⟩
  · rw [recorded_after]
    rfl
  · have hOwner := owner_after hStaged hnk
    refine ⟨hOwner, fun m hSame hDone => application_of_done ?_ hDone⟩
    rw [hSame]
    exact hOwner

end PackageRegistry

end Enml.OsPackage
