import Enml.OsPackage.Registry

/-! The invariant of the package registry, and what its operations do to it. -/
namespace Enml.OsPackage

open Enml.Core List SlotTable

variable {record : PackageGenerationRecord}

/-- The generations of one application. -/
structure Slot.Sound (s : Slot) : Prop where
  application : s.application.valid = true
  staged : s.generations ≠ []
  few : s.generations.length ≤ registryGenerationsPerApplication
  records : ∀ g ∈ s.generations, g.valid = true ∧ g.application = s.application
  increasing : s.generations.Pairwise fun g h => g.generation < h.generation
  active : s.hasActive = true → ∃ g ∈ s.generations, g.generation = s.activeGeneration
  inactive : s.hasActive = false → s.activeGeneration = 0

theorem lt_of_getLast {generations : List PackageGenerationRecord} {bound : UInt64}
    (hIncreasing : generations.Pairwise fun g h => g.generation < h.generation)
    (hLast : ∀ last, generations.getLast? = some last → last.generation < bound) :
    ∀ g ∈ generations, g.generation < bound := by
  rcases eq_nil_or_concat generations with rfl | ⟨front, last, rfl⟩
  · exact nofun
  have hEnd : last.generation < bound := hLast last (by simp)
  rw [concat_eq_append, pairwise_append] at hIncreasing
  intro g hg
  rw [concat_eq_append, mem_append] at hg
  rcases hg with hFront | hSelf
  · exact UInt64.lt_trans (hIncreasing.2.2 g hFront last (by simp)) hEnd
  · rw [mem_singleton.mp hSelf]
    exact hEnd

theorem Slot.Sound.stage {s : Slot} (h : s.Sound) (hValid : record.valid = true)
    (hApp : record.application = s.application)
    (hLast : ∀ last, s.generations.getLast? = some last → last.generation < record.generation)
    (hFew : s.generations.length < registryGenerationsPerApplication) :
    Slot.Sound { s with generations := s.generations ++ [record] } := by
  refine ⟨h.application, by simp, ?_, ?_, ?_, ?_, h.inactive⟩
  · rw [length_append, length_singleton]
    omega
  · intro g hg
    rcases mem_append.mp hg with hOld | hNew
    · exact h.records g hOld
    · rw [mem_singleton.mp hNew]
      exact ⟨hValid, hApp⟩
  · refine pairwise_append.mpr ⟨h.increasing, pairwise_singleton _ _, ?_⟩
    intro g hg g' hg'
    rw [mem_singleton.mp hg']
    exact lt_of_getLast h.increasing hLast g hg
  · intro hActive
    obtain ⟨g, hg, hSame⟩ := h.active hActive
    exact ⟨g, mem_append_left _ hg, hSame⟩

namespace PackageRegistry

variable {generation : PackageGenerationId}

structure Sound (r : PackageRegistry) : Prop where
  capacity : r.slots.length ≤ registryApplicationCapacity
  ids : (r.slots.map fun s => s.application.packageId).Nodup
  slots : ∀ s ∈ r.slots, s.Sound

variable {r r' : PackageRegistry}

theorem sound_empty : ({} : PackageRegistry).Sound := ⟨Nat.zero_le _, nodup_nil, nofun⟩

theorem keys_eq (r : PackageRegistry) :
    keys Slot.key r.slots = r.slots.map fun s => s.application.packageId :=
  filterMap_eq_map_iff_forall_eq_some.mpr fun _ _ => rfl

theorem Sound.keys (h : r.Sound) : (keys Slot.key r.slots).Nodup := by
  rw [keys_eq]
  exact h.ids

variable {packageId : PackageId} {slot : Slot} {application : ApplicationIdentity}

theorem mem_of_find {s : Slot} (h : r.findByPackageId packageId = some s) :
    s ∈ r.slots ∧ s.application.packageId = packageId := by
  obtain ⟨hMem, hKey⟩ := mem_of_lookup h
  exact ⟨hMem, Option.some.inj hKey⟩

theorem find_eq_none :
    r.findByPackageId packageId = none ↔
      packageId ∉ r.slots.map fun s => s.application.packageId := by
  rw [findByPackageId, SlotTable.lookup_eq_none_iff, keys_eq]

variable {f : Slot → Slot}

theorem Sound.modifySlot (h : r.Sound) {packageId : PackageId} {slot : Slot}
    (hFind : r.findByPackageId packageId = some slot)
    (hApp : (f slot).application = slot.application) (hSlot : (f slot).Sound) :
    (r.modifySlot packageId f).Sound := by
  have hSlots : (r.modifySlot packageId f).slots =
      r.slots.map fun s => if s.key = some packageId then f s else s :=
    modify_eq_map h.keys
  have hOnly : ∀ s ∈ r.slots, s.key = some packageId → s = slot := by
    intro s hs hKey
    obtain ⟨hMem, hId⟩ := mem_of_find hFind
    exact inj_on_of_nodup_map h.ids hs hMem ((Option.some.inj hKey).trans hId.symm)
  refine ⟨?_, ?_, ?_⟩
  · rw [hSlots, length_map]
    exact h.capacity
  · have hIds : ((r.modifySlot packageId f).slots.map fun s => s.application.packageId) =
        r.slots.map fun s => s.application.packageId := by
      rw [hSlots, map_map]
      refine map_congr_left fun s hs => ?_
      rw [Function.comp_apply]
      split_ifs with hKey
      · rw [hOnly s hs hKey, hApp]
      · rfl
    rw [hIds]
    exact h.ids
  · intro s hs
    rw [hSlots] at hs
    obtain ⟨t, ht, rfl⟩ := mem_map.mp hs
    split_ifs with hKey
    · rw [hOnly t ht hKey]
      exact hSlot
    · exact h.slots t ht

/-- What is found after a slot was rewritten. -/
theorem Sound.find_modifySlot (hFind : r.findByPackageId packageId = some slot)
    (hApp : ∀ s, (f s).application = s.application) :
    (r.modifySlot packageId f).findByPackageId packageId = some (f slot) := by
  have hKey : ∀ s : Slot, s.key = some packageId → (f s).key = some packageId := by
    intro s hs
    rw [Slot.key, hApp]
    exact hs
  have hLookup : lookup Slot.key packageId
      (modify Slot.key packageId f r.slots) = (lookup Slot.key packageId r.slots).map f :=
    lookup_modify_self hKey
  rw [findByPackageId] at hFind
  rw [hFind] at hLookup
  exact hLookup

/-- The slot of an application carries its identity. -/
theorem slotOf_eq_ok (h : r.slotOf application = .ok slot) :
    r.findByPackageId application.packageId = some slot ∧ slot.application = application := by
  unfold slotOf at h
  split at h
  · cases h
  rename_i hFind
  split_ifs at h with hSigner
  cases h
  refine ⟨hFind, ?_⟩
  obtain ⟨-, hId⟩ := mem_of_find hFind
  obtain ⟨⟨packageId, signer⟩, generations, hasActive, activeGeneration⟩ := slot
  obtain ⟨packageId', signer'⟩ := application
  simp only [not_not] at hId hSigner ⊢
  rw [hId, hSigner]

theorem slotOf_of_find (application : ApplicationIdentity) {slot : Slot}
    (hFind : r.findByPackageId application.packageId = some slot)
    (hApp : slot.application = application) : r.slotOf application = .ok slot := by
  rw [slotOf, hFind]
  simp [hApp]

/-- A generation goes into a new slot, or behind the last one of its slot. -/
theorem stageGeneration_eq_ok (h : r.stageGeneration record = .ok r') :
    record.valid = true ∧ ((r.findByPackageId record.application.packageId = none ∧
        r.slots.length < registryApplicationCapacity ∧
        r' = { slots := r.slots ++
          [{ application := record.application, generations := [record] }] }) ∨
      ∃ slot, r.slotOf record.application = .ok slot ∧
        (∀ last, slot.generations.getLast? = some last → last.generation < record.generation) ∧
        slot.generations.length < registryGenerationsPerApplication ∧
        r' = r.modifySlot record.application.packageId fun s =>
          { s with generations := s.generations ++ [record] }) := by
  obtain ⟨hValid, h⟩ := guard_ok h
  refine ⟨by simpa using hValid, ?_⟩
  split at h
  · rename_i hFind
    obtain ⟨hRoom, h⟩ := guard_ok h
    · cases h
      exact .inl ⟨hFind, Nat.not_le.mp hRoom, rfl⟩
  · rename_i slot hFind
    obtain ⟨hSigner, h⟩ := guard_ok h
    obtain ⟨hLater, h⟩ := guard_ok h
    obtain ⟨hFew, h⟩ := guard_ok h
    cases h
    refine .inr ⟨slot, ?_, ?_, Nat.not_le.mp hFew, rfl⟩
    · rw [slotOf, hFind]
      exact if_neg hSigner
    · intro last hLast
      rw [hLast] at hLater
      simpa using hLater

theorem Sound.stageGeneration (h : r.Sound) (hStaged : r.stageGeneration record = .ok r') :
    r'.Sound := by
  obtain ⟨hValid, ⟨hNew, hRoom, rfl⟩ | ⟨slot, hSlot, hLast, hFew, rfl⟩⟩ :=
    stageGeneration_eq_ok hStaged
  · refine ⟨?_, ?_, ?_⟩
    · rw [length_append, length_singleton]
      omega
    · rw [map_append, nodup_append]
      refine ⟨h.ids, nodup_singleton _, ?_⟩
      rintro id hId id' hNewId rfl
      rw [map_singleton, mem_singleton] at hNewId
      rw [find_eq_none, ← hNewId] at hNew
      exact hNew hId
    · intro s hs
      rcases mem_append.mp hs with hOld | hLastSlot
      · exact h.slots s hOld
      rw [mem_singleton.mp hLastSlot]
      have hParts := hValid
      simp only [PackageGenerationRecord.valid, Bool.and_eq_true] at hParts
      refine ⟨hParts.1.1, by simp, by simp [registryGenerationsPerApplication], ?_,
        pairwise_singleton _ _, nofun, fun _ => rfl⟩
      intro g hg
      rw [mem_singleton.mp hg]
      exact ⟨hValid, rfl⟩
  · obtain ⟨hFind, hApp⟩ := slotOf_eq_ok hSlot
    have hOld := h.slots slot (mem_of_find hFind).1
    exact h.modifySlot hFind rfl (hOld.stage hValid hApp.symm hLast hFew)

theorem activate_eq_ok (h : r.activate application generation = .ok r') :
    application.valid = true ∧ generation ≠ 0 ∧ ∃ slot, r.slotOf application = .ok slot ∧
      (∃ g ∈ slot.generations, g.generation = generation) ∧
      r' = r.modifySlot application.packageId fun s =>
        { s with activeGeneration := generation, hasActive := true } := by
  obtain ⟨hValid, h⟩ := guard_ok h
  simp only [Bool.or_eq_true, Bool.not_eq_true', beq_iff_eq, not_or, Bool.not_eq_false] at hValid
  split at h
  · cases h
  rename_i slot hSlot
  obtain ⟨hKnown, h⟩ | ⟨-, h⟩ := ite_eq_iff.mp h
  · cases h
    simp only [any_eq_true, beq_iff_eq] at hKnown
    exact ⟨hValid.1, hValid.2, slot, hSlot, hKnown, rfl⟩
  · cases h

theorem uninstall_eq_ok (h : r.uninstall application = .ok r') :
    application.valid = true ∧ ∃ slot, r.slotOf application = .ok slot ∧
      r' = r.modifySlot application.packageId fun s =>
        { s with hasActive := false, activeGeneration := 0 } := by
  obtain ⟨hValid, h⟩ := guard_ok h
  split at h
  · cases h
  · rename_i slot hSlot
    cases h
    exact ⟨by simpa using hValid, slot, hSlot, rfl⟩

theorem Sound.activate (h : r.Sound) (hActivated : r.activate application generation = .ok r') :
    r'.Sound := by
  obtain ⟨-, -, slot, hSlot, hKnown, rfl⟩ := activate_eq_ok hActivated
  obtain ⟨hFind, -⟩ := slotOf_eq_ok hSlot
  have hOld := h.slots slot (mem_of_find hFind).1
  exact h.modifySlot hFind rfl ⟨hOld.application, hOld.staged, hOld.few, hOld.records,
    hOld.increasing, fun _ => hKnown, nofun⟩

theorem Sound.uninstall (h : r.Sound) (hRemoved : r.uninstall application = .ok r') : r'.Sound := by
  obtain ⟨-, slot, hSlot, rfl⟩ := uninstall_eq_ok hRemoved
  obtain ⟨hFind, -⟩ := slotOf_eq_ok hSlot
  have hOld := h.slots slot (mem_of_find hFind).1
  exact h.modifySlot hFind rfl ⟨hOld.application, hOld.staged, hOld.few, hOld.records,
    hOld.increasing, nofun, fun _ => rfl⟩

end PackageRegistry

end Enml.OsPackage
