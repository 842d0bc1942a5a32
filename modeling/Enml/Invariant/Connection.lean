import Enml.OsSupervisor.Connection

/-! What the calls on the two authorities leave in their tables. -/
namespace Enml.OsSupervisor

open Enml.Core SlotTable LeaseSlot GrantSlot List

theorem nextGeneration_ne_zero (generation : UInt64) : nextGeneration generation ≠ 0 := by
  unfold nextGeneration
  split_ifs with hWrap
  · decide
  · exact hWrap

namespace ConnectionAdmissionAuthority

variable {a a' : ConnectionAdmissionAuthority}
  {transport : ConnectionTransport} {purpose : ConnectionPurpose} {proof : UserPresenceProof}
  {current : UInt64}

/-- The entries in use. -/
def entries (a : ConnectionAdmissionAuthority) : List GrantSlot :=
  SlotTable.entries GrantSlot.key a.slots

variable {s : GrantSlot} {grant : ConnectionGrant}

theorem isSome_key : s.key.isSome = s.inUse := by
  cases hUse : s.inUse <;> simp [GrantSlot.key, hUse]

theorem mem_entries : s ∈ a.entries ↔ s ∈ a.slots ∧ s.inUse = true := by
  rw [entries, SlotTable.mem_entries, isSome_key]

theorem key_of_inUse (h : s.inUse = true) : s.key = some s.grant.id := if_pos h

theorem keys_eq (a : ConnectionAdmissionAuthority) :
    keys GrantSlot.key a.slots = a.entries.map fun s => s.grant.id := by
  rw [← keys_entries, entries]
  refine filterMap_eq_map_iff_forall_eq_some.mpr ?_
  intro s hs
  exact key_of_inUse (mem_entries.mp hs).2

/-- The invariant of the table of grants. -/
structure Sound (a : ConnectionAdmissionAuthority) : Prop where
  length : a.slots.length = maxActiveGrants
  generation : a.generation ≠ 0
  count : a.activeGrants.toNat = a.entries.length
  grants : ∀ s ∈ a.entries,
    s.grant.valid = true ∧ s.grant.dataSignaling = true ∧ s.grant.generation = a.generation
  blank : ∀ s ∈ a.slots, s.inUse = false → s = {}

theorem sound_start : ({} : ConnectionAdmissionAuthority).Sound := by
  have hNone : ({} : ConnectionAdmissionAuthority).entries = [] := SlotTable.entries_replicate rfl _
  refine ⟨length_replicate, by decide, ?_, ?_, ?_⟩
  · rw [hNone]
    rfl
  · rw [hNone]
    exact nofun
  · intro s hs _
    exact eq_of_mem_replicate hs

/-- What `admit` puts into the table when it puts something there. -/
structure Entered (a : ConnectionAdmissionAuthority) (transport : ConnectionTransport)
    (purpose : ConnectionPurpose) (proof : UserPresenceProof) (current : UInt64)
    (a' : ConnectionAdmissionAuthority) (grant : ConnectionGrant) : Prop where
  fields : grant = { id := a.nextNonzeroId, generation := a.generation, lockGeneration := current
                     transport, purpose, dataSignaling := true }
  valid : grant.valid = true
  data : purpose ≠ .chargeOnly
  unlocked : proof.valid = true ∧ proof.lockGeneration = current
  stored : insert GrantSlot.key { inUse := true, grant } a.slots = some a'.slots
  others : a'.nextId = a.nextNonzeroId ∧ a'.generation = a.generation ∧
    a'.activeGrants = a.activeGrants + 1

/-- `admit` leaves the table alone, and returns no grant with data, or enters one. -/
theorem admit_cases (a : ConnectionAdmissionAuthority) (transport : ConnectionTransport)
    (purpose : ConnectionPurpose) (proof : UserPresenceProof) (current : UInt64) :
    ((a.admitPort transport purpose proof current).2.dataSignaling = false ∧
      ((a.admitPort transport purpose proof current).1 = a ∨
        (a.admitPort transport purpose proof current).1 = { a with nextId := a.nextNonzeroId })) ∨
      Entered a transport purpose proof current (a.admitPort transport purpose proof current).1
        (a.admitPort transport purpose proof current).2 := by
  unfold admitPort
  simp only
  by_cases hLocked : current = 0
  · rw [if_pos hLocked]
    exact .inl ⟨rfl, .inl rfl⟩
  rw [if_neg hLocked]
  by_cases hCharge : purpose = .chargeOnly
  · rw [if_pos hCharge]
    exact .inl ⟨rfl, .inr rfl⟩
  rw [if_neg hCharge]
  by_cases hProof : (!proof.valid || proof.lockGeneration != current) = true
  · rw [if_pos hProof]
    exact .inl ⟨rfl, .inl rfl⟩
  rw [if_neg hProof]
  by_cases hDomain : (connectionSubsystemDomain transport).isNone = true
  · rw [if_pos hDomain]
    exact .inl ⟨rfl, .inl rfl⟩
  rw [if_neg hDomain]
  unfold enter
  split
  · exact .inl ⟨rfl, .inl rfl⟩
  rename_i hStored
  split_ifs with hValid
  · exact .inl ⟨rfl, .inr rfl⟩
  · refine .inr ⟨rfl, by simpa using hValid, hCharge, ?_, hStored, rfl, rfl, rfl⟩
    simpa using hProof

/-- The grant that `release` takes out of the table. -/
structure Released (a : ConnectionAdmissionAuthority) (grant : ConnectionGrant)
    (a' : ConnectionAdmissionAuthority) : Prop where
  found : lookup GrantSlot.key grant.id a.slots = some { inUse := true, grant }
  generation : grant.generation = a.generation
  result : a' = { a with
    slots := modify key grant.id (fun _ => {}) a.slots
    activeGrants := a.activeGrants - 1 }

theorem release_cases (h : a.Sound) (grant : ConnectionGrant) :
    a.release grant = (a, false) ∨
      (a.release grant).2 = true ∧ Released a grant (a.release grant).1 := by
  unfold release
  by_cases hStale :
      (!grant.valid || !grant.dataSignaling || grant.generation != a.generation) = true
  · rw [if_pos hStale]
    exact .inl rfl
  rw [if_neg hStale]
  split
  · exact .inl rfl
  rename_i slot hFound
  split_ifs with hDiffers
  · exact .inl rfl
  refine .inr ⟨rfl, ?_, ?_, rfl⟩
  · obtain ⟨hMem, hKey⟩ := mem_of_lookup hFound
    have hUse : slot.inUse = true := by rw [← isSome_key, hKey]; rfl
    obtain ⟨-, hData, -⟩ := h.grants slot (mem_entries.mpr ⟨hMem, hUse⟩)
    rw [key_of_inUse hUse, Option.some.injEq] at hKey
    rw [hFound, Option.some.injEq]
    obtain ⟨inUse, id, generation, lockGeneration, transport, purpose, data⟩ := slot
    obtain ⟨id', generation', lockGeneration', transport', purpose', data'⟩ := grant
    simp at hStale hDiffers hUse hData hKey ⊢
    simp [hUse, hKey, hDiffers, hData, hStale]
  · simp at hStale
    exact hStale.2

/-- A grant that is the entry found under its number is released. -/
theorem release_of_found (hValid : grant.valid = true) (hData : grant.dataSignaling = true)
    (hCur : grant.generation = a.generation)
    (hFound : lookup GrantSlot.key grant.id a.slots = some { inUse := true, grant }) :
    a.release grant = ({ a with
      slots := modify key grant.id (fun _ => {}) a.slots
      activeGrants := a.activeGrants - 1 }, true) := by
  rw [release, if_neg (by simp [hValid, hData, hCur]), hFound]
  simp

theorem Entered.perm (h : Entered a transport purpose proof current a' grant) :
    a'.entries.Perm ({ inUse := true, grant } :: a.entries) :=
  SlotTable.entries_insert rfl h.stored

theorem Released.perm (h : Released a grant a') :
    a.entries.Perm ({ inUse := true, grant } :: a'.entries) := by
  have hFree : GrantSlot.key {} = none := rfl
  have hInUse : ∀ s, decide (GrantSlot.key s = some grant.id) = true → s.key.isSome := by
    intro s hs
    rw [decide_eq_true_eq.mp hs]
    rfl
  rw [h.result]
  exact perm_entries_updateFirst hFree hInUse h.found

theorem Sound.entered (h : a.Sound)
    (hEntered : Entered a transport purpose proof current a' grant) : a'.Sound := by
  have hLen : a'.slots.length = maxActiveGrants := (length_insert hEntered.stored).trans h.length
  have hRoom : a'.entries.length ≤ maxActiveGrants := by
    rw [← hLen]
    exact List.length_filter_le _ _
  obtain ⟨-, hGen, hActive⟩ := hEntered.others
  have hEnts := hEntered.perm.length_eq
  rw [length_cons] at hEnts
  refine ⟨hLen, ?_, ?_, ?_, ?_⟩
  · rw [hGen]
    exact h.generation
  · have hCnt := h.count
    unfold maxActiveGrants at hRoom
    rw [hActive, UInt64.toNat_add, hEnts, Nat.mod_eq_of_lt]
    · simp [hCnt]
    · simp
      omega
  · intro s hs
    rw [hGen]
    rcases mem_cons.mp (hEntered.perm.mem_iff.mp hs) with rfl | hOld
    · exact ⟨hEntered.valid, by rw [hEntered.fields], by rw [hEntered.fields]⟩
    · exact h.grants s hOld
  · intro s hs hFree
    obtain ⟨front, free, back, hSlots, -, -, hSlots'⟩ := insert_eq_some hEntered.stored
    refine h.blank s ?_ hFree
    rw [hSlots'] at hs
    rw [hSlots]
    simp only [mem_append, mem_cons] at hs ⊢
    rcases hs with hFront | rfl | hBack
    · exact .inl hFront
    · cases hFree
    · exact .inr (.inr hBack)

theorem Sound.released (h : a.Sound) (hReleased : Released a grant a') : a'.Sound := by
  have hPerm := hReleased.perm
  have hEnts := hPerm.length_eq
  rw [length_cons] at hEnts
  have hRes := hReleased.result
  refine ⟨?_, ?_, ?_, ?_, ?_⟩
  · rw [hRes]
    exact (SlotTable.length_modify ..).trans h.length
  · rw [hRes]
    exact h.generation
  · have hCnt := h.count
    have hActive : a'.activeGrants = a.activeGrants - 1 := by rw [hRes]
    have hOne : (1 : UInt64) ≤ a.activeGrants := by
      rw [UInt64.le_iff_toNat_le, UInt64.toNat_one]
      omega
    rw [hActive, UInt64.toNat_sub_of_le _ _ hOne, UInt64.toNat_one]
    omega
  · intro s hs
    have hOld := h.grants s (hPerm.mem_iff.mpr (mem_cons_of_mem _ hs))
    rw [hRes]
    exact hOld
  · intro s hs hFree
    rw [hRes] at hs
    rcases mem_updateFirst hs with hOld | ⟨_, -, rfl⟩
    · exact h.blank s hOld hFree
    · rfl

theorem entries_revokeAll (a : ConnectionAdmissionAuthority) : a.revokeAll.entries = [] := by
  show (a.slots.map fun _ => ({} : GrantSlot)).filter _ = []
  simp [GrantSlot.key]

theorem Sound.revokeAll (h : a.Sound) : a.revokeAll.Sound := by
  have hNone := a.entries_revokeAll
  refine ⟨?_, nextGeneration_ne_zero _, ?_, ?_, ?_⟩
  · exact (length_map _).trans h.length
  · rw [hNone]
    rfl
  · rw [hNone]
    exact nofun
  · intro s hs _
    obtain ⟨_, -, rfl⟩ := mem_map.mp hs
    rfl

theorem Sound.renumbered (h : a.Sound) (nextId : UInt64) : { a with nextId }.Sound :=
  ⟨h.length, h.generation, h.count, h.grants, h.blank⟩

theorem Sound.admitPort (h : a.Sound) (transport : ConnectionTransport)
    (purpose : ConnectionPurpose) (proof : UserPresenceProof) (current : UInt64) :
    (a.admitPort transport purpose proof current).1.Sound := by
  rcases a.admit_cases transport purpose proof current with ⟨-, hSame | hSame⟩ | hEntered
  · rw [hSame]
    exact h
  · rw [hSame]
    exact h.renumbered _
  · exact h.entered hEntered

theorem Sound.release (h : a.Sound) (grant : ConnectionGrant) : (a.release grant).1.Sound := by
  rcases release_cases h grant with hSame | ⟨-, hReleased⟩
  · rw [hSame]
    exact h
  · exact h.released hReleased

/-- A grant with data is active when the table has its number. The other fields are
compared with what the caller brings only. -/
theorem active_iff (h : a.Sound) (hData : grant.dataSignaling = true) :
    a.active grant current = true ↔
      grant.valid = true ∧ grant.generation = a.generation ∧ grant.lockGeneration = current ∧
        ∃ s ∈ a.entries, s.grant.id = grant.id := by
  unfold active
  by_cases hStale : (!grant.valid || grant.generation != a.generation ||
      grant.lockGeneration != current) = true
  · rw [if_pos hStale]
    simp only [Bool.or_eq_true, Bool.not_eq_true', bne_iff_ne] at hStale
    constructor
    · exact nofun
    rintro ⟨hValid, hGen, hLock, -⟩
    rw [hValid] at hStale
    rcases hStale with (hBad | hBad) | hBad
    · cases hBad
    · exact absurd hGen hBad
    · exact absurd hLock hBad
  · rw [if_neg hStale, hData]
    simp only [Bool.or_eq_true, Bool.not_eq_true', bne_iff_ne, not_or, not_not,
      Bool.not_eq_false] at hStale
    obtain ⟨⟨hValid, hGen⟩, hLock⟩ := hStale
    simp only [Bool.not_true, Bool.false_eq_true, if_false, any_eq_true, Bool.and_eq_true,
      beq_iff_eq]
    constructor
    · rintro ⟨s, hs, ⟨hUse, hId⟩, -⟩
      exact ⟨hValid, hGen, hLock, s, mem_entries.mpr ⟨hs, hUse⟩, hId⟩
    · rintro ⟨-, -, -, s, hs, hId⟩
      obtain ⟨hMem, hUse⟩ := mem_entries.mp hs
      exact ⟨s, hMem, ⟨hUse, hId⟩, (h.grants s hs).2.2.trans hGen.symm⟩

end ConnectionAdmissionAuthority

namespace SubsystemLeaseAuthority

variable {a a' : SubsystemLeaseAuthority}

/-- The leases in use. -/
def entries (a : SubsystemLeaseAuthority) : List LeaseSlot :=
  SlotTable.entries LeaseSlot.key a.slots

variable {s : LeaseSlot} {principal : PrincipalId} {token : SubsystemLeaseToken}

theorem isSome_key : s.key.isSome = s.inUse := by
  cases hUse : s.inUse <;> simp [LeaseSlot.key, hUse]

theorem mem_entries : s ∈ a.entries ↔ s ∈ a.slots ∧ s.inUse = true := by
  rw [entries, SlotTable.mem_entries, isSome_key]

theorem key_of_inUse (h : s.inUse = true) : s.key = some s.id := if_pos h

theorem keys_eq (a : SubsystemLeaseAuthority) :
    keys LeaseSlot.key a.slots = a.entries.map fun s => s.id := by
  rw [← keys_entries, entries]
  refine filterMap_eq_map_iff_forall_eq_some.mpr ?_
  intro s hs
  exact key_of_inUse (mem_entries.mp hs).2

/-- What `acquire` puts into the table when it puts something there. -/
structure Acquired (a : SubsystemLeaseAuthority) (principal : PrincipalId) (kind : LeaseKind)
    (a' : SubsystemLeaseAuthority) (token : SubsystemLeaseToken) : Prop where
  token : token = { id := a.nextId, generation := a.generation, domain := a.domain }
  number : a.nextId ≠ 0
  stored : insert LeaseSlot.key
    { inUse := true, id := a.nextId, generation := a.generation, principal, kind } a.slots =
      some a'.slots
  others : a'.nextId = a.nextId + 1 ∧ a'.generation = a.generation ∧ a'.domain = a.domain

/-- While there are numbers, `acquire` changes nothing or enters a lease. -/
theorem acquire_cases (hNum : a.nextId ≠ 0) (principal : PrincipalId) (kind : LeaseKind) :
    a.acquire principal kind = (a, none) ∨ ∃ a' token, a.acquire principal kind = (a', some token) ∧
        Acquired a principal kind a' token := by
  unfold acquire
  by_cases hPrinc : (!validPrincipal principal) = true
  · rw [if_pos hPrinc]
    exact .inl rfl
  rw [if_neg hPrinc]
  simp only
  split
  · exact .inl rfl
  · rename_i hStored
    rw [if_neg hNum]
    exact .inr ⟨_, _, rfl, rfl, hNum, hStored, rfl, rfl, rfl⟩

/-- The lease that `release` takes out of the table. -/
structure Released (a : SubsystemLeaseAuthority) (principal : PrincipalId)
    (token : SubsystemLeaseToken) (s : LeaseSlot) : Prop where
  current : a.validForDomain token = true
  owner : s.principal = principal
  generation : s.generation = token.generation
  found : lookup LeaseSlot.key token.id a.slots = some s
  result : a.release principal token =
    ({ a with slots := modify key token.id (fun _ => {}) a.slots }, true)

theorem release_cases (a : SubsystemLeaseAuthority) (principal : PrincipalId)
    (token : SubsystemLeaseToken) :
    a.release principal token = (a, false) ∨ ∃ s, Released a principal token s := by
  by_cases hStale : (!a.validForDomain token || !validPrincipal principal) = true
  · rw [release, if_pos hStale]
    exact .inl rfl
  cases hFound : lookup LeaseSlot.key token.id a.slots with
  | none =>
    rw [release, if_neg hStale, hFound]
    exact .inl rfl
  | some s =>
    by_cases hDiffers : s.generation ≠ token.generation ∨ s.principal ≠ principal
    · rw [release, if_neg hStale, hFound]
      exact .inl (if_pos hDiffers)
    have hSame := not_or.mp hDiffers
    refine .inr ⟨s, ?_, not_not.mp hSame.2, not_not.mp hSame.1, hFound, ?_⟩
    · simp at hStale
      exact hStale.1
    · rw [release, if_neg hStale, hFound]
      exact if_neg hDiffers

theorem release_of_found (hCur : a.validForDomain token = true)
    (hPrinc : validPrincipal principal = true)
    (hFound : lookup LeaseSlot.key token.id a.slots = some s)
    (hGen : s.generation = token.generation) (hOwner : s.principal = principal) :
    Released a principal token s := by
  refine ⟨hCur, hOwner, hGen, hFound, ?_⟩
  rw [release, if_neg (by simp [hCur, hPrinc]), hFound]
  simp [hGen, hOwner]

theorem Released.perm (h : Released a principal token s) :
    a.entries.Perm (s :: (a.release principal token).1.entries) := by
  have hFree : LeaseSlot.key {} = none := rfl
  have hInUse : ∀ s, decide (LeaseSlot.key s = some token.id) = true → s.key.isSome := by
    intro s hs
    rw [decide_eq_true_eq.mp hs]
    rfl
  rw [h.result]
  exact perm_entries_updateFirst hFree hInUse h.found

theorem validForDomain_iff : a.validForDomain token = true ↔
    token.valid = true ∧ token.domain = a.domain ∧ token.generation = a.generation := by
  simp [validForDomain, and_assoc]

theorem active_iff : a.active token = true ↔ a.validForDomain token = true ∧
      ∃ s ∈ a.entries, s.id = token.id ∧ s.generation = token.generation := by
  simp only [active, Bool.and_eq_true, any_eq_true, beq_iff_eq]
  refine and_congr_right fun _ => ?_
  constructor
  · rintro ⟨s, hs, ⟨hUse, hId⟩, hGen⟩
    exact ⟨s, mem_entries.mpr ⟨hs, hUse⟩, hId, hGen⟩
  · rintro ⟨s, hs, hId, hGen⟩
    obtain ⟨hMem, hUse⟩ := mem_entries.mp hs
    exact ⟨s, hMem, ⟨hUse, hId⟩, hGen⟩

theorem entries_advance (a : SubsystemLeaseAuthority) :
    a.advanceGenerationAfterQuiesce.entries = [] := by
  show (a.slots.map fun _ => ({} : LeaseSlot)).filter _ = []
  simp [LeaseSlot.key]

theorem counts_of_entries_nil (h : a.entries = []) : a.counts = {} := by
  have hNone : ∀ kind, a.countOf kind = 0 := by
    intro kind
    have hCnt : (a.slots.countP fun s =>
        s.inUse && s.generation == a.generation && s.kind == kind) = 0 := by
      rw [countP_eq_zero]
      intro s hs hCounted
      simp only [Bool.and_eq_true] at hCounted
      have hEntry := mem_entries.mpr ⟨hs, hCounted.1.1⟩
      rw [h] at hEntry
      cases hEntry
    rw [countOf, hCnt]
    rfl
  rw [counts, hNone, hNone, hNone]

end SubsystemLeaseAuthority

end Enml.OsSupervisor
