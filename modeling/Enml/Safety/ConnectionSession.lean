import Enml.Invariant.Connection
import Enml.Lib.Run

/-! Sessions over whole runs. A session is one entry in each of two tables, and each
table can be emptied without the other. As long as that happens between sessions only,
a session that is closed leaves nothing behind. -/
namespace Enml.OsSupervisor

open Enml.Core ConnectionAdmissionAuthority SubsystemLeaseAuthority List SlotTable GrantSlot Run
  SlotTable

inductive SessionOp where
  | admitPort (principal : PrincipalId) (transport : ConnectionTransport)
      (purpose : ConnectionPurpose) (proof : UserPresenceProof) (currentLockGeneration : UInt64)
  | close (session : ConnectionSession)
  | revokeAll
  | advanceGenerationAfterQuiesce

/-- The authorities, with the sessions that were admitted and not closed and those that
were closed. -/
structure Sessions where
  authorities : Authorities
  opened : List ConnectionSession := []
  closed : List ConnectionSession := []

namespace Sessions

variable {one other session : ConnectionSession} {a : Authorities} {transport : ConnectionTransport}
  {purpose : ConnectionPurpose} {proof : UserPresenceProof} {current : UInt64}
  {grant : ConnectionGrant}

/-- What an admission returned is put on record. -/
def admitted (s : Sessions) : Authorities × Option ConnectionSession → Sessions
  | (authorities, none) => { s with authorities }
  | (authorities, some session) => { s with authorities, opened := session :: s.opened }

/-- A session counts as closed once the call was made, whatever it returned. -/
def shut (s : Sessions) (session : ConnectionSession) : Sessions :=
  { authorities := (closeConnectionSession s.authorities session).1
    opened := s.opened.erase session
    closed := if session ∈ s.opened then session :: s.closed else s.closed }

def step (s : Sessions) : SessionOp → Sessions × Option ConnectionSession
  | .admitPort principal transport purpose proof current =>
    let answer := admitConnectionSession s.authorities principal transport purpose proof current
    (s.admitted answer, answer.2)
  | .close session => (s.shut session, none)
  | .revokeAll =>
    ({ s with authorities :=
        { s.authorities with admission := s.authorities.admission.revokeAll } }, none)
  | .advanceGenerationAfterQuiesce =>
    ({ s with authorities :=
        { s.authorities with leases := s.authorities.leases.advanceGenerationAfterQuiesce } },
      none)

def grantActive (s : Sessions) (session : ConnectionSession) : Bool :=
  s.authorities.admission.active session.grant session.grant.lockGeneration

def leaseActive (s : Sessions) (session : ConnectionSession) : Bool :=
  s.authorities.leases.active session.lease

/-- No lease is counted, and with nothing else pending the hardware is powered down
where that is what idling means. -/
def MayPowerDown (s : Sessions) : Prop :=
  let leases := s.authorities.leases
  leases.counts = {} ∧ (idleDisposition leases.domain = .stopAndPowerGate →
    (planIdleTransition leases.domain leases.counts {}).powerGateHardware = true)

/-- Nothing is left of a session but its two entries, and of a closed one not these. -/
structure Balanced (s : Sessions) : Prop where
  opened : ∀ session ∈ s.opened, s.grantActive session = s.leaseActive session
  closed : ∀ session ∈ s.closed, s.grantActive session = false ∧ s.leaseActive session = false
  idle : s.opened = [] → s.MayPowerDown

/-- The tables are as they were. The counters that number the entries may have moved. -/
structure SameTables (a a' : Authorities) : Prop where
  grants : a'.admission.slots = a.admission.slots
  activeGrants : a'.admission.activeGrants = a.admission.activeGrants
  grantGeneration : a'.admission.generation = a.admission.generation
  leases : a'.leases.slots = a.leases.slots
  leaseGeneration : a'.leases.generation = a.leases.generation
  domain : a'.leases.domain = a.leases.domain

/-- A numbering that has not run out. -/
def IdsLeft (s : Sessions) (op : SessionOp) : Prop :=
  ∀ principal transport purpose proof current,
    op = .admitPort principal transport purpose proof current →
      s.authorities.admission.nextId + 1 ≠ 0 ∧ s.authorities.leases.nextId ≠ 0

/-- The tables are emptied between sessions only, and nobody closes with the grant of
an open session and the lease of something else. -/
def Orderly (s : Sessions) : SessionOp → Prop
  | .admitPort .. => True
  | .close session => session.valid = true → session.lease.domain = s.authorities.leases.domain →
      ∀ other ∈ s.opened, other.grant = session.grant → other = session
  | .revokeAll => s.opened = []
  | .advanceGenerationAfterQuiesce => s.opened = []

/-- The lease of a session, as the table has it. -/
def leaseSlot (session : ConnectionSession) : LeaseSlot :=
  { inUse := true, id := session.lease.id, generation := session.lease.generation
    principal := session.principal, kind := .interactive }

def grantSlot (session : ConnectionSession) : GrantSlot := { inUse := true, grant := session.grant }

/-- The invariant: the tables hold the open sessions and nothing else. -/
structure Matched (s : Sessions) : Prop where
  sound : s.authorities.admission.Sound
  generation : s.authorities.leases.generation ≠ 0
  grants : s.authorities.admission.entries.Perm (s.opened.map grantSlot)
  leases : s.authorities.leases.entries.Perm (s.opened.map leaseSlot)
  sessions : ∀ session ∈ s.opened, session.valid = true ∧
    session.lease.domain = s.authorities.leases.domain ∧
    session.lease.generation = s.authorities.leases.generation
  ended : ∀ session ∈ s.closed, session.valid = true
  grantIds : ((s.opened ++ s.closed).map fun session => session.grant.id).Nodup
  leaseIds : ((s.opened ++ s.closed).map fun session => session.lease.id).Nodup
  grantsBelow : ∀ session ∈ s.opened ++ s.closed, session.grant.id ≤ s.authorities.admission.nextId
  leasesBelow : s.authorities.leases.nextId ≠ 0 → ∀ session ∈ s.opened ++ s.closed,
    session.lease.id < s.authorities.leases.nextId

variable {s : Sessions}

theorem matched_start (domain : SubsystemDomain) :
    Matched { authorities := { leases := { domain } } } := by
  refine ⟨sound_start, (by decide : (1 : UInt64) ≠ 0), ?_, ?_,
    by simp, by simp, nodup_nil, nodup_nil, by simp, by simp⟩
  · exact List.Perm.refl _
  · exact List.Perm.refl _

theorem Matched.mem_grants (h : s.Matched) {entry : GrantSlot} :
    entry ∈ s.authorities.admission.entries ↔ ∃ session ∈ s.opened, grantSlot session = entry := by
  rw [h.grants.mem_iff, mem_map]

theorem Matched.mem_leases (h : s.Matched) {entry : LeaseSlot} :
    entry ∈ s.authorities.leases.entries ↔ ∃ session ∈ s.opened, leaseSlot session = entry := by
  rw [h.leases.mem_iff, mem_map]

theorem Matched.grantKeys (h : s.Matched) :
    (keys GrantSlot.key s.authorities.admission.slots).Nodup := by
  have hOpened := h.grantIds
  rw [map_append] at hOpened
  have hEnts := (h.grants.map fun entry => entry.grant.id).nodup_iff
  rw [map_map] at hEnts
  rw [ConnectionAdmissionAuthority.keys_eq]
  exact hEnts.mpr hOpened.of_append_left

theorem Matched.leaseKeys (h : s.Matched) :
    (keys LeaseSlot.key s.authorities.leases.slots).Nodup := by
  have hOpened := h.leaseIds
  rw [map_append] at hOpened
  have hEnts := (h.leases.map fun entry => entry.id).nodup_iff
  rw [map_map] at hEnts
  rw [SubsystemLeaseAuthority.keys_eq]
  exact hEnts.mpr hOpened.of_append_left

/-- Sessions with one grant number are one session. -/
theorem Matched.eq_of_grant (h : s.Matched) (hOne : one ∈ s.opened ++ s.closed)
    (hOther : other ∈ s.opened ++ s.closed) (hId : one.grant.id = other.grant.id) : one = other :=
  inj_on_of_nodup_map h.grantIds hOne hOther hId

theorem Matched.eq_of_lease (h : s.Matched) (hOne : one ∈ s.opened ++ s.closed)
    (hOther : other ∈ s.opened ++ s.closed) (hId : one.lease.id = other.lease.id) : one = other :=
  inj_on_of_nodup_map h.leaseIds hOne hOther hId

theorem data_of_valid (h : session.valid = true) :
    session.grant.valid = true ∧ session.grant.dataSignaling = true ∧
      session.lease.valid = true ∧ validPrincipal session.principal = true := by
  simpa [ConnectionSession.valid, and_assoc] using h

theorem Matched.grantActive_of_opened (h : s.Matched) (hOpen : session ∈ s.opened) :
    s.grantActive session = true := by
  obtain ⟨hGrant, hData, -, -⟩ := data_of_valid (h.sessions session hOpen).1
  have hEntry := h.mem_grants.mpr ⟨session, hOpen, rfl⟩
  exact (active_iff h.sound hData).mpr
    ⟨hGrant, (h.sound.grants _ hEntry).2.2, rfl, _, hEntry, rfl⟩

theorem Matched.leaseActive_of_opened (h : s.Matched) (hOpen : session ∈ s.opened) :
    s.leaseActive session = true := by
  obtain ⟨hValid, hDomain, hGen⟩ := h.sessions session hOpen
  obtain ⟨-, -, hLease, -⟩ := data_of_valid hValid
  exact active_iff.mpr
    ⟨validForDomain_iff.mpr ⟨hLease, hDomain, hGen⟩,
      _, h.mem_leases.mpr ⟨session, hOpen, rfl⟩, rfl, rfl⟩

/-- A matched state has nothing left of the closed sessions. -/
theorem Matched.balanced (h : s.Matched) : s.Balanced := by
  have hApart : ∀ session ∈ s.closed, ∀ other ∈ s.opened, session ≠ other := by
    intro session hShut other hOpen hSame
    have hNodup := List.Nodup.of_map _ h.grantIds
    exact (nodup_append.mp hNodup).2.2 other hOpen session hShut hSame.symm
  refine ⟨?_, ?_, ?_⟩
  · intro session hOpen
    rw [h.grantActive_of_opened hOpen, h.leaseActive_of_opened hOpen]
  · intro session hShut
    have hMem : session ∈ s.opened ++ s.closed := mem_append_right _ hShut
    constructor
    · rw [← Bool.not_eq_true]
      intro hActive
      obtain ⟨-, hData, -, -⟩ := data_of_valid (h.ended session hShut)
      obtain ⟨-, -, -, entry, hEntry, hId⟩ := (active_iff h.sound hData).mp hActive
      obtain ⟨other, hOpen, rfl⟩ := h.mem_grants.mp hEntry
      exact hApart session hShut other hOpen
        (h.eq_of_grant hMem (mem_append_left _ hOpen) hId.symm)
    · rw [← Bool.not_eq_true]
      intro hActive
      obtain ⟨-, entry, hEntry, hId, -⟩ := active_iff.mp hActive
      obtain ⟨other, hOpen, rfl⟩ := h.mem_leases.mp hEntry
      exact hApart session hShut other hOpen
        (h.eq_of_lease hMem (mem_append_left _ hOpen) hId.symm)
  · intro hNone
    have hEnts : s.authorities.leases.entries = [] := by
      have hPerm := h.leases
      rw [hNone] at hPerm
      exact List.Perm.eq_nil hPerm
    have hCounts := counts_of_entries_nil hEnts
    refine ⟨hCounts, fun hIdle => ?_⟩
    rw [hCounts]
    simp [planIdleTransition, hIdle, LeaseCount.total]

/-- A grant that was just entered can be taken back, and the table is what it was. -/
theorem release_entered {a a' : ConnectionAdmissionAuthority} (h : a.Sound)
    (hEntered : ConnectionAdmissionAuthority.Entered a transport purpose proof current a' grant)
    (hFresh : a.nextNonzeroId ∉ keys key a.slots) :
    (a'.release grant).1 = { a with nextId := a.nextNonzeroId } := by
  obtain ⟨hNext, hGen, hActive⟩ := hEntered.others
  have hId : grant.id = a.nextNonzeroId := by rw [hEntered.fields]
  have hData : grant.dataSignaling = true := by rw [hEntered.fields]
  have hCur : grant.generation = a'.generation := by rw [hEntered.fields, hGen]
  have hKey : key { inUse := true, grant } = some grant.id := rfl
  have hAbsent : lookup key grant.id a.slots = none := by
    rw [SlotTable.lookup_eq_none_iff, hId]
    exact hFresh
  have hBlank : ∀ s ∈ a.slots, s.key = none → s = {} := by
    intro s hs hFree
    refine h.blank s hs ?_
    rw [← ConnectionAdmissionAuthority.isSome_key, hFree]
    rfl
  have hFound := lookup_insert_self hKey hAbsent hEntered.stored
  have hUndone := modify_insert hKey hAbsent hBlank hEntered.stored
  rw [release_of_found hEntered.valid hData hCur hFound]
  simp [hUndone, hActive, hNext, hGen]

/-- An admission fails and leaves the tables alone, or enters a grant and a lease. -/
theorem admitConnectionSession_cases (h : a.admission.Sound)
    (hFresh : a.admission.nextNonzeroId ∉ keys key a.admission.slots)
    (hNum : a.leases.nextId ≠ 0) (principal : PrincipalId) (transport : ConnectionTransport)
    (purpose : ConnectionPurpose) (proof : UserPresenceProof) (current : UInt64) :
    (∃ nextId, (nextId = a.admission.nextId ∨ nextId = a.admission.nextNonzeroId) ∧
      admitConnectionSession a principal transport purpose proof current =
        ({ a with admission := { a.admission with nextId } }, none)) ∨
      ∃ admission leases grant lease,
        admitConnectionSession a principal transport purpose proof current =
          ({ admission, leases }, some { grant, lease, principal }) ∧
        validPrincipal principal = true ∧
        ConnectionAdmissionAuthority.Entered a.admission transport purpose proof current admission
          grant ∧
        SubsystemLeaseAuthority.Acquired a.leases principal .interactive leases lease := by
  unfold admitConnectionSession
  by_cases hRefused : (!validPrincipal principal || purpose == .chargeOnly) = true
  · rw [if_pos hRefused]
    exact .inl ⟨_, .inl rfl, rfl⟩
  rw [if_neg hRefused]
  by_cases hDomain : connectionSubsystemDomain transport ≠ some a.leases.domain
  · rw [if_pos hDomain]
    exact .inl ⟨_, .inl rfl, rfl⟩
  rw [if_neg hDomain]
  have hCases := a.admission.admit_cases transport purpose proof current
  generalize a.admission.admitPort transport purpose proof current = answer at hCases
  obtain ⟨admission, grant⟩ := answer
  simp only at hCases ⊢
  rcases hCases with ⟨hNoData, rfl | rfl⟩ | hEntered
  · rw [if_pos (by simp [hNoData])]
    exact .inl ⟨_, .inl rfl, rfl⟩
  · rw [if_pos (by simp [hNoData])]
    exact .inl ⟨_, .inr rfl, rfl⟩
  have hData : grant.dataSignaling = true := by rw [hEntered.fields]
  rw [if_neg (by simp [hEntered.valid, hData])]
  rcases acquire_cases hNum principal .interactive with
    hNone | ⟨leases, lease, hSome, hAcquired⟩
  · rw [hNone]
    refine .inl ⟨_, .inr rfl, ?_⟩
    simp only [release_entered h hEntered hFresh]
  rw [hSome]
  refine .inr ⟨admission, leases, grant, lease, rfl, ?_, hEntered, hAcquired⟩
  simp at hRefused
  exact hRefused.1

/-- A counter that does not come round grows. -/
theorem lt_next {counter : UInt64} (h : counter + 1 ≠ 0) : counter < counter + 1 := by
  refine UInt64.lt_add_one fun hLast => h ?_
  rw [hLast]
  rfl

theorem Matched.fresh (h : s.Matched) (hLeft : s.authorities.admission.nextId + 1 ≠ 0) :
    s.authorities.admission.nextNonzeroId = s.authorities.admission.nextId + 1 ∧
      (∀ session ∈ s.opened ++ s.closed, session.grant.id < s.authorities.admission.nextNonzeroId) ∧
      s.authorities.admission.nextNonzeroId ∉
        keys GrantSlot.key s.authorities.admission.slots := by
  have hNext : s.authorities.admission.nextNonzeroId = s.authorities.admission.nextId + 1 :=
    if_neg hLeft
  have hBelow : ∀ session ∈ s.opened ++ s.closed,
      session.grant.id < s.authorities.admission.nextNonzeroId := by
    intro session hMem
    have hOld := h.grantsBelow session hMem
    rw [hNext]
    exact UInt64.lt_of_le_of_lt hOld (lt_next hLeft)
  refine ⟨hNext, hBelow, ?_⟩
  intro hKey
  rw [ConnectionAdmissionAuthority.keys_eq, List.mem_map] at hKey
  obtain ⟨entry, hEntry, hId⟩ := hKey
  obtain ⟨session, hOpen, rfl⟩ := h.mem_grants.mp hEntry
  have hStrict := hBelow session (mem_append_left _ hOpen)
  rw [← hId] at hStrict
  exact UInt64.lt_irrefl _ hStrict

theorem Matched.renumbered (h : s.Matched) {nextId : UInt64}
    (hLater : s.authorities.admission.nextId ≤ nextId) :
    { s with authorities := { s.authorities with
      admission := { s.authorities.admission with nextId } } }.Matched := by
  refine ⟨h.sound.renumbered nextId, h.generation, h.grants, h.leases, h.sessions, h.ended,
    h.grantIds, h.leaseIds, ?_, h.leasesBelow⟩
  intro session hMem
  exact UInt64.le_trans (h.grantsBelow session hMem) hLater

theorem Matched.entered (h : s.Matched) {principal : PrincipalId}
    {admission : ConnectionAdmissionAuthority} {leases : SubsystemLeaseAuthority}
    {lease : SubsystemLeaseToken}
    (hLeft : s.authorities.admission.nextId + 1 ≠ 0) (hPrinc : validPrincipal principal = true)
    (hEntered : ConnectionAdmissionAuthority.Entered s.authorities.admission transport purpose proof
      current admission grant)
    (hAcquired : SubsystemLeaseAuthority.Acquired s.authorities.leases principal .interactive leases
      lease) :
    Matched { s with
      authorities := { admission, leases }
      opened := { grant, lease, principal } :: s.opened } := by
  obtain ⟨hNext, hBelow, -⟩ := h.fresh hLeft
  obtain ⟨hGrantNext, -, -⟩ := hEntered.others
  obtain ⟨hLeaseNext, hLeaseGen, hLeaseDomain⟩ := hAcquired.others
  have hGrantId : grant.id = s.authorities.admission.nextNonzeroId := by rw [hEntered.fields]
  have hData : grant.dataSignaling = true := by rw [hEntered.fields]
  have hLeaseId : lease.id = s.authorities.leases.nextId := by rw [hAcquired.token]
  have hLeaseBelow := h.leasesBelow hAcquired.number
  refine ⟨h.sound.entered hEntered, ?_, ?_, ?_, ?_, h.ended, ?_, ?_, ?_, ?_⟩
  · rw [hLeaseGen]
    exact h.generation
  · exact hEntered.perm.trans (h.grants.cons _)
  · have hPerm := entries_insert rfl hAcquired.stored
    refine hPerm.trans ?_
    rw [hAcquired.token]
    exact h.leases.cons _
  · intro session hOpen
    rcases mem_cons.mp hOpen with rfl | hOld
    · refine ⟨?_, ?_, ?_⟩
      · have hToken : lease.valid = true := by
          simp [hAcquired.token, SubsystemLeaseToken.valid, hAcquired.number, h.generation]
        simp [ConnectionSession.valid, hEntered.valid, hData, hToken, hPrinc]
      · simp only [hAcquired.token, hLeaseDomain]
      · simp only [hAcquired.token, hLeaseGen]
    · simp only [hLeaseDomain, hLeaseGen]
      exact h.sessions session hOld
  · refine nodup_map_of_perm (List.Perm.refl _) h.grantIds fun session hMem hId => ?_
    have hSame : session.grant.id = grant.id := hId
    have hStrict := hBelow session hMem
    rw [hSame, hGrantId] at hStrict
    exact UInt64.lt_irrefl _ hStrict
  · refine nodup_map_of_perm (List.Perm.refl _) h.leaseIds fun session hMem hId => ?_
    have hSame : session.lease.id = lease.id := hId
    have hStrict := hLeaseBelow session hMem
    rw [hSame, hLeaseId] at hStrict
    exact UInt64.lt_irrefl _ hStrict
  · intro session hMem
    simp only [hGrantNext]
    rcases mem_cons.mp hMem with rfl | hOld
    · rw [hGrantId]
      exact UInt64.le_refl _
    · exact UInt64.le_of_lt (hBelow session hOld)
  · intro hMore session hMem
    simp only [hLeaseNext] at hMore ⊢
    rcases mem_cons.mp hMem with rfl | hOld
    · rw [hLeaseId]
      exact lt_next hMore
    · exact UInt64.lt_trans (hLeaseBelow session hOld) (lt_next hMore)

/-- An admission keeps the match, and changes no table when it fails. -/
theorem Matched.admitPort (h : s.Matched) (principal : PrincipalId)
    (transport : ConnectionTransport) (purpose : ConnectionPurpose) (proof : UserPresenceProof)
    (current : UInt64)
    (hLeft : s.authorities.admission.nextId + 1 ≠ 0) (hNum : s.authorities.leases.nextId ≠ 0) :
    (s.step (.admitPort principal transport purpose proof current)).1.Matched ∧
      ((s.step (.admitPort principal transport purpose proof current)).2 = none →
        SameTables s.authorities
          (s.step (.admitPort principal transport purpose proof current)).1.authorities) := by
  obtain ⟨hNext, -, hFresh⟩ := h.fresh hLeft
  rw [step]
  rcases admitConnectionSession_cases h.sound hFresh hNum principal transport purpose proof
    current with ⟨nextId, hLater, hAns⟩ | ⟨admission, leases, grant, lease, hAns, hPrinc,
      hEntered, hAcquired⟩
  · rw [hAns]
    refine ⟨h.renumbered ?_, fun _ => ⟨rfl, rfl, rfl, rfl, rfl, rfl⟩⟩
    rcases hLater with rfl | rfl
    · exact UInt64.le_refl _
    · rw [hNext]
      exact UInt64.le_of_lt (lt_next hLeft)
  · rw [hAns]
    exact ⟨h.entered hLeft hPrinc hEntered hAcquired, nofun⟩

theorem Matched.lookup_grant (h : s.Matched) (hOpen : session ∈ s.opened) :
    lookup key session.grant.id s.authorities.admission.slots =
      some (grantSlot session) := by
  have hEntry := h.mem_grants.mpr ⟨session, hOpen, rfl⟩
  rw [lookup_eq_some_iff h.grantKeys]
  exact ⟨(ConnectionAdmissionAuthority.mem_entries.mp hEntry).1, rfl⟩

theorem Matched.lookup_lease (h : s.Matched) (hOpen : session ∈ s.opened) :
    lookup LeaseSlot.key session.lease.id s.authorities.leases.slots =
      some (leaseSlot session) := by
  have hEntry := h.mem_leases.mpr ⟨session, hOpen, rfl⟩
  rw [lookup_eq_some_iff h.leaseKeys]
  exact ⟨(SubsystemLeaseAuthority.mem_entries.mp hEntry).1, rfl⟩

/-- The grant of an open session can be released. -/
theorem Matched.release_grant (h : s.Matched) (hOpen : session ∈ s.opened) :
    (s.authorities.admission.release session.grant).2 = true ∧
      ConnectionAdmissionAuthority.Released s.authorities.admission session.grant
        (s.authorities.admission.release session.grant).1 := by
  obtain ⟨hGrant, hData, -, -⟩ := data_of_valid (h.sessions session hOpen).1
  obtain ⟨-, -, hCur⟩ := h.sound.grants _ (h.mem_grants.mpr ⟨session, hOpen, rfl⟩)
  have hFound := h.lookup_grant hOpen
  rw [release_of_found hGrant hData hCur hFound]
  exact ⟨rfl, hFound, hCur, rfl⟩

theorem Matched.release_lease (h : s.Matched) (hOpen : session ∈ s.opened) :
    SubsystemLeaseAuthority.Released s.authorities.leases session.principal session.lease
      (leaseSlot session) := by
  obtain ⟨hValid, hDomain, hGen⟩ := h.sessions session hOpen
  obtain ⟨-, -, hLease, hPrinc⟩ := data_of_valid hValid
  exact release_of_found
    (validForDomain_iff.mpr ⟨hLease, hDomain, hGen⟩) hPrinc
    (h.lookup_lease hOpen) rfl rfl

/-- Once the grant is released, closing goes on to the lease. -/
theorem closeConnectionSession_released (hValid : session.valid = true)
    (hDomain : session.lease.domain = a.leases.domain)
    (hReleased : (a.admission.release session.grant).2 = true) :
    (closeConnectionSession a session).1 =
      { admission := (a.admission.release session.grant).1
        leases := (a.leases.release session.principal session.lease).1 } := by
  have hChecked : ¬(!session.valid || a.leases.domain != session.lease.domain) = true := by
    simp [hValid, hDomain]
  have hPair : a.admission.release session.grant = ((a.admission.release session.grant).1, true) :=
    Prod.ext rfl hReleased
  rw [closeConnectionSession, if_neg hChecked, hPair]

/-- A close that does not get to release a grant changes nothing. -/
theorem closeConnectionSession_refused
    (hRefused : session.valid = true → session.lease.domain = a.leases.domain →
      a.admission.release session.grant = (a.admission, false)) :
    (closeConnectionSession a session).1 = a := by
  unfold closeConnectionSession
  by_cases hChecked : (!session.valid || a.leases.domain != session.lease.domain) = true
  · rw [if_pos hChecked]
  · rw [if_neg hChecked]
    simp at hChecked
    rw [hRefused hChecked.1 hChecked.2.symm]

theorem perm_shut (hOpen : session ∈ s.opened) :
    (s.opened.erase session ++ session :: s.closed).Perm (s.opened ++ s.closed) :=
  perm_middle.trans ((perm_cons_erase hOpen).symm.append_right s.closed)

theorem Matched.close_opened (h : s.Matched) (hOpen : session ∈ s.opened) :
    (s.shut session).Matched := by
  obtain ⟨hValid, hDomain, -⟩ := h.sessions session hOpen
  obtain ⟨hDone, hReleased⟩ := h.release_grant hOpen
  have hLease := h.release_lease hOpen
  have hLeaseRes := congrArg Prod.fst hLease.result
  have hPerm := perm_shut hOpen
  have hErase := perm_cons_erase hOpen
  unfold shut
  rw [closeConnectionSession_released hValid hDomain hDone, if_pos hOpen]
  refine ⟨h.sound.released hReleased, ?_, ?_, ?_, ?_, ?_, ?_, ?_, ?_, ?_⟩
  · rw [hLeaseRes]
    exact h.generation
  · exact (hReleased.perm.symm.trans (h.grants.trans (hErase.map grantSlot))).cons_inv
  · exact (hLease.perm.symm.trans (h.leases.trans (hErase.map leaseSlot))).cons_inv
  · intro other hOther
    rw [hLeaseRes]
    exact h.sessions other (mem_of_mem_erase hOther)
  · intro other hOther
    rcases mem_cons.mp hOther with rfl | hOld
    · exact hValid
    · exact h.ended other hOld
  · exact (hPerm.map _).nodup_iff.mpr h.grantIds
  · exact (hPerm.map _).nodup_iff.mpr h.leaseIds
  · intro other hOther
    rw [hReleased.result]
    exact h.grantsBelow other (hPerm.mem_iff.mp hOther)
  · intro hMore other hOther
    rw [hLeaseRes] at hMore ⊢
    exact h.leasesBelow hMore other (hPerm.mem_iff.mp hOther)

theorem Matched.close (h : s.Matched) (hOrderly : s.Orderly (.close session)) :
    (s.shut session).Matched := by
  by_cases hOpen : session ∈ s.opened
  · exact h.close_opened hOpen
  have hSame : (closeConnectionSession s.authorities session).1 = s.authorities := by
    refine closeConnectionSession_refused fun hValid hDomain => ?_
    rcases release_cases h.sound session.grant with
      hRefused | ⟨-, hReleased⟩
    · exact hRefused
    obtain ⟨hMem, -⟩ := mem_of_lookup hReleased.found
    obtain ⟨other, hOther, hSlot⟩ := h.mem_grants.mp
      (ConnectionAdmissionAuthority.mem_entries.mpr ⟨hMem, rfl⟩)
    have hGrant : other.grant = session.grant := congrArg grant hSlot
    exact absurd (hOrderly hValid hDomain other hOther hGrant ▸ hOther) hOpen
  unfold shut
  rw [hSame, erase_of_not_mem hOpen, if_neg hOpen]
  exact h

/-- A session that is closed under the grant of another one leaves the lease of that
one behind. -/
theorem Matched.orderly_of_balanced_close (h : s.Matched) (hBalanced : (s.shut session).Balanced) :
    s.Orderly (.close session) := by
  intro hValid hDomain other hOther hGrant
  by_contra hDiffers
  have hStays : other ∈ (s.shut session).opened := (mem_erase_of_ne hDiffers).mpr hOther
  obtain ⟨hDone, hReleased⟩ := h.release_grant hOther
  rw [hGrant] at hDone hReleased
  have hState := closeConnectionSession_released hValid hDomain hDone
  obtain ⟨hOtherValid, hOtherDomain, hOtherGen⟩ := h.sessions other hOther
  obtain ⟨-, hData, -, -⟩ := data_of_valid hOtherValid
  have hNoGrant : (s.shut session).grantActive other = false := by
    rw [← Bool.not_eq_true]
    intro hActive
    have hSound : (s.shut session).authorities.admission.Sound := by
      rw [shut, hState]
      exact h.sound.released hReleased
    obtain ⟨-, -, -, entry, hEntry, hId⟩ := (active_iff hSound hData).mp hActive
    have hKeys := h.grantKeys
    rw [ConnectionAdmissionAuthority.keys_eq] at hKeys
    have hApart := (hReleased.perm.map fun entry => entry.grant.id).nodup_iff.mp hKeys
    rw [map_cons, nodup_cons] at hApart
    rw [shut, hState] at hEntry
    refine hApart.1 (mem_map.mpr ⟨entry, hEntry, hId.trans ?_⟩)
    rw [hGrant]
  have hLease : (s.shut session).leaseActive other = true := by
    have hStill := h.leaseActive_of_opened hOther
    rw [leaseActive, SubsystemLeaseAuthority.active_iff] at hStill ⊢
    rw [shut, hState]
    rcases s.authorities.leases.release_cases session.principal session.lease with
      hKept | ⟨slot, hTaken⟩
    · rw [hKept]
      exact hStill
    rw [hTaken.result]
    refine ⟨hStill.1, leaseSlot other, ?_, rfl, rfl⟩
    have hEntry := h.mem_leases.mpr ⟨other, hOther, rfl⟩
    have hPerm := hTaken.perm
    rw [hTaken.result] at hPerm
    rcases mem_cons.mp (hPerm.mem_iff.mp hEntry) with hSlot | hKept
    · -- The lease that went is that of the other session, and so is the owner.
      refine absurd ?_ hDiffers
      have hToken := validForDomain_iff.mp hTaken.current
      obtain ⟨-, hKey⟩ := mem_of_lookup hTaken.found
      rw [← hSlot] at hKey
      have hId : other.lease.id = session.lease.id := Option.some.inj hKey
      have hOwner : other.principal = session.principal := by
        have hSame := hTaken.owner
        rw [← hSlot] at hSame
        exact hSame
      have hLeaseGen := hOtherGen.trans hToken.2.2.symm
      have hLeaseDomain := hOtherDomain.trans hToken.2.1.symm
      obtain ⟨otherGrant, ⟨otherId, otherGeneration, otherDomain⟩, otherPrincipal⟩ := other
      simp only at hGrant hId hOwner hLeaseGen hLeaseDomain
      simp only [hGrant, hId, hOwner, hLeaseGen, hLeaseDomain]
    · exact hKept
  have hEqual := hBalanced.opened other hStays
  rw [hNoGrant, hLease] at hEqual
  cases hEqual

theorem Matched.revokeAll (h : s.Matched) (hNone : s.opened = []) :
    (s.step .revokeAll).1.Matched := by
  have hEnts := s.authorities.admission.entries_revokeAll
  refine ⟨h.sound.revokeAll, h.generation, ?_, h.leases, h.sessions, h.ended, h.grantIds,
    h.leaseIds, h.grantsBelow, h.leasesBelow⟩
  show (s.authorities.admission.revokeAll.entries).Perm (s.opened.map grantSlot)
  rw [hEnts, hNone]
  exact List.Perm.refl _

theorem Matched.advance (h : s.Matched) (hNone : s.opened = []) :
    (s.step .advanceGenerationAfterQuiesce).1.Matched := by
  have hEnts := s.authorities.leases.entries_advance
  refine ⟨h.sound, nextGeneration_ne_zero _, h.grants, ?_, ?_, h.ended, h.grantIds, h.leaseIds,
    h.grantsBelow, h.leasesBelow⟩
  · show (s.authorities.leases.advanceGenerationAfterQuiesce.entries).Perm (s.opened.map leaseSlot)
    rw [hEnts, hNone]
    exact List.Perm.refl _
  intro session hOpen
  have hStill : session ∈ s.opened := hOpen
  rw [hNone] at hStill
  cases hStill

/-- A session that is open when the grants are revoked keeps its lease. -/
theorem Matched.none_open_of_revokeAll (h : s.Matched)
    (hBalanced : (s.step .revokeAll).1.Balanced) : s.opened = [] := by
  rw [eq_nil_iff_forall_not_mem]
  intro session hOpen
  have hEqual := hBalanced.opened session hOpen
  have hLease : (s.step .revokeAll).1.leaseActive session = true := h.leaseActive_of_opened hOpen
  rw [hLease] at hEqual
  obtain ⟨-, hData, -, -⟩ := data_of_valid (h.sessions session hOpen).1
  obtain ⟨-, -, -, entry, hEntry, -⟩ := (active_iff h.sound.revokeAll hData).mp hEqual
  rw [entries_revokeAll] at hEntry
  cases hEntry

theorem Matched.none_open_of_advance (h : s.Matched)
    (hBalanced : (s.step .advanceGenerationAfterQuiesce).1.Balanced) : s.opened = [] := by
  rw [eq_nil_iff_forall_not_mem]
  intro session hOpen
  have hEqual := hBalanced.opened session hOpen
  have hGrant : (s.step .advanceGenerationAfterQuiesce).1.grantActive session = true :=
    h.grantActive_of_opened hOpen
  rw [hGrant] at hEqual
  obtain ⟨-, entry, hEntry, -, -⟩ := active_iff.mp hEqual.symm
  have hGone : entry ∈ s.authorities.leases.advanceGenerationAfterQuiesce.entries := hEntry
  rw [entries_advance] at hGone
  cases hGone

variable {op : SessionOp}

/-- While ids last, an orderly step keeps grants and leases matched. -/
theorem Matched.step (h : s.Matched) (hLeft : s.IdsLeft op) (hOrderly : s.Orderly op) :
    (s.step op).1.Matched := by
  cases op with
  | admitPort principal transport purpose proof current =>
    obtain ⟨hGrants, hLeases⟩ := hLeft _ _ _ _ _ rfl
    exact (h.admitPort principal transport purpose proof current hGrants hLeases).1
  | close => exact h.close hOrderly
  | revokeAll => exact h.revokeAll hOrderly
  | advanceGenerationAfterQuiesce => exact h.advance hOrderly

theorem Matched.orderly_of_balanced (h : s.Matched) (hBalanced : (s.step op).1.Balanced) :
    s.Orderly op := by
  cases op with
  | admitPort => trivial
  | close => exact h.orderly_of_balanced_close hBalanced
  | revokeAll => exact h.none_open_of_revokeAll hBalanced
  | advanceGenerationAfterQuiesce => exact h.none_open_of_advance hBalanced

end Sessions

/-- A run of calls on new authorities for one subsystem. -/
structure SessionRun where
  domain : SubsystemDomain
  ops : List SessionOp

namespace SessionRun

def start (r : SessionRun) : Sessions := { authorities := { leases := { domain := r.domain } } }

/-- The sessions after the first `n` calls. -/
def reached (r : SessionRun) (n : Nat) : Sessions := Run.after Sessions.step r.start (r.ops.take n)

/-- A failed admission changes no table, and no session leaves anything behind. -/
structure NeverLeaks (r : SessionRun) : Prop where
  failures : Run.EachStep Sessions.step (fun s op =>
    ∀ principal transport purpose proof current,
      op = .admitPort principal transport purpose proof current → (s.step op).2 = none →
        Sessions.SameTables s.authorities (s.step op).1.authorities) r.start r.ops
  balanced : Run.Always Sessions.step Sessions.Balanced r.start r.ops

/-- Neither numbering runs out. -/
def IdsLast (r : SessionRun) : Prop := Run.EachStep Sessions.step Sessions.IdsLeft r.start r.ops

/-- Every call of the run is orderly. -/
def Orderly (r : SessionRun) : Prop := Run.EachStep Sessions.step Sessions.Orderly r.start r.ops

variable {r : SessionRun}

theorem matched_of_orderly (hLast : r.IdsLast) (hOrderly : r.Orderly) (n : Nat) :
    (r.reached n).Matched := by
  refine always_of_step (C := fun s op => s.IdsLeft op ∧ s.Orderly op)
    (Sessions.matched_start r.domain) ?_ ?_ n
  · rintro s op hMatched ⟨hLeft, hOp⟩
    exact hMatched.step hLeft hOp
  · intro n op hAt
    exact ⟨hLast n op hAt, hOrderly n op hAt⟩

theorem neverLeaks_of_orderly (hLast : r.IdsLast) (hOrderly : r.Orderly) : r.NeverLeaks := by
  refine ⟨?_, fun n => (matched_of_orderly hLast hOrderly n).balanced⟩
  rintro n op hAt principal transport purpose proof current rfl
  obtain ⟨hGrants, hLeases⟩ := hLast n _ hAt _ _ _ _ _ rfl
  exact ((matched_of_orderly hLast hOrderly n).admitPort principal transport purpose proof current
    hGrants hLeases).2

theorem orderly_of_neverLeaks (hLast : r.IdsLast) (h : r.NeverLeaks) : r.Orderly := by
  have hMatched : ∀ n, (r.reached n).Matched := by
    intro n
    induction n with
    | zero => exact Sessions.matched_start r.domain
    | succ n ih =>
      cases hAt : r.ops[n]? with
      | none =>
        rw [reached, take_succ_of_none hAt]
        exact ih
      | some op =>
        have hNext : r.reached (n + 1) = ((r.reached n).step op).1 := after_take_succ hAt
        have hBalanced := h.balanced (n + 1)
        rw [after_take_succ hAt] at hBalanced
        rw [hNext]
        exact ih.step (hLast n op hAt) (ih.orderly_of_balanced hBalanced)
  intro n op hAt
  have hBalanced := h.balanced (n + 1)
  rw [after_take_succ hAt] at hBalanced
  exact (hMatched n).orderly_of_balanced hBalanced

/-- As long as the numbers last, no session leaks anything exactly when neither table is
emptied while a session is open and no session is closed under the grant of another. -/
theorem sessions_never_leak_iff_orderly (r : SessionRun) :
    (r.IdsLast ∧ r.Orderly → r.NeverLeaks) ∧ (r.IdsLast → r.NeverLeaks → r.Orderly) :=
  ⟨fun h => neverLeaks_of_orderly h.1 h.2, fun hLast h => orderly_of_neverLeaks hLast h⟩

def presentUser : PrincipalId := { high := 1, low := 2 }

def unlockProof : UserPresenceProof :=
  { authenticationGeneration := 5, lockGeneration := 9, passwordOrPinVerified := true }

/-- What the first admission returns. -/
def firstSession : ConnectionSession :=
  { grant := { id := 1, generation := 1, lockGeneration := 9, transport := .usb
               purpose := .fileTransfer, dataSignaling := true }
    lease := { id := 1, generation := 1, domain := .usbData }
    principal := presentUser }

/-- The device is locked while a session is open, and the session is closed after that. -/
def lockedRun : SessionRun where
  domain := .usbData
  ops := [.admitPort presentUser .usb .fileTransfer unlockProof 9, .revokeAll, .close firstSession]

/-- The session is closed, and its lease is still active and still counted. -/
theorem locked_session_keeps_its_lease :
    (lockedRun.reached 3).opened = [] ∧ firstSession ∈ (lockedRun.reached 3).closed ∧
      (lockedRun.reached 3).leaseActive firstSession = true ∧
      (lockedRun.reached 3).authorities.leases.counts.total = 1 ∧ ¬lockedRun.NeverLeaks := by
  have hClosed : firstSession ∈ (lockedRun.reached 3).closed := by decide +kernel
  have hActive : (lockedRun.reached 3).leaseActive firstSession = true := by decide +kernel
  refine ⟨by decide +kernel, hClosed, hActive, by decide +kernel, ?_⟩
  intro hNever
  have hGone := ((hNever.balanced 3).closed firstSession hClosed).2
  cases hGone

end SessionRun

end Enml.OsSupervisor
