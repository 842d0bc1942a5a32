import Enml.Invariant.Capability

/-! What each consumer of a capability has established when it succeeds: the
slot behind the capability, who holds it, and the object it names. -/
namespace Enml.OsKernel

open Enml.Core IpcEndpointTable

variable {authority : ExecutionAuthority}

namespace CapabilityTable

variable {t : CapabilityTable} {thread : ThreadId} {capability : CapabilityId}

/-- The capability is there and `thread` holds it by its number alone. -/
def HeldBy (t : CapabilityTable) (thread : ThreadId) (capability : CapabilityId) (slot : Slot) :
    Prop :=
  t.find capability = some slot ∧ slot.heldByThread thread = true

/-- The capability is there and held by exactly this incarnation. -/
def HeldByBound (t : CapabilityTable) (authority : ExecutionAuthority)
    (capability : CapabilityId) (slot : Slot) : Prop :=
  t.find capability = some slot ∧ slot.heldBy authority = true

theorem heldBy_of_holds (h : t.holds thread capability = true) :
    ∃ slot, t.HeldBy thread capability slot := by
  unfold holds at h
  split_ifs at h
  split at h
  · cases h
  · rename_i slot hFind
    exact ⟨slot, hFind, h⟩

theorem heldByBound_of_holds (h : t.holdsBound authority capability = true) :
    ∃ slot, t.HeldByBound authority capability slot := by
  unfold holdsBound at h
  split_ifs at h
  split at h
  · cases h
  · rename_i slot hFind
    exact ⟨slot, hFind, h⟩

variable {info : CapabilityInfo} {rights : Rights} {transferable : Bool} {t' : CapabilityTable}
  {id : CapabilityId}

theorem describe_ok (h : t.describe capability = .ok info) :
    ∃ slot, t.find capability = some slot ∧ info = slot.info := by
  unfold describe at h
  split_ifs at h
  split at h
  · cases h
  · rename_i slot hFind
    cases h
    exact ⟨slot, hFind, rfl⟩

/-- A holder's description is that of the slot it holds. -/
theorem heldBy_of_describe (hDescribe : t.describe capability = .ok info)
    (hHolds : t.holds thread capability = true) :
    ∃ slot, t.HeldBy thread capability slot ∧ info = slot.info := by
  obtain ⟨slot, hFind, rfl⟩ := describe_ok hDescribe
  obtain ⟨slot', hFind', hHeld⟩ := heldBy_of_holds hHolds
  rw [hFind] at hFind'
  cases hFind'
  exact ⟨slot, ⟨hFind, hHeld⟩, rfl⟩

theorem grant_ok {recipient : ThreadId}
    (h : t.grant thread capability recipient rights transferable = (t', .ok id)) :
    ∃ slot, t.HeldBy thread capability slot := by
  unfold grant at h
  split_ifs at h
  · cases h
  · cases h
  obtain ⟨e, hRefused⟩ | ⟨parent, hFind, hHeld, -⟩ := Forest.derive_cases (t := t) capability
    (fun parent => parent.heldByThread thread) (fun child => { child with holder := recipient })
    rights transferable
  · rw [hRefused] at h
    cases h
  · exact ⟨parent, hFind, hHeld⟩

theorem grantBound_ok {granter recipient : ExecutionAuthority}
    (h : t.grantBound granter capability recipient rights transferable = (t', .ok id)) :
    ∃ slot, t.HeldByBound granter capability slot := by
  unfold grantBound at h
  split_ifs at h
  · cases h
  · cases h
  obtain ⟨e, hRefused⟩ | ⟨parent, hFind, hHeld, -⟩ := Forest.derive_cases (t := t) capability
    (fun parent => parent.heldBy granter)
    (fun child => { child with
      holder := recipient.thread
      holderAddressSpace := recipient.addressSpace
      contextBound := true }) rights transferable
  · rw [hRefused] at h
    cases h
  · exact ⟨parent, hFind, hHeld⟩

end CapabilityTable

open CapabilityTable

variable {thread : ThreadId} {capability : CapabilityId}
  {ipc : IpcEndpointTable} {required : Rights} {endpoint : IpcEndpoint}
  {capabilities : CapabilityTable}

theorem endpointOfObject_ok {info : CapabilityInfo}
    (h : ipc.endpointOfObject info required = .ok endpoint) :
    decodeEndpointObject info.object = .ok endpoint ∧ ipc.active endpoint = true := by
  unfold endpointOfObject at h
  split_ifs at h
  split at h
  · cases h
  rename_i hDecode
  split_ifs at h with hActive
  cases h
  exact ⟨hDecode, by simpa using hActive⟩

theorem endpointForCapability_ok
    (h : ipc.endpointForCapability thread capability required capabilities = .ok endpoint) :
    ∃ slot, capabilities.HeldBy thread capability slot ∧
      decodeEndpointObject slot.object = .ok endpoint ∧ ipc.active endpoint = true := by
  unfold endpointForCapability at h
  split_ifs at h
  split at h
  · cases h
  rename_i hDescribe
  split_ifs at h with hRefused
  simp only [Bool.or_eq_true, Bool.not_eq_true', not_or, Bool.not_eq_false] at hRefused
  obtain ⟨slot, hHeld, rfl⟩ := heldBy_of_describe hDescribe hRefused.2
  exact ⟨slot, hHeld, endpointOfObject_ok h⟩

theorem endpointForBoundCapability_ok
    (h : ipc.endpointForBoundCapability authority capability required capabilities = .ok endpoint) :
    ∃ slot, capabilities.HeldByBound authority capability slot ∧
      decodeEndpointObject slot.object = .ok endpoint ∧ ipc.active endpoint = true := by
  unfold endpointForBoundCapability at h
  split at h
  · cases h
  split at h
  · cases h
  rename_i hDescribe
  split at h
  · cases h
  rename_i hRefused
  simp only [Bool.not_eq_true', Bool.not_eq_false] at hRefused
  obtain ⟨slot, hFind, rfl⟩ := describe_ok hDescribe
  obtain ⟨slot', hFind', hHeld⟩ := heldByBound_of_holds hRefused
  rw [hFind] at hFind'
  cases hFind'
  exact ⟨slot, ⟨hFind, hHeld⟩, endpointOfObject_ok h⟩

theorem addressSpaceCapability_ok {object : ObjectId}
    (h : addressSpaceCapability thread capability capabilities required object = .ok ()) :
    ∃ slot, capabilities.HeldBy thread capability slot ∧ slot.object = object := by
  unfold addressSpaceCapability at h
  split_ifs at h with _ hHolds
  split at h
  · cases h
  rename_i hDescribe
  split_ifs at h with hRefused
  simp only [not_or, not_not] at hRefused
  simp only [Bool.not_eq_true', Bool.not_eq_false] at hHolds
  obtain ⟨slot, hHeld, rfl⟩ := heldBy_of_describe hDescribe hHolds
  exact ⟨slot, hHeld, hRefused.2⟩

/-- The slot names the identity and carries the right. -/
structure Slot.Names (slot : CapabilityTable.Slot) (required : Rights)
    (identity : AddressSpaceIdentity) : Prop where
  right : slot.rights &&& required ≠ 0
  tagged : slot.object &&& addressSpaceObjectTagMask = addressSpaceObjectTag
  identity_eq : addressSpaceIdentityOf slot.object = identity
  valid : identity.valid = true

theorem addressSpaceIdentity_ok {identity : AddressSpaceIdentity}
    (h : addressSpaceIdentityForCapability thread capability capabilities required = .ok identity) :
    ∃ slot, capabilities.HeldBy thread capability slot ∧ Slot.Names slot required identity := by
  unfold addressSpaceIdentityForCapability at h
  split_ifs at h with _ hHolds
  split at h
  · cases h
  rename_i hDescribe
  split_ifs at h with hRefused
  dsimp only at h
  split_ifs at h with hValid
  simp only [not_or, not_not, ne_eq] at hRefused
  simp only [Bool.not_eq_true', Bool.not_eq_false] at hHolds hValid
  obtain ⟨slot, hHeld, rfl⟩ := heldBy_of_describe hDescribe hHolds
  cases h
  exact ⟨slot, hHeld, hRefused.1, hRefused.2, rfl, hValid⟩

theorem interruptSource_ok {source : InterruptSource}
    (h : interruptSourceForCapability thread capability capabilities = .ok source) :
    ∃ slot, capabilities.HeldBy thread capability slot := by
  unfold interruptSourceForCapability at h
  split_ifs at h with _ hHolds
  simp only [Bool.not_eq_true', Bool.not_eq_false] at hHolds
  exact heldBy_of_holds hHolds

namespace Kernel

variable {k : Kernel} {request : IpcEnvelope} {k' : Kernel} {received : IpcReceived}
  {grants : MemoryGrantAuthority} {translations : ProcessTranslationTable}
  {done : Kernel × ProcessTranslationTable} {admission : ThreadAdmission}

  {epochs : AddressSpaceEpochAuthority} {executables : ExecutableRegionTable} {space : CapabilityId}
  {stack : UInt64} {root : SealedTranslationRoot}

/-- An endpoint call that succeeds has found the endpoint of its capability. -/
theorem ipcSend_endpoint (h : k.ipcSend thread capability request = (k', .ok ())) :
    ∃ endpoint, k.ipc.endpointForCapability thread capability ipcRightSend k.capabilities =
      .ok endpoint := by
  unfold ipcSend IpcEndpointTable.send at h
  cases hFound : k.ipc.endpointForCapability thread capability ipcRightSend k.capabilities with
  | error =>
    rw [hFound] at h
    cases h
  | ok endpoint => exact ⟨endpoint, rfl⟩

theorem ipcReceive_endpoint (h : k.ipcReceive thread capability = (k', .ok received)) :
    ∃ endpoint, k.ipc.endpointForCapability thread capability ipcRightReceive k.capabilities =
      .ok endpoint := by
  unfold ipcReceive IpcEndpointTable.receive at h
  cases hFound : k.ipc.endpointForCapability thread capability ipcRightReceive k.capabilities with
  | error e =>
    rw [hFound] at h
    cases h
  | ok endpoint => exact ⟨endpoint, rfl⟩

theorem ipcSendBound_endpoint (h : k.ipcSendBound authority capability request = (k', .ok ())) :
    ∃ endpoint, k.ipc.endpointForBoundCapability authority capability ipcRightSend
      k.capabilities = .ok endpoint := by
  unfold ipcSendBound sendBound at h
  cases hFound : k.ipc.endpointForBoundCapability authority capability ipcRightSend
      k.capabilities with
  | error e =>
    rw [hFound] at h
    cases h
  | ok endpoint => exact ⟨endpoint, rfl⟩

theorem ipcReceiveBound_endpoint (h : k.ipcReceiveBound authority capability = (k', .ok received)) :
    ∃ endpoint, k.ipc.endpointForBoundCapability authority capability ipcRightReceive
      k.capabilities = .ok endpoint := by
  unfold ipcReceiveBound receiveBound at h
  cases hFound : k.ipc.endpointForBoundCapability authority capability ipcRightReceive
      k.capabilities with
  | error e =>
    rw [hFound] at h
    cases h
  | ok endpoint => exact ⟨endpoint, rfl⟩

theorem memoryForCapability_ok {required : Rights} {grant : MemoryGrant}
    (h : k.memoryForCapability thread capability required grants = .ok grant) :
    ∃ slot, k.capabilities.HeldBy thread capability slot ∧
      slot.object &&& memoryGrantObjectTagMask = memoryGrantObjectTag ∧
      grants.resolve (memoryGrantIdentityOf slot.object) = .ok grant := by
  unfold memoryForCapability at h
  split_ifs at h with _ hHolds
  split at h
  · cases h
  rename_i hDescribe
  split_ifs at h with hRefused
  simp only [not_or, not_not, ne_eq] at hRefused
  simp only [Bool.not_eq_true', Bool.not_eq_false] at hHolds
  obtain ⟨slot, hHeld, rfl⟩ := heldBy_of_describe hDescribe hHolds
  exact ⟨slot, hHeld, hRefused.2, h⟩

/-- Both capabilities of a mapping call have been checked and their objects
resolved. -/
theorem authorize_ok {α : Type} {space backing : CapabilityId} {authorization : α}
    {decide : AddressSpaceIdentity → MemoryGrant → Result α}
    (h : (do
      let identity ← addressSpaceIdentityForCapability thread space k.capabilities
        addressSpaceRightHold
      let _ ← epochs.resolve identity
      let backing ← k.memoryForCapability thread backing memoryRightMap grants
      decide identity backing) = .ok authorization) :
    ∃ identity epoch grant, addressSpaceIdentityForCapability thread space k.capabilities
        addressSpaceRightHold = .ok identity ∧
      epochs.resolve identity = .ok epoch ∧
      k.memoryForCapability thread backing memoryRightMap grants = .ok grant := by
  obtain ⟨identity, hId, h⟩ := bind_ok h
  obtain ⟨epoch, hResolve, h⟩ := bind_ok h
  obtain ⟨grant, hMem, -⟩ := bind_ok h
  exact ⟨identity, epoch, grant, hId, hResolve, hMem⟩

theorem admissionCheck_ok {admitted : AddressSpaceEpoch × UInt64}
    (h : k.admissionCheck thread space stack root epochs executables = .ok admitted) :
    ∃ identity epoch region,
      addressSpaceIdentityForCapability thread space k.capabilities addressSpaceRightAdmit =
        .ok identity ∧ epochs.resolve identity = .ok epoch ∧
      executables.regionFor identity = .ok region ∧ admitted.2 = region.base := by
  unfold admissionCheck at h
  by_cases hStack : stack = 0
  · simp [hStack, bind, Except.bind] at h
  rw [if_neg hStack] at h
  obtain ⟨identity, hId, h⟩ := bind_ok h
  obtain ⟨epoch, hResolve, h⟩ := bind_ok h
  dsimp only at h
  split at h
  · cases h
  split at h
  · cases h
  rename_i region hRegion
  split at h
  · cases h
  cases h
  exact ⟨identity, epoch, region, hId, hResolve, hRegion, rfl⟩

/-- What a successful admission passed on its way. -/
theorem threadAdmit_success
    (h : k.threadAdmit thread space stack root epochs translations executables =
      (done, .ok admission)) :
    ∃ epoch threadIdentifiers priority,
      k.admissionCheck thread space stack root epochs executables = .ok (epoch, admission.entry) ∧
      k.threads.effectivePriorityOf thread = .ok priority ∧
      { k with threadIdentifiers }.createAdmittedThread admission.thread priority =
        (done.1, .ok ()) := by
  unfold threadAdmit at h
  split at h
  · cases h
  rename_i epoch entry hCheck
  split at h
  · cases h
  rename_i threadIdentifiers issued _
  dsimp only at h
  split at h
  · cases h
  rename_i priority hPrio
  split at h
  · cases h
  rename_i hCreate
  split at h
  · cases h
  cases h
  exact ⟨epoch, threadIdentifiers, priority, hCheck, hPrio, hCreate⟩

theorem threadAdmit_ok (h : k.threadAdmit thread space stack root epochs translations executables =
      (done, .ok admission)) :
    ∃ identity epoch,
      addressSpaceIdentityForCapability thread space k.capabilities addressSpaceRightAdmit =
        .ok identity ∧ epochs.resolve identity = .ok epoch := by
  obtain ⟨_, _, _, hCheck, -, -⟩ := threadAdmit_success h
  obtain ⟨identity, epoch, _, hId, hResolve, -, -⟩ := admissionCheck_ok hCheck
  exact ⟨identity, epoch, hId, hResolve⟩

theorem addressSpaceBeginDestroy_ok {epochs' : AddressSpaceEpochAuthority}
    {retiring : RetiringAddressSpaceEpoch}
    (h : k.addressSpaceBeginDestroy thread space epochs = (epochs', .ok retiring)) :
    ∃ identity epoch,
      addressSpaceIdentityForCapability thread space k.capabilities addressSpaceRightDestroy =
        .ok identity ∧ epochs.resolve identity = .ok epoch ∧
      epochs.beginRetire epoch = (epochs', .ok retiring) := by
  unfold addressSpaceBeginDestroy at h
  split at h
  · cases h
  rename_i identity hId
  split at h
  · cases h
  rename_i epoch hResolve
  exact ⟨identity, epoch, hId, hResolve, h⟩

end Kernel

end Enml.OsKernel
