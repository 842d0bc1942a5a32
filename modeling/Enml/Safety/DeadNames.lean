import Enml.Invariant.Authority
import Enml.Lib.Generation
import Enml.Safety.RunQueue

/-! Names of address spaces, memory grants and endpoints over whole runs of the
system. All three are a slot and a generation, and a name that has been retired
opens nothing again, whatever its slot is used for later. -/
namespace Enml.OsKernel

open Enml.Core Kernel SystemOutcome List Run AddressSpaceEpochAuthority IpcEndpointTable
  MemoryGrantAuthority Generation.Advances

variable {identity : AddressSpaceIdentity} {grant : MemoryGrant}

namespace AddressSpaceEpochAuthority

variable {a a' : AddressSpaceEpochAuthority} {epoch : AddressSpaceEpoch}

def Slot.live (s : Slot) : Bool := s.state == .active

def Advances (a a' : AddressSpaceEpochAuthority) : Prop :=
  Generation.Advances (fun s : Slot => s.generation.toNat) Slot.live a.slots a'.slots

/-- The identity resolves. -/
def Named (a : AddressSpaceEpochAuthority) (identity : AddressSpaceIdentity) : Prop :=
  Generation.Named (fun s : Slot => s.generation.toNat) Slot.live a.slots identity.slot.toNat
    identity.generation.toNat

/-- The identity's lifetime has been ended. -/
def Past (a : AddressSpaceEpochAuthority) (identity : AddressSpaceIdentity) : Prop :=
  Generation.Past (fun s : Slot => s.generation.toNat) Slot.live a.slots identity.slot.toNat
    identity.generation.toNat

theorem named_of_resolve (h : a.resolve identity = .ok epoch) : a.Named identity := by
  unfold resolve at h
  split at h
  · rename_i slot hSlot
    split_ifs at h with hActive
    simp only [Bool.and_eq_true, beq_iff_eq] at hActive
    refine ⟨slot, hSlot, ?_, ?_⟩
    · exact congrArg UInt32.toNat hActive.2
    · rw [Slot.live, hActive.1.2]
      rfl
  · cases h

/-- An acquisition is refused, or takes a free slot to its next generation. -/
theorem acquire_cases (a : AddressSpaceEpochAuthority) :
    (∃ e, a.acquire = (a, .error e)) ∨
      ∃ i slot, a.slots[i]? = some slot ∧ slot.state = .free ∧ slot.generation ≠ 0xFFFFFFFF ∧
        a.acquire = ({ a with
            slots := a.slots.set i { generation := slot.generation + 1, state := .active }
            active_ := a.active_ + 1 },
          .ok { slot := UInt16.ofNat i, generation := slot.generation + 1,
                asid := asidForSlot i }) := by
  unfold acquire
  cases hFind : a.slots.zipIdx.find? fun entry => entry.1.state == .free with
  | none => exact .inl ⟨_, rfl⟩
  | some entry =>
    obtain ⟨slot, i⟩ := entry
    have hFree : slot.state = .free := by simpa using find?_some hFind
    have hCell : a.slots[i]? = some slot := by
      have hMem := mem_zipIdx_iff_getElem?.mp (mem_of_find?_eq_some hFind)
      simpa using hMem
    dsimp only
    split_ifs with hLast
    · exact .inl ⟨_, rfl⟩
    · exact .inr ⟨i, slot, hCell, hFree, hLast, rfl⟩

theorem beginRetire_cases (a : AddressSpaceEpochAuthority) (epoch : AddressSpaceEpoch) :
    (∃ e, a.beginRetire epoch = (a, .error e)) ∨
      ∃ slot, a.slots[epoch.slot.toNat]? = some slot ∧ epoch.valid = true ∧
        slot.generation = epoch.generation ∧ slot.state = .active ∧
        a.beginRetire epoch =
          ({ slots := a.slots.set epoch.slot.toNat { slot with state := .retiring }
             active_ := a.active_ - 1
             retiring_ := a.retiring_ + 1 }, .ok { epoch }) := by
  unfold beginRetire
  cases hSlot : a.slots[epoch.slot.toNat]? with
  | none => exact .inl ⟨_, rfl⟩
  | some slot =>
    dsimp only
    split_ifs with hStale hActive
    · exact .inl ⟨_, rfl⟩
    · exact .inl ⟨_, rfl⟩
    · simp only [Bool.or_eq_true, Bool.not_eq_true', bne_iff_ne, not_or, ne_eq, not_not,
        Bool.not_eq_false] at hStale
      exact .inr ⟨slot, rfl, hStale.1.1, hStale.1.2, not_not.mp hActive, rfl⟩

theorem completeRetire_cases (a : AddressSpaceEpochAuthority)
    (retiring : RetiringAddressSpaceEpoch) :
    (∃ e, a.completeRetire retiring = (a, .error e)) ∨
      a.retiring retiring = true ∧ a.completeRetire retiring = ({ a with
          slots := a.slots.modify retiring.epoch.slot.toNat fun slot => { slot with state := .free }
          retiring_ := a.retiring_ - 1 }, .ok ()) := by
  unfold completeRetire
  split_ifs with hRetiring
  · exact .inl ⟨_, rfl⟩
  · exact .inr ⟨by simpa using hRetiring, rfl⟩

theorem toNat_succ {g : UInt32} (h : g ≠ 0xFFFFFFFF) : g.toNat < (g + 1).toNat := by
  have hBound := g.toNat_lt
  have hLast : g.toNat ≠ 0xFFFFFFFF := fun hEq => h (UInt32.toNat_inj.mp hEq)
  rw [UInt32.toNat_add, UInt32.toNat_one]
  omega

theorem advances_acquire (a : AddressSpaceEpochAuthority) : a.Advances a.acquire.1 := by
  obtain ⟨e, hRefused⟩ | ⟨i, slot, hCell, -, hLast, hAcquire⟩ := a.acquire_cases
  · rw [hRefused]
    exact Generation.Advances.refl _
  · rw [hAcquire]
    exact set hCell (.inl (toNat_succ hLast))

theorem advances_beginRetire (a : AddressSpaceEpochAuthority) (epoch : AddressSpaceEpoch) :
    a.Advances (a.beginRetire epoch).1 := by
  obtain ⟨e, hRefused⟩ | ⟨slot, hCell, -, -, -, hBegin⟩ := a.beginRetire_cases epoch
  · rw [hRefused]
    exact Generation.Advances.refl _
  rw [hBegin]
  refine set hCell (.inr ⟨rfl, ?_⟩)
  intro hLive
  cases hLive

theorem advances_completeRetire (a : AddressSpaceEpochAuthority)
    (retiring : RetiringAddressSpaceEpoch) : a.Advances (a.completeRetire retiring).1 := by
  obtain ⟨e, hRefused⟩ | ⟨-, hComplete⟩ := a.completeRetire_cases retiring
  · rw [hRefused]
    exact Generation.Advances.refl _
  rw [hComplete]
  refine modify (f := fun slot : Slot => { slot with state := .free })
    (fun _ => rfl) ?_ _
  intro s hLive
  cases hLive

theorem identity_of_valid (h : epoch.valid = true) :
    epoch.identity = { slot := epoch.slot, generation := epoch.generation } := by
  rw [AddressSpaceEpoch.identity, if_pos h]

/-- A retirement that is begun ends the identity. -/
theorem past_beginRetire {retiring : RetiringAddressSpaceEpoch}
    (h : a.beginRetire epoch = (a', .ok retiring)) : a'.Past retiring.epoch.identity := by
  obtain ⟨e, hRefused⟩ | ⟨slot, hCell, hValid, hGen, -, hBegin⟩ := a.beginRetire_cases epoch
  · rw [hRefused] at h
    cases h
  rw [hBegin] at h
  cases h
  rw [identity_of_valid hValid]
  refine ⟨{ slot with state := .retiring },
    List.getElem?_set_self (List.getElem?_eq_some_iff.mp hCell).1, .inr ⟨?_, rfl⟩⟩
  exact congrArg UInt32.toNat hGen.symm

theorem length_acquire (a : AddressSpaceEpochAuthority) :
    a.acquire.1.slots.length = a.slots.length := by
  obtain ⟨e, hRefused⟩ | ⟨i, slot, -, -, -, hAcquire⟩ := a.acquire_cases
  · rw [hRefused]
  · rw [hAcquire, length_set]

theorem length_beginRetire (a : AddressSpaceEpochAuthority) (epoch : AddressSpaceEpoch) :
    (a.beginRetire epoch).1.slots.length = a.slots.length := by
  obtain ⟨e, hRefused⟩ | ⟨slot, -, -, -, -, hBegin⟩ := a.beginRetire_cases epoch
  · rw [hRefused]
  · rw [hBegin, length_set]

theorem length_completeRetire (a : AddressSpaceEpochAuthority)
    (retiring : RetiringAddressSpaceEpoch) :
    (a.completeRetire retiring).1.slots.length = a.slots.length := by
  obtain ⟨e, hRefused⟩ | ⟨-, hComplete⟩ := a.completeRetire_cases retiring
  · rw [hRefused]
  · rw [hComplete, length_modify]

theorem asidForSlot_inj {i j : ℕ} (hi : i < maxAddressSpaceEpochs) (hj : j < maxAddressSpaceEpochs)
    (h : asidForSlot i = asidForSlot j) : i = j := by
  have hMax : maxAddressSpaceEpochs = 63 := rfl
  have hNat := congrArg UInt16.toNat h
  simp only [asidForSlot, UInt16.toNat_ofNat'] at hNat
  omega

/-- What an acquisition gives is valid and is the slot it has just activated. -/
theorem acquire_ok (hLen : a.slots.length = maxAddressSpaceEpochs)
    (h : a.acquire = (a', .ok epoch)) :
    ∃ slot, a.slots[epoch.slot.toNat]? = some slot ∧ slot.state = .free ∧
      epoch.valid = true ∧ epoch.asid = asidForSlot epoch.slot.toNat ∧
      a'.slots = a.slots.set epoch.slot.toNat
        { generation := epoch.generation, state := .active } := by
  obtain ⟨e, hRefused⟩ | ⟨i, slot, hCell, hFree, hLast, hAcquire⟩ := a.acquire_cases
  · rw [hRefused] at h
    cases h
  have hMax : maxAddressSpaceEpochs = 63 := rfl
  have hi : i < maxAddressSpaceEpochs := by
    rw [← hLen]
    exact (List.getElem?_eq_some_iff.mp hCell).1
  have hSlot : (UInt16.ofNat i).toNat = i := by
    rw [UInt16.toNat_ofNat']
    omega
  rw [hAcquire] at h
  cases h
  rw [hSlot]
  refine ⟨slot, hCell, hFree, ?_, rfl, rfl⟩
  have hGen : slot.generation + 1 ≠ 0 := by
    intro hZero
    have hGrows := toNat_succ hLast
    rw [hZero] at hGrows
    simp at hGrows
  have hAsid : asidForSlot i ≠ kernelReservedAsid := by
    intro hZero
    have hNat := congrArg UInt16.toNat hZero
    simp only [asidForSlot, kernelReservedAsid, UInt16.toNat_ofNat', UInt16.toNat_zero] at hNat
    omega
  simp [AddressSpaceEpoch.valid, hSlot, hi, hGen, hAsid]

/-- Taking back what has just been acquired ends its identity. -/
theorem past_unwindEpoch (hLen : a.slots.length = maxAddressSpaceEpochs)
    (h : a.acquire = (a', .ok epoch)) :
    (unwindEpoch a' epoch).Past epoch.identity := by
  obtain ⟨slot, hCell, -, hValid, hAsid, hSlots⟩ := acquire_ok hLen h
  have hNew : a'.slots[epoch.slot.toNat]? =
      some { generation := epoch.generation, state := .active } := by
    rw [hSlots]
    exact List.getElem?_set_self (List.getElem?_eq_some_iff.mp hCell).1
  have hBegin : ∃ epochs, a'.beginRetire epoch = (epochs, .ok { epoch }) := by
    unfold beginRetire
    rw [hNew]
    simp [hValid, hAsid]
  obtain ⟨epochs, hBegin⟩ := hBegin
  rw [unwindEpoch, hBegin]
  exact (past_beginRetire hBegin).advances (epochs.advances_completeRetire _)

end AddressSpaceEpochAuthority

namespace MemoryGrantAuthority

variable {a a' : MemoryGrantAuthority} {identity : MemoryGrantIdentity}

def Advances (a a' : MemoryGrantAuthority) : Prop :=
  Generation.Advances (fun s : Slot => s.generation.toNat) Slot.occupied a.slots a'.slots

def Named (a : MemoryGrantAuthority) (identity : MemoryGrantIdentity) : Prop :=
  Generation.Named (fun s : Slot => s.generation.toNat) Slot.occupied a.slots identity.slot.toNat
    identity.generation.toNat

def Past (a : MemoryGrantAuthority) (identity : MemoryGrantIdentity) : Prop :=
  Generation.Past (fun s : Slot => s.generation.toNat) Slot.occupied a.slots identity.slot.toNat
    identity.generation.toNat

theorem slotFor_eq_some {slot : Slot} (h : a.slotFor identity = some slot) :
    a.slots[identity.slot.toNat]? = some slot ∧ slot.occupied = true ∧
      slot.generation = identity.generation := by
  unfold slotFor at h
  split_ifs at h
  split at h
  · cases h
  split_ifs at h with hStale
  cases h
  simp only [Bool.or_eq_true, Bool.not_eq_true', bne_iff_ne, not_or, ne_eq, not_not,
    Bool.not_eq_false] at hStale
  exact ⟨by assumption, hStale⟩

theorem named_of_resolve (h : a.resolve identity = .ok grant) : a.Named identity := by
  unfold resolve at h
  split at h
  · cases h
  · rename_i slot hSlot
    obtain ⟨hCell, hOcc, hGen⟩ := slotFor_eq_some hSlot
    exact ⟨slot, hCell, congrArg UInt32.toNat hGen, hOcc⟩

theorem advances_create (a : MemoryGrantAuthority) (physicalBase length : UInt64) :
    a.Advances (a.create physicalBase length).1 := by
  unfold create
  split_ifs
  · exact Generation.Advances.refl _
  · exact Generation.Advances.refl _
  cases hFind : a.slots.zipIdx.find? fun entry => !entry.1.occupied with
  | none => exact Generation.Advances.refl _
  | some entry =>
    obtain ⟨slot, i⟩ := entry
    have hCell : a.slots[i]? = some slot := by
      have hMem := mem_zipIdx_iff_getElem?.mp (mem_of_find?_eq_some hFind)
      simpa using hMem
    dsimp only
    split_ifs with hLast
    · exact Generation.Advances.refl _
    all_goals
      exact set hCell
        (.inl (toNat_succ hLast))

theorem advances_revoke (a : MemoryGrantAuthority) (identity : MemoryGrantIdentity) :
    a.Advances (a.revoke identity).1 := by
  unfold revoke
  split
  · exact Generation.Advances.refl _
  rename_i hSlot
  refine set (slotFor_eq_some hSlot).1 (.inr ⟨rfl, ?_⟩)
  intro hLive
  cases hLive

theorem past_revoke (h : a.revoke identity = (a', .ok ())) : a'.Past identity := by
  unfold revoke at h
  split at h
  · cases h
  rename_i hSlot
  obtain ⟨hCell, -, hGen⟩ := slotFor_eq_some hSlot
  cases h
  refine ⟨_, List.getElem?_set_self (List.getElem?_eq_some_iff.mp hCell).1, .inr ⟨?_, rfl⟩⟩
  exact congrArg UInt32.toNat hGen.symm

end MemoryGrantAuthority

namespace IpcEndpointTable

variable {t t' : IpcEndpointTable}

def Advances (t t' : IpcEndpointTable) : Prop :=
  Generation.Advances (fun s : EndpointSlot => s.generation.toNat) EndpointSlot.active
    t.endpoints t'.endpoints

def Named (t : IpcEndpointTable) (e : IpcEndpoint) : Prop :=
  Generation.Named (fun s : EndpointSlot => s.generation.toNat) EndpointSlot.active t.endpoints
    e.slot.toNat e.generation.toNat

def Past (t : IpcEndpointTable) (e : IpcEndpoint) : Prop :=
  Generation.Past (fun s : EndpointSlot => s.generation.toNat) EndpointSlot.active t.endpoints
    e.slot.toNat e.generation.toNat

variable {e : IpcEndpoint} {server : ThreadId} {r r' : Rendezvous}

theorem named_of_slotFor {slot : EndpointSlot} (h : t.slotFor e = some slot) : t.Named e := by
  obtain ⟨hCell, -, hActive, hGen⟩ := slotFor_eq_some.mp h
  exact ⟨slot, hCell, congrArg UInt32.toNat hGen, hActive⟩

theorem active_iff (hValid : e.valid = true) : t.active e = true ↔ t.Named e := by
  rw [active, Option.isSome_iff_exists]
  constructor
  · rintro ⟨slot, hSlot⟩
    exact named_of_slotFor hSlot
  · rintro ⟨slot, hCell, hGen, hActive⟩
    exact ⟨slot, slotFor_eq_some.mpr ⟨hCell, hValid, hActive, UInt32.toNat_inj.mp hGen⟩⟩

theorem valid_of_active (h : t.active e = true) : e.valid = true := by
  obtain ⟨slot, hSlot⟩ := Option.isSome_iff_exists.mp h
  exact (slotFor_eq_some.mp hSlot).2.1

/-- Whether a receive is waiting is no part of the name. -/
theorem advances_setWaiting (h : ∃ i waiting, t'.endpoints = t.endpoints.modify i fun s =>
    { s with receiveWaiting := waiting }) : t.Advances t' := by
  obtain ⟨i, waiting, hEps⟩ := h
  rw [Advances, hEps]
  exact modify
    (f := fun s : EndpointSlot => { s with receiveWaiting := waiting }) (fun _ => rfl)
    (fun _ => id) i

theorem advances_of_endpoints_eq (h : t'.endpoints = t.endpoints) : t.Advances t' := by
  rw [Advances, h]
  exact Generation.Advances.refl _

theorem advances_create (h : t.create server = (t', .ok e)) : t.Advances t' := by
  obtain ⟨-, i, slot, hCell, -, hLast, -, rfl⟩ := create_ok h
  exact set hCell (.inl (toNat_succ hLast))

theorem advances_retire (h : t.retire server e r = ((t', r'), .ok ())) : t.Advances t' := by
  obtain ⟨slot, r₁, -, -, -, -, rfl, -⟩ := retire_ok h
  rw [Advances, endpoints_closeEndpoint]
  refine modify (f := fun slot : EndpointSlot =>
    { slot with receiveWaiting := false, server := invalidThread, active := false })
    (fun _ => rfl) ?_ _
  intro s hLive
  cases hLive

theorem advances_releaseThread (t : IpcEndpointTable) (thread : ThreadId) (r : Rendezvous) :
    t.Advances (t.releaseThread thread r).1.1 := by
  apply releaseThread_induction _ (P := fun t' _ => t.Advances t') (Generation.Advances.refl _)
  · exact fun _ _ _ _ _ hBefore hRetire => hBefore.trans (advances_retire hRetire)
  · exact fun _ _ hBefore => hBefore.trans (advances_of_endpoints_eq rfl)

theorem advances_receiveFromEndpoint {space : AddressSpaceIdentity} {received : IpcReceived}
    (h : t.receiveFromEndpoint server space e r = ((t', r'), .ok received)) : t.Advances t' := by
  rcases (receiveFromEndpoint_tables h).2.2 with hEnds | hEnds
  · exact advances_of_endpoints_eq hEnds
  · exact advances_setWaiting ⟨e.slot.toNat, true, hEnds⟩

/-- A retirement that succeeds had an endpoint to retire and leaves none. -/
theorem ended_of_retire (h : t.retire server e r = ((t', r'), .ok ())) :
    t.active e = true ∧ t'.active e = false := by
  obtain ⟨slot, r₁, hSlot, -, -, -, rfl, -⟩ := retire_ok h
  refine ⟨by simp [active, hSlot], ?_⟩
  rw [active, slotFor_closeEndpoint, if_pos rfl]
  rfl

end IpcEndpointTable

theorem advances_coreStep {c c' : Core} {op : CoreOp} (h : CoreStep c op c') :
    c.ipc.Advances c'.ipc := by
  cases h with
  | destroy t => exact c.ipc.advances_releaseThread t c.threads
  | createEndpoint hCreate => exact advances_create hCreate
  | retireEndpoint hRetire => exact advances_retire hRetire
  | @sendTo _ _ e _ _ _ hSend =>
    obtain ⟨owner, pending, -, -, -, -, ht'⟩ := sendToEndpoint_ok hSend
    exact advances_setWaiting ⟨e.slot.toNat, false, by rw [ht']⟩
  | receiveFrom hRecv => exact advances_receiveFromEndpoint hRecv
  | replyTo hReply =>
    obtain ⟨owner, completed, -, -, -, -, -, -, -, -, -, rfl⟩ := reply_ok hReply
    exact Generation.Advances.refl _
  | _ => exact Generation.Advances.refl _

variable {k : Kernel} {capability : CapabilityId} {capabilities : CapabilityTable}
  {required : Rights} {slot : CapabilityTable.Slot} {s : System} {e : IpcEndpoint}
  {t : IpcEndpointTable} {r : Rendezvous} {replySeal : IpcReplySeal} {response : IpcEnvelope}

/-- No call takes a generation of an endpoint back. -/
theorem Kernel.advances_step (h : k.Structured) (env : Env) (op : Op) :
    k.ipc.Advances (k.step (env, op)).1.ipc := by
  refine core_induction (P := fun c => k.ipc.Advances c.ipc) h.same env op
    (Generation.Advances.refl _) ?_ ?_
  · intro op' _ c' hStep
    exact advances_coreStep hStep
  · intro c t hBefore
    exact hBefore.trans (c.ipc.advances_releaseThread t c.threads)

/-- Some call succeeds through a capability that names the address space. -/
inductive System.UsesSpace (s : System) (identity : AddressSpaceIdentity) : Prop
  | map {thread : ThreadId} {request : MapSyscall} {slot : CapabilityTable.Slot}
      {authorization : MapAuthorization}
      (hSlot : s.kernel.capabilities.find request.space = some slot)
      (hNames : addressSpaceIdentityOf slot.object = identity)
      (h : s.kernel.mapAuthorize thread request s.env.epochs s.env.grants s.env.executables =
        .ok authorization)
  | unmap {thread : ThreadId} {request : UnmapSyscall} {slot : CapabilityTable.Slot}
      {authorization : UnmapAuthorization}
      (hSlot : s.kernel.capabilities.find request.space = some slot)
      (hNames : addressSpaceIdentityOf slot.object = identity)
      (h : s.kernel.unmapAuthorize thread request s.env.epochs s.env.grants s.env.executables =
        .ok authorization)
  | admits {creator : ThreadId} {space : CapabilityId} {stack : UInt64}
      {root : SealedTranslationRoot} {slot : CapabilityTable.Slot}
      {done : Kernel × ProcessTranslationTable} {admission : ThreadAdmission}
      (hSlot : s.kernel.capabilities.find space = some slot)
      (hNames : addressSpaceIdentityOf slot.object = identity)
      (h : s.kernel.threadAdmit creator space stack root s.env.epochs s.env.translations
        s.env.executables = (done, .ok admission))
  | beginDestroy {owner : ThreadId} {space : CapabilityId} {slot : CapabilityTable.Slot}
      {epochs : AddressSpaceEpochAuthority} {retiring : RetiringAddressSpaceEpoch}
      (hSlot : s.kernel.capabilities.find space = some slot)
      (hNames : addressSpaceIdentityOf slot.object = identity)
      (h : s.kernel.addressSpaceBeginDestroy owner space s.env.epochs = (epochs, .ok retiring))

/-- Some call succeeds through a capability that names the memory grant. -/
inductive System.UsesGrant (s : System) (identity : MemoryGrantIdentity) : Prop
  | memory {holder : ThreadId} {capability : CapabilityId} {required : Rights}
      {slot : CapabilityTable.Slot} {grant : MemoryGrant}
      (hSlot : s.kernel.capabilities.find capability = some slot)
      (hNames : memoryGrantIdentityOf slot.object = identity)
      (h : s.kernel.memoryForCapability holder capability required s.env.grants = .ok grant)
  | map {thread : ThreadId} {request : MapSyscall} {slot : CapabilityTable.Slot}
      {authorization : MapAuthorization}
      (hSlot : s.kernel.capabilities.find request.backing = some slot)
      (hNames : memoryGrantIdentityOf slot.object = identity)
      (h : s.kernel.mapAuthorize thread request s.env.epochs s.env.grants s.env.executables =
        .ok authorization)
  | unmap {thread : ThreadId} {request : UnmapSyscall} {slot : CapabilityTable.Slot}
      {authorization : UnmapAuthorization}
      (hSlot : s.kernel.capabilities.find request.backing = some slot)
      (hNames : memoryGrantIdentityOf slot.object = identity)
      (h : s.kernel.unmapAuthorize thread request s.env.epochs s.env.grants s.env.executables =
        .ok authorization)

/-- Some call succeeds through a capability, or a reply seal, that names the
endpoint. -/
inductive System.UsesEndpoint (s : System) (e : IpcEndpoint) : Prop
  | send {caller : ThreadId} {capability : CapabilityId} {request : IpcEnvelope}
      {slot : CapabilityTable.Slot} {k : Kernel}
      (hSlot : s.kernel.capabilities.find capability = some slot)
      (hNames : decodeEndpointObject slot.object = .ok e)
      (h : s.kernel.ipcSend caller capability request = (k, .ok ()))
  | sendBound {caller : ExecutionAuthority} {capability : CapabilityId} {request : IpcEnvelope}
      {slot : CapabilityTable.Slot} {k : Kernel}
      (hSlot : s.kernel.capabilities.find capability = some slot)
      (hNames : decodeEndpointObject slot.object = .ok e)
      (h : s.kernel.ipcSendBound caller capability request = (k, .ok ()))
  | receive {server : ThreadId} {capability : CapabilityId} {received : IpcReceived}
      {slot : CapabilityTable.Slot} {k : Kernel}
      (hSlot : s.kernel.capabilities.find capability = some slot)
      (hNames : decodeEndpointObject slot.object = .ok e)
      (h : s.kernel.ipcReceive server capability = (k, .ok received))
  | receiveBound {server : ExecutionAuthority} {capability : CapabilityId}
      {received : IpcReceived} {slot : CapabilityTable.Slot} {k : Kernel}
      (hSlot : s.kernel.capabilities.find capability = some slot)
      (hNames : decodeEndpointObject slot.object = .ok e)
      (h : s.kernel.ipcReceiveBound server capability = (k, .ok received))
  | reply {server : ThreadId} {replySeal : IpcReplySeal} {response : IpcEnvelope} {k : Kernel}
      (hNames : replySeal.endpoint = e)
      (h : s.kernel.ipcReply server replySeal response = (k, .ok ()))
  | replyBound {server : ExecutionAuthority} {replySeal : IpcReplySeal} {response : IpcEnvelope}
      {k : Kernel} (hNames : replySeal.endpoint = e)
      (h : s.kernel.ipcReplyBound server replySeal response = (k, .ok ()))
  | replyTransaction {server : ThreadId} {transaction : IpcTransactionId}
      {response : IpcEnvelope} {slot : IpcEndpointTable.ReplySlot} {k : Kernel}
      (hSlot : s.kernel.ipc.replySlotOf server transaction = some slot)
      (hNames : slot.replySeal.endpoint = e)
      (h : s.kernel.ipcReplyTransaction server transaction response = (k, .ok ()))
  | replyTransactionBound {server : ExecutionAuthority} {transaction : IpcTransactionId}
      {response : IpcEnvelope} {slot : IpcEndpointTable.ReplySlot} {k : Kernel}
      (hSlot : s.kernel.ipc.replySlotOf server.thread transaction = some slot)
      (hNames : slot.replySeal.endpoint = e)
      (h : s.kernel.ipcReplyTransactionBound server transaction response = (k, .ok ()))

/-- The identity found through a capability is the one its object names. -/
theorem identity_eq_of_find {thread : ThreadId}
    (h : addressSpaceIdentityForCapability thread capability capabilities required = .ok identity)
    (hSlot : capabilities.find capability = some slot) :
    addressSpaceIdentityOf slot.object = identity := by
  obtain ⟨slot', hHeld, hNames⟩ := addressSpaceIdentity_ok h
  rw [hHeld.1] at hSlot
  cases hSlot
  exact hNames.identity_eq

theorem System.UsesSpace.named (h : s.UsesSpace identity) : s.env.epochs.Named identity := by
  cases h with
  | map hSlot hNames h | unmap hSlot hNames h =>
    obtain ⟨found, epoch, backing, hId, hResolve, -⟩ := authorize_ok h
    rw [← hNames, identity_eq_of_find hId hSlot]
    exact named_of_resolve hResolve
  | admits hSlot hNames h =>
    obtain ⟨found, epoch, hId, hResolve⟩ := threadAdmit_ok h
    rw [← hNames, identity_eq_of_find hId hSlot]
    exact named_of_resolve hResolve
  | beginDestroy hSlot hNames h =>
    obtain ⟨found, epoch, hId, hResolve, -⟩ := addressSpaceBeginDestroy_ok h
    rw [← hNames, identity_eq_of_find hId hSlot]
    exact named_of_resolve hResolve

theorem named_of_memoryForCapability {holder : ThreadId}
    (h : s.kernel.memoryForCapability holder capability required s.env.grants = .ok grant)
    (hSlot : s.kernel.capabilities.find capability = some slot) :
    s.env.grants.Named (memoryGrantIdentityOf slot.object) := by
  obtain ⟨slot', hHeld, -, hResolve⟩ := memoryForCapability_ok h
  rw [hHeld.1] at hSlot
  cases hSlot
  exact named_of_resolve hResolve

theorem System.UsesGrant.named {identity : MemoryGrantIdentity} (h : s.UsesGrant identity) :
    s.env.grants.Named identity := by
  cases h with
  | memory hSlot hNames h =>
    rw [← hNames]
    exact named_of_memoryForCapability h hSlot
  | map hSlot hNames h | unmap hSlot hNames h =>
    obtain ⟨found, epoch, backing, -, -, hMemory⟩ := authorize_ok h
    rw [← hNames]
    exact named_of_memoryForCapability hMemory hSlot

/-- The endpoint a capability check finds is live and named by the object. -/
theorem named_of_heldObject {ipc : IpcEndpointTable} {slot' : CapabilityTable.Slot}
    {e' : IpcEndpoint} (hFind : capabilities.find capability = some slot')
    (hSlot : capabilities.find capability = some slot)
    (hDecode : decodeEndpointObject slot'.object = .ok e')
    (hNames : decodeEndpointObject slot.object = .ok e) (hActive : ipc.active e' = true) :
    ipc.Named e := by
  rw [hFind] at hSlot
  cases hSlot
  rw [hDecode] at hNames
  cases hNames
  exact (active_iff (valid_of_active hActive)).mp hActive

theorem ok_of_commitIpc {α : Type} {k' : Kernel} {value : α}
    {done : (IpcEndpointTable × Rendezvous) × Result α} {after : Kernel → α → Kernel}
    (h : k.commitIpc done after = (k', .ok value)) : done.2 = .ok value := by
  obtain ⟨⟨ipc, threads⟩, result⟩ := done
  cases result with
  | error => cases h
  | ok =>
    cases h
    rfl

theorem named_of_reply {server : ThreadId} (h : (t.reply server replySeal r response).2 = .ok ()) :
    t.Named replySeal.endpoint := by
  obtain ⟨owner, completed, hOwner, -⟩ := reply_ok (Prod.ext rfl h)
  exact named_of_slotFor hOwner

theorem named_of_replyBound {server : ExecutionAuthority}
    (h : (t.replyBound server replySeal r response).2 = .ok ()) : t.Named replySeal.endpoint := by
  unfold IpcEndpointTable.replyBound at h
  split at h
  · cases h
  split at h
  · cases h
  exact named_of_reply h

theorem System.UsesEndpoint.named (h : s.UsesEndpoint e) : s.kernel.ipc.Named e := by
  cases h with
  | send hSlot hNames h | receive hSlot hNames h =>
    first
    | have hOk := ipcSend_endpoint h
    | have hOk := ipcReceive_endpoint h
    obtain ⟨found, hFound⟩ := hOk
    obtain ⟨slot', hHeld, hDecode, hActive⟩ := endpointForCapability_ok hFound
    exact named_of_heldObject hHeld.1 hSlot hDecode hNames hActive
  | sendBound hSlot hNames h | receiveBound hSlot hNames h =>
    first
    | have hOk := ipcSendBound_endpoint h
    | have hOk := ipcReceiveBound_endpoint h
    obtain ⟨found, hFound⟩ := hOk
    obtain ⟨slot', hHeld, hDecode, hActive⟩ := endpointForBoundCapability_ok hFound
    exact named_of_heldObject hHeld.1 hSlot hDecode hNames hActive
  | reply hNames h =>
    rw [← hNames]
    exact named_of_reply (ok_of_commitIpc h)
  | replyBound hNames h =>
    rw [← hNames]
    exact named_of_replyBound (ok_of_commitIpc h)
  | replyTransaction hSlot hNames h | replyTransactionBound hSlot hNames h =>
    rw [← hNames]
    have hDone := ok_of_commitIpc h
    first
    | rw [IpcEndpointTable.replyTransaction, hSlot] at hDone
      exact named_of_reply hDone
    | rw [IpcEndpointTable.replyTransactionBound, hSlot] at hDone
      exact named_of_replyBound hDone

namespace System

/-- What the operations on the epochs keep, a step keeps. -/
theorem epochs_induction {P : AddressSpaceEpochAuthority → Prop}
    (hAcquire : ∀ a, P a → P a.acquire.1) (hBegin : ∀ a epoch, P a → P (a.beginRetire epoch).1)
    (hComplete : ∀ a retiring, P a → P (a.completeRetire retiring).1) (s : System)
    (h : P s.env.epochs) (op : SystemOp) : P (s.step op).1.env.epochs := by
  cases op with
  | kernel op =>
    cases op with
    | addressSpaceCreate creator authority =>
      show P (s.kernel.addressSpaceCreate creator authority s.env.epochs).1.2
      have hAcquired := hAcquire s.env.epochs h
      unfold addressSpaceCreate
      split
      · exact h
      split
      · rename_i hDone
        rwa [hDone] at hAcquired
      rename_i epochs epoch hDone
      rw [hDone] at hAcquired
      split
      · have hBegun := hBegin epochs epoch hAcquired
        dsimp only
        unfold unwindEpoch
        split
        · rename_i hDone
          rwa [hDone] at hBegun
        · rename_i hDone
          rw [hDone] at hBegun
          exact hComplete _ _ hBegun
      · exact hAcquired
    | addressSpaceBeginDestroy owner space =>
      show P (s.kernel.addressSpaceBeginDestroy owner space s.env.epochs).1
      unfold addressSpaceBeginDestroy
      split
      · exact h
      split
      · exact h
      · exact hBegin _ _ h
    | addressSpaceCompleteDestroy owner space retiring =>
      show P (s.kernel.addressSpaceCompleteDestroy owner space retiring s.env.epochs).1.2
      have hCompleted := hComplete s.env.epochs retiring h
      unfold addressSpaceCompleteDestroy
      split
      · exact h
      split
      · exact h
      split
      · rename_i hDone
        rwa [hDone] at hCompleted
      · rename_i hDone
        rw [hDone] at hCompleted
        split <;> exact hCompleted
    | _ => exact h
  | acquireEpoch => exact hAcquire _ h
  | beginRetire epoch => exact hBegin _ epoch h
  | completeRetire retiring => exact hComplete _ retiring h
  | createGrant | revokeGrant => exact h

theorem epochs_advance (s : System) (op : SystemOp) :
    s.env.epochs.Advances (s.step op).1.env.epochs := by
  refine epochs_induction ?_ ?_ ?_ s (Generation.Advances.refl _) op
  · exact fun a h => h.trans a.advances_acquire
  · exact fun a epoch h => h.trans (a.advances_beginRetire epoch)
  · exact fun a retiring h => h.trans (a.advances_completeRetire retiring)

theorem grants_advance (s : System) (op : SystemOp) :
    s.env.grants.Advances (s.step op).1.env.grants := by
  cases op with
  | kernel op => cases op <;> exact Generation.Advances.refl _
  | createGrant physicalBase length => exact s.env.grants.advances_create physicalBase length
  | revokeGrant identity => exact s.env.grants.advances_revoke identity
  | acquireEpoch | beginRetire | completeRetire => exact Generation.Advances.refl _

theorem structured_step {s : System} (h : s.kernel.Structured) (op : SystemOp) :
    (s.step op).1.kernel.Structured := by
  cases op with
  | kernel op => exact h.step (s.env, op)
  | _ => exact h

theorem endpoints_advance {s : System} (h : s.kernel.Structured) (op : SystemOp) :
    s.kernel.ipc.Advances (s.step op).1.kernel.ipc := by
  cases op with
  | kernel op => exact advances_step h s.env op
  | _ => exact Generation.Advances.refl _

/-- The step begins the retirement of the address space: directly, through its
capability, or by taking back a space whose capability could not be minted. -/
inductive BeginsRetiring (s : System) : SystemOp → AddressSpaceIdentity → Prop
  | direct {epoch : AddressSpaceEpoch} {retiring : RetiringAddressSpaceEpoch}
      (h : (s.step (.beginRetire epoch)).2 = .retiring (.ok retiring)) :
      BeginsRetiring s (.beginRetire epoch) retiring.epoch.identity
  | destroy {owner : ThreadId} {space : CapabilityId} {retiring : RetiringAddressSpaceEpoch}
      (h : (s.step (.kernel (.addressSpaceBeginDestroy owner space))).2 =
        .kernel (.retiring (.ok retiring))) :
      BeginsRetiring s (.kernel (.addressSpaceBeginDestroy owner space)) retiring.epoch.identity
  | unwind {creator : ThreadId} {authority : CapabilityId} {epochs : AddressSpaceEpochAuthority}
      {epoch : AddressSpaceEpoch} {e : Error}
      (hHeld : addressSpaceCapability creator authority s.kernel.capabilities
        addressSpaceRightCreate addressSpaceAuthorityObject = .ok ())
      (hAcquire : s.env.epochs.acquire = (epochs, .ok epoch))
      (h : (s.step (.kernel (.addressSpaceCreate creator authority))).2 =
        .kernel (.created (.error e))) :
      BeginsRetiring s (.kernel (.addressSpaceCreate creator authority)) epoch.identity

def RevokesGrant (s : System) (op : SystemOp) (identity : MemoryGrantIdentity) : Prop :=
  op = .revokeGrant identity ∧ (s.step op).2 = .unit (.ok ())

/-- The step retires the endpoint: by the call for it, or with its owner. -/
def RetiresEndpoint (s : System) (op : SystemOp) (e : IpcEndpoint) : Prop :=
  (∃ server, op = .kernel (.retireIpcEndpoint server e) ∧
    (s.step op).2 = .kernel (.unit (.ok ()))) ∨
    s.kernel.ipc.active e = true ∧ (s.step op).1.kernel.ipc.active e = false

/-- The step hands the ASID out with a new address space. -/
def HandsOutAsid (s : System) (op : SystemOp) (asid : AddressSpaceAsid) : Prop :=
  (∃ epoch, (s.step op).2 = .epoch (.ok epoch) ∧ epoch.asid = asid) ∨
    ∃ created, (s.step op).2 = .kernel (.created (.ok created)) ∧ created.epoch.asid = asid

end System

open Enml.OsKernel.System

namespace System

/-- What every state of a run has. -/
structure Regular (s : System) : Prop where
  structured : s.kernel.Structured
  length : s.env.epochs.slots.length = maxAddressSpaceEpochs

theorem regular_empty : Regular {} := ⟨structured_empty, rfl⟩

theorem length_step (s : System) (op : SystemOp) :
    (s.step op).1.env.epochs.slots.length = s.env.epochs.slots.length := by
  refine epochs_induction (P := fun a => a.slots.length = _) ?_ ?_ ?_ s rfl op
  · exact fun a h => a.length_acquire.trans h
  · exact fun a epoch h => (a.length_beginRetire epoch).trans h
  · exact fun a retiring h => (a.length_completeRetire retiring).trans h

variable {op : SystemOp}

theorem Regular.step (h : s.Regular) (op : SystemOp) : (s.step op).1.Regular :=
  ⟨structured_step h.structured op, (s.length_step op).trans h.length⟩

theorem past_of_beginsRetiring (hRegular : s.Regular) (h : s.BeginsRetiring op identity) :
    (s.step op).1.env.epochs.Past identity := by
  cases h with
  | @direct epoch retiring h =>
    have hOk : (s.env.epochs.beginRetire epoch).2 = .ok retiring := SystemOutcome.retiring.inj h
    exact past_beginRetire (Prod.ext rfl hOk)
  | @destroy owner space retiring h =>
    have hOk : (s.kernel.addressSpaceBeginDestroy owner space s.env.epochs).2 = .ok retiring :=
      Outcome.retiring.inj (kernel.inj h)
    have hDone : s.kernel.addressSpaceBeginDestroy owner space s.env.epochs = (_, .ok retiring) :=
      Prod.ext rfl hOk
    obtain ⟨found, epoch, -, -, hBegin⟩ := addressSpaceBeginDestroy_ok hDone
    exact past_beginRetire hBegin
  | @unwind creator authority epochs epoch e hHeld hAcquire h =>
    have hFailed : (s.kernel.addressSpaceCreate creator authority s.env.epochs).2 = .error e :=
      Outcome.created.inj (kernel.inj h)
    show (s.kernel.addressSpaceCreate creator authority s.env.epochs).1.2.Past epoch.identity
    unfold addressSpaceCreate at hFailed ⊢
    rw [hHeld, hAcquire] at hFailed ⊢
    dsimp only at hFailed ⊢
    split at hFailed
    · exact past_unwindEpoch hRegular.length hAcquire
    · cases hFailed

theorem past_of_revokesGrant {identity : MemoryGrantIdentity} (h : s.RevokesGrant op identity) :
    (s.step op).1.env.grants.Past identity := by
  obtain ⟨rfl, hDone⟩ := h
  have hOk : (s.env.grants.revoke identity).2 = .ok () := unit.inj hDone
  exact past_revoke (Prod.ext rfl hOk)

theorem ended_of_retiresEndpoint {e : IpcEndpoint} (h : s.RetiresEndpoint op e) :
    s.kernel.ipc.active e = true ∧ (s.step op).1.kernel.ipc.active e = false := by
  obtain ⟨server, rfl, hDone⟩ | hEnded := h
  · have hOk : (s.kernel.retireIpcEndpoint server e).2 = .ok () :=
      Outcome.unit.inj (kernel.inj hDone)
    show _ ∧ (s.kernel.retireIpcEndpoint server e).1.ipc.active e = false
    have hCore : (s.kernel.retireIpcEndpoint server e).1.core =
        CoreOp.apply s.kernel.core (.retireEndpoint server e) := by
      unfold retireIpcEndpoint
      rcases hRetire : s.kernel.ipc.retire server e s.kernel.threads with ⟨⟨ipc, threads⟩, _ | _⟩
      · simp [core, CoreOp.apply, Core.commit, hRetire]
      · rw [core_synchronise]
        simp [core, CoreOp.apply, Core.commit, hRetire]
    unfold retireIpcEndpoint at hOk
    split at hOk
    · cases hOk
    rename_i ipc threads hRetire
    have hIpc : (s.kernel.retireIpcEndpoint server e).1.ipc = ipc := by
      have hField := congrArg Core.ipc hCore
      simpa [core, CoreOp.apply, Core.commit, hRetire] using hField
    rw [hIpc]
    exact ended_of_retire hRetire
  · exact hEnded

theorem past_of_retiresEndpoint (hRegular : s.Regular) {e : IpcEndpoint}
    (h : s.RetiresEndpoint op e) : (s.step op).1.kernel.ipc.Past e := by
  obtain ⟨hBefore, hAfter⟩ := ended_of_retiresEndpoint h
  have hValid := valid_of_active hBefore
  refine Generation.past_of_ended ((active_iff hValid).mp hBefore)
    (endpoints_advance hRegular.structured op) ?_
  intro hNamed
  rw [(active_iff hValid).mpr hNamed] at hAfter
  cases hAfter

/-- An ASID comes with a slot that was free. -/
theorem asid_unused (hRegular : s.Regular) {asid : AddressSpaceAsid}
    (h : s.HandsOutAsid op asid) {j : ℕ} {slot : AddressSpaceEpochAuthority.Slot}
    (hSlot : s.env.epochs.slots[j]? = some slot) (hUsed : slot.state ≠ .free) :
    asidForSlot j ≠ asid := by
  have hFresh : ∀ {epochs : AddressSpaceEpochAuthority} {epoch : AddressSpaceEpoch},
      s.env.epochs.acquire = (epochs, .ok epoch) → asidForSlot j ≠ epoch.asid := by
    intro epochs epoch hAcquire hSame
    obtain ⟨slot', hCell, hFree, -, hAsid, -⟩ := acquire_ok hRegular.length hAcquire
    have hi := (List.getElem?_eq_some_iff.mp hCell).1
    have hj := (List.getElem?_eq_some_iff.mp hSlot).1
    rw [hRegular.length] at hi hj
    rw [hAsid] at hSame
    obtain rfl := asidForSlot_inj hj hi hSame
    rw [hCell] at hSlot
    cases hSlot
    exact hUsed hFree
  obtain ⟨epoch, hDone, rfl⟩ | ⟨created, hDone, rfl⟩ := h
  · cases op with
    | acquireEpoch =>
      have hOk : s.env.epochs.acquire.2 = .ok epoch := SystemOutcome.epoch.inj hDone
      have hAcquire : s.env.epochs.acquire = (_, .ok epoch) := Prod.ext rfl hOk
      exact hFresh hAcquire
    | _ => cases hDone
  · cases op with
    | kernel op =>
      cases op with
      | addressSpaceCreate creator authority =>
        have hOk : (s.kernel.addressSpaceCreate creator authority s.env.epochs).2 =
            .ok created := Outcome.created.inj (kernel.inj hDone)
        unfold addressSpaceCreate at hOk
        split at hOk
        · cases hOk
        split at hOk
        · cases hOk
        rename_i hAcquire
        split at hOk
        · cases hOk
        · cases hOk
          exact hFresh hAcquire
      | _ => cases hDone
    | _ => cases hDone

end System

/-- The tables that come with a call: the regions that may run, and the roots the
threads run on. -/
structure CallTables where
  executables : ExecutableRegionTable
  translations : ProcessTranslationTable

namespace System

def given (s : System) (tables : CallTables) : System :=
  { s with env :=
    { s.env with executables := tables.executables, translations := tables.translations } }

def stepGiven (s : System) (call : CallTables × SystemOp) : System × SystemOutcome :=
  (s.given call.1).step call.2

theorem epochs_stepGiven (s : System) (call : CallTables × SystemOp) :
    s.env.epochs.Advances (s.stepGiven call).1.env.epochs :=
  (s.given call.1).epochs_advance call.2

theorem grants_stepGiven (s : System) (call : CallTables × SystemOp) :
    s.env.grants.Advances (s.stepGiven call).1.env.grants :=
  (s.given call.1).grants_advance call.2

theorem endpoints_stepGiven (h : s.Regular) (call : CallTables × SystemOp) :
    s.kernel.ipc.Advances (s.stepGiven call).1.kernel.ipc :=
  endpoints_advance (s := s.given call.1) h.structured call.2

theorem Regular.given (h : s.Regular) (tables : CallTables) : (s.given tables).Regular :=
  ⟨h.structured, h.length⟩

theorem Regular.stepGiven (h : s.Regular) (call : CallTables × SystemOp) :
    (s.stepGiven call).1.Regular :=
  (h.given call.1).step call.2

end System

/-- Whatever is run after a retirement or a revocation, and with whatever tables,
no capability and no reply seal with the old name opens anything; and no ASID is
handed out while a slot in use owns it. -/
theorem dead_names_stay_dead (calls : List (CallTables × SystemOp)) :
    (∀ n tables op, calls[n]? = some (tables, op) → ∀ m, n < m → ∀ later : CallTables, (∀ identity,
        ((after stepGiven {} (calls.take n)).given tables).BeginsRetiring op identity →
        ¬((after stepGiven {} (calls.take m)).given later).UsesSpace identity) ∧
      (∀ identity, ((after stepGiven {} (calls.take n)).given tables).RevokesGrant op identity →
        ¬((after stepGiven {} (calls.take m)).given later).UsesGrant identity) ∧
      (∀ e, ((after stepGiven {} (calls.take n)).given tables).RetiresEndpoint op e →
        ¬((after stepGiven {} (calls.take m)).given later).UsesEndpoint e)) ∧
    ∀ n tables op, calls[n]? = some (tables, op) → ∀ asid,
      ((after stepGiven {} (calls.take n)).given tables).HandsOutAsid op asid →
        ∀ j slot, (after stepGiven {} (calls.take n)).env.epochs.slots[j]? = some slot →
          slot.state ≠ .free → asidForSlot j ≠ asid := by
  have hRegular : Run.Always stepGiven System.Regular {} calls :=
    always_of_invariant regular_empty fun _ call h => h.stepGiven call
  refine ⟨?_, ?_⟩
  · intro n tables op hOp m hnm later
    refine ⟨?_, ?_, ?_⟩
    · intro identity hBegins hUses
      have hPast := past_of_beginsRetiring ((hRegular n).given tables) hBegins
      have hAfter : (after stepGiven {} (calls.take (n + 1))).env.epochs.Past identity := by
        rwa [after_take_succ hOp]
      have hLater := stable (P := fun s : System => s.env.epochs.Past identity)
        (fun s call h => h.advances (s.epochs_stepGiven call)) hnm hAfter
      exact hLater.not_named hUses.named
    · intro identity hRevokes hUses
      have hPast := past_of_revokesGrant hRevokes
      have hAfter : (after stepGiven {} (calls.take (n + 1))).env.grants.Past identity := by
        rwa [after_take_succ hOp]
      have hLater := stable (P := fun s : System => s.env.grants.Past identity)
        (fun s call h => h.advances (s.grants_stepGiven call)) hnm hAfter
      exact hLater.not_named hUses.named
    · intro e hRetires hUses
      have hPast := past_of_retiresEndpoint ((hRegular n).given tables) hRetires
      have hAfter : (after stepGiven {} (calls.take (n + 1))).kernel.ipc.Past e := by
        rwa [after_take_succ hOp]
      have hLater := stable (P := fun s : System => s.Regular ∧ s.kernel.ipc.Past e)
        (fun s call h => ⟨h.1.stepGiven call, h.2.advances (endpoints_stepGiven h.1 call)⟩)
        hnm ⟨hRegular (n + 1), hAfter⟩
      exact hLater.2.not_named hUses.named
  · intro n tables op _ asid hHands j slot hSlot hUsed
    exact asid_unused ((hRegular n).given tables) hHands hSlot hUsed

end Enml.OsKernel
