import Enml.Invariant.Authority
import Enml.Invariant.Side
import Enml.Safety.CapabilityForest

/-! Capabilities bound to an incarnation of a thread. Two families of calls
work on one table, those that name a thread by number and those that also name
its address space, and neither can exercise what belongs to the other. -/
namespace Enml.OsKernel

open CapabilityTable Run List

variable {thread : ThreadId} {n : ℕ}

/-- `thread`, known by its number alone, gets something done with the
capability. Revoking a child exercises the parent it was granted from. -/
inductive ExercisedByThread (k : Kernel) (thread : ThreadId) (capability : CapabilityId) : Prop
  | holds (h : k.capabilities.holds thread capability = true)
  | grant {recipient : ThreadId} {rights : Rights} {transferable : Bool} {t : CapabilityTable}
      {id : CapabilityId}
      (h : k.capabilities.grant thread capability recipient rights transferable = (t, .ok id))
  | revoke {t : CapabilityTable} {n : ℕ}
      (h : k.capabilities.revoke thread capability = (t, .ok n))
  | revokeChild {child parent : CapabilityTable.Slot} {t : CapabilityTable} {n : ℕ}
      (hMem : child ∈ k.capabilities.slots) (hLive : child.occupied = true)
      (hPar : parentOf k.capabilities.slots child = some parent) (hId : parent.id = capability)
      (h : k.capabilities.revoke thread child.id = (t, .ok n))
  | ipcSend {request : IpcEnvelope} {k' : Kernel}
      (h : k.ipcSend thread capability request = (k', .ok ()))
  | ipcReceive {received : IpcReceived} {k' : Kernel}
      (h : k.ipcReceive thread capability = (k', .ok received))
  | interruptAttach {k' : Kernel} (h : k.interruptAttach thread capability = (k', .ok ()))
  | interruptDetach {k' : Kernel} (h : k.interruptDetach thread capability = (k', .ok ()))
  | interruptComplete {k' : Kernel} {again : Bool}
      (h : k.interruptComplete thread capability = (k', .ok again))
  | memoryForCapability {required : Rights} {grants : MemoryGrantAuthority} {grant : MemoryGrant}
      (h : k.memoryForCapability thread capability required grants = .ok grant)
  | mapAuthorize {request : MapSyscall} {epochs : AddressSpaceEpochAuthority}
      {grants : MemoryGrantAuthority} {executables : ExecutableRegionTable}
      {authorization : MapAuthorization}
      (hNamed : request.space = capability ∨ request.backing = capability)
      (h : k.mapAuthorize thread request epochs grants executables = .ok authorization)
  | unmapAuthorize {request : UnmapSyscall} {epochs : AddressSpaceEpochAuthority}
      {grants : MemoryGrantAuthority} {executables : ExecutableRegionTable}
      {authorization : UnmapAuthorization}
      (hNamed : request.space = capability ∨ request.backing = capability)
      (h : k.unmapAuthorize thread request epochs grants executables = .ok authorization)
  | threadAdmit {stack : UInt64} {root : SealedTranslationRoot}
      {epochs : AddressSpaceEpochAuthority} {translations : ProcessTranslationTable}
      {executables : ExecutableRegionTable} {done : Kernel × ProcessTranslationTable}
      {admission : ThreadAdmission}
      (h : k.threadAdmit thread capability stack root epochs translations executables =
        (done, .ok admission))
  | addressSpaceCreate {epochs : AddressSpaceEpochAuthority}
      {done : Kernel × AddressSpaceEpochAuthority} {created : AddressSpaceCreation}
      (h : k.addressSpaceCreate thread capability epochs = (done, .ok created))
  | addressSpaceBeginDestroy {epochs epochs' : AddressSpaceEpochAuthority}
      {retiring : RetiringAddressSpaceEpoch}
      (h : k.addressSpaceBeginDestroy thread capability epochs = (epochs', .ok retiring))
  | addressSpaceCompleteDestroy {retiring : RetiringAddressSpaceEpoch}
      {epochs : AddressSpaceEpochAuthority} {done : Kernel × AddressSpaceEpochAuthority}
      (h : k.addressSpaceCompleteDestroy thread capability retiring epochs = (done, .ok ()))

/-- The incarnation gets something done with the capability. A revocation
exercises the target when the revoker does not hold its parent, and the parent
when the revoker does not hold the target. -/
inductive ExercisedByAuthority (k : Kernel) (authority : ExecutionAuthority)
    (capability : CapabilityId) : Prop
  | holds (h : k.capabilities.holdsBound authority capability = true)
  | grant {recipient : ExecutionAuthority} {rights : Rights} {transferable : Bool}
      {t : CapabilityTable} {id : CapabilityId}
      (h : k.capabilities.grantBound authority capability recipient rights transferable =
        (t, .ok id))
  | revoke {t : CapabilityTable} {n : ℕ}
      (hAlone : ∀ target ∈ k.capabilities.slots, target.occupied = true →
        target.id = capability → ∀ parent, parentOf k.capabilities.slots target = some parent →
          parent.heldBy authority = false)
      (h : k.capabilities.revokeBound authority capability = (t, .ok n))
  | revokeChild {child parent : CapabilityTable.Slot} {t : CapabilityTable} {n : ℕ}
      (hMem : child ∈ k.capabilities.slots) (hLive : child.occupied = true)
      (hAlone : child.heldBy authority = false)
      (hPar : parentOf k.capabilities.slots child = some parent) (hId : parent.id = capability)
      (h : k.capabilities.revokeBound authority child.id = (t, .ok n))
  | ipcSend {request : IpcEnvelope} {k' : Kernel}
      (h : k.ipcSendBound authority capability request = (k', .ok ()))
  | ipcReceive {received : IpcReceived} {k' : Kernel}
      (h : k.ipcReceiveBound authority capability = (k', .ok received))

namespace CapabilityTable

variable {t : CapabilityTable} {id : CapabilityId} {t' : CapabilityTable} {slot : Slot}

/-- Two live slots with one id are one slot. -/
theorem Forest.slot_eq (hForest : Forest t) {slot' : Slot} (hMem : slot ∈ t.slots)
    (hMem' : slot' ∈ t.slots) (hLive : slot.occupied = true) (hLive' : slot'.occupied = true)
    (hId : slot.id = slot'.id) : slot = slot' := by
  obtain ⟨i, hCell⟩ := mem_iff_getElem?.mp hMem
  obtain ⟨j, hCell'⟩ := mem_iff_getElem?.mp hMem'
  obtain rfl := hForest.distinct i j slot slot' hCell hCell' hLive hLive' hId
  rw [hCell] at hCell'
  exact Option.some.inj hCell'

/-- What a slot hands down to its children, all its descendants have. -/
theorem Forest.of_below (hForest : Forest t) {P : Slot → Prop}
    (hDown : ∀ child parent, Slot.DerivedFrom child parent → P parent → P child) {i j : ℕ}
    {target : Slot} (hTarget : t.slots[j]? = some target) (h : P target)
    (hBelow : i ∈ Spread.below (parentIndex t.slots) {j}) (hCell : t.slots[i]? = some slot) :
    P slot := by
  obtain ⟨_, rfl, hPath⟩ := hBelow
  induction hPath using Relation.ReflTransGen.head_induction_on generalizing slot with
  | refl =>
    rw [hTarget] at hCell
    cases hCell
    exact h
  | head hUp _ ih =>
    obtain ⟨child, parent, hChild, hLive, hPar, rfl⟩ := parentIndex_eq_some.mp hUp
    rw [hCell] at hChild
    cases hChild
    exact hDown _ _ (hForest.derivedFrom (mem_of_getElem? hCell) hLive hPar)
      (ih (parentOf_eq_some.mp hPar).2.1)

/-- A revocation that goes through is the holder's or the grantor's. -/
theorem Forest.revokeWith_ok (hForest : Forest t) {held : Slot → Bool}
    (h : t.revokeWith held id = (t', .ok n)) :
    ∃ target ∈ t.slots, target.occupied = true ∧ target.id = id ∧
      (held target = true ∨ ∃ parent, parentOf t.slots target = some parent ∧
        held parent = true) := by
  obtain ⟨e, hRefused⟩ | ⟨i, target, n, hCell, hLive, hId, hHeld, -⟩ :=
    hForest.revokeWith_cases held id
  · rw [hRefused] at h
    cases h
  · exact ⟨target, mem_of_getElem? hCell, hLive, hId, hHeld⟩

theorem Forest.revoke_ok (hForest : Forest t) (h : t.revoke thread id = (t', .ok n)) :
    ∃ target ∈ t.slots, target.occupied = true ∧ target.id = id ∧ target.contextBound = false := by
  unfold revoke at h
  split_ifs at h
  · cases h
  obtain ⟨target, hMem, hLive, hId, hHeld | ⟨parent, hPar, hHeld⟩⟩ := hForest.revokeWith_ok h
  · exact ⟨target, hMem, hLive, hId, (heldByThread_iff.mp hHeld).1⟩
  · refine ⟨target, hMem, hLive, hId, ?_⟩
    rw [(hForest.derivedFrom hMem hLive hPar).contextBound]
    exact (heldByThread_iff.mp hHeld).1

variable {authority : ExecutionAuthority}

theorem Forest.revokeBound_ok (hForest : Forest t) (h : t.revokeBound authority id = (t', .ok n)) :
    ∃ target ∈ t.slots, target.occupied = true ∧ target.id = id ∧ (target.heldBy authority = true ∨
        ∃ parent, parentOf t.slots target = some parent ∧ parent.heldBy authority = true) := by
  unfold revokeBound at h
  split_ifs at h
  · cases h
  exact hForest.revokeWith_ok h

/-- A capability held by number alone is a live slot that is not bound. -/
theorem HeldBy.unbound (h : t.HeldBy thread id slot) :
    ∃ slot ∈ t.slots, slot.occupied = true ∧ slot.id = id ∧ slot.contextBound = false := by
  obtain ⟨-, hMem, hLive, hId⟩ := find_eq_some h.1
  exact ⟨slot, hMem, hLive, hId, (heldByThread_iff.mp h.2).1⟩

theorem HeldByBound.held (h : t.HeldByBound authority id slot) :
    ∃ slot ∈ t.slots, slot.occupied = true ∧ slot.id = id ∧ slot.heldBy authority = true := by
  obtain ⟨-, hMem, hLive, hId⟩ := find_eq_some h.1
  exact ⟨slot, hMem, hLive, hId, h.2⟩

end CapabilityTable

variable {capability : CapabilityId}

/-- Whatever a thread does by its number, it does with an unbound capability. -/
theorem ExercisedByThread.unbound {k : Kernel}
    (hForest : k.capabilities.Forest) (h : ExercisedByThread k thread capability) :
    ∃ slot ∈ k.capabilities.slots, slot.occupied = true ∧ slot.id = capability ∧
      slot.contextBound = false := by
  cases h with
  | holds h =>
    obtain ⟨slot, hHeld⟩ := heldBy_of_holds h
    exact hHeld.unbound
  | grant h =>
    obtain ⟨slot, hHeld⟩ := grant_ok h
    exact hHeld.unbound
  | revoke h => exact hForest.revoke_ok h
  | revokeChild hMem hLive hPar hId h =>
    obtain ⟨target, hTarget, hTargetLive, hSame, hUnbound⟩ := hForest.revoke_ok h
    obtain rfl := hForest.slot_eq hTarget hMem hTargetLive hLive hSame
    obtain ⟨hParMem, hParLive⟩ := Forest.mem_of_parentOf hPar
    refine ⟨_, hParMem, hParLive, hId, ?_⟩
    rw [← (hForest.derivedFrom hMem hLive hPar).contextBound]
    exact hUnbound
  | ipcSend h =>
    obtain ⟨endpoint, hFound⟩ := Kernel.ipcSend_endpoint h
    obtain ⟨slot, hHeld, -⟩ := endpointForCapability_ok hFound
    exact hHeld.unbound
  | ipcReceive h =>
    obtain ⟨endpoint, hFound⟩ := Kernel.ipcReceive_endpoint h
    obtain ⟨slot, hHeld, -⟩ := endpointForCapability_ok hFound
    exact hHeld.unbound
  | interruptAttach h | interruptDetach h | interruptComplete h =>
    dsimp only [Kernel.interruptAttach, Kernel.interruptDetach, Kernel.interruptComplete] at h
    split at h
    · cases h
    · rename_i hSrc
      obtain ⟨slot, hHeld⟩ := interruptSource_ok hSrc
      exact hHeld.unbound
  | memoryForCapability h =>
    obtain ⟨slot, hHeld, -⟩ := Kernel.memoryForCapability_ok h
    exact hHeld.unbound
  | mapAuthorize hNamed h | unmapAuthorize hNamed h =>
    obtain ⟨identity, epoch, backing, hIdentity, -, hMemory⟩ := Kernel.authorize_ok h
    rcases hNamed with rfl | rfl
    · obtain ⟨slot, hHeld, -⟩ := addressSpaceIdentity_ok hIdentity
      exact hHeld.unbound
    · obtain ⟨slot, hHeld, -⟩ := Kernel.memoryForCapability_ok hMemory
      exact hHeld.unbound
  | threadAdmit h =>
    obtain ⟨identity, epoch, hIdentity, -⟩ := Kernel.threadAdmit_ok h
    obtain ⟨slot, hHeld, -⟩ := addressSpaceIdentity_ok hIdentity
    exact hHeld.unbound
  | addressSpaceCreate h =>
    unfold Kernel.addressSpaceCreate at h
    split at h
    · cases h
    · rename_i hAuthority
      obtain ⟨slot, hHeld, -⟩ := addressSpaceCapability_ok hAuthority
      exact hHeld.unbound
  | addressSpaceBeginDestroy h =>
    obtain ⟨identity, epoch, hIdentity, -⟩ := Kernel.addressSpaceBeginDestroy_ok h
    obtain ⟨slot, hHeld, -⟩ := addressSpaceIdentity_ok hIdentity
    exact hHeld.unbound
  | addressSpaceCompleteDestroy h =>
    unfold Kernel.addressSpaceCompleteDestroy at h
    split at h
    · cases h
    · rename_i hIdentity
      obtain ⟨slot, hHeld, -⟩ := addressSpaceIdentity_ok hIdentity
      exact hHeld.unbound

/-- Whatever an incarnation does, it does with a capability bound to it. -/
theorem ExercisedByAuthority.held {k : Kernel} {authority : ExecutionAuthority}
    (hForest : k.capabilities.Forest)
    (h : ExercisedByAuthority k authority capability) :
    ∃ slot ∈ k.capabilities.slots, slot.occupied = true ∧ slot.id = capability ∧
      slot.heldBy authority = true := by
  cases h with
  | holds h =>
    obtain ⟨slot, hHeld⟩ := heldByBound_of_holds h
    exact hHeld.held
  | grant h =>
    obtain ⟨slot, hHeld⟩ := grantBound_ok h
    exact hHeld.held
  | revoke hAlone h =>
    obtain ⟨target, hMem, hLive, hId, hHeld | ⟨parent, hPar, hHeld⟩⟩ := hForest.revokeBound_ok h
    · exact ⟨target, hMem, hLive, hId, hHeld⟩
    · rw [hAlone target hMem hLive hId parent hPar] at hHeld
      cases hHeld
  | revokeChild hMem hLive hAlone hPar hId h =>
    obtain ⟨target, hTarget, hTargetLive, hSame, hHeld⟩ := hForest.revokeBound_ok h
    obtain rfl := hForest.slot_eq hTarget hMem hTargetLive hLive hSame
    obtain ⟨hParMem, hParLive⟩ := Forest.mem_of_parentOf hPar
    rcases hHeld with hOwn | ⟨parent', hPar', hHeld⟩
    · rw [hAlone] at hOwn
      cases hOwn
    · rw [hPar] at hPar'
      cases hPar'
      exact ⟨_, hParMem, hParLive, hId, hHeld⟩
  | ipcSend h =>
    obtain ⟨endpoint, hFound⟩ := Kernel.ipcSendBound_endpoint h
    obtain ⟨slot, hHeld, -⟩ := endpointForBoundCapability_ok hFound
    exact hHeld.held
  | ipcReceive h =>
    obtain ⟨endpoint, hFound⟩ := Kernel.ipcReceiveBound_endpoint h
    obtain ⟨slot, hHeld, -⟩ := endpointForBoundCapability_ok hFound
    exact hHeld.held

/-- The call names no incarnation, only thread numbers. -/
def CapabilityOp.byThread : CapabilityOp → Bool
  | .mintBound .. | .grantBound .. | .revokeBound .. => false
  | _ => true

def Op.byThread : Op → Bool
  | .ipcSendBound .. | .ipcReceiveBound .. | .ipcReplyBound .. | .ipcReplyTransactionBound ..
  | .ipcTakeReplyBound .. => false
  | .capability op => op.byThread
  | _ => true

namespace CapabilityTable

/-- The live bound capabilities are the same, each in its place. -/
def BoundKept (t t' : CapabilityTable) : Prop :=
  ∀ (i : ℕ) (slot : Slot), slot.occupied = true → slot.contextBound = true →
    (t.slots[i]? = some slot ↔ t'.slots[i]? = some slot)

namespace BoundKept

variable {t t' t'' : CapabilityTable}

theorem refl (t : CapabilityTable) : BoundKept t t := fun _ _ _ _ => Iff.rfl

theorem trans (h : BoundKept t t') (h' : BoundKept t' t'') : BoundKept t t'' := by
  intro i slot hLive hBound
  exact (h i slot hLive hBound).trans (h' i slot hLive hBound)

/-- An unbound slot is put where no live slot stands. -/
theorem issue {slot : Slot} (hUnbound : slot.contextBound = false) :
    BoundKept t (t.issue slot).1 := by
  rcases hIssue : t.issue slot with ⟨t', e | id⟩
  · have hSame : t' = t := by
      unfold CapabilityTable.issue at hIssue
      split_ifs at hIssue
      · exact (congrArg Prod.fst hIssue).symm
      · split at hIssue
        · simp at hIssue
        · exact (congrArg Prod.fst hIssue).symm
    rw [hSame]
    exact refl t
  · obtain ⟨i, free, -, -, hFree, hDead, hSlots, -⟩ := issue_eq_ok hIssue
    intro j cell hLive hBound
    rw [hSlots]
    rcases eq_or_ne i j with rfl | hne
    · rw [hFree, List.getElem?_set_self (List.getElem?_eq_some_iff.mp hFree).1]
      constructor
      · intro h
        cases h
        rw [hDead] at hLive
        cases hLive
      intro h
      cases h
      rw [hUnbound] at hBound
      cases hBound
    · rw [List.getElem?_set_ne hne]

theorem revoke (hForest : Forest t) (thread : ThreadId) (id : CapabilityId) :
    BoundKept t (t.revoke thread id).1 := by
  unfold CapabilityTable.revoke
  split_ifs
  · exact refl t
  obtain ⟨e, hRefused⟩ | ⟨i, target, n, hCell, hLive, -, hHeld, -, hRevoked⟩ :=
    hForest.revokeWith_cases (fun slot => slot.heldByThread thread) id
  · rw [hRefused]
    exact refl t
  have hUnbound : target.contextBound = false := by
    rcases hHeld with hHeld | ⟨parent, hPar, hHeld⟩
    · exact (heldByThread_iff.mp hHeld).1
    · rw [(hForest.derivedFrom (mem_of_getElem? hCell) hLive hPar).contextBound]
      exact (heldByThread_iff.mp hHeld).1
  rw [hRevoked]
  intro j slot hSlotLive hBound
  constructor
  · intro hSlot
    have hLeft : j ∉ Spread.below (parentIndex t.slots) {i} := by
      intro hBelow
      have hFalse := hForest.of_below (P := fun slot => slot.contextBound = false)
        (fun child parent hDerived h => hDerived.contextBound.trans h) hCell hUnbound hBelow hSlot
      rw [hFalse] at hBound
      cases hBound
    rwa [getElem?_without_of_notMem t hLeft]
  · intro hSlot
    exact (getElem?_of_without hSlot hSlotLive).2

/-- A capability call that names no incarnation keeps the bound capabilities,
the teardown of a thread apart. -/
theorem step (hForest : Forest t) {op : CapabilityOp} (hThr : op.byThread = true)
    (hTeardown : ∀ holder, op ≠ .revokeAllHeldBy holder) : BoundKept t (t.step op).1 := by
  cases op with
  | mint holder object rights transferable =>
    show BoundKept t (t.mint holder object rights transferable).1
    unfold mint
    split_ifs
    · exact refl t
    · exact refl t
    · exact issue rfl
  | grant granter capability recipient rights transferable =>
    show BoundKept t (t.grant granter capability recipient rights transferable).1
    unfold grant
    split_ifs
    · exact refl t
    · exact refl t
    obtain ⟨e, hRefused⟩ | ⟨parent, -, -, -, -, -, hDerive⟩ :=
      Forest.derive_cases (t := t) capability (fun parent => parent.heldByThread granter)
        (fun child => { child with holder := recipient }) rights transferable
    · rw [hRefused]
      exact refl t
    · rw [hDerive]
      exact issue rfl
  | revoke revoker capability => exact revoke hForest revoker capability
  | revokeAllHeldBy holder => exact absurd rfl (hTeardown holder)
  | mintBound | grantBound | revokeBound => cases hThr

end BoundKept

end CapabilityTable

namespace Kernel

variable {k : Kernel}

theorem capabilities_untrack_synchronise (k : Kernel) (t : ThreadId) :
    (k.untrack t).synchronise.capabilities = k.capabilities := by
  have hSide : (k.untrack t).synchronise.side = k.side := by rw [side_synchronise, side_untrack]
  exact congrArg Side.capabilities hSide

theorem capabilities_destroyThread (k : Kernel) (t : ThreadId) :
    (k.destroyThread t).1.capabilities = k.capabilities ∨
      (k.destroyThread t).1.capabilities = (k.capabilities.revokeAllHeldBy t).1 := by
  unfold destroyThread
  dsimp only
  rcases (k.ipc.releaseThread t k.threads).1.2.exitThread t with ⟨threads, e | n⟩
  · exact .inl rfl
  · dsimp only
    rw [capabilities_untrack_synchronise]
    exact .inr rfl

/-- An admission touches capabilities only when it takes its new thread back. -/
theorem capabilities_threadAdmit (env : Env) (creator : ThreadId) (space : CapabilityId)
    (stack : UInt64) (root : SealedTranslationRoot) :
    (k.step (env, .threadAdmit creator space stack root)).1.capabilities = k.capabilities ∨
      ∃ thread, (k.step (env, .threadAdmit creator space stack root)).1.capabilities =
        (k.capabilities.revokeAllHeldBy thread).1 := by
  have hCreated : ∀ threadIdentifiers t p,
      ({ k with threadIdentifiers }.createAdmittedThread t p).1.capabilities = k.capabilities :=
    fun _ t p => congrArg Side.capabilities (side_finishCreation _ t p _)
  refine threadAdmit_induction (P := fun k' => k'.capabilities = k.capabilities ∨
    ∃ thread, k'.capabilities = (k.capabilities.revokeAllHeldBy thread).1) (fun _ => .inl rfl)
    (fun _ _ _ => .inl (hCreated ..)) ?_ env creator space stack root
  intro threadIdentifiers t p
  have hKept := hCreated threadIdentifiers t p
  rcases capabilities_destroyThread ({ k with threadIdentifiers }.createAdmittedThread t p).1 t
    with hSame | hRevoked
  · exact .inl (hSame.trans hKept)
  · exact .inr ⟨t, by rw [hRevoked, hKept]⟩

/-- A call that names no incarnation keeps the bound capabilities, or removes
what one thread held. -/
theorem boundKept_step (hForest : k.capabilities.Forest) {call : Op}
    (hThr : call.byThread = true) (env : Env) :
    BoundKept k.capabilities (k.step (env, call)).1.capabilities ∨
      ∃ holder, call.Revises (.revokeAllHeldBy holder) ∧
        (k.step (env, call)).1.capabilities = (k.capabilities.revokeAllHeldBy holder).1 := by
  by_cases hTeardown : ∃ holder, call.Revises (.revokeAllHeldBy holder)
  · obtain ⟨holder, hRevises⟩ := hTeardown
    cases call with
    | destroyThread thread =>
      rcases k.capabilities_destroyThread thread with hSame | hRevoked
      · left
        show BoundKept k.capabilities (k.destroyThread thread).1.capabilities
        rw [hSame]
        exact BoundKept.refl _
      · exact .inr ⟨thread, rfl, hRevoked⟩
    | threadAdmit creator space stack root =>
      rcases capabilities_threadAdmit env creator space stack root with
        hSame | ⟨thread, hRevoked⟩
      · left
        rw [hSame]
        exact BoundKept.refl _
      · exact .inr ⟨thread, ⟨thread, rfl⟩, hRevoked⟩
    | capability =>
      cases hRevises
      exact .inr ⟨holder, rfl, rfl⟩
    | addressSpaceCreate =>
      obtain ⟨_, _, _, hMint⟩ := hRevises
      cases hMint
    | addressSpaceCompleteDestroy => cases hRevises
    | _ => exact hRevises.elim
  · left
    have hKept := side_induction call (k := k)
      (P := fun s => s.capabilities.Forest ∧ BoundKept k.capabilities s.capabilities) ?_
      ⟨hForest, BoundKept.refl _⟩ env
    · exact hKept.2
    intro s op hPerformed h
    cases op with
    | capability op =>
      have hNum : op.byThread = true := by
        cases call with
        | capability =>
          cases hPerformed
          exact hThr
        | destroyThread =>
          cases hPerformed
          rfl
        | threadAdmit =>
          obtain ⟨_, rfl⟩ := hPerformed
          rfl
        | addressSpaceCreate =>
          obtain ⟨_, _, _, rfl⟩ := hPerformed
          rfl
        | addressSpaceCompleteDestroy =>
          cases hPerformed
          rfl
        | _ => exact hPerformed.elim
      refine ⟨h.1.step op, h.2.trans (BoundKept.step h.1 hNum ?_)⟩
      rintro holder rfl
      exact hTeardown ⟨holder, hPerformed⟩
    | _ => exact h

end Kernel

/-- Who can do what with the live capabilities, and what a call that names only
thread numbers can do to the bound ones. -/
structure IncarnationBound (k : Kernel) : Prop where
  byThread : ∀ slot ∈ k.capabilities.slots, slot.occupied = true → slot.contextBound = true →
    ∀ thread, ¬ ExercisedByThread k thread slot.id
  byOther : ∀ slot ∈ k.capabilities.slots, slot.occupied = true → slot.contextBound = true →
    ∀ authority, ExercisedByAuthority k authority slot.id →
      authority = ⟨slot.holder, slot.holderAddressSpace⟩
  unbound : ∀ slot ∈ k.capabilities.slots, slot.occupied = true → slot.contextBound = false →
    ∀ authority, ¬ ExercisedByAuthority k authority slot.id
  touched : ∀ env call, call.byThread = true →
    BoundKept k.capabilities (k.step (env, call)).1.capabilities ∨
      ∃ holder, call.Revises (.revokeAllHeldBy holder) ∧
        (k.step (env, call)).1.capabilities = (k.capabilities.revokeAllHeldBy holder).1

theorem incarnationBound_of_forest {k : Kernel} (hForest : k.capabilities.Forest) :
    IncarnationBound k where
  byThread := by
    intro slot hMem hLive hBound thread hExercised
    obtain ⟨slot', hMem', hLive', hId, hUnbound⟩ := hExercised.unbound hForest
    obtain rfl := hForest.slot_eq hMem hMem' hLive hLive' hId.symm
    rw [hBound] at hUnbound
    cases hUnbound
  byOther := by
    intro slot hMem hLive hBound authority hExercised
    obtain ⟨slot', hMem', hLive', hId, hHeld⟩ := hExercised.held hForest
    obtain rfl := hForest.slot_eq hMem hMem' hLive hLive' hId.symm
    obtain ⟨-, -, hThr, hSpace⟩ := heldBy_iff.mp hHeld
    rw [hThr, hSpace]
  unbound := by
    intro slot hMem hLive hUnbound authority hExercised
    obtain ⟨slot', hMem', hLive', hId, hHeld⟩ := hExercised.held hForest
    obtain rfl := hForest.slot_eq hMem hMem' hLive hLive' hId.symm
    rw [(heldBy_iff.mp hHeld).1] at hUnbound
    cases hUnbound
  touched := fun env call hThr => Kernel.boundKept_step hForest hThr env

/-- The call puts a new capability in the hands of this incarnation. -/
def CapabilityOp.boundRecipient : CapabilityOp → Option ExecutionAuthority
  | .mintBound holder .. => some holder
  | .grantBound _ _ recipient .. => some recipient
  | _ => none

/-- The id has been given out, and the slot that has it, while there is one, is
bound to the incarnation, or to none when there is none. -/
def BoundTo (recipient : Option ExecutionAuthority) (id : CapabilityId) (t : CapabilityTable) :
    Prop :=
  t.Spent id ∧ ∀ slot ∈ t.slots, slot.occupied = true → slot.id = id →
    match recipient with
    | some authority =>
      slot.contextBound = true ∧ slot.holder = authority.thread ∧
        slot.holderAddressSpace = authority.addressSpace
    | none => slot.contextBound = false

namespace BoundTo

variable {t t' : CapabilityTable} {recipient : Option ExecutionAuthority} {id : CapabilityId}

theorem change (h : BoundTo recipient id t) (hChange : Change t t') : BoundTo recipient id t' := by
  refine ⟨(Forest.spent_change hChange h.1).1, ?_⟩
  intro slot hMem hLive hId
  cases hChange with
  | same => exact h.2 slot hMem hLive hId
  | issue _ _ hIssue =>
    obtain ⟨i, free, hNext, rfl, -, -, hSlots, -⟩ := issue_eq_ok hIssue
    rw [hSlots] at hMem
    rcases mem_or_eq_of_mem_set hMem with hOld | rfl
    · exact h.2 slot hOld hLive hId
    rcases h.1 with hBelow | hZero
    · rw [← hId] at hBelow
      exact absurd hBelow (UInt64.lt_irrefl _)
    · exact absurd hZero hNext
  | remove =>
    obtain ⟨i, hCell⟩ := mem_iff_getElem?.mp hMem
    exact h.2 slot (mem_of_getElem? (getElem?_of_without hCell hLive).2) hLive hId

theorem of_issue (hForest : t.Forest) {slot : Slot} (h : (t.issue slot).2 = .ok id)
    (hSlot : match recipient with
      | some authority =>
        slot.contextBound = true ∧ slot.holder = authority.thread ∧
          slot.holderAddressSpace = authority.addressSpace
      | none => slot.contextBound = false) : BoundTo recipient id (t.issue slot).1 := by
  obtain ⟨i, free, hNext, rfl, -, -, hSlots, -, hCounter⟩ :=
    issue_eq_ok (show t.issue slot = ((t.issue slot).1, .ok id) from Prod.ext rfl h)
  refine ⟨?_, ?_⟩
  · rw [Spent, hCounter]
    exact Forest.lt_or_eq_zero_of_succ (.inr rfl)
  intro cell hMem hLive hId
  rw [hSlots] at hMem
  rcases mem_or_eq_of_mem_set hMem with hOld | rfl
  · rcases hForest.issued cell hOld hLive with hBelow | hZero
    · rw [hId] at hBelow
      exact absurd hBelow (UInt64.lt_irrefl _)
    · exact absurd hZero hNext
  · exact hSlot

/-- A new capability is bound to whom the call names. -/
theorem of_step (hForest : t.Forest) {op : CapabilityOp} (h : (t.step op).2 = .issued (.ok id)) :
    BoundTo op.boundRecipient id (t.step op).1 := by
  cases op with
  | mint =>
    dsimp only [step, Prod.map, mint] at h ⊢
    split_ifs at h ⊢
    iterate 2 cases h
    exact of_issue hForest (by simpa using h) rfl
  | mintBound =>
    dsimp only [step, Prod.map, mintBound] at h ⊢
    split_ifs at h ⊢
    iterate 2 cases h
    exact of_issue hForest (by simpa using h) ⟨rfl, rfl, rfl⟩
  | grant granter capability recipient rights transferable =>
    dsimp only [step, Prod.map, grant] at h ⊢
    split_ifs at h ⊢
    iterate 2 cases h
    obtain ⟨e, hRefused⟩ | ⟨parent, -, -, -, -, -, hDerive⟩ :=
      Forest.derive_cases (t := t) capability (fun parent => parent.heldByThread granter)
        (fun child => { child with holder := recipient }) rights transferable
    · rw [hRefused] at h
      cases h
    · rw [hDerive] at h ⊢
      exact of_issue hForest (by simpa using h) rfl
  | grantBound granter capability recipient rights transferable =>
    dsimp only [step, Prod.map, grantBound] at h ⊢
    split_ifs at h ⊢
    iterate 2 cases h
    obtain ⟨e, hRefused⟩ | ⟨parent, -, -, -, -, -, hDerive⟩ :=
      Forest.derive_cases (t := t) capability (fun parent => parent.heldBy granter)
        (fun child => { child with
          holder := recipient.thread
          holderAddressSpace := recipient.addressSpace
          contextBound := true }) rights transferable
    · rw [hRefused] at h
      cases h
    · rw [hDerive] at h ⊢
      exact of_issue hForest (by simpa using h) ⟨rfl, rfl, rfl⟩
  | revoke | revokeBound | revokeAllHeldBy => simp [step, Prod.map] at h

end BoundTo

section Runs

variable {calls : List (Env × Op)}

theorem forest_kernelRun (calls : List (Env × Op)) :
    Run.Always Kernel.step (fun k => k.capabilities.Forest) {} calls := by
  intro n
  exact (Kernel.keyed_run calls n).forest

/-- What an id was bound to when it was given out, it is bound to ever after. -/
theorem boundTo_run {recipient : Option ExecutionAuthority} {id : CapabilityId} {m : ℕ}
    (hnm : n ≤ m) (h : BoundTo recipient id (after Kernel.step {} (calls.take n)).capabilities) :
    BoundTo recipient id (after Kernel.step {} (calls.take m)).capabilities := by
  have hBoth : (after Kernel.step {} (calls.take m)).capabilities.Forest ∧
      BoundTo recipient id (after Kernel.step {} (calls.take m)).capabilities := by
    apply stable (P := fun k : Kernel =>
      k.capabilities.Forest ∧ BoundTo recipient id k.capabilities) _ hnm
      ⟨forest_kernelRun calls n, h⟩
    rintro k ⟨env, call⟩ hNow
    have hKept := Kernel.side_induction call (k := k)
      (P := fun s => s.capabilities.Forest ∧ BoundTo recipient id s.capabilities) ?_ hNow env
    · exact hKept
    intro s op _ h
    cases op with
    | capability op => exact ⟨h.1.step op, h.2.change (h.1.change_step op)⟩
    | _ => exact h
  exact hBoth.2

end Runs

/-- In every state of every run a bound capability answers to its own
incarnation and to nothing else, an unbound one to no incarnation, and of the
calls that name only threads none but the teardown of a holder touches a bound
capability. What a capability is bound to it is bound to from the call that
issues it on, whatever becomes of its slot. -/
theorem incarnation_binding (calls : List (Env × Op)) :
    Run.Always Kernel.step IncarnationBound {} calls ∧
      ∀ n env op id, calls[n]? = some (env, .capability op) →
        ((after Kernel.step {} (calls.take n)).step (env, .capability op)).2 =
          .capability (.issued (.ok id)) →
        ∀ m, n < m → (∀ authority, op.boundRecipient = some authority →
            (∀ thread, ¬ ExercisedByThread (after Kernel.step {} (calls.take m)) thread id) ∧
            ∀ other, ExercisedByAuthority (after Kernel.step {} (calls.take m)) other id →
                other = authority) ∧
          (op.boundRecipient = none → ∀ authority,
            ¬ ExercisedByAuthority (after Kernel.step {} (calls.take m)) authority id) := by
  refine ⟨fun n => incarnationBound_of_forest (forest_kernelRun calls n), ?_⟩
  intro n env op id hCall hIssued m hnm
  have hBefore := forest_kernelRun calls n
  have hAfter : BoundTo op.boundRecipient id
      (after Kernel.step {} (calls.take (n + 1))).capabilities := by
    rw [after_take_succ hCall]
    have hOk : ((after Kernel.step {} (calls.take n)).capabilities.step op).2 =
        .issued (.ok id) := Outcome.capability.inj hIssued
    exact BoundTo.of_step hBefore hOk
  have hLater := boundTo_run hnm hAfter
  have hForest := forest_kernelRun calls m
  refine ⟨?_, ?_⟩
  · intro authority hRecipient
    rw [hRecipient] at hLater
    refine ⟨?_, ?_⟩
    · intro thread hExercised
      obtain ⟨slot, hMem, hLive, hId, hUnbound⟩ := hExercised.unbound hForest
      rw [(hLater.2 slot hMem hLive hId).1] at hUnbound
      cases hUnbound
    · intro other hExercised
      obtain ⟨slot, hMem, hLive, hId, hHeld⟩ := hExercised.held hForest
      obtain ⟨-, hThr, hSpace⟩ := hLater.2 slot hMem hLive hId
      obtain ⟨-, -, hThr', hSpace'⟩ := heldBy_iff.mp hHeld
      cases other
      cases authority
      simp_all
  · intro hRecipient authority hExercised
    rw [hRecipient] at hLater
    obtain ⟨slot, hMem, hLive, hId, hHeld⟩ := hExercised.held hForest
    have hUnbound : slot.contextBound = false := hLater.2 slot hMem hLive hId
    rw [(heldBy_iff.mp hHeld).1] at hUnbound
    cases hUnbound

end Enml.OsKernel
