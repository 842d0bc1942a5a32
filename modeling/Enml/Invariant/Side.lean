import Enml.Invariant.Capability
import Enml.Invariant.Core

/-! The tables beside the IPC core: continuations, interrupt deliveries and
capabilities. As for the core, the calls of the kernel are reduced to a few
operations on these tables. -/
namespace Enml.OsKernel

open Enml.Core SlotTable InterruptDeliveryTable InterruptDeliveryTable.Slot

structure Side where
  continuations : IpcContinuationTable
  deliveries : InterruptDeliveryTable
  capabilities : CapabilityTable

def Kernel.side (k : Kernel) : Side := ⟨k.ipcContinuations, k.interruptDeliveries, k.capabilities⟩

inductive SideOp where
  | armSend (caller : ThreadId) (epoch : AddressSpaceEpoch) (exchangeAddress : UInt64)
      (epochs : AddressSpaceEpochAuthority)
  | clearSend (caller : ThreadId)
  | armReceive (server : ThreadId) (epoch : AddressSpaceEpoch) (endpoint : CapabilityId)
      (exchangeAddress : UInt64) (epochs : AddressSpaceEpochAuthority) (deadline : UInt64)
  | clearReceive (server : ThreadId)
  | takeExpired (now : UInt64)
  | armDelivery (driver : ThreadId) (source : InterruptSource) (service : Service)
  | clearDelivery (driver : ThreadId)
  | capability (op : CapabilityOp)

def Op.armsContinuation : Op → Bool
  | .ipcArmSendContinuation .. | .ipcArmReceiveContinuation .. => true
  | _ => false

/-- The capability operations a call may come down to. -/
def Op.Revises : Op → CapabilityOp → Prop
  | .capability op, done => done = op
  | .destroyThread thread, done => done = .revokeAllHeldBy thread
  | .threadAdmit .., done => ∃ thread, done = .revokeAllHeldBy thread
  | .addressSpaceCreate creator _, done =>
    ∃ object rights transferable, done = .mint creator object rights transferable
  | .addressSpaceCompleteDestroy owner space _, done => done = .revoke owner space
  | _, _ => False

/-- The operations on these tables a call may come down to. -/
def SideOp.PerformedBy (call : Op) : SideOp → Prop
  | .armSend .. | .armReceive .. => call.armsContinuation = true
  | .capability op => call.Revises op
  | _ => True

def SideOp.apply (s : Side) : SideOp → Side
  | .armSend caller epoch exchangeAddress epochs =>
    { s with continuations := (s.continuations.arm caller epoch exchangeAddress epochs).1 }
  | .clearSend caller => { s with continuations := s.continuations.clearSend caller }
  | .armReceive server epoch endpoint exchangeAddress epochs deadline =>
    { s with continuations :=
        (s.continuations.armReceive server epoch endpoint exchangeAddress epochs deadline).1 }
  | .clearReceive server => { s with continuations := s.continuations.clearReceive server }
  | .takeExpired now => { s with continuations := (s.continuations.takeExpiredReceive now).1 }
  | .armDelivery driver source service =>
    { s with deliveries := (s.deliveries.arm driver source service).1 }
  | .clearDelivery driver => { s with deliveries := s.deliveries.clear driver }
  | .capability op => { s with capabilities := (s.capabilities.step op).1 }

namespace Kernel

@[simp] theorem side_synchronise (k : Kernel) : k.synchronise.side = k.side := by
  rw [synchronise_eq]
  rfl

@[simp] theorem side_synchronisePair (k : Kernel) (a b : ThreadId) :
    (k.synchronisePair a b).side = k.side := by
  rw [synchronisePair_eq]
  rfl

@[simp] theorem side_synchroniseThread (k : Kernel) (t : ThreadId) :
    (k.synchroniseThread t).side = k.side := by
  rw [synchroniseThread_eq]
  rfl

@[simp] theorem side_untrack (k : Kernel) (t : ThreadId) : (k.untrack t).side = k.side := by
  unfold untrack
  split <;> rfl

theorem side_commitIpc {α : Type} (k : Kernel)
    (done : (IpcEndpointTable × Rendezvous) × Result α) {after : Kernel → α → Kernel}
    (hAfter : ∀ k value, (after k value).side = k.side) :
    (k.commitIpc done after).1.side = k.side := by
  obtain ⟨⟨ipc, threads⟩, result⟩ := done
  cases result with
  | error => rfl
  | ok value =>
    rw [commitIpc]
    exact hAfter _ value

theorem side_finishCreation (k : Kernel) (t : ThreadId) (p : Priority)
    (created : Rendezvous × Result Unit) : (k.finishCreation t p created).1.side = k.side := by
  obtain ⟨threads, e | ⟨⟩⟩ := created
  · rfl
  unfold finishCreation
  rcases k.scheduler.admitThread t p with ⟨scheduler, e | ⟨⟩⟩
  · rfl
  · exact side_synchroniseThread _ t

section Induction

variable {P : Side → Prop} {call : Op}
  (hOp : ∀ s (op : SideOp), op.PerformedBy call → P s → P (SideOp.apply s op))
include hOp

theorem side_releaseThread {s : Side} (h : P s) (t : ThreadId) :
    P { s with continuations := s.continuations.releaseThread t } := by
  unfold IpcContinuationTable.releaseThread
  dsimp only
  split_ifs
  · exact hOp _ (.clearReceive t) trivial (hOp s (.clearSend t) trivial h)
  · exact hOp s (.clearSend t) trivial h
  · exact hOp s (.clearReceive t) trivial h
  · exact h

variable {k : Kernel}

theorem side_destroyThread (h : P k.side) {t : ThreadId} (hCall : call.Revises (.revokeAllHeldBy t))
    : P (k.destroyThread t).1.side := by
  have hReleased := side_releaseThread hOp h t
  unfold destroyThread
  dsimp only
  rcases (k.ipc.releaseThread t k.threads).1.2.exitThread t with ⟨threads, e | n⟩
  · exact hReleased
  rw [side_synchronise, side_untrack]
  have hRevoked := hOp _ (.capability (.revokeAllHeldBy t)) hCall hReleased
  unfold release
  rcases k.interruptDeliveries.find t with _ | slot
  · exact hRevoked
  · exact hOp _ (.clearDelivery t) trivial hRevoked

omit hOp in
theorem side_onContinuations {α : Type} (h : P k.side) (t : ThreadId)
    {call : IpcContinuationTable → IpcContinuationTable × Result α}
    (hCall : P { k.side with continuations := (call k.ipcContinuations).1 }) :
    P (k.onContinuations t call).1.side := by
  unfold onContinuations
  split_ifs
  · exact h
  · exact hCall

theorem side_threadAdmit (h : P k.side) (hCall : ∀ t, call.Revises (.revokeAllHeldBy t)) (env : Env)
    (creator : ThreadId) (space : CapabilityId) (stack : UInt64) (root : SealedTranslationRoot) :
    P (k.threadAdmit creator space stack root env.epochs env.translations
      env.executables).1.1.side := by
  have hCreated : ∀ threadIdentifiers t p,
      P ({ k with threadIdentifiers }.createAdmittedThread t p).1.side := by
    intro threadIdentifiers t p
    rw [createAdmittedThread, side_finishCreation]
    exact h
  exact threadAdmit_induction (P := fun k => P k.side) (fun _ => h) hCreated
    (fun _ t _ => side_destroyThread hOp (hCreated ..) (hCall t)) env creator space stack root

theorem side_dispatchInterrupt (h : P k.side) (source : InterruptSource) :
    P (k.dispatchInterrupt source).1.side := by
  unfold dispatchInterrupt
  rcases k.interrupts.dispatch source with ⟨interrupts, e | taken⟩
  · exact h
  dsimp only
  split_ifs
  · rw [side_synchroniseThread]
    unfold beginDelivery
    split_ifs
    · exact h
    · split
      · exact h
      · exact hOp k.side (.armDelivery ..) trivial h
  · exact h

theorem side_addressSpaceCreate (h : P k.side) {creator : ThreadId}
    (hCall : ∀ object rights transferable, call.Revises (.mint creator object rights transferable))
    (authority : CapabilityId) (epochs : AddressSpaceEpochAuthority) :
    P (k.addressSpaceCreate creator authority epochs).1.1.side := by
  unfold addressSpaceCreate
  split
  · exact h
  rcases epochs.acquire with ⟨epochs, e | epoch⟩
  · exact h
  have hMint := hOp k.side (.capability (.mint creator (addressSpaceObjectId epoch.identity)
    (addressSpaceRightHold ||| addressSpaceRightDestroy ||| addressSpaceRightAdmit) true))
    (hCall _ _ _) h
  rcases hMinted : k.capabilities.mint creator (addressSpaceObjectId epoch.identity)
    (addressSpaceRightHold ||| addressSpaceRightDestroy ||| addressSpaceRightAdmit) true with
    ⟨capabilities, e | capability⟩
  all_goals
    simp only [SideOp.apply, CapabilityTable.step, side, hMinted, Prod.map] at hMint
    dsimp only
    rw [hMinted]
    exact hMint

theorem side_addressSpaceCompleteDestroy (h : P k.side) {owner : ThreadId} {space : CapabilityId}
    (hCall : call.Revises (.revoke owner space)) (retiring : RetiringAddressSpaceEpoch)
    (epochs : AddressSpaceEpochAuthority) :
    P (k.addressSpaceCompleteDestroy owner space retiring epochs).1.1.side := by
  unfold addressSpaceCompleteDestroy
  split
  · exact h
  split_ifs
  · exact h
  rcases epochs.completeRetire retiring with ⟨epochs, e | ⟨⟩⟩
  · exact h
  have hRevoke := hOp k.side (.capability (.revoke owner space)) hCall h
  rcases hRevoked : k.capabilities.revoke owner space with ⟨capabilities, e | n⟩
  all_goals
    simp only [SideOp.apply, CapabilityTable.step, side, hRevoked, Prod.map] at hRevoke
    exact hRevoke

variable (call) in
/-- What the operations of a call on these tables keep, the call keeps. -/
theorem side_induction (h : P k.side) (env : Env) : P (k.step (env, call)).1.side := by
  cases call with
  | createThread thread priority | createAdmittedThread thread priority =>
    show P (k.finishCreation thread priority _).1.side
    rwa [side_finishCreation]
  | threadAdmit creator space stack root =>
    exact side_threadAdmit hOp h (fun t => ⟨t, rfl⟩) env creator space stack root
  | destroyThread => exact side_destroyThread hOp h rfl
  | threadStart | send | receive | reply =>
    dsimp only [step, perform, pure, threadStart, send, receive, reply]
    split
    · exact h
    · first
      | rwa [side_synchroniseThread]
      | rwa [side_synchronisePair]
  | yield | createIpcEndpoint | ipcTakeReply | ipcTakeReplyBound | interruptAttach | interruptDetach
  | interruptComplete =>
    dsimp only [step, perform, pure, yield, createIpcEndpoint, ipcTakeReply, ipcTakeReplyBound,
      interruptAttach, interruptDetach, interruptComplete]
    split <;> exact h
  | retireIpcEndpoint server endpoint =>
    show P (k.retireIpcEndpoint server endpoint).1.side
    unfold retireIpcEndpoint
    dsimp only
    split
    · exact h
    rw [side_synchronise]
    split_ifs
    · unfold IpcContinuationTable.cancelReceive
      rcases k.ipcContinuations.receiveSlotFor server with _ | slot
      · exact h
      · exact hOp k.side (.clearReceive server) trivial h
    · exact h
  | ipcSend | ipcSendBound | ipcReplyTransaction | ipcReplyTransactionBound =>
    exact (congrArg P (side_commitIpc k _ fun k _ => side_synchronise k)).mpr h
  | ipcReceive | ipcReceiveBound | ipcReply | ipcReplyBound =>
    exact (congrArg P (side_commitIpc k _ fun k _ => side_synchronisePair k _ _)).mpr h
  | ipcArmSendContinuation caller epoch exchangeAddress =>
    exact side_onContinuations h caller
      (hOp k.side (.armSend caller epoch exchangeAddress env.epochs) rfl h)
  | ipcArmReceiveContinuation server epoch endpoint exchangeAddress deadline =>
    exact side_onContinuations h server
      (hOp k.side (.armReceive server epoch endpoint exchangeAddress env.epochs deadline) rfl h)
  | ipcTakeSendContinuation caller | ipcCancelSendContinuation caller =>
    apply side_onContinuations h caller
    dsimp only [IpcContinuationTable.take, IpcContinuationTable.cancel]
    split
    · exact h
    · (try split_ifs) <;> exact hOp k.side (.clearSend caller) trivial h
  | ipcTakeReceiveContinuation server | ipcCancelReceiveContinuation server =>
    apply side_onContinuations h server
    dsimp only [IpcContinuationTable.takeReceive, IpcContinuationTable.cancelReceive]
    split
    · exact h
    · (try split_ifs) <;> exact hOp k.side (.clearReceive server) trivial h
  | ipcExpireOneReceive now =>
    show P (k.ipcExpireOneReceive now).1.side
    have hTaken := hOp k.side (.takeExpired now) trivial h
    unfold ipcExpireOneReceive
    simp only [SideOp.apply, side] at hTaken
    rcases hTake : k.ipcContinuations.takeExpiredReceive now with ⟨continuations, e | armed⟩
    · rw [hTake] at hTaken
      dsimp only
      split_ifs <;> exact hTaken
    · rw [hTake] at hTaken
      dsimp only
      split <;> exact hTaken
  | ipcTakeExpiredReceiveContinuation now => exact hOp k.side (.takeExpired now) trivial h
  | ipcTakeDeadlineExpiry => exact h
  | dispatchInterrupt source => exact side_dispatchInterrupt hOp h source
  | takeDeliveredService driver =>
    show P (k.takeDeliveredService driver).1.side
    unfold takeDeliveredService take
    rcases k.interruptDeliveries.find driver with _ | slot
    · exact h
    · exact hOp k.side (.clearDelivery driver) trivial h
  | schedule => exact h
  | addressSpaceCreate _ authority =>
    exact side_addressSpaceCreate hOp h
      (fun object rights transferable => ⟨object, rights, transferable, rfl⟩)
      authority env.epochs
  | addressSpaceBeginDestroy => exact h
  | addressSpaceCompleteDestroy owner space retiring =>
    exact side_addressSpaceCompleteDestroy hOp h rfl retiring env.epochs
  | memoryForCapability holder capability required | mapAuthorize caller request
  | unmapAuthorize caller request => exact h
  | capability op => exact hOp k.side (.capability op) rfl h

end Induction

end Kernel

open Kernel

namespace IpcContinuationTable

variable {t : IpcContinuationTable}

theorem sendSlotFor_isSome_iff {caller : ThreadId} (h : caller ≠ OsKernel.invalidThread) :
    (t.sendSlotFor caller).isSome ↔ caller ∈ keys SendSlot.key t.sendSlots := by
  rw [sendSlotFor, if_neg h, lookup_isSome_iff]

theorem receiveSlotFor_isSome_iff {server : ThreadId} (h : server ≠ OsKernel.invalidThread) :
    (t.receiveSlotFor server).isSome ↔
      server ∈ keys ReceiveSlot.key t.receiveSlots := by
  rw [receiveSlotFor, if_neg h, lookup_isSome_iff]

/-- Arming either refuses or adds the caller, which was not armed before. -/
theorem keys_arm (t : IpcContinuationTable) (caller : ThreadId) (epoch : AddressSpaceEpoch)
    (exchangeAddress : UInt64) (epochs : AddressSpaceEpochAuthority) :
    (t.arm caller epoch exchangeAddress epochs).1 = t ∨ caller ∉ keys SendSlot.key t.sendSlots ∧
        (keys SendSlot.key
          (t.arm caller epoch exchangeAddress epochs).1.sendSlots).Perm
            (caller :: keys SendSlot.key t.sendSlots) ∧
        (t.arm caller epoch exchangeAddress epochs).1.receiveSlots = t.receiveSlots := by
  unfold arm
  split_ifs with hCaller _ _ hArmed
  iterate 4 exact .inl rfl
  split
  · rename_i hIns
    right
    refine ⟨?_, keys_insert rfl hIns, rfl⟩
    rwa [← sendSlotFor_isSome_iff hCaller]
  · exact .inl rfl

theorem keys_armReceive (t : IpcContinuationTable) (server : ThreadId)
    (epoch : AddressSpaceEpoch) (endpoint : CapabilityId) (exchangeAddress : UInt64)
    (epochs : AddressSpaceEpochAuthority) (deadline : UInt64) :
    (t.armReceive server epoch endpoint exchangeAddress epochs deadline).1 = t ∨
      server ∉ keys ReceiveSlot.key t.receiveSlots ∧ (keys ReceiveSlot.key
          (t.armReceive server epoch endpoint exchangeAddress epochs deadline).1.receiveSlots).Perm
            (server :: keys ReceiveSlot.key t.receiveSlots) ∧
        (t.armReceive server epoch endpoint exchangeAddress epochs deadline).1.sendSlots =
          t.sendSlots := by
  unfold armReceive
  split_ifs with hSrv _ _ _ hArmed
  iterate 5 exact .inl rfl
  split
  · rename_i hIns
    right
    refine ⟨?_, keys_insert rfl hIns, rfl⟩
    rwa [← receiveSlotFor_isSome_iff hSrv]
  · exact .inl rfl

end IpcContinuationTable

/-- No thread has two entries in a table keyed by thread, and the capabilities
form a forest. -/
structure Side.Keyed (s : Side) : Prop where
  send : (keys IpcContinuationTable.SendSlot.key s.continuations.sendSlots).Nodup
  receive :
    (keys IpcContinuationTable.ReceiveSlot.key s.continuations.receiveSlots).Nodup
  deliveries : (keys key s.deliveries.slots).Nodup
  forest : s.capabilities.Forest

namespace Side.Keyed

theorem empty : Side.Keyed (side {}) := by
  refine ⟨?_, ?_, ?_, CapabilityTable.forest_empty⟩
  · have hKeys : keys IpcContinuationTable.SendSlot.key
        ({} : IpcContinuationTable).sendSlots = [] := by decide
    exact hKeys ▸ List.nodup_nil
  · have hKeys : keys IpcContinuationTable.ReceiveSlot.key
        ({} : IpcContinuationTable).receiveSlots = [] := by decide
    exact hKeys ▸ List.nodup_nil
  · have hKeys : keys key
        ({} : InterruptDeliveryTable).slots = [] := by decide
    exact hKeys ▸ List.nodup_nil

variable {s : Side}

theorem armDelivery (h : s.Keyed) (driver : ThreadId) (source : InterruptSource)
    (service : Service) :
    (keys key
      (s.deliveries.arm driver source service).1.slots).Nodup := by
  unfold arm
  split_ifs with hDriver hArmed
  · exact h.deliveries
  · exact h.deliveries
  split
  · rename_i slots hIns
    have hAbsent : driver ∉ keys key s.deliveries.slots := by
      rwa [find, if_neg (fun h0 => hDriver (.inl h0)), lookup_isSome_iff] at hArmed
    have hPerm : (keys key slots).Perm (driver :: keys key s.deliveries.slots) :=
      keys_insert rfl hIns
    exact hPerm.nodup_iff.mpr (List.nodup_cons.mpr ⟨hAbsent, h.deliveries⟩)
  · exact h.deliveries

theorem apply (h : s.Keyed) (op : SideOp) : (SideOp.apply s op).Keyed := by
  cases op with
  | armSend caller epoch exchangeAddress epochs =>
    obtain hSame | ⟨hAbsent, hPerm, hRecv⟩ :=
      s.continuations.keys_arm caller epoch exchangeAddress epochs
    · simp only [SideOp.apply, hSame]
      exact h
    refine ⟨?_, ?_, h.deliveries, h.forest⟩
    · exact hPerm.nodup_iff.mpr (List.nodup_cons.mpr ⟨hAbsent, h.send⟩)
    · simp only [SideOp.apply, hRecv]
      exact h.receive
  | clearSend =>
    refine ⟨?_, h.receive, h.deliveries, h.forest⟩
    exact h.send.sublist (keys_updateFirst_sublist (fun _ => rfl) _)
  | armReceive server epoch endpoint exchangeAddress epochs deadline =>
    obtain hSame | ⟨hAbsent, hPerm, hSend⟩ :=
      s.continuations.keys_armReceive server epoch endpoint exchangeAddress epochs deadline
    · simp only [SideOp.apply, hSame]
      exact h
    refine ⟨?_, ?_, h.deliveries, h.forest⟩
    · simp only [SideOp.apply, hSend]
      exact h.send
    · exact hPerm.nodup_iff.mpr (List.nodup_cons.mpr ⟨hAbsent, h.receive⟩)
  | clearReceive =>
    refine ⟨h.send, ?_, h.deliveries, h.forest⟩
    exact h.receive.sublist (keys_updateFirst_sublist (fun _ => rfl) _)
  | takeExpired =>
    simp only [SideOp.apply]
    unfold IpcContinuationTable.takeExpiredReceive
    split
    · exact h
    · refine ⟨h.send, ?_, h.deliveries, h.forest⟩
      exact h.receive.sublist (keys_updateFirst_sublist (fun _ => rfl) _)
  | armDelivery driver source service =>
    exact ⟨h.send, h.receive, h.armDelivery driver source service, h.forest⟩
  | clearDelivery =>
    refine ⟨h.send, h.receive, ?_, h.forest⟩
    exact h.deliveries.sublist (keys_updateFirst_sublist (fun _ => rfl) _)
  | capability op => exact ⟨h.send, h.receive, h.deliveries, h.forest.step op⟩

theorem sendArmed_clearSend (h : s.Keyed) (t : ThreadId) :
    (s.continuations.clearSend t).sendArmed t = false := by
  unfold IpcContinuationTable.sendArmed IpcContinuationTable.sendSlotFor
  split_ifs
  · rfl
  · exact congrArg Option.isSome (lookup_modify_free h.send fun _ _ => rfl)

theorem receiveArmed_clearReceive (h : s.Keyed) (t : ThreadId) :
    (s.continuations.clearReceive t).receiveArmed t = false := by
  unfold IpcContinuationTable.receiveArmed IpcContinuationTable.receiveSlotFor
  split_ifs
  · rfl
  · exact congrArg Option.isSome (lookup_modify_free h.receive fun _ _ => rfl)

/-- A released thread has no continuation left. -/
theorem armed_releaseThread (h : s.Keyed) (t : ThreadId) :
    (s.continuations.releaseThread t).sendArmed t = false ∧
      (s.continuations.releaseThread t).receiveArmed t = false := by
  unfold IpcContinuationTable.releaseThread
  dsimp only
  split_ifs with hSend hRecv hRecv
  · exact ⟨h.sendArmed_clearSend t, (h.apply (.clearSend t)).receiveArmed_clearReceive t⟩
  · exact ⟨h.sendArmed_clearSend t, by simpa [IpcContinuationTable.receiveArmed] using hRecv⟩
  · refine ⟨?_, h.receiveArmed_clearReceive t⟩
    show (s.continuations.sendSlotFor t).isSome = false
    simpa using hSend
  · exact ⟨by simpa [IpcContinuationTable.sendArmed] using hSend,
      by simpa [IpcContinuationTable.receiveArmed] using hRecv⟩

theorem armed_release (h : s.Keyed) (t : ThreadId) :
    (s.deliveries.release t).1.armed t = false := by
  unfold release
  cases hFind : s.deliveries.find t with
  | none => simp [armed, hFind]
  | some =>
    unfold armed find
    split_ifs
    · rfl
    · exact congrArg Option.isSome (lookup_modify_free h.deliveries fun _ _ => rfl)

end Side.Keyed

/-- The keys are distinct in every state a run of the kernel passes through. -/
theorem Kernel.keyed_run (calls : List (Env × Op)) :
    Run.Always step (fun k => k.side.Keyed) {} calls :=
  Run.always_of_invariant Side.Keyed.empty fun _ call h =>
    side_induction call.2 (fun _ op _ hKeyed => hKeyed.apply op) h call.1

end Enml.OsKernel
