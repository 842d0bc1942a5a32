import Enml.OsKernel.AddressSpaceSyscall
import Enml.OsKernel.Interrupt
import Enml.OsKernel.IpcContinuation
import Enml.OsKernel.IpcEndpoint
import Enml.OsKernel.MemoryGrant
import Enml.OsKernel.Scheduler
import Enml.OsKernel.ThreadAdmission

/-! `Kernel`: the tables composed. The rendezvous decides who may run and the
scheduler is brought into line with it after the calls that change it. -/
namespace Enml.OsKernel

open Enml.Core AddressSpaceSyscallErrors RendezvousErrors ThreadAdmissionErrors InterruptErrors
  MapSyscallErrors

namespace KernelErrors
def creationIncomplete : UInt32 := 1
end KernelErrors

structure Teardown where
  threadsReleased : Nat := 0
  capabilitiesRevoked : Nat := 0
  interruptSourcesReleased : Nat := 0
  interruptDeliveryReleased : Bool := false
  ipcEndpointsRetired : Nat := 0
  deriving DecidableEq

/-- The tables of the kernel, with the list of threads it tracks. -/
structure Kernel where
  threads : Rendezvous := {}
  capabilities : CapabilityTable := {}
  interrupts : InterruptTable := {}
  interruptDeliveries : InterruptDeliveryTable := {}
  ipc : IpcEndpointTable := {}
  ipcContinuations : IpcContinuationTable := {}
  scheduler : Scheduler := {}
  threadIdentifiers : ThreadIdentifierIssuer := {}
  live : List ThreadId := List.replicate maxThreads invalidThread
  liveCount : Nat := 0

/-- The capability is held now, carries the right, and names `object`. -/
def addressSpaceCapability (thread : ThreadId) (capability : CapabilityId)
    (capabilities : CapabilityTable) (required : Rights) (object : ObjectId) : Result Unit :=
  if thread = invalidThread ∨ capability = invalidCapability then
    .error (kernelError AddressSpaceSyscallErrors.invalidCapability)
  else if !capabilities.holds thread capability then
    .error (kernelError AddressSpaceSyscallErrors.invalidCapability)
  else
    match capabilities.describe capability with
    | .error e => .error e
    | .ok description =>
      if description.rights &&& required = 0 ∨ description.object ≠ object then
        .error (kernelError AddressSpaceSyscallErrors.invalidCapability)
      else .ok ()

/-- The same check for a capability over some space, returning which one. -/
def addressSpaceIdentityForCapability (thread : ThreadId) (capability : CapabilityId)
    (capabilities : CapabilityTable) (required : Rights) : Result AddressSpaceIdentity :=
  if thread = invalidThread ∨ capability = invalidCapability then
    .error (kernelError AddressSpaceSyscallErrors.invalidCapability)
  else if !capabilities.holds thread capability then
    .error (kernelError AddressSpaceSyscallErrors.invalidCapability)
  else
    match capabilities.describe capability with
    | .error e => .error e
    | .ok description =>
      if description.rights &&& required = 0 ∨
          description.object &&& addressSpaceObjectTagMask ≠ addressSpaceObjectTag then
        .error (kernelError AddressSpaceSyscallErrors.invalidCapability)
      else
        let identity := addressSpaceIdentityOf description.object
        if !identity.valid then .error (kernelError AddressSpaceSyscallErrors.invalidCapability)
        else .ok identity

def interruptSourceForCapability (driver : ThreadId) (sourceCapability : CapabilityId)
    (capabilities : CapabilityTable) : Result InterruptSource :=
  if driver = invalidThread ∨ sourceCapability = invalidCapability then
    .error (kernelError InterruptErrors.invalidCapability)
  else if !capabilities.holds driver sourceCapability then
    .error (kernelError InterruptErrors.invalidCapability)
  else
    match capabilities.describe sourceCapability with
    | .error e => .error e
    | .ok description =>
      if description.rights &&& interruptRightAttach = 0 then
        .error (kernelError wrongRights)
      else if description.object &&& interruptObjectTagMask ≠ interruptObjectTag then
        .error (kernelError wrongObject)
      else
        let source := (description.object &&& ~~~interruptObjectTagMask).toUInt32
        if source = invalidInterruptSource then .error (kernelError wrongObject)
        else .ok source

namespace Kernel

/-- The ids in `live_[0 .. live_count_)`. -/
def liveThreads (k : Kernel) : List ThreadId := k.live.take k.liveCount

def tracks (k : Kernel) (thread : ThreadId) : Bool := k.liveThreads.contains thread

/-- The last tracked id takes the place of the one that goes. -/
def untrack (k : Kernel) (thread : ThreadId) : Kernel :=
  match k.liveThreads.findIdx? (fun id => id == thread) with
  | none => k
  | some i =>
    { k with
      live := (k.live.set i (k.live.getD (k.liveCount - 1) invalidThread)).set
        (k.liveCount - 1) invalidThread
      liveCount := k.liveCount - 1 }

def track (k : Kernel) (thread : ThreadId) : Kernel :=
  { k with live := k.live.set k.liveCount thread, liveCount := k.liveCount + 1 }

def synchroniseThread (k : Kernel) (thread : ThreadId) : Kernel :=
  match k.threads.stateOf thread, k.threads.effectivePriorityOf thread with
  | .ok state, .ok priority =>
    { k with scheduler := (k.scheduler.update thread (state == .ready) priority).1 }
  | _, _ => k

def synchronisePair (k : Kernel) (first second : ThreadId) : Kernel :=
  let k := k.synchroniseThread first
  if second ≠ first then k.synchroniseThread second else k

def synchronise (k : Kernel) : Kernel := k.liveThreads.foldl synchroniseThread k

/-- Both creations: the rendezvous first, the scheduler second, and the thread
taken out again when the scheduler has no room. -/
def finishCreation (k : Kernel) (thread : ThreadId) (priority : Priority)
    (created : Rendezvous × Result Unit) : Kernel × Result Unit :=
  match created with
  | (threads, .error e) => ({ k with threads }, .error e)
  | (threads, .ok ()) =>
    match k.scheduler.admitThread thread priority with
    | (scheduler, .error _) =>
      ({ k with threads := (threads.exitThread thread).1, scheduler },
        .error (kernelError KernelErrors.creationIncomplete))
    | (scheduler, .ok ()) =>
      (({ k with threads, scheduler }.track thread).synchroniseThread thread, .ok ())

def createThread (k : Kernel) (thread : ThreadId) (priority : Priority) : Kernel × Result Unit :=
  k.finishCreation thread priority (k.threads.createThread thread priority)

def createAdmittedThread (k : Kernel) (thread : ThreadId) (priority : Priority) :
    Kernel × Result Unit :=
  k.finishCreation thread priority (k.threads.createAdmittedThread thread priority)

def threadStart (k : Kernel) (thread : ThreadId) : Kernel × Result Unit :=
  match k.threads.startThread thread with
  | (threads, .error e) => ({ k with threads }, .error e)
  | (threads, .ok ()) => ({ k with threads }.synchroniseThread thread, .ok ())

/-- The continuations and the IPC table are released before the rendezvous is
asked whether the thread exists. -/
def destroyThread (k : Kernel) (thread : ThreadId) : Kernel × Result Teardown :=
  let ipcContinuations := k.ipcContinuations.releaseThread thread
  let ((ipc, threads), retiredEndpoints) := k.ipc.releaseThread thread k.threads
  let k := { k with ipcContinuations, ipc, threads }
  match k.threads.exitThread thread with
  | (threads, .error e) => ({ k with threads }, .error e)
  | (threads, .ok released) =>
    let (capabilities, capabilitiesRevoked) := k.capabilities.revokeAllHeldBy thread
    let (interrupts, interruptSourcesReleased) := k.interrupts.detachAllOwnedBy thread
    let (interruptDeliveries, interruptDeliveryReleased) := k.interruptDeliveries.release thread
    let k := { k with
      threads, capabilities, interrupts, interruptDeliveries
      scheduler := (k.scheduler.retire thread).1 }
    ((k.untrack thread).synchronise,
      .ok { threadsReleased := released, capabilitiesRevoked, interruptSourcesReleased,
            interruptDeliveryReleased, ipcEndpointsRetired := retiredEndpoints })

def send (k : Kernel) (sender target : ThreadId) : Kernel × Result Unit :=
  match k.threads.send sender target with
  | (threads, .error e) => ({ k with threads }, .error e)
  | (threads, .ok ()) => ({ k with threads }.synchronisePair sender target, .ok ())

def receive (k : Kernel) (self : ThreadId) : Kernel × Result ThreadId :=
  match k.threads.receive self with
  | (threads, .error e) => ({ k with threads }, .error e)
  | (threads, .ok received) => ({ k with threads }.synchronisePair self received, .ok received)

def reply (k : Kernel) (self caller : ThreadId) : Kernel × Result Unit :=
  match k.threads.reply self caller with
  | (threads, .error e) => ({ k with threads }, .error e)
  | (threads, .ok ()) => ({ k with threads }.synchronisePair self caller, .ok ())

def yield (k : Kernel) (self : ThreadId) : Kernel × Result Unit :=
  if !k.tracks self then (k, .error (kernelError unknownThread))
  else
    let (scheduler, yielded) := k.scheduler.yieldSlice self
    ({ k with scheduler }, yielded)

def createIpcEndpoint (k : Kernel) (server : ThreadId) : Kernel × Result IpcEndpoint :=
  if !k.tracks server then (k, .error (kernelError unknownThread))
  else
    let (ipc, created) := k.ipc.create server
    ({ k with ipc }, created)

def retireIpcEndpoint (k : Kernel) (server : ThreadId) (endpoint : IpcEndpoint) :
    Kernel × Result Unit :=
  let receiverWaiting := k.ipc.receiveWaiting endpoint
  match k.ipc.retire server endpoint k.threads with
  | ((ipc, threads), .error e) => ({ k with ipc, threads }, .error e)
  | ((ipc, threads), .ok ()) =>
    let ipcContinuations :=
      if receiverWaiting && k.ipcContinuations.receiveArmed server then
        (k.ipcContinuations.cancelReceive server).1
      else k.ipcContinuations
    ({ k with ipc, threads, ipcContinuations }.synchronise, .ok ())

/-- Store what an IPC call did and, when it succeeded, synchronise with `after`. -/
def commitIpc {α : Type} (k : Kernel) (outcome : (IpcEndpointTable × Rendezvous) × Result α)
    (after : Kernel → α → Kernel) : Kernel × Result α :=
  match outcome with
  | ((ipc, threads), .error e) => ({ k with ipc, threads }, .error e)
  | ((ipc, threads), .ok value) => (after { k with ipc, threads } value, .ok value)

def ipcSend (k : Kernel) (caller : ThreadId) (endpointCapability : CapabilityId)
    (request : IpcEnvelope) : Kernel × Result Unit :=
  k.commitIpc (k.ipc.send caller endpointCapability k.capabilities k.threads request)
    fun k _ => k.synchronise

def ipcSendBound (k : Kernel) (caller : ExecutionAuthority) (endpointCapability : CapabilityId)
    (request : IpcEnvelope) : Kernel × Result Unit :=
  k.commitIpc (k.ipc.sendBound caller endpointCapability k.capabilities k.threads request)
    fun k _ => k.synchronise

def ipcReceive (k : Kernel) (server : ThreadId) (endpointCapability : CapabilityId) :
    Kernel × Result IpcReceived :=
  k.commitIpc (k.ipc.receive server endpointCapability k.capabilities k.threads)
    fun k received => k.synchronisePair server received.caller

def ipcReceiveBound (k : Kernel) (server : ExecutionAuthority)
    (endpointCapability : CapabilityId) : Kernel × Result IpcReceived :=
  k.commitIpc (k.ipc.receiveBound server endpointCapability k.capabilities k.threads)
    fun k received => k.synchronisePair server.thread received.caller

def ipcReply (k : Kernel) (server : ThreadId) (replySeal : IpcReplySeal)
    (response : IpcEnvelope) : Kernel × Result Unit :=
  k.commitIpc (k.ipc.reply server replySeal k.threads response)
    fun k _ => k.synchronisePair server replySeal.caller

def ipcReplyBound (k : Kernel) (server : ExecutionAuthority) (replySeal : IpcReplySeal)
    (response : IpcEnvelope) : Kernel × Result Unit :=
  k.commitIpc (k.ipc.replyBound server replySeal k.threads response)
    fun k _ => k.synchronisePair server.thread replySeal.caller

def ipcReplyTransaction (k : Kernel) (server : ThreadId) (transaction : IpcTransactionId)
    (response : IpcEnvelope) : Kernel × Result Unit :=
  k.commitIpc (k.ipc.replyTransaction server transaction k.threads response)
    fun k _ => k.synchronise

def ipcReplyTransactionBound (k : Kernel) (server : ExecutionAuthority)
    (transaction : IpcTransactionId) (response : IpcEnvelope) : Kernel × Result Unit :=
  k.commitIpc (k.ipc.replyTransactionBound server transaction k.threads response)
    fun k _ => k.synchronise

def ipcTakeReply (k : Kernel) (caller : ThreadId) : Kernel × Result IpcEnvelope :=
  if !k.tracks caller then (k, .error (kernelError unknownThread))
  else
    let (ipc, taken) := k.ipc.takeReply caller
    ({ k with ipc }, taken)

def ipcTakeReplyBound (k : Kernel) (caller : ExecutionAuthority) : Kernel × Result IpcEnvelope :=
  if !k.tracks caller.thread then (k, .error (kernelError unknownThread))
  else
    let (ipc, taken) := k.ipc.takeReplyBound caller
    ({ k with ipc }, taken)

/-- A continuation call on behalf of a tracked thread. -/
def onContinuations {α : Type} (k : Kernel) (thread : ThreadId)
    (call : IpcContinuationTable → IpcContinuationTable × Result α) : Kernel × Result α :=
  if !k.tracks thread then (k, .error (kernelError unknownThread))
  else
    let (ipcContinuations, outcome) := call k.ipcContinuations
    ({ k with ipcContinuations }, outcome)

def ipcArmSendContinuation (k : Kernel) (caller : ThreadId) (epoch : AddressSpaceEpoch)
    (exchangeAddress : UInt64) (epochs : AddressSpaceEpochAuthority) : Kernel × Result Unit :=
  k.onContinuations caller fun t => t.arm caller epoch exchangeAddress epochs

def ipcTakeSendContinuation (k : Kernel) (caller : ThreadId) (expected : AddressSpaceEpoch)
    (epochs : AddressSpaceEpochAuthority) : Kernel × Result IpcSendContinuation :=
  k.onContinuations caller fun t => t.take caller expected epochs

def ipcCancelSendContinuation (k : Kernel) (caller : ThreadId) : Kernel × Result Unit :=
  k.onContinuations caller fun t => t.cancel caller

def ipcArmReceiveContinuation (k : Kernel) (server : ThreadId) (epoch : AddressSpaceEpoch)
    (endpointCapability : CapabilityId) (exchangeAddress : UInt64)
    (epochs : AddressSpaceEpochAuthority) (deadlineNanoseconds : UInt64) :
    Kernel × Result Unit :=
  k.onContinuations server fun t =>
    t.armReceive server epoch endpointCapability exchangeAddress epochs deadlineNanoseconds

def ipcTakeReceiveContinuation (k : Kernel) (server : ThreadId) (expected : AddressSpaceEpoch)
    (epochs : AddressSpaceEpochAuthority) : Kernel × Result IpcReceiveContinuation :=
  k.onContinuations server fun t => t.takeReceive server expected epochs

def ipcCancelReceiveContinuation (k : Kernel) (server : ThreadId) : Kernel × Result Unit :=
  k.onContinuations server fun t => t.cancelReceive server

def ipcTakeExpiredReceiveContinuation (k : Kernel) (now : UInt64) :
    Kernel × Result IpcReceiveContinuation :=
  let (ipcContinuations, taken) := k.ipcContinuations.takeExpiredReceive now
  ({ k with ipcContinuations }, taken)

/-- The continuation is gone before the wake is tried. -/
def ipcExpireOneReceive (k : Kernel) (now : UInt64) : Kernel × Result Bool :=
  match k.ipcContinuations.takeExpiredReceive now with
  | (ipcContinuations, .error e) =>
    if e.domain = .kernel ∧ e.code = IpcContinuationErrors.notArmed then
      ({ k with ipcContinuations }, .ok false)
    else ({ k with ipcContinuations }, .error e)
  | (ipcContinuations, .ok continuation) =>
    match k.threads.expireReceive continuation.server with
    | (threads, .error e) => ({ k with ipcContinuations, threads }, .error e)
    | (threads, .ok ()) => ({ k with ipcContinuations, threads }, .ok true)

def ipcTakeDeadlineExpiry (k : Kernel) (thread : ThreadId) : Kernel × Result Bool :=
  let (threads, taken) := k.threads.takeDeadlineExpiry thread
  ({ k with threads }, taken)

def interruptAttach (k : Kernel) (driver : ThreadId) (sourceCapability : CapabilityId) :
    Kernel × Result Unit :=
  match interruptSourceForCapability driver sourceCapability k.capabilities with
  | .error e => (k, .error e)
  | .ok source =>
    let (interrupts, attached) := k.interrupts.attach driver source
    ({ k with interrupts }, attached)

def interruptDetach (k : Kernel) (driver : ThreadId) (sourceCapability : CapabilityId) :
    Kernel × Result Unit :=
  match interruptSourceForCapability driver sourceCapability k.capabilities with
  | .error e => (k, .error e)
  | .ok source =>
    let (interrupts, detached) := k.interrupts.detach driver source
    ({ k with interrupts }, detached)

def interruptComplete (k : Kernel) (driver : ThreadId) (sourceCapability : CapabilityId) :
    Kernel × Result Bool :=
  match interruptSourceForCapability driver sourceCapability k.capabilities with
  | .error e => (k, .error e)
  | .ok source =>
    let (interrupts, completed) := k.interrupts.endService driver source
    ({ k with interrupts }, completed)

/-- A second source stays pending while the driver has not collected the first. -/
def beginDelivery (k : Kernel) (owner : ThreadId) (source : InterruptSource) : Kernel :=
  if k.interruptDeliveries.armed owner then k
  else
    match k.interrupts.beginService owner source with
    | (interrupts, .error _) => { k with interrupts }
    | (interrupts, .ok service) =>
      { k with
        interrupts
        interruptDeliveries := (k.interruptDeliveries.arm owner source service).1 }

def dispatchInterrupt (k : Kernel) (source : InterruptSource) : Kernel × Result Dispatch :=
  match k.interrupts.dispatch source with
  | (interrupts, .error e) => ({ k with interrupts }, .error e)
  | (interrupts, .ok taken) =>
    let k := { k with interrupts }
    if taken.wake && taken.owner != invalidThread then
      ((k.beginDelivery taken.owner source).synchroniseThread taken.owner, .ok taken)
    else (k, .ok taken)

def takeDeliveredService (k : Kernel) (driver : ThreadId) : Kernel × Result Service :=
  let (interruptDeliveries, taken) := k.interruptDeliveries.take driver
  ({ k with interruptDeliveries }, taken)

def schedule (k : Kernel) (now : UInt64) : Kernel × Decision :=
  let (scheduler, decision) := k.scheduler.choose now
  ({ k with scheduler }, decision)

def memoryForCapability (k : Kernel) (holder : ThreadId) (capability : CapabilityId)
    (required : Rights) (grants : MemoryGrantAuthority) : Result MemoryGrant :=
  if holder = invalidThread ∨ capability = invalidCapability then
    .error (kernelError AddressSpaceSyscallErrors.invalidCapability)
  else if !k.capabilities.holds holder capability then
    .error (kernelError AddressSpaceSyscallErrors.invalidCapability)
  else
    match k.capabilities.describe capability with
    | .error e => .error e
    | .ok description =>
      if description.rights &&& required = 0 ∨
          description.object &&& memoryGrantObjectTagMask ≠ memoryGrantObjectTag then
        .error (kernelError AddressSpaceSyscallErrors.invalidCapability)
      else grants.resolve (memoryGrantIdentityOf description.object)

def mapAuthorize (k : Kernel) (caller : ThreadId) (request : MapSyscall)
    (epochs : AddressSpaceEpochAuthority) (grants : MemoryGrantAuthority)
    (executables : ExecutableRegionTable) : Result MapAuthorization := do
  let identity ← addressSpaceIdentityForCapability caller request.space k.capabilities
    addressSpaceRightHold
  let _ ← epochs.resolve identity
  let backing ← k.memoryForCapability caller request.backing memoryRightMap grants
  if request.permissions = .readExecute ∧ executables.wouldRefuse identity then
    .error (kernelError ExecutableRegionErrors.alreadyExecutable)
  else if 0xFFFFFFFFFFFFFFFF - request.virtualAddress < backing.length then
    .error (kernelError rangeOverflows)
  else
    .ok { space := identity, virtualBase := request.virtualAddress
          physicalBase := backing.physicalBase, length := backing.length
          permissions := request.permissions }

/-- The space's executable region is never unmapped. -/
def regionAt (executables : ExecutableRegionTable) (space : AddressSpaceIdentity)
    (virtualAddress : UInt64) : Bool :=
  match executables.regionFor space with
  | .error _ => false
  | .ok region => region.base == virtualAddress

def unmapAuthorize (k : Kernel) (caller : ThreadId) (request : UnmapSyscall)
    (epochs : AddressSpaceEpochAuthority) (grants : MemoryGrantAuthority)
    (executables : ExecutableRegionTable) : Result UnmapAuthorization := do
  let identity ← addressSpaceIdentityForCapability caller request.space k.capabilities
    addressSpaceRightHold
  let _ ← epochs.resolve identity
  let backing ← k.memoryForCapability caller request.backing memoryRightMap grants
  if regionAt executables identity request.virtualAddress then
    .error (kernelError executableRegionImmutable)
  else if 0xFFFFFFFFFFFFFFFF - request.virtualAddress < backing.length then
    .error (kernelError rangeOverflows)
  else
    .ok { space := identity, virtualBase := request.virtualAddress, length := backing.length }

/-- The two-phase retirement run at once, for an epoch nothing was built on. -/
def unwindEpoch (epochs : AddressSpaceEpochAuthority) (epoch : AddressSpaceEpoch) :
    AddressSpaceEpochAuthority :=
  match epochs.beginRetire epoch with
  | (epochs, .error _) => epochs
  | (epochs, .ok retiring) => (epochs.completeRetire retiring).1

def addressSpaceCreate (k : Kernel) (creator : ThreadId) (authority : CapabilityId)
    (epochs : AddressSpaceEpochAuthority) :
    (Kernel × AddressSpaceEpochAuthority) × Result AddressSpaceCreation :=
  match addressSpaceCapability creator authority k.capabilities addressSpaceRightCreate
      addressSpaceAuthorityObject with
  | .error e => ((k, epochs), .error e)
  | .ok () =>
    match epochs.acquire with
    | (epochs, .error e) => ((k, epochs), .error e)
    | (epochs, .ok epoch) =>
      match k.capabilities.mint creator (addressSpaceObjectId epoch.identity)
          (addressSpaceRightHold ||| addressSpaceRightDestroy ||| addressSpaceRightAdmit)
          true with
      | (capabilities, .error e) => (({ k with capabilities }, unwindEpoch epochs epoch), .error e)
      | (capabilities, .ok capability) =>
        (({ k with capabilities }, epochs), .ok { epoch, capability })

def addressSpaceBeginDestroy (k : Kernel) (owner : ThreadId) (space : CapabilityId)
    (epochs : AddressSpaceEpochAuthority) :
    AddressSpaceEpochAuthority × Result RetiringAddressSpaceEpoch :=
  match addressSpaceIdentityForCapability owner space k.capabilities addressSpaceRightDestroy with
  | .error e => (epochs, .error e)
  | .ok identity =>
    match epochs.resolve identity with
    | .error e => (epochs, .error e)
    | .ok epoch => epochs.beginRetire epoch

def addressSpaceCompleteDestroy (k : Kernel) (owner : ThreadId) (space : CapabilityId)
    (retiring : RetiringAddressSpaceEpoch) (epochs : AddressSpaceEpochAuthority) :
    (Kernel × AddressSpaceEpochAuthority) × Result Unit :=
  match addressSpaceIdentityForCapability owner space k.capabilities addressSpaceRightDestroy with
  | .error e => ((k, epochs), .error e)
  | .ok identity =>
    if retiring.epoch.identity ≠ identity then
      ((k, epochs), .error (kernelError AddressSpaceSyscallErrors.invalidCapability))
    else
      match epochs.completeRetire retiring with
      | (epochs, .error e) => ((k, epochs), .error e)
      | (epochs, .ok ()) =>
        match k.capabilities.revoke owner space with
        | (capabilities, .error e) => (({ k with capabilities }, epochs), .error e)
        | (capabilities, .ok _) => (({ k with capabilities }, epochs), .ok ())

/-- The checks of `thread_admit` that come before anything is written: where
the thread starts and which epoch it runs in. -/
def admissionCheck (k : Kernel) (creator : ThreadId) (space : CapabilityId) (stack : UInt64)
    (root : SealedTranslationRoot) (epochs : AddressSpaceEpochAuthority)
    (executables : ExecutableRegionTable) : Result (AddressSpaceEpoch × UInt64) := do
  if stack = 0 then .error (kernelError invalidStack)
  let identity ← addressSpaceIdentityForCapability creator space k.capabilities
    addressSpaceRightAdmit
  let epoch ← epochs.resolve identity
  if !root.valid then .error (kernelError ThreadAdmissionErrors.invalidCapability)
  match executables.regionFor identity with
  | .error _ => .error (kernelError noExecutableRegion)
  | .ok region =>
    if root.entry ≠ region.base then
      .error (kernelError entryNotRegionBase)
    else .ok (epoch, region.base)

/-- The identifier is spent before the creator's priority is looked up. -/
def threadAdmit (k : Kernel) (creator : ThreadId) (space : CapabilityId) (stack : UInt64)
    (root : SealedTranslationRoot) (epochs : AddressSpaceEpochAuthority)
    (translations : ProcessTranslationTable) (executables : ExecutableRegionTable) :
    (Kernel × ProcessTranslationTable) × Result ThreadAdmission :=
  match k.admissionCheck creator space stack root epochs executables with
  | .error e => ((k, translations), .error e)
  | .ok (epoch, entry) =>
    match k.threadIdentifiers.issue with
    | (_, .error e) => ((k, translations), .error e)
    | (threadIdentifiers, .ok issued) =>
      let k := { k with threadIdentifiers }
      match k.threads.effectivePriorityOf creator with
      | .error e => ((k, translations), .error e)
      | .ok priority =>
        match k.createAdmittedThread issued priority with
        | (k, .error e) => ((k, translations), .error e)
        | (k, .ok ()) =>
          match translations.bind issued epoch root epochs with
          | (translations, .error e) => (((k.destroyThread issued).1, translations), .error e)
          | (translations, .ok ()) => ((k, translations), .ok { thread := issued, entry, stack })

end Kernel

end Enml.OsKernel
