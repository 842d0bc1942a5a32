import Enml.Lib.Run
import Enml.OsKernel.Composition

/-! One step of the kernel: a public call, the authorities it is handed, and
what it answers. Runs are lists of such calls. A run of the system interleaves them
with the calls the rest of the kernel image makes on those authorities. -/
namespace Enml.OsKernel

open Enml.Core

/-- The calls on the capability table itself. -/
inductive CapabilityOp where
  | mint (holder : ThreadId) (object : ObjectId) (rights : Rights) (transferable : Bool)
  | mintBound (holder : ExecutionAuthority) (object : ObjectId) (rights : Rights)
      (transferable : Bool)
  | grant (granter : ThreadId) (capability : CapabilityId) (recipient : ThreadId)
      (rights : Rights) (transferable : Bool)
  | grantBound (granter : ExecutionAuthority) (capability : CapabilityId)
      (recipient : ExecutionAuthority) (rights : Rights) (transferable : Bool)
  | revoke (revoker : ThreadId) (capability : CapabilityId)
  | revokeBound (revoker : ExecutionAuthority) (capability : CapabilityId)
  | revokeAllHeldBy (holder : ThreadId)

/-- A new capability id, or how many capabilities a revocation removed. -/
inductive CapabilityOutcome where
  | issued (result : Result CapabilityId)
  | removed (result : Result Nat)
  deriving DecidableEq

def CapabilityTable.step (t : CapabilityTable) : CapabilityOp → CapabilityTable × CapabilityOutcome
  | .mint holder object rights transferable =>
    (t.mint holder object rights transferable).map id .issued
  | .mintBound holder object rights transferable =>
    (t.mintBound holder object rights transferable).map id .issued
  | .grant granter capability recipient rights transferable =>
    (t.grant granter capability recipient rights transferable).map id .issued
  | .grantBound granter capability recipient rights transferable =>
    (t.grantBound granter capability recipient rights transferable).map id .issued
  | .revoke revoker capability => (t.revoke revoker capability).map id .removed
  | .revokeBound revoker capability => (t.revokeBound revoker capability).map id .removed
  | .revokeAllHeldBy holder => (t.revokeAllHeldBy holder).map id fun n => .removed (.ok n)

/-- The calls on the rendezvous itself. -/
inductive RendezvousOp where
  | createThread (thread : ThreadId) (priority : Priority)
  | createAdmittedThread (thread : ThreadId) (priority : Priority)
  | startThread (thread : ThreadId)
  | exitThread (thread : ThreadId)
  | send (sender target : ThreadId)
  | receive (self : ThreadId)
  | reply (self caller : ThreadId)
  | blockSend (sender target : ThreadId)
  | waitReceive (self : ThreadId)
  | deliverWaitingReceiver (sender target : ThreadId)
  | acceptSender (self caller : ThreadId)
  | cancelReceive (self : ThreadId)
  | expireReceive (self : ThreadId)
  | takeDeadlineExpiry (self : ThreadId)
  | cancelCall (caller expectedServer : ThreadId)

inductive RendezvousOutcome where
  | unit (result : Result Unit)
  | released (result : Result Nat)
  | thread (result : Result ThreadId)
  | flag (result : Result Bool)

def Rendezvous.step (r : Rendezvous) : RendezvousOp → Rendezvous × RendezvousOutcome
  | .createThread thread priority => (r.createThread thread priority).map id .unit
  | .createAdmittedThread thread priority => (r.createAdmittedThread thread priority).map id .unit
  | .startThread thread => (r.startThread thread).map id .unit
  | .exitThread thread => (r.exitThread thread).map id .released
  | .send sender target => (r.send sender target).map id .unit
  | .receive self => (r.receive self).map id .thread
  | .reply self caller => (r.reply self caller).map id .unit
  | .blockSend sender target => (r.blockSend sender target).map id .unit
  | .waitReceive self => (r.waitReceive self).map id .unit
  | .deliverWaitingReceiver sender target => (r.deliverWaitingReceiver sender target).map id .unit
  | .acceptSender self caller => (r.acceptSender self caller).map id .unit
  | .cancelReceive self => (r.cancelReceive self).map id .unit
  | .expireReceive self => (r.expireReceive self).map id .unit
  | .takeDeadlineExpiry self => (r.takeDeadlineExpiry self).map id .flag
  | .cancelCall caller expectedServer => (r.cancelCall caller expectedServer).map id .unit

/-- The authorities the kernel is handed by reference. -/
structure Env where
  epochs : AddressSpaceEpochAuthority := {}
  grants : MemoryGrantAuthority := {}
  executables : ExecutableRegionTable := {}
  translations : ProcessTranslationTable := {}

/-- The calls on the kernel. -/
inductive Op where
  | createThread (thread : ThreadId) (priority : Priority)
  | createAdmittedThread (thread : ThreadId) (priority : Priority)
  | threadStart (thread : ThreadId)
  | threadAdmit (creator : ThreadId) (space : CapabilityId) (stack : UInt64)
      (root : SealedTranslationRoot)
  | destroyThread (thread : ThreadId)
  | send (sender target : ThreadId)
  | receive (self : ThreadId)
  | reply (self caller : ThreadId)
  | yield (self : ThreadId)
  | createIpcEndpoint (server : ThreadId)
  | retireIpcEndpoint (server : ThreadId) (endpoint : IpcEndpoint)
  | ipcSend (caller : ThreadId) (capability : CapabilityId) (request : IpcEnvelope)
  | ipcSendBound (caller : ExecutionAuthority) (capability : CapabilityId)
      (request : IpcEnvelope)
  | ipcReceive (server : ThreadId) (capability : CapabilityId)
  | ipcReceiveBound (server : ExecutionAuthority) (capability : CapabilityId)
  | ipcReply (server : ThreadId) (replySeal : IpcReplySeal) (response : IpcEnvelope)
  | ipcReplyBound (server : ExecutionAuthority) (replySeal : IpcReplySeal)
      (response : IpcEnvelope)
  | ipcReplyTransaction (server : ThreadId) (transaction : IpcTransactionId)
      (response : IpcEnvelope)
  | ipcReplyTransactionBound (server : ExecutionAuthority) (transaction : IpcTransactionId)
      (response : IpcEnvelope)
  | ipcTakeReply (caller : ThreadId)
  | ipcTakeReplyBound (caller : ExecutionAuthority)
  | ipcArmSendContinuation (caller : ThreadId) (epoch : AddressSpaceEpoch)
      (exchangeAddress : UInt64)
  | ipcTakeSendContinuation (caller : ThreadId) (expected : AddressSpaceEpoch)
  | ipcCancelSendContinuation (caller : ThreadId)
  | ipcArmReceiveContinuation (server : ThreadId) (epoch : AddressSpaceEpoch)
      (capability : CapabilityId) (exchangeAddress : UInt64) (deadlineNanoseconds : UInt64)
  | ipcTakeReceiveContinuation (server : ThreadId) (expected : AddressSpaceEpoch)
  | ipcCancelReceiveContinuation (server : ThreadId)
  | ipcExpireOneReceive (now : UInt64)
  | ipcTakeExpiredReceiveContinuation (now : UInt64)
  | ipcTakeDeadlineExpiry (thread : ThreadId)
  | interruptAttach (driver : ThreadId) (capability : CapabilityId)
  | interruptDetach (driver : ThreadId) (capability : CapabilityId)
  | interruptComplete (driver : ThreadId) (capability : CapabilityId)
  | dispatchInterrupt (source : InterruptSource)
  | takeDeliveredService (driver : ThreadId)
  | schedule (now : UInt64)
  | addressSpaceCreate (creator : ThreadId) (authority : CapabilityId)
  | addressSpaceBeginDestroy (owner : ThreadId) (space : CapabilityId)
  | addressSpaceCompleteDestroy (owner : ThreadId) (space : CapabilityId)
      (retiring : RetiringAddressSpaceEpoch)
  | memoryForCapability (holder : ThreadId) (capability : CapabilityId) (required : Rights)
  | mapAuthorize (caller : ThreadId) (request : MapSyscall)
  | unmapAuthorize (caller : ThreadId) (request : UnmapSyscall)
  | capability (op : CapabilityOp)

/-- What a call returns. -/
inductive Outcome where
  | unit (result : Result Unit)
  | flag (result : Result Bool)
  | torndown (result : Result Teardown)
  | thread (result : Result ThreadId)
  | endpoint (result : Result IpcEndpoint)
  | received (result : Result IpcReceived)
  | envelope (result : Result IpcEnvelope)
  | sendContinuation (result : Result IpcSendContinuation)
  | receiveContinuation (result : Result IpcReceiveContinuation)
  | dispatched (result : Result Dispatch)
  | service (result : Result Service)
  | decision (decision : Decision)
  | created (result : Result AddressSpaceCreation)
  | retiring (result : Result RetiringAddressSpaceEpoch)
  | admission (result : Result ThreadAdmission)
  | memory (result : Result MemoryGrant)
  | map (result : Result MapAuthorization)
  | unmap (result : Result UnmapAuthorization)
  | capability (outcome : CapabilityOutcome)
  deriving DecidableEq

namespace Kernel

/-- A call that reads the authorities but writes none of them. -/
def pure {α : Type} (env : Env) (wrap : α → Outcome) (done : Kernel × α) :
    (Kernel × Env) × Outcome :=
  ((done.1, env), wrap done.2)

def perform (env : Env) (k : Kernel) : Op → (Kernel × Env) × Outcome
  | .createThread thread priority => pure env .unit (k.createThread thread priority)
  | .createAdmittedThread thread priority => pure env .unit (k.createAdmittedThread thread priority)
  | .threadStart thread => pure env .unit (k.threadStart thread)
  | .threadAdmit creator space stack root =>
    let ((k, translations), admission) :=
      k.threadAdmit creator space stack root env.epochs env.translations env.executables
    ((k, { env with translations }), .admission admission)
  | .destroyThread thread => pure env .torndown (k.destroyThread thread)
  | .send sender target => pure env .unit (k.send sender target)
  | .receive self => pure env .thread (k.receive self)
  | .reply self caller => pure env .unit (k.reply self caller)
  | .yield self => pure env .unit (k.yield self)
  | .createIpcEndpoint server => pure env .endpoint (k.createIpcEndpoint server)
  | .retireIpcEndpoint server endpoint => pure env .unit (k.retireIpcEndpoint server endpoint)
  | .ipcSend caller capability request => pure env .unit (k.ipcSend caller capability request)
  | .ipcSendBound caller capability request =>
    pure env .unit (k.ipcSendBound caller capability request)
  | .ipcReceive server capability => pure env .received (k.ipcReceive server capability)
  | .ipcReceiveBound server capability => pure env .received (k.ipcReceiveBound server capability)
  | .ipcReply server replySeal response => pure env .unit (k.ipcReply server replySeal response)
  | .ipcReplyBound server replySeal response =>
    pure env .unit (k.ipcReplyBound server replySeal response)
  | .ipcReplyTransaction server transaction response =>
    pure env .unit (k.ipcReplyTransaction server transaction response)
  | .ipcReplyTransactionBound server transaction response =>
    pure env .unit (k.ipcReplyTransactionBound server transaction response)
  | .ipcTakeReply caller => pure env .envelope (k.ipcTakeReply caller)
  | .ipcTakeReplyBound caller => pure env .envelope (k.ipcTakeReplyBound caller)
  | .ipcArmSendContinuation caller epoch exchangeAddress =>
    pure env .unit (k.ipcArmSendContinuation caller epoch exchangeAddress env.epochs)
  | .ipcTakeSendContinuation caller expected =>
    pure env .sendContinuation (k.ipcTakeSendContinuation caller expected env.epochs)
  | .ipcCancelSendContinuation caller => pure env .unit (k.ipcCancelSendContinuation caller)
  | .ipcArmReceiveContinuation server epoch capability exchangeAddress deadline =>
    pure env .unit
      (k.ipcArmReceiveContinuation server epoch capability exchangeAddress env.epochs deadline)
  | .ipcTakeReceiveContinuation server expected =>
    pure env .receiveContinuation (k.ipcTakeReceiveContinuation server expected env.epochs)
  | .ipcCancelReceiveContinuation server => pure env .unit (k.ipcCancelReceiveContinuation server)
  | .ipcExpireOneReceive now => pure env .flag (k.ipcExpireOneReceive now)
  | .ipcTakeExpiredReceiveContinuation now =>
    pure env .receiveContinuation (k.ipcTakeExpiredReceiveContinuation now)
  | .ipcTakeDeadlineExpiry thread => pure env .flag (k.ipcTakeDeadlineExpiry thread)
  | .interruptAttach driver capability => pure env .unit (k.interruptAttach driver capability)
  | .interruptDetach driver capability => pure env .unit (k.interruptDetach driver capability)
  | .interruptComplete driver capability => pure env .flag (k.interruptComplete driver capability)
  | .dispatchInterrupt source => pure env .dispatched (k.dispatchInterrupt source)
  | .takeDeliveredService driver => pure env .service (k.takeDeliveredService driver)
  | .schedule now => pure env .decision (k.schedule now)
  | .addressSpaceCreate creator authority =>
    let ((k, epochs), created) := k.addressSpaceCreate creator authority env.epochs
    ((k, { env with epochs }), .created created)
  | .addressSpaceBeginDestroy owner space =>
    let (epochs, retiring) := k.addressSpaceBeginDestroy owner space env.epochs
    ((k, { env with epochs }), .retiring retiring)
  | .addressSpaceCompleteDestroy owner space retiring =>
    let ((k, epochs), completed) := k.addressSpaceCompleteDestroy owner space retiring env.epochs
    ((k, { env with epochs }), .unit completed)
  | .memoryForCapability holder capability required =>
    ((k, env), .memory (k.memoryForCapability holder capability required env.grants))
  | .mapAuthorize caller request =>
    ((k, env), .map (k.mapAuthorize caller request env.epochs env.grants env.executables))
  | .unmapAuthorize caller request =>
    ((k, env), .unmap (k.unmapAuthorize caller request env.epochs env.grants env.executables))
  | .capability op =>
    let (capabilities, outcome) := k.capabilities.step op
    (({ k with capabilities }, env), .capability outcome)

/-- One call as a run of the kernel alone sees it: whatever authorities the
caller passes, in whatever state they are by then. -/
def step (k : Kernel) (call : Env × Op) : Kernel × Outcome :=
  let ((k, _), outcome) := k.perform call.1 call.2
  (k, outcome)

end Kernel

/-- The kernel and the authorities it is given. -/
structure System where
  kernel : Kernel := {}
  env : Env := {}

/-- A kernel call, or one on the epochs or the grants beside it. -/
inductive SystemOp where
  | kernel (op : Op)
  | acquireEpoch
  | beginRetire (epoch : AddressSpaceEpoch)
  | completeRetire (retiring : RetiringAddressSpaceEpoch)
  | createGrant (physicalBase length : UInt64)
  | revokeGrant (identity : MemoryGrantIdentity)

inductive SystemOutcome where
  | kernel (outcome : Outcome)
  | epoch (result : Result AddressSpaceEpoch)
  | retiring (result : Result RetiringAddressSpaceEpoch)
  | unit (result : Result Unit)
  | grant (result : Result MemoryGrant)

def System.step (s : System) : SystemOp → System × SystemOutcome
  | .kernel op =>
    let ((kernel, env), outcome) := s.kernel.perform s.env op
    ({ kernel, env }, .kernel outcome)
  | .acquireEpoch =>
    let (epochs, acquired) := s.env.epochs.acquire
    ({ s with env := { s.env with epochs } }, .epoch acquired)
  | .beginRetire epoch =>
    let (epochs, begun) := s.env.epochs.beginRetire epoch
    ({ s with env := { s.env with epochs } }, .retiring begun)
  | .completeRetire retiring =>
    let (epochs, completed) := s.env.epochs.completeRetire retiring
    ({ s with env := { s.env with epochs } }, .unit completed)
  | .createGrant physicalBase length =>
    let (grants, created) := s.env.grants.create physicalBase length
    ({ s with env := { s.env with grants } }, .grant created)
  | .revokeGrant identity =>
    let (grants, revoked) := s.env.grants.revoke identity
    ({ s with env := { s.env with grants } }, .unit revoked)

end Enml.OsKernel
