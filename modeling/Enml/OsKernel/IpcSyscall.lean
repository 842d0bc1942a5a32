import Enml.OsKernel.Operation
import Enml.OsKernel.UserFrames

/-! The IPC system calls: decoding the registers, reading and writing the
caller's exchange frame, and the continuation that carries a sleeping call to
its completion. What the hardware does to user memory, and the clock, are
supplied by the machine. -/
namespace Enml.OsKernel

open Enml.Core

namespace IpcSyscallErrors
def invalidCapability : UInt32 := 240
def invalidExchange : UInt32 := 241
def invalidTransaction : UInt32 := 242
end IpcSyscallErrors

open IpcSyscallErrors

namespace IpcMachineErrors
def wrongThread : UInt32 := 270
def badSyscall : UInt32 := 271
def noReceiveCompletion : UInt32 := 274
end IpcMachineErrors

open IpcMachineErrors

namespace UserAccessErrors
def invalidRange : UInt32 := 200
def staleTranslation : UInt32 := 201
end UserAccessErrors

inductive KernelCall where
  | send | receive | reply | yield | threadExit | threadCreate
  | addressSpaceCreate | addressSpaceDestroy | map | unmap
  | interruptAttach | interruptDetach | interruptComplete
  | capabilityGrant | capabilityRevoke | faultSupply

def outcomeRegister : Fin 31 := 7
def outcomeAnswered : UInt64 := 0xC00C1EA511ED0001

/-- Both result registers are written, so no argument comes back as a result. -/
def answer (frame : ExceptionFrame) (x0 x1 : UInt64 := 0) : ExceptionFrame :=
  { frame with x := ((frame.x.set 0 x0).set 1 x1).set outcomeRegister outcomeAnswered }

structure IpcUserExchange where
  address : UInt64 := 0
  length : UInt64 := 0

structure IpcSendSyscall where
  endpointCapability : CapabilityId := invalidCapability
  request : IpcUserExchange := {}

structure IpcReceiveSyscall where
  endpointCapability : CapabilityId := invalidCapability
  exchangeAddress : UInt64 := 0
  deadlineNanoseconds : UInt64 := 0

def IpcReceiveSyscall.bounded (s : IpcReceiveSyscall) : Bool := s.deadlineNanoseconds != 0

structure IpcReplySyscall where
  transaction : IpcTransactionId := 0
  response : IpcUserExchange := {}

def decodeIpcSendSyscall (capability exchangeAddress requestLength : UInt64) :
    Result IpcSendSyscall :=
  if capability = 0 then .error (kernelError IpcSyscallErrors.invalidCapability)
  else if exchangeAddress = 0 ∨ maxIpcInlineBytes < requestLength.toNat then
    .error (kernelError invalidExchange)
  else
    .ok { endpointCapability := capability
          request := { address := exchangeAddress, length := requestLength } }

/-- Every deadline is accepted; zero asks for none. -/
def decodeIpcReceiveSyscall (capability exchangeAddress deadlineNanoseconds : UInt64) :
    Result IpcReceiveSyscall :=
  if capability = 0 then .error (kernelError IpcSyscallErrors.invalidCapability)
  else if exchangeAddress = 0 then .error (kernelError invalidExchange)
  else .ok { endpointCapability := capability, exchangeAddress, deadlineNanoseconds }

def decodeIpcReplySyscall (transaction exchangeAddress responseLength : UInt64) :
    Result IpcReplySyscall :=
  if transaction = 0 then .error (kernelError invalidTransaction)
  else if exchangeAddress = 0 ∨ maxIpcInlineBytes < responseLength.toNat then
    .error (kernelError invalidExchange)
  else .ok { transaction, response := { address := exchangeAddress, length := responseLength } }

def userAccessPageSize : UInt64 := 4096

structure UserRange where
  address : UInt64 := 0
  length : UInt64 := 0

/-- Not empty, not wrapping, and within one page. -/
def UserRange.valid (range : UserRange) : Bool :=
  range.address != 0 && range.length != 0 && decide (range.length ≤ userAccessPageSize) &&
    decide (range.address ≤ 0xFFFFFFFFFFFFFFFF - range.length) &&
    range.address / userAccessPageSize ==
      (range.address + range.length - 1) / userAccessPageSize

inductive UserAccessIntent where
  | readFromUser | writeToUser

structure UserAccessTicket where
  thread : ThreadId := invalidThread
  epoch : AddressSpaceEpoch := {}
  rootPhysical : UInt64 := 0
  range : UserRange := {}
  intent : UserAccessIntent := .readFromUser

/-- What the processor and the clock answer while a call is served. -/
structure UserMachine where
  copyFromUserCurrent : UserAccessTicket → Result (List UInt8)
  copyToUserCurrent : UserAccessTicket → IpcEnvelope → Result Unit
  monotonicNanoseconds : UInt64

def ticketFromBinding (binding : ProcessTranslationBinding) (range : UserRange)
    (intent : UserAccessIntent) : Result UserAccessTicket :=
  if !binding.valid then .error (kernelError UserAccessErrors.staleTranslation)
  else if !range.valid then .error (kernelError UserAccessErrors.invalidRange)
  else
    .ok { thread := binding.thread, epoch := binding.epoch, rootPhysical := binding.rootPhysical,
          range, intent }

def currentBinding (current : ThreadId) (env : Env) : Result ProcessTranslationBinding :=
  if current = invalidThread then .error (kernelError wrongThread)
  else env.translations.resolve current env.epochs

def readEnvelope (machine : UserMachine) (binding : ProcessTranslationBinding)
    (exchange : IpcUserExchange) : Result IpcEnvelope :=
  if exchange.length = 0 then .ok {}
  else if maxIpcInlineBytes < exchange.length.toNat then
    .error (kernelError IpcErrors.payloadTooLarge)
  else do
    let ticket ← ticketFromBinding binding
      { address := exchange.address, length := exchange.length } .readFromUser
    let copied ← machine.copyFromUserCurrent ticket
    return { bytes := Vector.ofFn fun i => (copied.take exchange.length.toNat).getD i 0
             size := exchange.length.toUInt8 }

def writeEnvelope (machine : UserMachine) (binding : ProcessTranslationBinding)
    (address : UInt64) (envelope : IpcEnvelope) : Result Unit :=
  if envelope.size = 0 then .ok ()
  else do
    let ticket ← ticketFromBinding binding { address, length := envelope.size.toUInt64 }
      .writeToUser
    machine.copyToUserCurrent ticket envelope

structure IpcSvcResult where
  reschedule : Bool := false
  completed : Bool := false
  deriving DecidableEq

/-- The absolute deadline of a receive, saturating at the end of the clock. -/
def absoluteDeadline (now : UInt64) (call : IpcReceiveSyscall) : UInt64 :=
  if !call.bounded then 0
  else if 0xFFFFFFFFFFFFFFFF - call.deadlineNanoseconds < now then 0xFFFFFFFFFFFFFFFF
  else now + call.deadlineNanoseconds

namespace Kernel

/-- The send call: the continuation is armed first and given up when the send
is refused. -/
def svcSend (k : Kernel) (current : ThreadId) (frame : ExceptionFrame) (env : Env)
    (machine : UserMachine) (binding : ProcessTranslationBinding) :
    (ExceptionFrame × Kernel) × Result IpcSvcResult :=
  match decodeIpcSendSyscall frame.x[0] frame.x[1] frame.x[2] with
  | .error e => ((frame, k), .error e)
  | .ok decoded =>
    match readEnvelope machine binding decoded.request with
    | .error e => ((frame, k), .error e)
    | .ok envelope =>
      match k.ipcArmSendContinuation current binding.epoch decoded.request.address env.epochs with
      | (k, .error e) => ((frame, k), .error e)
      | (k, .ok ()) =>
        match k.ipcSend current decoded.endpointCapability envelope with
        | (k, .error e) => ((frame, (k.ipcCancelSendContinuation current).1), .error e)
        | (k, .ok ()) => ((frame, k), .ok { reschedule := true, completed := false })

/-- The receive call: a message that is there already completes it at once. -/
def svcReceive (k : Kernel) (current : ThreadId) (frame : ExceptionFrame) (env : Env)
    (machine : UserMachine) (binding : ProcessTranslationBinding) :
    (ExceptionFrame × Kernel) × Result IpcSvcResult :=
  match decodeIpcReceiveSyscall frame.x[0] frame.x[1] frame.x[2] with
  | .error e => ((frame, k), .error e)
  | .ok decoded =>
    match k.ipcArmReceiveContinuation current binding.epoch decoded.endpointCapability
        decoded.exchangeAddress env.epochs
        (absoluteDeadline machine.monotonicNanoseconds decoded) with
    | (k, .error e) => ((frame, k), .error e)
    | (k, .ok ()) =>
      match k.ipcReceive current decoded.endpointCapability with
      | (k, .error e) => ((frame, (k.ipcCancelReceiveContinuation current).1), .error e)
      | (k, .ok received) =>
        if !received.valid then
          ((frame, k), .ok { reschedule := true, completed := false })
        else
          let k := (k.ipcCancelReceiveContinuation current).1
          match writeEnvelope machine binding decoded.exchangeAddress received.request with
          | .error e => ((frame, k), .error e)
          | .ok () =>
            ((answer frame received.reply.transaction received.request.size.toUInt64, k),
              .ok { reschedule := false, completed := true })

def svcReply (k : Kernel) (current : ThreadId) (frame : ExceptionFrame)
    (machine : UserMachine) (binding : ProcessTranslationBinding) :
    (ExceptionFrame × Kernel) × Result IpcSvcResult :=
  match decodeIpcReplySyscall frame.x[0] frame.x[1] frame.x[2] with
  | .error e => ((frame, k), .error e)
  | .ok decoded =>
    match readEnvelope machine binding decoded.response with
    | .error e => ((frame, k), .error e)
    | .ok response =>
      match k.ipcReplyTransaction current decoded.transaction response with
      | (k, .error e) => ((frame, k), .error e)
      | (k, .ok ()) => ((answer frame, k), .ok { reschedule := true, completed := true })

def dispatchIpcSvcCurrent (k : Kernel) (current : ThreadId) (call : KernelCall)
    (frame : ExceptionFrame) (env : Env) (machine : UserMachine) :
    (ExceptionFrame × Kernel) × Result IpcSvcResult :=
  match currentBinding current env with
  | .error e => ((frame, k), .error e)
  | .ok binding =>
    match call with
    | .send => k.svcSend current frame env machine binding
    | .receive => k.svcReceive current frame env machine binding
    | .reply => k.svcReply current frame machine binding
    | _ => ((frame, k), .error (kernelError badSyscall))

/-- Collect the message a sleeping receive was woken for. -/
def completeReceive (k : Kernel) (current : ThreadId) (frame : ExceptionFrame) (env : Env)
    (machine : UserMachine) (binding : ProcessTranslationBinding) :
    (ExceptionFrame × Kernel) × Result Bool :=
  match k.ipcTakeReceiveContinuation current binding.epoch env.epochs with
  | (k, .error e) => ((frame, k), .error e)
  | (k, .ok continuation) =>
    match k.ipcReceive current continuation.endpointCapability with
    | (k, .error _) => ((frame, k), .error (kernelError noReceiveCompletion))
    | (k, .ok received) =>
      if !received.valid then
        ((frame, k), .error (kernelError noReceiveCompletion))
      else
        match writeEnvelope machine binding continuation.exchangeAddress received.request with
        | .error e => ((frame, k), .error e)
        | .ok () =>
          ((answer frame received.reply.transaction received.request.size.toUInt64, k), .ok true)

/-- Collect the reply a sleeping send was woken for. -/
def completeSend (k : Kernel) (current : ThreadId) (frame : ExceptionFrame) (env : Env)
    (machine : UserMachine) (binding : ProcessTranslationBinding) :
    (ExceptionFrame × Kernel) × Result Bool :=
  match k.ipcTakeReply current with
  | (k, .error e) =>
    if e.domain = .kernel ∧ e.code = IpcErrors.replyUnavailable then ((frame, k), .ok false)
    else ((frame, k), .error e)
  | (k, .ok response) =>
    match k.ipcTakeSendContinuation current binding.epoch env.epochs with
    | (k, .error e) => ((frame, k), .error e)
    | (k, .ok continuation) =>
      match writeEnvelope machine binding continuation.exchangeAddress response with
      | .error e => ((frame, k), .error e)
      | .ok () => ((answer frame response.size.toUInt64, k), .ok true)

/-- Run before a thread returns to user mode: finish whichever call it slept in. -/
def completeIpcCurrent (k : Kernel) (current : ThreadId) (frame : ExceptionFrame) (env : Env)
    (machine : UserMachine) : (ExceptionFrame × Kernel) × Result Bool :=
  match currentBinding current env with
  | .error e => ((frame, k), .error e)
  | .ok binding =>
    match k.ipcTakeDeadlineExpiry current with
    | (k, .error e) => ((frame, k), .error e)
    | (k, .ok true) => ((answer frame, k), .ok true)
    | (k, .ok false) =>
      if k.ipcContinuations.receiveArmed current then
        k.completeReceive current frame env machine binding
      else k.completeSend current frame env machine binding

end Kernel

end Enml.OsKernel
