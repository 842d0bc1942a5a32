import Enml.OsKernel.Capability

/-! `IpcContinuationTable`: where a sleeping send or receive will write its
result. One slot per thread and direction; deadlines are absolute. -/
namespace Enml.OsKernel

open Enml.Core SlotTable

namespace IpcContinuationErrors
def invalidThread : UInt32 := 250
def invalidEpoch : UInt32 := 251
def invalidExchange : UInt32 := 252
def alreadyArmed : UInt32 := 253
def exhausted : UInt32 := 254
def notArmed : UInt32 := 255
def stale : UInt32 := 256
def invalidCapability : UInt32 := 257
end IpcContinuationErrors

open IpcContinuationErrors

structure IpcSendContinuation where
  caller : ThreadId := invalidThread
  epoch : AddressSpaceEpoch := {}
  exchangeAddress : UInt64 := 0
  deriving DecidableEq

/-- What a sleeping server needs to finish its receive. -/
structure IpcReceiveContinuation where
  server : ThreadId := invalidThread
  epoch : AddressSpaceEpoch := {}
  endpointCapability : CapabilityId := invalidCapability
  exchangeAddress : UInt64 := 0
  deadlineNanoseconds : UInt64 := 0
  deriving DecidableEq

namespace IpcReceiveContinuation

def bounded (c : IpcReceiveContinuation) : Bool := c.deadlineNanoseconds != 0

def expiredAt (c : IpcReceiveContinuation) (now : UInt64) : Bool :=
  c.bounded && decide (c.deadlineNanoseconds ≤ now)

end IpcReceiveContinuation

structure IpcContinuationTable.SendSlot where
  occupied : Bool := false
  continuation : IpcSendContinuation := {}

structure IpcContinuationTable.ReceiveSlot where
  occupied : Bool := false
  continuation : IpcReceiveContinuation := {}
  deriving DecidableEq

def IpcContinuationTable.SendSlot.key (s : IpcContinuationTable.SendSlot) : Option ThreadId :=
  if s.occupied then some s.continuation.caller else none

def IpcContinuationTable.ReceiveSlot.key (s : IpcContinuationTable.ReceiveSlot) : Option ThreadId :=
  if s.occupied then some s.continuation.server else none

/-- The sends and receives that sleep. -/
structure IpcContinuationTable where
  sendSlots : List IpcContinuationTable.SendSlot := List.replicate maxThreads {}
  receiveSlots : List IpcContinuationTable.ReceiveSlot := List.replicate maxThreads {}
  occupied : Nat := 0

namespace IpcContinuationTable

def sendSlotFor (t : IpcContinuationTable) (caller : ThreadId) : Option SendSlot :=
  if caller = invalidThread then none else lookup SendSlot.key caller t.sendSlots

def receiveSlotFor (t : IpcContinuationTable) (server : ThreadId) : Option ReceiveSlot :=
  if server = invalidThread then none
  else lookup ReceiveSlot.key server t.receiveSlots

def sendArmed (t : IpcContinuationTable) (caller : ThreadId) : Bool := (t.sendSlotFor caller).isSome

def receiveArmed (t : IpcContinuationTable) (server : ThreadId) : Bool :=
  (t.receiveSlotFor server).isSome

def clearSend (t : IpcContinuationTable) (caller : ThreadId) : IpcContinuationTable :=
  { t with
    sendSlots := modify SendSlot.key caller (fun _ => {}) t.sendSlots
    occupied := t.occupied - 1 }

def clearReceive (t : IpcContinuationTable) (server : ThreadId) : IpcContinuationTable :=
  { t with
    receiveSlots := modify ReceiveSlot.key server (fun _ => {}) t.receiveSlots
    occupied := t.occupied - 1 }

def arm (t : IpcContinuationTable) (caller : ThreadId) (epoch : AddressSpaceEpoch)
    (exchangeAddress : UInt64) (epochs : AddressSpaceEpochAuthority) :
    IpcContinuationTable × Result Unit :=
  if caller = OsKernel.invalidThread then
    (t, .error (kernelError IpcContinuationErrors.invalidThread))
  else if !epoch.valid || !epochs.active epoch then
    (t, .error (kernelError invalidEpoch))
  else if exchangeAddress = 0 then
    (t, .error (kernelError invalidExchange))
  else if (t.sendSlotFor caller).isSome then
    (t, .error (kernelError alreadyArmed))
  else
    match insert SendSlot.key
        { occupied := true, continuation := { caller, epoch, exchangeAddress } } t.sendSlots with
    | some sendSlots => ({ t with sendSlots, occupied := t.occupied + 1 }, .ok ())
    | none => (t, .error (kernelError exhausted))

/-- The slot is given up before the epoch is compared, so a stale take still
leaves the thread disarmed. -/
def take (t : IpcContinuationTable) (caller : ThreadId) (expected : AddressSpaceEpoch)
    (epochs : AddressSpaceEpochAuthority) : IpcContinuationTable × Result IpcSendContinuation :=
  match t.sendSlotFor caller with
  | none => (t, .error (kernelError notArmed))
  | some slot =>
    if !expected.valid || !epochs.active expected || slot.continuation.epoch != expected then
      (t.clearSend caller, .error (kernelError stale))
    else (t.clearSend caller, .ok slot.continuation)

def cancel (t : IpcContinuationTable) (caller : ThreadId) : IpcContinuationTable × Result Unit :=
  match t.sendSlotFor caller with
  | none => (t, .error (kernelError notArmed))
  | some _ => (t.clearSend caller, .ok ())

def armReceive (t : IpcContinuationTable) (server : ThreadId) (epoch : AddressSpaceEpoch)
    (endpointCapability : CapabilityId) (exchangeAddress : UInt64)
    (epochs : AddressSpaceEpochAuthority) (deadlineNanoseconds : UInt64) :
    IpcContinuationTable × Result Unit :=
  if server = OsKernel.invalidThread then
    (t, .error (kernelError IpcContinuationErrors.invalidThread))
  else if !epoch.valid || !epochs.active epoch then
    (t, .error (kernelError invalidEpoch))
  else if endpointCapability = OsKernel.invalidCapability then
    (t, .error (kernelError IpcContinuationErrors.invalidCapability))
  else if exchangeAddress = 0 then
    (t, .error (kernelError invalidExchange))
  else if (t.receiveSlotFor server).isSome then
    (t, .error (kernelError alreadyArmed))
  else
    match insert ReceiveSlot.key
        { occupied := true
          continuation :=
            { server, epoch, endpointCapability, exchangeAddress, deadlineNanoseconds } }
        t.receiveSlots with
    | some receiveSlots => ({ t with receiveSlots, occupied := t.occupied + 1 }, .ok ())
    | none => (t, .error (kernelError exhausted))

def takeReceive (t : IpcContinuationTable) (server : ThreadId) (expected : AddressSpaceEpoch)
    (epochs : AddressSpaceEpochAuthority) :
    IpcContinuationTable × Result IpcReceiveContinuation :=
  match t.receiveSlotFor server with
  | none => (t, .error (kernelError notArmed))
  | some slot =>
    if !expected.valid || !epochs.active expected || slot.continuation.epoch != expected then
      (t.clearReceive server, .error (kernelError stale))
    else (t.clearReceive server, .ok slot.continuation)

def earliestReceiveDeadline (t : IpcContinuationTable) : UInt64 :=
  t.receiveSlots.foldl (fun earliest slot =>
    if !slot.occupied || !slot.continuation.bounded then earliest
    else if earliest = 0 ∨ slot.continuation.deadlineNanoseconds < earliest then
      slot.continuation.deadlineNanoseconds
    else earliest) 0

/-- Ties go to the lowest thread id, not to the position in the table. -/
def preferExpired (now : UInt64) (chosen : Option ReceiveSlot) (slot : ReceiveSlot) :
    Option ReceiveSlot :=
  if !slot.occupied || !slot.continuation.expiredAt now then chosen
  else
    match chosen with
    | none => some slot
    | some best =>
      if slot.continuation.server < best.continuation.server then some slot else some best

def expiredReceive (t : IpcContinuationTable) (now : UInt64) : Option ReceiveSlot :=
  t.receiveSlots.foldl (preferExpired now) none

def takeExpiredReceive (t : IpcContinuationTable) (now : UInt64) :
    IpcContinuationTable × Result IpcReceiveContinuation :=
  match t.expiredReceive now with
  | none => (t, .error (kernelError notArmed))
  | some chosen =>
    ({ t with
        receiveSlots := updateFirst (fun slot => slot == chosen) (fun _ => {})
          t.receiveSlots
        occupied := t.occupied - 1 }, .ok chosen.continuation)

def cancelReceive (t : IpcContinuationTable) (server : ThreadId) :
    IpcContinuationTable × Result Unit :=
  match t.receiveSlotFor server with
  | none => (t, .error (kernelError notArmed))
  | some _ => (t.clearReceive server, .ok ())

def releaseThread (t : IpcContinuationTable) (thread : ThreadId) : IpcContinuationTable :=
  let t := if (t.sendSlotFor thread).isSome then t.clearSend thread else t
  if (t.receiveSlotFor thread).isSome then t.clearReceive thread else t

end IpcContinuationTable

end Enml.OsKernel
