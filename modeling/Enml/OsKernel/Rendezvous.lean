import Enml.Core.Result
import Enml.Lib.SlotTable

/-! `Rendezvous`: the thread states and partner relations of synchronous IPC.
Payloads, endpoint identity and reply seals are kept in other tables. -/
namespace Enml.OsKernel

open Enml.Core

def maxThreads : Nat := 64

abbrev ThreadId := UInt32

def invalidThread : ThreadId := 0

abbrev Priority := UInt8

def defaultPriority : Priority := 0

namespace RendezvousErrors
def invalidThreadId : UInt32 := 1
def unknownThread : UInt32 := 2
def threadExists : UInt32 := 3
def threadLimit : UInt32 := 4
def notRunnable : UInt32 := 5
def selfAddressed : UInt32 := 6
def notAwaitingReply : UInt32 := 7
def notWaitingOnPeer : UInt32 := 9
end RendezvousErrors

open RendezvousErrors

/-- `admitted` is a thread without architectural state. It is a state of its
own because the run queue is recomputed from this value. -/
inductive ThreadState where
  | ready | sendBlocked | replyBlocked | receiveBlocked | exited | admitted
  deriving DecidableEq

inductive WakeReason where
  | none | replied | peerExited | endpointRetired | deadlineExpired
  deriving DecidableEq

/-- A thread: whom it waits for, and why it last woke. -/
structure Rendezvous.Slot where
  thread : ThreadId := invalidThread
  state : ThreadState := .exited
  partner : ThreadId := invalidThread
  wake : WakeReason := .none
  base : Priority := defaultPriority
  occupied : Bool := false

/-- A free slot has no key, whatever thread id it still carries. -/
def Rendezvous.Slot.key (s : Rendezvous.Slot) : Option ThreadId :=
  if s.occupied then some s.thread else none

/-- Every thread, with what it waits for. -/
structure Rendezvous where
  slots : List Rendezvous.Slot := List.replicate maxThreads {}
  occupied : Nat := 0

namespace Rendezvous

def find (r : Rendezvous) (thread : ThreadId) : Option Slot :=
  if thread = invalidThread then none else SlotTable.lookup Slot.key thread r.slots

/-- Write through the pointer `find` returns. -/
def modify (r : Rendezvous) (thread : ThreadId) (f : Slot → Slot) : Rendezvous :=
  { r with slots := SlotTable.modify Slot.key thread f r.slots }

/-- A caller waiting on `thread`, in the sense priority inheritance uses. -/
def Slot.waitingOn (other : Slot) (thread : ThreadId) : Bool :=
  (other.state == .sendBlocked || other.state == .replyBlocked) && other.partner == thread

/-- A thread `exit_thread` has to release. A blocked receiver counts here. -/
def Slot.blockedOn (other : Slot) (thread : ThreadId) : Bool :=
  (other.state == .sendBlocked || other.state == .replyBlocked ||
    other.state == .receiveBlocked) && other.partner == thread

def raisePriority (thread : ThreadId) (highest : Priority) (other : Slot) : Priority :=
  if !other.occupied || other.thread == thread then highest
  else if other.waitingOn thread && decide (highest < other.base) then other.base
  else highest

def inheritedPriority (r : Rendezvous) (thread : ThreadId) : Priority :=
  match r.find thread with
  | none => defaultPriority
  | some slot => r.slots.foldl (raisePriority thread) slot.base

def effectivePriorityOf (r : Rendezvous) (thread : ThreadId) : Result Priority :=
  if (r.find thread).isNone then .error (kernelError unknownThread)
  else .ok (r.inheritedPriority thread)

def basePriorityOf (r : Rendezvous) (thread : ThreadId) : Result Priority :=
  match r.find thread with
  | none => .error (kernelError unknownThread)
  | some slot => .ok slot.base

/-- The two creation calls differ only in the state they store. -/
def createIn (state : ThreadState) (r : Rendezvous) (thread : ThreadId) (priority : Priority) :
    Rendezvous × Result Unit :=
  if thread = invalidThread then (r, .error (kernelError invalidThreadId))
  else if (r.find thread).isSome then (r, .error (kernelError threadExists))
  else
    match SlotTable.insert Slot.key
        { thread, state, partner := invalidThread, wake := .none, base := priority,
          occupied := true } r.slots with
    | some slots => ({ slots, occupied := r.occupied + 1 }, .ok ())
    | none => (r, .error (kernelError threadLimit))

def createThread : Rendezvous → ThreadId → Priority → Rendezvous × Result Unit := createIn .ready

def createAdmittedThread : Rendezvous → ThreadId → Priority → Rendezvous × Result Unit :=
  createIn .admitted

def startThread (r : Rendezvous) (thread : ThreadId) : Rendezvous × Result Unit :=
  match r.find thread with
  | none => (r, .error (kernelError unknownThread))
  | some slot =>
    if slot.state ≠ .admitted then (r, .error (kernelError notRunnable))
    else (r.modify thread fun s => { s with state := .ready }, .ok ())

/-- What the release loop of `exit_thread` does to one other slot. -/
def Slot.release (thread : ThreadId) (other : Slot) : Slot :=
  if other.occupied && other.thread != thread && other.blockedOn thread then
    { other with state := .ready, partner := invalidThread, wake := .peerExited }
  else other

def Slot.vacate (slot : Slot) : Slot :=
  { slot with state := .exited, partner := invalidThread, wake := .none, occupied := false }

def exitThread (r : Rendezvous) (thread : ThreadId) : Rendezvous × Result Nat :=
  match r.find thread with
  | none => (r, .error (kernelError unknownThread))
  | some _ =>
    let released := r.slots.countP fun other =>
      other.occupied && other.thread != thread && other.blockedOn thread
    ({ slots := SlotTable.modify Slot.key thread Slot.vacate (r.slots.map (Slot.release thread))
       occupied := r.occupied - 1 }, .ok released)

def blockSend (r : Rendezvous) (sender target : ThreadId) : Rendezvous × Result Unit :=
  if sender = invalidThread ∨ target = invalidThread then
    (r, .error (kernelError invalidThreadId))
  else if sender = target then (r, .error (kernelError selfAddressed))
  else
    match r.find sender, r.find target with
    | some from_, some _ =>
      if from_.state ≠ .ready then (r, .error (kernelError notRunnable))
      else
        (r.modify sender fun s =>
          { s with wake := .none, state := .sendBlocked, partner := target }, .ok ())
    | _, _ => (r, .error (kernelError unknownThread))

def waitReceive (r : Rendezvous) (self : ThreadId) : Rendezvous × Result Unit :=
  if self = invalidThread then (r, .error (kernelError invalidThreadId))
  else
    match r.find self with
    | none => (r, .error (kernelError unknownThread))
    | some receiver =>
      if receiver.state ≠ .ready ∨ receiver.partner ≠ invalidThread then
        (r, .error (kernelError notRunnable))
      else
        (r.modify self fun s => { s with wake := .none, state := .receiveBlocked }, .ok ())

def deliverWaitingReceiver (r : Rendezvous) (sender target : ThreadId) : Rendezvous × Result Unit :=
  if sender = invalidThread ∨ target = invalidThread then
    (r, .error (kernelError invalidThreadId))
  else if sender = target then (r, .error (kernelError selfAddressed))
  else
    match r.find sender, r.find target with
    | some from_, some receiver =>
      if from_.state ≠ .ready then (r, .error (kernelError notRunnable))
      else if receiver.state ≠ .receiveBlocked ∨ receiver.partner ≠ invalidThread then
        (r, .error (kernelError notWaitingOnPeer))
      else
        ((r.modify sender fun s =>
            { s with wake := .none, state := .replyBlocked, partner := target }).modify target
          fun s => { s with state := .ready, partner := sender }, .ok ())
    | _, _ => (r, .error (kernelError unknownThread))

def acceptSender (r : Rendezvous) (self caller : ThreadId) : Rendezvous × Result Unit :=
  if self = invalidThread ∨ caller = invalidThread then
    (r, .error (kernelError invalidThreadId))
  else if self = caller then (r, .error (kernelError selfAddressed))
  else
    match r.find self, r.find caller with
    | some receiver, some sender =>
      if receiver.state ≠ .ready then (r, .error (kernelError notRunnable))
      else if sender.state ≠ .sendBlocked ∨ sender.partner ≠ self then
        (r, .error (kernelError notWaitingOnPeer))
      else
        ((r.modify self fun s => { s with wake := .none }).modify caller
          fun s => { s with state := .replyBlocked }, .ok ())
    | _, _ => (r, .error (kernelError unknownThread))

/-- Endpoint retirement and deadline expiry share this transition and store
different wake reasons. -/
def endReceive (wake : WakeReason) (r : Rendezvous) (self : ThreadId) : Rendezvous × Result Unit :=
  if self = invalidThread then (r, .error (kernelError invalidThreadId))
  else
    match r.find self with
    | none => (r, .error (kernelError unknownThread))
    | some receiver =>
      if receiver.state ≠ .receiveBlocked ∨ receiver.partner ≠ invalidThread then
        (r, .error (kernelError notWaitingOnPeer))
      else (r.modify self fun s => { s with state := .ready, wake := wake }, .ok ())

def cancelReceive : Rendezvous → ThreadId → Rendezvous × Result Unit := endReceive .endpointRetired

def expireReceive : Rendezvous → ThreadId → Rendezvous × Result Unit := endReceive .deadlineExpired

def takeDeadlineExpiry (r : Rendezvous) (self : ThreadId) : Rendezvous × Result Bool :=
  if self = invalidThread then (r, .error (kernelError invalidThreadId))
  else
    match r.find self with
    | none => (r, .error (kernelError unknownThread))
    | some slot =>
      if slot.wake ≠ .deadlineExpired then (r, .ok false)
      else (r.modify self fun s => { s with wake := .none }, .ok true)

def send (r : Rendezvous) (sender target : ThreadId) : Rendezvous × Result Unit :=
  match r.find target with
  | some slot =>
    if slot.state = .receiveBlocked ∧ slot.partner = invalidThread then
      r.deliverWaitingReceiver sender target
    else r.blockSend sender target
  | none => r.blockSend sender target

/-- The wake reason is cleared before anything below can be refused, so a
failed `receive` is not always without effect on the table. -/
def receive (r : Rendezvous) (self : ThreadId) : Rendezvous × Result ThreadId :=
  if self = invalidThread then (r, .error (kernelError invalidThreadId))
  else
    match r.find self with
    | none => (r, .error (kernelError unknownThread))
    | some receiver =>
      if receiver.state ≠ .ready then (r, .error (kernelError notRunnable))
      else
        let r := r.modify self fun s => { s with wake := .none }
        if receiver.partner ≠ invalidThread then
          (r.modify self fun s => { s with partner := invalidThread }, .ok receiver.partner)
        else
          match r.slots.find? fun s =>
              s.occupied && s.state == .sendBlocked && s.partner == self with
          | some slot =>
            match r.acceptSender self slot.thread with
            | (r, .error e) => (r, .error e)
            | (r, .ok ()) => (r, .ok slot.thread)
          | none =>
            match r.waitReceive self with
            | (r, .error e) => (r, .error e)
            | (r, .ok ()) => (r, .ok invalidThread)

def reply (r : Rendezvous) (self caller : ThreadId) : Rendezvous × Result Unit :=
  if self = invalidThread ∨ caller = invalidThread then
    (r, .error (kernelError invalidThreadId))
  else if self = caller then (r, .error (kernelError selfAddressed))
  else
    match r.find self, r.find caller with
    | some _, some client =>
      if client.state ≠ .replyBlocked ∨ client.partner ≠ self then
        (r, .error (kernelError notAwaitingReply))
      else
        (r.modify caller fun s =>
          { s with state := .ready, partner := invalidThread, wake := .replied }, .ok ())
    | _, _ => (r, .error (kernelError unknownThread))

/-- Release a caller blocked on exactly `expectedServer`. A delivery the server
has not collected yet is withdrawn with it. -/
def cancelCall (r : Rendezvous) (caller expectedServer : ThreadId) : Rendezvous × Result Unit :=
  if caller = invalidThread ∨ expectedServer = invalidThread then
    (r, .error (kernelError invalidThreadId))
  else
    match r.find caller, r.find expectedServer with
    | some client, some _ =>
      if !client.waitingOn expectedServer then
        (r, .error (kernelError notWaitingOnPeer))
      else
        let r := r.modify caller fun s =>
          { s with state := .ready, partner := invalidThread, wake := .endpointRetired }
        (r.modify expectedServer fun s =>
          if s.state = .ready ∧ s.partner = caller then { s with partner := invalidThread }
          else s, .ok ())
    | _, _ => (r, .error (kernelError unknownThread))

def stateOf (r : Rendezvous) (thread : ThreadId) : Result ThreadState :=
  match r.find thread with
  | none => .error (kernelError unknownThread)
  | some slot => .ok slot.state

def partnerOf (r : Rendezvous) (thread : ThreadId) : Result ThreadId :=
  match r.find thread with
  | none => .error (kernelError unknownThread)
  | some slot => .ok slot.partner

end Rendezvous

end Enml.OsKernel
