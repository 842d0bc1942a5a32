import Enml.OsKernel.Capability

/-! `IpcEndpointTable`: endpoint lifetimes, pending calls, reply seals and
completed replies. The blocking itself is done by the rendezvous, which every
operation here receives and gives back. -/
namespace Enml.OsKernel

open Enml.Core SlotTable

abbrev IpcEndpointSlot := UInt16
abbrev IpcEndpointGeneration := UInt32
abbrev IpcTransactionId := UInt64

def maxIpcEndpoints : Nat := 64
def maxIpcReplySeals : Nat := maxThreads
def maxIpcPendingCalls : Nat := maxThreads
def maxIpcInlineBytes : Nat := 64

def ipcRightSend : Rights := 1
def ipcRightReceive : Rights := 2

/-- The name of an endpoint, good for one lifetime of its slot. -/
structure IpcEndpoint where
  slot : IpcEndpointSlot := 0
  generation : IpcEndpointGeneration := 0
  deriving DecidableEq

def IpcEndpoint.valid (e : IpcEndpoint) : Bool := e.generation != 0

def ipcObjectTag : ObjectId := 0xC1C0000000000000
def ipcObjectTagMask : ObjectId := 0xFFFF000000000000
def ipcObjectGenerationMask : ObjectId := 0x0000FFFFFFFF0000
def ipcObjectSlotMask : ObjectId := 0x000000000000FFFF

def ipcObjectId (e : IpcEndpoint) : ObjectId :=
  if !e.valid || decide (maxIpcEndpoints ≤ e.slot.toNat) then invalidObject
  else ipcObjectTag ||| (e.generation.toUInt64 <<< 16) ||| (e.slot.toUInt64 + 1)

/-- The bytes of one message. -/
structure IpcEnvelope where
  bytes : Vector UInt8 maxIpcInlineBytes := Vector.replicate _ 0
  size : UInt8 := 0
  deriving DecidableEq

def IpcEnvelope.valid (e : IpcEnvelope) : Bool := decide (e.size.toNat ≤ maxIpcInlineBytes)

/-- The right to answer one call, once. -/
structure IpcReplySeal where
  endpoint : IpcEndpoint := {}
  transaction : IpcTransactionId := 0
  caller : ThreadId := invalidThread
  server : ThreadId := invalidThread
  callerAddressSpace : AddressSpaceIdentity := {}
  serverAddressSpace : AddressSpaceIdentity := {}
  deriving DecidableEq

def IpcReplySeal.valid (s : IpcReplySeal) : Bool :=
  s.endpoint.valid && s.transaction != 0 && s.caller != invalidThread && s.server != invalidThread

/-- A call as its server gets it. -/
structure IpcReceived where
  caller : ThreadId := invalidThread
  reply : IpcReplySeal := {}
  request : IpcEnvelope := {}
  deriving DecidableEq

def IpcReceived.valid (r : IpcReceived) : Bool :=
  r.caller != invalidThread && r.reply.valid && r.reply.caller == r.caller && r.request.valid

namespace IpcErrors
def invalidEndpoint : UInt32 := 160
def endpointLimit : UInt32 := 161
def staleEndpoint : UInt32 := 162
def notEndpointOwner : UInt32 := 163
def invalidCapability : UInt32 := 164
def wrongRights : UInt32 := 165
def replySealLimit : UInt32 := 166
def staleReplySeal : UInt32 := 167
def wrongReplyServer : UInt32 := 168
def transactionExhausted : UInt32 := 169
def pendingCallLimit : UInt32 := 170
def pendingCallMissing : UInt32 := 171
def payloadTooLarge : UInt32 := 172
def replyUnavailable : UInt32 := 173
def receiveAlreadyWaiting : UInt32 := 174
end IpcErrors

open IpcErrors

namespace IpcEndpointTable

/-- An endpoint and whether its server waits on it. -/
structure EndpointSlot where
  server : ThreadId := invalidThread
  generation : IpcEndpointGeneration := 0
  active : Bool := false
  receiveWaiting : Bool := false
  deriving DecidableEq

/-- A seal the server has not yet used. -/
structure ReplySlot where
  replySeal : IpcReplySeal := {}
  active : Bool := false

/-- A call that has been sent and not yet answered. -/
structure PendingSlot where
  endpoint : IpcEndpoint := {}
  caller : ThreadId := invalidThread
  server : ThreadId := invalidThread
  callerAddressSpace : AddressSpaceIdentity := {}
  request : IpcEnvelope := {}
  active : Bool := false
  deriving DecidableEq

/-- A reply kept until its caller takes it. -/
structure CompletedSlot where
  caller : ThreadId := invalidThread
  callerAddressSpace : AddressSpaceIdentity := {}
  response : IpcEnvelope := {}
  active : Bool := false

/-- Transactions identify seals; the other two tables are keyed by caller. -/
def ReplySlot.key (s : ReplySlot) : Option IpcTransactionId :=
  if s.active then some s.replySeal.transaction else none

def PendingSlot.key (s : PendingSlot) : Option ThreadId := if s.active then some s.caller else none

def CompletedSlot.key (s : CompletedSlot) : Option ThreadId :=
  if s.active then some s.caller else none

end IpcEndpointTable

open IpcEndpointTable in
/-- Endpoints, and the calls between their sending and their reply. -/
structure IpcEndpointTable where
  endpoints : List EndpointSlot := List.replicate maxIpcEndpoints {}
  replies : List ReplySlot := List.replicate maxIpcReplySeals {}
  pending : List PendingSlot := List.replicate maxIpcPendingCalls {}
  completed : List CompletedSlot := List.replicate maxThreads {}
  active_ : Nat := 0
  replySeals : Nat := 0
  pendingCalls : Nat := 0
  nextTransaction : IpcTransactionId := 1

def hasRights (actual required : Rights) : Bool := actual &&& required == required

/-- The endpoint an object id names. Its slot is stored off by one, so a bare
tag names nothing. -/
def decodeEndpointObject (object : ObjectId) : Result IpcEndpoint :=
  if object &&& ipcObjectTagMask ≠ ipcObjectTag then
    .error (kernelError IpcErrors.invalidCapability)
  else
    let encodedSlot := (object &&& ipcObjectSlotMask).toUInt16
    let generation := ((object &&& ipcObjectGenerationMask) >>> 16).toUInt32
    if encodedSlot = 0 ∨ maxIpcEndpoints < encodedSlot.toNat ∨ generation = 0 then
      .error (kernelError invalidEndpoint)
    else .ok { slot := encodedSlot - 1, generation }

namespace IpcEndpointTable

def slotFor (t : IpcEndpointTable) (e : IpcEndpoint) : Option EndpointSlot :=
  match t.endpoints[e.slot.toNat]? with
  | none => none
  | some slot =>
    if !e.valid || !slot.active || slot.generation != e.generation then none else some slot

def replySlot (t : IpcEndpointTable) (replySeal : IpcReplySeal) : Option ReplySlot :=
  if !replySeal.valid then none else t.replies.find? fun s => s.active && s.replySeal == replySeal

def replySlotOf (t : IpcEndpointTable) (server : ThreadId) (transaction : IpcTransactionId) :
    Option ReplySlot :=
  if server = invalidThread ∨ transaction = 0 then none
  else t.replies.find? fun s =>
    s.active && s.replySeal.server == server && s.replySeal.transaction == transaction

def PendingSlot.isCall (caller : ThreadId) (endpoint : IpcEndpoint) (s : PendingSlot) : Bool :=
  s.active && s.caller == caller && s.endpoint == endpoint

def pendingSlot (t : IpcEndpointTable) (caller : ThreadId) (endpoint : IpcEndpoint) :
    Option PendingSlot :=
  t.pending.find? (PendingSlot.isCall caller endpoint)

/-- The first call of an endpoint, whichever phase that call is in. -/
def pendingSlotAt (t : IpcEndpointTable) (endpoint : IpcEndpoint) : Option PendingSlot :=
  t.pending.find? fun s => s.active && s.endpoint == endpoint

def completedSlot (t : IpcEndpointTable) (caller : ThreadId) : Option CompletedSlot :=
  lookup CompletedSlot.key caller t.completed

def discardCompletedFor (t : IpcEndpointTable) (caller : ThreadId) : IpcEndpointTable :=
  { t with completed := modify CompletedSlot.key caller (fun _ => {}) t.completed }

def active (t : IpcEndpointTable) (e : IpcEndpoint) : Bool := (t.slotFor e).isSome

def receiveWaiting (t : IpcEndpointTable) (e : IpcEndpoint) : Bool :=
  match t.slotFor e with
  | none => false
  | some slot => slot.receiveWaiting

/-- Clear the reply slots satisfying `p` and charge each to the counter. -/
def dropReplies (t : IpcEndpointTable) (p : IpcReplySeal → Bool) : IpcEndpointTable :=
  { t with
    replies := t.replies.map fun s => if s.active && p s.replySeal then {} else s
    replySeals := t.replySeals - t.replies.countP fun s => s.active && p s.replySeal }

def invalidateRepliesFor (t : IpcEndpointTable) (endpoint : IpcEndpoint) : IpcEndpointTable :=
  t.dropReplies fun replySeal => replySeal.endpoint == endpoint

/-- Clear the pending slots satisfying `p` and charge each to the counter. -/
def dropPending (t : IpcEndpointTable) (p : PendingSlot → Bool) : IpcEndpointTable :=
  { t with
    pending := t.pending.map fun s => if s.active && p s then {} else s
    pendingCalls := t.pendingCalls - t.pending.countP fun s => s.active && p s }

/-- Wake the callers of an endpoint, in table order. A refusal is ignored. -/
def cancelCalls (endpoint : IpcEndpoint) (pending : List PendingSlot) (r : Rendezvous) :
    Rendezvous :=
  pending.foldl (fun r s =>
    if s.active && s.endpoint == endpoint then (r.cancelCall s.caller s.server).1 else r) r

def cancelPendingFor (t : IpcEndpointTable) (endpoint : IpcEndpoint) (r : Rendezvous) :
    IpcEndpointTable × Rendezvous :=
  (t.dropPending fun s => s.endpoint == endpoint, cancelCalls endpoint t.pending r)

/-- Take the first inactive slot that still has a generation to give. A slot
at its last generation is passed over. -/
def createIn (server : ThreadId) : Nat → List EndpointSlot → List EndpointSlot × Option IpcEndpoint
  | _, [] => ([], none)
  | index, slot :: rest =>
    if slot.active || slot.generation == 0xFFFFFFFF then
      let (rest, created) := createIn server (index + 1) rest
      (slot :: rest, created)
    else
      let generation := slot.generation + 1
      ({ server, generation, active := true, receiveWaiting := false } :: rest,
        some { slot := UInt16.ofNat index, generation })

def create (t : IpcEndpointTable) (server : ThreadId) : IpcEndpointTable × Result IpcEndpoint :=
  if server = invalidThread then (t, .error (kernelError notEndpointOwner))
  else
    match createIn server 0 t.endpoints with
    | (_, none) => (t, .error (kernelError endpointLimit))
    | (endpoints, some endpoint) => ({ t with endpoints, active_ := t.active_ + 1 }, .ok endpoint)

/-- The part of retirement that cannot fail any more. -/
def closeEndpoint (t : IpcEndpointTable) (endpoint : IpcEndpoint) (r : Rendezvous) :
    IpcEndpointTable × Rendezvous :=
  let t := { t with
    endpoints := t.endpoints.modify endpoint.slot.toNat fun slot =>
      { slot with receiveWaiting := false, server := invalidThread, active := false }
    active_ := t.active_ - 1 }
  (t.invalidateRepliesFor endpoint).cancelPendingFor endpoint r

def retire (t : IpcEndpointTable) (server : ThreadId) (endpoint : IpcEndpoint) (r : Rendezvous) :
    (IpcEndpointTable × Rendezvous) × Result Unit :=
  match t.slotFor endpoint with
  | none => ((t, r), .error (kernelError staleEndpoint))
  | some slot =>
    if server = invalidThread ∨ slot.server ≠ server then
      ((t, r), .error (kernelError notEndpointOwner))
    else if slot.receiveWaiting then
      match r.cancelReceive server with
      | (r, .error e) => ((t, r), .error e)
      | (r, .ok ()) => (t.closeEndpoint endpoint r, .ok ())
    else (t.closeEndpoint endpoint r, .ok ())

/-- One visit of the retirement loop. A refused retirement is skipped. -/
def retireAt (server : ThreadId) (state : (IpcEndpointTable × Rendezvous) × Nat) (index : Nat) :
    (IpcEndpointTable × Rendezvous) × Nat :=
  match state.1.1.endpoints[index]? with
  | none => state
  | some slot =>
    if !slot.active || slot.server != server then state
    else
      match state.1.1.retire server
          { slot := UInt16.ofNat index, generation := slot.generation } state.1.2 with
      | (next, .error _) => (next, state.2)
      | (next, .ok ()) => (next, state.2 + 1)

def retireAllOwnedBy (t : IpcEndpointTable) (server : ThreadId) (r : Rendezvous) :
    (IpcEndpointTable × Rendezvous) × Nat :=
  if server = invalidThread then ((t, r), 0)
  else (List.range t.endpoints.length).foldl (retireAt server) ((t, r), 0)

/-- One visit of the caller loop: drop the call and the seals made for it. -/
def releaseCall (thread : ThreadId) (t : IpcEndpointTable) (call : PendingSlot) :
    IpcEndpointTable :=
  if call.active && call.caller == thread then
    t.dropReplies fun replySeal => replySeal.caller == thread && replySeal.endpoint == call.endpoint
  else t

def releaseThread (t : IpcEndpointTable) (thread : ThreadId) (r : Rendezvous) :
    (IpcEndpointTable × Rendezvous) × Nat :=
  if thread = invalidThread then ((t, r), 0)
  else
    let ((t, r), retired) := t.retireAllOwnedBy thread r
    let t := (t.pending.foldl (releaseCall thread) t).dropPending fun s => s.caller == thread
    let t := t.dropReplies fun replySeal => replySeal.caller == thread || replySeal.server == thread
    ((t.discardCompletedFor thread, r), retired)

/-- What both capability checks do once the holder has been established. -/
def endpointOfObject (t : IpcEndpointTable) (info : CapabilityInfo) (required : Rights) :
    Result IpcEndpoint :=
  if !hasRights info.rights required then .error (kernelError wrongRights)
  else
    match decodeEndpointObject info.object with
    | .error e => .error e
    | .ok endpoint =>
      if !t.active endpoint then .error (kernelError staleEndpoint) else .ok endpoint

def endpointForCapability (t : IpcEndpointTable) (holder : ThreadId) (capability : CapabilityId)
    (required : Rights) (capabilities : CapabilityTable) : Result IpcEndpoint :=
  if holder = invalidThread ∨ capability = invalidCapability then
    .error (kernelError IpcErrors.invalidCapability)
  else
    match capabilities.describe capability with
    | .error _ => .error (kernelError IpcErrors.invalidCapability)
    | .ok info =>
      if info.contextBound || !capabilities.holds holder capability then
        .error (kernelError IpcErrors.invalidCapability)
      else t.endpointOfObject info required

def endpointForBoundCapability (t : IpcEndpointTable) (holder : ExecutionAuthority)
    (capability : CapabilityId) (required : Rights) (capabilities : CapabilityTable) :
    Result IpcEndpoint :=
  if !holder.valid || capability == invalidCapability then
    .error (kernelError IpcErrors.invalidCapability)
  else
    match capabilities.describe capability with
    | .error _ => .error (kernelError IpcErrors.invalidCapability)
    | .ok info =>
      if !capabilities.holdsBound holder capability then
        .error (kernelError IpcErrors.invalidCapability)
      else t.endpointOfObject info required

def sendToEndpoint (t : IpcEndpointTable) (caller : ThreadId)
    (callerAddressSpace : AddressSpaceIdentity) (endpoint : IpcEndpoint) (r : Rendezvous)
    (request : IpcEnvelope) : (IpcEndpointTable × Rendezvous) × Result Unit :=
  if !request.valid then ((t, r), .error (kernelError payloadTooLarge))
  else if (t.completedSlot caller).isSome then
    ((t, r), .error (kernelError replyUnavailable))
  else
    match t.slotFor endpoint with
    | none => ((t, r), .error (kernelError staleEndpoint))
    | some owner =>
      match insert PendingSlot.key
          { endpoint, caller, server := owner.server, callerAddressSpace, request,
            active := true } t.pending with
      | none => ((t, r), .error (kernelError pendingCallLimit))
      | some pending =>
        let (r, sent) :=
          if owner.receiveWaiting then r.deliverWaitingReceiver caller owner.server
          else r.blockSend caller owner.server
        match sent with
        | .error e => ((t, r), .error e)
        | .ok () =>
          (({ t with
              endpoints := t.endpoints.modify endpoint.slot.toNat fun slot =>
                { slot with receiveWaiting := false }
              pending
              pendingCalls := t.pendingCalls + 1 }, r), .ok ())

def send (t : IpcEndpointTable) (caller : ThreadId) (capability : CapabilityId)
    (capabilities : CapabilityTable) (r : Rendezvous) (request : IpcEnvelope) :
    (IpcEndpointTable × Rendezvous) × Result Unit :=
  match t.endpointForCapability caller capability ipcRightSend capabilities with
  | .error e => ((t, r), .error e)
  | .ok endpoint => t.sendToEndpoint caller {} endpoint r request

def sendBound (t : IpcEndpointTable) (caller : ExecutionAuthority) (capability : CapabilityId)
    (capabilities : CapabilityTable) (r : Rendezvous) (request : IpcEnvelope) :
    (IpcEndpointTable × Rendezvous) × Result Unit :=
  match t.endpointForBoundCapability caller capability ipcRightSend capabilities with
  | .error e => ((t, r), .error e)
  | .ok endpoint => t.sendToEndpoint caller.thread caller.addressSpace endpoint r request

/-- Seal a call for `server` and hand it over. `handed` is what the rendezvous
did about it; the limits below are checked before that may take effect. -/
def sealCall (t : IpcEndpointTable) (server : ThreadId) (serverAddressSpace : AddressSpaceIdentity)
    (endpoint : IpcEndpoint) (call : PendingSlot) (r : Rendezvous)
    (handed : Rendezvous × Result Unit) : (IpcEndpointTable × Rendezvous) × Result IpcReceived :=
  if t.nextTransaction = 0 ∨ t.nextTransaction = 0xFFFFFFFFFFFFFFFF then
    ((t, r), .error (kernelError transactionExhausted))
  else
    let replySeal : IpcReplySeal :=
      { endpoint, transaction := t.nextTransaction, caller := call.caller, server,
        callerAddressSpace := call.callerAddressSpace, serverAddressSpace }
    match insert ReplySlot.key { replySeal, active := true } t.replies with
    | none => ((t, r), .error (kernelError replySealLimit))
    | some replies =>
      match handed with
      | (r, .error e) => ((t, r), .error e)
      | (r, .ok ()) =>
        (({ t with
            replies
            nextTransaction := t.nextTransaction + 1
            replySeals := t.replySeals + 1 }, r),
          .ok { caller := call.caller, reply := replySeal, request := call.request })

/-- Collect the sender that a delivery left as the server's partner. -/
def consumeDelivered (r : Rendezvous) (server delivered : ThreadId) : Rendezvous × Result Unit :=
  match r.receive server with
  | (r, .error _) => (r, .error (kernelError pendingCallMissing))
  | (r, .ok consumed) =>
    if consumed ≠ delivered then (r, .error (kernelError pendingCallMissing))
    else (r, .ok ())

def receiveFromEndpoint (t : IpcEndpointTable) (server : ThreadId)
    (serverAddressSpace : AddressSpaceIdentity) (endpoint : IpcEndpoint) (r : Rendezvous) :
    (IpcEndpointTable × Rendezvous) × Result IpcReceived :=
  match t.slotFor endpoint with
  | none => ((t, r), .error (kernelError staleEndpoint))
  | some owner =>
    if owner.server ≠ server then ((t, r), .error (kernelError notEndpointOwner))
    else if owner.receiveWaiting then
      ((t, r), .error (kernelError receiveAlreadyWaiting))
    else
      match r.partnerOf server with
      | .error e => ((t, r), .error e)
      | .ok delivered =>
        if delivered ≠ invalidThread then
          match t.pendingSlot delivered endpoint with
          | none => ((t, r), .error (kernelError pendingCallMissing))
          | some call =>
            t.sealCall server serverAddressSpace endpoint call r
              (consumeDelivered r server delivered)
        else
          match t.pendingSlotAt endpoint with
          | some call =>
            t.sealCall server serverAddressSpace endpoint call r
              (r.acceptSender server call.caller)
          | none =>
            match r.waitReceive server with
            | (r, .error e) => ((t, r), .error e)
            | (r, .ok ()) =>
              (({ t with
                  endpoints := t.endpoints.modify endpoint.slot.toNat fun slot =>
                    { slot with receiveWaiting := true } }, r), .ok {})

def receive (t : IpcEndpointTable) (server : ThreadId) (capability : CapabilityId)
    (capabilities : CapabilityTable) (r : Rendezvous) :
    (IpcEndpointTable × Rendezvous) × Result IpcReceived :=
  match t.endpointForCapability server capability ipcRightReceive capabilities with
  | .error e => ((t, r), .error e)
  | .ok endpoint => t.receiveFromEndpoint server {} endpoint r

def receiveBound (t : IpcEndpointTable) (server : ExecutionAuthority) (capability : CapabilityId)
    (capabilities : CapabilityTable) (r : Rendezvous) :
    (IpcEndpointTable × Rendezvous) × Result IpcReceived :=
  match t.endpointForBoundCapability server capability ipcRightReceive capabilities with
  | .error e => ((t, r), .error e)
  | .ok endpoint => t.receiveFromEndpoint server.thread server.addressSpace endpoint r

/-- The response is stored before the rendezvous is asked, and taken out again
when the rendezvous refuses. -/
def reply (t : IpcEndpointTable) (server : ThreadId) (replySeal : IpcReplySeal) (r : Rendezvous)
    (response : IpcEnvelope) : (IpcEndpointTable × Rendezvous) × Result Unit :=
  if !response.valid then ((t, r), .error (kernelError payloadTooLarge))
  else if !replySeal.valid then ((t, r), .error (kernelError staleReplySeal))
  else if server ≠ replySeal.server then ((t, r), .error (kernelError wrongReplyServer))
  else
    match t.slotFor replySeal.endpoint with
    | none => ((t, r), .error (kernelError staleReplySeal))
    | some endpoint =>
      if endpoint.server ≠ server then ((t, r), .error (kernelError staleReplySeal))
      else if (t.replySlot replySeal).isNone ||
          (t.pendingSlot replySeal.caller replySeal.endpoint).isNone then
        ((t, r), .error (kernelError staleReplySeal))
      else if (t.completedSlot replySeal.caller).isSome then
        ((t, r), .error (kernelError replyUnavailable))
      else
        match insert CompletedSlot.key
            { caller := replySeal.caller
              callerAddressSpace := replySeal.callerAddressSpace, response,
              active := true } t.completed with
        | none => ((t, r), .error (kernelError replyUnavailable))
        | some completed =>
          match r.reply server replySeal.caller with
          | (r, .error e) =>
            (({ t with completed }.discardCompletedFor replySeal.caller, r), .error e)
          | (r, .ok ()) =>
            (({ t with
                completed
                replies := updateFirst (fun s => s.active && s.replySeal == replySeal)
                  (fun _ => {}) t.replies
                replySeals := t.replySeals - 1
                pending := updateFirst
                  (PendingSlot.isCall replySeal.caller replySeal.endpoint) (fun _ => {}) t.pending
                pendingCalls := t.pendingCalls - 1 }, r), .ok ())

/-- A seal that recorded a generation is answered only from that generation. -/
def replyBound (t : IpcEndpointTable) (server : ExecutionAuthority) (replySeal : IpcReplySeal)
    (r : Rendezvous) (response : IpcEnvelope) : (IpcEndpointTable × Rendezvous) × Result Unit :=
  if !server.valid then ((t, r), .error (kernelError wrongReplyServer))
  else if replySeal.serverAddressSpace.valid &&
      server.addressSpace != replySeal.serverAddressSpace then
    ((t, r), .error (kernelError wrongReplyServer))
  else t.reply server.thread replySeal r response

def replyTransaction (t : IpcEndpointTable) (server : ThreadId) (transaction : IpcTransactionId)
    (r : Rendezvous) (response : IpcEnvelope) : (IpcEndpointTable × Rendezvous) × Result Unit :=
  match t.replySlotOf server transaction with
  | none => ((t, r), .error (kernelError staleReplySeal))
  | some slot => t.reply server slot.replySeal r response

def replyTransactionBound (t : IpcEndpointTable) (server : ExecutionAuthority)
    (transaction : IpcTransactionId) (r : Rendezvous) (response : IpcEnvelope) :
    (IpcEndpointTable × Rendezvous) × Result Unit :=
  match t.replySlotOf server.thread transaction with
  | none => ((t, r), .error (kernelError staleReplySeal))
  | some slot => t.replyBound server slot.replySeal r response

def takeReply (t : IpcEndpointTable) (caller : ThreadId) : IpcEndpointTable × Result IpcEnvelope :=
  match t.completedSlot caller with
  | none => (t, .error (kernelError replyUnavailable))
  | some slot => (t.discardCompletedFor caller, .ok slot.response)

/-- A stale generation gets the answer of an empty table. -/
def takeReplyBound (t : IpcEndpointTable) (caller : ExecutionAuthority) :
    IpcEndpointTable × Result IpcEnvelope :=
  if !caller.valid then (t, .error (kernelError replyUnavailable))
  else
    match t.completedSlot caller.thread with
    | none => (t, .error (kernelError replyUnavailable))
    | some slot =>
      if slot.callerAddressSpace.valid && caller.addressSpace != slot.callerAddressSpace then
        (t, .error (kernelError replyUnavailable))
      else t.takeReply caller.thread

end IpcEndpointTable

end Enml.OsKernel
