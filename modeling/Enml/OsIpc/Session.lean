import Enml.OsIpc.Channel

/-! A connection over its whole life. Packets wait in the channel until a call
takes them, so that a call may meet what was meant for an earlier one. -/
namespace Enml.OsIpc

open Enml.Core WireFlag Errors

/-- The message that `send_rpc_response` hands to the channel. -/
def sendRpcResponse (requestHeader : WireHeaderV1) (responsePayload : List UInt8)
    (handles : List Int32) : Result InboundMessage := do
  ensure (!decide (maxInlinePayloadSize < responsePayload.length))
    (ipcError oversizedMessage)
  ensure (!(decide (maxHandleCount.toNat < handles.length) || decide (0xFFFF < handles.length)))
    (ipcError handleCountMismatch)
  ensure (handles.all fun handle => decide (0 ≤ handle)) (ipcError invalidNativeHandle)
  let flags := if handles.isEmpty then response
    else response ||| hasHandles
  .ok {
    header := {
      flags
      serviceId := requestHeader.serviceId
      operationId := requestHeader.operationId
      requestId := requestHeader.requestId
      payloadSize := UInt32.ofNat responsePayload.length
      handleCount := UInt16.ofNat handles.length }
    payload := responsePayload }

structure RequestContext where
  peer : PeerIdentity
  requestId : UInt64

/-- `resolve` stands for the identity resolver. -/
def validateRpcRequest (message : Delivered) (expectedService : UInt32)
    (resolve : KernelPeerCredentials → Result PeerIdentity) : Result RequestContext :=
  let header := message.header
  if !hasFlag header.flags request || hasFlag header.flags response ||
      hasFlag header.flags event || hasFlag header.flags error ||
      hasFlag header.flags oneway || hasFlag header.flags cancellable ||
      header.serviceId != expectedService || header.requestId == 0 || header.handleCount != 0 then
    .error (ipcError protocolViolation)
  else
    match resolve message.sender with
    | .error e => .error e
    | .ok peer => .ok { peer, requestId := header.requestId }

/-- A connection and the packets that wait in its channel. -/
structure Session where
  valid : Bool := true
  nextRequestId : UInt64 := 1
  inbox : List Packet := []

/-- A call that returns, with what its surroundings do meanwhile: how the send comes
back, which packets arrive before the receive, and how the receive ends if there is none. -/
structure CallInput where
  serviceId : UInt32
  operationId : UInt32
  requestPayload : List UInt8
  receiveBufferSize : Nat := maxWirePacketSize
  outcome : SendOutcome := .complete
  arrivals : List Packet := []
  ending : Ending := .closed

namespace Session

/-- `Channel::receive` takes the first packet that waits. -/
def receive (s : Session) (bufferSize : Nat) (ending : Ending) : Session × Result Delivered :=
  if bufferSize < maxWirePacketSize then (s, .error (ipcError bufferTooSmall))
  else
    match s.inbox with
    | [] => (s, .error (endingError ending))
    | packet :: rest => ({ s with inbox := rest }, receivePacket packet)

def requestHeader (s : Session) (input : CallInput) : WireHeaderV1 :=
  ClientConnection.requestHeader { channel := none, nextRequestId := s.nextRequestId }
    input.serviceId input.operationId input.requestPayload

/-- The connection while a call is under way: its identifier is taken, and packets
have arrived. -/
def taken (s : Session) (input : CallInput) : Session :=
  { s with
    nextRequestId := if s.nextRequestId = 0xFFFFFFFFFFFFFFFF then 0 else s.nextRequestId + 1
    inbox := s.inbox ++ input.arrivals }

def call (s : Session) (input : CallInput) : Session × Result Delivered :=
  if !s.valid then (s, .error (ipcError invalidChannel))
  else if maxInlinePayloadSize < input.requestPayload.length then
    (s, .error (ipcError oversizedMessage))
  else if s.nextRequestId = 0 then (s, .error (ipcError requestIdExhausted))
  else
    match sendPacket input.outcome (s.requestHeader input) input.requestPayload [] with
    | .error e => (s.taken input, .error e)
    | .ok () =>
      match (s.taken input).receive input.receiveBufferSize input.ending with
      | (after, .error e) => (after, .error e)
      | (after, .ok response) =>
        match ClientConnection.accept (s.requestHeader input) response.toInboundMessage with
        | .error e => (after, .error e)
        | .ok _ => (after, .ok response)

/-- The channel as one call meets it. -/
def channel (s : Session) (input : CallInput) : Channel where
  valid := s.valid
  send header payload := sendPacket input.outcome header payload []
  receive _ _ := ((s.taken input).receive input.receiveBufferSize input.ending).2.map
    Delivered.toInboundMessage

end Session

inductive SessionOp where
  | arrive (packet : Packet)
  | call (input : CallInput)

def Session.step (s : Session) : SessionOp → Session × Option (Result Delivered)
  | .arrive packet => ({ s with inbox := s.inbox ++ [packet] }, none)
  | .call input => (s.call input).map id some

end Enml.OsIpc
