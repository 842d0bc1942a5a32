import Enml.OsIpc.Codec

/-! One remote call and the error a server may answer it with. The error travels
as a payload of eight bytes in a response that carries the error flag. In front of
every packet stands a header of forty bytes, which says which flags go together. -/
namespace Enml.OsIpc

open Enml.Core Errors Encoder Decoder Call

/-- The number of a domain on the wire. -/
def errorDomainRaw : ErrorDomain → UInt16
  | .core => 1
  | .ipc => 2
  | .service => 3
  | .storage => 4
  | .package => 5
  | .security => 6
  | .key => 7
  | .display => 8
  | .ui => 9
  | .shell => 10
  | .kernel => 11
  | .image => 12

/-- The enumerator with a number. -/
def errorDomainOf (raw : UInt16) : Option ErrorDomain :=
  [.core, .ipc, .service, .storage, .package, .security, .key, .display, .ui, .shell, .kernel,
    .image].find? fun domain => errorDomainRaw domain == raw

def validErrorDomain (raw : UInt16) : Bool :=
  decide (errorDomainRaw .core ≤ raw) && decide (raw ≤ errorDomainRaw .ui)

namespace WireFlag
def request : UInt32 := 0x1
def response : UInt32 := 0x2
def event : UInt32 := 0x4
def error : UInt32 := 0x8
def oneway : UInt32 := 0x10
def cancellable : UInt32 := 0x20
end WireFlag

open WireFlag

def hasFlag (flags flag : UInt32) : Bool := flags &&& flag != 0

/-- The fixed fields in front of every payload. -/
structure WireHeaderV1 where
  flags : UInt32 := 0
  serviceId : UInt32 := 0
  operationId : UInt32 := 0
  requestId : UInt64 := 0
  payloadSize : UInt32 := 0
  handleCount : UInt16 := 0
  payloadChecksum : UInt32 := 0

/-- What arrives. The transferred handles and the sender are not read here. -/
structure InboundMessage where
  header : WireHeaderV1
  payload : List UInt8

/-- The writes of `send_rpc_error` into its eight bytes of storage. -/
def encodeRpcError (error : Error) : Encoder × Result Unit :=
  let writes : Call Encoder Unit := do
    Encoder.writeU16Le (errorDomainRaw error.domain)
    Encoder.writeU16Le 0
    Encoder.writeU32Le error.code
  writes { output := List.replicate 8 0 }

/-- The message that `send_rpc_error` hands to the channel. -/
def sendRpcError (requestHeader : WireHeaderV1) (error : Error) : Result InboundMessage :=
  match encodeRpcError error with
  | (_, .error e) => .error e
  | (encoder, .ok ()) =>
    .ok {
      header := {
        flags := WireFlag.response ||| WireFlag.error
        serviceId := requestHeader.serviceId
        operationId := requestHeader.operationId
        requestId := requestHeader.requestId
        payloadSize := UInt32.ofNat encoder.written.length }
      payload := encoder.written }

/-- The checks on the fields once they have been read. A message that goes on is
reported like one with a bad field. -/
def checkRpcError (domain reserved : UInt16) (code : UInt32) : Call Decoder Error := fun d =>
  match Decoder.requireEnd d with
  | (d, .error _) => (d, .error (ipcError protocolViolation))
  | (d, .ok ()) =>
    if reserved ≠ 0 ∨ validErrorDomain domain = false ∨ code = 0 then
      (d, .error (ipcError protocolViolation))
    else
      match errorDomainOf domain with
      | some domain => (d, .ok { domain, reserved := 0, code })
      | none => (d, .error (ipcError protocolViolation))

def decodeRpcError (payload : List UInt8) : Result Error :=
  let reads : Call Decoder Error := do
    let domain ← Decoder.readU16Le
    let reserved ← Decoder.readU16Le
    let code ← Decoder.readU32Le
    checkRpcError domain reserved code
  (reads { input := payload }).2

/-- The far side of a connection: whether the channel can be used, whether it
takes a message, and what it delivers once the message has been sent. -/
structure Channel where
  valid : Bool
  send : WireHeaderV1 → List UInt8 → Result Unit
  receive : WireHeaderV1 → List UInt8 → Result InboundMessage

structure ClientConnection where
  channel : Option Channel
  nextRequestId : UInt64 := 1

namespace ClientConnection

def requestHeader (c : ClientConnection) (serviceId operationId : UInt32)
    (requestPayload : List UInt8) : WireHeaderV1 where
  flags := WireFlag.request
  serviceId := serviceId
  operationId := operationId
  requestId := c.nextRequestId
  payloadSize := UInt32.ofNat requestPayload.length

def answers (request response : WireHeaderV1) : Bool :=
  hasFlag response.flags WireFlag.response && !hasFlag response.flags WireFlag.request &&
    !hasFlag response.flags event && !hasFlag response.flags oneway &&
    !hasFlag response.flags cancellable && response.serviceId == request.serviceId &&
    response.operationId == request.operationId && response.requestId == request.requestId

/-- What the client makes of the message that comes back. -/
def accept (request : WireHeaderV1) (response : InboundMessage) : Result InboundMessage :=
  if !answers request response.header then .error (ipcError protocolViolation)
  else if hasFlag response.header.flags WireFlag.error then
    if response.header.handleCount ≠ 0 then .error (ipcError protocolViolation)
    else
      match decodeRpcError response.payload with
      | .error e => .error e
      | .ok remoteError => .error remoteError
  else .ok response

def call (c : ClientConnection) (serviceId operationId : UInt32) (requestPayload : List UInt8) :
    ClientConnection × Result InboundMessage :=
  match c.channel with
  | none => (c, .error (ipcError invalidChannel))
  | some channel =>
    if !channel.valid then (c, .error (ipcError invalidChannel))
    else if maxInlinePayloadSize < requestPayload.length then
      (c, .error (ipcError oversizedMessage))
    else if c.nextRequestId = 0 then (c, .error (ipcError requestIdExhausted))
    else
      let header := c.requestHeader serviceId operationId requestPayload
      let c := { c with
        nextRequestId := if c.nextRequestId = 0xFFFFFFFFFFFFFFFF then 0
          else c.nextRequestId + 1 }
      match channel.send header requestPayload with
      | .error e => (c, .error e)
      | .ok () =>
        match channel.receive header requestPayload with
        | .error e => (c, .error e)
        | .ok response => (c, accept header response)

end ClientConnection

def transportVersionV1 : UInt16 := 1

def wireHeaderV1Size : UInt16 := 40

def maxHandleCount : UInt16 := 16

def maxWirePacketSize : Nat := wireHeaderV1Size.toNat + maxInlinePayloadSize

namespace Errors
def unsupportedVersion : UInt32 := 2
def invalidFlags : UInt32 := 5
def unsupportedChecksum : UInt32 := 7
def peerDied : UInt32 := 8
def transportFailure : UInt32 := 9
def packetTruncated : UInt32 := 10
def ancillaryTruncated : UInt32 := 11
def invalidAncillary : UInt32 := 12
def missingCredentials : UInt32 := 13
def handleCountMismatch : UInt32 := 14
def invalidNativeHandle : UInt32 := 15
def packetSizeMismatch : UInt32 := 17
end Errors

/-- The letters `OSIP`. -/
def wireMagic : List UInt8 := [0x4F, 0x53, 0x49, 0x50]

def WireFlag.hasHandles : UInt32 := 0x40

def knownFlags : UInt32 :=
  request ||| response ||| event ||| error ||| oneway ||| cancellable ||| hasHandles

def validateWireFlags (flags : UInt32) (handleCount : UInt16) : Result Unit := do
  ensure (flags &&& ~~~knownFlags == 0) (ipcError invalidFlags)
  let request := hasFlag flags request
  let response := hasFlag flags response
  let event := hasFlag flags event
  let error := hasFlag flags error
  let oneway := hasFlag flags oneway
  let cancellable := hasFlag flags cancellable
  let hasHandles := hasFlag flags hasHandles
  let primaryCount := request.toNat + response.toNat + event.toNat
  ensure (primaryCount == 1) (ipcError invalidFlags)
  ensure (!(error && !response)) (ipcError invalidFlags)
  ensure (!(oneway && !request)) (ipcError invalidFlags)
  ensure (!(cancellable && !request)) (ipcError invalidFlags)
  ensure (!(oneway && cancellable)) (ipcError invalidFlags)
  ensure (decide (0 < handleCount) == hasHandles) (ipcError invalidFlags)

def encodeWireHeaderV1 (header : WireHeaderV1) : Call Encoder Unit := do
  ensureCapacity wireHeaderV1Size.toNat
  ensure (!decide (maxInlinePayloadSize < header.payloadSize.toNat))
    (ipcError oversizedMessage)
  ensure (!decide (maxHandleCount < header.handleCount)) (ipcError oversizedMessage)
  ensure (header.payloadChecksum == 0) (ipcError unsupportedChecksum)
  check (validateWireFlags header.flags header.handleCount)
  writeRaw wireMagic
  writeU16Le wireHeaderV1Size
  writeU16Le transportVersionV1
  writeU32Le header.flags
  writeU32Le header.serviceId
  writeU32Le header.operationId
  writeU64Le header.requestId
  writeU32Le header.payloadSize
  writeU16Le header.handleCount
  writeU16Le 0
  writeU32Le 0

def decodeWireHeaderV1 : Call Decoder WireHeaderV1 := do
  let magic ← readRaw wireMagic.length
  ensure (magic == wireMagic) (ipcError malformedMessage)
  let headerSize ← readU16Le
  ensure (headerSize == wireHeaderV1Size) (ipcError malformedMessage)
  let version ← readU16Le
  ensure (version == transportVersionV1) (ipcError unsupportedVersion)
  let flags ← readU32Le
  let serviceId ← readU32Le
  let operationId ← readU32Le
  let requestId ← readU64Le
  let payloadSize ← readU32Le
  let handleCount ← readU16Le
  let reserved ← readU16Le
  ensure (reserved == 0) (ipcError malformedMessage)
  let checksum ← readU32Le
  ensure (checksum == 0) (ipcError unsupportedChecksum)
  ensure (!decide (maxInlinePayloadSize < payloadSize.toNat))
    (ipcError oversizedMessage)
  ensure (!decide (maxHandleCount < handleCount)) (ipcError oversizedMessage)
  check (validateWireFlags flags handleCount)
  pure
    { flags, serviceId, operationId, requestId, payloadSize, handleCount, payloadChecksum := 0 }

end Enml.OsIpc
