import Enml.Core.Identity
import Enml.OsIpc.Rpc

/-! The packet channel: what the kernel hands over for one packet, and how the
channel turns it into a message. Descriptors that are refused are closed, which is
not modelled: what counts here is the result. -/
namespace Enml.OsIpc

open Enml.Core Errors

/-- A descriptor that came with a packet, and whether it can be marked
close-on-exec. -/
structure Descriptor where
  fd : Int32
  marked : Bool := true

/-- One control record of a packet. -/
inductive ControlRecord where
  /-- Transferred descriptors, with the bytes of a partial one behind them. -/
  | rights (descriptors : List Descriptor) (trailing : Nat)
  | credentials (pid : Int32) (uid gid : UInt32)
  /-- A credentials record of another length. -/
  | badCredentials
  /-- A record of another level or type. -/
  | foreign

/-- A packet as it crosses the channel. -/
structure Packet where
  bytes : List UInt8
  control : List ControlRecord
  controlTruncated : Bool := false

structure AncillaryData where
  handles : List Int32 := []
  credentials : Option KernelPeerCredentials := none

/-- The loop over the descriptors of a record. -/
def adopt (output : AncillaryData) : List Descriptor → Result AncillaryData
  | [] => .ok output
  | d :: rest =>
    if d.fd < 0 then .error (ipcError invalidNativeHandle)
    else if !d.marked then .error (ipcError transportFailure)
    else adopt { output with handles := output.handles ++ [d.fd] } rest

def appendRights (output : AncillaryData) (descriptors : List Descriptor) (trailing : Nat) :
    Result AncillaryData :=
  if 4 * descriptors.length + trailing = 0 ∨ trailing ≠ 0 then
    .error (ipcError invalidAncillary)
  else if maxHandleCount.toNat - output.handles.length < descriptors.length then
    .error (ipcError ancillaryTruncated)
  else adopt output descriptors

def readCredentials (output : AncillaryData) (pid : Int32) (uid gid : UInt32) :
    Result AncillaryData :=
  if output.credentials.isSome ∨ pid ≤ 0 then .error (ipcError invalidAncillary)
  else .ok { output with
    credentials := some { processId := pid.toInt64, userId := uid, groupId := gid } }

def parseRecord (output : AncillaryData) : ControlRecord → Result AncillaryData
  | .rights descriptors trailing => appendRights output descriptors trailing
  | .credentials pid uid gid => readCredentials output pid uid gid
  | .badCredentials => .error (ipcError invalidAncillary)
  | .foreign => .error (ipcError invalidAncillary)

def parseAncillary (packet : Packet) : Result (List Int32 × KernelPeerCredentials) := do
  let output ← packet.control.foldlM parseRecord {}
  ensure (!packet.controlTruncated) (ipcError ancillaryTruncated)
  match output.credentials with
  | none => .error (ipcError missingCredentials)
  | some credentials => .ok (output.handles, credentials)

/-- A message with the handles that came along and the credentials of its sender. -/
structure Delivered extends InboundMessage where
  handles : List Int32
  sender : KernelPeerCredentials

/-- How `recvmsg` comes back when it has no packet to give. -/
inductive Ending where
  | closed
  | peerDeath
  | failure

/-- The header and payload of a packet. What is missing or left over is a mismatch
of sizes. -/
def decodePacket (bytes : List UInt8) : Result InboundMessage :=
  match decodeWireHeaderV1 { input := bytes } with
  | (_, .error e) => .error e
  | (d, .ok header) =>
    match Decoder.readRaw header.payloadSize.toNat d with
    | (_, .error _) => .error (ipcError packetSizeMismatch)
    | (d, .ok payload) =>
      match Decoder.requireEnd d with
      | (_, .error _) => .error (ipcError packetSizeMismatch)
      | (_, .ok ()) => .ok { header, payload }

def receivePacket (packet : Packet) : Result Delivered := do
  -- A packet without a byte looks like the end of the stream.
  ensure (packet.bytes.length != 0) (ipcError peerDied)
  let (handles, sender) ← parseAncillary packet
  ensure (decide (packet.bytes.length ≤ maxWirePacketSize)) (ipcError packetTruncated)
  ensure (decide (wireHeaderV1Size.toNat ≤ packet.bytes.length))
    (ipcError malformedMessage)
  let message ← decodePacket packet.bytes
  ensure (message.header.handleCount.toNat == handles.length)
    (ipcError handleCountMismatch)
  .ok { message with handles, sender }

def endingError : Ending → Error
  | .closed => ipcError peerDied
  | .peerDeath => ipcError peerDied
  | .failure => ipcError transportFailure

/-- How `sendmsg` comes back, if it does. The sockets block: while the peer is there
and its queue is full, `sendmsg` waits. Where that matters the outcome is an option,
and `none` is a peer that never reads. -/
inductive SendOutcome where
  | complete
  | short
  | peerDeath
  | failure
  deriving DecidableEq

def validateSendShape (header : WireHeaderV1) (payload : List UInt8) (handles : List Int32) :
    Result Unit := do
  ensure (!(decide (maxInlinePayloadSize < payload.length) ||
    decide (maxHandleCount.toNat < handles.length))) (ipcError oversizedMessage)
  ensure (header.payloadSize.toNat == payload.length) (ipcError packetSizeMismatch)
  ensure (header.handleCount.toNat == handles.length) (ipcError handleCountMismatch)
  ensure (handles.all fun handle => decide (0 ≤ handle)) (ipcError invalidNativeHandle)

/-- The bytes that a send hands to the kernel. -/
def encodePacket (header : WireHeaderV1) (payload : List UInt8) (handles : List Int32) :
    Result (List UInt8) := do
  validateSendShape header payload handles
  match encodeWireHeaderV1 header { output := List.replicate wireHeaderV1Size.toNat 0 } with
  | (_, .error e) => .error e
  | (encoder, .ok ()) => .ok (encoder.output ++ payload)

def sendOutcome : SendOutcome → Result Unit
  | .complete => .ok ()
  | .short => .error (ipcError transportFailure)
  | .peerDeath => .error (ipcError peerDied)
  | .failure => .error (ipcError transportFailure)

/-- `Channel::send` on a valid channel. -/
def sendPacket (outcome : SendOutcome) (header : WireHeaderV1) (payload : List UInt8)
    (handles : List Int32) : Result Unit := do
  let _ ← encodePacket header payload handles
  sendOutcome outcome

/-- `Channel::send` where the peer may leave its queue full. `none` does not return. -/
def sendWaiting (outcome : Option SendOutcome) (header : WireHeaderV1) (payload : List UInt8)
    (handles : List Int32) : Option (Result Unit) :=
  match encodePacket header payload handles with
  | .error e => some (.error e)
  | .ok _ => outcome.map sendOutcome

end Enml.OsIpc
