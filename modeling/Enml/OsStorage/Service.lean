import Enml.OsStorage.Objects
import Enml.Osidlc.Codec

/-! The storage service: requests on the main endpoint, on the endpoints of the objects
it has given out, and on the control channel, and the loop that serves them. -/
namespace Enml.OsStorage

open Enml.Core Enml.OsIpc SlotTable Errors WireFlag DirectoryRights Decoder OsIpc.Errors

namespace ServiceErrors
def unknownOperation : UInt32 := 1
def invalidBootstrap : UInt32 := 12
end ServiceErrors

open ServiceErrors

def serviceError (code : UInt32) : Error := makeError .service code

def invalidArgument : UInt32 := 2

def storageServiceId : UInt32 := 0x0000F020

def storageObjectServiceId : UInt32 := 0x0000F021

def bootstrapServiceId : UInt32 := 0xFFFF0001

def storageOpenPrivateRootOperation : UInt32 := 1

def identityOperationRegister : UInt32 := 2

def identityOperationUnregister : UInt32 := 3

def storageControlRegisterRootOperation : UInt32 := 100

def storageControlUnregisterRootOperation : UInt32 := 101

namespace ObjectOperation
def openFile : UInt32 := 1
def openDirectory : UInt32 := 2
def createDirectory : UInt32 := 3
def removeFile : UInt32 := 4
def removeDirectory : UInt32 := 5
def atomicReplace : UInt32 := 6
def readAt : UInt32 := 16
def writeAt : UInt32 := 17
def size : UInt32 := 18
def sync : UInt32 := 19
end ObjectOperation

def maxStorageIoBytes : Nat := 60 * 1024

def maxStorageAtomicBytes : Nat := 56 * 1024

def rootIdentityPayloadSize : Nat := 24

inductive StorageObjectType where
  | file | directory

def StorageObjectType.raw : StorageObjectType → UInt32
  | .file => 1
  | .directory => 2

/-- What a receive comes to. -/
inductive Arrival where
  | packet (p : Packet)
  | ending (e : Ending)

def receiveFrom : Arrival → Result Delivered
  | .packet p => receivePacket p
  | .ending e => .error (endingError e)

/-- What the operating system, the identity resolver and the protected store answer
while a request is served, and how the reply comes off: `none` if it never does. -/
structure Surroundings where
  resolve : KernelPeerCredentials → Result PeerIdentity
  opened : Result Int32
  performed : Result Unit := .ok ()
  read : Result (List UInt8) := .ok []
  written : Result Nat := .ok 0
  size : Result UInt64 := .ok 0
  pair : Result (NativeHandle × NativeHandle)
  outcome : Option SendOutcome := some .complete

def replyError (outcome : Option SendOutcome) (requestHeader : WireHeaderV1) (e : Error) :
    Option (Result Unit) :=
  match sendRpcError requestHeader e with
  | .error e => some (.error e)
  | .ok message => sendWaiting outcome message.header message.payload []

def replyResponse (outcome : Option SendOutcome) (requestHeader : WireHeaderV1)
    (payload : List UInt8) (handles : List Int32) : Option (Result Unit) :=
  match sendRpcResponse requestHeader payload handles with
  | .error e => some (.error e)
  | .ok message => sendWaiting outcome message.header message.payload handles

/-- An object that is about to be given out. -/
structure Minted where
  index : Nat
  slot : ObjectSlot
  payload : List UInt8
  client : NativeHandle

/-- What a request is answered with when it does not fail. -/
inductive Answer where
  | payload (bytes : List UInt8)
  | minted (m : Minted)

/-- Every request ends with one reply. An object whose reply does not get through is
taken back. -/
def StorageService.reply (s : StorageService) (outcome : Option SendOutcome)
    (requestHeader : WireHeaderV1) : Result Answer → StorageService × Option (Result Unit)
  | .error e => (s, replyError outcome requestHeader e)
  | .ok (.payload bytes) => (s, replyResponse outcome requestHeader bytes [])
  | .ok (.minted m) =>
    match replyResponse outcome requestHeader m.payload [m.client.fd] with
    | some (.error e) => ((s.setSlot m.index m.slot).clearSlot m.index, some (.error e))
    | sent => (s.setSlot m.index m.slot, sent)

/-- Take a slot, make a channel and fill in what the object needs. The other fields of
the slot stay as they were. -/
def StorageService.mint (s : StorageService) (w : Surroundings) (principal : PrincipalId)
    (user : UserId) (fill : NativeHandle → ObjectSlot → ObjectSlot)
    (payload : Result (List UInt8)) : Result Answer := do
  let index ← s.allocateSlot principal user
  let (server, client) ← w.pair
  let payload ← payload
  .ok (.minted { index, slot := fill server (s.slotAt index), payload, client })

def openPrivateRootRequest : Osidlc.StructDecl := { name := "OpenPrivateRootRequest".toList }

def openPrivateRootResponse : Osidlc.StructDecl where
  name := "OpenPrivateRootResponse".toList
  fields := [{ name := "object_type".toList, type := .u32, id := 1 },
    { name := "rights".toList, type := .u32, id := 2 }]

def encodeOpenPrivateRootResponse (rights : RightsMask) : Result (List UInt8) :=
  match Osidlc.encode openPrivateRootResponse (StorageObjectType.directory.raw, rights, ())
      { output := List.replicate 16 0 } with
  | (_, .error e) => .error e
  | (encoder, .ok ()) => .ok encoder.written

def StorageService.answerMain (s : StorageService) (w : Surroundings) (message : Delivered) :
    Result Answer := do
  let context ← validateRpcRequest message storageServiceId w.resolve
  ensure (message.header.operationId == storageOpenPrivateRootOperation)
    (serviceError unknownOperation)
  let _ ← (Osidlc.decode openPrivateRootRequest { input := message.payload }).2
  let principal := context.peer.principal
  let user := context.peer.user
  match s.roots.find principal user with
  | none => .error (storageError rootNotRegistered)
  | some place =>
    s.mint w principal user
      (fun endpoint slot =>
        { slot with
          occupied := true, kind := .rootDirectory, rights := all, principal, user
          root := some place, endpoint := some endpoint, derivation := { caller := context.peer } })
      (encodeOpenPrivateRootResponse all)

def StorageService.dispatchMain (s : StorageService) (w : Surroundings) (arrival : Arrival) :
    StorageService × Option (Result Unit) :=
  match receiveFrom arrival with
  | .error e => (s, some (.error e))
  | .ok message => s.reply w.outcome message.header (s.answerMain w message)

def validObjectRequest (message : Delivered) : Bool :=
  let header := message.header
  hasFlag header.flags request && !hasFlag header.flags response &&
    !hasFlag header.flags event && !hasFlag header.flags error &&
    !hasFlag header.flags oneway && !hasFlag header.flags cancellable &&
    header.serviceId == storageObjectServiceId && header.requestId != 0 && header.handleCount == 0

namespace Request

/-- A result that does not depend on the decoder. -/
def given {α : Type} (result : Result α) : Call Decoder α := fun d => (d, result)

def readU8 : Call Decoder UInt8 := do
  let bytes ← readRaw 1
  pure (spanByte bytes 0)

def readBool : Call Decoder Bool := do
  let value ← readU8
  if value = 0 then pure false
  else if value = 1 then pure true
  else given (.error (ipcError malformedMessage))

/-- Whatever is left over is a violation of the protocol. -/
def requireEnd : Call Decoder Unit := fun d =>
  match Decoder.requireEnd d with
  | (d, .error _) => (d, .error (ipcError protocolViolation))
  | (d, .ok ()) => (d, .ok ())

def decodePath : Call Decoder RelativePath := do
  let text ← readUtf8 maxRelativePathBytes
  given (RelativePath.parse text)

def path : Call Decoder RelativePath := do
  let path ← decodePath
  requireEnd
  pure path

def pathAndRights : Call Decoder (RelativePath × RightsMask) := do
  let path ← decodePath
  let requested ← readU32Le
  requireEnd
  pure (path, requested)

def pathAndOptions : Call Decoder (RelativePath × OpenOptions) := do
  let path ← decodePath
  let accessRaw ← readU8
  let createRaw ← readU8
  let truncate ← readBool
  requireEnd
  match FileAccess.ofRaw accessRaw, CreateDisposition.ofRaw createRaw with
  | some access, some create => pure (path, { access, create, truncate })
  | _, _ => given (.error (storageError invalidOptions))

def pathAndContents : Call Decoder (RelativePath × List UInt8) := do
  let path ← decodePath
  let contents ← readBytes maxStorageAtomicBytes
  requireEnd
  pure (path, contents)

def offsetAndCount : Call Decoder (UInt64 × UInt32) := do
  let offset ← readU64Le
  let requested ← readU32Le
  requireEnd
  pure (offset, requested)

def offsetAndBytes : Call Decoder (UInt64 × List UInt8) := do
  let offset ← readU64Le
  let bytes ← readBytes maxStorageIoBytes
  requireEnd
  pure (offset, bytes)

def decode {α : Type} (request : Call Decoder α) (payload : List UInt8) : Result α :=
  (request { input := payload }).2

end Request

def encodeU32 (value : UInt32) (room : Nat) : Result (List UInt8) :=
  match Encoder.writeU32Le value { output := List.replicate room 0 } with
  | (_, .error e) => .error e
  | (encoder, .ok ()) => .ok encoder.written

def encodeU64 (value : UInt64) (room : Nat) : Result (List UInt8) :=
  match Encoder.writeU64Le value { output := List.replicate room 0 } with
  | (_, .error e) => .error e
  | (encoder, .ok ()) => .ok encoder.written

def encodeObjectDescriptor (type : StorageObjectType) (rights : RightsMask) : Result (List UInt8) :=
  let writes : Call Encoder Unit := do
    Encoder.writeU32Le type.raw
    Encoder.writeU32Le rights
  match writes { output := List.replicate 8 0 } with
  | (_, .error e) => .error e
  | (encoder, .ok ()) => .ok encoder.written

section

variable (s : StorageService) (w : Surroundings) (slot : ObjectSlot) (payload : List UInt8)

/-- The directory of the slot, for an operation that needs one. -/
def StorageService.directoryFor : Result Directory :=
  match s.directoryOf slot with
  | some directory => .ok directory
  | none => .error (storageError invalidObjectType)

def StorageService.openFile : Result Answer := do
  ensure slot.isDirectory (storageError invalidObjectType)
  let (path, options) ← Request.decode Request.pathAndOptions payload
  let required ← requiredDirectoryRights options
  ensure (hasRights slot.rights required) (storageError accessDenied)
  let directory ← s.directoryFor slot
  let file ← directory.openFile path options w.opened
  let childNamespace ← slot.canonicalNamespacePath path
  s.mint w slot.principal slot.user
    (fun endpoint child =>
      { child with
        occupied := true, kind := .file, rights := rightsForFile file, principal := slot.principal
        user := slot.user, namespacePath := childNamespace, file, endpoint := some endpoint
        derivation := slot.extended path })
    (encodeObjectDescriptor .file (rightsForFile file))

def StorageService.openDirectory : Result Answer := do
  ensure (slot.isDirectory && hasRights slot.rights DirectoryRights.openDirectory)
    (storageError accessDenied)
  let (path, requested) ← Request.decode Request.pathAndRights payload
  ensure (validDirectoryRights requested && hasRights slot.rights requested)
    (storageError invalidRights)
  let parent ← s.directoryFor slot
  let directory ← parent.openDirectory path w.opened
  let childNamespace ← slot.canonicalNamespacePath path
  s.mint w slot.principal slot.user
    (fun endpoint child =>
      { child with
        occupied := true, kind := .directory, rights := requested, principal := slot.principal
        user := slot.user, namespacePath := childNamespace, directory, endpoint := some endpoint
        derivation := slot.extended path })
    (encodeObjectDescriptor .directory requested)

/-- The operations that create or remove something under a directory. -/
def StorageService.changeDirectory (right : RightsMask) : Result Answer := do
  ensure (slot.isDirectory && hasRights slot.rights right) (storageError accessDenied)
  let path ← Request.decode Request.path payload
  let directory ← s.directoryFor slot
  directory.perform path w.performed
  .ok (.payload [])

/-- With a protected store, the path is the one from the root and the directory is not
used. -/
def StorageService.atomicReplace : Result Answer := do
  ensure (slot.isDirectory && hasRights slot.rights DirectoryRights.atomicReplace)
    (storageError accessDenied)
  let (path, _) ← Request.decode Request.pathAndContents payload
  let directory ← s.directoryFor slot
  if s.protectedReplace then
    let _ ← slot.canonicalNamespacePath path
    w.performed
    .ok (.payload [])
  else
    directory.perform path w.performed
    .ok (.payload [])

def readAt : Result Answer := do
  ensure (slot.isFile && hasRights slot.rights FileRights.read) (storageError accessDenied)
  let (offset, requested) ← Request.decode Request.offsetAndCount payload
  ensure (!decide (maxStorageIoBytes < requested.toNat)) (storageError tooLarge)
  let bytes ← slot.file.readAt offset requested.toNat w.read
  let length ← encodeU32 (UInt32.ofNat bytes.length) 4
  .ok (.payload (length ++ bytes))

def writeAt : Result Answer := do
  ensure (slot.isFile && hasRights slot.rights FileRights.write) (storageError accessDenied)
  let (offset, bytes) ← Request.decode Request.offsetAndBytes payload
  let count ← slot.file.writeAt offset bytes w.written
  let reply ← encodeU32 (UInt32.ofNat count) 4
  .ok (.payload reply)

def sizeOf : Result Answer := do
  ensure (slot.isFile && hasRights slot.rights FileRights.stat) (storageError accessDenied)
  ensure payload.isEmpty (ipcError protocolViolation)
  let size ← slot.file.size w.size
  let reply ← encodeU64 size 8
  .ok (.payload reply)

def syncFile : Result Answer := do
  ensure (slot.isFile && hasRights slot.rights FileRights.sync) (storageError accessDenied)
  ensure payload.isEmpty (ipcError protocolViolation)
  slot.file.sync w.performed
  .ok (.payload [])

def StorageService.operate (operation : UInt32) : Result Answer :=
  if operation = ObjectOperation.openFile then s.openFile w slot payload
  else if operation = ObjectOperation.openDirectory then s.openDirectory w slot payload
  else if operation = ObjectOperation.createDirectory then
    s.changeDirectory w slot payload createDirectory
  else if operation = ObjectOperation.removeFile then
    s.changeDirectory w slot payload removeFile
  else if operation = ObjectOperation.removeDirectory then
    s.changeDirectory w slot payload removeDirectory
  else if operation = ObjectOperation.atomicReplace then s.atomicReplace w slot payload
  else if operation = ObjectOperation.readAt then readAt w slot payload
  else if operation = ObjectOperation.writeAt then writeAt w slot payload
  else if operation = ObjectOperation.size then sizeOf w slot payload
  else if operation = ObjectOperation.sync then syncFile w slot payload
  else .error (serviceError unknownOperation)

end

def StorageService.answerObject (s : StorageService) (w : Surroundings) (slot : ObjectSlot)
    (message : Delivered) : Result Answer := do
  ensure (validObjectRequest message) (ipcError protocolViolation)
  s.operate w slot message.payload message.header.operationId

def isPeerDeath (e : Error) : Bool := e.domain == .ipc && e.code == peerDied

def StorageService.dispatchObject (s : StorageService) (w : Surroundings) (arrival : Arrival)
    (index : Nat) : StorageService × Option (Result Unit) :=
  let slot := s.slotAt index
  if !slot.occupied then (s, some (.error (coreError invalidArgument)))
  else if slot.endpoint.isNone then (s, some (.error (ipcError invalidChannel)))
  else
    match receiveFrom arrival with
    | .error e =>
      if isPeerDeath e then (s.clearSlot index, some (.ok ())) else (s, some (.error e))
    | .ok message => s.reply w.outcome message.header (s.answerObject w slot message)

/-- What `poll` reports of a descriptor. -/
structure Revents where
  input : Bool := false
  hangup : Bool := false

def Revents.any (r : Revents) : Bool := r.input || r.hangup

/-- How `poll` comes back. The descriptors of the objects are found by their slots. -/
inductive Poll where
  | failure
  | timeout
  | ready (main : Revents) (objects : Nat → Revents)

structure Dispatch where
  receiveBuffer : Nat := maxWirePacketSize
  timeoutMs : Int := 0
  poll : Poll
  arrival : Arrival
  surroundings : Surroundings

/-- The first object that something is reported of. -/
def StorageService.readyObject (s : StorageService) (objects : Nat → Revents) : Option Nat :=
  (List.range maxStorageObjects).find? fun index => (s.slotAt index).occupied && (objects index).any

/-- Without a result the dispatch does not return. -/
def StorageService.dispatchOnce (s : StorageService) (d : Dispatch) :
    StorageService × Option (Result Unit) :=
  if d.receiveBuffer < maxWirePacketSize then
    (s, some (.error (ipcError bufferTooSmall)))
  else if d.timeoutMs < -1 then (s, some (.error (coreError invalidArgument)))
  else
    match d.poll with
    | .failure => (s, some (.error (storageError ioFailure)))
    | .timeout => (s, some (.ok ()))
    | .ready main objects =>
      if main.input then s.dispatchMain d.surroundings d.arrival
      else if main.hangup then (s, some (.error (ipcError peerDied)))
      else
        match s.readyObject objects with
        | none => (s, some (.ok ()))
        | some index =>
          if (objects index).input then s.dispatchObject d.surroundings d.arrival index
          else (s.clearSlot index, some (.ok ()))

def validControlRequest (header : WireHeaderV1) : Bool :=
  hasFlag header.flags request && !hasFlag header.flags response &&
    !hasFlag header.flags event && !hasFlag header.flags error &&
    !hasFlag header.flags oneway && !hasFlag header.flags cancellable &&
    header.serviceId == bootstrapServiceId && header.requestId != 0

def decodeRootIdentity (payload : List UInt8) : Result (PrincipalId × UserId) := do
  ensure (payload.length == rootIdentityPayloadSize) (storageError invalidRoot)
  let reads : Call Decoder (PrincipalId × UserId) := do
    let high ← readU64Le
    let low ← readU64Le
    let user ← readU64Le
    requireEnd
    pure (⟨high, low⟩, user)
  let (principal, user) ← (reads { input := payload }).2
  ensure (validPrincipal principal) (storageError invalidRoot)
  .ok (principal, user)

/-- A request on the control channel. `adopted` is what the descriptor of a root opens
to, `identity` what the identity registry answers to a request for it. -/
structure Control where
  arrival : Arrival
  adopted : Result Int32
  identity : Result Unit := .ok ()
  outcome : Option SendOutcome := some .complete

def StorageService.registerFrom (s : StorageService) (c : Control) (message : Delivered) :
    StorageService × Result Unit :=
  if !hasFlag message.header.flags hasHandles || message.header.handleCount != 1 ||
      message.handles.length != 1 then (s, .error (storageError invalidRoot))
  else
    match decodeRootIdentity message.payload with
    | .error e => (s, .error e)
    | .ok (principal, user) =>
      match c.adopted with
      | .error e => (s, .error e)
      | .ok handle =>
        let (roots, result) := s.roots.registerRoot principal user { root := { handle } }
        ({ s with roots }, result)

def StorageService.unregisterFrom (s : StorageService) (message : Delivered) :
    StorageService × Result Unit :=
  if hasFlag message.header.flags hasHandles || message.header.handleCount != 0 ||
      message.handles.length != 0 then (s, .error (storageError invalidRoot))
  else
    match decodeRootIdentity message.payload with
    | .error e => (s, .error e)
    | .ok (principal, user) =>
      match s.roots.unregisterRoot principal user with
      | (roots, .error e) => ({ s with roots }, .error e)
      | (roots, .ok ()) =>
        (({ s with roots } : StorageService).clearObjectsFor principal user, .ok ())

def StorageService.operateControl (s : StorageService) (c : Control) (message : Delivered) :
    StorageService × Result Unit :=
  let operation := message.header.operationId
  if operation = identityOperationRegister then (s, c.identity)
  else if operation = identityOperationUnregister then (s, c.identity)
  else if operation = storageControlRegisterRootOperation then s.registerFrom c message
  else if operation = storageControlUnregisterRootOperation then s.unregisterFrom message
  else (s, .error (serviceError unknownOperation))

def StorageService.dispatchControlOnce (s : StorageService) (c : Control) :
    StorageService × Option (Result Unit) :=
  match receiveFrom c.arrival with
  | .error e => (s, some (.error e))
  | .ok message =>
    if !validControlRequest message.header then
      (s, some (.error (serviceError invalidBootstrap)))
    else
      match s.operateControl c message with
      | (s, .error e) => (s, replyError c.outcome message.header e)
      | (s, .ok ()) => (s, replyResponse c.outcome message.header [] [])

inductive ServiceOp where
  | dispatch (d : Dispatch)
  | control (c : Control)

def StorageService.step (s : StorageService) : ServiceOp → StorageService × Option (Result Unit)
  | .dispatch d => s.dispatchOnce d
  | .control c => s.dispatchControlOnce c

/-- What wakes the loop. -/
inductive Wake where
  | pollFailure
  | controlHangup
  | control (c : Control)
  | service (d : Dispatch)

/-- The process: its service, the status it has ended with, and whether it waits in a
call that does not return. -/
structure Loop where
  service : StorageService := {}
  exited : Option Nat := none
  waiting : Bool := false

/-- A peer that is gone ends the process without an error. -/
def Loop.settle (code : Nat) : StorageService × Option (Result Unit) → Loop
  | (service, none) => { service, waiting := true }
  | (service, some (.ok ())) => { service }
  | (service, some (.error e)) => { service, exited := some (if isPeerDeath e then 0 else code) }

def Loop.running (l : Loop) : Bool := l.exited.isNone && !l.waiting

def Loop.step (l : Loop) (wake : Wake) : Loop × Unit :=
  if !l.running then (l, ())
  else
    match wake with
    | .pollFailure => ({ l with exited := some 14 }, ())
    | .controlHangup => ({ l with exited := some 0 }, ())
    | .control c => (Loop.settle 15 (l.service.dispatchControlOnce c), ())
    | .service d =>
      let d := { d with receiveBuffer := maxWirePacketSize, timeoutMs := 0 }
      (Loop.settle 16 (l.service.dispatchOnce d), ())

end Enml.OsStorage
