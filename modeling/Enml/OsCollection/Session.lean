import Enml.OsCollection.Transport

/-! The requests of a collection session, and the client that asks for a window of the
content. -/
namespace Enml.OsCollection

open Enml.Core Enml.OsIpc Enml.OsUi Encoder Decoder

abbrev CollectionSessionId := UInt64

def applicationCollectionSessionServiceId : UInt32 := 0xF016

def collectionSessionOpContent : UInt32 := 3

def sessionSnapshotRequestSizeV1 : Nat := 12

def sessionChangesRequestSizeV1 : Nat := 20

def sessionContentRequestSizeV1 : Nat := 42

def writeRequestPrefix (size : Nat) : Call Encoder Unit := do
  writeU16Le transportVersionV1
  writeU16Le (UInt16.ofNat size)

def readRequestPrefix (expectedSize : Nat) : Call Decoder Unit := do
  let version ← readU16Le
  let size ← readU16Le
  Call.ensure (version == transportVersionV1 && size.toNat == expectedSize) protocolViolation

/-- A request is written when it is valid and the buffer holds `size` bytes. -/
def requestGuard (valid : Bool) (size : Nat) : Call Encoder Unit := fun e =>
  Call.ensure (valid && !decide (e.output.length < size)) protocolViolation e

def encodeSessionRequest (session : CollectionSessionId) : Call Encoder Nat := do
  requestGuard (session != 0) sessionSnapshotRequestSizeV1
  writeRequestPrefix sessionSnapshotRequestSizeV1
  writeU64Le session
  writtenSize

def decodeSessionRequest (payload : List UInt8) : Result CollectionSessionId :=
  let reads : Call Decoder CollectionSessionId := do
    readRequestPrefix sessionSnapshotRequestSizeV1
    let session ← readU64Le
    requireValid (session != 0)
    pure session
  if payload.length ≠ sessionSnapshotRequestSizeV1 then .error protocolViolation
  else (reads { input := payload }).2

def encodeChangesRequest (session : CollectionSessionId) (revision : UInt64) :
    Call Encoder Nat := do
  requestGuard (session != 0 && revision != 0) sessionChangesRequestSizeV1
  writeRequestPrefix sessionChangesRequestSizeV1
  writeU64Le session
  writeU64Le revision
  writtenSize

def decodeChangesRequest (payload : List UInt8) : Result (CollectionSessionId × UInt64) :=
  let reads : Call Decoder (CollectionSessionId × UInt64) := do
    readRequestPrefix sessionChangesRequestSizeV1
    let session ← readU64Le
    let revision ← readU64Le
    requireValid (session != 0 && revision != 0)
    pure (session, revision)
  if payload.length ≠ sessionChangesRequestSizeV1 then .error protocolViolation
  else (reads { input := payload }).2

def requestWindowValid (window : CollectionWindow) : Bool :=
  if maxMaterializedCollectionItems < window.count.toNat ∨
      maxCollectionItems < window.firstIndex.toNat ∨
      maxCollectionItems < window.firstIndex.toNat + window.count.toNat then false
  else if window.count = 0 then true
  else window.itemExtentQ6 != 0 && decide (window.itemExtentQ6.toNat ≤ maxLogicalDimensionQ6)

structure ContentRequest where
  session : CollectionSessionId := 0
  revision : UInt64 := 0
  window : CollectionWindow := {}

def encodeContentRequest (session : CollectionSessionId) (revision : UInt64)
    (window : CollectionWindow) : Call Encoder Nat := do
  requestGuard (session != 0 && revision != 0 && requestWindowValid window)
    sessionContentRequestSizeV1
  writeRequestPrefix sessionContentRequestSizeV1
  writeU64Le session
  writeU64Le revision
  writeU32Le window.firstIndex
  writeU16Le window.count
  writeU32Le window.firstItemOffsetQ6.toUInt32
  writeU32Le window.itemExtentQ6
  writeU64Le window.contentExtentQ6
  writtenSize

def decodeContentRequest (payload : List UInt8) : Result ContentRequest :=
  let reads : Call Decoder ContentRequest := do
    readRequestPrefix sessionContentRequestSizeV1
    let session ← readU64Le
    let revision ← readU64Le
    let firstIndex ← readU32Le
    let count ← readU16Le
    let firstOffset ← readU32Le
    let itemExtentQ6 ← readU32Le
    let contentExtentQ6 ← readU64Le
    requireValid (session != 0 && revision != 0)
    let window : CollectionWindow :=
      { firstIndex, count, firstItemOffsetQ6 := firstOffset.toInt32, itemExtentQ6, contentExtentQ6 }
    Call.ensure (requestWindowValid window) protocolViolation
    pure { session, revision, window }
  if payload.length ≠ sessionContentRequestSizeV1 then .error protocolViolation
  else (reads { input := payload }).2

/-- What a call on the connection brings back. -/
structure Response where
  handleCount : Nat := 0
  payload : List UInt8 := []

/-- The answer to a request for content, over a connection that may answer anything. -/
def contentWindow (session : CollectionSessionId)
    (call : (serviceId operationId : UInt32) → List UInt8 → Result Response)
    (revision : UInt64) (window : CollectionWindow) : Result CollectionContentWindow :=
  if session = 0 then .error protocolViolation
  else
    match encodeContentRequest session revision window
        { output := List.replicate sessionContentRequestSizeV1 0 } with
    | (_, .error e) => .error e
    | (request, .ok size) => do
        let response ← call applicationCollectionSessionServiceId collectionSessionOpContent
          (request.output.take size)
        if response.handleCount ≠ 0 then .error protocolViolation
        else
          let output ← decodeContentWindowV1 response.payload
          if output.revision ≠ revision ∨ output.window.firstIndex ≠ window.firstIndex ∨
              output.window.count ≠ window.count ∨
              output.window.firstItemOffsetQ6 ≠ window.firstItemOffsetQ6 ∨
              output.window.itemExtentQ6 ≠ window.itemExtentQ6 ∨
              output.window.contentExtentQ6 ≠ window.contentExtentQ6 then
            .error protocolViolation
          else .ok output

end Enml.OsCollection
