import Enml.OsIpc.Codec
import Enml.OsUi.Collection

/-! The records of a collection session as bytes. Each starts with a version and its own
size. -/
namespace Enml.OsCollection

open Enml.Core Enml.OsIpc Enml.OsUi Decoder Call

def transportVersionV1 : UInt16 := 1

def snapshotRecordSizeV1 : Nat := 16

def changeRecordSizeV1 : Nat := 13

def changeSetHeaderSizeV1 : Nat := 29

def maxChangeSetSizeV1 : Nat := changeSetHeaderSizeV1 + maxCollectionChanges * changeRecordSizeV1

def contentWindowHeaderSizeV1 : Nat := 36

def maxContentItemSizeV1 : Nat := 4 + 8 + 1 + 4 + maxSemanticTextBytes + 4 + maxSemanticTextBytes

def maxContentWindowSizeV1 : Nat :=
  contentWindowHeaderSizeV1 + maxMaterializedCollectionItems * maxContentItemSizeV1

def contentEnabled : UInt8 := 1

def contentSelected : UInt8 := 2

def knownContentFlags : UInt8 := contentEnabled ||| contentSelected

def protocolViolation : Error := ipcError OsIpc.Errors.protocolViolation

def writePrefix (size : Nat) : Call Encoder Unit := do
  ensure (decide (size ≤ 0xFFFF)) (ipcError OsIpc.Errors.oversizedMessage)
  Encoder.writeU16Le transportVersionV1
  Encoder.writeU16Le (UInt16.ofNat size)

def readPrefix (expectedSize : Nat) : Call Decoder Unit := do
  let version ← readU16Le
  let size ← readU16Le
  ensure (version == transportVersionV1 && size.toNat == expectedSize) protocolViolation

/-- What an encoder returns: the number of bytes it has written. -/
def writtenSize : Call Encoder Nat := fun e => (e, .ok e.written.length)

/-- The end of the payload has been reached, and what was read is a value. -/
def requireValid (valid : Bool) : Call Decoder Unit := fun d =>
  match requireEnd d with
  | (d, .error _) => (d, .error protocolViolation)
  | (d, .ok ()) => ensure valid protocolViolation d

def snapshotValid (snapshot : CollectionDataSnapshot) : Bool :=
  snapshot.revision != 0 && decide (snapshot.itemCount.toNat ≤ maxCollectionItems)

def encodeSnapshotV1 (snapshot : CollectionDataSnapshot) : Call Encoder Nat := do
  ensure (snapshotValid snapshot) protocolViolation
  writePrefix snapshotRecordSizeV1
  Encoder.writeU64Le snapshot.revision
  Encoder.writeU32Le snapshot.itemCount
  writtenSize

def decodeSnapshotV1 (payload : List UInt8) : Result CollectionDataSnapshot :=
  let reads : Call Decoder CollectionDataSnapshot := do
    readPrefix snapshotRecordSizeV1
    let revision ← readU64Le
    let itemCount ← readU32Le
    requireValid (snapshotValid { revision, itemCount })
    pure { revision, itemCount }
  if payload.length ≠ snapshotRecordSizeV1 then .error protocolViolation
  else (reads { input := payload }).2

def changeKindRaw : CollectionChangeKind → UInt8
  | .insert => 1
  | .remove => 2
  | .move => 3
  | .update => 4
  | .reset => 5

/-- The enumerator with a number. -/
def changeKindOf (raw : UInt8) : Option CollectionChangeKind :=
  [.insert, .remove, .move, .update, .reset].find? fun kind => changeKindRaw kind == raw

def writeChanges : List CollectionChange → Call Encoder Unit
  | [] => pure ()
  | change :: rest => do
      Encoder.writeU8 (changeKindRaw change.kind)
      Encoder.writeU32Le change.index
      Encoder.writeU32Le change.count
      Encoder.writeU32Le change.destinationIndex
      writeChanges rest

def encodeChangeSetV1 (changes : CollectionChangeSet) : Call Encoder Nat := do
  ensure (collectionChangeSetValid changes) protocolViolation
  writePrefix (changeSetHeaderSizeV1 + changes.count.toNat * changeRecordSizeV1)
  Encoder.writeU64Le changes.fromRevision
  Encoder.writeU64Le changes.toRevision
  Encoder.writeU32Le changes.oldItemCount
  Encoder.writeU32Le changes.newItemCount
  Encoder.writeU8 changes.count
  writeChanges changes.applied
  writtenSize

def decodedKind (raw : UInt8) : Call Decoder CollectionChangeKind :=
  match changeKindOf raw with
  | none => fail protocolViolation
  | some kind => pure kind

def readChange : Call Decoder CollectionChange := do
  let raw ← readU8
  let index ← readU32Le
  let count ← readU32Le
  let destinationIndex ← readU32Le
  let kind ← decodedKind raw
  pure { kind, index, count, destinationIndex }

def readChanges : (remaining : Nat) → Call Decoder (List CollectionChange)
  | 0 => pure []
  | remaining + 1 => do
      let change ← readChange
      let rest ← readChanges remaining
      pure (change :: rest)

/-- The array with the changes at its front. -/
def changeArray (changes : List CollectionChange) : Vector CollectionChange 16 :=
  Vector.ofFn fun i : Fin 16 => changes.getD i {}

def decodeChangeSetV1 (payload : List UInt8) : Result CollectionChangeSet :=
  let reads : Call Decoder CollectionChangeSet := do
    let version ← readU16Le
    let encodedSize ← readU16Le
    let fromRevision ← readU64Le
    let toRevision ← readU64Le
    let oldItemCount ← readU32Le
    let newItemCount ← readU32Le
    let count ← readU8
    ensure (version == transportVersionV1 && encodedSize.toNat == payload.length &&
        changeSetHeaderSizeV1 + count.toNat * changeRecordSizeV1 == payload.length &&
        decide (count.toNat ≤ maxCollectionChanges)) protocolViolation
    let changes ← readChanges count.toNat
    let output : CollectionChangeSet :=
      { fromRevision, toRevision, oldItemCount, newItemCount
        changes := changeArray changes, count }
    requireValid (collectionChangeSetValid output)
    pure output
  if payload.length < changeSetHeaderSizeV1 ∨ maxChangeSetSizeV1 < payload.length then
    .error protocolViolation
  else (reads { input := payload }).2

/-- The items of a window from one of them on. Each is compared with those before it. -/
def itemsValid (firstIndex : UInt32) (prior : List CollectionPublishedItem) :
    List CollectionPublishedItem → Bool
  | [] => true
  | item :: rest =>
    if item.itemIndex != firstIndex + UInt32.ofNat prior.length || item.itemKey == 0 ||
        item.content.primaryLabel.empty || !semanticTextValid item.content.primaryLabel ||
        !semanticTextValid item.content.secondaryLabel then false
    else if prior.any fun earlier => earlier.itemKey == item.itemKey then false
    else itemsValid firstIndex (prior ++ [item]) rest

def contentWindowValid (value : CollectionContentWindow) : Bool :=
  if value.revision = 0 ∨ value.count ≠ value.window.count ∨
      maxMaterializedCollectionItems < value.count.toNat ∨
      maxCollectionItems < value.window.firstIndex.toNat ∨
      maxCollectionItems < value.window.endIndex.toNat then false
  else if value.count ≠ 0 ∧ value.window.itemExtentQ6 = 0 then false
  else itemsValid value.window.firstIndex [] value.published

def encodedItemSize (item : CollectionPublishedItem) : Nat :=
  21 + item.content.primaryLabel.view.length + item.content.secondaryLabel.view.length

def encodedContentWindowSize (value : CollectionContentWindow) : Result Nat :=
  if !contentWindowValid value then .error protocolViolation
  else
    let size := value.published.foldl (fun size item => size + encodedItemSize item)
      contentWindowHeaderSizeV1
    if maxContentWindowSizeV1 < size ∨ maxInlinePayloadSize < size ∨ 0xFFFF < size then
      .error (ipcError OsIpc.Errors.oversizedMessage)
    else .ok size

def itemFlags (content : CollectionItemContent) : UInt8 :=
  (if content.enabled then contentEnabled else 0) |||
    (if content.selected then contentSelected else 0)

def writeItems : List CollectionPublishedItem → Call Encoder Unit
  | [] => pure ()
  | item :: rest => do
      Encoder.writeU32Le item.itemIndex
      Encoder.writeU64Le item.itemKey
      Encoder.writeU8 (itemFlags item.content)
      Encoder.writeUtf8 item.content.primaryLabel.view maxSemanticTextBytes
      Encoder.writeUtf8 item.content.secondaryLabel.view maxSemanticTextBytes
      writeItems rest

/-- The writes of `encode_content_window_v1`, with the size that was computed before. -/
def writeContentWindow (value : CollectionContentWindow) (size : Nat) : Call Encoder Nat := do
  writePrefix size
  Encoder.writeU64Le value.revision
  Encoder.writeU32Le value.window.firstIndex
  Encoder.writeU16Le value.window.count
  Encoder.writeU32Le value.window.firstItemOffsetQ6.toUInt32
  Encoder.writeU32Le value.window.itemExtentQ6
  Encoder.writeU64Le value.window.contentExtentQ6
  Encoder.writeU16Le value.count
  writeItems value.published
  let written ← writtenSize
  ensure (written == size) protocolViolation
  pure written

def encodeContentWindowV1 (value : CollectionContentWindow) : Call Encoder Nat :=
  match encodedContentWindowSize value with
  | .error e => fail e
  | .ok size => writeContentWindow value size

/-- A label that was read has to be one of the user interface as well. -/
def readLabel (text : List UInt8) : Call Decoder SemanticText :=
  match makeSemanticText text with
  | .error _ => fail protocolViolation
  | .ok label => pure label

def readItem : Call Decoder CollectionPublishedItem := do
  let itemIndex ← readU32Le
  let itemKey ← readU64Le
  let flags ← readU8
  ensure (flags &&& ~~~knownContentFlags == 0) protocolViolation
  let primary ← readUtf8 maxSemanticTextBytes
  let secondary ← readUtf8 maxSemanticTextBytes
  let primaryLabel ← readLabel primary
  let secondaryLabel ← readLabel secondary
  pure {
    itemIndex, itemKey
    content := {
      primaryLabel, secondaryLabel
      enabled := flags &&& contentEnabled != 0
      selected := flags &&& contentSelected != 0 } }

def readItems : (remaining : Nat) → Call Decoder (List CollectionPublishedItem)
  | 0 => pure []
  | remaining + 1 => do
      let item ← readItem
      let rest ← readItems remaining
      pure (item :: rest)

def itemArray (items : List CollectionPublishedItem) : Vector CollectionPublishedItem 32 :=
  Vector.ofFn fun i : Fin 32 => items.getD i {}

/-- The window that is handed out when the whole payload could be read. -/
def decodeContentWindowV1 (payload : List UInt8) : Result CollectionContentWindow :=
  let reads : Call Decoder CollectionContentWindow := do
    let version ← readU16Le
    let encodedSize ← readU16Le
    let revision ← readU64Le
    let firstIndex ← readU32Le
    let windowCount ← readU16Le
    let firstOffset ← readU32Le
    let itemExtentQ6 ← readU32Le
    let contentExtentQ6 ← readU64Le
    let itemCount ← readU16Le
    ensure (version == transportVersionV1 && encodedSize.toNat == payload.length &&
        revision != 0 && windowCount == itemCount &&
        decide (itemCount.toNat ≤ maxMaterializedCollectionItems)) protocolViolation
    let items ← readItems itemCount.toNat
    let output : CollectionContentWindow :=
      { revision
        window := { firstIndex, count := windowCount, firstItemOffsetQ6 := firstOffset.toInt32
                    itemExtentQ6, contentExtentQ6 }
        items := itemArray items, count := itemCount }
    requireValid (contentWindowValid output)
    pure output
  if payload.length < contentWindowHeaderSizeV1 ∨ maxContentWindowSizeV1 < payload.length then
    .error protocolViolation
  else (reads { input := payload }).2

end Enml.OsCollection
