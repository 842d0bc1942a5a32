import Enml.Lib.Interruptible
import Enml.OsKeys.Registry

/-! The snapshot of the key registry: its bytes, how it is written to the state
directory and how it is read back. Every call of the operating system and of the
provider is a step at which the process may see a failure or be stopped. -/
namespace Enml.OsKeys

open Enml.Core Interruptible Program Errors

def keyRegistrySnapshotMagicV1 : UInt32 := 0x3147524B

def keyRegistrySnapshotVersionV1 : UInt16 := 1

def keyRegistrySnapshotHeaderSizeV1 : UInt16 := 32

def maxKeyRegistrySnapshotBytes : Nat := 288 * 1024

def keyRegistryBindingBytesV1 : Nat := 60

def recordFlagDestroyed : UInt16 := 1

def recordKnownFlags : UInt16 := recordFlagDestroyed

def recordHeaderBytes : Nat := 60

def versionHeaderBytes : Nat := 8

def bindingMagicV1 : UInt32 := 0x3144424B

def bindingVersionV1 : UInt16 := 1

def maxPersistentProviderBlobBytes : Nat := 256

def KeyPurpose.raw : KeyPurpose → UInt32
  | .applicationDataAead => 1
  | .profileStorageAead => 2
  | .profileStorageMetadataAead => 3
  | .unlisted raw => raw

def KeyPurpose.ofRaw (raw : UInt32) : KeyPurpose :=
  if raw = 1 then .applicationDataAead
  else if raw = 2 then .profileStorageAead
  else if raw = 3 then .profileStorageMetadataAead
  else .unlisted raw

def makeBinding (owner : KeyOwner) (descriptor : KeyDescriptor) (version : UInt32) :
    Result (List UInt8) :=
  if !validPrincipal owner.principal || !descriptor.valid || version == 0 then
    .error (keyError registrySnapshotInconsistent)
  else
    let binding := List.replicate keyRegistryBindingBytesV1 0
    let binding := writeU32Le binding 0 bindingMagicV1
    let binding := writeU16Le binding 4 bindingVersionV1
    let binding := writeU16Le binding 6 (UInt16.ofNat keyRegistryBindingBytesV1)
    let binding := writeU64Le binding 8 descriptor.id.high
    let binding := writeU64Le binding 16 descriptor.id.low
    let binding := writeU64Le binding 24 owner.principal.high
    let binding := writeU64Le binding 32 owner.principal.low
    let binding := writeU64Le binding 40 owner.user
    let binding := writeU32Le binding 48 descriptor.purpose.raw
    let binding := writeU32Le binding 52 descriptor.rights
    .ok (writeU32Le binding 56 version)

def recordBytes (record : KeyRecord) (versionCount : UInt16) : List UInt8 :=
  let bytes := List.replicate recordHeaderBytes 0
  let bytes := writeU64Le bytes 0 record.descriptor.id.high
  let bytes := writeU64Le bytes 8 record.descriptor.id.low
  let bytes := writeU64Le bytes 16 record.owner.principal.high
  let bytes := writeU64Le bytes 24 record.owner.principal.low
  let bytes := writeU64Le bytes 32 record.owner.user
  let bytes := writeU32Le bytes 40 record.descriptor.version
  let bytes := writeU32Le bytes 44 record.descriptor.purpose.raw
  let bytes := writeU32Le bytes 48 record.descriptor.rights
  let bytes := writeU16Le bytes 52 versionCount
  let bytes := writeU16Le bytes 54 (if record.destroyed then recordFlagDestroyed else 0)
  writeU32Le bytes 56 0

def versionBytes (version : UInt32) (blobSize : UInt16) : List UInt8 :=
  let bytes := List.replicate versionHeaderBytes 0
  let bytes := writeU32Le bytes 0 version
  let bytes := writeU16Le bytes 4 blobSize
  writeU16Le bytes 6 0

/-- What the loops of `persist_candidate` have counted. -/
structure Tally where
  totalSize : Nat
  recordCount : UInt16 := 0
  totalVersionCount : UInt32 := 0

def snapshotHeader (tally : Tally) : List UInt8 :=
  let header := List.replicate keyRegistrySnapshotHeaderSizeV1.toNat 0
  let header := writeU32Le header 0 keyRegistrySnapshotMagicV1
  let header := writeU16Le header 4 keyRegistrySnapshotVersionV1
  let header := writeU16Le header 6 keyRegistrySnapshotHeaderSizeV1
  let header := writeU32Le header 8 (UInt32.ofNat tally.totalSize)
  let header := writeU16Le header 12 tally.recordCount
  let header := writeU16Le header 14 0
  let header := writeU32Le header 16 tally.totalVersionCount
  let header := writeU32Le header 20 0
  writeU64Le header 24 0

def addSize (total amount : Nat) : Option Nat :=
  if maxKeyRegistrySnapshotBytes < total ∨ maxKeyRegistrySnapshotBytes - total < amount then none
  else some (total + amount)

/-- The state directory. A rename replaces the snapshot at once; until the directory
has been synchronized, the ones it replaced may come back when power is lost. -/
structure Disk where
  snapshot : Option (List UInt8) := none
  temp : Option (List UInt8) := none
  older : List (Option (List UInt8)) := []
  deriving DecidableEq

/-- The directory, and the references that have been passed to `provider.destroy`,
each with the directory at that moment. -/
structure World where
  disk : Disk := {}
  destroyed : List (ProviderKeyReference × Disk) := []
  deriving DecidableEq

abbrev Io := Program World Error

/-- A call that has its effect or not. -/
def atomically (effect : Disk → Disk) : Io Unit :=
  let after (w : World) : World := { w with disk := effect w.disk }
  call (fun w => (after w, .ok ())) (fun _ _ w => (w, keyError ioFailure))
    fun extent w => if extent = 0 then w else after w

/-- A call that writes to the temporary file. Of a write that does not get through,
the first bytes may have been written. -/
def writing (write : List UInt8 → List UInt8 → List UInt8) (bytes : List UInt8) : Io Unit :=
  let after (w : World) (bytes : List UInt8) : World :=
    { w with disk := { w.disk with temp := w.disk.temp.map (write bytes) } }
  call (fun w => (after w bytes, .ok ()))
    (fun extent _ w => (after w (bytes.take extent), keyError ioFailure))
    fun extent w => after w (bytes.take extent)

/-- A call that reads, or asks the provider. -/
def asking {α : Type} (answer : World → Result α) (failure : Error → Error) : Io α :=
  call (fun w => (w, answer w)) (fun _ reported w => (w, failure reported)) fun _ w => w

/-- `provider.destroy`, whose result is discarded. -/
def destroyKey (key : ProviderKeyReference) : Io Unit :=
  let after (w : World) : World := { w with destroyed := w.destroyed ++ [(key, w.disk)] }
  Program.discard (Program.call (fun w => (after w, .ok ())) (fun _ e w => (after w, e))
    fun extent w => if extent = 0 then w else after w)

def destroyKeys : List ProviderKeyReference → Io Unit
  | [] => pure ()
  | key :: rest => do
      destroyKey key
      destroyKeys rest

def unlinkTemp : Io Unit := atomically fun d => { d with temp := none }

/-- The file must not be there yet. -/
def openTemp : Io Unit :=
  let after (w : World) : World := { w with disk := { w.disk with temp := some [] } }
  call
    (fun w => if w.disk.temp.isSome then (w, .error (keyError ioFailure)) else (after w, .ok ()))
    (fun _ _ w => (w, keyError ioFailure))
    fun extent w => if extent = 0 ∨ w.disk.temp.isSome then w else after w

def appendTemp (bytes : List UInt8) : Io Unit := writing (fun more file => file ++ more) bytes

def overwriteTemp (bytes : List UInt8) : Io Unit :=
  writing (fun front file => front ++ file.drop front.length) bytes

def syncFile : Io Unit := atomically id

def renameTemp : Io Unit :=
  atomically fun d => { snapshot := d.temp, temp := none, older := d.snapshot :: d.older }

def syncDirectory : Io Unit := atomically fun d => { d with older := [] }

/-- What the provider answers to `persist_reference`. -/
abbrev Persist := ProviderKeyReference → KeyPurpose → List UInt8 → List UInt8

def persistVersion (persist : Persist) (record : KeyRecord) (number : UInt32) (tally : Tally) :
    Io Tally :=
  match record.findVersion number with
  | none => fail (keyError registrySnapshotInconsistent)
  | some version => do
      require (!version.destroyed && version.providerKey != 0)
        (keyError registrySnapshotInconsistent)
      match makeBinding record.owner record.descriptor number with
      | .error e => fail e
      | .ok binding => do
          let blob ← asking
            (fun _ => .ok (persist version.providerKey record.descriptor.purpose binding)) id
          require (blob.length != 0 && decide (blob.length ≤ maxPersistentProviderBlobBytes))
            (keyError providerFailure)
          match (addSize tally.totalSize versionHeaderBytes).bind (addSize · blob.length) with
          | none => fail (keyError registrySnapshotTooLarge)
          | some totalSize => do
              appendTemp (versionBytes number (UInt16.ofNat blob.length))
              appendTemp blob
              pure { tally with totalSize, totalVersionCount := tally.totalVersionCount + 1 }

/-- The loop over the versions of a record, with `remaining` of them to come. -/
def persistVersions (persist : Persist) (record : KeyRecord) :
    (remaining : Nat) → (number : UInt32) → Tally → Io Tally
  | 0, _, tally => pure tally
  | remaining + 1, number, tally => do
      let tally ← persistVersion persist record number tally
      persistVersions persist record remaining (number + 1) tally

def persistRecord (persist : Persist) (record : KeyRecord) (tally : Tally) : Io Tally :=
  if !record.occupied then pure tally
  else do
    require (record.descriptor.valid && validPrincipal record.owner.principal)
      (keyError registrySnapshotInconsistent)
    require (record.destroyed || decide (record.descriptor.version.toNat ≤ maxKeyVersions))
      (keyError registrySnapshotInconsistent)
    let versionCount : UInt16 := if record.destroyed then 0 else record.descriptor.version.toUInt16
    match addSize tally.totalSize recordHeaderBytes with
    | none => fail (keyError registrySnapshotTooLarge)
    | some totalSize => do
        appendTemp (recordBytes record versionCount)
        persistVersions persist record versionCount.toNat 1
          { tally with totalSize, recordCount := tally.recordCount + 1 }

def persistRecords (persist : Persist) : List KeyRecord → Tally → Io Tally
  | [], tally => pure tally
  | record :: rest, tally => do
      let tally ← persistRecord persist record tally
      persistRecords persist rest tally

/-- The steps once the temporary file is there. Whichever of them fails, the file is
removed again. -/
def fillSnapshot (persist : Persist) (candidate : KeyRegistry) : Io Unit := do
  appendTemp (List.replicate keyRegistrySnapshotHeaderSizeV1.toNat 0)
  let tally ← persistRecords persist candidate.records
    { totalSize := keyRegistrySnapshotHeaderSizeV1.toNat }
  require (decide (tally.totalSize ≤ 0xFFFFFFFF))
    (keyError registrySnapshotTooLarge)
  overwriteTemp (snapshotHeader tally)
  syncFile
  renameTemp

/-- `persist_candidate` up to the rename. -/
def replaceSnapshot (persist : Persist) (candidate : KeyRegistry) : Io Unit := do
  unlinkTemp
  openTemp
  onFailure (fillSnapshot persist candidate) unlinkTemp

/-- How `persist_candidate` ends: its error, and whether it has replaced the
snapshot. -/
inductive Persisted where
  | kept (e : Error)
  | replaced (failure : Option Error)

def persistCandidate (persist : Persist) (candidate : KeyRegistry) : Io Persisted :=
  fun w script =>
    match replaceSnapshot persist candidate w script with
    | (w, script, .stopped) => (w, script, .stopped)
    | (w, script, .failed e) => (w, script, .done (.kept e))
    | (w, script, .done ()) =>
      match syncDirectory w script with
      | (w, script, .stopped) => (w, script, .stopped)
      | (w, script, .failed e) => (w, script, .done (.replaced (some e)))
      | (w, script, .done ()) => (w, script, .done (.replaced none))

/-- What the provider answers to `restore_reference`. -/
abbrev Restore := KeyPurpose → List UInt8 → List UInt8 → Result ProviderKeyReference

/-- The references of the registry that are not zero. -/
def providerReferences (registry : KeyRegistry) : List ProviderKeyReference :=
  (registry.records.filter fun record => record.occupied).flatMap fun record =>
    (record.versions.filter fun v => v.occupied && v.providerKey != 0).map fun v => v.providerKey

def cleanupProviderReferences (registry : KeyRegistry) : Io Unit :=
  destroyKeys (providerReferences registry)

/-- The reader of the snapshot: what has been loaded and what is left of the file. -/
structure Loader where
  registry : KeyRegistry := {}
  rest : List UInt8
  consumed : Nat
  restoredVersions : UInt32 := 0

def readExact (rest : List UInt8) (count : Nat) : Io (List UInt8 × List UInt8) :=
  asking (fun _ => if rest.length < count then .error (keyError malformedRegistrySnapshot)
    else .ok (rest.take count, rest.drop count)) fun _ => keyError malformedRegistrySnapshot

/-- Read the next bytes, or give back what has been restored. -/
def Loader.take (loader : Loader) (count : Nat) : Io (List UInt8 × Loader) :=
  onFailure (do
    let (bytes, rest) ← readExact loader.rest count
    match addSize loader.consumed count with
    | none => fail (keyError malformedRegistrySnapshot)
    | some consumed => pure (bytes, { loader with rest, consumed }))
    (cleanupProviderReferences loader.registry)

def Loader.refuse {α : Type} (loader : Loader) (e : Error) : Io α :=
  onFailure (fail e) (cleanupProviderReferences loader.registry)

def Loader.check (loader : Loader) (condition : Bool) (e : Error) : Io Unit :=
  if condition then pure () else loader.refuse e

/-- One round of the loop over the versions of the record `id`. -/
def loadVersion (restore : Restore) (owner : KeyOwner) (descriptor : KeyDescriptor)
    (expectedVersion : UInt32) (loader : Loader) : Io Loader := do
  let (bytes, loader) ← loader.take versionHeaderBytes
  let storedVersion := readU32Le bytes 0
  let blobSize := readU16Le bytes 4
  let versionReserved := readU16Le bytes 6
  loader.check (storedVersion == expectedVersion && blobSize != 0 &&
    decide (blobSize.toNat ≤ maxPersistentProviderBlobBytes) && versionReserved == 0)
    (keyError registrySnapshotInconsistent)
  let (blob, loader) ← loader.take blobSize.toNat
  match makeBinding owner descriptor storedVersion with
  | .error e => loader.refuse e
  | .ok binding => do
      let restored ← onFailure
        (asking (fun _ => restore descriptor.purpose binding blob) id)
        (cleanupProviderReferences loader.registry)
      loader.check (restored != 0) (keyError providerFailure)
      let version : KeyVersionRecord :=
        { occupied := true, version := storedVersion, providerKey := restored }
      pure { loader with
        restoredVersions := loader.restoredVersions + 1
        registry := loader.registry.modify descriptor.id fun record =>
          { record with versions := record.versions.set (expectedVersion.toNat - 1) version } }

def loadVersions (restore : Restore) (owner : KeyOwner) (descriptor : KeyDescriptor) :
    (remaining : Nat) → (expectedVersion : UInt32) → Loader → Io Loader
  | 0, _, loader => pure loader
  | remaining + 1, expectedVersion, loader => do
      let loader ← loadVersion restore owner descriptor expectedVersion loader
      loadVersions restore owner descriptor remaining (expectedVersion + 1) loader

/-- The fields of a record as they are read. -/
structure RecordHeader where
  id : KeyId
  owner : KeyOwner
  currentVersion : UInt32
  purpose : KeyPurpose
  rights : RightsMask
  versionCount : UInt16
  flags : UInt16
  reserved : UInt32

namespace RecordHeader

def parse (bytes : List UInt8) : RecordHeader where
  id := { high := readU64Le bytes 0, low := readU64Le bytes 8 }
  owner :=
    { principal := { high := readU64Le bytes 16, low := readU64Le bytes 24 }
      user := readU64Le bytes 32 }
  currentVersion := readU32Le bytes 40
  purpose := KeyPurpose.ofRaw (readU32Le bytes 44)
  rights := readU32Le bytes 48
  versionCount := readU16Le bytes 52
  flags := readU16Le bytes 54
  reserved := readU32Le bytes 56

def destroyed (h : RecordHeader) : Bool := h.flags &&& recordFlagDestroyed != 0

/-- What the loader asks of a record. -/
def consistent (h : RecordHeader) (registry : KeyRegistry) : Bool :=
  h.id.valid && validPrincipal h.owner.principal && h.currentVersion != 0 &&
    validPurpose h.purpose && validRights h.rights && h.reserved == 0 &&
    h.flags &&& ~~~recordKnownFlags == 0 && (registry.find h.id).isNone &&
    !(h.destroyed && h.versionCount != 0) &&
    !(!h.destroyed && (h.versionCount == 0 || decide (maxKeyVersions < h.versionCount.toNat))) &&
    !(!h.destroyed && h.versionCount.toUInt32 != h.currentVersion)

def descriptor (h : RecordHeader) : KeyDescriptor :=
  { id := h.id, version := h.currentVersion, purpose := h.purpose, rights := h.rights }

/-- The record before its versions are read. -/
def record (h : RecordHeader) : KeyRecord :=
  { occupied := true, destroyed := h.destroyed, owner := h.owner, descriptor := h.descriptor }

end RecordHeader

/-- One round of the loop over the records. -/
def loadRecord (restore : Restore) (loader : Loader) : Io Loader := do
  let (bytes, loader) ← loader.take recordHeaderBytes
  let header := RecordHeader.parse bytes
  loader.check (header.consistent loader.registry) (keyError registrySnapshotInconsistent)
  loader.check (!loader.registry.full) (keyError registrySnapshotInconsistent)
  let registry : KeyRegistry :=
    { records := (SlotTable.insert KeyRecord.key header.record loader.registry.records).getD
        loader.registry.records }
  loadVersions restore header.owner header.descriptor header.versionCount.toNat 1
    { loader with registry }

def loadRecords (restore : Restore) : (remaining : Nat) → Loader → Io Loader
  | 0, loader => pure loader
  | remaining + 1, loader => do
      let loader ← loadRecord restore loader
      loadRecords restore remaining loader

def recordCount (r : KeyRegistry) : Nat := r.records.countP fun record => record.occupied

/-- What the loader asks of the rest of the header, once the magic number and the
version are right. -/
def headerConsistent (header : List UInt8) (fileSize : Nat) : Bool :=
  readU16Le header 6 == keyRegistrySnapshotHeaderSizeV1 &&
    (readU32Le header 8).toNat == fileSize && readU16Le header 14 == 0 &&
    readU32Le header 20 == 0 && readU64Le header 24 == 0 &&
    decide ((readU16Le header 12).toNat ≤ maxKeyRecords) &&
    decide ((readU32Le header 16).toNat ≤ maxKeyRecords * maxKeyVersions)

/-- The part of `load_snapshot` that starts with an open file. -/
def loadFile (restore : Restore) (file : List UInt8) : Io KeyRegistry := do
  require (decide (file.length ≤ maxKeyRegistrySnapshotBytes))
    (keyError registrySnapshotTooLarge)
  require (decide (keyRegistrySnapshotHeaderSizeV1.toNat ≤ file.length))
    (keyError malformedRegistrySnapshot)
  let (header, rest) ← readExact file keyRegistrySnapshotHeaderSizeV1.toNat
  let totalSize := readU32Le header 8
  let count := readU16Le header 12
  let totalVersionCount := readU32Le header 16
  require (readU32Le header 0 == keyRegistrySnapshotMagicV1)
    (keyError malformedRegistrySnapshot)
  require (readU16Le header 4 == keyRegistrySnapshotVersionV1)
    (keyError unsupportedRegistrySnapshot)
  require (headerConsistent header file.length)
    (keyError malformedRegistrySnapshot)
  let loader ← loadRecords restore count.toNat
    { rest, consumed := keyRegistrySnapshotHeaderSizeV1.toNat }
  loader.check (loader.consumed == totalSize.toNat &&
    loader.restoredVersions == totalVersionCount && recordCount loader.registry == count.toNat)
    (keyError registrySnapshotInconsistent)
  pure loader.registry

def loadSnapshot (restore : Restore) : Io KeyRegistry := do
  let file ← asking (fun w => .ok w.disk.snapshot) fun _ => keyError ioFailure
  match file with
  | none => pure {}
  | some file => do
      asking (fun _ => .ok ()) fun _ => keyError ioFailure
      loadFile restore file

end Enml.OsKeys
