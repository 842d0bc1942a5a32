import Enml.Core.Bytes
import Enml.OsPackage.Registry

/-! The package registry as a file: a header, and for each application its record, its
name and its generations. -/
namespace Enml.OsPackage

open Enml.Core

namespace PersistenceErrors
def invalidStateDirectory : UInt32 := 200
def ioFailure : UInt32 := 201
def snapshotTooLarge : UInt32 := 202
def malformedSnapshot : UInt32 := 203
def unsupportedSnapshotVersion : UInt32 := 204
def snapshotInconsistent : UInt32 := 205
end PersistenceErrors

open PersistenceErrors

def persistenceError (code : UInt32) : Error := makeError .package code

def packageRegistrySnapshotMagic : UInt32 := 0x31525045

def packageRegistrySnapshotVersion : UInt16 := 1

def packageRegistrySnapshotHeaderSize : UInt16 := 24

def maxPackageRegistrySnapshotBytes : Nat := 16 * 1024

def registryApplicationFlagActive : UInt16 := 1

def u16Bytes (value : UInt16) : List UInt8 :=
  [(value &&& 0xFF).toUInt8, ((value >>> 8) &&& 0xFF).toUInt8]

def u32Bytes (value : UInt32) : List UInt8 :=
  (List.range 4).map fun i => ((value >>> UInt32.ofNat (8 * i)) &&& 0xFF).toUInt8

def u64Bytes (value : UInt64) : List UInt8 :=
  (List.range 8).map fun i => ((value >>> UInt64.ofNat (8 * i)) &&& 0xFF).toUInt8

/-- The writer with what it has written so far. A field that does not fit is not
written. -/
def write (done : List UInt8) (field : List UInt8) : Result (List UInt8) :=
  if maxPackageRegistrySnapshotBytes - done.length < field.length then
    .error (persistenceError snapshotTooLarge)
  else .ok (done ++ field)

def writeAll (done : List UInt8) : List (List UInt8) → Result (List UInt8)
  | [] => .ok done
  | field :: rest => do
      let done ← write done field
      writeAll done rest

def encodeHeader (r : PackageRegistry) : Result (List UInt8) :=
  let totalGenerationCount : UInt32 :=
    r.slots.foldl (fun total s => total + UInt32.ofNat s.generations.length) 0
  writeAll [] [u32Bytes packageRegistrySnapshotMagic, u16Bytes packageRegistrySnapshotVersion,
    u16Bytes packageRegistrySnapshotHeaderSize, u32Bytes 0,
    u16Bytes (UInt16.ofNat r.applicationCount), u16Bytes 0, u32Bytes totalGenerationCount,
    u32Bytes 0]

def encodeGenerations (slot : Slot) (done : List UInt8) :
    List PackageGenerationRecord → Result (List UInt8)
  | [] => .ok done
  | generation :: rest =>
    if !generation.valid || generation.application != slot.application then
      .error (persistenceError snapshotInconsistent)
    else do
      let done ← writeAll done [u64Bytes generation.generation, generation.content.toList]
      encodeGenerations slot done rest

def encodeSlot (done : List UInt8) (slot : Slot) : Result (List UInt8) :=
  let text := slot.application.packageId.text
  if !slot.application.valid || text.isEmpty || decide (maxPackageIdBytes < text.length) ||
      slot.generations.isEmpty ||
      decide (registryGenerationsPerApplication < slot.generations.length) ||
      (slot.hasActive && slot.activeGeneration == 0) then
    .error (persistenceError snapshotInconsistent)
  else do
    let flags := if slot.hasActive then registryApplicationFlagActive else 0
    let done ← writeAll done [u16Bytes (UInt16.ofNat text.length),
      u16Bytes (UInt16.ofNat slot.generations.length), u16Bytes flags, u16Bytes 0,
      u64Bytes (if slot.hasActive then slot.activeGeneration else 0),
      slot.application.signerLineage.toList, text]
    let done ← encodeGenerations slot done slot.generations
    -- An active generation has to be one of those that were written.
    if slot.hasActive && !(slot.generations.any fun g => g.generation == slot.activeGeneration) then
      .error (persistenceError snapshotInconsistent)
    else .ok done

def encodeSlots (done : List UInt8) : List Slot → Result (List UInt8)
  | [] => .ok done
  | slot :: rest => do
      let done ← encodeSlot done slot
      encodeSlots done rest

/-- The size goes into the header last. -/
def encodeSnapshot (r : PackageRegistry) : Result (List UInt8) := do
  let done ← encodeHeader r
  let done ← encodeSlots done r.slots
  .ok (writeU32Le done 8 (UInt32.ofNat done.length))

/-- The reader has the bytes in front of it that it has not read. -/
def readBytes (size : Nat) (rest : List UInt8) : Result (List UInt8 × List UInt8) :=
  if rest.length < size then .error (persistenceError malformedSnapshot)
  else .ok (rest.take size, rest.drop size)

def readU16 (rest : List UInt8) : Result (UInt16 × List UInt8) :=
  if rest.length < 2 then .error (persistenceError malformedSnapshot)
  else .ok (readU16Le rest 0, rest.drop 2)

def readU32 (rest : List UInt8) : Result (UInt32 × List UInt8) :=
  if rest.length < 4 then .error (persistenceError malformedSnapshot)
  else .ok (readU32Le rest 0, rest.drop 4)

def readU64 (rest : List UInt8) : Result (UInt64 × List UInt8) :=
  if rest.length < 8 then .error (persistenceError malformedSnapshot)
  else .ok (readU64Le rest 0, rest.drop 8)

def readIdentity (rest : List UInt8) : Result (Vector UInt8 32 × List UInt8) :=
  if rest.length < 32 then .error (persistenceError malformedSnapshot)
  else .ok (Vector.ofFn fun i : Fin 32 => spanByte rest i, rest.drop 32)

/-- A failure inside the registry makes the snapshot an inconsistent one. -/
def consistent {α : Type} (x : Result α) : Result α :=
  match x with
  | .ok a => .ok a
  | .error _ => .error (persistenceError snapshotInconsistent)

structure DecodeState where
  registry : PackageRegistry := {}
  seenPackages : List PackageId := []
  decodedGenerationCount : UInt32 := 0
  rest : List UInt8

def decodeGenerations (application : ApplicationIdentity) :
    (remaining : Nat) → DecodeState → Result DecodeState
  | 0, s => .ok s
  | remaining + 1, s => do
      let (generation, rest) ← readU64 s.rest
      let (content, rest) ← readIdentity rest
      let registry ← consistent (s.registry.stageGeneration { application, generation, content })
      decodeGenerations application remaining
        { s with registry, rest, decodedGenerationCount := s.decodedGenerationCount + 1 }

def decodeApplication (s : DecodeState) : Result DecodeState := do
  let (packageIdSize, rest) ← readU16 s.rest
  let (generationCount, rest) ← readU16 rest
  let (flags, rest) ← readU16 rest
  let (reserved, rest) ← readU16 rest
  let (activeGeneration, rest) ← readU64 rest
  let (signer, rest) ← readIdentity rest
  ensure (packageIdSize != 0 && decide (packageIdSize.toNat ≤ maxPackageIdBytes) &&
      generationCount != 0 &&
      decide (generationCount.toNat ≤ registryGenerationsPerApplication) && reserved == 0 &&
      flags &&& ~~~registryApplicationFlagActive == 0)
    (persistenceError malformedSnapshot)
  let hasActive := flags &&& registryApplicationFlagActive != 0
  ensure (!(hasActive && activeGeneration == 0) && !(!hasActive && activeGeneration != 0))
    (persistenceError snapshotInconsistent)
  ensure (someByte signer) (persistenceError snapshotInconsistent)
  let (packageText, rest) ← readBytes packageIdSize.toNat rest
  let packageId ← consistent (PackageId.parse packageText)
  ensure (!s.seenPackages.contains packageId)
    (persistenceError snapshotInconsistent)
  let application : ApplicationIdentity := { packageId, signerLineage := signer }
  let s ← decodeGenerations application generationCount.toNat
    { s with seenPackages := s.seenPackages ++ [packageId], rest }
  if hasActive then
    let registry ← consistent (s.registry.activate application activeGeneration)
    .ok { s with registry }
  else .ok s

def decodeApplications : (remaining : Nat) → DecodeState → Result DecodeState
  | 0, s => .ok s
  | remaining + 1, s => do
      let s ← decodeApplication s
      decodeApplications remaining s

def decodeSnapshot (bytes : List UInt8) : Result PackageRegistry := do
  let (magic, rest) ← readU32 bytes
  let (version, rest) ← readU16 rest
  let (headerSize, rest) ← readU16 rest
  let (totalSize, rest) ← readU32 rest
  let (applicationCount, rest) ← readU16 rest
  let (reserved0, rest) ← readU16 rest
  let (totalGenerationCount, rest) ← readU32 rest
  let (reserved1, rest) ← readU32 rest
  ensure (magic == packageRegistrySnapshotMagic)
    (persistenceError malformedSnapshot)
  ensure (version == packageRegistrySnapshotVersion)
    (persistenceError unsupportedSnapshotVersion)
  ensure (headerSize == packageRegistrySnapshotHeaderSize &&
      totalSize.toNat == bytes.length && reserved0 == 0 && reserved1 == 0 &&
      decide (applicationCount.toNat ≤ registryApplicationCapacity) &&
      decide (totalGenerationCount.toNat ≤
        registryApplicationCapacity * registryGenerationsPerApplication))
    (persistenceError malformedSnapshot)
  let s ← decodeApplications applicationCount.toNat { rest }
  ensure (s.decodedGenerationCount == totalGenerationCount && s.rest.isEmpty &&
      s.registry.applicationCount == applicationCount.toNat)
    (persistenceError snapshotInconsistent)
  .ok s.registry

/-- What `load_snapshot` makes of the visible file, when it can be read. -/
def loadSnapshot (file : Option (List UInt8)) : Result PackageRegistry :=
  let bytes := file.getD []
  if maxPackageRegistrySnapshotBytes < bytes.length then
    .error (persistenceError snapshotTooLarge)
  else if bytes.isEmpty then .ok {}
  else if bytes.length < packageRegistrySnapshotHeaderSize.toNat then
    .error (persistenceError malformedSnapshot)
  else decodeSnapshot bytes

end Enml.OsPackage
