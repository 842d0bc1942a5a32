import Enml.Core.Bytes
import Enml.Core.Identity
import Enml.Lib.SlotTable

/-! The key registry. It holds references to keys that a provider owns, decides
who may use which of them, and calls the provider. What the provider answers is an
input of each operation. -/
namespace Enml.OsKeys

open Enml.Core SlotTable

namespace Errors
def invalidKey : UInt32 := 1
def notFound : UInt32 := 2
def accessDenied : UInt32 := 3
def destroyed : UInt32 := 4
def registryFull : UInt32 := 5
def providerFailure : UInt32 := 6
def unsupportedPurpose : UInt32 := 7
def duplicateKeyId : UInt32 := 8
def invalidRights : UInt32 := 9
def ioFailure : UInt32 := 11
def keyVersionMismatch : UInt32 := 17
def versionLimit : UInt32 := 20
def invalidStateDirectory : UInt32 := 21
def malformedRegistrySnapshot : UInt32 := 22
def unsupportedRegistrySnapshot : UInt32 := 23
def registrySnapshotInconsistent : UInt32 := 24
def registrySnapshotTooLarge : UInt32 := 25
end Errors

open Errors

def keyError (code : UInt32) : Error := makeError .key code

structure KeyId where
  high : UInt64 := 0
  low : UInt64 := 0
  deriving DecidableEq

def KeyId.valid (id : KeyId) : Bool := id.high != 0 || id.low != 0

/-- A reference is valid when it is not zero. -/
abbrev ProviderKeyReference := UInt64

/-- The enumeration is filled from a raw number when a snapshot is read, so that it
may hold a value that is not listed. -/
inductive KeyPurpose where
  | applicationDataAead
  | profileStorageAead
  | profileStorageMetadataAead
  | unlisted (raw : UInt32)
  deriving DecidableEq

def validPurpose : KeyPurpose → Bool
  | .applicationDataAead => true
  | .profileStorageAead => true
  | .profileStorageMetadataAead => true
  | .unlisted _ => false

abbrev RightsMask := UInt32

namespace KeyRights
def metadata : RightsMask := 0x1
def encrypt : RightsMask := 0x2
def decrypt : RightsMask := 0x4
def destroy : RightsMask := 0x8
def rotate : RightsMask := 0x10
def all : RightsMask := metadata ||| encrypt ||| decrypt ||| destroy ||| rotate
end KeyRights

open KeyRights

def validRights (value : RightsMask) : Bool := value != 0 && value &&& ~~~all == 0

structure KeyDescriptor where
  id : KeyId := {}
  version : UInt32 := 0
  purpose : KeyPurpose := .applicationDataAead
  rights : RightsMask := 0
  deriving DecidableEq

def KeyDescriptor.valid (d : KeyDescriptor) : Bool :=
  d.id.valid && d.version != 0 && validPurpose d.purpose && validRights d.rights

/-- Whom a key belongs to. -/
structure KeyOwner where
  principal : PrincipalId := {}
  user : UserId := 0
  deriving DecidableEq

def maxKeyRecords : Nat := 128

def maxKeyVersions : Nat := 8

/-- One version of a key, and its key at the provider. -/
structure KeyVersionRecord where
  occupied : Bool := false
  destroyed : Bool := false
  version : UInt32 := 0
  providerKey : ProviderKeyReference := 0
  deriving DecidableEq

def KeyVersionRecord.key (v : KeyVersionRecord) : Option UInt32 :=
  if v.occupied then some v.version else none

/-- A key with its versions; a destroyed one keeps its place. -/
structure KeyRecord where
  occupied : Bool := false
  destroyed : Bool := false
  owner : KeyOwner := {}
  descriptor : KeyDescriptor := {}
  versions : List KeyVersionRecord := List.replicate maxKeyVersions {}
  deriving DecidableEq

def KeyRecord.key (r : KeyRecord) : Option KeyId :=
  if r.occupied then some r.descriptor.id else none

/-- Every key, with what it is for and who may use it. -/
structure KeyRegistry where
  records : List KeyRecord := List.replicate maxKeyRecords {}
  deriving DecidableEq

/-- The calls that reach the provider. -/
inductive ProviderCall where
  | generate (purpose : KeyPurpose)
  | seal (key : ProviderKeyReference)
  | open (key : ProviderKeyReference)
  | destroy (key : ProviderKeyReference)

/-- What an operation returns, and the calls it made on the way. -/
structure Answer (α : Type) where
  result : Result α
  calls : List ProviderCall := []

def Answer.refuse {α : Type} (code : UInt32) : Answer α := { result := .error (keyError code) }

namespace KeyRecord

def findVersion (record : KeyRecord) (version : UInt32) : Option KeyVersionRecord :=
  lookup KeyVersionRecord.key version record.versions

/-- Fill the first free version slot with the next version. -/
def extend (record : KeyRecord) (key : ProviderKeyReference) : KeyRecord :=
  let version := record.descriptor.version + 1
  { record with
    descriptor := { record.descriptor with version }
    versions := (insert KeyVersionRecord.key
      { occupied := true, version, providerKey := key } record.versions).getD record.versions }

/-- The versions that a destruction hands to the provider. -/
def pending (v : KeyVersionRecord) : Bool := v.occupied && !v.destroyed

/-- The loop of `destroy`. The provider answers for each slot; a version whose key is
gone is marked, one that fails stays as it is. -/
def destroyVersions (record : KeyRecord) (answers : Nat → Result Unit) : List KeyVersionRecord :=
  record.versions.mapIdx fun i v =>
    if !pending v then v
    else
      match answers i with
      | .error _ => v
      | .ok () => { v with destroyed := true, providerKey := 0 }

def firstFailure (record : KeyRecord) (answers : Nat → Result Unit) : Option Error :=
  record.versions.zipIdx.findSome? fun (v, i) =>
    if !pending v then none
    else
      match answers i with
      | .error e => some e
      | .ok () => none

end KeyRecord

namespace KeyRegistry

def find (r : KeyRegistry) (id : KeyId) : Option KeyRecord := lookup KeyRecord.key id r.records

def authorizeRecord (r : KeyRegistry) (caller : KeyOwner) (id : KeyId)
    (requiredRight : RightsMask) : Result KeyRecord :=
  if !id.valid then .error (keyError invalidKey)
  else if !validRights requiredRight then .error (keyError invalidRights)
  else
    match r.find id with
    | none => .error (keyError notFound)
    | some record =>
      if record.owner ≠ caller then .error (keyError accessDenied)
      else if record.destroyed then .error (keyError destroyed)
      else if record.descriptor.rights &&& requiredRight ≠ requiredRight then
        .error (keyError accessDenied)
      else .ok record

def authorizeVersion (r : KeyRegistry) (caller : KeyOwner) (id : KeyId) (keyVersion : UInt32)
    (requiredRight : RightsMask) (requireCurrent : Bool) : Result KeyVersionRecord :=
  if keyVersion = 0 then .error (keyError invalidKey)
  else
    match r.authorizeRecord caller id requiredRight with
    | .error e => .error e
    | .ok record =>
      if requireCurrent = true ∧ record.descriptor.version ≠ keyVersion then
        .error (keyError keyVersionMismatch)
      else
        match record.findVersion keyVersion with
        | none => .error (keyError keyVersionMismatch)
        | some version =>
          if version.destroyed then .error (keyError destroyed)
          else if version.providerKey = 0 then .error (keyError providerFailure)
          else .ok version

/-- Fill the first free record with a key and its first version. -/
def enroll (r : KeyRegistry) (owner : KeyOwner) (descriptor : KeyDescriptor)
    (key : ProviderKeyReference) : KeyRegistry :=
  let record : KeyRecord :=
    { occupied := true, owner, descriptor
      versions := (List.replicate maxKeyVersions {}).set 0
        { occupied := true, version := 1, providerKey := key } }
  { r with records := (insert KeyRecord.key record r.records).getD r.records }

def full (r : KeyRegistry) : Bool := r.records.all fun record => record.occupied

def create (r : KeyRegistry) (owner : KeyOwner) (id : KeyId) (purpose : KeyPurpose)
    (grantedRights : RightsMask) (generated : Result ProviderKeyReference) :
    KeyRegistry × Answer KeyDescriptor :=
  if !validPrincipal owner.principal || !id.valid then (r, .refuse invalidKey)
  else if !validPurpose purpose then (r, .refuse unsupportedPurpose)
  else if !validRights grantedRights then (r, .refuse invalidRights)
  else if (r.find id).isSome then (r, .refuse duplicateKeyId)
  else if r.full then (r, .refuse registryFull)
  else
    match generated with
    | .error e => (r, { result := .error e, calls := [.generate purpose] })
    | .ok key =>
      if key = 0 then
        (r, { result := .error (keyError providerFailure), calls := [.generate purpose] })
      else
        let descriptor : KeyDescriptor := { id, version := 1, purpose, rights := grantedRights }
        (r.enroll owner descriptor key, { result := .ok descriptor, calls := [.generate purpose] })

def adoptGenerated (r : KeyRegistry) (owner : KeyOwner) (id : KeyId) (purpose : KeyPurpose)
    (grantedRights : RightsMask) (key : ProviderKeyReference) :
    KeyRegistry × Answer KeyDescriptor :=
  if !validPrincipal owner.principal || !id.valid || key == 0 then (r, .refuse invalidKey)
  else if !validPurpose purpose then (r, .refuse unsupportedPurpose)
  else if !validRights grantedRights then (r, .refuse invalidRights)
  else if (r.find id).isSome then (r, .refuse duplicateKeyId)
  else if r.full then (r, .refuse registryFull)
  else
    let descriptor : KeyDescriptor := { id, version := 1, purpose, rights := grantedRights }
    (r.enroll owner descriptor key, { result := .ok descriptor })

def describe (r : KeyRegistry) (caller : KeyOwner) (id : KeyId) : Answer KeyDescriptor :=
  match r.authorizeRecord caller id metadata with
  | .error e => { result := .error e }
  | .ok record => { result := .ok record.descriptor }

/-- Rewrite the record that `find` returns. -/
def modify (r : KeyRegistry) (id : KeyId) (f : KeyRecord → KeyRecord) : KeyRegistry :=
  { r with records := SlotTable.modify KeyRecord.key id f r.records }

/-- The record gets its next version. -/
def advance (r : KeyRegistry) (id : KeyId) (key : ProviderKeyReference) : KeyRegistry :=
  r.modify id fun record => record.extend key

/-- The checks of both rotations, up to the one for a free version slot. -/
def rotatable (r : KeyRegistry) (caller : KeyOwner) (id : KeyId) : Result KeyRecord :=
  match r.authorizeRecord caller id rotate with
  | .error e => .error e
  | .ok _ =>
    match r.find id with
    | none => .error (keyError notFound)
    | some record =>
      if record.descriptor.version = 0xFFFFFFFF then .error (keyError versionLimit)
      else if record.versions.all fun v => v.occupied then
        .error (keyError versionLimit)
      else .ok record

def rotate (r : KeyRegistry) (caller : KeyOwner) (id : KeyId)
    (generated : Result ProviderKeyReference) : KeyRegistry × Answer KeyDescriptor :=
  match r.rotatable caller id with
  | .error e => (r, { result := .error e })
  | .ok record =>
    let calls := [.generate record.descriptor.purpose]
    match generated with
    | .error e => (r, { result := .error e, calls })
    | .ok key =>
      if key = 0 then (r, { result := .error (keyError providerFailure), calls })
      else (r.advance id key, { result := .ok (record.extend key).descriptor, calls })

def rotateAdoptGenerated (r : KeyRegistry) (caller : KeyOwner) (id : KeyId)
    (key : ProviderKeyReference) : KeyRegistry × Answer KeyDescriptor :=
  if key = 0 then (r, .refuse providerFailure)
  else
    match r.rotatable caller id with
    | .error e => (r, { result := .error e })
    | .ok record => (r.advance id key, { result := .ok (record.extend key).descriptor })

def providerReference (r : KeyRegistry) (caller : KeyOwner) (id : KeyId)
    (requiredRight : RightsMask) : Answer ProviderKeyReference :=
  match r.find id with
  | none => .refuse notFound
  | some record =>
    match r.authorizeVersion caller id record.descriptor.version requiredRight true with
    | .error e => { result := .error e }
    | .ok version => { result := .ok version.providerKey }

/-- `KeyRegistry::seal`; `sealed` is what the provider answers. -/
def sealPlaintext (r : KeyRegistry) (caller : KeyOwner) (id : KeyId) (keyVersion : UInt32)
    (sealed : Result Nat) : Answer Nat :=
  match r.authorizeVersion caller id keyVersion encrypt true with
  | .error e => { result := .error e }
  | .ok version => { result := sealed, calls := [.seal version.providerKey] }

/-- `KeyRegistry::open`. -/
def openCiphertext (r : KeyRegistry) (caller : KeyOwner) (id : KeyId) (keyVersion : UInt32)
    (opened : Result Nat) : Answer Nat :=
  match r.authorizeVersion caller id keyVersion decrypt false with
  | .error e => { result := .error e }
  | .ok version => { result := opened, calls := [.open version.providerKey] }

def destroy (r : KeyRegistry) (caller : KeyOwner) (id : KeyId) (answers : Nat → Result Unit) :
    KeyRegistry × Answer Unit :=
  match r.authorizeRecord caller id KeyRights.destroy with
  | .error e => (r, { result := .error e })
  | .ok _ =>
    match r.find id with
    | none => (r, .refuse notFound)
    | some record =>
      let calls := (record.versions.filter KeyRecord.pending).map fun v => .destroy v.providerKey
      let versions := record.destroyVersions answers
      match record.firstFailure answers with
      | some e =>
        (r.modify id fun record => { record with versions }, { result := .error e, calls })
      | none =>
        (r.modify id fun record => { record with versions, destroyed := true },
          { result := .ok (), calls })

end KeyRegistry

/-- The calls on the registry. -/
inductive KeyOp where
  | create (owner : KeyOwner) (id : KeyId) (purpose : KeyPurpose) (rights : RightsMask)
      (generated : Result ProviderKeyReference)
  | adoptGenerated (owner : KeyOwner) (id : KeyId) (purpose : KeyPurpose) (rights : RightsMask)
      (key : ProviderKeyReference)
  | describe (caller : KeyOwner) (id : KeyId)
  | rotate (caller : KeyOwner) (id : KeyId) (generated : Result ProviderKeyReference)
  | rotateAdoptGenerated (caller : KeyOwner) (id : KeyId) (key : ProviderKeyReference)
  | providerReference (caller : KeyOwner) (id : KeyId) (requiredRight : RightsMask)
  | sealPlaintext (caller : KeyOwner) (id : KeyId) (keyVersion : UInt32) (sealed : Result Nat)
  | openCiphertext (caller : KeyOwner) (id : KeyId) (keyVersion : UInt32) (opened : Result Nat)
  | destroy (caller : KeyOwner) (id : KeyId) (answers : Nat → Result Unit)

inductive KeyValue where
  | descriptor (descriptor : KeyDescriptor)
  | reference (key : ProviderKeyReference)
  | size (count : Nat)
  | done

def Answer.map {α β : Type} (f : α → β) (a : Answer α) : Answer β :=
  { result := a.result.map f, calls := a.calls }

def KeyRegistry.step (r : KeyRegistry) : KeyOp → KeyRegistry × Answer KeyValue
  | .create owner keyId purpose rights generated =>
    (r.create owner keyId purpose rights generated).map id (Answer.map .descriptor)
  | .adoptGenerated owner keyId purpose rights key =>
    (r.adoptGenerated owner keyId purpose rights key).map id (Answer.map .descriptor)
  | .describe caller keyId => (r, (r.describe caller keyId).map .descriptor)
  | .rotate caller keyId generated =>
    (r.rotate caller keyId generated).map id (Answer.map .descriptor)
  | .rotateAdoptGenerated caller keyId key =>
    (r.rotateAdoptGenerated caller keyId key).map id (Answer.map .descriptor)
  | .providerReference caller keyId requiredRight =>
    (r, (r.providerReference caller keyId requiredRight).map .reference)
  | .sealPlaintext caller keyId keyVersion sealed =>
    (r, (r.sealPlaintext caller keyId keyVersion sealed).map .size)
  | .openCiphertext caller keyId keyVersion opened =>
    (r, (r.openCiphertext caller keyId keyVersion opened).map .size)
  | .destroy caller keyId answers =>
    (r.destroy caller keyId answers).map id (Answer.map fun _ => .done)

end Enml.OsKeys
