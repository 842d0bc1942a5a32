import Enml.Core.Fields
import Enml.Core.Identity
import Enml.Lib.Records
import Enml.OsPackage.Snapshot

/-! The store of application principals. An application gets one for each user, the
principals are numbered as they are handed out, and no number is used again. -/
namespace Enml.OsApp

open Enml.Core
open Enml.OsPackage (ApplicationIdentity PackageId someByte maxPackageIdBytes u16Bytes u32Bytes
  u64Bytes)

def m1ApplicationPrincipalCapacity : Nat := 64

def maxApplicationPrincipalSnapshotBytes : Nat := 16 * 1024

def applicationPrincipalSnapshotMagicV1 : UInt32 := 0x31495045

def applicationPrincipalSnapshotVersionV1 : UInt16 := 1

def applicationPrincipalSnapshotHeaderSizeV1 : UInt16 := 32

def applicationPrincipalHighV1 : UInt64 := 0x4150502E454D4E4C

namespace PrincipalErrors
def unknownProcess : UInt32 := 1
def invalidStateDirectory : UInt32 := 200
def ioFailure : UInt32 := 201
def snapshotTooLarge : UInt32 := 202
def malformedSnapshot : UInt32 := 203
def unsupportedSnapshotVersion : UInt32 := 204
def snapshotInconsistent : UInt32 := 205
def storeFull : UInt32 := 206
def idExhausted : UInt32 := 207
def invalidApplication : UInt32 := 208
end PrincipalErrors

open PrincipalErrors

def principalError (code : UInt32) : Error := makeError .security code

/-- The principal of an application for one user. -/
structure ApplicationPrincipalRecord where
  application : ApplicationIdentity := {}
  user : UserId := 0
  principal : PrincipalId := {}
  deriving DecidableEq

namespace ApplicationPrincipalRecord

def valid (r : ApplicationPrincipalRecord) : Bool :=
  r.application.valid && validPrincipal r.principal &&
    r.principal.high == applicationPrincipalHighV1 && r.principal.low != 0

def sameKey (r : ApplicationPrincipalRecord) (application : ApplicationIdentity) (user : UserId) :
    Bool :=
  r.application == application && r.user == user

/-- The two records must not stand in one store. -/
def collides (r prior : ApplicationPrincipalRecord) : Bool :=
  prior.sameKey r.application r.user || prior.principal == r.principal

end ApplicationPrincipalRecord

/-- The records that are in use, of the 64 there is room for. -/
structure ApplicationPrincipalStore where
  records : List ApplicationPrincipalRecord := []
  nextPrincipalLow : UInt64 := 1

def write (done : List UInt8) (fields : List (List UInt8)) : Result (List UInt8) :=
  putFields maxApplicationPrincipalSnapshotBytes (principalError snapshotTooLarge)
    done fields

def encodeRecord (prior : List ApplicationPrincipalRecord) (done : List UInt8)
    (record : ApplicationPrincipalRecord) : Result (List UInt8) := do
  let text := record.application.packageId.text
  ensure (record.valid && !text.isEmpty && decide (text.length ≤ maxPackageIdBytes) &&
      decide (text.length ≤ 0xFFFF))
    (principalError snapshotInconsistent)
  ensure (!(prior.any record.collides)) (principalError snapshotInconsistent)
  write done [u16Bytes (UInt16.ofNat text.length), u16Bytes 0, u64Bytes record.user,
    u64Bytes record.principal.low, record.application.signerLineage.toList, text]

/-- The records behind `prior`, one after the other. -/
def encodeRecords (prior : List ApplicationPrincipalRecord) (done : List UInt8) :
    List ApplicationPrincipalRecord → Result (List UInt8)
  | [] => .ok done
  | record :: rest => do
      let done ← encodeRecord prior done record
      encodeRecords (prior ++ [record]) done rest

def highestLow (records : List ApplicationPrincipalRecord) : UInt64 :=
  records.foldl
    (fun highest record =>
      if highest < record.principal.low then record.principal.low else highest) 0

/-- What `persist_candidate` is going to write. -/
def encodeSnapshot (candidate : ApplicationPrincipalStore) : Result (List UInt8) := do
  let recordCount := candidate.records.length
  ensure (decide (recordCount ≤ m1ApplicationPrincipalCapacity) && decide (recordCount ≤ 0xFFFF) &&
      candidate.nextPrincipalLow != 0)
    (principalError snapshotInconsistent)
  let done ← write [] [u32Bytes applicationPrincipalSnapshotMagicV1,
    u16Bytes applicationPrincipalSnapshotVersionV1,
    u16Bytes applicationPrincipalSnapshotHeaderSizeV1, u32Bytes 0,
    u16Bytes (UInt16.ofNat recordCount), u16Bytes 0, u64Bytes candidate.nextPrincipalLow,
    u64Bytes 0]
  let done ← encodeRecords [] done candidate.records
  ensure (decide (highestLow candidate.records < candidate.nextPrincipalLow) &&
      decide (done.length ≤ 0xFFFFFFFF))
    (principalError snapshotInconsistent)
  .ok (writeU32Le done 8 (UInt32.ofNat done.length))

def malformed : Error := principalError malformedSnapshot

/-- A package identifier that cannot be parsed makes the snapshot an inconsistent one. -/
def parsePackageId (text : List UInt8) : Result PackageId :=
  match PackageId.parse text with
  | .ok packageId => .ok packageId
  | .error _ => .error (principalError snapshotInconsistent)

def decodeRecord (prior : List ApplicationPrincipalRecord) (rest : List UInt8) :
    Result (ApplicationPrincipalRecord × List UInt8) := do
  let (packageSize, rest) ← takeU16 malformed rest
  let (reserved, rest) ← takeU16 malformed rest
  let (user, rest) ← takeU64 malformed rest
  let (principalLow, rest) ← takeU64 malformed rest
  let (signer, rest) ← takeVector 32 malformed rest
  ensure (packageSize != 0 && decide (packageSize.toNat ≤ maxPackageIdBytes) && reserved == 0 &&
    principalLow != 0) malformed
  let (packageText, rest) ← takeBytes packageSize.toNat malformed rest
  let packageId ← parsePackageId packageText
  ensure (someByte signer) (principalError snapshotInconsistent)
  let record : ApplicationPrincipalRecord := {
    application := { packageId, signerLineage := signer }
    user
    principal := { high := applicationPrincipalHighV1, low := principalLow } }
  ensure record.valid (principalError snapshotInconsistent)
  ensure (!(prior.any record.collides)) (principalError snapshotInconsistent)
  .ok (record, rest)

def decodeSnapshot (bytes : List UInt8) : Result ApplicationPrincipalStore := do
  let (magic, rest) ← takeU32 malformed bytes
  let (version, rest) ← takeU16 malformed rest
  let (headerSize, rest) ← takeU16 malformed rest
  let (totalSize, rest) ← takeU32 malformed rest
  let (recordCount, rest) ← takeU16 malformed rest
  let (reserved0, rest) ← takeU16 malformed rest
  let (nextLow, rest) ← takeU64 malformed rest
  let (reserved1, rest) ← takeU64 malformed rest
  ensure (magic == applicationPrincipalSnapshotMagicV1) malformed
  ensure (version == applicationPrincipalSnapshotVersionV1)
    (principalError unsupportedSnapshotVersion)
  ensure (headerSize == applicationPrincipalSnapshotHeaderSizeV1 &&
    totalSize.toNat == bytes.length && reserved0 == 0 && reserved1 == 0 && nextLow != 0 &&
    decide (recordCount.toNat ≤ m1ApplicationPrincipalCapacity)) malformed
  let (records, rest) ←
    Records.takeAll decodeRecord (fun prior record => prior ++ [record]) recordCount.toNat [] rest
  ensure (rest.isEmpty && decide (highestLow records < nextLow))
    (principalError snapshotInconsistent)
  .ok { records, nextPrincipalLow := nextLow }

/-- What `load` makes of the snapshot file, when it can be read. -/
def loadSnapshot (file : Option (List UInt8)) : Result ApplicationPrincipalStore :=
  let bytes := file.getD []
  if maxApplicationPrincipalSnapshotBytes < bytes.length then
    .error (principalError snapshotTooLarge)
  else if bytes.isEmpty then .ok {}
  else if bytes.length < applicationPrincipalSnapshotHeaderSizeV1.toNat then .error malformed
  else decodeSnapshot bytes

namespace ApplicationPrincipalStore

def find (s : ApplicationPrincipalStore) (application : ApplicationIdentity) (user : UserId) :
    Option ApplicationPrincipalRecord :=
  s.records.find? fun record => record.sameKey application user

def lookup (s : ApplicationPrincipalStore) (application : ApplicationIdentity) (user : UserId) :
    Result ApplicationPrincipalRecord :=
  if !application.valid then .error (principalError invalidApplication)
  else
    match s.find application user with
    | some record => .ok record
    | none => .error (principalError unknownProcess)

/-- The record of the next principal, and the store with it. -/
def allocated (s : ApplicationPrincipalStore) (application : ApplicationIdentity) (user : UserId) :
    ApplicationPrincipalRecord × ApplicationPrincipalStore :=
  let record : ApplicationPrincipalRecord := {
    application
    user
    principal := { high := applicationPrincipalHighV1, low := s.nextPrincipalLow } }
  (record, { records := s.records ++ [record], nextPrincipalLow := s.nextPrincipalLow + 1 })

end ApplicationPrincipalStore

end Enml.OsApp
