import Enml.Core.Result
import Enml.Lib.SlotTable

/-! The registry of installed packages. A package identifier belongs to the signer that
used it first, its generations only grow, and at most one of them is active. -/
namespace Enml.OsPackage

open Enml.Core

namespace Errors
def invalidPackageId : UInt32 := 1
def invalidSignerLineage : UInt32 := 2
def invalidContentDigest : UInt32 := 3
def invalidGeneration : UInt32 := 4
def packageIdCollision : UInt32 := 5
def generationConflict : UInt32 := 6
def generationCapacity : UInt32 := 7
def registryFull : UInt32 := 8
def unknownPackage : UInt32 := 9
def unknownGeneration : UInt32 := 10
def noActiveGeneration : UInt32 := 11
end Errors

open Errors

def packageError (code : UInt32) : Error := makeError .package code

def maxPackageIdBytes : Nat := 96

def asciiLower (value : UInt8) : Bool := decide (97 ≤ value) && decide (value ≤ 122)

def asciiDigit (value : UInt8) : Bool := decide (48 ≤ value) && decide (value ≤ 57)

/-- The rest of an identifier, at the start of a segment or inside one. -/
def packageIdRest : (segmentStart : Bool) → List UInt8 → Bool
  | segmentStart, [] => !segmentStart
  | true, value :: rest => asciiLower value && packageIdRest false rest
  | false, value :: rest =>
    if value = 46 then packageIdRest true rest
    else (asciiLower value || asciiDigit value || value == 45 || value == 95) &&
      packageIdRest false rest

def packageIdText (text : List UInt8) : Bool :=
  !text.isEmpty && decide (text.length ≤ maxPackageIdBytes) && packageIdRest true text

/-- Only `parse` makes an identifier that is not empty. -/
structure PackageId where
  text : List UInt8 := []
  parsed : text = [] ∨ packageIdText text = true := by exact .inl rfl
  deriving DecidableEq

namespace PackageId

def valid (id : PackageId) : Bool := !id.text.isEmpty

def parse (text : List UInt8) : Result PackageId :=
  if h : packageIdText text = true then .ok { text, parsed := .inr h }
  else .error (packageError invalidPackageId)

end PackageId

abbrev SignerLineageId := Vector UInt8 32

abbrev ContentDigest := Vector UInt8 32

/-- An opaque identity is valid when some byte of it is not zero. -/
def someByte (bytes : Vector UInt8 32) : Bool := bytes.any fun value => value != 0

/-- A package and who signs it. -/
structure ApplicationIdentity where
  packageId : PackageId := {}
  signerLineage : SignerLineageId := Vector.replicate 32 0
  deriving DecidableEq

def ApplicationIdentity.valid (a : ApplicationIdentity) : Bool :=
  a.packageId.valid && someByte a.signerLineage

abbrev PackageGenerationId := UInt64

/-- One staged content of a package. -/
structure PackageGenerationRecord where
  application : ApplicationIdentity := {}
  generation : PackageGenerationId := 0
  content : ContentDigest := Vector.replicate 32 0
  deriving DecidableEq

def PackageGenerationRecord.valid (r : PackageGenerationRecord) : Bool :=
  r.application.valid && r.generation != 0 && someByte r.content

def registryApplicationCapacity : Nat := 32

def registryGenerationsPerApplication : Nat := 4

/-- The generations that are in use, of the four there is room for. -/
structure Slot where
  application : ApplicationIdentity := {}
  generations : List PackageGenerationRecord := []
  hasActive : Bool := false
  activeGeneration : PackageGenerationId := 0
  deriving DecidableEq

def Slot.key (s : Slot) : Option PackageId := some s.application.packageId

/-- The occupied slots. They are taken from the front on and never given back. -/
structure PackageRegistry where
  slots : List Slot := []
  deriving DecidableEq

namespace PackageRegistry

def findByPackageId (r : PackageRegistry) (packageId : PackageId) : Option Slot :=
  SlotTable.lookup Slot.key packageId r.slots

def modifySlot (r : PackageRegistry) (packageId : PackageId) (f : Slot → Slot) : PackageRegistry :=
  { slots := SlotTable.modify Slot.key packageId f r.slots }

/-- What is wrong with a record that is not valid. -/
def recordError (record : PackageGenerationRecord) : Error :=
  if !record.application.packageId.valid then packageError invalidPackageId
  else if !someByte record.application.signerLineage then packageError invalidSignerLineage
  else if !someByte record.content then packageError invalidContentDigest
  else packageError invalidGeneration

def stageGeneration (r : PackageRegistry) (record : PackageGenerationRecord) :
    Result PackageRegistry :=
  if !record.valid then .error (recordError record)
  else
    match r.findByPackageId record.application.packageId with
    | none =>
      if registryApplicationCapacity ≤ r.slots.length then
        .error (packageError registryFull)
      else
        .ok { slots := r.slots ++ [{ application := record.application, generations := [record] }] }
    | some slot =>
      if slot.application.signerLineage ≠ record.application.signerLineage then
        .error (packageError packageIdCollision)
      else if slot.generations.getLast?.any fun last => record.generation ≤ last.generation then
        .error (packageError generationConflict)
      else if registryGenerationsPerApplication ≤ slot.generations.length then
        .error (packageError generationCapacity)
      else
        .ok (r.modifySlot record.application.packageId fun s =>
          { s with generations := s.generations ++ [record] })

/-- The slot of an application, when its signer is the one on record. -/
def slotOf (r : PackageRegistry) (application : ApplicationIdentity) : Result Slot :=
  match r.findByPackageId application.packageId with
  | none => .error (packageError unknownPackage)
  | some slot =>
    if slot.application.signerLineage ≠ application.signerLineage then
      .error (packageError packageIdCollision)
    else .ok slot

def activate (r : PackageRegistry) (application : ApplicationIdentity)
    (generation : PackageGenerationId) : Result PackageRegistry :=
  if !application.valid || generation == 0 then .error (packageError invalidGeneration)
  else
    match r.slotOf application with
    | .error e => .error e
    | .ok slot =>
      if slot.generations.any fun g => g.generation == generation then
        .ok (r.modifySlot application.packageId fun s =>
          { s with activeGeneration := generation, hasActive := true })
      else .error (packageError unknownGeneration)

def uninstall (r : PackageRegistry) (application : ApplicationIdentity) : Result PackageRegistry :=
  if !application.valid then .error (packageError unknownPackage)
  else
    match r.slotOf application with
    | .error e => .error e
    | .ok _ =>
      .ok (r.modifySlot application.packageId fun s =>
        { s with hasActive := false, activeGeneration := 0 })

def generation (r : PackageRegistry) (application : ApplicationIdentity)
    (generationId : PackageGenerationId) : Result PackageGenerationRecord :=
  if !application.valid || generationId == 0 then .error (packageError unknownGeneration)
  else
    match r.slotOf application with
    | .error e => .error e
    | .ok slot =>
      match slot.generations.find? fun g => g.generation == generationId with
      | some record => .ok record
      | none => .error (packageError unknownGeneration)

def active (r : PackageRegistry) (application : ApplicationIdentity) :
    Result PackageGenerationRecord :=
  if !application.valid then .error (packageError unknownPackage)
  else
    match r.slotOf application with
    | .error e => .error e
    | .ok slot =>
      if !slot.hasActive then .error (packageError noActiveGeneration)
      else r.generation application slot.activeGeneration

def owner (r : PackageRegistry) (packageId : PackageId) : Result ApplicationIdentity :=
  if !packageId.valid then .error (packageError invalidPackageId)
  else
    match r.findByPackageId packageId with
    | none => .error (packageError unknownPackage)
    | some slot => .ok slot.application

def applicationCount (r : PackageRegistry) : Nat := r.slots.length

end PackageRegistry

end Enml.OsPackage
