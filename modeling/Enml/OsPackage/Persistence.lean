import Enml.OsPackage.Snapshot

/-! The registry with its file. A mutation is made on a copy, the copy is written to a
new file that takes the place of the old one, and then it becomes the registry. The
calls on a registry in place come last: `stage_generation` takes a slot for a new
package before it checks the generation against what the slot holds. -/
namespace Enml.OsPackage

open Enml.Core PersistenceErrors

/-- Which of the calls on files succeed in one `persist_candidate`. -/
structure FileCalls where
  unlinkTemp : Bool := true
  openTemp : Bool := true
  chmodTemp : Bool := true
  writeTemp : Bool := true
  syncTemp : Bool := true
  rename : Bool := true
  syncDirectory : Bool := true

/-- The visible file after the call, and its result. -/
def persistCandidate (file : Option (List UInt8)) (candidate : PackageRegistry)
    (calls : FileCalls) : Option (List UInt8) × Result Unit :=
  match encodeSnapshot candidate with
  | .error e => (file, .error e)
  | .ok bytes =>
    if !calls.unlinkTemp then (file, .error (persistenceError ioFailure))
    else if !calls.openTemp then (file, .error (persistenceError ioFailure))
    else if !calls.chmodTemp || !calls.writeTemp || !calls.syncTemp then
      (file, .error (persistenceError ioFailure))
    else if !calls.rename then (file, .error (persistenceError ioFailure))
    else if !calls.syncDirectory then
      (some bytes, .error (persistenceError ioFailure))
    else (some bytes, .ok ())

/-- The changes that reach the disk. -/
inductive Mutation where
  | stageGeneration (record : PackageGenerationRecord)
  | activate (application : ApplicationIdentity) (generation : PackageGenerationId)
  | uninstall (application : ApplicationIdentity)

/-- The mutation, on a copy of the registry. -/
def PackageRegistry.candidate (r : PackageRegistry) : Mutation → Result PackageRegistry
  | .stageGeneration record => r.stageGeneration record
  | .activate application generation => r.activate application generation
  | .uninstall application => r.uninstall application

/-- The visible snapshot file and the registry of the running service, if there is one. -/
structure PackageService where
  file : Option (List UInt8) := none
  registry : Option PackageRegistry := none

inductive PackageOp where
  /-- The service is started. Its state directory may not be one, and the file may not
  be readable. -/
  | start (directory readable : Bool)
  | mutate (mutation : Mutation) (calls : FileCalls)

namespace PackageService

/-- `PersistentPackageRegistry::open`. -/
def openRegistry (s : PackageService) (directory readable : Bool) : Result PackageRegistry :=
  if !directory then .error (persistenceError invalidStateDirectory)
  else if !readable then .error (persistenceError ioFailure)
  else loadSnapshot s.file

/-- The three mutations of `PersistentPackageRegistry`, on the registry `r`. -/
def mutateWith (s : PackageService) (r : PackageRegistry) (mutation : Mutation)
    (calls : FileCalls) : PackageService × Result Unit :=
  match r.candidate mutation with
  | .error e => (s, .error e)
  | .ok candidate =>
    match persistCandidate s.file candidate calls with
    | (file, .error e) => ({ s with file }, .error e)
    | (file, .ok ()) => ({ file, registry := some candidate }, .ok ())

def step (s : PackageService) : PackageOp → PackageService × Option (Result Unit)
  | .start directory readable =>
    match s.openRegistry directory readable with
    | .error e => ({ s with registry := none }, some (.error e))
    | .ok registry => ({ s with registry := some registry }, some (.ok ()))
  | .mutate mutation calls =>
    match s.registry with
    | none => (s, none)
    | some r => ((s.mutateWith r mutation calls).1, some (s.mutateWith r mutation calls).2)

end PackageService

/-- The application a mutation names. -/
def Mutation.application : Mutation → ApplicationIdentity
  | .stageGeneration record => record.application
  | .activate application _ => application
  | .uninstall application => application

namespace PackageRegistry

/-- What is left of `stage_generation` once it has its slot. -/
def stageInSlot (r : PackageRegistry) (slot : Slot) (record : PackageGenerationRecord) :
    PackageRegistry × Result Unit :=
  if slot.generations.getLast?.any fun last => record.generation ≤ last.generation then
    (r, .error (packageError Errors.generationConflict))
  else if registryGenerationsPerApplication ≤ slot.generations.length then
    (r, .error (packageError Errors.generationCapacity))
  else
    (r.modifySlot record.application.packageId fun s =>
      { s with generations := s.generations ++ [record] }, .ok ())

def stageInPlace (r : PackageRegistry) (record : PackageGenerationRecord) :
    PackageRegistry × Result Unit :=
  if !record.valid then (r, .error (recordError record))
  else
    match r.findByPackageId record.application.packageId with
    | none =>
      if registryApplicationCapacity ≤ r.slots.length then
        (r, .error (packageError Errors.registryFull))
      else
        let slot : Slot := { application := record.application }
        stageInSlot { slots := r.slots ++ [slot] } slot record
    | some slot =>
      if slot.application.signerLineage ≠ record.application.signerLineage then
        (r, .error (packageError Errors.packageIdCollision))
      else r.stageInSlot slot record

/-- A call that writes last of all. -/
def settle (r : PackageRegistry) : Result PackageRegistry → PackageRegistry × Result Unit
  | .ok r' => (r', .ok ())
  | .error e => (r, .error e)

def step (r : PackageRegistry) : Mutation → PackageRegistry × Result Unit
  | .stageGeneration record => r.stageInPlace record
  | .activate application generation => r.settle (r.activate application generation)
  | .uninstall application => r.settle (r.uninstall application)

end PackageRegistry

end Enml.OsPackage
