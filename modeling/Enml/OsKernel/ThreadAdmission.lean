import Enml.OsKernel.Capability

/-! What `thread_admit` consults beside the kernel: the executable region of a
space, the sealed translation root, the table of thread translations, and the
issuer of thread identifiers. -/
namespace Enml.OsKernel

open Enml.Core SlotTable

namespace ExecutableRegionErrors
def alreadyExecutable : UInt32 := 1
def notExecutable : UInt32 := 2
def invalidSpace : UInt32 := 3
def exhausted : UInt32 := 4
end ExecutableRegionErrors

/-- Where the code of a space lies. -/
structure ExecutableRegion where
  space : AddressSpaceIdentity := {}
  base : UInt64 := 0
  length : UInt64 := 0
  deriving DecidableEq

def ExecutableRegion.valid (region : ExecutableRegion) : Bool :=
  region.space.valid && region.length != 0

/-- A slot that is not a valid region is free. -/
def ExecutableRegion.key (region : ExecutableRegion) : Option AddressSpaceIdentity :=
  if region.valid then some region.space else none

structure ExecutableRegionTable where
  regions : List ExecutableRegion := List.replicate maxAddressSpaceEpochs {}
  live : Nat := 0
  deriving DecidableEq

namespace ExecutableRegionTable

def find (t : ExecutableRegionTable) (space : AddressSpaceIdentity) : Option ExecutableRegion :=
  lookup ExecutableRegion.key space t.regions

def wouldRefuse (t : ExecutableRegionTable) (space : AddressSpaceIdentity) : Bool :=
  !space.valid || (t.find space).isSome

def record (t : ExecutableRegionTable) (space : AddressSpaceIdentity) (base length : UInt64) :
    ExecutableRegionTable × Result Unit :=
  if !space.valid || length == 0 then
    (t, .error (kernelError ExecutableRegionErrors.invalidSpace))
  else if (t.find space).isSome then
    (t, .error (kernelError ExecutableRegionErrors.alreadyExecutable))
  else
    match insert ExecutableRegion.key { space, base, length } t.regions with
    | some regions => ({ regions, live := t.live + 1 }, .ok ())
    | none => (t, .error (kernelError ExecutableRegionErrors.exhausted))

def regionFor (t : ExecutableRegionTable) (space : AddressSpaceIdentity) :
    Result ExecutableRegion :=
  if !space.valid then .error (kernelError ExecutableRegionErrors.invalidSpace)
  else
    match t.find space with
    | none => .error (kernelError ExecutableRegionErrors.notExecutable)
    | some region => .ok region

/-- Forgetting a space that never had a region succeeds. -/
def forget (t : ExecutableRegionTable) (space : AddressSpaceIdentity) :
    ExecutableRegionTable × Result Unit :=
  if !space.valid then (t, .error (kernelError ExecutableRegionErrors.invalidSpace))
  else
    match t.find space with
    | none => (t, .ok ())
    | some _ =>
      ({ regions := modify ExecutableRegion.key space (fun _ => {}) t.regions
         live := t.live - 1 }, .ok ())

end ExecutableRegionTable

/-- A sealed root and where its code is entered. -/
structure SealedTranslationRoot where
  rootPhysical : UInt64 := 0
  entry : UInt64 := 0

def SealedTranslationRoot.valid (root : SealedTranslationRoot) : Bool :=
  root.rootPhysical != 0 && root.entry != 0

/-- Page aligned and within 48 bits. -/
def stage1PhysicalAddress (value : UInt64) : Bool :=
  value &&& 0xFFF == 0 && value &&& ~~~0x0000FFFFFFFFF000 == 0

namespace ProcessTranslationErrors
def invalidThread : UInt32 := 1
def invalidEpoch : UInt32 := 2
def invalidRoot : UInt32 := 3
def duplicateThread : UInt32 := 4
def duplicateEpoch : UInt32 := 5
def exhausted : UInt32 := 6
def notFound : UInt32 := 7
def stale : UInt32 := 8
end ProcessTranslationErrors

open ProcessTranslationErrors

structure ProcessTranslationBinding where
  thread : ThreadId := invalidThread
  epoch : AddressSpaceEpoch := {}
  rootPhysical : UInt64 := 0

def ProcessTranslationBinding.valid (b : ProcessTranslationBinding) : Bool :=
  b.thread != invalidThread && b.epoch.valid && b.rootPhysical != 0

structure ProcessTranslationTable.Slot where
  occupied : Bool := false
  binding : ProcessTranslationBinding := {}

def ProcessTranslationTable.Slot.key (s : ProcessTranslationTable.Slot) : Option ThreadId :=
  if s.occupied then some s.binding.thread else none

/-- The root each thread runs on. -/
structure ProcessTranslationTable where
  slots : List ProcessTranslationTable.Slot := List.replicate maxThreads {}
  occupied : Nat := 0

namespace ProcessTranslationTable

def bind (t : ProcessTranslationTable) (thread : ThreadId) (epoch : AddressSpaceEpoch)
    (root : SealedTranslationRoot) (epochs : AddressSpaceEpochAuthority) :
    ProcessTranslationTable × Result Unit :=
  if thread = OsKernel.invalidThread then
    (t, .error (kernelError ProcessTranslationErrors.invalidThread))
  else if !epoch.valid then (t, .error (kernelError invalidEpoch))
  else if !epochs.active epoch then (t, .error (kernelError stale))
  else if !root.valid || !stage1PhysicalAddress root.rootPhysical then
    (t, .error (kernelError invalidRoot))
  else
    match t.slots.find? fun slot =>
        slot.occupied && (slot.binding.thread == thread || slot.binding.epoch == epoch) with
    | some slot =>
      if slot.binding.thread = thread then
        (t, .error (kernelError duplicateThread))
      else (t, .error (kernelError duplicateEpoch))
    | none =>
      match insert Slot.key
          { occupied := true
            binding := { thread, epoch, rootPhysical := root.rootPhysical } } t.slots with
      | some slots => ({ slots, occupied := t.occupied + 1 }, .ok ())
      | none => (t, .error (kernelError exhausted))

def resolve (t : ProcessTranslationTable) (thread : ThreadId)
    (epochs : AddressSpaceEpochAuthority) : Result ProcessTranslationBinding :=
  if thread = OsKernel.invalidThread then
    .error (kernelError ProcessTranslationErrors.invalidThread)
  else
    match lookup Slot.key thread t.slots with
    | none => .error (kernelError notFound)
    | some slot =>
      if !epochs.active slot.binding.epoch then .error (kernelError stale)
      else .ok slot.binding

def retire (t : ProcessTranslationTable) (thread : ThreadId) (epoch : AddressSpaceEpoch) :
    ProcessTranslationTable × Result Unit :=
  if thread = OsKernel.invalidThread then
    (t, .error (kernelError ProcessTranslationErrors.invalidThread))
  else if !epoch.valid then (t, .error (kernelError invalidEpoch))
  else
    match lookup Slot.key thread t.slots with
    | none => (t, .error (kernelError notFound))
    | some slot =>
      if slot.binding.epoch ≠ epoch then (t, .error (kernelError stale))
      else
        ({ slots := modify Slot.key thread (fun _ => {}) t.slots
           occupied := t.occupied - 1 }, .ok ())

end ProcessTranslationTable

namespace ThreadAdmissionErrors
def invalidCapability : UInt32 := 320
def invalidStack : UInt32 := 321
def identifierExhausted : UInt32 := 322
def creationIncomplete : UInt32 := 323
def noExecutableRegion : UInt32 := 324
def entryNotRegionBase : UInt32 := 325
end ThreadAdmissionErrors

def firstAdmittedThread : ThreadId := 0x1000

structure ThreadAdmission where
  thread : ThreadId := invalidThread
  entry : UInt64 := 0
  stack : UInt64 := 0
  deriving DecidableEq

structure ThreadIdentifierIssuer where
  next : ThreadId := firstAdmittedThread

/-- An identifier is spent when it is issued, and the range does not wrap. -/
def ThreadIdentifierIssuer.issue (i : ThreadIdentifierIssuer) :
    ThreadIdentifierIssuer × Result ThreadId :=
  if i.next = 0xFFFFFFFF then
    (i, .error (kernelError ThreadAdmissionErrors.identifierExhausted))
  else ({ next := i.next + 1 }, .ok i.next)

end Enml.OsKernel
