import Enml.OsKernel.Capability

/-! How capabilities name address spaces, and the arguments and answers of the
mapping calls. -/
namespace Enml.OsKernel

def addressSpaceObjectTag : ObjectId := 0xADD5000000000000
def addressSpaceObjectTagMask : ObjectId := 0xFFFF000000000000

def addressSpaceObjectId (i : AddressSpaceIdentity) : ObjectId :=
  if !i.valid then invalidObject
  else addressSpaceObjectTag ||| (i.generation.toUInt64 <<< 16) ||| i.slot.toUInt64

/-- The identity an object id names, read without checking the tag. -/
def addressSpaceIdentityOf (object : ObjectId) : AddressSpaceIdentity :=
  { slot := (object &&& 0xFFFF).toUInt16
    generation := ((object >>> 16) &&& 0xFFFFFFFF).toUInt32 }

def addressSpaceRightHold : Rights := 1
def addressSpaceRightDestroy : Rights := 2
def addressSpaceRightCreate : Rights := 4
def addressSpaceRightAdmit : Rights := 8

/-- The bare tag: it carries generation zero and so names no space. -/
def addressSpaceAuthorityObject : ObjectId := addressSpaceObjectTag

namespace AddressSpaceSyscallErrors
def invalidCapability : UInt32 := 260
end AddressSpaceSyscallErrors

namespace MapSyscallErrors
def invalidCapability : UInt32 := 1
def invalidPermissions : UInt32 := 3
def rangeOverflows : UInt32 := 4
def executableRegionImmutable : UInt32 := 5
end MapSyscallErrors

inductive MapPermissions where
  | read | readWrite | readExecute
  deriving DecidableEq

/-- A map call as user code makes it. -/
structure MapSyscall where
  space : CapabilityId := invalidCapability
  virtualAddress : UInt64 := 0
  backing : CapabilityId := invalidCapability
  permissions : MapPermissions := .read

/-- An unmap call as user code makes it. -/
structure UnmapSyscall where
  space : CapabilityId := invalidCapability
  virtualAddress : UInt64 := 0
  backing : CapabilityId := invalidCapability

structure MapAuthorization where
  space : AddressSpaceIdentity := {}
  virtualBase : UInt64 := 0
  physicalBase : UInt64 := 0
  length : UInt64 := 0
  permissions : MapPermissions := .read
  deriving DecidableEq

structure UnmapAuthorization where
  space : AddressSpaceIdentity := {}
  virtualBase : UInt64 := 0
  length : UInt64 := 0
  deriving DecidableEq

structure AddressSpaceCreation where
  epoch : AddressSpaceEpoch := {}
  capability : CapabilityId := invalidCapability
  deriving DecidableEq

end Enml.OsKernel
