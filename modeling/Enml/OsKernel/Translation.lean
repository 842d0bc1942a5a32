import Enml.OsKernel.AddressSpaceSyscall
import Enml.OsKernel.ThreadAdmission

/-! The AArch64 stage-1 format: 4 KiB pages, 39-bit virtual addresses, three
levels of tables, and the descriptors a leaf may hold. -/
namespace Enml.OsKernel

namespace MachineErrors
def invalidRange : UInt32 := 2
def alignment : UInt32 := 3
def exhausted : UInt32 := 4
def alreadyMapped : UInt32 := 5
def notMapped : UInt32 := 6
def writableExecutableAlias : UInt32 := 7
def missingGuardPage : UInt32 := 8
def addressSpaceUnbound : UInt32 := 10
def addressSpaceAlreadyBound : UInt32 := 11
def mappingLedgerInconsistent : UInt32 := 12
def kernelObjectAlias : UInt32 := 13
def sealedRoot : UInt32 := 14
end MachineErrors

/-- No mapping is writable and executable. -/
inductive MachinePermissions where
  | read | readWrite | readExecute
  deriving DecidableEq

inductive MachineMemoryKind where
  | normal | device
  deriving DecidableEq

/-- The values of the map call are the machine layer's own. -/
def MapPermissions.toMachine : MapPermissions → MachinePermissions
  | .read => .read
  | .readWrite => .readWrite
  | .readExecute => .readExecute

def architecturalPageSize : UInt64 := 4096
def pageMask : UInt64 := architecturalPageSize - 1
def pageAddressMask : UInt64 := 0x0000FFFFFFFFF000
def userVirtualLimit : UInt64 := 0x0000008000000000
def kernelVirtualBase : UInt64 := 0xFFFFFFFFFFFFFFFF - (userVirtualLimit - 1)

def pageAligned (value : UInt64) : Bool := value &&& pageMask == 0

def stage1VirtualAddress (value : UInt64) : Bool := decide (value < userVirtualLimit)

def kernelStage1VirtualAddress (value : UInt64) : Bool := decide (kernelVirtualBase ≤ value)

def level1Index (va : UInt64) : Nat := ((va >>> 30) &&& 0x1FF).toNat
def level2Index (va : UInt64) : Nat := ((va >>> 21) &&& 0x1FF).toNat
def level3Index (va : UInt64) : Nat := ((va >>> 12) &&& 0x1FF).toNat

namespace Descriptor
def valid : UInt64 := 0x1
def tableOrPage : UInt64 := 0x2
def attrNormal : UInt64 := 0x0
def attrDevice : UInt64 := 0x4
def apEl1RwEl0None : UInt64 := 0x0
def apEl1RwEl0Rw : UInt64 := 0x40
def apEl1RoEl0None : UInt64 := 0x80
def apEl1RoEl0Ro : UInt64 := 0xC0
def shareOuter : UInt64 := 0x200
def shareInner : UInt64 := 0x300
def accessFlag : UInt64 := 0x400
def notGlobal : UInt64 := 0x800
def privilegedExecuteNever : UInt64 := 0x0020000000000000
def unprivilegedExecuteNever : UInt64 := 0x0040000000000000
end Descriptor

open Descriptor in
/-- A leaf for the kernel alone; zero when the request has no descriptor. -/
def pageDescriptor (physicalAddress : UInt64) (permissions : MachinePermissions)
    (kind : MachineMemoryKind) : UInt64 :=
  if !stage1PhysicalAddress physicalAddress then 0
  else
    let value := (physicalAddress &&& pageAddressMask) ||| valid ||| tableOrPage |||
      accessFlag ||| notGlobal ||| unprivilegedExecuteNever
    let value := match kind with
      | .normal => value ||| attrNormal ||| shareInner
      | .device => value ||| attrDevice ||| shareOuter
    match permissions, kind with
    | .read, _ => value ||| (apEl1RoEl0None ||| privilegedExecuteNever)
    | .readWrite, _ => value ||| (apEl1RwEl0None ||| privilegedExecuteNever)
    | .readExecute, .normal => value ||| apEl1RoEl0None
    | .readExecute, .device => 0

open Descriptor in
/-- A leaf that EL0 may use. -/
def userPageDescriptor (physicalAddress : UInt64) (permissions : MachinePermissions) : UInt64 :=
  if !stage1PhysicalAddress physicalAddress then 0
  else
    let value := (physicalAddress &&& pageAddressMask) ||| valid ||| tableOrPage |||
      accessFlag ||| notGlobal ||| attrNormal ||| shareInner ||| privilegedExecuteNever
    match permissions with
    | .read => value ||| apEl1RoEl0Ro ||| unprivilegedExecuteNever
    | .readWrite => value ||| apEl1RwEl0Rw ||| unprivilegedExecuteNever
    | .readExecute => value ||| apEl1RoEl0Ro

end Enml.OsKernel
