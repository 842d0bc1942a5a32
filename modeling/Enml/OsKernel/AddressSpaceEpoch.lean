import Enml.Core.Result

/-! `AddressSpaceEpochAuthority`: which address-space lifetimes exist. A slot
goes free, active, retiring, free, and its generation only moves forward. -/
namespace Enml.OsKernel

open Enml.Core

abbrev AddressSpaceSlot := UInt16
abbrev AddressSpaceGeneration := UInt32
abbrev AddressSpaceAsid := UInt16

def maxAddressSpaceEpochs : Nat := 63
def kernelReservedAsid : AddressSpaceAsid := 0

/-- The software name of one lifetime. The ASID is not part of it. -/
structure AddressSpaceIdentity where
  slot : AddressSpaceSlot := 0
  generation : AddressSpaceGeneration := 0
  deriving DecidableEq

def AddressSpaceIdentity.valid (i : AddressSpaceIdentity) : Bool :=
  decide (i.slot.toNat < maxAddressSpaceEpochs) && i.generation != 0

/-- The name of one lifetime of an address space. -/
structure AddressSpaceEpoch where
  slot : AddressSpaceSlot := 0
  generation : AddressSpaceGeneration := 0
  asid : AddressSpaceAsid := kernelReservedAsid
  deriving DecidableEq

namespace AddressSpaceEpoch

def valid (e : AddressSpaceEpoch) : Bool :=
  decide (e.slot.toNat < maxAddressSpaceEpochs) && e.generation != 0 && e.asid != kernelReservedAsid

def identity (e : AddressSpaceEpoch) : AddressSpaceIdentity :=
  if e.valid then { slot := e.slot, generation := e.generation } else {}

end AddressSpaceEpoch

/-- Proof that the retirement of an epoch has begun. -/
structure RetiringAddressSpaceEpoch where
  epoch : AddressSpaceEpoch := {}
  deriving DecidableEq

namespace AddressSpaceEpochErrors
def exhausted : UInt32 := 1
def stale : UInt32 := 2
def notActive : UInt32 := 3
def notRetiring : UInt32 := 4
def generationExhausted : UInt32 := 5
end AddressSpaceEpochErrors

open AddressSpaceEpochErrors

inductive EpochState where
  | free | active | retiring
  deriving DecidableEq

structure AddressSpaceEpochAuthority.Slot where
  generation : AddressSpaceGeneration := 0
  state : EpochState := .free
  deriving DecidableEq

/-- Issues the epochs and takes them back. -/
structure AddressSpaceEpochAuthority where
  slots : List AddressSpaceEpochAuthority.Slot := List.replicate maxAddressSpaceEpochs {}
  active_ : Nat := 0
  retiring_ : Nat := 0

/-- ASID zero stays with the kernel, so slot `i` owns ASID `i + 1`. -/
def asidForSlot (index : Nat) : AddressSpaceAsid := UInt16.ofNat (index + 1)

namespace AddressSpaceEpochAuthority

/-- The first free slot decides: if it has no generation left the call fails
even when a later slot is free. -/
def acquire (a : AddressSpaceEpochAuthority) :
    AddressSpaceEpochAuthority × Result AddressSpaceEpoch :=
  match a.slots.zipIdx.find? fun entry => entry.1.state == .free with
  | none => (a, .error (kernelError exhausted))
  | some (slot, i) =>
    if slot.generation = 0xFFFFFFFF then
      (a, .error (kernelError generationExhausted))
    else
      ({ a with
          slots := a.slots.set i { generation := slot.generation + 1, state := .active }
          active_ := a.active_ + 1 },
        .ok { slot := UInt16.ofNat i, generation := slot.generation + 1, asid := asidForSlot i })

def resolve (a : AddressSpaceEpochAuthority) (identity : AddressSpaceIdentity) :
    Result AddressSpaceEpoch :=
  match a.slots[identity.slot.toNat]? with
  | some slot =>
    if identity.valid && slot.state == .active && slot.generation == identity.generation then
      .ok { slot := identity.slot, generation := slot.generation,
            asid := asidForSlot identity.slot.toNat }
    else .error (kernelError stale)
  | none => .error (kernelError stale)

/-- The slot an epoch names while it is in the given state. -/
def inState (a : AddressSpaceEpochAuthority) (state : EpochState) (epoch : AddressSpaceEpoch) :
    Bool :=
  match a.slots[epoch.slot.toNat]? with
  | some slot => epoch.valid && slot.state == state && slot.generation == epoch.generation &&
      epoch.asid == asidForSlot epoch.slot.toNat
  | none => false

def active (a : AddressSpaceEpochAuthority) (epoch : AddressSpaceEpoch) : Bool :=
  a.inState .active epoch

def retiring (a : AddressSpaceEpochAuthority) (epoch : RetiringAddressSpaceEpoch) : Bool :=
  a.inState .retiring epoch.epoch

def beginRetire (a : AddressSpaceEpochAuthority) (epoch : AddressSpaceEpoch) :
    AddressSpaceEpochAuthority × Result RetiringAddressSpaceEpoch :=
  match a.slots[epoch.slot.toNat]? with
  | none => (a, .error (kernelError stale))
  | some slot =>
    if !epoch.valid || slot.generation != epoch.generation ||
        epoch.asid != asidForSlot epoch.slot.toNat then
      (a, .error (kernelError stale))
    else if slot.state ≠ .active then
      (a, .error (kernelError notActive))
    else
      ({ slots := a.slots.set epoch.slot.toNat { slot with state := .retiring }
         active_ := a.active_ - 1
         retiring_ := a.retiring_ + 1 }, .ok { epoch })

def completeRetire (a : AddressSpaceEpochAuthority) (retiringEpoch : RetiringAddressSpaceEpoch) :
    AddressSpaceEpochAuthority × Result Unit :=
  if !a.retiring retiringEpoch then (a, .error (kernelError notRetiring))
  else
    ({ a with
        slots := a.slots.modify retiringEpoch.epoch.slot.toNat fun slot =>
          { slot with state := .free }
        retiring_ := a.retiring_ - 1 }, .ok ())

end AddressSpaceEpochAuthority

end Enml.OsKernel
