import Enml.OsKernel.Capability

/-! `MemoryGrantAuthority`: which physical ranges have been handed out. A grant
is named by slot and generation, and the range is kept here only. -/
namespace Enml.OsKernel

open Enml.Core

abbrev MemoryGrantSlot := UInt16
abbrev MemoryGrantGeneration := UInt32

def maxMemoryGrants : Nat := 64

/-- The name of a grant, good for one lifetime of its slot. -/
structure MemoryGrantIdentity where
  slot : MemoryGrantSlot := 0
  generation : MemoryGrantGeneration := 0
  deriving DecidableEq

def MemoryGrantIdentity.valid (i : MemoryGrantIdentity) : Bool :=
  decide (i.slot.toNat < maxMemoryGrants) && i.generation != 0

structure MemoryGrant where
  identity : MemoryGrantIdentity := {}
  physicalBase : UInt64 := 0
  length : UInt64 := 0
  deriving DecidableEq

namespace MemoryGrantErrors
def exhausted : UInt32 := 1
def stale : UInt32 := 2
def invalidRange : UInt32 := 3
def generationExhausted : UInt32 := 4
def overlapping : UInt32 := 5
end MemoryGrantErrors

open MemoryGrantErrors

def memoryGrantObjectTag : ObjectId := 0x0E1F000000000000
def memoryGrantObjectTagMask : ObjectId := 0xFFFF000000000000

def memoryGrantObjectId (i : MemoryGrantIdentity) : ObjectId :=
  if !i.valid then invalidObject
  else memoryGrantObjectTag ||| (i.generation.toUInt64 <<< 16) ||| i.slot.toUInt64

/-- The identity an object id names, read without checking the tag. -/
def memoryGrantIdentityOf (object : ObjectId) : MemoryGrantIdentity :=
  { slot := (object &&& 0xFFFF).toUInt16
    generation := ((object >>> 16) &&& 0xFFFFFFFF).toUInt32 }

def memoryRightMap : Rights := 1

structure MemoryGrantAuthority.Slot where
  physicalBase : UInt64 := 0
  length : UInt64 := 0
  generation : MemoryGrantGeneration := 0
  occupied : Bool := false

/-- Issues grants of physical memory and revokes them. -/
structure MemoryGrantAuthority where
  slots : List MemoryGrantAuthority.Slot := List.replicate maxMemoryGrants {}
  live : Nat := 0

/-- Half-open ranges, compared in 64-bit arithmetic. -/
def overlaps (aBase aLength bBase bLength : UInt64) : Bool :=
  decide (aBase < bBase + bLength) && decide (bBase < aBase + aLength)

namespace MemoryGrantAuthority

/-- The generation moves on creation, so the name a revoked grant had is
already out of date when its slot is used again. -/
def create (a : MemoryGrantAuthority) (physicalBase length : UInt64) :
    MemoryGrantAuthority × Result MemoryGrant :=
  if length = 0 ∨ 0xFFFFFFFFFFFFFFFF - physicalBase < length then
    (a, .error (kernelError invalidRange))
  else if a.slots.any fun slot =>
      slot.occupied && overlaps slot.physicalBase slot.length physicalBase length then
    (a, .error (kernelError overlapping))
  else
    match a.slots.zipIdx.find? fun entry => !entry.1.occupied with
    | none => (a, .error (kernelError exhausted))
    | some (slot, i) =>
      if slot.generation = 0xFFFFFFFF then
        (a, .error (kernelError generationExhausted))
      else if slot.generation + 1 = 0 then
        ({ a with slots := a.slots.set i { slot with generation := slot.generation + 1 } },
          .error (kernelError generationExhausted))
      else
        ({ slots := a.slots.set i
             { physicalBase, length, generation := slot.generation + 1, occupied := true }
           live := a.live + 1 },
          .ok { identity := { slot := UInt16.ofNat i, generation := slot.generation + 1 }
                physicalBase, length })

/-- The slot an identity names while its grant is live. -/
def slotFor (a : MemoryGrantAuthority) (identity : MemoryGrantIdentity) : Option Slot :=
  if !identity.valid then none
  else
    match a.slots[identity.slot.toNat]? with
    | none => none
    | some slot =>
      if !slot.occupied || slot.generation != identity.generation then none else some slot

def resolve (a : MemoryGrantAuthority) (identity : MemoryGrantIdentity) : Result MemoryGrant :=
  match a.slotFor identity with
  | none => .error (kernelError stale)
  | some slot => .ok { identity, physicalBase := slot.physicalBase, length := slot.length }

def revoke (a : MemoryGrantAuthority) (identity : MemoryGrantIdentity) :
    MemoryGrantAuthority × Result Unit :=
  match a.slotFor identity with
  | none => (a, .error (kernelError stale))
  | some slot =>
    ({ slots := a.slots.set identity.slot.toNat
         { slot with occupied := false, physicalBase := 0, length := 0 }
       live := a.live - 1 }, .ok ())

end MemoryGrantAuthority

end Enml.OsKernel
