import Enml.OsKernel.AddressSpaceEpoch
import Enml.OsKernel.Rendezvous

/-! `CapabilityTable`: a kernel-held forest of capabilities. A child names its
parent by slot index and id, so a recycled slot is never mistaken for the
parent it used to hold. -/
namespace Enml.OsKernel

open Enml.Core

/-- A thread together with the address-space lifetime it runs in. -/
structure ExecutionAuthority where
  thread : ThreadId := invalidThread
  addressSpace : AddressSpaceIdentity := {}

def ExecutionAuthority.valid (a : ExecutionAuthority) : Bool :=
  a.thread != invalidThread && a.addressSpace.valid

def maxCapabilities : Nat := 256
def maxDerivationDepth : Nat := 8

abbrev CapabilityId := UInt64
def invalidCapability : CapabilityId := 0
abbrev ObjectId := UInt64
def invalidObject : ObjectId := 0
abbrev Rights := UInt32
def noRights : Rights := 0

namespace CapabilityErrors
def invalidCapabilityId : UInt32 := 1
def unknownCapability : UInt32 := 2
def capabilityLimit : UInt32 := 3
def notHolder : UInt32 := 4
def notTransferable : UInt32 := 5
def rightsEscalation : UInt32 := 6
def derivationTooDeep : UInt32 := 7
def selfAddressed : UInt32 := 8
def invalidObjectId : UInt32 := 9
def notRevocable : UInt32 := 10
def identifierExhausted : UInt32 := 11
def invalidHolder : UInt32 := 12
end CapabilityErrors

open CapabilityErrors

structure CapabilityInfo where
  id : CapabilityId := invalidCapability
  parent : CapabilityId := invalidCapability
  object : ObjectId := invalidObject
  rights : Rights := noRights
  holder : ThreadId := invalidThread
  transferable : Bool := false
  depth : UInt8 := 0
  holderAddressSpace : AddressSpaceIdentity := {}
  contextBound : Bool := false

/-- A capability: what it names, who holds it and what it came from. -/
structure CapabilityTable.Slot where
  id : CapabilityId := invalidCapability
  parent : CapabilityId := invalidCapability
  object : ObjectId := invalidObject
  rights : Rights := noRights
  holder : ThreadId := invalidThread
  parentSlot : Nat := 0
  transferable : Bool := false
  depth : UInt8 := 0
  occupied : Bool := false
  doomed : Bool := false
  holderAddressSpace : AddressSpaceIdentity := {}
  contextBound : Bool := false

def CapabilityTable.Slot.key (s : CapabilityTable.Slot) : Option CapabilityId :=
  if s.occupied then some s.id else none

/-- All capabilities, as a forest by `parent`. -/
structure CapabilityTable where
  slots : List CapabilityTable.Slot := List.replicate maxCapabilities {}
  occupied : Nat := 0
  nextId : CapabilityId := 1

namespace CapabilityTable

def find (t : CapabilityTable) (capability : CapabilityId) : Option Slot :=
  if capability = invalidCapability then none
  else SlotTable.lookup Slot.key capability t.slots

/-- The index `find`'s pointer has in the slot array. -/
def indexOf (t : CapabilityTable) (capability : CapabilityId) : Nat :=
  t.slots.findIdx fun s => decide (s.key = some capability)

/-- Both the index and the recorded id must match. -/
def parentOf (slots : List Slot) (slot : Slot) : Option Slot :=
  if slot.parent = invalidCapability then none
  else
    match slots[slot.parentSlot]? with
    | none => none
    | some candidate =>
      if !candidate.occupied || candidate.id != slot.parent then none else some candidate

def Slot.heldBy (slot : Slot) (authority : ExecutionAuthority) : Bool :=
  slot.contextBound && authority.valid && slot.holder == authority.thread &&
    slot.holderAddressSpace == authority.addressSpace

/-- The thread-only reading of a holder never matches a bound slot. -/
def Slot.heldByThread (slot : Slot) (thread : ThreadId) : Bool :=
  !slot.contextBound && slot.holder == thread

def holds (t : CapabilityTable) (thread : ThreadId) (capability : CapabilityId) : Bool :=
  if thread = invalidThread then false
  else
    match t.find capability with
    | none => false
    | some slot => slot.heldByThread thread

def holdsBound (t : CapabilityTable) (authority : ExecutionAuthority)
    (capability : CapabilityId) : Bool :=
  if !authority.valid then false
  else
    match t.find capability with
    | none => false
    | some slot => slot.heldBy authority

def Slot.info (slot : Slot) : CapabilityInfo :=
  { id := slot.id, parent := slot.parent, object := slot.object, rights := slot.rights,
    holder := slot.holder, transferable := slot.transferable, depth := slot.depth,
    holderAddressSpace := slot.holderAddressSpace, contextBound := slot.contextBound }

def describe (t : CapabilityTable) (capability : CapabilityId) : Result CapabilityInfo :=
  if capability = invalidCapability then
    .error (kernelError invalidCapabilityId)
  else
    match t.find capability with
    | none => .error (kernelError unknownCapability)
    | some slot => .ok slot.info

/-- The tail every mint and grant shares: take the next identifier, put the
slot in the first free place, and let the counter wrap to zero at its end. -/
def issue (t : CapabilityTable) (slot : Slot) : CapabilityTable × Result CapabilityId :=
  if t.nextId = invalidCapability then
    (t, .error (kernelError identifierExhausted))
  else
    match SlotTable.insert Slot.key { slot with id := t.nextId, occupied := true } t.slots with
    | some slots => ({ slots, occupied := t.occupied + 1, nextId := t.nextId + 1 }, .ok t.nextId)
    | none => (t, .error (kernelError capabilityLimit))

def mint (t : CapabilityTable) (holder : ThreadId) (object : ObjectId) (rights : Rights)
    (transferable : Bool) : CapabilityTable × Result CapabilityId :=
  if holder = invalidThread then (t, .error (kernelError invalidHolder))
  else if object = invalidObject then (t, .error (kernelError invalidObjectId))
  else t.issue { object, rights, holder, transferable }

def mintBound (t : CapabilityTable) (holder : ExecutionAuthority) (object : ObjectId)
    (rights : Rights) (transferable : Bool) : CapabilityTable × Result CapabilityId :=
  if !holder.valid then (t, .error (kernelError invalidHolder))
  else if object = invalidObject then (t, .error (kernelError invalidObjectId))
  else
    t.issue { object, rights, holder := holder.thread, transferable,
              holderAddressSpace := holder.addressSpace, contextBound := true }

/-- The checks and the derived slot common to both grants. `held` is the
overload's own test that the granter holds the parent, and `place` writes the
recipient into the child. -/
def derive (t : CapabilityTable) (capability : CapabilityId) (held : Slot → Bool)
    (place : Slot → Slot) (rights : Rights) (transferable : Bool) :
    CapabilityTable × Result CapabilityId :=
  if capability = invalidCapability then
    (t, .error (kernelError invalidCapabilityId))
  else
    match t.find capability with
    | none => (t, .error (kernelError unknownCapability))
    | some parent =>
      if !held parent then (t, .error (kernelError notHolder))
      else if !parent.transferable then
        (t, .error (kernelError notTransferable))
      else if rights &&& ~~~parent.rights ≠ noRights then
        (t, .error (kernelError rightsEscalation))
      else if maxDerivationDepth < parent.depth.toNat + 1 then
        (t, .error (kernelError derivationTooDeep))
      else
        t.issue (place
          { parent := capability, object := parent.object, rights,
            parentSlot := t.indexOf capability, transferable, depth := parent.depth + 1 })

def grant (t : CapabilityTable) (granter : ThreadId) (capability : CapabilityId)
    (recipient : ThreadId) (rights : Rights) (transferable : Bool) :
    CapabilityTable × Result CapabilityId :=
  if granter = invalidThread ∨ recipient = invalidThread then
    (t, .error (kernelError invalidHolder))
  else if granter = recipient then (t, .error (kernelError selfAddressed))
  else
    t.derive capability (fun parent => parent.heldByThread granter)
      (fun child => { child with holder := recipient }) rights transferable

def grantBound (t : CapabilityTable) (granter : ExecutionAuthority) (capability : CapabilityId)
    (recipient : ExecutionAuthority) (rights : Rights) (transferable : Bool) :
    CapabilityTable × Result CapabilityId :=
  if !granter.valid || !recipient.valid then
    (t, .error (kernelError invalidHolder))
  else if granter.thread = recipient.thread then
    (t, .error (kernelError selfAddressed))
  else
    t.derive capability (fun parent => parent.heldBy granter)
      (fun child => { child with
        holder := recipient.thread
        holderAddressSpace := recipient.addressSpace
        contextBound := true }) rights transferable

/-- One visit of the marking loop: a live, unmarked slot whose parent is
marked becomes marked. -/
def spreadAt (state : List Slot × Bool) (index : Nat) : List Slot × Bool :=
  match state.1[index]? with
  | none => state
  | some slot =>
    if !slot.occupied || slot.doomed then state
    else
      match parentOf state.1 slot with
      | none => state
      | some parent =>
        if !parent.doomed then state
        else (state.1.set index { slot with doomed := true }, true)

/-- One pass, in place and in index order, so a mark may travel several
generations within it. -/
def spreadPass (slots : List Slot) : List Slot × Bool :=
  (List.range slots.length).foldl spreadAt (slots, false)

/-- At most `passes` passes, stopping at the first that marks nothing. -/
def spread : Nat → List Slot → List Slot
  | 0, slots => slots
  | passes + 1, slots =>
    let (slots, marked) := spreadPass slots
    if marked then spread passes slots else slots

def Slot.clearDoomed (slot : Slot) : Slot := if slot.occupied && slot.doomed then {} else slot

def sweepDoomed (t : CapabilityTable) : CapabilityTable × Nat :=
  let slots := spread maxDerivationDepth t.slots
  let removed := slots.countP fun slot => slot.occupied && slot.doomed
  ({ t with slots := slots.map Slot.clearDoomed, occupied := t.occupied - removed }, removed)

/-- Revocation as holder or as the holder of the parent, under the overload's
own reading `held` of who holds a slot. -/
def revokeWith (t : CapabilityTable) (held : Slot → Bool) (capability : CapabilityId) :
    CapabilityTable × Result Nat :=
  if capability = invalidCapability then
    (t, .error (kernelError invalidCapabilityId))
  else
    match t.find capability with
    | none => (t, .error (kernelError unknownCapability))
    | some target =>
      let byGrantor := match parentOf t.slots target with
        | none => false
        | some parent => held parent
      if !held target && !byGrantor then
        (t, .error (kernelError notRevocable))
      else
        let marked := { t with
          slots := SlotTable.modify Slot.key capability
            (fun slot => { slot with doomed := true }) t.slots }
        let (t, removed) := marked.sweepDoomed
        (t, .ok removed)

def revoke (t : CapabilityTable) (revoker : ThreadId) (capability : CapabilityId) :
    CapabilityTable × Result Nat :=
  if revoker = invalidThread then (t, .error (kernelError invalidHolder))
  else t.revokeWith (fun slot => slot.heldByThread revoker) capability

def revokeBound (t : CapabilityTable) (revoker : ExecutionAuthority)
    (capability : CapabilityId) : CapabilityTable × Result Nat :=
  if !revoker.valid then (t, .error (kernelError invalidHolder))
  else t.revokeWith (fun slot => slot.heldBy revoker) capability

def Slot.doomIfHeldBy (holder : ThreadId) (slot : Slot) : Slot :=
  if slot.occupied && slot.holder == holder then { slot with doomed := true } else slot

/-- Teardown by number: bound and unbound holdings are marked alike. -/
def revokeAllHeldBy (t : CapabilityTable) (holder : ThreadId) : CapabilityTable × Nat :=
  if holder = invalidThread then (t, 0)
  else if !t.slots.any (fun slot => slot.occupied && slot.holder == holder) then (t, 0)
  else
    { t with slots := t.slots.map (Slot.doomIfHeldBy holder) }.sweepDoomed

end CapabilityTable

end Enml.OsKernel
