import Enml.OsKernel.Capability

/-! `InterruptTable` and `InterruptDeliveryTable`: who owns a source, how many
assertions it has folded, and what a woken driver has still to collect. -/
namespace Enml.OsKernel

open Enml.Core SlotTable

def maxInterruptSources : Nat := 64

abbrev InterruptSource := UInt32
def invalidInterruptSource : InterruptSource := 0

def interruptObjectTag : ObjectId := 0x1EC0000000000000
def interruptObjectTagMask : ObjectId := 0xFFFF000000000000
def interruptRightAttach : Rights := 1

namespace InterruptErrors
def invalidSource : UInt32 := 1
def invalidDriver : UInt32 := 2
def sourceTaken : UInt32 := 3
def notAttached : UInt32 := 4
def notOwner : UInt32 := 5
def sourceLimit : UInt32 := 6
def notPending : UInt32 := 7
def notInService : UInt32 := 8
def invalidCapability : UInt32 := 9
def wrongRights : UInt32 := 10
def wrongObject : UInt32 := 11
end InterruptErrors

open InterruptErrors

inductive InterruptState where
  | attached | pending | inService
  deriving DecidableEq

structure Dispatch where
  owner : ThreadId := invalidThread
  wake : Bool := false
  coalesced : Bool := false
  deriving DecidableEq

/-- The assertions one service accounts for. -/
structure Service where
  assertions : UInt32 := 0
  saturated : Bool := false
  deriving DecidableEq

/-- A source, its driver and the assertions not yet served. -/
structure InterruptTable.Slot where
  source : InterruptSource := invalidInterruptSource
  owner : ThreadId := invalidThread
  state : InterruptState := .attached
  assertions : UInt32 := 0
  saturated : Bool := false
  occupied : Bool := false
  deriving DecidableEq

def InterruptTable.Slot.key (s : InterruptTable.Slot) : Option InterruptSource :=
  if s.occupied then some s.source else none

/-- The sources that have a driver. -/
structure InterruptTable where
  slots : List InterruptTable.Slot := List.replicate maxInterruptSources {}
  occupied : Nat := 0
  spurious : UInt32 := 0

def assertionCeiling : UInt32 := 0xFFFFFFFF

namespace InterruptTable

def find (t : InterruptTable) (source : InterruptSource) : Option Slot :=
  if source = invalidInterruptSource then none else lookup Slot.key source t.slots

def modify (t : InterruptTable) (source : InterruptSource) (f : Slot → Slot) : InterruptTable :=
  { t with slots := SlotTable.modify Slot.key source f t.slots }

/-- Counts stop at the ceiling instead of wrapping. -/
def Slot.recordAssertion (slot : Slot) : Slot :=
  if slot.assertions = assertionCeiling then { slot with saturated := true }
  else { slot with assertions := slot.assertions + 1 }

def attach (t : InterruptTable) (driver : ThreadId) (source : InterruptSource) :
    InterruptTable × Result Unit :=
  if driver = invalidThread then (t, .error (kernelError invalidDriver))
  else if source = invalidInterruptSource then
    (t, .error (kernelError invalidSource))
  else if (t.find source).isSome then (t, .error (kernelError sourceTaken))
  else
    match insert Slot.key
        { source, owner := driver, state := .attached, assertions := 0, saturated := false,
          occupied := true } t.slots with
    | some slots => ({ t with slots, occupied := t.occupied + 1 }, .ok ())
    | none => (t, .error (kernelError sourceLimit))

/-- The checks every owner operation makes before it looks at the state. -/
def ownedSlot (t : InterruptTable) (driver : ThreadId) (source : InterruptSource) : Result Slot :=
  if driver = invalidThread then .error (kernelError invalidDriver)
  else if source = invalidInterruptSource then .error (kernelError invalidSource)
  else
    match t.find source with
    | none => .error (kernelError notAttached)
    | some slot =>
      if slot.owner ≠ driver then .error (kernelError notOwner) else .ok slot

def detach (t : InterruptTable) (driver : ThreadId) (source : InterruptSource) :
    InterruptTable × Result Unit :=
  match t.ownedSlot driver source with
  | .error e => (t, .error e)
  | .ok _ =>
    ({ t with
        slots := SlotTable.modify Slot.key source (fun _ => {}) t.slots
        occupied := t.occupied - 1 }, .ok ())

def dispatch (t : InterruptTable) (source : InterruptSource) : InterruptTable × Result Dispatch :=
  if source = invalidInterruptSource then
    (t, .error (kernelError invalidSource))
  else
    match t.find source with
    | none =>
      ({ t with spurious := if t.spurious = assertionCeiling then t.spurious
                            else t.spurious + 1 }, .ok {})
    | some slot =>
      if slot.state = .attached then
        (t.modify source fun s => { s with state := .pending, assertions := 1, saturated := false },
          .ok { owner := slot.owner, wake := true, coalesced := false })
      else
        (t.modify source Slot.recordAssertion,
          .ok { owner := slot.owner, wake := false, coalesced := true })

def beginService (t : InterruptTable) (driver : ThreadId) (source : InterruptSource) :
    InterruptTable × Result Service :=
  match t.ownedSlot driver source with
  | .error e => (t, .error e)
  | .ok slot =>
    if slot.state ≠ .pending then (t, .error (kernelError notPending))
    else
      (t.modify source fun s => { s with state := .inService, assertions := 0, saturated := false },
        .ok { assertions := slot.assertions, saturated := slot.saturated })

/-- Assertions that arrived during service put the source back to pending. -/
def endService (t : InterruptTable) (driver : ThreadId) (source : InterruptSource) :
    InterruptTable × Result Bool :=
  match t.ownedSlot driver source with
  | .error e => (t, .error e)
  | .ok slot =>
    if slot.state ≠ .inService then (t, .error (kernelError notInService))
    else if 0 < slot.assertions then
      (t.modify source fun s => { s with state := .pending }, .ok true)
    else (t.modify source fun s => { s with state := .attached }, .ok false)

def detachAllOwnedBy (t : InterruptTable) (driver : ThreadId) : InterruptTable × Nat :=
  if driver = invalidThread then (t, 0)
  else
    let released := t.slots.countP fun slot => slot.occupied && slot.owner == driver
    ({ t with
        slots := t.slots.map fun slot => if slot.occupied && slot.owner == driver then {} else slot
        occupied := t.occupied - released }, released)

/-- Only an idle source leaves its line able to assert. -/
def isMasked (t : InterruptTable) (source : InterruptSource) : Result Bool :=
  match t.find source with
  | none => .error (kernelError notAttached)
  | some slot => .ok (slot.state ≠ .attached)

end InterruptTable

namespace InterruptDeliveryErrors
def invalidThread : UInt32 := 280
def alreadyArmed : UInt32 := 281
def notArmed : UInt32 := 282
def exhausted : UInt32 := 283
end InterruptDeliveryErrors

open InterruptDeliveryErrors

/-- A service waiting for its driver to take it. -/
structure InterruptDeliveryTable.Slot where
  driver : ThreadId := invalidThread
  source : InterruptSource := invalidInterruptSource
  service : Service := {}
  occupied : Bool := false

def InterruptDeliveryTable.Slot.key (s : InterruptDeliveryTable.Slot) : Option ThreadId :=
  if s.occupied then some s.driver else none

structure InterruptDeliveryTable where
  slots : List InterruptDeliveryTable.Slot := List.replicate maxThreads {}

namespace InterruptDeliveryTable

def find (t : InterruptDeliveryTable) (driver : ThreadId) : Option Slot :=
  if driver = OsKernel.invalidThread then none else lookup Slot.key driver t.slots

def armed (t : InterruptDeliveryTable) (driver : ThreadId) : Bool := (t.find driver).isSome

def clear (t : InterruptDeliveryTable) (driver : ThreadId) : InterruptDeliveryTable :=
  { t with slots := modify Slot.key driver (fun _ => {}) t.slots }

def arm (t : InterruptDeliveryTable) (driver : ThreadId) (source : InterruptSource)
    (service : Service) : InterruptDeliveryTable × Result Unit :=
  if driver = OsKernel.invalidThread ∨ source = invalidInterruptSource then
    (t, .error (kernelError InterruptDeliveryErrors.invalidThread))
  else if (t.find driver).isSome then
    (t, .error (kernelError alreadyArmed))
  else
    match insert Slot.key { driver, source, service, occupied := true } t.slots with
    | some slots => ({ slots }, .ok ())
    | none => (t, .error (kernelError exhausted))

def take (t : InterruptDeliveryTable) (driver : ThreadId) :
    InterruptDeliveryTable × Result Service :=
  match t.find driver with
  | none => (t, .error (kernelError notArmed))
  | some slot => (t.clear driver, .ok slot.service)

def release (t : InterruptDeliveryTable) (driver : ThreadId) : InterruptDeliveryTable × Bool :=
  match t.find driver with
  | none => (t, false)
  | some _ => (t.clear driver, true)

end InterruptDeliveryTable

end Enml.OsKernel
