import Enml.Core.Result
import Enml.Lib.SlotTable

/-! `FaultRegionTable`: which ranges of an address space a fault may be asked
about, and what the answer may say. A report carries a region and never an
address, and each transition of a region is announced once. -/
namespace Enml.OsKernel

open Enml.Core

namespace FaultRegionErrors
def invalidRange : UInt32 := 1
def overlaps : UInt32 := 2
def exhausted : UInt32 := 3
def notFound : UInt32 := 4
def wrongState : UInt32 := 5
end FaultRegionErrors

open FaultRegionErrors

abbrev FaultRegionId := UInt16

def invalidFaultRegion : FaultRegionId := 0
def maxFaultRegions : Nat := 32

/-- A sealed region never produces a fault that userland observes. -/
inductive FaultDisclosure where
  | paged | sealed
  deriving DecidableEq

inductive FaultRegionState where
  | unbacked | backedShared | backedPrivate
  deriving DecidableEq

inductive FaultDisposition where
  | deliver | terminate
  deriving DecidableEq

structure FaultReport where
  region : FaultRegionId := invalidFaultRegion
  disposition : FaultDisposition := .terminate
  write : Bool := false

def FaultReport.deliverable (r : FaultReport) : Bool :=
  r.disposition == .deliver && r.region != invalidFaultRegion

/-- A region and what its faults may disclose. -/
structure FaultRegionTable.Slot where
  base : UInt64 := 0
  length : UInt64 := 0
  id : FaultRegionId := invalidFaultRegion
  disclosure : FaultDisclosure := .sealed
  state : FaultRegionState := .unbacked
  announcedBacking : Bool := false
  announcedPrivate : Bool := false
  occupied : Bool := false

def FaultRegionTable.Slot.key (s : FaultRegionTable.Slot) : Option FaultRegionId :=
  if s.occupied then some s.id else none

structure FaultRegionTable where
  slots : List FaultRegionTable.Slot := List.replicate maxFaultRegions {}
  occupied : Nat := 0
  nextId : FaultRegionId := 1

namespace FaultRegionTable

def faultRegionGranule : UInt64 := 4096

def aligned (value : UInt64) : Bool := value &&& (faultRegionGranule - 1) == 0

def overlap (aBase aLength bBase bLength : UInt64) : Bool :=
  decide (aBase < bBase + bLength) && decide (bBase < aBase + aLength)

def find (t : FaultRegionTable) (region : FaultRegionId) : Option Slot :=
  if region = invalidFaultRegion then none else SlotTable.lookup Slot.key region t.slots

/-- Identifiers run upwards and stop one short of the last. -/
def declare (t : FaultRegionTable) (base length : UInt64) (disclosure : FaultDisclosure) :
    FaultRegionTable × Result FaultRegionId :=
  if length == 0 || !aligned base || !aligned length ||
      decide (0xFFFFFFFFFFFFFFFF - length < base) then
    (t, .error (kernelError invalidRange))
  else if t.slots.any fun slot => slot.occupied && overlap slot.base slot.length base length then
    (t, .error (kernelError overlaps))
  else if t.nextId = 0xFFFF then (t, .error (kernelError exhausted))
  else
    match SlotTable.insert Slot.key
        { base, length, id := t.nextId, disclosure, state := .unbacked, announcedBacking := false,
          announcedPrivate := false, occupied := true } t.slots with
    | none => (t, .error (kernelError exhausted))
    | some slots => ({ slots, occupied := t.occupied + 1, nextId := t.nextId + 1 }, .ok t.nextId)

/-- Backing is recorded, and never taken back. -/
def markBacked (t : FaultRegionTable) (region : FaultRegionId) (state : FaultRegionState) :
    FaultRegionTable × Result Unit :=
  match t.find region with
  | none => (t, .error (kernelError notFound))
  | some _ =>
    if state = .unbacked then (t, .error (kernelError wrongState))
    else
      let slots := SlotTable.modify Slot.key region (fun slot => { slot with state }) t.slots
      ({ t with slots }, .ok ())

/-- The slot answers for the address. -/
def Slot.hit (virtualAddress : UInt64) (slot : Slot) : Bool :=
  slot.occupied && decide (slot.base ≤ virtualAddress) &&
    decide (virtualAddress - slot.base < slot.length)

def Slot.announceBacking (slot : Slot) : Slot := { slot with announcedBacking := true }
def Slot.announcePrivate (slot : Slot) : Slot := { slot with announcedPrivate := true }

/-- The one answer to a fault. A transition that is announced is spent, whatever
becomes of the report. -/
def resolve (t : FaultRegionTable) (virtualAddress : UInt64) (write : Bool) :
    FaultRegionTable × FaultReport :=
  let report : FaultReport := { write }
  match t.slots.find? (Slot.hit virtualAddress) with
  | none => (t, report)
  | some hit =>
    let announce (f : Slot → Slot) : FaultRegionTable × FaultReport :=
      ({ t with slots := SlotTable.updateFirst (Slot.hit virtualAddress) f t.slots },
        { report with region := hit.id, disposition := .deliver })
    if hit.disclosure = .sealed then (t, report)
    else if hit.state = .unbacked then
      if hit.announcedBacking then (t, report) else announce Slot.announceBacking
    else if write && hit.state == .backedShared then
      if hit.announcedPrivate then (t, report) else announce Slot.announcePrivate
    else (t, report)

end FaultRegionTable

inductive FaultOperation where
  | declare (base length : UInt64) (disclosure : FaultDisclosure)
  | markBacked (region : FaultRegionId) (state : FaultRegionState)
  | resolve (virtualAddress : UInt64) (write : Bool)

inductive FaultOutcome where
  | declared (result : Result FaultRegionId)
  | marked (result : Result Unit)
  | reported (report : FaultReport)

def FaultRegionTable.step (t : FaultRegionTable) : FaultOperation → FaultRegionTable × FaultOutcome
  | .declare base length disclosure =>
    let (t, result) := t.declare base length disclosure
    (t, .declared result)
  | .markBacked region state =>
    let (t, result) := t.markBacked region state
    (t, .marked result)
  | .resolve virtualAddress write =>
    let (t, report) := t.resolve virtualAddress write
    (t, .reported report)

end Enml.OsKernel
