import Enml.Core.Identity

/-! `protection`: the units of a partitioned resource and who holds them. The
holders are the live part of the table; the last one moves into a freed place. -/
namespace Enml.OsTime

open Enml.Core

def maxPartitionHolders : Nat := 8

namespace Errors
def unsupportedPlatform : UInt32 := 1
def invalidRequest : UInt32 := 2
def insufficientCapacity : UInt32 := 3
def wouldStarveShared : UInt32 := 4
def alreadyHolding : UInt32 := 5
def notHolding : UInt32 := 6
def tooManyHolders : UInt32 := 7
end Errors

open Errors

def timeError (code : UInt32) : Error := makeError .security code

/-- The bits of the five capabilities, from `partitioned_cache` on. -/
def knownTimeProtectionCapabilities : UInt32 := 0x1F

structure PartitionReservation where
  principal : PrincipalId := {}
  units : UInt32 := 0
  deriving DecidableEq

structure PartitionLedger where
  capabilities : UInt32 := 0
  capacity : UInt32 := 0
  sharedFloor : UInt32 := 0
  reserved : UInt32 := 0
  holders : List PartitionReservation := []
  deriving DecidableEq

namespace PartitionLedger

def create (capabilities capacity sharedFloor : UInt32) : Result PartitionLedger :=
  if capabilities &&& ~~~knownTimeProtectionCapabilities ≠ 0 then
    .error (timeError unsupportedPlatform)
  else if capacity ≠ 0 ∧ capabilities = 0 then .error (timeError unsupportedPlatform)
  else if capacity ≠ 0 ∧ (sharedFloor = 0 ∨ capacity ≤ sharedFloor) then
    .error (timeError invalidRequest)
  else if capacity = 0 ∧ sharedFloor ≠ 0 then .error (timeError invalidRequest)
  else .ok { capabilities, capacity, sharedFloor }

/-- Saturates at zero. -/
def available (ledger : PartitionLedger) : UInt32 :=
  if ledger.capacity ≤ ledger.sharedFloor then 0
  else if ledger.capacity - ledger.sharedFloor ≤ ledger.reserved then 0
  else ledger.capacity - ledger.sharedFloor - ledger.reserved

def indexOf (ledger : PartitionLedger) (principal : PrincipalId) : Option Nat :=
  ledger.holders.findIdx? fun holder => holder.principal = principal

def unitsFor (ledger : PartitionLedger) (principal : PrincipalId) : UInt32 :=
  match ledger.indexOf principal with
  | none => 0
  | some index => (ledger.holders.getD index {}).units

def reserve (ledger : PartitionLedger) (principal : PrincipalId) (units : UInt32) :
    PartitionLedger × Result Unit :=
  if !validPrincipal principal then (ledger, .error (timeError invalidRequest))
  else if units = 0 then (ledger, .error (timeError invalidRequest))
  else if ledger.capacity = 0 ∨ ledger.capabilities = 0 then
    (ledger, .error (timeError unsupportedPlatform))
  else if (ledger.indexOf principal).isSome then (ledger, .error (timeError alreadyHolding))
  else if maxPartitionHolders ≤ ledger.holders.length then
    (ledger, .error (timeError tooManyHolders))
  else if ledger.available < units then
    if ledger.capacity - ledger.sharedFloor < units then
      (ledger, .error (timeError wouldStarveShared))
    else (ledger, .error (timeError insufficientCapacity))
  else
    ({ ledger with
        holders := ledger.holders ++ [⟨principal, units⟩]
        reserved := ledger.reserved + units }, .ok ())

/-- The last entry moves into the hole and its own place is given up. -/
def compact (holders : List PartitionReservation) (index : Nat) : List PartitionReservation :=
  (holders.set index (holders.getLast?.getD {})).dropLast

def reclaim (ledger : PartitionLedger) (principal : PrincipalId) : PartitionLedger × UInt32 :=
  match ledger.indexOf principal with
  | none => (ledger, 0)
  | some index =>
    let units := (ledger.holders.getD index {}).units
    ({ ledger with
        holders := compact ledger.holders index, reserved := ledger.reserved - units }, units)

def release (ledger : PartitionLedger) (principal : PrincipalId) : PartitionLedger × Result Unit :=
  match ledger.indexOf principal with
  | none => (ledger, .error (timeError notHolding))
  | some _ => ((ledger.reclaim principal).1, .ok ())

end PartitionLedger

inductive PartitionOp where
  | reserve (principal : PrincipalId) (units : UInt32)
  | release (principal : PrincipalId)
  | reclaim (principal : PrincipalId)

inductive PartitionReply where
  | done (result : Result Unit)
  | reclaimed (units : UInt32)

def PartitionReply.Refused : PartitionReply → Prop
  | .done (.error _) => True
  | _ => False

def PartitionLedger.step (ledger : PartitionLedger) : PartitionOp → PartitionLedger × PartitionReply
  | .reserve principal units =>
    ((ledger.reserve principal units).1, .done (ledger.reserve principal units).2)
  | .release principal => ((ledger.release principal).1, .done (ledger.release principal).2)
  | .reclaim principal => ((ledger.reclaim principal).1, .reclaimed (ledger.reclaim principal).2)

end Enml.OsTime
