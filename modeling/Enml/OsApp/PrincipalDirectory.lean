import Enml.Lib.Interruptible
import Enml.OsApp.PrincipalStore

/-! The store of application principals in its state directory. A principal is handed
out after the store that has it has taken the place of the old snapshot. -/
namespace Enml.OsApp

open Enml.Core Interruptible Program PrincipalErrors
open Enml.OsPackage (ApplicationIdentity)

/-- The snapshot and the temporary file that is renamed to it. -/
structure StateDirectory where
  snapshot : Option (List UInt8) := none
  temp : Option (List UInt8) := none

abbrev Io := Program StateDirectory Error

def ioFailure : Error := principalError PrincipalErrors.ioFailure

/-- A call on the directory. One that does not get through has had its effect or not. -/
def fileCall (effect : StateDirectory → StateDirectory) : Io Unit :=
  let partly (extent : Nat) (d : StateDirectory) := if extent = 0 then d else effect d
  call (fun d => (effect d, .ok ())) (fun extent _ d => (partly extent d, ioFailure)) partly

def unlinkTemp : Io Unit := fileCall fun d => { d with temp := none }

/-- The file must not be there yet. -/
def openTemp : Io Unit :=
  let created (d : StateDirectory) : StateDirectory := { d with temp := some (d.temp.getD []) }
  let partly (extent : Nat) (d : StateDirectory) := if extent = 0 then d else created d
  call (fun d => if d.temp.isSome then (d, .error ioFailure) else (created d, .ok ()))
    (fun extent _ d => (partly extent d, ioFailure)) partly

def chmodTemp : Io Unit := fileCall id

/-- Of a write that does not get through, the first bytes may have been written. -/
def writeAll (bytes : List UInt8) : Io Unit :=
  let after (extent : Nat) (d : StateDirectory) : StateDirectory :=
    { d with temp := d.temp.map fun file => file ++ bytes.take extent }
  call (fun d => (after bytes.length d, .ok ()))
    (fun extent _ d => (after extent d, ioFailure)) after

def syncTemp : Io Unit := fileCall id

def renamed (d : StateDirectory) : StateDirectory :=
  match d.temp with
  | none => d
  | some file => { snapshot := some file, temp := none }

def renameTemp : Io Unit :=
  let partly (extent : Nat) (d : StateDirectory) := if extent = 0 then d else renamed d
  call (fun d => if d.temp.isSome then (renamed d, .ok ()) else (d, .error ioFailure))
    (fun extent _ d => (partly extent d, ioFailure)) partly

def syncDirectory : Io Unit := fileCall id

/-- Whichever of these steps fails, the temporary file is removed again. -/
def replaceSnapshot (bytes : List UInt8) : Io Unit :=
  onFailure
    (do
      chmodTemp
      writeAll bytes
      syncTemp
      renameTemp)
    unlinkTemp

def persistCandidate (candidate : ApplicationPrincipalStore) : Io Unit :=
  match encodeSnapshot candidate with
  | .error e => fail e
  | .ok bytes => do
      unlinkTemp
      openTemp
      replaceSnapshot bytes
      syncDirectory

/-- The state directory is looked at, and the snapshot is read. -/
def openStore : Io ApplicationPrincipalStore := do
  call (fun d => (d, .ok ()))
    (fun _ _ d => (d, principalError invalidStateDirectory)) fun _ d => d
  call (fun d => (d, loadSnapshot d.snapshot)) (fun _ _ d => (d, ioFailure)) fun _ d => d

/-- The store in memory after a call that succeeds, and the record it answers. A call
that fails leaves the store as it was. -/
def resolveOrAllocate (s : ApplicationPrincipalStore) (application : ApplicationIdentity)
    (user : UserId) : Io (ApplicationPrincipalStore × ApplicationPrincipalRecord) :=
  if !application.valid then fail (principalError invalidApplication)
  else
    match s.find application user with
    | some record => pure (s, record)
    | none =>
      if m1ApplicationPrincipalCapacity ≤ s.records.length then
        fail (principalError storeFull)
      else if s.nextPrincipalLow = 0 ∨ s.nextPrincipalLow = 0xFFFFFFFFFFFFFFFF then
        fail (principalError idExhausted)
      else do
        let (record, candidate) := s.allocated application user
        persistCandidate candidate
        pure (candidate, record)

/-- The state directory, and the store of the running process, if it has one. -/
structure PrincipalService where
  directory : StateDirectory := {}
  store : Option ApplicationPrincipalStore := none

/-- What happens to the service. The script says what happens at the calls that are
made on files. -/
inductive PrincipalOp where
  | openStore (script : List (Fault Error))
  | resolveOrAllocate (application : ApplicationIdentity) (user : UserId)
      (script : List (Fault Error))
  | lookup (application : ApplicationIdentity) (user : UserId)
  | exit

/-- The application and the user that a call asks for. -/
def PrincipalOp.key : PrincipalOp → Option (ApplicationIdentity × UserId)
  | .resolveOrAllocate application user _ => some (application, user)
  | .lookup application user => some (application, user)
  | _ => none

/-- The store that is left in memory, with the record that is answered. -/
abbrev Serving := Io (ApplicationPrincipalStore × Option ApplicationPrincipalRecord)

def opening : Serving := do
  let store ← openStore
  pure (store, none)

def resolving (s : ApplicationPrincipalStore) (application : ApplicationIdentity) (user : UserId) :
    Serving := do
  let reply ← resolveOrAllocate s application user
  pure (reply.1, some reply.2)

namespace PrincipalService

/-- The service after a call, and its answer. A process that is stopped leaves no
store. -/
def settle (before : Option ApplicationPrincipalStore) :
    StateDirectory × List (Fault Error) ×
        Outcome Error (ApplicationPrincipalStore × Option ApplicationPrincipalRecord) →
      PrincipalService × Option (Result ApplicationPrincipalRecord)
  | (directory, _, .done (store, answer)) => ({ directory, store := some store }, answer.map .ok)
  | (directory, _, .failed e) => ({ directory, store := before }, some (.error e))
  | (directory, _, .stopped) => ({ directory }, none)

def step (s : PrincipalService) :
    PrincipalOp → PrincipalService × Option (Result ApplicationPrincipalRecord)
  | .openStore script => settle s.store (opening s.directory script)
  | .resolveOrAllocate application user script =>
    match s.store with
    | none => (s, none)
    | some store => settle s.store (resolving store application user s.directory script)
  | .lookup application user =>
    match s.store with
    | none => (s, none)
    | some store => (s, some (store.lookup application user))
  | .exit => ({ s with store := none }, none)

end PrincipalService

end Enml.OsApp
