import Enml.Core.Identity
import Enml.Lib.SlotTable

/-! The identity registry of a service. The supervisor enters each client with a
descriptor of its process, and every packet is resolved through the entry of the
pid the kernel attests. -/
namespace Enml.OsService

open Enml.Core

namespace Errors
def unknownProcess : UInt32 := 1
def credentialMismatch : UInt32 := 2
def staleProcess : UInt32 := 3
def registryFull : UInt32 := 4
def invalidIdentity : UInt32 := 5
end Errors

open Errors

def securityError (code : UInt32) : Error := makeError .security code

def maxIdentityRegistryEntries : Nat := 64

/-- A process: the pid it was given, and which start that was. Pids come back after
a death, starts do not. -/
structure Process where
  pid : Int64
  start : Nat
  deriving DecidableEq

/-- A descriptor names one process for good, or is not a descriptor. -/
abbrev Pidfd := Option Process

structure ProcessIdentityRecord where
  kernel : KernelPeerCredentials := {}
  peer : PeerIdentity := {}
  deriving DecidableEq

/-- The processes that are alive, and how many have been started. -/
structure Processes where
  alive : List Process := []
  started : Nat := 0

namespace Processes

/-- A new process gets any pid that no living one has. -/
def spawn (w : Processes) (pid : Int64) : Processes :=
  if w.alive.any fun p => p.pid == pid then w
  else { alive := { pid, start := w.started } :: w.alive, started := w.started + 1 }

def exit (w : Processes) (p : Process) : Processes := { w with alive := w.alive.erase p }

end Processes

/-- A registered process and its pidfd. -/
structure Entry where
  occupied : Bool := false
  record : ProcessIdentityRecord := {}
  pidfd : Pidfd := none
  deriving DecidableEq

def Entry.key (e : Entry) : Option ProcessId :=
  if e.occupied then some e.record.peer.process else none

structure IdentityRegistry where
  entries : List Entry := List.replicate maxIdentityRegistryEntries {}

namespace IdentityRegistry

def pidfdAlive (w : Processes) : Pidfd → Bool
  | none => false
  | some p => w.alive.contains p

/-- The entry stands in the way of a registration. -/
def conflicts (record : ProcessIdentityRecord) (e : Entry) : Bool :=
  e.occupied && (e.record.peer.process == record.peer.process ||
    e.record.kernel.processId == record.kernel.processId)

def registerProcess (w : Processes) (t : IdentityRegistry) (record : ProcessIdentityRecord)
    (pidfd : Pidfd) : IdentityRegistry × Result Unit :=
  if pidfd.isNone || !validPeerIdentity record.peer || decide (record.kernel.processId ≤ 0) then
    (t, .error (securityError invalidIdentity))
  else if !pidfdAlive w pidfd then (t, .error (securityError staleProcess))
  else
    match t.entries.find? (conflicts record) with
    | some e =>
      if e.record.peer = record.peer ∧ e.record.kernel = record.kernel ∧
          pidfdAlive w e.pidfd = true then (t, .ok ())
      else (t, .error (securityError credentialMismatch))
    | none =>
      match SlotTable.insert Entry.key { occupied := true, record, pidfd } t.entries with
      | none => (t, .error (securityError registryFull))
      | some entries => ({ entries }, .ok ())

def unregisterProcess (t : IdentityRegistry) (process : ProcessId) :
    IdentityRegistry × Result Unit :=
  if process = 0 then (t, .error (securityError invalidIdentity))
  else
    let registered := fun e : Entry => e.occupied && e.record.peer.process == process
    match t.entries.find? registered with
    | none => (t, .error (securityError unknownProcess))
    | some _ => ({ entries := SlotTable.updateFirst registered (fun _ => {}) t.entries }, .ok ())

/-- An entry whose process has died is dropped by the first packet that asks for
it. -/
def resolve (w : Processes) (t : IdentityRegistry) (credentials : KernelPeerCredentials) :
    IdentityRegistry × Result PeerIdentity :=
  if credentials.processId ≤ 0 then (t, .error (securityError unknownProcess))
  else
    let candidate := fun e : Entry =>
      e.occupied && e.record.kernel.processId == credentials.processId
    match t.entries.find? candidate with
    | none => (t, .error (securityError unknownProcess))
    | some e =>
      if e.record.kernel.userId ≠ credentials.userId ∨
          e.record.kernel.groupId ≠ credentials.groupId then
        (t, .error (securityError credentialMismatch))
      else if !pidfdAlive w e.pidfd then
        ({ entries := SlotTable.updateFirst candidate (fun _ => {}) t.entries },
          .error (securityError staleProcess))
      else (t, .ok e.record.peer)

end IdentityRegistry

inductive IdentityOp where
  | register (record : ProcessIdentityRecord) (pidfd : Pidfd)
  | unregister (process : ProcessId)
  | resolve (credentials : KernelPeerCredentials)
  | spawn (pid : Int64)
  | exit (process : Process)

inductive IdentityReply where
  | done (result : Result Unit)
  | resolved (result : Result PeerIdentity)
  | silent

structure Host where
  registry : IdentityRegistry := {}
  processes : Processes := {}

def Host.step (h : Host) : IdentityOp → Host × IdentityReply
  | .register record pidfd =>
    let (registry, result) := h.registry.registerProcess h.processes record pidfd
    ({ h with registry }, .done result)
  | .unregister process =>
    let (registry, result) := h.registry.unregisterProcess process
    ({ h with registry }, .done result)
  | .resolve credentials =>
    let (registry, result) := h.registry.resolve h.processes credentials
    ({ h with registry }, .resolved result)
  | .spawn pid => ({ h with processes := h.processes.spawn pid }, .silent)
  | .exit process => ({ h with processes := h.processes.exit process }, .silent)

end Enml.OsService
