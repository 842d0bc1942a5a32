import Enml.OsKernel.Machine
import Enml.OsKernel.Operation

/-! The kernel over the machine layer. The map and unmap calls are authorised by
the kernel and performed by the machine on the space the authorization names;
each space identity has a machine-side space of its own. -/
namespace Enml.OsKernel

open Enml.Core

structure Platform where
  system : System := {}
  machine : Machine AddressSpaceIdentity := {}

/-- The machine operations the kernel image makes beside the calls: setting up
and sealing spaces, reserving memory, and its own mappings and stacks. -/
def MachineOp.preparatory {ι : Type} : MachineOp ι → Bool
  | .create .. | .donateTablePage .. | .initializeTranslationRoot .. | .sealRoot .. => true
  | .beginRetire .. | .reservePhysical .. | .map .. | .mapKernelStack .. => true
  | .mapUserStack .. | .releaseOneReservation .. => true
  | _ => false

inductive PlatformOp where
  | system (op : SystemOp)
  | machine (op : { op : MachineOp AddressSpaceIdentity // op.preparatory = true })
  | map (caller : ThreadId) (request : MapSyscall)
  | unmap (caller : ThreadId) (request : UnmapSyscall)
  | release (space : AddressSpaceIdentity) (retiring : RetiringAddressSpaceEpoch)

/-- A call answers with `none` where the kernel halts. -/
inductive PlatformOutcome where
  | system (outcome : SystemOutcome)
  | call (result : Option (Result Unit))

namespace Platform

def halt (p : Platform) : Platform := { p with machine := { p.machine with halted := true } }

def setExecutables (p : Platform) (executables : ExecutableRegionTable) : Platform :=
  { p with system := { p.system with env := { p.system.env with executables } } }

/-- The kernel halts when the record refuses what the authorization allowed. -/
def recordExecutable (p : Platform) (authorized : MapAuthorization) :
    Platform × Option (Result Unit) :=
  match p.system.env.executables.record authorized.space authorized.virtualBase
      authorized.length with
  | (executables, .error _) => ((p.setExecutables executables).halt, none)
  | (executables, .ok ()) => (p.setExecutables executables, some (.ok ()))

/-- The region is recorded after the mapping exists. -/
def performMap (p : Platform) (authorized : MapAuthorization) : Platform × Option (Result Unit) :=
  if !(p.machine.spaces authorized.space).mappings.bound then (p.halt, none)
  else
    match p.machine.mapUserBacking authorized.space authorized.virtualBase
        authorized.physicalBase authorized.length authorized.permissions.toMachine with
    | (machine, some (.ok ())) =>
      if authorized.permissions = .readExecute then
        { p with machine }.recordExecutable authorized
      else ({ p with machine }, some (.ok ()))
    | (machine, stopped) => ({ p with machine }, stopped)

def mapCall (p : Platform) (caller : ThreadId) (request : MapSyscall) :
    Platform × Option (Result Unit) :=
  match p.system.kernel.mapAuthorize caller request p.system.env.epochs p.system.env.grants
      p.system.env.executables with
  | .error e => (p, some (.error e))
  | .ok authorized => p.performMap authorized

def performUnmap (p : Platform) (authorized : UnmapAuthorization) :
    Platform × Option (Result Unit) :=
  if !(p.machine.spaces authorized.space).mappings.bound then (p.halt, none)
  else
    let (machine, result) :=
      p.machine.machineUnmap authorized.space authorized.virtualBase authorized.length
    ({ p with machine }, result)

def unmapCall (p : Platform) (caller : ThreadId) (request : UnmapSyscall) :
    Platform × Option (Result Unit) :=
  match p.system.kernel.unmapAuthorize caller request p.system.env.epochs p.system.env.grants
      p.system.env.executables with
  | .error e => (p, some (.error e))
  | .ok authorized => p.performUnmap authorized

def step (p : Platform) (op : PlatformOp) : Platform × PlatformOutcome :=
  if p.machine.halted then (p, .call none)
  else
    match op with
    | .system op =>
      let (system, outcome) := p.system.step op
      ({ p with system }, .system outcome)
    | .machine op =>
      let (machine, result) := p.machine.perform op.1
      ({ p with machine }, .call result)
    | .map caller request => (p.mapCall caller request).map id .call
    | .unmap caller request => (p.unmapCall caller request).map id .call
    | .release space retiring =>
      let (machine, result) := p.machine.releaseAddressSpace space retiring
      ({ p with machine }, .call result)

end Platform

end Enml.OsKernel
