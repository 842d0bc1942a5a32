import Enml.Lib.Run
import Enml.OsKernel.MappingState

/-! The machine layer over any number of address spaces: one memory, one ledger,
and the operations that map, unmap, reserve and tear down. -/
namespace Enml.OsKernel

open Enml.Core MachineErrors

/-- A state object and the builder attached to it. The layer's own pointers to
the ledger and the builder are set exactly while the state is bound. -/
structure MachineAddressSpace where
  mappings : NativeAddressSpaceState := {}
  builder : EarlyStage1Builder := {}

/-- `halted` is set where the kernel stops on a violated invariant. -/
structure Machine (ι : Type) where
  physical : Physical := {}
  ledger : NativePhysicalLedger ι := {}
  spaces : ι → MachineAddressSpace := fun _ => {}
  halted : Bool := false

/-- The calls on the spaces of a machine. -/
inductive MachineOp (ι : Type) where
  | create (space : ι) (arena : ArenaId) (region : Stage1Region)
  | donateTablePage (space : ι) (arena : ArenaId) (page : UInt64)
  | initializeTranslationRoot (space : ι)
  | sealRoot (space : ι)
  | beginRetire (space : ι)
  | reservePhysical (space : ι) (physicalBase length : UInt64) (kind : PhysicalReservationKind)
  | map (space : ι) (virtualBase physicalBase length : UInt64) (permissions : MachinePermissions)
      (kind : MachineMemoryKind) (kernelStack : Bool)
  | mapUser (space : ι) (virtualBase physicalBase length : UInt64)
      (permissions : MachinePermissions)
  | mapUserBacking (space : ι) (virtualBase physicalBase length : UInt64)
      (permissions : MachinePermissions)
  | mapKernelStack (space : ι) (virtualBase physicalBase length : UInt64)
  | mapUserStack (space : ι) (virtualBase physicalBase length : UInt64)
  | unmap (space : ι) (virtualBase length : UInt64)
  | clearLeaf (space : ι) (virtualAddress : UInt64)
  | retireUnmapped (space : ι) (virtualBase length : UInt64)
  | releaseOneReservation (space : ι) (physicalBase length : UInt64)
  | releaseReservations (space : ι)
  | unbind (space : ι)

/-- Initial ASIDs fit in eight bits, and zero is the kernel's. -/
def supportedInitialAsid (asid : AddressSpaceAsid) : Bool :=
  decide (1 ≤ asid) && decide (asid ≤ 255)

/-- Every page of the range has a valid leaf. -/
def requireMapped (b : EarlyStage1Builder) (m : Memory) (virtualBase : UInt64) :
    List Nat → Result Unit
  | [] => .ok ()
  | page :: rest =>
    match b.mapped m (pageAt virtualBase page) with
    | .error e => .error e
    | .ok false => .error (kernelError mappingLedgerInconsistent)
    | .ok true => requireMapped b m virtualBase rest

/-- The clearing loop, which stops the kernel at the first page it cannot clear. -/
def clearPages (b : EarlyStage1Builder) (virtualBase : UInt64) : List Nat → Memory → Memory × Bool
  | [], m => (m, true)
  | page :: rest, m =>
    match b.unmapPage m (pageAt virtualBase page) with
    | (m, .error _) => (m, false)
    | (m, .ok ()) => clearPages b virtualBase rest m

namespace Machine

variable {ι : Type} [DecidableEq ι]

def setMappings (m : Machine ι) (i : ι) (mappings : NativeAddressSpaceState) : Machine ι :=
  { m with spaces := Function.update m.spaces i { m.spaces i with mappings } }

def setBuilder (m : Machine ι) (i : ι) (builder : EarlyStage1Builder) : Machine ι :=
  { m with spaces := Function.update m.spaces i { m.spaces i with builder } }

def setMemory (m : Machine ι) (memory : Memory) : Machine ι :=
  { m with physical := { m.physical with memory } }

/-- A space with a builder that has no root yet. -/
def createAddressSpace (m : Machine ι) (i : ι) (arena : ArenaId) (region : Stage1Region) :
    Machine ι × Result Unit :=
  match (m.spaces i).mappings.bind with
  | (_, .error e) => (m, .error e)
  | (mappings, .ok ()) =>
    ({ m with
        spaces := Function.update m.spaces i
          { mappings, builder := { arena := some arena, region } } }, .ok ())

def reservePhysical (m : Machine ι) (i : ι) (physicalBase length : UInt64)
    (kind : PhysicalReservationKind) : Machine ι × Result Unit :=
  let (ledger, reserved) :=
    (m.spaces i).mappings.reservePhysical i m.ledger physicalBase length kind
  ({ m with ledger }, reserved)

/-- The page is reserved before the arena sees it, and stays reserved if the
arena refuses it. -/
def donateTablePage (m : Machine ι) (i : ι) (arena : ArenaId) (page : UInt64) :
    Machine ι × Result Unit :=
  match m.reservePhysical i page architecturalPageSize .kernelPrivate with
  | (m, .error e) => (m, .error e)
  | (m, .ok ()) =>
    let (donated, result) := (m.physical.arenas arena).donate page
    ({ m with physical :=
        { m.physical with arenas := Function.update m.physical.arenas arena donated } }, result)

def initializeTranslationRoot (m : Machine ι) (i : ι) : Machine ι × Result Unit :=
  if !(m.spaces i).mappings.bound then
    (m, .error (kernelError addressSpaceUnbound))
  else
    match (m.spaces i).builder.initializeRoot m.physical with
    | ((builder, physical), result) =>
      ({ m.setBuilder i builder with physical }, result.map fun _ => ())

/-- A call on the builder alone. -/
def onBuilder (m : Machine ι) (i : ι)
    (call : EarlyStage1Builder → EarlyStage1Builder × Result Unit) : Machine ι × Result Unit :=
  let (builder, result) := call (m.spaces i).builder
  (m.setBuilder i builder, result)

def mapImpl (m : Machine ι) (i : ι) (r : MapRequest) : Machine ι × Option (Result Unit) :=
  match (m.spaces i).mappings.mapImpl i m.ledger (m.spaces i).builder m.physical r with
  | ((mappings, ledger, physical), result) =>
    ({ m.setMappings i mappings with ledger, physical, halted := m.halted || result.isNone },
      result)

/-- The stack mappings require the guard page first. -/
def mapStack (m : Machine ι) (i : ι) (r : MapRequest) : Machine ι × Option (Result Unit) :=
  match (m.spaces i).mappings.requireGuardPage (m.spaces i).builder m.physical.memory
      r.virtualBase with
  | .error e => (m, some (.error e))
  | .ok () => m.mapImpl i r

def map (m : Machine ι) (i : ι) (virtualBase physicalBase length : UInt64)
    (permissions : MachinePermissions) (kind : MachineMemoryKind) (kernelStack : Bool) :
    Machine ι × Option (Result Unit) :=
  m.mapImpl i { virtualBase, physicalBase, length, permissions, kind, kernelStack }

def mapUser (m : Machine ι) (i : ι) (virtualBase physicalBase length : UInt64)
    (permissions : MachinePermissions) : Machine ι × Option (Result Unit) :=
  m.mapImpl i { virtualBase, physicalBase, length, permissions, userAccessible := true }

def mapUserBacking (m : Machine ι) (i : ι) (virtualBase physicalBase length : UInt64)
    (permissions : MachinePermissions) : Machine ι × Option (Result Unit) :=
  m.mapImpl i
    { virtualBase, physicalBase, length, permissions, userAccessible := true, backing := true }

def mapKernelStack (m : Machine ι) (i : ι) (virtualBase physicalBase length : UInt64) :
    Machine ι × Option (Result Unit) :=
  m.mapStack i
    { virtualBase, physicalBase, length, permissions := .readWrite, kernelStack := true }

def mapUserStack (m : Machine ι) (i : ι) (virtualBase physicalBase length : UInt64) :
    Machine ι × Option (Result Unit) :=
  m.mapStack i
    { virtualBase, physicalBase, length, permissions := .readWrite, userStack := true
      userAccessible := true }

/-- The leaf is cleared and nothing else: the ledger still has the mapping. -/
def clearLeaf (m : Machine ι) (i : ι) (virtualAddress : UInt64) : Machine ι × Result Unit :=
  let (memory, result) := (m.spaces i).builder.unmapPage m.physical.memory virtualAddress
  (m.setMemory memory, result)

def retireUnmapped (m : Machine ι) (i : ι) (virtualBase length : UInt64) :
    Machine ι × Result Unit :=
  match (m.spaces i).mappings.retireUnmapped i m.ledger (m.spaces i).builder m.physical.memory
      virtualBase length with
  | ((mappings, ledger), result) => ({ m.setMappings i mappings with ledger }, result)

/-- Nothing is refused once the first leaf is cleared. -/
def machineUnmap (m : Machine ι) (i : ι) (virtualBase length : UInt64) :
    Machine ι × Option (Result Unit) :=
  if !(m.spaces i).mappings.bound then
    (m, some (.error (kernelError addressSpaceUnbound)))
  else if length == 0 || !pageAligned virtualBase || !pageAligned length then
    (m, some (.error (kernelError invalidRange)))
  else
    match (m.spaces i).mappings.exactMapping virtualBase length with
    | .error e => (m, some (.error e))
    | .ok _ =>
      if (m.spaces i).builder.lifecycle = .sealed then
        (m, some (.error (kernelError sealedRoot)))
      else
        let pages := List.range (pageCount length)
        match requireMapped (m.spaces i).builder m.physical.memory virtualBase pages with
        | .error e => (m, some (.error e))
        | .ok () =>
          match clearPages (m.spaces i).builder virtualBase pages m.physical.memory with
          | (memory, false) => ({ m.setMemory memory with halted := true }, none)
          | (memory, true) =>
            match (m.setMemory memory).retireUnmapped i virtualBase length with
            | (m, .error _) => ({ m with halted := true }, none)
            | (m, .ok ()) => (m, some (.ok ()))

def releaseOneReservation (m : Machine ι) (i : ι) (physicalBase length : UInt64) :
    Machine ι × Result Unit :=
  let (ledger, result) := (m.spaces i).mappings.releaseOneReservation i m.ledger physicalBase length
  ({ m with ledger }, result)

def releaseReservations (m : Machine ι) (i : ι) : Machine ι × Result Unit :=
  let (ledger, result) := (m.spaces i).mappings.releaseReservations i m.ledger
  ({ m with ledger }, result)

def unbind (m : Machine ι) (i : ι) : Machine ι × Result Unit :=
  let (mappings, result) := (m.spaces i).mappings.unbind i m.ledger
  (m.setMappings i mappings, result)

/-- Unmap one mapping after another, by the path an individual unmap takes. The
loop ends with the table empty, after as many turns as it has cells. -/
def releaseMappings (i : ι) : Nat → Machine ι → Machine ι × Option (Result Unit)
  | 0, m => (m, some (.ok ()))
  | turns + 1, m =>
    match (m.spaces i).mappings.anyMapping with
    | .error e =>
      if e = kernelError notMapped then (m, some (.ok ()))
      else (m, some (.error e))
    | .ok mapping =>
      match m.machineUnmap i mapping.virtualBase mapping.length with
      | (m, some (.ok ())) => releaseMappings i turns m
      | stopped => stopped

/-- Zero and release one reservation after another. -/
def releaseReserved (i : ι) : Nat → Machine ι → Machine ι × Result Unit
  | 0, m => (m, .ok ())
  | turns + 1, m =>
    match (m.spaces i).mappings.anyReservation i m.ledger with
    | .error e => if e = kernelError notMapped then (m, .ok ()) else (m, .error e)
    | .ok v =>
      let zeroed := m.setMemory (m.physical.memory.zeroRange v.physicalBase v.length)
      match zeroed.releaseOneReservation i v.physicalBase v.length with
      | (m, .error e) => (m, .error e)
      | (m, .ok ()) => releaseReserved i turns m

/-- Teardown of a space whose epoch has begun to retire. -/
def releaseAddressSpace (m : Machine ι) (i : ι) (retiring : RetiringAddressSpaceEpoch) :
    Machine ι × Option (Result Unit) :=
  if !(m.spaces i).mappings.bound then
    (m, some (.error (kernelError addressSpaceUnbound)))
  else if !retiring.epoch.valid then
    (m, some (.error (kernelError invalidRange)))
  else
    match releaseMappings i (maxNativeMappings + 1) m with
    | (m, some (.ok ())) =>
      match releaseReserved i (maxNativePhysicalReservations + 1) m with
      | (m, .error e) => (m, some (.error e))
      | (m, .ok ()) =>
        if !supportedInitialAsid retiring.epoch.asid then
          (m, some (.error (kernelError invalidRange)))
        else
          let (m, unbound) := m.unbind i
          (m, some unbound)
    | stopped => stopped

/-- A call that cannot stop the kernel. -/
def answered (done : Machine ι × Result Unit) : Machine ι × Option (Result Unit) :=
  (done.1, some done.2)

def perform (m : Machine ι) : MachineOp ι → Machine ι × Option (Result Unit)
  | .create space arena region => answered (m.createAddressSpace space arena region)
  | .donateTablePage space arena page => answered (m.donateTablePage space arena page)
  | .initializeTranslationRoot space => answered (m.initializeTranslationRoot space)
  | .sealRoot space => answered (m.onBuilder space EarlyStage1Builder.sealRoot)
  | .beginRetire space => answered (m.onBuilder space EarlyStage1Builder.beginRetire)
  | .reservePhysical space physicalBase length kind =>
    answered (m.reservePhysical space physicalBase length kind)
  | .map space virtualBase physicalBase length permissions kind kernelStack =>
    m.map space virtualBase physicalBase length permissions kind kernelStack
  | .mapUser space virtualBase physicalBase length permissions =>
    m.mapUser space virtualBase physicalBase length permissions
  | .mapUserBacking space virtualBase physicalBase length permissions =>
    m.mapUserBacking space virtualBase physicalBase length permissions
  | .mapKernelStack space virtualBase physicalBase length =>
    m.mapKernelStack space virtualBase physicalBase length
  | .mapUserStack space virtualBase physicalBase length =>
    m.mapUserStack space virtualBase physicalBase length
  | .unmap space virtualBase length => m.machineUnmap space virtualBase length
  | .clearLeaf space virtualAddress => answered (m.clearLeaf space virtualAddress)
  | .retireUnmapped space virtualBase length => answered (m.retireUnmapped space virtualBase length)
  | .releaseOneReservation space physicalBase length =>
    answered (m.releaseOneReservation space physicalBase length)
  | .releaseReservations space => answered (m.releaseReservations space)
  | .unbind space => answered (m.unbind space)

/-- A halted machine does nothing more. -/
def step (m : Machine ι) (op : MachineOp ι) : Machine ι × Option (Result Unit) :=
  if m.halted then (m, none) else m.perform op

end Machine

end Enml.OsKernel
