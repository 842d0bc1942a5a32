import Enml.OsKernel.MemoryGrant
import Enml.OsKernel.PageTables

/-! `NativeAddressSpaceState` and `NativePhysicalLedger`: what each space maps,
and the record all spaces share of who maps which physical range and how. -/
namespace Enml.OsKernel

open Enml.Core MachineErrors SlotTable

def maxNativeMappings : Nat := 64
def maxNativePhysicalMappings : Nat := 256
def maxNativePhysicalReservations : Nat := 64

/-- A mapping of one address space. -/
structure NativeMapping where
  virtualBase : UInt64 := 0
  physicalBase : UInt64 := 0
  length : UInt64 := 0
  permissions : MachinePermissions := .read
  kind : MachineMemoryKind := .normal
  kernelStack : Bool := false
  userStack : Bool := false
  userAccessible : Bool := false
  occupied : Bool := false
  deriving DecidableEq

/-- Cells have no key beyond being in use. -/
def NativeMapping.key (m : NativeMapping) : Option Unit := if m.occupied then some () else none

/-- The owner is the space's state object; `ι` names those objects. -/
structure NativePhysicalMapping (ι : Type) where
  owner : Option ι := none
  physicalBase : UInt64 := 0
  length : UInt64 := 0
  permissions : MachinePermissions := .read
  userAccessible : Bool := false
  occupied : Bool := false

def NativePhysicalMapping.key {ι : Type} (m : NativePhysicalMapping ι) : Option Unit :=
  if m.occupied then some () else none

inductive PhysicalReservationKind where
  | kernelObject | kernelPrivate
  deriving DecidableEq

/-- Memory kept for the kernel, or for one space. -/
structure NativePhysicalReservation (ι : Type) where
  owner : Option ι := none
  physicalBase : UInt64 := 0
  length : UInt64 := 0
  kind : PhysicalReservationKind := .kernelObject
  occupied : Bool := false

def NativePhysicalReservation.key {ι : Type} (r : NativePhysicalReservation ι) : Option Unit :=
  if r.occupied then some () else none

structure NativePhysicalLedger (ι : Type) where
  mappings : List (NativePhysicalMapping ι) := List.replicate maxNativePhysicalMappings {}
  reservations : List (NativePhysicalReservation ι) :=
    List.replicate maxNativePhysicalReservations {}
  occupied : Nat := 0
  reserved : Nat := 0

/-- `bound` stands for the two pointers, which are set and cleared together. -/
structure NativeAddressSpaceState where
  mappings : List NativeMapping := List.replicate maxNativeMappings {}
  occupied : Nat := 0
  bound : Bool := false

def MachinePermissions.writable (p : MachinePermissions) : Bool := p == .readWrite
def MachinePermissions.executable (p : MachinePermissions) : Bool := p == .readExecute

/-- What a reservation forbids, whichever of the two came first. -/
def forbiddenByReservation {ι : Type} [DecidableEq ι] (kind : PhysicalReservationKind)
    (reservationOwner mappingOwner : Option ι) (permissions : MachinePermissions)
    (userAccessible : Bool) : Bool :=
  userAccessible || permissions.executable ||
    (kind == .kernelObject && permissions.writable && mappingOwner != reservationOwner)

/-- The virtual address of the `page`-th page of a range. -/
def pageAt (base : UInt64) (page : Nat) : UInt64 := base + UInt64.ofNat page * architecturalPageSize

def pageCount (length : UInt64) : Nat := (length / architecturalPageSize).toNat

/-- Where `required_table_pages` stands after some pages. `none` is the index
no page has. -/
structure TableCount where
  l1Regions : Nat := 0
  l2Regions : Nat := 0
  previousL1 : Option Nat := none
  previousL2 : Option Nat := none

def TableCount.next (c : TableCount) (va : UInt64) : TableCount :=
  let c := if some (level1Index va) ≠ c.previousL1 then
      { c with
        l1Regions := c.l1Regions + 1, previousL1 := some (level1Index va), previousL2 := none }
    else c
  if some (level2Index va) ≠ c.previousL2 then
    { c with l2Regions := c.l2Regions + 1, previousL2 := some (level2Index va) }
  else c

def requiredTablePages (virtualBase : UInt64) (pages : Nat) : Nat :=
  let c : TableCount := (List.range pages).foldl (fun c page => c.next (pageAt virtualBase page)) {}
  c.l1Regions + c.l2Regions

/-- The arguments of `map_impl`. -/
structure MapRequest where
  virtualBase : UInt64
  physicalBase : UInt64
  length : UInt64
  permissions : MachinePermissions
  kind : MachineMemoryKind := .normal
  kernelStack : Bool := false
  userStack : Bool := false
  userAccessible : Bool := false
  backing : Bool := false

/-- The alignment and bounds of a physical range. -/
def physicalRangeValid (base length : UInt64) : Bool :=
  length != 0 && pageAligned length && pageAligned base && stage1PhysicalAddress base &&
    decide (base ≤ 0xFFFFFFFFFFFFFFFF - (length - 1)) &&
    stage1PhysicalAddress (base + length - architecturalPageSize)

namespace MapRequest

def rangeValid (r : MapRequest) : Bool :=
  physicalRangeValid r.physicalBase r.length && pageAligned r.virtualBase &&
    stage1VirtualAddress r.virtualBase &&
    decide (r.virtualBase ≤ 0xFFFFFFFFFFFFFFFF - (r.length - 1)) &&
    stage1VirtualAddress (r.virtualBase + r.length - architecturalPageSize)

def toMapping (r : MapRequest) : NativeMapping :=
  { virtualBase := r.virtualBase, physicalBase := r.physicalBase, length := r.length
    permissions := r.permissions, kind := r.kind, kernelStack := r.kernelStack
    userStack := r.userStack, userAccessible := r.userAccessible, occupied := true }

def toPhysicalMapping {ι : Type} (r : MapRequest) (this : ι) : NativePhysicalMapping ι :=
  { owner := some this, physicalBase := r.physicalBase, length := r.length
    permissions := r.permissions, userAccessible := r.userAccessible, occupied := true }

/-- One page of the request, through the builder call the request selects. -/
def installPage (r : MapRequest) (b : EarlyStage1Builder) (p : Physical) (page : Nat) :
    Physical × Result Unit :=
  let va := pageAt r.virtualBase page
  let pa := pageAt r.physicalBase page
  if r.backing then b.backAbsentUserPage p va pa r.permissions
  else if r.userAccessible then b.mapUserPage p va pa r.permissions
  else b.mapPage p va pa r.permissions r.kind

/-- The install loop. It stops, and the kernel with it, at the first page that
is refused. -/
def installPages (r : MapRequest) (b : EarlyStage1Builder) : List Nat → Physical → Physical × Bool
  | [], p => (p, true)
  | page :: rest, p =>
    match r.installPage b p page with
    | (p, .error _) => (p, false)
    | (p, .ok ()) => r.installPages b rest p

end MapRequest

/-- No page of the range has a valid leaf; `refusal` is the answer if one has. -/
def requireUnmapped (b : EarlyStage1Builder) (m : Memory) (virtualBase : UInt64)
    (refusal : UInt32) : List Nat → Result Unit
  | [] => .ok ()
  | page :: rest =>
    match b.mapped m (pageAt virtualBase page) with
    | .error e => .error e
    | .ok true => .error (kernelError refusal)
    | .ok false => requireUnmapped b m virtualBase refusal rest

namespace NativeAddressSpaceState

variable {ι : Type} [DecidableEq ι]

def bind (s : NativeAddressSpaceState) : NativeAddressSpaceState × Result Unit :=
  if s.bound then (s, .error (kernelError addressSpaceAlreadyBound))
  else ({ s with bound := true }, .ok ())

/-- Ranges already mapped are checked against the rule about to apply. -/
def reservePhysical (s : NativeAddressSpaceState) (this : ι) (ledger : NativePhysicalLedger ι)
    (physicalBase length : UInt64) (kind : PhysicalReservationKind) :
    NativePhysicalLedger ι × Result Unit :=
  if !s.bound then (ledger, .error (kernelError addressSpaceUnbound))
  else if !physicalRangeValid physicalBase length then
    (ledger, .error (kernelError invalidRange))
  else if ledger.reservations.any fun r =>
      r.occupied && overlaps r.physicalBase r.length physicalBase length then
    (ledger, .error (kernelError alreadyMapped))
  else if ledger.mappings.any fun m =>
      m.occupied && overlaps m.physicalBase m.length physicalBase length &&
        forbiddenByReservation kind (some this) m.owner m.permissions m.userAccessible then
    (ledger, .error (kernelError kernelObjectAlias))
  else
    match insert NativePhysicalReservation.key
        { owner := some this, physicalBase, length, kind, occupied := true }
        ledger.reservations with
    | none => (ledger, .error (kernelError exhausted))
    | some reservations => ({ ledger with reservations, reserved := ledger.reserved + 1 }, .ok ())

/-- The refusals of `map_impl` that the tables decide, in its order. -/
def mapCheck (s : NativeAddressSpaceState) (this : ι) (ledger : NativePhysicalLedger ι)
    (r : MapRequest) : Result Unit :=
  if !s.bound then .error (kernelError addressSpaceUnbound)
  else if r.userAccessible && r.kind != .normal then
    .error (kernelError invalidRange)
  else if r.userStack && (!r.userAccessible || r.permissions != .readWrite) then
    .error (kernelError invalidRange)
  else if !r.rangeValid then .error (kernelError invalidRange)
  else if s.mappings.any fun m =>
      m.occupied && overlaps m.virtualBase m.length r.virtualBase r.length then
    .error (kernelError alreadyMapped)
  else if ledger.mappings.any fun m =>
      m.occupied && overlaps m.physicalBase m.length r.physicalBase r.length &&
        (m.permissions.writable && r.permissions.executable ||
          m.permissions.executable && r.permissions.writable) then
    .error (kernelError writableExecutableAlias)
  else if ledger.reservations.any fun v =>
      v.occupied && overlaps v.physicalBase v.length r.physicalBase r.length &&
        forbiddenByReservation v.kind v.owner (some this) r.permissions r.userAccessible then
    .error (kernelError kernelObjectAlias)
  else .ok ()

/-- The result is `none` where the kernel stops with a violated invariant. -/
def mapImpl (s : NativeAddressSpaceState) (this : ι) (ledger : NativePhysicalLedger ι)
    (b : EarlyStage1Builder) (p : Physical) (r : MapRequest) :
    (NativeAddressSpaceState × NativePhysicalLedger ι × Physical) × Option (Result Unit) :=
  match s.mapCheck this ledger r with
  | .error e => ((s, ledger, p), some (.error e))
  | .ok () =>
    match insert NativeMapping.key r.toMapping s.mappings,
        insert NativePhysicalMapping.key (r.toPhysicalMapping this) ledger.mappings with
    | some mappings, some physicalMappings =>
      let pages := List.range (pageCount r.length)
      if b.remainingTablePages p < requiredTablePages r.virtualBase (pageCount r.length) then
        ((s, ledger, p), some (.error (kernelError exhausted)))
      else
        match requireUnmapped b p.memory r.virtualBase alreadyMapped pages with
        | .error e => ((s, ledger, p), some (.error e))
        | .ok () =>
          match r.installPages b pages p with
          | (p, false) => ((s, ledger, p), none)
          | (p, true) =>
            (({ s with mappings, occupied := s.occupied + 1 },
              { ledger with
                mappings := physicalMappings, occupied := ledger.occupied + 1 }, p),
              some (.ok ()))
    | _, _ => ((s, ledger, p), some (.error (kernelError exhausted)))

/-- The page below a stack is neither mapped nor translated. -/
def requireGuardPage (s : NativeAddressSpaceState) (b : EarlyStage1Builder) (m : Memory)
    (virtualBase : UInt64) : Result Unit :=
  if virtualBase < architecturalPageSize then .error (kernelError missingGuardPage)
  else
    let guard := virtualBase - architecturalPageSize
    if s.mappings.any fun m =>
        m.occupied && overlaps m.virtualBase m.length guard architecturalPageSize then
      .error (kernelError missingGuardPage)
    else if !s.bound then .ok ()
    else
      match b.mapped m guard with
      | .error e => .error e
      | .ok true => .error (kernelError missingGuardPage)
      | .ok false => .ok ()

def exactMapping (s : NativeAddressSpaceState) (virtualBase length : UInt64) :
    Result NativeMapping :=
  if !s.bound then .error (kernelError addressSpaceUnbound)
  else
    match s.mappings.find? fun m =>
        m.occupied && m.virtualBase == virtualBase && m.length == length with
    | none => .error (kernelError notMapped)
    | some m => .ok m

/-- The ledger's record of a mapping is found by owner, range and permissions. -/
def retireUnmapped (s : NativeAddressSpaceState) (this : ι) (ledger : NativePhysicalLedger ι)
    (b : EarlyStage1Builder) (m : Memory) (virtualBase length : UInt64) :
    (NativeAddressSpaceState × NativePhysicalLedger ι) × Result Unit :=
  match s.exactMapping virtualBase length with
  | .error e => ((s, ledger), .error e)
  | .ok mapping =>
    let physical : NativePhysicalMapping ι → Bool := fun e =>
      e.occupied && e.owner == some this && e.physicalBase == mapping.physicalBase &&
        e.length == mapping.length && e.permissions == mapping.permissions
    if ledger.mappings.find? physical = none then
      ((s, ledger), .error (kernelError mappingLedgerInconsistent))
    else
      match requireUnmapped b m mapping.virtualBase mappingLedgerInconsistent
          (List.range (pageCount mapping.length)) with
      | .error e => ((s, ledger), .error e)
      | .ok () =>
        (({ s with
            mappings := updateFirst (fun m =>
              m.occupied && m.virtualBase == virtualBase && m.length == length)
              (fun _ => {}) s.mappings
            occupied := s.occupied - 1 },
          { ledger with
            mappings := updateFirst physical (fun _ => {}) ledger.mappings
            occupied := ledger.occupied - 1 }), .ok ())

def anyMapping (s : NativeAddressSpaceState) : Result NativeMapping :=
  if !s.bound then .error (kernelError addressSpaceUnbound)
  else
    match s.mappings.find? NativeMapping.occupied with
    | none => .error (kernelError notMapped)
    | some m => .ok m

def anyReservation (s : NativeAddressSpaceState) (this : ι) (ledger : NativePhysicalLedger ι) :
    Result (NativePhysicalReservation ι) :=
  if !s.bound then .error (kernelError addressSpaceUnbound)
  else
    match ledger.reservations.find? fun r => r.occupied && r.owner == some this with
    | none => .error (kernelError notMapped)
    | some r => .ok r

def releaseOneReservation (s : NativeAddressSpaceState) (this : ι)
    (ledger : NativePhysicalLedger ι) (physicalBase length : UInt64) :
    NativePhysicalLedger ι × Result Unit :=
  let owned : NativePhysicalReservation ι → Bool := fun r =>
    r.occupied && r.owner == some this && r.physicalBase == physicalBase && r.length == length
  if !s.bound then (ledger, .error (kernelError addressSpaceUnbound))
  else if ledger.reservations.find? owned = none then
    (ledger, .error (kernelError notMapped))
  else
    ({ ledger with
        reservations := updateFirst owned (fun _ => {}) ledger.reservations
        reserved := ledger.reserved - 1 }, .ok ())

def releaseReservations (s : NativeAddressSpaceState) (this : ι)
    (ledger : NativePhysicalLedger ι) : NativePhysicalLedger ι × Result Unit :=
  let owned : NativePhysicalReservation ι → Bool := fun r => r.occupied && r.owner == some this
  if !s.bound then (ledger, .error (kernelError addressSpaceUnbound))
  else
    ({ ledger with
        reservations := ledger.reservations.map fun r => if owned r then {} else r
        reserved := ledger.reserved - ledger.reservations.countP owned }, .ok ())

/-- Refused while the ledger still records anything for this space. -/
def unbind (s : NativeAddressSpaceState) (this : ι) (ledger : NativePhysicalLedger ι) :
    NativeAddressSpaceState × Result Unit :=
  if !s.bound then (s, .error (kernelError addressSpaceUnbound))
  else if s.occupied ≠ 0 then (s, .error (kernelError mappingLedgerInconsistent))
  else if ledger.mappings.any fun m => m.occupied && m.owner == some this then
    (s, .error (kernelError mappingLedgerInconsistent))
  else if ledger.reservations.any fun r => r.occupied && r.owner == some this then
    (s, .error (kernelError mappingLedgerInconsistent))
  else ({ s with bound := false }, .ok ())

end NativeAddressSpaceState

end Enml.OsKernel
