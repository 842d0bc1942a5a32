import Enml.Core.Identity
import Enml.Lib.SlotTable

/-! Data connections and the subsystem they keep alive. A grant is given out while the
device is unlocked, a lease holds the hardware domain up, and a session is one of each. -/
namespace Enml.OsSupervisor

open Enml.Core SlotTable

inductive SubsystemDomain where
  | network | bluetooth | camera | microphone | location | sensors
  | usbData | display | audio | telephony | storage | keyService
  deriving DecidableEq

inductive IdleDisposition where
  | stopAndPowerGate | stopServiceKeepHardwareSafe | quiesceOnly | alwaysResident

structure LeaseCount where
  interactive : UInt16 := 0
  background : UInt16 := 0
  system : UInt16 := 0

def LeaseCount.total (c : LeaseCount) : UInt32 :=
  c.interactive.toUInt32 + c.background.toUInt32 + c.system.toUInt32

structure QuiesceContext where
  securityTransactionPending : Bool := false
  protectedStorageCommitPending : Bool := false
  emergencyOperationActive : Bool := false
  updateInProgress : Bool := false
  wakeSourceRequired : Bool := false

structure QuiescePlan where
  mayQuiesce : Bool := false
  revokeClientCapabilities : Bool := false
  revokeDmaAndIrqs : Bool := false
  zeroEphemeralSecrets : Bool := false
  stopService : Bool := false
  powerGateHardware : Bool := false

def idleDisposition : SubsystemDomain → IdleDisposition
  | .network | .bluetooth | .camera | .microphone | .location | .sensors | .usbData =>
    .stopAndPowerGate
  | .display | .audio => .stopServiceKeepHardwareSafe
  | .telephony => .quiesceOnly
  | .storage | .keyService => .alwaysResident

def planIdleTransition (domain : SubsystemDomain) (leases : LeaseCount)
    (context : QuiesceContext) : QuiescePlan :=
  if leases.total ≠ 0 then {}
  else if context.securityTransactionPending || context.updateInProgress then {}
  else if domain = .storage ∧ context.protectedStorageCommitPending = true then {}
  else if domain = .telephony ∧ context.emergencyOperationActive = true then {}
  else
    let plan : QuiescePlan :=
      { mayQuiesce := true, revokeClientCapabilities := true, zeroEphemeralSecrets := true }
    match idleDisposition domain with
    | .alwaysResident => {}
    | .quiesceOnly => plan
    | .stopServiceKeepHardwareSafe => { plan with stopService := true }
    | .stopAndPowerGate =>
      { plan with
        stopService := true
        revokeDmaAndIrqs := true
        powerGateHardware := !context.wakeSourceRequired }

/-- The generation after this one. Zero is left out. -/
def nextGeneration (generation : UInt64) : UInt64 :=
  if generation + 1 = 0 then 1 else generation + 1

inductive LeaseKind where
  | interactive | background | system
  deriving DecidableEq

structure SubsystemLeaseToken where
  id : UInt64 := 0
  generation : UInt64 := 0
  domain : SubsystemDomain := .network
  deriving DecidableEq

def SubsystemLeaseToken.valid (token : SubsystemLeaseToken) : Bool :=
  token.id != 0 && token.generation != 0

def maxLeases : Nat := 32

structure LeaseSlot where
  inUse : Bool := false
  id : UInt64 := 0
  generation : UInt64 := 0
  principal : PrincipalId := {}
  kind : LeaseKind := .interactive

def LeaseSlot.key (s : LeaseSlot) : Option UInt64 := if s.inUse then some s.id else none

structure SubsystemLeaseAuthority where
  domain : SubsystemDomain
  generation : UInt64 := 1
  nextId : UInt64 := 1
  slots : List LeaseSlot := List.replicate maxLeases {}

namespace SubsystemLeaseAuthority

def acquire (a : SubsystemLeaseAuthority) (principal : PrincipalId) (kind : LeaseKind) :
    SubsystemLeaseAuthority × Option SubsystemLeaseToken :=
  if !validPrincipal principal then (a, none)
  else
    let id := a.nextId
    let slot : LeaseSlot := { inUse := true, id, generation := a.generation, principal, kind }
    match insert LeaseSlot.key slot a.slots with
    | none => (a, none)
    | some slots =>
      -- The number is taken before it is looked at.
      if id = 0 then ({ a with nextId := a.nextId + 1 }, none)
      else
        ({ a with nextId := a.nextId + 1, slots },
          some { id, generation := a.generation, domain := a.domain })

def validForDomain (a : SubsystemLeaseAuthority) (token : SubsystemLeaseToken) : Bool :=
  token.valid && token.domain == a.domain && token.generation == a.generation

def release (a : SubsystemLeaseAuthority) (principal : PrincipalId) (token : SubsystemLeaseToken) :
    SubsystemLeaseAuthority × Bool :=
  if !a.validForDomain token || !validPrincipal principal then (a, false)
  else
    match lookup LeaseSlot.key token.id a.slots with
    | none => (a, false)
    | some slot =>
      if slot.generation ≠ token.generation ∨ slot.principal ≠ principal then (a, false)
      else
        ({ a with slots := modify LeaseSlot.key token.id (fun _ => {}) a.slots }, true)

def active (a : SubsystemLeaseAuthority) (token : SubsystemLeaseToken) : Bool :=
  a.validForDomain token &&
    a.slots.any fun s => s.inUse && s.id == token.id && s.generation == token.generation

/-- How many leases of a kind are of the current generation. -/
def countOf (a : SubsystemLeaseAuthority) (kind : LeaseKind) : UInt16 :=
  UInt16.ofNat (a.slots.countP fun s => s.inUse && s.generation == a.generation && s.kind == kind)

def counts (a : SubsystemLeaseAuthority) : LeaseCount where
  interactive := a.countOf .interactive
  background := a.countOf .background
  system := a.countOf .system

def advanceGenerationAfterQuiesce (a : SubsystemLeaseAuthority) : SubsystemLeaseAuthority :=
  { a with
    slots := a.slots.map fun _ => {}
    generation := nextGeneration a.generation }

end SubsystemLeaseAuthority

inductive ConnectionTransport where
  | usb | thunderboltLike | bluetooth | wifiDirect | nfcAccessory | debugLink
  deriving DecidableEq

inductive ConnectionPurpose where
  | chargeOnly | audio | display | fileTransfer | networkTether | accessoryControl | debug
  deriving DecidableEq

/-- The proof that the user is there. -/
structure UserPresenceProof where
  authenticationGeneration : UInt64 := 0
  lockGeneration : UInt64 := 0
  passwordOrPinVerified : Bool := false
  duressAuthentication : Bool := false

def UserPresenceProof.valid (proof : UserPresenceProof) : Bool :=
  proof.authenticationGeneration != 0 && proof.lockGeneration != 0 &&
    proof.passwordOrPinVerified && !proof.duressAuthentication

/-- A connection let in, and the lock generation it is for. -/
structure ConnectionGrant where
  id : UInt64 := 0
  generation : UInt64 := 0
  lockGeneration : UInt64 := 0
  transport : ConnectionTransport := .usb
  purpose : ConnectionPurpose := .chargeOnly
  dataSignaling : Bool := false
  deriving DecidableEq

def ConnectionGrant.valid (grant : ConnectionGrant) : Bool :=
  grant.id != 0 && grant.generation != 0 && grant.lockGeneration != 0

def connectionSubsystemDomain : ConnectionTransport → Option SubsystemDomain
  | .usb | .thunderboltLike | .debugLink => some .usbData
  | .bluetooth => some .bluetooth
  | .wifiDirect => some .network
  | .nfcAccessory => none

def maxActiveGrants : Nat := 16

structure GrantSlot where
  inUse : Bool := false
  grant : ConnectionGrant := {}

def GrantSlot.key (s : GrantSlot) : Option UInt64 := if s.inUse then some s.grant.id else none

/-- The connections let in. -/
structure ConnectionAdmissionAuthority where
  nextId : UInt64 := 0
  generation : UInt64 := 1
  slots : List GrantSlot := List.replicate maxActiveGrants {}
  activeGrants : UInt64 := 0

namespace ConnectionAdmissionAuthority

def nextNonzeroId (a : ConnectionAdmissionAuthority) : UInt64 :=
  if a.nextId + 1 = 0 then a.nextId + 1 + 1 else a.nextId + 1

/-- The table entry for a grant with data. No number is taken when there is no room. -/
def enter (a : ConnectionAdmissionAuthority) (grant : ConnectionGrant) :
    ConnectionAdmissionAuthority × ConnectionGrant :=
  match insert GrantSlot.key { inUse := true, grant } a.slots with
  | none => (a, {})
  | some slots =>
    if !grant.valid then ({ a with nextId := grant.id }, {})
    else ({ a with nextId := grant.id, slots, activeGrants := a.activeGrants + 1 }, grant)

/-- The source calls this `admit`. -/
def admitPort (a : ConnectionAdmissionAuthority) (transport : ConnectionTransport)
    (purpose : ConnectionPurpose) (proof : UserPresenceProof) (currentLockGeneration : UInt64) :
    ConnectionAdmissionAuthority × ConnectionGrant :=
  let grant : ConnectionGrant :=
    { id := a.nextNonzeroId, generation := a.generation, lockGeneration := currentLockGeneration
      transport, purpose }
  if currentLockGeneration = 0 then (a, {})
  else if purpose = .chargeOnly then ({ a with nextId := grant.id }, grant)
  else if !proof.valid || proof.lockGeneration != currentLockGeneration then (a, {})
  else if (connectionSubsystemDomain transport).isNone then (a, {})
  else a.enter { grant with dataSignaling := true }

def release (a : ConnectionAdmissionAuthority) (grant : ConnectionGrant) :
    ConnectionAdmissionAuthority × Bool :=
  if !grant.valid || !grant.dataSignaling || grant.generation != a.generation then (a, false)
  else
    match lookup GrantSlot.key grant.id a.slots with
    | none => (a, false)
    | some slot =>
      if slot.grant.generation ≠ grant.generation ∨
          slot.grant.lockGeneration ≠ grant.lockGeneration ∨
          slot.grant.transport ≠ grant.transport ∨ slot.grant.purpose ≠ grant.purpose then
        (a, false)
      else
        ({ a with
          slots := modify GrantSlot.key grant.id (fun _ => {}) a.slots
          activeGrants := a.activeGrants - 1 }, true)

def revokeAll (a : ConnectionAdmissionAuthority) : ConnectionAdmissionAuthority :=
  { a with
    slots := a.slots.map fun _ => {}
    generation := nextGeneration a.generation
    activeGrants := 0 }

def active (a : ConnectionAdmissionAuthority) (grant : ConnectionGrant)
    (currentLockGeneration : UInt64) : Bool :=
  if !grant.valid || grant.generation != a.generation ||
      grant.lockGeneration != currentLockGeneration then false
  else if !grant.dataSignaling then grant.purpose == .chargeOnly
  else a.slots.any fun s =>
    s.inUse && s.grant.id == grant.id && s.grant.generation == grant.generation

def requiredDomain (a : ConnectionAdmissionAuthority) (grant : ConnectionGrant)
    (currentLockGeneration : UInt64) : Option SubsystemDomain :=
  if !a.active grant currentLockGeneration || !grant.dataSignaling then none
  else connectionSubsystemDomain grant.transport

end ConnectionAdmissionAuthority

/-- A grant with the lease that goes with it. -/
structure ConnectionSession where
  grant : ConnectionGrant := {}
  lease : SubsystemLeaseToken := {}
  principal : PrincipalId := {}
  deriving DecidableEq

def ConnectionSession.valid (session : ConnectionSession) : Bool :=
  session.grant.valid && session.grant.dataSignaling && session.lease.valid &&
    validPrincipal session.principal

/-- The two authorities a session takes from. -/
structure Authorities where
  admission : ConnectionAdmissionAuthority := {}
  leases : SubsystemLeaseAuthority

def admitConnectionSession (a : Authorities) (principal : PrincipalId)
    (transport : ConnectionTransport) (purpose : ConnectionPurpose) (proof : UserPresenceProof)
    (currentLockGeneration : UInt64) : Authorities × Option ConnectionSession :=
  if !validPrincipal principal || purpose == .chargeOnly then (a, none)
  else if connectionSubsystemDomain transport ≠ some a.leases.domain then (a, none)
  else
    match a.admission.admitPort transport purpose proof currentLockGeneration with
    | (admission, grant) =>
      if !grant.valid || !grant.dataSignaling then ({ a with admission }, none)
      else
        match a.leases.acquire principal .interactive with
        | (leases, none) => ({ admission := (admission.release grant).1, leases }, none)
        | (leases, some lease) => ({ admission, leases }, some { grant, lease, principal })

def closeConnectionSession (a : Authorities) (session : ConnectionSession) : Authorities × Bool :=
  if !session.valid || a.leases.domain != session.lease.domain then (a, false)
  else
    match a.admission.release session.grant with
    | (admission, false) => ({ a with admission }, false)
    | (admission, true) =>
      match a.leases.release session.principal session.lease with
      | (leases, released) => ({ admission, leases }, released)

end Enml.OsSupervisor
