import Enml.Core.Identity
import Enml.Lib.SlotTable

/-! The bounded queues in front of the network drivers. `PacketSwitch` and
`LinkTunnelSwitch` queue packets in the same way; they differ in what they check before
they look at the budget, and in what a completion is compared with. -/
namespace Enml.OsNetwork

open Enml.Core

structure FlowCapability where
  id : UInt64 := 0
  generation : UInt64 := 0
  principal : PrincipalId := {}
  deriving DecidableEq

def FlowCapability.valid (flow : FlowCapability) : Bool :=
  flow.id != 0 && flow.generation != 0 && validPrincipal flow.principal

structure PacketBudget where
  maxPacketBytes : UInt32 := 0
  maxInflightPackets : UInt16 := 0
  maxInflightBytes : UInt32 := 0

def PacketBudget.valid (budget : PacketBudget) : Bool :=
  decide (576 ≤ budget.maxPacketBytes) && decide (budget.maxPacketBytes ≤ 65535) &&
    budget.maxInflightPackets != 0 && decide (budget.maxInflightPackets ≤ 256) &&
    decide (budget.maxPacketBytes ≤ budget.maxInflightBytes) &&
    decide (budget.maxInflightBytes ≤ 4 * 1024 * 1024)

def maxQueuedPackets : Nat := 128

structure Slot (φ π : Type) where
  flow : φ
  packet : π
  deriving DecidableEq

structure Usage where
  packets : UInt16 := 0
  bytes : UInt32 := 0

/-- What one of the switches makes of flows, packets and grants. -/
structure SwitchKind (φ π γ ρ : Type) where
  flowId : φ → UInt64
  flowGeneration : φ → UInt64
  packetId : π → UInt64
  length : π → UInt32
  grantFlow : γ → φ
  budget : γ → PacketBudget
  /-- The checks that come before the budget. -/
  refusal : γ → π → Option ρ
  /-- A completion names the packet that was found. -/
  answers : Slot φ π → φ → π → Bool
  accepted : ρ
  packetBudgetExhausted : ρ
  byteBudgetExhausted : ρ
  capacityExhausted : ρ

/-- A slot that is not occupied holds nothing. -/
structure Switch (φ π : Type) where
  slots : List (Option (Slot φ π)) := List.replicate maxQueuedPackets none

namespace Switch

variable {φ π γ ρ : Type}

def sameFlow (kind : SwitchKind φ π γ ρ) (flow other : φ) : Bool :=
  kind.flowId other == kind.flowId flow && kind.flowGeneration other == kind.flowGeneration flow

/-- One turn of the loop in `usageFor`. -/
def addUsage (kind : SwitchKind φ π γ ρ) (flow : φ) (usage : Usage) : Option (Slot φ π) → Usage
  | none => usage
  | some slot =>
    if !sameFlow kind flow slot.flow then usage
    else { packets := usage.packets + 1, bytes := usage.bytes + kind.length slot.packet }

def usageFor (kind : SwitchKind φ π γ ρ) (q : Switch φ π) (flow : φ) : Usage :=
  q.slots.foldl (addUsage kind flow) {}

/-- The key under which `complete` looks for a packet. -/
def slotKey (kind : SwitchKind φ π γ ρ) (slot : Option (Slot φ π)) : Option UInt64 :=
  slot.map fun s => kind.packetId s.packet

def enqueue (kind : SwitchKind φ π γ ρ) (q : Switch φ π) (grant : γ) (packet : π) :
    Switch φ π × ρ :=
  match kind.refusal grant packet with
  | some reason => (q, reason)
  | none =>
    let usage := usageFor kind q (kind.grantFlow grant)
    if (kind.budget grant).maxInflightPackets ≤ usage.packets then (q, kind.packetBudgetExhausted)
    else if (kind.budget grant).maxInflightBytes - kind.length packet < usage.bytes then
      (q, kind.byteBudgetExhausted)
    else
      match SlotTable.insert (slotKey kind) (some { flow := kind.grantFlow grant, packet })
          q.slots with
      | none => (q, kind.capacityExhausted)
      | some slots => ({ slots }, kind.accepted)

def complete (kind : SwitchKind φ π γ ρ) (q : Switch φ π) (flow : φ) (packet : π) :
    Switch φ π × Bool :=
  match SlotTable.lookup (slotKey kind) (kind.packetId packet) q.slots with
  | some (some slot) =>
    if !kind.answers slot flow packet then (q, false)
    else ({ slots := SlotTable.modify (slotKey kind) (kind.packetId packet) (fun _ => none)
              q.slots }, true)
  | _ => (q, false)

def revokeGeneration (kind : SwitchKind φ π γ ρ) (q : Switch φ π) (generation : UInt64) :
    Switch φ π where
  slots := q.slots.map fun slot =>
    if slot.any fun s => kind.flowGeneration s.flow == generation then none else slot

end Switch

structure PacketGrant where
  flow : FlowCapability := {}
  budget : PacketBudget := {}
  mayTransmit : Bool := false
  mayReceive : Bool := false
  mayObservePeerAddress : Bool := false
  mayObserveAppIdentity : Bool := false

def PacketGrant.valid (grant : PacketGrant) : Bool :=
  grant.flow.valid && grant.budget.valid && (grant.mayTransmit || grant.mayReceive)

structure PacketBufferCapability where
  id : UInt64 := 0
  generation : UInt64 := 0
  flowId : UInt64 := 0
  length : UInt32 := 0
  deriving DecidableEq

def PacketBufferCapability.valid (buffer : PacketBufferCapability) : Bool :=
  buffer.id != 0 && buffer.generation != 0 && buffer.flowId != 0 && buffer.length != 0

inductive PacketAdmission where
  | accepted | invalidGrant | invalidBuffer | wrongFlow | staleGeneration | packetTooLarge
  | packetBudgetExhausted | byteBudgetExhausted | switchCapacityExhausted
  deriving DecidableEq

def packetRefusal (grant : PacketGrant) (buffer : PacketBufferCapability) :
    Option PacketAdmission :=
  if !grant.valid then some .invalidGrant
  else if !buffer.valid then some .invalidBuffer
  else if buffer.flowId ≠ grant.flow.id then some .wrongFlow
  else if buffer.generation ≠ grant.flow.generation then some .staleGeneration
  else if grant.budget.maxPacketBytes < buffer.length then some .packetTooLarge
  else none

def packetSwitch :
    SwitchKind FlowCapability PacketBufferCapability PacketGrant PacketAdmission where
  flowId flow := flow.id
  flowGeneration flow := flow.generation
  packetId buffer := buffer.id
  length buffer := buffer.length
  grantFlow grant := grant.flow
  budget grant := grant.budget
  refusal := packetRefusal
  answers slot flow buffer := slot.flow.id == flow.id && slot.flow.generation == flow.generation &&
    slot.packet.generation == buffer.generation
  accepted := .accepted
  packetBudgetExhausted := .packetBudgetExhausted
  byteBudgetExhausted := .byteBudgetExhausted
  capacityExhausted := .switchCapacityExhausted

structure TunnelCapability where
  id : UInt64 := 0
  generation : UInt64 := 0

def TunnelCapability.valid (tunnel : TunnelCapability) : Bool :=
  tunnel.id != 0 && tunnel.generation != 0

structure LinkTunnelGrant where
  tunnel : TunnelCapability := {}
  budget : PacketBudget := {}

def LinkTunnelGrant.valid (grant : LinkTunnelGrant) : Bool :=
  grant.tunnel.valid && grant.budget.valid

structure TunnelPacketCapability where
  id : UInt64 := 0
  tunnelId : UInt64 := 0
  generation : UInt64 := 0
  length : UInt32 := 0
  encryptedTunnelPayload : Bool := false
  deriving DecidableEq

inductive LinkTunnelAdmission where
  | accepted | invalidGrant | invalidPacket | wrongTunnel | staleGeneration | plaintextRejected
  | packetTooLarge | packetBudgetExhausted | byteBudgetExhausted | capacityExhausted
  deriving DecidableEq

def tunnelRefusal (grant : LinkTunnelGrant) (packet : TunnelPacketCapability) :
    Option LinkTunnelAdmission :=
  if !grant.valid then some .invalidGrant
  else if packet.id = 0 ∨ packet.tunnelId = 0 ∨ packet.generation = 0 ∨ packet.length = 0 then
    some .invalidPacket
  else if !packet.encryptedTunnelPayload then some .plaintextRejected
  else if packet.tunnelId ≠ grant.tunnel.id then some .wrongTunnel
  else if packet.generation ≠ grant.tunnel.generation then some .staleGeneration
  else if grant.budget.maxPacketBytes < packet.length then some .packetTooLarge
  else none

def linkTunnelSwitch :
    SwitchKind TunnelCapability TunnelPacketCapability LinkTunnelGrant LinkTunnelAdmission where
  flowId tunnel := tunnel.id
  flowGeneration tunnel := tunnel.generation
  packetId packet := packet.id
  length packet := packet.length
  grantFlow grant := grant.tunnel
  budget grant := grant.budget
  refusal := tunnelRefusal
  answers slot tunnel _ := slot.flow.id == tunnel.id &&
    slot.flow.generation == tunnel.generation && slot.packet.tunnelId == tunnel.id &&
    slot.packet.generation == tunnel.generation
  accepted := .accepted
  packetBudgetExhausted := .packetBudgetExhausted
  byteBudgetExhausted := .byteBudgetExhausted
  capacityExhausted := .capacityExhausted

end Enml.OsNetwork
