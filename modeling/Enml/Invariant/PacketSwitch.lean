import Enml.OsNetwork.PacketSwitch

/-! What the calls on a switch do to the packets that are queued. -/
namespace Enml.OsNetwork

open List SlotTable

/-- What the two switches have in common beyond their shape. -/
structure SwitchKind.Lawful {φ π γ ρ : Type} (kind : SwitchKind φ π γ ρ) : Prop where
  refusal : ∀ grant packet, kind.refusal grant packet ≠ some kind.accepted
  packets : kind.packetBudgetExhausted ≠ kind.accepted
  bytes : kind.byteBudgetExhausted ≠ kind.accepted
  capacity : kind.capacityExhausted ≠ kind.accepted
  bounded : ∀ grant packet, kind.refusal grant packet = none →
    (kind.budget grant).valid = true ∧ kind.length packet ≤ (kind.budget grant).maxPacketBytes
  own : ∀ grant packet, kind.refusal grant packet = none →
    kind.answers { flow := kind.grantFlow grant, packet } (kind.grantFlow grant) packet = true

theorem lawful_packetSwitch : packetSwitch.Lawful := by
  have hChecks : ∀ grant buffer, packetRefusal grant buffer = none → grant.valid = true ∧
      buffer.generation = grant.flow.generation ∧
      buffer.length ≤ grant.budget.maxPacketBytes := by
    intro grant buffer hNone
    unfold packetRefusal at hNone
    split_ifs at hNone with hGrant hBuf hFlow hGen hLen
    exact ⟨by simpa using hGrant, not_not.mp hGen, UInt32.not_lt.mp hLen⟩
  refine ⟨?_, nofun, nofun, nofun, ?_, ?_⟩
  · intro grant buffer
    show packetRefusal grant buffer ≠ some .accepted
    unfold packetRefusal
    split_ifs <;> simp
  · intro grant buffer hNone
    obtain ⟨hGrant, -, hLen⟩ := hChecks grant buffer hNone
    simp only [PacketGrant.valid, Bool.and_eq_true] at hGrant
    exact ⟨hGrant.1.2, hLen⟩
  · intro grant buffer _
    simp [packetSwitch]

theorem lawful_linkTunnelSwitch : linkTunnelSwitch.Lawful := by
  have hChecks : ∀ grant packet, tunnelRefusal grant packet = none → grant.valid = true ∧
      packet.tunnelId = grant.tunnel.id ∧ packet.generation = grant.tunnel.generation ∧
      packet.length ≤ grant.budget.maxPacketBytes := by
    intro grant packet hNone
    unfold tunnelRefusal at hNone
    split_ifs at hNone with hGrant hPacket hPlain hTunnel hGen hLen
    exact ⟨by simpa using hGrant, not_not.mp hTunnel, not_not.mp hGen, UInt32.not_lt.mp hLen⟩
  refine ⟨?_, nofun, nofun, nofun, ?_, ?_⟩
  · intro grant packet
    show tunnelRefusal grant packet ≠ some .accepted
    unfold tunnelRefusal
    split_ifs <;> simp
  · intro grant packet hNone
    obtain ⟨hGrant, -, -, hLen⟩ := hChecks grant packet hNone
    simp only [LinkTunnelGrant.valid, Bool.and_eq_true] at hGrant
    exact ⟨hGrant.2, hLen⟩
  · intro grant packet hNone
    obtain ⟨-, hTunnel, hGen, -⟩ := hChecks grant packet hNone
    simp [linkTunnelSwitch, hTunnel, hGen]

namespace Switch

variable {φ π γ ρ : Type} {kind : SwitchKind φ π γ ρ} {q : Switch φ π}

/-- The packets in the queue, in the order of the slots. -/
def queued (q : Switch φ π) : List (Slot φ π) := q.slots.filterMap id

/-- The packets that a flow has in the queue. -/
def queuedFor (kind : SwitchKind φ π γ ρ) (q : Switch φ π) (flow : φ) : List (Slot φ π) :=
  q.queued.filter fun s => sameFlow kind flow s.flow

def bytesOf (kind : SwitchKind φ π γ ρ) (packets : List (Slot φ π)) : Nat :=
  (packets.map fun s => (kind.length s.packet).toNat).sum

theorem mem_queued {s : Slot φ π} : s ∈ q.queued ↔ some s ∈ q.slots := by simp [queued]

/-- The invariant of a queue. -/
structure Sound (kind : SwitchKind φ π γ ρ) (q : Switch φ π) : Prop where
  length : q.slots.length = maxQueuedPackets
  small : ∀ s ∈ q.queued, (kind.length s.packet).toNat ≤ 65535
  own : ∀ s ∈ q.queued, kind.answers s s.flow s.packet = true

theorem sound_start : Sound kind {} := by
  have hNone : ({} : Switch φ π).queued = [] := by simp [queued]
  refine ⟨length_replicate, ?_, ?_⟩
  all_goals
    rw [hNone]
    exact nofun

theorem Sound.length_queued_le (h : Sound kind q) : q.queued.length ≤ maxQueuedPackets := by
  rw [← h.length]
  exact length_filterMap_le ..

theorem bytesOf_le {packets : List (Slot φ π)}
    (h : ∀ s ∈ packets, (kind.length s.packet).toNat ≤ 65535) :
    bytesOf kind packets ≤ packets.length * 65535 := by
  induction packets with
  | nil => exact Nat.zero_le _
  | cons s _ ih =>
    have hHead := h s mem_cons_self
    have hRest := ih fun t ht => h t (mem_cons_of_mem _ ht)
    simp only [bytesOf, map_cons, sum_cons, length_cons] at hRest ⊢
    omega

/-- The loop counts in machine words. -/
theorem foldl_addUsage (flow : φ) (slots : List (Option (Slot φ π))) (usage : Usage) :
    slots.foldl (addUsage kind flow) usage =
      let mine := (slots.filterMap id).filter fun s => sameFlow kind flow s.flow
      { packets := usage.packets + UInt16.ofNat mine.length
        bytes := usage.bytes + UInt32.ofNat (bytesOf kind mine) } := by
  induction slots generalizing usage with
  | nil => simp [bytesOf]
  | cons slot _ ih =>
    rw [foldl_cons, ih]
    cases slot with
    | none => simp [addUsage]
    | some s =>
      by_cases hFlow : sameFlow kind flow s.flow = true
      · simp [addUsage, hFlow, bytesOf, UInt16.ofNat_add, UInt32.ofNat_add,
          UInt16.add_assoc, UInt32.add_assoc, UInt16.add_comm]
      · simp [addUsage, hFlow]

/-- No word comes round while the counts of a flow are added up. -/
theorem Sound.usageFor (h : Sound kind q) (flow : φ) :
    (usageFor kind q flow).packets.toNat = (queuedFor kind q flow).length ∧
      (usageFor kind q flow).bytes.toNat = bytesOf kind (queuedFor kind q flow) := by
  have hCnt : (queuedFor kind q flow).length ≤ 128 :=
    (length_filter_le _ _).trans h.length_queued_le
  have hBytes : bytesOf kind (queuedFor kind q flow) ≤ (queuedFor kind q flow).length * 65535 :=
    bytesOf_le fun s hs => h.small s (mem_filter.mp hs).1
  have hFold := @foldl_addUsage _ _ _ _ kind flow q.slots {}
  rw [Switch.usageFor, hFold]
  simp only [UInt16.zero_add, UInt32.zero_add]
  refine ⟨UInt16.toNat_ofNat_of_lt' ?_, UInt32.toNat_ofNat_of_lt' ?_⟩
  · show (queuedFor kind q flow).length < 2 ^ 16
    omega
  · show bytesOf kind (queuedFor kind q flow) < 2 ^ 32
    omega

/-- All the checks of `enqueue`. -/
structure Admits (kind : SwitchKind φ π γ ρ) (q : Switch φ π) (grant : γ) (packet : π) : Prop where
  checked : kind.refusal grant packet = none
  packets : (usageFor kind q (kind.grantFlow grant)).packets <
    (kind.budget grant).maxInflightPackets
  bytes : (usageFor kind q (kind.grantFlow grant)).bytes ≤
    (kind.budget grant).maxInflightBytes - kind.length packet
  room : none ∈ q.slots

theorem slotKey_eq_none {slot : Option (Slot φ π)} : slotKey kind slot = none ↔ slot = none := by
  simp [slotKey]

/-- A packet is queued when it passes the checks, and otherwise nothing changes. -/
theorem enqueue_cases (hLawful : kind.Lawful) (q : Switch φ π) (grant : γ) (packet : π) :
    (¬Admits kind q grant packet ∧ (enqueue kind q grant packet).1 = q ∧
      (enqueue kind q grant packet).2 ≠ kind.accepted) ∨
      (Admits kind q grant packet ∧ (enqueue kind q grant packet).2 = kind.accepted ∧
        (enqueue kind q grant packet).1.slots.length = q.slots.length ∧
        (enqueue kind q grant packet).1.queued.Perm
          ({ flow := kind.grantFlow grant, packet } :: q.queued)) := by
  unfold enqueue
  split
  · rename_i reason hRefused
    refine .inl ⟨fun hAdmits => ?_, rfl, fun hSame => ?_⟩
    · rw [hAdmits.checked] at hRefused
      cases hRefused
    · have hReason : reason = kind.accepted := hSame
      rw [hReason] at hRefused
      exact hLawful.refusal grant packet hRefused
  · rename_i hChecked
    simp only
    split_ifs with hPackets hBytes
    · exact .inl ⟨fun hAdmits => UInt16.not_lt.mpr hPackets hAdmits.packets, rfl, hLawful.packets⟩
    · exact .inl ⟨fun hAdmits => UInt32.not_lt.mpr hAdmits.bytes hBytes, rfl, hLawful.bytes⟩
    split
    · rename_i hFull
      refine .inl ⟨fun hAdmits => ?_, rfl, hLawful.capacity⟩
      exact insert_eq_none_iff.mp hFull none hAdmits.room rfl
    rename_i hStored
    obtain ⟨front, free, back, hSlots, -, hFree, rfl⟩ := insert_eq_some hStored
    obtain rfl := slotKey_eq_none.mp hFree
    refine .inr ⟨⟨hChecked, UInt16.not_le.mp hPackets, UInt32.not_lt.mp hBytes, ?_⟩, rfl, ?_, ?_⟩
    · rw [hSlots]
      simp
    · exact length_insert hStored
    · simp only [queued, hSlots, filterMap_append, filterMap_cons, id]
      exact perm_middle

/-- The packet that a completion finds. -/
def found (kind : SwitchKind φ π γ ρ) (q : Switch φ π) (packet : π) : Option (Slot φ π) :=
  (lookup (slotKey kind) (kind.packetId packet) q.slots).join

/-- A completion takes the packet it finds, or changes nothing. -/
theorem complete_cases (kind : SwitchKind φ π γ ρ) (q : Switch φ π) (flow : φ) (packet : π) :
    complete kind q flow packet = (q, false) ∨
      ∃ s, found kind q packet = some s ∧ kind.packetId s.packet = kind.packetId packet ∧
        kind.answers s flow packet = true ∧ (complete kind q flow packet).2 = true ∧
        (complete kind q flow packet).1.slots.length = q.slots.length ∧
        q.queued.Perm (s :: (complete kind q flow packet).1.queued) := by
  unfold complete
  split
  · rename_i s hFound
    split_ifs with hAns
    · exact .inl rfl
    obtain ⟨-, hKey⟩ := mem_of_lookup hFound
    obtain ⟨front, back, hSlots, -, -, hTaken⟩ := updateFirst_of_find hFound (fun _ => none)
    refine .inr ⟨s, ?_, ?_, by simpa using hAns, rfl, length_modify .., ?_⟩
    · rw [found, hFound]
      rfl
    · exact Option.some.inj hKey
    have hRest : modify (slotKey kind) (kind.packetId packet) (fun _ => none) q.slots =
        front ++ none :: back := hTaken
    simp only [queued, hRest]
    rw [hSlots]
    simp only [filterMap_append, filterMap_cons, id]
    exact perm_middle
  · exact .inl rfl

theorem queued_revokeGeneration (kind : SwitchKind φ π γ ρ) (q : Switch φ π) (generation : UInt64) :
    (revokeGeneration kind q generation).queued =
      q.queued.filter fun s => kind.flowGeneration s.flow != generation := by
  obtain ⟨slots⟩ := q
  unfold revokeGeneration queued
  induction slots with
  | nil => rfl
  | cons slot _ ih =>
    cases slot with
    | none => simpa using ih
    | some s =>
      by_cases hGen : kind.flowGeneration s.flow = generation
      all_goals simpa [hGen] using ih

theorem Sound.enqueue (hLawful : kind.Lawful) (h : Sound kind q) (grant : γ) (packet : π) :
    Sound kind (enqueue kind q grant packet).1 := by
  rcases enqueue_cases hLawful q grant packet with
    ⟨-, hSame, -⟩ | ⟨hAdmits, -, hLen, hPerm⟩
  · rw [hSame]
    exact h
  obtain ⟨hValid, hFits⟩ := hLawful.bounded grant packet hAdmits.checked
  refine ⟨hLen.trans h.length, ?_, ?_⟩
  · intro s hs
    rcases mem_cons.mp (hPerm.mem_iff.mp hs) with rfl | hOld
    · simp only [PacketBudget.valid, Bool.and_eq_true, decide_eq_true_eq] at hValid
      have hMost := UInt32.le_iff_toNat_le.mp hValid.1.1.1.1.2
      have hLong := UInt32.le_iff_toNat_le.mp hFits
      exact hLong.trans hMost
    · exact h.small s hOld
  · intro s hs
    rcases mem_cons.mp (hPerm.mem_iff.mp hs) with rfl | hOld
    · exact hLawful.own grant packet hAdmits.checked
    · exact h.own s hOld

theorem Sound.complete (h : Sound kind q) (flow : φ) (packet : π) :
    Sound kind (complete kind q flow packet).1 := by
  rcases complete_cases kind q flow packet with hSame | ⟨s, -, -, -, -, hLen, hPerm⟩
  · rw [hSame]
    exact h
  refine ⟨hLen.trans h.length, ?_, ?_⟩
  · intro t ht
    exact h.small t (hPerm.mem_iff.mpr (mem_cons_of_mem _ ht))
  · intro t ht
    exact h.own t (hPerm.mem_iff.mpr (mem_cons_of_mem _ ht))

theorem Sound.revokeGeneration (h : Sound kind q) (generation : UInt64) :
    Sound kind (revokeGeneration kind q generation) := by
  have hQueued := queued_revokeGeneration kind q generation
  refine ⟨(length_map _).trans h.length, ?_, ?_⟩
  · intro s hs
    rw [hQueued] at hs
    exact h.small s (mem_filter.mp hs).1
  · intro s hs
    rw [hQueued] at hs
    exact h.own s (mem_filter.mp hs).1

end Switch

end Enml.OsNetwork
