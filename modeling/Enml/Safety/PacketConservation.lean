import Enml.Invariant.PacketSwitch
import Enml.Lib.Run

/-! Packets over whole runs of a switch. A packet is looked for under its number among
the packets of all flows, so that everything about completions depends on the numbers
in the queue being different. Nothing in `enqueue` sees to that. -/
namespace Enml.OsNetwork

open Switch List Run SlotTable

inductive SwitchOp (φ π γ : Type) where
  | enqueue (grant : γ) (packet : π)
  | complete (flow : φ) (packet : π)
  | revokeGeneration (generation : UInt64)

inductive SwitchReply (ρ : Type) where
  | admission (reply : ρ)
  | completed (done : Bool)
  | revoked

/-- The queue with all the packets that went into it and that came out of it. -/
structure PacketLog (φ π : Type) where
  queue : Switch φ π := {}
  accepted : List (Slot φ π) := []
  completed : List (Slot φ π) := []
  revoked : List (Slot φ π) := []

section Runs

variable {φ π γ ρ : Type} [DecidableEq ρ] (kind : SwitchKind φ π γ ρ)
  {packets others : List (Slot φ π)}

namespace PacketLog

def step (log : PacketLog φ π) : SwitchOp φ π γ → PacketLog φ π × SwitchReply ρ
  | .enqueue grant packet =>
    let answer := enqueue kind log.queue grant packet
    ({ log with
      queue := answer.1
      accepted := if answer.2 = kind.accepted then
        { flow := kind.grantFlow grant, packet } :: log.accepted else log.accepted },
      .admission answer.2)
  | .complete flow packet =>
    let answer := complete kind log.queue flow packet
    ({ log with
      queue := answer.1
      completed := if answer.2 then
        (found kind log.queue packet).toList ++ log.completed else log.completed },
      .completed answer.2)
  | .revokeGeneration generation =>
    ({ log with
      queue := revokeGeneration kind log.queue generation
      revoked := (log.queue.queued.filter fun s => kind.flowGeneration s.flow == generation) ++
        log.revoked },
      .revoked)

/-- The call was turned down. -/
def Refused : SwitchReply ρ → Prop
  | .admission reply => reply ≠ kind.accepted
  | .completed done => done = false
  | .revoked => False

end PacketLog

/-- A run of a switch, from an empty queue on. -/
structure SwitchRun (φ π γ : Type) where
  ops : List (SwitchOp φ π γ)

namespace SwitchRun

/-- The queue and its records after the first `n` calls. -/
def reached (r : SwitchRun φ π γ) (n : Nat) : PacketLog φ π :=
  Run.after (PacketLog.step kind) {} (r.ops.take n)

/-- The call at place `k` queued a packet under the grant. -/
def AcceptedAt (r : SwitchRun φ π γ) (k : Nat) (grant : γ) : Prop :=
  ∃ packet, r.ops[k]? = some (.enqueue grant packet) ∧
    (enqueue kind (r.reached kind k).queue grant packet).2 = kind.accepted

/-- A flow has no more in the queue than the grant of its last accepted packet allows. -/
def WithinBudgets (r : SwitchRun φ π γ) : Prop :=
  ∀ n k grant, k < n → r.AcceptedAt kind k grant →
    (∀ j other, k < j → j < n → r.AcceptedAt kind j other →
      sameFlow kind (kind.grantFlow grant) (kind.grantFlow other) = false) →
    let mine := queuedFor kind (r.reached kind n).queue (kind.grantFlow grant)
    mine.length ≤ (kind.budget grant).maxInflightPackets.toNat ∧
      bytesOf kind mine ≤ (kind.budget grant).maxInflightBytes.toNat

/-- The words that `enqueue` compares are the numbers they stand for. -/
def ExactBudgetTest (log : PacketLog φ π) : Prop :=
  ∀ grant packet, kind.refusal grant packet = none →
    let usage := usageFor kind log.queue (kind.grantFlow grant)
    let mine := queuedFor kind log.queue (kind.grantFlow grant)
    usage.packets.toNat = mine.length ∧ usage.bytes.toNat = bytesOf kind mine ∧
      ((kind.budget grant).maxInflightBytes - kind.length packet).toNat +
        (kind.length packet).toNat = (kind.budget grant).maxInflightBytes.toNat

/-- Every packet in the queue can be completed by its flow, and then it is this packet
that leaves. -/
def Completable (log : PacketLog φ π) : Prop :=
  ∀ s ∈ log.queue.queued, (complete kind log.queue s.flow s.packet).2 = true ∧
    log.queue.queued.Perm (s :: (complete kind log.queue s.flow s.packet).1.queued)

/-- What is expected of the queue. -/
structure Conserves (r : SwitchRun φ π γ) : Prop where
  once : Run.Always (PacketLog.step kind)
    (fun log => (log.queue.queued.map fun s => s.packet).Nodup) {} r.ops
  completable : Run.Always (PacketLog.step kind) (Completable kind) {} r.ops
  accounted : Run.Always (PacketLog.step kind) (fun log =>
    log.accepted.Perm (log.completed ++ log.revoked ++ log.queue.queued)) {} r.ops
  budgets : r.WithinBudgets kind
  exact : Run.Always (PacketLog.step kind) (ExactBudgetTest kind) {} r.ops
  refused : Run.EachStep (PacketLog.step kind) (fun log op =>
    PacketLog.Refused kind (log.step kind op).2 → (log.step kind op).1 = log) {} r.ops

/-- No packet passes the checks of `enqueue` under the number of a packet that is
queued. -/
def FreshIds (r : SwitchRun φ π γ) : Prop :=
  Run.EachStep (PacketLog.step kind) (fun log op => ∀ grant packet,
    op = .enqueue grant packet → Switch.Admits kind log.queue grant packet →
      kind.packetId packet ∉ log.queue.queued.map fun s => kind.packetId s.packet) {} r.ops

end SwitchRun

variable {kind} {log : PacketLog φ π}

omit [DecidableEq ρ] in
theorem keys_eq (q : Switch φ π) : keys (slotKey kind) q.slots =
    q.queued.map fun s => kind.packetId s.packet := by
  rw [queued, map_filterMap]
  rfl

omit [DecidableEq ρ] in
theorem complete_of_lookup {q : Switch φ π} {s : Slot φ π} {flow : φ} {packet : π}
    (hFound : lookup (slotKey kind) (kind.packetId packet) q.slots = some (some s))
    (hAns : kind.answers s flow packet = true) :
    (complete kind q flow packet).2 = true := by
  unfold complete
  rw [hFound]
  simp [hAns]

/-- Two elements that complete one list to the same list are one. -/
theorem eq_of_cons_perm {α : Type} {x y : α} {rest : List α} (h : (x :: rest).Perm (y :: rest)) :
    x = y := by
  classical
  by_contra hDiffers
  have hCnt := h.count_eq x
  rw [count_cons_self, count_cons_of_ne (Ne.symm hDiffers)] at hCnt
  omega

omit [DecidableEq ρ] in
/-- Packets are told apart, and completed by their flows, exactly when their numbers are
different. -/
theorem completable_iff (h : Switch.Sound kind log.queue) :
    ((log.queue.queued.map fun s => s.packet).Nodup ∧ SwitchRun.Completable kind log) ↔
      (log.queue.queued.map fun s => kind.packetId s.packet).Nodup := by
  constructor
  · rintro ⟨hOnce, hCompletable⟩
    have hTaken : ∀ s ∈ log.queue.queued, found kind log.queue s.packet = some s := by
      intro s hs
      obtain ⟨hDone, hPerm⟩ := hCompletable s hs
      rcases complete_cases kind log.queue s.flow s.packet with
        hRefused | ⟨t, hFound, -, -, -, -, hOther⟩
      · rw [hRefused] at hDone
        cases hDone
      · rw [hFound, eq_of_cons_perm (hOther.symm.trans hPerm)]
    refine (nodup_map_iff_inj_on (List.Nodup.of_map _ hOnce)).mpr ?_
    intro s hs t ht hId
    have hSame : found kind log.queue s.packet = found kind log.queue t.packet := by
      rw [found, found, hId]
    rw [hTaken s hs, hTaken t ht] at hSame
    exact Option.some.inj hSame
  · intro hIds
    have hPackets : ((log.queue.queued.map fun s => s.packet).map kind.packetId).Nodup := by
      rw [map_map]
      exact hIds
    refine ⟨List.Nodup.of_map _ hPackets, ?_⟩
    intro s hs
    have hFound : lookup (slotKey kind) (kind.packetId s.packet) log.queue.slots =
        some (some s) := by
      rw [lookup_eq_some_iff (by rw [keys_eq]; exact hIds)]
      exact ⟨mem_queued.mp hs, rfl⟩
    have hDone := complete_of_lookup hFound (h.own s hs)
    refine ⟨hDone, ?_⟩
    rcases complete_cases kind log.queue s.flow s.packet with
      hRefused | ⟨t, hTaken, -, -, -, -, hPerm⟩
    · rw [hRefused] at hDone
      cases hDone
    · rw [found, hFound] at hTaken
      rw [← Option.some.inj hTaken] at hPerm
      exact hPerm

/-- What every call keeps. -/
structure PacketLog.Kept (kind : SwitchKind φ π γ ρ) (log : PacketLog φ π) : Prop where
  sound : Switch.Sound kind log.queue
  accounted : log.accepted.Perm (log.completed ++ log.revoked ++ log.queue.queued)

omit [DecidableEq ρ] in
theorem kept_start : PacketLog.Kept kind ({} : PacketLog φ π) := by
  have hNone : ({} : Switch φ π).queued = [] := by simp [queued]
  refine ⟨sound_start, ?_⟩
  rw [hNone]
  exact List.Perm.refl _

theorem PacketLog.Kept.step (hLawful : kind.Lawful) (h : PacketLog.Kept kind log)
    (op : SwitchOp φ π γ) : PacketLog.Kept kind (log.step kind op).1 := by
  cases op with
  | enqueue grant packet =>
    refine ⟨h.sound.enqueue hLawful grant packet, ?_⟩
    rcases enqueue_cases hLawful log.queue grant packet with
      ⟨-, hSame, hReply⟩ | ⟨-, hReply, -, hPerm⟩
    · simp only [PacketLog.step, if_neg hReply, hSame]
      exact h.accounted
    simp only [PacketLog.step, if_pos hReply]
    have hNew := (h.accounted.cons { flow := kind.grantFlow grant, packet }).trans
      perm_middle.symm
    exact hNew.trans (hPerm.symm.append_left _)
  | complete flow packet =>
    refine ⟨h.sound.complete flow packet, ?_⟩
    rcases complete_cases kind log.queue flow packet with
      hSame | ⟨s, hFound, -, -, hDone, -, hPerm⟩
    · simp only [PacketLog.step, hSame, Bool.false_eq_true, if_false]
      exact h.accounted
    · simp only [PacketLog.step, hDone, if_true, hFound, Option.toList_some]
      refine (h.accounted.trans (hPerm.append_left _)).trans ?_
      exact perm_middle
  | revokeGeneration generation =>
    refine ⟨h.sound.revokeGeneration generation, ?_⟩
    simp only [PacketLog.step, queued_revokeGeneration]
    refine h.accounted.trans ?_
    have hSplit := filter_append_perm
      (fun s => kind.flowGeneration s.flow == generation) log.queue.queued
    have hMoved := (hSplit.symm.append_left (log.completed ++ log.revoked))
    refine hMoved.trans ?_
    rw [append_assoc, append_assoc, append_assoc]
    refine List.Perm.append_left _ ?_
    rw [← append_assoc, ← append_assoc]
    exact perm_append_comm.append_right _

theorem refused_step (hLawful : kind.Lawful) (op : SwitchOp φ π γ)
    (h : PacketLog.Refused kind (log.step kind op).2) : (log.step kind op).1 = log := by
  cases op with
  | enqueue grant packet =>
    rcases enqueue_cases hLawful log.queue grant packet with
      ⟨-, hSame, hReply⟩ | ⟨-, hReply, -, -⟩
    · simp only [PacketLog.step, if_neg hReply, hSame]
    · exact absurd hReply h
  | complete flow packet =>
    rcases complete_cases kind log.queue flow packet with
      hSame | ⟨s, -, -, -, hDone, -, -⟩
    · simp only [PacketLog.step, hSame, Bool.false_eq_true, if_false]
    · have hNot : (complete kind log.queue flow packet).2 = false := h
      rw [hDone] at hNot
      cases hNot
  | revokeGeneration => exact h.elim

/-- A step keeps the ids in the queue apart. -/
theorem ids_step (hLawful : kind.Lawful) (op : SwitchOp φ π γ)
    (h : (log.queue.queued.map fun s => kind.packetId s.packet).Nodup) :
    ((log.step kind op).1.queue.queued.map fun s => kind.packetId s.packet).Nodup ↔
      ∀ grant packet, op = .enqueue grant packet → Switch.Admits kind log.queue grant packet →
        kind.packetId packet ∉ log.queue.queued.map fun s => kind.packetId s.packet := by
  cases op with
  | enqueue grant packet =>
    rcases enqueue_cases hLawful log.queue grant packet with
      ⟨hNot, hSame, -⟩ | ⟨hAdmits, -, -, hPerm⟩
    · simp only [PacketLog.step, hSame]
      refine ⟨?_, fun _ => h⟩
      rintro _ grant' packet' ⟨⟩ hAdmits
      exact absurd hAdmits hNot
    have hIds := (hPerm.map fun s => kind.packetId s.packet).nodup_iff
    rw [map_cons, nodup_cons] at hIds
    refine hIds.trans ⟨?_, fun hFresh => ⟨hFresh grant packet rfl hAdmits, h⟩⟩
    rintro ⟨hFresh, -⟩ grant' packet' ⟨⟩ -
    exact hFresh
  | complete flow packet =>
    refine ⟨fun _ _ _ => nofun, fun _ => ?_⟩
    rcases complete_cases kind log.queue flow packet with
      hSame | ⟨s, -, -, -, -, -, hPerm⟩
    · simp only [PacketLog.step, hSame]
      exact h
    · have hIds := (hPerm.map fun s => kind.packetId s.packet).nodup_iff.mp h
      exact hIds.of_cons
  | revokeGeneration =>
    refine ⟨fun _ _ _ => nofun, fun _ => ?_⟩
    simp only [PacketLog.step, queued_revokeGeneration]
    exact h.sublist (filter_sublist.map _)

omit [DecidableEq ρ] in
theorem bytesOf_perm (h : packets.Perm others) : bytesOf kind packets = bytesOf kind others :=
  (h.map _).sum_nat

omit [DecidableEq ρ] in
theorem bytesOf_sublist (h : packets.Sublist others) :
    bytesOf kind packets ≤ bytesOf kind others := by
  induction h with
  | slnil => exact Nat.le_refl _
  | cons s _ ih =>
    refine ih.trans ?_
    simp [bytesOf]
  | cons_cons s _ ih =>
    simp only [bytesOf, map_cons, sum_cons] at ih ⊢
    omega

omit [DecidableEq ρ] in
/-- A flow whose packets only leave has no more of them. -/
theorem queuedFor_le {q q' : Switch φ π} (gone : List (Slot φ π)) (flow : φ)
    (h : q.queued.Perm (gone ++ q'.queued)) :
    (queuedFor kind q' flow).length ≤ (queuedFor kind q flow).length ∧
      bytesOf kind (queuedFor kind q' flow) ≤
        bytesOf kind (queuedFor kind q flow) := by
  have hPerm := h.filter fun s => sameFlow kind flow s.flow
  rw [filter_append] at hPerm
  have hSublist := sublist_append_right (gone.filter fun s => sameFlow kind flow s.flow)
    (q'.queued.filter fun s => sameFlow kind flow s.flow)
  refine ⟨hSublist.length_le.trans_eq hPerm.length_eq.symm, ?_⟩
  exact (bytesOf_sublist hSublist).trans_eq (bytesOf_perm hPerm).symm

/-- A call that queues nothing for a flow leaves it with no more than it had. -/
theorem queuedFor_step (hLawful : kind.Lawful) (flow : φ) (op : SwitchOp φ π γ)
    (hOther : ∀ grant packet, op = .enqueue grant packet →
      (enqueue kind log.queue grant packet).2 = kind.accepted →
        sameFlow kind flow (kind.grantFlow grant) = false) :
    (queuedFor kind (log.step kind op).1.queue flow).length ≤
        (queuedFor kind log.queue flow).length ∧
      bytesOf kind (queuedFor kind (log.step kind op).1.queue flow) ≤
        bytesOf kind (queuedFor kind log.queue flow) := by
  cases op with
  | enqueue grant packet =>
    simp only [PacketLog.step]
    rcases enqueue_cases hLawful log.queue grant packet with
      ⟨-, hSame, -⟩ | ⟨-, hReply, -, hPerm⟩
    · rw [hSame]
      exact ⟨Nat.le_refl _, Nat.le_refl _⟩
    have hForeign := hOther grant packet rfl hReply
    have hMine := hPerm.filter fun s => sameFlow kind flow s.flow
    rw [filter_cons_of_neg (by simpa using hForeign)] at hMine
    exact ⟨hMine.length_eq.le, (bytesOf_perm hMine).le⟩
  | complete flow' packet =>
    simp only [PacketLog.step]
    rcases complete_cases kind log.queue flow' packet with
      hSame | ⟨s, -, -, -, -, -, hPerm⟩
    · rw [hSame]
      exact ⟨Nat.le_refl _, Nat.le_refl _⟩
    · exact queuedFor_le [s] flow hPerm
  | revokeGeneration generation =>
    simp only [PacketLog.step]
    refine queuedFor_le
      (log.queue.queued.filter fun s => kind.flowGeneration s.flow == generation) flow ?_
    rw [queued_revokeGeneration]
    exact (filter_append_perm _ _).symm

omit [DecidableEq ρ] in
/-- Once a packet is queued its flow is within the budget of the grant. -/
theorem queuedFor_enqueue (hLawful : kind.Lawful) (h : Switch.Sound kind log.queue) {grant : γ}
    {packet : π} (hReply : (enqueue kind log.queue grant packet).2 = kind.accepted) :
    let mine := queuedFor kind (enqueue kind log.queue grant packet).1
      (kind.grantFlow grant)
    mine.length ≤ (kind.budget grant).maxInflightPackets.toNat ∧
      bytesOf kind mine ≤ (kind.budget grant).maxInflightBytes.toNat := by
  rcases enqueue_cases hLawful log.queue grant packet with
    ⟨-, -, hNot⟩ | ⟨hAdmits, -, -, hPerm⟩
  · exact absurd hReply hNot
  obtain ⟨hPackets, hBytes⟩ := h.usageFor (kind.grantFlow grant)
  obtain ⟨hValid, hFits⟩ := hLawful.bounded grant packet hAdmits.checked
  simp only [PacketBudget.valid, Bool.and_eq_true, decide_eq_true_eq] at hValid
  have hLong : kind.length packet ≤ (kind.budget grant).maxInflightBytes :=
    UInt32.le_trans hFits hValid.1.2
  have hOwn : sameFlow kind (kind.grantFlow grant) (kind.grantFlow grant) = true := by
    simp [sameFlow]
  have hMine := hPerm.filter fun s => sameFlow kind (kind.grantFlow grant) s.flow
  rw [filter_cons_of_pos (by exact hOwn)] at hMine
  have hMore := UInt16.lt_iff_toNat_lt.mp hAdmits.packets
  have hFree := UInt32.le_iff_toNat_le.mp hAdmits.bytes
  have hWord := UInt32.le_iff_toNat_le.mp hLong
  rw [UInt32.toNat_sub_of_le _ _ hLong] at hFree
  refine ⟨?_, ?_⟩
  · refine hMine.length_eq.le.trans ?_
    show (queuedFor kind log.queue (kind.grantFlow grant)).length + 1 ≤ _
    omega
  refine (bytesOf_perm hMine).le.trans ?_
  show (kind.length packet).toNat +
    bytesOf kind (queuedFor kind log.queue (kind.grantFlow grant)) ≤ _
  omega

omit [DecidableEq ρ] in
theorem exactBudgetTest (hLawful : kind.Lawful) (h : Switch.Sound kind log.queue) :
    SwitchRun.ExactBudgetTest kind log := by
  intro grant packet hChecked
  obtain ⟨hPackets, hBytes⟩ := h.usageFor (kind.grantFlow grant)
  obtain ⟨hValid, hFits⟩ := hLawful.bounded grant packet hChecked
  simp only [PacketBudget.valid, Bool.and_eq_true, decide_eq_true_eq] at hValid
  have hLong : kind.length packet ≤ (kind.budget grant).maxInflightBytes :=
    UInt32.le_trans hFits hValid.1.2
  refine ⟨hPackets, hBytes, ?_⟩
  have hWord := UInt32.le_iff_toNat_le.mp hLong
  rw [UInt32.toNat_sub_of_le _ _ hLong]
  omega

namespace SwitchRun

variable {r : SwitchRun φ π γ}

theorem kept_reached (hLawful : kind.Lawful) (r : SwitchRun φ π γ) (n : Nat) :
    PacketLog.Kept kind (r.reached kind n) :=
  always_of_invariant kept_start (fun _ op h => h.step hLawful op) n

theorem withinBudgets (hLawful : kind.Lawful) (r : SwitchRun φ π γ) : r.WithinBudgets kind := by
  intro n k grant hk hAcc
  induction n with
  | zero => omega
  | succ n ih =>
    intro hLast
    obtain ⟨packet, hOp, hReply⟩ := hAcc
    rcases Nat.lt_succ_iff_lt_or_eq.mp hk with hEarlier | rfl
    · have hBefore := ih hEarlier fun j other hkj hjn => hLast j other hkj (Nat.lt_succ_of_lt hjn)
      cases hNext : r.ops[n]? with
      | none =>
        rw [reached, take_succ_of_none hNext]
        exact hBefore
      | some op =>
        have hStep : r.reached kind (n + 1) = ((r.reached kind n).step kind op).1 :=
          after_take_succ hNext
        rw [hStep]
        have hOther : ∀ other packet', op = .enqueue other packet' →
            (enqueue kind (r.reached kind n).queue other packet').2 = kind.accepted →
              sameFlow kind (kind.grantFlow grant) (kind.grantFlow other) = false := by
          rintro other packet' rfl hOther
          exact hLast n other hEarlier (Nat.lt_succ_self n) ⟨packet', hNext, hOther⟩
        obtain ⟨hPackets, hBytes⟩ := queuedFor_step hLawful (kind.grantFlow grant) op hOther
        exact ⟨hPackets.trans hBefore.1, hBytes.trans hBefore.2⟩
    · have hStep : r.reached kind (k + 1) =
          ((r.reached kind k).step kind (.enqueue grant packet)).1 := after_take_succ hOp
      rw [hStep]
      exact queuedFor_enqueue hLawful (r.kept_reached hLawful k).sound hReply

/-- The queue keeps its packets exactly when no number is queued twice. -/
theorem conserves_iff_freshIds (hLawful : kind.Lawful) (r : SwitchRun φ π γ) :
    r.Conserves kind ↔ r.FreshIds kind := by
  have hSteps : Run.Always (PacketLog.step kind)
      (fun log => (log.queue.queued.map fun s => kind.packetId s.packet).Nodup) {} r.ops ↔
        r.FreshIds kind := by
    refine always_iff_eachStep (W := fun _ => True) trivial (fun _ _ _ => trivial) ?_ ?_
    · simp [queued]
    · intro log op _ hIds
      exact ids_step hLawful op hIds
  constructor
  · intro h
    refine hSteps.mp fun n => ?_
    exact (completable_iff (r.kept_reached hLawful n).sound).mp ⟨h.once n, h.completable n⟩
  intro h
  have hBoth : ∀ n, ((r.reached kind n).queue.queued.map fun s => s.packet).Nodup ∧
      Completable kind (r.reached kind n) := fun n =>
    (completable_iff (r.kept_reached hLawful n).sound).mpr (hSteps.mpr h n)
  exact
    { once := fun n => (hBoth n).1
      completable := fun n => (hBoth n).2
      accounted := fun n => (r.kept_reached hLawful n).accounted
      budgets := r.withinBudgets hLawful
      exact := fun n => exactBudgetTest hLawful (r.kept_reached hLawful n).sound
      refused := fun _ op _ => refused_step hLawful op }

end SwitchRun

end Runs

namespace SwitchRun

/-- For both switches: packets and budgets are conserved in a run if and only if no
packet is accepted under the number of one that is queued. -/
theorem packets_are_conserved_iff_ids_fresh
    (r : SwitchRun FlowCapability PacketBufferCapability PacketGrant)
    (t : SwitchRun TunnelCapability TunnelPacketCapability LinkTunnelGrant) :
    (r.Conserves packetSwitch ↔ r.FreshIds packetSwitch) ∧
      (t.Conserves linkTunnelSwitch ↔ t.FreshIds linkTunnelSwitch) :=
  ⟨conserves_iff_freshIds lawful_packetSwitch r, conserves_iff_freshIds lawful_linkTunnelSwitch t⟩

def smallBudget : PacketBudget :=
  { maxPacketBytes := 1500, maxInflightPackets := 4, maxInflightBytes := 6000 }

def flowGrant (id : UInt64) : PacketGrant :=
  { flow := { id, generation := 1, principal := { high := 1, low := id } }
    budget := smallBudget, mayTransmit := true }

/-- The seventh buffer of a flow. -/
def seventhBuffer (flowId : UInt64) : PacketBufferCapability :=
  { id := 7, generation := 1, flowId, length := 100 }

/-- Two flows queue their seventh buffers. -/
def twoFlowsRun : SwitchRun FlowCapability PacketBufferCapability PacketGrant where
  ops := [.enqueue (flowGrant 1) (seventhBuffer 1), .enqueue (flowGrant 2) (seventhBuffer 2)]

def tunnelGrant : LinkTunnelGrant :=
  { tunnel := { id := 1, generation := 1 }, budget := smallBudget }

def tunnelPacket : TunnelPacketCapability :=
  { id := 7, tunnelId := 1, generation := 1, length := 100, encryptedTunnelPayload := true }

/-- One packet is offered twice. -/
def twiceOfferedRun : SwitchRun TunnelCapability TunnelPacketCapability LinkTunnelGrant where
  ops := [.enqueue tunnelGrant tunnelPacket, .enqueue tunnelGrant tunnelPacket]

/-- The second flow cannot complete its packet, and a tunnel packet is queued twice. -/
theorem equal_ids_block_completion :
    { flow := (flowGrant 2).flow, packet := seventhBuffer 2 } ∈
        (twoFlowsRun.reached packetSwitch 2).queue.queued ∧
      (complete packetSwitch (twoFlowsRun.reached packetSwitch 2).queue (flowGrant 2).flow
        (seventhBuffer 2)).2 = false ∧
      ¬twoFlowsRun.Conserves packetSwitch ∧
      ((twiceOfferedRun.reached linkTunnelSwitch 2).queue.queued.map fun s => s.packet) =
        [tunnelPacket, tunnelPacket] ∧
      ¬twiceOfferedRun.Conserves linkTunnelSwitch := by
  have hQueued : { flow := (flowGrant 2).flow, packet := seventhBuffer 2 } ∈
      (twoFlowsRun.reached packetSwitch 2).queue.queued := by decide +kernel
  have hFailed : (complete packetSwitch (twoFlowsRun.reached packetSwitch 2).queue
      (flowGrant 2).flow (seventhBuffer 2)).2 = false := by decide +kernel
  have hTwice : ((twiceOfferedRun.reached linkTunnelSwitch 2).queue.queued.map
      fun s => s.packet) = [tunnelPacket, tunnelPacket] := by decide +kernel
  refine ⟨hQueued, hFailed, ?_, hTwice, ?_⟩
  · intro hConserves
    have hDone := (hConserves.completable 2 _ hQueued).1
    rw [reached] at hFailed
    rw [hFailed] at hDone
    cases hDone
  · intro hConserves
    have hOnce := hConserves.once 2
    rw [reached] at hTwice
    rw [hTwice] at hOnce
    simp at hOnce

end SwitchRun

end Enml.OsNetwork
