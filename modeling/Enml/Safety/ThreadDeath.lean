import Enml.Invariant.Phase
import Enml.Invariant.Side
import Enml.Safety.CapabilityForest
import Enml.Safety.RunQueue

/-! What `destroy_thread` leaves behind. Every table drops the thread except in
two cases: a server that has not collected the thread's delivery still names it
as partner, and an endpoint whose waiting flag the rendezvous does not confirm
survives its owner. -/
namespace Enml.OsKernel

open SlotTable Run IpcEndpointTable Rendezvous IpcEndpointTable.CompletedSlot
  Relation.ReflTransGen CompletedSlot

variable {t : ThreadId} {r r' : Rendezvous} {slot : Slot}

/-- Nothing in `k'` refers to the thread that was destroyed in `k`, and the
threads that were blocked on it are ready. -/
structure Forgotten (k : Kernel) (t : ThreadId) (k' : Kernel) : Prop where
  threads : ∀ slot ∈ k'.threads.slots, slot.occupied = true → slot.thread ≠ t ∧ slot.partner ≠ t
  scheduler : ∀ slot ∈ k'.scheduler.slots, slot.occupied = true → slot.thread ≠ t
  live : t ∉ k'.liveThreads
  capabilities : ∀ slot ∈ k'.capabilities.slots, slot.occupied = true →
    slot.holder ≠ t ∧ slot ∈ k.capabilities.slots ∧
      ∀ above, k.capabilities.Ancestor slot above → above.holder ≠ t
  endpoints : ∀ slot ∈ k'.ipc.endpoints, slot.active = true → slot.server ≠ t
  pending : ∀ call ∈ k'.ipc.pending, call.active = true → call.caller ≠ t ∧ call.server ≠ t
  seals : ∀ slot ∈ k'.ipc.replies, slot.active = true →
    slot.replySeal.caller ≠ t ∧ slot.replySeal.server ≠ t
  completed : ∀ slot ∈ k'.ipc.completed, slot.active = true → slot.caller ≠ t
  sendContinuation : k'.ipcContinuations.sendArmed t = false
  receiveContinuation : k'.ipcContinuations.receiveArmed t = false
  delivery : k'.interruptDeliveries.armed t = false
  interrupts : ∀ slot ∈ k'.interrupts.slots, slot.occupied = true → slot.owner ≠ t
  released : ∀ slot ∈ k.threads.slots, slot.occupied = true → slot.thread ≠ t →
    slot.blockedOn t = true → k'.threads.stateOf slot.thread = .ok .ready

/-- No other thread has the dying one as partner without being blocked on it,
and no retirement of its endpoints will be refused. -/
structure DiesCleanly (k : Kernel) (t : ThreadId) : Prop where
  collected : ∀ slot ∈ k.threads.slots, slot.occupied = true → slot.thread ≠ t →
    slot.partner = t → slot.blockedOn t = true
  oneFlag : ∀ i j, k.ipc.Flagged t i → k.ipc.Flagged t j → i = j
  waits : ∀ i, k.ipc.Flagged t i → k.threads.Waits t

namespace Rendezvous

theorem find_of_occupied (hr : r.Distinct) (hMem : slot ∈ r.slots) (hLive : slot.occupied = true) :
    r.find slot.thread = some slot :=
  find_of_mem hr hMem (by simp [Slot.key, hLive])

/-- Phases of the other threads after some callers of `t` have been released. -/
def ReleasedFrom (t : ThreadId) (r r' : Rendezvous) : Prop :=
  ∀ u, u ≠ t → r'.phase u = r.phase u ∨
    ((r.phase u = some (.sendBlocked, t) ∨ r.phase u = some (.replyBlocked, t)) ∧
      r'.phase u = some (.ready, invalidThread))

theorem ReleasedFrom.trans {r₁ r₂ : Rendezvous} (h : ReleasedFrom t r r₁)
    (h' : ReleasedFrom t r₁ r₂) : ReleasedFrom t r r₂ := by
  intro u hu
  rcases h u hu with hSame | ⟨hBlocked, hReady⟩
  · rcases h' u hu with hSame' | ⟨hBlocked', hReady'⟩
    · exact .inl (hSame'.trans hSame)
    · exact .inr ⟨hSame ▸ hBlocked', hReady'⟩
  right
  refine ⟨hBlocked, ?_⟩
  rcases h' u hu with hSame' | ⟨hBlocked', -⟩
  · exact hSame'.trans hReady
  · rw [hReady] at hBlocked'
    simp at hBlocked'

theorem releasedFrom_cancelCall (r : Rendezvous) (caller t : ThreadId) :
    ReleasedFrom t r (r.cancelCall caller t).1 := by
  intro u hu
  rcases hCancel : r.cancelCall caller t with ⟨r', e | ⟨⟩⟩
  · left
    rw [cancelCall_error hCancel]
  obtain ⟨client, server, hClient, -, hWait, rfl⟩ := cancelCall_ok hCancel
  have hPhase : ∀ f : Slot → Slot, (∀ s, (f s).key = s.key) →
      ∀ r₁ : Rendezvous, (r₁.modify t f).phase u = r₁.phase u := by
    intro f hf r₁
    rw [phase, phase, find_modify r₁ t u hf, if_neg hu]
  rw [hPhase _ (fun s => by split <;> rfl)]
  have hReleased : (r.modify caller fun s =>
      { s with state := .ready, partner := invalidThread, wake := .endpointRetired }).phase u =
        if u = caller then some (.ready, invalidThread) else r.phase u := by
    rw [phase, phase, find_modify_of_find hClient]
    · split_ifs <;> rfl
    · intro s
      rfl
  rw [hReleased]
  split_ifs with hCaller
  · right
    refine ⟨?_, rfl⟩
    rw [hCaller, phase_of_find hClient]
    obtain ⟨hState | hState, hPeer⟩ := Slot.waitingOn_iff.mp hWait
    · exact .inl (by rw [hState, hPeer])
    · exact .inr (by rw [hState, hPeer])
  · exact .inl rfl

theorem releasedFrom_endReceive {w : WakeReason}
    (h : r.endReceive w t = (r', .ok ())) : ReleasedFrom t r r' := by
  intro u hu
  left
  rw [(phase_endReceive h).2 u, if_neg hu]

end Rendezvous

namespace IpcEndpointTable

open Rendezvous

variable {ipc : IpcEndpointTable} {server : ThreadId}

/-- Retiring the endpoints of `t` touches no thread but `t` and its callers. -/
theorem releasedFrom_retireAllOwnedBy (hLinked : ipc.Linked) (t : ThreadId) (r : Rendezvous) :
    ReleasedFrom t r (ipc.retireAllOwnedBy t r).1.2 := by
  have hBoth : (ipc.retireAllOwnedBy t r).1.1.Linked ∧
      ReleasedFrom t r (ipc.retireAllOwnedBy t r).1.2 := by
    apply retireAllOwnedBy_induction _
      (P := fun ipc' r' => ipc'.Linked ∧ ReleasedFrom t r r') ⟨hLinked, fun u _ => .inl rfl⟩
    rintro ipc₁ r₁ ipc' r' e ⟨hLinked₁, hReleased⟩ hRetire
    refine ⟨hLinked₁.retire hRetire, hReleased.trans ?_⟩
    obtain ⟨owner, r₂, hOwner, -, hSrv, hFirst, -, hr'⟩ := retire_ok hRetire
    have hFirst : ReleasedFrom t r₁ r₂ := by
      rcases hFirst with ⟨-, hCancel⟩ | ⟨-, rfl⟩
      · exact releasedFrom_endReceive hCancel
      · exact fun u _ => .inl rfl
    refine hFirst.trans ?_
    rw [hr']
    apply cancelCalls_induction (P := fun r' => ReleasedFrom t r₂ r') (fun u _ => .inl rfl)
    intro r₃ p hMem hActive hEp hSoFar
    have hCall : p ∈ ipc₁.calls := mem_entries.mpr ⟨hMem, by simp [PendingSlot.key, hActive]⟩
    obtain ⟨owner', hOwner', hNamed⟩ := hLinked₁.call p hCall
    rw [hEp, hOwner] at hOwner'
    cases hOwner'
    rw [← hNamed, hSrv]
    exact hSoFar.trans (releasedFrom_cancelCall r₃ p.caller t)
  exact hBoth.2

/-- A flag that retirement will trip over: the server does not wait, or waits
for only one of two flagged endpoints. -/
def Stuck (server : ThreadId) (ipc : IpcEndpointTable) (r : Rendezvous) : Prop :=
  ∃ i, ipc.Flagged server i ∧ (¬r.Waits server ∨ ∃ j, j ≠ i ∧ ipc.Flagged server j)

theorem Stuck.retire {ipc' : IpcEndpointTable} {e : IpcEndpoint} (h : Stuck server ipc r)
    (hRetire : ipc.retire server e r = ((ipc', r'), .ok ())) : Stuck server ipc' r' := by
  obtain ⟨owner, r₁, hOwner, -, hSrv, hFirst, hipc', hr'⟩ := retire_ok hRetire
  obtain ⟨i, hFlagged, hWhy⟩ := h
  obtain ⟨hGet, -, hActive, -⟩ := slotFor_eq_some.mp hOwner
  unfold Stuck
  simp only [hipc', hr', waits_cancelCalls, flagged_closeEndpoint_iff]
  rcases hFirst with ⟨-, hCancel⟩ | ⟨hQuiet, rfl⟩
  · have hWaits : r.Waits server := endReceive_ok_iff.mp ⟨r₁, hCancel⟩
    have hNot : ¬r₁.Waits server := not_waits_endReceive hCancel
    rcases hWhy with hNotWaits | ⟨j, hji, hj⟩
    · exact absurd hWaits hNotWaits
    · by_cases hi : i = e.slot.toNat
      · exact ⟨j, ⟨fun hEq => hji (hEq.trans hi.symm), hj⟩, .inl hNot⟩
      · exact ⟨i, ⟨hi, hFlagged⟩, .inl hNot⟩
  · have hOther : ∀ n, ipc.Flagged server n → n ≠ e.slot.toNat := by
      rintro n ⟨slot, hSlot, -, -, hWait⟩ rfl
      rw [hGet, Option.some.injEq] at hSlot
      rw [hSlot, hWait] at hQuiet
      cases hQuiet
    refine ⟨i, ⟨hOther i hFlagged, hFlagged⟩, ?_⟩
    rcases hWhy with hNotWaits | ⟨j, hji, hj⟩
    · exact .inl hNotWaits
    · exact .inr ⟨j, hji, hOther j hj, hj⟩

/-- A stuck flag outlives the retirement of all the thread owns. -/
theorem Stuck.owns (h : Stuck server ipc r) :
    ∃ i, (ipc.retireAllOwnedBy server r).1.1.Owns server i := by
  have hStuck : Stuck server (ipc.retireAllOwnedBy server r).1.1
      (ipc.retireAllOwnedBy server r).1.2 :=
    retireAllOwnedBy_induction _ h fun _ _ _ _ _ hStuck hRetire => hStuck.retire hRetire
  obtain ⟨i, hFlagged, -⟩ := hStuck
  exact ⟨i, flagged_owns hFlagged⟩

/-- Nobody has two answers waiting. -/
def RepliesKeyed (ipc : IpcEndpointTable) : Prop := (keys key ipc.completed).Nodup

theorem completed_retireAllOwnedBy (ipc : IpcEndpointTable) (t : ThreadId) (r : Rendezvous) :
    (ipc.retireAllOwnedBy t r).1.1.completed = ipc.completed := by
  apply retireAllOwnedBy_induction _ (P := fun ipc' _ => ipc'.completed = ipc.completed) rfl
  intro ipc₁ r₁ ipc' r' e hSame hRetire
  obtain ⟨-, r₂, -, -, -, -, hipc', -⟩ := retire_ok hRetire
  rw [hipc', completed_closeEndpoint, hSame]

theorem RepliesKeyed.discard (h : ipc.RepliesKeyed) (t : ThreadId) :
    (ipc.discardCompletedFor t).RepliesKeyed :=
  h.sublist (keys_updateFirst_sublist (fun _ => rfl) _)

theorem RepliesKeyed.releaseThread (h : ipc.RepliesKeyed) (t : ThreadId) (r : Rendezvous) :
    (ipc.releaseThread t r).1.1.RepliesKeyed := by
  apply releaseThread_induction _ (P := fun ipc _ => ipc.RepliesKeyed) h
  · intro ipc r ipc' r' e hKeyed hRetire
    obtain ⟨-, r₁, -, -, -, -, rfl, -⟩ := retire_ok hRetire
    exact hKeyed
  · exact fun _ _ hKeyed => RepliesKeyed.discard hKeyed t

theorem RepliesKeyed.coreStep {c c' : Core} {op : CoreOp} (h : c.ipc.RepliesKeyed)
    (hStep : CoreStep c op c') : c'.ipc.RepliesKeyed := by
  cases hStep with
  | destroy t => exact h.releaseThread t c.threads
  | createEndpoint hCreate =>
    obtain ⟨-, -, -, -, -, -, -, rfl⟩ := create_ok hCreate
    exact h
  | retireEndpoint hRetire =>
    obtain ⟨-, r₁, -, -, -, -, hipc, -⟩ := retire_ok hRetire
    dsimp only at hipc ⊢
    rw [hipc, RepliesKeyed, completed_closeEndpoint]
    exact h
  | sendTo hSend =>
    obtain ⟨-, -, -, -, -, -, rfl⟩ := sendToEndpoint_ok hSend
    exact h
  | receiveFrom hRecv =>
    rw [RepliesKeyed, (receiveFromEndpoint_tables hRecv).2.1]
    exact h
  | @replyTo _ replySeal _ _ _ hReply =>
    obtain ⟨-, completed, -, -, -, -, -, -, hNone, hIns, -, rfl⟩ := reply_ok hReply
    have hPerm : (keys key completed).Perm
        (replySeal.caller :: keys key c.ipc.completed) :=
      keys_insert rfl hIns
    have hAbsent := lookup_eq_none_iff.mp hNone
    exact hPerm.nodup_iff.mpr (List.nodup_cons.mpr ⟨hAbsent, h⟩)
  | replyRefused hReplied =>
    unfold RepliesKeyed at h ⊢
    rw [← keys_entries] at h ⊢
    unfold replied at hReplied
    rwa [hReplied]
  | takeReply => exact h.discard _
  | _ => exact h

end IpcEndpointTable

open IpcEndpointTable

namespace CapabilityTable.Forest

/-- Ancestors are reached by following parent indices. -/
theorem path_of_ancestor {t : CapabilityTable} {i : ℕ} {above : Slot}
    (hCell : t.slots[i]? = some slot) (hLive : slot.occupied = true) (h : t.Ancestor slot above) :
    ∃ j, t.slots[j]? = some above ∧ above.occupied = true ∧
      Relation.ReflTransGen (fun a b => parentIndex t.slots a = some b) i j := by
  induction h using Relation.TransGen.head_induction_on generalizing i with
  | @single slot hPar =>
    obtain ⟨-, hAbove, hAboveLive, -⟩ := parentOf_eq_some.mp hPar
    exact ⟨slot.parentSlot, hAbove, hAboveLive, single
      (parentIndex_eq_some.mpr ⟨slot, above, hCell, hLive, hPar, rfl⟩)⟩
  | @head slot parent hPar _ ih =>
    obtain ⟨-, hParCell, hParLive, -⟩ := parentOf_eq_some.mp hPar
    obtain ⟨j, hAbove, hAboveLive, hPath⟩ := ih hParCell hParLive
    exact ⟨j, hAbove, hAboveLive, head
      (parentIndex_eq_some.mpr ⟨slot, parent, hCell, hLive, hPar, rfl⟩) hPath⟩

/-- What is left after a teardown was neither held by the thread nor derived
from anything it held. -/
theorem of_revokeAllHeldBy {t : CapabilityTable} (hForest : Forest t) {holder : ThreadId}
    (hHolder : holder ≠ invalidThread) (hMem : slot ∈ (t.revokeAllHeldBy holder).1.slots)
    (hLive : slot.occupied = true) :
    slot.holder ≠ holder ∧ slot ∈ t.slots ∧
      ∀ above, t.Ancestor slot above → above.holder ≠ holder := by
  rw [(hForest.revokeAllHeldBy_spec hHolder).1] at hMem
  obtain ⟨i, hCell⟩ := List.mem_iff_getElem?.mp hMem
  obtain ⟨hLeft, hOld⟩ := getElem?_of_without hCell hLive
  refine ⟨?_, List.mem_of_getElem? hOld, ?_⟩
  · intro hHeld
    exact hLeft (Spread.subset_below _ ⟨slot, hOld, hLive, hHeld⟩)
  · intro above hAbove hHeld
    obtain ⟨j, hAboveCell, hAboveLive, hPath⟩ := path_of_ancestor hOld hLive hAbove
    exact hLeft ⟨j, ⟨above, hAboveCell, hAboveLive, hHeld⟩, hPath⟩

end CapabilityTable.Forest

namespace Kernel

/-- What may be assumed of every kernel state. -/
structure Regular (k : Kernel) : Prop where
  structured : k.Structured
  keyed : k.side.Keyed
  replies : k.ipc.RepliesKeyed

theorem regular_empty : Regular {} := by
  refine ⟨structured_empty, Side.Keyed.empty, ?_⟩
  have hKeys : keys key ({} : Kernel).ipc.completed = [] := by decide
  unfold IpcEndpointTable.RepliesKeyed
  rw [hKeys]
  exact List.nodup_nil

theorem Regular.step {k : Kernel} (h : k.Regular) (call : Env × Op) : (k.step call).1.Regular where
  structured := h.structured.step call
  keyed := side_induction call.2 (fun _ op _ hKeyed => hKeyed.apply op) h.keyed call.1
  replies := by
    obtain ⟨env, op⟩ := call
    exact core_induction (P := fun c => c.ipc.RepliesKeyed) h.structured.same env op h.replies
      (fun _ _ _ hStep => h.replies.coreStep hStep)
      (fun c t hKeyed => hKeyed.releaseThread t c.threads)

theorem regular_run (calls : List (Env × Op)) : Run.Always step Regular {} calls :=
  always_of_invariant regular_empty fun _ call h => h.step call

/-- The tables a successful destruction leaves. -/
theorem destroyThread_ok {k k' : Kernel} {teardown : Teardown}
    (hStruct : k.Structured) (h : k.destroyThread t = (k', .ok teardown)) :
    ∃ n, (k.ipc.releaseThread t k.threads).1.2.exitThread t = (k'.threads, .ok n) ∧
      SameThreads k'.threads k'.scheduler k'.live k'.liveCount ∧
      k'.ipc = (k.ipc.releaseThread t k.threads).1.1 ∧
      k'.capabilities = (k.capabilities.revokeAllHeldBy t).1 ∧
      k'.interrupts = (k.interrupts.detachAllOwnedBy t).1 ∧
      k'.interruptDeliveries = (k.interruptDeliveries.release t).1 ∧
      k'.ipcContinuations = k.ipcContinuations.releaseThread t := by
  have hSame := (queueKept_destroyThread hStruct.same hStruct.linked t).same
  rw [h] at hSame
  have hFrame : ∀ k₁ : Kernel, (k₁.untrack t).synchronise.threads = k₁.threads ∧
      (k₁.untrack t).synchronise.ipc = k₁.ipc ∧
      (k₁.untrack t).synchronise.capabilities = k₁.capabilities ∧
      (k₁.untrack t).synchronise.interrupts = k₁.interrupts ∧
      (k₁.untrack t).synchronise.interruptDeliveries = k₁.interruptDeliveries ∧
      (k₁.untrack t).synchronise.ipcContinuations = k₁.ipcContinuations := by
    intro k₁
    rw [synchronise_eq]
    unfold untrack
    split <;> exact ⟨rfl, rfl, rfl, rfl, rfl, rfl⟩
  unfold destroyThread at h
  dsimp only at h
  rcases hExit : (k.ipc.releaseThread t k.threads).1.2.exitThread t with ⟨threads, e | n⟩
  · rw [hExit] at h
    cases h
  rw [hExit] at h
  have hk' := congrArg Prod.fst h
  dsimp only at hk'
  obtain ⟨hThrs, hRest⟩ := hFrame _
  rw [hk'] at hThrs hRest
  refine ⟨n, ?_, hSame, hRest⟩
  rw [hThrs]

/-- The threads other than the one destroyed: those blocked on it are ready,
the others keep their phase. -/
theorem phase_destroyThread {k k' : Kernel} {teardown : Teardown}
    (hStruct : k.Structured) (h : k.destroyThread t = (k', .ok teardown)) (u : ThreadId) :
    k'.threads.phase u =
      if u = t then none
      else if k.threads.phase u = some (.sendBlocked, t) ∨
          k.threads.phase u = some (.replyBlocked, t) ∨
          k.threads.phase u = some (.receiveBlocked, t) then some (.ready, invalidThread)
      else k.threads.phase u := by
  obtain ⟨n, hExit, -⟩ := destroyThread_ok hStruct h
  have hDist := (sameIds_releaseThread k.ipc t k.threads).distinct
    hStruct.same.distinct
  have hReleased : Rendezvous.ReleasedFrom t k.threads (k.ipc.releaseThread t k.threads).1.2 := by
    rcases eq_or_ne t invalidThread with rfl | ht
    · rw [releaseThread_invalid]
      exact fun u _ => .inl rfl
    · rw [releaseThread_eq k.ipc k.threads ht]
      exact releasedFrom_retireAllOwnedBy hStruct.linked t k.threads
  rw [phase_exitThread hDist hExit u]
  by_cases hu : u = t
  · rw [if_pos hu, if_pos hu]
  rw [if_neg hu, if_neg hu]
  rcases hReleased u hu with hSame | ⟨hBlocked, hReady⟩
  · rw [hSame]
  have hBefore : k.threads.phase u = some (.sendBlocked, t) ∨
      k.threads.phase u = some (.replyBlocked, t) ∨
      k.threads.phase u = some (.receiveBlocked, t) := by
    rcases hBlocked with hBlocked | hBlocked
    · exact .inl hBlocked
    · exact .inr (.inl hBlocked)
  rw [if_pos hBefore, hReady]
  simp

section Destroyed

variable {k k' : Kernel} {teardown : Teardown} (hRegular : k.Regular)
  (h : k.destroyThread t = (k', .ok teardown))
include hRegular h

theorem ne_invalid_of_destroyThread : t ≠ invalidThread := by
  obtain ⟨n, hExit, -⟩ := destroyThread_ok hRegular.structured h
  obtain ⟨slot, hFind⟩ := Option.isSome_iff_exists.mp (exitThread_ok hExit).1
  exact ne_invalid_of_find hFind

theorem ipc_destroyThread :
    k'.ipc = (((k.ipc.retireAllOwnedBy t k.threads).1.1.dropReplies
      (namesThread t)).dropPending
        fun call => call.caller == t).discardCompletedFor t := by
  obtain ⟨-, -, -, hIpc, -⟩ := destroyThread_ok hRegular.structured h
  rw [hIpc, releaseThread_eq k.ipc k.threads (ne_invalid_of_destroyThread hRegular h)]

/-- Which threads of `k'` still have `t` as partner. -/
theorem partner_destroyThread_iff :
    (∀ slot ∈ k'.threads.slots, slot.occupied = true → slot.thread ≠ t ∧ slot.partner ≠ t) ↔
      ∀ slot ∈ k.threads.slots, slot.occupied = true → slot.thread ≠ t → slot.partner = t →
        slot.blockedOn t = true := by
  have ht := ne_invalid_of_destroyThread hRegular h
  have hPhase := phase_destroyThread hRegular.structured h
  obtain ⟨-, -, hSame, -⟩ := destroyThread_ok hRegular.structured h
  constructor
  · intro hNone slot hMem hLive hThr hPeer
    by_contra hBlocked
    have hFind := find_of_occupied hRegular.structured.same.distinct hMem hLive
    have hKept := hPhase slot.thread
    rw [if_neg hThr, if_neg, phase_of_find hFind] at hKept
    · obtain ⟨slot', hFind', -, hPeer'⟩ := phase_eq_some.mp hKept
      have hMem' := (mem_of_find hFind').1
      have hLive' := (thread_of_find hFind').2
      exact (hNone slot' hMem' hLive').2 (hPeer'.trans hPeer)
    rw [phase_of_find hFind, hPeer]
    intro hState
    apply hBlocked
    rw [Rendezvous.Slot.blockedOn_iff]
    refine ⟨?_, hPeer⟩
    simpa using hState
  · intro hAll slot hMem hLive
    have hFind := find_of_occupied hSame.distinct hMem hLive
    have hKept := hPhase slot.thread
    rw [phase_of_find hFind] at hKept
    split_ifs at hKept with hThr hBlocked
    · simp only [Option.some.injEq, Prod.mk.injEq] at hKept
      exact ⟨hThr, fun hPeer => ht (hPeer.symm.trans hKept.2)⟩
    refine ⟨hThr, ?_⟩
    intro hPeer
    obtain ⟨old, hOld, hState, hOldPeer⟩ := phase_eq_some.mp hKept.symm
    obtain ⟨hOldThr, hOldLive⟩ := thread_of_find hOld
    have hOn := hAll old (mem_of_find hOld).1 hOldLive (hOldThr ▸ hThr)
      (hOldPeer.trans hPeer)
    rw [Rendezvous.Slot.blockedOn_iff] at hOn
    apply hBlocked
    rw [phase_of_find hOld, hOn.2]
    simpa using hOn.1

/-- The endpoints that survive are those the retirement loop is refused for. -/
theorem endpoints_destroyThread_iff :
    (∀ slot ∈ k'.ipc.endpoints, slot.active = true → slot.server ≠ t) ↔
      (∀ i j, k.ipc.Flagged t i → k.ipc.Flagged t j → i = j) ∧
        ∀ i, k.ipc.Flagged t i → k.threads.Waits t := by
  have hEps : k'.ipc.endpoints = (k.ipc.retireAllOwnedBy t k.threads).1.1.endpoints := by
    rw [ipc_destroyThread hRegular h]
    rfl
  rw [hEps]
  constructor
  · intro hNone
    have hFree : ¬IpcEndpointTable.Stuck t k.ipc k.threads := by
      intro hStuck
      obtain ⟨i, slot, hCell, hActive, hSrv⟩ := hStuck.owns
      exact hNone slot (List.mem_of_getElem? hCell) hActive hSrv
    constructor
    · intro i j hi hj
      by_contra hij
      exact hFree ⟨i, hi, .inr ⟨j, fun hji => hij hji.symm, hj⟩⟩
    · intro i hi
      by_contra hNot
      exact hFree ⟨i, hi, .inl hNot⟩
  · rintro ⟨hOne, hWaits⟩ slot hMem hActive hSrv
    obtain ⟨i, hCell⟩ := List.mem_iff_getElem?.mp hMem
    have hRetirable : IpcEndpointTable.Retirable t k.ipc k.threads :=
      ⟨hRegular.structured.linked, hOne, hWaits⟩
    exact hRetirable.retireAllOwnedBy (ne_invalid_of_destroyThread hRegular h) i
      ⟨slot, hCell, hActive, hSrv⟩

/-- A call to the thread sits at one of its endpoints, so it goes with them. -/
theorem pending_destroyThread
    (hEps : ∀ slot ∈ k'.ipc.endpoints, slot.active = true → slot.server ≠ t) :
    ∀ call ∈ k'.ipc.pending, call.active = true → call.caller ≠ t ∧ call.server ≠ t := by
  have hLinked : k'.ipc.Linked := by
    obtain ⟨-, -, -, hIpc, -⟩ := destroyThread_ok hRegular.structured h
    rw [hIpc]
    exact hRegular.structured.linked.releaseThread t k.threads
  intro call hMem hActive
  have hCall : call ∈ k'.ipc.calls := mem_calls.mpr ⟨hMem, hActive⟩
  refine ⟨?_, ?_⟩
  · rw [ipc_destroyThread hRegular h, calls_discardCompletedFor, calls_dropPending] at hCall
    simpa using (List.mem_filter.mp hCall).2
  obtain ⟨slot, hSlot, hSrv⟩ := hLinked.call call hCall
  obtain ⟨hCell, -, hSlotActive, -⟩ := slotFor_eq_some.mp hSlot
  rw [← hSrv]
  exact hEps slot (List.mem_of_getElem? hCell) hSlotActive

theorem seals_destroyThread : ∀ slot ∈ k'.ipc.replies, slot.active = true →
    slot.replySeal.caller ≠ t ∧ slot.replySeal.server ≠ t := by
  intro slot hMem hActive
  have hSeal : slot ∈ k'.ipc.seals := mem_seals.mpr ⟨hMem, hActive⟩
  rw [ipc_destroyThread hRegular h] at hSeal
  have hDropped : slot ∈ ((k.ipc.retireAllOwnedBy t k.threads).1.1.dropReplies
      (namesThread t)).seals := hSeal
  rw [seals_dropReplies] at hDropped
  simpa [namesThread] using (List.mem_filter.mp hDropped).2

theorem completed_destroyThread : ∀ slot ∈ k'.ipc.completed, slot.active = true →
    slot.caller ≠ t := by
  intro slot hMem hActive hCaller
  rw [ipc_destroyThread hRegular h] at hMem
  have hKeys : lookup key t (modify key t (fun _ => {}) k.ipc.completed) =
        none := lookup_modify_free hRegular.replies fun _ _ => rfl
  rw [← completed_retireAllOwnedBy k.ipc t k.threads] at hKeys
  rw [lookup_eq_none_iff] at hKeys
  apply hKeys
  refine mem_keys_iff.mpr ⟨slot, hMem, ?_⟩
  simp [key, hActive, hCaller]

theorem sideTables_destroyThread :
    k'.ipcContinuations.sendArmed t = false ∧ k'.ipcContinuations.receiveArmed t = false ∧
      k'.interruptDeliveries.armed t = false := by
  obtain ⟨-, -, -, -, -, -, hDeliveries, hContinuations⟩ := destroyThread_ok hRegular.structured h
  obtain ⟨hSend, hRecv⟩ := hRegular.keyed.armed_releaseThread t
  rw [hDeliveries, hContinuations]
  exact ⟨hSend, hRecv, hRegular.keyed.armed_release t⟩

theorem released_destroyThread : ∀ slot ∈ k.threads.slots, slot.occupied = true →
    slot.thread ≠ t → slot.blockedOn t = true →
      k'.threads.stateOf slot.thread = .ok .ready := by
  intro slot hMem hLive hThr hBlocked
  have hFind := find_of_occupied hRegular.structured.same.distinct hMem hLive
  have hPhase := phase_destroyThread hRegular.structured h slot.thread
  rw [if_neg hThr, if_pos] at hPhase
  · obtain ⟨slot', hFind', hState, -⟩ := phase_eq_some.mp hPhase
    rw [stateOf, hFind']
    simp only
    rw [hState]
  · rw [Rendezvous.Slot.blockedOn_iff] at hBlocked
    rw [phase_of_find hFind, hBlocked.2]
    simpa using hBlocked.1

theorem threadLists_destroyThread :
    (∀ slot ∈ k'.scheduler.slots, slot.occupied = true → slot.thread ≠ t) ∧
      t ∉ k'.liveThreads := by
  obtain ⟨-, -, hSame, -⟩ := destroyThread_ok hRegular.structured h
  have hGone : t ∉ k'.threads.ids := by
    have hPhase := phase_destroyThread hRegular.structured h t
    rw [if_pos rfl, phase_eq_none] at hPhase
    rw [← find_isSome_iff hSame.distinct, hPhase]
    simp
  refine ⟨?_, ?_⟩
  · rintro slot hMem hLive rfl
    apply hGone
    rw [← hSame.scheduler_perm.mem_iff]
    exact mem_keys_iff.mpr ⟨slot, hMem, by simp [Scheduler.Slot.key, hLive]⟩
  · rw [liveThreads, hSame.live_perm.mem_iff]
    exact hGone

theorem interrupts_destroyThread : ∀ slot ∈ k'.interrupts.slots, slot.occupied = true →
    slot.owner ≠ t := by
  have ht := ne_invalid_of_destroyThread hRegular h
  obtain ⟨-, -, -, -, -, hInterrupts, -⟩ := destroyThread_ok hRegular.structured h
  intro slot hMem hLive hOwner
  rw [hInterrupts, InterruptTable.detachAllOwnedBy, if_neg ht] at hMem
  obtain ⟨old, -, rfl⟩ := List.mem_map.mp hMem
  split_ifs at hLive hOwner with hHeld
  apply hHeld
  simp [hLive, hOwner]

/-- Death is complete exactly when the thread dies cleanly. -/
theorem forgotten_iff : Forgotten k t k' ↔ DiesCleanly k t := by
  have ht := ne_invalid_of_destroyThread hRegular h
  obtain ⟨-, -, -, -, hCaps, -⟩ := destroyThread_ok hRegular.structured h
  obtain ⟨hSched, hLive⟩ := threadLists_destroyThread hRegular h
  obtain ⟨hSend, hRecv, hDelivery⟩ := sideTables_destroyThread hRegular h
  constructor
  · intro hForgotten
    obtain ⟨hOne, hWaits⟩ := (endpoints_destroyThread_iff hRegular h).mp hForgotten.endpoints
    exact ⟨(partner_destroyThread_iff hRegular h).mp hForgotten.threads, hOne, hWaits⟩
  intro hClean
  have hEps := (endpoints_destroyThread_iff hRegular h).mpr ⟨hClean.oneFlag, hClean.waits⟩
  exact
    { threads := (partner_destroyThread_iff hRegular h).mpr hClean.collected
      scheduler := hSched
      live := hLive
      capabilities := by
        rw [hCaps]
        intro slot hMem hSlot
        exact hRegular.keyed.forest.of_revokeAllHeldBy ht hMem hSlot
      endpoints := hEps
      pending := pending_destroyThread hRegular h hEps
      seals := seals_destroyThread hRegular h
      completed := completed_destroyThread hRegular h
      sendContinuation := hSend
      receiveContinuation := hRecv
      delivery := hDelivery
      interrupts := interrupts_destroyThread hRegular h
      released := released_destroyThread hRegular h }

end Destroyed

end Kernel

/-- In every reachable state, the death of a thread reaches every table exactly
when the thread dies cleanly. -/
theorem destroyed_thread_forgotten_iff (calls : List (Env × Op)) (t : ThreadId) (k' : Kernel)
    (teardown : Teardown)
    (h : (after Kernel.step {} calls).destroyThread t = (k', .ok teardown)) :
    Forgotten (after Kernel.step {} calls) t k' ↔ DiesCleanly (after Kernel.step {} calls) t :=
  Kernel.forgotten_iff (Kernel.regular_run calls).final h

/-- Two threads, of which the second is queued on the first. -/
def queuedRun : List (Env × Op) :=
  [({}, .createThread 1 0), ({}, .createThread 2 0), ({}, .send 2 1)]

/-- A thread with a queued sender dies cleanly. -/
theorem queuedRun_forgets_target :
    ∃ k' teardown, (after Kernel.step {} queuedRun).destroyThread 1 = (k', .ok teardown) ∧
      Forgotten (after Kernel.step {} queuedRun) 1 k' := by
  have hState : ((after Kernel.step {} queuedRun).destroyThread 1).2.isOk = true ∧
      (∀ slot ∈ (after Kernel.step {} queuedRun).threads.slots, slot.occupied = true →
        slot.thread ≠ 1 → slot.partner = 1 → slot.blockedOn 1 = true) ∧
      ∀ slot ∈ (after Kernel.step {} queuedRun).ipc.endpoints, slot.active = false := by
    decide +kernel
  obtain ⟨hOk, hCollected, hInactive⟩ := hState
  have hNone : ∀ i, ¬(after Kernel.step {} queuedRun).ipc.Flagged 1 i := by
    rintro i ⟨slot, hCell, hActive, -⟩
    rw [hInactive slot (List.mem_of_getElem? hCell)] at hActive
    cases hActive
  rcases hDestroy : (after Kernel.step {} queuedRun).destroyThread 1 with ⟨k', e | teardown⟩
  · rw [hDestroy] at hOk
    cases hOk
  · refine ⟨k', teardown, rfl,
      (destroyed_thread_forgotten_iff queuedRun 1 k' teardown hDestroy).mpr ?_⟩
    exact ⟨hCollected, fun i _ hi => absurd hi (hNone i), fun i hi => absurd hi (hNone i)⟩

/-- Thread 1 waits, thread 2 sends, and the delivery is not collected. -/
def uncollectedRun : List (Env × Op) :=
  [({}, .createThread 1 0), ({}, .createThread 2 0), ({}, .receive 1), ({}, .send 2 1)]

/-- The dead sender stays the partner of the thread it was delivered to. -/
theorem uncollectedRun_remembers_sender :
    ∃ k' teardown, (after Kernel.step {} uncollectedRun).destroyThread 2 = (k', .ok teardown) ∧
      ¬Forgotten (after Kernel.step {} uncollectedRun) 2 k' := by
  have hDestroyed : ((after Kernel.step {} uncollectedRun).destroyThread 2).2.isOk = true ∧
      ∃ slot ∈ ((after Kernel.step {} uncollectedRun).destroyThread 2).1.threads.slots,
        slot.occupied = true ∧ slot.partner = 2 := by decide +kernel
  obtain ⟨hOk, slot, hMem, hLive, hPeer⟩ := hDestroyed
  rcases hDestroy : (after Kernel.step {} uncollectedRun).destroyThread 2 with ⟨k', e | teardown⟩
  · rw [hDestroy] at hOk
    cases hOk
  · refine ⟨k', teardown, rfl, ?_⟩
    intro hForgotten
    rw [hDestroy] at hMem
    exact (hForgotten.threads slot hMem hLive).2 hPeer

end Enml.OsKernel
