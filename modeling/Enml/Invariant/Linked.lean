import Enml.Invariant.Core

/-! Every call that is under way sits at a live endpoint and names the server
that owns it. This holds of every kernel state, whatever has been called. -/
namespace Enml.OsKernel

open SlotTable

namespace IpcEndpointTable

variable {e : IpcEndpoint} {slot : EndpointSlot} {server : ThreadId} {r r' : Rendezvous}
  {space : AddressSpaceIdentity}

structure Linked (t : IpcEndpointTable) : Prop where
  length : t.endpoints.length = maxIpcEndpoints
  named : ∀ slot ∈ t.endpoints, slot.active = true → slot.generation ≠ 0
  call : ∀ p ∈ t.calls, ∃ slot, t.slotFor p.endpoint = some slot ∧ slot.server = p.server

variable {i : Nat} {t t' : IpcEndpointTable} {waiting : Bool}

/-- A write to one slot that activates nothing keeps every generation named. -/
theorem named_modify {endpoints : List EndpointSlot} {f : EndpointSlot → EndpointSlot}
    (h : ∀ slot ∈ endpoints, slot.active = true → slot.generation ≠ 0)
    (hf : ∀ s, (f s).active = true → s.active = true ∧ (f s).generation = s.generation) :
    ∀ slot ∈ endpoints.modify i f, slot.active = true → slot.generation ≠ 0 := by
  intro slot hMem hActive
  obtain ⟨j, hj⟩ := List.mem_iff_getElem?.mp hMem
  rw [List.getElem?_modify] at hj
  cases hGet : endpoints[j]? with
  | none => simp [hGet] at hj
  | some s =>
    have hs := List.mem_of_getElem? hGet
    simp only [hGet, Option.map_eq_map, Option.map_some, Option.some.injEq] at hj
    split_ifs at hj
    · subst hj
      obtain ⟨hAct, hGen⟩ := hf s hActive
      rw [hGen]
      exact h s hs hAct
    · subst hj
      exact h s hs hActive

/-- What an operation may do to a linked table without a second look: change
flags of endpoints and drop calls. -/
theorem Linked.of_slotFor (h : t.Linked) (hLen : t'.endpoints.length = t.endpoints.length)
    (hNamed : ∀ slot ∈ t'.endpoints, slot.active = true → slot.generation ≠ 0)
    (hCalls : ∀ p ∈ t'.calls, p ∈ t.calls)
    (hSlot : ∀ p ∈ t'.calls, ∀ slot, t.slotFor p.endpoint = some slot →
      ∃ slot', t'.slotFor p.endpoint = some slot' ∧ slot'.server = slot.server) : t'.Linked := by
  refine ⟨hLen.trans h.length, hNamed, ?_⟩
  intro p hp
  obtain ⟨slot, hSlotFor, hSrv⟩ := h.call p (hCalls p hp)
  obtain ⟨slot', hSlotFor', hSrv'⟩ := hSlot p hp slot hSlotFor
  exact ⟨slot', hSlotFor', hSrv'.trans hSrv⟩

theorem slotFor_congr (h : t'.endpoints = t.endpoints) (e : IpcEndpoint) :
    t'.slotFor e = t.slotFor e := by
  unfold slotFor
  rw [h]

theorem Linked.of_endpoints_eq (h : t.Linked) (hEps : t'.endpoints = t.endpoints)
    (hCalls : ∀ p ∈ t'.calls, p ∈ t.calls) : t'.Linked := by
  refine h.of_slotFor (by rw [hEps]) (by rw [hEps]; exact h.named) hCalls ?_
  intro p _ slot hSlot
  exact ⟨slot, by rw [slotFor_congr hEps, hSlot], rfl⟩

/-- Setting or clearing a waiting flag keeps every name and its owner. -/
theorem slotFor_setWaiting
    (hEnds : t'.endpoints = t.endpoints.modify i fun s => { s with receiveWaiting := waiting })
    (e : IpcEndpoint) :
    t'.slotFor e = if e.slot.toNat = i then
      (t.slotFor e).map fun s => { s with receiveWaiting := waiting } else t.slotFor e :=
  slotFor_modify hEnds (fun _ => ⟨rfl, rfl⟩) e

theorem exists_slotFor_setWaiting
    (hEnds : t'.endpoints = t.endpoints.modify i fun s => { s with receiveWaiting := waiting })
    (hSlot : t.slotFor e = some slot) :
    ∃ slot', t'.slotFor e = some slot' ∧ slot'.server = slot.server := by
  rw [slotFor_setWaiting hEnds, hSlot]
  split_ifs
  · exact ⟨_, rfl, rfl⟩
  · exact ⟨slot, rfl, rfl⟩

/-- A generation below its last value has a successor that is not zero. -/
theorem generation_succ_ne_zero {g : UInt32} (h : g ≠ 0xFFFFFFFF) : g + 1 ≠ 0 := by
  intro hZero
  apply h
  have hSub : g = 0 - 1 := by
    rw [← hZero]
    exact (UInt32.add_sub_cancel g 1).symm
  rw [hSub]
  rfl

theorem Linked.create (h : t.Linked) (hCreate : t.create server = (t', .ok e)) : t'.Linked := by
  obtain ⟨-, i, slot, -, -, hGen, -, ht'⟩ := create_ok hCreate
  refine h.of_slotFor (by simp [ht']) ?_ ?_ ?_
  · intro slot' hMem hActive
    rw [ht'] at hMem
    rcases List.mem_or_eq_of_mem_set hMem with hMem | rfl
    · exact h.named slot' hMem hActive
    · exact generation_succ_ne_zero hGen
  · intro p hp
    rwa [ht'] at hp
  · intro p _ slot' hSlot
    exact ⟨slot', slotFor_create hCreate hSlot, rfl⟩

theorem Linked.closeEndpoint (h : t.Linked) (hLive : t.slotFor e = some slot) (r : Rendezvous) :
    (t.closeEndpoint e r).1.Linked := by
  refine h.of_slotFor (length_endpoints_closeEndpoint t e r) ?_ ?_ ?_
  · rw [endpoints_closeEndpoint]
    apply named_modify h.named
    intro s hActive
    cases hActive
  · intro p hp
    rw [calls_closeEndpoint] at hp
    exact (List.mem_filter.mp hp).1
  intro p hp slot' hSlot'
  rw [calls_closeEndpoint, List.mem_filter] at hp
  have hne : p.endpoint ≠ e := by simpa using hp.2
  refine ⟨slot', ?_, rfl⟩
  rw [slotFor_closeEndpoint, if_neg, hSlot']
  intro hSame
  exact hne (endpoint_eq_of_slotFor hSlot' hLive hSame)

theorem Linked.retire (h : t.Linked) (hRetire : t.retire server e r = ((t', r'), .ok ())) :
    t'.Linked := by
  obtain ⟨slot, r₁, hLive, -, -, -, rfl, -⟩ := retire_ok hRetire
  exact h.closeEndpoint hLive r₁

theorem calls_discardCompletedFor (t : IpcEndpointTable) (thread : ThreadId) :
    (t.discardCompletedFor thread).calls = t.calls := rfl

theorem Linked.releaseThread (h : t.Linked) (thread : ThreadId) (r : Rendezvous) :
    (t.releaseThread thread r).1.1.Linked := by
  apply releaseThread_induction _ (P := fun t _ => t.Linked) h
  · exact fun _ _ _ _ _ hLinked hRetire => hLinked.retire hRetire
  intro t r hLinked
  refine hLinked.of_endpoints_eq rfl ?_
  intro p hp
  rw [calls_discardCompletedFor, calls_dropPending] at hp
  exact (List.mem_filter.mp hp).1

theorem Linked.sendToEndpoint (h : t.Linked) {caller : ThreadId} {request : IpcEnvelope}
    (hSend : t.sendToEndpoint caller space e r request = ((t', r'), .ok ())) : t'.Linked := by
  obtain ⟨owner, pending, hOwner, -, hIns, -, ht'⟩ := sendToEndpoint_ok hSend
  have hPerm := entries_insert (by rfl) hIns
  have hEnds : t'.endpoints = t.endpoints.modify e.slot.toNat fun s =>
      { s with receiveWaiting := false } := by rw [ht']
  refine ⟨by simp [hEnds, h.length], ?_, ?_⟩
  · rw [hEnds]
    apply named_modify h.named
    intro s hActive
    exact ⟨hActive, rfl⟩
  intro p hp
  have hp : p ∈ entries PendingSlot.key pending := by rwa [ht'] at hp
  rw [hPerm.mem_iff, List.mem_cons] at hp
  rcases hp with rfl | hp
  · exact exists_slotFor_setWaiting hEnds hOwner
  · obtain ⟨slot, hSlot, hSrv⟩ := h.call p hp
    obtain ⟨slot', hSlot', hSrv'⟩ := exists_slotFor_setWaiting hEnds hSlot
    exact ⟨slot', hSlot', hSrv'.trans hSrv⟩

theorem Linked.receiveFromEndpoint (h : t.Linked) {received : IpcReceived}
    (hRecv : t.receiveFromEndpoint server space e r = ((t', r'), .ok received)) : t'.Linked := by
  obtain ⟨hPending, -, hEnds⟩ := receiveFromEndpoint_tables hRecv
  have hCalls : t'.calls = t.calls := congrArg (entries PendingSlot.key) hPending
  rcases hEnds with hEnds | hEnds
  · exact h.of_endpoints_eq hEnds fun p hp => hCalls ▸ hp
  refine h.of_slotFor (by simp [hEnds]) ?_ (fun p hp => hCalls ▸ hp) ?_
  · rw [hEnds]
    apply named_modify h.named
    intro s hActive
    exact ⟨hActive, rfl⟩
  · intro p _ slot hSlot
    exact exists_slotFor_setWaiting hEnds hSlot

theorem Linked.reply (h : t.Linked) {replySeal : IpcReplySeal} {response : IpcEnvelope}
    (hReply : t.reply server replySeal r response = ((t', r'), .ok ())) : t'.Linked := by
  obtain ⟨owner, completed, -, -, -, -, -, -, -, -, -, ht'⟩ := reply_ok hReply
  subst ht'
  refine h.of_endpoints_eq rfl ?_
  intro p hp
  have hp : p ∈ entries PendingSlot.key (updateFirst
      (PendingSlot.isCall replySeal.caller replySeal.endpoint) (fun _ => {}) t.pending) := hp
  rw [entries_updateFirst_free rfl] at hp
  · exact List.mem_of_mem_eraseP hp
  · intro s hs
    simp only [PendingSlot.isCall, Bool.and_eq_true] at hs
    rw [PendingSlot.key_isSome, hs.1.1]

end IpcEndpointTable

theorem linked_coreStep {c c' : Core} {op : CoreOp} (h : c.ipc.Linked) (hStep : CoreStep c op c') :
    c'.ipc.Linked := by
  cases hStep with
  | destroy t => exact h.releaseThread t c.threads
  | createEndpoint hCreate => exact h.create hCreate
  | retireEndpoint hRetire => exact h.retire hRetire
  | sendTo hSend => exact h.sendToEndpoint hSend
  | receiveFrom hRecv => exact h.receiveFromEndpoint hRecv
  | replyTo hReply => exact h.reply hReply
  | replyRefused | takeReply => exact h.of_endpoints_eq rfl fun p hp => hp
  | _ => exact h

/-- Linkage survives every core operation. -/
theorem linked_apply {c : Core} (h : c.ipc.Linked) (op : CoreOp) : (op.apply c).ipc.Linked :=
  linked_coreStep h (coreStep_apply c op)

theorem linked_foldl {ops : List CoreOp} {c : Core} (h : c.ipc.Linked) :
    (ops.foldl CoreOp.apply c).ipc.Linked := by
  induction ops generalizing c with
  | nil => exact h
  | cons op _ ih => exact ih (linked_apply h op)

end Enml.OsKernel
