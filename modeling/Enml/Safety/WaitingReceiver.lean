import Enml.Invariant.Phase
import Enml.Safety.RunQueue

/-! An endpoint that shows a waiting receiver has one. The flag is kept by the
endpoint table, the wait by the rendezvous and the deadline by the
continuations, so every way a wait can end has to reach the flag. -/
namespace Enml.OsKernel

open Enml.Core IpcEndpointTable Kernel List CoreOp IpcErrors

variable {i : Nat} {caller : ThreadId} {request : IpcEnvelope}

/-- Calls other than the three that reach the rendezvous without an endpoint. -/
def Op.UsesEndpoints : Op → Prop
  | .send .. | .receive .. | .reply .. => False
  | _ => True

def CoreOp.UsesEndpoints : CoreOp → Prop
  | .send .. | .receive .. | .reply .. => False
  | _ => True

theorem usesEndpoints_coreOps {k : Kernel} {env : Env} {op : Op} (h : op.UsesEndpoints)
    {c : CoreOp} (hc : c ∈ k.coreOps env op) : c.UsesEndpoints := by
  cases performs_of_mem hc with
  | send | receive | reply => exact h.elim
  | _ => trivial

/-- A flag is set only for a server that waits, and on one endpoint only. -/
structure WaitingReceivers (c : Core) : Prop where
  waits : ∀ server i, c.ipc.Flagged server i → c.threads.Waits server
  unique : ∀ server i j, c.ipc.Flagged server i → c.ipc.Flagged server j → i = j

namespace WaitingReceivers

open Rendezvous

variable {c c' : Core} {e : IpcEndpoint}
  {state : ThreadState} {r : Rendezvous} {t : IpcEndpointTable} {server : ThreadId}

/-- No new flag, and every server still flagged still waits. -/
theorem of_fewer (h : WaitingReceivers c)
    (hFlags : ∀ server i, c'.ipc.Flagged server i → c.ipc.Flagged server i)
    (hWaits : ∀ server i, c'.ipc.Flagged server i → c.threads.Waits server →
      c'.threads.Waits server) : WaitingReceivers c' := by
  refine ⟨?_, ?_⟩
  · intro server i hi
    exact hWaits server i hi (h.waits server i (hFlags server i hi))
  · intro server i j hi hj
    exact h.unique server i j (hFlags server i hi) (hFlags server j hj)

theorem retirable (h : WaitingReceivers c) (hLinked : c.ipc.Linked) (server : ThreadId) :
    Retirable server c.ipc c.threads :=
  ⟨hLinked, h.unique server, h.waits server⟩

theorem create (h : WaitingReceivers c) {t : ThreadId} {p : Priority}
    (hCreate : c.threads.createIn state t p = (r, .ok ())) :
    WaitingReceivers { c with threads := r } := by
  refine h.of_fewer (fun _ _ => id) ?_
  rintro server i - ⟨s, hs, hRest⟩
  have hne : server ≠ t := by
    rintro rfl
    rw [(createIn_ok hCreate).2.1] at hs
    cases hs
  exact ⟨s, by rw [find_createIn_ne hCreate hne, hs], hRest⟩

theorem retire (h : WaitingReceivers c)
    (hRetire : c.ipc.retire server e c.threads = ((t, r), .ok ())) : WaitingReceivers ⟨r, t⟩ := by
  obtain ⟨slot, r₁, hSlot, -, hSrv, hFirst, ht, hr⟩ := retire_ok hRetire
  refine h.of_fewer ?_ ?_
  · intro s i hi
    rw [ht, flagged_closeEndpoint_iff] at hi
    exact hi.2
  intro s i hi hWaits
  rw [ht, flagged_closeEndpoint_iff] at hi
  rw [hr, waits_cancelCalls]
  rcases hFirst with ⟨hWaiting, hCancel⟩ | ⟨-, rfl⟩
  · have hne : s ≠ server := by
      rintro rfl
      obtain ⟨hGet, -, hActive, -⟩ := slotFor_eq_some.mp hSlot
      exact hi.1 (h.unique s i _ hi.2 ⟨slot, hGet, hActive, hSrv, hWaiting⟩)
    exact (waits_endReceive_ne hCancel hne).mpr hWaits
  · exact hWaits

theorem retireAllOwnedBy (h : WaitingReceivers c) (server : ThreadId) :
    WaitingReceivers ⟨(c.ipc.retireAllOwnedBy server c.threads).1.2,
      (c.ipc.retireAllOwnedBy server c.threads).1.1⟩ :=
  retireAllOwnedBy_induction _ (P := fun t r => WaitingReceivers ⟨r, t⟩) h
    fun _ _ _ _ _ hWaiting hRetire => hWaiting.retire hRetire

/-- A thread's death takes its flags with it. -/
theorem destroy (h : WaitingReceivers c) (hLinked : c.ipc.Linked) (t : ThreadId) :
    WaitingReceivers (apply c (.destroy t)) := by
  rcases eq_or_ne t invalidThread with rfl | ht
  · have hExit := exitThread_of_find_none (find_invalid c.threads)
    simp only [apply, releaseThread_invalid, hExit]
    exact h
  have hAll := h.retireAllOwnedBy t
  have hClosed := (h.retirable hLinked t).retireAllOwnedBy ht
  simp only [apply, releaseThread_eq c.ipc c.threads ht]
  rcases hExit : (c.ipc.retireAllOwnedBy t c.threads).1.2.exitThread t with ⟨r, e | n⟩
  · obtain ⟨rfl, -⟩ := exitThread_error hExit
    exact hAll.of_fewer (fun _ _ => id) fun _ _ _ => id
  refine hAll.of_fewer (fun _ _ => id) ?_
  rintro server i hi ⟨s, hs, hState, hPeer⟩
  have hne : server ≠ t := by
    rintro rfl
    exact hClosed i (flagged_owns hi)
  have hKeep : s.release t = s := by
    unfold Slot.release
    rw [if_neg]
    simp only [Bool.and_eq_true, Slot.blockedOn_iff, not_and]
    rintro - - hPeer'
    exact ht (hPeer'.symm.trans hPeer)
  exact ⟨s, by rw [find_exitThread_ne hExit hne, hs, Option.map_some, hKeep], hState, hPeer⟩

theorem createEndpoint (h : WaitingReceivers c) (hCreate : c.ipc.create server = (t, .ok e)) :
    WaitingReceivers { c with ipc := t } := by
  obtain ⟨-, i, slot, hGet, -, -, -, rfl⟩ := create_ok hCreate
  refine h.of_fewer ?_ fun _ _ _ => id
  rintro s j ⟨slot', hGet', hActive, hSrv, hWaiting⟩
  rcases eq_or_ne i j with rfl | hij
  · rw [List.getElem?_set_self (List.getElem?_eq_some_iff.mp hGet).1] at hGet'
    cases hGet'
    cases hWaiting
  · rw [getElem?_set_ne hij] at hGet'
    exact ⟨slot', hGet', hActive, hSrv, hWaiting⟩

/-- Clearing a flag leaves exactly the flags of the other slots. -/
theorem flagged_clear_iff {t' : IpcEndpointTable} {n : Nat}
    (hEnds : t'.endpoints = t.endpoints.modify n fun s => { s with receiveWaiting := false })
    {server : ThreadId} :
    t'.Flagged server i ↔ i ≠ n ∧ t.Flagged server i := by
  unfold Flagged
  rw [hEnds, getElem?_modify]
  rcases eq_or_ne n i with rfl | hni
  · constructor
    · rintro ⟨slot, hGet, -, -, hWaiting⟩
      cases hOld : t.endpoints[n]? with
      | none => simp [hOld] at hGet
      | some =>
        simp only [hOld, if_true, Option.map_eq_map, Option.map_some, Option.some.injEq] at hGet
        subst hGet
        cases hWaiting
    · rintro ⟨hne, -⟩
      exact absurd rfl hne
  · cases t.endpoints[i]? with
    | none => simp
    | some => simp [hni, Ne.symm hni]

/-- A write to a thread that does not wait ends no wait. -/
theorem waits_of_phase {r' : Rendezvous} {a : ThreadId} {new : Option (ThreadState × ThreadId)}
    (hPhase : ∀ u, r'.phase u = if u = a then new else r.phase u) (hOld : ¬r.Waits a)
    {u : ThreadId} (hu : r.Waits u) : r'.Waits u := by
  rw [waits_iff_phase] at hu ⊢
  rw [hPhase, if_neg, hu]
  rintro rfl
  exact hOld (waits_iff_phase.mpr hu)

theorem not_waits_of_phase {a q : ThreadId} (h : r.phase a = some (state, q))
    (hState : state ≠ .receiveBlocked) : ¬r.Waits a := by
  rw [waits_iff_phase, h]
  simp [hState]

variable {space : AddressSpaceIdentity}

theorem sendTo (h : WaitingReceivers c)
    (hSend : c.ipc.sendToEndpoint caller space e c.threads request = ((t, r), .ok ())) :
    WaitingReceivers ⟨r, t⟩ := by
  obtain ⟨owner, pending, hOwner, -, -, hSent, ht⟩ := sendToEndpoint_ok hSend
  have hEnds : t.endpoints = c.ipc.endpoints.modify e.slot.toNat fun s =>
      { s with receiveWaiting := false } := by rw [ht]
  refine h.of_fewer (fun s i hi => ((flagged_clear_iff hEnds).mp hi).2) ?_
  intro s i hi hWaits
  obtain ⟨hne, hOld⟩ := (flagged_clear_iff hEnds).mp hi
  rcases hSent with ⟨hWaiting, hDeliver⟩ | ⟨-, hBlock⟩
  · obtain ⟨q, hReady, -, -, hPhase⟩ := phase_deliverWaitingReceiver hDeliver
    have hSrv : s ≠ owner.server := by
      rintro rfl
      obtain ⟨hGet, -, hActive, -⟩ := slotFor_eq_some.mp hOwner
      exact hne (h.unique _ i _ hOld ⟨owner, hGet, hActive, rfl, hWaiting⟩)
    have hCaller : s ≠ caller := by
      rintro rfl
      exact not_waits_of_phase hReady (by simp) hWaits
    rw [waits_iff_phase] at hWaits ⊢
    rw [hPhase, if_neg hSrv, if_neg hCaller, hWaits]
  · obtain ⟨q, hReady, -, hPhase⟩ := phase_blockSend hBlock
    exact waits_of_phase hPhase (not_waits_of_phase hReady (by simp)) hWaits

/-- A receive that has to wait is the only step that sets a flag. -/
theorem wait (h : WaitingReceivers c) {owner : EndpointSlot}
    (hOwner : c.ipc.slotFor e = some owner) (hSrv : owner.server = server)
    (hWait : c.threads.waitReceive server = (r, .ok ())) :
    WaitingReceivers ⟨r, { c.ipc with
      endpoints := c.ipc.endpoints.modify e.slot.toNat fun slot =>
        { slot with receiveWaiting := true } }⟩ := by
  obtain ⟨hReady, hPhase⟩ := phase_waitReceive hWait
  have hNot : ¬c.threads.Waits server := not_waits_of_phase hReady (by simp)
  have hFlag : ∀ u i, { c.ipc with endpoints := c.ipc.endpoints.modify e.slot.toNat fun slot =>
      { slot with receiveWaiting := true } }.Flagged u i →
      c.ipc.Flagged u i ∨ (u = server ∧ i = e.slot.toNat) := by
    rintro u i ⟨slot, hGet, hActive, hOwner', hWaiting⟩
    rw [getElem?_modify] at hGet
    rcases eq_or_ne e.slot.toNat i with rfl | hi
    · right
      refine ⟨?_, rfl⟩
      have hOld := (slotFor_eq_some.mp hOwner).1
      simp only [hOld, if_true, Option.map_eq_map, Option.map_some, Option.some.injEq] at hGet
      subst hGet
      exact hOwner'.symm.trans hSrv
    · left
      refine ⟨slot, ?_, hActive, hOwner', hWaiting⟩
      cases hOld : c.ipc.endpoints[i]? with
      | none => simp [hOld] at hGet
      | some => simpa [hOld, hi] using hGet
  refine ⟨?_, ?_⟩
  · intro u i hi
    rcases hFlag u i hi with hi | ⟨rfl, -⟩
    · exact waits_of_phase hPhase hNot (h.waits u i hi)
    · rw [waits_iff_phase]
      rw [hPhase, if_pos rfl]
  · intro u i j hi hj
    rcases hFlag u i hi with hOldI | ⟨rfl, rfl⟩
    · rcases hFlag u j hj with hOldJ | ⟨rfl, rfl⟩
      · exact h.unique u i j hOldI hOldJ
      · exact absurd (h.waits u i hOldI) hNot
    · rcases hFlag u j hj with hOldJ | ⟨-, rfl⟩
      · exact absurd (h.waits u j hOldJ) hNot
      · rfl

theorem receiveFrom (h : WaitingReceivers c) {received : IpcReceived}
    (hRecv : c.ipc.receiveFromEndpoint server space e c.threads = ((t, r), .ok received)) :
    WaitingReceivers ⟨r, t⟩ := by
  obtain ⟨owner, s, hOwner, hSrv, -, hs, hReady, hCase⟩ := receiveFromEndpoint_ok hRecv
  rcases hCase with ⟨-, call, -, hSealed, rfl⟩ | ⟨-, call, -, hSealed, hAccept⟩ |
    ⟨-, -, -, hWait, rfl⟩
  · obtain ⟨replies, -, rfl⟩ := hSealed.table_eq
    refine h.of_fewer (fun _ _ => id) ?_
    intro u i _ hWaits
    exact waits_of_phase (phase_collect hs)
      (not_waits_of_phase (phase_of_find hs) (by simp [hReady])) hWaits
  · obtain ⟨replies, -, rfl⟩ := hSealed.table_eq
    obtain ⟨-, hQueued, -, hPhase⟩ := phase_acceptSender hAccept
    refine h.of_fewer (fun _ _ => id) ?_
    intro u i _ hWaits
    exact waits_of_phase hPhase (not_waits_of_phase hQueued (by simp)) hWaits
  · exact h.wait hOwner hSrv hWait

theorem replyTo (h : WaitingReceivers c) {replySeal : IpcReplySeal} {response : IpcEnvelope}
    (hReply : c.ipc.reply server replySeal c.threads response = ((t, r), .ok ())) :
    WaitingReceivers ⟨r, t⟩ := by
  obtain ⟨-, -, -, -, -, -, -, -, -, -, hReplied, rfl⟩ := reply_ok hReply
  obtain ⟨hBlocked, -, hPhase⟩ := phase_reply hReplied
  refine h.of_fewer (fun _ _ => id) ?_
  intro u i _ hWaits
  exact waits_of_phase hPhase (not_waits_of_phase hBlocked (by simp)) hWaits

/-- One core operation, apart from the wake that forgets the flag. -/
theorem coreStep (h : WaitingReceivers c) (hLinked : c.ipc.Linked) {op : CoreOp}
    (hStep : CoreStep c op c') (hOp : op.UsesEndpoints)
    (hExpire : ∀ server, op = .expire server → ¬c.threads.Waits server) : WaitingReceivers c' := by
  cases hStep with
  | refused => exact h
  | create hCreate => exact h.create hCreate
  | start hStart =>
    obtain ⟨q, hOld, hPhase⟩ := phase_startThread hStart
    refine h.of_fewer (fun _ _ => id) ?_
    intro u i _ hWaits
    exact waits_of_phase hPhase (not_waits_of_phase hOld (by simp)) hWaits
  | destroy t => exact h.destroy hLinked t
  | send | receive | reply => exact hOp.elim
  | createEndpoint hCreate => exact h.createEndpoint hCreate
  | retireEndpoint hRetire => exact h.retire hRetire
  | sendTo hSend => exact h.sendTo hSend
  | receiveFrom hRecv => exact h.receiveFrom hRecv
  | replyTo hReply => exact h.replyTo hReply
  | replyRefused | takeReply => exact h.of_fewer (fun _ _ => id) fun _ _ _ => id
  | expire hEnd => exact absurd (endReceive_ok_iff.mp ⟨_, hEnd⟩) (hExpire _ rfl)
  | takeExpiry t =>
    refine h.of_fewer (fun _ _ => id) ?_
    intro u i _ hWaits
    rw [waits_iff_phase] at hWaits ⊢
    rw [phase_takeDeadlineExpiry, hWaits]

theorem foldl {ops : List CoreOp} (h : WaitingReceivers c) (hLinked : c.ipc.Linked)
    (hOps : ∀ op ∈ ops, op.UsesEndpoints)
    (hExpire : ∀ server, .expire server ∈ ops → ops = [.expire server] ∧ ¬c.threads.Waits server) :
    WaitingReceivers (ops.foldl apply c) := by
  induction ops generalizing c with
  | nil => exact h
  | cons op _ ih =>
    rw [foldl_cons]
    apply ih
    · apply h.coreStep hLinked (coreStep_apply c op) (hOps op mem_cons_self)
      rintro server rfl
      exact (hExpire server mem_cons_self).2
    · exact linked_apply hLinked op
    · intro op' hop'
      exact hOps op' (mem_cons_of_mem _ hop')
    intro server hMem
    obtain ⟨hEq, -⟩ := hExpire server (mem_cons_of_mem _ hMem)
    rw [cons.injEq] at hEq
    rw [hEq.2] at hMem
    cases hMem

end WaitingReceivers

variable {k : Kernel} {server : ThreadId} {t : IpcEndpointTable} {r : Rendezvous}
  {space : AddressSpaceIdentity} {e : IpcEndpoint}

/-- Only an expiry call expires anything, and then that is all it does. -/
theorem expire_mem_coreOps {env : Env} {op : Op} (h : expire server ∈ k.coreOps env op)
    (hNot : ¬WakesExpiredReceiver k op) :
    k.coreOps env op = [.expire server] ∧ ¬k.threads.Waits server := by
  cases performs_of_mem h with
  | @expire now armed hArmed =>
    refine ⟨by simp [coreOps, hArmed], ?_⟩
    rintro ⟨s, hs, hState, hPeer⟩
    exact hNot ⟨now, armed, s, rfl, hArmed, hs, hState, hPeer⟩

/-- Only waking an expired receiver can leave a flag behind. -/
theorem WaitingReceivers.step (h : WaitingReceivers k.core) (hk : k.Structured) (env : Env)
    (op : Op) (hOp : op.UsesEndpoints) (hNot : ¬WakesExpiredReceiver k op) :
    WaitingReceivers (k.step (env, op)).1.core := by
  rw [core_step hk.same]
  exact h.foldl hk.linked (fun c hc => usesEndpoints_coreOps hOp hc)
    fun server hMem => expire_mem_coreOps hMem hNot

/-- A send through one endpoint leaves the flags of all others as they are. -/
theorem flagged_sendToEndpoint {t' : IpcEndpointTable} {r' : Rendezvous} {result : Result Unit}
    (hSend : t.sendToEndpoint caller space e r request = ((t', r'), result)) {server : ThreadId}
    (hi : i ≠ e.slot.toNat) (hFlag : t.Flagged server i) : t'.Flagged server i := by
  cases result with
  | error =>
    obtain ⟨rfl, -⟩ := sendToEndpoint_error hSend
    exact hFlag
  | ok =>
    obtain ⟨owner, pending, -, -, -, -, ht⟩ := sendToEndpoint_ok hSend
    have hEnds : t'.endpoints = t.endpoints.modify e.slot.toNat fun s =>
        { s with receiveWaiting := false } := by rw [ht]
    exact (WaitingReceivers.flagged_clear_iff hEnds).mpr ⟨hi, hFlag⟩

theorem flagged_commitIpc {done : (IpcEndpointTable × Rendezvous) × Result Unit}
    (h : done.1.1.Flagged server i) :
    (k.commitIpc done fun k _ => k.synchronise).1.ipc.Flagged server i := by
  have hCore := core_commitIpc k done fun k (_ : Unit) => core_synchronise k
  have hIpc : (k.commitIpc done fun k _ => k.synchronise).1.ipc = done.1.1 :=
    congrArg Core.ipc hCore
  rw [hIpc]
  exact h

/-- The one refusal that a server with a stale flag would meet. -/
def alreadyWaiting : Error := kernelError receiveAlreadyWaiting

theorem acceptSender_ne_alreadyWaiting (r : Rendezvous) (a b : ThreadId) :
    (r.acceptSender a b).2 ≠ .error alreadyWaiting := by
  unfold Rendezvous.acceptSender
  repeat' split
  all_goals first
    | exact kernelError_ne (by decide)
    | simp

theorem waitReceive_ne_alreadyWaiting (r : Rendezvous) (a : ThreadId) :
    (r.waitReceive a).2 ≠ .error alreadyWaiting := by
  unfold Rendezvous.waitReceive
  repeat' split
  all_goals first
    | exact kernelError_ne (by decide)
    | simp

theorem sealCall_ne_alreadyWaiting {call : IpcEndpointTable.PendingSlot}
    {handed : Rendezvous × Result Unit} (hHanded : handed.2 ≠ .error alreadyWaiting) :
    (t.sealCall server space e call r handed).2 ≠ .error alreadyWaiting := by
  unfold sealCall
  split
  · exact kernelError_ne (by decide)
  dsimp only
  split
  · exact kernelError_ne (by decide)
  split
  · simpa using hHanded
  · simp

theorem receiveFromEndpoint_ne_alreadyWaiting (hFlag : ∀ i, ¬t.Flagged server i) :
    (t.receiveFromEndpoint server space e r).2 ≠ .error alreadyWaiting := by
  unfold receiveFromEndpoint
  split
  · exact kernelError_ne (by decide)
  rename_i owner hOwner
  split
  · exact kernelError_ne (by decide)
  rename_i hSrv
  split
  · rename_i hWaiting
    obtain ⟨hGet, -, hActive, -⟩ := slotFor_eq_some.mp hOwner
    exact absurd ⟨owner, hGet, hActive, by simpa using hSrv, hWaiting⟩ (hFlag _)
  split
  · rename_i hPeer
    unfold Rendezvous.partnerOf at hPeer
    split at hPeer
    · cases hPeer
      exact kernelError_ne (by decide)
    · cases hPeer
  rename_i hPeer
  split
  · rename_i hd0
    split
    · exact kernelError_ne (by decide)
    apply sealCall_ne_alreadyWaiting
    unfold consumeDelivered
    split
    · exact kernelError_ne (by decide)
    split
    · exact kernelError_ne (by decide)
    · simp
  split
  · apply sealCall_ne_alreadyWaiting
    exact acceptSender_ne_alreadyWaiting r server _
  split
  · rename_i hWait
    have hNot := waitReceive_ne_alreadyWaiting r server
    rw [hWait] at hNot
    simpa using hNot
  · simp

theorem decodeEndpointObject_ne_alreadyWaiting (object : ObjectId) :
    decodeEndpointObject object ≠ .error alreadyWaiting := by
  unfold decodeEndpointObject
  split
  · exact kernelError_ne (by decide)
  dsimp only
  split
  · exact kernelError_ne (by decide)
  · simp

theorem endpointOfObject_ne_alreadyWaiting (t : IpcEndpointTable) (info : CapabilityInfo)
    (required : Rights) : t.endpointOfObject info required ≠ .error alreadyWaiting := by
  unfold endpointOfObject
  split
  · exact kernelError_ne (by decide)
  cases hDecode : decodeEndpointObject info.object with
  | error =>
    have hNot := decodeEndpointObject_ne_alreadyWaiting info.object
    rw [hDecode] at hNot
    simpa using hNot
  | ok =>
    dsimp only
    split
    · exact kernelError_ne (by decide)
    · simp

theorem receive_ne_alreadyWaiting {found : Result IpcEndpoint}
    {next : IpcEndpoint → (IpcEndpointTable × Rendezvous) × Result IpcReceived}
    {after : Kernel → IpcReceived → Kernel} (hFound : found ≠ .error alreadyWaiting)
    (hNext : ∀ endpoint, (next endpoint).2 ≠ .error alreadyWaiting) :
    (k.commitIpc (match found with
      | .error e => ((k.ipc, k.threads), .error e)
      | .ok endpoint => next endpoint) after).2 ≠ .error alreadyWaiting := by
  have hSnd : ∀ done, (k.commitIpc done after).2 = done.2 := by
    intro done
    unfold commitIpc
    split <;> rfl
  rw [hSnd]
  cases found with
  | error => simpa using hFound
  | ok endpoint => exact hNext endpoint

theorem ipcReceive_ne_alreadyWaiting (hFlag : ∀ i, ¬k.ipc.Flagged server i)
    (capability : CapabilityId) : (k.ipcReceive server capability).2 ≠ .error alreadyWaiting := by
  refine receive_ne_alreadyWaiting ?_ fun _ => receiveFromEndpoint_ne_alreadyWaiting hFlag
  unfold endpointForCapability
  repeat' split
  all_goals first
    | exact kernelError_ne (by decide)
    | exact endpointOfObject_ne_alreadyWaiting _ _ _

theorem ipcReceiveBound_ne_alreadyWaiting {server : ExecutionAuthority}
    (hFlag : ∀ i, ¬k.ipc.Flagged server.thread i) (capability : CapabilityId) :
    (k.ipcReceiveBound server capability).2 ≠ .error alreadyWaiting := by
  refine receive_ne_alreadyWaiting ?_ fun _ => receiveFromEndpoint_ne_alreadyWaiting hFlag
  unfold endpointForBoundCapability
  repeat' split
  all_goals first
    | exact kernelError_ne (by decide)
    | exact endpointOfObject_ne_alreadyWaiting _ _ _

/-- Sends through an endpoint in slot `n` complete no receive waiting elsewhere. -/
def SendsIsolated (k : Kernel) : Prop :=
  ∀ server i, k.ipc.Flagged server i → (∀ caller capability request endpoint,
      k.ipc.endpointForCapability caller capability ipcRightSend k.capabilities = .ok endpoint →
      i ≠ endpoint.slot.toNat →
      (k.ipcSend caller capability request).1.ipc.Flagged server i ∧
        (k.ipcSend caller capability request).1.threads.Waits server) ∧
    (∀ caller capability request endpoint,
      k.ipc.endpointForBoundCapability caller capability ipcRightSend k.capabilities =
        .ok endpoint →
      i ≠ endpoint.slot.toNat →
      (k.ipcSendBound caller capability request).1.ipc.Flagged server i ∧
        (k.ipcSendBound caller capability request).1.threads.Waits server)

/-- A ready server is never told that it is already waiting. -/
def ReadyServersMayReceive (k : Kernel) : Prop :=
  (∀ server capability, k.threads.stateOf server = .ok .ready →
    (k.ipcReceive server capability).2 ≠ .error (kernelError receiveAlreadyWaiting)) ∧
  (∀ (server : ExecutionAuthority) capability, k.threads.stateOf server.thread = .ok .ready →
    (k.ipcReceiveBound server capability).2 ≠ .error (kernelError receiveAlreadyWaiting))

theorem WaitingReceivers.sendsIsolated (h : WaitingReceivers k.core) (hk : k.Structured) :
    SendsIsolated k := by
  intro server i hFlag
  refine ⟨?_, ?_⟩
  · intro caller capability request endpoint hResolve hi
    have hKept : (k.ipcSend caller capability request).1.ipc.Flagged server i := by
      apply flagged_commitIpc
      unfold IpcEndpointTable.send
      rw [hResolve]
      exact flagged_sendToEndpoint rfl hi hFlag
    refine ⟨hKept, ?_⟩
    have hNext := h.step hk {} (.ipcSend caller capability request) trivial
      (by rintro ⟨_, _, _, hOp, -⟩; cases hOp)
    exact hNext.waits server i hKept
  · intro caller capability request endpoint hResolve hi
    have hKept : (k.ipcSendBound caller capability request).1.ipc.Flagged server i := by
      apply flagged_commitIpc
      unfold sendBound
      rw [hResolve]
      exact flagged_sendToEndpoint rfl hi hFlag
    refine ⟨hKept, ?_⟩
    have hNext := h.step hk {} (.ipcSendBound caller capability request) trivial
      (by rintro ⟨_, _, _, hOp, -⟩; cases hOp)
    exact hNext.waits server i hKept

theorem WaitingReceivers.not_flagged_of_ready (h : WaitingReceivers k.core) {server : ThreadId}
    (hReady : k.threads.stateOf server = .ok .ready) (i : Nat) : ¬k.ipc.Flagged server i := by
  intro hFlag
  obtain ⟨s, hs, hState, -⟩ := h.waits server i hFlag
  have hs : k.threads.find server = some s := hs
  unfold Rendezvous.stateOf at hReady
  rw [hs] at hReady
  simp [hState] at hReady

theorem waitingReceivers_empty : WaitingReceivers ({} : Kernel).core := by
  have hEps : ∀ slot ∈ ({} : IpcEndpointTable).endpoints, slot.active = false := by decide
  have hNone : ∀ server i, ¬({} : IpcEndpointTable).Flagged server i := by
    rintro server i ⟨slot, hGet, hActive, -⟩
    rw [hEps slot (mem_of_getElem? hGet)] at hActive
    cases hActive
  exact ⟨fun server i hi => absurd hi (hNone server i),
    fun server i _ hi _ => absurd hi (hNone server i)⟩

/-- In every run of endpoint calls that wakes no receiver by deadline, flags
and waits agree in every state, and both callers can rely on it. -/
theorem waiting_receivers_coherent (calls : List (Env × Op))
    (hOps : ∀ call ∈ calls, call.2.UsesEndpoints)
    (hExpiry : Run.EachStep step (fun k call => ¬WakesExpiredReceiver k call.2) {} calls) :
    Run.Always step
      (fun k => WaitingReceivers k.core ∧ SendsIsolated k ∧ ReadyServersMayReceive k) {} calls := by
  have hStruct := structured_run calls
  have hBoth : Run.Always step (fun k => k.Structured ∧ WaitingReceivers k.core) {} calls := by
    refine Run.always_of_step (C := fun k call => call.2.UsesEndpoints ∧
      ¬WakesExpiredReceiver k call.2) ⟨structured_empty, waitingReceivers_empty⟩ ?_ ?_
    · rintro k ⟨env, op⟩ ⟨hk, hWaiting⟩ ⟨hOp, hNot⟩
      exact ⟨hk.step (env, op), hWaiting.step hk env op hOp hNot⟩
    · intro n call hCall
      exact ⟨hOps call (mem_of_getElem? hCall), hExpiry n call hCall⟩
  intro n
  obtain ⟨hk, hWaiting⟩ := hBoth n
  refine ⟨hWaiting, hWaiting.sendsIsolated hk, ?_, ?_⟩
  · intro server capability hReady
    exact ipcReceive_ne_alreadyWaiting (hWaiting.not_flagged_of_ready hReady) capability
  · intro server capability hReady
    exact ipcReceiveBound_ne_alreadyWaiting (hWaiting.not_flagged_of_ready hReady) capability

/-- The expiry leaves the flag of a server that is ready again, and the next
receive of that server is refused. -/
theorem expiryRun_flag_stale :
    (∀ call ∈ expiryRun, call.2.UsesEndpoints) ∧
      ¬Run.Always step (fun k => WaitingReceivers k.core) {} expiryRun ∧
      ((Run.after step {} expiryRun).ipcReceive 1 1).2 =
        .error (kernelError receiveAlreadyWaiting) := by
  refine ⟨?_, ?_, by decide +kernel⟩
  · intro call hCall
    simp only [expiryRun, mem_cons, not_mem_nil, or_false] at hCall
    rcases hCall with rfl | rfl | rfl | rfl | rfl | rfl <;> trivial
  · intro h
    have hSlot : (Run.after step {} (expiryRun.take 6)).ipc.endpoints[0]? =
        some { server := 1, generation := 1, active := true, receiveWaiting := true } := by
      decide +kernel
    have hReady : (Run.after step {} (expiryRun.take 6)).threads.stateOf 1 =
        .ok .ready := by decide +kernel
    exact (h 6).not_flagged_of_ready hReady 0 ⟨_, hSlot, rfl, rfl, rfl⟩

/-- A server that has armed a deadline and waits, before that deadline passes,
meets both conditions. -/
theorem waiting_receivers_coherent_without_expiry :
    Run.Always step
      (fun k => WaitingReceivers k.core ∧ SendsIsolated k ∧ ReadyServersMayReceive k) {}
      (expiryRun.take 5) := by
  apply waiting_receivers_coherent
  · intro call hCall
    simp only [expiryRun, take, mem_cons, not_mem_nil, or_false] at hCall
    rcases hCall with rfl | rfl | rfl | rfl | rfl <;> trivial
  · intro n call hCall
    rintro ⟨now, armed, slot, hOp, -⟩
    have hMem := mem_of_getElem? hCall
    simp only [expiryRun, take, mem_cons, not_mem_nil, or_false] at hMem
    rcases hMem with rfl | rfl | rfl | rfl | rfl <;> cases hOp

end Enml.OsKernel
