import Enml.Safety.ExactlyOnce

/-! Whether a receive hands over a caller that is queued on its endpoint. The
table of pending calls keeps the calls in service beside the queued ones, and a
receive looks at the first call of the endpoint only. -/
namespace Enml.OsKernel

open Enml.Core IpcEndpointTable Rendezvous Kernel List Run

/-- The endpoint a send or receive reaches through its capability. -/
def Kernel.endpointOf (k : Kernel) : Op → Option IpcEndpoint
  | .ipcSend caller capability _ =>
    (k.ipc.endpointForCapability caller capability ipcRightSend k.capabilities).toOption
  | .ipcSendBound caller capability _ =>
    (k.ipc.endpointForBoundCapability caller capability ipcRightSend k.capabilities).toOption
  | .ipcReceive server capability =>
    (k.ipc.endpointForCapability server capability ipcRightReceive k.capabilities).toOption
  | .ipcReceiveBound server capability =>
    (k.ipc.endpointForBoundCapability server capability ipcRightReceive
      k.capabilities).toOption
  | _ => none

/-- The `i`th call of a run is a send to `e`, and it was accepted. -/
def SentAt (calls : List (Env × Op)) (i : ℕ) (e : IpcEndpoint) (caller : ThreadId)
    (request : IpcEnvelope) : Prop :=
  eventAt calls i = some (.sent caller request) ∧ ∃ call, calls[i]? = some call ∧
    (after Kernel.step {} (calls.take i)).endpointOf call.2 = some e

/-- After a run, the caller of `p` is blocked in the send `p` stands for, which
is the last send it made. -/
structure Queued (calls : List (Env × Op)) (e : IpcEndpoint) (server : ThreadId)
    (p : PendingSlot) : Prop where
  pending : p ∈ (after Kernel.step {} calls).ipc.calls
  endpoint : p.endpoint = e
  blocked : (after Kernel.step {} calls).threads.phase p.caller = some (.sendBlocked, server)
  sent : ∃ i, SentAt calls i e p.caller p.request ∧
    ∀ m, i < m → ∀ request, eventAt calls m ≠ some (.sent p.caller request)

/-- `server` is ready to receive from its own endpoint `e`. A seal and a
transaction are only needed where there is a caller to hand over. -/
structure MayReceive (calls : List (Env × Op)) (op : Op) (e : IpcEndpoint)
    (server : ThreadId) : Prop where
  receiver : op.receiver = some server
  capability : (after Kernel.step {} calls).endpointOf op = some e
  owner : ∃ slot, (after Kernel.step {} calls).ipc.slotFor e = some slot ∧
    slot.server = server ∧ slot.receiveWaiting = false
  ready : (after Kernel.step {} calls).threads.phase server = some (.ready, invalidThread)
  room : (∃ p, Queued calls e server p) →
    (∃ slot ∈ (after Kernel.step {} calls).ipc.replies, slot.active = false) ∧
      (after Kernel.step {} calls).ipc.nextTransaction ≠ 0 ∧
      (after Kernel.step {} calls).ipc.nextTransaction ≠ 0xFFFFFFFFFFFFFFFF

/-- A queued caller is handed over with the envelope it sent; where nobody is
queued the server blocks. -/
structure ReceiveProgress (calls : List (Env × Op)) (call : Env × Op) (e : IpcEndpoint)
    (server : ThreadId) : Prop where
  served : (∃ p, Queued calls e server p) → ∃ p received, Queued calls e server p ∧
    ((after Kernel.step {} calls).step call).2 = .received (.ok received) ∧
    received.caller = p.caller ∧ received.request = p.request
  blocked : (¬∃ p, Queued calls e server p) →
    (∃ received, ((after Kernel.step {} calls).step call).2 = .received (.ok received)) ∧
    ((after Kernel.step {} calls).step call).1.ipc.receiveWaiting e = true ∧
    ((after Kernel.step {} calls).step call).1.threads.phase server =
      some (.receiveBlocked, invalidThread)

/-- The first call of `e` in the table is a queued one. -/
def FirstIsQueued (calls : List (Env × Op)) (e : IpcEndpoint) (server : ThreadId) : Prop :=
  ∀ p, (after Kernel.step {} calls).ipc.pendingSlotAt e = some p → Queued calls e server p

namespace Rendezvous

variable {r : Rendezvous} {a b : ThreadId}

theorem acceptSender_of_phase {q : ThreadId} (hReady : r.phase a = some (.ready, q))
    (hBlocked : r.phase b = some (.sendBlocked, a)) :
    ∃ r', r.acceptSender a b = (r', .ok ()) := by
  obtain ⟨sa, ha, hState, -⟩ := phase_eq_some.mp hReady
  obtain ⟨sb, hb, hSending, hPeer⟩ := phase_eq_some.mp hBlocked
  have hab : a ≠ b := by
    rintro rfl
    rw [hReady] at hBlocked
    simp at hBlocked
  unfold acceptSender
  rw [if_neg (not_or.mpr ⟨ne_invalid_of_find ha, ne_invalid_of_find hb⟩), if_neg hab, ha, hb]
  simp [hState, hSending, hPeer]

theorem waitReceive_of_phase (hReady : r.phase a = some (.ready, invalidThread)) :
    ∃ r', r.waitReceive a = (r', .ok ()) := by
  obtain ⟨sa, ha, hState, hPeer⟩ := phase_eq_some.mp hReady
  unfold waitReceive
  rw [if_neg (ne_invalid_of_find ha), ha]
  simp [hState, hPeer]

end Rendezvous

namespace IpcEndpointTable

variable {t : IpcEndpointTable} {r : Rendezvous} {e : IpcEndpoint} {server : ThreadId}

/-- What a receive by a ready server without a delivered partner comes to. -/
theorem receiveFromEndpoint_of_ready (space : AddressSpaceIdentity) {owner : EndpointSlot}
    (hOwner : t.slotFor e = some owner) (hSrv : owner.server = server)
    (hWaiting : owner.receiveWaiting = false)
    (hReady : r.phase server = some (.ready, invalidThread)) :
    t.receiveFromEndpoint server space e r =
      match t.pendingSlotAt e with
      | some call => t.sealCall server space e call r (r.acceptSender server call.caller)
      | none => (({ t with
          endpoints := t.endpoints.modify e.slot.toNat fun slot =>
            { slot with receiveWaiting := true } }, (r.waitReceive server).1), .ok {}) := by
  obtain ⟨s, hs, -, hPeer⟩ := phase_eq_some.mp hReady
  obtain ⟨r', hWait⟩ := waitReceive_of_phase hReady
  have hPeerOf : r.partnerOf server = .ok invalidThread := by simp [partnerOf, hs, hPeer]
  unfold receiveFromEndpoint
  simp only [hOwner, hSrv, hWaiting, hPeerOf]
  cases t.pendingSlotAt e with
  | some => simp
  | none => simp [hWait]

theorem sealCall_of_room (e : IpcEndpoint) (server : ThreadId) (space : AddressSpaceIdentity)
    (call : PendingSlot) (r handed : Rendezvous)
    (hNext : t.nextTransaction ≠ 0 ∧ t.nextTransaction ≠ 0xFFFFFFFFFFFFFFFF)
    (hFree : ∃ slot ∈ t.replies, slot.active = false) :
    ∃ received, (t.sealCall server space e call r (handed, .ok ())).2 = .ok received ∧
      received.caller = call.caller ∧ received.request = call.request := by
  obtain ⟨slot, hSlot, hInactive⟩ := hFree
  obtain ⟨replies, hIns⟩ : ∃ replies, SlotTable.insert ReplySlot.key
      { replySeal := t.newSeal server space e call, active := true } t.replies =
        some replies := by
    rw [← Option.ne_none_iff_exists', ne_eq, SlotTable.insert_eq_none_iff]
    intro hFull
    exact hFull slot hSlot (by simp [ReplySlot.key, hInactive])
  rw [newSeal] at hIns
  unfold sealCall
  rw [if_neg (not_or.mpr hNext)]
  simp only [hIns]
  exact ⟨_, rfl, rfl, rfl⟩

end IpcEndpointTable

theorem eq_ok_of_toOption {α : Type} {x : Result α} {a : α} (h : x.toOption = some a) :
    x = .ok a := by
  cases x with
  | error => cases h
  | ok => rw [Option.some.inj h]

theorem Kernel.step_receive {k : Kernel} {op : Op} {server : ThreadId} {e : IpcEndpoint}
    (env : Env) (hRcvr : op.receiver = some server) (hEp : k.endpointOf op = some e) :
    ∃ space, (k.step (env, op)).2 =
        .received (k.ipc.receiveFromEndpoint server space e k.threads).2 ∧
      (k.step (env, op)).1.core =
        Core.commit (k.ipc.receiveFromEndpoint server space e k.threads) := by
  have hCommit : ∀ done : (IpcEndpointTable × Rendezvous) × Result IpcReceived,
      (k.commitIpc done fun k received => k.synchronisePair server received.caller).2 = done.2 ∧
      (k.commitIpc done fun k received => k.synchronisePair server received.caller).1.core =
        Core.commit done := by
    intro done
    refine ⟨?_, core_commitIpc k done fun k received => core_synchronisePair k _ _⟩
    obtain ⟨⟨t, r⟩, e | received⟩ := done <;> rfl
  cases op with
  | ipcReceive _ capability =>
    cases hRcvr
    refine ⟨{}, ?_⟩
    have hDone : k.ipc.receive server capability k.capabilities k.threads =
        k.ipc.receiveFromEndpoint server {} e k.threads := by
      rw [IpcEndpointTable.receive, eq_ok_of_toOption hEp]
    rw [← hDone]
    exact ⟨congrArg Outcome.received (hCommit _).1, (hCommit _).2⟩
  | ipcReceiveBound server' capability =>
    cases hRcvr
    refine ⟨server'.addressSpace, ?_⟩
    have hDone : k.ipc.receiveBound server' capability k.capabilities k.threads =
        k.ipc.receiveFromEndpoint server'.thread server'.addressSpace e k.threads := by
      rw [IpcEndpointTable.receiveBound, eq_ok_of_toOption hEp]
    rw [← hDone]
    exact ⟨congrArg Outcome.received (hCommit _).1, (hCommit _).2⟩
  | _ => cases hRcvr

variable {calls : List (Env × Op)} {e : IpcEndpoint} {server : ThreadId}
  {t : IpcEndpointTable} {p : PendingSlot} {k : Kernel} {op : Op} {caller : ThreadId}
  {request : IpcEnvelope} {outcome : Outcome}

theorem pendingSlotAt_isSome (hp : p ∈ t.calls) (he : p.endpoint = e) :
    (t.pendingSlotAt e).isSome := by
  rw [pendingSlotAt, List.find?_isSome]
  exact ⟨p, (mem_calls.mp hp).1, by simp [(mem_calls.mp hp).2, he]⟩

theorem pendingSlotAt_mem (h : t.pendingSlotAt e = some p) : p ∈ t.calls ∧ p.endpoint = e := by
  have hFound := List.find?_some h
  simp only [Bool.and_eq_true, beq_iff_eq] at hFound
  exact ⟨mem_calls.mpr ⟨mem_of_find?_eq_some h, hFound.1⟩, hFound.2⟩

/-- A receive hands over the first call of the endpoint or nothing at all. -/
theorem Kernel.receive_cases (env : Env)
    (hRcvr : op.receiver = some server) (hEp : k.endpointOf op = some e)
    (hOwner : ∃ slot, k.ipc.slotFor e = some slot ∧ slot.server = server ∧
      slot.receiveWaiting = false)
    (hReady : k.threads.phase server = some (.ready, invalidThread)) :
    (∃ p space, k.ipc.pendingSlotAt e = some p ∧
      (k.step (env, op)).2 = .received (k.ipc.sealCall server space e p k.threads
        (k.threads.acceptSender server p.caller)).2 ∧
      (k.step (env, op)).1.core = Core.commit (k.ipc.sealCall server space e p k.threads
        (k.threads.acceptSender server p.caller))) ∨
    (k.ipc.pendingSlotAt e = none ∧ (k.step (env, op)).2 = .received (.ok {}) ∧
      (k.step (env, op)).1.ipc.receiveWaiting e = true ∧
      (k.step (env, op)).1.threads.phase server = some (.receiveBlocked, invalidThread)) := by
  obtain ⟨slot, hSlot, hSrv, hWaiting⟩ := hOwner
  obtain ⟨space, hOutcome, hCore⟩ := step_receive env hRcvr hEp
  rw [receiveFromEndpoint_of_ready space hSlot hSrv hWaiting hReady] at hOutcome hCore
  cases hPending : k.ipc.pendingSlotAt e with
  | some p =>
    rw [hPending] at hOutcome hCore
    exact .inl ⟨p, space, rfl, hOutcome, hCore⟩
  | none =>
    rw [hPending] at hOutcome hCore
    refine .inr ⟨rfl, hOutcome, ?_, ?_⟩
    · change (k.step (env, op)).1.core.ipc.receiveWaiting e = true
      have hNew : (k.step (env, op)).1.core.ipc.slotFor e =
          some { slot with receiveWaiting := true } := by
        rw [hCore, slotFor_modify (t := k.ipc) (i := e.slot.toNat)
          (f := fun slot => { slot with receiveWaiting := true }) rfl
          (fun _ => ⟨rfl, rfl⟩) e, if_pos rfl, hSlot]
        rfl
      rw [receiveWaiting, hNew]
    · obtain ⟨r', hWait⟩ := waitReceive_of_phase hReady
      change (k.step (env, op)).1.core.threads.phase server = _
      rw [hCore]
      change (k.threads.waitReceive server).1.phase server = _
      rw [hWait, (phase_waitReceive hWait).2, if_pos rfl]

theorem receiveProgress_iff_first {env : Env} (hMay : MayReceive calls op e server) :
    ReceiveProgress calls (env, op) e server ↔ FirstIsQueued calls e server := by
  have hReady := hMay.ready
  rcases receive_cases env hMay.receiver hMay.capability hMay.owner hReady with
    ⟨p, space, hFirst, hOutcome, hCore⟩ | ⟨hNone, hOutcome, hWaiting, hPhase⟩
  · obtain ⟨hMem, hEp⟩ := pendingSlotAt_mem hFirst
    constructor
    · intro hProgress p' hp'
      rw [hFirst] at hp'
      cases hp'
      -- Whatever is promised, the code can only have handed over `p`.
      have hHanded : ∀ received, ((after Kernel.step {} calls).step (env, op)).2 =
          .received (.ok received) → received.caller = p.caller ∧ received.request = p.request ∧
          (after Kernel.step {} calls).threads.phase p.caller =
            some (.sendBlocked, server) := by
        intro received hRecvd
        rw [hOutcome, Outcome.received.injEq] at hRecvd
        obtain ⟨-, -, -, -, hAcc, rfl, -⟩ := sealCall_ok (Prod.ext rfl hRecvd)
        exact ⟨rfl, rfl, (phase_acceptSender hAcc).2.1⟩
      by_cases hSome : ∃ q, Queued calls e server q
      · obtain ⟨q, received, hq, hRecvd, hCaller, hReq⟩ := hProgress.served hSome
        obtain ⟨hCaller', hReq', hBlocked⟩ := hHanded received hRecvd
        have hSent := hq.sent
        rw [← hCaller, ← hReq, hCaller', hReq'] at hSent
        exact ⟨hMem, hEp, hBlocked, hSent⟩
      · obtain ⟨⟨received, hRecvd⟩, -, hPhase⟩ := hProgress.blocked hSome
        rw [hOutcome, Outcome.received.injEq] at hRecvd
        obtain ⟨-, -, -, -, hAcc, -, -⟩ := sealCall_ok (Prod.ext rfl hRecvd)
        obtain ⟨-, -, hne, hNew⟩ := phase_acceptSender hAcc
        have hStill : ((after Kernel.step {} calls).step (env, op)).1.core.threads.phase
            server = some (.ready, invalidThread) := by
          rw [hCore]
          exact (hNew server).trans (by rw [if_neg hne, hReady])
        change ((after Kernel.step {} calls).step (env, op)).1.core.threads.phase server = _
          at hPhase
        rw [hStill] at hPhase
        simp at hPhase
    · intro hQueued
      have hp := hQueued p hFirst
      obtain ⟨hFree, hNext⟩ := hMay.room ⟨p, hp⟩
      obtain ⟨r', hAcc⟩ := acceptSender_of_phase hReady hp.blocked
      refine ⟨fun _ => ?_, fun hNot => absurd ⟨p, hp⟩ hNot⟩
      obtain ⟨received, hRecvd, hCaller, hReq⟩ :=
        sealCall_of_room e server space p (after Kernel.step {} calls).threads r' hNext hFree
      rw [hAcc, hRecvd] at hOutcome
      exact ⟨p, received, hp, hOutcome, hCaller, hReq⟩
  · constructor
    · intro _ p hp
      rw [hNone] at hp
      cases hp
    · intro _
      refine ⟨?_, fun _ => ⟨⟨_, hOutcome⟩, hWaiting, hPhase⟩⟩
      rintro ⟨q, hq⟩
      have hSome := pendingSlotAt_isSome hq.pending hq.endpoint
      rw [hNone] at hSome
      cases hSome

theorem calls_of_send {space : AddressSpaceIdentity} {resolved : Result IpcEndpoint}
    {done : (IpcEndpointTable × Rendezvous) × Result Unit}
    (hDone : done = match resolved with
      | .error e => ((k.ipc, k.threads), .error e)
      | .ok endpoint => k.ipc.sendToEndpoint caller space endpoint k.threads request)
    {p : PendingSlot} (hp : p ∈ done.1.1.calls) :
    p ∈ k.ipc.calls ∨ (done.2 = .ok () ∧ resolved.toOption = some p.endpoint ∧
      p.caller = caller ∧ p.request = request) := by
  cases resolved with
  | error =>
    rw [hDone] at hp
    exact .inl hp
  | ok =>
    obtain ⟨⟨t, r⟩, error | ⟨⟩⟩ := done
    · obtain ⟨rfl, -⟩ := sendToEndpoint_error hDone.symm
      exact .inl hp
    obtain ⟨q, hCaller, hEp, hReq, -, hCalls, -⟩ := CallsTracked.calls_sendToEndpoint hDone.symm
    rcases mem_cons.mp (hCalls.mem_iff.mp hp) with rfl | hOld
    · exact .inr ⟨rfl, congrArg some hEp.symm, hCaller, hReq⟩
    · exact .inl hOld

theorem calls_of_effect {c c' : Core} {event : Option IpcEvent} (h : Effect c event c')
    (hNot : ∀ caller request, event ≠ some (.sent caller request)) {p : PendingSlot}
    (hp : p ∈ c'.ipc.calls) : p ∈ c.ipc.calls := by
  cases h with
  | quiet hQuiet => exact hQuiet.calls.subset hp
  | sent => exact absurd rfl (hNot _ _)
  | received hRecv hTx =>
    obtain ⟨q, -, hSealed⟩ := sealed_of_receive hRecv hTx
    obtain ⟨replies, -, hTbl⟩ := hSealed.table_eq
    rw [hTbl] at hp
    exact hp
  | replied hReply =>
    rw [(CallsTracked.calls_reply hReply).1] at hp
    exact mem_of_mem_eraseP hp
  | took => exact hp
  | ended => exact (Quiet.releaseThread c.ipc _ c.threads).calls.subset hp

theorem eq_of_succeeded {event event' : IpcEvent} (h : outcome.succeeded event = some event') :
    event = event' := by
  unfold Outcome.succeeded at h
  split at h
  · exact Option.some.inj h
  · exact Option.some.inj h
  · cases h

/-- Only the two sends contribute a send. -/
theorem sends_of_sent (h : ipcEvent op outcome = some (.sent caller request)) :
    (∃ capability, op = .ipcSend caller capability request) ∨
      ∃ holder capability, op = .ipcSendBound holder capability request ∧
        holder.thread = caller := by
  have hRecv : ∀ server space, outcome.handedOver server space ≠ some (.sent caller request) := by
    intro server space hEq
    unfold Outcome.handedOver at hEq
    split at hEq
    · split_ifs at hEq
      cases hEq
    · cases hEq
  have hTake : ∀ thread, outcome.taken thread ≠ some (.sent caller request) := by
    intro thread hEq
    unfold Outcome.taken at hEq
    split at hEq <;> cases hEq
  cases op with
  | ipcSend =>
    cases eq_of_succeeded h
    exact .inl ⟨_, rfl⟩
  | ipcSendBound =>
    cases eq_of_succeeded h
    exact .inr ⟨_, _, rfl, rfl⟩
  | ipcReceive | ipcReceiveBound => exact absurd h (hRecv _ _)
  | ipcTakeReply | ipcTakeReplyBound => exact absurd h (hTake _)
  | ipcReply | ipcReplyBound | ipcReplyTransaction | ipcReplyTransactionBound | destroyThread =>
    cases eq_of_succeeded h
  | _ => cases h

/-- A call is in the table before the step, or the step is its send. -/
theorem Kernel.calls_step (h : k.Structured) (env : Env) (op : Op) {p : PendingSlot}
    (hp : p ∈ (k.step (env, op)).1.ipc.calls) :
    p ∈ k.ipc.calls ∨ (ipcEvent op (k.step (env, op)).2 = some (.sent p.caller p.request) ∧
      k.endpointOf op = some p.endpoint) := by
  have hEffect := effect_step h.same env op
  change p ∈ (k.step (env, op)).1.core.ipc.calls at hp
  by_cases hSent : ∃ caller request, ipcEvent op (k.step (env, op)).2 = some (.sent caller request)
  · obtain ⟨caller, request, hEvent⟩ := hSent
    rw [hEvent]
    rcases sends_of_sent hEvent with ⟨capability, rfl⟩ | ⟨holder, capability, rfl, rfl⟩
    · have hCore : (k.step (env, .ipcSend caller capability request)).1.core = _ :=
        core_commitIpc k (k.ipc.send caller capability k.capabilities k.threads request)
          fun k (_ : Unit) => core_synchronise k
      rw [hCore] at hp
      rcases calls_of_send rfl hp with hOld | ⟨-, hEp, rfl, rfl⟩
      · exact .inl hOld
      · exact .inr ⟨rfl, hEp⟩
    · have hCore : (k.step (env, .ipcSendBound holder capability request)).1.core = _ :=
        core_commitIpc k (k.ipc.sendBound holder capability k.capabilities k.threads request)
          fun k (_ : Unit) => core_synchronise k
      rw [hCore] at hp
      rcases calls_of_send rfl hp with hOld | ⟨-, hEp, hCaller, rfl⟩
      · exact .inl hOld
      · exact .inr ⟨by rw [hCaller], hEp⟩
  · exact .inl (calls_of_effect hEffect (fun caller request hEq => hSent ⟨_, _, hEq⟩) hp)

theorem SentAt.append {i : ℕ} (h : SentAt calls i e caller request) (more : List (Env × Op)) :
    SentAt (calls ++ more) i e caller request := by
  obtain ⟨hEvent, call, hCall, hEp⟩ := h
  have hi := (List.getElem?_eq_some_iff.mp hCall).1
  have hTake : (calls ++ more).take i = calls.take i := take_append_of_le_length hi.le
  have hGet : (calls ++ more)[i]? = calls[i]? := List.getElem?_append_left hi
  refine ⟨?_, call, by rw [hGet, hCall], by rw [hTake, hEp]⟩
  rw [eventAt, hGet, hTake]
  exact hEvent

theorem pending_sent (calls : List (Env × Op)) :
    ∀ p ∈ (after Kernel.step {} calls).ipc.calls, ∃ i,
      SentAt calls i p.endpoint p.caller p.request := by
  induction calls using List.reverseRecOn with
  | nil =>
    have hEmpty : ({} : Kernel).ipc.calls = [] := by decide
    intro p hp
    change p ∈ ({} : Kernel).ipc.calls at hp
    rw [hEmpty] at hp
    cases hp
  | append_singleton calls call ih =>
    have hTake : (calls ++ [call]).take calls.length = calls := by simp
    have hGet : (calls ++ [call])[calls.length]? = some call := by simp
    intro p hp
    rw [after_append] at hp
    rcases calls_step (structured_run calls).final call.1 call.2 hp with
      hOld | ⟨hEvent, hEp⟩
    · obtain ⟨i, hi⟩ := ih p hOld
      exact ⟨i, hi.append [call]⟩
    · refine ⟨calls.length, ?_, call, hGet, by rw [hTake, hEp]⟩
      rw [eventAt, hGet, hTake]
      exact hEvent

theorem queued_of_last {calls : List (Env × Op)} {e : IpcEndpoint} {server : ThreadId}
    (hPending : p ∈ (after Kernel.step {} calls).ipc.calls)
    (hEp : p.endpoint = e)
    (hBlocked : (after Kernel.step {} calls).threads.phase p.caller =
      some (.sendBlocked, server)) {i : ℕ} (hSent : SentAt calls i e p.caller p.request)
    (hLast : ∀ m, i < m → m < calls.length → ∀ request,
      eventAt calls m ≠ some (.sent p.caller request)) :
    Queued calls e server p := by
  refine ⟨hPending, hEp, hBlocked, i, hSent, ?_⟩
  intro m hm request
  by_cases hLen : m < calls.length
  · exact hLast m hm hLen request
  · rw [eventAt_eq_none (Nat.le_of_not_lt hLen)]
    exact Option.some_ne_none _ |>.symm

/-- In every reachable state, a receive that is entitled to make progress does
so exactly when the first call of the endpoint in the table is a queued one.
Every call in the table carries the envelope of a send its caller made. -/
theorem receive_progress_iff (calls : List (Env × Op)) (call : Env × Op) (e : IpcEndpoint)
    (server : ThreadId) (hMay : MayReceive calls call.2 e server) :
    (ReceiveProgress calls call e server ↔ FirstIsQueued calls e server) ∧
      ∀ p ∈ (after Kernel.step {} calls).ipc.calls, ∃ i,
        SentAt calls i p.endpoint p.caller p.request :=
  ⟨receiveProgress_iff_first hMay, pending_sent calls⟩

/-- Threads 2 and 3 both call thread 1, and the first call is in service. -/
def inServiceRun : List (Env × Op) :=
  let endpoint := ipcObjectId { slot := 0, generation := 1 }
  [({}, .createThread 1 0), ({}, .createThread 2 0), ({}, .createThread 3 0),
   ({}, .createIpcEndpoint 1),
   ({}, .capability (.mint 1 endpoint ipcRightReceive false)),
   ({}, .capability (.mint 2 endpoint ipcRightSend false)),
   ({}, .capability (.mint 3 endpoint ipcRightSend false)),
   ({}, .ipcSend 3 3 { size := 1 }),
   ({}, .ipcSend 2 2 {}),
   ({}, .ipcReceive 1 1)]

/-- Before its first receive the server finds both callers queued. -/
theorem receive_progress_iff_queued :
    ReceiveProgress (inServiceRun.take 9) ({}, .ipcReceive 1 1) { slot := 0, generation := 1 }
      1 := by
  have hMay : MayReceive (inServiceRun.take 9) (.ipcReceive 1 1) { slot := 0, generation := 1 } 1 :=
    ⟨rfl, (by decide +kernel), ⟨{ server := 1, generation := 1, active := true },
      (by decide +kernel), rfl, rfl⟩, (by decide +kernel), fun _ => (by decide +kernel)⟩
  refine (receive_progress_iff (inServiceRun.take 9) ({}, .ipcReceive 1 1)
    { slot := 0, generation := 1 } 1 hMay).1.mpr ?_
  intro p hp
  have hFirst : (after Kernel.step {} (inServiceRun.take 9)).ipc.pendingSlotAt
      { slot := 0, generation := 1 } = some
        { endpoint := { slot := 0, generation := 1 }, caller := 3, server := 1,
          request := { size := 1 }, active := true } := by decide +kernel
  rw [hFirst] at hp
  cases hp
  refine queued_of_last (i := 7) (pendingSlotAt_mem hFirst).1 rfl (by decide +kernel)
    ⟨by decide +kernel, ({}, .ipcSend 3 3 { size := 1 }), rfl, by decide +kernel⟩ ?_
  intro m hm hLen request
  obtain rfl : m = 8 := by
    have hNine : (inServiceRun.take 9).length = 9 := rfl
    omega
  have hEvent : eventAt (inServiceRun.take 9) 8 = some (.sent 2 {}) := by decide +kernel
  rw [hEvent]
  simp

/-- The server may receive and caller 2 is queued, but the first call in the
table is the one in service. -/
theorem receive_stuck_behind_service :
    MayReceive inServiceRun (.ipcReceive 1 1) { slot := 0, generation := 1 } 1 ∧
      ¬ReceiveProgress inServiceRun ({}, .ipcReceive 1 1) { slot := 0, generation := 1 } 1 := by
  have hQueued : Queued inServiceRun { slot := 0, generation := 1 } 1
      { endpoint := { slot := 0, generation := 1 }, caller := 2, server := 1, active := true } := by
    refine queued_of_last (i := 8) (by decide +kernel) rfl (by decide +kernel)
      ⟨by decide +kernel, ({}, .ipcSend 2 2 {}), rfl, by decide +kernel⟩ ?_
    intro m hm hLen request hSent
    obtain rfl : m = 9 := by
      have hTen : inServiceRun.length = 10 := rfl
      omega
    have hRecvd : (eventAt inServiceRun 9).map (fun event => match event with
        | .received _ _ call => call.caller
        | _ => invalidThread) = some 3 := by decide +kernel
    rw [hSent] at hRecvd
    simp [invalidThread] at hRecvd
  refine ⟨?_, ?_⟩
  · exact ⟨rfl, (by decide +kernel), ⟨{ server := 1, generation := 1, active := true },
      (by decide +kernel), rfl, rfl⟩, (by decide +kernel), fun _ => (by decide +kernel)⟩
  · intro h
    obtain ⟨p, received, -, hRecvd, -⟩ := h.served ⟨_, hQueued⟩
    have hErr : ((after Kernel.step {} inServiceRun).step ({}, .ipcReceive 1 1)).2 =
        .received (.error (kernelError RendezvousErrors.notWaitingOnPeer)) := by decide +kernel
    rw [hErr] at hRecvd
    cases hRecvd

end Enml.OsKernel
