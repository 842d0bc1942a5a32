import Enml.Safety.WaitingReceiver

/-! The calls under way and the seals made for them. A call is dropped exactly
when its caller is released, and a seal exists only for a caller that awaits
the reply. -/
namespace Enml.OsKernel

open Enml.Core IpcEndpointTable Rendezvous List Kernel SlotTable PendingSlot List.Sublist

/-- `server` has been handed the call of `q` and has not collected it yet. -/
def Rendezvous.Holds (r : Rendezvous) (server q : ThreadId) : Prop :=
  ∃ state, r.phase server = some (state, q) ∧ state ≠ .sendBlocked ∧ state ≠ .replyBlocked ∧
    r.phase q = some (.replyBlocked, server)

/-- `server` would collect as delivered a caller that is still queueing. -/
def Rendezvous.HoldsQueued (r : Rendezvous) (server : ThreadId) : Prop :=
  ∃ q, r.phase server = some (.ready, q) ∧ r.phase q = some (.sendBlocked, server)

structure CallsTracked (c : Core) : Prop where
  foreign : ∀ p ∈ c.ipc.calls, p.caller ≠ p.server
  blocked : ∀ p ∈ c.ipc.calls, c.threads.phase p.caller = some (.sendBlocked, p.server) ∨
    c.threads.phase p.caller = some (.replyBlocked, p.server)
  callers : (c.ipc.calls.map (·.caller)).Nodup
  sealed : ∀ x ∈ c.ipc.seals, ∃ p ∈ c.ipc.calls, p.caller = x.replySeal.caller ∧
    p.endpoint = x.replySeal.endpoint ∧ p.server = x.replySeal.server
  answered : ∀ x ∈ c.ipc.seals,
    c.threads.phase x.replySeal.caller = some (.replyBlocked, x.replySeal.server)
  sealers : (c.ipc.seals.map (·.replySeal.caller)).Nodup
  uncollected : ∀ server q, c.threads.Holds server q → ∀ x ∈ c.ipc.seals, x.replySeal.caller ≠ q

namespace CallsTracked

variable {c c' : Core} {p : PendingSlot}
  {q thread : ThreadId} {state : ThreadState} {request response : IpcEnvelope}
  {received : IpcReceived} {replySeal : IpcReplySeal}

theorem call_eq (h : CallsTracked c) {q : PendingSlot} (hp : p ∈ c.ipc.calls)
    (hq : q ∈ c.ipc.calls) (hCaller : p.caller = q.caller) : p = q :=
  inj_on_of_nodup_map h.callers hp hq hCaller

/-- Dropping calls together with their seals, while the callers that stay keep
their phase and nothing new is handed over. -/
theorem of_fewer (h : CallsTracked c) (hCalls : c'.ipc.calls.Sublist c.ipc.calls)
    (hSeals : c'.ipc.seals.Sublist c.ipc.seals)
    (hKept : ∀ p ∈ c'.ipc.calls, c'.threads.phase p.caller = c.threads.phase p.caller)
    (hSealed : ∀ x ∈ c'.ipc.seals, ∀ p ∈ c.ipc.calls, p.caller = x.replySeal.caller →
      p.endpoint = x.replySeal.endpoint → p.server = x.replySeal.server → p ∈ c'.ipc.calls)
    (hHolds : ∀ server q, c'.threads.Holds server q → c.threads.Holds server q) :
    CallsTracked c' := by
  have hStay : ∀ x ∈ c'.ipc.seals, ∃ p ∈ c'.ipc.calls, p.caller = x.replySeal.caller ∧
      p.endpoint = x.replySeal.endpoint ∧ p.server = x.replySeal.server := by
    intro x hx
    obtain ⟨p, hp, hCaller, hEp, hSrv⟩ := h.sealed x (hSeals.subset hx)
    exact ⟨p, hSealed x hx p hp hCaller hEp hSrv, hCaller, hEp, hSrv⟩
  refine ⟨fun p hp => h.foreign p (hCalls.subset hp), ?_, h.callers.sublist (hCalls.map _), hStay,
    ?_, h.sealers.sublist (hSeals.map _), ?_⟩
  · intro p hp
    rw [hKept p hp]
    exact h.blocked p (hCalls.subset hp)
  · intro x hx
    obtain ⟨p, hp, hCaller, -, -⟩ := hStay x hx
    rw [← hCaller, hKept p hp, hCaller]
    exact h.answered x (hSeals.subset hx)
  · intro server q hHeld x hx
    exact h.uncollected server q (hHolds server q hHeld) x (hSeals.subset hx)

/-- A write to the phase of a thread with no call, to a phase that holds nothing. -/
theorem of_phase (h : CallsTracked c)
    (hIpc : c'.ipc.calls = c.ipc.calls ∧ c'.ipc.seals = c.ipc.seals)
    {a : ThreadId} {new : Option (ThreadState × ThreadId)}
    (hPhase : ∀ u, c'.threads.phase u = if u = a then new else c.threads.phase u)
    (hOld : ∀ q, c.threads.phase a ≠ some (.sendBlocked, q) ∧
      c.threads.phase a ≠ some (.replyBlocked, q))
    (hNew : ∀ state q, new = some (state, q) → state ≠ .replyBlocked ∧
      (q = invalidThread ∨ state = .sendBlocked ∨
        ∃ state', state' ≠ .sendBlocked ∧ state' ≠ .replyBlocked ∧
          c.threads.phase a = some (state', q))) : CallsTracked c' := by
  refine h.of_fewer (hIpc.1 ▸ refl _) (hIpc.2 ▸ refl _) ?_ ?_ ?_
  · intro p hp
    rw [hPhase, if_neg]
    intro hEq
    rw [hIpc.1] at hp
    rcases h.blocked p hp with hBlocked | hBlocked
    · exact (hOld _).1 (hEq ▸ hBlocked)
    · exact (hOld _).2 (hEq ▸ hBlocked)
  · intro x _ p hp _ _ _
    rwa [hIpc.1]
  · rintro server q ⟨state, hSrv, hSend, hReply, hq⟩
    rw [hPhase] at hSrv hq
    split_ifs at hq with hqa
    · exact absurd rfl (hNew _ _ hq).1
    split_ifs at hSrv with hsa
    · rcases (hNew _ _ hSrv).2 with h0 | h0 | ⟨state', hSend', hReply', hOldSrv⟩
      · subst h0
        simp at hq
      · exact absurd h0 hSend
      · exact ⟨state', hsa ▸ hOldSrv, hSend', hReply', hq⟩
    · exact ⟨state, hSrv, hSend, hReply, hq⟩

variable {r : Rendezvous} {t : IpcEndpointTable} {server : ThreadId} {e : IpcEndpoint}

theorem create (h : CallsTracked c) (hState : state = .ready ∨ state = .admitted) {t : ThreadId}
    {p : Priority} (hCreate : c.threads.createIn state t p = (r, .ok ())) :
    CallsTracked { c with threads := r } := by
  obtain ⟨hNone, hPhase⟩ := phase_createIn hCreate
  refine h.of_phase ⟨rfl, rfl⟩ hPhase ?_ ?_
  · simp [hNone]
  intro state' q hEq
  cases hEq
  refine ⟨?_, .inl rfl⟩
  rcases hState with rfl | rfl <;> simp

theorem start (h : CallsTracked c) {t : ThreadId}
    (hStart : c.threads.startThread t = (r, .ok ())) : CallsTracked { c with threads := r } := by
  obtain ⟨q, hOld, hPhase⟩ := phase_startThread hStart
  refine h.of_phase ⟨rfl, rfl⟩ hPhase ?_ ?_
  · simp [hOld]
  · intro state q' hEq
    cases hEq
    exact ⟨by simp, .inr (.inr ⟨.admitted, by simp, by simp, hOld⟩)⟩

/-- The endpoints play no part. -/
theorem of_ipc (h : CallsTracked c) (hCalls : c'.ipc.calls = c.ipc.calls)
    (hSeals : c'.ipc.seals = c.ipc.seals) (hPhase : c'.threads.phase = c.threads.phase) :
    CallsTracked c' := by
  refine h.of_fewer (hCalls ▸ refl _) (hSeals ▸ refl _) ?_ ?_ ?_
  · intro p _
    rw [hPhase]
  · intro x _ p hp _ _ _
    rwa [hCalls]
  · rintro server q ⟨state, hRest⟩
    rw [hPhase] at hRest
    exact ⟨state, hRest⟩

theorem server_of_call (hLinked : c.ipc.Linked) (hp : p ∈ c.ipc.calls)
    {slot : EndpointSlot} (hSlot : c.ipc.slotFor p.endpoint = some slot) :
    p.server = slot.server := by
  obtain ⟨slot', hSlot', hSrv⟩ := hLinked.call p hp
  rw [hSlot] at hSlot'
  cases hSlot'
  exact hSrv.symm

/-- The phases a retirement may rewrite, all to ready and without a partner:
that of the owner when it waits or holds a call of the endpoint, and those of
the callers. -/
theorem phase_retire (h : CallsTracked c) (hLinked : c.ipc.Linked)
    (hRetire : c.ipc.retire server e c.threads = ((t, r), .ok ())) (u : ThreadId) :
    r.phase u = c.threads.phase u ∨ (r.phase u = some (.ready, invalidThread) ∧
      ((u = server ∧ (c.threads.phase u = some (.receiveBlocked, invalidThread) ∨
          ∃ p ∈ c.ipc.calls, p.endpoint = e ∧ c.threads.phase u = some (.ready, p.caller))) ∨
        ∃ p ∈ c.ipc.calls, p.endpoint = e ∧ p.caller = u)) := by
  obtain ⟨slot, r₁, hSlot, -, hSrv, hFirst, -, hr⟩ := retire_ok hRetire
  have hCancel : Cancelled (fun q => ∃ p ∈ c.ipc.calls, p.endpoint = e ∧ p.caller = q) server
      r₁ r := by
    rw [hr]
    apply cancelled_cancelCalls
    intro p hp hActive hEp
    have hMem : p ∈ c.ipc.calls := mem_calls.mpr ⟨hp, hActive⟩
    have hOwner : p.server = server := by
      rw [← hSrv]
      exact server_of_call hLinked hMem (hEp ▸ hSlot)
    exact ⟨hOwner, hOwner ▸ h.foreign p hMem, p, hMem, hEp, rfl⟩
  have hWait : r₁.phase u = c.threads.phase u ∨ (u = server ∧
      c.threads.phase u = some (.receiveBlocked, invalidThread) ∧
      r₁.phase u = some (.ready, invalidThread)) := by
    rcases hFirst with ⟨-, hEnd⟩ | ⟨-, rfl⟩
    · obtain ⟨hOld, hPhase⟩ := phase_endReceive hEnd
      rw [hPhase]
      split_ifs with hu
      · exact .inr ⟨hu, hu ▸ hOld, rfl⟩
      · exact .inl rfl
    · exact .inl rfl
  rcases hCancel u with hSame | ⟨⟨p, hp, hEp, hCaller⟩, -, hNew⟩ |
    ⟨hu, ⟨q, ⟨p, hp, hEp, hCaller⟩, hHeld⟩, hNew⟩
  · rcases hWait with hOld | ⟨hu, hOld, hNew⟩
    · exact .inl (hSame.trans hOld)
    · exact .inr ⟨hSame.trans hNew, .inl ⟨hu, .inl hOld⟩⟩
  · exact .inr ⟨hNew, .inr ⟨p, hp, hEp, hCaller⟩⟩
  rcases hWait with hOld | ⟨-, hOld, -⟩
  · refine .inr ⟨hNew, .inl ⟨hu, .inr ⟨p, hp, hEp, ?_⟩⟩⟩
    rw [← hOld, hHeld, hCaller]
  · exact .inr ⟨hNew, .inl ⟨hu, .inl hOld⟩⟩

/-- A phase that is not ready without a partner has not been written. -/
theorem phase_of_retire (h : CallsTracked c) (hLinked : c.ipc.Linked)
    (hRetire : c.ipc.retire server e c.threads = ((t, r), .ok ())) {u : ThreadId}
    (hu : r.phase u = some (state, q)) (hNot : state ≠ .ready ∨ q ≠ invalidThread) :
    c.threads.phase u = some (state, q) := by
  rcases h.phase_retire hLinked hRetire u with hSame | ⟨hNew, -⟩
  · rw [← hSame, hu]
  rw [hu] at hNew
  simp only [Option.some.injEq, Prod.mk.injEq] at hNew
  rcases hNot with hNot | hNot
  · exact absurd hNew.1 hNot
  · exact absurd hNew.2 hNot

variable {caller : ThreadId} {t' : IpcEndpointTable} {r' : Rendezvous}
  {space : AddressSpaceIdentity}

theorem calls_retire (hRetire : t.retire server e r = ((t', r'), .ok ())) :
    t'.calls = t.calls.filter (fun p => !(p.endpoint == e)) ∧
      t'.seals = t.seals.filter fun x => !(x.replySeal.endpoint == e) := by
  obtain ⟨slot, r₁, -, -, -, -, ht, -⟩ := retire_ok hRetire
  rw [ht]
  exact ⟨calls_closeEndpoint t e r₁, seals_closeEndpoint t e r₁⟩

/-- A caller whose call stays keeps its phase. -/
theorem phase_caller_retire (h : CallsTracked c) (hLinked : c.ipc.Linked)
    (hRetire : c.ipc.retire server e c.threads = ((t, r), .ok ())) {p : PendingSlot}
    (hp : p ∈ t.calls) : r.phase p.caller = c.threads.phase p.caller := by
  rw [(calls_retire hRetire).1, mem_filter] at hp
  have hne : p.endpoint ≠ e := by simpa using hp.2
  rcases h.phase_retire hLinked hRetire p.caller with hSame | ⟨-, hWhy⟩
  · exact hSame
  rcases hWhy with ⟨-, hOld | ⟨q, -, -, hOld⟩⟩ | ⟨q, hq, hEp, hCaller⟩
  · rcases h.blocked p hp.1 with hBlocked | hBlocked <;> simp [hOld] at hBlocked
  · rcases h.blocked p hp.1 with hBlocked | hBlocked <;> simp [hOld] at hBlocked
  · exact absurd (h.call_eq hq hp.1 hCaller ▸ hEp) hne

theorem retire (h : CallsTracked c) (hLinked : c.ipc.Linked)
    (hRetire : c.ipc.retire server e c.threads = ((t, r), .ok ())) : CallsTracked ⟨r, t⟩ := by
  obtain ⟨hCalls, hSeals⟩ := calls_retire hRetire
  refine h.of_fewer (hCalls ▸ filter_sublist) (hSeals ▸ filter_sublist)
    (fun p hp => h.phase_caller_retire hLinked hRetire hp) ?_ ?_
  · intro x hx p hp _ hEp _
    rw [hSeals, mem_filter] at hx
    rw [hCalls, mem_filter]
    exact ⟨hp, by rw [hEp]; exact hx.2⟩
  rintro s q ⟨state, hs, hSend, hReply, hq⟩
  have hq0 : q ≠ invalidThread := by
    rintro rfl
    simp at hq
  exact ⟨state, h.phase_of_retire hLinked hRetire hs (.inr hq0), hSend, hReply,
    h.phase_of_retire hLinked hRetire hq (.inl (by simp))⟩

theorem retireAllOwnedBy (h : CallsTracked c) (hLinked : c.ipc.Linked) (server : ThreadId) :
    CallsTracked ⟨(c.ipc.retireAllOwnedBy server c.threads).1.2,
      (c.ipc.retireAllOwnedBy server c.threads).1.1⟩ ∧
      (c.ipc.retireAllOwnedBy server c.threads).1.1.Linked :=
  retireAllOwnedBy_induction _ (P := fun t r => CallsTracked ⟨r, t⟩ ∧ t.Linked) ⟨h, hLinked⟩
    fun _ _ _ _ _ hBoth hRetire => ⟨hBoth.1.retire hBoth.2 hRetire, hBoth.2.retire hRetire⟩

/-- The endpoint table without what names `thread` as caller or server. -/
theorem release (h : CallsTracked c) (thread : ThreadId) :
    CallsTracked ⟨c.threads, ((c.ipc.dropReplies (namesThread thread)).dropPending
      fun s => s.caller == thread).discardCompletedFor thread⟩ := by
  have hCalls : ((c.ipc.dropReplies (namesThread thread)).dropPending
      fun s => s.caller == thread).calls = c.ipc.calls.filter fun s => !(s.caller == thread) :=
    calls_dropPending _ _
  have hSeals : (c.ipc.dropReplies (namesThread thread)).seals =
      c.ipc.seals.filter fun x => !namesThread thread x.replySeal := seals_dropReplies _ _
  refine h.of_fewer (hCalls ▸ filter_sublist) (hSeals ▸ filter_sublist)
    (fun _ _ => rfl) ?_ (fun _ _ => id)
  intro x hx p hp hCaller _ _
  change x ∈ (c.ipc.dropReplies (namesThread thread)).seals at hx
  change p ∈ ((c.ipc.dropReplies (namesThread thread)).dropPending
    fun s => s.caller == thread).calls
  rw [hSeals, mem_filter] at hx
  rw [hCalls, mem_filter, hCaller]
  refine ⟨hp, ?_⟩
  have hNot := hx.2
  simp only [namesThread, Bool.not_or, Bool.and_eq_true] at hNot
  exact hNot.1

/-- Once a thread owns no endpoint, the calls that survive its release are
calls between others. -/
theorem call_survives (hLinked : t.Linked) (hClosed : ∀ i, ¬t.Owns thread i)
    (hp : p ∈ ((t.dropReplies (namesThread thread)).dropPending
      fun s => s.caller == thread).calls) :
    p ∈ t.calls ∧ p.caller ≠ thread ∧ p.server ≠ thread := by
  rw [calls_dropPending, mem_filter] at hp
  refine ⟨hp.1, by simpa using hp.2, ?_⟩
  rintro rfl
  obtain ⟨slot, hSlot, hSrv⟩ := hLinked.call p hp.1
  obtain ⟨hGet, -, hActive, -⟩ := slotFor_eq_some.mp hSlot
  exact hClosed _ ⟨slot, hGet, hActive, hSrv⟩

/-- The exit of a thread that takes part in no call any more. -/
theorem exit (h : CallsTracked c) (hDist : c.threads.Distinct)
    (hNone : ∀ p ∈ c.ipc.calls, p.caller ≠ thread ∧ p.server ≠ thread) {n : Nat}
    (hExit : c.threads.exitThread thread = (r, .ok n)) : CallsTracked ⟨r, c.ipc⟩ := by
  have hPhase := phase_exitThread hDist hExit
  refine h.of_fewer (refl _) (refl _) ?_
    (fun _ _ p hp _ _ _ => hp) ?_
  · intro p hp
    obtain ⟨hCaller, hSrv⟩ := hNone p hp
    rw [hPhase, if_neg hCaller]
    rcases h.blocked p hp with hBlocked | hBlocked <;> simp [hBlocked, hSrv]
  rintro s q ⟨state, hs, hSend, hReply, hq⟩
  have hq0 : q ≠ invalidThread := by
    rintro rfl
    simp at hq
  rw [hPhase] at hs hq
  split_ifs at hq with hqt hqb
  · cases hq
  split_ifs at hs with hst hsb
  · exact absurd (congrArg Prod.snd (Option.some.inj hs)).symm hq0
  · exact ⟨state, hs, hSend, hReply, hq⟩

theorem destroy (h : CallsTracked c) (hLinked : c.ipc.Linked) (hDist : c.threads.Distinct)
    (hWaiting : WaitingReceivers c) (t : ThreadId) :
    CallsTracked (CoreOp.apply c (.destroy t)) := by
  rcases eq_or_ne t invalidThread with rfl | ht
  · exact h
  obtain ⟨hAll, hAllLinked⟩ := h.retireAllOwnedBy hLinked t
  have hClosed := (hWaiting.retirable hLinked t).retireAllOwnedBy ht
  have hReleased := hAll.release t
  have hIds := sameIds_releaseThread c.ipc t c.threads
  rw [releaseThread_eq c.ipc c.threads ht] at hIds
  simp only [CoreOp.apply, releaseThread_eq c.ipc c.threads ht]
  rcases hExit : (c.ipc.retireAllOwnedBy t c.threads).1.2.exitThread t with ⟨r, e | n⟩
  · obtain ⟨rfl, -⟩ := exitThread_error hExit
    exact hReleased
  · refine hReleased.exit (hIds.distinct hDist) ?_ hExit
    intro p hp
    exact (call_survives hAllLinked hClosed hp).2

theorem calls_sendToEndpoint
    (hSend : t.sendToEndpoint caller space e r request = ((t', r'), .ok ())) :
    ∃ p, p.caller = caller ∧ p.endpoint = e ∧ p.request = request ∧ p.callerAddressSpace = space ∧
      t'.calls.Perm (p :: t.calls) ∧ t'.seals = t.seals ∧ t'.completed = t.completed ∧
      (∃ owner, t.slotFor e = some owner ∧ owner.server = p.server ∧
        ((owner.receiveWaiting = true ∧ r.deliverWaitingReceiver caller p.server = (r', .ok ())) ∨
          (owner.receiveWaiting = false ∧ r.blockSend caller p.server = (r', .ok ())))) := by
  obtain ⟨owner, pending, hOwner, -, hIns, hSent, rfl⟩ := sendToEndpoint_ok hSend
  exact ⟨_, rfl, rfl, rfl, rfl, entries_insert (by rfl) hIns, rfl, rfl, owner, hOwner, rfl, hSent⟩

/-- Adding the call of a thread that was ready until now. -/
theorem add_call (h : CallsTracked c) (hForeign : p.caller ≠ p.server)
    (hReady : c.threads.phase p.caller = some (.ready, q))
    (hCalls : c'.ipc.calls.Perm (p :: c.ipc.calls)) (hSeals : c'.ipc.seals = c.ipc.seals)
    (hNew : c'.threads.phase p.caller = some (.sendBlocked, p.server) ∨
      c'.threads.phase p.caller = some (.replyBlocked, p.server))
    (hKept : ∀ u s, c.threads.phase u = some (.sendBlocked, s) ∨
      c.threads.phase u = some (.replyBlocked, s) → c'.threads.phase u = c.threads.phase u)
    (hHolds : ∀ s u, c'.threads.Holds s u → c.threads.Holds s u ∨ u = p.caller) :
    CallsTracked c' := by
  have hFree : ∀ p' ∈ c.ipc.calls, p'.caller ≠ p.caller := by
    intro p' hp' hEq
    have hBlocked := h.blocked p' hp'
    rw [hEq, hReady] at hBlocked
    simp at hBlocked
  have hUnsealed : ∀ x ∈ c.ipc.seals, x.replySeal.caller ≠ p.caller := by
    intro x hx hEq
    have hAnswered := h.answered x hx
    rw [hEq, hReady] at hAnswered
    simp at hAnswered
  refine ⟨?_, ?_, ?_, ?_, ?_, ?_, ?_⟩
  · intro p' hp'
    rcases mem_cons.mp (hCalls.mem_iff.mp hp') with rfl | hp'
    · exact hForeign
    · exact h.foreign p' hp'
  · intro p' hp'
    rcases mem_cons.mp (hCalls.mem_iff.mp hp') with rfl | hp'
    · exact hNew
    · rw [hKept p'.caller p'.server (h.blocked p' hp')]
      exact h.blocked p' hp'
  · exact SlotTable.nodup_map_of_perm hCalls h.callers hFree
  · intro x hx
    rw [hSeals] at hx
    obtain ⟨p', hp', hRest⟩ := h.sealed x hx
    exact ⟨p', hCalls.mem_iff.mpr (mem_cons_of_mem _ hp'), hRest⟩
  · intro x hx
    rw [hSeals] at hx
    rw [hKept _ _ (.inr (h.answered x hx))]
    exact h.answered x hx
  · rw [hSeals]
    exact h.sealers
  · intro s u hHeld x hx
    rw [hSeals] at hx
    rcases hHolds s u hHeld with hOld | rfl
    · exact h.uncollected s u hOld x hx
    · exact hUnsealed x hx

theorem sendTo (h : CallsTracked c) {caller : ThreadId}
    (hSend : c.ipc.sendToEndpoint caller space e c.threads request = ((t, r), .ok ())) :
    CallsTracked ⟨r, t⟩ := by
  obtain ⟨p, rfl, -, -, -, hCalls, hSeals, -, owner, -, -, hSent⟩ := calls_sendToEndpoint hSend
  rcases hSent with ⟨-, hDeliver⟩ | ⟨-, hBlock⟩
  · obtain ⟨q, hReady, hWaits, hForeign, hPhase⟩ := phase_deliverWaitingReceiver hDeliver
    refine h.add_call hForeign hReady hCalls hSeals (.inr ?_) ?_ ?_
    · simp [hPhase, hForeign]
    · intro u s hu
      rw [hPhase, if_neg, if_neg]
      · rintro rfl
        simp [hReady] at hu
      · rintro rfl
        simp [hWaits] at hu
    · rintro s u ⟨state, hs, hNotSend, hNotReply, hu⟩
      by_cases hup : u = p.caller
      · exact .inr hup
      left
      rw [hPhase, if_neg hup] at hu
      split_ifs at hu with hus
      · cases hu
      refine ⟨state, ?_, hNotSend, hNotReply, hu⟩
      rw [hPhase] at hs
      split_ifs at hs with h₁ h₂
      · exact absurd (congrArg Prod.snd (Option.some.inj hs)).symm hup
      · cases hs
        exact absurd rfl hNotReply
      · exact hs
  · obtain ⟨q, hReady, hForeign, hPhase⟩ := phase_blockSend hBlock
    refine h.add_call hForeign hReady hCalls hSeals (.inl ?_) ?_ ?_
    · simp [hPhase]
    · intro u s hu
      rw [hPhase, if_neg]
      rintro rfl
      simp [hReady] at hu
    rintro s u ⟨state, hs, hNotSend, hNotReply, hu⟩
    left
    rw [hPhase] at hs hu
    split_ifs at hu
    · cases hu
    split_ifs at hs
    · cases hs
      exact absurd rfl hNotSend
    · exact ⟨state, hs, hNotSend, hNotReply, hu⟩

theorem mem_of_pendingSlot (h : t.pendingSlot caller e = some p) :
    p ∈ t.calls ∧ p.caller = caller ∧ p.endpoint = e := by
  have hIs := find?_some h
  simp only [isCall, Bool.and_eq_true, beq_iff_eq] at hIs
  exact ⟨mem_calls.mpr ⟨mem_of_find?_eq_some h, hIs.1.1⟩, hIs.1.2, hIs.2⟩

theorem mem_of_pendingSlotAt (h : t.pendingSlotAt e = some p) : p ∈ t.calls ∧ p.endpoint = e := by
  have hIs := find?_some h
  simp only [Bool.and_eq_true, beq_iff_eq] at hIs
  exact ⟨mem_calls.mpr ⟨mem_of_find?_eq_some h, hIs.1⟩, hIs.2⟩

theorem seals_of_sealed (h : t.Sealed t' server space e p received) :
    t'.calls = t.calls ∧
      t'.seals.Perm ({ replySeal := t.newSeal server space e p, active := true } :: t.seals) := by
  obtain ⟨replies, hIns, rfl⟩ := h.table_eq
  exact ⟨rfl, entries_insert (by rfl) hIns⟩

/-- Sealing a call that has no seal, once its caller awaits the reply. -/
theorem add_seal (h : CallsTracked c) (hp : p ∈ c.ipc.calls) {x : ReplySlot}
    (hx : p.caller = x.replySeal.caller ∧ p.endpoint = x.replySeal.endpoint ∧
      p.server = x.replySeal.server)
    (hCalls : c'.ipc.calls = c.ipc.calls) (hSeals : c'.ipc.seals.Perm (x :: c.ipc.seals))
    (hUnsealed : ∀ y ∈ c.ipc.seals, y.replySeal.caller ≠ p.caller)
    (hNew : c'.threads.phase p.caller = some (.replyBlocked, p.server))
    (hKept : ∀ u s, u ≠ p.caller → c.threads.phase u = some (.sendBlocked, s) ∨
      c.threads.phase u = some (.replyBlocked, s) → c'.threads.phase u = c.threads.phase u)
    (hHolds : ∀ s u, c'.threads.Holds s u → c.threads.Holds s u ∧ u ≠ p.caller) :
    CallsTracked c' := by
  refine ⟨?_, ?_, ?_, ?_, ?_, ?_, ?_⟩
  · rw [hCalls]
    exact h.foreign
  · intro p' hp'
    rw [hCalls] at hp'
    rcases eq_or_ne p'.caller p.caller with hEq | hne
    · rw [h.call_eq hp' hp hEq]
      exact .inr hNew
    · rw [hKept _ _ hne (h.blocked p' hp')]
      exact h.blocked p' hp'
  · rw [hCalls]
    exact h.callers
  · intro y hy
    rw [hCalls]
    rcases mem_cons.mp (hSeals.mem_iff.mp hy) with rfl | hy
    · exact ⟨p, hp, hx⟩
    · exact h.sealed y hy
  · intro y hy
    rcases mem_cons.mp (hSeals.mem_iff.mp hy) with rfl | hy
    · rw [← hx.1, ← hx.2.2]
      exact hNew
    · rw [hKept _ _ (hUnsealed y hy) (.inr (h.answered y hy))]
      exact h.answered y hy
  · exact SlotTable.nodup_map_of_perm hSeals h.sealers fun y hy hEq =>
      hUnsealed y hy (hEq.trans hx.1.symm)
  · intro s u hHeld y hy
    obtain ⟨hOld, hne⟩ := hHolds s u hHeld
    rcases mem_cons.mp (hSeals.mem_iff.mp hy) with rfl | hy
    · rw [← hx.1]
      exact hne.symm
    · exact h.uncollected s u hOld y hy

theorem receiveFrom (h : CallsTracked c) (hLinked : c.ipc.Linked)
    (hRecv : c.ipc.receiveFromEndpoint server space e c.threads = ((t, r), .ok received))
    (hNot : ¬c.threads.HoldsQueued server) : CallsTracked ⟨r, t⟩ := by
  obtain ⟨owner, s, hOwner, hSrv, -, hs, hReady, hCase⟩ := receiveFromEndpoint_ok hRecv
  have hPhase := phase_of_find hs
  rw [hReady] at hPhase
  rcases hCase with ⟨hPeer, p, hCall, hSealed, rfl⟩ | ⟨hPeer, p, hCall, hSealed, hAccept⟩ |
    ⟨hPeer, -, -, hWait, rfl⟩
  · obtain ⟨hp, hCaller, rfl⟩ := mem_of_pendingSlot hCall
    obtain ⟨hCalls, hSeals⟩ := seals_of_sealed hSealed
    have hOwned : p.server = server := (server_of_call hLinked hp hOwner).trans hSrv
    rw [← hCaller] at hPhase
    have hAwaits : c.threads.phase p.caller = some (.replyBlocked, server) := by
      rcases h.blocked p hp with hBlocked | hBlocked
      · exact absurd ⟨p.caller, hPhase, hOwned ▸ hBlocked⟩ hNot
      · rwa [hOwned] at hBlocked
    have hForeign := h.foreign p hp
    rw [hOwned] at hForeign
    refine h.add_seal hp ⟨rfl, rfl, hOwned⟩ hCalls hSeals ?_ ?_ ?_ ?_
    · exact h.uncollected server p.caller ⟨.ready, hPhase, by simp, by simp, hAwaits⟩
    · rw [phase_collect hs, if_neg hForeign, hAwaits, hOwned]
    · intro u s' _ hu
      rw [phase_collect hs, if_neg]
      rintro rfl
      simp [hPhase] at hu
    rintro s' u ⟨state, hs', hNotSend, hNotReply, hu⟩
    rw [phase_collect hs] at hs' hu
    split_ifs at hu with hus
    · simp [hReady] at hu
    split_ifs at hs' with hss
    · simp only [Option.some.injEq, Prod.mk.injEq] at hs'
      rw [← hs'.2] at hu
      simp at hu
    refine ⟨⟨state, hs', hNotSend, hNotReply, hu⟩, ?_⟩
    rintro rfl
    rw [hAwaits] at hu
    simp only [Option.some.injEq, Prod.mk.injEq, true_and] at hu
    exact hss hu.symm
  · obtain ⟨hp, rfl⟩ := mem_of_pendingSlotAt hCall
    obtain ⟨hCalls, hSeals⟩ := seals_of_sealed hSealed
    have hOwned : p.server = server := (server_of_call hLinked hp hOwner).trans hSrv
    obtain ⟨-, hQueued, hForeign, hNew⟩ := phase_acceptSender hAccept
    rw [hPeer] at hPhase
    refine h.add_seal hp ⟨rfl, rfl, hOwned⟩ hCalls hSeals ?_ ?_ ?_ ?_
    · intro y hy hEq
      have hAnswered := h.answered y hy
      rw [hEq, hQueued] at hAnswered
      simp at hAnswered
    · rw [hNew, if_pos rfl, hOwned]
    · intro u s' hu _
      rw [hNew, if_neg hu]
    rintro s' u ⟨state, hs', hNotSend, hNotReply, hu⟩
    rw [hNew] at hs' hu
    split_ifs at hs' with hss
    · simp only [Option.some.injEq, Prod.mk.injEq] at hs'
      exact absurd hs'.1.symm hNotReply
    split_ifs at hu with hus
    · simp only [Option.some.injEq, Prod.mk.injEq, true_and] at hu
      subst hu
      rw [hPhase] at hs'
      simp only [Option.some.injEq, Prod.mk.injEq] at hs'
      rw [← hs'.2] at hus
      rw [← hus] at hQueued
      simp at hQueued
    · exact ⟨⟨state, hs', hNotSend, hNotReply, hu⟩, hus⟩
  · obtain ⟨hOld, hNew⟩ := phase_waitReceive hWait
    refine h.of_phase ⟨rfl, rfl⟩ hNew ?_ ?_
    · simp [hOld]
    · intro state q hEq
      cases hEq
      exact ⟨by simp, .inl rfl⟩

theorem calls_reply (hReply : t.reply server replySeal r response = ((t', r'), .ok ())) :
    t'.calls = t.calls.eraseP (isCall replySeal.caller replySeal.endpoint) ∧
      t'.seals = t.seals.eraseP fun s => s.active && s.replySeal == replySeal := by
  obtain ⟨-, -, -, -, -, -, -, -, -, -, -, rfl⟩ := reply_ok hReply
  refine ⟨entries_updateFirst_free rfl ?_ t.pending, entries_updateFirst_free rfl ?_ t.replies⟩
  · intro s hs
    simp only [isCall, Bool.and_eq_true] at hs
    rw [key_isSome, hs.1.1]
  · intro s hs
    simp only [Bool.and_eq_true] at hs
    rw [ReplySlot.key_isSome, hs.1]

/-- A reply takes away the one call and the one seal of its caller. -/
theorem mem_calls_reply (h : CallsTracked c)
    (hReply : c.ipc.reply server replySeal c.threads response = ((t, r), .ok ())) :
    (∀ p, p ∈ t.calls ↔ p ∈ c.ipc.calls ∧ p.caller ≠ replySeal.caller) ∧
      ∀ x, x ∈ t.seals ↔ x ∈ c.ipc.seals ∧ x.replySeal.caller ≠ replySeal.caller := by
  obtain ⟨-, -, -, -, -, hValid, ⟨x₀, hx₀⟩, ⟨p₀, hp₀⟩, -⟩ := reply_ok hReply
  obtain ⟨hCalls, hSeals⟩ := calls_reply hReply
  obtain ⟨hMem, hCaller, hEp⟩ := mem_of_pendingSlot hp₀
  rw [replySlot, hValid] at hx₀
  have hIs := find?_some hx₀
  simp only [Bool.and_eq_true, beq_iff_eq] at hIs
  have hSealMem : x₀ ∈ c.ipc.seals := mem_seals.mpr ⟨mem_of_find?_eq_some hx₀, hIs.1⟩
  constructor
  · intro p
    rw [hCalls, mem_eraseP_iff_of_nodup h.callers hMem (find?_some hp₀), hCaller]
    intro z hz
    simp only [isCall, Bool.and_eq_true, beq_iff_eq] at hz
    exact hz.1.2.trans hCaller.symm
  · intro x
    rw [hSeals, mem_eraseP_iff_of_nodup h.sealers hSealMem (find?_some hx₀), hIs.2]
    intro z hz
    simp only [Bool.and_eq_true, beq_iff_eq] at hz
    rw [hz.2, hIs.2]

theorem replyTo (h : CallsTracked c) {result : Result Unit}
    (hReply : c.ipc.reply server replySeal c.threads response = ((t, r), result)) :
    CallsTracked ⟨r, t⟩ := by
  cases result with
  | error =>
    obtain ⟨rfl, ht, -, -⟩ := reply_error hReply
    rw [ht]
    exact h.of_ipc rfl rfl rfl
  | ok u =>
    obtain ⟨-, -, -, -, -, -, -, -, -, -, hReplied, -⟩ := reply_ok hReply
    obtain ⟨hCalls, hSeals⟩ := calls_reply hReply
    obtain ⟨hMem, hSealMem⟩ := h.mem_calls_reply hReply
    obtain ⟨-, -, hPhase⟩ := phase_reply hReplied
    refine h.of_fewer (hCalls ▸ eraseP_sublist) (hSeals ▸ eraseP_sublist) ?_ ?_ ?_
    · intro p hp
      rw [hPhase, if_neg ((hMem p).mp hp).2]
    · intro x hx p hp hCaller _ _
      refine (hMem p).mpr ⟨hp, ?_⟩
      rw [hCaller]
      exact ((hSealMem x).mp hx).2
    rintro s u ⟨state, hs, hNotSend, hNotReply, hu⟩
    rw [hPhase] at hs hu
    split_ifs at hu with hus
    · cases hu
    split_ifs at hs with hss
    · simp only [Option.some.injEq, Prod.mk.injEq] at hs
      rw [← hs.2] at hu
      simp at hu
    · exact ⟨state, hs, hNotSend, hNotReply, hu⟩

end CallsTracked

/-- The calls of the endpoint interface: everything but the three rendezvous
calls that bypass endpoints and the deadline expiry. -/
def Op.EndpointIpc : Op → Prop
  | .send .. | .receive .. | .reply .. | .ipcExpireOneReceive .. => False
  | _ => True

def CoreOp.Regular : CoreOp → Prop
  | .send .. | .receive .. | .reply .. | .expire .. => False
  | .create state .. => state = .ready ∨ state = .admitted
  | _ => True

variable {k : Kernel} {env : Env} {op : CoreOp} {c c' : Core}

theorem regular_coreOps {op : Op} (h : op.EndpointIpc) {c : CoreOp} (hc : c ∈ k.coreOps env op) :
    c.Regular := by
  cases performs_of_mem hc with
  | send | receive | reply | expire => exact h.elim
  | createThread => exact .inl rfl
  | createAdmittedThread | threadAdmit => exact .inr rfl
  | _ => trivial

theorem CoreOp.Regular.usesEndpoints (h : op.Regular) : op.UsesEndpoints := by
  cases op with
  | send | receive | reply => exact h
  | _ => trivial

/-- What the calls rest on: distinct threads, linked endpoints, honest flags. -/
structure Core.Sound (c : Core) : Prop where
  distinct : c.threads.Distinct
  linked : c.ipc.Linked
  waiting : WaitingReceivers c

theorem distinct_destroy (h : c.threads.Distinct) (t : ThreadId) :
    (CoreOp.apply c (.destroy t)).threads.Distinct := by
  have hReleased := (sameIds_releaseThread c.ipc t c.threads).distinct h
  change ((c.ipc.releaseThread t c.threads).1.2.exitThread t).1.Distinct
  rcases hExit : (c.ipc.releaseThread t c.threads).1.2.exitThread t with ⟨r, e | n⟩
  · obtain ⟨rfl, -⟩ := exitThread_error hExit
    exact hReleased
  · exact hReleased.exitThread hExit

theorem distinct_coreStep (h : c.threads.Distinct) (hStep : CoreStep c op c')
    (hOp : op.UsesEndpoints) : c'.threads.Distinct := by
  cases hStep with
  | create hCreate => exact h.createIn hCreate
  | start hStart => exact (sameExcept_startThread (b := invalidThread) hStart).sameIds.distinct h
  | destroy t => exact distinct_destroy h t
  | send | receive | reply => exact hOp.elim
  | expire hExpire => exact (sameIds_endReceive hExpire).distinct h
  | retireEndpoint hRetire => exact (sameIds_retire hRetire).distinct h
  | sendTo hSend =>
    obtain ⟨server, hSame⟩ := sameExcept_sendToEndpoint hSend
    exact hSame.sameIds.distinct h
  | receiveFrom hRecv => exact (sameExcept_receiveFromEndpoint hRecv).sameIds.distinct h
  | replyTo hReply =>
    obtain ⟨-, -, -, -, -, -, -, -, -, -, hReplied, -⟩ := reply_ok hReply
    exact (sameExcept_reply hReplied).sameIds.distinct h
  | takeExpiry t =>
    rcases takeDeadlineExpiry_eq c.threads t with hSame | ⟨ht, hSame⟩
    · rwa [hSame]
    · rw [hSame]
      exact (sameExcept_clearWake t t c.threads ht).sameIds.distinct h
  | _ => exact h

theorem Core.Sound.coreStep (h : c.Sound) (hStep : CoreStep c op c') (hOp : op.Regular) :
    c'.Sound := by
  refine ⟨distinct_coreStep h.distinct hStep hOp.usesEndpoints, linked_coreStep h.linked hStep,
    h.waiting.coreStep h.linked hStep hOp.usesEndpoints ?_⟩
  rintro server rfl
  exact hOp.elim

theorem CallsTracked.coreStep (h : CallsTracked c) (hSound : c.Sound) (hStep : CoreStep c op c')
    (hOp : op.Regular)
    (hNot : ∀ server space e, op = .receiveFrom server space e → ¬c.threads.HoldsQueued server) :
    CallsTracked c' := by
  cases hStep with
  | refused => exact h
  | create hCreate => exact h.create hOp hCreate
  | start hStart => exact h.start hStart
  | destroy t => exact h.destroy hSound.linked hSound.distinct hSound.waiting t
  | send | receive | reply | expire => exact hOp.elim
  | createEndpoint hCreate =>
    obtain ⟨-, -, -, -, -, -, -, rfl⟩ := create_ok hCreate
    exact h.of_ipc rfl rfl rfl
  | retireEndpoint hRetire => exact h.retire hSound.linked hRetire
  | sendTo hSend => exact h.sendTo hSend
  | receiveFrom hRecv => exact h.receiveFrom hSound.linked hRecv (hNot _ _ _ rfl)
  | replyTo hReply => exact h.replyTo hReply
  | replyRefused | takeReply => exact h.of_ipc rfl rfl rfl
  | takeExpiry t => exact h.of_ipc rfl rfl (phase_takeDeadlineExpiry c.threads t)

theorem callsTracked_empty : CallsTracked ({} : Kernel).core := by
  have hCalls : ({} : Kernel).core.ipc.calls = [] := by decide
  have hSeals : ({} : Kernel).core.ipc.seals = [] := by decide
  refine ⟨?_, ?_, ?_, ?_, ?_, ?_, ?_⟩ <;> simp [hCalls, hSeals]

/-- The thread whose receive an operation makes. -/
def Op.receiver : Op → Option ThreadId
  | .ipcReceive server .. => some server
  | .ipcReceiveBound server .. => some server.thread
  | _ => none

/-- A server collects as delivered a sender that is queueing: the partner field
it still holds is that of an earlier thread of the same id. -/
def CollectsQueued (k : Kernel) (op : Op) : Prop :=
  ∃ server, op.receiver = some server ∧ k.threads.HoldsQueued server

theorem receiver_of_receiveFrom {op : Op} {server : ThreadId} {space : AddressSpaceIdentity}
    {e : IpcEndpoint} (h : .receiveFrom server space e ∈ k.coreOps env op) :
    op.receiver = some server := by
  cases performs_of_mem h <;> rfl

end Enml.OsKernel
