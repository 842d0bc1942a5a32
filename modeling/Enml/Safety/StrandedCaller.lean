import Mathlib.Tactic.IntervalCases
import Enml.Safety.Calls

/-! No caller is stranded: a call that has been sent is queued, handed over or
in service, and the counters of the endpoint table count what is there. -/
namespace Enml.OsKernel

open IpcEndpointTable Rendezvous List Kernel CallsTracked SlotTable

variable {p : PendingSlot} {x : ReplySlot} {server caller : ThreadId} {e : IpcEndpoint}
  {t : IpcEndpointTable} {space : AddressSpaceIdentity} {request : IpcEnvelope}

/-- A call whose caller awaits a reply nobody holds a seal for is waiting to be
collected, and its server can still do that. -/
def Handed (c : Core) : Prop :=
  ∀ p ∈ c.ipc.calls, c.threads.phase p.caller = some (.replyBlocked, p.server) →
    (∀ x ∈ c.ipc.seals, x.replySeal.caller ≠ p.caller) →
    c.threads.phase p.server = some (.ready, p.caller)

/-- `caller` is about to overwrite the partner field that names the sender it
has not collected. -/
def Rendezvous.Abandons (r : Rendezvous) (caller : ThreadId) : Prop :=
  ∃ q, r.phase caller = some (.ready, q) ∧ r.phase q = some (.replyBlocked, caller)

variable {r : Rendezvous}

namespace Handed

variable {c c' : Core}

theorem of_fewer (h : Handed c) (hCalls : ∀ p ∈ c'.ipc.calls, p ∈ c.ipc.calls)
    (hSeals : ∀ p ∈ c'.ipc.calls, ∀ x ∈ c.ipc.seals, x.replySeal.caller = p.caller →
      x ∈ c'.ipc.seals)
    (hKept : ∀ p ∈ c'.ipc.calls, c'.threads.phase p.caller = c.threads.phase p.caller)
    (hServers : ∀ p ∈ c'.ipc.calls, c.threads.phase p.server = some (.ready, p.caller) →
      c'.threads.phase p.server = c.threads.phase p.server) : Handed c' := by
  intro p hp hAwaits hUnsealed
  rw [hKept p hp] at hAwaits
  have hSrv : c.threads.phase p.server = some (.ready, p.caller) := by
    apply h p (hCalls p hp) hAwaits
    intro x hx hCaller
    exact hUnsealed x (hSeals p hp x hx hCaller) hCaller
  rw [hServers p hp hSrv, hSrv]

/-- The write leaves the phases of all callers and of all servers that hold a
call as they were. -/
theorem of_phase (h : Handed c) (hTracked : CallsTracked c)
    (hIpc : c'.ipc.calls = c.ipc.calls ∧ c'.ipc.seals = c.ipc.seals) {a : ThreadId}
    {new : Option (ThreadState × ThreadId)}
    (hPhase : ∀ u, c'.threads.phase u = if u = a then new else c.threads.phase u)
    (hOld : ∀ state q, c.threads.phase a = some (state, q) →
      state ≠ .sendBlocked ∧ state ≠ .replyBlocked ∧ (state = .ready → q = invalidThread)) :
    Handed c' := by
  refine h.of_fewer (fun p hp => hIpc.1 ▸ hp) (fun _ _ x hx _ => hIpc.2 ▸ hx) ?_ ?_
  · intro p hp
    rw [hIpc.1] at hp
    rw [hPhase, if_neg]
    intro hEq
    have hBlocked := hTracked.blocked p hp
    rw [hEq] at hBlocked
    rcases hBlocked with hBlocked | hBlocked
    · exact (hOld _ _ hBlocked).1 rfl
    · exact (hOld _ _ hBlocked).2.1 rfl
  · intro p hp hSrv
    rw [hIpc.1] at hp
    rw [hPhase, if_neg]
    intro hEq
    rw [hEq] at hSrv
    have hCaller := (hOld _ _ hSrv).2.2 rfl
    have hBlocked := hTracked.blocked p hp
    rw [hCaller] at hBlocked
    simp at hBlocked

theorem seal_of_caller (hTracked : CallsTracked c) (hp : p ∈ c.ipc.calls) (hx : x ∈ c.ipc.seals)
    (hCaller : x.replySeal.caller = p.caller) :
    p.endpoint = x.replySeal.endpoint ∧ p.server = x.replySeal.server := by
  obtain ⟨p', hp', hCaller', hRest⟩ := hTracked.sealed x hx
  have hEq := hTracked.call_eq hp' hp (hCaller'.trans hCaller)
  rwa [hEq] at hRest

theorem retire (h : Handed c) (hTracked : CallsTracked c) (hLinked : c.ipc.Linked)
    (hRetire : c.ipc.retire server e c.threads = ((t, r), .ok ())) : Handed ⟨r, t⟩ := by
  obtain ⟨hCalls, hSeals⟩ := calls_retire hRetire
  have hMem : ∀ p ∈ t.calls, p ∈ c.ipc.calls ∧ p.endpoint ≠ e := by
    intro p hp
    rw [hCalls, mem_filter] at hp
    exact ⟨hp.1, by simpa using hp.2⟩
  refine h.of_fewer (fun p hp => (hMem p hp).1) ?_
    (fun p hp => hTracked.phase_caller_retire hLinked hRetire hp) ?_
  · intro p hp x hx hCaller
    rw [hSeals, mem_filter]
    refine ⟨hx, ?_⟩
    rw [← (seal_of_caller hTracked (hMem p hp).1 hx hCaller).1]
    simpa using (hMem p hp).2
  · intro p hp hSrv
    rcases hTracked.phase_retire hLinked hRetire p.server with hSame | ⟨-, hWhy⟩
    · exact hSame
    rcases hWhy with ⟨-, hOld | ⟨p', hp', hEp, hOld⟩⟩ | ⟨p', hp', hEp, hCaller⟩
    · rw [hSrv] at hOld
      cases hOld
    · rw [hSrv] at hOld
      simp only [Option.some.injEq, Prod.mk.injEq, true_and] at hOld
      have hEq := hTracked.call_eq hp' (hMem p hp).1 hOld.symm
      exact absurd (hEq ▸ hEp) (hMem p hp).2
    · have hBlocked := hTracked.blocked p' hp'
      rw [hCaller, hSrv] at hBlocked
      simp at hBlocked

theorem destroy (h : Handed c) (hTracked : CallsTracked c) (hSound : c.Sound) (t : ThreadId) :
    Handed (CoreOp.apply c (.destroy t)) := by
  rcases eq_or_ne t invalidThread with rfl | ht
  · exact h
  obtain ⟨hAll, hAllTracked, hAllLinked⟩ := retireAllOwnedBy_induction t
    (P := fun t r => Handed ⟨r, t⟩ ∧ CallsTracked ⟨r, t⟩ ∧ t.Linked)
    ⟨h, hTracked, hSound.linked⟩ fun _ _ _ _ _ hBoth hRetire =>
      ⟨hBoth.1.retire hBoth.2.1 hBoth.2.2 hRetire, hBoth.2.1.retire hBoth.2.2 hRetire,
        hBoth.2.2.retire hRetire⟩
  have hClosed := (hSound.waiting.retirable hSound.linked t).retireAllOwnedBy ht
  have hIds := sameIds_releaseThread c.ipc t c.threads
  rw [releaseThread_eq c.ipc c.threads ht] at hIds
  have hOthers : ∀ p ∈ (((c.ipc.retireAllOwnedBy t c.threads).1.1.dropReplies
      (namesThread t)).dropPending fun s => s.caller == t).calls,
      p ∈ (c.ipc.retireAllOwnedBy t c.threads).1.1.calls ∧ p.caller ≠ t ∧ p.server ≠ t := by
    intro p hp
    exact call_survives hAllLinked hClosed hp
  have hPhase : ∀ u q state, u ≠ t → q ≠ t →
      (c.ipc.retireAllOwnedBy t c.threads).1.2.phase u = some (state, q) →
      ((c.ipc.retireAllOwnedBy t c.threads).1.2.exitThread t).1.phase u = some (state, q) := by
    intro u q state hu hq hOld
    rcases hExit : (c.ipc.retireAllOwnedBy t c.threads).1.2.exitThread t with ⟨r, e | n⟩
    · obtain ⟨rfl, -⟩ := exitThread_error hExit
      exact hOld
    · rw [phase_exitThread (hIds.distinct hSound.distinct) hExit, if_neg hu, hOld]
      simp [hq]
  simp only [CoreOp.apply, releaseThread_eq c.ipc c.threads ht]
  refine hAll.of_fewer (fun p hp => (hOthers p hp).1) ?_ ?_ ?_
  · intro p hp x hx hCaller
    obtain ⟨hMem, hNotCaller, hNotSrv⟩ := hOthers p hp
    have hSrv := (seal_of_caller hAllTracked hMem hx hCaller).2
    change x ∈ ((c.ipc.retireAllOwnedBy t c.threads).1.1.dropReplies (namesThread t)).seals
    rw [seals_dropReplies, mem_filter]
    refine ⟨hx, ?_⟩
    simp [namesThread, hCaller, ← hSrv, hNotCaller, hNotSrv]
  · intro p hp
    obtain ⟨hMem, hNotCaller, hNotSrv⟩ := hOthers p hp
    rcases hAllTracked.blocked p hMem with hBlocked | hBlocked
    all_goals exact (hPhase _ _ _ hNotCaller hNotSrv hBlocked).trans hBlocked.symm
  · intro p hp hSrv
    obtain ⟨-, hNotCaller, hNotSrv⟩ := hOthers p hp
    exact (hPhase _ _ _ hNotSrv hNotCaller hSrv).trans hSrv.symm

theorem sendTo (h : Handed c) (hTracked : CallsTracked c)
    (hSend : c.ipc.sendToEndpoint caller space e c.threads request = ((t, r), .ok ()))
    (hNot : ¬c.threads.Abandons caller) : Handed ⟨r, t⟩ := by
  obtain ⟨p₀, rfl, -, -, -, hCalls, hSeals, -, owner, -, -, hSent⟩ := calls_sendToEndpoint hSend
  intro p hp hAwaits hUnsealed
  rw [hSeals] at hUnsealed
  have hMem := mem_cons.mp (hCalls.mem_iff.mp hp)
  have hOld : p ∈ c.ipc.calls → c.threads.phase p.caller = some (.replyBlocked, p.server) →
      c.threads.phase p.server = some (.ready, p.caller) ∧ p.server ≠ p₀.caller := by
    intro hp hAwaits
    have hSrv := h p hp hAwaits hUnsealed
    refine ⟨hSrv, ?_⟩
    intro hEq
    exact hNot ⟨p.caller, hEq ▸ hSrv, hEq ▸ hAwaits⟩
  rcases hSent with ⟨-, hDeliver⟩ | ⟨-, hBlock⟩
  · obtain ⟨q, hReady, hWaits, hForeign, hPhase⟩ := phase_deliverWaitingReceiver hDeliver
    rcases hMem with rfl | hp
    · rw [hPhase, if_pos rfl]
    rw [hPhase] at hAwaits
    split_ifs at hAwaits with h₁ h₂
    · cases hAwaits
    · have hBlocked := hTracked.blocked p hp
      rw [h₂, hReady] at hBlocked
      simp at hBlocked
    obtain ⟨hSrv, hne⟩ := hOld hp hAwaits
    rw [hPhase, if_neg, if_neg hne, hSrv]
    intro hEq
    rw [hEq, hWaits] at hSrv
    cases hSrv
  · obtain ⟨q, hReady, hForeign, hPhase⟩ := phase_blockSend hBlock
    rw [hPhase] at hAwaits
    split_ifs at hAwaits with h₁
    · cases hAwaits
    rcases hMem with rfl | hp
    · exact absurd rfl h₁
    · obtain ⟨hSrv, hne⟩ := hOld hp hAwaits
      rw [hPhase, if_neg hne, hSrv]

theorem unsealed_before {before after : List ReplySlot} {x : ReplySlot} {a : ThreadId}
    (hSeals : after.Perm (x :: before)) (h : ∀ y ∈ after, y.replySeal.caller ≠ a) :
    a ≠ x.replySeal.caller ∧ ∀ y ∈ before, y.replySeal.caller ≠ a :=
  ⟨(h x (hSeals.mem_iff.mpr mem_cons_self)).symm,
    fun y hy => h y (hSeals.mem_iff.mpr (mem_cons_of_mem _ hy))⟩

theorem receiveFrom (h : Handed c) (hTracked : CallsTracked c) {received : IpcReceived}
    (hRecv : c.ipc.receiveFromEndpoint server space e c.threads = ((t, r), .ok received)) :
    Handed ⟨r, t⟩ := by
  obtain ⟨owner, s, hOwner, hSrv, -, hs, hReady, hCase⟩ := receiveFromEndpoint_ok hRecv
  have hPhase := phase_of_find hs
  rw [hReady] at hPhase
  rcases hCase with ⟨hPeer, p₀, hCall, hSealed, rfl⟩ | ⟨hPeer, p₀, hCall, hSealed, hAccept⟩ |
    ⟨hPeer, -, -, hWait, rfl⟩
  · obtain ⟨hp₀, hCaller, rfl⟩ := mem_of_pendingSlot hCall
    obtain ⟨hCalls, hSeals⟩ := seals_of_sealed hSealed
    intro p hp hAwaits hUnsealed
    rw [hCalls] at hp
    obtain ⟨hNew, hOld⟩ := unsealed_before hSeals hUnsealed
    rw [phase_collect hs] at hAwaits
    split_ifs at hAwaits with hSelf
    · simp [hReady] at hAwaits
    have hBefore := h p hp hAwaits hOld
    rw [phase_collect hs, if_neg, hBefore]
    intro hEq
    rw [hEq, hPhase] at hBefore
    simp only [Option.some.injEq, Prod.mk.injEq, true_and] at hBefore
    exact hNew (hBefore.symm.trans hCaller.symm)
  · obtain ⟨hCalls, hSeals⟩ := seals_of_sealed hSealed
    obtain ⟨-, hQueued, -, hNewPhase⟩ := phase_acceptSender hAccept
    intro p hp hAwaits hUnsealed
    rw [hCalls] at hp
    obtain ⟨hNew, hOld⟩ := unsealed_before hSeals hUnsealed
    rw [hNewPhase, if_neg (show p.caller ≠ p₀.caller from hNew)] at hAwaits
    have hBefore := h p hp hAwaits hOld
    rw [hNewPhase, if_neg, hBefore]
    intro hEq
    rw [hEq, hQueued] at hBefore
    cases hBefore
  · obtain ⟨hOld, hNew⟩ := phase_waitReceive hWait
    refine h.of_phase hTracked ⟨rfl, rfl⟩ hNew ?_
    intro state q hEq
    rw [hOld] at hEq
    cases hEq
    exact ⟨by simp, by simp, fun _ => rfl⟩

theorem replyTo (h : Handed c) (hTracked : CallsTracked c) {replySeal : IpcReplySeal}
    {response : IpcEnvelope}
    (hReply : c.ipc.reply server replySeal c.threads response = ((t, r), .ok ())) :
    Handed ⟨r, t⟩ := by
  obtain ⟨-, -, -, -, -, -, -, -, -, -, hReplied, -⟩ := reply_ok hReply
  obtain ⟨hMem, hSealMem⟩ := hTracked.mem_calls_reply hReply
  obtain ⟨hOld, -, hPhase⟩ := phase_reply hReplied
  refine h.of_fewer (fun p hp => ((hMem p).mp hp).1) ?_ ?_ ?_
  · intro p hp x hx hCaller
    refine (hSealMem x).mpr ⟨hx, ?_⟩
    rw [hCaller]
    exact ((hMem p).mp hp).2
  · intro p hp
    rw [hPhase, if_neg ((hMem p).mp hp).2]
  intro p _ hSrv
  rw [hPhase, if_neg]
  intro hEq
  rw [hEq, hOld] at hSrv
  cases hSrv

theorem coreStep {op : CoreOp} (h : Handed c) (hTracked : CallsTracked c) (hSound : c.Sound)
    (hStep : CoreStep c op c') (hOp : op.Regular)
    (hNot : ∀ caller space e request, op = .sendTo caller space e request →
      ¬c.threads.Abandons caller) : Handed c' := by
  cases hStep with
  | refused => exact h
  | create hCreate =>
    obtain ⟨hNone, hPhase⟩ := phase_createIn hCreate
    exact h.of_phase hTracked ⟨rfl, rfl⟩ hPhase (by simp [hNone])
  | start hStart =>
    obtain ⟨q, hOld, hPhase⟩ := phase_startThread hStart
    refine h.of_phase hTracked ⟨rfl, rfl⟩ hPhase ?_
    intro state q' hEq
    rw [hOld] at hEq
    cases hEq
    exact ⟨by simp, by simp, by simp⟩
  | destroy t => exact h.destroy hTracked hSound t
  | send | receive | reply | expire => exact hOp.elim
  | createEndpoint hCreate =>
    obtain ⟨-, -, -, -, -, -, -, rfl⟩ := create_ok hCreate
    exact h
  | retireEndpoint hRetire => exact h.retire hTracked hSound.linked hRetire
  | sendTo hSend => exact h.sendTo hTracked hSend (hNot _ _ _ _ rfl)
  | receiveFrom hRecv => exact h.receiveFrom hTracked hRecv
  | replyTo hReply => exact h.replyTo hTracked hReply
  | replyRefused | takeReply => exact h
  | takeExpiry t =>
    have hPhase := phase_takeDeadlineExpiry c.threads t
    intro p hp
    rw [hPhase]
    exact h p hp

end Handed

namespace IpcEndpointTable

/-- The three counters count the slots in use. -/
structure Counted (t : IpcEndpointTable) : Prop where
  endpoints : t.active_ = t.endpoints.countP (·.active)
  calls : t.pendingCalls = t.calls.length
  seals : t.replySeals = t.seals.length

theorem countP_modify {α : Type} {l : List α} {p : α → Bool} {f : α → α} {i : Nat} {x : α}
    (hGet : l[i]? = some x) :
    (l.modify i f).countP p + (if p x then 1 else 0) = l.countP p + if p (f x) then 1 else 0 := by
  induction l generalizing i with
  | nil => simp at hGet
  | cons _ _ ih =>
    cases i with
    | zero =>
      simp only [getElem?_cons_zero, Option.some.injEq] at hGet
      subst hGet
      simp only [modify_zero_cons, countP_cons]
      omega
    | succ =>
      have hRest := ih hGet
      simp only [modify_succ_cons, countP_cons]
      omega

theorem length_filter_not {α : Type} (l : List α) (p : α → Bool) :
    (l.filter fun x => !p x).length = l.length - l.countP p := by
  have hSplit := length_eq_countP_add_countP p (l := l)
  have hNot : l.countP (fun x => !p x) = l.countP (fun a => decide ¬p a = true) := by
    apply countP_congr
    intro x _
    simp
  rw [← countP_eq_length_filter, hNot]
  omega

theorem Counted.dropReplies (h : t.Counted) (p : IpcReplySeal → Bool) :
    (t.dropReplies p).Counted := by
  refine ⟨h.endpoints, h.calls, ?_⟩
  rw [seals_dropReplies, length_filter_not, ← h.seals]
  change t.replySeals - t.replies.countP (fun s => s.active && p s.replySeal) = _
  rw [IpcEndpointTable.seals, entries, countP_filter]
  congr 1
  apply countP_congr
  intro s _
  rw [ReplySlot.key_isSome, Bool.and_comm]

theorem Counted.dropPending (h : t.Counted) (p : PendingSlot → Bool) :
    (t.dropPending p).Counted := by
  refine ⟨h.endpoints, ?_, h.seals⟩
  rw [calls_dropPending, length_filter_not, ← h.calls]
  change t.pendingCalls - t.pending.countP (fun s => s.active && p s) = _
  rw [IpcEndpointTable.calls, entries, countP_filter]
  congr 1
  apply countP_congr
  intro s _
  rw [PendingSlot.key_isSome, Bool.and_comm]

theorem Counted.retire {t' : IpcEndpointTable} (h : t.Counted) {r' : Rendezvous}
    (hRetire : t.retire server e r = ((t', r'), .ok ())) :
    t'.Counted := by
  obtain ⟨slot, r₁, hSlot, -, -, -, ht', -⟩ := retire_ok hRetire
  obtain ⟨hGet, -, hActive, -⟩ := slotFor_eq_some.mp hSlot
  have hCnt := countP_modify (p := (·.active)) (f := fun slot : EndpointSlot =>
    { slot with receiveWaiting := false, server := invalidThread, active := false }) hGet
  simp only [hActive, if_true, Bool.false_eq_true, if_false, Nat.add_zero] at hCnt
  have hClosed : { t with
      endpoints := t.endpoints.modify e.slot.toNat fun slot =>
        { slot with receiveWaiting := false, server := invalidThread, active := false }
      active_ := t.active_ - 1 }.Counted := by
    refine ⟨?_, h.calls, h.seals⟩
    have hOld := h.endpoints
    dsimp only
    omega
  rw [ht']
  exact (hClosed.dropReplies fun replySeal => replySeal.endpoint == e).dropPending
    fun s => s.endpoint == e

theorem Counted.releaseThread (h : t.Counted) (thread : ThreadId) (r : Rendezvous) :
    (t.releaseThread thread r).1.1.Counted := by
  apply releaseThread_induction _ (P := fun t _ => t.Counted) h
  · exact fun _ _ _ _ _ hCounted hRetire => hCounted.retire hRetire
  · intro t r hAll
    have hDropped := (hAll.dropReplies (namesThread thread)).dropPending fun s => s.caller == thread
    exact ⟨hDropped.endpoints, hDropped.calls, hDropped.seals⟩

/-- Moving a flag does not change how many endpoints are active. -/
theorem countP_active_setWaiting (endpoints : List EndpointSlot) (i : Nat) (waiting : Bool) :
    (endpoints.modify i fun s => { s with receiveWaiting := waiting }).countP (·.active) =
      endpoints.countP (·.active) := by
  cases hGet : endpoints[i]? with
  | none =>
    rw [modify_eq_self]
    simpa using hGet
  | some =>
    have hCnt := countP_modify (p := (·.active)) (f := fun s : EndpointSlot =>
      { s with receiveWaiting := waiting }) hGet
    exact Nat.add_right_cancel hCnt

theorem counted_coreStep {c c' : Core} {op : CoreOp} (h : c.ipc.Counted)
    (hStep : CoreStep c op c') : c'.ipc.Counted := by
  cases hStep with
  | destroy t => exact h.releaseThread t c.threads
  | createEndpoint hCreate =>
    obtain ⟨-, i, slot, hGet, hActive, -, -, rfl⟩ := create_ok hCreate
    refine ⟨?_, h.calls, h.seals⟩
    obtain ⟨hLt, hEq⟩ := List.getElem?_eq_some_iff.mp hGet
    have hOld := h.endpoints
    have hNone : (c.ipc.endpoints[i]).active = false := by rw [hEq, hActive]
    rw [countP_set hLt]
    simp only [hNone, Bool.false_eq_true, if_false, if_true]
    omega
  | retireEndpoint hRetire => exact h.retire hRetire
  | sendTo hSend =>
    obtain ⟨owner, pending, -, -, hIns, -, rfl⟩ := sendToEndpoint_ok hSend
    refine ⟨?_, ?_, h.seals⟩
    · rw [countP_active_setWaiting]
      exact h.endpoints
    · have hPerm := entries_insert (by rfl) hIns
      have hLen := hPerm.length_eq
      exact (congrArg (· + 1) h.calls).trans hLen.symm
  | receiveFrom hRecv =>
    obtain ⟨owner, s, -, -, -, -, -, hCase⟩ := receiveFromEndpoint_ok hRecv
    have hSeal : ∀ {t' : IpcEndpointTable} {server space e p received},
        c.ipc.Sealed t' server space e p received → t'.Counted := by
      intro t' server space e p received hSealed
      obtain ⟨replies, hIns, rfl⟩ := hSealed.table_eq
      have hPerm := entries_insert (by rfl) hIns
      have hLen := hPerm.length_eq
      exact ⟨h.endpoints, h.calls, (congrArg (· + 1) h.seals).trans hLen.symm⟩
    rcases hCase with ⟨-, p, -, hSealed, -⟩ | ⟨-, p, -, hSealed, -⟩ | ⟨-, -, -, -, rfl⟩
    · exact hSeal hSealed
    · exact hSeal hSealed
    · refine ⟨?_, h.calls, h.seals⟩
      rw [countP_active_setWaiting]
      exact h.endpoints
  | replyTo hReply =>
    obtain ⟨hCalls, hSeals⟩ := calls_reply hReply
    obtain ⟨-, completed, -, -, -, hValid, ⟨x, hx⟩, ⟨p, hp⟩, -, -, -, hTbl⟩ :=
      reply_ok hReply
    obtain ⟨hMem, -, -⟩ := mem_of_pendingSlot hp
    rw [replySlot, hValid] at hx
    have hIs := find?_some hx
    have hActive : x.active = true := by
      simp only [Bool.and_eq_true] at hIs
      exact hIs.1
    have hSealMem : x ∈ c.ipc.seals := mem_seals.mpr ⟨mem_of_find?_eq_some hx, hActive⟩
    refine ⟨?_, ?_, ?_⟩
    · rw [hTbl]
      exact h.endpoints
    · rw [hCalls, length_eraseP_of_mem hMem (find?_some hp), ← h.calls, hTbl]
    · rw [hSeals, length_eraseP_of_mem hSealMem hIs, ← h.seals, hTbl]
  | replyRefused | takeReply => exact ⟨h.endpoints, h.calls, h.seals⟩
  | _ => exact h

end IpcEndpointTable

/-- The seal was made for this call. -/
def sealNames (p : PendingSlot) (x : ReplySlot) : Bool :=
  x.replySeal.caller == p.caller && x.replySeal.server == p.server &&
    x.replySeal.endpoint == p.endpoint

def Core.sealsFor (c : Core) (p : PendingSlot) : List ReplySlot := c.ipc.seals.filter (sealNames p)

def Core.Queued (c : Core) (p : PendingSlot) : Prop :=
  c.threads.phase p.caller = some (.sendBlocked, p.server) ∧ c.sealsFor p = []

def Core.Delivered (c : Core) (p : PendingSlot) : Prop :=
  c.threads.phase p.caller = some (.replyBlocked, p.server) ∧ c.sealsFor p = [] ∧
    c.threads.phase p.server = some (.ready, p.caller)

def Core.InService (c : Core) (p : PendingSlot) : Prop :=
  c.threads.phase p.caller = some (.replyBlocked, p.server) ∧ (c.sealsFor p).length = 1

/-- Every call is accounted for, every seal has its one call, and the counters
agree with the slots. -/
structure CallsAccounted (c : Core) : Prop where
  partner : ∀ p ∈ c.ipc.calls, ∃ state, c.threads.phase p.caller = some (state, p.server)
  single : (c.ipc.calls.map (·.caller)).Nodup
  some_phase : ∀ p ∈ c.ipc.calls, c.Queued p ∨ c.Delivered p ∨ c.InService p
  one_phase : ∀ p ∈ c.ipc.calls, ¬(c.Queued p ∧ c.Delivered p) ∧ ¬(c.Queued p ∧ c.InService p) ∧
    ¬(c.Delivered p ∧ c.InService p)
  sealed : ∀ x ∈ c.ipc.seals, ∃ p, (c.ipc.calls.filter fun p => sealNames p x) = [p] ∧ c.InService p
  counted : c.ipc.Counted

theorem sealNames_iff :
    sealNames p x = true ↔ x.replySeal.caller = p.caller ∧ x.replySeal.server = p.server ∧
      x.replySeal.endpoint = p.endpoint := by
  simp [sealNames, and_assoc]

/-- Entries that are told apart by a key and share it are one entry. -/
theorem filter_eq_singleton {α β : Type} {f : α → β} {l : List α} {p : α → Bool} {x : α}
    (hNodup : (l.map f).Nodup) (hx : x ∈ l) (hp : p x = true)
    (hKey : ∀ y ∈ l, p y = true → f y = f x) : l.filter p = [x] := by
  have hAll : ∀ y ∈ l, p y = true ↔ y = x := by
    intro y hy
    refine ⟨fun hpy => inj_on_of_nodup_map hNodup hy hx (hKey y hy hpy), ?_⟩
    rintro rfl
    exact hp
  have hMem : ∀ y ∈ l.filter p, y = x := by
    intro y hy
    exact (hAll y (mem_filter.mp hy).1).mp (mem_filter.mp hy).2
  have hFilter : (l.filter p).Nodup := hNodup.of_map.filter p
  have hIn : x ∈ l.filter p := mem_filter.mpr ⟨hx, hp⟩
  cases hList : l.filter p with
  | nil => simp [hList] at hIn
  | cons y rest =>
    rw [hList] at hMem hFilter
    have hy := hMem y mem_cons_self
    cases rest with
    | nil => rw [hy]
    | cons z =>
      have hz := hMem z (by simp)
      simp [hy, hz] at hFilter

variable {c : Core}

theorem CallsTracked.sealsFor_eq_nil
    (hNone : ∀ x ∈ c.ipc.seals, x.replySeal.caller ≠ p.caller) : c.sealsFor p = [] := by
  unfold Core.sealsFor
  rw [filter_eq_nil_iff]
  intro x hx hNames
  exact hNone x hx (sealNames_iff.mp hNames).1

theorem CallsTracked.sealsFor_eq_singleton (h : CallsTracked c) (hp : p ∈ c.ipc.calls)
    (hx : x ∈ c.ipc.seals) (hCaller : x.replySeal.caller = p.caller) : c.sealsFor p = [x] := by
  obtain ⟨hEp, hSrv⟩ := Handed.seal_of_caller h hp hx hCaller
  refine filter_eq_singleton h.sealers hx
    (sealNames_iff.mpr ⟨hCaller, hSrv.symm, hEp.symm⟩) ?_
  intro y _ hy
  exact (sealNames_iff.mp hy).1.trans hCaller.symm

theorem CallsTracked.inService (h : CallsTracked c) (hp : p ∈ c.ipc.calls)
    (hx : x ∈ c.ipc.seals) (hCaller : x.replySeal.caller = p.caller) : c.InService p := by
  refine ⟨?_, by rw [h.sealsFor_eq_singleton hp hx hCaller]; rfl⟩
  rw [← hCaller, h.answered x hx, (Handed.seal_of_caller h hp hx hCaller).2]

theorem CallsTracked.accounted (h : CallsTracked c) (hHanded : Handed c)
    (hCounted : c.ipc.Counted) : CallsAccounted c := by
  refine ⟨?_, h.callers, ?_, ?_, ?_, hCounted⟩
  · intro p hp
    rcases h.blocked p hp with hBlocked | hBlocked
    all_goals exact ⟨_, hBlocked⟩
  · intro p hp
    by_cases hSeal : ∃ x ∈ c.ipc.seals, x.replySeal.caller = p.caller
    · obtain ⟨x, hx, hCaller⟩ := hSeal
      exact .inr (.inr (h.inService hp hx hCaller))
    have hNone : ∀ x ∈ c.ipc.seals, x.replySeal.caller ≠ p.caller := by
      intro x hx hCaller
      exact hSeal ⟨x, hx, hCaller⟩
    have hNil := sealsFor_eq_nil hNone
    rcases h.blocked p hp with hBlocked | hBlocked
    · exact .inl ⟨hBlocked, hNil⟩
    · exact .inr (.inl ⟨hBlocked, hNil, hHanded p hp hBlocked hNone⟩)
  · intro p _
    refine ⟨?_, ?_, ?_⟩
    · rintro ⟨⟨hQueued, -⟩, hAwaits, -⟩
      rw [hQueued] at hAwaits
      cases hAwaits
    · rintro ⟨⟨hQueued, -⟩, hAwaits, -⟩
      rw [hQueued] at hAwaits
      cases hAwaits
    · rintro ⟨⟨-, hNil, -⟩, -, hOne⟩
      rw [hNil] at hOne
      cases hOne
  · intro x hx
    obtain ⟨p, hp, hCaller, hEp, hSrv⟩ := h.sealed x hx
    refine ⟨p, ?_, h.inService hp hx hCaller.symm⟩
    refine filter_eq_singleton h.callers hp
      (sealNames_iff.mpr ⟨hCaller.symm, hSrv.symm, hEp.symm⟩) ?_
    intro q _ hq
    exact (sealNames_iff.mp hq).1.symm.trans hCaller.symm

/-- The thread whose call an operation makes. -/
def Op.sender : Op → Option ThreadId
  | .ipcSend caller .. => some caller
  | .ipcSendBound caller .. => some caller.thread
  | _ => none

/-- A server sends a call of its own while the one handed to it is uncollected. -/
def AbandonsDelivery (k : Kernel) (op : Op) : Prop :=
  ∃ caller, op.sender = some caller ∧ k.threads.Abandons caller

theorem sender_of_sendTo {k : Kernel} {env : Env} {op : Op}
    (h : .sendTo caller space e request ∈ k.coreOps env op) : op.sender = some caller := by
  cases performs_of_mem h <;> rfl

/-- Everything the calls of a reachable state satisfy together. -/
structure Kernel.Accounted (k : Kernel) : Prop where
  structured : k.Structured
  sound : k.core.Sound
  tracked : CallsTracked k.core
  handed : Handed k.core
  counted : k.ipc.Counted

theorem Kernel.accounted_empty : Kernel.Accounted {} := by
  have hCalls : ({} : IpcEndpointTable).calls = [] := by decide
  have hSeals : ({} : IpcEndpointTable).seals = [] := by decide
  have hActive : ({} : IpcEndpointTable).endpoints.countP (·.active) = 0 := by decide
  refine ⟨structured_empty, ⟨structured_empty.same.distinct, structured_empty.linked,
    waitingReceivers_empty⟩, callsTracked_empty, ?_,
    ⟨hActive.symm, by rw [hCalls]; rfl, by rw [hSeals]; rfl⟩⟩
  intro p hp
  have hCalls : ({} : Kernel).core.ipc.calls = [] := hCalls
  simp [hCalls] at hp

theorem Kernel.Accounted.step {k : Kernel} (h : k.Accounted) (env : Env) {op : Op}
    (hOp : op.EndpointIpc) (hSends : ¬AbandonsDelivery k op) (hReceives : ¬CollectsQueued k op) :
    (k.step (env, op)).1.Accounted := by
  have hStruct := h.structured.step (env, op)
  have hCore := core_induction h.structured.same env op
    (P := fun c => c.Sound ∧ CallsTracked c ∧ Handed c ∧ c.ipc.Counted)
    ⟨h.sound, h.tracked, h.handed, h.counted⟩ ?_ ?_
  · obtain ⟨hSound, hTracked, hHanded, hCounted⟩ := hCore
    exact ⟨hStruct, hSound, hTracked, hHanded, hCounted⟩
  · intro op' hMem c' hStep
    have hRegular := regular_coreOps hOp hMem
    refine ⟨h.sound.coreStep hStep hRegular, h.tracked.coreStep h.sound hStep hRegular ?_,
      h.handed.coreStep h.tracked h.sound hStep hRegular ?_, counted_coreStep h.counted hStep⟩
    · rintro server space e rfl hHolds
      exact hReceives ⟨server, receiver_of_receiveFrom hMem, hHolds⟩
    · rintro caller space e request rfl hAbandons
      exact hSends ⟨caller, sender_of_sendTo hMem, hAbandons⟩
  · rintro c t ⟨hSound, hTracked, hHanded, hCounted⟩
    exact ⟨hSound.coreStep (.destroy t) trivial,
      hTracked.destroy hSound.linked hSound.distinct hSound.waiting t,
      hHanded.destroy hTracked hSound t, counted_coreStep hCounted (.destroy t)⟩

/-- In every run of endpoint calls in which no server abandons a delivery and
none collects a caller that is still queueing, every call is accounted for in
every state. -/
theorem no_stranded_caller (calls : List (Env × Op)) (hOps : ∀ call ∈ calls, call.2.EndpointIpc)
    (hSteps : Run.EachStep Kernel.step
      (fun k call => ¬AbandonsDelivery k call.2 ∧ ¬CollectsQueued k call.2) {} calls) :
    Run.Always Kernel.step (fun k => CallsAccounted k.core) {} calls := by
  have hRun : Run.Always Kernel.step Kernel.Accounted {} calls := by
    refine Run.always_of_step (C := fun k call => call.2.EndpointIpc ∧
      ¬AbandonsDelivery k call.2 ∧ ¬CollectsQueued k call.2) Kernel.accounted_empty ?_ ?_
    · rintro k ⟨env, op⟩ h ⟨hOp, hSends, hReceives⟩
      exact h.step env hOp hSends hReceives
    · intro n call hCall
      exact ⟨hOps call (List.mem_of_getElem? hCall), hSteps n call hCall⟩
  intro n
  exact (hRun n).tracked.accounted (hRun n).handed (hRun n).counted

/-- A server that waits is handed the call of thread 1 and makes a call of its
own before it collects it. -/
def abandonRun : List (Env × Op) :=
  [({}, .createThread 1 0), ({}, .createThread 2 0), ({}, .createThread 3 0),
   ({}, .createIpcEndpoint 2),
   ({}, .createIpcEndpoint 3),
   ({}, .capability (.mint 2 (ipcObjectId { slot := 0, generation := 1 }) ipcRightReceive false)),
   ({}, .capability (.mint 1 (ipcObjectId { slot := 0, generation := 1 }) ipcRightSend false)),
   ({}, .capability (.mint 2 (ipcObjectId { slot := 1, generation := 1 }) ipcRightSend false)),
   ({}, .ipcReceive 2 1),
   ({}, .ipcSend 1 2 {}),
   ({}, .ipcSend 2 3 {})]

theorem abandonRun_endpointIpc : ∀ call ∈ abandonRun, call.2.EndpointIpc := by
  intro call hCall
  simp only [abandonRun, mem_cons, not_mem_nil, or_false] at hCall
  rcases hCall with rfl | rfl | rfl | rfl | rfl | rfl | rfl | rfl | rfl | rfl | rfl <;> trivial

/-- Thread 1 awaits a reply that no seal can produce any more. -/
theorem abandonRun_strands_caller :
    (∀ call ∈ abandonRun, call.2.EndpointIpc) ∧
      ¬Run.Always Kernel.step (fun k => CallsAccounted k.core) {} abandonRun := by
  refine ⟨abandonRun_endpointIpc, ?_⟩
  intro h
  have hAfter := h.final
  have hCalls : ∃ p ∈ (Run.after Kernel.step {} abandonRun).ipc.calls,
      p.caller = 1 ∧ p.server = 2 := by decide +kernel
  have hCaller : (Run.after Kernel.step {} abandonRun).threads.phase 1 =
      some (.replyBlocked, 2) := by decide +kernel
  have hSrv : (Run.after Kernel.step {} abandonRun).threads.phase 2 =
      some (.sendBlocked, 3) := by decide +kernel
  obtain ⟨p, hp, h₁, h₂⟩ := hCalls
  rcases hAfter.some_phase p hp with ⟨hQueued, -⟩ | ⟨-, -, hDelivered⟩ | ⟨-, hSealed⟩
  · change (Run.after Kernel.step {} abandonRun).threads.phase p.caller = _ at hQueued
    rw [h₁, hCaller] at hQueued
    cases hQueued
  · change (Run.after Kernel.step {} abandonRun).threads.phase p.server = _ at hDelivered
    rw [h₂, hSrv] at hDelivered
    cases hDelivered
  · cases hSealed

/-- Up to the hand-over the run meets both conditions. -/
theorem no_stranded_caller_until_abandoned :
    Run.Always Kernel.step (fun k => CallsAccounted k.core) {} (abandonRun.take 10) := by
  apply no_stranded_caller
  · intro call hCall
    exact abandonRun_endpointIpc call (mem_of_mem_take hCall)
  · have hReceives : ¬(Run.after Kernel.step {} (abandonRun.take 8)).threads.HoldsQueued 2 := by
      rintro ⟨q, hReady, hQueued⟩
      cases hReady
      simp at hQueued
    have hSends : ¬(Run.after Kernel.step {} (abandonRun.take 9)).threads.Abandons 1 := by
      rintro ⟨q, hReady, hAwaits⟩
      cases hReady
      simp at hAwaits
    intro n call hCall
    have hn : n < 10 := (List.getElem?_eq_some_iff.mp hCall).1
    interval_cases n
    all_goals
      cases hCall
      refine ⟨?_, ?_⟩
      all_goals
        rintro ⟨thread, hThr, hHolds⟩
        cases hThr <;> first
          | exact hReceives hHolds
          | exact hSends hHolds

end Enml.OsKernel
