import Enml.Invariant.Linked

/-! The run queue against the rendezvous. The scheduler's view is recomputed
after the calls that change a thread's state; the results here say after which
calls it is right. -/
namespace Enml.OsKernel

open Enml.Core Scheduler SlotTable Option IpcEndpointTable Kernel Scheduler.Slot
  IpcContinuationTable

variable {server : ThreadId} {result : Result Unit}

/-- The live list, the rendezvous and the scheduler hold the same threads, and
every scheduler slot shows what the rendezvous says of its thread. -/
structure RunQueueCoherent (k : Kernel) : Prop where
  live_nodup : k.liveThreads.Nodup
  live_iff_thread : ∀ t, t ∈ k.liveThreads ↔
    ∃ slot ∈ k.threads.slots, slot.occupied = true ∧ slot.thread = t
  live_iff_scheduled : ∀ t, t ∈ k.liveThreads ↔
    ∃ slot ∈ k.scheduler.slots, slot.occupied = true ∧ slot.thread = t
  runnable : ∀ slot ∈ k.scheduler.slots, slot.occupied = true →
    (slot.runnable = true ↔ k.threads.stateOf slot.thread = .ok .ready)
  effective : ∀ slot ∈ k.scheduler.slots, slot.occupied = true →
    k.threads.effectivePriorityOf slot.thread = .ok slot.effective

/-- The call ends a bounded wait by waking a blocked receiver. -/
def WakesExpiredReceiver (k : Kernel) (op : Op) : Prop :=
  ∃ now armed slot, op = .ipcExpireOneReceive now ∧
    k.ipcContinuations.expiredReceive now = some armed ∧
    k.threads.find armed.continuation.server = some slot ∧
    slot.state = .receiveBlocked ∧ slot.partner = invalidThread

/-- The cache shows exactly what the rendezvous expects. -/
def InLine (r : Rendezvous) (s : Scheduler) : Prop := ∀ t, s.cached t = r.expected t

namespace Rendezvous

/-- The same threads in an array of the same size. -/
def SameIds (r r' : Rendezvous) : Prop := r'.ids = r.ids ∧ r'.slots.length = r.slots.length

theorem SameIds.trans {r r₁ r₂ : Rendezvous} (h : SameIds r r₁) (h' : SameIds r₁ r₂) :
    SameIds r r₂ := ⟨h'.1.trans h.1, h'.2.trans h.2⟩

theorem SameIds.distinct {r r' : Rendezvous} (h : SameIds r r') (hr : r.Distinct) :
    r'.Distinct := by
  constructor
  · rw [h.1]
    exact hr.nodup
  · rw [h.1]
    exact hr.valid

theorem SameExcept.sameIds {a b : ThreadId} {r r' : Rendezvous} (h : SameExcept a b r r') :
    SameIds r r' := ⟨h.ids, h.length⟩

theorem sameIds_modify (r : Rendezvous) (t : ThreadId) {f : Slot → Slot}
    (hf : ∀ s, (f s).key = s.key) : SameIds r (r.modify t f) :=
  ⟨ids_modify r t hf, length_modify r t f⟩

theorem sameIds_cancelCall (r : Rendezvous) (a b : ThreadId) : SameIds r (r.cancelCall a b).1 := by
  rcases hCancel : r.cancelCall a b with ⟨r', e | ⟨⟩⟩
  · rw [cancelCall_error hCancel]
    exact ⟨rfl, rfl⟩
  obtain ⟨-, -, -, -, -, rfl⟩ := cancelCall_ok hCancel
  refine SameIds.trans (sameIds_modify r a ?_) (sameIds_modify _ b ?_)
  · intro s
    rfl
  · intro s
    split <;> rfl

theorem sameIds_endReceive {w : WakeReason} {r r' : Rendezvous} {t : ThreadId}
    (h : r.endReceive w t = (r', result)) : SameIds r r' := by
  cases result with
  | error =>
    rw [(endReceive_error h).1]
    exact ⟨rfl, rfl⟩
  | ok =>
    obtain ⟨-, -, -, -, rfl⟩ := endReceive_ok h
    exact sameIds_modify r t fun _ => rfl

end Rendezvous

namespace IpcEndpointTable

theorem sameIds_retire {t t' : IpcEndpointTable} {r r' : Rendezvous}
    {e : IpcEndpoint} (h : t.retire server e r = ((t', r'), .ok ())) :
    Rendezvous.SameIds r r' := by
  apply retire_induction h ⟨rfl, rfl⟩
  · exact fun _ => Rendezvous.sameIds_endReceive
  · exact fun r₁ caller server h => h.trans (Rendezvous.sameIds_cancelCall r₁ caller server)

theorem sameIds_releaseThread (t : IpcEndpointTable) (thread : ThreadId) (r : Rendezvous) :
    Rendezvous.SameIds r (t.releaseThread thread r).1.2 :=
  releaseThread_induction _ (P := fun _ r' => Rendezvous.SameIds r r') ⟨rfl, rfl⟩
    (fun _ _ _ _ _ h hRetire => h.trans (sameIds_retire hRetire)) fun _ _ => id

/-- Nobody is woken for the sake of a thread that does not exist. -/
theorem releaseThread_of_find_none {t : IpcEndpointTable} (hLinked : t.Linked)
    {thread : ThreadId} {r : Rendezvous} (hFind : r.find thread = none) :
    (t.releaseThread thread r).1.2 = r := by
  rcases eq_or_ne thread invalidThread with rfl | hThr
  · rw [releaseThread_invalid]
  rw [releaseThread_eq t r hThr]
  have hAll := retireAllOwnedBy_induction thread (P := fun t r' => t.Linked ∧ r' = r)
    ⟨hLinked, rfl⟩ ?_
  · exact hAll.2
  rintro t r₁ t' r' e ⟨hLinked, rfl⟩ hRetire
  refine ⟨hLinked.retire hRetire, ?_⟩
  obtain ⟨slot, r₂, hSlot, -, hSrv, hFirst, -, hLast⟩ := retire_ok hRetire
  rcases hFirst with ⟨-, hCancel⟩ | ⟨-, rfl⟩
  · obtain ⟨sa, ha, -⟩ := Rendezvous.endReceive_ok hCancel
    rw [hFind] at ha
    cases ha
  rw [hLast]
  apply cancelCalls_induction (P := fun r => r = r₂)
  · rfl
  rintro r p hp hActive rfl rfl
  obtain ⟨slot', hSlot', hSrv'⟩ := hLinked.call p (mem_calls.mpr ⟨hp, hActive⟩)
  rw [hSlot] at hSlot'
  cases hSlot'
  apply Rendezvous.cancelCall_of_find_none
  rw [← hSrv', hSrv]
  exact hFind

end IpcEndpointTable

open IpcEndpointTable

/-- The threads stay the same everywhere and a cache in line stays in line. -/
structure QueueKept (k k' : Kernel) : Prop where
  same : SameThreads k'.threads k'.scheduler k'.live k'.liveCount
  inLine : InLine k.threads k.scheduler → InLine k'.threads k'.scheduler

theorem QueueKept.trans {k₁ k₂ k₃ : Kernel} (h : QueueKept k₁ k₂) (h' : QueueKept k₂ k₃) :
    QueueKept k₁ k₃ :=
  ⟨h'.same, fun hInLine => h'.inLine (h.inLine hInLine)⟩

namespace Kernel

variable {k : Kernel}
  {caller : ThreadId} {request response : IpcEnvelope} {resolved : Result IpcEndpoint}
  {done : (IpcEndpointTable × Rendezvous) × Result Unit} {replySeal : IpcReplySeal}

theorem queueKept_synchronise (h : k.SameTables) (k₀ : Kernel) : QueueKept k₀ k.synchronise := by
  rw [synchronise_eq]
  refine ⟨h.of_scheduler_ids (ids_foldl_syncWith _ _ _) (length_foldl_syncWith _ _ _), ?_⟩
  intro _ u
  exact h.cached_synchronise u

variable {k₀ : Kernel} {a : ThreadId} {t t' : IpcEndpointTable} {r r' : Rendezvous}
  {space : AddressSpaceIdentity} {endpoint : IpcEndpoint} {now : UInt64}

theorem queueKept_synchronisePair {b : ThreadId} (h : k.SameTables)
    (hSame : Rendezvous.SameExcept a b k₀.threads k.threads)
    (hSched : k.scheduler = k₀.scheduler) : QueueKept k₀ (k.synchronisePair a b) := by
  rw [synchronisePair_eq]
  constructor
  · split_ifs
    · exact (h.of_scheduler_ids (ids_syncWith _ _ _) (length_syncWith _ _ _)).of_scheduler_ids
        (ids_syncWith _ _ _) (length_syncWith _ _ _)
    · exact h.of_scheduler_ids (ids_syncWith _ _ _) (length_syncWith _ _ _)
  intro hInLine u
  have hCached : ∀ u, k.scheduler.cached u = k₀.threads.expected u := by
    rw [hSched]
    exact hInLine
  exact h.cached_synchronisePair hSame hCached u

theorem queueKept_synchroniseThread (h : k.SameTables)
    (hSame : Rendezvous.SameExcept a a k₀.threads k.threads)
    (hSched : k.scheduler = k₀.scheduler) : QueueKept k₀ (k.synchroniseThread a) := by
  have hPair := queueKept_synchronisePair h hSame hSched
  have hEq : k.synchronisePair a a = k.synchroniseThread a := by simp [synchronisePair]
  rwa [hEq] at hPair

/-- An unsynchronised change that the scheduler could not notice anyway. -/
theorem queueKept_of_sameExcept (h : SameThreads k₀.threads k₀.scheduler k₀.live k₀.liveCount)
    (hSame : Rendezvous.SameExcept invalidThread invalidThread k₀.threads k.threads)
    (hSched : k.scheduler = k₀.scheduler) (hLive : k.live = k₀.live)
    (hCnt : k.liveCount = k₀.liveCount) : QueueKept k₀ k := by
  have hSameIds := hSame.sameIds
  constructor
  · rw [hSched, hLive, hCnt]
    exact h.of_ids hSameIds.1 hSameIds.2
  intro hInLine u
  rw [hSched, hInLine u]
  rcases eq_or_ne u invalidThread with rfl | hu
  · simp [Rendezvous.expected]
  · exact (hSame.expected u hu hu).symm

theorem queueKept_commitIpc {α : Type} {after : Kernel → α → Kernel}
    {done call : (IpcEndpointTable × Rendezvous) × Result α} (h : k.SameTables)
    (hDone : (∃ e, done = ((k.ipc, k.threads), .error e)) ∨ done = call)
    (hErr : ∀ ipc threads e, call = ((ipc, threads), .error e) → threads = k.threads)
    (hOk : ∀ ipc threads value, call = ((ipc, threads), .ok value) →
      QueueKept k (after { k with ipc, threads } value)) :
    QueueKept k (k.commitIpc done after).1 := by
  rcases hDone with ⟨e, rfl⟩ | rfl
  · exact ⟨h, id⟩
  obtain ⟨⟨ipc, threads⟩, e | value⟩ := done
  · obtain rfl := hErr ipc threads e rfl
    exact ⟨h, id⟩
  · exact hOk ipc threads value rfl

/-- The queue after a creation, whichever state the thread starts in. -/
theorem queueKept_finishCreation {state : ThreadState} {t : ThreadId} {p : Priority}
    (hState : state = .ready ∨ state = .admitted)
    (h : k.SameTables) :
    QueueKept k (k.finishCreation t p (k.threads.createIn state t p)).1 := by
  rcases hCreate : k.threads.createIn state t p with ⟨threads, e | ⟨⟩⟩
  · have hSame := Rendezvous.createIn_error hCreate
    subst hSame
    exact ⟨h, id⟩
  obtain ⟨scheduler, hAdmit, hFinish⟩ := finishCreation_ok h hCreate
  have hTables := h.create hCreate hAdmit
  rw [hFinish, synchroniseThread_eq]
  refine ⟨hTables.of_scheduler_ids (ids_syncWith _ _ _) (length_syncWith _ _ _), ?_⟩
  intro hInLine u
  dsimp only [track]
  rcases eq_or_ne u t with rfl | hu
  · exact cached_syncWith_self (hTables.cached_isSome u)
  · rw [cached_syncWith_ne _ _ hu, cached_admitThread_ne hAdmit hu, hInLine u,
      Rendezvous.expected_createIn_ne hCreate hState hu]

theorem threads_untrack (k : Kernel) (t : ThreadId) : (k.untrack t).threads = k.threads := by
  unfold untrack
  split <;> rfl

theorem scheduler_untrack (k : Kernel) (t : ThreadId) : (k.untrack t).scheduler = k.scheduler := by
  unfold untrack
  split <;> rfl

theorem queueKept_destroyThread (h : k.SameTables)
    (hLinked : k.ipc.Linked) (t : ThreadId) : QueueKept k (k.destroyThread t).1 := by
  have hRelease := sameIds_releaseThread k.ipc t k.threads
  have hReleased : SameThreads (k.ipc.releaseThread t k.threads).1.2 k.scheduler k.live
      k.liveCount := h.of_ids hRelease.1 hRelease.2
  unfold destroyThread
  dsimp only
  rcases hExit : (k.ipc.releaseThread t k.threads).1.2.exitThread t with ⟨threads, e | n⟩
  · obtain ⟨rfl, hFind⟩ := Rendezvous.exitThread_error hExit
    have hFind : k.threads.find t = none := by
      have hNot : ¬(k.threads.find t).isSome := by
        rw [Rendezvous.find_isSome_iff h.distinct, ← hRelease.1,
          ← Rendezvous.find_isSome_iff hReleased.distinct, hFind]
        simp
      simpa using hNot
    have hSame := releaseThread_of_find_none hLinked hFind
    refine ⟨hReleased, ?_⟩
    intro hInLine
    rw [hSame]
    exact hInLine
  · apply queueKept_synchronise
    unfold Kernel.SameTables
    rw [threads_untrack, scheduler_untrack]
    refine SameThreads.exit ?_ hExit
    exact hReleased

theorem queueKept_send (h : k.SameTables) (a b : ThreadId) : QueueKept k (k.send a b).1 := by
  unfold send
  rcases hSend : k.threads.send a b with ⟨threads, e | ⟨⟩⟩
  · have hSame := Rendezvous.send_error hSend
    subst hSame
    exact ⟨h, id⟩
  · have hSame := Rendezvous.sameExcept_send hSend
    exact queueKept_synchronisePair (h.of_ids hSame.ids hSame.length) hSame rfl

theorem queueKept_receive (h : k.SameTables) (a : ThreadId) : QueueKept k (k.receive a).1 := by
  unfold receive
  rcases hRecv : k.threads.receive a with ⟨threads, e | b⟩
  · rcases Rendezvous.receive_error hRecv with rfl | ⟨ha, rfl⟩
    · exact ⟨h, id⟩
    · exact queueKept_of_sameExcept h (Rendezvous.sameExcept_clearWake _ _ _ ha) rfl rfl rfl
  · have hSame := Rendezvous.sameExcept_receive hRecv
    exact queueKept_synchronisePair (h.of_ids hSame.ids hSame.length) hSame rfl

theorem queueKept_reply (h : k.SameTables) (a b : ThreadId) : QueueKept k (k.reply a b).1 := by
  unfold reply
  rcases hReply : k.threads.reply a b with ⟨threads, e | ⟨⟩⟩
  · have hSame := Rendezvous.reply_error hReply
    subst hSame
    exact ⟨h, id⟩
  · have hSame := Rendezvous.sameExcept_reply hReply
    exact queueKept_synchronisePair (h.of_ids hSame.ids hSame.length) hSame rfl

theorem queueKept_threadStart (h : k.SameTables)
    (t : ThreadId) : QueueKept k (k.threadStart t).1 := by
  unfold threadStart
  rcases hStart : k.threads.startThread t with ⟨threads, e | ⟨⟩⟩
  · have hSame := Rendezvous.startThread_error hStart
    subst hSame
    exact ⟨h, id⟩
  · have hSame := Rendezvous.sameExcept_startThread (b := t) hStart
    exact queueKept_synchroniseThread (h.of_ids hSame.ids hSame.length) hSame rfl

theorem queueKept_retireIpcEndpoint (h : k.SameTables)
    (server : ThreadId) (endpoint : IpcEndpoint) :
    QueueKept k (k.retireIpcEndpoint server endpoint).1 := by
  unfold retireIpcEndpoint
  rcases hRetire : k.ipc.retire server endpoint k.threads with ⟨⟨ipc, threads⟩, e | ⟨⟩⟩
  · obtain ⟨rfl, rfl⟩ := retire_error hRetire
    exact ⟨h, id⟩
  · have hSame := sameIds_retire hRetire
    apply queueKept_synchronise
    exact h.of_ids hSame.1 hSame.2

/-- A successful send touches the caller and the endpoint's server. -/
theorem sameExcept_sendToEndpoint
    (hSend : t.sendToEndpoint caller space endpoint r request = ((t', r'), .ok ())) :
    ∃ server, Rendezvous.SameExcept caller server r r' := by
  obtain ⟨owner, -, -, -, -, hSent, -⟩ := sendToEndpoint_ok hSend
  refine ⟨owner.server, ?_⟩
  rcases hSent with ⟨-, hDeliver⟩ | ⟨-, hBlock⟩
  · exact Rendezvous.sameExcept_deliverWaitingReceiver hDeliver
  · exact Rendezvous.sameExcept_blockSend hBlock

/-- Both sends, once the capability has been resolved. -/
theorem queueKept_sent (h : k.SameTables) (hDone : done = match resolved with
      | .error e => ((k.ipc, k.threads), .error e)
      | .ok endpoint => k.ipc.sendToEndpoint caller space endpoint k.threads request) :
    QueueKept k (k.commitIpc done fun k _ => k.synchronise).1 := by
  cases resolved with
  | error =>
    rw [hDone]
    exact ⟨h, id⟩
  | ok =>
    refine queueKept_commitIpc h (.inr hDone) (fun _ _ _ hErr => (sendToEndpoint_error hErr).2) ?_
    intro _ _ _ hOk
    obtain ⟨server, hSame⟩ := sameExcept_sendToEndpoint hOk
    apply queueKept_synchronise
    exact h.of_ids hSame.ids hSame.length

/-- A successful receive touches the server and the caller it reports. -/
theorem sameExcept_receiveFromEndpoint {received : IpcReceived}
    (hRecv : t.receiveFromEndpoint server space endpoint r = ((t', r'), .ok received)) :
    Rendezvous.SameExcept server received.caller r r' := by
  obtain ⟨owner, s, -, -, -, hs, hReady, hCase⟩ := receiveFromEndpoint_ok hRecv
  rcases hCase with ⟨-, call, -, -, rfl⟩ | ⟨-, call, -, hSealed, hAccept⟩ | ⟨-, -, -, hWait, -⟩
  · have hWake := Rendezvous.sameExcept_clearWake server received.caller r
      (Rendezvous.ne_invalid_of_find hs)
    refine hWake.trans
      (Rendezvous.sameExcept_clearPartner (s := { s with wake := .none }) ?_ hReady)
    rw [Rendezvous.find_modify, if_pos rfl, hs]
    · rfl
    · intro s
      rfl
  · rw [hSealed.received_eq]
    exact Rendezvous.sameExcept_acceptSender hAccept
  · exact Rendezvous.sameExcept_waitReceive hWait

theorem queueKept_received (h : k.SameTables)
    {done : (IpcEndpointTable × Rendezvous) × Result IpcReceived}
    (hDone : done = match resolved with
      | .error e => ((k.ipc, k.threads), .error e)
      | .ok endpoint => k.ipc.receiveFromEndpoint server space endpoint k.threads) :
    QueueKept k
      (k.commitIpc done fun k received => k.synchronisePair server received.caller).1 := by
  cases resolved with
  | error =>
    rw [hDone]
    exact ⟨h, id⟩
  | ok =>
    refine queueKept_commitIpc h (.inr hDone)
      (fun _ _ _ hErr => (receiveFromEndpoint_error hErr).2) ?_
    intro _ _ _ hOk
    have hSame := sameExcept_receiveFromEndpoint hOk
    exact queueKept_synchronisePair (h.of_ids hSame.ids hSame.length) hSame rfl

/-- A reply that got past its own checks touches the server and the caller. -/
theorem replied_spec (hReply : t.reply server replySeal r response = ((t', r'), result)) :
    (∀ e, result = .error e → r' = r) ∧
      (result = .ok () → Rendezvous.SameExcept server replySeal.caller r r') := by
  constructor
  · rintro e rfl
    exact (reply_error hReply).1
  · rintro rfl
    obtain ⟨-, -, -, -, -, -, -, -, -, -, hReplied, -⟩ := reply_ok hReply
    exact Rendezvous.sameExcept_reply hReplied

theorem queueKept_repliedPair (h : k.SameTables)
    (hDone : (∃ e, done = ((k.ipc, k.threads), .error e)) ∨
      done = k.ipc.reply server replySeal k.threads response) :
    QueueKept k (k.commitIpc done fun k _ => k.synchronisePair server replySeal.caller).1 := by
  refine queueKept_commitIpc h hDone (fun _ _ e hErr => (replied_spec hErr).1 e rfl) ?_
  intro _ _ _ hOk
  have hSame := (replied_spec hOk).2 rfl
  exact queueKept_synchronisePair (h.of_ids hSame.ids hSame.length) hSame rfl

theorem queueKept_repliedAll (h : k.SameTables) (server : ThreadId)
    (hDone : (∃ e, done = ((k.ipc, k.threads), .error e)) ∨
      ∃ replySeal, done = k.ipc.reply server replySeal k.threads response) :
    QueueKept k (k.commitIpc done fun k _ => k.synchronise).1 := by
  rcases hDone with ⟨e, rfl⟩ | ⟨replySeal, hReply⟩
  · exact ⟨h, id⟩
  refine queueKept_commitIpc h (.inr hReply) (fun _ _ e hErr => (replied_spec hErr).1 e rfl) ?_
  intro _ _ _ hOk
  have hSame := (replied_spec hOk).2 rfl
  apply queueKept_synchronise
  exact h.of_ids hSame.ids hSame.length

theorem replyBound_cases (t : IpcEndpointTable) (server : ExecutionAuthority)
    (replySeal : IpcReplySeal) (r : Rendezvous) (response : IpcEnvelope) :
    (∃ e, t.replyBound server replySeal r response = ((t, r), .error e)) ∨
      (t.replyBound server replySeal r response = t.reply server.thread replySeal r response ∧
        (replySeal.serverAddressSpace.valid = true →
          server.addressSpace = replySeal.serverAddressSpace)) := by
  unfold replyBound
  split_ifs with hValid hSpace
  · exact .inl ⟨_, rfl⟩
  · exact .inl ⟨_, rfl⟩
  · refine .inr ⟨rfl, ?_⟩
    intro hBound
    simpa [hBound] using hSpace

theorem queueKept_onContinuations {α : Type} (h : k.SameTables) (t : ThreadId)
    (call : IpcContinuationTable → IpcContinuationTable × Result α) :
    QueueKept k (k.onContinuations t call).1 := by
  unfold onContinuations
  split <;> exact ⟨h, id⟩

theorem queueKept_takeDeadlineExpiry (h : k.SameTables)
    (t : ThreadId) : QueueKept k (k.ipcTakeDeadlineExpiry t).1 := by
  change QueueKept k { k with threads := (k.threads.takeDeadlineExpiry t).1 }
  rcases Rendezvous.takeDeadlineExpiry_eq k.threads t with hTake | ⟨ht, hTake⟩
  · rw [hTake]
    exact ⟨h, id⟩
  · rw [hTake]
    exact queueKept_of_sameExcept h (Rendezvous.sameExcept_clearWake _ _ _ ht) rfl rfl rfl

theorem queueKept_dispatchInterrupt (h : k.SameTables)
    (source : InterruptSource) : QueueKept k (k.dispatchInterrupt source).1 := by
  unfold dispatchInterrupt
  split
  · exact ⟨h, id⟩
  dsimp only
  split
  · rename_i taken _ _
    have hDelivery : ∀ k₁ : Kernel, k₁.threads = k.threads → k₁.scheduler = k.scheduler →
        k₁.live = k.live → k₁.liveCount = k.liveCount →
        QueueKept k (k₁.synchroniseThread taken.owner) := by
      intro k₁ hThrs hSched hLive hCnt
      apply queueKept_synchroniseThread
      · unfold Kernel.SameTables
        rw [hThrs, hSched, hLive, hCnt]
        exact h
      · rw [hThrs]
        exact Rendezvous.SameExcept.refl _ _ _
      · exact hSched
    unfold beginDelivery
    split
    · exact hDelivery _ rfl rfl rfl rfl
    split
    all_goals exact hDelivery _ rfl rfl rfl rfl
  · exact ⟨h, id⟩

/-- The wake itself: everything but the cache of the woken thread is right. -/
theorem expire_eq {armed : IpcContinuationTable.ReceiveSlot}
    (hArmed : k.ipcContinuations.expiredReceive now = some armed) :
    k.ipcExpireOneReceive now = ({ k with
      ipcContinuations := (k.ipcContinuations.takeExpiredReceive now).1
      threads := (k.threads.expireReceive armed.continuation.server).1 },
      (k.threads.expireReceive armed.continuation.server).2.map fun _ => true) := by
  unfold ipcExpireOneReceive takeExpiredReceive
  rw [hArmed]
  dsimp only
  rcases k.threads.expireReceive armed.continuation.server with ⟨threads, e | ⟨⟩⟩ <;> rfl

theorem expire_eq_of_none (hArmed : k.ipcContinuations.expiredReceive now = none) :
    k.ipcExpireOneReceive now = (k, .ok false) := by
  unfold ipcExpireOneReceive takeExpiredReceive
  rw [hArmed]
  rfl

theorem queueKept_expire_of_not (h : k.SameTables)
    {now : UInt64} (hNot : ¬WakesExpiredReceiver k (.ipcExpireOneReceive now)) :
    QueueKept k (k.ipcExpireOneReceive now).1 := by
  cases hArmed : k.ipcContinuations.expiredReceive now with
  | none =>
    rw [expire_eq_of_none hArmed]
    exact ⟨h, id⟩
  | some armed =>
    rw [expire_eq hArmed]
    rcases hExpire : k.threads.expireReceive armed.continuation.server with ⟨threads, e | ⟨⟩⟩
    · have hSame := (Rendezvous.endReceive_error hExpire).1
      subst hSame
      exact ⟨h, id⟩
    · obtain ⟨slot, hFind, hState, hPeer, -⟩ := Rendezvous.endReceive_ok hExpire
      exact absurd ⟨now, armed, slot, rfl, hArmed, hFind, hState, hPeer⟩ hNot

theorem sameThreads_expire (h : k.SameTables) (now : UInt64) :
    SameThreads (k.ipcExpireOneReceive now).1.threads (k.ipcExpireOneReceive now).1.scheduler
      (k.ipcExpireOneReceive now).1.live (k.ipcExpireOneReceive now).1.liveCount := by
  cases hArmed : k.ipcContinuations.expiredReceive now with
  | none =>
    rw [expire_eq_of_none hArmed]
    exact h
  | some armed =>
    rw [expire_eq hArmed]
    rcases hExpire : k.threads.expireReceive armed.continuation.server with ⟨threads, result⟩
    have hSame := Rendezvous.sameIds_endReceive hExpire
    exact h.of_ids hSame.1 hSame.2

/-- The woken thread is ready and its cache still shows it blocked. -/
theorem not_inLine_expire (hInLine : InLine k.threads k.scheduler) {now : UInt64}
    (hWakes : WakesExpiredReceiver k (.ipcExpireOneReceive now)) :
    ¬InLine (k.ipcExpireOneReceive now).1.threads (k.ipcExpireOneReceive now).1.scheduler := by
  obtain ⟨now', armed, slot, hOp, hArmed, hFind, hState, hPeer⟩ := hWakes
  cases hOp
  intro hAfter
  have hCached := hAfter armed.continuation.server
  rw [expire_eq hArmed] at hCached
  have hExpire := Rendezvous.endReceive_of_waiting .deadlineExpired hFind hState hPeer
  rw [Rendezvous.expireReceive, hExpire, hInLine, Rendezvous.expected, hFind, Rendezvous.expected,
    Rendezvous.find_modify, if_pos rfl, hFind] at hCached
  · simp [hState] at hCached
  · intro s
    rfl

theorem queueKept_threadAdmit (h : k.SameTables)
    (hLinked : k.ipc.Linked) (env : Env) (creator : ThreadId) (space : CapabilityId)
    (stack : UInt64) (root : SealedTranslationRoot) :
    QueueKept k (k.threadAdmit creator space stack root env.epochs env.translations
      env.executables).1.1 := by
  have hCreated : ∀ threadIdentifiers t p,
      QueueKept k ({ k with threadIdentifiers }.createAdmittedThread t p).1 := by
    intro threadIdentifiers t p
    have hKept := queueKept_finishCreation (k := { k with threadIdentifiers }) (t := t) (p := p)
      (.inr rfl) h
    exact ⟨hKept.same, hKept.inLine⟩
  refine threadAdmit_induction (P := QueueKept k) (fun _ => ⟨h, id⟩) hCreated ?_ env creator space
    stack root
  intro threadIdentifiers t p
  have hCore := core_finishCreation (k := { k with threadIdentifiers }) h .admitted t p
  have hIpc : ({ k with threadIdentifiers }.createAdmittedThread t p).1.ipc = k.ipc :=
    congrArg Core.ipc hCore
  refine (hCreated ..).trans (queueKept_destroyThread (hCreated ..).same ?_ t)
  rw [hIpc]
  exact hLinked

/-- Outside the one wake that is not synchronised, every call keeps the queue. -/
theorem queueKept_step (h : k.SameTables)
    (hLinked : k.ipc.Linked) (env : Env) (op : Op) (hNot : ¬WakesExpiredReceiver k op) :
    QueueKept k (k.step (env, op)).1 := by
  cases op with
  | createThread => exact queueKept_finishCreation (.inl rfl) h
  | createAdmittedThread => exact queueKept_finishCreation (.inr rfl) h
  | threadStart thread => exact queueKept_threadStart h thread
  | threadAdmit creator space stack root =>
    exact queueKept_threadAdmit h hLinked env creator space stack root
  | destroyThread thread => exact queueKept_destroyThread h hLinked thread
  | send sender target => exact queueKept_send h sender target
  | receive self => exact queueKept_receive h self
  | reply self caller => exact queueKept_reply h self caller
  | yield self =>
    change QueueKept k (k.yield self).1
    unfold yield
    split
    · exact ⟨h, id⟩
    refine ⟨h.of_scheduler_ids (ids_yieldSlice _ _)
      (length_yieldSlice _ _), ?_⟩
    intro hInLine u
    exact (cached_yieldSlice _ _ u).trans (hInLine u)
  | createIpcEndpoint | ipcTakeReply | ipcTakeReplyBound | interruptAttach | interruptDetach
  | interruptComplete =>
    dsimp only [step, perform, pure, createIpcEndpoint, ipcTakeReply, ipcTakeReplyBound,
      interruptAttach, interruptDetach, interruptComplete]
    split <;> exact ⟨h, id⟩
  | retireIpcEndpoint server endpoint => exact queueKept_retireIpcEndpoint h server endpoint
  | ipcSend | ipcSendBound => exact queueKept_sent h rfl
  | ipcReceive | ipcReceiveBound => exact queueKept_received h rfl
  | ipcReply => exact queueKept_repliedPair h (.inr rfl)
  | ipcReplyBound server replySeal response =>
    exact queueKept_repliedPair h
      ((replyBound_cases k.ipc server replySeal k.threads response).imp_right And.left)
  | ipcReplyTransaction server transaction =>
    apply queueKept_repliedAll h server
    unfold replyTransaction
    cases k.ipc.replySlotOf server transaction with
    | none => exact .inl ⟨_, rfl⟩
    | some slot => exact .inr ⟨slot.replySeal, rfl⟩
  | ipcReplyTransactionBound server transaction response =>
    apply queueKept_repliedAll h server.thread
    unfold replyTransactionBound
    cases k.ipc.replySlotOf server.thread transaction with
    | none => exact .inl ⟨_, rfl⟩
    | some slot =>
      rcases replyBound_cases k.ipc server slot.replySeal k.threads response with
        hRefused | ⟨hReply, -⟩
      · exact .inl hRefused
      · exact .inr ⟨slot.replySeal, hReply⟩
  | ipcArmSendContinuation | ipcTakeSendContinuation | ipcCancelSendContinuation =>
    exact queueKept_onContinuations h _ _
  | ipcArmReceiveContinuation => exact queueKept_onContinuations h _ _
  | ipcTakeReceiveContinuation | ipcCancelReceiveContinuation =>
    exact queueKept_onContinuations h _ _
  | ipcExpireOneReceive => exact queueKept_expire_of_not h hNot
  | ipcTakeExpiredReceiveContinuation => exact ⟨h, id⟩
  | ipcTakeDeadlineExpiry thread => exact queueKept_takeDeadlineExpiry h thread
  | dispatchInterrupt source => exact queueKept_dispatchInterrupt h source
  | takeDeliveredService => exact ⟨h, id⟩
  | schedule =>
    refine ⟨h.of_scheduler_ids (ids_choose _ _) (length_choose _ _), ?_⟩
    intro hInLine u
    exact (cached_choose _ _ u).trans (hInLine u)
  | addressSpaceCreate creator authority =>
    change QueueKept k (k.addressSpaceCreate creator authority env.epochs).1.1
    unfold addressSpaceCreate
    split
    · exact ⟨h, id⟩
    split
    · exact ⟨h, id⟩
    split <;> exact ⟨h, id⟩
  | addressSpaceBeginDestroy => exact ⟨h, id⟩
  | addressSpaceCompleteDestroy owner space retiring =>
    change QueueKept k (k.addressSpaceCompleteDestroy owner space retiring env.epochs).1.1
    unfold addressSpaceCompleteDestroy
    iterate 3
      split
      · exact ⟨h, id⟩
    split <;> exact ⟨h, id⟩
  | memoryForCapability | mapAuthorize | unmapAuthorize | capability => exact ⟨h, id⟩

/-- What holds of every kernel state whatever has been called. -/
structure Structured (k : Kernel) : Prop where
  same : k.SameTables
  linked : k.ipc.Linked

theorem structured_empty : Structured {} := by
  have hIds : ({} : Rendezvous).ids = [] := by decide
  have hSched : ({} : Scheduler).ids = [] := by decide
  have hCalls : ({} : IpcEndpointTable).calls = [] := by decide
  have hEps : ∀ slot ∈ ({} : IpcEndpointTable).endpoints, slot.active = false := by decide
  refine ⟨⟨⟨?_, ?_⟩, rfl, rfl, rfl, ?_, ?_, ?_⟩, rfl, ?_, ?_⟩
  · simp [hIds]
  · simp [hIds]
  · simp
  · simp [hIds]
  · simp [hIds, hSched]
  · intro slot hMem hActive
    rw [hEps slot hMem] at hActive
    cases hActive
  · simp [hCalls]

theorem Structured.step {k : Kernel} (h : Structured k) (call : Env × Op) :
    Structured (k.step call).1 := by
  obtain ⟨env, op⟩ := call
  have hCore := core_step h.same env op
  refine ⟨?_, ?_⟩
  · by_cases hWakes : WakesExpiredReceiver k op
    · obtain ⟨now, -, -, rfl, -⟩ := hWakes
      exact sameThreads_expire h.same now
    · exact (queueKept_step h.same h.linked env op hWakes).same
  have hLinked : ((k.coreOps env op).foldl CoreOp.apply k.core).ipc.Linked :=
    linked_foldl h.linked
  rw [← hCore] at hLinked
  exact hLinked

/-- Every state a run of the kernel passes through is well structured. -/
theorem structured_run (calls : List (Env × Op)) : Run.Always step Structured {} calls :=
  Run.always_of_invariant structured_empty fun _ call h => h.step call

theorem inLine_step_iff {k : Kernel} (h : Structured k) (hInLine : InLine k.threads k.scheduler)
    (call : Env × Op) :
    InLine (k.step call).1.threads (k.step call).1.scheduler ↔ ¬WakesExpiredReceiver k call.2 := by
  obtain ⟨env, op⟩ := call
  constructor
  · intro hAfter hWakes
    obtain ⟨now, armed, slot, rfl, hRest⟩ := hWakes
    exact not_inLine_expire hInLine ⟨now, armed, slot, rfl, hRest⟩ hAfter
  · intro hNot
    exact (queueKept_step h.same h.linked env op hNot).inLine hInLine

end Kernel

open Kernel

/-- The five statements of coherence are what a cache in line amounts to. -/
theorem runQueueCoherent_iff {k : Kernel} (h : k.Structured) :
    RunQueueCoherent k ↔ InLine k.threads k.scheduler := by
  have hSame := h.same
  have hNodup : k.scheduler.ids.Nodup := hSame.scheduler_perm.nodup_iff.mpr hSame.distinct.nodup
  have hFind := fun {t slot} => (k.scheduler.find_eq_some_iff hNodup hSame.invalid_not_mem :
    k.scheduler.find t = some slot ↔ _)
  constructor
  · intro hCoherent t
    cases hSlot : k.scheduler.find t with
    | none =>
      have hNone := hSame.cached_isSome t
      rw [cached, hSlot] at hNone ⊢
      have hNone : k.threads.expected t = none := by simpa using hNone
      exact hNone.symm
    | some slot =>
      obtain ⟨hMem, hOcc, rfl⟩ := hFind.mp hSlot
      have hRunnable := hCoherent.runnable slot hMem hOcc
      have hEffective := hCoherent.effective slot hMem hOcc
      unfold Rendezvous.stateOf at hRunnable
      unfold Rendezvous.effectivePriorityOf at hEffective
      rw [cached, hSlot, Rendezvous.expected]
      cases hThr : k.threads.find slot.thread with
      | none => simp [hThr] at hEffective
      | some =>
        simp only [hThr, isNone_some, Bool.false_eq_true, if_false,
          Except.ok.injEq] at hRunnable hEffective
        simp only [map_some, cache, hEffective, some.injEq, Prod.mk.injEq, and_true]
        rw [Bool.eq_iff_iff, hRunnable, beq_iff_eq]
  · intro hInLine
    refine ⟨hSame.live_perm.nodup_iff.mpr hSame.distinct.nodup, ?_, ?_, ?_, ?_⟩
    · intro t
      rw [liveThreads, hSame.live_perm.mem_iff, Rendezvous.ids, mem_keys_iff]
      simp [Rendezvous.Slot.key]
    · intro t
      rw [liveThreads, hSame.live_perm.mem_iff, ← hSame.scheduler_perm.mem_iff, ids, mem_keys_iff]
      simp [key]
    · intro slot hMem hOcc
      have hCached := hInLine slot.thread
      rw [cached, hFind.mpr ⟨hMem, hOcc, rfl⟩, Rendezvous.expected] at hCached
      unfold Rendezvous.stateOf
      cases hThr : k.threads.find slot.thread with
      | none => simp [hThr] at hCached
      | some =>
        simp only [hThr, map_some, cache, some.injEq, Prod.mk.injEq] at hCached
        simp [hCached.1]
    · intro slot hMem hOcc
      have hCached := hInLine slot.thread
      rw [cached, hFind.mpr ⟨hMem, hOcc, rfl⟩, Rendezvous.expected] at hCached
      unfold Rendezvous.effectivePriorityOf
      cases hThr : k.threads.find slot.thread with
      | none => simp [hThr] at hCached
      | some =>
        simp only [hThr, map_some, cache, some.injEq, Prod.mk.injEq] at hCached
        simp [hCached.2]

/-- A run keeps the run queue coherent in every state it passes through exactly
when none of its calls wakes a receiver whose deadline has passed. -/
theorem run_queue_coherent_iff (calls : List (Env × Op)) :
    Run.Always step RunQueueCoherent {} calls ↔
      Run.EachStep step (fun k call => ¬WakesExpiredReceiver k call.2) {} calls := by
  have hStruct := structured_run calls
  have hInLine : Run.Always step (fun k => InLine k.threads k.scheduler) {} calls ↔
      Run.EachStep step (fun k call => ¬WakesExpiredReceiver k call.2) {} calls := by
    apply Run.always_iff_eachStep (W := Kernel.Structured) structured_empty
    · intro k call h
      exact h.step call
    · intro t
      have hNoThr : ({} : Rendezvous).find t = none := by
        rcases eq_or_ne t invalidThread with rfl | ht
        · exact Rendezvous.find_invalid _
        · rw [Rendezvous.find_eq_lookup _ ht, lookup_eq_none_iff]
          have hIds : keys Rendezvous.Slot.key ({} : Rendezvous).slots = [] := by decide
          simp [hIds]
      have hCached := structured_empty.same.cached_isSome t
      rw [Rendezvous.expected, hNoThr] at hCached ⊢
      simpa using hCached
    · intro k call h hIn
      exact inLine_step_iff h hIn call
  rw [← hInLine]
  constructor
  · intro h n
    exact (runQueueCoherent_iff (hStruct n)).mp (h n)
  · intro h n
    exact (runQueueCoherent_iff (hStruct n)).mpr (h n)

/-- A server waits on its endpoint with a deadline and the deadline passes. -/
def expiryRun : List (Env × Op) :=
  let env : Env := { epochs := ({} : AddressSpaceEpochAuthority).acquire.1 }
  [(env, .createThread 1 0), (env, .createIpcEndpoint 1),
   (env, .capability (.mint 1 (ipcObjectId { slot := 0, generation := 1 }) ipcRightReceive false)),
   (env, .ipcArmReceiveContinuation 1 { slot := 0, generation := 1, asid := 1 } 1 4096 5),
   (env, .ipcReceive 1 1),
   (env, .ipcExpireOneReceive 10)]

/-- After the expiry the server is ready and the scheduler still skips it. -/
theorem expiryRun_not_coherent : ¬Run.Always step RunQueueCoherent {} expiryRun := by
  intro h
  have hRunnable := (h 6).runnable
  have hSlot : ∃ slot ∈ (Run.after step {} (expiryRun.take 6)).scheduler.slots,
      slot.occupied = true ∧ slot.runnable = false ∧
        (Run.after step {} (expiryRun.take 6)).threads.stateOf slot.thread =
          .ok .ready := by decide +kernel
  obtain ⟨slot, hMem, hOcc, hFalse, hReady⟩ := hSlot
  have hTrue := (hRunnable slot hMem hOcc).mpr hReady
  rw [hFalse] at hTrue
  cases hTrue

/-- In every state of a run a decision serves the threads in turn, as the scheduler
has been told of them, and, where the run queue is coherent, as the rendezvous has
them. -/
theorem schedule_serves (calls : List (Env × Op)) :
    Run.Always step (fun k => ∀ now k' d, k.schedule now = (k', d) →
      d.Serves k.scheduler.cached ∧ d.InTurn k'.scheduler ∧
        (RunQueueCoherent k → d.Serves k.threads.expected)) {} calls := by
  rintro n now _ _ ⟨⟩
  have hStruct := structured_run calls n
  obtain ⟨hServes, hTurn⟩ := choose_spec
    (hStruct.same.scheduler_perm.nodup_iff.mpr hStruct.same.distinct.nodup)
    hStruct.same.invalid_not_mem (rfl : Scheduler.choose _ now = _)
  refine ⟨hServes, hTurn, fun hCoherent => ?_⟩
  rwa [← funext ((runQueueCoherent_iff hStruct).mp hCoherent)]

end Enml.OsKernel
