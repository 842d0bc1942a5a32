import Enml.Safety.Calls
import Enml.Safety.ThreadDeath

/-! What a thread asleep in a system call is waiting for, and which operations
can take it away. -/
namespace Enml.OsKernel

open Rendezvous IpcEndpointTable SlotTable CoreOp CallsTracked

variable {a server caller : ThreadId} {new : ThreadState × ThreadId} {e : IpcEndpoint} {op : CoreOp}
  {ipc : IpcEndpointTable}

namespace Core

/-- `t` is blocked in a call, or its answer has not been collected. -/
def AwaitsReply (c : Core) (t : ThreadId) : Prop :=
  ∃ state q, c.threads.phase t = some (state, q) ∧
    (state = .sendBlocked ∨ state = .replyBlocked ∨ (c.ipc.completedSlot t).isSome)

/-- `t` is blocked in a receive, or was woken for a sender that it has not collected
and that is blocked on its reply. -/
def AwaitsMessage (c : Core) (t : ThreadId) : Prop :=
  c.threads.phase t = some (.receiveBlocked, invalidThread) ∨
    ∃ q, c.threads.phase t = some (.ready, q) ∧ c.threads.phase q = some (.replyBlocked, t)

/-- The operations that may end the wait for a reply without an answer. -/
def EndsCall (c : Core) (t : ThreadId) : CoreOp → Prop
  | .destroy s => t = s ∨ c.threads.phase t = some (.sendBlocked, s) ∨
      c.threads.phase t = some (.replyBlocked, s)
  | .retireEndpoint _ e => ∃ p ∈ c.ipc.calls, p.endpoint = e
  | .takeReply caller => t = caller
  | _ => False

/-- The operations that may end the wait for a message. -/
def EndsReceive (c : Core) (t : ThreadId) : CoreOp → Prop
  | .destroy s => t = s ∨ c.threads.phase t = some (.ready, s)
  | .retireEndpoint server e =>
    (∃ p ∈ c.ipc.calls, p.endpoint = e) ∨ t = server ∧ c.ipc.receiveWaiting e = true
  | .sendTo caller .. => t = caller
  | .receiveFrom server .. => t = server
  | .replyTo server replySeal _ => t = server ∧ c.threads.phase t = some (.ready, replySeal.caller)
  | .expire server => t = server
  | _ => False

variable {c c' : Core} {t : ThreadId}

/-- A write to one phase keeps the wait, unless it releases a blocked caller. -/
theorem AwaitsReply.of_phase (h : c.AwaitsReply t)
    (hPhase : ∀ u, c'.threads.phase u = if u = a then some new else c.threads.phase u)
    (hCompleted : c'.ipc.completedSlot t = c.ipc.completedSlot t)
    (hNew : (∀ q, c.threads.phase a ≠ some (.sendBlocked, q) ∧
        c.threads.phase a ≠ some (.replyBlocked, q)) ∨
      new.1 = .sendBlocked ∨ new.1 = .replyBlocked) : c'.AwaitsReply t := by
  obtain ⟨state, q, hOld, hWhy⟩ := h
  have hAt := hPhase t
  rw [← hCompleted] at hWhy
  split_ifs at hAt with ht
  · refine ⟨new.1, new.2, hAt, ?_⟩
    rcases hNew with hNot | hSend | hReply
    · rcases hWhy with rfl | rfl | hDone
      · exact absurd (ht ▸ hOld) (hNot q).1
      · exact absurd (ht ▸ hOld) (hNot q).2
      · exact .inr (.inr hDone)
    · exact .inl hSend
    · exact .inr (.inl hReply)
  · exact ⟨state, q, hAt.trans hOld, hWhy⟩

theorem AwaitsReply.of_phase_eq (h : c.AwaitsReply t)
    (hPhase : c'.threads.phase t = c.threads.phase t)
    (hCompleted : c'.ipc.completedSlot t = c.ipc.completedSlot t) : c'.AwaitsReply t := by
  obtain ⟨state, q, hOld, hWhy⟩ := h
  exact ⟨state, q, hPhase.trans hOld, hCompleted ▸ hWhy⟩

theorem AwaitsMessage.of_phase_eq (h : c.AwaitsMessage t)
    (hPhase : c'.threads.phase = c.threads.phase) : c'.AwaitsMessage t := by
  unfold AwaitsMessage
  rwa [hPhase]

/-- A write to one phase keeps the wait, unless it takes the receiver or the sender out of it. -/
theorem AwaitsMessage.of_phase (h : c.AwaitsMessage t)
    (hPhase : ∀ u, c'.threads.phase u = if u = a then some new else c.threads.phase u)
    (hSelf : t = a → ∀ state q, c.threads.phase a = some (state, q) →
      state ≠ .receiveBlocked ∧ state ≠ .ready)
    (hSender : c.threads.phase a = some (.replyBlocked, t) →
      c.threads.phase t ≠ some (.ready, a)) : c'.AwaitsMessage t := by
  rcases h with hWait | ⟨q, hHeld, hBlocked⟩
  · left
    rw [hPhase, if_neg fun ht => (hSelf ht _ _ (ht ▸ hWait)).1 rfl]
    exact hWait
  · refine .inr ⟨q, ?_, ?_⟩
    · rw [hPhase, if_neg fun ht => (hSelf ht _ _ (ht ▸ hHeld)).2 rfl]
      exact hHeld
    · rw [hPhase, if_neg]
      · exact hBlocked
      · rintro rfl
        exact hSender hBlocked hHeld

/-- Without calls at the endpoint, retirement touches nobody but a waiting owner. -/
theorem phase_retire_of_no_calls {r : Rendezvous}
    (hRetire : c.ipc.retire server e c.threads = ((ipc, r), .ok ()))
    (hNone : ∀ p ∈ c.ipc.calls, p.endpoint ≠ e) (u : ThreadId) :
    r.phase u = c.threads.phase u ∨ u = server ∧ c.ipc.receiveWaiting e = true ∧
        c.threads.phase u = some (.receiveBlocked, invalidThread) ∧
        r.phase u = some (.ready, invalidThread) := by
  obtain ⟨slot, r₁, hSlot, -, -, hFirst, -, hr⟩ := retire_ok hRetire
  have hSame : r = r₁ := by
    rw [hr]
    apply cancelCalls_induction (P := fun r => r = r₁) rfl
    intro r₂ p hMem hActive hEp _
    exact absurd hEp (hNone p (mem_calls.mpr ⟨hMem, hActive⟩))
  rw [hSame]
  rcases hFirst with ⟨hWaiting, hCancel⟩ | ⟨-, rfl⟩
  · obtain ⟨hOld, hPhase⟩ := phase_endReceive hCancel
    rw [hPhase u]
    split_ifs with hu
    · right
      exact ⟨hu, by rw [receiveWaiting, hSlot]; exact hWaiting, hu ▸ hOld, rfl⟩
    · exact .inl rfl
  · exact .inl rfl

/-- The death of `s` leaves the others as they were, except those blocked on it. -/
theorem phase_destroy (hDist : c.threads.Distinct) (hLinked : c.ipc.Linked) {s u : ThreadId}
    (hu : u ≠ s) :
    (apply c (.destroy s)).threads.phase u = c.threads.phase u ∨
      (∃ state, c.threads.phase u = some (state, s) ∧
        (state = .sendBlocked ∨ state = .replyBlocked ∨ state = .receiveBlocked)) ∧
      s ≠ invalidThread ∧
      (apply c (.destroy s)).threads.phase u = some (.ready, invalidThread) := by
  show ((c.ipc.releaseThread s c.threads).1.2.exitThread s).1.phase u = _ ∨ _
  rcases hExit : (c.ipc.releaseThread s c.threads).1.2.exitThread s with ⟨r, e | n⟩
  · obtain ⟨rfl, hFind⟩ := exitThread_error hExit
    have hGone : c.threads.find s = none := by
      have hIds := sameIds_releaseThread c.ipc s c.threads
      have hNot : ¬s ∈ (c.ipc.releaseThread s c.threads).1.2.ids := by
        rw [← find_isSome_iff (hIds.distinct hDist), hFind]
        simp
      rw [hIds.1, ← find_isSome_iff hDist] at hNot
      simpa using hNot
    left
    rw [releaseThread_of_find_none hLinked hGone]
  · have hs : s ≠ invalidThread := by
      obtain ⟨slot, hFind⟩ := Option.isSome_iff_exists.mp (exitThread_ok hExit).1
      exact ne_invalid_of_find hFind
    have hReleased : ReleasedFrom s c.threads (c.ipc.releaseThread s c.threads).1.2 := by
      rw [releaseThread_eq c.ipc c.threads hs]
      exact releasedFrom_retireAllOwnedBy hLinked s c.threads
    have hExited := phase_exitThread
      ((sameIds_releaseThread c.ipc s c.threads).distinct hDist) hExit u
    have hApply : apply c (.destroy s) = ⟨r, (c.ipc.releaseThread s c.threads).1.1⟩ := by
      simp [apply, hExit]
    rw [hApply]
    rw [hExited, if_neg hu]
    rcases hReleased u hu with hSame | ⟨hBlocked, hReady⟩
    · rw [hSame]
      split_ifs with hOn
      · right
        refine ⟨?_, hs, rfl⟩
        rcases hOn with hOn | hOn | hOn
        · exact ⟨_, hOn, .inl rfl⟩
        · exact ⟨_, hOn, .inr (.inl rfl)⟩
        · exact ⟨_, hOn, .inr (.inr rfl)⟩
      · exact .inl rfl
    · right
      refine ⟨?_, hs, by simp [hReady]⟩
      rcases hBlocked with hBlocked | hBlocked
      · exact ⟨_, hBlocked, .inl rfl⟩
      · exact ⟨_, hBlocked, .inr (.inl rfl)⟩

theorem completedSlot_discard {u s : ThreadId} (hu : u ≠ s) :
    (ipc.discardCompletedFor s).completedSlot u = ipc.completedSlot u :=
  lookup_modify_ne hu fun _ _ h => nomatch h

theorem completedSlot_destroy {s u : ThreadId} (hu : u ≠ s) :
    (apply c (.destroy s)).ipc.completedSlot u = c.ipc.completedSlot u := by
  show (c.ipc.releaseThread s c.threads).1.1.completedSlot u = _
  rcases eq_or_ne s invalidThread with rfl | hs
  · rw [releaseThread_invalid]
  rw [releaseThread_eq c.ipc c.threads hs, completedSlot_discard hu]
  show lookup CompletedSlot.key u
    (c.ipc.retireAllOwnedBy s c.threads).1.1.completed = _
  rw [completed_retireAllOwnedBy]
  rfl

theorem AwaitsReply.replyTo (h : c.AwaitsReply t) {r : Rendezvous} {replySeal : IpcReplySeal}
    {response : IpcEnvelope}
    (hReply : c.ipc.reply server replySeal c.threads response = ((ipc, r), .ok ())) :
    AwaitsReply ⟨r, ipc⟩ t := by
  obtain ⟨-, completed, -, -, -, -, -, -, -, hIns, hReplied, rfl⟩ := reply_ok hReply
  obtain ⟨-, -, hPhase⟩ := phase_reply hReplied
  rcases eq_or_ne t replySeal.caller with rfl | ht
  · refine ⟨.ready, invalidThread, by rw [hPhase, if_pos rfl], .inr (.inr ?_)⟩
    show (lookup CompletedSlot.key replySeal.caller completed).isSome = true
    rw [lookup_isSome_iff]
    exact (keys_insert (by rfl) hIns).mem_iff.mpr
      List.mem_cons_self
  · refine h.of_phase_eq (by rw [hPhase, if_neg ht]) ?_
    exact lookup_insert_ne (by rfl) ht hIns

/-- The wait for a reply outlasts every operation but those that end it. -/
theorem AwaitsReply.coreStep (h : c.AwaitsReply t) (hDist : c.threads.Distinct)
    (hLinked : c.ipc.Linked) (hStep : CoreStep c op c') (hOp : op.UsesEndpoints)
    (hNot : ¬c.EndsCall t op) : c'.AwaitsReply t := by
  cases hStep with
  | refused => exact h
  | create hCreate =>
    obtain ⟨hNone, hPhase⟩ := phase_createIn hCreate
    exact h.of_phase hPhase rfl (.inl fun q => by simp [hNone])
  | start hStart =>
    obtain ⟨q, hOld, hPhase⟩ := phase_startThread hStart
    exact h.of_phase hPhase rfl (.inl fun q => by simp [hOld])
  | destroy =>
    simp only [EndsCall, not_or] at hNot
    obtain ⟨hts, hSend, hReply⟩ := hNot
    have hCompleted := completedSlot_destroy (c := c) hts
    rcases phase_destroy hDist hLinked hts with hSame | ⟨⟨state, hOld, hBlocked⟩, -, hNew⟩
    · exact h.of_phase_eq hSame hCompleted
    obtain ⟨state', q, hPhase, hWhy⟩ := h
    rw [hOld] at hPhase
    cases hPhase
    refine ⟨.ready, invalidThread, hNew, .inr (.inr ?_)⟩
    rw [hCompleted]
    rcases hWhy with rfl | rfl | hDone
    · exact absurd hOld hSend
    · exact absurd hOld hReply
    · exact hDone
  | send | receive | reply => exact hOp.elim
  | createEndpoint hCreate =>
    obtain ⟨-, -, -, -, -, -, -, rfl⟩ := create_ok hCreate
    exact h
  | @retireEndpoint server e ipc r hRetire =>
    have hNone : ∀ p ∈ c.ipc.calls, p.endpoint ≠ e := fun p hp hEq => hNot ⟨p, hp, hEq⟩
    have hCompleted : ipc.completed = c.ipc.completed := by
      obtain ⟨-, r₁, -, -, -, -, hipc, -⟩ := retire_ok hRetire
      rw [hipc, completed_closeEndpoint]
    have hSlot : ipc.completedSlot t = c.ipc.completedSlot t := by
      unfold completedSlot
      rw [hCompleted]
    rcases phase_retire_of_no_calls hRetire hNone t with hSame | ⟨-, -, hOld, hNew⟩
    · exact h.of_phase_eq hSame hSlot
    obtain ⟨state, q, hPhase, hWhy⟩ := h
    rw [hOld] at hPhase
    cases hPhase
    refine ⟨.ready, invalidThread, hNew, .inr (.inr ?_)⟩
    rw [hSlot]
    rcases hWhy with hNo | hNo | hDone
    · cases hNo
    · cases hNo
    · exact hDone
  | sendTo hSend =>
    obtain ⟨owner, pending, -, -, -, hSent, rfl⟩ := sendToEndpoint_ok hSend
    rcases hSent with ⟨-, hDeliver⟩ | ⟨-, hBlock⟩
    · obtain ⟨q, hCaller, hSrv, hne, hPhase⟩ := phase_deliverWaitingReceiver hDeliver
      obtain ⟨state, q', hOld, hWhy⟩ := h
      have hAt := hPhase t
      split_ifs at hAt with hts htc
      · rw [hts, hSrv] at hOld
        cases hOld
        refine ⟨_, _, hAt, .inr (.inr ?_)⟩
        rcases hWhy with hNo | hNo | hDone
        · cases hNo
        · cases hNo
        · exact hDone
      · exact ⟨_, _, hAt, .inr (.inl rfl)⟩
      · exact ⟨state, q', hAt.trans hOld, hWhy⟩
    · obtain ⟨q, -, -, hPhase⟩ := phase_blockSend hBlock
      exact h.of_phase hPhase rfl (.inr (.inl rfl))
  | receiveFrom hRecv =>
    obtain ⟨owner, s, -, -, -, hFind, hReady, hCase⟩ := receiveFromEndpoint_ok hRecv
    have hSrv := phase_of_find hFind
    rw [hReady] at hSrv
    rcases hCase with ⟨-, call, -, hSealed, rfl⟩ | ⟨-, call, -, hSealed, hAccept⟩ |
      ⟨-, -, -, hWait, rfl⟩
    · obtain ⟨replies, -, rfl⟩ := hSealed.table_eq
      exact h.of_phase (phase_collect hFind) rfl (.inl fun q => by simp [hSrv])
    · obtain ⟨replies, -, rfl⟩ := hSealed.table_eq
      obtain ⟨-, -, -, hPhase⟩ := phase_acceptSender hAccept
      exact h.of_phase hPhase rfl (.inr (.inr rfl))
    · exact h.of_phase (phase_waitReceive hWait).2 rfl (.inl fun q => by simp [hSrv])
  | replyTo hReply => exact h.replyTo hReply
  | replyRefused hReplied =>
    refine h.of_phase_eq rfl ?_
    unfold replied at hReplied
    unfold completedSlot
    rw [← lookup_entries, hReplied, lookup_entries]
  | takeReply => exact h.of_phase_eq rfl (completedSlot_discard hNot)
  | expire hExpire =>
    obtain ⟨hOld, hPhase⟩ := phase_endReceive hExpire
    exact h.of_phase hPhase rfl (.inl fun q => by simp [hOld])
  | takeExpiry => exact h.of_phase_eq (by rw [phase_takeDeadlineExpiry]) rfl

/-- The wait for a message outlasts every operation but those that end it. -/
theorem AwaitsMessage.coreStep (h : c.AwaitsMessage t) (hDist : c.threads.Distinct)
    (hLinked : c.ipc.Linked) (hStep : CoreStep c op c') (hOp : op.UsesEndpoints)
    (hNot : ¬c.EndsReceive t op) : c'.AwaitsMessage t := by
  cases hStep with
  | refused => exact h
  | create hCreate =>
    obtain ⟨hNone, hPhase⟩ := phase_createIn hCreate
    exact h.of_phase hPhase (fun _ state q hOld => by simp [hNone] at hOld) (by simp [hNone])
  | start hStart =>
    obtain ⟨q, hOld, hPhase⟩ := phase_startThread hStart
    refine h.of_phase hPhase (fun _ state q' hAt => ?_) (by simp [hOld])
    rw [hOld] at hAt
    cases hAt
    simp
  | @destroy s =>
    simp only [EndsReceive, not_or] at hNot
    obtain ⟨hts, hNotHeld⟩ := hNot
    rcases h with hWait | ⟨q, hHeld, hBlocked⟩
    · left
      rcases phase_destroy hDist hLinked hts with hSame | ⟨⟨state, hOld, -⟩, hs, -⟩
      · exact hSame.trans hWait
      · rw [hWait] at hOld
        cases hOld
        exact absurd rfl hs
    have hqs : q ≠ s := by
      rintro rfl
      exact hNotHeld hHeld
    refine .inr ⟨q, ?_, ?_⟩
    · rcases phase_destroy hDist hLinked hts with hSame | ⟨⟨state, hOld, hNo⟩, -⟩
      · exact hSame.trans hHeld
      · rw [hHeld] at hOld
        cases hOld
        simp at hNo
    · rcases phase_destroy hDist hLinked hqs with hSame | ⟨⟨state, hOld, -⟩, -⟩
      · exact hSame.trans hBlocked
      · rw [hBlocked] at hOld
        cases hOld
        exact absurd rfl hts
  | send | receive | reply => exact hOp.elim
  | createEndpoint hCreate =>
    obtain ⟨-, -, -, -, -, -, -, rfl⟩ := create_ok hCreate
    exact h
  | @retireEndpoint server e ipc r hRetire =>
    simp only [EndsReceive, not_or] at hNot
    have hNone : ∀ p ∈ c.ipc.calls, p.endpoint ≠ e := fun p hp hEq => hNot.1 ⟨p, hp, hEq⟩
    have hKept : ∀ u, u = t ∨ c.threads.phase u ≠ some (.receiveBlocked, invalidThread) →
        r.phase u = c.threads.phase u := by
      intro u hu
      rcases phase_retire_of_no_calls hRetire hNone u with hSame | ⟨hServer, hWaiting, hOld, -⟩
      · exact hSame
      · rcases hu with rfl | hu
        · exact absurd ⟨hServer, hWaiting⟩ hNot.2
        · exact absurd hOld hu
    rcases h with hWait | ⟨q, hHeld, hBlocked⟩
    · exact .inl ((hKept t (.inl rfl)).trans hWait)
    · exact .inr ⟨q, (hKept t (.inl rfl)).trans hHeld,
        (hKept q (.inr (by simp [hBlocked]))).trans hBlocked⟩
  | sendTo hSend =>
    simp only [EndsReceive] at hNot
    obtain ⟨owner, pending, -, -, -, hSent, rfl⟩ := sendToEndpoint_ok hSend
    rcases hSent with ⟨-, hDeliver⟩ | ⟨-, hBlock⟩
    · obtain ⟨q, hCaller, hSrv, hne, hPhase⟩ := phase_deliverWaitingReceiver hDeliver
      have hAt := hPhase t
      rw [if_neg hNot] at hAt
      split_ifs at hAt with hts
      · refine .inr ⟨_, hAt, ?_⟩
        rw [hPhase, if_neg hne, if_pos rfl, hts]
      rcases h with hWait | ⟨q', hHeld, hBlocked⟩
      · exact .inl (hAt.trans hWait)
      refine .inr ⟨q', hAt.trans hHeld, ?_⟩
      rw [hPhase, if_neg, if_neg]
      · exact hBlocked
      all_goals
        rintro rfl
        simp_all
    · obtain ⟨q, hCaller, -, hPhase⟩ := phase_blockSend hBlock
      exact h.of_phase hPhase (fun ht => absurd ht hNot) (by simp [hCaller])
  | receiveFrom hRecv =>
    simp only [EndsReceive] at hNot
    obtain ⟨owner, s, -, -, -, hFind, hReady, hCase⟩ := receiveFromEndpoint_ok hRecv
    have hSrv := phase_of_find hFind
    rw [hReady] at hSrv
    rcases hCase with ⟨-, call, -, -, rfl⟩ | ⟨-, call, -, -, hAccept⟩ | ⟨-, -, -, hWait, -⟩
    · exact h.of_phase (phase_collect hFind) (fun ht => absurd ht hNot) (by simp [hSrv])
    · obtain ⟨-, hOld, -, hPhase⟩ := phase_acceptSender hAccept
      refine h.of_phase hPhase (fun _ state q hAt => ?_) (by simp [hOld])
      rw [hOld] at hAt
      cases hAt
      simp
    · exact h.of_phase (phase_waitReceive hWait).2 (fun ht => absurd ht hNot) (by simp [hSrv])
  | replyTo hReply =>
    obtain ⟨-, -, -, -, -, -, -, -, -, -, hReplied, -⟩ := reply_ok hReply
    obtain ⟨hOld, -, hPhase⟩ := phase_reply hReplied
    refine h.of_phase hPhase (fun _ state q hAt => ?_) fun hSender hHeld => ?_
    · rw [hOld] at hAt
      cases hAt
      simp
    · rw [hOld] at hSender
      cases hSender
      exact hNot ⟨rfl, hHeld⟩
  | replyRefused | takeReply => exact h
  | expire hExpire =>
    simp only [EndsReceive] at hNot
    obtain ⟨hOld, hPhase⟩ := phase_endReceive hExpire
    exact h.of_phase hPhase (fun ht => absurd ht hNot) (by simp [hOld])
  | takeExpiry => exact h.of_phase_eq (by rw [phase_takeDeadlineExpiry])

end Core

/-- `t` was woken by its deadline and has not been told yet. -/
def Rendezvous.Expired (r : Rendezvous) (t : ThreadId) : Prop :=
  ∃ s, r.find t = some s ∧ s.wake = .deadlineExpired

section Expired

variable {r r' : Rendezvous} {t u : ThreadId}

theorem expired_modify {f : Rendezvous.Slot → Rendezvous.Slot} (h : (r.modify u f).Expired t)
    (hKey : ∀ s, (f s).key = s.key)
    (hWake : ∀ s, (f s).wake = .deadlineExpired → s.wake = .deadlineExpired) : r.Expired t := by
  obtain ⟨s, hFind, hExpired⟩ := h
  rw [find_modify r u t hKey] at hFind
  split_ifs at hFind with ht
  · obtain ⟨s', hFind', rfl⟩ := Option.map_eq_some_iff.mp hFind
    exact ⟨s', ht ▸ hFind', hWake s' hExpired⟩
  · exact ⟨s, hFind, hExpired⟩

theorem expired_cancelCall (h : (r.cancelCall caller server).1.Expired t) : r.Expired t := by
  rcases hCancel : r.cancelCall caller server with ⟨r', e | ⟨⟩⟩
  · rw [hCancel, cancelCall_error hCancel] at h
    exact h
  obtain ⟨sa, sb, -, -, -, rfl⟩ := cancelCall_ok hCancel
  rw [hCancel] at h
  refine expired_modify (expired_modify h (fun s => ?_) (fun s => ?_)) (fun s => rfl)
    (fun s hNo => nomatch hNo)
  · split <;> rfl
  · split <;> exact id

theorem expired_endReceive {w : WakeReason} (hw : w ≠ .deadlineExpired)
    (hEnd : r.endReceive w u = (r', .ok ())) (h : r'.Expired t) : r.Expired t := by
  obtain ⟨sa, -, -, -, rfl⟩ := endReceive_ok hEnd
  exact expired_modify h (fun s => rfl) (fun s hNo => absurd hNo hw)

theorem expired_retire {ipc' : IpcEndpointTable}
    (hRetire : ipc.retire server e r = ((ipc', r'), .ok ())) (h : r'.Expired t) :
    r.Expired t := by
  revert h
  apply retire_induction (P := fun r' => r'.Expired t → r.Expired t) hRetire id
  · exact fun _ hCancel => expired_endReceive (by decide) hCancel
  · exact fun _ _ _ ih hExpired => ih (expired_cancelCall hExpired)

theorem expired_exitThread (hr : r.Distinct) (h : (r.exitThread u).1.Expired t) : r.Expired t := by
  rcases hExit : r.exitThread u with ⟨r', e | n⟩
  · rw [hExit, (exitThread_error hExit).1] at h
    exact h
  rw [hExit] at h
  obtain ⟨s, hFind, hWake⟩ := h
  rcases eq_or_ne t u with rfl | htu
  · rw [find_exitThread_self hr hExit] at hFind
    cases hFind
  rw [find_exitThread_ne hExit htu] at hFind
  obtain ⟨s', hFind', rfl⟩ := Option.map_eq_some_iff.mp hFind
  refine ⟨s', hFind', ?_⟩
  unfold Rendezvous.Slot.release at hWake
  split_ifs at hWake
  exact hWake

/-- Nothing but an expiry marks a thread as expired. -/
theorem expired_coreStep {c c' : Core} (hDist : c.threads.Distinct) (hStep : CoreStep c op c')
    (hOp : op.UsesEndpoints) (hNot : op ≠ .expire t) (h : c'.threads.Expired t) :
    c.threads.Expired t := by
  cases hStep with
  | refused => exact h
  | @create state a p r hCreate =>
    obtain ⟨s, hFind, hWake⟩ := h
    rcases eq_or_ne t a with rfl | hta
    · rw [find_createIn_self hCreate] at hFind
      cases hFind
      cases hWake
    · rw [find_createIn_ne hCreate hta] at hFind
      exact ⟨s, hFind, hWake⟩
  | start hStart =>
    obtain ⟨sa, -, -, rfl⟩ := startThread_ok hStart
    exact expired_modify h (fun s => rfl) fun s => id
  | destroy s =>
    have hReleased := expired_exitThread
      ((sameIds_releaseThread c.ipc s c.threads).distinct hDist) h
    revert hReleased
    apply releaseThread_induction _
      (P := fun _ r => Rendezvous.Expired r t → c.threads.Expired t) id
    · exact fun _ _ _ _ _ ih hRetire hExpired => ih (expired_retire hRetire hExpired)
    · exact fun _ _ => id
  | send | receive | reply => exact hOp.elim
  | createEndpoint => exact h
  | retireEndpoint hRetire => exact expired_retire hRetire h
  | sendTo hSend =>
    obtain ⟨owner, pending, -, -, -, hSent, -⟩ := sendToEndpoint_ok hSend
    rcases hSent with ⟨-, hDeliver⟩ | ⟨-, hBlock⟩
    · obtain ⟨-, -, -, -, -, -, -, -, rfl⟩ := deliverWaitingReceiver_ok hDeliver
      exact expired_modify (expired_modify h (fun s => rfl) fun s => id) (fun s => rfl)
        fun s hNo => nomatch hNo
    · obtain ⟨-, -, -, -, -, -, rfl⟩ := blockSend_ok hBlock
      exact expired_modify h (fun s => rfl) fun s hNo => nomatch hNo
  | receiveFrom hRecv =>
    obtain ⟨owner, s, -, -, -, -, -, hCase⟩ := receiveFromEndpoint_ok hRecv
    rcases hCase with ⟨-, call, -, -, rfl⟩ | ⟨-, call, -, -, hAccept⟩ | ⟨-, -, -, hWait, -⟩
    · exact expired_modify (expired_modify h (fun s => rfl) fun s => id) (fun s => rfl)
        fun s hNo => nomatch hNo
    · obtain ⟨-, -, -, -, -, -, -, -, rfl⟩ := acceptSender_ok hAccept
      exact expired_modify (expired_modify h (fun s => rfl) fun s => id) (fun s => rfl)
        fun s hNo => nomatch hNo
    · obtain ⟨-, -, -, -, rfl⟩ := waitReceive_ok hWait
      exact expired_modify h (fun s => rfl) fun s hNo => nomatch hNo
  | replyTo hReply =>
    obtain ⟨-, -, -, -, -, -, -, -, -, -, hReplied, -⟩ := reply_ok hReply
    obtain ⟨-, -, -, -, -, -, -, rfl⟩ := Rendezvous.reply_ok hReplied
    exact expired_modify h (fun s => rfl) fun s hNo => nomatch hNo
  | replyRefused | takeReply => exact h
  | @expire server r hExpire =>
    obtain ⟨sa, -, -, -, hAll⟩ := find_endReceive hExpire
    obtain ⟨s, hFind, hWake⟩ := h
    rw [hAll t, if_neg] at hFind
    · exact ⟨s, hFind, hWake⟩
    · rintro rfl
      exact hNot rfl
  | takeExpiry s =>
    rcases takeDeadlineExpiry_eq c.threads s with hSame | ⟨-, hSame⟩
    · rwa [hSame] at h
    · rw [hSame] at h
      exact expired_modify h (fun s => rfl) fun s hNo => nomatch hNo

end Expired

/-- Callers are blocked on threads that exist. -/
def Rendezvous.ServersLive (r : Rendezvous) : Prop :=
  ∀ u q, r.phase u = some (.sendBlocked, q) ∨ r.phase u = some (.replyBlocked, q) →
    (r.phase q).isSome

namespace Rendezvous.ServersLive

variable {r r' : Rendezvous}

/-- No thread disappears and every caller's server was or is there. -/
theorem of_phase (h : r.ServersLive) (hLive : ∀ u, (r.phase u).isSome → (r'.phase u).isSome)
    (hBlocked : ∀ u q, r'.phase u = some (.sendBlocked, q) ∨ r'.phase u = some (.replyBlocked, q) →
      (r.phase u = some (.sendBlocked, q) ∨ r.phase u = some (.replyBlocked, q)) ∨
        (r.phase q).isSome) : r'.ServersLive := by
  intro u q hu
  apply hLive
  rcases hBlocked u q hu with hOld | hq
  · exact h u q hOld
  · exact hq

/-- A write to the phase of one thread. -/
theorem of_write (h : r.ServersLive)
    (hPhase : ∀ u, r'.phase u = if u = a then some new else r.phase u)
    (hNew : new.1 = .sendBlocked ∨ new.1 = .replyBlocked → (r.phase new.2).isSome) :
    r'.ServersLive := by
  refine h.of_phase ?_ ?_
  · intro u hu
    rw [hPhase u]
    split_ifs
    · rfl
    · exact hu
  · intro u q hu
    rw [hPhase u] at hu
    split_ifs at hu
    · right
      rcases hu with hu | hu
      · cases hu
        exact hNew (.inl rfl)
      · cases hu
        exact hNew (.inr rfl)
    · exact .inl hu

theorem cancelCall (h : r.ServersLive) (caller server : ThreadId) :
    (r.cancelCall caller server).1.ServersLive := by
  rcases hCancel : r.cancelCall caller server with ⟨r', e | ⟨⟩⟩
  · rw [cancelCall_error hCancel]
    exact h
  obtain ⟨client, owner, hClient, hOwner, -, rfl⟩ := cancelCall_ok hCancel
  have hReady : (r.modify caller fun s =>
      { s with state := .ready, partner := invalidThread, wake := .endpointRetired }).ServersLive :=
    h.of_write (phase_of_find_eq (find_modify_of_find hClient fun _ => rfl)) (by simp)
  refine hReady.of_phase ?_ ?_
  · intro u hu
    unfold phase at hu ⊢
    rw [find_modify _ _ _ fun s => by split <;> rfl]
    split_ifs with hEq
    · subst hEq
      simpa using hu
    · exact hu
  · intro u q hu
    left
    simp only [phase_eq_some] at hu ⊢
    rw [find_modify _ _ _ fun s => by split <;> rfl] at hu
    split_ifs at hu with hEq
    · subst hEq
      rcases hu with ⟨s, hs, hState, hPeer⟩ | ⟨s, hs, hState, hPeer⟩
      all_goals
        obtain ⟨s', hs', rfl⟩ := Option.map_eq_some_iff.mp hs
        split_ifs at hState hPeer with hHeld
        · rw [hHeld.1] at hState
          cases hState
      · exact .inl ⟨s', hs', hState, hPeer⟩
      · exact .inr ⟨s', hs', hState, hPeer⟩
    · exact hu

theorem retire {ipc' : IpcEndpointTable} (h : r.ServersLive)
    (hRetire : ipc.retire server e r = ((ipc', r'), .ok ())) :
    r'.ServersLive := by
  apply retire_induction (P := ServersLive) hRetire h
  · exact fun _ hCancel => h.of_write (phase_endReceive hCancel).2 (by simp)
  · exact fun _ caller server ih => ih.cancelCall caller server

theorem destroy {c : Core} (h : c.threads.ServersLive) (hDist : c.threads.Distinct)
    (s : ThreadId) : (apply c (.destroy s)).threads.ServersLive := by
  have hReleased : (c.ipc.releaseThread s c.threads).1.2.ServersLive :=
    releaseThread_induction _ (P := fun _ r => Rendezvous.ServersLive r) h
      (fun _ _ _ _ _ ih hRetire => ih.retire hRetire) fun _ _ => id
  have hIds := (sameIds_releaseThread c.ipc s c.threads).distinct hDist
  show ((c.ipc.releaseThread s c.threads).1.2.exitThread s).1.ServersLive
  rcases hExit : (c.ipc.releaseThread s c.threads).1.2.exitThread s with ⟨r, e | n⟩
  · rw [(exitThread_error hExit).1]
    exact hReleased
  have hPhase := phase_exitThread hIds hExit
  intro u q hu
  rw [hPhase u] at hu
  split_ifs at hu with hus hOn
  · simp at hu
  · simp at hu
  have hLive := hReleased u q hu
  rw [hPhase q, if_neg]
  · split_ifs
    · rfl
    · exact hLive
  rintro rfl
  apply hOn
  rcases hu with hu | hu
  · exact .inl hu
  · exact .inr (.inl hu)

theorem coreStep {c c' : Core} (h : c.threads.ServersLive) (hDist : c.threads.Distinct)
    (hStep : CoreStep c op c') (hOp : op.UsesEndpoints)
    (hState : ∀ state t p, op = .create state t p → state = .ready ∨ state = .admitted) :
    c'.threads.ServersLive := by
  cases hStep with
  | create hCreate =>
    refine h.of_write (phase_createIn hCreate).2 ?_
    rcases hState _ _ _ rfl with rfl | rfl <;> simp
  | start hStart =>
    obtain ⟨q, -, hPhase⟩ := phase_startThread hStart
    exact h.of_write hPhase (by simp)
  | destroy s => exact h.destroy hDist s
  | send | receive | reply => exact hOp.elim
  | retireEndpoint hRetire => exact h.retire hRetire
  | sendTo hSend =>
    obtain ⟨owner, pending, -, -, -, hSent, -⟩ := sendToEndpoint_ok hSend
    rcases hSent with ⟨-, hDeliver⟩ | ⟨-, hBlock⟩
    · obtain ⟨q, hCaller, hSrv, -, hPhase⟩ := phase_deliverWaitingReceiver hDeliver
      refine h.of_phase ?_ ?_
      · intro u hu
        rw [hPhase u]
        split_ifs
        · rfl
        · rfl
        · exact hu
      · intro u q' hu
        rw [hPhase u] at hu
        split_ifs at hu
        · simp at hu
        · simp only [Option.some.injEq, Prod.mk.injEq, reduceCtorEq, false_and, true_and,
            false_or] at hu
          right
          rw [← hu, hSrv]
          rfl
        · exact .inl hu
    · obtain ⟨sa, -, -, -, hTarget, hFind⟩ := find_blockSend hBlock
      refine h.of_write (phase_of_find_eq hFind) fun _ => ?_
      simpa [phase] using hTarget
  | receiveFrom hRecv =>
    obtain ⟨owner, s, -, -, -, hFind, hReady, hCase⟩ := receiveFromEndpoint_ok hRecv
    rcases hCase with ⟨-, call, -, -, rfl⟩ | ⟨-, call, -, -, hAccept⟩ | ⟨-, -, -, hWait, -⟩
    · exact h.of_write (phase_collect hFind) (by simp [hReady])
    · obtain ⟨-, -, -, hPhase⟩ := phase_acceptSender hAccept
      exact h.of_write hPhase fun _ => by simp [phase, hFind]
    · exact h.of_write (phase_waitReceive hWait).2 (by simp)
  | replyTo hReply =>
    obtain ⟨-, -, -, -, -, -, -, -, -, -, hReplied, -⟩ := IpcEndpointTable.reply_ok hReply
    exact h.of_write (phase_reply hReplied).2.2 (by simp)
  | expire hExpire => exact h.of_write (phase_endReceive hExpire).2 (by simp)
  | takeExpiry t =>
    unfold ServersLive
    rw [phase_takeDeadlineExpiry]
    exact h
  | _ => exact h

end Rendezvous.ServersLive

/-- Every call under way has a request that can be delivered. -/
def IpcEndpointTable.RequestsValid (t : IpcEndpointTable) : Prop :=
  ∀ p ∈ t.calls, p.request.valid = true

theorem request_valid_of_send {t t' : IpcEndpointTable} {r r' : Rendezvous}
    {space : AddressSpaceIdentity} {request : IpcEnvelope}
    (h : t.sendToEndpoint caller space e r request = ((t', r'), .ok ())) :
    request.valid = true := by
  unfold sendToEndpoint at h
  split at h
  · cases h
  · rename_i hValid
    simpa using hValid

theorem calls_destroy (c : Core) (s : ThreadId) :
    ∀ p ∈ (apply c (.destroy s)).ipc.calls, p ∈ c.ipc.calls := by
  show ∀ p ∈ (c.ipc.releaseThread s c.threads).1.1.calls, p ∈ c.ipc.calls
  apply releaseThread_induction _ (P := fun t _ => ∀ p ∈ t.calls, p ∈ c.ipc.calls) (fun _ => id)
  · intro t r t' r' e ih hRetire p hp
    rw [(calls_retire hRetire).1] at hp
    exact ih p (List.mem_filter.mp hp).1
  · intro t _ ih p hp
    rw [calls_discardCompletedFor, calls_dropPending] at hp
    exact ih p (List.mem_filter.mp hp).1

theorem IpcEndpointTable.RequestsValid.coreStep {c c' : Core} (h : c.ipc.RequestsValid)
    (hStep : CoreStep c op c') : c'.ipc.RequestsValid := by
  cases hStep with
  | destroy s => exact fun p hp => h p (calls_destroy c s p hp)
  | createEndpoint hCreate =>
    obtain ⟨-, -, -, -, -, -, -, rfl⟩ := create_ok hCreate
    exact h
  | retireEndpoint hRetire =>
    intro p hp
    rw [(calls_retire hRetire).1] at hp
    exact h p (List.mem_filter.mp hp).1
  | sendTo hSend =>
    obtain ⟨call, -, -, hReq, -, hPerm, -⟩ := calls_sendToEndpoint hSend
    intro p hp
    rcases List.mem_cons.mp (hPerm.mem_iff.mp hp) with rfl | hOld
    · rw [hReq]
      exact request_valid_of_send hSend
    · exact h p hOld
  | receiveFrom hRecv =>
    intro p hp
    rw [IpcEndpointTable.calls, (receiveFromEndpoint_tables hRecv).1] at hp
    exact h p hp
  | replyTo hReply =>
    intro p hp
    rw [(calls_reply hReply).1] at hp
    exact h p (List.mem_of_mem_eraseP hp)
  | _ => exact h

end Enml.OsKernel
