import Enml.Invariant.Capability
import Enml.Safety.RunQueue

/-! Calls that fail. Several of them write a table before the last check that
can refuse them; in the states the kernel reaches, each such check either cannot
fail any more or is followed by the exact undoing of what was written. -/
namespace Enml.OsKernel

open Enml.Core SlotTable IpcEndpointTable Rendezvous List InterruptTable
  CompletedSlot

variable {server : ThreadId} {replySeal : IpcReplySeal} {response : IpcEnvelope}
  {caller : ExecutionAuthority}

namespace Rendezvous

variable {r r' : Rendezvous}

/-- Once a receiver is ready nothing further can refuse it, so the wake reason
is not cleared in vain. -/
theorem receive_refused (hDist : r.Distinct) {self : ThreadId} {e : Error}
    (h : r.receive self = (r', .error e)) : r' = r := by
  unfold receive at h
  split at h
  · cases h
    rfl
  rename_i hSelf
  split at h
  · cases h
    rfl
  rename_i receiver hRcvr
  split at h
  · cases h
    rfl
  rename_i hReady
  rw [not_not] at hReady
  have hCleared : (r.modify self fun s => { s with wake := .none }).find self =
      some { receiver with wake := .none } := by
    rw [find_modify, if_pos rfl, hRcvr]
    · rfl
    · intro s
      rfl
  have hDist' : (r.modify self fun s => { s with wake := .none }).Distinct :=
    hDist.modify self fun s => rfl
  generalize (r.modify self fun s => { s with wake := .none }) = cleared at h hCleared hDist'
  dsimp only at h
  split at h
  · cases h
  rename_i hPeer
  rw [not_not] at hPeer
  split at h
  · rename_i sender hFound
    have hSender := List.find?_some hFound
    simp only [Bool.and_eq_true, beq_iff_eq] at hSender
    obtain ⟨⟨hOcc, hBlocked⟩, hWaits⟩ := hSender
    have hKey : sender.key = some sender.thread := by simp [Slot.key, hOcc]
    have hFind := find_of_mem hDist' (mem_of_find?_eq_some hFound) hKey
    have hOther : self ≠ sender.thread := by
      rintro rfl
      rw [hCleared] at hFind
      cases hFind
      rw [hReady] at hBlocked
      cases hBlocked
    have hAccepts : ∃ after, cleared.acceptSender self sender.thread = (after, .ok ()) := by
      unfold acceptSender
      rw [hCleared, hFind]
      simp [hSelf, ne_invalid_of_find hFind, hOther, hReady, hBlocked, hWaits]
    obtain ⟨after, hAccepts⟩ := hAccepts
    rw [hAccepts] at h
    cases h
  · have hWaits : ∃ after, cleared.waitReceive self = (after, .ok ()) := by
      unfold waitReceive
      rw [hCleared]
      simp [hSelf, hReady, hPeer]
    obtain ⟨after, hWaits⟩ := hWaits
    rw [hWaits] at h
    cases h

end Rendezvous

namespace IpcEndpointTable

variable {t t' : IpcEndpointTable}

/-- A completed slot that is not in use holds nothing. -/
def Vacant (t : IpcEndpointTable) : Prop := ∀ s ∈ t.completed, s.active = false → s = {}

theorem Vacant.of_completed_eq (h : t.Vacant) (hSame : t'.completed = t.completed) : t'.Vacant := by
  intro s hs
  rw [hSame] at hs
  exact h s hs

theorem Vacant.discardCompletedFor (h : t.Vacant) (caller : ThreadId) :
    (t.discardCompletedFor caller).Vacant := by
  intro s hs hFree
  rcases mem_updateFirst hs with hOld | ⟨_, -, rfl⟩
  · exact h s hOld hFree
  · rfl

theorem Vacant.insert (h : t.Vacant) {new : CompletedSlot} (hNew : new.active = true)
    {completed : List CompletedSlot}
    (hIns : insert key new t.completed = some completed) :
    Vacant { t with completed } := by
  intro s hs hFree
  obtain ⟨front, free, back, hBefore, -, -, rfl⟩ := insert_eq_some hIns
  have hCases : s ∈ front ++ free :: back ∨ s = new := by
    have hs : s ∈ front ++ new :: back := hs
    simp only [mem_append, mem_cons] at hs ⊢
    tauto
  rcases hCases with hOld | rfl
  · exact h s (hBefore ▸ hOld) hFree
  · rw [hNew] at hFree
    cases hFree

/-- A reply that is refused after its response was stored takes it out again. -/
theorem reply_refused (hVacant : t.Vacant) {r r' : Rendezvous} {e : Error}
    (h : t.reply server replySeal r response = ((t', r'), .error e)) : t' = t ∧ r' = r := by
  obtain ⟨hThrs, -⟩ := reply_error h
  refine ⟨?_, hThrs⟩
  unfold reply at h
  iterate 7
    split at h
    · cases h; rfl
  rename_i hDone
  split at h
  · cases h; rfl
  rename_i completed hIns
  split at h
  · cases h
    have hAbsent : lookup key replySeal.caller t.completed = none := by
      simpa [completedSlot] using hDone
    have hFree : ∀ s ∈ t.completed, s.key = none → s = {} := by
      intro s hs hKey
      apply hVacant s hs
      simpa [key] using hKey
    have hUndone := modify_insert (by rfl) hAbsent hFree hIns
    show { t with
      completed := (modify key replySeal.caller (fun _ => {}) completed) } = t
    rw [hUndone]
  · cases h

theorem Vacant.reply (hVacant : t.Vacant) {r : Rendezvous} :
    (t.reply server replySeal r response).1.1.Vacant := by
  rcases hReply : t.reply server replySeal r response with ⟨⟨t', r'⟩, e | ⟨⟩⟩
  · rw [(reply_refused hVacant hReply).1]
    exact hVacant
  · obtain ⟨owner, completed, -, -, -, -, -, -, -, hIns, -, rfl⟩ := reply_ok hReply
    exact (hVacant.insert rfl hIns).of_completed_eq rfl

theorem completed_retire {r r' : Rendezvous} {e : IpcEndpoint}
    (h : t.retire server e r = ((t', r'), .ok ())) : t'.completed = t.completed := by
  obtain ⟨slot, r₁, -, -, -, -, rfl, -⟩ := retire_ok h
  rfl

theorem Vacant.releaseThread (hVacant : t.Vacant) (thread : ThreadId) (r : Rendezvous) :
    (t.releaseThread thread r).1.1.Vacant := by
  apply releaseThread_induction _ (P := fun t _ => t.Vacant) hVacant
  · exact fun _ _ _ _ _ h hRetire => h.of_completed_eq (completed_retire hRetire)
  · exact fun _ _ h => Vacant.discardCompletedFor (h.of_completed_eq rfl) thread

end IpcEndpointTable

theorem vacant_coreStep {c c' : Core} {op : CoreOp} (h : c.ipc.Vacant) (hStep : CoreStep c op c')
    (hReply : ∀ server replySeal response, op ≠ .replyTo server replySeal response) :
    c'.ipc.Vacant := by
  cases hStep with
  | destroy thread => exact h.releaseThread thread c.threads
  | createEndpoint hCreate =>
    obtain ⟨-, i, slot, -, -, -, -, rfl⟩ := create_ok hCreate
    exact h.of_completed_eq rfl
  | retireEndpoint hRetire => exact h.of_completed_eq (completed_retire hRetire)
  | sendTo hSend =>
    obtain ⟨owner, pending, -, -, -, -, rfl⟩ := sendToEndpoint_ok hSend
    exact h.of_completed_eq rfl
  | receiveFrom hRecv => exact h.of_completed_eq (receiveFromEndpoint_tables hRecv).2.1
  | replyTo | replyRefused => exact absurd rfl (hReply _ _ _)
  | takeReply => exact h.discardCompletedFor _
  | _ => exact h

/-- The core operations leave nothing in a completed slot they free. -/
theorem vacant_apply {c : Core} (h : c.ipc.Vacant) (op : CoreOp) : (op.apply c).ipc.Vacant := by
  cases op with
  | replyTo => exact h.reply
  | _ => exact vacant_coreStep h (coreStep_apply c _) (by simp)

theorem vacant_foldl {ops : List CoreOp} {c : Core} (h : c.ipc.Vacant) :
    (ops.foldl CoreOp.apply c).ipc.Vacant := by
  induction ops generalizing c with
  | nil => exact h
  | cons op _ ih => exact ih (vacant_apply h op)

def Outcome.failed : Outcome → Bool
  | .unit (.error _) | .flag (.error _) | .torndown (.error _) | .thread (.error _)
  | .endpoint (.error _) | .received (.error _) | .envelope (.error _)
  | .sendContinuation (.error _) | .receiveContinuation (.error _) | .dispatched (.error _)
  | .service (.error _) | .created (.error _) | .retiring (.error _) | .admission (.error _)
  | .memory (.error _) | .map (.error _) | .unmap (.error _)
  | .capability (.issued (.error _)) | .capability (.removed (.error _)) => true
  | _ => false

/-- The calls that promise to leave everything alone when they fail: those on
threads, endpoints, interrupt sources and capabilities. -/
def Op.allOrNothing : Op → Bool
  | .createThread .. | .createAdmittedThread .. | .threadStart .. | .send .. | .receive ..
  | .reply .. | .createIpcEndpoint .. | .retireIpcEndpoint .. | .ipcSend .. | .ipcSendBound ..
  | .ipcReceive .. | .ipcReceiveBound .. | .ipcReply .. | .ipcReplyBound ..
  | .ipcReplyTransaction .. | .ipcReplyTransactionBound .. | .ipcTakeReply ..
  | .ipcTakeReplyBound .. | .interruptAttach .. | .interruptDetach .. | .interruptComplete ..
  | .capability (.mint ..) | .capability (.mintBound ..) | .capability (.grant ..)
  | .capability (.grantBound ..) | .capability (.revoke ..) | .capability (.revokeBound ..) => true
  | _ => false

namespace Kernel

variable {k : Kernel} {e : Error} {t t' : IpcEndpointTable} {r r' : Rendezvous}
  {capability : CapabilityId} {capabilities : CapabilityTable} {request : IpcEnvelope}
  {transaction : IpcTransactionId}

theorem failed_commitIpc {α : Type} {done : (IpcEndpointTable × Rendezvous) × Result α}
    {after : Kernel → α → Kernel}
    (hSame : ∀ t r e, done = ((t, r), .error e) → t = k.ipc ∧ r = k.threads)
    (h : (k.commitIpc done after).2 = .error e) : (k.commitIpc done after).1 = k := by
  obtain ⟨⟨t, r⟩, result⟩ := done
  cases result with
  | error e =>
    obtain ⟨rfl, rfl⟩ := hSame t r e rfl
    rfl
  | ok => cases h

theorem failed_finishCreation (hStruct : k.Structured) {state : ThreadState} {t : ThreadId}
    {p : Priority}
    (h : (k.finishCreation t p (k.threads.createIn state t p)).2 = .error e) :
    (k.finishCreation t p (k.threads.createIn state t p)).1 = k := by
  rcases hCreate : k.threads.createIn state t p with ⟨threads, e | ⟨⟩⟩
  · rw [finishCreation_error, createIn_error hCreate]
  · obtain ⟨scheduler, -, hFinish⟩ := finishCreation_ok hStruct.same hCreate
    rw [hCreate, hFinish] at h
    cases h

theorem send_unchanged {caller : ThreadId}
    (h : t.send caller capability capabilities r request = ((t', r'), .error e)) :
    t' = t ∧ r' = r := by
  unfold IpcEndpointTable.send at h
  split at h
  · cases h
    exact ⟨rfl, rfl⟩
  · exact sendToEndpoint_error h

theorem sendBound_unchanged
    (h : t.sendBound caller capability capabilities r request = ((t', r'), .error e)) :
    t' = t ∧ r' = r := by
  unfold sendBound at h
  split at h
  · cases h
    exact ⟨rfl, rfl⟩
  · exact sendToEndpoint_error h

theorem receive_unchanged (h : t.receive server capability capabilities r = ((t', r'), .error e)) :
    t' = t ∧ r' = r := by
  unfold IpcEndpointTable.receive at h
  split at h
  · cases h
    exact ⟨rfl, rfl⟩
  · exact receiveFromEndpoint_error h

theorem receiveBound_unchanged {server : ExecutionAuthority}
    (h : t.receiveBound server capability capabilities r = ((t', r'), .error e)) :
    t' = t ∧ r' = r := by
  unfold receiveBound at h
  split at h
  · cases h
    exact ⟨rfl, rfl⟩
  · exact receiveFromEndpoint_error h

theorem replyBound_unchanged (hVacant : t.Vacant) {r r' : Rendezvous} {server : ExecutionAuthority}
    (h : t.replyBound server replySeal r response = ((t', r'), .error e)) :
    t' = t ∧ r' = r := by
  unfold replyBound at h
  split at h
  · cases h
    exact ⟨rfl, rfl⟩
  split at h
  · cases h
    exact ⟨rfl, rfl⟩
  · exact reply_refused hVacant h

theorem replyTransaction_unchanged (hVacant : t.Vacant) {r r' : Rendezvous}
    (h : t.replyTransaction server transaction r response = ((t', r'), .error e)) :
    t' = t ∧ r' = r := by
  unfold replyTransaction at h
  split at h
  · cases h
    exact ⟨rfl, rfl⟩
  · exact reply_refused hVacant h

theorem replyTransactionBound_unchanged (hVacant : t.Vacant) {r r' : Rendezvous}
    {server : ExecutionAuthority}
    (h : t.replyTransactionBound server transaction r response = ((t', r'), .error e)) :
    t' = t ∧ r' = r := by
  unfold replyTransactionBound at h
  split at h
  · cases h
    exact ⟨rfl, rfl⟩
  · exact replyBound_unchanged hVacant h

end Kernel

open Kernel

namespace CapabilityTable

variable {t : CapabilityTable} {id : CapabilityId} {held : Slot → Bool} {e : Error}

theorem issue_unchanged {slot : Slot} (h : (t.issue slot).2 = .error e) : (t.issue slot).1 = t := by
  unfold issue at h ⊢
  split_ifs at h ⊢
  · rfl
  · split at h
    · cases h
    · rfl

theorem derive_unchanged {place : Slot → Slot} {rights : Rights} {transferable : Bool}
    (h : (t.derive id held place rights transferable).2 = .error e) :
    (t.derive id held place rights transferable).1 = t := by
  obtain ⟨_, hRefused⟩ | ⟨parent, -, -, -, -, -, hDerive⟩ :=
    Forest.derive_cases (t := t) id held place rights transferable
  · rw [hRefused]
  · rw [hDerive] at h ⊢
    exact issue_unchanged h

theorem revokeWith_unchanged (h : (t.revokeWith held id).2 = .error e) :
    (t.revokeWith held id).1 = t := by
  unfold revokeWith at h ⊢
  split_ifs at h ⊢
  · rfl
  split at h
  · rfl
  · dsimp only at h ⊢
    split_ifs at h ⊢
    · rfl

/-- A capability call that answers with an error has changed nothing. -/
theorem step_unchanged {op : CapabilityOp}
    (h : (t.step op).2 = .issued (.error e) ∨ (t.step op).2 = .removed (.error e)) :
    (t.step op).1 = t := by
  cases op with
  | mint | mintBound =>
    dsimp only [step, Prod.map, mint, mintBound] at h ⊢
    split_ifs at h ⊢
    · rfl
    · rfl
    · exact issue_unchanged (by simpa using h)
  | grant | grantBound =>
    dsimp only [step, Prod.map, grant, grantBound] at h ⊢
    split_ifs at h ⊢
    · rfl
    · rfl
    · exact derive_unchanged (by simpa using h)
  | revoke | revokeBound =>
    dsimp only [step, Prod.map, revoke, revokeBound] at h ⊢
    split_ifs at h ⊢
    · rfl
    · exact revokeWith_unchanged (by simpa using h)
  | revokeAllHeldBy => simp [step, Prod.map] at h

end CapabilityTable

namespace InterruptTable

variable {t : InterruptTable} {driver : ThreadId} {source : InterruptSource} {e : Error}

theorem attach_unchanged (h : (t.attach driver source).2 = .error e) :
    (t.attach driver source).1 = t := by
  unfold attach at h ⊢
  split_ifs at h ⊢
  iterate 3 rfl
  · split at h
    · cases h
    · rfl

theorem detach_unchanged (h : (t.detach driver source).2 = .error e) :
    (t.detach driver source).1 = t := by
  unfold detach at h ⊢
  split at h
  · rfl
  · cases h

theorem endService_unchanged (h : (t.endService driver source).2 = .error e) :
    (t.endService driver source).1 = t := by
  unfold endService at h ⊢
  split at h
  · rfl
  · split_ifs at h ⊢
    · rfl

end InterruptTable

namespace Kernel

variable {k : Kernel}

theorem takeReplyBound_unchanged {t t' : IpcEndpointTable} {e : Error}
    (h : t.takeReplyBound caller = (t', .error e)) : t' = t := by
  unfold takeReplyBound takeReply at h
  iterate 3
    split at h
    · cases h
      rfl
  · cases h

/-- A failed outcome carries an error. -/
theorem failed_of_result {α : Type} {done : Kernel × Result α} (wrap : Result α → Outcome)
    (hWrap : ∀ value, (wrap (.ok value)).failed = false)
    (hFailed : (wrap done.2).failed = true) : ∃ e, done.2 = .error e := by
  cases hRes : done.2 with
  | error e => exact ⟨e, rfl⟩
  | ok value =>
    rw [hRes, hWrap] at hFailed
    cases hFailed

/-- A failed call of these leaves the kernel exactly as it was. -/
theorem unchanged_of_failed (hStruct : k.Structured) (hVacant : k.ipc.Vacant) (env : Env)
    {op : Op} (hOp : op.allOrNothing = true) (hFailed : (k.step (env, op)).2.failed = true) :
    (k.step (env, op)).1 = k := by
  cases op with
  | createThread thread priority | createAdmittedThread thread priority =>
    obtain ⟨e, hErr⟩ := failed_of_result .unit (fun _ => rfl) hFailed
    exact failed_finishCreation hStruct hErr
  | threadStart | send | reply =>
    obtain ⟨e, hErr⟩ := failed_of_result .unit (fun _ => rfl) hFailed
    dsimp only [step, perform, pure]
    dsimp only [threadStart, send, Kernel.reply] at hErr ⊢
    split at hErr
    · rename_i hCall
      first
      | rw [startThread_error hCall]
      | rw [send_error hCall]
      | rw [reply_error hCall]
    · cases hErr
  | receive self =>
    obtain ⟨e, hErr⟩ := failed_of_result .thread (fun _ => rfl) hFailed
    show (k.receive self).1 = k
    unfold receive at hErr ⊢
    split at hErr
    · rename_i hRecv
      rw [receive_refused hStruct.same.distinct hRecv]
    · cases hErr
  | createIpcEndpoint server =>
    obtain ⟨e, hErr⟩ := failed_of_result .endpoint (fun _ => rfl) hFailed
    show (k.createIpcEndpoint server).1 = k
    unfold createIpcEndpoint at hErr ⊢
    split_ifs at hErr ⊢
    · rfl
    · dsimp only at hErr ⊢
      have hSame : (k.ipc.create server).1 = k.ipc := create_error (Prod.ext rfl hErr)
      rw [hSame]
  | retireIpcEndpoint server endpoint =>
    obtain ⟨e, hErr⟩ := failed_of_result .unit (fun _ => rfl) hFailed
    show (k.retireIpcEndpoint server endpoint).1 = k
    unfold retireIpcEndpoint at hErr ⊢
    dsimp only at hErr ⊢
    split at hErr
    · rename_i hRetire
      obtain ⟨rfl, rfl⟩ := retire_error hRetire
      rfl
    · cases hErr
  | ipcSend | ipcSendBound | ipcReply | ipcReplyBound | ipcReplyTransaction
  | ipcReplyTransactionBound =>
    obtain ⟨e, hErr⟩ := failed_of_result .unit (fun _ => rfl) hFailed
    refine failed_commitIpc (fun _ _ _ h => ?_) hErr
    first
    | exact send_unchanged h
    | exact sendBound_unchanged h
    | exact reply_refused hVacant h
    | exact replyBound_unchanged hVacant h
    | exact replyTransaction_unchanged hVacant h
    | exact replyTransactionBound_unchanged hVacant h
  | ipcReceive | ipcReceiveBound =>
    obtain ⟨e, hErr⟩ := failed_of_result .received (fun _ => rfl) hFailed
    refine failed_commitIpc (fun _ _ _ h => ?_) hErr
    first
    | exact receive_unchanged h
    | exact receiveBound_unchanged h
  | ipcTakeReply caller =>
    obtain ⟨e, hErr⟩ := failed_of_result .envelope (fun _ => rfl) hFailed
    show (k.ipcTakeReply caller).1 = k
    unfold ipcTakeReply takeReply at hErr ⊢
    split_ifs at hErr ⊢
    · rfl
    dsimp only at hErr ⊢
    split at hErr
    · rfl
    · cases hErr
  | ipcTakeReplyBound caller =>
    obtain ⟨e, hErr⟩ := failed_of_result .envelope (fun _ => rfl) hFailed
    show (k.ipcTakeReplyBound caller).1 = k
    unfold ipcTakeReplyBound at hErr ⊢
    split_ifs at hErr ⊢
    · rfl
    dsimp only at hErr ⊢
    have hSame : (k.ipc.takeReplyBound caller).1 = k.ipc :=
      takeReplyBound_unchanged (Prod.ext rfl hErr)
    rw [hSame]
  | interruptAttach | interruptDetach =>
    obtain ⟨e, hErr⟩ := failed_of_result .unit (fun _ => rfl) hFailed
    dsimp only [step, perform, pure, interruptAttach, interruptDetach] at hErr ⊢
    split at hErr
    · rfl
    dsimp only at hErr ⊢
    first
    | rw [attach_unchanged hErr]
    | rw [detach_unchanged hErr]
  | interruptComplete driver capability =>
    obtain ⟨e, hErr⟩ := failed_of_result .flag (fun _ => rfl) hFailed
    show (k.interruptComplete driver capability).1 = k
    unfold interruptComplete at hErr ⊢
    split at hErr
    · rfl
    · dsimp only at hErr ⊢
      rw [endService_unchanged hErr]
  | capability op =>
    show { k with capabilities := (k.capabilities.step op).1 } = k
    have hOutcome : (Outcome.capability (k.capabilities.step op).2).failed = true := hFailed
    have hErr : ∃ e, (k.capabilities.step op).2 = .issued (.error e) ∨
        (k.capabilities.step op).2 = .removed (.error e) := by
      generalize (k.capabilities.step op).2 = outcome at hOutcome
      rcases outcome with (e | id) | (e | n)
      · exact ⟨e, .inl rfl⟩
      · cases hOutcome
      · exact ⟨e, .inr rfl⟩
      · cases hOutcome
    obtain ⟨e, hErr⟩ := hErr
    rw [CapabilityTable.step_unchanged hErr]
  | _ => cases hOp

/-- What failure needs to be harmless. -/
structure Undoable (k : Kernel) : Prop where
  structured : k.Structured
  vacant : k.ipc.Vacant

theorem undoable_run (calls : List (Env × Op)) : Run.Always step Undoable {} calls := by
  apply Run.always_of_invariant
  · refine ⟨structured_empty, ?_⟩
    intro s hs _
    exact eq_of_mem_replicate hs
  rintro k ⟨env, op⟩ h
  refine ⟨h.structured.step (env, op), ?_⟩
  have hVacant : ((k.coreOps env op).foldl CoreOp.apply k.core).ipc.Vacant :=
    vacant_foldl h.vacant
  rw [← core_step h.structured.same env op] at hVacant
  exact hVacant

end Kernel

/-- Whatever has been run before, a call on threads, endpoints, interrupt
sources or capabilities that answers with an error has changed nothing in the
kernel. -/
theorem failed_calls_change_nothing (calls : List (Env × Op)) :
    ∀ n env op, op.allOrNothing = true →
      ((Run.after Kernel.step {} (calls.take n)).step (env, op)).2.failed = true →
      ((Run.after Kernel.step {} (calls.take n)).step (env, op)).1 =
        Run.after Kernel.step {} (calls.take n) := by
  intro n env op hOp hFailed
  have hState := undoable_run calls n
  exact unchanged_of_failed hState.structured hState.vacant env hOp hFailed

/-- A reply nobody waits for, after two threads have been created. -/
theorem refused_reply_changes_nothing :
    ((Run.after Kernel.step {} [({}, .createThread 1 1), ({}, .createThread 2 1)]).step
        ({}, .reply 1 2)).1 =
      Run.after Kernel.step {} [({}, .createThread 1 1), ({}, .createThread 2 1)] :=
  failed_calls_change_nothing [({}, .createThread 1 1), ({}, .createThread 2 1)] 2 {} (.reply 1 2)
    rfl (by decide +kernel)

end Enml.OsKernel
