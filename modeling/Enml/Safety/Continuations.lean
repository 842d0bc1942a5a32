import Mathlib.Tactic.IntervalCases
import Enml.OsKernel.IpcSyscall
import Enml.Safety.Sleeping

/-! The continuations of the IPC system calls. A thread is armed exactly while
it sleeps in a call, as long as nothing but an answer wakes it: retirement and
the death of a server wake callers without touching their continuations, and the
death of a caller leaves the receiver that was woken for it armed. -/
namespace Enml.OsKernel

open IpcContinuationTable IpcContinuationErrors SlotTable List CoreOp Run CallsTracked Kernel
  IpcContinuationTable.ReceiveSlot List.Sublist ReceiveSlot

open Enml.Core Rendezvous IpcEndpointTable

/-- The kernel and the thread that is running on it. -/
structure Processor where
  kernel : Kernel := {}
  current : Option ThreadId := none

inductive ProcessorInput where
  | svc (call : KernelCall) (frame : ExceptionFrame) (env : Env) (machine : UserMachine)
  | resume (thread : ThreadId) (frame : ExceptionFrame) (env : Env) (machine : UserMachine)
  | kernel (env : Env) (op : Op)

/-- A system call is made by the running thread and may put it aside. A ready
thread is resumed by completing the call it slept in. -/
def Processor.step (p : Processor) : ProcessorInput → Processor × Unit
  | .svc call frame env machine =>
    match p.current with
    | none => (p, ())
    | some thread =>
      match p.kernel.dispatchIpcSvcCurrent thread call frame env machine with
      | ((_, kernel), .ok result) =>
        ({ kernel, current := if result.reschedule then none else some thread }, ())
      | ((_, kernel), .error _) => ({ kernel, current := some thread }, ())
  | .resume thread frame env machine =>
    if p.kernel.threads.stateOf thread = .ok .ready then
      match p.kernel.completeIpcCurrent thread frame env machine with
      | ((_, kernel), .ok _) => ({ kernel, current := some thread }, ())
      | ((_, kernel), .error _) => ({ kernel, current := none }, ())
    else (p, ())
  | .kernel env op => ({ p with kernel := (p.kernel.step (env, op)).1 }, ())

/-- The calls that put a thread to sleep, wake it or collect for it. In the
runs considered here only the two entry points make them. -/
def Op.Sleeps : Op → Prop
  | .send .. | .receive .. | .reply .. | .ipcSend .. | .ipcSendBound .. | .ipcReceive ..
  | .ipcReceiveBound .. | .ipcTakeReply .. | .ipcTakeReplyBound ..
  | .ipcArmSendContinuation .. | .ipcArmReceiveContinuation .. => True
  | _ => False

def ProcessorInput.KeepsPattern : ProcessorInput → Prop
  | .kernel _ op => ¬op.Sleeps
  | _ => True

/-- `t` was woken for the call of `sender` and has not run since. -/
def WokenFor (k : Kernel) (t sender : ThreadId) : Prop :=
  k.ipcContinuations.receiveArmed t = true ∧ k.threads.phase t = some (.ready, sender)

/-- The step wakes a caller that sleeps in a send without answering it: its
server dies, or its endpoint is retired. Or it takes from a woken receiver the
caller it was woken for: that caller dies, or is answered already. -/
def WakesCaller (k : Kernel) : Op → Prop
  | .destroyThread s => ∃ t, t ≠ s ∧
      (k.ipcContinuations.sendArmed t = true ∧ (k.threads.phase t = some (.sendBlocked, s) ∨
            k.threads.phase t = some (.replyBlocked, s)) ∨
        WokenFor k t s)
  | .retireIpcEndpoint server endpoint =>
    (∃ p ∈ k.ipc.calls, p.endpoint = endpoint ∧ p.server = server) ∧
      (k.ipc.receiveWaiting endpoint = true → k.threads.Waits server)
  | .ipcReply server replySeal _ => WokenFor k server replySeal.caller
  | .ipcReplyBound server replySeal _ => WokenFor k server.thread replySeal.caller
  | .ipcReplyTransaction server transaction _ =>
    ∃ slot, k.ipc.replySlotOf server transaction = some slot ∧
      WokenFor k server slot.replySeal.caller
  | .ipcReplyTransactionBound server transaction _ =>
    ∃ slot, k.ipc.replySlotOf server.thread transaction = some slot ∧
      WokenFor k server.thread slot.replySeal.caller
  | _ => False

def Processor.Undisturbed (p : Processor) : ProcessorInput → Prop
  | .kernel _ op => ¬WakesCaller p.kernel op
  | _ => True

/-- Continuations are armed only for threads that sleep in a call, and the
running thread can always arm one. -/
structure ContinuationsCoherent (p : Processor) : Prop where
  send : ∀ t, p.kernel.ipcContinuations.sendArmed t = true → p.kernel.core.AwaitsReply t
  receive : ∀ t, p.kernel.ipcContinuations.receiveArmed t = true → p.kernel.core.AwaitsMessage t
  canSend : ∀ t, p.current = some t → ∀ epoch address epochs,
    (p.kernel.ipcArmSendContinuation t epoch address epochs).2 ≠ .error (kernelError alreadyArmed)
  canReceive : ∀ t, p.current = some t → ∀ epoch capability address epochs deadline,
    (p.kernel.ipcArmReceiveContinuation t epoch capability address epochs deadline).2 ≠
      .error (kernelError alreadyArmed)

namespace Kernel

variable {now : UInt64} {armed : IpcContinuationTable.ReceiveSlot} {server : ThreadId}
  {e : IpcEndpoint}

/-- What every state of these runs offers besides the continuations. -/
structure Served (k : Kernel) : Prop where
  regular : k.Regular
  live : k.threads.ServersLive
  requests : k.ipc.RequestsValid

theorem served_empty : Served {} := by
  have hIds : ({} : Kernel).threads.ids = [] := by decide
  refine ⟨regular_empty, ?_, ?_⟩
  · intro u q hu
    have hNone : ({} : Kernel).threads.phase u = none := by
      rw [phase_eq_none, ← Option.not_isSome_iff_eq_none,
        find_isSome_iff structured_empty.same.distinct, hIds]
      simp
    rw [hNone] at hu
    simp at hu
  · intro p hp
    cases hp

variable {k k' : Kernel} {env : Env} {op : Op} {t : ThreadId} {p : Priority} {s : Side}

theorem create_mem_coreOps {state : ThreadState} (h : create state t p ∈ k.coreOps env op) :
    state = .ready ∨ state = .admitted := by
  cases performs_of_mem h with
  | createThread => exact .inl rfl
  | createAdmittedThread | threadAdmit => exact .inr rfl

theorem Served.step (h : k.Served) (env : Env) (op : Op) (hOp : op.UsesEndpoints) :
    (k.step (env, op)).1.Served := by
  have hCore := core_induction h.regular.structured.same env op
    (P := fun c => c.threads.Distinct ∧ c.threads.ServersLive ∧ c.ipc.RequestsValid)
    ⟨h.regular.structured.same.distinct, h.live, h.requests⟩ ?_ ?_
  · exact ⟨h.regular.step _, hCore.2.1, hCore.2.2⟩
  · intro op' hMem c' hStep
    have hUses := usesEndpoints_coreOps hOp hMem
    have hDist := h.regular.structured.same.distinct
    refine ⟨distinct_coreStep hDist hStep hUses, ?_, h.requests.coreStep hStep⟩
    refine h.live.coreStep hDist hStep hUses ?_
    rintro state t p rfl
    exact create_mem_coreOps hMem
  · rintro c t ⟨hDist, hLive, hReqs⟩
    exact ⟨distinct_destroy hDist t, hLive.destroy hDist t,
      fun p hp => hReqs p (calls_destroy c t p hp)⟩

/-- `t` has no continuation. -/
def Disarmed (k : Kernel) (t : ThreadId) : Prop :=
  k.ipcContinuations.sendArmed t = false ∧ k.ipcContinuations.receiveArmed t = false

/-- `t` is armed only for what it waits for, and for one thing at a time. -/
structure Rests (k : Kernel) (t : ThreadId) : Prop where
  send : k.ipcContinuations.sendArmed t = true → k.core.AwaitsReply t
  receive : k.ipcContinuations.receiveArmed t = true → k.core.AwaitsMessage t
  unexpired : k.threads.Expired t → k.Disarmed t
  one : k.ipcContinuations.sendArmed t = true → k.ipcContinuations.receiveArmed t = false

/-- No continuation of `t` is armed in `k'` that was not in `k`. -/
def NotArmedAnew (k k' : Kernel) (t : ThreadId) : Prop :=
  (k'.ipcContinuations.sendArmed t = true → k.ipcContinuations.sendArmed t = true) ∧
    (k'.ipcContinuations.receiveArmed t = true → k.ipcContinuations.receiveArmed t = true)

theorem NotArmedAnew.send (h : NotArmedAnew k k' t)
    (hSend : k.ipcContinuations.sendArmed t = false) : k'.ipcContinuations.sendArmed t = false := by
  by_contra hArmed
  simp [h.1 (by simpa using hArmed)] at hSend

theorem NotArmedAnew.receive (h : NotArmedAnew k k' t)
    (hRecv : k.ipcContinuations.receiveArmed t = false) :
    k'.ipcContinuations.receiveArmed t = false := by
  by_contra hArmed
  simp [h.2 (by simpa using hArmed)] at hRecv

theorem NotArmedAnew.disarmed (h : NotArmedAnew k k' t) (hDisarmed : k.Disarmed t) :
    k'.Disarmed t :=
  ⟨h.send hDisarmed.1, h.receive hDisarmed.2⟩

theorem Rests.of_disarmed (h : k.Disarmed t) : k.Rests t := by
  refine ⟨?_, ?_, fun _ => h, fun _ => h.2⟩
  · simp [h.1]
  · simp [h.2]

/-- A thread at rest stays so under an operation that does not end its wait. -/
theorem Rests.coreStep (h : k.Rests t) (hRegular : k.Regular) (hArmed : NotArmedAnew k k' t)
    {op : CoreOp} (hStep : CoreStep k.core op k'.core) (hOp : op.UsesEndpoints)
    (hCall : k'.ipcContinuations.sendArmed t = true → ¬k.core.EndsCall t op)
    (hRecv : k'.ipcContinuations.receiveArmed t = true → ¬k.core.EndsReceive t op)
    (hExpire : op = .expire t → k'.Disarmed t) : k'.Rests t := by
  have hDist := hRegular.structured.same.distinct
  have hLinked := hRegular.structured.linked
  refine ⟨?_, ?_, ?_, ?_⟩
  · intro hSend
    exact (h.send (hArmed.1 hSend)).coreStep hDist hLinked hStep hOp (hCall hSend)
  · intro hWait
    exact (h.receive (hArmed.2 hWait)).coreStep hDist hLinked hStep hOp (hRecv hWait)
  · intro hExpired
    by_cases hEq : op = .expire t
    · exact hExpire hEq
    · exact hArmed.disarmed (h.unexpired (expired_coreStep hDist hStep hOp hEq hExpired))
  · intro hSend
    exact hArmed.receive (h.one (hArmed.1 hSend))

theorem Rests.of_core_eq (h : k.Rests t) (hRegular : k.Regular) (hArmed : NotArmedAnew k k' t)
    (hCore : k'.core = k.core) : k'.Rests t :=
  h.coreStep hRegular hArmed (show CoreStep k.core (.start t) k'.core from hCore ▸ .refused _)
    trivial (fun _ => id) (fun _ => id) (by rintro ⟨⟩)

/-- An admission is undone only after it has gone through. -/
theorem coreOps_undone (h : k.coreOps env op = [.create .admitted t p, .destroy t]) :
    ∃ r, k.threads.createIn .admitted t p = (r, .ok ()) := by
  have hMem : .destroy t ∈ k.coreOps env op := by simp [h]
  cases performs_of_mem hMem with
  | destroyThread => cases h
  | undo hCreate hOps =>
    cases h.symm.trans hOps
    exact ⟨_, hCreate⟩

/-- The continuations of `s` are among those of `t`. -/
def FewerContinuations (s t : IpcContinuationTable) : Prop :=
  (keys IpcContinuationTable.SendSlot.key s.sendSlots).Sublist
      (keys IpcContinuationTable.SendSlot.key t.sendSlots) ∧
    (keys key s.receiveSlots).Sublist
      (keys key t.receiveSlots)

theorem FewerContinuations.notArmedAnew
    (h : FewerContinuations k'.ipcContinuations k.ipcContinuations) (t : ThreadId) :
    NotArmedAnew k k' t := by
  unfold NotArmedAnew sendArmed receiveArmed
  rcases eq_or_ne t invalidThread with rfl | ht
  · simp [sendSlotFor, receiveSlotFor]
  · rw [sendSlotFor_isSome_iff ht, sendSlotFor_isSome_iff ht, receiveSlotFor_isSome_iff ht,
      receiveSlotFor_isSome_iff ht]
    exact ⟨fun hArmed => h.1.subset hArmed, fun hArmed => h.2.subset hArmed⟩

theorem fewerContinuations_apply (s : Side) {call : Op} (hCall : call.armsContinuation = false)
    {op : SideOp} (h : op.PerformedBy call) :
    FewerContinuations (SideOp.apply s op).continuations s.continuations := by
  cases op with
  | armSend | armReceive => exact absurd h (by simp [SideOp.PerformedBy, hCall])
  | clearSend => exact ⟨keys_updateFirst_sublist (fun _ => rfl) _, refl _⟩
  | clearReceive => exact ⟨refl _, keys_updateFirst_sublist (fun _ => rfl) _⟩
  | takeExpired =>
    simp only [SideOp.apply]
    unfold takeExpiredReceive
    split
    · exact ⟨refl _, refl _⟩
    · exact ⟨refl _, keys_updateFirst_sublist (fun _ => rfl) _⟩
  | _ => exact ⟨refl _, refl _⟩

theorem notArmedAnew_step (k : Kernel) (env : Env) (op : Op)
    (hOp : op.armsContinuation = false) (t : ThreadId) :
    NotArmedAnew k (k.step (env, op)).1 t := by
  apply FewerContinuations.notArmedAnew
  apply side_induction op (P := fun s => FewerContinuations s.continuations k.ipcContinuations)
  · intro s op' hDone hFewer
    have hLast := fewerContinuations_apply s hOp hDone
    exact ⟨hLast.1.trans hFewer.1, hLast.2.trans hFewer.2⟩
  · exact ⟨refl _, refl _⟩

/-- A thread at rest stays so under a call whose core operation does not end
its wait. An admission that is undone concerns only a thread nobody knows. -/
theorem Rests.step (h : k.Rests t) (hServed : k.Served) {env : Env}
    {op : Op} (hOp : op.UsesEndpoints) (hArms : op.armsContinuation = false)
    (hCall : ∀ op', k.coreOps env op = [op'] →
      (k.step (env, op)).1.ipcContinuations.sendArmed t = true → ¬k.core.EndsCall t op')
    (hRecv : ∀ op', k.coreOps env op = [op'] →
      (k.step (env, op)).1.ipcContinuations.receiveArmed t = true → ¬k.core.EndsReceive t op')
    (hExpire : k.coreOps env op = [.expire t] → (k.step (env, op)).1.Disarmed t) :
    (k.step (env, op)).1.Rests t := by
  have hSame := hServed.regular.structured.same
  have hLinked := hServed.regular.structured.linked
  have hCore := core_step hSame env op
  have hArmed : NotArmedAnew k (k.step (env, op)).1 t := notArmedAnew_step k env op hArms t
  rcases k.coreOps_shape env op with hShape | ⟨op', hShape⟩ | ⟨s, p, hShape⟩
  · rw [hShape] at hCore
    exact h.of_core_eq hServed.regular hArmed hCore
  · have hMem : op' ∈ k.coreOps env op := by simp [hShape]
    rw [hShape] at hCore
    refine h.coreStep hServed.regular hArmed (hCore ▸ coreStep_apply k.core op')
      (usesEndpoints_coreOps hOp hMem) (hCall op' hShape) (hRecv op' hShape) ?_
    rintro rfl
    exact hExpire hShape
  · obtain ⟨r, hCreate⟩ := coreOps_undone hShape
    obtain ⟨hNone, hPhase⟩ := phase_createIn hCreate
    have hFirst : CoreStep k.core (.create .admitted s p) ⟨r, k.ipc⟩ := .create hCreate
    have hCreated : apply k.core (.create .admitted s p) = ⟨r, k.ipc⟩ := by
      simp [apply, core, hCreate]
    have hLast : CoreStep ⟨r, k.ipc⟩ (.destroy s) (k.step (env, op)).1.core := by
      rw [hCore, hShape, foldl_cons, hCreated]
      exact .destroy s
    have hDist : r.Distinct := hSame.distinct.createIn hCreate
    have hFree : ∀ u q, r.phase u = some (.sendBlocked, q) ∨ r.phase u = some (.replyBlocked, q) →
        q ≠ s := by
      rintro u q hu rfl
      rw [hPhase u] at hu
      split_ifs at hu
      · simp at hu
      · have hLive := hServed.live u q hu
        rw [hNone] at hLive
        cases hLive
    refine ⟨?_, ?_, ?_, ?_⟩
    · intro hSend
      have hBefore := h.send (hArmed.1 hSend)
      have hts : t ≠ s := by
        rintro rfl
        obtain ⟨state, q, hOld, -⟩ := hBefore
        rw [core, hNone] at hOld
        cases hOld
      refine (hBefore.coreStep hSame.distinct hLinked hFirst trivial id).coreStep hDist hLinked
        hLast trivial ?_
      rintro (hEq | hBlocked)
      · exact hts hEq
      · exact hFree t s hBlocked rfl
    · intro hWait
      have hBefore := h.receive (hArmed.2 hWait)
      refine (hBefore.coreStep hSame.distinct hLinked hFirst trivial id).coreStep hDist hLinked
        hLast trivial ?_
      have hOthers : t ≠ s := by
        rintro rfl
        unfold Core.AwaitsMessage at hBefore
        rw [core, hNone] at hBefore
        simp at hBefore
      rintro (hSelf | hHeld)
      · exact hOthers hSelf
      rw [hPhase, if_neg hOthers] at hHeld
      rcases hBefore with hBlocked | ⟨q, hReady, hSender⟩
      · rw [core, hHeld] at hBlocked
        cases hBlocked
      · rw [core, hHeld] at hReady
        cases hReady
        rw [core, hNone] at hSender
        cases hSender
    · intro hExpired
      have hMiddle := expired_coreStep (c := ⟨r, k.ipc⟩) hDist hLast trivial (by rintro ⟨⟩) hExpired
      have hBefore := expired_coreStep hSame.distinct hFirst trivial (by rintro ⟨⟩) hMiddle
      exact hArmed.disarmed (h.unexpired hBefore)
    · intro hSend
      exact hArmed.receive (h.one (hArmed.1 hSend))

/-- The expired continuation is one of the table's. -/
theorem expiredReceive_mem {t : IpcContinuationTable} (h : t.expiredReceive now = some armed) :
    armed ∈ t.receiveSlots ∧ armed.occupied = true ∧ armed.continuation.expiredAt now = true := by
  revert armed
  apply foldlRecOn (motive := fun chosen => ∀ {armed}, chosen = some armed →
    armed ∈ t.receiveSlots ∧ armed.occupied = true ∧ armed.continuation.expiredAt now = true)
  · rintro _ ⟨⟩
  intro chosen hChosen slot hSlot armed hStep
  unfold preferExpired at hStep
  split_ifs at hStep with hSkip
  · exact hChosen hStep
  have hLive : slot.occupied = true ∧ slot.continuation.expiredAt now = true := by
    simpa using hSkip
  split at hStep
  · cases hStep
    exact ⟨hSlot, hLive⟩
  split_ifs at hStep
  · cases hStep
    exact ⟨hSlot, hLive⟩
  · exact hChosen hStep

theorem expiredReceive_eq_none {t : IpcContinuationTable} (h : t.expiredReceive now = none)
    (hMem : armed ∈ t.receiveSlots) (hLive : armed.occupied = true) :
    armed.continuation.expiredAt now = false := by
  rw [Bool.eq_false_iff]
  intro hExpired
  refine foldl_covers (fun chosen slot => slot.occupied = true →
    slot.continuation.expiredAt now = true → chosen ≠ none) ?_ ?_ none _ armed hMem hLive hExpired h
  all_goals unfold preferExpired; grind

/-- Taking the expired continuation disarms its thread. -/
theorem takeExpiredReceive_eq (hKeyed : s.Keyed)
    (h : s.continuations.expiredReceive now = some armed) :
    (s.continuations.takeExpiredReceive now).1 =
      s.continuations.clearReceive armed.continuation.server := by
  obtain ⟨hMem, hLive, -⟩ := expiredReceive_mem h
  have hKey : armed.key = some armed.continuation.server := by
    simp [key, hLive]
  unfold takeExpiredReceive clearReceive
  rw [h]
  dsimp only
  congr 1
  apply updateFirst_congr
  intro slot hSlot
  rw [Bool.eq_iff_iff, beq_iff_eq, decide_eq_true_eq]
  constructor
  · rintro rfl
    exact hKey
  intro hSame
  have hLookup := (lookup_eq_some_iff hKeyed.receive).mpr ⟨hSlot, hSame⟩
  rw [(lookup_eq_some_iff hKeyed.receive).mpr ⟨hMem, hKey⟩] at hLookup
  exact (Option.some.inj hLookup).symm

theorem continuations_destroyThread (k : Kernel) (s : ThreadId) :
    (k.destroyThread s).1.ipcContinuations = k.ipcContinuations.releaseThread s := by
  unfold destroyThread
  dsimp only
  rcases (k.ipc.releaseThread s k.threads).1.2.exitThread s with ⟨threads, e | n⟩
  · rfl
  have hSide : ∀ k' : Kernel, k'.synchronise.ipcContinuations = k'.ipcContinuations := by
    intro k'
    rw [synchronise_eq]
  rw [hSide]
  unfold untrack
  split <;> rfl

theorem continuations_retireIpcEndpoint {ipc : IpcEndpointTable} {r : Rendezvous}
    (h : k.ipc.retire server e k.threads = ((ipc, r), .ok ())) :
    (k.retireIpcEndpoint server e).1.ipcContinuations =
      if k.ipc.receiveWaiting e && k.ipcContinuations.receiveArmed server then
        (k.ipcContinuations.cancelReceive server).1
      else k.ipcContinuations := by
  unfold retireIpcEndpoint
  rw [h]
  dsimp only
  rw [synchronise_eq]

theorem receiveArmed_cancelReceive (h : s.Keyed) (t : ThreadId) :
    (s.continuations.cancelReceive t).1.receiveArmed t = false := by
  unfold IpcContinuationTable.cancelReceive
  cases hSlot : s.continuations.receiveSlotFor t with
  | none => simp [receiveArmed, hSlot]
  | some => exact h.receiveArmed_clearReceive t

theorem sendArmed_cancel (h : s.Keyed) (t : ThreadId) :
    (s.continuations.cancel t).1.sendArmed t = false := by
  unfold cancel
  cases hSlot : s.continuations.sendSlotFor t with
  | none => simp [sendArmed, hSlot]
  | some => exact h.sendArmed_clearSend t

theorem Rests.destroyThread (h : ∀ t, k.Rests t) (hServed : k.Served) (env : Env) {s : ThreadId}
    (hNot : ¬WakesCaller k (.destroyThread s)) (t : ThreadId) :
    (k.step (env, .destroyThread s)).1.Rests t := by
  have hArmed := notArmedAnew_step k env (.destroyThread s) rfl t
  have hReleased : (k.step (env, .destroyThread s)).1.Disarmed s := by
    have hBoth := hServed.regular.keyed.armed_releaseThread s
    show (k.destroyThread s).1.ipcContinuations.sendArmed s = false ∧
      (k.destroyThread s).1.ipcContinuations.receiveArmed s = false
    rw [continuations_destroyThread]
    exact hBoth
  rcases eq_or_ne t s with rfl | hts
  · exact Rests.of_disarmed hReleased
  refine (h t).step hServed trivial rfl ?_ ?_ (by rintro ⟨⟩)
  · intro op' hOps hSend
    cases hOps
    rintro (hEq | hBlocked)
    · exact hts hEq
    · exact hNot ⟨t, hts, .inl ⟨hArmed.1 hSend, hBlocked⟩⟩
  · intro op' hOps hRecv
    cases hOps
    rintro (hEq | hHeld)
    · exact hts hEq
    · exact hNot ⟨t, hts, .inr ⟨hArmed.2 hRecv, hHeld⟩⟩

theorem Rests.retireIpcEndpoint (h : ∀ t, k.Rests t) (hServed : k.Served) (env : Env)
    (hNot : ¬WakesCaller k (.retireIpcEndpoint server e)) (t : ThreadId) :
    (k.step (env, .retireIpcEndpoint server e)).1.Rests t := by
  have hArmed := notArmedAnew_step k env (.retireIpcEndpoint server e) rfl t
  rcases hRetire : k.ipc.retire server e k.threads with ⟨⟨ipc, r⟩, error | ⟨⟩⟩
  · refine (h t).of_core_eq hServed.regular hArmed ?_
    obtain ⟨rfl, rfl⟩ := retire_error hRetire
    rw [core_step hServed.regular.structured.same]
    simp [coreOps, apply, Core.commit, core, hRetire]
  obtain ⟨slot, r₁, hSlot, -, hSrv, hFirst, -⟩ := retire_ok hRetire
  have hWaits : k.ipc.receiveWaiting e = true → k.threads.Waits server := by
    intro hWaiting
    rcases hFirst with ⟨-, hCancel⟩ | ⟨hQuiet, -⟩
    · exact endReceive_ok_iff.mp ⟨r₁, hCancel⟩
    rw [receiveWaiting, hSlot] at hWaiting
    dsimp only at hWaiting
    rw [hQuiet] at hWaiting
    cases hWaiting
  have hNone : ¬∃ p ∈ k.ipc.calls, p.endpoint = e := by
    rintro ⟨p, hp, rfl⟩
    refine hNot ⟨⟨p, hp, rfl, ?_⟩, hWaits⟩
    rw [server_of_call (c := k.core) hServed.regular.structured.linked hp hSlot]
    exact hSrv
  refine (h t).step hServed trivial rfl ?_ ?_ (by rintro ⟨⟩)
  · intro op' hOps _
    cases hOps
    exact hNone
  intro op' hOps hStill
  cases hOps
  rintro (hSome | ⟨rfl, hWaiting⟩)
  · exact hNone hSome
  have hWaiting : k.ipc.receiveWaiting e = true := hWaiting
  have hAfter : (k.retireIpcEndpoint t e).1.ipcContinuations.receiveArmed t = true := hStill
  rw [continuations_retireIpcEndpoint hRetire, hWaiting, Bool.true_and] at hAfter
  split_ifs at hAfter with hBefore
  · have hCleared := receiveArmed_cancelReceive hServed.regular.keyed t
    rw [show k.side.continuations = k.ipcContinuations from rfl, hAfter] at hCleared
    cases hCleared
  · exact hBefore hAfter

theorem Rests.ipcExpireOneReceive (h : ∀ t, k.Rests t) (hServed : k.Served) (env : Env)
    (now : UInt64) (t : ThreadId) : (k.step (env, .ipcExpireOneReceive now)).1.Rests t := by
  have hArmed := notArmedAnew_step k env (.ipcExpireOneReceive now) rfl t
  have hKeyed := hServed.regular.keyed
  have hDisarmed : k.coreOps env (.ipcExpireOneReceive now) = [.expire t] →
      (k.step (env, .ipcExpireOneReceive now)).1.Disarmed t := by
    intro hOps
    cases hExpired : k.ipcContinuations.expiredReceive now with
    | none => simp [coreOps, hExpired] at hOps
    | some armed =>
      obtain rfl : armed.continuation.server = t := by simpa [coreOps, hExpired] using hOps
      have hTaken : (k.step (env, .ipcExpireOneReceive now)).1.ipcContinuations =
          k.ipcContinuations.clearReceive armed.continuation.server := by
        show (k.ipcExpireOneReceive now).1.ipcContinuations = _
        rw [expire_eq hExpired]
        exact takeExpiredReceive_eq hKeyed hExpired
      obtain ⟨hMem, hLive, -⟩ := expiredReceive_mem hExpired
      refine ⟨?_, by rw [hTaken]; exact hKeyed.receiveArmed_clearReceive _⟩
      by_contra hSend
      have hSend := hArmed.1 (by simpa using hSend)
      have hOne := (h _).one hSend
      have hWait : k.ipcContinuations.receiveArmed armed.continuation.server = true := by
        rcases eq_or_ne armed.continuation.server invalidThread with hNone | ht
        · simp [sendArmed, sendSlotFor, hNone] at hSend
        unfold receiveArmed
        rw [receiveSlotFor_isSome_iff ht]
        exact mem_keys_iff.mpr ⟨armed, hMem, by simp [key, hLive]⟩
      rw [hWait] at hOne
      cases hOne
  have hShape : ∀ op', k.coreOps env (.ipcExpireOneReceive now) = [op'] →
      ∃ server, op' = .expire server := by
    intro op' hOps
    cases performs_of_eq hOps
    exact ⟨_, rfl⟩
  refine (h t).step hServed trivial rfl ?_ ?_ hDisarmed
  all_goals
    intro op' hOps hWait
    obtain ⟨server, rfl⟩ := hShape op' hOps
  · exact id
  · rintro rfl
    rw [(hDisarmed hOps).2] at hWait
    cases hWait

/-- The loop of the timer interrupt, which the source does not bound. `none` is
a loop that is not over. -/
def drainExpired (now : UInt64) : ℕ → Kernel → Kernel × Option (Result Unit)
  | 0, k => (k, none)
  | turns + 1, k =>
    match k.ipcExpireOneReceive now with
    | (k, .error e) => (k, some (.error e))
    | (k, .ok false) => (k, some (.ok ()))
    | (k, .ok true) => drainExpired now turns k

def armedReceive (k : Kernel) (t : ThreadId) : Option ReceiveSlot :=
  lookup key t k.ipcContinuations.receiveSlots

/-- The receive `t` is armed for has run out. -/
def receiveDue (k : Kernel) (now : UInt64) (t : ThreadId) : Bool :=
  (k.armedReceive t).any fun slot => slot.continuation.expiredAt now

def armedCount (k : Kernel) : ℕ := (keys key k.ipcContinuations.receiveSlots).length

/-- `k'` is `k` with the threads in `due` woken and disarmed. -/
structure Woken (due : ThreadId → Bool) (k k' : Kernel) : Prop where
  frame : ∃ receiveSlots occupied threads, k' =
    { k with ipcContinuations := { k.ipcContinuations with receiveSlots, occupied }, threads }
  find : ∀ t, k'.threads.find t = if due t then (k.threads.find t).map fun slot =>
    { slot with state := .ready, wake := .deadlineExpired } else k.threads.find t
  armed : ∀ t, k'.armedReceive t = if due t then none else k.armedReceive t

/-- One turn of the loop: nothing is due, or the wait of one thread is over. It
is woken unless it is no longer blocked. -/
theorem ipcExpireOneReceive_cases (hKeyed : k.side.Keyed) (now : UInt64) :
    (∀ t, k.receiveDue now t = false) ∧ k.ipcExpireOneReceive now = (k, .ok false) ∨
      ∃ t, k.receiveDue now t = true ∧
        ((¬k.threads.Waits t ∧ ∃ k' e, k.ipcExpireOneReceive now = (k', .error e)) ∨
          k.threads.Waits t ∧ ∃ k', k.ipcExpireOneReceive now = (k', .ok true) ∧
            Woken (· = t) k k' ∧ k'.side.Keyed ∧ k'.armedCount < k.armedCount) := by
  cases hArmed : k.ipcContinuations.expiredReceive now with
  | none =>
    refine .inl ⟨fun t => Option.any_eq_false _ _ |>.mpr fun slot hSlot => ?_,
      expire_eq_of_none hArmed⟩
    obtain ⟨hMem, hKey⟩ := (lookup_eq_some_iff hKeyed.receive).mp hSlot
    simpa using expiredReceive_eq_none hArmed hMem (by grind [key])
  | some armed =>
    obtain ⟨hMem, hLive, hExpired⟩ := expiredReceive_mem hArmed
    have hKey : armed.key = some armed.continuation.server := by simp [key, hLive]
    have hLook : k.armedReceive armed.continuation.server = some armed :=
      (lookup_eq_some_iff hKeyed.receive).mpr ⟨hMem, hKey⟩
    refine .inr ⟨_, by rw [receiveDue, hLook]; exact hExpired, ?_⟩
    rw [expire_eq hArmed]
    rcases hExpire : k.threads.expireReceive armed.continuation.server with ⟨threads, e | ⟨⟩⟩
    · refine .inl ⟨?_, _, e, rfl⟩
      rintro ⟨slot, hFind, hWaits⟩
      exact (endReceive_error hExpire).2 slot hFind hWaits
    have hTake : (k.ipcContinuations.takeExpiredReceive now).1 = _ :=
      takeExpiredReceive_eq hKeyed hArmed
    obtain ⟨sa, ha, -, -, hFind⟩ := find_endReceive hExpire
    rw [hTake]
    refine .inr ⟨endReceive_ok_iff.mp ⟨_, hExpire⟩, _, rfl,
      ⟨⟨_, _, _, rfl⟩, fun u => ?_, fun u => ?_⟩, hKeyed.apply (.clearReceive _), ?_⟩
    · by_cases hu : u = armed.continuation.server <;> simp [hFind, hu, ha]
    · simp only [decide_eq_true_eq]
      split_ifs with hu
      · exact hu ▸ lookup_modify_free hKeyed.receive fun _ _ => rfl
      · exact lookup_modify_ne hu fun _ _ => by simp [key]
    · have hIn := mem_keys_iff.mpr ⟨armed, hMem, hKey⟩
      unfold armedCount clearReceive Kernel.side
      rw [keys_modify_free fun _ _ => rfl, length_erase_of_mem hIn]
      exact Nat.pred_lt (length_pos_of_mem hIn).ne'

theorem drainExpired_spec {turns : ℕ} (hKeyed : k.side.Keyed) (hTurns : k.armedCount < turns) :
    ∃ k' result, drainExpired now turns k = (k', some result) ∧
      (result = .ok () ↔ ∀ t, k.receiveDue now t = true → k.threads.Waits t) ∧
      (result = .ok () → Woken (k.receiveDue now) k k') := by
  induction turns generalizing k with
  | zero => omega
  | succ turns ih =>
    unfold drainExpired
    rcases ipcExpireOneReceive_cases hKeyed now with
      ⟨hNone, hOne⟩ | ⟨t, hDue, ⟨hNot, k', e, hOne⟩ | ⟨hWaits, k₁, hOne, hWoken, hKeyed₁, hLess⟩⟩
    · rw [hOne]
      exact ⟨k, .ok (), rfl, by simp [hNone],
        fun _ => ⟨⟨_, _, _, rfl⟩, by simp [hNone], by simp [hNone]⟩⟩
    · rw [hOne]
      exact ⟨k', .error e, rfl, iff_of_false (by rintro ⟨⟩) fun hAll => hNot (hAll t hDue),
        by rintro ⟨⟩⟩
    have hDue₁ : ∀ u, k₁.receiveDue now u = (decide (u ≠ t) && k.receiveDue now u) := by
      intro u
      by_cases hu : u = t <;> simp [receiveDue, hWoken.armed, hu]
    obtain ⟨k', result, hRun, hIff, hAll⟩ := ih hKeyed₁ (by omega)
    rw [hOne]
    refine ⟨k', result, hRun, hIff.trans (forall_congr' fun u => ?_), fun hOk => ?_⟩
    · by_cases hu : u = t
      · simp [hDue₁, hu, hWaits]
      · simp [hDue₁, Rendezvous.Waits, hWoken.find, hu]
    · obtain ⟨⟨_, _, _, hFrame⟩, hFind, hArmed⟩ := hAll hOk
      obtain ⟨_, _, _, rfl⟩ := hWoken.frame
      refine ⟨⟨_, _, _, hFrame⟩, fun u => ?_, fun u => ?_⟩
      · by_cases hu : u = t <;> simp [hFind, hDue₁, hWoken.find, hu, hDue]
      · by_cases hu : u = t <;> simp [hArmed, hDue₁, hWoken.armed, hu, hDue]

/-- In every state of a run the loop of the timer interrupt ends, however many
receives have run out at once. It ends well exactly if all their threads are still
blocked, and then it has woken and disarmed these and changed nothing else. -/
theorem drainExpired_wakes_due (calls : List (Env × Op)) :
    Run.Always Kernel.step (fun k => ∀ now turns, k.ipcContinuations.receiveSlots.length < turns →
        ∃ k' result, drainExpired now turns k = (k', some result) ∧
          (result = .ok () ↔ ∀ t, k.receiveDue now t = true → k.threads.Waits t) ∧
          (result = .ok () → Woken (k.receiveDue now) k k')) {} calls :=
  fun n _ _ hTurns => drainExpired_spec (keyed_run calls n) ((length_keys_le _).trans_lt hTurns)

/-- Core operations that end no wait. -/
def CoreOp.Quiet : CoreOp → Prop
  | .create .. | .start .. | .createEndpoint .. | .replyTo .. | .takeExpiry .. => True
  | _ => False

/-- The calls outside the entry points whose core operation is not quiet. -/
def Op.Ends : Op → Prop
  | .destroyThread .. | .retireIpcEndpoint .. | .ipcExpireOneReceive .. => True
  | _ => False

theorem quiet_coreOps (hSleeps : ¬op.Sleeps) (hEnds : ¬Op.Ends op) {op' : CoreOp}
    (h : k.coreOps env op = [op']) : CoreOp.Quiet op' := by
  cases performs_of_eq h with
  | send | receive | reply | ipcSend | ipcSendBound | ipcReceive | ipcReceiveBound
  | ipcTakeReply | ipcTakeReplyBound => exact absurd trivial hSleeps
  | destroyThread | retireIpcEndpoint | expire => exact absurd trivial hEnds
  | undo _ hOps => cases h.symm.trans hOps
  | _ => trivial

theorem usesEndpoints_of_not_sleeps (h : ¬op.Sleeps) :
    op.UsesEndpoints ∧ op.armsContinuation = false := by
  cases op with
  | send | receive | reply | ipcArmSendContinuation | ipcArmReceiveContinuation =>
    exact absurd trivial h
  | _ => exact ⟨trivial, rfl⟩

/-- A reply that a call makes is one to the caller its server was woken for, or
ends no wait for a message. -/
theorem wakesCaller_of_replyTo {env : Env} {op : Op} {replySeal : IpcReplySeal}
    {response : IpcEnvelope} (hOps : k.coreOps env op = [.replyTo server replySeal response])
    (h : WokenFor k server replySeal.caller) : WakesCaller k op := by
  cases performs_of_eq hOps with
  | ipcReply | ipcReplyBound => exact h
  | ipcReplyTransaction _ hSlot | ipcReplyTransactionBound _ hSlot => exact ⟨_, hSlot, h⟩

/-- A quiet call leaves every thread at rest. -/
theorem Rests.quiet (h : k.Rests t) (hServed : k.Served) (env : Env) (op : Op)
    (hOp : op.UsesEndpoints) (hArms : op.armsContinuation = false)
    (hQuiet : ∀ op', k.coreOps env op = [op'] → CoreOp.Quiet op')
    (hReply : ∀ server replySeal response, k.coreOps env op = [.replyTo server replySeal response] →
      ¬WokenFor k server replySeal.caller) :
    (k.step (env, op)).1.Rests t := by
  have hArmed : NotArmedAnew k (k.step (env, op)).1 t := notArmedAnew_step k env op hArms t
  refine h.step hServed hOp hArms ?_ ?_ ?_
  · intro op' hOps _
    have hOne := hQuiet op' hOps
    cases op' with
    | create | start | createEndpoint | replyTo | takeExpiry => exact id
    | _ => exact hOne.elim
  · intro op' hOps hRecv
    have hOne := hQuiet op' hOps
    cases op' with
    | create | start | createEndpoint | takeExpiry => exact id
    | replyTo server replySeal response =>
      rintro ⟨rfl, hHeld⟩
      exact hReply _ _ _ hOps ⟨hArmed.2 hRecv, hHeld⟩
    | _ => exact hOne.elim
  · intro hOps
    exact (hQuiet _ hOps).elim

/-- A call outside the entry points that wakes no caller leaves every thread
at rest. -/
theorem Rests.undisturbed (h : ∀ t, k.Rests t) (hServed : k.Served) (env : Env) (op : Op)
    (hSleeps : ¬op.Sleeps) (hNot : ¬WakesCaller k op) (t : ThreadId) :
    (k.step (env, op)).1.Rests t := by
  by_cases hEnds : Op.Ends op
  · cases op with
    | destroyThread => exact Rests.destroyThread h hServed env hNot t
    | retireIpcEndpoint => exact Rests.retireIpcEndpoint h hServed env hNot t
    | ipcExpireOneReceive now => exact Rests.ipcExpireOneReceive h hServed env now t
    | _ => exact hEnds.elim
  · obtain ⟨hUses, hArms⟩ := usesEndpoints_of_not_sleeps hSleeps
    exact (h t).quiet hServed env op hUses hArms
      (fun op' hOps => quiet_coreOps hSleeps hEnds hOps)
      fun server replySeal response hOps hWoken =>
        hNot (wakesCaller_of_replyTo hOps hWoken)

/-- Every thread but `t` is at rest. -/
structure RestsBut (k : Kernel) (t : ThreadId) : Prop where
  served : k.Served
  others : ∀ u, u ≠ t → k.Rests u

theorem RestsBut.rests (h : k.RestsBut t) (ht : k.Rests t) (u : ThreadId) : k.Rests u := by
  rcases eq_or_ne u t with rfl | hu
  · exact ht
  · exact h.others u hu

theorem tracks_iff (h : k.Regular) {t : ThreadId} :
    k.tracks t = true ↔ (k.threads.find t).isSome := by
  unfold tracks liveThreads
  rw [contains_iff_mem, h.structured.same.live_perm.mem_iff,
    find_isSome_iff h.structured.same.distinct]

section EntryPoints

variable {capability : CapabilityId}

/-- A call of `t` that ends at most the wait of `t` itself. -/
theorem RestsBut.step (h : k.RestsBut t) (env : Env) (op : Op) (hOp : op.UsesEndpoints)
    (hArms : op.armsContinuation = false)
    (hEnds : ∀ op', k.coreOps env op = [op'] → ∀ u, u ≠ t →
      ¬k.core.EndsCall u op' ∧ ¬k.core.EndsReceive u op' ∧ op' ≠ .expire u) :
    (k.step (env, op)).1.RestsBut t where
  served := h.served.step env op hOp
  others u hu := (h.others u hu).step h.served hOp hArms (fun op' hOps _ => (hEnds op' hOps u hu).1)
    (fun op' hOps _ => (hEnds op' hOps u hu).2.1)
    fun hOps => absurd rfl (hEnds _ hOps u hu).2.2

theorem RestsBut.ipcSend (h : k.RestsBut t) (capability : CapabilityId) (request : IpcEnvelope) :
    (k.ipcSend t capability request).1.RestsBut t := by
  apply h.step {} (.ipcSend t capability request) trivial rfl
  intro op' hOps u hu
  cases performs_of_eq hOps
  exact ⟨id, hu, nofun⟩

theorem RestsBut.ipcReceive (h : k.RestsBut t) (capability : CapabilityId) :
    (k.ipcReceive t capability).1.RestsBut t := by
  apply h.step {} (.ipcReceive t capability) trivial rfl
  intro op' hOps u hu
  cases performs_of_eq hOps
  exact ⟨id, hu, nofun⟩

theorem RestsBut.ipcTakeReply (h : k.RestsBut t) : (k.ipcTakeReply t).1.RestsBut t := by
  apply h.step {} (.ipcTakeReply t) trivial rfl
  intro op' hOps u hu
  cases performs_of_eq hOps
  exact ⟨hu, id, nofun⟩

theorem RestsBut.ipcCancelSend (h : k.RestsBut t) : (k.ipcCancelSendContinuation t).1.RestsBut t :=
  h.step {} (.ipcCancelSendContinuation t) trivial rfl fun _ hOps => nomatch hOps

theorem RestsBut.ipcCancelReceive (h : k.RestsBut t) :
    (k.ipcCancelReceiveContinuation t).1.RestsBut t :=
  h.step {} (.ipcCancelReceiveContinuation t) trivial rfl fun _ hOps => nomatch hOps

theorem RestsBut.ipcTakeSend (h : k.RestsBut t) (expected : AddressSpaceEpoch)
    (epochs : AddressSpaceEpochAuthority) :
    (k.ipcTakeSendContinuation t expected epochs).1.RestsBut t :=
  h.step { epochs } (.ipcTakeSendContinuation t expected) trivial rfl
    fun _ hOps => nomatch hOps

theorem RestsBut.ipcTakeReceive (h : k.RestsBut t) (expected : AddressSpaceEpoch)
    (epochs : AddressSpaceEpochAuthority) :
    (k.ipcTakeReceiveContinuation t expected epochs).1.RestsBut t :=
  h.step { epochs } (.ipcTakeReceiveContinuation t expected) trivial rfl
    fun _ hOps => nomatch hOps

theorem Rests.ipcTakeDeadlineExpiry (h : ∀ u, k.Rests u) (hServed : k.Served) (u : ThreadId) :
    (k.ipcTakeDeadlineExpiry t).1.Rests u := by
  apply (h u).quiet hServed {} (.ipcTakeDeadlineExpiry t) trivial rfl
  · intro op' hOps
    cases hOps
    trivial
  · intro server replySeal response hOps
    cases hOps

variable {α : Type}

/-- Arming `t` concerns nobody else. -/
theorem RestsBut.onContinuations
    {call : IpcContinuationTable → IpcContinuationTable × Result α} (h : k.RestsBut t)
    (hServed : (k.onContinuations t call).1.Served)
    (hCall : ∀ u, u ≠ t →
      NotArmedAnew k { k with ipcContinuations := (call k.ipcContinuations).1 } u) :
    (k.onContinuations t call).1.RestsBut t := by
  refine ⟨hServed, ?_⟩
  intro u hu
  refine (h.others u hu).of_core_eq h.served.regular ?_ (core_onContinuations k t call)
  unfold Kernel.onContinuations
  split_ifs
  · exact ⟨id, id⟩
  · exact hCall u hu

theorem RestsBut.ipcArmSend (h : k.RestsBut t) (epoch : AddressSpaceEpoch) (address : UInt64)
    (epochs : AddressSpaceEpochAuthority) :
    (k.ipcArmSendContinuation t epoch address epochs).1.RestsBut t := by
  refine h.onContinuations
    (h.served.step { epochs } (.ipcArmSendContinuation t epoch address) trivial) ?_
  intro u hu
  unfold NotArmedAnew sendArmed receiveArmed
  rcases k.ipcContinuations.keys_arm t epoch address epochs with hSame | ⟨-, hPerm, hRecv⟩
  · rw [hSame]
    exact ⟨id, id⟩
  refine ⟨?_, ?_⟩
  · rcases eq_or_ne u invalidThread with rfl | hu0
    · simp [sendSlotFor]
    · rw [sendSlotFor_isSome_iff hu0, sendSlotFor_isSome_iff hu0]
      exact fun hNew => mem_of_ne_of_mem hu (hPerm.subset hNew)
  · unfold receiveSlotFor
    rw [hRecv]
    exact id

theorem RestsBut.ipcArmReceive (h : k.RestsBut t) (epoch : AddressSpaceEpoch)
    (capability : CapabilityId) (address : UInt64) (epochs : AddressSpaceEpochAuthority)
    (deadline : UInt64) :
    (k.ipcArmReceiveContinuation t epoch capability address epochs deadline).1.RestsBut t := by
  refine h.onContinuations (h.served.step { epochs }
    (.ipcArmReceiveContinuation t epoch capability address deadline) trivial) ?_
  intro u hu
  unfold NotArmedAnew sendArmed receiveArmed
  rcases k.ipcContinuations.keys_armReceive t epoch capability address epochs deadline with
    hSame | ⟨-, hPerm, hSend⟩
  · rw [hSame]
    exact ⟨id, id⟩
  refine ⟨?_, ?_⟩
  · unfold sendSlotFor
    rw [hSend]
    exact id
  rcases eq_or_ne u invalidThread with rfl | hu0
  · simp [receiveSlotFor]
  rw [receiveSlotFor_isSome_iff hu0, receiveSlotFor_isSome_iff hu0]
  exact fun hNew => mem_of_ne_of_mem hu (hPerm.subset hNew)

theorem onContinuations_eq (h : k.tracks t = true)
    (call : IpcContinuationTable → IpcContinuationTable × Result α) :
    k.onContinuations t call = ({ k with ipcContinuations := (call k.ipcContinuations).1 },
        (call k.ipcContinuations).2) := by
  unfold Kernel.onContinuations
  rw [h]
  rfl

/-- A refused arming changes nothing, one that is granted only its own side. -/
theorem ipcArmSend_cases (epoch : AddressSpaceEpoch) (address : UInt64)
    (epochs : AddressSpaceEpochAuthority) :
    (∃ e, k.ipcArmSendContinuation t epoch address epochs = (k, .error e)) ∨
      ∃ k', k.ipcArmSendContinuation t epoch address epochs = (k', .ok ()) ∧
        k'.tracks t = true ∧ k'.core = k.core ∧
        k'.ipcContinuations.receiveArmed t = k.ipcContinuations.receiveArmed t := by
  unfold ipcArmSendContinuation
  by_cases hTracks : k.tracks t = true
  · rw [onContinuations_eq hTracks]
    unfold arm
    split_ifs
    iterate 4 exact .inl ⟨_, rfl⟩
    split
    · exact .inr ⟨_, rfl, hTracks, rfl, rfl⟩
    · exact .inl ⟨_, rfl⟩
  · unfold Kernel.onContinuations
    simp only [hTracks]
    exact .inl ⟨_, rfl⟩

theorem ipcArmReceive_cases (epoch : AddressSpaceEpoch) (capability : CapabilityId)
    (address : UInt64) (epochs : AddressSpaceEpochAuthority) (deadline : UInt64) :
    (∃ e, k.ipcArmReceiveContinuation t epoch capability address epochs deadline = (k, .error e)) ∨
      ∃ k', k.ipcArmReceiveContinuation t epoch capability address epochs deadline = (k', .ok ()) ∧
        k'.tracks t = true ∧ k'.core = k.core ∧
        k'.ipcContinuations.sendArmed t = k.ipcContinuations.sendArmed t := by
  unfold ipcArmReceiveContinuation
  by_cases hTracks : k.tracks t = true
  · rw [onContinuations_eq hTracks]
    unfold armReceive
    split_ifs
    iterate 5 exact .inl ⟨_, rfl⟩
    split
    · exact .inr ⟨_, rfl, hTracks, rfl, rfl⟩
    · exact .inl ⟨_, rfl⟩
  · unfold Kernel.onContinuations
    simp only [hTracks]
    exact .inl ⟨_, rfl⟩

/-- An endpoint call touches neither the continuations nor the thread list. -/
theorem commitIpc_frame (done : (IpcEndpointTable × Rendezvous) × Result α)
    {after : Kernel → α → Kernel}
    (hAfter : ∀ k value, ∃ scheduler, after k value = { k with scheduler }) :
    (k.commitIpc done after).1.ipcContinuations = k.ipcContinuations ∧
      (k.commitIpc done after).1.tracks t = k.tracks t := by
  obtain ⟨⟨ipc, threads⟩, e | value⟩ := done
  · exact ⟨rfl, rfl⟩
  obtain ⟨scheduler, hEq⟩ := hAfter { k with ipc, threads } value
  unfold commitIpc
  dsimp only
  rw [hEq]
  exact ⟨rfl, rfl⟩

theorem ipcSend_frame (capability : CapabilityId) (request : IpcEnvelope) :
    (k.ipcSend t capability request).1.ipcContinuations = k.ipcContinuations ∧
      (k.ipcSend t capability request).1.tracks t = k.tracks t :=
  commitIpc_frame _ fun k _ => ⟨_, synchronise_eq k⟩

theorem ipcReceive_frame (capability : CapabilityId) :
    (k.ipcReceive t capability).1.ipcContinuations = k.ipcContinuations ∧
      (k.ipcReceive t capability).1.tracks t = k.tracks t :=
  commitIpc_frame _ fun k (received : IpcReceived) => ⟨_, synchronisePair_eq k t received.caller⟩

theorem commitIpc_ok {done : (IpcEndpointTable × Rendezvous) × Result α}
    {after : Kernel → α → Kernel} (hAfter : ∀ k value, (after k value).core = k.core)
    {k' : Kernel} {value : α} (h : k.commitIpc done after = (k', .ok value)) :
    done = ((k'.ipc, k'.threads), .ok value) := by
  have hCore := core_commitIpc k done hAfter
  obtain ⟨⟨ipc, threads⟩, e | value'⟩ := done
  · cases h
  rw [h] at hCore
  simp only [core, Core.commit, Core.mk.injEq] at hCore
  obtain ⟨rfl, rfl⟩ := hCore
  have hValue : value' = value := by
    have hSnd := (Prod.ext_iff.mp h).2
    simpa [commitIpc] using hSnd
  rw [hValue]

/-- A thread whose send went through awaits the reply. -/
theorem awaits_ipcSend {k' : Kernel} {request : IpcEnvelope}
    (h : k.ipcSend t capability request = (k', .ok ())) :
    k'.core.AwaitsReply t ∧ ¬k'.threads.Expired t := by
  have hDone := commitIpc_ok (fun k _ => core_synchronise k) h
  unfold IpcEndpointTable.send at hDone
  split at hDone
  · simp at hDone
  obtain ⟨owner, pending, -, -, -, hSent, -⟩ := sendToEndpoint_ok hDone
  have hSlot : ∃ s, k'.threads.find t = some s ∧ s.wake = .none ∧
      (s.state = .sendBlocked ∨ s.state = .replyBlocked) := by
    rcases hSent with ⟨-, hDeliver⟩ | ⟨-, hBlock⟩
    · obtain ⟨sa, sb, -, -, -, -, -, hne, hFind⟩ := find_deliverWaitingReceiver hDeliver
      have hAt := hFind t
      rw [if_neg hne, if_pos rfl] at hAt
      exact ⟨_, hAt, rfl, .inr rfl⟩
    obtain ⟨sa, -, -, -, -, hFind⟩ := find_blockSend hBlock
    have hAt := hFind t
    rw [if_pos rfl] at hAt
    exact ⟨_, hAt, rfl, .inl rfl⟩
  obtain ⟨s, hFind, hWake, hState⟩ := hSlot
  refine ⟨⟨s.state, s.partner, phase_of_find hFind, ?_⟩, ?_⟩
  · rcases hState with hState | hState
    · exact .inl hState
    · exact .inr (.inl hState)
  rintro ⟨s', hFind', hExpired⟩
  rw [hFind] at hFind'
  cases hFind'
  rw [hWake] at hExpired
  cases hExpired

/-- A receive that brings nothing leaves the thread waiting. -/
theorem awaits_ipcReceive {k' : Kernel} (hReqs : k.ipc.RequestsValid) {received : IpcReceived}
    (h : k.ipcReceive t capability = (k', .ok received)) (hEmpty : received.valid = false) :
    k'.core.AwaitsMessage t ∧ ¬k'.threads.Expired t := by
  have hDone := commitIpc_ok (fun k (received : IpcReceived) =>
    core_synchronisePair k t received.caller) h
  unfold IpcEndpointTable.receive at hDone
  split at hDone
  · simp at hDone
  rename_i e _
  obtain ⟨owner, s, hOwner, -, -, hFind, -, hCase⟩ := receiveFromEndpoint_ok hDone
  have hSrv : t ≠ invalidThread := ne_invalid_of_find hFind
  have hEp : e.valid = true := by
    obtain ⟨-, hValid, -⟩ := slotFor_eq_some.mp hOwner
    exact hValid
  have hTaken : ∀ call ∈ k.ipc.calls, call.caller ≠ invalidThread →
      ¬k.ipc.Sealed k'.ipc t {} e call received := by
    intro call hCall hCaller hSealed
    have hValid : received.valid = true := by
      rw [hSealed.received_eq]
      simp [IpcReceived.valid, IpcReplySeal.valid, newSeal, hEp, hSrv, hCaller,
        hSealed.fresh.1, hReqs call hCall]
    rw [hEmpty] at hValid
    cases hValid
  rcases hCase with ⟨hPeer, call, hCall, hSealed, -⟩ | ⟨-, call, hCall, hSealed, hAccept⟩ |
    ⟨-, -, -, hWait, -⟩
  · obtain ⟨hMem, hCaller, -⟩ := mem_of_pendingSlot hCall
    exact absurd hSealed (hTaken call hMem (hCaller ▸ hPeer))
  · obtain ⟨hMem, -⟩ := mem_of_pendingSlotAt hCall
    obtain ⟨-, -, sb, -, hb, -⟩ := acceptSender_ok hAccept
    exact absurd hSealed (hTaken call hMem (ne_invalid_of_find hb))
  obtain ⟨-, hPhase⟩ := phase_waitReceive hWait
  obtain ⟨sa, -, -, -, hAll⟩ := find_waitReceive hWait
  refine ⟨.inl ?_, ?_⟩
  · show k'.threads.phase t = _
    rw [hPhase, if_pos rfl]
  rintro ⟨s', hFind', hExpired⟩
  rw [hAll t, if_pos rfl] at hFind'
  cases hFind'
  cases hExpired

theorem disarmed_cancelSend (hRegular : k.Regular) (hTracks : k.tracks t = true)
    (hRecv : k.ipcContinuations.receiveArmed t = false) :
    (k.ipcCancelSendContinuation t).1.Disarmed t := by
  have hArmed := notArmedAnew_step k {} (.ipcCancelSendContinuation t) rfl t
  refine ⟨?_, ?_⟩
  · unfold ipcCancelSendContinuation
    rw [onContinuations_eq hTracks]
    exact sendArmed_cancel hRegular.keyed t
  · exact hArmed.receive hRecv

theorem disarmed_cancelReceive (hRegular : k.Regular) (hTracks : k.tracks t = true)
    (hSend : k.ipcContinuations.sendArmed t = false) :
    (k.ipcCancelReceiveContinuation t).1.Disarmed t := by
  have hArmed := notArmedAnew_step k {} (.ipcCancelReceiveContinuation t) rfl t
  refine ⟨?_, ?_⟩
  · exact hArmed.send hSend
  · unfold ipcCancelReceiveContinuation
    rw [onContinuations_eq hTracks]
    exact receiveArmed_cancelReceive hRegular.keyed t

/-- A take gives the slot up even when it refuses. -/
theorem disarmed_takeSend (hRegular : k.Regular) (hTracks : k.tracks t = true)
    (hRecv : k.ipcContinuations.receiveArmed t = false) (expected : AddressSpaceEpoch)
    (epochs : AddressSpaceEpochAuthority) :
    (k.ipcTakeSendContinuation t expected epochs).1.Disarmed t := by
  have hArmed := notArmedAnew_step k { epochs } (.ipcTakeSendContinuation t expected) rfl t
  refine ⟨?_, ?_⟩
  · unfold ipcTakeSendContinuation
    rw [onContinuations_eq hTracks]
    unfold IpcContinuationTable.take
    cases hSlot : k.ipcContinuations.sendSlotFor t with
    | none => simp [sendArmed, hSlot]
    | some =>
      dsimp only
      split_ifs <;> exact hRegular.keyed.sendArmed_clearSend t
  · exact hArmed.receive hRecv

theorem disarmed_takeReceive (hRegular : k.Regular) (hTracks : k.tracks t = true)
    (hSend : k.ipcContinuations.sendArmed t = false) (expected : AddressSpaceEpoch)
    (epochs : AddressSpaceEpochAuthority) :
    (k.ipcTakeReceiveContinuation t expected epochs).1.Disarmed t := by
  have hArmed := notArmedAnew_step k { epochs } (.ipcTakeReceiveContinuation t expected) rfl t
  refine ⟨?_, ?_⟩
  · exact hArmed.send hSend
  unfold ipcTakeReceiveContinuation
  rw [onContinuations_eq hTracks]
  unfold takeReceive
  cases hSlot : k.ipcContinuations.receiveSlotFor t with
  | none => simp [receiveArmed, hSlot]
  | some slot =>
    dsimp only
    split_ifs <;> exact hRegular.keyed.receiveArmed_clearReceive t

/-- What a system call of `t` leaves: everybody at rest, and `t` free to call
again unless it has been put aside. -/
structure Settled (t : ThreadId) (k : Kernel) (putAside : Prop) : Prop where
  served : k.Served
  rests : ∀ u, k.Rests u
  disarmed : ¬putAside → k.Disarmed t

theorem RestsBut.settled {putAside : Prop} (h : k.RestsBut t) (ht : k.Disarmed t) :
    Settled t k putAside :=
  ⟨h.served, h.rests (Rests.of_disarmed ht), fun _ => ht⟩

/-- The call gives up the processor. -/
def PutAside (result : Result IpcSvcResult) : Prop :=
  ∃ value, result = .ok value ∧ value.reschedule = true

section Svc

variable (hServed : k.Served) (hRests : ∀ u, k.Rests u) (hDisarmed : k.Disarmed t)
  (frame : ExceptionFrame) (env : Env) (machine : UserMachine) (binding : ProcessTranslationBinding)
include hServed hRests hDisarmed

theorem settled_svcSend :
    Settled t (k.svcSend t frame env machine binding).1.2
      (PutAside (k.svcSend t frame env machine binding).2) := by
  have hBut : k.RestsBut t := ⟨hServed, fun u _ => hRests u⟩
  unfold svcSend
  split
  · exact hBut.settled hDisarmed
  rename_i decoded _
  split
  · exact hBut.settled hDisarmed
  rename_i envelope _
  have hArmedBut := hBut.ipcArmSend binding.epoch decoded.request.address env.epochs
  rcases ipcArmSend_cases (k := k) (t := t) binding.epoch decoded.request.address env.epochs with
    ⟨e, hArm⟩ | ⟨k₁, hArm, hTracks, hCore, hRecv⟩
  · rw [hArm]
    exact hBut.settled hDisarmed
  rw [hArm] at hArmedBut ⊢
  dsimp only at hArmedBut ⊢
  rw [hDisarmed.2] at hRecv
  have hSentBut := hArmedBut.ipcSend decoded.endpointCapability envelope
  obtain ⟨hFrame, hFrameTracks⟩ :=
    ipcSend_frame (k := k₁) (t := t) decoded.endpointCapability envelope
  rcases hSend : k₁.ipcSend t decoded.endpointCapability envelope with ⟨k₂, e | ⟨⟩⟩
  · rw [hSend] at hSentBut hFrame hFrameTracks
    refine hSentBut.ipcCancelSend.settled (disarmed_cancelSend hSentBut.served.regular ?_ ?_)
    · rw [hFrameTracks, hTracks]
    · rw [hFrame, hRecv]
  rw [hSend] at hSentBut hFrame
  obtain ⟨hAwaits, hFresh⟩ := awaits_ipcSend hSend
  have hQuiet : k₂.ipcContinuations.receiveArmed t = false := by rw [hFrame, hRecv]
  refine ⟨hSentBut.served, hSentBut.rests ⟨fun _ => hAwaits, ?_, ?_, fun _ => hQuiet⟩, ?_⟩
  · intro hWait
    rw [hQuiet] at hWait
    cases hWait
  · exact fun hExpired => absurd hExpired hFresh
  · exact fun hNot => absurd ⟨_, rfl, rfl⟩ hNot

theorem settled_svcReceive :
    Settled t (k.svcReceive t frame env machine binding).1.2
      (PutAside (k.svcReceive t frame env machine binding).2) := by
  have hBut : k.RestsBut t := ⟨hServed, fun u _ => hRests u⟩
  unfold svcReceive
  split
  · exact hBut.settled hDisarmed
  rename_i decoded _
  have hArmedBut := hBut.ipcArmReceive binding.epoch decoded.endpointCapability
    decoded.exchangeAddress env.epochs (absoluteDeadline machine.monotonicNanoseconds decoded)
  rcases ipcArmReceive_cases (k := k) (t := t) binding.epoch decoded.endpointCapability
    decoded.exchangeAddress env.epochs (absoluteDeadline machine.monotonicNanoseconds decoded) with
    ⟨e, hArm⟩ | ⟨k₁, hArm, hTracks, hCore, hSend⟩
  · rw [hArm]
    exact hBut.settled hDisarmed
  rw [hArm] at hArmedBut ⊢
  dsimp only at hArmedBut ⊢
  rw [hDisarmed.1] at hSend
  have hRecvdBut := hArmedBut.ipcReceive decoded.endpointCapability
  obtain ⟨hFrame, hFrameTracks⟩ := ipcReceive_frame (k := k₁) (t := t) decoded.endpointCapability
  rcases hRecv : k₁.ipcReceive t decoded.endpointCapability with ⟨k₂, e | received⟩
  all_goals
    rw [hRecv] at hRecvdBut hFrame hFrameTracks
    dsimp only at hRecvdBut hFrame hFrameTracks ⊢
    have hQuiet : k₂.ipcContinuations.sendArmed t = false := by rw [hFrame, hSend]
    have hCancelled := disarmed_cancelReceive hRecvdBut.served.regular
      (by rw [hFrameTracks, hTracks]) hQuiet
  · exact hRecvdBut.ipcCancelReceive.settled hCancelled
  split_ifs with hValid
  · have hEmpty : received.valid = false := by simpa using hValid
    obtain ⟨hAwaits, hFresh⟩ := awaits_ipcReceive hArmedBut.served.requests hRecv hEmpty
    refine ⟨hRecvdBut.served, hRecvdBut.rests ⟨?_, fun _ => hAwaits, ?_, ?_⟩, ?_⟩
    · intro hArmed
      rw [hQuiet] at hArmed
      cases hArmed
    · exact fun hExpired => absurd hExpired hFresh
    · intro hArmed
      rw [hQuiet] at hArmed
      cases hArmed
    · exact fun hNot => absurd ⟨_, rfl, rfl⟩ hNot
  · split
    all_goals exact hRecvdBut.ipcCancelReceive.settled hCancelled

theorem settled_svcReply :
    Settled t (k.svcReply t frame machine binding).1.2
      (PutAside (k.svcReply t frame machine binding).2) := by
  have hBut : k.RestsBut t := ⟨hServed, fun u _ => hRests u⟩
  unfold svcReply
  split
  · exact hBut.settled hDisarmed
  rename_i decoded _
  split
  · exact hBut.settled hDisarmed
  rename_i response _
  have hAfter := hServed.step {} (.ipcReplyTransaction t decoded.transaction response) trivial
  have hAtRest := Rests.undisturbed hRests hServed {}
    (.ipcReplyTransaction t decoded.transaction response) id (by
      rintro ⟨slot, -, hArmed, -⟩
      rw [hDisarmed.2] at hArmed
      cases hArmed)
  have hArmed := notArmedAnew_step k {} (.ipcReplyTransaction t decoded.transaction response) rfl t
  have hReplied : Settled t (k.ipcReplyTransaction t decoded.transaction response).1 False :=
    ⟨hAfter, hAtRest, fun _ => hArmed.disarmed hDisarmed⟩
  rcases hReply : k.ipcReplyTransaction t decoded.transaction response with ⟨k', e | ⟨⟩⟩
  all_goals
    rw [hReply] at hReplied
    exact ⟨hReplied.served, hReplied.rests, fun _ => hReplied.disarmed id⟩

omit binding in
theorem settled_dispatch (call : KernelCall) :
    Settled t (k.dispatchIpcSvcCurrent t call frame env machine).1.2
      (PutAside (k.dispatchIpcSvcCurrent t call frame env machine).2) := by
  have hBut : k.RestsBut t := ⟨hServed, fun u _ => hRests u⟩
  unfold dispatchIpcSvcCurrent
  split
  · exact hBut.settled hDisarmed
  rename_i binding _
  cases call with
  | send => exact settled_svcSend hServed hRests hDisarmed frame env machine binding
  | receive => exact settled_svcReceive hServed hRests hDisarmed frame env machine binding
  | reply => exact settled_svcReply hServed hRests hDisarmed frame machine binding
  | _ => exact hBut.settled hDisarmed

end Svc

section Complete

variable (hServed : k.Served) (hRests : ∀ u, k.Rests u) (frame : ExceptionFrame) (env : Env)
  (machine : UserMachine) (binding : ProcessTranslationBinding)
include hServed hRests

theorem settled_completeReceive (hTracks : k.tracks t = true)
    (hSend : k.ipcContinuations.sendArmed t = false) (putAside : Prop) :
    Settled t (k.completeReceive t frame env machine binding).1.2 putAside := by
  have hBut : k.RestsBut t := ⟨hServed, fun u _ => hRests u⟩
  have hTakenBut := hBut.ipcTakeReceive binding.epoch env.epochs
  have hTaken := disarmed_takeReceive hServed.regular hTracks hSend binding.epoch env.epochs
  unfold completeReceive
  rcases hTake : k.ipcTakeReceiveContinuation t binding.epoch env.epochs with
    ⟨k₁, e | continuation⟩
  · rw [hTake] at hTakenBut hTaken
    exact hTakenBut.settled hTaken
  rw [hTake] at hTakenBut hTaken
  dsimp only at hTakenBut hTaken ⊢
  have hRecvdBut := hTakenBut.ipcReceive continuation.endpointCapability
  obtain ⟨hFrame, -⟩ := ipcReceive_frame (k := k₁) (t := t) continuation.endpointCapability
  have hRecvd : (k₁.ipcReceive t continuation.endpointCapability).1.Disarmed t := by
    unfold Disarmed
    rw [hFrame]
    exact hTaken
  rcases hRecv : k₁.ipcReceive t continuation.endpointCapability with ⟨k₂, e | received⟩
  · rw [hRecv] at hRecvdBut hRecvd
    exact hRecvdBut.settled hRecvd
  rw [hRecv] at hRecvdBut hRecvd
  dsimp only at hRecvdBut hRecvd ⊢
  split_ifs
  · exact hRecvdBut.settled hRecvd
  split
  all_goals exact hRecvdBut.settled hRecvd

/-- A ready thread that has no answer to collect is not waiting for one. -/
theorem settled_completeSend (hReady : ∃ q, k.threads.phase t = some (.ready, q))
    (hRecv : k.ipcContinuations.receiveArmed t = false) (putAside : Prop) :
    Settled t (k.completeSend t frame env machine binding).1.2 putAside := by
  have hBut : k.RestsBut t := ⟨hServed, fun u _ => hRests u⟩
  obtain ⟨q, hReady⟩ := hReady
  have hTracks : k.tracks t = true := by
    obtain ⟨s, hFind, -⟩ := phase_eq_some.mp hReady
    rw [tracks_iff hServed.regular, hFind]
    rfl
  have hTakenBut := hBut.ipcTakeReply
  have hReply : k.ipcTakeReply t =
      ({ k with ipc := (k.ipc.takeReply t).1 }, (k.ipc.takeReply t).2) := by
    unfold ipcTakeReply
    rw [hTracks]
    rfl
  unfold completeSend
  rw [hReply] at hTakenBut ⊢
  unfold IpcEndpointTable.takeReply at hTakenBut ⊢
  cases hSlot : k.ipc.completedSlot t with
  | none =>
    have hSend : k.ipcContinuations.sendArmed t = false := by
      by_contra hArmed
      obtain ⟨state, q', hPhase, hWhy⟩ := (hRests t).send (by simpa using hArmed)
      have hPhase : k.threads.phase t = some (state, q') := hPhase
      rw [hReady] at hPhase
      cases hPhase
      have hNone : k.core.ipc.completedSlot t = none := hSlot
      rw [hNone] at hWhy
      simp at hWhy
    dsimp only
    split_ifs <;> exact hBut.settled ⟨hSend, hRecv⟩
  | some slot =>
    rw [hSlot] at hTakenBut
    dsimp only at hTakenBut ⊢
    have hClearedBut := hTakenBut.ipcTakeSend binding.epoch env.epochs
    have hCleared := disarmed_takeSend hTakenBut.served.regular hTracks hRecv binding.epoch
      env.epochs
    rcases hTake : ({ k with ipc := k.ipc.discardCompletedFor t } :
      Kernel).ipcTakeSendContinuation t binding.epoch env.epochs with ⟨k₂, e | continuation⟩
    · rw [hTake] at hClearedBut hCleared
      exact hClearedBut.settled hCleared
    rw [hTake] at hClearedBut hCleared
    dsimp only at hClearedBut hCleared ⊢
    split
    all_goals exact hClearedBut.settled hCleared

omit binding in
/-- A thread that is resumed has no continuation left. -/
theorem settled_complete (hReady : ∃ q, k.threads.phase t = some (.ready, q)) :
    Settled t (k.completeIpcCurrent t frame env machine).1.2
      (∃ e, (k.completeIpcCurrent t frame env machine).2 = .error e) := by
  unfold completeIpcCurrent
  split
  · exact ⟨hServed, hRests, fun hNot => absurd ⟨_, rfl⟩ hNot⟩
  rename_i binding _
  have hTakenServed := hServed.step {} (.ipcTakeDeadlineExpiry t) trivial
  have hTakenRests := Rests.ipcTakeDeadlineExpiry (t := t) hRests hServed
  have hTakenPhase : (k.ipcTakeDeadlineExpiry t).1.threads.phase = k.threads.phase :=
    phase_takeDeadlineExpiry k.threads t
  have hFlag : (k.ipcTakeDeadlineExpiry t).2 = .ok true → k.threads.Expired t := by
    intro hTrue
    have hTrue : (k.threads.takeDeadlineExpiry t).2 = .ok true := hTrue
    unfold Rendezvous.takeDeadlineExpiry at hTrue
    split at hTrue
    · cases hTrue
    split at hTrue
    · cases hTrue
    rename_i slot hFind
    split_ifs at hTrue with hWake
    · cases hTrue
    · exact ⟨slot, hFind, by simpa using hWake⟩
  have hContinuations : (k.ipcTakeDeadlineExpiry t).1.ipcContinuations = k.ipcContinuations := rfl
  rcases hTake : k.ipcTakeDeadlineExpiry t with ⟨k₁, e | _ | _⟩
  all_goals
    rw [hTake] at hTakenPhase hFlag hContinuations
    simp only [hTake] at hTakenRests
    have hServed₁ : k₁.Served := by
      have hFirst : (k.step ({}, .ipcTakeDeadlineExpiry t)).1 = k₁ := congrArg Prod.fst hTake
      rwa [hFirst] at hTakenServed
    dsimp only at hTakenPhase hFlag hContinuations ⊢
  · exact ⟨hServed₁, hTakenRests, fun hNot => absurd ⟨_, rfl⟩ hNot⟩
  · rw [← hTakenPhase] at hReady
    split_ifs with hWait
    · have hTracks : k₁.tracks t = true := by
        obtain ⟨q, hReady⟩ := hReady
        obtain ⟨s, hFind, -⟩ := phase_eq_some.mp hReady
        rw [tracks_iff hServed₁.regular, hFind]
        rfl
      have hSend : k₁.ipcContinuations.sendArmed t = false := by
        by_contra hArmed
        rw [(hTakenRests t).one (by simpa using hArmed)] at hWait
        cases hWait
      exact settled_completeReceive hServed₁ hTakenRests frame env machine binding hTracks hSend _
    · exact settled_completeSend hServed₁ hTakenRests frame env machine binding hReady
        (by simpa using hWait) _
  · refine ⟨hServed₁, hTakenRests, fun _ => ?_⟩
    unfold Disarmed
    rw [hContinuations]
    exact (hRests t).unexpired (hFlag rfl)

end Complete

end EntryPoints

end Kernel

/-- Everybody is at rest and the running thread has no continuation. -/
structure Processor.Resting (p : Processor) : Prop where
  served : p.kernel.Served
  rests : ∀ t, p.kernel.Rests t
  running : ∀ t, p.current = some t → p.kernel.Disarmed t

namespace Processor

theorem resting_empty : Resting {} := by
  have hSend : keys IpcContinuationTable.SendSlot.key
      ({} : Kernel).ipcContinuations.sendSlots = [] := by decide
  have hRecv : keys key ({} : Kernel).ipcContinuations.receiveSlots = [] := by decide
  have hDisarmed : ∀ t, Kernel.Disarmed {} t := by
    intro t
    unfold Kernel.Disarmed sendArmed receiveArmed
    rcases eq_or_ne t invalidThread with rfl | ht
    · simp [sendSlotFor, receiveSlotFor]
    · rw [Bool.eq_false_iff, Bool.eq_false_iff, ne_eq, ne_eq, sendSlotFor_isSome_iff ht,
        receiveSlotFor_isSome_iff ht, hSend, hRecv]
      simp
  refine ⟨served_empty, fun t => Kernel.Rests.of_disarmed (hDisarmed t), ?_⟩
  intro t hNo
  cases hNo

variable {p : Processor} {t : ThreadId} {c : IpcContinuationTable}

theorem Resting.svc (h : p.Resting) (call : KernelCall) (frame : ExceptionFrame) (env : Env)
    (machine : UserMachine) : (p.step (.svc call frame env machine)).1.Resting := by
  unfold Processor.step
  dsimp only
  split
  · exact h
  rename_i t hCur
  have hSettled := settled_dispatch h.served h.rests (h.running t hCur) frame env
    machine call
  rcases hDone : p.kernel.dispatchIpcSvcCurrent t call frame env machine with
    ⟨⟨frame', kernel⟩, e | result⟩
  · rw [hDone] at hSettled
    refine ⟨hSettled.served, hSettled.rests, ?_⟩
    intro t' ht'
    cases ht'
    apply hSettled.disarmed
    rintro ⟨value, hNo, -⟩
    cases hNo
  · rw [hDone] at hSettled
    refine ⟨hSettled.served, hSettled.rests, ?_⟩
    intro t' ht'
    dsimp only at ht'
    split_ifs at ht' with hReschedule
    cases ht'
    apply hSettled.disarmed
    rintro ⟨value, hValue, hTrue⟩
    cases hValue
    exact hReschedule hTrue

theorem Resting.resume (h : p.Resting) (t : ThreadId) (frame : ExceptionFrame) (env : Env)
    (machine : UserMachine) : (p.step (.resume t frame env machine)).1.Resting := by
  unfold Processor.step
  dsimp only
  split_ifs with hState
  · have hReady : ∃ q, p.kernel.threads.phase t = some (.ready, q) := by
      unfold Rendezvous.stateOf at hState
      cases hFind : p.kernel.threads.find t with
      | none =>
        rw [hFind] at hState
        cases hState
      | some slot =>
        rw [hFind] at hState
        simp only [Except.ok.injEq] at hState
        exact ⟨slot.partner, by rw [phase_of_find hFind, hState]⟩
    have hSettled := settled_complete h.served h.rests frame env machine hReady
    rcases hDone : p.kernel.completeIpcCurrent t frame env machine with
      ⟨⟨frame', kernel⟩, e | completed⟩
    · rw [hDone] at hSettled
      refine ⟨hSettled.served, hSettled.rests, ?_⟩
      intro t' hNo
      cases hNo
    rw [hDone] at hSettled
    refine ⟨hSettled.served, hSettled.rests, ?_⟩
    intro t' ht'
    cases ht'
    apply hSettled.disarmed
    rintro ⟨e, hNo⟩
    cases hNo
  · exact h

theorem Resting.step (h : p.Resting) {input : ProcessorInput} (hPattern : input.KeepsPattern)
    (hUndisturbed : p.Undisturbed input) : (p.step input).1.Resting := by
  cases input with
  | svc call frame env machine => exact h.svc call frame env machine
  | resume t frame env machine => exact h.resume t frame env machine
  | kernel env op =>
    obtain ⟨hUses, hArms⟩ := usesEndpoints_of_not_sleeps hPattern
    refine ⟨h.served.step env op hUses, ?_, ?_⟩
    · exact Kernel.Rests.undisturbed h.rests h.served env op hPattern hUndisturbed
    · intro t ht
      exact (notArmedAnew_step _ env op hArms t).disarmed (h.running t ht)

theorem onContinuations_ne {k : Kernel}
    {call : IpcContinuationTable → IpcContinuationTable × Result Unit}
    (h : (call k.ipcContinuations).2 ≠ .error (kernelError alreadyArmed)) :
    (k.onContinuations t call).2 ≠ .error (kernelError alreadyArmed) := by
  unfold Kernel.onContinuations
  split_ifs
  · exact kernelError_ne (by decide)
  · exact h

/-- A thread without a continuation is never told that it has one. -/
theorem arm_ne_alreadyArmed (h : c.sendArmed t = false) (epoch : AddressSpaceEpoch)
    (address : UInt64) (epochs : AddressSpaceEpochAuthority) :
    (c.arm t epoch address epochs).2 ≠
      .error (kernelError alreadyArmed) := by
  unfold arm
  split_ifs with _ _ _ hArmed
  iterate 3 exact kernelError_ne (by decide)
  · rw [sendArmed, hArmed] at h
    cases h
  split
  · intro hNo
    cases hNo
  · exact kernelError_ne (by decide)

theorem armReceive_ne_alreadyArmed (h : c.receiveArmed t = false) (epoch : AddressSpaceEpoch)
    (capability : CapabilityId) (address : UInt64) (epochs : AddressSpaceEpochAuthority)
    (deadline : UInt64) :
    (c.armReceive t epoch capability address epochs deadline).2 ≠
      .error (kernelError alreadyArmed) := by
  unfold armReceive
  split_ifs with _ _ _ _ hArmed
  iterate 4 exact kernelError_ne (by decide)
  · rw [receiveArmed, hArmed] at h
    cases h
  split
  · intro hNo
    cases hNo
  · exact kernelError_ne (by decide)

theorem Resting.coherent (h : p.Resting) : ContinuationsCoherent p where
  send t := (h.rests t).send
  receive t := (h.rests t).receive
  canSend t ht epoch address epochs :=
    onContinuations_ne (arm_ne_alreadyArmed (h.running t ht).1 epoch address epochs)
  canReceive t ht epoch capability address epochs deadline :=
    onContinuations_ne
      (armReceive_ne_alreadyArmed (h.running t ht).2 epoch capability address epochs deadline)

end Processor

/-- In every run of the system call pattern in which no step wakes a caller
without an answer or takes the caller from a woken receiver, the continuations are
coherent throughout. -/
theorem continuations_coherent (inputs : List ProcessorInput)
    (hPattern : ∀ input ∈ inputs, input.KeepsPattern)
    (hEach : Run.EachStep Processor.step Processor.Undisturbed {} inputs) :
    Run.Always Processor.step ContinuationsCoherent {} inputs := by
  have hRun : Run.Always Processor.step Processor.Resting {} inputs := by
    apply always_of_step (C := fun p input => input.KeepsPattern ∧ p.Undisturbed input)
      Processor.resting_empty
    · intro p input hResting hStep
      exact hResting.step hStep.1 hStep.2
    · intro n input hInput
      exact ⟨hPattern input (mem_of_getElem? hInput), hEach n input hInput⟩
  intro n
  exact (hRun n).coherent

/-- Thread 2 lives in the only address space there is. -/
def soleSpace : Env :=
  let (epochs, acquired) := ({} : AddressSpaceEpochAuthority).acquire
  match acquired with
  | .error _ => { epochs }
  | .ok epoch =>
    { epochs
      translations :=
        (({} : ProcessTranslationTable).bind 2 epoch { rootPhysical := 0x1000, entry := 1 }
          epochs).1 }

/-- A machine whose user memory is empty. -/
def emptyMemory : UserMachine where
  copyFromUserCurrent _ := .ok []
  copyToUserCurrent _ _ := .ok ()
  monotonicNanoseconds := 0

/-- The registers of a send of nothing through capability 1. -/
def sendNothing : ExceptionFrame := answer {} 1 0x1000

/-- Thread 2 calls through the endpoint of thread 1, which retires it. -/
def retirementRun : List ProcessorInput :=
  [.kernel {} (.createThread 1 0), .kernel {} (.createThread 2 0),
   .kernel {} (.createIpcEndpoint 1),
   .kernel {} (.capability
     (.mint 2 (ipcObjectId { slot := 0, generation := 1 }) ipcRightSend false)),
   .resume 2 {} soleSpace emptyMemory,
   .svc .send sendNothing soleSpace emptyMemory,
   .kernel {} (.retireIpcEndpoint 1 { slot := 0, generation := 1 }),
   .resume 2 {} soleSpace emptyMemory]

theorem retirementRun_keepsPattern : ∀ input ∈ retirementRun, input.KeepsPattern := by
  intro input hInput
  simp only [retirementRun, mem_cons, not_mem_nil, or_false] at hInput
  rcases hInput with rfl | rfl | rfl | rfl | rfl | rfl | rfl | rfl
  all_goals simp [ProcessorInput.KeepsPattern, Op.Sleeps]

/-- Thread 2 runs again with the continuation of the call that was cancelled. -/
theorem retirementRun_leaves_continuation :
    (∀ input ∈ retirementRun, input.KeepsPattern) ∧
      (after Processor.step {} retirementRun).current = some 2 ∧
      (after Processor.step {} retirementRun).kernel.threads.stateOf 2 = .ok .ready ∧
      ((after Processor.step {} retirementRun).kernel.dispatchIpcSvcCurrent 2 .send sendNothing
        soleSpace emptyMemory).2 = .error (kernelError alreadyArmed) ∧
      ¬Run.Always Processor.step ContinuationsCoherent {} retirementRun := by
  have hState : (after Processor.step {} retirementRun).current = some 2 ∧
      (after Processor.step {} retirementRun).kernel.threads.stateOf 2 = .ok .ready ∧
      ((after Processor.step {} retirementRun).kernel.dispatchIpcSvcCurrent 2 .send sendNothing
        soleSpace emptyMemory).2 = .error (kernelError alreadyArmed) ∧
      (after Processor.step {} retirementRun).kernel.ipcContinuations.sendArmed 2 = true ∧
      (after Processor.step {} retirementRun).kernel.threads.phase 2 =
        some (.ready, invalidThread) ∧
      (after Processor.step {} retirementRun).kernel.ipc.completedSlot 2 = none := by
    decide +kernel
  obtain ⟨hCur, hReady, hRefused, hArmed, hPhase, hNone⟩ := hState
  refine ⟨retirementRun_keepsPattern, hCur, hReady, hRefused, ?_⟩
  intro h
  obtain ⟨state, q, hAwaits, hWhy⟩ := h.final.send 2 hArmed
  have hAwaits : (after Processor.step {} retirementRun).kernel.threads.phase 2 =
      some (state, q) := hAwaits
  rw [hPhase] at hAwaits
  cases hAwaits
  have hNone : (after Processor.step {} retirementRun).kernel.core.ipc.completedSlot 2 = none :=
    hNone
  rw [hNone] at hWhy
  simp at hWhy

/-- Up to the retirement the run meets the condition. -/
theorem continuations_coherent_until_retirement :
    Run.Always Processor.step ContinuationsCoherent {} (retirementRun.take 6) := by
  apply continuations_coherent
  · intro input hInput
    exact retirementRun_keepsPattern input (mem_of_mem_take hInput)
  · intro n input hInput
    have hn : n < 6 := (List.getElem?_eq_some_iff.mp hInput).1
    interval_cases n
    all_goals
      cases hInput
      simp [Processor.Undisturbed, WakesCaller]

end Enml.OsKernel
