import Enml.Invariant.IpcTeardown
import Enml.Invariant.Tables

/-! The IPC core of the kernel: the rendezvous and the endpoint table, with the
few operations every public call comes down to. An invariant of the core is
proved once per core operation and then holds for every kernel call. -/
namespace Enml.OsKernel

open Enml.Core IpcEndpointTable Rendezvous List

/-- The part of the kernel that IPC acts on. -/
structure Core where
  threads : Rendezvous
  ipc : IpcEndpointTable

def Kernel.core (k : Kernel) : Core := ⟨k.threads, k.ipc⟩

/-- The tables of threads of the kernel agree. -/
abbrev Kernel.SameTables (k : Kernel) : Prop := SameThreads k.threads k.scheduler k.live k.liveCount

/-- What the public calls come down to. -/
inductive CoreOp where
  | create (state : ThreadState) (thread : ThreadId) (priority : Priority)
  | start (thread : ThreadId)
  | destroy (thread : ThreadId)
  | send (sender target : ThreadId)
  | receive (self : ThreadId)
  | reply (self caller : ThreadId)
  | createEndpoint (server : ThreadId)
  | retireEndpoint (server : ThreadId) (endpoint : IpcEndpoint)
  | sendTo (caller : ThreadId) (space : AddressSpaceIdentity) (endpoint : IpcEndpoint)
      (request : IpcEnvelope)
  | receiveFrom (server : ThreadId) (space : AddressSpaceIdentity) (endpoint : IpcEndpoint)
  | replyTo (server : ThreadId) (replySeal : IpcReplySeal) (response : IpcEnvelope)
  | takeReply (caller : ThreadId)
  | expire (server : ThreadId)
  | takeExpiry (thread : ThreadId)

/-- An IPC operation on the core. -/
def Core.commit {α : Type} (done : (IpcEndpointTable × Rendezvous) × α) : Core :=
  ⟨done.1.2, done.1.1⟩

def CoreOp.apply (c : Core) : CoreOp → Core
  | .create state thread priority =>
    { c with threads := (c.threads.createIn state thread priority).1 }
  | .start thread => { c with threads := (c.threads.startThread thread).1 }
  | .destroy thread =>
    let released := (c.ipc.releaseThread thread c.threads).1
    ⟨(released.2.exitThread thread).1, released.1⟩
  | .send sender target => { c with threads := (c.threads.send sender target).1 }
  | .receive self => { c with threads := (c.threads.receive self).1 }
  | .reply self caller => { c with threads := (c.threads.reply self caller).1 }
  | .createEndpoint server => { c with ipc := (c.ipc.create server).1 }
  | .retireEndpoint server endpoint => .commit (c.ipc.retire server endpoint c.threads)
  | .sendTo caller space endpoint request =>
    .commit (c.ipc.sendToEndpoint caller space endpoint c.threads request)
  | .receiveFrom server space endpoint =>
    .commit (c.ipc.receiveFromEndpoint server space endpoint c.threads)
  | .replyTo server replySeal response => .commit (c.ipc.reply server replySeal c.threads response)
  | .takeReply caller => { c with ipc := (c.ipc.takeReply caller).1 }
  | .expire server => { c with threads := (c.threads.expireReceive server).1 }
  | .takeExpiry thread => { c with threads := (c.threads.takeDeadlineExpiry thread).1 }

variable {k : Kernel}

namespace Kernel

variable {t : ThreadId} {p : Priority} {threads : Rendezvous}

/-- The core operations of `thread_admit`: the creation, and its undoing when
the translation cannot be bound. -/
def admitOps (k : Kernel) (env : Env) (creator : ThreadId) (space : CapabilityId)
    (stack : UInt64) (root : SealedTranslationRoot) : List CoreOp :=
  match k.admissionCheck creator space stack root env.epochs env.executables with
  | .error _ => []
  | .ok (epoch, _) =>
    match k.threadIdentifiers.issue with
    | (_, .error _) => []
    | (_, .ok issued) =>
      match k.threads.effectivePriorityOf creator with
      | .error _ => []
      | .ok priority =>
        match k.threads.createAdmittedThread issued priority with
        | (_, .error _) => []
        | (_, .ok ()) =>
          match env.translations.bind issued epoch root env.epochs with
          | (_, .error _) => [.create .admitted issued priority, .destroy issued]
          | (_, .ok ()) => [.create .admitted issued priority]

/-- The core operations a call performs, decided by the state before it. -/
def coreOps (k : Kernel) (env : Env) : Op → List CoreOp
  | .createThread thread priority => [.create .ready thread priority]
  | .createAdmittedThread thread priority => [.create .admitted thread priority]
  | .threadStart thread => [.start thread]
  | .threadAdmit creator space stack root => k.admitOps env creator space stack root
  | .destroyThread thread => [.destroy thread]
  | .send sender target => [.send sender target]
  | .receive self => [.receive self]
  | .reply self caller => [.reply self caller]
  | .createIpcEndpoint server => if k.tracks server then [.createEndpoint server] else []
  | .retireIpcEndpoint server endpoint => [.retireEndpoint server endpoint]
  | .ipcSend caller capability request =>
    match k.ipc.endpointForCapability caller capability ipcRightSend k.capabilities with
    | .error _ => []
    | .ok endpoint => [.sendTo caller {} endpoint request]
  | .ipcSendBound caller capability request =>
    match k.ipc.endpointForBoundCapability caller capability ipcRightSend k.capabilities with
    | .error _ => []
    | .ok endpoint => [.sendTo caller.thread caller.addressSpace endpoint request]
  | .ipcReceive server capability =>
    match k.ipc.endpointForCapability server capability ipcRightReceive k.capabilities with
    | .error _ => []
    | .ok endpoint => [.receiveFrom server {} endpoint]
  | .ipcReceiveBound server capability =>
    match k.ipc.endpointForBoundCapability server capability ipcRightReceive k.capabilities with
    | .error _ => []
    | .ok endpoint => [.receiveFrom server.thread server.addressSpace endpoint]
  | .ipcReply server replySeal response => [.replyTo server replySeal response]
  | .ipcReplyBound server replySeal response =>
    if !server.valid then []
    else if replySeal.serverAddressSpace.valid &&
        server.addressSpace != replySeal.serverAddressSpace then []
    else [.replyTo server.thread replySeal response]
  | .ipcReplyTransaction server transaction response =>
    match k.ipc.replySlotOf server transaction with
    | none => []
    | some slot => [.replyTo server slot.replySeal response]
  | .ipcReplyTransactionBound server transaction response =>
    match k.ipc.replySlotOf server.thread transaction with
    | none => []
    | some slot =>
      if !server.valid then []
      else if slot.replySeal.serverAddressSpace.valid &&
          server.addressSpace != slot.replySeal.serverAddressSpace then []
      else [.replyTo server.thread slot.replySeal response]
  | .ipcTakeReply caller => if k.tracks caller then [.takeReply caller] else []
  | .ipcTakeReplyBound caller =>
    if !k.tracks caller.thread || !caller.valid then []
    else
      match k.ipc.completedSlot caller.thread with
      | none => []
      | some slot =>
        if slot.callerAddressSpace.valid && caller.addressSpace != slot.callerAddressSpace then
          []
        else [.takeReply caller.thread]
  | .ipcExpireOneReceive now =>
    match k.ipcContinuations.expiredReceive now with
    | none => []
    | some slot => [.expire slot.continuation.server]
  | .ipcTakeDeadlineExpiry thread => [.takeExpiry thread]
  | _ => []

/-- How a call comes to perform a core operation, with what it has found by then. -/
inductive Performs (k : Kernel) (env : Env) : Op → CoreOp → Prop
  | createThread t p : Performs k env (.createThread t p) (.create .ready t p)
  | createAdmittedThread t p : Performs k env (.createAdmittedThread t p) (.create .admitted t p)
  | threadAdmit {creator space stack root t p}
      (hPriority : k.threads.effectivePriorityOf creator = .ok p) :
    Performs k env (.threadAdmit creator space stack root) (.create .admitted t p)
  | undo {creator space stack root t p threads}
      (hCreate : k.threads.createIn .admitted t p = (threads, .ok ()))
      (hOps : k.admitOps env creator space stack root = [.create .admitted t p, .destroy t]) :
    Performs k env (.threadAdmit creator space stack root) (.destroy t)
  | threadStart t : Performs k env (.threadStart t) (.start t)
  | destroyThread t : Performs k env (.destroyThread t) (.destroy t)
  | send s t : Performs k env (.send s t) (.send s t)
  | receive t : Performs k env (.receive t) (.receive t)
  | reply s t : Performs k env (.reply s t) (.reply s t)
  | createIpcEndpoint t : Performs k env (.createIpcEndpoint t) (.createEndpoint t)
  | retireIpcEndpoint t e : Performs k env (.retireIpcEndpoint t e) (.retireEndpoint t e)
  | ipcSend t id r e : Performs k env (.ipcSend t id r) (.sendTo t {} e r)
  | ipcSendBound (a : ExecutionAuthority) id r e :
    Performs k env (.ipcSendBound a id r) (.sendTo a.thread a.addressSpace e r)
  | ipcReceive t id e : Performs k env (.ipcReceive t id) (.receiveFrom t {} e)
  | ipcReceiveBound (a : ExecutionAuthority) id e :
    Performs k env (.ipcReceiveBound a id) (.receiveFrom a.thread a.addressSpace e)
  | ipcReply t s r : Performs k env (.ipcReply t s r) (.replyTo t s r)
  | ipcReplyBound (a : ExecutionAuthority) s r :
    Performs k env (.ipcReplyBound a s r) (.replyTo a.thread s r)
  | ipcReplyTransaction {t n slot} r (hSlot : k.ipc.replySlotOf t n = some slot) :
    Performs k env (.ipcReplyTransaction t n r) (.replyTo t slot.replySeal r)
  | ipcReplyTransactionBound {a : ExecutionAuthority} {n slot} r
      (hSlot : k.ipc.replySlotOf a.thread n = some slot) :
    Performs k env (.ipcReplyTransactionBound a n r) (.replyTo a.thread slot.replySeal r)
  | ipcTakeReply t : Performs k env (.ipcTakeReply t) (.takeReply t)
  | ipcTakeReplyBound (a : ExecutionAuthority) :
    Performs k env (.ipcTakeReplyBound a) (.takeReply a.thread)
  | expire {now slot} (hArmed : k.ipcContinuations.expiredReceive now = some slot) :
    Performs k env (.ipcExpireOneReceive now) (.expire slot.continuation.server)
  | ipcTakeDeadlineExpiry t : Performs k env (.ipcTakeDeadlineExpiry t) (.takeExpiry t)

theorem performs_of_mem {k : Kernel} {env : Env} {op : Op} {op' : CoreOp}
    (h : op' ∈ k.coreOps env op) : k.Performs env op op' := by
  cases op with
  | threadAdmit creator space stack root =>
    have hOps : k.coreOps env (.threadAdmit creator space stack root) =
        k.admitOps env creator space stack root := rfl
    rw [hOps] at h
    generalize hEq : k.admitOps env creator space stack root = ops at h
    have hAdmit := hEq
    unfold admitOps at hAdmit
    repeat' split at hAdmit
    all_goals
      subst hAdmit
      simp only [mem_cons, not_mem_nil, or_false] at h
    · rcases h with rfl | rfl
      · exact .threadAdmit (by assumption)
      · exact .undo (by assumption) hEq
    · subst h
      exact .threadAdmit (by assumption)
  | _ =>
    simp only [coreOps] at h
    repeat' split at h
    all_goals
      simp only [mem_cons, not_mem_nil, or_false] at h
      try
        subst h
        constructor
        try assumption

theorem performs_of_eq {k : Kernel} {env : Env} {op : Op} {op' : CoreOp}
    (h : k.coreOps env op = [op']) : k.Performs env op op' :=
  performs_of_mem (by simp [h])

@[simp] theorem core_synchronise (k : Kernel) : k.synchronise.core = k.core := by
  rw [synchronise_eq]
  rfl

@[simp] theorem core_synchronisePair (k : Kernel) (a b : ThreadId) :
    (k.synchronisePair a b).core = k.core := by
  rw [synchronisePair_eq]
  rfl

@[simp] theorem core_synchroniseThread (k : Kernel) (t : ThreadId) :
    (k.synchroniseThread t).core = k.core := by
  rw [synchroniseThread_eq]
  rfl

theorem core_commitIpc {α : Type} (k : Kernel)
    (done : (IpcEndpointTable × Rendezvous) × Result α) {after : Kernel → α → Kernel}
    (hAfter : ∀ k value, (after k value).core = k.core) :
    (k.commitIpc done after).1.core = Core.commit done := by
  obtain ⟨⟨ipc, threads⟩, result⟩ := done
  cases result with
  | error => rfl
  | ok value =>
    rw [commitIpc]
    exact hAfter _ value

@[simp] theorem core_onContinuations {α : Type} (k : Kernel) (t : ThreadId)
    (call : IpcContinuationTable → IpcContinuationTable × Result α) :
    (k.onContinuations t call).1.core = k.core := by
  unfold onContinuations
  split <;> rfl

@[simp] theorem core_untrack (k : Kernel) (t : ThreadId) : (k.untrack t).core = k.core := by
  unfold untrack
  split <;> rfl

theorem finishCreation_error {e : Error} :
    k.finishCreation t p (threads, .error e) = ({ k with threads }, .error e) := rfl

theorem finishCreation_ok (hSame : k.SameTables)
    {state : ThreadState} (hCreate : k.threads.createIn state t p = (threads, .ok ())) :
    ∃ scheduler, k.scheduler.admitThread t p = (scheduler, .ok ()) ∧
      k.finishCreation t p (threads, .ok ()) =
        (({ k with threads, scheduler }.track t).synchroniseThread t, .ok ()) := by
  obtain ⟨scheduler, hAdmit⟩ := hSame.admit_of_create hCreate
  refine ⟨scheduler, hAdmit, ?_⟩
  rw [finishCreation, hAdmit]

theorem core_finishCreation (hSame : k.SameTables)
    (state : ThreadState) (t : ThreadId) (p : Priority) :
    (k.finishCreation t p (k.threads.createIn state t p)).1.core =
      CoreOp.apply k.core (.create state t p) := by
  rcases hCreate : k.threads.createIn state t p with ⟨threads, _ | ⟨⟩⟩
  · rw [finishCreation_error]
    simp [core, CoreOp.apply, hCreate]
  · obtain ⟨scheduler, -, hFinish⟩ := finishCreation_ok hSame hCreate
    rw [hFinish, core_synchroniseThread]
    simp [core, track, CoreOp.apply, hCreate]

theorem core_destroyThread (k : Kernel) (t : ThreadId) :
    (k.destroyThread t).1.core = CoreOp.apply k.core (.destroy t) := by
  unfold destroyThread
  dsimp only
  rcases hExit : (k.ipc.releaseThread t k.threads).1.2.exitThread t with ⟨threads, result⟩
  cases result with
  | error => simp [core, CoreOp.apply, hExit]
  | ok =>
    simp only [core_synchronise, core_untrack]
    simp [core, CoreOp.apply, hExit]

/-- An admission spends an identifier, creates a thread, and destroys it again
if the translation table does not take it. -/
theorem threadAdmit_induction {P : Kernel → Prop}
    (hIssue : ∀ threadIdentifiers, P { k with threadIdentifiers })
    (hCreate : ∀ threadIdentifiers t p, P ({ k with threadIdentifiers }.createAdmittedThread t p).1)
    (hDestroy : ∀ threadIdentifiers t p,
      P (({ k with threadIdentifiers }.createAdmittedThread t p).1.destroyThread t).1)
    (env : Env) (creator : ThreadId) (space : CapabilityId) (stack : UInt64)
    (root : SealedTranslationRoot) :
    P (k.threadAdmit creator space stack root env.epochs env.translations
      env.executables).1.1 := by
  unfold threadAdmit
  rcases k.admissionCheck creator space stack root env.epochs env.executables with
    e | ⟨epoch, entry⟩
  · exact hIssue k.threadIdentifiers
  rcases k.threadIdentifiers.issue with ⟨threadIdentifiers, e | issued⟩
  · exact hIssue k.threadIdentifiers
  dsimp only
  rcases k.threads.effectivePriorityOf creator with e | priority
  · exact hIssue threadIdentifiers
  dsimp only
  have hCreated := hCreate threadIdentifiers issued priority
  have hDestroyed := hDestroy threadIdentifiers issued priority
  rcases hAdmit : { k with threadIdentifiers }.createAdmittedThread issued priority with
    ⟨k', e | ⟨⟩⟩
  · rw [hAdmit] at hCreated ⊢
    exact hCreated
  rw [hAdmit] at hCreated hDestroyed ⊢
  rcases env.translations.bind issued epoch root env.epochs with ⟨translations, e | ⟨⟩⟩
  · exact hDestroyed
  · exact hCreated

/-- What an admission leaves, and the core operations it comes down to: no thread, the
thread it created, or that thread destroyed again. -/
theorem threadAdmit_cases (hSame : k.SameTables) {k' : Kernel} {ops : List CoreOp} (env : Env)
    (creator : ThreadId) (space : CapabilityId) (stack : UInt64) (root : SealedTranslationRoot)
    (hOps : k.admitOps env creator space stack root = ops)
    (h : (k.threadAdmit creator space stack root env.epochs env.translations
      env.executables).1.1 = k') :
    ∃ threadIdentifiers, ops = [] ∧ k' = { k with threadIdentifiers } ∨
      ∃ t p threads, k.threads.createIn .admitted t p = (threads, .ok ()) ∧
      (ops = [.create .admitted t p] ∧
          k' = ({ k with threadIdentifiers }.createAdmittedThread t p).1 ∨
        ops = [.create .admitted t p, .destroy t] ∧
          k' = (({ k with threadIdentifiers }.createAdmittedThread t p).1.destroyThread t).1) := by
  subst hOps h
  unfold threadAdmit admitOps
  rcases k.admissionCheck creator space stack root env.epochs env.executables with
    e | ⟨epoch, entry⟩
  · exact ⟨k.threadIdentifiers, .inl ⟨rfl, rfl⟩⟩
  rcases k.threadIdentifiers.issue with ⟨threadIdentifiers, e | issued⟩
  · exact ⟨k.threadIdentifiers, .inl ⟨rfl, rfl⟩⟩
  dsimp only
  rcases k.threads.effectivePriorityOf creator with e | priority
  · exact ⟨threadIdentifiers, .inl ⟨rfl, rfl⟩⟩
  dsimp only
  unfold createAdmittedThread Rendezvous.createAdmittedThread
  rcases hCreate : k.threads.createIn .admitted issued priority with ⟨threads, e | ⟨⟩⟩
  · rw [finishCreation_error, createIn_error hCreate]
    exact ⟨threadIdentifiers, .inl ⟨rfl, rfl⟩⟩
  obtain ⟨scheduler, -, hFinish⟩ :=
    finishCreation_ok (k := { k with threadIdentifiers }) hSame hCreate
  refine ⟨threadIdentifiers, .inr ⟨issued, priority, threads, hCreate, ?_⟩⟩
  rw [hCreate, hFinish]
  rcases env.translations.bind issued epoch root env.epochs with ⟨translations, e | ⟨⟩⟩
  · exact .inr ⟨rfl, rfl⟩
  · exact .inl ⟨rfl, rfl⟩

theorem core_threadAdmit (hSame : k.SameTables) (env : Env)
    (creator : ThreadId) (space : CapabilityId) (stack : UInt64) (root : SealedTranslationRoot) :
    (k.threadAdmit creator space stack root env.epochs env.translations env.executables).1.1.core =
      (k.admitOps env creator space stack root).foldl CoreOp.apply k.core := by
  obtain ⟨ids, ⟨hOps, h⟩ | ⟨t, p, -, -, ⟨hOps, h⟩ | ⟨hOps, h⟩⟩⟩ :=
    threadAdmit_cases hSame env creator space stack root rfl rfl
  · rw [hOps, h]
    rfl
  all_goals
    have hCreated := core_finishCreation (k := { k with threadIdentifiers := ids }) hSame .admitted
      t p
  · rw [hOps, h]
    exact hCreated
  · rw [hOps, h, core_destroyThread]
    exact congrArg (CoreOp.apply · (.destroy t)) hCreated

/-- Every kernel call acts on the core as its core operations do. -/
theorem core_step (hSame : k.SameTables) (env : Env) (op : Op) :
    (k.step (env, op)).1.core = (k.coreOps env op).foldl CoreOp.apply k.core := by
  cases op with
  | createThread thread priority => exact core_finishCreation hSame .ready thread priority
  | createAdmittedThread thread priority =>
    exact core_finishCreation hSame .admitted thread priority
  | threadAdmit creator space stack root =>
    exact core_threadAdmit hSame env creator space stack root
  | destroyThread thread => exact core_destroyThread k thread
  | threadStart | send | receive | reply =>
    dsimp only [step, perform, pure, coreOps, foldl_cons, foldl_nil, CoreOp.apply, threadStart,
      Kernel.send, Kernel.receive, Kernel.reply]
    split
    · rename_i hCall
      simp [core, hCall]
    · rename_i hCall
      simp only [core_synchroniseThread, core_synchronisePair]
      simp [core, hCall]
  | yield | interruptAttach | interruptDetach | interruptComplete =>
    dsimp only [step, perform, pure, Kernel.yield, interruptAttach, interruptDetach,
      interruptComplete]
    split <;> rfl
  | createIpcEndpoint server =>
    change (k.createIpcEndpoint server).1.core = _
    unfold createIpcEndpoint
    simp only [coreOps]
    cases k.tracks server <;> rfl
  | retireIpcEndpoint server endpoint =>
    change (k.retireIpcEndpoint server endpoint).1.core = _
    unfold retireIpcEndpoint
    dsimp only
    rcases hRetire : k.ipc.retire server endpoint k.threads with ⟨⟨ipc, threads⟩, _ | _⟩
    · simp [core, coreOps, CoreOp.apply, Core.commit, hRetire]
    · rw [core_synchronise]
      simp [core, coreOps, CoreOp.apply, Core.commit, hRetire]
  | ipcSend | ipcSendBound | ipcReplyTransaction =>
    dsimp only [step, perform, pure, ipcSend, IpcEndpointTable.send, ipcSendBound, sendBound,
      ipcReplyTransaction, replyTransaction, coreOps]
    rw [core_commitIpc k _ fun k _ => core_synchronise k]
    split
    all_goals
      rename_i hFound
      try rw [hFound]
      rfl
  | ipcReceive | ipcReceiveBound =>
    dsimp only [step, perform, pure, ipcReceive, IpcEndpointTable.receive, ipcReceiveBound,
      receiveBound, coreOps]
    rw [core_commitIpc k _ fun k _ => core_synchronisePair k _ _]
    split
    all_goals
      rename_i hFound
      try rw [hFound]
      rfl
  | ipcReply server replySeal =>
    exact core_commitIpc k _ fun k _ => core_synchronisePair k server replySeal.caller
  | ipcReplyBound server replySeal response =>
    change (k.ipcReplyBound server replySeal response).1.core = _
    unfold ipcReplyBound replyBound
    simp only [coreOps]
    rw [core_commitIpc k _ fun k _ => core_synchronisePair k server.thread replySeal.caller]
    split
    · rfl
    split <;> rfl
  | ipcReplyTransactionBound server transaction response =>
    change (k.ipcReplyTransactionBound server transaction response).1.core = _
    unfold ipcReplyTransactionBound replyTransactionBound
    simp only [coreOps]
    rw [core_commitIpc k _ fun k _ => core_synchronise k]
    cases k.ipc.replySlotOf server.thread transaction with
    | none => rfl
    | some =>
      dsimp only
      unfold replyBound
      split
      · rfl
      split <;> rfl
  | ipcTakeReply caller =>
    change (k.ipcTakeReply caller).1.core = _
    unfold ipcTakeReply
    simp only [coreOps]
    cases k.tracks caller <;> rfl
  | ipcTakeReplyBound caller =>
    change (k.ipcTakeReplyBound caller).1.core = _
    unfold ipcTakeReplyBound takeReplyBound
    simp only [coreOps]
    cases k.tracks caller.thread with
    | false => rfl
    | true =>
      cases caller.valid with
      | false => rfl
      | true =>
        simp only [Bool.not_true, Bool.false_eq_true, if_false, Bool.or_self]
        cases k.ipc.completedSlot caller.thread with
        | none => rfl
        | some =>
          dsimp only
          split <;> rfl
  | ipcArmSendContinuation | ipcTakeSendContinuation | ipcCancelSendContinuation =>
    exact core_onContinuations k _ _
  | ipcArmReceiveContinuation => exact core_onContinuations k _ _
  | ipcTakeReceiveContinuation | ipcCancelReceiveContinuation => exact core_onContinuations k _ _
  | ipcExpireOneReceive now =>
    change (k.ipcExpireOneReceive now).1.core = _
    unfold ipcExpireOneReceive IpcContinuationTable.takeExpiredReceive
    simp only [coreOps]
    cases k.ipcContinuations.expiredReceive now with
    | none => rfl
    | some slot =>
      rcases hExpire : k.threads.expireReceive slot.continuation.server with ⟨threads, _ | _⟩
      all_goals simp [core, CoreOp.apply, hExpire]
  | ipcTakeExpiredReceiveContinuation | ipcTakeDeadlineExpiry => rfl
  | dispatchInterrupt source =>
    change (k.dispatchInterrupt source).1.core = k.core
    unfold dispatchInterrupt beginDelivery
    split
    · rfl
    split
    · rw [core_synchroniseThread]
      split
      · rfl
      split <;> rfl
    · rfl
  | takeDeliveredService | schedule => rfl
  | addressSpaceCreate creator authority =>
    change (k.addressSpaceCreate creator authority env.epochs).1.1.core = k.core
    unfold addressSpaceCreate
    split
    · rfl
    split
    · rfl
    split <;> rfl
  | addressSpaceBeginDestroy => rfl
  | addressSpaceCompleteDestroy owner space retiring =>
    change (k.addressSpaceCompleteDestroy owner space retiring env.epochs).1.1.core = k.core
    unfold addressSpaceCompleteDestroy
    iterate 3
      split
      · rfl
    split <;> rfl
  | memoryForCapability | mapAuthorize | unmapAuthorize | capability => rfl

end Kernel

/-- The outcomes of the core operations. A refusal changes nothing, except
that a refused reply may overwrite a free completed slot. -/
inductive CoreStep (c : Core) : CoreOp → Core → Prop
  | refused (op : CoreOp) : CoreStep c op c
  | create {state : ThreadState} {t : ThreadId} {p : Priority} {r : Rendezvous}
      (h : c.threads.createIn state t p = (r, .ok ())) :
      CoreStep c (.create state t p) { c with threads := r }
  | start {t : ThreadId} {r : Rendezvous} (h : c.threads.startThread t = (r, .ok ())) :
      CoreStep c (.start t) { c with threads := r }
  | destroy (t : ThreadId) : CoreStep c (.destroy t) (CoreOp.apply c (.destroy t))
  | send {a b : ThreadId} {r : Rendezvous} (h : c.threads.send a b = (r, .ok ())) :
      CoreStep c (.send a b) { c with threads := r }
  | receive (a : ThreadId) : CoreStep c (.receive a) { c with threads := (c.threads.receive a).1 }
  | reply {a b : ThreadId} {r : Rendezvous} (h : c.threads.reply a b = (r, .ok ())) :
      CoreStep c (.reply a b) { c with threads := r }
  | createEndpoint {server : ThreadId} {t : IpcEndpointTable} {e : IpcEndpoint}
      (h : c.ipc.create server = (t, .ok e)) :
      CoreStep c (.createEndpoint server) { c with ipc := t }
  | retireEndpoint {server : ThreadId} {e : IpcEndpoint} {t : IpcEndpointTable} {r : Rendezvous}
      (h : c.ipc.retire server e c.threads = ((t, r), .ok ())) :
      CoreStep c (.retireEndpoint server e) ⟨r, t⟩
  | sendTo {caller : ThreadId} {space : AddressSpaceIdentity} {e : IpcEndpoint}
      {request : IpcEnvelope} {t : IpcEndpointTable} {r : Rendezvous}
      (h : c.ipc.sendToEndpoint caller space e c.threads request = ((t, r), .ok ())) :
      CoreStep c (.sendTo caller space e request) ⟨r, t⟩
  | receiveFrom {server : ThreadId} {space : AddressSpaceIdentity} {e : IpcEndpoint}
      {t : IpcEndpointTable} {r : Rendezvous} {received : IpcReceived}
      (h : c.ipc.receiveFromEndpoint server space e c.threads = ((t, r), .ok received)) :
      CoreStep c (.receiveFrom server space e) ⟨r, t⟩
  | replyTo {server : ThreadId} {replySeal : IpcReplySeal} {response : IpcEnvelope}
      {t : IpcEndpointTable} {r : Rendezvous}
      (h : c.ipc.reply server replySeal c.threads response = ((t, r), .ok ())) :
      CoreStep c (.replyTo server replySeal response) ⟨r, t⟩
  | replyRefused {server : ThreadId} {replySeal : IpcReplySeal} {response : IpcEnvelope}
      {completed : List IpcEndpointTable.CompletedSlot}
      (hReplied : { c.ipc with completed }.replied = c.ipc.replied)
      (hLen : completed.length = c.ipc.completed.length) :
      CoreStep c (.replyTo server replySeal response) { c with ipc := { c.ipc with completed } }
  | takeReply {caller : ThreadId} {slot : IpcEndpointTable.CompletedSlot}
      (h : c.ipc.completedSlot caller = some slot) :
      CoreStep c (.takeReply caller) { c with ipc := c.ipc.discardCompletedFor caller }
  | expire {server : ThreadId} {r : Rendezvous}
      (h : c.threads.expireReceive server = (r, .ok ())) :
      CoreStep c (.expire server) { c with threads := r }
  | takeExpiry (t : ThreadId) :
      CoreStep c (.takeExpiry t) { c with threads := (c.threads.takeDeadlineExpiry t).1 }

/-- A refused rendezvous call leaves the core alone. -/
theorem coreStep_of_threads {c : Core} {op : CoreOp} {done : Rendezvous × Result Unit}
    (hApply : op.apply c = { c with threads := done.1 })
    (hErr : ∀ r e, done = (r, .error e) → r = c.threads)
    (hOk : ∀ r, done = (r, .ok ()) → CoreStep c op { c with threads := r }) :
    CoreStep c op (op.apply c) := by
  rw [hApply]
  obtain ⟨r, e | ⟨⟩⟩ := done
  · rw [hErr r e rfl]
    exact .refused op
  · exact hOk r rfl

/-- A refused endpoint call leaves the core alone. -/
theorem coreStep_of_commit {α : Type} {c : Core} {op : CoreOp}
    {done : (IpcEndpointTable × Rendezvous) × Result α} (hApply : op.apply c = Core.commit done)
    (hErr : ∀ t r e, done = ((t, r), .error e) → t = c.ipc ∧ r = c.threads)
    (hOk : ∀ t r value, done = ((t, r), .ok value) → CoreStep c op ⟨r, t⟩) :
    CoreStep c op (op.apply c) := by
  rw [hApply]
  obtain ⟨⟨t, r⟩, e | value⟩ := done
  · obtain ⟨rfl, rfl⟩ := hErr t r e rfl
    exact .refused op
  · exact hOk t r value rfl

theorem coreStep_apply (c : Core) (op : CoreOp) : CoreStep c op (op.apply c) := by
  cases op with
  | create => exact coreStep_of_threads rfl (fun _ _ h => createIn_error h) fun _ => .create
  | start => exact coreStep_of_threads rfl (fun _ _ h => startThread_error h) fun _ => .start
  | destroy t => exact .destroy t
  | send => exact coreStep_of_threads rfl (fun _ _ h => send_error h) fun _ => .send
  | receive a => exact .receive a
  | reply a b => exact coreStep_of_threads rfl (fun _ _ h => reply_error h) fun _ => .reply
  | createEndpoint server =>
    rcases hCreate : c.ipc.create server with ⟨t, e | endpoint⟩
    · have hSame := create_error hCreate
      subst hSame
      simpa [CoreOp.apply, hCreate] using CoreStep.refused (c := c) (.createEndpoint server)
    · simpa [CoreOp.apply, hCreate] using CoreStep.createEndpoint hCreate
  | retireEndpoint server e =>
    exact coreStep_of_commit rfl (fun _ _ _ h => retire_error h)
      fun _ _ _ => .retireEndpoint
  | sendTo caller space e request =>
    exact coreStep_of_commit rfl (fun _ _ _ h => sendToEndpoint_error h)
      fun _ _ _ => .sendTo
  | receiveFrom server space e =>
    exact coreStep_of_commit rfl (fun _ _ _ h => receiveFromEndpoint_error h)
      fun _ _ _ => .receiveFrom
  | replyTo server replySeal response =>
    rcases hReply : c.ipc.reply server replySeal c.threads response with ⟨⟨t, r⟩, e | ⟨⟩⟩
    · obtain ⟨rfl, ht, hReplied, hLen⟩ := reply_error hReply
      have hApply : CoreOp.apply c (.replyTo server replySeal response) =
          { c with ipc := { c.ipc with completed := t.completed } } := by
        rw [← ht]
        simp [CoreOp.apply, Core.commit, hReply]
      rw [hApply]
      refine .replyRefused ?_ hLen
      rwa [← ht]
    · have hApply : CoreOp.apply c (.replyTo server replySeal response) = ⟨r, t⟩ := by
        simp [CoreOp.apply, Core.commit, hReply]
      rw [hApply]
      exact .replyTo hReply
  | takeReply caller =>
    have hApply : CoreOp.apply c (.takeReply caller) =
        { c with ipc := (c.ipc.takeReply caller).1 } := rfl
    rw [hApply]
    unfold takeReply
    split
    · exact .refused _
    · rename_i hSlot
      exact .takeReply hSlot
  | expire =>
    exact coreStep_of_threads rfl (fun _ _ h => (endReceive_error h).1)
      fun _ => .expire
  | takeExpiry t => exact .takeExpiry t

/-- A call performs at most one core operation, apart from the admission that
is undone. -/
theorem Kernel.coreOps_shape (k : Kernel) (env : Env) (op : Op) :
    k.coreOps env op = [] ∨ (∃ op', k.coreOps env op = [op']) ∨
      ∃ t p, k.coreOps env op = [.create .admitted t p, .destroy t] := by
  cases op with
  | threadAdmit =>
    simp only [coreOps, admitOps]
    repeat' split
    all_goals simp
  | _ =>
    simp only [coreOps]
    repeat' split
    all_goals simp

/-- What the core operations of a call keep, the call keeps. Only its first
core operation can be anything but the destruction of a thread. -/
theorem Kernel.core_induction (hSame : k.SameTables)
    (env : Env) (op : Op) {P : Core → Prop} (hStart : P k.core)
    (hFirst : ∀ op' ∈ k.coreOps env op, ∀ c', CoreStep k.core op' c' → P c')
    (hDestroy : ∀ c t, P c → P (CoreOp.apply c (.destroy t))) :
    P (k.step (env, op)).1.core := by
  rw [core_step hSame]
  rcases k.coreOps_shape env op with hShape | ⟨op', hShape⟩ | ⟨t, p, hShape⟩
  · rw [hShape]
    exact hStart
  · rw [hShape]
    exact hFirst op' (by simp [hShape]) _ (coreStep_apply _ _)
  · rw [hShape]
    exact hDestroy _ t (hFirst _ (by simp [hShape]) _ (coreStep_apply _ _))

end Enml.OsKernel
