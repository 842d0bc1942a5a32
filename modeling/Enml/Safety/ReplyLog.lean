import Enml.Safety.Calls

/-! The conversation a run holds: who sent, received, replied, took a reply or
ended, read off the calls and their outcomes. Each kernel call is matched with
what it did to the endpoint table. -/
namespace Enml.OsKernel

open Enml.Core IpcEndpointTable Rendezvous Kernel List

variable {resolved : Result IpcEndpoint} {done : (IpcEndpointTable × Rendezvous) × Result Unit}
  {transaction : IpcTransactionId}

/-- What a call shows of its message. -/
inductive IpcEvent where
  | sent (caller : ThreadId) (request : IpcEnvelope)
  | received (server : ThreadId) (space : Option AddressSpaceIdentity) (received : IpcReceived)
  | replied (server : ThreadId) (space : Option AddressSpaceIdentity)
      (transaction : IpcTransactionId) (response : IpcEnvelope)
  | took (caller : ThreadId) (response : IpcEnvelope)
  | ended (thread : ThreadId)
  deriving DecidableEq

namespace Outcome

def succeeded : Outcome → IpcEvent → Option IpcEvent
  | .unit (.ok _), event => some event
  | .torndown (.ok _), event => some event
  | _, _ => none

/-- A receive that has to wait returns no transaction. -/
def handedOver (server : ThreadId) (space : Option AddressSpaceIdentity) : Outcome → Option IpcEvent
  | .received (.ok call) =>
    if call.reply.transaction = 0 then none else some (.received server space call)
  | _ => none

def taken (caller : ThreadId) : Outcome → Option IpcEvent
  | .envelope (.ok response) => some (.took caller response)
  | _ => none

end Outcome

/-- A receive or reply through the overload that takes an execution authority
records the address space it was issued under. -/
def ipcEvent (op : Op) (outcome : Outcome) : Option IpcEvent :=
  match op with
  | .ipcSend caller _ request => outcome.succeeded (.sent caller request)
  | .ipcSendBound caller _ request => outcome.succeeded (.sent caller.thread request)
  | .ipcReceive server _ => outcome.handedOver server none
  | .ipcReceiveBound server _ => outcome.handedOver server.thread (some server.addressSpace)
  | .ipcReply server replySeal response =>
    outcome.succeeded (.replied server none replySeal.transaction response)
  | .ipcReplyBound server replySeal response =>
    outcome.succeeded (.replied server.thread (some server.addressSpace) replySeal.transaction
      response)
  | .ipcReplyTransaction server transaction response =>
    outcome.succeeded (.replied server none transaction response)
  | .ipcReplyTransactionBound server transaction response =>
    outcome.succeeded (.replied server.thread (some server.addressSpace) transaction response)
  | .ipcTakeReply caller => outcome.taken caller
  | .ipcTakeReplyBound caller => outcome.taken caller.thread
  | .destroyThread thread => outcome.succeeded (.ended thread)
  | _ => none

/-- What the `n`th call of a run from the empty kernel contributes. -/
def eventAt (calls : List (Env × Op)) (n : Nat) : Option IpcEvent :=
  calls[n]?.bind fun call => ipcEvent call.2 (step (Run.after step {} (calls.take n)) call).2

/-- Nothing is added to the endpoint table and no transaction is issued. -/
structure Quiet (t t' : IpcEndpointTable) : Prop where
  calls : t'.calls.Sublist t.calls
  seals : t'.seals.Sublist t.seals
  replied : t'.replied.Sublist t.replied
  next : t'.nextTransaction = t.nextTransaction

namespace Quiet

theorem refl (t : IpcEndpointTable) : Quiet t t :=
  ⟨List.Sublist.refl _, List.Sublist.refl _, List.Sublist.refl _, rfl⟩

theorem trans {t₁ t₂ t₃ : IpcEndpointTable} (h : Quiet t₁ t₂) (h' : Quiet t₂ t₃) : Quiet t₁ t₃ :=
  ⟨h'.calls.trans h.calls, h'.seals.trans h.seals, h'.replied.trans h.replied, h'.next.trans h.next⟩

theorem retire {t t' : IpcEndpointTable} {server : ThreadId} {e : IpcEndpoint}
    {r r' : Rendezvous} (hRetire : t.retire server e r = ((t', r'), .ok ())) : Quiet t t' := by
  obtain ⟨hCalls, hSeals⟩ := CallsTracked.calls_retire hRetire
  obtain ⟨slot, r₁, -, -, -, -, ht, -⟩ := retire_ok hRetire
  refine ⟨hCalls ▸ filter_sublist, hSeals ▸ filter_sublist, ?_, by rw [ht]; rfl⟩
  rw [ht]
  exact List.Sublist.refl _

theorem discard (t : IpcEndpointTable) (thread : ThreadId) :
    Quiet t (t.discardCompletedFor thread) := by
  refine ⟨List.Sublist.refl _, List.Sublist.refl _, ?_, rfl⟩
  rw [replied_discardCompletedFor]
  exact eraseP_sublist

/-- What the release of a thread removes besides its endpoints. -/
theorem dropped (t : IpcEndpointTable) (thread : ThreadId) :
    Quiet t (((t.dropReplies (namesThread thread)).dropPending
      fun s => s.caller == thread).discardCompletedFor thread) := by
  refine trans ?_ (discard _ thread)
  refine ⟨?_, ?_, List.Sublist.refl _, rfl⟩
  · rw [calls_dropPending]
    exact filter_sublist
  have hSeals := seals_dropReplies t (namesThread thread)
  change (t.dropReplies (namesThread thread)).seals.Sublist t.seals
  rw [hSeals]
  exact filter_sublist

theorem releaseThread (t : IpcEndpointTable) (thread : ThreadId) (r : Rendezvous) :
    Quiet t (t.releaseThread thread r).1.1 := by
  apply releaseThread_induction _ (P := fun t' _ => Quiet t t') (refl t)
  · exact fun _ _ _ _ _ hQuiet hRetire => hQuiet.trans (retire hRetire)
  · exact fun t' _ hQuiet => hQuiet.trans (dropped t' thread)

end Quiet

open Quiet

/-- The core operations that take part in no conversation. -/
def CoreOp.Silent : CoreOp → Prop
  | .sendTo .. | .receiveFrom .. | .replyTo .. | .takeReply .. => False
  | _ => True

theorem quiet_coreStep {c c' : Core} {op : CoreOp} (hStep : CoreStep c op c') (hOp : op.Silent) :
    Quiet c.ipc c'.ipc := by
  cases hStep with
  | destroy t => exact releaseThread c.ipc t c.threads
  | createEndpoint hCreate =>
    obtain ⟨-, -, -, -, -, -, -, rfl⟩ := create_ok hCreate
    exact ⟨List.Sublist.refl _, List.Sublist.refl _, List.Sublist.refl _, rfl⟩
  | retireEndpoint hRetire => exact retire hRetire
  | sendTo | receiveFrom | replyTo | replyRefused | takeReply => exact hOp.elim
  | _ => exact refl _

inductive Effect (c : Core) : Option IpcEvent → Core → Prop
  | quiet {c' : Core} (h : Quiet c.ipc c'.ipc) : Effect c none c'
  | sent {caller : ThreadId} {space : AddressSpaceIdentity} {e : IpcEndpoint}
      {request : IpcEnvelope} {t : IpcEndpointTable} {r : Rendezvous}
      (h : c.ipc.sendToEndpoint caller space e c.threads request = ((t, r), .ok ())) :
      Effect c (some (.sent caller request)) ⟨r, t⟩
  | received {server : ThreadId} {space : Option AddressSpaceIdentity} {e : IpcEndpoint}
      {t : IpcEndpointTable} {r : Rendezvous} {received : IpcReceived}
      (h : c.ipc.receiveFromEndpoint server (space.getD {}) e c.threads = ((t, r), .ok received))
      (hTx : received.reply.transaction ≠ 0)
      (hSpace : ∀ g, space = some g → g.valid = true) :
      Effect c (some (.received server space received)) ⟨r, t⟩
  | replied {server : ThreadId} {space : Option AddressSpaceIdentity} {replySeal : IpcReplySeal}
      {response : IpcEnvelope} {t : IpcEndpointTable} {r : Rendezvous}
      (h : c.ipc.reply server replySeal c.threads response = ((t, r), .ok ()))
      (hSpace : ∀ g, space = some g → replySeal.serverAddressSpace.valid = true →
        g = replySeal.serverAddressSpace) :
      Effect c (some (.replied server space replySeal.transaction response)) ⟨r, t⟩
  | took {caller : ThreadId} {slot : CompletedSlot} (h : c.ipc.completedSlot caller = some slot) :
      Effect c (some (.took caller slot.response))
        { c with ipc := c.ipc.discardCompletedFor caller }
  | ended {t : ThreadId} (h : t ≠ invalidThread) :
      Effect c (some (.ended t)) (CoreOp.apply c (.destroy t))

variable {op : Op} {k : Kernel} {caller server : ThreadId} {t : IpcEndpointTable}

theorem effect_send {request : IpcEnvelope}
    (hEvent : ∀ outcome, ipcEvent op outcome = outcome.succeeded (.sent caller request))
    {space : AddressSpaceIdentity}
    (hDone : done = match resolved with
      | .error e => ((k.ipc, k.threads), .error e)
      | .ok endpoint => k.ipc.sendToEndpoint caller space endpoint k.threads request) :
    Effect k.core (ipcEvent op (.unit (k.commitIpc done fun k _ => k.synchronise).2))
      (k.commitIpc done fun k _ => k.synchronise).1.core := by
  rw [core_commitIpc k _ fun k _ => core_synchronise k, hEvent]
  obtain ⟨⟨t, r⟩, e | ⟨⟩⟩ := done
  · refine .quiet ?_
    cases resolved with
    | error =>
      cases hDone
      exact refl _
    | ok =>
      obtain ⟨rfl, -⟩ := sendToEndpoint_error hDone.symm
      exact refl _
  · cases resolved with
    | error => cases hDone
    | ok => exact .sent hDone.symm

theorem effect_receive (space : Option AddressSpaceIdentity)
    (hEvent : ∀ outcome, ipcEvent op outcome = outcome.handedOver server space)
    {done : (IpcEndpointTable × Rendezvous) × Result IpcReceived}
    (hDone : done = match resolved with
      | .error e => ((k.ipc, k.threads), .error e)
      | .ok endpoint => k.ipc.receiveFromEndpoint server (space.getD {}) endpoint k.threads)
    (hSpace : ∀ endpoint, resolved = .ok endpoint → ∀ g, space = some g → g.valid = true) :
    Effect k.core
      (ipcEvent op (.received
        (k.commitIpc done fun k received => k.synchronisePair server received.caller).2))
      (k.commitIpc done fun k received => k.synchronisePair server received.caller).1.core := by
  rw [core_commitIpc k _ fun k (received : IpcReceived) =>
    core_synchronisePair k server received.caller, hEvent]
  obtain ⟨⟨t, r⟩, e | received⟩ := done
  · refine .quiet ?_
    cases resolved with
    | error e' =>
      cases hDone
      exact refl _
    | ok endpoint =>
      obtain ⟨rfl, -⟩ := receiveFromEndpoint_error hDone.symm
      exact refl _
  · cases resolved with
    | error e' => cases hDone
    | ok endpoint =>
      have hOk := hDone.symm
      change Effect k.core (if received.reply.transaction = 0 then none else
        some (.received server space received)) ⟨r, t⟩
      split_ifs with hZero
      · obtain ⟨owner, s, -, -, -, -, -, hCase⟩ := receiveFromEndpoint_ok hOk
        rcases hCase with ⟨-, p, -, hSealed, -⟩ | ⟨-, p, -, hSealed, -⟩ | ⟨-, -, -, -, rfl⟩
        · rw [hSealed.received_eq] at hZero
          exact absurd hZero hSealed.fresh.1
        · rw [hSealed.received_eq] at hZero
          exact absurd hZero hSealed.fresh.1
        · exact .quiet ⟨List.Sublist.refl _, List.Sublist.refl _, List.Sublist.refl _, rfl⟩
      · exact .received hOk hZero (hSpace endpoint rfl)

/-- A capability is resolved only for an authority that names an address space. -/
theorem valid_of_endpointForBoundCapability {holder : ExecutionAuthority}
    {capability : CapabilityId} {required : Rights} {capabilities : CapabilityTable}
    {endpoint : IpcEndpoint}
    (h : t.endpointForBoundCapability holder capability required capabilities = .ok endpoint) :
    holder.addressSpace.valid = true := by
  unfold endpointForBoundCapability at h
  split at h
  · cases h
  rename_i hGuard
  simp only [ExecutionAuthority.valid, Bool.or_eq_true, not_or, Bool.not_eq_true',
    Bool.not_eq_false, Bool.and_eq_true] at hGuard
  exact hGuard.1.2

/-- All four replies come down to one on a seal, or to a refusal. -/
theorem effect_reply (space : Option AddressSpaceIdentity) {response : IpcEnvelope}
    (hEvent : ∀ outcome, ipcEvent op outcome =
      outcome.succeeded (.replied server space transaction response))
    {after : Kernel → Unit → Kernel}
    (hAfter : ∀ k value, (after k value).core = k.core)
    (hDone : (∃ e, done = ((k.ipc, k.threads), .error e)) ∨
      ∃ replySeal, done = k.ipc.reply server replySeal k.threads response ∧
        replySeal.transaction = transaction ∧
        ∀ g, space = some g → replySeal.serverAddressSpace.valid = true →
          g = replySeal.serverAddressSpace) :
    Effect k.core (ipcEvent op (.unit (k.commitIpc done after).2))
      (k.commitIpc done after).1.core := by
  rw [core_commitIpc k _ hAfter, hEvent]
  rcases hDone with ⟨e, rfl⟩ | ⟨replySeal, hReply, rfl, hSpace⟩
  · exact .quiet (refl _)
  obtain ⟨⟨t, r⟩, e | ⟨⟩⟩ := done
  · obtain ⟨-, ht, hReplied, -⟩ := reply_error hReply.symm
    refine .quiet ⟨?_, ?_, ?_, ?_⟩
    · rw [ht]
      exact List.Sublist.refl _
    · rw [ht]
      exact List.Sublist.refl _
    · change t.replied.Sublist _
      rw [hReplied]
      exact List.Sublist.refl _
    · rw [ht]
      rfl
  · exact .replied hReply.symm hSpace

theorem transaction_of_replySlotOf {slot : ReplySlot}
    (h : t.replySlotOf server transaction = some slot) :
    slot.replySeal.transaction = transaction := by
  unfold replySlotOf at h
  split_ifs at h
  have hIs := List.find?_some h
  simp only [Bool.and_eq_true, beq_iff_eq] at hIs
  exact hIs.2

theorem effect_take (hEvent : ∀ outcome, ipcEvent op outcome = outcome.taken caller)
    {done : IpcEndpointTable × Result IpcEnvelope}
    (hDone : (∃ e, done = (k.ipc, .error e)) ∨ done = k.ipc.takeReply caller) :
    Effect k.core (ipcEvent op (.envelope done.2)) { k.core with ipc := done.1 } := by
  rw [hEvent]
  rcases hDone with ⟨e, rfl⟩ | rfl
  · exact .quiet (refl _)
  unfold takeReply
  split
  · exact .quiet (refl _)
  · rename_i hSlot
    exact .took hSlot

/-- Calls other than those of a conversation. -/
def Op.Silent : Op → Prop
  | .ipcSend .. | .ipcSendBound .. | .ipcReceive .. | .ipcReceiveBound .. | .ipcReply ..
  | .ipcReplyBound .. | .ipcReplyTransaction .. | .ipcReplyTransactionBound .. | .ipcTakeReply ..
  | .ipcTakeReplyBound .. | .destroyThread .. => False
  | _ => True

theorem effect_silent (hSame : k.SameTables) (env : Env) {op : Op} (hOp : op.Silent) :
    Effect k.core (ipcEvent op (k.step (env, op)).2) (k.step (env, op)).1.core := by
  have hNone : ipcEvent op (k.step (env, op)).2 = none := by
    cases op with
    | ipcSend | ipcSendBound | ipcReceive | ipcReceiveBound | ipcReply | ipcReplyBound
    | ipcReplyTransaction | ipcReplyTransactionBound | ipcTakeReply | ipcTakeReplyBound
    | destroyThread => exact hOp.elim
    | _ => rfl
  have hSilent : ∀ op' ∈ k.coreOps env op, op'.Silent := by
    intro op' hMem
    cases performs_of_mem hMem with
    | ipcSend | ipcSendBound | ipcReceive | ipcReceiveBound | ipcReply | ipcReplyBound
    | ipcReplyTransaction | ipcReplyTransactionBound | ipcTakeReply | ipcTakeReplyBound
    | destroyThread => exact hOp.elim
    | _ => trivial
  rw [hNone]
  refine .quiet (core_induction hSame env op (P := fun c => Quiet k.core.ipc c.ipc)
    (refl _) ?_ ?_)
  · intro op' hMem c' hStep
    exact quiet_coreStep hStep (hSilent op' hMem)
  · intro c t hQuiet
    exact hQuiet.trans (releaseThread c.ipc t c.threads)

theorem effect_destroy (k : Kernel) (t : ThreadId) :
    Effect k.core (ipcEvent (.destroyThread t) (.torndown (k.destroyThread t).2))
      (k.destroyThread t).1.core := by
  rw [core_destroyThread]
  cases hDone : (k.destroyThread t).2 with
  | error e => exact .quiet (releaseThread k.ipc t k.threads)
  | ok teardown =>
    refine .ended ?_
    rintro rfl
    have hExit := exitThread_of_find_none (find_invalid k.threads)
    simp [destroyThread, releaseThread_invalid, hExit] at hDone

/-- Every call contributes what it did. -/
theorem effect_step (hSame : k.SameTables) (env : Env)
    (op : Op) : Effect k.core (ipcEvent op (k.step (env, op)).2) (k.step (env, op)).1.core := by
  cases op with
  | ipcSend caller capability request | ipcSendBound caller capability request =>
    exact effect_send (fun _ => rfl) rfl
  | ipcReceive server capability =>
    exact effect_receive none (fun _ => rfl) rfl fun _ _ _ h => by cases h
  | ipcReceiveBound server capability =>
    refine effect_receive (some server.addressSpace) (fun _ => rfl) rfl ?_
    intro endpoint hResolved g hg
    rw [← Option.some.inj hg]
    exact valid_of_endpointForBoundCapability hResolved
  | ipcReply server replySeal response =>
    exact effect_reply none (fun _ => rfl) (fun k _ => core_synchronisePair k _ _)
      (.inr ⟨replySeal, rfl, rfl, fun _ h => by cases h⟩)
  | ipcReplyBound server replySeal response =>
    refine effect_reply (some server.addressSpace) (fun _ => rfl)
      (fun k _ => core_synchronisePair k _ _) ?_
    rcases replyBound_cases k.ipc server replySeal k.threads response with h | ⟨h, hSpace⟩
    · exact .inl h
    refine .inr ⟨replySeal, h, rfl, ?_⟩
    intro g hg hBound
    rw [← Option.some.inj hg]
    exact hSpace hBound
  | ipcReplyTransaction server transaction response =>
    refine effect_reply none (fun _ => rfl) (fun k _ => core_synchronise k) ?_
    unfold replyTransaction
    split
    · exact .inl ⟨_, rfl⟩
    · rename_i slot hSlot
      exact .inr ⟨slot.replySeal, rfl, transaction_of_replySlotOf hSlot, fun _ h => by cases h⟩
  | ipcReplyTransactionBound server transaction response =>
    refine effect_reply (some server.addressSpace) (fun _ => rfl)
      (fun k _ => core_synchronise k) ?_
    unfold replyTransactionBound
    split
    · exact .inl ⟨_, rfl⟩
    rename_i slot hSlot
    rcases replyBound_cases k.ipc server slot.replySeal k.threads response with h | ⟨h, hSpace⟩
    · exact .inl h
    refine .inr ⟨slot.replySeal, h, transaction_of_replySlotOf hSlot, ?_⟩
    intro g hg hBound
    rw [← Option.some.inj hg]
    exact hSpace hBound
  | ipcTakeReply caller =>
    change Effect k.core (ipcEvent _ (.envelope (k.ipcTakeReply caller).2))
      (k.ipcTakeReply caller).1.core
    unfold ipcTakeReply
    split_ifs
    · exact .quiet (refl _)
    · exact effect_take (fun _ => rfl) (.inr rfl)
  | ipcTakeReplyBound caller =>
    change Effect k.core (ipcEvent _ (.envelope (k.ipcTakeReplyBound caller).2))
      (k.ipcTakeReplyBound caller).1.core
    unfold ipcTakeReplyBound
    split_ifs
    · exact .quiet (refl _)
    refine effect_take (fun _ => rfl) ?_
    unfold takeReplyBound
    split_ifs
    · exact .inl ⟨_, rfl⟩
    split
    · exact .inl ⟨_, rfl⟩
    split_ifs
    · exact .inl ⟨_, rfl⟩
    · exact .inr rfl
  | destroyThread t => exact effect_destroy k t
  | _ => exact effect_silent hSame env trivial

end Enml.OsKernel
