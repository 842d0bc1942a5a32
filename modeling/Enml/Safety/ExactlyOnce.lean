import Enml.Safety.ReplyLog
import Mathlib.Tactic.IntervalCases

/-! Every transaction is answered at most once, by the thread that received it,
and the reply a caller takes answers its latest call. -/
namespace Enml.OsKernel

open IpcEndpointTable Rendezvous List CallsTracked Kernel SlotTable CompletedSlot
  IpcEndpointTable List.Sublist

variable {server : ThreadId} {calls : List (Env × Op)}

/-- `thread` neither sends again nor ends between the `i`th and the `n`th call. -/
def Undisturbed (ev : Nat → Option IpcEvent) (i n : Nat) (thread : ThreadId) : Prop :=
  ∀ m, i < m → m < n → (∀ request, ev m ≠ some (.sent thread request)) ∧ ev m ≠ some (.ended thread)

/-- `thread` takes no reply between the `k`th and the `n`th call. -/
def Untaken (ev : Nat → Option IpcEvent) (k n : Nat) (thread : ThreadId) : Prop :=
  ∀ m, k < m → m < n → ∀ response, ev m ≠ some (.took thread response)

/-- `thread` does not end between the `j`th and the `n`th call. -/
def Survives (ev : Nat → Option IpcEvent) (j n : Nat) (thread : ThreadId) : Prop :=
  ∀ m, j < m → m < n → ev m ≠ some (.ended thread)

structure RepliesExactlyOnce (ev : Nat → Option IpcEvent) : Prop where
  fresh : ∀ i j, i < j → ∀ s a x s' a' y, ev i = some (.received s a x) →
    ev j = some (.received s' a' y) → x.reply.transaction ≠ y.reply.transaction
  once : ∀ i j, i < j → ∀ s a x r s' a' y r', ev i = some (.replied s a x r) →
    ev j = some (.replied s' a' y r') → x ≠ y
  byReceiver : ∀ j s a x r, ev j = some (.replied s a x r) →
    ∃ i < j, ∃ space call, ev i = some (.received s space call) ∧ call.reply.transaction = x ∧
      Survives ev i j s ∧ ∀ g g', a = some g → space = some g' → g = g'
  taken : ∀ l c r, ev l = some (.took c r) →
    ∃ i j k s a a' call, i < j ∧ j < k ∧ k < l ∧ ev i = some (.sent c call.request) ∧
      ev j = some (.received s a call) ∧ call.caller = c ∧
      ev k = some (.replied s a' call.reply.transaction r) ∧
      Undisturbed ev i l c ∧ Untaken ev k l c

section Log

variable {ev : Nat → Option IpcEvent} {n : Nat}
  {i j : Nat} {thread : ThreadId} {space : Option AddressSpaceIdentity} {e : IpcEndpoint}
  {p : PendingSlot} {replySeal : IpcReplySeal} {response : IpcEnvelope} {s : CompletedSlot}

theorem Undisturbed.succ (h : Undisturbed ev i n thread)
    (hSent : ∀ request, ev n ≠ some (.sent thread request)) (hEnded : ev n ≠ some (.ended thread)) :
    Undisturbed ev i (n + 1) thread := by
  intro m hi hm
  rcases Nat.lt_succ_iff_lt_or_eq.mp hm with hm | rfl
  · exact h m hi hm
  · exact ⟨hSent, hEnded⟩

theorem Untaken.succ {k : Nat} (h : Untaken ev k n thread)
    (hTook : ∀ response, ev n ≠ some (.took thread response)) : Untaken ev k (n + 1) thread := by
  intro m hk hm
  rcases Nat.lt_succ_iff_lt_or_eq.mp hm with hm | rfl
  · exact h m hk hm
  · exact hTook

theorem Survives.succ (h : Survives ev j n thread) (hEnded : ev n ≠ some (.ended thread)) :
    Survives ev j (n + 1) thread := by
  intro m hj hm
  rcases Nat.lt_succ_iff_lt_or_eq.mp hm with hm | rfl
  · exact h m hj hm
  · exact hEnded

theorem lt_succ_transaction {x next : IpcTransactionId} (hMax : next ≠ 0xFFFFFFFFFFFFFFFF)
    (h : x ≤ next) : x < next + 1 := by
  rw [UInt64.lt_iff_toNat_lt, UInt64.toNat_add]
  rw [UInt64.le_iff_toNat_le] at h
  have hne : next.toNat ≠ 18446744073709551615 := by
    intro hEq
    apply hMax
    exact UInt64.toNat_inj.mp hEq
  have hLt := next.toNat_lt
  have hOne : (1 : UInt64).toNat = 1 := rfl
  omega

/-- What the log says about the seals that are out. -/
structure SealsLogged (ev : Nat → Option IpcEvent) (n : Nat) (t : IpcEndpointTable) : Prop where
  distinct : (t.seals.map (·.replySeal.transaction)).Nodup
  issued : ∀ x ∈ t.seals, x.replySeal.transaction < t.nextTransaction
  received : ∀ j < n, ∀ s a call, ev j = some (.received s a call) →
    call.reply.transaction < t.nextTransaction
  spent : ∀ j < n, ∀ s a tr r, ev j = some (.replied s a tr r) →
    tr < t.nextTransaction ∧ ∀ x ∈ t.seals, x.replySeal.transaction ≠ tr
  origin : ∀ x ∈ t.seals, ∃ j < n, ∃ a call,
    ev j = some (.received x.replySeal.server a call) ∧ call.reply = x.replySeal ∧
      Survives ev j n x.replySeal.server ∧
      ∀ g, a = some g → g.valid = true ∧ g = x.replySeal.serverAddressSpace

namespace SealsLogged

variable {t t' : IpcEndpointTable}

/-- Nothing new is issued and the event is not one of those recorded here. -/
theorem of_fewer (h : SealsLogged ev n t) (hSeals : t'.seals.Sublist t.seals)
    (hNext : t'.nextTransaction = t.nextTransaction)
    (hRecvd : ∀ s a call, ev n ≠ some (.received s a call))
    (hReplied : ∀ s a tr r, ev n = some (.replied s a tr r) →
      tr < t.nextTransaction ∧ ∀ x ∈ t'.seals, x.replySeal.transaction ≠ tr)
    (hEnded : ∀ x ∈ t'.seals, ev n ≠ some (.ended x.replySeal.server)) :
    SealsLogged ev (n + 1) t' := by
  refine ⟨h.distinct.sublist (hSeals.map _), ?_, ?_, ?_, ?_⟩
  · intro x hx
    rw [hNext]
    exact h.issued x (hSeals.subset hx)
  · intro j hj s a call hEvent
    rw [hNext]
    rcases Nat.lt_succ_iff_lt_or_eq.mp hj with hj | rfl
    · exact h.received j hj s a call hEvent
    · exact absurd hEvent (hRecvd s a call)
  · intro j hj s a tr r hEvent
    rw [hNext]
    rcases Nat.lt_succ_iff_lt_or_eq.mp hj with hj | rfl
    · obtain ⟨hLt, hNot⟩ := h.spent j hj s a tr r hEvent
      exact ⟨hLt, fun x hx => hNot x (hSeals.subset hx)⟩
    · exact hReplied s a tr r hEvent
  · intro x hx
    obtain ⟨j, hj, a, call, hEvent, hReply, hSurvives, hSpace⟩ := h.origin x (hSeals.subset hx)
    exact ⟨j, Nat.lt_succ_of_lt hj, a, call, hEvent, hReply, hSurvives.succ (hEnded x hx), hSpace⟩

theorem receive (h : SealsLogged ev n t) {call : IpcReceived}
    (hSealed : t.Sealed t' server (space.getD {}) e p call)
    (hSpace : ∀ g, space = some g → g.valid = true)
    (hEvent : ev n = some (.received server space call)) : SealsLogged ev (n + 1) t' := by
  obtain ⟨-, hSeals⟩ := seals_of_sealed hSealed
  obtain ⟨replies, -, hTbl⟩ := hSealed.table_eq
  have hNext : t'.nextTransaction = t.nextTransaction + 1 := by rw [hTbl]
  have hGrow : ∀ x, x ≤ t.nextTransaction → x < t'.nextTransaction := by
    intro x hx
    rw [hNext]
    exact lt_succ_transaction hSealed.fresh.2 hx
  have hCall : call.reply = t.newSeal server (space.getD {}) e p := by rw [hSealed.received_eq]
  refine ⟨?_, ?_, ?_, ?_, ?_⟩
  · refine SlotTable.nodup_map_of_perm hSeals h.distinct fun x hx hEq => ?_
    have hLt := h.issued x hx
    rw [hEq] at hLt
    exact absurd hLt (UInt64.lt_irrefl _)
  · intro x hx
    rcases mem_cons.mp (hSeals.mem_iff.mp hx) with rfl | hx
    · exact hGrow _ (UInt64.le_refl _)
    · exact hGrow _ (UInt64.le_of_lt (h.issued x hx))
  · intro j hj s a call' hEvent'
    rcases Nat.lt_succ_iff_lt_or_eq.mp hj with hj | rfl
    · exact hGrow _ (UInt64.le_of_lt (h.received j hj s a call' hEvent'))
    rw [hEvent] at hEvent'
    cases hEvent'
    rw [hCall]
    exact hGrow _ (UInt64.le_refl _)
  · intro j hj s a tr r hEvent'
    rcases Nat.lt_succ_iff_lt_or_eq.mp hj with hj | rfl
    · obtain ⟨hLt, hNot⟩ := h.spent j hj s a tr r hEvent'
      refine ⟨hGrow _ (UInt64.le_of_lt hLt), ?_⟩
      intro x hx
      rcases mem_cons.mp (hSeals.mem_iff.mp hx) with rfl | hx
      · exact (UInt64.ne_of_lt hLt).symm
      · exact hNot x hx
    · rw [hEvent] at hEvent'
      cases hEvent'
  · intro x hx
    rcases mem_cons.mp (hSeals.mem_iff.mp hx) with rfl | hx
    · refine ⟨n, Nat.lt_succ_self n, space, call, hEvent, hCall, ?_, ?_⟩
      · intro m hm hm'
        omega
      · rintro g rfl
        exact ⟨hSpace g rfl, rfl⟩
    · obtain ⟨j, hj, a, call', hEvent', hReply, hSurvives, hSpace'⟩ := h.origin x hx
      refine ⟨j, Nat.lt_succ_of_lt hj, a, call', hEvent', hReply, hSurvives.succ ?_, hSpace'⟩
      rw [hEvent]
      simp

end SealsLogged

variable {t t' : IpcEndpointTable} {r r' : Rendezvous} {caller : ThreadId} {call : IpcReceived}
  {c : Core}

/-- A receive that returns a transaction has taken a call. -/
theorem sealed_of_receive {space : AddressSpaceIdentity}
    (h : t.receiveFromEndpoint server space e r = ((t', r'), .ok call))
    (hTx : call.reply.transaction ≠ 0) :
    ∃ p ∈ t.calls, t.Sealed t' server space e p call := by
  obtain ⟨owner, s, -, -, -, -, -, hCase⟩ := receiveFromEndpoint_ok h
  rcases hCase with ⟨-, p, hp, hSealed, -⟩ | ⟨-, p, hp, hSealed, -⟩ | ⟨-, -, rfl, -⟩
  · exact ⟨p, (mem_of_pendingSlot hp).1, hSealed⟩
  · exact ⟨p, (mem_of_pendingSlotAt hp).1, hSealed⟩
  · exact absurd rfl hTx

/-- The seal a successful reply uses up. -/
theorem seal_of_reply (h : t.reply server replySeal r response = ((t', r'), .ok ())) :
    replySeal.server = server ∧ ∃ x ∈ t.seals, x.replySeal = replySeal ∧
      t.replies.find? (fun s => s.active && s.replySeal == replySeal) = some x := by
  obtain ⟨-, -, -, -, hSrv, hValid, ⟨x, hx⟩, -⟩ := reply_ok h
  rw [replySlot, hValid] at hx
  have hIs := find?_some hx
  simp only [Bool.and_eq_true, beq_iff_eq] at hIs
  exact ⟨hSrv, x, mem_seals.mpr ⟨mem_of_find?_eq_some hx, hIs.1⟩, hIs.2, hx⟩

theorem SealsLogged.reply (h : SealsLogged ev n t) {r r' : Rendezvous}
    (hReply : t.reply server replySeal r response = ((t', r'), .ok ()))
    (hEvent : ev n = some (.replied server space replySeal.transaction response)) :
    SealsLogged ev (n + 1) t' := by
  obtain ⟨-, hSeals⟩ := calls_reply hReply
  obtain ⟨-, x, hx, hSeal, hFind⟩ := seal_of_reply hReply
  obtain ⟨-, completed, -, -, -, -, -, -, -, -, -, hTbl⟩ := reply_ok hReply
  have hNext : t'.nextTransaction = t.nextTransaction := by rw [hTbl]
  refine h.of_fewer (hSeals ▸ eraseP_sublist) hNext (by simp [hEvent]) ?_ (by simp [hEvent])
  intro s a tr resp hEvent'
  rw [hEvent] at hEvent'
  cases hEvent'
  refine ⟨hSeal ▸ h.issued x hx, ?_⟩
  intro y hy
  rw [hSeals, mem_eraseP_iff_of_nodup h.distinct hx (find?_some hFind)] at hy
  · rw [← hSeal]
    exact hy.2
  · intro z hz
    simp only [Bool.and_eq_true, beq_iff_eq] at hz
    rw [hz.2, hSeal]

/-- Neither call nor seal of a thread outlives it. -/
theorem names_of_destroy (hThr : thread ≠ invalidThread) :
    (∀ p ∈ (CoreOp.apply c (.destroy thread)).ipc.calls, p.caller ≠ thread) ∧
      ∀ x ∈ (CoreOp.apply c (.destroy thread)).ipc.seals,
        x.replySeal.caller ≠ thread ∧ x.replySeal.server ≠ thread := by
  have hIpc : (CoreOp.apply c (.destroy thread)).ipc = (c.ipc.releaseThread thread c.threads).1.1 :=
    rfl
  rw [hIpc, releaseThread_eq c.ipc c.threads hThr]
  constructor
  · intro p hp
    change p ∈ (((c.ipc.retireAllOwnedBy thread c.threads).1.1.dropReplies
      (namesThread thread)).dropPending fun s => s.caller == thread).calls at hp
    rw [calls_dropPending, mem_filter] at hp
    simpa using hp.2
  · intro x hx
    change x ∈ ((c.ipc.retireAllOwnedBy thread c.threads).1.1.dropReplies
      (namesThread thread)).seals at hx
    rw [seals_dropReplies, mem_filter] at hx
    simpa [namesThread] using hx.2

theorem SealsLogged.step {c' : Core} (h : SealsLogged ev n c.ipc) (hEffect : Effect c (ev n) c') :
    SealsLogged ev (n + 1) c'.ipc := by
  generalize hEvent : ev n = event at hEffect
  cases hEffect with
  | quiet hQuiet =>
    exact h.of_fewer hQuiet.seals hQuiet.next (by simp [hEvent]) (by simp [hEvent])
      (by simp [hEvent])
  | sent hSend =>
    obtain ⟨owner, pending, -, -, -, -, rfl⟩ := sendToEndpoint_ok hSend
    exact h.of_fewer (refl _) rfl (by simp [hEvent]) (by simp [hEvent])
      (by simp [hEvent])
  | received hRecv hTx hSpace =>
    obtain ⟨p, -, hSealed⟩ := sealed_of_receive hRecv hTx
    exact h.receive hSealed hSpace hEvent
  | replied hReply hSpace => exact h.reply hReply hEvent
  | took hSlot =>
    exact h.of_fewer (refl _) rfl (by simp [hEvent]) (by simp [hEvent])
      (by simp [hEvent])
  | ended hThr =>
    rename_i thread
    have hQuiet := Quiet.releaseThread c.ipc thread c.threads
    refine h.of_fewer hQuiet.seals hQuiet.next (by simp [hEvent]) (by simp [hEvent]) ?_
    intro x hx hEnded
    rw [hEvent] at hEnded
    cases hEnded
    exact ((names_of_destroy hThr).2 x hx).2 rfl

/-- The `i`th call is the latest send of the caller and the `j`th received it. -/
def Conversation (ev : Nat → Option IpcEvent) (i j n : Nat) (caller server : ThreadId)
    (space : Option AddressSpaceIdentity) (call : IpcReceived) : Prop :=
  i < j ∧ ev i = some (.sent caller call.request) ∧ ev j = some (.received server space call) ∧
    call.caller = caller ∧ Undisturbed ev i n caller

/-- What the log says about a caller's call, its seal and its reply. -/
structure CallsLogged (ev : Nat → Option IpcEvent) (n : Nat) (t : IpcEndpointTable) : Prop where
  calls : ∀ p ∈ t.calls, ∃ i < n, ev i = some (.sent p.caller p.request) ∧
    Undisturbed ev i n p.caller
  seals : ∀ x ∈ t.seals, ∃ i j a call, j < n ∧ call.reply = x.replySeal ∧
    Conversation ev i j n x.replySeal.caller x.replySeal.server a call
  replies : ∀ s ∈ t.replied, ∃ i j k server a a' call, j < k ∧ k < n ∧
    Conversation ev i j n s.caller server a call ∧
    ev k = some (.replied server a' call.reply.transaction s.response) ∧ Untaken ev k n s.caller
  callers : (t.replied.map (·.caller)).Nodup

theorem Conversation.succ (h : Conversation ev i j n caller server space call)
    (hSent : ∀ request, ev n ≠ some (.sent caller request)) (hEnded : ev n ≠ some (.ended caller)) :
    Conversation ev i j (n + 1) caller server space call :=
  ⟨h.1, h.2.1, h.2.2.1, h.2.2.2.1, h.2.2.2.2.succ hSent hEnded⟩

theorem mem_discardCompletedFor (hCallers : (t.replied.map (·.caller)).Nodup)
    (hs : s ∈ (t.discardCompletedFor thread).replied) :
    s ∈ t.replied ∧ s.caller ≠ thread := by
  rw [replied_discardCompletedFor] at hs
  have hKey : ∀ s ∈ t.replied, s.key = some thread ↔ s.caller = thread := by
    intro s hs
    simp [key, (mem_replied.mp hs).2]
  by_cases hAny : ∃ x ∈ t.replied, x.caller = thread
  · obtain ⟨x, hx, rfl⟩ := hAny
    rw [mem_eraseP_iff_of_nodup hCallers hx (by simp [hKey x hx])] at hs
    · exact hs
    intro z hz
    have hz : z.key = some x.caller := by simpa using hz
    unfold key at hz
    split_ifs at hz
    exact Option.some.inj hz
  · have hMem := mem_of_mem_eraseP hs
    exact ⟨hMem, fun hEq => hAny ⟨s, hMem, hEq⟩⟩

theorem caller_ne_of_completedSlot (h : t.completedSlot caller = none) (hs : s ∈ t.replied) :
    s.caller ≠ caller := by
  intro hEq
  rw [completedSlot, SlotTable.lookup_eq_none_iff] at h
  apply h
  obtain ⟨hMem, hActive⟩ := mem_replied.mp hs
  exact mem_keys_iff.mpr ⟨s, hMem, by simp [key, hActive, hEq]⟩

namespace CallsLogged

/-- Entries may go, and none that stays is touched by the event. -/
theorem of_fewer (h : CallsLogged ev n t) (hCalls : t'.calls ⊆ t.calls)
    (hSeals : t'.seals ⊆ t.seals)
    (hReplies : t'.replied.Sublist t.replied)
    (hCaller : ∀ c, (∃ p ∈ t'.calls, p.caller = c) ∨ (∃ x ∈ t'.seals, x.replySeal.caller = c) ∨
      (∃ s ∈ t'.replied, s.caller = c) →
      (∀ request, ev n ≠ some (.sent c request)) ∧ ev n ≠ some (.ended c))
    (hTook : ∀ s ∈ t'.replied, ∀ response, ev n ≠ some (.took s.caller response)) :
    CallsLogged ev (n + 1) t' := by
  refine ⟨?_, ?_, ?_, h.callers.sublist (hReplies.map _)⟩
  · intro p hp
    obtain ⟨i, hi, hEvent, hQuiet⟩ := h.calls p (hCalls hp)
    obtain ⟨hSent, hEnded⟩ := hCaller p.caller (.inl ⟨p, hp, rfl⟩)
    exact ⟨i, Nat.lt_succ_of_lt hi, hEvent, hQuiet.succ hSent hEnded⟩
  · intro x hx
    obtain ⟨i, j, a, call, hj, hReply, hTalk⟩ := h.seals x (hSeals hx)
    obtain ⟨hSent, hEnded⟩ := hCaller x.replySeal.caller (.inr (.inl ⟨x, hx, rfl⟩))
    exact ⟨i, j, a, call, Nat.lt_succ_of_lt hj, hReply, hTalk.succ hSent hEnded⟩
  intro s hs
  obtain ⟨i, j, k, server, a, a', call, hjk, hk, hTalk, hEvent, hUntaken⟩ :=
    h.replies s (hReplies.subset hs)
  obtain ⟨hSent, hEnded⟩ := hCaller s.caller (.inr (.inr ⟨s, hs, rfl⟩))
  exact ⟨i, j, k, server, a, a', call, hjk, Nat.lt_succ_of_lt hk, hTalk.succ hSent hEnded, hEvent,
    hUntaken.succ (hTook s hs)⟩

/-- Two entries of one caller never meet a third. -/
theorem send (h : CallsLogged ev n t) (hCalls : t'.calls.Perm (p :: t.calls))
    (hSeals : t'.seals = t.seals) (hReplies : t'.replied = t.replied)
    (hEvent : ev n = some (.sent p.caller p.request))
    (hNotCall : ∀ q ∈ t.calls, q.caller ≠ p.caller)
    (hNotSeal : ∀ x ∈ t.seals, x.replySeal.caller ≠ p.caller)
    (hNotReply : ∀ s ∈ t.replied, s.caller ≠ p.caller) : CallsLogged ev (n + 1) t' := by
  have hOthers : ∀ c, c ≠ p.caller →
      (∀ request, ev n ≠ some (.sent c request)) ∧ ev n ≠ some (.ended c) := by
    intro c hc
    rw [hEvent]
    refine ⟨?_, by simp⟩
    intro request hEq
    cases hEq
    exact hc rfl
  have hOld : CallsLogged ev (n + 1) t := by
    refine h.of_fewer (fun _ => id) (fun _ => id) (refl _) ?_ (by simp [hEvent])
    rintro c (⟨q, hq, rfl⟩ | ⟨x, hx, rfl⟩ | ⟨s, hs, rfl⟩)
    · exact hOthers _ (hNotCall q hq)
    · exact hOthers _ (hNotSeal x hx)
    · exact hOthers _ (hNotReply s hs)
  refine ⟨?_, hSeals ▸ hOld.seals, hReplies ▸ hOld.replies, hReplies ▸ h.callers⟩
  intro q hq
  rcases mem_cons.mp (hCalls.mem_iff.mp hq) with rfl | hq
  · refine ⟨n, Nat.lt_succ_self n, hEvent, ?_⟩
    intro m hm hm'
    omega
  · exact hOld.calls q hq

theorem receive (h : CallsLogged ev n t) (hp : p ∈ t.calls) {call : IpcReceived}
    (hSealed : t.Sealed t' server (space.getD {}) e p call)
    (hEvent : ev n = some (.received server space call)) : CallsLogged ev (n + 1) t' := by
  obtain ⟨hCalls, hSeals⟩ := seals_of_sealed hSealed
  have hReplies : t'.replied = t.replied := by
    obtain ⟨replies, -, rfl⟩ := hSealed.table_eq
    rfl
  have hSent : ∀ c request, ev n ≠ some (.sent c request) := by simp [hEvent]
  have hEnded : ∀ c, ev n ≠ some (.ended c) := by simp [hEvent]
  have hOld : CallsLogged ev (n + 1) t := h.of_fewer (fun _ => id) (fun _ => id)
    (refl _) (fun c _ => ⟨hSent c, hEnded c⟩) (by simp [hEvent])
  refine ⟨hCalls ▸ hOld.calls, ?_, hReplies ▸ hOld.replies, hReplies ▸ h.callers⟩
  intro x hx
  rcases mem_cons.mp (hSeals.mem_iff.mp hx) with rfl | hx
  · obtain ⟨i, hi, hMade, hQuiet⟩ := h.calls p hp
    refine ⟨i, n, space, call, Nat.lt_succ_self n, by rw [hSealed.received_eq], hi, ?_, hEvent,
      by rw [hSealed.received_eq]; rfl, hQuiet.succ (hSent _) (hEnded _)⟩
    rw [hSealed.received_eq]
    exact hMade
  · exact hOld.seals x hx

theorem reply (h : CallsLogged ev n t) {r r' : Rendezvous}
    (hReply : t.reply server replySeal r response = ((t', r'), .ok ()))
    (hEvent : ev n = some (.replied server space replySeal.transaction response)) :
    CallsLogged ev (n + 1) t' := by
  obtain ⟨hCalls, hSeals⟩ := calls_reply hReply
  obtain ⟨hSrv, x, hx, hSeal, -⟩ := seal_of_reply hReply
  obtain ⟨-, completed, -, -, -, -, -, -, hNone, hIns, -, hTbl⟩ := reply_ok hReply
  have hReplies : t'.replied.Perm
      ({ caller := replySeal.caller, callerAddressSpace := replySeal.callerAddressSpace, response,
         active := true } :: t.replied) := by
    rw [hTbl]
    exact entries_insert (by rfl) hIns
  have hSent : ∀ c request, ev n ≠ some (.sent c request) := by simp [hEvent]
  have hEnded : ∀ c, ev n ≠ some (.ended c) := by simp [hEvent]
  have hOld : CallsLogged ev (n + 1) t := h.of_fewer (fun _ => id) (fun _ => id)
    (refl _) (fun c _ => ⟨hSent c, hEnded c⟩) (by simp [hEvent])
  refine ⟨?_, ?_, ?_, ?_⟩
  · intro q hq
    exact hOld.calls q (mem_of_mem_eraseP (hCalls ▸ hq))
  · intro y hy
    exact hOld.seals y (mem_of_mem_eraseP (hSeals ▸ hy))
  · intro s hs
    rcases mem_cons.mp (hReplies.mem_iff.mp hs) with rfl | hs
    · -- The new reply continues the conversation its seal belongs to.
      obtain ⟨i, j, a, call, hj, hMade, hTalk⟩ := h.seals x hx
      rw [hSeal] at hMade hTalk
      rw [hSrv] at hTalk
      refine ⟨i, j, n, server, a, space, call, hj, Nat.lt_succ_self n,
        hTalk.succ (hSent _) (hEnded _), ?_, ?_⟩
      · rw [hMade]
        exact hEvent
      · intro m hm hm'
        omega
    · exact hOld.replies s hs
  · exact SlotTable.nodup_map_of_perm hReplies h.callers fun s hs =>
      caller_ne_of_completedSlot hNone hs

theorem step {c c' : Core} (h : CallsLogged ev n c.ipc) (hTracked : CallsTracked c)
    (hEffect : Effect c (ev n) c') : CallsLogged ev (n + 1) c'.ipc := by
  generalize hEvent : ev n = event at hEffect
  cases hEffect with
  | quiet hQuiet =>
    exact h.of_fewer hQuiet.calls.subset hQuiet.seals.subset hQuiet.replied (by simp [hEvent])
      (by simp [hEvent])
  | sent hSend =>
    obtain ⟨-, -, -, hNone, -⟩ := sendToEndpoint_ok hSend
    obtain ⟨p, rfl, -, rfl, -, hCalls, hSeals, hDone, owner, -, -, hSent⟩ :=
      calls_sendToEndpoint hSend
    obtain ⟨q, hReady⟩ : ∃ q, c.threads.phase p.caller = some (.ready, q) := by
      rcases hSent with ⟨-, hDeliver⟩ | ⟨-, hBlock⟩
      · obtain ⟨q, hReady, -⟩ := phase_deliverWaitingReceiver hDeliver
        exact ⟨q, hReady⟩
      · obtain ⟨q, hReady, -⟩ := phase_blockSend hBlock
        exact ⟨q, hReady⟩
    refine h.send hCalls hSeals (by rw [replied, hDone]; rfl) hEvent ?_ ?_ ?_
    · intro p' hp' hEq
      have hBlocked := hTracked.blocked p' hp'
      rw [hEq, hReady] at hBlocked
      simp at hBlocked
    · intro x hx hEq
      have hAnswered := hTracked.answered x hx
      rw [hEq, hReady] at hAnswered
      simp at hAnswered
    · intro s hs
      exact caller_ne_of_completedSlot hNone hs
  | received hRecv hTx hSpace =>
    obtain ⟨p, hp, hSealed⟩ := sealed_of_receive hRecv hTx
    exact h.receive hp hSealed hEvent
  | replied hReply hSpace => exact h.reply hReply hEvent
  | took hSlot =>
    refine h.of_fewer (fun _ => id) (fun _ => id) (Quiet.discard _ _).replied (by simp [hEvent]) ?_
    intro s hs response hTook
    rw [hEvent] at hTook
    cases hTook
    exact (mem_discardCompletedFor h.callers hs).2 rfl
  | ended hThr =>
    rename_i thread
    have hQuiet := Quiet.releaseThread c.ipc thread c.threads
    obtain ⟨hCalls, hSeals⟩ := names_of_destroy (c := c) hThr
    have hReplies : ∀ s ∈ (CoreOp.apply c (.destroy thread)).ipc.replied, s.caller ≠ thread := by
      intro s hs
      have hIpc : (CoreOp.apply c (.destroy thread)).ipc =
          (c.ipc.releaseThread thread c.threads).1.1 := rfl
      rw [hIpc, releaseThread_eq c.ipc c.threads hThr] at hs
      refine (mem_discardCompletedFor ?_ hs).2
      have hAll : Quiet c.ipc (c.ipc.retireAllOwnedBy thread c.threads).1.1 :=
        retireAllOwnedBy_induction _ (P := fun t' _ => Quiet c.ipc t') (Quiet.refl _)
          fun _ _ _ _ _ hQuiet hRetire => hQuiet.trans (Quiet.retire hRetire)
      exact h.callers.sublist (hAll.replied.map _)
    refine h.of_fewer hQuiet.calls.subset hQuiet.seals.subset hQuiet.replied ?_ (by simp [hEvent])
    intro c' hc'
    rw [hEvent]
    refine ⟨by simp, ?_⟩
    intro hEq
    cases hEq
    rcases hc' with ⟨p, hp, hEq⟩ | ⟨x, hx, hEq⟩ | ⟨s, hs, hEq⟩
    · exact hCalls p hp hEq
    · exact (hSeals x hx).1 hEq
    · exact hReplies s hs hEq

end CallsLogged

end Log

/-- What is known before the `n`th call of a run that keeps to the condition. -/
structure Kernel.Logged (ev : Nat → Option IpcEvent) (n : Nat) (k : Kernel) : Prop where
  structured : k.Structured
  sound : k.core.Sound
  tracked : CallsTracked k.core
  sealsLogged : SealsLogged ev n k.ipc
  callsLogged : CallsLogged ev n k.ipc

theorem Kernel.Logged.step {ev : Nat → Option IpcEvent} {n : Nat} {k : Kernel} {env : Env} {op : Op}
    (h : k.Logged ev n) (hEvent : ev n = ipcEvent op (k.step (env, op)).2)
    (hOp : op.EndpointIpc) (hReceives : ¬CollectsQueued k op) :
    (k.step (env, op)).1.Logged ev (n + 1) := by
  have hEffect := effect_step h.structured.same env op
  rw [← hEvent] at hEffect
  obtain ⟨hSound, hTracked⟩ := core_induction h.structured.same env op
    (P := fun c => c.Sound ∧ CallsTracked c) ⟨h.sound, h.tracked⟩ (by
      intro op' hMem c' hStep
      have hRegular := regular_coreOps hOp hMem
      refine ⟨h.sound.coreStep hStep hRegular, h.tracked.coreStep h.sound hStep hRegular ?_⟩
      rintro server space e rfl hHolds
      exact hReceives ⟨server, receiver_of_receiveFrom hMem, hHolds⟩) (by
      rintro c t ⟨hSound, hTracked⟩
      exact ⟨hSound.coreStep (.destroy t) trivial,
        hTracked.destroy hSound.linked hSound.distinct hSound.waiting t⟩)
  exact ⟨h.structured.step (env, op), hSound, hTracked, h.sealsLogged.step hEffect,
    h.callsLogged.step h.tracked hEffect⟩

theorem Kernel.logged_empty (ev : Nat → Option IpcEvent) : Kernel.Logged ev 0 {} := by
  have hCalls : ({} : Kernel).ipc.calls = [] := by decide
  have hSeals : ({} : Kernel).ipc.seals = [] := by decide
  have hReplied : ({} : Kernel).ipc.replied = [] := by decide
  refine ⟨structured_empty, ⟨structured_empty.same.distinct, structured_empty.linked,
    waitingReceivers_empty⟩, callsTracked_empty, ⟨?_, ?_, ?_, ?_, ?_⟩, ⟨?_, ?_, ?_, ?_⟩⟩
  all_goals simp [hCalls, hSeals, hReplied]

theorem Kernel.logged_run (hOps : ∀ call ∈ calls, call.2.EndpointIpc)
    (hSteps : Run.EachStep step (fun k call => ¬CollectsQueued k call.2) {} calls) {n : Nat}
    (hn : n ≤ calls.length) :
    (Run.after step {} (calls.take n)).Logged (eventAt calls) n := by
  induction n with
  | zero => exact logged_empty _
  | succ n ih =>
    have hCall : calls[n]? = some calls[n] := getElem?_eq_getElem hn
    rw [Run.after_take_succ hCall]
    refine (ih (Nat.le_of_succ_le hn)).step ?_ (hOps _ (getElem_mem hn))
      (hSteps n _ hCall)
    rw [eventAt, hCall]
    rfl

theorem eventAt_eq_none {n : Nat} (h : calls.length ≤ n) : eventAt calls n = none := by
  rw [eventAt, getElem?_eq_none h]
  rfl

/-- In every run of endpoint calls in which no server collects a caller that is
still queueing, transactions are fresh, answered at most once and by their
receiver, and a caller takes the one answer to its latest call. -/
theorem replies_exactly_once (calls : List (Env × Op)) (hOps : ∀ call ∈ calls, call.2.EndpointIpc)
    (hSteps : Run.EachStep Kernel.step (fun k call => ¬CollectsQueued k call.2) {} calls) :
    RepliesExactlyOnce (eventAt calls) := by
  have hLogged : ∀ {n event}, eventAt calls n = some event →
      (Run.after Kernel.step {} (calls.take n)).Logged (eventAt calls) n ∧
        ∃ c', Effect (Run.after Kernel.step {} (calls.take n)).core (eventAt calls n) c' := by
    intro n event hEvent
    have hn : n < calls.length := by
      by_contra hNot
      rw [eventAt_eq_none (Nat.le_of_not_lt hNot)] at hEvent
      cases hEvent
    have hBefore := logged_run hOps hSteps (Nat.le_of_lt hn)
    have hCall : calls[n]? = some calls[n] := getElem?_eq_getElem hn
    refine ⟨hBefore, ?_⟩
    rw [eventAt, hCall]
    exact ⟨_, effect_step hBefore.structured.same calls[n].1 calls[n].2⟩
  refine ⟨?_, ?_, ?_, ?_⟩
  · intro i j hij s a x s' a' y hi hj
    obtain ⟨hBefore, c', hEffect⟩ := hLogged hj
    rw [hj] at hEffect
    cases hEffect with
    | received hRecv hTx hSpace =>
      obtain ⟨p, -, hSealed⟩ := sealed_of_receive hRecv hTx
      have hLt := hBefore.sealsLogged.received i hij s a x hi
      rw [hSealed.received_eq]
      exact UInt64.ne_of_lt hLt
  · intro i j hij s a x r s' a' y r' hi hj
    obtain ⟨hBefore, c', hEffect⟩ := hLogged hj
    rw [hj] at hEffect
    cases hEffect with
    | replied hReply hSpace =>
      obtain ⟨-, z, hz, hSeal, -⟩ := seal_of_reply hReply
      have hNot := (hBefore.sealsLogged.spent i hij s a x r hi).2 z hz
      rw [hSeal] at hNot
      exact hNot.symm
  · intro j s a x r hj
    obtain ⟨hBefore, c', hEffect⟩ := hLogged hj
    rw [hj] at hEffect
    cases hEffect with
    | replied hReply hSpace =>
      obtain ⟨hSrv, z, hz, hSeal, -⟩ := seal_of_reply hReply
      obtain ⟨i, hi, space, call, hEvent, hCall, hSurvives, hBound⟩ :=
        hBefore.sealsLogged.origin z hz
      rw [hSeal] at hEvent hCall hSurvives hBound
      rw [hSrv] at hEvent hSurvives
      refine ⟨i, hi, space, call, hEvent, by rw [hCall], hSurvives, ?_⟩
      intro g g' hg hg'
      obtain ⟨hValid, hEq⟩ := hBound g' hg'
      rw [hEq]
      exact hSpace g hg (hEq ▸ hValid)
  · intro l c r hl
    obtain ⟨hBefore, c', hEffect⟩ := hLogged hl
    rw [hl] at hEffect
    cases hEffect with
    | took hSlot =>
      obtain ⟨hMem, hKey⟩ := mem_of_lookup hSlot
      rename_i slot
      have hActive : slot.active = true ∧ slot.caller = c := by
        unfold key at hKey
        split_ifs at hKey with hActive
        exact ⟨hActive, Option.some.inj hKey⟩
      obtain ⟨i, j, k, server, a, a', call, hjk, hk, hTalk, hReplied, hUntaken⟩ :=
        hBefore.callsLogged.replies slot (mem_replied.mpr ⟨hMem, hActive.1⟩)
      rw [hActive.2] at hTalk hUntaken
      obtain ⟨hij, hSent, hRecvd, hCaller, hQuiet⟩ := hTalk
      exact ⟨i, j, k, server, a, a', call, hij, hjk, hk, hSent, hRecvd, hCaller, hReplied,
        hQuiet, hUntaken⟩

/-- Thread 1 ends while its call is delivered and uncollected, is created again
and calls again. The server's stale partner field gets it two seals for that
call, and the second one answers the call after it. -/
def staleRun : List (Env × Op) :=
  let send : CapabilityOp := .mint 1 (ipcObjectId { slot := 0, generation := 1 }) ipcRightSend false
  [({}, .createThread 1 0), ({}, .createThread 2 0), ({}, .createIpcEndpoint 2),
   ({}, .capability (.mint 2 (ipcObjectId { slot := 0, generation := 1 }) ipcRightReceive false)),
   ({}, .capability send),
   ({}, .ipcReceive 2 1),
   ({}, .ipcSend 1 2 {}),
   ({}, .destroyThread 1),
   ({}, .createThread 1 0),
   ({}, .capability send),
   ({}, .ipcSend 1 3 {}),
   ({}, .ipcReceive 2 1),
   ({}, .ipcReceive 2 1),
   ({}, .ipcReplyTransaction 2 1 {}),
   ({}, .ipcTakeReply 1),
   ({}, .ipcSend 1 3 {}),
   ({}, .ipcReceive 2 1),
   ({}, .ipcReplyTransaction 2 2 { size := 1 }),
   ({}, .ipcTakeReply 1)]

/-- The last reply taken answers the second transaction; the latest call of
thread 1 is the third. -/
theorem staleRun_answers_earlier_call :
    (∀ call ∈ staleRun, call.2.EndpointIpc) ∧ ¬RepliesExactlyOnce (eventAt staleRun) := by
  refine ⟨?_, ?_⟩
  · intro call hCall
    simp only [staleRun, mem_cons, not_mem_nil, or_false] at hCall
    rcases hCall with rfl | rfl | rfl | rfl | rfl | rfl | rfl | rfl | rfl | rfl | rfl | rfl | rfl |
      rfl | rfl | rfl | rfl | rfl | rfl <;> trivial
  · intro h
    obtain ⟨hSent, hRecvd, hReplied, hTook⟩ :
        eventAt staleRun 15 = some (.sent 1 {}) ∧
        (eventAt staleRun 16).map (fun event => match event with
          | .received _ _ call => call.reply.transaction
          | _ => 0) = some 3 ∧
        eventAt staleRun 17 = some (.replied 2 none 2 { size := 1 }) ∧
        eventAt staleRun 18 = some (.took 1 { size := 1 }) := by decide +kernel
    obtain ⟨i, j, k, s, a, a', call, hij, hjk, hkl, hi, hj, -, hk, hQuiet, -⟩ :=
      h.taken 18 1 _ hTook
    have hLast : 15 ≤ i := by
      by_contra hNot
      exact (hQuiet 15 (by omega) (by omega)).1 _ hSent
    obtain rfl : k = 17 := by omega
    obtain rfl : j = 16 := by omega
    rw [hReplied] at hk
    rw [hj] at hRecvd
    simp only [Option.some.injEq, IpcEvent.replied.injEq, Option.map_some] at hk hRecvd
    rw [hRecvd] at hk
    simp at hk

/-- A call that queues, is received, answered and taken. -/
def answeredRun : List (Env × Op) :=
  [({}, .createThread 1 0), ({}, .createThread 2 0), ({}, .createIpcEndpoint 2),
   ({}, .capability (.mint 2 (ipcObjectId { slot := 0, generation := 1 }) ipcRightReceive false)),
   ({}, .capability (.mint 1 (ipcObjectId { slot := 0, generation := 1 }) ipcRightSend false)),
   ({}, .ipcSend 1 2 {}),
   ({}, .ipcReceive 2 1),
   ({}, .ipcReplyTransaction 2 1 { size := 1 }),
   ({}, .ipcTakeReply 1)]

/-- A run of one call, whose reply is taken at its last step. -/
theorem replies_exactly_once_answered :
    RepliesExactlyOnce (eventAt answeredRun) ∧
      eventAt answeredRun 8 = some (.took 1 { size := 1 }) := by
  refine ⟨replies_exactly_once answeredRun ?_ ?_, by decide +kernel⟩
  · intro call hCall
    simp only [answeredRun, mem_cons, not_mem_nil, or_false] at hCall
    rcases hCall with rfl | rfl | rfl | rfl | rfl | rfl | rfl | rfl | rfl <;> trivial
  · have hReceives : ¬(Run.after Kernel.step {} (answeredRun.take 6)).threads.HoldsQueued 2 := by
      rintro ⟨q, hReady, hQueued⟩
      cases hReady
      simp at hQueued
    intro n call hCall
    have hn : n < 9 := (List.getElem?_eq_some_iff.mp hCall).1
    interval_cases n
    all_goals
      cases hCall
      rintro ⟨thread, hThr, hHolds⟩
      cases hThr <;> exact hReceives hHolds

end Enml.OsKernel
