import Enml.Safety.ReceiveProgress

/-! The order in which receivers accept the senders queued for them. Nothing
records when a sender blocked, so the order is that of the table slots. -/
namespace Enml.OsKernel

open IpcEndpointTable Rendezvous Kernel Run SlotTable

/-- `queue m` is the queue after `m` steps. Whenever `s` has been in it without
a break since some step, so has `t`. -/
def WaitedAsLong (queue : ℕ → List ThreadId) (n : ℕ) (t s : ThreadId) : Prop :=
  ∀ m ≤ n, (∀ j, m ≤ j → j ≤ n → s ∈ queue j) → ∀ j, m ≤ j → j ≤ n → t ∈ queue j

/-- Of the queue after `n` steps, `t` became blocked earliest. -/
def LongestWaiting (queue : ℕ → List ThreadId) (n : ℕ) (t : ThreadId) : Prop :=
  ∀ s ∈ queue n, WaitedAsLong queue n t s

/-- The sender in the lowest slot is the one that became blocked earliest. -/
def LowestIsLongest (queue : ℕ → List ThreadId) (n : ℕ) : Prop :=
  ∀ t, (queue n).head? = some t → LongestWaiting queue n t

/-- A receive by `self` takes `t` from the queue into service. -/
def Accepted (before after : Rendezvous) (self t : ThreadId) : Prop :=
  before.phase t = some (.sendBlocked, self) ∧ after.phase t = some (.replyBlocked, self)

/-- What `receive` looks for: a sender blocked on `self`. -/
def Rendezvous.Slot.senderTo (self : ThreadId) (s : Rendezvous.Slot) : Option ThreadId :=
  if s.occupied && s.state == .sendBlocked && s.partner == self then some s.thread else none

/-- The senders blocked on `self`, in slot order. -/
def Rendezvous.senders (r : Rendezvous) (self : ThreadId) : List ThreadId :=
  (entries (Slot.senderTo self) r.slots).map (·.thread)

/-- The callers blocked on an endpoint of `server`, in the order their calls
have in the table. -/
def Kernel.callers (k : Kernel) (e : IpcEndpoint) (server : ThreadId) : List ThreadId :=
  (k.ipc.calls.filter fun p =>
    p.endpoint == e && k.threads.phase p.caller == some (.sendBlocked, server)).map (·.caller)

theorem longestWaiting_iff_lowest {queue : ℕ → List ThreadId} {n : ℕ} {t : ThreadId}
    (h : (queue n).head? = some t) : LongestWaiting queue n t ↔ LowestIsLongest queue n := by
  constructor
  · intro hLongest u hu
    rw [h] at hu
    cases hu
    exact hLongest
  · intro hLowest
    exact hLowest t h

theorem Accepted.moved {before after : Rendezvous} {self t : ThreadId}
    (h : Accepted before after self t) : after.phase t ≠ before.phase t := by
  rw [h.1, h.2]
  simp

namespace Rendezvous

variable {r r' : Rendezvous} {self t : ThreadId}

theorem phase_clearWake (r : Rendezvous) (a u : ThreadId) :
    (r.modify a fun s => { s with wake := .none }).phase u = r.phase u := by
  unfold phase
  rw [find_clearWake]
  split_ifs with hu
  · rw [hu]
    cases r.find a <;> rfl
  · rfl

theorem phase_waitReceive_ne (a : ThreadId) {u : ThreadId} (hu : u ≠ a) :
    (r.waitReceive a).1.phase u = r.phase u := by
  rcases hWait : r.waitReceive a with ⟨r', e | ⟨⟩⟩
  · rw [waitReceive_error hWait]
  · rw [(phase_waitReceive hWait).2, if_neg hu]

theorem senders_clearWake (r : Rendezvous) (a b : ThreadId) :
    (r.modify a fun s => { s with wake := .none }).senders b = r.senders b :=
  map_entries_updateFirst (f := fun s : Slot => { s with wake := .none })
    (fun _ => rfl) (fun _ => rfl) r.slots

theorem head_senders {slot : Slot}
    (h : (r.slots.find? fun s => s.occupied && s.state == .sendBlocked && s.partner == self) =
      some slot) : (r.senders self).head? = some slot.thread := by
  have hKey : ∀ s : Slot, (s.senderTo self).isSome =
      (s.occupied && s.state == .sendBlocked && s.partner == self) := by
    intro s
    unfold Slot.senderTo
    split_ifs with hSender <;> simp [hSender]
  rw [senders, List.head?_map, entries, List.head?_filter, funext hKey, h]
  rfl

/-- A receive moves nobody but the receiver and the first queued sender. -/
theorem accepted_receive (h : Accepted r (r.receive self).1 self t) :
    (r.senders self).head? = some t := by
  have hMoved := h.moved
  unfold receive at hMoved
  split at hMoved
  · exact absurd rfl hMoved
  split at hMoved
  · exact absurd rfl hMoved
  rename_i receiver hRcvr
  split at hMoved
  · exact absurd rfl hMoved
  rename_i hReady
  have hReady : receiver.state = .ready := by simpa using hReady
  have hne : t ≠ self := by
    rintro rfl
    have hBlocked := h.1
    rw [phase_of_find hRcvr, hReady] at hBlocked
    simp at hBlocked
  have hWake := phase_clearWake r self t
  dsimp only at hMoved
  split at hMoved
  · refine absurd ?_ hMoved
    rw [phase_collect hRcvr, if_neg hne]
  split at hMoved
  · rename_i slot hSlot
    rcases hAccept : (r.modify self fun s => { s with wake := .none }).acceptSender self
        slot.thread with ⟨r₁, e | ⟨⟩⟩
    · rw [hAccept, acceptSender_error hAccept] at hMoved
      exact absurd hWake hMoved
    have hSender : t = slot.thread := by
      by_contra hNot
      rw [hAccept] at hMoved
      rw [(phase_acceptSender hAccept).2.2.2, if_neg hNot] at hMoved
      exact hMoved hWake
    rw [← senders_clearWake, hSender]
    exact head_senders hSlot
  · refine absurd ?_ hMoved
    have hWait := phase_waitReceive_ne (r := r.modify self fun s => { s with wake := .none }) self
      hne
    rw [← hWake, ← hWait]
    split
    all_goals
      rename_i hEq
      rw [hEq]

end Rendezvous

theorem find?_and_of_find? {α : Type*} {p q : α → Bool} {l : List α} {x : α}
    (h : l.find? p = some x) (hq : q x = true) : (l.find? fun y => p y && q y) = some x := by
  induction l with
  | nil => cases h
  | cons y _ ih =>
    cases hp : p y with
    | true =>
      rw [List.find?_cons_of_pos hp, Option.some.injEq] at h
      subst h
      simp [hp, hq]
    | false =>
      rw [List.find?_cons_of_neg (by simp [hp])] at h
      simp [hp, ih h]

theorem Kernel.head_callers {k : Kernel} {e : IpcEndpoint} {server : ThreadId} {p : PendingSlot}
    (hFirst : k.ipc.pendingSlotAt e = some p)
    (hBlocked : k.threads.phase p.caller = some (.sendBlocked, server)) :
    (k.callers e server).head? = some p.caller := by
  have hFind := find?_and_of_find? (q := fun p : PendingSlot =>
    k.threads.phase p.caller == some (.sendBlocked, server)) hFirst (by simp [hBlocked])
  rw [callers, List.head?_map, List.head?_filter, IpcEndpointTable.calls, entries,
    List.find?_filter]
  simp only [PendingSlot.key_isSome, Bool.decide_and, Bool.decide_eq_true, ← Bool.and_assoc]
  rw [hFind]
  rfl

theorem Kernel.accepted_endpoint {k : Kernel} {env : Env} {op : Op} {e : IpcEndpoint}
    {server t : ThreadId} (hRcvr : op.receiver = some server)
    (hEp : k.endpointOf op = some e)
    (h : Accepted k.threads (k.step (env, op)).1.threads server t) :
    (k.callers e server).head? = some t := by
  have hMoved := h.moved
  obtain ⟨space, -, hCore⟩ := step_receive env hRcvr hEp
  change (k.step (env, op)).1.core.threads.phase t ≠ _ at hMoved
  rw [hCore] at hMoved
  rcases hRecv : k.ipc.receiveFromEndpoint server space e k.threads with ⟨⟨ipc, r⟩, x | received⟩
  · obtain ⟨-, rfl⟩ := receiveFromEndpoint_error hRecv
    rw [hRecv] at hMoved
    exact absurd rfl hMoved
  rw [hRecv] at hMoved
  change r.phase t ≠ _ at hMoved
  obtain ⟨-, s, -, -, -, hs, hReady, hCase⟩ := receiveFromEndpoint_ok hRecv
  have hne : t ≠ server := by
    rintro rfl
    have hBlocked := h.1
    rw [phase_of_find hs, hReady] at hBlocked
    simp at hBlocked
  rcases hCase with ⟨-, -, -, -, rfl⟩ | ⟨-, call, hFirst, -, hAccept⟩ | ⟨-, -, -, hWait, -⟩
  · rw [phase_collect hs, if_neg hne] at hMoved
    exact absurd rfl hMoved
  · have hSender : t = call.caller := by
      by_contra hNot
      rw [(phase_acceptSender hAccept).2.2.2, if_neg hNot] at hMoved
      exact hMoved rfl
    rw [hSender]
    exact head_callers hFirst (phase_acceptSender hAccept).2.1
  · rw [(phase_waitReceive hWait).2, if_neg hne] at hMoved
    exact absurd rfl hMoved

/-- In every run of the rendezvous, and of the kernel over it, a receive that
accepts a queued sender accepts the one in the lowest slot. So it accepts the one
blocked longest exactly when that one has the lowest slot. -/
theorem accepted_waited_longest_iff (ops : List RendezvousOp) (calls : List (Env × Op)) :
    (∀ (n : ℕ) (self t : ThreadId), ops[n]? = some (.receive self) →
      Accepted (after Rendezvous.step {} (ops.take n))
        (after Rendezvous.step {} (ops.take (n + 1))) self t →
      (LongestWaiting (fun m => (after Rendezvous.step {} (ops.take m)).senders self) n t ↔
        LowestIsLongest (fun m => (after Rendezvous.step {} (ops.take m)).senders self) n)) ∧
    (∀ (n : ℕ) (env : Env) (self t : ThreadId), calls[n]? = some (env, .receive self) →
      Accepted (after Kernel.step {} (calls.take n)).threads
        (after Kernel.step {} (calls.take (n + 1))).threads self t →
      (LongestWaiting (fun m => (after Kernel.step {} (calls.take m)).threads.senders self) n t ↔
        LowestIsLongest (fun m => (after Kernel.step {} (calls.take m)).threads.senders self)
          n)) ∧
    ∀ (n : ℕ) (call : Env × Op) (e : IpcEndpoint)
      (server t : ThreadId), calls[n]? = some call → call.2.receiver = some server →
      (after Kernel.step {} (calls.take n)).endpointOf call.2 = some e →
      Accepted (after Kernel.step {} (calls.take n)).threads
        (after Kernel.step {} (calls.take (n + 1))).threads server t →
      (LongestWaiting (fun m => (after Kernel.step {} (calls.take m)).callers e server) n t ↔
        LowestIsLongest (fun m => (after Kernel.step {} (calls.take m)).callers e server)
          n) := by
  refine ⟨?_, ?_, ?_⟩
  · intro n self t hOp h
    rw [after_take_succ hOp] at h
    exact longestWaiting_iff_lowest (accepted_receive h)
  · intro n env self t hCall h
    rw [after_take_succ hCall] at h
    have hCore := core_step (structured_run calls n).same env (.receive self)
    have hThrs := congrArg Core.threads hCore
    change Accepted _ (core _).threads _ _ at h
    rw [hThrs] at h
    exact longestWaiting_iff_lowest (accepted_receive h)
  · intro n call e server t hCall hRcvr hEp h
    rw [after_take_succ hCall] at h
    exact longestWaiting_iff_lowest (accepted_endpoint hRcvr hEp h)

/-- Thread 3 calls thread 1 before thread 2 does, and is accepted after it. -/
def overtakingRun : List RendezvousOp :=
  [.createThread 1 0, .createThread 2 0, .createThread 3 0, .send 3 1, .send 2 1, .receive 1]

/-- Thread 4 calls first and is answered; the slot of its call goes to thread 3,
which thereby passes thread 2. -/
def overtakingCalls : List (Env × Op) :=
  let endpoint := ipcObjectId { slot := 0, generation := 1 }
  [({}, .createThread 1 0), ({}, .createThread 2 0), ({}, .createThread 3 0),
   ({}, .createThread 4 0),
   ({}, .createIpcEndpoint 1),
   ({}, .capability (.mint 1 endpoint ipcRightReceive false)),
   ({}, .capability (.mint 2 endpoint ipcRightSend false)),
   ({}, .capability (.mint 3 endpoint ipcRightSend false)),
   ({}, .capability (.mint 4 endpoint ipcRightSend false)),
   ({}, .ipcSend 4 4 {}),
   ({}, .ipcSend 2 2 {}),
   ({}, .ipcReceive 1 1),
   ({}, .ipcReplyTransaction 1 1 {}),
   ({}, .ipcSend 3 3 {}),
   ({}, .ipcReceive 1 1)]

/-- In both runs the accepted sender blocked after another that is queued. -/
theorem later_sender_overtakes :
    (Accepted (after Rendezvous.step {} (overtakingRun.take 5))
        (after Rendezvous.step {} (overtakingRun.take 6)) 1 2 ∧
      ¬LongestWaiting (fun m => (after Rendezvous.step {} (overtakingRun.take m)).senders 1)
        5 2) ∧
    Accepted (after Kernel.step {} (overtakingCalls.take 14)).threads
        (after Kernel.step {} (overtakingCalls.take 15)).threads 1 3 ∧
      ¬LongestWaiting (fun m => (after Kernel.step {} (overtakingCalls.take m)).callers
        { slot := 0, generation := 1 } 1) 14 3 := by
  refine ⟨⟨⟨by decide +kernel, by decide +kernel⟩, ?_⟩, ⟨by decide +kernel, by decide +kernel⟩, ?_⟩
  · intro h
    have hQueue : ∀ j, 4 ≤ j → j ≤ 5 →
        3 ∈ (after Rendezvous.step {} (overtakingRun.take j)).senders 1 := by
      intro j hLow hHigh
      interval_cases j <;> decide +kernel
    have hMember := h 3 (hQueue 5 (by omega) (by omega)) 4 (by omega) hQueue 4 (by omega) (by omega)
    revert hMember
    decide +kernel
  · intro h
    have hQueue : ∀ j, 11 ≤ j → j ≤ 14 → 2 ∈ (after Kernel.step {} (overtakingCalls.take j)).callers
          { slot := 0, generation := 1 } 1 := by
      intro j hLow hHigh
      interval_cases j <;> decide +kernel
    have hMember := h 2 (hQueue 14 (by omega) (by omega)) 11 (by omega) hQueue 11 (by omega)
      (by omega)
    revert hMember
    decide +kernel

end Enml.OsKernel
