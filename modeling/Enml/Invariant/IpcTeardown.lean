import Enml.Invariant.IpcEndpoint

/-! Endpoint retirement and thread release: loops over slots, each turned into
a rule that lifts what one visit keeps to what the whole loop keeps. -/
namespace Enml.OsKernel.IpcEndpointTable

open Enml.Core SlotTable List

variable {P : IpcEndpointTable → Rendezvous → Prop} {t : IpcEndpointTable}

/-- The calls that have been sent and not answered, in table order. -/
def calls (t : IpcEndpointTable) : List PendingSlot := entries PendingSlot.key t.pending

/-- The seals that have been handed out and not used, in table order. -/
def seals (t : IpcEndpointTable) : List ReplySlot := entries ReplySlot.key t.replies

theorem PendingSlot.key_isSome (p : PendingSlot) : p.key.isSome = p.active := by
  unfold PendingSlot.key
  cases p.active <;> rfl

theorem ReplySlot.key_isSome (s : ReplySlot) : s.key.isSome = s.active := by
  unfold ReplySlot.key
  cases s.active <;> rfl

theorem CompletedSlot.key_isSome (s : CompletedSlot) : s.key.isSome = s.active := by
  unfold CompletedSlot.key
  cases s.active <;> rfl

theorem mem_calls {p : PendingSlot} : p ∈ t.calls ↔ p ∈ t.pending ∧ p.active = true := by
  rw [calls, mem_entries, PendingSlot.key_isSome]

theorem mem_seals {s : ReplySlot} : s ∈ t.seals ↔ s ∈ t.replies ∧ s.active = true := by
  rw [seals, mem_entries, ReplySlot.key_isSome]

theorem mem_replied {s : CompletedSlot} : s ∈ t.replied ↔ s ∈ t.completed ∧ s.active = true := by
  rw [replied, mem_entries, CompletedSlot.key_isSome]

theorem calls_dropPending (t : IpcEndpointTable) (p : PendingSlot → Bool) :
    (t.dropPending p).calls = t.calls.filter fun s => !p s := by
  rw [calls, dropPending, entries_map_free rfl, calls]
  apply filter_congr
  intro s hs
  simp [(mem_calls.mp hs).2]

theorem seals_dropReplies (t : IpcEndpointTable) (p : IpcReplySeal → Bool) :
    (t.dropReplies p).seals = t.seals.filter fun s => !p s.replySeal := by
  rw [seals, dropReplies, entries_map_free rfl, seals]
  apply filter_congr
  intro s hs
  simp [(mem_seals.mp hs).2]

/-- A narrower drop before a wider one is not noticed. -/
theorem dropReplies_dropReplies {p q : IpcReplySeal → Bool}
    (hpq : ∀ s, p s = true → q s = true) : (t.dropReplies p).dropReplies q = t.dropReplies q := by
  have hCnt : ∀ replies : List ReplySlot, (replies.countP fun s => s.active && p s.replySeal) +
        ((replies.map fun s => if s.active && p s.replySeal then ({} : ReplySlot) else s).countP
          fun s => s.active && q s.replySeal) =
      replies.countP fun s => s.active && q s.replySeal := by
    intro replies
    induction replies with
    | nil => rfl
    | cons x _ ih =>
      simp only [map_cons, countP_cons] at ih ⊢
      cases ha : x.active with
      | false => simpa [ha] using ih
      | true =>
        cases hp : p x.replySeal with
        | false =>
          simp only [ha, Bool.and_false, Bool.false_eq_true, if_false] at ih ⊢
          omega
        | true =>
          have hq := hpq _ hp
          simp only [hq, Bool.and_true, if_true] at ih ⊢
          simp only [Bool.false_and, Bool.false_eq_true, if_false]
          omega
  have hMap : (t.replies.map fun s => if s.active && p s.replySeal then ({} : ReplySlot) else s).map
      (fun s => if s.active && q s.replySeal then ({} : ReplySlot) else s) =
      t.replies.map fun s => if s.active && q s.replySeal then {} else s := by
    rw [map_map]
    apply map_congr_left
    intro s _
    cases ha : s.active with
    | false => simp [ha]
    | true =>
      cases hp : p s.replySeal with
      | false => simp [ha, hp]
      | true => simp [ha, hp, hpq _ hp]
  unfold dropReplies
  dsimp only
  rw [hMap, ← hCnt t.replies]
  congr 1
  omega

section Close

variable (t : IpcEndpointTable) (endpoint : IpcEndpoint) (r : Rendezvous)

theorem endpoints_closeEndpoint :
    (t.closeEndpoint endpoint r).1.endpoints =
      t.endpoints.modify endpoint.slot.toNat fun slot =>
        { slot with receiveWaiting := false, server := invalidThread, active := false } := rfl

theorem slotFor_closeEndpoint (e : IpcEndpoint) :
    (t.closeEndpoint endpoint r).1.slotFor e =
      if e.slot.toNat = endpoint.slot.toNat then none else t.slotFor e :=
  slotFor_close (endpoints_closeEndpoint t endpoint r) (fun _ => rfl) e

theorem calls_closeEndpoint :
    (t.closeEndpoint endpoint r).1.calls = t.calls.filter fun s => !(s.endpoint == endpoint) :=
  calls_dropPending _ _

theorem seals_closeEndpoint :
    (t.closeEndpoint endpoint r).1.seals =
      t.seals.filter fun s => !(s.replySeal.endpoint == endpoint) := by
  have hDrop := seals_dropReplies t fun replySeal => replySeal.endpoint == endpoint
  exact hDrop

@[simp] theorem completed_closeEndpoint :
    (t.closeEndpoint endpoint r).1.completed = t.completed := rfl

@[simp] theorem length_endpoints_closeEndpoint :
    (t.closeEndpoint endpoint r).1.endpoints.length = t.endpoints.length := by
  simp [endpoints_closeEndpoint]

end Close

variable {endpoint : IpcEndpoint} {r r' : Rendezvous} {t' : IpcEndpointTable} {server : ThreadId}

/-- What every cancelled call keeps, the loop over the calls keeps. -/
theorem cancelCalls_induction {P : Rendezvous → Prop} {pending : List PendingSlot} (hStart : P r)
    (hStep : ∀ r p, p ∈ pending → p.active = true → p.endpoint = endpoint → P r →
      P (r.cancelCall p.caller p.server).1) : P (cancelCalls endpoint pending r) := by
  induction pending generalizing r with
  | nil => exact hStart
  | cons p rest ih =>
    unfold cancelCalls
    rw [foldl_cons]
    apply ih
    · split_ifs with hMatch
      · simp only [Bool.and_eq_true, beq_iff_eq] at hMatch
        exact hStep r p mem_cons_self hMatch.1 hMatch.2 hStart
      · exact hStart
    · intro r q hq
      exact hStep r q (mem_cons_of_mem _ hq)

theorem retire_error {e : Error} (h : t.retire server endpoint r = ((t', r'), .error e)) :
    t' = t ∧ r' = r := by
  unfold retire at h
  split at h
  · cases h; exact ⟨rfl, rfl⟩
  split at h
  · cases h; exact ⟨rfl, rfl⟩
  split at h
  · split at h
    · rename_i hCancel
      cases h
      exact ⟨rfl, (Rendezvous.endReceive_error hCancel).1⟩
    · cases h
  · cases h

theorem retire_ok (h : t.retire server endpoint r = ((t', r'), .ok ())) :
    ∃ slot r₁, t.slotFor endpoint = some slot ∧ server ≠ invalidThread ∧ slot.server = server ∧
      ((slot.receiveWaiting = true ∧ r.cancelReceive server = (r₁, .ok ())) ∨
        (slot.receiveWaiting = false ∧ r₁ = r)) ∧
      t' = (t.closeEndpoint endpoint r₁).1 ∧ r' = cancelCalls endpoint t.pending r₁ := by
  unfold retire at h
  split at h
  · cases h
  rename_i slot hSlot
  split at h
  · cases h
  rename_i hOwner
  simp only [not_or, ne_eq, not_not] at hOwner
  split at h
  · rename_i hWait
    split at h
    · cases h
    · rename_i r₁ hCancel
      cases h
      exact ⟨slot, r₁, hSlot, hOwner.1, hOwner.2, .inl ⟨hWait, hCancel⟩, rfl, rfl⟩
  · rename_i hWait
    cases h
    exact ⟨slot, r, hSlot, hOwner.1, hOwner.2, .inr ⟨by simpa using hWait, rfl⟩, rfl, rfl⟩

/-- What a cancelled receive and every cancelled call keep, retirement keeps. -/
theorem retire_induction {P : Rendezvous → Prop}
    (h : t.retire server endpoint r = ((t', r'), .ok ())) (hStart : P r)
    (hReceive : ∀ r₁, r.cancelReceive server = (r₁, .ok ()) → P r₁)
    (hCall : ∀ r caller server, P r → P (r.cancelCall caller server).1) : P r' := by
  obtain ⟨slot, r₁, -, -, -, hFirst, -, rfl⟩ := retire_ok h
  apply cancelCalls_induction
  · rcases hFirst with ⟨-, hCancel⟩ | ⟨-, rfl⟩
    · exact hReceive r₁ hCancel
    · exact hStart
  · exact fun r p _ _ _ => hCall r p.caller p.server

theorem foldl_retireAt_induction
    (hStep : ∀ t r t' r' e, P t r → t.retire server e r = ((t', r'), .ok ()) → P t' r')
    (indices : List Nat) (state : (IpcEndpointTable × Rendezvous) × Nat)
    (hStart : P state.1.1 state.1.2) :
    P (indices.foldl (retireAt server) state).1.1 (indices.foldl (retireAt server) state).1.2 := by
  induction indices generalizing state with
  | nil => exact hStart
  | cons i rest ih =>
    rw [foldl_cons]
    apply ih
    unfold retireAt
    split
    · exact hStart
    rename_i slot _
    split
    · exact hStart
    rcases hRetire : state.1.1.retire server
      { slot := UInt16.ofNat i, generation := slot.generation } state.1.2 with
      ⟨⟨t', r'⟩, result⟩
    cases result with
    | error =>
      obtain ⟨rfl, rfl⟩ := retire_error hRetire
      exact hStart
    | ok => exact hStep _ _ _ _ _ hStart hRetire

/-- What a successful retirement keeps, the retirement of all a thread owns keeps. -/
theorem retireAllOwnedBy_induction (server : ThreadId) {r : Rendezvous} (hStart : P t r)
    (hStep : ∀ t r t' r' e, P t r → t.retire server e r = ((t', r'), .ok ()) → P t' r') :
    P (t.retireAllOwnedBy server r).1.1 (t.retireAllOwnedBy server r).1.2 := by
  unfold retireAllOwnedBy
  split
  · exact hStart
  · exact foldl_retireAt_induction hStep _ _ hStart

/-- The seals a dying thread leaves behind, as caller or as server. -/
def namesThread (thread : ThreadId) (s : IpcReplySeal) : Bool :=
  s.caller == thread || s.server == thread

theorem foldl_releaseCall (thread : ThreadId) (pending : List PendingSlot) (t : IpcEndpointTable) :
    (pending.foldl (releaseCall thread) t).dropReplies (namesThread thread) =
      t.dropReplies (namesThread thread) := by
  induction pending generalizing t with
  | nil => rfl
  | cons _ _ ih =>
    rw [foldl_cons, ih]
    unfold releaseCall
    split_ifs
    · apply dropReplies_dropReplies
      intro s hs
      simp only [Bool.and_eq_true] at hs
      simp [namesThread, hs.1]
    · rfl

/-- The caller loop of `release_thread` is covered by the sweep that follows it. -/
theorem releaseThread_eq (t : IpcEndpointTable) {thread : ThreadId} (r : Rendezvous)
    (hThr : thread ≠ invalidThread) :
    (t.releaseThread thread r).1 =
      ((((t.retireAllOwnedBy thread r).1.1.dropReplies (namesThread thread)).dropPending
          fun s => s.caller == thread).discardCompletedFor thread,
        (t.retireAllOwnedBy thread r).1.2) := by
  rw [releaseThread, if_neg hThr,
    ← foldl_releaseCall thread (t.retireAllOwnedBy thread r).1.1.pending]
  rfl

theorem releaseThread_invalid (t : IpcEndpointTable) (r : Rendezvous) :
    (t.releaseThread invalidThread r).1 = (t, r) := by
  rw [releaseThread, if_pos rfl]

/-- What a successful retirement and the last sweep keep, the release of a
thread keeps. -/
theorem releaseThread_induction (thread : ThreadId) {r : Rendezvous} (hStart : P t r)
    (hRetire : ∀ t r t' r' e, P t r → t.retire thread e r = ((t', r'), .ok ()) → P t' r')
    (hSweep : ∀ t r, P t r → P (((t.dropReplies (namesThread thread)).dropPending
      fun s => s.caller == thread).discardCompletedFor thread) r) :
    P (t.releaseThread thread r).1.1 (t.releaseThread thread r).1.2 := by
  rcases eq_or_ne thread invalidThread with rfl | hThr
  · rwa [releaseThread_invalid]
  · rw [releaseThread_eq t r hThr]
    exact hSweep _ _ (retireAllOwnedBy_induction thread hStart hRetire)

end Enml.OsKernel.IpcEndpointTable
