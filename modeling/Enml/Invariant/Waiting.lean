import Enml.Invariant.Linked

/-! Receivers that wait, the endpoints that say so, and what the retirement
loop makes of them. -/
namespace Enml.OsKernel

namespace Rendezvous

/-- `t` is blocked in a receive and nobody has been delivered to it. -/
def Waits (r : Rendezvous) (t : ThreadId) : Prop :=
  ∃ s, r.find t = some s ∧ s.state = .receiveBlocked ∧ s.partner = invalidThread

variable {r r' : Rendezvous} {t u a : ThreadId} {w : WakeReason}

/-- A write that leaves blocked receivers alone leaves waiting threads waiting. -/
theorem Waits.modify {f : Slot → Slot} (h : r.Waits t) (hf : ∀ s, (f s).key = s.key)
    (hKeep : ∀ s, r.find u = some s → s.state = .receiveBlocked → u = t →
      (f s).state = s.state ∧ (f s).partner = s.partner) : (r.modify u f).Waits t := by
  obtain ⟨s, hs, hState, hPeer⟩ := h
  rcases eq_or_ne t u with rfl | htu
  · obtain ⟨hState', hPeer'⟩ := hKeep s hs hState rfl
    refine ⟨f s, ?_, hState'.trans hState, hPeer'.trans hPeer⟩
    rw [find_modify r t t hf, if_pos rfl, hs]
    rfl
  · refine ⟨s, ?_, hState, hPeer⟩
    rw [find_modify r u t hf, if_neg htu, hs]

/-- Conversely, a write that makes nobody a blocked receiver adds no waiter. -/
theorem waits_of_modify {f : Slot → Slot} (hf : ∀ s, (f s).key = s.key)
    (hKeep : ∀ s, r.find u = some s → u = t → (f s).state = .receiveBlocked →
      (f s).partner = invalidThread → s.state = .receiveBlocked ∧ s.partner = invalidThread)
    (h : (r.modify u f).Waits t) : r.Waits t := by
  obtain ⟨s, hs, hState, hPeer⟩ := h
  rw [find_modify r u t hf] at hs
  split_ifs at hs with htu
  · subst htu
    cases hFind : r.find t with
    | none => simp [hFind] at hs
    | some s₀ =>
      rw [hFind] at hs
      cases hs
      obtain ⟨hState', hPeer'⟩ := hKeep s₀ hFind rfl hState hPeer
      exact ⟨s₀, hFind, hState', hPeer'⟩
  · exact ⟨s, hs, hState, hPeer⟩

/-- Cancelling a call neither starts nor ends anybody's wait. -/
theorem waits_cancelCall (r : Rendezvous) (a b t : ThreadId) :
    (r.cancelCall a b).1.Waits t ↔ r.Waits t := by
  rcases hCancel : r.cancelCall a b with ⟨r', e | ⟨⟩⟩
  · rw [cancelCall_error hCancel]
  obtain ⟨sa, sb, ha, -, hWait, rfl⟩ := cancelCall_ok hCancel
  rw [Slot.waitingOn_iff] at hWait
  have hNot : sa.state ≠ .receiveBlocked := by
    rcases hWait.1 with h | h <;> simp [h]
  constructor
  · intro h
    apply waits_of_modify _ _ (waits_of_modify _ _ h)
    · intro s
      rfl
    · intro s _ _ hState
      cases hState
    · intro s
      split <;> rfl
    intro s _ _ hState hPeer
    split_ifs at hState hPeer with hReady
    · rw [hReady.1] at hState
      cases hState
    · exact ⟨hState, hPeer⟩
  · intro h
    apply Waits.modify
    · apply Waits.modify h
      · intro s
        rfl
      · intro s hs hState _
        rw [ha] at hs
        cases hs
        exact absurd hState hNot
    · intro s
      split <;> rfl
    · intro s _ hState _
      split_ifs with hReady
      · rw [hReady.1] at hState
        cases hState
      · exact ⟨rfl, rfl⟩

/-- Ending a wait ends that wait and no other. -/
theorem waits_endReceive_ne (h : r.endReceive w a = (r', .ok ())) (hne : t ≠ a) :
    r'.Waits t ↔ r.Waits t := by
  obtain ⟨sa, -, -, -, rfl⟩ := endReceive_ok h
  have hFind : (r.modify a fun s => { s with state := .ready, wake := w }).find t = r.find t := by
    rw [find_modify, if_neg hne]
    intro s
    rfl
  unfold Waits
  rw [hFind]

theorem not_waits_endReceive (h : r.endReceive w a = (r', .ok ())) : ¬r'.Waits a := by
  obtain ⟨sa, ha, -, -, rfl⟩ := endReceive_ok h
  rintro ⟨s, hs, hState, -⟩
  rw [find_modify, if_pos rfl, ha] at hs
  · cases hs
    cases hState
  · intro s
    rfl

theorem endReceive_ok_iff : (∃ r', r.endReceive w a = (r', .ok ())) ↔ r.Waits a := by
  constructor
  · rintro ⟨r', h⟩
    obtain ⟨sa, ha, hState, hPeer, -⟩ := endReceive_ok h
    exact ⟨sa, ha, hState, hPeer⟩
  · rintro ⟨sa, ha, hState, hPeer⟩
    exact ⟨_, endReceive_of_waiting w ha hState hPeer⟩

end Rendezvous

namespace IpcEndpointTable

/-- Slot `i` holds an active endpoint of `server`. -/
def Owns (t : IpcEndpointTable) (server : ThreadId) (i : Nat) : Prop :=
  ∃ slot, t.endpoints[i]? = some slot ∧ slot.active = true ∧ slot.server = server

/-- Slot `i` holds an active endpoint of `server` that shows a waiting receiver. -/
def Flagged (t : IpcEndpointTable) (server : ThreadId) (i : Nat) : Prop :=
  ∃ slot, t.endpoints[i]? = some slot ∧ slot.active = true ∧ slot.server = server ∧
    slot.receiveWaiting = true

theorem waits_cancelCalls (endpoint : IpcEndpoint) (pending : List PendingSlot) (r : Rendezvous)
    (t : ThreadId) : (cancelCalls endpoint pending r).Waits t ↔ r.Waits t := by
  apply cancelCalls_induction (P := fun r' => r'.Waits t ↔ r.Waits t)
  · exact Iff.rfl
  · intro r' p _ _ _ h
    rw [Rendezvous.waits_cancelCall, h]

variable {t : IpcEndpointTable} {server : ThreadId} {i : Nat} {e : IpcEndpoint} {r : Rendezvous}

theorem flagged_owns (h : t.Flagged server i) : t.Owns server i := by
  obtain ⟨slot, hGet, hActive, hSrv, -⟩ := h
  exact ⟨slot, hGet, hActive, hSrv⟩

/-- Closing an endpoint takes its slot away and leaves the others. -/
theorem getElem?_closeEndpoint (t : IpcEndpointTable) (e : IpcEndpoint) (r : Rendezvous)
    {i : Nat} (hi : i ≠ e.slot.toNat) :
    (t.closeEndpoint e r).1.endpoints[i]? = t.endpoints[i]? := by
  rw [endpoints_closeEndpoint, List.getElem?_modify]
  cases t.endpoints[i]? with
  | none => rfl
  | some => simp [Ne.symm hi]

theorem not_owns_closeEndpoint (t : IpcEndpointTable) (e : IpcEndpoint) (r : Rendezvous)
    (server : ThreadId) : ¬(t.closeEndpoint e r).1.Owns server e.slot.toNat := by
  rintro ⟨slot, hGet, hActive, -⟩
  rw [endpoints_closeEndpoint, List.getElem?_modify] at hGet
  cases hOld : t.endpoints[e.slot.toNat]? with
  | none => simp [hOld] at hGet
  | some =>
    simp only [hOld, if_true, Option.map_eq_map, Option.map_some, Option.some.injEq] at hGet
    subst hGet
    cases hActive

theorem owns_closeEndpoint (h : (t.closeEndpoint e r).1.Owns server i) :
    i ≠ e.slot.toNat ∧ t.Owns server i := by
  have hi : i ≠ e.slot.toNat := by
    rintro rfl
    exact not_owns_closeEndpoint t e r server h
  refine ⟨hi, ?_⟩
  obtain ⟨slot, hGet, hRest⟩ := h
  rw [getElem?_closeEndpoint t e r hi] at hGet
  exact ⟨slot, hGet, hRest⟩

theorem flagged_closeEndpoint_iff :
    (t.closeEndpoint e r).1.Flagged server i ↔ i ≠ e.slot.toNat ∧ t.Flagged server i := by
  constructor
  · intro h
    refine ⟨(owns_closeEndpoint (flagged_owns h)).1, ?_⟩
    obtain ⟨slot, hGet, hRest⟩ := h
    rw [getElem?_closeEndpoint t e r (owns_closeEndpoint
      ⟨slot, hGet, hRest.1, hRest.2.1⟩).1] at hGet
    exact ⟨slot, hGet, hRest⟩
  · rintro ⟨hi, slot, hGet, hRest⟩
    rw [← getElem?_closeEndpoint t e r hi] at hGet
    exact ⟨slot, hGet, hRest⟩

/-- Retirement of a thread's endpoints will not be refused anywhere: at most
one of them shows a waiting receiver, and then the thread does wait. -/
structure Retirable (server : ThreadId) (t : IpcEndpointTable) (r : Rendezvous) : Prop where
  linked : t.Linked
  unique : ∀ i j, t.Flagged server i → t.Flagged server j → i = j
  waits : ∀ i, t.Flagged server i → r.Waits server

/-- The endpoint name the retirement loop makes up for slot `i` is its real name. -/
theorem slotFor_ofNat (h : t.Linked) {i : Nat} {slot : EndpointSlot}
    (hGet : t.endpoints[i]? = some slot) (hActive : slot.active = true) :
    (UInt16.ofNat i).toNat = i ∧
      t.slotFor { slot := UInt16.ofNat i, generation := slot.generation } = some slot := by
  have hLt : i < t.endpoints.length := (List.getElem?_eq_some_iff.mp hGet).1
  have hToNat : (UInt16.ofNat i).toNat = i := by
    rw [h.length] at hLt
    simp only [maxIpcEndpoints] at hLt
    rw [UInt16.toNat_ofNat']
    omega
  refine ⟨hToNat, slotFor_eq_some.mpr ⟨?_, ?_, hActive, rfl⟩⟩
  · rw [hToNat]
    exact hGet
  · have hNamed := h.named slot (List.mem_of_getElem? hGet) hActive
    simp [IpcEndpoint.valid, hNamed]

/-- A retirement that succeeds leaves a retirable table and closes its slot. -/
theorem Retirable.retire {t' : IpcEndpointTable} {r' : Rendezvous} (h : Retirable server t r)
    (hRetire : t.retire server e r = ((t', r'), .ok ())) : Retirable server t' r' := by
  obtain ⟨slot, r₁, hSlot, -, hSrv, hFirst, ht', hr'⟩ := retire_ok hRetire
  refine ⟨h.linked.retire hRetire, ?_, ?_⟩
  · intro i j hi hj
    rw [ht', flagged_closeEndpoint_iff] at hi hj
    exact h.unique i j hi.2 hj.2
  intro i hi
  rw [ht', flagged_closeEndpoint_iff] at hi
  rw [hr', waits_cancelCalls]
  rcases hFirst with ⟨hWait, -⟩ | ⟨-, rfl⟩
  · obtain ⟨hGet, -, hActive, -⟩ := slotFor_eq_some.mp hSlot
    exact absurd (h.unique i _ hi.2 ⟨slot, hGet, hActive, hSrv, hWait⟩) hi.1
  · exact h.waits i hi.2

/-- In a retirable table the visit of slot `i` closes it if it is the thread's. -/
theorem Retirable.retireAt (hSrv : server ≠ invalidThread)
    {state : (IpcEndpointTable × Rendezvous) × Nat} (h : Retirable server state.1.1 state.1.2)
    (i : Nat) :
    Retirable server (retireAt server state i).1.1 (retireAt server state i).1.2 ∧
      ¬(retireAt server state i).1.1.Owns server i ∧
      ∀ j, (retireAt server state i).1.1.Owns server j → state.1.1.Owns server j := by
  unfold IpcEndpointTable.retireAt
  split
  · rename_i hNone
    refine ⟨h, ?_, fun _ => id⟩
    rintro ⟨slot, hGet, -⟩
    rw [hNone] at hGet
    cases hGet
  rename_i slot hGet
  split
  · rename_i hSkip
    refine ⟨h, ?_, fun _ => id⟩
    rintro ⟨slot', hGet', hActive, hOwner⟩
    rw [hGet] at hGet'
    cases hGet'
    simp [hActive, hOwner] at hSkip
  · rename_i hTake
    simp only [Bool.or_eq_true, Bool.not_eq_true', bne_iff_ne, ne_eq, not_or, Bool.not_eq_false,
      not_not] at hTake
    obtain ⟨hActive, hOwner⟩ := hTake
    obtain ⟨hToNat, hSlot⟩ := slotFor_ofNat h.linked hGet hActive
    rcases hRetire : state.1.1.retire server
      { slot := UInt16.ofNat i, generation := slot.generation } state.1.2 with
      ⟨⟨t', r'⟩, e | ⟨⟩⟩
    · -- A refusal would need a flag without a waiting server.
      exfalso
      unfold IpcEndpointTable.retire at hRetire
      rw [hSlot] at hRetire
      simp only [hSrv, hOwner, ne_eq, not_true_eq_false, or_self, if_false] at hRetire
      split at hRetire
      · rename_i hWait
        have hWaits := h.waits i ⟨slot, hGet, hActive, hOwner, hWait⟩
        obtain ⟨r₁, hCancel⟩ := Rendezvous.endReceive_ok_iff (w := .endpointRetired).mpr hWaits
        unfold Rendezvous.cancelReceive at hRetire
        rw [hCancel] at hRetire
        cases hRetire
      · cases hRetire
    · obtain ⟨-, r₁, -, -, -, -, ht', -⟩ := retire_ok hRetire
      refine ⟨h.retire hRetire, ?_, ?_⟩
      · have hNot := not_owns_closeEndpoint state.1.1
          { slot := UInt16.ofNat i, generation := slot.generation } r₁ server
        rw [← ht'] at hNot
        rwa [hToNat] at hNot
      intro j hj
      dsimp only at hj
      rw [ht'] at hj
      exact (owns_closeEndpoint hj).2

theorem Retirable.foldl (hSrv : server ≠ invalidThread) (indices : List Nat)
    (state : (IpcEndpointTable × Rendezvous) × Nat) (h : Retirable server state.1.1 state.1.2) :
    (∀ i ∈ indices, ¬(indices.foldl (IpcEndpointTable.retireAt server) state).1.1.Owns server i) ∧
      ∀ i, (indices.foldl (IpcEndpointTable.retireAt server) state).1.1.Owns server i →
        state.1.1.Owns server i := by
  induction indices generalizing state with
  | nil => exact ⟨by simp, fun _ => id⟩
  | cons i _ ih =>
    obtain ⟨hNext, hClosed, hFewer⟩ := h.retireAt hSrv i
    obtain ⟨hRest, hRestFewer⟩ := ih (IpcEndpointTable.retireAt server state i) hNext
    rw [List.foldl_cons]
    refine ⟨?_, fun j hj => hFewer j (hRestFewer j hj)⟩
    intro j hj
    rcases List.mem_cons.mp hj with rfl | hj
    · exact fun hOwns => hClosed (hRestFewer j hOwns)
    · exact hRest j hj

theorem length_retireAllOwnedBy (t : IpcEndpointTable) (server : ThreadId) (r : Rendezvous) :
    (t.retireAllOwnedBy server r).1.1.endpoints.length = t.endpoints.length := by
  apply retireAllOwnedBy_induction _ (P := fun t' _ => t'.endpoints.length = t.endpoints.length)
  · rfl
  · intro t₁ r₁ t' r' e h hRetire
    obtain ⟨slot, r₂, -, -, -, -, ht', -⟩ := retire_ok hRetire
    rw [ht', length_endpoints_closeEndpoint, h]

/-- The retirement loop closes every endpoint of a thread it may not be refused for. -/
theorem Retirable.retireAllOwnedBy (hSrv : server ≠ invalidThread) {t : IpcEndpointTable}
    {r : Rendezvous} (h : Retirable server t r) (i : Nat) :
    ¬(t.retireAllOwnedBy server r).1.1.Owns server i := by
  intro hOwns
  have hLt : i < t.endpoints.length := by
    obtain ⟨slot, hGet, -⟩ := hOwns
    rw [← length_retireAllOwnedBy t server r]
    exact (List.getElem?_eq_some_iff.mp hGet).1
  rw [IpcEndpointTable.retireAllOwnedBy, if_neg hSrv] at hOwns
  have hFold := Retirable.foldl hSrv (List.range t.endpoints.length) ((t, r), 0) h
  exact hFold.1 i (List.mem_range.mpr hLt) hOwns

end IpcEndpointTable

end Enml.OsKernel
