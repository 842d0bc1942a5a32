import Enml.Invariant.Waiting

/-! A thread's phase is its state together with its partner. The endpoint
table relies on nothing else of the rendezvous, so its invariants are stated
over phases and each operation is described by the phases it rewrites. -/
namespace Enml.OsKernel

namespace Rendezvous

/-- What a thread does and with whom, or `none` if it is not there. -/
def phase (r : Rendezvous) (t : ThreadId) : Option (ThreadState × ThreadId) :=
  (r.find t).map fun s => (s.state, s.partner)

variable {r r' : Rendezvous} {t a b : ThreadId} {s : Slot} {state : ThreadState}

theorem phase_of_find (h : r.find t = some s) : r.phase t = some (s.state, s.partner) := by
  rw [phase, h]
  rfl

theorem phase_eq_some {q : ThreadId} :
    r.phase t = some (state, q) ↔ ∃ s, r.find t = some s ∧ s.state = state ∧ s.partner = q := by
  unfold phase
  cases r.find t with
  | none | some => simp

@[simp] theorem phase_invalid (r : Rendezvous) : r.phase invalidThread = none := by simp [phase]

theorem phase_eq_none : r.phase t = none ↔ r.find t = none := by simp [phase]

theorem waits_iff_phase :
    r.Waits t ↔ r.phase t = some (.receiveBlocked, invalidThread) := phase_eq_some.symm

/-- Reading the phases off a description of the slots. -/
theorem phase_of_find_eq (h : ∀ u, r'.find u = if u = a then some s else r.find u) (u : ThreadId) :
    r'.phase u = if u = a then some (s.state, s.partner) else r.phase u := by
  unfold phase
  rw [h u]
  split_ifs <;> rfl

theorem phase_createIn {p : Priority} (h : r.createIn state t p = (r', .ok ())) :
    r.phase t = none ∧ ∀ u, r'.phase u =
      if u = t then some (state, invalidThread) else r.phase u := by
  refine ⟨phase_eq_none.mpr (createIn_ok h).2.1, ?_⟩
  intro u
  split_ifs with hu
  · rw [hu, phase_of_find (find_createIn_self h)]
  · rw [phase, phase, find_createIn_ne h hu]

theorem phase_startThread (h : r.startThread a = (r', .ok ())) :
    ∃ q, r.phase a = some (.admitted, q) ∧ ∀ u, r'.phase u =
      if u = a then some (.ready, q) else r.phase u := by
  obtain ⟨sa, ha, hState, hFind⟩ := find_startThread h
  exact ⟨sa.partner, by rw [phase_of_find ha, hState], phase_of_find_eq hFind⟩

theorem phase_blockSend (h : r.blockSend a b = (r', .ok ())) :
    ∃ q, r.phase a = some (.ready, q) ∧ a ≠ b ∧ ∀ u, r'.phase u =
      if u = a then some (.sendBlocked, b) else r.phase u := by
  obtain ⟨sa, ha, hState, hab, -, hFind⟩ := find_blockSend h
  exact ⟨sa.partner, by rw [phase_of_find ha, hState], hab, phase_of_find_eq hFind⟩

theorem phase_waitReceive (h : r.waitReceive a = (r', .ok ())) :
    r.phase a = some (.ready, invalidThread) ∧ ∀ u, r'.phase u =
      if u = a then some (.receiveBlocked, invalidThread) else r.phase u := by
  obtain ⟨sa, ha, hState, hPeer, hFind⟩ := find_waitReceive h
  refine ⟨by rw [phase_of_find ha, hState, hPeer], ?_⟩
  intro u
  rw [phase_of_find_eq hFind u, hPeer]

theorem phase_deliverWaitingReceiver (h : r.deliverWaitingReceiver a b = (r', .ok ())) :
    ∃ q, r.phase a = some (.ready, q) ∧ r.phase b = some (.receiveBlocked, invalidThread) ∧
      a ≠ b ∧ ∀ u, r'.phase u =
        if u = b then some (.ready, a)
        else if u = a then some (.replyBlocked, b) else r.phase u := by
  obtain ⟨sa, sb, ha, hb, hReady, hWait, hPeer, hab, hFind⟩ := find_deliverWaitingReceiver h
  refine ⟨sa.partner, by rw [phase_of_find ha, hReady],
    by rw [phase_of_find hb, hWait, hPeer], hab, ?_⟩
  intro u
  unfold phase
  rw [hFind u]
  split_ifs <;> rfl

theorem phase_acceptSender (h : r.acceptSender a b = (r', .ok ())) :
    (∃ q, r.phase a = some (.ready, q)) ∧ r.phase b = some (.sendBlocked, a) ∧ a ≠ b ∧
      ∀ u, r'.phase u = if u = b then some (.replyBlocked, a) else r.phase u := by
  obtain ⟨sa, sb, ha, hb, hReady, hBlocked, hPeer, hab, hFind⟩ := find_acceptSender h
  refine ⟨⟨sa.partner, by rw [phase_of_find ha, hReady]⟩,
    by rw [phase_of_find hb, hBlocked, hPeer], hab, ?_⟩
  intro u
  unfold phase
  rw [hFind u]
  split_ifs with hub hua
  · rw [Option.map_some, hPeer]
  · rw [hua, ha]
    rfl
  · rfl

theorem phase_collect {sa : Slot} (ha : r.find a = some sa) (u : ThreadId) :
    ((r.modify a fun s => { s with wake := .none }).modify a
        fun s => { s with partner := invalidThread }).phase u =
      if u = a then some (sa.state, invalidThread) else r.phase u :=
  phase_of_find_eq (s := { sa with wake := .none, partner := invalidThread }) (find_collect ha) u

theorem phase_reply (h : r.reply a b = (r', .ok ())) :
    r.phase b = some (.replyBlocked, a) ∧ a ≠ b ∧ ∀ u, r'.phase u =
      if u = b then some (.ready, invalidThread) else r.phase u := by
  obtain ⟨sb, hb, hBlocked, hPeer, hab, hFind⟩ := find_reply h
  exact ⟨by rw [phase_of_find hb, hBlocked, hPeer], hab, phase_of_find_eq hFind⟩

theorem phase_endReceive {w : WakeReason} (h : r.endReceive w a = (r', .ok ())) :
    r.phase a = some (.receiveBlocked, invalidThread) ∧ ∀ u, r'.phase u =
      if u = a then some (.ready, invalidThread) else r.phase u := by
  obtain ⟨sa, ha, hState, hPeer, hFind⟩ := find_endReceive h
  refine ⟨by rw [phase_of_find ha, hState, hPeer], ?_⟩
  intro u
  rw [phase_of_find_eq hFind u, hPeer]

theorem phase_takeDeadlineExpiry (r : Rendezvous) (a : ThreadId) :
    (r.takeDeadlineExpiry a).1.phase = r.phase := by
  funext u
  rcases takeDeadlineExpiry_eq r a with h | ⟨-, h⟩
  · rw [h]
  rw [h]
  unfold phase
  rw [find_clearWake]
  split_ifs with hu
  · rw [hu, Option.map_map]
    rfl
  · rfl

theorem phase_cancelCall (h : r.cancelCall a b = (r', .ok ())) (hab : a ≠ b) :
    (r.phase a = some (.sendBlocked, b) ∨ r.phase a = some (.replyBlocked, b)) ∧ ∀ u, r'.phase u =
        if u = a then some (.ready, invalidThread)
        else if u = b ∧ r.phase b = some (.ready, a) then some (.ready, invalidThread)
        else r.phase u := by
  obtain ⟨sa, sb, ha, hb, hWait, hFind⟩ := find_cancelCall h hab
  refine ⟨?_, ?_⟩
  · rw [phase_of_find ha]
    obtain ⟨hState | hState, hPeer⟩ := Slot.waitingOn_iff.mp hWait
    · exact .inl (by rw [hState, hPeer])
    · exact .inr (by rw [hState, hPeer])
  intro u
  have hPhase : r.phase b = some (.ready, a) ↔ sb.state = .ready ∧ sb.partner = a := by
    simp [phase_of_find hb]
  simp only [hPhase]
  unfold phase
  rw [hFind u]
  by_cases hua : u = a
  · simp [hua]
  by_cases hub : u = b
  · subst hub
    by_cases hHeld : sb.state = .ready ∧ sb.partner = a
    · simp [hua, hHeld.1, hHeld.2]
    · simp [hua, hHeld, hb]
  · simp [hua, hub]

theorem phase_exitThread {n : Nat} (hr : r.Distinct) (h : r.exitThread t = (r', .ok n))
    (u : ThreadId) :
    r'.phase u =
      if u = t then none
      else if r.phase u = some (.sendBlocked, t) ∨ r.phase u = some (.replyBlocked, t) ∨
          r.phase u = some (.receiveBlocked, t) then some (.ready, invalidThread)
      else r.phase u := by
  split_ifs with hu hBlocked
  · rw [hu, phase, find_exitThread_self hr h]
    rfl
  · simp only [phase_eq_some] at hBlocked
    obtain ⟨s, hs, hOn⟩ : ∃ s, r.find u = some s ∧ s.blockedOn t = true := by
      rcases hBlocked with ⟨s, hs, h₁, h₂⟩ | ⟨s, hs, h₁, h₂⟩ | ⟨s, hs, h₁, h₂⟩
      · exact ⟨s, hs, Slot.blockedOn_iff.mpr ⟨.inl h₁, h₂⟩⟩
      · exact ⟨s, hs, Slot.blockedOn_iff.mpr ⟨.inr (.inl h₁), h₂⟩⟩
      · exact ⟨s, hs, Slot.blockedOn_iff.mpr ⟨.inr (.inr h₁), h₂⟩⟩
    obtain ⟨hThr, hOcc⟩ := thread_of_find hs
    rw [phase, find_exitThread_ne h hu, hs]
    simp [Slot.release, hThr, hOcc, hu, hOn]
  · rw [phase, phase, find_exitThread_ne h hu]
    cases hs : r.find u with
    | none => rfl
    | some s =>
      have hNot : ¬s.blockedOn t = true := by
        rw [Slot.blockedOn_iff]
        rintro ⟨hState, hPeer⟩
        apply hBlocked
        rw [phase_of_find hs, hPeer]
        rcases hState with hState | hState | hState <;> simp [hState]
      simp [Slot.release, hNot]

end Rendezvous

namespace IpcEndpointTable

open Rendezvous

/-- What cancelling calls to `server` may do to the phases: some of the
callers in `who` are released, and `server` forgets one of them. -/
def Cancelled (who : ThreadId → Prop) (server : ThreadId) (r r' : Rendezvous) : Prop :=
  ∀ u, r'.phase u = r.phase u ∨
    (who u ∧ (r.phase u = some (.sendBlocked, server) ∨ r.phase u = some (.replyBlocked, server)) ∧
      r'.phase u = some (.ready, invalidThread)) ∨
    (u = server ∧ (∃ q, who q ∧ r.phase u = some (.ready, q)) ∧
      r'.phase u = some (.ready, invalidThread))

theorem cancelled_cancelCalls {endpoint : IpcEndpoint} {pending : List PendingSlot}
    {server : ThreadId} {who : ThreadId → Prop}
    (hCalls : ∀ p ∈ pending, p.active = true → p.endpoint = endpoint →
      p.server = server ∧ p.caller ≠ server ∧ who p.caller) (r : Rendezvous) :
    Cancelled who server r (cancelCalls endpoint pending r) := by
  apply cancelCalls_induction (P := fun r' => Cancelled who server r r')
  · intro u
    exact .inl rfl
  intro r₁ p hMem hActive hEp h
  obtain ⟨hSrv, hne, hWho⟩ := hCalls p hMem hActive hEp
  rcases hCancel : r₁.cancelCall p.caller p.server with ⟨r₂, e | ⟨⟩⟩
  · rw [cancelCall_error hCancel]
    exact h
  rw [hSrv] at hCancel
  obtain ⟨hBlocked, hPhase⟩ := phase_cancelCall hCancel hne
  have hCaller : p.caller ≠ invalidThread := by
    intro h0
    rw [h0] at hBlocked
    simp at hBlocked
  intro u
  rw [hPhase u]
  split_ifs with hCallerCase hSrvCase
  · subst hCallerCase
    right
    left
    refine ⟨hWho, ?_, rfl⟩
    rcases h p.caller with hSame | ⟨-, -, hReady⟩ | ⟨hEq, -⟩
    · rwa [hSame] at hBlocked
    · simp [hReady] at hBlocked
    · exact absurd hEq hne
  · obtain ⟨rfl, hHeld⟩ := hSrvCase
    right
    right
    refine ⟨rfl, ⟨p.caller, hWho, ?_⟩, rfl⟩
    rcases h u with hSame | ⟨-, -, hReady⟩ | ⟨-, -, hReady⟩
    · rwa [hSame] at hHeld
    all_goals
      rw [hReady] at hHeld
      exact absurd (congrArg Prod.snd (Option.some.inj hHeld)).symm hCaller
  · exact h u

end IpcEndpointTable

end Enml.OsKernel
