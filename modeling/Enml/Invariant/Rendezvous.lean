import Enml.OsKernel.Rendezvous

/-! What each rendezvous operation does, read through `find`. Later modules
cite these facts and never open an operation again. -/
namespace Enml.OsKernel.Rendezvous

open Enml.Core SlotTable Slot

variable {f : Slot → Slot} {u : ThreadId} {t : ThreadId}

/-- The threads that occupy a slot, in table order. -/
def ids (r : Rendezvous) : List ThreadId := keys key r.slots

/-- Every thread occupies one slot and no slot is taken by the invalid id. -/
structure Distinct (r : Rendezvous) : Prop where
  nodup : r.ids.Nodup
  valid : invalidThread ∉ r.ids

theorem find_eq_lookup (r : Rendezvous) (ht : t ≠ invalidThread) :
    r.find t = lookup key t r.slots := by
  rw [find, if_neg ht]

@[simp] theorem find_invalid (r : Rendezvous) : r.find invalidThread = none := by
  rw [find, if_pos rfl]

variable {r r' : Rendezvous} {s : Slot} {state : ThreadState} {p : Priority}

theorem ne_invalid_of_find (h : r.find t = some s) : t ≠ invalidThread := by
  rintro rfl
  simp at h

theorem mem_of_find (h : r.find t = some s) : s ∈ r.slots ∧ s.key = some t := by
  rw [find_eq_lookup r (ne_invalid_of_find h)] at h
  exact mem_of_lookup h

theorem thread_of_find (h : r.find t = some s) : s.thread = t ∧ s.occupied = true := by
  have hKey := (mem_of_find h).2
  unfold key at hKey
  split_ifs at hKey with hOcc
  exact ⟨Option.some.inj hKey, hOcc⟩

theorem find_of_mem (hr : r.Distinct) {s : Slot} (hMem : s ∈ r.slots)
    (hKey : s.key = some t) : r.find t = some s := by
  have ht : t ≠ invalidThread := by
    rintro rfl
    exact hr.valid (mem_keys_iff.mpr ⟨s, hMem, hKey⟩)
  rw [find_eq_lookup r ht]
  exact (lookup_eq_some_iff hr.nodup).mpr ⟨hMem, hKey⟩

theorem find_isSome_iff (hr : r.Distinct) : (r.find t).isSome ↔ t ∈ r.ids := by
  rcases eq_or_ne t invalidThread with rfl | ht
  · simp [hr.valid]
  · rw [find_eq_lookup r ht]
    exact lookup_isSome_iff

theorem Slot.waitingOn_iff :
    s.waitingOn t = true ↔ (s.state = .sendBlocked ∨ s.state = .replyBlocked) ∧ s.partner = t := by
  simp [waitingOn]

theorem Slot.blockedOn_iff :
    s.blockedOn t = true ↔
      (s.state = .sendBlocked ∨ s.state = .replyBlocked ∨ s.state = .receiveBlocked) ∧
        s.partner = t := by
  simp [blockedOn, or_assoc]

theorem ids_modify (r : Rendezvous) (t : ThreadId) (hf : ∀ s, (f s).key = s.key) :
    (r.modify t f).ids = r.ids :=
  keys_modify fun s hs => (hf s).trans hs

theorem Distinct.modify (hr : r.Distinct) (t : ThreadId) (hf : ∀ s, (f s).key = s.key) :
    (r.modify t f).Distinct := by
  constructor
  · rw [ids_modify r t hf]
    exact hr.nodup
  · rw [ids_modify r t hf]
    exact hr.valid

theorem find_modify (r : Rendezvous) (t u : ThreadId) (hf : ∀ s, (f s).key = s.key) :
    (r.modify t f).find u = if u = t then (r.find t).map f else r.find u := by
  rcases eq_or_ne u invalidThread with rfl | hu
  · split_ifs with h
    · simp [← h]
    · simp
  rw [find_eq_lookup _ hu, find_eq_lookup r hu]
  split_ifs with h
  · subst h
    rw [find_eq_lookup r hu]
    exact lookup_modify_self fun s hs => (hf s).trans hs
  apply lookup_modify_ne h
  intro s hs hs'
  rw [hf s, hs] at hs'
  exact h (Option.some.inj hs').symm

@[simp] theorem length_modify (r : Rendezvous) (t : ThreadId) (f : Slot → Slot) :
    (r.modify t f).slots.length = r.slots.length := by
  simp [modify]

theorem createIn_error {e : Error} (h : r.createIn state t p = (r', .error e)) : r' = r := by
  unfold createIn at h
  split at h
  · cases h; rfl
  split at h
  · cases h; rfl
  split at h
  · cases h
  · cases h; rfl

theorem createIn_ok (h : r.createIn state t p = (r', .ok ())) :
    t ≠ invalidThread ∧ r.find t = none ∧ insert key
        { thread := t, state, partner := invalidThread, wake := .none, base := p,
          occupied := true } r.slots = some r'.slots ∧ r'.occupied = r.occupied + 1 := by
  unfold createIn at h
  split at h
  · cases h
  rename_i ht
  split at h
  · cases h
  rename_i hFind
  split at h
  · rename_i hIns
    cases h
    exact ⟨ht, by simpa using hFind, hIns, rfl⟩
  · cases h

section Created

theorem ids_createIn (h : r.createIn state t p = (r', .ok ())) : r'.ids.Perm (t :: r.ids) :=
  keys_insert rfl (createIn_ok h).2.2.1

theorem Distinct.createIn (hr : r.Distinct) (h : r.createIn state t p = (r', .ok ())) :
    r'.Distinct := by
  obtain ⟨ht, hFind, -, -⟩ := createIn_ok h
  have hPerm := ids_createIn h
  have hNot : t ∉ r.ids := by
    rw [← find_isSome_iff hr, hFind]
    simp
  constructor
  · exact hPerm.nodup_iff.mpr (List.nodup_cons.mpr ⟨hNot, hr.nodup⟩)
  rw [hPerm.mem_iff, List.mem_cons]
  rintro (h0 | h0)
  · exact ht h0.symm
  · exact hr.valid h0

theorem find_createIn_self (h : r.createIn state t p = (r', .ok ())) :
    r'.find t = some { thread := t, state, partner := invalidThread, wake := .none, base := p,
                       occupied := true } := by
  obtain ⟨ht, hFind, hIns, -⟩ := createIn_ok h
  rw [find_eq_lookup _ ht] at hFind ⊢
  exact lookup_insert_self rfl hFind hIns

theorem find_createIn_ne (h : r.createIn state t p = (r', .ok ())) (hu : u ≠ t) :
    r'.find u = r.find u := by
  obtain ⟨-, -, hIns, -⟩ := createIn_ok h
  rcases eq_or_ne u invalidThread with rfl | hu0
  · simp
  · rw [find_eq_lookup _ hu0, find_eq_lookup _ hu0]
    exact lookup_insert_ne rfl hu hIns

theorem length_createIn (h : r.createIn state t p = (r', .ok ())) :
    r'.slots.length = r.slots.length :=
  length_insert (createIn_ok h).2.2.1

end Created

theorem key_release (t : ThreadId) (s : Slot) : (s.release t).key = s.key := by
  unfold release
  split <;> rfl

theorem exitThread_error {r' : Rendezvous} {e : Error}
    (h : r.exitThread t = (r', .error e)) : r' = r ∧ r.find t = none := by
  unfold exitThread at h
  split at h
  · rename_i hFind
    cases h
    exact ⟨rfl, hFind⟩
  · cases h

theorem exitThread_ok {r' : Rendezvous} {n : Nat} (h : r.exitThread t = (r', .ok n)) :
    (r.find t).isSome ∧
      r'.slots = SlotTable.modify Slot.key t Slot.vacate (r.slots.map (Slot.release t)) ∧
      r'.occupied = r.occupied - 1 := by
  unfold exitThread at h
  split at h
  · cases h
  · rename_i hFind
    cases h
    exact ⟨by simp [hFind], rfl, rfl⟩

theorem exitThread_of_find_none (h : r.find t = none) :
    r.exitThread t = (r, .error (kernelError RendezvousErrors.unknownThread)) := by
  rw [exitThread, h]

section Exited

variable {n : Nat}

theorem ids_exitThread (h : r.exitThread t = (r', .ok n)) : r'.ids = r.ids.erase t := by
  obtain ⟨-, hSlots, -⟩ := exitThread_ok h
  rw [ids, hSlots, keys_modify_free (fun s _ => rfl), keys_map (key_release t)]
  rfl

theorem Distinct.exitThread (hr : r.Distinct) (h : r.exitThread t = (r', .ok n)) : r'.Distinct := by
  have hIds := ids_exitThread h
  constructor
  · rw [hIds]
    exact hr.nodup.erase t
  · rw [hIds]
    exact fun h0 => hr.valid (List.mem_of_mem_erase h0)

theorem find_exitThread_self (hr : r.Distinct) (h : r.exitThread t = (r', .ok n)) :
    r'.find t = none := by
  have hNot : t ∉ r'.ids := by
    rw [ids_exitThread h]
    exact hr.nodup.not_mem_erase
  rw [← find_isSome_iff (hr.exitThread h)] at hNot
  simpa using hNot

theorem find_exitThread_ne (h : r.exitThread t = (r', .ok n)) (hu : u ≠ t) :
    r'.find u = (r.find u).map (release t) := by
  obtain ⟨-, hSlots, -⟩ := exitThread_ok h
  rcases eq_or_ne u invalidThread with rfl | hu0
  · simp
  · rw [find_eq_lookup _ hu0, find_eq_lookup _ hu0, hSlots,
      SlotTable.lookup_modify_ne hu (fun s _ => by simp [Slot.vacate, Slot.key]),
      lookup_map (key_release t)]

theorem length_exitThread (h : r.exitThread t = (r', .ok n)) :
    r'.slots.length = r.slots.length := by
  rw [(exitThread_ok h).2.1]
  simp

end Exited

variable {a b : ThreadId} {e : Error} {w : WakeReason}

theorem blockSend_error (h : r.blockSend a b = (r', .error e)) : r' = r := by
  unfold blockSend at h
  split at h
  · cases h; rfl
  split at h
  · cases h; rfl
  split at h
  · split at h <;> cases h
    rfl
  · cases h; rfl

theorem blockSend_ok (h : r.blockSend a b = (r', .ok ())) :
    a ≠ b ∧ ∃ sa sb, r.find a = some sa ∧ r.find b = some sb ∧ sa.state = .ready ∧
      r' = r.modify a fun s => { s with wake := .none, state := .sendBlocked, partner := b } := by
  unfold blockSend at h
  split at h
  · cases h
  split at h
  · cases h
  rename_i hab
  split at h
  · rename_i sa sb ha hb
    split at h
    · cases h
    · rename_i hReady
      cases h
      exact ⟨hab, sa, sb, ha, hb, by simpa using hReady, rfl⟩
  · cases h

theorem waitReceive_error (h : r.waitReceive a = (r', .error e)) : r' = r := by
  unfold waitReceive at h
  split at h
  · cases h; rfl
  split at h
  · cases h; rfl
  split at h <;> cases h
  rfl

theorem waitReceive_ok (h : r.waitReceive a = (r', .ok ())) :
    ∃ sa, r.find a = some sa ∧ sa.state = .ready ∧ sa.partner = invalidThread ∧
      r' = r.modify a fun s => { s with wake := .none, state := .receiveBlocked } := by
  unfold waitReceive at h
  split at h
  · cases h
  split at h
  · cases h
  rename_i sa ha
  split at h
  · cases h
  rename_i hGuard
  cases h
  simp only [not_or, not_not, ne_eq] at hGuard
  exact ⟨sa, ha, hGuard.1, hGuard.2, rfl⟩

theorem deliverWaitingReceiver_error (h : r.deliverWaitingReceiver a b = (r', .error e)) :
    r' = r := by
  unfold deliverWaitingReceiver at h
  split at h
  · cases h; rfl
  split at h
  · cases h; rfl
  split at h
  · split at h
    · cases h; rfl
    split at h <;> cases h
    rfl
  · cases h; rfl

theorem deliverWaitingReceiver_ok (h : r.deliverWaitingReceiver a b = (r', .ok ())) :
    a ≠ b ∧ ∃ sa sb, r.find a = some sa ∧ r.find b = some sb ∧ sa.state = .ready ∧
      sb.state = .receiveBlocked ∧ sb.partner = invalidThread ∧
      r' = (r.modify a fun s =>
          { s with wake := .none, state := .replyBlocked, partner := b }).modify b
        fun s => { s with state := .ready, partner := a } := by
  unfold deliverWaitingReceiver at h
  split at h
  · cases h
  split at h
  · cases h
  rename_i hab
  split at h
  · rename_i sa sb ha hb
    split at h
    · cases h
    rename_i hReady
    split at h
    · cases h
    rename_i hGuard
    cases h
    simp only [not_or, not_not, ne_eq] at hGuard
    exact ⟨hab, sa, sb, ha, hb, by simpa using hReady, hGuard.1, hGuard.2, rfl⟩
  · cases h

theorem acceptSender_error (h : r.acceptSender a b = (r', .error e)) : r' = r := by
  unfold acceptSender at h
  split at h
  · cases h; rfl
  split at h
  · cases h; rfl
  split at h
  · split at h
    · cases h; rfl
    split at h <;> cases h
    rfl
  · cases h; rfl

theorem acceptSender_ok (h : r.acceptSender a b = (r', .ok ())) :
    a ≠ b ∧ ∃ sa sb, r.find a = some sa ∧ r.find b = some sb ∧ sa.state = .ready ∧
      sb.state = .sendBlocked ∧ sb.partner = a ∧
      r' = (r.modify a fun s => { s with wake := .none }).modify b
        fun s => { s with state := .replyBlocked } := by
  unfold acceptSender at h
  split at h
  · cases h
  split at h
  · cases h
  rename_i hab
  split at h
  · rename_i sa sb ha hb
    split at h
    · cases h
    rename_i hReady
    split at h
    · cases h
    rename_i hGuard
    cases h
    simp only [not_or, not_not, ne_eq] at hGuard
    exact ⟨hab, sa, sb, ha, hb, by simpa using hReady, hGuard.1, hGuard.2, rfl⟩
  · cases h

theorem endReceive_error (h : r.endReceive w a = (r', .error e)) :
    r' = r ∧ ∀ sa, r.find a = some sa →
      ¬(sa.state = .receiveBlocked ∧ sa.partner = invalidThread) := by
  unfold endReceive at h
  split at h
  · rename_i ha
    cases h
    subst ha
    exact ⟨rfl, by simp⟩
  split at h
  · rename_i hNone
    cases h
    exact ⟨rfl, by simp [hNone]⟩
  rename_i ha
  split at h
  · rename_i hGuard
    cases h
    refine ⟨rfl, ?_⟩
    intro s hs
    rw [ha] at hs
    cases hs
    tauto
  · cases h

theorem endReceive_ok (h : r.endReceive w a = (r', .ok ())) :
    ∃ sa, r.find a = some sa ∧ sa.state = .receiveBlocked ∧ sa.partner = invalidThread ∧
      r' = r.modify a fun s => { s with state := .ready, wake := w } := by
  unfold endReceive at h
  split at h
  · cases h
  split at h
  · cases h
  rename_i sa ha
  split at h
  · cases h
  rename_i hGuard
  cases h
  simp only [not_or, not_not, ne_eq] at hGuard
  exact ⟨sa, ha, hGuard.1, hGuard.2, rfl⟩

theorem endReceive_of_waiting (w : WakeReason) {a : ThreadId} {sa : Slot}
    (ha : r.find a = some sa) (hState : sa.state = .receiveBlocked)
    (hPeer : sa.partner = invalidThread) :
    r.endReceive w a = (r.modify a fun s => { s with state := .ready, wake := w }, .ok ()) := by
  rw [endReceive, if_neg (ne_invalid_of_find ha), ha]
  simp [hState, hPeer]

theorem reply_error (h : r.reply a b = (r', .error e)) : r' = r := by
  unfold reply at h
  split at h
  · cases h; rfl
  split at h
  · cases h; rfl
  split at h
  · split at h <;> cases h
    rfl
  · cases h; rfl

theorem reply_ok (h : r.reply a b = (r', .ok ())) :
    a ≠ b ∧ ∃ sa sb, r.find a = some sa ∧ r.find b = some sb ∧ sb.state = .replyBlocked ∧
      sb.partner = a ∧
      r' = r.modify b fun s =>
        { s with state := .ready, partner := invalidThread, wake := .replied } := by
  unfold reply at h
  split at h
  · cases h
  split at h
  · cases h
  rename_i hab
  split at h
  · rename_i sa sb ha hb
    split at h
    · cases h
    rename_i hGuard
    cases h
    simp only [not_or, not_not, ne_eq] at hGuard
    exact ⟨hab, sa, sb, ha, hb, hGuard.1, hGuard.2, rfl⟩
  · cases h

theorem startThread_error (h : r.startThread a = (r', .error e)) : r' = r := by
  unfold startThread at h
  split at h
  · cases h; rfl
  split at h <;> cases h
  rfl

theorem startThread_ok (h : r.startThread a = (r', .ok ())) :
    ∃ sa, r.find a = some sa ∧ sa.state = .admitted ∧
      r' = r.modify a fun s => { s with state := .ready } := by
  unfold startThread at h
  split at h
  · cases h
  rename_i sa ha
  split at h
  · cases h
  · rename_i hState
    cases h
    exact ⟨sa, ha, by simpa using hState, rfl⟩

/-- Taking an expiry only ever clears a wake reason. -/
theorem takeDeadlineExpiry_eq (r : Rendezvous) (a : ThreadId) :
    (r.takeDeadlineExpiry a).1 = r ∨ a ≠ invalidThread ∧
      (r.takeDeadlineExpiry a).1 = r.modify a fun s => { s with wake := .none } := by
  unfold takeDeadlineExpiry
  split
  · exact .inl rfl
  rename_i ha
  split
  · exact .inl rfl
  split
  · exact .inl rfl
  · exact .inr ⟨ha, rfl⟩

theorem cancelCall_error (h : r.cancelCall a b = (r', .error e)) : r' = r := by
  unfold cancelCall at h
  split at h
  · cases h; rfl
  split at h
  · split at h <;> cases h
    rfl
  · cases h; rfl

theorem cancelCall_ok (h : r.cancelCall a b = (r', .ok ())) :
    ∃ sa sb, r.find a = some sa ∧ r.find b = some sb ∧ sa.waitingOn b = true ∧
      r' = (r.modify a fun s =>
          { s with state := .ready, partner := invalidThread, wake := .endpointRetired }).modify b
        fun s => if s.state = .ready ∧ s.partner = a then { s with partner := invalidThread }
          else s := by
  unfold cancelCall at h
  split at h
  · cases h
  split at h
  · rename_i sa sb ha hb
    split at h
    · cases h
    · rename_i hGuard
      cases h
      exact ⟨sa, sb, ha, hb, by simpa using hGuard, rfl⟩
  · cases h

/-- A call on a server that does not exist is never cancelled. -/
theorem cancelCall_of_find_none (h : r.find b = none) : (r.cancelCall a b).1 = r := by
  cases hr : r.cancelCall a b with
  | mk _ result =>
    cases result with
    | error => exact cancelCall_error hr
    | ok =>
      obtain ⟨-, sb, -, hb, -, -⟩ := cancelCall_ok hr
      rw [h] at hb
      cases hb

theorem find_modify_of_find {s : Slot} (hs : r.find t = some s)
    (hf : ∀ s, (f s).key = s.key) (u : ThreadId) :
    (r.modify t f).find u = if u = t then some (f s) else r.find u := by
  rw [find_modify r t u hf, hs]
  rfl

theorem find_blockSend (h : r.blockSend a b = (r', .ok ())) :
    ∃ sa, r.find a = some sa ∧ sa.state = .ready ∧ a ≠ b ∧ (r.find b).isSome ∧ ∀ u, r'.find u =
      if u = a then some { sa with wake := .none, state := .sendBlocked, partner := b }
      else r.find u := by
  obtain ⟨hab, sa, sb, ha, hb, hReady, rfl⟩ := blockSend_ok h
  refine ⟨sa, ha, hReady, hab, by simp [hb], ?_⟩
  intro u
  rw [find_modify_of_find ha]
  intro s
  rfl

theorem find_waitReceive (h : r.waitReceive a = (r', .ok ())) :
    ∃ sa, r.find a = some sa ∧ sa.state = .ready ∧ sa.partner = invalidThread ∧ ∀ u, r'.find u =
      if u = a then some { sa with wake := .none, state := .receiveBlocked } else r.find u := by
  obtain ⟨sa, ha, hReady, hPeer, rfl⟩ := waitReceive_ok h
  refine ⟨sa, ha, hReady, hPeer, ?_⟩
  intro u
  rw [find_modify_of_find ha]
  intro s
  rfl

theorem find_deliverWaitingReceiver (h : r.deliverWaitingReceiver a b = (r', .ok ())) :
    ∃ sa sb, r.find a = some sa ∧ r.find b = some sb ∧ sa.state = .ready ∧
      sb.state = .receiveBlocked ∧ sb.partner = invalidThread ∧ a ≠ b ∧ ∀ u, r'.find u =
      if u = b then some { sb with state := .ready, partner := a }
      else if u = a then some { sa with wake := .none, state := .replyBlocked, partner := b }
      else r.find u := by
  obtain ⟨hab, sa, sb, ha, hb, hReady, hWait, hPeer, rfl⟩ := deliverWaitingReceiver_ok h
  refine ⟨sa, sb, ha, hb, hReady, hWait, hPeer, hab, ?_⟩
  intro u
  rw [find_modify_of_find (s := sb), find_modify_of_find ha]
  · intro s
    rfl
  · rw [find_modify_of_find ha, if_neg hab.symm, hb]
    intro s
    rfl
  · intro s
    rfl

theorem find_acceptSender (h : r.acceptSender a b = (r', .ok ())) :
    ∃ sa sb, r.find a = some sa ∧ r.find b = some sb ∧ sa.state = .ready ∧
      sb.state = .sendBlocked ∧ sb.partner = a ∧ a ≠ b ∧ ∀ u, r'.find u =
      if u = b then some { sb with state := .replyBlocked }
      else if u = a then some { sa with wake := .none } else r.find u := by
  obtain ⟨hab, sa, sb, ha, hb, hReady, hBlocked, hPeer, rfl⟩ := acceptSender_ok h
  refine ⟨sa, sb, ha, hb, hReady, hBlocked, hPeer, hab, ?_⟩
  intro u
  rw [find_modify_of_find (s := sb), find_modify_of_find ha]
  · intro s
    rfl
  · rw [find_modify_of_find ha, if_neg hab.symm, hb]
    intro s
    rfl
  · intro s
    rfl

/-- Collecting a delivery clears the receiver's wake reason and partner. -/
theorem find_collect {sa : Slot} (ha : r.find a = some sa) (u : ThreadId) :
    ((r.modify a fun s => { s with wake := .none }).modify a
        fun s => { s with partner := invalidThread }).find u =
      if u = a then some { sa with wake := .none, partner := invalidThread } else r.find u := by
  rw [find_modify_of_find (s := { sa with wake := .none }), find_modify_of_find ha]
  · split_ifs <;> rfl
  · intro s
    rfl
  · rw [find_modify_of_find ha, if_pos rfl]
    intro s
    rfl
  · intro s
    rfl

theorem find_reply (h : r.reply a b = (r', .ok ())) :
    ∃ sb, r.find b = some sb ∧ sb.state = .replyBlocked ∧ sb.partner = a ∧ a ≠ b ∧
      ∀ u, r'.find u = if u = b then
        some { sb with state := .ready, partner := invalidThread, wake := .replied }
      else r.find u := by
  obtain ⟨hab, sa, sb, -, hb, hBlocked, hPeer, rfl⟩ := reply_ok h
  refine ⟨sb, hb, hBlocked, hPeer, hab, ?_⟩
  intro u
  rw [find_modify_of_find hb]
  intro s
  rfl

theorem find_startThread (h : r.startThread a = (r', .ok ())) :
    ∃ sa, r.find a = some sa ∧ sa.state = .admitted ∧ ∀ u, r'.find u =
      if u = a then some { sa with state := .ready } else r.find u := by
  obtain ⟨sa, ha, hState, rfl⟩ := startThread_ok h
  refine ⟨sa, ha, hState, ?_⟩
  intro u
  rw [find_modify_of_find ha]
  intro s
  rfl

theorem find_endReceive (h : r.endReceive w a = (r', .ok ())) :
    ∃ sa, r.find a = some sa ∧ sa.state = .receiveBlocked ∧ sa.partner = invalidThread ∧
      ∀ u, r'.find u = if u = a then some { sa with state := .ready, wake := w }
        else r.find u := by
  obtain ⟨sa, ha, hState, hPeer, rfl⟩ := endReceive_ok h
  refine ⟨sa, ha, hState, hPeer, ?_⟩
  intro u
  rw [find_modify_of_find ha]
  intro s
  rfl

theorem find_clearWake (r : Rendezvous) (a u : ThreadId) :
    (r.modify a fun s => { s with wake := .none }).find u =
      if u = a then (r.find a).map fun s => { s with wake := .none } else r.find u := by
  rw [find_modify]
  intro s
  rfl

theorem find_cancelCall (h : r.cancelCall a b = (r', .ok ())) (hab : a ≠ b) :
    ∃ sa sb, r.find a = some sa ∧ r.find b = some sb ∧ sa.waitingOn b = true ∧ ∀ u, r'.find u =
      if u = a then
        some { sa with state := .ready, partner := invalidThread, wake := .endpointRetired }
      else if u = b then
        some (if sb.state = .ready ∧ sb.partner = a then { sb with partner := invalidThread }
          else sb)
      else r.find u := by
  obtain ⟨sa, sb, ha, hb, hWait, rfl⟩ := cancelCall_ok h
  refine ⟨sa, sb, ha, hb, hWait, ?_⟩
  intro u
  rw [find_modify_of_find (s := sb), find_modify_of_find ha]
  · rcases eq_or_ne u b with rfl | hub
    · rw [if_pos rfl, if_neg hab.symm, if_pos rfl]
    · rw [if_neg hub, if_neg hub]
  · intro s
    rfl
  · rw [find_modify_of_find ha, if_neg hab.symm, hb]
    intro s
    rfl
  · intro s
    split <;> rfl

end Enml.OsKernel.Rendezvous
