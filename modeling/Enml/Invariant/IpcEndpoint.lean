import Enml.Invariant.Rendezvous
import Enml.OsKernel.IpcEndpoint

/-! What each endpoint operation does. A failed operation changes nothing that
is in use; a successful one is described by the writes it made. -/
namespace Enml.OsKernel.IpcEndpointTable

open Enml.Core SlotTable Rendezvous CompletedSlot

variable {f : EndpointSlot → EndpointSlot}
  {t t' : IpcEndpointTable} {s : EndpointSlot} {e' endpoint : IpcEndpoint} {i : Nat}
  {server caller : ThreadId} {e : Error} {r r' : Rendezvous} {space : AddressSpaceIdentity}
  {request response : IpcEnvelope} {call : PendingSlot} {handed : Rendezvous × Result Unit}
  {received : IpcReceived} {replySeal : IpcReplySeal}

theorem slotFor_eq_some {e : IpcEndpoint} :
    t.slotFor e = some s ↔ t.endpoints[e.slot.toNat]? = some s ∧ e.valid = true ∧
      s.active = true ∧ s.generation = e.generation := by
  unfold slotFor
  cases h : t.endpoints[e.slot.toNat]? with
  | none => simp
  | some =>
    simp only [Option.some.injEq]
    split_ifs with hGuard
    · simp only [Bool.or_eq_true, Bool.not_eq_true', bne_iff_ne, ne_eq] at hGuard
      constructor
      · intro hn
        cases hn
      · rintro ⟨rfl, hv, ha, hg⟩
        simp [hv, ha, hg] at hGuard
    · simp only [Bool.or_eq_true, Bool.not_eq_true', bne_iff_ne, ne_eq, not_or,
        Bool.not_eq_false, not_not] at hGuard
      constructor
      · intro hs
        cases hs
        exact ⟨rfl, hGuard.1.1, hGuard.1.2, hGuard.2⟩
      · rintro ⟨rfl, -⟩
        rfl

/-- Two live names of one slot are the same name. -/
theorem endpoint_eq_of_slotFor {e : IpcEndpoint} {s' : EndpointSlot} (h : t.slotFor e = some s)
    (h' : t.slotFor e' = some s') (hSlot : e.slot.toNat = e'.slot.toNat) : e = e' := by
  obtain ⟨hGet, -, -, hGen⟩ := slotFor_eq_some.mp h
  obtain ⟨hGet', -, -, hGen'⟩ := slotFor_eq_some.mp h'
  rw [hSlot, hGet'] at hGet
  cases hGet
  cases e
  cases e'
  simp only [IpcEndpoint.mk.injEq]
  exact ⟨UInt16.toNat_inj.mp hSlot, hGen.symm.trans hGen'⟩

/-- Rewriting one slot in a way that keeps its name readable. -/
theorem slotFor_modify (hEnds : t'.endpoints = t.endpoints.modify i f)
    (hf : ∀ s, (f s).active = s.active ∧ (f s).generation = s.generation) (e : IpcEndpoint) :
    t'.slotFor e = if e.slot.toNat = i then (t.slotFor e).map f else t.slotFor e := by
  unfold slotFor
  rw [hEnds, List.getElem?_modify]
  by_cases hi : i = e.slot.toNat
  · subst hi
    cases t.endpoints[e.slot.toNat]? with
    | none => simp
    | some s =>
      simp only [if_pos, Option.map_eq_map, Option.map_some, (hf s).1, (hf s).2]
      split_ifs <;> rfl
  · rw [if_neg (fun h => hi h.symm)]
    cases t.endpoints[e.slot.toNat]? with
    | none => rfl
    | some => simp [hi]

/-- Deactivating a slot ends every name of it. -/
theorem slotFor_close (hEnds : t'.endpoints = t.endpoints.modify i f)
    (hf : ∀ s, (f s).active = false) (e : IpcEndpoint) :
    t'.slotFor e = if e.slot.toNat = i then none else t.slotFor e := by
  unfold slotFor
  rw [hEnds, List.getElem?_modify]
  by_cases hi : i = e.slot.toNat
  · subst hi
    cases t.endpoints[e.slot.toNat]? with
    | none => simp
    | some s => simp [hf s]
  rw [if_neg (fun h => hi h.symm)]
  cases t.endpoints[e.slot.toNat]? with
  | none => rfl
  | some => simp [hi]

theorem createIn_spec {index : Nat} {slots slots' : List EndpointSlot}
    {created : Option IpcEndpoint} (h : createIn server index slots = (slots', created)) :
    (created = none ∧ slots' = slots) ∨
      ∃ i slot, slots[i]? = some slot ∧ slot.active = false ∧ slot.generation ≠ 0xFFFFFFFF ∧
        slots' = slots.set i { server, generation := slot.generation + 1, active := true,
                               receiveWaiting := false } ∧
        created = some { slot := UInt16.ofNat (index + i), generation := slot.generation + 1 } := by
  induction slots generalizing index slots' created with
  | nil =>
    cases h
    exact .inl ⟨rfl, rfl⟩
  | cons x rest ih =>
    unfold createIn at h
    split_ifs at h with hSkip
    · cases hRest : createIn server (index + 1) rest with
      | mk rest' created' =>
        rw [hRest] at h
        cases h
        rcases ih hRest with ⟨rfl, rfl⟩ | ⟨i, slot, hGet, hAct, hGen, hSet, hNew⟩
        · exact .inl ⟨rfl, rfl⟩
        · refine .inr ⟨i + 1, slot, by simpa using hGet, hAct, hGen, by simp [hSet], ?_⟩
          rw [hNew, Nat.add_assoc, Nat.add_comm 1 i]
    · cases h
      simp only [Bool.or_eq_true, beq_iff_eq, not_or, Bool.not_eq_true] at hSkip
      exact .inr ⟨0, x, rfl, hSkip.1, hSkip.2, rfl, rfl⟩

theorem create_error (h : t.create server = (t', .error e)) : t' = t := by
  unfold create at h
  split at h
  · cases h; rfl
  split at h
  · cases h; rfl
  · cases h

theorem create_ok {e : IpcEndpoint} (h : t.create server = (t', .ok e)) :
    server ≠ invalidThread ∧ ∃ i slot, t.endpoints[i]? = some slot ∧ slot.active = false ∧
      slot.generation ≠ 0xFFFFFFFF ∧
      e = { slot := UInt16.ofNat i, generation := slot.generation + 1 } ∧
      t' = { t with
        endpoints := t.endpoints.set i
          { server, generation := slot.generation + 1, active := true, receiveWaiting := false }
        active_ := t.active_ + 1 } := by
  unfold create at h
  split at h
  · cases h
  rename_i hSrv
  split at h
  · cases h
  rename_i hCreate
  cases h
  rcases createIn_spec hCreate with ⟨hNone, -⟩ | ⟨i, slot, hGet, hAct, hGen, hSet, hNew⟩
  · cases hNone
  · rw [Nat.zero_add] at hNew
    cases hNew
    exact ⟨hSrv, i, slot, hGet, hAct, hGen, rfl, by rw [hSet]⟩

/-- Creation leaves every live endpoint where it is. -/
theorem slotFor_create {e : IpcEndpoint} (h : t.create server = (t', .ok e))
    (hLive : t.slotFor e' = some s) : t'.slotFor e' = some s := by
  obtain ⟨-, i, slot, hGet, hAct, -, -, rfl⟩ := create_ok h
  obtain ⟨hGet', hv, ha, hg⟩ := slotFor_eq_some.mp hLive
  refine slotFor_eq_some.mpr ⟨?_, hv, ha, hg⟩
  have hne : i ≠ e'.slot.toNat := by
    rintro rfl
    rw [hGet] at hGet'
    cases hGet'
    simp [hAct] at ha
  simpa [List.getElem?_set_ne hne] using hGet'

theorem sendToEndpoint_error
    (h : t.sendToEndpoint caller space endpoint r request = ((t', r'), .error e)) :
    t' = t ∧ r' = r := by
  unfold sendToEndpoint at h
  iterate 3
    split at h
    · cases h; exact ⟨rfl, rfl⟩
  rename_i hOwner
  split at h
  · cases h; exact ⟨rfl, rfl⟩
  dsimp only at h
  split_ifs at h with hWaiting
  · split at h
    · rename_i e' hErr
      cases h
      refine ⟨rfl, ?_⟩
      exact deliverWaitingReceiver_error (Prod.ext rfl hErr)
    · cases h
  · split at h
    · rename_i hErr
      cases h
      refine ⟨rfl, ?_⟩
      exact blockSend_error (Prod.ext rfl hErr)
    · cases h

theorem sendToEndpoint_ok
    (h : t.sendToEndpoint caller space endpoint r request = ((t', r'), .ok ())) :
    ∃ owner pending, t.slotFor endpoint = some owner ∧ t.completedSlot caller = none ∧
      insert PendingSlot.key
        { endpoint, caller, server := owner.server, callerAddressSpace := space, request,
          active := true } t.pending = some pending ∧
      ((owner.receiveWaiting = true ∧ r.deliverWaitingReceiver caller owner.server = (r', .ok ())) ∨
        (owner.receiveWaiting = false ∧ r.blockSend caller owner.server = (r', .ok ()))) ∧
      t' = { t with
        endpoints := t.endpoints.modify endpoint.slot.toNat fun slot =>
          { slot with receiveWaiting := false }
        pending
        pendingCalls := t.pendingCalls + 1 } := by
  unfold sendToEndpoint at h
  split at h
  · cases h
  split at h
  · cases h
  rename_i hDone
  split at h
  · cases h
  rename_i owner hOwner
  split at h
  · cases h
  rename_i pending hIns
  have hDone : t.completedSlot caller = none := by simpa using hDone
  dsimp only at h
  split_ifs at h with hWaiting
  · split at h
    · cases h
    · rename_i hSent
      cases h
      exact ⟨owner, pending, hOwner, hDone, hIns, .inl ⟨hWaiting, Prod.ext rfl hSent⟩, rfl⟩
  · split at h
    · cases h
    · rename_i hSent
      cases h
      exact ⟨owner, pending, hOwner, hDone, hIns,
        .inr ⟨by simpa using hWaiting, Prod.ext rfl hSent⟩, rfl⟩

/-- The seal a receive by `server` makes for the call it takes. -/
def newSeal (t : IpcEndpointTable) (server : ThreadId) (space : AddressSpaceIdentity)
    (endpoint : IpcEndpoint) (call : PendingSlot) : IpcReplySeal :=
  { endpoint, transaction := t.nextTransaction, caller := call.caller, server,
    callerAddressSpace := call.callerAddressSpace, serverAddressSpace := space }

theorem sealCall_error (h : t.sealCall server space endpoint call r handed = ((t', r'), .error e))
    (hHanded : ∀ e', handed.2 = .error e' → handed.1 = r) : t' = t ∧ r' = r := by
  unfold sealCall at h
  split at h
  · cases h; exact ⟨rfl, rfl⟩
  dsimp only at h
  split at h
  · cases h; exact ⟨rfl, rfl⟩
  split at h
  · rename_i hErr
    cases h
    exact ⟨rfl, hHanded e rfl⟩
  · cases h

theorem sealCall_ok
    (h : t.sealCall server space endpoint call r handed = ((t', r'), .ok received)) :
    ∃ replies, t.nextTransaction ≠ 0 ∧ t.nextTransaction ≠ 0xFFFFFFFFFFFFFFFF ∧ insert ReplySlot.key
        { replySeal := t.newSeal server space endpoint call, active := true } t.replies =
          some replies ∧ handed = (r', .ok ()) ∧
      received = { caller := call.caller, reply := t.newSeal server space endpoint call,
                   request := call.request } ∧
      t' = { t with
        replies
        nextTransaction := t.nextTransaction + 1
        replySeals := t.replySeals + 1 } := by
  unfold sealCall at h
  split at h
  · cases h
  rename_i hNext
  simp only [not_or] at hNext
  dsimp only at h
  split at h
  · cases h
  rename_i replies hIns
  split at h
  · cases h
  · rename_i hOk
    cases h
    exact ⟨replies, hNext.1, hNext.2, hIns, rfl, rfl, rfl⟩

/-- Collecting a delivered sender succeeds exactly when the server is ready. -/
theorem consumeDelivered_eq {d : ThreadId} {s : Rendezvous.Slot} (hs : r.find server = some s)
    (hd : s.partner = d) (hd0 : d ≠ invalidThread) :
    consumeDelivered r server d =
      if s.state = .ready then
        ((r.modify server fun s => { s with wake := .none }).modify server
          fun s => { s with partner := invalidThread }, .ok ())
      else (r, .error (kernelError IpcErrors.pendingCallMissing)) := by
  have hne := ne_invalid_of_find hs
  subst hd
  unfold consumeDelivered Rendezvous.receive
  rw [if_neg hne, hs]
  by_cases hReady : s.state = .ready
  · simp [hReady, hd0]
  · simp [hReady]

theorem partnerOf_eq_ok {delivered : ThreadId} (h : r.partnerOf server = .ok delivered) :
    ∃ s, r.find server = some s ∧ s.partner = delivered := by
  unfold partnerOf at h
  cases hs : r.find server with
  | none => simp [hs] at h
  | some s =>
    simp only [hs, Except.ok.injEq] at h
    exact ⟨s, rfl, h⟩

theorem receiveFromEndpoint_error
    (h : t.receiveFromEndpoint server space endpoint r = ((t', r'), .error e)) :
    t' = t ∧ r' = r := by
  unfold receiveFromEndpoint at h
  iterate 4
    split at h
    · cases h; exact ⟨rfl, rfl⟩
  rename_i hPeer
  obtain ⟨s, hs, hsp⟩ := partnerOf_eq_ok hPeer
  split at h
  · rename_i hd0
    split at h
    · cases h; exact ⟨rfl, rfl⟩
    refine sealCall_error h ?_
    intro e'
    rw [consumeDelivered_eq hs hsp hd0]
    split_ifs
    all_goals simp
  split at h
  · refine sealCall_error h ?_
    intro e' he
    exact acceptSender_error (Prod.ext rfl he)
  split at h
  · rename_i hWait
    cases h
    exact ⟨rfl, waitReceive_error hWait⟩
  · cases h

/-- What a receive that takes a call does to the table. -/
structure Sealed (t t' : IpcEndpointTable) (server : ThreadId) (space : AddressSpaceIdentity)
    (endpoint : IpcEndpoint) (call : PendingSlot) (received : IpcReceived) : Prop where
  fresh : t.nextTransaction ≠ 0 ∧ t.nextTransaction ≠ 0xFFFFFFFFFFFFFFFF
  received_eq : received =
    { caller := call.caller, reply := t.newSeal server space endpoint call,
      request := call.request }
  table_eq : ∃ replies, insert ReplySlot.key
      { replySeal := t.newSeal server space endpoint call, active := true } t.replies =
        some replies ∧
    t' = { t with
      replies
      nextTransaction := t.nextTransaction + 1
      replySeals := t.replySeals + 1 }

theorem receiveFromEndpoint_ok
    (h : t.receiveFromEndpoint server space endpoint r = ((t', r'), .ok received)) :
    ∃ owner s, t.slotFor endpoint = some owner ∧ owner.server = server ∧
      owner.receiveWaiting = false ∧ r.find server = some s ∧ s.state = .ready ∧
      ((s.partner ≠ invalidThread ∧ ∃ call, t.pendingSlot s.partner endpoint = some call ∧
          t.Sealed t' server space endpoint call received ∧
          r' = (r.modify server fun s => { s with wake := .none }).modify server
            fun s => { s with partner := invalidThread }) ∨
        (s.partner = invalidThread ∧ ∃ call, t.pendingSlotAt endpoint = some call ∧
          t.Sealed t' server space endpoint call received ∧
          r.acceptSender server call.caller = (r', .ok ())) ∨
        (s.partner = invalidThread ∧ t.pendingSlotAt endpoint = none ∧ received = {} ∧
          r.waitReceive server = (r', .ok ()) ∧
          t' = { t with
            endpoints := t.endpoints.modify endpoint.slot.toNat fun slot =>
              { slot with receiveWaiting := true } })) := by
  unfold receiveFromEndpoint at h
  split at h
  · cases h
  rename_i owner hOwner
  split at h
  · cases h
  rename_i hSrv
  split at h
  · cases h
  rename_i hWaiting
  split at h
  · cases h
  rename_i hPeer
  obtain ⟨s, hs, hsp⟩ := partnerOf_eq_ok hPeer
  subst hsp
  have hSrv : owner.server = server := by simpa using hSrv
  have hWaiting : owner.receiveWaiting = false := by simpa using hWaiting
  split at h
  · rename_i hd0
    split at h
    · cases h
    rename_i call hCall
    obtain ⟨replies, h0, hMax, hIns, hHanded, hRecvd, hTbl⟩ := sealCall_ok h
    rw [consumeDelivered_eq hs rfl hd0] at hHanded
    split_ifs at hHanded with hReady
    · exact ⟨owner, s, hOwner, hSrv, hWaiting, hs, hReady,
        .inl ⟨hd0, call, hCall, ⟨⟨h0, hMax⟩, hRecvd, replies, hIns, hTbl⟩,
          (Prod.ext_iff.mp hHanded).1.symm⟩⟩
    · cases hHanded
  rename_i hd0
  have hd0 : s.partner = invalidThread := by simpa using hd0
  split at h
  · rename_i call hCall
    obtain ⟨replies, h0, hMax, hIns, hHanded, hRecvd, hTbl⟩ := sealCall_ok h
    obtain ⟨-, sa, -, ha, -, hReady, -⟩ := acceptSender_ok hHanded
    rw [hs] at ha
    cases ha
    exact ⟨owner, s, hOwner, hSrv, hWaiting, hs, hReady,
      .inr (.inl ⟨hd0, call, hCall, ⟨⟨h0, hMax⟩, hRecvd, replies, hIns, hTbl⟩, hHanded⟩)⟩
  rename_i hNone
  split at h
  · cases h
  rename_i hWait
  cases h
  obtain ⟨sa, ha, hReady, -⟩ := waitReceive_ok hWait
  rw [hs] at ha
  cases ha
  exact ⟨owner, s, hOwner, hSrv, hWaiting, hs, hReady, .inr (.inr ⟨hd0, hNone, rfl, hWait, rfl⟩)⟩

/-- A receive keeps the calls and the completed replies, and flags at most its endpoint. -/
theorem receiveFromEndpoint_tables
    (h : t.receiveFromEndpoint server space endpoint r = ((t', r'), .ok received)) :
    t'.pending = t.pending ∧ t'.completed = t.completed ∧
      (t'.endpoints = t.endpoints ∨
        t'.endpoints = t.endpoints.modify endpoint.slot.toNat fun slot =>
          { slot with receiveWaiting := true }) := by
  obtain ⟨_, _, -, -, -, -, -, ⟨-, _, -, hSealed, -⟩ | ⟨-, _, -, hSealed, -⟩ |
    ⟨-, -, -, -, rfl⟩⟩ := receiveFromEndpoint_ok h
  · obtain ⟨_, -, rfl⟩ := hSealed.table_eq
    exact ⟨rfl, rfl, .inl rfl⟩
  · obtain ⟨_, -, rfl⟩ := hSealed.table_eq
    exact ⟨rfl, rfl, .inl rfl⟩
  · exact ⟨rfl, rfl, .inr rfl⟩

/-- Replies waiting to be taken, in table order. -/
def replied (t : IpcEndpointTable) : List CompletedSlot := entries key t.completed

theorem replied_discardCompletedFor (t : IpcEndpointTable) (caller : ThreadId) :
    (t.discardCompletedFor caller).replied =
      t.replied.eraseP fun s => decide (s.key = some caller) :=
  entries_modify_free rfl t.completed

/-- A refused reply leaves the table as it was, up to the content of a free
completed slot. -/
theorem reply_error (h : t.reply server replySeal r response = ((t', r'), .error e)) :
    r' = r ∧ t' = { t with completed := t'.completed } ∧ t'.replied = t.replied ∧
      t'.completed.length = t.completed.length := by
  unfold reply at h
  iterate 7
    split at h
    · cases h; exact ⟨rfl, rfl, rfl, rfl⟩
  rename_i hDone
  split at h
  · cases h; exact ⟨rfl, rfl, rfl, rfl⟩
  rename_i hIns
  split at h
  · rename_i hReply
    cases h
    refine ⟨reply_error hReply, rfl, ?_, ?_⟩
    · obtain ⟨front, free, back, hs, hFront, hFree, hs'⟩ := insert_eq_some hIns
      have hNone : lookup key replySeal.caller t.completed = none := by
        simpa [completedSlot] using hDone
      rw [lookup_eq_none_iff] at hNone
      have hNot : ∀ s ∈ front, ¬decide (s.key = some replySeal.caller) = true := by
        intro s hsMem hKey
        refine hNone (mem_keys_iff.mpr ⟨s, ?_, by simpa using hKey⟩)
        rw [hs]
        exact List.mem_append_left _ hsMem
      rw [replied_discardCompletedFor, replied, replied, hs, hs']
      simp only [entries, List.filter_append, List.filter_cons, hFree]
      rw [List.eraseP_append_right _ (fun s hsMem => hNot s (List.mem_filter.mp hsMem).1)]
      simp [key]
    · have hLen := length_insert hIns
      simpa [discardCompletedFor] using hLen
  · cases h

theorem reply_ok (h : t.reply server replySeal r response = ((t', r'), .ok ())) :
    ∃ owner completed, t.slotFor replySeal.endpoint = some owner ∧ owner.server = server ∧
      replySeal.server = server ∧ replySeal.valid = true ∧
      (∃ slot, t.replySlot replySeal = some slot) ∧
      (∃ call, t.pendingSlot replySeal.caller replySeal.endpoint = some call) ∧
      t.completedSlot replySeal.caller = none ∧
      insert key
        { caller := replySeal.caller, callerAddressSpace := replySeal.callerAddressSpace,
          response, active := true } t.completed = some completed ∧
      r.reply server replySeal.caller = (r', .ok ()) ∧
      t' = { t with
        completed
        replies := updateFirst (fun s => s.active && s.replySeal == replySeal)
          (fun _ => {}) t.replies
        replySeals := t.replySeals - 1
        pending := updateFirst
          (PendingSlot.isCall replySeal.caller replySeal.endpoint) (fun _ => {}) t.pending
        pendingCalls := t.pendingCalls - 1 } := by
  unfold reply at h
  split at h
  · cases h
  split at h
  · cases h
  rename_i hValid
  split at h
  · cases h
  rename_i hSrv
  split at h
  · cases h
  rename_i owner hOwner
  split at h
  · cases h
  rename_i hOwned
  split at h
  · cases h
  rename_i hSlots
  split at h
  · cases h
  rename_i hDone
  split at h
  · cases h
  rename_i completed hIns
  split at h
  · cases h
  rename_i hReply
  cases h
  simp only [Bool.or_eq_true, Option.isNone_iff_eq_none, not_or] at hSlots
  exact ⟨owner, completed, hOwner, by simpa using hOwned,
    by simpa using (Eq.comm.mp (not_not.mp hSrv)),
    by simpa using hValid, Option.ne_none_iff_exists'.mp hSlots.1,
    Option.ne_none_iff_exists'.mp hSlots.2, by simpa using hDone, hIns, hReply, rfl⟩

end Enml.OsKernel.IpcEndpointTable
