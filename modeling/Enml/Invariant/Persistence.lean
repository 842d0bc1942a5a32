import Enml.Invariant.Reload

/-! What a request does to the registry in memory, to the state directory and to the
keys, at whichever call it is interrupted. -/
namespace Enml.OsKeys

open Enml.Core Interruptible SlotTable PersistentKeyRegistry List Program

variable {owner : KeyOwner} {descriptor : KeyDescriptor} {key : ProviderKeyReference} {id : KeyId}

/-- The provider has deleted every key it was asked to. -/
def KeyOp.Obeyed (op : KeyOp) : Prop :=
  ∀ caller id answers, op = .destroy caller id answers → ∀ i, answers i = .ok ()

namespace KeyRecord

variable {record : KeyRecord}

theorem intact_firstRecord (h : (KeyRegistry.firstRecord owner descriptor key).Sound) :
    (KeyRegistry.firstRecord owner descriptor key).Intact := by
  refine ⟨h, ?_⟩
  intro _ v hv
  rcases mem_packed (mem_held.mp hv).1 with hMem | rfl
  · rw [mem_singleton.mp hMem]
  · rfl

theorem Intact.extend (h : record.Intact) (hLive : record.destroyed = false)
    (hRoom : (record.versions.all fun v => v.occupied) = false) (hKey : key ≠ 0) :
    (record.extend key).Intact := by
  refine ⟨h.toSound.extend hLive hRoom hKey, ?_⟩
  intro _ v hv
  rw [held_extend h.toSound hLive hRoom key] at hv
  rcases mem_append.mp hv with hv | hv
  · exact h.kept hLive v hv
  · rw [mem_singleton.mp hv]
    rfl

end KeyRecord

namespace KeyRegistry

variable {r r' : KeyRegistry} {op : KeyOp} {answer : Answer KeyValue}

theorem Intact.modify (h : r.Intact) {f : KeyRecord → KeyRecord}
    (hf : ∀ record, (f record).occupied = record.occupied ∧
      (f record).descriptor.id = record.descriptor.id)
    (hIntact : ∀ record ∈ r.live, record.descriptor.id = id → (f record).Intact) :
    (r.modify id f).Intact := by
  refine ⟨h.toSound.modify hf fun record hRec hId => (hIntact record hRec hId).toSound, ?_⟩
  intro record hRec
  rw [(live_modify h.toSound hf).2] at hRec
  obtain ⟨old, hOld, rfl⟩ := mem_map.mp hRec
  split_ifs with hId
  · exact hIntact old hOld hId
  · exact h.intact old hOld

theorem Change.intact (h : r.Intact) (hObeyed : op.Obeyed) (hChange : Change r op answer r') :
    r'.Intact := by
  have hSound := hChange.sound h.toSound
  cases hChange with
  | same => exact h
  | enrolled _ _ hRoom =>
    refine ⟨hSound, ?_⟩
    intro record hRec
    have hRecSound := hSound.records record hRec
    rw [(live_enroll h.toSound hRoom ..).2] at hRec
    rcases mem_append.mp hRec with hRec | hRec
    · exact h.intact record hRec
    · obtain rfl := mem_singleton.mp hRec
      exact KeyRecord.intact_firstRecord hRecSound
  | @advanced record key _ hFind hLive hRoom hKey =>
    obtain ⟨hMem, hId⟩ := find_eq_some hFind
    refine h.modify (fun record => extend_frame record key) ?_
    intro other hOther hSame
    obtain rfl := h.eq_of_id hOther hMem (hSame.trans hId.symm)
    exact (h.intact other hOther).extend hLive hRoom hKey
  | @destroyedSome _ _ answers record e hOp _ hFailed _ =>
    have hNone : record.firstFailure answers = none :=
      KeyRecord.firstFailure_eq_none.mpr fun i _ _ _ => hObeyed _ _ _ hOp i
    rw [hNone] at hFailed
    cases hFailed
  | @destroyed _ _ answers record _ hAuth hNone _ =>
    obtain ⟨hFind, -, hLive, -⟩ := authorizeRecord_eq_ok hAuth
    obtain ⟨hMem, hId⟩ := find_eq_some hFind
    refine Intact.modify h (fun _ => ⟨rfl, rfl⟩) ?_
    intro other hOther hSame
    obtain rfl := h.eq_of_id hOther hMem (hSame.trans hId.symm)
    exact ⟨(h.records other hOther).destroyAll hLive hNone, nofun⟩

theorem intact_start : ({} : KeyRegistry).Intact := by
  refine ⟨sound_start, ?_⟩
  rw [live_empty]
  nofun

end KeyRegistry

namespace KeyRecord

variable {record : KeyRecord}

theorem Intact.reloaded_of_live (h : record.Intact) (hLive : record.destroyed = false) :
    record.reloaded = record := by
  rw [reloaded, upTo, written_of_live hLive, ← h.table hLive]

theorem Intact.reloaded (h : record.Intact) : record.reloaded.Intact := by
  cases hDead : record.destroyed with
  | false => rwa [h.reloaded_of_live hDead]
  | true =>
    have hBlank : record.reloaded = { record with versions := replicate maxKeyVersions {} } := by
      rw [KeyRecord.reloaded, upTo, written_of_destroyed hDead, packed_nil]
    rw [hBlank]
    refine ⟨⟨h.occupied, h.owner, h.descriptor, length_replicate, ?_, ?_, ?_, ?_⟩, ?_⟩
    · intro v hv hOcc
      rw [eq_of_mem_replicate hv] at hOcc
      cases hOcc
    · intro hLive
      rw [show _ = record.destroyed from rfl, hDead] at hLive
      cases hLive
    · intro hLive
      rw [show _ = record.destroyed from rfl, hDead] at hLive
      cases hLive
    · intro _ v hv
      rw [eq_of_mem_replicate hv]
      rfl
    · intro hLive
      rw [show _ = record.destroyed from rfl, hDead] at hLive
      cases hLive

end KeyRecord

/-- What callers can tell of a record: its identity, its authority, and the versions
they can use, with the keys behind them. -/
structure KeyRecordView where
  id : KeyId
  owner : KeyOwner
  purpose : KeyPurpose
  rights : RightsMask
  version : UInt32
  destroyed : Bool
  usable : List (UInt32 × ProviderKeyReference)

def KeyRecord.view (record : KeyRecord) : KeyRecordView where
  id := record.descriptor.id
  owner := record.owner
  purpose := record.descriptor.purpose
  rights := record.descriptor.rights
  version := record.descriptor.version
  destroyed := record.destroyed
  usable := (record.versions.filter KeyRecord.pending).map fun v => (v.version, v.providerKey)

def KeyRegistry.view (r : KeyRegistry) : List KeyRecordView :=
  (r.records.filter fun record => record.occupied).map KeyRecord.view

theorem KeyRegistry.view_eq (r : KeyRegistry) : r.view = r.live.map KeyRecord.view := by
  refine congrArg (map KeyRecord.view) (filter_congr fun record _ => ?_)
  exact KeyRecord.isSome_key.symm

namespace KeyRecord

variable {record : KeyRecord}

/-- Coming back from a snapshot changes nothing that can be seen. -/
theorem Intact.view_reloaded (h : record.Intact) : record.reloaded.view = record.view := by
  cases hDead : record.destroyed with
  | false => rw [h.reloaded_of_live hDead]
  | true =>
    have hUsable : record.versions.filter pending = [] := by
      rw [filter_eq_nil_iff]
      intro v hv
      rw [h.dead hDead v hv]
      decide
    have hBlank : (packed {} maxKeyVersions record.written).filter pending = [] := by
      rw [written_of_destroyed hDead]
      decide
    unfold view KeyRecord.reloaded upTo
    rw [hUsable, hBlank]

theorem Intact.written_reloaded (h : record.Intact) : record.reloaded.written = record.written := by
  cases hDead : record.destroyed with
  | false => rw [h.reloaded_of_live hDead]
  | true =>
    have hAgain : record.reloaded.destroyed = true := hDead
    rw [written_of_destroyed hDead, written_of_destroyed hAgain]

theorem Intact.reloaded_reloaded (h : record.Intact) :
    record.reloaded.reloaded = record.reloaded := by
  rw [KeyRecord.reloaded, h.written_reloaded]
  rfl

end KeyRecord

namespace KeyRegistry

variable {r : KeyRegistry}

theorem live_ofLive {records : List KeyRecord} (h : ∀ record ∈ records, record.occupied = true) :
    (ofLive records).live = records := by
  refine entries_packed rfl ?_
  intro record hRec
  rw [KeyRecord.isSome_key, h record hRec]

theorem live_reloaded (h : r.Sound) : r.reloaded.live = r.live.map KeyRecord.reloaded := by
  refine live_ofLive ?_
  intro record hRec
  obtain ⟨old, hOld, rfl⟩ := mem_map.mp hRec
  exact (h.records old hOld).occupied

theorem Intact.reloaded (h : r.Intact) : r.reloaded.Intact := by
  have hLive := live_reloaded h.toSound
  have hIntact : ∀ record ∈ r.reloaded.live, record.Intact := by
    intro record hRec
    rw [hLive] at hRec
    obtain ⟨old, hOld, rfl⟩ := mem_map.mp hRec
    exact (h.intact old hOld).reloaded
  refine ⟨⟨?_, ?_, fun record hRec => (hIntact record hRec).toSound, ?_⟩, hIntact⟩
  · rw [hLive]
    rfl
  · rw [hLive, length_map]
    exact h.size
  · rw [hLive, map_map]
    exact h.ids

theorem Intact.view_reloaded (h : r.Intact) : r.reloaded.view = r.view := by
  rw [view_eq, view_eq, live_reloaded h.toSound, map_map]
  exact map_congr_left fun record hRec => (h.intact record hRec).view_reloaded

theorem Intact.reloaded_reloaded (h : r.Intact) : r.reloaded.reloaded = r.reloaded := by
  have hLive := live_reloaded h.toSound
  rw [KeyRegistry.reloaded, hLive, map_map]
  refine congrArg ofLive (map_congr_left fun record hRec => ?_)
  exact (h.intact record hRec).reloaded_reloaded

end KeyRegistry

namespace KeyRequest

/-- The operation of the plain registry. -/
def op : KeyRequest → KeyOp
  | .create owner id purpose rights generated => .create owner id purpose rights generated
  | .adoptGenerated owner id purpose rights key => .adoptGenerated owner id purpose rights key
  | .rotate caller id generated => .rotate caller id generated
  | .rotateAdoptGenerated caller id key => .rotateAdoptGenerated caller id key
  | .destroy caller id => .destroy caller id fun _ => .ok ()

/-- The reference that the caller hands over, whatever becomes of the request. -/
def adopted : KeyRequest → List ProviderKeyReference
  | .adoptGenerated _ _ _ _ key => if key = 0 then [] else [key]
  | .rotateAdoptGenerated _ _ key => if key = 0 then [] else [key]
  | _ => []

/-- The reference of the version that the request issues. -/
def issued (request : KeyRequest) : List ProviderKeyReference := request.op.offered.toList

/-- The references that the request takes out of the registry. -/
def released (m : KeyRegistry) : KeyRequest → List ProviderKeyReference
  | .destroy _ id => ((m.find id).map references).getD []
  | _ => []

theorem obeyed_op (request : KeyRequest) : request.op.Obeyed := by
  rintro caller id answers hOp i
  cases request with
  | destroy =>
    cases hOp
    rfl
  | create | adoptGenerated | rotate | rotateAdoptGenerated => cases hOp

/-- What the plain registry does with the request. -/
def candidate (request : KeyRequest) (m : KeyRegistry) : KeyRegistry := (m.step request.op).1

def answer (request : KeyRequest) (m : KeyRegistry) : Result KeyValue :=
  (m.step request.op).2.result

theorem intact_candidate {m : KeyRegistry} (h : m.Intact) (request : KeyRequest) :
    (request.candidate m).Intact :=
  (KeyRegistry.change_step m request.op).intact h request.obeyed_op

end KeyRequest

/-- How a request ends. The snapshot of the candidate is `bytes`, and `calls` is the
number of calls up to the rename. -/
inductive RequestEnd (m : KeyRegistry) (request : KeyRequest) (w : World) (bytes : List UInt8)
    (calls : Nat) (script : List (Fault Error)) :
    World × List (Fault Error) × Outcome Error (KeyRegistry × Result KeyValue) → Prop where
  | refused {given : List ProviderKeyReference} {rest : List (Fault Error)} {e : Error}
      {outcome : Outcome Error (KeyRegistry × Result KeyValue)}
      (hRefused : request.answer m = .error e)
      (hEnd : (given = request.adopted ∧ ∃ e', outcome = .done (m, .error e')) ∨
        (given <+: request.adopted ∧ outcome = .stopped)) :
      RequestEnd m request w bytes calls script (w.gave given, rest, outcome)
  | kept {u : World} {given : List ProviderKeyReference} {rest : List (Fault Error)}
      {value : KeyValue} {outcome : Outcome Error (KeyRegistry × Result KeyValue)}
      (hAcc : request.answer m = .ok value) (hSame : w.Untouched u)
      (hEnd : (given = request.issued ∧ ∃ e, outcome = .done (m, .error e)) ∨
        (given <+: request.issued ∧ outcome = .stopped)) :
      RequestEnd m request w bytes calls script (u.gave given, rest, outcome)
  | stopped {u : World} {rest : List (Fault Error)} {value : KeyValue}
      (hAcc : request.answer m = .ok value)
      (hState : w.Before bytes u ∨ u = w.synced bytes) :
      RequestEnd m request w bytes calls script (u, rest, .stopped)
  | unsynced {given : List ProviderKeyReference} {rest : List (Fault Error)} {value : KeyValue}
      {extent : Nat} {reported : Error} {outcome : Outcome Error (KeyRegistry × Result KeyValue)}
      (hAcc : request.answer m = .ok value)
      (hHit : interruption (calls + 1) script = some (calls, .fail extent reported))
      (hEnd : (given = request.released m ∧ ∃ e, outcome = .done (request.candidate m, .error e)) ∨
        (given <+: request.released m ∧ outcome = .stopped)) :
      RequestEnd m request w bytes calls script ((w.replaced bytes).gave given, rest, outcome)
  | synced {given : List ProviderKeyReference} {rest : List (Fault Error)} {value : KeyValue}
      {outcome : Outcome Error (KeyRegistry × Result KeyValue)}
      (hAcc : request.answer m = .ok value)
      (hHit : interruption (calls + 1) script = none)
      (hEnd : (given = request.released m ∧ outcome = .done (request.candidate m, .ok value)) ∨
        (given <+: request.released m ∧ outcome = .stopped)) :
      RequestEnd m request w bytes calls script ((w.synced bytes).gave given, rest, outcome)

section

variable {restore : Restore} (wrap : Wrapping restore) {m : KeyRegistry} {request : KeyRequest}
  {w : World} {script : List (Fault Error)}
  {result : Result KeyDescriptor} {generated : Result ProviderKeyReference}
  {caller : KeyOwner}

/-- Giving up a list of keys at the end of a program. -/
theorem gave_then {α : Type} {x : Io Unit} {keys : List ProviderKeyReference} {u : World}
    (h : GaveUp u keys (x u script)) (a : α) :
    ∃ given rest outcome, (x >>= fun _ => pure a) u script = (u.gave given, rest, outcome) ∧
      ((given = keys ∧ outcome = .done a) ∨ (given <+: keys ∧ outcome = .stopped)) := by
  rcases hRes : x u script with ⟨v, rest, outcome⟩
  rw [hRes] at h
  rcases h with ⟨rfl, rfl⟩ | ⟨given, hGiven, rfl, rfl⟩
  · exact ⟨keys, rest, _, bind_of_done hRes, .inl ⟨rfl, rfl⟩⟩
  · exact ⟨given, rest, _, bind_of_stopped hRes, .inr ⟨hGiven, rfl⟩⟩

/-- A refusal gives up what the caller has handed over. -/
theorem requestEnd_refused {α : Type} {value : α → KeyValue} {x : Io Unit} {e e' : Error}
    {bytes : List UInt8} {calls : Nat} (hRefused : request.answer m = .error e)
    (h : GaveUp w request.adopted (x w script)) :
    RequestEnd m request w bytes calls script
      (replying value (x >>= fun _ => pure (m, .error e')) w script) := by
  obtain ⟨given, rest, outcome, hRes, hEnd⟩ := gave_then h ((m, .error e') : KeyRegistry × Result α)
  rw [replying, bind_pure_of hRes]
  refine .refused hRefused ?_
  rcases hEnd with ⟨hGiven, rfl⟩ | ⟨hGiven, rfl⟩
  · exact .inl ⟨hGiven, e', rfl⟩
  · exact .inr ⟨hGiven, rfl⟩

/-- An operation that issues a version and has been accepted. -/
theorem requestEnd_publish (h : m.Intact)
    (hAcc : request.answer m = .ok (.descriptor descriptor)) (hIssued : request.issued = [key])
    (hKey : key ≠ 0) (hReleased : request.released m = []) :
    RequestEnd m request w (snapshotBytes wrap.persist (request.candidate m))
      (persistCalls (request.candidate m)) script
      (replying .descriptor
        (publish wrap.persist m (request.candidate m) key descriptor)
        w script) := by
  have hEnd := persistEnd wrap (request.intact_candidate h) w script
  unfold replying publish
  rcases hRes : persistCandidate wrap.persist (request.candidate m) w script with
    ⟨u, rest, outcome⟩
  rw [hRes] at hEnd
  cases hEnd with
  | stopped hState =>
    rw [bind_of_stopped (bind_of_stopped hRes)]
    exact .stopped hAcc hState
  | @kept _ _ e hSame _ =>
    have hGave : GaveUp u request.issued (giveUp key u rest) := by
      rw [giveUp, if_neg hKey, hIssued]
      exact gaveUp_destroyKey key u rest
    obtain ⟨given, rest', outcome, hConclude, hEnd⟩ :=
      gave_then hGave ((m, .error e) : KeyRegistry × Result KeyDescriptor)
    rw [bind_pure_of ((bind_of_done hRes).trans hConclude)]
    refine .kept hAcc hSame ?_
    rcases hEnd with ⟨hGiven, rfl⟩ | ⟨hGiven, rfl⟩
    · exact .inl ⟨hGiven, e, rfl⟩
    · exact .inr ⟨hGiven, rfl⟩
  | @unsynced _ _ _ e hHit =>
    rw [bind_of_done (bind_of_done hRes), ← World.gave_nil (w.replaced _)]
    exact .unsynced hAcc hHit (.inl ⟨hReleased.symm, e, rfl⟩)
  | synced hHit =>
    rw [bind_of_done (bind_of_done hRes), ← World.gave_nil (w.synced _)]
    exact .synced hAcc hHit (.inl ⟨hReleased.symm, rfl⟩)

/-- The version that an operation has issued is in the registry, with its key. -/
theorem issuedKey_of_issues (h : m.Intact) {op : KeyOp} {answer : Answer KeyValue}
    {r' : KeyRegistry} (hObeyed : op.Obeyed) (hChange : KeyRegistry.Change m op answer r')
    (hIssues : op.Issues answer descriptor key) :
    issuedKey r' op.subject descriptor.version = key ∧ key ≠ 0 := by
  have hIntact := hChange.intact h hObeyed
  have hFound : ∀ record ∈ r'.live, record.destroyed = false → record.descriptor.id = op.subject →
      ∀ v ∈ record.held, v.version = descriptor.version → v.providerKey = key →
        issuedKey r' op.subject descriptor.version = key := by
    intro record hRec hLive hId v hv hVer hKey
    unfold issuedKey
    rw [← hId, KeyRegistry.find_of_mem hIntact.toSound hRec]
    dsimp only
    rw [← hVer, (hIntact.records record hRec).findVersion_of_mem hLive hv]
    exact hKey
  cases hChange with
  | same hNone => exact absurd hIssues (hNone descriptor key)
  | @enrolled owner descriptor' key' hSubject hIssues' hRoom _ _ _ hVer hKey =>
    obtain ⟨hOffered, hRes⟩ := hIssues
    obtain ⟨hOffered', hRes'⟩ := hIssues'
    cases hOffered.symm.trans hOffered'
    cases hRes.symm.trans hRes'
    refine ⟨?_, hKey⟩
    refine hFound (KeyRegistry.firstRecord owner descriptor key) ?_ rfl hSubject.symm
      { occupied := true, version := 1, providerKey := key } ?_ hVer.symm rfl
    · rw [(KeyRegistry.live_enroll h.toSound hRoom ..).2]
      exact mem_append_right _ (mem_singleton.mpr rfl)
    · exact KeyRecord.mem_held.mpr ⟨mem_packed_of_mem (mem_singleton.mpr rfl), rfl⟩
  | @advanced record key' hIssues' hFind hLive hRoom hKey =>
    obtain ⟨hOffered, hRes⟩ := hIssues
    obtain ⟨hOffered', hRes'⟩ := hIssues'
    cases hOffered.symm.trans hOffered'
    cases hRes.symm.trans hRes'
    obtain ⟨hMem, hId⟩ := KeyRegistry.find_eq_some hFind
    refine ⟨?_, hKey⟩
    refine hFound (record.extend key) ?_ hLive hId (record.successor key) ?_ rfl rfl
    · rw [KeyRegistry.advance,
        (KeyRegistry.live_modify h.toSound fun other => KeyRegistry.extend_frame other key).2]
      exact mem_map.mpr ⟨record, hMem, if_pos hId⟩
    · rw [KeyRecord.held_extend (h.records record hMem) hLive hRoom key]
      exact mem_append_right _ (mem_singleton.mpr rfl)
  | destroyedSome hOp | destroyed hOp =>
    rw [KeyOp.Issues, hOp] at hIssues
    cases hIssues.1

/-- Whatever the request issues is the reference it offered. -/
theorem issued_eq (h : m.Intact) (hAcc : request.answer m = .ok (.descriptor descriptor))
    (hOffered : request.op.offered = some key) :
    issuedKey (request.candidate m) request.op.subject descriptor.version = key ∧ key ≠ 0 :=
  issuedKey_of_issues h request.obeyed_op (KeyRegistry.change_step m request.op)
    ⟨hOffered, hAcc⟩

/-- The two requests that have a key generated. -/
theorem requestEnd_generating (h : m.Intact) (request : KeyRequest)
    (hAns : request.answer m = result.map .descriptor) (hAdopted : request.adopted = [])
    (hReleased : request.released m = [])
    (hOffered : ∀ descriptor, result = .ok descriptor → ∃ key, request.op.offered = some key) :
    RequestEnd m request w (snapshotBytes wrap.persist (request.candidate m))
      (persistCalls (request.candidate m)) script
      (replying .descriptor (finishGenerated wrap.persist m
        (request.candidate m) request.op.subject result) w script) := by
  cases result with
  | error =>
    refine requestEnd_refused (x := pure ()) hAns (.inl ⟨?_, rfl⟩)
    rw [hAdopted]
    exact w.gave_nil.symm
  | ok descriptor =>
    obtain ⟨key, hKey⟩ := hOffered descriptor rfl
    obtain ⟨hIssued, hNonzero⟩ := issued_eq h hAns hKey
    rw [finishGenerated, hIssued]
    refine requestEnd_publish wrap h hAns ?_ hNonzero hReleased
    rw [KeyRequest.issued, hKey]
    rfl

/-- The two requests that hand over a key. -/
theorem requestEnd_adopting (h : m.Intact) (request : KeyRequest)
    (hAns : request.answer m = result.map .descriptor)
    (hAdopted : request.adopted = if key = 0 then [] else [key])
    (hReleased : request.released m = []) (hOffered : request.op.offered = some key)
    (hZero : key = 0 → ∃ e, result = .error e) :
    RequestEnd m request w (snapshotBytes wrap.persist (request.candidate m))
      (persistCalls (request.candidate m)) script
      (replying .descriptor (if key = 0 then pure (m, .error (keyError Errors.providerFailure))
        else finishAdopted wrap.persist m (request.candidate m) key result)
        w script) := by
  by_cases hKey : key = 0
  · obtain ⟨e, rfl⟩ := hZero hKey
    rw [if_pos hKey] at hAdopted ⊢
    refine requestEnd_refused (x := pure ()) hAns (.inl ⟨?_, rfl⟩)
    rw [hAdopted]
    exact w.gave_nil.symm
  · rw [if_neg hKey] at hAdopted ⊢
    cases result with
    | error =>
      refine requestEnd_refused hAns ?_
      rw [hAdopted]
      exact gaveUp_destroyKey key w script
    | ok =>
      refine requestEnd_publish wrap h hAns ?_ hKey hReleased
      rw [KeyRequest.issued, hOffered]
      rfl

theorem create_eq_ok {purpose : KeyPurpose} {rights : RightsMask}
    (h : (m.create owner id purpose rights generated).2.result = .ok descriptor) :
    ∃ key, generated = .ok key := by
  cases generated with
  | ok key => exact ⟨key, rfl⟩
  | error =>
    unfold KeyRegistry.create at h
    split_ifs at h <;> cases h

theorem rotate_eq_ok (h : (m.rotate caller id generated).2.result = .ok descriptor) :
    ∃ key, generated = .ok key := by
  cases generated with
  | ok key => exact ⟨key, rfl⟩
  | error e =>
    unfold KeyRegistry.rotate at h
    cases hRotatable : m.rotatable caller id with
    | error =>
      rw [hRotatable] at h
      cases h
    | ok =>
      rw [hRotatable] at h
      cases h

/-- Destroying the record in memory and writing it without its keys are the same. -/
theorem destroy_eq (h : m.Intact) {record : KeyRecord}
    (hAuth : m.authorizeRecord caller id KeyRights.destroy = .ok record) :
    (m.destroy caller id fun _ => .ok ()).1 = m.modify id revoked ∧
      (m.destroy caller id fun _ => .ok ()).2.result = .ok () := by
  obtain ⟨hFind, -⟩ := KeyRegistry.authorizeRecord_eq_ok hAuth
  obtain ⟨hMem, hId⟩ := KeyRegistry.find_eq_some hFind
  have hNone : record.firstFailure (fun _ => .ok ()) = none :=
    KeyRecord.firstFailure_eq_none.mpr fun _ _ _ _ => rfl
  have hVers : record.destroyVersions (fun _ => .ok ()) = (revoked record).versions := by
    rw [KeyRecord.destroyVersions_eq, revoked]
    refine ext_getElem? fun i => ?_
    rw [getElem?_mapIdx, getElem?_map]
    refine congrFun (congrArg Option.map ?_) _
    funext v
    rw [KeyRecord.age]
    cases KeyRecord.pending v with
    | true | false => rfl
  unfold KeyRegistry.destroy
  rw [hAuth]
  rw [hFind]
  dsimp only
  rw [hNone, hVers]
  refine ⟨?_, rfl⟩
  refine congrArg KeyRegistry.mk ?_
  have hRewritten : (m.modify id fun other =>
      { other with
        versions := (revoked record).versions
        destroyed := true }).records = _ :=
    (KeyRegistry.live_modify h.toSound (f := fun other =>
      { other with
        versions := (revoked record).versions
        destroyed := true }) fun _ => ⟨rfl, rfl⟩).1
  have hRevoked : (m.modify id revoked).records = _ :=
    (KeyRegistry.live_modify h.toSound (f := revoked)
      fun _ => ⟨rfl, rfl⟩).1
  refine hRewritten.trans (Eq.trans ?_ hRevoked.symm)
  refine congrArg (packed ({} : KeyRecord) maxKeyRecords) (map_congr_left fun other hOther => ?_)
  split_ifs with hSame
  · obtain rfl := h.eq_of_id hOther hMem (hSame.trans hId.symm)
    rfl
  · rfl

theorem references_ne_zero (h : m.Intact) {record : KeyRecord} (hMem : record ∈ m.live)
    (hLive : record.destroyed = false) :
    ((references record).any fun key => key == 0) = false := by
  rw [any_eq_false]
  intro key hKey
  obtain ⟨v, hv, rfl⟩ := mem_map.mp hKey
  obtain ⟨hVer, hPending⟩ := mem_filter.mp hv
  rw [KeyRecord.pending, Bool.and_eq_true] at hPending
  have hNonzero := (h.intact record hMem).key_ne_zero hLive
    (KeyRecord.mem_held.mpr ⟨hVer, hPending.1⟩)
  simpa using hNonzero

theorem requestEnd_destroy (h : m.Intact) (caller : KeyOwner) (id : KeyId) :
    RequestEnd m (.destroy caller id) w
      (snapshotBytes wrap.persist ((KeyRequest.destroy caller id).candidate m))
      (persistCalls ((KeyRequest.destroy caller id).candidate m)) script
      ((KeyRequest.destroy caller id).run wrap.persist m w script) := by
  have hAns : (KeyRequest.destroy caller id).answer m =
      (m.destroy caller id fun _ => .ok ()).2.result.map fun _ => .done := rfl
  unfold KeyRequest.run destroy
  dsimp only
  cases hAuth : m.authorizeRecord caller id KeyRights.destroy with
  | error e =>
    have hRefused : (m.destroy caller id fun _ => .ok ()).2.result = .error e := by
      rw [KeyRegistry.destroy, hAuth]
    rw [hRefused] at hAns
    exact requestEnd_refused (x := pure ()) hAns (.inl ⟨w.gave_nil.symm, rfl⟩)
  | ok record =>
    obtain ⟨hFind, -, hLive, -⟩ := KeyRegistry.authorizeRecord_eq_ok hAuth
    obtain ⟨hCand, hRes⟩ := destroy_eq h hAuth
    have hIntact := (KeyRequest.destroy caller id).intact_candidate h
    have hReleased : (KeyRequest.destroy caller id).released m = references record := by
      rw [KeyRequest.released, hFind]
      rfl
    have hCand' : (KeyRequest.destroy caller id).candidate m = m.modify id revoked := hCand
    rw [hRes] at hAns
    rw [hFind]
    dsimp only
    rw [references_ne_zero h (KeyRegistry.find_eq_some hFind).1 hLive, if_neg (by decide), ← hCand']
    have hEnd := persistEnd wrap hIntact w script
    unfold replying
    rcases hPersist : persistCandidate wrap.persist
      ((KeyRequest.destroy caller id).candidate m) w script with ⟨u, rest, outcome⟩
    rw [hPersist] at hEnd
    cases hEnd with
    | stopped hState =>
      rw [bind_of_stopped (bind_of_stopped hPersist)]
      exact .stopped hAns hState
    | @kept _ _ e hSame _ =>
      rw [bind_of_done (bind_of_done hPersist), ← World.gave_nil u]
      exact .kept hAns hSame (.inl ⟨rfl, e, rfl⟩)
    | @unsynced _ _ _ e hHit =>
      obtain ⟨given, rest', outcome, hConclude, hEnd⟩ := gave_then
        (gaveUp_destroyKeys (references record) _ rest)
        (((KeyRequest.destroy caller id).candidate m, .error e) : KeyRegistry × Result Unit)
      rw [bind_pure_of ((bind_of_done hPersist).trans hConclude)]
      refine .unsynced hAns hHit ?_
      rw [hReleased]
      rcases hEnd with ⟨hGiven, rfl⟩ | ⟨hGiven, rfl⟩
      · exact .inl ⟨hGiven, e, rfl⟩
      · exact .inr ⟨hGiven, rfl⟩
    | synced hHit =>
      obtain ⟨given, rest', outcome, hConclude, hEnd⟩ := gave_then
        (gaveUp_destroyKeys (references record) _ rest)
        (((KeyRequest.destroy caller id).candidate m, .ok ()) : KeyRegistry × Result Unit)
      rw [bind_pure_of ((bind_of_done hPersist).trans hConclude)]
      refine .synced hAns hHit ?_
      rw [hReleased]
      rcases hEnd with ⟨hGiven, rfl⟩ | ⟨hGiven, rfl⟩
      · exact .inl ⟨hGiven, rfl⟩
      · exact .inr ⟨hGiven, rfl⟩

/-- How every request ends. -/
theorem requestEnd (h : m.Intact) (request : KeyRequest) (w : World) (script : List (Fault Error)) :
    RequestEnd m request w (snapshotBytes wrap.persist (request.candidate m))
      (persistCalls (request.candidate m)) script (request.run wrap.persist m w script) := by
  cases request with
  | create owner id purpose rights generated =>
    refine requestEnd_generating wrap h (.create owner id purpose rights generated) rfl rfl rfl ?_
    intro descriptor hRes
    obtain ⟨key, rfl⟩ := create_eq_ok hRes
    exact ⟨key, rfl⟩
  | rotate caller id generated =>
    refine requestEnd_generating wrap h (.rotate caller id generated) rfl rfl rfl ?_
    intro descriptor hRes
    obtain ⟨key, rfl⟩ := rotate_eq_ok hRes
    exact ⟨key, rfl⟩
  | adoptGenerated owner id purpose rights key =>
    refine requestEnd_adopting wrap h (.adoptGenerated owner id purpose rights key) rfl rfl rfl
      rfl ?_
    rintro rfl
    refine ⟨keyError Errors.invalidKey, ?_⟩
    rw [KeyRegistry.adoptGenerated, if_pos (by simp)]
    rfl
  | rotateAdoptGenerated caller id key =>
    refine requestEnd_adopting wrap h (.rotateAdoptGenerated caller id key) rfl rfl rfl rfl ?_
    rintro rfl
    exact ⟨_, rfl⟩
  | destroy caller id => exact requestEnd_destroy wrap h caller id

end

end Enml.OsKeys
