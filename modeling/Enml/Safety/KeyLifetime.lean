import Enml.Safety.CrashConsistency

/-! Which keys are destroyed, and what the state directory may still show then. A
rename lasts only once the directory has been synchronized after it, so that until
then a loss of power can bring back the snapshots it replaced. -/
namespace Enml.OsKeys

open Enml.Core Interruptible SlotTable List KeyRequest KeyVersionRecord KeyRegistry KeyRecord
  KeyService

variable {record : KeyRecord} {r : KeyRegistry}

def KeyRecord.keys (record : KeyRecord) : List ProviderKeyReference :=
  record.written.map fun v => v.providerKey

/-- The references that a snapshot of the registry names. -/
def KeyRegistry.keys (r : KeyRegistry) : List ProviderKeyReference := r.live.flatMap KeyRecord.keys

/-- The references that a snapshot names. -/
def named (restore : Restore) (snapshot : Option (List UInt8)) : List ProviderKeyReference :=
  ((decode restore snapshot).map providerReferences).getD []

namespace KeyRecord

/-- The references that come back from a snapshot are those that went into it. -/
theorem Intact.references_reloaded (h : record.Intact) :
    record.reloaded.references = record.keys := by
  cases hDead : record.destroyed with
  | true => rw [references_reloaded_of_destroyed hDead, keys, written_of_destroyed hDead, map_nil]
  | false =>
    rw [h.reloaded_of_live hDead, keys, written_of_live hDead, references]
    refine congrArg (map providerKey) ?_
    rw [held, entries]
    refine filter_congr fun v hv => ?_
    rw [KeyVersionRecord.isSome_key]
    cases hOcc : v.occupied with
    | false => rfl
    | true =>
      have hKey := h.key_ne_zero hDead (mem_held.mpr ⟨hv, hOcc⟩)
      simpa using hKey

/-- What a destruction gives up are the references of the record. -/
theorem Intact.references_eq (h : record.Intact) (hLive : record.destroyed = false) :
    PersistentKeyRegistry.references record = record.keys := by
  rw [PersistentKeyRegistry.references, keys, written_of_live hLive, held, entries]
  refine congrArg (map providerKey) (filter_congr fun v hv => ?_)
  rw [KeyVersionRecord.isSome_key, pending]
  cases hOcc : v.occupied with
  | false => rfl
  | true =>
    rw [h.kept hLive v (mem_held.mpr ⟨hv, hOcc⟩)]
    rfl

end KeyRecord

namespace KeyRegistry

theorem Intact.references_reloaded (h : r.Intact) : providerReferences r.reloaded = r.keys := by
  have hUsed : ∀ record ∈ r.live.map KeyRecord.reloaded, record.occupied = true := by
    intro record hRec
    obtain ⟨old, hOld, rfl⟩ := mem_map.mp hRec
    exact (h.records old hOld).occupied
  rw [KeyRegistry.reloaded, references_ofLive hUsed, flatMap_map, keys]
  exact flatMap_congr fun record hRec => (h.intact record hRec).references_reloaded

end KeyRegistry

open KeyRegistry

theorem named_of_holds {restore : Restore} {snapshot : Option (List UInt8)} {r : KeyRegistry}
    (h : r.Intact) (hHolds : Holds restore snapshot r) : named restore snapshot = r.keys := by
  rw [named, decode_of_holds h hHolds]
  exact h.references_reloaded

/-- Rewriting one record leaves those around it. -/
theorem KeyRegistry.live_modify_split (h : r.Sound) {id : KeyId} {f : KeyRecord → KeyRecord}
    (hf : ∀ record, (f record).occupied = record.occupied ∧
      (f record).descriptor.id = record.descriptor.id)
    (hFind : r.find id = some record) :
    ∃ front back, r.live = front ++ record :: back ∧
      (r.modify id f).live = front ++ f record :: back := by
  obtain ⟨hMem, hId⟩ := find_eq_some hFind
  obtain ⟨front, back, hSplit⟩ := append_of_mem hMem
  refine ⟨front, back, hSplit, ?_⟩
  have hIds := h.ids
  rw [hSplit, map_append, map_cons, nodup_append, nodup_cons] at hIds
  have hFront : ∀ other ∈ front, other.descriptor.id ≠ id := by
    intro other hOther hSame
    exact hIds.2.2 _ (mem_map_of_mem hOther) _ mem_cons_self (hSame.trans hId.symm)
  have hBack : ∀ other ∈ back, other.descriptor.id ≠ id := by
    intro other hOther hSame
    refine hIds.2.1.1 ?_
    rw [hId, ← hSame]
    exact mem_map_of_mem hOther
  have hKeep : ∀ others : List KeyRecord, (∀ other ∈ others, other.descriptor.id ≠ id) →
      (others.map fun other => if other.descriptor.id = id then f other else other) = others := by
    intro others hOthers
    exact (map_congr_left fun other hOther => if_neg (hOthers other hOther)).trans
      (map_id _)
  rw [(live_modify h hf).2, hSplit, map_append, map_cons, hKeep front hFront,
    hKeep back hBack, if_pos hId]

section

variable {m : KeyRegistry} {request : KeyRequest} {value : KeyValue}

theorem released_of_offered {key : ProviderKeyReference} (h : request.op.offered = some key) :
    request.released m = [] := by
  cases request with
  | destroy => cases h
  | create | adoptGenerated | rotate | rotateAdoptGenerated => rfl

theorem keys_firstRecord (owner : KeyOwner) (descriptor : KeyDescriptor)
    (key : ProviderKeyReference) : (firstRecord owner descriptor key).keys = [key] := by
  rw [KeyRecord.keys, written_of_live rfl, KeyRecord.held, firstRecord, entries_packed rfl]
  · rfl
  · intro v hv
    rw [mem_singleton.mp hv]
    rfl

theorem keys_extend (h : record.Sound) (hLive : record.destroyed = false)
    (hRoom : (record.versions.all fun v => v.occupied) = false) (key : ProviderKeyReference) :
    (record.extend key).keys = record.keys ++ [key] := by
  have hExtended : (record.extend key).destroyed = false := hLive
  rw [KeyRecord.keys, written_of_live hExtended, KeyRecord.keys,
    written_of_live hLive, held_extend h hLive hRoom key, map_append]
  rfl

theorem keys_split {front back : List KeyRecord} (h : r.live = front ++ record :: back) :
    r.keys = front.flatMap KeyRecord.keys ++ (record.keys ++ back.flatMap KeyRecord.keys) := by
  rw [KeyRegistry.keys, h, flatMap_append, flatMap_cons]

/-- The keys after a request that has been accepted: the issued ones are new, the
released ones are gone. -/
theorem perm_keys (h : m.Intact) (hAcc : request.answer m = .ok value) :
    (request.issued ++ m.keys).Perm (request.released m ++ (request.candidate m).keys) := by
  have hChange := change_step m request.op
  have hEffect := effect hAcc
  rw [candidate]
  generalize (m.step request.op).1 = r' at hChange
  cases hChange with
  | same hNone hDestroy =>
    rcases hEffect with ⟨descriptor, key, hIssues⟩ | ⟨caller, id, rfl⟩
    · exact absurd hIssues (hNone descriptor key)
    · obtain ⟨e, hErr⟩ := hDestroy caller id _ rfl
      rw [answer, hErr] at hAcc
      cases hAcc
  | @enrolled owner descriptor key _ hIssues hRoom _ _ _ _ _ =>
    have hKeys : (m.enroll owner descriptor key).keys = m.keys ++ [key] := by
      rw [KeyRegistry.keys, (live_enroll h.toSound hRoom ..).2, flatMap_append,
        flatMap_singleton, keys_firstRecord, KeyRegistry.keys]
    rw [issued, released_of_offered hIssues.1, hIssues.1, hKeys]
    exact perm_append_comm
  | @advanced record key hIssues hFind hLive hRoom _ =>
    obtain ⟨hMem, -⟩ := find_eq_some hFind
    obtain ⟨front, back, hBefore, hAfter⟩ := live_modify_split h.toSound
      (fun other => extend_frame other key) hFind
    rw [issued, released_of_offered hIssues.1, hIssues.1, keys_split hBefore,
      advance, keys_split hAfter,
      keys_extend (h.records record hMem) hLive hRoom]
    refine perm_iff_count.mpr fun k => ?_
    simp only [Option.toList_some, count_append, count_nil]
    omega
  | destroyedSome _ _ _ hRes =>
    rw [answer, hRes] at hAcc
    cases hAcc
  | @destroyed caller id answers record hOp hAuth _ _ =>
    obtain ⟨hFind, -, hLive, -⟩ := authorizeRecord_eq_ok hAuth
    obtain ⟨hMem, -⟩ := find_eq_some hFind
    obtain ⟨front, back, hBefore, hAfter⟩ := live_modify_split h.toSound
      (f := fun other =>
        { other with versions := record.destroyVersions answers, destroyed := true })
      (fun _ => ⟨rfl, rfl⟩) hFind
    obtain ⟨hIssued, hReleased⟩ : request.issued = [] ∧ request.released m = record.keys := by
      cases request with
      | destroy =>
        cases hOp
        refine ⟨rfl, ?_⟩
        rw [released, hFind]
        exact (h.intact record hMem).references_eq hLive
      | create => cases hOp
      | adoptGenerated => cases hOp
      | rotate => cases hOp
      | rotateAdoptGenerated => cases hOp
    have hGone : ({ record with
        versions := record.destroyVersions answers, destroyed := true } : KeyRecord).keys = [] :=
      map_eq_nil_iff.mpr (written_of_destroyed rfl)
    rw [hIssued, hReleased, keys_split hBefore, keys_split hAfter, hGone]
    refine perm_iff_count.mpr fun k => ?_
    simp only [count_append, count_nil]
    omega

end

/-- The references that have been passed to the provider. -/
def World.given (w : World) : List ProviderKeyReference := w.destroyed.map Prod.fst

/-- The references that a request takes in: those handed over by the caller, and the
one that the provider generates for it. -/
def KeyRequest.taken (request : KeyRequest) (m : KeyRegistry) : List ProviderKeyReference :=
  request.adopted ++ match request.answer m with
    | .ok _ => request.issued
    | .error _ => []

section

variable {restore : Restore}

/-- No key has been destroyed that a snapshot may need, and none that may be visible
needs one. -/
structure KeyService.Spared (restore : Restore) (s : KeyService) : Prop extends
    s.Consistent restore where
  spared : ∀ entry ∈ s.world.destroyed, ∀ snapshot ∈ entry.2.possible,
    entry.1 ∉ named restore snapshot
  alive : ∀ snapshot ∈ s.world.disk.possible, ∀ key ∈ named restore snapshot, key ∉ s.world.given
  distinct : ∀ snapshot ∈ s.world.disk.possible, (named restore snapshot).Nodup

/-- A reference that is new: no snapshot names it, and it has not been destroyed. -/
def World.Fresh (restore : Restore) (w : World) (key : ProviderKeyReference) : Prop :=
  (∀ snapshot ∈ w.disk.possible, key ∉ named restore snapshot) ∧ key ∉ w.given

/-- The condition under which a step spares every key that may still be needed. A
reference that is taken in is new; the directory is synchronized after a destruction
has replaced the snapshot; and opening does not fail once a reference has been
restored. -/
def Careful (s : KeyService) : KeyEvent restore → Prop
  | .openRegistry script => ∀ r, decode restore s.world.disk.snapshot = some r →
      ∀ i extent e, interruption (1 + loadCalls s.world.disk.snapshot r) script =
        some (i, .fail extent e) → i < 1 + loadQuiet s.world.disk.snapshot r
  | .request request _ script => ∀ m, s.memory = some m →
      (∀ key ∈ request.taken m, s.world.Fresh restore key) ∧
      (∀ caller id, request = .destroy caller id → ∀ extent e,
        interruption (persistCalls (request.candidate m) + 1) script ≠
          some (persistCalls (request.candidate m), .fail extent e))
  | .exit => True
  | .powerLoss _ _ => True

namespace KeyService

variable {s : KeyService}

/-- What keeps the keys spared: the snapshots that may be there name keys that have not
been destroyed, and nothing is given up that one of them names. -/
theorem Spared.next (h : s.Spared restore) {x : World} {memory : Option KeyRegistry}
    {given : List ProviderKeyReference}
    (hConsist : ({ world := x.gave given, memory } : KeyService).Consistent restore)
    (hLog : x.destroyed = s.world.destroyed)
    (hGiven : ∀ key ∈ given, ∀ snapshot ∈ x.disk.possible, key ∉ named restore snapshot)
    (hPossible : ∀ snapshot ∈ x.disk.possible, (named restore snapshot).Nodup ∧
      ∀ key ∈ named restore snapshot, key ∉ s.world.given) :
    ({ world := x.gave given, memory } : KeyService).Spared restore := by
  refine ⟨hConsist, ?_, ?_, fun snapshot hSnap => (hPossible snapshot hSnap).1⟩
  · intro entry hEntry snapshot hSnap
    rcases mem_append.mp hEntry with hOld | hNew
    · rw [hLog] at hOld
      exact h.spared entry hOld snapshot hSnap
    · obtain ⟨key, hKey, rfl⟩ := mem_map.mp hNew
      exact hGiven key hKey snapshot hSnap
  · intro snapshot hSnap key hKey hGone
    have hSplit : (x.gave given).given = s.world.given ++ given := by
      rw [World.given, World.gave, hLog, map_append, map_map, World.given]
      exact congrArg _ (map_id given)
    rw [show (World.given _) = (x.gave given).given from rfl, hSplit] at hGone
    rcases mem_append.mp hGone with hOld | hNew
    · exact (hPossible snapshot hSnap).2 key hKey hOld
    · exact hGiven key hNew snapshot hSnap hKey

theorem recordCalls_reloaded (h : record.Intact) :
    recordCalls record.reloaded = recordCalls record := by
  rw [recordCalls, recordCalls, h.written_reloaded]

theorem quietCalls_reloaded (records : List KeyRecord) :
    quietCalls (records.map KeyRecord.reloaded) = quietCalls records := by
  induction records with
  | nil => rfl
  | cons _ _ ih =>
    rw [map_cons, quietCalls, quietCalls, ih]
    rfl

/-- The calls of an opening can be counted on what it gives back. -/
theorem loadCalls_reloaded (h : r.Intact) (snapshot : Option (List UInt8)) :
    loadCalls snapshot r.reloaded = loadCalls snapshot r ∧
      loadQuiet snapshot r.reloaded = loadQuiet snapshot r := by
  have hLive := live_reloaded h.toSound
  cases snapshot with
  | none => exact ⟨rfl, rfl⟩
  | some =>
    refine ⟨?_, ?_⟩
    · rw [loadCalls, loadCalls, hLive, map_map]
      refine congrArg (3 + sum ·) (map_congr_left fun record hRec => ?_)
      exact recordCalls_reloaded (h.intact record hRec)
    · rw [loadQuiet, loadQuiet, hLive, quietCalls_reloaded]

variable {script : List (Fault Error)}

theorem spared_open (h : s.Spared restore)
    (hCareful : Careful s (.openRegistry script : KeyEvent restore)) :
    (settle none (opening restore s.world script)).1.Spared restore := by
  have hConsist := consistent_open h.toConsistent script
  obtain ⟨r, hIntact, hHolds⟩ := h.visible
  have hReads := reads_opening hIntact hHolds
  have hSame : (opening restore s.world script).1 = s.world := by
    cases hHit : interruption (1 + loadCalls s.world.disk.snapshot r) script with
    | none => rw [hReads.passed script hHit]
    | some hit =>
      obtain ⟨i, fault⟩ := hit
      cases fault with
      | pass => exact absurd hHit interruption_ne_pass
      | stop extent => exact (hReads.stopped script i extent hHit).1
      | fail extent e =>
        obtain ⟨hCalls, hQuiet⟩ := loadCalls_reloaded hIntact s.world.disk.snapshot
        have hEarly := hCareful r.reloaded (decode_of_holds hIntact hHolds) i extent e
          (by rw [hCalls, hHit])
        rw [hQuiet] at hEarly
        exact (hReads.failed script i extent e hHit).1.2 hEarly
  generalize opening restore s.world script = result at hConsist hSame
  obtain ⟨u, rest, outcome⟩ := result
  obtain rfl : u = s.world := hSame
  cases outcome with
  | done | failed | stopped => exact ⟨hConsist, h.spared, h.alive, h.distinct⟩

variable {m : KeyRegistry} {request : KeyRequest}

theorem named_visible (h : s.Consistent restore) (hMemory : s.memory = some m) :
    named restore s.world.disk.snapshot = m.keys := by
  obtain ⟨hIntact, r, hrIntact, hHolds, hSame⟩ := h.memory m hMemory
  rw [named_of_holds hrIntact hHolds, ← hrIntact.references_reloaded, hSame,
    hIntact.references_reloaded]

theorem issued_length (request : KeyRequest) : request.issued.Nodup := by
  rw [issued]
  cases request.op.offered with
  | none => exact nodup_nil
  | some key => exact nodup_singleton key

theorem fresh_issued {value : KeyValue}
    (hFresh : ∀ key ∈ request.taken m, s.world.Fresh restore key)
    (hAcc : request.answer m = .ok value) :
    ∀ key ∈ request.issued, s.world.Fresh restore key := by
  intro key hKey
  refine hFresh key ?_
  rw [taken, hAcc]
  exact mem_append_right _ hKey

/-- The keys of the snapshot that a request writes. -/
theorem keys_candidate (h : s.Spared restore) (hMemory : s.memory = some m) {value : KeyValue}
    (hAcc : request.answer m = .ok value)
    (hFresh : ∀ key ∈ request.taken m, s.world.Fresh restore key) :
    (request.candidate m).keys.Nodup ∧ (∀ key ∈ (request.candidate m).keys, key ∉ s.world.given) ∧
      ∀ key ∈ request.released m, key ∉ (request.candidate m).keys := by
  have hIntact := (h.memory m hMemory).1
  have hNamed := named_visible h.toConsistent hMemory
  have hIssued := fresh_issued hFresh hAcc
  have hVisible : s.world.disk.snapshot ∈ s.world.disk.possible := mem_cons_self
  have hDist := h.distinct _ hVisible
  have hAlive := h.alive _ hVisible
  rw [hNamed] at hDist hAlive
  have hPerm := perm_keys hIntact hAcc
  have hAll : (request.issued ++ m.keys).Nodup := by
    refine nodup_append.mpr ⟨issued_length request, hDist, ?_⟩
    rintro key hNew _ hOld rfl
    refine (hIssued key hNew).1 _ hVisible ?_
    rwa [hNamed]
  have hSplit := nodup_append.mp (hPerm.nodup_iff.mp hAll)
  refine ⟨hSplit.2.1, ?_, fun key hGone hKept => hSplit.2.2 key hGone key hKept rfl⟩
  intro key hKey
  rcases mem_append.mp (hPerm.mem_iff.mpr (mem_append_right _ hKey)) with hNew | hOld
  · exact (hIssued key hNew).2
  · exact hAlive key hOld

theorem settle_eq (memory : Option KeyRegistry) (u : World) (rest : List (Fault Error))
    (outcome : Outcome Error (KeyRegistry × Result KeyValue)) :
    (settle memory (u, rest, outcome)).1 =
      { world := u, memory := (settle memory (u, rest, outcome)).1.memory } := by
  cases outcome with
  | done | failed | stopped => rfl

theorem spared_request (h : s.Spared restore) (hMemory : s.memory = some m)
    {wrap : Wrapping restore}
    (hCareful : Careful s (.request request wrap script)) :
    (settle (some m) (request.run wrap.persist m s.world script)).1.Spared restore := by
  obtain ⟨hFresh, hSynced⟩ := hCareful m hMemory
  have hConsist := consistent_request h.toConsistent hMemory request wrap script
  have hIntact := (h.memory m hMemory).1
  have hEnd := requestEnd wrap hIntact request s.world script
  have hOld : ∀ snapshot ∈ s.world.disk.possible, (named restore snapshot).Nodup ∧
      ∀ key ∈ named restore snapshot, key ∉ s.world.given :=
    fun snapshot hSnap => ⟨h.distinct snapshot hSnap, h.alive snapshot hSnap⟩
  have hNamed : named restore (some (snapshotBytes wrap.persist (request.candidate m))) =
      (request.candidate m).keys :=
    named_of_holds (request.intact_candidate hIntact) (.stored wrap _)
  have hNew : ∀ value, request.answer m = .ok value →
      (named restore (some (snapshotBytes wrap.persist (request.candidate m)))).Nodup ∧
        ∀ key ∈ named restore (some (snapshotBytes wrap.persist (request.candidate m))),
          key ∉ s.world.given := by
    intro value hAcc
    obtain ⟨hDist, hAlive, -⟩ := keys_candidate h hMemory hAcc hFresh
    rw [hNamed]
    exact ⟨hDist, hAlive⟩
  rcases hRes : request.run wrap.persist m s.world script with ⟨u, rest, outcome⟩
  rw [hRes] at hEnd hConsist
  rw [settle_eq] at hConsist ⊢
  cases hEnd with
  | @refused given _ _ _ _ hEnd =>
    refine h.next hConsist rfl ?_ hOld
    intro key hKey
    have hAdopted : key ∈ request.adopted := by
      rcases hEnd with ⟨rfl, -⟩ | ⟨hPrefix, -⟩
      · exact hKey
      · exact hPrefix.subset hKey
    exact (hFresh key (mem_append_left _ hAdopted)).1
  | @kept x given _ _ _ hAcc hSame hEnd =>
    obtain ⟨hPossible, -⟩ := hSame.possible
    have hLog : x.destroyed = s.world.destroyed := by
      obtain ⟨temp, rfl⟩ := hSame
      rfl
    refine h.next hConsist hLog ?_ ?_
    · intro key hKey
      have hIssued : key ∈ request.issued := by
        rcases hEnd with ⟨rfl, -⟩ | ⟨hPrefix, -⟩
        · exact hKey
        · exact hPrefix.subset hKey
      rw [hPossible]
      exact (fresh_issued hFresh hAcc key hIssued).1
    · rw [hPossible]
      exact hOld
  | stopped hAcc hState =>
    rw [← u.gave_nil] at hConsist ⊢
    rcases hState with (hSame | rfl) | rfl
    · obtain ⟨hPossible, -⟩ := hSame.possible
      have hLog : u.destroyed = s.world.destroyed := by
        obtain ⟨temp, rfl⟩ := hSame
        rfl
      refine h.next hConsist hLog nofun ?_
      rw [hPossible]
      exact hOld
    · exact h.next hConsist rfl nofun (forall_mem_cons.mpr ⟨hNew _ hAcc, hOld⟩)
    · exact h.next hConsist rfl nofun (forall_mem_singleton.mpr (hNew _ hAcc))
  | @unsynced given _ _ extent reported _ hAcc hHit hEnd =>
    have hNone : given = [] := by
      rcases effect hAcc with ⟨descriptor, key, hIssues⟩ | ⟨caller, id, hReq⟩
      · rw [released_of_offered hIssues.1] at hEnd
        rcases hEnd with ⟨hGiven, -⟩ | ⟨hPrefix, -⟩
        · exact hGiven
        · exact prefix_nil.mp hPrefix
      · exact absurd hHit (hSynced caller id hReq extent reported)
    subst hNone
    exact h.next hConsist rfl nofun (forall_mem_cons.mpr ⟨hNew _ hAcc, hOld⟩)
  | @synced given _ _ _ hAcc hHit hEnd =>
    refine h.next hConsist rfl ?_ (forall_mem_singleton.mpr (hNew _ hAcc))
    intro key hKey
    have hReleased : key ∈ request.released m := by
      rcases hEnd with ⟨rfl, -⟩ | ⟨hPrefix, -⟩
      · exact hKey
      · exact hPrefix.subset hKey
    refine forall_mem_singleton.mpr ?_
    show key ∉ named restore (some (snapshotBytes wrap.persist (request.candidate m)))
    rw [hNamed]
    exact (keys_candidate h hMemory hAcc hFresh).2.2 key hReleased

theorem spared_step (s : KeyService) (event : KeyEvent restore) (h : s.Spared restore)
    (hCareful : Careful s event) : (s.step event).1.Spared restore := by
  have hConsist := consistent_step s event h.toConsistent
  cases event with
  | openRegistry => exact spared_open h hCareful
  | request =>
    unfold step
    cases hMemory : s.memory with
    | none => exact h
    | some => exact spared_request h hMemory hCareful
  | exit => exact ⟨hConsist, h.spared, h.alive, h.distinct⟩
  | powerLoss back temp =>
    have hOld := Disk.recovered_mem s.world.disk back temp
    refine ⟨hConsist, h.spared, ?_, ?_⟩
    · exact forall_mem_singleton.mpr (h.alive _ hOld)
    · exact forall_mem_singleton.mpr (h.distinct _ hOld)

theorem spared_start : ({} : KeyService).Spared restore := by
  refine ⟨consistent_start, nofun, fun _ _ _ _ => nofun, ?_⟩
  refine forall_mem_singleton.mpr ?_
  rw [named_of_holds intact_start .absent, KeyRegistry.keys, live_empty]
  exact nodup_nil

end KeyService

end

namespace KeyServiceRun

variable {restore : Restore} (events : List (KeyEvent restore))

/-- No key is destroyed while a snapshot may need it, and none is forgotten. -/
structure KeysSpared : Prop where
  spared : ∀ n, ∀ entry ∈ (reached events n).world.destroyed, ∀ snapshot ∈ entry.2.possible,
    entry.1 ∉ named restore snapshot
  reopenable : ∀ n, ∀ snapshot ∈ (reached events n).world.disk.possible,
    ∀ key ∈ named restore snapshot, key ∉ (reached events n).world.given
  accounted : ∀ n request wrap script m result, events[n]? = some (.request request wrap script) →
    (reached events n).memory = some m →
    ((reached events n).step (.request request wrap script)).2 = some result →
    ∀ key, key ∈ request.taken m ∨ key ∈ named restore (snapshot events n) →
      key ∈ named restore (snapshot events (n + 1)) ∨ key ∈ (reached events (n + 1)).world.given

variable {events}

theorem given_gave (w : World) (given : List ProviderKeyReference) :
    (w.gave given).given = w.given ++ given := by
  rw [World.given, World.gave, map_append, map_map, World.given]
  exact congrArg _ (map_id given)

theorem adopted_subset_issued (request : KeyRequest) : request.adopted ⊆ request.issued := by
  cases request with
  | adoptGenerated | rotateAdoptGenerated =>
    intro k hk
    rw [adopted] at hk
    split_ifs at hk
    · cases hk
    · exact hk
  | create | rotate | destroy => exact nil_subset _

theorem accounted_request {n : Nat} {request : KeyRequest} {wrap : Wrapping restore}
    {script : List (Fault Error)} {m : KeyRegistry} {result : Result KeyValue}
    (hEvent : events[n]? = some (.request request wrap script))
    (hMemory : (reached events n).memory = some m)
    (hReturned : ((reached events n).step (.request request wrap script)).2 = some result)
    {key : ProviderKeyReference}
    (hKey : key ∈ request.taken m ∨ key ∈ named restore (snapshot events n)) :
    key ∈ named restore (snapshot events (n + 1)) ∨
      key ∈ (reached events (n + 1)).world.given := by
  have hConsist := consistent_reached events n
  have hIntact := (hConsist.memory m hMemory).1
  have hNamed := named_visible hConsist hMemory
  have hEnd := requestEnd wrap hIntact request (reached events n).world script
  have hStep : (reached events n).step (.request request wrap script) = KeyService.settle (some m)
      (request.run wrap.persist m (reached events n).world script) := by
    rw [KeyService.step, hMemory]
  rw [hStep] at hReturned
  rw [snapshot, reached_succ hEvent, hStep]
  rcases hRes : request.run wrap.persist m (reached events n).world script with
    ⟨u, rest, outcome⟩
  rw [hRes] at hEnd hReturned
  rw [settle_eq]
  have hTaken : ∀ value, request.answer m = .ok value → key ∈ request.taken m →
      key ∈ request.issued := by
    intro value hAcc hTaken
    rw [taken, hAcc] at hTaken
    rcases mem_append.mp hTaken with hAdopted | hIssued
    · exact adopted_subset_issued request hAdopted
    · exact hIssued
  -- Once the snapshot has been replaced, a key is in it or was taken out of it.
  have hReplaced : ∀ value, request.answer m = .ok value → ∀ x : World,
      x.disk.snapshot = some (snapshotBytes wrap.persist (request.candidate m)) →
      key ∈ named restore x.disk.snapshot ∨ key ∈ (x.gave (request.released m)).given := by
    intro value hAcc x hVisible
    have hIn : key ∈ request.issued ++ m.keys := by
      rcases hKey with hKey | hKey
      · exact mem_append_left _ (hTaken value hAcc hKey)
      · rw [snapshot, hNamed] at hKey
        exact mem_append_right _ hKey
    rw [hVisible, named_of_holds (request.intact_candidate hIntact) (.stored wrap _), given_gave]
    rcases mem_append.mp ((perm_keys hIntact hAcc).mem_iff.mp hIn) with hGone | hKept
    · exact .inr (mem_append_right _ hGone)
    · exact .inl hKept
  cases hEnd with
  | refused hRefused hEnd =>
    rcases hEnd with ⟨rfl, e, rfl⟩ | ⟨-, rfl⟩
    · rcases hKey with hKey | hKey
      · rw [taken, hRefused, append_nil] at hKey
        rw [given_gave]
        exact .inr (mem_append_right _ hKey)
      · exact .inl hKey
    · cases hReturned
  | @kept x _ _ _ _ hAcc hSame hEnd =>
    rcases hEnd with ⟨rfl, e, rfl⟩ | ⟨-, rfl⟩
    · rcases hKey with hKey | hKey
      · rw [given_gave]
        exact .inr (mem_append_right _ (hTaken _ hAcc hKey))
      · refine .inl ?_
        show key ∈ named restore x.disk.snapshot
        rw [hSame.possible.2]
        exact hKey
    · cases hReturned
  | stopped => cases hReturned
  | unsynced hAcc _ hEnd =>
    rcases hEnd with ⟨rfl, e, rfl⟩ | ⟨-, rfl⟩
    · exact hReplaced _ hAcc ((reached events n).world.replaced _) rfl
    · cases hReturned
  | synced hAcc _ hEnd =>
    rcases hEnd with ⟨rfl, rfl⟩ | ⟨-, rfl⟩
    · exact hReplaced _ hAcc ((reached events n).world.synced _) rfl
    · cases hReturned

/-- In a run whose steps are all careful, no key is destroyed that a snapshot may need,
and every key is in the visible snapshot or has been given up. -/
theorem no_key_destroyed_while_needed (events : List (KeyEvent restore))
    (h : Run.EachStep KeyService.step Careful {} events) : KeysSpared events := by
  have hAlways : Run.Always KeyService.step (KeyService.Spared restore) {} events :=
    Run.always_of_step spared_start spared_step h
  constructor
  · exact fun n => (hAlways n).spared
  · exact fun n => (hAlways n).alive
  · exact fun n request wrap script m result hEvent hMemory hReturned key hKey =>
      accounted_request hEvent hMemory hReturned hKey

def plainRestore : Restore := fun _ _ blob => .ok (readU64Le blob 0)

def plainWrapping : Wrapping plainRestore where
  persist key _ _ := layout [(8, key.toNat)]
  inverts _ _ _ _ := congrArg Except.ok (readU64Le_layout 0 rfl rfl)
  size key _ _ := by
    have hLen : (layout [(8, key.toNat)]).length = 8 := length_layout _
    rw [hLen]
    decide

def firstOwner : KeyOwner := { principal := { high := 1, low := 1 } }

def creation (id : KeyId) (key : ProviderKeyReference) : KeyEvent plainRestore :=
  .request (.create firstOwner id .applicationDataAead KeyRights.all (.ok key)) plainWrapping []

/-- A key is created and destroyed, and nothing goes wrong. -/
def lifecycle : List (KeyEvent plainRestore) :=
  [.openRegistry [], creation { low := 1 } 7,
    .request (.destroy firstOwner { low := 1 }) plainWrapping []]

theorem careful_lifecycle : Run.EachStep KeyService.step Careful {} lifecycle := by
  intro n event hEvent
  match n with
  | 0 =>
    cases hEvent
    intro r _ i extent e hHit
    rw [interruption_nil] at hHit
    cases hHit
  | 1 =>
    cases hEvent
    intro m hMemory
    refine ⟨?_, nofun⟩
    have hStart : (reached lifecycle 1).memory = some {} ∧ (reached lifecycle 1).world = {} := by
      decide +kernel
    cases hStart.1.symm.trans hMemory
    have hTaken : (create firstOwner { low := 1 } .applicationDataAead KeyRights.all
        (.ok 7)).taken {} = [7] := by decide +kernel
    rw [hTaken]
    refine forall_mem_singleton.mpr ?_
    show (reached lifecycle 1).world.Fresh plainRestore 7
    rw [hStart.2]
    unfold World.Fresh
    decide +kernel
  | 2 =>
    cases hEvent
    intro m _
    refine ⟨?_, ?_⟩
    · intro key hKey
      rw [taken] at hKey
      split at hKey
      all_goals cases hKey
    · intro caller id _ extent e hHit
      rw [interruption_nil] at hHit
      cases hHit
  | n + 3 => cases hEvent

/-- The whole life of a key, without a fault. -/
theorem lifecycle_spares_keys :
    Run.EachStep KeyService.step Careful {} lifecycle ∧ KeysSpared lifecycle :=
  ⟨careful_lifecycle, no_key_destroyed_while_needed lifecycle careful_lifecycle⟩

/-- The key is destroyed although the directory could not be synchronized. -/
def unsyncedDestruction : List (KeyEvent plainRestore) :=
  [.openRegistry [], creation { low := 1 } 7,
    .request (.destroy firstOwner { low := 1 }) plainWrapping
      (replicate 7 .pass ++ [.fail 0 (keyError Errors.ioFailure)])]

/-- The registry is opened again, and the second of two records cannot be read. -/
def failedOpening : List (KeyEvent plainRestore) :=
  [.openRegistry [], creation { low := 1 } 7, creation { low := 2 } 8, .exit,
    .openRegistry (replicate 8 .pass ++ [.fail 0 (keyError Errors.ioFailure)])]

/-- Both runs destroy a key that the registry on disk still names. -/
theorem key_destroyed_while_needed :
    ¬KeysSpared unsyncedDestruction ∧ ¬KeysSpared failedOpening := by
  constructor
  · intro h
    have hFound : ∃ entry ∈ (reached unsyncedDestruction 3).world.destroyed,
        ∃ snapshot ∈ entry.2.possible, entry.1 ∈ named plainRestore snapshot := by decide +kernel
    obtain ⟨entry, hEntry, snapshot, hSnap, hNamed⟩ := hFound
    exact h.spared 3 entry hEntry snapshot hSnap hNamed
  · intro h
    have hFound : ∃ entry ∈ (reached failedOpening 5).world.destroyed,
        ∃ snapshot ∈ entry.2.possible, entry.1 ∈ named plainRestore snapshot := by decide +kernel
    obtain ⟨entry, hEntry, snapshot, hSnap, hNamed⟩ := hFound
    exact h.spared 5 entry hEntry snapshot hSnap hNamed

end KeyServiceRun

end Enml.OsKeys
