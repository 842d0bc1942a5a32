import Enml.Invariant.Persistence
import Enml.Lib.Run

/-! The persistent key registry over whole runs, with a failure or a stop at any call:
what is in memory is what the visible snapshot decodes to, and a request leaves the
state before it or the state after it. -/
namespace Enml.OsKeys

open Enml.Core Interruptible SlotTable List

variable {m : KeyRegistry} {request : KeyRequest} {value : KeyValue}

/-- The registries differ in the record of one key, and in no other. -/
structure KeyRegistry.DiffersAt (r r' : KeyRegistry) (id : KeyId) : Prop where
  others : (r'.live.filter fun record => record.descriptor.id ≠ id) =
    r.live.filter fun record => record.descriptor.id ≠ id
  changed : r'.find id ≠ r.find id

namespace KeyRegistry

variable {r : KeyRegistry}

theorem differsAt_enroll (h : r.Intact) (hRoom : r.full = false) {owner : KeyOwner}
    {descriptor : KeyDescriptor} {key : ProviderKeyReference}
    (hIntact : (r.enroll owner descriptor key).Intact) (hNew : r.find descriptor.id = none) :
    r.DiffersAt (r.enroll owner descriptor key) descriptor.id := by
  have hLive := (live_enroll h.toSound hRoom owner descriptor key).2
  constructor
  · rw [hLive, filter_append, filter_cons_of_neg (by simp [firstRecord]), filter_nil, append_nil]
  have hMem : firstRecord owner descriptor key ∈ (r.enroll owner descriptor key).live := by
    rw [hLive]
    exact mem_append_right _ (mem_singleton.mpr rfl)
  rw [hNew, show descriptor.id = (firstRecord owner descriptor key).descriptor.id from rfl,
    find_of_mem hIntact.toSound hMem]
  nofun

theorem differsAt_modify (h : r.Intact) {id : KeyId} {f : KeyRecord → KeyRecord}
    {record : KeyRecord}
    (hf : ∀ record, (f record).occupied = record.occupied ∧
      (f record).descriptor.id = record.descriptor.id)
    (hIntact : (r.modify id f).Intact) (hFind : r.find id = some record)
    (hChanged : f record ≠ record) : r.DiffersAt (r.modify id f) id := by
  obtain ⟨hMem, hId⟩ := find_eq_some hFind
  have hLive : (r.modify id f).live = _ := (live_modify h.toSound hf).2
  constructor
  · rw [hLive, filter_map]
    have hSame : (fun record => decide (record.descriptor.id ≠ id)) ∘
        (fun record => if record.descriptor.id = id then f record else record) =
        fun record : KeyRecord => decide (record.descriptor.id ≠ id) := by
      funext other
      rw [Function.comp_apply]
      split_ifs with hOther
      · rw [(hf other).2]
      · rfl
    rw [hSame]
    refine (map_congr_left fun other hOther => ?_).trans (map_id _)
    exact if_neg (by simpa using (mem_filter.mp hOther).2)
  · have hMem' : f record ∈ (r.modify id f).live := by
      rw [hLive]
      exact mem_map.mpr ⟨record, hMem, if_pos hId⟩
    have hFind' := find_of_mem hIntact.toSound hMem'
    rw [(hf record).2, hId] at hFind'
    rw [hFind, hFind']
    exact fun hSame => hChanged (Option.some.inj hSame)

/-- An operation that succeeds changes the record it is about. -/
theorem Change.differsAt (h : r.Intact) {op : KeyOp} {answer : Answer KeyValue} {r' : KeyRegistry}
    (hObeyed : op.Obeyed) (hChange : Change r op answer r')
    (hEffect : (∃ descriptor key, op.Issues answer descriptor key) ∨
      ((∃ caller id answers, op = .destroy caller id answers) ∧
        ∃ value, answer.result = .ok value)) :
    r.DiffersAt r' op.subject := by
  have hIntact := hChange.intact h hObeyed
  cases hChange with
  | same hNone hDestroy =>
    rcases hEffect with ⟨descriptor, key, hIssues⟩ | ⟨⟨caller, id, answers, hOp⟩, value, hOk⟩
    · exact absurd hIssues (hNone descriptor key)
    · obtain ⟨e, hErr⟩ := hDestroy caller id answers hOp
      rw [hOk] at hErr
      cases hErr
  | enrolled hSubject _ hRoom hNew =>
    rw [hSubject]
    exact differsAt_enroll h hRoom hIntact hNew
  | @advanced record key _ hFind hLive hRoom hKey =>
    obtain ⟨hMem, -⟩ := find_eq_some hFind
    refine differsAt_modify h (fun other => extend_frame other key) hIntact hFind ?_
    intro hSame
    have hShort := (KeyRecord.versions_extend (h.records record hMem) hLive hRoom key).2
    have hNext := KeyRecord.toNat_version_succ hShort
    rw [show record.descriptor.version + 1 = (record.extend key).descriptor.version from rfl,
      hSame] at hNext
    omega
  | destroyedSome hOp _ _ hRes =>
    rcases hEffect with ⟨descriptor, key, hIssues⟩ | ⟨-, value, hOk⟩
    · rw [KeyOp.Issues, hOp] at hIssues
      cases hIssues.1
    · rw [hOk] at hRes
      cases hRes
  | @destroyed _ _ _ record hOp hAuth _ _ =>
    obtain ⟨hFind, -, hLive, -⟩ := authorizeRecord_eq_ok hAuth
    rw [hOp]
    refine differsAt_modify h (fun _ => ⟨rfl, rfl⟩) hIntact hFind ?_
    intro hSame
    have hDead := congrArg KeyRecord.destroyed hSame
    rw [hLive] at hDead
    cases hDead

end KeyRegistry

theorem map_eq_ok {α β : Type} {f : α → β} {x : Result α} {b : β} (h : x.map f = .ok b) :
    ∃ a, x = .ok a ∧ b = f a := by
  cases x with
  | error => cases h
  | ok a =>
    cases h
    exact ⟨a, rfl, rfl⟩

/-- A request that has been accepted has issued a version, or is a destruction. -/
theorem KeyRequest.effect (hAcc : request.answer m = .ok value) :
    (∃ descriptor key, request.op.Issues (m.step request.op).2 descriptor key) ∨
      ∃ caller id, request = .destroy caller id := by
  cases request with
  | create =>
    obtain ⟨descriptor, hRes, rfl⟩ := map_eq_ok hAcc
    obtain ⟨key, rfl⟩ := create_eq_ok hRes
    exact .inl ⟨descriptor, key, rfl, hAcc⟩
  | rotate =>
    obtain ⟨descriptor, hRes, rfl⟩ := map_eq_ok hAcc
    obtain ⟨key, rfl⟩ := rotate_eq_ok hRes
    exact .inl ⟨descriptor, key, rfl, hAcc⟩
  | adoptGenerated _ _ _ _ key | rotateAdoptGenerated _ _ key =>
    obtain ⟨descriptor, -, rfl⟩ := map_eq_ok hAcc
    exact .inl ⟨descriptor, key, rfl, hAcc⟩
  | destroy caller id => exact .inr ⟨caller, id, rfl⟩

theorem KeyRequest.differsAt (h : m.Intact) (hAcc : request.answer m = .ok value) :
    m.DiffersAt (request.candidate m) request.op.subject := by
  refine (KeyRegistry.change_step m request.op).differsAt h request.obeyed_op ?_
  refine (KeyRequest.effect hAcc).imp_right ?_
  rintro ⟨caller, id, rfl⟩
  exact ⟨⟨caller, id, _, rfl⟩, value, hAcc⟩

/-- What a request leaves behind, in memory and in the directory. -/
structure Settled (m : KeyRegistry) (request : KeyRequest) (bytes : List UInt8) (w : World)
    (u : World) (outcome : Outcome Error (KeyRegistry × Result KeyValue)) : Prop where
  possible : ∀ snapshot ∈ u.disk.possible, snapshot ∈ w.disk.possible ∨
    ((∃ value, request.answer m = .ok value) ∧ snapshot = some bytes)
  ends : (u.disk.snapshot = w.disk.snapshot ∧
      (outcome = .stopped ∨ ∃ e, outcome = .done (m, .error e))) ∨
    (u.disk.snapshot = some bytes ∧ ∃ value, request.answer m = .ok value ∧
      (outcome = .stopped ∨ (∃ e, outcome = .done (request.candidate m, .error e)) ∨
        outcome = .done (request.candidate m, .ok value)))

section

variable {w : World} {bytes : List UInt8} {u : World}
  {outcome : Outcome Error (KeyRegistry × Result KeyValue)}

theorem World.Untouched.possible (h : w.Untouched u) :
    u.disk.possible = w.disk.possible ∧ u.disk.snapshot = w.disk.snapshot := by
  obtain ⟨temp, rfl⟩ := h
  exact ⟨rfl, rfl⟩

theorem settled_of_same (h : w.Untouched u)
    (hEnd : outcome = .stopped ∨ ∃ e, outcome = .done (m, .error e))
    (given : List ProviderKeyReference) : Settled m request bytes w (u.gave given) outcome := by
  obtain ⟨hPossible, hSnap⟩ := h.possible
  refine ⟨?_, .inl ⟨hSnap, hEnd⟩⟩
  intro snapshot hMem
  exact .inl (hPossible ▸ hMem)

theorem settled_of_replaced
    (hState : u = w.replaced bytes ∨ u = w.synced bytes) (hAcc : request.answer m = .ok value)
    (hEnd : outcome = .stopped ∨ (∃ e, outcome = .done (request.candidate m, .error e)) ∨
      outcome = .done (request.candidate m, .ok value)) (given : List ProviderKeyReference) :
    Settled m request bytes w (u.gave given) outcome := by
  rcases hState with rfl | rfl
  · refine ⟨?_, .inr ⟨rfl, value, hAcc, hEnd⟩⟩
    intro snapshot hMem
    rcases mem_cons.mp hMem with rfl | hMem
    · exact .inr ⟨⟨value, hAcc⟩, rfl⟩
    · exact .inl hMem
  · refine ⟨?_, .inr ⟨rfl, value, hAcc, hEnd⟩⟩
    intro snapshot hMem
    exact .inr ⟨⟨value, hAcc⟩, mem_singleton.mp hMem⟩

theorem RequestEnd.settled {calls : Nat} {script rest : List (Fault Error)}
    (h : RequestEnd m request w bytes calls script (u, rest, outcome)) :
    Settled m request bytes w u outcome := by
  cases h with
  | refused _ hEnd =>
    refine settled_of_same ⟨w.disk.temp, rfl⟩ ?_ _
    rcases hEnd with ⟨-, hEnd⟩ | ⟨-, hEnd⟩
    · exact .inr hEnd
    · exact .inl hEnd
  | kept _ hSame hEnd =>
    refine settled_of_same hSame ?_ _
    rcases hEnd with ⟨-, hEnd⟩ | ⟨-, hEnd⟩
    · exact .inr hEnd
    · exact .inl hEnd
  | stopped hAcc hState =>
    rw [← u.gave_nil]
    rcases hState with (hSame | hState) | hState
    · exact settled_of_same hSame (.inl rfl) _
    · exact settled_of_replaced (.inl hState) hAcc (.inl rfl) _
    · exact settled_of_replaced (.inr hState) hAcc (.inl rfl) _
  | unsynced hAcc _ hEnd =>
    refine settled_of_replaced (.inl rfl) hAcc ?_ _
    rcases hEnd with ⟨-, hEnd⟩ | ⟨-, hEnd⟩
    · exact .inr (.inl hEnd)
    · exact .inl hEnd
  | synced hAcc _ hEnd =>
    refine settled_of_replaced (.inr rfl) hAcc ?_ _
    rcases hEnd with ⟨-, hEnd⟩ | ⟨-, hEnd⟩
    · exact .inr (.inr hEnd)
    · exact .inl hEnd

end

section

variable {restore : Restore}

theorem reads_opening {r : KeyRegistry} {w : World} (h : r.Intact)
    (hHolds : Holds restore w.disk.snapshot r) :
    Reads (opening restore) w (1 + loadCalls w.disk.snapshot r) (r.reloaded, .ok .done)
      (1 + loadQuiet w.disk.snapshot r) :=
  (reads_openRegistry h hHolds).returns fun memory =>
    ((memory, .ok .done) : KeyRegistry × Result KeyValue)

/-- How opening ends, whatever happens on the way. -/
theorem opening_end {r : KeyRegistry} {w : World} (h : r.Intact)
    (hHolds : Holds restore w.disk.snapshot r) (script : List (Fault Error)) :
    (opening restore w script).1.disk = w.disk ∧
      ((opening restore w script).2.2 = .done (r.reloaded, .ok .done) ∨
        Program.Cut (opening restore w script)) := by
  have hReads := reads_opening h hHolds
  cases hHit : interruption (1 + loadCalls w.disk.snapshot r) script with
  | none =>
    rw [hReads.passed script hHit]
    exact ⟨rfl, .inl rfl⟩
  | some hit =>
    refine ⟨?_, .inr (hReads.cut hHit)⟩
    obtain ⟨i, fault⟩ := hit
    cases fault with
    | pass => exact absurd hHit interruption_ne_pass
    | fail extent e => exact (hReads.failed script i extent e hHit).1.1
    | stop extent => exact congrArg World.disk (hReads.stopped script i extent hHit).1

theorem Disk.recovered_mem (d : Disk) (back : Nat) (temp : Option (List UInt8)) :
    (d.recovered back temp).snapshot ∈ d.possible := by
  show d.possible.getD back d.snapshot ∈ d.possible
  rw [getD_eq_getElem?_getD]
  cases hBack : d.possible[back]? with
  | none => exact mem_cons_self
  | some => exact mem_of_getElem? hBack

/-- Every snapshot that may be there stands for a registry, and the registry in memory
is the one that the visible snapshot stands for. -/
structure KeyService.Consistent (restore : Restore) (s : KeyService) : Prop where
  stored : ∀ snapshot ∈ s.world.disk.possible,
    ∃ r : KeyRegistry, r.Intact ∧ Holds restore snapshot r
  memory : ∀ m, s.memory = some m → m.Intact ∧
    ∃ r : KeyRegistry, r.Intact ∧ Holds restore s.world.disk.snapshot r ∧ r.reloaded = m.reloaded

namespace KeyService

variable {s : KeyService}

theorem Consistent.visible (h : s.Consistent restore) :
    ∃ r : KeyRegistry, r.Intact ∧ Holds restore s.world.disk.snapshot r :=
  h.stored _ mem_cons_self

theorem consistent_open (h : s.Consistent restore) (script : List (Fault Error)) :
    (settle none (opening restore s.world script)).1.Consistent restore := by
  obtain ⟨r, hIntact, hHolds⟩ := h.visible
  obtain ⟨hDisk, hEnd⟩ := opening_end hIntact hHolds script
  generalize opening restore s.world script = result at hDisk hEnd
  obtain ⟨u, rest, outcome⟩ := result
  cases outcome with
  | done reply =>
    rcases hEnd with hEnd | hCut
    · cases hEnd
      refine ⟨?_, ?_⟩
      · show ∀ snapshot ∈ u.disk.possible, _
        rw [hDisk]
        exact h.stored
      rintro m hm
      cases hm
      refine ⟨hIntact.reloaded, r, hIntact, ?_, hIntact.reloaded_reloaded.symm⟩
      show Holds restore u.disk.snapshot r
      rw [hDisk]
      exact hHolds
    · exact absurd rfl (hCut reply)
  | failed | stopped =>
    refine ⟨?_, nofun⟩
    show ∀ snapshot ∈ u.disk.possible, _
    rw [hDisk]
    exact h.stored

theorem consistent_request (h : s.Consistent restore) (hMemory : s.memory = some m)
    (request : KeyRequest) (wrap : Wrapping restore) (script : List (Fault Error)) :
    (settle (some m) (request.run wrap.persist m s.world script)).1.Consistent restore := by
  obtain ⟨hIntact, r, hrIntact, hHolds, hSame⟩ := h.memory m hMemory
  have hCand := request.intact_candidate hIntact
  have hEnd := requestEnd wrap hIntact request s.world script
  rcases hRes : request.run wrap.persist m s.world script with ⟨u, rest, outcome⟩
  rw [hRes] at hEnd
  obtain ⟨hPossible, hEnds⟩ := hEnd.settled
  have hStored : ∀ snapshot ∈ u.disk.possible,
      ∃ r : KeyRegistry, r.Intact ∧ Holds restore snapshot r := by
    intro snapshot hSnap
    rcases hPossible snapshot hSnap with hOld | ⟨-, rfl⟩
    · exact h.stored snapshot hOld
    · exact ⟨request.candidate m, hCand, .stored wrap _⟩
  rcases hEnds with ⟨hVisible, rfl | ⟨e, rfl⟩⟩ | ⟨hVisible, value, -, rfl | ⟨e, rfl⟩ | rfl⟩
  · exact ⟨hStored, nofun⟩
  · refine ⟨hStored, ?_⟩
    rintro _ hm
    cases hm
    refine ⟨hIntact, r, hrIntact, ?_, hSame⟩
    show Holds restore u.disk.snapshot r
    rw [hVisible]
    exact hHolds
  · exact ⟨hStored, nofun⟩
  all_goals
    refine ⟨hStored, ?_⟩
    rintro _ hm
    cases hm
    refine ⟨hCand, request.candidate m, hCand, ?_, rfl⟩
    show Holds restore u.disk.snapshot _
    rw [hVisible]
    exact .stored wrap _

theorem consistent_step (s : KeyService) (event : KeyEvent restore) (h : s.Consistent restore) :
    (s.step event).1.Consistent restore := by
  cases event with
  | openRegistry script => exact consistent_open h script
  | request request wrap script =>
    unfold step
    cases hMemory : s.memory with
    | none => exact h
    | some => exact consistent_request h hMemory request wrap script
  | exit => exact ⟨h.stored, nofun⟩
  | powerLoss back temp =>
    refine ⟨?_, nofun⟩
    intro snapshot hSnap
    refine h.stored snapshot ?_
    rw [mem_singleton.mp hSnap]
    exact Disk.recovered_mem s.world.disk back temp

theorem consistent_start : ({} : KeyService).Consistent restore := by
  refine ⟨?_, nofun⟩
  intro snapshot hSnap
  rw [mem_singleton.mp hSnap]
  exact ⟨{}, KeyRegistry.intact_start, .absent⟩

end KeyService

end

namespace KeyServiceRun

variable {restore : Restore} (events : List (KeyEvent restore)) {n : Nat}

/-- The service after the first `n` events, started on an empty directory. -/
def reached (n : Nat) : KeyService := Run.after KeyService.step {} (events.take n)

def snapshot (n : Nat) : Option (List UInt8) := (reached events n).world.disk.snapshot

/-- What holds over a whole run of the service. -/
structure CrashConsistent : Prop where
  memory : ∀ n m, (reached events n).memory = some m →
    ∃ r, decode restore (snapshot events n) = some r ∧ r.view = m.view
  opened : ∀ n script m, events[n]? = some (.openRegistry script) →
    (reached events (n + 1)).memory = some m → decode restore (snapshot events n) = some m
  succeeded : ∀ n request wrap script m value,
    events[n]? = some (.request request wrap script) → (reached events n).memory = some m →
    ((reached events n).step (.request request wrap script)).2 = some (.ok value) →
      (reached events (n + 1)).memory = some (m.step request.op).1 ∧
      (m.step request.op).2.result = .ok value ∧
      m.DiffersAt (m.step request.op).1 request.op.subject
  interrupted : ∀ n request wrap script m, events[n]? = some (.request request wrap script) →
    (reached events n).memory = some m → ∃ r, decode restore (snapshot events (n + 1)) = some r ∧
        (r.view = m.view ∨ r.view = (m.step request.op).1.view)
  untouched : ∀ n script, events[n]? = some (.openRegistry script) →
    snapshot events (n + 1) = snapshot events n
  reopens : ∀ n, ∃ r, decode restore (snapshot events n) = some r ∧
    PersistentKeyRegistry.openRegistry restore (reached events n).world [] =
      ((reached events n).world, [], .done r)
  persists : ∀ n m (wrap : Wrapping restore), (reached events n).memory = some m →
    ∃ w rest, persistCandidate wrap.persist m (reached events n).world [] =
        (w, rest, .done (.replaced none)) ∧
      ∃ r, decode restore w.disk.snapshot = some r ∧ r.view = m.view

theorem consistent_reached (n : Nat) : (reached events n).Consistent restore := by
  have hAlways : Run.Always KeyService.step (KeyService.Consistent restore) {} events :=
    Run.always_of_invariant KeyService.consistent_start KeyService.consistent_step
  exact hAlways n

variable {events}

theorem reached_succ {event : KeyEvent restore} (h : events[n]? = some event) :
    reached events (n + 1) = ((reached events n).step event).1 := Run.after_take_succ h

theorem view_decode (h : (reached events n).memory = some m) :
    ∃ r, decode restore (snapshot events n) = some r ∧ r.view = m.view := by
  obtain ⟨hIntact, r, hrIntact, hHolds, hSame⟩ := (consistent_reached events n).memory m h
  refine ⟨r.reloaded, decode_of_holds hrIntact hHolds, ?_⟩
  rw [hSame, hIntact.view_reloaded]

/-- What the step of a request leaves. -/
theorem settled_reached {wrap : Wrapping restore}
    {script : List (Fault Error)} (hEvent : events[n]? = some (.request request wrap script))
    (hMemory : (reached events n).memory = some m) :
    ∃ u rest outcome, request.run wrap.persist m (reached events n).world script =
        (u, rest, outcome) ∧
      Settled m request (snapshotBytes wrap.persist (request.candidate m))
        (reached events n).world u outcome ∧
      (reached events n).step (.request request wrap script) =
        KeyService.settle (some m) (u, rest, outcome) ∧
      reached events (n + 1) = (KeyService.settle (some m) (u, rest, outcome)).1 := by
  have hIntact := ((consistent_reached events n).memory m hMemory).1
  have hEnd := requestEnd wrap hIntact request (reached events n).world script
  rcases hRes : request.run wrap.persist m (reached events n).world script with
    ⟨u, rest, outcome⟩
  rw [hRes] at hEnd
  have hStep : (reached events n).step (.request request wrap script) =
      KeyService.settle (some m) (u, rest, outcome) := by
    rw [KeyService.step, hMemory, ← hRes]
  exact ⟨u, rest, outcome, rfl, hEnd.settled, hStep, by rw [reached_succ hEvent, hStep]⟩

/-- In every run, and at whichever call it is interrupted, the persistent registry is
atomic and consistent with its snapshot. -/
theorem persistent_registry_is_crash_consistent (events : List (KeyEvent restore)) :
    CrashConsistent events := by
  constructor
  · exact fun n m h => view_decode h
  · intro n script m hEvent hMemory
    obtain ⟨r, hIntact, hHolds⟩ := (consistent_reached events n).visible
    have hEnd := (opening_end hIntact hHolds script).2
    rw [reached_succ hEvent, KeyService.step] at hMemory
    generalize opening restore (reached events n).world script = result at hEnd hMemory
    obtain ⟨u, rest, outcome⟩ := result
    cases outcome with
    | done reply =>
      rcases hEnd with hEnd | hCut
      · cases hEnd
        cases hMemory
        exact decode_of_holds hIntact hHolds
      · exact absurd rfl (hCut reply)
    | failed | stopped => cases hMemory
  · intro n request wrap script m value hEvent hMemory hOk
    obtain ⟨u, rest, outcome, -, hSettled, hStep, hNext⟩ := settled_reached hEvent hMemory
    have hIntact := ((consistent_reached events n).memory m hMemory).1
    rw [hStep] at hOk
    rw [hNext]
    rcases hSettled.ends with ⟨-, rfl | ⟨e, rfl⟩⟩ | ⟨-, value', hAcc, rfl | ⟨e, rfl⟩ | rfl⟩
    iterate 4 cases hOk
    · cases hOk
      exact ⟨rfl, hAcc, KeyRequest.differsAt hIntact hAcc⟩
  · intro n request wrap script m hEvent hMemory
    obtain ⟨u, rest, outcome, -, hSettled, -, hNext⟩ := settled_reached hEvent hMemory
    obtain ⟨hIntact, -⟩ := (consistent_reached events n).memory m hMemory
    have hVisible : snapshot events (n + 1) = u.disk.snapshot := by
      rw [snapshot, hNext]
      cases outcome with
      | done | failed | stopped => rfl
    rw [hVisible]
    rcases hSettled.ends with ⟨hSame, -⟩ | ⟨hReplaced, -⟩
    · obtain ⟨r, hDecode, hView⟩ := view_decode hMemory
      rw [hSame]
      exact ⟨r, hDecode, .inl hView⟩
    · have hCand := request.intact_candidate hIntact
      rw [hReplaced]
      exact ⟨_, decode_of_holds hCand (.stored wrap _), .inr hCand.view_reloaded⟩
  · intro n script hEvent
    obtain ⟨r, hIntact, hHolds⟩ := (consistent_reached events n).visible
    have hDisk := (opening_end hIntact hHolds script).1
    rw [snapshot, reached_succ hEvent, KeyService.step, snapshot]
    generalize opening restore (reached events n).world script = result at hDisk
    obtain ⟨u, rest, outcome⟩ := result
    cases outcome with
    | done | failed | stopped => exact congrArg Disk.snapshot hDisk
  · intro n
    obtain ⟨r, hIntact, hHolds⟩ := (consistent_reached events n).visible
    refine ⟨r.reloaded, decode_of_holds hIntact hHolds, ?_⟩
    rw [(reads_openRegistry hIntact hHolds).passed [] (interruption_nil _), drop_nil]
  · intro n m wrap hMemory
    obtain ⟨hIntact, -⟩ := (consistent_reached events n).memory m hMemory
    have hEnd := persistEnd wrap hIntact (reached events n).world []
    rcases hRes : persistCandidate wrap.persist m (reached events n).world [] with
      ⟨u, rest, outcome⟩
    rw [hRes] at hEnd
    cases hEnd with
    | stopped _ hHit | kept _ hHit => exact absurd (interruption_nil _) hHit
    | unsynced hHit =>
      rw [interruption_nil] at hHit
      cases hHit
    | synced =>
      refine ⟨_, _, rfl, m.reloaded, ?_, hIntact.view_reloaded⟩
      exact decode_of_holds hIntact (.stored wrap _)

end KeyServiceRun

end Enml.OsKeys
