import Enml.Lib.Run
import Enml.OsService.Identity

/-! An identity is bound to one start of one process. A pid may be handed to
another process, the entry made for the first one then answers nothing. -/
namespace Enml.OsService

open Enml.Core SlotTable Entry List IdentityRegistry List.Sublist
  IdentityReply

variable {e : Entry} {record : ProcessIdentityRecord} {p q : Process} {w : Processes}

namespace IdentityRegistry

variable {t : IdentityRegistry}

/-- No two entries in use share a logical process or a native pid. -/
structure Unique (t : IdentityRegistry) : Prop where
  processes : ((SlotTable.entries key t.entries).map fun e => e.record.peer.process).Nodup
  pids : ((SlotTable.entries key t.entries).map fun e => e.record.kernel.processId).Nodup

theorem isSome_key : e.key.isSome = e.occupied := by
  cases h : e.occupied <;> simp [key, h]

theorem mem_entries : e ∈ SlotTable.entries key t.entries ↔ e ∈ t.entries ∧ e.occupied = true := by
  rw [SlotTable.mem_entries, isSome_key]

theorem conflicts_iff :
    conflicts record e = true ↔ e.occupied = true ∧ (e.record.peer.process = record.peer.process ∨
        e.record.kernel.processId = record.kernel.processId) := by
  simp [conflicts]

theorem Unique.eq_of_process (h : t.Unique) {a b : Entry} (ha : a ∈ SlotTable.entries key t.entries)
    (hb : b ∈ SlotTable.entries key t.entries)
    (hSame : a.record.peer.process = b.record.peer.process) : a = b :=
  inj_on_of_nodup_map h.processes ha hb hSame

/-- What a registration can do: refuse, find the client registered already, or add
an entry that nothing stood in the way of. -/
theorem registerProcess_cases (w : Processes) (t : IdentityRegistry)
    (record : ProcessIdentityRecord) (pidfd : Pidfd) :
    (∃ e, t.registerProcess w record pidfd = (t, .error e)) ∨
    (pidfdAlive w pidfd = true ∧ t.registerProcess w record pidfd = (t, .ok ()) ∧
      ∃ e ∈ SlotTable.entries key t.entries, e.record = record ∧ pidfdAlive w e.pidfd = true) ∨
    (pidfdAlive w pidfd = true ∧ (∀ e ∈ t.entries, conflicts record e = false) ∧
      ∃ entries, insert key { occupied := true, record, pidfd } t.entries = some entries ∧
        t.registerProcess w record pidfd = ({ entries }, .ok ())) := by
  unfold registerProcess
  split_ifs with hInvalid hStale
  · exact .inl ⟨_, rfl⟩
  · exact .inl ⟨_, rfl⟩
  have hAlive : pidfdAlive w pidfd = true := by simpa using hStale
  cases hFind : t.entries.find? (conflicts record) with
  | some e =>
    have hMem := mem_of_find?_eq_some hFind
    have hConflicts := conflicts_iff.mp (find?_some hFind)
    dsimp only
    split_ifs with hSame
    · obtain ⟨hPeer, hKernel, hEntry⟩ := hSame
      refine .inr (.inl ⟨hAlive, rfl, e, mem_entries.mpr ⟨hMem, hConflicts.1⟩, ?_, hEntry⟩)
      cases hRec : e.record
      rw [hRec] at hPeer hKernel
      cases record
      simp_all
    · exact .inl ⟨_, rfl⟩
  | none =>
    have hNone : ∀ e ∈ t.entries, conflicts record e = false := by simpa using hFind
    cases hIns : insert key { occupied := true, record, pidfd } t.entries with
    | none => exact .inl ⟨_, rfl⟩
    | some entries => exact .inr (.inr ⟨hAlive, hNone, entries, rfl, rfl⟩)

/-- The two operations that drop an entry. -/
theorem entries_dropped {p : Entry → Bool} (hp : ∀ e, p e = true → e.occupied = true) :
    SlotTable.entries key (SlotTable.updateFirst p (fun _ => {}) t.entries) =
      (SlotTable.entries key t.entries).eraseP p := by
  refine SlotTable.entries_updateFirst_free rfl ?_ t.entries
  intro e he
  rw [isSome_key]
  exact hp e he

theorem unregisterProcess_sublist (t : IdentityRegistry) (process : ProcessId) :
    (SlotTable.entries key (t.unregisterProcess process).1.entries).Sublist
      (SlotTable.entries key t.entries) := by
  unfold unregisterProcess
  split_ifs
  · exact refl _
  dsimp only
  split
  · exact refl _
  · rw [entries_dropped (by simp +contextual)]
    exact eraseP_sublist

theorem resolve_sublist (w : Processes) (t : IdentityRegistry)
    (credentials : KernelPeerCredentials) :
    (SlotTable.entries key (t.resolve w credentials).1.entries).Sublist
      (SlotTable.entries key t.entries) := by
  unfold resolve
  split_ifs
  · exact refl _
  dsimp only
  split
  · exact refl _
  split_ifs
  · exact refl _
  · rw [entries_dropped (by simp +contextual)]
    exact eraseP_sublist
  · exact refl _

/-- A packet is given the identity of an entry for its exact credentials, whose
process is alive. -/
theorem resolve_eq_ok {credentials : KernelPeerCredentials} {peer : PeerIdentity}
    (h : (t.resolve w credentials).2 = .ok peer) :
    ∃ e ∈ SlotTable.entries key t.entries,
      e.record = { kernel := credentials, peer } ∧ pidfdAlive w e.pidfd = true := by
  unfold resolve at h
  split_ifs at h
  dsimp only at h
  split at h
  · cases h
  rename_i e hFind
  have hMem := mem_of_find?_eq_some hFind
  have hFound := find?_some hFind
  rw [Bool.and_eq_true, beq_iff_eq] at hFound
  split_ifs at h with hWrong hStale
  rw [not_or, not_not, not_not] at hWrong
  cases h
  refine ⟨e, mem_entries.mpr ⟨hMem, hFound.1⟩, ?_, by simpa using hStale⟩
  obtain ⟨occupied, ⟨⟨pid, uid, gid⟩, peer⟩, pidfd⟩ := e
  obtain ⟨rfl, rfl⟩ := hWrong
  obtain ⟨-, rfl⟩ := hFound
  rfl

theorem Unique.of_sublist {t' : IdentityRegistry} (h : t.Unique)
    (hSub : (SlotTable.entries key t'.entries).Sublist
      (SlotTable.entries key t.entries)) : t'.Unique :=
  ⟨(hSub.map _).nodup h.processes, (hSub.map _).nodup h.pids⟩

theorem Unique.registerProcess (h : t.Unique) (w : Processes) (record : ProcessIdentityRecord)
    (pidfd : Pidfd) :
    (t.registerProcess w record pidfd).1.Unique := by
  rcases registerProcess_cases w t record pidfd with
    ⟨e, hErr⟩ | ⟨-, hOk, -⟩ | ⟨-, hNone, entries, hIns, hOk⟩
  · rw [hErr]
    exact h
  · rw [hOk]
    exact h
  have hPerm : (SlotTable.entries key entries).Perm
      ({ occupied := true, record, pidfd } :: SlotTable.entries key t.entries) :=
    entries_insert rfl hIns
  have hApart : ∀ e ∈ SlotTable.entries key t.entries, e.record.peer.process ≠ record.peer.process ∧
        e.record.kernel.processId ≠ record.kernel.processId := by
    intro e he
    obtain ⟨hMem, hOcc⟩ := mem_entries.mp he
    have hFree := hNone e hMem
    rw [← Bool.not_eq_true, conflicts_iff, not_and, not_or] at hFree
    exact hFree hOcc
  rw [hOk]
  exact ⟨nodup_map_of_perm hPerm h.processes fun e he => (hApart e he).1,
    nodup_map_of_perm hPerm h.pids fun e he => (hApart e he).2⟩

end IdentityRegistry

namespace Processes

/-- Living processes have pids of their own. -/
def Separate (w : Processes) : Prop := (w.alive.map Process.pid).Nodup

theorem Separate.spawn (h : w.Separate) (pid : Int64) : (w.spawn pid).Separate := by
  unfold Processes.spawn
  split_ifs with hTaken
  · exact h
  refine nodup_map_of_perm (List.Perm.refl _) h fun p hp hSame => ?_
  exact hTaken (any_eq_true.mpr ⟨p, hp, beq_iff_eq.mpr hSame⟩)

theorem Separate.exit (h : w.Separate) (p : Process) : (w.exit p).Separate :=
  ((erase_sublist ..).map _).nodup h

theorem Separate.eq_of_pid (h : w.Separate) (hp : p ∈ w.alive) (hq : q ∈ w.alive)
    (hSame : p.pid = q.pid) : p = q :=
  inj_on_of_nodup_map h hp hq hSame

end Processes

theorem mem_alive_of_pidfdAlive {pidfd : Pidfd} (h : pidfdAlive w pidfd = true) :
    ∃ p, pidfd = some p ∧ p ∈ w.alive := by
  cases pidfd with
  | none => cases h
  | some p => exact ⟨p, rfl, contains_iff_mem.mp h⟩

namespace Host

variable {h : Host}

structure Sound (h : Host) : Prop where
  unique : h.registry.Unique
  separate : h.processes.Separate

theorem sound_start : ({} : Host).Sound := by
  have hNone : entries key ({} : IdentityRegistry).entries = [] := entries_replicate rfl _
  refine ⟨⟨?_, ?_⟩, nodup_nil⟩
  all_goals
    rw [hNone]
    exact nodup_nil

theorem Sound.step (hs : h.Sound) (op : IdentityOp) : (h.step op).1.Sound := by
  cases op with
  | register record pidfd => exact ⟨hs.unique.registerProcess _ record pidfd, hs.separate⟩
  | unregister process =>
    exact ⟨hs.unique.of_sublist (h.registry.unregisterProcess_sublist process), hs.separate⟩
  | resolve credentials =>
    exact ⟨hs.unique.of_sublist (h.registry.resolve_sublist _ credentials), hs.separate⟩
  | spawn pid => exact ⟨hs.unique, hs.separate.spawn pid⟩
  | exit process => exact ⟨hs.unique, hs.separate.exit process⟩

/-- The entries in use. -/
def registered (h : Host) : List Entry := entries key h.registry.entries

/-- An entry that a step finds or makes: it was there before, or the step registered
it with a descriptor of a living process. -/
theorem registered_step {op : IdentityOp} (he : e ∈ (h.step op).1.registered) :
    e ∈ h.registered ∨ (op = .register e.record e.pidfd ∧ (h.step op).2 = .done (.ok ()) ∧
        pidfdAlive h.processes e.pidfd = true) := by
  cases op with
  | register record pidfd =>
    change e ∈ entries key
      (h.registry.registerProcess h.processes record pidfd).1.entries at he
    rcases registerProcess_cases h.processes h.registry record pidfd with
      ⟨e', hErr⟩ | ⟨-, hOk, -⟩ | ⟨hAlive, -, entries, hIns, hOk⟩
    · rw [hErr] at he
      exact .inl he
    · rw [hOk] at he
      exact .inl he
    rw [hOk] at he
    rcases mem_cons.mp ((entries_insert rfl hIns).mem_iff.mp he) with
      rfl | hOld
    · refine .inr ⟨rfl, ?_, hAlive⟩
      show done (h.registry.registerProcess h.processes record pidfd).2 = _
      rw [hOk]
    · exact .inl hOld
  | unregister process => exact .inl ((h.registry.unregisterProcess_sublist process).subset he)
  | resolve credentials => exact .inl ((h.registry.resolve_sublist _ credentials).subset he)
  | spawn | exit => exact .inl he

/-- The host after the first `n` operations of a run. -/
def reached (ops : List IdentityOp) (n : Nat) : Host := Run.after Host.step {} (ops.take n)

/-- The registry is sound in every state of a run. -/
theorem sound_reached (ops : List IdentityOp) (n : Nat) : (reached ops n).Sound :=
  Run.always_of_invariant sound_start (fun _ op hs => hs.step op) n

/-- The entry was made by the operation at place `m` and has been in use since. -/
structure MadeAt (ops : List IdentityOp) (n m : Nat) (e : Entry) : Prop where
  before : m < n
  op : ops[m]? = some (.register e.record e.pidfd)
  accepted : ((reached ops m).step (.register e.record e.pidfd)).2 = .done (.ok ())
  alive : pidfdAlive (reached ops m).processes e.pidfd = true
  kept : ∀ k, m < k → k ≤ n → e ∈ (reached ops k).registered

theorem exists_madeAt {ops : List IdentityOp} {n : Nat} (he : e ∈ (reached ops n).registered) :
    ∃ m, MadeAt ops n m e := by
  induction n with
  | zero =>
    have hNone : (reached ops 0).registered = [] := by exact entries_replicate rfl _
    rw [hNone] at he
    cases he
  | succ n ih =>
    have hLast : ∀ m, (∀ k, m < k → k ≤ n → e ∈ (reached ops k).registered) →
        ∀ k, m < k → k ≤ n + 1 → e ∈ (reached ops k).registered := by
      intro m hKept k hAfter hUpto
      rcases Nat.lt_or_eq_of_le hUpto with hEarlier | rfl
      · exact hKept k hAfter (Nat.le_of_lt_succ hEarlier)
      · exact he
    have hOld : e ∈ (reached ops n).registered → ∃ m, MadeAt ops (n + 1) m e := by
      intro hBefore
      obtain ⟨m, hMade⟩ := ih hBefore
      exact ⟨m, Nat.lt_succ_of_lt hMade.before, hMade.op, hMade.accepted, hMade.alive,
        hLast m hMade.kept⟩
    cases hOp : ops[n]? with
    | none =>
      refine hOld ?_
      rwa [reached, Run.take_succ_of_none hOp] at he
    | some op =>
      have hStep : reached ops (n + 1) = ((reached ops n).step op).1 := Run.after_take_succ hOp
      rw [hStep] at he
      rcases registered_step he with hBefore | ⟨rfl, hAcc, hAlive⟩
      · exact hOld hBefore
      · refine ⟨n, Nat.lt_succ_self n, hOp, hAcc, hAlive, hLast n ?_⟩
        intro k hAfter hUpto
        omega

/-- What stands behind an identity given to a packet: the registration of exactly
those credentials for that identity, made with a descriptor of the process `p`
which is alive. When descriptor and record were of one process, that process is
the one that has the pid now, and any later registration of the client that was
accepted was of it too. -/
structure Vouched (ops : List IdentityOp) (n : Nat) (credentials : KernelPeerCredentials)
    (peer : PeerIdentity) (m : Nat) (p : Process) : Prop where
  made : MadeAt ops n m ⟨true, { kernel := credentials, peer }, some p⟩
  alive : p ∈ (reached ops n).processes.alive
  holder : p.pid = credentials.processId → ∀ q ∈ (reached ops n).processes.alive,
    q.pid = credentials.processId → q = p
  repeated : p.pid = credentials.processId → ∀ k record q, m < k → k < n →
    ops[k]? = some (.register record (some q)) →
    ((reached ops k).step (.register record (some q))).2 = .done (.ok ()) →
    record.peer = peer → q.pid = record.kernel.processId → q = p

/-- Every identity given out in the run has a registration behind it. -/
def GivenOnlyToRegistered (ops : List IdentityOp) : Prop :=
  ∀ n credentials peer, ops[n]? = some (.resolve credentials) →
    ((reached ops n).step (.resolve credentials)).2 = .resolved (.ok peer) →
    ∃ m p, Vouched ops n credentials peer m p

/-- A registration that is accepted while the client has an entry is of the process
that entry was made for. -/
theorem repeated_registration (hs : h.Sound) (he : e ∈ h.registered) (hPidfd : e.pidfd = some p)
    (hPid : p.pid = e.record.kernel.processId) (hOther : q.pid = record.kernel.processId)
    (hPeer : record.peer = e.record.peer)
    (hAcc : (h.step (.register record (some q))).2 = .done (.ok ())) : q = p := by
  have hRes : (h.registry.registerProcess h.processes record (some q)).2 = .ok () :=
    done.inj hAcc
  rcases registerProcess_cases h.processes h.registry record (some q) with
    ⟨e', hErr⟩ | ⟨hNew, -, e', he', hRec, hOld⟩ | ⟨-, hNone, -⟩
  · rw [hErr] at hRes
    cases hRes
  · have hSame : e' = e := by
      refine hs.unique.eq_of_process he' he ?_
      rw [hRec, hPeer]
    rw [hSame] at hOld hRec
    rw [hPidfd] at hOld
    have hp := contains_iff_mem.mp hOld
    have hq := contains_iff_mem.mp hNew
    refine hs.separate.eq_of_pid hq hp ?_
    rw [hOther, hPid, hRec]
  · obtain ⟨hMem, hOcc⟩ := IdentityRegistry.mem_entries.mp he
    have hFree := hNone e hMem
    rw [conflicts_iff.mpr ⟨hOcc, .inl (by rw [hPeer])⟩] at hFree
    cases hFree

/-- In every run the entries in use differ in logical process and in native pid,
and an identity is given only to the process instance it was registered for. -/
theorem identity_survives_pid_reuse (ops : List IdentityOp) :
    Run.Always Host.step (fun h => h.registry.Unique) {} ops ∧ GivenOnlyToRegistered ops := by
  refine ⟨fun n => (sound_reached ops n).unique, ?_⟩
  intro n credentials peer hOp hGiven
  obtain ⟨e, he, hRec, hAlive⟩ := resolve_eq_ok (resolved.inj hGiven)
  obtain ⟨p, hPidfd, hp⟩ := mem_alive_of_pidfdAlive hAlive
  obtain ⟨m, hMade⟩ := exists_madeAt he
  have hEntry : e = ⟨true, { kernel := credentials, peer }, some p⟩ := by
    have hOcc := (IdentityRegistry.mem_entries.mp he).2
    rw [← hRec, ← hPidfd, ← hOcc]
  refine ⟨m, p, hEntry ▸ hMade, hp, ?_, ?_⟩
  · intro hPid q hq hSame
    exact (sound_reached ops n).separate.eq_of_pid hq hp (hSame.trans hPid.symm)
  · intro hPid k record q hAfter hBefore hAgain hAcc hPeer hOther
    refine repeated_registration (sound_reached ops k) (hMade.kept k hAfter (Nat.le_of_lt hBefore))
      hPidfd ?_ hOther ?_ hAcc
    · rw [hPid, hRec]
    · rw [hPeer, hRec]

/-- How many processes with an entry are alive. -/
def livingCount (h : Host) : Nat :=
  h.registered.countP fun e => pidfdAlive h.processes e.pidfd

/-- A registration that the living leave room for: the record is valid, its process
is alive, no entry of a living process shares a name with it, and fewer than a
registry of them are alive. -/
structure RoomAmongLiving (h : Host) (record : ProcessIdentityRecord) (pidfd : Pidfd) : Prop where
  valid : validPeerIdentity record.peer = true ∧ 0 < record.kernel.processId
  alive : pidfdAlive h.processes pidfd = true
  apart : ∀ e ∈ h.registered, pidfdAlive h.processes e.pidfd = true → conflicts record e = false
  few : h.livingCount < maxIdentityRegistryEntries

/-- The dead are out of the way: none of them has an entry that shares a name with
the record, and they leave an entry of the registry free. -/
structure ClearOfDead (h : Host) (record : ProcessIdentityRecord) : Prop where
  apart : ∀ e ∈ h.registered, pidfdAlive h.processes e.pidfd = false → conflicts record e = false
  free : h.registered.length < maxIdentityRegistryEntries

def Registers (h : Host) (record : ProcessIdentityRecord) (pidfd : Pidfd) : Prop :=
  (h.registry.registerProcess h.processes record pidfd).2 = .ok ()

theorem length_entries_step (op : IdentityOp) :
    (h.step op).1.registry.entries.length = h.registry.entries.length := by
  cases op with
  | register record pidfd =>
    change (h.registry.registerProcess h.processes record pidfd).1.entries.length = _
    rcases registerProcess_cases h.processes h.registry record pidfd with
      ⟨e, hErr⟩ | ⟨-, hOk, -⟩ | ⟨-, -, entries, hIns, hOk⟩
    · rw [hErr]
    · rw [hOk]
    · rw [hOk]
      exact length_insert hIns
  | unregister process =>
    change (h.registry.unregisterProcess process).1.entries.length = _
    unfold unregisterProcess
    split_ifs
    · rfl
    dsimp only
    split
    · rfl
    · exact length_updateFirst ..
  | resolve credentials =>
    change (h.registry.resolve h.processes credentials).1.entries.length = _
    unfold resolve
    split_ifs
    · rfl
    dsimp only
    split
    · rfl
    split_ifs
    · rfl
    · exact length_updateFirst ..
    · rfl
  | spawn | exit => rfl

theorem length_entries_reached (ops : List IdentityOp) (n : Nat) :
    (reached ops n).registry.entries.length = maxIdentityRegistryEntries :=
  Run.always_of_invariant (P := fun h : Host => h.registry.entries.length = _) rfl
    (fun _ op hLen => (length_entries_step op).trans hLen) n

/-- A registration the living leave room for is accepted exactly when the dead are
out of its way too. -/
theorem registers_iff {pidfd : Pidfd} (hRoom : h.RoomAmongLiving record pidfd)
    (hLen : h.registry.entries.length = maxIdentityRegistryEntries) :
    h.Registers record pidfd ↔ h.ClearOfDead record := by
  obtain ⟨hPeer, hPid⟩ := hRoom.valid
  obtain ⟨p, rfl, hp⟩ := mem_alive_of_pidfdAlive hRoom.alive
  unfold Registers registerProcess
  rw [if_neg (by simpa [hPeer] using hPid), if_neg (by simp [hRoom.alive])]
  cases hFind : h.registry.entries.find? (conflicts record) with
  | some e =>
    -- what is found belongs to a dead process, the living are apart
    have hConflicts := find?_some hFind
    have hMem : e ∈ h.registered :=
      mem_entries.mpr ⟨mem_of_find?_eq_some hFind, (conflicts_iff.mp hConflicts).1⟩
    have hDead : pidfdAlive h.processes e.pidfd = false := by
      rw [← Bool.not_eq_true]
      intro hAlive
      rw [hRoom.apart e hMem hAlive] at hConflicts
      cases hConflicts
    dsimp only
    rw [if_neg (by simp [hDead])]
    refine iff_of_false (by simp) ?_
    intro hClear
    rw [hClear.apart e hMem hDead] at hConflicts
    cases hConflicts
  | none =>
    have hNone : ∀ e ∈ h.registry.entries, conflicts record e = false := by simpa using hFind
    have hFree : (insert key ⟨true, record, some p⟩ h.registry.entries).isSome ↔
        h.registered.length < maxIdentityRegistryEntries := by
      rw [insert_isSome_iff, ← hLen, registered, length_entries]
    dsimp only
    cases hIns : insert key ⟨true, record, some p⟩ h.registry.entries with
    | none =>
      rw [hIns] at hFree
      exact iff_of_false (by simp) fun hClear => by simpa using hFree.mpr hClear.free
    | some entries =>
      rw [hIns] at hFree
      refine iff_of_true rfl ⟨?_, hFree.mp rfl⟩
      intro e he _
      exact hNone e (IdentityRegistry.mem_entries.mp he).1

/-- In every state a run reaches, a registration the living leave room for is
accepted, if and only if the dead leave room for it as well. -/
theorem living_registered_iff (ops : List IdentityOp) (n : Nat) (record : ProcessIdentityRecord)
    (pidfd : Pidfd) :
    ((reached ops n).RoomAmongLiving record pidfd → (reached ops n).Registers record pidfd) ↔
      ((reached ops n).RoomAmongLiving record pidfd → (reached ops n).ClearOfDead record) :=
  imp_congr_right fun hRoom => registers_iff hRoom (length_entries_reached ops n)

/-- A client with the pid of one that has died is refused, though nothing else is
registered: no packet has asked for the pid since. -/
theorem dead_entry_refuses : ∃ ops n record pidfd,
    (reached ops n).RoomAmongLiving record pidfd ∧ ¬ (reached ops n).Registers record pidfd := by
  refine ⟨[.spawn 7, .register ⟨⟨7, 0, 0⟩, ⟨⟨0, 1⟩, 1, 1⟩⟩ (some ⟨7, 0⟩), .exit ⟨7, 0⟩, .spawn 7],
    4, ⟨⟨7, 0, 0⟩, ⟨⟨0, 2⟩, 1, 2⟩⟩, some ⟨7, 1⟩, ⟨?_, ?_, ?_, ?_⟩, ?_⟩
  all_goals
    try unfold Registers
    decide +kernel

end Host

end Enml.OsService
