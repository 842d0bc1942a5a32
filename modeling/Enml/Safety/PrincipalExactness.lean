import Enml.Invariant.PrincipalDirectory

/-! An application principal is never reassigned. In every run of the service, with its
files failing and its process ending at any step, a pair of application and user is
always answered with the same principal, and no other pair ever is. A damaged snapshot of
principals is not taken for another one; a file of no bytes is read as an empty store. -/
namespace Enml.OsApp

open Enml.Core Interruptible LittleEndian Buffer List ApplicationPrincipalStore Run
open Enml.OsPackage (ApplicationIdentity)

namespace PrincipalService

section Runs

variable {ops : List PrincipalOp}

/-- The record that call `n` of the run answers. -/
def AnsweredAt (ops : List PrincipalOp) (n : ℕ) (application : ApplicationIdentity)
    (user : UserId) (r : ApplicationPrincipalRecord) : Prop :=
  ∃ op, ops[n]? = some op ∧ op.key = some (application, user) ∧
    ((after step {} (ops.take n)).step op).2 = some (.ok r)

/-- After `n` calls the service remembers the answers to them. -/
theorem remembers_run (ops : List PrincipalOp) (n : ℕ) :
    ∃ answered, Remembers answered (after step {} (ops.take n)) ∧
      ∀ k < n, ∀ application user r, AnsweredAt ops k application user r → r ∈ answered := by
  induction n with
  | zero => exact ⟨[], ⟨{}, ⟨sound_empty, .inr ⟨rfl, rfl⟩⟩, nofun, nofun⟩, nofun⟩
  | succ n ih =>
    obtain ⟨answered, hRemembers, hEarlier⟩ := ih
    cases hOp : ops[n]? with
    | none =>
      rw [take_succ_of_none hOp]
      refine ⟨answered, hRemembers, fun k hk application user r hAns => ?_⟩
      rcases Nat.lt_succ_iff_lt_or_eq.mp hk with hk | rfl
      · exact hEarlier k hk application user r hAns
      · obtain ⟨op, hHere, -⟩ := hAns
        rw [hOp] at hHere
        cases hHere
    | some op =>
      have hKeeps := hRemembers.step op
      rw [after_take_succ hOp]
      by_cases hAnswered : ∃ r, ((after step {} (ops.take n)).step op).2 = some (.ok r)
      · obtain ⟨r, hr⟩ := hAnswered
        refine ⟨answered ++ [r], hKeeps.remembers.snoc (hKeeps.stored r hr),
          fun k hk application user p hAns => ?_⟩
        rcases Nat.lt_succ_iff_lt_or_eq.mp hk with hk | rfl
        · exact List.mem_append_left _ (hEarlier k hk application user p hAns)
        obtain ⟨op', hHere, -, hp⟩ := hAns
        obtain rfl : op = op' := Option.some.inj (hOp.symm.trans hHere)
        rw [hr] at hp
        cases hp
        exact List.mem_append_right _ (List.mem_singleton_self _)
      · refine ⟨answered, hKeeps.remembers, fun k hk application user p hAns => ?_⟩
        rcases Nat.lt_succ_iff_lt_or_eq.mp hk with hk | rfl
        · exact hEarlier k hk application user p hAns
        · obtain ⟨op', hHere, -, hp⟩ := hAns
          obtain rfl : op = op' := Option.some.inj (hOp.symm.trans hHere)
          exact absurd ⟨p, hp⟩ hAnswered

theorem sound_run (ops : List PrincipalOp) :
    Run.Always step (fun s => ∀ store, s.store = some store → store.Sound) {} ops := by
  intro n store hStore
  obtain ⟨_, ⟨_, _, _, hKept⟩, -⟩ := remembers_run ops n
  exact (hKept store hStore).1

variable {n k : ℕ} {application other : ApplicationIdentity} {user stranger : UserId}
  {r p : ApplicationPrincipalRecord}

/-- An answer is about what was asked for. -/
theorem AnsweredAt.asked (h : AnsweredAt ops n application user r) :
    r.application = application ∧ r.user = user := by
  obtain ⟨op, -, hKey, hReply⟩ := h
  obtain ⟨answered, hRemembers, -⟩ := remembers_run ops n
  exact (hRemembers.step op).asked r application user hReply hKey

/-- Two answers of a run stand in one store. -/
theorem AnsweredAt.principal_eq_iff (h : AnsweredAt ops n application user r)
    (h' : AnsweredAt ops k other stranger p) :
    r.principal = p.principal ↔ application = other ∧ user = stranger := by
  obtain ⟨answered, ⟨disk, hShows, hDisk, -⟩, hEarlier⟩ := remembers_run ops (max n k + 1)
  have hr := hDisk r (hEarlier n (by omega) application user r h)
  have hp := hDisk p (hEarlier k (by omega) other stranger p h')
  rw [hShows.1.principal_eq_iff hr hp, h.asked.1, h.asked.2, h'.asked.1, h'.asked.2]

/-- Whatever store the process has later, its next principal is a later one. -/
theorem AnsweredAt.below_next (h : AnsweredAt ops n application user r) (hnk : n < k)
    {store : ApplicationPrincipalStore}
    (hStore : (after step {} (ops.take k)).store = some store) :
    r.principal.low < store.nextPrincipalLow := by
  obtain ⟨answered, ⟨_, _, _, hKept⟩, hEarlier⟩ := remembers_run ops k
  obtain ⟨hSound, hAnswered, -⟩ := hKept store hStore
  exact hSound.below r (hAnswered r (hEarlier n hnk application user r h))

end Runs

/-- In every run, whatever fails and wherever the process ends, answers for one pair
carry one principal and answers for two pairs carry two, the next principal is above
all that were answered, and every store the process has fits into a snapshot. -/
theorem principal_is_never_reassigned (ops : List PrincipalOp) :
    (∀ n k application user other stranger r p, AnsweredAt ops n application user r →
      AnsweredAt ops k other stranger p →
      (r.principal = p.principal ↔ application = other ∧ user = stranger)) ∧
    (∀ n application user r, AnsweredAt ops n application user r →
      r.application = application ∧ r.user = user) ∧
    (∀ n k application user r store, AnsweredAt ops n application user r → n < k →
      (after step {} (ops.take k)).store = some store →
      r.principal.low < store.nextPrincipalLow) ∧
    Run.Always step (fun s => ∀ store, s.store = some store → store.Sound) {} ops ∧
    ∀ store : ApplicationPrincipalStore, store.Sound → ∃ bytes,
      encodeSnapshot store = .ok bytes ∧ bytes.length ≤ maxApplicationPrincipalSnapshotBytes := by
  refine ⟨?_, ?_, ?_, sound_run ops, ?_⟩
  · intro n k application user other stranger r p h h'
    exact h.principal_eq_iff h'
  · intro n application user r h
    exact h.asked
  · intro n k application user r store h hnk hStore
    exact h.below_next hnk hStore
  · intro store h
    exact ⟨store.bytes, h.encodeSnapshot_eq, h.length_le.trans (by decide)⟩

end PrincipalService

namespace ApplicationPrincipalStore

variable {s : ApplicationPrincipalStore} {bytes : List UInt8}

/-- `persist_candidate` of the store, when no call on files fails, leaves these bytes. -/
def WrittenAs (s : ApplicationPrincipalStore) (bytes : List UInt8) : Prop :=
  ∀ d, (persistCandidate s d []).1.snapshot = some bytes ∧ (persistCandidate s d []).2.2 = .done ()

theorem Sound.persistCandidate_eq (h : s.Sound) (d : StateDirectory) :
    persistCandidate s d [] = ({ snapshot := some s.bytes, temp := none }, [], .done ()) := by
  rw [persistCandidate, h.encodeSnapshot_eq]
  simp only [bind, unlinkTemp, openTemp, replaceSnapshot, chmodTemp, writeAll, syncTemp, renameTemp,
    syncDirectory, fileCall, Program.call, Program.onFailure, renamed]
  simp

theorem Sound.writtenAs_iff (h : s.Sound) : s.WrittenAs bytes ↔ s.bytes = bytes := by
  constructor
  · intro hWritten
    have hFile := (hWritten {}).1
    rw [h.persistCandidate_eq] at hFile
    exact Option.some.inj hFile
  · rintro rfl d
    rw [h.persistCandidate_eq]
    exact ⟨rfl, rfl⟩

theorem bytes_ne_nil (s : ApplicationPrincipalStore) : s.bytes ≠ [] := by
  have hHeader : applicationPrincipalSnapshotHeaderSizeV1.toNat = 32 := rfl
  have hLen := s.length_bytes
  intro hNone
  rw [hNone, length_nil] at hLen
  omega

/-- What is read from a file is written as that file, unless there is nothing in it. -/
theorem exact_iff (bytes : List UInt8) :
    (∀ s, loadSnapshot (some bytes) = .ok s → s.WrittenAs bytes) ↔ bytes ≠ [] := by
  constructor
  · rintro hExact rfl
    exact bytes_ne_nil _ (sound_empty.writtenAs_iff.mp (hExact {} loadSnapshot_nil))
  · intro hSome s hLoad
    obtain ⟨hSound, hBytes⟩ := (loadSnapshot_eq_ok_iff hSome).mp hLoad
    exact hSound.writtenAs_iff.mpr hBytes

/-- The header says how long the file is. -/
theorem slice_size (s : ApplicationPrincipalStore) :
    slice s.bytes 8 4 = bytesOf 4 s.bytes.length := by
  let fields := s.headerFields (applicationPrincipalSnapshotHeaderSizeV1.toNat + s.payload.length)
  have hField : slice (layout fields) 8 4 = bytesOf 4 s.bytes.length := by
    rw [s.length_bytes]
    exact (slice_layout (i := 3) rfl).1
  have hHeader : (layout fields).length = 32 := length_layout _
  have hFront : (layout fields ++ s.payload).drop 8 = (layout fields).drop 8 ++ s.payload :=
    drop_append_of_le_length (by omega)
  rw [← hField, bytes, slice, slice, hFront, take_append_of_le_length]
  rw [length_drop]
  omega

/-- Of a file cut short only nothing at all is accepted. -/
theorem Sound.truncated_iff (h : s.Sound) {n : ℕ} (hCut : n < s.bytes.length) :
    (¬∃ s', loadSnapshot (some (s.bytes.take n)) = .ok s') ↔ n ≠ 0 := by
  constructor
  · rintro hRefused rfl
    exact hRefused ⟨{}, loadSnapshot_nil⟩
  rintro hSome ⟨s', hLoad⟩
  have hLen : (s.bytes.take n).length = n := length_take_of_le hCut.le
  have hSomething : s.bytes.take n ≠ [] := by
    intro hNil
    rw [hNil] at hLen
    exact hSome hLen.symm
  obtain ⟨hSound, hBytes⟩ := (loadSnapshot_eq_ok_iff hSomething).mp hLoad
  -- the cut leaves the header, and with it the size of the whole
  have hHeader : 32 ≤ n := by
    have hAll := s'.length_bytes
    rw [hBytes, hLen] at hAll
    exact hAll ▸ Nat.le_add_right 32 _
  have hSize : slice s'.bytes 8 4 = slice s.bytes 8 4 := by
    rw [hBytes, slice, slice, drop_take, take_take]
    congr 1
    omega
  have hWhole := h.length_le
  rw [slice_size, slice_size, hBytes, hLen] at hSize
  have hSame := bytesOf_inj (by omega) (by omega) hSize
  omega

end ApplicationPrincipalStore

namespace PrincipalService

/-- In every run of the service the file of its store is read as that store. Every other
file is read as what it is written from exactly if there is something in it, and a file
cut short is refused exactly if something is left of it. -/
theorem damaged_principals_are_refused_iff (ops : List PrincipalOp) :
    (∀ n store, (after step {} (ops.take n)).store = some store →
      (∀ d d' script rest, persistCandidate store d script = (d', rest, .done ()) →
        loadSnapshot d'.snapshot = .ok store) ∧
      ∀ bytes m, store.WrittenAs bytes → m < bytes.length →
        ((¬∃ s, loadSnapshot (some (bytes.take m)) = .ok s) ↔ m ≠ 0)) ∧
    ∀ bytes, (∀ s, loadSnapshot (some bytes) = .ok s → s.WrittenAs bytes) ↔ bytes ≠ [] := by
  refine ⟨fun n store hStore => ?_, exact_iff⟩
  have hSound := sound_run ops n store hStore
  constructor
  · intro d d' script rest hDone
    have hFile := (meets_persistCandidate hSound d.snapshot).ends rfl hDone
    exact Shows.loadSnapshot_eq ⟨hSound, .inl hFile⟩
  · intro bytes m hWritten hCut
    obtain rfl := hSound.writtenAs_iff.mp hWritten
    exact hSound.truncated_iff hCut

theorem parsed_first : ([97] : List UInt8) = [] ∨ OsPackage.packageIdText [97] = true :=
  .inr (by decide)

def firstApplication : ApplicationIdentity where
  packageId := { text := [97], parsed := parsed_first }
  signerLineage := Vector.replicate 32 1

def secondApplication : ApplicationIdentity where
  packageId := { text := [98], parsed := .inr (by decide) }
  signerLineage := Vector.replicate 32 1

/-- A principal is allocated for the first application. -/
def allocation : List PrincipalOp := [.openStore [], .resolveOrAllocate firstApplication 42 []]

/-- The second application asks for its principal, with this snapshot file. -/
def allocationAfter (snapshot : List UInt8) : Option (Result ApplicationPrincipalRecord) :=
  ((after step { directory := { snapshot := some snapshot } } [.openStore []]).step
    (.resolveOrAllocate secondApplication 42 [])).2

/-- Cut to nothing, the snapshot of a store with a record is accepted, and another
application gets the principal of that record. -/
theorem empty_file_reassigns_principal :
    ∃ bytes r p, (after step {} allocation).directory.snapshot = some bytes ∧
      (after step {} allocation).store.map (·.lookup firstApplication 42) = some (.ok r) ∧
      loadSnapshot (some (bytes.take 0)) = .ok {} ∧
      ¬({} : ApplicationPrincipalStore).WrittenAs (bytes.take 0) ∧
      allocationAfter (bytes.take 0) = some (.ok p) ∧ r.principal = p.principal := by
  refine ⟨(({} : ApplicationPrincipalStore).allocated firstApplication 42).2.bytes,
    { application := firstApplication, user := 42, principal := ⟨applicationPrincipalHighV1, 1⟩ },
    { application := secondApplication, user := 42, principal := ⟨applicationPrincipalHighV1, 1⟩ },
    by decide +kernel, by decide +kernel, rfl, ?_, by decide +kernel, rfl⟩
  rw [sound_empty.writtenAs_iff]
  exact bytes_ne_nil _

end PrincipalService

end Enml.OsApp
