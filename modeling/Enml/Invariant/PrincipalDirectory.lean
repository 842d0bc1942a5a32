import Enml.Invariant.PrincipalSnapshot
import Enml.Lib.Run
import Enml.OsApp.PrincipalDirectory

/-! What the state directory and the store in memory keep in every run: the snapshot is
that of a store, and a record that was answered is in all stores there are. -/
namespace Enml.OsApp

open Enml.Core Interruptible Program List ApplicationPrincipalRecord ApplicationPrincipalStore
open Enml.OsPackage (ApplicationIdentity)

variable {d : StateDirectory} {P I : StateDirectory → Prop}

namespace ApplicationPrincipalRecord

variable {r p : ApplicationPrincipalRecord}

theorem sameKey_iff {application : ApplicationIdentity} {user : UserId} :
    r.sameKey application user = true ↔ r.application = application ∧ r.user = user := by
  simp [sameKey]

theorem collides_eq_false_iff : r.collides p = false ↔
    ¬(p.application = r.application ∧ p.user = r.user) ∧ p.principal ≠ r.principal := by
  rw [collides, Bool.or_eq_false_iff, ← Bool.not_eq_true, sameKey_iff]
  simp

instance : Std.Symm fun p r : ApplicationPrincipalRecord => r.collides p = false where
  symm p r h := by
    rw [collides_eq_false_iff] at h ⊢
    exact ⟨fun hKey => h.1 ⟨hKey.1.symm, hKey.2.symm⟩, h.2.symm⟩

end ApplicationPrincipalRecord

namespace ApplicationPrincipalStore

variable {s : ApplicationPrincipalStore} {application : ApplicationIdentity} {user : UserId}
  {r p : ApplicationPrincipalRecord}

/-- In one store the principal and the pair it belongs to determine each other. -/
theorem Sound.principal_eq_iff (h : s.Sound) (hr : r ∈ s.records) (hp : p ∈ s.records) :
    r.principal = p.principal ↔ r.application = p.application ∧ r.user = p.user := by
  by_cases hSame : r = p
  · simp [hSame]
  have hApart : p.collides r = false := h.distinct.forall hr hp hSame
  obtain ⟨hKey, hPrinc⟩ := collides_eq_false_iff.mp hApart
  exact iff_of_false hPrinc hKey

theorem find_eq_some (h : s.find application user = some r) :
    r ∈ s.records ∧ r.application = application ∧ r.user = user :=
  ⟨mem_of_find?_eq_some h,
    sameKey_iff.mp (find?_some (p := fun r =>
      ApplicationPrincipalRecord.sameKey r application user) h)⟩

theorem find_eq_none (h : s.find application user = none) (hp : p ∈ s.records) :
    ¬(p.application = application ∧ p.user = user) := by
  rw [← sameKey_iff]
  exact find?_eq_none.mp h p hp

theorem lookup_eq_ok (h : s.lookup application user = .ok r) :
    r ∈ s.records ∧ r.application = application ∧ r.user = user := by
  unfold lookup at h
  split_ifs at h
  cases hFind : s.find application user with
  | none => simp [hFind] at h
  | some =>
    simp only [hFind, Except.ok.injEq] at h
    exact h ▸ find_eq_some hFind

/-- One more principal makes a sound store of a sound store. -/
theorem Sound.allocated (h : s.Sound) (hValid : application.valid = true)
    (hNew : s.find application user = none)
    (hRoom : s.records.length < m1ApplicationPrincipalCapacity)
    (hLeft : s.nextPrincipalLow ≠ 0xFFFFFFFFFFFFFFFF) :
    (s.allocated application user).2.Sound := by
  have hStep : (s.nextPrincipalLow + 1).toNat = s.nextPrincipalLow.toNat + 1 := by
    have hLt := s.nextPrincipalLow.toNat_lt
    have hMax : s.nextPrincipalLow.toNat ≠ 2 ^ 64 - 1 :=
      fun hSame => hLeft (UInt64.toNat_inj.mp hSame)
    rw [UInt64.toNat_add, UInt64.toNat_one, Nat.mod_eq_of_lt (by omega)]
  have hAbove : ∀ low : UInt64, low ≤ s.nextPrincipalLow → low < s.nextPrincipalLow + 1 := by
    intro low hLow
    rw [UInt64.le_iff_toNat_le] at hLow
    rw [UInt64.lt_iff_toNat_lt, hStep]
    omega
  simp only [OsPackage.ApplicationIdentity.valid, Bool.and_eq_true] at hValid
  refine ⟨?_, ?_, ?_, ?_, ?_⟩
  · rw [ApplicationPrincipalStore.allocated, length_append]
    exact hRoom
  · intro r hr
    rcases mem_append.mp hr with hOld | hLast
    · exact h.records r hOld
    · rw [mem_singleton.mp hLast, valid_iff]
      exact ⟨hValid.1, hValid.2, rfl, h.next⟩
  · rw [ApplicationPrincipalStore.allocated, pairwise_append]
    refine ⟨h.distinct, pairwise_singleton _ _, ?_⟩
    intro p hp r hr
    rw [mem_singleton.mp hr, collides_eq_false_iff]
    refine ⟨find_eq_none hNew hp, ?_⟩
    intro hSame
    have hBelow := h.below p hp
    rw [hSame] at hBelow
    exact UInt64.lt_irrefl _ hBelow
  · intro r hr
    rcases mem_append.mp hr with hOld | hLast
    · exact hAbove _ (UInt64.le_of_lt (h.below r hOld))
    · rw [mem_singleton.mp hLast]
      exact hAbove _ (UInt64.le_refl _)
  · intro hZero
    have hNone : (s.nextPrincipalLow + 1).toNat = 0 := congrArg UInt64.toNat hZero
    omega

end ApplicationPrincipalStore

/-- The snapshot file is that of the store, or there is none and the store is empty. -/
def Shows (d : StateDirectory) (s : ApplicationPrincipalStore) : Prop :=
  s.Sound ∧ (d.snapshot = some s.bytes ∨ d.snapshot = none ∧ s = {})

section

variable {s c : ApplicationPrincipalStore} {file : Option (List UInt8)} {bytes : List UInt8}

theorem Shows.loadSnapshot_eq (h : Shows d s) : loadSnapshot d.snapshot = .ok s := by
  obtain ⟨hSound, hFile | ⟨hFile, rfl⟩⟩ := h
  · have hSome : s.bytes ≠ [] := by
      intro hNone
      have hLen := s.length_bytes
      rw [hNone, applicationPrincipalSnapshotHeaderSizeV1] at hLen
      exact absurd hLen (by simp; omega)
    rw [hFile]
    exact (loadSnapshot_eq_ok_iff hSome).mpr ⟨hSound, rfl⟩
  · rw [hFile]
    rfl

/-- A call on files that makes `Q` of `P`. -/
theorem meets_fileCall {effect : StateDirectory → StateDirectory} {Q : StateDirectory → Prop}
    (hEffect : ∀ d, P d → Q (effect d)) (hBefore : ∀ d, P d → I d) (hAfter : ∀ d, Q d → I d) :
    Meets P (fileCall effect) (fun _ => Q) I := by
  have hPartly : ∀ extent d, P d → I (if extent = 0 then d else effect d) := by
    intro extent d hd
    split_ifs
    · exact hBefore d hd
    · exact hAfter _ (hEffect d hd)
  unfold fileCall
  refine meets_call ?_ ?_ ?_ ?_
  · intro d t a hd hPass
    cases hPass
    exact hEffect d hd
  · intro d t e hd hPass
    cases hPass
  · exact fun d extent _ => hPartly extent d
  · exact fun d extent => hPartly extent d

theorem meets_openTemp (hI : ∀ d, d.snapshot = file → I d) :
    Meets (fun d => d.snapshot = file ∧ d.temp = none) openTemp
      (fun _ d => d.snapshot = file ∧ d.temp = some []) I := by
  refine meets_call ?_ ?_ ?_ ?_
  · rintro d t a ⟨hFile, hTemp⟩ hPass
    simp only [hTemp, Option.isSome_none, Bool.false_eq_true, if_false, Option.getD_none] at hPass
    cases hPass
    exact ⟨hFile, rfl⟩
  · rintro d t e ⟨hFile, hTemp⟩ hPass
    simp [hTemp] at hPass
  · rintro d extent e ⟨hFile, -⟩
    refine hI _ ?_
    dsimp only
    split_ifs <;> exact hFile
  · rintro d extent ⟨hFile, -⟩
    refine hI _ ?_
    split_ifs <;> exact hFile

theorem meets_writeAll (hI : ∀ d, d.snapshot = file → I d) :
    Meets (fun d => d.snapshot = file ∧ d.temp = some []) (writeAll bytes)
      (fun _ d => d.snapshot = file ∧ d.temp = some bytes) I := by
  unfold writeAll
  refine meets_call ?_ ?_ ?_ ?_
  · rintro d t a ⟨hFile, hTemp⟩ hPass
    cases hPass
    refine ⟨hFile, ?_⟩
    simp [hTemp]
  · intro d t e hd hPass
    cases hPass
  · exact fun d _ _ hd => hI _ hd.1
  · exact fun d _ hd => hI _ hd.1

theorem meets_renameTemp (hI : ∀ d, d.snapshot = file ∨ d.snapshot = some bytes → I d) :
    Meets (fun d => d.snapshot = file ∧ d.temp = some bytes) renameTemp
      (fun _ d => d.snapshot = some bytes) I := by
  have hPartly : ∀ (extent : ℕ) (d : StateDirectory), d.snapshot = file ∧ d.temp = some bytes →
      I (if extent = 0 then d else renamed d) := by
    rintro extent d ⟨hFile, hTemp⟩
    refine hI _ ?_
    split_ifs
    · exact .inl hFile
    · exact .inr (by rw [renamed, hTemp])
  refine meets_call ?_ ?_ (fun d extent _ => hPartly extent d) fun d extent => hPartly extent d
  · rintro d t a ⟨-, hTemp⟩ hPass
    simp only [hTemp, Option.isSome_some, if_true] at hPass
    cases hPass
    rw [renamed, hTemp]
  · rintro d t e ⟨-, hTemp⟩ hPass
    simp [hTemp] at hPass

/-- The snapshot is the old one or the new one, wherever the call is cut. -/
theorem meets_persistCandidate (hSound : c.Sound) (file : Option (List UInt8)) :
    Meets (fun d => d.snapshot = file) (persistCandidate c) (fun _ d => d.snapshot = some c.bytes)
      fun d => d.snapshot = file ∨ d.snapshot = some c.bytes := by
  have hOld : ∀ d : StateDirectory, d.snapshot = file →
      d.snapshot = file ∨ d.snapshot = some c.bytes := fun _ => .inl
  rw [persistCandidate, hSound.encodeSnapshot_eq]
  have hUnlink : Meets (fun d => d.snapshot = file) unlinkTemp
      (fun _ d => d.snapshot = file ∧ d.temp = none)
      fun d => d.snapshot = file ∨ d.snapshot = some c.bytes :=
    meets_fileCall (fun d hd => ⟨hd, rfl⟩) hOld fun d hd => hOld d hd.1
  refine hUnlink.bind fun _ => ?_
  refine (meets_openTemp hOld).bind fun _ => ?_
  have hReplace : Meets (fun d => d.snapshot = file ∧ d.temp = some []) (replaceSnapshot c.bytes)
      (fun _ d => d.snapshot = some c.bytes)
      fun d => d.snapshot = file ∨ d.snapshot = some c.bytes := by
    refine Meets.onFailure ?_ (meets_fileCall (fun _ hd => hd) (fun _ hd => hd) fun _ hd => hd)
    refine (meets_fileCall (fun _ hd => hd) (fun d hd => hOld d hd.1)
      fun d hd => hOld d hd.1).bind fun _ => ?_
    refine (meets_writeAll hOld).bind fun _ => ?_
    refine (meets_fileCall (fun _ hd => hd) (fun d hd => hOld d hd.1)
      fun d hd => hOld d hd.1).bind fun _ => ?_
    exact meets_renameTemp fun _ hd => hd
  refine hReplace.bind fun _ => ?_
  exact meets_fileCall (fun _ hd => hd) (fun _ => .inr) fun _ => .inr

/-- The snapshot has every record that the store has. -/
def Behind (s : ApplicationPrincipalStore) (d : StateDirectory) : Prop :=
  ∃ disk, Shows d disk ∧ ∀ r ∈ s.records, r ∈ disk.records

theorem Behind.of_snapshot {d' : StateDirectory} (h : Behind s d) (hSame : d'.snapshot = d.snapshot)
    : Behind s d' := by
  obtain ⟨disk, ⟨hSound, hFile⟩, hRecs⟩ := h
  rw [← hSame] at hFile
  exact ⟨disk, ⟨hSound, hFile⟩, hRecs⟩

theorem Behind.of_written (hSound : c.Sound) (hFile : d.snapshot = some c.bytes)
    (hRecs : ∀ r ∈ s.records, r ∈ c.records) :
    Behind s d := ⟨c, ⟨hSound, .inl hFile⟩, hRecs⟩

/-- The store that is left has all the records of `s` and the one that is answered, and
so has the snapshot. -/
structure Resolved (s : ApplicationPrincipalStore) (application : ApplicationIdentity)
    (user : UserId) (left : ApplicationPrincipalStore) (r : ApplicationPrincipalRecord)
    (d : StateDirectory) : Prop where
  sound : left.Sound
  grown : ∀ p ∈ s.records, p ∈ left.records
  behind : Behind left d
  stored : r ∈ left.records
  application : r.application = application
  user : r.user = user

theorem meets_resolveOrAllocate (h : s.Sound) (application : ApplicationIdentity) (user : UserId) :
    Meets (Behind s) (resolveOrAllocate s application user)
      (fun reply => Resolved s application user reply.1 reply.2) (Behind s) := by
  unfold resolveOrAllocate
  by_cases hValid : application.valid = true
  swap
  · rw [if_pos (by simpa using hValid)]
    exact meets_fail fun _ hd => hd
  rw [if_neg (by simp [hValid])]
  cases hFind : s.find application user with
  | some =>
    obtain ⟨hMem, hApp, hUser⟩ := find_eq_some hFind
    exact meets_pure fun d hd => ⟨h, fun _ hr => hr, hd, hMem, hApp, hUser⟩
  | none =>
    by_cases hFull : m1ApplicationPrincipalCapacity ≤ s.records.length
    · rw [if_pos hFull]
      exact meets_fail fun _ hd => hd
    rw [if_neg hFull]
    by_cases hExhausted : s.nextPrincipalLow = 0 ∨ s.nextPrincipalLow = 0xFFFFFFFFFFFFFFFF
    · rw [if_pos hExhausted]
      exact meets_fail fun _ hd => hd
    rw [if_neg hExhausted]
    have hSound := h.allocated hValid hFind (Nat.lt_of_not_le hFull) (mt .inr hExhausted)
    have hOld : ∀ r ∈ s.records, r ∈ (s.allocated application user).2.records :=
      fun r hr => mem_append_left _ hr
    have hPersist : Meets (Behind s) (persistCandidate (s.allocated application user).2)
        (fun _ d => d.snapshot = some (s.allocated application user).2.bytes) (Behind s) := by
      constructor
      · intro d d' script rest a _ hDone
        exact (meets_persistCandidate hSound d.snapshot).ends rfl hDone
      intro d script hd hCut
      rcases (meets_persistCandidate hSound d.snapshot).cut rfl hCut with hSame | hFile
      · exact hd.of_snapshot hSame
      · exact .of_written hSound hFile hOld
    refine hPersist.bind fun _ => meets_pure fun d hFile => ?_
    exact ⟨hSound, hOld, .of_written hSound hFile fun _ hr => hr,
      mem_append_right _ (mem_singleton_self _), rfl, rfl⟩

theorem meets_resolving (h : s.Sound) (application : ApplicationIdentity) (user : UserId) :
    Meets (Behind s) (resolving s application user)
      (fun reply d => ∃ r, reply.2 = some r ∧ Resolved s application user reply.1 r d) (Behind s) :=
  (meets_resolveOrAllocate h application user).bind fun reply =>
    meets_pure fun _ hd => ⟨reply.2, rfl, hd⟩

theorem meets_openStore :
    Meets (fun d => Shows d s) openStore (fun store d => store = s ∧ Shows d s)
      fun d => Shows d s := by
  refine Meets.bind (Q := fun _ d => Shows d s) (meets_call ?_ ?_ ?_ ?_) fun _ =>
    meets_call ?_ ?_ ?_ ?_
  · intro d t a hd hPass
    cases hPass
    exact hd
  · intro d t e hd hPass
    cases hPass
  · exact fun _ _ _ hd => hd
  · exact fun _ _ hd => hd
  · intro d t store hd hPass
    rw [hd.loadSnapshot_eq] at hPass
    cases hPass
    exact ⟨rfl, hd⟩
  · intro d t e hd hPass
    have hSame : d = t := congrArg Prod.fst hPass
    exact hSame ▸ hd
  · exact fun _ _ _ hd => hd
  · exact fun _ _ hd => hd

end

namespace PrincipalService

variable {answered : List ApplicationPrincipalRecord} {s : PrincipalService}

/-- Whatever was answered is in the snapshot and in the store of the process, and
whatever is in that store is in the snapshot. -/
def Remembers (answered : List ApplicationPrincipalRecord) (s : PrincipalService) : Prop :=
  ∃ disk, Shows s.directory disk ∧ (∀ r ∈ answered, r ∈ disk.records) ∧
    ∀ store, s.store = some store → store.Sound ∧ (∀ r ∈ answered, r ∈ store.records) ∧
      ∀ r ∈ store.records, r ∈ disk.records

/-- How a call that reaches the files ends. -/
theorem settle_cases {before : Option ApplicationPrincipalStore}
    {x : Io (ApplicationPrincipalStore × Option ApplicationPrincipalRecord)}
    {Q : ApplicationPrincipalStore × Option ApplicationPrincipalRecord → StateDirectory → Prop}
    (h : Meets P x Q I) (hd : P d) (script : List (Fault Error)) :
    (∃ directory reply, settle before (x d script) =
      ({ directory, store := some reply.1 }, reply.2.map .ok) ∧ Q reply directory) ∨
    ∃ directory store refused, settle before (x d script) =
      ({ directory, store }, refused) ∧ I directory ∧ (store = none ∨ store = before) ∧
        ∀ r, refused ≠ some (.ok r) := by
  have hEnds : ∀ directory rest reply, x d script = (directory, rest, .done reply) →
      Q reply directory := fun _ _ _ => h.ends hd
  have hCut : Cut (x d script) → I (x d script).1 := h.cut hd
  generalize x d script = result at hEnds hCut ⊢
  obtain ⟨directory, rest, outcome⟩ := result
  cases outcome with
  | done reply => exact .inl ⟨directory, reply, rfl, hEnds _ _ _ rfl⟩
  | failed => exact .inr ⟨directory, before, _, rfl, hCut nofun, .inr rfl, nofun⟩
  | stopped => exact .inr ⟨directory, none, _, rfl, hCut nofun, .inl rfl, nofun⟩

theorem Remembers.of_behind {store : ApplicationPrincipalStore} (hSound : store.Sound)
    (hAnswered : ∀ r ∈ answered, r ∈ store.records) (h : Behind store d)
    {kept : Option ApplicationPrincipalStore} (hKept : kept = none ∨ kept = some store) :
    Remembers answered { directory := d, store := kept } := by
  obtain ⟨disk, hShows, hRecs⟩ := h
  refine ⟨disk, hShows, fun r hr => hRecs r (hAnswered r hr), ?_⟩
  rintro store' hStore
  rcases hKept with rfl | rfl
  · cases hStore
  · cases hStore
    exact ⟨hSound, hAnswered, hRecs⟩

/-- One more answer, out of the store that is left. -/
theorem Remembers.snoc (h : Remembers answered s) {r : ApplicationPrincipalRecord}
    (hr : ∃ store, s.store = some store ∧ r ∈ store.records) : Remembers (answered ++ [r]) s := by
  obtain ⟨disk, hShows, hAnswered, hStore⟩ := h
  obtain ⟨store, hOwn, hMem⟩ := hr
  obtain ⟨hSound, hKept, hRecs⟩ := hStore store hOwn
  refine ⟨disk, hShows, ?_, ?_⟩
  · intro p hp
    rcases mem_append.mp hp with hp | hp
    · exact hAnswered p hp
    · exact mem_singleton.mp hp ▸ hRecs r hMem
  intro store' hStore'
  obtain rfl : store = store' := Option.some.inj (hOwn.symm.trans hStore')
  refine ⟨hSound, ?_, hRecs⟩
  intro p hp
  rcases mem_append.mp hp with hp | hp
  · exact hKept p hp
  · exact mem_singleton.mp hp ▸ hMem

/-- What one call keeps, and where its answer comes from. -/
structure Keeps (answered : List ApplicationPrincipalRecord) (op : PrincipalOp)
    (reply : PrincipalService × Option (Result ApplicationPrincipalRecord)) : Prop where
  remembers : Remembers answered reply.1
  stored : ∀ r, reply.2 = some (.ok r) → ∃ store, reply.1.store = some store ∧ r ∈ store.records
  asked : ∀ r application user, reply.2 = some (.ok r) → op.key = some (application, user) →
    r.application = application ∧ r.user = user

theorem Keeps.of_silent {op : PrincipalOp} {next : PrincipalService}
    {reply : Option (Result ApplicationPrincipalRecord)} (h : Remembers answered next)
    (hSilent : ∀ r, reply ≠ some (.ok r)) : Keeps answered op (next, reply) where
  remembers := h
  stored r hr := absurd hr (hSilent r)
  asked r _ _ hr := absurd hr (hSilent r)

theorem Remembers.step (h : Remembers answered s) (op : PrincipalOp) :
    Keeps answered op (s.step op) := by
  obtain ⟨disk, hShows, hAnswered, hStore⟩ := h
  have hDisk : ∀ {d : StateDirectory}, Shows d disk → ∀ {kept : Option ApplicationPrincipalStore},
      kept = none ∨ kept = s.store → Remembers answered { directory := d, store := kept } := by
    rintro d hShows kept hKept
    refine ⟨disk, hShows, hAnswered, ?_⟩
    rintro store rfl
    exact hStore store (hKept.resolve_left nofun).symm
  cases op with
  | openStore script =>
    have hMeets : Meets (fun d => Shows d disk) opening
        (fun reply d => reply = (disk, none) ∧ Shows d disk) fun d => Shows d disk :=
      meets_openStore.bind fun store => meets_pure fun _ hd => ⟨congrArg (·, none) hd.1, hd.2⟩
    show Keeps answered _ (settle s.store (opening s.directory script))
    rcases settle_cases hMeets hShows script with
      ⟨d, reply, hReply, rfl, hd⟩ | ⟨d, kept, refused, hReply, hd, hKept, hSilent⟩
    · rw [hReply]
      refine .of_silent (.of_behind hShows.1 hAnswered ⟨disk, hd, fun _ hr => hr⟩ (.inr rfl)) ?_
      simp
    · rw [hReply]
      exact .of_silent (hDisk hd hKept) hSilent
  | resolveOrAllocate application user script =>
    cases hOwn : s.store with
    | none =>
      simp only [PrincipalService.step, hOwn]
      exact .of_silent (hDisk hShows (.inr rfl)) nofun
    | some store =>
      obtain ⟨hSound, hKnown, hRecs⟩ := hStore store hOwn
      simp only [PrincipalService.step, hOwn]
      rcases settle_cases (meets_resolving hSound application user)
          ⟨disk, hShows, hRecs⟩ script with
        ⟨d, reply, hReply, r, hAns, hd⟩ | ⟨d, kept, refused, hReply, hd, hLeft, hSilent⟩
      · rw [hReply, hAns]
        refine ⟨.of_behind hd.sound (fun p hp => hd.grown p (hKnown p hp)) hd.behind (.inr rfl),
          ?_, ?_⟩
        · intro p hp
          obtain rfl : r = p := by simpa using hp
          exact ⟨reply.1, rfl, hd.stored⟩
        intro p _ _ hp hKey
        obtain rfl : r = p := by simpa using hp
        cases hKey
        exact ⟨hd.application, hd.user⟩
      · rw [hReply]
        exact .of_silent (.of_behind hSound hKnown hd hLeft) hSilent
  | lookup =>
    cases hOwn : s.store with
    | none =>
      simp only [PrincipalService.step, hOwn]
      exact .of_silent (hDisk hShows (.inr rfl)) nofun
    | some store =>
      simp only [PrincipalService.step, hOwn]
      refine ⟨hDisk hShows (.inr rfl), ?_, ?_⟩
      · intro r hr
        exact ⟨store, hOwn, (lookup_eq_ok (Option.some.inj hr)).1⟩
      · intro r _ _ hr hKey
        cases hKey
        exact (lookup_eq_ok (Option.some.inj hr)).2
  | exit => exact .of_silent (hDisk hShows (.inl rfl)) nofun

end PrincipalService

end Enml.OsApp
