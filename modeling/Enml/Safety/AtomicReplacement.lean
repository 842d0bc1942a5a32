import Enml.Invariant.Namespace
import Enml.OsStorage.AtomicReplace

/-! The replacement of a protected object never lets the namespace name a version
whose key or ciphertext is missing or retired, however often it is cut short. -/
namespace Enml.OsStorage.AtomicReplacement

open Enml.Core Interruptible SlotTable ProtectedNamespaceRegistry List Program

theorem find_update {r : ProtectedNamespaceRegistry} {principal : PrincipalId} {user : UserId}
    {path : RelativePath} (f : ProtectedNamespaceEntry → ProtectedNamespaceEntry)
    (hName : ∀ e, (f e).name = e.name) :
    (r.update principal user path f).find principal user path =
      (r.find principal user path).map f := by
  have hKey : ∀ slot : NamespaceSlot, slot.name = some (principal, user, path) →
      NamespaceSlot.name { slot with entry := f slot.entry } = some (principal, user, path) := by
    intro slot hSlot
    rw [NamespaceSlot.name_eq_some_iff] at hSlot ⊢
    exact ⟨hSlot.1, (hName _).trans hSlot.2⟩
  rw [find, update, lookup_modify_self hKey, Option.map_map, find, Option.map_map]
  rfl

section

variable {name : ObjectName} {expected : UInt64} {next : ProtectedObjectVersion} {s t : Store}

/-- What is kept of the rest of the store. -/
theorem publishInStore_frame {result : Result Unit}
    (h : publishInStore name expected next s = (t, result)) :
    t.wrappedKeys = s.wrappedKeys ∧ t.ciphertexts = s.ciphertexts ∧
      t.commitRecords = s.commitRecords ∧ t.retired = s.retired := by
  unfold publishInStore at h
  split at h
  all_goals
    cases h
    exact ⟨rfl, rfl, rfl, rfl⟩

/-- A publication that fails leaves the store as it was; one that succeeds makes the
namespace name a greater generation. -/
theorem publishInStore_cases (expected : UInt64) {v : ProtectedObjectVersion}
    (hNamed : s.named name = some v)
    (hUser : v.user = next.user) (hObject : v.objectId = next.objectId) :
    (∃ e, publishInStore name expected next s = (s, .error e)) ∨
      ∃ t, publishInStore name expected next s = (t, .ok ()) ∧ v.generation < next.generation ∧
        t.named name = some next ∧ t.published = s.published ++ [next] := by
  obtain ⟨entry, hFound, rfl⟩ := Option.map_eq_some_iff.mp hNamed
  unfold publishInStore publishGeneration
  rw [hFound]
  dsimp only
  split_ifs with hConflict
  · exact .inl ⟨_, rfl⟩
  rw [not_or, not_or, not_or, UInt64.not_le, ne_eq, not_not] at hConflict
  obtain ⟨-, -, hGen, hGreater⟩ := hConflict
  refine .inr ⟨_, rfl, by rw [← hGen] at hGreater; exact hGreater, ?_, rfl⟩
  show ((update name.principal name.user name.path
    (fun e => { e with generation := next.generation }) s.registry).find name.principal name.user
      name.path).map (fun e => e.version) = some next
  rw [find_update (fun e : ProtectedNamespaceEntry => { e with generation := next.generation })
    fun _ => rfl, hFound]
  show some (ProtectedObjectVersion.mk entry.user entry.objectId next.generation) = _
  rw [show entry.user = next.user from hUser, show entry.objectId = next.objectId from hObject]

end

/-- A version is superseded when a greater one of the same object has been published,
with a commit record that names both. -/
def Superseded (s : Store) (v : ProtectedObjectVersion) : Prop :=
  ∃ next ∈ s.published, (v, next) ∈ s.commitRecords ∧ next.user = v.user ∧
    next.objectId = v.objectId ∧ v.generation < next.generation

/-- The invariant of the store, with the version that the namespace names. -/
structure Names (name : ObjectName) (v : ProtectedObjectVersion) (s : Store) : Prop where
  named : s.named name = some v
  key : v ∈ s.wrappedKeys
  ciphertext : v ∈ s.ciphertexts.map Prod.fst
  older : ∀ w ∈ s.retired, w.generation < v.generation
  superseded : ∀ w ∈ s.retired, Superseded s w
  increasing : s.published.Pairwise fun a b => a.generation < b.generation
  latest : ∀ w ∈ s.published, w.generation ≤ v.generation

def protocol : List BackendStep :=
  [.persistWrappedKey, .persistCiphertext, .persistCommitRecord, .publishNamespace,
    .retireGeneration]

def ordinal : ProtectedPublicationPhase → Nat
  | .idle => 0
  | .keyDurable => 1
  | .ciphertextDurable => 2
  | .commitRecordDurable => 3
  | .namespacePublished => 4
  | .retired => 5

/-- What holds whenever the replacement is cut short, and when it is through: the
invariant of the store, and a stage that is the prefix of the protocol that has
succeeded. -/
structure Intact (name : ObjectName) (s : Replacing) : Prop where
  names : ∃ v, Names name v s.store
  staged : s.succeeded = protocol.take (ordinal s.phase)

section

variable {name : ObjectName} {v previous next : ProtectedObjectVersion} {s t : Store}

theorem Names.not_retired (h : Names name v s) : v ∉ s.retired :=
  fun hRetired => UInt64.lt_irrefl _ (h.older v hRetired)

/-- A change elsewhere in the store. -/
theorem Names.of_frame (h : Names name v s) (hReg : t.registry = s.registry)
    (hPub : t.published = s.published) (hRetired : t.retired = s.retired)
    (hKey : v ∈ t.wrappedKeys) (hCiphertext : v ∈ t.ciphertexts.map Prod.fst)
    (hCommits : ∀ w ∈ s.retired, ∀ n, (w, n) ∈ s.commitRecords → (w, n) ∈ t.commitRecords) :
    Names name v t where
  named := by
    rw [Store.named, hReg]
    exact h.named
  key := hKey
  ciphertext := hCiphertext
  older := by
    rw [hRetired]
    exact h.older
  superseded := by
    intro w hw
    rw [hRetired] at hw
    obtain ⟨n, hn, hRec, hSame⟩ := h.superseded w hw
    exact ⟨n, by rwa [hPub], hCommits w hw n hRec, hSame⟩
  increasing := by
    rw [hPub]
    exact h.increasing
  latest := by
    rw [hPub]
    exact h.latest

/-- What the store holds of a replacement after `n` steps. -/
structure Made (name : ObjectName) (previous next : ProtectedObjectVersion) (n : Nat) (s : Store) :
    Prop where
  names : Names name (if n ≤ 3 then previous else next) s
  key : 1 ≤ n → next ∈ s.wrappedKeys
  ciphertext : 2 ≤ n → next ∈ s.ciphertexts.map Prod.fst
  commit : 3 ≤ n → (previous, next) ∈ s.commitRecords
  published : 4 ≤ n → next ∈ s.published

theorem mem_others {c : ProtectedObjectVersion} {cs : List (ProtectedObjectVersion × List UInt8)}
    (h : c ∈ cs.map Prod.fst) (hOther : c ≠ next) :
    c ∈ (cs.filter fun c => decide (c.1 ≠ next)).map Prod.fst := by
  obtain ⟨cell, hCell, rfl⟩ := mem_map.mp h
  exact mem_map.mpr ⟨cell, mem_filter.mpr ⟨hCell, decide_eq_true hOther⟩, rfl⟩

theorem Made.wrapped (h : Made name previous next 0 s) :
    Made name previous next 1 { s with wrappedKeys := next :: s.wrappedKeys } where
  names := h.names.of_frame rfl rfl rfl (mem_cons_of_mem _ h.names.key) h.names.ciphertext
    fun _ _ _ hRec => hRec
  key _ := mem_cons_self
  ciphertext := by omega
  commit := by omega
  published := by omega

theorem Made.encrypted {plaintext : List UInt8} (h : Made name previous next 1 s) :
    Made name previous next 2 { s with
      ciphertexts := (next, plaintext) :: s.ciphertexts.filter fun c => decide (c.1 ≠ next) } where
  names := by
    refine h.names.of_frame rfl rfl rfl h.names.key ?_ fun _ _ _ hRec => hRec
    by_cases hSame : previous = next
    · rw [if_pos (by omega), hSame]
      exact mem_cons_self
    · exact mem_cons_of_mem _ (mem_others h.names.ciphertext hSame)
  key _ := h.key (le_refl 1)
  ciphertext _ := mem_cons_self
  commit := by omega
  published := by omega

theorem Made.committed (h : Made name previous next 2 s) :
    Made name previous next 3 { s with
      commitRecords := (previous, next) :: s.commitRecords } where
  names := h.names.of_frame rfl rfl rfl h.names.key h.names.ciphertext
    fun _ _ _ hRec => mem_cons_of_mem _ hRec
  key _ := h.key (by omega)
  ciphertext _ := h.ciphertext (le_refl 2)
  commit _ := mem_cons_self
  published := by omega

/-- Publication makes the next version the one that is named. -/
theorem Made.published_in (h : Made name previous next 3 s)
    (hFrame : t.wrappedKeys = s.wrappedKeys ∧ t.ciphertexts = s.ciphertexts ∧
      t.commitRecords = s.commitRecords ∧ t.retired = s.retired)
    (hGreater : previous.generation < next.generation) (hNamed : t.named name = some next)
    (hPub : t.published = s.published ++ [next]) : Made name previous next 4 t := by
  obtain ⟨hKeys, hCiphertexts, hCommits, hRetired⟩ := hFrame
  refine ⟨⟨hNamed, ?_, ?_, ?_, ?_, ?_, ?_⟩, ?_, ?_, ?_, ?_⟩
  · rw [hKeys]
    exact h.key (by omega)
  · rw [hCiphertexts]
    exact h.ciphertext (by omega)
  · intro w hw
    rw [hRetired] at hw
    exact UInt64.lt_trans (h.names.older w hw) hGreater
  · intro w hw
    rw [hRetired] at hw
    obtain ⟨n, hn, hRec, hSame⟩ := h.names.superseded w hw
    refine ⟨n, ?_, by rwa [hCommits], hSame⟩
    rw [hPub]
    exact mem_append_left _ hn
  · rw [hPub, pairwise_append]
    refine ⟨h.names.increasing, pairwise_singleton .., ?_⟩
    intro a ha b hb
    rw [mem_singleton.mp hb]
    exact UInt64.lt_of_le_of_lt (h.names.latest a ha) hGreater
  · intro w hw
    rw [hPub] at hw
    rcases mem_append.mp hw with hw | hw
    · exact UInt64.le_of_lt (UInt64.lt_of_le_of_lt (h.names.latest w hw) hGreater)
    · rw [mem_singleton.mp hw]
      exact UInt64.le_refl _
  · intro _
    rw [hKeys]
    exact h.key (by omega)
  · intro _
    rw [hCiphertexts]
    exact h.ciphertext (by omega)
  · intro _
    rw [hCommits]
    exact h.commit (le_refl 3)
  · intro _
    rw [hPub]
    exact mem_append_right _ (mem_singleton_self next)

/-- What is retired has been superseded. -/
theorem Made.retired (h : Made name previous next 4 s) (hUser : next.user = previous.user)
    (hObject : next.objectId = previous.objectId)
    (hGreater : previous.generation < next.generation) :
    Made name previous next 5 { s with retired := previous :: s.retired } where
  names :=
    { named := h.names.named
      key := h.names.key
      ciphertext := h.names.ciphertext
      older := by
        intro w hw
        rcases mem_cons.mp hw with rfl | hw
        · exact hGreater
        · exact h.names.older w hw
      superseded := by
        intro w hw
        rcases mem_cons.mp hw with rfl | hw
        · exact ⟨next, h.published (le_refl 4), h.commit (by omega), hUser, hObject, hGreater⟩
        · exact h.names.superseded w hw
      increasing := h.names.increasing
      latest := h.names.latest }
  key _ := h.key (by omega)
  ciphertext _ := h.ciphertext (by omega)
  commit _ := h.commit (by omega)
  published _ := h.published (le_refl 4)

section

variable (hOther : previous ≠ next)
include hOther

theorem Made.key_spoilt (h : Made name previous next 0 s) :
    Names name previous
      { s with wrappedKeys := s.wrappedKeys.filter fun v => decide (v ≠ next) } :=
  h.names.of_frame rfl rfl rfl
    (mem_filter.mpr ⟨h.names.key, decide_eq_true hOther⟩) h.names.ciphertext
    fun _ _ _ hRec => hRec

theorem Made.ciphertext_spoilt (h : Made name previous next 1 s) :
    Names name previous
      { s with ciphertexts := s.ciphertexts.filter fun c => decide (c.1 ≠ next) } :=
  h.names.of_frame rfl rfl rfl h.names.key (mem_others h.names.ciphertext hOther)
    fun _ _ _ hRec => hRec

end

/-- The record that is spoilt is not one of a retired version. -/
theorem Made.commit_spoilt (h : Made name previous next 2 s) :
    Names name previous { s with
      commitRecords := s.commitRecords.filter fun r => decide (r ≠ (previous, next)) } := by
  refine h.names.of_frame rfl rfl rfl h.names.key h.names.ciphertext ?_
  intro w hw n hRec
  refine mem_filter.mpr ⟨hRec, decide_eq_true ?_⟩
  intro hSame
  cases hSame
  exact h.names.not_retired hw

end

/-- The store after `n` steps, with a stage machine that has seen `k` of them. -/
structure Progress (name : ObjectName) (previous next : ProtectedObjectVersion) (n k : Nat)
    (s : Replacing) : Prop where
  made : Made name previous next n s.store
  succeeded : s.succeeded = protocol.take n
  stage : ordinal s.phase = k

section

variable {name : ObjectName} {previous next : ProtectedObjectVersion} {n : Nat}
  {step : BackendStep} {effect spoilt : Store → Store}

theorem Progress.intact {s : Replacing} (h : Progress name previous next n n s) :
    Intact name s where
  names := ⟨_, h.made.names⟩
  staged := by rw [h.stage, h.succeeded]

theorem ordinal_inj {a b : ProtectedPublicationPhase} (h : ordinal a = ordinal b) : a = b := by
  cases a <;> cases b <;> first | rfl | cases h

theorem meets_advance (n : Nat) (expected after : ProtectedPublicationPhase)
    (hExpected : ordinal expected = n)
    (hAfter : ordinal after = n + 1) :
    Program.Meets (Progress name previous next (n + 1) n) (advance expected after)
      (fun _ => Progress name previous next (n + 1) (n + 1)) (Intact name) := by
  constructor
  · intro s t script rest a hs hDone
    unfold advance at hDone
    split_ifs at hDone with hPhase
    · cases hDone
    · cases hDone
      exact ⟨hs.made, hs.succeeded, hAfter⟩
  · intro s script hs hCut
    have hPhase : s.phase = expected := ordinal_inj (hs.stage.trans hExpected.symm)
    unfold advance at hCut
    rw [if_neg (not_not.mpr hPhase)] at hCut
    exact absurd rfl (hCut ())

/-- A step of the backend, from what it does to the store. -/
theorem meets_backendStep {perform : Store → Store × Result Unit} (hStep : protocol[n]? = some step)
    (hPerform : ∀ s, Made name previous next n s → (∃ e, perform s = (s, .error e)) ∨
      ∃ t, perform s = (t, .ok ()) ∧ Made name previous next (n + 1) t)
    (hEffect : ∀ s, Made name previous next n s → ∃ v, Names name v (effect s))
    (hSpoilt : ∀ s, Made name previous next n s → ∃ v, Names name v (spoilt s)) :
    Program.Meets (Progress name previous next n n) (backendStep step effect spoilt perform)
      (fun _ => Progress name previous next (n + 1) n) (Intact name) := by
  have hDone : ∀ s, Progress name previous next n n s →
      Intact name { s with store := effect s.store } :=
    fun s hs => ⟨hEffect s.store hs.made, hs.intact.staged⟩
  have hBroken : ∀ s, Progress name previous next n n s →
      Intact name { s with store := spoilt s.store } :=
    fun s hs => ⟨hSpoilt s.store hs.made, hs.intact.staged⟩
  refine meets_call ?_ ?_ ?_ ?_
  · intro s t a hs hPass
    rcases hPerform s.store hs.made with ⟨e, hDone⟩ | ⟨store, hDone, hMade⟩
    · rw [hDone] at hPass
      cases hPass
    rw [hDone] at hPass
    cases hPass
    refine ⟨hMade, ?_, hs.stage⟩
    rw [hs.succeeded, take_add_one, hStep]
    rfl
  · intro s t e hs hPass
    rcases hPerform s.store hs.made with ⟨e, hDone⟩ | ⟨store, hDone, hMade⟩
    · rw [hDone] at hPass
      cases hPass
      exact hs.intact
    · rw [hDone] at hPass
      cases hPass
  · rintro s (_ | _ | _) e hs
    exacts [hs.intact, hDone s hs, hBroken s hs]
  · rintro s (_ | _ | _) hs
    exacts [hs.intact, hDone s hs, hBroken s hs]

theorem meets_durably (hStep : protocol[n]? = some step)
    (hEffect : ∀ s, Made name previous next n s → Made name previous next (n + 1) (effect s))
    (hSpoilt : ∀ s, Made name previous next n s → ∃ v, Names name v (spoilt s)) :
    Program.Meets (Progress name previous next n n) (durably step effect spoilt)
      (fun _ => Progress name previous next (n + 1) n) (Intact name) :=
  meets_backendStep hStep (fun s hs => .inr ⟨effect s, rfl, hEffect s hs⟩)
    (fun s hs => ⟨_, (hEffect s hs).names⟩) hSpoilt

/-- A replacement that starts from a store with a sound version leaves one, wherever it
ends. -/
theorem meets_replace (name : ObjectName) (expected : UInt64)
    (previous next : ProtectedObjectVersion) (plaintext : List UInt8) :
    Program.Meets (Progress name previous next 0 0) (replace name expected previous next plaintext)
      (fun _ => Intact name) (Intact name) := by
  have hRefused : ∀ s, Progress name previous next 0 0 s → Intact name s := fun _ h => h.intact
  refine (meets_require hRefused).bind fun _ => meets_of_fact fun hAdmits => ?_
  refine (meets_require hRefused).bind fun _ => meets_of_fact fun hGreater => ?_
  rw [decide_eq_true_eq] at hGreater
  simp only [admits, Bool.and_eq_true, beq_iff_eq, bne_iff_ne] at hAdmits
  obtain ⟨⟨⟨⟨-, hUser⟩, hObject⟩, hGen⟩, -⟩ := hAdmits
  have hOther : previous ≠ next := by
    rintro rfl
    exact hGen rfl
  refine (meets_durably rfl (fun _ h => h.wrapped) fun _ h => ⟨_, h.key_spoilt hOther⟩).bind
    fun _ => ?_
  refine (meets_advance 0 .idle .keyDurable rfl rfl).bind fun _ => ?_
  refine (meets_durably rfl (fun _ h => h.encrypted) fun _ h =>
    ⟨_, h.ciphertext_spoilt hOther⟩).bind fun _ => ?_
  refine (meets_advance 1 .keyDurable .ciphertextDurable rfl rfl).bind fun _ => ?_
  refine (meets_durably rfl (fun _ h => h.committed) fun _ h => ⟨_, h.commit_spoilt⟩).bind
    fun _ => ?_
  refine (meets_advance 2 .ciphertextDurable .commitRecordDurable rfl rfl).bind fun _ => ?_
  have hPublish : ∀ s, Made name previous next 3 s →
      (∃ e, publishInStore name expected next s = (s, .error e)) ∨
        ∃ t, publishInStore name expected next s = (t, .ok ()) ∧ Made name previous next 4 t := by
    intro s hs
    rcases publishInStore_cases expected hs.names.named hUser hObject with
      hErr | ⟨t, hDone, -, hNamed, hPub⟩
    · exact .inl hErr
    · exact .inr ⟨t, hDone, hs.published_in (publishInStore_frame hDone) hGreater hNamed hPub⟩
  refine (meets_backendStep rfl hPublish ?_ fun _ h => ⟨_, h.names⟩).bind fun _ => ?_
  · intro s hs
    rcases hPublish s hs with ⟨e, hErr⟩ | ⟨t, hDone, hMade⟩
    · rw [hErr]
      exact ⟨_, hs.names⟩
    · rw [hDone]
      exact ⟨_, hMade.names⟩
  refine (meets_advance 3 .commitRecordDurable .namespacePublished rfl rfl).bind fun _ => ?_
  refine (meets_durably rfl (fun _ h => h.retired hUser.symm hObject.symm hGreater) fun _ h =>
    ⟨_, h.names⟩).bind fun _ => ?_
  exact (meets_advance 4 .namespacePublished .retired rfl rfl).weaken
    (fun _ _ h => h.intact) fun _ h => h

end

theorem intact_step {name : ObjectName} {s : Replacing} (h : Intact name s) (call : ReplaceCall) :
    Intact name (replaceStep name s call).1 := by
  obtain ⟨v, hNames⟩ := h.names
  have hStart : Progress name v call.next 0 0 { store := s.store } := by
    refine ⟨⟨hNames, ?_, ?_, ?_, ?_⟩, rfl, rfl⟩ <;> omega
  have hMeets := meets_replace name call.expectedGeneration v call.next call.plaintext
  unfold replaceStep
  rw [hNames.named]
  dsimp only
  generalize hRes : replace name call.expectedGeneration v call.next call.plaintext
    { store := s.store } call.script = result
  obtain ⟨after, rest, outcome⟩ := result
  cases outcome with
  | done => exact hMeets.ends hStart hRes
  | failed | stopped =>
    have hAfter := hMeets.cut hStart (show Program.Cut _ by rw [hRes]; nofun)
    rw [hRes] at hAfter
    exact hAfter

/-- An object whose named version is stored, and of which nothing is retired yet. -/
structure Begins (name : ObjectName) (s : Store) : Prop where
  stored : ∃ v, s.named name = some v ∧ v ∈ s.wrappedKeys ∧ v ∈ s.ciphertexts.map Prod.fst ∧
    s.published = [v]
  unretired : s.retired = []

theorem Begins.intact {name : ObjectName} {s : Store} (h : Begins name s) :
    Intact name { store := s } := by
  obtain ⟨v, hNamed, hKey, hCiphertext, hPub⟩ := h.stored
  have hNone := h.unretired
  refine ⟨⟨v, hNamed, hKey, hCiphertext, ?_, ?_, ?_, ?_⟩, rfl⟩
  · rw [hNone]
    nofun
  · rw [hNone]
    nofun
  · rw [hPub]
    exact pairwise_singleton ..
  rw [hPub]
  intro w hw
  rw [mem_singleton.mp hw]
  exact UInt64.le_refl _

/-- Protected replacement never publishes a version without its key and ciphertext. Over
every sequence of replacements of an object, with failures and stops at any step: the
version that the namespace names has its wrapped key and its ciphertext and is not
retired; what is retired has been superseded by a greater version of the same object
that was published and that a commit record names with it; the published generations
increase; and the stage is the prefix of the steps that have succeeded. Since a
replacement may be stopped at each of its steps, this holds between any two of them. -/
theorem named_version_is_always_stored (name : ObjectName) (store : Store)
    (hBegins : Begins name store) (calls : List ReplaceCall) :
    Run.Always (replaceStep name) (fun s =>
      (∃ v, s.store.named name = some v ∧ v ∈ s.store.wrappedKeys ∧
        v ∈ s.store.ciphertexts.map Prod.fst ∧ v ∉ s.store.retired) ∧
      (∀ w ∈ s.store.retired, ∃ next ∈ s.store.published, (w, next) ∈ s.store.commitRecords ∧
        next.user = w.user ∧ next.objectId = w.objectId ∧ w.generation < next.generation) ∧
      (s.store.published.Pairwise fun a b => a.generation < b.generation) ∧
      s.succeeded = protocol.take (ordinal s.phase)) { store } calls := by
  have hIntact : Run.Always (replaceStep name) (Intact name) { store } calls :=
    Run.always_of_invariant hBegins.intact fun _ call h => intact_step h call
  intro n
  obtain ⟨⟨v, hNames⟩, hStaged⟩ := hIntact n
  exact ⟨⟨v, hNames.named, hNames.key, hNames.ciphertext, hNames.not_retired⟩, hNames.superseded,
    hNames.increasing, hStaged⟩

def draftName : ObjectName := ⟨⟨0, 1⟩, 7, ⟨[0x61], .inr rfl⟩⟩

def draftVersion (generation : UInt64) : ProtectedObjectVersion := ⟨7, ⟨0, 9⟩, generation⟩

def draftStore : Store where
  wrappedKeys := [draftVersion 1]
  ciphertexts := [(draftVersion 1, [1, 2])]
  registry := (step {}
    (.create draftName.principal draftName.user draftName.path (.ok ⟨0, 9⟩))).1
  published := [draftVersion 1]

theorem draftStore_begins : Begins draftName draftStore where
  stored := ⟨draftVersion 1, by decide +kernel, by decide, by decide, rfl⟩
  unretired := rfl

/-- A publication that has its effect and fails all the same, then a replacement that
is stopped before it is published, then one of the same generation that goes through. -/
def draftCalls : List ReplaceCall :=
  [{ next := draftVersion 2, plaintext := [3], expectedGeneration := 1
     script := [.pass, .pass, .pass, .fail 1 (storageError Errors.invalidOptions)] },
    { next := draftVersion 5, plaintext := [4], expectedGeneration := 2
      script := [.pass, .pass, .stop 1] },
    { next := draftVersion 5, plaintext := [6], expectedGeneration := 2, script := [] }]

/-- The version that was published without notice is retired once the next one is. -/
theorem draft_is_replaced :
    (Run.after (replaceStep draftName) { store := draftStore } draftCalls).store.retired =
        [draftVersion 2] ∧
      ∃ next ∈
        (Run.after (replaceStep draftName) { store := draftStore } draftCalls).store.published,
        draftVersion 2 ≠ next ∧ (draftVersion 2).generation < next.generation := by
  have hRetired : (Run.after (replaceStep draftName) { store := draftStore }
      draftCalls).store.retired = [draftVersion 2] := by decide +kernel
  have hAlways :=
    (named_version_is_always_stored draftName draftStore draftStore_begins draftCalls).final
  obtain ⟨next, hNext, -, -, -, hGreater⟩ :=
    hAlways.2.1 (draftVersion 2) (by rw [hRetired]; exact mem_singleton_self _)
  refine ⟨hRetired, next, hNext, ?_, hGreater⟩
  rintro rfl
  exact UInt64.lt_irrefl _ hGreater

end Enml.OsStorage.AtomicReplacement
