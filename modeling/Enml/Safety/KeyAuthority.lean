import Enml.Invariant.Keys
import Enml.Lib.Run

/-! Who may use which key, over whole runs of the registry. Every use of a key is
traced back to the operation that issued its version. -/
namespace Enml.OsKeys

open Enml.Core SlotTable KeyRights List KeyVersionRecord KeyRegistry

variable {answers : Nat → Result Unit} {v : KeyVersionRecord}

/-- The record `b` is what has become of `a`. -/
structure KeyRecord.Becomes (a b : KeyRecord) : Prop where
  id : b.descriptor.id = a.descriptor.id
  owner : b.owner = a.owner
  purpose : b.descriptor.purpose = a.descriptor.purpose
  rights : b.descriptor.rights = a.descriptor.rights
  dead : a.destroyed = true → b.destroyed = true
  version : a.descriptor.version.toNat ≤ b.descriptor.version.toNat
  versions : ∀ v ∈ a.versions, v.occupied = true → ∃ w ∈ b.versions, w.occupied = true ∧
    w.version = v.version ∧ (w = v ∨ w.destroyed = true)

theorem KeyRecord.Becomes.refl (a : KeyRecord) : a.Becomes a :=
  ⟨rfl, rfl, rfl, rfl, fun hDead => hDead, le_refl _, fun v hv hOcc => ⟨v, hv, hOcc, rfl, .inl rfl⟩⟩

variable {a b : KeyRecord}

theorem KeyRecord.Becomes.trans {c : KeyRecord} (h : a.Becomes b) (h' : b.Becomes c) :
    a.Becomes c := by
  refine ⟨h'.id.trans h.id, h'.owner.trans h.owner, h'.purpose.trans h.purpose,
    h'.rights.trans h.rights, fun hDead => h'.dead (h.dead hDead), h.version.trans h'.version, ?_⟩
  intro v hv hOcc
  obtain ⟨w, hw, hwOccupied, hwVersion, hwSame⟩ := h.versions v hv hOcc
  obtain ⟨x, hx, hxOccupied, hxVersion, hxSame⟩ := h'.versions w hw hwOccupied
  refine ⟨x, hx, hxOccupied, hxVersion.trans hwVersion, ?_⟩
  rcases hxSame with rfl | hxDead
  · exact hwSame
  · exact .inr hxDead

namespace KeyRecord

variable {record : KeyRecord}

theorem becomes_extend (h : record.Sound) (hLive : record.destroyed = false)
    (hRoom : (record.versions.all fun v => v.occupied) = false) (key : ProviderKeyReference) :
    record.Becomes (record.extend key) := by
  obtain ⟨hVers, hShort⟩ := versions_extend h hLive hRoom key
  refine ⟨rfl, rfl, rfl, rfl, id, ?_, ?_⟩
  · show _ ≤ (record.descriptor.version + 1).toNat
    rw [toNat_version_succ hShort]
    exact Nat.le_succ _
  intro v hv hOcc
  refine ⟨v, ?_, hOcc, rfl, .inl rfl⟩
  rw [hVers]
  exact mem_packed_of_mem (mem_append_left _ (mem_held.mpr ⟨hv, hOcc⟩))

theorem becomes_destroyVersions (answers : Nat → Result Unit) (dead : Bool)
    (hDead : record.destroyed = true → dead = true) :
    record.Becomes
      { record with versions := record.destroyVersions answers, destroyed := dead } := by
  refine ⟨rfl, rfl, rfl, rfl, hDead, le_refl _, ?_⟩
  intro v hv hOcc
  obtain ⟨i, hi⟩ := mem_iff_getElem?.mp hv
  refine ⟨age answers i v, ?_, ?_, (age_frame answers i v).2, ?_⟩
  · refine mem_of_getElem? (i := i) ?_
    rw [destroyVersions_eq, getElem?_mapIdx, hi]
    rfl
  · rw [(age_frame answers i v).1]
    exact hOcc
  rcases age_cases answers i v with hSame | ⟨-, -, hGone⟩
  · exact .inl hSame
  · refine .inr ?_
    rw [hGone]

/-- A version with a key after a destruction had it before. -/
theorem mem_of_mem_destroyVersions (hv : v ∈ record.destroyVersions answers)
    (hKept : v.destroyed = false) :
    v ∈ record.versions := by
  obtain ⟨i, w, hw, rfl⟩ := mem_destroyVersions hv
  rcases age_cases answers i w with hSame | ⟨-, -, hGone⟩
  · rw [hSame]
    exact mem_of_getElem? hw
  · rw [hGone] at hKept
    cases hKept

end KeyRecord

namespace KeyRegistry

variable {r r' : KeyRegistry} {op : KeyOp} {answer : Answer KeyValue} {f : KeyRecord → KeyRecord}

/-- Rewriting one record: what holds of the rewriting holds of the registry. -/
theorem becomes_modify (h : r.Sound) {id : KeyId}
    (hf : ∀ record, (f record).occupied = record.occupied ∧
      (f record).descriptor.id = record.descriptor.id)
    (hBecomes : ∀ record ∈ r.live, record.descriptor.id = id → record.Becomes (f record)) {i : Nat}
    (ha : r.live[i]? = some a) :
    ∃ b, (r.modify id f).live[i]? = some b ∧ a.Becomes b := by
  rw [(live_modify h hf).2, getElem?_map, ha]
  refine ⟨_, rfl, ?_⟩
  dsimp only
  split_ifs with hId
  · exact hBecomes a (mem_of_getElem? ha) hId
  · exact .refl a

theorem mem_live_modify (h : r.Sound) {id : KeyId} (hb : b ∈ (r.modify id f).live)
    (hf : ∀ record, (f record).occupied = record.occupied ∧
      (f record).descriptor.id = record.descriptor.id) :
    ∃ a ∈ r.live, (a.descriptor.id = id ∧ b = f a) ∨ b = a := by
  rw [(live_modify h hf).2] at hb
  obtain ⟨a, ha, rfl⟩ := mem_map.mp hb
  refine ⟨a, ha, ?_⟩
  split_ifs with hId
  · exact .inl ⟨hId, rfl⟩
  · exact .inr rfl

/-- Every record stays in its place. -/
theorem Change.becomes (h : r.Sound) (hChange : Change r op answer r') {i : Nat}
    (ha : r.live[i]? = some a) : ∃ b, r'.live[i]? = some b ∧ a.Becomes b := by
  cases hChange with
  | same => exact ⟨a, ha, .refl a⟩
  | enrolled _ _ hRoom =>
    refine ⟨a, ?_, .refl a⟩
    rw [(live_enroll h hRoom ..).2, List.getElem?_append_left (List.getElem?_eq_some_iff.mp ha).1]
    exact ha
  | @advanced record key _ hFind hLive hRoom hKey =>
    refine becomes_modify h (fun record => extend_frame record key) (h.of_found hFind ?_) ha
    exact KeyRecord.becomes_extend (h.records record (find_eq_some hFind).1) hLive hRoom key
  | @destroyedSome caller id answers record e _ hAuth _ _ =>
    obtain ⟨hFind, -, hLive, -⟩ := authorizeRecord_eq_ok hAuth
    refine becomes_modify h ?_ (h.of_found hFind ?_) ha
    · exact fun _ => ⟨rfl, rfl⟩
    · exact KeyRecord.becomes_destroyVersions answers record.destroyed fun hDead => hDead
  | @destroyed caller id answers record _ hAuth hNone _ =>
    obtain ⟨hFind, -, hLive, -⟩ := authorizeRecord_eq_ok hAuth
    refine becomes_modify h ?_ (h.of_found hFind ?_) ha
    · exact fun _ => ⟨rfl, rfl⟩
    · exact KeyRecord.becomes_destroyVersions answers true fun _ => rfl

/-- A version with a key was there before, or the operation issued it. -/
theorem Change.origin (h : r.Sound) (hChange : Change r op answer r') (hb : b ∈ r'.live)
    (hv : v ∈ b.versions) (hOcc : v.occupied = true) (hKept : v.destroyed = false) :
    (∃ a ∈ r.live, a.descriptor.id = b.descriptor.id ∧ v ∈ a.versions) ∨
      ∃ descriptor, op.Issues answer descriptor v.providerKey ∧
        descriptor.id = b.descriptor.id ∧ descriptor.version = v.version := by
  cases hChange with
  | same => exact .inl ⟨b, hb, rfl, hv⟩
  | @enrolled owner descriptor key _ hIssues hRoom _ _ _ hVer _ =>
    rw [(live_enroll h hRoom ..).2] at hb
    rcases mem_append.mp hb with hb | hb
    · exact .inl ⟨b, hb, rfl, hv⟩
    rw [mem_singleton.mp hb] at hv ⊢
    rcases mem_packed hv with hv | rfl
    · rw [mem_singleton.mp hv]
      exact .inr ⟨descriptor, hIssues, rfl, hVer⟩
    · cases hOcc
  | @advanced record key hIssues hFind hLive hRoom hKey =>
    obtain ⟨hMem, hId⟩ := find_eq_some hFind
    obtain ⟨a, ha, ⟨hSame, rfl⟩ | rfl⟩ := mem_live_modify h hb fun record => extend_frame record key
    · obtain rfl := h.eq_of_id ha hMem (hSame.trans hId.symm)
      rw [(KeyRecord.versions_extend (h.records a hMem) hLive hRoom key).1] at hv
      rcases mem_packed hv with hv | rfl
      · rcases mem_append.mp hv with hv | hv
        · exact .inl ⟨a, ha, rfl, (KeyRecord.mem_held.mp hv).1⟩
        · rw [mem_singleton.mp hv]
          exact .inr ⟨_, hIssues, rfl, rfl⟩
      · cases hOcc
    · exact .inl ⟨b, ha, rfl, hv⟩
  | @destroyedSome caller id answers record e _ hAuth _ _
  | @destroyed caller id answers record _ hAuth hNone _ =>
    obtain ⟨hMem, hId⟩ := find_eq_some (authorizeRecord_eq_ok hAuth).1
    obtain ⟨a, ha, ⟨hSame, rfl⟩ | rfl⟩ := mem_live_modify h hb fun _ => ⟨rfl, rfl⟩
    · obtain rfl := h.eq_of_id ha hMem (hSame.trans hId.symm)
      exact .inl ⟨a, ha, rfl, KeyRecord.mem_of_mem_destroyVersions hv hKept⟩
    · exact .inl ⟨b, ha, rfl, hv⟩

/-- The version that is issued is the next one, and it is in the registry then. -/
theorem Change.issued (h : r.Sound) (hChange : Change r op answer r') {d : KeyDescriptor}
    {key : ProviderKeyReference} (hIssues : op.Issues answer d key) :
    (∃ b ∈ r'.live, b.descriptor = d) ∧
      ∀ a ∈ r.live, a.descriptor.id = d.id → a.descriptor.version.toNat < d.version.toNat := by
  have hSame : ∀ {d' : KeyDescriptor} {key' : ProviderKeyReference}, op.Issues answer d' key' →
      d' = d := by
    intro d' key' hOther
    have hEq := hOther.2.symm.trans hIssues.2
    cases hEq
    rfl
  cases hChange with
  | same hNone => exact absurd hIssues (hNone d key)
  | @enrolled owner descriptor key' _ hOwn hRoom hNew _ _ _ _ =>
    obtain rfl := hSame hOwn
    refine ⟨⟨firstRecord owner descriptor key', ?_, rfl⟩, ?_⟩
    · rw [(live_enroll h hRoom ..).2]
      exact mem_append_right _ (mem_singleton.mpr rfl)
    · intro a ha hId
      exact absurd hId (find_eq_none hNew ha)
  | @advanced record key' hOwn hFind hLive hRoom hKey =>
    obtain rfl := hSame hOwn
    obtain ⟨hMem, hId⟩ := find_eq_some hFind
    refine ⟨⟨record.extend key', ?_, rfl⟩, ?_⟩
    · rw [advance, (live_modify h fun record => extend_frame record key').2, mem_map]
      exact ⟨record, hMem, if_pos hId⟩
    intro a ha hSameId
    obtain rfl := h.eq_of_id ha hMem hSameId
    show _ < (a.descriptor.version + 1).toNat
    rw [KeyRecord.toNat_version_succ
      (KeyRecord.versions_extend (h.records a hMem) hLive hRoom key').2]
    exact Nat.lt_succ_self _
  | destroyedSome hOp | destroyed hOp =>
    rw [hOp] at hIssues
    cases hIssues.1

/-- An operation on a destroyed key fails without a call. -/
theorem refused_of_destroyed {record : KeyRecord} (hFind : r.find op.subject = some record)
    (hDead : record.destroyed = true) :
    (∃ e, (r.step op).2.result = .error e) ∧ (r.step op).2.calls = [] := by
  have hRefused : ∀ caller right, ∃ e, r.authorizeRecord caller op.subject right = .error e := by
    intro caller right
    cases hAuth : r.authorizeRecord caller op.subject right with
    | error e => exact ⟨e, rfl⟩
    | ok =>
      obtain ⟨hFound, -, hLive, -⟩ := authorizeRecord_eq_ok hAuth
      rw [hFind] at hFound
      cases hFound
      rw [hDead] at hLive
      cases hLive
  have hVer : ∀ caller version right current, ∃ e,
      r.authorizeVersion caller op.subject version right current = .error e := by
    intro caller version right current
    cases hAuth : r.authorizeVersion caller op.subject version right current with
    | error e => exact ⟨e, rfl⟩
    | ok =>
      obtain ⟨found, hFound, -⟩ := authorizeVersion_eq_ok hAuth
      obtain ⟨e, hErr⟩ := hRefused caller right
      rw [hErr] at hFound
      cases hFound
  choose e hErr using hRefused
  choose e' hErr' using hVer
  cases op with
  | create _ id | adoptGenerated _ id =>
    have hKnown : (r.find id).isSome = true := by
      rw [show r.find id = some record from hFind]
      rfl
    dsimp only [step, create, adoptGenerated]
    split_ifs
    all_goals exact ⟨⟨_, rfl⟩, rfl⟩
  | describe | rotate | destroy =>
    dsimp only [KeyOp.subject] at hErr
    simp only [step, describe, rotate, rotatable, destroy, hErr]
    exact ⟨⟨_, rfl⟩, rfl⟩
  | rotateAdoptGenerated =>
    dsimp only [KeyOp.subject] at hErr
    rw [step, rotateAdoptGenerated, rotatable, hErr]
    split_ifs
    all_goals exact ⟨⟨_, rfl⟩, rfl⟩
  | providerReference | sealPlaintext | openCiphertext =>
    dsimp only [KeyOp.subject] at hFind hErr'
    simp only [step, providerReference, sealPlaintext, openCiphertext, hFind, hErr']
    exact ⟨⟨_, rfl⟩, rfl⟩

/-- What a call to the provider is made for. -/
def Justified (r : KeyRegistry) (op : KeyOp) : ProviderCall → Prop
  | .generate _ => True
  | .seal key => ∃ caller id version sealed v, op = .sealPlaintext caller id version sealed ∧
      r.authorizeVersion caller id version encrypt true = .ok v ∧ v.providerKey = key
  | .open key => ∃ caller id version opened v, op = .openCiphertext caller id version opened ∧
      r.authorizeVersion caller id version decrypt false = .ok v ∧ v.providerKey = key
  | .destroy key => ∃ caller id answers record v, op = .destroy caller id answers ∧
      r.authorizeRecord caller id KeyRights.destroy = .ok record ∧ v ∈ record.versions ∧
      KeyRecord.pending v = true ∧ v.providerKey = key

theorem justified_step (r : KeyRegistry) (op : KeyOp) :
    ∀ call ∈ (r.step op).2.calls, Justified r op call := by
  have hGenerate : ∀ {purpose : KeyPurpose} {call : ProviderCall},
      call ∈ [ProviderCall.generate purpose] → Justified r op call := by
    intro purpose call hCall
    rw [mem_singleton.mp hCall]
    trivial
  cases op with
  | create owner id purpose rights generated =>
    show ∀ call ∈ (r.create owner id purpose rights generated).2.calls, _
    unfold create
    split_ifs
    iterate 5 exact nofun
    · cases generated with
      | error => exact fun call => hGenerate
      | ok =>
        dsimp only
        split_ifs
        all_goals exact fun call => hGenerate
  | adoptGenerated | describe | rotateAdoptGenerated | providerReference =>
    dsimp only [step, adoptGenerated, describe, rotateAdoptGenerated, providerReference]
    repeat' split
    all_goals exact forall_mem_nil _
  | rotate caller id generated =>
    show ∀ call ∈ (r.rotate caller id generated).2.calls, _
    unfold rotate
    cases r.rotatable caller id with
    | error => exact nofun
    | ok =>
      cases generated with
      | error => exact fun call => hGenerate
      | ok =>
        dsimp only
        split_ifs
        all_goals exact fun call => hGenerate
  | sealPlaintext caller id version done | openCiphertext caller id version done =>
    dsimp only [step, sealPlaintext, openCiphertext]
    split
    · exact forall_mem_nil _
    rename_i v hAuth
    intro call hCall
    rw [mem_singleton.mp hCall]
    exact ⟨caller, id, version, done, v, rfl, hAuth, rfl⟩
  | destroy caller id answers =>
    show ∀ call ∈ (r.destroy caller id answers).2.calls, _
    unfold destroy
    cases hAuth : r.authorizeRecord caller id KeyRights.destroy with
    | error => exact nofun
    | ok record =>
      rw [(authorizeRecord_eq_ok hAuth).1]
      have hPending : ∀ call ∈ (record.versions.filter KeyRecord.pending).map
          (fun v => ProviderCall.destroy v.providerKey),
          Justified r (.destroy caller id answers) call := by
        intro call hCall
        obtain ⟨v, hv, rfl⟩ := mem_map.mp hCall
        obtain ⟨hMem, hWaits⟩ := mem_filter.mp hv
        exact ⟨caller, id, answers, record, v, rfl, hAuth, hMem, hWaits, rfl⟩
      dsimp only
      cases record.firstFailure answers with
      | some => exact hPending
      | none => exact hPending

/-- A version that has lost its key is not authorized. -/
theorem not_authorized_of_destroyed (h : r.Sound) {record : KeyRecord} (hRec : record ∈ r.live)
    (hv : v ∈ record.versions) (hOcc : v.occupied = true) (hGone : v.destroyed = true)
    (caller : KeyOwner) (right : RightsMask) (current : Bool) :
    ∃ e, r.authorizeVersion caller record.descriptor.id v.version right current = .error e := by
  cases hAuth : r.authorizeVersion caller record.descriptor.id v.version right current with
  | error e => exact ⟨e, rfl⟩
  | ok w =>
    obtain ⟨found, hFound, -, hw, hwOccupied, hwVersion, hwKept, -⟩ := authorizeVersion_eq_ok hAuth
    obtain ⟨hFind, -, hLive, -⟩ := authorizeRecord_eq_ok hFound
    obtain ⟨hMem, hId⟩ := find_eq_some hFind
    obtain rfl := h.eq_of_id hMem hRec hId
    have hSound := h.records found hRec
    have hSmall : found.descriptor.version.toNat < 2 ^ 32 := found.descriptor.version.toNat_lt
    have hDist : (keys key found.versions).Nodup := by
      rw [hSound.keys_versions hLive]
      exact nodup_numbers hSmall
    have hSame : some w = some v := by
      rw [← (lookup_eq_some_iff (k := v.version) hDist).mpr
        ⟨hw, key_eq_some.mpr ⟨hwOccupied, hwVersion⟩⟩]
      exact (lookup_eq_some_iff hDist).mpr
        ⟨hv, key_eq_some.mpr ⟨hOcc, rfl⟩⟩
    cases hSame
    rw [hGone] at hwKept
    cases hwKept

end KeyRegistry

namespace KeyRun

variable {current : Bool}

/-- The registry after the first `n` operations of a run. -/
def reached (ops : List KeyOp) (n : Nat) : KeyRegistry := Run.after step {} (ops.take n)

/-- What the operation at place `n` answered. -/
def answer (ops : List KeyOp) (n : Nat) (op : KeyOp) : Answer KeyValue :=
  ((reached ops n).step op).2

/-- The operation at place `m` made this version of the key, with this reference. -/
def IssuedAt (ops : List KeyOp) (m : Nat) (id : KeyId) (version : UInt32)
    (key : ProviderKeyReference) : Prop :=
  ∃ op descriptor, ops[m]? = some op ∧ op.Issues (answer ops m op) descriptor key ∧
    descriptor.id = id ∧ descriptor.version = version

/-- The operation at place `m` was a destruction in which the provider took back the
key of this version. -/
def GoneAt (ops : List KeyOp) (m : Nat) (id : KeyId) (version : UInt32)
    (key : ProviderKeyReference) : Prop :=
  ∃ (caller : KeyOwner) (answers : Nat → Result Unit) (record : KeyRecord) (i : Nat)
    (v : KeyVersionRecord), ops[m]? = some (.destroy caller id answers) ∧
    (reached ops m).authorizeRecord caller id destroy = .ok record ∧
    record.versions[i]? = some v ∧ KeyRecord.pending v = true ∧ answers i = .ok () ∧
    v.version = version ∧ v.providerKey = key

/-- The reference was issued for one version only. -/
def IssuedOnce (ops : List KeyOp) (key : ProviderKeyReference) : Prop :=
  ∀ m n id id' version version', IssuedAt ops m id version key → IssuedAt ops n id' version' key →
    m = n

/-- The caller is the owner of the key, which is not destroyed and grants the right. -/
def Entitled (r : KeyRegistry) (caller : KeyOwner) (id : KeyId) (right : RightsMask)
    (record : KeyRecord) : Prop :=
  r.find id = some record ∧ record.owner = caller ∧ record.destroyed = false ∧
    record.descriptor.rights &&& right = right

/-- What holds of every run, whoever calls and whatever the provider answers. -/
structure KeyAuthority (ops : List KeyOp) : Prop where
  unique : Run.Always step
    (fun r => (r.live.map fun record => record.descriptor.id).Nodup) {} ops
  /-- A key, which begins with its first version, and each further version of it is
  issued once. -/
  once : ∀ m n id version key key', m < n → IssuedAt ops m id version key →
    ¬IssuedAt ops n id version key'
  fixed : ∀ (m n i : Nat) (record : KeyRecord), m ≤ n →
    (reached ops m).records[i]? = some record → record.occupied = true →
    ∃ record' : KeyRecord, (reached ops n).records[i]? = some record' ∧
      record'.occupied = true ∧ record'.descriptor.id = record.descriptor.id ∧
      record'.owner = record.owner ∧ record'.descriptor.purpose = record.descriptor.purpose ∧
      record'.descriptor.rights = record.descriptor.rights
  /-- The slots of a live record hold the versions from one to the current one. -/
  versions : Run.Always step (fun r => ∀ record ∈ r.live, record.destroyed = false →
    keys key record.versions = numbers record.descriptor.version.toNat ∧
      (numbers record.descriptor.version.toNat).Nodup) {} ops
  seals : ∀ n op key, ops[n]? = some op → .seal key ∈ (answer ops n op).calls →
    ∃ caller id version sealed record, op = .sealPlaintext caller id version sealed ∧
      Entitled (reached ops n) caller id encrypt record ∧
      record.descriptor.version = version ∧ ∃ m, m < n ∧ IssuedAt ops m id version key
  opens : ∀ n op key, ops[n]? = some op → .open key ∈ (answer ops n op).calls →
    ∃ caller id version opened record, op = .openCiphertext caller id version opened ∧
      Entitled (reached ops n) caller id decrypt record ∧
      ∃ m, m < n ∧ IssuedAt ops m id version key
  destroyed : ∀ m n caller id answers op, m < n → ops[m]? = some (.destroy caller id answers) →
    (answer ops m (.destroy caller id answers)).result = .ok .done → ops[n]? = some op →
    op.subject = id → (∃ e, (answer ops n op).result = .error e) ∧ (answer ops n op).calls = []
  /-- A version whose key is gone is refused, although the record may still be live. -/
  gone : ∀ m n id version key caller right current, m < n → GoneAt ops m id version key →
    ∃ e, (reached ops n).authorizeVersion caller id version right current = .error e
  /-- The provider is not called with a reference that is gone, unless the same
  reference was issued for a second version. -/
  goneKey : ∀ m n id version key op, m < n → GoneAt ops m id version key → IssuedOnce ops key →
    ops[n]? = some op →
    .seal key ∉ (answer ops n op).calls ∧ .open key ∉ (answer ops n op).calls
  /-- After a destruction that failed the owner can destroy the key again. -/
  again : ∀ n caller id answers record e, ops[n]? = some (.destroy caller id answers) →
    (reached ops n).authorizeRecord caller id destroy = .ok record →
    (answer ops n (.destroy caller id answers)).result = .error e →
    ∀ answers', (∀ i, answers' i = .ok ()) →
      ((reached ops (n + 1)).destroy caller id answers').2.result = .ok ()

variable {ops : List KeyOp}

theorem sound_reached (ops : List KeyOp) (n : Nat) : (reached ops n).Sound :=
  Run.always_of_invariant sound_start
    (fun r op h => (change_step r op).sound h) n

variable {n m : Nat} {op : KeyOp} {id : KeyId} {version : UInt32} {key : ProviderKeyReference}
  {caller : KeyOwner} {right : RightsMask} {record : KeyRecord}

theorem reached_succ (h : ops[n]? = some op) : reached ops (n + 1) = ((reached ops n).step op).1 :=
  Run.after_take_succ h

theorem change_reached (h : ops[n]? = some op) :
    KeyRegistry.Change (reached ops n) op (answer ops n op) (reached ops (n + 1)) := by
  rw [reached_succ h]
  exact change_step ..

theorem becomes_reached (ops : List KeyOp) {m n i : Nat} (hmn : m ≤ n)
    (ha : (reached ops m).live[i]? = some a) :
    ∃ b, (reached ops n).live[i]? = some b ∧ a.Becomes b := by
  refine (Run.stable
    (P := fun r : KeyRegistry => r.Sound ∧ ∃ b, r.live[i]? = some b ∧ a.Becomes b) ?_ hmn
    ⟨sound_reached ops m, a, ha, .refl a⟩).2
  rintro r op ⟨hSound, b, hb, hBecomes⟩
  have hChange := change_step r op
  obtain ⟨c, hc, hNext⟩ := hChange.becomes hSound hb
  exact ⟨hChange.sound hSound, c, hc, hBecomes.trans hNext⟩

/-- A record that was there is there later, under its identifier. -/
theorem mem_reached (hmn : m ≤ n) (ha : a ∈ (reached ops m).live) :
    ∃ b ∈ (reached ops n).live, a.Becomes b := by
  obtain ⟨i, hi⟩ := mem_iff_getElem?.mp ha
  obtain ⟨b, hb, hBecomes⟩ := becomes_reached ops hmn hi
  exact ⟨b, mem_of_getElem? hb, hBecomes⟩

theorem issued_once {key' : ProviderKeyReference} (hmn : m < n)
    (h : IssuedAt ops m id version key) : ¬IssuedAt ops n id version key' := by
  rintro ⟨op', d', hOp', hIssues', rfl, rfl⟩
  obtain ⟨op, d, hOp, hIssues, hId, hVer⟩ := h
  obtain ⟨⟨a, ha, rfl⟩, -⟩ := (change_reached hOp).issued (sound_reached ops m) hIssues
  obtain ⟨b, hb, hBecomes⟩ := mem_reached hmn ha
  have hLess := ((change_reached hOp').issued (sound_reached ops n) hIssues').2 b hb
    (hBecomes.id.trans hId)
  have hLe := hBecomes.version
  rw [hVer] at hLe
  omega

/-- Every version that has a key was issued with it. -/
theorem issued_of_mem (ops : List KeyOp) (n : Nat) : ∀ record ∈ (reached ops n).live,
    ∀ v ∈ record.versions, v.occupied = true → v.destroyed = false →
      ∃ m, m < n ∧ IssuedAt ops m record.descriptor.id v.version v.providerKey := by
  induction n with
  | zero =>
    intro record hRec
    cases hRec
  | succ n ih =>
    intro record hRec v hv hOcc hKept
    cases hOp : ops[n]? with
    | none =>
      rw [reached, Run.take_succ_of_none hOp] at hRec
      obtain ⟨m, hm, hIssued⟩ := ih record hRec v hv hOcc hKept
      exact ⟨m, Nat.lt_succ_of_lt hm, hIssued⟩
    | some op =>
      rcases (change_reached hOp).origin (sound_reached ops n) hRec hv hOcc hKept with
        ⟨old, hOld, hId, hOldVer⟩ | ⟨d, hIssues, hId, hVer⟩
      · obtain ⟨m, hm, hIssued⟩ := ih old hOld v hOldVer hOcc hKept
        rw [hId] at hIssued
        exact ⟨m, Nat.lt_succ_of_lt hm, hIssued⟩
      · exact ⟨n, Nat.lt_succ_self n, op, d, hOp, hIssues, hId, hVer⟩

/-- What an authorized version is. -/
theorem issued_of_authorized
    (h : (reached ops n).authorizeVersion caller id version right current = .ok v) :
    ∃ record, Entitled (reached ops n) caller id right record ∧
      (current = true → record.descriptor.version = version) ∧
      ∃ m, m < n ∧ IssuedAt ops m id version v.providerKey := by
  obtain ⟨record, hAuth, hCur, hv, hOcc, hVer, hKept, -⟩ := authorizeVersion_eq_ok h
  have hEntitled := authorizeRecord_eq_ok hAuth
  obtain ⟨hMem, hId⟩ := find_eq_some hEntitled.1
  have hIssued := issued_of_mem ops n record hMem v hv hOcc hKept
  rw [hId, hVer] at hIssued
  exact ⟨record, hEntitled, hCur, hIssued⟩

/-- A destroyed key stays destroyed. -/
theorem destroyed_reached (hmn : m < n) (hOp : ops[m]? = some (.destroy caller id answers))
    (hDone : (answer ops m (.destroy caller id answers)).result = .ok .done) :
    ∃ record, (reached ops n).find id = some record ∧ record.destroyed = true := by
  have hSound := sound_reached ops m
  have hDead : ∃ a ∈ (reached ops (m + 1)).live, a.descriptor.id = id ∧ a.destroyed = true := by
    have hChange := change_reached hOp
    generalize reached ops (m + 1) = next at hChange
    cases hChange with
    | same _ hDestroy =>
      obtain ⟨e, hErr⟩ := hDestroy caller id answers rfl
      rw [hDone] at hErr
      cases hErr
    | enrolled _ hIssues | advanced hIssues => cases hIssues.1
    | destroyedSome _ _ _ hRes =>
      rw [hDone] at hRes
      cases hRes
    | @destroyed _ _ _ record hSame hAuth _ _ =>
      cases hSame
      obtain ⟨hMem, hId⟩ := find_eq_some (authorizeRecord_eq_ok hAuth).1
      refine ⟨{ record with versions := record.destroyVersions answers, destroyed := true },
        ?_, hId, rfl⟩
      rw [(live_modify hSound ?_).2, mem_map]
      · exact ⟨record, hMem, if_pos hId⟩
      · exact fun _ => ⟨rfl, rfl⟩
  obtain ⟨a, ha, hId, hGone⟩ := hDead
  obtain ⟨b, hb, hBecomes⟩ := mem_reached hmn ha
  refine ⟨b, ?_, hBecomes.dead hGone⟩
  rw [← hId, ← hBecomes.id]
  exact find_of_mem (sound_reached ops n) hb

/-- The version that lost its key has it no more. -/
theorem gone_reached (hmn : m < n) (h : GoneAt ops m id version key) :
    ∃ record ∈ (reached ops n).live, record.descriptor.id = id ∧ ∃ v ∈ record.versions,
      v.occupied = true ∧ v.version = version ∧ v.destroyed = true := by
  obtain ⟨caller, answers, record, i, v, hOp, hAuth, hv, hPending, hAns, rfl, -⟩ := h
  have hSound := sound_reached ops m
  obtain ⟨hMem, hId⟩ := find_eq_some (authorizeRecord_eq_ok hAuth).1
  have hOcc : v.occupied = true := by
    rw [KeyRecord.pending, Bool.and_eq_true] at hPending
    exact hPending.1
  have hAge : KeyRecord.age answers i v = { v with destroyed := true, providerKey := 0 } := by
    rw [KeyRecord.age, hPending, hAns]
    rfl
  have hAged : { v with destroyed := true, providerKey := 0 } ∈ record.destroyVersions answers := by
    refine mem_of_getElem? (i := i) ?_
    rw [KeyRecord.destroyVersions_eq, getElem?_mapIdx, hv, ← hAge]
    rfl
  have hNext : ∃ a ∈ (reached ops (m + 1)).live, a.descriptor.id = id ∧
      { v with destroyed := true, providerKey := 0 } ∈ a.versions := by
    have hDestroy : (reached ops (m + 1)) = ((reached ops m).destroy caller id answers).1 :=
      reached_succ hOp
    rw [hDestroy, KeyRegistry.destroy, hAuth]
    rw [(authorizeRecord_eq_ok hAuth).1]
    dsimp only
    cases record.firstFailure answers with
    | some =>
      refine ⟨{ record with versions := record.destroyVersions answers }, ?_, hId, hAged⟩
      rw [(live_modify hSound ?_).2, mem_map]
      · exact ⟨record, hMem, if_pos hId⟩
      · exact fun _ => ⟨rfl, rfl⟩
    | none =>
      refine ⟨{ record with versions := record.destroyVersions answers, destroyed := true },
        ?_, hId, hAged⟩
      rw [(live_modify hSound ?_).2, mem_map]
      · exact ⟨record, hMem, if_pos hId⟩
      · exact fun _ => ⟨rfl, rfl⟩
  obtain ⟨a, ha, hIdNext, hGone⟩ := hNext
  obtain ⟨b, hb, hBecomes⟩ := mem_reached hmn ha
  obtain ⟨w, hw, hwOccupied, hwVersion, hwGone⟩ := hBecomes.versions _ hGone hOcc
  refine ⟨b, hb, hBecomes.id.trans hIdNext, w, hw, hwOccupied, hwVersion, ?_⟩
  rcases hwGone with rfl | hwGone
  · rfl
  · exact hwGone

theorem refused_of_gone (hmn : m < n) (h : GoneAt ops m id version key) (caller : KeyOwner)
    (right : RightsMask) (current : Bool) :
    ∃ e, (reached ops n).authorizeVersion caller id version right current = .error e := by
  obtain ⟨record, hRec, rfl, v, hv, hOcc, rfl, hGone⟩ := gone_reached hmn h
  exact not_authorized_of_destroyed (sound_reached ops n) hRec hv hOcc hGone
    caller right current

/-- The reference that is gone was issued for the version that lost it. -/
theorem issued_of_gone (h : GoneAt ops m id version key) :
    ∃ k, k < m ∧ IssuedAt ops k id version key := by
  obtain ⟨caller, answers, record, i, v, -, hAuth, hv, hPending, -, rfl, rfl⟩ := h
  obtain ⟨hMem, hId⟩ := find_eq_some (authorizeRecord_eq_ok hAuth).1
  rw [KeyRecord.pending, Bool.and_eq_true, Bool.not_eq_true'] at hPending
  rw [← hId]
  exact issued_of_mem ops m record hMem v (mem_of_getElem? hv) hPending.1 hPending.2

theorem not_authorized_key {id' : KeyId} {version' : UInt32} (hmn : m < n)
    (hGone : GoneAt ops m id version key) (hOnce : IssuedOnce ops key) {caller : KeyOwner}
    {right : RightsMask}
    (h : (reached ops n).authorizeVersion caller id' version' right current = .ok v) :
    v.providerKey ≠ key := by
  rintro rfl
  obtain ⟨record, -, -, k, -, hIssued⟩ := issued_of_authorized h
  obtain ⟨k', -, hIssued'⟩ := issued_of_gone hGone
  obtain rfl := hOnce k k' id' id version' version hIssued hIssued'
  -- One operation issues one version, so that it is the version that lost its key.
  obtain ⟨op, d, hOp, hIssues, rfl, rfl⟩ := hIssued
  obtain ⟨op', d', hOp', hIssues', hId, hVer⟩ := hIssued'
  cases Option.some.inj (hOp.symm.trans hOp')
  have hSame := hIssues.2.symm.trans hIssues'.2
  cases hSame
  obtain ⟨e, hErr⟩ := refused_of_gone hmn hGone caller right current
  rw [← hId, ← hVer, h] at hErr
  cases hErr

theorem authorizeRecord_of_same {r r' : KeyRegistry} {record' : KeyRecord}
    (h : r.authorizeRecord caller id right = .ok record) (hFind : r'.find id = some record')
    (hOwner : record'.owner = record.owner) (hDead : record'.destroyed = record.destroyed)
    (hRights : record'.descriptor.rights = record.descriptor.rights) :
    r'.authorizeRecord caller id right = .ok record' := by
  obtain ⟨-, hIsOwner, hLive, hGranted⟩ := authorizeRecord_eq_ok h
  unfold authorizeRecord at h ⊢
  split_ifs at h ⊢
  rw [hFind]
  dsimp only
  rw [if_neg (not_not.mpr (hOwner.trans hIsOwner)), hDead, hLive, if_neg (by decide), hRights,
    if_neg (not_not.mpr hGranted)]

theorem destroy_again {e : Error} (hOp : ops[n]? = some (.destroy caller id answers))
    (hAuth : (reached ops n).authorizeRecord caller id destroy = .ok record)
    (hFailed : (answer ops n (.destroy caller id answers)).result = .error e)
    {answers' : Nat → Result Unit} (hOk : ∀ i, answers' i = .ok ()) :
    ((reached ops (n + 1)).destroy caller id answers').2.result = .ok () := by
  obtain ⟨hFind, -⟩ := authorizeRecord_eq_ok hAuth
  have hNext : (reached ops (n + 1)).find id =
      some { record with versions := record.destroyVersions answers } := by
    have hStep : reached ops (n + 1) = ((reached ops n).destroy caller id answers).1 :=
      reached_succ hOp
    have hRes : ((reached ops n).destroy caller id answers).2.result.map
        (fun _ => KeyValue.done) = .error e := hFailed
    rw [hStep]
    unfold KeyRegistry.destroy at hRes ⊢
    rw [hAuth] at hRes ⊢
    rw [hFind] at hRes ⊢
    dsimp only at hRes ⊢
    cases hFirst : record.firstFailure answers with
    | none =>
      rw [hFirst] at hRes
      cases hRes
    | some =>
      show lookup KeyRecord.key id (modify KeyRecord.key id _ (reached ops n).records) = _
      rw [lookup_modify_self, show lookup KeyRecord.key id (reached ops n).records = _ from hFind]
      · rfl
      · exact fun _ hKey => hKey
  have hAgain := authorizeRecord_of_same hAuth hNext rfl rfl rfl
  have hNone : ({ record with versions := record.destroyVersions answers } :
      KeyRecord).firstFailure answers' = none :=
    KeyRecord.firstFailure_eq_none.mpr fun i _ _ _ => hOk i
  unfold KeyRegistry.destroy
  rw [hAgain]
  rw [hNext]
  dsimp only
  rw [hNone]

/-- In every run the authority over a key is its owner's, version by version. -/
theorem key_authority_is_owner_exact (ops : List KeyOp) : KeyAuthority ops := by
  constructor
  · exact fun n => (sound_reached ops n).ids
  · exact fun m n id version key key' hmn h => issued_once hmn h
  · intro m n i record hmn hi hOcc
    have hSound := sound_reached ops m
    have hLive : (reached ops m).live[i]? = some record := by
      rw [hSound.table] at hi
      refine getElem?_of_packed hi ?_
      rintro rfl
      cases hOcc
    obtain ⟨record', hi', hBecomes⟩ := becomes_reached ops hmn hLive
    have hSound' := sound_reached ops n
    refine ⟨record', ?_, (hSound'.records record' (mem_of_getElem? hi')).occupied,
      hBecomes.id, hBecomes.owner, hBecomes.purpose, hBecomes.rights⟩
    rw [hSound'.table]
    exact getElem?_packed hi'
  · intro n record hRec hLive
    refine ⟨((sound_reached ops n).records record hRec).keys_versions hLive, ?_⟩
    exact nodup_numbers record.descriptor.version.toNat_lt
  · intro n op key hOp hCall
    obtain ⟨caller, id, version, sealed, v, rfl, hAuth, rfl⟩ :=
      justified_step (reached ops n) op _ hCall
    obtain ⟨record, hEntitled, hCur, hIssued⟩ := issued_of_authorized hAuth
    exact ⟨caller, id, version, sealed, record, rfl, hEntitled, hCur rfl, hIssued⟩
  · intro n op key hOp hCall
    obtain ⟨caller, id, version, opened, v, rfl, hAuth, rfl⟩ :=
      justified_step (reached ops n) op _ hCall
    obtain ⟨record, hEntitled, -, hIssued⟩ := issued_of_authorized hAuth
    exact ⟨caller, id, version, opened, record, rfl, hEntitled, hIssued⟩
  · rintro m n caller id answers op hmn hDestroy hDone hOp rfl
    obtain ⟨record, hFind, hDead⟩ := destroyed_reached hmn hDestroy hDone
    exact refused_of_destroyed hFind hDead
  · exact fun m n id version key caller right current hmn h =>
      refused_of_gone hmn h caller right current
  · intro m n id version key op hmn hGone hOnce hOp
    constructor
    · intro hCall
      obtain ⟨caller, id', version', sealed, v, -, hAuth, hKey⟩ :=
        justified_step (reached ops n) op _ hCall
      exact not_authorized_key hmn hGone hOnce hAuth hKey
    · intro hCall
      obtain ⟨caller, id', version', opened, v, -, hAuth, hKey⟩ :=
        justified_step (reached ops n) op _ hCall
      exact not_authorized_key hmn hGone hOnce hAuth hKey
  · exact fun n caller id answers record e hOp hAuth hFailed answers' hOk =>
      destroy_again hOp hAuth hFailed hOk

end KeyRun

end Enml.OsKeys
