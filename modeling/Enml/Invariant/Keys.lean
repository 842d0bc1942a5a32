import Enml.Lib.Packed
import Enml.OsKeys.Registry

/-! The invariant of the key registry. Records and versions fill their tables from
the front and are never freed, so that the table of a live record holds exactly its
versions from the first to the current one. -/
namespace Enml.OsKeys

open Enml.Core SlotTable List KeyRights KeyVersionRecord KeyRecord

variable {v : KeyVersionRecord} {version : UInt32} {key : ProviderKeyReference}

/-- The first `n` version numbers. -/
def numbers (n : Nat) : List UInt32 := (range n).map fun i => UInt32.ofNat (i + 1)

namespace KeyRecord

/-- The versions in the table of a record. -/
def held (record : KeyRecord) : List KeyVersionRecord :=
  entries KeyVersionRecord.key record.versions

/-- A record as the operations leave it. -/
structure Sound (record : KeyRecord) : Prop where
  occupied : record.occupied = true
  owner : validPrincipal record.owner.principal = true
  descriptor : record.descriptor.valid = true
  length : record.versions.length = maxKeyVersions
  keyed : ∀ v ∈ record.versions, v.occupied = true → (v.destroyed = true ↔ v.providerKey = 0)
  table : record.destroyed = false → record.versions = packed {} maxKeyVersions record.held
  versions : record.destroyed = false →
    record.held.map (fun v => v.version) = numbers record.descriptor.version.toNat
  dead : record.destroyed = true → ∀ v ∈ record.versions, pending v = false

end KeyRecord

namespace KeyRegistry

/-- The records in use. -/
def live (r : KeyRegistry) : List KeyRecord := entries KeyRecord.key r.records

structure Sound (r : KeyRegistry) : Prop where
  table : r.records = packed {} maxKeyRecords r.live
  size : r.live.length ≤ maxKeyRecords
  records : ∀ record ∈ r.live, record.Sound
  ids : (r.live.map fun record => record.descriptor.id).Nodup

end KeyRegistry

theorem length_numbers (n : Nat) : (numbers n).length = n := by simp [numbers]

theorem numbers_succ (n : Nat) : numbers (n + 1) = numbers n ++ [UInt32.ofNat (n + 1)] := by
  simp [numbers, range_succ]

theorem mem_numbers {n : Nat} (hn : n < 2 ^ 32) {v : UInt32} :
    v ∈ numbers n ↔ v ≠ 0 ∧ v.toNat ≤ n := by
  simp only [numbers, mem_map, mem_range]
  constructor
  · rintro ⟨i, hi, rfl⟩
    have hNat : (UInt32.ofNat (i + 1)).toNat = i + 1 := Nat.mod_eq_of_lt (by omega)
    refine ⟨?_, by omega⟩
    intro hZero
    rw [hZero] at hNat
    cases hNat
  · rintro ⟨hNonzero, hLe⟩
    have hPos : v.toNat ≠ 0 := fun hZero => hNonzero (UInt32.toNat_inj.mp hZero)
    refine ⟨v.toNat - 1, by omega, ?_⟩
    rw [Nat.sub_add_cancel (by omega), UInt32.ofNat_toNat]

theorem nodup_numbers {n : Nat} (hn : n < 2 ^ 32) : (numbers n).Nodup := by
  refine List.Nodup.map_on ?_ nodup_range
  intro i hi j hj hSame
  have hi := mem_range.mp hi
  have hj := mem_range.mp hj
  have hNat := congrArg UInt32.toNat hSame
  rw [UInt32.toNat_ofNat', UInt32.toNat_ofNat', Nat.mod_eq_of_lt (by omega),
    Nat.mod_eq_of_lt (by omega)] at hNat
  omega

namespace KeyVersionRecord

theorem isSome_key : v.key.isSome = v.occupied := by
  cases h : v.occupied <;> simp [key, h]

theorem key_eq_some : v.key = some version ↔ v.occupied = true ∧ v.version = version := by
  cases h : v.occupied <;> simp [key, h]

end KeyVersionRecord

namespace KeyRecord

variable {record : KeyRecord} {answers : Nat → Result Unit}

theorem isSome_key : record.key.isSome = record.occupied := by
  cases h : record.occupied <;> simp [key, h]

theorem key_eq_some {id : KeyId} :
    record.key = some id ↔ record.occupied = true ∧ record.descriptor.id = id := by
  cases h : record.occupied <;> simp [key, h]

theorem mem_held : v ∈ record.held ↔ v ∈ record.versions ∧ v.occupied = true := by
  rw [held, mem_entries, KeyVersionRecord.isSome_key]

theorem Sound.version_le (h : record.Sound) (hLive : record.destroyed = false) :
    record.held.length = record.descriptor.version.toNat ∧
      record.descriptor.version.toNat ≤ maxKeyVersions := by
  have hLen : record.held.length = record.descriptor.version.toNat := by
    rw [← length_numbers record.descriptor.version.toNat, ← h.versions hLive, length_map]
  refine ⟨hLen, ?_⟩
  have hLe : record.held.length ≤ record.versions.length := length_filter_le ..
  rw [h.length] at hLe
  omega

/-- The versions of a live record are the numbers from one to the current one, each
once. -/
theorem Sound.keys_versions (h : record.Sound) (hLive : record.destroyed = false) :
    keys KeyVersionRecord.key record.versions = numbers record.descriptor.version.toNat := by
  rw [← keys_entries, ← h.versions hLive, ← filterMap_eq_map]
  refine filterMap_congr fun v hv => ?_
  exact KeyVersionRecord.key_eq_some.mpr ⟨(mem_held.mp hv).2, rfl⟩

theorem findVersion_eq_some (h : record.findVersion version = some v) :
    v ∈ record.versions ∧ v.occupied = true ∧ v.version = version := by
  obtain ⟨hMem, hKey⟩ := mem_of_lookup h
  obtain ⟨hOcc, hVer⟩ := KeyVersionRecord.key_eq_some.mp hKey
  exact ⟨hMem, hOcc, hVer⟩

/-- The version that a rotation adds. -/
def successor (record : KeyRecord) (key : ProviderKeyReference) : KeyVersionRecord :=
  { occupied := true, version := record.descriptor.version + 1, providerKey := key }

/-- A live record with room gets its next version. -/
theorem versions_extend (h : record.Sound) (hLive : record.destroyed = false)
    (hRoom : (record.versions.all fun v => v.occupied) = false) (key : ProviderKeyReference) :
    (record.extend key).versions =
      packed {} maxKeyVersions (record.held ++ [record.successor key]) ∧
      record.descriptor.version.toNat < maxKeyVersions := by
  have hHeld : ∀ v ∈ record.held, v.occupied = true := fun v hv => (mem_held.mp hv).2
  have hShort : record.held.length < maxKeyVersions := by
    rw [h.table hLive, all_packed rfl hHeld] at hRoom
    simpa using hRoom
  refine ⟨?_, (h.version_le hLive).1 ▸ hShort⟩
  have hIns : insert KeyVersionRecord.key (record.successor key) record.versions =
      some (packed {} maxKeyVersions (record.held ++ [record.successor key])) := by
    rw [h.table hLive]
    refine insert_packed rfl ?_ hShort
    intro v hv
    rw [KeyVersionRecord.isSome_key, hHeld v hv]
  show (insert KeyVersionRecord.key (record.successor key) record.versions).getD _ = _
  rw [hIns]
  rfl

theorem held_extend (h : record.Sound) (hLive : record.destroyed = false)
    (hRoom : (record.versions.all fun v => v.occupied) = false) (key : ProviderKeyReference) :
    (record.extend key).held = record.held ++ [record.successor key] := by
  rw [held, (versions_extend h hLive hRoom key).1]
  refine entries_packed rfl ?_
  intro v hv
  rw [KeyVersionRecord.isSome_key]
  rcases mem_append.mp hv with hv | hv
  · exact (mem_held.mp hv).2
  · rw [mem_singleton.mp hv]
    rfl

theorem toNat_version_succ (h : record.descriptor.version.toNat < maxKeyVersions) :
    (record.descriptor.version + 1).toNat = record.descriptor.version.toNat + 1 := by
  have hSmall : maxKeyVersions < 2 ^ 32 := by decide
  exact Nat.mod_eq_of_lt (show record.descriptor.version.toNat + 1 < 2 ^ 32 by omega)

theorem Sound.extend (h : record.Sound) (hLive : record.destroyed = false)
    (hRoom : (record.versions.all fun v => v.occupied) = false) (hKey : key ≠ 0) :
    (record.extend key).Sound := by
  obtain ⟨hVers, hShort⟩ := versions_extend h hLive hRoom key
  have hHeld := held_extend h hLive hRoom key
  have hNext := toNat_version_succ hShort
  have hNonzero : record.descriptor.version + 1 ≠ 0 := by
    intro hZero
    rw [hZero] at hNext
    cases hNext
  have hFits : (record.held ++ [record.successor key]).length ≤ maxKeyVersions := by
    rw [length_append, (h.version_le hLive).1]
    exact hShort
  refine ⟨h.occupied, h.owner, ?_, ?_, ?_, ?_, ?_, ?_⟩
  · have hValid := h.descriptor
    simp only [KeyDescriptor.valid, Bool.and_eq_true, bne_iff_ne] at hValid ⊢
    exact ⟨⟨⟨hValid.1.1.1, hNonzero⟩, hValid.1.2⟩, hValid.2⟩
  · rw [hVers, length_packed hFits]
  · intro v hv hOcc
    rw [hVers] at hv
    rcases mem_packed hv with hv | rfl
    · rcases mem_append.mp hv with hv | hv
      · exact h.keyed v (mem_held.mp hv).1 hOcc
      · rw [mem_singleton.mp hv]
        simp [successor, hKey]
    · cases hOcc
  · intro _
    rw [hHeld]
    exact hVers
  · intro _
    show _ = numbers (record.descriptor.version + 1).toNat
    rw [hHeld, map_append, h.versions hLive, hNext, numbers_succ, ← hNext, UInt32.ofNat_toNat]
    rfl
  · intro hDead
    rw [show (record.extend key).destroyed = record.destroyed from rfl, hLive] at hDead
    cases hDead

/-- What a destruction does to one version. -/
def age (answers : Nat → Result Unit) (i : Nat) (v : KeyVersionRecord) : KeyVersionRecord :=
  if !pending v then v
  else
    match answers i with
    | .error _ => v
    | .ok () => { v with destroyed := true, providerKey := 0 }

theorem age_frame (answers : Nat → Result Unit) (i : Nat) (v : KeyVersionRecord) :
    (age answers i v).occupied = v.occupied ∧ (age answers i v).version = v.version := by
  unfold age
  split_ifs
  · exact ⟨rfl, rfl⟩
  · cases answers i with
    | error | ok => exact ⟨rfl, rfl⟩

/-- A version either stays as it is or loses its key. -/
theorem age_cases (answers : Nat → Result Unit) (i : Nat) (v : KeyVersionRecord) :
    age answers i v = v ∨ (pending v = true ∧ answers i = .ok () ∧
      age answers i v = { v with destroyed := true, providerKey := 0 }) := by
  unfold age
  split_ifs with hPending
  · exact .inl rfl
  · cases answers i with
    | error => exact .inl rfl
    | ok => exact .inr ⟨by simpa using hPending, rfl, rfl⟩

theorem destroyVersions_eq (record : KeyRecord) (answers : Nat → Result Unit) :
    record.destroyVersions answers = record.versions.mapIdx (age answers) := rfl

theorem mem_destroyVersions (h : v ∈ record.destroyVersions answers) :
    ∃ i w, record.versions[i]? = some w ∧ v = age answers i w := by
  rw [destroyVersions_eq, mem_mapIdx] at h
  obtain ⟨i, hi, rfl⟩ := h
  exact ⟨i, record.versions[i], getElem?_eq_getElem hi, rfl⟩

/-- The record while its versions are being destroyed. -/
theorem held_destroyVersions (h : record.Sound) (hLive : record.destroyed = false)
    (answers : Nat → Result Unit) :
    record.destroyVersions answers = packed {} maxKeyVersions (record.held.mapIdx (age answers)) ∧
      entries KeyVersionRecord.key (record.destroyVersions answers) =
        record.held.mapIdx (age answers) := by
  have hTbl : record.destroyVersions answers =
      packed {} maxKeyVersions (record.held.mapIdx (age answers)) := by
    rw [destroyVersions_eq, h.table hLive, packed, packed, mapIdx_append, length_mapIdx]
    refine congrArg (fun back => mapIdx (age answers) record.held ++ back)
      (ext_getElem? fun i => ?_)
    rw [getElem?_mapIdx]
    cases hCell : (replicate (maxKeyVersions - record.held.length) ({} : KeyVersionRecord))[i]? with
    | none => rfl
    | some v =>
      rw [eq_of_mem_replicate (mem_of_getElem? hCell)]
      rfl
  refine ⟨hTbl, ?_⟩
  rw [hTbl]
  refine entries_packed rfl ?_
  intro v hv
  obtain ⟨i, hi, rfl⟩ := mem_mapIdx.mp hv
  rw [KeyVersionRecord.isSome_key, (age_frame ..).1]
  exact (mem_held.mp (getElem_mem hi)).2

theorem map_version_mapIdx (answers : Nat → Result Unit) (vs : List KeyVersionRecord) :
    (vs.mapIdx (age answers)).map (fun v => v.version) = vs.map fun v => v.version := by
  refine ext_getElem? fun i => ?_
  rw [getElem?_map, getElem?_mapIdx, getElem?_map, Option.map_map]
  refine congrFun (congrArg Option.map ?_) _
  funext v
  exact (age_frame answers i v).2

theorem keyed_destroyVersions (h : record.Sound) (answers : Nat → Result Unit) :
    ∀ v ∈ record.destroyVersions answers, v.occupied = true →
      (v.destroyed = true ↔ v.providerKey = 0) := by
  intro v hv hOcc
  obtain ⟨i, w, hw, rfl⟩ := mem_destroyVersions hv
  rw [(age_frame ..).1] at hOcc
  rcases age_cases answers i w with hSame | ⟨-, -, hGone⟩
  · rw [hSame]
    exact h.keyed w (mem_of_getElem? hw) hOcc
  · rw [hGone]
    simp

/-- A destruction that failed somewhere leaves a live record. -/
theorem Sound.destroySome (h : record.Sound) (hLive : record.destroyed = false)
    (answers : Nat → Result Unit) :
    ({ record with versions := record.destroyVersions answers } : KeyRecord).Sound := by
  obtain ⟨hTbl, hEnts⟩ := held_destroyVersions h hLive answers
  refine ⟨h.occupied, h.owner, h.descriptor, ?_, keyed_destroyVersions h answers, ?_, ?_, ?_⟩
  · rw [destroyVersions_eq, length_mapIdx]
    exact h.length
  · intro _
    rw [held, hEnts]
    exact hTbl
  · intro _
    rw [held, hEnts, map_version_mapIdx]
    exact h.versions hLive
  · intro hDead
    rw [show _ = record.destroyed from rfl, hLive] at hDead
    cases hDead

theorem firstFailure_eq_none :
    record.firstFailure answers = none ↔
      ∀ i v, record.versions[i]? = some v → pending v = true → answers i = .ok () := by
  rw [firstFailure, findSome?_eq_none_iff]
  constructor
  · intro h i v hv hPending
    have hNone := h (v, i) (mk_mem_zipIdx_iff_getElem?.mpr hv)
    dsimp only at hNone
    rw [hPending, Bool.not_true, if_neg (by decide)] at hNone
    cases hAns : answers i with
    | ok => rfl
    | error =>
      rw [hAns] at hNone
      cases hNone
  · rintro h ⟨v, i⟩ hMem
    have hv := mk_mem_zipIdx_iff_getElem?.mp hMem
    dsimp only
    split_ifs with hPending
    · rfl
    · rw [h i v hv (by simpa using hPending)]

theorem Sound.destroyAll (h : record.Sound) (hLive : record.destroyed = false)
    (hNone : record.firstFailure answers = none) :
    ({ record with versions := record.destroyVersions answers, destroyed := true } :
      KeyRecord).Sound := by
  have hSome := h.destroySome hLive answers
  refine ⟨h.occupied, h.owner, h.descriptor, hSome.length, hSome.keyed, nofun, nofun, ?_⟩
  intro _ v hv
  obtain ⟨i, w, hw, rfl⟩ := mem_destroyVersions hv
  cases hPending : pending w with
  | false =>
    rw [show age answers i w = w from if_pos (by simp [hPending])]
    exact hPending
  | true =>
    have hAns := firstFailure_eq_none.mp hNone i w hw hPending
    rcases age_cases answers i w with hSame | ⟨-, -, hGone⟩
    · have hMarked : (age answers i w).destroyed = true := by
        rw [age, hPending, hAns]
        rfl
      simp [pending, hMarked]
    · simp [hGone, pending]

end KeyRecord

namespace KeyRegistry

variable {r : KeyRegistry}
  {record : KeyRecord} {id : KeyId} {caller : KeyOwner} {right : RightsMask}
  {owner : KeyOwner} {descriptor : KeyDescriptor} {f : KeyRecord → KeyRecord}

theorem mem_live : record ∈ r.live ↔ record ∈ r.records ∧ record.occupied = true := by
  rw [live, mem_entries, KeyRecord.isSome_key]

theorem keys_eq (h : r.Sound) :
    keys KeyRecord.key r.records = r.live.map fun record => record.descriptor.id := by
  rw [← keys_entries, ← filterMap_eq_map]
  refine filterMap_congr fun record hRec => ?_
  exact key_eq_some.mpr ⟨(h.records record hRec).occupied, rfl⟩

theorem find_eq_some (h : r.find id = some record) :
    record ∈ r.live ∧ record.descriptor.id = id := by
  obtain ⟨hMem, hKey⟩ := mem_of_lookup h
  obtain ⟨hOcc, hId⟩ := key_eq_some.mp hKey
  exact ⟨mem_live.mpr ⟨hMem, hOcc⟩, hId⟩

theorem find_of_mem (h : r.Sound) {record : KeyRecord} (hRec : record ∈ r.live) :
    r.find record.descriptor.id = some record := by
  have hDist : (keys KeyRecord.key r.records).Nodup := by
    rw [keys_eq h]
    exact h.ids
  refine (lookup_eq_some_iff hDist).mpr ⟨(mem_live.mp hRec).1, ?_⟩
  exact key_eq_some.mpr ⟨(h.records record hRec).occupied, rfl⟩

theorem find_eq_none (h : r.find id = none) {record : KeyRecord} (hRec : record ∈ r.live) :
    record.descriptor.id ≠ id := by
  intro hId
  obtain ⟨hMem, hOcc⟩ := mem_live.mp hRec
  exact lookup_eq_none_iff.mp h
    (mem_keys_iff.mpr ⟨record, hMem, key_eq_some.mpr ⟨hOcc, hId⟩⟩)

theorem Sound.eq_of_id (h : r.Sound) {a b : KeyRecord} (ha : a ∈ r.live) (hb : b ∈ r.live)
    (hSame : a.descriptor.id = b.descriptor.id) : a = b :=
  inj_on_of_nodup_map h.ids ha hb hSame

/-- With distinct ids, what holds of the record that is found holds of all with its id. -/
theorem Sound.of_found (h : r.Sound) {id : KeyId} {record : KeyRecord}
    (hFind : r.find id = some record) {P : KeyRecord → Prop} (hRec : P record) :
    ∀ other ∈ r.live, other.descriptor.id = id → P other := by
  obtain ⟨hMem, hId⟩ := find_eq_some hFind
  intro other hOther hSame
  rwa [h.eq_of_id hOther hMem (hSame.trans hId.symm)]

theorem not_full (h : r.Sound) (hRoom : r.full = false) : r.live.length < maxKeyRecords := by
  have hAll : ∀ record ∈ r.live, record.occupied = true :=
    fun record hRec => (h.records record hRec).occupied
  rw [full, h.table, all_packed rfl hAll] at hRoom
  simpa using hRoom

/-- The record of a key with one version. -/
def firstRecord (owner : KeyOwner) (descriptor : KeyDescriptor) (key : ProviderKeyReference) :
    KeyRecord :=
  { occupied := true, owner, descriptor
    versions := packed {} maxKeyVersions [{ occupied := true, version := 1, providerKey := key }] }

theorem sound_firstRecord (hOwner : validPrincipal owner.principal = true)
    (hDesc : descriptor.valid = true) (hVer : descriptor.version = 1) (hKey : key ≠ 0) :
    (firstRecord owner descriptor key).Sound := by
  refine ⟨rfl, hOwner, hDesc, length_packed ?_, ?_, ?_, ?_, nofun⟩
  · show 1 ≤ maxKeyVersions
    decide
  · intro v hv hOcc
    rcases mem_packed hv with hv | rfl
    · rw [mem_singleton.mp hv]
      simp [hKey]
    · cases hOcc
  · intro _
    rfl
  · intro _
    show [1] = numbers descriptor.version.toNat
    rw [hVer]
    rfl

theorem live_enroll (h : r.Sound) (hRoom : r.full = false) (owner : KeyOwner)
    (descriptor : KeyDescriptor) (key : ProviderKeyReference) :
    (r.enroll owner descriptor key).records =
        packed {} maxKeyRecords (r.live ++ [firstRecord owner descriptor key]) ∧
      (r.enroll owner descriptor key).live = r.live ++ [firstRecord owner descriptor key] := by
  have hAll : ∀ record ∈ r.live, record.key.isSome = true := by
    intro record hRec
    rw [KeyRecord.isSome_key, (h.records record hRec).occupied]
  have hRecs : (r.enroll owner descriptor key).records =
      packed {} maxKeyRecords (r.live ++ [firstRecord owner descriptor key]) := by
    show (insert KeyRecord.key (firstRecord owner descriptor key) r.records).getD _ = _
    rw [h.table, insert_packed rfl hAll (not_full h hRoom)]
    rfl
  refine ⟨hRecs, ?_⟩
  rw [live, hRecs]
  refine entries_packed rfl ?_
  intro record hRec
  rcases mem_append.mp hRec with hRec | hRec
  · exact hAll record hRec
  · rw [mem_singleton.mp hRec]
    rfl

theorem Sound.enroll (h : r.Sound) (hRoom : r.full = false) (hNew : r.find descriptor.id = none)
    (hOwner : validPrincipal owner.principal = true) (hDesc : descriptor.valid = true)
    (hVer : descriptor.version = 1) (hKey : key ≠ 0) :
    (r.enroll owner descriptor key).Sound := by
  obtain ⟨hRecs, hLive⟩ := live_enroll h hRoom owner descriptor key
  refine ⟨?_, ?_, ?_, ?_⟩
  · rw [hLive]
    exact hRecs
  · rw [hLive, length_append]
    exact not_full h hRoom
  · intro record hRec
    rw [hLive] at hRec
    rcases mem_append.mp hRec with hRec | hRec
    · exact h.records record hRec
    · rw [mem_singleton.mp hRec]
      exact sound_firstRecord hOwner hDesc hVer hKey
  · rw [hLive, map_append, nodup_append]
    refine ⟨h.ids, nodup_singleton _, ?_⟩
    intro a ha b hb
    obtain ⟨record, hRec, rfl⟩ := mem_map.mp ha
    rw [map_singleton, mem_singleton] at hb
    rw [hb]
    exact find_eq_none hNew hRec

/-- Rewriting a record in place. -/
theorem live_modify (h : r.Sound) {id : KeyId}
    (hf : ∀ record, (f record).occupied = record.occupied ∧
      (f record).descriptor.id = record.descriptor.id) :
    (r.modify id f).records = packed {} maxKeyRecords (r.live.map fun record =>
        if record.descriptor.id = id then f record else record) ∧
      (r.modify id f).live = r.live.map fun record =>
        if record.descriptor.id = id then f record else record := by
  have hDist : (keys KeyRecord.key r.live).Nodup := by
    rw [live, SlotTable.keys, keys_entries, keys_eq h]
    exact h.ids
  have hLive : SlotTable.modify KeyRecord.key id f r.live = r.live.map fun record =>
      if record.descriptor.id = id then f record else record := by
    rw [modify_eq_map hDist]
    refine map_congr_left fun record hRec => ?_
    have hKey : record.key = some id ↔ record.descriptor.id = id := by
      rw [KeyRecord.key_eq_some]
      exact and_iff_right (h.records record hRec).occupied
    by_cases hId : record.descriptor.id = id
    · rw [if_pos (hKey.mpr hId), if_pos hId]
    · rw [if_neg (fun hSome => hId (hKey.mp hSome)), if_neg hId]
  have hRecs : (r.modify id f).records = packed {} maxKeyRecords (r.live.map fun record =>
      if record.descriptor.id = id then f record else record) := by
    show SlotTable.modify KeyRecord.key id f r.records = _
    rw [h.table, modify_packed rfl, hLive]
  refine ⟨hRecs, ?_⟩
  rw [live, hRecs]
  refine entries_packed rfl ?_
  intro record hRec
  obtain ⟨old, hOld, rfl⟩ := mem_map.mp hRec
  rw [KeyRecord.isSome_key]
  split_ifs
  · rw [(hf old).1]
    exact (h.records old hOld).occupied
  · exact (h.records old hOld).occupied

theorem Sound.modify (h : r.Sound) {id : KeyId}
    (hf : ∀ record, (f record).occupied = record.occupied ∧
      (f record).descriptor.id = record.descriptor.id)
    (hSound : ∀ record ∈ r.live, record.descriptor.id = id → (f record).Sound) :
    (r.modify id f).Sound := by
  obtain ⟨hRecs, hLive⟩ := live_modify h hf
  refine ⟨?_, ?_, ?_, ?_⟩
  · rw [hLive]
    exact hRecs
  · rw [hLive, length_map]
    exact h.size
  · intro record hRec
    rw [hLive] at hRec
    obtain ⟨old, hOld, rfl⟩ := mem_map.mp hRec
    split_ifs with hId
    · exact hSound old hOld hId
    · exact h.records old hOld
  · rw [hLive, map_map]
    have hIds : r.live.map ((fun record => record.descriptor.id) ∘ fun record =>
        if record.descriptor.id = id then f record else record) =
        r.live.map fun record => record.descriptor.id := by
      refine map_congr_left fun record _ => ?_
      rw [Function.comp_apply]
      split_ifs
      · exact (hf record).2
      · rfl
    rw [hIds]
    exact h.ids

theorem authorizeRecord_eq_ok (h : r.authorizeRecord caller id right = .ok record) :
    r.find id = some record ∧ record.owner = caller ∧ record.destroyed = false ∧
      record.descriptor.rights &&& right = right := by
  unfold authorizeRecord at h
  split_ifs at h
  cases hFind : r.find id with
  | none =>
    rw [hFind] at h
    cases h
  | some =>
    rw [hFind] at h
    dsimp only at h
    split_ifs at h with hOwner hDead hRights
    cases h
    exact ⟨rfl, not_not.mp hOwner, Bool.eq_false_iff.mpr hDead, not_not.mp hRights⟩

theorem authorizeVersion_eq_ok {requireCurrent : Bool}
    (h : r.authorizeVersion caller id version right requireCurrent = .ok v) :
    ∃ record, r.authorizeRecord caller id right = .ok record ∧
      (requireCurrent = true → record.descriptor.version = version) ∧
      v ∈ record.versions ∧ v.occupied = true ∧ v.version = version ∧ v.destroyed = false ∧
      v.providerKey ≠ 0 := by
  unfold authorizeVersion at h
  split_ifs at h
  cases hAuth : r.authorizeRecord caller id right with
  | error =>
    rw [hAuth] at h
    cases h
  | ok record =>
    rw [hAuth] at h
    dsimp only at h
    split_ifs at h with hCur
    cases hFind : record.findVersion version with
    | none =>
      rw [hFind] at h
      cases h
    | some =>
      rw [hFind] at h
      dsimp only at h
      split_ifs at h with hDead hKey
      cases h
      obtain ⟨hMem, hOcc, hVer⟩ := findVersion_eq_some hFind
      refine ⟨record, rfl, ?_, hMem, hOcc, hVer, Bool.eq_false_iff.mpr hDead, hKey⟩
      intro hRequired
      by_contra hOther
      exact hCur ⟨hRequired, hOther⟩

theorem rotatable_eq_ok (h : r.rotatable caller id = .ok record) :
    r.authorizeRecord caller id KeyRights.rotate = .ok record ∧
      (record.versions.all fun v => v.occupied) = false := by
  unfold rotatable at h
  cases hAuth : r.authorizeRecord caller id KeyRights.rotate with
  | error =>
    rw [hAuth] at h
    cases h
  | ok =>
    obtain ⟨hFind, -⟩ := authorizeRecord_eq_ok hAuth
    rw [hAuth] at h
    rw [hFind] at h
    dsimp only at h
    split_ifs at h with hLimit hRoom
    cases h
    exact ⟨rfl, Bool.eq_false_iff.mpr hRoom⟩

end KeyRegistry

/-- The reference that an operation offers for a new version. -/
def KeyOp.offered : KeyOp → Option ProviderKeyReference
  | .create _ _ _ _ (.ok key) => some key
  | .adoptGenerated _ _ _ _ key => some key
  | .rotate _ _ (.ok key) => some key
  | .rotateAdoptGenerated _ _ key => some key
  | _ => none

/-- The operation made this version of a key. -/
def KeyOp.Issues (op : KeyOp) (answer : Answer KeyValue) (descriptor : KeyDescriptor)
    (key : ProviderKeyReference) : Prop :=
  op.offered = some key ∧ answer.result = .ok (.descriptor descriptor)

/-- The key that an operation is about. -/
def KeyOp.subject : KeyOp → KeyId
  | .create _ id _ _ _ => id
  | .adoptGenerated _ id _ _ _ => id
  | .describe _ id => id
  | .rotate _ id _ => id
  | .rotateAdoptGenerated _ id _ => id
  | .providerReference _ id _ => id
  | .sealPlaintext _ id _ _ => id
  | .openCiphertext _ id _ _ => id
  | .destroy _ id _ => id

namespace KeyRegistry

variable {r : KeyRegistry}

/-- What an operation does to the registry. -/
inductive Change (r : KeyRegistry) (op : KeyOp) (answer : Answer KeyValue) :
    KeyRegistry → Prop where
  | same (hIssues : ∀ descriptor key, ¬op.Issues answer descriptor key)
      (hDestroy : ∀ caller id answers, op = .destroy caller id answers → ∃ e,
        answer.result = .error e) : Change r op answer r
  | enrolled {owner : KeyOwner} {descriptor : KeyDescriptor} {key : ProviderKeyReference}
      (hSubject : op.subject = descriptor.id) (hIssues : op.Issues answer descriptor key)
      (hRoom : r.full = false) (hNew : r.find descriptor.id = none)
      (hOwner : validPrincipal owner.principal = true) (hDesc : descriptor.valid = true)
      (hVer : descriptor.version = 1) (hKey : key ≠ 0) :
      Change r op answer (r.enroll owner descriptor key)
  | advanced {record : KeyRecord} {key : ProviderKeyReference}
      (hIssues : op.Issues answer (record.extend key).descriptor key)
      (hFind : r.find op.subject = some record) (hLive : record.destroyed = false)
      (hRoom : (record.versions.all fun v => v.occupied) = false) (hKey : key ≠ 0) :
      Change r op answer (r.advance op.subject key)
  | destroyedSome {caller : KeyOwner} {id : KeyId} {answers : Nat → Result Unit}
      {record : KeyRecord} {e : Error} (hOp : op = .destroy caller id answers)
      (hAuth : r.authorizeRecord caller id KeyRights.destroy = .ok record)
      (hFailed : record.firstFailure answers = some e) (hRes : answer.result = .error e) :
      Change r op answer (r.modify id fun record' =>
        { record' with versions := record.destroyVersions answers })
  | destroyed {caller : KeyOwner} {id : KeyId} {answers : Nat → Result Unit}
      {record : KeyRecord} (hOp : op = .destroy caller id answers)
      (hAuth : r.authorizeRecord caller id KeyRights.destroy = .ok record)
      (hNone : record.firstFailure answers = none) (hRes : answer.result = .ok .done) :
      Change r op answer (r.modify id fun record' =>
        { record' with versions := record.destroyVersions answers, destroyed := true })

variable {op : KeyOp} {answer : Answer KeyValue}

/-- An operation that is refused, or only reads. -/
theorem Change.refused {e : Error} (h : answer.result = .error e) : Change r op answer r := by
  refine .same ?_ fun _ _ _ _ => ⟨e, h⟩
  rintro descriptor key ⟨-, hRes⟩
  rw [h] at hRes
  cases hRes

theorem Change.read (hOffered : op.offered = none)
    (hDestroy : ∀ caller id answers, op ≠ .destroy caller id answers) : Change r op answer r := by
  refine .same ?_ fun _ _ _ hOp => absurd hOp (hDestroy _ _ _)
  rintro descriptor key ⟨hSome, -⟩
  rw [hOffered] at hSome
  cases hSome

theorem change_create (r : KeyRegistry) (owner : KeyOwner) (id : KeyId) (purpose : KeyPurpose)
    (rights : RightsMask) (generated : Result ProviderKeyReference) :
    Change r (.create owner id purpose rights generated)
      ((r.create owner id purpose rights generated).2.map .descriptor)
      (r.create owner id purpose rights generated).1 := by
  unfold create
  split_ifs with hOwner hPurpose hRights hKnown hFull
  iterate 5 exact .refused rfl
  rw [Bool.or_eq_true, not_or] at hOwner
  cases generated with
  | error => exact .refused rfl
  | ok =>
    dsimp only
    split_ifs with hKey
    · exact .refused rfl
    refine .enrolled rfl ⟨rfl, rfl⟩ (Bool.eq_false_iff.mpr hFull) (by simpa using hKnown)
      (by simpa using hOwner.1) ?_ rfl hKey
    simp only [KeyDescriptor.valid, Bool.and_eq_true]
    exact ⟨⟨⟨by simpa using hOwner.2, by decide⟩, by simpa using hPurpose⟩,
      by simpa using hRights⟩

theorem change_adoptGenerated (r : KeyRegistry) (owner : KeyOwner) (id : KeyId)
    (purpose : KeyPurpose) (rights : RightsMask) (key : ProviderKeyReference) :
    Change r (.adoptGenerated owner id purpose rights key)
      ((r.adoptGenerated owner id purpose rights key).2.map .descriptor)
      (r.adoptGenerated owner id purpose rights key).1 := by
  unfold adoptGenerated
  split_ifs with hOwner hPurpose hRights hKnown hFull
  iterate 5 exact .refused rfl
  rw [Bool.or_eq_true, Bool.or_eq_true, not_or, not_or] at hOwner
  refine .enrolled rfl ⟨rfl, rfl⟩ (Bool.eq_false_iff.mpr hFull) (by simpa using hKnown)
    (by simpa using hOwner.1.1) ?_ rfl (by simpa using hOwner.2)
  simp only [KeyDescriptor.valid, Bool.and_eq_true]
  exact ⟨⟨⟨by simpa using hOwner.1.2, by decide⟩, by simpa using hPurpose⟩, by simpa using hRights⟩

theorem change_rotate (r : KeyRegistry) (caller : KeyOwner) (id : KeyId)
    (generated : Result ProviderKeyReference) :
    Change r (.rotate caller id generated)
      ((r.rotate caller id generated).2.map .descriptor)
      (r.rotate caller id generated).1 := by
  unfold rotate
  cases hRotatable : r.rotatable caller id with
  | error => exact .refused rfl
  | ok record =>
    obtain ⟨hAuth, hRoom⟩ := rotatable_eq_ok hRotatable
    obtain ⟨hFind, -, hLive, -⟩ := authorizeRecord_eq_ok hAuth
    cases generated with
    | error => exact .refused rfl
    | ok key =>
      dsimp only
      split_ifs with hKey
      · exact .refused rfl
      · have hSubject : r.find (KeyOp.rotate caller id (.ok key)).subject = some record := hFind
        exact .advanced ⟨rfl, rfl⟩ hSubject hLive hRoom hKey

theorem change_rotateAdoptGenerated (r : KeyRegistry) (caller : KeyOwner) (id : KeyId)
    (key : ProviderKeyReference) :
    Change r (.rotateAdoptGenerated caller id key)
      ((r.rotateAdoptGenerated caller id key).2.map .descriptor)
      (r.rotateAdoptGenerated caller id key).1 := by
  unfold rotateAdoptGenerated
  split_ifs with hKey
  · exact .refused rfl
  cases hRotatable : r.rotatable caller id with
  | error => exact .refused rfl
  | ok record =>
    obtain ⟨hAuth, hRoom⟩ := rotatable_eq_ok hRotatable
    obtain ⟨hFind, -, hLive, -⟩ := authorizeRecord_eq_ok hAuth
    have hSubject : r.find (KeyOp.rotateAdoptGenerated caller id key).subject = some record := hFind
    exact .advanced ⟨rfl, rfl⟩ hSubject hLive hRoom hKey

theorem change_destroy (r : KeyRegistry) (caller : KeyOwner) (id : KeyId)
    (answers : Nat → Result Unit) :
    Change r (.destroy caller id answers)
      ((r.destroy caller id answers).2.map fun _ => .done)
      (r.destroy caller id answers).1 := by
  unfold destroy
  cases hAuth : r.authorizeRecord caller id KeyRights.destroy with
  | error => exact .refused rfl
  | ok record =>
    obtain ⟨hFind, -⟩ := authorizeRecord_eq_ok hAuth
    rw [hFind]
    dsimp only
    cases hFailed : record.firstFailure answers with
    | some => exact .destroyedSome rfl hAuth hFailed rfl
    | none => exact .destroyed rfl hAuth hFailed rfl

/-- Every operation does one of the things of `Change`. -/
theorem change_step (r : KeyRegistry) (op : KeyOp) : Change r op (r.step op).2 (r.step op).1 := by
  cases op with
  | create => exact change_create ..
  | adoptGenerated => exact change_adoptGenerated ..
  | describe => exact .read rfl fun _ _ _ => nofun
  | rotate => exact change_rotate ..
  | rotateAdoptGenerated => exact change_rotateAdoptGenerated ..
  | providerReference | sealPlaintext | openCiphertext => exact .read rfl fun _ _ _ => nofun
  | destroy => exact change_destroy ..

theorem extend_frame (record : KeyRecord) (key : ProviderKeyReference) :
    (record.extend key).occupied = record.occupied ∧
      (record.extend key).descriptor.id = record.descriptor.id :=
  ⟨rfl, rfl⟩

theorem Change.sound {r' : KeyRegistry} (h : r.Sound) (hChange : Change r op answer r') :
    r'.Sound := by
  cases hChange with
  | same => exact h
  | enrolled _ _ hRoom hNew hOwner hDesc hVer hKey =>
    exact h.enroll hRoom hNew hOwner hDesc hVer hKey
  | @advanced record key _ hFind hLive hRoom hKey =>
    have hRec := h.records record (find_eq_some hFind).1
    exact h.modify (fun record => extend_frame record key)
      (h.of_found hFind (hRec.extend hLive hRoom hKey))
  | @destroyedSome caller id answers record e _ hAuth _ _ =>
    obtain ⟨hFind, -, hLive, -⟩ := authorizeRecord_eq_ok hAuth
    have hRec := h.records record (find_eq_some hFind).1
    exact h.modify (fun _ => ⟨rfl, rfl⟩) (h.of_found hFind (hRec.destroySome hLive answers))
  | @destroyed caller id answers record _ hAuth hNone _ =>
    obtain ⟨hFind, -, hLive, -⟩ := authorizeRecord_eq_ok hAuth
    have hRec := h.records record (find_eq_some hFind).1
    exact h.modify (fun _ => ⟨rfl, rfl⟩) (h.of_found hFind (hRec.destroyAll hLive hNone))

theorem sound_start : ({} : KeyRegistry).Sound := by
  have hLive : ({} : KeyRegistry).live = [] := entries_replicate rfl _
  refine ⟨?_, ?_, ?_, ?_⟩
  · rw [hLive, packed_nil]
  · decide
  · exact nofun
  · exact nodup_nil

end KeyRegistry

end Enml.OsKeys
