import Enml.Core.Layout
import Enml.Invariant.Keys
import Enml.OsKeys.Persistence

/-! What a snapshot holds. Every registry the operations reach has a snapshot that
fits its bounds, writing the registry produces it, and reading it gives the registry
back up to the versions of destroyed records. -/
namespace Enml.OsKeys

open Enml.Core Interruptible SlotTable List KeyRecord Program

variable {v : KeyVersionRecord}

theorem ofRaw_raw {purpose : KeyPurpose} (h : validPurpose purpose = true) :
    KeyPurpose.ofRaw purpose.raw = purpose := by
  cases purpose with
  | unlisted => cases h
  | applicationDataAead | profileStorageAead | profileStorageMetadataAead => rfl

def recordFields (record : KeyRecord) (versionCount : UInt16) : List (Nat × Nat) :=
  [(8, record.descriptor.id.high.toNat), (8, record.descriptor.id.low.toNat),
    (8, record.owner.principal.high.toNat), (8, record.owner.principal.low.toNat),
    (8, record.owner.user.toNat), (4, record.descriptor.version.toNat),
    (4, record.descriptor.purpose.raw.toNat), (4, record.descriptor.rights.toNat),
    (2, versionCount.toNat),
    (2, (if record.destroyed then recordFlagDestroyed else 0 : UInt16).toNat),
    (4, (0 : UInt32).toNat)]

theorem recordBytes_eq (record : KeyRecord) (versionCount : UInt16) :
    recordBytes record versionCount = layout (recordFields record versionCount) := by
  have hBlank : replicate recordHeaderBytes (0 : UInt8) = begun [] 60 := (begun_nil 60).symm
  dsimp only [recordBytes]
  rw [hBlank, writeU64Le_begun 52 (by rfl), writeU64Le_begun 44 (by rfl),
    writeU64Le_begun 36 (by rfl),
    writeU64Le_begun 28 (by rfl), writeU64Le_begun 20 (by rfl), writeU32Le_begun 16 (by rfl),
    writeU32Le_begun 12 (by rfl), writeU32Le_begun 8 (by rfl), writeU16Le_begun 6 (by rfl),
    writeU16Le_begun 4 (by rfl), writeU32Le_begun 0 (by rfl), begun_zero]
  rfl

def versionFields (version : UInt32) (blobSize : UInt16) : List (Nat × Nat) :=
  [(4, version.toNat), (2, blobSize.toNat), (2, (0 : UInt16).toNat)]

theorem versionBytes_eq (version : UInt32) (blobSize : UInt16) :
    versionBytes version blobSize = layout (versionFields version blobSize) := by
  have hBlank : replicate versionHeaderBytes (0 : UInt8) = begun [] 8 := (begun_nil 8).symm
  dsimp only [versionBytes]
  rw [hBlank, writeU32Le_begun 4 (by rfl), writeU16Le_begun 2 (by rfl),
    writeU16Le_begun 0 (by rfl), begun_zero]
  rfl

def headerFields (tally : Tally) : List (Nat × Nat) :=
  [(4, keyRegistrySnapshotMagicV1.toNat), (2, keyRegistrySnapshotVersionV1.toNat),
    (2, keyRegistrySnapshotHeaderSizeV1.toNat), (4, (UInt32.ofNat tally.totalSize).toNat),
    (2, tally.recordCount.toNat), (2, (0 : UInt16).toNat), (4, tally.totalVersionCount.toNat),
    (4, (0 : UInt32).toNat), (8, (0 : UInt64).toNat)]

theorem snapshotHeader_eq (tally : Tally) : snapshotHeader tally = layout (headerFields tally) := by
  have hBlank : replicate keyRegistrySnapshotHeaderSizeV1.toNat (0 : UInt8) = begun [] 32 :=
    (begun_nil 32).symm
  dsimp only [snapshotHeader]
  rw [hBlank, writeU32Le_begun 28 (by rfl), writeU16Le_begun 26 (by rfl),
    writeU16Le_begun 24 (by rfl),
    writeU32Le_begun 20 (by rfl), writeU16Le_begun 18 (by rfl), writeU16Le_begun 16 (by rfl),
    writeU32Le_begun 12 (by rfl), writeU32Le_begun 8 (by rfl), writeU64Le_begun 0 (by rfl),
    begun_zero]
  rfl

theorem length_recordBytes (record : KeyRecord) (versionCount : UInt16) :
    (recordBytes record versionCount).length = recordHeaderBytes := by
  rw [recordBytes_eq, length_layout]
  rfl

theorem length_versionBytes (version : UInt32) (blobSize : UInt16) :
    (versionBytes version blobSize).length = versionHeaderBytes := by
  rfl

theorem length_snapshotHeader (tally : Tally) :
    (snapshotHeader tally).length = keyRegistrySnapshotHeaderSizeV1.toNat := by
  rw [snapshotHeader_eq, length_layout]
  rfl

theorem read_versionBytes (version : UInt32) (blobSize : UInt16) :
    readU32Le (versionBytes version blobSize) 0 = version ∧
      readU16Le (versionBytes version blobSize) 4 = blobSize ∧
      readU16Le (versionBytes version blobSize) 6 = 0 := by
  rw [versionBytes_eq]
  exact ⟨readU32Le_layout 0 rfl rfl, readU16Le_layout 1 rfl rfl, readU16Le_layout 2 rfl rfl⟩

theorem read_recordBytes (record : KeyRecord) (versionCount : UInt16) :
    readU64Le (recordBytes record versionCount) 0 = record.descriptor.id.high ∧
      readU64Le (recordBytes record versionCount) 8 = record.descriptor.id.low ∧
      readU64Le (recordBytes record versionCount) 16 = record.owner.principal.high ∧
      readU64Le (recordBytes record versionCount) 24 = record.owner.principal.low ∧
      readU64Le (recordBytes record versionCount) 32 = record.owner.user ∧
      readU32Le (recordBytes record versionCount) 40 = record.descriptor.version ∧
      readU32Le (recordBytes record versionCount) 44 = record.descriptor.purpose.raw ∧
      readU32Le (recordBytes record versionCount) 48 = record.descriptor.rights ∧
      readU16Le (recordBytes record versionCount) 52 = versionCount ∧
      readU16Le (recordBytes record versionCount) 54 =
        (if record.destroyed then recordFlagDestroyed else 0) ∧
      readU32Le (recordBytes record versionCount) 56 = 0 := by
  rw [recordBytes_eq]
  exact ⟨readU64Le_layout 0 rfl rfl, readU64Le_layout 1 rfl rfl, readU64Le_layout 2 rfl rfl,
    readU64Le_layout 3 rfl rfl, readU64Le_layout 4 rfl rfl, readU32Le_layout 5 rfl rfl,
    readU32Le_layout 6 rfl rfl, readU32Le_layout 7 rfl rfl, readU16Le_layout 8 rfl rfl,
    readU16Le_layout 9 rfl rfl, readU32Le_layout 10 rfl rfl⟩

theorem read_snapshotHeader (tally : Tally) :
    readU32Le (snapshotHeader tally) 0 = keyRegistrySnapshotMagicV1 ∧
      readU16Le (snapshotHeader tally) 4 = keyRegistrySnapshotVersionV1 ∧
      readU16Le (snapshotHeader tally) 6 = keyRegistrySnapshotHeaderSizeV1 ∧
      readU32Le (snapshotHeader tally) 8 = UInt32.ofNat tally.totalSize ∧
      readU16Le (snapshotHeader tally) 12 = tally.recordCount ∧
      readU16Le (snapshotHeader tally) 14 = 0 ∧
      readU32Le (snapshotHeader tally) 16 = tally.totalVersionCount ∧
      readU32Le (snapshotHeader tally) 20 = 0 ∧ readU64Le (snapshotHeader tally) 24 = 0 := by
  rw [snapshotHeader_eq]
  exact ⟨readU32Le_layout 0 rfl rfl, readU16Le_layout 1 rfl rfl, readU16Le_layout 2 rfl rfl,
    readU32Le_layout 3 rfl rfl, readU16Le_layout 4 rfl rfl, readU16Le_layout 5 rfl rfl,
    readU32Le_layout 6 rfl rfl, readU32Le_layout 7 rfl rfl, readU64Le_layout 8 rfl rfl⟩

/-- A record that can be written: while it lives, none of its keys is gone. -/
structure KeyRecord.Intact (record : KeyRecord) : Prop extends record.Sound where
  kept : record.destroyed = false → ∀ v ∈ record.held, v.destroyed = false

structure KeyRegistry.Intact (r : KeyRegistry) : Prop extends r.Sound where
  intact : ∀ record ∈ r.live, record.Intact

/-- The versions that a snapshot holds of a record. -/
def KeyRecord.written (record : KeyRecord) : List KeyVersionRecord :=
  if record.destroyed then [] else record.held

variable {record : KeyRecord}

theorem KeyRecord.written_of_live (h : record.destroyed = false) :
    record.written = record.held := by
  rw [written, h, if_neg (by decide)]

theorem KeyRecord.written_of_destroyed (h : record.destroyed = true) : record.written = [] := by
  rw [written, h, if_pos rfl]

section

variable (persist : Persist)

/-- What the provider is asked to wrap for a version. -/
def blobOf (record : KeyRecord) (v : KeyVersionRecord) : List UInt8 :=
  persist v.providerKey record.descriptor.purpose
    ((makeBinding record.owner record.descriptor v.version).toOption.getD [])

def versionEntry (record : KeyRecord) (v : KeyVersionRecord) : List UInt8 :=
  versionBytes v.version (UInt16.ofNat (blobOf persist record v).length) ++ blobOf persist record v

def recordEntry (record : KeyRecord) : List UInt8 :=
  recordBytes record (UInt16.ofNat record.written.length) ++
    record.written.flatMap (versionEntry persist record)

def body (records : List KeyRecord) : List UInt8 := records.flatMap (recordEntry persist)

/-- What the loops have counted once these records have been written. -/
def Tally.plus (tally : Tally) (records : List KeyRecord) : Tally where
  totalSize := tally.totalSize + (body persist records).length
  recordCount := tally.recordCount + UInt16.ofNat records.length
  totalVersionCount := tally.totalVersionCount +
    UInt32.ofNat (records.map fun record => record.written.length).sum

def startTally : Tally := { totalSize := keyRegistrySnapshotHeaderSizeV1.toNat }

/-- The snapshot of a registry. -/
def snapshotBytes (r : KeyRegistry) : List UInt8 :=
  snapshotHeader (startTally.plus persist r.live) ++ body persist r.live

end

theorem KeyRecord.Sound.length_written (h : record.Sound) :
    record.written.length ≤ maxKeyVersions := by
  cases hDead : record.destroyed with
  | true =>
    rw [written_of_destroyed hDead]
    exact Nat.zero_le _
  | false =>
    have hBound := h.version_le hDead
    rw [written_of_live hDead]
    omega

section

variable {restore : Restore} (w : Wrapping restore)

theorem length_blobOf (record : KeyRecord) (v : KeyVersionRecord) :
    0 < (blobOf w.persist record v).length ∧
      (blobOf w.persist record v).length ≤ maxPersistentProviderBlobBytes := w.size ..

theorem length_versionEntry (record : KeyRecord) (v : KeyVersionRecord) :
    (versionEntry w.persist record v).length =
      versionHeaderBytes + (blobOf w.persist record v).length := by
  rw [versionEntry, length_append, length_versionBytes]

theorem length_versions_le (record : KeyRecord) (vs : List KeyVersionRecord) :
    (vs.flatMap (versionEntry w.persist record)).length ≤
      vs.length * (versionHeaderBytes + maxPersistentProviderBlobBytes) := by
  induction vs with
  | nil => exact Nat.zero_le _
  | cons v =>
    have hBlob := (length_blobOf w record v).2
    rw [flatMap_cons, length_append, length_versionEntry, length_cons, Nat.add_mul]
    omega

/-- The most that the entry of a record takes. -/
def maxRecordEntryBytes : Nat :=
  recordHeaderBytes + maxKeyVersions * (versionHeaderBytes + maxPersistentProviderBlobBytes)

theorem length_recordEntry_le {record : KeyRecord} (h : record.Sound) :
    (recordEntry w.persist record).length ≤ maxRecordEntryBytes := by
  have hVers := length_versions_le w record record.written
  have hFew := Nat.mul_le_mul_right (versionHeaderBytes + maxPersistentProviderBlobBytes)
    h.length_written
  rw [recordEntry, length_append, length_recordBytes, maxRecordEntryBytes]
  omega

theorem length_body_le {records : List KeyRecord} (h : ∀ record ∈ records, record.Sound) :
    (body w.persist records).length ≤ records.length * maxRecordEntryBytes := by
  induction records with
  | nil => exact Nat.zero_le _
  | cons record _ ih =>
    have hHead := length_recordEntry_le w (h record mem_cons_self)
    have hRest := ih fun other hOther => h other (mem_cons_of_mem _ hOther)
    rw [body] at hRest
    rw [body, flatMap_cons, length_append, length_cons, Nat.add_mul]
    omega

/-- Every registry fits into a snapshot. -/
theorem length_snapshot_le {r : KeyRegistry} (h : r.Sound) :
    keyRegistrySnapshotHeaderSizeV1.toNat + (body w.persist r.live).length ≤
      maxKeyRegistrySnapshotBytes := by
  have hBody := length_body_le w h.records
  have hFew := Nat.mul_le_mul_right maxRecordEntryBytes h.size
  have hMost : keyRegistrySnapshotHeaderSizeV1.toNat + maxKeyRecords * maxRecordEntryBytes ≤
      maxKeyRegistrySnapshotBytes := by decide
  omega

end

def World.withTemp (w : World) (file : List UInt8) : World :=
  { w with disk := { w.disk with temp := some file } }

/-- Only the temporary file may differ. -/
def World.Untouched (w u : World) : Prop := ∃ temp, u = { w with disk := { w.disk with temp } }

/-- The program appends `more` to the temporary file, and does nothing else on the way
there. -/
def Writes {α : Type} (x : Io α) (w : World) (file : List UInt8) (n : Nat) (more : List UInt8)
    (a : α) : Prop :=
  Program.Runs x (w.withTemp file) n (w.withTemp (file ++ more)) a (fun _ => w.Untouched)
    fun _ => w.Untouched

section

variable {w : World} {file : List UInt8}
  {condition : Bool} {m n : Nat} {more : List UInt8} {α : Type} {β : Type}

theorem untouched_withTemp : w.Untouched (w.withTemp file) := ⟨some file, rfl⟩

theorem writes_pure (a : α) : Writes (pure a) w file 0 [] a := by
  rw [Writes, append_nil]
  exact runs_pure a _

theorem writes_require {e : Error} (h : condition = true) :
    Writes (require condition e) w file 0 [] () := by
  rw [Writes, append_nil]
  exact runs_require h _

theorem writes_asking {answer : World → Result α} {failure : Error → Error} {a : α}
    (h : answer (w.withTemp file) = .ok a) : Writes (asking answer failure) w file 1 [] a := by
  rw [Writes, append_nil]
  refine runs_call ?_ (fun _ _ => untouched_withTemp) fun _ => untouched_withTemp
  rw [h]

theorem writes_appendTemp (bytes : List UInt8) : Writes (appendTemp bytes) w file 1 bytes () := by
  unfold Writes appendTemp writing
  refine runs_call ?_ ?_ ?_
  · rfl
  · exact fun extent _ => ⟨some (file ++ bytes.take extent), rfl⟩
  · exact fun extent => ⟨some (file ++ bytes.take extent), rfl⟩

theorem Writes.bind {x : Io α} {f : α → Io β} {first second : List UInt8} {a : α}
    {b : β} (h : Writes x w file m first a) (hNext : Writes (f a) w (file ++ first) n second b) :
    Writes (x >>= f) w file (m + n) (first ++ second) b := by
  rw [Writes, append_assoc] at hNext
  exact Program.Runs.bind h hNext

/-- A first part that appends nothing. -/
theorem Writes.after {x : Io α} {f : α → Io β} {a : α} {b : β}
    (h : Writes x w file m [] a) (hNext : Writes (f a) w file n more b) :
    Writes (x >>= f) w file (m + n) more b := by
  have hBoth : Writes (x >>= f) w file (m + n) ([] ++ more) b := by
    refine h.bind ?_
    rwa [append_nil]
  exact hBoth

theorem Writes.required {e : Error} {f : Unit → Io β} {b : β} (h : condition = true)
    (hNext : Writes (f ()) w file n more b) :
    Writes (require condition e >>= f) w file n more b := by
  have hBoth := (writes_require (e := e) h).after hNext
  rwa [Nat.zero_add] at hBoth

theorem Writes.returns {x : Io α} {a : α} (h : Writes x w file n more a) (g : α → β) :
    Writes (x >>= fun a => pure (g a)) w file n more (g a) := by
  have hBoth : Writes (x >>= fun a => pure (g a)) w file (n + 0) (more ++ []) (g a) :=
    h.bind (writes_pure (g a))
  rwa [append_nil] at hBoth

end

theorem KeyRecord.Sound.findVersion_of_mem (h : record.Sound)
    (hLive : record.destroyed = false) (hv : v ∈ record.held) :
    record.findVersion v.version = some v := by
  obtain ⟨hMem, hOcc⟩ := mem_held.mp hv
  have hDist : (keys KeyVersionRecord.key record.versions).Nodup := by
    rw [h.keys_versions hLive]
    exact nodup_numbers record.descriptor.version.toNat_lt
  exact (lookup_eq_some_iff hDist).mpr ⟨hMem, KeyVersionRecord.key_eq_some.mpr ⟨hOcc, rfl⟩⟩

theorem KeyRecord.Sound.version_ne_zero (h : record.Sound)
    (hLive : record.destroyed = false) (hv : v ∈ record.held) :
    v.version ≠ 0 := by
  have hMem : v.version ∈ numbers record.descriptor.version.toNat := by
    rw [← h.versions hLive]
    exact mem_map_of_mem hv
  exact ((mem_numbers record.descriptor.version.toNat_lt).mp hMem).1

theorem KeyRecord.Intact.key_ne_zero (h : record.Intact)
    (hLive : record.destroyed = false) (hv : v ∈ record.held) :
    v.providerKey ≠ 0 := by
  intro hZero
  obtain ⟨hMem, hOcc⟩ := mem_held.mp hv
  have hGone := (h.keyed v hMem hOcc).mpr hZero
  rw [h.kept hLive v hv] at hGone
  cases hGone

theorem makeBinding_of_sound (h : record.Sound) {version : UInt32} (hVer : version ≠ 0) :
    ∃ binding, makeBinding record.owner record.descriptor version = .ok binding := by
  unfold makeBinding
  rw [if_neg (by simp [h.owner, h.descriptor, hVer])]
  exact ⟨_, rfl⟩

theorem addSize_of_le {total amount : Nat} (h : total + amount ≤ maxKeyRegistrySnapshotBytes) :
    addSize total amount = some (total + amount) := by
  rw [addSize, if_neg (by omega)]

section

variable {restore : Restore} (wrap : Wrapping restore) {w : World}

theorem writes_persistVersion (h : record.Intact) (hLive : record.destroyed = false)
    (hv : v ∈ record.held) (file : List UInt8) (tally : Tally)
    (hRoom : tally.totalSize + (versionEntry wrap.persist record v).length ≤
      maxKeyRegistrySnapshotBytes) :
    Writes (persistVersion wrap.persist record v.version tally) w file 3
      (versionEntry wrap.persist record v)
      { tally with
        totalSize := tally.totalSize + (versionEntry wrap.persist record v).length
        totalVersionCount := tally.totalVersionCount + 1 } := by
  have hKept := h.kept hLive v hv
  have hKey := h.key_ne_zero hLive hv
  obtain ⟨binding, hBinding⟩ := makeBinding_of_sound h.toSound (h.version_ne_zero hLive hv)
  have hBlob : wrap.persist v.providerKey record.descriptor.purpose binding =
      blobOf wrap.persist record v := by
    rw [blobOf, hBinding]
    rfl
  obtain ⟨hSome, hShort⟩ := length_blobOf wrap record v
  rw [length_versionEntry] at hRoom ⊢
  have hSize : (addSize tally.totalSize versionHeaderBytes).bind
      (addSize · (blobOf wrap.persist record v).length) =
      some (tally.totalSize + (versionHeaderBytes + (blobOf wrap.persist record v).length)) := by
    rw [addSize_of_le (by omega), Option.bind_some, addSize_of_le (by omega), Nat.add_assoc]
  unfold persistVersion
  rw [h.findVersion_of_mem hLive hv]
  rw [hBinding]
  dsimp only
  rw [hBlob]
  refine Writes.required (by simp [hKept, hKey]) ?_
  refine Writes.after (n := 2) (writes_asking (a := blobOf wrap.persist record v) rfl) ?_
  refine Writes.required ?_ ?_
  · simp only [Bool.and_eq_true, bne_iff_ne, decide_eq_true_eq]
    exact ⟨by omega, hShort⟩
  rw [hSize]
  refine (writes_appendTemp _).bind (n := 1) ?_
  exact (writes_appendTemp _).returns fun _ => _

/-- Versions are numbered by their places. -/
theorem KeyRecord.Sound.version_of_split (h : record.Sound) (hLive : record.destroyed = false)
    {front rest : List KeyVersionRecord} (hSplit : record.held = front ++ v :: rest) :
    v.version = UInt32.ofNat (front.length + 1) := by
  have hPlace : (record.held.map fun v => v.version)[front.length]? = some v.version := by
    rw [hSplit, getElem?_map, getElem?_append_right (le_refl _), Nat.sub_self]
    rfl
  rw [h.versions hLive, numbers, getElem?_map, Option.map_eq_some_iff] at hPlace
  obtain ⟨i, hi, hVer⟩ := hPlace
  rw [← hVer, (List.getElem?_eq_some_iff.mp hi).2.symm, List.getElem_range]

theorem writes_persistVersions (h : record.Intact) (hLive : record.destroyed = false)
    (front vs : List KeyVersionRecord) (hSplit : record.held = front ++ vs) (file : List UInt8)
    (tally : Tally)
    (hRoom : tally.totalSize + (vs.flatMap (versionEntry wrap.persist record)).length ≤
      maxKeyRegistrySnapshotBytes) :
    Writes (persistVersions wrap.persist record vs.length (UInt32.ofNat (front.length + 1)) tally)
      w file (3 * vs.length) (vs.flatMap (versionEntry wrap.persist record))
      { tally with
        totalSize := tally.totalSize + (vs.flatMap (versionEntry wrap.persist record)).length
        totalVersionCount := tally.totalVersionCount + UInt32.ofNat vs.length } := by
  induction vs generalizing front file tally with
  | nil =>
    have hCnt : tally.totalVersionCount + UInt32.ofNat 0 = tally.totalVersionCount :=
      UInt32.add_zero _
    simp only [length_nil, flatMap_nil, hCnt, Nat.add_zero]
    exact writes_pure tally
  | cons v rest ih =>
    have hMem : v ∈ record.held := by
      rw [hSplit]
      exact mem_append_right _ mem_cons_self
    have hNum := h.version_of_split hLive hSplit
    have hNext : UInt32.ofNat (front.length + 1) + 1 =
        UInt32.ofNat ((front ++ [v]).length + 1) := by
      rw [length_append, length_singleton, UInt32.ofNat_add (front.length + 1) 1]
      rfl
    rw [flatMap_cons, length_append] at hRoom ⊢
    have hHead := writes_persistVersion wrap (w := w) h hLive hMem file tally (by omega)
    have hRest := ih (front ++ [v]) (by rw [hSplit, append_assoc]; rfl)
      (file ++ versionEntry wrap.persist record v)
      { tally with
        totalSize := tally.totalSize + (versionEntry wrap.persist record v).length
        totalVersionCount := tally.totalVersionCount + 1 } (by dsimp only; omega)
    rw [hNum] at hHead
    rw [← hNext] at hRest
    have hCnt : tally.totalVersionCount + 1 + UInt32.ofNat rest.length =
        tally.totalVersionCount + UInt32.ofNat (rest.length + 1) := by
      rw [UInt32.ofNat_add, UInt32.add_assoc, UInt32.add_comm 1]
      rfl
    have hBoth := hHead.bind hRest
    rw [hCnt, Nat.add_assoc, Nat.add_comm 3] at hBoth
    exact hBoth

theorem toUInt16_version (h : record.Sound) (hLive : record.destroyed = false) :
    record.descriptor.version.toUInt16 = UInt16.ofNat record.held.length ∧
      (UInt16.ofNat record.held.length).toNat = record.held.length := by
  obtain ⟨hLen, hFew⟩ := h.version_le hLive
  have hSmall : maxKeyVersions < 2 ^ 16 := by decide
  constructor
  · rw [hLen]
    exact (UInt16.ofNat_uInt32ToNat _).symm
  · exact Nat.mod_eq_of_lt (by omega)

/-- How many calls the entry of a record takes. -/
def recordCalls (record : KeyRecord) : Nat := 1 + 3 * record.written.length

theorem writes_persistRecord (h : record.Intact) (file : List UInt8) (tally : Tally)
    (hRoom : tally.totalSize + (recordEntry wrap.persist record).length ≤
      maxKeyRegistrySnapshotBytes) :
    Writes (persistRecord wrap.persist record tally) w file (recordCalls record)
      (recordEntry wrap.persist record) (tally.plus wrap.persist [record]) := by
  have hLen : (recordEntry wrap.persist record).length = recordHeaderBytes +
      (record.written.flatMap (versionEntry wrap.persist record)).length := by
    rw [recordEntry, length_append, length_recordBytes]
  have hPlus : tally.plus wrap.persist [record] =
      { totalSize := tally.totalSize + recordHeaderBytes +
          (record.written.flatMap (versionEntry wrap.persist record)).length
        recordCount := tally.recordCount + 1
        totalVersionCount := tally.totalVersionCount + UInt32.ofNat record.written.length } := by
    rw [Tally.plus, body, flatMap_singleton, hLen, Nat.add_assoc]
    rfl
  rw [hLen] at hRoom
  rw [hPlus]
  unfold persistRecord
  rw [h.occupied, Bool.not_true, if_neg (by decide)]
  refine Writes.required (by simp [h.descriptor, h.owner]) ?_
  refine Writes.required ?_ ?_
  · cases hDead : record.destroyed with
    | true => rfl
    | false => simpa using (h.version_le hDead).2
  rw [addSize_of_le (by omega)]
  dsimp only
  rw [recordEntry]
  cases hDead : record.destroyed with
  | true =>
    have hWritten := written_of_destroyed hDead
    have hNone : tally.totalVersionCount + UInt32.ofNat 0 = tally.totalVersionCount :=
      UInt32.add_zero _
    rw [recordCalls, hWritten, if_pos rfl, length_nil, hNone]
    exact (writes_appendTemp _).bind (writes_pure _)
  | false =>
    have hWritten := written_of_live hDead
    obtain ⟨hCnt, hNat⟩ := toUInt16_version h.toSound hDead
    rw [hWritten] at hRoom ⊢
    rw [recordCalls, hWritten, if_neg (by decide), hCnt, hNat]
    refine (writes_appendTemp _).bind ?_
    exact writes_persistVersions wrap h hDead [] record.held rfl _ _ (by dsimp only; omega)

theorem Tally.plus_plus (tally : Tally) (first second : List KeyRecord) :
    (tally.plus wrap.persist first).plus wrap.persist second =
      tally.plus wrap.persist (first ++ second) := by
  simp only [Tally.plus, body, flatMap_append, length_append, map_append,
    sum_append, UInt16.ofNat_add, UInt32.ofNat_add, UInt16.add_assoc, UInt32.add_assoc,
    Nat.add_assoc]

theorem writes_persistRecords (records : List KeyRecord)
    (h : ∀ record ∈ entries key records, record.Intact) (file : List UInt8)
    (tally : Tally)
    (hRoom : tally.totalSize + (body wrap.persist (entries key records)).length ≤
      maxKeyRegistrySnapshotBytes) :
    Writes (persistRecords wrap.persist records tally) w file
      ((entries key records).map recordCalls).sum
      (body wrap.persist (entries key records))
      (tally.plus wrap.persist (entries key records)) := by
  induction records generalizing file tally with
  | nil =>
    have hSame : tally.plus wrap.persist [] = tally := by
      exact congrArg₂ (Tally.mk tally.totalSize) (UInt16.add_zero _) (UInt32.add_zero _)
    show Writes (pure tally) w file 0 [] (tally.plus wrap.persist [])
    rw [hSame]
    exact writes_pure tally
  | cons record rest ih =>
    cases hUsed : record.occupied with
    | false =>
      have hEnts : entries key (record :: rest) = entries key rest := by
        rw [entries, filter_cons_of_neg (by simp [isSome_key, hUsed]), entries]
      rw [hEnts] at h hRoom ⊢
      have hSkip : persistRecord wrap.persist record tally = pure tally := by
        rw [persistRecord, hUsed]
        rfl
      have hBoth := (writes_pure tally).after (ih h file tally hRoom)
      rw [Nat.zero_add, ← hSkip] at hBoth
      exact hBoth
    | true =>
      have hEnts : entries key (record :: rest) = record :: entries key rest := by
        rw [entries, filter_cons_of_pos (by simp [isSome_key, hUsed]), entries]
      rw [hEnts] at h hRoom ⊢
      rw [body, flatMap_cons, length_append] at hRoom
      have hHead := writes_persistRecord wrap (w := w) (h record mem_cons_self) file
        tally (by omega)
      have hTotal : (tally.plus wrap.persist [record]).totalSize =
          tally.totalSize + (recordEntry wrap.persist record).length := by
        rw [Tally.plus, body, flatMap_singleton]
      have hRest := ih (fun other hOther => h other (mem_cons_of_mem _ hOther))
        (file ++ recordEntry wrap.persist record) (tally.plus wrap.persist [record]) (by
          rw [hTotal, body]
          omega)
      have hBoth := hHead.bind hRest
      rw [Tally.plus_plus] at hBoth
      exact hBoth

theorem writes_overwriteTemp {front front' file : List UInt8} (h : front.length = front'.length) :
    Program.Runs (overwriteTemp front) (w.withTemp (front' ++ file)) 1
      (w.withTemp (front ++ file)) () (fun _ => w.Untouched) fun _ => w.Untouched := by
  unfold overwriteTemp writing
  refine runs_call ?_ ?_ ?_
  · have hDrop : (front' ++ file).drop front.length = file := by rw [h, drop_left]
    simp [World.withTemp, hDrop]
  · exact fun extent _ => ⟨some _, rfl⟩
  · exact fun extent => ⟨some _, rfl⟩

theorem writes_syncFile (file : List UInt8) : Writes syncFile w file 1 [] () := by
  unfold Writes syncFile atomically
  rw [append_nil]
  refine runs_call ?_ ?_ ?_
  · rfl
  · exact fun _ _ => untouched_withTemp
  · intro extent
    split_ifs
    all_goals exact untouched_withTemp

/-- The world once the snapshot has been replaced. -/
def World.replaced (w : World) (bytes : List UInt8) : World :=
  { w with disk := { snapshot := some bytes, older := w.disk.snapshot :: w.disk.older } }

/-- The world once the directory has been synchronized, too. -/
def World.synced (w : World) (bytes : List UInt8) : World :=
  { w with disk := { snapshot := some bytes } }

/-- Before the rename the snapshot is the old one. -/
def World.Before (w : World) (bytes : List UInt8) (u : World) : Prop :=
  w.Untouched u ∨ u = w.replaced bytes

theorem runs_renameTemp (bytes : List UInt8) :
    Program.Runs renameTemp (w.withTemp bytes) 1 (w.replaced bytes) () (fun _ => w.Untouched)
      fun _ => w.Before bytes := by
  unfold renameTemp atomically
  refine runs_call ?_ ?_ ?_
  · rfl
  · exact fun _ _ => untouched_withTemp
  intro extent
  split_ifs
  · exact .inl untouched_withTemp
  · exact .inr rfl

/-- How many calls `persist_candidate` makes up to the rename. -/
def persistCalls (r : KeyRegistry) : Nat := 6 + (r.live.map recordCalls).sum

variable {candidate : KeyRegistry}

theorem runs_fillSnapshot (h : candidate.Intact) :
    Program.Runs (fillSnapshot wrap.persist candidate) (w.withTemp [])
      (1 + ((candidate.live.map recordCalls).sum + (0 + (1 + (1 + 1)))))
      (w.replaced (snapshotBytes wrap.persist candidate)) () (fun _ => w.Untouched)
      fun _ => w.Before (snapshotBytes wrap.persist candidate) := by
  have hRoom := length_snapshot_le wrap h.toSound
  have hStep : ∀ {α : Type} {x : Io α} {u v : World} {n : Nat} {a : α},
      Program.Runs x u n v a (fun _ => w.Untouched) (fun _ => w.Untouched) →
      Program.Runs x u n v a (fun _ => w.Untouched)
        fun _ => w.Before (snapshotBytes wrap.persist candidate) :=
    fun hRuns => hRuns.weaken (fun _ _ _ h => h) fun _ _ _ h => .inl h
  have hRecs := writes_persistRecords wrap (w := w) candidate.records h.intact
    (replicate keyRegistrySnapshotHeaderSizeV1.toNat 0) startTally hRoom
  have hTotal : (startTally.plus wrap.persist candidate.live).totalSize ≤ 0xFFFFFFFF :=
    le_trans hRoom (by decide)
  refine (hStep (writes_appendTemp _)).bind ?_
  refine (hStep hRecs).bind ?_
  refine Program.Runs.bind (runs_require (decide_eq_true hTotal) _) ?_
  refine (hStep (writes_overwriteTemp ?_)).bind ?_
  · rw [length_snapshotHeader, length_replicate]
  have hSync := hStep (writes_syncFile (w := w) (snapshotBytes wrap.persist candidate))
  rw [append_nil] at hSync
  exact hSync.bind (runs_renameTemp _)

theorem World.Untouched.unlinked {u : World} (h : w.Untouched u) (script : List (Fault Error)) :
    w.Untouched (unlinkTemp u script).1 := by
  obtain ⟨temp, rfl⟩ := h
  cases script with
  | nil => exact ⟨none, rfl⟩
  | cons fault =>
    cases fault with
    | pass => exact ⟨none, rfl⟩
    | fail => exact ⟨temp, rfl⟩
    | stop extent =>
      show w.Untouched (if extent = 0 then _ else _)
      split_ifs
      · exact ⟨temp, rfl⟩
      · exact ⟨none, rfl⟩

theorem runs_replaceSnapshot (h : candidate.Intact) (w : World) :
    Program.Runs (replaceSnapshot wrap.persist candidate) w (persistCalls candidate)
      (w.replaced (snapshotBytes wrap.persist candidate)) () (fun _ => w.Untouched)
      fun _ => w.Before (snapshotBytes wrap.persist candidate) := by
  have hCalls : persistCalls candidate =
      1 + (1 + (1 + ((candidate.live.map recordCalls).sum + (0 + (1 + (1 + 1)))))) := by
    rw [persistCalls]
    omega
  have hSame : w.Untouched w := ⟨w.disk.temp, rfl⟩
  rw [hCalls]
  have hUnlink : Program.Runs unlinkTemp w 1 { w with disk := { w.disk with temp := none } } ()
      (fun _ => w.Untouched) fun _ => w.Before (snapshotBytes wrap.persist candidate) := by
    unfold unlinkTemp atomically
    refine runs_call ?_ ?_ ?_
    · rfl
    · exact fun _ _ => hSame
    intro extent
    split_ifs
    · exact .inl hSame
    · exact .inl ⟨none, rfl⟩
  have hOpen : Program.Runs openTemp { w with disk := { w.disk with temp := none } } 1
      (w.withTemp []) () (fun _ => w.Untouched)
      fun _ => w.Before (snapshotBytes wrap.persist candidate) := by
    refine runs_call ?_ ?_ ?_
    · rfl
    · exact fun _ _ => ⟨none, rfl⟩
    intro extent
    split_ifs
    · exact .inl ⟨none, rfl⟩
    · exact .inl untouched_withTemp
  refine hUnlink.bind (hOpen.bind ?_)
  exact (runs_fillSnapshot wrap h).onFailure (fun _ _ h => h) fun _ _ script h =>
    World.Untouched.unlinked h script

/-- How `persist_candidate` ends, and which call it was that did not pass. -/
inductive PersistEnd (w : World) (calls : Nat) (bytes : List UInt8) (script : List (Fault Error)) :
    World × List (Fault Error) × Outcome Error Persisted → Prop where
  | stopped {u : World} {rest : List (Fault Error)} (h : w.Before bytes u ∨ u = w.synced bytes)
      (hHit : interruption (calls + 1) script ≠ none) :
      PersistEnd w calls bytes script (u, rest, .stopped)
  | kept {u : World} {rest : List (Fault Error)} {e : Error} (h : w.Untouched u)
      (hHit : interruption (calls + 1) script ≠ none) :
      PersistEnd w calls bytes script (u, rest, .done (.kept e))
  | unsynced {rest : List (Fault Error)} {extent : Nat} {reported e : Error}
      (h : interruption (calls + 1) script = some (calls, .fail extent reported)) :
      PersistEnd w calls bytes script (w.replaced bytes, rest, .done (.replaced (some e)))
  | synced {rest : List (Fault Error)} (h : interruption (calls + 1) script = none) :
      PersistEnd w calls bytes script (w.synced bytes, rest, .done (.replaced none))

theorem persistEnd (h : candidate.Intact) (w : World) (script : List (Fault Error)) :
    PersistEnd w (persistCalls candidate) (snapshotBytes wrap.persist candidate) script
      (persistCandidate wrap.persist candidate w script) := by
  have hRuns := runs_replaceSnapshot wrap h w
  have hSplit := interruption_add (persistCalls candidate) 1 script
  unfold persistCandidate
  cases hHit : interruption (persistCalls candidate) script with
  | some hit =>
    obtain ⟨i, fault⟩ := hit
    have hCut := hRuns.cut hHit
    have hSome : interruption (persistCalls candidate + 1) script ≠ none := by
      rw [hSplit, hHit]
      nofun
    have hLeft : w.Untouched (replaceSnapshot wrap.persist candidate w script).1 ∨
        (w.Before (snapshotBytes wrap.persist candidate)
            (replaceSnapshot wrap.persist candidate w script).1 ∧
          (replaceSnapshot wrap.persist candidate w script).2.2 = .stopped) := by
      cases fault with
      | pass => exact absurd hHit interruption_ne_pass
      | fail extent e => exact .inl (hRuns.failed script i extent e hHit).1
      | stop extent => exact .inr (hRuns.stopped script i extent hHit)
    generalize replaceSnapshot wrap.persist candidate w script = result at hCut hLeft
    obtain ⟨u, rest, outcome⟩ := result
    cases outcome with
    | done a => exact absurd rfl (hCut a)
    | failed =>
      rcases hLeft with hLeft | ⟨-, hEnd⟩
      · exact .kept hLeft hSome
      · cases hEnd
    | stopped =>
      rcases hLeft with hLeft | ⟨hLeft, -⟩
      · exact .stopped (.inl (.inl hLeft)) hSome
      · exact .stopped (.inl hLeft) hSome
  | none =>
    rw [hHit] at hSplit
    dsimp only at hSplit
    rw [hRuns.passed script hHit]
    cases hRest : script.drop (persistCalls candidate) with
    | nil =>
      rw [hRest] at hSplit
      exact .synced hSplit
    | cons fault rest =>
      rw [hRest] at hSplit
      cases fault with
      | pass => exact .synced hSplit
      | fail extent e =>
        have hFirst : interruption 1 (.fail extent e :: rest) = some (0, .fail extent e) := rfl
        rw [hFirst, Option.map_some, Nat.zero_add] at hSplit
        exact .unsynced hSplit
      | stop extent =>
        have hSome : interruption (persistCalls candidate + 1) script ≠ none := by
          rw [hSplit]
          nofun
        show PersistEnd w _ _ script (if extent = 0 then _ else _, rest, .stopped)
        split_ifs
        · exact .stopped (.inl (.inr rfl)) hSome
        · exact .stopped (.inr rfl) hSome

end

end Enml.OsKeys
