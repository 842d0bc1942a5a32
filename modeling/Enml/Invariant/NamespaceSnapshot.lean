import Enml.Invariant.Namespace
import Enml.OsStorage.NamespaceSnapshot

/-! The bytes of a namespace snapshot: what is written for an entry is what is read
back as that entry, and nothing else is. -/
namespace Enml.OsStorage

open ProtectedNamespaceSnapshotHeaderV1 ProtectedNamespaceRegistry
open List hiding Vector

open Enml.Core Enml.OsKeys Buffer LittleEndian

/-- The fields in front of the path. -/
def entryFields (e : ProtectedNamespaceEntry) : List (Nat × Nat) :=
  [(8, e.principal.high.toNat), (8, e.principal.low.toNat), (8, e.objectId.high.toNat),
    (8, e.objectId.low.toNat), (8, e.generation.toNat),
    (2, (UInt16.ofNat e.path.view.length).toNat)]

def entryBytes (e : ProtectedNamespaceEntry) : List UInt8 := layout (entryFields e) ++ e.path.view

theorem length_entryFields (e : ProtectedNamespaceEntry) :
    (layout (entryFields e)).length = entryHeaderBytes := length_layout _

theorem length_entryBytes (e : ProtectedNamespaceEntry) :
    (entryBytes e).length = entryHeaderBytes + e.path.view.length := by
  rw [entryBytes, length_append, length_entryFields]

variable {e : ProtectedNamespaceEntry} {user : UserId} {done out after : List UInt8}
  {entries : List ProtectedNamespaceEntry} {size : Nat}

theorem path_of_valid (h : e.valid = true) : e.path.valid = true := by
  simp only [ProtectedNamespaceEntry.valid, Bool.and_eq_true] at h
  exact h.1.1.2

/-- The length of a path survives its two bytes. -/
theorem toNat_pathSize (h : e.valid = true) :
    (UInt16.ofNat e.path.view.length).toNat = e.path.view.length := by
  have hLen := (RelativePath.length_view (path_of_valid h)).2
  have hBound : maxRelativePathBytes < 2 ^ 16 := by decide
  exact Nat.mod_eq_of_lt (by omega)

theorem encodeEntry_eq (hValid : e.valid = true) (hUser : e.user = user)
    (hRoom : (done ++ entryBytes e).length ≤ out.length) :
    encodeEntry e user done.length (written done out) =
      (written (done ++ entryBytes e) out, .ok (done ++ entryBytes e).length) := by
  have hPath := RelativePath.length_view (path_of_valid hValid)
  have hBound : maxRelativePathBytes < 0xFFFF := by decide
  have hBytes := length_entryBytes e
  have hHeader : entryHeaderBytes = 42 := rfl
  rw [length_append] at hRoom
  have hLen : (written done out).length = out.length := length_written (by omega)
  have hFirst : ¬(!e.valid || e.user != user) = true := by simp [hValid, hUser]
  have hSnd : ¬(e.path.view.isEmpty = true ∨ maxRelativePathBytes < e.path.view.length ∨
      0xFFFF < e.path.view.length) := by
    rw [isEmpty_iff_length_eq_zero]
    omega
  have hThird : ¬((written done out).length < done.length ∨
      (written done out).length - done.length < entryHeaderBytes + e.path.view.length) := by omega
  have hWhole : ((List.range e.path.view.length).map fun i => spanByte e.path.view i) =
      e.path.view := by
    have hSlice : ((List.range e.path.view.length).map fun i => spanByte e.path.view (0 + i)) =
        slice e.path.view 0 e.path.view.length := map_spanByte (by omega)
    rw [slice_whole rfl] at hSlice
    simpa only [Nat.zero_add] using hSlice
  have hEntry : entryBytes e =
      bytesOf 8 e.principal.high.toNat ++ (bytesOf 8 e.principal.low.toNat ++
      (bytesOf 8 e.objectId.high.toNat ++ (bytesOf 8 e.objectId.low.toNat ++
      (bytesOf 8 e.generation.toNat ++ (bytesOf 2 (UInt16.ofNat e.path.view.length).toNat ++
        e.path.view))))) := by
    simp [entryBytes, layout, entryFields]
  unfold encodeEntry
  dsimp only
  rw [if_neg hFirst, if_neg hSnd, if_neg hThird, writeU64Le_written rfl (by omega),
    writeU64Le_written, writeU64Le_written, writeU64Le_written, writeU64Le_written,
    writeU16Le_written, storeSpan_written, hWhole]
  · rw [length_append, hBytes, hEntry]
    simp
  all_goals
    simp only [length_append, length_bytesOf]
    try omega

/-- An entry that was written was fit to be, and had room. -/
theorem of_encodeEntry {next : Nat} (hDone : done.length ≤ out.length)
    (h : encodeEntry e user done.length (written done out) = (after, .ok next)) :
    e.valid = true ∧ e.user = user ∧ (done ++ entryBytes e).length ≤ out.length := by
  have hLen := length_written hDone
  unfold encodeEntry at h
  dsimp only at h
  split_ifs at h with hFirst hSnd hThird
  iterate 3 cases h
  · have hFit : e.valid = true ∧ e.user = user := by simpa using hFirst
    rw [length_append, length_entryBytes]
    exact ⟨hFit.1, hFit.2, by omega⟩

def entriesBytes (entries : List ProtectedNamespaceEntry) : List UInt8 := entries.flatMap entryBytes

/-- The loop goes through exactly when every entry is valid and of the user, and all of
them fit. -/
theorem encodeEntriesFrom_eq_ok_iff (hDone : done.length ≤ out.length) :
    encodeEntriesFrom user entries done.length (written done out) = (after, .ok size) ↔
      (∀ e ∈ entries, e.valid = true ∧ e.user = user) ∧
        (done ++ entriesBytes entries).length ≤ out.length ∧
        after = written (done ++ entriesBytes entries) out ∧
        size = (done ++ entriesBytes entries).length := by
  induction entries generalizing done with
  | nil =>
    rw [encodeEntriesFrom, Call.pure_eq_ok_iff]
    simp [entriesBytes, hDone]
  | cons e rest ih =>
    have hSplit : done ++ entriesBytes (e :: rest) =
        (done ++ entryBytes e) ++ entriesBytes rest := by
      rw [entriesBytes, flatMap_cons, append_assoc]
      rfl
    rw [hSplit, encodeEntriesFrom, forall_mem_cons]
    constructor
    · intro h
      obtain ⟨between, cursor, hFirst, hRest⟩ := Call.bind_eq_ok_iff.mp h
      obtain ⟨hValid, hUser, hRoom⟩ := of_encodeEntry hDone hFirst
      rw [encodeEntry_eq hValid hUser hRoom] at hFirst
      cases hFirst
      obtain ⟨hAll, hEnd⟩ := (ih hRoom).mp hRest
      exact ⟨⟨⟨hValid, hUser⟩, hAll⟩, hEnd⟩
    · rintro ⟨⟨⟨hValid, hUser⟩, hAll⟩, hRoom, hAfter⟩
      have hFirst : (done ++ entryBytes e).length ≤ out.length := by
        rw [length_append] at hRoom
        omega
      rw [Call.bind_of_ok (encodeEntry_eq hValid hUser hFirst)]
      exact (ih hFirst).mpr ⟨hAll, hRoom, hAfter⟩

theorem encodeEntries_eq_ok_iff :
    encodeEntries entries user out = (after, .ok size) ↔
      (∀ e ∈ entries, e.valid = true ∧ e.user = user) ∧ (entriesBytes entries).length ≤ out.length ∧
        after = written (entriesBytes entries) out ∧ size = (entriesBytes entries).length := by
  have hNothing : ([] : List UInt8).length ≤ out.length := Nat.zero_le _
  exact encodeEntriesFrom_eq_ok_iff hNothing

section

variable {header : ProtectedNamespaceSnapshotHeaderV1} {plaintext : List UInt8} {cursor : Nat}

/-- The bytes in front of a path say what is read from them. -/
theorem slice_entryFields_iff (h : cursor + entryHeaderBytes ≤ plaintext.length)
    (e : ProtectedNamespaceEntry) :
    slice plaintext cursor entryHeaderBytes = layout (entryFields e) ↔
      readU64Le plaintext cursor = e.principal.high ∧
        readU64Le plaintext (cursor + 8) = e.principal.low ∧
        readU64Le plaintext (cursor + 16) = e.objectId.high ∧
        readU64Le plaintext (cursor + 24) = e.objectId.low ∧
        readU64Le plaintext (cursor + 32) = e.generation ∧
        readU16Le plaintext (cursor + 40) = UInt16.ofNat e.path.view.length := by
  have hHeader : entryHeaderBytes = 8 + (8 + (8 + (8 + (8 + 2)))) := rfl
  have hLayout : layout (entryFields e) = bytesOf 8 e.principal.high.toNat ++
      (bytesOf 8 e.principal.low.toNat ++ (bytesOf 8 e.objectId.high.toNat ++
      (bytesOf 8 e.objectId.low.toNat ++ (bytesOf 8 e.generation.toNat ++
        bytesOf 2 (UInt16.ofNat e.path.view.length).toNat)))) := by
    simp [layout, entryFields]
  rw [hHeader, hLayout, slice_eq_append_iff (length_bytesOf ..) (by omega),
    slice_eq_append_iff (length_bytesOf ..) (by omega),
    slice_eq_append_iff (length_bytesOf ..) (by omega),
    slice_eq_append_iff (length_bytesOf ..) (by omega),
    slice_eq_append_iff (length_bytesOf ..) (by omega), slice_eq_u64_iff (by omega),
    slice_eq_u64_iff (by omega), slice_eq_u64_iff (by omega), slice_eq_u64_iff (by omega),
    slice_eq_u64_iff (by omega), slice_eq_u16_iff (by omega)]

variable {next : Nat}

theorem slice_entryBytes_iff (h : cursor + (entryBytes e).length ≤ plaintext.length) :
    slice plaintext cursor (entryBytes e).length = entryBytes e ↔
      slice plaintext cursor entryHeaderBytes = layout (entryFields e) ∧
        slice plaintext (cursor + 42) e.path.view.length = e.path.view := by
  rw [length_entryBytes] at h
  rw [length_entryBytes, entryBytes, slice_eq_append_iff (length_entryFields e) (by omega)]
  rfl

/-- An entry is read where its bytes stand, and only there. -/
theorem decodeEntry_eq_ok_iff :
    decodeEntry header plaintext cursor = .ok (e, next) ↔
      e.valid = true ∧ e.user = header.user ∧ next = cursor + (entryBytes e).length ∧
        next ≤ plaintext.length ∧ slice plaintext cursor (entryBytes e).length = entryBytes e := by
  constructor
  · intro h
    unfold decodeEntry at h
    dsimp only at h
    split_ifs at h with hShort hPath
    cases hParse : RelativePath.parse (slice plaintext (cursor + 42)
        (readU16Le plaintext (cursor + 40)).toNat) with
    | error _ =>
      rw [hParse] at h
      cases h
    | ok path =>
      rw [hParse] at h
      dsimp only at h
      split_ifs at h with hInvalid
      obtain ⟨-, hView⟩ := RelativePath.parse_eq_ok_iff.mp hParse
      rw [Bool.not_eq_true', Bool.not_eq_false] at hInvalid
      have hHeader : entryHeaderBytes = 42 := rfl
      have hLen : path.view.length = (readU16Le plaintext (cursor + 40)).toNat := by
        rw [hView, length_slice (by omega)]
      cases h
      have hBytes := length_entryBytes
        { principal := ⟨readU64Le plaintext cursor, readU64Le plaintext (cursor + 8)⟩
          user := header.user
          path
          objectId := ⟨readU64Le plaintext (cursor + 16), readU64Le plaintext (cursor + 24)⟩
          generation := readU64Le plaintext (cursor + 32) }
      refine ⟨hInvalid, rfl, by rw [hBytes, hLen], by omega, ?_⟩
      refine (slice_entryBytes_iff (by rw [hBytes, hLen]; omega)).mpr ⟨?_, ?_⟩
      · refine (slice_entryFields_iff (by omega) _).mpr ⟨rfl, rfl, rfl, rfl, rfl, ?_⟩
        rw [hLen, UInt16.ofNat_toNat]
      · rw [hLen, hView]
  · rintro ⟨hValid, hUser, rfl, hEnd, hSlice⟩
    have hPath := RelativePath.length_view (path_of_valid hValid)
    have hParse := RelativePath.parse_view (path_of_valid hValid)
    have hSize := toNat_pathSize hValid
    obtain ⟨hFields, hView⟩ := (slice_entryBytes_iff hEnd).mp hSlice
    rw [length_entryBytes] at hEnd ⊢
    obtain ⟨hHigh, hLow, hObjectHigh, hObjectLow, hGen, hCnt⟩ :=
      (slice_entryFields_iff (by omega) e).mp hFields
    unfold decodeEntry
    rw [hCnt, hSize, if_neg (by omega), if_neg (by omega), hView, hParse]
    rw [hHigh, hLow, hObjectHigh, hObjectLow, hGen, ← hUser]
    exact if_neg (by rw [Bool.not_eq_true', Bool.not_eq_false]; exact hValid)

theorem decodeEntriesFrom_eq_ok_iff {remaining : Nat} (hCursor : cursor ≤ plaintext.length) :
    decodeEntriesFrom header plaintext remaining cursor = .ok (entries, next) ↔
      entries.length = remaining ∧ (∀ e ∈ entries, e.valid = true ∧ e.user = header.user) ∧
        next = cursor + (entriesBytes entries).length ∧ next ≤ plaintext.length ∧
        slice plaintext cursor (entriesBytes entries).length = entriesBytes entries := by
  induction remaining generalizing cursor entries next with
  | zero =>
    rw [decodeEntriesFrom, length_eq_zero_iff]
    constructor
    · intro h
      cases h
      refine ⟨rfl, nofun, rfl, hCursor, rfl⟩
    · rintro ⟨rfl, -, rfl, -⟩
      rfl
  | succ remaining ih =>
    constructor
    · intro h
      obtain ⟨⟨e, middle⟩, hFirst, h⟩ := bind_ok h
      obtain ⟨⟨rest, last⟩, hRest, hEnd⟩ := bind_ok h
      cases hEnd
      obtain ⟨hValid, hUser, rfl, hMiddle, hSlice⟩ := decodeEntry_eq_ok_iff.mp hFirst
      obtain ⟨hCnt, hAll, rfl, hLast, hSlices⟩ := (ih hMiddle).mp hRest
      have hBytes : entriesBytes (e :: rest) = entryBytes e ++ entriesBytes rest := flatMap_cons ..
      refine ⟨congrArg (· + 1) hCnt, forall_mem_cons.mpr ⟨⟨hValid, hUser⟩, hAll⟩, ?_, hLast, ?_⟩
      · rw [hBytes, length_append]
        omega
      · rw [hBytes, length_append, slice_eq_append_iff rfl hMiddle]
        exact ⟨hSlice, hSlices⟩
    · rintro ⟨hCnt, hAll, rfl, hLast, hSlices⟩
      obtain ⟨e, rest, rfl⟩ := exists_cons_of_length_eq_add_one hCnt
      obtain ⟨⟨hValid, hUser⟩, hAll⟩ := forall_mem_cons.mp hAll
      have hBytes : entriesBytes (e :: rest) = entryBytes e ++ entriesBytes rest := flatMap_cons ..
      rw [hBytes, length_append] at hLast hSlices
      have hMiddle : cursor + (entryBytes e).length ≤ plaintext.length := by omega
      rw [slice_eq_append_iff rfl hMiddle] at hSlices
      have hFirst : decodeEntry header plaintext cursor = .ok (e, cursor + (entryBytes e).length) :=
        decodeEntry_eq_ok_iff.mpr ⟨hValid, hUser, rfl, hMiddle, hSlices.1⟩
      have hRest : decodeEntriesFrom header plaintext remaining (cursor + (entryBytes e).length) =
          .ok (rest, cursor + (entryBytes e).length + (entriesBytes rest).length) :=
        (ih hMiddle).mpr ⟨Nat.succ.inj hCnt, hAll, rfl, by omega, hSlices.2⟩
      refine bind_eq_ok_iff.mpr ⟨_, hFirst, ok_bind hRest ?_⟩
      rw [hBytes, length_append, Nat.add_assoc]

/-- The plaintexts that are accepted are those of valid entries of the user, as many as
the header says. -/
theorem decodeEntries_eq_ok_iff {room : Nat} :
    decodeEntries header plaintext room = .ok entries ↔
      header.entryCount.toNat ≤ room ∧ entries.length = header.entryCount.toNat ∧
        (∀ e ∈ entries, e.valid = true ∧ e.user = header.user) ∧
        plaintext = entriesBytes entries := by
  rw [decodeEntries, check_eq_ok_iff, ensure_eq_ok_iff, decide_eq_true_eq]
  refine and_congr_right fun _ => ?_
  constructor
  · intro h
    obtain ⟨⟨found, cursor⟩, hLoop, h⟩ := bind_ok h
    obtain ⟨hEnd, h⟩ := check_eq_ok_iff.mp h
    cases h
    rw [ensure_eq_ok_iff, beq_iff_eq] at hEnd
    obtain ⟨hCnt, hAll, hNext, -, hSlice⟩ := (decodeEntriesFrom_eq_ok_iff (Nat.zero_le _)).mp hLoop
    rw [slice_whole (by omega)] at hSlice
    exact ⟨hCnt, hAll, hSlice⟩
  · rintro ⟨hCnt, hAll, rfl⟩
    have hLoop : decodeEntriesFrom header (entriesBytes entries) header.entryCount.toNat 0 =
        .ok (entries, 0 + (entriesBytes entries).length) :=
      (decodeEntriesFrom_eq_ok_iff (Nat.zero_le _)).mpr
        ⟨hCnt, hAll, rfl, by omega, slice_whole rfl⟩
    refine bind_eq_ok_iff.mpr ⟨_, hLoop, check_eq_ok_iff.mpr ⟨?_, rfl⟩⟩
    rw [ensure_eq_ok_iff, beq_iff_eq, Nat.zero_add]

end

def snapshotHeaderFields (h : ProtectedNamespaceSnapshotHeaderV1) : List (Nat × Nat) :=
  [(4, protectedNamespaceSnapshotMagic.toNat), (2, protectedNamespaceSnapshotVersion.toNat),
    (2, protectedNamespaceSnapshotHeaderBytes.toNat), (8, h.user.toNat), (8, h.securityEpoch.toNat),
    (8, h.sequence.toNat), (4, h.entryCount.toNat), (4, h.flags.toNat)]

theorem length_snapshotHeaderFields (h : ProtectedNamespaceSnapshotHeaderV1) :
    (layout (snapshotHeaderFields h)).length = protectedNamespaceSnapshotHeaderBytes.toNat :=
  length_layout _

variable {h : ProtectedNamespaceSnapshotHeaderV1} {offset count : Nat} {nonce : AeadNonce}
  {tag : AeadTag} {ciphertext output scratch : List UInt8} {key : ProviderKeyReference}
  {r : ProtectedNamespaceRegistry} {provider : KeyProvider}
  {evidence : ProtectedNamespaceFreshnessEvidence}

theorem encodeHeader_eq {out : List UInt8} (hValid : h.valid = true)
    (hOut : out.length = protectedNamespaceSnapshotHeaderBytes.toNat) :
    encodeHeader h out = (layout (snapshotHeaderFields h), .ok ()) := by
  have hLen : out.length = 40 := hOut
  have hPasses : ¬(!h.valid ||
      decide (out.length < protectedNamespaceSnapshotHeaderBytes.toNat)) = true := by
    simp [hValid, hOut]
  have hLayout : layout (snapshotHeaderFields h) = [] ++
      bytesOf 4 protectedNamespaceSnapshotMagic.toNat ++
      bytesOf 2 protectedNamespaceSnapshotVersion.toNat ++
      bytesOf 2 protectedNamespaceSnapshotHeaderBytes.toNat ++ bytesOf 8 h.user.toNat ++
      bytesOf 8 h.securityEpoch.toNat ++ bytesOf 8 h.sequence.toNat ++
      bytesOf 4 h.entryCount.toNat ++ bytesOf 4 h.flags.toNat := by
    simp [layout, snapshotHeaderFields]
  have hNothing : out = written [] out := rfl
  have hFull : written (layout (snapshotHeaderFields h)) out = layout (snapshotHeaderFields h) :=
    written_whole (by rw [length_snapshotHeaderFields, hOut])
  rw [← hFull, hLayout]
  unfold encodeHeader
  dsimp only
  rw [if_neg hPasses]
  conv_lhs => rw [hNothing]
  rw [writeU32Le_written, writeU16Le_written, writeU16Le_written, writeU64Le_written,
    writeU64Le_written, writeU64Le_written, writeU32Le_written, writeU32Le_written]
  all_goals
    simp only [length_append, length_bytesOf, length_nil]
    try omega

theorem decodeHeader_eq (hValid : h.valid = true) :
    decodeHeader (layout (snapshotHeaderFields h)) = .ok h := by
  have hMagic : readU32Le (layout (snapshotHeaderFields h)) 0 = protectedNamespaceSnapshotMagic :=
    readU32Le_layout 0 rfl rfl
  have hVer : readU16Le (layout (snapshotHeaderFields h)) 4 = protectedNamespaceSnapshotVersion :=
    readU16Le_layout 1 rfl rfl
  have hSize : readU16Le (layout (snapshotHeaderFields h)) 6 =
      protectedNamespaceSnapshotHeaderBytes := readU16Le_layout 2 rfl rfl
  have hUser : readU64Le (layout (snapshotHeaderFields h)) 8 = h.user := readU64Le_layout 3 rfl rfl
  have hEpoch : readU64Le (layout (snapshotHeaderFields h)) 16 = h.securityEpoch :=
    readU64Le_layout 4 rfl rfl
  have hSeq : readU64Le (layout (snapshotHeaderFields h)) 24 = h.sequence :=
    readU64Le_layout 5 rfl rfl
  have hCnt : readU32Le (layout (snapshotHeaderFields h)) 32 = h.entryCount :=
    readU32Le_layout 6 rfl rfl
  have hFlags : readU32Le (layout (snapshotHeaderFields h)) 36 = h.flags :=
    readU32Le_layout 7 rfl rfl
  unfold decodeHeader
  rw [hMagic, hVer, hSize, hUser, hEpoch, hSeq, hCnt, hFlags,
    length_snapshotHeaderFields, if_neg (by simp)]
  exact if_neg (by rw [Bool.not_eq_true', Bool.not_eq_false]; exact hValid)

/-- The record: the header, what the provider returned, and the ciphertext. -/
def recordBytes (h : ProtectedNamespaceSnapshotHeaderV1) (nonce : AeadNonce) (tag : AeadTag)
    (ciphertext : List UInt8) : List UInt8 :=
  layout (snapshotHeaderFields h) ++ (nonce.toList ++ (tag.toList ++ ciphertext))

theorem length_recordBytes (h : ProtectedNamespaceSnapshotHeaderV1) (nonce : AeadNonce)
    (tag : AeadTag) (ciphertext : List UInt8) :
    (recordBytes h nonce tag ciphertext).length =
      protectedNamespaceSnapshotOverheadBytes + ciphertext.length := by
  rw [recordBytes, length_append, length_append, length_append,
    length_snapshotHeaderFields, Vector.length_toList, Vector.length_toList,
    protectedNamespaceSnapshotOverheadBytes]
  omega

/-- A copy replaces the part that it covers. -/
theorem copyInto_append {part bytes : List UInt8} (front rest : List UInt8)
    (hOffset : offset = front.length) (hPart : part.length = bytes.length) :
    copyInto bytes offset (front ++ (part ++ rest)) = front ++ (bytes ++ rest) := by
  have hDrop : (front ++ (part ++ rest)).drop (offset + bytes.length) = rest := by
    rw [hOffset, ← drop_drop, drop_left, drop_left' hPart]
  rw [copyInto, hDrop, hOffset, take_left, append_assoc]

/-- The four copies of `seal`. -/
theorem take_copies
    (hRoom : protectedNamespaceSnapshotOverheadBytes + ciphertext.length ≤ output.length) :
    (copyInto tag.toList (protectedNamespaceSnapshotHeaderBytes.toNat + aeadNonceBytes)
      (copyInto nonce.toList protectedNamespaceSnapshotHeaderBytes.toNat
        (copyInto ciphertext protectedNamespaceSnapshotOverheadBytes
          (copyInto (layout (snapshotHeaderFields h)) 0 output)))).take
        (protectedNamespaceSnapshotOverheadBytes + ciphertext.length) =
      recordBytes h nonce tag ciphertext := by
  have hOverhead : protectedNamespaceSnapshotOverheadBytes = 40 + (12 + 16) := rfl
  have hHeader : (layout (snapshotHeaderFields h)).length = 40 := length_snapshotHeaderFields h
  have hNonce : nonce.toList.length = 12 := nonce.length_toList
  have hTag : tag.toList.length = 16 := tag.length_toList
  obtain ⟨first, rest, hFirst, rfl⟩ := exists_front (show 40 ≤ output.length by omega)
  rw [length_append] at hRoom
  obtain ⟨second, rest, hSnd, rfl⟩ := exists_front (show 12 ≤ rest.length by omega)
  rw [length_append] at hRoom
  obtain ⟨third, rest, hThird, rfl⟩ := exists_front (show 16 ≤ rest.length by omega)
  rw [length_append] at hRoom
  obtain ⟨fourth, rest, hFourth, rfl⟩ :=
    exists_front (show ciphertext.length ≤ rest.length by omega)
  have hFront : copyInto (layout (snapshotHeaderFields h)) 0
      (first ++ (second ++ (third ++ (fourth ++ rest)))) =
      layout (snapshotHeaderFields h) ++ (second ++ (third ++ (fourth ++ rest))) :=
    copyInto_append [] _ rfl (hFirst.trans hHeader.symm)
  have hCiphertext := copyInto_append (layout (snapshotHeaderFields h) ++ (second ++ third)) rest
    (show protectedNamespaceSnapshotOverheadBytes = _ by simp only [length_append]; omega)
    hFourth
  simp only [append_assoc] at hCiphertext
  have hSnd := copyInto_append (layout (snapshotHeaderFields h))
    (third ++ (ciphertext ++ rest)) (show protectedNamespaceSnapshotHeaderBytes.toNat = _ from
      hHeader.symm) (hSnd.trans hNonce.symm)
  have hThird := copyInto_append (layout (snapshotHeaderFields h) ++ nonce.toList)
    (ciphertext ++ rest)
    (show protectedNamespaceSnapshotHeaderBytes.toNat + aeadNonceBytes = _ by
      rw [length_append, hHeader, hNonce]; rfl) (hThird.trans hTag.symm)
  simp only [append_assoc] at hThird
  rw [hFront, hCiphertext, hSnd, hThird]
  have hRec : layout (snapshotHeaderFields h) ++
      (nonce.toList ++ (tag.toList ++ (ciphertext ++ rest))) =
      recordBytes h nonce tag ciphertext ++ rest := by
    simp only [recordBytes, append_assoc]
  rw [hRec, ← length_recordBytes h nonce tag ciphertext, take_left]

/-- What a seal that succeeds has done. -/
structure Sealed (provider : KeyProvider) (key : ProviderKeyReference)
    (h : ProtectedNamespaceSnapshotHeaderV1) (entries : List ProtectedNamespaceEntry)
    (nonce : AeadNonce) (tag : AeadTag) (ciphertext : List UInt8) : Prop where
  key_ne : key ≠ 0
  header : h.valid = true
  count : entries.length = h.entryCount.toNat
  owned : ∀ e ∈ entries, e.valid = true ∧ e.user = h.user
  size : ciphertext.length = (entriesBytes entries).length
  bounded : (entriesBytes entries).length ≤ maxProtectedNamespaceSnapshotPlaintextBytes
  made : provider.sealWith key .aes256GcmV1 (layout (snapshotHeaderFields h)) []
    (entriesBytes entries) nonce = .ok (ciphertext, tag)

theorem length_headerSpan (h : protectedNamespaceSnapshotOverheadBytes + count ≤ output.length) :
    (output.take protectedNamespaceSnapshotHeaderBytes.toNat).length =
      protectedNamespaceSnapshotHeaderBytes.toNat := by
  have hOverhead : protectedNamespaceSnapshotHeaderBytes.toNat ≤
      protectedNamespaceSnapshotOverheadBytes := by decide
  exact length_take_of_le (by omega)

theorem of_snapshotPlaintext {plaintext : List UInt8}
    (hPlain : snapshotPlaintext key h r scratch output = .ok plaintext) :
    key ≠ 0 ∧ h.valid = true ∧ (r.userEntries h.user).length = h.entryCount.toNat ∧
      (∀ e ∈ r.userEntries h.user, e.valid = true ∧ e.user = h.user) ∧
      plaintext = entriesBytes (r.userEntries h.user) ∧
      plaintext.length ≤ maxProtectedNamespaceSnapshotPlaintextBytes ∧
      protectedNamespaceSnapshotOverheadBytes + plaintext.length ≤ output.length := by
  obtain ⟨hFirst, hPlain⟩ := check_eq_ok_iff.mp hPlain
  rw [ensure_eq_ok_iff] at hFirst
  simp only [Bool.and_eq_true, bne_iff_ne, decide_eq_true_eq] at hFirst
  obtain ⟨copied, hCopied, hPlain⟩ := bind_ok hPlain
  obtain ⟨hCnt, hPlain⟩ := check_eq_ok_iff.mp hPlain
  rw [ensure_eq_ok_iff, beq_iff_eq] at hCnt
  have hSame : copied = r.userEntries h.user := by
    unfold copyUserEntries at hCopied
    split_ifs at hCopied
    cases hCopied
    rfl
  subst hSame
  generalize hEncode : encodeEntries _ _ _ = encoded at hPlain
  obtain ⟨after, outcome⟩ := encoded
  cases outcome with
  | error => cases hPlain
  | ok =>
    obtain ⟨hRoom, hPlain⟩ := check_eq_ok_iff.mp hPlain
    rw [ensure_eq_ok_iff, decide_eq_true_eq] at hRoom
    obtain ⟨hOwned, hFits, rfl, rfl⟩ := encodeEntries_eq_ok_iff.mp hEncode
    rw [take_written rfl] at hPlain
    cases hPlain
    rw [length_take] at hFits
    exact ⟨hFirst.1.1.1, hFirst.1.1.2, hCnt, hOwned, rfl, by omega, hRoom⟩

/-- A seal that the provider carries out succeeds. -/
theorem exists_sealSnapshot
    (hSealed : Sealed provider key h (r.userEntries h.user) nonce tag ciphertext)
    (hScratch : maxProtectedNamespaceSnapshotPlaintextBytes ≤ scratch.length)
    (hOutput : protectedNamespaceSnapshotOverheadBytes + ciphertext.length ≤ output.length) :
    ∃ after, sealSnapshot provider key h r scratch nonce output =
      (after, .ok (protectedNamespaceSnapshotOverheadBytes + ciphertext.length)) := by
  have hSize := hSealed.size
  have hBounded := hSealed.bounded
  have hParts := hSealed.header
  simp only [valid, Bool.and_eq_true, bne_iff_ne, decide_eq_true_eq] at hParts
  have hCopied : r.copyUserEntries h.user maxProtectedNamespaceEntries =
      .ok (r.userEntries h.user) := by
    have hCnt := hSealed.count
    rw [copyUserEntries, if_neg hParts.1.1.1.1, if_neg (by omega)]
  have hEncoded : encodeEntries (r.userEntries h.user) h.user
      (scratch.take maxProtectedNamespaceSnapshotPlaintextBytes) =
      (written (entriesBytes (r.userEntries h.user))
        (scratch.take maxProtectedNamespaceSnapshotPlaintextBytes),
        .ok (entriesBytes (r.userEntries h.user)).length) :=
    encodeEntries_eq_ok_iff.mpr
      ⟨hSealed.owned, by rw [length_take]; omega, rfl, rfl⟩
  have hPlain : snapshotPlaintext key h r scratch output =
      .ok (entriesBytes (r.userEntries h.user)) := by
    refine check_eq_ok_iff.mpr ⟨?_, bind_eq_ok_iff.mpr ⟨_, hCopied, check_eq_ok_iff.mpr ⟨?_, ?_⟩⟩⟩
    · simp only [ensure_eq_ok_iff, Bool.and_eq_true, bne_iff_ne, decide_eq_true_eq]
      exact ⟨⟨⟨hSealed.key_ne, hSealed.header⟩, hScratch⟩, by omega⟩
    · rw [ensure_eq_ok_iff, beq_iff_eq]
      exact hSealed.count
    rw [hEncoded]
    refine check_eq_ok_iff.mpr ⟨?_, by rw [take_written rfl]⟩
    rw [ensure_eq_ok_iff, decide_eq_true_eq, ← hSize]
    exact hOutput
  have hSpan : (output.take protectedNamespaceSnapshotHeaderBytes.toNat).length =
      protectedNamespaceSnapshotHeaderBytes.toNat := length_headerSpan hOutput
  unfold sealSnapshot
  rw [hPlain]
  rw [encodeHeader_eq hSealed.header hSpan]
  dsimp only
  rw [hSealed.made]
  dsimp only
  rw [if_neg (not_not.mpr hSize), ← hSize]
  exact ⟨_, rfl⟩

theorem of_sealSnapshot {after : List UInt8} {size : Nat}
    (hSeal : sealSnapshot provider key h r scratch nonce output = (after, .ok size)) :
    ∃ tag ciphertext, Sealed provider key h (r.userEntries h.user) nonce tag ciphertext ∧
      after.take size = recordBytes h nonce tag ciphertext := by
  unfold sealSnapshot at hSeal
  cases hPlain : snapshotPlaintext key h r scratch output with
  | error =>
    rw [hPlain] at hSeal
    cases hSeal
  | ok =>
    rw [hPlain] at hSeal
    obtain ⟨hKey, hValid, hCnt, hOwned, rfl, hBounded, hRoom⟩ := of_snapshotPlaintext hPlain
    have hSpan : (output.take protectedNamespaceSnapshotHeaderBytes.toNat).length =
        protectedNamespaceSnapshotHeaderBytes.toNat := length_headerSpan hRoom
    rw [encodeHeader_eq hValid hSpan] at hSeal
    dsimp only at hSeal
    cases hMade : provider.sealWith key .aes256GcmV1 (layout (snapshotHeaderFields h)) []
        (entriesBytes (r.userEntries h.user)) nonce with
    | error e =>
      rw [hMade] at hSeal
      cases hSeal
    | ok made =>
      obtain ⟨ciphertext, tag⟩ := made
      rw [hMade] at hSeal
      dsimp only at hSeal
      split_ifs at hSeal with hSize
      · cases hSeal
      rw [not_not] at hSize
      rw [← hSize] at hRoom hSeal
      cases hSeal
      exact ⟨tag, ciphertext, ⟨hKey, hValid, hCnt, hOwned, hSize, hBounded, hMade⟩,
        take_copies hRoom⟩

/-- The evidence that a snapshot is fresh. -/
structure Matches (evidence : ProtectedNamespaceFreshnessEvidence)
    (h : ProtectedNamespaceSnapshotHeaderV1) : Prop where
  user : evidence.user = h.user
  epoch : evidence.currentSecurityEpoch = h.securityEpoch
  minimum_ne : evidence.minimumSequence ≠ 0
  minimum_le : evidence.minimumSequence ≤ h.sequence

theorem Matches.fresh (hMatches : Matches evidence h) (hValid : h.valid = true) :
    validateNamespaceSnapshotFreshness h evidence = .ok () := by
  have hParts := hValid
  simp only [valid, Bool.and_eq_true, bne_iff_ne] at hParts
  unfold validateNamespaceSnapshotFreshness
  rw [hMatches.user, hMatches.epoch, if_neg, if_neg (not_not.mpr rfl), if_neg (not_not.mpr rfl),
    if_neg (UInt64.not_lt.mpr hMatches.minimum_le)]
  simp [hValid, hParts, hMatches.minimum_ne]

theorem fieldAt_eq {record : List UInt8} {cells : Vector UInt8 count}
    (hBound : offset + count ≤ record.length) (h : slice record offset count = cells.toList) :
    fieldAt record offset count = cells := (slice_eq_vector_iff hBound).mp h

/-- A record that was sealed opens to the entries that it was made of. -/
theorem openSnapshot_recordBytes {entries : List ProtectedNamespaceEntry}
    (hInverts : provider.Inverts) (hSealed : Sealed provider key h entries nonce tag ciphertext)
    (hMatches : Matches evidence h)
    (hScratch : maxProtectedNamespaceSnapshotPlaintextBytes ≤ scratch.length) :
    openSnapshot provider key evidence (recordBytes h nonce tag ciphertext) scratch =
      .ok (h, entries) := by
  have hLen := length_recordBytes h nonce tag ciphertext
  have hHeader := length_snapshotHeaderFields h
  have hNonceLen : nonce.toList.length = aeadNonceBytes := nonce.length_toList
  have hTagLen : tag.toList.length = aeadTagBytes := tag.length_toList
  have hOverhead : protectedNamespaceSnapshotOverheadBytes =
      protectedNamespaceSnapshotHeaderBytes.toNat + aeadNonceBytes + aeadTagBytes := rfl
  have hMost : maxProtectedNamespaceSnapshotRecordBytes =
      protectedNamespaceSnapshotOverheadBytes + maxProtectedNamespaceSnapshotPlaintextBytes := rfl
  have hBounded := hSealed.bounded
  have hSize := hSealed.size
  have hCnt : h.entryCount.toNat ≤ maxProtectedNamespaceEntries := by
    have hParts := hSealed.header
    simp only [valid, Bool.and_eq_true, decide_eq_true_eq] at hParts
    exact hParts.1.2
  have hTake : (recordBytes h nonce tag ciphertext).take
      protectedNamespaceSnapshotHeaderBytes.toNat = layout (snapshotHeaderFields h) :=
    take_left' hHeader
  have hNonce : fieldAt (recordBytes h nonce tag ciphertext)
      protectedNamespaceSnapshotHeaderBytes.toNat aeadNonceBytes = nonce := by
    refine fieldAt_eq (by omega) ?_
    rw [recordBytes, slice_right (le_of_eq hHeader), hHeader, Nat.sub_self, slice_left hNonceLen]
  have hTag : fieldAt (recordBytes h nonce tag ciphertext)
      (protectedNamespaceSnapshotHeaderBytes.toNat + aeadNonceBytes) aeadTagBytes = tag := by
    refine fieldAt_eq (by omega) ?_
    rw [recordBytes, slice_right (by omega), hHeader, Nat.add_sub_cancel_left,
      slice_right (le_of_eq hNonceLen), hNonceLen, Nat.sub_self, slice_left hTagLen]
  have hDrop : (recordBytes h nonce tag ciphertext).drop protectedNamespaceSnapshotOverheadBytes =
      ciphertext := by
    rw [recordBytes, hOverhead, Nat.add_assoc, ← drop_drop, drop_left' hHeader,
      ← drop_drop, drop_left' hNonceLen, drop_left' hTagLen]
  have hDecoded :
      decodeEntries h (entriesBytes entries) maxProtectedNamespaceEntries = .ok entries :=
    decodeEntries_eq_ok_iff.mpr ⟨hCnt, hSealed.count, hSealed.owned, rfl⟩
  refine check_eq_ok_iff.mpr ⟨?_, ?_⟩
  · simp only [ensure_eq_ok_iff, Bool.and_eq_true, bne_iff_ne, decide_eq_true_eq]
    exact ⟨⟨⟨hSealed.key_ne, by omega⟩, by omega⟩, hScratch⟩
  rw [hTake, hNonce, hTag, hDrop]
  refine bind_eq_ok_iff.mpr ⟨h, decodeHeader_eq hSealed.header, ?_⟩
  refine check_eq_ok_iff.mpr ⟨hMatches.fresh hSealed.header, ?_⟩
  refine check_eq_ok_iff.mpr ⟨?_, ?_⟩
  · rw [ensure_eq_ok_iff, decide_eq_true_eq]
    omega
  rw [hInverts _ _ _ _ _ _ _ _ hSealed.made]
  refine check_eq_ok_iff.mpr ⟨?_, bind_eq_ok_iff.mpr ⟨entries, hDecoded, rfl⟩⟩
  rw [ensure_eq_ok_iff, beq_iff_eq]
  exact hSize.symm

/-- An opening changes nothing, or replaces the entries of one user. -/
theorem openAndRestore_cases (provider : KeyProvider) (key : ProviderKeyReference)
    (evidence : ProtectedNamespaceFreshnessEvidence) (record scratch : List UInt8)
    (r : ProtectedNamespaceRegistry) :
    (∃ e, openAndRestore provider key evidence record scratch r = (r, .error e)) ∨
      ∃ h entries after, openSnapshot provider key evidence record scratch = .ok (h, entries) ∧
        r.replaceUserEntries h.user entries = (after, .ok ()) ∧
        openAndRestore provider key evidence record scratch r = (after, .ok h) := by
  unfold openAndRestore
  cases hOpen : openSnapshot provider key evidence record scratch with
  | error e => exact .inl ⟨e, rfl⟩
  | ok opened =>
    obtain ⟨h, entries⟩ := opened
    dsimp only
    rcases replaceUserEntries_cases h.user entries r with
      ⟨e, hErr⟩ | ⟨after, hOk, -⟩
    · rw [hErr]
      exact .inl ⟨e, rfl⟩
    · exact .inr ⟨h, entries, after, rfl, hOk, by rw [hOk]⟩

end Enml.OsStorage
