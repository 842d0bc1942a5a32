import Enml.Invariant.Codec
import Enml.OsCollection.Session

/-! The bytes of each record of a collection session, and that its encoder writes them and
its decoder reads exactly them. -/
namespace Enml.OsCollection

open Enml.Core Enml.OsIpc Enml.OsUi Buffer LittleEndian Encoder Decoder List Call
  CollectionContentWindow CollectionChangeSet SemanticText

/-- The two checks for UTF-8 are the same. -/
theorem validUtf8_eq : ∀ text : List UInt8, validUtf8 text = isValidUtf8 text
  | [] => rfl
  | [_] => rfl
  | [_, _] => rfl
  | [_, _, _] => rfl
  | b0 :: b1 :: b2 :: b3 :: rest => by
      have hOne := validUtf8_eq (b1 :: b2 :: b3 :: rest)
      have hTwo := validUtf8_eq (b2 :: b3 :: rest)
      have hThree := validUtf8_eq (b3 :: rest)
      have hFour := validUtf8_eq rest
      unfold validUtf8 isValidUtf8
      simp only [hOne, hTwo, hThree, hFour]
      rfl

/-- No read of the scan is past the end. -/
theorem scanUtf8_eq : ∀ front rest : List UInt8,
    scanUtf8 isContinuation (front ++ rest) front.length = some (isValidUtf8 rest)
  | front, [] => by
    rw [scanUtf8, append_nil, dif_neg (Nat.lt_irrefl _)]
    rfl
  | front, b0 :: rest => by
    have hNext : ∀ k ≤ rest.length, scanUtf8 isContinuation (front ++ b0 :: rest)
        (front.length + (k + 1)) = some (isValidUtf8 (rest.drop k)) := by
      intro k hk
      have hLeft := scanUtf8_eq (front ++ b0 :: rest.take k) (rest.drop k)
      rwa [length_append, length_cons, length_take, min_eq_left hk, append_assoc, cons_append,
        take_append_drop] at hLeft
    have hFirst : (front ++ b0 :: rest)[front.length]? = some b0 := by simp
    have hOne := hNext 0
    have hTwo := hNext 1
    have hThree := hNext 2
    have hFour := hNext 3
    rw [scanUtf8, isValidUtf8.eq_def, dif_pos (by simp), hFirst]
    clear hNext hFirst
    -- How much is left decides which reads are made.
    rcases rest with _ | ⟨b1, _ | ⟨b2, _ | ⟨b3, rest⟩⟩⟩
    all_goals
      simp at hOne hTwo hThree hFour
      simp [*]
      grind
termination_by _ rest => rest.length

/-- Both checks accept exactly the encodings of sequences of scalar values. -/
theorem utf8_validators_exact (text : List UInt8) :
    (isValidUtf8 text = true ↔ ∃ chars : List Char, text = chars.flatMap String.utf8EncodeChar) ∧
      (validUtf8 text = true ↔ ∃ chars : List Char, text = chars.flatMap String.utf8EncodeChar) ∧
      scanUtf8 isContinuation text 0 = some (isValidUtf8 text) ∧
      scanUtf8 continuation text 0 = some (validUtf8 text) := by
  rw [validUtf8_eq]
  exact ⟨isValidUtf8_iff, isValidUtf8_iff, scanUtf8_eq [] text, scanUtf8_eq [] text⟩

/-- The label with these bytes and nothing behind them. -/
def labelOf (text : List UInt8) : SemanticText where
  bytes := Vector.ofFn fun i : Fin 160 => text.getD i 0
  length := UInt16.ofNat text.length

theorem length_labelOf (text : List UInt8) (h : text.length ≤ maxSemanticTextBytes) :
    (labelOf text).length.toNat = text.length := by
  unfold maxSemanticTextBytes at h
  show (UInt16.ofNat text.length).toNat = _
  rw [UInt16.toNat_ofNat']
  omega

theorem view_labelOf (text : List UInt8) (h : text.length ≤ maxSemanticTextBytes) :
    (labelOf text).view = text := by
  have hLen := length_labelOf text h
  unfold maxSemanticTextBytes at h
  rw [view, hLen]
  refine ext_getElem (by simp [labelOf, h]) fun i hLeft hRight => ?_
  simp [labelOf, hRight]

variable {label : SemanticText} {text bytes payload : List UInt8} {size count : Nat}
  {x : Call Encoder Nat} {c : CollectionChangeSet} {items prior : List CollectionPublishedItem}
  {firstIndex : UInt32} {item : CollectionPublishedItem} {w : CollectionContentWindow}

theorem length_view (h : label.length.toNat ≤ maxSemanticTextBytes) :
    label.view.length = label.length.toNat := by
  unfold maxSemanticTextBytes at h
  simp [view, h]

theorem makeSemanticText_eq_ok_iff :
    makeSemanticText text = .ok label ↔
      text.length ≤ maxSemanticTextBytes ∧ isValidUtf8 text = true ∧ label = labelOf text := by
  rw [makeSemanticText, ← validUtf8_eq]
  by_cases hLong : maxSemanticTextBytes < text.length
  · rw [if_pos hLong]
    exact iff_of_false nofun fun h => absurd h.1 (Nat.not_le.mpr hLong)
  rw [if_neg hLong]
  cases hValid : validUtf8 text with
  | false => exact iff_of_false nofun fun h => nomatch h.2.1
  | true =>
    rw [if_neg (by simp), labelOf, Except.ok.injEq]
    constructor
    · intro h
      exact ⟨Nat.not_lt.mp hLong, rfl, h.symm⟩
    · rintro ⟨-, -, h⟩
      exact h.symm

theorem semanticTextValid_iff :
    semanticTextValid label = true ↔
      label.length.toNat ≤ maxSemanticTextBytes ∧ isValidUtf8 label.view = true := by
  rw [semanticTextValid, Bool.and_eq_true, decide_eq_true_eq, validUtf8_eq]

/-- Two labels with the same text. -/
theorem labelOf_valid (h : semanticTextValid label = true) :
    (labelOf label.view).view = label.view ∧ (labelOf label.view).length = label.length ∧
        semanticTextValid (labelOf label.view) = true := by
  obtain ⟨hLen, hValid⟩ := semanticTextValid_iff.mp h
  have hSame := length_view hLen
  have hView := view_labelOf label.view (by omega)
  have hCnt := length_labelOf label.view (by omega)
  refine ⟨hView, UInt16.toNat.inj (by rw [hCnt, hSame]), ?_⟩
  rw [semanticTextValid_iff, hView, hCnt, hSame]
  exact ⟨hLen, hValid⟩

def prefixBytes (size : Nat) : List UInt8 :=
  bytesOf 2 transportVersionV1.toNat ++ bytesOf 2 (UInt16.ofNat size).toNat

@[simp] theorem length_prefixBytes (size : Nat) : (prefixBytes size).length = 4 := by
  simp [prefixBytes]

theorem writes_frontSize (h : size ≤ 0xFFFF) : Writes (writePrefix size) (prefixBytes size) :=
  .ensured (by simpa using h) ((writes_u16 _).bind (writes_u16 _))

theorem writes_requestPrefix (size : Nat) : Writes (writeRequestPrefix size) (prefixBytes size) :=
  (writes_u16 _).bind (writes_u16 _)

theorem toNat_size (h : size ≤ 0xFFFF) : (UInt16.ofNat size).toNat = size := by
  rw [UInt16.toNat_ofNat']
  omega

theorem reads_prefix (h : size ≤ 0xFFFF) :
    Reads (readPrefix size) fun _ bytes => bytes = prefixBytes size := by
  refine (reads_u16.part fun version => reads_u16.part fun found =>
    reads_ensure (version == transportVersionV1 && found.toNat == size) protocolViolation).congr
      fun a bytes => ?_
  constructor
  · rintro ⟨version, _, ⟨found, _, ⟨hFound, rfl⟩, rfl⟩, rfl⟩
    simp only [Bool.and_eq_true, beq_iff_eq] at hFound
    rw [prefixBytes, toNat_size h, hFound.1, hFound.2, append_nil]
  rintro rfl
  refine ⟨transportVersionV1, _, ⟨UInt16.ofNat size, [], ⟨?_, rfl⟩, rfl⟩, ?_⟩
  · simp [toNat_size h]
  · simp [prefixBytes]

/-- The size that a record announces. -/
theorem announced_eq (h : size ≤ 0xFFFF) (rest : List UInt8) :
    (readU16Le (prefixBytes size ++ rest) 2).toNat = size := by
  have hSlice : slice (prefixBytes size ++ rest) 2 2 = bytesOf 2 (UInt16.ofNat size).toNat := by
    rw [prefixBytes, append_assoc, slice_right (by simp)]
    simp [slice_left]
  rw [(slice_eq_u16_iff (by simp)).mp hSlice, toNat_size h]

/-- The end of an encoder: it appends these bytes and returns how many there are now. -/
def Finishes (x : Call Encoder Nat) (bytes : List UInt8) (total : Nat) : Prop :=
  ∀ (out done : List UInt8) (e : Encoder) (n : Nat), done.length ≤ out.length →
    done.length + bytes.length = total →
    (x (wrote out done) = (e, .ok n) ↔
      done.length + bytes.length ≤ out.length ∧ e = wrote out (done ++ bytes) ∧
        n = (done ++ bytes).length)

theorem finishes_size (total : Nat) : Finishes writtenSize [] total := by
  intro out done e n hDone _
  rw [writtenSize, written_wrote, append_nil, length_nil, Nat.add_zero]
  constructor
  · intro h
    cases h
    exact ⟨hDone, rfl, rfl⟩
  · rintro ⟨-, rfl, rfl⟩
    rfl

/-- The encoder compares the number with the one it has announced. -/
theorem finishes_checked (total : Nat) (err : Error) :
    Finishes (writtenSize >>= fun n => ensure (n == total) err >>= fun _ => pure n) []
      total := by
  intro out done e n hDone hTotal
  have hSize : writtenSize (wrote out done) = (wrote out done, .ok done.length) := by
    rw [writtenSize, written_wrote]
  have hSame : (done.length == total) = true := by simpa using hTotal
  have hEnd := finishes_size total out done e n hDone hTotal
  rw [hSize] at hEnd
  rw [bind_of_ok hSize, bind_of_ok (ensure_of_true hSame)]
  exact hEnd

theorem finish {w : Call Encoder Unit} {first second : List UInt8} {total : Nat}
    (hw : Writes w first) (hx : Finishes x second total) :
    Finishes (w >>= fun _ => x) (first ++ second) total := by
  intro out done e n hDone hTotal
  have hAfter : (done ++ first).length = done.length + first.length := length_append
  have hBoth : (first ++ second).length = first.length + second.length := length_append
  rw [Call.bind_eq_ok_iff, hBoth, ← List.append_assoc]
  constructor
  · rintro ⟨u, ⟨⟩, hFirst, hSnd⟩
    obtain ⟨hRoom, rfl⟩ := (hw _ _ _ hDone).mp hFirst
    obtain ⟨hMore, rfl, rfl⟩ := (hx _ _ _ _ (by omega) (by omega)).mp hSnd
    exact ⟨by omega, rfl, rfl⟩
  · rintro ⟨hRoom, rfl, rfl⟩
    exact ⟨_, (), (hw _ _ _ hDone).mpr ⟨by omega, rfl⟩,
      (hx _ _ _ _ (by omega) (by omega)).mpr ⟨by omega, rfl, rfl⟩⟩

/-- What a whole encoder does: it accepts the valid values, and writes their bytes. -/
def Encodes (x : Call Encoder Nat) (valid : Bool) (bytes : List UInt8) : Prop :=
  ∀ (out : List UInt8) (e : Encoder) (n : Nat), x { output := out } = (e, .ok n) ↔
      valid = true ∧ bytes.length ≤ out.length ∧ e = wrote out bytes ∧ n = bytes.length

theorem Finishes.encodes {valid : Bool} {err : Error}
    (h : valid = true → Finishes x bytes bytes.length) :
    Encodes (ensure valid err >>= fun _ => x) valid bytes := by
  intro out e n
  rw [wrote_nil]
  cases hValid : valid with
  | false => exact iff_of_false nofun fun h => nomatch h.1
  | true =>
    rw [bind_of_ok (ensure_of_true rfl), h hValid out [] e n (Nat.zero_le _) (by simp)]
    simp

theorem Finishes.encodes_request (h : Finishes x bytes size) (hSize : bytes.length = size)
    (valid : Bool) : Encodes (requestGuard valid size >>= fun _ => x) valid bytes := by
  intro out e n
  subst hSize
  have hGuard : requestGuard valid bytes.length { output := out } =
      ensure (valid && !decide (out.length < bytes.length)) protocolViolation
        { output := out } := rfl
  by_cases hOk : (valid && !decide (out.length < bytes.length)) = true
  · rw [bind_of_ok (hGuard.trans (ensure_of_true hOk)), wrote_nil,
      h out [] e n (Nat.zero_le _) (by simp)]
    simp only [Bool.and_eq_true, Bool.not_eq_true', decide_eq_false_iff_not] at hOk
    simp [hOk.1]
  have hFail : requestGuard valid bytes.length { output := out } =
      ({ output := out }, .error protocolViolation) := by
    rw [hGuard, Call.ensure, if_neg hOk]
  rw [bind_of_error hFail]
  refine iff_of_false (by rintro ⟨⟩) fun h => hOk ?_
  simp only [Bool.and_eq_true, Bool.not_eq_true', decide_eq_false_iff_not, Nat.not_lt]
  exact ⟨h.1, h.2.1⟩

/-- The check at the end of a payload. -/
theorem closes_requireValid {α : Type} {x : Call Decoder α} {R : α → List UInt8 → Prop}
    (h : Reads x R) (valid : Bool) :
    Closes (requireValid valid >>= fun _ => x)
      fun a bytes => bytes = [] ∧ valid = true ∧ R a [] := by
  intro front rest d a
  cases rest with
  | cons head rest =>
    have hMore : requireEnd (between front (head :: rest)) =
        (between front (head :: rest), .error (ipcError OsIpc.Errors.malformedMessage)) := by
      simp [requireEnd]
    have hFail : requireValid valid (between front (head :: rest)) =
        (between front (head :: rest), .error protocolViolation) := by
      rw [requireValid, hMore]
    rw [bind_of_error hFail]
    exact iff_of_false nofun fun h => nomatch h.1.1
  | nil =>
    have hEnd : requireEnd (between front []) = (between front [], .ok ()) := by simp [requireEnd]
    have hGuard : requireValid valid (between front []) =
        ensure valid protocolViolation (between front []) := by
      rw [requireValid, hEnd]
    cases valid with
    | false =>
      rw [bind_of_error hGuard]
      exact iff_of_false nofun fun h => nomatch h.1.2.1
    | true =>
      rw [bind_of_ok hGuard, h]
      constructor
      · rintro ⟨bytes, more, hR, hNil, rfl⟩
        obtain ⟨rfl, rfl⟩ := append_eq_nil_iff.mp hNil.symm
        exact ⟨⟨rfl, rfl, hR⟩, rfl⟩
      · rintro ⟨⟨-, -, hR⟩, rfl⟩
        exact ⟨[], [], hR, rfl, rfl⟩

/-- A decoder looks at the size of the payload before it reads. -/
theorem guarded_iff {α : Type} {x : Result α} {a : α} {T bad : Prop} [Decidable bad] {err : Error}
    (h : x = .ok a ↔ T) (hGood : T → ¬bad) : (if bad then .error err else x) = .ok a ↔ T := by
  split_ifs with hBad
  · exact iff_of_false nofun fun hT => hGood hT hBad
  · exact h

def snapshotBytes (s : CollectionDataSnapshot) : List UInt8 :=
  prefixBytes snapshotRecordSizeV1 ++ (bytesOf 8 s.revision.toNat ++ bytesOf 4 s.itemCount.toNat)

theorem length_snapshotBytes (s : CollectionDataSnapshot) :
    (snapshotBytes s).length = snapshotRecordSizeV1 := by
  simp [snapshotBytes, snapshotRecordSizeV1]

theorem encodes_snapshot (s : CollectionDataSnapshot) :
    Encodes (encodeSnapshotV1 s) (snapshotValid s) (snapshotBytes s) := by
  refine Finishes.encodes fun _ => ?_
  have hPrefix : Writes (writePrefix snapshotRecordSizeV1) (prefixBytes snapshotRecordSizeV1) :=
    writes_frontSize (by decide)
  have hWrites := finish hPrefix (finish (writes_u64 s.revision)
    (finish (writes_u32 s.itemCount) (finishes_size (snapshotBytes s).length)))
  exact hWrites

theorem decodeSnapshotV1_iff {s : CollectionDataSnapshot} :
    decodeSnapshotV1 payload = .ok s ↔ snapshotValid s = true ∧ payload = snapshotBytes s := by
  have hPrefix := reads_prefix (by decide : snapshotRecordSizeV1 ≤ 0xFFFF)
  have hReads := (hPrefix.field fun _ => reads_u64.field fun revision => reads_u32.field
    fun itemCount =>
      closes_requireValid (reads_pure ({ revision, itemCount } : CollectionDataSnapshot))
        (snapshotValid { revision, itemCount })).congr
    (fun s bytes => snapshotValid s = true ∧ bytes = snapshotBytes s) fun s bytes => by
      cases s
      simp [snapshotBytes]
  refine guarded_iff hReads.payload_iff ?_
  rintro ⟨-, rfl⟩
  simpa using length_snapshotBytes s

def sessionRequestBytes (session : CollectionSessionId) : List UInt8 :=
  prefixBytes sessionSnapshotRequestSizeV1 ++ bytesOf 8 session.toNat

theorem length_sessionRequestBytes (session : CollectionSessionId) :
    (sessionRequestBytes session).length = sessionSnapshotRequestSizeV1 := by
  simp [sessionRequestBytes, sessionSnapshotRequestSizeV1]

theorem encodes_sessionRequest (session : CollectionSessionId) :
    Encodes (encodeSessionRequest session) (session != 0) (sessionRequestBytes session) := by
  have hWrites := finish (writes_requestPrefix sessionSnapshotRequestSizeV1)
    (finish (writes_u64 session) (finishes_size sessionSnapshotRequestSizeV1))
  exact hWrites.encodes_request (length_sessionRequestBytes session) _

theorem decodeSessionRequest_iff {session : CollectionSessionId} :
    decodeSessionRequest payload = .ok session ↔
      (session != 0) = true ∧ payload = sessionRequestBytes session := by
  have hPrefix := reads_prefix (by decide : sessionSnapshotRequestSizeV1 ≤ 0xFFFF)
  have hReads := (hPrefix.field fun _ => reads_u64.field fun session =>
    closes_requireValid (reads_pure session) (session != 0)).congr
    (fun session bytes => (session != 0) = true ∧ bytes = sessionRequestBytes session)
      fun session bytes => by
      simp [sessionRequestBytes]
  refine guarded_iff hReads.payload_iff ?_
  rintro ⟨-, rfl⟩
  simpa using length_sessionRequestBytes session

def changesRequestBytes (request : CollectionSessionId × UInt64) : List UInt8 :=
  prefixBytes sessionChangesRequestSizeV1 ++
    (bytesOf 8 request.1.toNat ++ bytesOf 8 request.2.toNat)

theorem length_changesRequestBytes (request : CollectionSessionId × UInt64) :
    (changesRequestBytes request).length = sessionChangesRequestSizeV1 := by
  simp [changesRequestBytes, sessionChangesRequestSizeV1]

def changesRequestValid (request : CollectionSessionId × UInt64) : Bool :=
  request.1 != 0 && request.2 != 0

theorem encodes_changesRequest (request : CollectionSessionId × UInt64) :
    Encodes (encodeChangesRequest request.1 request.2) (changesRequestValid request)
      (changesRequestBytes request) := by
  have hWrites := finish (writes_requestPrefix sessionChangesRequestSizeV1)
    (finish (writes_u64 request.1) (finish (writes_u64 request.2)
      (finishes_size sessionChangesRequestSizeV1)))
  exact hWrites.encodes_request (length_changesRequestBytes request) _

theorem decodeChangesRequest_iff {request : CollectionSessionId × UInt64} :
    decodeChangesRequest payload = .ok request ↔
      changesRequestValid request = true ∧ payload = changesRequestBytes request := by
  have hPrefix := reads_prefix (by decide : sessionChangesRequestSizeV1 ≤ 0xFFFF)
  have hReads := (hPrefix.field fun _ => reads_u64.field fun session => reads_u64.field
    fun revision => closes_requireValid (reads_pure (session, revision))
      (session != 0 && revision != 0)).congr
    (fun request bytes => changesRequestValid request = true ∧ bytes = changesRequestBytes request)
      fun request bytes => by
      cases request
      simp [changesRequestBytes, changesRequestValid]
  refine guarded_iff hReads.payload_iff ?_
  rintro ⟨-, rfl⟩
  simpa using length_changesRequestBytes request

def windowBytes (window : CollectionWindow) : List UInt8 :=
  bytesOf 4 window.firstIndex.toNat ++ (bytesOf 2 window.count.toNat ++
    (bytesOf 4 window.firstItemOffsetQ6.toUInt32.toNat ++ (bytesOf 4 window.itemExtentQ6.toNat ++
      bytesOf 8 window.contentExtentQ6.toNat)))

def contentRequestBytes (request : ContentRequest) : List UInt8 :=
  prefixBytes sessionContentRequestSizeV1 ++ (bytesOf 8 request.session.toNat ++
    (bytesOf 8 request.revision.toNat ++ windowBytes request.window))

theorem length_contentRequestBytes (request : ContentRequest) :
    (contentRequestBytes request).length = sessionContentRequestSizeV1 := by
  simp [contentRequestBytes, windowBytes, sessionContentRequestSizeV1]

def contentRequestValid (request : ContentRequest) : Bool :=
  request.session != 0 && request.revision != 0 && requestWindowValid request.window

theorem encodes_contentRequest (request : ContentRequest) :
    Encodes (encodeContentRequest request.session request.revision request.window)
      (contentRequestValid request) (contentRequestBytes request) := by
  have hWrites := finish (writes_requestPrefix sessionContentRequestSizeV1)
    (finish (writes_u64 request.session) (finish (writes_u64 request.revision)
    (finish (writes_u32 request.window.firstIndex) (finish (writes_u16 request.window.count)
    (finish (writes_u32 request.window.firstItemOffsetQ6.toUInt32)
    (finish (writes_u32 request.window.itemExtentQ6)
    (finish (writes_u64 request.window.contentExtentQ6)
      (finishes_size sessionContentRequestSizeV1))))))))
  exact hWrites.encodes_request (length_contentRequestBytes request) _

theorem decodeContentRequest_iff {request : ContentRequest} :
    decodeContentRequest payload = .ok request ↔
      contentRequestValid request = true ∧ payload = contentRequestBytes request := by
  have hPrefix := reads_prefix (by decide : sessionContentRequestSizeV1 ≤ 0xFFFF)
  have hReads := (hPrefix.field fun _ => reads_u64.field fun session => reads_u64.field
    fun revision => reads_u32.field fun firstIndex => reads_u16.field fun count =>
    reads_u32.field fun firstOffset => reads_u32.field fun itemExtentQ6 =>
    reads_u64.field fun contentExtentQ6 =>
      let window : CollectionWindow :=
        { firstIndex, count, firstItemOffsetQ6 := firstOffset.toInt32
          itemExtentQ6, contentExtentQ6 }
      closes_requireValid ((reads_pure ({ session, revision, window } : ContentRequest)).ensured
        (requestWindowValid window) protocolViolation)
        (session != 0 && revision != 0)).congr
    (fun request bytes => contentRequestValid request = true ∧ bytes = contentRequestBytes request)
      fun request bytes => by
      constructor
      · rintro ⟨_, _, ⟨session, _, ⟨revision, _, ⟨firstIndex, _, ⟨count, _, ⟨firstOffset, _,
          ⟨itemExtentQ6, _, ⟨contentExtentQ6, _, ⟨rfl, hIds, hWindow, rfl, -⟩, rfl⟩, rfl⟩, rfl⟩,
          rfl⟩, rfl⟩, rfl⟩, rfl⟩, rfl⟩
        exact ⟨by simp [contentRequestValid, hIds, hWindow],
          by simp [contentRequestBytes, windowBytes]⟩
      · rintro ⟨hValid, rfl⟩
        rw [contentRequestValid, Bool.and_eq_true] at hValid
        exact ⟨(), _, ⟨request.session, _, ⟨request.revision, _, ⟨request.window.firstIndex, _,
          ⟨request.window.count, _, ⟨request.window.firstItemOffsetQ6.toUInt32, _,
          ⟨request.window.itemExtentQ6, _, ⟨request.window.contentExtentQ6, [],
          ⟨rfl, hValid.1, hValid.2, rfl, rfl⟩, rfl⟩, rfl⟩, rfl⟩, rfl⟩, rfl⟩, rfl⟩, rfl⟩,
          by simp [contentRequestBytes, windowBytes]⟩
  refine guarded_iff hReads.payload_iff ?_
  rintro ⟨-, rfl⟩
  simpa using length_contentRequestBytes request

theorem changeKindOf_eq_some_iff {raw : UInt8} {kind : CollectionChangeKind} :
    changeKindOf raw = some kind ↔ changeKindRaw kind = raw := by
  constructor
  · intro h
    have hHit := find?_some h
    exact beq_iff_eq.mp hHit
  · rintro rfl
    cases kind with
    | insert | remove | move | update | reset => rfl

theorem reads_kind (raw : UInt8) :
    Reads (decodedKind raw) fun kind bytes => changeKindRaw kind = raw ∧ bytes = [] := by
  cases hKind : changeKindOf raw with
  | none =>
    intro front rest d kind
    rw [decodedKind, hKind]
    refine iff_of_false nofun ?_
    rintro ⟨_, _, ⟨hRaw, -⟩, -⟩
    rw [changeKindOf_eq_some_iff.mpr hRaw] at hKind
    cases hKind
  | some found =>
    have hRaw := changeKindOf_eq_some_iff.mp hKind
    rw [decodedKind, hKind]
    refine (reads_pure found).congr fun kind bytes => ?_
    constructor
    · rintro ⟨rfl, rfl⟩
      exact ⟨hRaw, rfl⟩
    rintro ⟨hSame, rfl⟩
    rw [changeKindOf_eq_some_iff.mpr hSame] at hKind
    cases hKind
    exact ⟨rfl, rfl⟩

def changeBytes (change : CollectionChange) : List UInt8 :=
  [changeKindRaw change.kind] ++ (bytesOf 4 change.index.toNat ++
    (bytesOf 4 change.count.toNat ++ bytesOf 4 change.destinationIndex.toNat))

theorem length_changeBytes (change : CollectionChange) :
    (changeBytes change).length = changeRecordSizeV1 := by
  simp [changeBytes, changeRecordSizeV1]

def changesBytes (changes : List CollectionChange) : List UInt8 := changes.flatMap changeBytes

theorem length_changesBytes (changes : List CollectionChange) :
    (changesBytes changes).length = changes.length * changeRecordSizeV1 := by
  induction changes with
  | nil => simp [changesBytes]
  | cons _ _ ih =>
    rw [changesBytes] at ih
    rw [changesBytes, flatMap_cons, length_append, ih, length_changeBytes,
      length_cons, Nat.succ_mul, Nat.add_comm]

theorem writes_changes (changes : List CollectionChange) :
    Writes (writeChanges changes) (changesBytes changes) := by
  induction changes with
  | nil => exact writes_pure
  | cons change rest ih =>
    have hWrites := (writes_u8 (changeKindRaw change.kind)).bind ((writes_u32 change.index).bind
      ((writes_u32 change.count).bind ((writes_u32 change.destinationIndex).bind ih)))
    exact hWrites

theorem reads_change : Reads readChange fun change bytes => bytes = changeBytes change := by
  refine (reads_u8.part fun raw => reads_u32.part fun index => reads_u32.part fun count =>
    reads_u32.part fun destinationIndex => (reads_kind raw).bind fun kind =>
      reads_pure ({ kind, index, count, destinationIndex } : CollectionChange)).congr
        fun change bytes => ?_
  constructor
  · rintro ⟨raw, _, ⟨index, _, ⟨count, _, ⟨destination, _, ⟨kind, _, _, ⟨rfl, rfl⟩, ⟨rfl, rfl⟩,
      rfl⟩, rfl⟩, rfl⟩, rfl⟩, rfl⟩
    simp [changeBytes]
  · rintro rfl
    exact ⟨_, _, ⟨change.index, _, ⟨change.count, _, ⟨change.destinationIndex, [],
      ⟨change.kind, [], [], ⟨rfl, rfl⟩, ⟨rfl, rfl⟩, rfl⟩, rfl⟩, rfl⟩, rfl⟩, by simp [changeBytes]⟩

/-- A loop that reads `count` records, one after the other. -/
theorem reads_records {α : Type} {one : Call Decoder α} {loop : Nat → Call Decoder (List α)}
    {layout : α → List UInt8} {Q : α → Prop}
    (hOne : Reads one fun a bytes => Q a ∧ bytes = layout a) (hNil : loop 0 = pure [])
    (hCons : ∀ n, loop (n + 1) = one >>= fun a => loop n >>= fun rest => pure (a :: rest))
    (count : Nat) : Reads (loop count) fun as bytes =>
      as.length = count ∧ (∀ a ∈ as, Q a) ∧ bytes = as.flatMap layout := by
  induction count with
  | zero =>
    rw [hNil]
    refine (reads_pure []).congr fun as bytes => ?_
    constructor
    · rintro ⟨rfl, rfl⟩
      exact ⟨rfl, nofun, rfl⟩
    · rintro ⟨hLen, -, rfl⟩
      obtain rfl := length_eq_zero_iff.mp hLen
      exact ⟨rfl, rfl⟩
  | succ n ih =>
    rw [hCons]
    refine (hOne.bind fun a => ih.bind fun rest => reads_pure (a :: rest)).congr fun as bytes => ?_
    constructor
    · rintro ⟨a, _, _, ⟨hPlain, rfl⟩, ⟨rest, _, _, ⟨rfl, hRest, rfl⟩, ⟨rfl, rfl⟩, rfl⟩, rfl⟩
      exact ⟨rfl, forall_mem_cons.mpr ⟨hPlain, hRest⟩, by simp⟩
    rintro ⟨hLen, hPlain, rfl⟩
    cases as with
    | nil => cases hLen
    | cons a rest =>
      obtain ⟨hFirst, hRest⟩ := forall_mem_cons.mp hPlain
      exact ⟨a, _, _, ⟨hFirst, rfl⟩,
        ⟨rest, _, [], ⟨Nat.succ.inj hLen, hRest, rfl⟩, ⟨rfl, rfl⟩, rfl⟩,
        by simp⟩

theorem reads_changes (count : Nat) : Reads (readChanges count) fun changes bytes =>
    changes.length = count ∧ bytes = changesBytes changes :=
  (reads_records (Q := fun _ => True) (reads_change.congr fun _ _ => (iff_of_eq (true_and _)).symm)
    rfl (fun _ => rfl) count).congr fun _ _ => by simp [changesBytes]

theorem take_changeArray {changes : List CollectionChange} (hCnt : count ≤ maxCollectionChanges)
    (hLen : changes.length = count) : (changeArray changes).toList.take count = changes := by
  unfold maxCollectionChanges at hCnt
  refine ext_getElem (by simp [changeArray]; omega) fun i hLeft hRight => ?_
  simp [changeArray, hRight]

theorem count_le_of_valid (h : collectionChangeSetValid c = true) :
    c.count.toNat ≤ maxCollectionChanges := by
  rw [collectionChangeSetValid] at h
  split_ifs at h with hBad
  simp only [not_or, Nat.not_lt] at hBad
  exact hBad.2.2.2.2.2.2

theorem length_applied (h : c.count.toNat ≤ maxCollectionChanges) :
    c.applied.length = c.count.toNat := by
  unfold maxCollectionChanges at h
  simp [applied, h]

def changeSetSize (c : CollectionChangeSet) : Nat :=
  changeSetHeaderSizeV1 + c.count.toNat * changeRecordSizeV1

def changeSetBytes (c : CollectionChangeSet) : List UInt8 :=
  prefixBytes (changeSetSize c) ++ (bytesOf 8 c.fromRevision.toNat ++
    (bytesOf 8 c.toRevision.toNat ++ (bytesOf 4 c.oldItemCount.toNat ++
      (bytesOf 4 c.newItemCount.toNat ++ ([c.count] ++ changesBytes c.applied)))))

theorem length_changeSetBytes (h : c.count.toNat ≤ maxCollectionChanges) :
    (changeSetBytes c).length = changeSetSize c := by
  simp only [changeSetBytes, length_append, length_prefixBytes, length_bytesOf,
    length_singleton, length_changesBytes, length_applied h, changeSetSize,
    changeSetHeaderSizeV1]
  omega

theorem changeSetSize_le (h : c.count.toNat ≤ maxCollectionChanges) :
    changeSetSize c ≤ maxChangeSetSizeV1 := by
  unfold maxCollectionChanges at h
  simp only [changeSetSize, maxChangeSetSizeV1, changeSetHeaderSizeV1, maxCollectionChanges,
    changeRecordSizeV1]
  omega

theorem encodes_changeSet (c : CollectionChangeSet) :
    Encodes (encodeChangeSetV1 c) (collectionChangeSetValid c) (changeSetBytes c) := by
  refine Finishes.encodes fun hValid => ?_
  have hSmall : changeSetSize c ≤ 0xFFFF :=
    (changeSetSize_le (count_le_of_valid hValid)).trans (by decide)
  have hWrites := finish (writes_frontSize hSmall) (finish (writes_u64 c.fromRevision)
    (finish (writes_u64 c.toRevision) (finish (writes_u32 c.oldItemCount)
    (finish (writes_u32 c.newItemCount) (finish (writes_u8 c.count)
    (finish (writes_changes c.applied) (finishes_size (changeSetBytes c).length)))))))
  rw [append_nil] at hWrites
  exact hWrites

/-- The changes behind the last one are as a decoder leaves them. -/
def PlainChanges (c : CollectionChangeSet) : Prop := c.changes = changeArray c.applied

theorem decodeChangeSetV1_iff :
    decodeChangeSetV1 payload = .ok c ↔
      (PlainChanges c ∧ collectionChangeSetValid c = true) ∧ payload = changeSetBytes c := by
  have hReads := (reads_u16.field fun version => reads_u16.field fun encodedSize =>
    reads_u64.field fun fromRevision => reads_u64.field fun toRevision =>
    reads_u32.field fun oldItemCount => reads_u32.field fun newItemCount =>
    reads_u8.field fun count => ((reads_changes count.toNat).close fun changes =>
      let output : CollectionChangeSet :=
        { fromRevision, toRevision, oldItemCount, newItemCount
          changes := changeArray changes, count }
      closes_requireValid (reads_pure output) (collectionChangeSetValid output)).ensured
        (version == transportVersionV1 && encodedSize.toNat == payload.length &&
          changeSetHeaderSizeV1 + count.toNat * changeRecordSizeV1 == payload.length &&
          decide (count.toNat ≤ maxCollectionChanges)) protocolViolation)
  refine guarded_iff (hReads.payload_iff.trans ?_) ?_
  rotate_left
  · rintro ⟨⟨-, hValid⟩, rfl⟩
    have hCnt := count_le_of_valid hValid
    have hMost := changeSetSize_le hCnt
    have hLeast : changeSetHeaderSizeV1 ≤ changeSetSize c := Nat.le_add_right _ _
    rw [length_changeSetBytes hCnt]
    omega
  constructor
  · rintro ⟨version, _, ⟨encodedSize, _, ⟨fromRevision, _, ⟨toRevision, _, ⟨oldItemCount, _,
      ⟨newItemCount, _, ⟨count, _, ⟨hChecks, ⟨changes, _, _, ⟨hLen, rfl⟩,
      ⟨rfl, hValid, rfl, -⟩, rfl⟩⟩, rfl⟩, rfl⟩, rfl⟩, rfl⟩, rfl⟩, rfl⟩, hPayload⟩
    simp only [Bool.and_eq_true, beq_iff_eq, decide_eq_true_eq] at hChecks
    obtain ⟨⟨⟨hVer, hEncoded⟩, hSize⟩, hCnt⟩ := hChecks
    have hApplied : (changeArray changes).toList.take count.toNat = changes :=
      take_changeArray hCnt hLen
    refine ⟨⟨?_, hValid⟩, ?_⟩
    · exact (congrArg changeArray hApplied).symm
    have hAnnounced : UInt16.ofNat (changeSetHeaderSizeV1 + count.toNat * changeRecordSizeV1) =
        encodedSize := by
      rw [hSize, ← hEncoded, UInt16.ofNat_toNat]
    rw [hPayload]
    simp only [changeSetBytes, changeSetSize, prefixBytes, applied, hApplied,
      hAnnounced, hVer, append_assoc, append_nil]
  · rintro ⟨⟨hPlain, hValid⟩, hPayload⟩
    have hCnt := count_le_of_valid hValid
    have hSize := length_changeSetBytes hCnt
    have hSmall : changeSetSize c ≤ 0xFFFF := (changeSetSize_le hCnt).trans (by decide)
    have hOutput : { c with changes := changeArray c.applied } = c := by rw [← hPlain]
    refine ⟨transportVersionV1, _, ⟨UInt16.ofNat (changeSetSize c), _, ⟨c.fromRevision, _,
      ⟨c.toRevision, _, ⟨c.oldItemCount, _, ⟨c.newItemCount, _, ⟨c.count, _, ⟨?_,
      ⟨c.applied, _, [], ⟨length_applied hCnt, rfl⟩, ⟨rfl, ?_, ?_, rfl⟩, rfl⟩⟩,
      rfl⟩, rfl⟩, rfl⟩, rfl⟩, rfl⟩, rfl⟩, ?_⟩
    · rw [hPayload, hSize, toNat_size hSmall]
      simp [changeSetSize, hCnt]
    · rw [hOutput]
      exact hValid
    · exact hOutput.symm
    · rw [hPayload]
      simp [changeSetBytes, prefixBytes]

def labelBytes (label : SemanticText) : List UInt8 := bytesOf 4 label.view.length ++ label.view

/-- A label as a decoder makes it. -/
def PlainLabel (label : SemanticText) : Prop :=
  semanticTextValid label = true ∧ label = labelOf label.view

theorem plain_labelOf (hLen : text.length ≤ maxSemanticTextBytes)
    (hValid : isValidUtf8 text = true) : PlainLabel (labelOf text) := by
  have hView := view_labelOf text hLen
  refine ⟨semanticTextValid_iff.mpr ⟨?_, by rw [hView]; exact hValid⟩, by rw [hView]⟩
  rw [length_labelOf text hLen]
  exact hLen

theorem writes_label (h : semanticTextValid label = true) :
    Writes (writeUtf8 label.view maxSemanticTextBytes) (labelBytes label) := by
  obtain ⟨hLen, hValid⟩ := semanticTextValid_iff.mp h
  have hSame := length_view hLen
  have hSmall : label.view.length ≤ maxSemanticTextBytes := by omega
  exact writes_utf8 hValid hSmall (Nat.lt_of_le_of_lt hSmall (by decide))

/-- What is left of a label once its text was read. -/
theorem reads_labelOf (text : List UInt8) : Reads (readLabel text) fun label bytes =>
    text.length ≤ maxSemanticTextBytes ∧ isValidUtf8 text = true ∧ label = labelOf text ∧
      bytes = [] := by
  cases hMake : makeSemanticText text with
  | error =>
    intro front rest d label
    rw [readLabel, hMake]
    refine iff_of_false nofun ?_
    rintro ⟨_, _, ⟨hLen, hValid, hLabel, -⟩, -⟩
    rw [makeSemanticText_eq_ok_iff.mpr ⟨hLen, hValid, hLabel⟩] at hMake
    cases hMake
  | ok =>
    obtain ⟨hLen, hValid, rfl⟩ := makeSemanticText_eq_ok_iff.mp hMake
    rw [readLabel, hMake]
    refine (reads_pure (labelOf text)).congr fun label bytes => ?_
    simp [hLen, hValid]

theorem flags_known (content : CollectionItemContent) :
    (itemFlags content &&& ~~~knownContentFlags == 0) = true ∧
      (itemFlags content &&& contentEnabled != 0) = content.enabled ∧
      (itemFlags content &&& contentSelected != 0) = content.selected := by
  unfold itemFlags
  cases content.enabled with
  | false | true =>
    cases content.selected with
    | false => decide
    | true => decide

theorem flags_of_known {flags : UInt8} (h : (flags &&& ~~~knownContentFlags == 0) = true)
    {content : CollectionItemContent} (hEnabled : content.enabled = (flags &&& contentEnabled != 0))
    (hSelected : content.selected = (flags &&& contentSelected != 0)) :
    itemFlags content = flags := by
  have hAll : ∀ i : Fin 256, (UInt8.ofFin i &&& ~~~knownContentFlags == 0) = true →
      (if (UInt8.ofFin i &&& contentEnabled != 0) = true then contentEnabled else 0) |||
        (if (UInt8.ofFin i &&& contentSelected != 0) = true then contentSelected else 0) =
          UInt8.ofFin i := by
    decide +kernel
  have hFlags : UInt8.ofFin flags.toFin = flags := rfl
  have hThis := hAll flags.toFin (by rw [hFlags]; exact h)
  rw [itemFlags, hEnabled, hSelected]
  exact hThis

def itemBytes (item : CollectionPublishedItem) : List UInt8 :=
  bytesOf 4 item.itemIndex.toNat ++ (bytesOf 8 item.itemKey.toNat ++
    ([itemFlags item.content] ++ (labelBytes item.content.primaryLabel ++
      labelBytes item.content.secondaryLabel)))

theorem length_itemBytes (item : CollectionPublishedItem) :
    (itemBytes item).length = encodedItemSize item := by
  simp [itemBytes, labelBytes, encodedItemSize]
  omega

def itemsBytes (items : List CollectionPublishedItem) : List UInt8 := items.flatMap itemBytes

structure LabelsValid (item : CollectionPublishedItem) : Prop where
  primary : semanticTextValid item.content.primaryLabel = true
  secondary : semanticTextValid item.content.secondaryLabel = true

structure PlainItem (item : CollectionPublishedItem) : Prop where
  primary : PlainLabel item.content.primaryLabel
  secondary : PlainLabel item.content.secondaryLabel

theorem writes_items (h : ∀ item ∈ items, LabelsValid item) :
    Writes (writeItems items) (itemsBytes items) := by
  induction items with
  | nil => exact writes_pure
  | cons item rest ih =>
    have hItem := h item mem_cons_self
    have hRest := ih fun other hOther => h other (mem_cons_of_mem _ hOther)
    have hWrites := (writes_u32 item.itemIndex).bind ((writes_u64 item.itemKey).bind
      ((writes_u8 (itemFlags item.content)).bind ((writes_label hItem.primary).bind
        ((writes_label hItem.secondary).bind hRest))))
    have hBytes : itemsBytes (item :: rest) = bytesOf 4 item.itemIndex.toNat ++
        (bytesOf 8 item.itemKey.toNat ++ ([itemFlags item.content] ++
          (labelBytes item.content.primaryLabel ++ (labelBytes item.content.secondaryLabel ++
            itemsBytes rest)))) := by
      simp [itemsBytes, itemBytes]
    rw [hBytes]
    exact hWrites

theorem reads_item : Reads readItem fun item bytes => PlainItem item ∧ bytes = itemBytes item := by
  have hText := reads_utf8 (by decide : maxSemanticTextBytes < 2 ^ 32)
  refine (reads_u32.part fun itemIndex => reads_u64.part fun itemKey =>
    reads_u8.part fun flags => ((hText.bind fun primary => hText.bind fun secondary =>
      (reads_labelOf primary).bind fun primaryLabel => (reads_labelOf secondary).bind
        fun secondaryLabel => reads_pure ({ itemIndex, itemKey, content := {
          primaryLabel, secondaryLabel, enabled := flags &&& contentEnabled != 0
          selected := flags &&& contentSelected != 0 } } : CollectionPublishedItem)).ensured
            (flags &&& ~~~knownContentFlags == 0) protocolViolation)).congr fun item bytes => ?_
  constructor
  · rintro ⟨itemIndex, _, ⟨itemKey, _, ⟨flags, _, ⟨hKnown, primary, _, _, ⟨hPrimary, hLong, rfl⟩,
      ⟨secondary, _, _, ⟨hSecondary, hLonger, rfl⟩, ⟨_, _, _, ⟨-, -, rfl, rfl⟩,
      ⟨_, _, _, ⟨-, -, rfl, rfl⟩, ⟨rfl, rfl⟩, rfl⟩, rfl⟩, rfl⟩, rfl⟩, rfl⟩, rfl⟩, rfl⟩
    refine ⟨⟨plain_labelOf hLong hPrimary, plain_labelOf hLonger hSecondary⟩, ?_⟩
    simp only [itemBytes, labelBytes, view_labelOf _ hLong, view_labelOf _ hLonger,
      flags_of_known hKnown, append_nil]
  · rintro ⟨⟨⟨hPrimary, hSame⟩, ⟨hSecondary, hAlso⟩⟩, rfl⟩
    obtain ⟨hLen, hUtf8⟩ := semanticTextValid_iff.mp hPrimary
    obtain ⟨hLen', hUtf8'⟩ := semanticTextValid_iff.mp hSecondary
    rw [← length_view hLen] at hLen
    rw [← length_view hLen'] at hLen'
    obtain ⟨hKnown, hEnabled, hSelected⟩ := flags_known item.content
    refine ⟨item.itemIndex, _, ⟨item.itemKey, _, ⟨itemFlags item.content, _, ⟨hKnown,
      item.content.primaryLabel.view, _, _, ⟨hUtf8, hLen, rfl⟩,
      ⟨item.content.secondaryLabel.view, _, _, ⟨hUtf8', hLen', rfl⟩,
      ⟨_, [], _, ⟨hLen, hUtf8, rfl, rfl⟩, ⟨_, [], [], ⟨hLen', hUtf8', rfl, rfl⟩, ⟨?_, rfl⟩,
      rfl⟩, rfl⟩, rfl⟩, rfl⟩, rfl⟩, rfl⟩, by simp [itemBytes, labelBytes]⟩
    rw [← hSame, ← hAlso, hEnabled, hSelected]

theorem reads_items (count : Nat) : Reads (readItems count) fun items bytes =>
    items.length = count ∧ (∀ item ∈ items, PlainItem item) ∧ bytes = itemsBytes items :=
  reads_records reads_item rfl (fun _ => rfl) count

theorem take_itemArray (hCnt : count ≤ maxMaterializedCollectionItems)
    (hLen : items.length = count) : (itemArray items).toList.take count = items := by
  unfold maxMaterializedCollectionItems maxUiChildrenPerNode at hCnt
  refine ext_getElem (by simp [itemArray]; omega) fun i hLeft hRight => ?_
  simp [itemArray, hRight]

/-- What the check of the items says about each of them. -/
theorem itemsValid_spec (h : itemsValid firstIndex prior items = true) :
    (∀ k item, items[k]? = some item →
      item.itemIndex = firstIndex + UInt32.ofNat (prior.length + k)) ∧
      (∀ item ∈ items, item.itemKey ≠ 0 ∧ LabelsValid item) ∧
      ((prior.map fun item => item.itemKey).Nodup →
        ((prior ++ items).map fun item => item.itemKey).Nodup) := by
  induction items generalizing prior with
  | nil => exact ⟨nofun, nofun, fun hPrior => by rwa [append_nil]⟩
  | cons item _ ih =>
    rw [itemsValid] at h
    split_ifs at h with hBad hTwice
    simp only [Bool.or_eq_true, bne_iff_ne, beq_iff_eq, Bool.not_eq_true', not_or, not_not,
      Bool.not_eq_false] at hBad
    obtain ⟨⟨⟨⟨hIdx, hKey⟩, -⟩, hPrimary⟩, hSecondary⟩ := hBad
    obtain ⟨hIndices, hItems, hNodup⟩ := ih h
    refine ⟨?_, ?_, ?_⟩
    · intro k other hOther
      cases k with
      | zero =>
        cases hOther
        exact hIdx
      | succ k =>
        have hNext := hIndices k other hOther
        rw [length_append, length_singleton] at hNext
        rw [hNext, Nat.add_right_comm, Nat.add_assoc]
    · exact forall_mem_cons.mpr ⟨⟨hKey, hPrimary, hSecondary⟩, hItems⟩
    · intro hPrior
      have hStep : ((prior ++ [item]).map fun item => item.itemKey).Nodup := by
        rw [map_append, nodup_append]
        refine ⟨hPrior, nodup_singleton _, ?_⟩
        intro key hMem key' hNew hSame
        obtain ⟨earlier, hEarlier, rfl⟩ := mem_map.mp hMem
        rw [map_singleton, mem_singleton] at hNew
        simp only [any_eq_true, beq_iff_eq, not_exists, not_and] at hTwice
        exact hTwice earlier hEarlier (hSame.trans hNew)
      have hAll := hNodup hStep
      rwa [append_assoc] at hAll

def contentWindowSize (w : CollectionContentWindow) : Nat :=
  contentWindowHeaderSizeV1 + (itemsBytes w.published).length

def contentWindowBytes (w : CollectionContentWindow) : List UInt8 :=
  prefixBytes (contentWindowSize w) ++ (bytesOf 8 w.revision.toNat ++ (windowBytes w.window ++
    (bytesOf 2 w.count.toNat ++ itemsBytes w.published)))

theorem length_contentWindowBytes (w : CollectionContentWindow) :
    (contentWindowBytes w).length = contentWindowSize w := by
  simp only [contentWindowBytes, windowBytes, length_append, length_prefixBytes,
    length_bytesOf, contentWindowSize, contentWindowHeaderSizeV1]
  omega

theorem foldl_encodedItemSize (items : List CollectionPublishedItem) (start : Nat) :
    items.foldl (fun size item => size + encodedItemSize item) start =
      start + (itemsBytes items).length := by
  induction items generalizing start with
  | nil => rfl
  | cons _ _ ih =>
    rw [foldl_cons, ih, itemsBytes, itemsBytes, flatMap_cons, length_append,
      length_itemBytes, Nat.add_assoc]

theorem length_itemBytes_le (h : LabelsValid item) :
    (itemBytes item).length ≤ maxContentItemSizeV1 := by
  have hPrimary := (semanticTextValid_iff.mp h.primary).1
  have hSecondary := (semanticTextValid_iff.mp h.secondary).1
  rw [length_itemBytes, encodedItemSize, length_view hPrimary, length_view hSecondary]
  unfold maxContentItemSizeV1
  omega

theorem length_itemsBytes_le (h : ∀ item ∈ items, LabelsValid item) :
    (itemsBytes items).length ≤ items.length * maxContentItemSizeV1 := by
  induction items with
  | nil => exact Nat.zero_le _
  | cons _ _ ih =>
    obtain ⟨hItem, hRest⟩ := forall_mem_cons.mp h
    have hFirst := length_itemBytes_le hItem
    have hOthers := ih hRest
    rw [itemsBytes] at hOthers
    rw [itemsBytes, flatMap_cons, length_append, length_cons, Nat.succ_mul]
    omega

/-- What a valid window is made of. -/
structure ContentWindowParts (w : CollectionContentWindow) : Prop where
  revision : w.revision ≠ 0
  count : w.count = w.window.count
  few : w.count.toNat ≤ maxMaterializedCollectionItems
  first : w.window.firstIndex.toNat ≤ maxCollectionItems
  items : itemsValid w.window.firstIndex [] w.published = true

theorem contentWindowParts (h : contentWindowValid w = true) : ContentWindowParts w := by
  rw [contentWindowValid] at h
  split_ifs at h with hBad hFlat
  simp only [not_or, not_not, Nat.not_lt] at hBad
  exact ⟨hBad.1, hBad.2.1, hBad.2.2.1, hBad.2.2.2.1, h⟩

theorem ContentWindowParts.labels (h : ContentWindowParts w) :
    ∀ item ∈ w.published, LabelsValid item :=
  fun item hItem => ((itemsValid_spec h.items).2.1 item hItem).2

theorem length_published (h : w.count.toNat ≤ maxMaterializedCollectionItems) :
    w.published.length = w.count.toNat := by
  unfold maxMaterializedCollectionItems maxUiChildrenPerNode at h
  simp [published, h]

theorem ContentWindowParts.size_le (h : ContentWindowParts w) :
    contentWindowSize w ≤ maxContentWindowSizeV1 := by
  have hItems := length_itemsBytes_le h.labels
  have hCnt := length_published h.few
  have hFew := Nat.mul_le_mul_right maxContentItemSizeV1 (hCnt.le.trans h.few)
  unfold contentWindowSize maxContentWindowSizeV1
  omega

theorem encodedContentWindowSize_of_valid (h : contentWindowValid w = true) :
    encodedContentWindowSize w = .ok (contentWindowSize w) := by
  have hSize := (contentWindowParts h).size_le
  have hLimit : maxContentWindowSizeV1 ≤ maxInlinePayloadSize ∧
      maxContentWindowSizeV1 ≤ 0xFFFF := by decide
  have hTotal : w.published.foldl (fun size item => size + encodedItemSize item)
      contentWindowHeaderSizeV1 = contentWindowSize w := foldl_encodedItemSize _ _
  have hFits : ¬(maxContentWindowSizeV1 < contentWindowSize w ∨
      maxInlinePayloadSize < contentWindowSize w ∨ 0xFFFF < contentWindowSize w) := by
    omega
  rw [encodedContentWindowSize, if_neg (by simp [h])]
  simp only [hTotal]
  rw [if_neg hFits]

theorem encodes_contentWindow (w : CollectionContentWindow) :
    Encodes (encodeContentWindowV1 w) (contentWindowValid w) (contentWindowBytes w) := by
  intro out e n
  cases hValid : contentWindowValid w with
  | false =>
    have hSize : encodedContentWindowSize w = .error protocolViolation := by
      rw [encodedContentWindowSize, hValid]
      rfl
    rw [encodeContentWindowV1, hSize]
    exact iff_of_false nofun fun h => nomatch h.1
  | true =>
    have hParts := contentWindowParts hValid
    have hSmall : contentWindowSize w ≤ 0xFFFF := hParts.size_le.trans (by decide)
    have hWrites : Finishes (writeContentWindow w (contentWindowSize w)) _ _ :=
      finish (writes_frontSize hSmall) (finish (writes_u64 w.revision)
      (finish (writes_u32 w.window.firstIndex) (finish (writes_u16 w.window.count)
      (finish (writes_u32 w.window.firstItemOffsetQ6.toUInt32)
      (finish (writes_u32 w.window.itemExtentQ6) (finish (writes_u64 w.window.contentExtentQ6)
      (finish (writes_u16 w.count) (finish (writes_items hParts.labels)
        (finishes_checked (contentWindowSize w) protocolViolation)))))))))
    have hBytes : contentWindowBytes w = prefixBytes (contentWindowSize w) ++
        (bytesOf 8 w.revision.toNat ++ (bytesOf 4 w.window.firstIndex.toNat ++
        (bytesOf 2 w.window.count.toNat ++ (bytesOf 4 w.window.firstItemOffsetQ6.toUInt32.toNat ++
        (bytesOf 4 w.window.itemExtentQ6.toNat ++ (bytesOf 8 w.window.contentExtentQ6.toNat ++
        (bytesOf 2 w.count.toNat ++ (itemsBytes w.published ++ [])))))))) := by
      simp [contentWindowBytes, windowBytes]
    rw [← hBytes] at hWrites
    have hFull : ([] : List UInt8).length + (contentWindowBytes w).length =
        contentWindowSize w := by
      rw [length_contentWindowBytes, length_nil, Nat.zero_add]
    have hEnd := hWrites out [] e n (Nat.zero_le _) hFull
    rw [nil_append, length_nil, Nat.zero_add] at hEnd
    rw [encodeContentWindowV1, encodedContentWindowSize_of_valid hValid, wrote_nil]
    rw [hEnd]
    exact (and_iff_right rfl).symm

/-- The window as a decoder leaves it. -/
structure PlainWindow (w : CollectionContentWindow) : Prop where
  items : w.items = itemArray w.published
  labels : ∀ item ∈ w.published, PlainItem item

theorem decodeContentWindowV1_iff :
    decodeContentWindowV1 payload = .ok w ↔
      (PlainWindow w ∧ contentWindowValid w = true) ∧ payload = contentWindowBytes w := by
  have hReads := (reads_u16.field fun version => reads_u16.field fun encodedSize =>
    reads_u64.field fun revision => reads_u32.field fun firstIndex =>
    reads_u16.field fun windowCount => reads_u32.field fun firstOffset =>
    reads_u32.field fun itemExtentQ6 => reads_u64.field fun contentExtentQ6 =>
    reads_u16.field fun itemCount => ((reads_items itemCount.toNat).close fun items =>
      let output : CollectionContentWindow :=
        { revision
          window := { firstIndex, count := windowCount, firstItemOffsetQ6 := firstOffset.toInt32
                      itemExtentQ6, contentExtentQ6 }
          items := itemArray items, count := itemCount }
      closes_requireValid (reads_pure output) (contentWindowValid output)).ensured
        (version == transportVersionV1 && encodedSize.toNat == payload.length &&
          revision != 0 && windowCount == itemCount &&
          decide (itemCount.toNat ≤ maxMaterializedCollectionItems)) protocolViolation)
  refine guarded_iff (hReads.payload_iff.trans ?_) ?_
  rotate_left
  · rintro ⟨⟨-, hValid⟩, rfl⟩
    have hMost := (contentWindowParts hValid).size_le
    have hLeast : contentWindowHeaderSizeV1 ≤ contentWindowSize w := Nat.le_add_right _ _
    rw [length_contentWindowBytes]
    omega
  constructor
  · rintro ⟨version, _, ⟨encodedSize, _, ⟨revision, _, ⟨firstIndex, _, ⟨windowCount, _,
      ⟨firstOffset, _, ⟨itemExtentQ6, _, ⟨contentExtentQ6, _, ⟨itemCount, _, ⟨hChecks,
      ⟨items, _, _, ⟨hLen, hPlain, rfl⟩, ⟨rfl, hValid, rfl, -⟩, rfl⟩⟩, rfl⟩, rfl⟩, rfl⟩, rfl⟩,
      rfl⟩, rfl⟩, rfl⟩, rfl⟩, hPayload⟩
    simp only [Bool.and_eq_true, beq_iff_eq, decide_eq_true_eq] at hChecks
    obtain ⟨⟨⟨⟨hVer, hEncoded⟩, -⟩, -⟩, hCnt⟩ := hChecks
    have hPub : (itemArray items).toList.take itemCount.toNat = items := take_itemArray hCnt hLen
    refine ⟨⟨⟨(congrArg itemArray hPub).symm, ?_⟩, hValid⟩, ?_⟩
    · simp only [published, hPub]
      exact hPlain
    have hSize : payload.length = contentWindowHeaderSizeV1 + (itemsBytes items).length := by
      rw [hPayload]
      simp only [length_append, length_bytesOf, contentWindowHeaderSizeV1, length_nil]
      omega
    have hAnnounced : UInt16.ofNat (contentWindowHeaderSizeV1 + (itemsBytes items).length) =
        encodedSize := by
      rw [← hSize, ← hEncoded, UInt16.ofNat_toNat]
    rw [hPayload]
    simp only [contentWindowBytes, contentWindowSize, prefixBytes, windowBytes,
      published, hPub, hAnnounced, hVer, append_assoc,
      append_nil, UInt32.toUInt32_toInt32]
  · rintro ⟨⟨hPlain, hValid⟩, hPayload⟩
    have hParts := contentWindowParts hValid
    have hSmall : contentWindowSize w ≤ 0xFFFF := hParts.size_le.trans (by decide)
    have hOutput : { w with items := itemArray w.published } = w := by rw [← hPlain.items]
    refine ⟨transportVersionV1, _, ⟨UInt16.ofNat (contentWindowSize w), _, ⟨w.revision, _,
      ⟨w.window.firstIndex, _, ⟨w.window.count, _, ⟨w.window.firstItemOffsetQ6.toUInt32, _,
      ⟨w.window.itemExtentQ6, _, ⟨w.window.contentExtentQ6, _, ⟨w.count, _, ⟨?_,
      ⟨w.published, _, [], ⟨length_published hParts.few, hPlain.labels, rfl⟩, ⟨rfl, ?_, ?_, rfl⟩,
      rfl⟩⟩, rfl⟩, rfl⟩, rfl⟩, rfl⟩, rfl⟩, rfl⟩, rfl⟩, rfl⟩, ?_⟩
    · rw [hPayload, length_contentWindowBytes, toNat_size hSmall]
      simp [hParts.revision, ← hParts.count, hParts.few]
    · exact (congrArg contentWindowValid hOutput).trans hValid
    · exact hOutput.symm
    · rw [hPayload]
      simp [contentWindowBytes, prefixBytes, windowBytes]

def trimItem (item : CollectionPublishedItem) : CollectionPublishedItem :=
  { item with content :=
    { item.content with
      primaryLabel := labelOf item.content.primaryLabel.view
      secondaryLabel := labelOf item.content.secondaryLabel.view } }

theorem plain_trimItem (h : LabelsValid item) : PlainItem (trimItem item) := by
  obtain ⟨hView, -, hValid⟩ := labelOf_valid h.primary
  obtain ⟨hView', -, hValid'⟩ := labelOf_valid h.secondary
  exact ⟨⟨hValid, congrArg labelOf hView.symm⟩, hValid', congrArg labelOf hView'.symm⟩

theorem itemBytes_trimItem (h : LabelsValid item) : itemBytes (trimItem item) = itemBytes item := by
  have hFlags : itemFlags (trimItem item).content = itemFlags item.content := by
    rw [itemFlags, itemFlags, trimItem]
  rw [itemBytes, itemBytes, hFlags]
  simp only [labelBytes, trimItem, labelOf_valid h.primary, labelOf_valid h.secondary]

theorem itemsBytes_map_trimItem (h : ∀ item ∈ items, LabelsValid item) :
    itemsBytes (items.map trimItem) = itemsBytes items := by
  induction items with
  | nil => rfl
  | cons _ _ ih =>
    obtain ⟨hItem, hRest⟩ := forall_mem_cons.mp h
    have hOthers := ih hRest
    rw [itemsBytes, itemsBytes] at hOthers
    rw [itemsBytes, itemsBytes, map_cons, flatMap_cons, flatMap_cons,
      itemBytes_trimItem hItem, hOthers]

theorem itemsValid_map_trimItem (h : itemsValid firstIndex prior items = true) :
    itemsValid firstIndex (prior.map trimItem) (items.map trimItem) = true := by
  induction items generalizing prior with
  | nil => rfl
  | cons item _ ih =>
    rw [itemsValid] at h
    split_ifs at h with hBad hTwice
    have hNext := ih h
    rw [map_append, map_singleton] at hNext
    simp only [Bool.or_eq_true, bne_iff_ne, beq_iff_eq, Bool.not_eq_true', not_or, not_not,
      Bool.not_eq_false] at hBad
    obtain ⟨⟨⟨⟨hIdx, hKey⟩, hSome⟩, hPrimary⟩, hSecondary⟩ := hBad
    obtain ⟨-, hLen, hValid⟩ := labelOf_valid hPrimary
    obtain ⟨-, -, hValid'⟩ := labelOf_valid hSecondary
    have hSomeText : ¬(labelOf item.content.primaryLabel.view).empty = true := by
      rw [empty, hLen]
      exact hSome
    have hOnce : ¬((prior.map trimItem).any fun earlier =>
        earlier.itemKey == (trimItem item).itemKey) = true := by
      simpa only [any_map, Function.comp_def, trimItem] using hTwice
    rw [map_cons, itemsValid, if_neg, if_neg hOnce, hNext]
    simp only [trimItem, length_map, Bool.or_eq_true, bne_iff_ne, beq_iff_eq,
      Bool.not_eq_true', not_or, not_not, Bool.not_eq_false]
    exact ⟨⟨⟨⟨hIdx, hKey⟩, hSomeText⟩, hValid⟩, hValid'⟩

/-- A window with nothing behind its items and their labels. -/
def trimWindow (w : CollectionContentWindow) : CollectionContentWindow :=
  { w with items := itemArray (w.published.map trimItem) }

theorem published_trimWindow (h : w.count.toNat ≤ maxMaterializedCollectionItems) :
    (trimWindow w).published = w.published.map trimItem := by
  have hLen : (w.published.map trimItem).length = w.count.toNat := by
    rw [length_map, length_published h]
  rw [published, trimWindow]
  exact take_itemArray h hLen

theorem contentWindowBytes_eq {v : CollectionContentWindow} (hRevision : v.revision = w.revision)
    (hWindow : v.window = w.window) (hCnt : v.count = w.count)
    (hItems : itemsBytes v.published = itemsBytes w.published) :
    contentWindowBytes v = contentWindowBytes w := by
  rw [contentWindowBytes, contentWindowBytes, contentWindowSize, contentWindowSize, hRevision,
    hWindow, hCnt, hItems]

theorem trimWindow_spec (h : contentWindowValid w = true) :
    (PlainWindow (trimWindow w) ∧ contentWindowValid (trimWindow w) = true) ∧
      contentWindowBytes (trimWindow w) = contentWindowBytes w := by
  have hParts := contentWindowParts h
  have hPub := published_trimWindow hParts.few
  have hItems := itemsBytes_map_trimItem hParts.labels
  have hRevision : (trimWindow w).revision = w.revision := by rw [trimWindow]
  have hWindow : (trimWindow w).window = w.window := by rw [trimWindow]
  have hCnt : (trimWindow w).count = w.count := by rw [trimWindow]
  refine ⟨⟨⟨?_, ?_⟩, ?_⟩, ?_⟩
  · rw [hPub, trimWindow]
  · rw [hPub]
    intro item hItem
    obtain ⟨original, hOriginal, rfl⟩ := mem_map.mp hItem
    exact plain_trimItem (hParts.labels original hOriginal)
  · rw [contentWindowValid] at h ⊢
    rw [hRevision, hWindow, hCnt, hPub]
    split_ifs at h with hBad hFlat
    have hTrimmed := itemsValid_map_trimItem h
    rw [map_nil] at hTrimmed
    rw [if_neg hBad, if_neg hFlat, hTrimmed]
  · exact contentWindowBytes_eq hRevision hWindow hCnt (by rw [hPub, hItems])

theorem trimChanges_spec (h : collectionChangeSetValid c = true) :
    (PlainChanges { c with changes := changeArray c.applied } ∧
      collectionChangeSetValid { c with changes := changeArray c.applied } = true) ∧
      changeSetBytes { c with changes := changeArray c.applied } = changeSetBytes c ∧
      applied { c with changes := changeArray c.applied } = c.applied := by
  have hCnt := count_le_of_valid h
  have hApplied : applied { c with changes := changeArray c.applied } =
      c.applied := take_changeArray hCnt (length_applied hCnt)
  refine ⟨⟨?_, ?_⟩, ?_, hApplied⟩
  · rw [PlainChanges, hApplied]
  · rw [collectionChangeSetValid] at h ⊢
    rw [hApplied]
    exact h
  · simp only [changeSetBytes, changeSetSize, hApplied]

end Enml.OsCollection
