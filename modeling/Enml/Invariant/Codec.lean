import Enml.OsIpc.Codec

/-! What the encoder and the decoder do at a place of the message: a write appends
to what has been written, and a read takes the front of what is still to come. -/
namespace Enml.OsIpc

open Enml.Core Buffer LittleEndian Call List

variable {maximum : Nat}

namespace Encoder

/-- The encoder over `out` after the bytes `done` have been written. -/
def wrote (out done : List UInt8) : Encoder where
  output := done ++ out.drop done.length
  cursor := done.length

theorem wrote_nil (out : List UInt8) : ({ output := out } : Encoder) = wrote out [] := rfl

theorem written_wrote (out done : List UInt8) : (wrote out done).written = done := by
  rw [written, wrote, take_left]

variable {out done : List UInt8}

theorem remaining_wrote (h : done.length ≤ out.length) :
    (wrote out done).remaining = out.length - done.length := by
  show (done ++ out.drop done.length).length - done.length = _
  rw [length_append, length_drop]
  omega

theorem ensureCapacity_wrote {count : Nat} (h : done.length + count ≤ out.length) :
    ensureCapacity count (wrote out done) = (wrote out done, .ok ()) := by
  rw [ensureCapacity, remaining_wrote (by omega), if_neg (by omega)]

theorem writeRaw_wrote {bytes : List UInt8} (h : done.length + bytes.length ≤ out.length) :
    writeRaw bytes (wrote out done) = (wrote out (done ++ bytes), .ok ()) := by
  have hWhole : ((range bytes.length).map fun i => spanByte bytes i) = bytes := by
    have hSlice : ((range bytes.length).map fun i => spanByte bytes (0 + i)) =
        slice bytes 0 bytes.length := map_spanByte (by omega)
    rw [slice_whole rfl] at hSlice
    simpa only [Nat.zero_add] using hSlice
  have hRoom : done.length + bytes.length ≤ (done ++ out.drop done.length).length := by
    rw [length_append, length_drop]
    omega
  have hAfter : wrote out (done ++ bytes) =
      { output := done ++ (bytes ++ out.drop (done.length + bytes.length))
        cursor := done.length + bytes.length } := by
    rw [wrote, length_append, append_assoc]
  rw [writeRaw, bind_of_ok (ensureCapacity_wrote h), hAfter]
  show (Encoder.mk (storeSpan (done ++ out.drop done.length) done.length _ _) _, _) = _
  rw [storeSpan, store_at hRoom, hWhole, take_left, drop_append,
    drop_of_length_le (by omega), nil_append, Nat.add_sub_cancel_left, drop_drop]
  rfl

theorem writeU16Le_wrote {value : UInt16} (h : done.length + 2 ≤ out.length) :
    writeU16Le value (wrote out done) = (wrote out (done ++ bytesOf 2 value.toNat), .ok ()) := by
  rw [writeU16Le, halves_mask]
  exact writeRaw_wrote (by rwa [length_bytesOf])

theorem writeU32Le_wrote {value : UInt32} (h : done.length + 4 ≤ out.length) :
    writeU32Le value (wrote out done) = (wrote out (done ++ bytesOf 4 value.toNat), .ok ()) := by
  rw [writeU32Le, map_shift_mask32]
  exact writeRaw_wrote (by rwa [length_bytesOf])

theorem writeU64Le_wrote {value : UInt64} (h : done.length + 8 ≤ out.length) :
    writeU64Le value (wrote out done) = (wrote out (done ++ bytesOf 8 value.toNat), .ok ()) := by
  rw [writeU64Le, map_shift_mask]
  exact writeRaw_wrote (by rwa [length_bytesOf])

/-- The write appends these bytes, and fails exactly if there is no room for them. -/
def Writes (w : Call Encoder Unit) (bytes : List UInt8) : Prop :=
  ∀ (out done : List UInt8) (e : Encoder), done.length ≤ out.length →
    (w (wrote out done) = (e, .ok ()) ↔
      done.length + bytes.length ≤ out.length ∧ e = wrote out (done ++ bytes))

theorem writes_raw (bytes : List UInt8) : Writes (writeRaw bytes) bytes := by
  intro out done e hDone
  by_cases hRoom : done.length + bytes.length ≤ out.length
  · rw [writeRaw_wrote hRoom]
    constructor
    · intro h
      cases h
      exact ⟨hRoom, rfl⟩
    · rintro ⟨-, rfl⟩
      rfl
  · have hFull : ensureCapacity bytes.length (wrote out done) =
        (wrote out done, .error (ipcError Errors.bufferTooSmall)) := by
      rw [ensureCapacity, remaining_wrote hDone, if_pos (by omega)]
    rw [writeRaw, bind_of_error hFull]
    exact iff_of_false nofun fun h => hRoom h.1

theorem writes_u8 (value : UInt8) : Writes (writeU8 value) [value] := writes_raw [value]

theorem writes_u16 (value : UInt16) : Writes (writeU16Le value) (bytesOf 2 value.toNat) := by
  rw [writeU16Le, halves_mask]
  exact writes_raw _

theorem writes_u32 (value : UInt32) : Writes (writeU32Le value) (bytesOf 4 value.toNat) := by
  rw [writeU32Le, map_shift_mask32]
  exact writes_raw _

theorem writes_u64 (value : UInt64) : Writes (writeU64Le value) (bytesOf 8 value.toNat) := by
  rw [writeU64Le, map_shift_mask]
  exact writes_raw _

theorem writes_pure : Writes (pure ()) [] := by
  intro out done e hDone
  rw [pure_apply, append_nil, length_nil, Nat.add_zero]
  constructor
  · intro h
    cases h
    exact ⟨hDone, rfl⟩
  · rintro ⟨-, rfl⟩
    rfl

variable {w v : Call Encoder Unit} {first second : List UInt8}

theorem Writes.bind (hw : Writes w first) (hv : Writes v second) :
    Writes (w >>= fun _ => v) (first ++ second) := by
  intro out done e hDone
  have hAfter : (done ++ first).length = done.length + first.length := length_append
  rw [Call.bind_eq_ok_iff, List.length_append, ← List.append_assoc]
  constructor
  · rintro ⟨u, ⟨⟩, hFirst, hSnd⟩
    obtain ⟨hRoom, rfl⟩ := (hw _ _ _ hDone).mp hFirst
    obtain ⟨hMore, rfl⟩ := (hv _ _ _ (by omega)).mp hSnd
    exact ⟨by omega, rfl⟩
  · rintro ⟨hRoom, rfl⟩
    exact ⟨_, (), (hw _ _ _ hDone).mpr ⟨by omega, rfl⟩, (hv _ _ _ (by omega)).mpr ⟨by omega, rfl⟩⟩

theorem Writes.ensured {condition : Bool} {e : Error} (h : condition = true)
    (hv : Writes v second) :
    Writes (ensure condition e >>= fun _ => v) second := by
  intro out done e' hDone
  rw [bind_of_ok (ensure_of_true h)]
  exact hv out done e' hDone

/-- Room for all of a write is asked for before it starts. -/
theorem Writes.roomy (hw : Writes w first) :
    Writes (ensureCapacity first.length >>= fun _ => w) first := by
  intro out done e hDone
  by_cases hRoom : done.length + first.length ≤ out.length
  · rw [bind_of_ok (ensureCapacity_wrote hRoom)]
    exact hw out done e hDone
  have hFull : ensureCapacity first.length (wrote out done) =
      (wrote out done, .error (ipcError Errors.bufferTooSmall)) := by
    rw [ensureCapacity, remaining_wrote hDone, if_pos (by omega)]
  rw [bind_of_error hFull]
  exact iff_of_false nofun fun h => hRoom h.1

/-- A string is its length in front of its bytes. -/
theorem writes_utf8 {value : List UInt8} (hValid : isValidUtf8 value = true)
    (hMax : value.length ≤ maximum) (hCnt : value.length < 2 ^ 32) :
    Writes (writeUtf8 value maximum) (bytesOf 4 value.length ++ value) := by
  intro out done e hDone
  have hFits :
      (!(decide (maximum < value.length) || decide (0xFFFFFFFF < value.length))) = true := by
    simp only [Bool.not_eq_true', Bool.or_eq_false_iff, decide_eq_false_iff_not]
    omega
  have hTotal : checkedAdd 4 value.length = .ok (4 + value.length) := by
    rw [checkedAdd, sizeMax, if_neg (by omega)]
  have hLen : (UInt32.ofNat value.length).toNat = value.length := Nat.mod_eq_of_lt hCnt
  have hBoth := ((writes_u32 (UInt32.ofNat value.length)).bind (writes_raw value)).roomy
  rw [hLen, length_append, length_bytesOf] at hBoth
  rw [writeUtf8, bind_of_ok (ensure_of_true hValid), writeBytes, bind_of_ok (ensure_of_true hFits),
    hTotal]
  exact hBoth out done e hDone

theorem writeUtf8_wrote {value : List UInt8} (hValid : isValidUtf8 value = true)
    (hMax : value.length ≤ maximum) (hCnt : value.length < 2 ^ 32)
    (hRoom : done.length + (4 + value.length) ≤ out.length) :
    writeUtf8 value maximum (wrote out done) =
      (wrote out (done ++ (bytesOf 4 value.length ++ value)), .ok ()) :=
  (writes_utf8 hValid hMax hCnt out done _ (by omega)).mpr
    ⟨by rwa [length_append, length_bytesOf], rfl⟩

end Encoder

namespace Decoder

/-- The decoder of `front ++ rest` with `front` read. -/
def between (front rest : List UInt8) : Decoder where
  input := front ++ rest
  cursor := front.length

variable {front rest : List UInt8}

theorem start_eq (input : List UInt8) : ({ input } : Decoder) = between [] input := rfl

@[simp] theorem remaining_between : (between front rest).remaining = rest.length := by
  show (front ++ rest).length - front.length = _
  rw [length_append, Nat.add_sub_cancel_left]

variable {bytes : List UInt8} {count : Nat} {d d' : Decoder} {value : UInt16}

theorem readRaw_between (h : bytes.length = count) :
    readRaw count (between front (bytes ++ rest)) = (between (front ++ bytes) rest, .ok bytes) := by
  have hFits : rangeFits (front ++ (bytes ++ rest)).length front.length count = true := by
    simp only [rangeFits, length_append, Bool.and_eq_true, decide_eq_true_eq]
    omega
  have hSlice : slice (front ++ (bytes ++ rest)) front.length count = bytes := by
    rw [slice_right (Nat.le_refl _), Nat.sub_self, slice_left h]
  rw [readRaw, between]
  simp only [hFits, Bool.not_true, Bool.false_eq_true, if_false, hSlice]
  rw [between, length_append, append_assoc, h]

/-- A raw read takes the front of what is left, or there is too little of it. -/
theorem readRaw_eq_ok_iff :
    readRaw count (between front rest) = (d, .ok bytes) ↔
      ∃ more, rest = bytes ++ more ∧ bytes.length = count ∧ d = between (front ++ bytes) more := by
  constructor
  · intro h
    by_cases hFits : count ≤ rest.length
    · have hSplit : rest = rest.take count ++ rest.drop count := (take_append_drop ..).symm
      have hLen : (rest.take count).length = count := by simp [hFits]
      rw [hSplit, readRaw_between hLen] at h
      cases h
      exact ⟨_, hSplit, hLen, rfl⟩
    · have hShort : rangeFits (front ++ rest).length front.length count = false := by
        simp only [rangeFits, length_append, Bool.and_eq_false_iff, decide_eq_false_iff_not]
        omega
      rw [readRaw, between] at h
      simp only [hShort, Bool.not_false, if_true] at h
      cases h
  · rintro ⟨more, rfl, hLen, rfl⟩
    exact readRaw_between hLen

theorem length_of_readRaw (h : readRaw count d = (d', .ok bytes)) : bytes.length = count := by
  rw [readRaw] at h
  split_ifs at h with hShort
  · cases h
  cases h
  simp only [rangeFits, Bool.not_eq_true', Bool.not_eq_false, Bool.and_eq_true,
    decide_eq_true_eq] at hShort
  exact length_slice (by omega)

/-- What a read of a number took was its bytes. -/
theorem readNumber_eq_ok_iff {α : Type} {size : Nat} {read : List UInt8 → α}
    {bytes : α → List UInt8}
    (hRead : ∀ field a, field.length = size → (field = bytes a ↔ read field = a))
    (hSize : ∀ a, (bytes a).length = size) (value : α) :
    (readRaw size >>= fun field => pure (read field)) (between front rest) = (d, .ok value) ↔
      ∃ more, rest = bytes value ++ more ∧ d = between (front ++ bytes value) more := by
  rw [Call.bind_eq_ok_iff]
  constructor
  · rintro ⟨u, field, hRaw, hPure⟩
    obtain ⟨more, rfl, hLen, rfl⟩ := readRaw_eq_ok_iff.mp hRaw
    cases hPure
    rw [← (hRead field _ hLen).mpr rfl]
    exact ⟨more, rfl, rfl⟩
  · rintro ⟨more, rfl, rfl⟩
    refine ⟨_, _, readRaw_between (hSize value), ?_⟩
    rw [(hRead _ value (hSize value)).mp rfl]
    rfl

theorem readU16Le_eq_ok_iff :
    readU16Le (between front rest) = (d, .ok value) ↔ ∃ more, rest = bytesOf 2 value.toNat ++ more ∧
        d = between (front ++ bytesOf 2 value.toNat) more :=
  readNumber_eq_ok_iff (fun _ a hLen => eq_u16_iff hLen a) (fun a => length_bytesOf 2 a.toNat) value

theorem readU16Le_between :
    readU16Le (between front (bytesOf 2 value.toNat ++ rest)) =
      (between (front ++ bytesOf 2 value.toNat) rest, .ok value) :=
  readU16Le_eq_ok_iff.mpr ⟨rest, rfl, rfl⟩

theorem readU32Le_eq_ok_iff {value : UInt32} :
    readU32Le (between front rest) = (d, .ok value) ↔ ∃ more, rest = bytesOf 4 value.toNat ++ more ∧
        d = between (front ++ bytesOf 4 value.toNat) more :=
  readNumber_eq_ok_iff (fun _ a hLen => eq_u32_iff hLen a) (fun a => length_bytesOf 4 a.toNat) value

theorem readU32Le_between {value : UInt32} :
    readU32Le (between front (bytesOf 4 value.toNat ++ rest)) =
      (between (front ++ bytesOf 4 value.toNat) rest, .ok value) :=
  readU32Le_eq_ok_iff.mpr ⟨rest, rfl, rfl⟩

theorem readU64Le_eq_ok_iff {value : UInt64} :
    readU64Le (between front rest) = (d, .ok value) ↔ ∃ more, rest = bytesOf 8 value.toNat ++ more ∧
        d = between (front ++ bytesOf 8 value.toNat) more :=
  readNumber_eq_ok_iff (fun _ a hLen => eq_u64_iff hLen a) (fun a => length_bytesOf 8 a.toNat) value

theorem readU64Le_between {value : UInt64} :
    readU64Le (between front (bytesOf 8 value.toNat ++ rest)) =
      (between (front ++ bytesOf 8 value.toNat) rest, .ok value) :=
  readU64Le_eq_ok_iff.mpr ⟨rest, rfl, rfl⟩

theorem readUtf8_between {value : List UInt8} (hValid : isValidUtf8 value = true)
    (hMax : value.length ≤ maximum) (hCnt : value.length < 2 ^ 32) :
    readUtf8 maximum (between front (bytesOf 4 value.length ++ value ++ rest)) =
      (between (front ++ (bytesOf 4 value.length ++ value)) rest, .ok value) := by
  have hLen : (UInt32.ofNat value.length).toNat = value.length := Nat.mod_eq_of_lt hCnt
  have hRead : readU32Le (between front (bytesOf 4 value.length ++ (value ++ rest))) =
      (between (front ++ bytesOf 4 value.length) (value ++ rest),
        .ok (UInt32.ofNat value.length)) := by
    conv_lhs => rw [← hLen]
    rw [readU32Le_between, hLen]
  have hFits : (!decide (maximum < (UInt32.ofNat value.length).toNat)) = true := by
    rw [hLen]
    simpa using hMax
  have hBytes : readBytes maximum (between front (bytesOf 4 value.length ++ (value ++ rest))) =
      (between (front ++ bytesOf 4 value.length ++ value) rest, .ok value) := by
    rw [readBytes, bind_of_ok hRead, bind_of_ok (ensure_of_true hFits), readRaw_between hLen.symm]
  rw [readUtf8, append_assoc, bind_of_ok hBytes, bind_of_ok (ensure_of_true hValid), append_assoc]
  rfl

/-- Whatever the bytes are, a string that is read is UTF-8 within its bound. -/
theorem valid_of_readUtf8 {value : List UInt8} (h : readUtf8 maximum d = (d', .ok value)) :
    isValidUtf8 value = true ∧ value.length ≤ maximum := by
  rw [readUtf8, Call.bind_eq_ok_iff] at h
  obtain ⟨u, bytes, hBytes, h⟩ := h
  rw [Call.bind_eq_ok_iff] at h
  obtain ⟨u', ⟨⟩, hEnsure, h⟩ := h
  obtain ⟨rfl, hValid⟩ := ensure_eq_ok_iff.mp hEnsure
  cases h
  rw [readBytes, Call.bind_eq_ok_iff] at hBytes
  obtain ⟨v, length, -, hBytes⟩ := hBytes
  rw [Call.bind_eq_ok_iff] at hBytes
  obtain ⟨v', ⟨⟩, hEnsure, hRaw⟩ := hBytes
  obtain ⟨rfl, hBound⟩ := ensure_eq_ok_iff.mp hEnsure
  refine ⟨hValid, ?_⟩
  have hLen := length_of_readRaw hRaw
  simp only [Bool.not_eq_true', decide_eq_false_iff_not] at hBound
  omega

/-- The read takes some bytes from the front, and `P` says which bytes stand for what. -/
def Reads {α : Type} (r : Call Decoder α) (P : α → List UInt8 → Prop) : Prop :=
  ∀ (front rest : List UInt8) (d : Decoder) (a : α), r (between front rest) = (d, .ok a) ↔
      ∃ bytes more, P a bytes ∧ rest = bytes ++ more ∧ d = between (front ++ bytes) more

/-- The same of a read that takes all there is. -/
def Closes {α : Type} (r : Call Decoder α) (P : α → List UInt8 → Prop) : Prop :=
  ∀ (front rest : List UInt8) (d : Decoder) (a : α),
    r (between front rest) = (d, .ok a) ↔ P a rest ∧ d = between (front ++ rest) []

section

variable {α β : Type} {r : Call Decoder α} {f : α → Call Decoder β}
  {P : α → List UInt8 → Prop} {Q : α → β → List UInt8 → Prop}

theorem Closes.payload_iff (h : Closes r P) {payload : List UInt8} {a : α} :
    (r { input := payload }).2 = .ok a ↔ P a payload := by
  constructor
  · intro hRead
    have hPair : r (between [] payload) = ((r { input := payload }).1, .ok a) := by
      rw [← hRead]
      rfl
    exact ((h _ _ _ _).mp hPair).1
  · intro hP
    have hPair : r (between [] payload) = (between ([] ++ payload) [], .ok a) :=
      (h _ _ _ _).mpr ⟨hP, rfl⟩
    exact congrArg Prod.snd hPair

theorem Reads.congr {P' : α → List UInt8 → Prop} (h : Reads r P)
    (hSame : ∀ a bytes, P a bytes ↔ P' a bytes) : Reads r P' := by
  intro front rest d a
  rw [h]
  simp only [hSame]

theorem Closes.congr (h : Closes r P) (P' : α → List UInt8 → Prop)
    (hSame : ∀ a bytes, P a bytes ↔ P' a bytes) : Closes r P' := by
  intro front rest d a
  rw [h, hSame]

theorem reads_pure (a : α) : Reads (pure a) fun b bytes => b = a ∧ bytes = [] := by
  intro front rest d b
  rw [pure_apply]
  constructor
  · intro h
    cases h
    exact ⟨[], rest, ⟨rfl, rfl⟩, rfl, by rw [append_nil]⟩
  · rintro ⟨_, more, ⟨rfl, rfl⟩, rfl, rfl⟩
    rw [append_nil]

theorem reads_ensure (condition : Bool) (e : Error) :
    Reads (Call.ensure condition e) fun _ bytes => condition = true ∧ bytes = [] := by
  intro front rest d a
  rw [Call.ensure_eq_ok_iff]
  constructor
  · rintro ⟨rfl, hTrue⟩
    exact ⟨[], rest, ⟨hTrue, rfl⟩, rfl, by rw [append_nil]⟩
  · rintro ⟨_, more, ⟨hTrue, rfl⟩, rfl, rfl⟩
    exact ⟨by rw [append_nil], hTrue⟩

theorem Reads.bind (h : Reads r P) (hf : ∀ a, Reads (f a) (Q a)) :
    Reads (r >>= f) fun b bytes => ∃ a x y, P a x ∧ Q a b y ∧ bytes = x ++ y := by
  intro front rest d b
  rw [Call.bind_eq_ok_iff]
  constructor
  · rintro ⟨u, a, hFirst, hSnd⟩
    obtain ⟨x, more, hx, rfl, rfl⟩ := (h _ _ _ _).mp hFirst
    obtain ⟨y, more, hy, rfl, rfl⟩ := (hf a _ _ _ _).mp hSnd
    exact ⟨x ++ y, more, ⟨a, x, y, hx, hy, rfl⟩, by simp, by simp⟩
  · rintro ⟨_, more, ⟨a, x, y, hx, hy, rfl⟩, rfl, rfl⟩
    refine ⟨between (front ++ x) (y ++ more), a, (h _ _ _ _).mpr ⟨x, _, hx, by simp, rfl⟩, ?_⟩
    exact (hf a _ _ _ _).mpr ⟨y, more, hy, rfl, by simp⟩

theorem Reads.close (h : Reads r P) (hf : ∀ a, Closes (f a) (Q a)) :
    Closes (r >>= f) fun b bytes => ∃ a x y, P a x ∧ Q a b y ∧ bytes = x ++ y := by
  intro front rest d b
  rw [Call.bind_eq_ok_iff]
  constructor
  · rintro ⟨u, a, hFirst, hSnd⟩
    obtain ⟨x, y, hx, rfl, rfl⟩ := (h _ _ _ _).mp hFirst
    obtain ⟨hy, rfl⟩ := (hf a _ _ _ _).mp hSnd
    exact ⟨⟨a, x, y, hx, hy, rfl⟩, by simp⟩
  · rintro ⟨⟨a, x, y, hx, hy, rfl⟩, rfl⟩
    refine ⟨between (front ++ x) y, a, (h _ _ _ _).mpr ⟨x, y, hx, rfl, rfl⟩, ?_⟩
    exact (hf a _ _ _ _).mpr ⟨hy, by simp⟩

/-- A field that has one encoding, with more to be read behind it. -/
theorem Reads.part {code : α → List UInt8} (h : Reads r fun a bytes => bytes = code a)
    (hf : ∀ a, Reads (f a) (Q a)) :
    Reads (r >>= f) fun b bytes => ∃ a more, Q a b more ∧ bytes = code a ++ more := by
  refine (h.bind hf).congr fun b bytes => ?_
  simp

theorem Reads.field {code : α → List UInt8} (h : Reads r fun a bytes => bytes = code a)
    (hf : ∀ a, Closes (f a) (Q a)) :
    Closes (r >>= f) fun b bytes => ∃ a more, Q a b more ∧ bytes = code a ++ more := by
  refine (h.close hf).congr _ fun b bytes => ?_
  simp

variable {g : Call Decoder β} {R : β → List UInt8 → Prop}

theorem Reads.ensured (h : Reads g R) (condition : Bool) (e : Error) :
    Reads (ensure condition e >>= fun _ => g) fun b bytes => condition = true ∧ R b bytes := by
  intro front rest d b
  cases condition with
  | false => exact iff_of_false nofun fun ⟨_, _, h, _⟩ => nomatch h.1
  | true =>
    rw [bind_of_ok (ensure_of_true rfl), h]
    simp

theorem Closes.ensured (h : Closes g R) (condition : Bool) (e : Error) :
    Closes (ensure condition e >>= fun _ => g)
      fun b bytes => condition = true ∧ R b bytes := by
  intro front rest d b
  cases condition with
  | false => exact iff_of_false nofun fun h => nomatch h.1.1
  | true =>
    rw [bind_of_ok (ensure_of_true rfl), h]
    simp

end

theorem reads_u8 : Reads readU8 fun value bytes => bytes = [value] := by
  intro front rest d value
  cases rest with
  | nil =>
    have hShort : (between front []).remaining < 1 := by simp
    rw [readU8, if_pos hShort]
    exact iff_of_false nofun (by simp)
  | cons head rest =>
    have hRoom : ¬(between front (head :: rest)).remaining < 1 := by simp
    have hHead : spanByte (front ++ head :: rest) front.length = head := by simp [spanByte]
    have hNext : Decoder.mk (front ++ head :: rest) (front.length + 1) =
        between (front ++ [head]) rest := by simp [between]
    have hRead : readU8 (between front (head :: rest)) =
        (between (front ++ [head]) rest, .ok head) := by
      rw [readU8, if_neg hRoom, ← hNext]
      exact congrArg (fun value => (Decoder.mk _ _, Except.ok value)) hHead
    rw [hRead]
    constructor
    · intro h
      cases h
      exact ⟨[value], rest, rfl, rfl, rfl⟩
    · rintro ⟨_, more, rfl, hRest, rfl⟩
      cases hRest
      rfl

theorem reads_u16 : Reads readU16Le fun value bytes => bytes = bytesOf 2 value.toNat := by
  intro front rest d value
  rw [readU16Le_eq_ok_iff]
  simp

theorem reads_u32 : Reads readU32Le fun value bytes => bytes = bytesOf 4 value.toNat := by
  intro front rest d value
  rw [readU32Le_eq_ok_iff]
  simp

theorem reads_u64 : Reads readU64Le fun value bytes => bytes = bytesOf 8 value.toNat := by
  intro front rest d value
  rw [readU64Le_eq_ok_iff]
  simp

theorem reads_raw (count : Nat) :
    Reads (readRaw count) fun value bytes => bytes = value ∧ value.length = count := by
  intro front rest d value
  rw [readRaw_eq_ok_iff]
  constructor
  · rintro ⟨more, hRest, hLen, hNext⟩
    exact ⟨value, more, ⟨rfl, hLen⟩, hRest, hNext⟩
  · rintro ⟨_, more, ⟨rfl, hLen⟩, hRest, hNext⟩
    exact ⟨more, hRest, hLen, hNext⟩

/-- A string is its length in front of its bytes. -/
theorem reads_utf8 (hMax : maximum < 2 ^ 32) :
    Reads (readUtf8 maximum) fun value bytes => isValidUtf8 value = true ∧
      value.length ≤ maximum ∧ bytes = bytesOf 4 value.length ++ value := by
  have hBytes : Reads (readBytes maximum) fun value bytes =>
      value.length ≤ maximum ∧ bytes = bytesOf 4 value.length ++ value := by
    refine (reads_u32.part fun length =>
      (reads_raw length.toNat).ensured _ _).congr fun value bytes => ?_
    constructor
    · rintro ⟨length, _, ⟨hBound, rfl, hLen⟩, rfl⟩
      simp only [Bool.not_eq_true', decide_eq_false_iff_not, Nat.not_lt] at hBound
      rw [hLen]
      exact ⟨hBound, rfl⟩
    rintro ⟨hBound, rfl⟩
    have hLen : (UInt32.ofNat value.length).toNat = value.length := Nat.mod_eq_of_lt (by omega)
    refine ⟨UInt32.ofNat value.length, _, ⟨?_, rfl, hLen.symm⟩, by rw [hLen]⟩
    rw [hLen]
    simpa using hBound
  refine (hBytes.bind fun value => (reads_pure value).ensured _ _).congr fun value bytes => ?_
  constructor
  · rintro ⟨_, _, _, ⟨hBound, rfl⟩, ⟨hValid, rfl, rfl⟩, rfl⟩
    exact ⟨hValid, hBound, by simp⟩
  · rintro ⟨hValid, hBound, rfl⟩
    exact ⟨value, _, [], ⟨hBound, rfl⟩, ⟨hValid, rfl, rfl⟩, by simp⟩

end Decoder

end Enml.OsIpc
