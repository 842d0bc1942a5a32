import Enml.Invariant.Codec
import Enml.Invariant.Compiler
import Enml.Osidlc.Codec

/-! The codecs that `osidlc` generates: what one struct encodes it decodes, and a
struct with fields appended to it reads the messages of the shorter one and is
read by it. Both follow from the layout of a message, the fields one after the
other behind their total size. -/
namespace Enml.Osidlc

open Enml.Core Enml.OsIpc LittleEndian Decoder List Encoder Call

/-- A string is UTF-8 within its declared bound. -/
def FieldType.Admits : (type : FieldType) → type.Carrier → Prop
  | .u32, _ => True
  | .u64, _ => True
  | .string maximum, (value : List UInt8) => isValidUtf8 value = true ∧ value.length ≤ maximum

namespace Members

def Admitted : (fields : List FieldDecl) → Members fields → Prop
  | [], _ => True
  | field :: rest, (value, more) => field.type.Admits value ∧ Admitted rest more

/-- The members of the fields in front. -/
def restrict : (fields more : List FieldDecl) → Members (fields ++ more) → Members fields
  | [], _, _ => ()
  | _ :: rest, more, (value, others) => (value, restrict rest more others)

/-- The members with those of further fields at their initialisers. -/
def extend : (fields more : List FieldDecl) → Members fields → Members (fields ++ more)
  | [], more, _ => initial more
  | _ :: rest, more, (value, others) => (value, extend rest more others)

end Members

open Members

def StructDecl.append (decl : StructDecl) (more : List FieldDecl) : StructDecl :=
  { decl with fields := decl.fields ++ more }

/-- The value that one struct encodes into a buffer of its largest size is
decoded by the other as the value it receives. -/
def Delivers (sender receiver : StructDecl) (value : Members sender.fields)
    (received : Members receiver.fields) : Prop :=
  ∀ buffer : List UInt8, buffer.length = structMaxWireSize sender →
    ∃ encoder, encode sender value { output := buffer } = (encoder, .ok ()) ∧
      (decode receiver { input := encoder.written }).2 = .ok received

def fieldBytes : (type : FieldType) → type.Carrier → List UInt8
  | .u32, (value : UInt32) => bytesOf 4 value.toNat
  | .u64, (value : UInt64) => bytesOf 8 value.toNat
  | .string _, (value : List UInt8) => bytesOf 4 value.length ++ value

def bodyBytes : (fields : List FieldDecl) → Members fields → List UInt8
  | [], _ => []
  | field :: rest, (value, more) => fieldBytes field.type value ++ bodyBytes rest more

def messageBytes (fields : List FieldDecl) (value : Members fields) : List UInt8 :=
  bytesOf 4 (bodyBytes fields value).length ++ bodyBytes fields value

theorem length_fieldBytes_string (maximum : Nat) (value : List UInt8) :
    (fieldBytes (.string maximum) value).length = 4 + value.length := by
  rw [fieldBytes, length_append, length_bytesOf]

theorem length_fieldBytes_pos (type : FieldType) (value : type.Carrier) :
    0 < (fieldBytes type value).length := by
  cases type with
  | u32 | u64 => simp [fieldBytes]
  | string maximum =>
    have hLen := length_fieldBytes_string maximum value
    omega

theorem length_fieldBytes_le {field : FieldDecl} {value : field.type.Carrier}
    (h : field.type.Admits value) :
    (fieldBytes field.type value).length ≤ fieldMaxWireSize field := by
  obtain ⟨name, type, id⟩ := field
  cases type with
  | u32 | u64 => simp [fieldBytes, fieldMaxWireSize]
  | string maximum =>
    have hLen := length_fieldBytes_string maximum value
    have hBound := h.2
    show (fieldBytes (.string maximum) value).length ≤ 4 + maximum
    omega

variable {fields more : List FieldDecl} {bodySize : Nat} {type : FieldType}
  {out done front rest : List UInt8} {decl : StructDecl} {d d' : Decoder} {value : Members fields}

theorem length_bodyBytes_le (h : Members.Admitted fields value) :
    (bodyBytes fields value).length ≤ (fields.map fieldMaxWireSize).sum := by
  induction fields with
  | nil => exact Nat.zero_le _
  | cons _ _ ih =>
    obtain ⟨first, more⟩ := value
    have hFirst := length_fieldBytes_le h.1
    have hMore := ih h.2
    rw [bodyBytes, length_append, map_cons, sum_cons]
    omega

/-- The fields in front are laid out in front. -/
theorem bodyBytes_restrict (fields more : List FieldDecl) (value : Members (fields ++ more)) :
    ∃ tail, bodyBytes (fields ++ more) value =
      bodyBytes fields (restrict fields more value) ++ tail := by
  induction fields with
  | nil => exact ⟨_, rfl⟩
  | cons field rest ih =>
    obtain ⟨first, others⟩ := value
    obtain ⟨tail, hTail⟩ := ih others
    refine ⟨tail, ?_⟩
    show fieldBytes field.type first ++ bodyBytes (rest ++ more) others = _
    rw [hTail, restrict, bodyBytes, append_assoc]

theorem admitted_restrict {value : Members (fields ++ more)}
    (h : Members.Admitted (fields ++ more) value) :
    Members.Admitted fields (restrict fields more value) := by
  induction fields with
  | nil => trivial
  | cons _ _ ih =>
    obtain ⟨first, others⟩ := value
    exact ⟨h.1, ih h.2⟩

theorem checkedAdd_eq_ok {a b : Nat} (h : a + b ≤ sizeMax) : checkedAdd a b = .ok (a + b) := by
  rw [checkedAdd, if_neg (by omega)]

/-- The size of a field as the generated code adds it up is the size of its
bytes. -/
theorem addFieldSize_eq_ok {value : type.Carrier} (hAdmits : type.Admits value)
    (hSize : bodySize + (fieldBytes type value).length ≤ sizeMax) :
    addFieldSize bodySize type value = .ok (bodySize + (fieldBytes type value).length) := by
  cases type with
  | u32 =>
    have hLen : (fieldBytes .u32 value).length = 4 := length_bytesOf ..
    rw [hLen] at hSize ⊢
    rw [addFieldSize, checkedAdd_eq_ok hSize]
    rfl
  | u64 =>
    have hLen : (fieldBytes .u64 value).length = 8 := length_bytesOf ..
    rw [hLen] at hSize ⊢
    rw [addFieldSize, checkedAdd_eq_ok hSize]
    rfl
  | string maximum =>
    have hBound := hAdmits.2
    have hLen := length_fieldBytes_string maximum value
    rw [hLen] at hSize ⊢
    have hStep : addFieldSize bodySize (.string maximum) value =
        (addFieldSize.widen (checkedAdd 4 (length value)) >>= fun size =>
          addFieldSize.widen (checkedAdd bodySize size)) :=
      if_neg (by omega)
    rw [hStep, checkedAdd_eq_ok (by omega)]
    show addFieldSize.widen (checkedAdd bodySize (4 + length value)) = _
    rw [checkedAdd_eq_ok hSize]
    rfl

theorem addSizes_eq_ok (hAdmitted : Members.Admitted fields value)
    (hSize : bodySize + (bodyBytes fields value).length ≤ sizeMax) :
    addSizes bodySize fields value = .ok (bodySize + (bodyBytes fields value).length) := by
  induction fields generalizing bodySize with
  | nil => rfl
  | cons _ rest ih =>
    obtain ⟨first, more⟩ := value
    rw [bodyBytes, length_append] at hSize ⊢
    rw [addSizes, addFieldSize_eq_ok hAdmitted.1 (by omega)]
    show addSizes _ rest more = _
    rw [ih hAdmitted.2 (by omega), Nat.add_assoc]

theorem writeField_wrote {value : type.Carrier} (hAdmits : type.Admits value)
    (hSmall : (fieldBytes type value).length < 2 ^ 32)
    (hRoom : done.length + (fieldBytes type value).length ≤ out.length) :
    writeField type value (wrote out done) =
      (wrote out (done ++ fieldBytes type value), .ok ()) := by
  cases type with
  | u32 =>
    have hLen : (fieldBytes .u32 value).length = 4 := length_bytesOf ..
    exact writeU32Le_wrote (by omega)
  | u64 =>
    have hLen : (fieldBytes .u64 value).length = 8 := length_bytesOf ..
    exact writeU64Le_wrote (by omega)
  | string maximum =>
    have hLen := length_fieldBytes_string maximum value
    rw [hLen] at hRoom hSmall
    exact writeUtf8_wrote hAdmits.1 hAdmits.2 (by omega) hRoom

theorem writeFields_wrote (hAdmitted : Members.Admitted fields value)
    (hSmall : (bodyBytes fields value).length < 2 ^ 32)
    (hRoom : done.length + (bodyBytes fields value).length ≤ out.length) :
    writeFields fields value (wrote out done) =
      (wrote out (done ++ bodyBytes fields value), .ok ()) := by
  induction fields generalizing done with
  | nil => rw [bodyBytes, append_nil, writeFields, pure_apply]
  | cons _ _ ih =>
    obtain ⟨first, more⟩ := value
    rw [bodyBytes, length_append] at hSmall hRoom
    rw [writeFields, bind_of_ok (writeField_wrote hAdmitted.1 (by omega) (by omega)),
      ih hAdmitted.2 (by omega) (by rw [length_append]; omega), bodyBytes,
      append_assoc]

/-- A struct within the size limit is encoded into any buffer of its largest
size. -/
theorem encode_eq_ok {value : Members decl.fields} {buffer : List UInt8}
    (hAdmitted : Members.Admitted decl.fields value)
    (hLimit : structMaxWireSize decl ≤ maxInlinePayload)
    (hBuf : buffer.length = structMaxWireSize decl) :
    encode decl value { output := buffer } =
      (wrote buffer (messageBytes decl.fields value), .ok ()) := by
  have hBody := length_bodyBytes_le hAdmitted
  rw [structMaxWireSize_eq] at hLimit hBuf
  have hMax : maxInlinePayload = 65536 := rfl
  have hRoom : (wrote buffer []).remaining = buffer.length := remaining_wrote (Nat.zero_le _)
  have hSize : sizeCalculation decl.fields value (wrote buffer []) =
      (wrote buffer [], .ok (bodyBytes decl.fields value).length) := by
    have hAdd : addSizes 0 decl.fields value = .ok (0 + (bodyBytes decl.fields value).length) :=
      addSizes_eq_ok hAdmitted (by rw [sizeMax]; omega)
    rw [Nat.zero_add] at hAdd
    refine Prod.ext rfl (ok_bind hAdd ?_)
    rw [checkedAdd_eq_ok (by rw [sizeMax]; omega)]
    simp only
    rw [if_neg (by rw [maxInlinePayloadSize]; omega), if_neg (by omega)]
  have hCnt : (UInt32.ofNat (bodyBytes decl.fields value).length).toNat =
      (bodyBytes decl.fields value).length := Nat.mod_eq_of_lt (by omega)
  rw [encode, wrote_nil, bind_of_ok hSize,
    bind_of_ok (writeU32Le_wrote (by rw [length_nil]; omega)), hCnt,
    writeFields_wrote hAdmitted (by omega), messageBytes, nil_append]
  rw [nil_append, length_bytesOf]
  omega

theorem readField_between {value : type.Carrier} (hAdmits : type.Admits value)
    (hSmall : (fieldBytes type value).length < 2 ^ 32) :
    readField type (between front (fieldBytes type value ++ rest)) =
      (between (front ++ fieldBytes type value) rest, .ok value) := by
  cases type with
  | u32 => exact readU32Le_between
  | u64 => exact readU64Le_between
  | string maximum =>
    have hLen := length_fieldBytes_string maximum value
    exact readUtf8_between hAdmits.1 hAdmits.2 (by omega)

/-- No field is empty on the wire, so the test for the end of the body cannot
take a field that is there for one that is missing. -/
theorem readPresent_between {value : type.Carrier} (hAdmits : type.Admits value)
    (hSmall : (fieldBytes type value).length < 2 ^ 32) :
    readPresent type (between front (fieldBytes type value ++ rest)) =
      (between (front ++ fieldBytes type value) rest, .ok value) := by
  have hSome := length_fieldBytes_pos type value
  rw [readPresent, remaining_between, if_pos, readField_between hAdmits hSmall]
  rw [length_append]
  omega

theorem readFields_nothing (fields : List FieldDecl) (front : List UInt8) :
    readFields fields (between front []) =
      (between front [], .ok (initial fields)) := by
  induction fields with
  | nil => rfl
  | cons field _ ih =>
    have hMissing : readPresent field.type (between front []) =
        (between front [], .ok field.type.initial) := by
      rw [readPresent, remaining_between, if_neg (by simp)]
    rw [readFields, bind_of_ok hMissing, bind_of_ok ih]
    rfl

/-- The fields are read back from in front of whatever follows them. -/
theorem readFields_between (hAdmitted : Members.Admitted fields value)
    (hSmall : (bodyBytes fields value).length < 2 ^ 32) :
    readFields fields (between front (bodyBytes fields value ++ rest)) =
      (between (front ++ bodyBytes fields value) rest, .ok value) := by
  induction fields generalizing front with
  | nil =>
    rw [bodyBytes, append_nil, nil_append]
    rfl
  | cons _ _ ih =>
    obtain ⟨first, more⟩ := value
    rw [bodyBytes, length_append] at hSmall
    rw [bodyBytes, readFields, append_assoc,
      bind_of_ok (readPresent_between hAdmitted.1 (by omega)),
      bind_of_ok (ih hAdmitted.2 (by omega)), append_assoc]
    rfl

/-- Where the body ends early, the fields after it stay as they are
initialised. -/
theorem readFields_extend (hAdmitted : Members.Admitted fields value)
    (hSmall : (bodyBytes fields value).length < 2 ^ 32) :
    readFields (fields ++ more) (between front (bodyBytes fields value)) =
      (between (front ++ bodyBytes fields value) [],
        .ok (extend fields more value)) := by
  induction fields generalizing front with
  | nil =>
    rw [bodyBytes, append_nil]
    exact readFields_nothing more front
  | cons field others ih =>
    obtain ⟨first, rest⟩ := value
    rw [bodyBytes, length_append] at hSmall
    rw [bodyBytes]
    show (readPresent field.type >>= fun value => readFields (others ++ more) >>= fun rest =>
      pure (value, rest)) _ = _
    rw [bind_of_ok (readPresent_between hAdmitted.1 (by omega)),
      bind_of_ok (ih hAdmitted.2 (by omega)), append_assoc]
    rfl

/-- A struct reads the fields from the body of a message that fits a packet. -/
theorem decode_message {body : List UInt8} (hSmall : body.length ≤ maxInlinePayloadSize) :
    (decode decl { input := bytesOf 4 body.length ++ body }).2 =
      (readFields decl.fields (between [] body)).2 := by
  have hCnt : (UInt32.ofNat body.length).toNat = body.length :=
    Nat.mod_eq_of_lt (by rw [maxInlinePayloadSize] at hSmall; omega)
  have hSize : readU32Le (between [] (bytesOf 4 body.length ++ body)) =
      (between (bytesOf 4 body.length) body, .ok (UInt32.ofNat body.length)) := by
    conv_lhs => rw [← hCnt]
    rw [readU32Le_between, hCnt, nil_append]
  have hFits : (!decide (maxInlinePayloadSize < (UInt32.ofNat body.length).toNat)) = true := by
    rw [hCnt]
    simpa using hSmall
  have hRaw : readRaw (UInt32.ofNat body.length).toNat (between (bytesOf 4 body.length) body) =
        (between (bytesOf 4 body.length ++ body) [], .ok body) := by
    have hRest : between (bytesOf 4 body.length) body =
        between (bytesOf 4 body.length) (body ++ []) := by rw [append_nil]
    rw [hRest, readRaw_between hCnt.symm]
  have hEnd : requireEnd (between (bytesOf 4 body.length ++ body) []) =
      (between (bytesOf 4 body.length ++ body) [], .ok ()) := by
    rw [requireEnd, remaining_between, if_neg (by simp)]
  rw [start_eq, decode, bind_of_ok hSize, bind_of_ok (ensure_of_true hFits),
    bind_of_ok hRaw, bind_of_ok hEnd]
  rfl

theorem admits_of_readPresent {value : type.Carrier} (h : readPresent type d = (d', .ok value)) :
    type.Admits value := by
  cases type with
  | u32 | u64 => trivial
  | string =>
    rw [readPresent] at h
    split_ifs at h with hSome
    · exact valid_of_readUtf8 h
    · cases h
      exact ⟨rfl, Nat.zero_le _⟩

theorem admitted_of_readFields
    (h : readFields fields d = (d', .ok value)) : Members.Admitted fields value := by
  induction fields generalizing d with
  | nil => trivial
  | cons _ _ ih =>
    rw [readFields, Call.bind_eq_ok_iff] at h
    obtain ⟨u, first, hFirst, h⟩ := h
    rw [Call.bind_eq_ok_iff] at h
    obtain ⟨v, more, hMore, h⟩ := h
    cases h
    exact ⟨admits_of_readPresent hFirst, ih hMore⟩

theorem admitted_of_decode {value : Members decl.fields} (h : decode decl d = (d', .ok value)) :
    Members.Admitted decl.fields value := by
  rw [decode, Call.bind_eq_ok_iff] at h
  obtain ⟨d1, bodySize, -, h⟩ := h
  rw [Call.bind_eq_ok_iff] at h
  obtain ⟨d2, ⟨⟩, -, h⟩ := h
  rw [Call.bind_eq_ok_iff] at h
  obtain ⟨d3, bytes, -, h⟩ := h
  rw [Call.bind_eq_ok_iff] at h
  obtain ⟨d4, ⟨⟩, -, h⟩ := h
  have hBody : (readFields decl.fields { input := bytes }).2 = .ok value := congrArg Prod.snd h
  cases hRun : readFields decl.fields { input := bytes } with
  | mk _ result =>
    rw [hRun] at hBody
    obtain rfl : result = .ok value := hBody
    exact admitted_of_readFields hRun

/-- A message of the sender is received as whatever the receiver reads from its
body. -/
theorem delivers_of_readFields {sender receiver : StructDecl} {value : Members sender.fields}
    {received : Members receiver.fields} (hAdmitted : Members.Admitted sender.fields value)
    (hLimit : structMaxWireSize sender ≤ maxInlinePayload)
    (hRead : (bodyBytes sender.fields value).length < 2 ^ 32 →
      (readFields receiver.fields (between [] (bodyBytes sender.fields value))).2 = .ok received) :
    Delivers sender receiver value received := by
  intro buffer hBuf
  have hMax : maxInlinePayload = maxInlinePayloadSize := rfl
  have hBody := length_bodyBytes_le hAdmitted
  have hTotal := structMaxWireSize_eq sender
  have hSmall : (bodyBytes sender.fields value).length ≤ maxInlinePayloadSize := by omega
  refine ⟨_, encode_eq_ok hAdmitted hLimit hBuf, ?_⟩
  rw [written_wrote, messageBytes, decode_message hSmall]
  rw [maxInlinePayloadSize] at hSmall
  exact hRead (by omega)

theorem delivers_restrict {value : Members (decl.fields ++ more)}
    (hAdmitted : Members.Admitted (decl.fields ++ more) value)
    (hLimit : structMaxWireSize (decl.append more) ≤ maxInlinePayload) :
    Delivers (decl.append more) decl value (restrict decl.fields more value) := by
  refine delivers_of_readFields hAdmitted hLimit fun hSmall => ?_
  obtain ⟨tail, hTail⟩ := bodyBytes_restrict decl.fields more value
  show (readFields decl.fields (between [] (bodyBytes (decl.fields ++ more) value))).2 = _
  have hFront : (bodyBytes decl.fields (restrict decl.fields more value)).length < 2 ^ 32 := by
    have hWhole : (bodyBytes (decl.fields ++ more) value).length < 2 ^ 32 := hSmall
    rw [hTail, length_append] at hWhole
    omega
  rw [hTail, readFields_between (admitted_restrict hAdmitted) hFront]

theorem delivers_extend {value : Members decl.fields}
    (hAdmitted : Members.Admitted decl.fields value)
    (hLimit : structMaxWireSize decl ≤ maxInlinePayload) :
    Delivers decl (decl.append more) value (extend decl.fields more value) := by
  refine delivers_of_readFields hAdmitted hLimit fun hSmall => ?_
  show (readFields (decl.fields ++ more) _).2 = _
  rw [readFields_extend hAdmitted hSmall]
  rfl

theorem delivers_same {value : Members decl.fields} (hAdmitted : Members.Admitted decl.fields value)
    (hLimit : structMaxWireSize decl ≤ maxInlinePayload) : Delivers decl decl value value := by
  refine delivers_of_readFields hAdmitted hLimit fun hSmall => ?_
  rw [← append_nil (bodyBytes decl.fields value), readFields_between hAdmitted hSmall]

/-- The codec of every struct of an accepted schema: a value is encoded into a
buffer of the generated size and decoded as it was; with fields of larger ids
appended, each version reads the messages of the other; and what is decoded from
any bytes respects the bounds of the strings. -/
theorem generated_codec_contract {source : Text} {schema : Schema} {decl : StructDecl}
    (hSrc : compileText source = .ok schema) (hDecl : decl ∈ schema.structs) :
    (∀ value, Members.Admitted decl.fields value → Delivers decl decl value value) ∧
    (∀ more : List FieldDecl, (∀ field ∈ decl.fields, ∀ added ∈ more, field.id < added.id) →
      structMaxWireSize (decl.append more) ≤ maxInlinePayload →
        (∀ value, Members.Admitted (decl.fields ++ more) value →
          Delivers (decl.append more) decl value (restrict decl.fields more value)) ∧
        (∀ value, Members.Admitted decl.fields value →
          Delivers decl (decl.append more) value (extend decl.fields more value))) ∧
    (∀ bytes, match (decode decl { input := bytes }).2 with
      | .error _ => True
      | .ok value => Members.Admitted decl.fields value) := by
  have hLimit := ((valid_of_compileText hSrc).structs decl hDecl).size
  refine ⟨fun value hAdmitted => delivers_same hAdmitted hLimit, fun more _ hMore => ?_,
    fun bytes => ?_⟩
  · exact ⟨fun value hAdmitted => delivers_restrict hAdmitted hMore,
      fun value hAdmitted => delivers_extend hAdmitted hLimit⟩
  · cases hRun : decode decl { input := bytes } with
    | mk d result =>
      cases result with
      | error => trivial
      | ok => exact admitted_of_decode hRun

def pingHello : Members ping.fields := ((7 : UInt32), (([0x68, 0x69] : List UInt8), ()))

/-- A later version of the request carries a time as well. -/
def pingTime : FieldDecl where
  name := text "time"
  type := .u64
  id := 3

theorem pingHello_admitted : Members.Admitted ping.fields pingHello :=
  ⟨trivial, ⟨by decide, by decide⟩, trivial⟩

/-- The request of the echo service, read by itself and by a version with one more field. -/
theorem ping_codec :
    Delivers ping ping pingHello pingHello ∧ Delivers ping (ping.append [pingTime]) pingHello
        (extend ping.fields [pingTime] pingHello) := by
  have h := generated_codec_contract echoSource_accepted (mem_singleton.mpr rfl)
  refine ⟨h.1 pingHello pingHello_admitted, ?_⟩
  exact (h.2.1 [pingTime] (by decide) (by decide)).2 pingHello pingHello_admitted

end Enml.Osidlc
