import Enml.Core.Bytes

/-! The primitives of `os::ipc` that every message is written and read with: an
encoder over a buffer of the caller, a decoder over a received span, and the
check that a string is UTF-8. -/
namespace Enml.OsIpc

open Enml.Core Buffer List

def maxInlinePayloadSize : Nat := 64 * 1024

namespace Errors
def malformedMessage : UInt32 := 1
def oversizedMessage : UInt32 := 3
def bufferTooSmall : UInt32 := 4
def invalidUtf8 : UInt32 := 6
def invalidChannel : UInt32 := 16
def protocolViolation : UInt32 := 18
def requestIdExhausted : UInt32 := 19
end Errors

open Errors

def ipcError (code : UInt32) : Error := makeError .ipc code

def isContinuation (value : UInt8) : Bool := value &&& 0xC0 == 0x80

/-- The loop over the bytes, from the one it has come to. -/
def isValidUtf8 : List UInt8 → Bool
  | [] => true
  | b0 :: rest =>
    if b0 ≤ 0x7F then isValidUtf8 rest
    else if 0xC2 ≤ b0 ∧ b0 ≤ 0xDF then
      match rest with
      | b1 :: rest => if !isContinuation b1 then false else isValidUtf8 rest
      | _ => false
    else if 0xE0 ≤ b0 ∧ b0 ≤ 0xEF then
      match rest with
      | b1 :: b2 :: rest =>
        if !isContinuation b1 || !isContinuation b2 then false
        else if b0 = 0xE0 ∧ b1 < 0xA0 then false
        else if b0 = 0xED ∧ 0xA0 ≤ b1 then false
        else isValidUtf8 rest
      | _ => false
    else if 0xF0 ≤ b0 ∧ b0 ≤ 0xF4 then
      match rest with
      | b1 :: b2 :: b3 :: rest =>
        if !isContinuation b1 || !isContinuation b2 || !isContinuation b3 then false
        else if b0 = 0xF0 ∧ b1 < 0x90 then false
        else if b0 = 0xF4 ∧ 0x8F < b1 then false
        else isValidUtf8 rest
      | _ => false
    else false

/-- The loop of both checks with its indices. A read past the end gives nothing. -/
def scanUtf8 (continuation : UInt8 → Bool) (bytes : List UInt8) (i : Nat) : Option Bool :=
  if h : i < bytes.length then do
    let b0 ← bytes[i]?
    if b0 ≤ 0x7F then scanUtf8 continuation bytes (i + 1)
    else if 0xC2 ≤ b0 ∧ b0 ≤ 0xDF then
      if bytes.length ≤ i + 1 then some false
      else do
        let b1 ← bytes[i + 1]?
        if !continuation b1 then some false else scanUtf8 continuation bytes (i + 2)
    else if 0xE0 ≤ b0 ∧ b0 ≤ 0xEF then
      if bytes.length ≤ i + 2 then some false
      else do
        let b1 ← bytes[i + 1]?
        let b2 ← bytes[i + 2]?
        if !continuation b1 || !continuation b2 then some false
        else if b0 = 0xE0 ∧ b1 < 0xA0 then some false
        else if b0 = 0xED ∧ 0xA0 ≤ b1 then some false
        else scanUtf8 continuation bytes (i + 3)
    else if 0xF0 ≤ b0 ∧ b0 ≤ 0xF4 then
      if bytes.length ≤ i + 3 then some false
      else do
        let b1 ← bytes[i + 1]?
        let b2 ← bytes[i + 2]?
        let b3 ← bytes[i + 3]?
        if !continuation b1 || !continuation b2 || !continuation b3 then some false
        else if b0 = 0xF0 ∧ b1 < 0x90 then some false
        else if b0 = 0xF4 ∧ 0x8F < b1 then some false
        else scanUtf8 continuation bytes (i + 4)
    else some false
  else some true
termination_by bytes.length - i

theorem isContinuation_iff {b : UInt8} :
    isContinuation b = true ↔ 0x80 ≤ b.toNat ∧ b.toNat < 0xC0 := by
  obtain ⟨⟨n⟩⟩ := b
  revert n
  decide +kernel

theorem isContinuation_ofNat (v : Nat) : isContinuation (UInt8.ofNat (v % 0x40 + 0x80)) = true := by
  rw [isContinuation_iff, UInt8.toNat_ofNat']
  omega

/-- The bytes of one scalar value are passed over. -/
theorem isValidUtf8_append (c : Char) (rest : List UInt8) :
    isValidUtf8 (String.utf8EncodeChar c ++ rest) = isValidUtf8 rest := by
  have hScalar : c.val.toNat < 0xD800 ∨ 0xDFFF < c.val.toNat ∧ c.val.toNat < 0x110000 := c.valid
  unfold String.utf8EncodeChar
  generalize c.val.toNat = v at hScalar ⊢
  dsimp only
  split_ifs with hOne hTwo hThree
  all_goals
    rw [cons_append, isValidUtf8.eq_def]
    simp only [UInt8.le_iff_toNat_le, UInt8.lt_iff_toNat_lt, ← UInt8.toNat_inj, UInt8.toNat_ofNat',
      isContinuation_ofNat, cons_append, nil_append, UInt8.reduceToNat, Bool.not_true, Bool.or_self]
  · rw [if_pos (by omega)]
  · rw [if_neg (by omega), if_pos (by omega), if_neg (by simp)]
  · rw [if_neg (by omega), if_neg (by omega), if_pos (by omega), if_neg (by simp),
      if_neg (by omega), if_neg (by omega)]
  · rw [if_neg (by omega), if_neg (by omega), if_neg (by omega), if_pos (by omega),
      if_neg (by simp), if_neg (by omega), if_neg (by omega)]

/-- A text that passes and has not ended begins with the bytes of a scalar value. -/
theorem exists_utf8EncodeChar {text : List UInt8} (h : isValidUtf8 text = true) (hNe : text ≠ []) :
    ∃ c rest, text = String.utf8EncodeChar c ++ rest ∧ isValidUtf8 rest = true := by
  have hChar : ∀ v : Nat, v.isValidChar → ∃ c : Char, c.val.toNat = v :=
    fun v hv => ⟨Char.ofNatAux v hv, rfl⟩
  unfold Nat.isValidChar at hChar
  obtain ⟨b0, rest, rfl⟩ := exists_cons_of_ne_nil hNe
  rw [isValidUtf8.eq_def] at h
  simp only [UInt8.le_iff_toNat_le, UInt8.lt_iff_toNat_lt, ← UInt8.toNat_inj,
    UInt8.reduceToNat] at h
  split_ifs at h with hOne hTwo hThree hFour
  · obtain ⟨c, hc⟩ := hChar b0.toNat (by omega)
    refine ⟨c, rest, ?_, h⟩
    simp [String.utf8EncodeChar, hc, hOne]
  · split at h
    · rename_i b1 rest
      split_ifs at h with hB1
      rw [Bool.not_eq_true', Bool.not_eq_false, isContinuation_iff] at hB1
      obtain ⟨c, hc⟩ := hChar ((b0.toNat - 0xC0) * 64 + (b1.toNat - 0x80)) (by omega)
      refine ⟨c, rest, ?_, h⟩
      rw [String.utf8EncodeChar, hc]
      rw [if_neg (by omega), if_pos (by omega)]
      simp only [cons_append, nil_append, cons.injEq, ← UInt8.toNat_inj, UInt8.toNat_ofNat',
        and_true]
      omega
    · cases h
  · split at h
    · rename_i b1 b2 rest
      split_ifs at h with hB hLow hHigh
      rw [Bool.or_eq_true, not_or, Bool.not_eq_true', Bool.not_eq_true', Bool.not_eq_false,
        Bool.not_eq_false, isContinuation_iff, isContinuation_iff] at hB
      obtain ⟨c, hc⟩ := hChar ((b0.toNat - 0xE0) * 4096 + (b1.toNat - 0x80) * 64 +
        (b2.toNat - 0x80)) (by omega)
      refine ⟨c, rest, ?_, h⟩
      rw [String.utf8EncodeChar, hc]
      rw [if_neg (by omega), if_neg (by omega), if_pos (by omega)]
      simp only [cons_append, nil_append, cons.injEq, ← UInt8.toNat_inj, UInt8.toNat_ofNat',
        and_true]
      omega
    · cases h
  · split at h
    · rename_i b1 b2 b3 rest
      split_ifs at h with hB hLow hHigh
      simp only [Bool.or_eq_true, not_or, Bool.not_eq_true', Bool.not_eq_false,
        isContinuation_iff] at hB
      obtain ⟨c, hc⟩ := hChar ((b0.toNat - 0xF0) * 262144 + (b1.toNat - 0x80) * 4096 +
        (b2.toNat - 0x80) * 64 + (b3.toNat - 0x80)) (by omega)
      refine ⟨c, rest, ?_, h⟩
      rw [String.utf8EncodeChar, hc]
      rw [if_neg (by omega), if_neg (by omega), if_neg (by omega)]
      simp only [cons_append, nil_append, cons.injEq, ← UInt8.toNat_inj, UInt8.toNat_ofNat',
        and_true]
      omega
    · cases h

/-- What passes is the encoding of a sequence of scalar values. -/
theorem isValidUtf8_iff {text : List UInt8} :
    isValidUtf8 text = true ↔ ∃ chars : List Char, text = chars.flatMap String.utf8EncodeChar := by
  constructor
  · intro h
    induction hSize : text.length using Nat.strong_induction_on generalizing text with
    | _ size ih =>
      by_cases hNe : text = []
      · exact ⟨[], hNe⟩
      obtain ⟨c, rest, rfl, hRest⟩ := exists_utf8EncodeChar h hNe
      have hPos := length_pos_of_ne_nil (String.utf8EncodeChar_ne_nil (c := c))
      rw [length_append] at hSize
      obtain ⟨chars, hChars⟩ := ih rest.length (by omega) hRest rfl
      exact ⟨c :: chars, by rw [flatMap_cons, hChars]⟩
  · rintro ⟨chars, rfl⟩
    induction chars with
    | nil => rfl
    | cons c chars ih => rw [flatMap_cons, isValidUtf8_append, ih]

/-- A buffer and how far it is written. -/
structure Encoder where
  output : List UInt8
  cursor : Nat := 0

namespace Encoder

def remaining (e : Encoder) : Nat := e.output.length - e.cursor

def written (e : Encoder) : List UInt8 := e.output.take e.cursor

def ensureCapacity (count : Nat) : Call Encoder Unit := fun e =>
  (e, if e.remaining < count then .error (ipcError bufferTooSmall) else .ok ())

/-- The loop that copies bytes to the cursor. -/
def store (bytes : List UInt8) : Call Encoder Unit := fun e =>
  ({ output := storeSpan e.output e.cursor bytes.length fun i => spanByte bytes i
     cursor := e.cursor + bytes.length }, .ok ())

def writeRaw (bytes : List UInt8) : Call Encoder Unit := do
  ensureCapacity bytes.length
  store bytes

def writeU8 (value : UInt8) : Call Encoder Unit := writeRaw [value]

def writeU16Le (value : UInt16) : Call Encoder Unit :=
  writeRaw [(value &&& 0xFF).toUInt8, ((value >>> 8) &&& 0xFF).toUInt8]

def writeU32Le (value : UInt32) : Call Encoder Unit :=
  writeRaw ((List.range 4).map fun i => ((value >>> UInt32.ofNat (8 * i)) &&& 0xFF).toUInt8)

def writeU64Le (value : UInt64) : Call Encoder Unit :=
  writeRaw ((List.range 8).map fun i => ((value >>> UInt64.ofNat (8 * i)) &&& 0xFF).toUInt8)

def writeBytes (bytes : List UInt8) (maximum : Nat) : Call Encoder Unit := do
  Call.ensure (!(decide (maximum < bytes.length) || decide (0xFFFFFFFF < bytes.length)))
    (ipcError oversizedMessage)
  match checkedAdd 4 bytes.length with
  | .error _ => Call.fail (ipcError oversizedMessage)
  | .ok total => do
      ensureCapacity total
      writeU32Le (UInt32.ofNat bytes.length)
      writeRaw bytes

def writeUtf8 (value : List UInt8) (maximum : Nat) : Call Encoder Unit := do
  Call.ensure (isValidUtf8 value) (ipcError invalidUtf8)
  writeBytes value maximum

end Encoder

/-- A message and how far it is read. -/
structure Decoder where
  input : List UInt8
  cursor : Nat := 0

namespace Decoder

def remaining (d : Decoder) : Nat := d.input.length - d.cursor

def readRaw (count : Nat) : Call Decoder (List UInt8) := fun d =>
  if !rangeFits d.input.length d.cursor count then (d, .error (ipcError malformedMessage))
  else ({ d with cursor := d.cursor + count }, .ok (slice d.input d.cursor count))

def readU8 : Call Decoder UInt8 := fun d =>
  if d.remaining < 1 then (d, .error (ipcError malformedMessage))
  else ({ d with cursor := d.cursor + 1 }, .ok (spanByte d.input d.cursor))

def readU16Le : Call Decoder UInt16 := do
  let bytes ← readRaw 2
  pure (Core.readU16Le bytes 0)

def readU32Le : Call Decoder UInt32 := do
  let bytes ← readRaw 4
  pure (Core.readU32Le bytes 0)

def readU64Le : Call Decoder UInt64 := do
  let bytes ← readRaw 8
  pure (Core.readU64Le bytes 0)

def readBytes (maximum : Nat) : Call Decoder (List UInt8) := do
  let length ← readU32Le
  Call.ensure (!decide (maximum < length.toNat)) (ipcError oversizedMessage)
  readRaw length.toNat

def readUtf8 (maximum : Nat) : Call Decoder (List UInt8) := do
  let bytes ← readBytes maximum
  Call.ensure (isValidUtf8 bytes) (ipcError invalidUtf8)
  pure bytes

def requireEnd : Call Decoder Unit := fun d =>
  (d, if d.remaining ≠ 0 then .error (ipcError malformedMessage) else .ok ())

end Decoder

end Enml.OsIpc
