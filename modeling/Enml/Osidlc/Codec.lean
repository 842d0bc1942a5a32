import Enml.Osidlc.Compiler
import Enml.OsIpc.Codec

/-! The functions that `generate_codec_source` writes for a struct, read as
functions over the encoder and the decoder. Where the generator goes through the
fields and emits the same lines for each, the function goes through them here. -/
namespace Enml.Osidlc

open Enml.Core Enml.OsIpc Decoder OsIpc.Errors

/-- The C++ type of a field; a `std::string_view` is the bytes it shows. -/
def FieldType.Carrier : FieldType → Type
  | .u32 => UInt32
  | .u64 => UInt64
  | .string _ => List UInt8

/-- The member initialiser `{}`. -/
def FieldType.initial : (type : FieldType) → type.Carrier
  | .u32 => (0 : UInt32)
  | .u64 => (0 : UInt64)
  | .string _ => ([] : List UInt8)

/-- The members of a generated struct, in the order of its fields. -/
def Members : List FieldDecl → Type
  | [] => Unit
  | field :: rest => field.type.Carrier × Members rest

def Members.initial : (fields : List FieldDecl) → Members fields
  | [] => ()
  | field :: rest => (field.type.initial, Members.initial rest)

/-- The lines of `emit_size_calculation` for one field. -/
def addFieldSize (bodySize : Nat) : (type : FieldType) → type.Carrier → Result Nat
  | .u32, _ => widen (checkedAdd bodySize 4)
  | .u64, _ => widen (checkedAdd bodySize 8)
  | .string maximum, (value : List UInt8) =>
    if maximum < value.length then .error (ipcError oversizedMessage)
    else do
      let size ← widen (checkedAdd 4 value.length)
      widen (checkedAdd bodySize size)
where
  /-- Whatever failed, the message is too large. -/
  widen (size : Result Nat) : Result Nat :=
    match size with
    | .ok size => .ok size
    | .error _ => .error (ipcError oversizedMessage)

def addSizes : (bodySize : Nat) → (fields : List FieldDecl) → Members fields → Result Nat
  | bodySize, [], _ => .ok bodySize
  | bodySize, field :: rest, (value, more) => do
      let bodySize ← addFieldSize bodySize field.type value
      addSizes bodySize rest more

/-- `emit_size_calculation`: the size of the body, once the whole message is
known to fit. -/
def sizeCalculation (fields : List FieldDecl) (value : Members fields) : Call Encoder Nat :=
  fun encoder =>
    (encoder, do
      let bodySize ← addSizes 0 fields value
      match checkedAdd 4 bodySize with
      | .error _ => .error (ipcError oversizedMessage)
      | .ok totalSize =>
        if maxInlinePayloadSize < totalSize then
          .error (ipcError oversizedMessage)
        else if encoder.remaining < totalSize then
          .error (ipcError bufferTooSmall)
        else .ok bodySize)

def writeField : (type : FieldType) → type.Carrier → Call Encoder Unit
  | .u32, (value : UInt32) => Encoder.writeU32Le value
  | .u64, (value : UInt64) => Encoder.writeU64Le value
  | .string maximum, (value : List UInt8) => Encoder.writeUtf8 value maximum

def writeFields : (fields : List FieldDecl) → Members fields → Call Encoder Unit
  | [], _ => pure ()
  | field :: rest, (value, more) => do
      writeField field.type value
      writeFields rest more

/-- The generated `encode_` function of a struct. -/
def encode (decl : StructDecl) (value : Members decl.fields) : Call Encoder Unit := do
  let bodySize ← sizeCalculation decl.fields value
  Encoder.writeU32Le (UInt32.ofNat bodySize)
  writeFields decl.fields value

def readField : (type : FieldType) → Call Decoder type.Carrier
  | .u32 => readU32Le
  | .u64 => readU64Le
  | .string maximum => readUtf8 maximum

/-- A field is read if anything is left of the body, and keeps its initialiser
otherwise. -/
def readPresent (type : FieldType) : Call Decoder type.Carrier := fun body =>
  if body.remaining ≠ 0 then readField type body else (body, .ok type.initial)

def readFields : (fields : List FieldDecl) → Call Decoder (Members fields)
  | [] => pure ()
  | field :: rest => do
      let value ← readPresent field.type
      let more ← readFields rest
      pure (value, more)

/-- The fields are read from a decoder of their own. -/
def readBody (decl : StructDecl) (bytes : List UInt8) : Call Decoder (Members decl.fields) :=
  fun decoder => (decoder, (readFields decl.fields { input := bytes }).2)

/-- The generated `decode_` function of a struct. -/
def decode (decl : StructDecl) : Call Decoder (Members decl.fields) := do
  let bodySize ← readU32Le
  Call.ensure (!decide (maxInlinePayloadSize < bodySize.toNat))
    (ipcError oversizedMessage)
  let bytes ← readRaw bodySize.toNat
  requireEnd
  readBody decl bytes

end Enml.Osidlc
