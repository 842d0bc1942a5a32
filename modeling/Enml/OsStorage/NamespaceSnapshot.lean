import Enml.Core.Layout
import Enml.OsKeys.Registry
import Enml.OsStorage.Namespace

/-! The encrypted snapshot of one user's part of the namespace. The header is
authenticated, the entries behind it are encrypted. -/
namespace Enml.OsStorage

open Enml.Core Enml.OsKeys Buffer

def aeadNonceBytes : Nat := 12

def aeadTagBytes : Nat := 16

def maxKeyPlaintextBytes : Nat := 60 * 1024

inductive CryptoProfileId where
  | aes256GcmV1

abbrev AeadNonce := Vector UInt8 aeadNonceBytes

abbrev AeadTag := Vector UInt8 aeadTagBytes

abbrev SecurityEpoch := UInt64

/-- The part of a key provider that seals and opens. The nonce that it generates for a
seal is an input; the bytes it returns are those it has written and reports. -/
structure KeyProvider where
  sealWith : ProviderKeyReference → CryptoProfileId →
    (envelopeAad callerAad plaintext : List UInt8) →
    AeadNonce → Result (List UInt8 × AeadTag)
  openWith : ProviderKeyReference → CryptoProfileId → (envelopeAad callerAad : List UInt8) →
    AeadNonce → AeadTag → (ciphertext : List UInt8) → Result (List UInt8)

/-- Opening gives back what has been sealed under the same key, header and nonce. -/
def KeyProvider.Inverts (provider : KeyProvider) : Prop :=
  ∀ key profile envelopeAad callerAad plaintext nonce ciphertext tag,
    provider.sealWith key profile envelopeAad callerAad plaintext nonce = .ok (ciphertext, tag) →
      provider.openWith key profile envelopeAad callerAad nonce tag ciphertext = .ok plaintext

def protectedNamespaceSnapshotMagic : UInt32 := 0x534E4B43

def protectedNamespaceSnapshotVersion : UInt16 := 1

def protectedNamespaceSnapshotHeaderBytes : UInt16 := 40

def protectedNamespaceSnapshotOverheadBytes : Nat :=
  protectedNamespaceSnapshotHeaderBytes.toNat + aeadNonceBytes + aeadTagBytes

def maxProtectedNamespaceSnapshotPlaintextBytes : Nat := maxKeyPlaintextBytes

def maxProtectedNamespaceSnapshotRecordBytes : Nat :=
  protectedNamespaceSnapshotOverheadBytes + maxProtectedNamespaceSnapshotPlaintextBytes

structure ProtectedNamespaceSnapshotHeaderV1 where
  user : UserId := 0
  securityEpoch : SecurityEpoch := 0
  sequence : UInt64 := 0
  entryCount : UInt32 := 0
  flags : UInt32 := 0

def ProtectedNamespaceSnapshotHeaderV1.valid (h : ProtectedNamespaceSnapshotHeaderV1) : Bool :=
  h.user != 0 && h.securityEpoch != 0 && h.sequence != 0 &&
    decide (h.entryCount.toNat ≤ maxProtectedNamespaceEntries) && h.flags == 0

structure ProtectedNamespaceFreshnessEvidence where
  user : UserId := 0
  currentSecurityEpoch : SecurityEpoch := 0
  minimumSequence : UInt64 := 0

namespace ProtectedNamespaceSnapshotErrors
def invalid : UInt32 := 1
def wrongUser : UInt32 := 2
def staleEpoch : UInt32 := 3
def staleSequence : UInt32 := 4
def tooLarge : UInt32 := 5
def malformedEntry : UInt32 := 6
def providerFailure : UInt32 := 7
end ProtectedNamespaceSnapshotErrors

open ProtectedNamespaceSnapshotErrors

def protectedNamespaceSnapshotError (code : UInt32) : Error := makeError .storage (0x760 + code)

def validateNamespaceSnapshotFreshness (header : ProtectedNamespaceSnapshotHeaderV1)
    (evidence : ProtectedNamespaceFreshnessEvidence) : Result Unit :=
  if !header.valid || evidence.user == 0 || evidence.currentSecurityEpoch == 0 ||
      evidence.minimumSequence == 0 then
    .error (protectedNamespaceSnapshotError invalid)
  else if header.user ≠ evidence.user then
    .error (protectedNamespaceSnapshotError wrongUser)
  else if header.securityEpoch ≠ evidence.currentSecurityEpoch then
    .error (protectedNamespaceSnapshotError staleEpoch)
  else if header.sequence < evidence.minimumSequence then
    .error (protectedNamespaceSnapshotError staleSequence)
  else .ok ()

def encodeHeader (header : ProtectedNamespaceSnapshotHeaderV1) :
    Call (List UInt8) Unit := fun out =>
  if !header.valid || decide (out.length < protectedNamespaceSnapshotHeaderBytes.toNat) then
    (out, .error (protectedNamespaceSnapshotError invalid))
  else
    let out := writeU32Le out 0 protectedNamespaceSnapshotMagic
    let out := writeU16Le out 4 protectedNamespaceSnapshotVersion
    let out := writeU16Le out 6 protectedNamespaceSnapshotHeaderBytes
    let out := writeU64Le out 8 header.user
    let out := writeU64Le out 16 header.securityEpoch
    let out := writeU64Le out 24 header.sequence
    let out := writeU32Le out 32 header.entryCount
    (writeU32Le out 36 header.flags, .ok ())

def decodeHeader (bytes : List UInt8) : Result ProtectedNamespaceSnapshotHeaderV1 :=
  if bytes.length ≠ protectedNamespaceSnapshotHeaderBytes.toNat ∨
      readU32Le bytes 0 ≠ protectedNamespaceSnapshotMagic ∨
      readU16Le bytes 4 ≠ protectedNamespaceSnapshotVersion ∨
      readU16Le bytes 6 ≠ protectedNamespaceSnapshotHeaderBytes then
    .error (protectedNamespaceSnapshotError invalid)
  else
    let header : ProtectedNamespaceSnapshotHeaderV1 :=
      { user := readU64Le bytes 8
        securityEpoch := readU64Le bytes 16
        sequence := readU64Le bytes 24
        entryCount := readU32Le bytes 32
        flags := readU32Le bytes 36 }
    if !header.valid then
      .error (protectedNamespaceSnapshotError invalid)
    else .ok header

/-- The bytes of an entry in front of its path. -/
def entryHeaderBytes : Nat := 42

/-- One round of `encode_entries`. It returns the next cursor. -/
def encodeEntry (entry : ProtectedNamespaceEntry) (expectedUser : UserId) (cursor : Nat) :
    Call (List UInt8) Nat := fun out =>
  let path := entry.path.view
  if !entry.valid || entry.user != expectedUser then
    (out, .error (protectedNamespaceSnapshotError malformedEntry))
  else if path.isEmpty ∨ maxRelativePathBytes < path.length ∨ 0xFFFF < path.length then
    (out, .error (protectedNamespaceSnapshotError malformedEntry))
  else if out.length < cursor ∨ out.length - cursor < entryHeaderBytes + path.length then
    (out, .error (protectedNamespaceSnapshotError tooLarge))
  else
    let out := writeU64Le out cursor entry.principal.high
    let out := writeU64Le out (cursor + 8) entry.principal.low
    let out := writeU64Le out (cursor + 16) entry.objectId.high
    let out := writeU64Le out (cursor + 24) entry.objectId.low
    let out := writeU64Le out (cursor + 32) entry.generation
    let out := writeU16Le out (cursor + 40) (UInt16.ofNat path.length)
    let out := storeSpan out (cursor + 42) path.length fun i => spanByte path i
    (out, .ok (cursor + (entryHeaderBytes + path.length)))

def encodeEntriesFrom (expectedUser : UserId) :
    List ProtectedNamespaceEntry → (cursor : Nat) → Call (List UInt8) Nat
  | [], cursor => pure cursor
  | entry :: rest, cursor => do
      let cursor ← encodeEntry entry expectedUser cursor
      encodeEntriesFrom expectedUser rest cursor

def encodeEntries (entries : List ProtectedNamespaceEntry) (expectedUser : UserId) :
    Call (List UInt8) Nat :=
  encodeEntriesFrom expectedUser entries 0

/-- One round of `decode_entries`. -/
def decodeEntry (header : ProtectedNamespaceSnapshotHeaderV1) (plaintext : List UInt8)
    (cursor : Nat) : Result (ProtectedNamespaceEntry × Nat) :=
  let malformed := protectedNamespaceSnapshotError malformedEntry
  if plaintext.length < cursor ∨ plaintext.length - cursor < entryHeaderBytes then .error malformed
  else
    let pathSize := (readU16Le plaintext (cursor + 40)).toNat
    if pathSize = 0 ∨ maxRelativePathBytes < pathSize ∨
        plaintext.length - cursor - entryHeaderBytes < pathSize then .error malformed
    else
      match RelativePath.parse (slice plaintext (cursor + 42) pathSize) with
      | .error _ => .error malformed
      | .ok path =>
        let entry : ProtectedNamespaceEntry :=
          { principal := ⟨readU64Le plaintext cursor, readU64Le plaintext (cursor + 8)⟩
            user := header.user
            path
            objectId := ⟨readU64Le plaintext (cursor + 16), readU64Le plaintext (cursor + 24)⟩
            generation := readU64Le plaintext (cursor + 32) }
        if !entry.valid then .error malformed
        else .ok (entry, cursor + (entryHeaderBytes + pathSize))

/-- The loop with `remaining` entries to come. -/
def decodeEntriesFrom (header : ProtectedNamespaceSnapshotHeaderV1) (plaintext : List UInt8) :
    (remaining cursor : Nat) → Result (List ProtectedNamespaceEntry × Nat)
  | 0, cursor => .ok ([], cursor)
  | remaining + 1, cursor => do
      let (entry, cursor) ← decodeEntry header plaintext cursor
      let (entries, cursor) ← decodeEntriesFrom header plaintext remaining cursor
      .ok (entry :: entries, cursor)

/-- `room` is how many entries the caller's span holds. -/
def decodeEntries (header : ProtectedNamespaceSnapshotHeaderV1) (plaintext : List UInt8)
    (room : Nat) : Result (List ProtectedNamespaceEntry) := do
  ensure (decide (header.entryCount.toNat ≤ room))
    (protectedNamespaceSnapshotError tooLarge)
  let (entries, cursor) ← decodeEntriesFrom header plaintext header.entryCount.toNat 0
  ensure (cursor == plaintext.length)
    (protectedNamespaceSnapshotError malformedEntry)
  .ok entries

/-- Copy into a part of a span. -/
def copyInto (bytes : List UInt8) (offset : Nat) (out : List UInt8) : List UInt8 :=
  out.take offset ++ bytes ++ out.drop (offset + bytes.length)

/-- The checks of `seal`, up to the plaintext. -/
def snapshotPlaintext (metadataKey : ProviderKeyReference)
    (requestedHeader : ProtectedNamespaceSnapshotHeaderV1) (registry : ProtectedNamespaceRegistry)
    (plaintextScratch output : List UInt8) : Result (List UInt8) := do
  ensure (metadataKey != 0 && requestedHeader.valid &&
    decide (maxProtectedNamespaceSnapshotPlaintextBytes ≤ plaintextScratch.length) &&
    decide (protectedNamespaceSnapshotOverheadBytes ≤ output.length))
    (protectedNamespaceSnapshotError invalid)
  let entries ← registry.copyUserEntries requestedHeader.user maxProtectedNamespaceEntries
  ensure (entries.length == requestedHeader.entryCount.toNat)
    (protectedNamespaceSnapshotError invalid)
  match encodeEntries entries requestedHeader.user
      (plaintextScratch.take maxProtectedNamespaceSnapshotPlaintextBytes) with
  | (_, .error e) => .error e
  | (scratch, .ok plaintextSize) => do
      ensure (decide (protectedNamespaceSnapshotOverheadBytes + plaintextSize ≤ output.length))
        (protectedNamespaceSnapshotError tooLarge)
      .ok (scratch.take plaintextSize)

/-- `seal`. The state is the output span; it returns how much of it the record takes. -/
def sealSnapshot (provider : KeyProvider) (metadataKey : ProviderKeyReference)
    (requestedHeader : ProtectedNamespaceSnapshotHeaderV1) (registry : ProtectedNamespaceRegistry)
    (plaintextScratch : List UInt8) (nonce : AeadNonce) : Call (List UInt8) Nat := fun output =>
  match snapshotPlaintext metadataKey requestedHeader registry plaintextScratch output with
  | .error e => (output, .error e)
  | .ok plaintext =>
    match encodeHeader requestedHeader
        (output.take protectedNamespaceSnapshotHeaderBytes.toNat) with
    | (headerBytes, .error e) => (copyInto headerBytes 0 output, .error e)
    | (headerBytes, .ok ()) =>
      let output := copyInto headerBytes 0 output
      let failure := protectedNamespaceSnapshotError
        providerFailure
      match provider.sealWith metadataKey .aes256GcmV1 headerBytes [] plaintext nonce with
      | .error _ => (output, .error failure)
      | .ok (ciphertext, tag) =>
        if ciphertext.length ≠ plaintext.length then (output, .error failure)
        else
          let output := copyInto ciphertext protectedNamespaceSnapshotOverheadBytes output
          let output := copyInto nonce.toList protectedNamespaceSnapshotHeaderBytes.toNat output
          let output := copyInto tag.toList
            (protectedNamespaceSnapshotHeaderBytes.toNat + aeadNonceBytes) output
          (output, .ok (protectedNamespaceSnapshotOverheadBytes + plaintext.length))

/-- The bytes of a fixed-size field of the record. -/
def fieldAt (record : List UInt8) (offset count : Nat) : Vector UInt8 count :=
  Vector.ofFn fun i => spanByte record (offset + i)

/-- `open_and_restore` up to the entries. -/
def openSnapshot (provider : KeyProvider) (metadataKey : ProviderKeyReference)
    (freshness : ProtectedNamespaceFreshnessEvidence) (record : List UInt8)
    (plaintextScratch : List UInt8) :
    Result (ProtectedNamespaceSnapshotHeaderV1 × List ProtectedNamespaceEntry) := do
  ensure (metadataKey != 0 && decide (protectedNamespaceSnapshotOverheadBytes ≤ record.length) &&
    decide (record.length ≤ maxProtectedNamespaceSnapshotRecordBytes) &&
    decide (maxProtectedNamespaceSnapshotPlaintextBytes ≤ plaintextScratch.length))
    (protectedNamespaceSnapshotError invalid)
  let headerBytes := record.take protectedNamespaceSnapshotHeaderBytes.toNat
  let header ← decodeHeader headerBytes
  validateNamespaceSnapshotFreshness header freshness
  let nonce := fieldAt record protectedNamespaceSnapshotHeaderBytes.toNat aeadNonceBytes
  let tag :=
    fieldAt record (protectedNamespaceSnapshotHeaderBytes.toNat + aeadNonceBytes) aeadTagBytes
  let ciphertext := record.drop protectedNamespaceSnapshotOverheadBytes
  ensure (decide (ciphertext.length ≤ maxProtectedNamespaceSnapshotPlaintextBytes))
    (protectedNamespaceSnapshotError tooLarge)
  match provider.openWith metadataKey .aes256GcmV1 headerBytes [] nonce tag ciphertext with
  | .error _ =>
    .error (protectedNamespaceSnapshotError providerFailure)
  | .ok opened => do
      ensure (opened.length == ciphertext.length)
        (protectedNamespaceSnapshotError providerFailure)
      let entries ← decodeEntries header opened maxProtectedNamespaceEntries
      .ok (header, entries)

def openAndRestore (provider : KeyProvider) (metadataKey : ProviderKeyReference)
    (freshness : ProtectedNamespaceFreshnessEvidence) (record : List UInt8)
    (plaintextScratch : List UInt8) :
    Call ProtectedNamespaceRegistry ProtectedNamespaceSnapshotHeaderV1 := fun registry =>
  match openSnapshot provider metadataKey freshness record plaintextScratch with
  | .error e => (registry, .error e)
  | .ok (header, entries) =>
    match registry.replaceUserEntries header.user entries with
    | (registry, .error e) => (registry, .error e)
    | (registry, .ok ()) => (registry, .ok header)

end Enml.OsStorage
