import Enml.Lib.Interruptible
import Enml.OsStorage.Namespace

/-! The replacement of a protected object. The backend makes five steps durable, one
after the other, and a stage machine beside them says how far the replacement has come.
At each step the backend may fail or the process may stop. -/
namespace Enml.OsStorage

open Enml.Core Interruptible

def protectedChunkPlaintextBytes : Nat := 48 * 1024

inductive ProtectedPublicationPhase where
  | idle | keyDurable | ciphertextDurable | commitRecordDurable | namespacePublished | retired
  deriving DecidableEq

namespace ProtectedPublicationErrors
def invalidTransition : UInt32 := 1
end ProtectedPublicationErrors

def publicationError (code : UInt32) : Error := makeError .storage (0x700 + code)

/-- The steps of the backend, in the order of the protocol. -/
inductive BackendStep where
  | persistWrappedKey | persistCiphertext | persistCommitRecord | publishNamespace
  | retireGeneration

/-- What selects the object in the namespace. -/
structure ObjectName where
  principal : PrincipalId
  user : UserId
  path : RelativePath

/-- What is durable. `published` lists the versions that the namespace has named, in
the order in which it came to name them. -/
structure Store where
  wrappedKeys : List ProtectedObjectVersion := []
  ciphertexts : List (ProtectedObjectVersion × List UInt8) := []
  commitRecords : List (ProtectedObjectVersion × ProtectedObjectVersion) := []
  registry : ProtectedNamespaceRegistry := {}
  published : List ProtectedObjectVersion := []
  retired : List ProtectedObjectVersion := []

/-- The version that the namespace names. -/
def Store.named (name : ObjectName) (s : Store) : Option ProtectedObjectVersion :=
  (s.registry.find name.principal name.user name.path).map fun e => e.version

/-- The store, the stage machine of the replacement under way, and the steps of it that
have returned without an error. -/
structure Replacing where
  store : Store
  phase : ProtectedPublicationPhase := .idle
  succeeded : List BackendStep := []

abbrev Replacement := Program Replacing Error

/-- A step of the backend. One that does not get through may have had its effect, or
none, or may have spoilt what it was about to write. -/
def backendStep (step : BackendStep) (effect spoilt : Store → Store)
    (perform : Store → Store × Result Unit) : Replacement Unit :=
  let partly (extent : Nat) (s : Replacing) : Replacing :=
    match extent with
    | 0 => s
    | 1 => { s with store := effect s.store }
    | _ => { s with store := spoilt s.store }
  Program.call
    (fun s =>
      match perform s.store with
      | (store, .ok ()) => ({ s with store, succeeded := s.succeeded ++ [step] }, .ok ())
      | (store, .error e) => ({ s with store }, .error e))
    (fun extent reported s => (partly extent s, reported)) partly

/-- A step that always has its effect when nothing happens to it. -/
def durably (step : BackendStep) (effect spoilt : Store → Store) : Replacement Unit :=
  backendStep step effect spoilt fun s => (effect s, .ok ())

def persistWrappedKey (next : ProtectedObjectVersion) : Replacement Unit :=
  durably .persistWrappedKey (fun s => { s with wrappedKeys := next :: s.wrappedKeys })
    fun s => { s with wrappedKeys := s.wrappedKeys.filter fun v => decide (v ≠ next) }

def persistCiphertext (next : ProtectedObjectVersion) (plaintext : List UInt8) : Replacement Unit :=
  let others (s : Store) := s.ciphertexts.filter fun c => decide (c.1 ≠ next)
  durably .persistCiphertext (fun s => { s with ciphertexts := (next, plaintext) :: others s })
    fun s => { s with ciphertexts := others s }

def persistCommitRecord (previous next : ProtectedObjectVersion) : Replacement Unit :=
  durably .persistCommitRecord
    (fun s => { s with commitRecords := (previous, next) :: s.commitRecords })
    fun s =>
      { s with commitRecords := s.commitRecords.filter fun r => decide (r ≠ (previous, next)) }

/-- Publication goes through `publish_generation`, with the generation that the backend
expects there. -/
def publishInStore (name : ObjectName) (expectedGeneration : UInt64) (next : ProtectedObjectVersion)
    (s : Store) : Store × Result Unit :=
  match s.registry.publishGeneration name.principal name.user name.path expectedGeneration
      next.generation with
  | (registry, .ok ()) => ({ s with registry, published := s.published ++ [next] }, .ok ())
  | (registry, .error e) => ({ s with registry }, .error e)

def publishNamespace (name : ObjectName) (expectedGeneration : UInt64)
    (next : ProtectedObjectVersion) : Replacement Unit :=
  backendStep .publishNamespace (fun s => (publishInStore name expectedGeneration next s).1) id
    (publishInStore name expectedGeneration next)

def retireGeneration (previous : ProtectedObjectVersion) : Replacement Unit :=
  durably .retireGeneration (fun s => { s with retired := previous :: s.retired }) id

def advance (expected next : ProtectedPublicationPhase) : Replacement Unit := fun s script =>
  if s.phase ≠ expected then
    (s, script, .failed (publicationError ProtectedPublicationErrors.invalidTransition))
  else ({ s with phase := next }, script, .done ())

def markKeyDurable : Replacement Unit := advance .idle .keyDurable

def markCiphertextDurable : Replacement Unit := advance .keyDurable .ciphertextDurable

def markCommitRecordDurable : Replacement Unit := advance .ciphertextDurable .commitRecordDurable

def markNamespacePublished : Replacement Unit := advance .commitRecordDurable .namespacePublished

def markRetired : Replacement Unit := advance .namespacePublished .retired

/-- What `replace` demands of its arguments. -/
def admits (previous next : ProtectedObjectVersion) (plaintext : List UInt8) : Bool :=
  previous.valid && next.valid && previous.user == next.user &&
    previous.objectId == next.objectId &&
    previous.generation != next.generation &&
    decide (plaintext.length ≤ protectedChunkPlaintextBytes)

def replace (name : ObjectName) (expectedGeneration : UInt64)
    (previous next : ProtectedObjectVersion) (plaintext : List UInt8) : Replacement Unit := do
  Program.require (admits previous next plaintext) (storageError Errors.invalidOptions)
  Program.require (decide (previous.generation < next.generation))
    (storageError Errors.invalidOptions)
  persistWrappedKey next
  markKeyDurable
  persistCiphertext next plaintext
  markCiphertextDurable
  persistCommitRecord previous next
  markCommitRecordDurable
  publishNamespace name expectedGeneration next
  markNamespacePublished
  retireGeneration previous
  markRetired

/-- A call of `replace` for the object, with what happens at each of its steps. -/
structure ReplaceCall where
  next : ProtectedObjectVersion
  plaintext : List UInt8
  expectedGeneration : UInt64
  script : List (Fault Error)

/-- The call is given the version that the namespace names, and starts with a stage
machine of its own. -/
def replaceStep (name : ObjectName) (s : Replacing) (call : ReplaceCall) :
    Replacing × Option (Outcome Error Unit) :=
  match s.store.named name with
  | none => (s, none)
  | some previous =>
    let (after, _, outcome) :=
      replace name call.expectedGeneration previous call.next call.plaintext { store := s.store }
        call.script
    (after, some outcome)

end Enml.OsStorage
