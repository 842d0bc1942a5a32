import Enml.OsKeys.Snapshot

/-! The persistent key registry. An operation works on a copy of the registry in
memory, writes the copy to the state directory, and takes it over once it has
replaced the snapshot. -/
namespace Enml.OsKeys

open Enml.Core Interruptible

/-- What the provider promises about the references it writes down. -/
structure Wrapping (restore : Restore) where
  persist : Persist
  inverts : ∀ key purpose binding, key ≠ 0 →
    restore purpose binding (persist key purpose binding) = .ok key
  size : ∀ key purpose binding, 0 < (persist key purpose binding).length ∧
    (persist key purpose binding).length ≤ maxPersistentProviderBlobBytes

namespace PersistentKeyRegistry

/-- The reference of a version, zero when there is none. -/
def issuedKey (candidate : KeyRegistry) (id : KeyId) (version : UInt32) : ProviderKeyReference :=
  match candidate.find id with
  | none => 0
  | some record =>
    match record.findVersion version with
    | none => 0
    | some found => found.providerKey

def giveUp (key : ProviderKeyReference) : Io Unit := if key = 0 then pure () else destroyKey key

/-- How an operation that issues a version ends. The new key is given up when the
snapshot has not been replaced. -/
def conclude (memory candidate : KeyRegistry) (issued : ProviderKeyReference)
    (descriptor : KeyDescriptor) : Persisted → Io (KeyRegistry × Result KeyDescriptor)
  | .kept e => do
      giveUp issued
      pure (memory, .error e)
  | .replaced (some e) => pure (candidate, .error e)
  | .replaced none => pure (candidate, .ok descriptor)

def publish (persist : Persist) (memory candidate : KeyRegistry) (issued : ProviderKeyReference)
    (descriptor : KeyDescriptor) : Io (KeyRegistry × Result KeyDescriptor) := do
  let persisted ← persistCandidate persist candidate
  conclude memory candidate issued descriptor persisted

def openRegistry (restore : Restore) : Io KeyRegistry := do
  asking (fun _ => .ok ()) fun _ => keyError Errors.invalidStateDirectory
  loadSnapshot restore

/-- What follows the operation of the plain registry when the key was generated by
it. -/
def finishGenerated (persist : Persist) (memory candidate : KeyRegistry) (id : KeyId) :
    Result KeyDescriptor → Io (KeyRegistry × Result KeyDescriptor)
  | .error e => pure (memory, .error e)
  | .ok descriptor =>
    publish persist memory candidate (issuedKey candidate id descriptor.version) descriptor

/-- The same when the caller has handed the key over. -/
def finishAdopted (persist : Persist) (memory candidate : KeyRegistry)
    (key : ProviderKeyReference) : Result KeyDescriptor → Io (KeyRegistry × Result KeyDescriptor)
  | .error e => do
      destroyKey key
      pure (memory, .error e)
  | .ok descriptor => publish persist memory candidate key descriptor

def create (persist : Persist) (memory : KeyRegistry) (owner : KeyOwner) (id : KeyId)
    (purpose : KeyPurpose) (rights : RightsMask) (generated : Result ProviderKeyReference) :
    Io (KeyRegistry × Result KeyDescriptor) :=
  let created := memory.create owner id purpose rights generated
  finishGenerated persist memory created.1 id created.2.result

def adoptGenerated (persist : Persist) (memory : KeyRegistry) (owner : KeyOwner) (id : KeyId)
    (purpose : KeyPurpose) (rights : RightsMask) (key : ProviderKeyReference) :
    Io (KeyRegistry × Result KeyDescriptor) :=
  if key = 0 then pure (memory, .error (keyError Errors.providerFailure))
  else
    let adopted := memory.adoptGenerated owner id purpose rights key
    finishAdopted persist memory adopted.1 key adopted.2.result

def rotate (persist : Persist) (memory : KeyRegistry) (caller : KeyOwner) (id : KeyId)
    (generated : Result ProviderKeyReference) : Io (KeyRegistry × Result KeyDescriptor) :=
  let rotated := memory.rotate caller id generated
  finishGenerated persist memory rotated.1 id rotated.2.result

def rotateAdoptGenerated (persist : Persist) (memory : KeyRegistry) (caller : KeyOwner)
    (id : KeyId) (key : ProviderKeyReference) : Io (KeyRegistry × Result KeyDescriptor) :=
  if key = 0 then pure (memory, .error (keyError Errors.providerFailure))
  else
    let rotated := memory.rotateAdoptGenerated caller id key
    finishAdopted persist memory rotated.1 key rotated.2.result

/-- The references that a destruction gives up. -/
def references (record : KeyRecord) : List ProviderKeyReference :=
  (record.versions.filter KeyRecord.pending).map fun v => v.providerKey

/-- The record without its keys. -/
def revoked (record : KeyRecord) : KeyRecord :=
  let versions := record.versions.map fun v =>
    if KeyRecord.pending v then { v with destroyed := true, providerKey := 0 } else v
  { record with versions, destroyed := true }

/-- Once the snapshot has been replaced, the keys are given up. -/
def concludeDestroy (memory candidate : KeyRegistry) (references : List ProviderKeyReference) :
    Persisted → Io (KeyRegistry × Result Unit)
  | .kept e => pure (memory, .error e)
  | .replaced failure => do
      destroyKeys references
      pure (candidate, match failure with
        | some e => .error e
        | none => .ok ())

def destroy (persist : Persist) (memory : KeyRegistry) (caller : KeyOwner) (id : KeyId) :
    Io (KeyRegistry × Result Unit) :=
  match memory.authorizeRecord caller id KeyRights.destroy with
  | .error e => pure (memory, .error e)
  | .ok _ =>
    match memory.find id with
    | none => pure (memory, .error (keyError Errors.notFound))
    | some record =>
      if (references record).any (· == 0) then
        pure (memory, .error (keyError Errors.providerFailure))
      else do
        let candidate := memory.modify id revoked
        let persisted ← persistCandidate persist candidate
        concludeDestroy memory candidate (references record) persisted

end PersistentKeyRegistry

/-- The state directory with the process that works on it. A process that has been
stopped leaves no registry in memory. -/
structure KeyService where
  world : World := {}
  memory : Option KeyRegistry := none

/-- The requests that change what is on disk. -/
inductive KeyRequest where
  | create (owner : KeyOwner) (id : KeyId) (purpose : KeyPurpose) (rights : RightsMask)
      (generated : Result ProviderKeyReference)
  | adoptGenerated (owner : KeyOwner) (id : KeyId) (purpose : KeyPurpose) (rights : RightsMask)
      (key : ProviderKeyReference)
  | rotate (caller : KeyOwner) (id : KeyId) (generated : Result ProviderKeyReference)
  | rotateAdoptGenerated (caller : KeyOwner) (id : KeyId) (key : ProviderKeyReference)
  | destroy (caller : KeyOwner) (id : KeyId)

/-- The answer with its value as the service passes it on. -/
def replying {α : Type} (value : α → KeyValue) (x : Io (KeyRegistry × Result α)) :
    Io (KeyRegistry × Result KeyValue) := do
  let reply ← x
  pure (reply.1, reply.2.map value)

def KeyRequest.run (persist : Persist) (memory : KeyRegistry) :
    KeyRequest → Io (KeyRegistry × Result KeyValue)
  | .create owner id purpose rights generated =>
    replying .descriptor
      (PersistentKeyRegistry.create persist memory owner id purpose rights generated)
  | .adoptGenerated owner id purpose rights key =>
    replying .descriptor
      (PersistentKeyRegistry.adoptGenerated persist memory owner id purpose rights key)
  | .rotate caller id generated =>
    replying .descriptor (PersistentKeyRegistry.rotate persist memory caller id generated)
  | .rotateAdoptGenerated caller id key =>
    replying .descriptor (PersistentKeyRegistry.rotateAdoptGenerated persist memory caller id key)
  | .destroy caller id =>
    replying (fun _ => .done) (PersistentKeyRegistry.destroy persist memory caller id)

def opening (restore : Restore) : Io (KeyRegistry × Result KeyValue) := do
  let memory ← PersistentKeyRegistry.openRegistry restore
  pure (memory, .ok .done)

/-- What happens to the service. The script says what happens at the calls that a
request makes. -/
inductive KeyEvent (restore : Restore) where
  | openRegistry (script : List (Fault Error))
  | request (request : KeyRequest) (wrapping : Wrapping restore) (script : List (Fault Error))
  | exit
  | powerLoss (back : Nat) (temp : Option (List UInt8))

/-- The snapshots that may be there after a loss of power. -/
def Disk.possible (d : Disk) : List (Option (List UInt8)) := d.snapshot :: d.older

/-- The snapshot that is there after a loss of power. -/
def Disk.recovered (d : Disk) (back : Nat) (temp : Option (List UInt8)) : Disk :=
  { snapshot := d.possible.getD back d.snapshot, temp }

namespace KeyService

/-- What is left of the process: a call that returns gives its answer. -/
def settle (memory : Option KeyRegistry) :
    World × List (Fault Error) × Outcome Error (KeyRegistry × Result KeyValue) →
      KeyService × Option (Result KeyValue)
  | (world, _, .done (memory, result)) => ({ world, memory := some memory }, some result)
  | (world, _, .failed e) => ({ world, memory }, some (.error e))
  | (world, _, .stopped) => ({ world }, none)

def step {restore : Restore} (s : KeyService) :
    KeyEvent restore → KeyService × Option (Result KeyValue)
  | .openRegistry script => settle none (opening restore s.world script)
  | .request request wrapping script =>
    match s.memory with
    | none => (s, none)
    | some memory => settle (some memory) (request.run wrapping.persist memory s.world script)
  | .exit => ({ s with memory := none }, none)
  | .powerLoss back temp =>
    ({ world := { s.world with disk := s.world.disk.recovered back temp } }, none)

end KeyService

end Enml.OsKeys
