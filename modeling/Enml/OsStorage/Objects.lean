import Enml.Lib.SlotTable
import Enml.OsIpc.Session
import Enml.OsStorage.Path

/-! The objects of the storage service: private roots that the control channel enters,
and the directories and files that clients have opened under them. What the operating
system answers is an input of each operation. -/
namespace Enml.OsStorage

open Enml.Core SlotTable

namespace Errors
def accessDenied : UInt32 := 10
def ioFailure : UInt32 := 14
def tooLarge : UInt32 := 15
def invalidOffset : UInt32 := 16
def invalidRoot : UInt32 := 18
def invalidRights : UInt32 := 19
def objectLimit : UInt32 := 20
def rootNotRegistered : UInt32 := 21
def rootAlreadyRegistered : UInt32 := 22
def invalidObjectType : UInt32 := 23
def principalObjectLimit : UInt32 := 24
end Errors

open Errors

def maxPrivateRoots : Nat := 64

def maxStorageObjects : Nat := 64

def maxStorageObjectsPerPrincipal : Nat := 16

abbrev RightsMask := UInt32

namespace FileRights
def read : RightsMask := 0x1
def write : RightsMask := 0x2
def stat : RightsMask := 0x4
def sync : RightsMask := 0x8
def all : RightsMask := read ||| write ||| stat ||| sync
end FileRights

namespace DirectoryRights
def openFileRead : RightsMask := 0x1
def openFileWrite : RightsMask := 0x2
def createFile : RightsMask := 0x4
def openDirectory : RightsMask := 0x8
def createDirectory : RightsMask := 0x10
def removeFile : RightsMask := 0x20
def removeDirectory : RightsMask := 0x40
def atomicReplace : RightsMask := 0x80
def all : RightsMask := openFileRead ||| openFileWrite ||| createFile ||| openDirectory |||
  createDirectory ||| removeFile ||| removeDirectory ||| atomicReplace
end DirectoryRights

open DirectoryRights

def hasRights (held required : RightsMask) : Bool := held &&& required == required

def validDirectoryRights (rights : RightsMask) : Bool :=
  rights != 0 && rights &&& ~~~all == 0

inductive FileAccess where
  | readOnly | writeOnly | readWrite
  deriving DecidableEq

/-- The enumerator with a number, if it is not past the last one. -/
def FileAccess.ofRaw (raw : UInt8) : Option FileAccess :=
  if raw = 0 then some .readOnly
  else if raw = 1 then some .writeOnly
  else if raw = 2 then some .readWrite
  else none

inductive CreateDisposition where
  | openExisting | createExclusive | openOrCreate
  deriving DecidableEq

def CreateDisposition.ofRaw (raw : UInt8) : Option CreateDisposition :=
  if raw = 0 then some .openExisting
  else if raw = 1 then some .createExclusive
  else if raw = 2 then some .openOrCreate
  else none

structure OpenOptions where
  access : FileAccess := .readOnly
  create : CreateDisposition := .openExisting
  truncate : Bool := false
  deriving DecidableEq

def requiredDirectoryRights (options : OpenOptions) : Result RightsMask :=
  let access := match options.access with
    | .readOnly => openFileRead
    | .writeOnly => openFileWrite
    | .readWrite => openFileRead ||| openFileWrite
  let create := match options.create with
    | .openExisting => 0
    | .createExclusive => createFile
    | .openOrCreate => createFile
  if options.truncate ∧ options.access ≠ .writeOnly ∧ options.access ≠ .readWrite then
    .error (storageError invalidOptions)
  else .ok (access ||| create)

structure File where
  handle : Int32 := -1
  readable : Bool := false
  writable : Bool := false
  deriving DecidableEq

structure Directory where
  handle : Int32 := -1

def Directory.valid (d : Directory) : Bool := decide (0 ≤ d.handle)

def rightsForFile (file : File) : RightsMask :=
  let rights := FileRights.stat
  let rights := if file.readable then rights ||| FileRights.read else rights
  if file.writable then rights ||| (FileRights.write ||| FileRights.sync) else rights

/-- Which ways `open_flags` opens a file. -/
def openFlags (options : OpenOptions) : Result (Bool × Bool) :=
  let ways := match options.access with
    | .readOnly => (true, false)
    | .writeOnly => (false, true)
    | .readWrite => (true, true)
  if options.truncate && !ways.2 then .error (storageError invalidOptions) else .ok ways

/-- `opened` is what the calls of the operating system come to. -/
def Directory.openFile (d : Directory) (path : RelativePath) (options : OpenOptions)
    (opened : Result Int32) : Result File := do
  ensure (d.valid && path.valid) (storageError invalidPath)
  let (readable, writable) ← openFlags options
  let handle ← opened
  .ok { handle, readable, writable }

def Directory.openDirectory (d : Directory) (path : RelativePath) (opened : Result Int32) :
    Result Directory := do
  ensure (d.valid && path.valid) (storageError invalidPath)
  let handle ← opened
  .ok { handle }

/-- The operations of a directory that return nothing. -/
def Directory.perform (d : Directory) (path : RelativePath) (performed : Result Unit) :
    Result Unit := do
  ensure (d.valid && path.valid) (storageError invalidPath)
  performed

def File.checkAccess (file : File) (allowed : Bool) (offset : UInt64) : Result Unit := do
  ensure (decide (0 ≤ file.handle)) (storageError ioFailure)
  ensure allowed (storageError accessDenied)
  ensure (decide (offset ≤ 0x7FFFFFFFFFFFFFFF)) (storageError invalidOffset)

/-- `read` is what `pread` gives, which is never more than was asked for. -/
def File.readAt (file : File) (offset : UInt64) (count : Nat) (read : Result (List UInt8)) :
    Result (List UInt8) := do
  file.checkAccess file.readable offset
  if count = 0 then .ok []
  else
    let bytes ← read
    .ok (bytes.take count)

def File.writeAt (file : File) (offset : UInt64) (input : List UInt8) (written : Result Nat) :
    Result Nat := do
  file.checkAccess file.writable offset
  if input.isEmpty then .ok 0
  else
    let count ← written
    .ok (min count input.length)

def File.size (file : File) (size : Result UInt64) : Result UInt64 := do
  ensure (decide (0 ≤ file.handle)) (storageError ioFailure)
  size

def File.sync (file : File) (performed : Result Unit) : Result Unit := do
  file.checkAccess file.writable 0
  performed

structure PrivateRoot where
  root : Directory := {}

def PrivateRoot.valid (r : PrivateRoot) : Bool := r.root.valid

structure RootEntry where
  occupied : Bool := false
  principal : PrincipalId := {}
  user : UserId := 0
  root : PrivateRoot := {}

def RootEntry.owner (e : RootEntry) : Option (PrincipalId × UserId) :=
  if e.occupied then some (e.principal, e.user) else none

/-- A pointer to a root is the place of its entry. -/
abbrev RootPlace := Nat

structure PrivateRootRegistry where
  entries : List RootEntry := List.replicate maxPrivateRoots {}

namespace PrivateRootRegistry

def find (r : PrivateRootRegistry) (principal : PrincipalId) (user : UserId) : Option RootPlace :=
  r.entries.findIdx? fun e => decide (e.owner = some (principal, user))

/-- What a pointer shows. -/
def deref (r : PrivateRootRegistry) (place : RootPlace) : PrivateRoot :=
  (r.entries.getD place {}).root

def registerRoot (r : PrivateRootRegistry) (principal : PrincipalId) (user : UserId)
    (root : PrivateRoot) : PrivateRootRegistry × Result Unit :=
  if !validPrincipal principal || !root.valid then (r, .error (storageError invalidRoot))
  else if (r.find principal user).isSome then
    (r, .error (storageError rootAlreadyRegistered))
  else
    match insert RootEntry.owner { occupied := true, principal, user, root } r.entries with
    | none => (r, .error (storageError objectLimit))
    | some entries => ({ entries }, .ok ())

def unregisterRoot (r : PrivateRootRegistry) (principal : PrincipalId) (user : UserId) :
    PrivateRootRegistry × Result Unit :=
  if !validPrincipal principal then (r, .error (storageError invalidRoot))
  else
    match r.find principal user with
    | none => (r, .error (storageError rootNotRegistered))
    | some place => ({ entries := r.entries.set place {} }, .ok ())

end PrivateRootRegistry

inductive SlotKind where
  | none | rootDirectory | directory | file
  deriving DecidableEq

/-- A descriptor that the operating system has given out. -/
structure NativeHandle where
  fd : Int32
  nonneg : 0 ≤ fd

/-- A directory that an object was opened through, with the rights it carried then and
the path that was opened in it. -/
structure Hop where
  rights : RightsMask
  path : RelativePath

/-- How an object came about: the caller whose private root it descends from, and the
directories on the way, from the root on. The service does not keep this. -/
structure Derivation where
  caller : PeerIdentity := {}
  hops : List Hop := []

/-- An open object: its rights, and whom it was opened for. -/
structure ObjectSlot where
  occupied : Bool := false
  kind : SlotKind := .none
  rights : RightsMask := 0
  principal : PrincipalId := {}
  user : UserId := 0
  root : Option RootPlace := none
  namespacePath : RelativePath := {}
  directory : Directory := {}
  file : File := {}
  endpoint : Option NativeHandle := none
  derivation : Derivation := {}

namespace ObjectSlot

def ownedBy (slot : ObjectSlot) (principal : PrincipalId) (user : UserId) : Bool :=
  slot.occupied && slot.principal == principal && slot.user == user

def isDirectory (slot : ObjectSlot) : Bool := slot.kind == .rootDirectory || slot.kind == .directory

def isFile (slot : ObjectSlot) : Bool := slot.kind == .file

/-- Where an object opened under this one comes from. -/
def extended (slot : ObjectSlot) (path : RelativePath) : Derivation :=
  { slot.derivation with hops := slot.derivation.hops ++ [{ rights := slot.rights, path }] }

def canonicalNamespacePath (slot : ObjectSlot) (path : RelativePath) : Result RelativePath :=
  if !slot.namespacePath.valid then .ok path else joinRelativePaths slot.namespacePath path

end ObjectSlot

/-- The roots and the objects clients hold. -/
structure StorageService where
  roots : PrivateRootRegistry := {}
  objects : List ObjectSlot := List.replicate maxStorageObjects {}
  protectedReplace : Bool := false

namespace StorageService

def slotAt (s : StorageService) (index : Nat) : ObjectSlot := s.objects.getD index {}

def allocateSlot (s : StorageService) (principal : PrincipalId) (user : UserId) : Result Nat :=
  if maxStorageObjectsPerPrincipal ≤ s.objects.countP fun slot => slot.ownedBy principal user then
    .error (storageError principalObjectLimit)
  else
    match s.objects.findIdx? fun slot => !slot.occupied with
    | some index => .ok index
    | none => .error (storageError objectLimit)

def setSlot (s : StorageService) (index : Nat) (slot : ObjectSlot) : StorageService :=
  { s with objects := s.objects.set index slot }

def clearSlot (s : StorageService) (index : Nat) : StorageService := s.setSlot index {}

def clearObjectsFor (s : StorageService) (principal : PrincipalId) (user : UserId) :
    StorageService :=
  { s with objects := s.objects.map fun slot => if slot.ownedBy principal user then {} else slot }

/-- The directory that a slot stands for, if it stands for one. -/
def directoryOf (s : StorageService) (slot : ObjectSlot) : Option Directory :=
  match slot.kind, slot.root with
  | .rootDirectory, some place => some (s.roots.deref place).root
  | .directory, _ => some slot.directory
  | _, _ => none

end StorageService

end Enml.OsStorage
