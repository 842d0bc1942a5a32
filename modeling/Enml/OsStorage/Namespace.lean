import Enml.Core.Identity
import Enml.Lib.Packed
import Enml.OsStorage.Path

/-! The protected namespace. A name selects an entry, and the entry names the version
of a protected object. What the source of object identifiers answers is an input of
`create`. -/
namespace Enml.OsStorage

open Enml.Core SlotTable

def maxProtectedNamespaceEntries : Nat := 64

namespace ProtectedNamespaceErrors
def notFound : UInt32 := 1
def alreadyExists : UInt32 := 2
def capacity : UInt32 := 3
def generationConflict : UInt32 := 4
def invalidIdentity : UInt32 := 5
def duplicateObject : UInt32 := 6
end ProtectedNamespaceErrors

open ProtectedNamespaceErrors

def protectedNamespaceError (code : UInt32) : Error := makeError .storage (0x740 + code)

structure ProtectedObjectId where
  high : UInt64 := 0
  low : UInt64 := 0
  deriving DecidableEq

def ProtectedObjectId.valid (id : ProtectedObjectId) : Bool := id.high != 0 || id.low != 0

structure ProtectedObjectVersion where
  user : UserId := 0
  objectId : ProtectedObjectId := {}
  generation : UInt64 := 0
  deriving DecidableEq

def ProtectedObjectVersion.valid (v : ProtectedObjectVersion) : Bool :=
  v.user != 0 && v.objectId.valid && v.generation != 0

/-- The object and generation that a path names. -/
structure ProtectedNamespaceEntry where
  principal : PrincipalId := {}
  user : UserId := 0
  path : RelativePath := {}
  objectId : ProtectedObjectId := {}
  generation : UInt64 := 0
  deriving DecidableEq

namespace ProtectedNamespaceEntry

def valid (e : ProtectedNamespaceEntry) : Bool :=
  validPrincipal e.principal && e.user != 0 && e.path.valid && e.objectId.valid && e.generation != 0

def version (e : ProtectedNamespaceEntry) : ProtectedObjectVersion :=
  { user := e.user, objectId := e.objectId, generation := e.generation }

/-- What an entry is found by. -/
def name (e : ProtectedNamespaceEntry) : PrincipalId × UserId × RelativePath :=
  (e.principal, e.user, e.path)

/-- What an entry stands for, whatever its generation. -/
def object (e : ProtectedNamespaceEntry) : UserId × ProtectedObjectId := (e.user, e.objectId)

end ProtectedNamespaceEntry

structure NamespaceSlot where
  occupied : Bool := false
  entry : ProtectedNamespaceEntry := {}

def NamespaceSlot.name (slot : NamespaceSlot) : Option (PrincipalId × UserId × RelativePath) :=
  if slot.occupied then some slot.entry.name else none

/-- What every path of every user names. -/
structure ProtectedNamespaceRegistry where
  slots : List NamespaceSlot := List.replicate maxProtectedNamespaceEntries {}
  size : slots.length = maxProtectedNamespaceEntries := by simp

namespace ProtectedNamespaceRegistry

def find (principal : PrincipalId) (user : UserId) (path : RelativePath)
    (r : ProtectedNamespaceRegistry) : Option ProtectedNamespaceEntry :=
  (lookup NamespaceSlot.name (principal, user, path) r.slots).map fun slot => slot.entry

/-- Change the entry that a name selects. -/
def update (principal : PrincipalId) (user : UserId) (path : RelativePath)
    (f : ProtectedNamespaceEntry → ProtectedNamespaceEntry) (r : ProtectedNamespaceRegistry) :
    ProtectedNamespaceRegistry where
  slots := modify NamespaceSlot.name (principal, user, path)
    (fun slot => { slot with entry := f slot.entry }) r.slots
  size := by rw [length_modify, r.size]

/-- Take the first slot that is free. -/
def place (entry : ProtectedNamespaceEntry) (r : ProtectedNamespaceRegistry) :
    Option ProtectedNamespaceRegistry :=
  match h : insert NamespaceSlot.name { occupied := true, entry } r.slots with
  | none => none
  | some slots => some { slots, size := by rw [length_insert h, r.size] }

def hasFree (r : ProtectedNamespaceRegistry) : Bool := r.slots.any fun slot => !slot.occupied

def hasObject (user : UserId) (objectId : ProtectedObjectId)
    (r : ProtectedNamespaceRegistry) : Bool :=
  r.slots.any fun slot =>
    slot.occupied && slot.entry.user == user && slot.entry.objectId == objectId

/-- `next` is what the source of identifiers answers. -/
def create (principal : PrincipalId) (user : UserId) (path : RelativePath)
    (next : Result ProtectedObjectId) : Call ProtectedNamespaceRegistry ProtectedNamespaceEntry :=
  fun r =>
    if !validPrincipal principal || user == 0 || !path.valid then
      (r, .error (protectedNamespaceError invalidIdentity))
    else if (r.find principal user path).isSome then
      (r, .error (protectedNamespaceError alreadyExists))
    else if !r.hasFree then
      (r, .error (protectedNamespaceError capacity))
    else
      match next with
      | .error e => (r, .error e)
      | .ok objectId =>
        if !objectId.valid then
          (r, .error (protectedNamespaceError invalidIdentity))
        else if r.hasObject user objectId then
          (r, .error (protectedNamespaceError duplicateObject))
        else
          let entry : ProtectedNamespaceEntry :=
            { principal, user, path, objectId, generation := 1 }
          -- A free slot has been seen, and `next` does not change the table.
          match r.place entry with
          | none => (r, .error (protectedNamespaceError capacity))
          | some after => (after, .ok entry)

def publishGeneration (principal : PrincipalId) (user : UserId) (path : RelativePath)
    (expectedGeneration newGeneration : UInt64) : Call ProtectedNamespaceRegistry Unit := fun r =>
  match r.find principal user path with
  | none => (r, .error (protectedNamespaceError notFound))
  | some entry =>
    if expectedGeneration = 0 ∨ newGeneration = 0 ∨ entry.generation ≠ expectedGeneration ∨
        newGeneration ≤ expectedGeneration then
      (r, .error (protectedNamespaceError generationConflict))
    else (r.update principal user path fun e => { e with generation := newGeneration }, .ok ())

/-- The entries of a user, in the order of the slots. -/
def userEntries (user : UserId) (r : ProtectedNamespaceRegistry) : List ProtectedNamespaceEntry :=
  (r.slots.filter fun slot => slot.occupied && slot.entry.user == user).map fun slot => slot.entry

/-- Copy into a span that has room for `room` entries. -/
def copyUserEntries (user : UserId) (room : Nat) (r : ProtectedNamespaceRegistry) :
    Result (List ProtectedNamespaceEntry) :=
  if user = 0 then .error (protectedNamespaceError invalidIdentity)
  else if room < (r.userEntries user).length then
    .error (protectedNamespaceError capacity)
  else .ok (r.userEntries user)

/-- The inner loop: an entry against those behind it. -/
def checkAgainst (entry : ProtectedNamespaceEntry) : List ProtectedNamespaceEntry → Result Unit
  | [] => .ok ()
  | other :: rest =>
    if entry.principal = other.principal ∧ entry.path = other.path then
      .error (protectedNamespaceError alreadyExists)
    else if entry.objectId = other.objectId then
      .error (protectedNamespaceError duplicateObject)
    else checkAgainst entry rest

def checkReplacement (user : UserId) : List ProtectedNamespaceEntry → Result Unit
  | [] => .ok ()
  | entry :: rest =>
    if !entry.valid || entry.user != user then
      .error (protectedNamespaceError invalidIdentity)
    else
      match checkAgainst entry rest with
      | .error e => .error e
      | .ok () => checkReplacement user rest

/-- The slots of the other users, which stay. -/
def otherSlots (user : UserId) (r : ProtectedNamespaceRegistry) : List NamespaceSlot :=
  r.slots.filter fun slot => slot.occupied && slot.entry.user != user

theorem otherSlots_le (user : UserId) (r : ProtectedNamespaceRegistry) :
    (r.otherSlots user).length ≤ maxProtectedNamespaceEntries := by
  rw [← r.size]
  exact List.length_filter_le ..

/-- The new array: the others from the front, then the entries, then free slots. The
others always fit, since they come from an array of the same size. -/
def rebuilt (user : UserId) (entries : List ProtectedNamespaceEntry)
    (r : ProtectedNamespaceRegistry) : List NamespaceSlot :=
  packed {} maxProtectedNamespaceEntries
    (r.otherSlots user ++ entries.map fun entry => { occupied := true, entry })

def replaceUserEntries (user : UserId) (entries : List ProtectedNamespaceEntry) :
    Call ProtectedNamespaceRegistry Unit := fun r =>
  if user = 0 ∨ maxProtectedNamespaceEntries < entries.length then
    (r, .error (protectedNamespaceError invalidIdentity))
  else
    match checkReplacement user entries with
    | .error e => (r, .error e)
    | .ok () =>
      if h : maxProtectedNamespaceEntries - (r.otherSlots user).length < entries.length then
        (r, .error (protectedNamespaceError capacity))
      else
        ({ slots := r.rebuilt user entries
           size := by
            have hOthers := r.otherSlots_le user
            refine length_packed ?_
            rw [List.length_append, List.length_map]
            omega }, .ok ())

end ProtectedNamespaceRegistry

inductive NamespaceOp where
  | create (principal : PrincipalId) (user : UserId) (path : RelativePath)
      (next : Result ProtectedObjectId)
  | publishGeneration (principal : PrincipalId) (user : UserId) (path : RelativePath)
      (expectedGeneration newGeneration : UInt64)
  | replaceUserEntries (user : UserId) (entries : List ProtectedNamespaceEntry)

def ProtectedNamespaceRegistry.step (r : ProtectedNamespaceRegistry) :
    NamespaceOp → ProtectedNamespaceRegistry × Result Unit
  | .create principal user path next =>
    match r.create principal user path next with
    | (after, .ok _) => (after, .ok ())
    | (after, .error e) => (after, .error e)
  | .publishGeneration principal user path expectedGeneration newGeneration =>
    r.publishGeneration principal user path expectedGeneration newGeneration
  | .replaceUserEntries user entries => r.replaceUserEntries user entries

end Enml.OsStorage
