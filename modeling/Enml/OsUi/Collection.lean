import Enml.OsUi.Types

/-! Collections of items: one window of the content of one revision, and the changes that
lead from one revision to the next. -/
namespace Enml.OsUi

def maxCollectionItems : Nat := 1000000

def maxMaterializedCollectionItems : Nat := maxUiChildrenPerNode

def maxCollectionChanges : Nat := 16

structure CollectionWindow where
  firstIndex : UInt32 := 0
  count : UInt16 := 0
  firstItemOffsetQ6 : Int32 := 0
  itemExtentQ6 : UInt32 := 0
  contentExtentQ6 : UInt64 := 0

def CollectionWindow.endIndex (w : CollectionWindow) : UInt32 := w.firstIndex + w.count.toUInt32

structure CollectionDataSnapshot where
  revision : UInt64 := 0
  itemCount : UInt32 := 0

structure CollectionItemContent where
  primaryLabel : SemanticText := {}
  secondaryLabel : SemanticText := {}
  enabled : Bool := true
  selected : Bool := false

/-- An item at its place in the list. -/
structure CollectionPublishedItem where
  itemIndex : UInt32 := 0
  itemKey : UInt64 := 0
  content : CollectionItemContent := {}

structure CollectionContentWindow where
  revision : UInt64 := 0
  window : CollectionWindow := {}
  items : Vector CollectionPublishedItem 32 := Vector.replicate 32 {}
  count : UInt16 := 0

/-- The items the window has. The others of the array mean nothing. -/
def CollectionContentWindow.published (w : CollectionContentWindow) :
    List CollectionPublishedItem := w.items.toList.take w.count.toNat

inductive CollectionChangeKind where
  | insert | remove | move | update | reset

structure CollectionChange where
  kind : CollectionChangeKind := .update
  index : UInt32 := 0
  count : UInt32 := 0
  destinationIndex : UInt32 := 0

structure CollectionChangeSet where
  fromRevision : UInt64 := 0
  toRevision : UInt64 := 0
  oldItemCount : UInt32 := 0
  newItemCount : UInt32 := 0
  changes : Vector CollectionChange 16 := Vector.replicate 16 {}
  count : UInt8 := 0

def CollectionChangeSet.applied (c : CollectionChangeSet) : List CollectionChange :=
  c.changes.toList.take c.count.toNat

/-- The number of items after one change, when the change can be made. -/
def applyChange (change : CollectionChange) (currentCount finalCount : UInt32)
    (resetIsOnlyChange : Bool) : Option UInt32 :=
  match change.kind with
  | .insert =>
    if change.count = 0 ∨ change.destinationIndex ≠ 0 ∨ currentCount < change.index then none
    else if maxCollectionItems < currentCount.toNat + change.count.toNat then none
    else some (UInt32.ofNat (currentCount.toNat + change.count.toNat))
  | .remove =>
    if change.count = 0 ∨ change.destinationIndex ≠ 0 then none
    else if currentCount.toNat < change.index.toNat + change.count.toNat then none
    else some (currentCount - change.count)
  | .move =>
    if change.count = 0 then none
    else if currentCount.toNat < change.index.toNat + change.count.toNat then none
    else if currentCount - change.count < change.destinationIndex then none
    else some currentCount
  | .update =>
    if change.count = 0 ∨ change.destinationIndex ≠ 0 then none
    else if currentCount.toNat < change.index.toNat + change.count.toNat then none
    else some currentCount
  | .reset =>
    if !resetIsOnlyChange ∨ change.index ≠ 0 ∨ change.count ≠ 0 ∨ change.destinationIndex ≠ 0 then
      none
    else some finalCount

def applyChanges (finalCount : UInt32) (resetIsOnlyChange : Bool) :
    (currentCount : UInt32) → List CollectionChange → Option UInt32
  | currentCount, [] => some currentCount
  | currentCount, change :: rest => do
      let next ← applyChange change currentCount finalCount resetIsOnlyChange
      applyChanges finalCount resetIsOnlyChange next rest

def collectionChangeSetValid (c : CollectionChangeSet) : Bool :=
  if c.fromRevision = 0 ∨ c.toRevision = 0 ∨ c.fromRevision = c.toRevision ∨
      maxCollectionItems < c.oldItemCount.toNat ∨ maxCollectionItems < c.newItemCount.toNat ∨
      c.count = 0 ∨ maxCollectionChanges < c.count.toNat then false
  else
    applyChanges c.newItemCount (c.count == 1) c.oldItemCount c.applied == some c.newItemCount

end Enml.OsUi
