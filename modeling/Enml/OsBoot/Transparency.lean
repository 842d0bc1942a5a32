import Enml.Core.Result

/-! `transparency`: the check that an update is in the release log. A loop that
does not end is given no outcome, for any number of rounds. -/
namespace Enml.OsBoot

open Enml.Core

def maxInclusionPath : Nat := 40
def maxLeafBytes : Nat := 4096
def leafPrefix : UInt8 := 0x00
def nodePrefix : UInt8 := 0x01

namespace TransparencyErrors
def invalidTree : UInt32 := 1
def invalidLeafIndex : UInt32 := 2
def pathLengthMismatch : UInt32 := 3
def pathTooLong : UInt32 := 4
def rootMismatch : UInt32 := 5
def noHashProvider : UInt32 := 6
end TransparencyErrors

open TransparencyErrors

def transparencyError (code : UInt32) : Error := makeError .security code

abbrev LogDigest := Vector UInt8 32

abbrev HashFunction := List UInt8 → LogDigest

structure InclusionProof where
  leafIndex : UInt64
  treeSize : UInt64
  path : Vector LogDigest maxInclusionPath
  pathLength : UInt64

def hashNode (hash : HashFunction) (left right : LogDigest) : LogDigest :=
  hash (nodePrefix :: (left.toList ++ right.toList))

/-- `none` stands for a null pointer that comes with a length. -/
def hashLeaf (hash : Option HashFunction) (data : Option (List UInt8)) : Result LogDigest :=
  match hash, data with
  | some hash, some data =>
    if maxLeafBytes < data.length then .error (transparencyError invalidTree)
    else .ok (hash (leafPrefix :: data))
  | _, _ => .error (transparencyError noHashProvider)

/-- The loop that doubles `split`. The shift drops the bit that leaves the word. -/
def growSplit (size : UInt64) : Nat → UInt64 → Option UInt64
  | 0, _ => none
  | rounds + 1, split =>
    if split <<< 1 < size then growSplit size rounds (split <<< 1) else some split

/-- One level down: the side of the leaf, and its index and the size there. -/
def descend (rounds : Nat) (index size : UInt64) : Option (Bool × UInt64 × UInt64) := do
  let split ← growSplit size rounds 1
  if index < split then some (true, index, split) else some (false, index - split, size - split)

def countLevels (rounds : Nat) : Nat → Nat → UInt64 → UInt64 → Option (Result Nat)
  | 0, _, _, _ => none
  | more + 1, levels, index, size =>
    if maxInclusionPath < levels then
      some (.error (transparencyError pathTooLong))
    else if 1 < size then do
      let (_, index, size) ← descend rounds index size
      countLevels rounds more (levels + 1) index size
    else some (.ok levels)

def expectedPathLength (rounds : Nat) (leafIndex treeSize : UInt64) : Option (Result Nat) :=
  if treeSize = 0 then some (.error (transparencyError invalidTree))
  else if treeSize ≤ leafIndex then
    some (.error (transparencyError invalidLeafIndex))
  else countLevels rounds rounds 0 leafIndex treeSize

/-- `leaf_is_left`, from the root down. -/
def leafIsLeft (rounds : Nat) : Nat → UInt64 → UInt64 → Option (List Bool)
  | 0, _, _ => none
  | more + 1, index, size =>
    if 1 < size then do
      let (left, index, size) ← descend rounds index size
      let below ← leafIsLeft rounds more index size
      some (left :: below)
    else some []

/-- The way back up, which uses as much of the path as there are levels. -/
def computeRoot (hash : HashFunction) (leaf : LogDigest) (levels : List Bool)
    (path : List LogDigest) : LogDigest :=
  (levels.reverse.zip path).foldl (fun computed (left, beside) =>
    if left then hashNode hash computed beside else hashNode hash beside computed) leaf

def verifyInclusion (rounds : Nat) (hash : Option HashFunction) (leaf : LogDigest)
    (proof : InclusionProof) (root : LogDigest) : Option (Result Unit) :=
  match hash with
  | none => some (.error (transparencyError noHashProvider))
  | some hash =>
    if maxInclusionPath < proof.pathLength.toNat then
      some (.error (transparencyError pathTooLong))
    else do
      match ← expectedPathLength rounds proof.leafIndex proof.treeSize with
      | .error e => some (.error e)
      | .ok required =>
        if required ≠ proof.pathLength.toNat then
          some (.error (transparencyError pathLengthMismatch))
        else do
          let levels ← leafIsLeft rounds rounds proof.leafIndex proof.treeSize
          if computeRoot hash leaf levels proof.path.toList = root then some (.ok ())
          else some (.error (transparencyError rootMismatch))

end Enml.OsBoot
