import Enml.OsDisplay.Compositor

/-! The scene as it is stacked, and which surface takes an input event. An event is
tested against the scene when it is taken and again when it is delivered. -/
namespace Enml.OsDisplay

open Enml.Core

namespace Errors
def staleInputHit : UInt32 := 25
def obscuredInput : UInt32 := 30
end Errors

open Errors

inductive TrustedPresentation where
  | none | systemChrome | secureSystem
  deriving DecidableEq

def roleBand : SurfaceRole → Nat
  | .application => 1
  | .popup => 1
  | .systemChrome => 2
  | .secureSystem => 3

def roleRankWithinBand (role : SurfaceRole) : Nat := if role = .popup then 2 else 1

def captureAllowedFor : SurfaceRole → Bool
  | .application => true
  | .popup => false
  | .systemChrome => false
  | .secureSystem => false

def trustedPresentationFor : SurfaceRole → TrustedPresentation
  | .application => .none
  | .popup => .none
  | .systemChrome => .systemChrome
  | .secureSystem => .secureSystem

structure SceneEntry where
  surface : SurfaceDescriptor := {}
  buffer : BufferId := 0
  frameSequence : UInt64 := 0
  bufferSlot : UInt8 := 0
  hasFrame : Bool := false
  captureAllowed : Bool := false
  trustedPresentation : TrustedPresentation := .none

def Slot.entry (s : Slot) : SceneEntry where
  surface := s.descriptor
  buffer := s.buffer
  frameSequence := s.frameSequence
  bufferSlot := s.bufferSlot
  hasFrame := s.hasFrame
  captureAllowed := captureAllowedFor s.descriptor.role
  trustedPresentation := trustedPresentationFor s.descriptor.role

/-- The left surface is stacked above the right one. -/
def Slot.after (left right : Slot) : Bool :=
  let leftBand := roleBand left.descriptor.role
  let rightBand := roleBand right.descriptor.role
  if leftBand ≠ rightBand then decide (rightBand < leftBand)
  else if leftBand = 1 ∧ left.stackSerial ≠ right.stackSerial then
    decide (right.stackSerial < left.stackSerial)
  else
    let leftRank := roleRankWithinBand left.descriptor.role
    let rightRank := roleRankWithinBand right.descriptor.role
    if leftRank ≠ rightRank then decide (rightRank < leftRank)
    else decide (right.creationSerial < left.creationSerial)

/-- The inner loop of the sort. The sorted part is given from its end on, where the
loop begins. -/
def placeSlot (current : Slot) : List Slot → List Slot
  | [] => [current]
  | last :: rest =>
    if last.after current then last :: placeSlot current rest else current :: last :: rest

namespace Compositor

/-- The occupied slots, the lowest first. -/
def orderedSlots (c : Compositor) : List Slot :=
  ((c.slots.filter fun s => s.occupied).foldl (fun sorted s => placeSlot s sorted) []).reverse

def sceneSnapshot (c : Compositor) : List SceneEntry := c.orderedSlots.map Slot.entry

end Compositor

def pointInside (bounds : Rect) (x y : Int32) : Bool :=
  if x < bounds.x ∨ y < bounds.y then false
  else decide (x.toInt < bounds.x.toInt + bounds.width.toNat) &&
    decide (y.toInt < bounds.y.toInt + bounds.height.toNat)

def rectsOverlap (a b : Rect) : Bool :=
  decide (a.x.toInt < b.x.toInt + b.width.toNat) &&
    decide (b.x.toInt < a.x.toInt + a.width.toNat) &&
    decide (a.y.toInt < b.y.toInt + b.height.toNat) &&
    decide (b.y.toInt < a.y.toInt + a.height.toNat)

structure Obscuration where
  atPoint : Bool := false
  partially : Bool := false

/-- The entries above the target that draw something and belong to somebody else. -/
def foreignAbove (snapshot : List SceneEntry) (targetIndex : Nat) (targetOwner : PeerIdentity) :
    List SceneEntry :=
  (snapshot.drop (targetIndex + 1)).filter fun above =>
    above.surface.visibility == .visible && above.hasFrame && above.surface.owner != targetOwner

def obscurationAbove (snapshot : List SceneEntry) (targetIndex : Nat) (targetOwner : PeerIdentity)
    (targetBounds : Rect) (x y : Int32) : Obscuration where
  atPoint := (foreignAbove snapshot targetIndex targetOwner).any fun above =>
    pointInside above.surface.bounds x y
  partially := (foreignAbove snapshot targetIndex targetOwner).any fun above =>
    rectsOverlap above.surface.bounds targetBounds

structure SurfaceInputHit where
  surface : SurfaceId := 0
  owner : PeerIdentity := {}
  role : SurfaceRole := .application
  surfaceSize : PixelSize := {}
  frameSequence : UInt64 := 0
  localX : Int32 := 0
  localY : Int32 := 0
  trustedPresentation : TrustedPresentation := .none
  obscuredAtPoint : Bool := false
  partiallyObscured : Bool := false

def validDisplayObjectValue (value : UInt64) : Bool :=
  value >>> 32 != 0 && value &&& 0xFFFFFFFF != 0

def SurfaceInputHit.valid (hit : SurfaceInputHit) : Bool :=
  validDisplayObjectValue hit.surface && validPeerIdentity hit.owner && hit.surfaceSize.valid &&
    hit.frameSequence != 0 && decide (0 ≤ hit.localX) && decide (0 ≤ hit.localY) &&
    decide (hit.localX.toUInt32 < hit.surfaceSize.width) &&
    decide (hit.localY.toUInt32 < hit.surfaceSize.height)

/-- An entry that takes input at a point. -/
def SceneEntry.takes (entry : SceneEntry) (x y : Int32) : Bool :=
  entry.surface.visibility == .visible && entry.surface.acceptsInput && entry.hasFrame &&
    pointInside entry.surface.bounds x y

/-- The loops of both hit tests go down from the top. -/
def topmostIndex (snapshot : List SceneEntry) (x y : Int32) : Option Nat :=
  (List.range snapshot.length).reverse.find? fun index => (snapshot.getD index {}).takes x y

/-- What a hit says of its target is still so. -/
def Slot.answers (slot : Slot) (hit : SurfaceInputHit) : Bool :=
  slot.descriptor.owner == hit.owner && slot.descriptor.role == hit.role &&
    slot.descriptor.visibility == .visible && slot.descriptor.acceptsInput && slot.hasFrame &&
    slot.frameSequence == hit.frameSequence &&
    slot.descriptor.bounds.width == hit.surfaceSize.width &&
    slot.descriptor.bounds.height == hit.surfaceSize.height &&
    trustedPresentationFor slot.descriptor.role == hit.trustedPresentation

namespace Compositor

def hitTest (c : Compositor) (x y : Int32) : Result SurfaceId :=
  if !c.valid then .error (displayError invalidConfiguration)
  else
    match topmostIndex c.sceneSnapshot x y with
    | none => .error (displayError unknownSurface)
    | some index => .ok (c.sceneSnapshot.getD index {}).surface.id

def hitOf (entry : SceneEntry) (x y : Int32) : SurfaceInputHit where
  surface := entry.surface.id
  owner := entry.surface.owner
  role := entry.surface.role
  surfaceSize := { width := entry.surface.bounds.width, height := entry.surface.bounds.height }
  frameSequence := entry.frameSequence
  localX := (x.toInt64 - entry.surface.bounds.x.toInt64).toInt32
  localY := (y.toInt64 - entry.surface.bounds.y.toInt64).toInt32
  trustedPresentation := entry.trustedPresentation

def hitTestInput (c : Compositor) (x y : Int32) : Result SurfaceInputHit :=
  if !c.valid then .error (displayError invalidConfiguration)
  else
    match topmostIndex c.sceneSnapshot x y with
    | none => .error (displayError unknownSurface)
    | some index =>
      let entry := c.sceneSnapshot.getD index {}
      let obscured := obscurationAbove c.sceneSnapshot index entry.surface.owner
        entry.surface.bounds x y
      if obscured.atPoint || obscured.partially then .error (displayError obscuredInput)
      else if !(hitOf entry x y).valid then .error (displayError invalidGeometry)
      else .ok (hitOf entry x y)

/-- The target of a hit is obscured in the scene of now. -/
def obscuredNow (c : Compositor) (hit : SurfaceInputHit) : Bool :=
  match c.sceneSnapshot.findIdx? fun entry => entry.surface.id == hit.surface with
  | none => false
  | some index =>
    let bounds := (c.sceneSnapshot.getD index {}).surface.bounds
    let obscured := obscurationAbove c.sceneSnapshot index hit.owner bounds
      (bounds.x + hit.localX) (bounds.y + hit.localY)
    obscured.atPoint || obscured.partially

def validateInputHit (c : Compositor) (hit : SurfaceInputHit) : Result Unit :=
  if !c.valid then .error (displayError invalidConfiguration)
  else if !hit.valid then .error (displayError staleInputHit)
  else if hit.obscuredAtPoint || hit.partiallyObscured then
    .error (displayError obscuredInput)
  else
    match c.findSlot hit.surface with
    | none => .error (displayError staleInputHit)
    | some slot =>
      if !slot.answers hit then .error (displayError staleInputHit)
      else if c.obscuredNow hit then .error (displayError obscuredInput)
      else .ok ()

end Compositor

end Enml.OsDisplay
