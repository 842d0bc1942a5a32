import Enml.Core.Identity
import Enml.Lib.SlotTable

/-! The surface table of the compositor. Applications own surfaces, popups follow
the application surface they belong to, and the shell decides which application
is in front. -/
namespace Enml.OsDisplay

open Enml.Core

namespace Errors
def invalidConfiguration : UInt32 := 1
def invalidIdentity : UInt32 := 2
def invalidRole : UInt32 := 3
def invalidGeometry : UInt32 := 4
def surfaceLimit : UInt32 := 5
def principalSurfaceLimit : UInt32 := 6
def unknownSurface : UInt32 := 7
def ownerMismatch : UInt32 := 8
def invalidParent : UInt32 := 9
def frameReplay : UInt32 := 10
def invalidBufferSlot : UInt32 := 11
def invalidDamage : UInt32 := 12
def surfaceIdExhausted : UInt32 := 13
def applicationSurfaceExists : UInt32 := 14
def activationDenied : UInt32 := 15
def invalidBuffer : UInt32 := 17
end Errors

open Errors

def displayError (code : UInt32) : Error := makeError .display code

abbrev SurfaceId := UInt64

abbrev BufferId := UInt64

def maxDisplayObjectGeneration : UInt64 := 0xFFFFFFFF
def maxDisplayDimensionPx : UInt32 := 16384
def maxSurfaces : Nat := 64
def maxSurfacesPerPrincipal : Nat := 8
def maxDamageRectangles : Nat := 8
def maxFrameBufferSlots : UInt8 := 3
def nsPerMillihertzPeriod : UInt64 := 1000000000000

def validDisplayGeneration (generation : UInt64) : Bool :=
  generation != 0 && decide (generation ≤ maxDisplayObjectGeneration)

def makeDisplayObjectValue (generation : UInt64) (serial : UInt32) : UInt64 :=
  if !validDisplayGeneration generation || serial == 0 then 0
  else (generation <<< 32) ||| serial.toUInt64

structure PixelSize where
  width : UInt32 := 0
  height : UInt32 := 0

def PixelSize.valid (s : PixelSize) : Bool :=
  s.width != 0 && s.height != 0 && decide (s.width ≤ maxDisplayDimensionPx) &&
    decide (s.height ≤ maxDisplayDimensionPx)

structure Rect where
  x : Int32 := 0
  y : Int32 := 0
  width : UInt32 := 0
  height : UInt32 := 0
  deriving DecidableEq

def Rect.nonempty (r : Rect) : Bool := r.width != 0 && r.height != 0

/-- The rectangle is not empty, and ends within the width and height. -/
def Rect.fits (r : Rect) (width height : UInt32) : Bool :=
  r.nonempty && decide (0 ≤ r.x) && decide (0 ≤ r.y) &&
    decide (r.x.toUInt32.toNat + r.width.toNat ≤ width.toNat) &&
    decide (r.y.toUInt32.toNat + r.height.toNat ≤ height.toNat)

structure SafeInsets where
  top : UInt32 := 0
  right : UInt32 := 0
  bottom : UInt32 := 0
  left : UInt32 := 0

inductive SurfaceRole where
  | application | popup | systemChrome | secureSystem
  deriving DecidableEq

inductive SurfaceVisibility where
  | hidden | visible
  deriving DecidableEq

structure DisplayConfiguration where
  size : PixelSize := {}
  safeInsets : SafeInsets := {}
  refreshMillihz : UInt32 := 0
  compositorMarginNs : UInt64 := 0

structure TrustedUiPrincipals where
  shell : PrincipalId := {}
  secureUi : PrincipalId := {}

structure CreateSurfaceRequest where
  role : SurfaceRole := .application
  parent : SurfaceId := 0
  bounds : Rect := {}
  acceptsInput : Bool := true

structure SurfaceDescriptor where
  id : SurfaceId := 0
  owner : PeerIdentity := {}
  role : SurfaceRole := .application
  parent : SurfaceId := 0
  bounds : Rect := {}
  visibility : SurfaceVisibility := .hidden
  acceptsInput : Bool := true
  deriving DecidableEq

/-- A frame as its owner submits it. -/
structure FrameSubmission where
  surface : SurfaceId := 0
  buffer : BufferId := 0
  sequence : UInt64 := 0
  bufferSlot : UInt8 := 0
  damageCount : UInt8 := 0
  damage : Vector Rect maxDamageRectangles := Vector.replicate maxDamageRectangles {}

structure FrameDeadline where
  nextVsyncNs : UInt64
  submissionDeadlineNs : UInt64

structure FrameReceipt where
  surface : SurfaceId
  buffer : BufferId
  sequence : UInt64
  deadline : FrameDeadline

/-- A surface, its place in the stack and its last frame. -/
structure Slot where
  occupied : Bool := false
  descriptor : SurfaceDescriptor := {}
  creationSerial : UInt64 := 0
  stackSerial : UInt64 := 0
  buffer : BufferId := 0
  frameSequence : UInt64 := 0
  bufferSlot : UInt8 := 0
  hasFrame : Bool := false
  deriving DecidableEq

def Slot.key (s : Slot) : Option SurfaceId := if s.occupied then some s.descriptor.id else none

/-- The surfaces of one display. -/
structure Compositor where
  configuration : DisplayConfiguration
  trustedPrincipals : TrustedUiPrincipals
  slots : List Slot := List.replicate maxSurfaces {}
  objectGeneration : UInt32 := 1
  nextSurfaceSerial : UInt32 := 1
  nextCreationSerial : UInt64 := 1
  nextStackSerial : UInt64 := 1
  surfaceCount : UInt64 := 0
  valid : Bool := false

namespace Compositor

/-- The checks of the constructor once the generation and the principals are
accepted. -/
def configurationValid (configuration : DisplayConfiguration) : Bool :=
  let insets := configuration.safeInsets
  let interval := nsPerMillihertzPeriod / configuration.refreshMillihz.toUInt64
  decide (insets.left.toNat + insets.right.toNat < configuration.size.width.toNat) &&
    decide (insets.top.toNat + insets.bottom.toNat < configuration.size.height.toNat) &&
    interval != 0 && decide (configuration.compositorMarginNs < interval)

def create (configuration : DisplayConfiguration) (trustedPrincipals : TrustedUiPrincipals)
    (serviceGeneration : UInt64) : Compositor :=
  if !validDisplayGeneration serviceGeneration || !configuration.size.valid ||
      configuration.refreshMillihz == 0 || !validPrincipal trustedPrincipals.shell ||
      !validPrincipal trustedPrincipals.secureUi ||
      trustedPrincipals.shell == trustedPrincipals.secureUi then
    { configuration, trustedPrincipals }
  else
    { configuration, trustedPrincipals
      objectGeneration := serviceGeneration.toUInt32
      valid := configurationValid configuration }

def roleAllowed (c : Compositor) (owner : PeerIdentity) : SurfaceRole → Bool
  | .application => true
  | .popup => true
  | .systemChrome => owner.principal == c.trustedPrincipals.shell
  | .secureSystem => owner.principal == c.trustedPrincipals.secureUi

def boundsValid (c : Compositor) (bounds : Rect) : Bool :=
  c.valid && bounds.fits c.configuration.size.width c.configuration.size.height

def findSlot (c : Compositor) (surface : SurfaceId) : Option Slot :=
  if surface = 0 then none else SlotTable.lookup Slot.key surface c.slots

def parentValid (c : Compositor) (owner : PeerIdentity) (request : CreateSurfaceRequest) : Bool :=
  if request.role ≠ .popup then request.parent == 0
  else
    match c.findSlot request.parent with
    | none => false
    | some parent => parent.descriptor.owner == owner && parent.descriptor.role == .application

def processHasApplicationSurface (c : Compositor) (process : ProcessId) : Bool :=
  process != 0 && c.slots.any fun s =>
    s.occupied && s.descriptor.owner.process == process && s.descriptor.role == .application

def surfaceCountFor (c : Compositor) (principal : PrincipalId) : Nat :=
  if !validPrincipal principal then 0
  else c.slots.countP fun s => s.occupied && s.descriptor.owner.principal == principal

/-- The slot is filled with the surface the request asks for. -/
def store (c : Compositor) (owner : PeerIdentity) (request : CreateSurfaceRequest)
    (id : SurfaceId) (creationSerial stackSerial : UInt64) :
    Compositor × Result SurfaceDescriptor :=
  let descriptor : SurfaceDescriptor :=
    { id, owner, role := request.role, parent := request.parent, bounds := request.bounds
      visibility := .hidden, acceptsInput := request.acceptsInput }
  match SlotTable.insert Slot.key { occupied := true, descriptor, creationSerial, stackSerial }
      c.slots with
  | none => (c, .error (displayError surfaceLimit))
  | some slots => ({ c with slots, surfaceCount := c.surfaceCount + 1 }, .ok descriptor)

/-- The serials are taken before the slot is filled. -/
def numbered (c : Compositor) (owner : PeerIdentity) (request : CreateSurfaceRequest)
    (id : SurfaceId) : Compositor × Result SurfaceDescriptor :=
  let creationSerial := c.nextCreationSerial
  let c := { c with
    nextSurfaceSerial := if c.nextSurfaceSerial = 0xFFFFFFFF then 0 else c.nextSurfaceSerial + 1
    nextCreationSerial := c.nextCreationSerial + 1 }
  match request.role with
  | .application =>
    { c with nextStackSerial := c.nextStackSerial + 1 }.store owner request id creationSerial
      c.nextStackSerial
  | .popup =>
    match c.findSlot request.parent with
    | none => (c, .error (displayError invalidParent))
    | some parent => c.store owner request id creationSerial parent.stackSerial
  | .systemChrome => c.store owner request id creationSerial 0
  | .secureSystem => c.store owner request id creationSerial 0

def createSurface (c : Compositor) (owner : PeerIdentity) (request : CreateSurfaceRequest) :
    Compositor × Result SurfaceDescriptor :=
  if !c.valid then (c, .error (displayError invalidConfiguration))
  else if !validPeerIdentity owner then (c, .error (displayError invalidIdentity))
  else if !c.roleAllowed owner request.role then (c, .error (displayError invalidRole))
  else if !c.boundsValid request.bounds then (c, .error (displayError invalidGeometry))
  else if !c.parentValid owner request then (c, .error (displayError invalidParent))
  else if request.role = .application ∧ c.processHasApplicationSurface owner.process = true then
    (c, .error (displayError applicationSurfaceExists))
  else if maxSurfaces ≤ c.surfaceCount.toNat then (c, .error (displayError surfaceLimit))
  else if maxSurfacesPerPrincipal ≤ c.surfaceCountFor owner.principal then
    (c, .error (displayError principalSurfaceLimit))
  else if c.nextSurfaceSerial = 0 ∨ c.nextCreationSerial = 0 ∨
      (request.role = .application ∧ c.nextStackSerial = 0) then
    (c, .error (displayError surfaceIdExhausted))
  else if c.slots.all fun s => s.occupied then (c, .error (displayError surfaceLimit))
  else
    let id := makeDisplayObjectValue c.objectGeneration.toUInt64 c.nextSurfaceSerial
    if id = 0 then (c, .error (displayError surfaceIdExhausted))
    else c.numbered owner request id

def findOwnedSlot (c : Compositor) (caller : PeerIdentity) (surface : SurfaceId) : Result Slot :=
  if !validPeerIdentity caller then .error (displayError invalidIdentity)
  else
    match c.findSlot surface with
    | none => .error (displayError unknownSurface)
    | some slot =>
      if slot.descriptor.owner ≠ caller then .error (displayError ownerMismatch)
      else .ok slot

/-- Rewrite the slot that `findSlot` returns. -/
def modifySlot (c : Compositor) (surface : SurfaceId) (f : Slot → Slot) : Compositor :=
  { c with slots := SlotTable.modify Slot.key surface f c.slots }

/-- Clear every slot that the test picks, and count them off. -/
def clearSlots (c : Compositor) (doomed : Slot → Bool) : Compositor :=
  { c with
    slots := c.slots.map fun s => if s.occupied && doomed s then {} else s
    surfaceCount := c.surfaceCount -
      UInt64.ofNat (c.slots.countP fun s => s.occupied && doomed s) }

/-- The popups go first. The surface is cleared at the place where it was found. -/
def destroySurface (c : Compositor) (caller : PeerIdentity) (surface : SurfaceId) :
    Compositor × Result Unit :=
  match c.findOwnedSlot caller surface with
  | .error e => (c, .error e)
  | .ok _ =>
    let place := c.slots.findIdx fun s => decide (s.key = some surface)
    let c := c.clearSlots fun s => s.descriptor.parent == surface
    ({ c with slots := c.slots.set place {}, surfaceCount := c.surfaceCount - 1 }, .ok ())

def setBounds (c : Compositor) (caller : PeerIdentity) (surface : SurfaceId) (bounds : Rect) :
    Compositor × Result Unit :=
  if !c.boundsValid bounds then (c, .error (displayError invalidGeometry))
  else
    match c.findOwnedSlot caller surface with
    | .error e => (c, .error e)
    | .ok _ =>
      (c.modifySlot surface fun s =>
        { s with descriptor := { s.descriptor with bounds }, buffer := 0, hasFrame := false },
        .ok ())

def setVisibility (c : Compositor) (caller : PeerIdentity) (surface : SurfaceId)
    (visibility : SurfaceVisibility) : Compositor × Result Unit :=
  match c.findOwnedSlot caller surface with
  | .error e => (c, .error e)
  | .ok _ =>
    (c.modifySlot surface fun s => { s with descriptor := { s.descriptor with visibility } },
      .ok ())

/-- The application surface and its popups move to the front together. -/
def restack (c : Compositor) (surface : SurfaceId) : Compositor :=
  let stackSerial := c.nextStackSerial
  let raised := c.modifySlot surface fun s => { s with stackSerial }
  { raised with
    nextStackSerial := c.nextStackSerial + 1
    slots := raised.slots.map fun s =>
      if s.occupied && s.descriptor.parent == surface then { s with stackSerial } else s }

def activateApplication (c : Compositor) (caller : PeerIdentity) (applicationSurface : SurfaceId) :
    Compositor × Result Unit :=
  if !validPeerIdentity caller then (c, .error (displayError invalidIdentity))
  else if caller.principal ≠ c.trustedPrincipals.shell then
    (c, .error (displayError activationDenied))
  else
    match c.findSlot applicationSurface with
    | none => (c, .error (displayError unknownSurface))
    | some root =>
      if root.descriptor.role ≠ .application ∨ c.nextStackSerial = 0 then
        (c, .error (displayError activationDenied))
      else (c.restack applicationSurface, .ok ())

def activateApplicationExact (c : Compositor) (caller expectedOwner : PeerIdentity)
    (applicationSurface : SurfaceId) : Compositor × Result Unit :=
  if !validPeerIdentity caller || !validPeerIdentity expectedOwner then
    (c, .error (displayError invalidIdentity))
  else if caller.principal ≠ c.trustedPrincipals.shell then
    (c, .error (displayError activationDenied))
  else
    match c.findSlot applicationSurface with
    | none => (c, .error (displayError unknownSurface))
    | some root =>
      if root.descriptor.role ≠ .application ∨ root.descriptor.owner ≠ expectedOwner ∨
          c.nextStackSerial = 0 then
        (c, .error (displayError activationDenied))
      else (c.restack applicationSurface, .ok ())

def damageValid (surface : SurfaceDescriptor) (submission : FrameSubmission) : Bool :=
  decide (submission.damageCount.toNat ≤ maxDamageRectangles) &&
    (submission.damage.toList.take submission.damageCount.toNat).all fun damage =>
      damage.fits surface.bounds.width surface.bounds.height

def deadlineAfter (c : Compositor) (nowNs : UInt64) : FrameDeadline :=
  let interval := nsPerMillihertzPeriod / c.configuration.refreshMillihz.toUInt64
  let periods := nowNs / interval
  let nextVsync := if periods < 0xFFFFFFFFFFFFFFFF / interval then (periods + 1) * interval
    else 0xFFFFFFFFFFFFFFFF
  { nextVsyncNs := nextVsync
    submissionDeadlineNs := if c.configuration.compositorMarginNs < nextVsync then
      nextVsync - c.configuration.compositorMarginNs else 0 }

def submitFrame (c : Compositor) (caller : PeerIdentity) (submission : FrameSubmission)
    (nowNs : UInt64) : Compositor × Result FrameReceipt :=
  match c.findOwnedSlot caller submission.surface with
  | .error e => (c, .error e)
  | .ok slot =>
    if submission.buffer = 0 then (c, .error (displayError invalidBuffer))
    else if submission.sequence = 0 ∨ submission.sequence ≤ slot.frameSequence then
      (c, .error (displayError frameReplay))
    else if maxFrameBufferSlots ≤ submission.bufferSlot then
      (c, .error (displayError invalidBufferSlot))
    else if !damageValid slot.descriptor submission then
      (c, .error (displayError invalidDamage))
    else
      (c.modifySlot submission.surface fun s =>
        { s with
          buffer := submission.buffer
          frameSequence := submission.sequence
          bufferSlot := submission.bufferSlot
          hasFrame := true },
        .ok
          { surface := submission.surface
            buffer := submission.buffer
            sequence := submission.sequence
            deadline := c.deadlineAfter nowNs })

def invalidateBuffer (c : Compositor) (buffer : BufferId) : Compositor :=
  if buffer = 0 then c
  else
    { c with
      slots := c.slots.map fun s =>
        if s.occupied && s.buffer == buffer then { s with buffer := 0, hasFrame := false } else s }

def revokeProcess (c : Compositor) (process : ProcessId) : Compositor :=
  if process = 0 then c else c.clearSlots fun s => s.descriptor.owner.process == process

end Compositor

/-- The calls on the compositor. -/
inductive CompositorOp where
  | createSurface (owner : PeerIdentity) (request : CreateSurfaceRequest)
  | destroySurface (caller : PeerIdentity) (surface : SurfaceId)
  | setBounds (caller : PeerIdentity) (surface : SurfaceId) (bounds : Rect)
  | setVisibility (caller : PeerIdentity) (surface : SurfaceId) (visibility : SurfaceVisibility)
  | activateApplication (caller : PeerIdentity) (surface : SurfaceId)
  | activateApplicationExact (caller expectedOwner : PeerIdentity) (surface : SurfaceId)
  | submitFrame (caller : PeerIdentity) (submission : FrameSubmission) (nowNs : UInt64)
  | invalidateBuffer (buffer : BufferId)
  | revokeProcess (process : ProcessId)

inductive CompositorReply where
  | created (result : Result SurfaceDescriptor)
  | done (result : Result Unit)
  | submitted (result : Result FrameReceipt)
  | silent

def CompositorReply.refused : CompositorReply → Bool
  | .created (.error _) => true
  | .done (.error _) => true
  | .submitted (.error _) => true
  | _ => false

namespace Compositor

def step (c : Compositor) : CompositorOp → Compositor × CompositorReply
  | .createSurface owner request => (c.createSurface owner request).map id .created
  | .destroySurface caller surface => (c.destroySurface caller surface).map id .done
  | .setBounds caller surface bounds => (c.setBounds caller surface bounds).map id .done
  | .setVisibility caller surface visibility =>
    (c.setVisibility caller surface visibility).map id .done
  | .activateApplication caller surface => (c.activateApplication caller surface).map id .done
  | .activateApplicationExact caller expectedOwner surface =>
    (c.activateApplicationExact caller expectedOwner surface).map id .done
  | .submitFrame caller submission nowNs =>
    (c.submitFrame caller submission nowNs).map id .submitted
  | .invalidateBuffer buffer => (c.invalidateBuffer buffer, .silent)
  | .revokeProcess process => (c.revokeProcess process, .silent)

end Compositor

end Enml.OsDisplay
