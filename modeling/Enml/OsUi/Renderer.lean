import Enml.OsUi.Tree

/-! The renderer's front: a snapshot of the tree is checked and lowered into one
command for each styled node that is effectively visible, in the order of the ids.
`plan_render_damage` gives the rectangles to redraw between two frames. -/
namespace Enml.OsUi

open Enml.Core

inductive VisualQualityTier where
  | economy | balanced | full

structure RenderCapabilities where
  alphaCompositing : Bool := true
  liveBackdrop : Bool := true
  spatialMotion : Bool := true
  maxBackdropBlurQ6 : Nat := maxLogicalDimensionQ6
  maxDepthBlurQ6 : Nat := maxLogicalDimensionQ6

structure RenderBuildOptions where
  preferences : VisualPreferences := {}
  textScalePercent : Nat := 100
  quality : VisualQualityTier := .balanced
  capabilities : RenderCapabilities := {}

inductive RenderContentKind where
  | none | text | imageSlot | control | collection
  deriving DecidableEq

/-- How one node is painted. -/
structure RenderCommand where
  source : UiNodeId := 0
  parent : UiNodeId := 0
  depth : Nat := 0
  role : UiRole := .container
  bounds : LogicalRect := {}
  state : UiNodeState := {}
  content : RenderContentKind := .none
  visual : ResolvedVisualStyle := {}
  contour : ResolvedContour := {}
  typography : TypographyMetrics := {}
  fontFallbacks : FontFallbackChain := []
  visualText : SemanticText := {}
  focusVisible : Bool := false
  deriving DecidableEq

structure RenderCommandBuffer where
  revision : Nat := 0
  commands : List RenderCommand := []

def capabilitiesValid (capabilities : RenderCapabilities) : Bool :=
  decide (capabilities.maxBackdropBlurQ6 ≤ maxLogicalDimensionQ6) &&
    decide (capabilities.maxDepthBlurQ6 ≤ maxLogicalDimensionQ6)

def findNode (nodes : List UiNodeDescriptor) (id : UiNodeId) : Option UiNodeDescriptor :=
  if id = 0 then none else nodes.find? fun node => node.id == id

/-- A root has no parent, and any other node is one level below its own. -/
def linkValid (nodes : List UiNodeDescriptor) (node : UiNodeDescriptor) : Bool :=
  if node.spec.role = .root then node.parent == 0 && node.depth == 0
  else if node.parent = 0 ∨ node.depth = 0 then false
  else (findNode nodes node.parent).any fun parent => parent.depth + 1 == node.depth

/-- The walk to the root that every node has to make in time. -/
def reachesRoot (nodes : List UiNodeDescriptor) : Nat → UiNodeDescriptor → Bool
  | 0, _ => false
  | steps + 1, current =>
    if current.spec.role = .root then true
    else (findNode nodes current.parent).any fun parent => reachesRoot nodes steps parent

def snapshotAccepted (nodeValid : UiNodeDescriptor → Bool) (snapshot : RendererSnapshot) : Bool :=
  if snapshot.nodes.length = 0 ∨ maxUiNodes < snapshot.nodes.length then false
  else
    (snapshot.nodes.all fun node => nodeValid node && linkValid snapshot.nodes node) &&
    decide (snapshot.nodes.map fun node => node.id).Nodup &&
    (snapshot.nodes.countP fun node => node.spec.role = .root) == 1 &&
    snapshot.nodes.all fun node => reachesRoot snapshot.nodes (maxUiDepth + 1) node

namespace Renderer

def nodeValid (node : UiNodeDescriptor) : Bool :=
  node.id != 0 && decide (node.depth ≤ maxUiDepth) && node.spec.bounds.bounded &&
    semanticTextValid node.spec.label && styleTokenValid node.spec.style

def snapshotValid (snapshot : RendererSnapshot) : Bool := snapshotAccepted nodeValid snapshot

def visibleFrom (nodes : List UiNodeDescriptor) : Nat → UiNodeDescriptor → Bool
  | 0, _ => false
  | steps + 1, current =>
    if current.spec.role = .root then current.spec.state.visible
    else (findNode nodes current.parent).any fun parent =>
      parent.spec.state.visible && visibleFrom nodes steps parent

def effectivelyVisible (nodes : List UiNodeDescriptor) (node : UiNodeDescriptor) : Bool :=
  node.spec.state.visible && visibleFrom nodes (maxUiDepth + 1) node

end Renderer

def contentKind : UiRole → RenderContentKind
  | .root | .container => .none
  | .text => .text
  | .image => .imageSlot
  | .button | .toggle | .textField => .control
  | .list | .listItem => .collection

def applyQualityBudget (visual : ResolvedVisualStyle) (quality : VisualQualityTier) :
    ResolvedVisualStyle :=
  match quality with
  | .full => visual
  | .balanced =>
    { visual with
      material := { visual.material with
        backdropBlurQ6 := min visual.material.backdropBlurQ6 (logicalFromDp 20) }
      depth := { visual.depth with blurQ6 := min visual.depth.blurQ6 (logicalFromDp 24) } }
  | .economy =>
    { visual with
      material := { visual.material with
        backdropBlurQ6 := 0
        liveBackdropAllowed := false
        specularPercent := min visual.material.specularPercent 8 }
      depth := { visual.depth with blurQ6 := min visual.depth.blurQ6 (logicalFromDp 8) } }

def limitBackdrop (material : MaterialMetrics) (capabilities : RenderCapabilities) :
    MaterialMetrics :=
  if !capabilities.liveBackdrop then
    { material with backdropBlurQ6 := 0, liveBackdropAllowed := false }
  else
    let blur := min material.backdropBlurQ6 capabilities.maxBackdropBlurQ6
    { material with
      backdropBlurQ6 := blur
      liveBackdropAllowed := if blur = 0 then false else material.liveBackdropAllowed }

/-- Without alpha compositing a material-bearing surface is opaque. -/
def limitAlpha (role : OpticalMaterialRole) (material : MaterialMetrics)
    (capabilities : RenderCapabilities) : MaterialMetrics :=
  if !capabilities.alphaCompositing ∧ role ≠ .none then
    { material with opacityPercent := 100, backdropBlurQ6 := 0, liveBackdropAllowed := false }
  else material

def applyCapabilityBudget (visual : ResolvedVisualStyle) (capabilities : RenderCapabilities) :
    ResolvedVisualStyle :=
  { visual with
    depth := { visual.depth with blurQ6 := min visual.depth.blurQ6 capabilities.maxDepthBlurQ6 }
    material := limitAlpha visual.token.material (limitBackdrop visual.material capabilities)
      capabilities
    motion := { visual.motion with
      spatialMotionAllowed :=
        if !capabilities.spatialMotion then false else visual.motion.spatialMotionAllowed } }

def buildCommand (options : RenderBuildOptions) (node : UiNodeDescriptor) :
    Result RenderCommand := do
  let resolved ← resolveVisualStyle node.spec.style options.preferences
  let visual := applyCapabilityBudget (applyQualityBudget resolved options.quality)
    options.capabilities
  let contour ← resolveContour node.spec.bounds visual.token.curve
  let textStyle ← resolveTextStyle visual.token.typography options.textScalePercent
  return { source := node.id
           parent := node.parent
           depth := node.depth
           role := node.spec.role
           bounds := node.spec.bounds
           state := node.spec.state
           content := contentKind node.spec.role
           visual
           contour
           typography := textStyle.metrics
           fontFallbacks := textStyle.fallback
           visualText := if node.spec.role = .text then node.spec.label else {}
           focusVisible := node.spec.state.focused }

/-- A node without a style is semantic only and emits no command. -/
def emits (nodes : List UiNodeDescriptor) (node : UiNodeDescriptor) : Bool :=
  Renderer.effectivelyVisible nodes node && node.spec.style != 0

/-- The loop over the nodes in order, which stops at the first error. -/
def buildCommands (options : RenderBuildOptions) (nodes : List UiNodeDescriptor) :
    List UiNodeDescriptor → Result (List RenderCommand)
  | [] => .ok []
  | node :: rest =>
    if !emits nodes node then buildCommands options nodes rest
    else do
      let command ← buildCommand options node
      let commands ← buildCommands options nodes rest
      return command :: commands

def buildRenderCommands (snapshot : RendererSnapshot) (options : RenderBuildOptions) :
    Result RenderCommandBuffer :=
  if !capabilitiesValid options.capabilities then .error (uiError Errors.invalidRenderOptions)
  else if options.textScalePercent < minTextScalePercent ∨
      maxTextScalePercent < options.textScalePercent then
    .error (uiError Errors.invalidTextScale)
  else if !Renderer.snapshotValid snapshot then .error (uiError Errors.invalidRenderSnapshot)
  else do
    let commands ← buildCommands options snapshot.nodes (SemanticTree.sortNodes snapshot.nodes)
    return { revision := snapshot.revision, commands }

def maxRenderDamageRects : Nat := 32

structure RenderDamagePlan where
  revision : Nat := 0
  rects : List LogicalRect := []
  fullRedraw : Bool := false
  deriving DecidableEq

def commandBufferValid (buffer : RenderCommandBuffer) : Bool :=
  if maxUiNodes < buffer.commands.length then false
  else if buffer.commands.length ≠ 0 ∧ buffer.revision = 0 then false
  else
    (buffer.commands.all fun command => command.source != 0 && command.bounds.bounded) &&
    decide (buffer.commands.map fun command => command.source).Nodup

def deltaValid (delta : RendererDelta) : Bool :=
  if delta.revision = 0 ∨ maxUiNodes < delta.changed.length ∨ maxUiNodes < delta.removed.length then
    false
  else
    (delta.changed.all fun id => id != 0 && !delta.removed.contains id) &&
    decide delta.changed.Nodup &&
    (delta.removed.all fun id => id != 0) &&
    decide delta.removed.Nodup

def findCommand (buffer : RenderCommandBuffer) (source : UiNodeId) : Option RenderCommand :=
  buffer.commands.find? fun command => command.source == source

/-- `none` stands for the refusal of a rectangle that is out of bounds. -/
def appendRect (plan : RenderDamagePlan) (rect : LogicalRect) : Option RenderDamagePlan :=
  if !rect.bounded then none
  else if plan.rects.contains rect then some plan
  else if maxRenderDamageRects ≤ plan.rects.length then
    some { plan with rects := [], fullRedraw := true }
  else some { plan with rects := plan.rects ++ [rect] }

def appendCommand (plan : RenderDamagePlan) (command : Option RenderCommand) :
    Result RenderDamagePlan :=
  match command with
  | none => .ok plan
  | some command =>
    match appendRect plan command.bounds with
    | none => .error (uiError Errors.invalidRenderDamage)
    | some plan => .ok plan

/-- The loop over the changed nodes. It returns as soon as a full redraw is due. -/
def planChanged (previous next : RenderCommandBuffer) :
    List UiNodeId → RenderDamagePlan → Result RenderDamagePlan
  | [], plan => .ok plan
  | id :: rest, plan => do
      let plan ← appendCommand plan (findCommand previous id)
      if plan.fullRedraw then .ok plan
      else do
        let plan ← appendCommand plan (findCommand next id)
        if plan.fullRedraw then .ok plan else planChanged previous next rest plan

/-- The loop over the removed nodes. -/
def planRemoved (previous next : RenderCommandBuffer) :
    List UiNodeId → RenderDamagePlan → Result RenderDamagePlan
  | [], plan => .ok plan
  | id :: rest, plan =>
    if (findCommand next id).isSome then .error (uiError Errors.invalidRenderDamage)
    else do
      let plan ← appendCommand plan (findCommand previous id)
      if plan.fullRedraw then .ok plan else planRemoved previous next rest plan

def planRenderDamage (previous next : RenderCommandBuffer) (delta : RendererDelta) :
    Result RenderDamagePlan :=
  if !commandBufferValid previous || !commandBufferValid next || !deltaValid delta ||
      delta.revision != next.revision ||
      (previous.revision != 0 && decide (next.revision < previous.revision)) then
    .error (uiError Errors.invalidRenderDamage)
  else if previous.revision = 0 ∨ delta.fullResyncRequired then
    .ok { revision := next.revision, fullRedraw := true }
  else do
    let plan ← planChanged previous next delta.changed { revision := next.revision }
    if plan.fullRedraw then .ok plan else planRemoved previous next delta.removed plan

end Enml.OsUi
