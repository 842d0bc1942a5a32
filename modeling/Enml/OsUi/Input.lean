import Enml.OsUi.Renderer

/-! Pointer input: the topmost node at a point owns the press, and the first
enabled node from there upwards that takes the action is its target. -/
namespace Enml.OsUi

open Enml.Core Errors

structure LogicalPoint where
  xQ6 : Int := 0
  yQ6 : Int := 0

structure PointerRoute where
  target : UiNodeId := 0
  role : UiRole := .container
  action : UiAction := .activate
  bounds : LogicalRect := {}

def pointerActionValid : UiAction → Bool
  | .activate | .focus | .toggle | .select => true
  | .setText => false

def pointValid (point : LogicalPoint) : Bool :=
  decide (-(maxLogicalDimensionQ6 : Int) ≤ point.xQ6) &&
    decide (point.xQ6 ≤ maxLogicalDimensionQ6) &&
    decide (-(maxLogicalDimensionQ6 : Int) ≤ point.yQ6) &&
    decide (point.yQ6 ≤ maxLogicalDimensionQ6)

def pointInside (rect : LogicalRect) (point : LogicalPoint) : Bool :=
  decide (rect.xQ6 ≤ point.xQ6) && decide (point.xQ6 < rect.xQ6 + rect.widthQ6) &&
    decide (rect.yQ6 ≤ point.yQ6) && decide (point.yQ6 < rect.yQ6 + rect.heightQ6)

namespace Input

def nodeValid (node : UiNodeDescriptor) : Bool :=
  node.id != 0 && decide (node.depth ≤ maxUiDepth) && node.spec.bounds.bounded &&
    node.spec.actions &&& ~~~knownActions == 0

def snapshotValid (snapshot : RendererSnapshot) : Bool := snapshotAccepted nodeValid snapshot

def visibleFrom (nodes : List UiNodeDescriptor) : Nat → UiNodeDescriptor → Bool
  | 0, _ => false
  | steps + 1, current =>
    if !current.spec.state.visible then false
    else if current.spec.role = .root then true
    else (findNode nodes current.parent).any fun parent => visibleFrom nodes steps parent

def effectivelyVisible (nodes : List UiNodeDescriptor) (node : UiNodeDescriptor) : Bool :=
  visibleFrom nodes (maxUiDepth + 1) node

end Input

/-- A node takes the place of the topmost one so far when it is deeper, or as
deep with a larger id. -/
def higherHit (topmost : Option UiNodeDescriptor) (node : UiNodeDescriptor) :
    Option UiNodeDescriptor :=
  match topmost with
  | none => some node
  | some top =>
    if top.depth < node.depth ∨ (node.depth = top.depth ∧ top.id < node.id) then some node
    else some top

def hitBy (nodes : List UiNodeDescriptor) (point : LogicalPoint) (node : UiNodeDescriptor) : Bool :=
  Input.effectivelyVisible nodes node && pointInside node.spec.bounds point

def topmostHit (snapshot : RendererSnapshot) (point : LogicalPoint) : Option UiNodeDescriptor :=
  snapshot.nodes.foldl
    (fun topmost node =>
      if hitBy snapshot.nodes point node then higherHit topmost node else topmost)
    none

/-- The climb from the topmost node. -/
def routeFrom (nodes : List UiNodeDescriptor) (point : LogicalPoint) (action : UiAction) :
    Nat → UiNodeDescriptor → Result PointerRoute
  | 0, _ => .error (uiError inputNoTarget)
  | steps + 1, current =>
    if !pointInside current.spec.bounds point then .error (uiError inputNoTarget)
    else if current.spec.state.enabled && hasAction current.spec.actions action then
      .ok { target := current.id
            role := current.spec.role
            action
            bounds := current.spec.bounds }
    else if current.spec.role = .root then .error (uiError inputNoTarget)
    else
      match findNode nodes current.parent with
      | none => .error (uiError invalidInputSnapshot)
      | some parent => routeFrom nodes point action steps parent

def routePointerAction (snapshot : RendererSnapshot) (point : LogicalPoint) (action : UiAction) :
    Result PointerRoute :=
  if !pointValid point then .error (uiError invalidInputPoint)
  else if !pointerActionValid action then .error (uiError invalidInputAction)
  else if !Input.snapshotValid snapshot then .error (uiError invalidInputSnapshot)
  else
    match topmostHit snapshot point with
    | none => .error (uiError inputNoTarget)
    | some topmost => routeFrom snapshot.nodes point action (maxUiDepth + 1) topmost

end Enml.OsUi
