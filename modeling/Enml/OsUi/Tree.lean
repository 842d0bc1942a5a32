import Enml.Lib.SlotTable
import Enml.OsUi.Design

/-! `SemanticTree`: the nodes of an interface in a fixed array of slots, each
naming its parent, with one focus and a record of what a renderer has not seen. -/
namespace Enml.OsUi

open Enml.Core Errors

structure RendererSnapshot where
  revision : Nat := 0
  nodes : List UiNodeDescriptor := []

structure RendererDelta where
  revision : Nat := 0
  changed : List UiNodeId := []
  removed : List UiNodeId := []
  fullResyncRequired : Bool := false

abbrev AccessibilitySnapshot := List AccessibilityNode

/-- A node and whether it changed since the last frame. -/
structure Slot where
  occupied : Bool := false
  dirty : Bool := false
  descriptor : UiNodeDescriptor := {}

def Slot.key (s : Slot) : Option UiNodeId := if s.occupied then some s.descriptor.id else none

/-- `removedDirty` lists the entries of its array that are in use. -/
structure SemanticTree where
  slots : List Slot := List.replicate maxUiNodes {}
  removedDirty : List UiNodeId := []
  rootId : UiNodeId := 0
  focused : UiNodeId := 0
  nextId : UiNodeId := 1
  nodeCount : Nat := 0
  revision : Nat := 0
  dirtyOverflow : Bool := false
  valid : Bool := false

def interactiveRole (role : UiRole) : Bool :=
  role == .button || role == .toggle || role == .textField || role == .listItem

def roleCanHaveChildren : UiRole → Bool
  | .root | .container | .button | .toggle | .list | .listItem => true
  | .text | .image | .textField => false

def allowedActions : UiRole → UiActionMask
  | .root | .container | .text | .image | .list => 0
  | .button => actionMask .activate ||| actionMask .focus
  | .toggle => actionMask .activate ||| actionMask .focus ||| actionMask .toggle
  | .textField => actionMask .focus ||| actionMask .setText
  | .listItem => actionMask .activate ||| actionMask .focus ||| actionMask .select

def actionsValid (role : UiRole) (actions : UiActionMask) : Bool :=
  if actions &&& ~~~knownActions != 0 then false
  else actions &&& ~~~allowedActions role == 0

def stateValid (role : UiRole) (actions : UiActionMask) (state : UiNodeState) : Bool :=
  if state.focused && (!state.visible || !state.enabled || !hasAction actions .focus) then false
  else if state.pressed && (!state.visible || !state.enabled) then false
  else if state.checked && role != .toggle then false
  else if state.selected && role != .listItem then false
  else if state.pressed && role != .button && role != .toggle && role != .listItem then false
  else true

def labelValidForRole (role : UiRole) (label : SemanticText) (accessibilityHidden : Bool) : Bool :=
  if !semanticTextValid label then false
  else if interactiveRole role && !accessibilityHidden && label.empty then false
  else true

namespace SemanticTree

def make (rootBounds : LogicalRect) : SemanticTree :=
  if !rootBounds.bounded then {}
  else
    { slots :=
        { occupied := true
          dirty := true
          descriptor :=
            { id := 1
              spec := { role := .root, bounds := rootBounds, style := StyleTokens.surface } } } ::
          List.replicate (maxUiNodes - 1) {}
      rootId := 1
      nextId := 2
      nodeCount := 1
      revision := 1
      valid := true }

def revisionMax : Nat := 2 ^ 64 - 1

def bumped (revision : Nat) : Nat :=
  if revision = 0 then 1 else if revision ≠ revisionMax then revision + 1 else revision

def recordRemoved (t : SemanticTree) (id : UiNodeId) : SemanticTree :=
  if t.removedDirty.length < maxUiNodes then { t with removedDirty := t.removedDirty ++ [id] }
  else { t with dirtyOverflow := true }

def find (t : SemanticTree) (node : UiNodeId) : Option Slot :=
  if node = 0 then none else SlotTable.lookup Slot.key node t.slots

def childCount (t : SemanticTree) (parent : UiNodeId) : Nat :=
  t.slots.countP fun slot => slot.occupied && slot.descriptor.parent == parent

/-- The loop of `is_descendant_of`, with the steps it has left. -/
def climbsTo (t : SemanticTree) (ancestor : UiNodeId) : Nat → UiNodeId → Bool
  | 0, _ => false
  | steps + 1, current =>
    if current = 0 then false
    else if current = ancestor then true
    else (t.find current).any fun parent => t.climbsTo ancestor steps parent.descriptor.parent

def isDescendantOf (t : SemanticTree) (candidate : Slot) (ancestor : UiNodeId) : Bool :=
  t.climbsTo ancestor (maxUiDepth + 1) candidate.descriptor.parent

/-- The loop of `effectively_visible`. -/
def visibleFrom (t : SemanticTree) : Nat → Slot → Bool
  | 0, _ => false
  | steps + 1, current =>
    if !current.descriptor.spec.state.visible then false
    else if current.descriptor.parent = 0 then true
    else (t.find current.descriptor.parent).any fun parent => t.visibleFrom steps parent

def effectivelyVisible (t : SemanticTree) (slot : Slot) : Bool :=
  t.visibleFrom (maxUiDepth + 1) slot

def accessibleFrom (t : SemanticTree) : Nat → UiNodeId → UiNodeId
  | 0, _ => 0
  | steps + 1, parentId =>
    if parentId = 0 then 0
    else
      match t.find parentId with
      | none => 0
      | some parent =>
        if t.effectivelyVisible parent && !parent.descriptor.spec.accessibilityHidden then parentId
        else t.accessibleFrom steps parent.descriptor.parent

def accessibleParent (t : SemanticTree) (node : UiNodeId) : UiNodeId :=
  match t.find node with
  | none => 0
  | some current => t.accessibleFrom (maxUiDepth + 1) current.descriptor.parent

/-- A node's data is written through its slot, which is then marked dirty. -/
def editSpec (t : SemanticTree) (node : UiNodeId) (f : UiNodeSpec → UiNodeSpec) : SemanticTree :=
  { t with
    slots := SlotTable.modify Slot.key node
      (fun slot => { slot with
        dirty := true
        descriptor := { slot.descriptor with spec := f slot.descriptor.spec } }) t.slots
    revision := bumped t.revision }

def withFocus (focused : Bool) (spec : UiNodeSpec) : UiNodeSpec :=
  { spec with state := { spec.state with focused } }

def clearFocus (t : SemanticTree) : SemanticTree :=
  let t :=
    if (t.find t.focused).any fun previous => previous.descriptor.spec.state.focused then
      t.editSpec t.focused (withFocus false)
    else t
  { t with focused := 0 }

/-- The checks of `add` that look at the specification alone. -/
def checkSpec (spec : UiNodeSpec) : Result Unit :=
  if spec.role = .root then .error (uiError invalidRole)
  else if !spec.bounds.bounded then .error (uiError invalidBounds)
  else if !styleTokenValid spec.style then .error (uiError invalidStyle)
  else if !actionsValid spec.role spec.actions then .error (uiError invalidAction)
  else if spec.accessibilityHidden && spec.actions != 0 then .error (uiError invalidAction)
  else if !labelValidForRole spec.role spec.label spec.accessibilityHidden then
    .error (uiError invalidText)
  else if !stateValid spec.role spec.actions spec.state then .error (uiError invalidState)
  else .ok ()

/-- The checks of `add` on the tree and the parent it has found. -/
def checkPlace (t : SemanticTree) (parent : UiNodeId) (parentSlot : Slot) (spec : UiNodeSpec) :
    Result Unit :=
  if !roleCanHaveChildren parentSlot.descriptor.spec.role then
    .error (uiError invalidParent)
  else if maxUiChildrenPerNode ≤ t.childCount parent then .error (uiError childLimit)
  else if maxUiDepth ≤ parentSlot.descriptor.depth then .error (uiError depthLimit)
  else if maxUiNodes ≤ t.nodeCount then .error (uiError nodeLimit)
  else if t.nextId = 0 then .error (uiError idExhausted)
  else if spec.state.focused && !t.effectivelyVisible parentSlot then
    .error (uiError invalidState)
  else .ok ()

def placed (t : SemanticTree) (parent : UiNodeId) (parentSlot : Slot) (spec : UiNodeSpec) :
    UiNodeDescriptor :=
  { id := t.nextId, parent, depth := parentSlot.descriptor.depth + 1, spec }

/-- The increment wraps to zero, which stands for no further id. -/
def withNode (t : SemanticTree) (slots : List Slot) (spec : UiNodeSpec) : SemanticTree :=
  { t with
    slots
    nextId := t.nextId + 1
    nodeCount := t.nodeCount + 1
    revision := bumped t.revision
    focused := if spec.state.focused then t.nextId else t.focused }

def store (t : SemanticTree) (descriptor : UiNodeDescriptor) :
    SemanticTree × Result UiNodeDescriptor :=
  let released := if descriptor.spec.state.focused && t.focused != 0 then t.clearFocus else t
  match
    SlotTable.insert Slot.key { occupied := true, dirty := true, descriptor } released.slots with
  | none => (t, .error (uiError nodeLimit))
  | some slots => (released.withNode slots descriptor.spec, .ok descriptor)

def add (t : SemanticTree) (parent : UiNodeId) (spec : UiNodeSpec) :
    SemanticTree × Result UiNodeDescriptor :=
  if !t.valid then (t, .error (uiError invalidTree))
  else
    match checkSpec spec with
    | .error e => (t, .error e)
    | .ok () =>
      match t.find parent with
      | none => (t, .error (uiError invalidParent))
      | some parentSlot =>
        match t.checkPlace parent parentSlot spec with
        | .error e => (t, .error e)
        | .ok () => t.store (t.placed parent parentSlot spec)

def inSubtree (t : SemanticTree) (node : UiNodeId) (slot : Slot) : Bool :=
  slot.occupied && (slot.descriptor.id == node || t.isDescendantOf slot node)

/-- What the second loop of `remove_subtree` does for a node that goes. -/
def forget (t : SemanticTree) (id : UiNodeId) : SemanticTree :=
  let t := t.recordRemoved id
  if id = t.focused then { t with focused := 0 } else t

def withoutSubtree (t : SemanticTree) (node : UiNodeId) : SemanticTree :=
  let doomed := t.slots.filter (t.inSubtree node)
  doomed.foldl (fun t slot => t.forget slot.descriptor.id)
    { t with
      slots := t.slots.map fun slot => if t.inSubtree node slot then {} else slot
      nodeCount := t.nodeCount - doomed.length
      revision := bumped t.revision }

def removeSubtree (t : SemanticTree) (node : UiNodeId) : SemanticTree × Result Unit :=
  if !t.valid then (t, .error (uiError invalidTree))
  else if (t.find node).isNone then (t, .error (uiError invalidNode))
  else if node = t.rootId then (t, .error (uiError rootImmutable))
  else if t.slots.countP (t.inSubtree node) = 0 then (t, .error (uiError invalidNode))
  else (t.withoutSubtree node, .ok ())

def setBounds (t : SemanticTree) (node : UiNodeId) (bounds : LogicalRect) :
    SemanticTree × Result Unit :=
  if !t.valid then (t, .error (uiError invalidTree))
  else if !bounds.bounded then (t, .error (uiError invalidBounds))
  else
    match t.find node with
    | none => (t, .error (uiError invalidNode))
    | some slot =>
      if slot.descriptor.spec.bounds = bounds then (t, .ok ())
      else (t.editSpec node fun spec => { spec with bounds }, .ok ())

/-- The loop of `set_state` over the ancestors. Running out of steps is no refusal. -/
def pathVisible (t : SemanticTree) : Nat → UiNodeId → Bool
  | 0, _ => true
  | steps + 1, parent =>
    if parent = 0 then true
    else (t.find parent).any fun slot =>
      slot.descriptor.spec.state.visible && t.pathVisible steps slot.descriptor.parent

/-- Hiding a node takes the focus from a descendant. -/
def releaseHidden (t : SemanticTree) (node : UiNodeId) (state : UiNodeState) : SemanticTree :=
  if !state.visible && t.focused != 0 && t.focused != node &&
      (t.find t.focused).any (fun slot => t.isDescendantOf slot node) then t.clearFocus
  else t

def applyState (t : SemanticTree) (node : UiNodeId) (slot : Slot) (state : UiNodeState) :
    SemanticTree × Result Unit :=
  let t := t.releaseHidden node state
  let write : UiNodeSpec → UiNodeSpec := fun spec => { spec with state }
  if state.focused then
    if !t.pathVisible (maxUiDepth + 1) slot.descriptor.parent then
      (t, .error (uiError invalidState))
    else
      let t := if t.focused ≠ node then t.clearFocus else t
      ({ t with focused := node }.editSpec node write, .ok ())
  else
    let t := if t.focused = node then { t with focused := 0 } else t
    (t.editSpec node write, .ok ())

def setState (t : SemanticTree) (node : UiNodeId) (state : UiNodeState) :
    SemanticTree × Result Unit :=
  if !t.valid then (t, .error (uiError invalidTree))
  else
    match t.find node with
    | none => (t, .error (uiError invalidNode))
    | some slot =>
      if node = t.rootId then (t, .error (uiError rootImmutable))
      else if !stateValid slot.descriptor.spec.role slot.descriptor.spec.actions state then
        (t, .error (uiError invalidState))
      else if slot.descriptor.spec.state = state then (t, .ok ())
      else t.applyState node slot state

def setLabel (t : SemanticTree) (node : UiNodeId) (label : SemanticText) :
    SemanticTree × Result Unit :=
  if !t.valid then (t, .error (uiError invalidTree))
  else
    match t.find node with
    | none => (t, .error (uiError invalidNode))
    | some slot =>
      if !labelValidForRole slot.descriptor.spec.role label
          slot.descriptor.spec.accessibilityHidden then
        (t, .error (uiError invalidText))
      else if slot.descriptor.spec.label = label then (t, .ok ())
      else (t.editSpec node fun spec => { spec with label }, .ok ())

def setStyle (t : SemanticTree) (node : UiNodeId) (style : StyleTokenId) :
    SemanticTree × Result Unit :=
  if !t.valid then (t, .error (uiError invalidTree))
  else if !styleTokenValid style then (t, .error (uiError invalidStyle))
  else
    match t.find node with
    | none => (t, .error (uiError invalidNode))
    | some slot =>
      if slot.descriptor.spec.style = style then (t, .ok ())
      else (t.editSpec node fun spec => { spec with style }, .ok ())

def focus (t : SemanticTree) (node : UiNodeId) : SemanticTree × Result Unit :=
  if !t.valid then (t, .error (uiError invalidTree))
  else
    match t.find node with
    | none => (t, .error (uiError invalidNode))
    | some slot =>
      if !hasAction slot.descriptor.spec.actions .focus || !slot.descriptor.spec.state.enabled ||
          !t.effectivelyVisible slot then
        (t, .error (uiError invalidState))
      else if t.focused = node ∧ slot.descriptor.spec.state.focused then (t, .ok ())
      else ({ t.clearFocus with focused := node }.editSpec node (withFocus true), .ok ())

def accessibilityNode (t : SemanticTree) (descriptor : UiNodeDescriptor) : AccessibilityNode :=
  { id := descriptor.id
    parent := t.accessibleParent descriptor.id
    role := descriptor.spec.role
    bounds := descriptor.spec.bounds
    state := descriptor.spec.state
    actions := descriptor.spec.actions
    label := descriptor.spec.label }

def sortNodes (nodes : List UiNodeDescriptor) : List UiNodeDescriptor :=
  nodes.insertionSort fun a b => a.id ≤ b.id

def accessibilitySnapshot (t : SemanticTree) : AccessibilitySnapshot :=
  if !t.valid then []
  else
    let ordered := sortNodes <| (t.slots.filter fun slot =>
      slot.occupied && !slot.descriptor.spec.accessibilityHidden && t.effectivelyVisible slot).map
        Slot.descriptor
    ordered.map t.accessibilityNode

def rendererSnapshot (t : SemanticTree) : RendererSnapshot :=
  if !t.valid then {}
  else
    { revision := t.revision
      nodes := sortNodes ((t.slots.filter Slot.occupied).map Slot.descriptor) }

def sortNodeIds (ids : List UiNodeId) : List UiNodeId := ids.insertionSort fun a b => a ≤ b

def takeRendererDelta (t : SemanticTree) : SemanticTree × RendererDelta :=
  if !t.valid then (t, {})
  else
    ({ t with
        slots := t.slots.map fun slot =>
          if slot.occupied && slot.dirty then { slot with dirty := false } else slot
        removedDirty := []
        dirtyOverflow := false },
      { revision := t.revision
        changed := sortNodeIds ((t.slots.filter fun slot => slot.occupied && slot.dirty).map
          fun slot => slot.descriptor.id)
        removed := sortNodeIds t.removedDirty
        fullResyncRequired := t.dirtyOverflow })

end SemanticTree

inductive TreeOp where
  | add (parent : UiNodeId) (spec : UiNodeSpec)
  | removeSubtree (node : UiNodeId)
  | setBounds (node : UiNodeId) (bounds : LogicalRect)
  | setState (node : UiNodeId) (state : UiNodeState)
  | setLabel (node : UiNodeId) (label : SemanticText)
  | setStyle (node : UiNodeId) (style : StyleTokenId)
  | focus (node : UiNodeId)
  | clearFocus
  | takeRendererDelta

inductive TreeOutput where
  | added (result : Result UiNodeDescriptor)
  | done (result : Result Unit)
  | cleared
  | drained (delta : RendererDelta)

def TreeOutput.refused : TreeOutput → Bool
  | .added (.error _) | .done (.error _) => true
  | _ => false

namespace SemanticTree

def step (t : SemanticTree) : TreeOp → SemanticTree × TreeOutput
  | .add parent spec => ((t.add parent spec).1, .added (t.add parent spec).2)
  | .removeSubtree node => ((t.removeSubtree node).1, .done (t.removeSubtree node).2)
  | .setBounds node bounds => ((t.setBounds node bounds).1, .done (t.setBounds node bounds).2)
  | .setState node state => ((t.setState node state).1, .done (t.setState node state).2)
  | .setLabel node label => ((t.setLabel node label).1, .done (t.setLabel node label).2)
  | .setStyle node style => ((t.setStyle node style).1, .done (t.setStyle node style).2)
  | .focus node => ((t.focus node).1, .done (t.focus node).2)
  | .clearFocus => (t.clearFocus, .cleared)
  | .takeRendererDelta => (t.takeRendererDelta.1, .drained t.takeRendererDelta.2)

end SemanticTree

end Enml.OsUi
