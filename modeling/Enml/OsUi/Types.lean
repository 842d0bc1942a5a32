import Enml.Core.Result

/-! The values of `os::ui` that cross its boundary: the limits, the geometry,
the labels and the nodes. -/
namespace Enml.OsUi

open Enml.Core

namespace Errors
def invalidTree : UInt32 := 1
def invalidNode : UInt32 := 2
def nodeLimit : UInt32 := 3
def childLimit : UInt32 := 4
def depthLimit : UInt32 := 5
def invalidParent : UInt32 := 6
def invalidRole : UInt32 := 7
def invalidBounds : UInt32 := 8
def invalidText : UInt32 := 9
def textTooLong : UInt32 := 10
def invalidState : UInt32 := 11
def invalidAction : UInt32 := 12
def rootImmutable : UInt32 := 13
def idExhausted : UInt32 := 16
def invalidStyle : UInt32 := 17
def invalidTextScale : UInt32 := 20
def invalidRenderSnapshot : UInt32 := 21
def invalidRenderOptions : UInt32 := 22
def invalidInputSnapshot : UInt32 := 48
def invalidInputPoint : UInt32 := 49
def invalidInputAction : UInt32 := 50
def inputNoTarget : UInt32 := 51
def invalidRenderDamage : UInt32 := 58
end Errors

def uiError (code : UInt32) : Error := makeError .ui code

def maxUiNodes : Nat := 256

def maxUiChildrenPerNode : Nat := 32

def maxUiDepth : Nat := 16

def maxSemanticTextBytes : Nat := 160

def logicalUnitsPerDp : Nat := 64

def maxLogicalDimensionDp : Nat := 32768

def maxLogicalDimensionQ6 : Nat := maxLogicalDimensionDp * logicalUnitsPerDp

def logicalFromDp (dp : Nat) : Nat :=
  if maxLogicalDimensionDp < dp then 0 else dp * logicalUnitsPerDp

/-- The code computes with the edges in 64 bits, so that nothing wraps. -/
structure LogicalRect where
  xQ6 : Int := 0
  yQ6 : Int := 0
  widthQ6 : Nat := 0
  heightQ6 : Nat := 0
  deriving DecidableEq

namespace LogicalRect

def nonempty (r : LogicalRect) : Bool := r.widthQ6 != 0 && r.heightQ6 != 0

def bounded (r : LogicalRect) : Bool :=
  if !r.nonempty || decide (maxLogicalDimensionQ6 < r.widthQ6) ||
      decide (maxLogicalDimensionQ6 < r.heightQ6) then false
  else
    decide (-(maxLogicalDimensionQ6 : Int) ≤ r.xQ6) &&
    decide (-(maxLogicalDimensionQ6 : Int) ≤ r.yQ6) &&
    decide (r.xQ6 + r.widthQ6 ≤ maxLogicalDimensionQ6) &&
    decide (r.yQ6 + r.heightQ6 ≤ maxLogicalDimensionQ6)

end LogicalRect

def continuation (value : UInt8) : Bool := value &&& 0xC0 == 0x80

/-- The loop over the bytes, from the one it has come to. -/
def validUtf8 : List UInt8 → Bool
  | [] => true
  | b0 :: rest =>
    if b0 ≤ 0x7F then validUtf8 rest
    else if 0xC2 ≤ b0 ∧ b0 ≤ 0xDF then
      match rest with
      | b1 :: rest => if !continuation b1 then false else validUtf8 rest
      | _ => false
    else if 0xE0 ≤ b0 ∧ b0 ≤ 0xEF then
      match rest with
      | b1 :: b2 :: rest =>
        if !continuation b1 || !continuation b2 then false
        else if b0 = 0xE0 ∧ b1 < 0xA0 then false
        else if b0 = 0xED ∧ 0xA0 ≤ b1 then false
        else validUtf8 rest
      | _ => false
    else if 0xF0 ≤ b0 ∧ b0 ≤ 0xF4 then
      match rest with
      | b1 :: b2 :: b3 :: rest =>
        if !continuation b1 || !continuation b2 || !continuation b3 then false
        else if b0 = 0xF0 ∧ b1 < 0x90 then false
        else if b0 = 0xF4 ∧ 0x8F < b1 then false
        else validUtf8 rest
      | _ => false
    else false

/-- The bytes of a label are those up to its length. -/
structure SemanticText where
  bytes : Vector UInt8 160 := Vector.replicate 160 0
  length : UInt16 := 0
  deriving DecidableEq

namespace SemanticText

def view (t : SemanticText) : List UInt8 := t.bytes.toList.take t.length.toNat

def empty (t : SemanticText) : Bool := t.length == 0

end SemanticText

def semanticTextValid (text : SemanticText) : Bool :=
  decide (text.length.toNat ≤ maxSemanticTextBytes) && validUtf8 text.view

def makeSemanticText (text : List UInt8) : Result SemanticText :=
  if maxSemanticTextBytes < text.length then .error (uiError Errors.textTooLong)
  else if !validUtf8 text then .error (uiError Errors.invalidText)
  else .ok { bytes := Vector.ofFn fun i : Fin 160 => text.getD i 0
             length := UInt16.ofNat text.length }

abbrev UiNodeId := UInt32

abbrev StyleTokenId := UInt16

inductive UiRole where
  | root | container | text | image | button | toggle | textField | list | listItem
  deriving DecidableEq

inductive UiAction where
  | activate | focus | toggle | setText | select

abbrev UiActionMask := UInt16

def actionMask : UiAction → UiActionMask
  | .activate => 1
  | .focus => 2
  | .toggle => 4
  | .setText => 8
  | .select => 16

def hasAction (mask : UiActionMask) (action : UiAction) : Bool := mask &&& actionMask action != 0

def knownActions : UiActionMask :=
  actionMask .activate ||| actionMask .focus ||| actionMask .toggle ||| actionMask .setText |||
    actionMask .select

structure UiNodeState where
  visible : Bool := true
  enabled : Bool := true
  focused : Bool := false
  selected : Bool := false
  checked : Bool := false
  pressed : Bool := false
  deriving DecidableEq

structure UiNodeSpec where
  role : UiRole := .container
  bounds : LogicalRect := {}
  actions : UiActionMask := 0
  state : UiNodeState := {}
  style : StyleTokenId := 0
  label : SemanticText := {}
  accessibilityHidden : Bool := false

/-- The depth is at most sixteen wherever the code adds to it. -/
structure UiNodeDescriptor where
  id : UiNodeId := 0
  parent : UiNodeId := 0
  depth : Nat := 0
  spec : UiNodeSpec := {}

structure AccessibilityNode where
  id : UiNodeId := 0
  parent : UiNodeId := 0
  role : UiRole := .container
  bounds : LogicalRect := {}
  state : UiNodeState := {}
  actions : UiActionMask := 0
  label : SemanticText := {}

end Enml.OsUi
