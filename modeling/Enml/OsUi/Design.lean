import Enml.OsUi.Types

/-! The design system: the table of style tokens and the metrics their roles
stand for. -/
namespace Enml.OsUi

open Enml.Core

inductive ColorRole where
  | transparent | surface | surfaceElevated | textPrimary | textSecondary | accent | onAccent
  | outline | focus | critical | onCritical | accentSecondary | accentTertiary | highlight
  deriving DecidableEq

inductive TypographyRole where
  | body | label | title | headline
  deriving DecidableEq

inductive SpacingRole where
  | none | xxs | xs | sm | md | lg | xl
  deriving DecidableEq

inductive ShapeRole where
  | square | small | medium | large | pill
  deriving DecidableEq

inductive OpticalMaterialRole where
  | none | opaqueMaterial | translucent | crystal | smoked | luminous
  deriving DecidableEq

inductive DepthRole where
  | flush | inset | raised | floating | hero
  deriving DecidableEq

inductive CurveRole where
  | rectilinear | soft | continuous | swept | capsule
  deriving DecidableEq

inductive MotionRole where
  | none | micro | responsive | transition | reveal
  deriving DecidableEq

inductive MotionCurve where
  | linear | easeOut | easeInOut | springSoft | springPrecise
  deriving DecidableEq

structure TypographyMetrics where
  sizeQ6 : Nat := 0
  lineHeightQ6 : Nat := 0
  weight : Nat := 400
  deriving DecidableEq

structure MaterialMetrics where
  opacityPercent : Nat := 100
  backdropBlurQ6 : Nat := 0
  tintPercent : Nat := 0
  specularPercent : Nat := 0
  liveBackdropAllowed : Bool := false
  deriving DecidableEq

structure DepthMetrics where
  offsetQ6 : Nat := 0
  blurQ6 : Nat := 0
  opacityPercent : Nat := 0
  deriving DecidableEq

structure CurveMetrics where
  nominalRadiusQ6 : Nat := 0
  smoothingPercent : Nat := 0
  asymmetricContourAllowed : Bool := false
  deriving DecidableEq

structure MotionMetrics where
  durationMs : Nat := 0
  curve : MotionCurve := .linear
  spatialMotionAllowed : Bool := false
  deriving DecidableEq

structure VisualPreferences where
  reduceTransparency : Bool := false
  reduceMotion : Bool := false
  highContrast : Bool := false

structure UiStyleToken where
  id : StyleTokenId := 0
  foreground : ColorRole := .textPrimary
  background : ColorRole := .transparent
  outline : ColorRole := .transparent
  typography : TypographyRole := .body
  horizontalPadding : SpacingRole := .none
  verticalPadding : SpacingRole := .none
  shape : ShapeRole := .square
  material : OpticalMaterialRole := .none
  depth : DepthRole := .flush
  curve : CurveRole := .rectilinear
  motion : MotionRole := .none
  materialTint : ColorRole := .transparent
  deriving DecidableEq

structure ResolvedVisualStyle where
  token : UiStyleToken := {}
  material : MaterialMetrics := {}
  depth : DepthMetrics := {}
  curve : CurveMetrics := {}
  motion : MotionMetrics := {}
  deriving DecidableEq

def minTextScalePercent : Nat := 100

def maxTextScalePercent : Nat := 300

namespace StyleTokens
def surface : StyleTokenId := 1
def bodyText : StyleTokenId := 2
def secondaryText : StyleTokenId := 3
def titleText : StyleTokenId := 4
def primaryAction : StyleTokenId := 5
def secondaryAction : StyleTokenId := 6
def textField : StyleTokenId := 7
def listItem : StyleTokenId := 8
def criticalAction : StyleTokenId := 9
def focusRing : StyleTokenId := 10
def translucentPanel : StyleTokenId := 11
def floatingPanel : StyleTokenId := 12
def heroSurface : StyleTokenId := 13
end StyleTokens

open StyleTokens

/-- Where a row of the table gives a field its default, it is left out. -/
def styleTable : List UiStyleToken := [
  { id := surface, background := .surface, material := .opaqueMaterial },
  { id := bodyText },
  { id := secondaryText, foreground := .textSecondary },
  { id := titleText, typography := .title },
  { id := primaryAction
    foreground := .onAccent
    background := .accent
    typography := .label
    horizontalPadding := .md
    verticalPadding := .sm
    shape := .medium
    material := .opaqueMaterial
    depth := .raised
    curve := .continuous
    motion := .responsive
    materialTint := .accentSecondary },
  { id := secondaryAction
    background := .surfaceElevated
    outline := .outline
    typography := .label
    horizontalPadding := .md
    verticalPadding := .sm
    shape := .medium
    material := .translucent
    depth := .raised
    curve := .continuous
    motion := .responsive
    materialTint := .accentSecondary },
  { id := textField
    background := .surfaceElevated
    outline := .outline
    horizontalPadding := .md
    verticalPadding := .sm
    shape := .small
    material := .smoked
    depth := .inset
    curve := .soft
    motion := .micro
    materialTint := .accentTertiary },
  { id := listItem
    background := .surface
    horizontalPadding := .md
    verticalPadding := .sm
    material := .opaqueMaterial
    motion := .micro },
  { id := criticalAction
    foreground := .onCritical
    background := .critical
    typography := .label
    horizontalPadding := .md
    verticalPadding := .sm
    shape := .medium
    material := .opaqueMaterial
    depth := .raised
    curve := .continuous
    motion := .responsive
    materialTint := .highlight },
  { id := focusRing
    foreground := .focus
    outline := .focus
    shape := .medium
    depth := .raised
    curve := .continuous
    motion := .micro },
  { id := translucentPanel
    background := .surfaceElevated
    outline := .outline
    horizontalPadding := .lg
    verticalPadding := .lg
    shape := .large
    material := .crystal
    depth := .floating
    curve := .swept
    motion := .transition
    materialTint := .accentSecondary },
  { id := floatingPanel
    background := .surfaceElevated
    outline := .outline
    horizontalPadding := .lg
    verticalPadding := .lg
    shape := .large
    material := .smoked
    depth := .floating
    curve := .continuous
    motion := .transition
    materialTint := .accentTertiary },
  { id := heroSurface
    background := .surfaceElevated
    outline := .highlight
    typography := .headline
    horizontalPadding := .xl
    verticalPadding := .xl
    shape := .large
    material := .luminous
    depth := .hero
    curve := .swept
    motion := .reveal
    materialTint := .accentSecondary }]

def styleTokenValid (id : StyleTokenId) : Bool :=
  id == 0 || styleTable.any fun token => token.id == id

def resolveStyleToken (id : StyleTokenId) : Result UiStyleToken :=
  if id = 0 then .error (uiError Errors.invalidStyle)
  else
    match styleTable.find? fun token => token.id == id with
    | some token => .ok token
    | none => .error (uiError Errors.invalidStyle)

def baseTypography : TypographyRole → TypographyMetrics
  | .body => ⟨logicalFromDp 16, logicalFromDp 24, 400⟩
  | .label => ⟨logicalFromDp 14, logicalFromDp 20, 600⟩
  | .title => ⟨logicalFromDp 20, logicalFromDp 28, 600⟩
  | .headline => ⟨logicalFromDp 28, logicalFromDp 36, 600⟩

def typographyMetrics (role : TypographyRole) (scalePercent : Nat) : Result TypographyMetrics :=
  if scalePercent < minTextScalePercent ∨ maxTextScalePercent < scalePercent then
    .error (uiError Errors.invalidTextScale)
  else
    let base := baseTypography role
    let scaledSize := base.sizeQ6 * scalePercent / 100
    let scaledLine := base.lineHeightQ6 * scalePercent / 100
    if scaledSize = 0 ∨ scaledLine = 0 ∨ maxLogicalDimensionQ6 < scaledSize ∨
        maxLogicalDimensionQ6 < scaledLine then
      .error (uiError Errors.invalidTextScale)
    else .ok { sizeQ6 := scaledSize, lineHeightQ6 := scaledLine, weight := base.weight }

def materialMetrics (role : OpticalMaterialRole) (reduceTransparency : Bool) : MaterialMetrics :=
  if reduceTransparency ∧ role ≠ .none then ⟨100, 0, 0, 0, false⟩
  else
    match role with
    | .none => ⟨0, 0, 0, 0, false⟩
    | .opaqueMaterial => ⟨100, 0, 0, 8, false⟩
    | .translucent => ⟨88, logicalFromDp 18, 12, 8, true⟩
    | .crystal => ⟨72, logicalFromDp 24, 8, 22, true⟩
    | .smoked => ⟨84, logicalFromDp 20, 22, 12, true⟩
    | .luminous => ⟨92, logicalFromDp 12, 18, 28, true⟩

def depthMetrics : DepthRole → DepthMetrics
  | .flush => ⟨0, 0, 0⟩
  | .inset => ⟨logicalFromDp 1, logicalFromDp 3, 10⟩
  | .raised => ⟨logicalFromDp 2, logicalFromDp 8, 16⟩
  | .floating => ⟨logicalFromDp 6, logicalFromDp 18, 18⟩
  | .hero => ⟨logicalFromDp 12, logicalFromDp 30, 20⟩

def curveMetrics : CurveRole → CurveMetrics
  | .rectilinear => ⟨0, 0, false⟩
  | .soft => ⟨logicalFromDp 6, 35, false⟩
  | .continuous => ⟨logicalFromDp 12, 70, false⟩
  | .swept => ⟨logicalFromDp 18, 85, true⟩
  | .capsule => ⟨logicalFromDp 999, 100, false⟩

def motionMetrics (role : MotionRole) (reduceMotion : Bool) : MotionMetrics :=
  if reduceMotion ∧ role ≠ .none then ⟨80, .easeOut, false⟩
  else
    match role with
    | .none => ⟨0, .linear, false⟩
    | .micro => ⟨120, .springPrecise, true⟩
    | .responsive => ⟨180, .springPrecise, true⟩
    | .transition => ⟨280, .easeInOut, true⟩
    | .reveal => ⟨420, .springSoft, true⟩

def resolveVisualStyle (id : StyleTokenId) (preferences : VisualPreferences) :
    Result ResolvedVisualStyle := do
  let found ← resolveStyleToken id
  let token :=
    if preferences.highContrast then { found with materialTint := .transparent } else found
  return { token
           material := materialMetrics token.material
             (preferences.reduceTransparency || preferences.highContrast)
           depth := depthMetrics token.depth
           curve := curveMetrics token.curve
           motion := motionMetrics token.motion preferences.reduceMotion }

structure CornerRadii where
  topLeftQ6 : Nat := 0
  topRightQ6 : Nat := 0
  bottomRightQ6 : Nat := 0
  bottomLeftQ6 : Nat := 0
  deriving DecidableEq

structure ResolvedContour where
  role : CurveRole := .rectilinear
  radii : CornerRadii := {}
  smoothingPercent : Nat := 0
  asymmetric : Bool := false
  deriving DecidableEq

def resolveContour (bounds : LogicalRect) (role : CurveRole) : Result ResolvedContour :=
  if !bounds.bounded then .error (uiError Errors.invalidBounds)
  else
    let metrics := curveMetrics role
    let halfShortSide := min bounds.widthQ6 bounds.heightQ6 / 2
    let base := min metrics.nominalRadiusQ6 halfShortSide
    match role with
    | .rectilinear => .ok { role, smoothingPercent := metrics.smoothingPercent }
    | .capsule =>
      .ok { role
            radii := ⟨halfShortSide, halfShortSide, halfShortSide, halfShortSide⟩
            smoothingPercent := metrics.smoothingPercent }
    | .swept =>
      .ok { role
            radii := ⟨base * 1 / 2, base, base * 3 / 4, min halfShortSide (base * 5 / 4)⟩
            smoothingPercent := metrics.smoothingPercent
            asymmetric := true }
    | _ =>
      .ok { role
            radii := ⟨base, base, base, base⟩
            smoothingPercent := metrics.smoothingPercent }

inductive FontFamilyRole where
  | interface | display | international | symbols | monospace
  deriving DecidableEq

/-- The families of the chain, as many as it counts. -/
abbrev FontFallbackChain := List FontFamilyRole

structure ResolvedTextStyle where
  metrics : TypographyMetrics := {}
  fallback : FontFallbackChain := []

def fontFallbackChain : TypographyRole → FontFallbackChain
  | .body | .label => [.interface, .international, .symbols]
  | .title | .headline => [.display, .interface, .international, .symbols]

def resolveTextStyle (role : TypographyRole) (scalePercent : Nat) : Result ResolvedTextStyle := do
  let metrics ← typographyMetrics role scalePercent
  return { metrics, fallback := fontFallbackChain role }

/-- A token that is valid and not the unstyled one is in the table. -/
theorem resolveVisualStyle_eq_ok {id : StyleTokenId} (hValid : styleTokenValid id = true)
    (hStyled : id ≠ 0) (preferences : VisualPreferences) :
    ∃ visual, resolveVisualStyle id preferences = .ok visual := by
  have hZero : (id == 0) = false := by simpa using hStyled
  rw [styleTokenValid, hZero, Bool.false_or, List.any_eq_true, ← List.find?_isSome,
    Option.isSome_iff_exists] at hValid
  obtain ⟨token, hFound⟩ := hValid
  have hToken : resolveStyleToken id = .ok token := by
    rw [resolveStyleToken, if_neg hStyled, hFound]
  exact ⟨_, bind_eq_ok_iff.mpr ⟨token, hToken, rfl⟩⟩

theorem resolveContour_eq_ok {bounds : LogicalRect} (hBounded : bounds.bounded = true)
    (role : CurveRole) : ∃ contour, resolveContour bounds role = .ok contour := by
  rw [resolveContour, hBounded]
  cases role <;> exact ⟨_, rfl⟩

theorem resolveTextStyle_eq_ok {scalePercent : Nat} (hLow : minTextScalePercent ≤ scalePercent)
    (hHigh : scalePercent ≤ maxTextScalePercent) (role : TypographyRole) :
    ∃ style, resolveTextStyle role scalePercent = .ok style := by
  have hScale : ∃ metrics, typographyMetrics role scalePercent = .ok metrics := by
    have hLow : 100 ≤ scalePercent := hLow
    have hHigh : scalePercent ≤ 300 := hHigh
    have hBase : 100 ≤ (baseTypography role).sizeQ6 ∧ (baseTypography role).sizeQ6 ≤ 3000 ∧
        100 ≤ (baseTypography role).lineHeightQ6 ∧ (baseTypography role).lineHeightQ6 ≤ 3000 := by
      cases role <;> decide
    obtain ⟨hSizeLow, hSizeHigh, hLineLow, hLineHigh⟩ := hBase
    have hSize := Nat.mul_le_mul hSizeLow hLow
    have hSize' := Nat.mul_le_mul hSizeHigh hHigh
    have hLine := Nat.mul_le_mul hLineLow hLow
    have hLine' := Nat.mul_le_mul hLineHigh hHigh
    have hLimit : maxLogicalDimensionQ6 = 2097152 := rfl
    rw [typographyMetrics, if_neg (by unfold minTextScalePercent maxTextScalePercent; omega)]
    exact ⟨_, if_neg (by omega)⟩
  obtain ⟨metrics, hMetrics⟩ := hScale
  exact ⟨_, bind_eq_ok_iff.mpr ⟨metrics, hMetrics, rfl⟩⟩

end Enml.OsUi
