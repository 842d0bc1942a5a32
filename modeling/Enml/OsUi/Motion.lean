import Enml.OsUi.Design
import Mathlib.Tactic.Linarith
import Mathlib.Tactic.Ring

/-! Motion timelines: one sample tells how far an animation has come and when the next
frame is wanted. Times are in nanoseconds, progress is in parts of 65535. -/
namespace Enml.OsUi

open Enml.Core

def Errors.invalidMotionTimeline : UInt32 := 35

open Errors

def motionProgressOneQ16 : Nat := 65535
def maxMotionDurationMs : Nat := 5000
def nsPerMs : Nat := 1000000

structure MotionTimeline where
  metrics : MotionMetrics := {}
  startNs : Nat := 0
  endNs : Nat := 0
  active : Bool := false
  deriving DecidableEq

structure MotionFrameSample where
  progressQ16 : Nat := motionProgressOneQ16
  complete : Bool := true
  requestNextFrame : Bool := false
  nextFrameNs : Nat := 0

def clampQ16 (value : Nat) : Nat :=
  if motionProgressOneQ16 < value then motionProgressOneQ16 else value

def squareQ16 (value : Nat) : Nat :=
  clampQ16 ((value * value + motionProgressOneQ16 / 2) / motionProgressOneQ16)

def cubicQ16 (value : Nat) : Nat :=
  clampQ16 ((squareQ16 value * value + motionProgressOneQ16 / 2) / motionProgressOneQ16)

def curveProgress (curve : MotionCurve) (linearQ16 : Nat) : Nat :=
  let p := if motionProgressOneQ16 < linearQ16 then motionProgressOneQ16 else linearQ16
  let inverse := motionProgressOneQ16 - p
  match curve with
  | .linear => p
  | .easeOut => motionProgressOneQ16 - squareQ16 inverse
  | .easeInOut =>
    let p2 := squareQ16 p
    let p3 := cubicQ16 p
    clampQ16 (if 2 * p3 ≤ 3 * p2 then 3 * p2 - 2 * p3 else 0)
  | .springSoft => motionProgressOneQ16 - cubicQ16 inverse
  | .springPrecise => motionProgressOneQ16 - squareQ16 inverse

def timelineValid (timeline : MotionTimeline) : Bool :=
  let durationMs := timeline.metrics.durationMs
  if maxMotionDurationMs < durationMs then false
  else if !timeline.active then durationMs == 0 && timeline.endNs == timeline.startNs
  else if durationMs = 0 ∨ timeline.endNs ≤ timeline.startNs then false
  else timeline.endNs - timeline.startNs == durationMs * nsPerMs

def beginMotion (role : MotionRole) (reduceMotion : Bool) (nowNs : Nat) : Result MotionTimeline :=
  let metrics := motionMetrics role reduceMotion
  if maxMotionDurationMs < metrics.durationMs then .error (uiError invalidMotionTimeline)
  else if metrics.durationMs = 0 then .ok { metrics, startNs := nowNs, endNs := nowNs }
  else
    let durationNs := metrics.durationMs * nsPerMs
    if 2 ^ 64 - 1 - durationNs < nowNs then .error (uiError invalidMotionTimeline)
    else .ok { metrics, startNs := nowNs, endNs := nowNs + durationNs, active := true }

/-- The products and casts wrap around as those of the machine do. -/
def sampleMotion (timeline : MotionTimeline) (nowNs nextCompositorTickNs : Nat) :
    Result MotionFrameSample :=
  if !timelineValid timeline then .error (uiError invalidMotionTimeline)
  else if !timeline.active then .ok {}
  else if nowNs < timeline.startNs then .error (uiError invalidMotionTimeline)
  else if timeline.endNs ≤ nowNs then .ok {}
  else
    let durationNs := timeline.endNs - timeline.startNs
    let elapsedNs := nowNs - timeline.startNs
    let linear := elapsedNs * motionProgressOneQ16 % 2 ^ 64 / durationNs % 2 ^ 32
    let sample : MotionFrameSample :=
      { progressQ16 := curveProgress timeline.metrics.curve linear, complete := false }
    if nextCompositorTickNs ≤ nowNs then .ok sample
    else
      .ok { sample with
            requestNextFrame := true
            nextFrameNs := if nextCompositorTickNs < timeline.endNs then nextCompositorTickNs
              else timeline.endNs }

theorem clampQ16_le (value : Nat) : clampQ16 value ≤ motionProgressOneQ16 := by
  unfold clampQ16
  split_ifs <;> omega

theorem clampQ16_mono {a b : Nat} (h : a ≤ b) : clampQ16 a ≤ clampQ16 b := by
  unfold clampQ16
  split_ifs <;> omega

theorem squareQ16_mono {a b : Nat} (h : a ≤ b) : squareQ16 a ≤ squareQ16 b :=
  clampQ16_mono (Nat.div_le_div_right (Nat.add_le_add_right (Nat.mul_le_mul h h) _))

theorem cubicQ16_mono {a b : Nat} (h : a ≤ b) : cubicQ16 a ≤ cubicQ16 b :=
  clampQ16_mono (Nat.div_le_div_right
    (Nat.add_le_add_right (Nat.mul_le_mul (squareQ16_mono h) h) _))

theorem curveProgress_le (curve : MotionCurve) (linear : Nat) :
    curveProgress curve linear ≤ motionProgressOneQ16 := by
  cases curve with
  | linear | easeInOut => exact clampQ16_le _
  | easeOut | springSoft | springPrecise => exact Nat.sub_le ..

theorem curveProgress_zero (curve : MotionCurve) : curveProgress curve 0 = 0 := by
  cases curve <;> rfl

/-- Each curve rises but the one that is a difference of two rounded terms. -/
theorem curveProgress_mono {curve : MotionCurve} (hCurve : curve ≠ .easeInOut) {a b : Nat}
    (h : a ≤ b) : curveProgress curve a ≤ curveProgress curve b := by
  have hPoint : clampQ16 a ≤ clampQ16 b := clampQ16_mono h
  have hInverse := Nat.sub_le_sub_left hPoint motionProgressOneQ16
  cases curve with
  | linear => exact hPoint
  | easeInOut => exact absurd rfl hCurve
  | easeOut | springPrecise => exact Nat.sub_le_sub_left (squareQ16_mono hInverse) _
  | springSoft => exact Nat.sub_le_sub_left (cubicQ16_mono hInverse) _

/-- A rounded division is off by at most half of the divisor. -/
theorem clampQ16_near {x : Nat} (h : x ≤ motionProgressOneQ16 * motionProgressOneQ16) :
    65535 * clampQ16 ((x + motionProgressOneQ16 / 2) / motionProgressOneQ16) ≤ x + 32767 ∧
      x ≤ 65535 * clampQ16 ((x + motionProgressOneQ16 / 2) / motionProgressOneQ16) + 32767 := by
  unfold clampQ16 motionProgressOneQ16 at *
  split_ifs <;> omega

theorem squareQ16_near {p : Nat} (h : p ≤ motionProgressOneQ16) :
    65535 * squareQ16 p ≤ p * p + 32767 ∧ p * p ≤ 65535 * squareQ16 p + 32767 :=
  clampQ16_near (Nat.mul_le_mul h h)

theorem cubicQ16_near {p : Nat} (h : p ≤ motionProgressOneQ16) :
    65535 * cubicQ16 p ≤ squareQ16 p * p + 32767 ∧ squareQ16 p * p ≤ 65535 * cubicQ16 p + 32767 :=
  clampQ16_near (Nat.mul_le_mul (clampQ16_le _) h)

/-- The square rises at least as fast as its slope at the left end, up to the rounding. -/
theorem squareQ16_slope {a b : Nat} (h : a ≤ b) (hb : b ≤ motionProgressOneQ16) :
    2 * (squareQ16 a * (b - a)) ≤ 65535 * (squareQ16 b - squareQ16 a) + 65535 := by
  obtain ⟨k, rfl⟩ := Nat.exists_eq_add_of_le h
  obtain ⟨d, hd⟩ := Nat.exists_eq_add_of_le (squareQ16_mono h)
  have ha := (squareQ16_near (h.trans hb)).1
  have hRise := (squareQ16_near hb).2
  rw [hd] at hRise ⊢
  unfold motionProgressOneQ16 at hb
  rw [Nat.add_sub_cancel_left, Nat.add_sub_cancel_left]
  generalize squareQ16 a = s at *
  have hSlope : 2 * (a * a) * k ≤ a * (65535 * d + 65534) := by
    have : 2 * a * k ≤ 65535 * d + 65534 := by nlinarith
    calc 2 * (a * a) * k = a * (2 * a * k) := by ring
      _ ≤ _ := Nat.mul_le_mul_left a this
  have hAll : 65535 * (2 * (s * k)) ≤ 65535 * (a * d + (a + k)) := by nlinarith
  have := Nat.le_of_mul_le_mul_left hAll (by decide)
  nlinarith

/-- What the difference of the two rounded terms may fall back. -/
theorem easeInOut_mono {a b : Nat} (h : a ≤ b) :
    curveProgress .easeInOut a ≤ curveProgress .easeInOut b + 2 := by
  have hPoint : clampQ16 a ≤ clampQ16 b := clampQ16_mono h
  have hb : clampQ16 b ≤ motionProgressOneQ16 := curveProgress_le .linear b
  show clampQ16 (if 2 * cubicQ16 (clampQ16 a) ≤ 3 * squareQ16 (clampQ16 a) then
      3 * squareQ16 (clampQ16 a) - 2 * cubicQ16 (clampQ16 a) else 0) ≤
    clampQ16 (if 2 * cubicQ16 (clampQ16 b) ≤ 3 * squareQ16 (clampQ16 b) then
      3 * squareQ16 (clampQ16 b) - 2 * cubicQ16 (clampQ16 b) else 0) + 2
  generalize clampQ16 a = p at *
  generalize clampQ16 b = q at *
  have hSlope := squareQ16_slope hPoint hb
  have hSquare := squareQ16_mono hPoint
  have hFrom := (cubicQ16_near (hPoint.trans hb)).2
  have hTo := (cubicQ16_near hb).1
  obtain ⟨k, rfl⟩ := Nat.exists_eq_add_of_le hPoint
  obtain ⟨d, hd⟩ := Nat.exists_eq_add_of_le hSquare
  rw [hd] at hSlope hTo ⊢
  rw [Nat.add_sub_cancel_left, Nat.add_sub_cancel_left] at hSlope
  unfold motionProgressOneQ16 at hb
  have hStep : d * (p + k) ≤ d * 65535 := Nat.mul_le_mul_left d hb
  have hProduct : (squareQ16 p + d) * (p + k) =
      squareQ16 p * p + squareQ16 p * k + d * (p + k) := by ring
  unfold clampQ16 motionProgressOneQ16
  split_ifs <;> omega

namespace MotionTimeline

/-- What `beginMotion` makes: a timeline without a length is not active. -/
structure Begun (t : MotionTimeline) : Prop where
  active : t.active = (t.metrics.durationMs != 0)
  short : t.metrics.durationMs ≤ 5000
  ends : t.endNs = t.startNs + t.metrics.durationMs * 1000000

/-- The progress without the word sizes. -/
def progressAt (t : MotionTimeline) (nowNs : Nat) : Nat :=
  if t.endNs ≤ nowNs then motionProgressOneQ16
  else curveProgress t.metrics.curve
    ((nowNs - t.startNs) * motionProgressOneQ16 / (t.endNs - t.startNs))

variable {t : MotionTimeline} {now tick : Nat}

/-- No elapsed time within the timeline overflows when it is scaled. -/
theorem Begun.scaled_lt (h : t.Begun) (hTo : now < t.endNs) :
    (now - t.startNs) * motionProgressOneQ16 < 2 ^ 64 := by
  have hShort := h.short
  have hEnds := h.ends
  unfold motionProgressOneQ16
  omega

theorem Begun.valid (h : t.Begun) : timelineValid t = true := by
  have hShort : ¬maxMotionDurationMs < t.metrics.durationMs := Nat.not_lt.mpr h.short
  unfold timelineValid
  rw [if_neg hShort, h.active, nsPerMs, h.ends]
  by_cases hNone : t.metrics.durationMs = 0
  · simp [hNone]
  · simp [hNone]

theorem Begun.sampleMotion_eq (h : t.Begun) (hFrom : t.startNs ≤ now) (tick : Nat) :
    ∃ s, sampleMotion t now tick = .ok s ∧ s.progressQ16 = t.progressAt now ∧
      (s.requestNextFrame = true → now < s.nextFrameNs ∧ s.nextFrameNs ≤ t.endNs) := by
  have hEnds := h.ends
  unfold sampleMotion progressAt
  rw [h.valid, h.active]
  by_cases hTo : t.endNs ≤ now
  · refine ⟨{}, ?_, (if_pos hTo).symm, by simp⟩
    rw [if_neg (Nat.not_lt.mpr hFrom), if_pos hTo, ite_self]
    rfl
  have hScaled := h.scaled_lt (Nat.not_le.mp hTo)
  have hPart : (now - t.startNs) * motionProgressOneQ16 / (t.endNs - t.startNs) < 2 ^ 32 := by
    rw [Nat.div_lt_iff_lt_mul (by omega)]
    unfold motionProgressOneQ16
    omega
  rw [bne_iff_ne.mpr (show t.metrics.durationMs ≠ 0 by omega),
    if_neg (Nat.not_lt.mpr hFrom), if_neg hTo, if_neg hTo]
  dsimp only
  rw [Nat.mod_eq_of_lt hScaled, Nat.mod_eq_of_lt hPart]
  by_cases hTick : tick ≤ now
  · rw [if_pos hTick]
    exact ⟨_, rfl, rfl, by simp⟩
  rw [if_neg hTick]
  refine ⟨_, rfl, rfl, fun _ => ?_⟩
  dsimp only
  split_ifs <;> omega

/-- What the samples of a timeline say. -/
structure Steady (t : MotionTimeline) : Prop where
  sampled : ∀ now tick, t.startNs ≤ now → ∃ s, sampleMotion t now tick = .ok s ∧
    s.progressQ16 = t.progressAt now ∧
      (s.requestNextFrame = true → now < s.nextFrameNs ∧ s.nextFrameNs ≤ t.endNs)
  scaled : ∀ now < t.endNs, (now - t.startNs) * motionProgressOneQ16 < 2 ^ 64
  within : ∀ now, t.progressAt now ≤ motionProgressOneQ16
  starts : t.active = true → t.progressAt t.startNs = 0
  ends : ∀ now, t.endNs ≤ now → t.progressAt now = motionProgressOneQ16
  idle : t.active = false → t.endNs = t.startNs
  rises : ∀ now later, t.startNs ≤ now → now ≤ later →
    t.progressAt now ≤ t.progressAt later + if t.metrics.curve = .easeInOut then 2 else 0

theorem Begun.steady (h : t.Begun) : t.Steady where
  sampled now tick hFrom := h.sampleMotion_eq hFrom tick
  scaled now := h.scaled_lt
  within now := by
    unfold progressAt
    split_ifs
    · exact Nat.le_refl _
    · exact curveProgress_le _ _
  starts hActive := by
    have hEnds := h.ends
    have hLong := bne_iff_ne.mp (h.active.symm.trans hActive)
    rw [progressAt, if_neg (by omega), Nat.sub_self, Nat.zero_mul, Nat.zero_div]
    exact curveProgress_zero _
  ends now hTo := if_pos hTo
  idle hIdle := by
    have hNone := bne_eq_false_iff_eq.mp (h.active.symm.trans hIdle)
    rw [h.ends, hNone, Nat.zero_mul, Nat.add_zero]
  rises now later hFrom hLe := by
    unfold progressAt
    by_cases hEnd : t.endNs ≤ later
    · rw [if_pos hEnd]
      refine Nat.le_add_right_of_le ?_
      split_ifs
      · exact Nat.le_refl _
      · exact curveProgress_le _ _
    have hNow : ¬t.endNs ≤ now := fun hTo => hEnd (hTo.trans hLe)
    rw [if_neg hNow, if_neg hEnd]
    have hPart : (now - t.startNs) * motionProgressOneQ16 / (t.endNs - t.startNs) ≤
        (later - t.startNs) * motionProgressOneQ16 / (t.endNs - t.startNs) :=
      Nat.div_le_div_right (Nat.mul_le_mul_right _ (Nat.sub_le_sub_right hLe _))
    split_ifs with hCurve
    · rw [hCurve]
      exact easeInOut_mono hPart
    · exact curveProgress_mono hCurve hPart

end MotionTimeline

/-- The samples of every timeline that is begun. -/
theorem begun_motion_is_steady {role : MotionRole} {reduceMotion : Bool} {now : Nat}
    {t : MotionTimeline} (h : beginMotion role reduceMotion now = .ok t) :
    t.startNs = now ∧ t.Steady := by
  unfold beginMotion at h
  dsimp only at h
  split_ifs at h with hLong hNone
  · cases h
    refine ⟨rfl, MotionTimeline.Begun.steady ⟨?_, ?_, ?_⟩⟩
    all_goals simp [hNone]
  · cases h
    exact ⟨rfl, MotionTimeline.Begun.steady
      ⟨(bne_iff_ne.mpr hNone).symm, Nat.not_lt.mp hLong, rfl⟩⟩

/-- The responsive motion from 7 ns on. -/
theorem responsive_motion_is_steady :
    MotionTimeline.Steady ⟨⟨180, .springPrecise, true⟩, 7, 180000007, true⟩ :=
  (begun_motion_is_steady (show beginMotion .responsive false 7 = _ by decide)).2

/-- How far a motion has come that begins at 0. -/
def begunProgress (role : MotionRole) (nowNs : Nat) : Result Nat := do
  let timeline ← beginMotion role false 0
  let sample ← sampleMotion timeline nowNs 0
  return sample.progressQ16

/-- Near its end the progress of a transition goes down, and without motion it is one from
the start. -/
theorem transition_falls_back :
    begunProgress .transition 279222401 = .ok 65534 ∧
      begunProgress .transition 279226673 = .ok 65533 ∧ begunProgress .none 0 = .ok 65535 := by
  decide +kernel

end Enml.OsUi
