import HigeMaster.CoreMLHelpers.NonMaxSuppression
import HigeMaster.Geometry.Overlap
import HigeMaster.JaccardIndex

/-!
# Intersection over union

In exact arithmetic the overlap of two boxes is the Jaccard index of their
areas, for boxes of any size and sign, and does not depend on the units in
which the boxes are given nor on the direction of the axes.  If the
coordinates of the boxes have few enough bits, as whole numbers of points or
pixels do, the program rounds nothing but this number.
-/

namespace HigeMaster

open Geometry MeasureTheory

/-- The points of a rectangle of the program. -/
def CGRect.region (rect : CGRect) : Set (ℝ × ℝ) :=
  Rect.region
    { origin := { x := rect.origin.x, y := rect.origin.y }
      size := { width := rect.size.width, height := rect.size.height } }

/-- The overlap in exact arithmetic. -/
def exactIOU (a b : CGRect) : CGFloat :=
  if a.width * a.height = 0 ∨ b.width * b.height = 0 then
    0
  else
    Rect.overlapWidth a b * Rect.overlapHeight a b /
      (a.width * a.height + b.width * b.height -
        Rect.overlapWidth a b * Rect.overlapHeight a b)

/-! ## Units -/

/-- The overlap is the same in other units, also with an axis turned. -/
theorem exactIOU_rescale {factor : CGPoint} (horizontal : factor.x ≠ 0)
    (vertical : factor.y ≠ 0) (shift : CGPoint) (a b : CGRect) :
    exactIOU (a.rescale factor shift) (b.rescale factor shift) = exactIOU a b := by
  have unit : |factor.x| * |factor.y| ≠ 0 :=
    mul_ne_zero (abs_ne_zero.mpr horizontal) (abs_ne_zero.mpr vertical)
  have area : ∀ rect : CGRect,
      (rect.rescale factor shift).width * (rect.rescale factor shift).height =
        |factor.x| * |factor.y| * (rect.width * rect.height) := by
    intro rect
    rw [Rect.width_rescale, Rect.height_rescale]
    ring
  have common :
      Rect.overlapWidth (a.rescale factor shift) (b.rescale factor shift) *
          Rect.overlapHeight (a.rescale factor shift)
            (b.rescale factor shift) =
        |factor.x| * |factor.y| *
          (Rect.overlapWidth a b * Rect.overlapHeight a b) := by
    rw [Rect.overlapWidth_rescale, Rect.overlapHeight_rescale]
    ring
  simp only [exactIOU, area, common, mul_eq_zero_iff_left unit, ← mul_add,
    ← mul_sub, mul_div_mul_left _ _ unit]

/-! ## Areas -/

private theorem volume_region (rect : CGRect) :
    volume.real (CGRect.region rect) =
      (rect.width * rect.height : CGFloat) := by
  rw [CGRect.region, Rect.volume_region]
  simp [Rect.width, Rect.height]

private theorem volume_region_inter_region (a b : CGRect) :
    volume.real (CGRect.region a ∩ CGRect.region b) =
      (Rect.overlapWidth a b * Rect.overlapHeight a b : CGFloat) := by
  rw [CGRect.region, CGRect.region, Rect.volume_region_inter_region]
  simp [Rect.overlapWidth, Rect.overlapHeight, overlapLength, Rect.minX,
    Rect.maxX, Rect.minY, Rect.maxY]

theorem exactIOU_eq_jaccardIndex (a b : CGRect) :
    (exactIOU a b : ℝ) =
      jaccardIndex volume (CGRect.region a) (CGRect.region b) := by
  have finite : ∀ rect : CGRect, volume (CGRect.region rect) ≠ ⊤ :=
    fun rect => Rect.volume_region_ne_top _
  rw [exactIOU]
  by_cases empty : a.width * a.height = 0 ∨ b.width * b.height = 0
  · rw [if_pos empty, Rat.cast_zero]
    symm
    rcases empty with emptyA | emptyB
    · apply jaccardIndex.eq_zero_of_left _ (finite a)
      rw [volume_region, emptyA, Rat.cast_zero]
    · rw [jaccardIndex.comm]
      apply jaccardIndex.eq_zero_of_left _ (finite b)
      rw [volume_region, emptyB, Rat.cast_zero]
  · have measurable : MeasurableSet (CGRect.region b) :=
      Rect.measurableSet_region _
    rw [if_neg empty, jaccardIndex.eq_div measurable (finite a) (finite b),
      volume_region, volume_region, volume_region_inter_region]
    push_cast
    rfl

theorem exactIOU_comm (a b : CGRect) : exactIOU a b = exactIOU b a := by
  have real : (exactIOU a b : ℝ) = exactIOU b a := by
    rw [exactIOU_eq_jaccardIndex, exactIOU_eq_jaccardIndex, jaccardIndex.comm]
  exact_mod_cast real

theorem exactIOU_le_one (a b : CGRect) : exactIOU a b ≤ 1 := by
  have real : (exactIOU a b : ℝ) ≤ 1 := by
    rw [exactIOU_eq_jaccardIndex]
    exact jaccardIndex.le_one (Rect.volume_region_ne_top _)
      (Rect.volume_region_ne_top _)
  exact_mod_cast real

/-- Boxes that both overlap a third one overlap each other. -/
theorem exactIOU_add_le (a b c : CGRect) : exactIOU a b + exactIOU b c ≤ 1 + exactIOU a c := by
  have real : (exactIOU a b + exactIOU b c : ℝ) ≤ 1 + exactIOU a c := by
    rw [exactIOU_eq_jaccardIndex, exactIOU_eq_jaccardIndex, exactIOU_eq_jaccardIndex]
    exact jaccardIndex.add_le_one_add (Rect.measurableSet_region _)
      (Rect.measurableSet_region _) (Rect.volume_region_ne_top _)
      (Rect.volume_region_ne_top _) (Rect.volume_region_ne_top _)
  exact_mod_cast real

/-! ## Rounding -/

/-- The numbers of the rectangle are multiples of a power of two with few
enough bits. -/
structure CGRect.IsCoarse (place : ℤ) (rect : CGRect) : Prop where
  range : |place| ≤ 480
  x : OnGrid 24 place rect.origin.x
  y : OnGrid 24 place rect.origin.y
  width : OnGrid 24 place rect.size.width
  height : OnGrid 24 place rect.size.height

namespace CGRect.IsCoarse

variable {place : ℤ} {a b rect : CGRect}

theorem minX (coarse : IsCoarse place rect) : OnGrid 25 place rect.minX :=
  (coarse.x.mono (by norm_num)).min (coarse.x.add coarse.width)

theorem maxX (coarse : IsCoarse place rect) : OnGrid 25 place rect.maxX :=
  (coarse.x.mono (by norm_num)).max (coarse.x.add coarse.width)

theorem minY (coarse : IsCoarse place rect) : OnGrid 25 place rect.minY :=
  (coarse.y.mono (by norm_num)).min (coarse.y.add coarse.height)

theorem maxY (coarse : IsCoarse place rect) : OnGrid 25 place rect.maxY :=
  (coarse.y.mono (by norm_num)).max (coarse.y.add coarse.height)

theorem area (coarse : IsCoarse place rect) :
    OnGrid 48 (place + place) (rect.width * rect.height) :=
  coarse.width.abs.mul coarse.height.abs

theorem overlapWidth (aCoarse : IsCoarse place a) (bCoarse : IsCoarse place b) :
    OnGrid 26 place (Rect.overlapWidth a b) :=
  ((aCoarse.maxX.min bCoarse.maxX).sub (aCoarse.minX.max bCoarse.minX)).max
    (.zero 26 place)

theorem overlapHeight (aCoarse : IsCoarse place a)
    (bCoarse : IsCoarse place b) :
    OnGrid 26 place (Rect.overlapHeight a b) :=
  ((aCoarse.maxY.min bCoarse.maxY).sub (aCoarse.minY.max bCoarse.minY)).max
    (.zero 26 place)

theorem intersectionArea (aCoarse : IsCoarse place a)
    (bCoarse : IsCoarse place b) :
    OnGrid 52 (place + place)
      (Rect.overlapWidth a b * Rect.overlapHeight a b) :=
  (aCoarse.overlapWidth bCoarse).mul (aCoarse.overlapHeight bCoarse)

theorem represents_length {bits : ℕ} {q : ℚ} (coarse : IsCoarse place rect)
    (onGrid : OnGrid bits place q) (few : bits ≤ 53) :
    FloatFormat.binary64.Represents q := by
  have range := abs_le.mp coarse.range
  apply FloatFormat.Represents.of_onGrid onGrid few
  · change -1074 ≤ place
    omega
  · change place + bits < 1024
    omega

theorem represents_area {bits : ℕ} {q : ℚ} (coarse : IsCoarse place rect)
    (onGrid : OnGrid bits (place + place) q) (few : bits ≤ 53) :
    FloatFormat.binary64.Represents q := by
  have range := abs_le.mp coarse.range
  apply FloatFormat.Represents.of_onGrid onGrid few
  · change -1074 ≤ place + place
    omega
  · change place + place + bits < 1024
    omega

theorem ofRat_overlapLength {low high otherLow otherHigh : CGFloat}
    (coarse : IsCoarse place rect) (lowOn : OnGrid 25 place low)
    (highOn : OnGrid 25 place high) (otherLowOn : OnGrid 25 place otherLow)
    (otherHighOn : OnGrid 25 place otherHigh) :
    FloatingPoint.max
        (.min (.ofRat high : Double) (.ofRat otherHigh) -
          .max (.ofRat low) (.ofRat otherLow)) (.ofRat 0) =
      .ofRat (overlapLength low high otherLow otherHigh) := by
  have represents : ∀ {q}, OnGrid 25 place q →
      FloatFormat.binary64.Represents q :=
    fun onGrid => coarse.represents_length onGrid (by norm_num)
  have difference := (highOn.min otherHighOn).sub (lowOn.max otherLowOn)
  rw [FloatingPoint.min_ofRat (represents highOn) (represents otherHighOn),
    FloatingPoint.max_ofRat (represents lowOn) (represents otherLowOn),
    FloatingPoint.ofRat_sub_ofRat (represents (highOn.min otherHighOn))
      (represents (lowOn.max otherLowOn)),
    FloatingPoint.max_ofRat
      (coarse.represents_length difference (by norm_num))
      (represents (.zero 25 place))]
  rfl

theorem ofRat_area (coarse : IsCoarse place rect) :
    (.ofRat rect.width * .ofRat rect.height : Double) =
      .ofRat (rect.width * rect.height) :=
  FloatingPoint.ofRat_mul_ofRat
    (coarse.represents_length coarse.width.abs (by norm_num))
    (coarse.represents_length coarse.height.abs (by norm_num))

/-- Only boxes without an area count as empty. -/
theorem lessEq_area_zero (coarse : IsCoarse place rect) :
    (.ofRat (rect.width * rect.height) : Double).lessEq (.ofRat 0) =
      decide (rect.width * rect.height = 0) := by
  have nonneg : 0 ≤ rect.width * rect.height :=
    mul_nonneg (abs_nonneg _) (abs_nonneg _)
  rw [FloatingPoint.lessEq_ofRat
    (coarse.represents_area coarse.area (by norm_num))
    (coarse.represents_length (.zero 0 place) (by norm_num))]
  exact decide_eq_decide.mpr nonneg.ge_iff_eq'

theorem ofRat_intersectionArea (aCoarse : IsCoarse place a)
    (bCoarse : IsCoarse place b) :
    (.ofRat (Rect.overlapHeight a b) * .ofRat (Rect.overlapWidth a b) :
        Double) =
      .ofRat (Rect.overlapWidth a b * Rect.overlapHeight a b) := by
  rw [mul_comm (Rect.overlapWidth a b)]
  exact FloatingPoint.ofRat_mul_ofRat
    (aCoarse.represents_length (aCoarse.overlapHeight bCoarse) (by norm_num))
    (aCoarse.represents_length (aCoarse.overlapWidth bCoarse) (by norm_num))

theorem ofRat_quotient (aCoarse : IsCoarse place a)
    (bCoarse : IsCoarse place b) (nonempty : b.width * b.height ≠ 0) :
    (.ofRat (Rect.overlapWidth a b * Rect.overlapHeight a b) /
        (.ofRat (a.width * a.height) + .ofRat (b.width * b.height) -
          .ofRat (Rect.overlapWidth a b * Rect.overlapHeight a b)) :
        Double) =
      .ofRat (Rect.overlapWidth a b * Rect.overlapHeight a b /
        (a.width * a.height + b.width * b.height -
          Rect.overlapWidth a b * Rect.overlapHeight a b)) := by
  have intersectionArea := aCoarse.intersectionArea bCoarse
  have sum : OnGrid 52 (place + place)
      (a.width * a.height + b.width * b.height) :=
    (aCoarse.area.add bCoarse.area).mono (by norm_num)
  have union : a.width * a.height + b.width * b.height -
      Rect.overlapWidth a b * Rect.overlapHeight a b ≠ 0 := by
    have inside := Rect.overlapWidth_mul_overlapHeight_le a b
    have positive : 0 < b.width * b.height :=
      lt_of_le_of_ne (mul_nonneg (abs_nonneg _) (abs_nonneg _)) nonempty.symm
    linarith
  rw [FloatingPoint.ofRat_add_ofRat
      (aCoarse.represents_area aCoarse.area (by norm_num))
      (bCoarse.represents_area bCoarse.area (by norm_num)),
    FloatingPoint.ofRat_sub_ofRat
      (aCoarse.represents_area sum (by norm_num))
      (aCoarse.represents_area intersectionArea (by norm_num)),
    FloatingPoint.ofRat_div_ofRat
      (aCoarse.represents_area intersectionArea (by norm_num))
      (aCoarse.represents_area (sum.sub intersectionArea) (by norm_num)) union]

end CGRect.IsCoarse

/-- For coarse boxes only the quotient is rounded. -/
theorem IOU_eq {place : ℤ} {a b : CGRect} (aCoarse : CGRect.IsCoarse place a)
    (bCoarse : CGRect.IsCoarse place b) :
    IOU a b = Float.ofCGFloat (exactIOU a b) := by
  have width := aCoarse.ofRat_overlapLength aCoarse.minX aCoarse.maxX
    bCoarse.minX bCoarse.maxX
  have height := aCoarse.ofRat_overlapLength aCoarse.minY aCoarse.maxY
    bCoarse.minY bCoarse.maxY
  have zero : (.ofRat 0 : Float) = Float.ofCGFloat 0 := by
    rw [Float.ofCGFloat, FloatingPoint.ofRat_of_represents
      (aCoarse.represents_length (.zero 0 place) (by norm_num))]
    rfl
  simp only [IOU, aCoarse.ofRat_area, bCoarse.ofRat_area,
    aCoarse.lessEq_area_zero, bCoarse.lessEq_area_zero, width, height,
    decide_eq_true_eq]
  by_cases emptyA : a.width * a.height = 0
  · rw [if_pos emptyA, exactIOU, if_pos (.inl emptyA), zero]
  by_cases emptyB : b.width * b.height = 0
  · rw [if_neg emptyA, if_pos emptyB, exactIOU, if_pos (.inr emptyB), zero]
  rw [if_neg emptyA, if_neg emptyB, exactIOU,
    if_neg (not_or.mpr ⟨emptyA, emptyB⟩)]
  change FloatingPoint.convert
    (.ofRat (Rect.overlapHeight a b) * .ofRat (Rect.overlapWidth a b) /
      (.ofRat (a.width * a.height) + .ofRat (b.width * b.height) -
        .ofRat (Rect.overlapHeight a b) *
          .ofRat (Rect.overlapWidth a b)) : Double) = _
  rw [aCoarse.ofRat_intersectionArea bCoarse,
    aCoarse.ofRat_quotient bCoarse emptyB]
  rfl

/-- The boxes are given in multiples of one power of two. -/
def Coarse {n : ℕ} (predictions : Vector NMSPrediction n) (place : ℤ)
    (boxes : List (Fin n)) : Prop :=
  ∀ box ∈ boxes, CGRect.IsCoarse place (predictions.get box).rect

end HigeMaster
