import HigeMaster.Geometry.Rect
import Mathlib.MeasureTheory.Measure.Lebesgue.Basic

/-!
# Overlapping rectangles

What two rectangles have in common is a rectangle again, or nothing.  Its width
and height scale with the coordinates, also when an axis is turned around, and
their product is the area of the common points.
-/

namespace Geometry

section Field

variable {K : Type*} [Field K] [LinearOrder K] [IsStrictOrderedRing K]

/-- The length that two intervals have in common. -/
def overlapLength (low high otherLow otherHigh : K) : K :=
  max (min high otherHigh - max low otherLow) 0

theorem overlapLength_le {low high : K} (order : low ≤ high)
    (otherLow otherHigh : K) :
    overlapLength low high otherLow otherHigh ≤ high - low := by
  apply max_le
  · exact sub_le_sub (min_le_left _ _) (le_max_left _ _)
  · exact sub_nonneg.mpr order

theorem overlapLength_scale {factor : K} (nonneg : 0 ≤ factor)
    (low high otherLow otherHigh : K) :
    overlapLength (factor * low) (factor * high) (factor * otherLow)
        (factor * otherHigh) =
      factor * overlapLength low high otherLow otherHigh := by
  rw [overlapLength, overlapLength, mul_max_of_nonneg _ _ nonneg, mul_sub,
    mul_min_of_nonneg _ _ nonneg, mul_max_of_nonneg _ _ nonneg, mul_zero]

theorem overlapLength_neg (low high otherLow otherHigh : K) :
    overlapLength (-high) (-low) (-otherHigh) (-otherLow) =
      overlapLength low high otherLow otherHigh := by
  rw [overlapLength, overlapLength, min_neg_neg, max_neg_neg]
  congr 1
  ring

theorem overlapLength_shift (shift low high otherLow otherHigh : K) :
    overlapLength (low + shift) (high + shift) (otherLow + shift)
        (otherHigh + shift) =
      overlapLength low high otherLow otherHigh := by
  rw [overlapLength, overlapLength, min_add_add_right, max_add_add_right,
    add_sub_add_right_eq_sub]

/-- Intervals given by a start and a signed length, in other coordinates. -/
theorem overlapLength_rescale (factor shift start length otherStart
    otherLength : K) :
    let moved := fun position => factor * position + shift
    overlapLength
        (min (moved start) (moved start + factor * length))
        (max (moved start) (moved start + factor * length))
        (min (moved otherStart) (moved otherStart + factor * otherLength))
        (max (moved otherStart) (moved otherStart + factor * otherLength)) =
      |factor| * overlapLength
        (min start (start + length)) (max start (start + length))
        (min otherStart (otherStart + otherLength))
        (max otherStart (otherStart + otherLength)) := by
  intro moved
  have ends : ∀ position distance : K,
      moved position + factor * distance =
        factor * (position + distance) + shift := by
    intro position distance
    simp only [moved]
    ring
  simp only [ends]
  simp only [moved, min_add_add_right, max_add_add_right, overlapLength_shift]
  by_cases nonneg : 0 ≤ factor
  · rw [abs_of_nonneg nonneg, ← overlapLength_scale nonneg]
    simp only [mul_min_of_nonneg _ _ nonneg, mul_max_of_nonneg _ _ nonneg]
  · have turned : 0 ≤ -factor := neg_nonneg.mpr (le_of_not_ge nonneg)
    rw [abs_of_neg (not_le.mp nonneg), ← overlapLength_scale turned,
      ← overlapLength_neg]
    simp only [mul_min_of_nonneg _ _ turned, mul_max_of_nonneg _ _ turned,
      ← min_neg_neg, ← max_neg_neg, neg_mul]

end Field

namespace Rect

section Field

variable {K : Type*} [Field K] [LinearOrder K]

def overlapWidth (first second : Rect K) : K :=
  overlapLength first.minX first.maxX second.minX second.maxX

def overlapHeight (first second : Rect K) : K :=
  overlapLength first.minY first.maxY second.minY second.maxY

/-- The rectangle in other coordinates, where a negative factor turns an axis
around. -/
def rescale (factor shift : Point K) (rect : Rect K) : Rect K :=
  { origin :=
      { x := factor.x * rect.origin.x + shift.x
        y := factor.y * rect.origin.y + shift.y }
    size :=
      { width := factor.x * rect.size.width
        height := factor.y * rect.size.height } }

variable [IsStrictOrderedRing K]

theorem overlapWidth_rescale (factor shift : Point K)
    (first second : Rect K) :
    overlapWidth (first.rescale factor shift)
        (second.rescale factor shift) =
      |factor.x| * overlapWidth first second :=
  overlapLength_rescale factor.x shift.x _ _ _ _

theorem overlapHeight_rescale (factor shift : Point K)
    (first second : Rect K) :
    overlapHeight (first.rescale factor shift)
        (second.rescale factor shift) =
      |factor.y| * overlapHeight first second :=
  overlapLength_rescale factor.y shift.y _ _ _ _

theorem width_rescale (factor shift : Point K) (rect : Rect K) :
    (rect.rescale factor shift).width = |factor.x| * rect.width :=
  abs_mul _ _

theorem height_rescale (factor shift : Point K) (rect : Rect K) :
    (rect.rescale factor shift).height = |factor.y| * rect.height :=
  abs_mul _ _

theorem maxX_sub_minX (rect : Rect K) : rect.maxX - rect.minX = rect.width := by
  rw [maxX, minX, max_sub_min_eq_abs', sub_add_cancel_left, abs_neg, width]

theorem maxY_sub_minY (rect : Rect K) :
    rect.maxY - rect.minY = rect.height := by
  rw [maxY, minY, max_sub_min_eq_abs', sub_add_cancel_left, abs_neg, height]

theorem overlapWidth_mul_overlapHeight_le (first second : Rect K) :
    overlapWidth first second * overlapHeight first second ≤
      first.width * first.height := by
  apply mul_le_mul
  · rw [← maxX_sub_minX]
    exact overlapLength_le min_le_max _ _
  · rw [← maxY_sub_minY]
    exact overlapLength_le min_le_max _ _
  · exact le_max_right _ _
  · exact abs_nonneg _

end Field

/-! ## Areas -/

section Area

open MeasureTheory

/-- The points of a rectangle, without its right and bottom edges. -/
def region (rect : Rect ℝ) : Set (ℝ × ℝ) :=
  Set.Ico rect.minX rect.maxX ×ˢ Set.Ico rect.minY rect.maxY

theorem measurableSet_region (rect : Rect ℝ) : MeasurableSet rect.region :=
  measurableSet_Ico.prod measurableSet_Ico

theorem region_inter_region (first second : Rect ℝ) :
    first.region ∩ second.region =
      Set.Ico (max first.minX second.minX) (min first.maxX second.maxX) ×ˢ
        Set.Ico (max first.minY second.minY)
          (min first.maxY second.maxY) := by
  rw [region, region, Set.prod_inter_prod, Set.Ico_inter_Ico,
    Set.Ico_inter_Ico]

/-- The area of what two rectangles have in common. -/
theorem volume_region_inter_region (first second : Rect ℝ) :
    volume.real (first.region ∩ second.region) =
      overlapWidth first second * overlapHeight first second := by
  rw [region_inter_region, Measure.volume_eq_prod, measureReal_prod_prod,
    Real.volume_real_Ico, Real.volume_real_Ico]
  rfl

theorem volume_region (rect : Rect ℝ) :
    volume.real rect.region = rect.width * rect.height := by
  rw [region, Measure.volume_eq_prod, measureReal_prod_prod,
    Real.volume_real_Ico, Real.volume_real_Ico, maxX_sub_minX, maxY_sub_minY,
    max_eq_left (abs_nonneg _), max_eq_left (abs_nonneg _)]

theorem volume_region_ne_top (rect : Rect ℝ) : volume rect.region ≠ ⊤ := by
  rw [region, Measure.volume_eq_prod, Measure.prod_prod, Real.volume_Ico,
    Real.volume_Ico]
  exact ENNReal.mul_ne_top ENNReal.ofReal_ne_top ENNReal.ofReal_ne_top

end Area

end Rect

end Geometry
