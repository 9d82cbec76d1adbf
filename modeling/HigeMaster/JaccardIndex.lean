import Mathlib.Algebra.Order.Field.Basic
import Mathlib.MeasureTheory.Measure.Real
import Mathlib.Tactic.Linarith
import Mathlib.Tactic.Ring

/-!
# The Jaccard index

How much two sets have in common, compared with what they cover together.  What
is missing to one is a distance: it satisfies the triangle inequality.
-/

open MeasureTheory

variable {α : Type*} [MeasurableSpace α] {μ : Measure α} {first second : Set α}

noncomputable def jaccardIndex (μ : Measure α) (first second : Set α) : ℝ :=
  μ.real (first ∩ second) / μ.real (first ∪ second)

namespace jaccardIndex

theorem comm (first second : Set α) :
    jaccardIndex μ first second = jaccardIndex μ second first := by
  rw [jaccardIndex, jaccardIndex, Set.inter_comm, Set.union_comm]

theorem nonneg (first second : Set α) : 0 ≤ jaccardIndex μ first second :=
  div_nonneg measureReal_nonneg measureReal_nonneg

theorem le_one (firstFinite : μ first ≠ ⊤) (secondFinite : μ second ≠ ⊤) :
    jaccardIndex μ first second ≤ 1 := by
  apply div_le_one_of_le₀ _ measureReal_nonneg
  exact measureReal_mono
    (Set.inter_subset_left.trans Set.subset_union_left)
    (measure_union_ne_top firstFinite secondFinite)

/-- The union need not be measured. -/
theorem eq_div (measurable : MeasurableSet second) (firstFinite : μ first ≠ ⊤)
    (secondFinite : μ second ≠ ⊤) :
    jaccardIndex μ first second =
      μ.real (first ∩ second) /
        (μ.real first + μ.real second - μ.real (first ∩ second)) := by
  have both : μ.real (first ∪ second) + μ.real (first ∩ second) =
      μ.real first + μ.real second :=
    measureReal_union_add_inter measurable firstFinite secondFinite
  rw [jaccardIndex, ← both, add_sub_cancel_right]

theorem eq_zero_of_left (empty : μ.real first = 0) (finite : μ first ≠ ⊤) :
    jaccardIndex μ first second = 0 := by
  have nothing : μ.real (first ∩ second) = 0 := by
    apply le_antisymm _ measureReal_nonneg
    rw [← empty]
    exact measureReal_mono Set.inter_subset_left finite
  rw [jaccardIndex, nothing, zero_div]

/-! ## The triangle inequality -/

private theorem div_add_mono {base short long : ℝ} (nonneg : 0 ≤ base)
    (longer : short ≤ long) (positive : 0 < base + short) :
    short / (base + short) ≤ long / (base + long) := by
  have less : short * base ≤ long * base :=
    mul_le_mul_of_nonneg_right longer nonneg
  rw [div_le_div_iff₀ positive (by linarith)]
  linarith

/-- What two sets do not have in common, as a fraction of what they cover. -/
private theorem one_sub_ratio {first second common distance : ℝ}
    (apart : distance = first + second - 2 * common)
    (positive : 0 < first + second - common) :
    1 - common / (first + second - common) =
      distance / (first + second + distance) * 2 := by
  have twice : first + second + distance =
      (first + second - common) * 2 := by
    rw [apart]
    ring
  rw [twice, div_mul_eq_mul_div, mul_div_mul_right _ _ two_ne_zero,
    eq_div_iff positive.ne', sub_mul, div_mul_cancel₀ _ positive.ne', apart]
  ring

/-- Sets that both have much in common with a third one have much in
common. -/
private theorem ratio_triangle {first middle last left right both : ℝ}
    (leftFirst : left ≤ first) (leftMiddle : left ≤ middle)
    (rightMiddle : right ≤ middle) (rightLast : right ≤ last)
    (bothLast : both ≤ last) (leftNonneg : 0 ≤ left)
    (rightNonneg : 0 ≤ right) (nonneg : 0 ≤ both)
    (shared : left + right ≤ middle + both) :
    left / (first + middle - left) + right / (middle + last - right) ≤
      1 + both / (first + last - both) := by
  by_cases nothing : left = 0
  · have most : right / (middle + last - right) ≤ 1 := by
      apply div_le_one_of_le₀ <;> linarith
    have some : 0 ≤ both / (first + last - both) := by
      apply div_nonneg nonneg
      linarith
    rw [nothing, zero_div]
    linarith
  · have positive : 0 < left := lt_of_le_of_ne leftNonneg (Ne.symm nothing)
    obtain ⟨near, nearEq⟩ : ∃ near, near = first + middle - 2 * left :=
      ⟨_, rfl⟩
    obtain ⟨far, farEq⟩ : ∃ far, far = middle + last - 2 * right := ⟨_, rfl⟩
    obtain ⟨direct, directEq⟩ : ∃ direct,
        direct = first + last - 2 * both := ⟨_, rfl⟩
    have detour : direct / (first + last + direct) ≤
        (near + far) / (first + last + (near + far)) := by
      apply div_add_mono <;> linarith
    have nearLarger : near / (first + last + (near + far)) ≤
        near / (first + middle + near) := by
      apply div_le_div_of_nonneg_left <;> linarith
    have farLarger : far / (first + last + (near + far)) ≤
        far / (middle + last + far) := by
      apply div_le_div_of_nonneg_left <;> linarith
    have nearRatio := one_sub_ratio nearEq (by linarith)
    have farRatio := one_sub_ratio farEq (by linarith)
    have directRatio := one_sub_ratio directEq (by linarith)
    rw [add_div] at detour
    linarith

/-- The first set and the last one have the more in common the more each has
in common with the middle one: what they lack is at most what the others
lack together. -/
theorem add_le_one_add {middle last : Set α}
    (middleMeasurable : MeasurableSet middle)
    (lastMeasurable : MeasurableSet last) (firstFinite : μ first ≠ ⊤)
    (middleFinite : μ middle ≠ ⊤) (lastFinite : μ last ≠ ⊤) :
    jaccardIndex μ first middle + jaccardIndex μ middle last ≤
      1 + jaccardIndex μ first last := by
  have within : μ.real (first ∩ middle ∪ middle ∩ last) ≤ μ.real middle :=
    measureReal_mono
      (Set.union_subset Set.inter_subset_right Set.inter_subset_left)
      middleFinite
  have finite : μ (first ∩ last) ≠ ⊤ :=
    measure_ne_top_of_subset Set.inter_subset_left firstFinite
  have twice : μ.real (first ∩ middle ∩ (middle ∩ last)) ≤
      μ.real (first ∩ last) :=
    measureReal_mono
      (Set.inter_subset_inter Set.inter_subset_left Set.inter_subset_right)
      finite
  have shared : μ.real (first ∩ middle) + μ.real (middle ∩ last) ≤
      μ.real middle + μ.real (first ∩ last) := by
    rw [← measureReal_union_add_inter
      (middleMeasurable.inter lastMeasurable)
      (measure_ne_top_of_subset Set.inter_subset_left firstFinite)
      (measure_ne_top_of_subset Set.inter_subset_left middleFinite)]
    exact add_le_add within twice
  rw [eq_div middleMeasurable firstFinite middleFinite,
    eq_div lastMeasurable middleFinite lastFinite,
    eq_div lastMeasurable firstFinite lastFinite]
  exact ratio_triangle
    (measureReal_mono Set.inter_subset_left firstFinite)
    (measureReal_mono Set.inter_subset_right middleFinite)
    (measureReal_mono Set.inter_subset_left middleFinite)
    (measureReal_mono Set.inter_subset_right lastFinite)
    (measureReal_mono Set.inter_subset_right lastFinite)
    measureReal_nonneg measureReal_nonneg measureReal_nonneg shared

end jaccardIndex
