import HigeMaster.CoreMLHelpers.IntersectionOverUnion
import HigeMaster.CoreMLHelpers.Suppression

/-!
# Clusters of suppressed boxes

If there is room for more, suppression puts every box into the cluster of a
selected one.  The boxes of a cluster do not only overlap the selected box, but
also each other, as far as the coordinates are coarse enough for rounding not
to blur the overlaps.
-/

namespace HigeMaster

variable {n : ℕ} {predictions : Vector NMSPrediction n}
  {iouThreshold : CGFloat} {boxes selected : List (Fin n)}

/-- The box belongs to the cluster of the other one, which scores at least as
much. -/
def InCluster (predictions : Vector NMSPrediction n) (iouThreshold : CGFloat)
    (center box : Fin n) : Prop :=
  (predictions.get box).score ≤ (predictions.get center).score ∧
    (box = center ∨ overlaps predictions iouThreshold box center = true)

theorem IsSelection.exists_inCluster {limit : ℕ}
    (selection : IsSelection predictions iouThreshold limit boxes selected)
    (room : selected.length < limit) {box : Fin n} (member : box ∈ boxes) :
    ∃ center ∈ selected, InCluster predictions iouThreshold center box := by
  rcases selection.accounted box member with there | suppressed | crowded
  · exact ⟨box, there, le_refl _, .inl rfl⟩
  · obtain ⟨center, there, score, overlap⟩ := suppressed
    exact ⟨center, there, score, .inr overlap⟩
  · exact absurd crowded.1 room.ne

section Coarse

variable {place : ℤ} {center first second : Fin n}

theorem Coarse.lt_exactIOU (coarse : Coarse predictions place boxes)
    (firstIn : first ∈ boxes) (secondIn : second ∈ boxes)
    (overlapping : overlaps predictions iouThreshold first second = true) :
    iouThreshold <
      exactIOU (predictions.get first).rect (predictions.get second).rect := by
  rw [overlaps, IOU_eq (coarse first firstIn) (coarse second secondIn)]
    at overlapping
  exact Float.lt_of_less_ofCGFloat overlapping

theorem InCluster.overlap (coarse : Coarse predictions place boxes)
    (centerIn : center ∈ boxes) (firstIn : first ∈ boxes)
    (secondIn : second ∈ boxes)
    (firstInside : InCluster predictions iouThreshold center first)
    (secondInside : InCluster predictions iouThreshold center second)
    (different : first ≠ second) :
    (Float.ofCGFloat (2 * iouThreshold - 1)).lessEq
      (IOU (predictions.get first).rect (predictions.get second).rect) =
        true := by
  have little : ∀ box ∈ boxes,
      overlaps predictions iouThreshold box center = true →
        2 * iouThreshold - 1 ≤ exactIOU (predictions.get box).rect
          (predictions.get center).rect := by
    intro box member overlapping
    have atLeast := coarse.lt_exactIOU member centerIn overlapping
    have atMost := exactIOU_le_one (predictions.get box).rect
      (predictions.get center).rect
    linarith
  rw [IOU_eq (coarse first firstIn) (coarse second secondIn)]
  apply Float.lessEq_ofCGFloat
  rcases firstInside.2 with rfl | firstOverlap
  · rcases secondInside.2 with rfl | secondOverlap
    · exact absurd rfl different
    · rw [exactIOU_comm]
      exact little second secondIn secondOverlap
  · rcases secondInside.2 with rfl | secondOverlap
    · exact little first firstIn firstOverlap
    · have firstAtLeast := coarse.lt_exactIOU firstIn centerIn firstOverlap
      have secondAtLeast := coarse.lt_exactIOU secondIn centerIn secondOverlap
      have triangle := exactIOU_add_le (predictions.get first).rect
        (predictions.get center).rect (predictions.get second).rect
      rw [exactIOU_comm (predictions.get center).rect] at triangle
      linarith

end Coarse

/-- With room for more boxes, suppression sorts all boxes into clusters: each
around a selected box that scores at least as much, and with boxes that overlap
each other. -/
theorem suppression_clusters (sort : Sorting.Method)
    (predictions : Vector NMSPrediction n) (indices : List (Fin n))
    (iouThreshold : CGFloat) {maxBoxes : ℤ} {place : ℤ}
    (coarse : Coarse predictions place indices)
    (room : (nonMaxSuppressionOf sort predictions indices iouThreshold
      maxBoxes).length < maxBoxes) :
    ∃ center : Fin n → Fin n,
      (∀ box ∈ indices,
        center box ∈ nonMaxSuppressionOf sort predictions indices iouThreshold
          maxBoxes ∧
        InCluster predictions iouThreshold (center box) box) ∧
      ∀ first ∈ indices, ∀ second ∈ indices,
        center first = center second → first ≠ second →
          (Float.ofCGFloat (2 * iouThreshold - 1)).lessEq
            (IOU (predictions.get first).rect
              (predictions.get second).rect) = true := by
  have selection := isSelection_nonMaxSuppressionOf sort predictions indices
    iouThreshold maxBoxes
  have limit : (nonMaxSuppressionOf sort predictions indices iouThreshold
      maxBoxes).length < maxBoxes.toNat := by
    omega
  have clustered : ∀ box, ∃ center, box ∈ indices →
      center ∈ nonMaxSuppressionOf sort predictions indices iouThreshold
        maxBoxes ∧
      InCluster predictions iouThreshold center box := by
    intro box
    by_cases member : box ∈ indices
    · obtain ⟨center, there, inside⟩ :=
        selection.exists_inCluster limit member
      exact ⟨center, fun _ => ⟨there, inside⟩⟩
    · exact ⟨box, fun present => absurd present member⟩
  choose center inside using clustered
  refine ⟨center, inside, ?_⟩
  intro first firstIn second secondIn same different
  obtain ⟨selected, firstInside⟩ := inside first firstIn
  rw [same] at selected firstInside
  exact firstInside.overlap coarse (selection.among.subset selected) firstIn
    secondIn (inside second secondIn).2 different

theorem coarse_threeFaces (boxes : List (Fin 3)) :
    Coarse threeFaces 0 boxes := by
  have square : ∀ box, (threeFaces.get box).rect = ⟨⟨0, 0⟩, ⟨2, 2⟩⟩ := by
    decide +kernel
  have side : OnGrid 24 0 2 := ⟨2, by norm_num, by norm_num⟩
  intro box _
  rw [square]
  exact ⟨by norm_num, .zero _ _, .zero _ _, side, side⟩

theorem suppression_clusters_threeFaces :
    ∃ center : Fin 3 → Fin 3,
      (∀ box ∈ [0, 1, 2],
        center box ∈ nonMaxSuppressionOf .insertion threeFaces [0, 1, 2]
          (1 / 2) 3 ∧
        InCluster threeFaces (1 / 2) (center box) box) ∧
      ∀ first ∈ [0, 1, 2], ∀ second ∈ [0, 1, 2],
        center first = center second → first ≠ second →
          (Float.ofCGFloat (2 * (1 / 2) - 1)).lessEq
            (IOU (threeFaces.get first).rect
              (threeFaces.get second).rect) = true := by
  have room : (nonMaxSuppressionOf .insertion threeFaces [0, 1, 2] (1 / 2)
      3).length < (3 : ℤ) := by
    decide +kernel
  exact suppression_clusters .insertion threeFaces [0, 1, 2] (1 / 2)
    (coarse_threeFaces _) room

end HigeMaster
