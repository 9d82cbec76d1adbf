import HigeMaster.CoreMLHelpers.MultiClassSuppression
import HigeMaster.CoreMLHelpers.SuppressionClusters

/-!
# What suppression depends on

Only the scores, the classes and the overlaps count.  So the boxes may be given
in any units and with any direction of the axes, as Vision and UIKit give them
differently, as long as both coordinates are coarse enough for the areas not to
be rounded.
-/

namespace HigeMaster

open Geometry

variable {n : ℕ}

/-- Two arrays of predictions that suppression cannot tell apart. -/
structure JudgedAlike (predictions others : Vector NMSPrediction n) :
    Prop where
  classIndex : ∀ box : Fin n,
    (others.get box).classIndex = (predictions.get box).classIndex
  score : ∀ box : Fin n, (others.get box).score = (predictions.get box).score
  overlap : ∀ first second : Fin n,
    IOU (others.get first).rect (others.get second).rect =
      IOU (predictions.get first).rect (predictions.get second).rect

namespace JudgedAlike

variable {predictions others : Vector NMSPrediction n}

theorem sortedIndices_eq (alike : JudgedAlike predictions others)
    (sort : Sorting.Method) (indices : List (Fin n)) :
    sortedIndices sort others indices =
      sortedIndices sort predictions indices := by
  simp only [sortedIndices, alike.score]

theorem overlaps_eq (alike : JudgedAlike predictions others)
    (iouThreshold : CGFloat) :
    overlaps others iouThreshold = overlaps predictions iouThreshold := by
  funext first second
  simp only [overlaps, alike.overlap]

theorem nonMaxSuppressionOf_eq (alike : JudgedAlike predictions others)
    (sort : Sorting.Method) (indices : List (Fin n)) (iouThreshold : CGFloat)
    (maxBoxes : ℤ) :
    nonMaxSuppressionOf sort others indices iouThreshold maxBoxes =
      nonMaxSuppressionOf sort predictions indices iouThreshold
        maxBoxes := by
  rw [HigeMaster.nonMaxSuppressionOf_eq, HigeMaster.nonMaxSuppressionOf_eq,
    alike.sortedIndices_eq, alike.overlaps_eq]

theorem filteredBoxes_eq (alike : JudgedAlike predictions others)
    (scoreThreshold : CGFloat) (c : ℤ) :
    filteredBoxes others scoreThreshold c =
      filteredBoxes predictions scoreThreshold c := by
  simp only [filteredBoxes, alike.classIndex, alike.score]

theorem nonMaxSuppressionMultiClass_eq
    (alike : JudgedAlike predictions others) (sort : Sorting.Method)
    (numClasses : ℤ) (scoreThreshold iouThreshold : CGFloat)
    (maxPerClass maxTotal : ℤ) :
    nonMaxSuppressionMultiClass sort others numClasses scoreThreshold
        iouThreshold maxPerClass maxTotal =
      nonMaxSuppressionMultiClass sort predictions numClasses scoreThreshold
        iouThreshold maxPerClass maxTotal := by
  simp only [nonMaxSuppressionMultiClass, selectedBoxes,
    alike.sortedIndices_eq, alike.filteredBoxes_eq,
    alike.nonMaxSuppressionOf_eq]

end JudgedAlike

/-- The predictions with their boxes in other coordinates. -/
def rescalePredictions (factor shift : CGPoint)
    (predictions : Vector NMSPrediction n) : Vector NMSPrediction n :=
  predictions.map fun prediction =>
    { prediction with rect := prediction.rect.rescale factor shift }

private theorem get_rescalePredictions (factor shift : CGPoint)
    (predictions : Vector NMSPrediction n) (box : Fin n) :
    (rescalePredictions factor shift predictions).get box =
      { predictions.get box with
        rect := (predictions.get box).rect.rescale factor shift } :=
  Vector.getElem_map _ box.isLt

theorem judgedAlike_rescalePredictions {factor : CGPoint}
    (horizontal : factor.x ≠ 0) (vertical : factor.y ≠ 0) (shift : CGPoint)
    {predictions : Vector NMSPrediction n} {place otherPlace : ℤ}
    (coarse : Coarse predictions place (List.finRange n))
    (rescaled : Coarse (rescalePredictions factor shift predictions)
      otherPlace (List.finRange n)) :
    JudgedAlike predictions (rescalePredictions factor shift predictions) where
  classIndex box := by rw [get_rescalePredictions]
  score box := by rw [get_rescalePredictions]
  overlap first second := by
    rw [IOU_eq (coarse first (List.mem_finRange first))
        (coarse second (List.mem_finRange second)),
      IOU_eq (rescaled first (List.mem_finRange first))
        (rescaled second (List.mem_finRange second)),
      get_rescalePredictions, get_rescalePredictions]
    congr 1
    exact exactIOU_rescale horizontal vertical shift _ _

/-- Suppression selects the same boxes in other coordinates. -/
theorem suppression_rescale {factor : CGPoint} (horizontal : factor.x ≠ 0)
    (vertical : factor.y ≠ 0) (shift : CGPoint) (sort : Sorting.Method)
    {predictions : Vector NMSPrediction n} {place otherPlace : ℤ}
    (coarse : Coarse predictions place (List.finRange n))
    (rescaled : Coarse (rescalePredictions factor shift predictions)
      otherPlace (List.finRange n)) (numClasses : ℤ)
    (scoreThreshold iouThreshold : CGFloat)
    (maxBoxes maxPerClass maxTotal : ℤ) :
    nonMaxSuppression sort (rescalePredictions factor shift predictions)
        iouThreshold maxBoxes =
      nonMaxSuppression sort predictions iouThreshold maxBoxes ∧
    nonMaxSuppressionMultiClass sort
        (rescalePredictions factor shift predictions) numClasses
        scoreThreshold iouThreshold maxPerClass maxTotal =
      nonMaxSuppressionMultiClass sort predictions numClasses scoreThreshold
        iouThreshold maxPerClass maxTotal := by
  have alike : JudgedAlike predictions
      (rescalePredictions factor shift predictions) :=
    judgedAlike_rescalePredictions horizontal vertical shift coarse rescaled
  exact ⟨alike.nonMaxSuppressionOf_eq sort _ iouThreshold maxBoxes,
    alike.nonMaxSuppressionMultiClass_eq sort numClasses scoreThreshold
      iouThreshold maxPerClass maxTotal⟩

/-- Normalised coordinates with the origin at the bottom, as Vision gives them,
and those of a view of 640 by 480 points. -/
theorem suppression_rescale_vision :
    let factor : CGPoint := ⟨640, -480⟩
    let shift : CGPoint := ⟨0, 480⟩
    nonMaxSuppression .insertion (rescalePredictions factor shift threeFaces)
        (1 / 2) 3 =
      nonMaxSuppression .insertion threeFaces (1 / 2) 3 ∧
    nonMaxSuppressionMultiClass .insertion
        (rescalePredictions factor shift threeFaces) 2 0 (1 / 2) 2 3 =
      nonMaxSuppressionMultiClass .insertion threeFaces 2 0 (1 / 2) 2 3 := by
  intro factor shift
  have horizontal : factor.x ≠ 0 := by decide +kernel
  have vertical : factor.y ≠ 0 := by decide +kernel
  have rescaled : Coarse (rescalePredictions factor shift threeFaces) 0
      (List.finRange 3) := by
    intro box _
    have square : ((rescalePredictions factor shift threeFaces).get box).rect =
        ⟨⟨0, 480⟩, ⟨1280, -960⟩⟩ := by
      revert box
      decide +kernel
    rw [square]
    exact ⟨by norm_num, .zero _ _, ⟨480, by norm_num, by norm_num⟩,
      ⟨1280, by norm_num, by norm_num⟩, ⟨-960, by norm_num, by norm_num⟩⟩
  exact suppression_rescale horizontal vertical shift .insertion
    (coarse_threeFaces _) rescaled 2 0 (1 / 2) 3 2 3

end HigeMaster
