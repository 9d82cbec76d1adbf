import HigeMaster.CoreMLHelpers.Numbers
import HigeMaster.GreedySelection
import HigeMaster.Sorting

/-!
# Non-maximum suppression

A detector predicts many boxes for one object.  Suppression goes through the
boxes from the highest score to the lowest and selects a box unless it
overlaps a selected one too much.  Scores, thresholds and coordinates are
finite; overlaps are rounded as in the program.  Nothing is assumed of how
`sorted(by:)` treats boxes with the same score.  Boxes are named by their places
in the array of predictions, so every name is valid.
-/

namespace HigeMaster

open Geometry

/-- Intersection over union. -/
def IOU (a b : CGRect) : Float :=
  let areaA : Double := .ofRat a.width * .ofRat a.height
  if areaA.lessEq (.ofRat 0) then
    .ofRat 0
  else
    let areaB : Double := .ofRat b.width * .ofRat b.height
    if areaB.lessEq (.ofRat 0) then
      .ofRat 0
    else
      let intersectionMinX : Double := .max (.ofRat a.minX) (.ofRat b.minX)
      let intersectionMinY : Double := .max (.ofRat a.minY) (.ofRat b.minY)
      let intersectionMaxX : Double := .min (.ofRat a.maxX) (.ofRat b.maxX)
      let intersectionMaxY : Double := .min (.ofRat a.maxY) (.ofRat b.maxY)
      let intersectionArea : Double :=
        .max (intersectionMaxY - intersectionMinY) (.ofRat 0) *
          .max (intersectionMaxX - intersectionMinX) (.ofRat 0)
      (intersectionArea / (areaA + areaB - intersectionArea)).convert

theorem IOU_comm (a b : CGRect) : IOU a b = IOU b a := by
  have maxComm : ∀ x y : CGFloat,
      FloatingPoint.max (.ofRat x : Double) (.ofRat y) =
        .max (.ofRat y) (.ofRat x) :=
    fun x y => FloatingPoint.max_comm (FloatingPoint.ofRat_ne_nan x)
      (FloatingPoint.ofRat_ne_nan y)
  have minComm : ∀ x y : CGFloat,
      FloatingPoint.min (.ofRat x : Double) (.ofRat y) =
        .min (.ofRat y) (.ofRat x) :=
    fun x y => FloatingPoint.min_comm (FloatingPoint.ofRat_ne_nan x)
      (FloatingPoint.ofRat_ne_nan y)
  simp only [IOU, maxComm b.minX, maxComm b.minY, minComm b.maxX,
    minComm b.maxY, FloatingPoint.add_comm (.ofRat b.width * .ofRat b.height)]
  by_cases emptyA :
      (.ofRat a.width * .ofRat a.height : Double).lessEq (.ofRat 0) = true
  · rw [if_pos emptyA, if_pos emptyA, ite_self]
  · by_cases emptyB :
        (.ofRat b.width * .ofRat b.height : Double).lessEq (.ofRat 0) = true
    · rw [if_neg emptyA, if_pos emptyB, if_pos emptyB]
    · rw [if_neg emptyA, if_neg emptyB, if_neg emptyB, if_neg emptyA]

structure NMSPrediction where
  classIndex : ℤ
  score : CGFloat
  rect : CGRect
  deriving DecidableEq

section Suppression

variable (sort : Sorting.Method) {n : ℕ}
  (predictions : Vector NMSPrediction n)

/-- The boxes by their scores, from high to low. -/
def sortedIndices (indices : List (Fin n)) : List (Fin n) :=
  sort.sorted (fun first second =>
    (predictions.get first).score > (predictions.get second).score) indices

/-- Whether the first box overlaps the second one too much. -/
def overlaps (iouThreshold : CGFloat) (first second : Fin n) : Bool :=
  (Float.ofCGFloat iouThreshold).less
    (IOU (predictions.get first).rect (predictions.get second).rect)

/-- The loop over the sorted boxes, with what has been selected so far. -/
def selectBoxes (iouThreshold : CGFloat) (maxBoxes : ℤ)
    (selected : List (Fin n)) : List (Fin n) → List (Fin n)
  | [] => selected
  | boxA :: rest =>
      if selected.length ≥ maxBoxes then
        selected
      else
        let shouldSelect :=
          selected.all fun boxB => !overlaps predictions iouThreshold boxA boxB
        if shouldSelect then
          selectBoxes iouThreshold maxBoxes (selected ++ [boxA]) rest
        else
          selectBoxes iouThreshold maxBoxes selected rest

/-- `nonMaxSuppression(predictions:indices:iouThreshold:maxBoxes:)`. -/
def nonMaxSuppressionOf (indices : List (Fin n)) (iouThreshold : CGFloat)
    (maxBoxes : ℤ) : List (Fin n) :=
  selectBoxes predictions iouThreshold maxBoxes []
    (sortedIndices sort predictions indices)

/-- `nonMaxSuppression(predictions:iouThreshold:maxBoxes:)`. -/
def nonMaxSuppression (iouThreshold : CGFloat) (maxBoxes : ℤ) :
    List (Fin n) :=
  nonMaxSuppressionOf sort predictions (List.finRange n) iouThreshold maxBoxes

/-- The boxes of a class with a high enough score. -/
def filteredBoxes (scoreThreshold : CGFloat) (c : ℤ) : List (Fin n) :=
  (List.finRange n).filter fun p =>
    (predictions.get p).classIndex = c ∧
      (predictions.get p).score > scoreThreshold

/-- The best boxes of each class, class by class. -/
def selectedBoxes (numClasses : ℕ) (scoreThreshold iouThreshold : CGFloat)
    (maxPerClass : ℤ) : List (Fin n) :=
  (List.range numClasses).foldl
    (fun selected (c : ℕ) => selected ++
      nonMaxSuppressionOf sort predictions
        (filteredBoxes predictions scoreThreshold c) iouThreshold maxPerClass)
    []

/-- A negative number of classes or of boxes in total stops the program. -/
def nonMaxSuppressionMultiClass (numClasses : ℤ)
    (scoreThreshold iouThreshold : CGFloat) (maxPerClass maxTotal : ℤ) :
    Option (List (Fin n)) :=
  if numClasses < 0 then
    none
  else
    let sortedBoxes :=
      sortedIndices sort predictions
        (selectedBoxes sort predictions numClasses.toNat scoreThreshold
          iouThreshold maxPerClass)
    if maxTotal < 0 then
      none
    else
      some (sortedBoxes.take maxTotal.toNat)

end Suppression

/-! ## Suppression is greedy selection -/

section Greedy

variable {sort : Sorting.Method} {n : ℕ}
  {predictions : Vector NMSPrediction n} {indices : List (Fin n)}
  {iouThreshold : CGFloat} {maxBoxes : ℤ}

private theorem all_not_overlaps (boxA : Fin n) (selected : List (Fin n)) :
    (selected.all fun boxB => !overlaps predictions iouThreshold boxA boxB) =
      !selected.any (overlaps predictions iouThreshold boxA) := by
  induction selected with
  | nil => rfl
  | cons boxB selected induction =>
      rw [List.all_cons, List.any_cons, induction, Bool.not_or]

/-- The loop keeps boxes that do not overlap, up to the limit. -/
theorem selectBoxes_eq (selected rest : List (Fin n)) :
    selectBoxes predictions iouThreshold maxBoxes selected rest =
      GreedySelection.keepUpTo (overlaps predictions iouThreshold) maxBoxes
        selected rest := by
  induction rest generalizing selected with
  | nil => rfl
  | cons boxA rest induction =>
      rw [selectBoxes, GreedySelection.keepUpTo, all_not_overlaps]
      by_cases full : maxBoxes ≤ selected.length
      · rw [if_pos full, if_pos full]
      · rw [if_neg full, if_neg full]
        cases selected.any (overlaps predictions iouThreshold boxA) with
        | true => exact induction selected
        | false => exact induction (selected ++ [boxA])

/-- Stopping at the limit only cuts off what would be selected without one. -/
theorem nonMaxSuppressionOf_eq :
    nonMaxSuppressionOf sort predictions indices iouThreshold maxBoxes =
      (GreedySelection.keep (overlaps predictions iouThreshold) []
        (sortedIndices sort predictions indices)).take maxBoxes.toNat := by
  rw [nonMaxSuppressionOf, selectBoxes_eq]
  exact GreedySelection.keepUpTo_eq_take _ (Nat.zero_le _)

theorem perm_sortedIndices (indices : List (Fin n)) :
    (sortedIndices sort predictions indices).Perm indices :=
  sort.perm _ indices

theorem ordered_sortedIndices (indices : List (Fin n)) :
    (sortedIndices sort predictions indices).Pairwise fun first second =>
      (predictions.get second).score ≤ (predictions.get first).score :=
  sort.sorted_largerKey (fun index : Fin n => (predictions.get index).score)
    indices

end Greedy

end HigeMaster
