import HigeMaster.CoreMLHelpers.NonMaxSuppression

/-!
# What suppression selects

The selected boxes come from the given ones, by falling score, and no two of
them overlap too much; every other box overlaps a selected one that scores at
least as much, or the limit was reached with boxes that do.  Where different
boxes have different scores, these conditions leave only one selection.
-/

namespace HigeMaster

variable {sort : Sorting.Method} {n : ℕ} {predictions : Vector NMSPrediction n}
  {indices : List (Fin n)} {iouThreshold : CGFloat} {maxBoxes : ℤ}

/-- The scores fall. -/
def ByScore (predictions : Vector NMSPrediction n) (boxes : List (Fin n)) :
    Prop :=
  boxes.Pairwise fun first second =>
    (predictions.get second).score ≤ (predictions.get first).score

/-- No box overlaps an earlier one too much. -/
def Apart (predictions : Vector NMSPrediction n) (iouThreshold : CGFloat)
    (boxes : List (Fin n)) : Prop :=
  boxes.Pairwise fun first second =>
    overlaps predictions iouThreshold second first = false

/-- The box overlaps one of the others too much that scores at least as
much. -/
def SuppressedBy (predictions : Vector NMSPrediction n)
    (iouThreshold : CGFloat) (others : List (Fin n)) (box : Fin n) : Prop :=
  ∃ other ∈ others,
    (predictions.get box).score ≤ (predictions.get other).score ∧
      overlaps predictions iouThreshold box other = true

/-- All the boxes score at least as much as this one, and they are as many as
are wanted. -/
def CrowdedOutBy (predictions : Vector NMSPrediction n) (limit : ℕ)
    (others : List (Fin n)) (box : Fin n) : Prop :=
  others.length = limit ∧
    ∀ other ∈ others,
      (predictions.get box).score ≤ (predictions.get other).score

/-- What a selection of boxes from the given ones should be. -/
structure IsSelection (predictions : Vector NMSPrediction n)
    (iouThreshold : CGFloat) (limit : ℕ) (boxes selected : List (Fin n)) :
    Prop where
  among : selected.Subperm boxes
  limited : selected.length ≤ limit
  byScore : ByScore predictions selected
  apart : Apart predictions iouThreshold selected
  accounted : ∀ box ∈ boxes, box ∈ selected ∨
    SuppressedBy predictions iouThreshold selected box ∨
      CrowdedOutBy predictions limit selected box

theorem overlaps_comm (first second : Fin n) :
    overlaps predictions iouThreshold first second =
      overlaps predictions iouThreshold second first := by
  rw [overlaps, overlaps, IOU_comm]

/-- Suppression selects from the boxes whatever they are, and however boxes of
the same score are sorted. -/
theorem isSelection_nonMaxSuppressionOf (sort : Sorting.Method)
    (predictions : Vector NMSPrediction n) (indices : List (Fin n))
    (iouThreshold : CGFloat) (maxBoxes : ℤ) :
    IsSelection predictions iouThreshold maxBoxes.toNat indices
      (nonMaxSuppressionOf sort predictions indices iouThreshold
        maxBoxes) := by
  rw [nonMaxSuppressionOf_eq]
  have sorted : (sortedIndices sort predictions indices).Perm indices :=
    perm_sortedIndices indices
  have ordered : ByScore predictions
      (sortedIndices sort predictions indices) :=
    ordered_sortedIndices indices
  generalize sortedIndices sort predictions indices = candidates
    at sorted ordered
  have kept : List.Sublist
      ((GreedySelection.keep (overlaps predictions iouThreshold) []
        candidates).take maxBoxes.toNat) candidates :=
    (List.take_sublist _ _).trans
      (GreedySelection.keep_sublist [] candidates)
  have compatible : (GreedySelection.keep (overlaps predictions iouThreshold)
      [] candidates).Pairwise fun earlier later =>
        overlaps predictions iouThreshold later earlier = false :=
    GreedySelection.keep_compatible List.Pairwise.nil
  constructor
  · exact kept.subperm.trans sorted.subperm
  · exact List.length_take_le _ _
  · exact ordered.sublist kept
  · exact compatible.sublist (List.take_sublist _ _)
  · intro box member
    obtain ⟨before, after, rfl⟩ :=
      List.append_of_mem (sorted.mem_iff.mpr member)
    have above : ∀ other ∈ before,
        (predictions.get box).score ≤ (predictions.get other).score := by
      intro other earlier
      exact (List.pairwise_append.mp ordered).2.2 other earlier box
        List.mem_cons_self
    rcases GreedySelection.take_keep_cases
        (overlaps predictions iouThreshold) before after box
        maxBoxes.toNat with there | suppressed | crowded
    · exact .inl there
    · obtain ⟨other, there, earlier, conflicting⟩ := suppressed
      exact .inr (.inl ⟨other, there, above other earlier, conflicting⟩)
    · obtain ⟨full, earlier⟩ := crowded
      exact .inr (.inr ⟨full, fun other there =>
        above other (earlier other there)⟩)

/-- Two boxes of one class and a box of another class in one place. -/
def threeFaces : Vector NMSPrediction 3 :=
  #v[⟨0, 1 / 2, ⟨⟨0, 0⟩, ⟨2, 2⟩⟩⟩, ⟨1, 1 / 3, ⟨⟨0, 0⟩, ⟨2, 2⟩⟩⟩,
    ⟨0, 1, ⟨⟨0, 0⟩, ⟨2, 2⟩⟩⟩]

/-! ## The only selection -/

/-- Different boxes have different scores. -/
def DifferentScores (predictions : Vector NMSPrediction n)
    (boxes : List (Fin n)) : Prop :=
  ∀ first ∈ boxes, ∀ second ∈ boxes,
    (predictions.get first).score = (predictions.get second).score →
      first = second

instance (predictions : Vector NMSPrediction n) (boxes : List (Fin n)) :
    Decidable (DifferentScores predictions boxes) :=
  inferInstanceAs (Decidable (∀ first ∈ boxes, ∀ second ∈ boxes,
    (predictions.get first).score = (predictions.get second).score →
      first = second))

/-- The first box scores more. -/
def Outscores (predictions : Vector NMSPrediction n) (first second : Fin n) :
    Prop :=
  (predictions.get second).score < (predictions.get first).score

instance (predictions : Vector NMSPrediction n) :
    Std.Asymm (Outscores predictions) where
  asymm _ _ less := not_lt_of_gt less

instance (predictions : Vector NMSPrediction n) :
    DecidableRel (Outscores predictions) :=
  fun first second =>
    inferInstanceAs (Decidable
      ((predictions.get second).score < (predictions.get first).score))

/-- The boxes that score more than this one. -/
def outscoring (predictions : Vector NMSPrediction n) (boxes : List (Fin n))
    (box : Fin n) : List (Fin n) :=
  boxes.filter fun other => Outscores predictions other box

section DifferentScores

variable {boxes selected : List (Fin n)} {box : Fin n}

theorem ByScore.strict (byScore : ByScore predictions boxes)
    (different : boxes.Nodup) (scores : DifferentScores predictions boxes) :
    boxes.Pairwise (Outscores predictions) := by
  have both := byScore.and different
  apply both.imp_of_mem
  intro first second firstIn secondIn order
  apply lt_of_le_of_ne order.1
  intro same
  exact order.2 (scores first firstIn second secondIn same.symm)

theorem DifferentScores.of_subset
    (scores : DifferentScores predictions boxes) (subset : selected ⊆ boxes) :
    DifferentScores predictions selected :=
  fun first firstIn second secondIn =>
    scores first (subset firstIn) second (subset secondIn)

theorem DifferentScores.outscores
    (scores : DifferentScores predictions boxes) (subset : selected ⊆ boxes)
    (member : box ∈ boxes) (missing : box ∉ selected) {other : Fin n}
    (there : other ∈ selected)
    (score : (predictions.get box).score ≤ (predictions.get other).score) :
    Outscores predictions other box := by
  apply lt_of_le_of_ne score
  intro equal
  apply missing
  rwa [scores box member other (subset there) equal]

theorem mem_outscoring {other : Fin n} :
    other ∈ outscoring predictions boxes box ↔
      other ∈ boxes ∧ Outscores predictions other box := by
  simp [outscoring]

theorem length_outscoring_lt (member : box ∈ boxes) :
    (outscoring predictions boxes box).length < boxes.length := by
  rw [outscoring, List.length_filter_lt_length_iff_exists]
  exact ⟨box, member, by simp [Outscores]⟩

theorem outscoring_eq_self
    (above : ∀ other ∈ boxes, Outscores predictions other box) :
    outscoring predictions boxes box = boxes := by
  rw [outscoring, List.filter_eq_self]
  intro other there
  exact decide_eq_true (above other there)

theorem Apart.of_mem (apart : Apart predictions iouThreshold boxes)
    (member : box ∈ boxes) {other : Fin n}
    (there : other ∈ outscoring predictions boxes box) :
    overlaps predictions iouThreshold box other = false := by
  have symmetric : Std.Symm fun first second : Fin n =>
      overlaps predictions iouThreshold second first = false := by
    constructor
    intro first second little
    rwa [overlaps_comm]
  obtain ⟨otherIn, less⟩ := mem_outscoring.mp there
  apply List.Pairwise.forall apart otherIn member
  rintro rfl
  exact lt_irrefl _ less

/-- Boxes with different scores can be sorted strictly, so that what is
selected box by box is determined. -/
theorem eq_of_selections {admits : List (Fin n) → Fin n → Prop}
    {others : List (Fin n)} (different : boxes.Nodup)
    (scores : DifferentScores predictions boxes)
    (one : GreedySelection.Selection (Outscores predictions) admits boxes
      selected)
    (other : GreedySelection.Selection (Outscores predictions) admits boxes
      others) :
    selected = others := by
  have sorted : (sortedIndices .insertion predictions boxes).Perm boxes :=
    perm_sortedIndices boxes
  have ordered : ByScore predictions
      (sortedIndices .insertion predictions boxes) :=
    ordered_sortedIndices boxes
  have same : ∀ box, box ∈ sortedIndices .insertion predictions boxes ↔
      box ∈ boxes :=
    fun _ => sorted.mem_iff
  apply (one.of_mem_iff same).unique (other.of_mem_iff same)
  exact ordered.strict (sorted.nodup_iff.mpr different)
    (scores.of_subset sorted.subset)

end DifferentScores

/-- What may be selected next to boxes with higher scores. -/
def Admits (predictions : Vector NMSPrediction n) (iouThreshold : CGFloat)
    (limit : ℕ) (selected : List (Fin n)) (box : Fin n) : Prop :=
  (∀ other ∈ selected, overlaps predictions iouThreshold box other = false) ∧
    selected.length < limit

private theorem IsSelection.selection {limit : ℕ}
    {boxes selected : List (Fin n)}
    (selection : IsSelection predictions iouThreshold limit boxes selected)
    (different : boxes.Nodup) (scores : DifferentScores predictions boxes) :
    GreedySelection.Selection (Outscores predictions)
      (Admits predictions iouThreshold limit) boxes selected := by
  have subset : selected ⊆ boxes := selection.among.subset
  have nodup : selected.Nodup := by
    obtain ⟨arranged, perm, sublist⟩ := selection.among
    exact perm.nodup_iff.mp (different.sublist sublist)
  constructor
  · exact selection.byScore.strict nodup (scores.of_subset subset)
  · exact subset
  · intro box member
    change box ∈ selected ↔ Admits predictions iouThreshold limit
      (outscoring predictions selected box) box
    constructor
    · intro chosen
      refine ⟨fun other there => selection.apart.of_mem chosen there, ?_⟩
      exact (length_outscoring_lt chosen).trans_le selection.limited
    · rintro ⟨apart, room⟩
      by_contra missing
      rcases selection.accounted box member with there | suppressed | crowded
      · exact missing there
      · obtain ⟨other, there, score, overlap⟩ := suppressed
        have above := scores.outscores subset member missing there score
        have little := apart other (mem_outscoring.mpr ⟨there, above⟩)
        rw [little] at overlap
        cases overlap
      · obtain ⟨full, score⟩ := crowded
        have all : outscoring predictions selected box = selected :=
          outscoring_eq_self fun other there =>
            scores.outscores subset member missing there (score other there)
        rw [all, full] at room
        exact lt_irrefl limit room

/-- With different scores the result of suppression is the only selection,
whatever the order of the boxes and the sorting method. -/
theorem isSelection_iff (sort : Sorting.Method)
    (predictions : Vector NMSPrediction n) (iouThreshold : CGFloat)
    (maxBoxes : ℤ) {indices : List (Fin n)} (different : indices.Nodup)
    (scores : DifferentScores predictions indices)
    (selected : List (Fin n)) :
    IsSelection predictions iouThreshold maxBoxes.toNat indices selected ↔
      selected =
        nonMaxSuppressionOf sort predictions indices iouThreshold
          maxBoxes := by
  constructor
  · intro selection
    have result : IsSelection predictions iouThreshold maxBoxes.toNat indices
        (nonMaxSuppressionOf sort predictions indices iouThreshold
          maxBoxes) :=
      isSelection_nonMaxSuppressionOf sort predictions indices iouThreshold
        maxBoxes
    exact eq_of_selections different scores
      (selection.selection different scores)
      (result.selection different scores)
  · rintro rfl
    exact isSelection_nonMaxSuppressionOf sort predictions indices
      iouThreshold maxBoxes

theorem isSelection_iff_threeFaces :
    {selected | IsSelection threeFaces (1 / 2) 3 [0, 1, 2] selected} =
      {[2]} := by
  ext selected
  have scores : DifferentScores threeFaces [0, 1, 2] := by decide +kernel
  have result : nonMaxSuppressionOf .insertion threeFaces [0, 1, 2] (1 / 2)
      3 = [2] := by
    decide +kernel
  have only := isSelection_iff .insertion threeFaces (1 / 2) 3 (by decide)
    scores selected
  rwa [result] at only

end HigeMaster
