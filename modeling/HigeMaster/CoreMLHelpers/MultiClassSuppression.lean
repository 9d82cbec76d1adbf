import HigeMaster.CoreMLHelpers.Suppression

/-!
# Suppression with several classes

Boxes are first suppressed within each class, and then the best boxes of all
classes are kept.  What a box is suppressed by may itself be cut off at the
end, but then the box is crowded out as well.  So the final result can be
described without the intermediate ones: within each class it is a selection,
except that boxes may be missing when the result is full of better ones.  Where
different boxes have different scores, this leaves only one result.
-/

namespace HigeMaster

variable {sort : Sorting.Method} {n : ℕ} {predictions : Vector NMSPrediction n}
  {numClasses : ℕ} {scoreThreshold iouThreshold : CGFloat}
  {maxPerClass maxTotal : ℤ}

/-- The boxes of a class. -/
def ofClass (predictions : Vector NMSPrediction n) (c : ℤ)
    (boxes : List (Fin n)) : List (Fin n) :=
  boxes.filter fun box => (predictions.get box).classIndex = c

/-- A box of one of the classes with a high enough score. -/
def IsCandidate (predictions : Vector NMSPrediction n) (numClasses : ℤ)
    (scoreThreshold : CGFloat) (box : Fin n) : Prop :=
  (0 ≤ (predictions.get box).classIndex ∧
    (predictions.get box).classIndex < numClasses) ∧
      scoreThreshold < (predictions.get box).score

instance (predictions : Vector NMSPrediction n) (numClasses : ℤ)
    (scoreThreshold : CGFloat) :
    DecidablePred (IsCandidate predictions numClasses scoreThreshold) :=
  fun box => inferInstanceAs (Decidable
    ((0 ≤ (predictions.get box).classIndex ∧
      (predictions.get box).classIndex < numClasses) ∧
        scoreThreshold < (predictions.get box).score))

/-- What a selection of boxes from several classes should be. -/
structure IsMultiClassSelection (predictions : Vector NMSPrediction n)
    (numClasses : ℤ) (scoreThreshold iouThreshold : CGFloat)
    (limitPerClass limit : ℕ) (selected : List (Fin n)) : Prop where
  candidates : ∀ box ∈ selected,
    IsCandidate predictions numClasses scoreThreshold box
  different : selected.Nodup
  limited : selected.length ≤ limit
  limitedPerClass : ∀ c,
    (ofClass predictions c selected).length ≤ limitPerClass
  byScore : ByScore predictions selected
  apart : ∀ c, Apart predictions iouThreshold (ofClass predictions c selected)
  accounted : ∀ box, IsCandidate predictions numClasses scoreThreshold box →
    let peers := ofClass predictions (predictions.get box).classIndex selected
    box ∈ selected ∨ SuppressedBy predictions iouThreshold peers box ∨
      CrowdedOutBy predictions limitPerClass peers box ∨
        CrowdedOutBy predictions limit selected box

theorem mem_ofClass {c : ℤ} {boxes : List (Fin n)} {box : Fin n} :
    box ∈ ofClass predictions c boxes ↔
      box ∈ boxes ∧ (predictions.get box).classIndex = c := by
  simp [ofClass]

theorem nodup_ofClass {boxes : List (Fin n)} (different : boxes.Nodup)
    (c : ℤ) :
    (ofClass predictions c boxes).Nodup :=
  different.filter _

theorem mem_filteredBoxes {c : ℤ} {box : Fin n} :
    box ∈ filteredBoxes predictions scoreThreshold c ↔
      (predictions.get box).classIndex = c ∧
        scoreThreshold < (predictions.get box).score := by
  simp [filteredBoxes]

theorem nodup_filteredBoxes (c : ℤ) :
    (filteredBoxes predictions scoreThreshold c).Nodup :=
  (List.nodup_finRange n).filter _

private theorem CrowdedOutBy.of_le {limit : ℕ} {others : List (Fin n)}
    {box better : Fin n}
    (crowded : CrowdedOutBy predictions limit others better)
    (score : (predictions.get box).score ≤ (predictions.get better).score) :
    CrowdedOutBy predictions limit others box :=
  ⟨crowded.1, fun other there => score.trans (crowded.2 other there)⟩

/-! ## The best boxes of each class -/

/-- What is left of a class. -/
def nmsBoxes (sort : Sorting.Method) (predictions : Vector NMSPrediction n)
    (scoreThreshold iouThreshold : CGFloat) (maxPerClass : ℤ) (c : ℤ) :
    List (Fin n) :=
  nonMaxSuppressionOf sort predictions
    (filteredBoxes predictions scoreThreshold c) iouThreshold maxPerClass

theorem isSelection_nmsBoxes (c : ℤ) :
    IsSelection predictions iouThreshold maxPerClass.toNat
      (filteredBoxes predictions scoreThreshold c)
      (nmsBoxes sort predictions scoreThreshold iouThreshold maxPerClass
        c) :=
  isSelection_nonMaxSuppressionOf sort predictions _ iouThreshold maxPerClass

theorem subset_nmsBoxes {c : ℤ} {box : Fin n}
    (left : box ∈ nmsBoxes sort predictions scoreThreshold iouThreshold
      maxPerClass c) :
    (predictions.get box).classIndex = c ∧
      scoreThreshold < (predictions.get box).score := by
  have selection : IsSelection predictions iouThreshold maxPerClass.toNat
      (filteredBoxes predictions scoreThreshold c)
      (nmsBoxes sort predictions scoreThreshold iouThreshold maxPerClass
        c) :=
    isSelection_nmsBoxes c
  exact mem_filteredBoxes.mp (selection.among.subset left)

theorem nodup_nmsBoxes (c : ℤ) :
    (nmsBoxes sort predictions scoreThreshold iouThreshold maxPerClass
      c).Nodup := by
  have selection : IsSelection predictions iouThreshold maxPerClass.toNat
      (filteredBoxes predictions scoreThreshold c)
      (nmsBoxes sort predictions scoreThreshold iouThreshold maxPerClass
        c) :=
    isSelection_nmsBoxes c
  obtain ⟨arranged, perm, sublist⟩ := selection.among
  exact perm.nodup_iff.mp ((nodup_filteredBoxes c).sublist sublist)

private theorem foldl_append {α β : Type*} (block : α → List β)
    (items : List α) (front : List β) :
    items.foldl (fun collected item => collected ++ block item) front =
      front ++ items.flatMap block := by
  induction items generalizing front with
  | nil => rw [List.foldl_nil, List.flatMap_nil, List.append_nil]
  | cons item items induction =>
      rw [List.foldl_cons, induction, List.flatMap_cons, List.append_assoc]

theorem selectedBoxes_eq :
    selectedBoxes sort predictions numClasses scoreThreshold iouThreshold
        maxPerClass =
      (List.range numClasses).flatMap fun c : ℕ =>
        nmsBoxes sort predictions scoreThreshold iouThreshold maxPerClass
          c := by
  rw [selectedBoxes, foldl_append, List.nil_append]
  rfl

theorem mem_selectedBoxes {box : Fin n} :
    box ∈ selectedBoxes sort predictions numClasses scoreThreshold
        iouThreshold maxPerClass ↔
      (0 ≤ (predictions.get box).classIndex ∧
        (predictions.get box).classIndex < numClasses) ∧
          box ∈ nmsBoxes sort predictions scoreThreshold iouThreshold
            maxPerClass (predictions.get box).classIndex := by
  rw [selectedBoxes_eq, List.mem_flatMap]
  constructor
  · rintro ⟨c, inRange, member⟩
    rw [List.mem_range] at inRange
    have same := (subset_nmsBoxes member).1
    rw [same]
    exact ⟨⟨Int.natCast_nonneg c, Int.ofNat_lt.mpr inRange⟩, member⟩
  · rintro ⟨⟨nonneg, less⟩, member⟩
    refine ⟨(predictions.get box).classIndex.toNat, ?_, ?_⟩
    · rw [List.mem_range]
      omega
    · rwa [Int.toNat_of_nonneg nonneg]

theorem nodup_selectedBoxes :
    (selectedBoxes sort predictions numClasses scoreThreshold iouThreshold
      maxPerClass).Nodup := by
  rw [selectedBoxes_eq, List.nodup_flatMap]
  refine ⟨fun c _ => nodup_nmsBoxes (c : ℤ), ?_⟩
  apply List.nodup_range.imp
  intro first second different box inFirst inSecond
  apply different
  exact Int.ofNat_inj.mp
    ((subset_nmsBoxes inFirst).1.symm.trans (subset_nmsBoxes inSecond).1)

/-! ## The best boxes of all classes -/

private theorem ByScore.mem_take_or_crowdedOut {boxes : List (Fin n)}
    (byScore : ByScore predictions boxes) (limit : ℕ) {box : Fin n}
    (member : box ∈ boxes) :
    box ∈ boxes.take limit ∨
      CrowdedOutBy predictions limit (boxes.take limit) box := by
  rw [← List.take_append_drop limit boxes] at member byScore
  rcases List.mem_append.mp member with early | late
  · exact .inl early
  · right
    constructor
    · have positive := List.length_pos_of_mem late
      rw [List.length_drop] at positive
      rw [List.length_take]
      omega
    · intro other there
      exact (List.pairwise_append.mp byScore).2.2 other there box late

private theorem ofClass_subperm {boxes : List (Fin n)} (nodup : boxes.Nodup)
    (subset : boxes ⊆ selectedBoxes sort predictions numClasses
      scoreThreshold iouThreshold maxPerClass) (c : ℤ) :
    (ofClass predictions c boxes).Subperm
      (nmsBoxes sort predictions scoreThreshold iouThreshold maxPerClass
        c) := by
  apply List.subperm_of_subset (nodup_ofClass nodup c)
  intro box member
  rw [mem_ofClass] at member
  have left := (mem_selectedBoxes.mp (subset member.1)).2
  rwa [member.2] at left

private theorem Apart.of_subperm {boxes others : List (Fin n)}
    (apart : Apart predictions iouThreshold boxes)
    (subperm : others.Subperm boxes) :
    Apart predictions iouThreshold others := by
  obtain ⟨arranged, perm, sublist⟩ := subperm
  apply (perm.pairwise_iff _).mp (apart.sublist sublist)
  intro first second less
  rwa [overlaps_comm]

section Sorted

variable {boxes : List (Fin n)}

/-- What is left of a class is taken, or everything taken outscores it. -/
private theorem mem_peers_or_crowdedOut
    (perm : boxes.Perm (selectedBoxes sort predictions numClasses
      scoreThreshold iouThreshold maxPerClass))
    (byScore : ByScore predictions boxes) (limit : ℕ) {c : ℤ}
    (inRange : 0 ≤ c ∧ c < numClasses) {box : Fin n}
    (left : box ∈ nmsBoxes sort predictions scoreThreshold iouThreshold
      maxPerClass c) :
    box ∈ ofClass predictions c (boxes.take limit) ∨
      CrowdedOutBy predictions limit (boxes.take limit) box := by
  have same := (subset_nmsBoxes left).1
  have among : box ∈ boxes := by
    rw [perm.mem_iff, mem_selectedBoxes, same]
    exact ⟨inRange, left⟩
  rcases byScore.mem_take_or_crowdedOut limit among with early | crowded
  · exact .inl (mem_ofClass.mpr ⟨early, same⟩)
  · exact .inr crowded

private theorem accounted_take
    (perm : boxes.Perm (selectedBoxes sort predictions numClasses
      scoreThreshold iouThreshold maxPerClass))
    (byScore : ByScore predictions boxes) (limit : ℕ)
    (subperm : ∀ c, (ofClass predictions c (boxes.take limit)).Subperm
      (nmsBoxes sort predictions scoreThreshold iouThreshold maxPerClass c))
    {box : Fin n}
    (candidate : IsCandidate predictions numClasses scoreThreshold box) :
    let peers :=
      ofClass predictions (predictions.get box).classIndex (boxes.take limit)
    box ∈ boxes.take limit ∨ SuppressedBy predictions iouThreshold peers box ∨
      CrowdedOutBy predictions maxPerClass.toNat peers box ∨
        CrowdedOutBy predictions limit (boxes.take limit) box := by
  intro peers
  obtain ⟨inRange, score⟩ := candidate
  have survive : ∀ other ∈ nmsBoxes sort predictions scoreThreshold
      iouThreshold maxPerClass (predictions.get box).classIndex,
        other ∈ peers ∨
          CrowdedOutBy predictions limit (boxes.take limit) other :=
    fun _ left => mem_peers_or_crowdedOut perm byScore limit inRange left
  have selection : IsSelection predictions iouThreshold maxPerClass.toNat
      (filteredBoxes predictions scoreThreshold
        (predictions.get box).classIndex)
      (nmsBoxes sort predictions scoreThreshold iouThreshold maxPerClass
        (predictions.get box).classIndex) :=
    isSelection_nmsBoxes _
  rcases selection.accounted box (mem_filteredBoxes.mpr ⟨rfl, score⟩) with
    left | suppressed | full
  · rcases survive box left with there | crowded
    · exact .inl (mem_ofClass.mp there).1
    · exact .inr (.inr (.inr crowded))
  · obtain ⟨other, left, above, overlap⟩ := suppressed
    rcases survive other left with there | crowded
    · exact .inr (.inl ⟨other, there, above, overlap⟩)
    · exact .inr (.inr (.inr (crowded.of_le above)))
  · by_cases complete : nmsBoxes sort predictions scoreThreshold
        iouThreshold maxPerClass (predictions.get box).classIndex ⊆ peers
    · have same : peers.Perm (nmsBoxes sort predictions scoreThreshold
          iouThreshold maxPerClass (predictions.get box).classIndex) :=
        (subperm _).antisymm
          (List.subperm_of_subset (nodup_nmsBoxes _) complete)
      refine .inr (.inr (.inl ⟨?_, ?_⟩))
      · rw [same.length_eq]
        exact full.1
      · intro other there
        exact full.2 other (same.mem_iff.mp there)
    · simp only [List.subset_def, not_forall] at complete
      obtain ⟨other, left, missing⟩ := complete
      rcases survive other left with there | crowded
      · exact absurd there missing
      · exact .inr (.inr (.inr (crowded.of_le (full.2 other left))))

/-- The best of the boxes that are left of each class are a selection. -/
private theorem isMultiClassSelection_take
    (perm : boxes.Perm (selectedBoxes sort predictions numClasses
      scoreThreshold iouThreshold maxPerClass))
    (byScore : ByScore predictions boxes) (limit : ℕ) :
    IsMultiClassSelection predictions numClasses scoreThreshold iouThreshold
      maxPerClass.toNat limit (boxes.take limit) := by
  have nodup : (boxes.take limit).Nodup :=
    (perm.nodup_iff.mpr nodup_selectedBoxes).sublist (List.take_sublist _ _)
  have subset : boxes.take limit ⊆ selectedBoxes sort predictions numClasses
      scoreThreshold iouThreshold maxPerClass := by
    intro box member
    exact perm.mem_iff.mp (List.mem_of_mem_take member)
  have selection : ∀ c : ℤ, IsSelection predictions iouThreshold
      maxPerClass.toNat (filteredBoxes predictions scoreThreshold c)
      (nmsBoxes sort predictions scoreThreshold iouThreshold maxPerClass
        c) :=
    isSelection_nmsBoxes
  constructor
  · intro box member
    obtain ⟨inRange, left⟩ := mem_selectedBoxes.mp (subset member)
    exact ⟨inRange, (subset_nmsBoxes left).2⟩
  · exact nodup
  · exact List.length_take_le _ _
  · intro c
    exact (ofClass_subperm nodup subset c).length_le.trans
      (selection c).limited
  · exact byScore.sublist (List.take_sublist _ _)
  · intro c
    exact (selection c).apart.of_subperm (ofClass_subperm nodup subset c)
  · intro box candidate
    exact accounted_take perm byScore limit (ofClass_subperm nodup subset)
      candidate

end Sorted

/-- Multi-class suppression stops the program for a negative number of classes
or a negative limit in total, and otherwise selects from all classes. -/
theorem isMultiClassSelection_nonMaxSuppressionMultiClass
    (sort : Sorting.Method) (predictions : Vector NMSPrediction n)
    (numClasses : ℤ) (scoreThreshold iouThreshold : CGFloat)
    (maxPerClass maxTotal : ℤ) :
    let result := nonMaxSuppressionMultiClass sort predictions numClasses
      scoreThreshold iouThreshold maxPerClass maxTotal
    (result = none ↔ numClasses < 0 ∨ maxTotal < 0) ∧
      ∀ selected, result = some selected →
        IsMultiClassSelection predictions numClasses scoreThreshold
          iouThreshold maxPerClass.toNat maxTotal.toNat selected := by
  intro result
  by_cases negative : numClasses < 0
  · have stopped : result = none := if_pos negative
    rw [stopped]
    exact ⟨⟨fun _ => .inl negative, fun _ => rfl⟩, fun _ => nofun⟩
  · by_cases below : maxTotal < 0
    · have stopped : result = none := by
        simp only [result, nonMaxSuppressionMultiClass, if_neg negative,
          if_pos below]
      rw [stopped]
      exact ⟨⟨fun _ => .inr below, fun _ => rfl⟩, fun _ => nofun⟩
    · have finished : result = some ((sortedIndices sort predictions
          (selectedBoxes sort predictions numClasses.toNat scoreThreshold
            iouThreshold maxPerClass)).take maxTotal.toNat) := by
        simp only [result, nonMaxSuppressionMultiClass, if_neg negative,
          if_neg below]
      rw [finished]
      constructor
      · simp [negative, below]
      · intro selected equality
        rw [Option.some_inj] at equality
        subst equality
        have selection : IsMultiClassSelection predictions
            numClasses.toNat scoreThreshold iouThreshold maxPerClass.toNat
            maxTotal.toNat ((sortedIndices sort predictions
              (selectedBoxes sort predictions numClasses.toNat
                scoreThreshold iouThreshold maxPerClass)).take
                  maxTotal.toNat) :=
          isMultiClassSelection_take (perm_sortedIndices _)
            (ordered_sortedIndices _) maxTotal.toNat
        rwa [Int.toNat_of_nonneg (not_lt.mp negative)] at selection

/-- Every candidate is matched by a box of its class that scores at least as
much, unless the result is full of such boxes of any class. -/
theorem IsMultiClassSelection.represented {limitPerClass limit : ℕ}
    {numClasses : ℤ} {selected : List (Fin n)}
    (selection : IsMultiClassSelection predictions numClasses scoreThreshold
      iouThreshold limitPerClass limit selected)
    (wanted : 0 < limitPerClass) {box : Fin n}
    (candidate : IsCandidate predictions numClasses scoreThreshold box) :
    (∃ other ∈ selected,
      (predictions.get other).classIndex = (predictions.get box).classIndex ∧
        (predictions.get box).score ≤ (predictions.get other).score) ∨
          CrowdedOutBy predictions limit selected box := by
  rcases selection.accounted box candidate with
    there | suppressed | full | crowded
  · exact .inl ⟨box, there, rfl, le_rfl⟩
  · obtain ⟨other, there, score, _⟩ := suppressed
    obtain ⟨chosen, peer⟩ := mem_ofClass.mp there
    exact .inl ⟨other, chosen, peer, score⟩
  · rw [← full.1] at wanted
    obtain ⟨other, there⟩ := List.exists_mem_of_length_pos wanted
    obtain ⟨chosen, peer⟩ := mem_ofClass.mp there
    exact .inl ⟨other, chosen, peer, full.2 other there⟩
  · exact .inr crowded

/-- No class with a candidate goes missing from a result with room left. -/
theorem class_represented (sort : Sorting.Method)
    (predictions : Vector NMSPrediction n) (numClasses : ℤ)
    (scoreThreshold iouThreshold : CGFloat) {maxPerClass : ℤ} (maxTotal : ℤ)
    (wanted : 0 < maxPerClass) {selected : List (Fin n)}
    (result : nonMaxSuppressionMultiClass sort predictions numClasses
      scoreThreshold iouThreshold maxPerClass maxTotal = some selected)
    {box : Fin n}
    (candidate : IsCandidate predictions numClasses scoreThreshold box) :
    (∃ other ∈ selected,
      (predictions.get other).classIndex = (predictions.get box).classIndex ∧
        (predictions.get box).score ≤ (predictions.get other).score) ∨
          CrowdedOutBy predictions maxTotal.toNat selected box := by
  obtain ⟨_, selects⟩ :=
    isMultiClassSelection_nonMaxSuppressionMultiClass sort predictions
      numClasses scoreThreshold iouThreshold maxPerClass maxTotal
  apply (selects selected result).represented _ candidate
  omega

private theorem nonMaxSuppressionMultiClass_threeFaces :
    nonMaxSuppressionMultiClass .insertion threeFaces 2 0 (1 / 2) 2 3 =
      some [2, 1] := by
  decide +kernel

theorem class_represented_threeFaces :
    (∃ other ∈ ([2, 1] : List (Fin 3)),
      (threeFaces.get other).classIndex = (threeFaces.get 1).classIndex ∧
        (threeFaces.get 1).score ≤ (threeFaces.get other).score) ∨
          CrowdedOutBy threeFaces 3 [2, 1] 1 := by
  have candidate : IsCandidate threeFaces 2 0 1 := by decide +kernel
  exact class_represented .insertion threeFaces 2 0 (1 / 2) 3 (by decide)
    nonMaxSuppressionMultiClass_threeFaces candidate

/-! ## The only selection -/

/-- All the boxes that may be selected. -/
def candidateBoxes (predictions : Vector NMSPrediction n) (numClasses : ℤ)
    (scoreThreshold : CGFloat) : List (Fin n) :=
  (List.finRange n).filter fun box =>
    IsCandidate predictions numClasses scoreThreshold box

theorem mem_candidateBoxes {numClasses : ℤ} {box : Fin n} :
    box ∈ candidateBoxes predictions numClasses scoreThreshold ↔
      IsCandidate predictions numClasses scoreThreshold box := by
  simp [candidateBoxes]

/-- What may be selected next to boxes with higher scores. -/
def AdmitsPeer (predictions : Vector NMSPrediction n) (iouThreshold : CGFloat)
    (limitPerClass limit : ℕ) (selected : List (Fin n)) (box : Fin n) :
    Prop :=
  Admits predictions iouThreshold limitPerClass
      (ofClass predictions (predictions.get box).classIndex selected) box ∧
    selected.length < limit

private theorem ofClass_outscoring (boxes : List (Fin n)) (box : Fin n)
    (c : ℤ) :
    ofClass predictions c (outscoring predictions boxes box) =
      outscoring predictions (ofClass predictions c boxes) box :=
  List.filter_comm _ _ boxes

private theorem IsMultiClassSelection.selection {numClasses : ℤ}
    {limitPerClass limit : ℕ} {selected : List (Fin n)}
    (selection : IsMultiClassSelection predictions numClasses scoreThreshold
      iouThreshold limitPerClass limit selected)
    (scores : DifferentScores predictions
      (candidateBoxes predictions numClasses scoreThreshold)) :
    GreedySelection.Selection (Outscores predictions)
      (AdmitsPeer predictions iouThreshold limitPerClass limit)
      (candidateBoxes predictions numClasses scoreThreshold) selected := by
  have subset : selected ⊆
      candidateBoxes predictions numClasses scoreThreshold := by
    intro box member
    exact mem_candidateBoxes.mpr (selection.candidates box member)
  constructor
  · exact selection.byScore.strict selection.different
      (scores.of_subset subset)
  · exact subset
  · intro box member
    change box ∈ selected ↔ AdmitsPeer predictions iouThreshold limitPerClass
      limit (outscoring predictions selected box) box
    rw [AdmitsPeer, ofClass_outscoring]
    have peersSubset :
        ofClass predictions (predictions.get box).classIndex selected ⊆
          candidateBoxes predictions numClasses scoreThreshold :=
      fun other there => subset (mem_ofClass.mp there).1
    constructor
    · intro chosen
      have peer : box ∈
          ofClass predictions (predictions.get box).classIndex selected :=
        mem_ofClass.mpr ⟨chosen, rfl⟩
      refine ⟨⟨fun other there => (selection.apart _).of_mem peer there, ?_⟩,
        ?_⟩
      · exact (length_outscoring_lt peer).trans_le
          (selection.limitedPerClass _)
      · exact (length_outscoring_lt chosen).trans_le selection.limited
    · rintro ⟨⟨apart, roomPerClass⟩, room⟩
      by_contra missing
      have noPeer : box ∉
          ofClass predictions (predictions.get box).classIndex selected :=
        fun there => missing (mem_ofClass.mp there).1
      rcases selection.accounted box (mem_candidateBoxes.mp member) with
        there | suppressed | full | crowded
      · exact missing there
      · obtain ⟨other, there, score, overlap⟩ := suppressed
        have above := scores.outscores peersSubset member noPeer there score
        have little := apart other (mem_outscoring.mpr ⟨there, above⟩)
        rw [little] at overlap
        cases overlap
      · have all : outscoring predictions
            (ofClass predictions (predictions.get box).classIndex selected)
              box =
              ofClass predictions (predictions.get box).classIndex selected :=
          outscoring_eq_self fun other there =>
            scores.outscores peersSubset member noPeer there
              (full.2 other there)
        rw [all, full.1] at roomPerClass
        exact lt_irrefl limitPerClass roomPerClass
      · have all : outscoring predictions selected box = selected :=
          outscoring_eq_self fun other there =>
            scores.outscores subset member missing there
              (crowded.2 other there)
        rw [all, crowded.1] at room
        exact lt_irrefl limit room

/-- With different scores the result of multi-class suppression is the only
selection, whatever the sorting method. -/
theorem isMultiClassSelection_iff (sort : Sorting.Method)
    (predictions : Vector NMSPrediction n) {numClasses : ℤ}
    (scoreThreshold iouThreshold : CGFloat) (maxPerClass : ℤ) {maxTotal : ℤ}
    (classes : 0 ≤ numClasses) (total : 0 ≤ maxTotal)
    (scores : DifferentScores predictions
      (candidateBoxes predictions numClasses scoreThreshold))
    (selected : List (Fin n)) :
    IsMultiClassSelection predictions numClasses scoreThreshold iouThreshold
        maxPerClass.toNat maxTotal.toNat selected ↔
      nonMaxSuppressionMultiClass sort predictions numClasses scoreThreshold
        iouThreshold maxPerClass maxTotal = some selected := by
  obtain ⟨stops, selects⟩ :=
    isMultiClassSelection_nonMaxSuppressionMultiClass sort predictions
      numClasses scoreThreshold iouThreshold maxPerClass maxTotal
  constructor
  · intro selection
    cases result : nonMaxSuppressionMultiClass sort predictions numClasses
        scoreThreshold iouThreshold maxPerClass maxTotal with
    | none =>
        have negative := stops.mp result
        omega
    | some boxes =>
        have nodup :
            (candidateBoxes predictions numClasses scoreThreshold).Nodup :=
          (List.nodup_finRange n).filter _
        congr 1
        exact eq_of_selections nodup scores
          ((selects boxes result).selection scores)
          (selection.selection scores)
  · exact selects selected

theorem isMultiClassSelection_iff_threeFaces :
    {selected | IsMultiClassSelection threeFaces 2 0 (1 / 2) 2 3 selected} =
      {[2, 1]} := by
  ext selected
  have scores : DifferentScores threeFaces
      (candidateBoxes threeFaces 2 0) := by
    decide +kernel
  have classes : (0 : ℤ) ≤ 2 := by decide
  have total : (0 : ℤ) ≤ 3 := by decide
  have only := isMultiClassSelection_iff .insertion threeFaces 0 (1 / 2) 2
    classes total scores selected
  rw [nonMaxSuppressionMultiClass_threeFaces, Option.some_inj] at only
  exact only.trans eq_comm

end HigeMaster
