import HigeMaster.Scenes.EditorLoading

/-!
# Dragging stamps with one finger

A drag is a series of touches, each of which starts where the one before
ended.  Every stamp follows the finger from the first point of the path that
lies in its resting frame, whatever the other stamps do.  So a drag moves more
than one stamp whenever the finger enters more than one of them.
-/

namespace HigeMaster

open Geometry

namespace EditViewController

/-- The touches of one finger that goes from `point` through the points of
`path`. -/
def dragEvents : CGPoint → List CGPoint → List Event
  | _, [] => []
  | point, next :: path =>
      .touchesMoved [{ previousLocation := point, location := next }] ::
        dragEvents next path

/-- At most one stamp has another frame after than before. -/
def AtMostOneMoved (before after : EditViewController) : Prop :=
  ∀ left right, after.frameAt left ≠ before.frameAt left →
    after.frameAt right ≠ before.frameAt right → left = right

/-- The finger enters the resting frame of the stamp at `index` at a point
other than the one where the path ends. -/
def Grabs (controller : EditViewController) (point : CGPoint)
    (path : List CGPoint) (index : ℕ) : Prop :=
  ∃ frame grabbed, controller.frameAt index = some frame ∧
    frame.grabbedAt point path = some grabbed ∧
      grabbed ≠ path.getLastD point

section Drag

variable {canvas : Canvas} {before : EditViewController}

theorem Represents.frameAt {editing : Editing} {index : ℕ}
    (represents : Represents canvas before editing) :
    before.frameAt index = editing.stamps[index]?.map Stamp.frame := by
  rw [EditViewController.frameAt, represents.manualStampViews,
    List.getElem?_map, Option.map_map]
  rfl

theorem Edits.stampsScaled (edits : Edits canvas before) :
    before.StampsScaled := by
  obtain ⟨editing, represents⟩ := edits
  unfold StampsScaled
  rw [represents.manualStampViews, List.forall_mem_map]
  intro stamp _
  exact ⟨stamp.factor, rfl⟩

theorem StampsScaled.drag (scaled : before.StampsScaled) (point : CGPoint)
    (path : List CGPoint) :
    ∃ after, EventRun.run step before (dragEvents point path) = some after ∧
      ∀ index, after.frameAt index =
        (before.frameAt index).map fun frame =>
          frame.draggedAlong point path := by
  induction path generalizing before point with
  | nil =>
      refine ⟨before, rfl, ?_⟩
      intro index
      exact Option.map_id'.symm
  | cons next path induction =>
      obtain ⟨middle, taken, kept, first⟩ :=
        scaled.touch { previousLocation := point, location := next }
      obtain ⟨after, completed, rest⟩ := induction kept next
      refine ⟨after, EventRun.run_cons_eq_some.mpr ⟨middle, taken, completed⟩,
        ?_⟩
      intro index
      rw [rest, first, Option.map_map]
      rfl

/-- The stamps that a drag moves are those that the finger grabs. -/
theorem drag_moves_iff {after : EditViewController} {point : CGPoint}
    {path : List CGPoint} {index : ℕ}
    (frames : after.frameAt index =
      (before.frameAt index).map fun frame => frame.draggedAlong point path) :
    after.frameAt index ≠ before.frameAt index ↔
      Grabs before point path index := by
  rw [frames]
  unfold Grabs
  cases before.frameAt index with
  | none => simp
  | some frame =>
      simp only [Option.map_some, ne_eq, Option.some.injEq, exists_and_left,
        exists_eq_left']
      exact Rect.draggedAlong_ne_self_iff

end Drag

/-- From every state that a run reaches, a drag moves at most one stamp
exactly if the finger grabs at most one. -/
theorem drag_moves_atMostOne_iff {outlets : EditOutlets}
    {image : Option UIImage} {assets : HigeAssets}
    {detector : VNFaceLandmarksDetector} {start before : EditViewController}
    {events : List Event}
    (loaded :
      (instantiate outlets image).viewDidLoad assets detector = some start)
    (reached : EventRun.run step start events = some before)
    (point : CGPoint) (path : List CGPoint) :
    ∃ after, EventRun.run step before (dragEvents point path) = some after ∧
      (AtMostOneMoved before after ↔
        ∀ left right, Grabs before point path left →
          Grabs before point path right → left = right) := by
  obtain ⟨base, rfl⟩ := image_of_loaded loaded
  obtain ⟨found, _, represents⟩ := represents_viewDidLoad loaded
  have initial : Edits (canvasFor outlets base assets) start :=
    ⟨_, represents⟩
  have edits := initial.of_run reached
  obtain ⟨after, completed, frames⟩ := edits.stampsScaled.drag point path
  refine ⟨after, completed, ?_⟩
  unfold AtMostOneMoved
  simp only [drag_moves_iff (frames _)]

/-- Two stamps are added, and no stamp is moved in between. -/
def addTwo : List Event :=
  [.pushManualBtn, .didSelectItemAt 0, .didSelectItemAt 1]

/-- The finger starts inside both stamps. -/
def dragBoth : List Event :=
  dragEvents { x := 187, y := 275 } [{ x := 200, y := 300 }]

theorem addTwo_represents :
    ∃ before, EventRun.run step blank addTwo = some before ∧
      Represents (canvasFor .storyboard .onePixel blankAssets) before
        ([.enter .manual, .select .onePixel, .select .onePixel].foldl
          (Editing.apply EditOutlets.storyboard.imageView.center)
          (opening blankAssets)) := by
  have represents := represents_opened .storyboard .onePixel blankAssets
  have translated :
      addTwo.mapM
          (Event.action (canvasFor .storyboard .onePixel blankAssets)) =
        some [.enter .manual, .select .onePixel, .select .onePixel] :=
    rfl
  exact (step_refines _).run represents translated

theorem drag_moves_atMostOne_iff_addTwo :
    ∃ before, EventRun.run step blank addTwo = some before ∧
      ∃ after, EventRun.run step before dragBoth = some after ∧
        (AtMostOneMoved before after ↔
          ∀ left right,
            Grabs before { x := 187, y := 275 } [{ x := 200, y := 300 }]
                left →
              Grabs before { x := 187, y := 275 } [{ x := 200, y := 300 }]
                  right →
                left = right) := by
  obtain ⟨before, reached, _⟩ := addTwo_represents
  exact ⟨before, reached,
    drag_moves_atMostOne_iff blank_loaded reached _ _⟩

/-- The first drag of two new stamps moves both. -/
theorem dragBoth_movesBoth :
    (instantiate .storyboard (some .onePixel)).viewDidLoad blankAssets
        noFaces = some blank ∧
      ∃ before after, EventRun.run step blank addTwo = some before ∧
        EventRun.run step before dragBoth = some after ∧
          ¬AtMostOneMoved before after := by
  obtain ⟨before, reached, holds⟩ := addTwo_represents
  have edits : Edits (canvasFor .storyboard .onePixel blankAssets) before :=
    ⟨_, holds⟩
  obtain ⟨after, completed, frames⟩ := edits.stampsScaled.drag
    { x := 187, y := 275 } [{ x := 200, y := 300 }]
  refine ⟨blank_loaded, before, after, reached, completed, ?_⟩
  let frame := (Stamp.new .onePixel
    EditOutlets.storyboard.imageView.center).frame
  have grabbed : frame.grabbedAt { x := 187, y := 275 }
      [{ x := 200, y := 300 }] = some { x := 187, y := 275 } := by
    decide +kernel
  have grabs (index : ℕ) (there : before.frameAt index = some frame) :
      Grabs before { x := 187, y := 275 } [{ x := 200, y := 300 }] index := by
    refine ⟨frame, _, there, grabbed, ?_⟩
    simp [List.getLastD]
  intro alone
  have same : (0 : ℕ) = 1 := by
    apply alone 0 1
    · apply (drag_moves_iff (frames 0)).mpr
      exact grabs 0 holds.frameAt
    · apply (drag_moves_iff (frames 1)).mpr
      exact grabs 1 holds.frameAt
  cases same

end EditViewController

end HigeMaster
