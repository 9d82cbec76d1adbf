import HigeMaster.Scenes.StampDrag

/-!
# A grabbed stamp follows the finger

Nothing remembers which stamp was picked up; every touch tests the frames
anew.  A frame that contains the finger is moved so that it contains the
finger again, so a stamp that a drag starts in never loses the finger, however
far apart the points of the path are and whatever other stamps are in the way.
-/

namespace HigeMaster

open Geometry

namespace EditViewController

/-- The frame has been carried along while the finger went from `start` to
`location`, and it contains the finger. -/
structure Follows (start location : CGPoint) (frame carried : CGRect) :
    Prop where
  origin : carried.origin = frame.origin + (location - start)
  size : carried.size = frame.size
  grabbed : carried.contains location = true

theorem follows_draggedAlong {start : CGPoint} {frame : CGRect}
    (inside : frame.contains start = true) (path : List CGPoint) :
    Follows start (path.getLastD start) frame
      (frame.draggedAlong start path) := by
  have followed := Rect.draggedAlong_of_contains inside path
  exact
    { origin := by rw [followed, Rect.translate_origin]
      size := by rw [followed, Rect.translate_size]
      grabbed := Rect.contains_draggedAlong inside path }

/-- Every stamp in whose frame the finger started has been carried along with
it. -/
def CarriesGrabbed (before after : EditViewController)
    (start location : CGPoint) : Prop :=
  ∀ index frame, before.frameAt index = some frame →
    frame.contains start = true →
      ∃ carried, after.frameAt index = some carried ∧
        Follows start location frame carried

theorem dragEvents_append (start : CGPoint)
    (travelled ahead : List CGPoint) :
    dragEvents start (travelled ++ ahead) =
      dragEvents start travelled ++
        dragEvents (travelled.getLastD start) ahead := by
  induction travelled generalizing start with
  | nil => rfl
  | cons next travelled induction =>
      rw [List.cons_append, dragEvents, induction, List.getLastD_cons]
      rfl

theorem carriesGrabbed_of_frames {before after : EditViewController}
    {start : CGPoint} {path : List CGPoint}
    (frames : ∀ index, after.frameAt index =
      (before.frameAt index).map fun frame => frame.draggedAlong start path) :
    CarriesGrabbed before after start (path.getLastD start) := by
  intro index frame there inside
  refine ⟨frame.draggedAlong start path, ?_, follows_draggedAlong inside path⟩
  rw [frames, there]
  rfl

/-- However the stamps are scaled and wherever they lie, a drag carries every
stamp in whose frame it starts to the end of the path, and it has not lost one
after any part of the path. -/
theorem grabbed_never_slips {before : EditViewController}
    (scaled : before.StampsScaled) (start : CGPoint) (path : List CGPoint) :
    ∃ after,
      EventRun.run step before (dragEvents start path) = some after ∧
        CarriesGrabbed before after start (path.getLastD start) ∧
          ∀ travelled ahead, path = travelled ++ ahead →
            ∃ middle,
              EventRun.run step before (dragEvents start travelled) =
                  some middle ∧
                EventRun.run step middle
                    (dragEvents (travelled.getLastD start) ahead) =
                  some after ∧
                CarriesGrabbed before middle start
                  (travelled.getLastD start) := by
  obtain ⟨after, completed, frames⟩ := scaled.drag start path
  refine ⟨after, completed, carriesGrabbed_of_frames frames, ?_⟩
  intro travelled ahead split
  obtain ⟨middle, reached, earlier⟩ := scaled.drag start travelled
  refine ⟨middle, reached, ?_, carriesGrabbed_of_frames earlier⟩
  rw [split, dragEvents_append, EventRun.run_append, reached] at completed
  exact completed

/-- Two stamps that overlap, one of them twice as large. -/
def overlapping : EditViewController :=
  { blank with
    manualStampViews :=
      [{ newHige .onePixel { x := 100, y := 100 } with
          transform := .uniform 2 },
        newHige .onePixel { x := 160, y := 100 }] }

/-- The finger starts on the larger stamp only, jumps onto the smaller one and
then far away. -/
theorem grabbed_never_slips_overlapping :
    ∃ after,
      EventRun.run step overlapping
          (dragEvents { x := 60, y := 60 }
            [{ x := 160, y := 100 }, { x := -500, y := 900 }]) =
        some after ∧
        CarriesGrabbed overlapping after { x := 60, y := 60 }
          { x := -500, y := 900 } := by
  have scaled : overlapping.StampsScaled := by
    intro imgView member
    rcases List.mem_cons.mp member with first | later
    · exact ⟨2, congrArg (fun view => view.transform) first⟩
    · rw [List.mem_singleton.mp later]
      exact ⟨1, rfl⟩
  obtain ⟨after, completed, carries, _⟩ :=
    grabbed_never_slips scaled { x := 60, y := 60 }
      [{ x := 160, y := 100 }, { x := -500, y := 900 }]
  exact ⟨after, completed, carries⟩

end EditViewController

end HigeMaster
