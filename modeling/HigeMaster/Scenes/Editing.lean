import HigeMaster.Scenes.TouchedStamps

/-!
# What the editor is for

The editor keeps two things apart: the automatic picture, which is determined
by the recorded faces, one ratio and one stamp image, and the manual stamps,
each of which has an image, a place and a size.  The mode decides which of the
two the slider and the selection of an image act on.  No action can fail here:
a manual stamp is a place and a size rather than a view, so there is no frame
to assign.
-/

namespace HigeMaster

open Geometry

inductive EditMode where
  | automatic
  | manual
  deriving DecidableEq

namespace EditMode

/-- The number by which the controller knows the mode. -/
def number : EditMode → ℤ
  | .automatic => 0
  | .manual => 1

@[simp] theorem some_number_eq_zero_iff {mode : EditMode} :
    some mode.number = some 0 ↔ mode = .automatic := by
  cases mode <;> simp [number]

end EditMode

/-! ## Stamps -/

structure Stamp where
  image : UIImage
  center : CGPoint
  factor : CGFloat

namespace Stamp

/-- The view that stands for the stamp. -/
def view (stamp : Stamp) : UIImageView :=
  { bounds :=
      { origin := 0
        size := { width := 50, height := 50 } }
    center := stamp.center
    transform := .uniform stamp.factor
    image := some (.image stamp.image)
    contentMode := .scaleAspectFill
    isUserInteractionEnabled := true
    subviews := [] }

def frame (stamp : Stamp) : CGRect :=
  stamp.view.frame

/-- A new stamp has its natural size. -/
def new (image : UIImage) (center : CGPoint) : Stamp :=
  { image := image, center := center, factor := 1 }

def resize (factor : CGFloat) (stamp : Stamp) : Stamp :=
  { stamp with factor := factor }

/-- How far a touch takes the stamp. -/
def displacement (touch : UITouch) (stamp : Stamp) : CGPoint :=
  if stamp.frame.contains touch.previousLocation then
    touch.location - touch.previousLocation
  else
    0

def drag (touch : UITouch) (stamp : Stamp) : Stamp :=
  { stamp with center := stamp.center + stamp.displacement touch }

theorem displacement_of_contains {touch : UITouch} {stamp : Stamp}
    (inside : stamp.frame.contains touch.previousLocation = true) :
    stamp.displacement touch = touch.location - touch.previousLocation := by
  rw [displacement, if_pos inside]

theorem displacement_of_not_contains {touch : UITouch} {stamp : Stamp}
    (outside : stamp.frame.contains touch.previousLocation = false) :
    stamp.displacement touch = 0 := by
  rw [displacement, outside]
  rfl

theorem drag_of_not_contains {touch : UITouch} {stamp : Stamp}
    (outside : stamp.frame.contains touch.previousLocation = false) :
    stamp.drag touch = stamp := by
  rw [drag, displacement_of_not_contains outside, add_zero]

/-- A stamp that has shrunk to nothing cannot be touched. -/
theorem factor_ne_zero_of_contains {stamp : Stamp} {point : CGPoint}
    (inside : stamp.frame.contains point = true) : stamp.factor ≠ 0 := by
  intro collapsed
  have transform : stamp.view.transform = .uniform 0 := by
    rw [view, collapsed]
  have outside := View.not_frame_contains_of_scale_zero transform point
  rw [frame, outside] at inside
  cases inside

/-- Assigning the moved frame to the view of a stamp is defined, and it drags
the stamp. -/
theorem setFrame_of_contains {touch : UITouch} {stamp : Stamp}
    (inside : stamp.view.frame.contains touch.previousLocation = true) :
    stamp.view.setFrame
        (stamp.view.frame.translate
          (touch.location - touch.previousLocation)) =
      some (stamp.drag touch).view := by
  have uniform : stamp.view.toView.transform = .uniform stamp.factor := rfl
  have assigned := View.setFrame_translate uniform
    (factor_ne_zero_of_contains inside) (by norm_num [view])
    (by norm_num [view]) (touch.location - touch.previousLocation)
  rw [UIImageView.setFrame, assigned]
  have displaced := displacement_of_contains inside
  simp only [drag, displaced]
  rfl

theorem touched_view (touch : UITouch) (stamp : Stamp) :
    stamp.view.touched touch = some (stamp.drag touch).view := by
  cases inside : stamp.view.frame.contains touch.previousLocation with
  | true =>
      rw [UIImageView.touched_of_contains inside, setFrame_of_contains inside]
  | false =>
      rw [UIImageView.touched_of_not_contains inside,
        drag_of_not_contains inside]

end Stamp

/-! ## The automatic picture -/

structure AutomaticPicture where
  ratio : CGFloat
  hige : UIImage
  faces : List CGRect

/-- The base image and one stamp for each face. -/
def AutomaticPicture.layers (base : UIImage) (picture : AutomaticPicture) :
    List Drawing :=
  { image := base, rect := base.fullRect } ::
    picture.faces.map fun rect =>
      { image := picture.hige
        rect := EditViewController.autoStampRect picture.ratio rect }

/-! ## The editor as a total machine -/

structure Editing where
  mode : EditMode
  slider : CGFloat
  picture : AutomaticPicture
  stamps : List Stamp

namespace Editing

inductive Action where
  | enter (mode : EditMode)
  | slide (value : CGFloat)
  | select (image : UIImage)
  | drag (touches : List UITouch)
  | record (face : Option CGRect)

def dragAll (stamps : List Stamp) (touch : UITouch) : List Stamp :=
  stamps.map (Stamp.drag touch)

theorem dragAll_factors {stamps : List Stamp} {touch : UITouch} :
    (dragAll stamps touch).map Stamp.factor = stamps.map Stamp.factor := by
  rw [dragAll, List.map_map]
  rfl

theorem foldl_dragAll_factors (touches : List UITouch) (stamps : List Stamp) :
    (touches.foldl dragAll stamps).map Stamp.factor =
      stamps.map Stamp.factor := by
  induction touches generalizing stamps with
  | nil => rfl
  | cons touch touches induction =>
      rw [List.foldl_cons, induction, dragAll_factors]

theorem length_foldl_dragAll (touches : List UITouch) (stamps : List Stamp) :
    (touches.foldl dragAll stamps).length = stamps.length := by
  rw [← List.length_map (f := Stamp.factor), foldl_dragAll_factors,
    List.length_map]

/-- New stamps appear at `center`. -/
def apply (center : CGPoint) (editing : Editing) : Action → Editing
  | .enter mode => { editing with mode := mode, slider := 1 / 2 }
  | .slide value =>
      match editing.mode with
      | .automatic =>
          { editing with
            slider := value
            picture := { editing.picture with ratio := value * 2 } }
      | .manual =>
          { editing with
            slider := value
            stamps := editing.stamps.map (Stamp.resize (value * 2)) }
  | .select image =>
      match editing.mode with
      | .automatic =>
          { editing with picture := { editing.picture with hige := image } }
      | .manual =>
          { editing with stamps := editing.stamps ++ [.new image center] }
  | .drag touches =>
      { editing with stamps := touches.foldl dragAll editing.stamps }
  | .record face =>
      { editing with
        picture :=
          { editing.picture with
            faces := editing.picture.faces ++ face.toList } }

end Editing

end HigeMaster
