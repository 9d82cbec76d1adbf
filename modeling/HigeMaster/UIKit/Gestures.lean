import HigeMaster.UIKit.Controls

/-!
# Gestures

A gesture recognizer calls its target again and again while a gesture goes on,
each time with its state and what it has measured since the gesture began.  A
complete gesture begins, changes at least once, and ends or is cancelled with
what its last change measured; a tap is recognized at once.
-/

namespace HigeMaster

open Geometry

inductive UIGestureRecognizerState where
  | possible
  | began
  | changed
  | ended
  | cancelled
  | failed
  deriving DecidableEq

structure UITapGestureRecognizer where
  state : UIGestureRecognizerState

structure UIPinchGestureRecognizer where
  state : UIGestureRecognizerState
  scale : CGFloat

structure UILongPressGestureRecognizer where
  state : UIGestureRecognizerState

structure UIPanGestureRecognizer where
  state : UIGestureRecognizerState
  /-- The translation in the coordinates of the view that the recognizer is
  attached to, if there is one. -/
  translationInView : Option CGPoint

inductive UIGestureRecognizer where
  | tap (recognizer : UITapGestureRecognizer)
  | pinch (recognizer : UIPinchGestureRecognizer)
  | longPress (recognizer : UILongPressGestureRecognizer)
  | pan (recognizer : UIPanGestureRecognizer)

/-! ## Complete gestures -/

inductive GestureEnding where
  | ended
  | cancelled
  deriving DecidableEq

def GestureEnding.state : GestureEnding → UIGestureRecognizerState
  | .ended => .ended
  | .cancelled => .cancelled

/-- A continuous gesture measures `first` when it begins, then `steps`, and
`last` with its last change and when it ends. -/
structure Course (α : Type) where
  first : α
  steps : List α
  last : α
  ending : GestureEnding

namespace Course

variable {α : Type}

/-- The states in which the recognizer calls its target, with what it has
measured. -/
def calls (course : Course α) : List (UIGestureRecognizerState × α) :=
  (.began, course.first) ::
    (course.steps ++ [course.last]).map (fun measured => (.changed, measured)) ++
      [(course.ending.state, course.last)]

end Course

inductive Gesture where
  | tap
  | pan (course : Course CGPoint)
  | pinch (course : Course CGFloat)

namespace Gesture

def panCall (call : UIGestureRecognizerState × CGPoint) : UIGestureRecognizer :=
  .pan { state := call.1, translationInView := some call.2 }

def pinchCall (call : UIGestureRecognizerState × CGFloat) :
    UIGestureRecognizer :=
  .pinch { state := call.1, scale := call.2 }

/-- The calls of a complete gesture on the view that its recognizer is
attached to. -/
def calls : Gesture → List UIGestureRecognizer
  | .tap => [.tap { state := .ended }]
  | .pan course => course.calls.map panCall
  | .pinch course => course.calls.map pinchCall

end Gesture

end HigeMaster
