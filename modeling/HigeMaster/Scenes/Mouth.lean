import HigeMaster.Scenes.EditViewController

/-!
# The mouth among the points of the lips

`putHige` reads four of the points that go around the outer lips: the middle
of the upper lip, the middle of the lower lip and one at either side.  They
determine the rectangle that it records.
-/

namespace HigeMaster

open Geometry

/-- The points that `putHige` reads. -/
structure Mouth where
  upper : CGPoint
  right : CGPoint
  lower : CGPoint
  left : CGPoint
  deriving DecidableEq

namespace Mouth

/-- These are the points of the mouth among the points of the lips. -/
structure Among (mouth : Mouth) (points : List CGPoint) : Prop where
  upper : points[(2 : ℕ)]? = some mouth.upper
  right : points[(5 : ℕ)]? = some mouth.right
  lower : points[(7 : ℕ)]? = some mouth.lower
  left : points[(9 : ℕ)]? = some mouth.left

/-- The signed rectangle of the mouth. -/
def rect (mouth : Mouth) : CGRect :=
  { origin :=
      { x := mouth.upper.x
        y := mouth.upper.y - (mouth.lower.y - mouth.upper.y) / 2 }
    size :=
      { width := mouth.right.x - mouth.left.x
        height := (mouth.lower.y - mouth.upper.y) / 2 } }

theorem exists_among {points : List CGPoint} (enough : 10 ≤ points.length) :
    ∃ mouth : Mouth, mouth.Among points := by
  have present (index : ℕ) (small : index < 10) :
      points[index]? = some (points.get ⟨index, small.trans_le enough⟩) :=
    List.getElem?_eq_getElem (small.trans_le enough)
  exact
    ⟨{ upper := _, right := _, lower := _, left := _ },
      { upper := present 2 (by decide)
        right := present 5 (by decide)
        lower := present 7 (by decide)
        left := present 9 (by decide) }⟩

theorem Among.mouthRect {mouth : Mouth} {points : List CGPoint}
    (among : mouth.Among points) :
    EditViewController.mouthRect points = some mouth.rect := by
  simp [EditViewController.mouthRect, among.upper, among.right, among.lower,
    among.left, rect]

end Mouth

namespace EditViewController

theorem exists_mouthRect_iff {points : List CGPoint} :
    (∃ rect, mouthRect points = some rect) ↔ 10 ≤ points.length := by
  constructor
  · intro given
    rcases given with ⟨rect, read⟩
    simp only [mouthRect, Option.bind_eq_bind, Option.bind_eq_some_iff]
      at read
    obtain ⟨_, _, point9, present, _⟩ := read
    obtain ⟨inside, _⟩ := List.getElem?_eq_some_iff.mp present
    exact inside
  · intro enough
    obtain ⟨mouth, among⟩ := Mouth.exists_among enough
    exact ⟨mouth.rect, among.mouthRect⟩

theorem length_lipPoints (image : UIImage) (mouse : VNFaceLandmarkRegion2D) :
    (lipPoints image mouse).length = mouse.normalizedPoints.length := by
  rw [lipPoints, List.length_map,
    VNFaceLandmarkRegion2D.length_pointsInImage]

end EditViewController

end HigeMaster
