import HigeMaster.UIKit.Image

/-!
# Face landmarks

Vision is given a raster and knows nothing about the orientation in which it
is stored.  It measures in the unit square with the origin at the lower left:
a face by its bounding box, and the points of a landmark relative to that box.
What it finds is not part of the program, so a detector is a parameter.
-/

namespace HigeMaster

open Geometry

structure VNFaceLandmarkRegion2D where
  faceBoundingBox : CGRect
  normalizedPoints : List CGPoint
  deriving DecidableEq

namespace VNFaceLandmarkRegion2D

/-- The points in the unit square of the raster. -/
def unitPoints (region : VNFaceLandmarkRegion2D) : List CGPoint :=
  region.normalizedPoints.map fun p =>
    { x := region.faceBoundingBox.origin.x +
        p.x * region.faceBoundingBox.size.width
      y := region.faceBoundingBox.origin.y +
        p.y * region.faceBoundingBox.size.height }

def pointsInImage (region : VNFaceLandmarkRegion2D) (imageSize : CGSize) :
    List CGPoint :=
  region.unitPoints.map fun p =>
    { x := p.x * imageSize.width, y := p.y * imageSize.height }

theorem length_pointsInImage (region : VNFaceLandmarkRegion2D)
    (imageSize : CGSize) :
    (region.pointsInImage imageSize).length =
      region.normalizedPoints.length := by
  rw [pointsInImage, unitPoints, List.length_map, List.length_map]

end VNFaceLandmarkRegion2D

structure VNFaceLandmarks2D where
  outerLips : Option VNFaceLandmarkRegion2D
  deriving DecidableEq

structure VNFaceObservation where
  landmarks : Option VNFaceLandmarks2D
  deriving DecidableEq

/-- The outer lips, if the face has landmarks and these have outer lips. -/
def VNFaceObservation.mouse (observation : VNFaceObservation) :
    Option VNFaceLandmarkRegion2D := do
  let landmarks ← observation.landmarks
  landmarks.outerLips

structure VNError where
  code : ℤ
  deriving DecidableEq

/-- What the completion handler of a request is called with. -/
structure VNCompletion where
  results : Option (List VNFaceObservation)
  error : Option VNError
  deriving DecidableEq

/-- How performing a request ends: whether its completion handler is called,
and whether `perform` throws. -/
structure VNOutcome where
  completion : Option VNCompletion
  thrown : Option VNError
  deriving DecidableEq

/-- `VNImageRequestHandler(cgImage:options:).perform` of a face landmarks
request. -/
abbrev VNFaceLandmarksDetector := CGImage → VNOutcome

end HigeMaster
