import HigeMaster.EventRun
import HigeMaster.EventRun.Visits
import HigeMaster.EventRun.Refinement
import HigeMaster.EventRun.Components
import HigeMaster.CallbackSlot
import HigeMaster.Stacking
import HigeMaster.Sorting
import HigeMaster.GreedySelection
import HigeMaster.JaccardIndex
import HigeMaster.FloatingPoint
import HigeMaster.Strided
import HigeMaster.Loops
import HigeMaster.FloorWalk
import HigeMaster.Ownership
import HigeMaster.NestedText
import HigeMaster.Geometry.Rect
import HigeMaster.Geometry.Overlap
import HigeMaster.Geometry.Transform
import HigeMaster.Geometry.View
import HigeMaster.Geometry.Drag
import HigeMaster.Geometry.Orientation
import HigeMaster.UIKit.Image
import HigeMaster.UIKit.Controls
import HigeMaster.UIKit.Gestures
import HigeMaster.Vision.FaceLandmarks
import HigeMaster.AVFoundation.Session
import HigeMaster.Helper.CenterSquare
import HigeMaster.Helper.CameraHelper
import HigeMaster.Helper.PhotoDelivery
import HigeMaster.Extensions.GestureUIImageView
import HigeMaster.Extensions.GestureCoherence
import HigeMaster.Extensions.GestureMemory
import HigeMaster.Scenes.ViewController
import HigeMaster.Scenes.CameraSession
import HigeMaster.Scenes.CameraSwitch
import HigeMaster.Scenes.CameraReadiness
import HigeMaster.Scenes.PreviewLayers
import HigeMaster.Scenes.PreviewHandover
import HigeMaster.Scenes.EditViewController
import HigeMaster.Scenes.Mouth
import HigeMaster.Scenes.TouchedStamps
import HigeMaster.Scenes.Editing
import HigeMaster.Scenes.EditingRefinement
import HigeMaster.Scenes.EditorLoading
import HigeMaster.Scenes.StackingOrder
import HigeMaster.Scenes.EditorControls
import HigeMaster.Scenes.SliderCoherence
import HigeMaster.Scenes.AutomaticPicture
import HigeMaster.Scenes.ManualStamps
import HigeMaster.Scenes.StampDrag
import HigeMaster.Scenes.GrabbedStamp
import HigeMaster.Scenes.LipOrientation
import HigeMaster.Scenes.FaceDetection
import HigeMaster.Scenes.StampPlacement
import HigeMaster.Scenes.PreviewViewController
import HigeMaster.Scenes.Navigation
import HigeMaster.Scenes.Provenance
import HigeMaster.Scenes.Survival
import HigeMaster.CoreMLHelpers.Numbers
import HigeMaster.CoreMLHelpers.NonMaxSuppression
import HigeMaster.CoreMLHelpers.Suppression
import HigeMaster.CoreMLHelpers.MultiClassSuppression
import HigeMaster.CoreMLHelpers.IntersectionOverUnion
import HigeMaster.CoreMLHelpers.SuppressionInvariance
import HigeMaster.CoreMLHelpers.SuppressionClusters
import HigeMaster.CoreMLHelpers.Ranking
import HigeMaster.CoreMLHelpers.MultiArray
import HigeMaster.CoreMLHelpers.MultiArrayViews
import HigeMaster.CoreMLHelpers.RawBytes
import HigeMaster.CoreMLHelpers.RawBytesLayout
import HigeMaster.CoreMLHelpers.RawBytesRoundTrip
import HigeMaster.CoreMLHelpers.Description
import HigeMaster.CoreMLHelpers.PixelBuffers
import HigeMaster.CoreMLHelpers.PixelBufferOwnership
