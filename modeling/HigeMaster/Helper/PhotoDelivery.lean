import HigeMaster.CallbackSlot
import HigeMaster.EventRun
import HigeMaster.Helper.CameraHelper

/-!
# Delivery of captured photos

A run of the camera helper interleaves calls of `takePhoto` with the delegate
callbacks of the captures they start.  The calls are numbered from zero; call
`i` brings completion `i` and starts capture `i`.  The helper is a router with
one callback slot, so it delivers correctly exactly when every photo belongs
to the latest call.
-/

namespace HigeMaster

namespace PhotoDelivery

open CallbackSlot (Delivery)
open CameraHelper (photoImage)

inductive Event where
  | takePhoto
  | photoOutput (capture : ℕ) (photo : AVCapturePhoto)
      (error : Option AVError)

/-- The helper with the number of calls so far and the completions it has
invoked, each with the capture whose photo it was given. -/
structure State where
  helper : CameraHelper ℕ
  calls : ℕ
  invocations : List (Delivery UIImage)

def State.initial : State :=
  { helper := { imageOutput := { identity := 0 }, completion := none }
    calls := 0
    invocations := [] }

section Step

variable (decode : Data → Option UIImage)

def step (state : State) : Event → Option State
  | .takePhoto =>
      some
        { state with
          helper := (state.helper.takePhoto state.calls).1
          calls := state.calls + 1 }
  | .photoOutput capture photo error => do
      match ← state.helper.photoOutput decode photo error with
      | none => return state
      | some call =>
          return {
            state with
            invocations := state.invocations ++
              [{ callback := call.completion
                 source := capture
                 payload := call.image }] }

/-- Capture `capture` succeeded with data that shows `image`. -/
def Succeeded (events : List Event) (capture : ℕ) (image : UIImage) : Prop :=
  ∃ photo error, .photoOutput capture photo error ∈ events ∧
    photoImage decode photo error = some image

/-- The data of every photo that arrives is that of an image. -/
def Decodes (events : List Event) : Prop :=
  ∀ capture photo data, .photoOutput capture photo none ∈ events →
    photo.fileDataRepresentation = some data →
      ∃ image, decode data = some image

theorem Decodes.tail {decode : Data → Option UIImage} {event : Event}
    {events : List Event} (decodes : Decodes decode (event :: events)) :
    Decodes decode events := by
  intro capture photo data member represented
  exact decodes capture photo data (List.mem_cons_of_mem event member)
    represented

end Step

/-- The number of photos asked for. -/
def calls (events : List Event) : ℕ :=
  events.countP fun event =>
    match event with
    | .takePhoto => true
    | .photoOutput _ _ _ => false

/-- Every callback belongs to a capture that was started before, and no
capture has two callbacks. -/
def OneCallbackPerCapture (events : List Event) : Prop :=
  ∀ earlier capture photo error later,
    events = earlier ++ .photoOutput capture photo error :: later →
      capture < calls earlier ∧
        ∀ otherPhoto otherError,
          .photoOutput capture otherPhoto otherError ∉ earlier

/-- Every completion is invoked exactly once with the photo of its own
capture if that capture succeeded, and never otherwise. -/
def Delivers (decode : Data → Option UIImage) (events : List Event)
    (invocations : List (Delivery UIImage)) : Prop :=
  ∀ index,
    (∀ image, Succeeded decode events index image →
      invocations.filter (fun call => call.callback = index) =
        [{ callback := index, source := index, payload := image }]) ∧
    ((∀ image, ¬Succeeded decode events index image) →
      invocations.filter (fun call => call.callback = index) = [])

/-- Whenever a capture succeeds with data, no photo has been asked for since
that capture was started. -/
def SuccessesAreLatest (events : List Event) : Prop :=
  ∀ earlier capture photo later,
    events = earlier ++ .photoOutput capture photo none :: later →
      photo.fileDataRepresentation.isSome = true →
        capture + 1 = calls earlier

/-! ## The helper as a router -/

section Router

variable (decode : Data → Option UIImage)

/-- What an event means to a router. -/
def toRouter : Event → CallbackSlot.Event UIImage
  | .takePhoto => .request
  | .photoOutput capture photo error =>
      .reply capture (photoImage decode photo error)

theorem requests_map_toRouter (events : List Event) :
    CallbackSlot.requests (events.map (toRouter decode)) = calls events := by
  rw [CallbackSlot.requests, calls, List.countP_map]
  congr 1
  funext event
  cases event <;> rfl

theorem map_toRouter_eq_append_reply {events : List Event} {capture : ℕ}
    {payload : Option UIImage} {before after : List (CallbackSlot.Event UIImage)} :
    events.map (toRouter decode) = before ++ .reply capture payload :: after ↔
      ∃ earlier photo error later,
        events = earlier ++ .photoOutput capture photo error :: later ∧
          earlier.map (toRouter decode) = before ∧
          photoImage decode photo error = payload ∧
          later.map (toRouter decode) = after := by
  constructor
  · intro equality
    obtain ⟨earlier, rest, rfl, sameBefore, sameRest⟩ :=
      List.map_eq_append_iff.mp equality
    obtain ⟨event, later, rfl, sameEvent, sameAfter⟩ :=
      List.map_eq_cons_iff.mp sameRest
    cases event with
    | takePhoto => simp [toRouter] at sameEvent
    | photoOutput other photo error =>
        simp only [toRouter, CallbackSlot.Event.reply.injEq] at sameEvent
        obtain ⟨rfl, samePayload⟩ := sameEvent
        exact ⟨earlier, photo, error, later, rfl, sameBefore, samePayload,
          sameAfter⟩
  · intro given
    rcases given with ⟨earlier, photo, error, later, rfl, rfl, rfl, rfl⟩
    simp [toRouter]

theorem reply_mem_map_toRouter {events : List Event} {capture : ℕ}
    {payload : Option UIImage} :
    .reply capture payload ∈ events.map (toRouter decode) ↔
      ∃ photo error, .photoOutput capture photo error ∈ events ∧
        photoImage decode photo error = payload := by
  rw [List.mem_map]
  constructor
  · intro given
    rcases given with ⟨event, member, meaning⟩
    cases event with
    | takePhoto => simp [toRouter] at meaning
    | photoOutput other photo error =>
        simp only [toRouter, CallbackSlot.Event.reply.injEq] at meaning
        obtain ⟨rfl, samePayload⟩ := meaning
        exact ⟨photo, error, member, samePayload⟩
  · intro given
    rcases given with ⟨photo, error, member, rfl⟩
    exact ⟨_, member, rfl⟩

theorem protocol_map_toRouter {events : List Event}
    (oneCallback : OneCallbackPerCapture events) :
    CallbackSlot.Protocol (events.map (toRouter decode)) := by
  intro before capture payload after equality
  obtain ⟨earlier, photo, error, later, rfl, rfl, _, _⟩ :=
    (map_toRouter_eq_append_reply decode).mp equality
  obtain ⟨started, fresh⟩ := oneCallback earlier capture photo error later rfl
  rw [requests_map_toRouter]
  refine ⟨started, ?_⟩
  intro other member
  obtain ⟨otherPhoto, otherError, answered, _⟩ :=
    (reply_mem_map_toRouter decode).mp member
  exact fresh otherPhoto otherError answered

theorem delivers_iff_exactlyOnce {events : List Event}
    {invocations : List (Delivery UIImage)} :
    Delivers decode events invocations ↔
      CallbackSlot.ExactlyOnce (events.map (toRouter decode)) invocations := by
  simp only [Delivers, CallbackSlot.ExactlyOnce, reply_mem_map_toRouter,
    Succeeded]

variable {decode}

theorem answersLatest_map_toRouter {events : List Event}
    (decodes : Decodes decode events) :
    CallbackSlot.AnswersLatest (events.map (toRouter decode)) ↔
      SuccessesAreLatest events := by
  constructor
  · intro latest earlier capture photo later equality present
    obtain ⟨data, represented⟩ := Option.isSome_iff_exists.mp present
    obtain ⟨image, decoded⟩ := decodes capture photo data
      (by rw [equality]; simp) represented
    have shown : photoImage decode photo none = some image := by
      simp [photoImage, represented, decoded]
    have counted := latest _ capture image _
      ((map_toRouter_eq_append_reply decode).mpr
        ⟨earlier, photo, none, later, equality, rfl, shown, rfl⟩)
    rwa [requests_map_toRouter] at counted
  · intro latest before capture image after equality
    obtain ⟨earlier, photo, error, later, split, rfl, shown, _⟩ :=
      (map_toRouter_eq_append_reply decode).mp equality
    rw [requests_map_toRouter]
    cases error with
    | some error => simp [photoImage] at shown
    | none =>
        apply latest earlier capture photo later split
        simp only [photoImage, Option.bind_eq_some_iff] at shown
        obtain ⟨data, represented, _⟩ := shown
        rw [represented]
        rfl

/-- The slot of the helper holds the completion of the latest call. -/
def SlotHoldsLatest (state : State) : Prop :=
  state.calls ≠ 0 → state.helper.completion = some (state.calls - 1)

/-- A callback invokes the remembered completion if it brings a photo. -/
theorem step_photoOutput {state : State} {capture : ℕ} {photo : AVCapturePhoto}
    {error : Option AVError} {events : List Event}
    (decodes : Decodes decode (.photoOutput capture photo error :: events))
    (slot : SlotHoldsLatest state) (started : state.calls ≠ 0) :
    step decode state (.photoOutput capture photo error) =
      some
        { state with
          invocations := state.invocations ++
            (photoImage decode photo error).toList.map fun image =>
              { callback := state.calls - 1
                source := capture
                payload := image } } := by
  cases shown : photoImage decode photo error with
  | some image =>
      have called := CameraHelper.photoOutput_of_image shown (slot started)
      simp [step, called]
  | none =>
      have failed :
          error.isSome = true ∨ photo.fileDataRepresentation = none := by
        cases error with
        | some error => exact .inl rfl
        | none =>
            right
            cases represented : photo.fileDataRepresentation with
            | none => rfl
            | some data =>
                obtain ⟨image, decoded⟩ :=
                  decodes capture photo data List.mem_cons_self represented
                simp [photoImage, represented, decoded] at shown
      have silent : state.helper.photoOutput decode photo error = some none :=
        CameraHelper.photoOutput_of_failure failed
      simp [step, silent]

/-- The helper behaves as the router with one slot. -/
theorem run_eq_slotDeliveries {events : List Event} {state : State}
    (decodes : Decodes decode events) (slot : SlotHoldsLatest state)
    (started : ∀ earlier capture photo error later,
      events = earlier ++ .photoOutput capture photo error :: later →
        capture < state.calls + calls earlier) :
    ∃ final, EventRun.run (step decode) state events = some final ∧
      final.invocations = state.invocations ++
        CallbackSlot.slotDeliveries state.calls
          (events.map (toRouter decode)) := by
  induction events generalizing state with
  | nil =>
      refine ⟨state, rfl, ?_⟩
      simp [CallbackSlot.slotDeliveries]
  | cons event events induction =>
      cases event with
      | takePhoto =>
          let next : State :=
            { state with
              helper := (state.helper.takePhoto state.calls).1
              calls := state.calls + 1 }
          have nextSlot : SlotHoldsLatest next := by
            intro _
            rfl
          obtain ⟨final, completed, delivered⟩ :=
            induction decodes.tail nextSlot (by
              intro earlier capture photo error later equality
              have bound := started (.takePhoto :: earlier) capture photo
                error later (by rw [equality]; rfl)
              simp only [calls, List.countP_cons_of_pos] at bound
              simp only [next, calls]
              omega)
          refine ⟨final, ?_, delivered⟩
          exact EventRun.run_cons_eq_some.mpr ⟨next, rfl, completed⟩
      | photoOutput capture photo error =>
          have bound := started [] capture photo error events rfl
          have some_call : state.calls ≠ 0 := by
            simp only [calls, List.countP_nil] at bound
            omega
          let next : State :=
            { state with
              invocations := state.invocations ++
                (photoImage decode photo error).toList.map fun image =>
                  { callback := state.calls - 1
                    source := capture
                    payload := image } }
          have taken : step decode state (.photoOutput capture photo error) =
              some next :=
            step_photoOutput decodes slot some_call
          have nextSlot : SlotHoldsLatest next := slot
          obtain ⟨final, completed, delivered⟩ :=
            induction decodes.tail nextSlot (by
              intro earlier other otherPhoto otherError later equality
              have later_bound := started
                (.photoOutput capture photo error :: earlier) other otherPhoto
                otherError later (by rw [equality]; rfl)
              simpa [next, calls] using later_bound)
          refine ⟨final, EventRun.run_cons_eq_some.mpr
            ⟨next, taken, completed⟩, ?_⟩
          rw [delivered]
          cases shown : photoImage decode photo error with
          | none =>
              simp [next, toRouter, shown, CallbackSlot.slotDeliveries]
          | some image =>
              simp [next, toRouter, shown, CallbackSlot.slotDeliveries]

end Router

/-- The helper delivers every photo to the right completion, once, exactly
when every photo that arrives belongs to the latest call of `takePhoto`. -/
theorem takePhoto_delivers_iff {decode : Data → Option UIImage}
    {events : List Event} (decodes : Decodes decode events)
    (oneCallback : OneCallbackPerCapture events) :
    ∃ final, EventRun.run (step decode) .initial events = some final ∧
      (Delivers decode events final.invocations ↔
        SuccessesAreLatest events) := by
  have started : ∀ earlier capture photo error later,
      events = earlier ++ .photoOutput capture photo error :: later →
        capture < State.initial.calls + calls earlier := by
    intro earlier capture photo error later equality
    have bound := (oneCallback earlier capture photo error later equality).1
    simpa [State.initial] using bound
  have emptySlot : SlotHoldsLatest .initial := fun made => absurd rfl made
  obtain ⟨final, completed, delivered⟩ :=
    run_eq_slotDeliveries decodes emptySlot started
  refine ⟨final, completed, ?_⟩
  have invocations : final.invocations =
      CallbackSlot.slotDeliveries 0 (events.map (toRouter decode)) := by
    simpa [State.initial] using delivered
  rw [delivers_iff_exactlyOnce, invocations,
    CallbackSlot.exactlyOnce_slotDeliveries_iff
      (protocol_map_toRouter decode oneCallback),
    answersLatest_map_toRouter decodes]

/-- Two photos are asked for before the first one arrives. -/
def overlappingCaptures : List Event :=
  [.takePhoto, .takePhoto,
    .photoOutput 0 { fileDataRepresentation := some onePixelFile } none,
    .photoOutput 1 { fileDataRepresentation := some onePixelFile } none]

theorem overlappingCaptures_oneCallback :
    OneCallbackPerCapture overlappingCaptures := by
  intro earlier capture photo error later equality
  rcases earlier with _ | ⟨first, _ | ⟨second, _ | ⟨third, _ | ⟨fourth, rest⟩⟩⟩⟩
  all_goals simp [overlappingCaptures] at equality
  · obtain ⟨rfl, rfl, ⟨rfl, _, _⟩, _⟩ := equality
    simp [calls]
  · obtain ⟨rfl, rfl, rfl, ⟨rfl, _, _⟩, _⟩ := equality
    simp [calls]

/-- The first completion is lost and the second one gets both photos. -/
theorem overlappingCaptures_misdelivered :
    Decodes decodeOnePixel overlappingCaptures ∧
      OneCallbackPerCapture overlappingCaptures ∧
      ∃ final,
        EventRun.run (step decodeOnePixel) .initial overlappingCaptures =
            some final ∧
          ¬Delivers decodeOnePixel overlappingCaptures final.invocations := by
  refine ⟨?_, overlappingCaptures_oneCallback, _, rfl, ?_⟩
  · intro capture photo data member represented
    simp only [overlappingCaptures, List.mem_cons, reduceCtorEq,
      Event.photoOutput.injEq, and_true, List.not_mem_nil, or_false, false_or]
      at member
    rcases member with ⟨_, rfl⟩ | ⟨_, rfl⟩
    all_goals
      cases represented
      exact ⟨UIImage.onePixel, rfl⟩
  · intro delivers
    have succeeded : Succeeded decodeOnePixel overlappingCaptures 0
        UIImage.onePixel :=
      ⟨{ fileDataRepresentation := some onePixelFile }, none,
        by simp [overlappingCaptures], rfl⟩
    have once := (delivers 0).1 UIImage.onePixel succeeded
    simp [State.initial] at once

/-- A failed capture may overlap the next one. -/
theorem takePhoto_delivers_iff_failedFirst :
    ∃ final,
      EventRun.run (step decodeOnePixel) .initial
          [.takePhoto, .takePhoto,
            .photoOutput 0 { fileDataRepresentation := none } none,
            .photoOutput 1 { fileDataRepresentation := some onePixelFile }
              none] =
        some final ∧
      (Delivers decodeOnePixel
          [.takePhoto, .takePhoto,
            .photoOutput 0 { fileDataRepresentation := none } none,
            .photoOutput 1 { fileDataRepresentation := some onePixelFile }
              none]
          final.invocations ↔
        SuccessesAreLatest
          [.takePhoto, .takePhoto,
            .photoOutput 0 { fileDataRepresentation := none } none,
            .photoOutput 1 { fileDataRepresentation := some onePixelFile }
              none]) := by
  apply takePhoto_delivers_iff
  · intro capture photo data member represented
    simp only [List.mem_cons, reduceCtorEq, Event.photoOutput.injEq, and_true,
      List.not_mem_nil, or_false, false_or] at member
    rcases member with ⟨_, rfl⟩ | ⟨_, rfl⟩
    · cases represented
    · cases represented
      exact ⟨UIImage.onePixel, rfl⟩
  · intro earlier capture photo error later equality
    rcases earlier with
      _ | ⟨first, _ | ⟨second, _ | ⟨third, _ | ⟨fourth, rest⟩⟩⟩⟩
    all_goals simp at equality
    · obtain ⟨rfl, rfl, ⟨rfl, _, _⟩, _⟩ := equality
      simp [calls]
    · obtain ⟨rfl, rfl, rfl, ⟨rfl, _, _⟩, _⟩ := equality
      simp [calls]

end PhotoDelivery

end HigeMaster
