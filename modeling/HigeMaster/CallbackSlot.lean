import Mathlib.Data.List.Basic
import Mathlib.Data.List.Infix

/-!
# Requests and replies through one callback slot

A client makes numbered requests, each with a callback of its own; the replies
arrive later, in any order, and a reply either carries a payload or reports a
failure.  `ownDeliveries` is what a router should do: it hands every payload
to the callback of the request it answers.  `slotDeliveries` is a router that
remembers one callback only, so every payload goes to the callback of the
latest request.  The two agree exactly when every payload answers the latest
request.
-/

namespace CallbackSlot

variable {π : Type*}

inductive Event (π : Type*) where
  | request
  | reply (id : ℕ) (payload : Option π)

/-- A payload handed to the callback of request `callback` although it is the
reply to request `source`, or rightly so if the two are the same. -/
structure Delivery (π : Type*) where
  callback : ℕ
  source : ℕ
  payload : π

namespace Event

def isRequest : Event π → Bool
  | .request => true
  | .reply _ _ => false

/-- The delivery that this event calls for. -/
def ownDelivery : Event π → Option (Delivery π)
  | .reply id (some payload) =>
      some { callback := id, source := id, payload := payload }
  | _ => none

end Event

/-- The number of requests made; they are numbered from zero. -/
def requests (events : List (Event π)) : ℕ :=
  events.countP Event.isRequest

/-- The deliveries of a router that knows every outstanding callback. -/
def ownDeliveries (events : List (Event π)) : List (Delivery π) :=
  events.filterMap Event.ownDelivery

/-- The deliveries of a router whose one slot holds the callback of the latest
request, after `made` requests. -/
def slotDeliveries (made : ℕ) : List (Event π) → List (Delivery π)
  | [] => []
  | .request :: events => slotDeliveries (made + 1) events
  | .reply _ none :: events => slotDeliveries made events
  | .reply id (some payload) :: events =>
      { callback := made - 1, source := id, payload := payload } ::
        slotDeliveries made events

/-- Every reply answers an earlier request, and no request is answered
twice. -/
def Protocol (events : List (Event π)) : Prop :=
  ∀ earlier id payload later,
    events = earlier ++ .reply id payload :: later →
      id < requests earlier ∧ ∀ other, .reply id other ∉ earlier

/-- Every payload answers the request made last before it arrives. -/
def AnswersLatest (events : List (Event π)) : Prop :=
  ∀ earlier id payload later,
    events = earlier ++ .reply id (some payload) :: later →
      id + 1 = requests earlier

/-- Each callback is invoked once, with the payload of its own request, if
that request was answered with a payload, and not at all otherwise. -/
def ExactlyOnce (events : List (Event π)) (deliveries : List (Delivery π)) :
    Prop :=
  ∀ id,
    (∀ payload, .reply id (some payload) ∈ events →
      deliveries.filter (fun delivery => delivery.callback = id) =
        [{ callback := id, source := id, payload := payload }]) ∧
    ((∀ payload, .reply id (some payload) ∉ events) →
      deliveries.filter (fun delivery => delivery.callback = id) = [])

@[simp] theorem requests_nil : requests ([] : List (Event π)) = 0 :=
  rfl

@[simp] theorem requests_request_cons (events : List (Event π)) :
    requests (.request :: events) = requests events + 1 := by
  simp [requests, List.countP_cons, Event.isRequest]

@[simp] theorem requests_reply_cons (id : ℕ) (payload : Option π)
    (events : List (Event π)) :
    requests (.reply id payload :: events) = requests events := by
  simp [requests, Event.isRequest]

theorem mem_ownDeliveries {events : List (Event π)} {delivery : Delivery π} :
    delivery ∈ ownDeliveries events ↔
      delivery.callback = delivery.source ∧
        .reply delivery.source (some delivery.payload) ∈ events := by
  simp only [ownDeliveries, List.mem_filterMap]
  constructor
  · intro given
    rcases given with ⟨event, member, called⟩
    cases event with
    | request => simp [Event.ownDelivery] at called
    | reply id payload =>
        cases payload with
        | none => simp [Event.ownDelivery] at called
        | some payload =>
            simp only [Event.ownDelivery, Option.some.injEq] at called
            subst called
            exact ⟨rfl, member⟩
  · intro given
    rcases given with ⟨own, member⟩
    refine ⟨_, member, ?_⟩
    simp only [Event.ownDelivery, Option.some.injEq]
    cases delivery
    simp only at own
    subst own
    rfl

/-- After `made` requests, every reply answers a request that was made before
it. -/
private def ProtocolFrom (made : ℕ) (events : List (Event π)) : Prop :=
  ∀ earlier id payload later,
    events = earlier ++ .reply id payload :: later →
      id < made + requests earlier

private def AnswersLatestFrom (made : ℕ) (events : List (Event π)) : Prop :=
  ∀ earlier id payload later,
    events = earlier ++ .reply id (some payload) :: later →
      id + 1 = made + requests earlier

private theorem answersLatestFrom_request {made : ℕ}
    {events : List (Event π)} :
    AnswersLatestFrom made (.request :: events) ↔
      AnswersLatestFrom (made + 1) events := by
  constructor
  · intro latest earlier id payload later equality
    have counted := latest (.request :: earlier) id payload later
      (by rw [equality]; rfl)
    rw [requests_request_cons] at counted
    omega
  · intro latest earlier id payload later equality
    cases earlier with
    | nil => simp at equality
    | cons first earlier =>
        simp only [List.cons_append, List.cons.injEq] at equality
        obtain ⟨rfl, equality⟩ := equality
        have counted := latest earlier id payload later equality
        rw [requests_request_cons]
        omega

private theorem answersLatestFrom_reply {made id : ℕ} {payload : Option π}
    {events : List (Event π)} :
    AnswersLatestFrom made (.reply id payload :: events) ↔
      (payload.isSome = true → id + 1 = made) ∧
        AnswersLatestFrom made events := by
  constructor
  · intro latest
    constructor
    · intro present
      obtain ⟨value, rfl⟩ := Option.isSome_iff_exists.mp present
      exact latest [] id value events rfl
    · intro earlier other value later equality
      have counted := latest (.reply id payload :: earlier) other value later
        (by rw [equality]; rfl)
      rw [requests_reply_cons] at counted
      exact counted
  · intro given earlier other value later equality
    rcases given with ⟨first, rest⟩
    cases earlier with
    | nil =>
        simp only [List.nil_append, List.cons.injEq, Event.reply.injEq]
          at equality
        obtain ⟨⟨rfl, rfl⟩, _⟩ := equality
        exact first rfl
    | cons head earlier =>
        simp only [List.cons_append, List.cons.injEq] at equality
        obtain ⟨rfl, equality⟩ := equality
        rw [requests_reply_cons]
        exact rest earlier other value later equality

private theorem protocolFrom_request {made : ℕ} {events : List (Event π)}
    (protocol : ProtocolFrom made (.request :: events)) :
    ProtocolFrom (made + 1) events := by
  intro earlier id payload later equality
  have bound := protocol (.request :: earlier) id payload later
    (by rw [equality]; rfl)
  rw [requests_request_cons] at bound
  omega

private theorem protocolFrom_reply {made id : ℕ} {payload : Option π}
    {events : List (Event π)}
    (protocol : ProtocolFrom made (.reply id payload :: events)) :
    id < made ∧ ProtocolFrom made events := by
  constructor
  · exact protocol [] id payload events rfl
  · intro earlier other value later equality
    have bound := protocol (.reply id payload :: earlier) other value later
      (by rw [equality]; rfl)
    rw [requests_reply_cons] at bound
    exact bound

/-- The slot misroutes no payload exactly when every payload answers the
latest request. -/
private theorem slotDeliveries_own_iff {made : ℕ} {events : List (Event π)}
    (protocol : ProtocolFrom made events) :
    (∀ delivery ∈ slotDeliveries made events,
      delivery.callback = delivery.source) ↔
        AnswersLatestFrom made events := by
  induction events generalizing made with
  | nil => simp [slotDeliveries, AnswersLatestFrom]
  | cons event events induction =>
      cases event with
      | request =>
          rw [slotDeliveries, answersLatestFrom_request]
          exact induction (protocolFrom_request protocol)
      | reply id payload =>
          obtain ⟨bound, rest⟩ := protocolFrom_reply protocol
          rw [answersLatestFrom_reply, ← induction rest]
          cases payload with
          | none => simp [slotDeliveries]
          | some payload =>
              have latest : made - 1 = id ↔ id + 1 = made := by omega
              simp [slotDeliveries, latest]

private theorem slotDeliveries_eq_own {made : ℕ} {events : List (Event π)}
    (latest : AnswersLatestFrom made events) :
    slotDeliveries made events = ownDeliveries events := by
  induction events generalizing made with
  | nil => rfl
  | cons event events induction =>
      cases event with
      | request =>
          rw [slotDeliveries, induction (answersLatestFrom_request.mp latest)]
          rfl
      | reply id payload =>
          obtain ⟨first, rest⟩ := answersLatestFrom_reply.mp latest
          cases payload with
          | none =>
              rw [slotDeliveries, induction rest]
              rfl
          | some payload =>
              have counted : made - 1 = id := by
                have same := first rfl
                omega
              rw [slotDeliveries, induction rest, counted]
              rfl

private theorem protocolFrom_zero {events : List (Event π)}
    (protocol : Protocol events) : ProtocolFrom 0 events := by
  intro earlier id payload later equality
  have bound := (protocol earlier id payload later equality).1
  omega

private theorem answersLatestFrom_zero {events : List (Event π)} :
    AnswersLatestFrom 0 events ↔ AnswersLatest events := by
  simp [AnswersLatestFrom, AnswersLatest]

/-- In a protocol run the router that knows all callbacks invokes each of them
exactly once. -/
theorem exactlyOnce_ownDeliveries {events : List (Event π)}
    (protocol : Protocol events) :
    ExactlyOnce events (ownDeliveries events) := by
  intro id
  constructor
  · intro payload member
    obtain ⟨earlier, later, rfl⟩ := List.append_of_mem member
    have before := (protocol earlier id _ later rfl).2
    have after : ∀ other, Event.reply id other ∉ later := by
      intro other later_member
      obtain ⟨middle, rest, rfl⟩ := List.append_of_mem later_member
      have fresh := (protocol
        (earlier ++ .reply id (some payload) :: middle) id other rest
        (by simp)).2 (some payload)
      simp at fresh
    have outside : ∀ part : List (Event π),
        (∀ other, Event.reply id other ∉ part) →
        (ownDeliveries part).filter (fun delivery => delivery.callback = id) =
          [] := by
      intro part absent
      rw [List.filter_eq_nil_iff]
      intro delivery delivered sameCallback
      obtain ⟨own, answered⟩ := mem_ownDeliveries.mp delivered
      have source : delivery.source = id := by
        rw [← own]
        exact of_decide_eq_true sameCallback
      rw [source] at answered
      exact absent _ answered
    have beforeEmpty := outside earlier before
    have afterEmpty := outside later after
    simp only [ownDeliveries] at beforeEmpty afterEmpty
    simp [ownDeliveries, Event.ownDelivery, beforeEmpty, afterEmpty]
  · intro absent
    rw [List.filter_eq_nil_iff]
    intro delivery delivered sameCallback
    obtain ⟨own, answered⟩ := mem_ownDeliveries.mp delivered
    have source : delivery.source = id := by
      rw [← own]
      exact of_decide_eq_true sameCallback
    rw [source] at answered
    exact absent _ answered

/-- One slot is enough exactly as long as every payload answers the latest
request. -/
theorem exactlyOnce_slotDeliveries_iff {events : List (Event π)}
    (protocol : Protocol events) :
    ExactlyOnce events (slotDeliveries 0 events) ↔ AnswersLatest events := by
  rw [← answersLatestFrom_zero]
  constructor
  · intro exactly
    apply (slotDeliveries_own_iff (protocolFrom_zero protocol)).mp
    intro delivery delivered
    have kept : delivery ∈ (slotDeliveries 0 events).filter
        (fun other => other.callback = delivery.callback) :=
      List.mem_filter.mpr ⟨delivered, by simp⟩
    by_cases answered : ∃ payload,
        Event.reply delivery.callback (some payload) ∈ events
    · obtain ⟨payload, member⟩ := answered
      rw [(exactly delivery.callback).1 payload member,
        List.mem_singleton] at kept
      exact (congrArg Delivery.source kept).symm
    · have absent := not_exists.mp answered
      rw [(exactly delivery.callback).2 absent] at kept
      exact absurd kept List.not_mem_nil
  · intro latest
    rw [slotDeliveries_eq_own latest]
    exact exactlyOnce_ownDeliveries protocol

end CallbackSlot
