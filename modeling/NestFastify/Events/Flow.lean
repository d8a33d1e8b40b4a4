import NestFastify.Messaging.ConsumerSteps
import NestFastify.Outbox.Progress

/-!
# From the outbox to the consumers

The relays of `Outbox` and the broker with its consumers of `Messaging` as one system. The publish
that a drain awaits puts its message on the broker in the step that executes it, whether or not
the drain hears of it. Besides, `EventPublisherService.publish` is called directly, as the
notifications controller does.

A message id is a random UUID, or one that the caller of `enqueue` has made for the event; a run
is over ids that are new (`Fresh`). Its invariant is `Linked`: what is on the broker under the id
of a row is the event of that row.
-/

namespace NestFastify.Events

open Messaging (Published MessagingState Machine Code Point codeMachine pointMachine EventPayload)
open Outbox (OutboxState RelayAction RelayPoint OutboxEvent)
open Transition (Reaches)

/-! ## The system -/

/-- The relays of the workers of a deployment. -/
def relays (D : Messaging.Deployment) : Outbox.Deployment where
  z := D.z
  eventsExchange := D.ex.events
  maxAttempts := D.env.RABBITMQ_OUTBOX_MAX_ATTEMPTS
  pollMs _ := D.env.RABBITMQ_OUTBOX_POLL_MS
  batch _ := D.env.RABBITMQ_OUTBOX_BATCH

structure FlowState (P : Type) where
  outbox : OutboxState
  broker : MessagingState P

/-- An empty outbox with `n` relays, and an empty broker. -/
def FlowState.init (P : Type) (n : ℕ) : FlowState P := ⟨.init n, .init P⟩

inductive FlowAction where
  | outbox (a : RelayAction)
  | broker (a : Messaging.Action)

/-- What the step of a relay does to the broker: a publish that is executed. -/
def handedOver (s : OutboxState) : RelayAction → Option Messaging.Action
  | .perform i outcome _ =>
    match s.awaited i, outcome with
    | some (.publish routingKey payload messageId requestId), .resolves
    | some (.publish routingKey payload messageId requestId), .unanswered _ =>
      some (.publish routingKey payload messageId requestId)
    | _, _ => none
  | _ => none

section System

variable {P : Type} (D : Messaging.Deployment) (M : Machine P) (s : FlowState P)

/-- The broker once the step of a relay has reached it. A payload that fails its contract is not
sent. -/
def receive (b : MessagingState P) : Option Messaging.Action → MessagingState P
  | some a => (D.step M b a).getD b
  | none => b

def step : FlowAction → Option (FlowState P)
  | .outbox a => ((relays D).step s.outbox a).map fun o =>
    ⟨o, receive D M s.broker (handedOver s.outbox a)⟩
  | .broker a => (D.step M s.broker a).map fun b => { s with broker := b }

/-- The ids on the broker, and those of the rows. -/
def FlowState.sentIds : List String := s.broker.published.map Published.messageId

def FlowState.rowIds : List String := s.outbox.db.rows.map OutboxEvent.messageId

/-- A message that enters the system has an id of its own. -/
def Fresh : FlowAction → Prop
  | .outbox (.enqueue data _ randomUUID _) => data.messageId.getD randomUUID ∉ s.sentIds
  | .broker (.publish _ _ messageId _) => messageId ∉ s.sentIds ∧ messageId ∉ s.rowIds
  | _ => True

instance (s : FlowState P) (a : FlowAction) : Decidable (Fresh s a) :=
  match a with
  | .outbox (.enqueue ..) => inferInstanceAs (Decidable (_ ∉ _))
  | .broker (.publish ..) => inferInstanceAs (Decidable (_ ∧ _))
  | .outbox (.start _) | .outbox (.perform ..) | .outbox (.finish _) | .outbox (.timeout _)
  | .outbox (.crash _) | .outbox (.tick _) | .broker (.deliver ..) | .broker (.perform ..)
  | .broker (.overtake ..) | .broker (.settle _) | .broker (.crash _) | .broker (.stray ..)
  | .broker (.expire _) | .broker (.tick _) =>
    isTrue trivial

end System

/-! ## From points to code -/

section ToCode

variable {D : Messaging.Deployment} {s : FlowState Point}

def FlowState.toCode (D : Messaging.Deployment) (s : FlowState Point) : FlowState Code :=
  ⟨s.outbox, s.broker.toCode D⟩

theorem receive_toCode (b : MessagingState Point) (a : Option Messaging.Action) :
    receive D codeMachine (b.toCode D) a = (receive D pointMachine b a).toCode D := by
  match a with
  | none => rfl
  | some a =>
    show (D.step codeMachine (b.toCode D) a).getD (b.toCode D) = _
    rw [Messaging.Deployment.step_toCode, Option.getD_map]
    rfl

theorem step_toCode (a : FlowAction) : step D codeMachine (s.toCode D) a =
    (step D pointMachine s a).map (FlowState.toCode D) := by
  match a with
  | .outbox a =>
    simp only [step, Option.map_map]
    refine congrArg (Option.map · _) (funext fun o => ?_)
    exact congrArg (FlowState.mk o) (receive_toCode s.broker _)
  | .broker a =>
    simp only [step, Option.map_map]
    show (D.step codeMachine (s.broker.toCode D) a).map _ = _
    rw [Messaging.Deployment.step_toCode, Option.map_map]
    rfl

theorem reaches_points {n : ℕ} {ok : FlowState Code → FlowAction → Prop} {t : FlowState Code}
    (h : Reaches (step D codeMachine) ok (.init Code n) t) :
    ∃ s, Reaches (step D pointMachine) (fun u a => ok (u.toCode D) a) (.init Point n) s ∧
      s.toCode D = t :=
  Reaches.lift (fun _ a => step_toCode a) h

end ToCode

/-! ## A run is a run of each part -/

section Parts

variable {P : Type} {D : Messaging.Deployment} {M : Machine P} {s t : FlowState P}
  {ok : FlowState P → FlowAction → Prop}

theorem outbox_of_reaches (h : Reaches (step D M) ok s t) :
    Reaches (relays D).step (fun _ _ => True) s.outbox t.outbox := by
  refine h.project fun u a v _ hstep => ?_
  match a with
  | .outbox a =>
    obtain ⟨o, ho, rfl⟩ := Option.map_eq_some_iff.mp hstep
    exact Or.inr ⟨a, trivial, ho⟩
  | .broker a =>
    obtain ⟨b, -, rfl⟩ := Option.map_eq_some_iff.mp hstep
    exact Or.inl rfl

theorem broker_of_reaches {ok' : MessagingState P → Messaging.Action → Prop}
    (hown : ∀ u a, ok u (.broker a) → ok' u.broker a)
    (hhanded : ∀ u a b, ok u (.outbox a) → handedOver u.outbox a = some b → ok' u.broker b)
    (h : Reaches (step D M) ok s t) : Reaches (D.step M) ok' s.broker t.broker := by
  refine h.project fun u a v hok hstep => ?_
  match a with
  | .outbox a =>
    obtain ⟨o, -, rfl⟩ := Option.map_eq_some_iff.mp hstep
    match hhand : handedOver u.outbox a with
    | none => exact Or.inl rfl
    | some b =>
      match hmove : D.step M u.broker b with
      | none => exact Or.inl (by simp [receive, hmove])
      | some b' => exact Or.inr ⟨b, hhanded u a b hok hhand, by simp [receive, hmove]⟩
  | .broker a =>
    obtain ⟨b, hb, rfl⟩ := Option.map_eq_some_iff.mp hstep
    exact Or.inr ⟨a, hown u a hok, hb⟩

end Parts

end NestFastify.Events
