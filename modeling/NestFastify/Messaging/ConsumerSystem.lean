import NestFastify.Foundation.Transition
import NestFastify.Messaging.Consume
import NestFastify.Redis.Server

/-!
# Consumers over one broker and one Redis

Publishers, the queues of the topology and any number of `MessageConsumer.handle` calls, one
for each unacked delivery. A step publishes, delivers, executes a call of one `handle`,
settles a delivery, crashes a worker, lets a message of a retry tier expire, or lets time
pass. A call that rejects may have had its effect all the same, and a publish that nobody awaits
any more (`Stray`) may still reach the broker.

The system is stated over a `Machine`, which says how a running `handle` is represented: by
its code (`codeMachine`, the system itself), or by the point it is suspended at
(`pointMachine`). `step_toCode` says that the two move in step.
-/

namespace NestFastify.Messaging

open Amqp
open Redis (Server)

/-! ## Deployments -/

/-- An environment and a list of subscriptions; `numberText` is `String(x)`. -/
structure Deployment where
  z : Zod
  numberText : JsNumber → String
  env : Config.Env
  subscriptions : List Subscription

namespace Deployment

variable (D : Deployment)

def ex : Exchanges := exchangeNames D.env.RABBITMQ_EXCHANGE

def consumer : MessageConsumer := MessageConsumer.ofEnv D.env

def retryDelaysMs : List ℕ := D.env.RABBITMQ_RETRY_DELAYS_MS.map PNat.val

def deliveryLimit : ℕ := D.env.RABBITMQ_QUORUM_DELIVERY_LIMIT

def topology : Topology :=
  buildTopology D.env.RABBITMQ_EXCHANGE D.subscriptions D.retryDelaysMs D.deliveryLimit

end Deployment

/-! ## States -/

/-- A message in a queue. `deliveryCount` is the x-delivery-count of the broker; `crashes` and
`failedRepublishes` record what the message has been through in its queue. -/
structure Letter where
  queue : String
  routingKey : String
  message : ConsumeMessage
  deliveryCount : ℕ
  crashes : ℕ
  failedRepublishes : ℕ

def Letter.messageId (l : Letter) : String := l.message.messageId.getD ""

/-- An unacked delivery, with `code` for what is left of `handle`. Recorded besides: since when
it holds the processing lock, and whether its retry or DLQ copy has been published. -/
structure Delivery (P : Type) where
  subscription : Subscription
  now : String
  code : P
  lockedAt : Option ℕ
  republished : Bool

/-- A message leaves its queue for good when it is acked or moved to another queue. -/
inductive Place (P : Type) where
  | ready
  | unacked (d : Delivery P)
  | gone

structure Copy (P : Type) extends Letter where
  place : Place P

/-- A message `EventPublisherService.publish` has put on the broker. -/
structure Published where
  messageId : String
  event : String
  payload : EventPayload
deriving DecidableEq

/-- A call of a subscriber's `fn`. -/
structure FnCall where
  subscription : Subscription
  messageId : String
  payload : EventPayload
deriving DecidableEq

inductive LogEntry where
  | started (call : FnCall)
  | resolved (call : FnCall)
  | rejected (call : FnCall)
deriving DecidableEq

/-- A publish under way whose `handle` is over, and the position of the copy it was made for. -/
structure Stray where
  copy : ℕ
  publication : Publication

/-- The system. A copy keeps its position in `copies`; the log records the calls of `fn`. -/
structure MessagingState (P : Type) where
  now : ℕ
  redis : Server
  copies : List (Copy P)
  strays : List Stray
  published : List Published
  log : List LogEntry

/-- Nothing published, nothing stored. -/
def MessagingState.init (P : Type) : MessagingState P where
  now := 0
  redis := ⟨fun _ => none, 0⟩
  copies := []
  strays := []
  published := []
  log := []

/-- How a running `handle` is represented. -/
structure Machine (P : Type) where
  start : Context → P
  view : P → Context → View P

def codeMachine : Machine (Handling (Option Nack)) where
  start := Context.handle
  view code _ := code.view

def pointMachine : Machine Point where
  start := Context.start
  view p c := p.view c

/-! ## Actions -/

inductive Outcome where
  | resolves
  | rejects (e : JsError) (effect : Bool)
deriving DecidableEq

/-- `perform` settles the call in front of a delivery, `overtake` the release beside its publish;
`stray` is a publish that reaches the broker late, or never. -/
inductive Action where
  | publish (event : String) (payload : Json) (messageId : String) (requestId : Option String)
  | deliver (i : ℕ) (subscription : Subscription) (now : String)
  | perform (i : ℕ) (outcome : Outcome)
  | overtake (i : ℕ) (outcome : Outcome)
  | settle (i : ℕ)
  | crash (i : ℕ)
  | stray (j : ℕ) (arrives : Bool)
  | expire (i : ℕ)
  | tick (ms : ℕ)

/-- The delivery of which a call settles, and how. -/
def Action.call? : Action → Option (ℕ × Outcome)
  | perform i outcome => some (i, outcome)
  | overtake i outcome => some (i, outcome)
  | _ => none

namespace Deployment

variable {P : Type} (D : Deployment) (M : Machine P) (s : MessagingState P)

/-! ### Moving messages -/

def enqueue (letters : List Letter) : MessagingState P :=
  { s with copies := s.copies ++ letters.map fun l => ⟨l, .ready⟩ }

/-- The messages that a publication puts into the queues it is routed to. -/
def routed (p : Publication) : List Letter :=
  (D.topology.route p.exchange p.routingKey).map fun queue =>
    ⟨queue, p.routingKey, p.message, 0, 0, 0⟩

/-- The messages that dead-lettering puts into the queues it leads to. -/
def deadLettered (l : Letter) : List Letter :=
  -- without `x-dead-letter-routing-key` the message keeps the key it came with
  let key := ((D.topology.queue? l.queue).bind (·.arguments.deadLetterRoutingKey)).getD
    l.routingKey
  (D.topology.deadLetterRoute l.queue l.routingKey).map fun queue =>
    { l with queue := queue, routingKey := key, deliveryCount := 0 }

def place (i : ℕ) (l : Letter) (place : Place P) : MessagingState P :=
  { s with copies := s.copies.set i ⟨l, place⟩ }

/-- The `handle` of copy `i` is over, and leaves its publish behind. -/
def abandon (i : ℕ) (left : Option Publication) : MessagingState P :=
  { s with strays := s.strays ++ left.toList.map (Stray.mk i) }

def deadLetter (i : ℕ) (l : Letter) : MessagingState P :=
  enqueue (place s i l .gone) (D.deadLettered l)

/-- Back to the queue, unless the queue has a delivery limit and this return exceeds it. -/
def requeue (i : ℕ) (l : Letter) : MessagingState P :=
  match (D.topology.queue? l.queue).bind (·.arguments.deliveryLimit) with
  | none => place s i { l with deliveryCount := l.deliveryCount + 1 } .ready
  | some limit =>
    if limit < l.deliveryCount + 1 then D.deadLetter s i l
    else place s i { l with deliveryCount := l.deliveryCount + 1 } .ready

/-! ### The calls of a running handle -/

def context (l : Letter) (d : Delivery P) : Context :=
  ⟨D.z, D.consumer, d.subscription, l.message, d.now⟩

def fnCall (l : Letter) (d : Delivery P) (payload : EventPayload) : FnCall :=
  ⟨d.subscription, l.messageId, payload⟩

/-- Execute a call: what becomes of the broker and of Redis, and the answer. -/
def execute : (call : ConsumerCall) → Option (MessagingState P × Except JsError call.Reply)
  | .cacheGet key => some (s, Redis.RedisCacheService.get s.now s.redis.store key)
  | .cacheSet key value ttlSeconds =>
    let r := Redis.RedisCacheService.set s.now s.redis.store key value ttlSeconds
    some ({ s with redis := ⟨r.1, s.redis.draws⟩ }, r.2)
  | .acquire key ttlMs =>
    (s.redis.acquire D.numberText s.now key ttlMs).map fun r => ({ s with redis := r.1 }, r.2)
  | .release lock => (s.redis.release s.now lock).map fun r => ({ s with redis := r.1 }, r.2)
  -- what the handler does besides is not part of this state
  | .fn _ => some (s, .ok ())
  | .publish p => some (enqueue s (D.routed p), .ok ())
  -- each of the two settles on its own
  | .overlap .. => none

/-- The call settles; if it rejects, its effect may have taken place or not. -/
def settled (call : ConsumerCall) :
    Outcome → Option (MessagingState P × Except JsError call.Reply)
  | .resolves => D.execute s call
  | .rejects e true => (D.execute s call).map fun r => (r.1, .error e)
  | .rejects e false => some (s, .error e)

/-- Since when the delivery holds the lock, after a call. -/
def lockedAfter (now : ℕ) (lockedAt : Option ℕ) :
    (call : ConsumerCall) → Except JsError call.Reply → Option ℕ
  | .acquire .., .ok (some _) => some now
  | .release _, _ => none
  | _, _ => lockedAt

def republishedAfter (republished : Bool) :
    (call : ConsumerCall) → Except JsError call.Reply → Bool
  | .publish _, .ok _ => true
  | _, _ => republished

def failedAfter (failedRepublishes : ℕ) :
    (call : ConsumerCall) → Except JsError call.Reply → ℕ
  | .publish _, .error _ => failedRepublishes + 1
  | _, _ => failedRepublishes

def settledEntries (l : Letter) (d : Delivery P) :
    (call : ConsumerCall) → Except JsError call.Reply → List LogEntry
  | .fn payload, .ok _ => [.resolved (fnCall l d payload)]
  | .fn payload, .error _ => [.rejected (fnCall l d payload)]
  | _, _ => []

/-- What a release that settles first leaves behind of the publish. -/
def leftBehind (p : Publication) : Except JsError Bool → Option Publication
  | .ok _ => none
  | .error _ => some p

def startedEntries (l : Letter) (d : Delivery P) : View P → List LogEntry
  | .awaits (.fn payload) _ => [.started (fnCall l d payload)]
  | _ => []

/-- Delivery `d` of copy `i` goes on as `code` once its call has settled to `r`. -/
def resume (i : ℕ) (l : Letter) (d : Delivery P) (call : ConsumerCall)
    (r : Except JsError call.Reply) (code : P) : MessagingState P :=
  let l' := { l with failedRepublishes := failedAfter l.failedRepublishes call r }
  let d' := { d with
    code := code
    lockedAt := lockedAfter s.now d.lockedAt call r
    republished := republishedAfter d.republished call r }
  { s with
    copies := s.copies.set i ⟨l', .unacked d'⟩
    log := s.log ++ settledEntries l d call r ++
      startedEntries l d (M.view code (D.context l d)) }

/-! ### Steps -/

/-- The letter and the delivery of copy `i`, when it is unacked. -/
def delivery? (i : ℕ) : Option (Letter × Delivery P) :=
  match s.copies[i]? with
  | some ⟨l, .unacked d⟩ => some (l, d)
  | _ => none

def ready? (i : ℕ) : Option Letter :=
  match s.copies[i]? with
  | some ⟨l, .ready⟩ => some l
  | _ => none

/-- `EventPublisherService.publish` gets its message onto the broker. -/
def publish (event : String) (payload : Json) (messageId : String)
    (requestId : Option String) : Option (MessagingState P) :=
  match parseEvent D.z event payload,
    EventPublisherService.publish D.z D.ex.events event payload messageId requestId with
  | .ok validated, .await (.publish p) _ =>
    some { enqueue s (D.routed p) with published := s.published ++ [⟨messageId, event, validated⟩] }
  -- a payload that fails its contract is not sent
  | _, _ => none

/-- A ready message of a work queue goes to a consumer of the queue. -/
def deliver (i : ℕ) (subscription : Subscription) (now : String) : Option (MessagingState P) :=
  match ready? s i with
  | none => none
  | some l =>
    if subscription ∈ D.subscriptions ∧
        l.queue = workQueueName subscription.subscriber subscription.event then
      some (place s i l (.unacked
        ⟨subscription, now, M.start ⟨D.z, D.consumer, subscription, l.message, now⟩, none, false⟩))
    else none

def perform (i : ℕ) (outcome : Outcome) : Option (MessagingState P) :=
  match delivery? s i with
  | none => none
  | some (l, d) =>
    match (M.view d.code (D.context l d)).next with
    | some ⟨call, k⟩ =>
      (D.settled s call outcome).map fun r => D.resume M r.1 i l d call r.2 (k r.2)
    | none => none

def overtake (i : ℕ) (outcome : Outcome) : Option (MessagingState P) :=
  match delivery? s i with
  | none => none
  | some (l, d) =>
    match (M.view d.code (D.context l d)).beside with
    | some (p, lock, k) => (D.settled s (.release lock) outcome).map fun r =>
      abandon (D.resume M r.1 i l d (.release lock) r.2 (k r.2)) i (leftBehind p r.2)
    | none => none

/-- The delivery is acked, or returned when `handle` asks for it or rejects. -/
def settle (i : ℕ) : Option (MessagingState P) :=
  match delivery? s i with
  | none => none
  | some (l, d) =>
    match M.view d.code (D.context l d) with
    | .settled (.ok none) => some (place s i l .gone)
    | .settled (.ok (some nack)) =>
      some (if nack.requeue then D.requeue s i l else D.deadLetter s i l)
    -- an error that `handle` lets through
    | .settled (.error _) => some (D.requeue s i l)
    | _ => none

/-- The worker that runs the delivery dies; the broker returns the message. -/
def crash (i : ℕ) : Option (MessagingState P) :=
  (delivery? s i).map fun r => abandon (D.requeue s i { r.1 with crashes := r.1.crashes + 1 }) i
    (M.view r.2.code (D.context r.1 r.2)).publication?

/-- A publish that nobody awaits gets its message onto the broker, or does not. -/
def stray (j : ℕ) (arrives : Bool) : Option (MessagingState P) :=
  (s.strays[j]?).map fun x =>
    { enqueue s (if arrives then D.routed x.publication else []) with
      strays := s.strays.eraseIdx j }

/-- The TTL of the queue is over for a ready message. -/
def expire (i : ℕ) : Option (MessagingState P) :=
  match ready? s i with
  | none => none
  | some l =>
    if ((D.topology.queue? l.queue).bind (·.arguments.messageTtl)).isSome then
      some (D.deadLetter s i l)
    else none

/-- The call in front of the delivery of copy `i`. -/
def callOf (i : ℕ) : Option ConsumerCall :=
  match delivery? s i with
  | none => none
  | some (l, d) => (M.view d.code (D.context l d)).next.map (·.1)

def step : Action → Option (MessagingState P)
  | .publish event payload messageId requestId =>
    D.publish s event payload messageId requestId
  | .deliver i subscription now => D.deliver M s i subscription now
  | .perform i outcome => D.perform M s i outcome
  | .overtake i outcome => D.overtake M s i outcome
  | .settle i => D.settle M s i
  | .crash i => D.crash M s i
  | .stray j arrives => D.stray s j arrives
  | .expire i => D.expire s i
  | .tick ms => some { s with now := s.now + ms }

end Deployment

/-! ## From points to code

A state over points shows the same queues, store and log as the state over the code that is
left at these points, and both make the same steps. -/

abbrev Code : Type := Handling (Option Nack)

section ToCode

variable (D : Deployment)

def Delivery.toCode (l : Letter) (d : Delivery Point) : Delivery Code where
  subscription := d.subscription
  now := d.now
  code := d.code.program (D.context l d)
  lockedAt := d.lockedAt
  republished := d.republished

def Place.toCode (l : Letter) : Place Point → Place Code
  | ready => ready
  | unacked d => unacked (d.toCode D l)
  | gone => gone

def Copy.toCode (c : Copy Point) : Copy Code := ⟨c.toLetter, c.place.toCode D c.toLetter⟩

/-- A copy is unacknowledged over code when it is over points. -/
theorem Place.toCode_eq_unacked {l : Letter} {pl : Place Point} {d : Delivery Code}
    (h : pl.toCode D l = .unacked d) : ∃ d', pl = .unacked d' ∧ d = d'.toCode D l := by
  cases pl with
  | unacked d' => exact ⟨d', rfl, (Place.unacked.inj h).symm⟩
  | ready => cases h
  | gone => cases h

/-- A copy is gone over code when it is over points. -/
theorem Place.toCode_eq_gone {l : Letter} {pl : Place Point} (h : pl.toCode D l = .gone) :
    pl = .gone := by
  cases pl with
  | unacked d => cases h
  | ready => cases h
  | gone => rfl

def MessagingState.toCode (s : MessagingState Point) : MessagingState Code where
  now := s.now
  redis := s.redis
  copies := s.copies.map (Copy.toCode D)
  strays := s.strays
  published := s.published
  log := s.log

namespace Deployment

variable {D} {s : MessagingState Point}

theorem toCode_enqueue (letters : List Letter) :
    (enqueue s letters).toCode D = enqueue (s.toCode D) letters := by
  simp [enqueue, MessagingState.toCode, Copy.toCode, Place.toCode]

/-- Putting a copy in its place commutes with reading points as code. -/
theorem toCode_place (i : ℕ) (l : Letter) (pl : Place Point) :
    (place s i l pl).toCode D = place (s.toCode D) i l (pl.toCode D l) := by
  simp [place, MessagingState.toCode, Copy.toCode, List.map_set]

theorem toCode_deadLetter (i : ℕ) (l : Letter) :
    (D.deadLetter s i l).toCode D = D.deadLetter (s.toCode D) i l := by
  rw [deadLetter, toCode_enqueue, toCode_place]
  rfl

theorem toCode_requeue (i : ℕ) (l : Letter) :
    (D.requeue s i l).toCode D = D.requeue (s.toCode D) i l := by
  unfold requeue
  split
  · exact toCode_place i _ _
  · split
    · exact toCode_deadLetter i l
    · exact toCode_place i _ _

theorem toCode_abandon (i : ℕ) (left : Option Publication) :
    (abandon s i left).toCode D = abandon (s.toCode D) i left := rfl

/-- What a call does to Redis and the broker does not depend on what the deliveries run. -/
theorem toCode_execute (call : ConsumerCall) : D.execute (s.toCode D) call =
    (D.execute s call).map fun r => (r.1.toCode D, r.2) := by
  match call with
  | .cacheGet key => rfl
  | .cacheSet key value ttlSeconds => rfl
  | .acquire key ttlMs =>
    simp only [execute, Option.map_map]
    rfl
  | .release lock =>
    simp only [execute, Option.map_map]
    rfl
  | .fn payload => rfl
  | .publish p =>
    simp only [execute, Option.map_some, toCode_enqueue]
  | .overlap p lock => rfl

/-- The same of a call with its outcome. -/
theorem toCode_settled (call : ConsumerCall) (outcome : Outcome) :
    D.settled (s.toCode D) call outcome =
      (D.settled s call outcome).map fun r => (r.1.toCode D, r.2) := by
  match outcome with
  | .resolves => exact toCode_execute call
  | .rejects e true =>
    simp only [settled, toCode_execute, Option.map_map]
    rfl
  | .rejects e false => rfl

/-- A handler starts over code when it starts over points. -/
theorem startedEntries_toCode (l : Letter) (d : Delivery Point) (v : View Point) (f : Point → Code) :
    startedEntries l (d.toCode D l) (v.map f) = startedEntries l d v := by
  match v with
  | .awaits (.fn payload) k => rfl
  | .awaits (.cacheGet key) k => rfl
  | .awaits (.cacheSet key value ttl) k => rfl
  | .awaits (.acquire key ttlMs) k => rfl
  | .awaits (.release lock) k => rfl
  | .awaits (.publish p) k => rfl
  | .awaits (.overlap p lock) k => rfl
  | .settled result => rfl
  | .running => rfl

/-- A delivery goes on over code as it does over points. -/
theorem toCode_resume (i : ℕ) (l : Letter) (d : Delivery Point) (call : ConsumerCall)
    (r : Except JsError call.Reply) (p : Point) :
    (D.resume pointMachine s i l d call r p).toCode D =
      D.resume codeMachine (s.toCode D) i l (d.toCode D l) call r
        (p.program (D.context l d)) := by
  have hstarted : startedEntries l (d.toCode D l)
      (codeMachine.view (p.program (D.context l d)) (D.context l (d.toCode D l))) =
      startedEntries l d (pointMachine.view p (D.context l d)) := by
    show startedEntries l (d.toCode D l) ((p.program (D.context l d)).view) = _
    rw [Point.view_program, startedEntries_toCode]
    rfl
  have hsettled : settledEntries l (d.toCode D l) call r = settledEntries l d call r := by
    unfold settledEntries
    rfl
  simp only [resume, hstarted, hsettled, MessagingState.toCode, List.map_set]
  rfl

theorem delivery?_toCode (i : ℕ) : delivery? (s.toCode D) i =
    (delivery? s i).map fun r => (r.1, r.2.toCode D r.1) := by
  simp only [delivery?, MessagingState.toCode, List.getElem?_map]
  match s.copies[i]? with
  | none => rfl
  | some ⟨l, .ready⟩ => rfl
  | some ⟨l, .unacked d⟩ => rfl
  | some ⟨l, .gone⟩ => rfl

theorem ready?_toCode (i : ℕ) : ready? (s.toCode D) i = ready? s i := by
  simp only [ready?, MessagingState.toCode, List.getElem?_map]
  match s.copies[i]? with
  | none => rfl
  | some ⟨l, .ready⟩ => rfl
  | some ⟨l, .unacked d⟩ => rfl
  | some ⟨l, .gone⟩ => rfl

/-- The program of a point waits for the call that the point waits for. -/
theorem view_toCode (l : Letter) (d : Delivery Point) :
    codeMachine.view (d.toCode D l).code (D.context l (d.toCode D l)) =
      (pointMachine.view d.code (D.context l d)).map fun p => p.program (D.context l d) :=
  Point.view_program d.code

theorem next_map {P Q : Type} (f : P → Q) (v : View P) : View.next (v.map f) =
    v.next.map fun n => ⟨n.1, fun r => f (n.2 r)⟩ := by
  match v with
  | .awaits call k => cases call <;> rfl
  | .settled result => rfl
  | .running => rfl

theorem beside_map {P Q : Type} (f : P → Q) (v : View P) : View.beside (v.map f) =
    v.beside.map fun b => (b.1, b.2.1, fun r => f (b.2.2 r)) := by
  match v with
  | .awaits call k => cases call <;> rfl
  | .settled result => rfl
  | .running => rfl

theorem publication?_map {P Q : Type} (f : P → Q) (v : View P) :
    View.publication? (v.map f) = v.publication? := by
  match v with
  | .awaits call k => cases call <;> rfl
  | .settled result => rfl
  | .running => rfl

/-- The call that a delivery waits for is the same over code and over points. -/
theorem callOf_toCode (i : ℕ) :
    D.callOf codeMachine (s.toCode D) i = D.callOf pointMachine s i := by
  unfold callOf
  rw [delivery?_toCode]
  match delivery? s i with
  | none => rfl
  | some (l, d) =>
    simp only [Option.map_some, view_toCode, next_map, Option.map_map]
    rfl

/-- From here on, each action of the system commutes with reading points as code. -/
theorem toCode_deliver (i : ℕ) (sub : Subscription) (now : String) :
    D.deliver codeMachine (s.toCode D) i sub now =
      (D.deliver pointMachine s i sub now).map (MessagingState.toCode D) := by
  unfold deliver
  rw [ready?_toCode]
  match ready? s i with
  | none => rfl
  | some l =>
    by_cases h : sub ∈ D.subscriptions ∧ l.queue = workQueueName sub.subscriber sub.event
    · simp only [if_pos h, Option.map_some, toCode_place, codeMachine, pointMachine,
        Place.toCode, Delivery.toCode, Context.handle_eq]
      rfl
    · simp only [if_neg h, Option.map_none]

theorem toCode_perform (i : ℕ) (outcome : Outcome) :
    D.perform codeMachine (s.toCode D) i outcome =
      (D.perform pointMachine s i outcome).map (MessagingState.toCode D) := by
  unfold perform
  rw [delivery?_toCode]
  match delivery? s i with
  | none => rfl
  | some (l, d) =>
    simp only [Option.map_some, view_toCode, next_map]
    match (pointMachine.view d.code (D.context l d)).next with
    | some ⟨call, k⟩ =>
      simp only [Option.map_some, toCode_settled, Option.map_map, Function.comp_def, toCode_resume]
    | none => rfl

/-- The call beside the publish overtakes it over code when it does over points. -/
theorem toCode_overtake (i : ℕ) (outcome : Outcome) :
    D.overtake codeMachine (s.toCode D) i outcome =
      (D.overtake pointMachine s i outcome).map (MessagingState.toCode D) := by
  unfold overtake
  rw [delivery?_toCode]
  match delivery? s i with
  | none => rfl
  | some (l, d) =>
    simp only [Option.map_some, view_toCode, beside_map]
    match (pointMachine.view d.code (D.context l d)).beside with
    | some (p, lock, k) =>
      simp only [Option.map_some, toCode_settled, Option.map_map, Function.comp_def,
        toCode_abandon, toCode_resume]
    | none => rfl

theorem toCode_settle (i : ℕ) : D.settle codeMachine (s.toCode D) i =
    (D.settle pointMachine s i).map (MessagingState.toCode D) := by
  unfold settle
  rw [delivery?_toCode]
  match delivery? s i with
  | none => rfl
  | some (l, d) =>
    simp only [Option.map_some, view_toCode]
    match pointMachine.view d.code (D.context l d) with
    | .awaits call k => rfl
    | .settled (.ok none) => simp only [Async.View.map, Option.map_some, toCode_place, Place.toCode]
    | .settled (.ok (some ⟨true⟩)) =>
      simp only [Async.View.map, if_true, Option.map_some, toCode_requeue]
    | .settled (.ok (some ⟨false⟩)) =>
      simp only [Async.View.map, Bool.false_eq_true, if_false, Option.map_some, toCode_deadLetter]
    | .settled (.error e) => simp only [Async.View.map, Option.map_some, toCode_requeue]
    | .running => rfl

theorem toCode_crash (i : ℕ) : D.crash codeMachine (s.toCode D) i =
    (D.crash pointMachine s i).map (MessagingState.toCode D) := by
  simp only [crash, delivery?_toCode, Option.map_map, Function.comp_def, toCode_abandon,
    toCode_requeue, view_toCode, publication?_map]

theorem toCode_stray (j : ℕ) (arrives : Bool) : D.stray (s.toCode D) j arrives =
    (D.stray s j arrives).map (MessagingState.toCode D) := by
  unfold stray
  rw [Option.map_map]
  refine congrArg (Option.map · _) (funext fun x => ?_)
  simp only [Function.comp_apply, ← toCode_enqueue]
  rfl

theorem toCode_expire (i : ℕ) :
    D.expire (s.toCode D) i = (D.expire s i).map (MessagingState.toCode D) := by
  unfold expire
  rw [ready?_toCode]
  match ready? s i with
  | none => rfl
  | some l =>
    by_cases h : ((D.topology.queue? l.queue).bind (·.arguments.messageTtl)).isSome = true
    · simp only [if_pos h, Option.map_some, toCode_deadLetter]
    · simp only [if_neg h, Option.map_none]

theorem toCode_publish (event : String) (payload : Json) (messageId : String)
    (requestId : Option String) :
    D.publish (s.toCode D) event payload messageId requestId =
      (D.publish s event payload messageId requestId).map (MessagingState.toCode D) := by
  unfold publish
  split
  · simp only [Option.map_some, ← toCode_enqueue]
    rfl
  · rfl

/-- The system over the code makes the steps of the system over points. -/
theorem step_toCode (a : Action) : D.step codeMachine (s.toCode D) a =
    (D.step pointMachine s a).map (MessagingState.toCode D) := by
  match a with
  | .publish event payload messageId requestId =>
    exact toCode_publish event payload messageId requestId
  | .deliver i sub now => exact toCode_deliver i sub now
  | .perform i outcome => exact toCode_perform i outcome
  | .settle i => exact toCode_settle i
  | .overtake i outcome => exact toCode_overtake i outcome
  | .crash i => exact toCode_crash i
  | .stray j arrives => exact toCode_stray j arrives
  | .expire i => exact toCode_expire i
  | .tick ms => rfl

/-- A run of the system is the image of a run over points. -/
theorem reaches_points {ok : MessagingState Code → Action → Prop} {t : MessagingState Code}
    (h : Transition.Reaches (D.step codeMachine) ok (.init Code) t) :
    ∃ s, Transition.Reaches (D.step pointMachine) (fun u a => ok (u.toCode D) a) (.init Point) s ∧
      s.toCode D = t :=
  Transition.Reaches.lift (fun _ a => step_toCode a) h

end Deployment

end ToCode

/-! ## The default environment -/

/-- A deployment with the default environment, over string checks that accept everything. -/
def defaultDeployment (subscriptions : List Subscription) : Deployment where
  z := ⟨fun _ => true, fun _ => true, fun _ => "invalid"⟩
  numberText _ := ""
  env := Config.defaultEnv "postgres://db" "amqp://mq" "0123456789abcdef0123456789abcdef"
  subscriptions := subscriptions

def notifications : Subscription := ⟨"notifications", "notification.created"⟩

/-- A message for `notifications`. -/
def createdNotification (messageId : String) : Published where
  messageId := messageId
  event := "notification.created"
  payload := .notificationCreated "user-1" "welcome"

/-- The action that publishes a message. -/
def Published.action (p : Published) : Action :=
  .publish p.event p.payload.toJson p.messageId none

/-- The next calls of delivery `i` all resolve. -/
def resolving (i calls : ℕ) : List Action := List.replicate calls (.perform i .resolves)

end NestFastify.Messaging
