import NestFastify.Config.EnvSchema
import NestFastify.Messaging.Topology
import NestFastify.Redis.LockService

/-!
# Consuming and publishing events

`MessageConsumer.handle` (consume.ts) and `EventPublisherService.publish` as async functions
over the ports they use: the cache, the lock service, the handler `fn` and `amqp.publish`.

`Point` names the places where a running `handle` can be suspended, and `Point.view` says
what it awaits there and where each outcome takes it. `view_program` connects the two: the
code of `handle` that is left at a point shows what the point shows. `Point.Step` lists the
moves case by case.
-/

namespace NestFastify.Messaging

open Redis (Lock)

/-! ## Messages -/

/-- The headers of messaging.constants.ts: x-attempt, x-error, x-failed-at, x-request-id. -/
structure Headers where
  attempt : Option ℕ
  error : Option String
  failedAt : Option String
  requestId : Option String
deriving DecidableEq

/-- What a delivery carries: the content after `JSON.parse`, and the properties. -/
structure ConsumeMessage where
  content : Json
  messageId : Option String
  headers : Headers

/-- The arguments of one `amqp.publish`. -/
structure Publication where
  exchange : String
  routingKey : String
  content : Json
  messageId : Option String
  headers : Headers

/-- The message a publication puts into the queues it is routed to. -/
def Publication.message (p : Publication) : ConsumeMessage := ⟨p.content, p.messageId, p.headers⟩

/-- `Nack(requeue)`. -/
structure Nack where
  requeue : Bool
deriving DecidableEq

/-! ## Ports -/

/-- The calls that `handle` makes; `overlap` is a publish and a release under way side by side. -/
inductive ConsumerCall where
  | cacheGet (key : String)
  | cacheSet (key : String) (value : Json) (ttlSeconds : ℕ)
  | acquire (key : String) (ttlMs : ℕ)
  | release (lock : Lock)
  | fn (payload : EventPayload)
  | publish (p : Publication)
  | overlap (p : Publication) (lock : Lock)

/-- Which of two calls under way side by side has settled first, and to what. -/
inductive FirstSettled where
  | published (r : Except JsError Unit)
  | released (r : Except JsError Bool)

def ConsumerCall.Reply : ConsumerCall → Type
  | cacheGet _ => Json
  | cacheSet .. => Unit
  | acquire .. => Option Lock
  | release _ => Bool
  | fn _ => Unit
  | publish _ => Unit
  | overlap .. => FirstSettled

/-- A running function of the consumer: it ends with an ack (`none`) or a `Nack`. -/
abbrev Handling (α : Type) : Type := Async JsError ConsumerCall ConsumerCall.Reply α

def cacheGet (key : String) : Handling Json := Async.call (ConsumerCall.cacheGet key)

def cacheSet (key : String) (value : Json) (ttlSeconds : ℕ) : Handling Unit :=
  Async.call (ConsumerCall.cacheSet key value ttlSeconds)

def acquire (key : String) (ttlMs : ℕ) : Handling (Option Lock) :=
  Async.call (ConsumerCall.acquire key ttlMs)

def release (lock : Lock) : Handling Bool := Async.call (ConsumerCall.release lock)

def callFn (payload : EventPayload) : Handling Unit := Async.call (ConsumerCall.fn payload)

def publish (p : Publication) : Handling Unit := Async.call (ConsumerCall.publish p)

/-- `finally { await lock.release() }` around a returned promise that is not awaited: its publish
is under way when the release starts. If the release rejects, so does the whole, and the publish
is left to itself. -/
def beside {α : Type} (returned : Handling α) (lock : Lock) : Handling α :=
  match returned with
  | .await (.publish p) k => .await (.overlap p lock) fun
    | .ok (.published r) => (k r).tryFinally (release lock)
    -- the lock is released, and the promise is awaited as the outcome of the whole
    | .ok (.released (.ok _)) => .await (.publish p) k
    | .ok (.released (.error e)) => Async.throw e
    -- not reached: the two calls settle one by one
    | .error e => Async.throw e
  | returned => returned.tryFinally (release lock)

/-- `try { return body } catch (e) { return caught(e) } finally { await lock.release() }`, where
`body` is awaited and `caught(e)` is not. -/
def tryReleasing {α : Type} (caught : JsError → Handling α) (lock : Lock) : Handling α → Handling α
  | .resolve a => (Async.resolve a).tryFinally (release lock)
  | .reject e => beside (caught e) lock
  | .await c k => .await c fun r => tryReleasing caught lock (k r)
  | .pending => .pending

/-- What a suspended `handle` shows to its surroundings; `P` is what it goes on as. -/
abbrev View (P : Type) : Type := Async.View JsError ConsumerCall ConsumerCall.Reply (Option Nack) P

namespace View

variable {P : Type}

/-- The call in front, and how `handle` goes on once it has settled. Of two calls side by side
the publish stands in front. -/
def next : View P → Option ((call : ConsumerCall) × (Except JsError call.Reply → P))
  | .awaits (.overlap p _) k => some ⟨.publish p, fun r => k (.ok (.published r))⟩
  | .awaits call k => some ⟨call, k⟩
  | _ => none

/-- The release that is under way beside a publish, and how `handle` goes on if it settles
first. -/
def beside : View P → Option (Publication × Lock × (Except JsError Bool → P))
  | .awaits (.overlap p lock) k => some (p, lock, fun r => k (.ok (.released r)))
  | _ => none

/-- The publish that is under way. -/
def publication? : View P → Option Publication
  | .awaits (.publish p) _ => some p
  | .awaits (.overlap p _) _ => some p
  | _ => none

end View

/-! ## MessageConsumer -/

def PROCESSING_LOCK_TTL_MS : ℕ := 30000

/-- The consumer's settings. -/
structure MessageConsumer where
  ex : Exchanges
  maxRetries : ℕ
  idempotencyTtl : ℕ

def MessageConsumer.ofEnv (env : Config.Env) : MessageConsumer where
  ex := exchangeNames env.RABBITMQ_EXCHANGE
  maxRetries := env.RABBITMQ_MAX_RETRIES
  idempotencyTtl := env.RABBITMQ_IDEMPOTENCY_TTL

def doneKey (messageId : String) : String := "messaging:done:" ++ messageId

def lockKey (messageId : String) : String := "messaging:lock:" ++ messageId

/-- `Number(headers['x-attempt'] ?? 0)`. -/
def ConsumeMessage.attempt (msg : ConsumeMessage) : ℕ := msg.headers.attempt.getD 0

namespace MessageConsumer

variable (this : MessageConsumer)

/-- One tier for each attempt, the last tier for the attempts beyond. -/
def retryTier (attempt : ℕ) : ℕ := min attempt (max 0 (this.maxRetries - 1))

variable {this} in
/-- While attempts are left, the retry tier is the attempt. -/
theorem retryTier_of_lt {attempt : ℕ} (h : attempt < this.maxRetries) :
    this.retryTier attempt = attempt := by
  unfold retryTier
  omega

def retryPublication (subscriber routingKey : String) (payload : EventPayload)
    (msg : ConsumeMessage) (attempt : ℕ) (err : JsError) : Publication where
  exchange := this.ex.retry
  routingKey := retryRoutingKey subscriber routingKey (this.retryTier attempt)
  content := payload.toJson
  messageId := msg.messageId
  headers := { msg.headers with attempt := some (attempt + 1), error := some err.errMsg }

def toRetryOrRequeue (subscriber routingKey : String) (payload : EventPayload)
    (msg : ConsumeMessage) (attempt : ℕ) (err : JsError) : Handling (Option Nack) :=
  Async.tryCatch
    (do
      publish (this.retryPublication subscriber routingKey payload msg attempt err)
      return none)
    -- not acked, or the message would be lost
    fun _ => return some ⟨true⟩

/-- `now` is the text of the current instant. -/
def dlqPublication (routingKey : String) (content : Json) (msg : ConsumeMessage)
    (reason now : String) : Publication where
  exchange := this.ex.dlx
  routingKey := routingKey
  content := content
  messageId := msg.messageId
  headers := { msg.headers with error := some reason, failedAt := some now }

def toDlqOrRequeue (routingKey : String) (content : Json) (msg : ConsumeMessage)
    (reason now : String) : Handling (Option Nack) :=
  Async.tryCatch
    (do
      publish (this.dlqPublication routingKey content msg reason now)
      return none)
    fun _ => return some ⟨true⟩

/-- The catch block of `handle`. -/
def onFailure (subscriber routingKey : String) (payload : EventPayload) (msg : ConsumeMessage)
    (now : String) (err : JsError) : Handling (Option Nack) :=
  if msg.attempt < this.maxRetries then
    this.toRetryOrRequeue subscriber routingKey payload msg msg.attempt err
  else this.toDlqOrRequeue routingKey payload.toJson msg err.errMsg now

/-- The part of `handle` that runs under the lock. -/
def handleLocked (subscriber routingKey : String) (payload : EventPayload)
    (msg : ConsumeMessage) (now messageId : String) (lock : Lock) : Handling (Option Nack) :=
  tryReleasing (this.onFailure subscriber routingKey payload msg now) lock (do
    callFn payload
    -- the marker stands for a handler that has resolved
    cacheSet (doneKey messageId) (.num 1) this.idempotencyTtl
    return none)

/-- `handle`, with an ack as `none`. A message id that is missing or empty is falsy. -/
def handle (z : Zod) (subscriber routingKey : String) (raw : Json) (msg : ConsumeMessage)
    (now : String) : Handling (Option Nack) := do
  let messageId := msg.messageId.getD ""
  -- an id that all such messages shared would let one of them mark the others as done
  if messageId = "" then
    this.toDlqOrRequeue routingKey raw msg "missing-message-id" now
  else
    let done ← cacheGet (doneKey messageId)
    -- handled before: acked and left alone
    if done.isNull = false then return none
    else
      match parseEvent z routingKey raw with
      -- what does not match its schema now never will
      | .error (.zodError _ _) => this.toDlqOrRequeue routingKey raw msg "validation" now
      | .error e => Async.throw e
      | .ok payload =>
        match ← acquire (lockKey messageId) PROCESSING_LOCK_TTL_MS with
        -- another delivery of the message is under way
        | none => return some ⟨true⟩
        | some lock =>
          this.handleLocked subscriber routingKey payload msg now messageId lock

end MessageConsumer

/-! ## EventPublisherService -/

/-- `publish`: validate, then one `amqp.publish` to the events exchange. `messageId` is the
one given or a random one. -/
def EventPublisherService.publish (z : Zod) (eventsExchange routingKey : String) (payload : Json)
    (messageId : String) (requestId : Option String) : Handling Unit := do
  let validated ← Async.settled (parseEvent z routingKey payload)
  Messaging.publish
    { exchange := eventsExchange
      routingKey := routingKey
      content := validated.toJson
      messageId := some messageId
      headers := { attempt := some 0, error := none, failedAt := none, requestId := requestId } }

/-! ## Where handle can be suspended -/

/-- What is fixed during one run of `handle`. -/
structure Context where
  z : Zod
  consumer : MessageConsumer
  subscription : Subscription
  msg : ConsumeMessage
  now : String

namespace Context

variable (c : Context)

def messageId : String := c.msg.messageId.getD ""

/-- `handle` on the delivery; the raw payload is the content of the message. -/
def handle : Handling (Option Nack) :=
  c.consumer.handle c.z c.subscription.subscriber c.subscription.event c.msg.content c.msg c.now

/-- The publication after a failure: a retry while attempts are left, else the DLQ. -/
def failurePublication (payload : EventPayload) (err : JsError) : Publication :=
  if c.msg.attempt < c.consumer.maxRetries then
    c.consumer.retryPublication c.subscription.subscriber c.subscription.event payload c.msg
      c.msg.attempt err
  else c.consumer.dlqPublication c.subscription.event payload.toJson c.msg err.errMsg c.now

/-- The publication of a message that is not even tried. -/
def rejectPublication (reason : String) : Publication :=
  c.consumer.dlqPublication c.subscription.event c.msg.content c.msg reason c.now

end Context

/-- Waiting for the marker, for the DLQ publish of an invalid message, for the lock, for the
handler, for the marker to be set, for the publish after a failure and the release beside it, for
the release alone, for the publish alone; or settled. -/
inductive Point where
  | get
  | reject (reason : String)
  | acquire (payload : EventPayload)
  | fn (payload : EventPayload) (lock : Lock)
  | mark (payload : EventPayload) (lock : Lock)
  | republish (payload : EventPayload) (lock : Lock) (err : JsError)
  | release (lock : Lock) (result : Option Nack)
  | confirm (payload : EventPayload) (err : JsError)
  | done (result : Except JsError (Option Nack))

namespace Context

variable (c : Context)

/-- `handle` from the lock on. -/
def acquiring (payload : EventPayload) : Handling (Option Nack) := do
  match ← acquire (lockKey c.messageId) PROCESSING_LOCK_TTL_MS with
  | none => return some ⟨true⟩
  | some lock =>
    c.consumer.handleLocked c.subscription.subscriber c.subscription.event payload c.msg c.now
      c.messageId lock

/-- `handle` once the marker has been read. -/
def afterGet (done : Json) : Handling (Option Nack) :=
  if done.isNull = false then return none
  else
    match parseEvent c.z c.subscription.event c.msg.content with
    | .error (.zodError _ _) =>
      c.consumer.toDlqOrRequeue c.subscription.event c.msg.content c.msg "validation" c.now
    | .error e => Async.throw e
    | .ok payload => c.acquiring payload

/-- The catch block of `handle`. -/
def onFailure (payload : EventPayload) (err : JsError) : Handling (Option Nack) :=
  c.consumer.onFailure c.subscription.subscriber c.subscription.event payload c.msg c.now err

end Context

namespace Point

variable (c : Context)

/-- The rest of `handle` at a point. -/
def program : Point → Handling (Option Nack)
  | get => do c.afterGet (← cacheGet (doneKey c.messageId))
  | reject reason =>
    c.consumer.toDlqOrRequeue c.subscription.event c.msg.content c.msg reason c.now
  | acquire payload => c.acquiring payload
  | fn payload lock => c.consumer.handleLocked c.subscription.subscriber c.subscription.event
      payload c.msg c.now c.messageId lock
  | mark payload lock => tryReleasing (c.onFailure payload) lock (do
      cacheSet (doneKey c.messageId) (.num 1) c.consumer.idempotencyTtl
      return none)
  | republish payload lock err => beside (c.onFailure payload err) lock
  | release lock result => do
    let _ ← Messaging.release lock
    return result
  | confirm payload err => c.onFailure payload err
  | done result => Async.settled result

/-- Where `handle` goes on once the marker has been read. -/
def afterMarker (v : Json) : Point :=
  if v.isNull = false then done (.ok none)
  else
    match parseEvent c.z c.subscription.event c.msg.content with
    | .error (.zodError _ _) => reject "validation"
    | .error e => done (.error e)
    | .ok payload => acquire payload

/-- What `handle` awaits at a point, and where each outcome takes it. -/
def view : Point → View Point
  | get => .awaits (.cacheGet (doneKey c.messageId)) fun
    | .ok v => afterMarker c v
    | .error e => done (.error e)
  | reject reason => .awaits (.publish (c.rejectPublication reason)) fun
    | .ok _ => done (.ok none)
    | .error _ => done (.ok (some ⟨true⟩))
  | acquire payload => .awaits (.acquire (lockKey c.messageId) PROCESSING_LOCK_TTL_MS) fun
    | .ok (some lock) => fn payload lock
    | .ok none => done (.ok (some ⟨true⟩))
    | .error e => done (.error e)
  | fn payload lock => .awaits (.fn payload) fun
    | .ok _ => mark payload lock
    | .error e => republish payload lock e
  | mark payload lock =>
    .awaits (.cacheSet (doneKey c.messageId) (.num 1) c.consumer.idempotencyTtl) fun
    | .ok _ => release lock none
    | .error e => republish payload lock e
  | republish payload lock err =>
    .awaits (.overlap (c.failurePublication payload err) lock) fun
    | .ok (.published (.ok _)) => release lock none
    | .ok (.published (.error _)) => release lock (some ⟨true⟩)
    | .ok (.released (.ok _)) => confirm payload err
    | .ok (.released (.error e)) => done (.error e)
    | .error e => done (.error e)
  | release lock result => .awaits (.release lock) fun
    | .ok _ => done (.ok result)
    | .error e => done (.error e)
  | confirm payload err => .awaits (.publish (c.failurePublication payload err)) fun
    | .ok _ => done (.ok none)
    | .error _ => done (.ok (some ⟨true⟩))
  | done result => .settled result

/-- The lock a delivery has at a point. -/
def lock? : Point → Option Lock
  | fn _ lock => some lock
  | mark _ lock => some lock
  | republish _ lock _ => some lock
  | release lock _ => some lock
  | _ => none

/-- What each point goes on to when a call of it settles. -/
inductive Step (c : Context) :
    Point → (call : ConsumerCall) → Except JsError call.Reply → Point → Prop
  | get_hit (v : Json) (hv : v.isNull = false) :
    Step c get (.cacheGet (doneKey c.messageId)) (.ok v) (done (.ok none))
  | get_miss (v : Json) (hv : v.isNull = true) (payload : EventPayload)
      (hparse : parseEvent c.z c.subscription.event c.msg.content = .ok payload) :
    Step c get (.cacheGet (doneKey c.messageId)) (.ok v) (acquire payload)
  | get_invalid (v : Json) (hv : v.isNull = true) (paths : List String) (message : String)
      (hparse : parseEvent c.z c.subscription.event c.msg.content =
        .error (.zodError paths message)) :
    Step c get (.cacheGet (doneKey c.messageId)) (.ok v) (reject "validation")
  | get_broken (v : Json) (hv : v.isNull = true) (e : JsError)
      (hparse : parseEvent c.z c.subscription.event c.msg.content = .error e)
      (he : ∀ paths message, e ≠ .zodError paths message) :
    Step c get (.cacheGet (doneKey c.messageId)) (.ok v) (done (.error e))
  | get_fail (e : JsError) :
    Step c get (.cacheGet (doneKey c.messageId)) (.error e) (done (.error e))
  | reject_ok (reason : String) :
    Step c (reject reason) (.publish (c.rejectPublication reason)) (.ok ()) (done (.ok none))
  | reject_fail (reason : String) (e : JsError) :
    Step c (reject reason) (.publish (c.rejectPublication reason)) (.error e)
      (done (.ok (some ⟨true⟩)))
  | acquire_ok (payload : EventPayload) (lock : Lock) :
    Step c (acquire payload) (.acquire (lockKey c.messageId) PROCESSING_LOCK_TTL_MS)
      (.ok (some lock)) (fn payload lock)
  | acquire_held (payload : EventPayload) :
    Step c (acquire payload) (.acquire (lockKey c.messageId) PROCESSING_LOCK_TTL_MS)
      (.ok none) (done (.ok (some ⟨true⟩)))
  | acquire_fail (payload : EventPayload) (e : JsError) :
    Step c (acquire payload) (.acquire (lockKey c.messageId) PROCESSING_LOCK_TTL_MS)
      (.error e) (done (.error e))
  | fn_ok (payload : EventPayload) (lock : Lock) :
    Step c (fn payload lock) (.fn payload) (.ok ()) (mark payload lock)
  | fn_fail (payload : EventPayload) (lock : Lock) (e : JsError) :
    Step c (fn payload lock) (.fn payload) (.error e) (republish payload lock e)
  | mark_ok (payload : EventPayload) (lock : Lock) :
    Step c (mark payload lock)
      (.cacheSet (doneKey c.messageId) (.num 1) c.consumer.idempotencyTtl) (.ok ())
      (release lock none)
  | mark_fail (payload : EventPayload) (lock : Lock) (e : JsError) :
    Step c (mark payload lock)
      (.cacheSet (doneKey c.messageId) (.num 1) c.consumer.idempotencyTtl) (.error e)
      (republish payload lock e)
  | republish_ok (payload : EventPayload) (lock : Lock) (err : JsError) :
    Step c (republish payload lock err) (.publish (c.failurePublication payload err)) (.ok ())
      (release lock none)
  | republish_fail (payload : EventPayload) (lock : Lock) (err e : JsError) :
    Step c (republish payload lock err) (.publish (c.failurePublication payload err)) (.error e)
      (release lock (some ⟨true⟩))
  -- the release settles first; if it rejects, nobody waits for the publish any more
  | overtake_ok (payload : EventPayload) (lock : Lock) (err : JsError) (b : Bool) :
    Step c (republish payload lock err) (.release lock) (.ok b) (confirm payload err)
  | overtake_fail (payload : EventPayload) (lock : Lock) (err e : JsError) :
    Step c (republish payload lock err) (.release lock) (.error e) (done (.error e))
  | confirm_ok (payload : EventPayload) (err : JsError) :
    Step c (confirm payload err) (.publish (c.failurePublication payload err)) (.ok ())
      (done (.ok none))
  | confirm_fail (payload : EventPayload) (err e : JsError) :
    Step c (confirm payload err) (.publish (c.failurePublication payload err)) (.error e)
      (done (.ok (some ⟨true⟩)))
  | release_ok (lock : Lock) (result : Option Nack) (b : Bool) :
    Step c (release lock result) (.release lock) (.ok b) (done (.ok result))
  | release_fail (lock : Lock) (result : Option Nack) (e : JsError) :
    Step c (release lock result) (.release lock) (.error e) (done (.error e))

variable {c : Context} {p : Point} {call : ConsumerCall}

theorem onFailure_eq (payload : EventPayload) (err : JsError) :
    c.onFailure payload err = Async.tryCatch
      (do
        publish (c.failurePublication payload err)
        return none)
      fun _ => return some ⟨true⟩ := by
  unfold Context.onFailure MessageConsumer.onFailure Context.failurePublication
  by_cases h : c.msg.attempt < c.consumer.maxRetries
  · rw [if_pos h, if_pos h]
    rfl
  · rw [if_neg h, if_neg h]
    rfl

theorem afterGet_eq (v : Json) : c.afterGet v = (afterMarker c v).program c := by
  unfold Context.afterGet afterMarker
  by_cases hv : v.isNull = false
  · rw [if_pos hv, if_pos hv]
    rfl
  · rw [if_neg hv, if_neg hv]
    match parseEvent c.z c.subscription.event c.msg.content with
    | .ok payload => rfl
    | .error (.zodError paths message) => rfl
    | .error (.error message) => rfl
    | .error (.typeError message) => rfl
    | .error (.appException key status) => rfl
    | .error (.other text) => rfl

/-- The code that is left at a point shows what the point shows. -/
theorem view_program (p : Point) :
    (p.program c).view = (p.view c).map fun p' => p'.program c := by
  match p with
  | get => exact Async.view_await rfl (fun v => afterGet_eq v) fun _ => rfl
  | reject reason => exact Async.view_await rfl (fun _ => rfl) fun _ => rfl
  | acquire payload =>
    refine Async.view_await rfl (fun lock => ?_) fun _ => rfl
    match lock with
    | none => rfl
    | some lock => rfl
  | fn payload lock => exact Async.view_await rfl (fun _ => rfl) fun _ => rfl
  | mark payload lock => exact Async.view_await rfl (fun _ => rfl) fun _ => rfl
  | republish payload lock err =>
    -- both branches of `onFailure` publish, and go on in the same way
    simp only [program, onFailure_eq]
    refine Async.view_await rfl (fun first => ?_) fun _ => rfl
    match first with
    | .published (.ok _) => rfl
    | .published (.error _) => rfl
    | .released (.ok _) => rfl
    | .released (.error _) => rfl
  | release lock result => exact Async.view_await rfl (fun _ => rfl) fun _ => rfl
  | confirm payload err =>
    simp only [program, onFailure_eq]
    exact Async.view_await rfl (fun _ => rfl) fun _ => rfl
  | done (.ok result) => rfl
  | done (.error e) => rfl

theorem step_afterMarker (v : Json) :
    Step c get (.cacheGet (doneKey c.messageId)) (.ok v) (afterMarker c v) := by
  unfold afterMarker
  by_cases hv : v.isNull = false
  · rw [if_pos hv]
    exact .get_hit v hv
  · rw [if_neg hv]
    have hnull : v.isNull = true := by simpa using hv
    match hparse : parseEvent c.z c.subscription.event c.msg.content with
    | .ok payload => exact .get_miss v hnull payload hparse
    | .error (.zodError paths message) => exact .get_invalid v hnull paths message hparse
    | .error (.error message) => exact .get_broken v hnull _ hparse nofun
    | .error (.typeError message) => exact .get_broken v hnull _ hparse nofun
    | .error (.appException key status) => exact .get_broken v hnull _ hparse nofun
    | .error (.other text) => exact .get_broken v hnull _ hparse nofun

/-- Whatever the call in front settles to, the point makes the move for it. -/
theorem step_of_next {k : Except JsError call.Reply → Point}
    (h : (p.view c).next = some ⟨call, k⟩) (r : Except JsError call.Reply) :
    Step c p call r (k r) := by
  match p with
  | get =>
    cases h
    match r with
    | .ok v => exact step_afterMarker v
    | .error e => exact .get_fail e
  | reject reason =>
    cases h
    match r with
    | .ok _ => exact .reject_ok reason
    | .error e => exact .reject_fail reason e
  | acquire payload =>
    cases h
    match r with
    | .ok none => exact .acquire_held payload
    | .ok (some lock) => exact .acquire_ok payload lock
    | .error e => exact .acquire_fail payload e
  | fn payload lock =>
    cases h
    match r with
    | .ok _ => exact .fn_ok payload lock
    | .error e => exact .fn_fail payload lock e
  | mark payload lock =>
    cases h
    match r with
    | .ok _ => exact .mark_ok payload lock
    | .error e => exact .mark_fail payload lock e
  | republish payload lock err =>
    cases h
    match r with
    | .ok _ => exact .republish_ok payload lock err
    | .error e => exact .republish_fail payload lock err e
  | release lock result =>
    cases h
    match r with
    | .ok b => exact .release_ok lock result b
    | .error e => exact .release_fail lock result e
  | confirm payload err =>
    cases h
    match r with
    | .ok _ => exact .confirm_ok payload err
    | .error e => exact .confirm_fail payload err e
  | done result => cases h

/-- A release that settles before the publish in front of it. -/
theorem step_of_beside {q : Publication} {lock : Lock} {k : Except JsError Bool → Point}
    (h : (p.view c).beside = some (q, lock, k)) (r : Except JsError Bool) :
    Step c p (.release lock) r (k r) ∧ (p.view c).publication? = some q := by
  match p with
  | republish payload lock err =>
    cases h
    match r with
    | .ok b => exact ⟨.overtake_ok payload lock err b, rfl⟩
    | .error e => exact ⟨.overtake_fail payload lock err e, rfl⟩
  | get | reject _ | acquire _ | fn _ _ | mark _ _ | release _ _ | confirm _ _ | done _ => cases h

/-- A publish that is under way is the call in front. -/
theorem step_of_publication? {q : Publication} (h : (p.view c).publication? = some q)
    (r : Except JsError Unit) : ∃ p', Step c p (.publish q) r p' := by
  match p with
  | reject reason =>
    cases h
    exact ⟨_, step_of_next (p := reject reason) rfl r⟩
  | republish payload lock err =>
    cases h
    exact ⟨_, step_of_next (p := republish payload lock err) rfl r⟩
  | confirm payload err =>
    cases h
    exact ⟨_, step_of_next (p := confirm payload err) rfl r⟩
  | get | acquire _ | fn _ _ | mark _ _ | release _ _ | done _ => cases h

end Point

/-- The point where `handle` starts: it reads the marker, or rejects a message without an
id. -/
def Context.start (c : Context) : Point :=
  if c.messageId = "" then Point.reject "missing-message-id" else Point.get

theorem Context.handle_eq (c : Context) : c.handle = c.start.program c := by
  unfold Context.handle MessageConsumer.handle Context.start
  by_cases h : c.messageId = ""
  · rw [if_pos h]
    exact if_pos h
  · rw [if_neg h]
    exact if_neg h

end NestFastify.Messaging
