import NestFastify.Messaging.Consume

/-!
# The outbox relay

`PrismaOutboxRepository` (outbox.repository.prisma.ts) and `OutboxRelayService.drainOnce`
(outbox-relay.service.ts) as async functions. `RelayCall` lists what they await: the statements of
the repository, the publisher, and the beginning and end of the transaction that
`TransactionManager.run` opens around a batch.
-/

namespace NestFastify.Outbox

open Messaging (EventPayload)

/-! ## Rows -/

inductive Status | pending | published | failed
deriving DecidableEq

/-- A row of the table OutboxEvent. -/
structure OutboxEvent where
  id : String
  messageId : String
  routingKey : String
  payload : Json
  requestId : Option String
  status : Status
  attempts : ℕ
  availableAt : ℕ
  createdAt : ℕ
  publishedAt : Option ℕ

/-- The `K` of an `EventPayload<K>`. -/
def routingKeyOf : EventPayload → String
  | .userRegistered .. => "user.registered"
  | .notificationCreated .. => "notification.created"

structure EnqueueOutboxData where
  routingKey : String
  payload : EventPayload
  messageId : Option String
  requestId : Option String
  typed : routingKey = routingKeyOf payload

/-- A change that an `update` of the repository makes. -/
inductive OutboxUpdate where
  | published
  | attempted (retryDelayMs : ℕ)
  | failed
deriving DecidableEq

/-- The `data` of the update, with what `Temporal.Now` has read. -/
def OutboxUpdate.apply (clock : ℕ) : OutboxUpdate → OutboxEvent → OutboxEvent
  | published, row => { row with status := .published, publishedAt := some clock }
  | attempted retryDelayMs, row =>
    { row with attempts := row.attempts + 1, availableAt := clock + retryDelayMs }
  | failed, row => { row with status := .failed }

/-! ## Calls -/

inductive RelayCall where
  | begin
  | claimPending (limit : ℕ)
  | publish (routingKey : String) (payload : Json) (messageId : String) (requestId : Option String)
  | update (id : String) (data : OutboxUpdate)
  | commit
  | rollback

def RelayCall.Reply : RelayCall → Type
  | begin => Unit
  | claimPending _ => List OutboxEvent
  | publish .. => Unit
  | update .. => OutboxEvent
  | commit => Unit
  | rollback => Unit

abbrev RelayCode (α : Type) : Type := Async JsError RelayCall RelayCall.Reply α

def begin : RelayCode Unit := Async.call RelayCall.begin

def commit : RelayCode Unit := Async.call RelayCall.commit

def rollback : RelayCode Unit := Async.call RelayCall.rollback

/-- `this.publisher.publish`. -/
def publish (row : OutboxEvent) : RelayCode Unit :=
  Async.call (RelayCall.publish row.routingKey row.payload row.messageId row.requestId)

def update (id : String) (data : OutboxUpdate) : RelayCode OutboxEvent :=
  Async.call (RelayCall.update id data)

namespace PrismaOutboxRepository

/-- The row that `enqueue` creates, with the defaults of the schema. -/
def enqueue (id randomUUID : String) (now : ℕ) (data : EnqueueOutboxData) : OutboxEvent where
  id := id
  messageId := data.messageId.getD randomUUID
  routingKey := data.routingKey
  payload := data.payload.toJson
  requestId := data.requestId
  status := .pending
  attempts := 0
  availableAt := now
  createdAt := now
  publishedAt := none

/-- The `WHERE` clause of `claimPending`. -/
def claimable (now : ℕ) (row : OutboxEvent) : Bool :=
  decide (row.status = .pending ∧ row.availableAt ≤ now)

def claimPending (limit : ℕ) : RelayCode (List OutboxEvent) :=
  Async.call (RelayCall.claimPending limit)

def markPublished (id : String) : RelayCode Unit := do
  let _ ← update id .published
  return ()

/-- The second update of `markFailed`. -/
def giveUp (id : String) : RelayCode Unit := do
  let _ ← update id .failed
  return ()

def markFailed (id : String) (retryDelayMs maxAttempts : ℕ) : RelayCode Unit := do
  let row ← update id (.attempted retryDelayMs)
  -- the row that the first update has returned, with the new count
  if maxAttempts ≤ row.attempts then giveUp id

end PrismaOutboxRepository

/-- `$transaction(fn)`: what rejects is rolled back, and an error of the rollback is dropped. -/
def transaction (fn : RelayCode Unit) : RelayCode Unit := do
  begin
  Async.tryCatch (do fn; commit) fun e => do
    Async.tryCatch rollback fun _ => return ()
    -- the caller sees why the transaction was rolled back
    Async.throw e

/-! ## OutboxRelayService -/

structure OutboxRelayService where
  pollMs : ℕ
  batch : ℕ
  maxAttempts : ℕ

namespace OutboxRelayService

variable (this : OutboxRelayService)

/-- One turn of the loop over the batch. -/
def handleRow (row : OutboxEvent) : RelayCode Unit :=
  -- the `try` covers both awaits: a mark that rejects counts as a failed attempt too
  Async.tryCatch (do publish row; PrismaOutboxRepository.markPublished row.id) fun _ =>
    PrismaOutboxRepository.markFailed row.id (this.pollMs * 5) this.maxAttempts

def handleRows : List OutboxEvent → RelayCode Unit
  | [] => return ()
  | row :: rest => do
    this.handleRow row
    handleRows rest

def drainOnce : RelayCode Unit := transaction do
  let rows ← PrismaOutboxRepository.claimPending this.batch
  this.handleRows rows

end OutboxRelayService

/-! ## Where drainOnce can be suspended -/

/-- A suspended `drainOnce`, with the rows of the batch that are still to be handled. -/
inductive RelayPoint where
  | beginning
  | claiming
  | publishing (row : OutboxEvent) (rest : List OutboxEvent)
  | marking (row : OutboxEvent) (rest : List OutboxEvent)
  | counting (row : OutboxEvent) (rest : List OutboxEvent)
  | failing (row : OutboxEvent) (rest : List OutboxEvent)
  | committing
  | rollingBack (e : JsError)
  | settled (result : Except JsError Unit)

namespace RelayPoint

variable (this : OutboxRelayService)

/-- The end of the transaction, on the way in which `fn` settles. -/
def finishing (fn : RelayCode Unit) : RelayCode Unit :=
  Async.tryCatch (do fn; commit) fun e => do
    Async.tryCatch rollback fun _ => return ()
    Async.throw e

def program : RelayPoint → RelayCode Unit
  | beginning => this.drainOnce
  | claiming => finishing do
    let rows ← PrismaOutboxRepository.claimPending this.batch
    this.handleRows rows
  | publishing row rest => finishing do
    this.handleRow row
    this.handleRows rest
  | marking row rest => finishing do
    Async.tryCatch (PrismaOutboxRepository.markPublished row.id) fun _ =>
      PrismaOutboxRepository.markFailed row.id (this.pollMs * 5) this.maxAttempts
    this.handleRows rest
  | counting row rest => finishing do
    PrismaOutboxRepository.markFailed row.id (this.pollMs * 5) this.maxAttempts
    this.handleRows rest
  | failing row rest => finishing do
    PrismaOutboxRepository.giveUp row.id
    this.handleRows rest
  | committing => finishing (return ())
  | rollingBack e => do
    Async.tryCatch rollback fun _ => return ()
    Async.throw e
  | settled result => Async.settled result

/-- The next row, or the end of the batch. -/
def next : List OutboxEvent → RelayPoint
  | [] => committing
  | row :: rest => publishing row rest

/-- A call that rejects outside the `try` makes the transaction roll back. -/
def orRollback {α : Type} (f : α → RelayPoint) : Except JsError α → RelayPoint
  | .ok a => f a
  | .error e => rollingBack e

def view : RelayPoint → Async.View JsError RelayCall RelayCall.Reply Unit RelayPoint
  -- nothing has begun that could be rolled back
  | beginning => .awaits .begin fun
    | .ok _ => claiming
    | .error e => settled (.error e)
  | claiming => .awaits (.claimPending this.batch) (orRollback next)
  | publishing row rest =>
    .awaits (.publish row.routingKey row.payload row.messageId row.requestId) fun
    | .ok _ => marking row rest
    | .error _ => counting row rest
  -- still inside the `try` of the row
  | marking row rest => .awaits (.update row.id .published) fun
    | .ok _ => next rest
    | .error _ => counting row rest
  | counting row rest => .awaits (.update row.id (.attempted (this.pollMs * 5)))
    (orRollback fun (updated : OutboxEvent) =>
      if this.maxAttempts ≤ updated.attempts then failing row rest else next rest)
  | failing row rest => .awaits (.update row.id .failed) (orRollback fun _ => next rest)
  | committing => .awaits .commit (orRollback fun _ => settled (.ok ()))
  | rollingBack e => .awaits .rollback fun _ => settled (.error e)
  | settled result => .settled result

theorem next_program (rows : List OutboxEvent) :
    (next rows).program this = finishing (this.handleRows rows) := by
  match rows with
  | [] => rfl
  | row :: rest => rfl

/-- The points are those of `drainOnce`. -/
theorem view_program (p : RelayPoint) :
    (p.program this).view = (p.view this).map (program this) := by
  match p with
  | beginning => exact Async.view_await rfl (fun _ => rfl) fun _ => rfl
  | claiming =>
    exact Async.view_await rfl (fun rows => (next_program this rows).symm) fun _ => rfl
  | publishing row rest => exact Async.view_await rfl (fun _ => rfl) fun _ => rfl
  | marking row rest =>
    exact Async.view_await rfl (fun _ => (next_program this rest).symm) fun _ => rfl
  | counting row rest =>
    refine Async.view_await rfl (fun updated => ?_) fun _ => rfl
    show finishing (Async.bind (if this.maxAttempts ≤ updated.attempts then _ else _) _) =
      program this (if this.maxAttempts ≤ updated.attempts then failing row rest else next rest)
    by_cases hlast : this.maxAttempts ≤ updated.attempts
    · rw [if_pos hlast, if_pos hlast]
      rfl
    · rw [if_neg hlast, if_neg hlast, next_program]
      rfl
  | failing row rest =>
    exact Async.view_await rfl (fun _ => (next_program this rest).symm) fun _ => rfl
  | committing => exact Async.view_await rfl (fun _ => rfl) fun _ => rfl
  | rollingBack e => exact Async.view_await rfl (fun _ => rfl) fun _ => rfl
  | settled (.ok ()) => rfl
  | settled (.error e) => rfl

end RelayPoint

end NestFastify.Outbox
