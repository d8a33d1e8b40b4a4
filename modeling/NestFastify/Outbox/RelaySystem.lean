import NestFastify.Foundation.RowStore
import NestFastify.Foundation.Transition
import NestFastify.Outbox.Relay

/-!
# Relays over one outbox

Any number of relays that drain the same table, each with at most one `drainOnce` at a time. A
step settles the next call of one drain, in whatever way, or opens or loses a drain, enqueues a
row, or lets time pass. A transaction that has timed out has been rolled back, and its later
statements reject; so do those after a failed statement.

`confirmed` lists the publications that the broker has confirmed, `recorded` the message of each
publish that has rejected in a drain that has committed.
-/

namespace NestFastify.Outbox

open Messaging (Publication)

/-- How a call settles; `unanswered` has been executed, but rejects. -/
inductive Outcome where
  | resolves
  | rejects (e : JsError)
  | unanswered (e : JsError)
deriving DecidableEq

/-- What the relays share, and the settings of each. -/
structure Deployment where
  z : Messaging.Zod
  eventsExchange : String
  maxAttempts : ℕ
  pollMs : ℕ → ℕ
  batch : ℕ → ℕ

def Deployment.relay (D : Deployment) (i : ℕ) : OutboxRelayService :=
  ⟨D.pollMs i, D.batch i, D.maxAttempts⟩

/-- A `drainOnce` under way, with the messages whose publish it has seen resolve and reject. -/
structure Drain where
  code : RelayCode Unit
  published : List String
  rejected : List String

structure OutboxState where
  now : ℕ
  db : RowStore String OutboxEvent
  drain : ℕ → Option Drain
  confirmed : List Publication
  recorded : List String

inductive RelayAction where
  | enqueue (data : EnqueueOutboxData) (id randomUUID : String) (createdAt : ℕ)
  | start (i : ℕ)
  | perform (i : ℕ) (outcome : Outcome) (clock : ℕ)
  | finish (i : ℕ)
  | timeout (i : ℕ)
  | crash (i : ℕ)
  | tick (ms : ℕ)

/-- The relay whose drain the step is about. -/
def RelayAction.relay : RelayAction → Option ℕ
  | start i | perform i _ _ | finish i | timeout i | crash i => some i
  | enqueue .. | tick _ => none

abbrev OutboxTxn : Type := Txn String OutboxEvent

def transactionClosed : JsError := .error "Transaction already closed"

def transactionAborted : JsError :=
  .error "current transaction is aborted, commands ignored until end of transaction block"

def recordNotFound : JsError := .error "No record was found for an update."

/-- What the drain remembers of a call that has settled. -/
def Drain.after (d : Drain) : (c : RelayCall) → Except JsError c.Reply → Drain
  | .publish _ _ messageId _, .ok _ => { d with published := d.published ++ [messageId] }
  | .publish _ _ messageId _, .error _ => { d with rejected := d.rejected ++ [messageId] }
  | _, _ => d

/-- Settling the call this way aborts the transaction. A commit whose reply is lost has been
executed. -/
def Outcome.abortsAt (outcome : Outcome) : RelayCall → Bool
  | .claimPending _ | .update .. => decide (outcome ≠ .resolves)
  | .commit => match outcome with
    | .rejects _ => true
    | _ => false
  | _ => false

namespace OutboxState

/-- An empty table, and `n` relays. -/
def init (n : ℕ) : OutboxState where
  now := 0
  db := ⟨[], List.replicate n none⟩
  drain _ := none
  confirmed := []
  recorded := []

section Operations

variable (s : OutboxState) (i : ℕ)

/-- A statement in the transaction of relay `i`. -/
def statement {α : Type} (outcome : Outcome)
    (run : OutboxTxn → Option (OutboxState × Except JsError α)) :
    Option (OutboxState × Except JsError α) :=
  match s.db.txn? i with
  | none => some (s, .error transactionClosed)
  | some t =>
    if t.failed then some (s, .error transactionAborted)
    else match outcome with
      | .resolves => run t
      | .rejects e | .unanswered e => some ({ s with db := s.db.fail i t }, .error e)

/-- The statement of `claimPending`; `now()` is the start of the transaction. -/
def claim (t : OutboxTxn) (limit : ℕ) : OutboxState × List OutboxEvent :=
  let r := s.db.claim OutboxEvent.id i t (PrismaOutboxRepository.claimable t.startedAt)
    OutboxEvent.createdAt limit
  ({ s with db := r.1 }, r.2)

/-- An update waits while another transaction has locked the row. -/
def runUpdate (clock : ℕ) (t : OutboxTxn) (id : String) (data : OutboxUpdate) :
    Option (OutboxState × Except JsError OutboxEvent) :=
  if s.db.lockedElsewhere i id then none
  else match s.db.rows.find? fun row => decide (row.id = id) with
    | none => some (s, .error recordNotFound)
    | some row =>
      let r := s.db.update OutboxEvent.id i t id row (data.apply clock)
      some ({ s with db := r.1 }, .ok r.2)

def committed (d : Drain) (t : OutboxTxn) : OutboxState :=
  { s with db := s.db.commit OutboxEvent.id i t, recorded := s.recorded ++ d.rejected }

/-- The end of a transaction whose function has resolved. -/
def runCommit (d : Drain) (outcome : Outcome) : OutboxState × Except JsError Unit :=
  match s.db.txn? i with
  | none => (s, .error transactionClosed)
  | some t =>
    -- a COMMIT of an aborted transaction rolls it back and reports no error
    if t.failed then ({ s with db := s.db.rollback i }, .ok ())
    else match outcome with
      | .resolves => (s.committed i d t, .ok ())
      | .rejects e => ({ s with db := s.db.rollback i }, .error e)
      -- committed, but the relay does not hear of it
      | .unanswered e => (s.committed i d t, .error e)

/-- A call of drain `i` has settled. -/
def resume (d : Drain) (c : RelayCall) (k : Except JsError c.Reply → RelayCode Unit)
    (r : OutboxState × Except JsError c.Reply) : OutboxState :=
  { r.1 with
    drain := Function.update s.drain i (some { d.after c r.2 with code := k r.2 }) }

/-- `drainOnce` has settled. -/
def finish : Option OutboxState :=
  match s.drain i with
  | none => none
  | some d =>
    match d.code.view with
    | .settled _ => some { s with drain := Function.update s.drain i none }
    | _ => none

/-- A row is committed; its keys are unique. -/
def enqueue (row : OutboxEvent) : Option OutboxState :=
  if row.id ∉ s.db.rows.map OutboxEvent.id ∧
    row.messageId ∉ s.db.rows.map OutboxEvent.messageId then
    some { s with db := s.db.insert row }
  else none

/-- The call that drain `i` awaits. -/
def awaited : Option RelayCall :=
  match s.drain i with
  | none => none
  | some d =>
    match d.code.view with
    | .awaits c _ => some c
    | _ => none

/-- The step aborts the transaction of a drain: a statement or the commit fails, the time is up,
or the relay dies. -/
def aborts : RelayAction → Bool
  | .perform i outcome _ => (s.awaited i).any outcome.abortsAt
  | .timeout i | .crash i => (s.db.txn? i).isSome
  | _ => false

/-- The drain whose transaction the step commits. -/
def commits : RelayAction → Option Drain
  | .perform i outcome _ =>
    match s.awaited i, s.db.txn? i with
    | some .commit, some t =>
      if t.failed || outcome.abortsAt .commit then none else s.drain i
    | _, _ => none
  | _ => none

end Operations

end OutboxState

namespace Deployment

variable (D : Deployment) (s : OutboxState) (i : ℕ)

/-- `publisher.publish`: validate the payload, then await the confirm of the broker. -/
def runPublish (outcome : Outcome) (routingKey : String) (payload : Json) (messageId : String)
    (requestId : Option String) : OutboxState × Except JsError Unit :=
  match Messaging.EventPublisherService.publish D.z D.eventsExchange routingKey payload messageId
    requestId, outcome with
  | .await (.publish p) _, .resolves => ({ s with confirmed := s.confirmed ++ [p] }, .ok ())
  -- the payload fails its contract, and nothing is sent
  | .reject e, _ => (s, .error e)
  | _, .rejects e | _, .unanswered e => (s, .error e)
  | _, .resolves => (s, .ok ())

def execute (d : Drain) (outcome : Outcome) (clock : ℕ) :
    (c : RelayCall) → Option (OutboxState × Except JsError c.Reply)
  | .begin => match outcome with
    | .resolves => some ({ s with db := s.db.begin i s.now }, .ok ())
    | .rejects e | .unanswered e => some (s, .error e)
  | .claimPending limit => s.statement i outcome fun t =>
    some ((s.claim i t limit).1, .ok (s.claim i t limit).2)
  | .publish routingKey payload messageId requestId =>
    some (D.runPublish s outcome routingKey payload messageId requestId)
  | .update id data => s.statement i outcome fun t => s.runUpdate i clock t id data
  | .commit => some (s.runCommit i d outcome)
  | .rollback => some ({ s with db := s.db.rollback i }, .ok ())

/-- The next call of drain `i` settles. -/
def perform (outcome : Outcome) (clock : ℕ) : Option OutboxState :=
  match s.drain i with
  | none => none
  | some d =>
    match d.code.view with
    | .awaits c k => (D.execute s i d outcome clock c).map (s.resume i d c k)
    | _ => none

def start : Option OutboxState :=
  if i < s.db.txns.length ∧ (s.drain i).isNone then
    some { s with drain := Function.update s.drain i (some ⟨(D.relay i).drainOnce, [], []⟩) }
  else none

def step : RelayAction → Option OutboxState
  | .enqueue data id randomUUID createdAt =>
    s.enqueue (PrismaOutboxRepository.enqueue id randomUUID createdAt data)
  | .start i => D.start s i
  | .perform i outcome clock => D.perform s i outcome clock
  | .finish i => s.finish i
  -- the drain goes on, and finds its transaction closed
  | .timeout i => some { s with db := s.db.rollback i }
  | .crash i =>
    some { s with db := s.db.rollback i, drain := Function.update s.drain i none }
  | .tick ms => some { s with now := s.now + ms }

end Deployment

end NestFastify.Outbox
