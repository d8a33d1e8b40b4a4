import NestFastify.Mail.Jobs
import NestFastify.Messaging.ConsumerSystem

/-!
# One welcome mail for each event

The consumers over one broker and one Redis, together with the mail queue. The handler of the
subscription `mail` adds a job under the message id, and the mail worker processes jobs at any
time. A job that has completed is gone, so its id only keeps another one out until then; from
then on only the marker in Redis does.
-/

namespace NestFastify.Mail

open Messaging (Deployment Machine MessagingState Outcome Code codeMachine)
open Transition (Reaches)

/-- `sent` records the jobs that `MailProcessor.process` has completed, `enqueued` the message
ids for which the handler's `queue.add` has taken effect, with the instant. -/
structure MailState (P : Type) where
  messaging : MessagingState P
  queue : Queue
  sent : List Job
  enqueued : List (Option String × ℕ)

inductive MailAction where
  | messaging (a : Messaging.Action)
  | process (i : ℕ)

def MailState.init (P : Type) : MailState P where
  messaging := .init P
  queue := .empty
  sent := []
  enqueued := []

/-- A call that rejects may have had its effect all the same. -/
def takesEffect : Outcome → Bool
  | .resolves => true
  | .rejects _ effect => effect

section System

variable {P : Type} (D : Deployment) (refused : RefusedIds) (M : Machine P)

/-- The message and the payload for which the step executes the handler of `mail`. -/
def handled (s : MessagingState P) :
    Messaging.Action → Option (Option String × Messaging.EventPayload)
  | .perform i outcome =>
    match Deployment.delivery? s i with
    | some (l, d) =>
      match M.view d.code (D.context l d) with
      | .awaits (.fn payload) _ =>
        if d.subscription = mail ∧ takesEffect outcome then some (l.message.messageId, payload)
        else none
      | _ => none
    | none => none
  | _ => none

/-- The same, when the `queue.add` of the handler is not refused. -/
def enqueues (s : MailState P) (a : Messaging.Action) :
    Option (Option String × Messaging.EventPayload) :=
  (handled D M s.messaging a).filter fun r => (runFn refused s.queue r.1 r.2).2.isOk

/-- A handler whose `queue.add` is refused does not resolve. -/
def settles (s : MailState P) : Messaging.Action → Bool
  | .perform i .resolves => (handled D M s.messaging (.perform i .resolves)).all fun r =>
      (runFn refused s.queue r.1 r.2).2.isOk
  | _ => true

/-- The messaging has moved on to `s'`, and the handler has run if it was its turn. -/
def moved (s : MailState P) (a : Messaging.Action) (s' : MessagingState P) : MailState P :=
  match enqueues D refused M s a with
  | some (messageId, payload) => { s with
      messaging := s'
      queue := (runFn refused s.queue messageId payload).1
      enqueued := s.enqueued ++ [(messageId, s.messaging.now)] }
  | none => { s with messaging := s' }

def step (s : MailState P) : MailAction → Option (MailState P)
  | .messaging a =>
    if settles D refused M s a then (D.step M s.messaging a).map (moved D refused M s a) else none
  | .process i =>
    match s.queue.complete i with
    | some (q, job) =>
      match MailProcessor.process job with
      | .ok _ => some { s with queue := q, sent := s.sent ++ [job] }
      | .error _ => none
    | none => none

/-! ## The property -/

/-- How many mails have been sent for the message. -/
def mailsSent (m : String) (s : MailState P) : ℕ := s.sent.countP fun job => decide (job.id = m)

/-- The step is within `RABBITMQ_IDEMPOTENCY_TTL` of the first enqueue for the message. -/
def withinTtl (m : String) (s : MailState P) (_ : MailAction) : Bool :=
  s.enqueued.all fun e => decide (e.1 = some m → s.messaging.now ≤ e.2 +
    D.env.RABBITMQ_IDEMPOTENCY_TTL * 1000)

/-- The step does not enqueue a mail for the message when one has been sent already. -/
def enqueuesUnsent (m : String) (s : MailState P) : MailAction → Bool
  | .messaging a =>
    match enqueues D refused M s a with
    | some (messageId, _) => decide (s.queue.idFor messageId = m →
        mailsSent m s = 0)
    | none => true
  | .process _ => true

end System

section Proofs

variable {P : Type} {D : Deployment} {refused : RefusedIds} {M : Machine P} {m : String}
  {s s' : MailState P} {a : MailAction}

/-- The handler adds no job, or one whose id had none. -/
theorem open_runFn (q : Queue) (messageId : Option String) (payload : Messaging.EventPayload) :
    (runFn refused q messageId payload).1.open m = q.open m ∨
      (q.idFor messageId = m ∧ q.open m = 0 ∧
        (runFn refused q messageId payload).1.open m = 1) := by
  cases payload with
  | notificationCreated userId message => exact Or.inl rfl
  | userRegistered userId email name =>
    rw [runFn_registered]
    cases hrefused : messageId.bind refused with
    | some e =>
      rw [Queue.add_of_refused hrefused]
      exact Or.inl rfl
    | none =>
      rw [Queue.add_of_not_refused hrefused]
      exact Queue.open_put m q "send" (welcomeMail email name) ⟨messageId, 3, 1000, true⟩

/-- A step of the messaging is one of the consumers, and its handler settles as its `queue.add`
does. -/
theorem messaging_cases {act : Messaging.Action}
    (hs : step D refused M s (.messaging act) = some s') :
    ∃ t, D.step M s.messaging act = some t ∧ settles D refused M s act = true ∧
      s' = moved D refused M s act t := by
  obtain ⟨hsettles, hmap⟩ := Option.ite_none_right_eq_some.mp hs
  obtain ⟨t, ht, rfl⟩ := Option.map_eq_some_iff.mp hmap
  exact ⟨t, ht, hsettles, rfl⟩

/-- Without a job that is added the queue stays as it is. -/
theorem moved_of_none {act : Messaging.Action} {t : MessagingState P}
    (h : enqueues D refused M s act = none) :
    moved D refused M s act t = { s with messaging := t } := by
  unfold moved
  rw [h]

/-- The handler has run, and its job is on record. -/
theorem moved_of_some {act : Messaging.Action} {t : MessagingState P}
    {r : Option String × Messaging.EventPayload} (h : enqueues D refused M s act = some r) :
    moved D refused M s act t = { s with
      messaging := t
      queue := (runFn refused s.queue r.1 r.2).1
      enqueued := s.enqueued ++ [(r.1, s.messaging.now)] } := by
  unfold moved
  rw [h]

theorem messaging_moved (s : MailState P) (act : Messaging.Action) (t : MessagingState P) :
    (moved D refused M s act t).messaging = t := by
  unfold moved
  split <;> rfl

/-- Mails sent and mails in the queue are one at most. -/
theorem step_sent (h : mailsSent m s + s.queue.open m ≤ 1)
    (ha : enqueuesUnsent D refused M m s a = true) (hs : step D refused M s a = some s') :
    mailsSent m s' + s'.queue.open m ≤ 1 := by
  match a with
  | .messaging act =>
    obtain ⟨t, -, -, rfl⟩ := messaging_cases hs
    unfold enqueuesUnsent at ha
    dsimp only at ha
    cases henqueues : enqueues D refused M s act with
    | some r =>
      obtain ⟨messageId, payload⟩ := r
      rw [henqueues] at ha
      rw [moved_of_some henqueues]
      have hunsent := of_decide_eq_true ha
      rcases @open_runFn refused m s.queue messageId payload with hsame | ⟨hid, hnone, hone⟩
      · show mailsSent m s + (runFn refused s.queue messageId payload).1.open m ≤ 1
        omega
      · have hzero := hunsent hid
        show mailsSent m s + (runFn refused s.queue messageId payload).1.open m ≤ 1
        omega
    | none =>
      rw [moved_of_none henqueues]
      exact h
  | .process i =>
    unfold step at hs
    dsimp only at hs
    split at hs
    -- a job that is completed leaves the queue and sends its mail
    · rename_i q job hcomplete
      cases hs
      have hopen := @Queue.open_complete s.queue q m i job hcomplete
      have hsent : mailsSent m { s with queue := q, sent := s.sent ++ [job] } =
          mailsSent m s + if job.id = m then 1 else 0 := by
        simp [mailsSent, List.countP_append, List.countP_singleton]
      rw [hsent]
      show _ + q.open m ≤ 1
      omega
    · exact nomatch hs

/-- As long as no mail is enqueued for a message for which one has been sent, at most one is
sent. -/
theorem mailsSent_le_one {t : MailState Code}
    (h : Reaches (step D refused codeMachine)
      (fun u a => enqueuesUnsent D refused codeMachine m u a = true) (.init Code) t) :
    mailsSent m t ≤ 1 := by
  have hall : mailsSent m t + t.queue.open m ≤ 1 := by
    apply h.invariant
    · exact Nat.zero_le 1
    · intro u a v hu ha hv
      exact step_sent hu ha hv
  omega

end Proofs

/-! ## Runs -/

/-- The message is delivered to `mail`, its mail is enqueued, and the marker cannot be set, so a
retry copy is published. -/
def unmarked : List Messaging.Action :=
  [.publish "user.registered"
      (.obj [("userId", .str "u1"), ("email", .str "a@b.c"), ("name", .str "An")]) "m1" none,
    .deliver 0 mail "2026-06-06T00:00:00Z"] ++ Messaging.resolving 0 3 ++
    [.perform 0 (.rejects (.error "ECONNRESET") false)] ++ Messaging.resolving 0 2 ++ [.settle 0]

/-- The retry copy is delivered and the handler enqueues the mail again. -/
def redelivered : List Messaging.Action :=
  [.expire 1, .deliver 2 mail "2026-06-06T00:00:05Z"] ++ Messaging.resolving 2 3

/-- BullMQ takes every id. -/
def takesAll : RefusedIds := fun _ => none

/-- The job still exists when the retry copy is handled. -/
theorem mailsSent_le_one_redelivered :
    ∃ t, Reaches (step (Messaging.defaultDeployment [mail]) takesAll codeMachine) (fun u a =>
        enqueuesUnsent (Messaging.defaultDeployment [mail]) takesAll codeMachine "m1" u a = true)
        (.init Code) t ∧ t.enqueued = [(some "m1", 0), (some "m1", 0)] ∧ t.sent.length = 1 ∧
      mailsSent "m1" t ≤ 1 := by
  have hrun : (Transition.run (step (Messaging.defaultDeployment [mail]) takesAll codeMachine)
      (fun u a =>
        enqueuesUnsent (Messaging.defaultDeployment [mail]) takesAll codeMachine "m1" u a = true)
      (.init Code) ((unmarked ++ redelivered).map .messaging ++ [.process 0])).map (fun t => decide
        (t.enqueued = [(some "m1", 0), (some "m1", 0)] ∧ t.sent.length = 1)) = some true := by
    decide +kernel
  obtain ⟨t, ht, htest⟩ := Transition.exists_reaches_of_run hrun
  obtain ⟨henqueued, hsent⟩ := of_decide_eq_true htest
  exact ⟨t, ht, henqueued, hsent, mailsSent_le_one ht⟩

/-- The mail is sent before the retry copy is handled, and so a second one is. -/
theorem not_mailsSent_le_one :
    ∃ t, Reaches (step (Messaging.defaultDeployment [mail]) takesAll codeMachine) (fun u a =>
        withinTtl (Messaging.defaultDeployment [mail]) "m1" u a = true) (.init Code) t ∧
      mailsSent "m1" t = 2 ∧ ¬ mailsSent "m1" t ≤ 1 := by
  have hrun : (Transition.run (step (Messaging.defaultDeployment [mail]) takesAll codeMachine)
      (fun u a => withinTtl (Messaging.defaultDeployment [mail]) "m1" u a = true) (.init Code)
      (unmarked.map .messaging ++ [.process 0] ++ redelivered.map .messaging ++
        [.process 0])).map (fun t => decide
        (mailsSent "m1" t = 2 ∧ ¬ mailsSent "m1" t ≤ 1)) = some true := by
    decide +kernel
  obtain ⟨t, ht, htest⟩ := Transition.exists_reaches_of_run hrun
  exact ⟨t, ht, of_decide_eq_true htest⟩

end NestFastify.Mail
