import NestFastify.Foundation.Async
import NestFastify.Messaging.Contracts

/-!
# Mail jobs

`MailProducer.enqueue`, `MailProcessor.process` and the handler of `UserRegisteredConsumer`
(mail.producer.ts, mail.processor.ts, user-registered.consumer.ts), and the BullMQ queue between
them: a job id that exists in the queue is not added again, and an id that BullMQ refuses is not
added at all. Which ids these are is a parameter.
-/

namespace NestFastify.Mail

open Messaging (EventPayload)

structure SendMailJob where
  «to» : String
  subject : String
  body : String
deriving DecidableEq

structure JobsOptions where
  jobId : Option String
  attempts : ℕ
  backoffDelay : ℕ
  removeOnComplete : Bool
deriving DecidableEq

/-- A job in the queue; `completed` when it is kept there after it has completed. -/
structure Job where
  id : String
  name : String
  data : SendMailJob
  opts : JobsOptions
  completed : Bool
deriving DecidableEq

/-! ## The queue -/

/-- `lastId` is the counter for jobs that are added without an id. -/
structure Queue where
  jobs : List Job
  lastId : ℕ

/-- What BullMQ throws for a job id that it does not take. -/
abbrev RefusedIds : Type := String → Option JsError

namespace Queue

def empty : Queue := ⟨[], 0⟩

def has (q : Queue) (id : String) : Bool := q.jobs.any fun job => decide (job.id = id)

/-- The id that a job is added under. -/
def idFor (q : Queue) (jobId : Option String) : String := jobId.getD (toString (q.lastId + 1))

/-- A job is put into the queue, unless its id is there. -/
def put (q : Queue) (name : String) (data : SendMailJob) (opts : JobsOptions) : Queue :=
  if q.has (q.idFor opts.jobId) then q
  else ⟨q.jobs ++ [⟨q.idFor opts.jobId, name, data, opts, false⟩], q.lastId + 1⟩

/-- `queue.add` resolves to the job's id. -/
def add (refused : RefusedIds) (q : Queue) (name : String) (data : SendMailJob)
    (opts : JobsOptions) : Queue × Except JsError String :=
  match opts.jobId.bind refused with
  | some e => (q, .error e)
  | none => (q.put name data opts, .ok (q.idFor opts.jobId))

/-- Job `i` has been processed: it is removed, or kept as completed. -/
def complete (q : Queue) (i : ℕ) : Option (Queue × Job) :=
  match q.jobs[i]? with
  | some job =>
    if job.completed then none
    else some (if job.opts.removeOnComplete then { q with jobs := q.jobs.eraseIdx i }
      else { q with jobs := q.jobs.set i { job with completed := true } }, job)
  | none => none

end Queue

/-! ## Producer and consumer -/

inductive MailCall where
  | add (name : String) (data : SendMailJob) (opts : JobsOptions)

/-- `queue.add` resolves to a job, of which only the id is read. -/
def MailCall.Reply : MailCall → Type
  | add .. => String

abbrev MailCode (α : Type) : Type := Async JsError MailCall MailCall.Reply α

def callAdd (name : String) (data : SendMailJob) (opts : JobsOptions) : MailCode String :=
  Async.call (MailCall.add name data opts)

def MailProducer.enqueue (data : SendMailJob) (jobId : Option String) : MailCode String :=
  callAdd "send" data ⟨jobId, 3, 1000, true⟩

def welcomeMail (email : String) (name : Option String) : SendMailJob where
  «to» := email
  subject := "Chào mừng!"
  body := "Xin chào " ++ name.getD email ++ ", tài khoản của bạn đã sẵn sàng."

/-- The `fn` that `UserRegisteredConsumer.handle` passes on. The payload is one of
`user.registered`. -/
def UserRegisteredConsumer.fn (messageId : Option String) : EventPayload → MailCode Unit
  | .userRegistered _ email name => do
    let _ ← MailProducer.enqueue (welcomeMail email name) messageId
    return ()
  | .notificationCreated .. => return ()

/-- The subscription of `UserRegisteredConsumer`. -/
def mail : Messaging.Subscription := ⟨"mail", "user.registered"⟩

/-- `MailProcessor.process` sends the mail and resolves. -/
def MailProcessor.process (_ : Job) : Except JsError Bool := .ok true

/-! ## What the operations do -/

section Queue

variable {q q' : Queue} {data : SendMailJob} {opts : JobsOptions} {name m id : String} {i : ℕ}
  {job : Job}

def handleCall (refused : RefusedIds) (q : Queue) :
    (call : MailCall) → Queue × Except JsError call.Reply
  | .add name data opts => q.add refused name data opts

/-- The handler of a registration settles as its `queue.add` does. -/
theorem exec_fn (refused : RefusedIds) (messageId : Option String) (userId email : String)
    (userName : Option String) :
    (UserRegisteredConsumer.fn messageId (.userRegistered userId email userName)).exec
        (handleCall refused) q =
      let r := q.add refused "send" (welcomeMail email userName) ⟨messageId, 3, 1000, true⟩
      some (r.1, r.2.map fun _ => ()) :=
  (Async.exec_bind_resolve _ (fun _ => ()) q).trans
    (congrArg (Option.map _) (Async.exec_call (handleCall refused) q _))

/-- What the handler does to the queue when its `queue.add` takes effect, and how it settles. -/
def runFn (refused : RefusedIds) (q : Queue) (messageId : Option String)
    (payload : EventPayload) : Queue × Except JsError Unit :=
  ((UserRegisteredConsumer.fn messageId payload).exec (handleCall refused) q).getD (q, .ok ())

theorem runFn_registered (refused : RefusedIds) (q : Queue) (messageId : Option String)
    (userId email : String) (userName : Option String) :
    runFn refused q messageId (.userRegistered userId email userName) =
      let r := q.add refused "send" (welcomeMail email userName) ⟨messageId, 3, 1000, true⟩
      (r.1, r.2.map fun _ => ()) :=
  congrArg (·.getD (q, .ok ())) (exec_fn refused messageId userId email userName)

/-- An id that BullMQ refuses is not added. -/
theorem Queue.add_of_refused {refused : RefusedIds} {e : JsError}
    (h : opts.jobId.bind refused = some e) : q.add refused name data opts = (q, .error e) := by
  unfold add
  rw [h]

theorem Queue.add_of_not_refused {refused : RefusedIds} (h : opts.jobId.bind refused = none) :
    q.add refused name data opts = (q.put name data opts, .ok (q.idFor opts.jobId)) := by
  unfold add
  rw [h]

def isOpen (m : String) (job : Job) : Bool := decide (job.id = m) && !job.completed

/-- How many jobs with the id have not completed. -/
def Queue.open (m : String) (q : Queue) : ℕ := q.jobs.countP (isOpen m)

/-- At most one job is created, with an id that no job had. -/
theorem Queue.open_put (m : String) (q : Queue) (name : String) (data : SendMailJob)
    (opts : JobsOptions) : (q.put name data opts).open m = q.open m ∨
      (q.idFor opts.jobId = m ∧ q.open m = 0 ∧ (q.put name data opts).open m = 1) := by
  unfold put
  generalize q.idFor opts.jobId = id
  by_cases hhas : q.has id = true
  · exact Or.inl (by rw [if_pos hhas])
  · rw [if_neg hhas]
    by_cases hid : id = m
    · have hnone : q.open m = 0 := by
        rw [Queue.open, List.countP_eq_zero]
        intro job hjob
        have hne : ¬ job.id = id := fun heq =>
          hhas (List.any_eq_true.mpr ⟨job, hjob, decide_eq_true heq⟩)
        simp [isOpen, ← hid, hne]
      refine Or.inr ⟨hid, hnone, ?_⟩
      rw [Queue.open] at hnone
      simp [Queue.open, isOpen, hnone, hid]
    · left
      simp [Queue.open, isOpen, hid]

theorem Queue.open_complete (h : q.complete i = some (q', job)) :
    q.open m = q'.open m + if job.id = m then 1 else 0 := by
  unfold complete at h
  split at h
  · rename_i job' hjob
    split at h
    · exact nomatch h
    · rename_i hopen
      cases h
      have hcompleted : job.completed = false := by simpa using hopen
      obtain ⟨hi, heq⟩ := List.getElem?_eq_some_iff.mp hjob
      have hsplit : q.jobs = q.jobs.take i ++ job :: q.jobs.drop (i + 1) := by
        rw [← heq, List.getElem_cons_drop, List.take_append_drop]
      have hopen : q.open m = (q.jobs.take i).countP (isOpen m) +
          ((q.jobs.drop (i + 1)).countP (isOpen m) + if job.id = m then 1 else 0) := by
        rw [Queue.open]
        nth_rewrite 1 [hsplit]
        rw [List.countP_append, List.countP_cons]
        simp [isOpen, hcompleted]
      rw [hopen]
      by_cases hremove : job.opts.removeOnComplete = true
      · rw [if_pos hremove, Queue.open, List.eraseIdx_eq_take_drop_succ, List.countP_append]
        omega
      · rw [if_neg hremove, Queue.open, List.set_eq_take_append_cons_drop, if_pos hi,
          List.countP_append, List.countP_cons_of_neg (by simp [isOpen])]
        omega
  · exact nomatch h

end Queue

end NestFastify.Mail
