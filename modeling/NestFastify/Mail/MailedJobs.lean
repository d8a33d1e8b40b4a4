import NestFastify.Mail.WelcomeMail
import NestFastify.Messaging.Correlation

/-!
# The jobs of the mail queue and the messages they come from

In every run of the consumers and the mail queue, each job, waiting or processed, is the welcome
mail of a registration that has been published under its id, and each handling of a registration
that has resolved has left a job under the id of its message.
-/

namespace NestFastify.Mail

open Messaging (Deployment Letter Delivery MessagingState Machine Outcome Code Point codeMachine
  pointMachine EventPayload Published LogEntry FnCall Sent Traced parseEvent)
open Transition (Reaches)

/-! ## What the operations of the queue keep -/

section Queue

variable {q q' : Queue} {data : SendMailJob} {opts : JobsOptions} {name m : String} {i : ℕ}
  {job : Job}

/-- Afterwards there is a job with the id, a new one unless there was one. -/
theorem Queue.put_jobs (q : Queue) (name : String) (data : SendMailJob) (opts : JobsOptions) :
    (∀ job ∈ (q.put name data opts).jobs, job ∈ q.jobs ∨
      job.id = q.idFor opts.jobId ∧ job.data = data) ∧
    (∀ job ∈ q.jobs, job ∈ (q.put name data opts).jobs) ∧
    ∃ job ∈ (q.put name data opts).jobs, job.id = q.idFor opts.jobId := by
  unfold put
  by_cases hhas : q.has (q.idFor opts.jobId) = true
  · simp only [if_pos hhas]
    obtain ⟨job, hjob, hid⟩ := List.any_eq_true.mp hhas
    exact ⟨fun _ h => Or.inl h, fun _ h => h, job, hjob, of_decide_eq_true hid⟩
  · simp only [if_neg hhas]
    refine ⟨fun job hjob => ?_, fun job hjob => List.mem_append_left _ hjob, _,
      List.mem_append_right _ List.mem_cons_self, rfl⟩
    rcases List.mem_append.mp hjob with hold | hnew
    · exact Or.inl hold
    · rw [List.mem_singleton.mp hnew]
      exact Or.inr ⟨rfl, rfl⟩

/-- A job that has been processed is gone from the queue, or kept there; it is one of those sent
either way. -/
theorem Queue.complete_jobs (h : q.complete i = some (q', job)) :
    (∀ j ∈ q'.jobs ++ [job], ∃ j₀ ∈ q.jobs, j.id = j₀.id ∧ j.data = j₀.data) ∧
    ∀ j₀ ∈ q.jobs, ∃ j ∈ q'.jobs ++ [job], j.id = j₀.id := by
  unfold complete at h
  split at h
  · rename_i job' hi
    split at h
    · cases h
    · obtain ⟨rfl, rfl⟩ := Prod.mk.inj (Option.some.inj h)
      have hmem : job' ∈ q.jobs := List.mem_of_getElem? hi
      by_cases hremove : job'.opts.removeOnComplete = true
      · simp only [if_pos hremove]
        refine ⟨fun j hj => ?_, fun j hj => ?_⟩
        · rcases List.mem_append.mp hj with hkept | hsent
          · exact ⟨j, List.mem_of_mem_eraseIdx hkept, rfl, rfl⟩
          · rw [List.mem_singleton.mp hsent]
            exact ⟨job', hmem, rfl, rfl⟩
        · obtain ⟨k, hk⟩ := List.mem_iff_getElem?.mp hj
          by_cases hik : k = i
          · obtain rfl := Option.some.inj (hk.symm.trans (hik ▸ hi))
            exact ⟨j, List.mem_append_right _ List.mem_cons_self, rfl⟩
          · exact ⟨j, List.mem_append_left _ (List.mem_eraseIdx_iff_getElem?.mpr ⟨k, hik, hk⟩), rfl⟩
      · simp only [if_neg hremove]
        refine ⟨fun j hj => ?_, fun j hj => ?_⟩
        · rcases List.mem_append.mp hj with hkept | hsent
          · rcases List.mem_or_eq_of_mem_set hkept with hold | rfl
            · exact ⟨j, hold, rfl, rfl⟩
            · exact ⟨job', hmem, rfl, rfl⟩
          · rw [List.mem_singleton.mp hsent]
            exact ⟨job', hmem, rfl, rfl⟩
        · obtain ⟨k, hk⟩ := List.mem_iff_getElem?.mp hj
          by_cases hik : k = i
          · obtain rfl := Option.some.inj (hk.symm.trans (hik ▸ hi))
            exact ⟨j, List.mem_append_right _ List.mem_cons_self, rfl⟩
          · refine ⟨j, List.mem_append_left _ (List.mem_iff_getElem?.mpr ⟨k, ?_⟩), rfl⟩
            rw [List.getElem?_set_ne (Ne.symm hik), hk]
  · cases h

/-- Whatever has no id, or an id that BullMQ takes, is not refused. -/
theorem bind_refused {refused : RefusedIds} {id : String} (hid : refused id = none) {l : Letter}
    (hl : l.messageId = id) : l.message.messageId.bind refused = none := by
  unfold Letter.messageId at hl
  cases hmessageId : l.message.messageId with
  | none => rfl
  | some x =>
    rw [hmessageId] at hl
    have hx : x = id := hl
    exact (congrArg refused hx).trans hid

/-- Then the handler resolves. -/
theorem runFn_isOk {refused : RefusedIds} {messageId : Option String}
    (h : messageId.bind refused = none) (payload : EventPayload) :
    (runFn refused q messageId payload).2.isOk = true := by
  cases payload with
  | userRegistered userId email name =>
    rw [runFn_registered, Queue.add_of_not_refused h]
    rfl
  | notificationCreated userId message => rfl

/-- No job stays in the queue once it has completed. -/
def Queue.Waiting (q : Queue) : Prop :=
  ∀ job ∈ q.jobs, job.completed = false ∧ job.opts.removeOnComplete = true

/-- A job that is put into the queue waits there. -/
theorem Queue.Waiting.put (h : q.Waiting) (hremove : opts.removeOnComplete = true) :
    (q.put name data opts).Waiting := by
  unfold Queue.put
  by_cases hhas : q.has (q.idFor opts.jobId) = true
  · simp only [if_pos hhas]
    exact h
  · simp only [if_neg hhas]
    intro job hjob
    rcases List.mem_append.mp hjob with hold | hnew
    · exact h job hold
    · rw [List.mem_singleton.mp hnew]
      exact ⟨rfl, hremove⟩

/-- A job that waits can be processed, and leaves the queue. -/
theorem Queue.Waiting.complete_eq (h : q.Waiting) (hi : q.jobs[i]? = some job) :
    q.complete i = some ({ q with jobs := q.jobs.eraseIdx i }, job) := by
  obtain ⟨hopen, hremove⟩ := h job (List.mem_of_getElem? hi)
  unfold Queue.complete
  simp only [hi, hopen, hremove]
  rfl

/-- The other jobs wait on. -/
theorem Queue.Waiting.complete (h : q.Waiting) (hcomplete : q.complete i = some (q', job)) :
    q'.Waiting := by
  cases hi : q.jobs[i]? with
  | none =>
    unfold Queue.complete at hcomplete
    rw [hi] at hcomplete
    cases hcomplete
  | some job' =>
    obtain ⟨rfl, -⟩ := Prod.mk.inj (Option.some.inj ((h.complete_eq hi).symm.trans hcomplete))
    exact fun j hj => h j (List.mem_of_mem_eraseIdx hj)

/-- After the handler all jobs wait. -/
theorem Queue.Waiting.runFn (h : q.Waiting) (refused : RefusedIds) (messageId : Option String)
    (payload : EventPayload) : (runFn refused q messageId payload).1.Waiting := by
  cases payload with
  | userRegistered userId email name =>
    rw [runFn_registered]
    cases hrefused : messageId.bind refused with
    | some e =>
      rw [Queue.add_of_refused hrefused]
      exact h
    | none =>
      rw [Queue.add_of_not_refused hrefused]
      exact h.put rfl
  | notificationCreated userId message => exact h

/-- A handler of a registration that resolves has put its job into the queue. -/
theorem runFn_of_isOk {refused : RefusedIds} {messageId : Option String} {userId email : String}
    {userName : Option String}
    (h : (runFn refused q messageId (.userRegistered userId email userName)).2.isOk = true) :
    (runFn refused q messageId (.userRegistered userId email userName)).1 =
      q.put "send" (welcomeMail email userName) ⟨messageId, 3, 1000, true⟩ := by
  rw [runFn_registered] at h ⊢
  cases hrefused : messageId.bind refused with
  | some e =>
    rw [Queue.add_of_refused hrefused] at h
    cases h
  | none => rw [Queue.add_of_not_refused hrefused]

end Queue

/-! ## The handler and its message -/

section Handler

variable {D : Deployment} {s s' : MessagingState Point} {a : Messaging.Action}
  {messageId : Option String} {payload : EventPayload}

theorem handled_toCode (s : MessagingState Point) (a : Messaging.Action) :
    handled D codeMachine (s.toCode D) a = handled D pointMachine s a := by
  cases a with
  | perform i outcome =>
    unfold handled
    dsimp only
    rw [Deployment.delivery?_toCode]
    cases Deployment.delivery? s i with
    | none => rfl
    | some r =>
      obtain ⟨l, d⟩ := r
      simp only [Option.map_some, Deployment.view_toCode]
      cases pointMachine.view d.code (D.context l d) with
      | awaits call k => cases call <;> rfl
      | settled result => rfl
      | running => rfl
  | _ => rfl

/-- The handler of `mail` runs in a step of a delivery that waits for it. -/
theorem handled_eq_some (h : handled D pointMachine s a = some (messageId, payload)) :
    ∃ i outcome l d lock, a = .perform i outcome ∧ s.copies[i]? = some ⟨l, .unacked d⟩ ∧
      d.code = .fn payload lock ∧ d.subscription = mail ∧ messageId = l.message.messageId := by
  cases a with
  | perform i outcome =>
    unfold handled at h
    dsimp only at h
    split at h
    · rename_i l d hdelivery
      cases hcode : d.code with
      | fn payload' lock =>
        rw [hcode] at h
        obtain ⟨⟨hmail, -⟩, heq⟩ := Option.ite_none_right_eq_some.mp h
        obtain ⟨rfl, rfl⟩ := Prod.mk.inj (Option.some.inj heq)
        exact ⟨i, outcome, l, d, lock, rfl, Deployment.delivery?_eq_some.mp hdelivery, hcode,
          hmail, rfl⟩
      | _ =>
        rw [hcode] at h
        cases h
    · cases h
  | _ => cases h

/-- A delivery that waits for the handler of `mail` handles its message. -/
theorem handled_fn {i : ℕ} {l : Letter} {d : Delivery Point} {lock : Redis.Lock}
    (hi : s.copies[i]? = some ⟨l, .unacked d⟩) (hcode : d.code = .fn payload lock)
    (hmail : d.subscription = mail) : handled D pointMachine s (.perform i .resolves) =
      some (l.message.messageId, payload) := by
  unfold handled
  simp only [Deployment.delivery?_eq_some.mpr hi, hcode]
  exact if_pos ⟨hmail, rfl⟩

/-- A handler resolves in a step that executes it. -/
theorem resolved_of_step (hstep : D.step pointMachine s a = some s') {call : FnCall}
    (hlog : .resolved call ∈ s'.log) : .resolved call ∈ s.log ∨
      ∃ i l d payload lock, a = .perform i .resolves ∧ s.copies[i]? = some ⟨l, .unacked d⟩ ∧
        d.code = .fn payload lock ∧ call = Deployment.fnCall l d payload := by
  cases ha : a.call? with
  | none =>
    rw [(Deployment.step_frame ha hstep).2.1] at hlog
    exact Or.inl hlog
  | some called =>
    obtain ⟨l, d, c, r, pt, s₁, left, hi, hmove, hsettled, rfl, -, hcall⟩ :=
      Deployment.call_cases ha hstep
    have hold : s₁.log = s.log := (Deployment.settled_frame hsettled).2.2.1
    rcases List.mem_append.mp hlog with hlog | hstarted
    · rcases List.mem_append.mp hlog with hlog | hentry
      · exact Or.inl (hold ▸ hlog)
      · generalize hcode : d.code = p at hmove
        cases hmove with
        | fn_ok payload lock =>
          obtain ⟨hresolves, -⟩ | ⟨e, he, -⟩ := Deployment.settled_cases hsettled
          · rcases hcall with ⟨rfl, -⟩ | ⟨-, lock', hlock⟩
            · exact Or.inr ⟨_, l, d, payload, lock, by rw [hresolves], hi, hcode,
                LogEntry.resolved.inj (List.mem_singleton.mp hentry)⟩
            · cases hlock
          · cases he
        | fn_fail => cases List.mem_singleton.mp hentry
        | _ => cases hentry
    · cases pt with
      | fn => cases List.mem_singleton.mp hstarted
      | _ => cases hstarted

end Handler

/-! ## The invariant -/

/-- The jobs in the queue and those that have been sent. -/
def MailState.jobs {P : Type} (s : MailState P) : List Job := s.queue.jobs ++ s.sent

/-- The job is the welcome mail of the registration. -/
def IsWelcome (p : Published) (job : Job) : Prop :=
  p.messageId = job.id ∧ p.event = mail.event ∧ ∃ userId email name,
    p.payload = .userRegistered userId email name ∧ job.data = welcomeMail email name

/-- The jobs are welcome mails of what has been published, and what has been handled has its job. -/
structure Mailed (published : List Published) (log : List LogEntry) (jobs : List Job) : Prop where
  stems : ∀ job ∈ jobs, ∃ p ∈ published, IsWelcome p job
  reached : ∀ call, .resolved call ∈ log → call.subscription = mail →
    ∃ job ∈ jobs, job.id = call.messageId

section Invariant

variable {D : Deployment} {refused : RefusedIds} {sends : List Sent} {s s' : MailState Point}

/-- The contract of `user.registered` accepts registrations alone. -/
theorem eq_userRegistered {z : Messaging.Zod} {raw : Json} {payload : EventPayload}
    (h : parseEvent z mail.event raw = .ok payload) :
    ∃ userId email name, payload = .userRegistered userId email name := by
  have hcontract : Messaging.EventContracts z mail.event =
      some (Messaging.userRegisteredSchema z) := rfl
  unfold parseEvent at h
  rw [hcontract] at h
  dsimp only at h
  split at h
  · rename_i p hp
    unfold Messaging.userRegisteredSchema at hp
    split at hp
    · split at hp
      · cases hp
        cases h
        exact ⟨_, _, _, rfl⟩
      · cases hp
    · cases hp
  · cases h

/-- The handler of `mail` runs for a registration, under the id it was published with. -/
theorem enqueued_registration (htraced : Traced D sends s.messaging) {a : Messaging.Action}
    {messageId : Option String} {payload : EventPayload}
    (h : handled D pointMachine s.messaging a = some (messageId, payload)) :
    ∃ e ∈ sends, messageId = some e.messageId ∧ e.event = mail.event ∧ e.payload = payload ∧
      ∃ userId email name, payload = .userRegistered userId email name := by
  obtain ⟨i, outcome, l, d, lock, rfl, hi, hcode, hmail, rfl⟩ := handled_eq_some h
  obtain ⟨e, he, hconveys⟩ := htraced.copies _ (List.mem_of_getElem? hi)
  obtain ⟨-, hevent, -, hcarries⟩ := hconveys.running d rfl
  rw [hcode] at hcarries
  have hkey : e.event = mail.event := hevent.symm.trans (congrArg _ hmail)
  obtain rfl : payload = e.payload := hcarries
  have hvalid := htraced.valid e he
  rw [hkey] at hvalid
  exact ⟨e, he, hconveys.stems.messageId, hkey, rfl, eq_userRegistered hvalid⟩

/-- The same mails, among other jobs or in another order. -/
theorem Mailed.congr {published : List Published} {log : List LogEntry} {jobs jobs' : List Job}
    (h : Mailed published log jobs)
    (hfrom : ∀ j ∈ jobs', ∃ j₀ ∈ jobs, j.id = j₀.id ∧ j.data = j₀.data)
    (hto : ∀ j₀ ∈ jobs, ∃ j ∈ jobs', j.id = j₀.id) : Mailed published log jobs' where
  stems j hj := by
    obtain ⟨j₀, hj₀, hid, hdata⟩ := hfrom j hj
    obtain ⟨p, hp, hpid, hevent, userId, email, name, hpayload, hwelcome⟩ := h.stems j₀ hj₀
    exact ⟨p, hp, hpid.trans hid.symm, hevent, userId, email, name, hpayload,
      hdata.trans hwelcome⟩
  reached call hcall hmail := by
    obtain ⟨j₀, hj₀, hid⟩ := h.reached call hcall hmail
    obtain ⟨j, hj, hsame⟩ := hto j₀ hj₀
    exact ⟨j, hj, hsame.trans hid⟩

/-- A handler that resolves has its job added. -/
theorem enqueues_of_settles {i : ℕ} {r : Option String × EventPayload}
    (h : handled D pointMachine s.messaging (.perform i .resolves) = some r)
    (hsettles : settles D refused pointMachine s (.perform i .resolves) = true) :
    enqueues D refused pointMachine s (.perform i .resolves) = some r := by
  refine Option.filter_eq_some_iff.mpr ⟨h, ?_⟩
  have hall : (handled D pointMachine s.messaging (.perform i .resolves)).all
      (fun r => (runFn refused s.queue r.1 r.2).2.isOk) = true := hsettles
  rwa [h, Option.all_some] at hall

/-- Every step keeps the jobs in step with what is published and handled. -/
theorem Mailed.step (htraced : Traced D sends s.messaging)
    (h : Mailed s.messaging.published s.messaging.log s.jobs) {a : MailAction}
    (hs : step D refused pointMachine s a = some s') :
    Mailed s'.messaging.published s'.messaging.log s'.jobs := by
  cases a with
  | process i =>
    unfold Mail.step at hs
    dsimp only at hs
    split at hs
    · rename_i q job hcomplete
      cases hs
      obtain ⟨hfrom, hto⟩ := Queue.complete_jobs hcomplete
      refine h.congr (fun j hj => ?_) fun j₀ hj₀ => ?_
      · rcases List.mem_append.mp hj with hkept | hsent
        · obtain ⟨j₀, hj₀, hsame⟩ := hfrom j (List.mem_append_left _ hkept)
          exact ⟨j₀, List.mem_append_left _ hj₀, hsame⟩
        · rcases List.mem_append.mp hsent with hold | hnew
          · exact ⟨j, List.mem_append_right _ hold, rfl, rfl⟩
          · obtain ⟨j₀, hj₀, hsame⟩ := hfrom j (List.mem_append_right _ hnew)
            exact ⟨j₀, List.mem_append_left _ hj₀, hsame⟩
      · rcases List.mem_append.mp hj₀ with hwaiting | hsent
        · obtain ⟨j, hj, hid⟩ := hto j₀ hwaiting
          refine ⟨j, ?_, hid⟩
          rcases List.mem_append.mp hj with hkept | hnew
          · exact List.mem_append_left _ hkept
          · exact List.mem_append_right _ (List.mem_append_right _ hnew)
        · exact ⟨j₀, List.mem_append_right _ (List.mem_append_left _ hsent), rfl⟩
    · cases hs
  | messaging a =>
    obtain ⟨t, ht, hsettles, rfl⟩ := messaging_cases hs
    have hpublished := Deployment.published_subset ht
    cases henqueues : enqueues D refused pointMachine s a with
    | none =>
      rw [moved_of_none henqueues]
      refine ⟨fun job hjob => ?_, fun call hcall hmail => ?_⟩
      · obtain ⟨p, hp, hwelcome⟩ := h.stems job hjob
        exact ⟨p, hpublished hp, hwelcome⟩
      · rcases resolved_of_step ht hcall with hold | ⟨i, l, d, payload, lock, rfl, hi, hcode, rfl⟩
        · exact h.reached call hold hmail
        · cases henqueues.symm.trans (enqueues_of_settles (handled_fn hi hcode hmail) hsettles)
    | some r =>
      obtain ⟨messageId, payload⟩ := r
      obtain ⟨hhandled, hok⟩ := Option.filter_eq_some_iff.mp henqueues
      obtain ⟨e, he, rfl, hevent, hpayload, userId, email, name, rfl⟩ :=
        enqueued_registration htraced hhandled
      rw [moved_of_some henqueues, runFn_of_isOk hok]
      obtain ⟨hfrom, hkept, job₀, hjob₀, hid₀⟩ := s.queue.put_jobs "send" (welcomeMail email name)
        ⟨some e.messageId, 3, 1000, true⟩
      have hpub : e.toPublished ∈ t.published :=
        hpublished (htraced.published ▸ List.mem_map_of_mem he)
      refine ⟨fun job hjob => ?_, fun call hcall hmail => ?_⟩
      · have hold : job ∈ s.jobs → ∃ p ∈ t.published, IsWelcome p job := fun hjob => by
          obtain ⟨p, hp, hwelcome⟩ := h.stems job hjob
          exact ⟨p, hpublished hp, hwelcome⟩
        rcases List.mem_append.mp hjob with hqueue | hsent
        · rcases hfrom job hqueue with hwaiting | ⟨hid, hdata⟩
          · exact hold (List.mem_append_left _ hwaiting)
          · exact ⟨_, hpub, hid.symm, hevent, userId, email, name, hpayload, hdata⟩
        · exact hold (List.mem_append_right _ hsent)
      · rcases resolved_of_step ht hcall with hold | ⟨i, l, d, payload, lock, rfl, hi, hcode, rfl⟩
        · obtain ⟨job, hjob, hid⟩ := h.reached call hold hmail
          refine ⟨job, ?_, hid⟩
          rcases List.mem_append.mp hjob with hwaiting | hsent
          · exact List.mem_append_left _ (hkept job hwaiting)
          · exact List.mem_append_right _ hsent
        -- the handling that has just resolved is the one that has added the job
        · have hsame := hhandled.symm.trans (handled_fn hi hcode hmail)
          obtain ⟨hmessageId, -⟩ := Prod.mk.inj (Option.some.inj hsame)
          refine ⟨job₀, List.mem_append_left _ hjob₀, hid₀.trans ?_⟩
          show e.messageId = l.message.messageId.getD ""
          rw [← hmessageId]
          rfl

end Invariant

/-! ## Runs -/

section Runs

variable {D : Deployment} {refused : RefusedIds}

def MailState.toCode (D : Deployment) (s : MailState Point) : MailState Code :=
  ⟨s.messaging.toCode D, s.queue, s.sent, s.enqueued⟩

/-- The mail queue sees the same over code and over points. -/
theorem enqueues_toCode (s : MailState Point) (a : Messaging.Action) :
    enqueues D refused codeMachine (s.toCode D) a = enqueues D refused pointMachine s a :=
  congrArg (Option.filter _) (handled_toCode s.messaging a)

theorem settles_toCode (s : MailState Point) (a : Messaging.Action) :
    settles D refused codeMachine (s.toCode D) a = settles D refused pointMachine s a := by
  cases a with
  | perform i outcome =>
    cases outcome with
    | resolves => exact congrArg (Option.all _) (handled_toCode s.messaging _)
    | rejects e effect => rfl
  | _ => rfl

theorem moved_toCode (s : MailState Point) (a : Messaging.Action) (t : MessagingState Point) :
    moved D refused codeMachine (s.toCode D) a (t.toCode D) =
      (moved D refused pointMachine s a t).toCode D := by
  cases henqueues : enqueues D refused pointMachine s a with
  | none =>
    rw [moved_of_none henqueues, moved_of_none ((enqueues_toCode s a).trans henqueues)]
    rfl
  | some r =>
    rw [moved_of_some henqueues, moved_of_some ((enqueues_toCode s a).trans henqueues)]
    rfl

theorem step_toCode {s : MailState Point} (a : MailAction) :
    step D refused codeMachine (s.toCode D) a =
      (step D refused pointMachine s a).map (MailState.toCode D) := by
  cases a with
  | messaging a =>
    have hmove : D.step codeMachine (s.toCode D).messaging a =
        (D.step pointMachine s.messaging a).map (MessagingState.toCode D) := Deployment.step_toCode a
    simp only [step, settles_toCode, hmove]
    cases settles D refused pointMachine s a with
    | false => rfl
    | true =>
      simp only [if_true, Option.map_map]
      exact congrArg (Option.map · _) (funext fun t => moved_toCode s a t)
  | process i =>
    have hqueue : (s.toCode D).queue = s.queue := rfl
    simp only [step, hqueue]
    cases s.queue.complete i <;> rfl

section Parts

variable {P : Type} {M : Machine P} {m m' : MailState P}

/-- An id that BullMQ takes lets the handler settle in every way. -/
theorem settles_of_taken {a : Messaging.Action} {id : String} (hid : refused id = none)
    (hcalls : ∀ i outcome, a.call? = some (i, outcome) → ∀ c, m.messaging.copies[i]? = some c →
      c.messageId = id) : settles D refused M m a = true := by
  cases a with
  | perform i outcome =>
    cases outcome with
    | rejects e effect => rfl
    | resolves =>
      show (handled D M m.messaging (.perform i .resolves)).all _ = true
      cases hhandled : handled D M m.messaging (.perform i .resolves) with
      | none => rfl
      | some r =>
        unfold handled at hhandled
        dsimp only at hhandled
        split at hhandled
        · rename_i l d hdelivery
          have hcopy := hcalls i .resolves rfl _ (Deployment.delivery?_eq_some.mp hdelivery)
          split at hhandled
          · obtain ⟨-, heq⟩ := Option.ite_none_right_eq_some.mp hhandled
            obtain rfl := Option.some.inj heq
            exact runFn_isOk (bind_refused hid hcopy) _
          · cases hhandled
        · cases hhandled
  | _ => rfl

/-- A step of the messaging is one of the consumers. -/
theorem messaging_of_step {a : Messaging.Action} (h : step D refused M m (.messaging a) = some m') :
    D.step M m.messaging a = some m'.messaging := by
  obtain ⟨b, hb, -, rfl⟩ := messaging_cases h
  exact hb.trans (congrArg some (messaging_moved m a b).symm)

/-- The mail worker leaves the messaging alone. -/
theorem messaging_of_process {i : ℕ} (h : step D refused M m (.process i) = some m') :
    m'.messaging = m.messaging := by
  unfold step at h
  dsimp only at h
  split at h
  · cases h
    rfl
  · cases h

/-- The consumers make a run of their own. -/
theorem messaging_of_reaches {ok : MailState P → MailAction → Prop}
    (h : Reaches (step D refused M) ok m m') :
    Reaches (D.step M) (fun _ _ => True) m.messaging m'.messaging := by
  refine h.project fun u a v _ hstep => ?_
  cases a with
  | messaging a => exact Or.inr ⟨a, trivial, messaging_of_step hstep⟩
  | process i => exact Or.inl (messaging_of_process hstep)

theorem waiting_of_step {a : MailAction} (h : m.queue.Waiting) (hs : step D refused M m a = some m') :
    m'.queue.Waiting := by
  cases a with
  | messaging a =>
    obtain ⟨b, -, -, rfl⟩ := messaging_cases hs
    cases henqueues : enqueues D refused M m a with
    | none =>
      rw [moved_of_none henqueues]
      exact h
    | some r =>
      rw [moved_of_some henqueues]
      exact h.runFn refused r.1 r.2
  | process i =>
    unfold step at hs
    dsimp only at hs
    split at hs
    · rename_i q job hcomplete
      cases hs
      exact h.complete hcomplete
    · cases hs

/-- In every state that is reached the jobs in the queue wait. -/
theorem waiting_of_reaches {ok : MailState P → MailAction → Prop}
    (h : Reaches (step D refused M) ok (.init P) m) : m.queue.Waiting :=
  h.invariant (fun _ hjob => absurd hjob List.not_mem_nil)
    fun _ _ _ hu _ hstep => waiting_of_step hu hstep

/-- A job that waits can be processed. -/
theorem step_process (h : m.queue.Waiting) {job : Job} (hjob : job ∈ m.queue.jobs) :
    ∃ i m', step D refused M m (.process i) = some m' ∧ job ∈ m'.sent := by
  obtain ⟨i, hi⟩ := List.mem_iff_getElem?.mp hjob
  have hstep : step D refused M m (.process i) = some { m with
      queue := { m.queue with jobs := m.queue.jobs.eraseIdx i }
      sent := m.sent ++ [job] } := by
    unfold step
    dsimp only
    rw [h.complete_eq hi]
    rfl
  exact ⟨i, _, hstep, List.mem_append_right _ (List.mem_singleton_self job)⟩

/-- One mail at most is waiting or sent, in a run that enqueues none when one has been sent. -/
theorem sent_open_le_one {id : String} (h : Reaches (step D refused M)
    (fun u a => enqueuesUnsent D refused M id u a = true) (.init P) m) :
    mailsSent id m + m.queue.open id ≤ 1 := by
  apply h.invariant
  · exact Nat.zero_le 1
  · intro u a v hu ha hv
    exact step_sent hu ha hv

end Parts

/-- In every run the jobs are the welcome mails of what has been published, and what has been
handled has its job. -/
theorem mailed_of_reaches (hwn : Messaging.WellNamed D.subscriptions)
    (hevents : ∀ S ∈ D.subscriptions, Messaging.HasContract S.event)
    {ok : MailState Code → MailAction → Prop} {t : MailState Code}
    (h : Reaches (step D refused codeMachine) ok (.init Code) t) :
    Mailed t.messaging.published t.messaging.log t.jobs := by
  obtain ⟨s, hs, rfl⟩ : ∃ s, Reaches (step D refused pointMachine) (fun u a => ok (u.toCode D) a)
      (.init Point) s ∧ s.toCode D = t := h.lift fun _ a => step_toCode a
  refine @Reaches.invariant_under _ _ _ _ _ _ (fun u => ∃ sends, Traced D sends u.messaging)
    (fun u => Mailed u.messaging.published u.messaging.log u.jobs) hs (fun u hu => ?_)
    ⟨fun _ h => absurd h List.not_mem_nil, fun _ h => absurd h List.not_mem_nil⟩
    fun u a v ⟨sends, htraced⟩ hu _ hstep => hu.step htraced hstep
  obtain ⟨sends, hsends⟩ := (messaging_of_reaches hu).record []
  exact ⟨sends, Messaging.traced_of_reaches hwn hevents hsends⟩

end Runs

end NestFastify.Mail
