import NestFastify.Mail.MailedJobs
import NestFastify.Events.Delivery

/-!
# From a registration to its mail

The relays, the broker with its consumers, and the mail queue with its worker as one system: the
whole way of a registration from the outbox row that `databaseHooks.user.create.after` has left to
the welcome mail (auth.ts, outbox-relay.service.ts, consume.ts, user-registered.consumer.ts,
mail.producer.ts, mail.processor.ts).

Its runs are runs of `Events.step` and of `Mail.step`, whose invariants meet here.
-/

namespace NestFastify.Events

open Messaging (Published MessagingState Machine Code codeMachine EventPayload Present HasContract
  LogEntry)
open Outbox (OutboxState RelayAction OutboxEvent SameEvent)
open Mail (MailState RefusedIds takesAll mail mailsSent welcomeMail IsWelcome)
open Transition (Reaches)

/-! ## The system -/

structure AppState (P : Type) where
  outbox : OutboxState
  mail : MailState P

inductive AppAction where
  | outbox (a : RelayAction)
  | broker (a : Messaging.Action)
  | process (i : ℕ)

def AppState.init (P : Type) (n : ℕ) : AppState P := ⟨.init n, .init P⟩

def AppState.flow {P : Type} (s : AppState P) : FlowState P := ⟨s.outbox, s.mail.messaging⟩

section System

variable {P : Type} (D : Messaging.Deployment) (refused : RefusedIds) (M : Machine P)
  (s : AppState P)

def appStep : AppAction → Option (AppState P)
  | .outbox a => ((relays D).step s.outbox a).map fun o =>
    ⟨o, { s.mail with messaging := receive D M s.mail.messaging (handedOver s.outbox a) }⟩
  | .broker a => (Mail.step D refused M s.mail (.messaging a)).map fun m => { s with mail := m }
  | .process i => (Mail.step D refused M s.mail (.process i)).map fun m => { s with mail := m }

/-- A message that enters the system has an id of its own. -/
def AppFresh : AppAction → Prop
  | .outbox a => Fresh s.flow (.outbox a)
  | .broker a => Fresh s.flow (.broker a)
  | .process _ => True

instance (s : AppState P) (a : AppAction) : Decidable (AppFresh s a) :=
  match a with
  | .outbox a => inferInstanceAs (Decidable (Fresh s.flow (.outbox a)))
  | .broker a => inferInstanceAs (Decidable (Fresh s.flow (.broker a)))
  | .process _ => isTrue trivial

/-- Besides, the step enqueues no mail for the message `m` when one has been sent. -/
def AppOnce (m : String) (a : AppAction) : Prop :=
  AppFresh s a ∧ match a with
    | .broker a => Mail.enqueuesUnsent D refused M m s.mail (.messaging a) = true
    | _ => True

instance (m : String) (s : AppState P) (a : AppAction) : Decidable (AppOnce D refused M s m a) :=
  match a with
  | .outbox _ => inferInstanceAs (Decidable (_ ∧ True))
  | .broker _ => inferInstanceAs (Decidable (_ ∧ _ = true))
  | .process _ => inferInstanceAs (Decidable (_ ∧ True))

end System

/-! ## A run is a run of each part -/

section Parts

variable {P : Type} {D : Messaging.Deployment} {refused : RefusedIds} {M : Machine P}
  {s t : AppState P}

theorem flow_of_reaches {ok : AppState P → AppAction → Prop}
    (hok : ∀ u a, ok u a → AppFresh u a) (h : Reaches (appStep D refused M) ok s t) :
    Reaches (step D M) Fresh s.flow t.flow := by
  refine h.project fun u a v ha hstep => ?_
  have hfresh := hok u a ha
  cases a with
  | outbox a =>
    obtain ⟨o, ho, rfl⟩ := Option.map_eq_some_iff.mp hstep
    refine Or.inr ⟨.outbox a, hfresh, ?_⟩
    show ((relays D).step u.outbox a).map _ = _
    rw [ho]
    rfl
  | broker a =>
    obtain ⟨m, hm, rfl⟩ := Option.map_eq_some_iff.mp hstep
    refine Or.inr ⟨.broker a, hfresh, ?_⟩
    show (D.step M u.mail.messaging a).map _ = _
    rw [Mail.messaging_of_step hm]
    rfl
  | process i =>
    obtain ⟨m, hm, rfl⟩ := Option.map_eq_some_iff.mp hstep
    exact Or.inl (congrArg (FlowState.mk u.outbox) (Mail.messaging_of_process hm))

/-- What a relay hands over is a publish, at which no handler runs. -/
theorem mailStep_receive (m : MailState P) {o : OutboxState} (a : RelayAction) :
    { m with messaging := receive D M m.messaging (handedOver o a) } = m ∨
      ∃ event payload messageId requestId,
        Mail.step D refused M m (.messaging (.publish event payload messageId requestId)) =
          some { m with messaging := receive D M m.messaging (handedOver o a) } := by
  cases hhanded : handedOver o a with
  | none => exact Or.inl rfl
  | some b =>
    obtain ⟨event, payload, messageId, requestId, rfl⟩ := handedOver_publish hhanded
    cases hmove : D.step M m.messaging (.publish event payload messageId requestId) with
    | none =>
      refine Or.inl ?_
      rw [receive, hmove]
      rfl
    | some b' =>
      refine Or.inr ⟨event, payload, messageId, requestId, ?_⟩
      rw [receive, hmove]
      show (D.step M m.messaging (.publish event payload messageId requestId)).map _ = _
      rw [hmove]
      rfl

theorem mail_of_reaches {ok : AppState P → AppAction → Prop}
    {ok' : MailState P → Mail.MailAction → Prop}
    (hbroker : ∀ u a, ok u (.broker a) → ok' u.mail (.messaging a))
    (hpublish : ∀ m event payload messageId requestId,
      ok' m (.messaging (.publish event payload messageId requestId)))
    (hprocess : ∀ m i, ok' m (.process i)) (h : Reaches (appStep D refused M) ok s t) :
    Reaches (Mail.step D refused M) ok' s.mail t.mail := by
  refine h.project fun u a v ha hstep => ?_
  cases a with
  | outbox a =>
    obtain ⟨o, -, rfl⟩ := Option.map_eq_some_iff.mp hstep
    rcases mailStep_receive u.mail a with hsame | ⟨event, payload, messageId, requestId, hmove⟩
    · exact Or.inl hsame
    · exact Or.inr ⟨_, hpublish _ event payload messageId requestId, hmove⟩
  | broker a =>
    obtain ⟨m, hm, rfl⟩ := Option.map_eq_some_iff.mp hstep
    exact Or.inr ⟨_, hbroker u a ha, hm⟩
  | process i =>
    obtain ⟨m, hm, rfl⟩ := Option.map_eq_some_iff.mp hstep
    exact Or.inr ⟨_, hprocess u.mail i, hm⟩

end Parts

/-! ## A registration that is sent twice -/

def registration : Outbox.EnqueueOutboxData where
  routingKey := "user.registered"
  payload := .userRegistered "u1" "an@example.com" (some "An")
  messageId := some "m1"
  requestId := none
  typed := rfl

/-- Both copies of it are delivered to `mail`. -/
def mailedOnce : List Messaging.Action :=
  .deliver 0 mail "2026-06-06T00:00:00Z" :: Messaging.resolving 0 5 ++
    [.settle 0, .deliver 1 mail "2026-06-06T00:00:01Z"] ++ Messaging.resolving 1 1 ++ [.settle 1]

/-- The relay puts the registration on the broker twice, and the job is processed in the end. -/
def mailedRun : List AppAction :=
  .outbox (.enqueue registration "1" "" 0) :: sentTwice.map .outbox ++
    mailedOnce.map .broker ++ [.process 0]

/-- The one row, when it is the registration. -/
def registeredRow {P : Type} (s : AppState P) : Option OutboxEvent :=
  match s.outbox.db.rows with
  | [r] => if r.messageId = "m1" ∧ r.routingKey = "user.registered" then some r else none
  | _ => none

theorem registeredRow_eq_some {P : Type} {s : AppState P} {r : OutboxEvent}
    (h : registeredRow s = some r) :
    r ∈ s.outbox.db.rows ∧ r.messageId = "m1" ∧ r.routingKey = "user.registered" := by
  unfold registeredRow at h
  split at h
  · rename_i row hrows
    obtain ⟨hrow, heq⟩ := Option.ite_none_right_eq_some.mp h
    obtain rfl := Option.some.inj heq
    exact ⟨hrows ▸ List.mem_singleton.mpr rfl, hrow⟩
  · cases h

/-! ## Results -/

section Runs

variable {D : Messaging.Deployment} {refused : RefusedIds} {n : ℕ} {s t : AppState Code}
  {r : OutboxEvent}

theorem mailed_of_appReaches (hwn : Messaging.WellNamed D.subscriptions)
    (hevents : ∀ sub ∈ D.subscriptions, HasContract sub.event)
    {ok : AppState Code → AppAction → Prop}
    (h : Reaches (appStep D refused codeMachine) ok (.init Code n) t) :
    Mail.Mailed t.mail.messaging.published t.mail.messaging.log t.mail.jobs := by
  have hrun : Reaches (Mail.step D refused codeMachine) (fun _ _ => True) (.init Code) t.mail :=
    mail_of_reaches (fun _ _ _ => trivial) (fun _ _ _ _ _ => trivial) (fun _ _ => trivial) h
  exact Mail.mailed_of_reaches hwn hevents hrun

/-- What has been published under the id of a published registration. -/
theorem Linked.registered (h : Linked D t.outbox t.mail.messaging.published)
    (hs : Outbox.Inv (relays D) (fun _ => False) t.outbox) (hr : r ∈ t.outbox.db.rows)
    (hkey : r.routingKey = "user.registered") (hpublished : r.status = .published) :
    ∃ p ∈ t.mail.messaging.published, p.messageId = r.messageId ∧ p.event = mail.event ∧
      r.payload = p.payload.toJson ∧
      ∃ userId email name, p.payload = .userRegistered userId email name := by
  obtain ⟨p, hp, hid, hevent, hpayload⟩ := Linked.published (t := t.flow) h hs hr hpublished
  obtain ⟨-, hparse⟩ := h.origin p hp r hr hid.symm
  rw [hkey] at hparse
  exact ⟨p, hp, hid, hevent.trans hkey, hpayload, Mail.eq_userRegistered hparse⟩

/-- The mails under the id of a registration are welcome mails of this registration. -/
theorem Linked.welcome {o : OutboxState} {published : List Published} {log : List LogEntry}
    {jobs : List Mail.Job} (h : Linked D o published) (hmailed : Mail.Mailed published log jobs)
    {p : Published} (hp : p ∈ published) {userId email : String} {name : Option String}
    (hpayload : p.payload = .userRegistered userId email name) {job : Mail.Job}
    (hjob : job ∈ jobs) (hid : job.id = p.messageId) : job.data = welcomeMail email name := by
  obtain ⟨p', hp', hid', -, userId', email', name', hpayload', hdata⟩ := hmailed.stems job hjob
  obtain rfl := h.unambiguous p hp p' hp' (hid'.trans hid)
  obtain ⟨-, rfl, rfl⟩ := EventPayload.userRegistered.inj (hpayload'.symm.trans hpayload)
  exact hdata

/-- A registration is in the outbox, and is pending there, or has failed, or is published: then a
copy of it is in the queues of `mail`, or its welcome mail is waiting or sent. -/
def Mailing (D : Messaging.Deployment) (r : OutboxEvent) (t : AppState Code) : Prop :=
  ∃ r' ∈ t.outbox.db.rows, SameEvent r r' ∧
    (r'.status = .pending ∨
    (r'.status = .failed ∧ D.env.RABBITMQ_OUTBOX_MAX_ATTEMPTS ≤ r'.attempts) ∨
    (r'.status = .published ∧ ∃ userId email name,
      r.payload = (EventPayload.userRegistered userId email name).toJson ∧
      ((∃ p ∈ t.mail.messaging.published, p.messageId = r.messageId ∧
        Present D mail p t.mail.messaging) ∨
      ∃ job ∈ t.mail.jobs, job.id = r.messageId ∧ job.data = welcomeMail email name)))

/-- A registration that has been committed does not lose its mail. -/
theorem registration_mailed (hwn : Messaging.WellNamed D.subscriptions)
    (hevents : ∀ sub ∈ D.subscriptions, HasContract sub.event)
    (hunshared : (D.subscriptions.map Messaging.Subscription.event).Nodup)
    (hmail : mail ∈ D.subscriptions)
    (hs : Reaches (appStep D refused codeMachine) AppFresh (.init Code n) s)
    (ht : Reaches (appStep D refused codeMachine) AppFresh s t) (hr : r ∈ s.outbox.db.rows)
    (hkey : r.routingKey = "user.registered") : Mailing D r t := by
  have hflow : Reaches (step D codeMachine) Fresh (.init Code n) t.flow :=
    flow_of_reaches (fun _ _ h => h) (hs.trans ht)
  have hinv := inv_of_reaches hflow
  have hlinked := linked_of_reaches (fun _ _ h => h) hflow
  obtain ⟨r', hr', hsame⟩ := remains_of_reaches
    (inv_of_reaches (flow_of_reaches (fun _ _ h => h) hs : Reaches (step D codeMachine) Fresh
      (.init Code n) s.flow))
    (outbox_of_reaches (flow_of_reaches (fun _ _ h => h) ht)) hr
  refine ⟨r', hr', hsame, ?_⟩
  cases hstatus : r'.status with
  | pending => exact Or.inl rfl
  | failed => exact Or.inr (Or.inl ⟨rfl, (hinv.rows r' hr').failed.mp hstatus⟩)
  | published =>
    obtain ⟨p, hp, hid, hevent, hpayload, userId, email, name, hregistered⟩ :=
      hlinked.registered hinv hr' (hsame.routingKey.trans hkey) hstatus
    have hrow : r.payload = (EventPayload.userRegistered userId email name).toJson := by
      rw [← hsame.payload, hpayload, hregistered]
    refine Or.inr (Or.inr ⟨rfl, userId, email, name, hrow, ?_⟩)
    rcases present_of_reaches hlinked hflow hevents hunshared hp hmail hevent.symm with
      hpresent | hresolved
    · exact Or.inl ⟨p, hp, hid.trans hsame.messageId, hpresent⟩
    · have hmailed := mailed_of_appReaches hwn hevents (hs.trans ht)
      obtain ⟨job, hjob, hjobId⟩ := hmailed.reached _ hresolved rfl
      exact Or.inr ⟨job, hjob, hjobId.trans (hid.trans hsame.messageId),
        hlinked.welcome hmailed hp hregistered hjob hjobId⟩

theorem registration_mailed_sentTwice : ∃ (s t : AppState Code) (r : OutboxEvent),
    r ∈ s.outbox.db.rows ∧ t.mail.sent.length = 1 ∧ Mailing app r t := by
  have hrun : ((Transition.run (appStep app takesAll codeMachine) AppFresh (.init Code 1)
      (mailedRun.take 1)).bind fun s =>
        (Transition.run (appStep app takesAll codeMachine) AppFresh s (mailedRun.drop 1)).map fun t =>
          (registeredRow s).isSome && decide (t.mail.sent.length = 1)) = some true := by
    decide +kernel
  obtain ⟨s, t, hs, ht, htest⟩ := Transition.exists_reaches_of_runs hrun
  obtain ⟨hrow, hsent⟩ := Bool.and_eq_true_iff.mp htest
  obtain ⟨r, hr⟩ := Option.isSome_iff_exists.mp hrow
  obtain ⟨hmem, -, hkey⟩ := registeredRow_eq_some hr
  exact ⟨s, t, r, hmem, of_decide_eq_true hsent,
    registration_mailed (by decide) (by decide) (by decide) (by decide) hs ht hmem hkey⟩

/-- Every mail, waiting or sent, is the welcome mail of a registration that has been published; and
if a row has its id, it is that of the row. -/
theorem mails_stem (hwn : Messaging.WellNamed D.subscriptions)
    (hevents : ∀ sub ∈ D.subscriptions, HasContract sub.event)
    (h : Reaches (appStep D refused codeMachine) AppFresh (.init Code n) t) {job : Mail.Job}
    (hjob : job ∈ t.mail.jobs) :
    ∃ p ∈ t.mail.messaging.published, IsWelcome p job ∧ ∀ r ∈ t.outbox.db.rows,
      r.messageId = job.id → r.routingKey = "user.registered" ∧ r.payload = p.payload.toJson := by
  have hflow : Reaches (step D codeMachine) Fresh (.init Code n) t.flow :=
    flow_of_reaches (fun _ _ h => h) h
  have hlinked := linked_of_reaches (fun _ _ h => h) hflow
  have hmailed := mailed_of_appReaches hwn hevents h
  obtain ⟨p, hp, hwelcome⟩ := hmailed.stems job hjob
  refine ⟨p, hp, hwelcome, fun r hr hid => ?_⟩
  obtain ⟨hkey, hparse⟩ := hlinked.origin p hp r hr (hid.trans hwelcome.1.symm)
  obtain ⟨payload, hpayload⟩ := (inv_of_reaches hflow).typed r hr
  refine ⟨hkey.trans hwelcome.2.1, ?_⟩
  rw [hpayload] at hparse ⊢
  rw [Messaging.eq_of_parseEvent_toJson hparse]

theorem mails_stem_sentTwice : ∃ (t : AppState Code) (job : Mail.Job), job ∈ t.mail.sent ∧
    ∃ p ∈ t.mail.messaging.published, IsWelcome p job ∧ ∀ r ∈ t.outbox.db.rows,
      r.messageId = job.id → r.routingKey = "user.registered" ∧ r.payload = p.payload.toJson := by
  have hrun : (Transition.run (appStep app takesAll codeMachine) AppFresh (.init Code 1)
      mailedRun).map (fun t => decide (t.mail.sent ≠ [])) = some true := by
    decide +kernel
  obtain ⟨t, ht, hsent⟩ := Transition.exists_reaches_of_run hrun
  obtain ⟨job, hjob⟩ := List.exists_mem_of_ne_nil _ (of_decide_eq_true hsent)
  exact ⟨t, job, hjob, mails_stem (by decide) (by decide) ht (List.mem_append_right _ hjob)⟩

/-- Once a registration is published, no copy of it is left and its job is done, exactly one mail
has been sent for it, to the address in the row. -/
theorem mailed_once (hwn : Messaging.WellNamed D.subscriptions)
    (hevents : ∀ sub ∈ D.subscriptions, HasContract sub.event)
    (hunshared : (D.subscriptions.map Messaging.Subscription.event).Nodup)
    (hmail : mail ∈ D.subscriptions)
    (h : Reaches (appStep D refused codeMachine)
      (fun u a => AppOnce D refused codeMachine u r.messageId a) (.init Code n) t)
    (hr : r ∈ t.outbox.db.rows) (hkey : r.routingKey = "user.registered")
    (hpublished : r.status = .published)
    (hgone : ∀ c ∈ t.mail.messaging.copies, c.messageId = r.messageId → c.place = .gone)
    (hdone : t.mail.queue.has r.messageId = false) :
    mailsSent r.messageId t.mail = 1 ∧ ∃ userId email name,
      r.payload = (EventPayload.userRegistered userId email name).toJson ∧
      ∀ job ∈ t.mail.sent, job.id = r.messageId → job.data = welcomeMail email name := by
  have hflow : Reaches (step D codeMachine) Fresh (.init Code n) t.flow :=
    flow_of_reaches (fun _ _ h => h.1) h
  have hlinked := linked_of_reaches (fun _ _ h => h) hflow
  have hmailed := mailed_of_appReaches hwn hevents h
  obtain ⟨p, hp, hid, hevent, hpayload, userId, email, name, hregistered⟩ :=
    hlinked.registered (inv_of_reaches hflow) hr hkey hpublished
  have hresolved : Messaging.Resolved mail p t.mail.messaging := by
    refine (present_of_reaches hlinked hflow hevents hunshared hp hmail
      hevent.symm).resolve_left fun ⟨c, hc, hcid, _, hplace⟩ => ?_
    exact hplace (hgone c hc (hcid.trans hid))
  obtain ⟨job, hjob, hjobId⟩ := hmailed.reached _ hresolved rfl
  have hsent : job ∈ t.mail.sent := by
    rcases List.mem_append.mp hjob with hwaiting | hsent
    · have hhas : t.mail.queue.has r.messageId = true :=
        List.any_eq_true.mpr ⟨job, hwaiting, decide_eq_true (hjobId.trans hid)⟩
      cases hhas.symm.trans hdone
    · exact hsent
  have hone : 1 ≤ mailsSent r.messageId t.mail :=
    List.countP_pos_iff.mpr ⟨job, hsent, decide_eq_true (hjobId.trans hid)⟩
  have hrun : Reaches (Mail.step D refused codeMachine)
      (fun u a => Mail.enqueuesUnsent D refused codeMachine r.messageId u a = true) (.init Code)
      t.mail :=
    mail_of_reaches (fun _ _ ha => ha.2) (fun _ _ _ _ _ => rfl) (fun _ _ => rfl) h
  have hmost := Mail.sent_open_le_one hrun
  refine ⟨by omega, userId, email, name, ?_, fun job hjob hid' => ?_⟩
  · rw [hpayload, hregistered]
  · exact hlinked.welcome hmailed hp hregistered (List.mem_append_right _ hjob)
      (hid'.trans hid.symm)

theorem mailed_once_sentTwice : ∃ t : AppState Code, t.mail.messaging.copies.length = 2 ∧
    mailsSent "m1" t.mail = 1 := by
  have hrun : (Transition.run (appStep app takesAll codeMachine)
      (fun u a => AppOnce app takesAll codeMachine u "m1" a) (.init Code 1) mailedRun).map (fun t =>
        (registeredRow t).isSome && (allGone t.flow && decide
          (t.outbox.db.rows.all (fun r => decide (r.status = .published)) = true ∧
            t.mail.queue.has "m1" = false ∧ t.mail.messaging.copies.length = 2))) = some true := by
    decide +kernel
  obtain ⟨t, ht, htest⟩ := Transition.exists_reaches_of_run hrun
  obtain ⟨hrow, htest⟩ := Bool.and_eq_true_iff.mp htest
  obtain ⟨hgone, htest⟩ := Bool.and_eq_true_iff.mp htest
  obtain ⟨hpublished, hdone, hlength⟩ := of_decide_eq_true htest
  obtain ⟨r, hr⟩ := Option.isSome_iff_exists.mp hrow
  obtain ⟨hmem, hid, hkey⟩ := registeredRow_eq_some hr
  have hstatus := of_decide_eq_true (List.all_eq_true.mp hpublished r hmem)
  refine ⟨t, hlength, hid ▸ ?_⟩
  refine (mailed_once (by decide) (by decide) (by decide) (by decide) (hid ▸ ht) hmem hkey hstatus
    (fun c hc _ => ?_) (hid ▸ hdone)).1
  have hc' := List.all_eq_true.mp hgone c hc
  split at hc'
  · assumption
  · cases hc'

end Runs

end NestFastify.Events
