import NestFastify.Events.Registrations
import NestFastify.Messaging.Unwedged
import NestFastify.Outbox.Recovery

/-!
# From the outbox to the end

From every state a committed event that has not failed can still be published, and then be handled
or parked in the DLQ, with no further event and no call of a consumer that rejects
(`committed_closes`). It is the way of the outbox, which the broker follows, and after it the way
of the broker. For a registration the mail queue follows both, and its worker then sends the
welcome mail (`registration_closes`).
-/

namespace NestFastify.Events

open Messaging (Published MessagingState Machine Code codeMachine parseEvent EventPayload
  Subscription Apart HasContract Closed Parked notifications resolving)
open Outbox (OutboxState RelayAction OutboxEvent SameEvent Inv)
open Mail (mail welcomeMail)
open Transition (Reaches Leads)

/-- The broker accepts what the relays publish, no event is added, and the consumers go on
quietly. -/
def Smooth {P : Type} (s : FlowState P) : FlowAction → Prop
  | .outbox a => s.outbox.Resending a
  | .broker a => a.Quiet

/-- Besides, the consumers make no call but for the message `m`. -/
def SmoothFor {P : Type} (m : String) (s : FlowState P) : FlowAction → Prop
  | .outbox a => s.outbox.Resending a
  | .broker a => a.QuietFor m s.broker

variable {P : Type} {D : Messaging.Deployment} {M : Machine P} {s t : FlowState P} {n : ℕ}
  {m : String}

theorem SmoothFor.smooth {a : FlowAction} (h : SmoothFor m s a) : Smooth s a := by
  cases a with
  | outbox a => exact h
  | broker a => exact h.1

theorem Smooth.fresh {a : FlowAction} (h : Smooth s a) : Fresh s a := by
  cases a with
  | outbox a =>
    cases a with
    | enqueue data id randomUUID createdAt => exact absurd rfl (h.2 data id randomUUID createdAt)
    | start | perform | finish | timeout | crash | tick => exact trivial
  | broker a =>
    cases a with
    | publish => exact h.elim
    | deliver | perform | overtake | settle | crash | stray | expire | tick => exact trivial

/-! ## The two ways -/

/-- What the relays do, the broker follows. -/
theorem reaches_of_outbox {o : OutboxState}
    (h : Reaches (relays D).step OutboxState.Resending s.outbox o) :
    ∃ b, Reaches (step D M) (SmoothFor m) s ⟨o, b⟩ := by
  have hstep : ∀ (u : FlowState P) (a : RelayAction) (o' : OutboxState),
      u.outbox.Resending a → (relays D).step u.outbox a = some o' →
      ∃ b v, SmoothFor m u b ∧ step D M u b = some v ∧ v.outbox = o' := by
    intro u a o' ha hmove
    exact ⟨.outbox a, ⟨o', receive D M u.broker (handedOver u.outbox a)⟩, ha,
      congrArg (Option.map _) hmove, rfl⟩
  obtain ⟨⟨o, b⟩, ht, rfl⟩ := h.extend (f := FlowState.outbox) hstep
  exact ⟨b, ht⟩

/-- What the broker and the consumers can do, they can do while the relays rest. -/
theorem leads_of_broker {G : MessagingState P → Prop}
    (h : Leads (D.step M) (fun b a => a.QuietFor m b) G s.broker) :
    Leads (step D M) (SmoothFor m) (fun u => u.outbox = s.outbox ∧ G u.broker) s := by
  obtain ⟨b, hb, hG⟩ := h
  refine ⟨⟨s.outbox, b⟩, ?_, rfl, hG⟩
  exact hb.project (f := FlowState.mk s.outbox) fun u a v ha hmove =>
    Or.inr ⟨.broker a, ha, congrArg (Option.map _) hmove⟩

/-! ## From the outbox to the end -/

/-- The relays are as many as at first. -/
theorem relays_of_reaches {ok : FlowState P → FlowAction → Prop}
    (h : Reaches (step D M) ok (.init P n) t) : t.outbox.db.txns.length = n := by
  refine @Reaches.invariant_under _ _ _ _ _ _ (Inv (relays D) fun _ => False)
    (fun o => o.db.txns.length = n) (outbox_of_reaches h)
    (fun o ho => Outbox.inv_init.run one_le_maxAttempts nofun ho) List.length_replicate
    fun o a o' ho hlength _ hstep => ?_
  exact (ho.rowsStep hstep).2.trans hlength

section Committed

variable {t : FlowState Code} {r : OutboxEvent} {S : Subscription} {v : EventPayload}

/-- The continuation with which an event comes to its end, and makes no call but for the event. -/
theorem closes_of_committed (hevents : ∀ sub ∈ D.subscriptions, HasContract sub.event)
    (hunshared : (D.subscriptions.map Subscription.event).Nodup) (hn : 0 < n)
    (h : Reaches (step D codeMachine) Fresh (.init Code n) t) (hr : r ∈ t.outbox.db.rows)
    (hfailed : r.status ≠ .failed) (hvalid : parseEvent D.z r.routingKey r.payload = .ok v)
    (hS : S ∈ D.subscriptions) (hevent : S.event = r.routingKey) :
    Leads (step D codeMachine) (SmoothFor r.messageId) (fun u =>
      ∃ r' ∈ u.outbox.db.rows, SameEvent r r' ∧ r'.status = .published ∧
        ∃ p ∈ u.broker.published, p.messageId = r.messageId ∧ Closed S p u.broker) t := by
  have hrelays : 0 < t.outbox.db.txns.length := relays_of_reaches h ▸ hn
  obtain ⟨o, houtbox, r', hr', hsame, hpublished⟩ := (inv_of_reaches h).can_publish
    one_le_maxAttempts D.env.RABBITMQ_OUTBOX_BATCH.2 hrelays hr hfailed hvalid
  obtain ⟨b, hway⟩ : ∃ b, Reaches (step D codeMachine) (SmoothFor r.messageId) t ⟨o, b⟩ :=
    reaches_of_outbox houtbox
  have hreach : Reaches (step D codeMachine) Fresh (.init Code n) ⟨o, b⟩ :=
    h.trans (hway.mono fun _ _ ha => ha.smooth.fresh)
  have hlinked := linked_of_reaches (fun _ _ h => h) hreach
  obtain ⟨p, hp, hid, hpevent, -⟩ := hlinked.published (inv_of_reaches hreach) hr' hpublished
  have hSp : S.event = p.event := hevent.trans (hpevent.trans hsame.routingKey).symm
  have hapart : Apart D.subscriptions S := Apart.of_hasContract
    (fun sub hsub heq => List.inj_on_of_nodup_map hunshared hsub hS heq) hS hevents
  have hbroker : Reaches (D.step codeMachine) (fun _ _ => True) (.init Code) b :=
    broker_of_reaches (fun _ _ _ => trivial) (fun _ _ _ _ _ => trivial) hreach
  -- the event is on the broker; from here the relays rest
  have hcloses := Messaging.closes_of_unambiguous hapart hSp.symm hbroker
    (fun p' hp' hid => hlinked.unambiguous p hp p' hp' hid) hp
  have hrow : p.messageId = r.messageId := hid.trans hsame.messageId
  rw [hrow] at hcloses
  obtain ⟨u, hu, hrest, hpu, hclosed⟩ := leads_of_broker (s := ⟨o, b⟩) hcloses
  refine ⟨u, hway.trans hu, r', ?_, hsame, hpublished, p, hpu, hrow, hclosed⟩
  rw [hrest]
  exact hr'

/-- From every state a committed event that has not failed, and that passes its contract, can
still be published, and then be handled or parked. -/
theorem committed_closes (hevents : ∀ sub ∈ D.subscriptions, HasContract sub.event)
    (hunshared : (D.subscriptions.map Subscription.event).Nodup) (hn : 0 < n)
    (h : Reaches (step D codeMachine) Fresh (.init Code n) t) (hr : r ∈ t.outbox.db.rows)
    (hfailed : r.status ≠ .failed) (hvalid : parseEvent D.z r.routingKey r.payload = .ok v)
    (hS : S ∈ D.subscriptions) (hevent : S.event = r.routingKey) :
    Leads (step D codeMachine) Smooth (fun u =>
      (∃ r' ∈ u.outbox.db.rows, SameEvent r r' ∧ r'.status = .published) ∧
        ∃ p ∈ u.broker.published, p.messageId = r.messageId ∧ p.event = r.routingKey ∧
          r.payload = p.payload.toJson ∧ Closed S p u.broker) t := by
  obtain ⟨u, hu, r', hr', hsame, hpublished, p, hp, hid, hclosed⟩ :=
    closes_of_committed hevents hunshared hn h hr hfailed hvalid hS hevent
  have hreach : Reaches (step D codeMachine) Fresh (.init Code n) u :=
    h.trans (hu.mono fun _ _ ha => ha.smooth.fresh)
  have hlinked := linked_of_reaches (fun _ _ h => h) hreach
  obtain ⟨p', hp', hid', hevent', hpayload⟩ :=
    hlinked.published (inv_of_reaches hreach) hr' hpublished
  obtain rfl : p' = p :=
    hlinked.unambiguous p hp p' hp' (hid'.trans (hsame.messageId.trans hid.symm))
  exact ⟨u, hu.mono fun _ _ => SmoothFor.smooth, ⟨r', hr', hsame, hpublished⟩, p', hp, hid,
    hevent'.trans hsame.routingKey, hsame.payload ▸ hpayload, hclosed⟩

end Committed

/-- The copy that is on the broker is delivered, and its handler fails. -/
def failing (S : Subscription) : List Messaging.Action :=
  .deliver 0 S "2026-06-06T00:00:00Z" :: resolving 0 2 ++
    [.perform 0 (.rejects (.error "boom") false)]

/-- The relay has not heard that its publish has been executed, and the row is pending still. -/
def halfway : List FlowAction :=
  .outbox (.enqueue (Outbox.createdNotification "m1") "1" "" 0) ::
    (sentTwice.take 4).map .outbox ++ (failing notifications).map .broker

/-- The row is pending, under the routing key, and passes its contract. -/
def isPending (key : String) (r : OutboxEvent) : Bool :=
  decide (r.status = .pending ∧ r.routingKey = key) &&
    (parseEvent app.z r.routingKey r.payload).toOption.isSome

theorem of_isPending {key : String} {r : OutboxEvent} (h : isPending key r = true) :
    r.status = .pending ∧ r.routingKey = key ∧
      ∃ v, parseEvent app.z r.routingKey r.payload = .ok v := by
  obtain ⟨hstate, hparses⟩ := Bool.and_eq_true_iff.mp h
  obtain ⟨hpending, hkey⟩ := of_decide_eq_true hstate
  refine ⟨hpending, hkey, ?_⟩
  cases hvalid : parseEvent app.z r.routingKey r.payload with
  | ok v => exact ⟨v, rfl⟩
  | error e =>
    rw [hvalid] at hparses
    cases hparses

/-- The event is on the broker, where its handler has failed, and its row still pending. -/
theorem committed_closes_halfway : ∃ t : FlowState Code,
    Reaches (step app codeMachine) Fresh (.init Code 1) t ∧ t.broker.published.length = 1 ∧
      ∃ r ∈ t.outbox.db.rows, r.status = .pending ∧
        Leads (step app codeMachine) Smooth (fun u =>
          (∃ r' ∈ u.outbox.db.rows, SameEvent r r' ∧ r'.status = .published) ∧
            ∃ p ∈ u.broker.published, p.messageId = r.messageId ∧ p.event = r.routingKey ∧
              r.payload = p.payload.toJson ∧ Closed notifications p u.broker) t := by
  have hrun : (Transition.run (step app codeMachine) Fresh (.init Code 1) halfway).map (fun t =>
      decide (t.broker.published.length = 1) &&
        t.outbox.db.rows.any (isPending "notification.created")) = some true := by
    decide +kernel
  obtain ⟨t, ht, htest⟩ := Transition.exists_reaches_of_run hrun
  obtain ⟨hlength, hrow⟩ := Bool.and_eq_true_iff.mp htest
  obtain ⟨r, hr, hrow⟩ := List.any_eq_true.mp hrow
  obtain ⟨hpending, hkey, v, hvalid⟩ := of_isPending hrow
  have hfailed : r.status ≠ .failed := by
    rw [hpending]
    nofun
  exact ⟨t, ht, of_decide_eq_true hlength, r, hr, hpending, committed_closes (by decide)
    (by decide) Nat.one_pos ht hr hfailed hvalid
    (show notifications ∈ app.subscriptions by decide) hkey.symm⟩

/-! ## From a registration to its mail -/

section Mail

variable {refused : Mail.RefusedIds} {s t : AppState P} {r : OutboxEvent} {v : EventPayload}

/-- Besides, the worker of the mail queue processes jobs. -/
def AppSmooth (s : AppState P) : AppAction → Prop
  | .outbox a => Smooth s.flow (.outbox a)
  | .broker a => Smooth s.flow (.broker a)
  | .process _ => True

/-- No step of the continuation brings a new message. -/
theorem AppSmooth.fresh {a : AppAction} (h : AppSmooth s a) : AppFresh s a := by
  cases a with
  | outbox a => exact Smooth.fresh h
  | broker a => exact Smooth.fresh h
  | process i => exact trivial

/-- What the relays and the consumers do for a message whose id BullMQ takes, the mail queue
follows. -/
theorem reaches_of_flow {f : FlowState P} (hm : refused m = none)
    (h : Reaches (step D M) (SmoothFor m) s.flow f) :
    ∃ u, Reaches (appStep D refused M) AppSmooth s u ∧ u.flow = f := by
  refine h.extend (f := AppState.flow) fun u a v ha hmove => ?_
  cases a with
  | outbox a =>
    obtain ⟨o, ho, rfl⟩ := Option.map_eq_some_iff.mp hmove
    refine ⟨.outbox a, ⟨o, { u.mail with
      messaging := receive D M u.mail.messaging (handedOver u.outbox a) }⟩, ha, ?_, rfl⟩
    exact congrArg (Option.map _) ho
  | broker a =>
    obtain ⟨b, hb, rfl⟩ := Option.map_eq_some_iff.mp hmove
    obtain ⟨w, hw⟩ : ∃ w, Mail.step D refused M u.mail (.messaging a) = some w :=
      ⟨_, (if_pos (Mail.settles_of_taken hm ha.2)).trans (congrArg (Option.map _) hb)⟩
    refine ⟨.broker a, ⟨u.outbox, w⟩, ha.1, congrArg (Option.map _) hw, ?_⟩
    have hsame : b = w.messaging := Option.some.inj (hb.symm.trans (Mail.messaging_of_step hw))
    rw [hsame]
    rfl

/-- A job of the mail queue can be sent, if it has not been. -/
theorem leads_to_sent {ok : AppState P → AppAction → Prop}
    (h : Reaches (appStep D refused M) ok (.init P n) s) {job : Mail.Job} (hjob : job ∈ s.mail.jobs) :
    Leads (appStep D refused M) AppSmooth (fun u => u.outbox = s.outbox ∧ job ∈ u.mail.sent) s := by
  have hmails : Reaches (Mail.step D refused M) (fun _ _ => True) (.init P) s.mail :=
    mail_of_reaches (fun _ _ _ => trivial) (fun _ _ _ _ _ => trivial) (fun _ _ => trivial) h
  rcases List.mem_append.mp hjob with hwaiting | hsent
  · obtain ⟨i, m, hm, hsent⟩ := Mail.step_process (Mail.waiting_of_reaches hmails) hwaiting
    have hsmooth : AppSmooth s (.process i) := trivial
    have hprocess : appStep D refused M s (.process i) = some { s with mail := m } :=
      congrArg (Option.map _) hm
    exact Leads.head hsmooth hprocess (Leads.here ⟨rfl, hsent⟩)
  · exact Leads.here ⟨rfl, hsent⟩

/-- From every state a registration that has been committed and has not failed can still be
published, and then its welcome mail be sent or its message be parked, if BullMQ takes its id. -/
theorem registration_closes {t : AppState Code} (hwn : Messaging.WellNamed D.subscriptions)
    (hevents : ∀ sub ∈ D.subscriptions, HasContract sub.event)
    (hunshared : (D.subscriptions.map Subscription.event).Nodup) (hmail : mail ∈ D.subscriptions)
    (hn : 0 < n) (h : Reaches (appStep D refused codeMachine) AppFresh (.init Code n) t)
    (hr : r ∈ t.outbox.db.rows) (hkey : r.routingKey = "user.registered")
    (hfailed : r.status ≠ .failed) (hvalid : parseEvent D.z r.routingKey r.payload = .ok v)
    (htaken : refused r.messageId = none) :
    Leads (appStep D refused codeMachine) AppSmooth (fun u =>
      (∃ r' ∈ u.outbox.db.rows, SameEvent r r' ∧ r'.status = .published) ∧
        ∃ userId email name, r.payload = (EventPayload.userRegistered userId email name).toJson ∧
          ((∃ job ∈ u.mail.sent, job.id = r.messageId ∧ job.data = welcomeMail email name) ∨
            ∃ p ∈ u.mail.messaging.published, p.messageId = r.messageId ∧
              Parked mail p u.mail.messaging)) t := by
  have hflow : Reaches (step D codeMachine) Fresh (.init Code n) t.flow :=
    flow_of_reaches (fun _ _ h => h) h
  obtain ⟨f, hf, hend⟩ := closes_of_committed (t := t.flow) hevents hunshared hn hflow hr hfailed
    hvalid hmail hkey.symm
  obtain ⟨u, hu, rfl⟩ := reaches_of_flow htaken hf
  obtain ⟨r', hr', hsame, hpublished, p, hp, hid, hclosed⟩ := hend
  have hreach : Reaches (appStep D refused codeMachine) AppFresh (.init Code n) u :=
    h.trans (hu.mono fun _ _ => AppSmooth.fresh)
  have hflow' : Reaches (step D codeMachine) Fresh (.init Code n) u.flow :=
    flow_of_reaches (fun _ _ h => h) hreach
  have hlinked : Linked D u.outbox u.mail.messaging.published :=
    linked_of_reaches (fun _ _ h => h) hflow'
  obtain ⟨p', hp', hid', -, hpayload, userId, email, name, hregistered⟩ :=
    hlinked.registered (inv_of_reaches hflow') hr' (hsame.routingKey.trans hkey) hpublished
  obtain rfl : p' = p :=
    hlinked.unambiguous p hp p' hp' (hid'.trans (hsame.messageId.trans hid.symm))
  have hrow : r.payload = (EventPayload.userRegistered userId email name).toJson := by
    rw [← hsame.payload, hpayload, hregistered]
  rcases hclosed with hresolved | hparked
  · have hmailed := mailed_of_appReaches hwn hevents hreach
    obtain ⟨job, hjob, hjobId⟩ := hmailed.reached _ hresolved rfl
    have hdata := hlinked.welcome hmailed hp hregistered hjob hjobId
    -- what is left is the worker of the mail queue
    obtain ⟨w, hw, houtbox, hsent⟩ := leads_to_sent hreach hjob
    exact ⟨w, hu.trans hw, ⟨r', houtbox ▸ hr', hsame, hpublished⟩, userId, email, name, hrow,
      Or.inl ⟨job, hsent, hjobId.trans hid, hdata⟩⟩
  · exact ⟨u, hu, ⟨r', hr', hsame, hpublished⟩, userId, email, name, hrow,
      Or.inr ⟨p', hp, hid, hparked⟩⟩

/-- The same of a registration. -/
def halfMailed : List AppAction :=
  .outbox (.enqueue registration "1" "" 0) :: (sentTwice.take 4).map .outbox ++
    (failing mail).map .broker

/-- The registration is on the broker, where its handler has failed once, and its row still pending.
-/
theorem registration_closes_halfMailed : ∃ t : AppState Code,
    Reaches (appStep app Mail.takesAll codeMachine) AppFresh (.init Code 1) t ∧
      t.mail.messaging.published.length = 1 ∧ ∃ r ∈ t.outbox.db.rows, r.status = .pending ∧
        Leads (appStep app Mail.takesAll codeMachine) AppSmooth (fun u =>
          (∃ r' ∈ u.outbox.db.rows, SameEvent r r' ∧ r'.status = .published) ∧
            ∃ userId email name,
              r.payload = (EventPayload.userRegistered userId email name).toJson ∧
              ((∃ job ∈ u.mail.sent, job.id = r.messageId ∧ job.data = welcomeMail email name) ∨
                ∃ p ∈ u.mail.messaging.published, p.messageId = r.messageId ∧
                  Parked mail p u.mail.messaging)) t := by
  have hrun : (Transition.run (appStep app Mail.takesAll codeMachine) AppFresh (.init Code 1)
      halfMailed).map (fun t => decide (t.mail.messaging.published.length = 1) &&
        t.outbox.db.rows.any (isPending "user.registered")) = some true := by
    decide +kernel
  obtain ⟨t, ht, htest⟩ := Transition.exists_reaches_of_run hrun
  obtain ⟨hlength, hrow⟩ := Bool.and_eq_true_iff.mp htest
  obtain ⟨r, hr, hrow⟩ := List.any_eq_true.mp hrow
  obtain ⟨hpending, hkey, v, hvalid⟩ := of_isPending hrow
  have hfailed : r.status ≠ .failed := by
    rw [hpending]
    nofun
  exact ⟨t, ht, of_decide_eq_true hlength, r, hr, hpending, registration_closes (by decide)
    (by decide) (by decide) (by decide) Nat.one_pos ht hr hkey hfailed hvalid rfl⟩

end Mail

end NestFastify.Events
