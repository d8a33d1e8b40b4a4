import NestFastify.Messaging.ConsumerSteps

/-!
# Every copy stems from a publication

What `consume` republishes keeps the message id, the request id and the payload of the message it
has been delivered, and stays in the queues of its event. So in every run each copy on the broker,
however often it has been retried, returned or dead-lettered, is one of a publication of
`EventPublisherService` (`Stems`), and each call of a handler is made for such a publication
(`Called`). Events may have several subscriptions here.
-/

namespace NestFastify.Messaging

open Transition (Reaches recording)

/-- A message that has been published, with the request it was published in. -/
structure Sent extends Published where
  requestId : Option String
deriving DecidableEq

/-- What a step publishes through `EventPublisherService`. -/
def Deployment.sends (D : Deployment) : Action → List Sent
  | .publish event raw messageId requestId =>
    match parseEvent D.z event raw with
    | .ok payload => [⟨⟨messageId, event, payload⟩, requestId⟩]
    | .error _ => []
  | _ => []

def LogEntry.call : LogEntry → FnCall
  | started call | resolved call | rejected call => call

section Claims

variable (D : Deployment) (e : Sent)

/-- A queue that messages of the event can be in: that of no binding, or one of a subscription. -/
def Located (queue : String) : Prop :=
  queue = unroutedQueueName D.env.RABBITMQ_EXCHANGE ∨
  ∃ S ∈ D.subscriptions, S.event = e.event ∧ (queue = workQueueName S.subscriber S.event ∨
    (∃ tier < D.retryDelaysMs.length, queue = retryQueueName S.subscriber S.event tier) ∨
    queue = dlqName S.subscriber S.event)

/-- The letter is the publication, or a copy of it that has failed `x-attempt` times. -/
structure Stems (l : Letter) : Prop where
  messageId : l.message.messageId = some e.messageId
  requestId : l.message.headers.requestId = e.requestId
  content : l.message.content = e.payload.toJson
  located : Located D e l.queue
  bounded : l.message.attempt ≤ D.consumer.maxRetries
  failed : 0 < l.message.attempt ∨ l.message.headers.failedAt.isSome = true →
    l.message.headers.error.isSome = true
  waits : ∀ S ∈ D.subscriptions, ∀ tier,
    l.queue = retryQueueName S.subscriber S.event tier →
      0 < l.message.attempt ∧ tier = D.consumer.retryTier (l.message.attempt - 1)

/-- A handler of the event is called with the payload. -/
structure Called (call : FnCall) : Prop where
  messageId : call.messageId = e.messageId
  payload : call.payload = e.payload
  subscribed : call.subscription ∈ D.subscriptions
  event : call.subscription.event = e.event

end Claims

/-! ## Where the copies of an event go -/

section Routes

variable {D : Deployment} {e : Sent} {S : Subscription} {queue key : String}

theorem Located.work (hS : S ∈ D.subscriptions) (hevent : S.event = e.event) :
    Located D e (workQueueName S.subscriber S.event) := Or.inr ⟨S, hS, hevent, Or.inl rfl⟩

theorem Located.dlq (hS : S ∈ D.subscriptions) (hevent : S.event = e.event) :
    Located D e (dlqName S.subscriber S.event) := Or.inr ⟨S, hS, hevent, Or.inr (Or.inr rfl)⟩

variable (hwn : WellNamed D.subscriptions)
include hwn

/-- A message of the event that enters the events exchange. -/
theorem mem_route_event (h : queue ∈ D.topology.route D.ex.events e.event) :
    queue = unroutedQueueName D.env.RABBITMQ_EXCHANGE ∨ ∃ S ∈ D.subscriptions,
      S.event = e.event ∧ queue = workQueueName S.subscriber S.event := by
  by_cases hbound : D.topology.bound (eventsExchange D.env.RABBITMQ_EXCHANGE) e.event = []
  · have hroute : D.topology.route D.ex.events e.event = _ := route_events_of_unbound hbound
    rw [hroute] at h
    exact Or.inl (List.mem_singleton.mp h)
  · have hroute : D.topology.route D.ex.events e.event = _ :=
      Amqp.Topology.route_eq_bound find_events (Or.inr hbound)
    rw [hroute] at h
    obtain ⟨S, hS, hmatch, hname⟩ := mem_bound_events.mp h
    exact Or.inr ⟨S, hS, (Amqp.topicMatches_literal (hwn S hS).2.2).mp hmatch, hname.symm⟩

theorem mem_route_dead (h : queue ∈ D.topology.route D.ex.dlx e.event) :
    ∃ S ∈ D.subscriptions, S.event = e.event ∧ queue = dlqName S.subscriber S.event := by
  obtain ⟨S, hS, hmatch, hname⟩ := mem_route_dlx.mp h
  exact ⟨S, hS, (Amqp.topicMatches_literal (hwn S hS).2.2).mp hmatch, hname.symm⟩

/-- Messages expire in a queue of their event that has a TTL. -/
theorem expires_from (h : Located D e queue)
    (httl : ((D.topology.queue? queue).bind (·.arguments.messageTtl)).isSome = true) :
    ∃ S ∈ D.subscriptions, S.event = e.event ∧ (queue = workQueueName S.subscriber S.event ∨
      ∃ tier < D.retryDelaysMs.length, queue = retryQueueName S.subscriber S.event tier) := by
  rcases h with rfl | ⟨S, hS, hevent, hwork | hretry | rfl⟩
  · have hfind : D.topology.queue? (unroutedQueueName D.env.RABBITMQ_EXCHANGE) =
        some (unroutedQueue D.ex D.env.RABBITMQ_EXCHANGE) := by
      show List.find? _ (unroutedQueue D.ex D.env.RABBITMQ_EXCHANGE :: _) = _
      exact List.find?_cons_of_pos (by simp [unroutedQueue])
    rw [hfind] at httl
    cases httl
  · exact ⟨S, hS, hevent, Or.inl hwork⟩
  · exact ⟨S, hS, hevent, Or.inr hretry⟩
  · have hfind : D.topology.queue? (dlqName S.subscriber S.event) = some (dlq D.ex S) :=
      queue?_dlqName (hwn.distinct hS) hS
    rw [hfind] at httl
    cases httl

/-- Only the retry queues of one subscription and tier have their name. -/
theorem eq_of_retryQueueName {S' : Subscription} (hS : S ∈ D.subscriptions)
    (hS' : S' ∈ D.subscriptions) {tier tier' : ℕ}
    (h : retryQueueName S.subscriber S.event tier = retryQueueName S'.subscriber S'.event tier') :
    S = S' ∧ tier = tier' := by
  obtain ⟨htitle, htier⟩ := retryQueueName_eq_iff.mp h
  exact ⟨hwn.distinct hS' S hS htitle, htier⟩

end Routes

/-- A queue that is none of a retry tier. -/
theorem not_waiting {D : Deployment} {queue : String} {P : Subscription → ℕ → Prop}
    (h : queue = unroutedQueueName D.env.RABBITMQ_EXCHANGE ∨
      (∃ S : Subscription, queue = workQueueName S.subscriber S.event) ∨
      ∃ S : Subscription, queue = dlqName S.subscriber S.event) :
    ∀ S ∈ D.subscriptions, ∀ tier, queue = retryQueueName S.subscriber S.event tier → P S tier := by
  intro S _ tier hretry
  rcases h with hunrouted | ⟨S', hwork⟩ | ⟨S', hdlq⟩
  · exact absurd (hunrouted.symm.trans hretry) unroutedQueueName_ne_retryQueueName
  · exact absurd (hwork.symm.trans hretry) workQueueName_ne_retryQueueName
  · exact absurd (hdlq.symm.trans hretry) dlqName_ne_retryQueueName

section Stems

variable {D : Deployment} {e : Sent} {l l' : Letter} {d : Delivery Point}
  (hwn : WellNamed D.subscriptions)

/-- A letter with the same message, in a queue of the event that is no retry tier. -/
theorem Stems.moved (h : Stems D e l) (hmessage : l'.message = l.message)
    (hlocated : Located D e l'.queue)
    (hqueue : l'.queue = unroutedQueueName D.env.RABBITMQ_EXCHANGE ∨
      (∃ S : Subscription, l'.queue = workQueueName S.subscriber S.event) ∨
      ∃ S : Subscription, l'.queue = dlqName S.subscriber S.event) : Stems D e l' where
  messageId := hmessage ▸ h.messageId
  requestId := hmessage ▸ h.requestId
  content := hmessage ▸ h.content
  located := hlocated
  bounded := hmessage ▸ h.bounded
  failed := hmessage ▸ h.failed
  waits := not_waiting hqueue

/-- A letter that stays in its queue. -/
theorem Stems.stays (h : Stems D e l) (hmessage : l'.message = l.message)
    (hqueue : l'.queue = l.queue) : Stems D e l' where
  messageId := hmessage ▸ h.messageId
  requestId := hmessage ▸ h.requestId
  content := hmessage ▸ h.content
  located := hqueue ▸ h.located
  bounded := hmessage ▸ h.bounded
  failed := hmessage ▸ h.failed
  waits := by
    rw [hmessage, hqueue]
    exact h.waits

include hwn

/-- What the publisher puts into the queues. -/
theorem stems_sent {x : Letter} (hx : x ∈ D.routed ⟨D.ex.events, e.event, e.payload.toJson,
    some e.messageId, ⟨some 0, none, none, e.requestId⟩⟩) : Stems D e x := by
  obtain ⟨queue, hqueue, rfl⟩ := List.mem_map.mp hx
  have hcases := mem_route_event hwn hqueue
  refine ⟨rfl, rfl, rfl, ?_, Nat.zero_le _, fun h => ?_, not_waiting ?_⟩
  · rcases hcases with hunrouted | ⟨S, hS, hevent, hwork⟩
    · exact Or.inl hunrouted
    · exact hwork ▸ Located.work hS hevent
  · rcases h with hattempt | hfailed
    · exact absurd hattempt (Nat.lt_irrefl 0)
    · exact nomatch hfailed
  · exact hcases.imp_right fun ⟨S, _, _, hwork⟩ => Or.inl ⟨S, hwork⟩

/-- What dead-lettering makes of a letter of a work queue, and of one that waits for a retry. -/
theorem stems_deadLettered (hevents : ∀ S ∈ D.subscriptions, HasContract S.event)
    (h : Stems D e l) {S : Subscription} (hS : S ∈ D.subscriptions) (hevent : S.event = e.event)
    (hqueue : l.queue = workQueueName S.subscriber S.event ∨
      ∃ tier < D.retryDelaysMs.length, l.queue = retryQueueName S.subscriber S.event tier)
    {x : Letter} (hx : x ∈ D.deadLettered l) : Stems D e x := by
  have hmessage := Deployment.mem_deadLettered hx
  obtain ⟨queue, hroute, rfl⟩ := List.mem_map.mp hx
  rcases hqueue with hwork | ⟨tier, htier, hretry⟩
  · have hne : unroutedQueueName D.env.RABBITMQ_EXCHANGE ≠
        workQueueName S.subscriber S.event := by
      apply unroutedQueueName_ne_workQueueName
      rcases hevents S hS with hname | hname <;> (rw [hname]; decide)
    have hdead : D.topology.deadLetterRoute l.queue l.routingKey = D.topology.route D.ex.dlx S.event :=
      hwork ▸ deadLetterRoute_workQueueName (hwn.distinct hS) hS hne
    rw [hdead, hevent] at hroute
    obtain ⟨S', hS', hevent', hdlq⟩ := mem_route_dead hwn hroute
    exact h.moved hmessage (hdlq ▸ Located.dlq hS' hevent') (Or.inr (Or.inr ⟨S', hdlq⟩))
  · have hback : D.topology.deadLetterRoute l.queue l.routingKey =
        D.topology.route D.ex.events S.event :=
      hretry ▸ deadLetterRoute_retryQueueName (hwn.distinct hS) hS htier
    rw [hback, hevent] at hroute
    rcases mem_route_event hwn hroute with hunrouted | ⟨S', hS', hevent', hwork⟩
    · exact h.moved hmessage (Or.inl hunrouted) (Or.inl hunrouted)
    · exact h.moved hmessage (hwork ▸ Located.work hS' hevent') (Or.inr (Or.inl ⟨S', hwork⟩))

/-- What a delivery gives up, with a reason. -/
theorem stems_dlx (h : Stems D e l) {content : Json} (hcontent : content = e.payload.toJson)
    {reason : String} {now : Option String} {x : Letter}
    (hx : x ∈ D.routed ⟨D.ex.dlx, e.event, content, l.message.messageId,
      { l.message.headers with error := some reason, failedAt := now }⟩) : Stems D e x := by
  obtain ⟨queue, hroute, rfl⟩ := List.mem_map.mp hx
  obtain ⟨S, hS, hevent, hdlq⟩ := mem_route_dead hwn hroute
  exact ⟨h.messageId, h.requestId, hcontent, hdlq ▸ Located.dlq hS hevent, h.bounded,
    fun _ => rfl, not_waiting (Or.inr (Or.inr ⟨S, hdlq⟩))⟩

/-- The payload that a suspended `handle` has parsed. -/
def Point.Carries (payload : EventPayload) : Point → Prop
  | .acquire v | .fn v _ | .mark v _ | .republish v _ _ | .confirm v _ => v = payload
  | _ => True

/-- What a delivery publishes after a failure: one more attempt, or its end. -/
theorem stems_republished (h : Stems D e l) (hsub : d.subscription ∈ D.subscriptions)
    (hevent : d.subscription.event = e.event) {pt pt' : Point} {p : Publication}
    {r : Except JsError Unit} (hstep : Point.Step (D.context l d) pt (.publish p) r pt')
    (hcarries : pt.Carries e.payload)
    {x : Letter} (hx : x ∈ D.routed p) : Stems D e x := by
  have hreject : ∀ reason, p = (D.context l d).rejectPublication reason → Stems D e x := by
    intro reason hp
    rw [hp] at hx
    change x ∈ D.routed ⟨D.ex.dlx, d.subscription.event, _, _, _⟩ at hx
    rw [hevent] at hx
    exact stems_dlx hwn h h.content hx
  have hfailure : ∀ payload err, payload = e.payload →
      p = (D.context l d).failurePublication payload err → Stems D e x := by
    intro payload err hpayload hp
    rw [hp] at hx
    unfold Context.failurePublication at hx
    by_cases hattempt : (D.context l d).msg.attempt < (D.context l d).consumer.maxRetries
    · rw [if_pos hattempt] at hx
      obtain ⟨queue, hroute, rfl⟩ := List.mem_map.mp hx
      obtain ⟨htier, hname⟩ := (mem_route_retry_iff hwn hsub _).mp hroute
      refine ⟨h.messageId, h.requestId, congrArg EventPayload.toJson hpayload,
        Or.inr ⟨_, hsub, hevent, Or.inr (Or.inl ⟨_, htier, hname.symm⟩)⟩, hattempt,
        fun _ => rfl, fun S hS tier htiers => ⟨Nat.succ_pos _, ?_⟩⟩
      exact (eq_of_retryQueueName hwn hsub hS (hname.trans htiers)).2.symm
    · rw [if_neg hattempt] at hx
      change x ∈ D.routed ⟨D.ex.dlx, d.subscription.event, _, _, _⟩ at hx
      rw [hevent] at hx
      exact stems_dlx hwn h (congrArg EventPayload.toJson hpayload) hx
  cases hstep with
  | reject_ok reason => exact hreject reason rfl
  | reject_fail reason err => exact hreject reason rfl
  | republish_ok payload lock err => exact hfailure payload err hcarries rfl
  | republish_fail payload lock err e' => exact hfailure payload err hcarries rfl
  | confirm_ok payload err => exact hfailure payload err hcarries rfl
  | confirm_fail payload err e' => exact hfailure payload err hcarries rfl

end Stems

/-! ## The invariant -/

section Invariant

variable (D : Deployment) (e : Sent)

/-- A copy of the publication, and a delivery of it to a subscriber of its event. -/
structure Conveys (c : Copy Point) : Prop where
  stems : Stems D e c.toLetter
  running : ∀ d, c.place = .unacked d → d.subscription ∈ D.subscriptions ∧
    d.subscription.event = e.event ∧
    c.queue = workQueueName d.subscription.subscriber d.subscription.event ∧
    d.code.Carries e.payload

/-- The copies and the calls of handlers stem from what has been sent. -/
structure Traced (sent : List Sent) (s : MessagingState Point) : Prop where
  valid : ∀ e ∈ sent, parseEvent D.z e.event e.payload.toJson = .ok e.payload
  published : sent.map Sent.toPublished = s.published
  copies : ∀ c ∈ s.copies, ∃ e ∈ sent, Conveys D e c
  log : ∀ entry ∈ s.log, ∃ e ∈ sent, Called D e entry.call

end Invariant

section Steps

variable {D : Deployment} {e : Sent} {sent : List Sent} {s s' s₁ : MessagingState Point} {i : ℕ}
  {c c' : Copy Point} {l l' : Letter} {d : Delivery Point} {letters : List Letter}

theorem Conveys.ready (h : Stems D e l) : Conveys D e ⟨l, .ready⟩ where
  stems := h
  running d hd := by cases hd

theorem Conveys.gone (h : Stems D e l) : Conveys D e ⟨l, .gone⟩ where
  stems := h
  running d hd := by cases hd

/-- One copy changes and puts letters into queues: they stem from the publication of the copy. -/
theorem Traced.move (h : Traced D sent s) (hi : s.copies[i]? = some c)
    (hcopies : s'.copies = s.copies.set i c' ++ delivered letters)
    (hpub : s'.published = s.published)
    (hlocal : ∀ e ∈ sent, Conveys D e c → Conveys D e c' ∧ (∀ l ∈ letters, Stems D e l) ∧
      ∀ entry ∈ s'.log, entry ∈ s.log ∨ Called D e entry.call) : Traced D sent s' := by
  obtain ⟨e, he, hc⟩ := h.copies c (List.mem_of_getElem? hi)
  obtain ⟨hc', hletters, hlog⟩ := hlocal e he hc
  refine ⟨h.valid, hpub ▸ h.published, fun x hx => ?_, fun entry hentry => ?_⟩
  · rw [hcopies] at hx
    rcases mem_moved hx with hold | rfl | ⟨l, hl, rfl⟩
    · exact h.copies x hold
    · exact ⟨e, he, hc'⟩
    · exact ⟨e, he, .ready (hletters l hl)⟩
  · rcases hlog entry hentry with hold | hcalled
    · exact h.log entry hold
    · exact ⟨e, he, hcalled⟩

theorem Traced.place (h : Traced D sent s) (hi : s.copies[i]? = some c) (pl : Place Point)
    (hlocal : ∀ e ∈ sent, Conveys D e c → Conveys D e ⟨l', pl⟩) :
    Traced D sent (Deployment.place s i l' pl) :=
  h.move hi (Deployment.place_copies s i l' pl) rfl fun e he hc =>
    ⟨hlocal e he hc, fun _ hl => absurd hl List.not_mem_nil, fun _ hentry => Or.inl hentry⟩

/-- A letter of a work queue or of a retry tier is dead-lettered. -/
theorem Traced.deadLetter (hwn : WellNamed D.subscriptions)
    (hevents : ∀ S ∈ D.subscriptions, HasContract S.event) (h : Traced D sent s)
    (hi : s.copies[i]? = some c) (hmessage : l'.message = c.message) (hqueue : l'.queue = c.queue)
    (hfrom : ∀ e ∈ sent, Conveys D e c → ∃ S ∈ D.subscriptions, S.event = e.event ∧
      (c.queue = workQueueName S.subscriber S.event ∨
        ∃ tier < D.retryDelaysMs.length, c.queue = retryQueueName S.subscriber S.event tier)) :
    Traced D sent (D.deadLetter s i l') := by
  refine h.move hi (Deployment.deadLetter_copies s i l') rfl fun e he hc => ?_
  have hstems : Stems D e l' := hc.stems.stays hmessage hqueue
  obtain ⟨S, hS, hevent, hname⟩ := hfrom e he hc
  exact ⟨.gone hstems,
    fun x hx => stems_deadLettered hwn hevents hstems hS hevent (hqueue ▸ hname) hx,
    fun _ hentry => Or.inl hentry⟩

/-- A delivery goes back to its queue, or past its delivery limit to the DLQ. -/
theorem Traced.requeue (hwn : WellNamed D.subscriptions)
    (hevents : ∀ S ∈ D.subscriptions, HasContract S.event) (h : Traced D sent s)
    (hi : s.copies[i]? = some ⟨l, .unacked d⟩) (hmessage : l'.message = l.message)
    (hqueue : l'.queue = l.queue) : Traced D sent (D.requeue s i l') := by
  rcases Deployment.requeue_eq s i l' with heq | heq
  · rw [heq]
    exact h.place hi .ready fun e _ hc => .ready (hc.stems.stays hmessage hqueue)
  · rw [heq]
    refine h.deadLetter hwn hevents hi hmessage hqueue fun e _ hc => ?_
    obtain ⟨hsub, hevent, hwork, -⟩ := hc.running d rfl
    exact ⟨d.subscription, hsub, hevent, Or.inl hwork⟩

/-- A delivery goes on with the payload of its message. -/
theorem Point.Carries.step {call : ConsumerCall} {r : Except JsError call.Reply} {pt pt' : Point}
    (hstep : Point.Step (D.context l d) pt call r pt') (h : pt.Carries e.payload)
    (hparse : parseEvent D.z d.subscription.event l.message.content = .ok e.payload) :
    pt'.Carries e.payload := by
  cases hstep with
  | get_miss v hv payload hparse' => exact Except.ok.inj (hparse'.symm.trans hparse)
  | acquire_ok | fn_ok | fn_fail | mark_fail | overtake_ok => exact h
  | get_hit | get_invalid | get_broken | get_fail | reject_ok | reject_fail | acquire_held
  | acquire_fail | mark_ok | republish_ok | republish_fail | overtake_fail | release_ok
  | release_fail | confirm_ok | confirm_fail => trivial

/-- The calls of the handler are made with the payload of the message. -/
theorem called_of_resume {call : ConsumerCall} {r : Except JsError call.Reply} {pt pt' : Point}
    (hstep : Point.Step (D.context l d) pt call r pt') (hstems : Stems D e l)
    (hsub : d.subscription ∈ D.subscriptions) (hevent : d.subscription.event = e.event)
    (hcarries : pt.Carries e.payload) (hcarries' : pt'.Carries e.payload)
    (hlog : s₁.log = s.log) :
    ∀ entry ∈ (D.resume pointMachine s₁ i l d call r pt').log,
      entry ∈ s.log ∨ Called D e entry.call := by
  have hcall : ∀ payload, payload = e.payload → Called D e (Deployment.fnCall l d payload) := by
    intro payload hpayload
    refine ⟨?_, hpayload, hsub, hevent⟩
    show l.message.messageId.getD "" = e.messageId
    rw [hstems.messageId]
    rfl
  intro entry hentry
  rcases List.mem_append.mp hentry with hentry | hstarted
  · rcases List.mem_append.mp hentry with hold | hsettled
    · exact Or.inl (hlog ▸ hold)
    · refine Or.inr ?_
      cases hstep with
      | fn_ok payload lock => exact List.mem_singleton.mp hsettled ▸ hcall payload hcarries
      | fn_fail payload lock err => exact List.mem_singleton.mp hsettled ▸ hcall payload hcarries
      | get_hit | get_miss | get_invalid | get_broken | get_fail | reject_ok | reject_fail
      | acquire_ok | acquire_held | acquire_fail | mark_ok | mark_fail | republish_ok
      | republish_fail | overtake_ok | overtake_fail | release_ok | release_fail | confirm_ok
      | confirm_fail => exact absurd hsettled List.not_mem_nil
  · refine Or.inr ?_
    match pt', hcarries' with
    | .fn payload lock, hpayload => exact List.mem_singleton.mp hstarted ▸ hcall payload hpayload
    | .get, _ | .reject _, _ | .acquire _, _ | .mark _ _, _ | .republish _ _ _, _ | .release _ _, _
    | .confirm _ _, _ | .done _, _ => exact absurd hstarted List.not_mem_nil

theorem Traced.perform (hwn : WellNamed D.subscriptions) (h : Traced D sent s)
    {call : ConsumerCall} {outcome : Outcome} {r : Except JsError call.Reply} {pt' : Point}
    (hi : s.copies[i]? = some ⟨l, .unacked d⟩)
    (hstep : Point.Step (D.context l d) d.code call r pt')
    (hsettled : D.settled s call outcome = some (s₁, r)) :
    Traced D sent (D.resume pointMachine s₁ i l d call r pt') := by
  obtain ⟨-, hpub, hlog, letters, hcopies, hletters⟩ := Deployment.settled_frame hsettled
  refine h.move hi (Deployment.copies_resume hi hcopies) hpub fun e he hc => ?_
  obtain ⟨hsub, hevent, hqueue, hcarries⟩ := hc.running d rfl
  have hstems : Stems D e l := hc.stems
  have hparse : parseEvent D.z d.subscription.event l.message.content = .ok e.payload := by
    rw [hevent, hstems.content]
    exact h.valid e he
  have hcarries' := hcarries.step hstep hparse
  refine ⟨⟨hstems.stays rfl rfl, fun d' hd' => ?_⟩, fun x hx => ?_,
    called_of_resume hstep hstems hsub hevent hcarries hcarries' hlog⟩
  · cases hd'
    exact ⟨hsub, hevent, hqueue, hcarries'⟩
  · rcases hletters with hnil | ⟨p, rfl, rfl⟩
    · exact absurd (hnil ▸ hx) List.not_mem_nil
    · exact stems_republished hwn hstems hsub hevent hstep hcarries hx

/-- What a publication adds. -/
theorem Traced.publish (hwn : WellNamed D.subscriptions) (h : Traced D sent s) {event : String}
    {raw : Json} {messageId : String} {requestId : Option String}
    (hstep : D.publish s event raw messageId requestId = some s') :
    Traced D (sent ++ D.sends (.publish event raw messageId requestId)) s' := by
  obtain ⟨payload, hparse, rfl⟩ := Deployment.publish_cases hstep
  have hsends : D.sends (.publish event raw messageId requestId) =
      [⟨⟨messageId, event, payload⟩, requestId⟩] := by
    simp only [Deployment.sends, hparse]
  rw [hsends]
  refine ⟨fun e he => ?_, ?_, fun c hc => ?_, fun entry hentry => ?_⟩
  · rcases List.mem_append.mp he with hold | hnew
    · exact h.valid e hold
    · rw [List.mem_singleton.mp hnew]
      exact parseEvent_toJson hparse
  · rw [List.map_append, h.published]
    rfl
  · rcases List.mem_append.mp hc with hold | hnew
    · obtain ⟨e, he, hconveys⟩ := h.copies c hold
      exact ⟨e, List.mem_append_left _ he, hconveys⟩
    · obtain ⟨x, hx, rfl⟩ := List.mem_map.mp hnew
      exact ⟨_, List.mem_append_right _ List.mem_cons_self,
        .ready (stems_sent (e := ⟨⟨messageId, event, payload⟩, requestId⟩) hwn hx)⟩
  · obtain ⟨e, he, hcalled⟩ := h.log entry hentry
    exact ⟨e, List.mem_append_left _ he, hcalled⟩

theorem Traced.withStrays (h : Traced D sent s) (strays : List Stray) :
    Traced D sent { s with strays := strays } := ⟨h.valid, h.published, h.copies, h.log⟩

/-- What nobody awaits any more would put copies of a publication into the queues. -/
def StraysStem (D : Deployment) (sent : List Sent) (s : MessagingState Point) : Prop :=
  ∀ x ∈ s.strays, ∃ e ∈ sent, ∀ y ∈ D.routed x.publication, Stems D e y

theorem StraysStem.step (hwn : WellNamed D.subscriptions) (htraced : Traced D sent s)
    (h : StraysStem D sent s) {a : Action} (hstep : D.step pointMachine s a = some s') :
    StraysStem D (sent ++ D.sends a) s' := by
  intro x hx
  rcases Deployment.strays_of_step hstep hx with hold | ⟨l, d, hi, pt, hpublish⟩
  · obtain ⟨e, he, hstems⟩ := h x hold
    exact ⟨e, List.mem_append_left _ he, hstems⟩
  · obtain ⟨e, he, hc⟩ := htraced.copies _ (List.mem_of_getElem? hi)
    obtain ⟨hsub, hevent, -, hcarries⟩ := hc.running d rfl
    have hstems : Stems D e l := hc.stems
    exact ⟨e, List.mem_append_left _ he,
      fun y hy => stems_republished hwn hstems hsub hevent hpublish hcarries hy⟩

theorem Traced.stray (h : Traced D sent s) (hstrays : StraysStem D sent s) {j : ℕ}
    {arrives : Bool} (hstep : D.stray s j arrives = some s') : Traced D sent s' := by
  obtain ⟨x, letters, hx, hletters, rfl⟩ := Deployment.stray_cases hstep
  apply Traced.withStrays
  refine ⟨h.valid, h.published, fun c hc => ?_, h.log⟩
  rcases List.mem_append.mp hc with hold | hnew
  · exact h.copies c hold
  · obtain ⟨y, hy, rfl⟩ := List.mem_map.mp hnew
    rcases hletters with rfl | rfl
    · exact absurd hy List.not_mem_nil
    · obtain ⟨e, he, hstems⟩ := hstrays x (List.mem_of_getElem? hx)
      exact ⟨e, he, .ready (hstems y hy)⟩

theorem Traced.step (hwn : WellNamed D.subscriptions)
    (hevents : ∀ S ∈ D.subscriptions, HasContract S.event) (h : Traced D sent s)
    (hstrays : StraysStem D sent s) {a : Action}
    (hstep : D.step pointMachine s a = some s') : Traced D (sent ++ D.sends a) s' := by
  have hquiet : D.sends a = [] → Traced D sent s' → Traced D (sent ++ D.sends a) s' := by
    intro hnil hs'
    rw [hnil, List.append_nil]
    exact hs'
  match a with
  | .publish event raw messageId requestId => exact h.publish hwn hstep
  | .deliver i sub now =>
    obtain ⟨l, hi, hsub, hqueue, rfl⟩ := Deployment.deliver_cases hstep
    refine hquiet rfl (h.place hi _ fun e he hc => ⟨hc.stems, fun d hd => ?_⟩)
    cases hd
    refine ⟨hsub, ?_, hqueue, ?_⟩
    · -- a work queue of another subscription has another name
      rcases hc.stems.located with hunrouted | ⟨S, hS, hevent, hwork | ⟨tier, -, hretry⟩ | hdlq⟩
      · refine absurd (hunrouted.symm.trans hqueue) (unroutedQueueName_ne_workQueueName ?_)
        rcases hevents sub hsub with hname | hname <;> (rw [hname]; decide)
      · have htitle := workQueueName_eq_iff.mp (hqueue.symm.trans hwork)
        rw [hwn.distinct hS sub hsub htitle, hevent]
      · exact absurd (hqueue.symm.trans hretry) workQueueName_ne_retryQueueName
      · exact absurd (hqueue.symm.trans hdlq) workQueueName_ne_dlqName
    · unfold Context.start
      split <;> trivial
  | .perform .. | .overtake .. =>
    obtain ⟨l, d, call, r, pt, s₁, left, hi, hmove, hsettled, rfl, -⟩ :=
      Deployment.call_cases rfl hstep
    exact hquiet rfl ((h.perform hwn hi hmove hsettled).withStrays _)
  | .settle i =>
    obtain ⟨l, d, result, hi, -, ⟨-, rfl⟩ | ⟨-, rfl⟩ | ⟨-, rfl⟩⟩ := Deployment.settle_cases hstep
    · exact hquiet rfl (h.place hi .gone fun e _ hc => .gone hc.stems)
    · refine hquiet rfl (h.deadLetter hwn hevents hi rfl rfl fun e _ hc => ?_)
      obtain ⟨hsub, hevent, hwork, -⟩ := hc.running d rfl
      exact ⟨d.subscription, hsub, hevent, Or.inl hwork⟩
    · exact hquiet rfl (h.requeue hwn hevents hi rfl rfl)
  | .crash i =>
    obtain ⟨l, d, left, hi, rfl, -⟩ := Deployment.crash_cases hstep
    refine hquiet rfl (Traced.withStrays ?_ _)
    exact h.requeue hwn hevents hi rfl rfl
  | .stray j arrives => exact hquiet rfl (h.stray hstrays hstep)
  | .expire i =>
    obtain ⟨l, hi, httl, rfl⟩ := Deployment.expire_cases hstep
    refine hquiet rfl (h.deadLetter hwn hevents hi rfl rfl fun e _ hc => ?_)
    exact expires_from hwn hc.stems.located httl
  | .tick ms =>
    cases hstep
    exact hquiet rfl ⟨h.valid, h.published, h.copies, h.log⟩

end Steps

/-! ## Runs of the system -/

section Runs

variable {D : Deployment}

/-- The system with a record of what has been sent. -/
def Deployment.sending {P : Type} (D : Deployment) (M : Machine P) :
    MessagingState P × List Sent → Action → Option (MessagingState P × List Sent) :=
  recording (D.step M) fun _ => D.sends

theorem Traced.init : Traced D [] (.init Point) where
  valid _ he := absurd he List.not_mem_nil
  published := rfl
  copies _ hc := absurd hc List.not_mem_nil
  log _ hentry := absurd hentry List.not_mem_nil

theorem traced_of_reaches (hwn : WellNamed D.subscriptions)
    (hevents : ∀ S ∈ D.subscriptions, HasContract S.event)
    {ok : MessagingState Point × List Sent → Action → Prop} {q : MessagingState Point × List Sent}
    (h : Reaches (D.sending pointMachine) ok (.init Point, []) q) : Traced D q.2 q.1 := by
  refine (@Reaches.invariant _ _ _ _ _ _ (fun u => Traced D u.2 u.1 ∧ StraysStem D u.2 u.1) h
    ⟨Traced.init, fun x hx => absurd hx List.not_mem_nil⟩
    fun u a v ⟨htraced, hstrays⟩ _ hstep => ?_).1
  obtain ⟨hmove, hsent⟩ := Transition.recording_eq_some hstep
  rw [hsent]
  exact ⟨htraced.step hwn hevents hstrays hmove, hstrays.step hwn htraced hmove⟩

theorem sending_toCode (q : MessagingState Point × List Sent) (a : Action) :
    D.sending codeMachine (Prod.map (MessagingState.toCode D) id q) a =
      (D.sending pointMachine q a).map (Prod.map (MessagingState.toCode D) id) := by
  unfold Deployment.sending recording
  simp only [Prod.map_fst, Prod.map_snd, id, Deployment.step_toCode, Option.map_map]
  rfl

theorem traced_of_reaches_code (hwn : WellNamed D.subscriptions)
    (hevents : ∀ S ∈ D.subscriptions, HasContract S.event)
    {ok : MessagingState Code × List Sent → Action → Prop} {t : MessagingState Code × List Sent}
    (h : Reaches (D.sending codeMachine) ok (.init Code, []) t) :
    ∃ s, Traced D t.2 s ∧ s.toCode D = t.1 := by
  change Reaches _ _ (Prod.map (MessagingState.toCode D) id (.init Point, [])) t at h
  obtain ⟨q, hq, rfl⟩ := h.lift sending_toCode
  exact ⟨q.1, traced_of_reaches hwn hevents hq, rfl⟩

/-- In every run, each copy on the broker stems from a publication, whatever it has been through,
and each call of a handler, under way or over, is made for one. -/
theorem copies_stem (hwn : WellNamed D.subscriptions)
    (hevents : ∀ S ∈ D.subscriptions, HasContract S.event)
    {t : MessagingState Code × List Sent}
    (h : Reaches (D.sending codeMachine) (fun _ _ => True) (.init Code, []) t) :
    (∀ c ∈ t.1.copies, ∃ e ∈ t.2, Stems D e c.toLetter) ∧
      (∀ entry ∈ t.1.log, ∃ e ∈ t.2, Called D e entry.call) ∧
      t.2.map Sent.toPublished = t.1.published := by
  obtain ⟨s, htraced, hcode⟩ := traced_of_reaches_code hwn hevents h
  rw [← hcode]
  refine ⟨fun c hc => ?_, htraced.log, htraced.published⟩
  obtain ⟨c', hc', rfl⟩ := List.mem_map.mp hc
  obtain ⟨e, he, hconveys⟩ := htraced.copies c' hc'
  exact ⟨e, he, hconveys.stems⟩

end Runs

/-- A message that was published in a request fails at its handler and waits for its retry. -/
def failedOnce : List Action :=
  [.publish "notification.created" (createdNotification "m1").payload.toJson "m1" (some "req-1"),
    .deliver 0 notifications "2026-06-06T00:00:00Z"] ++ resolving 0 2 ++
    [.perform 0 (.rejects (.error "boom") false)] ++ resolving 0 2 ++ [.settle 0]

theorem copies_stem_failedOnce :
    ∃ t, Reaches ((defaultDeployment SUBSCRIPTIONS).sending codeMachine) (fun _ _ => True)
        (.init Code, []) t ∧
      ∃ c ∈ t.1.copies, c.queue = "notifications.notification.created.retry.0" ∧
        ∃ e ∈ t.2, Stems (defaultDeployment SUBSCRIPTIONS) e c.toLetter := by
  have hrun : (Transition.run ((defaultDeployment SUBSCRIPTIONS).sending codeMachine)
      (fun _ _ => True) (.init Code, []) failedOnce).map (fun t => t.1.copies.any fun c =>
        decide (c.queue = "notifications.notification.created.retry.0")) = some true := by
    decide +kernel
  obtain ⟨t, ht, htest⟩ := Transition.exists_reaches_of_run hrun
  obtain ⟨c, hc, hqueue⟩ := List.any_eq_true.mp htest
  exact ⟨t, ht, c, hc, of_decide_eq_true hqueue,
    (copies_stem (by decide) (by decide) ht).1 c hc⟩

end NestFastify.Messaging
