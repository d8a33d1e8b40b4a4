import NestFastify.Messaging.Consume

/-!
# The path of a failed message

Where a copy goes that a consumer publishes after a failure, following the bindings and the
dead-letter arguments of the topology: through a retry tier back to a work queue, or to the
dead-letter exchange. The copies stay with their own subscriber exactly when it is the only
one of the event.
-/

namespace NestFastify.Messaging

open Amqp

/-- The queues a publication is in after the queues it was routed to have let it expire. -/
def reentered (t : Topology) (p : Publication) : List String :=
  (t.route p.exchange p.routingKey).flatMap fun queue => t.deadLetterRoute queue p.routingKey

/-- A delivery that fails: its payload and content, its message, the error, the reason and
the instant noted when it is given up. -/
structure Failure where
  payload : EventPayload
  raw : Json
  msg : ConsumeMessage
  err : JsError
  reason : String
  now : String

section Isolation

variable {base : String} {subs : List Subscription} {delays : List ℕ} {limit maxRetries ttl : ℕ}
  {sub : Subscription} {f : Failure}

/-- The consumer of a deployment with this base name. -/
def consumerOf (base : String) (maxRetries ttl : ℕ) : MessageConsumer :=
  ⟨exchangeNames base, maxRetries, ttl⟩

def Failure.retryPublication (f : Failure) (consumer : MessageConsumer) (sub : Subscription) :
    Publication :=
  consumer.retryPublication sub.subscriber sub.event f.payload f.msg f.msg.attempt f.err

def Failure.dlqPublication (f : Failure) (consumer : MessageConsumer) (sub : Subscription) :
    Publication := consumer.dlqPublication sub.event f.raw f.msg f.reason f.now

/-- What a failure at `sub` may touch: its own work queue after a retry, when there is one, its own
DLQ otherwise, whether the consumer gives up or the delivery limit is exceeded. -/
structure Isolated (t : Topology) (limit : ℕ) (consumer : MessageConsumer) (sub : Subscription)
    (f : Failure) : Prop where
  retry : f.msg.attempt < consumer.maxRetries → ∀ name,
    name ∈ reentered t (f.retryPublication consumer sub) ↔
      name = workQueueName sub.subscriber sub.event
  dlx : ∀ name, name ∈ t.route (f.dlqPublication consumer sub).exchange
      (f.dlqPublication consumer sub).routingKey ↔ name = dlqName sub.subscriber sub.event
  deliveryLimit : ∀ key name, name ∈ t.deadLetterFrom (workQueue consumer.ex limit sub) key ↔
    name = dlqName sub.subscriber sub.event

variable (hwn : WellNamed subs) (hsub : sub ∈ subs)
include hwn hsub

/-- A retried copy comes back to the work queue of every subscriber of the event, if its
tier is declared, and is dropped otherwise. -/
theorem mem_reentered_iff {name : String} :
    name ∈ reentered (buildTopology base subs delays limit)
      (f.retryPublication (consumerOf base maxRetries ttl) sub) ↔
    (consumerOf base maxRetries ttl).retryTier f.msg.attempt < delays.length ∧
      ∃ sub' ∈ subs, sub'.event = sub.event ∧
        workQueueName sub'.subscriber sub'.event = name := by
  have hroute : ∀ queue, queue ∈ (buildTopology base subs delays limit).route
        (exchangeNames base).retry (retryRoutingKey sub.subscriber sub.event
          ((consumerOf base maxRetries ttl).retryTier f.msg.attempt)) ↔
      (consumerOf base maxRetries ttl).retryTier f.msg.attempt < delays.length ∧
        retryQueueName sub.subscriber sub.event
          ((consumerOf base maxRetries ttl).retryTier f.msg.attempt) = queue :=
    fun queue => mem_route_retry_iff hwn hsub _
  rw [reentered, List.mem_flatMap]
  constructor
  · intro h
    obtain ⟨queue, hqueue, hname⟩ := h
    obtain ⟨htier, rfl⟩ := (hroute queue).mp hqueue
    rw [deadLetterRoute_retryQueueName (hwn.distinct hsub) hsub htier,
      mem_route_events_iff hwn hsub] at hname
    exact ⟨htier, hname⟩
  · intro h
    obtain ⟨htier, hname⟩ := h
    refine ⟨_, (hroute _).mpr ⟨htier, rfl⟩, ?_⟩
    rw [deadLetterRoute_retryQueueName (hwn.distinct hsub) hsub htier, mem_route_events_iff hwn hsub]
    exact hname

/-- The failure of a message stays with its subscriber exactly when no other subscription
has the event and, if the message is retried, the tier of its attempt is declared. -/
theorem isolated_iff :
    Isolated (buildTopology base subs delays limit) limit (consumerOf base maxRetries ttl) sub f ↔
      (∀ sub' ∈ subs, sub'.event = sub.event → sub' = sub) ∧
        (f.msg.attempt < maxRetries → f.msg.attempt < delays.length) := by
  have hsame : f.msg.attempt < maxRetries →
      (consumerOf base maxRetries ttl).retryTier f.msg.attempt = f.msg.attempt :=
    fun hretried => MessageConsumer.retryTier_of_lt hretried
  constructor
  · intro h
    refine ⟨fun sub' hsub' hevent => ?_, fun hretried => ?_⟩
    · -- what goes to the dead-letter exchange enters the DLQs of the same event
      refine hwn.distinct hsub sub' hsub' (dlqName_eq_iff.mp ((h.dlx _).mp ?_))
      exact (mem_route_dlx_iff hwn).mpr ⟨sub', hsub', hevent, rfl⟩
    · -- the retry comes back to the subscriber's own queue
      have hwork := (h.retry hretried (workQueueName sub.subscriber sub.event)).mpr rfl
      have htier := ((mem_reentered_iff hwn hsub).mp hwork).1
      exact hsame hretried ▸ htier
  · intro h
    obtain ⟨honly, htier⟩ := h
    have hdlq : ∀ name, name ∈ (buildTopology base subs delays limit).route
        (exchangeNames base).dlx sub.event ↔ name = dlqName sub.subscriber sub.event := by
      intro name
      rw [mem_route_dlx_iff hwn]
      constructor
      · intro h
        obtain ⟨sub', hsub', hevent, rfl⟩ := h
        rw [honly sub' hsub' hevent]
      · intro h
        exact ⟨sub, hsub, rfl, h.symm⟩
    refine ⟨fun hretried name => ?_, hdlq, fun key name => hdlq name⟩
    rw [mem_reentered_iff hwn hsub, hsame hretried]
    constructor
    · intro h
      obtain ⟨-, sub', hsub', hevent, rfl⟩ := h
      rw [honly sub' hsub' hevent]
    · intro h
      exact ⟨htier hretried, sub, hsub, rfl, h.symm⟩

end Isolation

/-! ## One subscriber or two -/

def mail : Subscription := ⟨"mail", "user.registered"⟩

/-- The first failure of a registration mail. -/
def mailFailure : Failure where
  payload := .userRegistered "7d9e4c1a-0000-4000-8000-000000000000" "a@b.com" none
  raw := .null
  msg := ⟨.null, some "mid-1", ⟨some 0, none, none, none⟩⟩
  err := .error "boom"
  reason := "boom"
  now := "2026-06-06T00:00:00Z"

/-- With the subscriptions of the repository a failure is isolated. -/
theorem isolated_iff_SUBSCRIPTIONS :
    (Isolated (buildTopology "app" SUBSCRIPTIONS [5000, 30000, 300000] 5) 5
        (consumerOf "app" 3 86400) mail mailFailure ↔
      (∀ sub' ∈ SUBSCRIPTIONS, sub'.event = mail.event → sub' = mail) ∧
        (mailFailure.msg.attempt < 3 → mailFailure.msg.attempt < 3)) ∧
    Isolated (buildTopology "app" SUBSCRIPTIONS [5000, 30000, 300000] 5) 5
      (consumerOf "app" 3 86400) mail mailFailure := by
  have hiff : Isolated (buildTopology "app" SUBSCRIPTIONS [5000, 30000, 300000] 5) 5
      (consumerOf "app" 3 86400) mail mailFailure ↔ _ := isolated_iff (by decide) (by decide)
  exact ⟨hiff, hiff.mpr ⟨by decide, id⟩⟩

/-- The list with one more subscriber of the same event. -/
def sharedSubscriptions : List Subscription := [mail, ⟨"analytics", "user.registered"⟩]

/-- A failed registration mail comes back to the other subscriber's work queue, or enters
its DLQ. -/
theorem not_isolated_sharedSubscriptions :
    "analytics.user.registered.q" ∈ reentered (buildTopology "app" sharedSubscriptions [5000] 5)
      (mailFailure.retryPublication (consumerOf "app" 1 86400) mail) ∧
    "analytics.user.registered.dlq" ∈ (buildTopology "app" sharedSubscriptions [5000] 5).route
      (mailFailure.dlqPublication (consumerOf "app" 1 86400) mail).exchange
      (mailFailure.dlqPublication (consumerOf "app" 1 86400) mail).routingKey ∧
    ¬ Isolated (buildTopology "app" sharedSubscriptions [5000] 5) 5 (consumerOf "app" 1 86400)
      mail mailFailure := by
  have hretry : "analytics.user.registered.q" ∈
      reentered (buildTopology "app" sharedSubscriptions [5000] 5)
        (mailFailure.retryPublication (consumerOf "app" 1 86400) mail) := by
    decide +kernel
  have hdlx : "analytics.user.registered.dlq" ∈
      (buildTopology "app" sharedSubscriptions [5000] 5).route
        (mailFailure.dlqPublication (consumerOf "app" 1 86400) mail).exchange
        (mailFailure.dlqPublication (consumerOf "app" 1 86400) mail).routingKey := by
    decide +kernel
  refine ⟨hretry, hdlx, fun h => ?_⟩
  have hname := (h.retry (by decide) "analytics.user.registered.q").mp hretry
  exact absurd hname (by decide)

end NestFastify.Messaging
