import NestFastify.Messaging.Constants
import NestFastify.Messaging.Contracts

/-!
# The broker topology

`buildExchanges` and `buildQueues` (topology.ts), and where a message goes on it: from
the events exchange to the work queues of an event, from the retry exchange to one retry
tier, from the dead-letter exchange to the DLQs of an event.
-/

namespace NestFastify.Messaging

open Amqp

def buildExchanges (ex : Exchanges) : List ExchangeConfig :=
  [{ name := ex.events, type := .topic, durable := true, alternateExchange := some ex.unrouted },
   { name := ex.retry, type := .topic, durable := true, alternateExchange := none },
   { name := ex.dlx, type := .topic, durable := true, alternateExchange := none },
   { name := ex.unrouted, type := .fanout, durable := true, alternateExchange := none }]

section Queues

variable (ex : Exchanges)

/-- The queue that catches what no binding takes. -/
def unroutedQueue (base : String) : QueueConfig where
  name := unroutedQueueName base
  exchange := ex.unrouted
  routingKey := ""
  createQueueIfNotExists := true
  durable := true
  arguments :=
    { queueType := some "quorum", messageTtl := none, deadLetterExchange := none,
      deadLetterRoutingKey := none, deliveryLimit := none }

def workQueue (deliveryLimit : ℕ) (sub : Subscription) : QueueConfig where
  name := workQueueName sub.subscriber sub.event
  exchange := ex.events
  routingKey := sub.event
  createQueueIfNotExists := true
  durable := true
  arguments :=
    -- the delivery limit ends a crash loop
    { queueType := some "quorum", messageTtl := none, deadLetterExchange := some ex.dlx,
      deadLetterRoutingKey := some sub.event, deliveryLimit := some deliveryLimit }

/-- Retry tier `i`: after `ttl` ms the message is dead-lettered to the events exchange. -/
def retryQueue (sub : Subscription) (ttl i : ℕ) : QueueConfig where
  name := retryQueueName sub.subscriber sub.event i
  exchange := ex.retry
  routingKey := retryRoutingKey sub.subscriber sub.event i
  createQueueIfNotExists := true
  durable := true
  arguments :=
    -- the TTL is that of the queue: one queue for each delay
    { queueType := none, messageTtl := some ttl, deadLetterExchange := some ex.events,
      deadLetterRoutingKey := some sub.event, deliveryLimit := none }

def dlq (sub : Subscription) : QueueConfig where
  name := dlqName sub.subscriber sub.event
  exchange := ex.dlx
  routingKey := sub.event
  createQueueIfNotExists := true
  durable := true
  arguments :=
    { queueType := some "quorum", messageTtl := none, deadLetterExchange := none,
      deadLetterRoutingKey := none, deliveryLimit := none }

/-- The queues of one subscription, in the order they are pushed. -/
def subscriptionQueues (retryDelaysMs : List ℕ) (deliveryLimit : ℕ) (sub : Subscription) :
    List QueueConfig :=
  workQueue ex deliveryLimit sub ::
    retryDelaysMs.zipIdx.map (fun (ttl, i) => retryQueue ex sub ttl i) ++ [dlq ex sub]

def buildQueues (base : String) (subscriptions : List Subscription) (retryDelaysMs : List ℕ)
    (deliveryLimit : ℕ) : List QueueConfig :=
  unroutedQueue ex base ::
    subscriptions.flatMap (subscriptionQueues ex retryDelaysMs deliveryLimit)

end Queues

/-- What `MessagingModule.forRoot` declares at the broker. -/
def buildTopology (base : String) (subscriptions : List Subscription) (retryDelaysMs : List ℕ)
    (deliveryLimit : ℕ) : Topology where
  exchanges := buildExchanges (exchangeNames base)
  queues := buildQueues (exchangeNames base) base subscriptions retryDelaysMs deliveryLimit

/-- Subscriber names without a dot, and no wildcard in any name. -/
def WellNamed (subscriptions : List Subscription) : Prop :=
  ∀ sub ∈ subscriptions,
    '.' ∉ sub.subscriber.toList ∧ Literal sub.subscriber ∧ Literal sub.event

instance (subscriptions : List Subscription) : Decidable (WellNamed subscriptions) :=
  inferInstanceAs (Decidable (∀ _ ∈ _, _))

/-! ## Finding exchanges and queues -/

section Lookup

variable {base : String} {subs : List Subscription} {delays : List ℕ} {limit : ℕ}

theorem mem_buildQueues {q : QueueConfig} {ex : Exchanges} :
    q ∈ buildQueues ex base subs delays limit ↔
      q = unroutedQueue ex base ∨ ∃ sub ∈ subs, q = workQueue ex limit sub ∨
        (∃ ttl i, delays[i]? = some ttl ∧ q = retryQueue ex sub ttl i) ∨ q = dlq ex sub := by
  simp only [buildQueues, subscriptionQueues, List.mem_cons, List.mem_flatMap,
    List.mem_append, List.mem_map, List.mem_zipIdx_iff_getElem?,
    Prod.exists, List.not_mem_nil, or_false, or_assoc]
  grind

/-- The exchange `name` of the topology, when it has no alternate exchange. -/
def plainTopic (name : String) : ExchangeConfig :=
  { name := name, type := .topic, durable := true, alternateExchange := none }

def eventsExchange (base : String) : ExchangeConfig :=
  { name := (exchangeNames base).events, type := .topic, durable := true,
    alternateExchange := some (exchangeNames base).unrouted }

theorem find_events : (buildExchanges (exchangeNames base)).find?
    (·.name = (exchangeNames base).events) = some (eventsExchange base) := by
  simp [buildExchanges, eventsExchange]

theorem find_retry : (buildExchanges (exchangeNames base)).find?
    (·.name = (exchangeNames base).retry) = some (plainTopic (exchangeNames base).retry) := by
  simp [buildExchanges, exchangeNames, plainTopic]

theorem find_dlx : (buildExchanges (exchangeNames base)).find?
    (·.name = (exchangeNames base).dlx) = some (plainTopic (exchangeNames base).dlx) := by
  simp [buildExchanges, exchangeNames, plainTopic]

end Lookup

/-! ## Where a message goes -/

section Routes

variable {base : String} {subs : List Subscription} {delays : List ℕ} {limit : ℕ}
  {key name : String}

theorem mem_bound_events :
    name ∈ (buildTopology base subs delays limit).bound (eventsExchange base) key ↔
      ∃ sub ∈ subs, topicMatches sub.event key = true ∧
        workQueueName sub.subscriber sub.event = name := by
  rw [Topology.mem_bound]
  constructor
  · rintro ⟨q, hq, hbinds, rfl⟩
    rcases mem_buildQueues.mp hq with rfl | ⟨sub, hsub, rfl | ⟨ttl, i, -, rfl⟩ | rfl⟩
    · simp [Topology.binds, unroutedQueue, eventsExchange, exchangeNames] at hbinds
    · exact ⟨sub, hsub, by simpa [Topology.binds, workQueue, eventsExchange] using hbinds, rfl⟩
    · simp [Topology.binds, retryQueue, eventsExchange, exchangeNames] at hbinds
    · simp [Topology.binds, dlq, eventsExchange, exchangeNames] at hbinds
  · rintro ⟨sub, hsub, hmatch, rfl⟩
    exact ⟨workQueue _ limit sub, mem_buildQueues.mpr (.inr ⟨sub, hsub, .inl rfl⟩),
      by simpa [Topology.binds, workQueue, eventsExchange] using hmatch, rfl⟩

theorem mem_bound_retry : name ∈ (buildTopology base subs delays limit).bound
      (plainTopic (exchangeNames base).retry) key ↔
    ∃ sub ∈ subs, ∃ i < delays.length,
      topicMatches (retryRoutingKey sub.subscriber sub.event i) key = true ∧
        retryQueueName sub.subscriber sub.event i = name := by
  rw [Topology.mem_bound]
  constructor
  · rintro ⟨q, hq, hbinds, rfl⟩
    rcases mem_buildQueues.mp hq with rfl | ⟨sub, hsub, rfl | ⟨ttl, i, hi, rfl⟩ | rfl⟩
    · simp [Topology.binds, unroutedQueue, plainTopic, exchangeNames] at hbinds
    · simp [Topology.binds, workQueue, plainTopic, exchangeNames] at hbinds
    · obtain ⟨hlt, -⟩ := List.getElem?_eq_some_iff.mp hi
      exact ⟨sub, hsub, i, hlt, by simpa [Topology.binds, retryQueue, plainTopic] using hbinds,
        rfl⟩
    · simp [Topology.binds, dlq, plainTopic, exchangeNames] at hbinds
  · rintro ⟨sub, hsub, i, hi, hmatch, rfl⟩
    exact ⟨retryQueue _ sub delays[i] i, mem_buildQueues.mpr
      (.inr ⟨sub, hsub, .inr (.inl ⟨delays[i], i, List.getElem?_eq_getElem hi, rfl⟩)⟩),
      by simpa [Topology.binds, retryQueue, plainTopic] using hmatch, rfl⟩

theorem mem_bound_dlx : name ∈ (buildTopology base subs delays limit).bound
      (plainTopic (exchangeNames base).dlx) key ↔
    ∃ sub ∈ subs, topicMatches sub.event key = true ∧
      dlqName sub.subscriber sub.event = name := by
  rw [Topology.mem_bound]
  constructor
  · rintro ⟨q, hq, hbinds, rfl⟩
    rcases mem_buildQueues.mp hq with rfl | ⟨sub, hsub, rfl | ⟨ttl, i, -, rfl⟩ | rfl⟩
    · simp [Topology.binds, unroutedQueue, plainTopic, exchangeNames] at hbinds
    · simp [Topology.binds, workQueue, plainTopic, exchangeNames] at hbinds
    · simp [Topology.binds, retryQueue, plainTopic, exchangeNames] at hbinds
    · exact ⟨sub, hsub, by simpa [Topology.binds, dlq, plainTopic] using hbinds, rfl⟩
  · rintro ⟨sub, hsub, hmatch, rfl⟩
    exact ⟨dlq _ sub, mem_buildQueues.mpr (.inr ⟨sub, hsub, .inr (.inr rfl)⟩),
      by simpa [Topology.binds, dlq, plainTopic] using hmatch, rfl⟩

/-- What no binding of the events exchange takes is caught by the unrouted queue. -/
theorem route_events_of_unbound
    (h : (buildTopology base subs delays limit).bound (eventsExchange base) key = []) :
    (buildTopology base subs delays limit).route (exchangeNames base).events key =
      [unroutedQueueName base] := by
  have hbound : (buildTopology base subs delays limit).bound
      ⟨(exchangeNames base).unrouted, .fanout, true, none⟩ key = [unroutedQueueName base] := by
    have hqueues : (buildTopology base subs delays limit).queues.filter
        (Topology.binds ⟨(exchangeNames base).unrouted, .fanout, true, none⟩ key) =
          [unroutedQueue (exchangeNames base) base] := by
      show (unroutedQueue _ base :: subs.flatMap _).filter _ = _
      rw [List.filter_cons_of_pos (by simp [Topology.binds, unroutedQueue])]
      refine congrArg _ (List.filter_eq_nil_iff.mpr fun q hq => ?_)
      obtain ⟨sub, -, hq⟩ := List.mem_flatMap.mp hq
      have hexchange : q.exchange ≠ (exchangeNames base).unrouted := by
        simp only [subscriptionQueues, List.mem_append, List.mem_cons, List.mem_map,
          List.not_mem_nil, or_false] at hq
        rcases hq with (rfl | ⟨x, -, rfl⟩) | rfl
        · simp [workQueue, exchangeNames]
        · simp [retryQueue, exchangeNames]
        · simp [dlq, exchangeNames]
      simp [Topology.binds, hexchange]
    rw [Topology.bound, hqueues]
    rfl
  have hunrouted : (buildExchanges (exchangeNames base)).find?
      (·.name = (exchangeNames base).unrouted) =
        some ⟨(exchangeNames base).unrouted, .fanout, true, none⟩ := by
    simp [buildExchanges, exchangeNames]
  have hevents : (buildTopology base subs delays limit).exchanges.find?
      (·.name = (exchangeNames base).events) = some (eventsExchange base) := find_events
  have hlength : (buildTopology base subs delays limit).exchanges.length = 4 := rfl
  rw [Topology.route, hlength, Topology.routeVia, hevents]
  dsimp only
  rw [h]
  show Topology.routeVia _ key 3 (exchangeNames base).unrouted = _
  rw [Topology.routeVia, show (buildTopology base subs delays limit).exchanges.find?
    (·.name = (exchangeNames base).unrouted) = _ from hunrouted]
  dsimp only
  rw [hbound]

/-- An event somebody subscribes to enters the work queues whose pattern takes it. -/
theorem mem_route_events {sub : Subscription} (hsub : sub ∈ subs) :
    name ∈ (buildTopology base subs delays limit).route (exchangeNames base).events sub.event ↔
      ∃ sub' ∈ subs, topicMatches sub'.event sub.event = true ∧
        workQueueName sub'.subscriber sub'.event = name := by
  rw [Topology.route_eq_bound find_events, mem_bound_events]
  refine Or.inr (List.ne_nil_of_mem (a := workQueueName sub.subscriber sub.event) ?_)
  exact mem_bound_events.mpr ⟨sub, hsub, topicMatches_self _, rfl⟩

theorem mem_route_retry :
    name ∈ (buildTopology base subs delays limit).route (exchangeNames base).retry key ↔
      ∃ sub ∈ subs, ∃ i < delays.length,
        topicMatches (retryRoutingKey sub.subscriber sub.event i) key = true ∧
          retryQueueName sub.subscriber sub.event i = name := by
  rw [Topology.route_eq_bound find_retry (.inl rfl), mem_bound_retry]

theorem mem_route_dlx :
    name ∈ (buildTopology base subs delays limit).route (exchangeNames base).dlx key ↔
      ∃ sub ∈ subs, topicMatches sub.event key = true ∧
        dlqName sub.subscriber sub.event = name := by
  rw [Topology.route_eq_bound find_dlx (.inl rfl), mem_bound_dlx]

end Routes

/-! ## Finding queues by their names -/

/-- No other subscription of the list has the same name, `subscriber.event`. -/
def Distinct (subscriptions : List Subscription) (sub : Subscription) : Prop :=
  ∀ sub' ∈ subscriptions,
    sub'.subscriber ++ "." ++ sub'.event = sub.subscriber ++ "." ++ sub.event → sub' = sub

section Names

variable {base : String} {subs : List Subscription} {delays : List ℕ} {limit : ℕ}
  {sub : Subscription} {key : String} (hdistinct : Distinct subs sub) (hsub : sub ∈ subs)
include hdistinct hsub

/-- The declaration found under the name of a work queue. -/
theorem queue?_workQueueName
    (hne : unroutedQueueName base ≠ workQueueName sub.subscriber sub.event) :
    (buildTopology base subs delays limit).queue? (workQueueName sub.subscriber sub.event) =
      some (workQueue (exchangeNames base) limit sub) := by
  have hmem : workQueue (exchangeNames base) limit sub ∈
      (buildTopology base subs delays limit).queues :=
    mem_buildQueues.mpr (.inr ⟨sub, hsub, .inl rfl⟩)
  apply Topology.queue?_eq_some hmem
  intro q' hq' hname
  rcases mem_buildQueues.mp hq' with rfl | ⟨sub', hsub', rfl | ⟨ttl, i, -, rfl⟩ | rfl⟩
  · exact absurd hname hne
  · rw [hdistinct sub' hsub' (workQueueName_eq_iff.mp hname)]
  · exact absurd hname.symm workQueueName_ne_retryQueueName
  · exact absurd hname.symm workQueueName_ne_dlqName

theorem queue?_retryQueueName {i : ℕ} (hi : i < delays.length) :
    (buildTopology base subs delays limit).queue?
        (retryQueueName sub.subscriber sub.event i) =
      some (retryQueue (exchangeNames base) sub delays[i] i) := by
  have hmem : retryQueue (exchangeNames base) sub delays[i] i ∈
      (buildTopology base subs delays limit).queues :=
    mem_buildQueues.mpr (.inr ⟨sub, hsub, .inr (.inl
      ⟨delays[i], i, List.getElem?_eq_getElem hi, rfl⟩)⟩)
  apply Topology.queue?_eq_some hmem
  intro q' hq' hname
  rcases mem_buildQueues.mp hq' with rfl | ⟨sub', hsub', rfl | ⟨ttl, j, hj, rfl⟩ | rfl⟩
  · exact absurd hname unroutedQueueName_ne_retryQueueName
  · exact absurd hname workQueueName_ne_retryQueueName
  · obtain ⟨htitle, rfl⟩ := retryQueueName_eq_iff.mp hname
    rw [List.getElem?_eq_getElem hi] at hj
    cases hj
    rw [hdistinct sub' hsub' htitle]
  · exact absurd hname dlqName_ne_retryQueueName

theorem queue?_dlqName :
    (buildTopology base subs delays limit).queue? (dlqName sub.subscriber sub.event) =
      some (dlq (exchangeNames base) sub) := by
  have hmem : dlq (exchangeNames base) sub ∈ (buildTopology base subs delays limit).queues :=
    mem_buildQueues.mpr (.inr ⟨sub, hsub, .inr (.inr rfl)⟩)
  apply Topology.queue?_eq_some hmem
  intro q' hq' hname
  rcases mem_buildQueues.mp hq' with rfl | ⟨sub', hsub', rfl | ⟨ttl, i, -, rfl⟩ | rfl⟩
  · exact absurd hname unroutedQueueName_ne_dlqName
  · exact absurd hname workQueueName_ne_dlqName
  · exact absurd hname.symm dlqName_ne_retryQueueName
  · rw [hdistinct sub' hsub' (dlqName_eq_iff.mp hname)]

/-- After its TTL a message of a retry tier goes where a fresh one of the event goes. -/
theorem deadLetterRoute_retryQueueName {i : ℕ} (hi : i < delays.length) :
    (buildTopology base subs delays limit).deadLetterRoute
        (retryQueueName sub.subscriber sub.event i) key =
      (buildTopology base subs delays limit).route (exchangeNames base).events sub.event := by
  rw [Topology.deadLetterRoute, queue?_retryQueueName hdistinct hsub hi]
  rfl

/-- Past its delivery limit a message of a work queue goes to the dead-letter exchange. -/
theorem deadLetterRoute_workQueueName
    (hne : unroutedQueueName base ≠ workQueueName sub.subscriber sub.event) :
    (buildTopology base subs delays limit).deadLetterRoute
        (workQueueName sub.subscriber sub.event) key =
      (buildTopology base subs delays limit).route (exchangeNames base).dlx sub.event := by
  rw [Topology.deadLetterRoute, queue?_workQueueName hdistinct hsub hne]
  rfl

end Names

/-! ## Well-named subscriptions

Without wildcards every binding pattern takes only its own key, and without dots in the
subscriber names the names of the queues determine the subscription. -/

section WellNamed

variable {base : String} {subs : List Subscription} {delays : List ℕ} {limit : ℕ}
  {sub : Subscription} {name key : String}

theorem literal_retryRoutingKey {s e : String} {i : ℕ} (hs : Literal s) (he : Literal e) :
    Literal (retryRoutingKey s e i) := by
  have hstar : '*' ∉ i.repr.toList := notMem_repr (by decide) i
  have hhash : '#' ∉ i.repr.toList := notMem_repr (by decide) i
  obtain ⟨hs1, hs2⟩ := hs
  obtain ⟨he1, he2⟩ := he
  constructor
  · simpa [retryRoutingKey, hs1, he1] using hstar
  · simpa [retryRoutingKey, hs2, he2] using hhash

variable (hwn : WellNamed subs)
include hwn

theorem WellNamed.distinct (hsub : sub ∈ subs) : Distinct subs sub := by
  intro sub' hsub' htitle
  obtain ⟨hs, he⟩ := (append_dot_inj (hwn sub' hsub').1 (hwn sub hsub).1).mp htitle
  cases sub
  cases sub'
  simp_all

/-- A dead-lettered event enters the DLQ of every subscriber of the event. -/
theorem mem_route_dlx_iff :
    name ∈ (buildTopology base subs delays limit).route (exchangeNames base).dlx sub.event ↔
      ∃ sub' ∈ subs, sub'.event = sub.event ∧ dlqName sub'.subscriber sub'.event = name := by
  rw [mem_route_dlx]
  refine exists_congr fun sub' => and_congr_right fun hsub' => ?_
  rw [topicMatches_literal (hwn sub' hsub').2.2]

variable (hsub : sub ∈ subs)
include hsub

/-- A published event enters the work queue of every subscriber of the event. -/
theorem mem_route_events_iff :
    name ∈ (buildTopology base subs delays limit).route (exchangeNames base).events sub.event ↔
      ∃ sub' ∈ subs, sub'.event = sub.event ∧
        workQueueName sub'.subscriber sub'.event = name := by
  rw [mem_route_events hsub]
  refine exists_congr fun sub' => and_congr_right fun hsub' => ?_
  rw [topicMatches_literal (hwn sub' hsub').2.2]

/-- A retry key enters the retry queue of its own subscriber, event and tier, if that tier
is declared, and no other queue. -/
theorem mem_route_retry_iff (i : ℕ) :
    name ∈ (buildTopology base subs delays limit).route (exchangeNames base).retry
        (retryRoutingKey sub.subscriber sub.event i) ↔
      i < delays.length ∧ retryQueueName sub.subscriber sub.event i = name := by
  rw [mem_route_retry]
  constructor
  · intro h
    obtain ⟨sub', hsub', j, hj, hmatch, hname⟩ := h
    have hlit := literal_retryRoutingKey (i := j) (hwn sub' hsub').2.1 (hwn sub' hsub').2.2
    have hkey := (topicMatches_literal hlit).mp hmatch
    obtain ⟨hs, he, hij⟩ := (retryRoutingKey_inj (hwn sub' hsub').1 (hwn sub hsub).1).mp hkey
    rw [hs, he, hij] at hname
    exact ⟨hij ▸ hj, hname⟩
  · intro h
    exact ⟨sub, hsub, i, h.1, topicMatches_self _, h.2⟩

end WellNamed

end NestFastify.Messaging
