import NestFastify.Messaging.Topology

/-!
# Subscriptions with queues of their own

`Apart` collects what keeps the queues of one subscription apart from those of the others.
Under it every route of the subscription's messages leads to exactly one queue: its work
queue, the retry queue of one tier, or its DLQ. Well-named lists whose events have one
subscriber each are apart, and so are lists over the events that have a contract.
-/

namespace NestFastify.Messaging

open Amqp

structure Apart (subs : List Subscription) (S : Subscription) : Prop where
  mem : S ∈ subs
  contract : HasContract S.event
  literal : ∀ sub ∈ subs, Literal sub.event
  sole : ∀ sub ∈ subs, sub.event = S.event → sub = S
  distinct : Distinct subs S
  retryKey : ∀ sub ∈ subs, ∀ i j, topicMatches (retryRoutingKey sub.subscriber sub.event i)
    (retryRoutingKey S.subscriber S.event j) = true → sub = S ∧ i = j

/-! ## Lists that are apart -/

theorem literal_of_hasContract {event : String} (h : HasContract event) : Literal event := by
  rcases h with rfl | rfl
  · decide
  · decide

/-- The last word tells the events apart. -/
theorem event_eq_of_lastSegment {e e' : String} (he : HasContract e) (he' : HasContract e')
    (h : lastSegment e = lastSegment e') : e = e' := by
  rcases he with rfl | rfl <;> rcases he' with rfl | rfl
  · rfl
  · exact absurd h (by decide)
  · exact absurd h (by decide)
  · rfl

/-- An event is a name, a dot and a last word without wildcards. -/
theorem event_split {e : String} (he : HasContract e) :
    ∃ a b, e = a ++ "." ++ b ∧ '.' ∉ b.toList ∧ Literal b ∧ lastSegment e = b.toList := by
  rcases he with rfl | rfl
  · exact ⟨"user", "registered", by decide, by decide, by decide, by decide⟩
  · exact ⟨"notification", "created", by decide, by decide, by decide, by decide⟩

/-- The retry keys of two subscriptions match only for one event and one tier, whatever the
subscribers are called. -/
theorem retryRoutingKey_of_topicMatches {s s' e e' : String} {i j : ℕ} (he : HasContract e)
    (he' : HasContract e')
    (h : topicMatches (retryRoutingKey s e i) (retryRoutingKey s' e' j) = true) :
    i = j ∧ lastSegment e = lastSegment e' := by
  obtain ⟨a, b, rfl, hb, hlit, hlast⟩ := event_split he
  obtain ⟨a', b', rfl, hb', -, hlast'⟩ := event_split he'
  have htier : Literal ("r" ++ i.repr) := by
    constructor
    · simpa using notMem_repr (by decide) i
    · simpa using notMem_repr (by decide) i
  rw [retryRoutingKey_eq, retryRoutingKey_eq] at h
  obtain ⟨hij, hmatch⟩ := splitOn_of_topicMatches notMem_tier notMem_tier htier h
  have hlist : ∀ s a b : String, '.' ∉ b.toList → (s ++ "." ++ (a ++ "." ++ b)).toList.splitOn '.' =
      (s ++ "." ++ a).toList.splitOn '.' ++ [b.toList] := by
    intro s a b hb
    have hjoin : (s ++ "." ++ (a ++ "." ++ b)).toList = (s ++ "." ++ a).toList ++ '.' :: b.toList := by
      simp
    rw [hjoin, List.splitOn_append_cons_self, List.splitOn_eq_singleton hb]
  rw [hlist s a b hb, hlist s' a' b' hb'] at hmatch
  have hbb := (matchWords_concat (fun heq => hlit.1 (by simp [heq]))
    (fun heq => hlit.2 (by simp [heq])) hmatch).1
  rw [hlast, hlast', hbb]
  exact ⟨repr_toList_inj (by simpa using congrArg String.toList hij), rfl⟩

section Lists

variable {subs : List Subscription} {S : Subscription}
  (hsole : ∀ sub ∈ subs, sub.event = S.event → sub = S) (hmem : S ∈ subs)
include hsole hmem

theorem Apart.of_wellNamed (hwn : WellNamed subs) (hcontract : HasContract S.event) :
    Apart subs S where
  mem := hmem
  contract := hcontract
  literal sub hsub := (hwn sub hsub).2.2
  sole := hsole
  distinct := hwn.distinct hmem
  retryKey sub hsub i j hmatch := by
    have hlit := literal_retryRoutingKey (i := i) (hwn sub hsub).2.1 (hwn sub hsub).2.2
    have hkey := (topicMatches_literal hlit).mp hmatch
    obtain ⟨hs, he, hij⟩ := (retryRoutingKey_inj (hwn sub hsub).1 (hwn S hmem).1).mp hkey
    exact ⟨hsole sub hsub he, hij⟩

theorem Apart.of_hasContract (hall : ∀ sub ∈ subs, HasContract sub.event) : Apart subs S where
  mem := hmem
  contract := hall S hmem
  literal sub hsub := literal_of_hasContract (hall sub hsub)
  sole := hsole
  distinct sub hsub htitle := by
    have hlast := congrArg lastSegment htitle
    rw [lastSegment_append, lastSegment_append] at hlast
    exact hsole sub hsub (event_eq_of_lastSegment (hall sub hsub) (hall S hmem) hlast)
  retryKey sub hsub i j hmatch := by
    obtain ⟨hij, hlast⟩ := retryRoutingKey_of_topicMatches (hall sub hsub) (hall S hmem) hmatch
    exact ⟨hsole sub hsub (event_eq_of_lastSegment (hall sub hsub) (hall S hmem) hlast), hij⟩

end Lists

/-! ## Where the messages of the subscription go -/

theorem eq_singleton_of_nodup {α : Type} {xs : List α} {x : α} (hnodup : xs.Nodup)
    (h : ∀ y, y ∈ xs ↔ y = x) : xs = [x] := by
  match xs with
  | [] => exact absurd ((h x).mpr rfl) (List.not_mem_nil)
  | [y] => rw [(h y).mp (List.mem_singleton.mpr rfl)]
  | y :: z :: zs =>
    have hy : y = x := (h y).mp (by simp)
    have hz : z = x := (h z).mp (by simp)
    rw [hy, hz] at hnodup
    simp at hnodup

namespace Apart

variable {base : String} {subs : List Subscription} {delays : List ℕ} {limit : ℕ}
  {S : Subscription} (h : Apart subs S)
include h

theorem eq_of_topicMatches {sub : Subscription} (hsub : sub ∈ subs)
    (hmatch : topicMatches sub.event S.event = true) : sub = S :=
  h.sole sub hsub ((topicMatches_literal (h.literal sub hsub)).mp hmatch)

theorem eq_of_workQueueName {sub : Subscription} (hsub : sub ∈ subs)
    (hname : workQueueName sub.subscriber sub.event = workQueueName S.subscriber S.event) :
    sub = S := h.distinct sub hsub (workQueueName_eq_iff.mp hname)

theorem route_events : (buildTopology base subs delays limit).route (exchangeNames base).events
    S.event = [workQueueName S.subscriber S.event] := by
  have hmem : workQueueName S.subscriber S.event ∈
      (buildTopology base subs delays limit).bound (eventsExchange base) S.event :=
    mem_bound_events.mpr ⟨S, h.mem, topicMatches_self _, rfl⟩
  rw [Topology.route_eq_bound find_events (.inr (List.ne_nil_of_mem hmem))]
  apply eq_singleton_of_nodup (Topology.nodup_bound _ _)
  intro name
  constructor
  · intro hname
    obtain ⟨sub, hsub, hmatch, rfl⟩ := mem_bound_events.mp hname
    rw [h.eq_of_topicMatches hsub hmatch]
  · intro hname
    rw [hname]
    exact hmem

theorem route_dlx : (buildTopology base subs delays limit).route (exchangeNames base).dlx
    S.event = [dlqName S.subscriber S.event] := by
  rw [Topology.route_eq_bound find_dlx (.inl rfl)]
  apply eq_singleton_of_nodup (Topology.nodup_bound _ _)
  intro name
  rw [mem_bound_dlx]
  constructor
  · intro hname
    obtain ⟨sub, hsub, hmatch, rfl⟩ := hname
    rw [h.eq_of_topicMatches hsub hmatch]
  · intro hname
    exact ⟨S, h.mem, topicMatches_self _, hname.symm⟩

theorem route_retry {i : ℕ} (hi : i < delays.length) :
    (buildTopology base subs delays limit).route (exchangeNames base).retry
      (retryRoutingKey S.subscriber S.event i) = [retryQueueName S.subscriber S.event i] := by
  rw [Topology.route_eq_bound find_retry (.inl rfl)]
  apply eq_singleton_of_nodup (Topology.nodup_bound _ _)
  intro name
  rw [mem_bound_retry]
  constructor
  · intro hname
    obtain ⟨sub, hsub, j, -, hmatch, rfl⟩ := hname
    obtain ⟨rfl, rfl⟩ := h.retryKey sub hsub j i hmatch
    rfl
  · intro hname
    exact ⟨S, h.mem, i, hi, topicMatches_self _, hname.symm⟩

/-- The last word of an event with a contract is not `unrouted`. -/
theorem workQueueName_ne : unroutedQueueName base ≠ workQueueName S.subscriber S.event := by
  apply unroutedQueueName_ne_workQueueName
  rcases h.contract with hevent | hevent
  · rw [hevent]
    decide
  · rw [hevent]
    decide

theorem queue?_work : (buildTopology base subs delays limit).queue?
    (workQueueName S.subscriber S.event) = some (workQueue (exchangeNames base) limit S) :=
  queue?_workQueueName h.distinct h.mem h.workQueueName_ne

theorem deadLetterRoute_work {key : String} : (buildTopology base subs delays limit).deadLetterRoute
    (workQueueName S.subscriber S.event) key = [dlqName S.subscriber S.event] := by
  rw [deadLetterRoute_workQueueName h.distinct h.mem h.workQueueName_ne, h.route_dlx]

theorem deadLetterRoute_retry {i : ℕ} {key : String} (hi : i < delays.length) :
    (buildTopology base subs delays limit).deadLetterRoute
      (retryQueueName S.subscriber S.event i) key = [workQueueName S.subscriber S.event] := by
  rw [deadLetterRoute_retryQueueName h.distinct h.mem hi, h.route_events]

end Apart

end NestFastify.Messaging
