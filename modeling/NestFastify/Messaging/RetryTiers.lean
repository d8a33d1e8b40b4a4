import Mathlib.Data.List.GetD
import Mathlib.Data.List.Sigma
import NestFastify.Messaging.ConsumerSteps

/-!
# Consumer, topology and environment agree on the retry tiers

The system is run together with the number of retry publishes behind each copy. The header that
`handle` reads is this number, so the tier that the consumer picks is one that the topology has
declared, with the delay that the environment lists for it.
-/

namespace NestFastify.Messaging

open Amqp
open Transition (Reaches)

/-! ## The names of the queues -/

section Names

variable {subs : List Subscription} {sub sub' : Subscription} {ex : Exchanges} {delays : List ℕ}
  {limit : ℕ} {name : String}

theorem mem_queueNames :
    name ∈ (subscriptionQueues ex delays limit sub).map (·.name) ↔
      name = workQueueName sub.subscriber sub.event ∨
      (∃ i < delays.length, name = retryQueueName sub.subscriber sub.event i) ∨
      name = dlqName sub.subscriber sub.event := by
  simp only [subscriptionQueues, List.cons_append, List.map_cons, List.map_append, List.map_map,
    List.mem_cons, List.mem_append, List.map_nil, List.not_mem_nil, or_false]
  refine or_congr Iff.rfl (or_congr ?_ Iff.rfl)
  rw [List.mem_map]
  constructor
  · intro h
    obtain ⟨⟨ttl, i⟩, hmem, rfl⟩ := h
    have hi := (List.mem_zipIdx_iff_getElem?.mp hmem)
    exact ⟨i, (List.getElem?_eq_some_iff.mp hi).1, rfl⟩
  · intro h
    obtain ⟨i, hi, rfl⟩ := h
    exact ⟨(delays[i], i), List.mem_zipIdx_iff_getElem?.mpr (List.getElem?_eq_getElem hi), rfl⟩

/-- The queues of one subscription have different names. -/
theorem nodup_queueNames : ((subscriptionQueues ex delays limit sub).map (·.name)).Nodup := by
  have hretry : ((delays.zipIdx.map fun x => retryQueue ex sub x.1 x.2).map (·.name)).Nodup := by
    have hcomp : ((delays.zipIdx.map fun x => retryQueue ex sub x.1 x.2).map (·.name)) =
        (delays.zipIdx.map Prod.snd).map (retryQueueName sub.subscriber sub.event) := by
      rw [List.map_map, List.map_map]
      rfl
    rw [hcomp]
    exact (List.nodup_zipIdx_map_snd delays).map fun i j hij => (retryQueueName_eq_iff.mp hij).2
  have hmem : ∀ name, name ∈ ((delays.zipIdx.map fun x => retryQueue ex sub x.1 x.2).map (·.name)) →
      ∃ i, name = retryQueueName sub.subscriber sub.event i := by
    intro name hname
    rw [List.map_map] at hname
    obtain ⟨⟨ttl, i⟩, -, rfl⟩ := List.mem_map.mp hname
    exact ⟨i, rfl⟩
  simp only [subscriptionQueues, List.cons_append, List.map_cons, List.map_append, List.map_nil,
    List.nodup_cons, List.mem_append, List.mem_singleton, not_or]
  refine ⟨⟨fun hwork => ?_, workQueueName_ne_dlqName⟩, List.nodup_append.mpr
    ⟨hretry, List.nodup_singleton _, fun a ha b hb heq => ?_⟩⟩
  · obtain ⟨i, hi⟩ := hmem _ hwork
    exact workQueueName_ne_retryQueueName hi
  · obtain ⟨i, hi⟩ := hmem a ha
    rw [List.mem_singleton] at hb
    exact dlqName_ne_retryQueueName (hb.symm.trans (heq.symm.trans hi))

/-- A name tells which subscription its queue belongs to. -/
theorem eq_of_queueName (hdistinct : Distinct subs sub) (hsub' : sub' ∈ subs)
    (h : name ∈ (subscriptionQueues ex delays limit sub).map (·.name))
    (h' : name ∈ (subscriptionQueues ex delays limit sub').map (·.name)) : sub' = sub := by
  apply hdistinct sub' hsub'
  rcases mem_queueNames.mp h with rfl | ⟨i, -, rfl⟩ | rfl
  · rcases mem_queueNames.mp h' with heq | ⟨j, -, heq⟩ | heq
    · exact (workQueueName_eq_iff.mp heq).symm
    · exact absurd heq workQueueName_ne_retryQueueName
    · exact absurd heq workQueueName_ne_dlqName
  · rcases mem_queueNames.mp h' with heq | ⟨j, -, heq⟩ | heq
    · exact absurd heq.symm workQueueName_ne_retryQueueName
    · exact (retryQueueName_eq_iff.mp heq).1.symm
    · exact absurd heq.symm dlqName_ne_retryQueueName
  · rcases mem_queueNames.mp h' with heq | ⟨j, -, heq⟩ | heq
    · exact absurd heq.symm workQueueName_ne_dlqName
    · exact absurd heq dlqName_ne_retryQueueName
    · exact (dlqName_eq_iff.mp heq).symm

/-- The queues of all subscriptions have different names. -/
theorem nodup_queueNames_all (hwn : WellNamed subs) (hnodup : subs.Nodup) :
    ((subs.flatMap (subscriptionQueues ex delays limit)).map (·.name)).Nodup := by
  rw [List.map_flatMap, List.nodup_flatMap]
  refine ⟨fun sub _ => nodup_queueNames, ?_⟩
  apply hnodup.imp_of_mem
  intro sub sub' hsub hsub' hne name hname hname'
  exact hne (eq_of_queueName (hwn.distinct hsub) hsub' hname hname').symm

end Names

/-! ## Counting the retry publishes -/

namespace Deployment

variable {P : Type} (D : Deployment) (M : Machine P)

/-- How many retry publishes are behind what is published for copy `i`, this one included. -/
def retriesWith (retries : List ℕ) (i : ℕ) (p : Publication) : ℕ :=
  if p.exchange = D.ex.retry then retries.getD i 0 + 1 else retries.getD i 0

/-- How many retry publishes are behind the copies that a step adds. -/
def retriesBehind (s : MessagingState P) (retries : List ℕ) : Action → ℕ
  | .publish .. => 0
  | .perform i _ =>
    match D.callOf M s i with
    | some (.publish p) => D.retriesWith retries i p
    | _ => retries.getD i 0
  | .overtake i _ => retries.getD i 0
  | .settle i => retries.getD i 0
  | .crash i => retries.getD i 0
  | .stray j _ =>
    match s.strays[j]? with
    | some x => D.retriesWith retries x.copy x.publication
    | none => 0
  | .expire i => retries.getD i 0
  | .deliver .. => 0
  | .tick _ => 0

theorem retriesBehind_publish {D : Deployment} {M : Machine P} {s : MessagingState P}
    {retries : List ℕ} {i : ℕ} {outcome : Outcome} {p : Publication}
    (h : D.callOf M s i = some (.publish p)) :
    D.retriesBehind M s retries (.perform i outcome) = D.retriesWith retries i p := by
  unfold retriesBehind
  dsimp only
  rw [h]

/-- The system together with the number of retry publishes behind each copy. -/
def countingStep (s : MessagingState P × List ℕ) (a : Action) :
    Option (MessagingState P × List ℕ) :=
  (D.step M s.1 a).map fun s' =>
    (s', s.2 ++ List.replicate (s'.copies.length - s.1.copies.length)
      (D.retriesBehind M s.1 s.2 a))

/-- What the three places agree on. -/
structure RetryTiersAgree (s : MessagingState P) (retries : List ℕ) : Prop where
  /-- `handle` reads the number of retry publishes behind its copy. -/
  attempt : ∀ i l d, delivery? s i = some (l, d) → retries[i]? = some l.message.attempt ∧
    l.message.headers.attempt = some l.message.attempt ∧
    l.message.attempt ≤ D.env.RABBITMQ_MAX_RETRIES
  /-- A retry publish goes to the queue of this subscriber, this event and this attempt, which
  has the delay for it. -/
  tier : ∀ i l d p, delivery? s i = some (l, d) → D.callOf M s i = some (.publish p) →
    p.exchange = D.ex.retry → ∃ ttl, D.retryDelaysMs[l.message.attempt]? = some ttl ∧
      D.topology.route p.exchange p.routingKey =
        [retryQueueName d.subscription.subscriber d.subscription.event l.message.attempt] ∧
      D.topology.queue? (retryQueueName d.subscription.subscriber d.subscription.event
        l.message.attempt) = some (retryQueue D.ex d.subscription ttl l.message.attempt)

end Deployment

/-! ## The invariant -/

/-- Each copy carries the number of retry publishes behind it, and is delivered to a declared
subscription. -/
structure Tiered (D : Deployment) (s : MessagingState Point) (retries : List ℕ) : Prop where
  length : retries.length = s.copies.length
  attempt : ∀ i c, s.copies[i]? = some c → c.message.headers.attempt = some (retries.getD i 0) ∧
    retries.getD i 0 ≤ D.consumer.maxRetries
  subscribed : ∀ (i : ℕ) (l : Letter) (d : Delivery Point), s.copies[i]? = some ⟨l, .unacked d⟩ →
    d.subscription ∈ D.subscriptions

namespace Tiered

variable {D : Deployment} {s s' : MessagingState Point} {retries : List ℕ} {i k : ℕ} {l l' : Letter}
  {pl pl' : Place Point} {letters : List Letter}

theorem init (D : Deployment) : Tiered D (.init Point) [] where
  length := rfl
  attempt i c h := by
    rw [MessagingState.init, List.getElem?_nil] at h
    exact nomatch h
  subscribed i l d h := by
    rw [MessagingState.init, List.getElem?_nil] at h
    exact nomatch h

/-- Letters are added, with `k` retry publishes behind them. -/
theorem added (h : Tiered D s retries) (hcopies : s'.copies = s.copies ++ delivered letters)
    (hletters : ∀ x ∈ letters, x.message.headers.attempt = some k) (hk : k ≤ D.consumer.maxRetries) :
    Tiered D s' (retries ++ List.replicate (s'.copies.length - s.copies.length) k) := by
  have hlength : s'.copies.length - s.copies.length = letters.length := by
    rw [hcopies, List.length_append, delivered, List.length_map, Nat.add_sub_cancel_left]
  rw [hlength]
  constructor
  · rw [hcopies, List.length_append, List.length_append, List.length_replicate, delivered,
      List.length_map, h.length]
  · intro j c hj
    rw [hcopies] at hj
    by_cases hold : j < s.copies.length
    · rw [List.getElem?_append_left hold] at hj
      rw [List.getD_append _ _ _ _ (h.length ▸ hold)]
      exact h.attempt j c hj
    · have hj' : s.copies.length ≤ j := Nat.le_of_not_lt hold
      rw [List.getElem?_append_right hj'] at hj
      obtain ⟨hlt, -⟩ := List.getElem?_eq_some_iff.mp hj
      obtain ⟨x, hx, rfl⟩ := List.mem_map.mp (List.mem_of_getElem? hj)
      rw [delivered, List.length_map] at hlt
      rw [List.getD_append_right _ _ _ _ (h.length ▸ hj'), List.getD_eq_getElem?_getD,
        List.getElem?_replicate, if_pos (h.length ▸ hlt)]
      exact ⟨hletters x hx, hk⟩
  · intro j l d hj
    rw [hcopies] at hj
    rcases List.mem_append.mp (List.mem_of_getElem? hj) with hmem | hnew
    · obtain ⟨j', hj'⟩ := List.mem_iff_getElem?.mp hmem
      exact h.subscribed j' l d hj'
    · obtain ⟨x, -, hx⟩ := List.mem_map.mp hnew
      have hplace := congrArg Copy.place hx
      cases hplace

/-- A copy changes and keeps its message. -/
theorem changed (h : Tiered D s retries) (hi : s.copies[i]? = some ⟨l, pl⟩)
    (hcopies : s'.copies = s.copies.set i ⟨l', pl'⟩) (hmessage : l'.message = l.message)
    (hplace : ∀ d, pl' = .unacked d → d.subscription ∈ D.subscriptions) : Tiered D s' retries := by
  -- a copy of the new state is the changed one or an old one
  have hcase : ∀ j c, s'.copies[j]? = some c → (j = i ∧ c = ⟨l', pl'⟩) ∨ s.copies[j]? = some c := by
    intro j c hj
    rw [hcopies, List.getElem?_set] at hj
    by_cases hij : i = j
    · rw [if_pos hij, if_pos (hij ▸ (List.getElem?_eq_some_iff.mp hi).1)] at hj
      exact Or.inl ⟨hij.symm, (Option.some.inj hj).symm⟩
    · rw [if_neg hij] at hj
      exact Or.inr hj
  constructor
  · rw [hcopies, List.length_set, h.length]
  · intro j c hj
    rcases hcase j c hj with ⟨rfl, rfl⟩ | hold
    · rw [hmessage]
      exact h.attempt j ⟨l, pl⟩ hi
    · exact h.attempt j c hold
  · intro j l d hj
    rcases hcase j _ hj with ⟨-, hc⟩ | hold
    · exact hplace d (congrArg Copy.place hc).symm
    · exact h.subscribed j l d hold

/-- A copy changes and keeps its message, and letters are added. -/
theorem moved (h : Tiered D s retries) (hi : s.copies[i]? = some ⟨l, pl⟩)
    (hcopies : s'.copies = s.copies.set i ⟨l', pl'⟩ ++ delivered letters)
    (hmessage : l'.message = l.message)
    (hplace : ∀ d, pl' = .unacked d → d.subscription ∈ D.subscriptions)
    (hletters : ∀ x ∈ letters, x.message.headers.attempt = some k) (hk : k ≤ D.consumer.maxRetries) :
    Tiered D s' (retries ++ List.replicate (s'.copies.length - s.copies.length) k) := by
  have hchanged : Tiered D { s with copies := s.copies.set i ⟨l', pl'⟩ } retries :=
    h.changed hi rfl hmessage hplace
  have hadded := hchanged.added hcopies hletters hk
  rw [List.length_set] at hadded
  exact hadded

theorem withStrays (h : Tiered D s retries) (strays : List Stray) :
    Tiered D { s with strays := strays } retries := ⟨h.length, h.attempt, h.subscribed⟩

/-! ### Steps -/

section Steps

variable {d : Delivery Point}

theorem retries_le (h : Tiered D s retries) (hi : s.copies[i]? = some ⟨l, pl⟩) :
    l.message.headers.attempt = some (retries.getD i 0) ∧
      retries.getD i 0 ≤ D.consumer.maxRetries := h.attempt i _ hi

theorem deadLetter (h : Tiered D s retries) (hi : s.copies[i]? = some ⟨l, pl⟩)
    (hmessage : l'.message = l.message) :
    Tiered D (D.deadLetter s i l') (retries ++ List.replicate
      ((D.deadLetter s i l').copies.length - s.copies.length) (retries.getD i 0)) := by
  obtain ⟨hattempt, hle⟩ := h.retries_le hi
  refine h.moved hi (Deployment.deadLetter_copies s i l') hmessage (fun _ hd => nomatch hd)
    (fun x hx => ?_) hle
  rw [Deployment.mem_deadLettered hx, hmessage]
  exact hattempt

theorem requeue (h : Tiered D s retries) (hi : s.copies[i]? = some ⟨l, pl⟩)
    (hmessage : l'.message = l.message) :
    Tiered D (D.requeue s i l') (retries ++ List.replicate
      ((D.requeue s i l').copies.length - s.copies.length) (retries.getD i 0)) := by
  rcases Deployment.requeue_eq (D := D) s i l' with heq | heq
  · rw [heq]
    exact h.moved hi (Deployment.place_copies s i _ _) hmessage (fun _ hd => nomatch hd) nofun
      (h.retries_le hi).2
  · rw [heq]
    exact h.deadLetter hi hmessage

/-- What a delivery publishes is a retry while attempts are left, or goes to the DLX. -/
theorem publication_cases {p : Publication} {pt pt' : Point} {r : Except JsError Unit}
    (hstep : Point.Step (D.context l d) pt (.publish p) r pt') :
    (∃ payload err, l.message.attempt < D.consumer.maxRetries ∧
      p = D.consumer.retryPublication d.subscription.subscriber d.subscription.event payload
        l.message l.message.attempt err) ∨
    (p.exchange = D.ex.dlx ∧ p.headers.attempt = l.message.headers.attempt) := by
  have hfailure : ∀ payload err, p = (D.context l d).failurePublication payload err →
      (∃ payload err, l.message.attempt < D.consumer.maxRetries ∧
        p = D.consumer.retryPublication d.subscription.subscriber d.subscription.event payload
          l.message l.message.attempt err) ∨
      (p.exchange = D.ex.dlx ∧ p.headers.attempt = l.message.headers.attempt) := by
    rintro payload err rfl
    unfold Context.failurePublication
    by_cases hlt : (D.context l d).msg.attempt < (D.context l d).consumer.maxRetries
    · rw [if_pos hlt]
      exact Or.inl ⟨payload, err, hlt, rfl⟩
    · rw [if_neg hlt]
      exact Or.inr ⟨rfl, rfl⟩
  cases hstep with
  | reject_ok | reject_fail => exact Or.inr ⟨rfl, rfl⟩
  | republish_ok payload lock err => exact hfailure payload err rfl
  | republish_fail payload lock err e => exact hfailure payload err rfl
  | confirm_ok payload err => exact hfailure payload err rfl
  | confirm_fail payload err e => exact hfailure payload err rfl

theorem dlx_ne_retry : D.ex.dlx ≠ D.ex.retry := by
  simp [Deployment.ex, exchangeNames]

/-- A delivery publishes a retry, one higher than its own, or a letter that keeps the count. -/
theorem retriesWith_of_step (h : Tiered D s retries) (hi : s.copies[i]? = some ⟨l, .unacked d⟩)
    {p : Publication} {pt pt' : Point} {r : Except JsError Unit}
    (hstep : Point.Step (D.context l d) pt (.publish p) r pt') :
    p.headers.attempt = some (D.retriesWith retries i p) ∧
      D.retriesWith retries i p ≤ D.consumer.maxRetries := by
  obtain ⟨hattempt, hle⟩ := h.retries_le hi
  have hread : l.message.attempt = retries.getD i 0 := by
    rw [ConsumeMessage.attempt, hattempt]
    rfl
  unfold Deployment.retriesWith
  rcases publication_cases hstep with ⟨payload, err, hlt, rfl⟩ | ⟨hexchange, hheader⟩
  · have hexchange : (D.consumer.retryPublication d.subscription.subscriber d.subscription.event
        payload l.message l.message.attempt err).exchange = D.ex.retry := rfl
    rw [if_pos hexchange, ← hread]
    exact ⟨rfl, hlt⟩
  · rw [if_neg (hexchange ▸ dlx_ne_retry)]
    exact ⟨hheader.trans hattempt, hle⟩

theorem call {a : Action} {outcome : Outcome} (ha : a.call? = some (i, outcome))
    (h : Tiered D s retries) (hstep : D.step pointMachine s a = some s') :
    Tiered D s' (retries ++ List.replicate (s'.copies.length - s.copies.length)
      (D.retriesBehind pointMachine s retries a)) := by
  obtain ⟨l, d, call, r, pt, s₁, left, hi, hmove, hsettled, rfl, -, hcall⟩ :=
    Deployment.call_cases ha hstep
  obtain ⟨-, -, -, letters, hcopies, hpublish⟩ := Deployment.settled_frame hsettled
  apply Tiered.withStrays
  have hplace : ∀ d', Place.unacked { d with
      code := pt
      lockedAt := Deployment.lockedAfter s₁.now d.lockedAt call r
      republished := Deployment.republishedAfter d.republished call r } = .unacked d' →
      d'.subscription ∈ D.subscriptions := by
    intro d' hd'
    rw [← Place.unacked.inj hd']
    exact h.subscribed i l d hi
  rcases hpublish with rfl | ⟨p, rfl, rfl⟩
  · have hnone : (Deployment.abandon (D.resume pointMachine s₁ i l d call r pt) i
        left).copies.length - s.copies.length = 0 := by
      show (D.resume pointMachine s₁ i l d call r pt).copies.length - s.copies.length = 0
      rw [Deployment.copies_resume hi hcopies]
      simp [delivered]
    rw [hnone, List.replicate_zero, List.append_nil]
    have hresume := @Deployment.copies_resume D s s₁ i l d call [] r pt hi hcopies
    rw [show delivered [] = [] from rfl, List.append_nil] at hresume
    exact h.changed hi hresume rfl hplace
  · rcases hcall with ⟨rfl, hcall⟩ | ⟨-, lock, hlock⟩
    · obtain ⟨hattempt, hle⟩ := h.retriesWith_of_step hi hmove
      rw [Deployment.retriesBehind_publish hcall]
      refine h.moved hi (Deployment.copies_resume hi hcopies) rfl hplace (fun x hx => ?_) hle
      rw [Deployment.mem_routed hx]
      exact hattempt
    · cases hlock

/-- The publishes that nobody awaits any more carry the number of retry publishes behind them. -/
def StraysTiered (D : Deployment) (s : MessagingState Point) (retries : List ℕ) : Prop :=
  ∀ x ∈ s.strays, x.copy < retries.length ∧
    x.publication.headers.attempt = some (D.retriesWith retries x.copy x.publication) ∧
    D.retriesWith retries x.copy x.publication ≤ D.consumer.maxRetries

theorem StraysTiered.step {a : Action} (hs : StraysTiered D s retries) (h : Tiered D s retries)
    (hstep : D.step pointMachine s a = some s') (more : List ℕ) :
    StraysTiered D s' (retries ++ more) := by
  intro x hx
  have hold : x.copy < retries.length ∧
      x.publication.headers.attempt = some (D.retriesWith retries x.copy x.publication) ∧
      D.retriesWith retries x.copy x.publication ≤ D.consumer.maxRetries := by
    rcases Deployment.strays_of_step hstep hx with hx | ⟨l, d, hi, pt, hpublish⟩
    · exact hs x hx
    · exact ⟨h.length ▸ (List.getElem?_eq_some_iff.mp hi).1, h.retriesWith_of_step hi hpublish⟩
  obtain ⟨hlt, hold⟩ := hold
  have hsame : D.retriesWith (retries ++ more) x.copy x.publication =
      D.retriesWith retries x.copy x.publication := by
    unfold Deployment.retriesWith
    rw [List.getD_append _ _ _ _ hlt]
  refine ⟨?_, hsame ▸ hold⟩
  rw [List.length_append]
  omega

theorem step {a : Action} (h : Tiered D s retries) (hs : StraysTiered D s retries)
    (hstep : D.step pointMachine s a = some s') :
    Tiered D s' (retries ++ List.replicate (s'.copies.length - s.copies.length)
      (D.retriesBehind pointMachine s retries a)) := by
  cases a with
  | publish event raw messageId requestId =>
    obtain ⟨payload, -, rfl⟩ := Deployment.publish_cases hstep
    refine h.added rfl (fun x hx => ?_) (Nat.zero_le _)
    rw [Deployment.mem_routed hx]
    rfl
  | deliver i sub now =>
    obtain ⟨l, hi, hsub, -, rfl⟩ := Deployment.deliver_cases hstep
    refine h.moved hi (Deployment.place_copies s i l _) rfl (fun d hd => ?_)
      (fun _ hx => absurd hx List.not_mem_nil) (Nat.zero_le _)
    cases hd
    exact hsub
  | perform i outcome | overtake i outcome => exact h.call rfl hstep
  | settle i =>
    obtain ⟨l, d, result, hi, -, hack | hreject | hreturn⟩ := Deployment.settle_cases hstep
    · obtain ⟨-, rfl⟩ := hack
      refine h.moved hi (Deployment.place_copies s i l _) rfl (fun _ hd => ?_)
        (fun _ hx => absurd hx List.not_mem_nil) (h.retries_le hi).2
      cases hd
    · obtain ⟨-, rfl⟩ := hreject
      exact h.deadLetter hi rfl
    · obtain ⟨-, rfl⟩ := hreturn
      exact h.requeue hi rfl
  | crash i =>
    obtain ⟨l, d, left, hi, rfl, -⟩ := Deployment.crash_cases hstep
    apply Tiered.withStrays
    exact h.requeue hi rfl
  | stray j arrives =>
    obtain ⟨x, letters, hj, hletters, rfl⟩ := Deployment.stray_cases hstep
    obtain ⟨-, hattempt, hle⟩ := hs x (List.mem_of_getElem? hj)
    have hbehind : D.retriesBehind pointMachine s retries (.stray j arrives) =
        D.retriesWith retries x.copy x.publication := by
      simp only [Deployment.retriesBehind, hj]
    rw [hbehind]
    refine h.added rfl (fun y hy => ?_) hle
    rcases hletters with rfl | rfl
    · exact absurd hy List.not_mem_nil
    · rw [Deployment.mem_routed hy]
      exact hattempt
  | expire i =>
    obtain ⟨l, hi, -, rfl⟩ := Deployment.expire_cases hstep
    exact h.deadLetter hi rfl
  | tick ms =>
    obtain rfl := Option.some.inj hstep
    have hsame : s.copies.length - s.copies.length = 0 := Nat.sub_self _
    show Tiered D _ (retries ++ List.replicate (s.copies.length - s.copies.length) 0)
    rw [hsame, List.replicate_zero, List.append_nil]
    exact ⟨h.length, h.attempt, h.subscribed⟩

end Steps

end Tiered

/-! ## Runs -/

section Runs

variable {D : Deployment}

namespace Deployment

def countedToCode (D : Deployment) (s : MessagingState Point × List ℕ) :
    MessagingState Code × List ℕ := (s.1.toCode D, s.2)

theorem countingStep_toCode (s : MessagingState Point × List ℕ) (a : Action) :
    D.countingStep codeMachine (D.countedToCode s) a =
      (D.countingStep pointMachine s a).map D.countedToCode := by
  have hlength : ∀ s : MessagingState Point, (s.toCode D).copies.length = s.copies.length :=
    fun s => List.length_map _
  have hretries : D.retriesBehind codeMachine (s.1.toCode D) s.2 a =
      D.retriesBehind pointMachine s.1 s.2 a := by
    unfold retriesBehind
    simp only [callOf_toCode]
    rfl
  unfold countingStep countedToCode
  dsimp only
  rw [step_toCode, hretries, Option.map_map, Option.map_map]
  congr 1
  funext s'
  simp only [Function.comp_apply, hlength]

/-- The call that a delivery awaits is one that its point makes. -/
theorem step_of_callOf {s : MessagingState Point} {i : ℕ} {l : Letter} {d : Delivery Point}
    {call : ConsumerCall} (hd : delivery? s i = some (l, d))
    (h : D.callOf pointMachine s i = some call) (r : Except JsError call.Reply) :
    ∃ pt, Point.Step (D.context l d) d.code call r pt := by
  unfold callOf at h
  rw [hd] at h
  obtain ⟨⟨call', k⟩, hnext, rfl⟩ := Option.map_eq_some_iff.mp h
  exact ⟨k r, Point.step_of_next hnext r⟩

end Deployment

theorem agree_of_tiered {s : MessagingState Point} {retries : List ℕ}
    (hwn : WellNamed D.subscriptions) (h : Tiered D s retries) :
    D.RetryTiersAgree pointMachine s retries := by
  have hread : ∀ i l d, Deployment.delivery? s i = some (l, d) →
      retries[i]? = some l.message.attempt ∧
        l.message.headers.attempt = some l.message.attempt ∧
        l.message.attempt ≤ D.env.RABBITMQ_MAX_RETRIES := by
    intro i l d hd
    have hi := Deployment.delivery?_eq_some.mp hd
    obtain ⟨hattempt, hle⟩ := h.retries_le hi
    have heq : l.message.attempt = retries.getD i 0 := by
      rw [ConsumeMessage.attempt, hattempt]
      rfl
    have hlt : i < retries.length := h.length ▸ (List.getElem?_eq_some_iff.mp hi).1
    rw [heq]
    refine ⟨?_, hattempt, hle⟩
    rw [List.getElem?_eq_getElem hlt, List.getD_eq_getElem _ _ hlt]
  refine ⟨hread, fun i l d p hd hcall hexchange => ?_⟩
  obtain ⟨pt, hstep⟩ := Deployment.step_of_callOf hd hcall (.ok ())
  have hsub := h.subscribed i l d (Deployment.delivery?_eq_some.mp hd)
  rcases Tiered.publication_cases hstep with ⟨payload, err, hlt, rfl⟩ | ⟨hdlx, -⟩
  · -- the tier is the attempt, and the environment lists a delay for it
    have htier : D.consumer.retryTier l.message.attempt = l.message.attempt :=
      MessageConsumer.retryTier_of_lt hlt
    have hdelay : l.message.attempt < D.retryDelaysMs.length := by
      have henv := D.env.retries_le_tiers
      have hmax : l.message.attempt < D.env.RABBITMQ_MAX_RETRIES := hlt
      rw [Deployment.retryDelaysMs, List.length_map]
      omega
    refine ⟨D.retryDelaysMs[l.message.attempt], List.getElem?_eq_getElem hdelay, ?_,
      queue?_retryQueueName (hwn.distinct hsub) hsub hdelay⟩
    show D.topology.route (exchangeNames D.env.RABBITMQ_EXCHANGE).retry
      (retryRoutingKey d.subscription.subscriber d.subscription.event
        (D.consumer.retryTier l.message.attempt)) = _
    rw [htier]
    apply eq_singleton_of_nodup
    · unfold Deployment.topology
      rw [Topology.route_eq_bound find_retry (.inl rfl)]
      exact Topology.nodup_bound _ _
    · intro name
      refine (mem_route_retry_iff hwn hsub _).trans ?_
      simp [hdelay, eq_comm]
  · exact absurd (hdlx.symm.trans hexchange) Tiered.dlx_ne_retry

theorem agree_toCode {s : MessagingState Point} {retries : List ℕ}
    (h : D.RetryTiersAgree pointMachine s retries) :
    D.RetryTiersAgree codeMachine (s.toCode D) retries := by
  have hpoint : ∀ i l d, Deployment.delivery? (s.toCode D) i = some (l, d) →
      ∃ d', Deployment.delivery? s i = some (l, d') ∧ d'.subscription = d.subscription := by
    intro i l d hd
    rw [Deployment.delivery?_toCode] at hd
    obtain ⟨⟨l', d'⟩, hd', heq⟩ := Option.map_eq_some_iff.mp hd
    cases heq
    exact ⟨d', hd', rfl⟩
  constructor
  · intro i l d hd
    obtain ⟨d', hd', -⟩ := hpoint i l d hd
    exact h.attempt i l d' hd'
  · intro i l d p hd hcall hexchange
    obtain ⟨d', hd', hsub⟩ := hpoint i l d hd
    rw [Deployment.callOf_toCode] at hcall
    rw [← hsub]
    exact h.tier i l d' p hd' hcall hexchange

/-- Over any list of well-named subscriptions without duplicates, the consumer, the topology and
the environment agree on the retry tiers, and all queues have different names. -/
theorem retryTiersAgree (hwn : WellNamed D.subscriptions) (hnodup : D.subscriptions.Nodup)
    {t : MessagingState Code × List ℕ}
    (h : Reaches (D.countingStep codeMachine) (fun _ _ => True) (.init Code, []) t) :
    D.RetryTiersAgree codeMachine t.1 t.2 ∧
      ((D.subscriptions.flatMap (subscriptionQueues D.ex D.retryDelaysMs D.deliveryLimit)).map
        (·.name)).Nodup := by
  refine ⟨?_, nodup_queueNames_all hwn hnodup⟩
  have hcode : Reaches (D.countingStep codeMachine) (fun _ _ => True)
      (D.countedToCode (.init Point, [])) t := h
  obtain ⟨s, hs, rfl⟩ := Reaches.lift Deployment.countingStep_toCode hcode
  apply agree_toCode
  apply agree_of_tiered hwn
  refine (@Reaches.invariant _ _ _ _ _ _
    (fun u => Tiered D u.1 u.2 ∧ Tiered.StraysTiered D u.1 u.2) hs
    ⟨Tiered.init D, fun x hx => absurd hx List.not_mem_nil⟩
    fun u a v ⟨htiered, hstrays⟩ _ hv => ?_).1
  obtain ⟨s', hs', rfl⟩ := Option.map_eq_some_iff.mp hv
  exact ⟨htiered.step hstrays hs', hstrays.step htiered hs' _⟩

/-- The handler of `notifications` rejects, and the retry copy is delivered again. -/
theorem retryTiersAgree_retried : ∃ t : MessagingState Code × List ℕ, t.2 = [0, 1, 1] ∧
    (defaultDeployment [notifications]).RetryTiersAgree codeMachine t.1 t.2 := by
  have hrun : (Transition.run ((defaultDeployment [notifications]).countingStep codeMachine)
      (fun _ _ => True) (.init Code, [])
      ([(createdNotification "m1").action, .deliver 0 notifications "2026-06-06T00:00:00Z"] ++
        resolving 0 2 ++ [.perform 0 (.rejects (.error "boom") false)] ++ resolving 0 2 ++
        [.settle 0, .expire 1, .deliver 2 notifications "2026-06-06T00:00:05Z"])).map
      (fun t => decide (t.2 = [0, 1, 1])) = some true := by
    decide +kernel
  obtain ⟨t, ht, htest⟩ := Transition.exists_reaches_of_run hrun
  exact ⟨t, of_decide_eq_true htest, (retryTiersAgree (by decide) (by decide) ht).1⟩

end Runs

end NestFastify.Messaging
