import NestFastify.Events.Flow
import NestFastify.Messaging.Correlation
import NestFastify.Messaging.Idempotency

/-!
# What becomes of a committed event

A row that has been committed to the outbox is pending, has failed, or is on the broker with the
payload it was enqueued with, in a queue of each subscription to its event or handled by it
(`event_not_lost`). A relay may put the row on the broker several times under its message id; the
marker and the lock of the consumer make one handling of it (`event_handled_once`).
-/

namespace NestFastify.Events

open Messaging (Published MessagingState Machine Code Point codeMachine pointMachine EventPayload
  parseEvent LogEntry Subscription Present Resolved Apart HasContract notifications
  resolving)
open Outbox (OutboxState RelayAction RelayPoint OutboxEvent SameEvent Inv)
open Transition (Reaches)

variable {D : Messaging.Deployment}

/-! ## What a relay hands over -/

section Handed

variable {q : ℕ → Prop} {o o' : OutboxState} {a : RelayAction}

/-- What the step of a relay does to the confirmed publications, and what it hands over: nothing,
or the row that the drain is publishing. -/
inductive Handed (D : Messaging.Deployment) (o o' : OutboxState) (a : RelayAction) : Prop
  | nothing (hhanded : handedOver o a = none) (hconfirmed : o'.confirmed = o.confirmed)
  | row (r row : OutboxEvent) (hr : r ∈ o.db.rows) (hsame : SameEvent r row)
    (hhanded : handedOver o a =
      some (.publish row.routingKey row.payload row.messageId row.requestId))
    (hrows : o'.db.rows = o.db.rows)
    (hconfirmed : o'.confirmed = o.confirmed ∨
      ∃ v pub, parseEvent D.z row.routingKey row.payload = .ok v ∧
        pub.messageId = some row.messageId ∧ o'.confirmed = o.confirmed ++ [pub])

theorem eq_publishing {this : Outbox.OutboxRelayService} {p : RelayPoint} {routingKey : String}
    {payload : Json} {messageId : String} {requestId : Option String}
    {k : Except JsError Unit → RelayPoint}
    (hview : p.view this = .awaits (.publish routingKey payload messageId requestId) k) :
    ∃ row rest, p = .publishing row rest ∧ routingKey = row.routingKey ∧ payload = row.payload ∧
      messageId = row.messageId ∧ requestId = row.requestId := by
  match p with
  | .publishing row rest =>
    cases hview
    exact ⟨row, rest, rfl, rfl, rfl, rfl, rfl⟩
  | .beginning | .claiming | .marking _ _ | .counting _ _ | .failing _ _ | .committing
  | .rollingBack _ | .settled _ => exact nomatch hview

/-- Only a publish that resolves is confirmed. -/
theorem execute_confirmed {D : Outbox.Deployment} {i clock : ℕ} {d : Outbox.Drain}
    {outcome : Outbox.Outcome} {c : Outbox.RelayCall} {r : OutboxState × Except JsError c.Reply}
    (h : D.execute o i d outcome clock c = some r)
    (hc : ∀ routingKey payload messageId requestId,
      c ≠ .publish routingKey payload messageId requestId) : r.1.confirmed = o.confirmed := by
  match c with
  | .begin =>
    match outcome with
    | .resolves | .rejects e | .unanswered e =>
      obtain rfl := Option.some.inj h
      rfl
  | .claimPending limit =>
    refine Outbox.statement_keeps (P := fun u => u.confirmed = o.confirmed) rfl (fun t => rfl)
      (fun t ht => ?_) h
    rw [← (Prod.mk.inj (Option.some.inj ht)).1]
    rfl
  | .publish routingKey payload messageId requestId => exact absurd rfl (hc _ _ _ _)
  | .update id data =>
    exact Outbox.statement_keeps (P := fun u => u.confirmed = o.confirmed) rfl (fun t => rfl)
      (fun t ht => Outbox.runUpdate_confirmed ht) h
  | .commit =>
    obtain rfl := Option.some.inj h
    show (o.runCommit i d outcome).1.confirmed = o.confirmed
    rcases Outbox.runCommit_cases o i d outcome with
      ⟨-, heq⟩ | ⟨t, -, ⟨-, heq⟩ | ⟨e, -, heq⟩ | ⟨-, -, reply, heq⟩⟩
    · rw [heq]
    · rw [heq]
    · rw [heq]
    · rw [heq]
      rfl
  | .rollback =>
    obtain rfl := Option.some.inj h
    rfl

theorem handed_of_step (hs : Inv (relays D) q o) (h : (relays D).step o a = some o') :
    Handed D o o' a := by
  match a with
  | .enqueue data id randomUUID createdAt =>
    obtain ⟨-, rfl⟩ := Outbox.enqueue_eq_some h
    exact .nothing rfl rfl
  | .start i =>
    obtain ⟨-, -, rfl⟩ := Outbox.start_eq_some h
    exact .nothing rfl rfl
  | .finish i =>
    obtain ⟨-, rfl⟩ := Outbox.finish_eq_some h
    exact .nothing rfl rfl
  | .timeout i | .crash i | .tick ms =>
    obtain rfl := Option.some.inj h
    exact .nothing rfl rfl
  | .perform i outcome clock =>
    obtain ⟨d, p, c, k, r, hd, hcode, hI, hview, hexecute, rfl⟩ := Outbox.perform_cases hs h
    have hawaited := Outbox.awaited_eq hd hcode hview
    match c with
    | .begin | .claimPending _ | .update .. | .commit | .rollback =>
      refine .nothing ?_ (execute_confirmed hexecute nofun)
      simp only [handedOver, hawaited]
    | .publish routingKey payload messageId requestId =>
      obtain ⟨row, rest, rfl, rfl, rfl, rfl, rfl⟩ := eq_publishing hview
      obtain ⟨r', hr', hsame⟩ := hI.known row List.mem_cons_self
      obtain rfl := Option.some.inj hexecute
      have hcases := @Outbox.runPublish_cases (relays D) o outcome row.routingKey row.payload
        row.messageId row.requestId
      -- what is not answered may be on the broker all the same
      match outcome with
      | .rejects e =>
        refine .nothing (by simp only [handedOver, hawaited]) ?_
        obtain ⟨e', he'⟩ | ⟨v, pub, -, -, -, -, hresolves, -⟩ := hcases
        · exact congrArg (fun x => x.1.confirmed) he'
        · exact nomatch hresolves
      | .resolves | .unanswered e =>
        refine .row r' row hr' hsame (by simp only [handedOver, hawaited])
          (Outbox.execute_frame hexecute nofun).1 ?_
        obtain ⟨e', he'⟩ | ⟨v, pub, hparse, hid, -, -, -, heq⟩ := hcases
        · exact Or.inl (congrArg (fun x => x.1.confirmed) he')
        · exact Or.inr ⟨v, pub, hparse, hid, congrArg (fun x => x.1.confirmed) heq⟩

theorem published_receive {P : Type} {M : Machine P} (b : MessagingState P) (event : String)
    (payload : Json) (messageId : String) (requestId : Option String) :
    (receive D M b (some (.publish event payload messageId requestId))).published =
      b.published ++ match parseEvent D.z event payload with
        | .ok v => [⟨messageId, event, v⟩]
        | .error _ => [] := by
  show ((D.publish b event payload messageId requestId).getD b).published = _
  unfold Messaging.Deployment.publish Messaging.EventPublisherService.publish
  match parseEvent D.z event payload with
  | .ok v => rfl
  | .error e => exact (List.append_nil _).symm

end Handed

/-! ## The invariant -/

/-- What is on the broker under the message id of a row is the event of the row. -/
structure Linked (D : Messaging.Deployment) (o : OutboxState) (published : List Published) :
    Prop where
  origin : ∀ p ∈ published, ∀ r ∈ o.db.rows, r.messageId = p.messageId →
    r.routingKey = p.event ∧ parseEvent D.z r.routingKey r.payload = .ok p.payload
  unambiguous : ∀ p ∈ published, ∀ p' ∈ published, p'.messageId = p.messageId → p' = p
  confirmed : ∀ pub ∈ o.confirmed, ∃ p ∈ published, pub.messageId = some p.messageId

section Invariant

variable {q : ℕ → Prop} {o o' : OutboxState} {published : List Published} {p : Published}

/-- Rows that come from the rows before, with the events they had. -/
theorem Linked.rows (h : Linked D o published)
    (hrows : ∀ r' ∈ o'.db.rows, (∃ r ∈ o.db.rows, SameEvent r r') ∨
      r'.messageId ∉ published.map Published.messageId)
    (hconfirmed : o'.confirmed = o.confirmed) : Linked D o' published where
  origin p hp r' hr' hid := by
    rcases hrows r' hr' with ⟨r, hr, hsame⟩ | hfresh
    · rw [hsame.routingKey, hsame.payload]
      exact h.origin p hp r hr (hsame.messageId.symm.trans hid)
    · exact absurd (hid ▸ List.mem_map_of_mem hp) hfresh
  unambiguous := h.unambiguous
  confirmed pub hpub := h.confirmed pub (hconfirmed ▸ hpub)

/-- One more publication, that is the only message under its id. -/
theorem Linked.append (h : Linked D o published)
    (horigin : ∀ r ∈ o.db.rows, r.messageId = p.messageId →
      r.routingKey = p.event ∧ parseEvent D.z r.routingKey r.payload = .ok p.payload)
    (hagain : ∀ p' ∈ published, p'.messageId = p.messageId → p' = p) :
    Linked D o (published ++ [p]) := by
  refine ⟨fun p' hp' r hr hid => ?_, fun p₁ h₁ p₂ h₂ hids => ?_, fun pub hpub => ?_⟩
  · rcases List.mem_append.mp hp' with hold | hnew
    · exact h.origin p' hold r hr hid
    · obtain rfl := List.mem_singleton.mp hnew
      exact horigin r hr hid
  · rcases List.mem_append.mp h₁ with h₁ | h₁ <;> rcases List.mem_append.mp h₂ with h₂ | h₂
    · exact h.unambiguous p₁ h₁ p₂ h₂ hids
    · rw [List.mem_singleton.mp h₂] at hids ⊢
      exact (hagain p₁ h₁ hids.symm).symm
    · rw [List.mem_singleton.mp h₁] at hids ⊢
      exact hagain p₂ h₂ hids
    · rw [List.mem_singleton.mp h₁, List.mem_singleton.mp h₂]
  · obtain ⟨p', hp', hpub'⟩ := h.confirmed pub hpub
    exact ⟨p', List.mem_append_left _ hp', hpub'⟩

/-- A publication of a row, the first one or one more. -/
theorem Linked.publishes (h : Linked D o published) (hs : Inv (relays D) q o) {r : OutboxEvent}
    (hr : r ∈ o.db.rows) {v : EventPayload}
    (hparse : parseEvent D.z r.routingKey r.payload = .ok v) :
    Linked D o (published ++ [⟨r.messageId, r.routingKey, v⟩]) := by
  refine h.append (fun r' hr' hid => ?_) fun p' hp' hid => ?_
  -- message ids are unique among the rows
  · obtain rfl := hs.eq_of_messageId hr' hr hid
    exact ⟨rfl, hparse⟩
  · obtain ⟨hevent, hparse'⟩ := h.origin p' hp' r hr hid.symm
    have hpayload : p'.payload = v := Except.ok.inj (hparse'.symm.trans hparse)
    show p' = ⟨r.messageId, r.routingKey, v⟩
    rw [← show p'.messageId = r.messageId from hid, hevent, ← hpayload]

/-- A message that no row stands for, under an id of its own. -/
theorem Linked.direct (h : Linked D o published)
    (hsent : p.messageId ∉ published.map Published.messageId)
    (hrow : p.messageId ∉ o.db.rows.map OutboxEvent.messageId) : Linked D o (published ++ [p]) :=
  h.append (fun _ hr hid => absurd (hid ▸ List.mem_map_of_mem hr) hrow)
    fun _ hp' hid => absurd (hid ▸ List.mem_map_of_mem hp') hsent

/-- Apart from `enqueue`, a step of a relay leaves no new events in the table. -/
theorem rows_of_step (hs : Inv (relays D) q o) {a : RelayAction}
    (hstep : (relays D).step o a = some o')
    (ha : ∀ data id randomUUID createdAt, a ≠ .enqueue data id randomUUID createdAt) :
    ∀ r' ∈ o'.db.rows, ∃ r ∈ o.db.rows, SameEvent r r' := by
  have hsame : o'.db.rows = o.db.rows → ∀ r' ∈ o'.db.rows, ∃ r ∈ o.db.rows, SameEvent r r' :=
    fun hrows r' hr' => ⟨r', hrows ▸ hr', .refl r'⟩
  match a with
  | .enqueue data id randomUUID createdAt => exact absurd rfl (ha _ _ _ _)
  | .start i =>
    obtain ⟨-, -, rfl⟩ := Outbox.start_eq_some hstep
    exact hsame rfl
  | .finish i =>
    obtain ⟨-, rfl⟩ := Outbox.finish_eq_some hstep
    exact hsame rfl
  | .timeout i | .crash i | .tick ms =>
    obtain rfl := Option.some.inj hstep
    exact hsame rfl
  | .perform i outcome clock =>
    obtain ⟨d, p, c, k, r, hd, hcode, hI, hview, hexecute, rfl⟩ := Outbox.perform_cases hs hstep
    by_cases hc : c = .commit
    swap
    · exact hsame (Outbox.execute_frame hexecute hc).1
    subst hc
    obtain rfl := Outbox.eq_committing hview
    obtain rfl := Option.some.inj hexecute
    rcases Outbox.runCommit_cases o i d outcome with
      ⟨-, heq⟩ | ⟨t, ht, ⟨-, heq⟩ | ⟨e, -, heq⟩ | ⟨hfailed, -, reply, heq⟩⟩
    · exact hsame (by rw [heq]; rfl)
    · exact hsame (by rw [heq]; rfl)
    · exact hsame (by rw [heq]; rfl)
    · intro r' hr'
      rw [heq] at hr'
      obtain ⟨r, hr, rfl⟩ := List.mem_map.mp hr'
      exact ⟨r, hr, (hI.healthy t ht hfailed rfl).same r hr⟩

theorem Linked.step {s s' : FlowState Point} (h : Linked D s.outbox s.broker.published)
    (hs : Inv (relays D) q s.outbox) {a : FlowAction} (hfresh : Fresh s a)
    (hstep : step D pointMachine s a = some s') : Linked D s'.outbox s'.broker.published := by
  -- a relay hands over a row it has read, or nothing; anything else is published directly
  match a with
  | .outbox a =>
    obtain ⟨o', ho, rfl⟩ := Option.map_eq_some_iff.mp hstep
    match handed_of_step hs ho with
    | .nothing hhanded hconfirmed =>
      rw [hhanded]
      refine h.rows (fun r' hr' => ?_) hconfirmed
      match a with
      | .enqueue data id randomUUID createdAt =>
        obtain ⟨-, rfl⟩ := Outbox.enqueue_eq_some ho
        rcases List.mem_append.mp hr' with hold | hnew
        · exact Or.inl ⟨r', hold, .refl r'⟩
        · rw [List.mem_singleton.mp hnew]
          exact Or.inr hfresh
      | .start _ | .finish _ | .timeout _ | .crash _ | .tick _ | .perform .. =>
        exact Or.inl (rows_of_step hs ho (fun _ _ _ _ h => nomatch h) r' hr')
    | .row r row hr hsame hhanded hrows hconfirmed =>
      have hkept : Linked D s.outbox (receive D pointMachine s.broker
          (handedOver s.outbox a)).published := by
        rw [hhanded, published_receive, hsame.routingKey, hsame.payload, hsame.messageId]
        match hparse : parseEvent D.z r.routingKey r.payload with
        | .ok v => exact h.publishes hs hr hparse
        | .error e =>
          rw [List.append_nil]
          exact h
      refine ⟨fun p hp r' hr' hid => hkept.origin p hp r' (hrows ▸ hr') hid, hkept.unambiguous,
        fun pub hpub => ?_⟩
      rcases hconfirmed with hold | ⟨v, pub', hparse, hid, hnew⟩
      · exact hkept.confirmed pub (hold ▸ hpub)
      · rw [hnew] at hpub
        rcases List.mem_append.mp hpub with hold | hpub
        · exact hkept.confirmed pub hold
        · rw [List.mem_singleton.mp hpub, hid, hhanded, published_receive, hparse]
          exact ⟨_, List.mem_append_right _ List.mem_cons_self, rfl⟩
  | .broker a =>
    obtain ⟨b, hb, rfl⟩ := Option.map_eq_some_iff.mp hstep
    match a with
    | .publish event raw messageId requestId =>
      obtain ⟨payload, -, rfl⟩ := Messaging.Deployment.publish_cases hb
      exact h.direct hfresh.1 hfresh.2
    | .deliver .. | .perform .. | .overtake .. | .settle _ | .crash _ | .stray .. | .expire _
    | .tick _ =>
      rw [Messaging.Deployment.published_of_step hb fun _ _ _ _ h => nomatch h]
      exact h

end Invariant

/-! ## Runs -/

section Runs

variable {n : ℕ} {s t : FlowState Code} {r : OutboxEvent} {S : Subscription}

theorem one_le_maxAttempts : 1 ≤ (relays D).maxAttempts := D.env.RABBITMQ_OUTBOX_MAX_ATTEMPTS.2

theorem inv_of_reaches {P : Type} {M : Machine P} {ok : FlowState P → FlowAction → Prop}
    {u : FlowState P} (h : Reaches (step D M) ok (.init P n) u) :
    Inv (relays D) (fun _ => False) u.outbox :=
  Outbox.inv_init.run one_le_maxAttempts nofun (outbox_of_reaches h)

theorem linked_of_reaches {ok : FlowState Code → FlowAction → Prop}
    (hok : ∀ u a, ok u a → Fresh u a) (h : Reaches (step D codeMachine) ok (.init Code n) t) :
    Linked D t.outbox t.broker.published := by
  obtain ⟨u, hu, rfl⟩ := reaches_points h
  have hlinked : Linked D u.outbox u.broker.published := by
    refine @Reaches.invariant_under _ _ _ _ _ _ (fun v => Inv (relays D) (fun _ => False) v.outbox)
      (fun v => Linked D v.outbox v.broker.published) hu (fun v hv => inv_of_reaches hv)
      ⟨nofun, nofun, nofun⟩ fun v a w hinv hv ha hstep => ?_
    have hfresh : Fresh v a := by
      have h := hok _ a ha
      match a with
      | .outbox (.enqueue ..) => exact h
      | .broker (.publish ..) => exact h
      | .outbox (.start _) | .outbox (.perform ..) | .outbox (.finish _) | .outbox (.timeout _)
      | .outbox (.crash _) | .outbox (.tick _) | .broker (.deliver ..) | .broker (.perform ..)
      | .broker (.overtake ..) | .broker (.settle _) | .broker (.crash _) | .broker (.stray ..)
      | .broker (.expire _) | .broker (.tick _) =>
        trivial
    exact hv.step hinv hfresh hstep
  exact hlinked

/-- No row leaves the table. -/
theorem remains_of_reaches {o o' : OutboxState} {ok : OutboxState → RelayAction → Prop}
    (hs : Inv (relays D) (fun _ => False) o) (h : Reaches (relays D).step ok o o')
    (hr : r ∈ o.db.rows) : ∃ r' ∈ o'.db.rows, SameEvent r r' := by
  refine @Reaches.invariant_under _ _ _ _ _ _ (Inv (relays D) fun _ => False)
    (fun u => ∃ r' ∈ u.db.rows, SameEvent r r') h (fun u hu => hs.run one_le_maxAttempts nofun hu)
    ⟨r, hr, .refl r⟩ fun u a v hu ⟨r', hr', hsame⟩ _ hstep => ?_
  obtain ⟨r'', hr'', hsame'⟩ := hu.remains hstep hr'
  exact ⟨r'', hr'', hsame.trans hsame'⟩

/-- A row that is published is on the broker, as it has been enqueued. -/
theorem Linked.published (h : Linked D t.outbox t.broker.published)
    (hs : Inv (relays D) (fun _ => False) t.outbox) (hr : r ∈ t.outbox.db.rows)
    (hpublished : r.status = .published) :
    ∃ p ∈ t.broker.published, p.messageId = r.messageId ∧ p.event = r.routingKey ∧
      r.payload = p.payload.toJson := by
  obtain ⟨pub, hpub, hid, -⟩ := (hs.rows r hr).published hpublished
  obtain ⟨p, hp, hid'⟩ := h.confirmed pub hpub
  have hids : r.messageId = p.messageId := Option.some.inj (hid.symm.trans hid')
  obtain ⟨hevent, hparse⟩ := h.origin p hp r hr hids
  obtain ⟨payload, hpayload⟩ := hs.typed r hr
  refine ⟨p, hp, hids.symm, hevent.symm, ?_⟩
  rw [hpayload] at hparse ⊢
  rw [Messaging.eq_of_parseEvent_toJson hparse]

/-- The broker keeps what has reached it, each message under one id. -/
theorem present_of_reaches {ok : FlowState Code → FlowAction → Prop}
    (h : Linked D t.outbox t.broker.published)
    (ht : Reaches (step D codeMachine) ok (.init Code n) t)
    (hevents : ∀ sub ∈ D.subscriptions, HasContract sub.event)
    (hunshared : (D.subscriptions.map Subscription.event).Nodup) {p : Published}
    (hp : p ∈ t.broker.published) (hS : S ∈ D.subscriptions) (hevent : S.event = p.event) :
    Present D S p t.broker ∨ Resolved S p t.broker := by
  have hapart : Apart D.subscriptions S := Apart.of_hasContract
    (fun sub hsub heq => List.inj_on_of_nodup_map hunshared hsub hS heq) hS hevents
  have hbroker : Reaches (D.step codeMachine) (fun _ _ => True) (.init Code) t.broker :=
    broker_of_reaches (fun _ _ _ => trivial) (fun _ _ _ _ _ => trivial) ht
  obtain ⟨b, hkept, hcode⟩ := Messaging.kept_of_reaches_code hapart hevent.symm hbroker
    fun p' hp' hid => h.unambiguous p hp p' hp' hid
  rw [← hcode] at hp ⊢
  exact hkept.present hp

/-- A committed event stays in the outbox, and is pending there, or has failed, or has been
published: then each subscription to it has a copy in its queues, or has handled it. -/
theorem event_not_lost (hevents : ∀ sub ∈ D.subscriptions, HasContract sub.event)
    (hunshared : (D.subscriptions.map Subscription.event).Nodup)
    (hs : Reaches (step D codeMachine) Fresh (.init Code n) s)
    (ht : Reaches (step D codeMachine) Fresh s t) (hr : r ∈ s.outbox.db.rows) :
    ∃ r' ∈ t.outbox.db.rows, SameEvent r r' ∧
      (r'.status = .pending ∨
      (r'.status = .failed ∧ D.env.RABBITMQ_OUTBOX_MAX_ATTEMPTS ≤ r'.attempts) ∨
      (r'.status = .published ∧ ∃ p ∈ t.broker.published,
        p.messageId = r.messageId ∧ p.event = r.routingKey ∧ r.payload = p.payload.toJson ∧
        ∀ S ∈ D.subscriptions, S.event = r.routingKey →
          Present D S p t.broker ∨ Resolved S p t.broker)) := by
  have hreach := hs.trans ht
  have hinv := inv_of_reaches hreach
  have hlinked := linked_of_reaches (fun _ _ h => h) hreach
  obtain ⟨r', hr', hsame⟩ := remains_of_reaches (inv_of_reaches hs) (outbox_of_reaches ht) hr
  refine ⟨r', hr', hsame, ?_⟩
  match hstatus : r'.status with
  | .pending => exact Or.inl rfl
  | .failed => exact Or.inr (Or.inl ⟨rfl, (hinv.rows r' hr').failed.mp hstatus⟩)
  | .published =>
    obtain ⟨p, hp, hid, hevent, hpayload⟩ := hlinked.published hinv hr' hstatus
    refine Or.inr (Or.inr ⟨rfl, p, hp, hid.trans hsame.messageId, hevent.trans hsame.routingKey,
      hsame.payload ▸ hpayload, fun S hS hsub => ?_⟩)
    exact present_of_reaches hlinked hreach hevents hunshared hp hS
      (hsub.trans (hevent.trans hsame.routingKey).symm)

/-! ## A row that is sent twice -/

/-- The subscriptions of the source, in the default environment. -/
def app : Messaging.Deployment := Messaging.defaultDeployment Messaging.SUBSCRIPTIONS

/-- The relay does not hear that its publish has been executed, and publishes the row again. -/
def sentTwice : List RelayAction :=
  .start 0 :: List.replicate 2 (.perform 0 .resolves 0) ++
    [.perform 0 (.unanswered (.error "closed")) 0] ++ List.replicate 2 (.perform 0 .resolves 0) ++
    [.finish 0, .tick 5000, .start 0] ++ List.replicate 5 (.perform 0 .resolves 0)

/-- Both copies are delivered, the second one when the first has been handled. -/
def handledOnce : List Messaging.Action :=
  .deliver 0 notifications "2026-06-06T00:00:00Z" :: resolving 0 5 ++
    [.settle 0, .deliver 1 notifications "2026-06-06T00:00:00Z"] ++ resolving 1 1 ++ [.settle 1]

def sentTwiceRun : List FlowAction :=
  .outbox (.enqueue (Outbox.createdNotification "m1") "1" "" 0) ::
    sentTwice.map .outbox ++ handledOnce.map .broker

theorem event_not_lost_sentTwice : ∃ s t, Reaches (step app codeMachine) Fresh (.init Code 1) s ∧
    Reaches (step app codeMachine) Fresh s t ∧ t.broker.copies.length = 2 ∧
    ∃ r ∈ s.outbox.db.rows, ∃ r' ∈ t.outbox.db.rows, SameEvent r r' ∧
      (r'.status = .pending ∨
      (r'.status = .failed ∧ app.env.RABBITMQ_OUTBOX_MAX_ATTEMPTS ≤ r'.attempts) ∨
      (r'.status = .published ∧ ∃ p ∈ t.broker.published,
        p.messageId = r.messageId ∧ p.event = r.routingKey ∧ r.payload = p.payload.toJson ∧
        ∀ S ∈ app.subscriptions, S.event = r.routingKey →
          Present app S p t.broker ∨ Resolved S p t.broker)) := by
  have hrun : ((Transition.run (step app codeMachine) Fresh (.init Code 1)
      (sentTwiceRun.take 1)).bind fun s =>
        (Transition.run (step app codeMachine) Fresh s (sentTwiceRun.drop 1)).map fun t =>
          decide (s.outbox.db.rows ≠ []) && decide (t.broker.copies.length = 2)) = some true := by
    decide +kernel
  obtain ⟨s, t, hs, ht, htest⟩ := Transition.exists_reaches_of_runs hrun
  obtain ⟨hrows, hlength⟩ := Bool.and_eq_true_iff.mp htest
  obtain ⟨r, hr⟩ := List.exists_mem_of_ne_nil _ (of_decide_eq_true hrows)
  exact ⟨s, t, hs, ht, of_decide_eq_true hlength, r, hr,
    event_not_lost (by decide) (by decide) hs ht hr⟩

/-! ## Handled once -/

/-- New ids, and consumers that process message `m` as `Messaging.Once` needs it: lock holders
finish in time, and no delivery takes the lock of the message once it is marked. -/
def Orderly (D : Messaging.Deployment) (m : String) (s : FlowState Code) (a : FlowAction) : Prop :=
  Fresh s a ∧ match a with
    | .outbox _ => True
    | .broker b => D.holdersFinish codeMachine m s.broker b = true ∧
      D.locksUnmarked codeMachine Messaging.everyone m s.broker b = true

instance (m : String) (s : FlowState Code) (a : FlowAction) : Decidable (Orderly D m s a) :=
  match a with
  | .outbox _ => inferInstanceAs (Decidable (_ ∧ True))
  | .broker _ => inferInstanceAs (Decidable (_ ∧ _ ∧ _))

theorem handedOver_publish {o : OutboxState} {a : RelayAction} {b : Messaging.Action}
    (h : handedOver o a = some b) :
    ∃ event payload messageId requestId, b = .publish event payload messageId requestId := by
  unfold handedOver at h
  split at h
  · split at h
    · exact ⟨_, _, _, _, (Option.some.inj h).symm⟩
    · exact ⟨_, _, _, _, (Option.some.inj h).symm⟩
    · exact nomatch h
  · exact nomatch h

theorem resolutions_of_orderly {m : String} (h : Reaches (step D codeMachine) (Orderly D m)
    (.init Code n) t) : Messaging.resolutions Messaging.everyone m t.broker ≤ 1 := by
  have hbroker : Reaches (D.step codeMachine) (fun u a => D.holdersFinish codeMachine m u a = true ∧
      D.locksUnmarked codeMachine Messaging.everyone m u a = true) (.init Code) t.broker := by
    refine broker_of_reaches (fun u a ha => ha.2) (fun u a b _ hb => ?_) h
    obtain ⟨event, payload, messageId, requestId, rfl⟩ := handedOver_publish hb
    exact ⟨rfl, rfl⟩
  obtain ⟨u, hu, hcode⟩ := Messaging.Deployment.reaches_points hbroker
  have honce := (Messaging.once_of_reaches (fun v a ha => by
    rwa [Messaging.Deployment.holdersFinish_toCode,
      Messaging.Deployment.locksUnmarked_toCode] at ha) hu).2.2.running
  rw [← hcode]
  show Messaging.resolutions Messaging.everyone m u ≤ 1
  omega

/-- However often a row has been put on the broker: once it is published and no copy of it is
left, its handler has resolved exactly once. -/
theorem event_handled_once (hevents : ∀ sub ∈ D.subscriptions, HasContract sub.event)
    (hunshared : (D.subscriptions.map Subscription.event).Nodup)
    (h : Reaches (step D codeMachine) (Orderly D r.messageId) (.init Code n) t)
    (hr : r ∈ t.outbox.db.rows) (hpublished : r.status = .published) (hS : S ∈ D.subscriptions)
    (hevent : S.event = r.routingKey)
    (hgone : ∀ c ∈ t.broker.copies, c.messageId = r.messageId → c.place = .gone) :
    Messaging.resolutions Messaging.everyone r.messageId t.broker = 1 ∧ ∃ payload : EventPayload,
      r.payload = payload.toJson ∧ .resolved ⟨S, r.messageId, payload⟩ ∈ t.broker.log := by
  have hlinked := linked_of_reaches (fun _ _ h => h.1) h
  obtain ⟨p, hp, hid, hpevent, hpayload⟩ :=
    hlinked.published (inv_of_reaches h) hr hpublished
  have hresolved : Resolved S p t.broker := by
    refine (present_of_reaches hlinked h hevents hunshared hp hS
      (hevent.trans hpevent.symm)).resolve_left fun ⟨c, hc, hcid, _, hplace⟩ => ?_
    exact hplace (hgone c hc (hcid.trans hid))
  have hlog : LogEntry.resolved ⟨S, r.messageId, p.payload⟩ ∈ t.broker.log := hid ▸ hresolved
  have hone : 1 ≤ Messaging.resolutions Messaging.everyone r.messageId t.broker :=
    List.countP_pos_iff.mpr ⟨_, hlog, by simp [Messaging.LogEntry.resolves]⟩
  exact ⟨le_antisymm (resolutions_of_orderly h) hone, p.payload, hpayload, hlog⟩

/-- The one row, when it is published. -/
def publishedRow {P : Type} (s : FlowState P) : Option OutboxEvent :=
  match s.outbox.db.rows with
  | [r] => if r.status = .published ∧ r.messageId = "m1" ∧ r.routingKey = "notification.created"
    then some r else none
  | _ => none

def allGone {P : Type} (s : FlowState P) : Bool := s.broker.copies.all fun c =>
  match c.place with
  | .gone => true
  | _ => false

theorem publishedRow_eq_some {P : Type} {s : FlowState P} {r : OutboxEvent}
    (h : publishedRow s = some r) : r ∈ s.outbox.db.rows ∧ r.status = .published ∧
      r.messageId = "m1" ∧ r.routingKey = "notification.created" := by
  unfold publishedRow at h
  split at h
  · rename_i row hrows
    by_cases hrow : row.status = .published ∧ row.messageId = "m1" ∧
        row.routingKey = "notification.created"
    · rw [if_pos hrow] at h
      obtain rfl := Option.some.inj h
      exact ⟨hrows ▸ List.mem_singleton.mpr rfl, hrow⟩
    · rw [if_neg hrow] at h
      exact nomatch h
  · exact nomatch h

theorem event_handled_once_sentTwice : ∃ t, Reaches (step app codeMachine) (Orderly app "m1")
    (.init Code 1) t ∧ t.broker.copies.length = 2 ∧
    Messaging.resolutions Messaging.everyone "m1" t.broker = 1 := by
  have hrun : (Transition.run (step app codeMachine) (Orderly app "m1") (.init Code 1)
      sentTwiceRun).map (fun t => (publishedRow t).isSome && (allGone t &&
        decide (t.broker.copies.length = 2))) = some true := by
    decide +kernel
  obtain ⟨t, ht, htest⟩ := Transition.exists_reaches_of_run hrun
  obtain ⟨hrow, htest⟩ := Bool.and_eq_true_iff.mp htest
  obtain ⟨hgone, hlength⟩ := Bool.and_eq_true_iff.mp htest
  obtain ⟨r, hr⟩ := Option.isSome_iff_exists.mp hrow
  obtain ⟨hmem, hpublished, hid, hkey⟩ := publishedRow_eq_some hr
  refine ⟨t, ht, of_decide_eq_true hlength, hid ▸ ?_⟩
  refine (event_handled_once (by decide) (by decide) (hid ▸ ht) hmem hpublished
    (show notifications ∈ app.subscriptions by decide) hkey.symm fun c hc _ => ?_).1
  have hc' := List.all_eq_true.mp hgone c hc
  split at hc'
  · assumption
  · exact nomatch hc'

/-! ## Handled as enqueued -/

/-- What a handler is called with under the message id of a row is the event of the row, as it has
been enqueued. -/
theorem handled_as_enqueued (hwn : Messaging.WellNamed D.subscriptions)
    (hevents : ∀ sub ∈ D.subscriptions, HasContract sub.event)
    (h : Reaches (step D codeMachine) Fresh (.init Code n) t) (hr : r ∈ t.outbox.db.rows)
    {entry : LogEntry} (hentry : entry ∈ t.broker.log)
    (hid : entry.call.messageId = r.messageId) :
    entry.call.subscription ∈ D.subscriptions ∧
      entry.call.subscription.event = r.routingKey ∧ r.payload = entry.call.payload.toJson := by
  have hlinked := linked_of_reaches (fun _ _ h => h) h
  have hbroker : Reaches (D.step codeMachine) (fun _ _ => True) (.init Code) t.broker :=
    broker_of_reaches (fun _ _ _ => trivial) (fun _ _ _ _ _ => trivial) h
  obtain ⟨sent, hsent⟩ := hbroker.record []
  obtain ⟨s, htraced, hcode⟩ := Messaging.traced_of_reaches_code hwn hevents hsent
  obtain ⟨e, he, hcalled⟩ := htraced.log entry (show entry ∈ (s.toCode D).log from hcode ▸ hentry)
  have hmem : e.toPublished ∈ (s.toCode D).published := htraced.published ▸ List.mem_map_of_mem he
  rw [hcode] at hmem
  obtain ⟨hkey, hparse⟩ := hlinked.origin _ hmem r hr (hid.symm.trans hcalled.messageId)
  obtain ⟨payload, hpayload⟩ := (inv_of_reaches h).typed r hr
  refine ⟨hcalled.subscribed, hcalled.event.trans hkey.symm, ?_⟩
  rw [hpayload] at hparse ⊢
  rw [hcalled.payload, Messaging.eq_of_parseEvent_toJson hparse]

theorem handled_as_enqueued_sentTwice : ∃ t, Reaches (step app codeMachine) Fresh (.init Code 1) t ∧
    ∃ r ∈ t.outbox.db.rows, ∃ entry ∈ t.broker.log, entry.call.messageId = "m1" ∧
      entry.call.subscription ∈ app.subscriptions ∧
      entry.call.subscription.event = r.routingKey ∧ r.payload = entry.call.payload.toJson := by
  have hrun : (Transition.run (step app codeMachine) Fresh (.init Code 1) sentTwiceRun).map
      (fun t => (publishedRow t).isSome && t.broker.log.any fun entry =>
        decide (entry.call.messageId = "m1")) = some true := by
    decide +kernel
  obtain ⟨t, ht, htest⟩ := Transition.exists_reaches_of_run hrun
  obtain ⟨hrow, hlog⟩ := Bool.and_eq_true_iff.mp htest
  obtain ⟨r, hr⟩ := Option.isSome_iff_exists.mp hrow
  obtain ⟨entry, hentry, hcall⟩ := List.any_eq_true.mp hlog
  obtain ⟨hmem, -, hid, -⟩ := publishedRow_eq_some hr
  have hcall : entry.call.messageId = "m1" := of_decide_eq_true hcall
  exact ⟨t, ht, r, hmem, entry, hentry, hcall,
    handled_as_enqueued (by decide) (by decide) ht hmem hentry (hcall.trans hid.symm)⟩

end Runs

end NestFastify.Events
