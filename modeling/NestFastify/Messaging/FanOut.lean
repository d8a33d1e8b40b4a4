import NestFastify.Messaging.Conservation
import NestFastify.Messaging.FailurePaths

/-!
# One event, several subscribers

The done marker and the processing lock of a message carry only its message id. In runs
without failures an event with one subscriber is processed by it; with two subscribers the
first one to finish makes the other ack its copy unprocessed.
-/

namespace NestFastify.Messaging

open Transition (Reaches)

/-- No call of a delivery rejects. -/
def Action.infallible : Action → Bool
  | .perform _ (.rejects ..) => false
  | .overtake _ (.rejects ..) => false
  | _ => true

/-- Once all copies of the message are acked, every subscriber of its event has processed it. -/
def Served (D : Deployment) (p : Published) (t : MessagingState Code) : Prop :=
  (∀ c ∈ t.copies, c.messageId = p.messageId → c.place = .gone) →
    ∀ sub ∈ D.subscriptions, sub.event = p.event → Resolved sub p t

/-- A delivery of the message is acked only after its own handler has resolved. -/
def NoneSkipped (p : Published) (t : MessagingState Code) : Prop :=
  ∀ c ∈ t.copies, c.messageId = p.messageId → ∀ d, c.place = .unacked d →
    d.code = Async.resolve none → Resolved d.subscription p t

section Sole

variable {D : Deployment} {S : Subscription} {p : Published} {s s' : MessagingState Point}

/-- Where a delivery can be in a run without failures. -/
def Unfailed : Point → Prop
  | .reject _ => False
  | .republish .. => False
  | .confirm .. => False
  | _ => True

/-- No delivery of the message publishes anything. -/
def Plain (p : Published) (s : MessagingState Point) : Prop :=
  ∀ c ∈ s.copies, c.messageId = p.messageId → ∀ d, c.place = .unacked d →
    d.republished = false ∧ Unfailed d.code

theorem Plain.move {i : ℕ} {c' : Copy Point} {letters : List Letter} (h : Plain p s)
    (hcopies : s'.copies = s.copies.set i c' ++ delivered letters)
    (hlocal : c'.messageId = p.messageId → ∀ d, c'.place = .unacked d →
      d.republished = false ∧ Unfailed d.code) : Plain p s' := by
  intro x hx hid d hd
  rw [hcopies] at hx
  rcases mem_moved hx with hx | rfl | hletter
  · exact h x hx hid d hd
  · exact hlocal hid d hd
  · obtain ⟨l, -, rfl⟩ := hletter
    cases hd

theorem Plain.idle {i : ℕ} {l : Letter} {pl : Place Point} {letters : List Letter}
    (h : Plain p s) (hcopies : s'.copies = s.copies.set i ⟨l, pl⟩ ++ delivered letters)
    (hpl : pl = .ready ∨ pl = .gone) : Plain p s' := by
  refine h.move hcopies fun _ d hd => ?_
  rcases hpl with rfl | rfl
  · cases hd
  · cases hd

theorem Plain.requeue (h : Plain p s) (i : ℕ) (l : Letter) : Plain p (D.requeue s i l) := by
  rcases Deployment.requeue_eq (D := D) s i l with heq | heq
  · rw [heq]
    exact h.idle (Deployment.place_copies s i _ .ready) (Or.inl rfl)
  · rw [heq]
    exact h.idle (Deployment.deadLetter_copies s i l) (Or.inr rfl)

/-- A delivery of the message that makes its next call without a failure stays clear of the
retry queue and the DLQ. -/
theorem Unfailed.step {l : Letter} {d : Delivery Point} {call : ConsumerCall}
    {r : Except JsError call.Reply} {pt : Point} {s₁ : MessagingState Point}
    (hstep : Point.Step (D.context l d) d.code call r pt)
    (hsettled : D.settled s call .resolves = some (s₁, r)) (hsub : d.subscription = S)
    (hbelongs : Belongs D S p l) (h : d.republished = false ∧ Unfailed d.code) :
    Deployment.republishedAfter d.republished call r = false ∧ Unfailed pt := by
  obtain ⟨hrepublished, hpoint⟩ := h
  have httl : 0 < (D.context l d).consumer.idempotencyTtl := D.env.RABBITMQ_IDEMPOTENCY_TTL.pos
  -- what rejects rejects at a call, and no call of the run rejects
  cases hcode : d.code with
  | get =>
    rw [hcode] at hstep
    cases hstep with
    | get_invalid v hv paths message hparse =>
      have hparse' : parseEvent D.z d.subscription.event l.message.content =
          .error (.zodError paths message) := hparse
      rw [hsub, hbelongs.parses] at hparse'
      cases hparse'
    | get_hit | get_miss | get_broken | get_fail => exact ⟨hrepublished, trivial⟩
  | reject reason =>
    rw [hcode] at hpoint
    exact hpoint.elim
  | acquire payload =>
    rw [hcode] at hstep
    cases hstep with
    | acquire_ok | acquire_held | acquire_fail => exact ⟨hrepublished, trivial⟩
  | fn payload lock =>
    rw [hcode] at hstep
    cases hstep with
    | fn_ok => exact ⟨hrepublished, trivial⟩
    | fn_fail payload lock e =>
      rcases Deployment.settled_cases hsettled with hok | hrej
      · cases hok.2
      · obtain ⟨e, -, hno | heffect⟩ := hrej
        · cases hno.1
        · cases heffect.1
  | mark payload lock =>
    rw [hcode] at hstep
    cases hstep with
    | mark_ok => exact ⟨hrepublished, trivial⟩
    | mark_fail payload lock e =>
      rcases Deployment.settled_cacheSet httl hsettled with hok | hrej
      · cases hok.1
      · obtain ⟨e, effect, hout, -⟩ := hrej
        cases hout
  | republish | confirm =>
    rw [hcode] at hpoint
    exact hpoint.elim
  | release lock result =>
    rw [hcode] at hstep
    cases hstep with
    | release_ok | release_fail => exact ⟨hrepublished, trivial⟩
  | done result =>
    rw [hcode] at hstep
    cases hstep

theorem Plain.step (hne : p.messageId ≠ "") (hkept : Kept D S p s) (h : Plain p s) {a : Action}
    (ha : a.infallible = true) (hstep : D.step pointMachine s a = some s') : Plain p s' := by
  match a with
  | .publish event raw messageId requestId =>
    obtain ⟨payload, -, rfl⟩ := Deployment.publish_cases hstep
    intro c hc hid d hd
    rcases List.mem_append.mp hc with hc | hc
    · exact h c hc hid d hd
    · obtain ⟨l, -, rfl⟩ := List.mem_map.mp hc
      cases hd
  | .deliver i sub now =>
    obtain ⟨l, -, -, -, rfl⟩ := Deployment.deliver_cases hstep
    refine h.move (Deployment.place_copies s i l _) fun hid d hd => ?_
    cases hd
    -- with an id the delivery starts at the marker
    have hstart : Context.start ⟨D.z, D.consumer, sub, l.message, now⟩ = .get :=
      if_neg fun hempty => hne (hid.symm.trans hempty)
    rw [hstart]
    exact ⟨rfl, trivial⟩
  | .perform _ .resolves | .overtake _ .resolves =>
    obtain ⟨l, d, call, r, pt, s₁, left, hi, hmove, hsettled, rfl, -⟩ :=
      Deployment.call_cases rfl hstep
    obtain ⟨-, -, -, letters, hletters, -⟩ := Deployment.settled_frame hsettled
    refine h.move (Deployment.copies_resume (D := D) hi hletters) fun hid d' hd' => ?_
    cases hd'
    have hmem := List.mem_of_getElem? hi
    have hfits := hkept.fits _ hmem hid
    obtain ⟨-, hsub, -⟩ := hfits.running d rfl
    exact Unfailed.step hmove hsettled hsub hfits.belongs (h _ hmem hid d rfl)
  | .perform _ (.rejects ..) | .overtake _ (.rejects ..) => cases ha
  | .settle i =>
    obtain ⟨l, d, result, -, -, hack | hreject | hreturn⟩ := Deployment.settle_cases hstep
    · obtain ⟨-, rfl⟩ := hack
      exact h.idle (Deployment.place_copies s i l .gone) (Or.inr rfl)
    · obtain ⟨-, rfl⟩ := hreject
      exact h.idle (Deployment.deadLetter_copies s i l) (Or.inr rfl)
    · obtain ⟨-, rfl⟩ := hreturn
      exact h.requeue i l
  | .crash i =>
    obtain ⟨l, d, left, -, rfl, -⟩ := Deployment.crash_cases hstep
    have hback : Plain p (D.requeue s i { l with crashes := l.crashes + 1 }) := h.requeue i _
    exact hback
  | .stray j arrives =>
    obtain ⟨x, letters, -, -, rfl⟩ := Deployment.stray_cases hstep
    intro c hc hid d hd
    rcases List.mem_append.mp hc with hc | hc
    · exact h c hc hid d hd
    · obtain ⟨l, -, rfl⟩ := List.mem_map.mp hc
      cases hd
  | .expire i =>
    obtain ⟨l, -, -, rfl⟩ := Deployment.expire_cases hstep
    exact h.idle (Deployment.deadLetter_copies s i l) (Or.inr rfl)
  | .tick ms =>
    cases hstep
    exact h

theorem plain_of_reaches (hS : Apart D.subscriptions S) (hevent : p.event = S.event)
    (hne : p.messageId ≠ "") {ok : MessagingState Point → Action → Prop}
    (hok : ∀ u a, ok u a → a.infallible = true)
    (h : Reaches (D.step pointMachine) ok (.init Point) s) (hids : Unambiguous p s) :
    Plain p s := by
  induction h with
  | refl => exact fun c hc => absurd hc List.not_mem_nil
  | tail hu hnext ih =>
    obtain ⟨a, ha, hstep⟩ := hnext
    have hids' : Unambiguous p _ := fun p' hp' => hids p' (Deployment.published_subset hstep hp')
    exact (ih hids').step hne (kept_of_reaches hS hevent hu hids') (hok _ a ha) hstep

end Sole

section Runs

variable {D : Deployment} {S : Subscription} {p : Published} {t : MessagingState Code}

/-- A suspended `handle` that has resolved to an ack is at its end. -/
theorem done_of_program {c : Context} {pt : Point} (h : pt.program c = Async.resolve none) :
    pt = .done (.ok none) := by
  have hview := Point.view_program (c := c) pt
  rw [h] at hview
  match pt with
  | .done (.ok none) => rfl
  | .done (.ok (some nack)) => cases hview
  | .done (.error e) => cases hview
  | .get | .reject _ | .acquire _ | .fn _ _ | .mark _ _ | .republish _ _ _ | .release _ _
  | .confirm _ _ => cases hview

/-- In runs without failures every message of an event with one subscriber is processed by
it, and no delivery of it is acked before. -/
theorem served_of_sole (hevents : ∀ sub ∈ D.subscriptions, HasContract sub.event)
    (hS : S ∈ D.subscriptions)
    (hsole : ∀ sub ∈ D.subscriptions, sub.event = S.event → sub = S)
    (h : Reaches (D.step codeMachine) (fun _ a => a.infallible = true) (.init Code) t)
    (hp : p ∈ t.published) (hids : Unambiguous p t) (hevent : p.event = S.event) :
    Served D p t ∧ (p.messageId ≠ "" → NoneSkipped p t) := by
  have hapart := Apart.of_hasContract hsole hS hevents
  obtain ⟨s, hs, rfl⟩ := Deployment.reaches_points h
  have hkept := kept_of_reaches hapart hevent hs hids
  constructor
  · intro hacked sub hsub hsubEvent
    rw [hsole sub hsub (hsubEvent.trans hevent)]
    rcases hkept.present hp with hpresent | hres
    · obtain ⟨c, hc, hid, -, hlive⟩ := hpresent
      exact absurd (hacked c hc hid) hlive
    · exact hres
  · intro hne c hc hid d hd hack
    have hplain := plain_of_reaches hapart hevent hne (fun u a ha => ha) hs hids
    obtain ⟨x, hx, rfl⟩ := List.mem_map.mp hc
    obtain ⟨d', hplace, rfl⟩ := Place.toCode_eq_unacked D hd
    have hdone := done_of_program hack
    obtain ⟨-, hsub, hok⟩ := (hkept.fits x hx hid).running d' hplace
    rw [hdone, (hplain x hx hid d' hplace).1] at hok
    rcases hok with hrepublished | hres
    · cases hrepublished
    · show Resolved d'.subscription p s
      rw [hsub]
      exact hres

end Runs

/-! ## One subscriber or two -/

/-- The message of a registration. -/
def registration : Published where
  messageId := "m1"
  event := "user.registered"
  payload := .userRegistered "7d9e4c1a-0000-4000-8000-000000000000" "a@b.com" none

def isGone {P : Type} (c : Copy P) : Bool :=
  match c.place with
  | .gone => true
  | _ => false

/-- With the subscriptions of the repository a registration is processed and acked. -/
theorem served_of_sole_mail :
    ∃ t, Reaches ((defaultDeployment SUBSCRIPTIONS).step codeMachine)
        (fun _ a => a.infallible = true) (.init Code) t ∧ registration ∈ t.published ∧
      Served (defaultDeployment SUBSCRIPTIONS) registration t := by
  have hrun : (Transition.run ((defaultDeployment SUBSCRIPTIONS).step codeMachine)
      (fun _ a => a.infallible = true) (.init Code)
      ([registration.action, .deliver 0 mail "2026-06-06T00:00:00Z"] ++ resolving 0 5 ++
        [.settle 0])).map (fun t => decide (t.published = [registration])) = some true := by
    decide +kernel
  obtain ⟨t, ht, hpub⟩ := Transition.exists_reaches_of_run hrun
  have hpub' : t.published = [registration] := of_decide_eq_true hpub
  have hmem : registration ∈ t.published := by
    rw [hpub']
    exact List.mem_singleton.mpr rfl
  have hids : Unambiguous registration t := by
    intro p hp _
    rw [hpub'] at hp
    exact List.mem_singleton.mp hp
  have hserved := served_of_sole (S := mail) (by decide) (by decide) (by decide) ht hmem hids rfl
  exact ⟨t, ht, hmem, hserved.1⟩

/-- With a second subscriber of the event, nothing fails and every delivery is acked, but the
second handler is never called. -/
theorem not_served_sharedSubscriptions :
    ∃ t, Reaches ((defaultDeployment sharedSubscriptions).step codeMachine)
        (fun _ a => a.infallible = true) (.init Code) t ∧ registration ∈ t.published ∧
      (∀ c ∈ t.copies, c.place = .gone) ∧
      t.log = [.started ⟨mail, "m1", registration.payload⟩,
        .resolved ⟨mail, "m1", registration.payload⟩] ∧
      ¬ Served (defaultDeployment sharedSubscriptions) registration t := by
  have hrun : (Transition.run ((defaultDeployment sharedSubscriptions).step codeMachine)
      (fun _ a => a.infallible = true) (.init Code)
      ([registration.action, .deliver 0 mail "2026-06-06T00:00:00Z"] ++ resolving 0 5 ++
        [.settle 0, .deliver 1 ⟨"analytics", "user.registered"⟩ "2026-06-06T00:00:00Z"] ++
        resolving 1 1 ++ [.settle 1])).map
      (fun t => decide (t.published = [registration]) && t.copies.all isGone &&
        decide (t.log = [.started ⟨mail, "m1", registration.payload⟩,
          .resolved ⟨mail, "m1", registration.payload⟩])) = some true := by
    decide +kernel
  obtain ⟨t, ht, htest⟩ := Transition.exists_reaches_of_run hrun
  simp only [Bool.and_eq_true, decide_eq_true_eq, List.all_eq_true] at htest
  obtain ⟨⟨hpub, hall⟩, hlog⟩ := htest
  have hgone : ∀ c ∈ t.copies, c.place = .gone := by
    intro c hc
    have hisGone := hall c hc
    unfold isGone at hisGone
    match hplace : c.place with
    | .gone => rfl
    | .ready =>
      rw [hplace] at hisGone
      cases hisGone
    | .unacked d =>
      rw [hplace] at hisGone
      cases hisGone
  refine ⟨t, ht, by simp [hpub], hgone, hlog, fun hserved => ?_⟩
  have hres := hserved (fun c hc _ => hgone c hc) ⟨"analytics", "user.registered"⟩
    (by decide) rfl
  unfold Resolved at hres
  rw [hlog] at hres
  exact absurd hres (by decide)

end NestFastify.Messaging
