import Mathlib.Algebra.Order.BigOperators.Group.List
import NestFastify.Messaging.Conservation

/-!
# Invariants of the copies of one message

A step changes one copy and may add others. A property of every copy with a given message id
survives it when the changed copy and the new ones have the property: one rule for each way
the broker moves a message, and one for the calls of a delivery.
-/

namespace NestFastify.Messaging

open Transition (Reaches)

/-- A property of all copies that carry a message id. -/
def EveryCopy (m : String) (Q : Copy Point → Prop) (s : MessagingState Point) : Prop :=
  ∀ c ∈ s.copies, c.messageId = m → Q c

/-- It survives a move that the other copies do not notice. -/
theorem EveryCopy.move {m : String} {Q Q' : Copy Point → Prop} {s s' : MessagingState Point}
    {i : ℕ} {c' : Copy Point} {letters : List Letter} (h : EveryCopy m Q s)
    (hcopies : s'.copies = s.copies.set i c' ++ delivered letters)
    (hother : ∀ c ∈ s.copies, c.messageId = m → Q c → Q' c)
    (hmoved : c'.messageId = m → Q' c')
    (hletters : ∀ l ∈ letters, l.messageId = m → Q' ⟨l, .ready⟩) : EveryCopy m Q' s' := by
  intro x hx hid
  rw [hcopies] at hx
  rcases mem_moved hx with hx | rfl | hletter
  · exact hother x hx hid (h x hx hid)
  · exact hmoved hid
  · obtain ⟨l, hl, rfl⟩ := hletter
    exact hletters l hl hid

namespace EveryCopy

variable {D : Deployment} {S : Subscription} {m : String} {Q Q' : Copy Point → Prop}
  {s s' s₁ : MessagingState Point} {i : ℕ} {l : Letter} {d : Delivery Point} {pl : Place Point}

theorem mono (h : EveryCopy m Q s) (hcopies : s'.copies = s.copies) (hQ : ∀ c, Q c → Q' c) :
    EveryCopy m Q' s' := by
  intro c hc hid
  rw [hcopies] at hc
  exact hQ c (h c hc hid)

theorem place (h : EveryCopy m Q s) (hlocal : l.messageId = m → Q ⟨l, pl⟩) :
    EveryCopy m Q (Deployment.place s i l pl) :=
  h.move (Deployment.place_copies s i l pl) (fun _ _ _ hc => hc) hlocal nofun

theorem deadLetter (h : EveryCopy m Q s)
    (hlocal : l.messageId = m → Q ⟨l, .gone⟩ ∧ ∀ x ∈ D.deadLettered l, Q ⟨x, .ready⟩) :
    EveryCopy m Q (D.deadLetter s i l) := by
  refine h.move (Deployment.deadLetter_copies s i l) (fun _ _ _ hc => hc)
    (fun hid => (hlocal hid).1) fun x hx hid => ?_
  have hmessage : x.message = l.message := Deployment.mem_deadLettered hx
  have hid' : l.messageId = m := by
    rw [← hid]
    show l.message.messageId.getD "" = x.message.messageId.getD ""
    rw [hmessage]
  exact (hlocal hid').2 x hx

/-- A returned message is ready once more, or parked. -/
theorem requeue (hS : Apart D.subscriptions S) (h : EveryCopy m Q s)
    (hwork : l.messageId = m → l.queue = workQueueName S.subscriber S.event)
    (hready : l.messageId = m → l.deliveryCount + 1 ≤ D.deliveryLimit →
      Q ⟨{ l with deliveryCount := l.deliveryCount + 1 }, .ready⟩)
    (hparked : l.messageId = m → D.deliveryLimit < l.deliveryCount + 1 →
      Q ⟨l, .gone⟩ ∧ Q ⟨{ l with
        queue := dlqName S.subscriber S.event, routingKey := S.event, deliveryCount := 0 },
        .ready⟩) :
    EveryCopy m Q (D.requeue s i l) := by
  by_cases hid : l.messageId = m
  · rcases Deployment.requeue_cases hS (s := s) (i := i) (hwork hid) with hback | hover
    · rw [hback.2]
      exact h.place fun _ => hready hid hback.1
    · rw [hover.2]
      refine h.deadLetter fun _ => ⟨(hparked hid hover.1).1, fun x hx => ?_⟩
      rw [Deployment.deadLettered_work hS (hwork hid)] at hx
      rw [List.mem_singleton.mp hx]
      exact (hparked hid hover.1).2
  · rcases Deployment.requeue_eq (D := D) s i l with hback | hover
    · rw [hback]
      exact h.place fun hid' => absurd hid' hid
    · rw [hover]
      exact h.deadLetter fun hid' => absurd hid' hid

/-- A delivery goes on, and a publish of it adds letters. -/
theorem resume {call : ConsumerCall} {outcome : Outcome} {r : Except JsError call.Reply}
    {pt : Point} (h : EveryCopy m Q s) (hi : s.copies[i]? = some ⟨l, .unacked d⟩)
    (hstep : Point.Step (D.context l d) d.code call r pt)
    (hsettled : D.settled s call outcome = some (s₁, r)) (hQ : ∀ c, Q c → Q' c)
    (hlocal : l.messageId = m →
      Q' ⟨{ l with failedRepublishes := Deployment.failedAfter l.failedRepublishes call r },
        .unacked { d with
          code := pt
          lockedAt := Deployment.lockedAfter s₁.now d.lockedAt call r
          republished := Deployment.republishedAfter d.republished call r }⟩)
    (hletters : ∀ q, call = .publish q → l.messageId = m →
      ∀ x ∈ D.routed q, Q' ⟨x, .ready⟩) :
    EveryCopy m Q' (D.resume pointMachine s₁ i l d call r pt) := by
  obtain ⟨-, -, -, letters, hcopies, hpublish⟩ := Deployment.settled_frame hsettled
  refine h.move (Deployment.copies_resume hi hcopies) (fun c _ _ hc => hQ c hc) hlocal ?_
  intro x hx hid
  rcases hpublish with hnil | hpublish
  · rw [hnil] at hx
    exact absurd hx List.not_mem_nil
  · obtain ⟨q, rfl, rfl⟩ := hpublish
    have hmessageId : x.message.messageId = l.message.messageId := by
      rw [Deployment.mem_routed hx]
      exact Deployment.messageId_of_step hstep
    refine hletters q rfl ?_ x hx
    rw [← hid]
    show l.message.messageId.getD "" = x.message.messageId.getD ""
    rw [hmessageId]

/-- What comes late is added to the copies. -/
theorem stray {j : ℕ} {arrives : Bool} (h : EveryCopy m Q s)
    (hstep : D.stray s j arrives = some s')
    (hletters : ∀ x ∈ s.strays, ∀ y ∈ D.routed x.publication, y.messageId = m → Q ⟨y, .ready⟩) :
    EveryCopy m Q s' := by
  obtain ⟨x, letters, hx, hcases, rfl⟩ := Deployment.stray_cases hstep
  intro c hc hid
  rcases List.mem_append.mp hc with hold | hnew
  · exact h c hold hid
  · obtain ⟨y, hy, rfl⟩ := List.mem_map.mp hnew
    rcases hcases with rfl | rfl
    · exact absurd hy List.not_mem_nil
    · exact hletters x (List.mem_of_getElem? hx) y hy hid

end EveryCopy

/-! ## Totals over the copies -/

/-- Replacing one element changes a sum by the difference of the two. -/
theorem sum_map_set {α : Type} (f : α → ℕ) {xs : List α} {i : ℕ} {a b : α} (hi : xs[i]? = some a) :
    ((xs.set i b).map f).sum + f a = (xs.map f).sum + f b := by
  induction xs generalizing i with
  | nil => simp at hi
  | cons x xs ih =>
    match i with
    | 0 =>
      have hx : x = a := by simpa using hi
      simp only [List.set_cons_zero, List.map_cons, List.sum_cons, hx]
      omega
    | i + 1 =>
      have htail := ih (i := i) (by simpa using hi)
      simp only [List.set_cons_succ, List.map_cons, List.sum_cons]
      omega

/-- The sum of a measure over all copies. -/
def total (f : Copy Point → ℕ) (s : MessagingState Point) : ℕ := (s.copies.map f).sum

/-- A move changes the total by what the changed copy and the new letters measure. -/
theorem total_moved {s s' : MessagingState Point} {i : ℕ} {c c' : Copy Point}
    {letters : List Letter} (f : Copy Point → ℕ) (hi : s.copies[i]? = some c)
    (hcopies : s'.copies = s.copies.set i c' ++ delivered letters) :
    total f s' + f c = total f s + f c' + ((delivered letters).map f).sum := by
  have hset := sum_map_set (b := c') f hi
  unfold total
  rw [hcopies, List.map_append, List.sum_append]
  omega

/-- A move keeps the total down if the changed copy pays for itself, for the new letters and
for `k` more. -/
theorem total_move {f : Copy Point → ℕ} {s s' : MessagingState Point} {i k : ℕ}
    {c c' : Copy Point} {letters : List Letter} (hi : s.copies[i]? = some c)
    (hcopies : s'.copies = s.copies.set i c' ++ delivered letters)
    (hpays : f c' + ((delivered letters).map f).sum + k ≤ f c) :
    total f s' + k ≤ total f s := by
  have htotal := total_moved f hi hcopies
  omega

theorem le_total {s : MessagingState Point} {c : Copy Point} (f : Copy Point → ℕ)
    (hc : c ∈ s.copies) : f c ≤ total f s :=
  List.single_le_sum (fun _ _ => Nat.zero_le _) _ (List.mem_map_of_mem hc)

/-! ## Where a message enters -/

/-- A message as it is first put into the work queue of `S`. -/
structure Letter.Fresh (S : Subscription) (l : Letter) : Prop where
  queue : l.queue = workQueueName S.subscriber S.event
  attempt : l.message.attempt = 0
  deliveryCount : l.deliveryCount = 0

section Publish

variable {D : Deployment} {S : Subscription} {p : Published} {s s' : MessagingState Point}
  {event : String} {raw : Json} {messageId : String} {requestId : Option String}

/-- Publishing a message puts one letter with its id into the work queue of `S`; publishing
another one puts none. -/
theorem publish_own (hS : Apart D.subscriptions S) (hevent : p.event = S.event)
    (hstep : D.publish s event raw messageId requestId = some s') (hids : Unambiguous p s') :
    ∃ letters, s'.copies = s.copies ++ delivered letters ∧
      ((messageId = p.messageId ∧ ∃ x, letters = [x] ∧ x.messageId = p.messageId ∧ x.Fresh S) ∨
        (messageId ≠ p.messageId ∧ ∀ x ∈ letters, x.messageId ≠ p.messageId)) := by
  obtain ⟨payload, -, rfl⟩ := Deployment.publish_cases hstep
  refine ⟨_, rfl, ?_⟩
  by_cases hid : messageId = p.messageId
  · have hp : (⟨messageId, event, payload⟩ : Published) = p :=
      hids _ (List.mem_append_right _ (List.mem_singleton.mpr rfl)) hid
    have hevent' : event = S.event := by rw [← hevent, ← hp]
    subst hevent'
    exact Or.inl ⟨hid, _, Deployment.routed_event hS _ _ _, hid, ⟨rfl, rfl, rfl⟩⟩
  · refine Or.inr ⟨hid, fun x hx hxid => hid ?_⟩
    have hmessage := Deployment.mem_routed hx
    rw [← hxid]
    show messageId = x.message.messageId.getD ""
    rw [hmessage]
    rfl

theorem EveryCopy.publish {Q : Copy Point → Prop} (hS : Apart D.subscriptions S)
    (hevent : p.event = S.event) (h : EveryCopy p.messageId Q s)
    (hstep : D.publish s event raw messageId requestId = some s') (hids : Unambiguous p s')
    (hfresh : ∀ l : Letter, l.Fresh S → Q ⟨l, .ready⟩) : EveryCopy p.messageId Q s' := by
  obtain ⟨letters, hcopies, hletters⟩ := publish_own hS hevent hstep hids
  intro c hc hid
  rw [hcopies] at hc
  rcases List.mem_append.mp hc with hold | hnew
  · exact h c hold hid
  · obtain ⟨x, hx, rfl⟩ := List.mem_map.mp hnew
    rcases hletters with hown | hother
    · obtain ⟨-, y, rfl, -, hy⟩ := hown
      rw [List.mem_singleton.mp hx]
      exact hfresh y hy
    · exact absurd hid (hother.2 x hx)

end Publish

/-! ## Where a message is handled and where it expires -/

section Places

variable {D : Deployment} {S : Subscription} {p : Published} {s s' : MessagingState Point}
  {i : ℕ} {l : Letter}

/-- A message of `S` is delivered from the work queue only, and to `S`. -/
theorem Kept.delivered_from (hS : Apart D.subscriptions S) (h : Kept D S p s) {sub : Subscription}
    (hi : s.copies[i]? = some ⟨l, .ready⟩) (hsub : sub ∈ D.subscriptions)
    (hqueue : l.queue = workQueueName sub.subscriber sub.event)
    (hid : l.messageId = p.messageId) :
    l.queue = workQueueName S.subscriber S.event ∧ sub = S := by
  have hhome : Home D S l.queue := (h.fits _ (List.mem_of_getElem? hi) hid).belongs.home
  have hwork : l.queue = workQueueName S.subscriber S.event := by
    rcases hhome with hwork | hretry | hdlq
    · exact hwork
    · obtain ⟨tier, -, hretry⟩ := hretry
      exact absurd (hqueue.symm.trans hretry) workQueueName_ne_retryQueueName
    · exact absurd (hqueue.symm.trans hdlq) workQueueName_ne_dlqName
  exact ⟨hwork, hS.eq_of_workQueueName hsub (hqueue.symm.trans hwork)⟩

/-- A message of `S` expires in a retry queue only, and goes back to the work queue. -/
theorem Kept.expires_from (hS : Apart D.subscriptions S) (h : Kept D S p s)
    (hi : s.copies[i]? = some ⟨l, .ready⟩)
    (httl : ((D.topology.queue? l.queue).bind (·.arguments.messageTtl)).isSome = true)
    (hid : l.messageId = p.messageId) :
    ∃ tier, l.queue = retryQueueName S.subscriber S.event tier ∧
      D.deadLettered l = [{ l with
        queue := workQueueName S.subscriber S.event, routingKey := S.event, deliveryCount := 0 }] := by
  have hhome : Home D S l.queue := (h.fits _ (List.mem_of_getElem? hi) hid).belongs.home
  rcases hhome with hwork | hretry | hdlq
  · rw [hwork, Deployment.messageTtl_work hS] at httl
    exact absurd httl Bool.false_ne_true
  · obtain ⟨tier, htier, hretry⟩ := hretry
    exact ⟨tier, hretry, Deployment.deadLettered_retry hS htier hretry⟩
  · rw [hdlq, Deployment.messageTtl_dlq hS] at httl
    exact absurd httl Bool.false_ne_true

end Places

end NestFastify.Messaging
