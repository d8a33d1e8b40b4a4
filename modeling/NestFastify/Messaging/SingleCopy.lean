import NestFastify.Messaging.EveryCopy

/-!
# One copy at a time

A delivery publishes the retry or DLQ copy of its message first and acks the original after.
Between the two the message is there twice, but the original is only waiting for its ack: at
most one copy is pending, and every start of the handler uses up one of its attempts. The
proof weighs each pending copy by the starts it can still lead to.
-/

namespace NestFastify.Messaging

open Transition (Reaches)

/-! ## What is claimed -/

instance {P : Type} : DecidablePred (Pending (P := P))
  | .ready => isTrue trivial
  | .unacked d => inferInstanceAs (Decidable (d.republished = false))
  | .gone => isFalse id

/-- The copies of a message that are ready, parked, or being handled without having published
another copy. -/
def pendingCopies {P : Type} (m : String) (s : MessagingState P) : ℕ :=
  s.copies.countP fun c => decide (c.messageId = m ∧ Pending c.place)

def LogEntry.startsOf (m : String) : LogEntry → Bool
  | started call => call.messageId = m
  | _ => false

/-- The copies of a message that have not been acked or moved on, whatever their delivery has
done. -/
def liveCopies {P : Type} (m : String) (s : MessagingState P) : ℕ :=
  s.copies.countP fun c => decide (c.messageId = m) &&
    match c.place with
    | .gone => false
    | _ => true

/-- How often a handler has been started for a message. -/
def starts {P : Type} (m : String) (s : MessagingState P) : ℕ := s.log.countP (LogEntry.startsOf m)

/-- A delivery that has published a copy of the message is not returned. -/
def NotReturned (m : String) (s : MessagingState Code) : Prop :=
  ∀ c ∈ s.copies, c.messageId = m → ∀ d, c.place = .unacked d → d.republished = true →
    ∀ result, d.code.view = .settled result → result = .ok none

namespace Deployment

variable {P : Type} (D : Deployment) (M : Machine P) (s : MessagingState P)

/-- The step is not a crash, and no publish that has enqueued its message and rejects. -/
def nothingEnqueued : Action → Bool
  | .crash _ => false
  | .perform i (.rejects _ true) =>
    match D.callOf M s i with
    | some (.publish _) => false
    | _ => true
  | _ => true

/-- No release rejects in a delivery that gets its copy onto the broker: none after the publish
has settled, and no publish arrives whose release has rejected while it was under way. -/
def releasesRepublished : Action → Bool
  | .perform i (.rejects ..) =>
    match D.callOf M s i, delivery? s i with
    | some (.release _), some (_, d) => !d.republished
    | _, _ => true
  | .stray _ arrives => !arrives
  | _ => true

end Deployment

/-! ## Weights -/

/-- The starts of the handler that a delivery at this point has used up. -/
def Point.spent : Point → ℕ
  | get => 0
  | reject _ => 0
  | acquire _ => 0
  | _ => 1

/-- One, where the handler is about to run. -/
def Point.starting : Point → ℕ
  | fn .. => 1
  | _ => 0

def Place.spent : Place Point → ℕ
  | unacked d => d.code.spent
  | _ => 0

section Weights

variable (D : Deployment) (S : Subscription) (p : Published)

/-- The starts that attempts from the one of the letter on can have. -/
def allowance (l : Letter) : ℕ :=
  (D.consumer.maxRetries + 1 - l.message.attempt) * (D.deliveryLimit + 1)

/-- The starts that a pending copy can still lead to. -/
def remaining (c : Copy Point) : ℕ :=
  if c.queue = workQueueName S.subscriber S.event then
    allowance D c.toLetter - (c.deliveryCount + c.place.spent)
  else if c.queue = dlqName S.subscriber S.event then 0
  else allowance D c.toLetter

/-- A measure of the pending copies of the message. -/
def weigh (g : Copy Point → ℕ) (c : Copy Point) : ℕ :=
  if c.messageId = p.messageId ∧ Pending c.place then g c else 0

/-- A copy outside the DLQ has an attempt and a return left; a delivery that has published a
copy is on its way to the ack. -/
structure Steady (c : Copy Point) : Prop where
  left : c.queue ≠ dlqName S.subscriber S.event →
    c.message.attempt ≤ D.consumer.maxRetries ∧ c.deliveryCount ≤ D.deliveryLimit
  closing : ∀ d, c.place = .unacked d → d.republished = true →
    (∃ lock, d.code = .release lock none) ∨ d.code = .done (.ok none)

/-- No pending copy and no start comes from nothing. -/
structure Conserves (s s' : MessagingState Point) : Prop where
  pending : total (weigh p fun _ => 1) s' ≤ total (weigh p fun _ => 1) s
  paid : starts p.messageId s' + total (weigh p (remaining D S)) s' ≤
    starts p.messageId s + total (weigh p (remaining D S)) s

end Weights

section Steps

variable {D : Deployment} {S : Subscription} {p : Published} {s s' s₁ : MessagingState Point}
  {i k : ℕ} {c c' : Copy Point} {l : Letter} {d : Delivery Point} {letters : List Letter}
  {g : Copy Point → ℕ}

/-- Copies of other messages weigh nothing. -/
theorem weigh_other (hid : c.messageId ≠ p.messageId) : weigh p g c = 0 :=
  if_neg fun h => hid h.1

theorem weigh_pending (hid : c.messageId = p.messageId) (hplace : Pending c.place) :
    weigh p g c = g c := if_pos ⟨hid, hplace⟩

/-- Copies that are not pending weigh nothing. -/
theorem weigh_not_pending (hplace : ¬ Pending c.place) : weigh p g c = 0 :=
  if_neg fun h => hplace h.2

theorem weigh_le (c : Copy Point) : weigh p g c ≤ g c := by
  unfold weigh
  split
  · exact Nat.le_refl _
  · exact Nat.zero_le _

theorem remaining_work (hqueue : c.queue = workQueueName S.subscriber S.event) :
    remaining D S c = allowance D c.toLetter - (c.deliveryCount + c.place.spent) := if_pos hqueue

/-- A parked message has no start left. -/
theorem remaining_dlq (hqueue : c.queue = dlqName S.subscriber S.event) : remaining D S c = 0 := by
  unfold remaining
  rw [if_neg fun hwork => workQueueName_ne_dlqName (hwork.symm.trans hqueue), if_pos hqueue]

/-- A message in a retry queue has all the starts of the attempts left. -/
theorem remaining_retry {tier : ℕ} (hqueue : c.queue = retryQueueName S.subscriber S.event tier) :
    remaining D S c = allowance D c.toLetter := by
  unfold remaining
  rw [if_neg fun hwork => workQueueName_ne_retryQueueName (hwork.symm.trans hqueue),
    if_neg fun hdlq => dlqName_ne_retryQueueName (hdlq.symm.trans hqueue)]

/-- An attempt that is left has one start more than it has returns. -/
theorem allowance_eq (hattempt : l.message.attempt ≤ D.consumer.maxRetries) :
    allowance D l = (D.consumer.maxRetries - l.message.attempt) * (D.deliveryLimit + 1) +
      (D.deliveryLimit + 1) := by
  unfold allowance
  rw [Nat.sub_add_comm hattempt, Nat.succ_mul]

/-- A move in which the changed copy pays for the new letters and for the starts. -/
theorem Conserves.move (hi : s.copies[i]? = some c)
    (hcopies : s'.copies = s.copies.set i c' ++ delivered letters)
    (hid : c'.messageId = c.messageId) (hletters : ∀ l ∈ letters, l.messageId = c.messageId)
    (hstarts : starts p.messageId s' =
      starts p.messageId s + if c.messageId = p.messageId then k else 0)
    (hlocal : c.messageId = p.messageId →
      weigh p (fun _ => 1) c' + ((delivered letters).map (weigh p fun _ => 1)).sum ≤
        weigh p (fun _ => 1) c ∧
      weigh p (remaining D S) c' + ((delivered letters).map (weigh p (remaining D S))).sum + k ≤
        weigh p (remaining D S) c) :
    Conserves D S p s s' := by
  by_cases hown : c.messageId = p.messageId
  · obtain ⟨hpending, hremaining⟩ := hlocal hown
    rw [if_pos hown] at hstarts
    have htotal := total_move hi hcopies hremaining
    constructor
    · exact total_move (k := 0) hi hcopies hpending
    · omega
  -- the copies of another message weigh nothing
  · rw [if_neg hown] at hstarts
    have hzero : ∀ g, weigh p g c' + ((delivered letters).map (weigh p g)).sum + 0 ≤
        weigh p g c := by
      intro g
      have hsum : ((delivered letters).map (weigh p g)).sum = 0 := by
        apply List.sum_eq_zero
        intro w hw
        obtain ⟨x, hx, rfl⟩ := List.mem_map.mp hw
        obtain ⟨y, hy, rfl⟩ := List.mem_map.mp hx
        exact weigh_other fun h => hown ((hletters y hy).symm.trans h)
      rw [hsum, weigh_other fun h => hown (hid.symm.trans h)]
      omega
    constructor
    · exact total_move hi hcopies (hzero _)
    · have htotal := total_move hi hcopies (hzero (remaining D S))
      omega

/-- The copy stays, and what it can still lead to goes down by the starts. -/
theorem Conserves.stay (hi : s.copies[i]? = some c)
    (hcopies : s'.copies = s.copies.set i c' ++ delivered []) (hid : c'.messageId = c.messageId)
    (hstarts : starts p.messageId s' =
      starts p.messageId s + if c.messageId = p.messageId then k else 0)
    (hpending : c.messageId = p.messageId → Pending c'.place →
      Pending c.place ∧ remaining D S c' + k ≤ remaining D S c)
    (hclosed : c.messageId = p.messageId → ¬ Pending c'.place → k = 0) :
    Conserves D S p s s' := by
  apply Conserves.move (k := k) hi hcopies hid (fun x hx => absurd hx List.not_mem_nil) hstarts
  intro hown
  show weigh p (fun _ => 1) c' + 0 ≤ weigh p (fun _ => 1) c ∧
    weigh p (remaining D S) c' + 0 + k ≤ weigh p (remaining D S) c
  by_cases hc' : Pending c'.place
  · obtain ⟨hc, hremaining⟩ := hpending hown hc'
    have hown' : c'.messageId = p.messageId := hid.trans hown
    rw [weigh_pending hown' hc', weigh_pending hown' hc', weigh_pending hown hc,
      weigh_pending hown hc]
    omega
  · rw [weigh_not_pending hc', weigh_not_pending hc', hclosed hown hc']
    omega

/-- The copy leaves, and one letter takes its place. -/
theorem Conserves.leave (hi : s.copies[i]? = some c)
    (hcopies : s'.copies = s.copies.set i c' ++ delivered letters)
    (hid : c'.messageId = c.messageId) (hletters : ∀ l ∈ letters, l.messageId = c.messageId)
    (hgone : ¬ Pending c'.place) (hstarts : starts p.messageId s' = starts p.messageId s)
    (hlocal : c.messageId = p.messageId → Pending c.place ∧
      ∃ x, letters = [x] ∧ remaining D S ⟨x, .ready⟩ ≤ remaining D S c) :
    Conserves D S p s s' := by
  have hstarts' : starts p.messageId s' =
      starts p.messageId s + if c.messageId = p.messageId then 0 else 0 := by
    rw [hstarts, ite_self, Nat.add_zero]
  apply Conserves.move hi hcopies hid hletters hstarts'
  intro hown
  obtain ⟨hc, x, rfl, hremaining⟩ := hlocal hown
  rw [weigh_not_pending hgone, weigh_not_pending hgone, weigh_pending hown hc,
    weigh_pending hown hc]
  have hone := weigh_le (p := p) (g := fun _ => 1) ⟨x, .ready⟩
  have hrest := weigh_le (p := p) (g := remaining D S) ⟨x, .ready⟩
  show 0 + (weigh p (fun _ => 1) ⟨x, .ready⟩ + 0) ≤ 1 ∧
    0 + (weigh p (remaining D S) ⟨x, .ready⟩ + 0) + 0 ≤ remaining D S c
  omega

/-! ### The calls of a delivery -/

section Perform

variable {call : ConsumerCall} {outcome : Outcome} {r : Except JsError call.Reply} {pt pt' : Point}

/-- A step of a delivery adds a start where it comes to the handler. -/
theorem starts_resume (hlog : s₁.log = s.log) :
    starts p.messageId (D.resume pointMachine s₁ i l d call r pt') =
      starts p.messageId s + if l.messageId = p.messageId then pt'.starting else 0 := by
  have hsettled : (Deployment.settledEntries l d call r).countP
      (LogEntry.startsOf p.messageId) = 0 := by
    unfold Deployment.settledEntries
    split
    · rfl
    · rfl
    · rfl
  have hstarted : (Deployment.startedEntries l d (pointMachine.view pt' (D.context l d))).countP
      (LogEntry.startsOf p.messageId) = if l.messageId = p.messageId then pt'.starting else 0 := by
    match pt' with
    | .fn payload lock =>
      show [LogEntry.started (Deployment.fnCall l d payload)].countP _ = _
      by_cases hid : l.messageId = p.messageId
      · rw [if_pos hid, List.countP_singleton]
        exact if_pos (decide_eq_true hid)
      · rw [if_neg hid, List.countP_singleton]
        exact if_neg fun h => hid (of_decide_eq_true h)
    | .get | .reject _ | .acquire _ | .mark _ _ | .republish _ _ _ | .release _ _ | .confirm _ _
    | .done _ =>
      rw [show Point.starting _ = 0 from rfl, ite_self]
      rfl
  unfold starts
  show (s₁.log ++ Deployment.settledEntries l d call r ++
    Deployment.startedEntries l d (pointMachine.view pt' (D.context l d))).countP _ = _
  rw [List.countP_append, List.countP_append, hsettled, hstarted, hlog, Nat.add_zero]

/-- Between two points at most the start of the handler is spent. -/
theorem spent_step (hstep : Point.Step (D.context l d) pt call r pt') :
    pt.spent + pt'.starting ≤ pt'.spent ∧ pt'.spent ≤ 1 := by
  cases hstep with
  | get_hit | get_miss | get_invalid | get_broken | get_fail | reject_ok | reject_fail
  | acquire_ok | acquire_held | acquire_fail | fn_ok | fn_fail | mark_ok | mark_fail
  | republish_ok | republish_fail | overtake_ok | overtake_fail | confirm_ok | confirm_fail
  | release_ok | release_fail =>
    simp [Point.spent, Point.starting]

/-- Publishing a copy ends the claims of the original. -/
theorem closing_step (hstep : Point.Step (D.context l d) pt call r pt')
    (hrelease : ∀ lock, call = .release lock → d.republished = true → ∃ v, r = .ok v)
    (h : d.republished = true → (∃ lock, pt = .release lock none) ∨ pt = .done (.ok none)) :
    Deployment.republishedAfter d.republished call r = true →
      (∃ lock, pt' = .release lock none) ∨ pt' = .done (.ok none) := by
  intro hrepublished
  have hnot : (∀ lock, pt ≠ .release lock none) → pt ≠ .done (.ok none) →
      d.republished = true → False := by
    intro hnotRelease hnotDone hd
    rcases h hd with ⟨lock, hlock⟩ | hdone
    · exact hnotRelease lock hlock
    · exact hnotDone hdone
  cases hstep with
  | reject_ok | confirm_ok => exact Or.inr rfl
  | republish_ok payload lock err => exact Or.inl ⟨lock, rfl⟩
  | release_ok lock result b =>
    rcases h hrepublished with ⟨lock', hlock⟩ | hdone
    · obtain ⟨-, rfl⟩ := Point.release.inj hlock
      exact Or.inr rfl
    · exact nomatch hdone
  | release_fail lock result e =>
    obtain ⟨v, hv⟩ := hrelease lock rfl hrepublished
    exact nomatch hv
  | get_hit | get_miss | get_invalid | get_broken | get_fail | reject_fail | acquire_ok
  | acquire_held | acquire_fail | fn_ok | fn_fail | mark_ok | mark_fail | republish_fail
  | overtake_ok | overtake_fail | confirm_fail =>
    exact (hnot (by simp) (by simp) hrepublished).elim

/-- What a publish of the message puts into a queue is paid for by the original. -/
theorem routed_paid (hS : Apart D.subscriptions S) {q : Publication} {r : Except JsError Unit}
    (hstep : Point.Step (D.context l d) pt (.publish q) r pt') (hsub : d.subscription = S)
    (hattempt : l.message.attempt ≤ D.consumer.maxRetries)
    (hcount : l.deliveryCount ≤ D.deliveryLimit) :
    ∃ x, D.routed q = [x] ∧ Steady D S ⟨x, .ready⟩ ∧
      remaining D S ⟨x, .ready⟩ ≤ allowance D l - (l.deliveryCount + pt.spent) := by
  have hparked : ∀ x : Letter, x.queue = dlqName S.subscriber S.event →
      Steady D S ⟨x, .ready⟩ ∧ ∀ n, remaining D S ⟨x, .ready⟩ ≤ n := by
    intro x hx
    refine ⟨⟨fun hnot => absurd hx hnot, fun d' hd' => nomatch hd'⟩, fun n => ?_⟩
    rw [remaining_dlq hx]
    exact Nat.zero_le n
  have hreject : ∀ reason, ∃ x, D.routed ((D.context l d).rejectPublication reason) = [x] ∧
      Steady D S ⟨x, .ready⟩ ∧ ∀ n, remaining D S ⟨x, .ready⟩ ≤ n := by
    intro reason
    obtain ⟨headers, -, hrouted⟩ := Deployment.routed_reject hS hsub reason
    exact ⟨_, hrouted, hparked _ rfl⟩
  have hfailure : ∀ payload err, ∃ x,
      D.routed ((D.context l d).failurePublication payload err) = [x] ∧
      Steady D S ⟨x, .ready⟩ ∧
        remaining D S ⟨x, .ready⟩ ≤ allowance D l - (l.deliveryCount + 1) := by
    intro payload err
    rcases Deployment.routed_failure hS hsub payload err with hretry | hdlq
    · obtain ⟨hlt, tier, -, headers, hheaders, hrouted⟩ := hretry
      refine ⟨_, hrouted, ⟨fun _ => ?_, fun d' hd' => nomatch hd'⟩, ?_⟩
      · show headers.attempt.getD 0 ≤ D.consumer.maxRetries ∧ 0 ≤ D.deliveryLimit
        rw [hheaders]
        exact ⟨hlt, Nat.zero_le _⟩
      -- a retry starts with one attempt less, and with no returns
      · rw [remaining_retry rfl, allowance_eq hattempt]
        show (D.consumer.maxRetries + 1 - headers.attempt.getD 0) * (D.deliveryLimit + 1) ≤ _
        rw [hheaders, Option.getD_some, Nat.add_sub_add_right]
        omega
    · obtain ⟨-, headers, -, hrouted⟩ := hdlq
      refine ⟨_, hrouted, ?_⟩
      exact (hparked _ rfl).imp_right fun hzero => hzero _
  cases hstep with
  | reject_ok reason =>
    obtain ⟨x, hrouted, hsteady, hzero⟩ := hreject reason
    exact ⟨x, hrouted, hsteady, hzero _⟩
  | reject_fail reason e =>
    obtain ⟨x, hrouted, hsteady, hzero⟩ := hreject reason
    exact ⟨x, hrouted, hsteady, hzero _⟩
  | republish_ok payload lock err => exact hfailure payload err
  | republish_fail payload lock err e => exact hfailure payload err
  | confirm_ok payload err => exact hfailure payload err
  | confirm_fail payload err e => exact hfailure payload err

/-- A delivery publishes once. -/
theorem not_republished_of_publish {q : Publication} {r : Except JsError Unit}
    (hstep : Point.Step (D.context l d) d.code (.publish q) r pt')
    (hsteady : Steady D S ⟨l, .unacked d⟩) : d.republished = false := by
  by_cases hd : d.republished = true
  · rcases hsteady.closing d rfl hd with ⟨lock, hcode⟩ | hcode
    · rw [hcode] at hstep
      exact nomatch hstep
    · rw [hcode] at hstep
      exact nomatch hstep
  · exact Bool.eq_false_of_not_eq_true hd

/-- No handler starts right after a publish. -/
theorem starting_of_publish {q : Publication} {r : Except JsError Unit}
    (hstep : Point.Step (D.context l d) pt (.publish q) r pt') : pt'.starting = 0 := by
  cases hstep with
  | reject_ok | reject_fail | republish_ok | republish_fail | confirm_ok | confirm_fail => rfl

/-- A delivery that has published a copy starts nothing. -/
theorem starting_of_republished (hstep : Point.Step (D.context l d) pt call r pt')
    (hclosing : d.republished = true → (∃ lock, pt = .release lock none) ∨ pt = .done (.ok none))
    (h : Deployment.republishedAfter d.republished call r = true) : pt'.starting = 0 := by
  cases hstep with
  | acquire_ok payload lock =>
    rcases hclosing h with ⟨lock', hlock⟩ | hdone
    · exact nomatch hlock
    · exact nomatch hdone
  | get_hit | get_miss | get_invalid | get_broken | get_fail | reject_ok | reject_fail
  | acquire_held | acquire_fail | fn_ok | fn_fail | mark_ok | mark_fail
  | republish_ok | republish_fail | overtake_ok | overtake_fail | confirm_ok | confirm_fail
  | release_ok | release_fail => rfl

theorem republishedAfter_true : Deployment.republishedAfter true call r = true := by
  unfold Deployment.republishedAfter
  split
  · rfl
  · rfl

/-- What is known of a delivery of the message. -/
theorem steady_running (hkept : Kept D S p s) (hsteady : EveryCopy p.messageId (Steady D S) s)
    (hi : s.copies[i]? = some ⟨l, .unacked d⟩) (hid : l.messageId = p.messageId) :
    l.queue = workQueueName S.subscriber S.event ∧ d.subscription = S ∧
      l.message.attempt ≤ D.consumer.maxRetries ∧ l.deliveryCount ≤ D.deliveryLimit ∧
      (d.republished = true →
        (∃ lock, d.code = .release lock none) ∨ d.code = .done (.ok none)) := by
  have hmem := List.mem_of_getElem? hi
  obtain ⟨hqueue, hsub, -⟩ := (hkept.fits _ hmem hid).running d rfl
  have hnotDlq : l.queue ≠ dlqName S.subscriber S.event := fun hdlq =>
    workQueueName_ne_dlqName (hqueue.symm.trans hdlq)
  obtain ⟨hattempt, hcount⟩ := (hsteady _ hmem hid).left hnotDlq
  exact ⟨hqueue, hsub, hattempt, hcount, (hsteady _ hmem hid).closing d rfl⟩

/-- A call of a delivery of the message creates nothing that is not paid for. -/
theorem conserves_resume (hS : Apart D.subscriptions S) (hkept : Kept D S p s)
    (hsteady : EveryCopy p.messageId (Steady D S) s) (hi : s.copies[i]? = some ⟨l, .unacked d⟩)
    (hstep : Point.Step (D.context l d) d.code call r pt')
    (hsettled : D.settled s call outcome = some (s₁, r))
    (hempty : ∀ q, call = .publish q → ∀ e, outcome ≠ .rejects e true) :
    Conserves D S p s (D.resume pointMachine s₁ i l d call r pt') := by
  have hlog := (Deployment.settled_frame hsettled).2.2.1
  by_cases hpublish : ∃ q, call = .publish q ∧ outcome = .resolves
  -- a publish that resolves hands the claims of the copy over to the new letter
  · obtain ⟨q, rfl, rfl⟩ := hpublish
    rcases Deployment.settled_publish hsettled with ⟨rfl, rfl⟩ | hrej
    · apply Conserves.leave hi (Deployment.copies_resume hi rfl) rfl
      · intro x hx
        show x.message.messageId.getD "" = l.message.messageId.getD ""
        rw [Deployment.mem_routed hx]
        exact congrArg (Option.getD · "") (Deployment.messageId_of_step hstep)
      · exact fun h => Bool.false_ne_true h.symm
      · refine (starts_resume hlog).trans ?_
        rw [starting_of_publish hstep, ite_self, Nat.add_zero]
      · intro hid
        obtain ⟨hqueue, hsub, hattempt, hcount, -⟩ := steady_running hkept hsteady hi hid
        have hpending : Pending (Place.unacked d) :=
          not_republished_of_publish hstep (hsteady _ (List.mem_of_getElem? hi) hid)
        obtain ⟨x, hrouted, -, hremaining⟩ := routed_paid hS hstep hsub hattempt hcount
        refine ⟨hpending, x, hrouted, ?_⟩
        rw [remaining_work (c := ⟨l, .unacked d⟩) hqueue]
        exact hremaining
    · obtain ⟨e, -, ⟨hout, -⟩ | ⟨hout, -⟩⟩ := hrej
      · exact nomatch hout
      · exact nomatch hout
  -- any other call adds no letter
  · have hcopies : s₁.copies = s.copies ++ delivered [] := by
      obtain ⟨-, -, -, letters, hcopies, hnil | ⟨q, rfl, -⟩⟩ := Deployment.settled_frame hsettled
      · rw [hcopies, hnil]
      · rcases Deployment.settled_publish hsettled with ⟨rfl, -⟩ | hrej
        · match outcome with
          | .resolves => exact absurd ⟨q, rfl, rfl⟩ hpublish
          | .rejects e true => exact absurd rfl (hempty q rfl e)
          | .rejects e false => exact nomatch hsettled
        · obtain ⟨e, -, ⟨-, rfl⟩ | ⟨hout, -⟩⟩ := hrej
          · exact (List.append_nil _).symm
          · exact absurd hout (hempty q rfl e)
    obtain ⟨hspent, hone⟩ := spent_step hstep
    apply Conserves.stay (k := pt'.starting) hi (Deployment.copies_resume hi hcopies) rfl
      (starts_resume hlog)
    · intro hid hpending'
      obtain ⟨hqueue, -, hattempt, hcount, -⟩ := steady_running hkept hsteady hi hid
      have hpending : d.republished = false := by
        by_contra hd
        have hkeeps : Deployment.republishedAfter d.republished call r = true := by
          rw [Bool.eq_true_of_not_eq_false hd]
          exact republishedAfter_true
        exact Bool.false_ne_true (hpending'.symm.trans hkeeps)
      refine ⟨hpending, ?_⟩
      rw [remaining_work (c := ⟨l, .unacked d⟩) hqueue]
      refine (Nat.add_le_add_right (Nat.le_of_eq (remaining_work hqueue)) _).trans ?_
      have hallowance := allowance_eq (D := D) hattempt
      show allowance D l - (l.deliveryCount + pt'.spent) + pt'.starting ≤
        allowance D l - (l.deliveryCount + d.code.spent)
      omega
    · intro hid hclosed
      obtain ⟨-, -, -, -, hclosing⟩ := steady_running hkept hsteady hi hid
      exact starting_of_republished hstep hclosing (Bool.eq_true_of_not_eq_false hclosed)

end Perform

/-! ### Moves of the broker -/

section Moves

variable {pl : Place Point}

/-- A message that is dead-lettered is one copy before and after. -/
theorem conserves_deadLetter (hi : s.copies[i]? = some ⟨l, pl⟩)
    (hlocal : l.messageId = p.messageId → Pending pl ∧ ∃ x, D.deadLettered l = [x] ∧
      remaining D S ⟨x, .ready⟩ ≤ remaining D S ⟨l, pl⟩) :
    Conserves D S p s (D.deadLetter s i l) := by
  apply Conserves.leave hi (Deployment.deadLetter_copies s i l) rfl
  · intro x hx
    show x.message.messageId.getD "" = l.message.messageId.getD ""
    rw [Deployment.mem_deadLettered hx]
  · exact id
  · rfl
  · exact hlocal

/-- A return uses up one start of the attempt. -/
theorem conserves_requeue (hS : Apart D.subscriptions S)
    (hi : s.copies[i]? = some ⟨l, .unacked d⟩)
    (hlocal : l.messageId = p.messageId → l.queue = workQueueName S.subscriber S.event ∧
      d.republished = false ∧ d.code.spent = 1) :
    Conserves D S p s (D.requeue s i l) := by
  have hback : Conserves D S p s
      (Deployment.place s i { l with deliveryCount := l.deliveryCount + 1 } .ready) := by
    apply Conserves.stay (k := 0) hi
      (Deployment.place_copies s i { l with deliveryCount := l.deliveryCount + 1 } .ready) rfl
    · rw [ite_self]
      rfl
    · intro hid _
      obtain ⟨hqueue, hpending, hspent⟩ := hlocal hid
      refine ⟨hpending, ?_⟩
      rw [remaining_work (c := ⟨l, .unacked d⟩) hqueue]
      refine (Nat.add_le_add_right (Nat.le_of_eq (remaining_work hqueue)) _).trans ?_
      show allowance D l - (l.deliveryCount + 1 + 0) + 0 ≤
        allowance D l - (l.deliveryCount + d.code.spent)
      omega
    · exact fun _ _ => rfl
  rcases Deployment.requeue_eq (D := D) s i l with heq | heq
  · rw [heq]
    exact hback
  · rw [heq]
    apply conserves_deadLetter hi
    intro hid
    obtain ⟨hqueue, hpending, -⟩ := hlocal hid
    refine ⟨hpending, _, Deployment.deadLettered_work hS hqueue, ?_⟩
    rw [remaining_dlq rfl]
    exact Nat.zero_le _

/-- A message that waits is steady when it has an attempt and a return left. -/
theorem steady_ready (hleft : l.queue ≠ dlqName S.subscriber S.event →
    l.message.attempt ≤ D.consumer.maxRetries ∧ l.deliveryCount ≤ D.deliveryLimit) :
    Steady D S ⟨l, .ready⟩ := ⟨hleft, fun _ hd => nomatch hd⟩

theorem Steady.gone (h : Steady D S ⟨l, pl⟩) : Steady D S ⟨l, .gone⟩ :=
  ⟨h.left, fun _ hd => nomatch hd⟩

end Moves

end Steps

/-! ## The invariant -/

section Invariant

variable {D : Deployment} {S : Subscription} {p : Published} {s s' : MessagingState Point}

/-- All that a message has done and can still do is within what its publication allowed. -/
structure Single (D : Deployment) (S : Subscription) (p : Published)
    (s : MessagingState Point) : Prop where
  steady : EveryCopy p.messageId (Steady D S) s
  pending : total (weigh p fun _ => 1) s ≤
    if p.messageId ∈ s.published.map Published.messageId then 1 else 0
  paid : starts p.messageId s + total (weigh p (remaining D S)) s ≤
    if p.messageId ∈ s.published.map Published.messageId then
      (D.consumer.maxRetries + 1) * (D.deliveryLimit + 1) else 0

/-- A step that conserves the copies and the starts keeps within what was allowed. -/
theorem Single.of_conserves (h : Single D S p s) (hc : Conserves D S p s s')
    (hpub : s'.published = s.published) (hsteady : EveryCopy p.messageId (Steady D S) s') :
    Single D S p s' where
  steady := hsteady
  pending := by
    rw [hpub]
    exact Nat.le_trans hc.pending h.pending
  paid := by
    rw [hpub]
    exact Nat.le_trans hc.paid h.paid

/-- A publish brings one copy, with all its attempts. -/
theorem Single.publish (hS : Apart D.subscriptions S) (hevent : p.event = S.event)
    (h : Single D S p s) {event : String} {raw : Json} {messageId : String}
    {requestId : Option String} (hstep : D.publish s event raw messageId requestId = some s')
    (hids : Unambiguous p s') (hnodup : (s'.published.map Published.messageId).Nodup) :
    Single D S p s' := by
  have hsteady : EveryCopy p.messageId (Steady D S) s' := by
    apply h.steady.publish hS hevent hstep hids
    intro l hl
    apply steady_ready
    intro _
    rw [hl.attempt, hl.deliveryCount]
    exact ⟨Nat.zero_le _, Nat.zero_le _⟩
  obtain ⟨letters, hcopies, hletters⟩ := publish_own hS hevent hstep hids
  have htotal : ∀ g, total (weigh p g) s' =
      total (weigh p g) s + ((delivered letters).map (weigh p g)).sum := by
    intro g
    unfold total
    rw [hcopies, List.map_append, List.sum_append]
  obtain ⟨payload, -, heq⟩ := Deployment.publish_cases hstep
  have hpub : s'.published.map Published.messageId =
      s.published.map Published.messageId ++ [messageId] := by
    rw [heq, List.map_append]
    rfl
  have hstarts : starts p.messageId s' = starts p.messageId s := by
    rw [heq]
    rfl
  rcases hletters with ⟨hown, x, rfl, hxid, hx⟩ | ⟨hother, hnone⟩
  · -- the first letter of the message
    have hnew : p.messageId ∉ s.published.map Published.messageId := by
      rw [hpub, hown] at hnodup
      exact fun hmem => List.disjoint_of_nodup_append hnodup hmem (List.mem_singleton_self _)
    have hthere : p.messageId ∈ s'.published.map Published.messageId := by
      rw [hpub, hown]
      exact List.mem_append_right _ (List.mem_singleton_self _)
    have hpending := h.pending
    have hpaid := h.paid
    rw [if_neg hnew] at hpending hpaid
    have hremaining : remaining D S ⟨x, .ready⟩ =
        (D.consumer.maxRetries + 1) * (D.deliveryLimit + 1) := by
      rw [remaining_work hx.queue, allowance, hx.attempt, hx.deliveryCount]
      rfl
    have hsum : ∀ g : Copy Point → ℕ, ((delivered [x]).map (weigh p g)).sum = g ⟨x, .ready⟩ := by
      intro g
      have hone : weigh p g ⟨x, .ready⟩ = g ⟨x, .ready⟩ := weigh_pending hxid trivial
      show weigh p g ⟨x, .ready⟩ + 0 = g ⟨x, .ready⟩
      omega
    constructor
    · exact hsteady
    · rw [if_pos hthere, htotal, hsum]
      omega
    · rw [if_pos hthere, htotal, hsum, hstarts, hremaining]
      omega
  · -- another message
    have hsum : ∀ g : Copy Point → ℕ, ((delivered letters).map (weigh p g)).sum = 0 := by
      intro g
      apply List.sum_eq_zero
      intro w hw
      obtain ⟨c, hc, rfl⟩ := List.mem_map.mp hw
      obtain ⟨y, hy, rfl⟩ := List.mem_map.mp hc
      exact weigh_other (hnone y hy)
    have hiff : p.messageId ∈ s'.published.map Published.messageId ↔
        p.messageId ∈ s.published.map Published.messageId := by
      rw [hpub, List.mem_append, List.mem_singleton]
      exact ⟨fun hmem => hmem.resolve_right fun heq => hother heq.symm, Or.inl⟩
    constructor
    · exact hsteady
    · rw [htotal, hsum, if_congr hiff rfl rfl]
      exact h.pending
    · rw [htotal, hsum, hstarts, if_congr hiff rfl rfl]
      exact h.paid

/-- A delivery that has not ended with an ack has not published a copy. -/
theorem Single.not_republished (hkept : Kept D S p s) (h : Single D S p s) {i : ℕ} {l : Letter}
    {d : Delivery Point} {result : Except JsError (Option Nack)}
    (hi : s.copies[i]? = some ⟨l, .unacked d⟩) (hid : l.messageId = p.messageId)
    (hcode : d.code = .done result) (hresult : result ≠ .ok none) : d.republished = false := by
  by_contra hd
  obtain ⟨-, -, -, -, hclosing⟩ := steady_running hkept h.steady hi hid
  rcases hclosing (Bool.eq_true_of_not_eq_false hd) with ⟨lock, hlock⟩ | hdone
  · exact nomatch hcode.symm.trans hlock
  · exact hresult (Point.done.inj (hcode.symm.trans hdone))

theorem Context.start_spent (ctx : Context) : ctx.start.spent = 0 := by
  unfold Context.start
  split
  · rfl
  · rfl

/-- A delivery starts with the returns that its copy has left. -/
theorem Single.deliver (hS : Apart D.subscriptions S) (hkept : Kept D S p s) (h : Single D S p s)
    {i : ℕ} {sub : Subscription} {now : String}
    (hstep : D.deliver pointMachine s i sub now = some s') : Single D S p s' := by
  obtain ⟨l, hi, hsub, hqueue, rfl⟩ := Deployment.deliver_cases hstep
  refine h.of_conserves ?_ rfl ?_
  · refine Conserves.stay (k := 0) hi (Deployment.place_copies s i l _) rfl ?_ ?_ ?_
    · rw [ite_self]
      rfl
    · intro hid _
      obtain ⟨hwork, -⟩ := hkept.delivered_from hS hi hsub hqueue hid
      refine ⟨trivial, ?_⟩
      rw [remaining_work (c := ⟨l, .ready⟩) hwork]
      refine (Nat.add_le_add_right (Nat.le_of_eq (remaining_work hwork)) _).trans ?_
      -- a delivery that has just begun has spent nothing yet
      show allowance D l - (l.deliveryCount + Point.spent _) + 0 ≤
        allowance D l - (l.deliveryCount + 0)
      rw [Context.start_spent]
      exact Nat.le_refl _
    · exact fun _ _ => rfl
  · apply h.steady.place
    intro hid
    have hold := h.steady _ (List.mem_of_getElem? hi) hid
    refine ⟨hold.left, fun d hd hrepublished => ?_⟩
    rw [← Place.unacked.inj hd] at hrepublished
    exact absurd hrepublished Bool.false_ne_true

/-- A call of a delivery stays within it, unless a publish rejects after all or a release after
the copy. -/
theorem Single.resume (hS : Apart D.subscriptions S) (hkept : Kept D S p s) (h : Single D S p s)
    {i : ℕ} {l : Letter} {d : Delivery Point} {call : ConsumerCall} {outcome : Outcome}
    {r : Except JsError call.Reply} {pt : Point} {s₁ : MessagingState Point}
    (hi : s.copies[i]? = some ⟨l, .unacked d⟩)
    (hmove : Point.Step (D.context l d) d.code call r pt)
    (hsettled : D.settled s call outcome = some (s₁, r))
    (hnothing : ∀ q, call = .publish q → ∀ e, outcome ≠ .rejects e true)
    (hanswers : l.messageId = p.messageId → ∀ lock, call = .release lock →
      d.republished = true → ∃ v, r = .ok v) :
    Single D S p (D.resume pointMachine s₁ i l d call r pt) := by
  refine h.of_conserves (conserves_resume hS hkept h.steady hi hmove hsettled hnothing)
    (Deployment.settled_frame hsettled).2.1 ?_
  apply h.steady.resume hi hmove hsettled fun c hc => hc
  · intro hid
    have hold := h.steady _ (List.mem_of_getElem? hi) hid
    refine ⟨hold.left, fun d' hd' => ?_⟩
    rw [← Place.unacked.inj hd']
    exact closing_step hmove (hanswers hid) (hold.closing d rfl)
  · intro q hq hid x hx
    subst hq
    obtain ⟨-, hsub, hattempt, hcount, -⟩ := steady_running hkept h.steady hi hid
    obtain ⟨y, hrouted, hsteady, -⟩ := routed_paid hS hmove hsub hattempt hcount
    rw [hrouted] at hx
    rw [List.mem_singleton.mp hx]
    exact hsteady

/-- A call uses up a start, or publishes the one copy that replaces this one. -/
theorem Single.perform (hS : Apart D.subscriptions S) (hkept : Kept D S p s) (h : Single D S p s)
    {i : ℕ} {outcome : Outcome}
    (hempty : D.nothingEnqueued pointMachine s (.perform i outcome) = true)
    (hrelease : D.releasesRepublished pointMachine s (.perform i outcome) = true)
    (hstep : D.perform pointMachine s i outcome = some s') : Single D S p s' := by
  obtain ⟨l, d, call, r, pt, s₁, hi, hmove, hsettled, rfl, hcall⟩ :=
    Deployment.perform_cases hstep
  apply h.resume hS hkept hi hmove hsettled
  · intro q hq e hout
    simp only [Deployment.nothingEnqueued, hout, hcall, hq] at hempty
    exact Bool.false_ne_true hempty
  · intro _ lock hlock hrepublished
    have hdelivery := Deployment.delivery?_eq_some.mpr hi
    subst hlock
    rcases Deployment.settled_release hsettled with hok | ⟨e, effect, hout, -⟩
    · exact hok.2.2
    · simp only [Deployment.releasesRepublished, hout, hcall, hdelivery, hrepublished] at hrelease
      exact absurd hrelease Bool.false_ne_true

/-- Publishes that nobody awaits are not part of it. -/
theorem Single.withStrays (h : Single D S p s) (strays : List Stray) :
    Single D S p { s with strays := strays } := ⟨h.steady, h.pending, h.paid⟩

/-- Whatever becomes of a release beside a publish, its copy is not yet published. -/
theorem Single.overtake (hS : Apart D.subscriptions S) (hkept : Kept D S p s)
    (h : Single D S p s) {i : ℕ} {outcome : Outcome}
    (hstep : D.overtake pointMachine s i outcome = some s') : Single D S p s' := by
  obtain ⟨l, d, lock, r, pt, s₁, q, hi, hmove, hsettled, rfl, hleft⟩ :=
    Deployment.overtake_cases hstep
  refine (h.resume hS hkept hi hmove hsettled (fun q hq => nomatch hq) ?_).withStrays _
  intro hid _ _ hrepublished
  obtain ⟨pt', hpublish⟩ := hleft
  have hnot := not_republished_of_publish hpublish (h.steady _ (List.mem_of_getElem? hi) hid)
  exact absurd (hnot.symm.trans hrepublished) Bool.false_ne_true

/-- An ack ends the copy; a return uses one up. -/
theorem Single.settle (hS : Apart D.subscriptions S) (hkept : Kept D S p s) (h : Single D S p s)
    {i : ℕ} (hstep : D.settle pointMachine s i = some s') : Single D S p s' := by
  obtain ⟨l, d, result, hi, hcode, hack | hreject | hreturn⟩ := Deployment.settle_cases hstep
  · obtain ⟨-, rfl⟩ := hack
    refine h.of_conserves ?_ rfl (h.steady.place fun hid =>
      (h.steady _ (List.mem_of_getElem? hi) hid).gone)
    refine Conserves.stay (k := 0) hi (Deployment.place_copies s i l .gone) rfl ?_ ?_ ?_
    · rw [ite_self]
      rfl
    · exact fun _ hgone => hgone.elim
    · exact fun _ _ => rfl
  · obtain ⟨rfl, rfl⟩ := hreject
    have hdlq : l.messageId = p.messageId → D.deadLettered l = [{ l with
        queue := dlqName S.subscriber S.event, routingKey := S.event, deliveryCount := 0 }] :=
      fun hid => Deployment.deadLettered_work hS (steady_running hkept h.steady hi hid).1
    refine h.of_conserves (conserves_deadLetter hi fun hid => ?_) rfl
      (h.steady.deadLetter fun hid => ?_)
    · refine ⟨h.not_republished hkept hi hid hcode nofun, _, hdlq hid, ?_⟩
      rw [remaining_dlq rfl]
      exact Nat.zero_le _
    · refine ⟨(h.steady _ (List.mem_of_getElem? hi) hid).gone, fun x hx => ?_⟩
      rw [hdlq hid] at hx
      rw [List.mem_singleton.mp hx]
      exact steady_ready fun hnot => absurd rfl hnot
  · obtain ⟨hresult, rfl⟩ := hreturn
    refine h.of_conserves (conserves_requeue hS hi fun hid => ?_)
      (Deployment.requeue_published s i l) ?_
    · obtain ⟨hqueue, -⟩ := steady_running hkept h.steady hi hid
      rw [hcode]
      exact ⟨hqueue, h.not_republished hkept hi hid hcode hresult, rfl⟩
    · apply h.steady.requeue hS (fun hid => (steady_running hkept h.steady hi hid).1)
      · intro hid hlimit
        obtain ⟨-, -, hattempt, -⟩ := steady_running hkept h.steady hi hid
        exact steady_ready fun _ => ⟨hattempt, hlimit⟩
      · intro hid _
        exact ⟨(h.steady _ (List.mem_of_getElem? hi) hid).gone,
          steady_ready fun hnot => absurd rfl hnot⟩

/-- A retry copy that expires is back with all the starts of its attempt. -/
theorem Single.expire (hS : Apart D.subscriptions S) (hkept : Kept D S p s) (h : Single D S p s)
    {i : ℕ} (hstep : D.expire s i = some s') : Single D S p s' := by
  obtain ⟨l, hi, httl, rfl⟩ := Deployment.expire_cases hstep
  refine h.of_conserves (conserves_deadLetter hi fun hid => ?_) rfl
    (h.steady.deadLetter fun hid => ?_)
  · obtain ⟨tier, hretry, hletters⟩ := hkept.expires_from hS hi httl hid
    refine ⟨trivial, _, hletters, ?_⟩
    rw [remaining_work rfl, remaining_retry (c := ⟨l, .ready⟩) hretry]
    exact Nat.sub_le _ _
  · obtain ⟨tier, hretry, hletters⟩ := hkept.expires_from hS hi httl hid
    have hold := h.steady _ (List.mem_of_getElem? hi) hid
    have hnotDlq : l.queue ≠ dlqName S.subscriber S.event := fun hdlq =>
      dlqName_ne_retryQueueName (hdlq.symm.trans hretry)
    refine ⟨hold.gone, fun x hx => ?_⟩
    rw [hletters] at hx
    rw [List.mem_singleton.mp hx]
    exact steady_ready fun _ => ⟨(hold.left hnotDlq).1, Nat.zero_le _⟩

/-- Every step of the claimed runs stays within it. -/
theorem Single.step (hS : Apart D.subscriptions S) (hevent : p.event = S.event)
    (hkept : Kept D S p s) (h : Single D S p s) {a : Action}
    (hempty : D.nothingEnqueued pointMachine s a = true)
    (hrelease : D.releasesRepublished pointMachine s a = true)
    (hstep : D.step pointMachine s a = some s') (hids : Unambiguous p s')
    (hnodup : (s'.published.map Published.messageId).Nodup) : Single D S p s' := by
  match a with
  | .publish event raw messageId requestId => exact h.publish hS hevent hstep hids hnodup
  | .deliver i sub now => exact h.deliver hS hkept hstep
  | .perform i outcome => exact h.perform hS hkept hempty hrelease hstep
  | .overtake i outcome => exact h.overtake hS hkept hstep
  | .settle i => exact h.settle hS hkept hstep
  | .crash i => exact absurd hempty Bool.false_ne_true
  | .stray j true => exact absurd hrelease Bool.false_ne_true
  -- a publish that comes to nothing
  | .stray j false =>
    obtain ⟨x, -, rfl⟩ := Option.map_eq_some_iff.mp hstep
    have hsame : Deployment.enqueue s [] = s := by simp [Deployment.enqueue]
    rw [if_neg Bool.false_ne_true, hsame]
    exact h.withStrays _
  | .expire i => exact h.expire hS hkept hstep
  | .tick ms =>
    rw [← Option.some.inj hstep]
    exact ⟨h.steady, h.pending, h.paid⟩

theorem Single.init : Single D S p (.init Point) where
  steady _ hc := absurd hc List.not_mem_nil
  pending := Nat.zero_le _
  paid := Nat.zero_le _

/-- In a run under the guards all that a message does is within what its publication allowed. -/
theorem single_of_reaches (hS : Apart D.subscriptions S) (hevent : p.event = S.event)
    {ok : MessagingState Point → Action → Prop}
    (hok : ∀ u a, ok u a →
      D.nothingEnqueued pointMachine u a = true ∧ D.releasesRepublished pointMachine u a = true)
    (h : Reaches (D.step pointMachine) ok (.init Point) s) (hids : Unambiguous p s)
    (hnodup : (s.published.map Published.messageId).Nodup) : Single D S p s := by
  induction h with
  | refl => exact Single.init
  | tail hu hnext ih =>
    obtain ⟨a, ha, hstep⟩ := hnext
    have hids' : Unambiguous p _ := fun p' hp' => hids p' (Deployment.published_subset hstep hp')
    have hnodup' := hnodup
    rcases Deployment.published_cases hstep with hsame | ⟨q, -, -, hnew⟩
    · rw [hsame] at hnodup'
      exact (ih hids' hnodup').step hS hevent (kept_of_reaches hS hevent hu hids')
        (hok _ a ha).1 (hok _ a ha).2 hstep hids hnodup
    · rw [hnew, List.map_append] at hnodup'
      exact (ih hids' hnodup'.of_append_left).step hS hevent (kept_of_reaches hS hevent hu hids')
        (hok _ a ha).1 (hok _ a ha).2 hstep hids hnodup

/-- The pending copies are those that weigh. -/
theorem pendingCopies_eq (s : MessagingState Point) :
    pendingCopies p.messageId s = total (weigh p fun _ => 1) s := by
  unfold pendingCopies total
  induction s.copies with
  | nil => rfl
  | cons c cs ih =>
    rw [List.countP_cons, List.map_cons, List.sum_cons, ih, Nat.add_comm]
    unfold weigh
    by_cases hc : c.messageId = p.messageId ∧ Pending c.place
    · rw [if_pos hc, if_pos (decide_eq_true hc)]
    · rw [if_neg hc, if_neg fun h => hc (of_decide_eq_true h)]

end Invariant

/-! ## Runs of the system -/

section Runs

variable {D : Deployment} {S : Subscription} {p : Published} {t : MessagingState Code}

theorem Deployment.nothingEnqueued_toCode (s : MessagingState Point) (a : Action) :
    D.nothingEnqueued codeMachine (s.toCode D) a = D.nothingEnqueued pointMachine s a := by
  match a with
  | .perform i (.rejects e true) =>
    simp only [Deployment.nothingEnqueued, Deployment.callOf_toCode]
  | .perform i (.rejects e false) => rfl
  | .perform i .resolves => rfl
  | .publish .. | .deliver .. | .overtake .. | .settle _ | .crash _ | .stray .. | .expire _
  | .tick _ => rfl

theorem Deployment.releasesRepublished_toCode (s : MessagingState Point) (a : Action) :
    D.releasesRepublished codeMachine (s.toCode D) a = D.releasesRepublished pointMachine s a := by
  match a with
  | .perform i (.rejects e effect) =>
    simp only [Deployment.releasesRepublished, Deployment.callOf_toCode,
      Deployment.delivery?_toCode]
    match D.callOf pointMachine s i, Deployment.delivery? s i with
    | some (.release lock), some (l, d) => rfl
    | some (.release lock), none => rfl
    | some (.cacheGet _), _ | some (.cacheSet ..), _ | some (.acquire ..), _ | some (.fn _), _
    | some (.publish _), _ | some (.overlap ..), _ | none, _ => rfl
  | .perform i .resolves => rfl
  | .publish .. | .deliver .. | .overtake .. | .settle _ | .crash _ | .stray .. | .expire _
  | .tick _ => rfl

/-- Pending copies are the same over code and over points. -/
theorem pending_toCode (l : Letter) (pl : Place Point) :
    Pending (pl.toCode D l) ↔ Pending pl := by
  match pl with
  | .ready => exact Iff.rfl
  | .unacked d => exact Iff.rfl
  | .gone => exact Iff.rfl

theorem pendingCopies_toCode (m : String) (s : MessagingState Point) :
    pendingCopies m (s.toCode D) = pendingCopies m s := by
  unfold pendingCopies MessagingState.toCode
  rw [List.countP_map]
  apply List.countP_congr
  intro c _
  rw [Function.comp_apply, decide_eq_true_eq, decide_eq_true_eq]
  exact and_congr Iff.rfl (pending_toCode c.toLetter c.place)

/-- Without crashes, and as long as a rejected publish has enqueued nothing and no release
rejects in a delivery whose copy gets onto the broker, a message has one pending copy at most,
its handler is started at most once for each attempt and return, and no delivery both publishes
a copy and is returned. -/
theorem single_pending_copy (hevents : ∀ sub ∈ D.subscriptions, HasContract sub.event)
    (hS : S ∈ D.subscriptions)
    (hsole : ∀ sub ∈ D.subscriptions, sub.event = S.event → sub = S)
    (h : Reaches (D.step codeMachine) (fun u a => D.nothingEnqueued codeMachine u a = true ∧
      D.releasesRepublished codeMachine u a = true) (.init Code) t)
    (hnodup : (t.published.map Published.messageId).Nodup) (hp : p ∈ t.published)
    (hevent : p.event = S.event) :
    pendingCopies p.messageId t ≤ 1 ∧
      starts p.messageId t ≤
        (D.env.RABBITMQ_MAX_RETRIES + 1) * (D.env.RABBITMQ_QUORUM_DELIVERY_LIMIT + 1) ∧
      NotReturned p.messageId t := by
  have hapart := Apart.of_hasContract hsole hS hevents
  obtain ⟨s, hs, rfl⟩ := Deployment.reaches_points h
  have hids : Unambiguous p s := fun p' hp' hid => List.inj_on_of_nodup_map hnodup hp' hp hid
  have hok : ∀ u a, D.nothingEnqueued codeMachine (u.toCode D) a = true ∧
      D.releasesRepublished codeMachine (u.toCode D) a = true →
      D.nothingEnqueued pointMachine u a = true ∧
        D.releasesRepublished pointMachine u a = true := by
    intro u a hua
    rw [Deployment.nothingEnqueued_toCode, Deployment.releasesRepublished_toCode] at hua
    exact hua
  have hsingle := single_of_reaches hapart hevent hok hs hids hnodup
  have hmem : p.messageId ∈ s.published.map Published.messageId := List.mem_map_of_mem hp
  have hpending := hsingle.pending
  have hpaid := hsingle.paid
  rw [if_pos hmem] at hpending hpaid
  refine ⟨?_, ?_, ?_⟩
  · rw [pendingCopies_toCode, pendingCopies_eq]
    exact hpending
  · exact Nat.le_trans (Nat.le_add_right _ _) hpaid
  · intro c hc hid d hd hrepublished result hview
    obtain ⟨x, hx, rfl⟩ := List.mem_map.mp hc
    obtain ⟨d', hplace, rfl⟩ := Place.toCode_eq_unacked D hd
    have hview' : (d'.code.program (D.context x.toLetter d')).view = .settled result := hview
    rw [Point.view_program] at hview'
    -- a delivery that has published a copy releases its lock, and acks
    rcases (hsingle.steady x hx hid).closing d' hplace hrepublished with ⟨lock, hcode⟩ | hcode
    · rw [hcode] at hview'
      cases hview'
    · rw [hcode] at hview'
      exact (Async.View.settled.inj hview').symm

/-- The deployment with `notifications` alone: a message is delivered and its handler rejects. -/
def refused : List Action :=
  [(createdNotification "m1").action, .deliver 0 notifications "2026-06-06T00:00:00Z"] ++
    resolving 0 2 ++ [.perform 0 (.rejects (.error "boom") false)]

/-- Its retry copy is published. -/
def retried : List Action := refused ++ resolving 0 1

/-- The release rejects once the retry copy is published. -/
def releaseRejects : List Action :=
  retried ++ [.perform 0 (.rejects (.error "ECONNRESET") false), .settle 0]

/-- The release rejects while the retry copy is being published. -/
def releaseOvertakes : List Action :=
  refused ++ [.overtake 0 (.rejects (.error "ECONNRESET") false), .settle 0, .stray 0 true]

/-- After the release and the ack, the retry copy is the only one. -/
theorem single_pending_copy_retried :
    ∃ t, Reaches ((defaultDeployment [notifications]).step codeMachine) (fun u a =>
        (defaultDeployment [notifications]).nothingEnqueued codeMachine u a = true ∧
          (defaultDeployment [notifications]).releasesRepublished codeMachine u a = true)
        (.init Code) t ∧
      pendingCopies "m1" t ≤ 1 ∧ starts "m1" t ≤ 24 ∧ NotReturned "m1" t := by
  have hrun : (Transition.run ((defaultDeployment [notifications]).step codeMachine) (fun u a =>
        (defaultDeployment [notifications]).nothingEnqueued codeMachine u a = true ∧
          (defaultDeployment [notifications]).releasesRepublished codeMachine u a = true)
      (.init Code) (retried ++ resolving 0 1 ++ [.settle 0])).map
      (fun t => decide (t.published = [createdNotification "m1"])) = some true := by
    decide +kernel
  obtain ⟨t, ht, hpub⟩ := Transition.exists_reaches_of_run hrun
  have hpub' : t.published = [createdNotification "m1"] := of_decide_eq_true hpub
  have hmem : createdNotification "m1" ∈ t.published := by
    rw [hpub']
    exact List.mem_singleton_self _
  have hnodup : (t.published.map Published.messageId).Nodup := by
    rw [hpub']
    exact List.nodup_singleton _
  exact ⟨t, ht, single_pending_copy (S := notifications) (by decide) (by decide) (by decide) ht
    hnodup hmem rfl⟩

/-- The original is still unacked when its retry copy is in the queue; and where the release
rejects, after the publish or while it is under way, `handle` rejects too and the original comes
back besides its copy. -/
theorem not_single_copy :
    (∃ t, Reaches ((defaultDeployment [notifications]).step codeMachine) (fun u a =>
        (defaultDeployment [notifications]).nothingEnqueued codeMachine u a = true ∧
          (defaultDeployment [notifications]).releasesRepublished codeMachine u a = true)
        (.init Code) t ∧
      t.published = [createdNotification "m1"] ∧ ¬ liveCopies "m1" t ≤ 1) ∧
    ∀ actions ∈ [releaseRejects, releaseOvertakes], ∃ t,
      Transition.run ((defaultDeployment [notifications]).step codeMachine) (fun u a =>
          (defaultDeployment [notifications]).nothingEnqueued codeMachine u a = true)
          (.init Code) actions = some t ∧
        t.published = [createdNotification "m1"] ∧ pendingCopies "m1" t = 2 ∧
          ¬ liveCopies "m1" t ≤ 1 := by
  have hrun : (Transition.run ((defaultDeployment [notifications]).step codeMachine) (fun u a =>
        (defaultDeployment [notifications]).nothingEnqueued codeMachine u a = true ∧
          (defaultDeployment [notifications]).releasesRepublished codeMachine u a = true)
      (.init Code) retried).map
      (fun t => decide (t.published = [createdNotification "m1"] ∧ ¬ liveCopies "m1" t ≤ 1)) =
      some true := by
    decide +kernel
  have hrejects : ∀ actions ∈ [releaseRejects, releaseOvertakes],
      (Transition.run ((defaultDeployment [notifications]).step codeMachine) (fun u a =>
        (defaultDeployment [notifications]).nothingEnqueued codeMachine u a = true) (.init Code)
      actions).map
      (fun t => decide (t.published = [createdNotification "m1"] ∧ pendingCopies "m1" t = 2 ∧
        ¬ liveCopies "m1" t ≤ 1)) = some true := by
    decide +kernel
  obtain ⟨t, ht, htest⟩ := Transition.exists_reaches_of_run hrun
  refine ⟨⟨t, ht, of_decide_eq_true htest⟩, fun actions hactions => ?_⟩
  obtain ⟨t', ht', htest'⟩ := Option.map_eq_some_iff.mp (hrejects actions hactions)
  exact ⟨t', ht', of_decide_eq_true htest'⟩

end Runs

end NestFastify.Messaging
