import NestFastify.Messaging.EveryCopy

/-!
# Earned dead-lettering

A message belongs in the DLQ once its handler has rejected on every attempt, or once its
returns for crashes and failed republishes exceed the delivery limit. Waiting for the
processing lock is a return like any other, so a lock left behind by a crash uses the limit
up. Where no delivery meets a held lock, every message in the DLQ is there for a reason.
-/

namespace NestFastify.Messaging

open Transition (Reaches)

/-! ## What is claimed of a parked message -/

/-- How often the handler of `S` has rejected for the message. -/
def rejections {P : Type} (S : Subscription) (p : Published) (s : MessagingState P) : ℕ :=
  s.log.count (.rejected ⟨S, p.messageId, p.payload⟩)

def Earned {P : Type} (D : Deployment) (S : Subscription) (p : Published)
    (s : MessagingState P) : Prop :=
  ∀ c ∈ s.copies, c.messageId = p.messageId → c.queue = dlqName S.subscriber S.event →
    D.env.RABBITMQ_MAX_RETRIES + 1 ≤ rejections S p s ∨
      D.env.RABBITMQ_QUORUM_DELIVERY_LIMIT ≤ c.crashes + c.failedRepublishes

/-- Only `fn` and `amqp.publish` are taken to fail. -/
def ConsumerCall.fallible : ConsumerCall → Bool
  | fn _ => true
  | publish _ => true
  | _ => false

namespace Deployment

variable {P : Type} (D : Deployment) (M : Machine P) (m : String) (s : MessagingState P)

/-- Copy `i` is one of the message, and unacked. -/
def handles (i : ℕ) : Bool :=
  match delivery? s i with
  | some (l, _) => decide (l.messageId = m)
  | none => false

/-- The step is not a rejection by Redis in a delivery of the message. -/
def redisAnswers : Action → Bool
  | .perform i (.rejects ..) => !handles m s i || (D.callOf M s i).all ConsumerCall.fallible
  | .overtake i (.rejects ..) => !handles m s i
  | _ => true

/-- The step is not a delivery of the message that asks for a lock that is held. -/
def uncontended : Action → Bool
  | .perform i _ =>
    match D.callOf M s i with
    | some (.acquire key _) =>
      !handles m s i || (s.redis.store.entry s.now ("lock:" ++ key)).isNone
    | _ => true
  | _ => true

end Deployment

/-! ## The accounts of a copy -/

section Invariant

variable (D : Deployment) (S : Subscription) (p : Published)

/-- What must have happened for a delivery to be at a point. `n` counts the rejections. -/
def Owes (n : ℕ) (l : Letter) : Point → Prop
  | .reject _ => False
  | .acquire payload => payload = p.payload
  | .fn payload _ => payload = p.payload
  | .republish .. => l.message.attempt + 1 ≤ n
  | .confirm .. => l.message.attempt + 1 ≤ n
  | .release _ (some nack) =>
    nack = ⟨true⟩ ∧ l.deliveryCount + 1 ≤ l.crashes + l.failedRepublishes
  | .done (.ok (some nack)) =>
    nack = ⟨true⟩ ∧ l.deliveryCount + 1 ≤ l.crashes + l.failedRepublishes
  | .done (.error _) => False
  | _ => True

/-- Each attempt before this one was a rejection, each return a crash or a failed republish. -/
structure Accounted (n : ℕ) (c : Copy Point) : Prop where
  parked : c.queue = dlqName S.subscriber S.event → D.consumer.maxRetries + 1 ≤ n ∨
    D.deliveryLimit ≤ c.crashes + c.failedRepublishes
  waiting : c.queue ≠ dlqName S.subscriber S.event →
    c.message.attempt ≤ n ∧ c.deliveryCount ≤ c.crashes + c.failedRepublishes
  running : ∀ d, c.place = .unacked d → Owes p n c.toLetter d.code

end Invariant

section Steps

variable {D : Deployment} {S : Subscription} {p : Published} {s s' s₁ : MessagingState Point}
  {i n n' : ℕ} {c : Copy Point} {l : Letter} {d : Delivery Point}

theorem Owes.mono (hn : n ≤ n') {pt : Point} (h : Owes p n l pt) : Owes p n' l pt := by
  match pt with
  | .republish _ _ _ | .confirm _ _ => exact Nat.le_trans h hn
  | .get | .mark _ _ | .release _ none | .done (.ok none) => trivial
  | .reject _ | .done (.error _) => exact h
  | .acquire _ | .fn _ _ | .release _ (some _) | .done (.ok (some _)) => exact h

theorem Accounted.mono (hn : n ≤ n') (h : Accounted D S p n c) : Accounted D S p n' c where
  parked hqueue := (h.parked hqueue).imp_left fun hmax => Nat.le_trans hmax hn
  waiting hqueue := ⟨Nat.le_trans (h.waiting hqueue).1 hn, (h.waiting hqueue).2⟩
  running d hd := (h.running d hd).mono hn

/-- A letter outside the DLQ, not being handled. -/
theorem accounted_waiting {pl : Place Point} (hpl : ∀ d, pl ≠ .unacked d)
    (hqueue : l.queue ≠ dlqName S.subscriber S.event) (hattempt : l.message.attempt ≤ n)
    (hreturns : l.deliveryCount ≤ l.crashes + l.failedRepublishes) :
    Accounted D S p n ⟨l, pl⟩ where
  parked hdlq := absurd hdlq hqueue
  waiting _ := ⟨hattempt, hreturns⟩
  running d hd := absurd hd (hpl d)

theorem accounted_parked (hqueue : l.queue = dlqName S.subscriber S.event)
    (hearned : D.consumer.maxRetries + 1 ≤ n ∨ D.deliveryLimit ≤ l.crashes + l.failedRepublishes) :
    Accounted D S p n ⟨l, .ready⟩ where
  parked _ := hearned
  waiting hdlq := absurd hqueue hdlq
  running d hd := by cases hd

theorem ready_ne_unacked (d : Delivery Point) : (Place.ready : Place Point) ≠ .unacked d := by
  intro h
  cases h

theorem gone_ne_unacked (d : Delivery Point) : (Place.gone : Place Point) ≠ .unacked d := by
  intro h
  cases h

/-! ### The calls of a delivery -/

section Perform

variable {call : ConsumerCall} {outcome : Outcome} {r : Except JsError call.Reply} {pt pt' : Point}

/-- The handler's rejection is the only entry of its kind that a call adds. -/
theorem rejections_resume (hlog : s₁.log = s.log) :
    rejections S p (D.resume pointMachine s₁ i l d call r pt') = rejections S p s +
      (Deployment.settledEntries l d call r).count (.rejected ⟨S, p.messageId, p.payload⟩) := by
  have hstarted : (Deployment.startedEntries l d (pointMachine.view pt' (D.context l d))).count
      (.rejected ⟨S, p.messageId, p.payload⟩) = 0 := by
    unfold Deployment.startedEntries
    split
    · exact List.count_eq_zero.mpr (by simp)
    · exact List.count_nil
  unfold rejections Deployment.resume
  rw [List.count_append, List.count_append, hstarted, hlog, Nat.add_zero]

/-- A delivery of the message that makes its next call without contention stays accounted. -/
theorem Owes.step (hstep : Point.Step (D.context l d) pt call r pt')
    (hanswer : call.fallible = false → ∃ v, r = .ok v)
    (hfree : ∀ key, call = .acquire key PROCESSING_LOCK_TTL_MS →
      s.redis.store.entry s.now ("lock:" ++ key) = none)
    (hsettled : D.settled s call outcome = some (s₁, r))
    (hparses : parseEvent D.z d.subscription.event l.message.content = .ok p.payload)
    (hid : l.messageId = p.messageId) (hsub : d.subscription = S)
    (hattempt : l.message.attempt ≤ n)
    (hreturns : l.deliveryCount ≤ l.crashes + l.failedRepublishes)
    (hn : n' = n + (Deployment.settledEntries l d call r).count
      (.rejected ⟨S, p.messageId, p.payload⟩))
    (h : Owes p n l pt) :
    Owes p n' { l with failedRepublishes := Deployment.failedAfter l.failedRepublishes call r }
      pt' := by
  have hno : ∀ e, r = .error e → call.fallible = false → False := by
    intro e he hfallible
    obtain ⟨v, hv⟩ := hanswer hfallible
    rw [hv] at he
    cases he
  cases hstep with
  | get_hit | reject_ok | fn_ok | mark_ok | republish_ok | confirm_ok => trivial
  | overtake_ok => exact Nat.le_trans h (hn ▸ Nat.le_add_right _ _)
  | overtake_fail payload lock err e => exact (hno e rfl rfl).elim
  | get_miss v hv payload hparse =>
    have hparse' : parseEvent D.z d.subscription.event l.message.content = .ok payload := hparse
    rw [hparses] at hparse'
    exact (Except.ok.inj hparse').symm
  | get_invalid v hv paths message hparse =>
    have hparse' : parseEvent D.z d.subscription.event l.message.content =
        .error (.zodError paths message) := hparse
    rw [hparses] at hparse'
    cases hparse'
  | get_broken v hv e hparse =>
    have hparse' : parseEvent D.z d.subscription.event l.message.content = .error e := hparse
    rw [hparses] at hparse'
    cases hparse'
  | get_fail e => exact (hno e rfl rfl).elim
  | reject_fail => exact h.elim
  | acquire_ok => exact h
  | acquire_held payload =>
    -- nobody holds the lock
    have hentry := hfree _ rfl
    rcases Deployment.settled_acquire hsettled with hheld | hok | hrej
    · obtain ⟨⟨e, he⟩, -⟩ := hheld
      rw [hentry] at he
      exact absurd he (by simp)
    · exact nomatch hok.2.2.2
    · obtain ⟨e, effect, -, he, -⟩ := hrej
      exact nomatch he
  | acquire_fail payload e => exact (hno e rfl rfl).elim
  | fn_fail payload lock e =>
    -- the rejection pays for the next attempt
    have hcount : (Deployment.settledEntries l d (.fn payload) (.error e)).count
        (.rejected ⟨S, p.messageId, p.payload⟩) = 1 := by
      have hpayload : payload = p.payload := h
      simp [Deployment.settledEntries, Deployment.fnCall, hsub, hid, hpayload]
    show l.message.attempt + 1 ≤ n'
    omega
  | mark_fail payload lock e => exact (hno e rfl rfl).elim
  | republish_fail | confirm_fail =>
    refine ⟨rfl, ?_⟩
    show l.deliveryCount + 1 ≤ l.crashes + (l.failedRepublishes + 1)
    omega
  | release_ok lock result =>
    match result with
    | none => trivial
    | some nack => exact h
  | release_fail lock result e => exact (hno e rfl rfl).elim

/-- A copy published after the rejection of attempt `a` is the next attempt, or in the DLQ
with no attempt left. -/
theorem accounted_republished (hS : Apart D.subscriptions S) {q : Publication}
    {r : Except JsError Unit} (hstep : Point.Step (D.context l d) pt (.publish q) r pt')
    (hsub : d.subscription = S) (h : Owes p n l pt) :
    ∀ x ∈ D.routed q, Accounted D S p n ⟨x, .ready⟩ := by
  have hfailure : ∀ payload err, l.message.attempt + 1 ≤ n →
      ∀ x ∈ D.routed ((D.context l d).failurePublication payload err),
        Accounted D S p n ⟨x, .ready⟩ := by
    intro payload err hattempt x hx
    rcases Deployment.routed_failure hS hsub payload err with hretry | hdlq
    · obtain ⟨-, tier, -, headers, hheaders, hrouted⟩ := hretry
      rw [hrouted] at hx
      rw [List.mem_singleton.mp hx]
      refine accounted_waiting ready_ne_unacked dlqName_ne_retryQueueName.symm ?_ (Nat.zero_le _)
      show headers.attempt.getD 0 ≤ n
      rw [hheaders]
      exact hattempt
    · obtain ⟨hmax, headers, -, hrouted⟩ := hdlq
      rw [hrouted] at hx
      rw [List.mem_singleton.mp hx]
      refine accounted_parked rfl (Or.inl ?_)
      omega
  cases hstep with
  | reject_ok | reject_fail => exact h.elim
  | republish_ok payload lock err => exact hfailure payload err h
  | republish_fail payload lock err e => exact hfailure payload err h
  | confirm_ok payload err => exact hfailure payload err h
  | confirm_fail payload err e => exact hfailure payload err h

end Perform

/-- A delivery that is returned for a reason leaves its copy accounted. -/
theorem accounted_requeue (hS : Apart D.subscriptions S)
    (h : EveryCopy p.messageId (Accounted D S p n) s)
    (hlocal : l.messageId = p.messageId → l.queue = workQueueName S.subscriber S.event ∧
      l.message.attempt ≤ n ∧ l.deliveryCount + 1 ≤ l.crashes + l.failedRepublishes) :
    EveryCopy p.messageId (Accounted D S p n) (D.requeue s i l) := by
  have hwork : l.messageId = p.messageId → l.queue ≠ dlqName S.subscriber S.event := by
    intro hid hqueue
    exact workQueueName_ne_dlqName ((hlocal hid).1.symm.trans hqueue)
  apply h.requeue hS (fun hid => (hlocal hid).1)
  · intro hid _
    exact accounted_waiting ready_ne_unacked (hwork hid) (hlocal hid).2.1 (hlocal hid).2.2
  · intro hid hlimit
    obtain ⟨-, hattempt, hreturns⟩ := hlocal hid
    constructor
    · exact accounted_waiting gone_ne_unacked (hwork hid) hattempt (by omega)
    · apply accounted_parked rfl
      show _ ∨ D.deliveryLimit ≤ l.crashes + l.failedRepublishes
      omega

/-- What is known of a delivery of the message. -/
theorem accounted_running (hkept : Kept D S p s) (h : EveryCopy p.messageId (Accounted D S p n) s)
    (hi : s.copies[i]? = some ⟨l, .unacked d⟩) (hid : l.messageId = p.messageId) :
    l.queue = workQueueName S.subscriber S.event ∧ d.subscription = S ∧
      parseEvent D.z S.event l.message.content = .ok p.payload ∧ l.message.attempt ≤ n ∧
      l.deliveryCount ≤ l.crashes + l.failedRepublishes ∧ Owes p n l d.code := by
  have hmem := List.mem_of_getElem? hi
  have hfits := hkept.fits _ hmem hid
  obtain ⟨hqueue, hsub, -⟩ := hfits.running d rfl
  have hnotDlq : l.queue ≠ dlqName S.subscriber S.event := fun hdlq =>
    workQueueName_ne_dlqName (hqueue.symm.trans hdlq)
  obtain ⟨hattempt, hreturns⟩ := (h _ hmem hid).waiting hnotDlq
  exact ⟨hqueue, hsub, hfits.belongs.parses, hattempt, hreturns, (h _ hmem hid).running d rfl⟩

theorem accounted_settle (hS : Apart D.subscriptions S) (hkept : Kept D S p s)
    (h : EveryCopy p.messageId (Accounted D S p n) s)
    (hstep : D.settle pointMachine s i = some s') :
    EveryCopy p.messageId (Accounted D S p n) s' := by
  obtain ⟨l, d, result, hi, hcode, hack | hreject | hreturn⟩ := Deployment.settle_cases hstep
  · obtain ⟨-, rfl⟩ := hack
    apply h.place
    intro hid
    have hold := h _ (List.mem_of_getElem? hi) hid
    exact ⟨hold.parked, hold.waiting, fun d hd => absurd hd (gone_ne_unacked d)⟩
  · -- a delivery of the message has nothing to reject
    obtain ⟨rfl, rfl⟩ := hreject
    apply h.deadLetter
    intro hid
    obtain ⟨-, -, -, -, -, howes⟩ := accounted_running hkept h hi hid
    rw [hcode] at howes
    exact absurd howes.1 (by decide)
  · obtain ⟨hresult, rfl⟩ := hreturn
    apply accounted_requeue hS h
    intro hid
    obtain ⟨hqueue, -, -, hattempt, -, howes⟩ := accounted_running hkept h hi hid
    rw [hcode] at howes
    match result with
    | .ok none => exact absurd rfl hresult
    | .ok (some nack) => exact ⟨hqueue, hattempt, howes.2⟩
    | .error e => exact howes.elim

theorem accounted_expire (hS : Apart D.subscriptions S) (hkept : Kept D S p s)
    (h : EveryCopy p.messageId (Accounted D S p n) s) (hstep : D.expire s i = some s') :
    EveryCopy p.messageId (Accounted D S p n) s' := by
  obtain ⟨l, hi, httl, rfl⟩ := Deployment.expire_cases hstep
  apply h.deadLetter
  intro hid
  obtain ⟨tier, hretry, hletters⟩ := hkept.expires_from hS hi httl hid
  have hnotDlq : l.queue ≠ dlqName S.subscriber S.event := fun hdlq =>
    dlqName_ne_retryQueueName (hdlq.symm.trans hretry)
  obtain ⟨hattempt, hreturns⟩ := (h _ (List.mem_of_getElem? hi) hid).waiting hnotDlq
  refine ⟨accounted_waiting gone_ne_unacked hnotDlq hattempt hreturns, fun x hx => ?_⟩
  rw [hletters] at hx
  rw [List.mem_singleton.mp hx]
  exact accounted_waiting ready_ne_unacked workQueueName_ne_dlqName hattempt (Nat.zero_le _)

/-- Redis answers a delivery of the message, and its lock is free: what can fail is a publish or
the handler. -/
theorem answer_of_redisAnswers {call : ConsumerCall} {outcome : Outcome}
    {r : Except JsError call.Reply} {pt : Point} {a : Action} (hclean : Deployment.CacheClean s)
    (hredis : D.redisAnswers pointMachine l.messageId s a = true)
    (hi : s.copies[i]? = some ⟨l, .unacked d⟩)
    (hmove : Point.Step (D.context l d) d.code call r pt)
    (hsettled : D.settled s call outcome = some (s₁, r))
    (hcall : (a = .perform i outcome ∧ D.callOf pointMachine s i = some call) ∨
      (a = .overtake i outcome ∧ ∃ lock, call = .release lock))
    (hfallible : call.fallible = false) : ∃ v, r = .ok v := by
  have hhandles : Deployment.handles l.messageId s i = true := by
    simp only [Deployment.handles, Deployment.delivery?_eq_some.mpr hi, decide_true]
  match outcome with
  | .resolves => exact hclean.answer hmove hsettled
  | .rejects e effect =>
    rcases hcall with ⟨rfl, hcall⟩ | ⟨rfl, -⟩
    · simp only [Deployment.redisAnswers, hhandles, hcall, Bool.not_true, Bool.false_or,
        Option.all_some, hfallible] at hredis
      exact absurd hredis Bool.false_ne_true
    · simp only [Deployment.redisAnswers, hhandles, Bool.not_true] at hredis
      exact absurd hredis Bool.false_ne_true

theorem free_of_uncontended {call : ConsumerCall} {outcome : Outcome} {a : Action}
    (hfree : D.uncontended pointMachine l.messageId s a = true)
    (hi : s.copies[i]? = some ⟨l, .unacked d⟩)
    (hcall : (a = .perform i outcome ∧ D.callOf pointMachine s i = some call) ∨
      (a = .overtake i outcome ∧ ∃ lock, call = .release lock))
    {key : String} (hkey : call = .acquire key PROCESSING_LOCK_TTL_MS) :
    s.redis.store.entry s.now ("lock:" ++ key) = none := by
  have hhandles : Deployment.handles l.messageId s i = true := by
    simp only [Deployment.handles, Deployment.delivery?_eq_some.mpr hi, decide_true]
  subst hkey
  rcases hcall with ⟨rfl, hcall⟩ | ⟨-, lock, hlock⟩
  · simp only [Deployment.uncontended, hcall, hhandles, Bool.not_true, Bool.false_or] at hfree
    exact Option.isNone_iff_eq_none.mp hfree
  · cases hlock

/-- The only step that rejects an attempt is a call of the handler. -/
theorem accounted_call (hS : Apart D.subscriptions S) (hkept : Kept D S p s)
    (hclean : Deployment.CacheClean s)
    (h : EveryCopy p.messageId (Accounted D S p (rejections S p s)) s) {a : Action}
    {outcome : Outcome} (ha : a.call? = some (i, outcome))
    (hredis : D.redisAnswers pointMachine p.messageId s a = true)
    (hfree : D.uncontended pointMachine p.messageId s a = true)
    (hstep : D.step pointMachine s a = some s') :
    EveryCopy p.messageId (Accounted D S p (rejections S p s')) s' := by
  obtain ⟨l, d, call, r, pt, s₁, left, hi, hmove, hsettled, rfl, -, hcall⟩ :=
    Deployment.call_cases ha hstep
  show EveryCopy p.messageId (Accounted D S p
    (rejections S p (D.resume pointMachine s₁ i l d call r pt)))
    (D.resume pointMachine s₁ i l d call r pt)
  have hn : rejections S p (D.resume pointMachine s₁ i l d call r pt) = rejections S p s +
      (Deployment.settledEntries l d call r).count (.rejected ⟨S, p.messageId, p.payload⟩) :=
    rejections_resume (Deployment.settled_frame hsettled).2.2.1
  have hmono : rejections S p s ≤ rejections S p (D.resume pointMachine s₁ i l d call r pt) := by
    omega
  apply h.resume hi hmove hsettled fun c hc => hc.mono hmono
  · intro hid
    obtain ⟨hqueue, hsub, hparses, hattempt, hreturns, howes⟩ := accounted_running hkept h hi hid
    have hnotDlq : l.queue ≠ dlqName S.subscriber S.event := fun hdlq =>
      workQueueName_ne_dlqName (hqueue.symm.trans hdlq)
    have hfailed : l.failedRepublishes ≤
        Deployment.failedAfter l.failedRepublishes call r := by
      unfold Deployment.failedAfter
      split
      · exact Nat.le_succ _
      · exact Nat.le_refl _
    refine ⟨fun hdlq => absurd hdlq hnotDlq, fun _ => ⟨Nat.le_trans hattempt hmono, ?_⟩, ?_⟩
    · show l.deliveryCount ≤ l.crashes + Deployment.failedAfter l.failedRepublishes call r
      omega
    · intro d' hd'
      rw [← Place.unacked.inj hd']
      refine howes.step hmove ?_ (fun key hkey => ?_) hsettled (hsub ▸ hparses) hid hsub hattempt
        hreturns hn
      · exact answer_of_redisAnswers hclean (hid ▸ hredis) hi hmove hsettled hcall
      · exact free_of_uncontended (hid ▸ hfree) hi hcall hkey
  · intro q hq hid x hx
    subst hq
    obtain ⟨-, hsub, -, -, -, howes⟩ := accounted_running hkept h hi hid
    exact (accounted_republished hS hmove hsub howes x hx).mono hmono

/-- What nobody awaits any more is paid for as what has been published. -/
def StraysAccounted (D : Deployment) (S : Subscription) (p : Published) (n : ℕ)
    (s : MessagingState Point) : Prop :=
  ∀ x ∈ s.strays, ∀ y ∈ D.routed x.publication, y.messageId = p.messageId →
    Accounted D S p n ⟨y, .ready⟩

theorem rejections_mono {a : Action} (hstep : D.step pointMachine s a = some s') :
    rejections S p s ≤ rejections S p s' := by
  cases ha : a.call? with
  | none =>
    unfold rejections
    rw [(Deployment.step_frame ha hstep).2.1]
  | some called =>
    obtain ⟨l, d, call, r, pt, s₁, left, -, -, hsettled, rfl, -⟩ := Deployment.call_cases ha hstep
    have hn : rejections S p (D.resume pointMachine s₁ called.1 l d call r pt) =
        rejections S p s + _ := rejections_resume (Deployment.settled_frame hsettled).2.2.1
    exact hn ▸ Nat.le_add_right _ _

theorem straysAccounted_step (hS : Apart D.subscriptions S) (hkept : Kept D S p s)
    (h : EveryCopy p.messageId (Accounted D S p (rejections S p s)) s)
    (hstrays : StraysAccounted D S p (rejections S p s) s) {a : Action}
    (hstep : D.step pointMachine s a = some s') :
    StraysAccounted D S p (rejections S p s') s' := by
  intro x hx y hy hid
  refine Accounted.mono (rejections_mono hstep) ?_
  rcases Deployment.strays_of_step hstep hx with hold | ⟨l, d, hi, hleft⟩
  · exact hstrays x hold y hy hid
  · have hlid : l.messageId = p.messageId := (messageId_of_leftBehind hleft hy).symm.trans hid
    obtain ⟨-, hsub, -, -, -, howes⟩ := accounted_running hkept h hi hlid
    obtain ⟨pt, hpublish⟩ := hleft
    exact accounted_republished hS hpublish hsub howes y hy

/-- Every step without contention keeps the accounts. -/
theorem accounted_step (hS : Apart D.subscriptions S) (hevent : p.event = S.event)
    (hne : p.messageId ≠ "") (hkept : Kept D S p s) (hclean : Deployment.CacheClean s)
    (h : EveryCopy p.messageId (Accounted D S p (rejections S p s)) s) {a : Action}
    (hstrays : StraysAccounted D S p (rejections S p s) s)
    (hredis : D.redisAnswers pointMachine p.messageId s a = true)
    (hfree : D.uncontended pointMachine p.messageId s a = true)
    (hstep : D.step pointMachine s a = some s') (hids : Unambiguous p s') :
    EveryCopy p.messageId (Accounted D S p (rejections S p s')) s' := by
  cases ha : a.call? with
  | some called => exact accounted_call hS hkept hclean h ha hredis hfree hstep
  | none =>
    have hn : rejections S p s' = rejections S p s := by
      unfold rejections
      rw [(Deployment.step_frame ha hstep).2.1]
    rw [hn]
    match a with
    | .publish event raw messageId requestId =>
      apply h.publish hS hevent hstep hids
      intro l hl
      apply accounted_waiting ready_ne_unacked
      · rw [hl.queue]
        exact workQueueName_ne_dlqName
      · rw [hl.attempt]
        exact Nat.zero_le _
      · rw [hl.deliveryCount]
        exact Nat.zero_le _
    | .deliver i sub now =>
      obtain ⟨l, hi, -, -, rfl⟩ := Deployment.deliver_cases hstep
      apply h.place
      intro hid
      have hold := h _ (List.mem_of_getElem? hi) hid
      refine ⟨hold.parked, hold.waiting, fun d hd => ?_⟩
      -- the message has an id, so it is not parked unread
      have hstart : Context.start ⟨D.z, D.consumer, sub, l.message, now⟩ = .get :=
        if_neg fun hempty => hne (hid.symm.trans hempty)
      rw [← Place.unacked.inj hd, hstart]
      trivial
    | .perform .. | .overtake .. => cases ha
    | .settle i => exact accounted_settle hS hkept h hstep
    | .crash i =>
      obtain ⟨l, d, left, hi, rfl, -⟩ := Deployment.crash_cases hstep
      apply accounted_requeue hS h
      intro hid
      obtain ⟨hqueue, -, -, hattempt, hreturns, -⟩ := accounted_running hkept h hi hid
      refine ⟨hqueue, hattempt, ?_⟩
      show l.deliveryCount + 1 ≤ l.crashes + 1 + l.failedRepublishes
      omega
    | .stray j arrives => exact h.stray hstep hstrays
    | .expire i => exact accounted_expire hS hkept h hstep
    | .tick ms =>
      have hcopies : s'.copies = s.copies := by
        rw [← Option.some.inj hstep]
      exact h.mono hcopies fun c hc => hc

theorem accounted_of_reaches (hS : Apart D.subscriptions S) (hevent : p.event = S.event)
    (hne : p.messageId ≠ "") {ok : MessagingState Point → Action → Prop}
    (hok : ∀ u a, ok u a → D.redisAnswers pointMachine p.messageId u a = true ∧
      D.uncontended pointMachine p.messageId u a = true)
    (h : Reaches (D.step pointMachine) ok (.init Point) s) (hids : Unambiguous p s) :
    EveryCopy p.messageId (Accounted D S p (rejections S p s)) s ∧
      StraysAccounted D S p (rejections S p s) s := by
  induction h with
  | refl => exact ⟨fun c hc => absurd hc List.not_mem_nil, fun x hx => absurd hx List.not_mem_nil⟩
  | tail hu hnext ih =>
    obtain ⟨a, ha, hstep⟩ := hnext
    have hids' : Unambiguous p _ := fun p' hp' => hids p' (Deployment.published_subset hstep hp')
    obtain ⟨haccounted, hstrays⟩ := ih hids'
    have hkept := kept_of_reaches hS hevent hu hids'
    have hclean := Deployment.cacheClean_of_reaches hu
    exact ⟨accounted_step hS hevent hne hkept hclean haccounted hstrays (hok _ a ha).1
      (hok _ a ha).2 hstep hids, straysAccounted_step hS hkept haccounted hstrays hstep⟩

end Steps

/-! ## Runs of the system -/

section Runs

variable {D : Deployment} {S : Subscription} {p : Published} {t : MessagingState Code}

theorem Deployment.handles_toCode (m : String) (s : MessagingState Point) (i : ℕ) :
    handles m (s.toCode D) i = handles m s i := by
  unfold handles
  rw [delivery?_toCode]
  cases delivery? s i <;> rfl

theorem Deployment.redisAnswers_toCode (m : String) (s : MessagingState Point) (a : Action) :
    D.redisAnswers codeMachine m (s.toCode D) a = D.redisAnswers pointMachine m s a := by
  match a with
  | .perform i (.rejects e effect) | .overtake i (.rejects e effect) =>
    simp only [Deployment.redisAnswers, Deployment.callOf_toCode, Deployment.handles_toCode]
  | .perform i .resolves | .overtake i .resolves => rfl
  | .publish .. | .deliver .. | .settle _ | .crash _ | .stray .. | .expire _ | .tick _ => rfl

theorem Deployment.uncontended_toCode (m : String) (s : MessagingState Point) (a : Action) :
    D.uncontended codeMachine m (s.toCode D) a = D.uncontended pointMachine m s a := by
  match a with
  | .perform i outcome =>
    simp only [Deployment.uncontended, Deployment.callOf_toCode, Deployment.handles_toCode]
    rfl
  | .publish .. | .deliver .. | .overtake .. | .settle _ | .crash _ | .stray .. | .expire _
  | .tick _ => rfl

/-- Where Redis answers the deliveries of a message and none of them asks for a lock that is held,
the message is in the DLQ of its only subscriber only if it has earned it. -/
theorem earned_of_uncontended (hevents : ∀ sub ∈ D.subscriptions, HasContract sub.event)
    (hS : S ∈ D.subscriptions)
    (hsole : ∀ sub ∈ D.subscriptions, sub.event = S.event → sub = S)
    (h : Reaches (D.step codeMachine) (fun u a => D.redisAnswers codeMachine p.messageId u a = true ∧
      D.uncontended codeMachine p.messageId u a = true) (.init Code) t)
    (hids : Unambiguous p t) (hevent : p.event = S.event) (hne : p.messageId ≠ "") :
    Earned D S p t := by
  have hapart := Apart.of_hasContract hsole hS hevents
  obtain ⟨s, hs, rfl⟩ := Deployment.reaches_points h
  have hok : ∀ u a, D.redisAnswers codeMachine p.messageId (u.toCode D) a = true ∧
      D.uncontended codeMachine p.messageId (u.toCode D) a = true →
      D.redisAnswers pointMachine p.messageId u a = true ∧
        D.uncontended pointMachine p.messageId u a = true := by
    intro u a hua
    rw [Deployment.redisAnswers_toCode, Deployment.uncontended_toCode] at hua
    exact hua
  have haccounted := (accounted_of_reaches hapart hevent hne hok hs hids).1
  intro c hc hid hqueue
  obtain ⟨x, hx, rfl⟩ := List.mem_map.mp hc
  exact (haccounted x hx hid).parked hqueue

/-- Copy `i` is delivered to `notifications`, and the next calls of `handle` resolve. -/
def attemptOn (i calls : ℕ) : List Action :=
  [.deliver i notifications "2026-06-06T00:00:00Z"] ++ resolving i calls

/-- The messages in the DLQ of `notifications`, each with its crashes and failed republishes. -/
def parkedLetters {P : Type} (s : MessagingState P) : List (String × ℕ × ℕ) :=
  (s.copies.filter fun c => c.queue = "notifications.notification.created.dlq").map
    fun c => (c.messageId, c.crashes, c.failedRepublishes)

/-- Six crashes in a row park the message. -/
theorem earned_of_uncontended_crashes :
    ∃ t, Reaches ((defaultDeployment [notifications]).step codeMachine) (fun u a =>
        (defaultDeployment [notifications]).redisAnswers codeMachine "m1" u a = true ∧
          (defaultDeployment [notifications]).uncontended codeMachine "m1" u a = true) (.init Code) t ∧
      parkedLetters t = [("m1", 6, 0)] ∧
      Earned (defaultDeployment [notifications]) notifications (createdNotification "m1") t := by
  have hrun : (Transition.run ((defaultDeployment [notifications]).step codeMachine)
      (fun u a => (defaultDeployment [notifications]).redisAnswers codeMachine "m1" u a = true ∧
          (defaultDeployment [notifications]).uncontended codeMachine "m1" u a = true) (.init Code)
      ((createdNotification "m1").action ::
        (List.replicate 6 (attemptOn 0 0 ++ [.crash 0])).flatten)).map
      (fun t => decide (t.published = [createdNotification "m1"]) &&
        decide (parkedLetters t = [("m1", 6, 0)])) = some true := by
    decide +kernel
  obtain ⟨t, ht, htest⟩ := Transition.exists_reaches_of_run hrun
  simp only [Bool.and_eq_true, decide_eq_true_eq] at htest
  have hids : Unambiguous (createdNotification "m1") t := by
    intro p hp _
    rw [htest.1] at hp
    exact List.mem_singleton.mp hp
  exact ⟨t, ht, htest.2,
    earned_of_uncontended (by decide) (by decide) (by decide) ht hids rfl (by decide)⟩

/-- A worker crashes once with the lock in hand. Every redelivery in the 30 s that follow finds
the lock held and asks to be requeued, and the fifth return of them parks a message whose
handler has never rejected. -/
theorem not_earned_contention :
    ∃ t, Reaches ((defaultDeployment [notifications]).step codeMachine) (fun u a =>
        (defaultDeployment [notifications]).redisAnswers codeMachine "m1" u a = true) (.init Code) t ∧
      t.now = 0 ∧ parkedLetters t = [("m1", 1, 0)] ∧
      t.log = [.started ⟨notifications, "m1", (createdNotification "m1").payload⟩] ∧
      ¬ Earned (defaultDeployment [notifications]) notifications (createdNotification "m1") t := by
  have hrun : (Transition.run ((defaultDeployment [notifications]).step codeMachine)
      (fun u a => (defaultDeployment [notifications]).redisAnswers codeMachine "m1" u a = true)
      (.init Code)
      ((createdNotification "m1").action :: attemptOn 0 2 ++ [.crash 0] ++
        (List.replicate 5 (attemptOn 0 2 ++ [.settle 0])).flatten)).map
      (fun t => decide (t.now = 0) && decide (parkedLetters t = [("m1", 1, 0)]) &&
        decide (t.log = [.started ⟨notifications, "m1", (createdNotification "m1").payload⟩])) =
      some true := by
    decide +kernel
  obtain ⟨t, ht, htest⟩ := Transition.exists_reaches_of_run hrun
  simp only [Bool.and_eq_true, decide_eq_true_eq] at htest
  obtain ⟨⟨hnow, hparked⟩, hlog⟩ := htest
  refine ⟨t, ht, hnow, hparked, hlog, fun hearned => ?_⟩
  -- the parked letter has one crash and no failed publish behind it, and no rejection
  have hmem : ("m1", 1, 0) ∈ parkedLetters t := by simp [hparked]
  obtain ⟨c, hc, heq⟩ := List.mem_map.mp hmem
  obtain ⟨hc, hqueue⟩ := List.mem_filter.mp hc
  simp only [Prod.mk.injEq] at heq
  obtain ⟨hid, hcrashes, hfailed⟩ := heq
  have hrejections : rejections notifications (createdNotification "m1") t = 0 := by
    rw [rejections, hlog]
    decide
  have hclaim := hearned c hc hid (of_decide_eq_true hqueue)
  rw [hrejections, hcrashes, hfailed] at hclaim
  exact absurd hclaim (by decide)

end Runs

end NestFastify.Messaging
