import NestFastify.Messaging.Conservation

/-!
# No message is wedged

From every state the consumers can reach, whatever has failed and whoever died holding a lock,
a message that waits in its work queue or in a retry tier can still be handled: time passes,
the message is delivered, its calls resolve. What holds this up is that every processing lock
lapses (`LocksLapse`), and that a marker is there only once the handler has resolved.
-/

namespace NestFastify.Messaging

open Transition (Reaches Leads)

/-! ## What is claimed of a message -/

/-- Nothing is published, no call rejects and no worker dies. -/
def Action.Quiet : Action → Prop
  | .publish .. | .perform _ (.rejects ..) | .overtake _ (.rejects ..) | .crash _ | .stray .. =>
    False
  | .deliver .. | .perform _ .resolves | .overtake _ .resolves | .settle _ | .expire _ | .tick _ =>
    True

/-- Besides, only deliveries of the message `m` make calls. -/
def Action.QuietFor {P : Type} (m : String) (s : MessagingState P) (a : Action) : Prop :=
  a.Quiet ∧ ∀ i outcome, a.call? = some (i, outcome) → ∀ c, s.copies[i]? = some c → c.messageId = m

/-- A copy of the message is ready in the queue. -/
def ReadyIn {P : Type} (p : Published) (queue : String) (s : MessagingState P) : Prop :=
  ∃ c ∈ s.copies, c.messageId = p.messageId ∧ c.queue = queue ∧ c.place = .ready

/-- The message waits in its work queue or in a retry tier. -/
def Waiting {P : Type} (D : Deployment) (S : Subscription) (p : Published)
    (s : MessagingState P) : Prop :=
  ReadyIn p (workQueueName S.subscriber S.event) s ∨
    ∃ tier < D.retryDelaysMs.length, ReadyIn p (retryQueueName S.subscriber S.event tier) s

/-- The message is in the DLQ, where no consumer takes it. -/
def Parked {P : Type} (S : Subscription) (p : Published) (s : MessagingState P) : Prop :=
  ReadyIn p (dlqName S.subscriber S.event) s

/-- Every processing lock lapses within its TTL, whatever becomes of its holder. -/
def LocksLapse (s : MessagingState Point) : Prop :=
  ∀ key e, s.redis.store ("lock:" ++ key) = some e →
    ∃ t, e.expireAt = some t ∧ t ≤ s.now + PROCESSING_LOCK_TTL_MS

/-- The delivery of a copy of the message is suspended at a point. -/
def Running (p : Published) (i : ℕ) (pt : Point) (s : MessagingState Point) : Prop :=
  ∃ l d, s.copies[i]? = some ⟨l, .unacked d⟩ ∧ l.messageId = p.messageId ∧ d.code = pt

/-- What is known of every state that is reached. -/
structure Tracked (D : Deployment) (S : Subscription) (p : Published)
    (s : MessagingState Point) : Prop where
  kept : Kept D S p s
  strays : StraysBelong D S p s
  ids : Unambiguous p s
  clean : Deployment.CacheClean s
  lapse : LocksLapse s

section Invariants

variable {D : Deployment} {S : Subscription} {p : Published} {s s' : MessagingState Point}

/-- Every step keeps the locks within their TTL. -/
theorem LocksLapse.step (h : LocksLapse s) {a : Action}
    (hstep : D.step pointMachine s a = some s') : LocksLapse s' := by
  -- only a call changes the store; time may pass, which brings the end of a lock closer
  cases ha : a.call? with
  | none =>
    obtain ⟨hredis, -, hnow⟩ := Deployment.step_frame ha hstep
    intro key e he
    rw [hredis] at he
    obtain ⟨t, ht, hle⟩ := h key e he
    refine ⟨t, ht, ?_⟩
    rcases hnow with hnow | ⟨ms, -, hnow⟩
    · rw [hnow]
      exact hle
    · rw [hnow]
      omega
  | some called =>
    obtain ⟨i, outcome⟩ := called
    obtain ⟨l, d, call, r, pt, s₁, left, -, hmove, hsettled, rfl, -⟩ :=
      Deployment.call_cases ha hstep
    have hnow : s₁.now = s.now := (Deployment.settled_frame hsettled).1
    intro key e he
    show ∃ t, e.expireAt = some t ∧ t ≤ s₁.now + PROCESSING_LOCK_TTL_MS
    rw [hnow]
    have he' : s₁.redis.store ("lock:" ++ key) = some e := he
    rcases Deployment.store_of_settled hmove hsettled ("lock:" ++ key) with
      hsame | ⟨-, -, -, htaken⟩ | ⟨-, hkey, -⟩ | ⟨lock, -, -, -, hnone⟩
    · exact h key e (hsame ▸ he')
    · rw [htaken] at he'
      cases he'
      exact ⟨_, rfl, le_rfl⟩
    · exact absurd hkey.symm (Deployment.cacheKey_ne_lockKey _ _)
    · rw [hnone] at he'
      cases he'

/-- Once the TTL is over, the lock is free. -/
theorem LocksLapse.free (h : LocksLapse s) (key : String) :
    s.redis.store.entry (s.now + (PROCESSING_LOCK_TTL_MS + 1)) ("lock:" ++ key) = none := by
  match hentry : s.redis.store.entry (s.now + (PROCESSING_LOCK_TTL_MS + 1)) ("lock:" ++ key) with
  | none => rfl
  | some ⟨value, expireAt⟩ =>
    obtain ⟨hstored, hlive⟩ := KeyValue.entry_eq_some.mp hentry
    obtain ⟨t, rfl, hle⟩ := h key _ hstored
    rw [KeyValue.live_some] at hlive
    omega

theorem Action.Quiet.not_publish {a : Action} (ha : a.Quiet) (event : String) (raw : Json)
    (messageId : String) (requestId : Option String) :
    a ≠ .publish event raw messageId requestId := by
  intro heq
  rw [heq] at ha
  exact ha

/-- A step without a call makes none. -/
theorem Action.Quiet.quietFor {P : Type} {m : String} {s : MessagingState P} {a : Action}
    (h : a.Quiet) (hcall : a.call? = none) : a.QuietFor m s := by
  refine ⟨h, fun i outcome hsome => ?_⟩
  rw [hcall] at hsome
  cases hsome

/-- The call of a delivery of the message resolves. -/
theorem Action.quietFor_resolves {P : Type} {m : String} {s : MessagingState P} {i : ℕ}
    {c : Copy P} (hi : s.copies[i]? = some c) (hid : c.messageId = m) :
    Action.QuietFor m s (.perform i .resolves) := by
  refine ⟨trivial, fun j outcome hcall c' hc' => ?_⟩
  obtain ⟨rfl, -⟩ := Prod.mk.inj (Option.some.inj hcall)
  rwa [Option.some.inj (hc'.symm.trans hi)]

/-- Every quiet step keeps what is known. -/
theorem Tracked.step (hS : Apart D.subscriptions S) (hevent : p.event = S.event)
    (h : Tracked D S p s) {a : Action} (ha : a.Quiet)
    (hstep : D.step pointMachine s a = some s') : Tracked D S p s' := by
  have hpub : s'.published = s.published := Deployment.published_of_step hstep ha.not_publish
  have hids : Unambiguous p s' := by
    intro p' hp'
    rw [hpub] at hp'
    exact h.ids p' hp'
  exact ⟨h.kept.step hS hevent h.strays hstep hids, h.strays.step hS h.kept hstep, hids,
    h.clean.step hstep, h.lapse.step hstep⟩

/-- It is known of every state that is reached. -/
theorem tracked_of_reaches (hS : Apart D.subscriptions S) (hevent : p.event = S.event)
    {ok : MessagingState Point → Action → Prop}
    (h : Reaches (D.step pointMachine) ok (.init Point) s) (hids : Unambiguous p s) :
    Tracked D S p s := by
  obtain ⟨hkept, hstrays⟩ := kept_strays_of_reaches hS hevent h hids
  refine ⟨hkept, hstrays, hids, Deployment.cacheClean_of_reaches h, ?_⟩
  refine h.invariant (fun key e he => ?_) fun u a v hu _ hv => hu.step hv
  cases he

end Invariants

/-! ## Steps that are always open -/

section Steps

variable {D : Deployment} {S : Subscription} {p : Published} {s s₁ : MessagingState Point}
  {i : ℕ} {l : Letter} {d : Delivery Point} {pt : Point} {call : ConsumerCall}
  {r : Except JsError call.Reply}

/-- The call of a running delivery can resolve. -/
theorem step_resolves {k : Except JsError call.Reply → Point}
    (hi : s.copies[i]? = some ⟨l, .unacked d⟩) (hcode : d.code = pt)
    (hnext : (pt.view (D.context l d)).next = some ⟨call, k⟩)
    (hexec : D.execute s call = some (s₁, r)) :
    D.step pointMachine s (.perform i .resolves) =
      some (D.resume pointMachine s₁ i l d call r (k r)) := by
  have hnext' : (pointMachine.view d.code (D.context l d)).next = some ⟨call, k⟩ := hcode ▸ hnext
  show D.perform pointMachine s i .resolves = _
  unfold Deployment.perform
  rw [Deployment.delivery?_eq_some.mpr hi]
  simp only [hnext']
  show (D.execute s call).map _ = _
  rw [hexec]
  rfl

/-- After its call the delivery is at the next point. -/
theorem running_resume (hi : s.copies[i]? = some ⟨l, .unacked d⟩)
    (hid : l.messageId = p.messageId) (hexec : D.execute s call = some (s₁, r)) (pt' : Point) :
    Running p i pt' (D.resume pointMachine s₁ i l d call r pt') := by
  obtain ⟨-, -, -, letters, hcopies, -⟩ := Deployment.execute_frame hexec
  have hlt : i < s.copies.length := (List.getElem?_eq_some_iff.mp hi).1
  have hcopy : (D.resume pointMachine s₁ i l d call r pt').copies[i]? =
      some ⟨{ l with failedRepublishes := Deployment.failedAfter l.failedRepublishes call r },
        .unacked { d with
          code := pt'
          lockedAt := Deployment.lockedAfter s₁.now d.lockedAt call r
          republished := Deployment.republishedAfter d.republished call r }⟩ := by
    rw [Deployment.copies_resume hi hcopies, List.getElem?_append_left (by simpa using hlt),
      List.getElem?_set_self hlt]
  exact ⟨_, _, hcopy, hid, rfl⟩

/-- A message that is put into a queue is ready there. -/
theorem readyIn_of_delivered {copies : List (Copy Point)} {x : Letter}
    (hcopies : s.copies = copies ++ delivered [x]) (hid : x.messageId = p.messageId) :
    ReadyIn p x.queue s := by
  refine ⟨⟨x, .ready⟩, ?_, hid, rfl, rfl⟩
  rw [hcopies]
  exact List.mem_append_right _ (List.mem_singleton.mpr rfl)

/-- A copy that is returned is ready in its queue. -/
theorem readyIn_place (hlt : i < s.copies.length) (hid : l.messageId = p.messageId) :
    ReadyIn p l.queue (Deployment.place s i l .ready) :=
  ⟨⟨l, .ready⟩, List.mem_set hlt _, hid, rfl, rfl⟩

/-- So is a copy that has been published. -/
theorem readyIn_of_publish {q : Publication} {x : Letter}
    (hi : s.copies[i]? = some ⟨l, .unacked d⟩) (hrouted : D.routed q = [x])
    (hid : x.messageId = p.messageId) (pt' : Point) :
    ReadyIn p x.queue (D.resume pointMachine (Deployment.enqueue s (D.routed q)) i l d
      (.publish q) (.ok ()) pt') := by
  obtain ⟨c, hcopies⟩ : ∃ c, (D.resume pointMachine (Deployment.enqueue s (D.routed q)) i l d
      (.publish q) (.ok ()) pt').copies = s.copies.set i c ++ delivered (D.routed q) :=
    ⟨_, Deployment.copies_resume hi rfl⟩
  rw [hrouted] at hcopies ⊢
  exact readyIn_of_delivered hcopies hid

theorem readyIn_of_ready? {P : Type} {t : MessagingState P} {queue : String}
    (hready : Deployment.ready? t i = some l) (hid : l.messageId = p.messageId)
    (hqueue : l.queue = queue) : ReadyIn p queue t := by
  unfold Deployment.ready? at hready
  split at hready
  · rename_i hi
    cases hready
    exact ⟨_, List.mem_of_getElem? hi, hid, hqueue, rfl⟩
  · cases hready

/-- A consumer of the work queue can take a message that is ready there. -/
theorem step_deliver (hS : Apart D.subscriptions S) (hi : s.copies[i]? = some ⟨l, .ready⟩)
    (hqueue : l.queue = workQueueName S.subscriber S.event) (now : String) :
    D.step pointMachine s (.deliver i S now) = some (Deployment.place s i l (.unacked
      ⟨S, now, Context.start ⟨D.z, D.consumer, S, l.message, now⟩, none, false⟩)) := by
  show D.deliver pointMachine s i S now = _
  unfold Deployment.deliver
  rw [Deployment.ready?_eq_some.mpr hi]
  exact if_pos ⟨hS.mem, hqueue⟩

/-- The TTL of a retry tier can run out for a message that is ready there. -/
theorem step_expire (hS : Apart D.subscriptions S) {tier : ℕ}
    (htier : tier < D.retryDelaysMs.length) (hi : s.copies[i]? = some ⟨l, .ready⟩)
    (hqueue : l.queue = retryQueueName S.subscriber S.event tier) :
    D.step pointMachine s (.expire i) = some (D.deadLetter s i l) := by
  have httl : ((D.topology.queue? l.queue).bind (·.arguments.messageTtl)).isSome = true := by
    rw [hqueue, Deployment.topology, queue?_retryQueueName hS.distinct hS.mem htier]
    rfl
  show D.expire s i = _
  unfold Deployment.expire
  rw [Deployment.ready?_eq_some.mpr hi]
  exact if_pos httl

/-- A lock that is free can be taken. -/
theorem execute_acquire_free {key : String}
    (hfree : s.redis.store.entry s.now ("lock:" ++ key) = none) :
    D.execute s (.acquire key PROCESSING_LOCK_TTL_MS) =
      some (Deployment.locked s key, .ok (some (Redis.Server.plainLock key s.redis.draws))) := by
  have hpos : 0 < PROCESSING_LOCK_TTL_MS := by decide
  have hbound : PROCESSING_LOCK_TTL_MS ≤ Redis.maxInteger.natAbs := by decide
  simp only [Deployment.execute]
  rw [Redis.Server.acquire_of_free hpos hbound hfree]
  rfl

end Steps

/-! ## From a waiting message to a handler that has resolved -/

section Continuations

variable {D : Deployment} {S : Subscription} {p : Published} {s s' : MessagingState Point} {i : ℕ}
  (hS : Apart D.subscriptions S) (hevent : p.event = S.event)

/-- What is known of the delivery of a copy of the message. -/
theorem Tracked.running (h : Tracked D S p s) {l : Letter} {d : Delivery Point}
    (hi : s.copies[i]? = some ⟨l, .unacked d⟩) (hid : l.messageId = p.messageId) :
    Belongs D S p l ∧ l.queue = workQueueName S.subscriber S.event ∧ d.subscription = S ∧
      PointOk S p s d.republished d.code := by
  have hfits : Fits D S p s ⟨l, .unacked d⟩ := h.kept.fits _ (List.mem_of_getElem? hi) hid
  exact ⟨hfits.belongs, hfits.running d rfl⟩

/-- The handler can resolve. -/
theorem Tracked.leads_of_fn (h : Tracked D S p s) {payload : EventPayload} {lock : Redis.Lock}
    (hrun : Running p i (.fn payload lock) s) :
    Leads (D.step pointMachine) (fun u a => a.QuietFor p.messageId u) (Resolved S p) s := by
  obtain ⟨l, d, hi, hid, hcode⟩ := hrun
  obtain ⟨-, -, hsub, hok⟩ := h.running hi hid
  rw [hcode] at hok
  have hpayload : payload = p.payload := hok
  refine Leads.head (Action.quietFor_resolves hi hid) (step_resolves hi hcode rfl rfl)
    (Leads.here ?_)
  refine List.mem_append_left _ (List.mem_append_right _ (List.mem_singleton.mpr ?_))
  show LogEntry.resolved ⟨S, p.messageId, p.payload⟩ =
    .resolved ⟨d.subscription, l.messageId, payload⟩
  rw [hsub, hid, hpayload]

include hS hevent

/-- A continuation that starts with a quiet step. -/
theorem Tracked.head (h : Tracked D S p s) {G : MessagingState Point → Prop} {a : Action}
    (ha : a.QuietFor p.messageId s) (hstep : D.step pointMachine s a = some s')
    (hnext : Tracked D S p s' →
      Leads (D.step pointMachine) (fun u a => a.QuietFor p.messageId u) G s') :
    Leads (D.step pointMachine) (fun u a => a.QuietFor p.messageId u) G s :=
  Leads.head ha hstep (hnext (h.step hS hevent ha.1 hstep))

/-- A continuation that starts with the call of a delivery, which resolves. -/
theorem Tracked.resolves (h : Tracked D S p s) {G : MessagingState Point → Prop} {l : Letter}
    {d : Delivery Point} {pt : Point} {call : ConsumerCall} {s₁ : MessagingState Point}
    {r : Except JsError call.Reply} {k : Except JsError call.Reply → Point}
    (hi : s.copies[i]? = some ⟨l, .unacked d⟩) (hid : l.messageId = p.messageId)
    (hcode : d.code = pt)
    (hfront : (pt.view (D.context l d)).next = some ⟨call, k⟩)
    (hexec : D.execute s call = some (s₁, r))
    (hnext : Tracked D S p (D.resume pointMachine s₁ i l d call r (k r)) →
      Leads (D.step pointMachine) (fun u a => a.QuietFor p.messageId u) G
        (D.resume pointMachine s₁ i l d call r (k r))) :
    Leads (D.step pointMachine) (fun u a => a.QuietFor p.messageId u) G s := by
  have hquiet : Action.QuietFor p.messageId s (.perform i .resolves) :=
    Action.quietFor_resolves hi hid
  exact h.head hS hevent hquiet (step_resolves hi hcode hfront hexec) hnext

/-- A delivery that finds the lock free takes it, and its handler can resolve. -/
theorem Tracked.leads_of_free (h : Tracked D S p s) {payload : EventPayload}
    (hrun : Running p i (.acquire payload) s)
    (hfree : ∀ key, s.redis.store.entry s.now ("lock:" ++ key) = none) :
    Leads (D.step pointMachine) (fun u a => a.QuietFor p.messageId u) (Resolved S p) s := by
  obtain ⟨l, d, hi, hid, hcode⟩ := hrun
  have hexec := execute_acquire_free (D := D) (hfree (lockKey l.messageId))
  refine h.resolves hS hevent hi hid hcode rfl hexec fun hnext => ?_
  exact hnext.leads_of_fn (running_resume hi hid hexec _)

/-- Whoever holds the lock, it lapses, and then the delivery takes it. -/
theorem Tracked.leads_of_acquire (h : Tracked D S p s) {payload : EventPayload}
    (hrun : Running p i (.acquire payload) s) :
    Leads (D.step pointMachine) (fun u a => a.QuietFor p.messageId u) (Resolved S p) s := by
  have hquiet : Action.Quiet (.tick (PROCESSING_LOCK_TTL_MS + 1)) := trivial
  exact h.head hS hevent (hquiet.quietFor rfl) rfl fun hnext =>
    hnext.leads_of_free hS hevent hrun h.lapse.free

/-- The marker says that the handler has resolved, or the delivery goes on to the lock. -/
theorem Tracked.leads_of_get (h : Tracked D S p s) (hrun : Running p i .get s) :
    Leads (D.step pointMachine) (fun u a => a.QuietFor p.messageId u) (Resolved S p) s := by
  obtain ⟨l, d, hi, hid, hcode⟩ := hrun
  obtain ⟨hbelongs, -, hsub, -⟩ := h.running hi hid
  obtain ⟨v, hv⟩ := h.clean.get (doneKey l.messageId)
  -- a marker that is found has been set after the handler resolved
  by_cases hnull : v.isNull = false
  · rw [hid] at hv
    exact Leads.here (h.kept.marked ⟨v, hv, hnull⟩)
  · have hexec : D.execute s (.cacheGet (doneKey l.messageId)) = some (s, .ok v) :=
      congrArg (fun r => some (s, r)) hv
    have hparse : parseEvent D.z d.subscription.event l.message.content = .ok p.payload := by
      rw [hsub]
      exact hbelongs.parses
    have hnext : Point.afterMarker (D.context l d) v = .acquire p.payload := by
      unfold Point.afterMarker
      rw [if_neg hnull]
      simp only [Deployment.context, hparse]
    have hrun : Running p i (.acquire p.payload)
        (D.resume pointMachine s i l d (.cacheGet (doneKey l.messageId)) (.ok v)
          (Point.afterMarker (D.context l d) v)) := by
      rw [hnext]
      exact running_resume hi hid hexec _
    exact h.resolves hS hevent hi hid hcode rfl hexec fun htracked =>
      htracked.leads_of_acquire hS hevent hrun

/-- A message of the work queue can be delivered. -/
theorem Tracked.deliver (h : Tracked D S p s) {G : MessagingState Point → Prop}
    (hready : ReadyIn p (workQueueName S.subscriber S.event) s)
    (hnext : ∀ i s', Tracked D S p s' →
      Running p i (if p.messageId = "" then .reject "missing-message-id" else .get) s' →
      Leads (D.step pointMachine) (fun u a => a.QuietFor p.messageId u) G s') :
    Leads (D.step pointMachine) (fun u a => a.QuietFor p.messageId u) G s := by
  obtain ⟨⟨l, pl⟩, hmem, hid, hqueue, rfl⟩ := hready
  obtain ⟨i, hi⟩ := List.mem_iff_getElem?.mp hmem
  have hlt : i < s.copies.length := (List.getElem?_eq_some_iff.mp hi).1
  have hstart : Context.start ⟨D.z, D.consumer, S, l.message, ""⟩ =
      if p.messageId = "" then .reject "missing-message-id" else .get := by
    rw [← show l.messageId = p.messageId from hid]
    rfl
  have hquiet : Action.Quiet (.deliver i S "") := trivial
  exact h.head hS hevent (hquiet.quietFor rfl) (step_deliver hS hi hqueue "") fun htracked =>
    hnext i _ htracked ⟨l, _, List.getElem?_set_self hlt, hid, hstart⟩

/-- A message of the work queue can be handled. -/
theorem Tracked.leads_of_work (h : Tracked D S p s) (hne : p.messageId ≠ "")
    (hready : ReadyIn p (workQueueName S.subscriber S.event) s) :
    Leads (D.step pointMachine) (fun u a => a.QuietFor p.messageId u) (Resolved S p) s := by
  refine h.deliver hS hevent hready fun i s' hnext hrun => ?_
  rw [if_neg hne] at hrun
  exact hnext.leads_of_get hS hevent hrun

omit hevent in
/-- A message of a retry tier returns to the work queue. -/
theorem ReadyIn.expire {tier : ℕ}
    (hready : ReadyIn p (retryQueueName S.subscriber S.event tier) s)
    (htier : tier < D.retryDelaysMs.length) :
    ∃ i s', D.step pointMachine s (.expire i) = some s' ∧
      ReadyIn p (workQueueName S.subscriber S.event) s' := by
  obtain ⟨⟨l, pl⟩, hmem, hid, hqueue, rfl⟩ := hready
  obtain ⟨i, hi⟩ := List.mem_iff_getElem?.mp hmem
  refine ⟨i, _, step_expire hS htier hi hqueue, ?_⟩
  have hcopies := Deployment.deadLetter_copies (D := D) s i l
  rw [Deployment.deadLettered_retry hS htier hqueue] at hcopies
  exact readyIn_of_delivered hcopies hid

/-- A message that waits can be handled. -/
theorem Tracked.leads_of_waiting (h : Tracked D S p s) (hne : p.messageId ≠ "")
    (hwait : Waiting D S p s) :
    Leads (D.step pointMachine) (fun u a => a.QuietFor p.messageId u) (Resolved S p) s := by
  rcases hwait with hwork | ⟨tier, htier, hretry⟩
  · exact h.leads_of_work hS hevent hne hwork
  · obtain ⟨i, s', hstep, hwork⟩ := hretry.expire hS htier
    have hquiet : Action.Quiet (.expire i) := trivial
    exact h.head hS hevent (hquiet.quietFor rfl) hstep fun hnext =>
      hnext.leads_of_work hS hevent hne hwork

end Continuations

/-! ## From any state -/

section Parking

variable {D : Deployment} {S : Subscription} {p : Published} {s s' : MessagingState Point} {i : ℕ}
  (hS : Apart D.subscriptions S) (hevent : p.event = S.event)

/-- The handler has resolved, or the message is parked. -/
def Closed {P : Type} (S : Subscription) (p : Published) (s : MessagingState P) : Prop :=
  Resolved S p s ∨ Parked S p s

include hS hevent

/-- A message without an id is parked without being tried. -/
theorem Tracked.leads_of_reject (h : Tracked D S p s) {reason : String}
    (hrun : Running p i (.reject reason) s) :
    Leads (D.step pointMachine) (fun u a => a.QuietFor p.messageId u) (Parked S p) s := by
  obtain ⟨l, d, hi, hid, hcode⟩ := hrun
  obtain ⟨-, -, hsub, -⟩ := h.running hi hid
  obtain ⟨headers, -, hrouted⟩ := Deployment.routed_reject (l := l) hS hsub reason
  exact h.resolves hS hevent hi hid hcode rfl rfl fun _ =>
    Leads.here (readyIn_of_publish hi hrouted hid _)

/-- A message that is ready in one of the queues of `S` can be handled or is parked. -/
theorem Tracked.closes_of_ready (h : Tracked D S p s) {queue : String} (hhome : Home D S queue)
    (hready : ReadyIn p queue s) :
    Leads (D.step pointMachine) (fun u a => a.QuietFor p.messageId u) (Closed S p) s := by
  have hwork : ∀ {s}, Tracked D S p s → ReadyIn p (workQueueName S.subscriber S.event) s →
      Leads (D.step pointMachine) (fun u a => a.QuietFor p.messageId u) (Closed S p) s := by
    intro s h hready
    refine h.deliver hS hevent hready fun i s' hnext hrun => ?_
    by_cases hempty : p.messageId = ""
    · rw [if_pos hempty] at hrun
      exact (hnext.leads_of_reject hS hevent hrun).imp fun _ => Or.inr
    · rw [if_neg hempty] at hrun
      exact (hnext.leads_of_get hS hevent hrun).imp fun _ => Or.inl
  rcases hhome with rfl | ⟨tier, htier, rfl⟩ | rfl
  · exact hwork h hready
  · obtain ⟨i, s', hstep, hready'⟩ := hready.expire hS htier
    have hquiet : Action.Quiet (.expire i) := trivial
    exact h.head hS hevent (hquiet.quietFor rfl) hstep fun hnext => hwork hnext hready'
  · exact Leads.here (Or.inr hready)

/-- After a failure the message goes to a retry tier or, with no attempt left, to the DLQ. -/
theorem Tracked.closes_of_failure (h : Tracked D S p s) {pt : Point} {payload : EventPayload}
    {err : JsError} {k : Context → Except JsError Unit → Point} (hrun : Running p i pt s)
    (hfront : ∀ c, (pt.view c).next = some ⟨.publish (c.failurePublication payload err), k c⟩) :
    Leads (D.step pointMachine) (fun u a => a.QuietFor p.messageId u) (Closed S p) s := by
  obtain ⟨l, d, hi, hid, hcode⟩ := hrun
  obtain ⟨-, -, hsub, -⟩ := h.running hi hid
  refine h.resolves hS hevent hi hid hcode (hfront _) rfl fun hnext => ?_
  rcases Deployment.routed_failure (l := l) hS hsub payload err with
    ⟨-, tier, htier, headers, -, hrouted⟩ | ⟨-, headers, -, hrouted⟩
  · exact hnext.closes_of_ready hS hevent (Or.inr (Or.inl ⟨tier, htier, rfl⟩))
      (readyIn_of_publish hi hrouted hid _)
  · exact Leads.here (Or.inr (readyIn_of_publish hi hrouted hid _))

omit hevent in
/-- What leaves the work queue for the dead-letter exchange is parked. -/
theorem parked_of_deadLetter {l : Letter} (hqueue : l.queue = workQueueName S.subscriber S.event)
    (hid : l.messageId = p.messageId) : Parked S p (D.deadLetter s i l) := by
  have hcopies := Deployment.deadLetter_copies (D := D) s i l
  rw [Deployment.deadLettered_work hS hqueue] at hcopies
  exact readyIn_of_delivered hcopies hid

/-- A delivery that ends without an ack returns its message, or parks it. -/
theorem Tracked.closes_of_done (h : Tracked D S p s) {result : Except JsError (Option Nack)}
    (hrun : Running p i (.done result) s) (hnack : result ≠ .ok none) :
    Leads (D.step pointMachine) (fun u a => a.QuietFor p.messageId u) (Closed S p) s := by
  obtain ⟨l, d, hi, hid, hcode⟩ := hrun
  obtain ⟨-, hqueue, -, -⟩ := h.running hi hid
  have hlt : i < s.copies.length := (List.getElem?_eq_some_iff.mp hi).1
  have hquiet : Action.Quiet (.settle i) := trivial
  -- a nack without requeue dead-letters, any other end returns the message
  have hsettle : D.step pointMachine s (.settle i) = some (D.requeue s i l) ∨
      D.step pointMachine s (.settle i) = some (D.deadLetter s i l) := by
    show D.settle pointMachine s i = _ ∨ D.settle pointMachine s i = _
    unfold Deployment.settle
    rw [Deployment.delivery?_eq_some.mpr hi]
    simp only [pointMachine, hcode, Point.view]
    cases result with
    | error e => exact Or.inl rfl
    | ok nack =>
      cases nack with
      | none => exact absurd rfl hnack
      | some nack =>
        obtain ⟨requeue⟩ := nack
        cases requeue with
        | true => exact Or.inl rfl
        | false => exact Or.inr rfl
  rcases hsettle with hreturn | hreject
  · refine h.head hS hevent (hquiet.quietFor rfl) hreturn fun hnext => ?_
    rcases Deployment.requeue_cases (s := s) (i := i) hS hqueue with ⟨-, heq⟩ | ⟨-, heq⟩
    · rw [heq] at hnext ⊢
      have hready := readyIn_place (p := p) (l := { l with deliveryCount := l.deliveryCount + 1 })
        hlt hid
      exact hnext.closes_of_ready hS hevent (Or.inl hqueue) hready
    · rw [heq]
      exact Leads.here (Or.inr (parked_of_deadLetter hS hqueue hid))
  · exact h.head hS hevent (hquiet.quietFor rfl) hreject fun _ =>
      Leads.here (Or.inr (parked_of_deadLetter hS hqueue hid))

/-- The release of a failed delivery can resolve, and the message goes on. -/
theorem Tracked.closes_of_release (h : Tracked D S p s) {lock : Redis.Lock} {nack : Nack}
    (hrun : Running p i (.release lock (some nack)) s) :
    Leads (D.step pointMachine) (fun u a => a.QuietFor p.messageId u) (Closed S p) s := by
  obtain ⟨l, d, hi, hid, hcode⟩ := hrun
  have hexec : ∃ b, D.execute s (.release lock) = some (Deployment.released s lock, .ok b) := by
    obtain ⟨r, hr⟩ : ∃ r, D.execute s (.release lock) = some (Deployment.released s lock, r) :=
      ⟨_, by simp only [Deployment.execute, Redis.Server.release_eq, Option.map_some]; rfl⟩
    have hsettled : D.settled s (.release lock) .resolves = some (Deployment.released s lock, r) :=
      hr
    rcases Deployment.settled_release hsettled with hok | ⟨e, effect, hout, -⟩
    · obtain ⟨-, -, b, rfl⟩ := hok
      exact ⟨b, hr⟩
    · cases hout
  obtain ⟨b, hexec⟩ := hexec
  refine h.resolves hS hevent hi hid hcode rfl hexec fun hnext => ?_
  exact hnext.closes_of_done hS hevent (running_resume hi hid hexec _) fun heq => by cases heq

/-- From every state that is reached, a published message can be handled or parked. -/
theorem Tracked.closes (h : Tracked D S p s) (hp : p ∈ s.published) :
    Leads (D.step pointMachine) (fun u a => a.QuietFor p.messageId u) (Closed S p) s := by
  rcases h.kept.covered hp with hres | ⟨i, ⟨l, pl⟩, hi, hid, hpending⟩
  · exact Leads.here (Or.inl hres)
  have hmem := List.mem_of_getElem? hi
  match pl, hi, hpending with
  | .ready, hi, _ =>
    exact h.closes_of_ready hS hevent (h.kept.fits _ hmem hid).belongs.home
      ⟨_, hmem, hid, rfl, rfl⟩
  | .unacked d, hi, hpending =>
    have hrep : d.republished = false := hpending
    obtain ⟨-, -, -, hok⟩ := h.running hi hid
    rw [hrep] at hok
    match hcode : d.code, hok with
    | .get, _ => exact (h.leads_of_get hS hevent ⟨l, d, hi, hid, hcode⟩).imp fun _ => Or.inl
    | .reject reason, _ =>
      exact (h.leads_of_reject hS hevent ⟨l, d, hi, hid, hcode⟩).imp fun _ => Or.inr
    | .acquire payload, _ =>
      exact (h.leads_of_acquire hS hevent ⟨l, d, hi, hid, hcode⟩).imp fun _ => Or.inl
    | .fn payload lock, _ => exact (h.leads_of_fn ⟨l, d, hi, hid, hcode⟩).imp fun _ => Or.inl
    -- from here on the handler has resolved, or its failure is to be published
    | .mark payload lock, hok => exact Leads.here (Or.inl hok.2)
    | .republish payload lock err, _ =>
      exact h.closes_of_failure hS hevent ⟨l, d, hi, hid, hcode⟩ fun c => rfl
    | .confirm payload err, _ =>
      exact h.closes_of_failure hS hevent ⟨l, d, hi, hid, hcode⟩ fun c => rfl
    | .release lock none, hok => exact Leads.here (Or.inl (hok.resolve_left Bool.false_ne_true))
    | .release lock (some nack), _ => exact h.closes_of_release hS hevent ⟨l, d, hi, hid, hcode⟩
    | .done (.ok none), hok => exact Leads.here (Or.inl (hok.resolve_left Bool.false_ne_true))
    | .done (.ok (some nack)), _ =>
      exact h.closes_of_done hS hevent ⟨l, d, hi, hid, hcode⟩ (fun heq => by cases heq)
    | .done (.error e), _ =>
      exact h.closes_of_done hS hevent ⟨l, d, hi, hid, hcode⟩ (fun heq => by cases heq)

end Parking

/-! ## Runs of the system -/

section Runs

variable {D : Deployment} {S : Subscription} {p : Published} {t : MessagingState Code}

theorem ReadyIn.toCode {queue : String} {s : MessagingState Point} (h : ReadyIn p queue s) :
    ReadyIn p queue (s.toCode D) := by
  obtain ⟨⟨l, pl⟩, hmem, hid, hqueue, rfl⟩ := h
  exact ⟨_, List.mem_map_of_mem hmem, hid, hqueue, rfl⟩

theorem ReadyIn.of_toCode {queue : String} {s : MessagingState Point}
    (h : ReadyIn p queue (s.toCode D)) : ReadyIn p queue s := by
  obtain ⟨c, hmem, hid, hqueue, hplace⟩ := h
  obtain ⟨⟨l, pl⟩, hmem', rfl⟩ := List.mem_map.mp hmem
  refine ⟨⟨l, pl⟩, hmem', hid, hqueue, ?_⟩
  cases pl with
  | ready => rfl
  | unacked d => cases hplace
  | gone => cases hplace

theorem Action.QuietFor.toCode {m : String} {s : MessagingState Point} {a : Action}
    (h : a.QuietFor m s) : a.QuietFor m (s.toCode D) := by
  refine ⟨h.1, fun i outcome hcall c hc => ?_⟩
  have hc' : (s.copies.map (Copy.toCode D))[i]? = some c := hc
  rw [List.getElem?_map] at hc'
  obtain ⟨c₀, hc₀, rfl⟩ := Option.map_eq_some_iff.mp hc'
  exact h.2 i outcome hcall c₀ hc₀

/-- What is reached is the image of a tracked state over points. -/
theorem tracked_of_reaches_code (hS : Apart D.subscriptions S) (hevent : p.event = S.event)
    (h : Reaches (D.step codeMachine) (fun _ _ => True) (.init Code) t)
    (hids : Unambiguous p t) : ∃ s, Tracked D S p s ∧ s.toCode D = t := by
  obtain ⟨s, hs, rfl⟩ := Deployment.reaches_points h
  exact ⟨s, tracked_of_reaches hS hevent hs hids, rfl⟩

/-- The subscription of a published event has queues of its own. -/
theorem apart_of_published (hwn : WellNamed D.subscriptions)
    (hunshared : (D.subscriptions.map Subscription.event).Nodup)
    (h : Reaches (D.step codeMachine) (fun _ _ => True) (.init Code) t) (hp : p ∈ t.published)
    (hS : S ∈ D.subscriptions) (hevent : S.event = p.event) : Apart D.subscriptions S := by
  have hcontract : HasContract S.event := by
    rw [hevent]
    exact Deployment.hasContract_of_reaches h p hp
  refine Apart.of_wellNamed (fun sub hsub heq => ?_) hS hwn hcontract
  exact List.inj_on_of_nodup_map hunshared hsub hS heq

/-- A message that is the only one published so far. -/
theorem unambiguous_of_single (h : t.published = [p]) : Unambiguous p t := by
  rw [Unambiguous, h]
  exact fun p' hp' _ => List.mem_singleton.mp hp'

/-- Whatever has failed and whoever died with the lock: a message that waits in its work queue
or in a retry tier can still be handled, with no call that rejects and no further publish. -/
theorem waiting_resolves (hwn : WellNamed D.subscriptions)
    (hunshared : (D.subscriptions.map Subscription.event).Nodup)
    (h : Reaches (D.step codeMachine) (fun _ _ => True) (.init Code) t)
    (hids : Unambiguous p t) (hp : p ∈ t.published) (hne : p.messageId ≠ "")
    (hS : S ∈ D.subscriptions) (hevent : S.event = p.event) (hwait : Waiting D S p t) :
    Leads (D.step codeMachine) (fun _ a => a.Quiet) (Resolved S p) t := by
  have hapart := apart_of_published hwn hunshared h hp hS hevent
  obtain ⟨s, htracked, rfl⟩ := tracked_of_reaches_code hapart hevent.symm h hids
  have hwait' : Waiting D S p s := by
    rcases hwait with hwork | ⟨tier, htier, hretry⟩
    · exact Or.inl hwork.of_toCode
    · exact Or.inr ⟨tier, htier, hretry.of_toCode⟩
  refine Leads.map (fun u a => Deployment.step_toCode a) ?_
  exact (htracked.leads_of_waiting hapart hevent.symm hne hwait').mono fun _ _ ha => ha.1

/-- The worker died with the lock: the message is back in its queue, and the lock still held. -/
def abandoned : List Action :=
  [(createdNotification "m1").action, .deliver 0 notifications "2026-06-06T00:00:00Z"] ++
    resolving 0 2 ++ [.crash 0]

/-- The message can still be handled though the lock is held by nobody. -/
theorem waiting_resolves_abandoned :
    ∃ t : MessagingState Code, Reaches ((defaultDeployment SUBSCRIPTIONS).step codeMachine)
        (fun _ _ => True) (.init Code) t ∧
      (t.redis.store.entry t.now ("lock:" ++ lockKey "m1")).isSome = true ∧
      Waiting (defaultDeployment SUBSCRIPTIONS) notifications (createdNotification "m1") t ∧
      Leads ((defaultDeployment SUBSCRIPTIONS).step codeMachine) (fun _ a => a.Quiet)
        (Resolved notifications (createdNotification "m1")) t := by
  have hrun : (Transition.run ((defaultDeployment SUBSCRIPTIONS).step codeMachine)
      (fun _ _ => True) (.init Code) abandoned).map
      (fun t => decide (t.published = [createdNotification "m1"] ∧
        (t.redis.store.entry t.now ("lock:" ++ lockKey "m1")).isSome = true ∧
        (Deployment.ready? t 0).map (fun l => (l.messageId, l.queue)) =
          some ("m1", workQueueName notifications.subscriber notifications.event))) =
      some true := by
    decide +kernel
  obtain ⟨t, ht, htest⟩ := Transition.exists_reaches_of_run hrun
  obtain ⟨hpub, hlock, hready⟩ := of_decide_eq_true htest
  obtain ⟨l, hl, hfields⟩ := Option.map_eq_some_iff.mp hready
  have hmem : createdNotification "m1" ∈ t.published := by
    rw [hpub]
    exact List.mem_singleton_self _
  have hwait : Waiting (defaultDeployment SUBSCRIPTIONS) notifications
      (createdNotification "m1") t :=
    Or.inl (readyIn_of_ready? hl (congrArg Prod.fst hfields) (congrArg Prod.snd hfields))
  exact ⟨t, ht, hlock, hwait, waiting_resolves (by decide) (by decide) ht
    (unambiguous_of_single hpub) hmem (by decide) (by decide) rfl hwait⟩

/-- A message that has been published can be handled or parked, by its own deliveries. -/
theorem closes_of_unambiguous (hS : Apart D.subscriptions S) (hevent : p.event = S.event)
    (h : Reaches (D.step codeMachine) (fun _ _ => True) (.init Code) t) (hids : Unambiguous p t)
    (hp : p ∈ t.published) :
    Leads (D.step codeMachine) (fun u a => a.QuietFor p.messageId u)
      (fun u => p ∈ u.published ∧ Closed S p u) t := by
  obtain ⟨s, htracked, rfl⟩ := tracked_of_reaches_code hS hevent h hids
  refine Leads.map (fun u a => Deployment.step_toCode a) ?_
  have hkept := (htracked.closes hS hevent hp).keep (J := fun u => p ∈ u.published) hp
    fun u a v hu _ hstep => Deployment.published_subset hstep hu
  exact (hkept.imp fun u hu => ⟨hu.1, hu.2.imp id ReadyIn.toCode⟩).mono fun _ _ ha => ha.toCode

/-- From every state, each published message can still come to an end: its handler has
resolved, or it is in the DLQ. -/
theorem published_closes (hwn : WellNamed D.subscriptions)
    (hunshared : (D.subscriptions.map Subscription.event).Nodup)
    (h : Reaches (D.step codeMachine) (fun _ _ => True) (.init Code) t)
    (hids : Unambiguous p t) (hp : p ∈ t.published) (hS : S ∈ D.subscriptions)
    (hevent : S.event = p.event) :
    Leads (D.step codeMachine) (fun _ a => a.Quiet) (Closed S p) t :=
  ((closes_of_unambiguous (apart_of_published hwn hunshared h hp hS hevent) hevent.symm h hids
    hp).imp fun _ hu => hu.2).mono fun _ _ ha => ha.1

/-- The handler has failed, and the retry copy is not published yet. -/
theorem published_closes_failing :
    ∃ t : MessagingState Code, Reaches ((defaultDeployment SUBSCRIPTIONS).step codeMachine)
        (fun _ _ => True) (.init Code) t ∧ createdNotification "m1" ∈ t.published ∧
      Leads ((defaultDeployment SUBSCRIPTIONS).step codeMachine) (fun _ a => a.Quiet)
        (Closed notifications (createdNotification "m1")) t := by
  have hrun : (Transition.run ((defaultDeployment SUBSCRIPTIONS).step codeMachine)
      (fun _ _ => True) (.init Code)
      ([(createdNotification "m1").action, .deliver 0 notifications "2026-06-06T00:00:00Z"] ++
        resolving 0 2 ++ [.perform 0 (.rejects (.error "boom") false)])).map
      (fun t => decide (t.published = [createdNotification "m1"])) = some true := by
    decide +kernel
  obtain ⟨t, ht, hpub⟩ := Transition.exists_reaches_of_run hrun
  have hpub' : t.published = [createdNotification "m1"] := of_decide_eq_true hpub
  have hmem : createdNotification "m1" ∈ t.published := by
    rw [hpub']
    exact List.mem_singleton_self _
  exact ⟨t, ht, hmem, published_closes (by decide) (by decide) ht (unambiguous_of_single hpub')
    hmem (by decide) rfl⟩

end Runs

end NestFastify.Messaging
