import NestFastify.Messaging.SingleCopy

/-!
# At most one successful run of the handler

The processing lock keeps the deliveries of a message apart while one of them runs the handler
and sets the done marker. The marker is read before the lock is taken: a delivery that read
it in time to miss it can still take the lock once it is set, and runs the handler again.
Where no delivery takes the lock of a marked message, the handler resolves at most once.
-/

namespace NestFastify.Messaging

open Transition (Reaches)

/-! ## What is assumed and what is claimed -/

def LogEntry.resolves (among : Subscription → Bool) (m : String) : LogEntry → Bool
  | resolved call => call.messageId = m && among call.subscription
  | _ => false

abbrev everyone : Subscription → Bool := fun _ => true

/-- How often a handler of some of the subscriptions has resolved for a message. -/
def resolutions {P : Type} (among : Subscription → Bool) (m : String) (s : MessagingState P) : ℕ :=
  s.log.countP (LogEntry.resolves among m)

/-- A delivery that holds a processing lock has had it for its TTL at most. -/
def Copy.inTime {P : Type} (now : ℕ) (c : Copy P) : Bool :=
  match c.place with
  | .unacked d => d.lockedAt.all fun since => decide (now ≤ since + PROCESSING_LOCK_TTL_MS)
  | _ => true

/-- The done marker of the message is there. -/
def isMarked {P : Type} (m : String) (s : MessagingState P) : Bool :=
  match Redis.RedisCacheService.get s.now s.redis.store (doneKey m) with
  | .ok v => !v.isNull
  | .error _ => false

namespace Deployment

variable {P : Type} (D : Deployment) (M : Machine P) (among : Subscription → Bool) (m : String)
  (s : MessagingState P)

/-- The deliveries of the message that hold its lock finish in time and do not crash, their
`cache.set` and `lock.release` succeed, and the marker of the message does not expire. -/
def holdersFinish : Action → Bool
  | .tick ms => s.copies.all (fun c => decide (c.messageId ≠ m) || c.inTime (s.now + ms)) &&
      (!isMarked m s || isMarked m { s with now := s.now + ms })
  | .crash i =>
    match delivery? s i with
    | some (l, d) => decide (l.messageId ≠ m) || d.lockedAt.isNone
    | none => true
  | .perform i (.rejects ..) =>
    match delivery? s i, D.callOf M s i with
    | some (l, _), some (.cacheSet ..) => decide (l.messageId ≠ m)
    | some (l, _), some (.release _) => decide (l.messageId ≠ m)
    | _, _ => true
  | .overtake i (.rejects ..) =>
    match delivery? s i with
    | some (l, _) => decide (l.messageId ≠ m)
    | none => true
  | _ => true

/-- The step is not the acquire by which a delivery to one of the subscriptions takes the lock of
the message when it is marked. -/
def locksUnmarked : Action → Bool
  | .perform i .resolves =>
    match delivery? s i, D.callOf M s i with
    | some (l, d), some (.acquire key _) =>
        decide (l.messageId ≠ m) || !among d.subscription || !isMarked m s ||
          (s.redis.store.entry s.now ("lock:" ++ key)).isSome
    | _, _ => true
  | _ => true

end Deployment

/-- The test agrees with the marker of the consumer system. -/
theorem isMarked_iff {P : Type} {m : String} {s : MessagingState P} :
    isMarked m s = true ↔ Deployment.Marked s m := by
  unfold isMarked Deployment.Marked
  match Redis.RedisCacheService.get s.now s.redis.store (doneKey m) with
  | .ok v => simp
  | .error e => simp

/-! ## The holder of the lock -/

def Point.holding (p : Point) : ℕ := if p.lock?.isSome then 1 else 0

/-- One, where the marker is being set. -/
def Point.marking : Point → ℕ
  | mark .. => 1
  | _ => 0

def Copy.lock? (c : Copy Point) : Option Redis.Lock :=
  match c.place with
  | .unacked d => d.code.lock?
  | _ => none

/-- A measure of the points where the deliveries of the message are. -/
def here (among : Subscription → Bool) (m : String) (q : Point → ℕ) (c : Copy Point) : ℕ :=
  match c.place with
  | .unacked d => if c.messageId = m ∧ among d.subscription = true then q d.code else 0
  | _ => 0

/-- A delivery has no lock but that of its own message. -/
def OwnLock (c : Copy Point) : Prop :=
  ∀ lock, c.lock? = some lock → lock.lockKey = "lock:" ++ lockKey c.messageId

/-- The store holds the lock for the delivery that has it. -/
def Held (m : String) (s : MessagingState Point) (c : Copy Point) : Prop :=
  ∀ d lock, c.place = .unacked d → d.code.lock? = some lock → ∃ since, d.lockedAt = some since ∧
    s.now ≤ since + PROCESSING_LOCK_TTL_MS ∧ s.redis.store ("lock:" ++ lockKey m) =
      some ⟨.token lock.token, some (since + PROCESSING_LOCK_TTL_MS)⟩

/-- At most one delivery of the message has the lock. -/
structure Exclusive (m : String) (s : MessagingState Point) : Prop where
  held : EveryCopy m (Held m s) s
  one : total (here everyone m Point.holding) s ≤ 1

/-- The handler runs only until it has resolved, and the marker is set right after. -/
structure Once (among : Subscription → Bool) (m : String) (s : MessagingState Point) : Prop where
  running : resolutions among m s + total (here among m Point.starting) s ≤ 1
  marked : Deployment.Marked s m ∨ resolutions among m s ≤ total (here among m Point.marking) s

section Measures

variable {D : Deployment} {among : Subscription → Bool} {m : String}
  {s s' s₁ : MessagingState Point} {i : ℕ} {c : Copy Point} {l : Letter} {d : Delivery Point}
  {q : Point → ℕ}

/-- The handler runs under the lock. -/
theorem starting_le_holding (p : Point) : p.starting ≤ p.holding := by
  match p with
  | .fn _ _ | .mark _ _ | .republish _ _ _ | .release _ _ =>
    simp [Point.starting, Point.holding, Point.lock?]
  | .get | .reject _ | .acquire _ | .confirm _ _ | .done _ => exact Nat.le_refl 0

/-- The marker is set under the lock. -/
theorem marking_le_holding (p : Point) : p.marking ≤ p.holding := by
  match p with
  | .fn _ _ | .mark _ _ | .republish _ _ _ | .release _ _ =>
    simp [Point.marking, Point.holding, Point.lock?]
  | .get | .reject _ | .acquire _ | .confirm _ _ | .done _ => exact Nat.le_refl 0

theorem holding_eq_zero {p : Point} (h : p.lock? = none) : p.holding = 0 := by
  unfold Point.holding
  rw [h]
  rfl

theorem holding_eq_one {p : Point} {lock : Redis.Lock} (h : p.lock? = some lock) :
    p.holding = 1 := by
  unfold Point.holding
  rw [h]
  rfl

/-- Copies of other messages do not count. -/
theorem here_other (hid : c.messageId ≠ m) : here among m q c = 0 := by
  unfold here
  split
  · exact if_neg fun h => hid h.1
  · rfl

/-- A copy without a lock does not count, in a measure of the deliveries that hold one. -/
theorem here_eq_zero (hq : ∀ p, q p ≤ p.holding) (h : c.lock? = none) :
    here among m q c = 0 := by
  unfold here
  unfold Copy.lock? at h
  split
  · rename_i d hd
    rw [hd] at h
    have hzero : q d.code = 0 :=
      Nat.le_zero.mp ((hq d.code).trans (Nat.le_of_eq (holding_eq_zero h)))
    rw [hzero, ite_self]
  · rfl

theorem here_unacked : here among m q ⟨l, .unacked d⟩ =
    if l.messageId = m ∧ among d.subscription = true then q d.code else 0 := rfl

/-- Letters that arrive are in no delivery. -/
theorem here_delivered (letters : List Letter) :
    ((delivered letters).map (here among m q)).sum = 0 := by
  apply List.sum_eq_zero
  intro w hw
  obtain ⟨c, hc, rfl⟩ := List.mem_map.mp hw
  obtain ⟨x, -, rfl⟩ := List.mem_map.mp hc
  rfl

/-- A copy whose lock is not in the store has no lock. -/
theorem Held.of_no_lock (h : c.lock? = none) : Held m s c := by
  intro d lock hd hlock
  unfold Copy.lock? at h
  rw [hd] at h
  exact nomatch hlock.symm.trans h

/-- The lock of a delivery is held as long as the clock and its entry are the same. -/
theorem Held.congr (h : Held m s c) (hnow : s'.now = s.now)
    (hstore : s'.redis.store ("lock:" ++ lockKey m) = s.redis.store ("lock:" ++ lockKey m)) :
    Held m s' c := by
  intro d lock hd hlock
  obtain ⟨since, hsince, hin, hentry⟩ := h d lock hd hlock
  exact ⟨since, hsince, hnow ▸ hin, hstore.trans hentry⟩

/-- While a delivery has the lock, the store shows it. -/
theorem Held.lock_eq_none (h : Held m s c)
    (hfree : s.redis.store.entry s.now ("lock:" ++ lockKey m) = none) : c.lock? = none := by
  match hplace : c.place with
  | .ready | .gone =>
    unfold Copy.lock?
    rw [hplace]
  | .unacked d =>
    match hlock : d.code.lock? with
    | none =>
      unfold Copy.lock?
      rw [hplace]
      exact hlock
    | some lock =>
      obtain ⟨since, -, hin, hentry⟩ := h d lock hplace hlock
      have hlive := KeyValue.entry_eq_some.mpr ⟨hentry, KeyValue.live_some.mpr hin⟩
      rw [hfree] at hlive
      exact nomatch hlive

/-- Where no delivery has the lock, nothing counts. -/
theorem total_eq_zero (hq : ∀ p, q p ≤ p.holding)
    (h : EveryCopy m (fun c => c.lock? = none) s) : total (here among m q) s = 0 := by
  apply List.sum_eq_zero
  intro w hw
  obtain ⟨c, hc, rfl⟩ := List.mem_map.mp hw
  by_cases hid : c.messageId = m
  · exact here_eq_zero hq (h c hc hid)
  · exact here_other hid

/-- Where no delivery has the lock, there is nothing to hold. -/
theorem held_of_total (h : total (here everyone m Point.holding) s = 0) :
    EveryCopy m (Held m s) s := by
  intro c hc hid d lock hd hlock
  have hle := le_total (here everyone m Point.holding) hc
  have hone : here everyone m Point.holding c = 1 := by
    unfold here
    rw [hd]
    exact (if_pos ⟨hid, rfl⟩).trans (holding_eq_one hlock)
  omega

/-- A free lock has no holder. -/
theorem Exclusive.free (h : Exclusive m s) (hq : ∀ p, q p ≤ p.holding)
    (hfree : s.redis.store.entry s.now ("lock:" ++ lockKey m) = none) :
    total (here among m q) s = 0 :=
  total_eq_zero hq fun c hc hid => (h.held c hc hid).lock_eq_none hfree

/-- Different messages have different locks. -/
theorem lockKey_inj {x y : String} (h : "lock:" ++ lockKey x = "lock:" ++ lockKey y) : x = y :=
  (String.append_right_inj "messaging:lock:").mp ((String.append_right_inj "lock:").mp h)

end Measures

/-! ## The calls of a delivery -/

section Perform

variable {D : Deployment} {among : Subscription → Bool} {m : String}
  {s s' s₁ : MessagingState Point} {i : ℕ} {l : Letter} {d : Delivery Point}
  {call : ConsumerCall} {outcome : Outcome} {r : Except JsError call.Reply} {pt pt' : Point}
  {q : Point → ℕ}

/-- A call keeps the lock, or gives it up, or takes it. -/
theorem lock_step (hstep : Point.Step (D.context l d) pt call r pt') :
    pt'.lock? = none ∨
    (pt'.lock? = pt.lock? ∧ Deployment.lockedAfter s.now d.lockedAt call r = d.lockedAt ∧
      (∀ payload, pt ≠ .acquire payload) ∧ ∀ lock, call ≠ .release lock) ∨
    ∃ payload lock, pt = .acquire payload ∧ pt' = .fn payload lock := by
  cases hstep with
  | get_hit | get_miss | get_invalid | get_broken | get_fail | reject_ok | reject_fail
  | acquire_held | acquire_fail | overtake_ok | overtake_fail | confirm_ok | confirm_fail
  | release_ok | release_fail => exact Or.inl rfl
  | fn_ok | fn_fail | mark_ok | mark_fail | republish_ok | republish_fail =>
    exact Or.inr (Or.inl ⟨rfl, rfl, by simp, by simp⟩)
  | acquire_ok payload lock => exact Or.inr (Or.inr ⟨payload, lock, rfl, rfl⟩)

/-- The lock that a delivery acquires is that of its message. -/
theorem ownLock_resume (h : ∀ c ∈ s.copies, OwnLock c)
    (hi : s.copies[i]? = some ⟨l, .unacked d⟩)
    (hstep : Point.Step (D.context l d) d.code call r pt')
    (hsettled : D.settled s call outcome = some (s₁, r)) :
    ∀ c ∈ (D.resume pointMachine s₁ i l d call r pt').copies, OwnLock c := by
  obtain ⟨-, -, -, letters, hcopies, -⟩ := Deployment.settled_frame hsettled
  intro c hc
  rw [Deployment.copies_resume hi hcopies] at hc
  rcases mem_moved hc with hold | rfl | ⟨x, -, rfl⟩
  · exact h c hold
  · intro lock hlock
    have hcode : pt'.lock? = some lock := hlock
    rcases lock_step (s := s) hstep with hnone | ⟨hkeeps, -⟩ | ⟨payload, lock', hpt, rfl⟩
    · exact nomatch hnone.symm.trans hcode
    · exact h _ (List.mem_of_getElem? hi) lock (hkeeps.symm.trans hcode)
    · rw [hpt] at hstep
      cases hstep with
      | acquire_ok =>
        rcases Deployment.settled_acquire hsettled with hheld | hfree | ⟨e, effect, -, he, -⟩
        · exact nomatch hheld.2.2.2
        · rw [← Option.some.inj hcode, Option.some.inj (Except.ok.inj hfree.2.2.2)]
          rfl
        · exact nomatch he
  · exact fun lock hlock => nomatch hlock

/-- A step of a delivery replaces what its point counts for. -/
theorem total_here_resume (among : Subscription → Bool) (m : String) (q : Point → ℕ) (pt' : Point)
    (hi : s.copies[i]? = some ⟨l, .unacked d⟩)
    (hsettled : D.settled s call outcome = some (s₁, r)) :
    total (here among m q) (D.resume pointMachine s₁ i l d call r pt') +
        (if l.messageId = m ∧ among d.subscription = true then q d.code else 0) =
      total (here among m q) s +
        if l.messageId = m ∧ among d.subscription = true then q pt' else 0 := by
  obtain ⟨-, -, -, letters, hcopies, -⟩ := Deployment.settled_frame hsettled
  have hmoved := total_moved (here among m q) hi
    (Deployment.copies_resume (D := D) (r := r) (p := pt') hi hcopies)
  rw [here_delivered, here_unacked, here_unacked] at hmoved
  exact hmoved

/-- A call of a delivery leaves at most one holder. -/
theorem Exclusive.resume (hown : ∀ c ∈ s.copies, OwnLock c) (h : Exclusive m s)
    (hi : s.copies[i]? = some ⟨l, .unacked d⟩)
    (hstep : Point.Step (D.context l d) d.code call r pt')
    (hsettled : D.settled s call outcome = some (s₁, r)) :
    Exclusive m (D.resume pointMachine s₁ i l d call r pt') := by
  have hmem := List.mem_of_getElem? hi
  have hnow : s₁.now = s.now := (Deployment.settled_frame hsettled).1
  have hone := h.one
  have htotal := total_here_resume everyone m Point.holding pt' hi hsettled
  simp only [everyone, and_true] at htotal
  -- the copies besides this one, when the entry of the lock has not changed
  have hother : s₁.redis.store ("lock:" ++ lockKey m) = s.redis.store ("lock:" ++ lockKey m) →
      ∀ c, Held m s c → Held m (D.resume pointMachine s₁ i l d call r pt') c :=
    fun hsame c hc => hc.congr hnow hsame
  -- and when the lock was free
  have hunlocked : s.redis.store.entry s.now ("lock:" ++ lockKey m) = none →
      ∀ c, Held m s c → Held m (D.resume pointMachine s₁ i l d call r pt') c :=
    fun hfree c hc => Held.of_no_lock (hc.lock_eq_none hfree)
  rcases lock_step (s := s) hstep with hnone | ⟨hkeeps, hlockedAt, hnotAcquire, hnotRelease⟩ | htakes
  · -- no lock afterwards
    rw [holding_eq_zero hnone, ite_self] at htotal
    have hlocal : Held m (D.resume pointMachine s₁ i l d call r pt')
        ⟨{ l with failedRepublishes := Deployment.failedAfter l.failedRepublishes call r },
          .unacked { d with
            code := pt'
            lockedAt := Deployment.lockedAfter s₁.now d.lockedAt call r
            republished := Deployment.republishedAfter d.republished call r }⟩ :=
      Held.of_no_lock hnone
    have hrest : (∀ c, Held m s c → Held m (D.resume pointMachine s₁ i l d call r pt') c) →
        Exclusive m (D.resume pointMachine s₁ i l d call r pt') := by
      intro hQ
      constructor
      · exact h.held.resume hi hstep hsettled hQ (fun _ => hlocal)
          fun _ _ _ _ _ => Held.of_no_lock rfl
      · omega
    rcases Deployment.store_of_settled hstep hsettled ("lock:" ++ lockKey m) with
      hsame | ⟨-, -, hfree, -⟩ | ⟨-, hkey, -⟩ | ⟨lock, hlock, -, hkey, -⟩
    · exact hrest (hother hsame)
    · exact hrest (hunlocked hfree)
    · exact absurd hkey.symm (Deployment.cacheKey_ne_lockKey _ _)
    · -- the holder has released the lock
      have hid : l.messageId = m := lockKey_inj ((hown _ hmem lock hlock).symm.trans hkey.symm)
      rw [if_pos hid, holding_eq_one hlock] at htotal
      constructor
      · exact held_of_total (by omega)
      · omega
  · -- the lock is kept
    have hholding : pt'.holding = d.code.holding := by
      unfold Point.holding
      rw [hkeeps]
    have hsame : s₁.redis.store ("lock:" ++ lockKey m) =
        s.redis.store ("lock:" ++ lockKey m) := by
      rcases Deployment.store_of_settled hstep hsettled ("lock:" ++ lockKey m) with
        hsame | ⟨⟨payload, hcode⟩, -⟩ | ⟨-, hkey, -⟩ | ⟨lock, -, hcall, -⟩
      · exact hsame
      · exact absurd hcode (hnotAcquire payload)
      · exact absurd hkey.symm (Deployment.cacheKey_ne_lockKey _ _)
      · exact absurd hcall (hnotRelease lock)
    constructor
    · apply h.held.resume hi hstep hsettled (hother hsame)
      · intro hid d' lock hd' hlock
        rw [← Place.unacked.inj hd'] at hlock ⊢
        obtain ⟨since, hsince, hin, hentry⟩ :=
          h.held _ hmem hid d lock rfl (hkeeps.symm.trans hlock)
        refine ⟨since, ?_, hnow ▸ hin, hsame.trans hentry⟩
        show Deployment.lockedAfter s₁.now d.lockedAt call r = some since
        rw [hnow, hlockedAt]
        exact hsince
      · exact fun _ _ _ _ _ => Held.of_no_lock rfl
    · rw [hholding] at htotal
      omega
  · -- the lock is taken
    obtain ⟨payload, lock, hcode, rfl⟩ := htakes
    rw [hcode] at hstep htotal
    cases hstep with
    | acquire_ok =>
      rcases Deployment.settled_acquire hsettled with hheld | hfree | ⟨e, effect, -, he, -⟩
      · exact nomatch hheld.2.2.2
      · obtain ⟨hentry, rfl, -, hreply⟩ := hfree
        have hlock : lock = Redis.Server.plainLock (lockKey l.messageId) s.redis.draws :=
          Option.some.inj (Except.ok.inj hreply)
        by_cases hid : l.messageId = m
        · have hzero : total (here everyone m Point.holding) s = 0 :=
            h.free (fun p => Nat.le_refl _) (hid ▸ hentry)
          constructor
          · apply h.held.resume hi (hcode ▸ .acquire_ok payload lock) hsettled
              (hunlocked (hid ▸ hentry))
            · intro _ d' lock' hd' hlock'
              rw [← Place.unacked.inj hd'] at hlock' ⊢
              rw [← Option.some.inj hlock', hlock, ← hid]
              exact ⟨s.now, rfl, Nat.le_add_right _ _, KeyValue.set_self⟩
            · exact fun _ _ _ _ _ => Held.of_no_lock rfl
          · rw [if_pos hid, if_pos hid] at htotal
            have hpt : (Point.fn payload lock).holding = 1 := rfl
            omega
        · have hne : "lock:" ++ lockKey m ≠ "lock:" ++ lockKey l.messageId :=
            fun heq => hid (lockKey_inj heq).symm
          constructor
          · apply h.held.resume hi (hcode ▸ .acquire_ok payload lock) hsettled
              (hother (KeyValue.set_ne hne))
            · exact fun hid' => absurd hid' hid
            · exact fun _ _ _ _ _ => Held.of_no_lock rfl
          · rw [if_neg hid, if_neg hid] at htotal
            omega
      · exact nomatch he

/-- A marker that has not expired is there. -/
theorem marked_of_entry {t : ℕ} (hentry : s.redis.store (Redis.RedisCacheService.key (doneKey m)) =
    some ⟨.json (.num 1), some t⟩) (hnow : s.now ≤ t) : Deployment.Marked s m := by
  have hlive := KeyValue.entry_eq_some.mpr ⟨hentry, KeyValue.live_some.mpr hnow⟩
  refine ⟨.num 1, ?_, rfl⟩
  unfold Redis.RedisCacheService.get KeyValue.get
  rw [hlive]
  rfl

/-- No call of a delivery takes a marker away. -/
theorem marked_resume (hown : ∀ c ∈ s.copies, OwnLock c)
    (hi : s.copies[i]? = some ⟨l, .unacked d⟩)
    (hstep : Point.Step (D.context l d) d.code call r pt')
    (hsettled : D.settled s call outcome = some (s₁, r)) (hm : Deployment.Marked s m) :
    Deployment.Marked s₁ m := by
  have hnow : s₁.now = s.now := (Deployment.settled_frame hsettled).1
  rcases Deployment.store_of_settled hstep hsettled (Redis.RedisCacheService.key (doneKey m)) with
    hsame | ⟨-, hkey, -⟩ | ⟨-, -, hentry⟩ | ⟨lock, hlock, -, hkey, -⟩
  · exact hm.congr hnow.symm hsame.symm
  · exact absurd hkey (Deployment.cacheKey_ne_lockKey _ _)
  · exact marked_of_entry hentry (hnow ▸ Nat.le_add_right _ _)
  · have hlockKey := hown _ (List.mem_of_getElem? hi) lock hlock
    exact absurd (hkey.trans hlockKey) (Deployment.cacheKey_ne_lockKey _ _)

/-- A step of a delivery adds the resolutions that it records. -/
theorem resolutions_resume (among : Subscription → Bool) (m : String) (pt' : Point)
    (hlog : s₁.log = s.log) :
    resolutions among m (D.resume pointMachine s₁ i l d call r pt') = resolutions among m s +
      (Deployment.settledEntries l d call r).countP (LogEntry.resolves among m) := by
  have hstarted : (Deployment.startedEntries l d (pointMachine.view pt' (D.context l d))).countP
      (LogEntry.resolves among m) = 0 := by
    unfold Deployment.startedEntries
    split
    · rfl
    · rfl
  unfold resolutions
  show (s₁.log ++ Deployment.settledEntries l d call r ++
    Deployment.startedEntries l d (pointMachine.view pt' (D.context l d))).countP _ = _
  rw [List.countP_append, List.countP_append, hstarted, hlog, Nat.add_zero]

/-- The handler that has resolved counts for its message and its subscription. -/
theorem resolves_fnCall (payload : EventPayload) :
    [LogEntry.resolved (Deployment.fnCall l d payload)].countP (LogEntry.resolves among m) =
      if l.messageId = m ∧ among d.subscription = true then 1 else 0 := by
  rw [List.countP_singleton]
  refine if_congr ?_ rfl rfl
  rw [LogEntry.resolves, Bool.and_eq_true, decide_eq_true_eq]
  exact Iff.rfl

/-- What a call does to the run of the handler: it resolves, it is started, its marker is set,
or none of these. -/
theorem once_step (hstep : Point.Step (D.context l d) pt call r pt')
    (hid : l.messageId = m ∧ among d.subscription = true) :
    ((Deployment.settledEntries l d call r).countP (LogEntry.resolves among m) = 1 ∧
      pt.starting = 1 ∧ pt'.starting = 0 ∧ pt.marking = 0 ∧ pt'.marking = 1) ∨
    ((Deployment.settledEntries l d call r).countP (LogEntry.resolves among m) = 0 ∧
      ((∃ payload lock, pt = .acquire payload ∧ pt' = .fn payload lock) ∨
      (∃ payload lock, pt = .mark payload lock ∧ pt'.starting = 0 ∧ pt'.marking = 0) ∨
      (pt'.starting = 0 ∧ pt.marking = 0 ∧ pt'.marking = 0))) := by
  cases hstep with
  | fn_ok payload lock =>
    refine Or.inl ⟨?_, rfl, rfl, rfl, rfl⟩
    exact (resolves_fnCall payload).trans (if_pos hid)
  | acquire_ok payload lock => exact Or.inr ⟨rfl, Or.inl ⟨payload, lock, rfl, rfl⟩⟩
  | mark_ok payload lock => exact Or.inr ⟨rfl, Or.inr (Or.inl ⟨payload, lock, rfl, rfl, rfl⟩)⟩
  | mark_fail payload lock e =>
    exact Or.inr ⟨rfl, Or.inr (Or.inl ⟨payload, lock, rfl, rfl, rfl⟩)⟩
  | get_hit | get_miss | get_invalid | get_broken | get_fail | reject_ok | reject_fail
  | acquire_held | acquire_fail | fn_fail | republish_ok | republish_fail | overtake_ok
  | overtake_fail | confirm_ok | confirm_fail | release_ok | release_fail =>
    exact Or.inr ⟨rfl, Or.inr (Or.inr ⟨rfl, rfl, rfl⟩)⟩

/-- A lock that is taken was free. -/
theorem free_of_acquired {payload payload' : EventPayload} {lock : Redis.Lock}
    (hstep : Point.Step (D.context l d) (.acquire payload) call r (.fn payload' lock))
    (hsettled : D.settled s call outcome = some (s₁, r)) :
    call = .acquire (lockKey l.messageId) PROCESSING_LOCK_TTL_MS ∧ outcome = .resolves ∧
      s.redis.store.entry s.now ("lock:" ++ lockKey l.messageId) = none := by
  cases hstep with
  | acquire_ok =>
    rcases Deployment.settled_acquire hsettled with hheld | hfree | ⟨e, effect, -, he, -⟩
    · exact nomatch hheld.2.2.2
    · exact ⟨rfl, hfree.2.2.1, hfree.1⟩
    · exact nomatch he

/-- The marker is set for a positive time. -/
theorem ttl_pos_of_step {key : String} {value : Json} {ttl : ℕ} {r : Except JsError Unit}
    (hstep : Point.Step (D.context l d) pt (.cacheSet key value ttl) r pt') : 0 < ttl := by
  cases hstep with
  | mark_ok | mark_fail => exact D.env.RABBITMQ_IDEMPOTENCY_TTL.pos

/-- A `cache.set` of the marker that has not rejected leaves it there. -/
theorem marked_of_mark {payload : EventPayload} {lock : Redis.Lock}
    (hstep : Point.Step (D.context l d) (.mark payload lock) call r pt')
    (hsettled : D.settled s call outcome = some (s₁, r))
    (hmark : ∀ key value ttl, call = .cacheSet key value ttl → ∃ v, r = .ok v) :
    Deployment.Marked s₁ l.messageId := by
  have hanswer : ∀ {r : Except JsError Unit}, (∃ v, r = .ok v) →
      D.settled s (.cacheSet (doneKey l.messageId) (.num 1) D.consumer.idempotencyTtl) outcome =
        some (s₁, r) → Deployment.Marked s₁ l.messageId := by
    intro r hr hsettled
    rcases Deployment.settled_cacheSet D.env.RABBITMQ_IDEMPOTENCY_TTL.pos hsettled with
      ⟨-, rfl⟩ | ⟨e, effect, -, he, -⟩
    · apply marked_of_entry (t := s.now + 1000 * D.consumer.idempotencyTtl)
      · exact KeyValue.set_self
      · exact Nat.le_add_right _ _
    · obtain ⟨v, hv⟩ := hr
      rw [he] at hv
      exact nomatch hv
  cases hstep with
  | mark_ok => exact hanswer ⟨(), rfl⟩ hsettled
  | mark_fail => exact hanswer (hmark _ _ _ rfl) hsettled

/-- The step that runs the handler, and those around it. -/
theorem Once.resume (hown : ∀ c ∈ s.copies, OwnLock c) (he : Exclusive m s)
    (h : Once among m s) (hi : s.copies[i]? = some ⟨l, .unacked d⟩)
    (hstep : Point.Step (D.context l d) d.code call r pt')
    (hsettled : D.settled s call outcome = some (s₁, r))
    (hmark : l.messageId = m → ∀ key value ttl, call = .cacheSet key value ttl → ∃ v, r = .ok v)
    (hlocks : l.messageId = m → among d.subscription = true →
      (∃ payload lock, pt' = .fn payload lock) →
        ∀ payload, d.code = .acquire payload → ¬ Deployment.Marked s m) :
    Once among m (D.resume pointMachine s₁ i l d call r pt') := by
  have hrunning := h.running
  have hres := resolutions_resume (D := D) (i := i) (l := l) (d := d) (r := r) among m pt'
    (Deployment.settled_frame hsettled).2.2.1
  have hstarting := total_here_resume among m Point.starting pt' hi hsettled
  have hmarking := total_here_resume among m Point.marking pt' hi hsettled
  have hkeep : Deployment.Marked s m →
      Deployment.Marked (D.resume pointMachine s₁ i l d call r pt') m := by
    intro hm
    have hm₁ : Deployment.Marked s₁ m := marked_resume hown hi hstep hsettled hm
    exact hm₁
  by_cases hid : l.messageId = m ∧ among d.subscription = true
  · rw [if_pos hid, if_pos hid] at hstarting hmarking
    rcases once_step hstep hid with ⟨hcount, hs, hs', hk, hk'⟩ |
      ⟨hcount, ⟨payload, lock, hcode, rfl⟩ | ⟨payload, lock, hcode, hs', hk'⟩ | ⟨hs', hk, hk'⟩⟩
    · -- the handler resolves
      constructor
      · omega
      · exact Or.inr (by omega)
    · -- the lock is taken: it was free, so nothing runs, and nothing has resolved
      rw [hcode] at hstep
      obtain ⟨-, -, hfree⟩ := free_of_acquired hstep hsettled
      rw [hid.1] at hfree
      have hnone : total (here among m Point.starting) s = 0 := he.free starting_le_holding hfree
      have hnone' : total (here among m Point.marking) s = 0 := he.free marking_le_holding hfree
      have hunmarked := hlocks hid.1 hid.2 ⟨payload, lock, rfl⟩ payload hcode
      have hzero := h.marked.resolve_left hunmarked
      have hs' : (Point.fn payload lock).starting = 1 := rfl
      constructor
      · omega
      · exact Or.inr (by omega)
    · -- the marker is set
      rw [hcode] at hstep hmarking
      have hm₁ := marked_of_mark hstep hsettled (hmark hid.1)
      rw [hid.1] at hm₁
      constructor
      · omega
      · exact Or.inl hm₁
    · constructor
      · omega
      · refine h.marked.imp hkeep fun hle => ?_
        omega
  · -- a delivery of another message, or to another subscription
    have hcount : (Deployment.settledEntries l d call r).countP
        (LogEntry.resolves among m) = 0 := by
      unfold Deployment.settledEntries
      split
      · rw [resolves_fnCall, if_neg hid]
      · rfl
      · rfl
    rw [hcount, Nat.add_zero] at hres
    rw [if_neg hid, if_neg hid, Nat.add_zero, Nat.add_zero] at hstarting hmarking
    constructor
    · rw [hres, hstarting]
      exact hrunning
    · rw [hres, hmarking]
      exact h.marked.imp_left hkeep

end Perform

/-! ## Moves of the broker -/

section Moves

variable {D : Deployment} {among : Subscription → Bool} {m : String} {s s' : MessagingState Point}
  {q : Point → ℕ} {a : Action}

/-- A copy changes without getting a lock, and letters are added. -/
def Moves (s s' : MessagingState Point) (i : ℕ) : Prop :=
  ∃ c' letters, s'.copies = s.copies.set i c' ++ delivered letters ∧ c'.lock? = none

/-- Each step without a call moves one copy. -/
theorem moves_place {l : Letter} {pl : Place Point} (i : ℕ) (h : (Copy.mk l pl).lock? = none) :
    Moves s (Deployment.place s i l pl) i := ⟨_, _, Deployment.place_copies s i l pl, h⟩

theorem moves_deadLetter (i : ℕ) (l : Letter) : Moves s (D.deadLetter s i l) i :=
  ⟨_, _, Deployment.deadLetter_copies s i l, rfl⟩

theorem moves_requeue (i : ℕ) (l : Letter) : Moves s (D.requeue s i l) i := by
  rcases Deployment.requeue_eq (D := D) s i l with heq | heq
  · rw [heq]
    exact moves_place i rfl
  · rw [heq]
    exact moves_deadLetter i l

/-- Apart from the calls, a step adds letters, or changes one copy without giving it a lock. -/
theorem moves_of_step (ha : a.call? = none)
    (hstep : D.step pointMachine s a = some s') :
    (∃ letters, s'.copies = s.copies ++ delivered letters) ∨
      ∃ i c, s.copies[i]? = some c ∧ Moves s s' i ∧ (c.lock? = none ∨ a = .crash i) := by
  match a with
  | .publish event raw messageId requestId =>
    obtain ⟨payload, -, rfl⟩ := Deployment.publish_cases hstep
    exact Or.inl ⟨_, rfl⟩
  | .deliver i sub now =>
    obtain ⟨l, hi, -, -, rfl⟩ := Deployment.deliver_cases hstep
    refine Or.inr ⟨i, _, hi, moves_place i ?_, Or.inl rfl⟩
    show (Context.start _).lock? = none
    unfold Context.start
    split
    · rfl
    · rfl
  | .perform .. | .overtake .. => cases ha
  | .settle i =>
    obtain ⟨l, d, result, hi, hcode, hack | hreject | hreturn⟩ := Deployment.settle_cases hstep
    all_goals
      have hnone : (Copy.mk l (.unacked d)).lock? = none := by
        show d.code.lock? = none
        rw [hcode]
        rfl
    · obtain ⟨-, rfl⟩ := hack
      exact Or.inr ⟨i, _, hi, moves_place i rfl, Or.inl hnone⟩
    · obtain ⟨-, rfl⟩ := hreject
      exact Or.inr ⟨i, _, hi, moves_deadLetter i l, Or.inl hnone⟩
    · obtain ⟨-, rfl⟩ := hreturn
      exact Or.inr ⟨i, _, hi, moves_requeue i l, Or.inl hnone⟩
  | .crash i =>
    obtain ⟨l, d, left, hi, rfl, -⟩ := Deployment.crash_cases hstep
    exact Or.inr ⟨i, _, hi, moves_requeue i _, Or.inr rfl⟩
  | .stray j arrives =>
    obtain ⟨x, letters, -, -, rfl⟩ := Deployment.stray_cases hstep
    exact Or.inl ⟨letters, rfl⟩
  | .expire i =>
    obtain ⟨l, hi, -, rfl⟩ := Deployment.expire_cases hstep
    exact Or.inr ⟨i, _, hi, moves_deadLetter i l, Or.inl rfl⟩
  | .tick ms =>
    refine Or.inl ⟨[], ?_⟩
    rw [← Option.some.inj hstep]
    exact (List.append_nil _).symm

/-- A delivery of the message without the lock may crash. -/
theorem unlocked_of_crash (h : Exclusive m s) {i : ℕ} {c : Copy Point}
    (hguard : D.holdersFinish pointMachine m s (.crash i) = true) (hi : s.copies[i]? = some c)
    (hid : c.messageId = m) : c.lock? = none := by
  match c, hi with
  | ⟨l, .ready⟩, _ | ⟨l, .gone⟩, _ => rfl
  | ⟨l, .unacked d⟩, hi =>
    have hown : l.messageId = m := hid
    simp only [Deployment.holdersFinish, Deployment.delivery?_eq_some.mpr hi, hown, ne_eq,
      not_true, decide_false, Bool.false_or] at hguard
    match hlock : d.code.lock? with
    | none => exact hlock
    | some lock =>
      obtain ⟨since, hsince, -⟩ := h.held _ (List.mem_of_getElem? hi) hid d lock rfl hlock
      rw [hsince] at hguard
      exact absurd hguard Bool.false_ne_true

/-- Only a call gives a delivery its lock. -/
theorem ownLock_moved (h : ∀ c ∈ s.copies, OwnLock c) (ha : a.call? = none)
    (hstep : D.step pointMachine s a = some s') : ∀ c ∈ s'.copies, OwnLock c := by
  intro x hx
  rcases moves_of_step ha hstep with ⟨letters, hcopies⟩ | ⟨i, c, -, ⟨c', letters, hcopies, hc'⟩, -⟩
  · rw [hcopies] at hx
    rcases List.mem_append.mp hx with hx | hx
    · exact h x hx
    · obtain ⟨l, -, rfl⟩ := List.mem_map.mp hx
      exact fun lock hlock => nomatch hlock
  · rw [hcopies] at hx
    rcases mem_moved hx with hx | rfl | ⟨l, -, rfl⟩
    · exact h x hx
    · exact fun lock hlock => nomatch hc'.symm.trans hlock
    · exact fun lock hlock => nomatch hlock

/-- A step without a call leaves the count as it is, unless it crashes a holder. -/
theorem total_here_step (hq : ∀ p, q p ≤ p.holding) (ha : a.call? = none)
    (hcrash : ∀ i c, a = .crash i → s.copies[i]? = some c → c.messageId = m → c.lock? = none)
    (hstep : D.step pointMachine s a = some s') :
    total (here among m q) s' = total (here among m q) s := by
  rcases moves_of_step ha hstep with ⟨letters, hcopies⟩ | ⟨i, c, hi, ⟨c', letters, hcopies, hc'⟩, hc⟩
  · unfold total
    rw [hcopies, List.map_append, List.sum_append, here_delivered, Nat.add_zero]
  · have hmoved := total_moved (here among m q) hi hcopies
    have hzero : here among m q c = 0 := by
      by_cases hid : c.messageId = m
      · apply here_eq_zero hq
        rcases hc with hnone | hcrashed
        · exact hnone
        · exact hcrash i c hcrashed hi hid
      · exact here_other hid
    rw [here_delivered, here_eq_zero hq hc', hzero] at hmoved
    omega

/-- It leaves the lock with its holder, unless time runs past the TTL. -/
theorem held_step (h : EveryCopy m (Held m s) s) (ha : a.call? = none)
    (htick : ∀ ms, a = .tick ms → ∀ c ∈ s.copies, c.messageId = m → c.inTime (s.now + ms) = true)
    (hstep : D.step pointMachine s a = some s') : EveryCopy m (Held m s') s' := by
  obtain ⟨hredis, -, hnow⟩ := Deployment.step_frame ha hstep
  -- the copies that a step leaves alone
  have hold : ∀ c ∈ s.copies, c.messageId = m → Held m s' c := by
    intro c hc hid d lock hd hlock
    obtain ⟨since, hsince, hin, hentry⟩ := h c hc hid d lock hd hlock
    refine ⟨since, hsince, ?_, by rw [hredis]; exact hentry⟩
    rcases hnow with hsame | ⟨ms, hms, hnow⟩
    · rw [hsame]
      exact hin
    · have hinTime := htick ms hms c hc hid
      unfold Copy.inTime at hinTime
      rw [hd] at hinTime
      simp only [hsince, Option.all_some, decide_eq_true_eq] at hinTime
      rw [hnow]
      exact hinTime
  intro x hx hid
  rcases moves_of_step ha hstep with ⟨letters, hcopies⟩ | ⟨i, c, -, ⟨c', letters, hcopies, hc'⟩, -⟩
  · rw [hcopies] at hx
    rcases List.mem_append.mp hx with hx | hx
    · exact hold x hx hid
    · obtain ⟨l, -, rfl⟩ := List.mem_map.mp hx
      exact Held.of_no_lock rfl
  · rw [hcopies] at hx
    rcases mem_moved hx with hx | rfl | ⟨l, -, rfl⟩
    · exact hold x hx hid
    · exact Held.of_no_lock hc'
    · exact Held.of_no_lock rfl

end Moves

/-! ## Runs over points -/

section Steps

variable {D : Deployment} {among : Subscription → Bool} {m : String} {s s' : MessagingState Point}
  {a : Action}

/-- No step gives a delivery the lock of another message. -/
theorem ownLock_step (h : ∀ c ∈ s.copies, OwnLock c) (hstep : D.step pointMachine s a = some s') :
    ∀ c ∈ s'.copies, OwnLock c := by
  cases ha : a.call? with
  | none => exact ownLock_moved h ha hstep
  | some called =>
    obtain ⟨i, outcome⟩ := called
    obtain ⟨l, d, call, r, pt, s₁, left, hi, hmove, hsettled, rfl, -⟩ :=
      Deployment.call_cases ha hstep
    exact ownLock_resume h hi hmove hsettled

/-- No step under the guards makes a second holder. -/
theorem Exclusive.step (hown : ∀ c ∈ s.copies, OwnLock c) (h : Exclusive m s)
    (hguard : D.holdersFinish pointMachine m s a = true)
    (hstep : D.step pointMachine s a = some s') : Exclusive m s' := by
  cases ha : a.call? with
  | none =>
    constructor
    · apply held_step h.held ha _ hstep
      intro ms hms c hc hid
      subst hms
      have hall := List.all_eq_true.mp (Bool.and_eq_true_iff.mp hguard).1 c hc
      simpa only [hid, ne_eq, not_true, decide_false, Bool.false_or] using hall
    · rw [total_here_step (fun p => Nat.le_refl _) ha _ hstep]
      · exact h.one
      · intro i c hcrash hi hid
        subst hcrash
        exact unlocked_of_crash h hguard hi hid
  | some called =>
    obtain ⟨i, outcome⟩ := called
    obtain ⟨l, d, call, r, pt, s₁, left, hi, hmove, hsettled, rfl, -⟩ :=
      Deployment.call_cases ha hstep
    obtain ⟨hheld, hone⟩ := h.resume hown hi hmove hsettled
    exact ⟨hheld, hone⟩

/-- No step under the guards runs the handler again. -/
theorem Once.step (hown : ∀ c ∈ s.copies, OwnLock c) (he : Exclusive m s) (h : Once among m s)
    (hguard : D.holdersFinish pointMachine m s a = true)
    (hlocks : D.locksUnmarked pointMachine among m s a = true)
    (hstep : D.step pointMachine s a = some s') : Once among m s' := by
  cases ha : a.call? with
  | none =>
    obtain ⟨hredis, hlog, hnow⟩ := Deployment.step_frame ha hstep
    have hcrash : ∀ i c, a = .crash i → s.copies[i]? = some c → c.messageId = m →
        c.lock? = none := by
      intro i c hcrash hi hid
      subst hcrash
      exact unlocked_of_crash he hguard hi hid
    have hres : resolutions among m s' = resolutions among m s := by
      unfold resolutions
      rw [hlog]
    -- moves of the broker run no handler and take no lock away from a delivery that holds it
    constructor
    · rw [hres, total_here_step starting_le_holding ha hcrash hstep]
      exact h.running
    · rw [hres, total_here_step marking_le_holding ha hcrash hstep]
      refine h.marked.imp_left fun hm => ?_
      rcases hnow with hsame | ⟨ms, rfl, -⟩
      · exact hm.congr hsame.symm (by rw [hredis])
      · have hmarked := (Bool.and_eq_true_iff.mp hguard).2
        rw [isMarked_iff.mpr hm, Bool.not_true, Bool.false_or] at hmarked
        rw [← Option.some.inj hstep]
        exact isMarked_iff.mp hmarked
  | some called =>
    obtain ⟨i, outcome⟩ := called
    obtain ⟨l, d, call, r, pt, s₁, left, hi, hmove, hsettled, rfl, -, hfront⟩ :=
      Deployment.call_cases ha hstep
    have hdelivery := Deployment.delivery?_eq_some.mpr hi
    have honce : Once among m (D.resume pointMachine s₁ i l d call r pt) := by
      apply h.resume hown he hi hmove hsettled
      · intro hid key value ttl hset
        subst hset
        rcases Deployment.settled_cacheSet (ttl_pos_of_step hmove) hsettled with
          ⟨hok, -⟩ | ⟨e, effect, hout, -⟩
        · exact ⟨(), hok⟩
        · rcases hfront with ⟨rfl, hcall⟩ | ⟨-, lock, hlock⟩
          · simp only [Deployment.holdersFinish, hout, hdelivery, hcall, hid, ne_eq, not_true,
              decide_false] at hguard
            exact absurd hguard Bool.false_ne_true
          · exact nomatch hlock
      · intro hid hamong htaken payload hcode hm
        obtain ⟨payload', lock, rfl⟩ := htaken
        rw [hcode] at hmove
        obtain ⟨rfl, rfl, hfree⟩ := free_of_acquired hmove hsettled
        rcases hfront with ⟨rfl, hcall⟩ | ⟨-, lock', hlock⟩
        · simp only [Deployment.locksUnmarked, hdelivery, hcall, hid, hamong, isMarked_iff.mpr hm,
            hid ▸ hfree, ne_eq, not_true, decide_false, Bool.not_true, Bool.or_false,
            Option.isSome_none] at hlocks
          exact absurd hlocks Bool.false_ne_true
        · exact nomatch hlock
    exact ⟨honce.running, honce.marked⟩

/-- At first there is no holder. -/
theorem exclusive_init (x : String) : Exclusive x (.init Point) where
  held _ hc := absurd hc List.not_mem_nil
  one := Nat.zero_le _

/-- In a run under the guards a message has one holder at most, and its handlers resolve once at
most. -/
theorem once_of_reaches {ok : MessagingState Point → Action → Prop}
    (hok : ∀ u a, ok u a →
      D.holdersFinish pointMachine m u a = true ∧ D.locksUnmarked pointMachine among m u a = true)
    (h : Reaches (D.step pointMachine) ok (.init Point) s) :
    (∀ c ∈ s.copies, OwnLock c) ∧ Exclusive m s ∧ Once among m s := by
  induction h with
  | refl =>
    exact ⟨fun _ hc => absurd hc List.not_mem_nil, exclusive_init m,
      ⟨Nat.zero_le _, Or.inr (Nat.zero_le _)⟩⟩
  | tail _ hnext ih =>
    obtain ⟨a, ha, hstep⟩ := hnext
    obtain ⟨hown, hexclusive, honce⟩ := ih
    obtain ⟨hguard, hlocks⟩ := hok _ a ha
    exact ⟨ownLock_step hown hstep, hexclusive.step hown hguard hstep,
      honce.step hown hexclusive hguard hlocks hstep⟩

end Steps

/-! ## Runs of the system -/

section Runs

variable {D : Deployment} {among : Subscription → Bool} {m : String} {t : MessagingState Code}

/-- The guards read the same over code and over points. -/
theorem inTime_toCode (now : ℕ) (c : Copy Point) : (c.toCode D).inTime now = c.inTime now := by
  match c with
  | ⟨l, .ready⟩ | ⟨l, .unacked d⟩ | ⟨l, .gone⟩ => rfl

theorem Deployment.holdersFinish_toCode (s : MessagingState Point) (a : Action) :
    D.holdersFinish codeMachine m (s.toCode D) a = D.holdersFinish pointMachine m s a := by
  match a with
  | .tick ms =>
    have hall : (s.copies.map (Copy.toCode D)).all
          (fun c => decide (c.messageId ≠ m) || c.inTime (s.now + ms)) =
        s.copies.all (fun c => decide (c.messageId ≠ m) || c.inTime (s.now + ms)) := by
      rw [List.all_map]
      congr 1
      funext c
      exact congrArg (decide (c.messageId ≠ m) || ·) (inTime_toCode _ c)
    exact congrArg₂ (· && ·) hall rfl
  | .crash i =>
    simp only [Deployment.holdersFinish, Deployment.delivery?_toCode]
    match Deployment.delivery? s i with
    | some (l, d) => rfl
    | none => rfl
  | .perform i (.rejects e effect) =>
    simp only [Deployment.holdersFinish, Deployment.callOf_toCode, Deployment.delivery?_toCode]
    match Deployment.delivery? s i, D.callOf pointMachine s i with
    | some (l, d), some (.acquire ..) | some (l, d), some (.cacheGet _)
    | some (l, d), some (.cacheSet ..) | some (l, d), some (.release _)
    | some (l, d), some (.fn _) | some (l, d), some (.publish _) | some (l, d), some (.overlap ..)
    | some (l, d), none | none, _ => rfl
  | .overtake i (.rejects e effect) =>
    simp only [Deployment.holdersFinish, Deployment.delivery?_toCode]
    match Deployment.delivery? s i with
    | some (l, d) => rfl
    | none => rfl
  | .perform i .resolves | .overtake i .resolves => rfl
  | .publish .. | .deliver .. | .settle _ | .stray .. | .expire _ => rfl

theorem Deployment.locksUnmarked_toCode (s : MessagingState Point) (a : Action) :
    D.locksUnmarked codeMachine among m (s.toCode D) a =
      D.locksUnmarked pointMachine among m s a := by
  match a with
  | .perform i .resolves =>
    simp only [Deployment.locksUnmarked, Deployment.callOf_toCode, Deployment.delivery?_toCode]
    match Deployment.delivery? s i, D.callOf pointMachine s i with
    | some (l, d), some (.acquire key ttl) => rfl
    | some (l, d), some (.cacheGet _) | some (l, d), some (.cacheSet ..)
    | some (l, d), some (.release _) | some (l, d), some (.fn _) | some (l, d), some (.publish _)
    | some (l, d), some (.overlap ..) | some (l, d), none | none, _ => rfl
  | .perform i (.rejects e effect) => rfl
  | .publish .. | .deliver .. | .overtake .. | .settle _ | .crash _ | .stray .. | .expire _
  | .tick _ => rfl

/-- Where the lock holders of a message finish in time, its marker stays, and no delivery to one
of the subscriptions takes its lock when it is marked, their handlers resolve at most once for
the message. -/
theorem resolutions_le_one
    (h : Reaches (D.step codeMachine) (fun u a => D.holdersFinish codeMachine m u a = true ∧
      D.locksUnmarked codeMachine among m u a = true) (.init Code) t) :
    resolutions among m t ≤ 1 := by
  obtain ⟨s, hs, rfl⟩ := Deployment.reaches_points h
  have hok : ∀ u a, D.holdersFinish codeMachine m (u.toCode D) a = true ∧
      D.locksUnmarked codeMachine among m (u.toCode D) a = true →
      D.holdersFinish pointMachine m u a = true ∧
        D.locksUnmarked pointMachine among m u a = true := by
    intro u a hua
    rw [Deployment.holdersFinish_toCode, Deployment.locksUnmarked_toCode] at hua
    exact hua
  have hrunning := (once_of_reaches hok hs).2.2.running
  show resolutions among m s ≤ 1
  omega

/-- Two deliveries of a message read the marker, and the first one runs the handler, sets the
marker and gives the lock back. -/
def lateReader : List Action :=
  [(createdNotification "m1").action, (createdNotification "m1").action,
    .deliver 0 notifications "2026-06-06T00:00:00Z",
    .deliver 1 notifications "2026-06-06T00:00:00Z"] ++
    resolving 0 1 ++ resolving 1 1 ++ resolving 0 4 ++ [.settle 0]

/-- The handler has resolved, and the second delivery has yet to ask for the lock. -/
theorem resolutions_le_one_lateReader :
    ∃ t, Reaches ((defaultDeployment [notifications]).step codeMachine) (fun u a =>
        (defaultDeployment [notifications]).holdersFinish codeMachine "m1" u a = true ∧
          (defaultDeployment [notifications]).locksUnmarked codeMachine (· = notifications) "m1" u a =
            true)
        (.init Code) t ∧
      (.resolved ⟨notifications, "m1", (createdNotification "m1").payload⟩) ∈ t.log ∧
      resolutions (· = notifications) "m1" t ≤ 1 := by
  have hrun : (Transition.run ((defaultDeployment [notifications]).step codeMachine) (fun u a =>
        (defaultDeployment [notifications]).holdersFinish codeMachine "m1" u a = true ∧
          (defaultDeployment [notifications]).locksUnmarked codeMachine (· = notifications) "m1" u a =
            true)
      (.init Code) lateReader).map (fun t => decide
        (.resolved ⟨notifications, "m1", (createdNotification "m1").payload⟩ ∈ t.log)) =
      some true := by
    decide +kernel
  obtain ⟨t, ht, htest⟩ := Transition.exists_reaches_of_run hrun
  exact ⟨t, ht, of_decide_eq_true htest, resolutions_le_one ht⟩

/-- The second delivery takes the free lock without reading the marker again, and the handler
resolves a second time. -/
theorem not_resolutions_le_one :
    ∃ t, Reaches ((defaultDeployment [notifications]).step codeMachine) (fun u a =>
        (defaultDeployment [notifications]).holdersFinish codeMachine "m1" u a = true)
        (.init Code) t ∧
      t.now = 0 ∧ resolutions (· = notifications) "m1" t = 2 ∧
        ¬ resolutions (· = notifications) "m1" t ≤ 1 := by
  have hrun : (Transition.run ((defaultDeployment [notifications]).step codeMachine) (fun u a =>
        (defaultDeployment [notifications]).holdersFinish codeMachine "m1" u a = true)
      (.init Code) (lateReader ++ resolving 1 2)).map
      (fun t => decide (t.now = 0 ∧ resolutions (· = notifications) "m1" t = 2 ∧
        ¬ resolutions (· = notifications) "m1" t ≤ 1)) = some true := by
    decide +kernel
  obtain ⟨t, ht, htest⟩ := Transition.exists_reaches_of_run hrun
  exact ⟨t, ht, of_decide_eq_true htest⟩

end Runs

end NestFastify.Messaging
