import NestFastify.Foundation.Transition
import NestFastify.Redis.LockService
import Mathlib.Tactic.Linarith

/-!
# Auto-renew

`startWatchdog`, and what `buildLock` and `release` do with it (lock.service.ts), for one lock on
a clock that counts milliseconds, with their fractions; Redis reads the whole milliseconds. The
commands of the lock take any time on the way to Redis and back, and the other clients run their
scripts in between.

A run starts when acquireLock has granted the lock. As long as the latencies stay within what the
renewal period leaves of the time to live, the entry never lapses.
-/

namespace NestFastify.Redis

/-! ## startWatchdog -/

/-- The variables of `startWatchdog`, with the signal that `abort` aborts. A timer is the instant
at which it fires. -/
structure Watchdog where
  timer : Option ℚ
  inflight : Bool
  stopped : Bool
  aborted : Bool
deriving DecidableEq

namespace Watchdog

/-- `schedule`. -/
def schedule (period now : ℚ) (w : Watchdog) : Watchdog :=
  if w.stopped then w else { w with timer := some (now + period) }

/-- `startWatchdog`. -/
def start (period now : ℚ) : Watchdog := schedule period now ⟨none, false, false, false⟩

/-- `run`, up to the call of `extend`. -/
def run (w : Watchdog) : Watchdog := { w with timer := none, inflight := true }

/-- The rest of `run`, on whether the lock is still held. -/
def settled (period now : ℚ) (w : Watchdog) (ok : Bool) : Watchdog :=
  let w := if ok then w else { w with stopped := true, aborted := true }
  schedule period now { w with inflight := false }

/-- `stop`, up to its wait for the extend in flight. -/
def stop (w : Watchdog) : Watchdog := { w with stopped := true, timer := none }

end Watchdog

/-- What the watchdog makes of the outcome of its extendLock: a rejection is only logged. -/
def renewed : Except JsError ℤ → Bool
  | .ok n => n = 1
  | .error _ => true

/-- It is the outcome of `renew`. -/
theorem renew_eq {U : Type} {RU : U → Type} (lock : Lock) (ttlMs : JsNumber) :
    ∃ k, (RedisLockService.renew lock ttlMs : Program U RU Bool) =
      .await (.inl (.extendLock lock.client lock.lockKey lock.token ttlMs)) k ∧
      ∀ r, k r = .resolve (renewed r) := by
  refine ⟨_, rfl, fun r => ?_⟩
  match r with
  | .ok n => rfl
  | .error e => rfl

/-! ## The lock on a clock -/

/-- A command of the lock: on the way to Redis since `sentAt`, or executed. -/
inductive Call where
  | acquired
  | extending (sentAt : ℚ)
  | extended (reply : Except JsError ℤ)
  | releasing (sentAt : ℚ)
  | released (reply : Except JsError ℤ)
deriving DecidableEq

/-- The lock and the store that holds it. `waiting` is a `release` that waits for the extend in
flight. The last three fields are about the latencies: when the latest command was executed, how
long its reply took, and how long a later extend took that rejected. -/
structure HeldLock where
  now : ℚ
  store : Store
  watchdog : Watchdog
  call : Option Call
  waiting : Bool
  executedAt : ℚ
  replyMs : ℚ
  rejectedMs : Option ℚ

inductive HeldLockAction where
  | other (c : LockCall)
  | pass (ms : ℚ)
  | fire
  | execute
  | receive
  | reject
  | release

/-- The store after a command of another client. -/
def LockCall.effect (now : ℕ) (st : Store) : LockCall → Store
  | acquireLock _ lockKey fenceKey token ttlMs fencing =>
    (Redis.acquireLock now st lockKey fenceKey token ttlMs fencing).1
  | extendLock _ lockKey token ttlMs => (Redis.extendLock now st lockKey token ttlMs).1
  | releaseLock _ lockKey token => (Redis.releaseLock now st lockKey token).1
  | _ => st

/-- The command does not carry `token`. -/
def LockCall.Without (token : Token) : LockCall → Prop
  | acquireLock _ _ _ token' _ _ => token' ≠ token
  | extendLock _ _ token' _ => token' ≠ token
  | releaseLock _ _ token' => token' ≠ token
  | _ => True

instance (token : Token) : DecidablePred (LockCall.Without token)
  | .acquireLock .. | .extendLock .. | .releaseLock .. => inferInstanceAs (Decidable (_ ≠ _))
  | .randomBytes | .dateNow | .mathRandom | .sleep _ | .startWatchdog .. | .stopWatchdog _ =>
    instDecidableTrue

namespace HeldLock

section System

variable (lockKey : String) (token : Token) (ttlMs : ℚ) (s : HeldLock)

/-- The whole milliseconds of the clock. -/
def clock : ℕ := ⌊s.now⌋₊

/-- The extend in flight has settled. A `release` that has waited for it goes on. -/
def settled (ok : Bool) : HeldLock :=
  { s with
    watchdog := s.watchdog.settled (ttlMs / 3) s.now ok
    call := if s.waiting then some (.releasing s.now) else none
    waiting := false }

def fire : Option HeldLock :=
  if s.watchdog.timer = some s.now then
    some { s with watchdog := s.watchdog.run, call := some (.extending s.now) }
  else none

def execute : Option HeldLock :=
  match s.call with
  | some (.extending _) =>
    let r := extendLock s.clock s.store lockKey token (.finite ttlMs)
    some { s with
      store := r.1
      call := some (.extended r.2)
      executedAt := s.now
      rejectedMs := none }
  | some (.releasing _) =>
    let r := releaseLock s.clock s.store lockKey token
    some { s with store := r.1, call := some (.released r.2), executedAt := s.now }
  | _ => none

/-- A reply arrives; that of acquireLock starts the watchdog. -/
def receive : Option HeldLock :=
  let s' := { s with replyMs := s.now - s.executedAt }
  match s.call with
  | some .acquired => some { s' with call := none, watchdog := Watchdog.start (ttlMs / 3) s.now }
  | some (.extended reply) => some (s'.settled ttlMs (renewed reply))
  | _ => none

/-- An extend rejects that Redis has not executed. -/
def reject : Option HeldLock :=
  match s.call with
  | some (.extending sentAt) =>
    some ({ s with rejectedMs := some (s.now - sentAt) }.settled ttlMs true)
  | _ => none

/-- The holder calls `release`, for the first time. -/
def release : Option HeldLock :=
  match s.call with
  | some (.extending _) | some (.extended _) =>
    if s.waiting then none else some { s with watchdog := s.watchdog.stop, waiting := true }
  | none => some { s with watchdog := s.watchdog.stop, call := some (.releasing s.now) }
  | _ => none

def step : HeldLockAction → Option HeldLock
  | .other c => some { s with store := c.effect s.clock s.store }
  | .pass ms => some { s with now := s.now + ms }
  | .fire => s.fire
  | .execute => s.execute lockKey token ttlMs
  | .receive => s.receive ttlMs
  | .reject => s.reject ttlMs
  | .release => s.release

/-! ### The latencies -/

/-- The latencies since the latest execution, the wait for the timer left out. -/
def spent : ℚ := s.replyMs + s.rejectedMs.getD 0

/-- What these and the latency of the next request must stay below. -/
def budget : ℚ := if s.rejectedMs.isSome then ttlMs / 3 else 2 * ttlMs / 3

/-- At the instant `t` the command under way has not taken too long. -/
def InBudget (t : ℚ) : Option Call → Prop
  | some .acquired | some (.extended _) => t - s.executedAt < 2 * ttlMs / 3
  | some (.extending sentAt) | some (.releasing sentAt) => s.spent + (t - sentAt) < s.budget ttlMs
  | _ => True

instance (t : ℚ) : DecidablePred (s.InBudget ttlMs t)
  | some .acquired | some (.extended _) => inferInstanceAs (Decidable (_ < _))
  | some (.extending _) | some (.releasing _) => inferInstanceAs (Decidable (_ < _))
  | none | some (.released _) => instDecidableTrue

/-- At the instant `t` the timer is not overdue either. -/
def InTime (t : ℚ) : Prop := (∀ due ∈ s.watchdog.timer, t ≤ due) ∧ s.InBudget ttlMs t s.call

instance (t : ℚ) : Decidable (s.InTime ttlMs t) := inferInstanceAs (Decidable (_ ∧ _))

/-- An extend rejects only if the one before it has not, and soon enough. -/
def MayReject : Option Call → Prop
  | some (.extending sentAt) =>
    s.rejectedMs = none ∧ s.replyMs + (s.now - sentAt) < ttlMs / 3
  | _ => False

instance : DecidablePred (s.MayReject ttlMs)
  | some (.extending _) => inferInstanceAs (Decidable (_ ∧ _))
  | none | some .acquired | some (.extended _) | some (.releasing _) | some (.released _) =>
    instDecidableFalse

/-- The other clients have tokens of their own, and time passes as the latencies permit. -/
def Timely : HeldLockAction → Prop
  | .other c => c.Without token
  | .pass ms => 0 ≤ ms ∧ s.InTime ttlMs (s.now + ms)
  | .reject => s.MayReject ttlMs s.call
  | _ => True

instance (a : HeldLockAction) : Decidable (s.Timely token ttlMs a) :=
  match a with
  | .other c => inferInstanceAs (Decidable (c.Without token))
  | .pass _ => inferInstanceAs (Decidable (_ ∧ _))
  | .reject => inferInstanceAs (Decidable (s.MayReject ttlMs s.call))
  | .fire | .execute | .receive | .release => instDecidableTrue

/-- acquireLock has left the store `st` at the instant `now`. -/
def granted (now : ℚ) (st : Store) : HeldLock where
  now := now
  store := st
  watchdog := ⟨none, false, false, false⟩
  call := some .acquired
  waiting := false
  executedAt := now
  replyMs := 0
  rejectedMs := none

/-- Redis has executed the release. -/
def Released : Prop := ∃ reply, s.call = some (.released reply)

/-! ## The entry never lapses -/

/-- Between two executions there is at most one wait for the timer, or two after a rejection. -/
def Between (t : ℚ) : Prop := t ≤ s.executedAt + s.spent + (ttlMs - s.budget ttlMs)

/-- What the variables are while a command is under way, and while the watchdog waits. -/
def Phase : Prop :=
  match s.call with
  | some .acquired =>
    s.watchdog = ⟨none, false, false, false⟩ ∧ s.waiting = false ∧ s.rejectedMs = none
  | some (.extending sentAt) =>
    s.watchdog = ⟨none, true, s.waiting, false⟩ ∧ s.Between ttlMs sentAt
  | some (.extended reply) =>
    s.watchdog = ⟨none, true, s.waiting, false⟩ ∧ reply = .ok 1 ∧ s.rejectedMs = none
  | some (.releasing sentAt) =>
    s.watchdog = ⟨none, false, true, false⟩ ∧ s.Between ttlMs sentAt
  | some (.released _) => s.watchdog = ⟨none, false, true, false⟩
  | none => ∃ due, s.watchdog = ⟨some due, false, false, false⟩ ∧ s.waiting = false ∧
    s.Between ttlMs due ∧ s.spent < s.budget ttlMs

/-- The entry with the expiry that the latest execution has given it. -/
def Entry (n : ℕ) : Prop :=
  s.store lockKey = some ⟨.token token, some (⌊s.executedAt⌋₊ + n)⟩

structure Inv (n : ℕ) : Prop where
  phase : s.Phase n
  inTime : s.InTime n s.now
  entry : ¬ s.Released → s.Entry lockKey token n

end System

variable {lockKey : String} {token : Token} {n : ℕ} {s s' : HeldLock}

/-- The time to live is not over. -/
theorem Inv.lt (hs : s.Inv lockKey token n) (h : ¬ s.Released) : s.now < s.executedAt + n := by
  obtain ⟨hphase, ⟨htimer, hlatency⟩, -⟩ := hs
  have hn : (0 : ℚ) ≤ n := Nat.cast_nonneg n
  unfold Phase Between at hphase
  match hcall : s.call with
  | some .acquired =>
    simp only [hcall, InBudget] at hlatency
    linarith
  | some (.extended reply) =>
    simp only [hcall, InBudget] at hlatency
    linarith
  | some (.extending sentAt) =>
    simp only [hcall, InBudget] at hphase hlatency
    linarith [hphase.2]
  | some (.releasing sentAt) =>
    simp only [hcall, InBudget] at hphase hlatency
    linarith [hphase.2]
  | some (.released reply) => exact absurd ⟨reply, hcall⟩ h
  | none =>
    simp only [hcall] at hphase
    obtain ⟨due, hwatchdog, -, hdue, hspent⟩ := hphase
    have hnow := htimer due (by rw [hwatchdog]; rfl)
    linarith

/-- The entry still counts on the clock of Redis. -/
theorem Inv.entry_live (hs : s.Inv lockKey token n) (h : ¬ s.Released) :
    s.store.entry s.clock lockKey =
      some ⟨.token token, some (⌊s.executedAt⌋₊ + n)⟩ := by
  rw [KeyValue.entry_eq_some]
  refine ⟨hs.entry h, KeyValue.live_some.mpr ?_⟩
  have hlt : s.now < ((⌊s.executedAt⌋₊ + n + 1 : ℕ) : ℚ) := by
    push_cast
    linarith [hs.lt h, Nat.lt_floor_add_one s.executedAt]
  exact Nat.le_of_lt_succ ((Nat.floor_lt' (Nat.succ_ne_zero _)).mpr hlt)

theorem Inv.holds (hs : s.Inv lockKey token n) (h : ¬ s.Released) :
    holds s.clock s.store lockKey token = true :=
  holds_iff.mpr ⟨_, hs.entry_live h, rfl⟩

/-- A command with another token leaves an entry alone that shows `token`. -/
theorem effect_of_token {now : ℕ} {st : Store} {until' : Option ℕ} {c : LockCall}
    (hc : c.Without token) (h : st.entry now lockKey = some ⟨.token token, until'⟩) :
    (c.effect now st) lockKey = st lockKey := by
  have hholds : ∀ token', token' ≠ token → Redis.holds now st lockKey token' = false := by
    intro token' hne
    rw [Bool.eq_false_iff]
    intro htrue
    obtain ⟨e, he, hvalue⟩ := holds_iff.mp htrue
    rw [h] at he
    rw [← Option.some.inj he] at hvalue
    exact hne (Value.token.inj hvalue).symm
  match c with
  | .acquireLock _ _ _ _ _ _ => exact acquireLock_of_token h
  | .extendLock _ key token' ms =>
    show (Redis.extendLock now st key token' ms).1 lockKey = st lockKey
    by_cases hkey : lockKey = key
    · rw [extendLock_of_not_holds ms (hkey ▸ hholds token' hc)]
    · exact extendLock_ne hkey
  | .releaseLock _ key token' =>
    show (Redis.releaseLock now st key token').1 lockKey = st lockKey
    by_cases hkey : lockKey = key
    · rw [releaseLock_of_not_holds (hkey ▸ hholds token' hc)]
    · exact releaseLock_ne hkey
  | .randomBytes | .dateNow | .mathRandom | .sleep _ | .startWatchdog _ _ | .stopWatchdog _ => rfl

theorem Inv.other (hs : s.Inv lockKey token n) {c : LockCall} (hc : c.Without token) :
    ({ s with store := c.effect s.clock s.store } : HeldLock).Inv lockKey token n := by
  refine ⟨hs.phase, hs.inTime, fun h => ?_⟩
  show (c.effect s.clock s.store) lockKey = _
  rw [effect_of_token hc (hs.entry_live h)]
  exact hs.entry h

theorem Inv.pass (hs : s.Inv lockKey token n) {ms : ℚ} (h : s.InTime n (s.now + ms)) :
    ({ s with now := s.now + ms } : HeldLock).Inv lockKey token n :=
  ⟨hs.phase, h, hs.entry⟩

theorem Phase.aborted {ttlMs : ℚ} (h : s.Phase ttlMs) : s.watchdog.aborted = false := by
  unfold Phase at h
  match hcall : s.call with
  | none =>
    simp only [hcall] at h
    obtain ⟨due, hwatchdog, -⟩ := h
    rw [hwatchdog]
  | some (.acquired) | some (.extending _) | some (.extended _) | some (.releasing _) =>
    simp only [hcall] at h
    rw [h.1]
  | some (.released _) =>
    simp only [hcall] at h
    rw [h]

/-- The timer is armed only while no command is under way. -/
theorem Phase.of_timer {ttlMs due : ℚ} (h : s.Phase ttlMs) (htimer : s.watchdog.timer = some due) :
    s.call = none ∧ s.watchdog = ⟨some due, false, false, false⟩ ∧ s.waiting = false ∧
      s.Between ttlMs due ∧ s.spent < s.budget ttlMs := by
  unfold Phase at h
  match hcall : s.call with
  | none =>
    simp only [hcall] at h
    obtain ⟨due', hwatchdog, hwaiting, hbetween, hspent⟩ := h
    rw [hwatchdog] at htimer
    obtain rfl := Option.some.inj htimer
    exact ⟨rfl, hwatchdog, hwaiting, hbetween, hspent⟩
  | some (.acquired) | some (.extending _) | some (.extended _) | some (.releasing _) =>
    simp only [hcall] at h
    rw [h.1] at htimer
    exact nomatch htimer
  | some (.released _) =>
    simp only [hcall] at h
    rw [h] at htimer
    exact nomatch htimer

theorem Inv.fire (hs : s.Inv lockKey token n) (h : s.fire = some s') :
    s'.Inv lockKey token n := by
  unfold HeldLock.fire at h
  by_cases htimer : s.watchdog.timer = some s.now
  · rw [if_pos htimer] at h
    obtain rfl := Option.some.inj h
    obtain ⟨hcall, hwatchdog, hwaiting, hbetween, hspent⟩ := hs.phase.of_timer htimer
    refine ⟨⟨?_, hbetween⟩, ⟨nofun, ?_⟩, fun _ => hs.entry (by simp [Released, hcall])⟩
    · show s.watchdog.run = ⟨none, true, s.waiting, false⟩
      rw [hwatchdog, hwaiting]
      rfl
    · show s.spent + (s.now - s.now) < s.budget n
      linarith
  · rw [if_neg htimer] at h
    exact nomatch h

/-- extendLock finds the token and prolongs the entry; releaseLock may take it away. -/
theorem Inv.execute (hs : s.Inv lockKey token n) (hn : 0 < n)
    (hmax : expiryArg (.finite n) = .ok (n : ℤ))
    (h : s.execute lockKey token n = some s') : s'.Inv lockKey token n := by
  have hphase := hs.phase
  unfold Phase at hphase
  unfold HeldLock.execute at h
  cases hcall : s.call with
  | none =>
    simp only [hcall] at h
    cases h
  | some call =>
  cases call with
  | acquired | extended _ | released _ =>
    simp only [hcall] at h
    cases h
  | extending sentAt =>
    have hreleased : ¬ s.Released := by simp [Released, hcall]
    have hentry := hs.entry_live hreleased
    -- the lock has not been given back, so the key still holds its token
    have hextend : Redis.extendLock s.clock s.store lockKey token (.finite n) =
        (s.store.set lockKey (.token token) (some (⌊s.now⌋₊ + n)), .ok 1) := by
      unfold Redis.extendLock
      rw [if_pos (hs.holds hreleased), hmax]
      simp only [if_pos (show (0 : ℤ) < n by omega), KeyValue.pexpire_of_entry hentry]
      rfl
    simp only [hcall, hextend] at h hphase
    obtain rfl := Option.some.inj h
    refine ⟨⟨hphase.1, rfl, rfl⟩, ⟨?_, ?_⟩, fun _ => KeyValue.set_self⟩
    · intro due hdue
      rw [show s.watchdog.timer = none by rw [hphase.1]] at hdue
      cases hdue
    · show s.now - s.now < 2 * (n : ℚ) / 3
      have hpos : (0 : ℚ) < n := Nat.cast_pos.mpr hn
      linarith
  | releasing sentAt =>
    simp only [hcall] at h hphase
    obtain rfl := Option.some.inj h
    refine ⟨hphase.1, ⟨?_, trivial⟩, fun hreleased => absurd ⟨_, rfl⟩ hreleased⟩
    intro due hdue
    rw [show s.watchdog.timer = none by rw [hphase.1]] at hdue
    cases hdue

/-- The extend in flight has settled, and the lock is still held: either the next wait for the
timer starts, or the release. -/
theorem settled_inv (hwatchdog : s.watchdog = ⟨none, true, s.waiting, false⟩)
    (hspent : s.spent < s.budget n) (hbetween : s.Between n (s.now + n / 3))
    (hentry : s.Entry lockKey token n) : (s.settled n true).Inv lockKey token n := by
  have hn : (0 : ℚ) ≤ n := Nat.cast_nonneg n
  have hsettled : (s.settled n true).watchdog =
      Watchdog.schedule (n / 3) s.now ⟨none, false, s.waiting, false⟩ := by
    show Watchdog.settled (n / 3) s.now s.watchdog true = _
    rw [hwatchdog]
    rfl
  by_cases hwaiting : s.waiting = true
  -- the release has waited for the extend, and goes on
  · rw [hwaiting] at hsettled
    have hcall : (s.settled n true).call = some (.releasing s.now) := if_pos hwaiting
    refine ⟨?_, ⟨fun due hdue => ?_, ?_⟩, fun _ => hentry⟩
    · unfold Phase
      rw [hcall]
      refine ⟨hsettled, ?_⟩
      show s.now ≤ s.executedAt + s.spent + (n - s.budget n)
      unfold Between at hbetween
      linarith
    · rw [hsettled] at hdue
      exact nomatch hdue
    · rw [hcall]
      show s.spent + (s.now - s.now) < s.budget n
      linarith
  · rw [Bool.not_eq_true] at hwaiting
    rw [hwaiting] at hsettled
    have hcall : (s.settled n true).call = none := by
      show (if s.waiting then some (Call.releasing s.now) else none) = none
      rw [hwaiting]
      rfl
    refine ⟨?_, ⟨fun due hdue => ?_, ?_⟩, fun _ => hentry⟩
    · unfold Phase
      rw [hcall]
      exact ⟨s.now + n / 3, hsettled, rfl, hbetween, hspent⟩
    · rw [hsettled] at hdue
      obtain rfl := Option.some.inj hdue
      show s.now ≤ s.now + n / 3
      linarith
    · rw [hcall]
      trivial

theorem Inv.receive (hs : s.Inv lockKey token n) (h : s.receive n = some s') :
    s'.Inv lockKey token n := by
  have hn : (0 : ℚ) ≤ n := Nat.cast_nonneg n
  obtain ⟨hphase, ⟨-, hlatency⟩, hentry⟩ := hs
  unfold Phase at hphase
  unfold HeldLock.receive at h
  match hcall : s.call with
  | some .acquired =>
    simp only [hcall, InBudget] at h hphase hlatency
    obtain ⟨-, hwaiting, hrejected⟩ := hphase
    obtain rfl := Option.some.inj h
    refine ⟨⟨s.now + n / 3, rfl, hwaiting, ?_, ?_⟩, ⟨?_, trivial⟩,
      fun _ => hentry (by simp [Released, hcall])⟩
    · simp only [Between, spent, budget, hrejected, Option.getD_none, Option.isSome_none,
        Bool.false_eq_true, if_false]
      linarith
    · simp only [spent, budget, hrejected, Option.getD_none, Option.isSome_none,
        Bool.false_eq_true, if_false]
      linarith
    · intro due hdue
      obtain rfl := Option.some.inj hdue
      show s.now ≤ s.now + n / 3
      linarith
  | some (.extended reply) =>
    simp only [hcall, InBudget] at h hphase hlatency
    obtain ⟨hwatchdog, rfl, hrejected⟩ := hphase
    obtain rfl := Option.some.inj h
    refine settled_inv hwatchdog ?_ ?_ (hentry (by simp [Released, hcall]))
    · simp only [spent, budget, hrejected, Option.getD_none, Option.isSome_none,
        Bool.false_eq_true, if_false]
      linarith
    · simp only [Between, spent, budget, hrejected, Option.getD_none, Option.isSome_none,
        Bool.false_eq_true, if_false]
      linarith
  | none | some (.extending _) | some (.releasing _) | some (.released _) =>
    simp only [hcall] at h
    exact nomatch h

/-- The rejection takes the place of a reply, and leaves a third of the time to live. -/
theorem Inv.reject (hs : s.Inv lockKey token n) (hok : s.MayReject n s.call)
    (h : s.reject n = some s') : s'.Inv lockKey token n := by
  obtain ⟨hphase, -, hentry⟩ := hs
  unfold Phase at hphase
  unfold HeldLock.reject at h
  match hcall : s.call with
  | some (.extending sentAt) =>
    rw [hcall] at hok
    obtain ⟨hrejected, hsoon⟩ := hok
    simp only [hcall] at h hphase
    obtain ⟨hwatchdog, hbetween⟩ := hphase
    obtain rfl := Option.some.inj h
    have hn : (0 : ℚ) ≤ n := Nat.cast_nonneg n
    refine settled_inv hwatchdog ?_ ?_ (hentry (by simp [Released, hcall]))
    · show s.replyMs + (s.now - sentAt) < (n : ℚ) / 3
      exact hsoon
    · simp only [Between, spent, budget, hrejected, Option.getD_none, Option.isSome_none,
        Bool.false_eq_true, if_false] at hbetween
      simp only [Between, spent, budget, Option.getD_some, Option.isSome_some, if_true]
      linarith
  | none | some .acquired | some (.extended _) | some (.releasing _) | some (.released _) =>
    simp only [hcall] at h
    exact nomatch h

/-- `release` stops the timer, and does not wait unless an extend is in flight. -/
theorem Inv.release (hs : s.Inv lockKey token n) (h : s.release = some s') :
    s'.Inv lockKey token n := by
  obtain ⟨hphase, ⟨htimer, hlatency⟩, hentry⟩ := hs
  unfold Phase at hphase
  unfold HeldLock.release at h
  have hstop : ∀ due, s.watchdog.stop.timer = some due → s.now ≤ due := nofun
  match hcall : s.call with
  | none =>
    simp only [hcall] at h hphase
    obtain ⟨due, hwatchdog, -, hbetween, hspent⟩ := hphase
    obtain rfl := Option.some.inj h
    have hdue := htimer due (by rw [hwatchdog]; rfl)
    refine ⟨⟨?_, ?_⟩, ⟨hstop, ?_⟩, fun _ => hentry (by simp [Released, hcall])⟩
    · show s.watchdog.stop = ⟨none, false, true, false⟩
      rw [hwatchdog]
      rfl
    · exact hdue.trans hbetween
    · show s.spent + (s.now - s.now) < s.budget n
      linarith
  | some (.extending _) | some (.extended _) =>
    -- the release waits for the extend in flight
    simp only [hcall] at h hphase hlatency
    by_cases hwaiting : s.waiting = true
    · rw [if_pos hwaiting] at h
      exact nomatch h
    · rw [if_neg hwaiting] at h
      obtain rfl := Option.some.inj h
      refine ⟨?_, ⟨hstop, ?_⟩, fun _ => hentry (by simp [Released, hcall])⟩
      · show Phase _ _
        simp only [Phase]
        exact ⟨by rw [hphase.1]; rfl, hphase.2⟩
      · exact hlatency
  | some .acquired | some (.releasing _) | some (.released _) =>
    simp only [hcall] at h
    exact nomatch h

theorem Inv.step {a : HeldLockAction} (hn : 0 < n) (hmax : expiryArg (.finite n) = .ok (n : ℤ))
    (hs : s.Inv lockKey token n) (ha : s.Timely token n a)
    (h : s.step lockKey token n a = some s') : s'.Inv lockKey token n := by
  match a with
  | .other c =>
    obtain rfl := Option.some.inj h
    exact hs.other ha
  | .pass ms =>
    obtain rfl := Option.some.inj h
    exact hs.pass ha.2
  | .fire => exact hs.fire h
  | .execute => exact hs.execute hn hmax h
  | .receive => exact hs.receive h
  | .reject => exact hs.reject ha h
  | .release => exact hs.release h

/-- A time to live with which acquireLock grants the lock is a number that Redis accepts. -/
theorem expiryArg_of_granted {now n : ℕ} {st st' : Store} {fenceKey : String} {fencing : Bool}
    {reply : ℤ} (h : acquireLock now st lockKey fenceKey token (.finite n) fencing =
      (st', .ok (some reply))) : expiryArg (.finite n) = .ok (n : ℤ) := by
  match harg : expiryArg (.finite n) with
  | .ok m => rw [← Rat.intCast_inj.mp (JsNumber.finite.inj (expiryArg_eq_ok harg))]
  | .error e =>
    unfold acquireLock setNxPx at h
    rw [harg] at h
    exact nomatch (Prod.mk.inj h).2

/-- A lock that acquireLock grants has a time to live that Redis accepts, and its entry. -/
theorem granted_inv {key : String} {ttlMs now : ℚ} {st st' : Store} {fencing : Bool} {reply : ℤ}
    (h : acquireLock ⌊now⌋₊ st ("lock:" ++ key) ("lock:fence:" ++ key) token (.finite ttlMs)
      fencing = (st', .ok (some reply))) :
    ∃ n : ℕ, ttlMs = n ∧ 0 < n ∧ expiryArg (.finite n) = .ok (n : ℤ) ∧
      (granted now st').Inv ("lock:" ++ key) token n := by
  have hne : "lock:" ++ key ≠ "lock:fence:" ++ key := by
    intro heq
    have hlength := congrArg String.length heq
    rw [String.length_append, String.length_append] at hlength
    have hlock : "lock:".length = 5 := by decide
    have hfence : "lock:fence:".length = 11 := by decide
    omega
  match hentry : st.entry ⌊now⌋₊ ("lock:" ++ key) with
  | some e => exact absurd (congrArg Prod.snd h) ((acquireLock_of_held hentry).2 reply)
  | none =>
    rcases acquireLock_of_free hentry hne with ⟨e, he⟩ | ⟨n, hn, httl, hstore, -⟩
    · rw [he] at h
      exact nomatch (Prod.mk.inj h).2
    · rw [h] at hstore
      obtain rfl := JsNumber.finite.inj httl
      have hpos : (0 : ℚ) < n := Nat.cast_pos.mpr hn
      refine ⟨n, rfl, hn, expiryArg_of_granted h, ⟨⟨rfl, rfl, rfl⟩, ⟨nofun, ?_⟩, fun _ => hstore⟩⟩
      show now - now < 2 * (n : ℚ) / 3
      linarith

/-- A lock that only the watchdog renews is held until Redis executes its release, and its
signal is never aborted. -/
theorem held_of_reaches {key : String} {ttlMs now : ℚ} {st st' : Store} {fencing : Bool}
    {reply : ℤ}
    (hgranted : acquireLock ⌊now⌋₊ st ("lock:" ++ key) ("lock:fence:" ++ key) token
      (.finite ttlMs) fencing = (st', .ok (some reply)))
    (h : Transition.Reaches (HeldLock.step ("lock:" ++ key) token ttlMs) (Timely token ttlMs)
      (granted now st') s) :
    (¬ s.Released → Redis.holds s.clock s.store ("lock:" ++ key) token = true) ∧
      s.watchdog.aborted = false := by
  obtain ⟨n, rfl, hn, hmax, hinit⟩ := granted_inv hgranted
  have hs : s.Inv ("lock:" ++ key) token n := by
    refine @Transition.Reaches.invariant _ _ _ _ _ _ (fun u => u.Inv ("lock:" ++ key) token n)
      h hinit ?_
    intro u a v hu ha hv
    exact hu.step hn hmax ha hv
  exact ⟨hs.holds, hs.phase.aborted⟩

/-- Past the first extend, which rejects, the lock is held beyond its first time to live. -/
def rejectedRun : List HeldLockAction :=
  [.pass 10, .receive, .pass 1000, .fire, .pass 20, .reject, .pass 1000, .fire, .pass 900,
    .execute, .other (.acquireLock 1 "lock:job" "lock:fence:job" ⟨1⟩ 3000 true), .pass 100,
    .receive, .pass 400]

theorem held_of_reaches_rejected : ∃ s st, acquireLock ⌊(0 : ℚ)⌋₊ (fun _ => none)
    ("lock:" ++ "job") ("lock:fence:" ++ "job") ⟨0⟩ (.finite 3000) true = (st, .ok (some 1)) ∧
    Transition.Reaches (HeldLock.step ("lock:" ++ "job") ⟨0⟩ 3000) (Timely ⟨0⟩ 3000)
      (granted 0 st) s ∧
    s.now = 3430 ∧ Redis.holds s.clock s.store ("lock:" ++ "job") ⟨0⟩ = true ∧
    s.watchdog.aborted = false := by
  obtain ⟨st, hst⟩ : ∃ st, st = (acquireLock ⌊(0 : ℚ)⌋₊ (fun _ => none) ("lock:" ++ "job")
    ("lock:fence:" ++ "job") ⟨0⟩ (.finite 3000) true).1 := ⟨_, rfl⟩
  have hgranted : acquireLock ⌊(0 : ℚ)⌋₊ (fun _ => none) ("lock:" ++ "job")
      ("lock:fence:" ++ "job") ⟨0⟩ (.finite 3000) true = (st, .ok (some 1)) :=
    Prod.ext hst.symm rfl
  have hrun : ((Transition.run (HeldLock.step ("lock:" ++ "job") ⟨0⟩ 3000) (Timely ⟨0⟩ 3000)
      (granted 0 st) rejectedRun).map fun s => decide (s.now = 3430 ∧ s.call = none)) =
      some true := by
    rw [hst]
    decide +kernel
  obtain ⟨s, hs, htest⟩ := Transition.exists_reaches_of_run hrun
  obtain ⟨hnow, hcall⟩ := of_decide_eq_true htest
  have hheld := held_of_reaches hgranted hs
  exact ⟨s, st, hgranted, hs, hnow, hheld.1 (by simp [Released, hcall]), hheld.2⟩

end HeldLock

end NestFastify.Redis
