import NestFastify.Redis.LockService

/-!
# One Redis, one call at a time

`RedisCacheService.get` and `set` (cache.service.ts), and the calls of the lock service that
do not wait, executed at an instant `now`. An acquire without retries makes one draw and runs
one script, a release runs one script, so neither is interleaved with anything.
-/

namespace NestFastify.Redis

namespace RedisCacheService

def key (key : String) : String := "cache:" ++ key

section Methods

variable (now : ℕ) (st : Store)

/-- `get`: a miss is `null`; a value that is not JSON makes `JSON.parse` throw. -/
def get (key : String) : Except JsError Json :=
  match st.get now (RedisCacheService.key key) with
  | none => .ok .null
  | some (.json v) => .ok v
  | some (.counter n) => .ok (.num n)
  | some (.token _) => .error (.error "Unexpected token in JSON")

/-- `set` with an explicit number of seconds. -/
def set (key : String) (value : Json) (ttlSeconds : ℕ) : Store × Except JsError Unit :=
  if 0 < ttlSeconds then
    (KeyValue.set st (RedisCacheService.key key) (.json value)
      (some (now + 1000 * ttlSeconds)), .ok ())
  else (st, .error invalidExpire)

end Methods

end RedisCacheService

/-- The store, and the number of tokens drawn so far. -/
structure Server where
  store : Store
  draws : ℕ

namespace Server

/-- Execute one call of the lock service. The calls that do not reach Redis answer at once. -/
def execute (now : ℕ) (s : Server) : (c : LockCall ⊕ Empty) →
    Server × Except JsError (Sum.elim LockCall.Reply (fun _ => Empty) c)
  | .inl .randomBytes => (⟨s.store, s.draws + 1⟩, .ok (⟨s.draws⟩ : Token))
  | .inl (.acquireLock _ lockKey fenceKey token ttlMs fencing) =>
    let r := acquireLock now s.store lockKey fenceKey token ttlMs fencing
    (⟨r.1, s.draws⟩, r.2)
  | .inl (.extendLock _ lockKey token ttlMs) =>
    let r := extendLock now s.store lockKey token ttlMs
    (⟨r.1, s.draws⟩, r.2)
  | .inl (.releaseLock _ lockKey token) =>
    let r := releaseLock now s.store lockKey token
    (⟨r.1, s.draws⟩, r.2)
  | .inl .dateNow => (s, .ok (now : ℚ))
  | .inl .mathRandom => (s, .ok (0 : ℚ))
  | .inl (.sleep _) => (s, .ok ())
  | .inl (.startWatchdog ..) => (s, .ok ())
  | .inl (.stopWatchdog _) => (s, .ok ())

/-- `locks.acquire(key, ttlMs)`, without options. -/
def acquire (numberText : JsNumber → String) (now : ℕ) (s : Server) (key : String)
    (ttlMs : JsNumber) : Option (Server × Except JsError (Option Lock)) :=
  (RedisLockService.acquire numberText ⟨0⟩ key ttlMs {} 0).exec (execute now) s

/-- `lock.release()`. -/
def release (now : ℕ) (s : Server) (lock : Lock) : Option (Server × Except JsError Bool) :=
  (RedisLockService.release lock).exec (execute now) s

/-! ## What a call does -/

section Spec

variable {numberText : JsNumber → String} {now : ℕ} {s : Server} {key : String} {ttlMs : ℕ}

/-- The lock an acquire without options returns. -/
def plainLock (key : String) (draw : ℕ) : Lock where
  client := 0
  key := key
  lockKey := "lock:" ++ key
  token := ⟨draw⟩
  fencingToken := none
  renewMs := none

section Acquire

variable {lockKey fenceKey : String} {ms : JsNumber} {st : Store}
  {reply : Except JsError (Option ℤ)}

/-- One attempt draws a token and runs the script once with it. -/
theorem tryOnce_exec
    (hreply : acquireLock now s.store lockKey fenceKey ⟨s.draws⟩ ms false = (st, reply)) :
    (RedisLockService.tryOnce ⟨0⟩ lockKey fenceKey ms false :
        Program Empty (fun _ => Empty) (Option (Token × Option ℤ))).exec (execute now) s =
      some (⟨st, s.draws + 1⟩, reply.map (Option.map fun _ => (⟨s.draws⟩, none))) := by
  have hscript : (RedisLockService.acquireLock ⟨0⟩ lockKey fenceKey ⟨s.draws⟩ ms false :
      Program Empty (fun _ => Empty) (Option ℤ)).exec (execute now) ⟨s.store, s.draws + 1⟩ =
      some (⟨st, s.draws + 1⟩, reply) := by
    have hcall := Async.exec_call (execute now) ⟨s.store, s.draws + 1⟩
      (Sum.inl (LockCall.acquireLock 0 lockKey fenceKey ⟨s.draws⟩ ms false))
    simp only [execute, hreply] at hcall
    exact hcall
  show (Async.bind (RedisLockService.acquireLock ⟨0⟩ lockKey fenceKey ⟨s.draws⟩ ms false)
    _).exec (execute now) ⟨s.store, s.draws + 1⟩ = _
  match reply with
  | .error e => exact Async.exec_bind_error hscript
  | .ok none => exact Async.exec_bind_ok hscript
  | .ok (some n) => exact Async.exec_bind_ok hscript

theorem attempts_exec
    (hreply : acquireLock now s.store lockKey fenceKey ⟨s.draws⟩ ms false = (st, reply)) :
    (RedisLockService.attempts ⟨0⟩ lockKey fenceKey ms false none 0 :
        Program Empty (fun _ => Empty) (Option (Token × Option ℤ))).exec (execute now) s =
      some (⟨st, s.draws + 1⟩, reply.map (Option.map fun _ => (⟨s.draws⟩, none))) := by
  have htry := tryOnce_exec hreply
  match reply with
  | .error e => exact Async.exec_bind_error htry
  | .ok none => exact Async.exec_bind_ok htry
  | .ok (some n) => exact Async.exec_bind_ok htry

end Acquire

/-- An acquire without options, on the reply of its one script. -/
theorem acquire_eq {st : Store} {reply : Except JsError (Option ℤ)} (hpos : 0 < ttlMs)
    (hreply : acquireLock now s.store ("lock:" ++ key) ("lock:fence:" ++ key) ⟨s.draws⟩ ttlMs
      false = (st, reply)) :
    s.acquire numberText now key ttlMs = some (⟨st, s.draws + 1⟩,
      reply.map (Option.map fun _ => plainLock key s.draws)) := by
  have hargs : validateLockArgs numberText ttlMs {} = .ok none := by
    have hq : (0 : ℚ) < (ttlMs : ℚ) := by exact_mod_cast hpos
    have hfinite : finiteWith (0 < ·) (ttlMs : JsNumber)
        ("LockService: ttlMs phải > 0 (nhận " ++ numberText ttlMs ++ ")") =
        .ok ⟨(ttlMs : ℚ), hq⟩ := finiteWith_finite hq _
    unfold validateLockArgs
    rw [hfinite]
    rfl
  have hattempts := attempts_exec hreply
  unfold acquire RedisLockService.acquire
  rw [hargs]
  show (Async.bind (RedisLockService.attempts ⟨0⟩ ("lock:" ++ key) ("lock:fence:" ++ key)
    ttlMs false none 0) _).exec (execute now) s = _
  match reply with
  | .error e => exact Async.exec_bind_error hattempts
  | .ok none => exact Async.exec_bind_ok hattempts
  | .ok (some n) => exact Async.exec_bind_ok hattempts

theorem expiryArg_natCast {n : ℕ} (hbound : n ≤ maxInteger.natAbs) :
    expiryArg n = .ok (n : ℤ) := by
  have hden : ((n : ℚ)).den = 1 := Rat.den_natCast n
  have hnum : ((n : ℚ)).num = n := Rat.num_natCast n
  have hcond : ((n : ℚ)).den = 1 ∧ ((n : ℚ)).num.natAbs ≤ maxInteger.natAbs := by
    rw [hnum]
    exact ⟨hden, by simpa using hbound⟩
  have harg : integerArg n = some ((n : ℚ)).num := if_pos hcond
  rw [expiryArg, harg, hnum]

section Reply

variable (hpos : 0 < ttlMs) (hbound : ttlMs ≤ maxInteger.natAbs)
include hpos hbound

/-- On a key that is held an acquire resolves to `null` and leaves the store alone. -/
theorem acquire_of_held {e : KeyValue.Entry Value}
    (h : s.store.entry now ("lock:" ++ key) = some e) :
    s.acquire numberText now key ttlMs = some (⟨s.store, s.draws + 1⟩, .ok none) :=
  acquire_eq hpos (acquireLock_of_held_eq h (expiryArg_natCast hbound) (by exact_mod_cast hpos))

/-- On a free key it takes the lock with the token it has drawn. -/
theorem acquire_of_free (h : s.store.entry now ("lock:" ++ key) = none) :
    s.acquire numberText now key ttlMs =
      some (⟨s.store.set ("lock:" ++ key) (.token ⟨s.draws⟩) (some (now + ttlMs)), s.draws + 1⟩,
        .ok (some (plainLock key s.draws))) := by
  have hset : s.store.setNx now ("lock:" ++ key) (.token ⟨s.draws⟩) ttlMs =
      some (s.store.set ("lock:" ++ key) (.token ⟨s.draws⟩) (some (now + ttlMs))) :=
    KeyValue.setNx_eq_some.mpr ⟨h, rfl⟩
  have hreply : acquireLock now s.store ("lock:" ++ key) ("lock:fence:" ++ key) ⟨s.draws⟩ ttlMs
      false = (s.store.set ("lock:" ++ key) (.token ⟨s.draws⟩) (some (now + ttlMs)),
        .ok (some 1)) := by
    simp [acquireLock, setNxPx, expiryArg_natCast hbound, hpos, hset]
  exact acquire_eq hpos hreply

end Reply

/-- A release runs its script once; stopping a watchdog does not reach Redis. -/
theorem release_eq (lock : Lock) :
    s.release now lock = some (⟨(releaseLock now s.store lock.lockKey lock.token).1, s.draws⟩,
      (releaseLock now s.store lock.lockKey lock.token).2.map fun n => decide (n = 1)) := by
  have hcall := Async.exec_call (execute now) s
    (Sum.inl (LockCall.releaseLock lock.client lock.lockKey lock.token))
  simp only [execute] at hcall
  have hscript : ∀ p : Program Empty (fun _ => Empty) Bool,
      p = (RedisLockService.releaseLock lock.client lock.lockKey lock.token).bind
        (fun n => return decide (n = 1)) →
      p.exec (execute now) s =
        some (⟨(releaseLock now s.store lock.lockKey lock.token).1, s.draws⟩,
          (releaseLock now s.store lock.lockKey lock.token).2.map fun n => decide (n = 1)) := by
    intro p hp
    rw [hp]
    match hreply : releaseLock now s.store lock.lockKey lock.token with
    | (st, .error e) =>
      rw [hreply] at hcall
      exact Async.exec_bind_error hcall
    | (st, .ok n) =>
      rw [hreply] at hcall
      exact Async.exec_bind_ok hcall
  unfold release RedisLockService.release
  by_cases hrenew : lock.renewMs.isSome = true
  · rw [if_pos hrenew]
    have hstop : (RedisLockService.stopWatchdog lock : Program Empty (fun _ => Empty) Unit).exec
        (execute now) s = some (s, .ok ()) :=
      Async.exec_call (execute now) s (Sum.inl (LockCall.stopWatchdog lock))
    exact (Async.exec_bind_ok hstop).trans (hscript _ rfl)
  · rw [if_neg hrenew]
    exact hscript _ rfl

end Spec

end Server

end NestFastify.Redis
