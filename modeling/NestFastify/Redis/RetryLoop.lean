import NestFastify.Redis.LockService
import Mathlib.Tactic.Linarith

/-!
# The retry loop

`acquire` with `opts.retry` (lock.service.ts), run against a clock. The clock is read from the
calls made so far: it never goes back, and a sleep takes at least as long as it was asked for and
a millisecond at the least. What the attempts come to, how long they take and what the random
numbers are is left open.
-/

namespace NestFastify.Redis

namespace RedisLockService

variable {U : Type} {RU : U → Type}

/-! ## What a run shows -/

/-- The attempts, with their tokens and replies. -/
def attemptsOf (events : List (LockEvent U RU)) : List (Token × Except JsError (Option ℤ)) :=
  events.filterMap fun
    | ⟨.inl (.acquireLock _ _ _ token _ _), reply⟩ => some (token, reply)
    | _ => none

/-- The readings of the clock. -/
def readings (events : List (LockEvent U RU)) : List ℚ :=
  events.filterMap fun
    | ⟨.inl .dateNow, .ok t⟩ => some t
    | _ => none

/-- The sleeps asked for, each with the latest reading of the clock before it. -/
def sleeps : Option ℚ → List (LockEvent U RU) → List (ℚ × Option ℚ)
  | _, [] => []
  | _, ⟨.inl .dateNow, .ok t⟩ :: events => sleeps (some t) events
  | latest, ⟨.inl (.sleep ms), _⟩ :: events => (ms, latest) :: sleeps latest events
  | latest, _ :: events => sleeps latest events

/-- The calls that do not reach Redis succeed, `clock` says what `Date.now()` returns, and
`Math.random()` lies in `[0, 1)`. -/
structure Clocked (env : List (LockEvent U RU) → (c : LockCall ⊕ U) →
    Except JsError (Sum.elim LockCall.Reply RU c)) (clock : List (LockEvent U RU) → ℚ) : Prop where
  dateNow : ∀ past, env past (.inl .dateNow) = .ok (clock past)
  mathRandom : ∀ past, ∃ x : ℚ, env past (.inl .mathRandom) = .ok x ∧ 0 ≤ x ∧ x < 1
  randomBytes : ∀ past, ∃ token : Token, env past (.inl .randomBytes) = .ok token
  sleep : ∀ past ms, env past (.inl (.sleep ms)) = .ok ()
  startWatchdog : ∀ past lock ttlMs, env past (.inl (.startWatchdog lock ttlMs)) = .ok ()
  monotone : ∀ past event, clock past ≤ clock (past ++ [event])
  slept : ∀ past ms r, clock past + max ms 1 ≤ clock (past ++ [⟨.inl (.sleep ms), r⟩])

/-- A run of `acquire` that has ended with `out`. A successful attempt is the last one and what
it returns is `out`; `null` means that all have failed and the clock has reached the deadline. -/
structure RetrySound {α : Type} (window : RetryWindow) (clock : List (LockEvent U RU) → ℚ)
    (returns : Token → ℤ → α → Prop) (events : List (LockEvent U RU))
    (out : Option (Except JsError (Option α))) : Prop where
  outcome :
    (out = some (.ok none) ∧ (∀ a ∈ attemptsOf events, a.2 = .ok none) ∧
      ∃ t ∈ (readings events).head?, t + window.waitMs ≤ clock events) ∨
    ∃ failed token reply, attemptsOf events = failed ++ [(token, reply)] ∧
      (∀ a ∈ failed, a.2 = .ok none) ∧
      ((∃ e, reply = .error e ∧ out = some (.error e)) ∨
        ∃ n a, reply = .ok (some n) ∧ returns token n a ∧ out = some (.ok (some a)))
  tried : attemptsOf events ≠ []
  once : window.waitMs = 0 → (attemptsOf events).length = 1
  sleeps : ∀ k ms latest, (sleeps none events)[k]? = some (ms, latest) →
    ms < min window.maxDelayMs (window.minDelayMs * 2 ^ k) ∧
      ∃ start ∈ (readings events).head?, ∃ t ∈ latest, ms ≤ start + window.waitMs - t

section Loop

variable {env : List (LockEvent U RU) → (c : LockCall ⊕ U) →
    Except JsError (Sum.elim LockCall.Reply RU c)} {clock : List (LockEvent U RU) → ℚ}
  {α : Type} {past : List (LockEvent U RU)}

theorem run_lockCall (env : List (LockEvent U RU) → (c : LockCall ⊕ U) →
      Except JsError (Sum.elim LockCall.Reply RU c)) (past : List (LockEvent U RU))
    (c : LockCall) : (lockCall c : Program U RU c.Reply).run env past =
      (past ++ [⟨.inl c, env past (.inl c)⟩], some (env past (.inl c))) :=
  Async.run_settled env _ _

/-- A call that succeeds, and what comes after it. -/
theorem run_lockCall_bind {c : LockCall} {f : c.Reply → Program U RU α} {a : c.Reply}
    (h : env past (.inl c) = .ok a) :
    ((lockCall c : Program U RU c.Reply) >>= f).run env past =
      (f a).run env (past ++ [⟨.inl c, .ok a⟩]) := by
  have hcall := run_lockCall env past c
  rw [h] at hcall
  exact Async.run_bind_ok hcall

theorem clock_append (h : Clocked env clock) (past later : List (LockEvent U RU)) :
    clock past ≤ clock (past ++ later) := by
  induction later generalizing past with
  | nil => rw [List.append_nil]
  | cons event later ih =>
    rw [List.append_cons]
    exact le_trans (h.monotone past event) (ih (past ++ [event]))

/-! ## One attempt -/

variable (this : RedisLockService) (lockKey fenceKey : String) (ttlMs : JsNumber) (fencing : Bool)

/-- What an attempt calls. -/
def attemptEvents (token : Token) (reply : Except JsError (Option ℤ)) : List (LockEvent U RU) :=
  [⟨.inl .randomBytes, .ok token⟩,
    ⟨.inl (.acquireLock this.client lockKey fenceKey token ttlMs fencing), reply⟩]

/-- What an attempt makes of the reply. -/
def attemptResult (token : Token) (reply : Except JsError (Option ℤ)) :
    Except JsError (Option (Token × Option ℤ)) :=
  reply.map (Option.map fun n => (token, if fencing then some n else none))

theorem tryOnce_run (h : Clocked env clock) (past : List (LockEvent U RU)) : ∃ token reply,
    (this.tryOnce lockKey fenceKey ttlMs fencing).run env past =
      (past ++ attemptEvents this lockKey fenceKey ttlMs fencing token reply,
        some (attemptResult fencing token reply)) := by
  obtain ⟨token, htoken⟩ := h.randomBytes past
  obtain ⟨reply, hreply⟩ : ∃ reply : Except JsError (Option ℤ),
      env (past ++ [⟨.inl .randomBytes, .ok token⟩])
        (.inl (.acquireLock this.client lockKey fenceKey token ttlMs fencing)) = reply := ⟨_, rfl⟩
  refine ⟨token, reply, (run_lockCall_bind htoken).trans ?_⟩
  have hcall := run_lockCall env (past ++ [⟨.inl .randomBytes, .ok token⟩])
    (.acquireLock this.client lockKey fenceKey token ttlMs fencing)
  rw [hreply, List.append_assoc] at hcall
  rcases reply with e | _ | n
  · exact Async.run_bind_error hcall
  · exact Async.run_bind_ok hcall
  · exact Async.run_bind_ok hcall

/-! ## One round -/

/-- What a round calls before its attempt. -/
def restEvents (t t' x ms : ℚ) : List (LockEvent U RU) :=
  [⟨.inl .dateNow, .ok t⟩, ⟨.inl .dateNow, .ok t'⟩, ⟨.inl .mathRandom, .ok x⟩,
    ⟨.inl (.sleep ms), .ok ()⟩]

variable (window : RetryWindow) {deadline base : ℚ}

/-- A round whose time is up reads the clock and ends the loop. -/
theorem retryRound_timeUp (h : Clocked env clock) (hup : deadline ≤ clock past)
    (tryOnce : Program U RU (Option (Token × Option ℤ))) :
    (retryRound tryOnce window deadline base).run env past =
      (past ++ [⟨.inl .dateNow, .ok (clock past)⟩], some (.ok (.inr none))) := by
  refine (run_lockCall_bind (h.dateNow past)).trans ?_
  rw [if_neg (not_lt.mpr hup)]
  rfl

/-- Any other one sleeps and goes on with its attempt. -/
theorem retryRound_rest (h : Clocked env clock) (hlt : clock past < deadline)
    (hbase : 0 < min window.maxDelayMs base)
    (tryOnce : Program U RU (Option (Token × Option ℤ))) :
    ∃ t t' x ms, ms < min window.maxDelayMs base ∧ ms ≤ deadline - t' ∧
      clock past + 1 ≤ clock (past ++ restEvents t t' x ms) ∧
      (retryRound tryOnce window deadline base).run env past =
        (tryOnce.bind fun
          | some got => Async.resolve (.inr (some got))
          | none => Async.resolve (.inl (min (base * 2) window.maxDelayMs))).run env
            (past ++ restEvents t t' x ms) := by
  have hpast : ∀ t t' x ms : ℚ, past ++ [⟨.inl .dateNow, .ok t⟩] ++ [⟨.inl .dateNow, .ok t'⟩] ++
      [⟨.inl .mathRandom, .ok x⟩] ++ [⟨.inl (.sleep ms), .ok ()⟩] =
        past ++ restEvents t t' x ms := by
    intro t t' x ms
    rw [List.append_assoc, List.append_assoc, List.append_assoc]
    rfl
  obtain ⟨t', ht'⟩ : ∃ t', clock (past ++ [⟨.inl .dateNow, .ok (clock past)⟩]) = t' := ⟨_, rfl⟩
  have hnow := h.dateNow (past ++ [⟨.inl .dateNow, .ok (clock past)⟩])
  rw [ht'] at hnow
  obtain ⟨x, hx, -, hx1⟩ := h.mathRandom
    (past ++ [⟨.inl .dateNow, .ok (clock past)⟩] ++ [⟨.inl .dateNow, .ok t'⟩])
  obtain ⟨ms, hms⟩ : ∃ ms, min (⌊x * min window.maxDelayMs base⌋ : ℚ) (deadline - t') = ms :=
    ⟨_, rfl⟩
  have hslept := h.slept (past ++ [⟨.inl .dateNow, .ok (clock past)⟩] ++
    [⟨.inl .dateNow, .ok t'⟩] ++ [⟨.inl .mathRandom, .ok x⟩]) ms (.ok ())
  refine ⟨clock past, t', x, ms, ?_, ?_, ?_, ?_⟩
  · -- the jitter is floored, and `x < 1`
    rw [← hms]
    calc min (⌊x * min window.maxDelayMs base⌋ : ℚ) (deadline - t')
        ≤ (⌊x * min window.maxDelayMs base⌋ : ℚ) := min_le_left _ _
      _ ≤ x * min window.maxDelayMs base := Int.floor_le _
      _ < 1 * min window.maxDelayMs base := mul_lt_mul_of_pos_right hx1 hbase
      _ = min window.maxDelayMs base := one_mul _
  · rw [← hms]
    exact min_le_right _ _
  · rw [hpast] at hslept
    -- reading the clock takes no time back, and a sleep takes a millisecond at least
    have hlater : clock past ≤ clock (past ++ [⟨.inl .dateNow, .ok (clock past)⟩] ++
        [⟨.inl .dateNow, .ok t'⟩] ++ [⟨.inl .mathRandom, .ok x⟩]) := by
      rw [List.append_assoc, List.append_assoc]
      exact clock_append h past _
    have hone : (1 : ℚ) ≤ max ms 1 := le_max_right ms 1
    linarith
  · refine (run_lockCall_bind (h.dateNow past)).trans ?_
    rw [if_pos hlt]
    refine (run_lockCall_bind hnow).trans ?_
    refine (run_lockCall_bind hx).trans ?_
    rw [← hpast, ← hms]
    exact run_lockCall_bind (h.sleep _ _)

/-! ## All rounds -/

/-- The rounds from the `k`-th on, after the calls `past`: what they call and what comes out. -/
inductive Rounds (clock : List (LockEvent U RU) → ℚ) (deadline : ℚ) :
    ℕ → List (LockEvent U RU) → List (LockEvent U RU) →
      Except JsError (Option (Token × Option ℤ)) → Prop
  | timeUp {k : ℕ} {past : List (LockEvent U RU)} (h : deadline ≤ clock past) :
      Rounds clock deadline k past [⟨.inl .dateNow, .ok (clock past)⟩] (.ok none)
  | ended {k : ℕ} {past : List (LockEvent U RU)} {t t' x ms : ℚ} {token : Token}
      {reply : Except JsError (Option ℤ)} (hlt : clock past < deadline)
      (hms : ms < min window.maxDelayMs (window.minDelayMs * 2 ^ k)) (hrest : ms ≤ deadline - t')
      (hreply : reply ≠ .ok none) :
      Rounds clock deadline k past
        (restEvents t t' x ms ++ attemptEvents this lockKey fenceKey ttlMs fencing token reply)
        (attemptResult fencing token reply)
  | again {k : ℕ} {past later : List (LockEvent U RU)} {t t' x ms : ℚ} {token : Token}
      {out : Except JsError (Option (Token × Option ℤ))} (hlt : clock past < deadline)
      (hms : ms < min window.maxDelayMs (window.minDelayMs * 2 ^ k)) (hrest : ms ≤ deadline - t')
      (hlater : Rounds clock deadline (k + 1) (past ++ (restEvents t t' x ms ++
        attemptEvents this lockKey fenceKey ttlMs fencing token (.ok none))) later out) :
      Rounds clock deadline k past (restEvents t t' x ms ++
        attemptEvents this lockKey fenceKey ttlMs fencing token (.ok none) ++ later) out

/-- The back-off doubles up to its limit. -/
theorem min_double (window : RetryWindow) (k : ℕ) :
    min (min (window.minDelayMs * 2 ^ k) window.maxDelayMs * 2) window.maxDelayMs =
      min (window.minDelayMs * 2 ^ (k + 1)) window.maxDelayMs := by
  have hmax : 0 < window.maxDelayMs := lt_of_lt_of_le window.minDelayMs_pos window.minDelayMs_le
  rw [pow_succ, ← mul_assoc]
  rcases le_total (window.minDelayMs * 2 ^ k) window.maxDelayMs with hle | hle
  · rw [min_eq_left hle]
  · rw [min_eq_right hle, min_eq_right (by linarith), min_eq_right (by linarith)]

theorem cap_eq (k : ℕ) (hbase : base = min (window.minDelayMs * 2 ^ k) window.maxDelayMs) :
    min window.maxDelayMs base = min window.maxDelayMs (window.minDelayMs * 2 ^ k) := by
  rw [hbase, min_comm (window.minDelayMs * 2 ^ k), ← min_assoc, min_self]

theorem min_pos (window : RetryWindow) (k : ℕ) :
    0 < min window.maxDelayMs (window.minDelayMs * 2 ^ k) := by
  have hmax : 0 < window.maxDelayMs := lt_of_lt_of_le window.minDelayMs_pos window.minDelayMs_le
  exact lt_min hmax (mul_pos window.minDelayMs_pos (pow_pos rfl k))

theorem loop_timeUp (h : Clocked env clock) (fuel k : ℕ) (hup : deadline ≤ clock past) :
    ∃ later out,
      (Async.loop (retryRound (this.tryOnce lockKey fenceKey ttlMs fencing) window deadline)
        (fuel + 1) base).run env past = (past ++ later, some out) ∧
        Rounds this lockKey fenceKey ttlMs fencing window clock deadline k past later out :=
  ⟨_, .ok none, Async.run_bind_ok (retryRound_timeUp window h hup _), .timeUp hup⟩

/-- The loop ends once the clock has had enough rounds to reach the deadline. -/
theorem loop_run (h : Clocked env clock) (fuel k : ℕ) (past : List (LockEvent U RU))
    (hbase : base = min (window.minDelayMs * 2 ^ k) window.maxDelayMs)
    (hfuel : deadline ≤ clock past + fuel) : ∃ later out,
    (Async.loop (retryRound (this.tryOnce lockKey fenceKey ttlMs fencing) window deadline)
      (fuel + 1) base).run env past = (past ++ later, some out) ∧
      Rounds this lockKey fenceKey ttlMs fencing window clock deadline k past later out := by
  induction fuel generalizing k past base with
  | zero =>
    exact loop_timeUp this lockKey fenceKey ttlMs fencing window h 0 k (by simpa using hfuel)
  | succ fuel ih =>
    by_cases hup : deadline ≤ clock past
    · exact loop_timeUp this lockKey fenceKey ttlMs fencing window h (fuel + 1) k hup
    have hcap := cap_eq window k hbase
    obtain ⟨t, t', x, ms, hms, hrest, hclock, hround⟩ := retryRound_rest window h (not_le.mp hup)
      (hcap ▸ min_pos window k) (this.tryOnce lockKey fenceKey ttlMs fencing)
    obtain ⟨token, reply, htry⟩ := tryOnce_run this lockKey fenceKey ttlMs fencing h
      (past ++ restEvents t t' x ms)
    rw [List.append_assoc] at htry
    rw [hcap] at hms
    rcases reply with e | _ | n
    · exact ⟨_, _, Async.run_bind_error (hround.trans (Async.run_bind_error htry)),
        .ended (not_le.mp hup) hms hrest nofun⟩
    · have hnext := hround.trans (Async.run_bind_ok htry)
      have hlater := clock_append h (past ++ restEvents t t' x ms)
        (attemptEvents this lockKey fenceKey ttlMs fencing token (.ok none))
      rw [List.append_assoc] at hlater
      -- the sleep has taken a millisecond, and the loop has one round less
      have hfuel' : deadline ≤ clock (past ++ (restEvents t t' x ms ++
          attemptEvents this lockKey fenceKey ttlMs fencing token (.ok none))) + fuel := by
        push_cast at hfuel
        linarith
      have hbase' : min (base * 2) window.maxDelayMs =
          min (window.minDelayMs * 2 ^ (k + 1)) window.maxDelayMs := by
        rw [hbase, min_double]
      obtain ⟨later, out, hrun, hrounds⟩ := ih (k + 1) _ hbase' hfuel'
      refine ⟨_, out, (Async.run_bind_ok hnext).trans (hrun.trans ?_),
        .again (not_le.mp hup) hms hrest hrounds⟩
      rw [List.append_assoc]
    · exact ⟨_, _, Async.run_bind_ok (hround.trans (Async.run_bind_ok htry)),
        .ended (not_le.mp hup) hms hrest nofun⟩

variable {this lockKey fenceKey ttlMs fencing window}
variable {k : ℕ} {later : List (LockEvent U RU)} {out : Except JsError (Option (Token × Option ℤ))}

theorem attemptsOf_append (events later : List (LockEvent U RU)) :
    attemptsOf (events ++ later) = attemptsOf events ++ attemptsOf later :=
  List.filterMap_append

/-- The attempts of the rounds: all have failed and the time is up, or the last one has not. -/
theorem Rounds.outcome (hclock : Clocked env clock)
    (h : Rounds this lockKey fenceKey ttlMs fencing window clock deadline k past later out) :
    (out = .ok none ∧ (∀ a ∈ attemptsOf later, a.2 = .ok none) ∧
      deadline ≤ clock (past ++ later)) ∨
    ∃ failed token reply, attemptsOf later = failed ++ [(token, reply)] ∧
      (∀ a ∈ failed, a.2 = .ok none) ∧ reply ≠ .ok none ∧
      out = attemptResult fencing token reply := by
  induction h with
  | timeUp hup =>
    exact Or.inl ⟨rfl, nofun, le_trans hup (hclock.monotone _ _)⟩
  | ended _ _ _ hreply => exact Or.inr ⟨[], _, _, rfl, nofun, hreply, rfl⟩
  | again _ _ _ _ ih =>
    rw [attemptsOf_append]
    rcases ih with ⟨hout, hfailed, hup⟩ | ⟨failed, token, reply, hlast, hfailed, hreply, hout⟩
    · refine Or.inl ⟨hout, List.forall_mem_cons.mpr ⟨rfl, hfailed⟩, ?_⟩
      rwa [List.append_assoc] at hup
    · exact Or.inr ⟨_ :: failed, token, reply, congrArg (_ :: ·) hlast,
        List.forall_mem_cons.mpr ⟨rfl, hfailed⟩, hreply, hout⟩

theorem Rounds.sleeps
    (h : Rounds this lockKey fenceKey ttlMs fencing window clock deadline k past later out)
    (latest : Option ℚ) (i : ℕ) (ms : ℚ) (reading : Option ℚ)
    (hi : (RedisLockService.sleeps latest later)[i]? = some (ms, reading)) :
    ms < min window.maxDelayMs (window.minDelayMs * 2 ^ (k + i)) ∧
      ∃ t ∈ reading, ms ≤ deadline - t := by
  induction h generalizing latest i with
  | timeUp _ => cases hi
  | ended _ hms hrest _ =>
    cases i with
    | zero =>
      cases hi
      exact ⟨hms, _, rfl, hrest⟩
    | succ i => cases hi
  | again _ hms hrest _ ih =>
    cases i with
    | zero =>
      cases hi
      exact ⟨hms, _, rfl, hrest⟩
    | succ i =>
      rw [Nat.add_succ, ← Nat.succ_add]
      exact ih _ i hi

/-- With no time to wait there is no round at all. -/
theorem Rounds.of_timeUp
    (h : Rounds this lockKey fenceKey ttlMs fencing window clock deadline k past later out)
    (hup : deadline ≤ clock past) : attemptsOf later = [] := by
  cases h with
  | timeUp _ => rfl
  | ended hlt => exact absurd hlt (not_lt.mpr hup)
  | again hlt => exact absurd hlt (not_lt.mpr hup)

/-! ## acquire -/

/-- What an attempt that is granted returns. -/
def Returned (fencing : Bool) (token : Token) (n : ℤ) (got : Token × Option ℤ) : Prop :=
  got = (token, if fencing then some n else none)

/-- An attempt that has not failed settles with its error or with its token. -/
theorem returned_of_ne {token : Token} {reply : Except JsError (Option ℤ)}
    (hreply : reply ≠ .ok none) :
    (∃ e, reply = .error e ∧ some (attemptResult fencing token reply) = some (.error e)) ∨
      ∃ n a, reply = .ok (some n) ∧ Returned fencing token n a ∧
        some (attemptResult fencing token reply) = some (.ok (some a)) := by
  rcases reply with e | _ | n
  · exact Or.inl ⟨e, rfl, rfl⟩
  · exact absurd rfl hreply
  · exact Or.inr ⟨n, _, rfl, rfl, rfl⟩

/-- A single attempt that has not failed is all there is. -/
theorem retrySound_single {token : Token} {reply : Except JsError (Option ℤ)}
    (hreply : reply ≠ .ok none) :
    RetrySound window clock (Returned fencing)
      (attemptEvents this lockKey fenceKey ttlMs fencing token reply : List (LockEvent U RU))
      (some (attemptResult fencing token reply)) where
  outcome := Or.inr ⟨[], token, reply, rfl, List.forall_mem_nil _, returned_of_ne hreply⟩
  tried := List.cons_ne_nil _ _
  once := fun _ => rfl
  sleeps := by
    intro k ms latest hk
    cases hk

/-- A failed attempt, the reading of the clock that sets the deadline, and the rounds. -/
theorem retrySound_rounds (hclock : Clocked env clock) {token : Token} {start : ℚ}
    (hstart : start = clock (attemptEvents this lockKey fenceKey ttlMs fencing token (.ok none)))
    (h : Rounds this lockKey fenceKey ttlMs fencing window clock (start + window.waitMs) 0
      (attemptEvents this lockKey fenceKey ttlMs fencing token (.ok none) ++
        [⟨.inl .dateNow, .ok start⟩]) later out) :
    RetrySound window clock (Returned fencing)
      (attemptEvents this lockKey fenceKey ttlMs fencing token (.ok none) ++
        [⟨.inl .dateNow, .ok start⟩] ++ later) (some out) where
  outcome := by
    rw [attemptsOf_append]
    rcases h.outcome hclock with ⟨rfl, hfailed, hup⟩ | ⟨failed, token', reply, hlast, hfailed,
      hreply, rfl⟩
    · exact Or.inl ⟨rfl, List.forall_mem_cons.mpr ⟨rfl, hfailed⟩, start, rfl, hup⟩
    · exact Or.inr ⟨_ :: failed, token', reply, congrArg (_ :: ·) hlast,
        List.forall_mem_cons.mpr ⟨rfl, hfailed⟩, returned_of_ne hreply⟩
  tried := List.cons_ne_nil _ _
  once := by
    intro hzero
    have hup : start + window.waitMs ≤ clock (attemptEvents this lockKey fenceKey ttlMs fencing
        token (.ok none) ++ [⟨.inl .dateNow, .ok start⟩]) := by
      rw [hzero, add_zero, hstart]
      exact hclock.monotone _ _
    rw [attemptsOf_append, h.of_timeUp hup]
    rfl
  sleeps := by
    intro k ms latest hk
    obtain ⟨hms, t, ht, hrest⟩ := h.sleeps (some start) k ms latest hk
    rw [Nat.zero_add] at hms
    exact ⟨hms, start, rfl, t, ht, hrest⟩

/-- The attempts of an `acquire` with retries come to an end. -/
theorem attempts_run (this : RedisLockService) (lockKey fenceKey : String) (ttlMs : JsNumber)
    (fencing : Bool) (h : Clocked env clock) {fuel : ℕ} (hfuel : window.waitMs ≤ fuel) :
    ∃ events out,
      (this.attempts lockKey fenceKey ttlMs fencing (some window) (fuel + 1)).run env [] =
        (events, some out) ∧ RetrySound window clock (Returned fencing) events (some out) := by
  obtain ⟨token, reply, htry⟩ := tryOnce_run this lockKey fenceKey ttlMs fencing h []
  rw [List.nil_append] at htry
  rcases reply with e | _ | n
  · exact ⟨_, _, Async.run_bind_error htry, retrySound_single nofun⟩
  · have hnow := h.dateNow (attemptEvents this lockKey fenceKey ttlMs fencing token (.ok none))
    have hbase : window.minDelayMs = min (window.minDelayMs * 2 ^ 0) window.maxDelayMs := by
      rw [pow_zero, mul_one, min_eq_left window.minDelayMs_le]
    have hfuel' : clock (attemptEvents this lockKey fenceKey ttlMs fencing token (.ok none)) +
        window.waitMs ≤ clock (attemptEvents this lockKey fenceKey ttlMs fencing token (.ok none) ++
          [⟨.inl .dateNow, .ok (clock (attemptEvents this lockKey fenceKey ttlMs fencing token
            (.ok none)))⟩]) + fuel :=
      add_le_add (h.monotone _ _) hfuel
    obtain ⟨later, out, hrun, hrounds⟩ :=
      loop_run this lockKey fenceKey ttlMs fencing window h fuel 0 _ hbase hfuel'
    refine ⟨_, out, (Async.run_bind_ok htry).trans ?_, retrySound_rounds h rfl hrounds⟩
    exact (run_lockCall_bind hnow).trans hrun
  · exact ⟨_, _, Async.run_bind_ok htry, retrySound_single nofun⟩

/-- Starting a watchdog at the end is no sleep. -/
theorem sleeps_concat (lock : Lock) (r : Except JsError Unit) (latest : Option ℚ)
    (events : List (LockEvent U RU)) :
    RedisLockService.sleeps latest (events ++ [⟨.inl (.startWatchdog lock ttlMs), r⟩]) =
      RedisLockService.sleeps latest events := by
  induction events generalizing latest with
  | nil => rfl
  | cons event events ih =>
    obtain ⟨c | u, reply⟩ := event
    · cases c with
      | dateNow =>
        cases reply with
        | ok t => exact ih (some t)
        | error e => exact ih latest
      | sleep ms => exact congrArg (_ :: ·) (ih latest)
      | _ => exact ih latest
    · exact ih latest

/-- The lock object for the token of the attempt that was granted. -/
structure Built (this : RedisLockService) (key : String) (ttlMs : JsNumber) (opts : LockOptions)
    (token : Token) (n : ℤ) (lock : Lock) : Prop where
  isLock : IsLock this key ttlMs opts lock
  token_eq : lock.token = token
  fencingToken_eq : lock.fencingToken = if opts.fencing.getD false then some n else none

/-- A lock made of the result of the last attempt, possibly with a watchdog started. -/
theorem RetrySound.build {α β : Type} {returns : Token → ℤ → α → Prop}
    {returns' : Token → ℤ → β → Prop} {events later : List (LockEvent U RU)} {a : α} {b : β}
    (h : RetrySound window clock returns events (some (.ok (some a))))
    (hlater : later = [] ∨ ∃ lock r, later = [⟨.inl (.startWatchdog lock ttlMs), r⟩])
    (hreturns : ∀ token n, returns token n a → returns' token n b) :
    RetrySound window clock returns' (events ++ later) (some (.ok (some b))) := by
  have hsame : attemptsOf (events ++ later) = attemptsOf events ∧
      readings (events ++ later) = readings events ∧
      RedisLockService.sleeps none (events ++ later) = RedisLockService.sleeps none events := by
    rcases hlater with rfl | ⟨lock, r, rfl⟩
    · rw [List.append_nil]
      exact ⟨rfl, rfl, rfl⟩
    · refine ⟨?_, ?_, sleeps_concat lock r none events⟩
      · rw [attemptsOf_append]
        exact List.append_nil _
      · exact List.filterMap_append.trans (List.append_nil _)
  obtain ⟨hattempts, hreadings, hsleeps⟩ := hsame
  exact {
    outcome := by
      rw [hattempts]
      rcases h.outcome with ⟨hout, -⟩ | ⟨failed, token, reply, hlast, hfailed, hresult⟩
      · cases hout
      · refine Or.inr ⟨failed, token, reply, hlast, hfailed, ?_⟩
        rcases hresult with ⟨e, -, hout⟩ | ⟨n, a', hreply, ha, hout⟩
        · cases hout
        · cases hout
          exact Or.inr ⟨n, b, hreply, hreturns token n ha, rfl⟩
    tried := hattempts ▸ h.tried
    once := hattempts ▸ h.once
    sleeps := by
      rw [hsleeps, hreadings]
      exact h.sleeps }

/-- Without a result there is nothing to make a lock of. -/
theorem RetrySound.of_not_some {α β : Type} {returns : Token → ℤ → α → Prop}
    {returns' : Token → ℤ → β → Prop} {events : List (LockEvent U RU)}
    {out : Except JsError (Option α)} {out' : Except JsError (Option β)}
    (h : RetrySound window clock returns events (some out))
    (hout : out = .ok none ∧ out' = .ok none ∨ ∃ e, out = .error e ∧ out' = .error e) :
    RetrySound window clock returns' events (some out') where
  outcome := by
    rcases hout with ⟨rfl, rfl⟩ | ⟨e, rfl, rfl⟩
    · rcases h.outcome with hnone | ⟨failed, token, reply, -, -, hresult⟩
      · exact Or.inl ⟨rfl, hnone.2⟩
      · rcases hresult with ⟨e, -, hout⟩ | ⟨n, a, -, -, hout⟩ <;> cases hout
    · rcases h.outcome with ⟨hnone, -⟩ | ⟨failed, token, reply, hlast, hfailed, hresult⟩
      · cases hnone
      · refine Or.inr ⟨failed, token, reply, hlast, hfailed, Or.inl ?_⟩
        rcases hresult with ⟨e', hreply, hout⟩ | ⟨n, a, -, -, hout⟩
        · cases hout
          exact ⟨e, hreply, rfl⟩
        · cases hout
  tried := h.tried
  once := h.once
  sleeps := h.sleeps

theorem buildLock_run (h : Clocked env clock) (this : RedisLockService) (key : String)
    (token : Token) (fencingToken : Option ℤ) (ttlMs : JsNumber) (opts : LockOptions)
    (past : List (LockEvent U RU)) : ∃ later lock,
    (this.buildLock key ("lock:" ++ key) token fencingToken ttlMs opts).run env past =
      (past ++ later, some (.ok lock)) ∧
    (later = [] ∨ ∃ lock r, later = [⟨.inl (.startWatchdog lock ttlMs), r⟩]) ∧
    IsLock this key ttlMs opts lock ∧ lock.token = token ∧ lock.fencingToken = fencingToken := by
  unfold buildLock
  by_cases hrenew : opts.autoRenew.getD false = true
  · rw [if_pos hrenew]
    exact ⟨_, _, run_lockCall_bind (h.startWatchdog past _ ttlMs), Or.inr ⟨_, _, rfl⟩,
      ⟨rfl, rfl, rfl, (if_pos hrenew).symm⟩, rfl, rfl⟩
  · rw [if_neg hrenew]
    exact ⟨[], _, congrArg (·, _) (List.append_nil past).symm, Or.inl rfl,
      ⟨rfl, rfl, rfl, (if_neg hrenew).symm⟩, rfl, rfl⟩

/-- `acquire` with retries, once its arguments have passed. -/
theorem acquire_retrySound {numberText : JsNumber → String} {key : String} {opts : LockOptions}
    {fuel : ℕ} (hargs : validateLockArgs numberText ttlMs opts = .ok (some window))
    (h : Clocked env clock) (hfuel : window.waitMs ≤ fuel) :
    RetrySound window clock (Built this key ttlMs opts)
      ((this.acquire numberText key ttlMs opts (fuel + 1)).run env []).1
      ((this.acquire numberText key ttlMs opts (fuel + 1)).run env []).2 := by
  obtain ⟨events, out, hrun, hsound⟩ := attempts_run this ("lock:" ++ key)
    ("lock:fence:" ++ key) ttlMs (opts.fencing.getD false) h hfuel
  rcases out with e | _ | ⟨token, fencingToken⟩
  · have hacquire : (this.acquire numberText key ttlMs opts (fuel + 1)).run env [] =
        (events, some (.error e)) := by
      unfold acquire
      rw [hargs]
      show (Async.bind (this.attempts ("lock:" ++ key) ("lock:fence:" ++ key) ttlMs
        (opts.fencing.getD false) (some window) (fuel + 1)) _).run env [] = _
      exact Async.run_bind_error hrun
    rw [hacquire]
    exact hsound.of_not_some (Or.inr ⟨e, rfl, rfl⟩)
  · have hacquire : (this.acquire numberText key ttlMs opts (fuel + 1)).run env [] =
        (events, some (.ok none)) := by
      unfold acquire
      rw [hargs]
      exact Async.run_bind_ok hrun
    rw [hacquire]
    exact hsound.of_not_some (Or.inl ⟨rfl, rfl⟩)
  · obtain ⟨later, lock, hbuild, hlater, hlock, htoken, hfencing⟩ :=
      buildLock_run h this key token fencingToken ttlMs opts events
    have hacquire : (this.acquire numberText key ttlMs opts (fuel + 1)).run env [] =
        (events ++ later, some (.ok (some lock))) := by
      unfold acquire
      rw [hargs]
      exact (Async.run_bind_ok hrun).trans (Async.run_bind_ok hbuild)
    rw [hacquire]
    refine hsound.build hlater fun token' n hreturned => ?_
    obtain ⟨rfl, rfl⟩ := Prod.mk.inj hreturned
    exact ⟨hlock, htoken, hfencing⟩

end Loop

/-! ## A lock that is taken at first -/

/-- What a call takes: a sleep its time and at least a millisecond. -/
def takes : LockEvent Empty (fun _ => Empty) → ℚ
  | ⟨.inl (.sleep ms), _⟩ => max ms 1
  | _ => 0

def sleepClock (past : List (LockEvent Empty fun _ => Empty)) : ℚ := (past.map takes).sum

/-- Redis grants the lock to the third attempt. -/
def thirdTime (past : List (LockEvent Empty fun _ => Empty)) : (c : LockCall ⊕ Empty) →
    Except JsError (Sum.elim LockCall.Reply (fun _ => Empty) c)
  | .inl .randomBytes => .ok ⟨(attemptsOf past).length⟩
  | .inl (.acquireLock ..) => .ok (if (attemptsOf past).length = 2 then some 1 else none)
  | .inl (.extendLock ..) => .ok (0 : ℤ)
  | .inl (.releaseLock ..) => .ok (0 : ℤ)
  | .inl .dateNow => .ok (sleepClock past)
  | .inl .mathRandom => .ok (1 / 2 : ℚ)
  | .inl (.sleep _) => .ok ()
  | .inl (.startWatchdog ..) => .ok ()
  | .inl (.stopWatchdog _) => .ok ()

theorem sleepClock_concat (past : List (LockEvent Empty fun _ => Empty))
    (event : LockEvent Empty fun _ => Empty) :
    sleepClock (past ++ [event]) = sleepClock past + takes event := by
  rw [sleepClock, List.map_append, List.sum_append]
  exact congrArg (_ + ·) (add_zero _)

theorem clocked_thirdTime : Clocked thirdTime sleepClock where
  dateNow := fun _ => rfl
  mathRandom := fun _ => ⟨1 / 2, rfl, by norm_num, by norm_num⟩
  randomBytes := fun _ => ⟨_, rfl⟩
  sleep := fun _ _ => rfl
  startWatchdog := fun _ _ _ => rfl
  monotone := by
    intro past event
    have htakes : 0 ≤ takes event := by
      unfold takes
      split
      · exact le_trans zero_le_one (le_max_right _ _)
      · exact le_refl 0
    rw [sleepClock_concat]
    exact le_add_of_nonneg_right htakes
  slept := fun past ms r => (sleepClock_concat past _).ge

def oneSecond : RetryWindow := ⟨1000, 50, 400, by norm_num, by norm_num, by norm_num⟩

def retrying : LockOptions := { retry := some ⟨1000, none, none⟩ }

theorem acquire_retrySound_thirdTime :
    RetrySound oneSecond sleepClock (Built ⟨0⟩ "job" 30000 retrying)
      ((acquire (fun _ => "") ⟨0⟩ "job" 30000 retrying 1001).run thirdTime []).1
      ((acquire (fun _ => "") ⟨0⟩ "job" 30000 retrying 1001).run thirdTime []).2 ∧
    attemptsOf ((acquire (fun _ => "") ⟨0⟩ "job" 30000 retrying 1001).run thirdTime []).1 =
      [(⟨0⟩, .ok none), (⟨1⟩, .ok none), (⟨2⟩, .ok (some 1))] := by
  have hargs : validateLockArgs (fun _ => "") 30000 retrying = .ok (some oneSecond) := rfl
  exact ⟨acquire_retrySound hargs clocked_thirdTime (by norm_num [oneSecond]), by decide +kernel⟩

end RedisLockService

end NestFastify.Redis
