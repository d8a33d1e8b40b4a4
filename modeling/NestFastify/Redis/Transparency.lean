import NestFastify.Redis.WithLock

/-!
# What withLock does to its body

`withLock` (lock.service.ts) runs `acquire`, the body and `release` one after the other. Its caller
should see the outcome of the body; the `finally` block can put that of `release` in its place.
-/

namespace NestFastify.Redis

namespace RedisLockService

section Transparency

variable (numberText : JsNumber → String) (this : RedisLockService)
variable {U : Type} {RU : U → Type} {α : Type}
variable (env : List (LockEvent U RU) → (c : LockCall ⊕ U) →
    Except JsError (Sum.elim LockCall.Reply RU c))
variable (key : String) (ttlMs : JsNumber) (fn : Lock → Program U RU α) (opts : LockOptions)
  (fuel : ℕ)

/-- What a caller gets when the lock was not to be had. -/
def notAcquired (opts : LockOptions) : Except JsError (Option α) :=
  if opts.onTimeout = some .return then .ok none
  else .error (.appException "redis.LOCK_ACQUISITION_FAILED" 409)

/-- `withLock` runs the body once, on the lock that `acquire` has returned, and `release` once
after it, and settles as the body has. -/
structure Transparent : Prop where
  refused : ∀ past e,
    (this.acquire numberText key ttlMs opts fuel).run env [] = (past, some (.error e)) →
    (this.withLock numberText key ttlMs fn opts fuel).run env [] = (past, some (.error e))
  timedOut : ∀ past,
    (this.acquire numberText key ttlMs opts fuel).run env [] = (past, some (.ok none)) →
    (this.withLock numberText key ttlMs fn opts fuel).run env [] =
      (past, some (notAcquired opts))
  settles : ∀ past lock past' r past'' released,
    (this.acquire numberText key ttlMs opts fuel).run env [] = (past, some (.ok (some lock))) →
    (fn lock).run env past = (past', some r) →
    (release lock : Program U RU Bool).run env past' = (past'', some released) →
    (this.withLock numberText key ttlMs fn opts fuel).run env [] = (past'', some (r.map some))
  waits : ∀ past lock past',
    (this.acquire numberText key ttlMs opts fuel).run env [] = (past, some (.ok (some lock))) →
    (fn lock).run env past = (past', none) →
    (this.withLock numberText key ttlMs fn opts fuel).run env [] = (past', none)

/-- A `release` that rejects does so with the error of the body. -/
def ReleaseHarmless : Prop :=
  ∀ past lock past' r past'' e,
    (this.acquire numberText key ttlMs opts fuel).run env [] = (past, some (.ok (some lock))) →
    (fn lock).run env past = (past', some r) →
    (release lock : Program U RU Bool).run env past' = (past'', some (.error e)) →
    r = .error e

variable {numberText this env key ttlMs fn opts fuel}
variable {past past' past'' : List (LockEvent U RU)} {lock : Lock} {r : Except JsError α}

theorem withLock_refused {e : JsError}
    (h : (this.acquire numberText key ttlMs opts fuel).run env [] = (past, some (.error e))) :
    (this.withLock numberText key ttlMs fn opts fuel).run env [] = (past, some (.error e)) :=
  Async.run_bind_error h

theorem withLock_timedOut
    (h : (this.acquire numberText key ttlMs opts fuel).run env [] = (past, some (.ok none))) :
    (this.withLock numberText key ttlMs fn opts fuel).run env [] =
      (past, some (notAcquired opts)) := by
  refine (Async.run_bind_ok h).trans ?_
  rw [notAcquired]
  by_cases hreturn : opts.onTimeout = some .return
  · rw [if_pos hreturn]
    simp only [if_pos hreturn]
    rfl
  · rw [if_neg hreturn]
    simp only [if_neg hreturn]
    rfl

/-- With the lock in hand the body is run and its outcome waits for the release. -/
theorem withLock_held
    (h : (this.acquire numberText key ttlMs opts fuel).run env [] = (past, some (.ok (some lock))))
    (hfn : (fn lock).run env past = (past', some r)) :
    (this.withLock numberText key ttlMs fn opts fuel).run env [] =
      ((release lock).bind fun _ => Async.settled (r.map some)).run env past' := by
  refine (Async.run_bind_ok h).trans (Async.run_tryFinally ?_)
  cases r with
  | ok a => exact Async.run_bind_ok hfn
  | error e => exact Async.run_bind_error hfn

theorem withLock_waits
    (h : (this.acquire numberText key ttlMs opts fuel).run env [] = (past, some (.ok (some lock))))
    (hfn : (fn lock).run env past = (past', none)) :
    (this.withLock numberText key ttlMs fn opts fuel).run env [] = (past', none) :=
  (Async.run_bind_ok h).trans (Async.run_tryFinally_pending (Async.run_bind_pending hfn))

theorem withLock_released {released : Bool}
    (h : (this.acquire numberText key ttlMs opts fuel).run env [] = (past, some (.ok (some lock))))
    (hfn : (fn lock).run env past = (past', some r))
    (hrelease : (release lock : Program U RU Bool).run env past' = (past'', some (.ok released))) :
    (this.withLock numberText key ttlMs fn opts fuel).run env [] = (past'', some (r.map some)) := by
  rw [withLock_held h hfn, Async.run_bind_ok hrelease, Async.run_settled]

/-- A rejection of the release takes the place of whatever the body has come to. -/
theorem withLock_release_rejected {e : JsError}
    (h : (this.acquire numberText key ttlMs opts fuel).run env [] = (past, some (.ok (some lock))))
    (hfn : (fn lock).run env past = (past', some r))
    (hrelease : (release lock : Program U RU Bool).run env past' = (past'', some (.error e))) :
    (this.withLock numberText key ttlMs fn opts fuel).run env [] = (past'', some (.error e)) := by
  rw [withLock_held h hfn, Async.run_bind_error hrelease]

/-- `withLock` is transparent exactly as long as no release puts its own error in the place of
the body's outcome. -/
theorem transparent_iff : Transparent numberText this env key ttlMs fn opts fuel ↔
    ReleaseHarmless numberText this env key ttlMs fn opts fuel := by
  constructor
  · intro htransparent past lock past' r past'' e h hfn hrelease
    have hseen := htransparent.settles past lock past' r past'' _ h hfn hrelease
    rw [withLock_release_rejected h hfn hrelease] at hseen
    cases r with
    | ok a => cases hseen
    | error e' =>
      cases hseen
      rfl
  · intro hharmless
    refine ⟨fun _ _ => withLock_refused, fun _ => withLock_timedOut, ?_,
      fun _ _ _ => withLock_waits⟩
    intro past lock past' r past'' released h hfn hrelease
    cases released with
    | ok b => exact withLock_released h hfn hrelease
    | error e =>
      rw [withLock_release_rejected h hfn hrelease, hharmless past lock past' r past'' e h hfn
        hrelease]
      rfl

end Transparency

/-! ## The release fails -/

/-- Every call succeeds but the release. -/
def closingEnv (past : List (LockEvent Unit fun _ => String)) : (c : LockCall ⊕ Unit) →
    Except JsError (Sum.elim LockCall.Reply (fun _ => String) c)
  | .inl (.releaseLock ..) => .error (.error "Connection is closed.")
  | c => grantingEnv past c

/-- The body resolves to a value; the caller gets the error of the release. -/
theorem not_transparent : ¬ ∀ (env : List (LockEvent Unit fun _ => String) →
      (c : LockCall ⊕ Unit) → Except JsError (Sum.elim LockCall.Reply (fun _ => String) c))
    (fn : Lock → Program Unit (fun _ => String) String) (opts : LockOptions),
    Transparent (fun _ => "") ⟨0⟩ env "user:42:sync" 30000 fn opts 0 := by
  intro h
  have hrejected : ((withLock (fun _ => "") ⟨0⟩ "user:42:sync" 30000 (fun _ => body () "42") {}
      0).run closingEnv []).2 = some (.error (.error "Connection is closed.")) := rfl
  rw [(h closingEnv (fun _ => body () "42") {}).settles _ _ _ _ _ _ rfl rfl rfl] at hrejected
  cases hrejected

end RedisLockService

end NestFastify.Redis
