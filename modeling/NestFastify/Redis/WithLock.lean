import NestFastify.Redis.LockService

/-!
# The @WithLock decorator

with-lock.decorator.ts: the module-level reference to the lock service, and the wrapper that
`@WithLock` puts in the place of a method. Functions of a class are modelled with the
receiver they are called with, since the wrapper takes `withLock` off its service and calls
it as a plain function.
-/

namespace NestFastify.Redis

open Async (run)

/-! ## The reference -/

/-- `lockServiceRef`. -/
abbrev LockServiceRef : Type := Option RedisLockService

def setLockServiceRef (_ : LockServiceRef) (s : RedisLockService) : LockServiceRef := some s

/-- Only the current owner clears the reference. -/
def clearLockServiceRef (ref : LockServiceRef) (s : RedisLockService) : LockServiceRef :=
  if ref = some s then none else ref

def getLockServiceRef (ref : LockServiceRef) : Except JsError RedisLockService :=
  match ref with
  | none => .error (.error
      "LockService chưa được bootstrap — RedisModule phải nạp trước khi dùng @WithLock.")
  | some s => .ok s

/-- `RedisModule.onModuleInit`. -/
def onModuleInit (ref : LockServiceRef) (lockService : RedisLockService) : LockServiceRef :=
  setLockServiceRef ref lockService

/-! ## Calls with a receiver -/

section Decorator

variable (numberText : JsNumber → String)
variable {U : Type} {RU : U → Type} {α This A : Type}

/-- What calling a function gives: it throws at once, or it returns a promise. -/
inductive Invocation (U : Type) (RU : U → Type) (α : Type) where
  | thrown (e : JsError)
  | promise (p : Program U RU α)

/-- The calls an invocation makes and how it ends; `none` is a throw before any promise. -/
def Invocation.run (env : List (LockEvent U RU) → (c : LockCall ⊕ U) →
    Except JsError (Sum.elim LockCall.Reply RU c)) :
    Invocation U RU α → List (LockEvent U RU) × Option (Except JsError α) × Bool
  | thrown e => ([], some (.error e), true)
  | promise p => ((p.run env []).1, (p.run env []).2, false)

/-- `RedisLockService.prototype.withLock` called with `this`. Without a receiver, reading
`this.acquire` throws inside the async function. -/
def withLockFunction (this : Option RedisLockService) (key : String) (ttlMs : JsNumber)
    (fn : Lock → Program U RU α) (opts : LockOptions) (fuel : ℕ) : Program U RU (Option α) :=
  match this with
  | none => Async.throw (.typeError "Cannot read properties of undefined (reading 'acquire')")
  | some service => service.withLock numberText key ttlMs fn opts fuel

structure WithLockMetadata (A : Type) where
  key : A → Except JsError String
  ttlMs : JsNumber
  retry : Option RetryOptions
  autoRenew : Option Bool
  onTimeout : Option OnTimeout

/-- The options the wrapper passes on. -/
def WithLockMetadata.options (metadata : WithLockMetadata A) : LockOptions :=
  { retry := metadata.retry, autoRenew := metadata.autoRenew, onTimeout := metadata.onTimeout }

/-- The function `@WithLock(meta)` puts in the place of `original`. -/
def WithLock (ref : LockServiceRef) (metadata : WithLockMetadata A)
    (original : This → A → Program U RU α) (fuel : ℕ) (this : This) (args : A) :
    Invocation U RU (Option α) :=
  match metadata.key args with
  | .error e => .thrown e
  | .ok key =>
    match getLockServiceRef ref with
    | .error e => .thrown e
    | .ok _ =>
      -- `const withLock = getLockServiceRef().withLock` keeps the function, not the service
      .promise (withLockFunction numberText none key metadata.ttlMs (fun _ => original this args)
        metadata.options fuel)

/-- `s.withLock(meta.key(...args), meta.ttlMs, () => original.apply(this, args), ...)`. -/
def lockedCall (s : RedisLockService) (metadata : WithLockMetadata A)
    (original : This → A → Program U RU α) (fuel : ℕ) (this : This) (args : A) :
    Invocation U RU (Option α) :=
  match metadata.key args with
  | .error e => .thrown e
  | .ok key =>
    .promise (withLockFunction numberText (some s) key metadata.ttlMs (fun _ => original this args)
      metadata.options fuel)

/-! ## The wrapper against the direct call -/

variable {numberText}
variable {env : List (LockEvent U RU) → (c : LockCall ⊕ U) →
    Except JsError (Sum.elim LockCall.Reply RU c)}
variable {s : RedisLockService} {metadata : WithLockMetadata A}
  {original : This → A → Program U RU α} {fuel : ℕ} {this : This} {args : A} {key : String}

/-- Once the key is there, the wrapper rejects without a single call. -/
theorem WithLock_run (ref : LockServiceRef) (hkey : metadata.key args = .ok key) :
    (WithLock numberText (onModuleInit ref s) metadata original fuel this args).run env =
      ([], some (.error
        (.typeError "Cannot read properties of undefined (reading 'acquire')")), false) := by
  unfold WithLock
  rw [hkey]
  rfl

/-- The lock service either refuses the arguments or draws a token. -/
theorem withLock_run_cases (ttlMs : JsNumber) (fn : Lock → Program U RU α) (opts : LockOptions) :
    (∃ message, (s.withLock numberText key ttlMs fn opts fuel).run env [] =
      ([], some (.error (.error message)))) ∨
    ((s.withLock numberText key ttlMs fn opts fuel).run env []).1 ≠ [] := by
  unfold RedisLockService.withLock RedisLockService.acquire
  cases hargs : validateLockArgs numberText ttlMs opts with
  | error e =>
    obtain ⟨message, rfl⟩ := validateLockArgs_error hargs
    exact Or.inl ⟨message, rfl⟩
  | ok retry =>
    -- the first call is the draw of a token
    exact Or.inr (Async.run_await_ne_nil env (Sum.inl LockCall.randomBytes) _ [])

/-- The decorated method does what the direct call does exactly when the key factory
throws, so that neither gets as far as the lock service. -/
theorem WithLock_run_eq_iff (ref : LockServiceRef) :
    (WithLock numberText (onModuleInit ref s) metadata original fuel this args).run env =
        (lockedCall numberText s metadata original fuel this args).run env ↔
      ∃ e, metadata.key args = .error e := by
  constructor
  · intro h
    cases hkey : metadata.key args with
    | error e => exact ⟨e, rfl⟩
    | ok key =>
      exfalso
      rw [WithLock_run ref hkey] at h
      have hdirect : lockedCall numberText s metadata original fuel this args =
          .promise (s.withLock numberText key metadata.ttlMs (fun _ => original this args)
            metadata.options fuel) := by
        simp only [lockedCall, hkey, withLockFunction]
      rw [hdirect, Invocation.run] at h
      rcases withLock_run_cases metadata.ttlMs (fun _ => original this args) metadata.options
        with hrefused | hcalls
      · obtain ⟨message, hrun⟩ := hrefused
        rw [hrun] at h
        cases h
      · exact hcalls (congrArg Prod.fst h).symm
  · intro h
    obtain ⟨e, he⟩ := h
    unfold WithLock lockedCall
    rw [he]

end Decorator

/-! ## A lock that is free

`body` is a method that makes one call of its own. Redis grants the lock. -/

/-- Every call succeeds; the call of the body resolves to `"done"`. -/
def grantingEnv (_ : List (LockEvent Unit fun _ => String)) : (c : LockCall ⊕ Unit) →
    Except JsError (Sum.elim LockCall.Reply (fun _ => String) c)
  | .inl .randomBytes => .ok ⟨0⟩
  | .inl (.acquireLock ..) => .ok (some 1)
  | .inl (.extendLock ..) => .ok (1 : ℤ)
  | .inl (.releaseLock ..) => .ok (1 : ℤ)
  | .inl .dateNow => .ok (0 : ℚ)
  | .inl .mathRandom => .ok (0 : ℚ)
  | .inl (.sleep _) => .ok ()
  | .inl (.startWatchdog ..) => .ok ()
  | .inl (.stopWatchdog _) => .ok ()
  | .inr _ => .ok "done"

def jobMetadata : WithLockMetadata String where
  key := fun id => .ok ("user:" ++ id ++ ":sync")
  ttlMs := 30000
  retry := none
  autoRenew := none
  onTimeout := none

def body (_ : Unit) (_ : String) : Program Unit (fun _ => String) String :=
  Async.call (Sum.inr () : LockCall ⊕ Unit)

/-- The decorated method rejects and never runs its body, where the direct call runs it
under the lock and returns its value. -/
theorem WithLock_body_not_run :
    ((WithLock (fun _ => "") (onModuleInit none ⟨0⟩) jobMetadata body 0 () "42").run
      grantingEnv).2 = (some (.error (.typeError
        "Cannot read properties of undefined (reading 'acquire')")), false) ∧
    ((lockedCall (fun _ => "") ⟨0⟩ jobMetadata body 0 () "42").run grantingEnv).2 =
      (some (.ok (some "done")), false) ∧
    (WithLock (fun _ => "") (onModuleInit none ⟨0⟩) jobMetadata body 0 () "42").run grantingEnv ≠
      (lockedCall (fun _ => "") ⟨0⟩ jobMetadata body 0 () "42").run grantingEnv := by
  have hwrapped : ((WithLock (fun _ => "") (onModuleInit none ⟨0⟩) jobMetadata body 0 ()
      "42").run grantingEnv).2 = (some (.error (.typeError
        "Cannot read properties of undefined (reading 'acquire')")), false) := rfl
  have hdirect : ((lockedCall (fun _ => "") ⟨0⟩ jobMetadata body 0 () "42").run grantingEnv).2 =
      (some (.ok (some "done")), false) := rfl
  refine ⟨hwrapped, hdirect, fun h => ?_⟩
  rw [h, hdirect] at hwrapped
  cases hwrapped

end NestFastify.Redis
