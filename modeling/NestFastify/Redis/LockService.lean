import NestFastify.Foundation.Async
import NestFastify.Redis.Scripts
import Mathlib.Data.Rat.Floor

/-!
# The lock service

`RedisLockService` (lock.service.ts) as async functions. `LockCall` lists what it awaits
or reads from outside: the three scripts, random numbers, the clock, timers. The functions
are generic in the calls `U` that the body of `withLock` makes besides.

A loop takes the number of rounds it is unrolled for, `fuel`.
-/

namespace NestFastify.Redis

structure RetryOptions where
  waitMs : JsNumber
  minDelayMs : Option JsNumber
  maxDelayMs : Option JsNumber

inductive OnTimeout | throw | return
deriving DecidableEq

/-- The options of a call; an absent `opts` reads like the empty ones. -/
structure LockOptions where
  retry : Option RetryOptions := none
  autoRenew : Option Bool := none
  fencing : Option Bool := none
  onTimeout : Option OnTimeout := none

/-- The retry options once they have been validated and completed. -/
structure RetryWindow where
  waitMs : ℚ
  minDelayMs : ℚ
  maxDelayMs : ℚ
  waitMs_nonneg : 0 ≤ waitMs
  minDelayMs_pos : 0 < minDelayMs
  minDelayMs_le : minDelayMs ≤ maxDelayMs

/-- The object a successful `acquire` returns, with what its closures hold on to. Its
`renewMs` is the time its watchdog renews the lock with, when it has one. -/
structure Lock where
  client : ℕ
  key : String
  lockKey : String
  token : Token
  fencingToken : Option ℤ
  renewMs : Option JsNumber
deriving DecidableEq

/-- What the service calls; the scripts go through the connection `client`. -/
inductive LockCall where
  | randomBytes
  | acquireLock (client : ℕ) (lockKey fenceKey : String) (token : Token) (ttlMs : JsNumber)
      (fencing : Bool)
  | extendLock (client : ℕ) (lockKey : String) (token : Token) (ttlMs : JsNumber)
  | releaseLock (client : ℕ) (lockKey : String) (token : Token)
  | dateNow
  | mathRandom
  | sleep (ms : ℚ)
  | startWatchdog (lock : Lock) (ttlMs : JsNumber)
  | stopWatchdog (lock : Lock)
deriving DecidableEq

/-- What a call resolves to. -/
def LockCall.Reply : LockCall → Type
  | randomBytes => Token
  | acquireLock .. => Option ℤ
  | extendLock .. => ℤ
  | releaseLock .. => ℤ
  | dateNow => ℚ
  | mathRandom => ℚ
  | sleep _ => Unit
  | startWatchdog .. => Unit
  | stopWatchdog _ => Unit

/-- An async function that calls the lock service's collaborators and `U`. -/
abbrev Program (U : Type) (RU : U → Type) (α : Type) : Type :=
  Async JsError (LockCall ⊕ U) (Sum.elim LockCall.Reply RU) α

/-! ## Validation -/

/-- `Number.isFinite(x)` and `p x`; otherwise throw. -/
def finiteWith (p : ℚ → Prop) [DecidablePred p] (x : JsNumber) (message : String) :
    Except JsError {q : ℚ // p q} :=
  match x with
  | .finite q => if h : p q then .ok ⟨q, h⟩ else .error (.error message)
  | _ => .error (.error message)

/-- The part of `validateLockArgs` about `opts.retry`. -/
def validateRetry (retry : RetryOptions) : Except JsError RetryWindow := do
  let waitMs ← finiteWith (0 ≤ ·) retry.waitMs "LockService: retry.waitMs phải >= 0"
  let minDelayMs ← finiteWith (0 < ·) (retry.minDelayMs.getD 50)
    "LockService: retry.minDelayMs phải > 0"
  let maxDelayMs ← finiteWith (minDelayMs.val ≤ ·) (retry.maxDelayMs.getD 400)
    "LockService: retry.maxDelayMs phải >= minDelayMs"
  return ⟨waitMs, minDelayMs, maxDelayMs, waitMs.property, minDelayMs.property,
    maxDelayMs.property⟩

/-- `validateLockArgs`; `numberText` is `String(ttlMs)`. -/
def validateLockArgs (numberText : JsNumber → String) (ttlMs : JsNumber) (opts : LockOptions) :
    Except JsError (Option RetryWindow) := do
  let ttl ← finiteWith (0 < ·) ttlMs
    ("LockService: ttlMs phải > 0 (nhận " ++ numberText ttlMs ++ ")")
  let retry ← opts.retry.mapM validateRetry
  -- the watchdog renews at a third of the TTL
  if opts.autoRenew.getD false ∧ ttl.val < 3000 then
    throw (.error "LockService: autoRenew yêu cầu ttlMs >= 3000ms để watchdog an toàn")
  return retry

theorem finiteWith_error {p : ℚ → Prop} [DecidablePred p] {x : JsNumber} {message : String}
    {e : JsError} (h : finiteWith p x message = .error e) : e = .error message := by
  unfold finiteWith at h
  cases x with
  | finite q =>
    by_cases hq : p q
    · simp [hq] at h
    · simpa [hq] using h.symm
  | nan => exact (Except.error.inj h).symm
  | infinity negative => exact (Except.error.inj h).symm

/-- The first of two checks fails, or the second. -/
theorem bind_error {β γ : Type} {x : Except JsError β} {f : β → Except JsError γ} {e : JsError}
    (h : x >>= f = .error e) : x = .error e ∨ ∃ a, x = .ok a ∧ f a = .error e := by
  cases x with
  | error e' =>
    cases h
    exact Or.inl rfl
  | ok a => exact Or.inr ⟨a, rfl, h⟩

/-- Both checks pass. -/
theorem bind_ok {β γ : Type} {x : Except JsError β} {f : β → Except JsError γ} {b : γ}
    (h : x >>= f = .ok b) : ∃ a, x = .ok a ∧ f a = .ok b := by
  cases x with
  | error e => cases h
  | ok a => exact ⟨a, rfl, h⟩

theorem finiteWith_finite {p : ℚ → Prop} [DecidablePred p] {q : ℚ} (hq : p q)
    (message : String) : finiteWith p (.finite q) message = .ok ⟨q, hq⟩ := dif_pos hq

theorem finiteWith_ok {p : ℚ → Prop} [DecidablePred p] {x : JsNumber} {message : String}
    {q : {q : ℚ // p q}} (h : finiteWith p x message = .ok q) : x = .finite q.val := by
  unfold finiteWith at h
  cases x with
  | finite q' =>
    by_cases hq : p q'
    · simp only [dif_pos hq] at h
      rw [← Except.ok.inj h]
    · simp only [dif_neg hq] at h
      cases h
  | nan => cases h
  | infinity negative => cases h

theorem validateRetry_error {retry : RetryOptions} {e : JsError}
    (h : validateRetry retry = .error e) : ∃ message, e = .error message := by
  unfold validateRetry at h
  rcases bind_error h with hwait | ⟨waitMs, -, h⟩
  · exact ⟨_, finiteWith_error hwait⟩
  rcases bind_error h with hmin | ⟨minDelayMs, -, h⟩
  · exact ⟨_, finiteWith_error hmin⟩
  rcases bind_error h with hmax | ⟨maxDelayMs, -, h⟩
  · exact ⟨_, finiteWith_error hmax⟩
  cases h

/-- Refused arguments throw a plain `Error`. -/
theorem validateLockArgs_error {numberText : JsNumber → String} {ttlMs : JsNumber}
    {opts : LockOptions} {e : JsError} (h : validateLockArgs numberText ttlMs opts = .error e) :
    ∃ message, e = .error message := by
  unfold validateLockArgs at h
  rcases bind_error h with httl | ⟨ttl, -, h⟩
  · exact ⟨_, finiteWith_error httl⟩
  rcases bind_error h with hretry | ⟨retry, -, h⟩
  · cases hopts : opts.retry with
    | none =>
      rw [hopts] at hretry
      cases hretry
    | some options =>
      rw [hopts] at hretry
      rcases bind_error hretry with hoptions | ⟨window, -, hwindow⟩
      · exact validateRetry_error hoptions
      · cases hwindow
  by_cases hrenew : opts.autoRenew.getD false = true ∧ ttl.val < 3000
  · rw [if_pos hrenew] at h
    exact ⟨_, (Except.error.inj h).symm⟩
  · rw [if_neg hrenew] at h
    cases h

/-- What accepted arguments are. -/
theorem validateLockArgs_ok {numberText : JsNumber → String} {ttlMs : JsNumber}
    {opts : LockOptions} {retry : Option RetryWindow}
    (h : validateLockArgs numberText ttlMs opts = .ok retry) :
    ∃ ttl : ℚ, ttlMs = .finite ttl ∧ 0 < ttl ∧ opts.retry.mapM validateRetry = .ok retry ∧
      (opts.autoRenew.getD false = true → 3000 ≤ ttl) := by
  unfold validateLockArgs at h
  obtain ⟨ttl, httl, h⟩ := bind_ok h
  obtain ⟨window, hretry, h⟩ := bind_ok h
  refine ⟨ttl.val, finiteWith_ok httl, ttl.property, ?_, fun hrenew => not_lt.mp fun hlt => ?_⟩
  · by_cases hrenew : opts.autoRenew.getD false = true ∧ ttl.val < 3000
    · rw [if_pos hrenew] at h
      cases h
    · rw [if_neg hrenew] at h
      cases h
      exact hretry
  · rw [if_pos ⟨hrenew, hlt⟩] at h
    cases h

/-- The lock service of one Redis connection. -/
structure RedisLockService where
  client : ℕ
deriving DecidableEq

namespace RedisLockService

section Methods

variable (numberText : JsNumber → String) (this : RedisLockService)
variable {U : Type} {RU : U → Type} {α : Type}

/-! ## Calls -/

def lockCall (c : LockCall) : Program U RU c.Reply := Async.call (Sum.inl c : LockCall ⊕ U)

def randomBytes : Program U RU Token := lockCall .randomBytes

def acquireLock (lockKey fenceKey : String) (token : Token) (ttlMs : JsNumber)
    (fencing : Bool) : Program U RU (Option ℤ) :=
  lockCall (.acquireLock this.client lockKey fenceKey token ttlMs fencing)

def extendLock (client : ℕ) (lockKey : String) (token : Token) (ttlMs : JsNumber) :
    Program U RU ℤ := lockCall (.extendLock client lockKey token ttlMs)

def releaseLock (client : ℕ) (lockKey : String) (token : Token) : Program U RU ℤ :=
  lockCall (.releaseLock client lockKey token)

def dateNow : Program U RU ℚ := lockCall .dateNow

def mathRandom : Program U RU ℚ := lockCall .mathRandom

def sleep (ms : ℚ) : Program U RU Unit := lockCall (.sleep ms)

def startWatchdog (lock : Lock) (ttlMs : JsNumber) : Program U RU Unit :=
  lockCall (.startWatchdog lock ttlMs)

def stopWatchdog (lock : Lock) : Program U RU Unit := lockCall (.stopWatchdog lock)

/-! ## acquire -/

/-- One attempt, with a token of its own. -/
def tryOnce (lockKey fenceKey : String) (ttlMs : JsNumber) (fencing : Bool) :
    Program U RU (Option (Token × Option ℤ)) := do
  let token ← randomBytes
  let res ← this.acquireLock lockKey fenceKey token ttlMs fencing
  match res with
  | none => return none
  | some n => return some (token, if fencing then some n else none)

/-- One round of the retry loop, with the current back-off `base`. -/
def retryRound (tryOnce : Program U RU (Option (Token × Option ℤ))) (retry : RetryWindow)
    (deadline base : ℚ) : Program U RU (ℚ ⊕ Option (Token × Option ℤ)) := do
  if (← dateNow) < deadline then
    let remaining := deadline - (← dateNow)
    -- full jitter below the cap, and never past the deadline
    let cap := min retry.maxDelayMs base
    let delay := min (⌊(← mathRandom) * cap⌋ : ℚ) remaining
    sleep delay
    match ← tryOnce with
    | some got => return .inr (some got)
    | none => return .inl (min (base * 2) retry.maxDelayMs)
  else return .inr none

def retryAcquire (tryOnce : Program U RU (Option (Token × Option ℤ))) (retry : RetryWindow)
    (fuel : ℕ) : Program U RU (Option (Token × Option ℤ)) := do
  let deadline := (← dateNow) + retry.waitMs
  Async.loop (retryRound tryOnce retry deadline) fuel retry.minDelayMs

def buildLock (key lockKey : String) (token : Token) (fencingToken : Option ℤ)
    (ttlMs : JsNumber) (opts : LockOptions) : Program U RU Lock := do
  if opts.autoRenew.getD false then
    let lock : Lock := ⟨this.client, key, lockKey, token, fencingToken, some ttlMs⟩
    startWatchdog lock ttlMs
    return lock
  else return ⟨this.client, key, lockKey, token, fencingToken, none⟩

/-- The first attempt, and the retries when it fails and they are asked for. -/
def attempts (lockKey fenceKey : String) (ttlMs : JsNumber) (fencing : Bool)
    (retry : Option RetryWindow) (fuel : ℕ) : Program U RU (Option (Token × Option ℤ)) := do
  let got ← this.tryOnce lockKey fenceKey ttlMs fencing
  match got, retry with
  | none, some window => retryAcquire (this.tryOnce lockKey fenceKey ttlMs fencing) window fuel
  | got, _ => return got

def acquire (key : String) (ttlMs : JsNumber) (opts : LockOptions) (fuel : ℕ) :
    Program U RU (Option Lock) := do
  let retry ← Async.settled (validateLockArgs numberText ttlMs opts)
  let fencing := opts.fencing.getD false
  let lockKey := "lock:" ++ key
  let fenceKey := "lock:fence:" ++ key
  match ← this.attempts lockKey fenceKey ttlMs fencing retry fuel with
  | none => return none
  | some (token, fencingToken) =>
    let lock ← this.buildLock key lockKey token fencingToken ttlMs opts
    return some lock

/-! ## The lock object -/

def extend (lock : Lock) (ms : JsNumber) : Program U RU Bool := do
  let n ← extendLock lock.client lock.lockKey lock.token ms
  return n = 1

def release (lock : Lock) : Program U RU Bool := do
  -- a renewal under way is awaited first
  if lock.renewMs.isSome then
    stopWatchdog lock
  let n ← releaseLock lock.client lock.lockKey lock.token
  return n = 1

/-- One renewal of the watchdog: `false` is a lost lock, after which it stops. -/
def renew (lock : Lock) (ttlMs : JsNumber) : Program U RU Bool :=
  -- an error is not a lost lock: the next renewal may succeed
  Async.tryCatch (extend lock ttlMs) fun _ => return true

/-! ## withLock -/

def withLock (key : String) (ttlMs : JsNumber) (fn : Lock → Program U RU α)
    (opts : LockOptions) (fuel : ℕ) : Program U RU (Option α) := do
  match ← this.acquire numberText key ttlMs opts fuel with
  | none =>
    if opts.onTimeout = some .return then return none
    else Async.throw (.appException "redis.LOCK_ACQUISITION_FAILED" 409)
  | some lock => Async.tryFinally (some <$> fn lock) (release lock)

end Methods

end RedisLockService

/-! ## Contracts

What each function may call, and what its result says about the calls it has made. -/

section Contracts

variable {U : Type} {RU : U → Type} {α : Type}

/-- A call of a function of the service, with its outcome. -/
abbrev LockEvent (U : Type) (RU : U → Type) : Type :=
  Async.Event JsError (LockCall ⊕ U) (Sum.elim LockCall.Reply RU)

/-- The calls include a draw of `token`. -/
def Drew (past : List (LockEvent U RU)) (token : Token) : Prop :=
  (⟨.inl .randomBytes, .ok token⟩ : LockEvent U RU) ∈ past

/-- The calls include an acquireLock with `token` that Redis granted. -/
def Granted (past : List (LockEvent U RU)) (token : Token) : Prop :=
  ∃ client lockKey fenceKey ttlMs fencing n, (⟨.inl (.acquireLock client lockKey fenceKey token
    ttlMs fencing), .ok (some n)⟩ : LockEvent U RU) ∈ past

/-- Some call rejected with `e`. -/
def Failed (past : List (LockEvent U RU)) (e : JsError) : Prop :=
  ∃ c, (⟨c, .error e⟩ : LockEvent U RU) ∈ past

theorem Drew.append {past : List (LockEvent U RU)} {token : Token} (h : Drew past token)
    (later : List (LockEvent U RU)) : Drew (past ++ later) token :=
  List.mem_append_left later h

theorem Granted.append {past : List (LockEvent U RU)} {token : Token} (h : Granted past token)
    (later : List (LockEvent U RU)) : Granted (past ++ later) token := by
  obtain ⟨client, lockKey, fenceKey, ttlMs, fencing, n, hmem⟩ := h
  exact ⟨client, lockKey, fenceKey, ttlMs, fencing, n, List.mem_append_left later hmem⟩

theorem drew_append (past : List (LockEvent U RU)) (token : Token) :
    Drew (past ++ [(⟨.inl .randomBytes, .ok token⟩ : LockEvent U RU)]) token :=
  List.mem_append_right past (List.mem_singleton.mpr rfl)

theorem failed_append (past : List (LockEvent U RU)) (c : LockCall ⊕ U) (e : JsError) :
    Failed (past ++ [⟨c, .error e⟩]) e :=
  ⟨c, List.mem_append_right past (List.mem_singleton.mpr rfl)⟩

/-- The calls an acquire of `key` may make. -/
def acquirePre (this : RedisLockService) (key : String) (past : List (LockEvent U RU)) :
    LockCall ⊕ U → Prop
  | .inl (.acquireLock client lockKey fenceKey token _ _) =>
    client = this.client ∧ lockKey = "lock:" ++ key ∧ fenceKey = "lock:fence:" ++ key ∧
      Drew past token
  | .inl (.extendLock ..) => False
  | .inl (.releaseLock ..) => False
  | .inl _ => True
  | .inr _ => False

/-- One or more attempts: a token they return was drawn and granted. -/
def attemptPost (past : List (LockEvent U RU)) :
    Except JsError (Option (Token × Option ℤ)) → Prop
  | .ok none => True
  | .ok (some got) => Drew past got.1 ∧ Granted past got.1
  | .error e => Failed past e

/-- The lock object of a successful acquire of `key`. -/
structure IsLock (this : RedisLockService) (key : String) (ttlMs : JsNumber)
    (opts : LockOptions) (lock : Lock) : Prop where
  client_eq : lock.client = this.client
  key_eq : lock.key = key
  lockKey_eq : lock.lockKey = "lock:" ++ key
  renewMs_eq : lock.renewMs = if opts.autoRenew.getD false then some ttlMs else none

/-- acquire returns the lock object of a grant; it rejects when its arguments are refused
or a call rejects. -/
def acquirePost (numberText : JsNumber → String) (this : RedisLockService) (key : String)
    (ttlMs : JsNumber) (opts : LockOptions) (past : List (LockEvent U RU)) :
    Except JsError (Option Lock) → Prop
  | .ok none => True
  | .ok (some lock) => IsLock this key ttlMs opts lock ∧ Drew past lock.token ∧
      Granted past lock.token ∧ ∃ retry, validateLockArgs numberText ttlMs opts = .ok retry
  | .error e => validateLockArgs numberText ttlMs opts = .error e ∨ Failed past e

namespace RedisLockService

variable {numberText : JsNumber → String} {this : RedisLockService} {key : String}
  {ttlMs : JsNumber} {opts : LockOptions} {fencing : Bool} {retry : RetryWindow}
  {past : List (LockEvent U RU)}

/-- One call of the service's own, and what comes after it. -/
theorem lockCall_bind_satisfies (c : LockCall) {f : c.Reply → Program U RU α}
    {pre : List (LockEvent U RU) → LockCall ⊕ U → Prop}
    {post : List (LockEvent U RU) → Except JsError α → Prop} (hpre : pre past (.inl c))
    (hok : ∀ a, (f a).Satisfies pre post (past ++ [⟨.inl c, .ok a⟩]))
    (herr : ∀ e, post (past ++ [⟨.inl c, .error e⟩]) (.error e)) :
    ((lockCall c : Program U RU c.Reply) >>= f).Satisfies pre post past :=
  Async.satisfies_call_bind (Sum.inl c) hpre hok herr

theorem tryOnce_satisfies :
    (this.tryOnce ("lock:" ++ key) ("lock:fence:" ++ key) ttlMs fencing).Satisfies
      (acquirePre this key) attemptPost past := by
  unfold tryOnce
  refine lockCall_bind_satisfies .randomBytes trivial (fun token => ?_)
    fun e => failed_append past _ e
  have hdrew := drew_append past token
  refine lockCall_bind_satisfies (.acquireLock this.client ("lock:" ++ key)
    ("lock:fence:" ++ key) token ttlMs fencing) ⟨rfl, rfl, rfl, hdrew⟩ (fun res => ?_)
    fun e => failed_append _ _ e
  cases res with
  | none => trivial
  | some n =>
    exact ⟨hdrew.append _, this.client, _, _, ttlMs, fencing, n,
      List.mem_append_right _ (List.mem_singleton.mpr rfl)⟩

theorem retryRound_satisfies {deadline base : ℚ} :
    (retryRound (this.tryOnce ("lock:" ++ key) ("lock:fence:" ++ key) ttlMs fencing) retry
      deadline base).Satisfies (acquirePre this key)
      (Async.roundPost (fun _ _ => True) attemptPost) past := by
  unfold retryRound
  refine lockCall_bind_satisfies .dateNow trivial (fun (now : ℚ) => ?_)
    fun e => failed_append past _ e
  by_cases hlt : now < deadline
  · rw [if_pos hlt]
    refine lockCall_bind_satisfies .dateNow trivial (fun now => ?_)
      fun e => failed_append _ _ e
    refine lockCall_bind_satisfies .mathRandom trivial (fun x => ?_)
      fun e => failed_append _ _ e
    refine lockCall_bind_satisfies (.sleep _) trivial (fun _ => ?_)
      fun e => failed_append _ _ e
    refine tryOnce_satisfies.bind (fun past' got hgot => ?_) fun past' e he => he
    cases got with
    | none => trivial
    | some got => exact hgot
  · rw [if_neg hlt]
    trivial

theorem retryAcquire_satisfies {fuel : ℕ} :
    (retryAcquire (this.tryOnce ("lock:" ++ key) ("lock:fence:" ++ key) ttlMs fencing) retry
      fuel).Satisfies (acquirePre this key) attemptPost past := by
  unfold retryAcquire
  refine lockCall_bind_satisfies .dateNow trivial (fun now => ?_)
    fun e => failed_append past _ e
  exact Async.Satisfies.loop (fun past s _ => retryRound_satisfies) fuel trivial

theorem attempts_satisfies {retry : Option RetryWindow} {fuel : ℕ} :
    (this.attempts ("lock:" ++ key) ("lock:fence:" ++ key) ttlMs fencing retry fuel).Satisfies
      (acquirePre this key) attemptPost past := by
  unfold attempts
  refine tryOnce_satisfies.bind (fun past' got hgot => ?_) fun past' e he => he
  cases got with
  | some got => exact hgot
  | none =>
    cases retry with
    | none => trivial
    | some window => exact retryAcquire_satisfies

theorem buildLock_satisfies {token : Token} {fencingToken : Option ℤ} :
    (this.buildLock key ("lock:" ++ key) token fencingToken ttlMs opts).Satisfies
      (acquirePre this key) (fun past' r => (∃ later, past' = past ++ later) ∧ match r with
        | .ok lock => IsLock this key ttlMs opts lock ∧ lock.token = token
        | .error e => Failed past' e) past := by
  unfold buildLock
  by_cases hrenew : opts.autoRenew.getD false = true
  · rw [if_pos hrenew]
    refine lockCall_bind_satisfies (.startWatchdog _ ttlMs) trivial (fun _ => ?_)
      fun e => ⟨⟨_, rfl⟩, failed_append past _ e⟩
    exact ⟨⟨_, rfl⟩, ⟨rfl, rfl, rfl, (if_pos hrenew).symm⟩, rfl⟩
  · rw [if_neg hrenew]
    exact ⟨⟨[], (List.append_nil past).symm⟩, ⟨rfl, rfl, rfl, (if_neg hrenew).symm⟩, rfl⟩

theorem acquire_satisfies {fuel : ℕ} :
    (this.acquire numberText key ttlMs opts fuel).Satisfies (acquirePre this key)
      (acquirePost numberText this key ttlMs opts) past := by
  unfold acquire
  cases hargs : validateLockArgs numberText ttlMs opts with
  | error e => exact Or.inl hargs
  | ok retry =>
    refine attempts_satisfies.bind (fun past' got hgot => ?_) fun past' e he => Or.inr he
    cases got with
    | none => trivial
    | some got =>
      obtain ⟨hdrew, hgranted⟩ := hgot
      refine buildLock_satisfies.bind (fun past'' lock hlock => ?_)
        fun past'' e he => Or.inr he.2
      obtain ⟨⟨later, rfl⟩, hlock, htoken⟩ := hlock
      exact ⟨hlock, htoken ▸ hdrew.append later, htoken ▸ hgranted.append later, retry, hargs⟩

end RedisLockService

end Contracts

end NestFastify.Redis
