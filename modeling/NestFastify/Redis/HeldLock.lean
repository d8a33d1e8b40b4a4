import NestFastify.Redis.LockSystem

/-!
# The lock that a call of withLock holds

`withLock` (lock.service.ts) as a contract on the calls it makes: from the grant of an attempt to
the call of `release` it holds a lock, its body runs in between only, and it settles with nothing
in its hands unless a call of the service has rejected.
-/

namespace NestFastify.Redis

section Contract

variable {U : Type} {RU : U → Type} {α : Type}

/-! ## The lock that a call holds -/

/-- The token a call holds after one more event. -/
def heldAfter (held : Option Token) : LockEvent U RU → Option Token
  | ⟨.inl (.acquireLock _ _ _ token _ _), .ok (some _)⟩ => some token
  | ⟨.inl (.releaseLock ..), _⟩ => none
  | _ => held

/-- The token of the lock that has been granted to the call, until it asks to release it. -/
def held (past : List (LockEvent U RU)) : Option Token := past.foldl heldAfter none

/-- The lock that is held is updated event by event. -/
theorem held_concat (past : List (LockEvent U RU)) (event : LockEvent U RU) :
    held (past ++ [event]) = heldAfter (held past) event := by
  rw [held, List.foldl_append]
  rfl

/-- A call of the service that rejects. -/
def lockFailure : LockEvent U RU → Bool
  | ⟨.inl _, .error _⟩ => true
  | _ => false

/-- A call of the service has rejected. -/
def LockFailed (past : List (LockEvent U RU)) : Prop := ∃ event ∈ past, lockFailure event = true

instance (past : List (LockEvent U RU)) : Decidable (LockFailed past) :=
  inferInstanceAs (Decidable (∃ event ∈ past, _))

/-- A rejected lock call stays in the record. -/
theorem LockFailed.append {past : List (LockEvent U RU)} (h : LockFailed past)
    (later : List (LockEvent U RU)) : LockFailed (past ++ later) := by
  obtain ⟨event, hmem, hfailure⟩ := h
  exact ⟨event, List.mem_append_left later hmem, hfailure⟩

/-- A lock call that has just rejected is in the record. -/
theorem lockFailed_concat (past : List (LockEvent U RU)) (c : LockCall) (e : JsError) :
    LockFailed (past ++ [⟨.inl c, .error e⟩]) :=
  ⟨⟨.inl c, .error e⟩, List.mem_append_right past (List.mem_singleton.mpr rfl), rfl⟩

/-! ## What withLock calls, and when -/

/-- The calls of `withLock`: it acquires only while it holds nothing, releases only what it holds,
and its body runs only while it holds the lock. -/
def sectionPre (key : String) (past : List (LockEvent U RU)) : LockCall ⊕ U → Prop
  | .inl (.acquireLock _ lockKey fenceKey token _ _) => lockKey = "lock:" ++ key ∧
      fenceKey = "lock:fence:" ++ key ∧ Drew past token ∧ held past = none
  | .inl (.extendLock ..) => False
  | .inl (.releaseLock _ lockKey token) => lockKey = "lock:" ++ key ∧ held past = some token
  | .inl _ => True
  | .inr _ => (held past).isSome = true

/-- What it holds when it has settled. -/
def sectionPost (past : List (LockEvent U RU)) (_ : Except JsError α) : Prop :=
  held past = none ∨ LockFailed past

/-- An attempt that fails holds nothing. -/
def heldPost (past : List (LockEvent U RU)) :
    Except JsError (Option (Token × Option ℤ)) → Prop
  | .ok none => held past = none
  | .ok (some got) => held past = some got.1
  | .error _ => held past = none

/-- The same of `acquire`, whose lock is that of the key. -/
def acquiredPost (key : String) (past : List (LockEvent U RU)) :
    Except JsError (Option Lock) → Prop
  | .ok none => held past = none
  | .ok (some lock) => held past = some lock.token ∧ lock.lockKey = "lock:" ++ key
  | .error _ => held past = none ∨ LockFailed past

namespace RedisLockService

variable {numberText : JsNumber → String} {this : RedisLockService} {key : String}
  {ttlMs : JsNumber} {opts : LockOptions} {fencing : Bool} {past : List (LockEvent U RU)}

/-- A call that neither acquires nor releases, and what comes after it. -/
theorem quiet_bind_held {β : Type} {token : Option Token} {c : LockCall}
    {f : c.Reply → Program U RU β} {post : List (LockEvent U RU) → Except JsError β → Prop}
    (h : held past = token) (hpre : sectionPre key past (.inl c))
    (hquiet : ∀ r, heldAfter token (⟨.inl c, r⟩ : LockEvent U RU) = token)
    (hok : ∀ past' a, held past' = token → (f a).Satisfies (sectionPre key) post past')
    (herror : ∀ past' e, held past' = token → LockFailed past' → post past' (.error e)) :
    ((lockCall c : Program U RU c.Reply) >>= f).Satisfies (sectionPre key) post past := by
  have hheld : ∀ r, held (past ++ [(⟨.inl c, r⟩ : LockEvent U RU)]) = token := fun r => by
    rw [held_concat, h]
    exact hquiet r
  exact lockCall_bind_satisfies c hpre (fun a => hok _ a (hheld (.ok a)))
    fun e => herror _ e (hheld (.error e)) (lockFailed_concat past c e)

/-- One attempt ends with the lock that it was granted, or with none. -/
theorem tryOnce_held (h : held past = none) :
    (this.tryOnce ("lock:" ++ key) ("lock:fence:" ++ key) ttlMs fencing).Satisfies
      (sectionPre key) heldPost past := by
  unfold tryOnce
  refine lockCall_bind_satisfies .randomBytes trivial (fun token => ?_)
    fun e => (held_concat _ _).trans h
  have hdrawn : held (past ++ [(⟨.inl .randomBytes, .ok token⟩ : LockEvent U RU)]) = none :=
    (held_concat _ _).trans h
  refine lockCall_bind_satisfies (.acquireLock this.client ("lock:" ++ key)
    ("lock:fence:" ++ key) token ttlMs fencing) ⟨rfl, rfl, drew_append past token, hdrawn⟩
    (fun res => ?_) fun e => (held_concat _ _).trans hdrawn
  cases res with
  | none => exact (held_concat _ _).trans hdrawn
  | some n => exact held_concat _ _

/-- A round that does not take the lock leaves none held, so the next one starts as this one did. -/
theorem retryRound_held {retry : RetryWindow} {deadline base : ℚ} (h : held past = none) :
    (retryRound (this.tryOnce ("lock:" ++ key) ("lock:fence:" ++ key) ttlMs fencing) retry
      deadline base).Satisfies (sectionPre key)
      (Async.roundPost (fun past' _ => held past' = none) heldPost) past := by
  unfold retryRound
  refine quiet_bind_held h trivial (fun _ => rfl) (fun past (now : ℚ) h => ?_)
    fun _ _ h _ => h
  by_cases hlt : now < deadline
  · rw [if_pos hlt]
    refine quiet_bind_held h trivial (fun _ => rfl) (fun past now h => ?_) fun _ _ h _ => h
    refine quiet_bind_held h trivial (fun _ => rfl) (fun past x h => ?_) fun _ _ h _ => h
    refine quiet_bind_held h trivial (fun _ => rfl) (fun past _ h => ?_) fun _ _ h _ => h
    refine (tryOnce_held h).bind (fun past' got hgot => ?_) fun past' e he => he
    cases got with
    | none => exact hgot
    | some got => exact hgot
  · rw [if_neg hlt]
    exact h

/-- The rounds of `acquire` end with the lock of the last one, or with none. -/
theorem attempts_held {retry : Option RetryWindow} {fuel : ℕ} (h : held past = none) :
    (this.attempts ("lock:" ++ key) ("lock:fence:" ++ key) ttlMs fencing retry fuel).Satisfies
      (sectionPre key) heldPost past := by
  unfold attempts
  refine (tryOnce_held h).bind (fun past' got hgot => ?_) fun past' e he => he
  cases got with
  | some got => exact hgot
  | none =>
    cases retry with
    | none => exact hgot
    | some window =>
      refine quiet_bind_held hgot trivial (fun _ => rfl) (fun past now h => ?_) fun _ _ h _ => h
      exact Async.Satisfies.loop (fun past s h => retryRound_held h) fuel h

/-- The lock object that is built is the one that is held. -/
theorem buildLock_held {token : Token} {fencingToken : Option ℤ} (h : held past = some token) :
    (this.buildLock key ("lock:" ++ key) token fencingToken ttlMs opts).Satisfies
      (sectionPre key) (fun past' r => match r with
        | .ok lock => held past' = some lock.token ∧ lock.lockKey = "lock:" ++ key
        | .error _ => LockFailed past') past := by
  unfold buildLock
  by_cases hrenew : opts.autoRenew.getD false = true
  · rw [if_pos hrenew]
    exact quiet_bind_held h trivial (fun _ => rfl) (fun past _ h => ⟨h, rfl⟩)
      fun _ _ _ hfailed => hfailed
  · rw [if_neg hrenew]
    exact ⟨h, rfl⟩

/-- `acquire` returns the lock that it holds; where it returns `null` it holds none. -/
theorem acquire_held {fuel : ℕ} (h : held past = none) :
    (this.acquire numberText key ttlMs opts fuel).Satisfies (sectionPre key)
      (acquiredPost key) past := by
  unfold acquire
  cases hargs : validateLockArgs numberText ttlMs opts with
  | error e => exact Or.inl h
  | ok retry =>
    refine (attempts_held h).bind (fun past' got hgot => ?_) fun past' e he => Or.inl he
    cases got with
    | none => exact hgot
    | some got =>
      exact (buildLock_held hgot).bind (fun past'' lock hlock => hlock)
        fun past'' e he => Or.inr he

/-- `release` gives up the lock that is held, whatever the service answers. -/
theorem release_held {lock : Lock} (h : held past = some lock.token)
    (hkey : lock.lockKey = "lock:" ++ key) :
    (release lock : Program U RU Bool).Satisfies (sectionPre key) sectionPost past := by
  have hrelease : ∀ past : List (LockEvent U RU), held past = some lock.token →
      (releaseLock lock.client lock.lockKey lock.token >>= fun n => pure (decide (n = 1)) :
        Program U RU Bool).Satisfies (sectionPre key) sectionPost past := fun past h =>
    lockCall_bind_satisfies (.releaseLock lock.client lock.lockKey lock.token) ⟨hkey, h⟩
      (fun n => Or.inl (held_concat _ _)) fun e => Or.inl (held_concat _ _)
  unfold release
  by_cases hrenew : lock.renewMs.isSome = true
  · rw [if_pos hrenew]
    exact quiet_bind_held (c := .stopWatchdog lock) h trivial (fun _ => rfl)
      (fun past _ h => hrelease past h) fun _ _ _ hfailed => Or.inr hfailed
  · rw [if_neg hrenew]
    exact hrelease past h

/-- The body runs under a lock that is held, and none is held once `withLock` has settled. -/
theorem withLock_held_satisfies {fn : Lock → Async JsError U RU α} {fuel : ℕ} :
    (this.withLock numberText key ttlMs (fun lock => (fn lock).embed) opts fuel).Satisfies
      (sectionPre key) sectionPost [] := by
  unfold withLock
  refine (acquire_held rfl).bind (fun past lock? hlock => ?_) fun past e he => he
  cases lock? with
  | none =>
    by_cases hreturn : opts.onTimeout = some .return
    · simp only [if_pos hreturn]
      exact Or.inl hlock
    · simp only [if_neg hreturn]
      exact Or.inl hlock
  | some lock =>
    obtain ⟨hheld, hkey⟩ := hlock
    -- the body keeps the lock
    have hbody : ((fn lock).embed : Program U RU α).Satisfies (sectionPre key)
        (fun past' _ => held past' = some lock.token) past :=
      Async.satisfies_embed (fun past c h => Option.isSome_iff_exists.mpr ⟨_, h⟩)
        (fun past c r h => (held_concat past ⟨.inr c, r⟩).trans h) (fn lock) hheld
    have hresult : (some <$> ((fn lock).embed : Program U RU α)).Satisfies (sectionPre key)
        (fun past' _ => held past' = some lock.token) past :=
      hbody.bind (fun past' a h => h) fun past' e h => h
    refine hresult.tryFinally fun past' r h => ?_
    exact (release_held h hkey).bind (fun past'' _ h => Async.satisfies_settled h)
      fun past'' e h => h

end RedisLockService

end Contract

end NestFastify.Redis
