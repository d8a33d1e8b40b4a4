import NestFastify.Redis.Server

/-!
# Extending a lock

What `lock.extend(ms)` leaves behind for a caller who goes by its result (lock.service.ts). Unlike
`acquire`, `extend` does not look at the number of milliseconds; PEXPIRE does.
-/

namespace NestFastify.Redis

namespace Server

/-- `lock.extend(ms)`. -/
def extend (now : ℕ) (s : Server) (lock : Lock) (ms : JsNumber) :
    Option (Server × Except JsError Bool) :=
  (RedisLockService.extend lock ms).exec (execute now) s

/-- The key holds the token of the lock for another `ms`, and whoever tries to acquire it next
is turned away. -/
structure StillHeld (numberText : JsNumber → String) (now : ℕ) (s : Server) (lock : Lock)
    (ms : JsNumber) : Prop where
  entry : ∃ n : ℕ, 0 < n ∧ ms = .finite n ∧
    s.store.entry now lock.lockKey = some ⟨.token lock.token, some (now + n)⟩
  refused : ∀ fenceKey token ttl fencing n, expiryArg ttl = .ok n → 0 < n →
    acquireLock now s.store lock.lockKey fenceKey token ttl fencing = (s.store, .ok none)
  acquire : ∀ key (ttl : ℕ), lock.lockKey = "lock:" ++ key → 0 < ttl →
    ttl ≤ maxInteger.natAbs →
      s.acquire numberText now key ttl = some (⟨s.store, s.draws + 1⟩, .ok none)

/-- `extend` settles; when it resolves to `true` the lock is still held, and otherwise nothing
has changed. -/
def ExtendSound (numberText : JsNumber → String) (now : ℕ) (s : Server) (lock : Lock)
    (ms : JsNumber) : Prop :=
  ∃ s' r, s.extend now lock ms = some (s', r) ∧
    (r = .ok true → s'.StillHeld numberText now lock ms) ∧
    (r ≠ .ok true → s'.store = s.store)

section Spec

variable {numberText : JsNumber → String} {now : ℕ} {s : Server} {lock : Lock} {ms : JsNumber}

/-- An extend runs its script once. -/
theorem extend_eq : s.extend now lock ms =
    some (⟨(extendLock now s.store lock.lockKey lock.token ms).1, s.draws⟩,
      (extendLock now s.store lock.lockKey lock.token ms).2.map fun n => decide (n = 1)) := by
  have hcall := Async.exec_call (execute now) s
    (Sum.inl (LockCall.extendLock lock.client lock.lockKey lock.token ms))
  simp only [execute] at hcall
  unfold extend RedisLockService.extend
  rcases hreply : extendLock now s.store lock.lockKey lock.token ms with ⟨st, e | n⟩
  · rw [hreply] at hcall
    exact Async.exec_bind_error hcall
  · rw [hreply] at hcall
    exact Async.exec_bind_ok hcall

/-- A key that holds a token turns every other acquire away. -/
theorem stillHeld_of_entry {n : ℕ} (hn : 0 < n) (hms : ms = .finite n)
    (hentry : s.store.entry now lock.lockKey = some ⟨.token lock.token, some (now + n)⟩) :
    s.StillHeld numberText now lock ms where
  entry := ⟨n, hn, hms, hentry⟩
  refused := fun fenceKey token ttl fencing n harg hn => acquireLock_of_held_eq hentry harg hn
  acquire := by
    intro key ttl hkey hpos hbound
    rw [hkey] at hentry
    exact acquire_of_held hpos hbound hentry

theorem entry_del (now : ℕ) (st : Store) (key : String) : (st.del key).entry now key = none := by
  rw [KeyValue.entry, KeyValue.del_self, Option.filter_none]

/-- `extend` is sound unless it is called by the holder with a time that is not positive. -/
theorem extendSound_iff : ExtendSound numberText now s lock ms ↔
    ¬ (holds now s.store lock.lockKey lock.token = true ∧ ∃ n, expiryArg ms = .ok n ∧ n ≤ 0) := by
  unfold ExtendSound
  rw [extend_eq]
  constructor
  -- the script deletes the key and answers 1
  · rintro ⟨s', r, hs', htrue, -⟩ ⟨hholds, n, harg, hn⟩
    have hdel : extendLock now s.store lock.lockKey lock.token ms =
        (KeyValue.del s.store lock.lockKey, .ok 1) := by
      rw [extendLock, if_pos hholds, harg]
      simp [Int.not_lt_of_ge hn]
    rw [hdel] at hs'
    obtain ⟨rfl, rfl⟩ := Prod.mk.inj (Option.some.inj hs')
    obtain ⟨m, -, -, hentry⟩ := (htrue rfl).entry
    rw [entry_del] at hentry
    cases hentry
  · intro h
    refine ⟨_, _, rfl, ?_⟩
    by_cases hholds : holds now s.store lock.lockKey lock.token = true
    · rcases extendLock_of_holds ms hholds with ⟨e, he⟩ | ⟨n, hn, hms, he⟩ | ⟨n, hn, hms, he⟩
      · rw [he]
        exact ⟨fun htrue => (by cases htrue), fun _ => rfl⟩
      · -- the script has accepted the time, and deleted the key
        refine absurd ⟨hholds, n, ?_, hn⟩ h
        cases harg : expiryArg ms with
        | ok m =>
          have hm := expiryArg_eq_ok harg
          rw [hms, JsNumber.finite.injEq, Rat.intCast_inj] at hm
          rw [hm]
        | error e =>
          rw [extendLock, if_pos hholds, harg] at he
          have hreply := congrArg Prod.snd he
          cases hreply
      · rw [he]
        refine ⟨fun _ => stillHeld_of_entry hn hms ?_, fun hne => absurd rfl hne⟩
        exact KeyValue.entry_set_px n
    · rw [extendLock_of_not_holds ms (by simpa using hholds)]
      exact ⟨fun htrue => (by cases htrue), fun _ => rfl⟩

/-! ## Zero milliseconds -/

/-- The lock that the first acquire returns. -/
def firstLock : Lock := plainLock "job" 0

/-- The store after `acquire("job", 30000)` on an empty one. -/
def locked : Server :=
  ⟨KeyValue.set (fun _ => none) "lock:job" (.token ⟨0⟩) (some (0 + 30000)), 1⟩

theorem acquire_first : (⟨fun _ => none, 0⟩ : Server).acquire numberText 0 "job" (30000 : ℕ) =
    some (locked, .ok (some firstLock)) :=
  acquire_of_free (by decide) (by decide) rfl

/-- The script of `extend(0)` by the holder. -/
theorem extendLock_locked : extendLock 0 locked.store firstLock.lockKey firstLock.token 0 =
    (KeyValue.del locked.store "lock:job", .ok 1) := by
  have hholds : holds 0 locked.store firstLock.lockKey firstLock.token = true :=
    holds_iff.mpr ⟨_, KeyValue.entry_set_px 30000, rfl⟩
  rw [extendLock, if_pos hholds]
  rfl

/-- The holder extends by 0 ms and is told `true`; the key is gone. -/
theorem not_extendSound : ∃ s lock, (⟨fun _ => none, 0⟩ : Server).acquire (fun _ => "") 0 "job"
      (30000 : ℕ) = some (s, .ok (some lock)) ∧
    ¬ ExtendSound (fun _ => "") 0 s lock 0 := by
  refine ⟨locked, firstLock, acquire_first, ?_⟩
  rintro ⟨s', r, hs', htrue, -⟩
  rw [extend_eq, extendLock_locked] at hs'
  obtain ⟨rfl, rfl⟩ := Prod.mk.inj (Option.some.inj hs')
  obtain ⟨n, -, -, hentry⟩ := (htrue rfl).entry
  rw [show firstLock.lockKey = "lock:job" from rfl, entry_del] at hentry
  cases hentry

/-- Another client then takes the lock although its holder has just been told `true`. -/
theorem acquire_after_extend : (locked.extend 0 firstLock 0).bind
      (fun p => p.1.acquire numberText 0 "job" (30000 : ℕ)) =
    some (⟨KeyValue.set (KeyValue.del locked.store "lock:job") "lock:job" (.token ⟨1⟩)
      (some (0 + 30000)), 2⟩, .ok (some (plainLock "job" 1))) := by
  rw [extend_eq, extendLock_locked]
  exact acquire_of_free (by decide) (by decide) (entry_del 0 locked.store "lock:job")

end Spec

end Server

end NestFastify.Redis
