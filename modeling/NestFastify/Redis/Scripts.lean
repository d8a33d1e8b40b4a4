import NestFastify.Foundation.JavaScript
import NestFastify.Foundation.KeyValue
import Mathlib.Algebra.Group.Int.Defs

/-!
# The Lua scripts of the lock service

acquire-lock.lua.ts, extend-lock.lua.ts and release-lock.lua.ts, each executed atomically
at an instant `now` of the Redis clock. A script that raises an error keeps what it has
written before. `GET`, `SET` and `DEL` of the cache service are those of the store itself.

The key prefix of the client is the same for every key and is left out.
-/

namespace NestFastify.Redis

/-- A lock token, `randomBytes(20).toString('hex')`, named by the draw it came from. -/
structure Token where
  draw : ℕ
deriving DecidableEq

/-- A string held by Redis: a lock token, an integer that `INCR` wrote, or a cached value
as JSON text. -/
inductive Value where
  | token (t : Token)
  | counter (n : ℤ)
  | json (v : Json)

/-- The integer `INCR` reads; a token is 40 characters long and never one. -/
def Value.integer : Value → Option ℤ
  | token _ => none
  | counter n => some n
  | json (.num q) => if q.den = 1 then some q.num else none
  | json _ => none

/-- `redis.call("get", key) == token`. -/
def Value.isToken (t : Token) : Value → Bool
  | token t' => t' = t
  | _ => false

abbrev Store : Type := KeyValue String Value

def notAnInteger : JsError := .error "ERR value is not an integer or out of range"

def invalidExpire : JsError := .error "ERR invalid expire time in 'set' command"

/-- The bound of Redis integers. -/
def maxInteger : ℤ := 2 ^ 63 - 1

/-- The integer argument that `tonumber(ARGV[i])` stands for. -/
def integerArg : JsNumber → Option ℤ
  | .finite q => if q.den = 1 ∧ q.num.natAbs ≤ maxInteger.natAbs then some q.num else none
  | _ => none

/-- An expiry argument of `SET PX` or `PEXPIRE`. -/
def expiryArg (ms : JsNumber) : Except JsError ℤ :=
  match integerArg ms with
  | none => .error notAnInteger
  | some n => .ok n

section Scripts

variable (now : ℕ) (st : Store)

/-- `INCR`. The bounds of a counter and of an instant are left out. -/
def incr (key : String) : Store × Except JsError (Option ℤ) :=
  match st.entry now key with
  | none => (st.set key (.counter 1) none, .ok (some 1))
  | some e =>
    match e.value.integer with
    | none => (st, .error notAnInteger)
    | some n => (st.set key (.counter (n + 1)) e.expireAt, .ok (some (n + 1)))

/-- `SET key token NX PX ms`; `none` when the key is taken. The arguments are checked
first. -/
def setNxPx (key : String) (token : Token) (ms : JsNumber) : Except JsError (Option Store) :=
  match expiryArg ms with
  | .error e => .error e
  | .ok n =>
    if 0 < n then .ok (st.setNx now key (.token token) n.toNat)
    else .error (invalidExpire)

/-- acquireLock: `null` when the lock is held, else the fencing token, or 1 without fencing. -/
def acquireLock (lockKey fenceKey : String) (token : Token) (ttlMs : JsNumber)
    (fencing : Bool) : Store × Except JsError (Option ℤ) :=
  match setNxPx now st lockKey token ttlMs with
  | .error e => (st, .error e)
  | .ok none => (st, .ok none)
  -- the counter moves only when the lock has been taken
  | .ok (some st') => if fencing then incr now st' fenceKey else (st', .ok (some 1))

/-- The live value of `key` is `token`. -/
def holds (key : String) (token : Token) : Bool :=
  (st.get now key).any (Value.isToken token)

/-- extendLock: `PEXPIRE`, which deletes the key when the time is not positive. -/
def extendLock (lockKey : String) (token : Token) (ttlMs : JsNumber) :
    Store × Except JsError ℤ :=
  if holds now st lockKey token then
    match expiryArg ttlMs with
    | .error e => (st, .error e)
    | .ok n => (if 0 < n then st.pexpire now lockKey n.toNat else st.del lockKey, .ok 1)
  else (st, .ok 0)

/-- releaseLock: delete the key when it holds the token. -/
def releaseLock (lockKey : String) (token : Token) : Store × Except JsError ℤ :=
  if holds now st lockKey token then (st.del lockKey, .ok 1) else (st, .ok 0)

end Scripts

/-! ## What one script can do -/

section Spec

variable {now : ℕ} {st : Store} {lockKey fenceKey key : String} {token : Token}
  {ttlMs : JsNumber} {fencing : Bool}

theorem holds_iff : holds now st key token = true ↔
    ∃ e, st.entry now key = some e ∧ e.value = .token token := by
  rw [holds, KeyValue.get]
  cases h : st.entry now key with
  | none => simp
  | some e =>
    cases hv : e.value <;> simp [Value.isToken, hv, eq_comm]

/-- An expiry argument that is accepted is a whole number of milliseconds. -/
theorem expiryArg_eq_ok {n : ℤ} (h : expiryArg ttlMs = .ok n) : ttlMs = .finite n := by
  unfold expiryArg integerArg at h
  cases ttlMs with
  | finite q =>
    dsimp only at h
    split_ifs at h with hq
    cases h
    rw [Rat.coe_int_num_of_den_eq_one hq.1]
  | nan => cases h
  | infinity b => cases h

theorem expiryArg_pos {n : ℤ} (h : expiryArg ttlMs = .ok n) (hn : 0 < n) : ttlMs = .finite n.toNat := by
  have hcast : ((n.toNat : ℤ) : ℚ) = n := by rw [Int.toNat_of_nonneg (Int.le_of_lt hn)]
  rw [expiryArg_eq_ok h, ← hcast]
  rfl

/-- `INCR` writes an integer under its own key, or nothing. -/
theorem incr_cases (now : ℕ) (st : Store) (key : String) : (incr now st key).1 = st ∨
    ∃ n until', (incr now st key).1 = st.set key (.counter n) until' := by
  unfold incr
  split
  · exact Or.inr ⟨1, none, rfl⟩
  · split
    · exact Or.inl rfl
    · exact Or.inr ⟨_, _, rfl⟩

theorem incr_ne (hne : key ≠ fenceKey) : (incr now st fenceKey).1 key = st key := by
  rcases incr_cases now st fenceKey with h | h
  · rw [h]
  · obtain ⟨n, t, ht⟩ := h
    rw [ht, KeyValue.set_ne hne]

/-- acquireLock never writes a key other than its two. -/
theorem acquireLock_ne (hlock : key ≠ lockKey) (hfence : key ≠ fenceKey) :
    (acquireLock now st lockKey fenceKey token ttlMs fencing).1 key = st key := by
  unfold acquireLock setNxPx
  cases expiryArg ttlMs with
  | error e => rfl
  | ok n =>
    by_cases hn : 0 < n
    · simp only [if_pos hn]
      cases hset : st.setNx now lockKey (.token token) n.toNat with
      | none => rfl
      | some st' =>
        obtain ⟨-, rfl⟩ := KeyValue.setNx_eq_some.mp hset
        cases fencing with
        | true =>
          dsimp only
          rw [if_pos rfl, incr_ne hfence, KeyValue.set_ne hlock]
        | false => exact KeyValue.set_ne hlock
    · simp only [if_neg hn]

/-- The fence entry is left as it is, or becomes an integer. -/
theorem acquireLock_fence (hne : lockKey ≠ fenceKey) :
    (acquireLock now st lockKey fenceKey token ttlMs fencing).1 fenceKey = st fenceKey ∨
      ∃ n until', (acquireLock now st lockKey fenceKey token ttlMs fencing).1 fenceKey =
        some ⟨.counter n, until'⟩ := by
  unfold acquireLock setNxPx
  cases expiryArg ttlMs with
  | error e => exact Or.inl rfl
  | ok n =>
    by_cases hn : 0 < n
    · simp only [if_pos hn]
      cases hset : st.setNx now lockKey (.token token) n.toNat with
      | none => exact Or.inl rfl
      | some st' =>
        obtain ⟨-, rfl⟩ := KeyValue.setNx_eq_some.mp hset
        have hframe : (st.set lockKey (.token token) (some (now + n.toNat))) fenceKey =
            st fenceKey := KeyValue.set_ne hne.symm
        cases fencing with
        | false => exact Or.inl hframe
        | true =>
          simp only [if_true]
          rcases incr_cases now (st.set lockKey (.token token) (some (now + n.toNat))) fenceKey
            with hsame | hincr
          · exact Or.inl (by rw [hsame, hframe])
          · obtain ⟨m, until', hset'⟩ := hincr
            exact Or.inr ⟨m, until', by rw [hset', KeyValue.set_self]⟩
    · exact Or.inl (by simp only [if_neg hn])

/-- On a key that is held, acquireLock changes nothing and does not grant the lock. -/
theorem acquireLock_of_held {e : KeyValue.Entry Value} (h : st.entry now lockKey = some e) :
    (acquireLock now st lockKey fenceKey token ttlMs fencing).1 = st ∧
      ∀ n, (acquireLock now st lockKey fenceKey token ttlMs fencing).2 ≠ .ok (some n) := by
  unfold acquireLock setNxPx
  cases expiryArg ttlMs with
  | error e => simp
  | ok n =>
    have hset : st.setNx now lockKey (.token token) n.toNat = none :=
      KeyValue.setNx_eq_none.mpr ⟨e, h⟩
    by_cases hn : 0 < n
    · simp [if_pos hn, hset]
    · simp [if_neg hn]

/-- INCR refuses a token. -/
theorem incr_of_token {t : Token} {until' : Option ℕ}
    (h : st.entry now key = some ⟨.token t, until'⟩) : (incr now st key).1 = st := by
  simp [incr, h, Value.integer]

/-- acquireLock leaves a key alone that shows a token, whichever of its keys it is. -/
theorem acquireLock_of_token {t : Token} {until' : Option ℕ}
    (h : st.entry now key = some ⟨.token t, until'⟩) :
    (acquireLock now st lockKey fenceKey token ttlMs fencing).1 key = st key := by
  by_cases hlock : key = lockKey
  · rw [(acquireLock_of_held (hlock ▸ h)).1]
  by_cases hfence : key = fenceKey
  · unfold acquireLock setNxPx
    match expiryArg ttlMs with
    | .error e => rfl
    | .ok n =>
      by_cases hn : 0 < n
      · simp only [if_pos hn]
        match hset : st.setNx now lockKey (.token token) n.toNat with
        | none => rfl
        | some st' =>
          obtain ⟨-, rfl⟩ := KeyValue.setNx_eq_some.mp hset
          have hframe : (st.set lockKey (.token token) (some (now + n.toNat))) key = st key :=
            KeyValue.set_ne hlock
          have hentry := h
          rw [← KeyValue.entry_congr hframe, hfence] at hentry
          match fencing with
          | false => exact hframe
          | true =>
            simp only [if_true]
            rw [incr_of_token hentry, hframe]
      · simp only [if_neg hn]
  · exact acquireLock_ne hlock hfence

/-- With a whole number of milliseconds that Redis accepts the reply is then `null`. -/
theorem acquireLock_of_held_eq {e : KeyValue.Entry Value} {n : ℤ}
    (h : st.entry now lockKey = some e) (harg : expiryArg ttlMs = .ok n)
    (hn : 0 < n) : acquireLock now st lockKey fenceKey token ttlMs fencing = (st, .ok none) := by
  have hset : st.setNx now lockKey (.token token) n.toNat = none :=
    KeyValue.setNx_eq_none.mpr ⟨e, h⟩
  simp [acquireLock, setNxPx, harg, if_pos hn, hset]

/-- INCR succeeds unless the key holds something that is not an integer. -/
theorem incr_ok (h : ∀ e, st.entry now key = some e → e.value.integer ≠ none) :
    ∃ n, (incr now st key).2 = .ok (some n) := by
  unfold incr
  cases he : st.entry now key with
  | none => exact ⟨1, rfl⟩
  | some e =>
    obtain ⟨n, hn⟩ := Option.ne_none_iff_exists'.mp (h e he)
    exact ⟨n + 1, by simp [hn]⟩

/-- acquireLock on a free key refuses its arguments and changes nothing, or takes the lock.
Only a fence entry that is not an integer can then keep it from replying with a number. -/
theorem acquireLock_of_free (h : st.entry now lockKey = none) (hne : lockKey ≠ fenceKey) :
    (∃ e, acquireLock now st lockKey fenceKey token ttlMs fencing = (st, .error e)) ∨
    ∃ ms : ℕ, 0 < ms ∧ ttlMs = .finite ms ∧
      (acquireLock now st lockKey fenceKey token ttlMs fencing).1 lockKey =
        some ⟨.token token, some (now + ms)⟩ ∧
      ((∀ e, st.entry now fenceKey = some e → e.value.integer ≠ none) →
        ∃ n, (acquireLock now st lockKey fenceKey token ttlMs fencing).2 = .ok (some n)) := by
  unfold acquireLock setNxPx
  cases harg : expiryArg ttlMs with
  | error e => exact Or.inl ⟨e, rfl⟩
  | ok n =>
    by_cases hn : 0 < n
    · refine Or.inr ⟨n.toNat, by omega, expiryArg_pos harg hn, ?_⟩
      · have hset : st.setNx now lockKey (.token token) n.toNat =
            some (st.set lockKey (.token token) (some (now + n.toNat))) :=
          KeyValue.setNx_eq_some.mpr ⟨h, rfl⟩
        simp only [if_pos hn, hset]
        cases fencing with
        | false => exact ⟨KeyValue.set_self, fun _ => ⟨1, rfl⟩⟩
        | true =>
          rw [if_pos rfl, incr_ne hne, KeyValue.set_self]
          refine ⟨rfl, fun hfence => incr_ok fun e he => hfence e ?_⟩
          rwa [KeyValue.entry_congr (KeyValue.set_ne hne.symm)] at he
    · exact Or.inl ⟨invalidExpire, by simp [if_neg hn]⟩

/-- A token that is not the live value extends nothing. -/
theorem extendLock_of_not_holds (ttlMs : JsNumber) (h : holds now st key token = false) :
    extendLock now st key token ttlMs = (st, .ok 0) := by
  simp [extendLock, h]

/-- extendLock with the live token refuses the time and changes nothing, deletes the key
(the time is not positive), or moves its expiry. -/
theorem extendLock_of_holds (ttlMs : JsNumber) (h : holds now st key token = true) :
    (∃ e, extendLock now st key token ttlMs = (st, .error e)) ∨
    (∃ n : ℤ, n ≤ 0 ∧ ttlMs = .finite n ∧
      extendLock now st key token ttlMs = (st.del key, .ok 1)) ∨
    ∃ ms : ℕ, 0 < ms ∧ ttlMs = .finite ms ∧ extendLock now st key token ttlMs =
      (st.set key (.token token) (some (now + ms)), .ok 1) := by
  unfold extendLock
  rw [if_pos h]
  cases harg : expiryArg ttlMs with
  | error e => exact Or.inl ⟨e, rfl⟩
  | ok n =>
    by_cases hn : 0 < n
    · refine Or.inr (Or.inr ⟨n.toNat, by omega, expiryArg_pos harg hn, ?_⟩)
      obtain ⟨e, he, hval⟩ := holds_iff.mp h
      simp only [if_pos hn, KeyValue.pexpire_of_entry he, hval]
    · exact Or.inr (Or.inl ⟨n, by omega, expiryArg_eq_ok harg, by simp [if_neg hn]⟩)

theorem extendLock_ne (hne : key ≠ lockKey) :
    (extendLock now st lockKey token ttlMs).1 key = st key := by
  by_cases h : holds now st lockKey token = true
  · rcases extendLock_of_holds ttlMs h with hrefused | hdel | hset
    · obtain ⟨e, he⟩ := hrefused
      rw [he]
    · obtain ⟨n, -, -, he⟩ := hdel
      rw [he]
      exact KeyValue.del_ne hne
    · obtain ⟨ms, -, -, he⟩ := hset
      rw [he]
      exact KeyValue.set_ne hne
  · rw [extendLock_of_not_holds ttlMs (by simpa using h)]

/-- A token that is not the live value releases nothing. -/
theorem releaseLock_of_not_holds (h : holds now st key token = false) :
    releaseLock now st key token = (st, .ok 0) := by
  simp [releaseLock, h]

theorem releaseLock_of_holds (h : holds now st key token = true) :
    releaseLock now st key token = (st.del key, .ok 1) := by
  simp [releaseLock, h]

theorem releaseLock_ne (hne : key ≠ lockKey) :
    (releaseLock now st lockKey token).1 key = st key := by
  by_cases h : holds now st lockKey token = true
  · rw [releaseLock_of_holds h]
    exact KeyValue.del_ne hne
  · rw [releaseLock_of_not_holds (by simpa using h)]

end Spec

end NestFastify.Redis
