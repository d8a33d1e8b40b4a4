import NestFastify.Foundation.Async
import NestFastify.Foundation.Binary64
import NestFastify.Foundation.JavaScript
import NestFastify.Foundation.KeyValue
import NestFastify.Foundation.SortedSet
import NestFastify.Foundation.Transition
import Mathlib.Data.Rat.Floor

/-!
# The rate limiter

rate-limit.lua.ts, `RedisRateLimitService.hit` (rate-limit.service.ts), and any number of calls
of `hit` over one Redis. A call reads `Date.now()` first, and its script executes later; the
instant of the execution is the Redis clock. The window in milliseconds is a product of doubles, so
it is whole for 1.1 seconds and not for 1.001.

The bounds of Redis integers and of instants are left out: below them sums of instants and whole
windows are exact.
-/

namespace NestFastify.Redis

/-! ## The script -/

abbrev RateStore : Type := KeyValue String (SortedSet String)

/-- The arguments of one execution: `KEYS[1]`, `ARGV[1]` to `ARGV[4]`. -/
structure RateScript where
  key : String
  now : ℤ
  window : ℚ
  limit : ℚ
  member : String
deriving DecidableEq

/-- The three numbers of the reply. -/
structure RateReply where
  allowed : ℤ
  remaining : ℤ
  oldest : ℤ
deriving DecidableEq

section Script

variable (clock : ℕ) (st : RateStore)

/-- The set under a key; a key that is not there is the empty set. -/
def zset (key : String) : SortedSet String := (st.get clock key).getD .empty

/-- `ZREMRANGEBYSCORE key 0 max`. A set that becomes empty goes away with its key. -/
def zremrangebyscore (key : String) (max : ℚ) : RateStore :=
  match st.entry clock key with
  | none => st
  | some e =>
    let z := e.value.remove fun score => decide (0 ≤ score ∧ (score : ℚ) ≤ max)
    if z.card = 0 then st.del key else st.set key z e.expireAt

/-- `ZADD key score member`. -/
def zadd (key : String) (score : ℤ) (member : String) : RateStore :=
  st.set key ((zset clock st key).add score member) ((st.entry clock key).bind (·.expireAt))

/-- `PEXPIRE key ms`. -/
def pexpire (key : String) (ms : ℚ) : Except JsError RateStore :=
  if ms.den = 1 then
    -- a time that is not positive deletes the key
    .ok (if 0 < ms.num then st.pexpire clock key ms.num.toNat else st.del key)
  else .error (.error "ERR value is not an integer or out of range")

/-- The counting part of the script, after the trimming: the count, and whether the hit is
allowed. -/
def addIfBelow (c : RateScript) : RateStore × Except JsError (ℕ × ℤ) :=
  let count := (zset clock st c.key).card
  if (count : ℚ) < c.limit then
    let added := zadd clock st c.key c.now c.member
    match pexpire clock added c.key c.window with
    | .ok st' => (st', .ok (count + 1, 1))
    -- a script that fails keeps what it has written
    | .error e => (added, .error e)
  else (st, .ok (count, 0))

/-- rateLimit. The numbers of the reply are truncated to integers. -/
def rateLimit (c : RateScript) : RateStore × Except JsError RateReply :=
  match addIfBelow clock (zremrangebyscore clock st c.key (c.now - c.window)) c with
  | (st', .error e) => (st', .error e)
  | (st', .ok (count, allowed)) => (st', .ok
    { allowed := allowed
      remaining := ⌊max (c.limit - count) 0⌋
      oldest := (zset clock st' c.key).first.getD c.now })

end Script

/-! ### What one execution does -/

section Spec

variable {clock : ℕ} {st : RateStore} {c : RateScript} {key : String}

/-- The set that is counted: without the entries that have left the window. -/
def trimmed (clock : ℕ) (st : RateStore) (c : RateScript) : SortedSet String :=
  (zset clock st c.key).remove fun score => decide (0 ≤ score ∧ (score : ℚ) ≤ c.now - c.window)

theorem zset_of_entry {e : KeyValue.Entry (SortedSet String)} (h : st.entry clock key = some e) :
    zset clock st key = e.value := by
  rw [zset, KeyValue.get, h]
  rfl

theorem zset_of_none (h : st.entry clock key = none) : zset clock st key = .empty := by
  rw [zset, KeyValue.get, h]
  rfl

theorem zset_zremrangebyscore :
    zset clock (zremrangebyscore clock st c.key (c.now - c.window)) c.key = trimmed clock st c := by
  unfold zremrangebyscore trimmed
  match hentry : st.entry clock c.key with
  | none =>
    simp only [zset_of_none hentry, SortedSet.remove_empty]
  | some e =>
    simp only [zset_of_entry hentry]
    by_cases hcard : (e.value.remove fun score =>
        decide (0 ≤ score ∧ (score : ℚ) ≤ c.now - c.window)).card = 0
    · rw [if_pos hcard, SortedSet.eq_empty_of_card hcard]
      apply zset_of_none
      rw [KeyValue.entry, KeyValue.del_self]
      rfl
    · rw [if_neg hcard]
      have hlive := (KeyValue.entry_eq_some.mp hentry).2
      have hentry' : (st.set c.key (e.value.remove fun score =>
          decide (0 ≤ score ∧ (score : ℚ) ≤ c.now - c.window)) e.expireAt).entry clock c.key =
          some ⟨_, e.expireAt⟩ := KeyValue.entry_eq_some.mpr ⟨KeyValue.set_self, hlive⟩
      exact zset_of_entry hentry'

theorem zremrangebyscore_ne {max : ℚ} {other : String} (h : other ≠ key) :
    zremrangebyscore clock st key max other = st other := by
  unfold zremrangebyscore
  match st.entry clock key with
  | none => rfl
  | some e =>
    by_cases hcard : (e.value.remove fun score =>
        decide (0 ≤ score ∧ (score : ℚ) ≤ max)).card = 0
    · simp only [if_pos hcard]
      exact KeyValue.del_ne h
    · simp only [if_neg hcard]
      exact KeyValue.set_ne h

/-- Below the limit the hit is added, and the key lives for a window more. -/
theorem rateLimit_of_lt {W : ℕ} (hwindow : c.window = W) (hpos : 0 < W)
    (hcount : ((trimmed clock st c).card : ℚ) < c.limit) :
    (rateLimit clock st c).2 = .ok ⟨1, ⌊max (c.limit - ((trimmed clock st c).card + 1 : ℕ)) 0⌋,
        ((trimmed clock st c).add c.now c.member).first.getD c.now⟩ ∧
      (rateLimit clock st c).1 c.key =
        some ⟨(trimmed clock st c).add c.now c.member, some (clock + W)⟩ ∧
      ∀ other, other ≠ c.key → (rateLimit clock st c).1 other = st other := by
  have hden : c.window.den = 1 := by rw [hwindow, Rat.den_natCast]
  have hnum : c.window.num = W := by rw [hwindow, Rat.num_natCast]
  have hnumpos : 0 < c.window.num := by omega
  have htoNat : c.window.num.toNat = W := by omega
  have hadded : (zadd clock (zremrangebyscore clock st c.key (c.now - c.window)) c.key c.now
      c.member).entry clock c.key = some ⟨(trimmed clock st c).add c.now c.member,
        ((zremrangebyscore clock st c.key (c.now - c.window)).entry clock c.key).bind
          (·.expireAt)⟩ := by
    refine KeyValue.entry_eq_some.mpr ⟨?_, ?_⟩
    · rw [zadd, KeyValue.set_self, zset_zremrangebyscore]
    · -- the entry it is added to counts at this instant, or there is none
      match hentry : (zremrangebyscore clock st c.key (c.now - c.window)).entry clock c.key with
      | none => rfl
      | some e => exact (KeyValue.entry_eq_some.mp hentry).2
  have hstore : addIfBelow clock (zremrangebyscore clock st c.key (c.now - c.window)) c =
      ((zadd clock (zremrangebyscore clock st c.key (c.now - c.window)) c.key c.now c.member).set
        c.key ((trimmed clock st c).add c.now c.member) (some (clock + W)),
          .ok ((trimmed clock st c).card + 1, 1)) := by
    unfold addIfBelow
    simp only [zset_zremrangebyscore, if_pos hcount, pexpire, if_pos hden, if_pos hnumpos, htoNat,
      KeyValue.pexpire_of_entry hadded]
  unfold rateLimit
  rw [hstore]
  refine ⟨?_, KeyValue.set_self, fun other hne => ?_⟩
  · dsimp only
    rw [zset_of_entry (KeyValue.entry_set_px W)]
  · refine (KeyValue.set_ne hne).trans ?_
    exact (KeyValue.set_ne hne).trans (zremrangebyscore_ne hne)

/-- At the limit nothing is added. -/
theorem rateLimit_of_ge (hcount : ¬ ((trimmed clock st c).card : ℚ) < c.limit) :
    (rateLimit clock st c).2 = .ok ⟨0, ⌊max (c.limit - (trimmed clock st c).card) 0⌋,
        (trimmed clock st c).first.getD c.now⟩ ∧
      (rateLimit clock st c).1 = zremrangebyscore clock st c.key (c.now - c.window) := by
  have hstore : addIfBelow clock (zremrangebyscore clock st c.key (c.now - c.window)) c =
      (zremrangebyscore clock st c.key (c.now - c.window),
        .ok ((trimmed clock st c).card, 0)) := by
    unfold addIfBelow
    simp only [zset_zremrangebyscore, if_neg hcount]
  unfold rateLimit
  rw [hstore]
  refine ⟨?_, rfl⟩
  dsimp only
  rw [zset_zremrangebyscore]

/-- A script leaves the other keys alone. -/
theorem rateLimit_ne {other : String} (h : other ≠ c.key) :
    (rateLimit clock st c).1 other = st other := by
  have hadd : (addIfBelow clock (zremrangebyscore clock st c.key (c.now - c.window)) c).1 other =
      st other := by
    unfold addIfBelow
    dsimp only
    split
    · have hadded : zadd clock (zremrangebyscore clock st c.key (c.now - c.window)) c.key c.now
          c.member other = st other :=
        (KeyValue.set_ne h).trans (zremrangebyscore_ne h)
      unfold pexpire
      split
      · rename_i st' _ hok
        split at hok
        · cases hok
          split
          · unfold KeyValue.pexpire
            split
            · exact (KeyValue.set_ne h).trans hadded
            · exact hadded
          · exact (KeyValue.del_ne h).trans hadded
        · exact nomatch hok
      · exact hadded
    · exact zremrangebyscore_ne h
  unfold rateLimit
  split
  · rename_i hresult
    rw [hresult] at hadd
    exact hadd
  · rename_i hresult
    rw [hresult] at hadd
    exact hadd

end Spec

/-! ## The service -/

inductive RateCall where
  | dateNow
  | randomUUID
  | rateLimit (c : RateScript)

def RateCall.Reply : RateCall → Type
  | dateNow => ℤ
  | randomUUID => String
  | rateLimit _ => RateReply

structure RateLimitResult where
  allowed : Bool
  remaining : ℤ
  resetAt : ℚ
deriving DecidableEq

def rateEntryKey (key : String) : String := "rl:" ++ key

namespace RedisRateLimitService

abbrev Code : Type := Async JsError RateCall RateCall.Reply RateLimitResult

def result (windowMs : ℚ) (reply : RateReply) : RateLimitResult where
  allowed := reply.allowed = 1
  remaining := reply.remaining
  resetAt := reply.oldest + windowMs

def dateNow : Async JsError RateCall RateCall.Reply ℤ := Async.call RateCall.dateNow

def randomUUID : Async JsError RateCall RateCall.Reply String := Async.call RateCall.randomUUID

def callRateLimit (c : RateScript) : Async JsError RateCall RateCall.Reply RateReply :=
  Async.call (RateCall.rateLimit c)

def hit (key : String) (limit windowSeconds : ℚ) : Code := do
  let now ← dateNow
  let windowMs := Binary64.round (windowSeconds * 1000)
  let uuid ← randomUUID
  let reply ← callRateLimit
    ⟨rateEntryKey key, now, windowMs, limit, toString now ++ ":" ++ uuid⟩
  return result windowMs reply

end RedisRateLimitService

open RedisRateLimitService (hit)

/-! ## Calls of hit over one Redis -/

/-- An execution of the script, with what its `hit` resolves to. -/
structure Hit where
  script : RateScript
  result : RateLimitResult
deriving DecidableEq

/-- The system; `hits` records the executions in their order. -/
structure RateState where
  now : ℕ
  store : RateStore
  calls : List RedisRateLimitService.Code
  hits : List Hit

inductive RateTransport | answered | answerLost | requestLost
deriving DecidableEq

inductive RateAction where
  | hit (key : String) (limit windowSeconds : ℚ)
  | readClock (i : ℕ)
  | drawUUID (i : ℕ) (uuid : String)
  | perform (i : ℕ) (transport : RateTransport)
  | tick (ms : ℕ)

namespace RateState

variable (s : RateState)

def connectionLost : JsError := .error "Connection is closed."

/-- The script that call `i` has sent. -/
def scriptOf (i : ℕ) : Option RateScript :=
  match s.calls[i]? with
  | some (.await (.rateLimit c) _) => some c
  | _ => none

/-- The hit that an executed script stands for. -/
def noted (c : RateScript) (k : Except JsError RateReply → RedisRateLimitService.Code) :
    Except JsError RateReply → List Hit
  | .ok reply =>
    match k (.ok reply) with
    | .resolve result => [⟨c, result⟩]
    | _ => []
  | .error _ => []

def readClock (i : ℕ) : Option RateState :=
  match s.calls[i]? with
  | some (.await .dateNow k) => some { s with calls := s.calls.set i (k (.ok (s.now : ℤ))) }
  | _ => none

def drawUUID (i : ℕ) (uuid : String) : Option RateState :=
  match s.calls[i]? with
  | some (.await .randomUUID k) => some { s with calls := s.calls.set i (k (.ok uuid)) }
  | _ => none

/-- The script of call `i` executes; its request or its reply may get lost. -/
def perform (i : ℕ) (transport : RateTransport) : Option RateState :=
  match s.calls[i]? with
  | some (.await (.rateLimit c) k) =>
    let r := rateLimit s.now s.store c
    match transport with
    | .answered => some { s with
        store := r.1
        calls := s.calls.set i (k r.2)
        hits := s.hits ++ noted c k r.2 }
    | .answerLost => some { s with
        store := r.1
        calls := s.calls.set i (k (.error connectionLost))
        hits := s.hits ++ noted c k r.2 }
    | .requestLost => some { s with calls := s.calls.set i (k (.error connectionLost)) }
  | _ => none

def step : RateAction → Option RateState
  | .hit key limit windowSeconds =>
    some { s with calls := s.calls ++ [hit key limit windowSeconds] }
  | .readClock i => s.readClock i
  | .drawUUID i uuid => s.drawUUID i uuid
  | .perform i transport => s.perform i transport
  | .tick ms => some { s with now := s.now + ms }

/-- No call has been made, and Redis holds no set under `rl:`. -/
structure Initial : Prop where
  calls : s.calls = []
  hits : s.hits = []
  store : ∀ key, s.store (rateEntryKey key) = none

end RateState

end NestFastify.Redis
