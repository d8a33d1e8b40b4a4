import NestFastify.Foundation.Async
import NestFastify.Redis.Server

/-!
# The cache

`RedisCacheService` (cache.service.ts) over a Redis of texts. `V` is the type of the values that
`JSON.stringify` carries, with `null` among them, and `none : Option V` is `undefined`, which has no
text: the client sends the empty string for it.
-/

namespace NestFastify.Redis.CacheAside

/-- `JSON.stringify` and `JSON.parse`. -/
structure JsonText (V : Type) where
  stringify : V → String
  parse : String → Except JsError V
  null : V
  parse_stringify : ∀ v, parse (stringify v) = .ok v
  parse_empty : ∃ e, parse "" = .error e

/-! ## RedisCacheService -/

inductive CacheCall where
  | get (key : String)
  | set (key : String) (value : Option String) (ttlSeconds : JsNumber)
  | del (key : String)
  | factory

def CacheCall.Reply (V : Type) : CacheCall → Type
  | get _ => Option String
  | set .. => Unit
  | del _ => Unit
  | factory => Option V

abbrev CacheCode (V α : Type) : Type := Async JsError CacheCall (CacheCall.Reply V) α

structure RedisCacheService (V : Type) where
  json : JsonText V
  CACHE_DEFAULT_TTL : Option JsNumber

namespace RedisCacheService

variable {V : Type} (this : RedisCacheService V)

def ttl (ttlSeconds : Option JsNumber) : JsNumber :=
  (ttlSeconds.or this.CACHE_DEFAULT_TTL).getD 60

/-- `this.client.get`. -/
def clientGet (full : String) : CacheCode V (Option String) := Async.call (CacheCall.get full)

/-- `this.client.set` of `JSON.stringify(value)`. -/
def clientSet (full : String) (value : Option V) (ttlSeconds : JsNumber) : CacheCode V Unit :=
  Async.call (CacheCall.set full (value.map this.json.stringify) ttlSeconds)

def factory : CacheCode V (Option V) := Async.call CacheCall.factory

def get (key : String) : CacheCode V V := do
  let raw ← clientGet (RedisCacheService.key key)
  match raw with
  | none => return this.json.null
  | some raw => Async.settled (this.json.parse raw)

def set (key : String) (value : Option V) (ttlSeconds : Option JsNumber) : CacheCode V Unit :=
  this.clientSet (RedisCacheService.key key) value (this.ttl ttlSeconds)

def del (key : String) : CacheCode V Unit := Async.call (CacheCall.del (RedisCacheService.key key))

def getOrSet (key : String) (ttlSeconds : JsNumber) : CacheCode V (Option V) := do
  let full := RedisCacheService.key key
  let raw ← clientGet full
  match raw with
  | some raw =>
    let value ← Async.settled (this.json.parse raw)
    return some value
  | none =>
    -- nothing keeps two callers from running their factories at once
    let value ← factory
    this.clientSet full value ttlSeconds
    return value

end RedisCacheService

/-! ## Calls one after the other -/

/-- The store, its clock in milliseconds, and how often a factory has run. -/
structure CacheState where
  now : ℕ
  store : KeyValue String String
  factoryCalls : ℕ

/-- The `EX` argument of `SET`. -/
def expireSeconds (ttlSeconds : JsNumber) : Except JsError ℕ :=
  match expiryArg ttlSeconds with
  | .error e => .error e
  | .ok n => if 0 < n then .ok n.toNat else .error invalidExpire

/-- A call of the service by its users, or time that goes by. A factory resolves after
`factoryMs` to `value`. -/
inductive CacheOp (V : Type) where
  | get (key : String)
  | set (key : String) (value : Option V) (ttlSeconds : Option JsNumber)
  | del (key : String)
  | getOrSet (key : String) (ttlSeconds : JsNumber) (value : Option V) (factoryMs : ℕ)
  | wait (ms : ℕ)

/-- What Redis does, and the factory. -/
def CacheState.execute {V : Type} (value : Option V) (factoryMs : ℕ) (s : CacheState) :
    (c : CacheCall) → CacheState × Except JsError (c.Reply V)
  | .get key => (s, .ok (s.store.get s.now key))
  | .set key text ttlSeconds =>
    match expireSeconds ttlSeconds with
    | .error e => (s, .error e)
    | .ok n =>
      ({ s with store := s.store.set key (text.getD "") (some (s.now + 1000 * n)) }, .ok ())
  | .del key => ({ s with store := s.store.del key }, .ok ())
  | .factory =>
    ({ s with now := s.now + factoryMs, factoryCalls := s.factoryCalls + 1 }, .ok value)

namespace RedisCacheService

variable {V : Type} (this : RedisCacheService V)

/-- Run the code of one call. No function of the service loops, so each has settled. -/
def settle {α : Type} (code : CacheCode V α) (value : Option V) (factoryMs : ℕ) (s : CacheState) :
    CacheState × Except JsError α :=
  (code.exec (CacheState.execute value factoryMs) s).getD (s, .error (.other "pending"))

/-- A call and its outcome; what resolves to nothing resolves to `undefined`. -/
def perform (s : CacheState) : CacheOp V → CacheState × Except JsError (Option V)
  | .get key => settle (do let v ← this.get key; return some v) none 0 s
  | .set key value ttlSeconds =>
    settle (do this.set key value ttlSeconds; return none) none 0 s
  | .del key => settle (do (del key : CacheCode V Unit); return none) none 0 s
  | .getOrSet key ttlSeconds value factoryMs =>
    settle (this.getOrSet key ttlSeconds) value factoryMs s
  | .wait ms => ({ s with now := s.now + ms }, .ok none)

/-- The state after some calls. -/
def after (s : CacheState) (ops : List (CacheOp V)) : CacheState :=
  ops.foldl (fun s op => (this.perform s op).1) s

/-! ### What one call does -/

section Exec

variable (value : Option V) (factoryMs : ℕ) (s : CacheState)

/-- Redis answers a `GET` from the store. -/
theorem exec_clientGet (full : String) :
    (clientGet full : CacheCode V _).exec (CacheState.execute value factoryMs) s =
      some (s, .ok (s.store.get s.now full)) := Async.exec_call _ _ _

/-- Redis executes a `SET` of the text of the value. -/
theorem exec_clientSet (full : String) (stored : Option V) (ttlSeconds : JsNumber) :
    (this.clientSet full stored ttlSeconds).exec (CacheState.execute value factoryMs) s =
      some (CacheState.execute value factoryMs s
        (.set full (stored.map this.json.stringify) ttlSeconds)) := Async.exec_call _ _ _

/-- The state in which a factory that has been called resolves. -/
def resolved : CacheState :=
  { s with now := s.now + factoryMs, factoryCalls := s.factoryCalls + 1 }

/-- A factory takes its time and resolves. -/
theorem exec_factory : (factory : CacheCode V _).exec (CacheState.execute value factoryMs) s =
    some (resolved factoryMs s, .ok value) := Async.exec_call _ _ _

/-- The state after `SET` of a value for `n` seconds; `undefined` is sent as the empty string. -/
def stored (key : String) (n : ℕ) : CacheState :=
  let text := (value.map this.json.stringify).getD ""
  { s with store := s.store.set (RedisCacheService.key key) text (some (s.now + 1000 * n)) }

end Exec

variable {this} {s : CacheState} {key text : String} {v : V} {value : Option V} {e : JsError}
  {n factoryMs : ℕ} {ttlSeconds : JsNumber} {ttl? : Option JsNumber}

/-- `get` returns `null` for a key without an entry. -/
theorem exec_get_miss (h : s.store.get s.now (RedisCacheService.key key) = none) :
    (this.get key).exec (CacheState.execute value factoryMs) s =
      some (s, .ok this.json.null) := by
  have hget := exec_clientGet value factoryMs s (RedisCacheService.key key)
  rw [h] at hget
  exact Async.exec_bind_ok hget

/-- `get` parses the text of the entry. -/
theorem exec_get_hit (h : s.store.get s.now (RedisCacheService.key key) = some text) :
    (this.get key).exec (CacheState.execute value factoryMs) s =
      some (s, this.json.parse text) := by
  have hget := exec_clientGet value factoryMs s (RedisCacheService.key key)
  rw [h] at hget
  rw [get, Async.bind_eq_bind, Async.exec_bind_ok hget]
  exact Async.exec_settled _ _ _

/-- The same of the calls, each of which settles. -/
theorem perform_get_miss (h : s.store.get s.now (RedisCacheService.key key) = none) :
    this.perform s (.get key) = (s, .ok (some this.json.null)) := by
  rw [perform, settle, Async.bind_eq_bind]
  simp only [Async.pure_eq_resolve]
  rw [Async.exec_bind_resolve, exec_get_miss h]
  rfl

theorem perform_get_hit (h : s.store.get s.now (RedisCacheService.key key) = some text) :
    this.perform s (.get key) = (s, (this.json.parse text).map some) := by
  rw [perform, settle, Async.bind_eq_bind]
  simp only [Async.pure_eq_resolve]
  rw [Async.exec_bind_resolve, exec_get_hit h]
  rfl

/-- A `set` whose expiry Redis accepts stores the value. -/
theorem perform_set_ok (h : expireSeconds (this.ttl ttl?) = .ok n) :
    this.perform s (.set key value ttl?) = (this.stored value s key n, .ok none) := by
  have hset := exec_clientSet this none 0 s (RedisCacheService.key key) value (this.ttl ttl?)
  rw [CacheState.execute, h] at hset
  rw [perform, settle, set, Async.bind_eq_bind, Async.exec_bind_ok hset]
  rfl

/-- A `set` whose expiry Redis does not accept rejects. -/
theorem perform_set_error (h : expireSeconds (this.ttl ttl?) = .error e) :
    this.perform s (.set key value ttl?) = (s, .error e) := by
  have hset := exec_clientSet this none 0 s (RedisCacheService.key key) value (this.ttl ttl?)
  rw [CacheState.execute, h] at hset
  rw [perform, settle, set, Async.bind_eq_bind, Async.exec_bind_error hset]
  rfl

/-- A `getOrSet` that finds an entry parses it, and runs no factory. -/
theorem perform_getOrSet_hit (h : s.store.get s.now (RedisCacheService.key key) = some text) :
    this.perform s (.getOrSet key ttlSeconds value factoryMs) =
      (s, (this.json.parse text).map some) := by
  have hget := exec_clientGet value factoryMs s (RedisCacheService.key key)
  rw [h] at hget
  rw [perform, settle, getOrSet, Async.bind_eq_bind, Async.exec_bind_ok hget]
  show (Async.exec _ ((Async.settled (this.json.parse text)).bind fun v => Async.resolve (some v))
    s).getD _ = _
  rw [Async.exec_bind_resolve, Async.exec_settled]
  rfl

/-- A miss calls the factory, and then writes what it has resolved to. -/
theorem exec_getOrSet_miss (h : s.store.get s.now (RedisCacheService.key key) = none) :
    (this.getOrSet key ttlSeconds).exec (CacheState.execute value factoryMs) s =
      ((this.clientSet (RedisCacheService.key key) value ttlSeconds).bind fun _ =>
        Async.resolve value).exec (CacheState.execute value factoryMs) (resolved factoryMs s) := by
  have hget := exec_clientGet value factoryMs s (RedisCacheService.key key)
  rw [h] at hget
  rw [getOrSet, Async.bind_eq_bind, Async.exec_bind_ok hget]
  exact Async.exec_bind_ok (exec_factory value factoryMs s)

/-- A `getOrSet` that finds nothing runs its factory and stores what it resolves to. -/
theorem perform_getOrSet_miss (h : s.store.get s.now (RedisCacheService.key key) = none)
    (hn : expireSeconds ttlSeconds = .ok n) :
    this.perform s (.getOrSet key ttlSeconds value factoryMs) =
      (this.stored value (resolved factoryMs s) key n, .ok value) := by
  have hset := exec_clientSet this value factoryMs (resolved factoryMs s)
    (RedisCacheService.key key) value ttlSeconds
  rw [CacheState.execute, hn] at hset
  rw [perform, settle, exec_getOrSet_miss h, Async.exec_bind_ok hset]
  rfl

/-- If Redis does not accept the expiry, the value of the factory is lost. -/
theorem perform_getOrSet_miss_error (h : s.store.get s.now (RedisCacheService.key key) = none)
    (hn : expireSeconds ttlSeconds = .error e) :
    this.perform s (.getOrSet key ttlSeconds value factoryMs) =
      (resolved factoryMs s, .error e) := by
  have hset := exec_clientSet this value factoryMs (resolved factoryMs s)
    (RedisCacheService.key key) value ttlSeconds
  rw [CacheState.execute, hn] at hset
  rw [perform, settle, exec_getOrSet_miss h, Async.exec_bind_error hset]
  rfl

/-- What a call can do to the state. -/
inductive Effect (this : RedisCacheService V) (s : CacheState) : CacheOp V → CacheState → Prop
  | unchanged (op : CacheOp V) : Effect this s op s
  | waited (ms : ℕ) : Effect this s (.wait ms) { s with now := s.now + ms }
  | deleted (key : String) :
    Effect this s (.del key) { s with store := s.store.del (RedisCacheService.key key) }
  | set (key : String) (value : Option V) (ttl? : Option JsNumber) {n : ℕ}
    (hn : expireSeconds (this.ttl ttl?) = .ok n) :
    Effect this s (.set key value ttl?) (this.stored value s key n)
  | filled (key : String) (ttlSeconds : JsNumber) (value : Option V) (factoryMs : ℕ) {n : ℕ}
    (hmiss : s.store.get s.now (RedisCacheService.key key) = none)
    (hn : expireSeconds ttlSeconds = .ok n) :
    Effect this s (.getOrSet key ttlSeconds value factoryMs)
      (this.stored value (resolved factoryMs s) key n)
  | unfilled (key : String) (ttlSeconds : JsNumber) (value : Option V) (factoryMs : ℕ)
    {e : JsError} (hmiss : s.store.get s.now (RedisCacheService.key key) = none)
    (hn : expireSeconds ttlSeconds = .error e) :
    Effect this s (.getOrSet key ttlSeconds value factoryMs) (resolved factoryMs s)

/-- A call does one of these. -/
theorem perform_effect (this : RedisCacheService V) (s : CacheState) (op : CacheOp V) :
    Effect this s op (this.perform s op).1 := by
  cases op with
  | get key =>
    cases h : s.store.get s.now (RedisCacheService.key key) with
    | none =>
      rw [perform_get_miss h]
      exact .unchanged _
    | some text =>
      rw [perform_get_hit h]
      exact .unchanged _
  | set key value ttl? =>
    cases hn : expireSeconds (this.ttl ttl?) with
    | ok n =>
      rw [perform_set_ok hn]
      exact .set key value ttl? hn
    | error e =>
      rw [perform_set_error hn]
      exact .unchanged _
  | del key => exact .deleted key
  | getOrSet key ttlSeconds value factoryMs =>
    cases h : s.store.get s.now (RedisCacheService.key key) with
    | some text =>
      rw [perform_getOrSet_hit h]
      exact .unchanged _
    | none =>
      cases hn : expireSeconds ttlSeconds with
      | ok n =>
        rw [perform_getOrSet_miss h hn]
        exact .filled key ttlSeconds value factoryMs h hn
      | error e =>
        rw [perform_getOrSet_miss_error h hn]
        exact .unfilled key ttlSeconds value factoryMs h hn
  | wait ms => exact .waited ms

variable {s' : CacheState} {op : CacheOp V}

/-- No call turns the clock back. -/
theorem Effect.now_le (h : Effect this s op s') : s.now ≤ s'.now := by
  cases h with
  | unchanged => exact Nat.le_refl _
  | waited ms => exact Nat.le_add_right _ _
  | deleted key => exact Nat.le_refl _
  | set key value ttl? hn => exact Nat.le_refl _
  | filled key ttlSeconds value factoryMs hmiss hn => exact Nat.le_add_right _ _
  | unfilled key ttlSeconds value factoryMs hmiss hn => exact Nat.le_add_right _ _

theorem now_perform (this : RedisCacheService V) (s : CacheState) (op : CacheOp V) :
    s.now ≤ (this.perform s op).1.now := (perform_effect this s op).now_le

/-- The key has the text of the value, until the expiry. -/
theorem store_stored_self : (this.stored value s key n).store (RedisCacheService.key key) =
    some ⟨(value.map this.json.stringify).getD "", some (s.now + 1000 * n)⟩ := KeyValue.set_self

/-- The other keys are as before. -/
theorem store_stored_ne {full : String} (h : full ≠ RedisCacheService.key key) :
    (this.stored value s key n).store full = s.store full := KeyValue.set_ne h

/-- Different keys have different entries. -/
theorem key_injective {key' : String} (h : RedisCacheService.key key' = RedisCacheService.key key) :
    key' = key := (String.append_right_inj "cache:").mp h

/-! ## A value that has been cached -/

/-- `v` is cached for a key until an instant. -/
def Cached (this : RedisCacheService V) (s : CacheState) (key : String) (v : V) (lapse : ℕ) :
    Prop :=
  s.store (RedisCacheService.key key) = some ⟨this.json.stringify v, some lapse⟩

/-- The calls that write or delete a key whatever it holds. -/
def Overwrites (key : String) : CacheOp V → Prop
  | .set key' _ _ | .del key' => key' = key
  | _ => False

/-- The calls that read a key. -/
def Reads (key : String) : CacheOp V → Prop
  | .get key' | .getOrSet key' _ _ _ => key' = key
  | _ => False

variable {lapse : ℕ}

/-- A value that is stored is cached. -/
theorem cached_stored (this : RedisCacheService V) (s : CacheState) (key : String) (v : V) (n : ℕ) :
    this.Cached (this.stored (some v) s key n) key v (s.now + 1000 * n) := store_stored_self

/-- A write of another key does not touch it. -/
theorem Cached.stored_ne {key' : String} (h : this.Cached s key v lapse) (hne : key' ≠ key) :
    this.Cached (this.stored value s key' n) key v lapse := by
  rw [Cached, store_stored_ne fun heq => hne (key_injective heq).symm]
  exact h

/-- An entry that has not expired is read. -/
theorem get_of_store (h : s.store (RedisCacheService.key key) = some ⟨text, some lapse⟩)
    (hnow : s.now ≤ lapse) : s.store.get s.now (RedisCacheService.key key) = some text := by
  rw [KeyValue.get, KeyValue.entry_eq_some.mpr ⟨h, KeyValue.live_some.mpr hnow⟩]
  rfl

/-- A value that is cached is read until it lapses. -/
theorem Cached.get (h : this.Cached s key v lapse) (hnow : s.now ≤ lapse) :
    s.store.get s.now (RedisCacheService.key key) = some (this.json.stringify v) :=
  get_of_store h hnow

/-- Until it lapses, both reads return the value and leave everything as it is. -/
theorem Cached.read (h : this.Cached s key v lapse) (hnow : s.now ≤ lapse) (hop : Reads key op) :
    this.perform s op = (s, .ok (some v)) := by
  cases op with
  | get key' =>
    obtain rfl : key' = key := hop
    rw [perform_get_hit (h.get hnow), this.json.parse_stringify]
    rfl
  | getOrSet key' ttlSeconds value factoryMs =>
    obtain rfl : key' = key := hop
    rw [perform_getOrSet_hit (h.get hnow), this.json.parse_stringify]
    rfl
  | set key' value ttl? => exact hop.elim
  | del key' => exact hop.elim
  | wait ms => exact hop.elim

/-- A call that does not overwrite the key keeps what is cached, as long as it has not lapsed. -/
theorem Cached.effect (h : this.Cached s key v lapse) (heffect : Effect this s op s')
    (hop : ¬ Overwrites key op) (hnow : s'.now ≤ lapse) : this.Cached s' key v lapse := by
  have hlive := Nat.le_trans heffect.now_le hnow
  cases heffect with
  | unchanged => exact h
  | waited ms => exact h
  | deleted key' =>
    have hne : RedisCacheService.key key ≠ RedisCacheService.key key' :=
      fun heq => hop (key_injective heq).symm
    exact (KeyValue.del_ne hne).trans h
  | set key' value ttl? hn => exact h.stored_ne hop
  | filled key' ttlSeconds value factoryMs hmiss hn =>
    by_cases heq : key' = key
    · -- the key would have been found
      rw [heq, h.get hlive] at hmiss
      cases hmiss
    · have hresolved : this.Cached (resolved factoryMs s) key v lapse := h
      exact hresolved.stored_ne heq
  | unfilled key' ttlSeconds value factoryMs hmiss hn => exact h

theorem after_cons (this : RedisCacheService V) (s : CacheState) (op : CacheOp V)
    (ops : List (CacheOp V)) :
    this.after s (op :: ops) = this.after (this.perform s op).1 ops := rfl

theorem after_append (this : RedisCacheService V) (s : CacheState) (ops ops' : List (CacheOp V)) :
    this.after s (ops ++ ops') = this.after (this.after s ops) ops' := List.foldl_append

/-- No sequence of calls turns the clock back. -/
theorem now_after (this : RedisCacheService V) (s : CacheState) (ops : List (CacheOp V)) :
    s.now ≤ (this.after s ops).now := by
  induction ops generalizing s with
  | nil => exact Nat.le_refl _
  | cons op ops ih => exact Nat.le_trans (now_perform this s op) (ih _)

/-- A value stays cached through calls that do not overwrite it, until it lapses. -/
theorem Cached.after {ops : List (CacheOp V)} (h : this.Cached s key v lapse)
    (hops : ∀ op ∈ ops, ¬ Overwrites key op) (hnow : (this.after s ops).now ≤ lapse) :
    this.Cached (this.after s ops) key v lapse := by
  induction ops generalizing s with
  | nil => exact h
  | cons op ops ih =>
    rw [after_cons] at hnow ⊢
    have hstep := h.effect (perform_effect this s op) (hops op List.mem_cons_self)
      (Nat.le_trans (now_after this _ ops) hnow)
    exact ih hstep (fun op' hmem => hops op' (List.mem_cons_of_mem op hmem)) hnow

/-! ## Texts that can be read back -/

/-- Every text in the store is the text of a value. -/
def Readable (this : RedisCacheService V) (s : CacheState) : Prop :=
  ∀ full entry, s.store full = some entry → ∃ v, entry.value = this.json.stringify v

/-- What makes a call leave texts that can be read back: a write that Redis accepts is of a value,
and a factory that has to be called resolves to one, with an expiry that Redis accepts. -/
def Encodable (this : RedisCacheService V) (s : CacheState) : CacheOp V → Prop
  | .set _ value ttl? => (∃ n, expireSeconds (this.ttl ttl?) = .ok n) → value ≠ none
  | .getOrSet key ttlSeconds value _ =>
    s.store.get s.now (RedisCacheService.key key) = none →
      value ≠ none ∧ ∃ n, expireSeconds ttlSeconds = .ok n
  | _ => True

/-- A write of a value leaves a text that can be read back. -/
theorem Readable.stored (h : this.Readable s) (hvalue : value ≠ none) :
    this.Readable (this.stored value s key n) := by
  intro full entry hentry
  by_cases heq : full = RedisCacheService.key key
  · obtain ⟨v, rfl⟩ := Option.ne_none_iff_exists'.mp hvalue
    rw [heq, store_stored_self] at hentry
    exact ⟨v, congrArg KeyValue.Entry.value (Option.some.inj hentry).symm⟩
  · rw [store_stored_ne heq] at hentry
    exact h full entry hentry

/-- So does every call that is encodable. -/
theorem Readable.effect (h : this.Readable s) (heffect : Effect this s op s')
    (hop : this.Encodable s op) : this.Readable s' := by
  cases heffect with
  | unchanged => exact h
  | waited ms => exact h
  | deleted key =>
    intro full entry hentry
    change s.store.del (RedisCacheService.key key) full = some entry at hentry
    by_cases heq : full = RedisCacheService.key key
    · rw [heq, KeyValue.del_self] at hentry
      cases hentry
    · rw [KeyValue.del_ne heq] at hentry
      exact h full entry hentry
  | set key value ttl? hn => exact h.stored (hop ⟨_, hn⟩)
  | filled key ttlSeconds value factoryMs hmiss hn =>
    have hresolved : this.Readable (resolved factoryMs s) := h
    exact hresolved.stored (hop hmiss).1
  | unfilled key ttlSeconds value factoryMs hmiss hn => exact h

/-- From such a store a read returns a value. -/
theorem Readable.read (h : this.Readable s) (hop : this.Encodable s op) (hread : Reads key op) :
    ∃ value, (this.perform s op).2 = .ok value := by
  -- what is found has been written by the service
  have htext : ∀ {full text}, s.store.get s.now full = some text →
      ∃ v, text = this.json.stringify v := by
    intro full text htext
    obtain ⟨entry, hentry, rfl⟩ := Option.map_eq_some_iff.mp htext
    exact h full entry (KeyValue.entry_eq_some.mp hentry).1
  cases op with
  | get key' =>
    cases hget : s.store.get s.now (RedisCacheService.key key') with
    | none =>
      rw [perform_get_miss hget]
      exact ⟨_, rfl⟩
    | some text =>
      obtain ⟨v, rfl⟩ := htext hget
      rw [perform_get_hit hget, this.json.parse_stringify]
      exact ⟨_, rfl⟩
  | getOrSet key' ttlSeconds value factoryMs =>
    cases hget : s.store.get s.now (RedisCacheService.key key') with
    | none =>
      obtain ⟨-, n, hn⟩ := hop hget
      rw [perform_getOrSet_miss hget hn]
      exact ⟨_, rfl⟩
    | some text =>
      obtain ⟨v, rfl⟩ := htext hget
      rw [perform_getOrSet_hit hget, this.json.parse_stringify]
      exact ⟨_, rfl⟩
  | set key' value ttl? => exact hread.elim
  | del key' => exact hread.elim
  | wait ms => exact hread.elim

/-! ## Runs -/

/-- Nothing is cached at first. -/
def empty : CacheState := ⟨0, fun _ => none, 0⟩

/-- In state `s` the call caches `v` for a key until an instant: it is a `set` of `v` that Redis
accepts, or a `getOrSet` that finds nothing and whose factory resolves to `v`. -/
def Caches (this : RedisCacheService V) (s : CacheState) (key : String) (v : V) (lapse : ℕ) :
    CacheOp V → Prop
  | .set key' value ttl? => key' = key ∧ value = some v ∧
      ∃ n, expireSeconds (this.ttl ttl?) = .ok n ∧ lapse = s.now + 1000 * n
  | .getOrSet key' ttlSeconds value factoryMs => key' = key ∧ value = some v ∧
      s.store.get s.now (RedisCacheService.key key) = none ∧
      ∃ n, expireSeconds ttlSeconds = .ok n ∧ lapse = s.now + factoryMs + 1000 * n
  | _ => False

/-- What the users of the cache rely on in a sequence of calls. -/
structure RoundTrips (this : RedisCacheService V) (ops : List (CacheOp V)) : Prop where
  /-- No read throws. -/
  settles : ∀ pre op post key, ops = pre ++ op :: post → Reads key op →
    ∃ value, (this.perform (this.after empty pre) op).2 = .ok value
  /-- A value that has been cached is what the reads return until it lapses, and no factory
  runs. -/
  hit : ∀ pre w mid r post key v lapse, ops = pre ++ w :: mid ++ r :: post →
    this.Caches (this.after empty pre) key v lapse w → (∀ op ∈ mid, ¬ Overwrites key op) →
    Reads key r → (this.after empty (pre ++ w :: mid)).now ≤ lapse →
    this.perform (this.after empty (pre ++ w :: mid)) r =
      (this.after empty (pre ++ w :: mid), .ok (some v))
  /-- A factory's `undefined` is returned, and the next `getOrSet` runs its factory again. -/
  notCached : ∀ pre key ttlSeconds factoryMs post,
    ops = pre ++ .getOrSet key ttlSeconds none factoryMs :: post →
    (this.after empty pre).store.get (this.after empty pre).now (RedisCacheService.key key) = none →
    (this.perform (this.after empty pre) (.getOrSet key ttlSeconds none factoryMs)).2 = .ok none ∧
    ∀ mid ttlSeconds' value' factoryMs' post', post = mid ++ .getOrSet key ttlSeconds' value'
        factoryMs' :: post' →
      (∀ op ∈ mid, ¬ Overwrites key op ∧ ¬ ∃ ttl value ms, op = .getOrSet key ttl value ms) →
      (this.after empty (pre ++ .getOrSet key ttlSeconds none factoryMs :: mid ++
          [.getOrSet key ttlSeconds' value' factoryMs'])).factoryCalls =
        (this.after empty (pre ++ .getOrSet key ttlSeconds none factoryMs :: mid)).factoryCalls + 1

/-- After the call the value is cached. -/
theorem Caches.cached (h : this.Caches s key v lapse op) :
    this.Cached (this.perform s op).1 key v lapse := by
  cases op with
  | set key' value ttl? =>
    obtain ⟨rfl, rfl, n, hn, rfl⟩ := h
    rw [perform_set_ok hn]
    exact cached_stored this s key' v n
  | getOrSet key' ttlSeconds value factoryMs =>
    obtain ⟨rfl, rfl, hmiss, n, hn, rfl⟩ := h
    rw [perform_getOrSet_miss hmiss hn]
    exact cached_stored this (resolved factoryMs s) key' v n
  | get key' => exact h.elim
  | del key' => exact h.elim
  | wait ms => exact h.elim

/-- A sequence of encodable calls leaves only texts that can be read back. -/
theorem Readable.after {ops : List (CacheOp V)} (h : this.Readable s)
    (hops : ∀ pre op post, ops = pre ++ op :: post → this.Encodable (this.after s pre) op) :
    this.Readable (this.after s ops) := by
  induction ops generalizing s with
  | nil => exact h
  | cons op ops ih =>
    rw [after_cons]
    refine ih (h.effect (perform_effect this s op) (hops [] op ops rfl)) ?_
    intro pre op' post hsplit
    exact hops (op :: pre) op' post (by rw [hsplit, List.cons_append])

/-- There is no text at first. -/
theorem readable_empty (this : RedisCacheService V) : this.Readable empty := by
  intro full entry hentry
  cases hentry

/-- A sequence of calls that meet the condition. -/
theorem roundTrips_of_encodable {ops : List (CacheOp V)} (hops : ∀ pre op post,
    ops = pre ++ op :: post → this.Encodable (this.after empty pre) op) : this.RoundTrips ops where
  settles pre op post key hsplit hread := by
    have hreadable : this.Readable (this.after empty pre) := by
      refine (readable_empty this).after fun pre' op' post' hpre => ?_
      refine hops pre' op' (post' ++ op :: post) ?_
      rw [hsplit, hpre, List.append_assoc, List.cons_append]
    exact hreadable.read (hops pre op post hsplit) hread
  hit pre w mid r post key v lapse _ hcaches hmid hread hnow := by
    rw [after_append, after_cons] at hnow ⊢
    exact (hcaches.cached.after hmid hnow).read hnow hread
  notCached pre key ttlSeconds factoryMs post hsplit hmiss :=
    absurd rfl (hops pre _ post hsplit hmiss).1

/-- A read of what has been stored for `undefined`. -/
theorem perform_get_undefined (this : RedisCacheService V) (s : CacheState) (key : String)
    (n : ℕ) : ∃ e, (this.perform (this.stored none s key n) (.get key)).2 = .error e := by
  obtain ⟨e, he⟩ := this.json.parse_empty
  have hget : (this.stored none s key n).store.get (this.stored none s key n).now
      (RedisCacheService.key key) = some "" :=
    get_of_store store_stored_self (Nat.le_add_right s.now _)
  refine ⟨e, ?_⟩
  rw [perform_get_hit hget, he]
  rfl

/-- Some calls, with a read of any key after any part of them, are as the users of the cache rely
on exactly when each of them meets the condition in the state it finds. -/
theorem roundTrips_iff (this : RedisCacheService V) (ops : List (CacheOp V)) :
    (∀ pre, pre <+: ops → ∀ key, this.RoundTrips (pre ++ [.get key])) ↔
      ∀ pre op post, ops = pre ++ op :: post → this.Encodable (this.after empty pre) op := by
  constructor
  · intro h pre op post hops
    have hprefix : pre ++ [op] <+: ops := ⟨post, by rw [hops, List.append_assoc]; rfl⟩
    -- the read that follows the call
    have hnext : ∀ key, ∃ value, (this.perform (this.perform (this.after empty pre) op).1
        (.get key)).2 = .ok value := by
      intro key
      have hsettles := (h _ hprefix key).settles (pre ++ [op]) (.get key) [] key rfl rfl
      rwa [after_append, after_cons] at hsettles
    cases op with
    | set key value ttl? =>
      rintro ⟨n, hn⟩ rfl
      obtain ⟨value, hok⟩ := hnext key
      obtain ⟨e, he⟩ := perform_get_undefined this (this.after empty pre) key n
      rw [perform_set_ok hn, he] at hok
      cases hok
    | getOrSet key ttlSeconds value factoryMs =>
      intro hmiss
      obtain ⟨result, hresult⟩ := (h _ hprefix key).settles pre _ [.get key] key
        (List.append_assoc _ _ _) rfl
      cases hn : expireSeconds ttlSeconds with
      | error e =>
        rw [perform_getOrSet_miss_error hmiss hn] at hresult
        cases hresult
      | ok n =>
        refine ⟨?_, n, rfl⟩
        rintro rfl
        obtain ⟨value, hok⟩ := hnext key
        obtain ⟨e, he⟩ :=
          perform_get_undefined this (resolved factoryMs (this.after empty pre)) key n
        rw [perform_getOrSet_miss hmiss hn, he] at hok
        cases hok
    | get key => trivial
    | del key => trivial
    | wait ms => trivial
  · intro h pre hpre key
    obtain ⟨later, rfl⟩ := hpre
    apply roundTrips_of_encodable
    intro pre' op post hsplit
    rcases List.eq_nil_or_concat post with rfl | ⟨post, last, rfl⟩
    · -- the read at the end
      obtain ⟨rfl, hop⟩ := List.append_inj' hsplit rfl
      obtain rfl := (List.cons.inj hop).1
      trivial
    · have hpost : pre ++ [.get key] = (pre' ++ op :: post) ++ [last] := by
        rw [hsplit, List.concat_eq_append, List.append_assoc, List.cons_append]
      obtain ⟨hpre, -⟩ := List.append_inj' hpost rfl
      exact h pre' op (post ++ later) (by rw [hpre, List.append_assoc, List.cons_append])

/-- JSON with `null` as its only value. -/
def nullText : JsonText Unit where
  stringify _ := "null"
  parse text := if text = "null" then .ok () else .error (.error "Unexpected end of JSON input")
  null := ()
  parse_stringify _ := rfl
  parse_empty := ⟨_, rfl⟩

/-- A factory's `undefined` is cached, and the next `getOrSet` throws. -/
theorem not_roundTrips : ¬ ∀ (V : Type) (this : RedisCacheService V) (ops : List (CacheOp V)),
    this.RoundTrips ops := by
  intro h
  let this : RedisCacheService Unit := ⟨nullText, some 60⟩
  have hround := h Unit this [.getOrSet "k" 30 none 0, .getOrSet "k" 30 (some ()) 0]
  obtain ⟨value, hok⟩ := hround.settles [.getOrSet "k" 30 none 0] _ [] "k" rfl rfl
  have hthrows : (this.perform (this.after empty [.getOrSet "k" 30 none 0])
      (.getOrSet "k" 30 (some ()) 0)).2 = .error (.error "Unexpected end of JSON input") := by
    decide
  rw [hthrows] at hok
  cases hok

end RedisCacheService

end NestFastify.Redis.CacheAside
