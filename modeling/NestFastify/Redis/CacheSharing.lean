import NestFastify.Foundation.Transition
import NestFastify.Redis.CacheAside
import NestFastify.Redis.LockSystem

/-!
# Callers that share the cache

Any number of calls of `RedisCacheService` side by side on one store with one clock. A step begins
a call, executes the command that one of them awaits, settles the factory of one, or lets time
pass. The reply to a command may get lost, and so may the command.

`changes` lists the commands that have written or deleted a key, in the order in which Redis has
executed them. On that list the cache is a map whose values lapse (`cachedAt`), and each call reads
it and writes it at one point while it runs (`Explained`).
-/

namespace NestFastify.Redis.CacheAside

open Transition (Reaches)

/-- A call of the service. -/
inductive CacheRequest (V : Type) where
  | get (key : String)
  | set (key : String) (value : Option V) (ttlSeconds : Option JsNumber)
  | del (key : String)
  | getOrSet (key : String) (ttlSeconds : JsNumber)
deriving DecidableEq

def CacheRequest.key {V : Type} : CacheRequest V → String
  | get key | set key _ _ | del key | getOrSet key _ => key

/-- The calls that return what they find. -/
def CacheRequest.reads {V : Type} : CacheRequest V → Bool
  | get _ | getOrSet .. => true
  | set .. | del _ => false

/-- A write, which lapses, or a deletion, which does not. -/
structure Change (V : Type) where
  full : String
  caller : ℕ
  value : Option V
  since : ℕ
  lapse : Option ℕ
deriving DecidableEq

/-- A call and how far it has got. Noted besides: the changes that had been made when it was
called, the instant, and what its factory has resolved to. -/
structure CacheClient (V : Type) where
  request : CacheRequest V
  seen : ℕ
  calledAt : ℕ
  made : Option (Option V)
  code : CacheCode V (Option V)

/-- The value that a call writes. -/
def CacheClient.sent {V : Type} (u : CacheClient V) : Option V :=
  match u.request with
  | .set _ value _ => value
  | .get _ | .del _ | .getOrSet .. => u.made.join

structure SharedCache (V : Type) where
  now : ℕ
  store : KeyValue String String
  clients : List (CacheClient V)
  changes : List (Change V)

inductive CacheAction (V : Type) where
  | call (request : CacheRequest V)
  | perform (i : ℕ) (transport : Transport)
  | resolve (i : ℕ) (result : Except JsError (Option V))
  | tick (ms : ℕ)

/-! ## The abstract cache -/

section Abstract

variable {V : Type}

/-- The last change of a key. -/
def lastChange (changes : List (Change V)) (full : String) : Option (Change V) :=
  changes.reverse.find? fun c => decide (c.full = full)

/-- The write that has not lapsed. -/
def Change.live (now : ℕ) (c : Change V) : Bool := c.lapse.any (now ≤ ·)

/-- The write under a key that counts at an instant. -/
def cachedAt (changes : List (Change V)) (full : String) (now : ℕ) : Option (Change V) :=
  (lastChange changes full).filter (Change.live now)

variable {changes : List (Change V)} {c : Change V} {full : String}

/-- A new change of the key is its last one. -/
theorem lastChange_concat_self (h : c.full = full) : lastChange (changes ++ [c]) full = some c := by
  rw [lastChange, List.reverse_concat, List.find?_cons_of_pos (by simpa using h)]

/-- A change of another key is not. -/
theorem lastChange_concat_ne (h : c.full ≠ full) :
    lastChange (changes ++ [c]) full = lastChange changes full := by
  rw [lastChange, List.reverse_concat, List.find?_cons_of_neg (by simpa using h), lastChange]

/-- The last change of a key is a change of this key. -/
theorem lastChange_mem (h : lastChange changes full = some c) : c ∈ changes ∧ c.full = full :=
  ⟨List.mem_reverse.mp (List.mem_of_find?_eq_some h), by simpa using List.find?_some h⟩

end Abstract

/-! ## The system -/

namespace SharedCache

variable {V : Type}

def init : SharedCache V := ⟨0, fun _ => none, [], []⟩

variable (s : SharedCache V)

/-- The change that call `i` makes with a write. -/
def writeOf (i : ℕ) (value : Option V) (full : String) (n : ℕ) : Change V :=
  ⟨full, i, value, s.now, some (s.now + 1000 * n)⟩

/-- The change that a command makes. -/
def changeBy (i : ℕ) (u : CacheClient V) : CacheCall → Option (Change V)
  | .set full _ ttlSeconds =>
    match expireSeconds ttlSeconds with
    | .error _ => none
    | .ok n => some (s.writeOf i u.sent full n)
  | .del full => some ⟨full, i, none, s.now, none⟩
  | .get _ | .factory => none

/-- Redis executes the command that call `i` awaits. -/
def execute (i : ℕ) (u : CacheClient V) (c : CacheCall) :
    SharedCache V × Except JsError (c.Reply V) :=
  let r := CacheState.execute none 0 ⟨s.now, s.store, 0⟩ c
  ({ s with store := r.1.store, changes := s.changes ++ (s.changeBy i u c).toList }, r.2)

/-- Call `i` goes on after a command has settled. -/
def resume (i : ℕ) (u : CacheClient V) (code : CacheCode V (Option V)) : SharedCache V :=
  { s with clients := s.clients.set i { u with code := code } }

/-- A factory is not executed by Redis. -/
def perform (i : ℕ) (transport : Transport) : Option (SharedCache V) :=
  match s.clients[i]? with
  | none => none
  | some u =>
    match u.code.view with
    | .awaits .factory _ => none
    | .awaits c k =>
      let r := s.execute i u c
      match transport with
      | .answered => some (r.1.resume i u (k r.2))
      | .answerLost => some (r.1.resume i u (k (.error LockState.connectionLost)))
      | .requestLost => some (s.resume i u (k (.error LockState.connectionLost)))
    | .settled _ | .running => none

/-- The factory of call `i` settles. -/
def resolve (i : ℕ) (result : Except JsError (Option V)) : Option (SharedCache V) :=
  match s.clients[i]? with
  | none => none
  | some u =>
    match u.code.view with
    | .awaits .factory k => some (s.resume i { u with made := result.toOption } (k result))
    | .awaits _ _ | .settled _ | .running => none

end SharedCache

namespace RedisCacheService

variable {V : Type} (this : RedisCacheService V)

/-- The code of a call; what resolves to nothing resolves to `undefined`. -/
def serve : CacheRequest V → CacheCode V (Option V)
  | .get key => do let v ← this.get key; return some v
  | .set key value ttlSeconds => do this.set key value ttlSeconds; return none
  | .del key => do (del key : CacheCode V Unit); return none
  | .getOrSet key ttlSeconds => this.getOrSet key ttlSeconds

/-- The seconds for which a call asks Redis to keep its value. -/
def requestedTtl : CacheRequest V → Option JsNumber
  | .set _ _ ttlSeconds => some (this.ttl ttlSeconds)
  | .getOrSet _ ttlSeconds => some ttlSeconds
  | .get _ | .del _ => none

def sharedStep (s : SharedCache V) : CacheAction V → Option (SharedCache V)
  | .call request => some
    { s with
      clients := s.clients ++ [⟨request, s.changes.length, s.now, none, this.serve request⟩] }
  | .perform i transport => s.perform i transport
  | .resolve i result => s.resolve i result
  | .tick ms => some { s with now := s.now + ms }

/-! ### Where a call has got to -/

/-- What is sent for a value. -/
def text (value : Option V) : String := (value.map this.json.stringify).getD ""

/-- `get` once its command has settled. -/
def gotten : Except JsError (Option String) → CacheCode V (Option V)
  | .error e => .reject e
  | .ok none => .resolve (some this.json.null)
  | .ok (some raw) => Async.settled ((this.json.parse raw).map some)

/-- A call whose last command is awaited. -/
def ending (value : Option V) : Except JsError Unit → CacheCode V (Option V)
  | .error e => .reject e
  | .ok () => .resolve value

/-- `getOrSet` with what its factory has resolved to. -/
def filling (key : String) (ttlSeconds : JsNumber) (value : Option V) : CacheCode V (Option V) :=
  .await (.set (RedisCacheService.key key) (value.map this.json.stringify) ttlSeconds)
    (ending value)

def factorySettled (key : String) (ttlSeconds : JsNumber) :
    Except JsError (Option V) → CacheCode V (Option V)
  | .error e => .reject e
  | .ok value => this.filling key ttlSeconds value

/-- `getOrSet` once it has found nothing. -/
def making (key : String) (ttlSeconds : JsNumber) : CacheCode V (Option V) :=
  .await .factory (this.factorySettled key ttlSeconds)

/-- `getOrSet` once its `GET` has settled. -/
def looked (key : String) (ttlSeconds : JsNumber) :
    Except JsError (Option String) → CacheCode V (Option V)
  | .error e => .reject e
  | .ok none => this.making key ttlSeconds
  | .ok (some raw) => Async.settled ((this.json.parse raw).map some)

variable (key : String) (value : Option V) (ttl? : Option JsNumber) (ttlSeconds : JsNumber)

/-- A settled promise of a value is one of `some` value. -/
theorem settled_bind_some (r : Except JsError V) :
    ((Async.settled r : CacheCode V V).bind fun v => Async.resolve (some v)) =
      Async.settled (r.map some) := by
  match r with
  | .ok v => rfl
  | .error e => rfl

/-- What each call asks of Redis first, and how it goes on. -/
theorem serve_get : this.serve (.get key) =
    .await (.get (RedisCacheService.key key)) this.gotten := by
  refine Async.await_congr (fun raw => ?_) fun _ => rfl
  match raw with
  | none => rfl
  | some raw => exact settled_bind_some _

theorem serve_set : this.serve (.set key value ttl?) =
    .await (.set (RedisCacheService.key key) (value.map this.json.stringify) (this.ttl ttl?))
      (ending none) :=
  Async.await_congr (fun _ => rfl) fun _ => rfl

theorem serve_del : this.serve (.del key) =
    .await (.del (RedisCacheService.key key)) (ending none) :=
  Async.await_congr (fun _ => rfl) fun _ => rfl

theorem serve_getOrSet : this.serve (.getOrSet key ttlSeconds) =
    .await (.get (RedisCacheService.key key)) (this.looked key ttlSeconds) := by
  refine Async.await_congr (fun raw => ?_) fun _ => rfl
  match raw with
  | some raw => exact settled_bind_some _
  | none =>
    refine Async.await_congr (fun value => ?_) fun _ => rfl
    exact Async.await_congr (fun _ => rfl) fun _ => rfl

/-! ## What a call reads and writes -/

/-- While a call runs: it comes after the first `p` changes, at the instant `r`. -/
structure Between (changes : List (Change V)) (now : ℕ) (u : CacheClient V) (p r : ℕ) : Prop where
  seen_le : u.seen ≤ p
  le_length : p ≤ changes.length
  calledAt_le : u.calledAt ≤ r
  le_now : r ≤ now
  before : ∀ c ∈ changes.take p, c.since ≤ r
  after : ∀ c ∈ changes.drop p, r ≤ c.since

/-- The call has read its key while it runs, and has found this. -/
def Finds (changes : List (Change V)) (now : ℕ) (u : CacheClient V) (p : ℕ)
    (found : Option (Change V)) : Prop :=
  ∃ r, Between changes now u p r ∧
    cachedAt (changes.take p) (RedisCacheService.key u.request.key) r = found

/-- The call is a `set` of the value, or a `getOrSet` whose factory has resolved to it. -/
def Sends (u : CacheClient V) (value : Option V) : Prop :=
  match u.request with
  | .set _ value' _ => value' = value
  | .getOrSet .. => u.made = some value
  | .get _ | .del _ => False

/-- The change is what the call asks for. -/
inductive Stems (this : RedisCacheService V) (u : CacheClient V) (c : Change V) : Prop
  | wrote (ttlSeconds : JsNumber) (n : ℕ) (hsends : Sends u c.value)
    (hfull : c.full = RedisCacheService.key u.request.key)
    (httl : this.requestedTtl u.request = some ttlSeconds)
    (hseconds : expireSeconds ttlSeconds = .ok n) (hlapse : c.lapse = some (c.since + 1000 * n))
  | deleted (key : String) (hrequest : u.request = .del key)
    (hfull : c.full = RedisCacheService.key key) (hlapse : c.lapse = none)

/-- What call `i` has resolved to, from what it has read and written: a `get` from one reading, a
`getOrSet` from one reading or from its own factory, whose value it has written after a reading
that found nothing; a `set` and a `del` have made their change. -/
inductive Explained (this : RedisCacheService V) (changes : List (Change V)) (now i : ℕ)
    (u : CacheClient V) : Option V → Prop
  | missed (key : String) (p : ℕ) (hrequest : u.request = .get key)
    (hmiss : Finds changes now u p none) : Explained this changes now i u (some this.json.null)
  | hit (p : ℕ) (c : Change V) (v : V) (hreads : u.request.reads = true)
    (hfound : Finds changes now u p (some c)) (hvalue : c.value = some v) :
    Explained this changes now i u (some v)
  | filled (key : String) (ttlSeconds : JsNumber) (value : Option V) (p q : ℕ) (c : Change V)
    (hrequest : u.request = .getOrSet key ttlSeconds) (hmiss : Finds changes now u p none)
    (hmade : u.made = some value) (hpq : p ≤ q) (hq : changes[q]? = some c) (hcaller : c.caller = i)
    (hvalue : c.value = value) : Explained this changes now i u value
  | changed (q : ℕ) (c : Change V) (hrequest : (∃ key, u.request = .del key) ∨
      ∃ key value ttl?, u.request = .set key value ttl?)
    (hseen : u.seen ≤ q) (hq : changes[q]? = some c) (hcaller : c.caller = i) :
    Explained this changes now i u none

/-- Where call `i` is: it awaits its first command; or, as a `getOrSet` that has found nothing, its
factory, or the command that writes; or it has settled. -/
inductive Stage (this : RedisCacheService V) (changes : List (Change V)) (now i : ℕ)
    (u : CacheClient V) : Prop
  | asks (hcode : u.code = this.serve u.request) (hmade : u.made = none)
    (hfresh : i ∉ changes.map Change.caller)
  | makes (key : String) (ttlSeconds : JsNumber) (p : ℕ)
    (hrequest : u.request = .getOrSet key ttlSeconds)
    (hcode : u.code = this.making key ttlSeconds) (hmade : u.made = none)
    (hfresh : i ∉ changes.map Change.caller) (hmiss : Finds changes now u p none)
  | fills (key : String) (ttlSeconds : JsNumber) (value : Option V) (p : ℕ)
    (hrequest : u.request = .getOrSet key ttlSeconds)
    (hcode : u.code = this.filling key ttlSeconds value) (hmade : u.made = some value)
    (hfresh : i ∉ changes.map Change.caller) (hmiss : Finds changes now u p none)
  | done (result : Except JsError (Option V)) (hcode : u.code = Async.settled result)
    (hexplained : ∀ value, result = .ok value → Explained this changes now i u value)

section Later

variable {this} {changes more : List (Change V)} {now now' i p r : ℕ} {u : CacheClient V}
  {found : Option (Change V)} {value : Option V}

/-- Changes that are made later leave what a call has read as it was. -/
theorem Between.later (h : Between changes now u p r) (hnow : now ≤ now')
    (hmore : ∀ c ∈ more, now ≤ c.since) : Between (changes ++ more) now' u p r where
  seen_le := h.seen_le
  le_length := by
    rw [List.length_append]
    exact Nat.le_add_right_of_le h.le_length
  calledAt_le := h.calledAt_le
  le_now := h.le_now.trans hnow
  before := by
    rw [List.take_append_of_le_length h.le_length]
    exact h.before
  after := by
    rw [List.drop_append_of_le_length h.le_length]
    intro c hc
    rcases List.mem_append.mp hc with hc | hc
    · exact h.after c hc
    · exact h.le_now.trans (hmore c hc)

/-- What a call has found stays found, whatever changes come after it. -/
theorem Finds.later (h : Finds changes now u p found) (hnow : now ≤ now')
    (hmore : ∀ c ∈ more, now ≤ c.since) : Finds (changes ++ more) now' u p found := by
  obtain ⟨r, hbetween, hfound⟩ := h
  refine ⟨r, hbetween.later hnow hmore, ?_⟩
  rw [List.take_append_of_le_length hbetween.le_length]
  exact hfound

/-- A change keeps its place. -/
theorem getElem?_later {q : ℕ} {c : Change V} (h : changes[q]? = some c) :
    (changes ++ more)[q]? = some c := by
  rw [List.getElem?_append_left (List.getElem?_eq_some_iff.mp h).1]
  exact h

/-- A value that is explained stays explained. -/
theorem Explained.later (h : Explained this changes now i u value) (hnow : now ≤ now')
    (hmore : ∀ c ∈ more, now ≤ c.since) : Explained this (changes ++ more) now' i u value := by
  match h with
  | .missed key p hrequest hmiss => exact .missed key p hrequest (hmiss.later hnow hmore)
  | .hit p c v hreads hfound hvalue =>
    exact .hit p c v hreads (hfound.later hnow hmore) hvalue
  | .filled key ttlSeconds value p q c hrequest hmiss hmade hpq hq hcaller hvalue =>
    exact .filled key ttlSeconds value p q c hrequest (hmiss.later hnow hmore) hmade hpq
      (getElem?_later hq) hcaller hvalue
  | .changed q c hrequest hseen hq hcaller =>
    exact .changed q c hrequest hseen (getElem?_later hq) hcaller

/-- A call that does not move keeps its stage. -/
theorem Stage.later (h : Stage this changes now i u) (hnow : now ≤ now')
    (hmore : ∀ c ∈ more, now ≤ c.since) (hother : i ∉ more.map Change.caller) :
    Stage this (changes ++ more) now' i u := by
  have hboth : i ∉ changes.map Change.caller → i ∉ (changes ++ more).map Change.caller := by
    intro hfresh
    rw [List.map_append, List.mem_append]
    exact not_or.mpr ⟨hfresh, hother⟩
  match h with
  | .asks hcode hmade hfresh => exact .asks hcode hmade (hboth hfresh)
  | .makes key ttlSeconds p hrequest hcode hmade hfresh hmiss =>
    exact .makes key ttlSeconds p hrequest hcode hmade (hboth hfresh) (hmiss.later hnow hmore)
  | .fills key ttlSeconds value p hrequest hcode hmade hfresh hmiss =>
    exact .fills key ttlSeconds value p hrequest hcode hmade (hboth hfresh)
      (hmiss.later hnow hmore)
  | .done result hcode hexplained =>
    exact .done result hcode fun value hvalue => (hexplained value hvalue).later hnow hmore

end Later

/-! ## The invariant -/

/-- The store is the abstract cache, no call has made two changes, each change is what its caller
asks for, and every call is at one of its places. -/
structure Sharing (this : RedisCacheService V) (s : SharedCache V) : Prop where
  stored : ∀ full, s.store full = (lastChange s.changes full).bind fun c =>
    c.lapse.map fun t => ⟨this.text c.value, some t⟩
  past : ∀ c ∈ s.changes, c.since ≤ s.now
  once : (s.changes.map Change.caller).Nodup
  stems : ∀ c ∈ s.changes, ∃ u, s.clients[c.caller]? = some u ∧ Stems this u c
  called : ∀ u ∈ s.clients, u.seen ≤ s.changes.length ∧ u.calledAt ≤ s.now
  stage : ∀ i u, s.clients[i]? = some u → Stage this s.changes s.now i u

section Invariant

variable {this} {s s' : SharedCache V} {i : ℕ} {u u' : CacheClient V} {full : String}
  {c : Change V} {result : Except JsError (Option V)}

/-- `GET` finds the text of what counts in the abstract cache. -/
theorem Sharing.get (h : Sharing this s) (full : String) :
    s.store.get s.now full = (cachedAt s.changes full s.now).map fun c => this.text c.value := by
  rw [KeyValue.get, KeyValue.entry, h.stored, cachedAt]
  cases lastChange s.changes full with
  | none => rfl
  | some c =>
    cases hlapse : c.lapse with
    | none => simp [Option.filter, Change.live, hlapse]
    | some t =>
      by_cases hlive : s.now ≤ t
      · simp [Option.filter, Change.live, KeyValue.Entry.live, hlapse, hlive]
      · simp [Option.filter, Change.live, KeyValue.Entry.live, hlapse, hlive]

/-- A call that reads now comes after all changes so far. -/
theorem Sharing.finds (h : Sharing this s) (hu : u ∈ s.clients) :
    Finds s.changes s.now u s.changes.length
      (cachedAt s.changes (RedisCacheService.key u.request.key) s.now) := by
  obtain ⟨hseen, hcalled⟩ := h.called u hu
  refine ⟨s.now, ⟨hseen, le_refl _, hcalled, le_refl _, ?_, ?_⟩, ?_⟩
  · rw [List.take_length]
    exact h.past
  · rw [List.drop_length]
    exact fun c hc => absurd hc List.not_mem_nil
  · rw [List.take_length]

theorem mem_of_client (h : s.clients[i]? = some u) : u ∈ s.clients := List.mem_of_getElem? h

/-- What is kept when a call goes on. -/
structure Goes (u u' : CacheClient V) : Prop where
  request : u'.request = u.request
  seen : u'.seen = u.seen
  calledAt : u'.calledAt = u.calledAt
  made : ∀ value, u.made = some value → u'.made = some value

/-- What a call has found it keeps as it goes on. -/
theorem Finds.goes {changes : List (Change V)} {now p : ℕ} {found : Option (Change V)}
    (h : Finds changes now u p found) (hgoes : Goes u u') : Finds changes now u' p found := by
  obtain ⟨r, hbetween, hfound⟩ := h
  refine ⟨r, ⟨hgoes.seen ▸ hbetween.seen_le, hbetween.le_length,
    hgoes.calledAt ▸ hbetween.calledAt_le, hbetween.le_now, hbetween.before, hbetween.after⟩, ?_⟩
  rw [hgoes.request]
  exact hfound

/-- It sends the same value. -/
theorem Goes.sends (hgoes : Goes u u') {value : Option V} (h : Sends u value) : Sends u' value := by
  unfold Sends at h ⊢
  rw [hgoes.request]
  match hrequest : u.request with
  | .getOrSet key ttlSeconds =>
    rw [hrequest] at h
    exact hgoes.made _ h
  | .set key value' ttl? =>
    rw [hrequest] at h
    exact h
  | .get _ | .del _ =>
    rw [hrequest] at h
    exact h

/-- Its changes stay what it asks for. -/
theorem Goes.stems (hgoes : Goes u u') (h : Stems this u c) : Stems this u' c := by
  match h with
  | .wrote ttlSeconds n hsends hfull httl hseconds hlapse =>
    exact .wrote ttlSeconds n (hgoes.sends hsends) (hgoes.request ▸ hfull) (hgoes.request ▸ httl)
      hseconds hlapse
  | .deleted key hrequest hfull hlapse =>
    exact .deleted key (hgoes.request.trans hrequest) hfull hlapse

/-- Client `i` of the state that call `i` goes on to. -/
theorem clients_set {j : ℕ} {v : CacheClient V} (hu : s.clients[i]? = some u)
    (hv : (s.clients.set i u')[j]? = some v) :
    (j = i ∧ v = u') ∨ (j ≠ i ∧ s.clients[j]? = some v) := by
  by_cases hij : j = i
  · subst hij
    rw [List.getElem?_set_self (List.getElem?_eq_some_iff.mp hu).1] at hv
    exact Or.inl ⟨rfl, (Option.some.inj hv).symm⟩
  · rw [List.getElem?_set_ne (Ne.symm hij)] at hv
    exact Or.inr ⟨hij, hv⟩

/-- The caller of a change is still there. -/
theorem stems_set (hu : s.clients[i]? = some u) (hgoes : Goes u u') {v : CacheClient V}
    (hv : s.clients[c.caller]? = some v) (hstems : Stems this v c) :
    ∃ v, (s.clients.set i u')[c.caller]? = some v ∧ Stems this v c := by
  by_cases hij : c.caller = i
  · rw [hij] at hv ⊢
    obtain rfl := Option.some.inj (hu.symm.trans hv)
    exact ⟨u', List.getElem?_set_self (List.getElem?_eq_some_iff.mp hu).1, hgoes.stems hstems⟩
  · exact ⟨v, by rw [List.getElem?_set_ne (Ne.symm hij)]; exact hv, hstems⟩

/-- Each call was made before now, and has seen no more changes than there are. -/
theorem called_set (h : Sharing this s) (hu : s.clients[i]? = some u) (hgoes : Goes u u')
    {v : CacheClient V} (hv : v ∈ s.clients.set i u') :
    v.seen ≤ s.changes.length ∧ v.calledAt ≤ s.now := by
  rcases List.mem_or_eq_of_mem_set hv with hv | rfl
  · exact h.called v hv
  · rw [hgoes.seen, hgoes.calledAt]
    exact h.called u (mem_of_client hu)

/-- A call goes on without a change. -/
theorem Sharing.proceed (h : Sharing this s) (hu : s.clients[i]? = some u) (hgoes : Goes u u')
    (hstage : Stage this s.changes s.now i u') :
    Sharing this { s with clients := s.clients.set i u' } where
  stored := h.stored
  past := h.past
  once := h.once
  stems c hc := by
    obtain ⟨v, hv, hstems⟩ := h.stems c hc
    exact stems_set hu hgoes hv hstems
  called _ hv := called_set h hu hgoes hv
  stage j v hv := by
    rcases clients_set hu hv with ⟨rfl, rfl⟩ | ⟨-, hv⟩
    · exact hstage
    · exact h.stage j v hv

/-- A call makes its change. -/
theorem Sharing.change (h : Sharing this s) (hu : s.clients[i]? = some u) (hgoes : Goes u u')
    (hfresh : i ∉ s.changes.map Change.caller) (hcaller : c.caller = i) (hsince : c.since = s.now)
    (hstems : Stems this u' c) (hstage : Stage this (s.changes ++ [c]) s.now i u')
    {store : KeyValue String String}
    (hself : store c.full = c.lapse.map fun t => ⟨this.text c.value, some t⟩)
    (hother : ∀ full, full ≠ c.full → store full = s.store full) :
    Sharing this { s with
      store := store, clients := s.clients.set i u', changes := s.changes ++ [c] } where
  stored full := by
    by_cases hfull : c.full = full
    · rw [lastChange_concat_self hfull, ← hfull]
      exact hself
    · rw [lastChange_concat_ne hfull]
      exact (hother full (Ne.symm hfull)).trans (h.stored full)
  past c' hc' := by
    rcases List.mem_append.mp hc' with hc' | hc'
    · exact h.past c' hc'
    · rw [List.mem_singleton.mp hc', hsince]
  once := by
    rw [List.map_append, List.nodup_append]
    refine ⟨h.once, by simp, fun j hj k hk => ?_⟩
    rintro rfl
    rw [List.map_singleton, List.mem_singleton, hcaller] at hk
    exact hfresh (hk ▸ hj)
  stems c' hc' := by
    rcases List.mem_append.mp hc' with hc' | hc'
    · obtain ⟨v, hv, hstems'⟩ := h.stems c' hc'
      exact stems_set hu hgoes hv hstems'
    · rw [List.mem_singleton.mp hc', hcaller]
      exact ⟨u', List.getElem?_set_self (List.getElem?_eq_some_iff.mp hu).1, hstems⟩
  called v hv := by
    obtain ⟨hseen, hcalled⟩ := called_set h hu hgoes hv
    exact ⟨by rw [List.length_append]; exact Nat.le_add_right_of_le hseen, hcalled⟩
  stage j v hv := by
    rcases clients_set hu hv with ⟨rfl, rfl⟩ | ⟨hji, hv⟩
    · exact hstage
    · refine (h.stage j v hv).later (le_refl _) (fun c' hc' => ?_) ?_
      · rw [List.mem_singleton.mp hc', hsince]
      · rw [List.map_singleton, List.mem_singleton, hcaller]
        exact hji

/-! ### Steps -/

/-- A command that a call awaits has settled: the command has been lost, or Redis has executed it
and its reply has come or has been lost. -/
inductive Executed (s : SharedCache V) (i : ℕ) (u : CacheClient V) (c : CacheCall) :
    SharedCache V → Except JsError (c.Reply V) → Prop
  | requestLost (e : JsError) : Executed s i u c s (.error e)
  | answerLost (e : JsError) : Executed s i u c (s.execute i u c).1 (.error e)
  | answered : Executed s i u c (s.execute i u c).1 (s.execute i u c).2

/-- A step of call `i` executes the command that it awaits. -/
theorem perform_eq_some {transport : Transport} (h : s.perform i transport = some s') :
    ∃ u c k s₁ reply, s.clients[i]? = some u ∧ u.code = .await c k ∧ c ≠ .factory ∧
      Executed s i u c s₁ reply ∧ s' = s₁.resume i u (k reply) := by
  unfold SharedCache.perform at h
  match hu : s.clients[i]? with
  | none =>
    simp only [hu] at h
    exact nomatch h
  | some u =>
    simp only [hu] at h
    match hcode : u.code with
    | .resolve a | .reject e | .pending =>
      rw [hcode] at h
      exact nomatch h
    | .await .factory k =>
      rw [hcode] at h
      exact nomatch h
    | .await (.get full) k | .await (.set full text ttlSeconds) k | .await (.del full) k =>
      rw [hcode] at h
      match transport with
      | .answered => exact ⟨u, _, k, _, _, rfl, hcode, nofun, .answered, (Option.some.inj h).symm⟩
      | .answerLost =>
        exact ⟨u, _, k, _, _, rfl, hcode, nofun, .answerLost _, (Option.some.inj h).symm⟩
      | .requestLost =>
        exact ⟨u, _, k, _, _, rfl, hcode, nofun, .requestLost _, (Option.some.inj h).symm⟩

/-- The factory of call `i` settles while the call awaits it. -/
theorem resolve_eq_some (h : s.resolve i result = some s') :
    ∃ u k, s.clients[i]? = some u ∧ u.code = .await .factory k ∧
      s' = s.resume i { u with made := result.toOption } (k result) := by
  unfold SharedCache.resolve at h
  match hu : s.clients[i]? with
  | none =>
    simp only [hu] at h
    exact nomatch h
  | some u =>
    simp only [hu] at h
    match hcode : u.code with
    | .await .factory k =>
      rw [hcode] at h
      exact ⟨u, k, rfl, hcode, (Option.some.inj h).symm⟩
    | .resolve a | .reject e | .pending | .await (.get _) _ | .await (.set ..) _
    | .await (.del _) _ =>
      rw [hcode] at h
      exact nomatch h

/-- The code of a client does not tell what it keeps. -/
theorem goes_code (u : CacheClient V) (code : CacheCode V (Option V)) :
    Goes u { u with code := code } := ⟨rfl, rfl, rfl, fun _ h => h⟩

/-- `GET` leaves everything as it is. -/
theorem execute_get (full : String) : s.execute i u (.get full) =
    (s, .ok (s.store.get s.now full)) := by
  rw [SharedCache.execute, SharedCache.changeBy, Option.toList_none, List.append_nil]
  rfl

/-- A `GET` changes nothing; it reads the entry or rejects. -/
theorem executed_get {reply : Except JsError (Option String)} {s₁ : SharedCache V}
    (h : Executed s i u (.get full) s₁ reply) : s₁ = s ∧
      ((∃ e, reply = .error e) ∨ reply = .ok (s.store.get s.now full)) := by
  match h with
  | .requestLost e => exact ⟨rfl, Or.inl ⟨e, rfl⟩⟩
  | .answerLost e =>
    rw [execute_get]
    exact ⟨rfl, Or.inl ⟨e, rfl⟩⟩
  | .answered =>
    rw [execute_get]
    exact ⟨rfl, Or.inr rfl⟩

/-- The last command decides how the call settles. -/
theorem ending_eq (value : Option V) (reply : Except JsError Unit) :
    ending value reply = Async.settled (reply.map fun _ => value) := by
  match reply with
  | .ok () => rfl
  | .error e => rfl

/-- A `SET` whose expiry Redis accepts is a write. -/
theorem execute_set_ok {full : String} {raw : Option String} {ttlSeconds : JsNumber} {n : ℕ}
    (hn : expireSeconds ttlSeconds = .ok n) : s.execute i u (.set full raw ttlSeconds) =
      ({ s with
        store := s.store.set full (raw.getD "") (some (s.now + 1000 * n))
        changes := s.changes ++ [s.writeOf i u.sent full n] }, .ok ()) := by
  simp only [SharedCache.execute, SharedCache.changeBy, CacheState.execute, hn]
  rfl

/-- A `SET` whose expiry Redis does not accept changes nothing. -/
theorem execute_set_error {full : String} {raw : Option String} {ttlSeconds : JsNumber}
    {e : JsError} (hn : expireSeconds ttlSeconds = .error e) :
    s.execute i u (.set full raw ttlSeconds) = (s, .error e) := by
  simp only [SharedCache.execute, SharedCache.changeBy, CacheState.execute, hn]
  rw [Option.toList_none, List.append_nil]

/-- A `SET` writes, or it rejects and may have written all the same. -/
theorem executed_set {full : String} {raw : Option String} {ttlSeconds : JsNumber}
    {reply : Except JsError Unit} {s₁ : SharedCache V}
    (h : Executed s i u (.set full raw ttlSeconds) s₁ reply) :
    (s₁ = s ∧ ∃ e, reply = .error e) ∨
    ∃ n, expireSeconds ttlSeconds = .ok n ∧ s₁ = { s with
      store := s.store.set full (raw.getD "") (some (s.now + 1000 * n))
      changes := s.changes ++ [s.writeOf i u.sent full n] } := by
  cases hn : expireSeconds ttlSeconds with
  | error e =>
    match h with
    | .requestLost e => exact Or.inl ⟨rfl, e, rfl⟩
    | .answered =>
      rw [execute_set_error hn]
      exact Or.inl ⟨rfl, e, rfl⟩
    | .answerLost e' =>
      rw [execute_set_error hn]
      exact Or.inl ⟨rfl, e', rfl⟩
  | ok n =>
    match h with
    | .requestLost e => exact Or.inl ⟨rfl, e, rfl⟩
    | .answered | .answerLost e =>
      rw [execute_set_ok hn]
      exact Or.inr ⟨n, rfl, rfl⟩

/-- A `DEL` deletes; it may reject all the same. -/
theorem executed_del {full : String} {reply : Except JsError Unit} {s₁ : SharedCache V}
    (h : Executed s i u (.del full) s₁ reply) :
    (s₁ = s ∧ ∃ e, reply = .error e) ∨ s₁ = { s with
      store := s.store.del full, changes := s.changes ++ [⟨full, i, none, s.now, none⟩] } := by
  match h with
  | .requestLost e => exact Or.inl ⟨rfl, e, rfl⟩
  | .answered | .answerLost e => exact Or.inr rfl

/-- What the step of call `i` does. -/
inductive Moves (this : RedisCacheService V) (s : SharedCache V) (i : ℕ) (u : CacheClient V) :
    SharedCache V → Prop
  | rejects (made : Option (Option V)) (e : JsError) (hmade : u.made = none ∨ made = u.made) :
    Moves this s i u (s.resume i { u with made := made } (.reject e))
  | finds (c : Change V) (v : V) (hreads : u.request.reads = true)
    (hcached : cachedAt s.changes (RedisCacheService.key u.request.key) s.now = some c)
    (hvalue : c.value = some v) : Moves this s i u (s.resume i u (.resolve (some v)))
  | misses (key : String) (hrequest : u.request = .get key)
    (hcached : cachedAt s.changes (RedisCacheService.key u.request.key) s.now = none) :
    Moves this s i u (s.resume i u (.resolve (some this.json.null)))
  | makes (key : String) (ttlSeconds : JsNumber) (hrequest : u.request = .getOrSet key ttlSeconds)
    (hmade : u.made = none) (hfresh : i ∉ s.changes.map Change.caller)
    (hcached : cachedAt s.changes (RedisCacheService.key u.request.key) s.now = none) :
    Moves this s i u (s.resume i u (this.making key ttlSeconds))
  | fills (key : String) (ttlSeconds : JsNumber) (value : Option V) (p : ℕ)
    (hrequest : u.request = .getOrSet key ttlSeconds) (hcode : u.code = this.making key ttlSeconds)
    (hmade : u.made = none) (hfresh : i ∉ s.changes.map Change.caller)
    (hmiss : Finds s.changes s.now u p none) :
    Moves this s i u
      (s.resume i { u with made := some value } (this.filling key ttlSeconds value))
  | sets (key : String) (value : Option V) (ttl? : Option JsNumber) (n : ℕ)
    (reply : Except JsError Unit) (hrequest : u.request = .set key value ttl?)
    (hcode : u.code = this.serve u.request) (hfresh : i ∉ s.changes.map Change.caller)
    (hn : expireSeconds (this.ttl ttl?) = .ok n) :
    Moves this s i u { s with
      store := s.store.set (RedisCacheService.key key) (this.text value) (some (s.now + 1000 * n))
      clients := s.clients.set i { u with code := ending none reply }
      changes := s.changes ++ [s.writeOf i value (RedisCacheService.key key) n] }
  | filled (key : String) (ttlSeconds : JsNumber) (value : Option V) (p n : ℕ)
    (reply : Except JsError Unit) (hrequest : u.request = .getOrSet key ttlSeconds)
    (hcode : u.code = this.filling key ttlSeconds value) (hmade : u.made = some value)
    (hfresh : i ∉ s.changes.map Change.caller) (hmiss : Finds s.changes s.now u p none)
    (hn : expireSeconds ttlSeconds = .ok n) :
    Moves this s i u { s with
      store := s.store.set (RedisCacheService.key key) (this.text value) (some (s.now + 1000 * n))
      clients := s.clients.set i { u with code := ending value reply }
      changes := s.changes ++ [s.writeOf i value (RedisCacheService.key key) n] }
  | deletes (key : String) (reply : Except JsError Unit) (hrequest : u.request = .del key)
    (hfresh : i ∉ s.changes.map Change.caller) :
    Moves this s i u { s with
      store := s.store.del (RedisCacheService.key key)
      clients := s.clients.set i { u with code := ending none reply }
      changes := s.changes ++ [⟨RedisCacheService.key key, i, none, s.now, none⟩] }

/-- A call whose command rejects ends there. -/
theorem moves_reject (u : CacheClient V) (e : JsError) :
    Moves this s i u (s.resume i u (.reject e)) := .rejects u.made e (Or.inr rfl)

/-- A `GET` that finds a text: the value that has been cached, and the call returns it. -/
theorem Sharing.moves_found (h : Sharing this s) (hreads : u.request.reads = true) {raw : String}
    (hraw : s.store.get s.now (RedisCacheService.key u.request.key) = some raw) :
    Moves this s i u (s.resume i u (Async.settled ((this.json.parse raw).map some))) := by
  rw [h.get] at hraw
  obtain ⟨c, hc, rfl⟩ := Option.map_eq_some_iff.mp hraw
  match hwritten : c.value with
  | some v =>
    rw [text, Option.map_some, Option.getD_some, this.json.parse_stringify]
    exact .finds c v hreads hc hwritten
  | none =>
    obtain ⟨e, he⟩ := this.json.parse_empty
    rw [text, Option.map_none, Option.getD_none, he]
    exact moves_reject u e

/-- Where Redis has no entry, no write counts. -/
theorem Sharing.cached_none (h : Sharing this s) {full : String}
    (hraw : s.store.get s.now full = none) : cachedAt s.changes full s.now = none := by
  rw [h.get, Option.map_eq_none_iff] at hraw
  exact hraw

/-- The first command of a call. -/
theorem Sharing.moves_asked (h : Sharing this s) (hcode : u.code = this.serve u.request)
    (hmade : u.made = none) (hfresh : i ∉ s.changes.map Change.caller) {c : CacheCall}
    {k : Except JsError (c.Reply V) → CacheCode V (Option V)} (hawaits : u.code = .await c k)
    {reply : Except JsError (c.Reply V)} {s₁ : SharedCache V}
    (hexecuted : Executed s i u c s₁ reply) : Moves this s i u (s₁.resume i u (k reply)) := by
  have hfirst := hcode.symm.trans hawaits
  match hrequest : u.request with
  | .get key =>
    rw [hrequest, serve_get] at hfirst
    obtain ⟨rfl, rfl⟩ := Async.await.inj hfirst
    obtain ⟨rfl, ⟨e, rfl⟩ | rfl⟩ := executed_get hexecuted
    · exact moves_reject u e
    · have hkey : key = u.request.key := by rw [hrequest, CacheRequest.key]
      rw [hkey]
      match hraw : s₁.store.get s₁.now (RedisCacheService.key u.request.key) with
      | some raw => exact h.moves_found (by rw [hrequest]; rfl) hraw
      | none => exact .misses key hrequest (h.cached_none hraw)
  | .set key value ttl? =>
    rw [hrequest, serve_set] at hfirst
    obtain ⟨rfl, rfl⟩ := Async.await.inj hfirst
    rcases executed_set hexecuted with ⟨rfl, e, rfl⟩ | ⟨n, hn, rfl⟩
    · exact moves_reject u e
    · have hsent : u.sent = value := by rw [CacheClient.sent, hrequest]
      rw [hsent]
      exact .sets key value ttl? n reply hrequest hcode hfresh hn
  | .del key =>
    rw [hrequest, serve_del] at hfirst
    obtain ⟨rfl, rfl⟩ := Async.await.inj hfirst
    rcases executed_del hexecuted with ⟨rfl, e, rfl⟩ | rfl
    · exact moves_reject u e
    · exact .deletes key reply hrequest hfresh
  | .getOrSet key ttlSeconds =>
    rw [hrequest, serve_getOrSet] at hfirst
    obtain ⟨rfl, rfl⟩ := Async.await.inj hfirst
    obtain ⟨rfl, ⟨e, rfl⟩ | rfl⟩ := executed_get hexecuted
    · exact moves_reject u e
    · have hkey : RedisCacheService.key key = RedisCacheService.key u.request.key := by
        rw [hrequest, CacheRequest.key]
      rw [hkey]
      match hraw : s₁.store.get s₁.now (RedisCacheService.key u.request.key) with
      | some raw => exact h.moves_found (by rw [hrequest]; rfl) hraw
      | none => exact .makes key ttlSeconds hrequest hmade hfresh (h.cached_none hraw)

/-- The step of a call that awaits a command. -/
theorem Sharing.moves_performed (h : Sharing this s) {transport : Transport}
    (hstep : s.perform i transport = some s') :
    ∃ u, s.clients[i]? = some u ∧ Moves this s i u s' := by
  obtain ⟨u, c, k, s₁, reply, hu, hawaits, hfactory, hexecuted, rfl⟩ := perform_eq_some hstep
  refine ⟨u, hu, ?_⟩
  match h.stage i u hu with
  | .asks hcode hmade hfresh => exact h.moves_asked hcode hmade hfresh hawaits hexecuted
  | .makes key ttlSeconds p hrequest hcode hmade hfresh hmiss =>
    obtain ⟨rfl, -⟩ := Async.await.inj (hcode.symm.trans hawaits)
    exact absurd rfl hfactory
  | .fills key ttlSeconds value p hrequest hcode hmade hfresh hmiss =>
    obtain ⟨rfl, hk⟩ := Async.await.inj (hcode.symm.trans hawaits)
    obtain rfl := eq_of_heq hk
    rcases executed_set hexecuted with ⟨rfl, e, rfl⟩ | ⟨n, hn, rfl⟩
    · exact moves_reject u e
    · have hsent : u.sent = value := by
        rw [CacheClient.sent, hrequest, hmade]
        rfl
      rw [hsent]
      exact .filled key ttlSeconds value p n reply hrequest hcode hmade hfresh hmiss hn
  | .done result hcode hexplained =>
    match result with
    | .ok value => exact nomatch hcode.symm.trans hawaits
    | .error e => exact nomatch hcode.symm.trans hawaits

/-- The first command of a call goes to Redis. -/
theorem serve_eq_await (request : CacheRequest V) :
    ∃ c k, this.serve request = .await c k ∧ c ≠ .factory := by
  match request with
  | .get key => exact ⟨_, _, serve_get this key, nofun⟩
  | .set key value ttl? => exact ⟨_, _, serve_set this key value ttl?, nofun⟩
  | .del key => exact ⟨_, _, serve_del this key, nofun⟩
  | .getOrSet key ttlSeconds => exact ⟨_, _, serve_getOrSet this key ttlSeconds, nofun⟩

/-- The factory of a call settles. -/
theorem Sharing.moves_resolved (h : Sharing this s) (hstep : s.resolve i result = some s') :
    ∃ u, s.clients[i]? = some u ∧ Moves this s i u s' := by
  obtain ⟨u, k, hu, hawaits, rfl⟩ := resolve_eq_some hstep
  refine ⟨u, hu, ?_⟩
  match h.stage i u hu with
  | .makes key ttlSeconds p hrequest hcode hmade hfresh hmiss =>
    obtain ⟨-, hk⟩ := Async.await.inj (hcode.symm.trans hawaits)
    obtain rfl := eq_of_heq hk
    match result with
    | .ok value => exact .fills key ttlSeconds value p hrequest hcode hmade hfresh hmiss
    | .error e => exact .rejects _ e (Or.inl hmade)
  | .asks hcode hmade hfresh =>
    obtain ⟨c, k', hserve, hfactory⟩ := this.serve_eq_await u.request
    obtain ⟨rfl, -⟩ := Async.await.inj (hserve.symm.trans (hcode.symm.trans hawaits))
    exact absurd rfl hfactory
  | .fills key ttlSeconds value p hrequest hcode hmade hfresh hmiss =>
    exact nomatch hcode.symm.trans hawaits
  | .done result hcode hexplained =>
    match result with
    | .ok value => exact nomatch hcode.symm.trans hawaits
    | .error e => exact nomatch hcode.symm.trans hawaits

/-- A factory that settles moves its call on. -/
theorem goes_made (hmade : u.made = none) (made : Option (Option V))
    (code : CacheCode V (Option V)) : Goes u { u with made := made, code := code } :=
  ⟨rfl, rfl, rfl, fun _ hvalue => nomatch hmade.symm.trans hvalue⟩

/-- A call whose last command has settled resolves to what is explained. -/
theorem ending_explained {changes : List (Change V)} {now : ℕ} {value : Option V}
    {reply : Except JsError Unit} (h : Explained this changes now i u' value)
    (hcode : u'.code = ending value reply) : Stage this changes now i u' := by
  refine .done _ (hcode.trans (ending_eq value reply)) fun value' hvalue => ?_
  match reply with
  | .ok () =>
    obtain rfl : value = value' := Except.ok.inj hvalue
    exact h
  | .error e => exact nomatch hvalue

/-- The invariant is kept by each move of a call. -/
theorem Sharing.moves (h : Sharing this s) (hu : s.clients[i]? = some u)
    (hmoves : Moves this s i u s') : Sharing this s' := by
  have hfinds := h.finds (mem_of_client hu)
  match hmoves with
  | .rejects made e hmade =>
    refine h.proceed hu (?_ : Goes u _) (.done (.error e) rfl fun _ hvalue => nomatch hvalue)
    rcases hmade with hmade | rfl
    · exact goes_made hmade made _
    · exact goes_code u _
  | .finds c v hreads hcached hvalue =>
    rw [hcached] at hfinds
    refine h.proceed hu (goes_code u _) (.done (.ok (some v)) rfl fun value hv => ?_)
    obtain rfl := Except.ok.inj hv
    exact .hit _ c v hreads (hfinds.goes (goes_code u _)) hvalue
  | .misses key hrequest hcached =>
    rw [hcached] at hfinds
    refine h.proceed hu (goes_code u _) (.done (.ok _) rfl fun value hv => ?_)
    obtain rfl := Except.ok.inj hv
    exact .missed key _ hrequest (hfinds.goes (goes_code u _))
  | .makes key ttlSeconds hrequest hmade hfresh hcached =>
    rw [hcached] at hfinds
    exact h.proceed hu (goes_code u _)
      (.makes key ttlSeconds _ hrequest rfl hmade hfresh (hfinds.goes (goes_code u _)))
  | .fills key ttlSeconds value p hrequest hcode hmade hfresh hmiss =>
    exact h.proceed hu (goes_made hmade _ _)
      (.fills key ttlSeconds value p hrequest rfl rfl hfresh (hmiss.goes (goes_made hmade _ _)))
  | .sets key value ttl? n reply hrequest hcode hfresh hn =>
    have hstems : Stems this u (s.writeOf i value (RedisCacheService.key key) n) := by
      refine .wrote (this.ttl ttl?) n ?_ ?_ ?_ hn rfl
      · rw [Sends, hrequest]
        rfl
      · rw [hrequest]
        rfl
      · rw [hrequest]
        rfl
    refine h.change hu (goes_code u (ending none reply)) hfresh rfl rfl
      ((goes_code u _).stems hstems) (ending_explained ?_ rfl) KeyValue.set_self
      fun full hfull => KeyValue.set_ne hfull
    exact .changed s.changes.length _ (Or.inr ⟨key, value, ttl?, hrequest⟩)
      (h.called u (mem_of_client hu)).1 (List.getElem?_concat_length ..) rfl
  | .filled key ttlSeconds value p n reply hrequest hcode hmade hfresh hmiss hn =>
    have hstems : Stems this u (s.writeOf i value (RedisCacheService.key key) n) := by
      refine .wrote ttlSeconds n ?_ ?_ ?_ hn rfl
      · rw [Sends, hrequest]
        exact hmade
      · rw [hrequest]
        rfl
      · rw [hrequest]
        rfl
    refine h.change hu (goes_code u (ending value reply)) hfresh rfl rfl
      ((goes_code u _).stems hstems) (ending_explained ?_ rfl) KeyValue.set_self
      fun full hfull => KeyValue.set_ne hfull
    -- the miss stays what the call has read, before its own write
    have hlater : Finds (s.changes ++ [s.writeOf i value (RedisCacheService.key key) n]) s.now u p
        none :=
      hmiss.later (le_refl _) fun c hc => by rw [List.mem_singleton.mp hc]; exact le_refl _
    obtain ⟨r, hbetween, -⟩ := hmiss
    exact .filled key ttlSeconds value p s.changes.length _ hrequest
      (hlater.goes (goes_code u _)) hmade hbetween.le_length (List.getElem?_concat_length ..)
      rfl rfl
  | .deletes key reply hrequest hfresh =>
    refine h.change hu (goes_code u (ending none reply)) hfresh rfl rfl
      (.deleted key hrequest rfl rfl) (ending_explained ?_ rfl) KeyValue.del_self
      fun full hfull => KeyValue.del_ne hfull
    exact .changed s.changes.length _ (Or.inl ⟨key, hrequest⟩)
      (h.called u (mem_of_client hu)).1 (List.getElem?_concat_length ..) rfl

/-- A call begins. -/
theorem Sharing.call (h : Sharing this s) (request : CacheRequest V) : Sharing this
    { s with
      clients := s.clients ++ [⟨request, s.changes.length, s.now, none, this.serve request⟩] } where
  stored := h.stored
  past := h.past
  once := h.once
  stems c hc := by
    obtain ⟨u, hu, hstems⟩ := h.stems c hc
    exact ⟨u, by rw [List.getElem?_append_left (List.getElem?_eq_some_iff.mp hu).1]; exact hu,
      hstems⟩
  called u hu := by
    rcases List.mem_append.mp hu with hu | hu
    · exact h.called u hu
    · rw [List.mem_singleton.mp hu]
      exact ⟨le_refl _, le_refl _⟩
  stage i u hu := by
    by_cases hlt : i < s.clients.length
    · rw [List.getElem?_append_left hlt] at hu
      exact h.stage i u hu
    · rw [List.getElem?_append_right (Nat.le_of_not_lt hlt), List.getElem?_singleton] at hu
      obtain rfl := Option.some.inj (Option.ite_none_right_eq_some.mp hu).2
      refine .asks rfl rfl fun hmem => ?_
      -- the callers of changes are all there already
      obtain ⟨c, hc, rfl⟩ := List.mem_map.mp hmem
      obtain ⟨v, hv, -⟩ := h.stems c hc
      exact hlt (List.getElem?_eq_some_iff.mp hv).1

/-- It is kept as time goes by. -/
theorem Sharing.tick (h : Sharing this s) (ms : ℕ) :
    Sharing this { s with now := s.now + ms } where
  stored := h.stored
  past c hc := Nat.le_add_right_of_le (h.past c hc)
  once := h.once
  stems := h.stems
  called u hu := ⟨(h.called u hu).1, Nat.le_add_right_of_le (h.called u hu).2⟩
  stage i u hu := by
    have hlater : Stage this (s.changes ++ []) (s.now + ms) i u :=
      (h.stage i u hu).later (Nat.le_add_right s.now ms)
        (fun c hc => absurd hc List.not_mem_nil) List.not_mem_nil
    rw [List.append_nil] at hlater
    exact hlater

/-- Every step begins a call, moves one, or lets time pass. -/
theorem Sharing.cases (h : Sharing this s) {a : CacheAction V}
    (hstep : this.sharedStep s a = some s') :
    (∃ request, s' = { s with
      clients := s.clients ++ [⟨request, s.changes.length, s.now, none, this.serve request⟩] }) ∨
    (∃ i u, s.clients[i]? = some u ∧ Moves this s i u s') ∨
    ∃ ms, s' = { s with now := s.now + ms } := by
  match a with
  | .call request => exact Or.inl ⟨request, (Option.some.inj hstep).symm⟩
  | .perform i transport =>
    obtain ⟨u, hu, hmoves⟩ := h.moves_performed hstep
    exact Or.inr (Or.inl ⟨i, u, hu, hmoves⟩)
  | .resolve i result =>
    obtain ⟨u, hu, hmoves⟩ := h.moves_resolved hstep
    exact Or.inr (Or.inl ⟨i, u, hu, hmoves⟩)
  | .tick ms => exact Or.inr (Or.inr ⟨ms, (Option.some.inj hstep).symm⟩)

/-- It is kept by every step. -/
theorem Sharing.step (h : Sharing this s) {a : CacheAction V}
    (hstep : this.sharedStep s a = some s') : Sharing this s' := by
  rcases h.cases hstep with ⟨request, rfl⟩ | ⟨i, u, hu, hmoves⟩ | ⟨ms, rfl⟩
  · exact h.call request
  · exact h.moves hu hmoves
  · exact h.tick ms

theorem sharing_init : Sharing this .init where
  stored _ := rfl
  past _ hc := absurd hc List.not_mem_nil
  once := List.nodup_nil
  stems _ hc := absurd hc List.not_mem_nil
  called _ hu := absurd hu List.not_mem_nil
  stage _ _ hu := nomatch hu

/-- It holds in every state that is reached. -/
theorem sharing_of_reaches {ok : SharedCache V → CacheAction V → Prop}
    (h : Reaches this.sharedStep ok .init s) : Sharing this s :=
  h.invariant sharing_init fun _ _ _ hu _ hstep => hu.step hstep

/-- A call that has resolved is explained. -/
theorem Stage.explained {changes : List (Change V)} {now : ℕ} {value : Option V}
    (h : Stage this changes now i u) (hresolved : u.code = .resolve value) :
    Explained this changes now i u value := by
  match h with
  | .asks hcode _ _ =>
    obtain ⟨c, k, hserve, -⟩ := this.serve_eq_await u.request
    exact nomatch hserve.symm.trans (hcode.symm.trans hresolved)
  | .makes key ttlSeconds p _ hcode _ _ _ => exact nomatch hcode.symm.trans hresolved
  | .fills key ttlSeconds value p _ hcode _ _ _ => exact nomatch hcode.symm.trans hresolved
  | .done result hcode hexplained =>
    match result with
    | .ok value' =>
      obtain rfl := Async.resolve.inj (hcode.symm.trans hresolved)
      exact hexplained _ rfl
    | .error e => exact nomatch hcode.symm.trans hresolved

/-- Calls that share the cache, in whatever order their commands are executed and whichever replies
get lost: each makes at most one change, which is what it asks for; and what a call resolves to is
explained by one reading and one change of the abstract cache while it runs. -/
theorem calls_linearize (h : Reaches this.sharedStep (fun _ _ => True) .init s) :
    (s.changes.map Change.caller).Nodup ∧
    (∀ c ∈ s.changes, ∃ u, s.clients[c.caller]? = some u ∧ Stems this u c) ∧
    ∀ i u value, s.clients[i]? = some u → u.code = .resolve value →
      Explained this s.changes s.now i u value := by
  have hsharing := sharing_of_reaches h
  exact ⟨hsharing.once, hsharing.stems,
    fun i u value hu hresolved => (hsharing.stage i u hu).explained hresolved⟩

end Invariant

end RedisCacheService

/-- JSON with `null`, `true` and `false`. -/
def flagText : JsonText (Option Bool) where
  stringify
    | none => "null"
    | some true => "true"
    | some false => "false"
  parse text :=
    if text = "null" then .ok none
    else if text = "true" then .ok (some true)
    else if text = "false" then .ok (some false)
    else .error (.error "Unexpected end of JSON input")
  null := none
  parse_stringify v := by
    match v with
    | none => rfl
    | some true => rfl
    | some false => rfl
  parse_empty := ⟨_, rfl⟩

def flags : RedisCacheService (Option Bool) := ⟨flagText, some 60⟩

/-- Two calls find nothing, and both write what their factories have made; a third reads. -/
def twoFactories : List (CacheAction (Option Bool)) :=
  [.call (.getOrSet "k" 30), .call (.getOrSet "k" 30), .perform 0 .answered, .perform 1 .answered,
    .resolve 0 (.ok (some (some false))), .resolve 1 (.ok (some (some true))), .tick 10,
    .perform 1 .answered, .perform 0 .answered, .call (.get "k"), .perform 2 .answered]

/-- What call `i` has resolved to. -/
def SharedCache.resolved {V : Type} (s : SharedCache V) (i : ℕ) : Option (Option V) :=
  match s.clients[i]? with
  | some ⟨_, _, _, _, .resolve value⟩ => some value
  | _ => none

/-- The value of a call is there once its code has resolved. -/
theorem SharedCache.resolved_eq_some {V : Type} {s : SharedCache V} {i : ℕ} {value : Option V}
    (h : s.resolved i = some value) :
    ∃ u, s.clients[i]? = some u ∧ u.code = .resolve value := by
  unfold SharedCache.resolved at h
  split at h
  · rename_i hu
    exact ⟨_, hu, congrArg _ (Option.some.inj h)⟩
  · exact nomatch h

/-- Two `getOrSet` both run their factory, and a `get` after them finds the value of the last write.
-/
theorem calls_linearize_twoFactories :
    ∃ s, Reaches flags.sharedStep (fun _ _ => True) .init s ∧ ∃ u, s.clients[2]? = some u ∧
      flags.Explained s.changes s.now 2 u (some (some false)) := by
  have hrun : (Transition.run flags.sharedStep (fun _ _ => True) .init twoFactories).map
      (fun s => decide (s.resolved 2 = some (some (some false)))) = some true := by
    decide +kernel
  obtain ⟨s, hs, htest⟩ := Transition.exists_reaches_of_run hrun
  obtain ⟨u, hu, hresolved⟩ := SharedCache.resolved_eq_some (of_decide_eq_true htest)
  exact ⟨s, hs, u, hu, (flags.calls_linearize hs).2.2 2 u _ hu hresolved⟩

end NestFastify.Redis.CacheAside
