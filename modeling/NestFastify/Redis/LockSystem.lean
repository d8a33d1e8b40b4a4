import NestFastify.Foundation.Lease
import NestFastify.Foundation.Transition
import NestFastify.Redis.LockService

/-!
# Clients of the lock service over one Redis

Any number of calls of `acquire`, `extend`, `release` and of the watchdog run side by side
on one store with one clock. A step starts a call, executes the next script of one of them
(atomically), answers a local call, or lets time pass. A script's reply may get lost, and
so may the request.

`latest` records, for each lock key, the token of the latest acquireLock that Redis granted
and the expiry that its latest successful script gave it.
-/

namespace NestFastify.Redis

/-- A call some client has made. -/
inductive Task where
  | acquire (service : RedisLockService) (key : String) (ttlMs : JsNumber) (opts : LockOptions)
      (fuel : ℕ)
  | extend (lock : Lock) (ms : JsNumber)
  | renew (lock : Lock) (ttlMs : JsNumber)
  | release (lock : Lock)

/-- What the call resolves to. -/
inductive Outcome where
  | acquired (lock : Option Lock)
  | flag (b : Bool)

/-- The functions of the service alone, without the calls of a body. -/
abbrev Code : Type := Program Empty (fun _ => Empty) Outcome

abbrev CallEvent : Type := LockEvent Empty (fun _ => Empty)

/-- A call together with how far it has got. -/
structure Process where
  task : Task
  past : List CallEvent
  code : Code

/-- The system. `drawnBy` lists, for each token drawn so far, the process that drew it. -/
structure LockState where
  now : ℕ
  store : Store
  drawnBy : List ℕ
  processes : List Process
  latest : String → Option (Lease.Grant Token)

inductive Transport | answered | answerLost | requestLost
deriving DecidableEq

inductive LockAction where
  | acquire (service : RedisLockService) (key : String) (ttlMs : JsNumber) (opts : LockOptions)
      (fuel : ℕ)
  | extend (i : ℕ) (ms : JsNumber)
  | renew (i : ℕ)
  | release (i : ℕ)
  | perform (i : ℕ) (transport : Transport)
  | answer (i : ℕ) (x : ℚ)
  | tick (ms : ℕ)

section System

variable (numberText : JsNumber → String)

def Task.code : Task → Code
  | acquire service key ttlMs opts fuel =>
    Outcome.acquired <$> service.acquire numberText key ttlMs opts fuel
  | extend lock ms => Outcome.flag <$> RedisLockService.extend lock ms
  | renew lock ttlMs => Outcome.flag <$> RedisLockService.renew lock ttlMs
  | release lock => Outcome.flag <$> RedisLockService.release lock

namespace LockState

variable (s : LockState)

/-- The lock object that call `i` has returned. -/
def lockOf (i : ℕ) : Option Lock :=
  match s.processes[i]? with
  | some ⟨_, _, .resolve (.acquired lock)⟩ => lock
  | _ => none

def start (task : Task) : LockState :=
  { s with processes := s.processes ++ [⟨task, [], task.code numberText⟩] }

/-- The number of milliseconds of an expiry argument that was accepted. -/
def millis : JsNumber → ℕ
  | .finite q => q.num.toNat
  | _ => 0

/-- `latest` after an acquireLock with this reply. -/
def recordGrant (lockKey : String) (token : Token) (ttlMs : JsNumber) :
    Except JsError (Option ℤ) → String → Option (Lease.Grant Token)
  | .ok (some _) => Function.update s.latest lockKey (some ⟨token, s.now + millis ttlMs⟩)
  | _ => s.latest

/-- `latest` after an extendLock with this reply. -/
def recordExtend (lockKey : String) (token : Token) (ttlMs : JsNumber) :
    Except JsError ℤ → String → Option (Lease.Grant Token)
  | .ok n =>
    if n = 1 then Function.update s.latest lockKey ((s.latest lockKey).map fun g =>
      if g.holder = token then ⟨token, s.now + millis ttlMs⟩ else g)
    else s.latest
  | .error _ => s.latest

def runAcquire (lockKey fenceKey : String) (token : Token) (ttlMs : JsNumber)
    (fencing : Bool) : LockState × Except JsError (Option ℤ) :=
  let r := acquireLock s.now s.store lockKey fenceKey token ttlMs fencing
  ({ s with store := r.1, latest := s.recordGrant lockKey token ttlMs r.2 }, r.2)

def runExtend (lockKey : String) (token : Token) (ttlMs : JsNumber) :
    LockState × Except JsError ℤ :=
  let r := extendLock s.now s.store lockKey token ttlMs
  ({ s with store := r.1, latest := s.recordExtend lockKey token ttlMs r.2 }, r.2)

def runRelease (lockKey : String) (token : Token) : LockState × Except JsError ℤ :=
  let r := releaseLock s.now s.store lockKey token
  ({ s with store := r.1 }, r.2)

/-- Draw a random token, or execute a script; the reply is for process `i`. -/
def execute (i : ℕ) : (c : LockCall) → Option (LockState × Except JsError c.Reply)
  | .randomBytes => some ({ s with drawnBy := s.drawnBy ++ [i] }, .ok ⟨s.drawnBy.length⟩)
  | .acquireLock _ lockKey fenceKey token ttlMs fencing =>
    some (s.runAcquire lockKey fenceKey token ttlMs fencing)
  | .extendLock _ lockKey token ttlMs => some (s.runExtend lockKey token ttlMs)
  | .releaseLock _ lockKey token => some (s.runRelease lockKey token)
  | _ => none

/-- The reply of a call that does not leave the process. -/
def localReply (x : ℚ) : (c : LockCall) → Option c.Reply
  | .dateNow => some x
  | .mathRandom => some x
  | .sleep _ => some ()
  | .startWatchdog .. => some ()
  | .stopWatchdog _ => some ()
  | _ => none

def connectionLost : JsError := .error "Connection is closed."

/-- Process `i` goes on after its call `c` has settled to `r`. -/
def resume (i : ℕ) (task : Task) (past : List CallEvent) (c : LockCall)
    (k : Except JsError c.Reply → Code) (r : Except JsError c.Reply) : LockState :=
  { s with processes := s.processes.set i ⟨task, past ++ [⟨.inl c, r⟩], k r⟩ }

def perform (i : ℕ) (transport : Transport) : Option LockState :=
  match s.processes[i]? with
  | some ⟨task, past, .await (.inl c) k⟩ =>
    match s.execute i c with
    | some (s', r) =>
      match transport with
      | .answered => some (s'.resume i task past c k r)
      | .answerLost => some (s'.resume i task past c k (.error connectionLost))
      | .requestLost => some (s.resume i task past c k (.error connectionLost))
    | none => none
  | _ => none

def answer (i : ℕ) (x : ℚ) : Option LockState :=
  match s.processes[i]? with
  | some ⟨task, past, .await (.inl c) k⟩ =>
    (localReply x c).map fun r => s.resume i task past c k (.ok r)
  | _ => none

def step : LockAction → Option LockState
  | .acquire service key ttlMs opts fuel =>
    some (s.start numberText (.acquire service key ttlMs opts fuel))
  | .extend i ms => (s.lockOf i).map fun lock => s.start numberText (.extend lock ms)
  | .renew i =>
    match s.lockOf i with
    | some lock => lock.renewMs.map fun ttlMs => s.start numberText (.renew lock ttlMs)
    | none => none
  | .release i => (s.lockOf i).map fun lock => s.start numberText (.release lock)
  | .perform i transport => s.perform i transport
  | .answer i x => s.answer i x
  | .tick ms => some { s with now := s.now + ms }

end LockState

/-! ## Contracts of the calls -/

/-- What a call may do besides reading clocks and random numbers. -/
def Task.pre : Task → List CallEvent → LockCall ⊕ Empty → Prop
  | acquire service key .. => acquirePre service key
  | extend lock ms => fun _ c => c = .inl (.extendLock lock.client lock.lockKey lock.token ms)
  | renew lock ttlMs =>
    fun _ c => c = .inl (.extendLock lock.client lock.lockKey lock.token ttlMs)
  | release lock => fun _ c => c = .inl (.stopWatchdog lock) ∨
      c = .inl (.releaseLock lock.client lock.lockKey lock.token)

/-- What a call settles to. -/
def Task.post : Task → List CallEvent → Except JsError Outcome → Prop
  | acquire service key ttlMs opts _, past, .ok (.acquired lock) =>
    acquirePost numberText service key ttlMs opts past (.ok lock)
  | acquire service key ttlMs opts _, past, .error e =>
    acquirePost numberText service key ttlMs opts past (.error e)
  | acquire .., _, .ok (.flag _) => False
  | _, _, .ok (.acquired _) => False
  | _, _, _ => True

theorem Task.satisfies (task : Task) :
    (task.code numberText).Satisfies task.pre (task.post numberText) [] := by
  cases task with
  | acquire service key ttlMs opts fuel =>
    exact RedisLockService.acquire_satisfies.bind (fun past lock hlock => hlock)
      fun past e he => he
  | extend lock ms =>
    refine ⟨rfl, fun r => ?_⟩
    cases r <;> trivial
  | renew lock ttlMs =>
    refine ⟨rfl, fun r => ?_⟩
    cases r <;> trivial
  | release lock =>
    show (Outcome.flag <$> RedisLockService.release lock).Satisfies _ _ _
    unfold RedisLockService.release
    by_cases hrenew : lock.renewMs.isSome = true
    · rw [if_pos hrenew]
      refine ⟨Or.inl rfl, fun r => ?_⟩
      cases r with
      | error e => trivial
      | ok _ =>
        refine ⟨Or.inr rfl, fun r => ?_⟩
        cases r <;> trivial
    · rw [if_neg hrenew]
      refine ⟨Or.inr rfl, fun r => ?_⟩
      cases r <;> trivial

/-- Where a call of the lock object asks Redis, the answer 0 makes it resolve to `false`. -/
def ZeroIsFalse : (c : LockCall ⊕ Empty) →
    (Except JsError (Sum.elim LockCall.Reply (fun _ => Empty) c) → Code) → Prop
  | .inl (.extendLock ..), k => k (.ok (0 : ℤ)) = .resolve (.flag false)
  | .inl (.releaseLock ..), k => k (.ok (0 : ℤ)) = .resolve (.flag false)
  | _, _ => True

/-- Without retries, the answer `null` to the script makes acquire resolve to `null`. -/
def NullIsNull : (c : LockCall ⊕ Empty) →
    (Except JsError (Sum.elim LockCall.Reply (fun _ => Empty) c) → Code) → Prop
  | .inl (.acquireLock ..), k => k (.ok (none : Option ℤ)) = .resolve (.acquired none)
  | _, _ => True

theorem Task.everywhere_nullIsNull {service : RedisLockService} {key : String}
    {ttlMs : JsNumber} {opts : LockOptions} {fuel : ℕ} (hretry : opts.retry = none) :
    ((Task.acquire service key ttlMs opts fuel).code numberText).Everywhere NullIsNull := by
  show (Outcome.acquired <$> service.acquire numberText key ttlMs opts fuel).Everywhere _
  unfold RedisLockService.acquire
  cases hargs : validateLockArgs numberText ttlMs opts with
  | error e => trivial
  | ok retry =>
    obtain ⟨ttl, -, -, hwindow, -⟩ := validateLockArgs_ok hargs
    rw [hretry] at hwindow
    cases hwindow
    refine ⟨trivial, fun token => ?_⟩
    cases token with
    | error e => trivial
    | ok token =>
      refine ⟨rfl, fun res => ?_⟩
      match res with
      | .error e => trivial
      | .ok none => trivial
      | .ok (some n) =>
        show (Async.bind (service.buildLock key _ token _ ttlMs opts >>= _) _).Everywhere _
        unfold RedisLockService.buildLock
        by_cases hrenew : opts.autoRenew.getD false = true
        · rw [if_pos hrenew]
          refine ⟨trivial, fun r => ?_⟩
          cases r <;> trivial
        · rw [if_neg hrenew]
          trivial

theorem Task.everywhere_zeroIsFalse (task : Task) :
    (task.code numberText).Everywhere ZeroIsFalse := by
  cases task with
  | acquire service key ttlMs opts fuel =>
    refine (Task.satisfies numberText (.acquire service key ttlMs opts fuel)).everywhere
      fun past c k hpre => ?_
    cases c with
    | inl c => cases c <;> trivial
    | inr c => exact c.elim
  | extend lock ms =>
    refine ⟨rfl, fun r => ?_⟩
    cases r <;> trivial
  | renew lock ttlMs =>
    refine ⟨rfl, fun r => ?_⟩
    cases r <;> trivial
  | release lock =>
    show (Outcome.flag <$> RedisLockService.release lock).Everywhere _
    unfold RedisLockService.release
    by_cases hrenew : lock.renewMs.isSome = true
    · rw [if_pos hrenew]
      refine ⟨trivial, fun r => ?_⟩
      cases r with
      | error e => trivial
      | ok _ =>
        refine ⟨rfl, fun r => ?_⟩
        cases r <;> trivial
    · rw [if_neg hrenew]
      refine ⟨rfl, fun r => ?_⟩
      cases r <;> trivial

end System

/-! ## Runs -/

/-- Keys whose lock entry would be the fence entry of another key. -/
def Fence (key : String) : Prop := "fence:".toList <+: key.toList

instance (key : String) : Decidable (Fence key) := inferInstanceAs (Decidable (_ <+: _))

/-- `1 <= ms`. -/
def AtLeastOne : JsNumber → Prop
  | .finite q => 1 ≤ q
  | .nan => False
  | .infinity negative => negative = false

instance : DecidablePred AtLeastOne
  | .finite q => inferInstanceAs (Decidable (1 ≤ q))
  | .nan => inferInstanceAs (Decidable False)
  | .infinity negative => inferInstanceAs (Decidable (negative = false))

/-- The calls clients are allowed to make. -/
def LockAction.Allowed (_ : LockState) : LockAction → Prop
  | acquire _ key _ _ _ => ¬ Fence key
  | extend _ ms => AtLeastOne ms
  | _ => True

instance (s : LockState) : DecidablePred (LockAction.Allowed s)
  | .acquire _ key _ _ _ => inferInstanceAs (Decidable (¬ Fence key))
  | .extend _ ms => inferInstanceAs (Decidable (AtLeastOne ms))
  | .renew _ => inferInstanceAs (Decidable True)
  | .release _ => inferInstanceAs (Decidable True)
  | .perform _ _ => inferInstanceAs (Decidable True)
  | .answer _ _ => inferInstanceAs (Decidable True)
  | .tick _ => inferInstanceAs (Decidable True)

/-- No call has been made, and Redis holds nothing under `lock:`. -/
structure LockState.Initial (s : LockState) : Prop where
  processes : s.processes = []
  drawnBy : s.drawnBy = []
  latest : s.latest = fun _ => none
  store : ∀ key, s.store ("lock:" ++ key) = none

theorem lockKey_ne_fenceKey {key key' : String} (h : ¬ Fence key) :
    "lock:" ++ key ≠ "lock:fence:" ++ key' := by
  intro heq
  have hlist : key.toList = "fence:".toList ++ key'.toList := by
    have := congrArg String.toList heq
    simpa using this
  apply h
  show "fence:".toList <+: key.toList
  rw [hlist]
  exact List.prefix_append _ _

theorem lockKey_inj {key key' : String} : "lock:" ++ key = "lock:" ++ key' ↔ key = key' := by
  simp

/-! ## The store refines one lease register for each key -/

/-- The entry of a lease in Redis. -/
def lockEntry (g : Lease.Grant Token) : KeyValue.Entry Value := ⟨.token g.holder, some g.expireAt⟩

namespace LockState

variable {s s' : LockState} {key : String} {v : Lease.View Token}

/-- The register of `key` is in the state `v`. -/
structure Shows (s : LockState) (key : String) (v : Lease.View Token) : Prop where
  now : v.now = s.now
  stored : s.store ("lock:" ++ key) = v.stored.map lockEntry
  latest : s.latest ("lock:" ++ key) = v.latest

theorem Shows.entry (h : s.Shows key v) :
    s.store.entry s.now ("lock:" ++ key) = v.live.map lockEntry := by
  rw [KeyValue.entry, h.stored, Lease.View.live, h.now]
  cases v.stored with
  | none => rfl
  | some g => simp [Option.filter, KeyValue.Entry.live, lockEntry]

/-- A register that no step has touched. -/
theorem Shows.congr (h : s.Shows key v) (hnow : s'.now = s.now)
    (hstore : s'.store ("lock:" ++ key) = s.store ("lock:" ++ key))
    (hlatest : s'.latest ("lock:" ++ key) = s.latest ("lock:" ++ key)) : s'.Shows key v :=
  ⟨h.now.trans hnow.symm, hstore.trans h.stored, hlatest.trans h.latest⟩

/-- What the contracts of the calls say about the next script. -/
def CallOk : LockCall → Prop
  | .acquireLock _ lockKey fenceKey _ _ _ => ∃ key, ¬ Fence key ∧ lockKey = "lock:" ++ key ∧
      fenceKey = "lock:fence:" ++ key
  | .extendLock _ lockKey _ ms => AtLeastOne ms ∧ ∃ key, ¬ Fence key ∧ lockKey = "lock:" ++ key
  | .releaseLock _ lockKey _ => ∃ key, ¬ Fence key ∧ lockKey = "lock:" ++ key
  | _ => True

/-- The fence entries are integers. -/
def FencesOk (s : LockState) : Prop :=
  ∀ key e, s.store ("lock:fence:" ++ key) = some e → e.value.integer ≠ none

theorem holds_of_shows (h : s.Shows key v) {token : Token} :
    holds s.now s.store ("lock:" ++ key) token = true ↔
      ∃ g, v.live = some g ∧ g.holder = token := by
  rw [holds_iff, h.entry]
  constructor
  · intro hhold
    obtain ⟨e, he, hval⟩ := hhold
    obtain ⟨g, hg, rfl⟩ := Option.map_eq_some_iff.mp he
    exact ⟨g, hg, by simpa [lockEntry] using hval⟩
  · intro hlive
    obtain ⟨g, hg, rfl⟩ := hlive
    exact ⟨lockEntry g, by rw [hg]; rfl, rfl⟩

variable {i : ℕ} {c : LockCall} {r : Except JsError c.Reply}

theorem recordGrant_of_ne {lockKey : String} {token : Token} {ttlMs : JsNumber}
    {reply : Except JsError (Option ℤ)} (h : ∀ n, reply ≠ .ok (some n)) :
    s.recordGrant lockKey token ttlMs reply = s.latest := by
  unfold recordGrant
  split
  · rename_i n
    exact absurd rfl (h n)
  · rfl

theorem recordGrant_ne {lockKey lockKey' : String} {token : Token} {ttlMs : JsNumber}
    {reply : Except JsError (Option ℤ)} (h : lockKey' ≠ lockKey) :
    s.recordGrant lockKey token ttlMs reply lockKey' = s.latest lockKey' := by
  match reply with
  | .ok (some n) => exact Function.update_of_ne h ..
  | .ok none => rfl
  | .error e => rfl

theorem recordExtend_ne {lockKey lockKey' : String} {token : Token} {ttlMs : JsNumber}
    {reply : Except JsError ℤ} (h : lockKey' ≠ lockKey) :
    s.recordExtend lockKey token ttlMs reply lockKey' = s.latest lockKey' := by
  match reply with
  | .ok n =>
    by_cases hn : n = 1
    · rw [recordExtend, if_pos hn]
      exact Function.update_of_ne h ..
    · rw [recordExtend, if_neg hn]
  | .error e => rfl

/-- acquireLock on the register it is about: nothing happens, or a free register is
granted. -/
theorem runAcquire_shows {token : Token} {ttlMs : JsNumber} {fencing : Bool}
    (h : s.Shows key v) (hkey : ¬ Fence key) (hfences : s.FencesOk) :
    (s.runAcquire ("lock:" ++ key) ("lock:fence:" ++ key) token ttlMs fencing).1.Shows key v ∨
    ∃ ms, v.live = none ∧
      (s.runAcquire ("lock:" ++ key) ("lock:fence:" ++ key) token ttlMs fencing).1.Shows key
        ⟨v.now, some ⟨token, v.now + ms⟩, some ⟨token, v.now + ms⟩⟩ := by
  have hentry := h.entry
  cases hlive : v.live with
  | some g =>
    rw [hlive] at hentry
    obtain ⟨hstore, hreply⟩ : (acquireLock s.now s.store ("lock:" ++ key) ("lock:fence:" ++ key)
      token ttlMs fencing).1 = s.store ∧ _ := acquireLock_of_held hentry
    exact Or.inl (h.congr rfl (congrFun hstore _) (congrFun (recordGrant_of_ne hreply) _))
  | none =>
    rw [hlive] at hentry
    have hne : "lock:" ++ key ≠ "lock:fence:" ++ key := lockKey_ne_fenceKey hkey
    -- Redis refuses the time to live, or the script takes the key
    rcases acquireLock_of_free hentry hne with hrefused | hgranted
    · obtain ⟨e, he⟩ := hrefused
      refine Or.inl (h.congr rfl ?_ ?_)
      · exact congrFun (congrArg Prod.fst he) _
      · refine congrFun (recordGrant_of_ne fun n hn => ?_) _
        rw [he] at hn
        cases hn
    · obtain ⟨ms, hms, httl, hset, hreply⟩ := hgranted
      obtain ⟨n, hn⟩ := hreply fun e he => hfences key e (KeyValue.entry_eq_some.mp he).1
      refine Or.inr ⟨ms, rfl, h.now, ?_, ?_⟩
      · rw [h.now]
        exact hset
      · show s.recordGrant _ _ _ _ _ = _
        rw [hn, recordGrant, Function.update_self, httl, h.now]
        rfl

/-- acquireLock leaves the other registers as they are. -/
theorem runAcquire_shows_ne {key' : String} {token : Token} {ttlMs : JsNumber} {fencing : Bool}
    (h : s.Shows key v) (hkey : ¬ Fence key) (hne : key ≠ key') :
    (s.runAcquire ("lock:" ++ key') ("lock:fence:" ++ key') token ttlMs fencing).1.Shows key v := by
  have hlock : "lock:" ++ key ≠ "lock:" ++ key' := fun heq => hne (lockKey_inj.mp heq)
  exact h.congr rfl (acquireLock_ne hlock (lockKey_ne_fenceKey hkey)) (recordGrant_ne hlock)

/-- extendLock on the register it is about: nothing happens, or the grant in force is
extended. -/
theorem runExtend_shows {token : Token} {ttlMs : JsNumber} (h : s.Shows key v) (hv : v.Agree)
    (hms : AtLeastOne ttlMs) :
    (s.runExtend ("lock:" ++ key) token ttlMs).1.Shows key v ∨
    ∃ g ms, v.live = some g ∧ (s.runExtend ("lock:" ++ key) token ttlMs).1.Shows key
      ⟨v.now, some ⟨g.holder, v.now + ms⟩, some ⟨g.holder, v.now + ms⟩⟩ := by
  -- the script acts only if the key holds the token, which is that of the grant in force
  by_cases hhold : holds s.now s.store ("lock:" ++ key) token = true
  · obtain ⟨g, hg, rfl⟩ := (holds_of_shows h).mp hhold
    rcases extendLock_of_holds ttlMs hhold with hrefused | hnonpos | hset
    · obtain ⟨e, he⟩ := hrefused
      refine Or.inl (h.congr rfl (congrFun (congrArg Prod.fst he) _) ?_)
      show s.recordExtend _ _ _ _ _ = _
      rw [he]
      rfl
    · -- a time of at least one millisecond is positive
      obtain ⟨n, hn, rfl, -⟩ := hnonpos
      have hone : (1 : ℚ) ≤ n := hms
      have : (1 : ℤ) ≤ n := by exact_mod_cast hone
      omega
    · obtain ⟨ms, hpos, rfl, he⟩ := hset
      refine Or.inr ⟨g, ms, hg, h.now, ?_, ?_⟩
      · show (extendLock _ _ _ _ _).1 _ = _
        rw [he, h.now]
        exact KeyValue.set_self
      · show s.recordExtend _ _ _ _ _ = _
        rw [he]
        simp only [recordExtend, if_true, Function.update_self]
        rw [h.latest, hv g hg, h.now]
        simp only [Option.map_some, if_true]
        rfl
  · have hfalse : holds s.now s.store ("lock:" ++ key) token = false := by simpa using hhold
    have he := extendLock_of_not_holds ttlMs hfalse
    refine Or.inl (h.congr rfl (congrFun (congrArg Prod.fst he) _) ?_)
    show s.recordExtend _ _ _ _ _ = _
    rw [he]
    rfl

/-- extendLock leaves the other registers as they are. -/
theorem runExtend_shows_ne {key' : String} {token : Token} {ttlMs : JsNumber}
    (h : s.Shows key v) (hne : key ≠ key') :
    (s.runExtend ("lock:" ++ key') token ttlMs).1.Shows key v := by
  have hlock : "lock:" ++ key ≠ "lock:" ++ key' := fun heq => hne (lockKey_inj.mp heq)
  exact h.congr rfl (extendLock_ne hlock) (recordExtend_ne hlock)

/-- releaseLock on the register it is about: nothing happens, or the grant in force ends. -/
theorem runRelease_shows {token : Token} (h : s.Shows key v) :
    (s.runRelease ("lock:" ++ key) token).1.Shows key v ∨
    ∃ g, v.live = some g ∧ g.holder = token ∧
      (s.runRelease ("lock:" ++ key) token).1.Shows key ⟨v.now, none, v.latest⟩ := by
  by_cases hhold : holds s.now s.store ("lock:" ++ key) token = true
  · obtain ⟨g, hg, hholder⟩ := (holds_of_shows h).mp hhold
    refine Or.inr ⟨g, hg, hholder, h.now, ?_, h.latest⟩
    show (releaseLock _ _ _ _).1 _ = _
    rw [releaseLock_of_holds hhold]
    exact KeyValue.del_self
  · have hfalse : holds s.now s.store ("lock:" ++ key) token = false := by simpa using hhold
    have he := releaseLock_of_not_holds hfalse
    exact Or.inl (h.congr rfl (congrFun (congrArg Prod.fst he) _) rfl)

/-- releaseLock leaves the other registers as they are. -/
theorem runRelease_shows_ne {key' : String} {token : Token} (h : s.Shows key v)
    (hne : key ≠ key') : (s.runRelease ("lock:" ++ key') token).1.Shows key v := by
  have hlock : "lock:" ++ key ≠ "lock:" ++ key' := fun heq => hne (lockKey_inj.mp heq)
  exact h.congr rfl (releaseLock_ne hlock) rfl

/-- Each script executed is one step of the register of every key. A release step is the
script releaseLock with the holder's token. -/
theorem execute_shows {i : ℕ} {c : LockCall} {r : Except JsError c.Reply}
    (h : s.Shows key v) (hv : v.Agree) (hkey : ¬ Fence key) (hfences : s.FencesOk)
    (hc : CallOk c) (hexec : s.execute i c = some (s', r)) :
    ∃ l v', Lease.Step v l v' ∧ s'.Shows key v' ∧
      ∀ token, l = .release token → ∃ client, c = .releaseLock client ("lock:" ++ key) token := by
  -- a script that leaves the register of the key alone passes
  have hskip : s'.Shows key v → ∃ l v', Lease.Step v l v' ∧ s'.Shows key v' ∧
      ∀ token, l = .release token → ∃ client, c = .releaseLock client ("lock:" ++ key) token :=
    fun h' => ⟨.pass, _, .pass v 0, h', fun token hl => by cases hl⟩
  cases c with
  | acquireLock client lockKey fenceKey token ttlMs fencing =>
    obtain ⟨key', hkey', rfl, rfl⟩ := hc
    cases hexec
    by_cases heq : key = key'
    · subst heq
      rcases runAcquire_shows h hkey hfences with hsame | hgrant
      · exact hskip hsame
      · obtain ⟨ms, hfree, hshows⟩ := hgrant
        exact ⟨_, _, .grant v token ms hfree, hshows, fun token hl => by cases hl⟩
    · exact hskip (runAcquire_shows_ne h hkey heq)
  | extendLock client lockKey token ttlMs =>
    obtain ⟨hms, key', hkey', rfl⟩ := hc
    cases hexec
    by_cases heq : key = key'
    · subst heq
      rcases runExtend_shows h hv hms with hsame | hextend
      · exact hskip hsame
      · obtain ⟨g, ms, hlive, hshows⟩ := hextend
        exact ⟨_, _, .extend v g ms hlive, hshows, fun token hl => by cases hl⟩
    · exact hskip (runExtend_shows_ne h heq)
  | releaseLock client lockKey token =>
    obtain ⟨key', hkey', rfl⟩ := hc
    cases hexec
    by_cases heq : key = key'
    · subst heq
      rcases runRelease_shows h with hsame | hrelease
      · exact hskip hsame
      · obtain ⟨g, hlive, rfl, hshows⟩ := hrelease
        refine ⟨_, _, .release v g hlive, hshows, fun token hl => ?_⟩
        cases hl
        exact ⟨client, rfl⟩
    · exact hskip (runRelease_shows_ne h heq)
  | randomBytes =>
    cases hexec
    exact hskip (h.congr rfl rfl rfl)
  | dateNow => cases hexec
  | mathRandom => cases hexec
  | sleep ms => cases hexec
  | startWatchdog lock ttlMs => cases hexec
  | stopWatchdog lock => cases hexec

end LockState

end NestFastify.Redis
