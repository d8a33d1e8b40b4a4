import NestFastify.Redis.HeldLock

/-!
# Critical sections

Any number of calls of `withLock` over one Redis. A call acquires its lock, runs its body and
releases the lock; meanwhile its watchdog, or the body itself, may extend it. A body is in its
critical section as long as it waits for a call of its own.

Two facts about every run: of two bodies that are in the critical section of one key, one has
outlived its lease; and a call that has settled leaves no lock behind.
-/

namespace NestFastify.Redis

variable {U : Type} {RU : U → Type} {α : Type}

/-- A call of `withLock`. `expiry` is the last instant of its lease, as its scripts have set it. -/
structure Section (U : Type) (RU : U → Type) (α : Type) where
  key : String
  past : List (LockEvent U RU)
  code : Program U RU (Option α)
  expiry : Option ℕ

namespace Section

variable (u : Section U RU α)

/-- The body waits for a call of its own. -/
def inside : Bool :=
  match u.code with
  | .await (.inr _) _ => true
  | _ => false

def hasSettled : Bool :=
  match u.code with
  | .resolve _ => true
  | .reject _ => true
  | _ => false

/-- The end of the lease after a grant. -/
def expiryAfter (now : ℕ) (expiry : Option ℕ) : LockEvent U RU → Option ℕ
  | ⟨.inl (.acquireLock _ _ _ _ ttlMs _), .ok (some _)⟩ => some (now + LockState.millis ttlMs)
  | _ => expiry

/-- It goes on after its call `c` has settled to `r`. -/
def after (now : ℕ) (c : LockCall ⊕ U)
    (k : Except JsError (Sum.elim LockCall.Reply RU c) → Program U RU (Option α))
    (r : Except JsError (Sum.elim LockCall.Reply RU c)) : Section U RU α :=
  ⟨u.key, u.past ++ [⟨c, r⟩], k r, expiryAfter now u.expiry ⟨c, r⟩⟩

/-- The lease is over. -/
def Expired (now : ℕ) : Prop := ∃ t, u.expiry = some t ∧ t < now

end Section

/-- The system. `drawnBy` lists, for each token drawn so far, the call that drew it. -/
structure Sections (U : Type) (RU : U → Type) (α : Type) where
  now : ℕ
  store : Store
  drawnBy : List ℕ
  sections : List (Section U RU α)

inductive SectionAction (U : Type) (RU : U → Type) (α : Type) where
  | withLock (service : RedisLockService) (key : String) (ttlMs : JsNumber)
      (fn : Lock → Async JsError U RU α) (opts : LockOptions) (fuel : ℕ)
  | perform (i : ℕ) (transport : Transport)
  | answer (i : ℕ) (x : ℚ)
  | settle (i : ℕ) (reply : (c : U) → Except JsError (RU c))
  | extend (i : ℕ) (ms : JsNumber)
  | tick (ms : ℕ)

namespace Sections

section System

variable (numberText : JsNumber → String) (s : Sections U RU α)

/-- No call has been made, and Redis holds nothing under `lock:`. -/
structure Initial : Prop where
  sections : s.sections = []
  drawnBy : s.drawnBy = []
  store : ∀ key, s.store ("lock:" ++ key) = none

def start (service : RedisLockService) (key : String) (ttlMs : JsNumber)
    (fn : Lock → Async JsError U RU α) (opts : LockOptions) (fuel : ℕ) : Sections U RU α :=
  { s with sections := s.sections ++ [⟨key, [],
      service.withLock numberText key ttlMs (fun lock => (fn lock).embed) opts fuel, none⟩] }

/-- Draw a random token, or execute a script; the reply is for call `i`. -/
def execute (i : ℕ) : (c : LockCall) → Option (Sections U RU α × Except JsError c.Reply)
  | .randomBytes => some ({ s with drawnBy := s.drawnBy ++ [i] }, .ok ⟨s.drawnBy.length⟩)
  | .acquireLock _ lockKey fenceKey token ttlMs fencing =>
    let r := acquireLock s.now s.store lockKey fenceKey token ttlMs fencing
    some ({ s with store := r.1 }, r.2)
  | .extendLock _ lockKey token ttlMs =>
    let r := extendLock s.now s.store lockKey token ttlMs
    some ({ s with store := r.1 }, r.2)
  | .releaseLock _ lockKey token =>
    let r := releaseLock s.now s.store lockKey token
    some ({ s with store := r.1 }, r.2)
  | _ => none

/-- Call `i` goes on after its call `c` has settled to `r`. -/
def resume (i : ℕ) (u : Section U RU α) (c : LockCall ⊕ U)
    (k : Except JsError (Sum.elim LockCall.Reply RU c) → Program U RU (Option α))
    (r : Except JsError (Sum.elim LockCall.Reply RU c)) : Sections U RU α :=
  { s with sections := s.sections.set i (u.after s.now c k r) }

def perform (i : ℕ) (transport : Transport) : Option (Sections U RU α) :=
  match s.sections[i]? with
  | some ⟨key, past, .await (.inl c) k, expiry⟩ =>
    let u : Section U RU α := ⟨key, past, .await (.inl c) k, expiry⟩
    match s.execute i c with
    | some (s', r) =>
      match transport with
      | .answered => some (s'.resume i u (.inl c) k r)
      | .answerLost => some (s'.resume i u (.inl c) k (.error LockState.connectionLost))
      | .requestLost => some (s.resume i u (.inl c) k (.error LockState.connectionLost))
    | none => none
  | _ => none

def answer (i : ℕ) (x : ℚ) : Option (Sections U RU α) :=
  match s.sections[i]? with
  | some ⟨key, past, .await (.inl c) k, expiry⟩ =>
    (LockState.localReply x c).map fun r =>
      s.resume i ⟨key, past, .await (.inl c) k, expiry⟩ (.inl c) k (.ok r)
  | _ => none

/-- A call of the body settles. -/
def settle (i : ℕ) (reply : (c : U) → Except JsError (RU c)) : Option (Sections U RU α) :=
  match s.sections[i]? with
  | some ⟨key, past, .await (.inr c) k, expiry⟩ =>
    some (s.resume i ⟨key, past, .await (.inr c) k, expiry⟩ (.inr c) k (reply c))
  | _ => none

/-- The lock that call `i` holds is extended, by its watchdog or by the body. -/
def extend (i : ℕ) (ms : JsNumber) : Option (Sections U RU α) :=
  match s.sections[i]? with
  | some u =>
    (held u.past).map fun token =>
      let r := extendLock s.now s.store ("lock:" ++ u.key) token ms
      { s with
        store := r.1
        sections := s.sections.set i { u with
          expiry := if r.2 = .ok 1 then some (s.now + LockState.millis ms) else u.expiry } }
  | none => none

def step : SectionAction U RU α → Option (Sections U RU α)
  | .withLock service key ttlMs fn opts fuel =>
    some (s.start numberText service key ttlMs fn opts fuel)
  | .perform i transport => s.perform i transport
  | .answer i x => s.answer i x
  | .settle i reply => s.settle i reply
  | .extend i ms => s.extend i ms
  | .tick ms => some { s with now := s.now + ms }

end System

/-- The calls that are allowed. -/
def Allowed (_ : Sections U RU α) : SectionAction U RU α → Prop
  | .withLock _ key _ _ _ _ => ¬ Fence key
  | .extend _ ms => AtLeastOne ms
  | _ => True

instance (s : Sections U RU α) : DecidablePred (Allowed s)
  | .withLock _ key _ _ _ _ => inferInstanceAs (Decidable (¬ Fence key))
  | .extend _ ms => inferInstanceAs (Decidable (AtLeastOne ms))
  | .perform _ _ => inferInstanceAs (Decidable True)
  | .answer _ _ => inferInstanceAs (Decidable True)
  | .settle _ _ => inferInstanceAs (Decidable True)
  | .tick _ => inferInstanceAs (Decidable True)

/-! ## What a step does -/

section Steps

variable {numberText : JsNumber → String} {s s' s₁ : Sections U RU α} {i j : ℕ}
  {u v : Section U RU α} {key : String} {token : Token}

/-- What call `i` observes of its call `c`, and the state that this leaves behind. -/
inductive Called (s : Sections U RU α) (i : ℕ) (c : LockCall) :
    Except JsError c.Reply → Sections U RU α → Prop
  | executed (s₁ : Sections U RU α) (r : Except JsError c.Reply) (h : s.execute i c = some (s₁, r)) :
    Called s i c r s₁
  | answerLost (s₁ : Sections U RU α) (r : Except JsError c.Reply)
    (h : s.execute i c = some (s₁, r)) (e : JsError) : Called s i c (.error e) s₁
  | requestLost (e : JsError) : Called s i c (.error e) s
  | answered (x : ℚ) (r : c.Reply) (h : LockState.localReply x c = some r) : Called s i c (.ok r) s

/-- A step starts a call, moves one on, extends a lock, or lets time pass. -/
inductive Moves (numberText : JsNumber → String) (s : Sections U RU α) :
    SectionAction U RU α → Sections U RU α → Prop
  | starts (service : RedisLockService) (key : String) (ttlMs : JsNumber)
    (fn : Lock → Async JsError U RU α) (opts : LockOptions) (fuel : ℕ) :
    Moves numberText s (.withLock service key ttlMs fn opts fuel)
      (s.start numberText service key ttlMs fn opts fuel)
  | calls (a : SectionAction U RU α) (i : ℕ) (u : Section U RU α) (c : LockCall)
    (k : Except JsError c.Reply → Program U RU (Option α)) (r : Except JsError c.Reply)
    (s₁ : Sections U RU α) (hu : s.sections[i]? = some u) (hcode : u.code = .await (.inl c) k)
    (hcalled : s.Called i c r s₁) : Moves numberText s a (s₁.resume i u (.inl c) k r)
  | settles (i : ℕ) (reply : (c : U) → Except JsError (RU c)) (u : Section U RU α) (c : U)
    (k : Except JsError (RU c) → Program U RU (Option α)) (hu : s.sections[i]? = some u)
    (hcode : u.code = .await (.inr c) k) :
    Moves numberText s (.settle i reply) (s.resume i u (.inr c) k (reply c))
  | extends (i : ℕ) (ms : JsNumber) (u : Section U RU α) (token : Token)
    (hu : s.sections[i]? = some u) (hheld : held u.past = some token) :
    Moves numberText s (.extend i ms)
      { s with
        store := (extendLock s.now s.store ("lock:" ++ u.key) token ms).1
        sections := s.sections.set i { u with
          expiry := if (extendLock s.now s.store ("lock:" ++ u.key) token ms).2 = .ok 1 then
            some (s.now + LockState.millis ms) else u.expiry } }
  | passes (ms : ℕ) : Moves numberText s (.tick ms) { s with now := s.now + ms }

theorem moves_of_step {a : SectionAction U RU α} (h : s.step numberText a = some s') :
    Moves numberText s a s' := by
  cases a with
  | withLock service key ttlMs fn opts fuel =>
    cases h
    exact .starts service key ttlMs fn opts fuel
  | perform i transport =>
    change s.perform i transport = some s' at h
    unfold perform at h
    split at h
    · rename_i key past c k expiry hu
      dsimp only at h
      split at h
      · rename_i s₁ r hexec
        -- a lost reply leaves what the script has done, a lost request does nothing
        cases transport with
        | answered =>
          cases h
          exact .calls _ i _ c k r s₁ hu rfl (.executed s₁ r hexec)
        | answerLost =>
          cases h
          exact .calls _ i _ c k _ s₁ hu rfl (.answerLost s₁ r hexec _)
        | requestLost =>
          cases h
          exact .calls _ i _ c k _ s hu rfl (.requestLost _)
      · cases h
    · cases h
  | answer i x =>
    change s.answer i x = some s' at h
    unfold answer at h
    split at h
    · rename_i key past c k expiry hu
      obtain ⟨r, hr, rfl⟩ := Option.map_eq_some_iff.mp h
      exact .calls _ i _ c k _ s hu rfl (.answered x r hr)
    · cases h
  | settle i reply =>
    change s.settle i reply = some s' at h
    unfold settle at h
    split at h
    · rename_i key past c k expiry hu
      cases h
      exact .settles i reply _ c k hu rfl
    · cases h
  | extend i ms =>
    change s.extend i ms = some s' at h
    unfold extend at h
    split at h
    · rename_i u hu
      obtain ⟨token, hheld, rfl⟩ := Option.map_eq_some_iff.mp h
      exact .extends i ms u token hu hheld
    · cases h
  | tick ms =>
    cases h
    exact .passes ms

/-- A call changes neither the clock nor the other calls, and draws at most one more token. -/
theorem Called.frame {c : LockCall} {r : Except JsError c.Reply} (h : s.Called i c r s₁) :
    s₁.now = s.now ∧ s₁.sections = s.sections ∧
      ∀ (n j : ℕ), s.drawnBy[n]? = some j → s₁.drawnBy[n]? = some j := by
  have hexecute : ∀ {s₁ : Sections U RU α} {r : Except JsError c.Reply},
      s.execute i c = some (s₁, r) → s₁.now = s.now ∧ s₁.sections = s.sections ∧
        ∀ (n j : ℕ), s.drawnBy[n]? = some j → s₁.drawnBy[n]? = some j := by
    intro s₁ r hexec
    cases c with
    | randomBytes =>
      cases hexec
      refine ⟨rfl, rfl, fun n j hn => ?_⟩
      rw [List.getElem?_append_left (List.getElem?_eq_some_iff.mp hn).1]
      exact hn
    | acquireLock | extendLock | releaseLock =>
      cases hexec
      exact ⟨rfl, rfl, fun n j hn => hn⟩
    | dateNow | mathRandom | sleep | startWatchdog | stopWatchdog => cases hexec
  cases h with
  | executed _ _ h => exact hexecute h
  | answerLost _ r h e => exact hexecute h
  | requestLost e => exact ⟨rfl, rfl, fun n j hn => hn⟩
  | answered x r h => exact ⟨rfl, rfl, fun n j hn => hn⟩

/-- The token that call `i` observes is recorded as its own. -/
theorem Called.drawn {r : Except JsError (LockCall.Reply .randomBytes)}
    (h : s.Called i .randomBytes r s₁) (hr : r = .ok token) : s₁.drawnBy[token.draw]? = some i := by
  cases h with
  | executed _ _ h =>
    cases h
    cases hr
    exact List.getElem?_concat_length
  | answerLost _ r h e => cases hr
  | requestLost e => cases hr
  | answered x r h => cases h

theorem incr_ne_none (now : ℕ) (st : Store) (key : String) : (incr now st key).2 ≠ .ok none := by
  unfold incr
  split
  · simp
  · split <;> simp

/-- A reply of `null` leaves everything as it is. -/
theorem acquireLock_of_null {now : ℕ} {st : Store} {lockKey fenceKey : String} {ttlMs : JsNumber}
    {fencing : Bool} (h : (acquireLock now st lockKey fenceKey token ttlMs fencing).2 = .ok none) :
    (acquireLock now st lockKey fenceKey token ttlMs fencing).1 = st := by
  unfold acquireLock at h ⊢
  cases hset : setNxPx now st lockKey token ttlMs with
  | error e => rfl
  | ok st? =>
    rw [hset] at h
    cases st? with
    | none => rfl
    | some st' =>
      cases fencing with
      | true => exact absurd h (incr_ne_none now st' fenceKey)
      | false => cases h

/-- The script of an acquire changes nothing, or it takes the key. -/
theorem acquireLock_spec {now : ℕ} {st : Store} {ttlMs : JsNumber} {fencing : Bool}
    (hkey : ¬ Fence key) :
    ((acquireLock now st ("lock:" ++ key) ("lock:fence:" ++ key) token ttlMs fencing).1 = st ∧
      ∀ n, (acquireLock now st ("lock:" ++ key) ("lock:fence:" ++ key) token ttlMs fencing).2 ≠
        .ok (some n)) ∨
    (acquireLock now st ("lock:" ++ key) ("lock:fence:" ++ key) token ttlMs fencing).1
        ("lock:" ++ key) = some ⟨.token token, some (now + LockState.millis ttlMs)⟩ ∧
      (acquireLock now st ("lock:" ++ key) ("lock:fence:" ++ key) token ttlMs fencing).2 ≠
        .ok none := by
  cases hentry : st.entry now ("lock:" ++ key) with
  | some e => exact Or.inl (acquireLock_of_held hentry)
  | none =>
    have hne : "lock:" ++ key ≠ "lock:fence:" ++ key := lockKey_ne_fenceKey hkey
    rcases @acquireLock_of_free now st _ _ token ttlMs fencing hentry hne with
      ⟨e, he⟩ | ⟨ms, -, rfl, hset, -⟩
    · rw [he]
      exact Or.inl ⟨rfl, nofun⟩
    · refine Or.inr ⟨hset, fun hnull => ?_⟩
      rw [acquireLock_of_null hnull] at hset
      have hlive : st.entry now ("lock:" ++ key) = some ⟨.token token, some (now + ms)⟩ :=
        KeyValue.entry_eq_some.mpr ⟨hset, KeyValue.live_some.mpr (Nat.le_add_right now ms)⟩
      rw [hentry] at hlive
      cases hlive

/-! ## The invariant -/

/-- A call follows its contract, has drawn its tokens itself, and keeps the lock that it holds until
its lease is over. -/
structure Sound (now : ℕ) (st : Store) (drawnBy : List ℕ) (i : ℕ) (u : Section U RU α) : Prop where
  notFence : ¬ Fence u.key
  contract : u.code.Satisfies (sectionPre u.key) sectionPost u.past
  drawn : ∀ token, Drew u.past token → drawnBy[token.draw]? = some i
  granted : ∀ token, held u.past = some token → Drew u.past token
  kept : ∀ token, held u.past = some token → ∃ t, u.expiry = some t ∧
    (now ≤ t → st ("lock:" ++ u.key) = some ⟨.token token, some t⟩)

/-- The call that has drawn a token, for this key: it holds the lock, or a call of the service has
failed it. -/
structure Owner (drawnBy : List ℕ) (sections : List (Section U RU α)) (key : String)
    (token : Token) (i : ℕ) (u : Section U RU α) : Prop where
  drew : drawnBy[token.draw]? = some i
  call : sections[i]? = some u
  key_eq : u.key = key
  holds : held u.past = some token ∨ LockFailed u.past

/-- Every lock in Redis has its owner. -/
def Owned (s : Sections U RU α) : Prop :=
  ∀ key, ¬ Fence key → ∀ e token, s.store.entry s.now ("lock:" ++ key) = some e →
    e.value = .token token → ∃ i u, Owner s.drawnBy s.sections key token i u

structure Inv (s : Sections U RU α) : Prop where
  sound : ∀ i u, s.sections[i]? = some u → Sound s.now s.store s.drawnBy i u
  owned : s.Owned

variable {now now' t : ℕ} {st st' : Store} {drawnBy drawnBy' : List ℕ}

/-- Two calls hold different tokens. -/
theorem Sound.held_ne (hu : Sound now st drawnBy i u) (hv : Sound now st drawnBy j v) (hij : i ≠ j)
    (htoken : held v.past = some token) : held u.past ≠ some token := by
  intro hheld
  have hi := hu.drawn token (hu.granted token hheld)
  have hj := hv.drawn token (hv.granted token htoken)
  exact hij (Option.some.inj (hi.symm.trans hj))

/-- What other calls and the clock leave of a call's soundness. -/
theorem Sound.frame (hu : Sound now st drawnBy i u) (hnow : now ≤ now')
    (hdrawn : ∀ n j : ℕ, drawnBy[n]? = some j → drawnBy'[n]? = some j)
    (hstore : ∀ token t, held u.past = some token → now' ≤ t →
      st ("lock:" ++ u.key) = some ⟨.token token, some t⟩ →
      st' ("lock:" ++ u.key) = some ⟨.token token, some t⟩) : Sound now' st' drawnBy' i u := by
  refine ⟨hu.notFence, hu.contract, fun token h => hdrawn _ _ (hu.drawn token h), hu.granted,
    fun token hheld => ?_⟩
  obtain ⟨t, hexpiry, hkept⟩ := hu.kept token hheld
  exact ⟨t, hexpiry, fun hle => hstore token t hheld hle (hkept (hnow.trans hle))⟩

/-- A call leaves the locks of the others alone. -/
theorem Called.keeps {c : LockCall} {r : Except JsError c.Reply} (h : s.Called i c r s₁)
    (hpre : sectionPre u.key u.past (.inl c)) (hheld : held u.past ≠ some token)
    {key' : String} (ht : s.now ≤ t) (hlive : s.store key' = some ⟨.token token, some t⟩) :
    s₁.store key' = some ⟨.token token, some t⟩ := by
  have hentry : s.store.entry s.now key' = some ⟨.token token, some t⟩ :=
    KeyValue.entry_eq_some.mpr ⟨hlive, KeyValue.live_some.mpr ht⟩
  have hexecute : ∀ {s₁ : Sections U RU α} {r : Except JsError c.Reply},
      s.execute i c = some (s₁, r) → s₁.store key' = some ⟨.token token, some t⟩ := by
    intro s₁ r hexec
    cases c with
    | randomBytes =>
      cases hexec
      exact hlive
    | acquireLock client lockKey fenceKey token' ttlMs fencing =>
      cases hexec
      exact (acquireLock_of_token hentry).trans hlive
    | extendLock => exact hpre.elim
    | releaseLock client lockKey token' =>
      cases hexec
      obtain ⟨-, htoken⟩ := hpre
      by_cases hsame : key' = lockKey
      · subst hsame
        have hstale : holds s.now s.store key' token' = false := by
          rw [Bool.eq_false_iff]
          intro hholds
          obtain ⟨e, he, hvalue⟩ := holds_iff.mp hholds
          obtain rfl := Option.some.inj (hentry.symm.trans he)
          obtain rfl := Value.token.inj hvalue
          exact hheld htoken
        show (releaseLock _ _ _ _).1 key' = _
        rw [releaseLock_of_not_holds hstale]
        exact hlive
      · exact (releaseLock_ne hsame).trans hlive
    | dateNow | mathRandom | sleep | startWatchdog | stopWatchdog => cases hexec
  cases h with
  | executed _ _ h => exact hexecute h
  | answerLost _ r h e => exact hexecute h
  | requestLost e => exact hlive
  | answered x r h => exact hlive

/-- Only scripts write. -/
def isScript : LockCall → Bool
  | .acquireLock .. => true
  | .extendLock .. => true
  | .releaseLock .. => true
  | _ => false

theorem Called.store_eq {c : LockCall} {r : Except JsError c.Reply} (h : s.Called i c r s₁)
    (hc : isScript c = false) : s₁.store = s.store := by
  have hexecute : ∀ {s₁ : Sections U RU α} {r : Except JsError c.Reply},
      s.execute i c = some (s₁, r) → s₁.store = s.store := by
    intro s₁ r hexec
    cases c with
    | randomBytes =>
      cases hexec
      rfl
    | acquireLock | extendLock | releaseLock => cases hc
    | dateNow | mathRandom | sleep | startWatchdog | stopWatchdog => cases hexec
  cases h with
  | executed _ _ h => exact hexecute h
  | answerLost _ r h e => exact hexecute h
  | requestLost e => rfl
  | answered x r h => rfl

/-- A grant that call `i` observes. -/
theorem Called.acquired {client : ℕ} {lockKey fenceKey : String} {ttlMs : JsNumber}
    {fencing : Bool} {n : ℤ}
    {r : Except JsError (LockCall.acquireLock client lockKey fenceKey token ttlMs fencing).Reply}
    (h : s.Called i (.acquireLock client lockKey fenceKey token ttlMs fencing) r s₁)
    (hr : r = .ok (some n)) (hkey : ¬ Fence key) (hlock : lockKey = "lock:" ++ key)
    (hfence : fenceKey = "lock:fence:" ++ key) : s₁.store ("lock:" ++ key) =
      some ⟨.token token, some (s.now + LockState.millis ttlMs)⟩ := by
  subst hlock hfence
  cases h with
  | executed _ _ h =>
    cases h
    rcases @acquireLock_spec key token s.now s.store ttlMs fencing hkey with hnone | htaken
    · exact absurd hr (hnone.2 n)
    · exact htaken.1
  | answerLost _ r h e => cases hr
  | requestLost e => cases hr
  | answered x r h => cases h

/-- A call goes on with its soundness. -/
theorem Sound.called {c : LockCall} {k : Except JsError c.Reply → Program U RU (Option α)}
    {r : Except JsError c.Reply} (hu : Sound s.now s.store s.drawnBy i u)
    (hcode : u.code = .await (.inl c) k) (h : s.Called i c r s₁) :
    Sound s₁.now s₁.store s₁.drawnBy i (u.after s₁.now (.inl c) k r) := by
  obtain ⟨hnow, -, hdrawn⟩ := h.frame
  have hcontract := hu.contract
  rw [hcode] at hcontract
  obtain ⟨hpre, hnext⟩ := hcontract
  have hheld : ∀ token, held (u.past ++ [(⟨.inl c, r⟩ : LockEvent U RU)]) = some token →
      Drew u.past token ∧ ∃ t, (u.after s₁.now (.inl c) k r).expiry = some t ∧
        (s₁.now ≤ t → s₁.store ("lock:" ++ u.key) = some ⟨.token token, some t⟩) := by
    intro token hheld
    rw [held_concat] at hheld
    -- the token has just been granted, or the call neither acquires nor releases
    cases c with
    | acquireLock client lockKey fenceKey token' ttlMs fencing =>
      obtain ⟨rfl, rfl, hdrew, hnone⟩ := hpre
      match r with
      | .ok (some n) =>
        obtain rfl : token' = token := Option.some.inj hheld
        refine ⟨hdrew, s₁.now + LockState.millis ttlMs, rfl, fun _ => ?_⟩
        rw [hnow]
        exact h.acquired rfl hu.notFence rfl rfl
      | .ok none => exact absurd (hnone.symm.trans hheld) (Option.some_ne_none token).symm
      | .error e => exact absurd (hnone.symm.trans hheld) (Option.some_ne_none token).symm
    | releaseLock client lockKey token' => cases hheld
    | extendLock => exact hpre.elim
    | randomBytes | dateNow | mathRandom | sleep | startWatchdog | stopWatchdog =>
      have hheld : held u.past = some token := hheld
      rw [h.store_eq rfl, hnow]
      exact ⟨hu.granted token hheld, hu.kept token hheld⟩
  refine ⟨hu.notFence, hnext r, fun token hdrew => ?_, fun token h => ?_, fun token h => ?_⟩
  · rcases List.mem_append.mp hdrew with hold | hnew
    · exact hdrawn _ _ (hu.drawn token hold)
    · cases List.mem_singleton.mp hnew
      exact h.drawn rfl
  · exact (hheld token h).1.append _
  · exact (hheld token h).2

/-- An owner stays one when a call goes on, unless this is its release. -/
theorem Owner.set {sections : List (Section U RU α)} {u' : Section U RU α}
    (h : Owner drawnBy sections key token j v)
    (hdrawn : ∀ n j : ℕ, drawnBy[n]? = some j → drawnBy'[n]? = some j)
    (hu : sections[i]? = some u) (hkey : u'.key = u.key)
    (hheld : u.key = key → held u.past = some token →
      held u'.past = some token ∨ LockFailed u'.past)
    (hfailed : LockFailed u.past → LockFailed u'.past) :
    ∃ j v, Owner drawnBy' (sections.set i u') key token j v := by
  obtain ⟨hdrew, hcall, hkey', hholds⟩ := h
  by_cases hij : j = i
  · subst hij
    obtain rfl := Option.some.inj (hu.symm.trans hcall)
    exact ⟨j, u', hdrawn _ _ hdrew,
      List.getElem?_set_self (List.getElem?_eq_some_iff.mp hcall).1, hkey.trans hkey',
      hholds.elim (hheld hkey') fun hfail => Or.inr (hfailed hfail)⟩
  · exact ⟨j, v, hdrawn _ _ hdrew, (List.getElem?_set_ne (Ne.symm hij)).trans hcall, hkey', hholds⟩

/-- A call is executed, unless its request gets lost. -/
theorem Called.script {c : LockCall} {r r₂ : Except JsError c.Reply} {s₂ : Sections U RU α}
    (h : s.Called i c r s₁) (hexec : s.execute i c = some (s₂, r₂)) :
    s₁ = s₂ ∧ (r = r₂ ∨ ∃ e, r = .error e) ∨ s₁ = s ∧ ∃ e, r = .error e := by
  cases h with
  | executed _ _ h =>
    cases hexec.symm.trans h
    exact Or.inl ⟨rfl, Or.inl rfl⟩
  | answerLost _ _ h e =>
    cases hexec.symm.trans h
    exact Or.inl ⟨rfl, Or.inr ⟨e, rfl⟩⟩
  | requestLost e => exact Or.inr ⟨rfl, e, rfl⟩
  | answered x r h =>
    cases c with
    | randomBytes | acquireLock | extendLock | releaseLock => cases h
    | dateNow | mathRandom | sleep | startWatchdog | stopWatchdog => cases hexec

/-- After the script of an acquire that has taken the key, the call holds the lock, or it has got an
error. -/
theorem held_taken {client : ℕ} {lockKey fenceKey : String} {ttlMs : JsNumber} {fencing : Bool}
    (past : List (LockEvent U RU)) {r : Except JsError (Option ℤ)} (hr : r ≠ .ok none) :
    held (past ++ [⟨.inl (.acquireLock client lockKey fenceKey token ttlMs fencing), r⟩]) =
        some token ∨
      LockFailed (past ++ [⟨.inl (.acquireLock client lockKey fenceKey token ttlMs fencing), r⟩]) := by
  match r with
  | .ok (some n) => exact Or.inl (held_concat _ _)
  | .ok none => exact absurd rfl hr
  | .error e => exact Or.inr (lockFailed_concat _ _ e)

/-- A lock in Redis after the script of an acquire: it was there before, or it has just been
taken. -/
theorem Called.entry_acquire {client : ℕ} {token' : Token} {ttlMs : JsNumber} {fencing : Bool}
    {key' : String} {r : Except JsError (Option ℤ)} (h : s.Called i (.acquireLock client
      ("lock:" ++ key') ("lock:fence:" ++ key') token' ttlMs fencing) r s₁)
    (hkey' : ¬ Fence key') (hkey : ¬ Fence key) {e : KeyValue.Entry Value}
    (he : s₁.store.entry s.now ("lock:" ++ key) = some e) (htoken : e.value = .token token) :
    s.store.entry s.now ("lock:" ++ key) = some e ∨
      key' = key ∧ token' = token ∧ r ≠ .ok none := by
  rcases h.script rfl with ⟨rfl, hr⟩ | ⟨rfl, -⟩
  · by_cases hsame : key' = key
    · subst hsame
      rcases @acquireLock_spec key' token' s.now s.store ttlMs fencing hkey' with
        ⟨hstore, -⟩ | ⟨hstore, hreply⟩
      · exact Or.inl ((KeyValue.entry_congr (congrFun hstore _)).symm.trans he)
      · obtain rfl := Option.some.inj (hstore.symm.trans (KeyValue.entry_eq_some.mp he).1)
        refine Or.inr ⟨rfl, Value.token.inj htoken, fun hnull => ?_⟩
        rcases hr with rfl | ⟨e, rfl⟩
        · exact hreply hnull
        · cases hnull
    · have hne : "lock:" ++ key ≠ "lock:" ++ key' := fun heq => hsame (lockKey_inj.mp heq).symm
      exact Or.inl ((KeyValue.entry_congr
        (acquireLock_ne hne (lockKey_ne_fenceKey hkey))).symm.trans he)
  · exact Or.inl he

/-- A lock in Redis after the script of a release: it was there before, and it is not the one that
the script is to release, unless its request has got lost. -/
theorem Called.entry_release {client : ℕ} {token' : Token} {key' : String} {r : Except JsError ℤ}
    (h : s.Called i (.releaseLock client ("lock:" ++ key') token') r s₁)
    {e : KeyValue.Entry Value} (he : s₁.store.entry s.now ("lock:" ++ key) = some e)
    (htoken : e.value = .token token) : s.store.entry s.now ("lock:" ++ key) = some e ∧
      (key' = key → token' = token → ∃ e, r = .error e) := by
  rcases h.script rfl with ⟨rfl, hr⟩ | ⟨rfl, hr⟩
  · by_cases hsame : key' = key
    · subst hsame
      by_cases hholds : holds s.now s.store ("lock:" ++ key') token' = true
      · have hgone : s.store.del ("lock:" ++ key') ("lock:" ++ key') = some e := by
          have hstore := congrArg Prod.fst (releaseLock_of_holds hholds)
          exact (congrFun hstore _).symm.trans (KeyValue.entry_eq_some.mp he).1
        rw [KeyValue.del_self] at hgone
        cases hgone
      · have hstore := congrArg Prod.fst (releaseLock_of_not_holds (Bool.eq_false_iff.mpr hholds))
        have he' : s.store.entry s.now ("lock:" ++ key') = some e :=
          (KeyValue.entry_congr (congrFun hstore _)).symm.trans he
        refine ⟨he', fun _ heq => absurd (holds_iff.mpr ⟨e, he', ?_⟩) hholds⟩
        rw [heq, htoken]
    · have hne : "lock:" ++ key ≠ "lock:" ++ key' := fun heq => hsame (lockKey_inj.mp heq).symm
      exact ⟨(KeyValue.entry_congr (releaseLock_ne hne)).symm.trans he, fun h => absurd h hsame⟩
  · exact ⟨he, fun _ _ => hr⟩

/-- The owners of the locks after a call of the service. -/
theorem Inv.owned_called {c : LockCall} {k : Except JsError c.Reply → Program U RU (Option α)}
    {r : Except JsError c.Reply} (hs : s.Inv) (hi : s.sections[i]? = some u)
    (hcode : u.code = .await (.inl c) k) (h : s.Called i c r s₁) :
    (s₁.resume i u (.inl c) k r).Owned := by
  have hu := hs.sound i u hi
  obtain ⟨hnow, hsections, hdrawn⟩ := h.frame
  have hcontract := hu.contract
  rw [hcode] at hcontract
  have hpre := hcontract.1
  intro key hkey e token he htoken
  replace he : s₁.store.entry s.now ("lock:" ++ key) = some e := hnow ▸ he
  show ∃ j v, Owner s₁.drawnBy (s₁.sections.set i (u.after s₁.now (.inl c) k r)) key token j v
  rw [hsections]
  have hstays : s.store.entry s.now ("lock:" ++ key) = some e →
      (u.key = key → held u.past = some token →
        held (u.past ++ [(⟨.inl c, r⟩ : LockEvent U RU)]) = some token ∨
        LockFailed (u.past ++ [(⟨.inl c, r⟩ : LockEvent U RU)])) →
      ∃ j v, Owner s₁.drawnBy (s.sections.set i (u.after s₁.now (.inl c) k r)) key token j v := by
    intro hbefore hheld
    obtain ⟨j, v, howner⟩ := hs.owned key hkey e token hbefore htoken
    exact howner.set hdrawn hi rfl hheld fun hfailed => hfailed.append _
  cases c with
  | acquireLock client lockKey fenceKey token' ttlMs fencing =>
    obtain ⟨rfl, rfl, hdrew, hnone⟩ := hpre
    rcases h.entry_acquire hu.notFence hkey he htoken with hbefore | ⟨rfl, rfl, hr⟩
    · exact hstays hbefore fun _ hheld =>
        absurd (hnone.symm.trans hheld) (Option.some_ne_none token).symm
    · exact ⟨i, _, hdrawn _ _ (hu.drawn token' hdrew),
        List.getElem?_set_self (List.getElem?_eq_some_iff.mp hi).1, rfl, held_taken u.past hr⟩
  | releaseLock client lockKey token' =>
    obtain ⟨rfl, hheld'⟩ := hpre
    obtain ⟨hbefore, hlost⟩ := h.entry_release he htoken
    refine hstays hbefore fun hsame hheld => Or.inr ?_
    obtain ⟨e, rfl⟩ := hlost hsame (Option.some.inj (hheld'.symm.trans hheld))
    exact lockFailed_concat _ _ e
  | extendLock => exact hpre.elim
  | randomBytes | dateNow | mathRandom | sleep | startWatchdog | stopWatchdog =>
    rw [h.store_eq rfl] at he
    exact hstays he fun _ hheld => Or.inl ((held_concat _ _).trans hheld)

/-- The script of an extension changes nothing, or it moves the end of the lease. -/
theorem extendLock_spec {lockKey : String} {ms : JsNumber} (hms : AtLeastOne ms) :
    ((extendLock now st lockKey token ms).1 = st ∧ (extendLock now st lockKey token ms).2 ≠ .ok 1) ∨
    holds now st lockKey token = true ∧ extendLock now st lockKey token ms =
      (st.set lockKey (.token token) (some (now + LockState.millis ms)), .ok 1) := by
  by_cases hholds : holds now st lockKey token = true
  · rcases extendLock_of_holds ms hholds with ⟨e, he⟩ | ⟨n, hn, rfl, -⟩ | ⟨n, -, rfl, he⟩
    · rw [he]
      exact Or.inl ⟨rfl, nofun⟩
    · -- a time of at least one millisecond is positive
      have hone : (1 : ℚ) ≤ n := hms
      have hone : (1 : ℤ) ≤ n := by exact_mod_cast hone
      omega
    · exact Or.inr ⟨hholds, he⟩
  · rw [extendLock_of_not_holds ms (Bool.eq_false_iff.mpr hholds)]
    exact Or.inl ⟨rfl, by simp⟩

/-- Call `i` goes on: the others have nothing to do with it. -/
theorem Inv.set {u' : Section U RU α} (hs : s.Inv) (hi : s.sections[i]? = some u)
    (hdrawn : ∀ n j : ℕ, s.drawnBy[n]? = some j → drawnBy'[n]? = some j)
    (hu' : Sound s.now st' drawnBy' i u')
    (hstore : ∀ key token t, held u.past ≠ some token → s.now ≤ t →
      s.store key = some ⟨.token token, some t⟩ → st' key = some ⟨.token token, some t⟩)
    (howned : Owned ⟨s.now, st', drawnBy', s.sections.set i u'⟩) :
    Inv ⟨s.now, st', drawnBy', s.sections.set i u'⟩ := by
  refine ⟨fun j v hj => ?_, howned⟩
  by_cases hij : i = j
  · subst hij
    rw [List.getElem?_set_self (List.getElem?_eq_some_iff.mp hi).1] at hj
    obtain rfl := Option.some.inj hj
    exact hu'
  · rw [List.getElem?_set_ne hij] at hj
    have hv := hs.sound j v hj
    exact hv.frame le_rfl hdrawn fun token t hheld hle hlive =>
      hstore _ token t ((hs.sound i u hi).held_ne hv hij hheld) hle hlive

/-- A call of the service. -/
theorem Inv.called {c : LockCall} {k : Except JsError c.Reply → Program U RU (Option α)}
    {r : Except JsError c.Reply} (hs : s.Inv) (hi : s.sections[i]? = some u)
    (hcode : u.code = .await (.inl c) k) (h : s.Called i c r s₁) :
    (s₁.resume i u (.inl c) k r).Inv := by
  have hu := hs.sound i u hi
  have hcontract := hu.contract
  rw [hcode] at hcontract
  have howned := hs.owned_called hi hcode h
  have hsound := hu.called hcode h
  obtain ⟨hnow, hsections, hdrawn⟩ := h.frame
  have hresume : s₁.resume i u (.inl c) k r =
      ⟨s.now, s₁.store, s₁.drawnBy, s.sections.set i (u.after s.now (.inl c) k r)⟩ := by
    show (⟨s₁.now, s₁.store, s₁.drawnBy, s₁.sections.set i (u.after s₁.now (.inl c) k r)⟩ :
      Sections U RU α) = _
    rw [hsections, hnow]
  rw [hresume] at howned ⊢
  rw [hnow] at hsound
  exact hs.set hi hdrawn hsound
    (fun key token t hheld hle hlive => h.keeps hcontract.1 hheld hle hlive) howned

/-- A call of the body settles. -/
theorem Inv.settled {c : U} {k : Except JsError (RU c) → Program U RU (Option α)}
    {r : Except JsError (RU c)} (hs : s.Inv) (hi : s.sections[i]? = some u)
    (hcode : u.code = .await (.inr c) k) : (s.resume i u (.inr c) k r).Inv := by
  have hu := hs.sound i u hi
  have hcontract := hu.contract
  rw [hcode] at hcontract
  have hheld : held (u.past ++ [(⟨.inr c, r⟩ : LockEvent U RU)]) = held u.past := held_concat _ _
  refine hs.set hi (fun n j hn => hn) ⟨hu.notFence, hcontract.2 r, fun token hdrew => ?_,
    fun token h => ?_, fun token h => hu.kept token (hheld.symm.trans h)⟩
    (fun key token t _ _ hlive => hlive) fun key hkey e token he htoken => ?_
  · rcases List.mem_append.mp hdrew with hold | hnew
    · exact hu.drawn token hold
    · cases List.mem_singleton.mp hnew
  · exact (hu.granted token (hheld.symm.trans h)).append _
  · obtain ⟨j, v, howner⟩ := hs.owned key hkey e token he htoken
    exact howner.set (fun n j hn => hn) hi rfl (fun _ h => Or.inl (hheld.trans h))
      fun hfailed => hfailed.append _

/-- An extension of the lock that call `i` holds. -/
theorem Inv.extended {ms : JsNumber} (hs : s.Inv) (hms : AtLeastOne ms)
    (hi : s.sections[i]? = some u) (hheld : held u.past = some token) :
    Inv { s with
      store := (extendLock s.now s.store ("lock:" ++ u.key) token ms).1
      sections := s.sections.set i { u with
        expiry := if (extendLock s.now s.store ("lock:" ++ u.key) token ms).2 = .ok 1 then
          some (s.now + LockState.millis ms) else u.expiry } } := by
  have hu := hs.sound i u hi
  rcases @extendLock_spec token s.now s.store ("lock:" ++ u.key) ms hms with
    ⟨hstore, hreply⟩ | ⟨hholds, heq⟩
  · rw [hstore, if_neg hreply]
    refine hs.set hi (fun n j hn => hn) hu (fun key token t _ _ hlive => hlive)
      fun key hkey e token' he htoken => ?_
    obtain ⟨j, v, howner⟩ := hs.owned key hkey e token' he htoken
    exact howner.set (fun n j hn => hn) hi rfl (fun _ h => Or.inl h) id
  · rw [heq, if_pos rfl]
    refine hs.set hi (fun n j hn => hn) ⟨hu.notFence, hu.contract, hu.drawn, hu.granted,
      fun token' h => ?_⟩ (fun key token' t hne hle hlive => ?_)
      fun key hkey e token' he htoken => ?_
    · obtain rfl := Option.some.inj (hheld.symm.trans h)
      exact ⟨_, rfl, fun _ => KeyValue.set_self⟩
    · by_cases hsame : key = "lock:" ++ u.key
      · subst hsame
        obtain ⟨e, he, hvalue⟩ := holds_iff.mp hholds
        obtain rfl := Option.some.inj (hlive.symm.trans (KeyValue.entry_eq_some.mp he).1)
        obtain rfl := Value.token.inj hvalue
        exact absurd hheld hne
      · exact (KeyValue.set_ne hsame).trans hlive
    · by_cases hsame : u.key = key
      · subst hsame
        obtain rfl := Option.some.inj (KeyValue.set_self.symm.trans (KeyValue.entry_eq_some.mp he).1)
        obtain rfl := Value.token.inj htoken
        exact ⟨i, _, hu.drawn _ (hu.granted _ hheld),
          List.getElem?_set_self (List.getElem?_eq_some_iff.mp hi).1, rfl, Or.inl hheld⟩
      · have hne : "lock:" ++ key ≠ "lock:" ++ u.key := fun heq => hsame (lockKey_inj.mp heq).symm
        obtain ⟨j, v, howner⟩ := hs.owned key hkey e token'
          ((KeyValue.entry_congr (KeyValue.set_ne hne)).symm.trans he) htoken
        exact howner.set (fun n j hn => hn) hi rfl (fun _ h => Or.inl h) id

theorem Inv.step {a : SectionAction U RU α} (hs : s.Inv) (ha : s.Allowed a)
    (h : s.step numberText a = some s') : s'.Inv := by
  match moves_of_step h with
  | .starts service key ttlMs fn opts fuel =>
    refine ⟨fun j v hj => ?_, fun key' hkey' e token he htoken => ?_⟩
    · change (s.sections ++ [_])[j]? = some v at hj
      by_cases hlt : j < s.sections.length
      · rw [List.getElem?_append_left hlt] at hj
        exact hs.sound j v hj
      · rw [List.getElem?_append_right (Nat.le_of_not_lt hlt), List.getElem?_singleton] at hj
        split_ifs at hj
        obtain rfl := Option.some.inj hj
        exact ⟨ha, RedisLockService.withLock_held_satisfies, fun token h => absurd h List.not_mem_nil,
          nofun, nofun⟩
    · obtain ⟨j, v, hdrew, hcall, hkey, hholds⟩ := hs.owned key' hkey' e token he htoken
      refine ⟨j, v, hdrew, ?_, hkey, hholds⟩
      exact (List.getElem?_append_left (List.getElem?_eq_some_iff.mp hcall).1).trans hcall
  | .calls a i u c k r s₁ hu hcode hcalled => exact hs.called hu hcode hcalled
  | .settles i reply u c k hu hcode => exact hs.settled hu hcode
  | .extends i ms u token hu hheld => exact hs.extended ha hu hheld
  | .passes ms =>
    refine ⟨fun j v hj => ?_, fun key hkey e token he htoken => ?_⟩
    · exact (hs.sound j v hj).frame (Nat.le_add_right _ _) (fun _ _ hn => hn)
        fun _ _ _ _ hlive => hlive
    · exact hs.owned key hkey e token (KeyValue.entry_of_le (Nat.le_add_right _ _) he) htoken

theorem Initial.inv (h : s.Initial) : s.Inv := by
  refine ⟨fun i u hu => ?_, fun key _ e token he => ?_⟩
  · rw [h.sections] at hu
    cases hu
  · rw [KeyValue.entry, h.store] at he
    cases he

theorem inv_of_reaches {s₀ : Sections U RU α} (h₀ : s₀.Initial)
    (h : Transition.Reaches (step numberText) Allowed s₀ s) : s.Inv :=
  h.invariant h₀.inv fun _ _ _ hu ha hstep => hu.step ha hstep

/-- A body in its critical section holds the lock. -/
theorem Inv.held_of_inside (hs : s.Inv) (hi : s.sections[i]? = some u) (hin : u.inside = true) :
    ∃ token, held u.past = some token := by
  have hcontract := (hs.sound i u hi).contract
  unfold Section.inside at hin
  split at hin
  · rename_i c k hcode
    rw [hcode] at hcontract
    exact Option.isSome_iff_exists.mp hcontract.1
  · cases hin

/-! ## Results -/

/-- Of two bodies in the critical section of one key, one has outlived its lease. -/
theorem sections_exclusive {s₀ : Sections U RU α} (h₀ : s₀.Initial)
    (h : Transition.Reaches (step numberText) Allowed s₀ s) (hi : s.sections[i]? = some u)
    (hj : s.sections[j]? = some v) (hij : i ≠ j) (hkey : u.key = v.key) (hu : u.inside = true)
    (hv : v.inside = true) : u.Expired s.now ∨ v.Expired s.now := by
  have hs := inv_of_reaches h₀ h
  obtain ⟨token, hheld⟩ := hs.held_of_inside hi hu
  obtain ⟨token', hheld'⟩ := hs.held_of_inside hj hv
  obtain ⟨t, hexpiry, hkept⟩ := (hs.sound i u hi).kept token hheld
  obtain ⟨t', hexpiry', hkept'⟩ := (hs.sound j v hj).kept token' hheld'
  by_contra hboth
  rw [not_or] at hboth
  have hlive : s.now ≤ t := Nat.le_of_not_lt fun hlt => hboth.1 ⟨t, hexpiry, hlt⟩
  have hlive' : s.now ≤ t' := Nat.le_of_not_lt fun hlt => hboth.2 ⟨t', hexpiry', hlt⟩
  -- both leases are in force, so Redis holds both tokens under the key
  have hstore := hkept hlive
  rw [hkey, hkept' hlive'] at hstore
  have hsame := Value.token.inj (congrArg KeyValue.Entry.value (Option.some.inj hstore))
  exact (hs.sound i u hi).held_ne (hs.sound j v hj) hij hheld' (hsame ▸ hheld)

/-- A body that makes one call. -/
def oneCall (_ : Lock) : Async JsError Unit (fun _ => Unit) Unit := Async.call ()

/-- The first body goes on after its lease is over; the second one has got the lock. -/
def lateBody : List (SectionAction Unit (fun _ => Unit) Unit) :=
  [.withLock ⟨1⟩ "job" 3000 oneCall {} 0, .perform 0 .answered, .perform 0 .answered, .tick 4000,
    .withLock ⟨2⟩ "job" 5000 oneCall {} 0, .perform 1 .answered, .perform 1 .answered]

theorem sections_exclusive_lateBody : ∃ (s : Sections Unit (fun _ => Unit) Unit)
    (u v : Section Unit (fun _ => Unit) Unit), s.sections[0]? = some u ∧ s.sections[1]? = some v ∧
      u.inside = true ∧ v.inside = true ∧ (u.Expired s.now ∨ v.Expired s.now) := by
  let s₀ : Sections Unit (fun _ => Unit) Unit := ⟨0, fun _ => none, [], []⟩
  have hrun : (Transition.run (step fun _ => "") Allowed s₀ lateBody).map (fun s =>
      decide (s.sections.map (fun u => (u.key, u.inside)) = [("job", true), ("job", true)])) =
        some true := by
    decide +kernel
  obtain ⟨s, hreach, hs⟩ := Transition.exists_reaches_of_run hrun
  obtain ⟨u, rest, hsections, hu, hrest⟩ := List.map_eq_cons_iff.mp (of_decide_eq_true hs)
  obtain ⟨v, hrest', hv⟩ := List.map_eq_singleton_iff.mp hrest
  obtain ⟨hukey, hin⟩ := Prod.mk.inj hu
  obtain ⟨hvkey, hin'⟩ := Prod.mk.inj hv
  have hi : s.sections[0]? = some u := by rw [hsections]; rfl
  have hj : s.sections[1]? = some v := by rw [hsections, hrest']; rfl
  exact ⟨s, u, v, hi, hj, hin, hin', sections_exclusive ⟨rfl, rfl, fun _ => rfl⟩ hreach hi hj
    (by decide) (hukey.trans hvkey.symm) hin hin'⟩

/-- A call that has settled without an error from the service has left no lock behind. -/
theorem settled_leaves_nothing {s₀ : Sections U RU α} (h₀ : s₀.Initial)
    (h : Transition.Reaches (step numberText) Allowed s₀ s) (hi : s.sections[i]? = some u)
    (hsettled : u.hasSettled = true) (hfine : ¬ LockFailed u.past) (hkey : ¬ Fence key)
    {e : KeyValue.Entry Value} (he : s.store.entry s.now ("lock:" ++ key) = some e)
    (htoken : e.value = .token token) : s.drawnBy[token.draw]? ≠ some i := by
  intro hdrew
  have hs := inv_of_reaches h₀ h
  obtain ⟨j, v, howner⟩ := hs.owned key hkey e token he htoken
  obtain rfl := Option.some.inj (hdrew.symm.trans howner.drew)
  obtain rfl := Option.some.inj (hi.symm.trans howner.call)
  have hcontract := (hs.sound i u hi).contract
  have hpost : held u.past = none ∨ LockFailed u.past := by
    unfold Section.hasSettled at hsettled
    split at hsettled
    · rename_i a hcode
      rw [hcode] at hcontract
      exact hcontract
    · rename_i e hcode
      rw [hcode] at hcontract
      exact hcontract
    · cases hsettled
  rcases howner.holds with hheld | hfailed
  · rcases hpost with hnone | hfailed
    · rw [hnone] at hheld
      cases hheld
    · exact hfine hfailed
  · exact hfine hfailed

/-- The first call has settled when the second one takes the lock. -/
def inTurn : List (SectionAction Unit (fun _ => Unit) Unit) :=
  [.withLock ⟨1⟩ "job" 3000 oneCall {} 0, .perform 0 .answered, .perform 0 .answered,
    .settle 0 (fun _ => .error (.error "failed")), .perform 0 .answered,
    .withLock ⟨2⟩ "job" 5000 oneCall {} 0, .perform 1 .answered, .perform 1 .answered]

theorem settled_leaves_nothing_inTurn : ∃ s : Sections Unit (fun _ => Unit) Unit,
    s.store.entry s.now "lock:job" = some ⟨.token ⟨1⟩, some 5000⟩ ∧ s.drawnBy[1]? ≠ some 0 := by
  let s₀ : Sections Unit (fun _ => Unit) Unit := ⟨0, fun _ => none, [], []⟩
  have hrun : (Transition.run (step fun _ => "") Allowed s₀ inTurn).map (fun s =>
      decide (s.sections.map (fun u => (u.hasSettled, decide (LockFailed u.past))) =
        [(true, false), (false, false)]) && (s.store "lock:job").any (fun e =>
          e.value.isToken ⟨1⟩ && decide (e.expireAt = some 5000 ∧ s.now = 0))) = some true := by
    decide +kernel
  obtain ⟨s, hreach, hs⟩ := Transition.exists_reaches_of_run hrun
  obtain ⟨hsections, hstored⟩ := Bool.and_eq_true_iff.mp hs
  obtain ⟨u, rest, hsections, hu, -⟩ := List.map_eq_cons_iff.mp (of_decide_eq_true hsections)
  obtain ⟨hsettled, hfine⟩ := Prod.mk.inj hu
  have hi : s.sections[0]? = some u := by rw [hsections]; rfl
  obtain ⟨⟨value, expireAt⟩, hstore, hentry⟩ := (Option.any_eq_true ..).mp hstored
  obtain ⟨hvalue, htime⟩ := Bool.and_eq_true_iff.mp hentry
  obtain ⟨hexpire, hnow⟩ := of_decide_eq_true htime
  obtain rfl : value = .token ⟨1⟩ := by
    cases value with
    | token t => exact congrArg Value.token (of_decide_eq_true hvalue)
    | _ => cases hvalue
  subst hexpire
  have he : s.store.entry s.now ("lock:" ++ "job") = some ⟨.token ⟨1⟩, some 5000⟩ := by
    rw [hnow]
    exact KeyValue.entry_eq_some.mpr ⟨hstore, rfl⟩
  exact ⟨s, he, settled_leaves_nothing ⟨rfl, rfl, fun _ => rfl⟩ hreach hi hsettled
    (of_decide_eq_false hfine) (by decide) he rfl⟩

end Steps

end Sections

end NestFastify.Redis
