import NestFastify.Redis.LockSafety

/-!
# Fencing tokens

Runs of the lock system over any keys, together with the record of the acquireLock scripts
that Redis has granted, in the order in which they were executed. The counter of a key is
only ever written by `INCR`, so the tokens of its fencing acquires increase; and the token of
a lock object is the reply of the script that granted it.
-/

namespace NestFastify.Redis

open Async (Resumes)

/-- An acquireLock that Redis has granted, with its reply. -/
structure Granting where
  lockKey : String
  fenceKey : String
  token : Token
  fencing : Bool
  reply : ℤ
deriving DecidableEq

/-- The grant that a reply of acquireLock stands for. -/
def granting (lockKey fenceKey : String) (token : Token) (fencing : Bool) :
    Except JsError (Option ℤ) → List Granting
  | .ok (some n) => [⟨lockKey, fenceKey, token, fencing, n⟩]
  | _ => []

def grantOf : (c : LockCall) → Except JsError c.Reply → List Granting
  | .acquireLock _ lockKey fenceKey token _ fencing, r => granting lockKey fenceKey token fencing r
  | _, _ => []

namespace LockState

/-- The grants of a step: of a script that is executed, whether its reply gets lost or not. -/
def grants (s : LockState) : LockAction → List Granting
  | .perform i transport =>
    match s.processes[i]? with
    | some ⟨_, _, .await (.inl c) _⟩ =>
      if transport = .requestLost then []
      else ((s.execute i c).map fun r => grantOf c r.2).getD []
    | _ => []
  | _ => []

/-- The fencing tokens that the counter `fenceKey` has given out. -/
def tokensOf (fenceKey : String) (granted : List Granting) : List ℤ :=
  granted.filterMap fun g => if g.fencing ∧ g.fenceKey = fenceKey then some g.reply else none

/-! ## The counter of a key -/

/-- The tokens given out increase, and the counter holds the last one and never lapses.
Before the first one the entry is not an integer. -/
structure Counting (store : Store) (fenceKey : String) (tokens : List ℤ) : Prop where
  increasing : tokens.Pairwise (· < ·)
  counter : (tokens = [] ∧ ∀ e, store fenceKey = some e → e.value.integer = none) ∨
    ∃ earlier n, tokens = earlier ++ [n] ∧ store fenceKey = some ⟨.counter n, none⟩

section Counting

variable {now : ℕ} {st : Store} {key lockKey fenceKey : String} {token : Token}
  {ttlMs : JsNumber} {fencing : Bool} {tokens : List ℤ}

/-- A counter counts on as long as its entry is the same. -/
theorem Counting.congr {st' : Store} (h : Counting st key tokens) (hsame : st' key = st key) :
    Counting st' key tokens := by
  refine ⟨h.increasing, ?_⟩
  rw [hsame]
  exact h.counter

/-- A token that is larger than all the others. -/
theorem pairwise_concat {earlier : List ℤ} {n m : ℤ} (h : (earlier ++ [n]).Pairwise (· < ·))
    (hlt : n < m) : (earlier ++ [n] ++ [m]).Pairwise (· < ·) := by
  rw [List.pairwise_append]
  refine ⟨h, List.pairwise_singleton _ m, ?_⟩
  intro a ha b hb
  rw [List.mem_singleton] at hb
  subst hb
  rcases List.mem_append.mp ha with hold | hlast
  · have hn : a < n := (List.pairwise_append.mp h).2.2 a hold n (List.mem_singleton.mpr rfl)
    omega
  · rw [List.mem_singleton] at hlast
    omega

/-- What `INCR` gives out goes to the end of the tokens. -/
theorem Counting.incr (h : Counting st key tokens) {n : ℤ}
    (hreply : (incr now st key).2 = .ok (some n)) :
    Counting (incr now st key).1 key (tokens ++ [n]) := by
  unfold Redis.incr at hreply ⊢
  rcases h.counter with ⟨rfl, hnone⟩ | ⟨earlier, m, rfl, hcounter⟩
  · match hentry : st.entry now key with
    | none =>
      rw [hentry] at hreply
      cases hreply
      exact ⟨List.pairwise_singleton _ _, Or.inr ⟨[], 1, rfl, KeyValue.set_self⟩⟩
    | some e =>
      have hint := hnone e (KeyValue.entry_eq_some.mp hentry).1
      simp [hentry, hint] at hreply
  · have hentry : st.entry now key = some ⟨.counter m, none⟩ :=
      KeyValue.entry_eq_some.mpr ⟨hcounter, rfl⟩
    rw [hentry] at hreply ⊢
    cases hreply
    exact ⟨pairwise_concat h.increasing (by omega),
      Or.inr ⟨earlier ++ [m], m + 1, rfl, KeyValue.set_self⟩⟩

/-- `INCR` without an answer changes nothing. -/
theorem incr_error {e : JsError} (hreply : (Redis.incr now st key).2 = .error e) :
    (Redis.incr now st key).1 = st := by
  unfold Redis.incr at hreply ⊢
  match hentry : st.entry now key with
  | none =>
    rw [hentry] at hreply
    cases hreply
  | some entry =>
    rw [hentry] at hreply
    match hint : entry.value.integer with
    | none => simp only [hint]
    | some n => simp [hint] at hreply

/-- INCR returns a number or fails. -/
theorem incr_ne_none : (Redis.incr now st key).2 ≠ .ok none := by
  unfold Redis.incr
  split
  · nofun
  · split <;> nofun

/-- `SET NX` on another entry, or on one that holds no counter yet. -/
theorem Counting.setNx (h : Counting st key tokens) (hfree : st.entry now lockKey = none)
    (token : Token) (until' : Option ℕ) :
    Counting (st.set lockKey (.token token) until') key tokens := by
  by_cases heq : key = lockKey
  · subst heq
    refine ⟨h.increasing, ?_⟩
    rcases h.counter with ⟨hnil, -⟩ | ⟨earlier, n, -, hcounter⟩
    · refine Or.inl ⟨hnil, ?_⟩
      intro e he
      rw [KeyValue.set_self] at he
      cases he
      rfl
    · -- a counter never lapses, so its entry is taken
      have hentry : st.entry now key = some ⟨.counter n, none⟩ :=
        KeyValue.entry_eq_some.mpr ⟨hcounter, rfl⟩
      exact nomatch hfree.symm.trans hentry
  · exact h.congr (KeyValue.set_ne heq)

/-- The draw of a fencing token appends it to the tokens of its counter. -/
theorem Counting.drawn (h : Counting st key tokens) :
    Counting (Redis.incr now st fenceKey).1 key (tokens ++ tokensOf key
      (granting lockKey fenceKey token true (Redis.incr now st fenceKey).2)) := by
  rcases hreply : (Redis.incr now st fenceKey).2 with e | _ | n
  · rw [incr_error hreply]
    show Counting _ key (tokens ++ [])
    rw [List.append_nil]
    exact h
  · exact absurd hreply incr_ne_none
  · by_cases heq : fenceKey = key
    · subst heq
      have htokens : tokensOf fenceKey (granting lockKey fenceKey token true
          (.ok (some n))) = [n] := by
        simp [tokensOf, granting]
      rw [htokens]
      exact h.incr hreply
    · have htokens : tokensOf key (granting lockKey fenceKey token true
          (.ok (some n))) = [] := by
        simp [tokensOf, granting, heq]
      rw [htokens, List.append_nil]
      exact h.congr (incr_ne (Ne.symm heq))

/-- An acquireLock appends what it gives out to the tokens of its counter. -/
theorem Counting.acquireLock (h : Counting st key tokens) :
    Counting (acquireLock now st lockKey fenceKey token ttlMs fencing).1 key
      (tokens ++ tokensOf key (granting lockKey fenceKey token fencing
        (Redis.acquireLock now st lockKey fenceKey token ttlMs fencing).2)) := by
  have hsame : Counting st key (tokens ++ []) := by
    rw [List.append_nil]
    exact h
  unfold Redis.acquireLock setNxPx
  cases expiryArg ttlMs with
  | error e => exact hsame
  | ok ms =>
    by_cases hms : 0 < ms
    · simp only [if_pos hms]
      cases hset : st.setNx now lockKey (.token token) ms.toNat with
      | none => exact hsame
      | some st' =>
        obtain ⟨hfree, rfl⟩ := KeyValue.setNx_eq_some.mp hset
        have hst := h.setNx hfree token (some (now + ms.toNat))
        cases fencing with
        | false =>
          show Counting _ key (tokens ++ [])
          rw [List.append_nil]
          exact hst
        | true =>
          simp only [if_true]
          exact hst.drawn
    · simp only [if_neg hms]
      exact hsame

/-- extendLock and releaseLock leave a counter alone: it is nobody's token. -/
theorem Counting.of_token (h : Counting st key tokens) (now : ℕ) (token : Token)
    {st' : Store} (hne : ∀ key', key' ≠ lockKey → st' key' = st key')
    (hstale : holds now st lockKey token = false → st' = st)
    (hvalue : ∀ e, st' lockKey = some e → e.value.integer = none ∨ st' lockKey = st lockKey) :
    Counting st' key tokens := by
  by_cases heq : key = lockKey
  · subst heq
    rcases h.counter with ⟨hnil, hnone⟩ | ⟨earlier, n, htokens, hcounter⟩
    · refine ⟨h.increasing, Or.inl ⟨hnil, ?_⟩⟩
      intro e he
      rcases hvalue e he with hint | hsame
      · exact hint
      · exact hnone e (hsame.symm.trans he)
    · have hentry : st.entry now key = some ⟨.counter n, none⟩ :=
        KeyValue.entry_eq_some.mpr ⟨hcounter, rfl⟩
      have hholds : holds now st key token = false := by
        rw [holds, KeyValue.get, hentry]
        rfl
      rw [hstale hholds]
      exact h
  · exact h.congr (hne key heq)

/-- The script of `extend` leaves the counters alone. -/
theorem Counting.extendLock (h : Counting st key tokens) :
    Counting (Redis.extendLock now st lockKey token ttlMs).1 key tokens := by
  refine h.of_token now token (fun key' hne => extendLock_ne hne) (fun hstale => ?_) fun e he => ?_
  · rw [extendLock_of_not_holds ttlMs hstale]
  · by_cases hholds : holds now st lockKey token = true
    · rcases extendLock_of_holds ttlMs hholds with hrefused | hdel | hset
      · obtain ⟨e', he'⟩ := hrefused
        exact Or.inr (by rw [he'])
      · obtain ⟨n, -, -, hdel⟩ := hdel
        rw [hdel] at he
        exact nomatch KeyValue.del_self.symm.trans he
      · obtain ⟨ms, -, -, hset⟩ := hset
        rw [hset] at he
        cases KeyValue.set_self.symm.trans he
        exact Or.inl rfl
    · rw [extendLock_of_not_holds ttlMs (by simpa using hholds)]
      exact Or.inr rfl

/-- So does the script of `release`. -/
theorem Counting.releaseLock (h : Counting st key tokens) :
    Counting (Redis.releaseLock now st lockKey token).1 key tokens := by
  refine h.of_token now token (fun key' hne => releaseLock_ne hne) (fun hstale => ?_) fun e he => ?_
  · rw [releaseLock_of_not_holds hstale]
  · by_cases hholds : holds now st lockKey token = true
    · rw [releaseLock_of_holds hholds] at he
      exact nomatch KeyValue.del_self.symm.trans he
    · rw [releaseLock_of_not_holds (by simpa using hholds)]
      exact Or.inr rfl

end Counting

section Execute

variable {s s' : LockState} {i : ℕ} {c : LockCall} {r : Except JsError c.Reply} {key : String}
  {granted : List Granting}

/-- The tokens of a longer record are those of its parts. -/
theorem tokensOf_append (later : List Granting) :
    tokensOf key (granted ++ later) = tokensOf key granted ++ tokensOf key later := by
  rw [tokensOf, List.filterMap_append]
  rfl

/-- Every script keeps every counter. -/
theorem execute_counting (h : Counting s.store key (tokensOf key granted))
    (hexec : s.execute i c = some (s', r)) :
    Counting s'.store key (tokensOf key (granted ++ grantOf c r)) := by
  rw [tokensOf_append]
  have hnil : tokensOf key granted = tokensOf key granted ++ [] := (List.append_nil _).symm
  match c with
  | .acquireLock client lockKey fenceKey token ttlMs fencing =>
    cases hexec
    exact h.acquireLock
  | .extendLock client lockKey token ttlMs =>
    cases hexec
    rw [hnil] at h
    exact h.extendLock
  | .releaseLock client lockKey token =>
    cases hexec
    rw [hnil] at h
    exact h.releaseLock
  | .randomBytes =>
    cases hexec
    rw [hnil] at h
    exact h
  | .dateNow => exact nomatch hexec
  | .mathRandom => exact nomatch hexec
  | .sleep _ => exact nomatch hexec
  | .startWatchdog .. => exact nomatch hexec
  | .stopWatchdog _ => exact nomatch hexec

/-- An acquireLock without fencing leaves the counter of its own key alone. -/
theorem runAcquire_plain {token : Token} {ttlMs : JsNumber} :
    (s.runAcquire ("lock:" ++ key) ("lock:fence:" ++ key) token ttlMs false).1.store
      ("lock:fence:" ++ key) = s.store ("lock:fence:" ++ key) := by
  have hne : "lock:fence:" ++ key ≠ "lock:" ++ key := by
    intro heq
    have hlength := congrArg String.length heq
    simp only [String.length_append] at hlength
    exact absurd (Nat.add_right_cancel hlength) (by decide)
  show (Redis.acquireLock _ _ _ _ _ _ _).1 _ = _
  unfold Redis.acquireLock setNxPx
  match expiryArg ttlMs with
  | .error e => rfl
  | .ok ms =>
    by_cases hms : 0 < ms
    · simp only [if_pos hms]
      match hset : s.store.setNx s.now ("lock:" ++ key) (.token token) ms.toNat with
      | none => rfl
      | some st' =>
        obtain ⟨-, rfl⟩ := KeyValue.setNx_eq_some.mp hset
        exact KeyValue.set_ne hne
    · simp only [if_neg hms]

end Execute

/-! ## The fencing token of a lock object -/

section Contracts

variable {U : Type} {RU : U → Type} {key : String} {fencing : Bool}
  {past : List (LockEvent U RU)}

/-- The calls include the acquireLock of `key` that granted `token`, and the fencing token is
its reply, or `null` without fencing. -/
def GrantedAs (key : String) (fencing : Bool) (past : List (LockEvent U RU)) (token : Token)
    (fencingToken : Option ℤ) : Prop :=
  ∃ client ttlMs n, (⟨.inl (.acquireLock client ("lock:" ++ key) ("lock:fence:" ++ key) token ttlMs
    fencing), .ok (some n)⟩ : LockEvent U RU) ∈ past ∧ fencingToken = if fencing then some n else none

/-- The scripts that an acquire of `key` executes. -/
def CallAs (key : String) (fencing : Bool) : LockCall ⊕ U → Prop
  | .inl (.acquireLock _ lockKey fenceKey _ _ fencing') =>
    lockKey = "lock:" ++ key ∧ fenceKey = "lock:fence:" ++ key ∧ fencing' = fencing
  | .inl (.extendLock ..) => False
  | .inl (.releaseLock ..) => False
  | _ => True

def attemptAs (key : String) (fencing : Bool) (past : List (LockEvent U RU)) :
    Except JsError (Option (Token × Option ℤ)) → Prop
  | .ok (some got) => GrantedAs key fencing past got.1 got.2
  | _ => True

def acquireAs (key : String) (fencing : Bool) (past : List (LockEvent U RU)) :
    Except JsError (Option Lock) → Prop
  | .ok (some lock) => GrantedAs key fencing past lock.token lock.fencingToken
  | _ => True

/-- A grant stays on record. -/
theorem GrantedAs.append {token : Token} {fencingToken : Option ℤ}
    (h : GrantedAs key fencing past token fencingToken) (later : List (LockEvent U RU)) :
    GrantedAs key fencing (past ++ later) token fencingToken := by
  obtain ⟨client, ttlMs, n, hmem, htoken⟩ := h
  exact ⟨client, ttlMs, n, List.mem_append_left later hmem, htoken⟩

open RedisLockService

variable {numberText : JsNumber → String} {this : RedisLockService} {ttlMs : JsNumber}
  {opts : LockOptions} {retry : RetryWindow}

/-- One attempt returns the token and the number of its own grant. -/
theorem tryOnce_as :
    (this.tryOnce ("lock:" ++ key) ("lock:fence:" ++ key) ttlMs fencing).Satisfies
      (fun _ => CallAs key fencing) (attemptAs key fencing) past := by
  unfold tryOnce
  refine lockCall_bind_satisfies .randomBytes trivial (fun token => ?_) fun _ => trivial
  refine lockCall_bind_satisfies (.acquireLock this.client ("lock:" ++ key)
    ("lock:fence:" ++ key) token ttlMs fencing) ⟨rfl, rfl, rfl⟩ (fun res => ?_) fun _ => trivial
  match res with
  | none => trivial
  | some n =>
    exact ⟨this.client, ttlMs, n, List.mem_append_right _ (List.mem_singleton.mpr rfl), rfl⟩

/-- So does a round of retries. -/
theorem retryRound_as {deadline base : ℚ} :
    (retryRound (this.tryOnce ("lock:" ++ key) ("lock:fence:" ++ key) ttlMs fencing) retry
      deadline base).Satisfies (fun _ => CallAs key fencing)
      (Async.roundPost (fun _ _ => True) (attemptAs key fencing)) past := by
  unfold retryRound
  refine lockCall_bind_satisfies .dateNow trivial (fun (now : ℚ) => ?_) fun _ => trivial
  by_cases hlt : now < deadline
  · rw [if_pos hlt]
    refine lockCall_bind_satisfies .dateNow trivial (fun now => ?_) fun _ => trivial
    refine lockCall_bind_satisfies .mathRandom trivial (fun x => ?_) fun _ => trivial
    refine lockCall_bind_satisfies (.sleep _) trivial (fun _ => ?_) fun _ => trivial
    refine tryOnce_as.bind (fun past' got hgot => ?_) fun past' e he => he
    match got with
    | none => trivial
    | some got => exact hgot
  · rw [if_neg hlt]
    trivial

/-- So do all the rounds together. -/
theorem attempts_as {retry : Option RetryWindow} {fuel : ℕ} :
    (this.attempts ("lock:" ++ key) ("lock:fence:" ++ key) ttlMs fencing retry fuel).Satisfies
      (fun _ => CallAs key fencing) (attemptAs key fencing) past := by
  unfold attempts
  refine tryOnce_as.bind (fun past' got hgot => ?_) fun past' e he => he
  match got, retry with
  | some got, retry => exact hgot
  | none, none => trivial
  | none, some window =>
    show (retryAcquire _ window fuel).Satisfies _ _ _
    unfold retryAcquire
    refine lockCall_bind_satisfies .dateNow trivial (fun now => ?_) fun _ => trivial
    exact Async.Satisfies.loop (fun past s _ => retryRound_as) fuel trivial

/-- The lock object carries what the grant has returned. -/
theorem buildLock_as {lockKey : String} {token : Token} {fencingToken : Option ℤ}
    (h : GrantedAs key fencing past token fencingToken) :
    (this.buildLock key lockKey token fencingToken ttlMs opts).Satisfies (fun _ => CallAs key fencing)
      (fun past' r => ∀ lock, r = .ok lock →
        GrantedAs key fencing past' lock.token lock.fencingToken) past := by
  unfold buildLock
  by_cases hrenew : opts.autoRenew.getD false = true
  · rw [if_pos hrenew]
    refine lockCall_bind_satisfies (.startWatchdog _ ttlMs) trivial (fun _ lock hlock => ?_)
      fun _ => nofun
    cases hlock
    exact h.append _
  · rw [if_neg hrenew]
    intro lock hlock
    cases hlock
    exact h

/-- An acquire that returns a lock object has been granted it, with its number. -/
theorem acquire_as {fuel : ℕ} :
    (this.acquire numberText key ttlMs opts fuel).Satisfies
      (fun _ => CallAs key (opts.fencing.getD false))
      (acquireAs key (opts.fencing.getD false)) past := by
  unfold acquire
  match validateLockArgs numberText ttlMs opts with
  | .error e => trivial
  | .ok retry =>
    refine attempts_as.bind (fun past' got hgot => ?_) fun past' e he => trivial
    match got with
    | none => trivial
    | some (token, fencingToken) =>
      exact (buildLock_as hgot).bind (fun past'' lock hlock => hlock lock rfl)
        fun past'' e _ => trivial

end Contracts

/-! ## Runs -/

section System

variable {numberText : JsNumber → String} {s s' : LockState} {i : ℕ} {granted : List Granting}

variable (numberText) in
/-- A process follows its function, draws its tokens itself, and is recorded when one of its
acquireLock scripts is granted. -/
structure Traced (drawnBy : List ℕ) (granted : List Granting) (i : ℕ) (p : Process) : Prop where
  resumes : Resumes (p.task.code numberText) p.past p.code
  drawn : ∀ token, Drew p.past token → drawnBy[token.draw]? = some i
  granted : ∀ c r, (⟨.inl c, r⟩ : CallEvent) ∈ p.past → ∀ g ∈ grantOf c r, g ∈ granted

section Traced

variable {drawnBy drawnBy' : List ℕ}

/-- A traced process stays traced as other processes draw and are granted. -/
theorem Traced.mono {p : Process} {granted' : List Granting}
    (h : Traced numberText drawnBy granted i p)
    (hdrawn : ∀ (n j : ℕ), drawnBy[n]? = some j → drawnBy'[n]? = some j)
    (hgranted : ∀ g ∈ granted, g ∈ granted') : Traced numberText drawnBy' granted' i p :=
  ⟨h.resumes, fun token ht => hdrawn _ _ (h.drawn token ht),
    fun c r hmem g hg => hgranted g (h.granted c r hmem g hg)⟩

/-- The next call of a process settles to `r`. -/
theorem Traced.resume {task : Task} {past : List CallEvent} {c : LockCall}
    {k : Except JsError c.Reply → Code}
    (h : Traced numberText drawnBy granted i ⟨task, past, .await (.inl c) k⟩)
    (r : Except JsError c.Reply)
    (hdraw : ∀ token, (⟨.inl c, r⟩ : CallEvent) = ⟨.inl .randomBytes, .ok token⟩ →
      drawnBy[token.draw]? = some i)
    (hgrant : ∀ g ∈ grantOf c r, g ∈ granted) :
    Traced numberText drawnBy granted i ⟨task, past ++ [⟨.inl c, r⟩], k r⟩ := by
  refine ⟨h.resumes.resume r, fun token ht => ?_, fun c' r' hmem => ?_⟩
  · rcases List.mem_append.mp ht with hold | hnew
    · exact h.drawn token hold
    · exact hdraw token (List.mem_singleton.mp hnew).symm
  · rcases List.mem_append.mp hmem with hold | hnew
    · exact h.granted c' r' hold
    · cases List.mem_singleton.mp hnew
      exact hgrant

end Traced

/-- A reply that got lost granted nothing to its caller. -/
theorem grantOf_error (c : LockCall) (e : JsError) : grantOf c (.error e) = [] := by
  match c with
  | .acquireLock .. => rfl
  | .extendLock .. => rfl
  | .releaseLock .. => rfl
  | .randomBytes => rfl
  | .dateNow => rfl
  | .mathRandom => rfl
  | .sleep _ => rfl
  | .startWatchdog .. => rfl
  | .stopWatchdog _ => rfl

/-- A call that is answered locally grants nothing. -/
theorem grantOf_localReply {c : LockCall} {x : ℚ} {r : c.Reply} (h : localReply x c = some r) :
    grantOf c (.ok r) = [] := by
  match c with
  | .acquireLock .. => exact nomatch h
  | .extendLock .. => exact nomatch h
  | .releaseLock .. => exact nomatch h
  | .randomBytes => exact nomatch h
  | .dateNow => rfl
  | .mathRandom => rfl
  | .sleep _ => rfl
  | .startWatchdog .. => rfl
  | .stopWatchdog _ => rfl

variable (numberText) in
/-- Every process is traced, and every counter counts. -/
structure FencingInv (s : LockState) (granted : List Granting) : Prop where
  processes : ∀ i p, s.processes[i]? = some p → Traced numberText s.drawnBy granted i p
  counting : ∀ key, Counting s.store ("lock:fence:" ++ key)
    (tokensOf ("lock:fence:" ++ key) granted)

/-- The grants of a step of process `i` whose call is executed. -/
theorem grants_perform {task : Task} {past : List CallEvent} {c : LockCall}
    {k : Except JsError c.Reply → Code} {s₁ : LockState} {r : Except JsError c.Reply}
    {transport : Transport} (hp : s.processes[i]? = some ⟨task, past, .await (.inl c) k⟩)
    (hexec : s.execute i c = some (s₁, r)) (hsent : transport ≠ .requestLost) :
    s.grants (.perform i transport) = grantOf c r := by
  simp only [grants, hp, hexec, if_neg hsent, Option.map_some, Option.getD_some]

/-- A request that is lost grants nothing. -/
theorem grants_requestLost : s.grants (.perform i .requestLost) = [] := by
  show (match s.processes[i]? with
    | some ⟨_, _, .await (.inl c) _⟩ =>
      if Transport.requestLost = Transport.requestLost then []
      else ((s.execute i c).map fun r => grantOf c r.2).getD []
    | _ => []) = []
  split
  · exact if_pos rfl
  · rfl

/-- Only scripts that are executed grant. -/
theorem grants_of_ne {a : LockAction} (h : ∀ i transport, a ≠ .perform i transport) :
    s.grants a = [] := by
  unfold grants
  split
  · exact absurd rfl (h _ _)
  · rfl

/-- A step in which nothing reaches Redis. -/
theorem FencingInv.quiet (hs : s.FencingInv numberText granted) {a : LockAction}
    (hnone : s.grants a = []) (hstore : s'.store = s.store)
    (hprocesses : ∀ i p, s'.processes[i]? = some p → Traced numberText s'.drawnBy granted i p) :
    s'.FencingInv numberText (granted ++ s.grants a) := by
  rw [hnone, List.append_nil]
  refine ⟨hprocesses, fun key => ?_⟩
  rw [hstore]
  exact hs.counting key

/-- Every step keeps the invariant. -/
theorem FencingInv.step {a : LockAction} (hs : s.FencingInv numberText granted)
    (h : s.step numberText a = some s') :
    s'.FencingInv numberText (granted ++ s.grants a) := by
  rcases step_cases h with hstart | hperform | hanswer | htick
  · obtain ⟨task, -, hne, rfl⟩ := hstart
    refine hs.quiet (grants_of_ne hne) rfl ?_
    intro i p hp
    rcases start_process hp with hold | rfl
    · exact (hs.processes i p hold).mono (fun _ _ hn => hn) fun _ hg => hg
    · exact ⟨.start, fun token ht => (nomatch ht), fun c r hmem => (nomatch hmem)⟩
  · obtain ⟨i, transport, rfl, hperform⟩ := hperform
    obtain ⟨task, past, c, k, s₁, r, hp, hexec, hcases⟩ := perform_cases hperform
    obtain ⟨hprocs, -, hdrawn⟩ := execute_frame hexec
    rcases hcases with ⟨r', hr', hsent, rfl⟩ | ⟨rfl, rfl⟩
    -- the call is executed, whether or not its answer gets through
    · rw [grants_perform hp hexec hsent]
      have hmono : ∀ j p, s.processes[j]? = some p →
          Traced numberText s₁.drawnBy (granted ++ grantOf c r) j p := fun j p hj =>
        (hs.processes j p hj).mono hdrawn fun _ => List.mem_append_left _
      have hcounting : ∀ key, Counting s₁.store ("lock:fence:" ++ key)
          (tokensOf ("lock:fence:" ++ key) (granted ++ grantOf c r)) :=
        fun key => execute_counting (hs.counting key) hexec
      refine ⟨fun j p hj => ?_, hcounting⟩
      rcases resume_process hj with hold | ⟨rfl, rfl⟩
      · rw [hprocs] at hold
        exact hmono j p hold
      · refine (hmono j _ hp).resume r' (fun token ht => ?_) fun g hg => ?_
        · rcases hr' with rfl | ⟨e, rfl⟩
          · exact execute_draw hexec ht
          · exact nomatch ht
        · rcases hr' with rfl | ⟨e, rfl⟩
          · exact List.mem_append_right _ hg
          · rw [grantOf_error] at hg
            exact nomatch hg
    · refine hs.quiet grants_requestLost rfl ?_
      intro j p hj
      rcases resume_process hj with hold | ⟨rfl, rfl⟩
      · exact hs.processes j p hold
      · refine (hs.processes j _ hp).resume _ (fun token ht => ?_) fun g hg => ?_
        · exact nomatch ht
        rw [grantOf_error] at hg
        exact nomatch hg
  · obtain ⟨i, x, rfl, hanswer⟩ := hanswer
    obtain ⟨task, past, c, k, r, hp, hr, rfl⟩ := answer_cases hanswer
    refine hs.quiet rfl rfl ?_
    intro j p hj
    rcases resume_process hj with hold | ⟨rfl, rfl⟩
    · exact hs.processes j p hold
    · refine (hs.processes j _ hp).resume _ (fun token ht => ?_) fun g hg => ?_
      · cases ht
        exact nomatch hr
      · rw [grantOf_localReply hr] at hg
        exact nomatch hg
  · obtain ⟨ms, rfl, rfl⟩ := htick
    exact hs.quiet rfl rfl fun i p hp =>
      (hs.processes i p hp).mono (fun _ _ hn => hn) fun _ hg => hg

/-- It holds at first. -/
theorem Initial.fencingInv (h : s.Initial) : s.FencingInv numberText [] := by
  refine ⟨fun i p hp => ?_, fun key => ⟨List.Pairwise.nil, Or.inl ⟨rfl, fun e he => ?_⟩⟩⟩
  · rw [h.processes] at hp
    exact nomatch hp
  · have hkey : "lock:fence:" ++ key = "lock:" ++ ("fence:" ++ key) := by
      rw [← String.append_assoc]
      rfl
    rw [hkey, h.store] at he
    exact nomatch he

/-- A recorded run of the system: any calls, on any keys. -/
abbrev Records (numberText : JsNumber → String) : LockState × List Granting →
    LockState × List Granting → Prop :=
  Transition.Reaches (Transition.recording (step numberText) grants) fun _ _ => True

/-- It holds in every recorded run. -/
theorem FencingInv.of_records {granted' : List Granting} (hs : s.FencingInv numberText granted)
    (h : Records numberText (s, granted) (s', granted')) : s'.FencingInv numberText granted' := by
  have hstep : ∀ p a q, p.1.FencingInv numberText p.2 → True →
      Transition.recording (LockState.step numberText) grants p a = some q →
      q.1.FencingInv numberText q.2 := by
    intro p a q hp _ hq
    obtain ⟨hnext, hrecord⟩ := Transition.recording_eq_some hq
    rw [hrecord]
    exact hp.step hnext
  exact @Transition.Reaches.invariant _ _ _ _ _ _ (fun p => p.1.FencingInv numberText p.2) h hs hstep

/-! ## Results -/

section Results

variable {key : String} {service : RedisLockService} {ttlMs : JsNumber} {opts : LockOptions}
  {fuel : ℕ} {past : List CallEvent} {lock : Lock}

/-- The contract of a call of `acquire`, about what its lock object was granted. -/
theorem acquireTask_as : ((Task.acquire service key ttlMs opts fuel).code numberText).Satisfies
    (fun _ => CallAs key (opts.fencing.getD false)) (fun past r => ∀ lock,
      r = .ok (.acquired (some lock)) →
        GrantedAs key (opts.fencing.getD false) past lock.token lock.fencingToken) [] := by
  refine acquire_as.bind (fun past got hgot => ?_) fun past e _ => nofun
  intro lock hlock
  cases hlock
  exact hgot

/-- An acquire that has returned a lock object carries the number of its grant. -/
theorem FencingInv.acquired (hs : s.FencingInv numberText granted) (hp : s.processes[i]? = some
      ⟨.acquire service key ttlMs opts fuel, past, .resolve (.acquired (some lock))⟩) :
    ∃ n, (⟨"lock:" ++ key, "lock:fence:" ++ key, lock.token, opts.fencing.getD false, n⟩ :
      Granting) ∈ granted ∧ lock.fencingToken = if opts.fencing.getD false then some n else none := by
  have htraced := hs.processes i _ hp
  have hpost : ∀ lock' : Lock, (.ok (.acquired (some lock)) : Except JsError Outcome) =
      .ok (.acquired (some lock')) →
        GrantedAs key (opts.fencing.getD false) past lock'.token lock'.fencingToken :=
    htraced.resumes.satisfies acquireTask_as
  obtain ⟨client, ttl, n, hmem, htoken⟩ := hpost lock rfl
  exact ⟨n, htraced.granted _ _ hmem _ (List.mem_singleton.mpr rfl), htoken⟩

/-- A lock object was returned by an acquire of its key, which has drawn its token. -/
theorem FencingInv.returnedLock (hs : s.FencingInv numberText granted) (h : s.lockOf i = some lock) :
    s.drawnBy[lock.token.draw]? = some i ∧ ∃ service ttlMs opts fuel past, s.processes[i]? =
      some ⟨.acquire service lock.key ttlMs opts fuel, past, .resolve (.acquired (some lock))⟩ := by
  obtain ⟨task, past, hp⟩ := lockOf_eq_some h
  have htraced := hs.processes i _ hp
  have hpost := htraced.resumes.satisfies (Task.satisfies numberText task)
  match task with
  | .acquire service key ttlMs opts fuel =>
    obtain ⟨hlock, hdrew, -⟩ := hpost
    rw [← hlock.key_eq] at hp
    exact ⟨htraced.drawn _ hdrew, service, ttlMs, opts, fuel, past, hp⟩
  | .extend lock' ms => exact hpost.elim
  | .renew lock' ttlMs => exact hpost.elim
  | .release lock' => exact hpost.elim

/-- A fencing token was given out by the counter of its key, with the lock's token. -/
theorem FencingInv.fencingToken (hs : s.FencingInv numberText granted)
    (h : s.lockOf i = some lock) {n : ℤ} (hn : lock.fencingToken = some n) :
    (⟨"lock:" ++ lock.key, "lock:fence:" ++ lock.key, lock.token, true, n⟩ : Granting) ∈ granted := by
  obtain ⟨-, service, ttlMs, opts, fuel, past, hp⟩ := hs.returnedLock h
  obtain ⟨m, hmem, htoken⟩ := hs.acquired hp
  rw [hn] at htoken
  by_cases hfencing : opts.fencing.getD false = true
  · rw [if_pos hfencing] at htoken
    cases htoken
    rw [hfencing] at hmem
    exact hmem
  · rw [if_neg hfencing] at htoken
    exact nomatch htoken

/-- A grant with fencing gives out a token. -/
theorem mem_tokensOf {g : Granting} (hg : g ∈ granted) (hfencing : g.fencing = true) :
    g.reply ∈ tokensOf g.fenceKey granted :=
  List.mem_filterMap.mpr ⟨g, hg, if_pos ⟨hfencing, rfl⟩⟩

variable (numberText) in
/-- What fencing guarantees for a key, in a state of a run. -/
structure Fenced (s : LockState) (granted : List Granting) (key : String) : Prop where
  /-- In the order in which the scripts were executed, the fencing tokens increase. -/
  increasing : (tokensOf ("lock:fence:" ++ key) granted).Pairwise (· < ·)
  /-- An acquire that returned a lock object carries the reply of the script that granted it,
  with fencing, and `null` without. -/
  returned : ∀ (i : ℕ) service ttlMs opts fuel past lock, s.processes[i]? = some
      ⟨.acquire service key ttlMs opts fuel, past, .resolve (.acquired (some lock))⟩ →
    ∃ n, (⟨"lock:" ++ key, "lock:fence:" ++ key, lock.token, opts.fencing.getD false, n⟩ :
      Granting) ∈ granted ∧ lock.fencingToken = if opts.fencing.getD false then some n else none
  /-- Two calls never return the same grant. -/
  own : ∀ (i j : ℕ) (li lj : Lock), s.lockOf i = some li → s.lockOf j = some lj →
    li.token = lj.token → i = j
  /-- An acquire without fencing does not touch the counter of its key. -/
  untouched : ∀ (i : ℕ) transport service ttlMs opts fuel past code s', s.processes[i]? = some
      ⟨.acquire service key ttlMs opts fuel, past, code⟩ → opts.fencing.getD false = false →
    s.step numberText (.perform i transport) = some s' →
    s'.store ("lock:fence:" ++ key) = s.store ("lock:fence:" ++ key)

/-- An acquire without fencing leaves the counter of its key as it is. -/
theorem FencingInv.untouched (hs : s.FencingInv numberText granted) {code : Code}
    {transport : Transport} (hp : s.processes[i]? = some
      ⟨.acquire service key ttlMs opts fuel, past, code⟩) (hplain : opts.fencing.getD false = false)
    (h : s.step numberText (.perform i transport) = some s') :
    s'.store ("lock:fence:" ++ key) = s.store ("lock:fence:" ++ key) := by
  obtain ⟨task, past', c, k, s₁, r, hp', hexec, hcases⟩ := perform_cases h
  rw [hp] at hp'
  cases hp'
  have hcall : CallAs key (opts.fencing.getD false) (Sum.inl c : LockCall ⊕ Empty) :=
    ((hs.processes i _ hp).resumes.satisfies acquireTask_as).1
  -- of the calls that an acquire makes, only its script changes the store
  have hstore : s₁.store ("lock:fence:" ++ key) = s.store ("lock:fence:" ++ key) := by
    match c with
    | .acquireLock client lockKey fenceKey token ms fencing =>
      obtain ⟨rfl, rfl, rfl⟩ := hcall
      rw [hplain] at hexec
      cases hexec
      exact runAcquire_plain
    | .extendLock .. => exact hcall.elim
    | .releaseLock .. => exact hcall.elim
    | .randomBytes =>
      cases hexec
      rfl
    | .dateNow => exact nomatch hexec
    | .mathRandom => exact nomatch hexec
    | .sleep _ => exact nomatch hexec
    | .startWatchdog .. => exact nomatch hexec
    | .stopWatchdog _ => exact nomatch hexec
  rcases hcases with ⟨r', -, -, rfl⟩ | ⟨-, rfl⟩
  · exact hstore
  · rfl

/-- The invariant gives what fencing guarantees. -/
theorem FencingInv.fenced (hs : s.FencingInv numberText granted) (key : String) :
    s.Fenced numberText granted key where
  increasing := (hs.counting key).increasing
  returned _ _ _ _ _ _ _ hp := hs.acquired hp
  own i j li lj hi hj htokens := by
    have hdrawn := (hs.returnedLock hi).1
    rw [htokens, (hs.returnedLock hj).1] at hdrawn
    exact (Option.some.inj hdrawn).symm
  untouched _ _ _ _ _ _ _ _ _ hp hplain h := hs.untouched hp hplain h

/-- Fencing tokens in every run: those of a key increase in the order of the grants, so every
lock object that has a fencing token has a smaller one than those granted later. -/
theorem fenced_of_records {s₀ t : LockState} {granted' : List Granting} (h0 : s₀.Initial)
    (h : Records numberText (s₀, []) (s, granted))
    (h' : Records numberText (s, granted) (t, granted')) :
    t.Fenced numberText granted' key ∧
      ∀ (i j : ℕ) (li lj : Lock) (a b : ℤ), s.lockOf i = some li → t.lockOf j = some lj →
        li.key = key → lj.key = key → (∀ g ∈ granted, g.token ≠ lj.token) →
        li.fencingToken = some a → lj.fencingToken = some b → a < b := by
  have hs : s.FencingInv numberText granted := h0.fencingInv.of_records h
  have ht : t.FencingInv numberText granted' := hs.of_records h'
  refine ⟨ht.fenced key, fun i j li lj a b hi hj hki hkj hlater ha hb => ?_⟩
  obtain ⟨later, rfl⟩ : granted <+: granted' := h'.record_prefix
  have hearlier : a ∈ tokensOf ("lock:fence:" ++ key) granted :=
    hki ▸ mem_tokensOf (hs.fencingToken hi ha) rfl
  have hgrant := ht.fencingToken hj hb
  have hnew : b ∈ tokensOf ("lock:fence:" ++ key) later := by
    rcases List.mem_append.mp hgrant with hold | hnew
    · exact absurd rfl (hlater _ hold)
    · exact hkj ▸ mem_tokensOf hnew rfl
  have hincreasing := (ht.fenced key).increasing
  rw [tokensOf_append] at hincreasing
  exact (List.pairwise_append.mp hincreasing).2.2 a hearlier b hnew

end Results

/-- A client takes the lock with a fencing token and loses it; another one takes it next. -/
def firstHolderRun : List LockAction :=
  [.acquire ⟨1⟩ "job" 3000 { fencing := some true } 0, .perform 0 .answered,
   .perform 0 .answered, .tick 4000]

def nextHolderRun : List LockAction :=
  [.acquire ⟨2⟩ "job" 3000 {} 0, .perform 1 .answered, .perform 1 .answered, .tick 4000,
   .acquire ⟨3⟩ "job" 5000 { fencing := some true } 0, .perform 2 .answered,
   .perform 2 .answered]

/-- The recorded state after some actions. -/
def recorded (p : LockState × List Granting) (as : List LockAction) :
    LockState × List Granting :=
  (Transition.run (Transition.recording (step fun _ => "") grants) (fun _ _ => True) p as).getD p

/-- A run that is not refused is a recorded one. -/
theorem records_recorded {p : LockState × List Granting} {as : List LockAction}
    (h : (Transition.run (Transition.recording (step fun _ => "") grants) (fun _ _ => True) p
      as).isSome = true) : Records (fun _ => "") p (recorded p as) := by
  obtain ⟨q, hq⟩ := Option.isSome_iff_exists.mp h
  rw [recorded, hq]
  exact Transition.reaches_of_run hq

/-- The next holder has the larger number, with an acquire without fencing in between. -/
theorem fenced_of_records_nextHolder :
    let p := recorded (idle, []) firstHolderRun
    let q := recorded p nextHolderRun
    (tokensOf "lock:fence:job" p.2 = [1] ∧ tokensOf "lock:fence:job" q.2 = [1, 2] ∧
      q.2.length = 3) ∧ q.1.Fenced (fun _ => "") q.2 "job" := by
  have h0 : Records (fun _ => "") (idle, []) (recorded (idle, []) firstHolderRun) :=
    records_recorded (by decide +kernel)
  have h : Records (fun _ => "") (recorded (idle, []) firstHolderRun)
      (recorded (recorded (idle, []) firstHolderRun) nextHolderRun) :=
    records_recorded (by decide +kernel)
  exact ⟨by decide +kernel, (fenced_of_records idle_initial h0 h).1⟩

end System

end LockState

end NestFastify.Redis
