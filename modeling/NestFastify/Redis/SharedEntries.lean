import NestFastify.Redis.Interference
import NestFastify.Redis.RateLimit
import NestFastify.Redis.Server

/-!
# Exactly which keys interfere

Keys that only differ in the prefixes `fence:` in front of them are the rungs of one ladder:
the lock entry of a rung is the fence entry of the rung below it. A lock that is held on a rung
makes the fencing acquire below it reject after it has taken its lock, and a counter makes the
acquire above it fail, so the rungs notice each other; and nothing else does.
-/

namespace NestFastify.Redis

/-! ## Keys with one root -/

/-- The key with `n` prefixes `fence:` in front. -/
def rung (base : String) : ℕ → String
  | 0 => base
  | n + 1 => "fence:" ++ rung base n

/-- Each prefix adds six characters. -/
theorem rung_length (base : String) (n : ℕ) : (rung base n).length = 6 * n + base.length := by
  induction n with
  | zero => simp [rung]
  | succ n ih =>
    have hfence : "fence:".length = 6 := by decide
    rw [rung, String.length_append, ih, hfence]
    omega

/-- Different numbers of prefixes give different keys. -/
theorem rung_inj {base : String} {m n : ℕ} (h : rung base m = rung base n) : m = n := by
  have hlength := congrArg String.length h
  rw [rung_length, rung_length] at hlength
  omega

/-- Every key is a rung above its root. -/
theorem exists_rungChars (key : List Char) :
    ∃ n, key = (rung (String.ofList (rootChars key)) n).toList := by
  induction key using rootChars.induct with
  | case1 rest ih =>
    obtain ⟨n, hn⟩ := ih
    refine ⟨n + 1, ?_⟩
    rw [rootChars, rung, String.toList_append, ← hn]
    rfl
  | case2 key hne =>
    refine ⟨0, ?_⟩
    rw [rung, rootChars.eq_2 key hne, String.toList_ofList]

/-- Every key is its root with some prefixes in front. -/
theorem exists_rung (key : String) : ∃ n, key = rung (String.ofList (root key)) n := by
  obtain ⟨n, hn⟩ := exists_rungChars key.toList
  exact ⟨n, String.toList_injective hn⟩

/-! ### Two clients -/

def withFencing : LockOptions := { fencing := some true }

/-- `acquire(key, 1000, {fencing: true})`. -/
def holderCode (key : String) : Code :=
  Outcome.acquired <$> RedisLockService.acquire (fun _ => "") ⟨0⟩ key 1000 withFencing 0

/-- `withLock(key, 1000, fn, {fencing: true})`, with a body that does nothing. -/
def passerCode (key : String) : Code :=
  (fun r => Outcome.flag r.isSome) <$>
    RedisLockService.withLock (fun _ => "") ⟨0⟩ key 1000 (fun _ => return ()) withFencing 0

/-- What `withLock` does on the reply of its script. -/
def passerReleases (key : String) (token : Token) : Code :=
  .await (.inl (.releaseLock 0 (lockEntryKey key) token)) fun
    | .ok _ => .resolve (.flag true)
    | .error e => .reject e

def passerReplied (key : String) (token : Token) : Except JsError (Option ℤ) → Code
  | .ok none => .reject (.appException "redis.LOCK_ACQUISITION_FAILED" 409)
  | .ok (some _) => passerReleases key token
  | .error e => .reject e

def passerAsks (key : String) (token : Token) : Code :=
  .await (.inl (.acquireLock 0 (lockEntryKey key) (fenceEntryKey key) token 1000 true))
    (passerReplied key token)

theorem validateLockArgs_withFencing :
    validateLockArgs (fun _ => "") 1000 withFencing = .ok none := by
  have hq : (0 : ℚ) < ((1000 : ℕ) : ℚ) := by norm_num
  have hfinite : finiteWith (0 < ·) (1000 : JsNumber)
      ("LockService: ttlMs phải > 0 (nhận " ++ "" ++ ")") = .ok ⟨((1000 : ℕ) : ℚ), hq⟩ :=
    finiteWith_finite hq _
  unfold validateLockArgs
  rw [hfinite]
  rfl

/-- `withLock` draws its token first. -/
theorem passerCode_eq (key : String) : ∃ k, passerCode key = .await (.inl .randomBytes) k ∧
    ∀ token, k (.ok token) = passerAsks key token := by
  unfold passerCode RedisLockService.withLock RedisLockService.acquire
  rw [validateLockArgs_withFencing]
  refine ⟨_, rfl, fun token => ?_⟩
  refine Async.await_congr (fun n => ?_) fun _ => rfl
  match n with
  | none => rfl
  | some n => exact Async.await_congr (fun _ => rfl) fun _ => rfl

/-- `acquire` draws its token and asks for the lock. -/
theorem holderCode_eq (key : String) : ∃ k, holderCode key = .await (.inl .randomBytes) k ∧
    ∀ token, ∃ k', k (.ok token) = .await (.inl (.acquireLock 0 (lockEntryKey key)
      (fenceEntryKey key) token 1000 true)) k' := by
  unfold holderCode RedisLockService.acquire
  rw [validateLockArgs_withFencing]
  exact ⟨_, rfl, fun token => ⟨_, rfl⟩⟩

/-- The calls of `withLock` are on its key. -/
theorem passer_onKey (key : String) :
    (passerCode key).Everywhere fun c _ => UsesKey key c := by
  unfold passerCode RedisLockService.withLock RedisLockService.acquire
  rw [validateLockArgs_withFencing]
  refine ⟨trivial, fun r => ?_⟩
  match r with
  | .error e => trivial
  | .ok token =>
    refine ⟨⟨rfl, rfl⟩, fun r => ?_⟩
    match r with
    | .error e => trivial
    | .ok none => trivial
    | .ok (some n) =>
      refine ⟨rfl, fun r => ?_⟩
      match r with
      | .ok n => trivial
      | .error e => trivial

/-- The calls of `acquire` are on its key. -/
theorem holder_onKey (key : String) :
    (holderCode key).Everywhere fun c _ => UsesKey key c := by
  unfold holderCode RedisLockService.acquire
  rw [validateLockArgs_withFencing]
  refine ⟨trivial, fun r => ?_⟩
  match r with
  | .error e => trivial
  | .ok token =>
    refine ⟨⟨rfl, rfl⟩, fun r => ?_⟩
    match r with
    | .error e => trivial
    | .ok none => trivial
    | .ok (some n) => trivial

/-! ### What the clients do to the entries -/

/-- Every call is answered. -/
def answered (token : Token) : Input := ⟨.answered, token, 0⟩

namespace Sessions

variable {s : Sessions} {i : ℕ} {key : String} {token : Token}

/-- Three calls of client `i` settle. -/
def pass (s : Sessions) (i : ℕ) (token : Token) : Sessions :=
  ((s.step (.call i (answered token))).step (.call i (answered token))).step
    (.call i (answered token))

/-- One call, on the code that the client has left. -/
theorem step_await {c : LockCall} {k : Except JsError c.Reply → Code}
    (hcode : s.code i = .await (.inl c) k) : s.step (.call i (answered token)) =
      { s with
        store := (settle s.now s.store (answered token) c).1
        code := Function.update s.code i (k (settle s.now s.store (answered token) c).2) } := by
  show ({ s with
    store := (advance s.now s.store (answered token) (s.code i)).1
    code := Function.update s.code i (advance s.now s.store (answered token) (s.code i)).2 } :
      Sessions) = _
  rw [hcode]
  rfl

/-- A client whose code has rejected does nothing more. -/
theorem step_reject {e : JsError} (hcode : s.code i = .reject e) :
    s.step (.call i (answered token)) = s := by
  show ({ s with
    store := (advance s.now s.store (answered token) (s.code i)).1
    code := Function.update s.code i (advance s.now s.store (answered token) (s.code i)).2 } :
      Sessions) = _
  rw [hcode]
  show ({ s with code := Function.update s.code i (.reject e) } : Sessions) = s
  rw [← hcode, Function.update_eq_self]

/-- The clients after a call of `i` that leaves `code`. -/
def leaving (s : Sessions) (i : ℕ) (st : Store) (code : Code) : Sessions :=
  { s with store := st, code := Function.update s.code i code }

/-- Redis accepts a TTL of one second. -/
theorem expiryArg_second : expiryArg 1000 = .ok (1000 : ℤ) :=
  Server.expiryArg_natCast (n := 1000) (by decide)

/-- The withLock client draws its token and runs its script. -/
theorem pass_eq (hcode : s.code i = passerCode key) : s.pass i token =
    (s.leaving i (acquireLock s.now s.store (lockEntryKey key) (fenceEntryKey key) token 1000
      true).1 (passerReplied key token (acquireLock s.now s.store (lockEntryKey key)
        (fenceEntryKey key) token 1000 true).2)).step (.call i (answered token)) := by
  obtain ⟨k, hstart, hnext⟩ := passerCode_eq key
  rw [hstart] at hcode
  have hasks : (s.step (.call i (answered token))).code i = passerAsks key token := by
    rw [step_await hcode]
    show Function.update s.code i (k (.ok token)) i = _
    rw [Function.update_self]
    exact hnext token
  unfold pass
  rw [step_await hasks, step_await hcode]
  unfold leaving
  simp only [Function.update_idem]
  rfl

/-- On a key that is held, withLock rejects and changes nothing. -/
theorem pass_of_held {e : KeyValue.Entry Value} (hcode : s.code i = passerCode key)
    (h : s.store.entry s.now (lockEntryKey key) = some e) : s.pass i token =
      s.leaving i s.store (.reject (.appException "redis.LOCK_ACQUISITION_FAILED" 409)) := by
  rw [pass_eq hcode, acquireLock_of_held_eq h expiryArg_second (by decide)]
  exact step_reject (Function.update_self ..)

/-- Where the entry is free, `SET NX` writes the token. -/
theorem setNx_of_free (h : s.store (lockEntryKey key) = none) :
    s.store.setNx s.now (lockEntryKey key) (.token token) 1000 =
      some (s.store.set (lockEntryKey key) (.token token) (some (s.now + 1000))) := by
  refine KeyValue.setNx_eq_some.mpr ⟨?_, rfl⟩
  rw [KeyValue.entry, h]
  rfl

/-- Where the entry is free, the script takes the lock and counts. -/
theorem acquireLock_of_free_fencing (h : s.store (lockEntryKey key) = none) :
    acquireLock s.now s.store (lockEntryKey key) (fenceEntryKey key) token 1000 true =
      incr s.now (s.store.set (lockEntryKey key) (.token token) (some (s.now + 1000)))
        (fenceEntryKey key) := by
  simp [acquireLock, setNxPx, expiryArg_second, setNx_of_free h]

/-- A key does not share its counter with its own lock. -/
theorem fenceEntryKey_ne : fenceEntryKey key ≠ lockEntryKey key := by
  rw [fenceEntryKey_eq]
  intro heq
  have hlength := congrArg String.length (lockEntryKey_inj heq)
  rw [String.length_append] at hlength
  have hfence : "fence:".length = 6 := by decide
  omega

/-- Where the fence entry holds the token of another key, withLock rejects and leaves its
lock behind. -/
theorem pass_of_clash {t : Token} {until' : ℕ} (hcode : s.code i = passerCode key)
    (h : s.store (lockEntryKey key) = none)
    (hfence : s.store (fenceEntryKey key) = some ⟨.token t, some until'⟩) (hlive : s.now ≤ until') :
    s.pass i token = s.leaving i
      (s.store.set (lockEntryKey key) (.token token) (some (s.now + 1000)))
      (.reject notAnInteger) := by
  have hentry : (s.store.set (lockEntryKey key) (.token token) (some (s.now + 1000))).entry s.now
      (fenceEntryKey key) = some ⟨.token t, some until'⟩ := by
    rw [KeyValue.entry_congr (KeyValue.set_ne fenceEntryKey_ne)]
    exact KeyValue.entry_eq_some.mpr ⟨hfence, KeyValue.live_some.mpr hlive⟩
  have hincr : incr s.now (s.store.set (lockEntryKey key) (.token token) (some (s.now + 1000)))
      (fenceEntryKey key) = (s.store.set (lockEntryKey key) (.token token)
        (some (s.now + 1000)), .error notAnInteger) := by
    unfold incr
    rw [hentry]
    rfl
  rw [pass_eq hcode, acquireLock_of_free_fencing h, hincr]
  exact step_reject (Function.update_self ..)

/-- A counter that is absent starts at one. -/
theorem incr_of_free (hfence : s.store (fenceEntryKey key) = none) :
    incr s.now (s.store.set (lockEntryKey key) (.token token) (some (s.now + 1000)))
      (fenceEntryKey key) = ((s.store.set (lockEntryKey key) (.token token)
        (some (s.now + 1000))).set (fenceEntryKey key) (.counter 1) none, .ok (some 1)) := by
  have hentry : (s.store.set (lockEntryKey key) (.token token) (some (s.now + 1000))).entry
      s.now (fenceEntryKey key) = none := by
    rw [KeyValue.entry_congr (KeyValue.set_ne fenceEntryKey_ne), KeyValue.entry, hfence]
    rfl
  unfold incr
  rw [hentry]

/-- Otherwise it resolves; its lock is free again, and its counter is there. -/
theorem pass_of_free (hcode : s.code i = passerCode key)
    (h : s.store (lockEntryKey key) = none) (hfence : s.store (fenceEntryKey key) = none) :
    s.pass i token = s.leaving i
      (((s.store.set (lockEntryKey key) (.token token) (some (s.now + 1000))).set
        (fenceEntryKey key) (.counter 1) none).del (lockEntryKey key))
      (.resolve (.flag true)) := by
  rw [pass_eq hcode, acquireLock_of_free_fencing h, incr_of_free hfence]
  have hholds : holds s.now ((s.store.set (lockEntryKey key) (.token token)
      (some (s.now + 1000))).set (fenceEntryKey key) (.counter 1) none) (lockEntryKey key)
      token = true := by
    apply holds_iff.mpr
    refine ⟨⟨.token token, some (s.now + 1000)⟩, ?_, rfl⟩
    rw [KeyValue.entry_congr (KeyValue.set_ne fenceEntryKey_ne.symm)]
    exact KeyValue.entry_set_px 1000
  rw [step_await (show _ = passerReleases key token from Function.update_self ..)]
  unfold leaving
  simp only [Function.update_idem]
  rw [show (settle s.now _ (answered token) (.releaseLock 0 (lockEntryKey key) token)) =
    releaseLock s.now _ (lockEntryKey key) token from rfl, releaseLock_of_holds hholds]

/-- The acquiring client holds its lock, and its counter is there. -/
theorem hold_of_free (hcode : s.code i = holderCode key)
    (h : s.store (lockEntryKey key) = none) (hfence : s.store (fenceEntryKey key) = none) :
    ∃ code, (s.step (.call i (answered token))).step (.call i (answered token)) = s.leaving i
      ((s.store.set (lockEntryKey key) (.token token) (some (s.now + 1000))).set
        (fenceEntryKey key) (.counter 1) none) code := by
  obtain ⟨k, hstart, hnext⟩ := holderCode_eq key
  obtain ⟨k', hasks⟩ := hnext token
  rw [hstart] at hcode
  have hcode' : (s.step (.call i (answered token))).code i = .await (.inl (.acquireLock 0
      (lockEntryKey key) (fenceEntryKey key) token 1000 true)) k' := by
    rw [step_await hcode]
    show Function.update s.code i (k (.ok token)) i = _
    rw [Function.update_self]
    exact hasks
  have hscript : (acquireLock s.now s.store (lockEntryKey key) (fenceEntryKey key) token 1000
      true).1 = (s.store.set (lockEntryKey key) (.token token) (some (s.now + 1000))).set
        (fenceEntryKey key) (.counter 1) none := by
    rw [acquireLock_of_free_fencing h, incr_of_free hfence]
  rw [step_await hcode', step_await hcode]
  refine ⟨k' (acquireLock s.now s.store (lockEntryKey key) (fenceEntryKey key) token 1000 true).2,
    ?_⟩
  unfold leaving
  simp only [Function.update_idem]
  rw [← hscript]
  rfl

end Sessions

/-! ### A ladder of keys

Client 0 acquires the lock of one rung, and the clients after it pass through the rungs above
or below, up to the one that is to notice. -/

def ladder (base : String) (level : ℕ → ℕ) : ℕ → Client
  | 0 => ⟨rung base (level 0), holderCode _, holder_onKey _⟩
  | j + 1 => ⟨rung base (level (j + 1)), passerCode _, passer_onKey _⟩

/-- The entry that rung `m` has its lock in, and rung `m - 1` its counter. -/
def rungEntry (base : String) (m : ℕ) : String := lockEntryKey (rung base m)

/-- Different rungs have different entries. -/
theorem rungEntry_ne {base : String} {m n : ℕ} (h : m ≠ n) :
    rungEntry base m ≠ rungEntry base n := fun heq => h (rung_inj (lockEntryKey_inj heq))

/-- The counter of a rung is the lock entry of the next one. -/
theorem fenceEntryKey_rung (base : String) (m : ℕ) :
    fenceEntryKey (rung base m) = rungEntry base (m + 1) := fenceEntryKey_eq _

def callsOf (i n : ℕ) : List ClientAction := List.replicate n (.call i (answered ⟨i⟩))

def passing (n : ℕ) : List ClientAction := (List.range n).flatMap fun j => callsOf (j + 1) 3

/-- The clients pass one after the other. -/
theorem passing_succ (n : ℕ) : passing (n + 1) = passing n ++ callsOf (n + 1) 3 := by
  simp [passing, List.range_succ]

namespace Sessions

/-- The clients from 1 to `n` pass. -/
def climb (s : Sessions) : ℕ → Sessions
  | 0 => s
  | n + 1 => (s.climb n).pass (n + 1) ⟨n + 1⟩

/-- Running them is climbing the rungs. -/
theorem foldl_passing (s : Sessions) (n : ℕ) : (passing n).foldl step s = s.climb n := by
  induction n with
  | zero => rfl
  | succ n ih =>
    rw [passing_succ, List.foldl_append, ih]
    rfl

section Climb

variable {base : String} {level : ℕ → ℕ} {n : ℕ} {s : Sessions}

/-- The clients after `k` have not started. -/
def Waiting (base : String) (level : ℕ → ℕ) (k : ℕ) (s : Sessions) : Prop :=
  ∀ j, k < j → s.code j = passerCode (rung base (level j))

/-- A client that leaves its code does not start the later ones. -/
theorem Waiting.leaving {k : ℕ} (h : Waiting base level k s) (st : Store) (code : Code) :
    Waiting base level (k + 1) (s.leaving (k + 1) st code) := by
  intro j hj
  show Function.update s.code (k + 1) code j = _
  rw [Function.update_of_ne (by omega)]
  exact h j (by omega)

/-- A token on the rung that is reached, and nothing below it. -/
structure TokenDown (base : String) (n k : ℕ) (s : Sessions) : Prop where
  waiting : Waiting base (n - ·) k s
  token : ∃ t until', s.store (rungEntry base (n - k)) = some ⟨.token t, some until'⟩ ∧
    s.now ≤ until'
  below : ∀ m, m < n - k → s.store (rungEntry base m) = none

/-- Nothing on the rung that is reached and below it. -/
structure FreeDown (base : String) (n k : ℕ) (s : Sessions) : Prop where
  waiting : Waiting base (n - ·) k s
  below : ∀ m, m ≤ n - k → s.store (rungEntry base m) = none

/-- A client on the rung below counts on the token, and rejects; its own token stays. -/
theorem TokenDown.pass {k : ℕ} (h : TokenDown base n k s) (hk : k < n) :
    TokenDown base n (k + 1) (s.pass (k + 1) ⟨k + 1⟩) ∧
      (s.pass (k + 1) ⟨k + 1⟩).code (k + 1) = .reject notAnInteger := by
  obtain ⟨t, until', htoken, hlive⟩ := h.token
  have hrung : n - (k + 1) + 1 = n - k := by omega
  have hfence : s.store (fenceEntryKey (rung base (n - (k + 1)))) = some ⟨.token t, some until'⟩ := by
    rw [fenceEntryKey_rung, hrung]
    exact htoken
  have hcode : s.code (k + 1) = passerCode (rung base (n - (k + 1))) :=
    h.waiting (k + 1) (by omega)
  rw [pass_of_clash hcode (h.below _ (by omega)) hfence hlive]
  refine ⟨⟨h.waiting.leaving _ _, ⟨_, _, KeyValue.set_self, Nat.le_add_right _ _⟩, ?_⟩,
    Function.update_self ..⟩
  intro m hm
  exact (KeyValue.set_ne (rungEntry_ne (by omega))).trans (h.below m (by omega))

/-- A client on a free rung takes its lock and gives it back. -/
theorem FreeDown.pass {k : ℕ} (h : FreeDown base n k s) (hk : k < n) :
    FreeDown base n (k + 1) (s.pass (k + 1) ⟨k + 1⟩) ∧
      (s.pass (k + 1) ⟨k + 1⟩).code (k + 1) = .resolve (.flag true) := by
  have hfence : s.store (fenceEntryKey (rung base (n - (k + 1)))) = none := by
    rw [fenceEntryKey_rung]
    exact h.below _ (by omega)
  have hcode : s.code (k + 1) = passerCode (rung base (n - (k + 1))) :=
    h.waiting (k + 1) (by omega)
  rw [pass_of_free hcode (h.below _ (by omega)) hfence]
  refine ⟨⟨h.waiting.leaving _ _, ?_⟩, Function.update_self ..⟩
  intro m hm
  by_cases heq : m = n - (k + 1)
  · subst heq
    exact KeyValue.del_self
  · refine (KeyValue.del_ne (rungEntry_ne heq)).trans ?_
    rw [fenceEntryKey_rung]
    refine (KeyValue.set_ne (rungEntry_ne (by omega))).trans ?_
    exact (KeyValue.set_ne (rungEntry_ne heq)).trans (h.below m (by omega))

/-- A counter on the next rung, and nothing above it. -/
structure CounterUp (base : String) (n k : ℕ) (s : Sessions) : Prop where
  waiting : Waiting base (n + ·) k s
  counter : s.store (rungEntry base (n + k + 1)) = some ⟨.counter 1, none⟩
  above : ∀ m, n + k + 1 < m → s.store (rungEntry base m) = none

/-- Nothing from the next rung on. -/
structure FreeUp (base : String) (n k : ℕ) (s : Sessions) : Prop where
  waiting : Waiting base (n + ·) k s
  above : ∀ m, n + k + 1 ≤ m → s.store (rungEntry base m) = none

/-- A client on the rung of a counter finds its lock taken. -/
theorem CounterUp.pass {k : ℕ} (h : CounterUp base n k s) :
    FreeUp base n (k + 1) (s.pass (k + 1) ⟨k + 1⟩) ∧ (s.pass (k + 1) ⟨k + 1⟩).code (k + 1) =
      .reject (.appException "redis.LOCK_ACQUISITION_FAILED" 409) := by
  have hentry : s.store.entry s.now (lockEntryKey (rung base (n + (k + 1)))) =
      some ⟨.counter 1, none⟩ := KeyValue.entry_eq_some.mpr ⟨h.counter, rfl⟩
  have hcode : s.code (k + 1) = passerCode (rung base (n + (k + 1))) :=
    h.waiting (k + 1) (by omega)
  rw [pass_of_held hcode hentry]
  exact ⟨⟨h.waiting.leaving _ _, fun m hm => h.above m (by omega)⟩, Function.update_self ..⟩

/-- A client on a free rung leaves its counter on the next one. -/
theorem FreeUp.pass {k : ℕ} (h : FreeUp base n k s) :
    CounterUp base n (k + 1) (s.pass (k + 1) ⟨k + 1⟩) ∧
      (s.pass (k + 1) ⟨k + 1⟩).code (k + 1) = .resolve (.flag true) := by
  have hfence : s.store (fenceEntryKey (rung base (n + (k + 1)))) = none := by
    rw [fenceEntryKey_rung]
    exact h.above _ (by omega)
  have hcode : s.code (k + 1) = passerCode (rung base (n + (k + 1))) :=
    h.waiting (k + 1) (by omega)
  rw [pass_of_free hcode (h.above _ (by omega)) hfence]
  refine ⟨⟨h.waiting.leaving _ _, ?_, ?_⟩, Function.update_self ..⟩
  · rw [fenceEntryKey_rung]
    exact (KeyValue.del_ne (rungEntry_ne (by omega))).trans KeyValue.set_self
  · intro m hm
    rw [fenceEntryKey_rung]
    refine (KeyValue.del_ne (rungEntry_ne (by omega))).trans ?_
    refine (KeyValue.set_ne (rungEntry_ne (by omega))).trans ?_
    exact (KeyValue.set_ne (rungEntry_ne (by omega))).trans (h.above m (by omega))

/-- Going down, the token stays on the rung that is reached. -/
theorem TokenDown.climb (h : TokenDown base n 0 s) {k : ℕ} (hk : k ≤ n) :
    TokenDown base n k (s.climb k) := by
  induction k with
  | zero => exact h
  | succ k ih => exact ((ih (by omega)).pass (by omega)).1

/-- Clients that pass below a free rung leave the rungs below them free. -/
theorem FreeDown.climb (h : FreeDown base n 0 s) {k : ℕ} (hk : k ≤ n) :
    FreeDown base n k (s.climb k) := by
  induction k with
  | zero => exact h
  | succ k ih => exact ((ih (by omega)).pass (by omega)).1

/-- Going up, the counter is on the next rung in one of the two runs, by turns. -/
theorem climb_up {t : Sessions} (hs : CounterUp base n 0 s) (ht : FreeUp base n 0 t) (k : ℕ) :
    (CounterUp base n k (s.climb k) ∧ FreeUp base n k (t.climb k)) ∨
      (FreeUp base n k (s.climb k) ∧ CounterUp base n k (t.climb k)) := by
  induction k with
  | zero => exact Or.inl ⟨hs, ht⟩
  | succ k ih =>
    rcases ih with ⟨hcounter, hfree⟩ | ⟨hfree, hcounter⟩
    · exact Or.inr ⟨hcounter.pass.1, hfree.pass.1⟩
    · exact Or.inl ⟨hfree.pass.1, hcounter.pass.1⟩

end Climb

section Ladder

variable {base : String} {level : ℕ → ℕ}

/-- Nothing stored, no call made. -/
def ready (base : String) (level : ℕ → ℕ) : Sessions := init (ladder base level) 0 fun _ => none

/-- At first no client has started. -/
theorem ready_waiting : Waiting base level 0 (ready base level) := by
  intro j hj
  match j with
  | j + 1 => rfl

/-- Client 0 has acquired its lock. -/
theorem held_eq : ∃ code, (callsOf 0 2).foldl step (ready base level) =
    (ready base level).leaving 0
      ((KeyValue.set (fun _ => none) (rungEntry base (level 0)) (.token ⟨0⟩) (some 1000)).set
        (rungEntry base (level 0 + 1)) (.counter 1) none) code := by
  have hcode : (ready base level).code 0 = holderCode (rung base (level 0)) := rfl
  have hold := @hold_of_free (ready base level) 0 _ ⟨0⟩ hcode rfl rfl
  rw [fenceEntryKey_rung] at hold
  exact hold

/-- Client 0 has started alone. -/
theorem held_waiting {st : Store} {code : Code} :
    Waiting base level 0 ((ready base level).leaving 0 st code) := by
  intro j hj
  show Function.update (ready base level).code 0 code j = _
  rw [Function.update_of_ne (by omega)]
  exact ready_waiting j hj

/-- Leaving out the calls on the key of client 0 leaves the other clients. -/
theorem filter_calls {n : ℕ} (h : ∀ j, 0 < j → j ≤ n → level j ≠ level 0) :
    (callsOf 0 2 ++ passing n).filter (avoids (ladder base level) (rung base (level 0))) =
      passing n := by
  have hnone : (callsOf 0 2).filter (avoids (ladder base level) (rung base (level 0))) = [] := by
    simp [callsOf, avoids, ladder]
  rw [List.filter_append, hnone, List.nil_append, List.filter_eq_self]
  intro a ha
  obtain ⟨j, hj, ha⟩ := List.mem_flatMap.mp ha
  rw [callsOf, List.mem_replicate] at ha
  rw [ha.2]
  have hne : rung base (level (j + 1)) ≠ rung base (level 0) :=
    fun heq => h (j + 1) (by omega) (List.mem_range.mp hj) (rung_inj heq)
  exact decide_eq_true hne

/-- A client that notices whether client 0 has made its calls. -/
theorem not_independent_of_climb {n : ℕ} (h : ∀ j, 0 < j → j ≤ n + 1 → level j ≠ level 0)
    (hdiffer : (((callsOf 0 2).foldl step (ready base level)).climb (n + 1)).code (n + 1) ≠
      ((ready base level).climb (n + 1)).code (n + 1)) :
    ¬ Independent (rung base (level (n + 1))) (rung base (level 0)) := by
  intro hind
  have hcode := (hind (ladder base level) 0 (fun _ => none) (callsOf 0 2 ++ passing (n + 1))).1
    (n + 1) rfl
  rw [filter_calls h, List.foldl_append, foldl_passing, foldl_passing] at hcode
  exact hdiffer hcode

end Ladder

end Sessions

section Differ

open Sessions

variable {base : String} {m n : ℕ}

/-- Client 0 leaves its token on the rung it has locked. -/
theorem tokenDown_held :
    TokenDown base n 0 ((callsOf 0 2).foldl step (ready base (n - ·))) := by
  obtain ⟨code, hcode⟩ := @held_eq base (n - ·)
  rw [hcode]
  refine ⟨held_waiting, ⟨⟨0⟩, 1000, ?_, Nat.zero_le _⟩, fun i hi => ?_⟩
  · exact (KeyValue.set_ne (rungEntry_ne (by omega))).trans KeyValue.set_self
  · refine (KeyValue.set_ne (rungEntry_ne (by omega))).trans ?_
    exact KeyValue.set_ne (rungEntry_ne (by omega))

/-- Client 0 leaves a counter on the rung above it. -/
theorem counterUp_held :
    CounterUp base n 0 ((callsOf 0 2).foldl step (ready base (n + ·))) := by
  obtain ⟨code, hcode⟩ := @held_eq base (n + ·)
  rw [hcode]
  refine ⟨held_waiting, KeyValue.set_self, fun i hi => ?_⟩
  refine (KeyValue.set_ne (rungEntry_ne (by omega))).trans ?_
  exact KeyValue.set_ne (rungEntry_ne (by omega))

/-- A lower rung notices the calls on a higher one: its acquire rejects. -/
theorem not_independent_below (h : m < n) : ¬ Independent (rung base m) (rung base n) := by
  obtain ⟨k, hk, hm⟩ : ∃ k, k < n ∧ n - (k + 1) = m := ⟨n - m - 1, by omega, by omega⟩
  have hstart : FreeDown base n 0 (ready base (n - ·)) := ⟨ready_waiting, fun _ _ => rfl⟩
  have hnot := @not_independent_of_climb base (n - ·) k (fun j hj _ => by omega) (by
    show ((climb _ k).pass (k + 1) ⟨k + 1⟩).code (k + 1) ≠
      ((climb _ k).pass (k + 1) ⟨k + 1⟩).code (k + 1)
    rw [((tokenDown_held.climb (by omega)).pass hk).2, ((hstart.climb (by omega)).pass hk).2]
    nofun)
  rw [hm] at hnot
  exact hnot

/-- A higher rung notices the calls on a lower one: one of the two acquires finds its lock
entry taken by a counter. -/
theorem not_independent_above (h : n < m) : ¬ Independent (rung base m) (rung base n) := by
  obtain ⟨k, hm⟩ : ∃ k, n + (k + 1) = m := ⟨m - n - 1, by omega⟩
  have hstart : FreeUp base n 0 (ready base (n + ·)) := ⟨ready_waiting, fun _ _ => rfl⟩
  have hnot := @not_independent_of_climb base (n + ·) k (fun j hj _ => by omega) (by
    show ((climb _ k).pass (k + 1) ⟨k + 1⟩).code (k + 1) ≠
      ((climb _ k).pass (k + 1) ⟨k + 1⟩).code (k + 1)
    rcases climb_up counterUp_held hstart k with ⟨hcounter, hfree⟩ | ⟨hfree, hcounter⟩
    · rw [hcounter.pass.2, hfree.pass.2]
      nofun
    · rw [hcounter.pass.2, hfree.pass.2]
      nofun)
  rw [hm] at hnot
  exact hnot

end Differ

/-- The services use different entries. -/
theorem entryKeys_ne (key key' key'' : String) :
    RedisCacheService.key key ≠ rateEntryKey key' ∧
    RedisCacheService.key key ≠ lockEntryKey key'' ∧ rateEntryKey key' ≠ lockEntryKey key'' ∧
    RedisCacheService.key key ≠ fenceEntryKey key'' ∧ rateEntryKey key' ≠ fenceEntryKey key'' := by
  have hne : ∀ (p q x y : String), p.toList.head? ≠ q.toList.head? → p.toList.head? ≠ none →
      q.toList.head? ≠ none → p ++ x ≠ q ++ y := by
    intro p q x y hpq hp hq heq
    have hhead := congrArg (fun s => s.toList.head?) heq
    simp only [String.toList_append, List.head?_append] at hhead
    obtain ⟨c, hc⟩ := Option.ne_none_iff_exists'.mp hp
    obtain ⟨d, hd⟩ := Option.ne_none_iff_exists'.mp hq
    rw [hc, hd] at hhead hpq
    exact hpq hhead
  refine ⟨?_, ?_, ?_, ?_, ?_⟩
  all_goals exact hne _ _ _ _ (by decide) (by decide) (by decide)

/-- Exactly the keys that still differ without the prefixes `fence:` in front of them do not
interfere; and the cache, the rate limiter and the locks use different entries on any keys. -/
theorem independent_iff {key key' : String} (hne : key ≠ key') :
    (Independent key key' ↔ root key ≠ root key') ∧ ∀ a b c,
      RedisCacheService.key a ≠ rateEntryKey b ∧
      RedisCacheService.key a ≠ lockEntryKey c ∧ rateEntryKey b ≠ lockEntryKey c ∧
      RedisCacheService.key a ≠ fenceEntryKey c ∧ rateEntryKey b ≠ fenceEntryKey c := by
  refine ⟨⟨fun hind hroot => ?_, independent_of_root⟩, entryKeys_ne⟩
  obtain ⟨m, hm⟩ := exists_rung key
  obtain ⟨n, hn⟩ := exists_rung key'
  rw [← hroot] at hn
  rw [hm, hn] at hne hind
  rcases Nat.lt_trichotomy m n with hlt | rfl | hgt
  · exact not_independent_below hlt hind
  · exact hne rfl
  · exact not_independent_above hgt hind

/-- Keys of two jobs are independent. -/
theorem independent_iff_jobs : Independent "job:1" "job:2" :=
  (independent_iff (by decide)).1.mpr (by decide)

/-- A lock that is held on `fence:job` makes `acquire("job", ..., {fencing: true})` reject and
leave its own lock behind. -/
theorem not_independent_fence : ¬ Independent "job" "fence:job" ∧
    ∃ s : Sessions, s = (callsOf 0 2 ++ passing 1).foldl Sessions.step
        (Sessions.ready "job" (1 - ·)) ∧
      s.code 1 = .reject notAnInteger ∧ ∃ t until', s.store (lockEntryKey "job") =
        some ⟨.token t, some until'⟩ ∧ s.now ≤ until' := by
  refine ⟨@not_independent_below "job" 0 1 (by decide), _, rfl, ?_⟩
  rw [List.foldl_append, Sessions.foldl_passing]
  have hpass := (@tokenDown_held "job" 1).pass (by decide)
  exact ⟨hpass.2, hpass.1.token⟩

end NestFastify.Redis
