import NestFastify.Redis.LockSystem

/-!
# Keys that interfere

Clients of the lock service over one Redis, where each client runs an async function that only
uses the entries of one key: the lock entry and the fence entry that `acquire` derives from it.
The schedule lists the calls in the order in which they settle, with the random numbers drawn.
So a run can be compared with the run in which the calls on some keys are left out.

`"lock:" ++ "fence:" ++ key` is both the lock entry of one key and the fence entry of another,
which is the only way in which two keys meet.
-/

namespace NestFastify.Redis

/-! ## The entries of a key -/

def lockEntryKey (key : String) : String := "lock:" ++ key

def fenceEntryKey (key : String) : String := "lock:fence:" ++ key

/-- The key without the prefixes `fence:` in front of it. -/
def rootChars : List Char → List Char
  | 'f' :: 'e' :: 'n' :: 'c' :: 'e' :: ':' :: rest => rootChars rest
  | key => key

def root (key : String) : List Char := rootChars key.toList

/-- The counter of a key is the lock entry of its key with `fence:` in front. -/
theorem fenceEntryKey_eq (key : String) : fenceEntryKey key = lockEntryKey ("fence:" ++ key) := by
  unfold fenceEntryKey lockEntryKey
  rw [← String.append_assoc]
  rfl

/-- The prefix does not change the root. -/
theorem root_fence (key : String) : root ("fence:" ++ key) = root key := by
  unfold root
  rw [String.toList_append]
  exact rootChars.eq_1 _

/-- Different keys have different lock entries. -/
theorem lockEntryKey_inj {key key' : String} (h : lockEntryKey key = lockEntryKey key') :
    key = key' := by
  simpa [lockEntryKey] using h

/-- Keys that share an entry have the same root. -/
theorem root_eq_of_entry {key key' : String}
    (h : lockEntryKey key = lockEntryKey key' ∨ lockEntryKey key = fenceEntryKey key' ∨
      fenceEntryKey key = lockEntryKey key' ∨ fenceEntryKey key = fenceEntryKey key') :
    root key = root key' := by
  rcases h with h | h | h | h
  · rw [lockEntryKey_inj h]
  · rw [fenceEntryKey_eq] at h
    rw [lockEntryKey_inj h, root_fence]
  · rw [fenceEntryKey_eq] at h
    rw [← lockEntryKey_inj h, root_fence]
  · rw [fenceEntryKey_eq, fenceEntryKey_eq] at h
    rw [← root_fence key, lockEntryKey_inj h, root_fence]

/-! ## Clients -/

/-- The script is one of the lock service for `key`. -/
def UsesKey (key : String) : LockCall ⊕ Empty → Prop
  | .inl (.acquireLock _ lockKey fenceKey _ _ _) =>
    lockKey = lockEntryKey key ∧ fenceKey = fenceEntryKey key
  | .inl (.extendLock _ lockKey _ _) => lockKey = lockEntryKey key
  | .inl (.releaseLock _ lockKey _) => lockKey = lockEntryKey key
  | _ => True

/-- An async function over the lock service that only uses the scripts for its key. -/
structure Client where
  key : String
  code : Code
  onKey : code.Everywhere fun c _ => UsesKey key c

/-- What one call is given: the fate of its request, a random token, a number read. -/
structure Input where
  transport : Transport
  token : Token
  x : ℚ

inductive ClientAction where
  | call (i : ℕ) (input : Input)
  | tick (ms : ℕ)

structure Sessions where
  now : ℕ
  store : Store
  code : ℕ → Code

/-- A script whose request or reply may get lost. -/
def sent {α : Type} (transport : Transport) (st : Store) (r : Store × Except JsError α) :
    Store × Except JsError α :=
  match transport with
  | .answered => r
  | .answerLost => (r.1, .error LockState.connectionLost)
  | .requestLost => (st, .error LockState.connectionLost)

namespace Sessions

section Step

variable (now : ℕ) (st : Store) (input : Input)

/-- Settle a call. -/
def settle : (c : LockCall) → Store × Except JsError c.Reply
  | .randomBytes => (st, .ok input.token)
  | .acquireLock _ lockKey fenceKey token ttlMs fencing =>
    sent input.transport st (acquireLock now st lockKey fenceKey token ttlMs fencing)
  | .extendLock _ lockKey token ttlMs =>
    sent input.transport st (extendLock now st lockKey token ttlMs)
  | .releaseLock _ lockKey token => sent input.transport st (releaseLock now st lockKey token)
  | .dateNow => (st, .ok input.x)
  | .mathRandom => (st, .ok input.x)
  | .sleep _ => (st, .ok ())
  | .startWatchdog .. => (st, .ok ())
  | .stopWatchdog _ => (st, .ok ())

/-- The next call of a client settles; a client that has settled does nothing. -/
def advance : Code → Store × Code
  | .await (.inl c) k => ((settle now st input c).1, k (settle now st input c).2)
  | code => (st, code)

end Step

def step (s : Sessions) : ClientAction → Sessions
  | .call i input =>
    { s with
      store := (advance s.now s.store input (s.code i)).1
      code := Function.update s.code i (advance s.now s.store input (s.code i)).2 }
  | .tick ms => { s with now := s.now + ms }

/-- Before any call of the clients. -/
def init (clients : ℕ → Client) (now : ℕ) (st : Store) : Sessions where
  now := now
  store := st
  code i := (clients i).code

/-- The action is not a call on `key`. -/
def avoids (clients : ℕ → Client) (key : String) : ClientAction → Bool
  | .call i _ => (clients i).key ≠ key
  | .tick _ => true

end Sessions

/-- Whatever the clients and the schedule: without the calls on `key'`, the clients of `key`
are at the same point of the same function with the same results, and find the same entries. -/
def Independent (key key' : String) : Prop :=
  ∀ (clients : ℕ → Client) (now : ℕ) (st : Store) (as : List ClientAction),
    let s := as.foldl Sessions.step (Sessions.init clients now st)
    let t := (as.filter (Sessions.avoids clients key')).foldl Sessions.step
      (Sessions.init clients now st)
    (∀ i, (clients i).key = key → s.code i = t.code i) ∧
      s.store (lockEntryKey key) = t.store (lockEntryKey key) ∧
      s.store (fenceEntryKey key) = t.store (fenceEntryKey key)

/-! ## Scripts on two stores -/

section TwoStores

variable {now : ℕ} {st st' : Store} {key lockKey fenceKey : String} {token : Token}
  {ttlMs : JsNumber} {fencing : Bool} {input : Input}

/-- Two runs of a script give the same answer, and keep every entry on which the stores
agree. -/
def Alike {α : Type} (st st' : Store) (r r' : Store × α) : Prop :=
  r.2 = r'.2 ∧ ∀ entry, st entry = st' entry → r.1 entry = r'.1 entry

/-- A script that changes nothing is alike. -/
theorem Alike.rfl {α : Type} (a : α) : Alike st st' (st, a) (st', a) := ⟨by rfl, fun _ h => h⟩

/-- A write leaves the stores in agreement where they agreed. -/
theorem set_agree {entry : String} {v : Value} {until' : Option ℕ} (h : st entry = st' entry) :
    st.set key v until' entry = st'.set key v until' entry := by
  by_cases heq : entry = key
  · subst heq
    rw [KeyValue.set_self, KeyValue.set_self]
  · rw [KeyValue.set_ne heq, KeyValue.set_ne heq, h]

/-- Scripts that write the same are alike. -/
theorem alike_set {α : Type} {v : Value} {until' : Option ℕ} (a : α) :
    Alike st st' (st.set key v until', a) (st'.set key v until', a) :=
  ⟨by rfl, fun _ h => set_agree h⟩

/-- Scripts that delete the same are alike. -/
theorem alike_del {α : Type} (a : α) : Alike st st' (st.del key, a) (st'.del key, a) := by
  refine ⟨by rfl, fun entry h => ?_⟩
  by_cases heq : entry = key
  · subst heq
    show st.del entry entry = st'.del entry entry
    rw [KeyValue.del_self, KeyValue.del_self]
  · show st.del key entry = st'.del key entry
    rw [KeyValue.del_ne heq, KeyValue.del_ne heq, h]

/-- Each script reads only its own entries: where these agree, it is alike. -/
theorem incr_alike (h : st key = st' key) : Alike st st' (incr now st key) (incr now st' key) := by
  unfold incr
  rw [KeyValue.entry_congr h]
  match st'.entry now key with
  | none => exact alike_set _
  | some e =>
    match hint : e.value.integer with
    | none =>
      simp only [hint]
      exact Alike.rfl _
    | some n =>
      simp only [hint]
      exact alike_set _

theorem acquireLock_alike (hlock : st lockKey = st' lockKey) (hfence : st fenceKey = st' fenceKey) :
    Alike st st' (acquireLock now st lockKey fenceKey token ttlMs fencing)
      (acquireLock now st' lockKey fenceKey token ttlMs fencing) := by
  unfold acquireLock setNxPx KeyValue.setNx
  rw [KeyValue.entry_congr hlock]
  cases expiryArg ttlMs with
  | error e => exact Alike.rfl _
  | ok ms =>
    by_cases hms : 0 < ms
    · simp only [if_pos hms]
      by_cases htaken : (st'.entry now lockKey).isSome = true
      · simp only [if_pos htaken]
        exact Alike.rfl _
      · simp only [if_neg htaken]
        cases fencing with
        | false => exact alike_set _
        | true =>
          have hincr := @incr_alike now (st.set lockKey (.token token) (some (now + ms.toNat)))
            (st'.set lockKey (.token token) (some (now + ms.toNat))) fenceKey (set_agree hfence)
          exact ⟨hincr.1, fun entry hentry => hincr.2 entry (set_agree hentry)⟩
    · simp only [if_neg hms]
      exact Alike.rfl _

theorem holds_congr (h : st lockKey = st' lockKey) :
    holds now st lockKey token = holds now st' lockKey token := by
  rw [holds, holds, KeyValue.get, KeyValue.get, KeyValue.entry_congr h]

theorem extendLock_alike (h : st lockKey = st' lockKey) :
    Alike st st' (extendLock now st lockKey token ttlMs)
      (extendLock now st' lockKey token ttlMs) := by
  unfold extendLock
  rw [holds_congr h]
  by_cases hholds : holds now st' lockKey token = true
  · simp only [if_pos hholds]
    cases expiryArg ttlMs with
    | error e => exact Alike.rfl _
    | ok n =>
      by_cases hn : 0 < n
      · obtain ⟨e, he, -⟩ := holds_iff.mp hholds
        have he' : st.entry now lockKey = some e := (KeyValue.entry_congr h).trans he
        simp only [if_pos hn, KeyValue.pexpire_of_entry he, KeyValue.pexpire_of_entry he']
        exact alike_set _
      · simp only [if_neg hn]
        exact alike_del _
  · simp only [if_neg hholds]
    exact Alike.rfl _

theorem releaseLock_alike (h : st lockKey = st' lockKey) :
    Alike st st' (releaseLock now st lockKey token) (releaseLock now st' lockKey token) := by
  unfold releaseLock
  rw [holds_congr h]
  by_cases hholds : holds now st' lockKey token = true
  · simp only [if_pos hholds]
    exact alike_del _
  · simp only [if_neg hholds]
    exact Alike.rfl _

/-- Losing the request or the reply does not tell the two runs apart. -/
theorem sent_alike {α : Type} {r r' : Store × Except JsError α} (transport : Transport)
    (h : Alike st st' r r') : Alike st st' (sent transport st r) (sent transport st' r') := by
  match transport with
  | .answered => exact h
  | .answerLost => exact ⟨by rfl, h.2⟩
  | .requestLost => exact Alike.rfl _

open Sessions

/-- A call of a client settles alike when the entries of its key agree. -/
theorem settle_alike {c : LockCall} (hc : UsesKey key (.inl c))
    (hlock : st (lockEntryKey key) = st' (lockEntryKey key))
    (hfence : st (fenceEntryKey key) = st' (fenceEntryKey key)) :
    Alike st st' (settle now st input c) (settle now st' input c) := by
  match c with
  | .acquireLock client lockKey fenceKey token ttlMs fencing =>
    obtain ⟨rfl, rfl⟩ := hc
    exact sent_alike _ (acquireLock_alike hlock hfence)
  | .extendLock client lockKey token ttlMs =>
    obtain rfl := hc
    exact sent_alike _ (extendLock_alike hlock)
  | .releaseLock client lockKey token =>
    obtain rfl := hc
    exact sent_alike _ (releaseLock_alike hlock)
  | .randomBytes => exact Alike.rfl _
  | .dateNow => exact Alike.rfl _
  | .mathRandom => exact Alike.rfl _
  | .sleep _ => exact Alike.rfl _
  | .startWatchdog .. => exact Alike.rfl _
  | .stopWatchdog _ => exact Alike.rfl _

/-- So the client goes on alike. -/
theorem advance_alike {code : Code} (hcode : code.Everywhere fun c _ => UsesKey key c)
    (hlock : st (lockEntryKey key) = st' (lockEntryKey key))
    (hfence : st (fenceEntryKey key) = st' (fenceEntryKey key)) :
    Alike st st' (advance now st input code) (advance now st' input code) := by
  match code with
  | .await (.inl c) k =>
    have hsettle := @settle_alike now st st' key input c hcode.1 hlock hfence
    exact ⟨congrArg k hsettle.1, hsettle.2⟩
  | .resolve a => exact Alike.rfl _
  | .reject e => exact Alike.rfl _
  | .pending => exact Alike.rfl _

/-- A script that leaves an entry alone leaves it alone when its reply gets lost. -/
theorem sent_ne {α : Type} {r : Store × Except JsError α} {transport : Transport}
    {entry : String} (h : r.1 entry = st entry) : (sent transport st r).1 entry = st entry := by
  match transport with
  | .answered => exact h
  | .answerLost => exact h
  | .requestLost => rfl

/-- A script leaves the entries of other keys alone. -/
theorem settle_ne {c : LockCall} {entry : String} (hc : UsesKey key (.inl c))
    (hlock : entry ≠ lockEntryKey key) (hfence : entry ≠ fenceEntryKey key) :
    (settle now st input c).1 entry = st entry := by
  match c with
  | .acquireLock client lockKey fenceKey token ttlMs fencing =>
    obtain ⟨rfl, rfl⟩ := hc
    exact sent_ne (acquireLock_ne hlock hfence)
  | .extendLock client lockKey token ttlMs =>
    obtain rfl := hc
    exact sent_ne (extendLock_ne hlock)
  | .releaseLock client lockKey token =>
    obtain rfl := hc
    exact sent_ne (releaseLock_ne hlock)
  | .randomBytes => rfl
  | .dateNow => rfl
  | .mathRandom => rfl
  | .sleep _ => rfl
  | .startWatchdog .. => rfl
  | .stopWatchdog _ => rfl

/-- A client changes no entry but those of its key. -/
theorem advance_ne {code : Code} {entry : String}
    (hcode : code.Everywhere fun c _ => UsesKey key c) (hlock : entry ≠ lockEntryKey key)
    (hfence : entry ≠ fenceEntryKey key) : (advance now st input code).1 entry = st entry := by
  match code with
  | .await (.inl c) k => exact settle_ne hcode.1 hlock hfence
  | .resolve a => rfl
  | .reject e => rfl
  | .pending => rfl

/-- A client that goes on stays on its key. -/
theorem advance_everywhere {code : Code} (hcode : code.Everywhere fun c _ => UsesKey key c) :
    (advance now st input code).2.Everywhere fun c _ => UsesKey key c := by
  match code with
  | .await (.inl c) k => exact hcode.2 _
  | .resolve a => exact hcode
  | .reject e => exact hcode
  | .pending => exact hcode

end TwoStores

/-! ## Keys with different roots -/

namespace Sessions

variable {clients : ℕ → Client} {r : List Char} {s t : Sessions}

/-- The two states look the same to the keys with root `r`. -/
structure Agree (clients : ℕ → Client) (r : List Char) (s t : Sessions) : Prop where
  now : s.now = t.now
  store : ∀ key, root key = r → s.store (lockEntryKey key) = t.store (lockEntryKey key)
  code : ∀ i, root (clients i).key = r → s.code i = t.code i
  onKey : ∀ i, (s.code i).Everywhere fun c _ => UsesKey (clients i).key c

/-- States that agree on a root agree on the counters of its keys. -/
theorem Agree.fence (h : Agree clients r s t) {key : String} (hkey : root key = r) :
    s.store (fenceEntryKey key) = t.store (fenceEntryKey key) := by
  rw [fenceEntryKey_eq]
  exact h.store _ ((root_fence key).trans hkey)

/-- Clients stay on their keys. -/
theorem onKey_step (h : ∀ i, (s.code i).Everywhere fun c _ => UsesKey (clients i).key c)
    (a : ClientAction) : ∀ i, ((s.step a).code i).Everywhere fun c _ => UsesKey (clients i).key c := by
  match a with
  | .tick ms => exact h
  | .call i input =>
    intro j
    by_cases hij : j = i
    · subst hij
      show (Function.update s.code j _ j).Everywhere _
      rw [Function.update_self]
      exact advance_everywhere (h j)
    · show (Function.update s.code i _ j).Everywhere _
      rw [Function.update_of_ne hij]
      exact h j

/-- The same call on both sides. -/
theorem Agree.both (h : Agree clients r s t) {i : ℕ} (hi : root (clients i).key = r)
    (input : Input) : Agree clients r (s.step (.call i input)) (t.step (.call i input)) := by
  have halike : Alike s.store t.store (advance s.now s.store input (s.code i))
      (advance t.now t.store input (t.code i)) := by
    rw [← h.now, ← h.code i hi]
    exact advance_alike (h.onKey i) (h.store _ hi) (h.fence hi)
  refine ⟨h.now, fun key hkey => halike.2 _ (h.store key hkey), fun j hj => ?_,
    onKey_step h.onKey _⟩
  show Function.update s.code i _ j = Function.update t.code i _ j
  by_cases hij : j = i
  · subst hij
    rw [Function.update_self, Function.update_self, halike.1]
  · rw [Function.update_of_ne hij, Function.update_of_ne hij, h.code j hj]

/-- A call of another root on one side. -/
theorem Agree.left (h : Agree clients r s t) {i : ℕ} (hi : root (clients i).key ≠ r)
    (input : Input) : Agree clients r (s.step (.call i input)) t := by
  refine ⟨h.now, fun key hkey => ?_, fun j hj => ?_, onKey_step h.onKey _⟩
  · have hroot : root key ≠ root (clients i).key := fun heq => hi (heq.symm.trans hkey)
    refine Eq.trans ?_ (h.store key hkey)
    apply advance_ne (h.onKey i)
    · exact fun heq => hroot (root_eq_of_entry (Or.inl heq))
    · exact fun heq => hroot (root_eq_of_entry (Or.inr (Or.inl heq)))
  · have hij : j ≠ i := by
      intro hij
      subst hij
      exact hi hj
    show Function.update s.code i _ j = t.code j
    rw [Function.update_of_ne hij]
    exact h.code j hj

/-- At first the states are the same. -/
theorem agree_init (clients : ℕ → Client) (r : List Char) (now : ℕ) (st : Store) :
    Agree clients r (init clients now st) (init clients now st) :=
  ⟨rfl, fun _ _ => rfl, fun _ _ => rfl, fun i => (clients i).onKey⟩

/-- The calls on keys with root `r`, and time. -/
def ofRoot (clients : ℕ → Client) (r : List Char) : ClientAction → Bool
  | .call i _ => root (clients i).key = r
  | .tick _ => true

/-- For the keys of a root, a run is the run of their own calls. -/
theorem agree_ofRoot (clients : ℕ → Client) (r : List Char) (now : ℕ) (st : Store)
    (as : List ClientAction) : Agree clients r (as.foldl step (init clients now st))
      ((as.filter (ofRoot clients r)).foldl step (init clients now st)) := by
  refine Transition.foldl_filter_related (fun s t a h ha => ?_) (fun s t a h ha => ?_) as
    (agree_init clients r now st)
  · match a with
    | .tick ms => exact ⟨congrArg (· + ms) h.now, h.store, h.code, h.onKey⟩
    | .call i input => exact h.both (of_decide_eq_true ha) input
  · match a with
    | .tick ms => exact nomatch ha
    | .call i input => exact h.left (of_decide_eq_false ha) input

end Sessions

/-- Keys with different roots do not meet, whatever the other keys do. -/
theorem independent_of_root {key key' : String} (h : root key ≠ root key') :
    Independent key key' := by
  intro clients now st as s t
  have hs := Sessions.agree_ofRoot clients (root key) now st as
  have ht := Sessions.agree_ofRoot clients (root key) now st
    (as.filter (Sessions.avoids clients key'))
  -- leaving out the calls on `key'` leaves out no call of this root
  have hfilter : (as.filter (Sessions.avoids clients key')).filter
      (Sessions.ofRoot clients (root key)) = as.filter (Sessions.ofRoot clients (root key)) := by
    rw [List.filter_filter]
    apply List.filter_congr
    intro a _
    match a with
    | .tick ms => rfl
    | .call i input =>
      by_cases hi : root (clients i).key = root key
      · have hne : (clients i).key ≠ key' := by
          intro heq
          rw [heq] at hi
          exact h hi.symm
        simp [Sessions.ofRoot, Sessions.avoids, hi, hne]
      · simp [Sessions.ofRoot, hi]
  rw [hfilter] at ht
  refine ⟨fun i hi => ?_, ?_, ?_⟩
  · have hroot : root (clients i).key = root key := by rw [hi]
    exact (hs.code i hroot).trans (ht.code i hroot).symm
  · exact (hs.store key rfl).trans (ht.store key rfl).symm
  · exact (hs.fence rfl).trans (ht.fence rfl).symm

end NestFastify.Redis
