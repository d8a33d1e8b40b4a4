import NestFastify.Redis.RateLimit

/-!
# What a step of the rate limiter does to one key

All hits of the key have the same limit `L` and the same window of `W` milliseconds. A step
leaves the set of the key alone, or it is one script on it, which adds its timestamp or does
not.
-/

namespace NestFastify.Redis

namespace RateState

/-- A call that sends scripts for the key with this limit and window only, and resolves to
what the reply says. -/
def Sends (key : String) (L W : ℕ) :
    (c : RateCall) → (Except JsError c.Reply → RedisRateLimitService.Code) → Prop
  | .rateLimit c, k =>
    (c.key = rateEntryKey key → c.limit = L ∧ c.window = W) ∧
      ∀ reply, k (.ok reply) = .resolve (RedisRateLimitService.result c.window reply)
  | _, _ => True

/-- All hits of the key are made with the limit and the window, which the product of doubles
makes a whole number of milliseconds. -/
def Governed (key : String) (L W : ℕ) : RateAction → Prop
  | .hit key' limit windowSeconds =>
    key' = key → limit = L ∧ Binary64.round (windowSeconds * 1000) = W
  | _ => True

instance (key : String) (L W : ℕ) : DecidablePred (Governed key L W)
  | .hit key' limit windowSeconds =>
    inferInstanceAs (Decidable
      (key' = key → limit = L ∧ Binary64.round (windowSeconds * 1000) = W))
  | .readClock _ => inferInstanceAs (Decidable True)
  | .drawUUID .. => inferInstanceAs (Decidable True)
  | .perform .. => inferInstanceAs (Decidable True)
  | .tick _ => inferInstanceAs (Decidable True)

/-- The hits of a key, in the order in which their scripts were executed. -/
def hitsOf (key : String) (hits : List Hit) : List Hit :=
  hits.filter fun h => decide (h.script.key = rateEntryKey key)

variable {key : String} {L W : ℕ} {s s' : RateState} {a : RateAction}

/-- Whole seconds are governed as they are. -/
theorem governed_hit_seconds {seconds : ℕ} (h : seconds * 1000 < 2 ^ 53) :
    Governed key L (seconds * 1000) (.hit key L seconds) := by
  intro _
  have hround := Binary64.round_natCast h
  rw [Nat.cast_mul, Nat.cast_ofNat] at hround
  exact ⟨rfl, by rw [hround, Nat.cast_mul, Nat.cast_ofNat]⟩

theorem rateEntryKey_inj {key' : String} : rateEntryKey key = rateEntryKey key' ↔ key = key' := by
  simp [rateEntryKey]

theorem hit_sends {key' : String} {limit windowSeconds : ℚ}
    (h : key' = key → limit = L ∧ Binary64.round (windowSeconds * 1000) = W) :
    (RedisRateLimitService.hit key' limit windowSeconds).Everywhere (Sends key L W) := by
  refine ⟨trivial, fun r => ?_⟩
  match r with
  | .error e => trivial
  | .ok now =>
    refine ⟨trivial, fun r => ?_⟩
    match r with
    | .error e => trivial
    | .ok uuid =>
      refine ⟨⟨fun hkey => h (rateEntryKey_inj.mp hkey), fun reply => rfl⟩, fun r => ?_⟩
      match r with
      | .error e => trivial
      | .ok reply => trivial

/-- The script that a step executes, unless its request gets lost. -/
def executed (s : RateState) : RateAction → Option RateScript
  | .perform i _ => s.scriptOf i
  | _ => none

/-- The hit of an executed script. -/
def hitOf (c : RateScript) : Except JsError RateReply → List Hit
  | .ok reply => [⟨c, RedisRateLimitService.result c.window reply⟩]
  | .error _ => []

theorem noted_eq_hitOf {c : RateScript} {k : Except JsError RateReply → RedisRateLimitService.Code}
    (hresult : ∀ reply, k (.ok reply) = .resolve (RedisRateLimitService.result c.window reply))
    (r : Except JsError RateReply) : noted c k r = hitOf c r := by
  match r with
  | .ok reply =>
    unfold noted hitOf
    dsimp only
    split
    · rename_i result hk
      rw [Async.resolve.inj ((hresult reply).symm.trans hk)]
    · rename_i hne
      exact absurd (hresult reply) (hne _)
  | .error e => rfl

/-- A step executes a script, or leaves the store and the record alone. -/
theorem step_cases (hs : ∀ code ∈ s.calls, code.Everywhere (Sends key L W))
    (ha : Governed key L W a) (h : s.step a = some s') :
    (∀ code ∈ s'.calls, code.Everywhere (Sends key L W)) ∧
    ((s'.store = s.store ∧ s'.hits = s.hits ∧ s.now ≤ s'.now) ∨
      ∃ c, s.executed a = some c ∧ (c.key = rateEntryKey key → c.limit = L ∧ c.window = W) ∧
        s'.now = s.now ∧ s'.store = (rateLimit s.now s.store c).1 ∧
        s'.hits = s.hits ++ hitOf c (rateLimit s.now s.store c).2) := by
  have hset : ∀ (i : ℕ) (code : RedisRateLimitService.Code), code.Everywhere (Sends key L W) →
      ∀ code' ∈ s.calls.set i code, code'.Everywhere (Sends key L W) := by
    intro i code hcode code' hmem
    rcases List.mem_or_eq_of_mem_set hmem with hold | rfl
    · exact hs code' hold
    · exact hcode
  match a with
  | .hit key' limit windowSeconds =>
    cases h
    refine ⟨fun code hmem => ?_, Or.inl ⟨rfl, rfl, le_rfl⟩⟩
    rcases List.mem_append.mp hmem with hold | hnew
    · exact hs code hold
    · rw [List.mem_singleton.mp hnew]
      exact hit_sends ha
  | .readClock i =>
    change s.readClock i = some s' at h
    unfold readClock at h
    split at h
    · rename_i k hcall
      cases h
      exact ⟨hset i _ ((hs _ (List.mem_of_getElem? hcall)).2 _), Or.inl ⟨rfl, rfl, le_rfl⟩⟩
    · exact nomatch h
  | .drawUUID i uuid =>
    change s.drawUUID i uuid = some s' at h
    unfold drawUUID at h
    split at h
    · rename_i k hcall
      cases h
      exact ⟨hset i _ ((hs _ (List.mem_of_getElem? hcall)).2 _), Or.inl ⟨rfl, rfl, le_rfl⟩⟩
    · exact nomatch h
  | .perform i transport =>
    change s.perform i transport = some s' at h
    unfold perform at h
    split at h
    · rename_i c k hcall
      -- the script is executed unless the request gets lost
      obtain ⟨⟨hgoverned, hresult⟩, hnext⟩ := hs _ (List.mem_of_getElem? hcall)
      have hexec : s.executed (.perform i transport) = some c := by
        rw [executed, scriptOf, hcall]
      have hnoted := noted_eq_hitOf hresult (rateLimit s.now s.store c).2
      match transport with
      | .answered =>
        cases h
        exact ⟨hset i _ (hnext _), Or.inr ⟨c, hexec, hgoverned, rfl, rfl, by rw [← hnoted]⟩⟩
      | .answerLost =>
        cases h
        exact ⟨hset i _ (hnext _), Or.inr ⟨c, hexec, hgoverned, rfl, rfl, by rw [← hnoted]⟩⟩
      | .requestLost =>
        cases h
        exact ⟨hset i _ (hnext _), Or.inl ⟨rfl, rfl, le_rfl⟩⟩
    · exact nomatch h
  | .tick ms =>
    cases h
    exact ⟨hs, Or.inl ⟨rfl, rfl, Nat.le_add_right _ _⟩⟩

/-! ## The key -/

/-- The script on the set of the key was allowed: its timestamp is in the set. -/
structure Allows (s s' : RateState) (key : String) (L W : ℕ) (c : RateScript) : Prop where
  below : (trimmed s.now s.store c).card < L
  store : s'.store (rateEntryKey key) =
    some ⟨(trimmed s.now s.store c).add c.now c.member, some (s.now + W)⟩
  hits : hitsOf key s'.hits = hitsOf key s.hits ++ [⟨c, true,
    (L : ℤ) - ((trimmed s.now s.store c).card + 1),
    (((trimmed s.now s.store c).add c.now c.member).first.getD c.now + W : ℤ)⟩]

/-- It was refused: nothing is added, and the expiry stays. -/
structure Refuses (s s' : RateState) (key : String) (L W : ℕ) (c : RateScript) : Prop where
  full : L ≤ (trimmed s.now s.store c).card
  store : ∃ e, s.store.entry s.now (rateEntryKey key) = some e ∧
    s'.store (rateEntryKey key) = some ⟨trimmed s.now s.store c, e.expireAt⟩
  hits : hitsOf key s'.hits = hitsOf key s.hits ++ [⟨c, false, 0,
    ((trimmed s.now s.store c).first.getD c.now + W : ℤ)⟩]

/-- What is left of the limit, as the script reports it. -/
theorem remaining_eq (L count : ℕ) :
    ⌊max ((L : ℚ) - (count : ℕ)) 0⌋ = max ((L : ℤ) - count) 0 := by
  have hcast : max ((L : ℚ) - (count : ℕ)) 0 = ((max ((L : ℤ) - count) 0 : ℤ) : ℚ) := by
    push_cast
    rfl
  rw [hcast, Int.floor_intCast]

/-- What the trimming leaves: the scores inside the window of the script. -/
theorem scores_trimmed {c : RateScript} {clock : ℕ} {st : RateStore} (hwindow : c.window = W)
    (hpos : ∀ a ∈ (zset clock st c.key).scores, 0 ≤ a) :
    (trimmed clock st c).scores =
      (zset clock st c.key).scores.filter fun a => decide (c.now - W < a) := by
  rw [trimmed, SortedSet.scores_remove]
  apply List.filter_congr
  intro a ha
  have ha0 := hpos a ha
  have hcast : ((a : ℚ) ≤ c.now - c.window) ↔ a ≤ c.now - W := by
    rw [hwindow]
    exact_mod_cast Iff.rfl
  rw [← decide_not, decide_eq_decide, hcast]
  omega

section Script

variable {c : RateScript}

theorem hitsOf_concat (hits : List Hit) {h : Hit} (hkey : h.script.key = rateEntryKey key) :
    hitsOf key (hits ++ [h]) = hitsOf key hits ++ [h] := by
  simp [hitsOf, List.filter_append, hkey]

/-- A set of which the trimming leaves something is in an entry that counts, and keeps its
expiry. -/
theorem zremrangebyscore_of_card (hcard : (trimmed s.now s.store c).card ≠ 0) :
    ∃ e, s.store.entry s.now c.key = some e ∧
      zremrangebyscore s.now s.store c.key (c.now - c.window) c.key =
        some ⟨trimmed s.now s.store c, e.expireAt⟩ := by
  match hentry : s.store.entry s.now c.key with
  | none =>
    have hempty : (trimmed s.now s.store c).card = 0 := by
      rw [trimmed, zset_of_none hentry, SortedSet.remove_empty]
      rfl
    exact absurd hempty hcard
  | some e =>
    have hz : (e.value.remove fun score =>
        decide (0 ≤ score ∧ (score : ℚ) ≤ c.now - c.window)) = trimmed s.now s.store c := by
      rw [trimmed, zset_of_entry hentry]
    refine ⟨e, rfl, ?_⟩
    unfold zremrangebyscore
    rw [hentry]
    simp only [hz, if_neg hcard]
    exact KeyValue.set_self

variable (hkey : c.key = rateEntryKey key) (hlimit : c.limit = L) (hwindow : c.window = W)
  (hstore : s'.store = (rateLimit s.now s.store c).1)
  (hhits : s'.hits = s.hits ++ hitOf c (rateLimit s.now s.store c).2)

include hkey hlimit hwindow hstore hhits

theorem allows_of_lt (hW : 0 < W) (hcount : (trimmed s.now s.store c).card < L) :
    Allows s s' key L W c := by
  have hcountQ : ((trimmed s.now s.store c).card : ℚ) < c.limit := by
    rw [hlimit]
    exact_mod_cast hcount
  obtain ⟨hreply, hset, -⟩ := rateLimit_of_lt hwindow hW hcountQ
  refine ⟨hcount, ?_, ?_⟩
  · rw [hstore, ← hkey, hset]
  · rw [hhits, hreply, hlimit, remaining_eq]
    have hmax : max ((L : ℤ) - ((trimmed s.now s.store c).card + 1 : ℕ)) 0 =
        (L : ℤ) - ((trimmed s.now s.store c).card + 1) := by omega
    rw [hmax]
    refine (hitsOf_concat s.hits hkey).trans ?_
    rw [RedisRateLimitService.result, hwindow]
    push_cast
    rfl

theorem refuses_of_ge (hL : 1 ≤ L) (hfull : L ≤ (trimmed s.now s.store c).card) :
    Refuses s s' key L W c := by
  have hcountQ : ¬ ((trimmed s.now s.store c).card : ℚ) < c.limit := by
    rw [hlimit]
    exact_mod_cast Nat.not_lt.mpr hfull
  obtain ⟨hreply, hset⟩ := @rateLimit_of_ge s.now s.store c hcountQ
  refine ⟨hfull, ?_, ?_⟩
  · rw [hstore, hset, ← hkey]
    apply zremrangebyscore_of_card
    omega
  · rw [hhits, hreply, hlimit, remaining_eq]
    have hmax : max ((L : ℤ) - (trimmed s.now s.store c).card) 0 = 0 := by omega
    rw [hmax]
    refine (hitsOf_concat s.hits hkey).trans ?_
    rw [RedisRateLimitService.result, hwindow]
    push_cast
    rfl

end Script

theorem hitsOf_hitOf {c : RateScript} (hkey : c.key ≠ rateEntryKey key)
    (r : Except JsError RateReply) : hitsOf key (hitOf c r) = [] := by
  cases r with
  | ok reply => simp [hitsOf, hitOf, hkey]
  | error e => rfl

/-- A step does nothing to the key, or its script is allowed or refused. -/
theorem key_cases (hL : 1 ≤ L) (hW : 0 < W)
    (hs : ∀ code ∈ s.calls, code.Everywhere (Sends key L W))
    (ha : Governed key L W a) (h : s.step a = some s') :
    (∀ code ∈ s'.calls, code.Everywhere (Sends key L W)) ∧ s.now ≤ s'.now ∧
    ((s'.store (rateEntryKey key) = s.store (rateEntryKey key) ∧
        hitsOf key s'.hits = hitsOf key s.hits) ∨
      ∃ c, s.executed a = some c ∧ c.key = rateEntryKey key ∧ c.window = W ∧ s'.now = s.now ∧
        (Allows s s' key L W c ∨ Refuses s s' key L W c)) := by
  obtain ⟨hcalls, hquiet | hscript⟩ := step_cases hs ha h
  · obtain ⟨hstore, hhits, hnow⟩ := hquiet
    exact ⟨hcalls, hnow, Or.inl ⟨by rw [hstore], by rw [hhits]⟩⟩
  obtain ⟨c, hexec, hgoverned, hnow, hstore, hhits⟩ := hscript
  refine ⟨hcalls, Nat.le_of_eq hnow.symm, ?_⟩
  by_cases hkey : c.key = rateEntryKey key
  · obtain ⟨hlimit, hwindow⟩ := hgoverned hkey
    refine Or.inr ⟨c, hexec, hkey, hwindow, hnow, ?_⟩
    by_cases hcount : (trimmed s.now s.store c).card < L
    · exact Or.inl (allows_of_lt hkey hlimit hwindow hstore hhits hW hcount)
    · exact Or.inr (refuses_of_ge hkey hlimit hwindow hstore hhits hL (Nat.le_of_not_lt hcount))
  · refine Or.inl ⟨?_, ?_⟩
    · rw [hstore]
      exact rateLimit_ne (Ne.symm hkey)
    · rw [hhits, hitsOf, List.filter_append]
      exact (congrArg _ (hitsOf_hitOf hkey _)).trans (List.append_nil _)

end RateState

end NestFastify.Redis
