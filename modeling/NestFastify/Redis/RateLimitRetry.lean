import NestFastify.Redis.SlidingWindow

/-!
# Coming back after a refusal

Scripts execute in any order, with timestamps that may have grown old on the way. Even so the set
of a key stays within the limit, and a refused hit changes nothing. So `resetAt` tells a refused
caller the truth as long as nobody else is let in, and a key that lets nobody in for a window opens
by itself.
-/

namespace NestFastify.Redis

namespace RateState

/-! ## The timestamps -/

/-- The timestamps in the scripts of a call are readings of the clock. -/
def Stamped : RedisRateLimitService.Code → Prop
  | .await .dateNow k => ∀ now : ℤ, 0 ≤ now → Stamped (k (.ok now))
  | .await .randomUUID k => ∀ uuid, Stamped (k (.ok uuid))
  | .await (.rateLimit c) k => 0 ≤ c.now ∧ ∀ r, Stamped (k r)
  | _ => True

variable {key : String} {L W : ℕ} {s s' t : RateState} {a : RateAction} {c : RateScript}

theorem stamped_hit (key : String) (limit windowSeconds : ℚ) :
    Stamped (RedisRateLimitService.hit key limit windowSeconds) := by
  intro now hnow uuid
  refine ⟨hnow, fun r => ?_⟩
  cases r with
  | ok reply => trivial
  | error e => trivial

theorem stamped_step (hs : ∀ code ∈ s.calls, Stamped code) (h : s.step a = some s') :
    (∀ code ∈ s'.calls, Stamped code) ∧ ∀ c ∈ s.executed a, 0 ≤ c.now := by
  -- a step moves one of the calls on
  have hset : ∀ (i : ℕ) (code : RedisRateLimitService.Code), Stamped code →
      ∀ code' ∈ s.calls.set i code, Stamped code' := by
    intro i code hcode code' hmem
    rcases List.mem_or_eq_of_mem_set hmem with hold | rfl
    · exact hs code' hold
    · exact hcode
  cases a with
  | hit key' limit windowSeconds =>
    cases h
    refine ⟨fun code hmem => ?_, fun c hc => by cases hc⟩
    rcases List.mem_append.mp hmem with hold | hnew
    · exact hs code hold
    · rw [List.mem_singleton.mp hnew]
      exact stamped_hit key' limit windowSeconds
  | readClock i =>
    change s.readClock i = some s' at h
    unfold readClock at h
    split at h
    · rename_i k hcall
      cases h
      exact ⟨hset i _ (hs _ (List.mem_of_getElem? hcall) _ (Int.natCast_nonneg _)), fun c hc => by cases hc⟩
    · cases h
  | drawUUID i uuid =>
    change s.drawUUID i uuid = some s' at h
    unfold drawUUID at h
    split at h
    · rename_i k hcall
      cases h
      exact ⟨hset i _ (hs _ (List.mem_of_getElem? hcall) uuid), fun c hc => by cases hc⟩
    · cases h
  | perform i transport =>
    change s.perform i transport = some s' at h
    unfold perform at h
    split at h
    · rename_i c k hcall
      obtain ⟨hnow, hnext⟩ := hs _ (List.mem_of_getElem? hcall)
      have hexec : s.executed (.perform i transport) = some c := by
        rw [executed, scriptOf, hcall]
      refine ⟨?_, fun c' hc' => ?_⟩
      · cases transport with
        | answered | answerLost | requestLost =>
          cases h
          exact hset i _ (hnext _)
      · rw [hexec] at hc'
        rw [← Option.some.inj hc']
        exact hnow
    · cases h
  | tick ms =>
    cases h
    exact ⟨hs, fun c hc => by cases hc⟩

/-! ## The entry of a key -/

/-- The set of the key stays within the limit, and lives for a window at most. -/
structure Confined (key : String) (L W : ℕ) (s : RateState) : Prop where
  calls : ∀ code ∈ s.calls, code.Everywhere (Sends key L W)
  stamped : ∀ code ∈ s.calls, Stamped code
  card : ∀ e, s.store (rateEntryKey key) = some e → e.value.card ≤ L
  scores : ∀ e, s.store (rateEntryKey key) = some e → ∀ x ∈ e.value.entries, 0 ≤ x.score
  expiry : ∀ e, s.store (rateEntryKey key) = some e →
    ∃ last : ℕ, e.expireAt = some last ∧ last ≤ s.now + W

theorem Confined.initial (h : s.Initial) : Confined key L W s := by
  have hstore := h.store key
  constructor
  · rw [h.calls]
    exact fun code hmem => absurd hmem List.not_mem_nil
  · rw [h.calls]
    exact fun code hmem => absurd hmem List.not_mem_nil
  all_goals
    intro e he
    rw [hstore] at he
    cases he

theorem trimmed_of_entry {e : KeyValue.Entry (SortedSet String)}
    (h : s.store.entry s.now c.key = some e) : trimmed s.now s.store c =
      e.value.remove fun score => decide (0 ≤ score ∧ (score : ℚ) ≤ c.now - c.window) := by
  rw [trimmed, zset_of_entry h]

theorem trimmed_of_none (h : s.store.entry s.now c.key = none) :
    trimmed s.now s.store c = .empty := by
  rw [trimmed, zset_of_none h, SortedSet.remove_empty]

/-- What the trimming leaves has been in the set. -/
theorem Confined.trimmed_scores (hs : Confined key L W s) (hkey : c.key = rateEntryKey key)
    {x : SortedSet.Scored String} (hx : x ∈ (trimmed s.now s.store c).entries) : 0 ≤ x.score := by
  cases hentry : s.store.entry s.now c.key with
  | none =>
    rw [trimmed_of_none hentry] at hx
    exact absurd hx List.not_mem_nil
  | some e =>
    rw [trimmed_of_entry hentry] at hx
    rw [hkey] at hentry
    exact hs.scores e (KeyValue.entry_eq_some.mp hentry).1 x (SortedSet.mem_remove.mp hx).1

/-- A refused hit finds a full set, of which it trims nothing. -/
theorem Confined.refused (hs : Confined key L W s) (hkey : c.key = rateEntryKey key)
    (h : Refuses s s' key L W c) : ∃ e, s.store.entry s.now (rateEntryKey key) = some e ∧
      trimmed s.now s.store c = e.value ∧ s'.store (rateEntryKey key) = some e := by
  obtain ⟨e, hentry, hstore⟩ := h.store
  have hlive := (KeyValue.entry_eq_some.mp hentry).1
  have htrimmed : trimmed s.now s.store c = e.value := by
    have hfull := h.full
    rw [trimmed_of_entry (hkey ▸ hentry)] at hfull ⊢
    exact SortedSet.remove_of_card_le ((hs.card e hlive).trans hfull)
  refine ⟨e, hentry, htrimmed, ?_⟩
  rw [hstore, htrimmed]

/-- From `s` on, only a hit of the key that is let in changes the entry of the key. -/
structure Since (key : String) (s t : RateState) : Prop where
  grows : (timesOf (hitsOf key s.hits)).length ≤ (timesOf (hitsOf key t.hits)).length
  stays : (timesOf (hitsOf key t.hits)).length = (timesOf (hitsOf key s.hits)).length →
    t.store (rateEntryKey key) = s.store (rateEntryKey key)

theorem Since.trans (h : Since key s t) (h' : Since key t s') : Since key s s' := by
  obtain ⟨hgrows, hstays⟩ := h
  obtain ⟨hgrows', hstays'⟩ := h'
  exact ⟨hgrows.trans hgrows', fun heq => (hstays' (by omega)).trans (hstays (by omega))⟩

/-- A step lets a hit of the key in, or it leaves the entry of the key as it is. -/
theorem Confined.step (hs : Confined key L W s) (hL : 1 ≤ L) (hW : 0 < W)
    (ha : Governed key L W a) (h : s.step a = some s') :
    Confined key L W s' ∧ Since key s s' := by
  obtain ⟨hstamped, hnonneg⟩ := stamped_step hs.stamped h
  obtain ⟨hcalls, hnow, hcases⟩ := key_cases hL hW hs.calls ha h
  have hsame : s'.store (rateEntryKey key) = s.store (rateEntryKey key) →
      Confined key L W s' := by
    intro hstore
    refine ⟨hcalls, hstamped, hstore ▸ hs.card, hstore ▸ hs.scores, fun e he => ?_⟩
    obtain ⟨last, hlast, hle⟩ := hs.expiry e (hstore ▸ he)
    exact ⟨last, hlast, by omega⟩
  rcases hcases with ⟨hstore, hhits⟩ | ⟨c, hexec, hkey, -, hclock, hallows | hrefuses⟩
  · exact ⟨hsame hstore, by rw [hhits], fun _ => hstore⟩
  · have hlength : (timesOf (hitsOf key s'.hits)).length =
        (timesOf (hitsOf key s.hits)).length + 1 := by
      rw [hallows.hits, timesOf_allowed _ rfl, List.length_append, List.length_singleton]
    refine ⟨⟨hcalls, hstamped, fun e he => ?_, fun e he x hx => ?_, fun e he => ?_⟩,
      by omega, fun heq => by omega⟩
    · obtain rfl := Option.some.inj (hallows.store.symm.trans he)
      have hbelow := hallows.below
      exact SortedSet.card_add_le.trans hbelow
    · obtain rfl := Option.some.inj (hallows.store.symm.trans he)
      rcases SortedSet.mem_of_mem_add hx with rfl | hold
      · exact hnonneg c hexec
      · exact hs.trimmed_scores hkey hold
    · obtain rfl := Option.some.inj (hallows.store.symm.trans he)
      exact ⟨s.now + W, rfl, by omega⟩
  · obtain ⟨e, hentry, -, hstore⟩ := hs.refused hkey hrefuses
    have hstore : s'.store (rateEntryKey key) = s.store (rateEntryKey key) :=
      hstore.trans (KeyValue.entry_eq_some.mp hentry).1.symm
    have hhits : timesOf (hitsOf key s'.hits) = timesOf (hitsOf key s.hits) := by
      rw [hrefuses.hits, timesOf_refused _ rfl]
    exact ⟨hsame hstore, by rw [hhits], fun _ => hstore⟩

/-- A full set lets a script in exactly when the script is a window later than the oldest entry. -/
theorem trimmed_card_lt_iff {e : KeyValue.Entry (SortedSet String)} {oldest : ℤ}
    (hentry : s.store.entry s.now c.key = some e) (hcard : e.value.card = L)
    (hwindow : c.window = W) (hfirst : e.value.first = some oldest) (hnonneg : 0 ≤ oldest) :
    (trimmed s.now s.store c).card < L ↔ oldest + W ≤ c.now := by
  have hcast : ∀ score : ℤ, ((score : ℚ) ≤ c.now - c.window) ↔ score + W ≤ c.now := by
    intro score
    rw [hwindow, le_sub_iff_add_le]
    exact_mod_cast Iff.rfl
  rw [trimmed_of_entry hentry, SortedSet.card, SortedSet.remove, ← hcard, SortedSet.card,
    List.length_filter_lt_length_iff_exists]
  have hleast := SortedSet.isLeast_first hfirst
  constructor
  · rintro ⟨x, hx, hremoved⟩
    have hx' := hleast.2 (List.mem_map_of_mem hx)
    have hgone : 0 ≤ x.score ∧ (x.score : ℚ) ≤ c.now - c.window := by simpa using hremoved
    have hgone' := (hcast x.score).mp hgone.2
    omega
  · intro hlate
    obtain ⟨x, hx, hscore⟩ := List.mem_map.mp hleast.1
    have hgone := (hcast oldest).mpr hlate
    refine ⟨x, hx, ?_⟩
    rw [hscore]
    simp [hnonneg, hgone]

/-! ## Runs -/

open Transition (Reaches)

section Runs

variable (hL : 1 ≤ L) (hW : 0 < W)

include hL hW

theorem since_of_reaches (hs : Confined key L W s)
    (h : Reaches step (fun _ => Governed key L W) s t) : Confined key L W t ∧ Since key s t := by
  induction h with
  | refl => exact ⟨hs, le_rfl, fun _ => rfl⟩
  | tail _ hnext ih =>
    obtain ⟨hconfined, hsince⟩ := ih
    obtain ⟨a, ha, hv⟩ := hnext
    obtain ⟨hconfined', hsince'⟩ := hconfined.step hL hW ha hv
    exact ⟨hconfined', hsince.trans hsince'⟩

theorem confined_of_reaches (h₀ : s.Initial) (h : Reaches step (fun _ => Governed key L W) s t) :
    Confined key L W t := (since_of_reaches hL hW (Confined.initial h₀) h).1

/-- As long as no hit of the key is let in, its entry stays as it is. -/
theorem store_of_quiet (hs : Confined key L W s)
    (h : Reaches step (fun _ => Governed key L W) s t)
    (hquiet : timesOf (hitsOf key t.hits) = timesOf (hitsOf key s.hits)) :
    t.store (rateEntryKey key) = s.store (rateEntryKey key) :=
  (since_of_reaches hL hW hs h).2.stays (congrArg List.length hquiet)

/-- A hit of the key that a step executes: it is let in, or refused. -/
theorem hit_cases (hs : Confined key L W s) (ha : Governed key L W a) (h : s.step a = some s')
    {hit : Hit} (hhit : hitsOf key s'.hits = hitsOf key s.hits ++ [hit]) :
    ∃ c, s.executed a = some c ∧ c.key = rateEntryKey key ∧ c.window = W ∧ hit.script = c ∧
      ((hit.result.allowed = true ∧ Allows s s' key L W c) ∨
        (hit.result.allowed = false ∧ Refuses s s' key L W c)) := by
  obtain ⟨-, -, ⟨-, hhits⟩ | ⟨c, hexec, hkey, hwindow, -, hcases⟩⟩ := key_cases hL hW hs.calls ha h
  · have hlength := congrArg List.length (hhits.symm.trans hhit)
    rw [List.length_append, List.length_singleton] at hlength
    omega
  · refine ⟨c, hexec, hkey, hwindow, ?_⟩
    rcases hcases with hallows | hrefuses
    · have heq := List.append_cancel_left (hhit.symm.trans hallows.hits)
      obtain rfl := List.head_eq_of_cons_eq heq
      exact ⟨rfl, Or.inl ⟨rfl, hallows⟩⟩
    · have heq := List.append_cancel_left (hhit.symm.trans hrefuses.hits)
      obtain rfl := List.head_eq_of_cons_eq heq
      exact ⟨rfl, Or.inr ⟨rfl, hrefuses⟩⟩

/-- When nobody has been let in for a window, the next hit is, as the first of a new window. -/
theorem reopens_of_quiet (h₀ : s.Initial)
    {u u' : RateState} (hrun : Reaches step (fun _ => Governed key L W) s t)
    (hrun' : Reaches step (fun _ => Governed key L W) t u)
    (hquiet : timesOf (hitsOf key u.hits) = timesOf (hitsOf key t.hits))
    (hlate : t.now + W < u.now) (ha : Governed key L W a) (h : u.step a = some u') {hit : Hit}
    (hhit : hitsOf key u'.hits = hitsOf key u.hits ++ [hit]) :
    hit.result = ⟨true, L - 1, ((hit.script.now + W : ℤ) : ℚ)⟩ := by
  have ht := confined_of_reaches hL hW h₀ hrun
  have hu := confined_of_reaches hL hW h₀ (hrun.trans hrun')
  have hstore := store_of_quiet hL hW ht hrun' hquiet
  -- the entry that is left has lapsed
  have hentry : u.store.entry u.now (rateEntryKey key) = none := by
    by_contra hsome
    obtain ⟨e, he⟩ := Option.ne_none_iff_exists'.mp hsome
    obtain ⟨hlive, hcounts⟩ := KeyValue.entry_eq_some.mp he
    obtain ⟨last, hlast, hle⟩ := ht.expiry e (hstore ▸ hlive)
    rw [KeyValue.Entry.live, hlast] at hcounts
    have hcounts : u.now ≤ last := of_decide_eq_true hcounts
    omega
  obtain ⟨c, -, hkey, -, rfl, ⟨-, hallows⟩ | ⟨-, hrefuses⟩⟩ := hit_cases hL hW hu ha h hhit
  · have hempty : trimmed u.now u.store hit.script = .empty := trimmed_of_none (hkey ▸ hentry)
    have heq := List.head_eq_of_cons_eq (List.append_cancel_left (hhit.symm.trans hallows.hits))
    rw [heq, hempty]
    rfl
  · have hfull := hrefuses.full
    rw [trimmed_of_none (hkey ▸ hentry)] at hfull
    exact absurd hfull (Nat.not_le.mpr hL)

omit hL hW in
/-- A hit that was on its way for a second, longer than the entry of the key lives. -/
theorem reopens_of_quiet_delayed : ∃ (u u' : RateState) (hit : Hit),
    hitsOf "k" u'.hits = hitsOf "k" u.hits ++ [hit] ∧ hit.script.now = 1 ∧
    hit.result = ⟨true, ((1 : ℕ) : ℤ) - 1, ((hit.script.now + (1000 : ℕ) : ℤ) : ℚ)⟩ := by
  let s₀ : RateState := ⟨0, fun _ => none, [], []⟩
  let later : List RateAction := .tick 1 :: hitNow "k" 1 1 1 ++
    [.hit "k" 1 1, .readClock 2, .drawUUID 2 "late", .tick 1000]
  have hrun : ((Transition.run step (fun _ => Governed "k" 1 1000) s₀ (hitNow "k" 1 1 0)).bind
      fun t => (Transition.run step (fun _ => Governed "k" 1 1000) t later).bind fun u =>
        (u.step (.perform 2 .answered)).map fun u' =>
          decide (timesOf (hitsOf "k" u.hits) = timesOf (hitsOf "k" t.hits) ∧
            t.now + 1000 < u.now ∧
            hitsOf "k" u'.hits = hitsOf "k" u.hits ++ u'.hits.drop 2 ∧
            (u'.hits.drop 2).map (·.script.now) = [1])) = some true := by
    decide +kernel
  obtain ⟨t, ht, hrest⟩ := Option.bind_eq_some_iff.mp hrun
  obtain ⟨u, hu, hrest⟩ := Option.bind_eq_some_iff.mp hrest
  obtain ⟨u', hu', htest⟩ := Option.map_eq_some_iff.mp hrest
  obtain ⟨hquiet, hlate, hhit, hnow⟩ := of_decide_eq_true htest
  obtain ⟨hit, hdrop, hnow⟩ := List.map_eq_singleton_iff.mp hnow
  rw [hdrop] at hhit
  have hperform : Governed "k" 1 1000 (.perform 2 .answered) := trivial
  exact ⟨u, u', hit, hhit, hnow, reopens_of_quiet (by decide) (by decide)
    ⟨rfl, rfl, fun _ => rfl⟩ (Transition.reaches_of_run ht) (Transition.reaches_of_run hu)
    hquiet hlate hperform hu' hhit⟩

/-- The set of the key is full, and this is its oldest entry. -/
structure Full (key : String) (L : ℕ) (s : RateState) (oldest : ℤ) : Prop where
  entry : ∃ e, s.store (rateEntryKey key) = some e ∧ e.value.card = L ∧
    e.value.first = some oldest ∧ 0 ≤ oldest

/-- A refused hit names the instant at which the oldest entry leaves the window. -/
theorem full_of_refused (hs : Confined key L W s) (ha : Governed key L W a)
    (h : s.step a = some s') {hit : Hit} (hhit : hitsOf key s'.hits = hitsOf key s.hits ++ [hit])
    (hrefused : hit.result.allowed = false) :
    ∃ oldest, Full key L s' oldest ∧ hit.result.resetAt = ((oldest + W : ℤ) : ℚ) := by
  obtain ⟨c, -, hkey, -, rfl, ⟨htrue, -⟩ | ⟨-, hrefuses⟩⟩ := hit_cases hL hW hs ha h hhit
  · rw [htrue] at hrefused
    cases hrefused
  obtain ⟨e, hentry, htrimmed, hstore⟩ := hs.refused hkey hrefuses
  have hlive := (KeyValue.entry_eq_some.mp hentry).1
  have hfull : e.value.card = L := le_antisymm (hs.card e hlive) (htrimmed ▸ hrefuses.full)
  obtain ⟨oldest, hfirst⟩ : ∃ oldest, e.value.first = some oldest := by
    refine Option.ne_none_iff_exists'.mp fun hnone => ?_
    rw [SortedSet.card, SortedSet.first_eq_none.mp hnone, List.length_nil] at hfull
    omega
  have hnonneg : 0 ≤ oldest := by
    obtain ⟨x, hx, rfl⟩ := List.mem_map.mp (SortedSet.isLeast_first hfirst).1
    exact hs.scores e hlive x hx
  refine ⟨oldest, ⟨e, hstore, hfull, hfirst, hnonneg⟩, ?_⟩
  rw [List.head_eq_of_cons_eq (List.append_cancel_left (hhit.symm.trans hrefuses.hits)), htrimmed,
    hfirst]
  rfl

/-- The next hit on a full set. -/
theorem Full.hit {oldest : ℤ} (hfull : Full key L s oldest) (hs : Confined key L W s)
    (ha : Governed key L W a) (h : s.step a = some s') {hit : Hit}
    (hhit : hitsOf key s'.hits = hitsOf key s.hits ++ [hit]) :
    (hit.result.allowed = true ↔
      oldest + W ≤ hit.script.now ∨ s.store.entry s.now (rateEntryKey key) = none) ∧
    (hit.result.allowed = false → hit.result.resetAt = ((oldest + W : ℤ) : ℚ)) := by
  obtain ⟨e, hstore, hcard, hfirst, hnonneg⟩ := hfull
  have hentry : ∀ e', s.store.entry s.now (rateEntryKey key) = some e' → e' = e := fun e' he' =>
    Option.some.inj ((KeyValue.entry_eq_some.mp he').1.symm.trans hstore)
  obtain ⟨c, -, hkey, hwindow, rfl, ⟨htrue, hallows⟩ | ⟨hfalse, hrefuses⟩⟩ :=
    hit_cases hL hW hs ha h hhit
  · rw [htrue]
    refine ⟨⟨fun _ => ?_, fun _ => rfl⟩, fun hne => by cases hne⟩
    cases hlive : s.store.entry s.now (rateEntryKey key) with
    | none => exact Or.inr rfl
    | some e' =>
      obtain rfl := hentry e' hlive
      exact Or.inl ((trimmed_card_lt_iff (hkey ▸ hlive) hcard hwindow hfirst hnonneg).mp
        hallows.below)
  · obtain ⟨e', hlive, htrimmed, -⟩ := hs.refused hkey hrefuses
    obtain rfl := hentry e' hlive
    have hnot : ¬ oldest + W ≤ hit.script.now := fun hlate =>
      absurd ((trimmed_card_lt_iff (hkey ▸ hlive) hcard hwindow hfirst hnonneg).mpr hlate)
        (Nat.not_lt.mpr hrefuses.full)
    rw [hfalse, hlive]
    refine ⟨by simp [hnot], fun _ => ?_⟩
    rw [List.head_eq_of_cons_eq (List.append_cancel_left (hhit.symm.trans hrefuses.hits)),
      htrimmed, hfirst]
    rfl

/-- `resetAt` tells a refused caller the truth: as long as nobody else is let in, hits are refused
until their timestamps reach it, or until Redis has dropped the key. -/
theorem resetAt_of_quiet (h₀ : s.Initial) {refused u u' : RateState} {b : RateAction}
    {refusal hit : Hit} (hrun : Reaches step (fun _ => Governed key L W) s t)
    (ha : Governed key L W a) (h : t.step a = some refused)
    (hrefusal : hitsOf key refused.hits = hitsOf key t.hits ++ [refusal])
    (hrefused : refusal.result.allowed = false)
    (hrun' : Reaches step (fun _ => Governed key L W) refused u)
    (hquiet : timesOf (hitsOf key u.hits) = timesOf (hitsOf key refused.hits))
    (hb : Governed key L W b) (h' : u.step b = some u')
    (hhit : hitsOf key u'.hits = hitsOf key u.hits ++ [hit]) :
    (hit.result.allowed = true ↔ refusal.result.resetAt ≤ hit.script.now ∨
      u.store.entry u.now (rateEntryKey key) = none) ∧
    (hit.result.allowed = false → hit.result.resetAt = refusal.result.resetAt) := by
  have ht := confined_of_reaches hL hW h₀ hrun
  have ht' := (ht.step hL hW ha h).1
  obtain ⟨oldest, ⟨e, hstore, hfull⟩, hresetAt⟩ := full_of_refused hL hW ht ha h hrefusal hrefused
  -- what the refused hit has found is still there
  have hfull' : Full key L u oldest :=
    ⟨e, (store_of_quiet hL hW ht' hrun' hquiet).trans hstore, hfull⟩
  have hu := (since_of_reaches hL hW ht' hrun').1
  rw [hresetAt, Int.cast_le]
  exact hfull'.hit hL hW hu hb h' hhit

omit hL hW in
/-- A hit that comes back at the instant that the refused one has named. -/
theorem resetAt_of_quiet_punctual : ∃ (u u' : RateState) (refusal hit : Hit),
    hitsOf "k" u'.hits = hitsOf "k" u.hits ++ [hit] ∧
    refusal.result = ⟨false, 0, 1000⟩ ∧ hit.script.now = 1000 ∧
    (hit.result.allowed = true ↔ refusal.result.resetAt ≤ hit.script.now ∨
      u.store.entry u.now (rateEntryKey "k") = none) := by
  let s₀ : RateState := ⟨0, fun _ => none, [], []⟩
  let earlier : List RateAction :=
    hitNow "k" 1 1 0 ++ [.hit "k" 1 1, .readClock 1, .drawUUID 1 "refused"]
  let later : List RateAction := [.tick 1000, .hit "k" 1 1, .readClock 2, .drawUUID 2 "back"]
  have hrun : ((Transition.run step (fun _ => Governed "k" 1 1000) s₀ earlier).bind fun t =>
      (t.step (.perform 1 .answered)).bind fun r =>
        (Transition.run step (fun _ => Governed "k" 1 1000) r later).bind fun u =>
          (u.step (.perform 2 .answered)).map fun u' =>
            decide (hitsOf "k" r.hits = hitsOf "k" t.hits ++ r.hits.drop 1 ∧
              (r.hits.drop 1).map (·.result) = [⟨false, 0, 1000⟩] ∧
              timesOf (hitsOf "k" u.hits) = timesOf (hitsOf "k" r.hits) ∧
              hitsOf "k" u'.hits = hitsOf "k" u.hits ++ u'.hits.drop 2 ∧
              (u'.hits.drop 2).map (·.script.now) = [1000])) = some true := by
    decide +kernel
  obtain ⟨t, ht, hrest⟩ := Option.bind_eq_some_iff.mp hrun
  obtain ⟨r, hr, hrest⟩ := Option.bind_eq_some_iff.mp hrest
  obtain ⟨u, hu, hrest⟩ := Option.bind_eq_some_iff.mp hrest
  obtain ⟨u', hu', htest⟩ := Option.map_eq_some_iff.mp hrest
  obtain ⟨hrefusal, hresult, hquiet, hhit, hnow⟩ := of_decide_eq_true htest
  obtain ⟨refusal, hdrop, hresult⟩ := List.map_eq_singleton_iff.mp hresult
  obtain ⟨hit, hdrop', hnow⟩ := List.map_eq_singleton_iff.mp hnow
  rw [hdrop] at hrefusal
  rw [hdrop'] at hhit
  have hperform : ∀ i, Governed "k" 1 1000 (.perform i .answered) := fun _ => trivial
  exact ⟨u, u', refusal, hit, hhit, hresult, hnow, (resetAt_of_quiet (by decide) (by decide)
    ⟨rfl, rfl, fun _ => rfl⟩ (Transition.reaches_of_run ht) (hperform 1) hr hrefusal
    (by rw [hresult]) (Transition.reaches_of_run hu) hquiet (hperform 2) hu' hhit).1⟩

end Runs

end RateState

end NestFastify.Redis
