import NestFastify.Redis.SlidingWindow
import Mathlib.Data.Int.Range

/-!
# Scripts that overtake each other

A script counts with the timestamp that its caller read. So a script that executes late may
count a window that has lost hits already: to a script with a later timestamp, or with the key.
As long as a full window keeps its hits until every script with a timestamp in it has executed,
the limit holds in every window.
-/

namespace NestFastify.Redis

namespace RateState

/-- No window holds the timestamps of more than `L` allowed hits. -/
def WithinLimit (key : String) (L W : ℕ) (s : RateState) : Prop :=
  ∀ t : ℤ, (counted W t (timesOf (hitsOf key s.hits))).length ≤ L

/-- The hits of the key have this limit and this window, and unique members. -/
def Unrepeated (key : String) (L W : ℕ) (s : RateState) (a : RateAction) : Prop :=
  Governed key L W a ∧ ∀ c ∈ s.executed a, c.key = rateEntryKey key →
    ∀ h ∈ hitsOf key s.hits, h.script.member ≠ c.member

instance (key : String) (L W : ℕ) (s : RateState) (a : RateAction) :
    Decidable (Unrepeated key L W s a) := inferInstanceAs (Decidable (_ ∧ _))

/-- All allowed hits in the window up to `t` are in the set. -/
def Holds (key : String) (W : ℕ) (s : RateState) (t : ℤ) : Prop :=
  ∀ h ∈ hitsOf key s.hits, h.result.allowed = true → t - W < h.script.now → h.script.now ≤ t →
    ⟨h.script.now, h.script.member⟩ ∈ (zset s.now s.store (rateEntryKey key)).entries

instance (key : String) (W : ℕ) (s : RateState) (t : ℤ) : Decidable (Holds key W s t) :=
  inferInstanceAs (Decidable (∀ _ ∈ _, _))

/-- Every full window that holds the timestamp of an executing script has all its hits in the
set. -/
def Undisturbed (key : String) (L W : ℕ) (s : RateState) (a : RateAction) : Prop :=
  ∀ c ∈ s.executed a, c.key = rateEntryKey key → ∀ t : ℤ, c.now ≤ t → t < c.now + W →
    L ≤ (counted W t (timesOf (hitsOf key s.hits))).length → Holds key W s t

instance (key : String) (L W : ℕ) (s : RateState) (a : RateAction) :
    Decidable (Undisturbed key L W s a) :=
  inferInstanceAs (Decidable (∀ c ∈ s.executed a, c.key = rateEntryKey key →
    ∀ t : ℤ, c.now ≤ t → t < c.now + W → _))

variable {key : String} {L W : ℕ} {s s' : RateState} {a : RateAction} {c : RateScript}

/-- The entries of the allowed hits in a window. -/
def entriesOf (W : ℕ) (t : ℤ) (hits : List Hit) : List (SortedSet.Scored String) :=
  ((hits.filter (·.result.allowed)).filter
    fun h => decide (t - W < h.script.now ∧ h.script.now ≤ t)).map
      fun h => ⟨h.script.now, h.script.member⟩

theorem length_entriesOf (W : ℕ) (t : ℤ) (hits : List Hit) :
    (entriesOf W t hits).length = (counted W t (timesOf hits)).length := by
  rw [entriesOf, counted, timesOf, List.filter_map, List.length_map, List.length_map]
  rfl

theorem mem_entriesOf {t : ℤ} {hits : List Hit} {x : SortedSet.Scored String} :
    x ∈ entriesOf W t hits ↔ ∃ h ∈ hits, h.result.allowed = true ∧
      (t - W < h.script.now ∧ h.script.now ≤ t) ∧ ⟨h.script.now, h.script.member⟩ = x := by
  simp [entriesOf, and_assoc, and_left_comm]

/-- Hits with unique members have distinct entries. -/
theorem nodup_entriesOf {t : ℤ} {hits : List Hit}
    (hunique : (hits.map (·.script.member)).Nodup) : (entriesOf W t hits).Nodup := by
  apply List.Nodup.of_map SortedSet.Scored.member
  rw [entriesOf, List.map_map]
  exact hunique.sublist ((List.filter_sublist.trans List.filter_sublist).map _)

/-- A script that is allowed has its timestamp in no full window. -/
theorem counted_lt_of_allows (hunique : ((hitsOf key s.hits).map (·.script.member)).Nodup)
    (hkey : c.key = rateEntryKey key) (hwindow : c.window = W) (hexec : s.executed a = some c)
    (hundisturbed : Undisturbed key L W s a) (ha : Allows s s' key L W c) {t : ℤ}
    (hle : c.now ≤ t) (hlt : t < c.now + W) :
    (counted W t (timesOf (hitsOf key s.hits))).length < L := by
  by_contra hfull
  have hfull : L ≤ (counted W t (timesOf (hitsOf key s.hits))).length := Nat.le_of_not_lt hfull
  have hkept := hundisturbed c hexec hkey t hle hlt hfull
  -- all hits of the window are in the set, and the trimming of the script leaves them there
  have hsub : entriesOf W t (hitsOf key s.hits) ⊆ (trimmed s.now s.store c).entries := by
    intro x hx
    obtain ⟨h, hh, hallowed, ⟨hlow, hhigh⟩, rfl⟩ := mem_entriesOf.mp hx
    refine SortedSet.mem_remove.mpr ⟨?_, ?_⟩
    · rw [hkey]
      exact hkept h hh hallowed hlow hhigh
    · rw [hwindow, decide_eq_false_iff_not, not_and]
      intro _ hscore
      have hscore : h.script.now ≤ c.now - W := by exact_mod_cast hscore
      omega
  have hcard := (List.subperm_of_subset (nodup_entriesOf hunique) hsub).length_le
  rw [length_entriesOf] at hcard
  have hbelow : (trimmed s.now s.store c).entries.length < L := ha.below
  omega

/-! ## Runs -/

/-- The limit holds so far, and the members are unique. -/
structure Bounded (key : String) (L W : ℕ) (s : RateState) : Prop where
  calls : ∀ code ∈ s.calls, code.Everywhere (Sends key L W)
  unique : ((hitsOf key s.hits).map (·.script.member)).Nodup
  within : WithinLimit key L W s

theorem Bounded.initial (h : s.Initial) : Bounded key L W s := by
  constructor
  · rw [h.calls]
    nofun
  · rw [h.hits]
    exact List.nodup_nil
  · intro t
    rw [h.hits]
    exact Nat.zero_le L

/-- One more hit with a new member. -/
theorem Bounded.unique_append (hs : Bounded key L W s) {h : Hit}
    (hfresh : ∀ g ∈ hitsOf key s.hits, g.script.member ≠ h.script.member)
    (hhits : hitsOf key s'.hits = hitsOf key s.hits ++ [h]) :
    ((hitsOf key s'.hits).map (·.script.member)).Nodup := by
  rw [hhits, List.map_append, List.map_singleton]
  refine List.nodup_append.mpr ⟨hs.unique, List.nodup_singleton _, fun m hm m' hm' heq => ?_⟩
  obtain ⟨g, hg, rfl⟩ := List.mem_map.mp hm
  rw [List.mem_singleton] at hm'
  exact hfresh g hg (heq.trans hm')

theorem Bounded.step (hs : Bounded key L W s) (hL : 1 ≤ L) (hW : 0 < W)
    (ha : Unrepeated key L W s a ∧ Undisturbed key L W s a) (h : s.step a = some s') :
    Bounded key L W s' := by
  obtain ⟨⟨hgoverned, hfresh⟩, hundisturbed⟩ := ha
  obtain ⟨hcalls, -, hquiet | ⟨c, hexec, hkey, hwindow, -, hscript⟩⟩ :=
    key_cases hL hW hs.calls hgoverned h
  · refine ⟨hcalls, ?_, fun t => ?_⟩
    · rw [hquiet.2]
      exact hs.unique
    · rw [hquiet.2]
      exact hs.within t
  have hnew := hfresh c hexec hkey
  rcases hscript with hallows | hrefuses
  · refine ⟨hcalls, hs.unique_append hnew hallows.hits, fun t => ?_⟩
    rw [hallows.hits, timesOf_allowed _ rfl, counted, List.filter_append, List.length_append]
    by_cases hin : t - W < c.now ∧ c.now ≤ t
    · have hlt := counted_lt_of_allows hs.unique hkey hwindow hexec hundisturbed hallows
        hin.2 (by omega)
      rw [counted] at hlt
      simp only [hin, and_self, decide_true, List.filter_cons_of_pos, List.filter_nil,
        List.length_singleton]
      omega
    · have hle := hs.within t
      rw [counted] at hle
      simpa [hin] using hle
  · refine ⟨hcalls, hs.unique_append hnew hrefuses.hits, fun t => ?_⟩
    rw [hrefuses.hits, timesOf_refused _ rfl]
    exact hs.within t

/-- In a run in which full windows keep their hits until every script with a timestamp in them
has executed, no window ever holds more than the limit. -/
theorem withinLimit_of_reaches (hL : 1 ≤ L) (hW : 0 < W) {s₀ : RateState} (h₀ : s₀.Initial)
    (h : Transition.Reaches step
      (fun s a => Unrepeated key L W s a ∧ Undisturbed key L W s a) s₀ s) :
    WithinLimit key L W s :=
  (h.invariant (Bounded.initial h₀) fun _ _ _ hu ha hv => hu.step hL hW ha hv).within

/-- Two hits at 0; one at `ms`, which executes only after one at `ms + 1`. -/
def overtaking (limit windowSeconds : ℚ) (ms : ℕ) : List RateAction :=
  hitNow "k" limit windowSeconds 0 ++ hitNow "k" limit windowSeconds 1 ++
    [.tick ms, .hit "k" limit windowSeconds, .readClock 2, .drawUUID 2 "b", .tick 1] ++
    hitNow "k" limit windowSeconds 3 ++ [.perform 2 .answered]

theorem withinLimit_of_reaches_overtaking : ∃ s, s.hits.map (·.script.now) = [0, 0, 6, 5] ∧
    s.hits.map (·.result.allowed) = [true, true, true, false] ∧ WithinLimit "k" 3 10 s := by
  let s₀ : RateState := ⟨0, fun _ => none, [], []⟩
  have hrun : (Transition.run step (fun s a => Unrepeated "k" 3 10 s a ∧ Undisturbed "k" 3 10 s a)
      s₀ (overtaking 3 (Binary64.round (1 / 100)) 5)).map (fun s => decide (
        s.hits.map (·.script.now) = [0, 0, 6, 5] ∧
        s.hits.map (·.result.allowed) = [true, true, true, false])) = some true := by
    decide +kernel
  obtain ⟨s, hreach, hs⟩ := Transition.exists_reaches_of_run hrun
  obtain ⟨htimes, hallowed⟩ := of_decide_eq_true hs
  exact ⟨s, htimes, hallowed,
    withinLimit_of_reaches (by decide) (by decide) ⟨rfl, rfl, fun _ => rfl⟩ hreach⟩

/-- A hit at 999 executes after one at 1000, which has removed the two hits at 0. -/
theorem not_withinLimit_of_reaches : ¬ ∀ (key : String) (L W : ℕ), 1 ≤ L → 0 < W →
    ∀ s₀ s : RateState, s₀.Initial → Transition.Reaches step (Unrepeated key L W) s₀ s →
      WithinLimit key L W s := by
  intro hclaim
  let s₀ : RateState := ⟨0, fun _ => none, [], []⟩
  have hrun : (Transition.run step (Unrepeated "k" 2 1000) s₀ (overtaking 2 1 999)).map
      (fun s => decide ((counted 1000 999 (timesOf (hitsOf "k" s.hits))).length = 3)) =
        some true := by
    decide +kernel
  obtain ⟨s, hreach, hs⟩ := Transition.exists_reaches_of_run hrun
  have hle := hclaim "k" 2 1000 (by decide) (by decide) s₀ s ⟨rfl, rfl, fun _ => rfl⟩ hreach 999
  rw [of_decide_eq_true hs] at hle
  exact absurd hle (by decide)

end RateState

end NestFastify.Redis
