import NestFastify.Redis.RateLimitSteps

/-!
# The sliding window

With timestamps that are the clock of Redis, the set of a key holds the allowed hits of the
window, and an entry that the key's expiry or the trimming takes away is outside the window. So
the limiter decides as its specification says, which counts the allowed hits in the half-open
interval of `W` milliseconds up to the hit.
-/

namespace NestFastify.Redis

namespace RateState

/-! ## The specification -/

/-- The timestamps of the allowed hits. -/
def timesOf (hits : List Hit) : List ℤ := (hits.filter (·.result.allowed)).map (·.script.now)

/-- Those in `(t - W, t]`. -/
def counted (W : ℕ) (t : ℤ) (times : List ℤ) : List ℤ :=
  times.filter fun a => decide (t - W < a ∧ a ≤ t)

/-- The result of the hit `h` after the hits `earlier`. -/
structure Specified (L W : ℕ) (earlier : List Hit) (h : Hit) : Prop where
  /-- It is allowed when fewer than `L` earlier allowed hits are in the window. -/
  allowed : h.result.allowed = true ↔ (counted W h.script.now (timesOf earlier)).length < L
  remaining : h.result.remaining =
    (L : ℤ) - (counted W h.script.now (timesOf (earlier ++ [h]))).length
  /-- A refused hit names the first instant at which a hit is allowed if no other intervenes. -/
  resetRefused : h.result.allowed = false → ∃ t : ℤ, h.result.resetAt = t ∧
    IsLeast {t : ℤ | h.script.now ≤ t ∧ (counted W t (timesOf earlier)).length < L} t
  /-- An allowed hit names the instant at which the oldest counted hit leaves the window. -/
  resetAllowed : h.result.allowed = true → ∃ oldest : ℤ,
    IsLeast {a | a ∈ counted W h.script.now (timesOf (earlier ++ [h]))} oldest ∧
      h.result.resetAt = (oldest + W : ℤ)

/-- The hits of the key carry the clock of Redis, and members that are unique. -/
def Timely (key : String) (L W : ℕ) (s : RateState) (a : RateAction) : Prop :=
  Governed key L W a ∧ ∀ c ∈ s.executed a, c.key = rateEntryKey key →
    c.now = s.now ∧ ∀ h ∈ hitsOf key s.hits, h.script.member ≠ c.member

instance (key : String) (L W : ℕ) (s : RateState) (a : RateAction) :
    Decidable (Timely key L W s a) := inferInstanceAs (Decidable (_ ∧ _))

/-! ## Windows -/

section Windows

variable {W L : ℕ} {t : ℤ} {times : List ℤ} {hits : List Hit} {h : Hit}

/-- The window is open at its old end and closed at its new one. -/
theorem mem_counted {a : ℤ} : a ∈ counted W t times ↔ a ∈ times ∧ t - W < a ∧ a ≤ t := by
  simp [counted]

/-- A hit that is let in counts. -/
theorem timesOf_allowed (h : Hit) (ha : h.result.allowed = true) :
    timesOf (hits ++ [h]) = timesOf hits ++ [h.script.now] := by
  simp [timesOf, List.filter_append, ha]

/-- A hit that is refused does not. -/
theorem timesOf_refused (h : Hit) (ha : h.result.allowed = false) :
    timesOf (hits ++ [h]) = timesOf hits := by
  simp [timesOf, List.filter_append, ha]

/-- The window of a timestamp that is just added holds it as well. -/
theorem counted_append (hW : 0 < W) :
    counted W t (times ++ [t]) = counted W t times ++ [t] := by
  have hself : t - W < t := by omega
  simp [counted, List.filter_append, hself]

/-- A later window has only some of the hits of an earlier one. -/
theorem counted_narrow (hpast : ∀ a ∈ times, a ≤ t) {u : ℤ} (hu : t ≤ u) :
    counted W u times = (counted W t times).filter fun a => decide (u - W < a) := by
  rw [counted, counted, List.filter_filter]
  apply List.filter_congr
  intro a ha
  have hat := hpast a ha
  rw [← Bool.decide_and, decide_eq_decide]
  omega

/-- A full window is not full any more exactly from the instant at which its oldest hit
leaves it. -/
theorem isLeast_reset {oldest : ℤ} (hpast : ∀ a ∈ times, a ≤ t)
    (hfull : (counted W t times).length = L) (hmem : oldest ∈ counted W t times)
    (hle : ∀ a ∈ counted W t times, oldest ≤ a) :
    IsLeast {u : ℤ | t ≤ u ∧ (counted W u times).length < L} (oldest + W) := by
  obtain ⟨hold, hwindow, -⟩ := mem_counted.mp hmem
  constructor
  · refine ⟨by omega, ?_⟩
    rw [counted_narrow hpast (by omega), ← hfull]
    refine List.length_filter_lt_length_iff_exists.mpr ⟨oldest, hmem, ?_⟩
    simp
  · intro u hu
    obtain ⟨htu, hlt⟩ := hu
    by_contra hearly
    rw [counted_narrow hpast htu, List.filter_eq_self.mpr, hfull] at hlt
    · exact Nat.lt_irrefl L hlt
    · intro a ha
      have hoa := hle a ha
      apply decide_eq_true
      omega

end Windows

/-! ## The set and the history -/

/-- Whether a hit at the instant `t` is allowed when no other intervenes. -/
def admits (s : RateState) (key : String) (L W t : ℕ) (member : String) : Bool :=
  match (rateLimit t s.store ⟨rateEntryKey key, t, W, L, member⟩).2 with
  | .ok reply => decide (reply.allowed = 1)
  | .error _ => false

/-- The set of a key and the hits of the key, when every hit carries the clock of Redis. -/
structure Tracks (key : String) (L W : ℕ) (s : RateState) : Prop where
  calls : ∀ code ∈ s.calls, code.Everywhere (Sends key L W)
  past : ∀ h ∈ hitsOf key s.hits, 0 ≤ h.script.now ∧ h.script.now ≤ s.now
  inOrder : (hitsOf key s.hits).Pairwise fun g h => g.script.now ≤ h.script.now
  entries : ∀ e, s.store (rateEntryKey key) = some e → ∀ x ∈ e.value.entries,
    ∃ h ∈ hitsOf key s.hits, h.script.member = x.member ∧ h.script.now = x.score
  card : ∀ e, s.store (rateEntryKey key) = some e → e.value.card ≤ L
  /-- The key outlives its entries. -/
  expiry : ∀ e, s.store (rateEntryKey key) = some e → ∃ last : ℕ, e.expireAt = some last ∧
    ∀ x ∈ e.value.entries, x.score + W ≤ last
  /-- The part of the set that is inside a window is the window. -/
  window : ∀ t : ℕ, s.now ≤ t →
    ((zset t s.store (rateEntryKey key)).scores.filter fun a => decide ((t : ℤ) - W < a)).Perm
      (counted W t (timesOf (hitsOf key s.hits)))
  specified : ∀ earlier h, earlier ++ [h] <+: hitsOf key s.hits → Specified L W earlier h

section Tracks

variable {key : String} {s s' : RateState} {a : RateAction} {c : RateScript}

/-- Every member of the set is a hit. -/
theorem Tracks.zset_entries (hs : Tracks key L W s) {t : ℕ} {x : SortedSet.Scored String}
    (hx : x ∈ (zset t s.store (rateEntryKey key)).entries) :
    ∃ h ∈ hitsOf key s.hits, h.script.member = x.member ∧ h.script.now = x.score := by
  match hentry : s.store.entry t (rateEntryKey key) with
  | none =>
    rw [zset_of_none hentry] at hx
    exact absurd hx List.not_mem_nil
  | some e =>
    rw [zset_of_entry hentry] at hx
    exact hs.entries e (KeyValue.entry_eq_some.mp hentry).1 x hx

/-- The set has no more members than the limit. -/
theorem Tracks.zset_card (hs : Tracks key L W s) (t : ℕ) :
    (zset t s.store (rateEntryKey key)).card ≤ L := by
  match hentry : s.store.entry t (rateEntryKey key) with
  | none =>
    rw [zset_of_none hentry]
    exact Nat.zero_le L
  | some e =>
    rw [zset_of_entry hentry]
    exact hs.card e (KeyValue.entry_eq_some.mp hentry).1

/-- Its scores are instants of the past. -/
theorem Tracks.zset_scores (hs : Tracks key L W s) {t : ℕ} {a : ℤ}
    (ha : a ∈ (zset t s.store (rateEntryKey key)).scores) : 0 ≤ a ∧ a ≤ s.now := by
  obtain ⟨x, hx, rfl⟩ := List.mem_map.mp ha
  obtain ⟨h, hh, -, hscore⟩ := hs.zset_entries hx
  rw [← hscore]
  exact hs.past h hh

/-- What is left after trimming are hits. -/
theorem Tracks.trimmed_entries (hs : Tracks key L W s) (hkey : c.key = rateEntryKey key) {t : ℕ}
    {x : SortedSet.Scored String} (hx : x ∈ (trimmed t s.store c).entries) :
    ∃ h ∈ hitsOf key s.hits, h.script.member = x.member ∧ h.script.now = x.score := by
  have hin := (SortedSet.mem_remove.mp hx).1
  rw [hkey] at hin
  exact hs.zset_entries hin

/-- The member of a new hit is not among them. -/
theorem Tracks.trimmed_fresh (hs : Tracks key L W s) (hkey : c.key = rateEntryKey key)
    (hfresh : ∀ h ∈ hitsOf key s.hits, h.script.member ≠ c.member) {t : ℕ} :
    ∀ x ∈ (trimmed t s.store c).entries, x.member ≠ c.member := by
  intro x hx
  obtain ⟨h, hh, hmember, -⟩ := hs.trimmed_entries hkey hx
  rw [← hmember]
  exact hfresh h hh

/-- The hits let in are of the past. -/
theorem Tracks.times (hs : Tracks key L W s) {a : ℤ} (ha : a ∈ timesOf (hitsOf key s.hits)) :
    0 ≤ a ∧ a ≤ s.now := by
  obtain ⟨h, hh, rfl⟩ := List.mem_map.mp ha
  exact hs.past h (List.mem_filter.mp hh).1

/-- The trimming at an instant leaves the window of the instant. -/
theorem Tracks.trimmed_scores (hs : Tracks key L W s) {t : ℕ} (ht : s.now ≤ t)
    (hkey : c.key = rateEntryKey key) (hwindow : c.window = W) (hnow : c.now = t) :
    (trimmed t s.store c).scores.Perm (counted W t (timesOf (hitsOf key s.hits))) := by
  have hpos : ∀ a ∈ (zset t s.store c.key).scores, 0 ≤ a := by
    intro a ha
    rw [hkey] at ha
    exact (hs.zset_scores ha).1
  rw [scores_trimmed hwindow hpos, hkey, hnow]
  exact hs.window t ht

/-- Redis lets a hit in when fewer than the limit are in the window. -/
theorem Tracks.admits_iff (hs : Tracks key L W s) (hW : 0 < W) {t : ℕ} (ht : s.now ≤ t)
    (member : String) : s.admits key L W t member = true ↔
      (counted W t (timesOf (hitsOf key s.hits))).length < L := by
  let c : RateScript := ⟨rateEntryKey key, t, W, L, member⟩
  have hcount := (hs.trimmed_scores (c := c) ht rfl rfl rfl).length_eq
  rw [SortedSet.length_scores] at hcount
  rw [← hcount, admits]
  by_cases hlt : (trimmed t s.store c).card < L
  · rw [(rateLimit_of_lt (c := c) rfl hW (Nat.cast_lt.mpr hlt)).1]
    simp [hlt]
  · rw [(rateLimit_of_ge (c := c) (mt Nat.cast_lt.mp hlt)).1]
    simp [hlt]

/-! ## One script -/

section Script

variable (hs : Tracks key L W s) (hkey : c.key = rateEntryKey key) (hwindow : c.window = W)
  (hnow : c.now = s.now)

include hs hkey hwindow hnow

/-- The set that is left has the hits of the window. -/
theorem Tracks.trimmed_card : (trimmed s.now s.store c).card =
    (counted W c.now (timesOf (hitsOf key s.hits))).length := by
  have hscores := hs.trimmed_scores (Nat.le_refl s.now) hkey hwindow hnow
  rw [← SortedSet.length_scores, hnow]
  exact hscores.length_eq

/-- The set after an allowed hit is the window, with the hit. -/
theorem Tracks.added_scores (hW : 0 < W)
    (hfresh : ∀ h ∈ hitsOf key s.hits, h.script.member ≠ c.member) :
    ((trimmed s.now s.store c).add c.now c.member).scores.Perm
      (counted W c.now (timesOf (hitsOf key s.hits) ++ [c.now])) := by
  have hscores := hs.trimmed_scores (Nat.le_refl s.now) hkey hwindow hnow
  rw [← hnow] at hscores
  rw [counted_append hW]
  refine (SortedSet.scores_add (hs.trimmed_fresh hkey hfresh)).trans ?_
  exact (hscores.cons _).trans (List.perm_append_singleton _ _).symm

/-- An allowed hit is as specified. -/
theorem Tracks.specified_of_allows (hW : 0 < W) (hfresh : ∀ h ∈ hitsOf key s.hits,
    h.script.member ≠ c.member) (ha : Allows s s' key L W c) {h : Hit}
    (hh : hitsOf key s'.hits = hitsOf key s.hits ++ [h]) :
    Specified L W (hitsOf key s.hits) h := by
  have hcount := hs.trimmed_card hkey hwindow hnow
  have hadd := hs.added_scores hkey hwindow hnow hW hfresh
  obtain rfl := List.singleton_inj.mp (List.append_cancel_left (ha.hits.symm.trans hh))
  have htimes := @timesOf_allowed (hitsOf key s.hits) ⟨c, true,
    (L : ℤ) - ((trimmed s.now s.store c).card + 1),
    (((trimmed s.now s.store c).add c.now c.member).first.getD c.now + W : ℤ)⟩ rfl
  have hbelow := ha.below
  constructor
  · show true = true ↔ _
    rw [← hcount]
    simp [hbelow]
  · rw [htimes]
    show (L : ℤ) - _ = _
    rw [counted_append hW, List.length_append, ← hcount]
    rfl
  · intro hfalse
    exact absurd hfalse Bool.noConfusion
  · intro _
    have hself : c.now ∈ ((trimmed s.now s.store c).add c.now c.member).scores := by
      rw [hadd.mem_iff, counted_append hW]
      exact List.mem_append_right _ List.mem_cons_self
    have hleast := SortedSet.isLeast_getD hself c.now
    refine ⟨((trimmed s.now s.store c).add c.now c.member).first.getD c.now, ?_, by push_cast; rfl⟩
    rw [htimes]
    simpa only [hadd.mem_iff] using hleast

/-- A refused hit is as specified. -/
theorem Tracks.specified_of_refuses (hL : 1 ≤ L) (hr : Refuses s s' key L W c) {h : Hit}
    (hh : hitsOf key s'.hits = hitsOf key s.hits ++ [h]) :
    Specified L W (hitsOf key s.hits) h := by
  have hscores := hs.trimmed_scores (Nat.le_refl s.now) hkey hwindow hnow
  rw [← hnow] at hscores
  have hcount := hs.trimmed_card hkey hwindow hnow
  -- the set never holds more than the limit
  have hcard : (trimmed s.now s.store c).card = L := by
    apply Nat.le_antisymm _ hr.full
    refine le_trans (List.length_filter_le _ _) ?_
    rw [hkey]
    exact hs.zset_card s.now
  obtain rfl := List.singleton_inj.mp (List.append_cancel_left (hr.hits.symm.trans hh))
  have htimes := @timesOf_refused (hitsOf key s.hits) ⟨c, false, 0,
    ((trimmed s.now s.store c).first.getD c.now + W : ℤ)⟩ rfl
  constructor
  · show false = true ↔ _
    rw [← hcount, hcard]
    simp
  · rw [htimes]
    show (0 : ℤ) = _
    rw [← hcount, hcard]
    omega
  · intro _
    obtain ⟨a, ha⟩ := List.exists_mem_of_length_pos (l := (trimmed s.now s.store c).scores)
      (by rw [SortedSet.length_scores]; omega)
    have hleast := SortedSet.isLeast_getD ha c.now
    simp only [hscores.mem_iff] at hleast
    refine ⟨(trimmed s.now s.store c).first.getD c.now + W, by push_cast; rfl, ?_⟩
    apply isLeast_reset
    · intro a ha
      show a ≤ c.now
      rw [hnow]
      exact (hs.times ha).2
    · exact hcount.symm.trans hcard
    · exact hleast.1
    · intro a ha
      exact hleast.2 ha
  · intro htrue
    exact absurd htrue Bool.noConfusion

/-- The set that an allowed hit leaves is the window for as long as its key lives, and the
window is empty from then on. -/
theorem Tracks.window_of_allows (hW : 0 < W)
    (hfresh : ∀ h ∈ hitsOf key s.hits, h.script.member ≠ c.member) (ha : Allows s s' key L W c)
    (t : ℕ) (ht : s.now ≤ t) :
    ((zset t s'.store (rateEntryKey key)).scores.filter fun a => decide ((t : ℤ) - W < a)).Perm
      (counted W t (timesOf (hitsOf key s.hits) ++ [c.now])) := by
  have hall : ∀ a ∈ timesOf (hitsOf key s.hits) ++ [c.now], a ≤ c.now := by
    intro a ha
    rw [List.mem_append, List.mem_singleton] at ha
    rcases ha with ha | rfl
    · rw [hnow]
      exact (hs.times ha).2
    · exact le_refl c.now
  by_cases hlive : t ≤ s.now + W
  · have hzset : zset t s'.store (rateEntryKey key) =
        (trimmed s.now s.store c).add c.now c.member :=
      zset_of_entry (KeyValue.entry_eq_some.mpr ⟨ha.store, KeyValue.live_some.mpr hlive⟩)
    rw [hzset, counted_narrow hall (by omega)]
    exact (hs.added_scores hkey hwindow hnow hW hfresh).filter _
  · -- the key has lapsed, and so has the window that it was kept for
    have hzset : zset t s'.store (rateEntryKey key) = .empty := by
      apply zset_of_none
      rw [KeyValue.entry, ha.store]
      simp [KeyValue.Entry.live, hlive]
    have hnone : counted W t (timesOf (hitsOf key s.hits) ++ [c.now]) = [] := by
      rw [counted, List.filter_eq_nil_iff]
      intro a ha
      have hle := hall a ha
      simp only [decide_eq_true_eq]
      omega
    rw [hzset, hnone]
    exact List.Perm.nil

end Script

/-! ## Runs -/

/-- One more hit, at the instant of the clock. -/
theorem Tracks.later (hs : Tracks key L W s) {h : Hit} (hnow : h.script.now = s.now)
    (hclock : s'.now = s.now) (hhits : hitsOf key s'.hits = hitsOf key s.hits ++ [h]) :
    (∀ h ∈ hitsOf key s'.hits, 0 ≤ h.script.now ∧ h.script.now ≤ s'.now) ∧
      (hitsOf key s'.hits).Pairwise fun g h => g.script.now ≤ h.script.now := by
  rw [hhits, hclock]
  constructor
  · intro g hg
    rw [List.mem_append, List.mem_singleton] at hg
    rcases hg with hg | rfl
    · exact hs.past g hg
    · omega
  · refine List.pairwise_append.mpr ⟨hs.inOrder, List.pairwise_singleton _ _, fun g hg h' hh' => ?_⟩
    rw [List.mem_singleton.mp hh', hnow]
    exact (hs.past g hg).2

/-- Every hit so far is as specified when the last one is. -/
theorem Tracks.specified_later (hs : Tracks key L W s) {h : Hit}
    (hhits : hitsOf key s'.hits = hitsOf key s.hits ++ [h])
    (hspec : Specified L W (hitsOf key s.hits) h) {earlier : List Hit} {g : Hit}
    (hg : earlier ++ [g] <+: hitsOf key s'.hits) : Specified L W earlier g := by
  rw [hhits, List.prefix_concat_iff] at hg
  rcases hg with heq | hg
  · obtain ⟨hearlier, hlast⟩ := List.append_inj' heq rfl
    rw [hearlier, List.singleton_inj.mp hlast]
    exact hspec
  · exact hs.specified earlier g hg

/-- An allowed hit keeps the set and the history in step. -/
theorem Tracks.allows (hs : Tracks key L W s) (hW : 0 < W)
    (hcalls : ∀ code ∈ s'.calls, code.Everywhere (Sends key L W))
    (hkey : c.key = rateEntryKey key) (hwindow : c.window = W) (hnow : c.now = s.now)
    (hfresh : ∀ h ∈ hitsOf key s.hits, h.script.member ≠ c.member) (hclock : s'.now = s.now)
    (ha : Allows s s' key L W c) : Tracks key L W s' := by
  let h : Hit := ⟨c, true, (L : ℤ) - ((trimmed s.now s.store c).card + 1),
    (((trimmed s.now s.store c).add c.now c.member).first.getD c.now + W : ℤ)⟩
  have hhits : hitsOf key s'.hits = hitsOf key s.hits ++ [h] := ha.hits
  have hnew := hs.trimmed_fresh hkey hfresh (t := s.now)
  obtain ⟨hpast, hinOrder⟩ := hs.later (h := h) hnow hclock hhits
  -- what the set holds are hits of the history
  have hentries : ∀ x ∈ ((trimmed s.now s.store c).add c.now c.member).entries,
      ∃ h ∈ hitsOf key s'.hits, h.script.member = x.member ∧ h.script.now = x.score := by
    intro x hx
    rw [hhits]
    rcases (SortedSet.mem_add hnew).mp hx with rfl | hx
    · exact ⟨h, List.mem_append_right _ List.mem_cons_self, rfl, rfl⟩
    · obtain ⟨g, hg, hgx⟩ := hs.trimmed_entries hkey hx
      exact ⟨g, List.mem_append_left _ hg, hgx⟩
  constructor
  · exact hcalls
  · exact hpast
  · exact hinOrder
  · intro e he
    rw [ha.store] at he
    cases he
    exact hentries
  · intro e he
    rw [ha.store] at he
    cases he
    rw [SortedSet.card_add hnew]
    exact ha.below
  · intro e he
    rw [ha.store] at he
    cases he
    refine ⟨s.now + W, rfl, fun x hx => ?_⟩
    obtain ⟨g, hg, -, hscore⟩ := hentries x hx
    have hle := (hpast g hg).2
    omega
  · intro t ht
    rw [hhits, timesOf_allowed h rfl]
    exact hs.window_of_allows hkey hwindow hnow hW hfresh ha t (hclock ▸ ht)
  · intro earlier g hg
    exact hs.specified_later hhits
      (hs.specified_of_allows hkey hwindow hnow hW hfresh ha hhits) hg

/-- A refused hit does not change the window. -/
theorem Tracks.refuses (hs : Tracks key L W s) (hL : 1 ≤ L)
    (hcalls : ∀ code ∈ s'.calls, code.Everywhere (Sends key L W))
    (hkey : c.key = rateEntryKey key) (hwindow : c.window = W) (hnow : c.now = s.now)
    (hclock : s'.now = s.now) (hr : Refuses s s' key L W c) : Tracks key L W s' := by
  let h : Hit := ⟨c, false, 0, ((trimmed s.now s.store c).first.getD c.now + W : ℤ)⟩
  have hhits : hitsOf key s'.hits = hitsOf key s.hits ++ [h] := hr.hits
  have htimes : timesOf (hitsOf key s'.hits) = timesOf (hitsOf key s.hits) := by
    rw [hhits]
    exact timesOf_refused h rfl
  obtain ⟨hpast, hinOrder⟩ := hs.later (h := h) hnow hclock hhits
  obtain ⟨e, hentry, hstore⟩ := hr.store
  have hold := (KeyValue.entry_eq_some.mp hentry).1
  have hsub : ∀ x ∈ (trimmed s.now s.store c).entries, x ∈ e.value.entries := by
    intro x hx
    have hx := (SortedSet.mem_remove.mp hx).1
    rwa [hkey, zset_of_entry hentry] at hx
  constructor
  · exact hcalls
  · exact hpast
  · exact hinOrder
  · intro e' he x hx
    rw [hstore] at he
    cases he
    obtain ⟨g, hg, hgx⟩ := hs.entries e hold x (hsub x hx)
    rw [hhits]
    exact ⟨g, List.mem_append_left _ hg, hgx⟩
  · intro e' he
    rw [hstore] at he
    cases he
    refine le_trans (List.length_filter_le _ _) ?_
    rw [hkey]
    exact hs.zset_card s.now
  · intro e' he
    rw [hstore] at he
    cases he
    obtain ⟨last, hlast, hle⟩ := hs.expiry e hold
    exact ⟨last, hlast, fun x hx => hle x (hsub x hx)⟩
  · intro t ht
    rw [htimes]
    refine List.Perm.trans (List.Perm.of_eq ?_) (hs.window t (by omega))
    -- what the trimming takes away is outside the window of `t` as well
    by_cases hlive : e.live t = true
    · have hzset : zset t s'.store (rateEntryKey key) = trimmed s.now s.store c :=
        zset_of_entry (KeyValue.entry_eq_some.mpr ⟨hstore, hlive⟩)
      have hzset' : zset t s.store (rateEntryKey key) = zset s.now s.store (rateEntryKey key) := by
        rw [zset_of_entry hentry]
        exact zset_of_entry (KeyValue.entry_eq_some.mpr ⟨hold, hlive⟩)
      have hpos : ∀ a ∈ (zset s.now s.store c.key).scores, 0 ≤ a := by
        intro a ha
        rw [hkey] at ha
        exact (hs.zset_scores ha).1
      rw [hzset, hzset', scores_trimmed hwindow hpos, hkey, List.filter_filter]
      apply List.filter_congr
      intro a _
      rw [← Bool.decide_and, decide_eq_decide]
      omega
    · have hzset : ∀ {st : RateStore} {z : SortedSet String},
          st (rateEntryKey key) = some ⟨z, e.expireAt⟩ →
          zset t st (rateEntryKey key) = .empty := by
        intro st z hst
        apply zset_of_none
        rw [KeyValue.entry, hst]
        have hdead : KeyValue.Entry.live t ⟨z, e.expireAt⟩ = false :=
          eq_false_of_ne_true hlive
        simp [hdead]
      rw [hzset hstore, hzset hold]
  · intro earlier g hg
    exact hs.specified_later hhits (hs.specified_of_refuses hkey hwindow hnow hL hr hhits) hg

/-- Every timely step keeps the set in step with the hits. -/
theorem Tracks.step (hs : Tracks key L W s) (hL : 1 ≤ L) (hW : 0 < W)
    (ha : Timely key L W s a) (h : s.step a = some s') : Tracks key L W s' := by
  obtain ⟨hcalls, hle, hquiet | ⟨c, hexec, hkey, hwindow, hclock, hscript⟩⟩ :=
    key_cases hL hW hs.calls ha.1 h
  · obtain ⟨hstore, hhits⟩ := hquiet
    have hzset : ∀ t, zset t s'.store (rateEntryKey key) = zset t s.store (rateEntryKey key) :=
      fun t => congrArg (fun o => (o.map KeyValue.Entry.value).getD .empty)
        (KeyValue.entry_congr hstore)
    constructor
    · exact hcalls
    · intro g hg
      rw [hhits] at hg
      have hg := hs.past g hg
      omega
    · rw [hhits]
      exact hs.inOrder
    · rw [hstore, hhits]
      exact hs.entries
    · rw [hstore]
      exact hs.card
    · rw [hstore]
      exact hs.expiry
    · intro t ht
      rw [hzset, hhits]
      exact hs.window t (by omega)
    · rw [hhits]
      exact hs.specified
  · obtain ⟨hnow, hfresh⟩ := ha.2 c hexec hkey
    rcases hscript with hallows | hrefuses
    · exact hs.allows hW hcalls hkey hwindow hnow hfresh hclock hallows
    · exact hs.refuses hL hcalls hkey hwindow hnow hclock hrefuses

/-- At first there is neither. -/
theorem Tracks.initial (h : s.Initial) : Tracks key L W s := by
  have hstore := h.store key
  constructor
  · rw [h.calls]
    nofun
  · rw [h.hits]
    nofun
  · rw [h.hits]
    exact List.Pairwise.nil
  · rw [hstore]
    nofun
  · rw [hstore]
    nofun
  · rw [hstore]
    nofun
  · intro t ht
    have hempty : zset t s.store (rateEntryKey key) = .empty := by
      apply zset_of_none
      rw [KeyValue.entry, hstore]
      rfl
    rw [hempty, h.hits]
    exact List.Perm.nil
  · rw [h.hits]
    intro earlier g hg
    exact absurd (List.prefix_nil.mp hg) (by simp)

end Tracks

/-! ## The limiter implements its specification -/

/-- The hits of a key so far are as specified, and so is the next one. -/
structure Exact (key : String) (L W : ℕ) (s : RateState) : Prop where
  specified : ∀ earlier h, earlier ++ [h] <+: hitsOf key s.hits → Specified L W earlier h
  next : ∀ t : ℕ, s.now ≤ t → ∀ member, s.admits key L W t member = true ↔
    (counted W t (timesOf (hitsOf key s.hits))).length < L
  /-- As long as no other hit intervenes, hits are allowed from `resetAt` on. -/
  reset : ∀ earlier h, hitsOf key s.hits = earlier ++ [h] → h.result.allowed = false →
    ∀ t : ℕ, s.now ≤ t → ∀ member,
      s.admits key L W t member = true ↔ h.result.resetAt ≤ ((t : ℤ) : ℚ)
  /-- When the key expires, all entries are outside the window. -/
  kept : ∀ e, s.store (rateEntryKey key) = some e → ∀ t : ℕ, e.live t = false →
    ∀ x ∈ e.value.entries, x.score ≤ (t : ℤ) - W

/-- The limiter implements its specification on every key whose hits are timely. -/
theorem exact_of_reaches {key : String} (hL : 1 ≤ L) (hW : 0 < W) {s₀ s : RateState}
    (h₀ : s₀.Initial) (h : Transition.Reaches step (Timely key L W) s₀ s) : Exact key L W s := by
  have hs : Tracks key L W s := h.invariant (Tracks.initial h₀)
    fun u a v hu ha hv => hu.step hL hW ha hv
  constructor
  · exact hs.specified
  · intro t ht member
    exact hs.admits_iff hW ht member
  · intro earlier g hg hrefused t ht member
    have hspec := hs.specified earlier g ⟨[], by rw [hg, List.append_nil]⟩
    obtain ⟨reset, hreset, hmem, hleast⟩ := hspec.resetRefused hrefused
    have htimes : timesOf (hitsOf key s.hits) = timesOf earlier := by
      rw [hg]
      exact timesOf_refused g hrefused
    have hinOrder := hs.inOrder
    rw [hg] at hinOrder
    have hpast : ∀ a ∈ timesOf earlier, a ≤ g.script.now := by
      intro a ha
      obtain ⟨h, hh, rfl⟩ := List.mem_map.mp ha
      exact (List.pairwise_append.mp hinOrder).2.2 h (List.mem_filter.mp hh).1 g List.mem_cons_self
    have hlast := (hs.past g (by rw [hg]; exact List.mem_append_right _ List.mem_cons_self)).2
    rw [hs.admits_iff hW ht member, htimes, hreset, Int.cast_le]
    refine ⟨fun hlt => hleast ⟨by omega, hlt⟩, fun hle => ?_⟩
    -- the window only gets smaller from the reset on
    rw [counted_narrow (fun a ha => (hpast a ha).trans hmem.1) hle]
    exact lt_of_le_of_lt (List.length_filter_le _ _) hmem.2
  · intro e he t hdead x hx
    obtain ⟨last, hlast, hle⟩ := hs.expiry e he
    have hxlast := hle x hx
    have hlapsed : ¬ t ≤ last := by
      intro hlive
      rw [KeyValue.Entry.live, hlast] at hdead
      simp [hlive] at hdead
    omega

/-- The `n`-th call of `hit`, which is performed at once. -/
def hitNow (key : String) (limit windowSeconds : ℚ) (n : ℕ) : List RateAction :=
  [.hit key limit windowSeconds, .readClock n, .drawUUID n (String.ofList (List.replicate n 'u')),
    .perform n .answered]

/-- The third hit is refused; the fourth one comes when the first has left the window. -/
theorem exact_of_reaches_refused : ∃ s, s.hits.map (·.result) =
    [⟨true, 1, 1000⟩, ⟨true, 0, 1000⟩, ⟨false, 0, 1000⟩, ⟨true, 0, 1900⟩] ∧ Exact "k" 2 1000 s := by
  let s₀ : RateState := ⟨0, fun _ => none, [], []⟩
  let actions := hitNow "k" 2 1 0 ++ .tick 900 :: hitNow "k" 2 1 1 ++ .tick 99 ::
    hitNow "k" 2 1 2 ++ .tick 1 :: hitNow "k" 2 1 3
  let results : List RateLimitResult :=
    [⟨true, 1, 1000⟩, ⟨true, 0, 1000⟩, ⟨false, 0, 1000⟩, ⟨true, 0, 1900⟩]
  have hrun : (Transition.run step (Timely "k" 2 1000) s₀ actions).map
      (fun s => decide (s.hits.map (·.result) = results)) = some true := by decide +kernel
  obtain ⟨s, hreach, hs⟩ := Transition.exists_reaches_of_run hrun
  exact ⟨s, of_decide_eq_true hs,
    exact_of_reaches (by decide) (by decide) ⟨rfl, rfl, fun _ => rfl⟩ hreach⟩

end RateState

end NestFastify.Redis
