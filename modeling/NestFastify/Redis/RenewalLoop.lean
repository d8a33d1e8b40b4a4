import NestFastify.Redis.Watchdog

/-!
# The renewal loop

`startWatchdog` (lock.service.ts) one turn of the event loop at a time: its timer fires, an extend
settles, the callback after it runs, and any number of calls of `stop` and `release` come in
between. `Watchdog` takes the two turns after an extend in one.
-/

namespace NestFastify.Redis

/-- A handle that `setTimeout` has returned, and the instant it fires. -/
structure Timeout where
  id : ℕ
  due : ℚ
deriving DecidableEq

/-- A call of `run`: its extend is in flight; it has settled and what comes after it is still to
run; all is done. -/
inductive Renewal where
  | extending
  | settled (result : Except JsError Bool)
  | done (result : Except JsError Bool)
deriving DecidableEq

namespace Renewal

/-- `inflight` has not been resolved yet. -/
def active : Renewal → Bool
  | done _ => false
  | _ => true

/-- Its extend has returned `false`. -/
def lost : Renewal → Bool
  | settled (.ok false) => true
  | done (.ok false) => true
  | _ => false

end Renewal

/-- How far a call of `stop` has got; that of a `release` goes on to releaseLock. -/
inductive Stopping where
  | waiting (renewal : ℕ)
  | resolved
  | released
deriving DecidableEq

structure Stop where
  releases : Bool
  phase : Stopping
deriving DecidableEq

/-- The variables of `startWatchdog` and the signal; the timers that are still to fire, the calls
of `run` and the calls of `stop` so far. -/
structure RenewalLoop where
  timer : Option Timeout
  inflight : Option ℕ
  stopped : Bool
  aborted : Bool
  pending : List Timeout
  timeouts : ℕ
  renewals : List Renewal
  stops : List Stop
deriving DecidableEq

inductive RenewalAction where
  | fire (t : Timeout)
  | settle (i : ℕ) (result : Except JsError Bool)
  | finish (i : ℕ) (now : ℚ)
  | stop (releases : Bool)
  | resume (j : ℕ)
  | releaseLock (j : ℕ)

namespace RenewalLoop

section System

variable (period : ℚ) (s : RenewalLoop)

/-- `schedule`. -/
def schedule (now : ℚ) : RenewalLoop :=
  if s.stopped then s
  else
    let t : Timeout := ⟨s.timeouts, now + period⟩
    { s with timer := some t, pending := s.pending ++ [t], timeouts := s.timeouts + 1 }

/-- `startWatchdog`. -/
def start (now : ℚ) : RenewalLoop := schedule period ⟨none, none, false, false, [], 0, [], []⟩ now

/-- `run`, up to the call of `extend`. -/
def run (t : Timeout) : RenewalLoop :=
  { s with
    pending := s.pending.erase t
    inflight := some s.renewals.length
    renewals := s.renewals ++ [.extending] }

/-- The extend has settled: `false` stops the loop and aborts the signal. -/
def settle (i : ℕ) (result : Except JsError Bool) : RenewalLoop :=
  let s := { s with renewals := s.renewals.set i (.settled result) }
  match result with
  | .ok false => { s with stopped := true, aborted := true }
  | _ => s

/-- The callback of `then`. -/
def finish (i : ℕ) (result : Except JsError Bool) (now : ℚ) : RenewalLoop :=
  schedule period { s with inflight := none, renewals := s.renewals.set i (.done result) } now

/-- `stop`, up to its wait for the extend in flight. -/
def stop (releases : Bool) : RenewalLoop :=
  { s with
    stopped := true
    pending := match s.timer with
      | some t => s.pending.erase t
      | none => s.pending
    stops := s.stops ++ [⟨releases, match s.inflight with
      | some i => .waiting i
      | none => .resolved⟩] }

def step (s : RenewalLoop) : RenewalAction → Option RenewalLoop
  | .fire t => if t ∈ s.pending then some (s.run t) else none
  | .settle i result =>
    if s.renewals[i]? = some .extending then some (s.settle i result) else none
  | .finish i now =>
    match s.renewals[i]? with
    | some (.settled result) => some (s.finish period i result now)
    | _ => none
  | .stop releases => some (s.stop releases)
  | .resume j =>
    match s.stops[j]? with
    | some ⟨releases, .waiting i⟩ =>
      match s.renewals[i]? with
      | some (.done _) => some { s with stops := s.stops.set j ⟨releases, .resolved⟩ }
      | _ => none
    | _ => none
  | .releaseLock j =>
    match s.stops[j]? with
    | some ⟨true, .resolved⟩ => some { s with stops := s.stops.set j ⟨true, .released⟩ }
    | _ => none

/-- `t` is reached from `s`, whatever settles, fires and is called in whatever order. -/
abbrev Reaches : RenewalLoop → RenewalLoop → Prop :=
  Transition.Reaches (step period) fun _ _ => True

/-! ### What the lock relies on -/

structure Sound : Prop where
  /-- At most one extend is in flight. -/
  single : ∀ {i j : ℕ}, s.renewals[i]? = some .extending → s.renewals[j]? = some .extending → i = j
  /-- Once a `stop` has resolved nothing is in flight, pending, or ever started again. -/
  stopped : ∀ c ∈ s.stops, (∀ i, c.phase ≠ .waiting i) →
    .extending ∉ s.renewals ∧ s.pending = [] ∧
      ∀ t, Reaches period s t → t.renewals.length = s.renewals.length
  /-- releaseLock is issued after the last extend has settled. -/
  released : ∀ j s', step period s (.releaseLock j) = some s' →
    .extending ∉ s.renewals ∧ ∀ t, Reaches period s' t → t.renewals.length = s.renewals.length
  aborted : s.aborted = true ↔ ∃ r ∈ s.renewals, r.lost = true
  /-- After an extend that has returned `false` no other starts. -/
  lost : s.aborted = true → ∀ t, Reaches period s t → t.renewals.length = s.renewals.length
  /-- A rejection changes neither; while no extend has returned `false` and nobody has called
  `stop`, the loop goes on. -/
  rejected : ∀ i e s', step period s (.settle i (.error e)) = some s' →
    s'.aborted = s.aborted ∧ s'.stopped = s.stopped
  goesOn : s.stops = [] → (∀ r ∈ s.renewals, r.lost = false) →
    (∃ t, s.pending = [t]) ∨ ∃ r ∈ s.renewals, r.active = true

end System

/-! ## The invariant -/

section Invariant

variable {period : ℚ} {s s' : RenewalLoop} {i j : ℕ} {r : Renewal} {t : Timeout}
  {result : Except JsError Bool} {now : ℚ}

structure Inv (s : RenewalLoop) : Prop where
  active : ∀ {i r}, s.renewals[i]? = some r → r.active = true → s.inflight = some i
  inflight : ∀ {i}, s.inflight = some i → i + 1 = s.renewals.length
  pending : s.pending = [] ∨
    ∃ t, s.pending = [t] ∧ s.timer = some t ∧ s.inflight = none ∧ s.stopped = false
  goesOn : s.stopped = false → s.inflight = none → s.pending ≠ []
  going : ∀ {i}, s.inflight = some i → ∃ r, s.renewals[i]? = some r ∧ r.active = true
  aborted : s.aborted = true ↔ ∃ r ∈ s.renewals, r.lost = true
  lost : s.aborted = true → s.stopped = true
  stopped : s.stopped = true ↔ s.aborted = true ∨ s.stops ≠ []
  waiting : ∀ {c i}, c ∈ s.stops → c.phase = .waiting i → i + 1 = s.renewals.length
  resolved : ∀ {c}, c ∈ s.stops → (∀ i, c.phase ≠ .waiting i) → s.inflight = none

theorem Inv.start : (start period now).Inv where
  active := nofun
  inflight := nofun
  pending := Or.inr ⟨_, rfl, rfl, rfl, rfl⟩
  goesOn := fun _ _ => nofun
  going := nofun
  aborted := by
    constructor
    · nofun
    · rintro ⟨r, hr, -⟩
      cases hr
  lost := nofun
  stopped := by
    constructor
    · nofun
    · rintro (habort | hstops)
      · cases habort
      · exact absurd rfl hstops
  waiting := nofun
  resolved := nofun

/-- A timer fires only when nothing is in flight and nobody has stopped the loop. -/
theorem Inv.of_mem_pending (h : s.Inv) (ht : t ∈ s.pending) :
    s.pending = [t] ∧ s.inflight = none ∧ s.stopped = false := by
  rcases h.pending with hnone | ⟨t', hpending, -, hinflight, hstopped⟩
  · rw [hnone] at ht
    cases ht
  · rw [hpending, List.mem_singleton] at ht
    exact ⟨ht ▸ hpending, hinflight, hstopped⟩

/-- While an extend is in flight no timer is pending. -/
theorem Inv.pending_of_inflight (h : s.Inv) (hi : s.inflight = some i) : s.pending = [] := by
  rcases h.pending with hnone | ⟨t, -, -, hidle, -⟩
  · exact hnone
  · rw [hi] at hidle
    cases hidle

/-- A loop that has not been stopped has had no call of `stop`. -/
theorem Inv.stops_nil (h : s.Inv) (hstopped : s.stopped = false) : s.stops = [] := by
  by_contra hne
  rw [h.stopped.mpr (Or.inr hne)] at hstopped
  cases hstopped

/-! ### Timers -/

/-- A timer that fires adds one call of `run`. -/
theorem getElem?_run (hr : (s.run t).renewals[i]? = some r) :
    s.renewals[i]? = some r ∨ i = s.renewals.length ∧ r = .extending := by
  have hr' : (s.renewals ++ [Renewal.extending])[i]? = some r := hr
  rw [List.getElem?_append] at hr'
  by_cases hi : i < s.renewals.length
  · rw [if_pos hi] at hr'
    exact Or.inl hr'
  · rw [if_neg hi] at hr'
    have hlt := (List.getElem?_eq_some_iff.mp hr').1
    rw [List.length_singleton] at hlt
    have hlast : i = s.renewals.length := by omega
    rw [hlast, Nat.sub_self] at hr'
    cases hr'
    exact Or.inr ⟨hlast, rfl⟩

/-- A timer that fires keeps the invariant. -/
theorem Inv.run (h : s.Inv) (ht : t ∈ s.pending) : (s.run t).Inv := by
  obtain ⟨hpending, hidle, hstopped⟩ := h.of_mem_pending ht
  -- the loop still fires, so nobody has stopped it
  have hstops : (s.run t).stops = [] := h.stops_nil hstopped
  have hlength : (s.run t).renewals.length = s.renewals.length + 1 := by
    rw [RenewalLoop.run, List.length_append, List.length_singleton]
  exact {
    active := by
      intro i r hr hactive
      rcases getElem?_run hr with hold | ⟨hi, -⟩
      · rw [h.active hold hactive] at hidle
        cases hidle
      · exact congrArg some hi.symm
    inflight := by
      intro i hi
      cases hi
      exact hlength.symm
    pending := by
      refine Or.inl ?_
      rw [RenewalLoop.run, hpending, List.erase_cons_head]
    goesOn := by
      intro _ hnone
      cases hnone
    going := by
      intro i hi
      cases hi
      exact ⟨.extending, List.getElem?_concat_length, rfl⟩
    aborted := by
      refine h.aborted.trans ⟨?_, ?_⟩
      · rintro ⟨r, hr, hlost⟩
        exact ⟨r, List.mem_append_left _ hr, hlost⟩
      · rintro ⟨r, hr, hlost⟩
        rcases List.mem_append.mp hr with hr | hr
        · exact ⟨r, hr, hlost⟩
        · rw [List.mem_singleton.mp hr] at hlost
          cases hlost
    lost := h.lost
    stopped := h.stopped
    waiting := by
      intro c i hc
      rw [hstops] at hc
      cases hc
    resolved := by
      intro c hc
      rw [hstops] at hc
      cases hc }

/-! ### Extends that settle -/

/-- Replacing a renewal by one that is lost as much as it was. -/
theorem lost_set {x y : Renewal} {l : List Renewal} (hi : l[i]? = some y)
    (hxy : x.lost = y.lost) :
    (∃ r ∈ l, r.lost = true) ↔ ∃ r ∈ l.set i x, r.lost = true := by
  obtain ⟨hlt, hy⟩ := List.getElem?_eq_some_iff.mp hi
  constructor
  · rintro ⟨r, hr, hlost⟩
    obtain ⟨j, hj⟩ := List.mem_iff_getElem?.mp hr
    by_cases hij : i = j
    · refine ⟨x, List.mem_set hlt x, ?_⟩
      rw [← hij, hi] at hj
      cases hj
      rw [hxy, hlost]
    · exact ⟨r, List.mem_iff_getElem?.mpr ⟨j, by rw [List.getElem?_set_ne hij, hj]⟩, hlost⟩
  · rintro ⟨r, hr, hlost⟩
    rcases List.mem_or_eq_of_mem_set hr with hr | rfl
    · exact ⟨r, hr, hlost⟩
    · exact ⟨y, hy ▸ List.getElem_mem hlt, hxy ▸ hlost⟩

/-- An extend that settles stops the loop when it has lost the lock. -/
theorem settle_eq (s : RenewalLoop) (i : ℕ) (result : Except JsError Bool) :
    s.settle i result = { s with
      renewals := s.renewals.set i (.settled result)
      stopped := (Renewal.settled result).lost || s.stopped
      aborted := (Renewal.settled result).lost || s.aborted } := by
  cases result with
  | error e => rfl
  | ok b => cases b <;> rfl

/-- An extend that settles keeps the invariant. -/
theorem Inv.settle (h : s.Inv) (hi : s.renewals[i]? = some .extending) :
    (s.settle i result).Inv := by
  have hinflight := h.active hi rfl
  have hlt := (List.getElem?_eq_some_iff.mp hi).1
  have hpending := h.pending_of_inflight hinflight
  rw [settle_eq]
  exact {
    active := by
      intro j r hr hactive
      by_cases hij : i = j
      · exact hij ▸ hinflight
      · rw [List.getElem?_set_ne hij] at hr
        exact h.active hr hactive
    inflight := by
      intro j hj
      rw [List.length_set]
      exact h.inflight hj
    pending := Or.inl hpending
    goesOn := by
      intro _ hnone
      rw [hinflight] at hnone
      cases hnone
    going := by
      intro j hj
      rw [hinflight] at hj
      cases hj
      exact ⟨_, List.getElem?_set_self hlt, rfl⟩
    aborted := by
      cases hlost : (Renewal.settled result).lost with
      | true => exact ⟨fun _ => ⟨_, List.mem_set hlt _, hlost⟩, fun _ => rfl⟩
      | false => exact h.aborted.trans (lost_set hi hlost)
    lost := by
      rw [Bool.or_eq_true, Bool.or_eq_true]
      exact Or.imp_right h.lost
    stopped := by
      rw [Bool.or_eq_true, Bool.or_eq_true, or_assoc]
      exact or_congr_right h.stopped
    waiting := by
      intro c j hc hphase
      rw [List.length_set]
      exact h.waiting hc hphase
    resolved := h.resolved }

/-- `schedule` sets a timer, and leaves the rest. -/
@[simp] theorem schedule_inflight : (schedule period s now).inflight = s.inflight := by
  unfold schedule
  split <;> rfl

@[simp] theorem schedule_renewals : (schedule period s now).renewals = s.renewals := by
  unfold schedule
  split <;> rfl

@[simp] theorem schedule_stops : (schedule period s now).stops = s.stops := by
  unfold schedule
  split <;> rfl

@[simp] theorem schedule_aborted : (schedule period s now).aborted = s.aborted := by
  unfold schedule
  split <;> rfl

@[simp] theorem schedule_stopped : (schedule period s now).stopped = s.stopped := by
  unfold schedule
  split <;> rfl

/-- `schedule` sets a timer unless the loop is stopped. -/
theorem schedule_pending (period now : ℚ) (hpending : s.pending = []) :
    s.stopped = true ∧ (schedule period s now).pending = [] ∨
      s.stopped = false ∧ ∃ t, (schedule period s now).pending = [t] ∧
        (schedule period s now).timer = some t := by
  unfold schedule
  by_cases hstopped : s.stopped = true
  · rw [if_pos hstopped]
    exact Or.inl ⟨hstopped, hpending⟩
  · rw [if_neg hstopped]
    exact Or.inr ⟨by simpa using hstopped, _, congrArg (· ++ [_]) hpending, rfl⟩

/-- Once the callback after the only active renewal has run none is active. -/
theorem Inv.not_active (h : s.Inv) (hi : s.renewals[i]? = some (.settled result))
    (hr : (s.renewals.set i (.done result))[j]? = some r) : r.active = false := by
  by_cases hij : i = j
  · rw [← hij, List.getElem?_set_self (List.getElem?_eq_some_iff.mp hi).1] at hr
    cases hr
    rfl
  · rw [List.getElem?_set_ne hij] at hr
    by_contra hactive
    rw [Bool.not_eq_false] at hactive
    have hj := (h.active hi rfl).symm.trans (h.active hr hactive)
    exact hij (Option.some.inj hj)

/-- The callback of `then` keeps the invariant. -/
theorem Inv.finish (h : s.Inv) (hi : s.renewals[i]? = some (.settled result)) :
    (s.finish period i result now).Inv := by
  -- the renewal was the only active one, and `schedule` sees that nothing is in flight
  have hinflight := h.active hi rfl
  have hlost : (Renewal.done result).lost = (Renewal.settled result).lost := by
    cases result with
    | error e => rfl
    | ok b => cases b <;> rfl
  have hscheduled := schedule_pending period now
    (s := { s with inflight := none, renewals := s.renewals.set i (.done result) })
    (h.pending_of_inflight hinflight)
  unfold RenewalLoop.finish
  exact {
    active := by
      intro j r hr hactive
      rw [schedule_renewals] at hr
      rw [h.not_active hi hr] at hactive
      cases hactive
    inflight := by
      intro j hj
      rw [schedule_inflight] at hj
      cases hj
    pending := by
      rcases hscheduled with ⟨-, hnone⟩ | ⟨hstopped, t, hpending, htimer⟩
      · exact Or.inl hnone
      · exact Or.inr ⟨t, hpending, htimer, schedule_inflight, schedule_stopped.trans hstopped⟩
    goesOn := by
      intro hstopped _
      rw [schedule_stopped] at hstopped
      rcases hscheduled with ⟨hstopped', -⟩ | ⟨-, t, hpending, -⟩
      · rw [hstopped] at hstopped'
        cases hstopped'
      · rw [hpending]
        exact List.cons_ne_nil t []
    going := by
      intro j hj
      rw [schedule_inflight] at hj
      cases hj
    aborted := by
      rw [schedule_aborted, schedule_renewals]
      exact h.aborted.trans (lost_set hi hlost)
    lost := by
      rw [schedule_aborted, schedule_stopped]
      exact h.lost
    stopped := by
      rw [schedule_stopped, schedule_aborted, schedule_stops]
      exact h.stopped
    waiting := by
      intro c j hc hphase
      rw [schedule_stops] at hc
      rw [schedule_renewals, List.length_set]
      exact h.waiting hc hphase
    resolved := fun _ _ => schedule_inflight }

/-! ### Calls of stop and release -/

/-- No timer is left after `stop`. -/
theorem Inv.pending_stop (h : s.Inv) {releases : Bool} : (s.stop releases).pending = [] := by
  rw [RenewalLoop.stop]
  rcases h.pending with hnone | ⟨t, hpending, htimer, -, -⟩
  · rw [hnone]
    cases s.timer <;> rfl
  · simp only [htimer, hpending, List.erase_cons_head]

/-- A `stop` keeps the invariant. -/
theorem Inv.stop (h : s.Inv) (releases : Bool) : (s.stop releases).Inv :=
  { h with
    pending := Or.inl h.pending_stop
    goesOn := by
      intro hstopped
      cases hstopped
    lost := fun _ => rfl
    stopped := by
      refine ⟨fun _ => Or.inr ?_, fun _ => rfl⟩
      exact List.append_ne_nil_of_right_ne_nil _ (List.cons_ne_nil _ _)
    waiting := by
      intro c i hc hphase
      rcases List.mem_append.mp hc with hc | hc
      · exact h.waiting hc hphase
      · rw [List.mem_singleton.mp hc] at hphase
        cases hinflight : s.inflight with
        | none =>
          simp only [hinflight] at hphase
          cases hphase
        | some k =>
          simp only [hinflight, Stopping.waiting.injEq] at hphase
          exact hphase ▸ h.inflight hinflight
    resolved := by
      intro c hc hphase
      rcases List.mem_append.mp hc with hc | hc
      · exact h.resolved hc hphase
      · rw [List.mem_singleton.mp hc] at hphase
        cases hinflight : s.inflight with
        | none => exact hinflight
        | some k =>
          simp only [hinflight] at hphase
          exact absurd rfl (hphase k) }

/-- A `stop` goes on when nothing is in flight. -/
theorem Inv.setStop {c' : Stop} (h : s.Inv) (hphase : ∀ i, c'.phase ≠ .waiting i)
    (hidle : s.inflight = none) : { s with stops := s.stops.set j c' }.Inv :=
  { h with
    stopped := by
      refine h.stopped.trans (or_congr_right ?_)
      rw [ne_eq, ne_eq, List.set_eq_nil_iff]
    waiting := by
      intro d i hd hwaiting
      rcases List.mem_or_eq_of_mem_set hd with hd | rfl
      · exact h.waiting hd hwaiting
      · exact absurd hwaiting (hphase i)
    resolved := fun _ _ => hidle }

/-- What a `stop` has waited for is the last renewal. -/
theorem Inv.idle_of_done (h : s.Inv) {c : Stop} (hj : s.stops[j]? = some c)
    (hphase : c.phase = .waiting i) (hi : s.renewals[i]? = some (.done result)) :
    s.inflight = none := by
  cases hinflight : s.inflight with
  | none => rfl
  | some k =>
    have hlast := h.waiting (List.mem_iff_getElem?.mpr ⟨j, hj⟩) hphase
    have hk := h.inflight hinflight
    obtain ⟨r, hr, hactive⟩ := h.going hinflight
    have hki : k = i := by omega
    rw [hki, hi] at hr
    cases hr
    cases hactive

/-! ## Runs -/

variable {a : RenewalAction}

/-- What one turn can do. -/
theorem step_cases (h : step period s a = some s') :
    (∃ t, t ∈ s.pending ∧ s' = s.run t) ∨
    (∃ i result, s.renewals[i]? = some .extending ∧ s' = s.settle i result) ∨
    (∃ i result now, s.renewals[i]? = some (.settled result) ∧
      s' = s.finish period i result now) ∨
    (∃ releases, s' = s.stop releases) ∨
    (∃ j releases i result, s.stops[j]? = some ⟨releases, .waiting i⟩ ∧
      s.renewals[i]? = some (.done result) ∧
      s' = { s with stops := s.stops.set j ⟨releases, .resolved⟩ }) ∨
    ∃ j, s.stops[j]? = some ⟨true, .resolved⟩ ∧
      s' = { s with stops := s.stops.set j ⟨true, .released⟩ } := by
  unfold step at h
  split at h
  · rename_i t
    split at h
    · rename_i ht
      exact Or.inl ⟨t, ht, (Option.some.inj h).symm⟩
    · cases h
  · rename_i i result
    split at h
    · rename_i hi
      exact Or.inr (Or.inl ⟨i, result, hi, (Option.some.inj h).symm⟩)
    · cases h
  · rename_i i now
    split at h
    · rename_i result hi
      exact Or.inr (Or.inr (Or.inl ⟨i, result, now, hi, (Option.some.inj h).symm⟩))
    · cases h
  · rename_i releases
    exact Or.inr (Or.inr (Or.inr (Or.inl ⟨releases, (Option.some.inj h).symm⟩)))
  · rename_i j
    split at h
    · rename_i releases i hj
      split at h
      · rename_i result hi
        exact Or.inr (Or.inr (Or.inr (Or.inr (Or.inl
          ⟨j, releases, i, result, hj, hi, (Option.some.inj h).symm⟩))))
      · cases h
    · cases h
  · rename_i j
    split at h
    · rename_i hj
      exact Or.inr (Or.inr (Or.inr (Or.inr (Or.inr ⟨j, hj, (Option.some.inj h).symm⟩))))
    · cases h

/-- Only an extend in flight settles. -/
theorem settle_cases (h : step period s (.settle i result) = some s') :
    s.renewals[i]? = some .extending ∧ s' = s.settle i result := by
  simp only [step] at h
  split at h
  · rename_i hi
    exact ⟨hi, (Option.some.inj h).symm⟩
  · cases h

/-- releaseLock is issued once, by a `release` whose `stop` has resolved. -/
theorem releaseLock_cases (h : step period s (.releaseLock j) = some s') :
    s.stops[j]? = some ⟨true, .resolved⟩ ∧
      s' = { s with stops := s.stops.set j ⟨true, .released⟩ } := by
  simp only [step] at h
  split at h
  · rename_i hj
    exact ⟨hj, (Option.some.inj h).symm⟩
  · cases h

/-- Every step keeps the invariant. -/
theorem Inv.step (h : s.Inv) (hs : step period s a = some s') : s'.Inv := by
  rcases step_cases hs with ⟨t, ht, rfl⟩ | ⟨i, result, hi, rfl⟩ | ⟨i, result, now, hi, rfl⟩ |
    ⟨releases, rfl⟩ | ⟨j, releases, i, result, hj, hi, rfl⟩ | ⟨j, hj, rfl⟩
  · exact h.run ht
  · exact h.settle hi
  · exact h.finish hi
  · exact h.stop releases
  · exact h.setStop nofun (h.idle_of_done hj rfl hi)
  · exact h.setStop nofun (h.resolved (List.mem_iff_getElem?.mpr ⟨j, hj⟩) nofun)

theorem Inv.reaches (h : s.Inv) {t : RenewalLoop} (hreaches : Reaches period s t) : t.Inv :=
  Transition.Reaches.invariant hreaches h fun _ _ _ hu _ hv => hu.step hv

/-- A loop that has been stopped starts no other extend. -/
theorem Inv.length_of_stopped (h : s.Inv) (hstopped : s.stopped = true)
    (hs : RenewalLoop.step period s a = some s') :
    s'.stopped = true ∧ s'.renewals.length = s.renewals.length := by
  rcases step_cases hs with ⟨t, ht, rfl⟩ | ⟨i, result, hi, rfl⟩ | ⟨i, result, now, hi, rfl⟩ |
    ⟨releases, rfl⟩ | ⟨j, releases, i, result, hj, hi, rfl⟩ | ⟨j, hj, rfl⟩
  · rw [(h.of_mem_pending ht).2.2] at hstopped
    cases hstopped
  · rw [settle_eq]
    exact ⟨by rw [hstopped, Bool.or_true], List.length_set⟩
  · rw [RenewalLoop.finish, schedule_stopped, schedule_renewals, List.length_set]
    exact ⟨hstopped, rfl⟩
  · exact ⟨rfl, rfl⟩
  · exact ⟨hstopped, rfl⟩
  · exact ⟨hstopped, rfl⟩

/-- Once stopped, the loop starts no further extend. -/
theorem Inv.never_again (h : s.Inv) (hstopped : s.stopped = true) {t : RenewalLoop}
    (hreaches : Reaches period s t) : t.renewals.length = s.renewals.length := by
  have hkept : t.Inv ∧ t.stopped = true ∧ t.renewals.length = s.renewals.length := by
    induction hreaches with
    | refl => exact ⟨h, hstopped, rfl⟩
    | tail _ hnext ih =>
      obtain ⟨a, -, hv⟩ := hnext
      obtain ⟨hu, hstopped', hsame⟩ := ih
      obtain ⟨hv₁, hv₂⟩ := hu.length_of_stopped hstopped' hv
      exact ⟨hu.step hv, hv₁, hv₂.trans hsame⟩
  exact hkept.2.2

/-- With nothing in flight no extend is. -/
theorem Inv.not_extending (h : s.Inv) (hidle : s.inflight = none) :
    .extending ∉ s.renewals := by
  intro hmem
  obtain ⟨i, hi⟩ := List.mem_iff_getElem?.mp hmem
  rw [h.active hi rfl] at hidle
  cases hidle

/-- A call of `stop` has stopped the loop. -/
theorem Inv.stopped_of_mem (h : s.Inv) {c : Stop} (hc : c ∈ s.stops) : s.stopped = true :=
  h.stopped.mpr (Or.inr (List.ne_nil_of_mem hc))

/-- The invariant gives what the lock relies on. -/
theorem Inv.sound (h : s.Inv) : Sound period s where
  single := by
    intro i j hi hj
    exact Option.some.inj ((h.active hi rfl).symm.trans (h.active hj rfl))
  stopped := by
    intro c hc hphase
    have hstopped := h.stopped_of_mem hc
    refine ⟨h.not_extending (h.resolved hc hphase), ?_, fun t ht => h.never_again hstopped ht⟩
    rcases h.pending with hnone | ⟨t, -, -, -, hrunning⟩
    · exact hnone
    · rw [hstopped] at hrunning
      cases hrunning
  released := by
    intro j s' hs
    have hs' := h.step hs
    obtain ⟨hj, rfl⟩ := releaseLock_cases hs
    have hmem := List.mem_iff_getElem?.mpr ⟨j, hj⟩
    refine ⟨h.not_extending (h.resolved hmem nofun), fun t ht => ?_⟩
    exact hs'.never_again (h.stopped_of_mem hmem) ht
  aborted := h.aborted
  lost := fun haborted t ht => h.never_again (h.lost haborted) ht
  rejected := by
    intro i e s' hs
    obtain ⟨-, rfl⟩ := settle_cases hs
    exact ⟨rfl, rfl⟩
  goesOn := by
    intro hstops hheld
    -- nobody has stopped the loop, and no extend has found the lock lost
    have hrunning : s.stopped = false := by
      by_contra hstopped
      rw [Bool.not_eq_false, h.stopped, h.aborted] at hstopped
      rcases hstopped with ⟨r, hr, hlost⟩ | hstopped
      · rw [hheld r hr] at hlost
        cases hlost
      · exact hstopped hstops
    cases hinflight : s.inflight with
    | some i =>
      obtain ⟨r, hr, hactive⟩ := h.going hinflight
      exact Or.inr ⟨r, List.mem_iff_getElem?.mpr ⟨i, hr⟩, hactive⟩
    | none =>
      rcases h.pending with hnone | ⟨t, hpending, -⟩
      · exact absurd hnone (h.goesOn hrunning hinflight)
      · exact Or.inl ⟨t, hpending⟩

/-- The renewal loop is sound in every state it can get to. -/
theorem renewalLoop_sound {now : ℚ} (h : Reaches period (start period now) s) :
    Sound period s := (Inv.start.reaches h).sound

/-! ## The two turns after an extend in one -/

/-- The variables, without the promises. -/
def view (s : RenewalLoop) : Watchdog where
  timer := s.pending.head?.map Timeout.due
  inflight := s.inflight.isSome
  stopped := s.stopped
  aborted := s.aborted

/-- The loop starts as the watchdog does. -/
theorem view_start : (start period now).view = Watchdog.start period now := rfl

/-- A timer that fires is one of the watchdog. -/
theorem Inv.view_run (h : s.Inv) (ht : t ∈ s.pending) : (s.run t).view = s.view.run := by
  rw [view, RenewalLoop.run, (h.of_mem_pending ht).1, List.erase_cons_head]
  rfl

/-- So is a timer that is set. -/
theorem view_schedule (hpending : s.pending = []) (hidle : s.inflight = none) :
    (schedule period s now).view = Watchdog.schedule period now s.view := by
  unfold schedule Watchdog.schedule
  by_cases hstopped : s.stopped = true
  · rw [if_pos hstopped, if_pos (show s.view.stopped = true from hstopped)]
  · rw [if_neg hstopped, if_neg (show ¬ s.view.stopped = true from hstopped), view, view, hpending,
      hidle]
    rfl

/-- An extend that settles, with the callback right after it. -/
theorem Inv.view_settled (h : s.Inv) (hi : s.renewals[i]? = some .extending) :
    ((s.settle i result).finish period i result now).view =
      s.view.settled period now (!(Renewal.settled result).lost) := by
  have hpending := h.pending_of_inflight (h.active hi rfl)
  rw [RenewalLoop.finish, settle_eq]
  refine (view_schedule ?_ rfl).trans ?_
  · exact hpending
  · rw [Watchdog.settled, view, view, hpending]
    cases (Renewal.settled result).lost <;> rfl

/-- So is a `stop`. -/
theorem Inv.view_stop (h : s.Inv) (releases : Bool) : (s.stop releases).view = s.view.stop := by
  rw [view, h.pending_stop]
  rfl

end Invariant

/-! ## A rejected extend and a release -/

/-- The first extend rejects; `release` is called while the second one is in flight. -/
def releasing : List RenewalAction :=
  [.fire ⟨0, 1000⟩, .settle 0 (.error (.error "Connection is closed.")), .finish 0 1500,
    .fire ⟨1, 2500⟩, .stop true, .settle 1 (.ok true), .finish 1 2600, .resume 0, .releaseLock 0]

/-- The lock is released after the second extend. -/
theorem renewalLoop_sound_releasing : ∃ s, Reaches 1000 (start 1000 0) s ∧ Sound 1000 s ∧
    s.renewals.length = 2 ∧ s.stops = [⟨true, .released⟩] := by
  have hrun : (Transition.run (step 1000) (fun _ _ => True) (start 1000 0) releasing).map (fun s =>
      decide (s.renewals.length = 2 ∧ s.stops = [⟨true, .released⟩])) = some true := by
    decide +kernel
  obtain ⟨s, hreaches, hp⟩ := Transition.exists_reaches_of_run hrun
  exact ⟨s, hreaches, renewalLoop_sound hreaches, of_decide_eq_true hp⟩

end RenewalLoop

end NestFastify.Redis
