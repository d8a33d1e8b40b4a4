import NestFastify.Outbox.RelaySafety

/-!
# What becomes of a batch

All rows of a batch are handled in one transaction. A publish that rejects leaves the transaction
alone: what the drain has reached for every row of the batch is recorded when it commits, and it
commits unless its transaction is aborted. An aborted transaction records nothing. So a row leaves
PENDING after at most `maxAttempts` publishes in drains that commit, and there is no bound on the
publishes in drains that are aborted.
-/

namespace NestFastify.Outbox

open RowStore (see)

/-- The committed rows of `s'` record what drain `d` has reached, compared with those of `s`. -/
structure Records (d : Drain) (s s' : OutboxState) : Prop where
  published : ∀ m ∈ d.published, ∃ r ∈ s'.db.rows, r.messageId = m ∧ r.status = .published
  rejected : ∀ m ∈ d.rejected, ∃ r ∈ s.db.rows, ∃ r' ∈ s'.db.rows, r.messageId = m ∧
    r'.messageId = m ∧ r'.attempts = r.attempts + 1

/-- The messages that the committed drain has tried to publish. -/
def OutboxState.triesCommitted (s : OutboxState) (a : RelayAction) : List String :=
  match s.commits a with
  | some d => d.published ++ d.rejected
  | none => []

section Commit

variable {D : Deployment} {q : ℕ → Prop} {s s' : OutboxState} {t : OutboxTxn} {d : Drain}

/-- At the commit the versions of the drain are as the publishes of the drain have ended. -/
theorem Healthy.records (hs : Inv D q s) (hh : Healthy D q s t d .committing)
    (hrows : s'.db.rows = s.db.rows.map (see OutboxEvent.id t)) : Records d s s' := by
  have hmem : ∀ r ∈ s.db.rows, see OutboxEvent.id t r ∈ s'.db.rows := by
    intro r hr
    rw [hrows]
    exact List.mem_map_of_mem hr
  constructor
  · intro m hm
    obtain ⟨r, hr, -, hmessage, hdone⟩ := hh.published m hm
    refine ⟨_, hmem r hr, (hh.same r hr).messageId.trans hmessage, ?_⟩
    exact hdone.resolve_right nofun
  · intro m hm
    obtain ⟨r, hr, hlocked, hmessage⟩ := hh.rejected m hm
    refine ⟨r, hr, _, hmem r hr, hmessage, (hh.same r hr).messageId.trans hmessage, ?_⟩
    have hnew : (see OutboxEvent.id t r).attempts = (s.recorded ++ d.rejected).count r.messageId :=
      (hh.versions r hr hlocked).attempts
    have hone : d.rejected.count r.messageId = 1 :=
      List.count_eq_one_of_mem hh.rejectedOnce (hmessage ▸ hm)
    rw [hnew, List.count_append, hone, (hs.rows r hr).attempts]

/-- What a row says of the publishes that have been tried for it in committed drains. -/
def settledTries (row : OutboxEvent) : ℕ :=
  row.attempts + if row.status = .published then 1 else 0

/-- The publishes of the drain add at most what the version of the drain says. -/
theorem Healthy.settledTries_le (hs : Inv D q s) (hh : Healthy D q s t d .committing)
    {i : ℕ} (ht : s.db.txn? i = some t) {r : OutboxEvent} (hr : r ∈ s.db.rows) :
    settledTries r + (d.published ++ d.rejected).count r.messageId ≤
      settledTries (see OutboxEvent.id t r) := by
  have hpublished : d.published.count r.messageId ≤ 1 :=
    List.nodup_iff_count_le_one.mp hh.publishedOnce _
  have hdone : r.messageId ∈ d.published →
      (see OutboxEvent.id t r).status = .published ∧ r.id ∈ t.locked := by
    intro hm
    obtain ⟨r', hr', hlocked, hmessage, hdone⟩ := hh.published _ hm
    rw [hs.eq_of_messageId hr' hr hmessage] at hlocked hdone
    exact ⟨hdone.resolve_right nofun, hlocked⟩
  rw [List.count_append]
  unfold settledTries
  by_cases hlocked : r.id ∈ t.locked
  -- a row of the batch was PENDING, and its version counts this drain's publish
  · have hnew : (see OutboxEvent.id t r).attempts = (s.recorded ++ d.rejected).count r.messageId :=
      (hh.versions r hr hlocked).attempts
    rw [List.count_append, ← (hs.rows r hr).attempts] at hnew
    obtain ⟨r', hr', hid, hpending⟩ := hs.pending i t ht _ hlocked
    rw [hs.eq_of_id hr' hr hid] at hpending
    rw [hpending, if_neg nofun]
    by_cases hm : r.messageId ∈ d.published
    · rw [if_pos (hdone hm).1]
      omega
    · rw [List.count_eq_zero.mpr hm]
      omega
  · have hnone : d.published.count r.messageId = 0 :=
      List.count_eq_zero.mpr fun hm => hlocked (hdone hm).2
    rw [hnone, hh.count_rejected hs hr hlocked, RowStore.see_of_not_locked hs.sound ht hlocked]
    omega

end Commit

section Runs

variable {D : Deployment} {q q' : ℕ → Prop} {s s' t : OutboxState} {i : ℕ} {d : Drain}
  {log : List String}

/-! ## A drain that nothing aborts -/

theorem Healthy.weaken {u : OutboxTxn} {p : RelayPoint} (hh : Healthy D q s u d p)
    (hq : (∀ j, q' j) → ∀ j, q j) : Healthy D q' s u d p :=
  ⟨hh.claiming, hh.batch, hh.claimed, hh.unwritten, hh.same, hh.versions, hh.publishedOnce,
    hh.rejectedOnce, hh.rejected, hh.published, hh.handled, fun h => hh.sent (hq h)⟩

/-- From a state in which relay `i` is idle on, what it does can be assumed not to be aborted. -/
theorem Inv.watch (hs : Inv D q s) (hidle : s.drain i = none) : Inv D (fun j => j = i) s := by
  have hfalse : ¬ ∀ j, j = i := fun h => absurd (h (i + 1)) (by omega)
  refine ⟨hs.sound, hs.ids, hs.messageIds, hs.typed, hs.rows, hs.pending, hs.recorded,
    fun j => ?_, fun h => absurd h hfalse, fun h => absurd h hfalse⟩
  match hd : s.drain j with
  | none => exact .idle hd (hs.idle hd)
  | some d =>
    obtain ⟨p, hcode, hI⟩ := hs.drain hd
    have hj : j ≠ i := by
      rintro rfl
      exact nomatch hidle.symm.trans hd
    refine .intro hd hcode ⟨hI.lt, hI.known, hI.beginning, fun u hu => ?_, fun h => absurd h hj,
      fun u hu hfailed hin => (hI.healthy u hu hfailed hin).weaken fun h => absurd h hfalse⟩
    exact (hI.within u hu).imp_right fun h => ⟨hj, h.2⟩

/-- A drain that has not been aborted can commit when it comes to that, and has nothing left to
roll back. -/
theorem Inv.unaborted (hs : Inv D q s) (hq : q i) (hd : s.drain i = some d) :
    (s.awaited i = some .commit → ∀ outcome clock, outcome.abortsAt .commit = false →
      s.commits (.perform i outcome clock) = some d) ∧
    (s.awaited i = some .rollback → s.db.txn? i = none) := by
  obtain ⟨p, hcode, hI⟩ := hs.drain hd
  constructor
  · intro hawaited outcome clock hok
    obtain ⟨k, hview⟩ := point_of_awaited hd hcode hawaited
    obtain rfl := eq_committing hview
    obtain ⟨t, ht, hfailed⟩ := hI.opened hq rfl
    simp only [OutboxState.commits, hawaited, ht, hfailed, hok, hd]
    rfl
  · intro hawaited
    obtain ⟨k, hview⟩ := point_of_awaited hd hcode hawaited
    obtain ⟨e, rfl⟩ := eq_rollingBack hview
    exact hI.closed rfl (Or.inl hq)

/-! ## The publishes of committed drains -/

/-- The log of the committed drains, against what the rows say. -/
structure Logged (s : OutboxState) (log : List String) : Prop where
  known : ∀ m ∈ log, ∃ r ∈ s.db.rows, r.messageId = m
  count : ∀ r ∈ s.db.rows, log.count r.messageId ≤ settledTries r

theorem Logged.step (h : Logged s log) (hs : Inv D q s) {a : RelayAction}
    (hstep : D.step s a = some s') : Logged s' (log ++ s.triesCommitted a) := by
  unfold OutboxState.triesCommitted
  match (hs.rowsStep hstep).1 with
  | .same hnone hrows _ =>
    rw [hnone, List.append_nil]
    refine ⟨?_, ?_⟩
    · rw [hrows]
      exact h.known
    · rw [hrows]
      exact h.count
  | .enqueued hnone row hfresh hrows _ =>
    rw [hnone, List.append_nil]
    constructor
    · intro m hm
      obtain ⟨r, hr, hmessage⟩ := h.known m hm
      exact ⟨r, by rw [hrows]; exact List.mem_append_left _ hr, hmessage⟩
    · intro r hr
      rw [hrows] at hr
      rcases List.mem_append.mp hr with hold | hnew
      · exact h.count r hold
      -- no drain has published the row before it was enqueued
      · rw [List.mem_singleton.mp hnew, List.count_eq_zero.mpr]
        · exact Nat.zero_le _
        · intro hm
          obtain ⟨r', hr', hmessage⟩ := h.known _ hm
          exact hfresh (hmessage ▸ List.mem_map_of_mem hr')
  | .committed i d t _ hcommits _ ht hh hrows _ =>
    rw [hcommits]
    show Logged s' (log ++ (d.published ++ d.rejected))
    constructor
    · intro m hm
      have hold : ∃ r ∈ s.db.rows, r.messageId = m := by
        rcases List.mem_append.mp hm with hlog | hm
        · exact h.known m hlog
        · rcases List.mem_append.mp hm with hpublished | hrejected
          · obtain ⟨r, hr, -, hmessage, -⟩ := hh.published m hpublished
            exact ⟨r, hr, hmessage⟩
          · obtain ⟨r, hr, -, hmessage⟩ := hh.rejected m hrejected
            exact ⟨r, hr, hmessage⟩
      obtain ⟨r, hr, hmessage⟩ := hold
      refine ⟨see OutboxEvent.id t r, ?_, (hh.same r hr).messageId.trans hmessage⟩
      rw [hrows]
      exact List.mem_map_of_mem hr
    · intro r hr
      rw [hrows] at hr
      obtain ⟨r', hr', rfl⟩ := List.mem_map.mp hr
      rw [(hh.same r' hr').messageId, List.count_append]
      have hlog := h.count r' hr'
      have hdrain := hh.settledTries_le hs ht hr'
      omega

/-- A row that is not yet published or failed has had fewer publishes than it may have. -/
theorem Recorded.settledTries_le {maxAttempts count : ℕ} {confirmed : List Messaging.Publication}
    {r : OutboxEvent} (h : Recorded maxAttempts confirmed count r) :
    settledTries r ≤ maxAttempts ∧ (r.status = .pending → settledTries r < maxAttempts) := by
  have hbounded := h.bounded
  have hlt : r.status ≠ .failed → r.attempts < maxAttempts := by
    intro hstatus
    by_contra hge
    exact hstatus (h.failed.mpr (by omega))
  unfold settledTries
  match hstatus : r.status with
  | .pending =>
    rw [hstatus] at hlt
    have := hlt nofun
    simp
    omega
  | .published =>
    rw [hstatus] at hlt
    have := hlt nofun
    simp
    omega
  | .failed =>
    simp
    omega

theorem Logged.run (hmax : 1 ≤ D.maxAttempts) {n : ℕ} {log : List String}
    (h : Transition.Reaches (Transition.recording D.step OutboxState.triesCommitted)
      (fun _ _ => True) (.init n, []) (s, log)) : Inv D (fun _ => False) s ∧ Logged s log := by
  refine @Transition.Reaches.invariant _ _ _ _ _ _
    (fun u : OutboxState × List String => Inv D (fun _ => False) u.1 ∧ Logged u.1 u.2) h
    ⟨inv_init, nofun, nofun⟩ fun u a v hu _ hstep => ?_
  obtain ⟨hnext, hlog⟩ := Transition.recording_eq_some hstep
  rw [hlog]
  exact ⟨hu.1.step hmax nofun hnext, hu.2.step hu.1 hnext⟩

/-- Whatever publishes reject, a drain that nothing aborts records what it has reached for every
row of its batch, and a drain that is aborted records nothing. A row leaves PENDING after at most
`maxAttempts` publishes in drains that have committed. -/
theorem batch_outcomes (hmax : 1 ≤ D.maxAttempts) (n : ℕ) :
    (∀ s, Transition.Reaches D.step (fun _ _ => True) (.init n) s →
      (∀ a s', D.step s a = some s' →
        (∀ d, s.commits a = some d → Records d s s') ∧
        (s.commits a = none → s.db.rows ⊆ s'.db.rows)) ∧
      ∀ i, s.drain i = none → ∀ t, Transition.Reaches D.step
        (fun u a => a.relay = some i → u.aborts a = false) s t → ∀ d, t.drain i = some d →
          (t.awaited i = some .commit → ∀ outcome clock, outcome.abortsAt .commit = false →
            t.commits (.perform i outcome clock) = some d) ∧
          (t.awaited i = some .rollback → t.db.txn? i = none)) ∧
    ∀ s log, Transition.Reaches (Transition.recording D.step OutboxState.triesCommitted)
      (fun _ _ => True) (.init n, []) (s, log) → ∀ r ∈ s.db.rows,
        log.count r.messageId ≤ D.maxAttempts ∧
        (r.status = .pending → log.count r.messageId < D.maxAttempts) := by
  refine ⟨fun s hs => ?_, fun s log hs r hr => ?_⟩
  · have hInv : Inv D (fun _ => False) s := inv_init.run hmax nofun hs
    refine ⟨fun a s' hstep => ?_, fun i hidle t ht d hd => ?_⟩
    · match (hInv.rowsStep hstep).1 with
      | .same hnone hrows _ =>
        rw [hnone, hrows]
        exact ⟨nofun, fun _ => List.Subset.refl _⟩
      | .enqueued hnone row _ hrows _ =>
        rw [hnone, hrows]
        exact ⟨nofun, fun _ => List.subset_append_left _ _⟩
      | .committed i d t _ hcommits _ _ hh hrows _ =>
        rw [hcommits]
        refine ⟨fun d' hd' => ?_, nofun⟩
        rw [← Option.some.inj hd']
        exact hh.records hInv hrows
    · have hwatched : Inv D (fun j => j = i) t := by
        refine (hInv.watch hidle).run hmax (fun j hj u a hok ha => ?_) ht
        exact hok (hj ▸ ha)
      exact hwatched.unaborted rfl hd
  · obtain ⟨hInv, hlogged⟩ := Logged.run hmax hs
    have hcount := hlogged.count r hr
    obtain ⟨hle, hlt⟩ := (hInv.rows r hr).settledTries_le
    exact ⟨hcount.trans hle, fun hpending => hcount.trans_lt (hlt hpending)⟩

/-- A batch of two: the first row is published, the broker rejects the second one. -/
def batchOfTwo : List RelayAction :=
  [.enqueue (createdNotification "m1") "1" "" 0, .enqueue (createdNotification "m2") "2" "" 0,
    .start 0] ++ List.replicate 4 (.perform 0 .resolves 0) ++
  [.perform 0 (.rejects (.error "closed")) 0]

theorem batch_outcomes_two :
    ∃ s d s', Transition.Reaches twoAttempts.step (fun _ _ => True) (.init 2) s ∧
      d.published = ["m1"] ∧ d.rejected = ["m2"] ∧
      twoAttempts.step s (.perform 0 .resolves 0) = some s' ∧ Records d s s' := by
  have hrun : (Transition.run twoAttempts.step (fun _ _ => True) (.init 2)
      (batchOfTwo ++ [.perform 0 .resolves 0])).map (fun s =>
        ((s.commits (.perform 0 .resolves 0)).any fun d =>
          decide (d.published = ["m1"] ∧ d.rejected = ["m2"])) &&
        (twoAttempts.step s (.perform 0 .resolves 0)).isSome) = some true := by rfl
  obtain ⟨s, hs, htest⟩ := Transition.exists_reaches_of_run hrun
  simp only [Bool.and_eq_true, Option.any_eq_true, decide_eq_true_eq] at htest
  obtain ⟨⟨d, hd, hpublished, hrejected⟩, hsome⟩ := htest
  obtain ⟨s', hstep⟩ := Option.isSome_iff_exists.mp hsome
  have hmax : 1 ≤ twoAttempts.maxAttempts := by decide
  exact ⟨s, d, s', hs, hpublished, hrejected, hstep,
    (((batch_outcomes hmax 2).1 s hs).1 _ s' hstep).1 d hd⟩

/-! ## Batches that are aborted -/

def Drain.hasSettled (d : Drain) : Bool :=
  match d.code.view with
  | .settled _ => true
  | _ => false

/-- A drain of the one row, whose `markPublished` rejects. -/
def markRejected : List RelayAction :=
  [.start 0] ++ List.replicate 3 (.perform 0 .resolves 0) ++
  [.perform 0 (.rejects (.error "closed")) 0] ++ List.replicate 2 (.perform 0 .resolves 0) ++
  [.finish 0]

/-- When `markFailed` rejects for the second row, the first one, which has been confirmed and
marked, is still pending once `drainOnce` has settled. And a row whose `markPublished` rejects
three times has been published three times, of at most two, and is still pending. -/
theorem not_isolated :
    (∃ s d, Transition.Reaches twoAttempts.step (fun _ _ => True) (.init 1) s ∧
      s.drain 0 = some d ∧ d.hasSettled = true ∧ d.published = ["m1"] ∧ d.rejected = ["m2"] ∧
      ∃ r ∈ s.db.rows, r.messageId = "m1" ∧ r.status = .pending) ∧
    ∃ s, Transition.Reaches twoAttempts.step (fun _ _ => True) (.init 1) s ∧
      ∃ r ∈ s.db.rows, r.status = .pending ∧
        twoAttempts.maxAttempts < sentCount s.confirmed r.messageId := by
  constructor
  · have hrun : (Transition.run twoAttempts.step (fun _ _ => True) (.init 1)
        (batchOfTwo ++ [.perform 0 (.rejects (.error "closed")) 0, .perform 0 .resolves 0])).map
        (fun s => ((s.drain 0).any fun d => d.hasSettled &&
            decide (d.published = ["m1"] ∧ d.rejected = ["m2"])) &&
          s.db.rows.any fun r => decide (r.messageId = "m1" ∧ r.status = .pending)) =
        some true := by rfl
    obtain ⟨s, hs, htest⟩ := Transition.exists_reaches_of_run hrun
    simp only [Bool.and_eq_true, Option.any_eq_true, List.any_eq_true, decide_eq_true_eq] at htest
    obtain ⟨⟨d, hd, hsettled, hpublished, hrejected⟩, r, hr, hmessage, hpending⟩ := htest
    exact ⟨s, d, hs, hd, hsettled, hpublished, hrejected, r, hr, hmessage, hpending⟩
  · have hrun : (Transition.run twoAttempts.step (fun _ _ => True) (.init 1)
        (.enqueue (createdNotification "m1") "1" "" 0 ::
          (List.replicate 3 markRejected).flatten)).map
        (fun s => s.db.rows.any fun r =>
          decide (r.status = .pending ∧ 2 < sentCount s.confirmed r.messageId)) = some true := by
      rfl
    obtain ⟨s, hs, htest⟩ := Transition.exists_reaches_of_run hrun
    simp only [List.any_eq_true, decide_eq_true_eq] at htest
    exact ⟨s, hs, htest⟩

end Runs

end NestFastify.Outbox
