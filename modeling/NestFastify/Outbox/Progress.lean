import Mathlib.Algebra.Order.BigOperators.Group.List
import NestFastify.Outbox.Batches

/-!
# A row that the broker accepts

A row whose payload passes its contract, in a run in which the broker accepts every publish. No
further publish of it is ever rejected (`Retryable`; `Sendable` if none was before), so it does not
fail, and a drain that has claimed it and commits has published it. There always is a way on to
that commit: a drain that nothing aborts comes to its commit within a bounded number of calls
(`CommitsWithin`), and every commit of a batch leaves fewer attempts to the pending rows
(`attemptsLeft`).
-/

namespace NestFastify.Outbox

open RowStore (see)

/-- If the step settles a publish, the broker has accepted it. -/
def OutboxState.accepts (s : OutboxState) : RelayAction → Bool
  | .perform i outcome _ =>
    match s.awaited i with
    | some (.publish ..) => decide (outcome = .resolves)
    | _ => true
  | _ => true

/-- The row is in the table, whatever has become of it, and none of its publishes was rejected. -/
structure Sendable (row : OutboxEvent) (s : OutboxState) : Prop where
  known : ∃ r ∈ s.db.rows, SameEvent row r
  recorded : row.messageId ∉ s.recorded
  rejected : ∀ i d, s.drain i = some d → row.messageId ∉ d.rejected

/-- The row is in the table, `k` of its publishes count as rejected, and no drain under way has
seen one rejected. -/
structure Retryable (row : OutboxEvent) (k : ℕ) (s : OutboxState) : Prop where
  known : ∃ r ∈ s.db.rows, SameEvent row r
  recorded : s.recorded.count row.messageId = k
  rejected : ∀ i d, s.drain i = some d → row.messageId ∉ d.rejected

theorem sendable_iff {row : OutboxEvent} {s : OutboxState} : Sendable row s ↔ Retryable row 0 s :=
  ⟨fun h => ⟨h.known, List.count_eq_zero.mpr h.recorded, h.rejected⟩,
    fun h => ⟨h.known, List.count_eq_zero.mp h.recorded, h.rejected⟩⟩

section Sendable

variable {D : Deployment} {q : ℕ → Prop} {s s' : OutboxState} {row : OutboxEvent} {i k : ℕ}
  {d : Drain} {p : RelayPoint} {outcome : Outcome} {clock : ℕ}

/-- A publish that the contract accepts resolves when the broker accepts it. -/
theorem runPublish_ok {v : Messaging.EventPayload}
    (hvalid : Messaging.parseEvent D.z row.routingKey row.payload = .ok v) :
    (D.runPublish s .resolves row.routingKey row.payload row.messageId row.requestId).2 =
      .ok () := by
  unfold Deployment.runPublish Messaging.EventPublisherService.publish
  rw [hvalid]
  rfl

theorem rejected_after_publish {routingKey messageId : String} {payload : Json}
    {requestId : Option String} (r : Except JsError Unit) :
    (d.after (.publish routingKey payload messageId requestId) r).rejected =
      d.rejected ++ match r with
        | .ok _ => []
        | .error _ => [messageId] := by
  match r with
  | .ok _ => exact (List.append_nil _).symm
  | .error _ => rfl

/-- No row leaves the table. -/
theorem Inv.remains (hs : Inv D q s) {a : RelayAction} (hstep : D.step s a = some s')
    {r : OutboxEvent} (hr : r ∈ s.db.rows) : ∃ r' ∈ s'.db.rows, SameEvent r r' := by
  match (hs.rowsStep hstep).1 with
  | .same _ hrows _ =>
    rw [hrows]
    exact ⟨r, hr, .refl r⟩
  | .enqueued _ _ _ hrows _ =>
    rw [hrows]
    exact ⟨r, List.mem_append_left _ hr, .refl r⟩
  | .committed _ _ t _ _ _ _ hh hrows _ =>
    rw [hrows]
    exact ⟨see OutboxEvent.id t r, List.mem_map_of_mem hr, hh.same r hr⟩

/-- What a drain has seen rejected before the step, or the publish of a row in the table that the
step rejects; if the broker accepts it, it is the contract that does not. -/
theorem Inv.rejected_step (hs : Inv D q s) {a : RelayAction} (hstep : D.step s a = some s')
    {j : ℕ} {d' : Drain} (hd' : s'.drain j = some d') {m : String} (hm : m ∈ d'.rejected) :
    (∃ d, s.drain j = some d ∧ m ∈ d.rejected) ∨
      ∃ r ∈ s.db.rows, r.messageId = m ∧ (s.accepts a = true →
        ∀ v, Messaging.parseEvent D.z r.routingKey r.payload ≠ .ok v) := by
  -- a drain that was there before, or the one that the step is about
  have hother : ∀ {i : ℕ} {o : Option Drain}, Function.update s.drain i o j = some d' →
      (∃ d, s.drain j = some d ∧ m ∈ d.rejected) ∨ (j = i ∧ o = some d') := by
    intro i o hd'
    by_cases hj : j = i
    · rw [hj, Function.update_self] at hd'
      exact Or.inr ⟨hj, hd'⟩
    · rw [Function.update_of_ne hj] at hd'
      exact Or.inl ⟨d', hd', hm⟩
  match a with
  | .enqueue data id randomUUID createdAt =>
    obtain ⟨-, rfl⟩ := enqueue_eq_some hstep
    exact Or.inl ⟨d', hd', hm⟩
  | .timeout i | .tick ms =>
    obtain rfl := Option.some.inj hstep
    exact Or.inl ⟨d', hd', hm⟩
  | .start i =>
    obtain ⟨-, -, rfl⟩ := start_eq_some hstep
    rcases hother hd' with hold | ⟨-, hnew⟩
    · exact Or.inl hold
    · rw [← Option.some.inj hnew] at hm
      exact absurd hm List.not_mem_nil
  | .finish i =>
    obtain ⟨-, rfl⟩ := finish_eq_some hstep
    rcases hother hd' with hold | ⟨-, hnew⟩
    · exact Or.inl hold
    · exact nomatch hnew
  | .crash i =>
    obtain rfl := Option.some.inj hstep
    rcases hother hd' with hold | ⟨-, hnew⟩
    · exact Or.inl hold
    · exact nomatch hnew
  | .perform i outcome clock =>
    obtain ⟨d, p, c, k, r, hd, hcode, hI, hview, hexecute, rfl⟩ := perform_cases hs hstep
    have hawaited := awaited_eq hd hcode hview
    rcases hother hd' with hold | ⟨rfl, hnew⟩
    · exact Or.inl hold
    rw [← Option.some.inj hnew] at hm
    match p with
    | .publishing row rest =>
      cases hview
      obtain rfl := Option.some.inj hexecute
      have hm : m ∈ (d.after (.publish row.routingKey row.payload row.messageId row.requestId)
          (D.runPublish s outcome row.routingKey row.payload row.messageId row.requestId).2).rejected :=
        hm
      rw [rejected_after_publish] at hm
      rcases List.mem_append.mp hm with hold | hlast
      · exact Or.inl ⟨d, hd, hold⟩
      split at hlast
      · exact absurd hlast List.not_mem_nil
      rename_i e herror
      obtain ⟨r, hr, hsame⟩ := hI.known row List.mem_cons_self
      rw [List.mem_singleton.mp hlast]
      refine Or.inr ⟨r, hr, hsame.messageId.symm, fun haccepts v hvalid => ?_⟩
      rw [← hsame.routingKey, ← hsame.payload] at hvalid
      simp only [OutboxState.accepts, hawaited] at haccepts
      rw [of_decide_eq_true haccepts] at herror
      exact nomatch (runPublish_ok hvalid).symm.trans herror
    | .beginning | .claiming | .marking _ _ | .counting _ _ | .failing _ _ | .committing
    | .rollingBack _ =>
      cases hview
      exact Or.inl ⟨d, hd, hm⟩
    | .settled result => exact nomatch hview

theorem Retryable.step (h : Retryable row k s) (hs : Inv D q s) {v : Messaging.EventPayload}
    (hvalid : Messaging.parseEvent D.z row.routingKey row.payload = .ok v) {a : RelayAction}
    (haccepts : s.accepts a = true) (hstep : D.step s a = some s') : Retryable row k s' := by
  obtain ⟨r, hr, hsame⟩ := h.known
  refine ⟨?_, ?_, fun j d' hd' hm => ?_⟩
  · obtain ⟨r', hr', hsame'⟩ := hs.remains hstep hr
    exact ⟨r', hr', hsame.trans hsame'⟩
  · match (hs.rowsStep hstep).1 with
    | .same _ _ hrecorded | .enqueued _ _ _ _ hrecorded =>
      rw [hrecorded]
      exact h.recorded
    | .committed i d _ _ _ hd _ _ _ hrecorded =>
      rw [hrecorded, List.count_append, h.recorded,
        List.count_eq_zero.mpr (h.rejected i d hd), Nat.add_zero]
  · rcases hs.rejected_step hstep hd' hm with ⟨d, hd, hold⟩ | ⟨r', hr', hmessage, hinvalid⟩
    · exact h.rejected j d hd hold
    · -- the row itself, which the contract accepts
      rw [hs.eq_of_messageId hr' hr (hmessage.trans hsame.messageId.symm)] at hinvalid
      refine hinvalid haccepts v ?_
      rw [hsame.routingKey, hsame.payload]
      exact hvalid

/-- Every message that a drain has seen rejected is one of a row. -/
def RejectedKnown (s : OutboxState) : Prop :=
  ∀ i d, s.drain i = some d → ∀ m ∈ d.rejected, ∃ r ∈ s.db.rows, r.messageId = m

theorem RejectedKnown.run (hmax : 1 ≤ D.maxAttempts) {ok : OutboxState → RelayAction → Prop}
    (hs : Inv D (fun _ => False) s) (h : RejectedKnown s)
    (hreach : Transition.Reaches D.step ok s s') : RejectedKnown s' := by
  refine hreach.invariant_under (fun _ hu => hs.run hmax nofun hu) h
    fun u a u' hu hknown _ hstep => ?_
  intro i d hd m hm
  have hold : ∃ r ∈ u.db.rows, r.messageId = m := by
    rcases hu.rejected_step hstep hd hm with ⟨d₀, hd₀, hm₀⟩ | ⟨r, hr, hmessage, -⟩
    · exact hknown i d₀ hd₀ m hm₀
    · exact ⟨r, hr, hmessage⟩
  obtain ⟨r, hr, hmessage⟩ := hold
  obtain ⟨r', hr', hsame⟩ := hu.remains hstep hr
  exact ⟨r', hr', hsame.messageId.trans hmessage⟩

/-- Nothing has been published under the message id of a row that is enqueued. -/
theorem Inv.enqueued (hs : Inv D q s) (hknown : RejectedKnown s) {data : EnqueueOutboxData}
    {id randomUUID : String} {createdAt : ℕ}
    (hstep : D.step s (.enqueue data id randomUUID createdAt) = some s') :
    Sendable (PrismaOutboxRepository.enqueue id randomUUID createdAt data) s' := by
  obtain ⟨⟨-, hfresh⟩, rfl⟩ := enqueue_eq_some hstep
  refine ⟨⟨_, List.mem_append_right _ List.mem_cons_self, .refl _⟩, fun hm => ?_, fun i d hd hm => ?_⟩
  · obtain ⟨r, hr, hmessage⟩ := hs.recorded _ hm
    exact hfresh (hmessage ▸ List.mem_map_of_mem hr)
  · obtain ⟨r, hr, hmessage⟩ := hknown i d hd _ hm
    exact hfresh (hmessage ▸ List.mem_map_of_mem hr)

theorem Retryable.run (hmax : 1 ≤ D.maxAttempts) {v : Messaging.EventPayload}
    (hvalid : Messaging.parseEvent D.z row.routingKey row.payload = .ok v)
    (hs : Inv D (fun _ => False) s) (h : Retryable row k s)
    (hreach : Transition.Reaches D.step (fun u a => u.accepts a = true) s s') : Retryable row k s' :=
  hreach.invariant_under (fun _ hu => hs.run hmax nofun hu) h
    fun _ _ _ hu hrow haccepts hstep => hrow.step hu hvalid haccepts hstep

theorem Sendable.run (hmax : 1 ≤ D.maxAttempts) {v : Messaging.EventPayload}
    (hvalid : Messaging.parseEvent D.z row.routingKey row.payload = .ok v)
    (hs : Inv D (fun _ => False) s) (h : Sendable row s)
    (hreach : Transition.Reaches D.step (fun u a => u.accepts a = true) s s') : Sendable row s' :=
  sendable_iff.mpr ((sendable_iff.mp h).run hmax hvalid hs hreach)

/-- While attempts are left, the row has not failed. -/
theorem Retryable.not_failed (h : Retryable row k s) (hs : Inv D q s) (hk : k < D.maxAttempts) :
    ∃ r ∈ s.db.rows, SameEvent row r ∧ r.status ≠ .failed := by
  obtain ⟨r, hr, hsame⟩ := h.known
  refine ⟨r, hr, hsame, fun hfailed => ?_⟩
  have hmany := (hs.rows r hr).failed.mp hfailed
  rw [(hs.rows r hr).attempts, hsame.messageId, h.recorded] at hmany
  omega

/-- No attempt is counted for the row. -/
theorem Sendable.not_failed (h : Sendable row s) (hs : Inv D q s) (hmax : 1 ≤ D.maxAttempts) :
    ∃ r ∈ s.db.rows, SameEvent row r ∧ r.attempts = 0 ∧ r.status ≠ .failed := by
  obtain ⟨r, hr, hsame⟩ := h.known
  have hrecorded := hs.rows r hr
  have hzero : r.attempts = 0 := by
    rw [hrecorded.attempts, hsame.messageId]
    exact List.count_eq_zero.mpr h.recorded
  refine ⟨r, hr, hsame, hzero, fun hfailed => ?_⟩
  have hmany := hrecorded.failed.mp hfailed
  omega

/-- A drain that has claimed the row and commits has published it. -/
theorem Sendable.published (h : Sendable row s) (hs : Inv D q s) {a : RelayAction}
    (hstep : D.step s a = some s') (hcommits : s.commits a = some d) (hrelay : a.relay = some i)
    {t : OutboxTxn} (ht : s.db.txn? i = some t) (hlocked : row.id ∈ t.locked) :
    ∃ r ∈ s'.db.rows, SameEvent row r ∧ r.status = .published := by
  match (hs.rowsStep hstep).1 with
  | .same hnone _ _ | .enqueued hnone _ _ _ _ => exact nomatch hcommits.symm.trans hnone
  | .committed j d' t' hrelay' hcommits' hd' ht' hh hrows _ =>
    obtain rfl := Option.some.inj (hrelay.symm.trans hrelay')
    obtain rfl := Option.some.inj (ht.symm.trans ht')
    obtain rfl := Option.some.inj (hcommits.symm.trans hcommits')
    obtain ⟨r, hr, hsame⟩ := h.known
    refine ⟨see OutboxEvent.id t r, by rw [hrows]; exact List.mem_map_of_mem hr,
      hsame.trans (hh.same r hr), ?_⟩
    have hnot : r.messageId ∉ d.rejected := by
      rw [hsame.messageId]
      exact h.rejected i d hd'
    rcases hh.handled r hr (hsame.id ▸ hlocked) with huntried | hpublished | hrejected
    · exact absurd huntried List.not_mem_nil
    · obtain ⟨r', hr', -, hmessage, hdone⟩ := hh.published _ hpublished
      rw [hs.eq_of_messageId hr' hr hmessage] at hdone
      exact hdone.resolve_right nofun
    · exact absurd hrejected hnot

end Sendable

/-! ## The way to the commit -/

/-- A call that a drain makes between its claim and its commit. -/
def RelayCall.handles : RelayCall → Bool
  | publish .. | update .. => true
  | _ => false

/-- A publish may reject, an update resolves. -/
def RelayCall.Fine : (c : RelayCall) → Except JsError c.Reply → Prop
  | publish .., _ => True
  | _, r => ∃ v, r = .ok v

/-- The code comes to the commit within `n` calls, whatever the publishes do. -/
inductive CommitsWithin : ℕ → RelayCode Unit → Prop
  | now {n : ℕ} {code : RelayCode Unit} {k : Except JsError Unit → RelayCode Unit}
    (hview : code.view = .awaits .commit k) : CommitsWithin n code
  | later {n : ℕ} {code : RelayCode Unit} {c : RelayCall} {k : Except JsError c.Reply → RelayCode Unit}
    (hview : code.view = .awaits c k) (hc : c.handles = true)
    (hnext : ∀ r, c.Fine r → CommitsWithin n (k r)) : CommitsWithin (n + 1) code

theorem CommitsWithin.mono {n m : ℕ} {code : RelayCode Unit} (h : CommitsWithin n code)
    (hnm : n ≤ m) : CommitsWithin m code := by
  induction h generalizing m with
  | now hview => exact .now hview
  | later hview hc hnext ih =>
    obtain ⟨k, rfl⟩ : ∃ k, m = k + 1 := ⟨m - 1, by omega⟩
    exact .later hview hc fun r hr => ih r hr (by omega)

section Points

variable (this : OutboxRelayService)

/-- Three calls at most for each row: its publish, and one update or two. -/
theorem commitsWithin_next (rows : List OutboxEvent) :
    CommitsWithin (3 * rows.length) ((RelayPoint.next rows).program this) := by
  induction rows with
  | nil => exact .now (RelayPoint.view_program this .committing)
  | cons row rest ih =>
    have hmarking : CommitsWithin (3 * rest.length + 2)
        (RelayPoint.program this (.marking row rest)) := by
      refine .later (n := 3 * rest.length + 1) (RelayPoint.view_program this _) rfl fun r hr => ?_
      obtain ⟨v, rfl⟩ := hr
      exact ih.mono (by omega)
    have hfailing : CommitsWithin (3 * rest.length + 1)
        (RelayPoint.program this (.failing row rest)) := by
      refine .later (RelayPoint.view_program this _) rfl fun r hr => ?_
      obtain ⟨v, rfl⟩ := hr
      exact ih
    have hcounting : CommitsWithin (3 * rest.length + 2)
        (RelayPoint.program this (.counting row rest)) := by
      refine .later (RelayPoint.view_program this _) rfl fun r hr => ?_
      obtain ⟨v, rfl⟩ := hr
      show CommitsWithin _ (RelayPoint.program this
        (if this.maxAttempts ≤ v.attempts then .failing row rest else .next rest))
      by_cases hlast : this.maxAttempts ≤ v.attempts
      · rw [if_pos hlast]
        exact hfailing
      · rw [if_neg hlast]
        exact ih.mono (by omega)
    show CommitsWithin (3 * rest.length + 2 + 1) _
    refine .later (RelayPoint.view_program this _) rfl fun r _ => ?_
    match r with
    | .ok _ => exact hmarking
    | .error _ => exact hcounting

end Points

section Progress

variable {D : Deployment} {q : ℕ → Prop} {s s' : OutboxState} {row : OutboxEvent} {i k : ℕ}
  {d : Drain} {p : RelayPoint} {clock : ℕ} {t : OutboxTxn} {c : RelayCall}

theorem perform_eq {k : Except JsError c.Reply → RelayCode Unit}
    {r : OutboxState × Except JsError c.Reply} {outcome : Outcome} (hd : s.drain i = some d)
    (hview : d.code.view = .awaits c k) (hr : D.execute s i d outcome clock c = some r) :
    D.step s (.perform i outcome clock) = some (s.resume i d c k r) := by
  show D.perform s i outcome clock = _
  unfold Deployment.perform
  simp only [hd, hview, hr]
  rfl

theorem awaited_of_view {k : Except JsError c.Reply → RelayCode Unit} (hd : s.drain i = some d)
    (hview : d.code.view = .awaits c k) : s.awaited i = some c := by
  unfold OutboxState.awaited
  simp only [hd, hview]

/-- A call that resolves aborts nothing, and if it is a publish the broker has accepted it. -/
theorem resolves_fine (s : OutboxState) (i clock : ℕ) :
    s.aborts (.perform i .resolves clock) = false ∧ s.accepts (.perform i .resolves clock) = true := by
  constructor
  · show (s.awaited i).any _ = false
    match s.awaited i with
    | none => rfl
    | some c =>
      match c with
      | .begin | .claimPending _ | .publish .. | .update .. | .commit | .rollback => rfl
  · show (match s.awaited i with
      | some (.publish ..) => decide (Outcome.resolves = .resolves)
      | _ => true) = true
    split <;> rfl

/-- The row under way is not locked by another transaction. -/
theorem Healthy.free (hs : Inv D q s) (ht : s.db.txn? i = some t) (hlocked : row.id ∈ t.locked) :
    s.db.lockedElsewhere i row.id = false := by
  unfold RowStore.lockedElsewhere
  rw [List.any_eq_false]
  intro j _
  match hu : s.db.txn? j with
  | none => simp
  | some u =>
    have hsame : row.id ∈ u.locked → i = j := hs.sound.exclusive i j t u row.id ht hu hlocked
    simp only [Option.any_some, Bool.and_eq_true, decide_eq_true_eq, not_and]
    exact fun hne hmem => hne (hsame hmem).symm

/-- The next call of a drain that nothing has aborted can be executed. -/
theorem Inv.answers (hs : Inv D q s) (hq : q i) (hd : s.drain i = some d)
    {k : Except JsError c.Reply → RelayCode Unit} (hview : d.code.view = .awaits c k)
    (hc : c.handles = true) (clock : ℕ) :
    ∃ r, D.execute s i d .resolves clock c = some r ∧ c.Fine r.2 ∧
      ∀ t, s.db.txn? i = some t → ∃ t', r.1.db.txn? i = some t' ∧ t.locked ⊆ t'.locked := by
  obtain ⟨p, hcode, hI⟩ := hs.drain hd
  -- an update of the row under way
  have hupdate : ∀ {row : OutboxEvent}, row ∈ p.batch → p.inTransaction = true → ∀ data,
      ∃ r, D.execute s i d .resolves clock (.update row.id data) = some r ∧
        (RelayCall.update row.id data).Fine r.2 ∧
        ∀ t, s.db.txn? i = some t → ∃ t', r.1.db.txn? i = some t' ∧ t.locked ⊆ t'.locked := by
    intro row hrow hin data
    obtain ⟨t, ht, hfailed⟩ := hI.opened hq hin
    obtain ⟨hmem, hlocked⟩ := (hI.healthy t ht hfailed hin).claimed row hrow
    have hsome : (s.runUpdate i clock t row.id data).isSome := by
      unfold OutboxState.runUpdate
      rw [Healthy.free hs ht hlocked]
      simp only [Bool.false_eq_true, if_false]
      split <;> rfl
    obtain ⟨⟨s₁, reply⟩, hrun⟩ := Option.isSome_iff_exists.mp hsome
    have hexecute : D.execute s i d .resolves clock (.update row.id data) = some (s₁, reply) := by
      show s.statement i .resolves (fun t => s.runUpdate i clock t row.id data) = _
      unfold OutboxState.statement
      simp only [ht, hfailed, Bool.false_eq_true, if_false]
      exact hrun
    obtain ⟨rfl, rfl⟩ := runUpdate_eq hs hmem hrun
    refine ⟨_, hexecute, ⟨_, rfl⟩, fun u hu => ?_⟩
    rw [← Option.some.inj (ht.symm.trans hu)]
    exact ⟨_, RowStore.txn?_setTxn_self hI.lt, List.subset_append_left _ _⟩
  rw [hcode, RelayPoint.view_program] at hview
  match p with
  | .publishing row rest =>
    cases hview
    refine ⟨_, rfl, trivial, fun u hu => ⟨u, ?_, List.Subset.refl _⟩⟩
    rcases @runPublish_cases D s .resolves row.routingKey row.payload row.messageId row.requestId with
      ⟨e, he⟩ | ⟨-, pub, -, -, -, -, -, hconfirm⟩
    · rw [he]
      exact hu
    · rw [hconfirm]
      exact hu
  | .marking row rest | .counting row rest | .failing row rest =>
    cases hview
    exact hupdate List.mem_cons_self rfl _
  | .beginning | .claiming | .committing | .rollingBack _ =>
    cases hview
    exact Bool.noConfusion hc
  | .settled _ => exact nomatch hview

/-- A drain that nothing aborts comes to its commit. -/
theorem Inv.comes_to_commit (hmax : 1 ≤ D.maxAttempts) {n : ℕ} {code : RelayCode Unit}
    (h : CommitsWithin n code) (hs : Inv D (fun j => j = i) s) (hd : s.drain i = some d)
    (hcode : d.code = code) {id : String}
    (hlocked : ∃ t, s.db.txn? i = some t ∧ id ∈ t.locked) :
    ∃ s' d', Transition.Reaches D.step (fun u a => u.accepts a = true) s s' ∧
      Inv D (fun j => j = i) s' ∧ s'.drain i = some d' ∧ s'.awaited i = some .commit ∧
      (∃ t, s'.db.txn? i = some t ∧ id ∈ t.locked) ∧ s'.db.rows = s.db.rows ∧
      s'.db.txns.length = s.db.txns.length := by
  induction h generalizing s d with
  | now hview =>
    subst hcode
    exact ⟨s, d, .refl s, hs, hd, awaited_of_view hd hview, hlocked, rfl, rfl⟩
  | @later n code c k hview hc hnext ih =>
    subst hcode
    obtain ⟨r, hr, hfine, hlocks⟩ := hs.answers rfl hd hview hc 0
    have hstep := perform_eq hd hview hr
    have hs₁ : Inv D (fun j => j = i) (s.resume i d c k r) :=
      hs.step hmax (fun _ _ _ => (resolves_fine s i 0).1) hstep
    have hne : c ≠ .commit := by
      rintro rfl
      exact Bool.noConfusion hc
    obtain ⟨hrows, -, hlength⟩ := execute_frame hr hne
    have hlocked₁ : ∃ t, (s.resume i d c k r).db.txn? i = some t ∧ id ∈ t.locked := by
      obtain ⟨t, ht, hmem⟩ := hlocked
      obtain ⟨t', ht', hsub⟩ := hlocks t ht
      exact ⟨t', ht', hsub hmem⟩
    -- the answer of the call, and the run that the rest of the drain makes
    obtain ⟨s', d', hreach, hs', hd', hcommit, hlocked', hrows', hlength'⟩ :=
      ih r.2 hfine hs₁ (Function.update_self ..) rfl hlocked₁
    refine ⟨s', d', ?_, hs', hd', hcommit, hlocked', hrows'.trans hrows, hlength'.trans hlength⟩
    exact ((Transition.Reaches.refl s).tail (resolves_fine s i 0).2 hstep).trans hreach

/-! ## A batch uses attempts up -/

/-- How often a publish of the row may still reject. -/
def attemptsLeft (maxAttempts : ℕ) (row : OutboxEvent) : ℕ :=
  if row.status = .pending then maxAttempts - row.attempts else 0

/-- At a commit every row of the batch has been published or has an attempt less. -/
theorem Healthy.attemptsLeft_le (hs : Inv D q s) (hh : Healthy D q s t d .committing)
    (ht : s.db.txn? i = some t) {r : OutboxEvent} (hr : r ∈ s.db.rows) :
    attemptsLeft D.maxAttempts (see OutboxEvent.id t r) ≤ attemptsLeft D.maxAttempts r ∧
      (r.id ∈ t.locked →
        attemptsLeft D.maxAttempts (see OutboxEvent.id t r) < attemptsLeft D.maxAttempts r) := by
  by_cases hlocked : r.id ∈ t.locked
  swap
  · rw [RowStore.see_of_not_locked hs.sound ht hlocked]
    exact ⟨le_refl _, fun h => absurd h hlocked⟩
  suffices hlt : attemptsLeft D.maxAttempts (see OutboxEvent.id t r) <
      attemptsLeft D.maxAttempts r from ⟨hlt.le, fun _ => hlt⟩
  obtain ⟨r', hr', hid, hpending⟩ := hs.pending i t ht _ hlocked
  rw [hs.eq_of_id hr' hr hid] at hpending
  have hrecorded := hs.rows r hr
  have hmore : r.attempts < D.maxAttempts := by
    rw [← not_le, ← hrecorded.failed, hpending]
    nofun
  have hattempts : (see OutboxEvent.id t r).attempts =
      (s.recorded ++ d.rejected).count r.messageId := (hh.versions r hr hlocked).attempts
  rw [List.count_append, ← hrecorded.attempts] at hattempts
  unfold attemptsLeft
  rw [if_pos hpending]
  -- nothing of the batch is untried at the commit
  rcases hh.handled r hr hlocked with huntried | hpublished | hrejected
  · exact absurd huntried List.not_mem_nil
  · obtain ⟨r', hr', -, hmessage, hdone⟩ := hh.published _ hpublished
    rw [hs.eq_of_messageId hr' hr hmessage] at hdone
    rw [hdone.resolve_right nofun, if_neg nofun]
    omega
  · have hone := List.count_pos_iff.mpr hrejected
    split <;> omega

/-- The commit of a drain that nothing has aborted. -/
theorem Inv.commit_decreases (hmax : 1 ≤ D.maxAttempts) (hs : Inv D (fun j => j = i) s)
    (hd : s.drain i = some d) (hcommit : s.awaited i = some .commit) (ht : s.db.txn? i = some t)
    {r : OutboxEvent} (hr : r ∈ s.db.rows) (hlocked : r.id ∈ t.locked) :
    ∃ s', D.step s (.perform i .resolves 0) = some s' ∧ Inv D (fun j => j = i) s' ∧
      (s'.db.rows.map (attemptsLeft D.maxAttempts)).sum <
        (s.db.rows.map (attemptsLeft D.maxAttempts)).sum ∧
      s'.db.txns.length = s.db.txns.length := by
  obtain ⟨k, hview⟩ := view_of_awaited hd hcommit
  have hstep : D.step s (.perform i .resolves 0) =
      some (s.resume i d .commit k (s.runCommit i d .resolves)) := perform_eq hd hview rfl
  have hcommits := (hs.unaborted rfl hd).1 hcommit .resolves 0 rfl
  obtain ⟨hrows, hlength⟩ := hs.rowsStep hstep
  refine ⟨_, hstep, hs.step hmax (fun _ _ _ => (resolves_fine s i 0).1) hstep, ?_, hlength⟩
  match hrows with
  | .same hnone _ _ | .enqueued hnone _ _ _ _ => exact nomatch hcommits.symm.trans hnone
  | .committed j d' t' hrelay _ _ ht' hh hrows _ =>
    obtain rfl := Option.some.inj hrelay
    obtain rfl := Option.some.inj (ht.symm.trans ht')
    rw [hrows, List.map_map]
    exact List.sum_lt_sum _ _ (fun r hr => (hh.attemptsLeft_le hs ht hr).1)
      ⟨r, hr, (hh.attemptsLeft_le hs ht hr).2 hlocked⟩

/-! ## The way from any state -/

/-- Every relay may die. -/
theorem Inv.crashes (hmax : 1 ≤ D.maxAttempts) (hs : Inv D (fun _ => False) s) (m : ℕ) :
    ∃ s', Transition.Reaches D.step (fun u a => u.accepts a = true) s s' ∧
      Inv D (fun _ => False) s' ∧ (∀ j < m, s'.drain j = none) ∧ s'.db.rows = s.db.rows ∧
      s'.db.txns.length = s.db.txns.length := by
  induction m with
  | zero => exact ⟨s, .refl s, hs, fun j hj => absurd hj (Nat.not_lt_zero j), rfl, rfl⟩
  | succ m ih =>
    obtain ⟨s', hreach, hs', hidle, hrows, hlength⟩ := ih
    have hstep : D.step s' (.crash m) = some { s' with
        db := s'.db.rollback m
        drain := Function.update s'.drain m none } := rfl
    refine ⟨_, hreach.tail rfl hstep, hs'.step hmax nofun hstep, fun j hj => ?_, hrows,
      (hs'.rowsStep hstep).2.trans hlength⟩
    by_cases hjm : j = m
    · rw [hjm]
      exact Function.update_self ..
    · exact (Function.update_of_ne hjm ..).trans (hidle j (by omega))

/-- An idle relay opens a transaction. -/
theorem Inv.opens (hmax : 1 ≤ D.maxAttempts) (hs : Inv D q s) (hlt : i < s.db.txns.length)
    (hidle : s.drain i = none) :
    ∃ s' d', Transition.Reaches D.step (fun u a => u.accepts a = true) s s' ∧ Inv D q s' ∧
      s'.drain i = some d' ∧ d'.code = RelayPoint.claiming.program (D.relay i) ∧
      s'.db = s.db.begin i s.now := by
  obtain ⟨s₁, hstart, hd₁, hdb, hnow⟩ : ∃ s₁, D.step s (.start i) = some s₁ ∧
      s₁.drain i = some ⟨(D.relay i).drainOnce, [], []⟩ ∧ s₁.db = s.db ∧ s₁.now = s.now := by
    refine ⟨{ s with drain := Function.update s.drain i (some ⟨(D.relay i).drainOnce, [], []⟩) },
      ?_, Function.update_self .., rfl, rfl⟩
    show D.start s i = _
    unfold Deployment.start
    rw [if_pos ⟨hlt, by rw [hidle]; rfl⟩]
  have hs₁ := hs.step hmax (fun _ _ _ => rfl) hstart
  obtain ⟨k, hview, hk⟩ : ∃ k, (D.relay i).drainOnce.view = .awaits .begin k ∧
      k (.ok ()) = RelayPoint.claiming.program (D.relay i) :=
    ⟨_, RelayPoint.view_program (D.relay i) .beginning, rfl⟩
  have hbegin : D.step s₁ (.perform i .resolves 0) = some (s₁.resume i ⟨_, [], []⟩ .begin k
      ({ s₁ with db := s₁.db.begin i s₁.now }, .ok ())) := perform_eq hd₁ hview rfl
  have haccepts : s.accepts (.start i) = true := rfl
  have hopen : Transition.Reaches D.step (fun u a => u.accepts a = true) s s₁ :=
    (Transition.Reaches.refl s).tail haccepts hstart
  refine ⟨_, _, hopen.tail (resolves_fine _ i 0).2 hbegin,
    hs₁.step hmax (fun _ _ _ => (resolves_fine _ i 0).1) hbegin, Function.update_self .., hk, ?_⟩
  rw [← hdb, ← hnow]
  rfl

/-- A relay that is alone claims some row, when there is one to claim. -/
theorem Inv.claims_some (hmax : 1 ≤ D.maxAttempts) (hs : Inv D (fun j => j = i) s)
    (hfree : ∀ j, s.db.txn? j = none) (hlt : i < s.db.txns.length) (hidle : s.drain i = none)
    {r : OutboxEvent} (hr : r ∈ s.db.rows) (hpending : r.status = .pending)
    (hnow : r.availableAt ≤ s.now) (hbatch : 0 < D.batch i) :
    ∃ s' d' n, Transition.Reaches D.step (fun u a => u.accepts a = true) s s' ∧
      Inv D (fun j => j = i) s' ∧ s'.drain i = some d' ∧ CommitsWithin n d'.code ∧
      (∃ t, s'.db.txn? i = some t ∧ ∃ r' ∈ s'.db.rows, r'.id ∈ t.locked) ∧
      s'.db.rows = s.db.rows ∧ s'.db.txns.length = s.db.txns.length := by
  obtain ⟨s₁, d₁, hreach, hs₁, hd₁, hcode, hdb⟩ := hs.opens hmax hlt hidle
  have hrows₁ : s₁.db.rows = s.db.rows := by
    rw [hdb]
    rfl
  have hlength₁ : s₁.db.txns.length = s.db.txns.length := by
    rw [hdb]
    exact List.length_set ..
  obtain ⟨t, ht⟩ : ∃ t, t = (⟨s.now, false, [], fun _ => none⟩ : OutboxTxn) := ⟨_, rfl⟩
  have ht₁ : s₁.db.txn? i = some t := by
    rw [hdb, ht]
    exact RowStore.txn?_setTxn_self hlt
  -- the row is wanted and free
  have hsome : (s₁.claim i t (D.batch i)).2 ≠ [] := by
    have hr₁ : r ∈ s₁.db.rows := hrows₁ ▸ hr
    refine RowStore.claim_ne_nil hr₁ ?_ ?_ hbatch
    · unfold RowStore.lockedElsewhere
      rw [List.any_eq_false]
      intro j _
      by_cases hj : j = i
      · simp [hj]
      · have hnone : s₁.db.txn? j = none := by
          rw [hdb]
          exact (RowStore.txn?_setTxn_ne (Ne.symm hj)).trans (hfree j)
        simp [hnone]
    · rw [ht]
      exact decide_eq_true ⟨hpending, hnow⟩
  obtain ⟨k, hview, hk⟩ : ∃ k, d₁.code.view = .awaits (.claimPending (D.batch i)) k ∧
      ∀ rows : List OutboxEvent, CommitsWithin (3 * rows.length) (k (.ok rows)) := by
    rw [hcode]
    exact ⟨_, RelayPoint.view_program (D.relay i) .claiming, commitsWithin_next (D.relay i)⟩
  have hexecute : D.execute s₁ i d₁ .resolves 0 (.claimPending (D.batch i)) =
      some ((s₁.claim i t (D.batch i)).1, .ok (s₁.claim i t (D.batch i)).2) := by
    show s₁.statement i .resolves _ = _
    unfold OutboxState.statement
    simp only [ht₁, show t.failed = false by rw [ht], Bool.false_eq_true, if_false]
  have hstep := perform_eq hd₁ hview hexecute
  refine ⟨_, _, 3 * (s₁.claim i t (D.batch i)).2.length,
    hreach.tail (resolves_fine _ i 0).2 hstep, hs₁.step hmax (fun _ _ _ => (resolves_fine _ i 0).1) hstep,
    Function.update_self .., hk _, ?_, hrows₁, (List.length_set ..).trans hlength₁⟩
  obtain ⟨r', hr'⟩ := List.exists_mem_of_ne_nil _ hsome
  refine ⟨_, RowStore.txn?_setTxn_self (hlength₁ ▸ hlt), r', ?_, ?_⟩
  · obtain ⟨-, r₀, hr₀, hsee, -⟩ := RowStore.mem_claim hr'
    rw [ht] at hsee
    exact hsee ▸ hr₀
  · exact List.mem_append_right _ (List.mem_map_of_mem hr')

/-- The relays die, time passes, and one relay drains a batch: fewer attempts are left. -/
theorem Inv.drains (hmax : 1 ≤ D.maxAttempts) (hbatch : 0 < D.batch 0)
    (hs : Inv D (fun _ => False) s) (hlt : 0 < s.db.txns.length) {r : OutboxEvent}
    (hr : r ∈ s.db.rows) (hpending : r.status = .pending) :
    ∃ s', Transition.Reaches D.step (fun u a => u.accepts a = true) s s' ∧
      (s'.db.rows.map (attemptsLeft D.maxAttempts)).sum <
        (s.db.rows.map (attemptsLeft D.maxAttempts)).sum ∧
      s'.db.rows.length = s.db.rows.length ∧ s'.db.txns.length = s.db.txns.length := by
  obtain ⟨s₁, hreach₁, hs₁, hidle, hrows₁, hlength₁⟩ := hs.crashes hmax s.db.txns.length
  have htick : D.step s₁ (.tick r.availableAt) =
      some { s₁ with now := s₁.now + r.availableAt } := rfl
  have hreach₂ := hreach₁.tail rfl htick
  have hs₂ := (hs₁.step hmax nofun htick).watch (hidle 0 hlt)
  have hfree : ∀ j, s₁.db.txn? j = none := by
    intro j
    by_cases hj : j < s.db.txns.length
    · exact hs₁.idle (hidle j hj)
    · unfold RowStore.txn?
      rw [List.getElem?_eq_none (by omega)]
      rfl
  obtain ⟨s₃, d₃, n, hreach₃, hs₃, hd₃, hwithin, ⟨t₃, ht₃, r₃, hr₃, hlocked₃⟩, hrows₃, hlength₃⟩ :=
    hs₂.claims_some hmax hfree (hlength₁ ▸ hlt) (hidle 0 hlt) (hrows₁ ▸ hr) hpending
      (Nat.le_add_left ..) hbatch
  obtain ⟨s₄, d₄, hreach₄, hs₄, hd₄, hcommit, ⟨t₄, ht₄, hlocked₄⟩, hrows₄, hlength₄⟩ :=
    hs₃.comes_to_commit hmax hwithin hd₃ rfl ⟨t₃, ht₃, hlocked₃⟩
  obtain ⟨s₅, hstep₅, hs₅, hless, hlength₅⟩ :=
    hs₄.commit_decreases hmax hd₄ hcommit ht₄ (hrows₄ ▸ hr₃) hlocked₄
  have hcommits : s₄.commits (.perform 0 .resolves 0) = some d₄ :=
    (hs₄.unaborted rfl hd₄).1 hcommit .resolves 0 rfl
  have hrows : s₄.db.rows = s.db.rows := hrows₄.trans (hrows₃.trans hrows₁)
  have hcount : s₅.db.rows.length = s₄.db.rows.length := by
    match (hs₄.rowsStep hstep₅).1 with
    | .same hnone _ _ | .enqueued hnone _ _ _ _ => exact nomatch hcommits.symm.trans hnone
    | .committed _ _ _ _ _ _ _ _ hrows _ => rw [hrows, List.length_map]
  rw [hrows] at hless hcount
  exact ⟨s₅, ((hreach₂.trans hreach₃).trans hreach₄).tail (resolves_fine s₄ 0 0).2 hstep₅, hless,
    hcount, hlength₅.trans (hlength₄.trans (hlength₃.trans hlength₁))⟩

theorem Retryable.can_publish {N : ℕ} (hmax : 1 ≤ D.maxAttempts) (hbatch : 0 < D.batch 0)
    {v : Messaging.EventPayload}
    (hvalid : Messaging.parseEvent D.z row.routingKey row.payload = .ok v)
    (hs : Inv D (fun _ => False) s) (h : Retryable row k s) (hk : k < D.maxAttempts)
    (hlt : 0 < s.db.txns.length)
    (hN : (s.db.rows.map (attemptsLeft D.maxAttempts)).sum ≤ N) :
    ∃ s', Transition.Reaches D.step (fun u a => u.accepts a = true) s s' ∧
      s'.db.rows.length = s.db.rows.length ∧
      ∃ r ∈ s'.db.rows, SameEvent row r ∧ r.status = .published := by
  -- batch after batch, each with fewer attempts left
  induction N using Nat.strongRecOn generalizing s with
  | ind N ih =>
  obtain ⟨r, hr, hsame, hfailed⟩ := h.not_failed hs hk
  match hstatus : r.status with
  | .failed => exact absurd hstatus hfailed
  | .published => exact ⟨s, .refl s, rfl, r, hr, hsame, hstatus⟩
  | .pending =>
    obtain ⟨s₁, hreach₁, hless, hrows₁, hlength₁⟩ := hs.drains hmax hbatch hlt hr hstatus
    obtain ⟨s₂, hreach₂, hrows₂, hfinal⟩ := ih _ (hless.trans_le hN) (hs.run hmax nofun hreach₁)
      (h.run hmax hvalid hs hreach₁) (hlength₁ ▸ hlt) le_rfl
    exact ⟨s₂, hreach₁.trans hreach₂, hrows₂.trans hrows₁, hfinal⟩

/-- From every state there is a way on which the broker accepts every publish and the row is
published. -/
theorem Sendable.can_publish {N : ℕ} (hmax : 1 ≤ D.maxAttempts) (hbatch : 0 < D.batch 0)
    {v : Messaging.EventPayload}
    (hvalid : Messaging.parseEvent D.z row.routingKey row.payload = .ok v)
    (hs : Inv D (fun _ => False) s) (h : Sendable row s) (hlt : 0 < s.db.txns.length)
    (hN : (s.db.rows.map (attemptsLeft D.maxAttempts)).sum ≤ N) :
    ∃ s', Transition.Reaches D.step (fun u a => u.accepts a = true) s s' ∧
      ∃ r ∈ s'.db.rows, SameEvent row r ∧ r.status = .published := by
  obtain ⟨s', hreach, -, hpublished⟩ :=
    (sendable_iff.mp h).can_publish hmax hbatch hvalid hs hmax hlt hN
  exact ⟨s', hreach, hpublished⟩

end Progress

/-! ## What the contract does not accept -/

section Valid

variable {D : Deployment} {s s' s₁ : OutboxState} {i : ℕ} {d : Drain} {outcome : Outcome} {clock : ℕ}

/-- What the broker has confirmed passes its contract. -/
def ConfirmedValid (D : Deployment) (s : OutboxState) : Prop :=
  ∀ p ∈ s.confirmed, ∃ v, Messaging.parseEvent D.z p.routingKey p.content = .ok v

theorem ConfirmedValid.of_eq (h : ConfirmedValid D s) (heq : s'.confirmed = s.confirmed) :
    ConfirmedValid D s' := by
  intro p hp
  rw [heq] at hp
  exact h p hp

theorem runUpdate_confirmed {t : OutboxTxn} {id : String} {data : OutboxUpdate}
    {r : Except JsError OutboxEvent} (h : s.runUpdate i clock t id data = some (s₁, r)) :
    s₁.confirmed = s.confirmed := by
  unfold OutboxState.runUpdate at h
  split at h
  · exact nomatch h
  · split at h <;> (rw [← (Prod.mk.inj (Option.some.inj h)).1])

theorem ConfirmedValid.execute (h : ConfirmedValid D s) {c : RelayCall}
    {r : OutboxState × Except JsError c.Reply} (hr : D.execute s i d outcome clock c = some r) :
    ConfirmedValid D r.1 := by
  match c with
  | .begin =>
    match outcome with
    | .resolves | .rejects e | .unanswered e =>
      obtain rfl := Option.some.inj hr
      exact h
  | .claimPending limit =>
    refine statement_keeps h (fun t => h) (fun t ht => h.of_eq ?_) hr
    rw [← (Prod.mk.inj (Option.some.inj ht)).1]
    rfl
  | .publish routingKey payload messageId requestId =>
    obtain rfl := Option.some.inj hr
    rcases @runPublish_cases D s outcome routingKey payload messageId requestId with
      ⟨e, he⟩ | ⟨v, pub, hparse, -, hkey, hcontent, -, hconfirm⟩
    · rw [he]
      exact h
    · rw [hconfirm]
      intro p hp
      rcases List.mem_append.mp hp with hold | hnew
      · exact h p hold
      · rw [List.mem_singleton.mp hnew, hkey, hcontent]
        exact ⟨v, Messaging.parseEvent_toJson hparse⟩
  | .update id data =>
    exact statement_keeps h (fun t => h) (fun t ht => h.of_eq (runUpdate_confirmed ht)) hr
  | .commit =>
    obtain rfl := Option.some.inj hr
    refine h.of_eq ?_
    show (s.runCommit i d outcome).1.confirmed = s.confirmed
    unfold OutboxState.runCommit
    split
    · rfl
    · split
      · rfl
      · split <;> rfl
  | .rollback =>
    obtain rfl := Option.some.inj hr
    exact h

theorem ConfirmedValid.step (h : ConfirmedValid D s) {a : RelayAction}
    (hstep : D.step s a = some s') : ConfirmedValid D s' := by
  match a with
  | .enqueue data id randomUUID createdAt =>
    obtain ⟨-, rfl⟩ := enqueue_eq_some hstep
    exact h
  | .start i =>
    obtain ⟨-, -, rfl⟩ := start_eq_some hstep
    exact h
  | .finish i =>
    obtain ⟨-, rfl⟩ := finish_eq_some hstep
    exact h
  | .timeout i | .crash i | .tick ms =>
    obtain rfl := Option.some.inj hstep
    exact h
  | .perform i outcome clock =>
    have hperform : D.perform s i outcome clock = some s' := hstep
    unfold Deployment.perform at hperform
    split at hperform
    · exact nomatch hperform
    split at hperform
    · obtain ⟨r, hr, rfl⟩ := Option.map_eq_some_iff.mp hperform
      exact (h.execute hr).of_eq rfl
    · exact nomatch hperform

/-- A row whose payload fails its contract is never published, whatever the broker does. -/
theorem published_valid (hmax : 1 ≤ D.maxAttempts) {n : ℕ}
    {ok : OutboxState → RelayAction → Prop} (hs : Transition.Reaches D.step ok (.init n) s)
    {r : OutboxEvent} (hr : r ∈ s.db.rows) (hpublished : r.status = .published) :
    ∃ v, Messaging.parseEvent D.z r.routingKey r.payload = .ok v := by
  have hvalid : ConfirmedValid D s := hs.invariant nofun fun _ _ _ hu _ hstep => hu.step hstep
  have hInv : Inv D (fun _ => False) s := inv_init.run hmax nofun hs
  obtain ⟨p, hp, -, hkey, hcontent⟩ := (hInv.rows r hr).published hpublished
  rw [← hkey, ← hcontent]
  exact hvalid p hp

end Valid

end NestFastify.Outbox
