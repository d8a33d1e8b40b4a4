import NestFastify.Outbox.RelayOutcomes

/-!
# The outbox in every run

Every step of the relays keeps the invariant, so it holds in every run; and what it says about the
committed rows, in any run, and in one in which no transaction is aborted.
-/

namespace NestFastify.Outbox

open Messaging (Publication)

section Steps

variable {D : Deployment} {q : ℕ → Prop} {s s' s₁ : OutboxState} {d : Drain} {p : RelayPoint} {i : ℕ}
  {outcome : Outcome} {clock : ℕ}

/-! ## What a step can do -/

/-- A row is inserted when its id and its message id are new. -/
theorem enqueue_eq_some {row : OutboxEvent} (h : s.enqueue row = some s') :
    (row.id ∉ s.db.rows.map OutboxEvent.id ∧ row.messageId ∉ s.db.rows.map OutboxEvent.messageId) ∧
      s' = { s with db := s.db.insert row } := by
  unfold OutboxState.enqueue at h
  by_cases hfresh : row.id ∉ s.db.rows.map OutboxEvent.id ∧
    row.messageId ∉ s.db.rows.map OutboxEvent.messageId
  · rw [if_pos hfresh] at h
    exact ⟨hfresh, (Option.some.inj h).symm⟩
  · rw [if_neg hfresh] at h
    exact nomatch h

/-- A relay that is idle starts a drain. -/
theorem start_eq_some (h : D.start s i = some s') : i < s.db.txns.length ∧ s.drain i = none ∧
    s' = { s with drain := Function.update s.drain i (some ⟨(D.relay i).drainOnce, [], []⟩) } := by
  unfold Deployment.start at h
  by_cases hidle : i < s.db.txns.length ∧ (s.drain i).isNone = true
  · rw [if_pos hidle] at h
    exact ⟨hidle.1, Option.isNone_iff_eq_none.mp hidle.2, (Option.some.inj h).symm⟩
  · rw [if_neg hidle] at h
    exact nomatch h

/-- A drain that has settled is over. -/
theorem finish_eq_some (h : s.finish i = some s') :
    (∃ d result, s.drain i = some d ∧ d.code.view = .settled result) ∧
      s' = { s with drain := Function.update s.drain i none } := by
  unfold OutboxState.finish at h
  match hd : s.drain i with
  | none =>
    simp only [hd] at h
    exact nomatch h
  | some d =>
    simp only [hd] at h
    match hview : d.code.view with
    | .settled result =>
      simp only [hview] at h
      exact ⟨⟨d, result, rfl, hview⟩, (Option.some.inj h).symm⟩
    | .awaits c k =>
      simp only [hview] at h
      exact nomatch h
    | .running =>
      simp only [hview] at h
      exact nomatch h

/-- A step of drain `i` settles the call that its point awaits. -/
theorem perform_cases (hs : Inv D q s) (h : D.perform s i outcome clock = some s') :
    ∃ d p c k r, s.drain i = some d ∧ d.code = p.program (D.relay i) ∧ DrainInv D q s i d p ∧
      p.view (D.relay i) = .awaits c k ∧ D.execute s i d outcome clock c = some r ∧
      s' = OutboxState.resume s i d c (fun x => (k x).program (D.relay i)) r := by
  unfold Deployment.perform at h
  match hd : s.drain i with
  | none =>
    simp only [hd] at h
    exact nomatch h
  | some d =>
    simp only [hd] at h
    obtain ⟨p, hcode, hI⟩ := hs.drain hd
    rw [hcode, RelayPoint.view_program] at h
    match hview : p.view (D.relay i) with
    | .awaits c k =>
      rw [hview] at h
      obtain ⟨r, hr, rfl⟩ := Option.map_eq_some_iff.mp h
      exact ⟨d, p, c, k, r, rfl, hcode, hI, hview, hr, rfl⟩
    | .settled result =>
      rw [hview] at h
      exact nomatch h
    | .running =>
      rw [hview] at h
      exact nomatch h

/-- A drain at a point awaits the call of that point. -/
theorem awaited_eq {c : RelayCall} {k : Except JsError c.Reply → RelayPoint}
    (hd : s.drain i = some d) (hcode : d.code = p.program (D.relay i))
    (hview : p.view (D.relay i) = .awaits c k) : s.awaited i = some c := by
  unfold OutboxState.awaited
  simp only [hd, hcode, RelayPoint.view_program, hview]
  rfl

/-- Only one point commits. -/
theorem eq_committing {this : OutboxRelayService} {k : Except JsError Unit → RelayPoint}
    (hview : p.view this = .awaits .commit k) : p = .committing := by
  match p with
  | .committing => rfl
  | .beginning | .claiming | .publishing _ _ | .marking _ _ | .counting _ _ | .failing _ _
  | .rollingBack _ | .settled _ => exact nomatch hview

/-- Only the points after an error roll back. -/
theorem eq_rollingBack {this : OutboxRelayService} {k : Except JsError Unit → RelayPoint}
    (hview : p.view this = .awaits .rollback k) : ∃ e, p = .rollingBack e := by
  match p with
  | .rollingBack e => exact ⟨e, rfl⟩
  | .beginning | .claiming | .publishing _ _ | .marking _ _ | .counting _ _ | .failing _ _
  | .committing | .settled _ => exact nomatch hview

/-- What a drain awaits its code shows. -/
theorem view_of_awaited {c : RelayCall} (hd : s.drain i = some d) (h : s.awaited i = some c) :
    ∃ k, d.code.view = .awaits c k := by
  unfold OutboxState.awaited at h
  simp only [hd] at h
  split at h
  · rename_i c' k hview
    obtain rfl := Option.some.inj h
    exact ⟨k, hview⟩
  · exact nomatch h

/-- The point of a drain that awaits a call. -/
theorem point_of_awaited {c : RelayCall} (hd : s.drain i = some d)
    (hcode : d.code = p.program (D.relay i)) (h : s.awaited i = some c) :
    ∃ k, p.view (D.relay i) = .awaits c k := by
  obtain ⟨k, hview⟩ := view_of_awaited hd h
  rw [hcode, RelayPoint.view_program] at hview
  cases hpoint : p.view (D.relay i) with
  | awaits c' k' =>
    rw [hpoint] at hview
    cases hview
    exact ⟨k', rfl⟩
  | settled result =>
    rw [hpoint] at hview
    cases hview
  | running =>
    rw [hpoint] at hview
    cases hview

/-- In a run without aborts the call that drain `i` awaits does not abort its transaction. -/
theorem not_of_abortsAt (hok : q i → s.aborts (.perform i outcome clock) = false) {c : RelayCall}
    {k : Except JsError c.Reply → RelayPoint} (hd : s.drain i = some d)
    (hcode : d.code = p.program (D.relay i)) (hview : p.view (D.relay i) = .awaits c k)
    (hc : outcome.abortsAt c = true) : ¬ q i := by
  intro hq
  have haborts : s.aborts (.perform i outcome clock) = true := by
    show (s.awaited i).any outcome.abortsAt = true
    rw [awaited_eq hd hcode hview]
    exact hc
  rw [hok hq] at haborts
  exact Bool.noConfusion haborts

section Points

variable {c : RelayCall} {k : Except JsError c.Reply → RelayPoint}
  {r : OutboxState × Except JsError c.Reply}

/-- A statement settles, whatever the drain does with an error. -/
theorem Inv.statement (hs : Inv D q s) (hI : DrainInv D q s i d p) (hin : p.inTransaction = true)
    (hq : outcome ≠ .resolves → ¬ q i)
    {run : OutboxTxn → Option (OutboxState × Except JsError c.Reply)}
    (hr : s.statement i outcome run = some r)
    (herror : ∀ e, k (.error e) ≠ .beginning ∧ ((k (.error e)).inTransaction = true ∨
      ∃ e', k (.error e) = .rollingBack e') ∧ (k (.error e)).batch ⊆ p.batch)
    (hrun : ∀ t, s.db.txn? i = some t → t.failed = false → run t = some r →
      Inv D q (s.resume i d c (fun x => (k x).program (D.relay i)) r)) :
    Inv D q (s.resume i d c (fun x => (k x).program (D.relay i)) r) := by
  obtain ⟨s₁, reply⟩ := r
  rcases statement_cases hr with ⟨rfl, ⟨e, rfl⟩, hfailed⟩ | ⟨t, e, ht, houtcome, rfl, rfl⟩ |
    ⟨t, ht, hhealthy, -, hrun'⟩
  · have hq : ¬ q i := by
      intro hq
      obtain ⟨t, ht, hhealthy⟩ := hI.opened hq hin
      rw [hfailed t ht] at hhealthy
      exact Bool.noConfusion hhealthy
    exact hs.fails hq hI (Or.inl ⟨rfl, hfailed⟩) (herror e).1 (herror e).2.1 (herror e).2.2 rfl
  · exact hs.fails (hq houtcome) hI (Or.inr ⟨t, ht, rfl⟩) (herror e).1 (herror e).2.1 (herror e).2.2 rfl
  · exact hrun t ht hhealthy hrun'

end Points

/-- The first call of a drain opens its transaction. -/
theorem Inv.begins (hs : Inv D q s) (hI : DrainInv D q s i d .beginning)
    {k : Except JsError Unit → RelayPoint} (hok : k (.ok ()) = .claiming)
    (herror : ∀ e, k (.error e) = .settled (.error e)) {r : OutboxState × Except JsError Unit}
    (hr : D.execute s i d outcome clock .begin = some r) :
    Inv D q (s.resume i d .begin (fun x => (k x).program (D.relay i)) r) := by
  obtain ⟨hnone, hpublished, hrejected⟩ := hI.beginning rfl
  -- an open that is not answered leaves no transaction that the drain could use
  match outcome with
  | .resolves =>
    obtain rfl := Option.some.inj hr
    have hopened : (s.db.begin i s.now).txn? i = some ⟨s.now, false, [], fun _ => none⟩ :=
      RowStore.txn?_setTxn_self hI.lt
    refine hs.of_setTxn (i := i) rfl (fun j hj => Function.update_of_ne hj ..) rfl rfl
      (hs.sound.begin i s.now) (fun t ht k hk => ?_) (fun _ t ht => ?_)
      (.intro (Function.update_self ..) rfl ?_)
    · rw [← Option.some.inj ht] at hk
      exact absurd hk List.not_mem_nil
    · exact nomatch hnone.symm.trans ht
    · show DrainInv D q _ i _ (k (.ok ()))
      rw [hok]
      refine .running ?_ hopened rfl rfl ?_
      · show i < (s.db.txns.set i _).length
        rw [List.length_set]
        exact hI.lt
      · constructor
        · exact fun _ => rfl
        · exact List.nodup_nil
        · nofun
        · nofun
        · exact fun r _ => .refl r
        · exact fun _ _ h => absurd h List.not_mem_nil
        · show d.published.Nodup
          rw [hpublished]
          exact List.nodup_nil
        · show d.rejected.Nodup
          rw [hrejected]
          exact List.nodup_nil
        · show ∀ m ∈ d.rejected, _
          rw [hrejected]
          nofun
        · show ∀ m ∈ d.published, _
          rw [hpublished]
          nofun
        · exact fun _ _ h => absurd h List.not_mem_nil
        · exact fun _ _ _ h => absurd h List.not_mem_nil
  | .rejects e | .unanswered e =>
    obtain rfl := Option.some.inj hr
    refine hs.of_relay (i := i) rfl rfl (fun j hj => ⟨Function.update_of_ne hj .., rfl⟩) rfl rfl
      hs.sound (hs.pending i) (fun _ t ht => ⟨t, ht, List.Subset.refl _⟩)
      (.intro (Function.update_self ..) rfl ?_)
    show DrainInv D q _ i _ (k (.error e))
    rw [herror]
    exact .ended hI.lt nofun rfl hnone

/-- A claim keeps the invariant. -/
theorem Inv.claims (hs : Inv D q s) (hI : DrainInv D q s i d .claiming)
    (hq : outcome ≠ .resolves → ¬ q i) {limit : ℕ} {r : OutboxState × Except JsError (List OutboxEvent)}
    (hr : D.execute s i d outcome clock (.claimPending limit) = some r) :
    Inv D q (s.resume i d (.claimPending limit)
      (fun x => (RelayPoint.orRollback RelayPoint.next x).program (D.relay i)) r) := by
  refine @Inv.statement _ _ _ _ _ _ _ (.claimPending limit) (RelayPoint.orRollback RelayPoint.next)
    r hs hI rfl hq _ hr (fun e => ⟨nofun, Or.inr ⟨e, rfl⟩, nofun⟩) fun t ht hfailed hrun => ?_
  obtain rfl := Option.some.inj hrun
  have hh := hI.healthy t ht hfailed rfl
  refine hs.goes_on hI ht (hs.sound.claim ht fun r hr => (hh.same r hr).id) ?_
    (List.subset_append_left _ _) hfailed (inTransaction_next _)
    (hh.claim hs ht) (by rfl) (by rfl) (by rfl)
  intro k hk
  rcases List.mem_append.mp hk with hold | hnew
  · exact hs.pending i t ht k hold
  · obtain ⟨r, hr, rfl⟩ := List.mem_map.mp hnew
    obtain ⟨hmem, hpending, -⟩ := hh.mem_claim hs ht hr
    exact ⟨r, hmem, rfl, hpending⟩

/-- An update of the row under way. `f` is where the drain goes on. -/
theorem Inv.updates {row : OutboxEvent} {data : OutboxUpdate}
    {k : Except JsError OutboxEvent → RelayPoint} (hs : Inv D q s) (hI : DrainInv D q s i d p)
    (hin : p.inTransaction = true) (hrow : row ∈ p.batch) (hq : outcome ≠ .resolves → ¬ q i)
    {r : OutboxState × Except JsError OutboxEvent}
    (hr : D.execute s i d outcome clock (.update row.id data) = some r)
    (herror : ∀ e, k (.error e) ≠ .beginning ∧ ((k (.error e)).inTransaction = true ∨
      ∃ e', k (.error e) = .rollingBack e') ∧ (k (.error e)).batch ⊆ p.batch)
    (hin' : ∀ v, (k (.ok v)).inTransaction = true)
    (hafter : ∀ t, Healthy D q s t d p → Healthy D q s
      (written t row (data.apply clock (RowStore.see OutboxEvent.id t row))) d
      (k (.ok (data.apply clock (RowStore.see OutboxEvent.id t row))))) :
    Inv D q (s.resume i d (.update row.id data) (fun x => (k x).program (D.relay i)) r) := by
  refine @Inv.statement _ _ _ _ _ _ _ (.update row.id data) k r hs hI hin hq _ hr herror
    fun t ht hfailed hrun => ?_
  obtain ⟨s₁, reply⟩ := r
  have hh := hI.healthy t ht hfailed hin
  obtain ⟨hmem, hlocked⟩ := hh.claimed row hrow
  obtain ⟨rfl, rfl⟩ := runUpdate_eq hs hmem hrun
  refine hs.goes_on hI ht (hs.sound.update ht hlocked row (data.apply clock)) ?_
    (List.subset_append_left _ _) hfailed (hin' _) (hafter t hh) (by rfl) (by rfl)
    (by rfl)
  intro k hk
  rcases List.mem_append.mp hk with hold | hnew
  · exact hs.pending i t ht k hold
  · rw [List.mem_singleton.mp hnew]
    exact hs.pending i t ht _ hlocked

/-- A publish keeps it, whether it is confirmed or not. -/
theorem Inv.publishes {row : OutboxEvent} {rest : List OutboxEvent} (hs : Inv D q s)
    (hI : DrainInv D q s i d (.publishing row rest)) {k : Except JsError Unit → RelayPoint}
    (hok : ∀ a, k (.ok a) = .marking row rest) (herror : ∀ e, k (.error e) = .counting row rest)
    {r : OutboxState × Except JsError Unit} (hr : D.execute s i d outcome clock
      (.publish row.routingKey row.payload row.messageId row.requestId) = some r) :
    Inv D q (s.resume i d (.publish row.routingKey row.payload row.messageId row.requestId)
      (fun x => (k x).program (D.relay i)) r) := by
  obtain rfl := Option.some.inj hr
  rcases @runPublish_cases D s outcome row.routingKey row.payload row.messageId row.requestId with
    ⟨e, he⟩ | ⟨validated, pub, hparse, hmessage, hkey, hcontent, -, hconfirm⟩
  · rw [he]
    refine hs.rejects hI ?_
    show (⟨(k (.error e)).program (D.relay i), _, _⟩ : Drain) = _
    rw [herror]
    rfl
  · rw [hconfirm]
    refine hs.confirms hI hmessage (fun hrow => ?_) ?_
    swap
    · show (⟨(k (.ok ())).program (D.relay i), _, _⟩ : Drain) = _
      rw [hok]
      rfl
    obtain ⟨payload, hpayload⟩ := hs.typed row hrow
    rw [hpayload] at hparse
    rw [Messaging.eq_of_parseEvent_toJson hparse] at hcontent
    exact ⟨hmessage, hkey, hcontent.trans hpayload.symm⟩

/-- A relay ends its transaction without effect. -/
theorem Inv.rollsBack (hs : Inv D q s) (hq : q i → s.db.txn? i = none) {drain? : Option Drain}
    (hdrain : ∀ d', drain? = some d' → ∃ p', d'.code = p'.program (D.relay i) ∧
      ((p' ≠ .beginning ∧ p'.inTransaction = false ∧ i < s.db.txns.length) ∨
        DrainInv D q s i d' p')) :
    Inv D q { s with
      db := s.db.rollback i
      drain := Function.update s.drain i drain? } := by
  have hnone : (s.db.rollback i).txn? i = none := RowStore.txn?_rollback_self
  have hlength : (s.db.rollback i).txns.length = s.db.txns.length := List.length_set ..
  refine hs.of_setTxn (i := i) rfl (fun j hj => Function.update_of_ne hj ..) rfl rfl
    (hs.sound.rollback i) nofun (fun h t ht => nomatch (hq (h i)).symm.trans ht) ?_
  match drain? with
  | none => exact .idle (Function.update_self ..) hnone
  | some d' =>
    obtain ⟨p', hcode, hp'⟩ := hdrain d' rfl
    refine .intro (Function.update_self ..) hcode ?_
    rcases hp' with ⟨hne, hin, hlt⟩ | hI
    · exact .ended (hlength ▸ hlt) hne hin hnone
    · refine ⟨hlength ▸ hI.lt, hI.known, fun hp => ⟨hnone, (hI.beginning hp).2⟩,
        fun t ht => ?_, fun h hin => ?_, fun t ht => ?_⟩
      · exact nomatch hnone.symm.trans ht
      · obtain ⟨t, ht, -⟩ := hI.opened h hin
        exact nomatch (hq h).symm.trans ht
      · exact nomatch hnone.symm.trans ht

/-- The commit of a transaction that is over, that has failed, and of one that can commit. -/
theorem runCommit_cases (s : OutboxState) (i : ℕ) (d : Drain) (outcome : Outcome) :
    (s.db.txn? i = none ∧ s.runCommit i d outcome = (s, .error transactionClosed)) ∨
    ∃ t, s.db.txn? i = some t ∧
      ((t.failed = true ∧ s.runCommit i d outcome = ({ s with db := s.db.rollback i }, .ok ())) ∨
      (∃ e, outcome = .rejects e ∧
        s.runCommit i d outcome = ({ s with db := s.db.rollback i }, .error e)) ∨
      (t.failed = false ∧ outcome.abortsAt .commit = false ∧
        ∃ reply, s.runCommit i d outcome = (s.committed i d t, reply))) := by
  unfold OutboxState.runCommit
  match s.db.txn? i with
  | none => exact Or.inl ⟨rfl, rfl⟩
  | some t =>
    refine Or.inr ⟨t, rfl, ?_⟩
    match hfailed : t.failed with
    | true => exact Or.inl ⟨rfl, by simp only [hfailed, if_true]⟩
    | false =>
      simp only [hfailed, Bool.false_eq_true, if_false]
      match outcome with
      | .resolves => exact Or.inr (Or.inr ⟨trivial, rfl, _, rfl⟩)
      | .rejects e => exact Or.inr (Or.inl ⟨e, rfl, rfl⟩)
      | .unanswered e => exact Or.inr (Or.inr ⟨trivial, rfl, _, rfl⟩)

/-- A commit keeps it, unless it is lost. -/
theorem Inv.ends (hs : Inv D q s) (hI : DrainInv D q s i d .committing)
    (hq : (∃ e, outcome = .rejects e) → ¬ q i) {r : OutboxState × Except JsError Unit}
    (hr : D.execute s i d outcome clock .commit = some r) :
    Inv D q (s.resume i d .commit (fun x => (RelayPoint.orRollback
      (fun _ => .settled (.ok ())) x).program (D.relay i)) r) := by
  obtain rfl := Option.some.inj hr
  -- a commit that is a rollback
  have hrollsBack : ¬ q i → ∀ reply (p' : RelayPoint), p'.program (D.relay i) =
      (RelayPoint.orRollback (fun _ => .settled (.ok ())) reply).program (D.relay i) →
      p' ≠ .beginning → p'.inTransaction = false →
      Inv D q (s.resume i d .commit (fun x => (RelayPoint.orRollback
        (fun _ => .settled (.ok ())) x).program (D.relay i))
        ({ s with db := s.db.rollback i }, reply)) := by
    intro hq reply p' hcode hne hin
    refine hs.rollsBack (fun h => absurd h hq) fun d' hd' => ?_
    rw [← Option.some.inj hd']
    exact ⟨p', hcode.symm, Or.inl ⟨hne, hin, hI.lt⟩⟩
  rcases runCommit_cases s i d outcome with ⟨hnone, hcommit⟩ | ⟨t, ht, hcommit⟩
  · rw [hcommit]
    have hq : ¬ q i := by
      intro hq
      obtain ⟨t, ht, -⟩ := hI.opened hq rfl
      exact nomatch hnone.symm.trans ht
    have hne : RelayPoint.rollingBack transactionClosed ≠ .beginning := nofun
    have hfailed : ∀ t, s.db.txn? i = some t → t.failed = true := fun t ht =>
      nomatch hnone.symm.trans ht
    exact hs.fails hq hI (Or.inl ⟨rfl, hfailed⟩) hne (Or.inr ⟨_, rfl⟩) nofun rfl
  · rcases hcommit with ⟨hfailed, hcommit⟩ | ⟨e, he, hcommit⟩ | ⟨hfailed, -, reply, hcommit⟩
    · rw [hcommit]
      refine hrollsBack (fun hq => ?_) (.ok ()) (.settled (.ok ())) rfl nofun rfl
      obtain ⟨u, hu, hhealthy⟩ := hI.opened hq rfl
      rw [← Option.some.inj (ht.symm.trans hu), hfailed] at hhealthy
      exact Bool.noConfusion hhealthy
    · rw [hcommit]
      exact hrollsBack (hq ⟨e, he⟩) (.error e) (.rollingBack e) rfl nofun rfl
    · rw [hcommit]
      match reply with
      | .ok () =>
        have hne : RelayPoint.settled (.ok ()) ≠ .beginning := nofun
        exact hs.commits hI ht hfailed hne rfl rfl
      | .error e =>
        have hne : RelayPoint.rollingBack e ≠ .beginning := nofun
        exact hs.commits hI ht hfailed hne rfl rfl

/-! ## Steps and runs -/

/-- Every call of a drain keeps it. -/
theorem Inv.perform (hs : Inv D q s) (hok : q i → s.aborts (.perform i outcome clock) = false)
    (h : D.perform s i outcome clock = some s') : Inv D q s' := by
  obtain ⟨d, p, c, k, r, hd, hcode, hI, hview, hr, rfl⟩ := perform_cases hs h
  have habort : outcome.abortsAt c = true → ¬ q i := not_of_abortsAt hok hd hcode hview
  -- at each point of the drain, the call it makes there and where it goes on
  match p with
  | .beginning =>
    cases hview
    exact hs.begins hI (by rfl) (fun _ => by rfl) hr
  | .claiming =>
    cases hview
    exact hs.claims hI (fun h => habort (decide_eq_true h)) hr
  | .publishing row rest =>
    cases hview
    exact hs.publishes hI (fun _ => by rfl) (fun _ => by rfl) hr
  | .marking row rest =>
    cases hview
    refine hs.updates hI rfl List.mem_cons_self (fun h => habort (decide_eq_true h)) hr
      (fun e => ⟨nofun, Or.inl rfl, List.Subset.refl _⟩) (fun _ => inTransaction_next rest)
      fun t hh => ?_
    exact hh.marked hs
  | .counting row rest =>
    cases hview
    refine hs.updates hI rfl List.mem_cons_self (fun h => habort (decide_eq_true h)) hr
      (fun e => ⟨nofun, Or.inr ⟨e, rfl⟩, nofun⟩) (fun v => ?_) fun t hh => hh.counted hs _
    show (if D.maxAttempts ≤ v.attempts then RelayPoint.failing row rest
      else .next rest).inTransaction = true
    by_cases hlast : D.maxAttempts ≤ v.attempts
    · rw [if_pos hlast]
      rfl
    · rw [if_neg hlast]
      exact inTransaction_next rest
  | .failing row rest =>
    cases hview
    refine hs.updates hI rfl List.mem_cons_self (fun h => habort (decide_eq_true h)) hr
      (fun e => ⟨nofun, Or.inr ⟨e, rfl⟩, nofun⟩) (fun _ => inTransaction_next rest) fun t hh => ?_
    exact hh.gaveUp hs
  | .committing =>
    cases hview
    refine hs.ends hI (fun ⟨e, he⟩ => habort ?_) hr
    rw [he]
    rfl
  | .rollingBack e =>
    cases hview
    obtain rfl := Option.some.inj hr
    refine hs.rollsBack (fun hq => ?_) fun d' hd' => ?_
    · match ht : s.db.txn? i with
      | none => rfl
      | some t =>
        rcases hI.within t ht with hin | ⟨hnot, -⟩
        · exact Bool.noConfusion hin
        · exact absurd hq hnot
    · rw [← Option.some.inj hd']
      exact ⟨.settled (.error e), rfl, Or.inl ⟨nofun, rfl, hI.lt⟩⟩
  | .settled result => exact nomatch hview

/-- A row is enqueued: nobody has locked it, published it or counted an attempt for it. -/
theorem Inv.enqueues (hs : Inv D q s) (hmax : 1 ≤ D.maxAttempts) {data : EnqueueOutboxData}
    {id randomUUID : String} {createdAt : ℕ}
    (h : s.enqueue (PrismaOutboxRepository.enqueue id randomUUID createdAt data) = some s') :
    Inv D q s' := by
  generalize hrow : PrismaOutboxRepository.enqueue id randomUUID createdAt data = row at h
  obtain ⟨hfresh, rfl⟩ := enqueue_eq_some h
  obtain ⟨hid, hmessage⟩ := hfresh
  have hunlocked : ∀ i t, s.db.txn? i = some t → row.id ∉ t.locked := by
    intro i t ht hmem
    obtain ⟨r, hr, heq, -⟩ := hs.pending i t ht _ hmem
    exact hid (heq ▸ List.mem_map_of_mem hr)
  have hmem : ∀ r, r ∈ s.db.rows ++ [row] ↔ r ∈ s.db.rows ∨ r = row := by
    intro r
    rw [List.mem_append, List.mem_singleton]
  -- a recorded failure belongs to a row that is there, and message ids are unique
  have hcount : s.recorded.count row.messageId = 0 := by
    rw [List.count_eq_zero]
    intro hm
    obtain ⟨r, hr, heq⟩ := hs.recorded _ hm
    exact hmessage (heq ▸ List.mem_map_of_mem hr)
  have hstatus : row.status = .pending ∧ row.attempts = 0 := by
    rw [← hrow]
    exact ⟨rfl, rfl⟩
  have hnodup : ∀ f : OutboxEvent → String, (s.db.rows.map f).Nodup → f row ∉ s.db.rows.map f →
      ((s.db.rows ++ [row]).map f).Nodup := by
    intro f hf hnew
    rw [← List.concat_eq_append, List.map_concat]
    exact List.Nodup.concat hnew hf
  constructor
  · exact hs.sound.insert row
  · exact hnodup _ hs.ids hid
  · exact hnodup _ hs.messageIds hmessage
  · intro r hr
    rcases (hmem r).mp hr with hold | rfl
    · exact hs.typed r hold
    · exact ⟨data.payload, by rw [← hrow]; rfl⟩
  · intro r hr
    rcases (hmem r).mp hr with hold | rfl
    · exact hs.rows r hold
    · refine ⟨hstatus.2.trans hcount.symm, ?_, ?_, ?_⟩
      · rw [hstatus.1, hstatus.2]
        exact ⟨nofun, fun h => by omega⟩
      · rw [hstatus.2]
        exact Nat.zero_le _
      · rw [hstatus.1]
        nofun
  · intro i t ht k hk
    obtain ⟨r, hr, heq⟩ := hs.pending i t ht k hk
    exact ⟨r, (hmem r).mpr (Or.inl hr), heq⟩
  · intro m hm
    obtain ⟨r, hr, heq⟩ := hs.recorded m hm
    exact ⟨r, (hmem r).mpr (Or.inl hr), heq⟩
  · -- a relay does not see the row: its transaction has not locked it
    intro i
    refine (hs.relays i).frame rfl rfl rfl (fun r hr => ⟨r, (hmem r).mpr (Or.inl hr), .refl r⟩)
      fun t ht => ?_
    refine ⟨fun r hr => ?_, fun hsame r hr => ?_, List.Subset.refl _, fun _ _ _ => rfl,
      fun _ _ _ _ => rfl⟩
    · refine (hmem r).trans ⟨fun h => h.resolve_right ?_, Or.inl⟩
      rintro rfl
      exact hunlocked i t ht hr
    · rcases (hmem r).mp hr with hold | rfl
      · exact hsame r hold
      · rw [RowStore.see_of_not_locked hs.sound ht (hunlocked i t ht)]
        exact .refl r
  · intro hq p hp
    obtain ⟨r, hr, heq⟩ := hs.confirmed hq p hp
    exact ⟨r, (hmem r).mpr (Or.inl hr), heq⟩
  · intro hq r hr hfree
    rcases (hmem r).mp hr with hold | rfl
    · exact hs.sent hq r hold hfree
    · -- a letter with the message id of the row would belong to an older row
      rw [hstatus.1]
      refine List.countP_eq_zero.mpr fun p hp hsent => ?_
      obtain ⟨r', hr', heq⟩ := hs.confirmed hq p hp
      have hsame : r'.messageId = r.messageId :=
        Option.some.inj (heq.symm.trans (of_decide_eq_true hsent))
      exact hmessage (hsame ▸ List.mem_map_of_mem hr')

/-- A drain that starts keeps it. -/
theorem Inv.starts (hs : Inv D q s) (h : D.start s i = some s') : Inv D q s' := by
  obtain ⟨hlt, hidle, rfl⟩ := start_eq_some h
  have hnone := hs.idle hidle
  have hcode : (D.relay i).drainOnce = RelayPoint.beginning.program (D.relay i) := rfl
  refine hs.of_relay (i := i) rfl rfl (fun j hj => ⟨Function.update_of_ne hj .., rfl⟩) rfl rfl
    hs.sound (hs.pending i) (fun _ t ht => ⟨t, ht, List.Subset.refl _⟩)
    (.intro (Function.update_self ..) hcode ⟨hlt, nofun, fun _ => ⟨hnone, rfl, rfl⟩, ?_, ?_, ?_⟩)
  · exact fun t ht => nomatch hnone.symm.trans ht
  · exact fun _ h => Bool.noConfusion h
  · exact fun t ht => nomatch hnone.symm.trans ht

/-- A drain has settled once its transaction is over. -/
theorem Inv.finishes (hs : Inv D q s) (h : s.finish i = some s') : Inv D q s' := by
  obtain ⟨⟨d, result, hd, hview⟩, rfl⟩ := finish_eq_some h
  obtain ⟨p, hcode, hI⟩ := hs.drain hd
  rw [hcode, RelayPoint.view_program] at hview
  match p with
  | .settled result' =>
    have hnone : s.db.txn? i = none := hI.closed rfl (Or.inr nofun)
    exact hs.of_relay (i := i) rfl rfl (fun j hj => ⟨Function.update_of_ne hj .., rfl⟩) rfl rfl
      hs.sound (hs.pending i) (fun _ t ht => ⟨t, ht, List.Subset.refl _⟩)
      (.idle (Function.update_self ..) hnone)
  | .beginning | .claiming | .publishing _ _ | .marking _ _ | .counting _ _ | .failing _ _
  | .committing | .rollingBack _ => exact nomatch hview

/-- Every step keeps it. -/
theorem Inv.step (hs : Inv D q s) (hmax : 1 ≤ D.maxAttempts) {a : RelayAction}
    (hok : ∀ i, q i → a.relay = some i → s.aborts a = false) (h : D.step s a = some s') :
    Inv D q s' := by
  have hclosed : ∀ i, (q i → (s.db.txn? i).isSome = false) → q i → s.db.txn? i = none :=
    fun i hsome hq => by simpa using hsome hq
  match a with
  | .enqueue data id randomUUID createdAt => exact hs.enqueues hmax h
  | .start i => exact hs.starts h
  | .perform i outcome clock => exact hs.perform (fun hq => hok i hq rfl) h
  | .finish i => exact hs.finishes h
  | .timeout i =>
    obtain rfl := Option.some.inj h
    have hdrain : Function.update s.drain i (s.drain i) = s.drain := Function.update_eq_self ..
    have hat : ∀ d', s.drain i = some d' → ∃ p', d'.code = p'.program (D.relay i) ∧
        ((p' ≠ .beginning ∧ p'.inTransaction = false ∧ i < s.db.txns.length) ∨
          DrainInv D q s i d' p') := by
      intro d' hd'
      obtain ⟨p, hcode, hI⟩ := hs.drain hd'
      exact ⟨p, hcode, Or.inr hI⟩
    have hnew := hs.rollsBack (hclosed i fun hq => hok i hq rfl) hat
    rw [hdrain] at hnew
    exact hnew
  | .crash i =>
    obtain rfl := Option.some.inj h
    exact hs.rollsBack (hclosed i fun hq => hok i hq rfl) nofun
  | .tick ms =>
    obtain rfl := Option.some.inj h
    exact ⟨hs.sound, hs.ids, hs.messageIds, hs.typed, hs.rows, hs.pending, hs.recorded,
      fun i => (hs.relays i).frame rfl rfl rfl (fun r hr => ⟨r, hr, .refl r⟩)
        fun _ _ => .of_eq rfl rfl rfl, hs.confirmed, hs.sent⟩

/-- Nobody has locked a row that is published or has failed. -/
theorem Inv.unlocked (hs : Inv D q s) {r : OutboxEvent} (hr : r ∈ s.db.rows)
    (hstatus : r.status ≠ .pending) : Unlocked s r.id := by
  intro i t ht hlocked
  obtain ⟨r', hr', hid, hpending⟩ := hs.pending i t ht _ hlocked
  rw [hs.eq_of_id hr' hr hid] at hpending
  exact hstatus hpending

/-- An update of a transaction changes no committed row. -/
theorem runUpdate_frame {t : OutboxTxn} {id : String} {data : OutboxUpdate}
    {r : Except JsError OutboxEvent} (h : s.runUpdate i clock t id data = some (s₁, r)) :
    s₁.db.rows = s.db.rows ∧ s₁.recorded = s.recorded ∧
      s₁.db.txns.length = s.db.txns.length := by
  unfold OutboxState.runUpdate at h
  by_cases hlocked : s.db.lockedElsewhere i id = true
  · rw [if_pos hlocked] at h
    exact nomatch h
  · rw [if_neg hlocked] at h
    match hfind : s.db.rows.find? fun row => decide (row.id = id) with
    | none =>
      simp only [hfind] at h
      rw [← (Prod.mk.inj (Option.some.inj h)).1]
      exact ⟨rfl, rfl, rfl⟩
    | some row =>
      simp only [hfind] at h
      rw [← (Prod.mk.inj (Option.some.inj h)).1]
      exact ⟨rfl, rfl, List.length_set ..⟩

/-- Only a commit changes the committed rows and what is recorded. -/
theorem execute_frame {c : RelayCall} {r : OutboxState × Except JsError c.Reply}
    (h : D.execute s i d outcome clock c = some r) (hc : c ≠ .commit) :
    r.1.db.rows = s.db.rows ∧ r.1.recorded = s.recorded ∧
      r.1.db.txns.length = s.db.txns.length := by
  let P (u : OutboxState) : Prop := u.db.rows = s.db.rows ∧ u.recorded = s.recorded ∧
    u.db.txns.length = s.db.txns.length
  have hs : P s := ⟨rfl, rfl, rfl⟩
  have hfail : ∀ t, P { s with db := s.db.fail i t } := fun t => ⟨rfl, rfl, List.length_set ..⟩
  match c with
  | .begin =>
    match outcome with
    | .resolves =>
      obtain rfl := Option.some.inj h
      exact ⟨rfl, rfl, List.length_set ..⟩
    | .rejects e | .unanswered e =>
      obtain rfl := Option.some.inj h
      exact ⟨rfl, rfl, rfl⟩
  | .claimPending limit =>
    refine statement_keeps hs hfail (fun t hrun => ?_) h
    rw [← (Prod.mk.inj (Option.some.inj hrun)).1]
    exact ⟨rfl, rfl, List.length_set ..⟩
  | .publish routingKey payload messageId requestId =>
    obtain rfl := Option.some.inj h
    rcases @runPublish_cases D s outcome routingKey payload messageId requestId with
      ⟨e, he⟩ | ⟨-, pub, -, -, -, -, -, hconfirm⟩
    · rw [he]
      exact ⟨rfl, rfl, rfl⟩
    · rw [hconfirm]
      exact ⟨rfl, rfl, rfl⟩
  | .update id data =>
    exact statement_keeps hs hfail (fun t hrun => runUpdate_frame hrun) h
  | .commit => exact absurd rfl hc
  | .rollback =>
    obtain rfl := Option.some.inj h
    exact ⟨rfl, rfl, List.length_set ..⟩

/-- No call but the commit commits. -/
theorem commits_eq_none {c : RelayCall} (h : s.awaited i = some c) (hc : c ≠ .commit) :
    s.commits (.perform i outcome clock) = none := by
  simp only [OutboxState.commits, h]
  match c with
  | .commit => exact absurd rfl hc
  | .begin | .claimPending _ | .publish .. | .update .. | .rollback => rfl

/-- What a step does to the committed rows and to what is recorded. -/
inductive RowsStep (D : Deployment) (q : ℕ → Prop) (s : OutboxState) (a : RelayAction)
    (s' : OutboxState) : Prop
  | same (hcommits : s.commits a = none) (hrows : s'.db.rows = s.db.rows)
    (hrecorded : s'.recorded = s.recorded)
  | enqueued (hcommits : s.commits a = none) (row : OutboxEvent)
    (hfresh : row.messageId ∉ s.db.rows.map OutboxEvent.messageId)
    (hrows : s'.db.rows = s.db.rows ++ [row]) (hrecorded : s'.recorded = s.recorded)
  | committed (i : ℕ) (d : Drain) (t : OutboxTxn) (hrelay : a.relay = some i)
    (hcommits : s.commits a = some d) (hd : s.drain i = some d) (ht : s.db.txn? i = some t)
    (hhealthy : Healthy D q s t d .committing)
    (hrows : s'.db.rows = s.db.rows.map (RowStore.see OutboxEvent.id t))
    (hrecorded : s'.recorded = s.recorded ++ d.rejected)

/-- What a step does to the committed rows is one of these. -/
theorem Inv.rowsStep (hs : Inv D q s) {a : RelayAction} (h : D.step s a = some s') :
    RowsStep D q s a s' ∧ s'.db.txns.length = s.db.txns.length := by
  match a with
  | .enqueue data id randomUUID createdAt =>
    obtain ⟨⟨-, hfresh⟩, rfl⟩ := enqueue_eq_some h
    exact ⟨.enqueued rfl _ hfresh rfl rfl, rfl⟩
  | .start i =>
    obtain ⟨-, -, rfl⟩ := start_eq_some h
    exact ⟨.same rfl rfl rfl, rfl⟩
  | .finish i =>
    obtain ⟨-, rfl⟩ := finish_eq_some h
    exact ⟨.same rfl rfl rfl, rfl⟩
  | .timeout i | .crash i =>
    obtain rfl := Option.some.inj h
    exact ⟨.same rfl rfl rfl, List.length_set ..⟩
  | .tick ms =>
    obtain rfl := Option.some.inj h
    exact ⟨.same rfl rfl rfl, rfl⟩
  | .perform i outcome clock =>
    obtain ⟨d, p, c, k, r, hd, hcode, hI, hview, hexecute, rfl⟩ := perform_cases hs h
    have hawaited := awaited_eq hd hcode hview
    -- rows change at a commit only
    by_cases hc : c = .commit
    swap
    · obtain ⟨hrows, hrecorded, hlength⟩ := execute_frame hexecute hc
      exact ⟨.same (commits_eq_none hawaited hc) hrows hrecorded, hlength⟩
    subst hc
    obtain rfl := eq_committing hview
    obtain rfl := Option.some.inj hexecute
    have hcommits : s.commits (.perform i outcome clock) =
        match s.db.txn? i with
        | some t => if t.failed || outcome.abortsAt .commit then none else some d
        | none => none := by
      simp only [OutboxState.commits, hawaited, hd]
      match s.db.txn? i with
      | none | some t => rfl
    rcases runCommit_cases s i d outcome with ⟨hnone, hcommit⟩ | ⟨t, ht, hcommit⟩
    · rw [hnone] at hcommits
      rw [hcommit]
      exact ⟨.same hcommits rfl rfl, rfl⟩
    · simp only [ht] at hcommits
      rcases hcommit with ⟨hfailed, hcommit⟩ | ⟨e, rfl, hcommit⟩ | ⟨hfailed, hok, reply, hcommit⟩
      -- a transaction that has failed, and a commit that the database rejects, change nothing
      · rw [hcommit]
        refine ⟨.same (hcommits.trans ?_) rfl rfl, List.length_set ..⟩
        rw [hfailed]
        rfl
      · rw [hcommit]
        refine ⟨.same (hcommits.trans ?_) rfl rfl, List.length_set ..⟩
        exact if_pos (Bool.or_true _)
      · rw [hcommit]
        refine ⟨.committed i d t rfl (hcommits.trans ?_) hd ht (hI.healthy t ht hfailed rfl) rfl rfl,
          List.length_set ..⟩
        rw [hfailed, hok]
        rfl

/-- A row that is published or has failed stays as it is. -/
theorem Inv.keeps (hs : Inv D q s) {a : RelayAction} (h : D.step s a = some s') {r : OutboxEvent}
    (hr : r ∈ s.db.rows) (hstatus : r.status ≠ .pending) : r ∈ s'.db.rows := by
  match (hs.rowsStep h).1 with
  | .same _ hrows _ =>
    rw [hrows]
    exact hr
  | .enqueued _ row _ hrows _ =>
    rw [hrows]
    exact List.mem_append_left _ hr
  | .committed i d t _ _ _ ht _ hrows _ =>
    rw [hrows]
    refine List.mem_map.mpr ⟨r, hr, ?_⟩
    exact RowStore.see_of_not_locked hs.sound ht (hs.unlocked hr hstatus i t ht)

/-- A row that a transaction has locked has been sent once at most while nothing aborts. -/
theorem Inv.sentCount_le (hs : Inv D q s) (hq : ∀ j, q j) {r : OutboxEvent} (hr : r ∈ s.db.rows) :
    sentCount s.confirmed r.messageId ≤ 1 := by
  by_cases hfree : Unlocked s r.id
  · rw [hs.sent hq r hr hfree]
    split <;> omega
  · simp only [Unlocked, not_forall, not_not] at hfree
    obtain ⟨i, t, ht, hlocked⟩ := hfree
    match hd : s.drain i with
    | none => exact nomatch (hs.idle hd).symm.trans ht
    | some d =>
      obtain ⟨p, -, hI⟩ := hs.drain hd
      have hin : p.inTransaction = true := (hI.within t ht).resolve_right fun h => h.1 (hq i)
      obtain ⟨u, hu, hfailed⟩ := hI.opened (hq i) hin
      obtain rfl := Option.some.inj (ht.symm.trans hu)
      rw [(hI.healthy t ht hfailed hin).sent hq r hr hlocked]
      split <;> omega

end Steps

section Runs

variable {D : Deployment} {q : ℕ → Prop} {n : ℕ} {s t : OutboxState}

/-- The invariant holds at first. -/
theorem inv_init : Inv D q (OutboxState.init n) := by
  have hnone : ∀ i, (OutboxState.init n).db.txn? i = none := by
    intro i
    show (List.replicate n (none : Option OutboxTxn))[i]?.join = none
    rw [List.getElem?_replicate]
    split <;> rfl
  constructor
  · constructor
    · exact fun i _ _ _ _ ht => nomatch (hnone i).symm.trans ht
    · exact fun i _ _ ht => nomatch (hnone i).symm.trans ht
  · exact List.nodup_nil
  · exact List.nodup_nil
  · nofun
  · nofun
  · exact fun i t ht => nomatch (hnone i).symm.trans ht
  · nofun
  · exact fun i => .idle rfl (hnone i)
  · nofun
  · nofun

/-- The invariant of a run, of which every step meets `ok`. -/
theorem Inv.run {ok : OutboxState → RelayAction → Prop} (hmax : 1 ≤ D.maxAttempts)
    (hok : ∀ i, q i → ∀ s a, ok s a → a.relay = some i → s.aborts a = false)
    (h : Transition.Reaches D.step ok s t) (hs : Inv D q s) : Inv D q t :=
  h.invariant hs fun u a _ hu ha hstep => hu.step hmax (fun i hq => hok i hq u a ha) hstep

/-- What is published or has failed stays so, and stays unlocked. -/
theorem Inv.final (hmax : 1 ≤ D.maxAttempts) (hs : Inv D (fun _ => False) s)
    (h : Transition.Reaches D.step (fun _ _ => True) s t) {r : OutboxEvent} (hr : r ∈ s.db.rows)
    (hstatus : r.status ≠ .pending) : r ∈ t.db.rows ∧ Unlocked t r.id := by
  have hboth : Inv D (fun _ => False) t ∧ r ∈ t.db.rows := by
    refine @Transition.Reaches.invariant _ _ _ _ _ _
      (fun u => Inv D (fun _ => False) u ∧ r ∈ u.db.rows) h ⟨hs, hr⟩ fun _ _ _ hu _ hstep => ?_
    exact ⟨hu.1.step hmax nofun hstep, hu.1.keeps hstep hu.2 hstatus⟩
  exact ⟨hboth.2, hboth.1.unlocked hboth.2 hstatus⟩

/-- Any number of relays, in any interleaving and with any failures. Of the committed rows,
those that are published have been confirmed by the broker, those that have failed have used up
their attempts, the attempts are the publishes that committed drains have seen rejected, and
what is no longer pending is never locked or changed again. While no transaction is aborted,
the broker confirms a row once at most, and one that fails not at all. -/
theorem relay_safe (hmax : 1 ≤ D.maxAttempts) (n : ℕ) :
    (∀ s, Transition.Reaches D.step (fun _ _ => True) (OutboxState.init n) s →
      ∀ r ∈ s.db.rows,
        (r.status = .published → ∃ p ∈ s.confirmed, Carries p r) ∧
        (r.status = .failed ↔ D.maxAttempts ≤ r.attempts) ∧
        r.attempts = s.recorded.count r.messageId ∧
        (r.status ≠ .pending → ∀ t, Transition.Reaches D.step (fun _ _ => True) s t →
          r ∈ t.db.rows ∧ Unlocked t r.id)) ∧
    ∀ s, Transition.Reaches D.step (fun s a => s.aborts a = false) (OutboxState.init n) s →
      ∀ r ∈ s.db.rows, sentCount s.confirmed r.messageId ≤ 1 ∧
        (r.status = .failed → sentCount s.confirmed r.messageId = 0) := by
  constructor
  · intro s hs r hr
    have hInv : Inv D (fun _ => False) s := inv_init.run hmax nofun hs
    have hrecorded := hInv.rows r hr
    exact ⟨hrecorded.published, hrecorded.failed, hrecorded.attempts,
      fun hstatus t ht => hInv.final hmax ht hr hstatus⟩
  · intro s hs r hr
    have hInv : Inv D (fun _ => True) s := inv_init.run hmax (fun _ _ _ _ ha _ => ha) hs
    refine ⟨hInv.sentCount_le (fun _ => trivial) hr, fun hfailed => ?_⟩
    have hfree := hInv.unlocked hr (by rw [hfailed]; nofun)
    rw [hInv.sent (fun _ => trivial) r hr hfree, hfailed]
    rfl

/-! ## Two relays -/

/-- Relays with the settings of `envSchema`, that give up after two attempts. -/
def twoAttempts : Deployment where
  z := ⟨fun _ => true, fun _ => true, fun _ => ""⟩
  eventsExchange := "app.events"
  maxAttempts := 2
  pollMs _ := 1000
  batch _ := 50

def createdNotification (messageId : String) : EnqueueOutboxData where
  routingKey := "notification.created"
  payload := .notificationCreated "u1" "hello"
  messageId := some messageId
  requestId := none
  typed := rfl

/-- The first relay publishes the first row, and the broker rejects the second one twice. -/
def oneRejected : List RelayAction :=
  [.enqueue (createdNotification "m1") "1" "" 0, .enqueue (createdNotification "m2") "2" "" 0,
    .start 0] ++ List.replicate 4 (.perform 0 .resolves 0) ++
  [.perform 0 (.rejects (.error "closed")) 0] ++ List.replicate 2 (.perform 0 .resolves 0) ++
  [.finish 0, .tick 5000, .start 1] ++ List.replicate 2 (.perform 1 .resolves 0) ++
  [.perform 1 (.rejects (.error "closed")) 0] ++ List.replicate 3 (.perform 1 .resolves 0) ++
  [.finish 1]

/-- One row is confirmed and published; the other one fails after two attempts. -/
theorem relay_safe_two :
    ∃ s, Transition.Reaches twoAttempts.step (fun s a => s.aborts a = false) (.init 2) s ∧
      (∃ r ∈ s.db.rows, r.status = .published ∧ ∃ p ∈ s.confirmed, Carries p r) ∧
      ∃ r ∈ s.db.rows, r.status = .failed ∧ 2 ≤ r.attempts ∧
        sentCount s.confirmed r.messageId = 0 := by
  have hrun : (Transition.run twoAttempts.step (fun s a => s.aborts a = false) (.init 2)
      oneRejected).map (fun s => (s.db.rows.any fun r => decide (r.status = .published)) &&
        s.db.rows.any fun r => decide (r.status = .failed)) = some true := by rfl
  obtain ⟨s, hs, htest⟩ := Transition.exists_reaches_of_run hrun
  simp only [Bool.and_eq_true, List.any_eq_true, decide_eq_true_eq] at htest
  obtain ⟨⟨r, hr, hpublished⟩, r', hr', hfailed⟩ := htest
  have hmax : 1 ≤ twoAttempts.maxAttempts := by decide
  have hsafe := relay_safe hmax 2
  refine ⟨s, hs, ⟨r, hr, hpublished, ?_⟩, r', hr', hfailed, ?_, ?_⟩
  · exact (hsafe.1 s (hs.mono fun _ _ _ => trivial) r hr).1 hpublished
  · exact (hsafe.1 s (hs.mono fun _ _ _ => trivial) r' hr').2.1.mp hfailed
  · exact (hsafe.2 s hs r' hr').2 hfailed

end Runs

end NestFastify.Outbox
