import NestFastify.Outbox.RelayInvariant

/-!
# One step of the relays

Every step keeps the invariant. A statement that rejects leaves a transaction that has failed or
is over, and then the drain is no longer `Healthy` but cannot commit either. So the cases that
count are those in which the next call of a drain resolves.
-/

namespace NestFastify.Outbox

open Messaging (Publication)

open RowStore (see)

section Steps

variable {D : Deployment} {q : ℕ → Prop} {s s' s₁ : OutboxState} {t t' : OutboxTxn} {d d' : Drain}
  {p p' : RelayPoint} {i : ℕ} {outcome : Outcome}

/-! ## Where the drain is afterwards -/

theorem RelayInv.intro (hdrain : s'.drain i = some d') (hcode : d'.code = p'.program (D.relay i))
    (h : DrainInv D q s' i d' p') : RelayInv D q s' i := by
  unfold RelayInv
  rw [hdrain]
  exact ⟨p', hcode, h⟩

theorem RelayInv.idle (hdrain : s'.drain i = none) (h : s'.db.txn? i = none) :
    RelayInv D q s' i := by
  unfold RelayInv
  rw [hdrain]
  exact h

/-- Without a transaction that can still commit. -/
theorem DrainInv.broken (hq : ¬ q i) (hlt : i < s'.db.txns.length) (hp : p' ≠ .beginning)
    (hin : p'.inTransaction = true ∨ ∃ e, p' = .rollingBack e)
    (hknown : ∀ row ∈ p'.batch, ∃ r ∈ s'.db.rows, SameEvent r row)
    (hfailed : ∀ t, s'.db.txn? i = some t → t.failed = true) : DrainInv D q s' i d' p' := by
  refine ⟨hlt, hknown, fun h => absurd h hp, fun t _ => ?_, fun h => absurd h hq, fun t ht hhealthy => ?_⟩
  · exact hin.imp_right fun he => ⟨hq, he⟩
  · rw [hfailed t ht] at hhealthy
    exact Bool.noConfusion hhealthy

theorem DrainInv.ended (hlt : i < s'.db.txns.length) (hp : p' ≠ .beginning)
    (hin : p'.inTransaction = false) (hnone : s'.db.txn? i = none) : DrainInv D q s' i d' p' := by
  have hbatch : p'.batch = [] := by
    match p' with
    | .beginning | .claiming | .committing | .rollingBack _ | .settled _ => rfl
    | .publishing _ _ | .marking _ _ | .counting _ _ | .failing _ _ => exact Bool.noConfusion hin
  refine ⟨hlt, by rw [hbatch]; nofun, fun h => absurd h hp, fun t ht => ?_, fun _ h => ?_,
    fun t ht => ?_⟩
  · rw [hnone] at ht
    exact nomatch ht
  · rw [hin] at h
    exact Bool.noConfusion h
  · rw [hnone] at ht
    exact nomatch ht

theorem DrainInv.running (hlt : i < s'.db.txns.length) (ht : s'.db.txn? i = some t')
    (hfailed : t'.failed = false) (hin : p'.inTransaction = true)
    (h : Healthy D q s' t' d' p') : DrainInv D q s' i d' p' := by
  refine ⟨hlt, fun row hrow => ⟨row, (h.claimed row hrow).1, .refl row⟩, fun hp => ?_,
    fun _ _ => Or.inl hin, fun _ _ => ⟨t', ht, hfailed⟩, fun u hu _ _ => ?_⟩
  · rw [hp] at hin
    exact Bool.noConfusion hin
  · rw [ht] at hu
    rw [← Option.some.inj hu]
    exact h

/-! ## Statements -/

/-- A statement rejects in a transaction that is over or has failed, or fails itself, or is
executed. -/
theorem statement_cases {α : Type} {run : OutboxTxn → Option (OutboxState × Except JsError α)}
    {r : Except JsError α} (h : OutboxState.statement s i outcome run = some (s₁, r)) :
    (s₁ = s ∧ (∃ e, r = .error e) ∧ ∀ t, s.db.txn? i = some t → t.failed = true) ∨
    (∃ t e, s.db.txn? i = some t ∧ outcome ≠ .resolves ∧ s₁ = { s with db := s.db.fail i t } ∧
      r = .error e) ∨
    ∃ t, s.db.txn? i = some t ∧ t.failed = false ∧ outcome = .resolves ∧ run t = some (s₁, r) := by
  unfold OutboxState.statement at h
  match ht : s.db.txn? i with
  | none =>
    simp only [ht] at h
    obtain ⟨rfl, rfl⟩ := Prod.mk.inj (Option.some.inj h)
    exact Or.inl ⟨rfl, ⟨_, rfl⟩, nofun⟩
  | some t =>
    simp only [ht] at h
    by_cases hfailed : t.failed = true
    · rw [if_pos hfailed] at h
      obtain ⟨rfl, rfl⟩ := Prod.mk.inj (Option.some.inj h)
      refine Or.inl ⟨rfl, ⟨_, rfl⟩, fun u hu => ?_⟩
      rw [← Option.some.inj hu]
      exact hfailed
    · rw [if_neg hfailed] at h
      match outcome with
      | .resolves => exact Or.inr (Or.inr ⟨t, rfl, by simpa using hfailed, rfl, h⟩)
      | .rejects e | .unanswered e =>
        obtain ⟨rfl, rfl⟩ := Prod.mk.inj (Option.some.inj h)
        exact Or.inr (Or.inl ⟨t, e, rfl, nofun, rfl, rfl⟩)

/-- A statement keeps what neither its own execution nor a failure of the transaction breaks. -/
theorem statement_keeps {P : OutboxState → Prop} {α : Type}
    {run : OutboxTxn → Option (OutboxState × Except JsError α)} {r : Except JsError α} (hs : P s)
    (hfail : ∀ t, P { s with db := s.db.fail i t }) (hrun : ∀ t, run t = some (s₁, r) → P s₁)
    (h : s.statement i outcome run = some (s₁, r)) : P s₁ := by
  rcases statement_cases h with ⟨rfl, -, -⟩ | ⟨t, e, -, -, rfl, -⟩ | ⟨t, -, -, -, ht⟩
  · exact hs
  · exact hfail t
  · exact hrun t ht

/-- The drain goes on without a transaction that can commit. -/
theorem Inv.fails (hs : Inv D q s) (hq : ¬ q i) (hI : DrainInv D q s i d p)
    (h : (s₁ = s ∧ ∀ t, s.db.txn? i = some t → t.failed = true) ∨
      ∃ t, s.db.txn? i = some t ∧ s₁ = { s with db := s.db.fail i t })
    (hp : p' ≠ .beginning) (hin : p'.inTransaction = true ∨ ∃ e, p' = .rollingBack e)
    (hbatch : p'.batch ⊆ p.batch) (hcode : d'.code = p'.program (D.relay i)) :
    Inv D q { s₁ with drain := Function.update s.drain i (some d') } := by
  have hother : ∀ j, j ≠ i → Function.update s.drain i (some d') j = s.drain j :=
    fun j hj => Function.update_of_ne hj ..
  have hself : Function.update s.drain i (some d') i = some d' := Function.update_self ..
  rcases h with ⟨rfl, hfailed⟩ | ⟨t, ht, rfl⟩
  · exact hs.of_relay (i := i) rfl rfl (fun j hj => ⟨hother j hj, rfl⟩) rfl rfl hs.sound
      (hs.pending i) (fun h => absurd (h i) hq)
      (.intro hself hcode (.broken hq hI.lt hp hin (fun row hrow => hI.known row (hbatch hrow)) hfailed))
  · refine hs.of_setTxn (i := i) rfl hother rfl rfl (hs.sound.fail ht) (fun u hu => ?_)
      (fun h => absurd (h i) hq) (.intro hself hcode (.broken hq ?_ hp hin
        (fun row hrow => hI.known row (hbatch hrow)) fun u hu => ?_))
    · rw [← Option.some.inj hu]
      exact hs.pending i t ht
    · show i < (s.db.txns.set i _).length
      rw [List.length_set]
      exact hI.lt
    · have hnew : (s.db.fail i t).txn? i = some { t with failed := true } :=
        RowStore.txn?_setTxn_self hI.lt
      rw [← Option.some.inj (hnew.symm.trans hu)]

/-- The drain goes on in its transaction. -/
theorem Inv.goes_on (hs : Inv D q s) (hI : DrainInv D q s i d p) (ht : s.db.txn? i = some t)
    (hsound : (s.db.setTxn i (some t')).Sound)
    (hpending : ∀ k ∈ t'.locked, ∃ r ∈ s.db.rows, r.id = k ∧ r.status = .pending)
    (hlocked : t.locked ⊆ t'.locked) (hfailed : t'.failed = false)
    (hin : p'.inTransaction = true) (hhealthy : Healthy D q s t' d p')
    (hpublished : d'.published = d.published) (hrejected : d'.rejected = d.rejected)
    (hcode : d'.code = p'.program (D.relay i)) :
    Inv D q { s with
      db := s.db.setTxn i (some t')
      drain := Function.update s.drain i (some d') } := by
  have hself : (s.db.setTxn i (some t')).txn? i = some t' := RowStore.txn?_setTxn_self hI.lt
  refine hs.of_setTxn (i := i) rfl (fun j hj => Function.update_of_ne hj ..) rfl rfl hsound
    (fun u hu => ?_) (fun _ u hu => ?_)
    (.intro (Function.update_self ..) hcode (.running ?_ hself hfailed hin
      ((hhealthy.congr hpublished hrejected).frame (.of_eq rfl rfl rfl))))
  · rw [← Option.some.inj hu]
    exact hpending
  · rw [ht] at hu
    rw [← Option.some.inj hu]
    exact ⟨t', rfl, hlocked⟩
  · show i < (s.db.txns.set i _).length
    rw [List.length_set]
    exact hI.lt

/-! ## claimPending -/

section Next

variable (rows : List OutboxEvent)

theorem inTransaction_next : (RelayPoint.next rows).inTransaction = true := by
  match rows with
  | [] => rfl
  | row :: rest => rfl

theorem batch_next : (RelayPoint.next rows).batch = rows := by
  match rows with
  | [] => rfl
  | row :: rest => rfl

theorem untried_next : (RelayPoint.next rows).untried = rows := by
  match rows with
  | [] => rfl
  | row :: rest => rfl

theorem unwritten_next : (RelayPoint.next rows).unwritten = rows := by
  match rows with
  | [] => rfl
  | row :: rest => rfl

theorem next_ne_claiming : RelayPoint.next rows ≠ .claiming := by
  match rows with
  | [] => nofun
  | row :: rest => nofun

theorem marks_next (id : String) : (RelayPoint.next rows).marks id = false := by
  match rows with
  | [] => rfl
  | row :: rest => rfl

theorem version_next {maxAttempts count : ℕ} {confirmed : List Publication} {r : OutboxEvent} :
    (RelayPoint.next rows).Version maxAttempts confirmed count r =
      Recorded maxAttempts confirmed count r := by
  match rows with
  | [] => rfl
  | row :: rest => rfl

end Next

/-- Before `claimPending` the transaction has done nothing. -/
theorem Healthy.fresh (hs : Inv D q s) (hh : Healthy D q s t d .claiming)
    (ht : s.db.txn? i = some t) :
    (∀ k, t.writes k = none) ∧ d.rejected = [] ∧ d.published = [] := by
  have hlocked : t.locked = [] := hh.claiming rfl
  refine ⟨fun k => hs.sound.writes i t k ht (by rw [hlocked]; exact List.not_mem_nil), ?_, ?_⟩
  · rw [List.eq_nil_iff_forall_not_mem]
    intro m hm
    obtain ⟨r, -, hr, -⟩ := hh.rejected m hm
    rw [hlocked] at hr
    exact absurd hr List.not_mem_nil
  · rw [List.eq_nil_iff_forall_not_mem]
    intro m hm
    obtain ⟨r, -, hr, -⟩ := hh.published m hm
    rw [hlocked] at hr
    exact absurd hr List.not_mem_nil

section Claim

variable {limit : ℕ} {r : OutboxEvent}

/-- What `claimPending` finds are rows as they are committed, pending, and locked by nobody. -/
theorem Healthy.mem_claim (hs : Inv D q s) (hh : Healthy D q s t d .claiming)
    (ht : s.db.txn? i = some t) (hr : r ∈ (OutboxState.claim s i t limit).2) :
    r ∈ s.db.rows ∧ r.status = .pending ∧ Unlocked s r.id := by
  obtain ⟨hwanted, r', hr', hsee, hfree⟩ := RowStore.mem_claim hr
  have hsame : see OutboxEvent.id t r' = r' := by
    rw [see, (hh.fresh hs ht).1]
    rfl
  rw [hsame] at hsee
  subst hsee
  refine ⟨hr', (of_decide_eq_true hwanted).1, fun j u hu hmem => ?_⟩
  by_cases hj : j = i
  · subst hj
    rw [← Option.some.inj (ht.symm.trans hu), hh.claiming rfl] at hmem
    exact absurd hmem List.not_mem_nil
  · rw [RowStore.lockedElsewhere_of_mem hj hu hmem] at hfree
    exact Bool.noConfusion hfree

theorem Healthy.claim (hs : Inv D q s) (hh : Healthy D q s t d .claiming)
    (ht : s.db.txn? i = some t) : Healthy D q s
      { t with locked := t.locked ++ (OutboxState.claim s i t limit).2.map OutboxEvent.id } d
      (.next (OutboxState.claim s i t limit).2) := by
  obtain ⟨hwrites, hrejected, hpublished⟩ := hh.fresh hs ht
  have hlocked : t.locked = [] := hh.claiming rfl
  have hsee : ∀ r, see OutboxEvent.id
      { t with locked := t.locked ++ (OutboxState.claim s i t limit).2.map OutboxEvent.id } r =
      r := by
    intro r
    show (t.writes r.id).getD r = r
    rw [hwrites]
    rfl
  have hclaim : ∀ r ∈ (OutboxState.claim s i t limit).2, r ∈ s.db.rows ∧ r.status = .pending ∧
      Unlocked s r.id := fun r hr => hh.mem_claim hs ht hr
  have hnodup : ((OutboxState.claim s i t limit).2.map OutboxEvent.id).Nodup :=
    RowStore.nodup_claim hs.ids fun r hr => (hh.same r hr).id
  have hmem : ∀ r ∈ s.db.rows, r.id ∈
      t.locked ++ (OutboxState.claim s i t limit).2.map OutboxEvent.id →
      r ∈ (OutboxState.claim s i t limit).2 := by
    intro r hr hid
    rw [hlocked, List.nil_append] at hid
    obtain ⟨r', hr', heq⟩ := List.mem_map.mp hid
    rwa [← hs.eq_of_id (hclaim r' hr').1 hr heq]
  generalize (OutboxState.claim s i t limit).2 = rows at *
  -- the transaction has written nothing yet: it sees every row as the database has it
  constructor
  · exact fun h => absurd h (next_ne_claiming rows)
  · rw [batch_next]
    exact hnodup
  · rw [batch_next]
    intro r hr
    exact ⟨(hclaim r hr).1, List.mem_append_right _ (List.mem_map_of_mem hr)⟩
  · exact fun r _ => hwrites r.id
  · intro r _
    rw [hsee]
    exact .refl r
  · intro r hr _
    rw [version_next, hsee, hrejected, List.append_nil]
    exact hs.rows r hr
  · rw [hpublished]
    exact List.nodup_nil
  · rw [hrejected]
    exact List.nodup_nil
  · rw [hrejected]
    exact nofun
  · rw [hpublished]
    exact nofun
  · rw [untried_next]
    exact fun r hr hid => Or.inl (hmem r hr hid)
  · intro hq r hr hid
    rw [hsee, marks_next]
    simpa using hs.sent hq r hr (hclaim r (hmem r hr hid)).2.2

end Claim

/-! ## The updates -/

section Update

variable {row v : OutboxEvent} {clock : ℕ} {data : OutboxUpdate}

/-- The transaction after it has written the version `v` of a row. -/
def written (t : OutboxTxn) (row v : OutboxEvent) : OutboxTxn :=
  { t with
    locked := t.locked ++ [row.id]
    writes := Function.update t.writes row.id (some v) }

theorem see_written_self : see OutboxEvent.id (written t row v) row = v := by
  show (Function.update t.writes row.id (some v) row.id).getD row = v
  rw [Function.update_self]
  rfl

theorem see_written_ne {r : OutboxEvent} (h : r.id ≠ row.id) :
    see OutboxEvent.id (written t row v) r = see OutboxEvent.id t r := by
  show (Function.update t.writes row.id (some v) r.id).getD r = _
  rw [Function.update_of_ne h]
  rfl

/-- An update of a row that is there. -/
theorem runUpdate_eq (hs : Inv D q s) (hrow : row ∈ s.db.rows)
    {r : Except JsError OutboxEvent}
    (h : OutboxState.runUpdate s i clock t row.id data = some (s₁, r)) :
    s₁ = { s with db := s.db.setTxn i (some (written t row
      (data.apply clock (see OutboxEvent.id t row)))) } ∧
    r = .ok (data.apply clock (see OutboxEvent.id t row)) := by
  unfold OutboxState.runUpdate at h
  by_cases hlocked : s.db.lockedElsewhere i row.id = true
  · rw [if_pos hlocked] at h
    exact nomatch h
  · rw [if_neg hlocked] at h
    have hfind : s.db.rows.find? (fun r => decide (r.id = row.id)) = some row := by
      match hfind : s.db.rows.find? fun r => decide (r.id = row.id) with
      | none =>
        have hnone := List.find?_eq_none.mp hfind row hrow
        exact absurd (decide_eq_true rfl) hnone
      | some row' =>
        have hid : row'.id = row.id := of_decide_eq_true (List.find?_some hfind :)
        rw [hfind, hs.eq_of_id (List.mem_of_find?_eq_some hfind) hrow hid]
    rw [hfind] at h
    obtain ⟨rfl, rfl⟩ := Prod.mk.inj (Option.some.inj h)
    exact ⟨rfl, rfl⟩

/-- A drain writes a new version of the row that it is handling. -/
theorem Healthy.update (hs : Inv D q s) (hh : Healthy D q s t d p) (hrow : row ∈ s.db.rows)
    (hlocked : row.id ∈ t.locked) (hv : SameEvent row v) (hclaiming : p' ≠ .claiming)
    (hbatch : p'.batch.Sublist p.batch) (huntried : p.untried ⊆ p'.untried)
    (hunwritten : ∀ r ∈ p'.unwritten, r ∈ p.unwritten ∧ r.id ≠ row.id)
    (hself : p'.Version D.maxAttempts s.confirmed
      ((s.recorded ++ d.rejected).count row.messageId) v)
    (hothers : ∀ count w, w.id ≠ row.id → p.Version D.maxAttempts s.confirmed count w →
      p'.Version D.maxAttempts s.confirmed count w)
    (hmarks : ∀ id, id ≠ row.id → p'.marks id = p.marks id)
    (hstatus : v.status = .published ∨ p'.marks row.id = true ↔
      (see OutboxEvent.id t row).status = .published ∨ p.marks row.id = true) :
    Healthy D q s (written t row v) d p' := by
  have hmem : ∀ k, k ∈ (written t row v).locked → k ∈ t.locked := by
    intro k hk
    rcases List.mem_append.mp hk with hold | hnew
    · exact hold
    · rw [List.mem_singleton.mp hnew]
      exact hlocked
  have hsub : t.locked ⊆ (written t row v).locked := List.subset_append_left _ _
  -- a row that is not the one written is seen as before
  have hcases : ∀ r ∈ s.db.rows, r = row ∨ r.id ≠ row.id := fun r hr =>
    (Classical.em (r.id = row.id)).imp_left (hs.eq_of_id hr hrow)
  have hdone : ∀ r ∈ s.db.rows,
      (see OutboxEvent.id (written t row v) r).status = .published ∨ p'.marks r.id = true ↔
      (see OutboxEvent.id t r).status = .published ∨ p.marks r.id = true := by
    intro r hr
    rcases hcases r hr with rfl | hne
    · rw [see_written_self]
      exact hstatus
    · rw [see_written_ne hne, hmarks r.id hne]
  constructor
  · exact fun h => absurd h hclaiming
  · exact hh.batch.sublist (hbatch.map _)
  · intro r hr
    obtain ⟨hr, hlocked⟩ := hh.claimed r (hbatch.subset hr)
    exact ⟨hr, hsub hlocked⟩
  · intro r hr
    obtain ⟨hr, hne⟩ := hunwritten r hr
    show Function.update t.writes row.id (some v) r.id = none
    rw [Function.update_of_ne hne]
    exact hh.unwritten r hr
  · intro r hr
    rcases hcases r hr with rfl | hne
    · rw [see_written_self]
      exact hv
    · rw [see_written_ne hne]
      exact hh.same r hr
  · intro r hr hid
    rcases hcases r hr with rfl | hne
    · rw [see_written_self]
      exact hself
    · rw [see_written_ne hne]
      refine hothers _ _ ?_ (hh.versions r hr (hmem _ hid))
      rw [(hh.same r hr).id]
      exact hne
  · exact hh.publishedOnce
  · exact hh.rejectedOnce
  · intro m hm
    obtain ⟨r, hr, hid, hm⟩ := hh.rejected m hm
    exact ⟨r, hr, hsub hid, hm⟩
  · intro m hm
    obtain ⟨r, hr, hid, hm, hr'⟩ := hh.published m hm
    exact ⟨r, hr, hsub hid, hm, (hdone r hr).mpr hr'⟩
  · exact fun r hr hid => (hh.handled r hr (hmem _ hid)).imp_left fun h => huntried h
  · intro hq r hr hid
    rw [hh.sent hq r hr (hmem _ hid)]
    simp only [hdone r hr]

section Handling

variable {rest : List OutboxEvent}

/-- The rows after the one under way are other rows. -/
theorem ne_of_mem_rest (h : ((row :: rest).map OutboxEvent.id).Nodup) {r : OutboxEvent}
    (hr : r ∈ rest) : r.id ≠ row.id := by
  intro hid
  have hnot := (List.nodup_cons.mp h).1
  rw [← hid] at hnot
  exact hnot (List.mem_map_of_mem hr)

/-- `markPublished` succeeds. -/
theorem Healthy.marked (hs : Inv D q s) (hh : Healthy D q s t d (.marking row rest)) :
    Healthy D q s (written t row (OutboxUpdate.published.apply clock (see OutboxEvent.id t row)))
      d (.next rest) := by
  obtain ⟨hrow, hlocked⟩ := hh.claimed row List.mem_cons_self
  have hsame := hh.same row hrow
  obtain ⟨hrecorded, hcarried⟩ := hh.versions row hrow hlocked
  obtain ⟨hpending, hcarried⟩ := hcarried hsame.id
  have hattempts : ¬ D.maxAttempts ≤ (see OutboxEvent.id t row).attempts := by
    intro hmax
    rw [hrecorded.failed.mpr hmax] at hpending
    exact nomatch hpending
  refine hh.update hs hrow hlocked (hsame.apply _ _) (next_ne_claiming rest) ?_ ?_ ?_ ?_ ?_ ?_ ?_
  · rw [batch_next]
    exact List.sublist_cons_self row rest
  · rw [untried_next]
    exact List.Subset.refl _
  · rw [unwritten_next]
    exact fun r hr => ⟨List.mem_cons_of_mem _ hr, ne_of_mem_rest hh.batch hr⟩
  · rw [version_next]
    exact ⟨hrecorded.attempts, ⟨nofun, fun hmax => absurd hmax hattempts⟩, hrecorded.bounded,
      fun _ => hcarried⟩
  · intro count w _ hversion
    rw [version_next]
    exact hversion.1
  · intro id hid
    rw [marks_next]
    exact (decide_eq_false (Ne.symm hid)).symm
  · exact ⟨fun _ => Or.inr (decide_eq_true rfl), fun _ => Or.inl rfl⟩

/-- The first update of `markFailed` succeeds. -/
theorem Healthy.counted (hs : Inv D q s) (hh : Healthy D q s t d (.counting row rest))
    (retryDelayMs : ℕ) :
    Healthy D q s
      (written t row ((OutboxUpdate.attempted retryDelayMs).apply clock (see OutboxEvent.id t row)))
      d (if D.maxAttempts ≤ (see OutboxEvent.id t row).attempts + 1 then .failing row rest
        else .next rest) := by
  obtain ⟨hrow, hlocked⟩ := hh.claimed row List.mem_cons_self
  have hsame := hh.same row hrow
  have hversion := hh.versions row hrow hlocked
  rw [RelayPoint.version_counting_self hsame.id] at hversion
  obtain ⟨hpending, hattempts, hlt⟩ := hversion
  have hothers : ∀ count w, w.id ≠ row.id →
      RelayPoint.Version D.maxAttempts s.confirmed count w (.counting row rest) →
      Recorded D.maxAttempts s.confirmed count w := by
    intro count w hw hversion
    rw [RelayPoint.version_counting_ne hw] at hversion
    exact hversion
  by_cases hmax : D.maxAttempts ≤ (see OutboxEvent.id t row).attempts + 1
  -- the last attempt, after which the row is updated once more
  · rw [if_pos hmax]
    refine hh.update hs hrow hlocked (hsame.apply _ _) nofun (List.Sublist.refl _)
      (List.Subset.refl _) ?_ ?_ ?_ ?_ ?_
    · exact fun r hr => ⟨List.mem_cons_of_mem _ hr, ne_of_mem_rest hh.batch hr⟩
    · rw [RelayPoint.version_failing_self (hsame.apply _ _).id]
      exact ⟨hpending, hattempts, Nat.le_antisymm hlt hmax⟩
    · intro count w hw hversion
      rw [RelayPoint.version_failing_ne hw]
      exact hothers count w hw hversion
    · exact fun _ _ => rfl
    · exact Iff.rfl
  · rw [if_neg hmax]
    refine hh.update hs hrow hlocked (hsame.apply _ _) (next_ne_claiming rest) ?_ ?_ ?_ ?_ ?_ ?_ ?_
    · rw [batch_next]
      exact List.sublist_cons_self row rest
    · rw [untried_next]
      exact List.Subset.refl _
    · rw [unwritten_next]
      exact fun r hr => ⟨List.mem_cons_of_mem _ hr, ne_of_mem_rest hh.batch hr⟩
    · rw [version_next]
      refine ⟨hattempts, ⟨fun hfailed => ?_, fun h => absurd h hmax⟩, hlt, fun hpublished => ?_⟩
      · exact nomatch hpending.symm.trans hfailed
      · exact nomatch hpending.symm.trans hpublished
    · intro count w hw hversion
      rw [version_next]
      exact hothers count w hw hversion
    · exact fun id _ => marks_next rest id
    · rw [marks_next]
      exact Iff.rfl

/-- The second update of `markFailed` succeeds. -/
theorem Healthy.gaveUp (hs : Inv D q s) (hh : Healthy D q s t d (.failing row rest)) :
    Healthy D q s (written t row (OutboxUpdate.failed.apply clock (see OutboxEvent.id t row)))
      d (.next rest) := by
  obtain ⟨hrow, hlocked⟩ := hh.claimed row List.mem_cons_self
  have hsame := hh.same row hrow
  have hversion := hh.versions row hrow hlocked
  rw [RelayPoint.version_failing_self hsame.id] at hversion
  obtain ⟨hpending, hattempts, hmax⟩ := hversion
  refine hh.update hs hrow hlocked (hsame.apply _ _) (next_ne_claiming rest) ?_ ?_ ?_ ?_ ?_ ?_ ?_
  · rw [batch_next]
    exact List.sublist_cons_self row rest
  · rw [untried_next]
    exact List.Subset.refl _
  · rw [unwritten_next]
    exact fun r hr => ⟨hr, ne_of_mem_rest hh.batch hr⟩
  · rw [version_next]
    exact ⟨hattempts, ⟨fun _ => hmax.ge, fun _ => rfl⟩, hmax.le, nofun⟩
  · intro count w hw hversion
    rw [RelayPoint.version_failing_ne hw] at hversion
    rw [version_next]
    exact hversion
  · exact fun id _ => marks_next rest id
  · rw [marks_next, hpending]
    exact ⟨nofun, nofun⟩

end Handling

end Update

end Steps

end NestFastify.Outbox
