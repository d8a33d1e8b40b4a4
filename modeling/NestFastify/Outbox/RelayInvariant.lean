import NestFastify.Outbox.RelaySystem

/-!
# What holds of the outbox

The invariant of the relays over one table. A row that no open transaction has locked is as the
committed drains have left it; a row that one has locked is pending, and the version in the
transaction is what the drain has made of it so far (`Healthy`). A transaction that has failed
says nothing any more, since it cannot commit.

`q i` is the assumption that no transaction of relay `i` has been aborted. Under it, the drain of
the relay can commit; and if it is made of every relay, the broker has confirmed a message once at
most.
-/

namespace NestFastify.Outbox

open Messaging (Publication)

/-- The publication is one of the row. -/
def Carries (p : Publication) (row : OutboxEvent) : Prop :=
  p.messageId = some row.messageId ∧ p.routingKey = row.routingKey ∧ p.content = row.payload

/-- How often the broker has confirmed a message. -/
def sentCount (confirmed : List Publication) (messageId : String) : ℕ :=
  confirmed.countP fun p => decide (p.messageId = some messageId)

/-- A row of which `count` publishes have been rejected. -/
structure Recorded (maxAttempts : ℕ) (confirmed : List Publication) (count : ℕ)
    (row : OutboxEvent) : Prop where
  attempts : row.attempts = count
  failed : row.status = .failed ↔ maxAttempts ≤ row.attempts
  bounded : row.attempts ≤ maxAttempts
  published : row.status = .published → ∃ p ∈ confirmed, Carries p row

/-- What is recorded for a row stays true as more is confirmed. -/
theorem Recorded.mono {maxAttempts count : ℕ} {confirmed confirmed' : List Publication}
    {row : OutboxEvent} (h : Recorded maxAttempts confirmed count row)
    (hsub : confirmed ⊆ confirmed') : Recorded maxAttempts confirmed' count row := by
  refine ⟨h.attempts, h.failed, h.bounded, fun hstatus => ?_⟩
  obtain ⟨p, hp, hcarries⟩ := h.published hstatus
  exact ⟨p, hsub hp, hcarries⟩

/-- The same event, whatever has become of it. -/
structure SameEvent (row row' : OutboxEvent) : Prop where
  id : row'.id = row.id
  messageId : row'.messageId = row.messageId
  routingKey : row'.routingKey = row.routingKey
  payload : row'.payload = row.payload

theorem SameEvent.refl (row : OutboxEvent) : SameEvent row row := ⟨rfl, rfl, rfl, rfl⟩

theorem SameEvent.trans {row row' row'' : OutboxEvent} (h : SameEvent row row')
    (h' : SameEvent row' row'') : SameEvent row row'' :=
  ⟨h'.id.trans h.id, h'.messageId.trans h.messageId, h'.routingKey.trans h.routingKey,
    h'.payload.trans h.payload⟩

theorem SameEvent.symm {row row' : OutboxEvent} (h : SameEvent row row') : SameEvent row' row :=
  ⟨h.id.symm, h.messageId.symm, h.routingKey.symm, h.payload.symm⟩

/-- An update does not change the event of a row. -/
theorem SameEvent.apply {row row' : OutboxEvent} (h : SameEvent row row') (clock : ℕ)
    (data : OutboxUpdate) : SameEvent row (data.apply clock row') := by
  match data with
  | .published => exact ⟨h.id, h.messageId, h.routingKey, h.payload⟩
  | .attempted _ => exact ⟨h.id, h.messageId, h.routingKey, h.payload⟩
  | .failed => exact ⟨h.id, h.messageId, h.routingKey, h.payload⟩

namespace RelayPoint

/-- The row under way and those after it. -/
def batch : RelayPoint → List OutboxEvent
  | publishing row rest | marking row rest | counting row rest | failing row rest => row :: rest
  | _ => []

/-- The rows that the drain has not tried to publish yet. -/
def untried : RelayPoint → List OutboxEvent
  | publishing row rest => row :: rest
  | marking _ rest | counting _ rest | failing _ rest => rest
  | _ => []

/-- The rows that the drain has not written yet. -/
def unwritten : RelayPoint → List OutboxEvent
  | publishing row rest | marking row rest | counting row rest => row :: rest
  | failing _ rest => rest
  | _ => []

/-- The row with this id has been published and not marked yet. -/
def marks (id : String) : RelayPoint → Bool
  | marking row _ => decide (row.id = id)
  | _ => false

/-- Between the beginning and the end of the transaction. -/
def inTransaction : RelayPoint → Bool
  | claiming | publishing .. | marking .. | counting .. | failing .. | committing => true
  | beginning | rollingBack _ | settled _ => false

/-- The version of a row in a transaction of which the drain is at this point. -/
def Version (maxAttempts : ℕ) (confirmed : List Publication) (count : ℕ) (row : OutboxEvent) :
    RelayPoint → Prop
  | marking row' _ => Recorded maxAttempts confirmed count row ∧
    (row.id = row'.id → row.status = .pending ∧ ∃ p ∈ confirmed, Carries p row)
  | counting row' _ =>
    if row.id = row'.id then
      row.status = .pending ∧ row.attempts + 1 = count ∧ row.attempts < maxAttempts
    else Recorded maxAttempts confirmed count row
  | failing row' _ =>
    if row.id = row'.id then
      row.status = .pending ∧ row.attempts = count ∧ row.attempts = maxAttempts
    else Recorded maxAttempts confirmed count row
  | _ => Recorded maxAttempts confirmed count row

section Version

variable {maxAttempts count : ℕ} {confirmed confirmed' : List Publication} {row row' : OutboxEvent}
  {rest : List OutboxEvent}

/-- The row that is being counted has one failure more than is committed. -/
theorem version_counting_self (h : row.id = row'.id) :
    (counting row' rest).Version maxAttempts confirmed count row =
      (row.status = .pending ∧ row.attempts + 1 = count ∧ row.attempts < maxAttempts) := if_pos h

/-- The other rows are as they are recorded. -/
theorem version_counting_ne (h : row.id ≠ row'.id) :
    (counting row' rest).Version maxAttempts confirmed count row =
      Recorded maxAttempts confirmed count row := if_neg h

/-- The row that is given up has its last failure. -/
theorem version_failing_self (h : row.id = row'.id) :
    (failing row' rest).Version maxAttempts confirmed count row =
      (row.status = .pending ∧ row.attempts = count ∧ row.attempts = maxAttempts) := if_pos h

/-- The other rows are as they are recorded. -/
theorem version_failing_ne (h : row.id ≠ row'.id) :
    (failing row' rest).Version maxAttempts confirmed count row =
      Recorded maxAttempts confirmed count row := if_neg h

/-- The versions of a drain stay true as more is confirmed. -/
theorem Version.mono {p : RelayPoint} (h : p.Version maxAttempts confirmed count row)
    (hsub : confirmed ⊆ confirmed') : p.Version maxAttempts confirmed' count row := by
  match p with
  | .marking row' rest =>
    refine ⟨h.1.mono hsub, fun hid => ⟨(h.2 hid).1, ?_⟩⟩
    obtain ⟨pub, hpub, hcarries⟩ := (h.2 hid).2
    exact ⟨pub, hsub hpub, hcarries⟩
  | .counting row' rest =>
    by_cases hid : row.id = row'.id
    · rw [version_counting_self hid] at h ⊢
      exact h
    · rw [version_counting_ne hid] at h ⊢
      exact h.mono hsub
  | .failing row' rest =>
    by_cases hid : row.id = row'.id
    · rw [version_failing_self hid] at h ⊢
      exact h
    · rw [version_failing_ne hid] at h ⊢
      exact h.mono hsub
  | .beginning | .claiming | .publishing _ _ | .committing | .rollingBack _ | .settled _ =>
    exact Recorded.mono h hsub

end Version

end RelayPoint

open RowStore (see)

section Invariant

variable (D : Deployment) (q : ℕ → Prop) (s : OutboxState)

/-- The transaction `t` of a drain that is at `p`, while it can still commit. -/
structure Healthy (t : OutboxTxn) (d : Drain) (p : RelayPoint) : Prop where
  claiming : p = .claiming → t.locked = []
  batch : (p.batch.map OutboxEvent.id).Nodup
  claimed : ∀ r ∈ p.batch, r ∈ s.db.rows ∧ r.id ∈ t.locked
  unwritten : ∀ r ∈ p.unwritten, t.writes r.id = none
  same : ∀ r ∈ s.db.rows, SameEvent r (see OutboxEvent.id t r)
  versions : ∀ r ∈ s.db.rows, r.id ∈ t.locked → p.Version D.maxAttempts s.confirmed
    ((s.recorded ++ d.rejected).count r.messageId) (see OutboxEvent.id t r)
  publishedOnce : d.published.Nodup
  rejectedOnce : d.rejected.Nodup
  rejected : ∀ m ∈ d.rejected, ∃ r ∈ s.db.rows, r.id ∈ t.locked ∧ r.messageId = m
  published : ∀ m ∈ d.published, ∃ r ∈ s.db.rows, r.id ∈ t.locked ∧ r.messageId = m ∧
    ((see OutboxEvent.id t r).status = .published ∨ p.marks r.id = true)
  handled : ∀ r ∈ s.db.rows, r.id ∈ t.locked →
    r ∈ p.untried ∨ r.messageId ∈ d.published ∨ r.messageId ∈ d.rejected
  sent : (∀ j, q j) → ∀ r ∈ s.db.rows, r.id ∈ t.locked → sentCount s.confirmed r.messageId =
    if (see OutboxEvent.id t r).status = .published ∨ p.marks r.id = true then 1 else 0

/-- A drain of relay `i` that is at `p`. -/
structure DrainInv (i : ℕ) (d : Drain) (p : RelayPoint) : Prop where
  lt : i < s.db.txns.length
  known : ∀ row ∈ p.batch, ∃ r ∈ s.db.rows, SameEvent r row
  beginning : p = .beginning → s.db.txn? i = none ∧ d.published = [] ∧ d.rejected = []
  within : ∀ t, s.db.txn? i = some t →
    p.inTransaction = true ∨ (¬ q i ∧ ∃ e, p = .rollingBack e)
  opened : q i → p.inTransaction = true → ∃ t, s.db.txn? i = some t ∧ t.failed = false
  healthy : ∀ t, s.db.txn? i = some t → t.failed = false → p.inTransaction = true →
    Healthy D q s t d p

/-- Relay `i`, draining or not. -/
def RelayInv (i : ℕ) : Prop :=
  match s.drain i with
  | none => s.db.txn? i = none
  | some d => ∃ p, d.code = p.program (D.relay i) ∧ DrainInv D q s i d p

/-- No open transaction has locked the row. -/
def Unlocked (id : String) : Prop := ∀ i t, s.db.txn? i = some t → id ∉ t.locked

structure Inv : Prop where
  sound : s.db.Sound
  ids : (s.db.rows.map OutboxEvent.id).Nodup
  messageIds : (s.db.rows.map OutboxEvent.messageId).Nodup
  typed : ∀ r ∈ s.db.rows, ∃ payload : Messaging.EventPayload, r.payload = payload.toJson
  rows : ∀ r ∈ s.db.rows,
    Recorded D.maxAttempts s.confirmed (s.recorded.count r.messageId) r
  pending : ∀ i t, s.db.txn? i = some t → ∀ k ∈ t.locked,
    ∃ r ∈ s.db.rows, r.id = k ∧ r.status = .pending
  recorded : ∀ m ∈ s.recorded, ∃ r ∈ s.db.rows, r.messageId = m
  relays : ∀ i, RelayInv D q s i
  confirmed : (∀ j, q j) → ∀ p ∈ s.confirmed, ∃ r ∈ s.db.rows, p.messageId = some r.messageId
  sent : (∀ j, q j) → ∀ r ∈ s.db.rows, Unlocked s r.id →
    sentCount s.confirmed r.messageId = if r.status = .published then 1 else 0

end Invariant

section Frame

variable {D : Deployment} {q : ℕ → Prop} {s s' : OutboxState} {t : OutboxTxn} {d : Drain}
  {p : RelayPoint} {i : ℕ}

/-- The rows that a transaction has locked, with what is known about them, are the same. -/
structure Undisturbed (q : ℕ → Prop) (s s' : OutboxState) (t : OutboxTxn) : Prop where
  rows : ∀ r, r.id ∈ t.locked → (r ∈ s'.db.rows ↔ r ∈ s.db.rows)
  same : (∀ r ∈ s.db.rows, SameEvent r (see OutboxEvent.id t r)) →
    ∀ r ∈ s'.db.rows, SameEvent r (see OutboxEvent.id t r)
  confirmed : s.confirmed ⊆ s'.confirmed
  recorded : ∀ r ∈ s.db.rows, r.id ∈ t.locked →
    s'.recorded.count r.messageId = s.recorded.count r.messageId
  sent : (∀ j, q j) → ∀ r ∈ s.db.rows, r.id ∈ t.locked →
    sentCount s'.confirmed r.messageId = sentCount s.confirmed r.messageId

/-- A drain that is not disturbed stays healthy. -/
theorem Healthy.frame (h : Healthy D q s t d p) (hsame : Undisturbed q s s' t) :
    Healthy D q s' t d p := by
  refine ⟨h.claiming, h.batch, fun r hr => ?_, h.unwritten, hsame.same h.same,
    fun r hr hlocked => ?_, h.publishedOnce,
    h.rejectedOnce, fun m hm => ?_, fun m hm => ?_, fun r hr hlocked => ?_,
    fun hq r hr hlocked => ?_⟩
  · obtain ⟨hmem, hlocked⟩ := h.claimed r hr
    exact ⟨(hsame.rows r hlocked).mpr hmem, hlocked⟩
  · have hr := (hsame.rows r hlocked).mp hr
    have hversion := (h.versions r hr hlocked).mono hsame.confirmed
    rw [List.count_append] at hversion ⊢
    rw [hsame.recorded r hr hlocked]
    exact hversion
  · obtain ⟨r, hr, hlocked, hm⟩ := h.rejected m hm
    exact ⟨r, (hsame.rows r hlocked).mpr hr, hlocked, hm⟩
  · obtain ⟨r, hr, hlocked, hm⟩ := h.published m hm
    exact ⟨r, (hsame.rows r hlocked).mpr hr, hlocked, hm⟩
  · exact h.handled r ((hsame.rows r hlocked).mp hr) hlocked
  · have hr := (hsame.rows r hlocked).mp hr
    rw [hsame.sent hq r hr hlocked]
    exact h.sent hq r hr hlocked

/-- Of the drain only the two lists count. -/
theorem Healthy.congr (h : Healthy D q s t d p) {d' : Drain} (hpublished : d'.published = d.published)
    (hrejected : d'.rejected = d.rejected) : Healthy D q s t d' p := by
  obtain ⟨code, published, rejected⟩ := d
  obtain ⟨code', published', rejected'⟩ := d'
  obtain rfl : published' = published := hpublished
  obtain rfl : rejected' = rejected := hrejected
  exact ⟨h.claiming, h.batch, h.claimed, h.unwritten, h.same, h.versions, h.publishedOnce,
    h.rejectedOnce, h.rejected, h.published, h.handled, h.sent⟩

/-- It keeps its invariant. -/
theorem DrainInv.frame (h : DrainInv D q s i d p) (htxn : s'.db.txn? i = s.db.txn? i)
    (hlength : s'.db.txns.length = s.db.txns.length)
    (hrows : ∀ r ∈ s.db.rows, ∃ r' ∈ s'.db.rows, SameEvent r r')
    (hsame : ∀ t, s.db.txn? i = some t → Undisturbed q s s' t) : DrainInv D q s' i d p := by
  refine ⟨hlength ▸ h.lt, fun row hrow => ?_, fun hp => ?_, fun t ht => ?_, fun hq hp => ?_,
    fun t ht => ?_⟩
  · obtain ⟨r, hr, hsame⟩ := h.known row hrow
    obtain ⟨r', hr', hsame'⟩ := hrows r hr
    exact ⟨r', hr', hsame'.symm.trans hsame⟩
  · rw [htxn]
    exact h.beginning hp
  · exact h.within t (htxn ▸ ht)
  · rw [htxn]
    exact h.opened hq hp
  · intro hfailed hp
    rw [htxn] at ht
    exact (h.healthy t ht hfailed hp).frame (hsame t ht)

/-- So does its relay. -/
theorem RelayInv.frame (h : RelayInv D q s i) (hdrain : s'.drain i = s.drain i)
    (htxn : s'.db.txn? i = s.db.txn? i) (hlength : s'.db.txns.length = s.db.txns.length)
    (hrows : ∀ r ∈ s.db.rows, ∃ r' ∈ s'.db.rows, SameEvent r r')
    (hsame : ∀ t, s.db.txn? i = some t → Undisturbed q s s' t) : RelayInv D q s' i := by
  unfold RelayInv at h ⊢
  rw [hdrain]
  match hd : s.drain i with
  | none =>
    simp only [hd] at h
    exact htxn.trans h
  | some d =>
    simp only [hd] at h
    obtain ⟨p, hcode, hp⟩ := h
    exact ⟨p, hcode, hp.frame htxn hlength hrows hsame⟩

/-- A step that leaves rows and records alone disturbs nobody. -/
theorem Undisturbed.of_eq (hrows : s'.db.rows = s.db.rows) (hconfirmed : s'.confirmed = s.confirmed)
    (hrecorded : s'.recorded = s.recorded) : Undisturbed q s s' t := by
  refine ⟨fun r _ => by rw [hrows], fun h => by rw [hrows]; exact h, ?_, ?_, ?_⟩
  · rw [hconfirmed]
    exact List.Subset.refl _
  · intro r _ _
    rw [hrecorded]
  · intro _ r _ _
    rw [hconfirmed]

/-- A relay does something that leaves the committed rows and the broker as they are. -/
theorem Inv.of_relay (hs : Inv D q s) (hrows : s'.db.rows = s.db.rows)
    (hlength : s'.db.txns.length = s.db.txns.length)
    (hother : ∀ j, j ≠ i → s'.drain j = s.drain j ∧ s'.db.txn? j = s.db.txn? j)
    (hconfirmed : s'.confirmed = s.confirmed) (hrecorded : s'.recorded = s.recorded)
    (hsound : s'.db.Sound)
    (hpending : ∀ t, s'.db.txn? i = some t → ∀ k ∈ t.locked,
      ∃ r ∈ s.db.rows, r.id = k ∧ r.status = .pending)
    (hkept : (∀ j, q j) → ∀ t, s.db.txn? i = some t →
      ∃ t', s'.db.txn? i = some t' ∧ t.locked ⊆ t'.locked)
    (hrelay : RelayInv D q s' i) : Inv D q s' := by
  constructor
  · exact hsound
  · rw [hrows]
    exact hs.ids
  · rw [hrows]
    exact hs.messageIds
  · rw [hrows]
    exact hs.typed
  · rw [hrows, hconfirmed, hrecorded]
    exact hs.rows
  · intro j t ht
    rw [hrows]
    by_cases hj : j = i
    · subst hj
      exact hpending t ht
    · exact hs.pending j t ((hother j hj).2 ▸ ht)
  · rw [hrows, hrecorded]
    exact hs.recorded
  · intro j
    by_cases hj : j = i
    · rw [hj]
      exact hrelay
    · refine (hs.relays j).frame (hother j hj).1 (hother j hj).2 hlength (fun r hr => ?_)
        fun t _ => .of_eq hrows hconfirmed hrecorded
      exact ⟨r, hrows ▸ hr, .refl r⟩
  · rw [hrows, hconfirmed]
    exact hs.confirmed
  -- what relay `i` has locked stays locked, so a row that is free now was free
  · intro hq r hr hunlocked
    rw [hrows] at hr
    rw [hconfirmed]
    refine hs.sent hq r hr fun j t ht hmem => ?_
    by_cases hj : j = i
    · subst hj
      obtain ⟨t', ht', hsub⟩ := hkept hq t ht
      exact hunlocked j t' ht' (hsub hmem)
    · exact hunlocked j t ((hother j hj).2.trans ht) hmem

/-- A relay replaces its transaction. -/
theorem Inv.of_setTxn (hs : Inv D q s) {o : Option OutboxTxn}
    (hdb : s'.db = s.db.setTxn i o) (hdrain : ∀ j, j ≠ i → s'.drain j = s.drain j)
    (hconfirmed : s'.confirmed = s.confirmed) (hrecorded : s'.recorded = s.recorded)
    (hsound : (s.db.setTxn i o).Sound)
    (hpending : ∀ t, o = some t → ∀ k ∈ t.locked,
      ∃ r ∈ s.db.rows, r.id = k ∧ r.status = .pending)
    (hkept : (∀ j, q j) → ∀ t, s.db.txn? i = some t → ∃ t', o = some t' ∧ t.locked ⊆ t'.locked)
    (hrelay : RelayInv D q s' i) : Inv D q s' := by
  have hself : s'.db.txn? i = s.db.txn? i ∨ s'.db.txn? i = o := by
    rw [hdb]
    rcases RowStore.txn?_setTxn_cases with hsame | ⟨-, hnew⟩
    · exact Or.inl hsame
    · exact Or.inr hnew
  refine hs.of_relay (i := i) (by rw [hdb]; rfl) (by rw [hdb]; exact List.length_set ..)
    (fun j hj => ⟨hdrain j hj, ?_⟩) hconfirmed hrecorded (hdb ▸ hsound) (fun t ht => ?_)
    (fun hq t ht => ?_) hrelay
  · rw [hdb]
    exact RowStore.txn?_setTxn_ne (Ne.symm hj)
  · rcases hself with hsame | hnew
    · exact hs.pending i t (hsame ▸ ht)
    · exact hpending t (hnew ▸ ht)
  · rcases hself with hsame | hnew
    · exact ⟨t, hsame.trans ht, List.Subset.refl _⟩
    · obtain ⟨t', ho, hsub⟩ := hkept hq t ht
      exact ⟨t', hnew.trans ho, hsub⟩

/-- Where the drain of a relay is. -/
theorem Inv.drain (hs : Inv D q s) (hd : s.drain i = some d) :
    ∃ p, d.code = p.program (D.relay i) ∧ DrainInv D q s i d p := by
  have hrelay := hs.relays i
  unfold RelayInv at hrelay
  rw [hd] at hrelay
  exact hrelay

/-- A relay that does not drain has no transaction. -/
theorem Inv.idle (hs : Inv D q s) (hd : s.drain i = none) : s.db.txn? i = none := by
  have hrelay := hs.relays i
  unfold RelayInv at hrelay
  rw [hd] at hrelay
  exact hrelay

/-- A drain out of its transaction has none, unless it is still to roll it back. -/
theorem DrainInv.closed (h : DrainInv D q s i d p) (hin : p.inTransaction = false)
    (hq : q i ∨ ∀ e, p ≠ .rollingBack e) : s.db.txn? i = none := by
  cases ht : s.db.txn? i with
  | none => rfl
  | some t =>
    rcases h.within t ht with htrue | ⟨hnot, e, he⟩
    · exact Bool.noConfusion (hin.symm.trans htrue)
    · exact absurd he (hq.resolve_left hnot e)

/-- The one row with this id. -/
theorem Inv.eq_of_id (hs : Inv D q s) {r r' : OutboxEvent} (hr : r ∈ s.db.rows)
    (hr' : r' ∈ s.db.rows) (h : r.id = r'.id) : r = r' :=
  List.inj_on_of_nodup_map hs.ids hr hr' h

/-- A message id belongs to one row. -/
theorem Inv.eq_of_messageId (hs : Inv D q s) {r r' : OutboxEvent} (hr : r ∈ s.db.rows)
    (hr' : r' ∈ s.db.rows) (h : r.messageId = r'.messageId) : r = r' :=
  List.inj_on_of_nodup_map hs.messageIds hr hr' h

end Frame

end NestFastify.Outbox
