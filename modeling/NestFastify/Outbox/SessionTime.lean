import NestFastify.Outbox.RelaySystem

/-!
# The time zone of the session

The dates of OutboxEvent are `TIMESTAMP(3)` columns (migration.sql), a wall clock without a zone.
Prisma writes a `DateTime` as the wall clock of UTC. The raw SQL of `claimPending` compares the
column with `now()`, and for that Postgres reads it as the wall clock of the session's `TimeZone`.
An offset is in milliseconds ahead of UTC.
-/

namespace NestFastify.Outbox

/-! ## Wall clocks -/

/-- A value of type `TIMESTAMP(3)`. -/
structure Timestamp where
  wall : ℤ

namespace Timestamp

/-- The wall clock of a zone at an instant. -/
def ofInstant (offset instant : ℤ) : Timestamp := ⟨instant + offset⟩

/-- The instant at which the wall clock of a zone shows the value. -/
def instant (offset : ℤ) (t : Timestamp) : ℤ := t.wall - offset

/-- Written in one zone and read in another, an instant moves by the difference. -/
theorem instant_ofInstant (written read n : ℤ) :
    (ofInstant written n).instant read = n + written - read := rfl

end Timestamp

/-- `availableAt` as Prisma writes it, with the offset of UTC. -/
def OutboxEvent.availableAtColumn (row : OutboxEvent) : Timestamp :=
  Timestamp.ofInstant 0 row.availableAt

/-- The `WHERE` clause of `claimPending` in a session with this offset. -/
def PrismaOutboxRepository.claimableIn (offset : ℤ) (now : ℕ) (row : OutboxEvent) : Bool :=
  decide (row.status = .pending ∧ row.availableAtColumn.instant offset ≤ now)

/-- The statement of `claimPending` in a session with this offset. -/
def OutboxState.claimIn (s : OutboxState) (offset : ℤ) (i : ℕ) (t : OutboxTxn) (limit : ℕ) :
    OutboxState × List OutboxEvent :=
  let r := s.db.claim OutboxEvent.id i t (PrismaOutboxRepository.claimableIn offset t.startedAt)
    OutboxEvent.createdAt limit
  ({ s with db := r.1 }, r.2)

variable {offset : ℤ} {now i limit : ℕ} {row : OutboxEvent} {s : OutboxState} {t : OutboxTxn}

namespace PrismaOutboxRepository

theorem claimableIn_iff : claimableIn offset now row = true ↔
    row.status = .pending ∧ (row.availableAt : ℤ) ≤ now + offset := by
  rw [claimableIn, OutboxEvent.availableAtColumn, Timestamp.instant_ofInstant, decide_eq_true_eq]
  constructor
  · rintro ⟨hpending, hle⟩
    exact ⟨hpending, by omega⟩
  · rintro ⟨hpending, hle⟩
    exact ⟨hpending, by omega⟩

theorem claimable_iff :
    claimable now row = true ↔ row.status = .pending ∧ row.availableAt ≤ now := by
  rw [claimable, decide_eq_true_eq]

/-- In a session of UTC the clause compares the instants. -/
theorem claimableIn_zero : claimableIn 0 = claimable := by
  ext1 now
  ext1 row
  rw [Bool.eq_iff_iff, claimableIn_iff, claimable_iff, Int.add_zero, Nat.cast_le]

/-- The delay after a failed attempt as the session counts it. -/
theorem claimableIn_markFailed {clock retryDelayMs : ℕ} :
    claimableIn offset now ((OutboxUpdate.attempted retryDelayMs).apply clock row) = true ↔
      row.status = .pending ∧ (clock : ℤ) + retryDelayMs ≤ now + offset := by
  rw [claimableIn_iff]
  exact Iff.rfl

/-- A new row is due as soon as the wall clock of the session has passed that of UTC. -/
theorem claimableIn_enqueue {id randomUUID : String} {clock : ℕ} {data : EnqueueOutboxData} :
    claimableIn offset now (enqueue id randomUUID clock data) = true ↔
      (clock : ℤ) ≤ now + offset := by
  rw [claimableIn_iff]
  exact and_iff_right rfl

end PrismaOutboxRepository

/-- The clause used for the relays is the one of a session of UTC. -/
theorem OutboxState.claimIn_zero : s.claimIn 0 i t limit = s.claim i t limit := by
  rw [claimIn, claim, PrismaOutboxRepository.claimableIn_zero]

/-! ## Which rows are claimed -/

/-- A claim returns only rows that are due, and with room for the whole table every such row that
it can lock. -/
structure RespectsBackoff (offset : ℤ) (s : OutboxState) (i : ℕ) (t : OutboxTxn) : Prop where
  due : ∀ limit, ∀ row ∈ (s.claimIn offset i t limit).2,
    row.status = .pending ∧ row.availableAt ≤ t.startedAt
  considered : ∀ limit, s.db.rows.length ≤ limit → ∀ row ∈ s.db.rows,
    s.db.lockedElsewhere i row.id = false →
    (RowStore.see OutboxEvent.id t row).status = .pending →
    (RowStore.see OutboxEvent.id t row).availableAt ≤ t.startedAt →
    RowStore.see OutboxEvent.id t row ∈ (s.claimIn offset i t limit).2

/-- `now` lies between the instant of the row and the one that the session reads. -/
def Misjudged (offset : ℤ) (now availableAt : ℕ) : Prop :=
  now < availableAt ∧ (availableAt : ℤ) ≤ now + offset ∨
    availableAt ≤ now ∧ (now : ℤ) + offset < availableAt

theorem not_misjudged_iff {availableAt : ℕ} : ¬ Misjudged offset now availableAt ↔
    ((availableAt : ℤ) ≤ now + offset ↔ availableAt ≤ now) := by
  rw [Misjudged]
  omega

/-- A claim respects the back-off exactly when the session misjudges no row that it can lock. -/
theorem respectsBackoff_iff : RespectsBackoff offset s i t ↔ ∀ row ∈ s.db.rows,
    s.db.lockedElsewhere i row.id = false →
    (RowStore.see OutboxEvent.id t row).status = .pending →
    ¬ Misjudged offset t.startedAt (RowStore.see OutboxEvent.id t row).availableAt := by
  constructor
  · intro h row hrow hfree hpending
    rw [not_misjudged_iff]
    constructor
    · intro hle
      have hclaimed : RowStore.see OutboxEvent.id t row ∈
          (s.claimIn offset i t s.db.rows.length).2 :=
        RowStore.mem_claim_of_le hrow hfree
          (PrismaOutboxRepository.claimableIn_iff.mpr ⟨hpending, hle⟩) (Nat.le_refl _)
      exact (h.due _ _ hclaimed).2
    · intro hle
      have hclaimed := h.considered _ (Nat.le_refl _) row hrow hfree hpending hle
      exact (PrismaOutboxRepository.claimableIn_iff.mp (RowStore.mem_claim hclaimed).1).2
  · intro h
    refine ⟨fun limit row hrow => ?_, fun limit hlimit row hrow hfree hpending hle => ?_⟩
    · obtain ⟨hwanted, r, hr, rfl, hfree⟩ := RowStore.mem_claim hrow
      obtain ⟨hpending, hle⟩ := PrismaOutboxRepository.claimableIn_iff.mp hwanted
      exact ⟨hpending, (not_misjudged_iff.mp (h r hr hfree hpending)).mp hle⟩
    · have hread := (not_misjudged_iff.mp (h row hrow hfree hpending)).mpr hle
      exact RowStore.mem_claim_of_le hrow hfree
        (PrismaOutboxRepository.claimableIn_iff.mpr ⟨hpending, hread⟩) hlimit

/-- A table with one row, and a transaction on it. -/
def OutboxState.withRow (row : OutboxEvent) (startedAt : ℕ) : OutboxState where
  now := startedAt
  db := ⟨[row], [some ⟨startedAt, false, [], fun _ => none⟩]⟩
  drain _ := none
  confirmed := []
  recorded := []

theorem not_misjudged_of_forall (h : ∀ s i t, RespectsBackoff offset s i t) (row : OutboxEvent)
    (startedAt : ℕ) (hpending : row.status = .pending) :
    ¬ Misjudged offset startedAt row.availableAt :=
  respectsBackoff_iff.mp (h (.withRow row startedAt) 0 ⟨startedAt, false, [], fun _ => none⟩) row
    List.mem_cons_self rfl hpending

/-- Away from UTC some instant is misjudged: ahead of it a delay of at most the offset is lost,
behind it a row that is due waits. -/
theorem exists_misjudged (h : offset ≠ 0) :
    ∃ now availableAt, Misjudged offset now availableAt := by
  rcases Int.lt_or_gt_of_ne h with hbehind | hahead
  · refine ⟨0, 0, Or.inr ⟨Nat.le_refl 0, ?_⟩⟩
    omega
  · refine ⟨0, offset.toNat, Or.inl ⟨?_, ?_⟩⟩
    · omega
    · omega

/-- The row whose publish has failed at an instant, and is to be tried again after a delay. -/
def failedRow (clock retryDelayMs : ℕ) : OutboxEvent :=
  (OutboxUpdate.attempted retryDelayMs).apply clock
    ⟨"e1", "m1", "user.registered", .obj [], none, .pending, 0, 0, 0, none⟩

/-- Whatever the offset, a claim respects the back-off exactly when no row it can lock has the
current instant between its own and the one that the session reads; every claim does so exactly
in a session of UTC. -/
theorem claimIn_respectsBackoff_iff (offset : ℤ) :
    (∀ s i t, RespectsBackoff offset s i t ↔ ∀ row ∈ s.db.rows,
      s.db.lockedElsewhere i row.id = false →
      (RowStore.see OutboxEvent.id t row).status = .pending →
      ¬ Misjudged offset t.startedAt (RowStore.see OutboxEvent.id t row).availableAt) ∧
    ((∀ s i t, RespectsBackoff offset s i t) ↔ offset = 0) := by
  refine ⟨fun s i t => respectsBackoff_iff, ?_⟩
  constructor
  · intro h
    by_contra hne
    obtain ⟨now, availableAt, hmisjudged⟩ := exists_misjudged hne
    have hrow := not_misjudged_of_forall h (failedRow 0 availableAt) now rfl
    rw [show (failedRow 0 availableAt).availableAt = availableAt from Nat.zero_add _] at hrow
    exact hrow hmisjudged
  · rintro rfl s i t
    rw [respectsBackoff_iff]
    intro row _ _ _
    rw [not_misjudged_iff]
    omega

/-- Seven hours ahead of UTC a delay of five seconds is over at once. -/
theorem not_respectsBackoff : ¬ ∀ offset s i t, RespectsBackoff offset s i t := by
  intro h
  exact not_misjudged_of_forall (h (7 * 3600000)) (failedRow 100000 5000) 100001 rfl
    (Or.inl (by decide))

end NestFastify.Outbox
