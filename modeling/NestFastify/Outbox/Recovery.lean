import NestFastify.Outbox.Progress

/-!
# A row that has not failed

From every state there is a way on which the broker accepts every publish, no row is enqueued, and
a row that has not failed is published, whatever has been counted for it and wherever the relays
are: they die, and then one relay drains alone, batch after batch.
-/

namespace NestFastify.Outbox

open Transition (Reaches)

/-- The broker accepts what the step publishes, and the step adds no row. -/
def OutboxState.Resending (s : OutboxState) (a : RelayAction) : Prop :=
  s.accepts a = true ∧ ∀ data id randomUUID createdAt, a ≠ .enqueue data id randomUUID createdAt

variable {D : Deployment} {q : ℕ → Prop} {s s' : OutboxState} {r : OutboxEvent}

/-! ## Runs without new rows -/

theorem Inv.rows_length_le (hs : Inv D q s) {a : RelayAction} (hstep : D.step s a = some s') :
    s.db.rows.length ≤ s'.db.rows.length := by
  match (hs.rowsStep hstep).1 with
  | .same _ hrows _ => rw [hrows]
  | .enqueued _ _ _ hrows _ =>
    rw [hrows, List.length_append]
    exact Nat.le_add_right _ _
  | .committed _ _ _ _ _ _ _ _ hrows _ => rw [hrows, List.length_map]

/-- A run at whose end there are as many rows as before has enqueued none. -/
theorem Inv.resending_of_reaches (hmax : 1 ≤ D.maxAttempts) (hs : Inv D (fun _ => False) s)
    (h : Reaches D.step (fun u a => u.accepts a = true) s s') :
    s.db.rows.length ≤ s'.db.rows.length ∧
      (s'.db.rows.length = s.db.rows.length → Reaches D.step OutboxState.Resending s s') := by
  induction h with
  | refl => exact ⟨le_rfl, fun _ => .refl s⟩
  | @tail u v hu hnext ih =>
    obtain ⟨a, haccepts, hstep⟩ := hnext
    have hinv : Inv D (fun _ => False) u := hs.run hmax nofun hu
    have hle : u.db.rows.length ≤ v.db.rows.length := hinv.rows_length_le hstep
    refine ⟨ih.1.trans hle, fun heq => ?_⟩
    have hsame : u.db.rows.length = s.db.rows.length := by
      have hold := ih.1
      omega
    refine (ih.2 hsame).tail ⟨haccepts, fun data id randomUUID createdAt hadd => ?_⟩ hstep
    subst hadd
    obtain ⟨-, rfl⟩ := enqueue_eq_some hstep
    have hlength : (u.db.insert (PrismaOutboxRepository.enqueue id randomUUID createdAt
        data)).rows.length = u.db.rows.length + 1 := List.length_append
    have hbefore : (u.db.insert (PrismaOutboxRepository.enqueue id randomUUID createdAt
        data)).rows.length = s.db.rows.length := heq
    omega

/-- From every state a row that has not failed can be published, without a row being added. -/
theorem Inv.can_publish (hmax : 1 ≤ D.maxAttempts) (hbatch : 0 < D.batch 0)
    (hs : Inv D (fun _ => False) s) (hlt : 0 < s.db.txns.length) (hr : r ∈ s.db.rows)
    (hfailed : r.status ≠ .failed) {v : Messaging.EventPayload}
    (hvalid : Messaging.parseEvent D.z r.routingKey r.payload = .ok v) :
    ∃ s', Reaches D.step OutboxState.Resending s s' ∧
      ∃ r' ∈ s'.db.rows, SameEvent r r' ∧ r'.status = .published := by
  obtain ⟨s₁, hreach₁, hs₁, hidle, hrows₁, hlength₁⟩ := hs.crashes hmax s.db.txns.length
  -- what a drain under way has seen is lost with it
  have hretryable : Retryable r (s₁.recorded.count r.messageId) s₁ := by
    refine ⟨⟨r, hrows₁ ▸ hr, .refl r⟩, rfl, fun i d hd => ?_⟩
    obtain ⟨p, -, hI⟩ := hs₁.drain hd
    have hlt : i < s₁.db.txns.length := hI.lt
    rw [hidle i (hlength₁ ▸ hlt)] at hd
    cases hd
  have hk : s₁.recorded.count r.messageId < D.maxAttempts := by
    have hrecorded := hs₁.rows r (hrows₁ ▸ hr)
    rw [← hrecorded.attempts, ← not_le, ← hrecorded.failed]
    exact hfailed
  obtain ⟨s₂, hreach₂, hrows₂, hfinal⟩ :=
    hretryable.can_publish hmax hbatch hvalid hs₁ hk (hlength₁ ▸ hlt) le_rfl
  refine ⟨s₂, (hs.resending_of_reaches hmax (hreach₁.trans hreach₂)).2 ?_, hfinal⟩
  rw [hrows₂, hrows₁]

end NestFastify.Outbox
