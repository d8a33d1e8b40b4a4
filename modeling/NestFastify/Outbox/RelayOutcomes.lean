import NestFastify.Outbox.RelaySteps
import Mathlib.Tactic.ByContra

/-!
# Publishes and commits

The two steps of a drain that others can see. A publish that the broker confirms is of a row that
no other drain has locked, unless the drain has been aborted; a commit makes the versions of the
drain the committed rows.
-/

namespace NestFastify.Outbox

open Messaging (Publication)

open RowStore (see)

section Steps

variable {D : Deployment} {q : ℕ → Prop} {s s' s₁ : OutboxState} {t t' : OutboxTxn} {d d' : Drain}
  {p p' : RelayPoint} {i : ℕ} {outcome : Outcome} {row r : OutboxEvent} {rest : List OutboxEvent}

/-! ## publish -/

theorem sentCount_append (confirmed : List Publication) (pub : Publication) (m : String) :
    sentCount (confirmed ++ [pub]) m =
      sentCount confirmed m + if pub.messageId = some m then 1 else 0 := by
  rw [sentCount, List.countP_append]
  by_cases h : pub.messageId = some m <;> simp [sentCount, h]

/-- A publish rejects, or the broker confirms a publication of the validated payload. -/
theorem runPublish_cases (outcome : Outcome) (routingKey : String) (payload : Json)
    (messageId : String) (requestId : Option String) :
    (∃ e, D.runPublish s outcome routingKey payload messageId requestId = (s, .error e)) ∨
    ∃ validated pub, Messaging.parseEvent D.z routingKey payload = .ok validated ∧
      pub.messageId = some messageId ∧ pub.routingKey = routingKey ∧
      pub.content = validated.toJson ∧ outcome = .resolves ∧
      D.runPublish s outcome routingKey payload messageId requestId =
        ({ s with confirmed := s.confirmed ++ [pub] }, .ok ()) := by
  unfold Deployment.runPublish Messaging.EventPublisherService.publish
  match Messaging.parseEvent D.z routingKey payload with
  | .error e => exact Or.inl ⟨e, rfl⟩
  | .ok validated =>
    match outcome with
    | .resolves => exact Or.inr ⟨validated, _, rfl, rfl, rfl, rfl, rfl, rfl⟩
    | .rejects e | .unanswered e => exact Or.inl ⟨e, rfl⟩

/-- A row that the drain has not written is seen as it is committed. -/
theorem Healthy.see_unwritten (hh : Healthy D q s t d p) (hr : r ∈ p.unwritten) :
    see OutboxEvent.id t r = r := by
  rw [see, hh.unwritten r hr]
  rfl

/-- The row under way is pending, and none of its publishes in this drain has been rejected. -/
theorem Healthy.publishing (hs : Inv D q s) (hh : Healthy D q s t d (.publishing row rest))
    (ht : s.db.txn? i = some t) : row ∈ s.db.rows ∧ row.id ∈ t.locked ∧ row.status = .pending ∧
      see OutboxEvent.id t row = row ∧ row.messageId ∉ d.rejected ∧
      Recorded D.maxAttempts s.confirmed ((s.recorded ++ d.rejected).count row.messageId) row := by
  obtain ⟨hrow, hlocked⟩ := hh.claimed row List.mem_cons_self
  have hsee := hh.see_unwritten (r := row) List.mem_cons_self
  have hversion : Recorded D.maxAttempts s.confirmed
      ((s.recorded ++ d.rejected).count row.messageId) (see OutboxEvent.id t row) :=
    hh.versions row hrow hlocked
  rw [hsee] at hversion
  obtain ⟨r, hr, hid, hpending⟩ := hs.pending i t ht _ hlocked
  rw [hs.eq_of_id hr hrow hid] at hpending
  refine ⟨hrow, hlocked, hpending, hsee, ?_, hversion⟩
  have hcount := hversion.attempts
  rw [(hs.rows row hrow).attempts, List.count_append] at hcount
  exact List.count_eq_zero.mp (by omega)

theorem count_concat_ne {l : List String} {m m' : String} (h : m ≠ m') :
    (l ++ [m]).count m' = l.count m' := by
  rw [List.count_append, List.count_singleton, if_neg (by simpa using h), Nat.add_zero]

/-- The publish of the row has rejected. -/
theorem Healthy.rejects (hs : Inv D q s) (hh : Healthy D q s t d (.publishing row rest))
    (ht : s.db.txn? i = some t) :
    Healthy D q s t { d with rejected := d.rejected ++ [row.messageId] } (.counting row rest) := by
  obtain ⟨hrow, hlocked, hpending, hsee, hnew, hrecorded⟩ := hh.publishing hs ht
  constructor
  · nofun
  · exact hh.batch
  · exact hh.claimed
  · exact hh.unwritten
  · exact hh.same
  · intro r hr hid
    show RelayPoint.Version _ _ ((s.recorded ++ (d.rejected ++ [row.messageId])).count _) _ _
    rw [← List.append_assoc]
    by_cases hrow' : r = row
    -- the row itself waits for the update that counts the failure
    · subst hrow'
      rw [hsee, RelayPoint.version_counting_self rfl, List.count_append, List.count_singleton_self]
      refine ⟨hpending, ?_, ?_⟩
      · rw [hrecorded.attempts]
      · rw [← not_le, ← hrecorded.failed, hpending]
        nofun
    · have hne : (see OutboxEvent.id t r).id ≠ row.id := by
        rw [(hh.same r hr).id]
        exact fun h => hrow' (hs.eq_of_id hr hrow h)
      rw [RelayPoint.version_counting_ne hne,
        count_concat_ne fun h => hrow' (hs.eq_of_messageId hr hrow h.symm)]
      exact hh.versions r hr hid
  · exact hh.publishedOnce
  · rw [← List.concat_eq_append]
    exact List.Nodup.concat hnew hh.rejectedOnce
  · intro m hm
    rcases List.mem_append.mp hm with hold | hlast
    · exact hh.rejected m hold
    · exact ⟨row, hrow, hlocked, (List.mem_singleton.mp hlast).symm⟩
  · exact hh.published
  · intro r hr hid
    rcases hh.handled r hr hid with huntried | hpublished | hrejected
    · rcases List.mem_cons.mp huntried with rfl | hrest
      · exact Or.inr (Or.inr (List.mem_append_right _ List.mem_cons_self))
      · exact Or.inl hrest
    · exact Or.inr (Or.inl hpublished)
    · exact Or.inr (Or.inr (List.mem_append_left _ hrejected))
  · exact hh.sent

/-- The broker has confirmed the row. -/
theorem Healthy.confirms (hs : Inv D q s) (hh : Healthy D q s t d (.publishing row rest))
    (ht : s.db.txn? i = some t) {pub : Publication} (hpub : Carries pub row) :
    Healthy D q { s with confirmed := s.confirmed ++ [pub] } t
      { d with published := d.published ++ [row.messageId] } (.marking row rest) := by
  obtain ⟨hrow, hlocked, hpending, hsee, -, -⟩ := hh.publishing hs ht
  have hsub : s.confirmed ⊆ s.confirmed ++ [pub] := List.subset_append_left _ _
  have hmarks : ∀ r ∈ s.db.rows, r ≠ row → decide (row.id = r.id) = false := fun r hr hne =>
    decide_eq_false fun h => hne (hs.eq_of_id hr hrow h.symm)
  constructor
  · nofun
  · exact hh.batch
  · exact hh.claimed
  · exact hh.unwritten
  · exact hh.same
  · intro r hr hid
    have hversion : Recorded D.maxAttempts s.confirmed _ _ := hh.versions r hr hid
    refine ⟨hversion.mono hsub, fun h => ?_⟩
    rw [(hh.same r hr).id] at h
    obtain rfl := hs.eq_of_id hr hrow h
    rw [hsee]
    exact ⟨hpending, pub, List.mem_append_right _ List.mem_cons_self, hpub⟩
  -- the version of a row that was published before is no longer PENDING
  · rw [← List.concat_eq_append]
    refine List.Nodup.concat (fun hm => ?_) hh.publishedOnce
    obtain ⟨r, hr, -, hmessage, hdone⟩ := hh.published _ hm
    rw [hs.eq_of_messageId hr hrow hmessage, hsee, hpending] at hdone
    exact hdone.elim nofun nofun
  · exact hh.rejectedOnce
  · exact hh.rejected
  · intro m hm
    rcases List.mem_append.mp hm with hold | hlast
    · obtain ⟨r, hr, hid, hm, hdone⟩ := hh.published m hold
      exact ⟨r, hr, hid, hm, hdone.imp_right fun h => Bool.noConfusion (h : false = true)⟩
    · exact ⟨row, hrow, hlocked, (List.mem_singleton.mp hlast).symm, Or.inr (decide_eq_true rfl)⟩
  · intro r hr hid
    rcases hh.handled r hr hid with huntried | hpublished | hrejected
    · rcases List.mem_cons.mp huntried with rfl | hrest
      · exact Or.inr (Or.inl (List.mem_append_right _ List.mem_cons_self))
      · exact Or.inl hrest
    · exact Or.inr (Or.inl (List.mem_append_left _ hpublished))
    · exact Or.inr (Or.inr hrejected)
  · intro hq r hr hid
    -- the message of the row is now with the broker, and its mark is still to come
    show sentCount (s.confirmed ++ [pub]) r.messageId = _
    rw [sentCount_append, hh.sent hq r hr hid]
    by_cases hrow' : r = row
    · subst hrow'
      rw [hsee, hpending]
      simp [RelayPoint.marks, hpub.1]
    · have hne : ¬ pub.messageId = some r.messageId := by
        rw [hpub.1]
        exact fun h => hrow' (hs.eq_of_messageId hr hrow (Option.some.inj h).symm)
      simp [RelayPoint.marks, hmarks r hr hrow', hne]

/-- Inside the transaction a drain can still commit, or it has been aborted. -/
theorem DrainInv.healthy_or (hI : DrainInv D q s i d p) (hin : p.inTransaction = true) :
    (∃ t, s.db.txn? i = some t ∧ t.failed = false) ∨
      (¬ q i ∧ ∀ t, s.db.txn? i = some t → t.failed = true) := by
  by_cases h : ∃ t, s.db.txn? i = some t ∧ t.failed = false
  · exact Or.inl h
  · refine Or.inr ⟨fun hq => h (hI.opened hq hin), fun t ht => ?_⟩
    by_contra hfailed
    exact h ⟨t, ht, by simpa using hfailed⟩

theorem Inv.rejects (hs : Inv D q s) (hI : DrainInv D q s i d (.publishing row rest))
    (hd' : d' = ⟨RelayPoint.program (D.relay i) (.counting row rest), d.published,
      d.rejected ++ [row.messageId]⟩) :
    Inv D q { s with drain := Function.update s.drain i (some d') } := by
  have hcode : d'.code = RelayPoint.program (D.relay i) (.counting row rest) := by rw [hd']
  rcases hI.healthy_or rfl with ⟨t, ht, hfailed⟩ | ⟨hq, hfailed⟩
  · have hh := (hI.healthy t ht hfailed rfl).rejects hs ht
    refine hs.of_relay (i := i) rfl rfl (fun j hj => ⟨Function.update_of_ne hj .., rfl⟩) rfl rfl
      hs.sound (hs.pending i) (fun _ u hu => ⟨u, hu, List.Subset.refl _⟩)
      (.intro (Function.update_self ..) hcode (.running hI.lt ht hfailed rfl ?_))
    exact (hh.congr (by rw [hd']) (by rw [hd'])).frame (.of_eq rfl rfl rfl)
  · have hne : RelayPoint.counting row rest ≠ .beginning := nofun
    exact hs.fails hq hI (Or.inl ⟨rfl, hfailed⟩) hne (Or.inl rfl) (List.Subset.refl _) hcode

/-- The broker has confirmed a message. What another drain has locked is another message. -/
theorem Inv.confirms (hs : Inv D q s) (hI : DrainInv D q s i d (.publishing row rest))
    {pub : Publication} (hmessage : pub.messageId = some row.messageId)
    (hpub : row ∈ s.db.rows → Carries pub row)
    (hd' : d' = ⟨RelayPoint.program (D.relay i) (.marking row rest),
      d.published ++ [row.messageId], d.rejected⟩) :
    Inv D q { s with
      drain := Function.update s.drain i (some d')
      confirmed := s.confirmed ++ [pub] } := by
  have hcode : d'.code = RelayPoint.program (D.relay i) (.marking row rest) := by rw [hd']
  have hsub : s.confirmed ⊆ s.confirmed ++ [pub] := List.subset_append_left _ _
  have hhealthy : (∀ j, q j) → ∃ t, s.db.txn? i = some t ∧ row ∈ s.db.rows ∧ row.id ∈ t.locked := by
    intro hq
    obtain ⟨t, ht, hfailed⟩ := hI.opened (hq i) rfl
    obtain ⟨hrow, hlocked⟩ := (hI.healthy t ht hfailed rfl).claimed row List.mem_cons_self
    exact ⟨t, ht, hrow, hlocked⟩
  -- the count of a row that this drain has not locked stays
  have hother : (∀ j, q j) → ∀ r ∈ s.db.rows, (∀ t, s.db.txn? i = some t → r.id ∉ t.locked) →
      sentCount (s.confirmed ++ [pub]) r.messageId = sentCount s.confirmed r.messageId := by
    intro hq r hr hunlocked
    obtain ⟨t, ht, hrow, hlocked⟩ := hhealthy hq
    have hne : ¬ pub.messageId = some r.messageId := by
      rw [hmessage]
      intro h
      rw [hs.eq_of_messageId hrow hr (Option.some.inj h)] at hlocked
      exact hunlocked t ht hlocked
    rw [sentCount_append, if_neg hne]
    rfl
  constructor
  · exact hs.sound
  · exact hs.ids
  · exact hs.messageIds
  · exact hs.typed
  · exact fun r hr => (hs.rows r hr).mono hsub
  · exact hs.pending
  · exact hs.recorded
  · intro j
    by_cases hj : j = i
    · subst hj
      refine .intro (Function.update_self ..) hcode ?_
      rcases hI.healthy_or rfl with ⟨t, ht, hfailed⟩ | ⟨hq, hfailed⟩
      · refine .running hI.lt ht hfailed rfl ?_
        have hh := hI.healthy t ht hfailed rfl
        have hnew := hh.confirms hs ht (hpub (hh.publishing hs ht).1)
        exact (hnew.congr (by rw [hd']) (by rw [hd'])).frame (.of_eq rfl rfl rfl)
      · exact .broken hq hI.lt nofun (Or.inl rfl) hI.known hfailed
    · refine (hs.relays j).frame (Function.update_of_ne hj ..) rfl rfl
        (fun r hr => ⟨r, hr, .refl r⟩) fun u hu => ?_
      refine ⟨fun _ _ => Iff.rfl, fun h => h, hsub, fun _ _ _ => rfl, fun hq r hr hlocked => ?_⟩
      refine hother hq r hr fun t ht hmem => hj ?_
      exact hs.sound.exclusive j i u t r.id hu ht hlocked hmem
  · intro hq p hp
    rcases List.mem_append.mp hp with hold | hnew
    · exact hs.confirmed hq p hold
    · obtain ⟨t, ht, hrow, -⟩ := hhealthy hq
      exact ⟨row, hrow, by rw [List.mem_singleton.mp hnew, hmessage]⟩
  · intro hq r hr hunlocked
    show sentCount (s.confirmed ++ [pub]) r.messageId = _
    rw [hother hq r hr fun t ht => hunlocked i t ht]
    exact hs.sent hq r hr hunlocked

/-! ## commit -/

theorem mem_commit (r : OutboxEvent) :
    r ∈ (s.db.commit OutboxEvent.id i t).rows ↔ ∃ r' ∈ s.db.rows, see OutboxEvent.id t r' = r :=
  List.mem_map

/-- A row that the transaction has not locked has had no publish rejected in its drain. -/
theorem Healthy.count_rejected (hs : Inv D q s) (hh : Healthy D q s t d p) (hr : r ∈ s.db.rows)
    (hunlocked : r.id ∉ t.locked) : d.rejected.count r.messageId = 0 := by
  rw [List.count_eq_zero]
  intro hm
  obtain ⟨r', hr', hlocked, hmessage⟩ := hh.rejected _ hm
  rw [hs.eq_of_messageId hr' hr hmessage] at hlocked
  exact hunlocked hlocked

/-- A drain that commits makes its versions the committed rows. -/
theorem Inv.commits (hs : Inv D q s) (hI : DrainInv D q s i d .committing)
    (ht : s.db.txn? i = some t) (hfailed : t.failed = false)
    (hp : p' ≠ .beginning) (hin : p'.inTransaction = false)
    (hcode : d'.code = p'.program (D.relay i)) :
    Inv D q { OutboxState.committed s i d t with
      drain := Function.update s.drain i (some d') } := by
  have hh := hI.healthy t ht hfailed rfl
  have hlength : (s.db.commit OutboxEvent.id i t).txns.length = s.db.txns.length :=
    List.length_set ..
  have hself : (s.db.commit OutboxEvent.id i t).txn? i = none := by
    rw [RowStore.txn?_commit]
    exact RowStore.txn?_rollback_self
  have hother : ∀ j, j ≠ i → (s.db.commit OutboxEvent.id i t).txn? j = s.db.txn? j := by
    intro j hj
    rw [RowStore.txn?_commit]
    exact RowStore.txn?_setTxn_ne (Ne.symm hj)
  have hunlocked : ∀ r ∈ s.db.rows, r.id ∉ t.locked → see OutboxEvent.id t r = r :=
    fun r _ h => RowStore.see_of_not_locked hs.sound ht h
  have hkeys : ∀ (f : OutboxEvent → String), (∀ r ∈ s.db.rows, f (see OutboxEvent.id t r) = f r) →
      (s.db.commit OutboxEvent.id i t).rows.map f = s.db.rows.map f := by
    intro f hf
    show (s.db.rows.map (see OutboxEvent.id t)).map f = _
    rw [List.map_map]
    exact List.map_congr_left hf
  -- what another transaction has locked is committed as before
  have hlocked : ∀ j u, j ≠ i → s.db.txn? j = some u → ∀ r ∈ s.db.rows, r.id ∈ u.locked →
      r.id ∉ t.locked := by
    intro j u hj hu r _ hmem hmem'
    exact hj (hs.sound.exclusive j i u t r.id hu ht hmem hmem')
  constructor
  · exact hs.sound.commit t
  · show ((s.db.commit OutboxEvent.id i t).rows.map OutboxEvent.id).Nodup
    rw [hkeys _ fun r hr => (hh.same r hr).id]
    exact hs.ids
  · show ((s.db.commit OutboxEvent.id i t).rows.map OutboxEvent.messageId).Nodup
    rw [hkeys _ fun r hr => (hh.same r hr).messageId]
    exact hs.messageIds
  · intro r hr
    obtain ⟨r', hr', rfl⟩ := (mem_commit r).mp hr
    rw [(hh.same r' hr').payload]
    exact hs.typed r' hr'
  · intro r hr
    obtain ⟨r', hr', rfl⟩ := (mem_commit r).mp hr
    rw [(hh.same r' hr').messageId]
    by_cases hmem : r'.id ∈ t.locked
    · exact hh.versions r' hr' hmem
    · show Recorded _ _ ((s.recorded ++ d.rejected).count r'.messageId) _
      rw [hunlocked r' hr' hmem, List.count_append, hh.count_rejected hs hr' hmem]
      exact hs.rows r' hr'
  · intro j u hu k hk
    by_cases hj : j = i
    · subst hj
      exact nomatch hself.symm.trans hu
    · have hu : s.db.txn? j = some u := (hother j hj).symm.trans hu
      obtain ⟨r, hr, rfl, hpending⟩ := hs.pending j u hu k hk
      refine ⟨r, (mem_commit r).mpr ⟨r, hr, ?_⟩, rfl, hpending⟩
      exact hunlocked r hr (hlocked j u hj hu r hr hk)
  · intro m hm
    have hm : ∃ r ∈ s.db.rows, r.messageId = m := by
      rcases List.mem_append.mp hm with hold | hnew
      · exact hs.recorded m hold
      · obtain ⟨r, hr, -, hmessage⟩ := hh.rejected m hnew
        exact ⟨r, hr, hmessage⟩
    obtain ⟨r, hr, hmessage⟩ := hm
    exact ⟨_, (mem_commit _).mpr ⟨r, hr, rfl⟩, by rw [(hh.same r hr).messageId, hmessage]⟩
  · intro j
    by_cases hj : j = i
    · subst hj
      exact .intro (Function.update_self ..) hcode (.ended (hlength ▸ hI.lt) hp hin hself)
    · refine (hs.relays j).frame (Function.update_of_ne hj ..) (hother j hj) hlength
        (fun r hr => ⟨_, (mem_commit _).mpr ⟨r, hr, rfl⟩, hh.same r hr⟩) fun u hu => ?_
      refine ⟨fun r hr => ?_, fun hsame r hr => ?_, List.Subset.refl _, fun r hr hmem => ?_,
        fun _ _ _ _ => rfl⟩
      · refine (mem_commit r).trans ⟨?_, fun hmem => ?_⟩
        · rintro ⟨r', hr', rfl⟩
          rw [(hh.same r' hr').id] at hr
          rw [hunlocked r' hr' (hlocked j u hj hu r' hr' hr)]
          exact hr'
        · exact ⟨r, hmem, hunlocked r hmem (hlocked j u hj hu r hmem hr)⟩
      · obtain ⟨r', hr', rfl⟩ := (mem_commit r).mp hr
        by_cases hmem : r'.id ∈ u.locked
        · rw [hunlocked r' hr' (hlocked j u hj hu r' hr' hmem)]
          exact hsame r' hr'
        · rw [RowStore.see_of_not_locked hs.sound hu (by rwa [(hh.same r' hr').id])]
          exact .refl _
      · show (s.recorded ++ d.rejected).count r.messageId = _
        rw [List.count_append, hh.count_rejected hs hr (hlocked j u hj hu r hr hmem),
          Nat.add_zero]
  · intro hq pub hpub
    obtain ⟨r, hr, hmessage⟩ := hs.confirmed hq pub hpub
    exact ⟨_, (mem_commit _).mpr ⟨r, hr, rfl⟩, by rw [(hh.same r hr).messageId, hmessage]⟩
  · intro hq r hr hfree
    obtain ⟨r', hr', rfl⟩ := (mem_commit r).mp hr
    rw [(hh.same r' hr').messageId]
    by_cases hmem : r'.id ∈ t.locked
    · show sentCount s.confirmed r'.messageId = _
      rw [hh.sent hq r' hr' hmem]
      simp [RelayPoint.marks]
    · rw [hunlocked r' hr' hmem] at hfree ⊢
      refine hs.sent hq r' hr' fun j u hu hmem' => ?_
      by_cases hj : j = i
      · subst hj
        rw [← Option.some.inj (ht.symm.trans hu)] at hmem'
        exact hmem hmem'
      · exact hfree j u ((hother j hj).trans hu) hmem'

end Steps

end NestFastify.Outbox
