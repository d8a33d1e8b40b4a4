import NestFastify.Redis.PubSub

/-!
# Message dispatch

The 'message' listener of `RedisPubSubService` (pubsub.service.ts). It goes through the array of
the channel while the handlers it calls may subscribe and unsubscribe, and it ends at once when
the payload does not parse or a handler throws.
-/

namespace NestFastify.Redis

/-- What a handler does when it is called: the calls of the service it makes, and the error it
throws after them. -/
structure Reaction (H : Type) where
  calls : List (PubSubCall H)
  thrown : Option JsError

/-- What the handlers do, each from the handlers called before it. -/
abbrev Behaviour (H M : Type) : Type := List (H × M) → H → M → Reaction H

/-- The handlers called with the message, the map they leave, and what the listener throws. -/
structure Dispatch (H M : Type) where
  called : List (H × M)
  handlers : RedisPubSubService.Handlers H
  thrown : Option JsError

namespace RedisPubSubService

section Listener

variable {H M : Type} (parse : String → Except JsError M) (behaviour : Behaviour H M)

/-- What a call made by a handler does to the map at once. -/
def apply (handlers : Handlers H) : PubSubCall H → Handlers H
  | .subscribe channel handler => (subscribe handlers channel handler).1
  | .unsubscribe channel => (unsubscribe handlers channel).1

/-- `for (const handler of list) handler(message)` from the index `i` on. The array is read anew
in each round; `none` is a loop that has not ended when the fuel is used up. -/
def forOf (list : ℕ) (message : M) :
    ℕ → ℕ → Handlers H → List (H × M) → Option (Dispatch H M)
  | 0, _, _, _ => none
  | fuel + 1, i, handlers, past =>
    match (handlers.array list)[i]? with
    | none => some ⟨past, handlers, none⟩
    | some handler =>
      let reaction := behaviour past handler message
      let handlers' := reaction.calls.foldl apply handlers
      let past' := past ++ [(handler, message)]
      match reaction.thrown with
      | some e => some ⟨past', handlers', some e⟩
      | none => forOf list message fuel (i + 1) handlers' past'

/-- The listener. -/
def onMessage (handlers : Handlers H) (channel payload : String) (fuel : ℕ) :
    Option (Dispatch H M) :=
  match handlers.address channel with
  | none => some ⟨[], handlers, none⟩
  | some list =>
    match parse payload with
    | .error e => some ⟨[], handlers, some e⟩
    | .ok message => forOf behaviour list message fuel 0 handlers []

/-- The dispatch ends, throws nothing, and has called each handler of the channel once, in order
and with the decoded message. -/
def ReachesEvery (handlers : Handlers H) (channel payload : String) : Prop :=
  ∃ fuel d, onMessage parse behaviour handlers channel payload fuel = some d ∧ d.thrown = none ∧
    ∀ message, parse payload = .ok message →
      d.called = ((handlers.get channel).getD []).map (·, message)

/-! ### What the handlers must not do -/

/-- What the handlers `l` do when they are called in order. -/
def reactions (message : M) : List (H × M) → List H → List (Reaction H)
  | _, [] => []
  | past, handler :: l =>
    behaviour past handler message :: reactions message (past ++ [(handler, message)]) l

/-- The calls subscribe to the channel before they unsubscribe from it. -/
def grows (channel : String) : List (PubSubCall H) → Bool
  | [] => false
  | .subscribe channel' _ :: calls => channel' = channel || grows channel calls
  | .unsubscribe channel' :: calls => channel' ≠ channel && grows channel calls

/-- No handler throws, and none adds to the list that is gone through. -/
def Peaceful (channel : String) (rs : List (Reaction H)) : Prop :=
  (∀ r ∈ rs, r.thrown = none) ∧ grows channel (rs.flatMap Reaction.calls) = false

end Listener

/-! ## The array that is gone through -/

section Held

variable {H M : Type} {handlers : Handlers H} {list : ℕ} {channel : String}
  {c : PubSubCall H} {calls later : List (PubSubCall H)}

/-- The array at `list` is that of `channel`, or of no channel any more. -/
structure Held (handlers : Handlers H) (channel : String) (list : ℕ) : Prop where
  allocated : list < handlers.arrays.length
  owned : ∀ {channel'}, handlers.address channel' = some list → channel' = channel

/-- The array of a channel is held for it. -/
theorem Held.of_address (h : handlers.address channel = some list) :
    Held handlers channel list :=
  ⟨handlers.allocated h, fun h' => handlers.separate h' h⟩

/-- A subscribe to another channel, or one after the array has left the map. -/
theorem subscribe_held (h : Held handlers channel list) {channel' : String} (handler : H)
    (hne : handlers.address channel' ≠ some list) :
    (subscribe handlers channel' handler).1.array list = handlers.array list ∧
      Held (subscribe handlers channel' handler).1 channel list ∧
      ((subscribe handlers channel' handler).1.address channel = some list →
        handlers.address channel = some list) := by
  unfold subscribe
  cases haddress : handlers.address channel' with
  | some existing =>
    have hlist : list ≠ existing := fun heq => hne (heq ▸ haddress)
    refine ⟨ArrayMap.array_push_ne hlist, ⟨?_, h.owned⟩, id⟩
    exact (List.length_modify _ _ _).symm ▸ h.allocated
  | none =>
    have haddress' : ∀ {k}, (handlers.set channel' [handler]).address k = some list →
        handlers.address k = some list := by
      intro k hk
      by_cases hk' : k = channel'
      · rw [hk', ArrayMap.address_set_self, Option.some.injEq] at hk
        exact absurd h.allocated (hk ▸ Nat.lt_irrefl _)
      · rwa [ArrayMap.address_set_ne hk'] at hk
    refine ⟨ArrayMap.array_set h.allocated, ⟨?_, fun hk => h.owned (haddress' hk)⟩, haddress'⟩
    show list < (handlers.arrays ++ [[handler]]).length
    rw [List.length_append]
    exact Nat.lt_add_right _ h.allocated

/-- After an `unsubscribe` it is held on, for the channel or for none. -/
theorem unsubscribe_held (h : Held handlers channel list) (channel' : String) :
    Held (unsubscribe handlers channel').1 channel list ∧
      ((unsubscribe handlers channel').1.address channel = some list →
        channel' ≠ channel ∧ handlers.address channel = some list) := by
  have haddress : ∀ {k}, (handlers.delete channel').address k = some list →
      channel' ≠ k ∧ handlers.address k = some list := by
    intro k hk
    by_cases hk' : k = channel'
    · rw [hk', ArrayMap.address_delete_self] at hk
      cases hk
    · rw [ArrayMap.address_delete_ne hk'] at hk
      exact ⟨Ne.symm hk', hk⟩
  exact ⟨⟨h.allocated, fun hk => h.owned (haddress hk).2⟩, haddress⟩

/-- Calls that do not add to the array leave it alone. -/
theorem foldl_apply_quiet (h : Held handlers channel list)
    (hquiet : handlers.address channel = some list → grows channel (calls ++ later) = false) :
    (calls.foldl apply handlers).array list = handlers.array list ∧
      Held (calls.foldl apply handlers) channel list ∧
      ((calls.foldl apply handlers).address channel = some list →
        grows channel later = false) := by
  induction calls generalizing handlers with
  | nil => exact ⟨rfl, h, hquiet⟩
  | cons c calls ih =>
    cases c with
    | subscribe channel' handler =>
      have hne : handlers.address channel' ≠ some list := by
        intro haddress
        obtain rfl := h.owned haddress
        have hgrows := hquiet haddress
        simp [grows] at hgrows
      obtain ⟨harray, hheld, haddress⟩ := subscribe_held h handler hne
      have hstep := ih hheld fun hk => by
        have hgrows := hquiet (haddress hk)
        simp only [List.cons_append, grows, Bool.or_eq_false_iff] at hgrows
        exact hgrows.2
      exact ⟨hstep.1.trans harray, hstep.2⟩
    | unsubscribe channel' =>
      obtain ⟨hheld, haddress⟩ := unsubscribe_held h channel'
      have hstep := ih hheld fun hk => by
        obtain ⟨hne, hk⟩ := haddress hk
        have hgrows := hquiet hk
        simpa [grows, hne] using hgrows
      exact hstep

/-- An array only grows. -/
theorem length_apply (hlist : list < handlers.arrays.length) :
    (handlers.array list).length ≤ ((apply handlers c).array list).length ∧
      list < (apply handlers c).arrays.length := by
  cases c with
  | unsubscribe channel' => exact ⟨Nat.le_refl _, hlist⟩
  | subscribe channel' handler =>
    rw [apply, subscribe]
    cases haddress : handlers.address channel' with
    | some existing =>
      refine ⟨?_, (List.length_modify _ _ _).symm ▸ hlist⟩
      by_cases heq : list = existing
      · rw [heq, ArrayMap.array_push_self (handlers.allocated haddress), List.length_append]
        omega
      · rw [ArrayMap.array_push_ne heq]
    | none =>
      refine ⟨Nat.le_of_eq (congrArg List.length (ArrayMap.array_set hlist).symm), ?_⟩
      show list < (handlers.arrays ++ [[handler]]).length
      rw [List.length_append]
      omega

/-- The array that is gone through never shrinks. -/
theorem length_foldl_apply (hlist : list < handlers.arrays.length) :
    (handlers.array list).length ≤ ((calls.foldl apply handlers).array list).length := by
  induction calls generalizing handlers with
  | nil => exact Nat.le_refl _
  | cons c calls ih =>
    obtain ⟨hle, hlist'⟩ := length_apply (c := c) hlist
    exact Nat.le_trans hle (ih hlist')

/-- Calls that subscribe before they unsubscribe add to the array. -/
theorem foldl_apply_grows (hlist : handlers.address channel = some list)
    (hgrows : grows channel calls = true) :
    (handlers.array list).length < ((calls.foldl apply handlers).array list).length := by
  induction calls generalizing handlers with
  | nil => cases hgrows
  | cons c calls ih =>
    obtain ⟨hle, hallocated⟩ := length_apply (c := c) (handlers.allocated hlist)
    cases c with
    | subscribe channel' handler =>
      by_cases heq : channel' = channel
      · have hpush : ((apply handlers (.subscribe channel' handler)).array list).length =
            (handlers.array list).length + 1 := by
          rw [apply, subscribe, heq, hlist]
          show ((handlers.push list handler).array list).length = _
          rw [ArrayMap.array_push_self (handlers.allocated hlist), List.length_append,
            List.length_singleton]
        have hrest := @length_foldl_apply _ _ _ calls hallocated
        rw [List.foldl_cons]
        omega
      -- a call about another channel leaves the array where it is
      · have haddress : (apply handlers (.subscribe channel' handler)).address channel =
            some list := by
          rw [apply, subscribe, ← hlist]
          cases handlers.address channel' with
          | some existing => rfl
          | none => exact ArrayMap.address_set_ne (Ne.symm heq)
        have hrest := ih haddress (by simpa [grows, heq] using hgrows)
        exact Nat.lt_of_le_of_lt hle hrest
    | unsubscribe channel' =>
      simp only [grows, Bool.and_eq_true, decide_eq_true_eq] at hgrows
      have haddress : (apply handlers (.unsubscribe channel')).address channel = some list := by
        rw [← hlist]
        exact ArrayMap.address_delete_ne (Ne.symm hgrows.1)
      exact Nat.lt_of_le_of_lt hle (ih haddress hgrows.2)

end Held

/-! ## The loop -/

section Loop

variable {H M : Type} {parse : String → Except JsError M} {behaviour : Behaviour H M}
  {handlers : Handlers H} {list fuel i : ℕ} {channel payload : String} {message : M}
  {past : List (H × M)} {d : Dispatch H M}

/-- The loop ends where the array does. -/
theorem forOf_end (hend : (handlers.array list)[i]? = none) :
    forOf behaviour list message (fuel + 1) i handlers past = some ⟨past, handlers, none⟩ := by
  rw [forOf, hend]

/-- A handler that does not throw is followed by the next one. -/
theorem forOf_round {handler : H} (hi : (handlers.array list)[i]? = some handler)
    (hthrown : (behaviour past handler message).thrown = none) :
    forOf behaviour list message (fuel + 1) i handlers past =
      forOf behaviour list message fuel (i + 1)
        ((behaviour past handler message).calls.foldl apply handlers)
        (past ++ [(handler, message)]) := by
  rw [forOf, hi]
  simp only [hthrown]

/-- A handler that throws ends the loop. -/
theorem forOf_thrown {handler : H} {e : JsError} (hi : (handlers.array list)[i]? = some handler)
    (hthrown : (behaviour past handler message).thrown = some e) :
    forOf behaviour list message (fuel + 1) i handlers past =
      some ⟨past ++ [(handler, message)],
        (behaviour past handler message).calls.foldl apply handlers, some e⟩ := by
  rw [forOf, hi]
  simp only [hthrown]

/-- Handlers that behave are all called: those of `pre` have been, those of `rest` are left. -/
theorem forOf_peaceful (pre : List H) {rest : List H} (hheld : Held handlers channel list)
    (harray : handlers.array list = pre ++ rest)
    (hthrown : ∀ r ∈ reactions behaviour message (pre.map (·, message)) rest, r.thrown = none)
    (hquiet : handlers.address channel = some list → grows channel
      ((reactions behaviour message (pre.map (·, message)) rest).flatMap Reaction.calls) = false) :
    ∃ d, forOf behaviour list message (rest.length + 1) pre.length handlers
        (pre.map (·, message)) = some d ∧
      d.thrown = none ∧ d.called = (pre ++ rest).map (·, message) := by
  induction rest generalizing pre handlers with
  | nil =>
    refine ⟨_, forOf_end ?_, rfl, by rw [List.append_nil]⟩
    rw [harray, List.append_nil]
    exact List.getElem?_eq_none (Nat.le_refl _)
  | cons handler rest ih =>
    rw [reactions, List.flatMap_cons] at hquiet
    have hi : (handlers.array list)[pre.length]? = some handler := by
      rw [harray, List.getElem?_append_right (Nat.le_refl _), Nat.sub_self, List.getElem?_cons_zero]
    have hhere := hthrown _ List.mem_cons_self
    obtain ⟨harray', hheld', hquiet'⟩ := foldl_apply_quiet hheld hquiet
    have hpast : (pre ++ [handler]).map (·, message) =
        pre.map (·, message) ++ [(handler, message)] := List.map_append
    have hpre : pre ++ handler :: rest = (pre ++ [handler]) ++ rest := List.append_cons ..
    have hrest := ih (pre ++ [handler]) hheld' (harray'.trans (harray.trans hpre))
      (hpast ▸ fun r hr => hthrown r (List.mem_cons_of_mem _ hr)) (hpast ▸ hquiet')
    obtain ⟨d, hd, hnothrow, hcalled⟩ := hrest
    refine ⟨d, ?_, hnothrow, hpre ▸ hcalled⟩
    rw [List.length_cons, forOf_round hi hhere]
    rwa [hpast, List.length_append, List.length_singleton] at hd

/-- What a loop that ends has done: it has called some handlers in order, their calls have been
made, and either one has thrown or the array has no more. -/
theorem forOf_eq_some (h : forOf behaviour list message fuel i handlers past = some d)
    (hnothrow : d.thrown = none) :
    ∃ hs : List H, d.called = past ++ hs.map (·, message) ∧
      (∀ r ∈ reactions behaviour message past hs, r.thrown = none) ∧
      ((((reactions behaviour message past hs).flatMap Reaction.calls).foldl apply
        handlers).array list).length ≤ i + hs.length := by
  induction fuel generalizing i handlers past with
  | zero => cases h
  | succ fuel ih =>
    cases hi : (handlers.array list)[i]? with
    | none =>
      rw [forOf_end hi] at h
      cases h
      exact ⟨[], (List.append_nil _).symm, nofun, List.getElem?_eq_none_iff.mp hi⟩
    | some handler =>
      cases hthrown : (behaviour past handler message).thrown with
      | some e =>
        rw [forOf_thrown hi hthrown] at h
        cases h
        cases hnothrow
      | none =>
        rw [forOf_round hi hthrown] at h
        obtain ⟨hs, hcalled, hall, hlength⟩ := ih h
        refine ⟨handler :: hs, ?_, ?_, ?_⟩
        · rw [hcalled, List.map_cons, List.append_assoc, List.singleton_append]
        · intro r hr
          rcases List.mem_cons.mp hr with rfl | hr
          · exact hthrown
          · exact hall r hr
        · rw [reactions, List.flatMap_cons, List.foldl_append, List.length_cons]
          omega

/-- A message reaches every handler of its channel exactly when there is none, or when the payload
can be decoded and the handlers, called in order, neither throw nor add to their list. -/
theorem reachesEvery_iff : ReachesEvery parse behaviour handlers channel payload ↔
    handlers.get channel = none ∨ ∃ l message, handlers.get channel = some l ∧
      parse payload = .ok message ∧ Peaceful channel (reactions behaviour message [] l) := by
  unfold ReachesEvery onMessage
  cases haddress : handlers.address channel with
  | none =>
    have hget : handlers.get channel = none := ArrayMap.get_eq_none_iff.mpr haddress
    refine ⟨fun _ => Or.inl hget, fun _ => ⟨0, _, rfl, rfl, fun message _ => ?_⟩⟩
    rw [hget]
    rfl
  | some list =>
    have hget : handlers.get channel = some (handlers.array list) :=
      ArrayMap.get_of_address haddress
    have hheld := Held.of_address haddress
    rw [hget]
    constructor
    · rintro ⟨fuel, d, hd, hnothrow, hcalled⟩
      cases hparse : parse payload with
      | error e =>
        rw [hparse] at hd
        cases hd
        cases hnothrow
      | ok message =>
        rw [hparse] at hd
        obtain ⟨hs, hhs, hall, hlength⟩ := forOf_eq_some hd hnothrow
        -- the handlers called are those of the array, so it has not grown
        have hsame : hs = handlers.array list := by
          have hmap := hhs.symm.trans (hcalled message hparse)
          exact List.map_injective_iff.mpr (fun _ _ h => congrArg Prod.fst h) hmap
        rw [hsame] at hall hlength
        refine Or.inr ⟨_, message, rfl, rfl, hall, ?_⟩
        by_contra hgrows
        rw [Bool.not_eq_false] at hgrows
        have hlt := foldl_apply_grows haddress hgrows
        omega
    · rintro (hnone | ⟨l, message, hl, hparse, hthrown, hquiet⟩)
      · cases hnone
      · cases hl
        obtain ⟨d, hd, hnothrow, hcalled⟩ :=
          forOf_peaceful [] hheld rfl hthrown fun _ => hquiet
        refine ⟨_, d, by rw [hparse]; exact hd, hnothrow, fun message' hparse' => ?_⟩
        rw [hparse] at hparse'
        cases hparse'
        exact hcalled

/-- Every round of such a loop adds a handler to the array. -/
theorem forOf_endless {handler : H}
    (hsubscribes : ∀ past handler',
      behaviour past handler' message = ⟨[.subscribe channel handler], none⟩)
    (haddress : handlers.address channel = some list) (hi : i < (handlers.array list).length)
    (fuel : ℕ) (past : List (H × M)) : forOf behaviour list message fuel i handlers past = none := by
  induction fuel generalizing i handlers past with
  | zero => rfl
  | succ fuel ih =>
    have hhere := List.getElem?_eq_getElem hi
    rw [forOf_round hhere (by rw [hsubscribes]), hsubscribes]
    have hpush : apply handlers (.subscribe channel handler) = handlers.push list handler := by
      rw [apply, subscribe, haddress]
    rw [List.foldl_cons, List.foldl_nil, hpush]
    have haddress' : (handlers.push list handler).address channel = some list := haddress
    refine ih haddress' ?_ _
    rw [ArrayMap.array_push_self (handlers.allocated haddress), List.length_append,
      List.length_singleton]
    omega

/-- A handler that subscribes each time it is called keeps the listener going for ever. -/
theorem onMessage_endless {l : List H} (handler : H)
    (hsubscribes : ∀ past handler',
      behaviour past handler' message = ⟨[.subscribe channel handler], none⟩)
    (hget : handlers.get channel = some l) (hne : l ≠ []) (hparse : parse payload = .ok message)
    (fuel : ℕ) : onMessage parse behaviour handlers channel payload fuel = none := by
  cases haddress : handlers.address channel with
  | none =>
    rw [ArrayMap.get_eq_none_iff.mpr haddress] at hget
    cases hget
  | some list =>
    rw [ArrayMap.get_of_address haddress, Option.some.injEq] at hget
    unfold onMessage
    simp only [haddress, hparse]
    exact forOf_endless hsubscribes haddress (hget ▸ List.length_pos_iff.mpr hne) fuel []

end Loop

/-! ## Two handlers, of which the first throws -/

def twoHandlers : Handlers String :=
  (subscribe (subscribe ArrayMap.empty "events" "first").1 "events" "second").1

def firstThrows : Behaviour String String := fun _ handler _ =>
  ⟨[], if handler = "first" then some (.typeError "x is not a function") else none⟩

/-- The second handler does not hear of the message, and the listener throws. -/
theorem not_reachesEvery : ¬ ∀ (parse : String → Except JsError String)
    (behaviour : Behaviour String String) (handlers : Handlers String) (channel payload : String),
    ReachesEvery parse behaviour handlers channel payload := by
  intro h
  obtain ⟨fuel, d, hd, hnothrow, -⟩ := h .ok firstThrows twoHandlers "events" "{}"
  cases fuel with
  | zero => cases hd
  | succ fuel =>
    have hthrown : onMessage .ok firstThrows twoHandlers "events" "{}" (fuel + 1) =
        some ⟨[("first", "{}")], twoHandlers, some (.typeError "x is not a function")⟩ := rfl
    rw [hthrown] at hd
    cases hd
    cases hnothrow

end RedisPubSubService

end NestFastify.Redis
