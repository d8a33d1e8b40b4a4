import NestFastify.Redis.Registration

/-!
# Subscriptions and messages over a whole run

What `RedisPubSubService` (pubsub.service.ts) keeps up in every run. Its map holds, for each
channel, the handlers subscribed since the last `unsubscribe`, in the order of the calls. The
connection follows the map one command at a time. The messages reach the listener in the order
they were published in, and each of them every handler that has stayed subscribed.
-/

namespace NestFastify.Redis

namespace PubSub

section Current

variable {H : Type} [DecidableEq H] {s s' : PubSub H} {i : ℕ} {channel : String}
  {handler : H} {c : PubSubCall H} {r : RedisPubSubService.Handlers (Registration H) × Bool}

/-! ## The handlers that are subscribed -/

/-- The registration by the call `i`, if it was `subscribe(channel, …)` and still counts. -/
def registration? (s : PubSub H) (channel : String) : PubSubCall H × ℕ → Option (Registration H)
  | (.subscribe channel' handler, i) =>
    if channel' = channel ∧ ¬ s.UnsubscribedAfter i channel then some ⟨i, handler⟩ else none
  | (.unsubscribe _, _) => none

/-- The handlers subscribed to the channel since its last `unsubscribe`, in order. -/
def current (s : PubSub H) (channel : String) : List (Registration H) :=
  (s.calls.map Issued.call).zipIdx.filterMap (s.registration? channel)

/-- A call registers its handler when it is a `subscribe` with no `unsubscribe` after it. -/
theorem registration?_eq_some {q : Registration H} :
    s.registration? channel (c, i) = some q ↔
      c = .subscribe channel q.handler ∧ i = q.call ∧ ¬ s.UnsubscribedAfter i channel := by
  cases c with
  | unsubscribe channel' => simp [registration?]
  | subscribe channel' handler =>
    obtain ⟨j, handler'⟩ := q
    simp only [registration?, Option.ite_none_right_eq_some, Option.some.injEq,
      Registration.mk.injEq, PubSubCall.subscribe.injEq]
    tauto

/-- The handlers that are subscribed are those that are registered. -/
theorem mem_current {q : Registration H} :
    q ∈ s.current channel ↔ s.Registered q.call channel q.handler := by
  rw [current, List.mem_filterMap, Registered, op_eq]
  constructor
  · rintro ⟨⟨c, i⟩, hmem, hq⟩
    obtain ⟨rfl, rfl, hafter⟩ := registration?_eq_some.mp hq
    exact ⟨List.mem_zipIdx_iff_getElem?.mp hmem, hafter⟩
  · rintro ⟨hop, hafter⟩
    exact ⟨(_, q.call), List.mem_zipIdx_iff_getElem?.mpr hop,
      registration?_eq_some.mpr ⟨rfl, rfl, hafter⟩⟩

/-- Only calls change what is subscribed. -/
theorem current_congr (h : s'.calls.map Issued.call = s.calls.map Issued.call) :
    s'.current channel = s.current channel := by
  rw [current, current, h]
  refine List.filterMap_congr fun x _ => ?_
  obtain ⟨c, i⟩ := x
  ext q
  rw [registration?_eq_some, registration?_eq_some, unsubscribedAfter_congr h]

/-- After any call but an `unsubscribe` of the channel. -/
theorem current_issue (hne : c ≠ .unsubscribe channel) : (s.issue c r).current channel =
    s.current channel ++ ((s.issue c r).registration? channel (c, s.calls.length)).toList := by
  have hold : (s.calls.map Issued.call).zipIdx.filterMap ((s.issue c r).registration? channel) =
      s.current channel := by
    refine List.filterMap_congr fun x hx => ?_
    obtain ⟨c', i⟩ := x
    have hi : i < s.calls.length := by
      have hget := List.mem_zipIdx_iff_getElem?.mp hx
      rw [List.getElem?_map] at hget
      obtain ⟨issued, hissued, -⟩ := Option.map_eq_some_iff.mp hget
      exact (List.getElem?_eq_some_iff.mp hissued).1
    ext q
    rw [registration?_eq_some, registration?_eq_some, unsubscribedAfter_issue hi, or_iff_left hne]
  have hcalls : (s.issue c r).calls.map Issued.call = s.calls.map Issued.call ++ [c] := by
    rw [issue, List.map_append, List.map_singleton]
  rw [current, hcalls, List.zipIdx_append, List.filterMap_append, hold]
  congr 1
  cases hreg : (s.issue c r).registration? channel (c, s.calls.length) with
  | none => simp [hreg]
  | some q => simp [hreg]

/-- A call for another channel leaves it as it is. -/
theorem current_issue_ne (hne : c.channel ≠ channel) :
    (s.issue c r).current channel = s.current channel := by
  have hreg : (s.issue c r).registration? channel (c, s.calls.length) = none := by
    cases c with
    | subscribe channel' handler => exact if_neg fun h => hne h.1
    | unsubscribe channel' => rfl
  have hother : c ≠ .unsubscribe channel := by
    rintro rfl
    exact hne rfl
  rw [current_issue hother, hreg, Option.toList_none, List.append_nil]

/-- A `subscribe` adds its handler at the end. -/
theorem current_issue_subscribe : (s.issue (.subscribe channel handler) r).current channel =
    s.current channel ++ [⟨s.calls.length, handler⟩] := by
  have hreg : (s.issue (.subscribe channel handler) r).registration? channel
      (.subscribe channel handler, s.calls.length) = some ⟨s.calls.length, handler⟩ :=
    if_pos ⟨rfl, not_unsubscribedAfter_issue_self⟩
  have hother : PubSubCall.subscribe channel handler ≠ .unsubscribe channel := by
    intro h
    cases h
  rw [current_issue hother, hreg, Option.toList_some]

/-- An `unsubscribe` leaves none. -/
theorem current_issue_unsubscribe : (s.issue (.unsubscribe channel) r).current channel = [] := by
  refine List.eq_nil_iff_forall_not_mem.mpr fun q hq => ?_
  rcases registered_issue.mp (mem_current.mp hq) with ⟨-, hne⟩ | ⟨-, h⟩
  · exact hne rfl
  · cases h

/-! ## The connection follows the map -/

/-- The channels the connection is subscribed to once its commands have been accepted. -/
def ahead (s : PubSub H) : Finset String :=
  s.commands.foldl (fun subscribed i => effect subscribed (s.op i)) s.subscribed

/-- Redis refuses no command. -/
def Accepting (_ : PubSub H) : PubSubAction H → Prop
  | .execute reply => reply = .ok ()
  | _ => True

instance (s : PubSub H) : DecidablePred s.Accepting
  | .execute reply => inferInstanceAs (Decidable (reply = .ok ()))
  | .call _ => inferInstanceAs (Decidable True)
  | .publish _ _ => inferInstanceAs (Decidable True)
  | .receive => inferInstanceAs (Decidable True)

/-- The map holds what is subscribed, and nothing else. -/
structure Faithful (s : PubSub H) : Prop where
  list : ∀ channel, s.list channel = s.current channel
  nonempty : ∀ channel, s.handlers.get channel ≠ some []

/-- The commands on the way are those of earlier calls, and lead to what the map holds. -/
structure Following (s : PubSub H) : Prop where
  sent : ∀ i ∈ s.commands, i < s.calls.length
  leads : ∀ channel, channel ∈ s.ahead ↔ s.current channel ≠ []

theorem Faithful.init : Faithful (PubSub.init : PubSub H) where
  list _ := rfl
  nonempty _ := nofun

theorem Following.init : Following (PubSub.init : PubSub H) where
  sent := nofun
  leads channel := by
    rw [ahead, PubSub.init]
    exact iff_of_false (Finset.notMem_empty channel) fun h => h rfl

/-- The map has no list for a channel when nobody is subscribed to it. -/
theorem Faithful.get_eq_none_iff (h : s.Faithful) :
    s.handlers.get channel = none ↔ s.current channel = [] := by
  rw [← h.list channel]
  cases hget : s.handlers.get channel with
  | none => exact iff_of_true rfl (list_of_get_none hget)
  | some l =>
    rw [list_of_get hget]
    refine iff_of_false (fun h => by cases h) fun hnil => ?_
    rw [hnil] at hget
    exact h.nonempty channel hget

/-- A step of the connection leaves the map and the calls as they are. -/
theorem Faithful.congr (h : s.Faithful) (hhandlers : s'.handlers = s.handlers)
    (hcalls : s'.calls.map Issued.call = s.calls.map Issued.call) : s'.Faithful where
  list channel := by
    rw [PubSub.list, hhandlers, current_congr hcalls]
    exact h.list channel
  nonempty channel := hhandlers ▸ h.nonempty channel

omit [DecidableEq H] in
/-- An accepted `SUBSCRIBE` adds its channel. -/
theorem mem_effect_subscribe {subscribed : Finset String} {channel' : String} :
    channel ∈ effect subscribed (some (.subscribe channel' handler)) ↔
      channel = channel' ∨ channel ∈ subscribed := Finset.mem_insert

omit [DecidableEq H] in
/-- An accepted `UNSUBSCRIBE` removes its channel. -/
theorem mem_effect_unsubscribe {subscribed : Finset String} {channel' : String} :
    channel ∈ effect subscribed (some (.unsubscribe channel' : PubSubCall H)) ↔
      channel ≠ channel' ∧ channel ∈ subscribed := Finset.mem_erase

omit [DecidableEq H] in
/-- A call that sends a command adds its effect at the end. -/
theorem ahead_issue (hsent : ∀ i ∈ s.commands, i < s.calls.length) :
    (s.issue c r).ahead = if r.2 then effect s.ahead (some c) else s.ahead := by
  have hops : ∀ (l : List ℕ) (subscribed : Finset String), (∀ i ∈ l, i < s.calls.length) →
      l.foldl (fun subscribed i => effect subscribed ((s.issue c r).op i)) subscribed =
        l.foldl (fun subscribed i => effect subscribed (s.op i)) subscribed := by
    intro l
    induction l with
    | nil => exact fun _ _ => rfl
    | cons i l ih =>
      intro subscribed hl
      rw [List.foldl_cons, List.foldl_cons, op_issue (hl i List.mem_cons_self)]
      exact ih _ fun j hj => hl j (List.mem_cons_of_mem i hj)
  have hold := hops s.commands s.subscribed hsent
  by_cases hr : r.2 = true
  · have hcommands : (s.issue c r).commands = s.commands ++ [s.calls.length] := if_pos hr
    rw [ahead, hcommands, List.foldl_append, List.foldl_cons, List.foldl_nil, op_issue_self,
      if_pos hr]
    exact congrArg (effect · (some c)) hold
  · have hcommands : (s.issue c r).commands = s.commands := if_neg hr
    rw [ahead, hcommands, if_neg hr]
    exact hold

omit [DecidableEq H] in
/-- The commands on the way stay those of earlier calls. -/
theorem sent_issue (hsent : ∀ i ∈ s.commands, i < s.calls.length) :
    ∀ i ∈ (s.issue c r).commands, i < (s.issue c r).calls.length := by
  intro i hi
  have hlen : (s.issue c r).calls.length = s.calls.length + 1 := by
    rw [issue, List.length_append, List.length_singleton]
  rw [hlen]
  by_cases hr : r.2 = true
  · have hcommands : (s.issue c r).commands = s.commands ++ [s.calls.length] := if_pos hr
    rw [hcommands, List.mem_append, List.mem_singleton] at hi
    rcases hi with hold | rfl
    · exact Nat.lt_succ_of_lt (hsent i hold)
    · exact Nat.lt_succ_self _
  · have hcommands : (s.issue c r).commands = s.commands := if_neg hr
    exact Nat.lt_succ_of_lt (hsent i (hcommands ▸ hi))

/-- A `subscribe` keeps the map faithful. -/
theorem Faithful.subscribe (h : s.Faithful) :
    (s.call (.subscribe channel handler)).Faithful := by
  rw [call]
  generalize hr : RedisPubSubService.subscribe s.handlers channel ⟨s.calls.length, handler⟩ = r
  have hne : ∀ {k}, k ≠ channel → r.1.get k = s.handlers.get k := fun hk =>
    hr ▸ RedisPubSubService.subscribe_ne hk
  have hself : r.1.get channel = some (s.current channel ++ [⟨s.calls.length, handler⟩]) := by
    rw [← h.list channel]
    rcases RedisPubSubService.subscribe_cases s.handlers channel ⟨s.calls.length, handler⟩ with
      ⟨l, hget, hnew, -⟩ | ⟨hget, hnew, -⟩
    · rw [← hr, hnew, list_of_get hget]
    · rw [← hr, hnew, list_of_get_none hget, List.nil_append]
  refine ⟨fun k => ?_, fun k => ?_⟩
  · by_cases hk : k = channel
    · rw [hk, current_issue_subscribe]
      exact list_of_get (s := s.issue _ r) hself
    · rw [current_issue_ne (Ne.symm hk), ← h.list k]
      exact congrArg (Option.getD · []) (hne hk)
  · by_cases hk : k = channel
    · rw [hk]
      change r.1.get channel ≠ some []
      rw [hself]
      simp
    · exact (hne hk).symm ▸ h.nonempty k

/-- So does an `unsubscribe`. -/
theorem Faithful.unsubscribe (h : s.Faithful) : (s.call (.unsubscribe channel)).Faithful := by
  refine ⟨fun k => ?_, fun k => ?_⟩
  · by_cases hk : k = channel
    · rw [hk, call, current_issue_unsubscribe]
      exact list_of_get_none (s := s.issue _ _) ArrayMap.get_delete_self
    · rw [call, current_issue_ne (Ne.symm hk), ← h.list k]
      exact congrArg (Option.getD · []) (ArrayMap.get_delete_ne hk)
  · by_cases hk : k = channel
    · rw [hk]
      exact fun hget => by cases hget.symm.trans ArrayMap.get_delete_self
    · exact (ArrayMap.get_delete_ne hk).symm ▸ h.nonempty k

/-- After a `subscribe` the connection will be on the channel. -/
theorem Following.subscribe (h : s.Following) (hmap : s.Faithful) :
    (s.call (.subscribe channel handler)).Following := by
  rw [call]
  generalize hr : RedisPubSubService.subscribe s.handlers channel ⟨s.calls.length, handler⟩ = r
  refine ⟨sent_issue h.sent, fun k => ?_⟩
  rw [ahead_issue h.sent]
  by_cases hk : k = channel
  · rw [hk, current_issue_subscribe]
    refine iff_of_true ?_ (by simp)
    by_cases hsends : r.2 = true
    · rw [if_pos hsends]
      exact mem_effect_subscribe.mpr (Or.inl rfl)
    -- it has joined a handler that was there already
    · rw [if_neg hsends]
      refine (h.leads channel).mpr fun hnil => hsends ?_
      have hnone := hmap.get_eq_none_iff.mpr hnil
      rcases RedisPubSubService.subscribe_cases s.handlers channel ⟨s.calls.length, handler⟩ with
        ⟨l, hget, -⟩ | ⟨-, -, hcommand⟩
      · cases hnone.symm.trans hget
      · rw [← hr, hcommand]
  · rw [current_issue_ne (Ne.symm hk), ← h.leads k]
    by_cases hsends : r.2 = true
    · rw [if_pos hsends, mem_effect_subscribe, or_iff_right hk]
    · rw [if_neg hsends]

/-- After an `unsubscribe` the connection will have left the channel. -/
theorem Following.unsubscribe (h : s.Following) :
    (s.call (.unsubscribe channel)).Following := by
  refine ⟨sent_issue h.sent, fun k => ?_⟩
  have hahead : (s.call (.unsubscribe channel)).ahead =
      effect s.ahead (some (.unsubscribe channel : PubSubCall H)) := ahead_issue h.sent
  rw [hahead, mem_effect_unsubscribe, call]
  by_cases hk : k = channel
  · rw [hk, current_issue_unsubscribe]
    exact iff_of_false (fun h => h.1 rfl) fun h => h rfl
  · rw [current_issue_ne (Ne.symm hk), ← h.leads k, and_iff_right hk]

/-- An accepted command has brought the connection one step further. -/
theorem Following.executed (h : s.Following) {rest : List ℕ} (hcommands : s.commands = i :: rest) :
    (s.executed i rest (.ok ())).Following where
  sent j hj := by
    have hlen : (s.executed i rest (.ok ())).calls.length = s.calls.length :=
      List.length_modify ..
    rw [hlen]
    exact h.sent j (hcommands ▸ List.mem_cons_of_mem i hj)
  leads k := by
    have hops : (s.executed i rest (.ok ())).op = s.op :=
      funext fun j => op_congr map_call_executed
    rw [current_congr map_call_executed, ← h.leads k, ahead, ahead, hops, hcommands]
    rfl

/-- A step that leaves the calls, the commands and the connection as they are. -/
theorem Following.congr (h : s.Following) (hcommands : s'.commands = s.commands)
    (hsubscribed : s'.subscribed = s.subscribed)
    (hcalls : s'.calls.map Issued.call = s.calls.map Issued.call) : s'.Following where
  sent j hj := by
    have hlen := congrArg List.length hcalls
    rw [List.length_map, List.length_map] at hlen
    rw [hlen]
    exact h.sent j (hcommands ▸ hj)
  leads k := by
    have hops : s'.op = s.op := funext fun j => op_congr hcalls
    rw [current_congr hcalls, ← h.leads k, ahead, ahead, hops, hcommands, hsubscribed]

/-- A publish changes neither the map nor the commands. -/
theorem publish_fields (s : PubSub H) (channel payload : String) :
    (s.publish channel payload).handlers = s.handlers ∧
      (s.publish channel payload).calls = s.calls ∧
      (s.publish channel payload).commands = s.commands ∧
      (s.publish channel payload).subscribed = s.subscribed ∧
      (s.publish channel payload).dispatched = s.dispatched := by
  unfold publish
  dsimp only
  split <;> exact ⟨rfl, rfl, rfl, rfl, rfl⟩

/-- Every step keeps the map faithful. -/
theorem Faithful.step {a : PubSubAction H} (h : s.Faithful) (hs : step s a = some s') :
    s'.Faithful := by
  cases a with
  | call c =>
    cases hs
    cases c with
    | subscribe channel handler => exact h.subscribe
    | unsubscribe channel => exact h.unsubscribe
  | execute reply =>
    obtain ⟨i, rest, -, rfl⟩ := execute_eq_some hs
    exact h.congr rfl map_call_executed
  | publish channel payload =>
    cases hs
    obtain ⟨hhandlers, hcalls, -⟩ := publish_fields s channel payload
    exact h.congr hhandlers (congrArg _ hcalls)
  | receive =>
    rcases receive_eq_some hs with ⟨i, rest, -, rfl⟩ | ⟨m, rest, -, rfl⟩
    · exact h.congr rfl map_call_replied
    · exact h.congr rfl rfl

/-- Every step that Redis does not refuse keeps the connection following. -/
theorem Following.step {a : PubSubAction H} (h : s.Following) (hmap : s.Faithful)
    (hok : s.Accepting a) (hs : PubSub.step s a = some s') : s'.Following := by
  cases a with
  | call c =>
    cases hs
    cases c with
    | subscribe channel handler => exact h.subscribe hmap
    | unsubscribe channel => exact h.unsubscribe
  | execute reply =>
    obtain ⟨i, rest, hcommands, rfl⟩ := execute_eq_some hs
    obtain rfl : reply = .ok () := hok
    exact h.executed hcommands
  | publish channel payload =>
    cases hs
    obtain ⟨-, hcalls, hcommands, hsubscribed, -⟩ := publish_fields s channel payload
    exact h.congr hcommands hsubscribed (congrArg _ hcalls)
  | receive =>
    rcases receive_eq_some hs with ⟨i, rest, -, rfl⟩ | ⟨m, rest, -, rfl⟩
    · exact h.congr rfl rfl map_call_replied
    · exact h.congr rfl rfl rfl

/-- The map is faithful in every state that is reached. -/
theorem Faithful.reaches {ok : PubSub H → PubSubAction H → Prop} (h₀ : s.Faithful)
    (h : Transition.Reaches PubSub.step ok s s') : s'.Faithful :=
  h.invariant h₀ fun _ _ _ hu _ hstep => hu.step hstep

/-- Without a refused command the connection follows in every state that is reached. -/
theorem following_of_reaches (h : Transition.Reaches PubSub.step Accepting init s) :
    s.Following :=
  h.invariant_under (fun _ => Faithful.init.reaches) Following.init
    fun _ _ _ hmap hu hok hstep => hu.step hmap hok hstep

/-! ## The messages on their way -/

def message? : Incoming H → Option (Message H)
  | .message m => some m
  | .reply _ => none

/-- All messages sent to the connection, those the listener has gone through first. -/
def stream (s : PubSub H) : List (Message H) :=
  s.dispatched.map Prod.fst ++ s.incoming.filterMap message?

omit [DecidableEq H] in
/-- A message joins the stream at its end. -/
theorem stream_append {incoming : List (Incoming H)} (hdispatched : s'.dispatched = s.dispatched)
    (hincoming : s'.incoming = s.incoming ++ incoming) :
    s'.stream = s.stream ++ incoming.filterMap message? := by
  rw [stream, stream, hdispatched, hincoming, List.filterMap_append, List.append_assoc]

omit [DecidableEq H] in
/-- The listener takes a message out of the stream only to record it there. -/
theorem stream_handed {m : Message H} {rest : List (Incoming H)}
    (hincoming : s.incoming = .message m :: rest) : (s.handed m rest).stream = s.stream := by
  have hmessages : s.incoming.filterMap message? = m :: rest.filterMap message? := by
    rw [hincoming]
    rfl
  rw [stream, stream, hmessages, handed, List.map_append, List.append_assoc]
  rfl

omit [DecidableEq H] in
/-- A reply is not in the stream. -/
theorem stream_replied {rest : List (Incoming H)} (hincoming : s.incoming = .reply i :: rest) :
    (s.replied i rest).stream = s.stream := by
  rw [stream, stream, hincoming]
  rfl

/-- A message to a channel of the connection joins the stream. -/
theorem stream_publish {payload : String} (h : channel ∈ s.subscribed) :
    (s.publish channel payload).stream =
      s.stream ++ [⟨channel, payload, s.standing channel⟩] := by
  rw [publish]
  simp only [if_pos h]
  exact @stream_append _ s _ [.message _] rfl rfl

/-- The stream only grows. -/
theorem stream_step {a : PubSubAction H} (hs : step s a = some s') : s.stream <+: s'.stream := by
  cases a with
  | call c =>
    cases hs
    cases c <;> exact List.prefix_rfl
  | execute reply =>
    obtain ⟨i, rest, -, rfl⟩ := execute_eq_some hs
    exact ⟨_, (@stream_append _ s (s.executed i rest reply) _ rfl rfl).symm⟩
  | publish channel payload =>
    cases hs
    by_cases hsub : channel ∈ s.subscribed
    · exact ⟨_, (stream_publish hsub).symm⟩
    · rw [publish]
      simp only [if_neg hsub]
      exact List.prefix_rfl
  | receive =>
    rcases receive_eq_some hs with ⟨i, rest, hincoming, rfl⟩ | ⟨m, rest, hincoming, rfl⟩
    · exact (stream_replied hincoming).symm ▸ List.prefix_rfl
    · exact (stream_handed hincoming).symm ▸ List.prefix_rfl

/-- What a call, once it has been made, is for good. -/
theorem calls_step (channel : String) {a : PubSubAction H} (hs : step s a = some s') :
    (∀ c, s.op i = some c → s'.op i = some c) ∧
      (i < s.calls.length → s.UnsubscribedAfter i channel → s'.UnsubscribedAfter i channel) := by
  have hsame : s'.calls.map Issued.call = s.calls.map Issued.call →
      (∀ c, s.op i = some c → s'.op i = some c) ∧
        (i < s.calls.length → s.UnsubscribedAfter i channel →
          s'.UnsubscribedAfter i channel) := fun hcalls =>
    ⟨fun c hc => (op_congr hcalls).trans hc, fun _ => (unsubscribedAfter_congr hcalls).mpr⟩
  cases a with
  | call c =>
    cases hs
    cases c <;> exact ⟨fun c hc => (op_issue (lt_of_op hc)).trans hc,
      fun hi hafter => (unsubscribedAfter_issue hi).mpr (Or.inl hafter)⟩
  | execute reply =>
    obtain ⟨i, rest, -, rfl⟩ := execute_eq_some hs
    exact hsame map_call_executed
  | publish channel payload =>
    cases hs
    exact hsame (congrArg _ (publish_fields s channel payload).2.1)
  | receive =>
    rcases receive_eq_some hs with ⟨i, rest, -, rfl⟩ | ⟨m, rest, -, rfl⟩
    · exact hsame map_call_replied
    · exact hsame rfl

/-- The listener goes through the messages one by one, with the handlers it finds. -/
theorem dispatched_step {a : PubSubAction H} (hs : step s a = some s') :
    s'.dispatched = s.dispatched ∨
      ∃ m rest, s.incoming = .message m :: rest ∧
        s'.dispatched = s.dispatched ++ [(m, s.list m.channel)] := by
  cases a with
  | call c =>
    cases hs
    cases c <;> exact Or.inl rfl
  | execute reply =>
    obtain ⟨i, rest, -, rfl⟩ := execute_eq_some hs
    exact Or.inl rfl
  | publish channel payload =>
    cases hs
    exact Or.inl (publish_fields s channel payload).2.2.2.2
  | receive =>
    rcases receive_eq_some hs with ⟨i, rest, -, rfl⟩ | ⟨m, rest, hincoming, rfl⟩
    · exact Or.inl rfl
    · exact Or.inr ⟨m, rest, hincoming, rfl⟩

/-- The handlers called with `m` have subscribed to its channel, and those of `due` are among them
unless they have been unsubscribed. -/
def Reached (s : PubSub H) (m : Message H) (due called : List (Registration H)) : Prop :=
  (∀ q ∈ called, s.op q.call = some (.subscribe m.channel q.handler)) ∧
    ∀ q ∈ due, q ∈ called ∨ s.UnsubscribedAfter q.call m.channel

/-- The message `m` is at its place in the stream, with the handlers `due` subscribed before. -/
structure Arriving (m : Message H) (due : List (Registration H)) (n : ℕ) (s : PubSub H) :
    Prop where
  place : s.stream[n]? = some m
  known : ∀ q ∈ due, s.op q.call = some (.subscribe m.channel q.handler)
  reached : ∀ d, s.dispatched[n]? = some d → s.Reached m due d.2

variable {m : Message H} {due called : List (Registration H)} {n : ℕ}

/-- Later steps leave a dispatch as it was, except for what is unsubscribed after it. -/
theorem Reached.step {a : PubSubAction H} (h : s.Reached m due called)
    (hdue : ∀ q ∈ due, s.op q.call = some (.subscribe m.channel q.handler))
    (hs : PubSub.step s a = some s') : s'.Reached m due called := by
  refine ⟨fun q hq => (calls_step m.channel hs).1 _ (h.1 q hq), fun q hq => ?_⟩
  rcases h.2 q hq with hcalled | hafter
  · exact Or.inl hcalled
  · exact Or.inr ((calls_step m.channel hs).2 (lt_of_op (hdue q hq)) hafter)

/-- The handlers that the listener finds. -/
theorem Faithful.reached (h : s.Faithful)
    (hdue : ∀ q ∈ due, s.op q.call = some (.subscribe m.channel q.handler)) :
    s.Reached m due (s.list m.channel) := by
  rw [h.list]
  refine ⟨fun q hq => (mem_current.mp hq).1, fun q hq => ?_⟩
  by_cases hafter : s.UnsubscribedAfter q.call m.channel
  · exact Or.inr hafter
  · exact Or.inl (mem_current.mpr ⟨hdue q hq, hafter⟩)

omit [DecidableEq H] in
/-- The listener goes through the stream in order. -/
theorem stream_dispatched {d : Message H × List (Registration H)}
    (hd : s.dispatched[n]? = some d) : s.stream[n]? = some d.1 := by
  have hlt := (List.getElem?_eq_some_iff.mp hd).1
  have hmap : n < (s.dispatched.map Prod.fst).length := (List.length_map Prod.fst).symm ▸ hlt
  rw [stream, List.getElem?_append_left hmap, List.getElem?_map, hd, Option.map_some]

/-- A message on its way keeps its place, and is handed to those it is due to. -/
theorem Arriving.step {a : PubSubAction H} (h : Arriving m due n s) (hmap : s.Faithful)
    (hs : PubSub.step s a = some s') : Arriving m due n s' := by
  have hplace : s'.stream[n]? = some m := by
    obtain ⟨later, hlater⟩ := stream_step hs
    rw [← hlater, List.getElem?_append_left (List.getElem?_eq_some_iff.mp h.place).1, h.place]
  refine ⟨hplace, fun q hq => (calls_step m.channel hs).1 _ (h.known q hq),
    fun d hd => ?_⟩
  have hsame := Option.some.inj ((stream_dispatched hd).symm.trans hplace)
  rcases dispatched_step hs with hold | ⟨m', rest, -, hnew⟩
  · rw [hold] at hd
    exact (h.reached d hd).step h.known hs
  · rw [hnew, List.getElem?_append] at hd
    split at hd
    · exact (h.reached d hd).step h.known hs
    -- the listener goes through the message now, with the handlers of this moment
    · rw [List.getElem?_singleton, Option.ite_none_right_eq_some] at hd
      obtain rfl := Option.some.inj hd.2
      obtain rfl : m' = m := hsame
      exact (hmap.reached h.known).step h.known hs

/-- A message that is published is on its way to the handlers that are subscribed. -/
theorem arriving_publish {payload : String} (hsub : channel ∈ s.subscribed) :
    Arriving ⟨channel, payload, s.standing channel⟩ (s.current channel) s.stream.length
      (s.publish channel payload) where
  place := by
    rw [stream_publish hsub]
    exact List.getElem?_concat_length
  known q hq := by
    have hcalls := congrArg (List.map Issued.call) (publish_fields s channel payload).2.1
    exact (op_congr hcalls).trans (mem_current.mp hq).1
  reached d hd := by
    rw [(publish_fields s channel payload).2.2.2.2] at hd
    have hlt := (List.getElem?_eq_some_iff.mp hd).1
    rw [stream, List.length_append, List.length_map] at hlt
    omega

omit [DecidableEq H] in
/-- A message in the stream is on its way, or the listener has gone through it. -/
theorem incoming_or_dispatched (h : s.stream[n]? = some m) :
    .message m ∈ s.incoming ∨ ∃ called, s.dispatched[n]? = some (m, called) := by
  cases hd : s.dispatched[n]? with
  | some d =>
    have hsame := Option.some.inj ((stream_dispatched hd).symm.trans h)
    exact Or.inr ⟨d.2, congrArg some (Prod.ext hsame rfl)⟩
  | none =>
    have hle : (s.dispatched.map Prod.fst).length ≤ n :=
      (List.length_map Prod.fst).symm ▸ List.getElem?_eq_none_iff.mp hd
    rw [stream, List.getElem?_append_right hle] at h
    obtain ⟨incoming, hmem, hm⟩ := List.mem_filterMap.mp (List.mem_of_getElem? h)
    cases incoming with
    | reply i => cases hm
    | message m' =>
      obtain rfl := Option.some.inj hm
      exact Or.inl hmem

/-! ## Results -/

/-- As long as Redis refuses no command the connection follows the map, which holds what is
subscribed. -/
theorem subscriptions_follow (h : Transition.Reaches step Accepting init s) (channel : String) :
    s.list channel = s.current channel ∧ (channel ∈ s.ahead ↔ s.current channel ≠ []) ∧
      (s.commands = [] → (channel ∈ s.subscribed ↔ s.current channel ≠ [])) := by
  have hleads := (following_of_reaches h).leads channel
  refine ⟨(Faithful.init.reaches h).list channel, hleads, fun hquiet => ?_⟩
  rwa [ahead, hquiet] at hleads

/-- A channel is left and joined again before Redis has executed the first command. -/
def rejoining : List (PubSubAction String) :=
  [.call (.subscribe "events" "first"), .call (.unsubscribe "events"),
    .call (.subscribe "events" "second"), .call (.subscribe "events" "third"),
    .execute (.ok ()), .execute (.ok ()), .execute (.ok ())]

/-- The map and the connection agree once the commands have been executed. -/
theorem subscriptions_follow_rejoining : ∃ s : PubSub String, s.commands = [] ∧
    s.current "events" = [⟨2, "second"⟩, ⟨3, "third"⟩] ∧
    (s.list "events" = s.current "events" ∧
      ("events" ∈ s.ahead ↔ s.current "events" ≠ []) ∧
      (s.commands = [] → ("events" ∈ s.subscribed ↔ s.current "events" ≠ []))) := by
  have hrun : (Transition.run step Accepting init rejoining).map (fun s =>
      decide (s.commands = [] ∧ s.current "events" = [⟨2, "second"⟩, ⟨3, "third"⟩])) =
        some true := by
    decide
  obtain ⟨s, hreaches, hp⟩ := Transition.exists_reaches_of_run hrun
  obtain ⟨hquiet, hcurrent⟩ := of_decide_eq_true hp
  exact ⟨s, hquiet, hcurrent, subscriptions_follow hreaches "events"⟩

/-- A message published when no command is on its way keeps its place in the stream, and reaches
the handlers of its channel that are not unsubscribed before. -/
theorem published_arrives (h : Transition.Reaches step Accepting init s) (hquiet : s.commands = [])
    {payload : String} (hsubscribed : s.current channel ≠ [])
    (h' : Transition.Reaches step (fun _ _ => True) (s.publish channel payload) s') :
    ∃ m : Message H, m.channel = channel ∧ m.payload = payload ∧
      s'.stream[s.stream.length]? = some m ∧
      (.message m ∈ s'.incoming ∨ ∃ called, s'.dispatched[s.stream.length]? = some (m, called) ∧
        s'.Reached m (s.current channel) called) := by
  have hmap := Faithful.init.reaches h
  have hsub : channel ∈ s.subscribed := by
    have hleads := (following_of_reaches h).leads channel
    rw [ahead, hquiet] at hleads
    exact hleads.mpr hsubscribed
  have hpublish : (s.publish channel payload).Faithful :=
    hmap.step (a := .publish channel payload) rfl
  have harriving := h'.invariant_under (fun _ hu => hpublish.reaches hu)
    (arriving_publish hsub) fun _ _ _ hmap hu _ hv => hu.step hmap hv
  refine ⟨_, rfl, rfl, harriving.place, ?_⟩
  rcases incoming_or_dispatched harriving.place with hincoming | ⟨called, hd⟩
  · exact Or.inl hincoming
  · exact Or.inr ⟨called, hd, harriving.reached _ hd⟩

/-- A third handler joins while the message is on its way. -/
theorem published_arrives_joined : ∃ (s s' : PubSub String) (m : Message String),
    s'.dispatched = [(m, [⟨0, "first"⟩, ⟨1, "second"⟩, ⟨2, "third"⟩])] ∧
      s'.Reached m (s.current "events") [⟨0, "first"⟩, ⟨1, "second"⟩, ⟨2, "third"⟩] := by
  let joined : List (PubSubAction String) :=
    [.call (.subscribe "events" "first"), .call (.subscribe "events" "second"),
      .execute (.ok ()), .receive]
  let later : List (PubSubAction String) := [.call (.subscribe "events" "third"), .receive]
  have hrun : (Transition.run step Accepting init joined).map (fun s =>
      decide (s.commands = [] ∧ s.current "events" ≠ [] ∧ s.stream.length = 0 ∧
        (Transition.run step (fun _ _ => True) (s.publish "events" "{}") later).map (fun s' =>
          decide (s'.incoming.length = 0 ∧ s'.dispatched.map Prod.snd =
            [[⟨0, "first"⟩, ⟨1, "second"⟩, ⟨2, "third"⟩]])) = some true)) = some true := by
    decide
  obtain ⟨s, hreaches, hp⟩ := Transition.exists_reaches_of_run hrun
  obtain ⟨hquiet, hsubscribed, hempty, hlater⟩ := of_decide_eq_true hp
  obtain ⟨s', hreaches', hp'⟩ := Transition.exists_reaches_of_run hlater
  obtain ⟨hincoming, hdispatched⟩ := of_decide_eq_true hp'
  obtain ⟨d, rest, hd, hcalled, hrest⟩ := List.map_eq_cons_iff.mp hdispatched
  rw [List.map_eq_nil_iff.mp hrest] at hd
  obtain ⟨m, -, -, -, harrived⟩ := published_arrives hreaches hquiet hsubscribed hreaches'
  rcases harrived with hon | ⟨called, hplace, hreached⟩
  · rw [List.length_eq_zero_iff.mp hincoming] at hon
    cases hon
  · rw [hempty, hd] at hplace
    obtain rfl := Option.some.inj hplace
    obtain rfl : called = _ := hcalled
    exact ⟨s, s', m, hd, hreached⟩

end Current

end PubSub

end NestFastify.Redis
