import NestFastify.Foundation.ArrayMap
import NestFastify.Foundation.JavaScript
import NestFastify.Foundation.Transition
import Mathlib.Data.Finset.Erase
import Mathlib.Data.Finset.Insert

/-!
# Pub/sub

`RedisPubSubService` (pubsub.service.ts) and the connection it subscribes on. The handlers of a
channel change as soon as `subscribe` or `unsubscribe` is called; the command that goes with it is
executed later, in the order of the calls, and its reply takes the same way back as the messages.
-/

namespace NestFastify.Redis

/-- A call of the service, with its arguments. -/
inductive PubSubCall (H : Type) where
  | subscribe (channel : String) (handler : H)
  | unsubscribe (channel : String)
deriving DecidableEq

def PubSubCall.channel {H : Type} : PubSubCall H → String
  | subscribe channel _ => channel
  | unsubscribe channel => channel

/-! ## The service -/

namespace RedisPubSubService

/-- The field `handlers`. -/
abbrev Handlers (H : Type) : Type := ArrayMap String H

variable {H : Type} (handlers : Handlers H)

/-- `subscribe`, up to its command: the handlers it leaves, and whether it sends SUBSCRIBE. -/
def subscribe (channel : String) (handler : H) : Handlers H × Bool :=
  match handlers.address channel with
  -- the channel is subscribed, or its command is on the way
  | some existing => (handlers.push existing handler, false)
  | none => (handlers.set channel [handler], true)

/-- `unsubscribe`, up to its command. -/
def unsubscribe (channel : String) : Handlers H × Bool := (handlers.delete channel, true)

/-- A handler joins the list of its channel, or opens one and sends SUBSCRIBE. -/
theorem subscribe_cases (channel : String) (handler : H) :
    (∃ l, handlers.get channel = some l ∧
      (subscribe handlers channel handler).1.get channel = some (l ++ [handler]) ∧
      (subscribe handlers channel handler).2 = false) ∨
    handlers.get channel = none ∧
      (subscribe handlers channel handler).1.get channel = some [handler] ∧
      (subscribe handlers channel handler).2 = true := by
  unfold subscribe
  cases haddress : handlers.address channel with
  | some existing =>
    exact Or.inl ⟨_, ArrayMap.get_of_address haddress, ArrayMap.get_push_self haddress, rfl⟩
  | none =>
    exact Or.inr ⟨ArrayMap.get_eq_none_iff.mpr haddress, ArrayMap.get_set_self, rfl⟩

variable {handlers} {channel : String} {handler : H}

/-- A `subscribe` leaves the other channels as they are. -/
theorem subscribe_ne {channel' : String} (hne : channel' ≠ channel) :
    (subscribe handlers channel handler).1.get channel' = handlers.get channel' := by
  unfold subscribe
  cases haddress : handlers.address channel with
  | some existing => exact ArrayMap.get_push_ne haddress hne
  | none => exact ArrayMap.get_set_ne hne

end RedisPubSubService

/-! ## The connection -/

/-- How far a call has got: its command is on the way, executed, or the call has settled. -/
inductive Progress where
  | sent
  | executed (reply : Except JsError Unit)
  | settled (outcome : Except JsError Unit)
deriving DecidableEq

structure Issued (H : Type) where
  call : PubSubCall H
  progress : Progress
deriving DecidableEq

/-- A handler in the map, with the call that put it there. -/
structure Registration (H : Type) where
  call : ℕ
  handler : H
deriving DecidableEq

/-- A published message. `due` are the subscriptions that stood when it was published. -/
structure Message (H : Type) where
  channel : String
  payload : String
  due : List (Registration H)

inductive Incoming (H : Type) where
  | reply (call : ℕ)
  | message (m : Message H)

/-- The service and its connection. `calls` are all calls so far; `commands` are those whose
command is not executed yet. `lost` are the messages that were not sent to the connection, and
`dispatched` those the listener has gone through, with the handlers it found. -/
structure PubSub (H : Type) where
  handlers : RedisPubSubService.Handlers (Registration H)
  calls : List (Issued H)
  commands : List ℕ
  subscribed : Finset String
  incoming : List (Incoming H)
  lost : List (Message H)
  dispatched : List (Message H × List (Registration H))

inductive PubSubAction (H : Type) where
  | call (c : PubSubCall H)
  | execute (reply : Except JsError Unit)
  | publish (channel payload : String)
  | receive

namespace PubSub

section System

variable {H : Type} (s : PubSub H)

def init : PubSub H := ⟨ArrayMap.empty, [], [], ∅, [], [], []⟩

/-- A call takes effect on the handlers; it sends its command or has resolved already. -/
def issue (c : PubSubCall H) (r : RedisPubSubService.Handlers (Registration H) × Bool) :
    PubSub H :=
  { s with
    handlers := r.1
    calls := s.calls ++ [⟨c, if r.2 then .sent else .settled (.ok ())⟩]
    commands := if r.2 then s.commands ++ [s.calls.length] else s.commands }

def call : PubSubCall H → PubSub H
  | .subscribe channel handler => s.issue (.subscribe channel handler)
      (RedisPubSubService.subscribe s.handlers channel ⟨s.calls.length, handler⟩)
  | .unsubscribe channel => s.issue (.unsubscribe channel)
      (RedisPubSubService.unsubscribe s.handlers channel)

/-- The call `i`. -/
def op (i : ℕ) : Option (PubSubCall H) := s.calls[i]?.map Issued.call

def progress (i : ℕ) : Option Progress := s.calls[i]?.map Issued.progress

/-- SUBSCRIBE or UNSUBSCRIBE, on the channels the connection is subscribed to. -/
def effect (subscribed : Finset String) : Option (PubSubCall H) → Finset String
  | some (.subscribe channel _) => insert channel subscribed
  | some (.unsubscribe channel) => subscribed.erase channel
  | none => subscribed

/-- Redis executes the oldest command, or refuses it. -/
def execute (reply : Except JsError Unit) : Option (PubSub H) :=
  match s.commands with
  | [] => none
  | i :: commands =>
    some { s with
      commands := commands
      calls := s.calls.modify i fun issued => { issued with progress := .executed reply }
      subscribed := if reply.isOk then effect s.subscribed (s.op i) else s.subscribed
      incoming := s.incoming ++ [.reply i] }

/-- An `unsubscribe` of the channel was called after the call `i`. -/
def UnsubscribedAfter (i : ℕ) (channel : String) : Prop :=
  .unsubscribe channel ∈ (s.calls.drop (i + 1)).map Issued.call

instance [DecidableEq H] (i : ℕ) (channel : String) : Decidable (s.UnsubscribedAfter i channel) :=
  inferInstanceAs (Decidable (_ ∈ _))

/-- The call `i` was `subscribe(channel, handler)`, and no `unsubscribe` came after it. -/
def Registered (i : ℕ) (channel : String) (handler : H) : Prop :=
  s.op i = some (.subscribe channel handler) ∧ ¬ s.UnsubscribedAfter i channel

/-- It has resolved as well. -/
def Stands (i : ℕ) (channel : String) (handler : H) : Prop :=
  s.Registered i channel handler ∧ s.progress i = some (.settled (.ok ()))

/-- The subscriptions to the channel that stand. -/
def standing [DecidableEq H] (channel : String) : List (Registration H) :=
  s.calls.zipIdx.filterMap fun (issued, i) =>
    match issued.call with
    | .subscribe channel' handler =>
      if channel' = channel ∧ issued.progress = .settled (.ok ()) ∧
          ¬ s.UnsubscribedAfter i channel then some ⟨i, handler⟩ else none
    | .unsubscribe _ => none

/-- Redis sends a message to the connection if it is subscribed to the channel. -/
def publish [DecidableEq H] (channel payload : String) : PubSub H :=
  let m : Message H := ⟨channel, payload, s.standing channel⟩
  if channel ∈ s.subscribed then { s with incoming := s.incoming ++ [.message m] }
  else { s with lost := s.lost ++ [m] }

/-- The handlers of the channel. -/
def list (channel : String) : List (Registration H) := (s.handlers.get channel).getD []

def settle (issued : Issued H) : Issued H :=
  match issued.progress with
  | .executed reply => { issued with progress := .settled reply }
  | _ => issued

/-- The connection hands on what has come in: a reply to its call, a message to the listener. -/
def receive : Option (PubSub H) :=
  match s.incoming with
  | [] => none
  | .reply i :: incoming => some { s with incoming := incoming, calls := s.calls.modify i settle }
  | .message m :: incoming =>
    some { s with incoming := incoming, dispatched := s.dispatched ++ [(m, s.list m.channel)] }

def step [DecidableEq H] (s : PubSub H) : PubSubAction H → Option (PubSub H)
  | .call c => some (s.call c)
  | .execute reply => s.execute reply
  | .publish channel payload => some (s.publish channel payload)
  | .receive => s.receive

/-! ### What the callers are promised -/

/-- Registration is sound. -/
structure Sound : Prop where
  reached : ∀ {i channel handler}, s.Stands i channel handler →
    channel ∈ s.subscribed ∧ ⟨i, handler⟩ ∈ s.list channel
  rejected : ∀ {i channel handler e}, s.op i = some (.subscribe channel handler) →
    s.progress i = some (.settled (.error e)) → ⟨i, handler⟩ ∉ s.list channel
  delivered : ∀ m ∈ s.lost, m.due = []
  dispatched : ∀ d ∈ s.dispatched, ∀ r ∈ d.1.due,
    r ∈ d.2 ∨ s.UnsubscribedAfter r.call d.1.channel

/-- The command is an UNSUBSCRIBE of a channel that a second handler has joined. -/
def Dropping (i : ℕ) : Prop :=
  match s.op i with
  | some (.unsubscribe channel) => 1 < (s.list channel).length
  | _ => False

instance (i : ℕ) : Decidable (s.Dropping i) := by
  unfold Dropping
  split <;> infer_instance

/-- The call is a `subscribe` that Redis has refused, and no `unsubscribe` has followed. -/
def Stranded (i : ℕ) : Prop :=
  match s.calls[i]? with
  | some ⟨.subscribe channel _, .executed (.error _)⟩ => ¬ s.UnsubscribedAfter i channel
  | _ => False

instance [DecidableEq H] (i : ℕ) : Decidable (s.Stranded i) := by
  unfold Stranded
  split <;> infer_instance

/-- A handler joins a channel only while the connection is subscribed to it, no UNSUBSCRIBE takes
the channel from handlers that have joined since, and a refused `subscribe` hears of it only after
an `unsubscribe`. -/
def Orderly : PubSubAction H → Prop
  | .call (.subscribe channel _) => (s.handlers.get channel).isSome → channel ∈ s.subscribed
  | .execute (.ok _) => ∀ i ∈ s.commands.head?, ¬ s.Dropping i
  | .receive =>
    match s.incoming with
    | .reply i :: _ => ¬ s.Stranded i
    | _ => True
  | _ => True

instance [DecidableEq H] (a : PubSubAction H) : Decidable (s.Orderly a) := by
  unfold Orderly
  split
  · infer_instance
  · infer_instance
  · split <;> infer_instance
  · infer_instance

end System

/-! ## What the calls have been -/

section Calls

variable {H : Type} {s s' : PubSub H} {i : ℕ} {channel : String} {handler : H} {c : PubSubCall H}
  {r : RedisPubSubService.Handlers (Registration H) × Bool}

theorem op_eq (s : PubSub H) (i : ℕ) : s.op i = (s.calls.map Issued.call)[i]? :=
  List.getElem?_map.symm

/-- A call that is known has been made. -/
theorem lt_of_op (h : s.op i = some c) : i < s.calls.length := by
  obtain ⟨issued, hi, -⟩ := Option.map_eq_some_iff.mp h
  exact (List.getElem?_eq_some_iff.mp hi).1

theorem lt_of_progress {p : Progress} (h : s.progress i = some p) : i < s.calls.length := by
  obtain ⟨issued, hi, -⟩ := Option.map_eq_some_iff.mp h
  exact (List.getElem?_eq_some_iff.mp hi).1

/-- Whatever only changes the progress of calls leaves the history as it is. -/
theorem op_congr (h : s'.calls.map Issued.call = s.calls.map Issued.call) : s'.op i = s.op i := by
  rw [op_eq, op_eq, h]

/-- What the calls have been decides what is registered. -/
theorem unsubscribedAfter_congr (h : s'.calls.map Issued.call = s.calls.map Issued.call) :
    s'.UnsubscribedAfter i channel ↔ s.UnsubscribedAfter i channel := by
  rw [UnsubscribedAfter, UnsubscribedAfter, List.map_drop, List.map_drop, h]

theorem registered_congr (h : s'.calls.map Issued.call = s.calls.map Issued.call) :
    s'.Registered i channel handler ↔ s.Registered i channel handler := by
  rw [Registered, Registered, op_congr h, unsubscribedAfter_congr h]

/-- The progress of a call does not change what it was. -/
theorem map_call_modify {f : Issued H → Issued H} (hf : ∀ issued, (f issued).call = issued.call)
    (l : List (Issued H)) : (l.modify i f).map Issued.call = l.map Issued.call := by
  apply List.ext_getElem?
  intro j
  rw [List.getElem?_map, List.getElem?_map, List.getElem?_modify]
  by_cases hij : i = j
  · cases l[j]? <;> simp [hij, hf]
  · simp [hij]

/-- A new call leaves the earlier ones as they were. -/
theorem op_issue (hi : i < s.calls.length) : (s.issue c r).op i = s.op i := by
  rw [op, op, issue, List.getElem?_append_left hi]

theorem progress_issue (hi : i < s.calls.length) : (s.issue c r).progress i = s.progress i := by
  rw [progress, progress, issue, List.getElem?_append_left hi]

/-- The new call is the last one. -/
theorem op_issue_self : (s.issue c r).op s.calls.length = some c := by
  rw [op, issue, List.getElem?_concat_length, Option.map_some]

/-- It has sent a command, or has settled at once. -/
theorem progress_issue_self : (s.issue c r).progress s.calls.length =
    some (if r.2 then .sent else .settled (.ok ())) := by
  rw [progress, issue, List.getElem?_concat_length, Option.map_some]

/-- An `unsubscribe` comes after all earlier calls. -/
theorem unsubscribedAfter_issue (hi : i < s.calls.length) :
    (s.issue c r).UnsubscribedAfter i channel ↔
      s.UnsubscribedAfter i channel ∨ c = .unsubscribe channel := by
  rw [UnsubscribedAfter, UnsubscribedAfter, issue, List.drop_append_of_le_length hi,
    List.map_append, List.mem_append, List.map_singleton, List.mem_singleton]
  exact or_congr_right eq_comm

/-- Nothing has come after the new call. -/
theorem not_unsubscribedAfter_issue_self :
    ¬ (s.issue c r).UnsubscribedAfter s.calls.length channel := by
  have hlen : (s.issue c r).calls.length ≤ s.calls.length + 1 := by
    rw [issue, List.length_append, List.length_singleton]
  rw [UnsubscribedAfter, List.drop_eq_nil_of_le hlen]
  exact List.not_mem_nil

/-- What is registered after a call: what was before, unless the call takes it away, and the
call itself. -/
theorem registered_issue : (s.issue c r).Registered i channel handler ↔
    s.Registered i channel handler ∧ c ≠ .unsubscribe channel ∨
      i = s.calls.length ∧ c = .subscribe channel handler := by
  by_cases hi : i < s.calls.length
  · rw [Registered, Registered, op_issue hi, unsubscribedAfter_issue hi]
    constructor
    · rintro ⟨hop, hafter⟩
      exact Or.inl ⟨⟨hop, fun h => hafter (Or.inl h)⟩, fun h => hafter (Or.inr h)⟩
    · rintro (⟨⟨hop, hafter⟩, hne⟩ | ⟨hlen, -⟩)
      · exact ⟨hop, fun h => h.elim hafter hne⟩
      · omega
  · constructor
    · rintro ⟨hop, -⟩
      have hlt := lt_of_op hop
      rw [issue, List.length_append, List.length_singleton] at hlt
      have heq : i = s.calls.length := by omega
      rw [heq, op_issue_self] at hop
      exact Or.inr ⟨heq, Option.some.inj hop⟩
    · rintro (⟨⟨hop, -⟩, -⟩ | ⟨rfl, rfl⟩)
      · exact absurd (lt_of_op hop) hi
      · exact ⟨op_issue_self, not_unsubscribedAfter_issue_self⟩

/-- The call in question moves on. -/
theorem progress_modify_self {f : Issued H → Issued H} {issued : Issued H}
    (h : s.calls[i]? = some issued) :
    (s.calls.modify i f)[i]?.map Issued.progress = some (f issued).progress := by
  rw [List.getElem?_modify, h]
  simp

/-- The other calls are where they were. -/
theorem progress_modify_ne {f : Issued H → Issued H} {j : ℕ} (h : j ≠ i) :
    (s.calls.modify i f)[j]?.map Issued.progress = s.progress j := by
  rw [List.getElem?_modify, progress]
  simp [h.symm]

/-- The handlers of a channel that stand are those that `Stands` names. -/
theorem mem_standing [DecidableEq H] {r : Registration H} : r ∈ s.standing channel ↔
    s.Stands r.call channel r.handler := by
  unfold standing Stands Registered op progress
  rw [List.mem_filterMap]
  constructor
  · rintro ⟨⟨issued, j⟩, hmem, hr⟩
    rw [List.mem_zipIdx_iff_getElem?] at hmem
    obtain ⟨call, progress⟩ := issued
    cases call with
    | unsubscribe channel' => cases hr
    | subscribe channel' handler =>
      simp only [Option.ite_none_right_eq_some, Option.some.injEq] at hr
      obtain ⟨⟨rfl, rfl, hafter⟩, rfl⟩ := hr
      rw [hmem]
      exact ⟨⟨rfl, hafter⟩, rfl⟩
  · rintro ⟨⟨hop, hafter⟩, hprogress⟩
    obtain ⟨issued, hi, hcall⟩ := Option.map_eq_some_iff.mp hop
    rw [hi, Option.map_some, Option.some.injEq] at hprogress
    refine ⟨(issued, r.call), List.mem_zipIdx_iff_getElem?.mpr hi, ?_⟩
    simp [hcall, hprogress, hafter]

end Calls

end PubSub

end NestFastify.Redis
