import NestFastify.Mail.Jobs
import NestFastify.Messaging.Conservation
import NestFastify.Outbox.Progress

/-!
# From a sign-up to the welcome mail

The hook `databaseHooks.user.create.after` (auth.ts) puts an event into the outbox, a relay
publishes it, and the consumer of the subscription `mail` handles it. The payload is validated for
the first time by the relay, whose contract wants the user id to be a UUID. Better Auth makes ids
of 32 letters and digits, since `buildAuthOptions` configures no other generator.
-/

namespace NestFastify.Auth

open Messaging (EventPayload SUBSCRIPTIONS Unambiguous Code codeMachine parseEvent)
open Outbox (EnqueueOutboxData PrismaOutboxRepository.enqueue SameEvent OutboxState)
open Transition (Reaches)

/-- What the hook reads of a user; a name that is null or undefined is `none`. -/
structure User where
  id : String
  email : String
  name : Option String

def User.registered (user : User) : EventPayload := .userRegistered user.id user.email user.name

/-- What the hook passes to `outbox.enqueue`. -/
def databaseHooks.user.create.after (user : User) : EnqueueOutboxData where
  routingKey := "user.registered"
  payload := user.registered
  messageId := none
  requestId := none
  typed := rfl

/-- The consumers of the application. -/
def application (z : Messaging.Zod) (numberText : JsNumber → String) (env : Config.Env) :
    Messaging.Deployment where
  z := z
  numberText := numberText
  env := env
  subscriptions := SUBSCRIPTIONS

/-- The relays of the application, all with the settings of the environment. -/
def relays (A : Messaging.Deployment) : Outbox.Deployment where
  z := A.z
  eventsExchange := A.ex.events
  maxAttempts := A.env.RABBITMQ_OUTBOX_MAX_ATTEMPTS
  pollMs _ := A.env.RABBITMQ_OUTBOX_POLL_MS
  batch _ := A.env.RABBITMQ_OUTBOX_BATCH

/-- In state `t` of the relays: the row has not failed, a drain that has claimed it publishes it
with its commit, and there is a way to such a commit. -/
structure RowArrives (D : Outbox.Deployment) (row : Outbox.OutboxEvent) (t : OutboxState) : Prop where
  not_failed : ∃ r ∈ t.db.rows, SameEvent row r ∧ r.attempts = 0 ∧ r.status ≠ .failed
  committed : ∀ i a d t' u, D.step t a = some t' → t.commits a = some d → a.relay = some i →
    t.db.txn? i = some u → row.id ∈ u.locked →
    ∃ r ∈ t'.db.rows, SameEvent row r ∧ r.status = .published
  possible : 0 < t.db.txns.length → ∃ t', Reaches D.step (fun u a => u.accepts a = true) t t' ∧
    ∃ r ∈ t'.db.rows, SameEvent row r ∧ r.status = .published

/-- The event of a sign-up arrives, in every run in which the broker accepts every publish. -/
structure Arrives (A : Messaging.Deployment) (user : User) : Prop where
  /-- The contract accepts what the hook enqueues. -/
  accepted : parseEvent A.z "user.registered" user.registered.toJson = .ok user.registered
  published : ∀ n id messageId createdAt s s₁,
    Reaches (relays A).step (fun u a => u.accepts a = true) (.init n) s →
    (relays A).step s (.enqueue (databaseHooks.user.create.after user) id messageId createdAt) =
      some s₁ → ∀ t, Reaches (relays A).step (fun u a => u.accepts a = true) s₁ t →
    RowArrives (relays A) (PrismaOutboxRepository.enqueue id messageId createdAt
      (databaseHooks.user.create.after user)) t
  /-- Every copy of the message is accepted by the consumer, and its handler receives the user. -/
  consumed : ∀ messageId t, Reaches (A.step codeMachine) (fun _ _ => True) (.init Code) t →
    Unambiguous ⟨messageId, "user.registered", user.registered⟩ t → ∀ i c,
    t.copies[i]? = some c → c.messageId = messageId →
    parseEvent A.z "user.registered" c.message.content = .ok user.registered ∧
      ∀ payload, A.callOf codeMachine t i = some (.fn payload) → payload = user.registered
  /-- From what it receives, the handler of `mail` makes a mail with the email and the name, which
  it adds to the queue; it settles as this does. -/
  mailed : ∀ refused messageId queue,
    (Mail.UserRegisteredConsumer.fn messageId user.registered).exec (Mail.handleCall refused)
        queue =
      let r := queue.add refused "send" (Mail.welcomeMail user.email user.name)
        ⟨messageId, 3, 1000, true⟩
      some (r.1, r.2.map fun _ => ())

section Proofs

variable {z : Messaging.Zod} {numberText : JsNumber → String} {env : Config.Env} {user : User}

/-- What the contract says of the event: only the id can be wrong. -/
theorem parseEvent_registered (hemail : z.email user.email = true) :
    parseEvent z "user.registered" user.registered.toJson =
      if z.uuid user.id then .ok user.registered
      else .error (.zodError ["userId"] (z.errorText ["userId"])) := by
  obtain ⟨id, email, name⟩ := user
  have hemail : z.email email = true := hemail
  by_cases huuid : z.uuid id = true
  · match name with
    | none | some name =>
      simp [parseEvent, Messaging.EventContracts, Messaging.userRegisteredSchema, User.registered,
        EventPayload.toJson, Messaging.requiredString, Messaging.optionalString, huuid, hemail]
  · match name with
    | none | some name =>
      simp [parseEvent, Messaging.EventContracts, Messaging.userRegisteredSchema, User.registered,
        EventPayload.toJson, Messaging.requiredString, Messaging.optionalString, huuid, hemail,
        Messaging.issues]

theorem parses_iff (hemail : z.email user.email = true) :
    (∃ v, parseEvent z "user.registered" user.registered.toJson = .ok v) ↔
      z.uuid user.id = true := by
  rw [parseEvent_registered hemail]
  by_cases huuid : z.uuid user.id = true
  · rw [if_pos huuid]
    exact ⟨fun _ => huuid, fun _ => ⟨_, rfl⟩⟩
  · rw [if_neg huuid]
    exact ⟨nofun, fun h => absurd h huuid⟩

/-- The row that the hook enqueues, in every state reached from there. -/
theorem rowArrives {A : Messaging.Deployment} {n : ℕ} {id messageId : String} {createdAt : ℕ}
    {s s₁ t : OutboxState} {v : EventPayload}
    (hvalid : parseEvent A.z "user.registered" user.registered.toJson = .ok v)
    (hs : Reaches (relays A).step (fun u a => u.accepts a = true) (.init n) s)
    (hstep : (relays A).step s (.enqueue (databaseHooks.user.create.after user) id messageId
      createdAt) = some s₁)
    (ht : Reaches (relays A).step (fun u a => u.accepts a = true) s₁ t) :
    RowArrives (relays A) (PrismaOutboxRepository.enqueue id messageId createdAt
      (databaseHooks.user.create.after user)) t := by
  have hmax : 1 ≤ (relays A).maxAttempts := A.env.RABBITMQ_OUTBOX_MAX_ATTEMPTS.pos
  have hbatch : 0 < (relays A).batch 0 := A.env.RABBITMQ_OUTBOX_BATCH.pos
  have hInv : Outbox.Inv (relays A) (fun _ => False) s := Outbox.inv_init.run hmax nofun hs
  have hInv₁ := hInv.step hmax nofun hstep
  have hknown : Outbox.RejectedKnown s := Outbox.RejectedKnown.run hmax Outbox.inv_init nofun hs
  have hsend₁ := hInv.enqueued hknown hstep
  have hInv_t := hInv₁.run hmax nofun ht
  have hvalid : parseEvent (relays A).z (PrismaOutboxRepository.enqueue id messageId createdAt
      (databaseHooks.user.create.after user)).routingKey (PrismaOutboxRepository.enqueue id messageId
      createdAt (databaseHooks.user.create.after user)).payload = .ok v := hvalid
  have hsend := hsend₁.run hmax hvalid hInv₁ ht
  refine ⟨hsend.not_failed hInv_t hmax, fun i a d t' u hnext hcommits hrelay hu hlocked => ?_,
    fun hlt => ?_⟩
  · exact hsend.published hInv_t hnext hcommits hrelay hu hlocked
  · exact hsend.can_publish hmax hbatch hvalid hInv_t hlt (le_refl _)

theorem mail_apart : Messaging.Apart SUBSCRIPTIONS Mail.mail :=
  .of_hasContract (by decide) (by decide) (by decide)

/-- What the consumer of a message gets, on its first delivery and on every later one. -/
theorem consumed {messageId : String} {t : Messaging.MessagingState Code}
    (h : Reaches ((application z numberText env).step codeMachine) (fun _ _ => True) (.init Code) t)
    (hids : Unambiguous ⟨messageId, "user.registered", user.registered⟩ t) {i : ℕ}
    {c : Messaging.Copy Code} (hi : t.copies[i]? = some c) (hid : c.messageId = messageId) :
    parseEvent z "user.registered" c.message.content = .ok user.registered ∧
      ∀ payload, (application z numberText env).callOf codeMachine t i = some (.fn payload) →
        payload = user.registered := by
  have hapart : Messaging.Apart (application z numberText env).subscriptions Mail.mail := mail_apart
  obtain ⟨s, hkept, rfl⟩ := Messaging.kept_of_reaches_code hapart rfl h hids
  -- the same copy among the deliveries suspended at points
  obtain ⟨c₀, hi₀, rfl⟩ : ∃ c₀, s.copies[i]? = some c₀ ∧
      c₀.toCode (application z numberText env) = c := by
    simpa [Messaging.MessagingState.toCode] using hi
  have hfits := hkept.fits c₀ (List.mem_of_getElem? hi₀) hid
  refine ⟨hfits.belongs.parses, fun payload hcall => ?_⟩
  rw [Messaging.Deployment.callOf_toCode] at hcall
  exact hfits.fn_payload hi₀ hcall

/-- The event arrives exactly if the id of the user is a UUID. -/
theorem arrives_iff (hemail : z.email user.email = true) :
    Arrives (application z numberText env) user ↔ z.uuid user.id = true := by
  constructor
  · intro h
    exact (parses_iff hemail).mp ⟨_, h.accepted⟩
  · intro huuid
    have hvalid : parseEvent z "user.registered" user.registered.toJson = .ok user.registered := by
      rw [parseEvent_registered hemail, if_pos huuid]
    refine ⟨hvalid, fun n id messageId createdAt s s₁ hs hstep t ht => ?_,
      fun messageId t ht hids i c hi hid => ?_, fun refused messageId queue =>
        Mail.exec_fn refused messageId ..⟩
    · exact rowArrives hvalid hs hstep ht
    · exact consumed ht hids hi hid

/-- Otherwise no run publishes it, whatever the broker does. -/
theorem never_published (hemail : z.email user.email = true) (huuid : z.uuid user.id ≠ true) {n : ℕ}
    {ok : OutboxState → Outbox.RelayAction → Prop} {t : OutboxState}
    (ht : Reaches (relays (application z numberText env)).step ok (.init n) t)
    {r : Outbox.OutboxEvent} (hr : r ∈ t.db.rows) (hkey : r.routingKey = "user.registered")
    (hpayload : r.payload = user.registered.toJson) : r.status ≠ .published := by
  intro hpublished
  have hmax : 1 ≤ (relays (application z numberText env)).maxAttempts :=
    env.RABBITMQ_OUTBOX_MAX_ATTEMPTS.pos
  obtain ⟨v, hv⟩ := Outbox.published_valid hmax ht hr hpublished
  rw [hkey, hpayload] at hv
  exact huuid ((parses_iff hemail).mp ⟨v, hv⟩)

end Proofs

/-! ## The ids that Better Auth makes -/

section Formats

def isHex (c : Char) : Bool :=
  c.isDigit || (decide ('a' ≤ c) && decide (c ≤ 'f')) || (decide ('A' ≤ c) && decide (c ≤ 'F'))

/-- A class of characters for each place of a UUID. -/
def uuidPattern : List (Char → Bool) :=
  List.replicate 8 isHex ++ [(· == '-')] ++ List.replicate 4 isHex ++
  [(· == '-'), fun c => decide ('1' ≤ c) && decide (c ≤ '8')] ++ List.replicate 3 isHex ++
  [(· == '-'), fun c => "89abAB".toList.contains c] ++ List.replicate 3 isHex ++ [(· == '-')] ++
  List.replicate 12 isHex

def fits : List (Char → Bool) → List Char → Bool
  | [], [] => true
  | p :: ps, c :: cs => p c && fits ps cs
  | _, _ => false

def isUuid (s : String) : Bool :=
  fits uuidPattern s.toList || s == "00000000-0000-0000-0000-000000000000" ||
    s == "ffffffff-ffff-ffff-ffff-ffffffffffff"

/-- What stands before the `@` of an email: between its dots there is something. -/
def isLocalPart (s : List Char) : Bool :=
  (s.splitOn '.').all (fun part => !part.isEmpty &&
    part.all fun c => c.isAlphanum || "_'+-".toList.contains c) && s.getLast? != some (Char.ofNat 39)

def isLabel : List Char → Bool
  | [] => false
  | c :: cs => c.isAlphanum && cs.all fun c => c.isAlphanum || c == '-'

def isDomain (s : List Char) : Bool :=
  match (s.splitOn '.').reverse with
  | top :: label :: labels =>
    decide (2 ≤ top.length) && top.all Char.isAlpha && (label :: labels).all isLabel
  | _ => false

def isEmail (s : String) : Bool :=
  match s.toList.splitOn '@' with
  | [localPart, domain] => isLocalPart localPart && isDomain domain
  | _ => false

/-- The two formats as Zod checks them. -/
def zod : Messaging.Zod where
  uuid := isUuid
  email := isEmail
  errorText path := "Invalid " ++ ".".intercalate path

theorem length_of_fits : ∀ {ps : List (Char → Bool)} {cs : List Char}, fits ps cs = true →
    cs.length = ps.length
  | [], [], _ => rfl
  | _ :: _, _ :: _, h => congrArg (· + 1) (length_of_fits (Bool.and_eq_true_iff.mp h).2)

theorem length_of_isUuid {s : String} (h : isUuid s = true) : s.length = 36 := by
  simp only [isUuid, Bool.or_eq_true, beq_iff_eq] at h
  rcases h with (hfits | rfl) | rfl
  · rw [← String.length_toList, length_of_fits hfits]
    rfl
  · rfl
  · rfl

end Formats

section Runs

def defaultApplication : Messaging.Deployment :=
  application zod (fun _ => "") (Config.defaultEnv "postgres://db" "amqp://mq"
    "0123456789abcdef0123456789abcdef")

def withUuid : User := ⟨"3f2504e0-4f89-41d3-9a0c-0305e82c3301", "user@example.com", some "User"⟩

theorem arrives_withUuid : Arrives defaultApplication withUuid :=
  (arrives_iff (by decide)).mpr (by decide)

/-- A user whose id is one of Better Auth's. -/
def generated : User := ⟨"f3Kq9ZtLw0XbVh7RmYc2NsJd8PgAeU5T", "user@example.com", some "User"⟩

/-- A drain in which everything resolves but the publish that the contract stops. -/
def stoppedDrain (calls : ℕ) : List Outbox.RelayAction :=
  .start 0 :: List.replicate calls (.perform 0 .resolves 0) ++ [.finish 0, .tick 5000]

/-- The hook has enqueued the event, for one relay. -/
def signedUp : OutboxState :=
  { OutboxState.init 1 with
    db := (OutboxState.init 1).db.insert
      (PrismaOutboxRepository.enqueue "1" "m1" 0 (databaseHooks.user.create.after generated)) }

def stoppedRun : List Outbox.RelayAction :=
  (List.replicate 9 (stoppedDrain 5)).flatten ++ stoppedDrain 6

/-- No id that is not as long as a UUID gets its event through. -/
theorem not_arrives_of_length {numberText : JsNumber → String} {env : Config.Env} {user : User}
    (hemail : isEmail user.email = true) (hlength : user.id.length ≠ 36) :
    ¬ Arrives (application zod numberText env) user := by
  intro h
  have huuid : isUuid user.id = true := (parses_iff (z := zod) hemail).mp ⟨_, h.accepted⟩
  exact hlength (length_of_isUuid huuid)

/-- With an id of 32 letters and digits the event does not arrive: though no call of a relay fails
and the broker accepts every publish, the row fails, with `RABBITMQ_OUTBOX_MAX_ATTEMPTS` attempts. -/
theorem generated_fails : generated.id.length = 32 ∧ generated.id.toList.all Char.isAlphanum = true ∧
    zod.email generated.email = true ∧ ¬ Arrives defaultApplication generated ∧
    ∃ s t, (relays defaultApplication).step (.init 1)
        (.enqueue (databaseHooks.user.create.after generated) "1" "m1" 0) = some s ∧
      Reaches (relays defaultApplication).step
        (fun u a => u.accepts a = true ∧ u.aborts a = false) s t ∧
      ∃ r ∈ t.db.rows, r.messageId = "m1" ∧ r.status = .failed ∧ r.attempts = 10 := by
  have hemail : isEmail generated.email = true := by decide
  have hrun : (Transition.run (relays defaultApplication).step
      (fun u a => u.accepts a = true ∧ u.aborts a = false) signedUp stoppedRun).map
      (fun t => t.db.rows.any fun r =>
        decide (r.messageId = "m1" ∧ r.status = .failed ∧ r.attempts = 10)) = some true := by
    rfl
  obtain ⟨t, ht, htest⟩ := Transition.exists_reaches_of_run hrun
  simp only [List.any_eq_true, decide_eq_true_eq] at htest
  exact ⟨by decide, by decide, hemail, not_arrives_of_length hemail (by decide), signedUp, t, rfl, ht,
    htest⟩

end Runs

end NestFastify.Auth
