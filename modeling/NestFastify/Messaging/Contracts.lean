import NestFastify.Foundation.JavaScript

/-!
# Event contracts

messaging.contracts.ts: the schema of each event, and the subscriptions. What Zod's
string formats accept and the text of a `ZodError` are the parameter `Zod`.
-/

namespace NestFastify.Messaging

structure Zod where
  uuid : String → Bool
  email : String → Bool
  /-- The message of a `ZodError` with issues at these paths. -/
  errorText : List String → String

/-- The payload of an event, one constructor for each contract. -/
inductive EventPayload where
  | userRegistered (userId email : String) (name : Option String)
  | notificationCreated (userId message : String)
deriving DecidableEq

/-- What `JSON.stringify` sends; a name that is `undefined` is left out. -/
def EventPayload.toJson : EventPayload → Json
  | userRegistered userId email none =>
    .obj [("userId", .str userId), ("email", .str email)]
  | userRegistered userId email (some name) =>
    .obj [("userId", .str userId), ("email", .str email), ("name", .str name)]
  | notificationCreated userId message =>
    .obj [("userId", .str userId), ("message", .str message)]

/-- A string field that must be there and pass `check`. -/
def requiredString (check : String → Bool) (fields : List (String × Json)) (name : String) :
    Except (List String) String :=
  match Json.field fields name with
  | some (.str s) => if check s then .ok s else .error [name]
  | _ => .error [name]

/-- `z.string().optional()`. -/
def optionalString (fields : List (String × Json)) (name : String) :
    Except (List String) (Option String) :=
  match Json.field fields name with
  | none => .ok none
  | some (.str s) => .ok (some s)
  | some _ => .error [name]

/-- The paths of the fields that were refused. -/
def issues {α : Type} : Except (List String) α → List String
  | .ok _ => []
  | .error paths => paths

def userRegisteredSchema (z : Zod) : Json → Except (List String) EventPayload
  | .obj fields =>
    match requiredString z.uuid fields "userId", requiredString z.email fields "email",
      optionalString fields "name" with
    | .ok userId, .ok email, .ok name => .ok (.userRegistered userId email name)
    | userId, email, name => .error (issues userId ++ issues email ++ issues name)
  | _ => .error [""]

def notificationCreatedSchema : Json → Except (List String) EventPayload
  | .obj fields =>
    match requiredString (fun _ => true) fields "userId",
      requiredString (fun _ => true) fields "message" with
    | .ok userId, .ok message => .ok (.notificationCreated userId message)
    | userId, message => .error (issues userId ++ issues message)
  | _ => .error [""]

/-- `EventContracts[routingKey]`. -/
def EventContracts (z : Zod) (routingKey : String) :
    Option (Json → Except (List String) EventPayload) :=
  if routingKey = "user.registered" then some (userRegisteredSchema z)
  else if routingKey = "notification.created" then some notificationCreatedSchema
  else none

/-- `EventContracts[routingKey].parse(raw)`; a key without a contract throws a `TypeError`. -/
def parseEvent (z : Zod) (routingKey : String) (raw : Json) : Except JsError EventPayload :=
  match EventContracts z routingKey with
  | none => .error (.typeError "Cannot read properties of undefined (reading 'parse')")
  | some schema =>
    match schema raw with
    | .ok payload => .ok payload
    | .error paths => .error (.zodError paths (z.errorText paths))

/-- A subscription: who listens to which event. -/
structure Subscription where
  subscriber : String
  event : String
deriving DecidableEq

def SUBSCRIPTIONS : List Subscription :=
  [⟨"mail", "user.registered"⟩, ⟨"notifications", "notification.created"⟩]

/-! ## What parsing keeps -/

/-- The events of `EventContracts`. -/
def HasContract (event : String) : Prop :=
  event = "user.registered" ∨ event = "notification.created"

instance (event : String) : Decidable (HasContract event) := inferInstanceAs (Decidable (_ ∨ _))

theorem hasContract_of_parseEvent {z : Zod} {routingKey : String} {raw : Json} {p : EventPayload}
    (h : parseEvent z routingKey raw = .ok p) : HasContract routingKey := by
  unfold parseEvent EventContracts at h
  split_ifs at h with huser hnotif
  · exact Or.inl huser
  · exact Or.inr hnotif

theorem userRegisteredSchema_toJson {z : Zod} {raw : Json} {p : EventPayload}
    (h : userRegisteredSchema z raw = .ok p) : userRegisteredSchema z p.toJson = .ok p := by
  unfold userRegisteredSchema at h
  split at h
  · rename_i fields
    split at h
    · rename_i userId email name huserId hemail hname
      cases h
      have huuid : z.uuid userId = true := by
        unfold requiredString at huserId
        grind
      have hmail : z.email email = true := by
        unfold requiredString at hemail
        grind
      cases name <;>
        simp [EventPayload.toJson, userRegisteredSchema, requiredString, optionalString,
          huuid, hmail]
    · cases h
  · cases h

theorem notificationCreatedSchema_toJson {raw : Json} {p : EventPayload}
    (h : notificationCreatedSchema raw = .ok p) :
    notificationCreatedSchema p.toJson = .ok p := by
  unfold notificationCreatedSchema at h
  split at h
  · split at h
    · cases h
      simp [EventPayload.toJson, notificationCreatedSchema, requiredString]
    · cases h
  · cases h

/-- A payload that has been validated once, and sent on as JSON, is accepted again and
comes out the same. -/
theorem parseEvent_toJson {z : Zod} {routingKey : String} {raw : Json} {p : EventPayload}
    (h : parseEvent z routingKey raw = .ok p) : parseEvent z routingKey p.toJson = .ok p := by
  unfold parseEvent EventContracts at h ⊢
  split_ifs at h ⊢ with huser hnotif
  · dsimp only at h ⊢
    cases hraw : userRegisteredSchema z raw with
    | error paths =>
      rw [hraw] at h
      cases h
    | ok q =>
      rw [hraw] at h
      cases h
      rw [userRegisteredSchema_toJson hraw]
  · dsimp only at h ⊢
    cases hraw : notificationCreatedSchema raw with
    | error paths =>
      rw [hraw] at h
      cases h
    | ok q =>
      rw [hraw] at h
      cases h
      rw [notificationCreatedSchema_toJson hraw]

/-- A typed payload that some schema accepts comes out as it is. -/
theorem eq_of_parseEvent_toJson {z : Zod} {routingKey : String} {p v : EventPayload}
    (h : parseEvent z routingKey p.toJson = .ok v) : v = p := by
  unfold parseEvent EventContracts at h
  split_ifs at h with huser hnotif
  · rcases p with ⟨userId, email, _ | name⟩ | ⟨userId, message⟩
    · simp [EventPayload.toJson, userRegisteredSchema, requiredString, optionalString] at h
      grind
    · simp [EventPayload.toJson, userRegisteredSchema, requiredString, optionalString] at h
      grind
    · simp [EventPayload.toJson, userRegisteredSchema, requiredString, optionalString] at h
  · rcases p with ⟨userId, email, name⟩ | ⟨userId, message⟩
    · rcases name with _ | name
      · simp [EventPayload.toJson, notificationCreatedSchema, requiredString] at h
      · simp [EventPayload.toJson, notificationCreatedSchema, requiredString] at h
    · simp [EventPayload.toJson, notificationCreatedSchema, requiredString] at h
      grind

end NestFastify.Messaging
