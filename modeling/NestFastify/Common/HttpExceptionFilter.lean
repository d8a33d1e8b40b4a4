import NestFastify.Common.ResponseInterceptor

/-!
# The error envelope

`HttpExceptionFilter` (http-exception.filter.ts) with the exceptions it tells apart, and the schema
of its body, `errorResponseSchema` (error-response.dto.ts). The names of Nest's `HttpStatus`, the
translations and what `join` makes of a value are the parameter `FilterRuntime`.
-/

namespace NestFastify.Common

/-! ## Exceptions -/

/-- A step of the path of a Zod issue. -/
inductive PathPart where
  | key (name : String)
  | index (i : ℕ)

structure ZodIssue where
  path : List PathPart
  message : String

/-- The class of what has been thrown, with what the filter reads of it. The `ZodError` inside the
exceptions of nestjs-zod may be missing. -/
inductive ExceptionClass where
  | zodSerializationException (zodError : Option String)
  | zodValidationException (zodError : Option (List ZodIssue))
  | appException (messageKey : String) (status : ℕ) (args : Option Json) (code : Option String)
  | httpException (status : ℕ) (response : Json)
  | error
  | notAnError

/-- What has been thrown; `message` is `String(exception)` if it is not an `Error`. -/
structure Exception where
  cls : ExceptionClass
  message : String
  stack : Option String

structure FilterRuntime where
  /-- `HttpStatus[status]`. -/
  HttpStatus : ℕ → Option String
  /-- `i18n.translate(key, { lang, args })`. -/
  translate : String → Option String → Option Json → String
  /-- An element of `message.join`. -/
  text : Json → String

structure ErrorDetail where
  field : String
  message : String
deriving DecidableEq

/-- The envelope, whose `success` is always `false`; `code`, `message` and `details` are in `error`,
the rest in `meta`. -/
structure ErrorResponse where
  code : String
  message : String
  details : Option (List ErrorDetail)
  timestamp : String
  path : String
  requestId : String
deriving DecidableEq

def PathPart.text : PathPart → String
  | key name => name
  | index i => toString i

/-- `issue.path.join('.')`. -/
def ZodIssue.field (issue : ZodIssue) : String :=
  String.intercalate "." (issue.path.map PathPart.text)

/-! ## The filter -/

namespace HttpExceptionFilter

variable (rt : FilterRuntime)

def codeFromStatus (status : ℕ) : String :=
  (rt.HttpStatus status).getD ("HTTP_" ++ toString status)

def extractMessage (response : Json) (message : String) : String :=
  match response with
  | .str s => s
  | .obj fields =>
    match Json.field fields "message" with
    | some (.arr items) => String.intercalate ", " (items.map rt.text)
    | some (.str s) => s
    | _ => message
  | _ => message

/-- What the branches of `catch` assign. -/
structure Verdict where
  status : ℕ
  message : String
  details : Option (List ErrorDetail)
  codeOverride : Option String
  logged : List String

/-- The chain of `instanceof`; the exceptions of nestjs-zod extend those of Nest. -/
def judge (NODE_ENV : String) (lang : Option String) (e : Exception) : Verdict :=
  match e.cls with
  | .zodSerializationException zodError =>
    { status := 500, message := "Internal server error", details := none, codeOverride := none
      logged := zodError.toList.map ("ZodSerializationException: " ++ ·) }
  | .zodValidationException zodError =>
    { status := 422, message := "Validation failed"
      details := zodError.map fun issues =>
        issues.map fun issue => ⟨issue.field, issue.message⟩
      codeOverride := none, logged := [] }
  | .appException messageKey status args code =>
    { status := status, message := rt.translate messageKey lang args, details := none
      codeOverride := code, logged := [] }
  | .httpException status response =>
    { status := status, message := extractMessage rt response e.message, details := none
      codeOverride := none, logged := [] }
  | .error | .notAnError =>
    { status := 500
      message := if NODE_ENV = "production" then "Internal server error" else e.message
      details := none, codeOverride := none, logged := [] }

/-- The reply and what has been logged. -/
structure Caught where
  status : ℕ
  header : Option (String × String)
  body : ErrorResponse
  logged : List String

/-- `catch`, in an HTTP context; elsewhere the exception is thrown again. -/
def «catch» (NODE_ENV : String) (lang : Option String) (type : String) (req : Origin)
    (timestamp : String) (e : Exception) : Except Exception Caught :=
  if type ≠ "http" then .error e
  else
    let requestId := req.id.getD ""
    let v := judge rt NODE_ENV lang e
    .ok
      { status := v.status
        header := if requestId = "" then none else some ("x-request-id", requestId)
        body :=
          { code := v.codeOverride.getD (codeFromStatus rt v.status)
            message := v.message
            details := v.details
            timestamp := timestamp
            path := req.url.getD ""
            requestId := requestId }
        logged := v.logged ++ if 500 ≤ v.status then [e.stack.getD e.message] else [] }

end HttpExceptionFilter

/-! ## The body -/

def ErrorDetail.toJson (d : ErrorDetail) : Json :=
  .obj [("field", .str d.field), ("message", .str d.message)]

/-- `details` is left out when there are none. -/
def ErrorResponse.toJson (r : ErrorResponse) : Json :=
  .obj [("success", .bool false),
    ("error", .obj ([("code", .str r.code), ("message", .str r.message)] ++
      (r.details.map fun details => ("details", Json.arr (details.map ErrorDetail.toJson))).toList)),
    ("meta", .obj [("timestamp", .str r.timestamp), ("path", .str r.path),
      ("requestId", .str r.requestId)])]

/-- `z.string()`. -/
def stringField (fields : List (String × Json)) (name : String) : Option String :=
  match Json.field fields name with
  | some (.str s) => some s
  | _ => none

def errorDetailSchema : Json → Option ErrorDetail
  | .obj fields => do
    let field ← stringField fields "field"
    let message ← stringField fields "message"
    return ⟨field, message⟩
  | _ => none

/-- `z.array(…).optional()`. -/
def detailsField (fields : List (String × Json)) : Option (Option (List ErrorDetail)) :=
  match Json.field fields "details" with
  | none => some none
  | some (.arr items) => (items.mapM errorDetailSchema).map some
  | some _ => none

def errorResponseSchema : Json → Option ErrorResponse
  | .obj fields =>
    match Json.field fields "success", Json.field fields "error", Json.field fields "meta" with
    | some (.bool false), some (.obj error), some (.obj responseMeta) => do
      let code ← stringField error "code"
      let message ← stringField error "message"
      let details ← detailsField error
      let timestamp ← stringField responseMeta "timestamp"
      let path ← stringField responseMeta "path"
      let requestId ← stringField responseMeta "requestId"
      return ⟨code, message, details, timestamp, path, requestId⟩
    | _, _, _ => none
  | _ => none

theorem errorDetailSchema_toJson (d : ErrorDetail) : errorDetailSchema d.toJson = some d := by
  simp [ErrorDetail.toJson, errorDetailSchema, stringField]

theorem mapM_errorDetailSchema (details : List ErrorDetail) :
    details.mapM (errorDetailSchema ∘ ErrorDetail.toJson) = some details := by
  induction details with
  | nil => rfl
  | cons d details ih =>
    rw [List.mapM_cons, ih, Function.comp_apply, errorDetailSchema_toJson]
    rfl

/-- The documented schema reads an error body back as it is. -/
theorem errorResponseSchema_toJson (r : ErrorResponse) :
    errorResponseSchema r.toJson = some r := by
  obtain ⟨code, message, details, timestamp, path, requestId⟩ := r
  cases details with
  | none => simp [ErrorResponse.toJson, errorResponseSchema, stringField, detailsField]
  | some details =>
    simp [ErrorResponse.toJson, errorResponseSchema, stringField, detailsField,
      mapM_errorDetailSchema]

end NestFastify.Common
