import NestFastify.Common.Guards
import NestFastify.Common.HttpExceptionFilter

/-!
# The life of a request

What app.module.ts and main.ts put around a route: the request id, the guards, the validation pipe,
the handler, the serializer, the response interceptor and the exception filter, in the order in
which Nest runs them. The guards come first; the interceptors enclose the pipe and the handler, the
serializer inside the envelope; whatever is thrown on the way goes to the filter.

A route is given by its decorators, the pipe of its DTOs and its handler, which may change the state
`σ` of the application. The guards may change it too, since they look up the session.
-/

namespace NestFastify.Common

/-! ## The request id -/

/-- A header that a client has sent twice arrives as an array. -/
inductive HeaderValue where
  | one (value : String)
  | many (values : List String)

/-- `genReqId` of the Fastify adapter: the id, and the header it leaves in the request. -/
def genReqId (header : Option HeaderValue) (randomUUID : String) : String × Option HeaderValue :=
  let inbound := match header with
    | some (.many values) => values.head?
    | some (.one value) => some value
    | none => none
  let id := inbound.getD randomUUID
  -- the header is overwritten, so that the logger reads the same id
  (id, some (.one id))

/-- `genReqId` of the logger. -/
def loggerReqId : Option HeaderValue → Option String
  | some (.many values) => values.head?
  | some (.one value) => some value
  | none => some ""

/-! ## Routes -/

/-- A request as it comes in, and what the server adds to it: the instant at which it comes in, the
UUID that it may draw, the instant of the reply, the language that i18n resolves. -/
structure Exchange where
  now : ℕ
  url : String
  requestId : Option HeaderValue
  headers : List (String × String)
  input : Json
  randomUUID : String
  timestamp : String
  lang : Option String

/-- A route: its decorators, the pipe of its DTOs and its handler. The pipe and the serializer fail
with what nestjs-zod puts into its exception. -/
structure Route (σ : Type) where
  handler : Metadata
  cls : Metadata
  httpCode : ℕ
  Args : Type
  pipe : Json → Except (Option (List ZodIssue)) Args
  handle : Request → Args → σ → σ × Except Exception Json
  serializer : Option (Json → Except (Option String) Json)

structure Server (σ : Type) where
  guards : AppModule σ
  rt : FilterRuntime
  NODE_ENV : String
  route : Exchange → Route σ

inductive ReplyBody where
  | success (body : Body)
  | failure (response : ErrorResponse)

structure Reply where
  status : ℕ
  header : Option (String × String)
  body : ReplyBody

/-- The state that a request leaves, its reply, and what the filter has logged. -/
structure Served (σ : Type) where
  state : σ
  reply : Reply
  logged : List String

/-! ### Exceptions of Nest and nestjs-zod -/

def Exception.ofJsError : JsError → Exception
  | .error message | .typeError message | .zodError _ message => ⟨.error, message, none⟩
  | .appException messageKey status => ⟨.appException messageKey status none none, messageKey, none⟩
  | .other text => ⟨.notAnError, text, none⟩

/-- `new HttpException()` of a class with this message. -/
def Exception.ofStatus (status : ℕ) (message : String) : Exception :=
  ⟨.httpException status (.obj [("message", .str message), ("statusCode", .num status)]), message,
    none⟩

def Refusal.exception : Refusal → Exception
  | .unauthorizedException => .ofStatus 401 "Unauthorized"
  | .forbiddenException => .ofStatus 403 "Forbidden"
  | .thrown e => .ofJsError e

def validationFailed (zodError : Option (List ZodIssue)) : Exception :=
  ⟨.zodValidationException zodError, "Validation failed", none⟩

def serializationFailed (zodError : Option String) : Exception :=
  ⟨.zodSerializationException zodError, "Internal Server Error", none⟩

/-! ## The pipeline -/

/-- Fastify keeps the id in `req.id`. -/
def Exchange.origin (x : Exchange) : Origin :=
  ⟨some (genReqId x.requestId x.randomUUID).1, some x.url⟩

namespace Route

variable {σ : Type} (route : Route σ)

/-- `ZodSerializerInterceptor`, on a route with `@ZodSerializerDto`. -/
def serialize (payload : Json) : Except Exception Json :=
  match route.serializer with
  | none => .ok payload
  | some schema =>
    match schema payload with
    | .ok serialized => .ok serialized
    | .error zodError => .error (serializationFailed zodError)

/-- The pipe, the handler and the serializer. -/
def run (req : Request) (input : Json) (s : σ) : σ × Except Exception Json :=
  match route.pipe input with
  -- the handler is not called
  | .error zodError => (s, .error (validationFailed zodError))
  | .ok args =>
    let r := route.handle req args s
    match r.2 with
    | .error e => (r.1, .error e)
    | .ok payload => (r.1, route.serialize payload)

end Route

namespace Server

variable {σ : Type} (app : Server σ)

/-- What the guards make of a request, and the state they leave. -/
def activate (x : Exchange) (s : σ) : σ × Except Refusal (Bool × Request) :=
  app.guards.activate x.now ⟨"http", (app.route x).handler, (app.route x).cls⟩ x.headers s

/-- The filter replies; in an HTTP context it does not throw. -/
def refuse (x : Exchange) (s : σ) (e : Exception) : Served σ :=
  match HttpExceptionFilter.catch app.rt app.NODE_ENV x.lang "http" x.origin x.timestamp e with
  | .ok caught => ⟨s, ⟨caught.status, caught.header, .failure caught.body⟩, caught.logged⟩
  -- not reached: here the filter is only asked about HTTP
  | .error e => ⟨s, ⟨500, none, .success (.payload .null)⟩, [e.message]⟩

/-- The interceptor puts the envelope around what the route has returned. -/
def complete (x : Exchange) (r : σ × Except Exception Json) : Served σ :=
  match r.2 with
  | .error e => app.refuse x r.1 e
  | .ok payload =>
    let intercepted := ResponseInterceptor.intercept "http" x.origin x.timestamp (.ok payload)
    match intercepted.outcome with
    | .ok body => ⟨r.1, ⟨(app.route x).httpCode, intercepted.header, .success body⟩, []⟩
    | .error e => app.refuse x r.1 (.ofJsError e)

def respond (x : Exchange) (s : σ) : Served σ :=
  let (s', answer) := app.activate x s
  match answer with
  | .error refusal => app.refuse x s' refusal.exception
  | .ok (false, _) => app.refuse x s' Refusal.forbiddenException.exception
  | .ok (true, req) => app.complete x ((app.route x).run req x.input s')

/-- Some requests, one after the other, and the replies to them. -/
def serve : σ → List Exchange → σ × List Reply
  | s, [] => (s, [])
  | s, x :: xs =>
    let served := app.respond x s
    let rest := serve served.state xs
    (rest.1, served.reply :: rest.2)

end Server

/-! ## The body as JSON -/

def PaginationMeta.toJson (p : PaginationMeta) : Json :=
  .obj [("page", .num p.page), ("limit", .num p.limit), ("total", .num p.total),
    ("totalPages", .num p.totalPages), ("hasNext", .bool p.hasNext), ("hasPrev", .bool p.hasPrev)]

/-- `pagination` is left out on a route that is not paginated. -/
def ResponseMeta.toJson (m : ResponseMeta) : Json :=
  .obj ([("timestamp", .str m.timestamp), ("path", .str m.path),
    ("requestId", .str m.requestId)] ++
      (m.pagination.map fun p => ("pagination", p.toJson)).toList)

def SuccessResponse.toJson (r : SuccessResponse) : Json :=
  .obj [("success", .bool true), ("data", r.data), ("meta", r.responseMeta.toJson)]

def ReplyBody.toJson : ReplyBody → Json
  | .success (.payload v) => v
  | .success (.envelope response) => response.toJson
  | .failure response => response.toJson

/-! ## One request -/

/-- The id of a request. -/
def Exchange.id (x : Exchange) : String := (genReqId x.requestId x.randomUUID).1

/-- The header of every reply; without an id there is none. -/
def Exchange.header (x : Exchange) : Option (String × String) :=
  if x.id = "" then none else some ("x-request-id", x.id)

namespace Server

variable {σ : Type} {app : Server σ} {x : Exchange} {s : σ}

/-- The error body of a request. -/
def errorBody (app : Server σ) (x : Exchange) (e : Exception) : ErrorResponse :=
  let v := HttpExceptionFilter.judge app.rt app.NODE_ENV x.lang e
  { code := v.codeOverride.getD (HttpExceptionFilter.codeFromStatus app.rt v.status)
    message := v.message, details := v.details, timestamp := x.timestamp, path := x.url
    requestId := x.id }

/-- The filter answers a refused request and leaves the state alone. -/
theorem refuse_eq (app : Server σ) (x : Exchange) (s : σ) (e : Exception) :
    ∃ logged, app.refuse x s e =
      ⟨s, ⟨(HttpExceptionFilter.judge app.rt app.NODE_ENV x.lang e).status, x.header,
        .failure (app.errorBody x e)⟩, logged⟩ := ⟨_, rfl⟩

/-- The envelope of a payload. -/
def envelope (x : Exchange) (payload : Json) : SuccessResponse :=
  match isPaginated payload with
  | some p => ⟨.arr p.items,
      ⟨x.timestamp, x.url, x.id, some (buildPagination p.page p.limit p.total)⟩⟩
  | none => ⟨payload, ⟨x.timestamp, x.url, x.id, none⟩⟩

/-- What the handler resolves to goes into the envelope. -/
theorem complete_ok (app : Server σ) (x : Exchange) (s : σ) (payload : Json) :
    app.complete x (s, .ok payload) =
      ⟨s, ⟨(app.route x).httpCode, x.header, .success (.envelope (envelope x payload))⟩, []⟩ := by
  simp only [complete, ResponseInterceptor.intercept, Except.map, envelope]
  cases isPaginated payload with
  | some p => rfl
  | none => rfl

/-- What it throws goes to the filter. -/
theorem complete_error (app : Server σ) (x : Exchange) (s : σ) (e : Exception) :
    app.complete x (s, .error e) = app.refuse x s e := rfl

/-- The state in which the guards leave a request: after the session lookup, if there is one. -/
def guarded (app : Server σ) (x : Exchange) (s : σ) : σ :=
  app.guards.lookedUp (app.route x).handler (app.route x).cls x.now x.headers s

/-- The guards leave the state that `guarded` names. -/
theorem activate_eq (app : Server σ) (x : Exchange) (s : σ) :
    app.activate x s = (app.guarded x s, (app.activate x s).2) :=
  Prod.ext AppModule.activate_state rfl

/-- The handler of a request runs: the guards have let it pass, and the pipe has accepted it. -/
inductive Runs (app : Server σ) (x : Exchange) (s : σ) (req : Request)
    (args : (app.route x).Args) : Prop
  | admitted (hguards : (app.activate x s).2 = .ok (true, req))
    (hpipe : (app.route x).pipe x.input = .ok args)

/-- What the handler of a request makes of the state that the guards leave. -/
def handled (app : Server σ) (x : Exchange) (s : σ) (req : Request) (args : (app.route x).Args) :
    σ × Except Exception Json :=
  (app.route x).handle req args (app.guarded x s)

/-- How a request ends: before its handler runs, or after. -/
inductive Ends (app : Server σ) (x : Exchange) (s : σ) : Served σ → Prop
  | refused (e : Exception) (hrefused : ∀ req args, ¬ app.Runs x s req args) :
    Ends app x s (app.refuse x (app.guarded x s) e)
  | failed (req : Request) (args : (app.route x).Args) (hruns : app.Runs x s req args)
    (e : Exception)
    (hfailed : (app.handled x s req args).2 = .error e ∨ ∃ payload,
      (app.handled x s req args).2 = .ok payload ∧ (app.route x).serialize payload = .error e) :
    Ends app x s (app.refuse x (app.handled x s req args).1 e)
  | completed (req : Request) (args : (app.route x).Args) (hruns : app.Runs x s req args)
    (payload serialized : Json) (hhandled : (app.handled x s req args).2 = .ok payload)
    (hserialized : (app.route x).serialize payload = .ok serialized) :
    Ends app x s (app.complete x ((app.handled x s req args).1, .ok serialized))

/-- Every request comes to one of the ends. -/
theorem ends_respond (app : Server σ) (x : Exchange) (s : σ) :
    Ends app x s (app.respond x s) := by
  rw [respond, activate_eq]
  match hguards : (app.activate x s).2 with
  | .error refusal =>
    refine .refused refusal.exception fun req args ⟨hpasses, _⟩ => ?_
    exact nomatch hguards.symm.trans hpasses
  | .ok (false, req') =>
    refine .refused _ fun req args ⟨hpasses, _⟩ => ?_
    exact nomatch hguards.symm.trans hpasses
  | .ok (true, req) =>
    dsimp only
    match hpipe : (app.route x).pipe x.input with
    | .error zodError =>
      rw [Route.run, hpipe]
      refine .refused _ fun req args ⟨_, haccepts⟩ => ?_
      exact nomatch hpipe.symm.trans haccepts
    | .ok args =>
      simp only [Route.run, hpipe]
      match hhandled : ((app.route x).handle req args (app.guarded x s)).2 with
      | .error e => exact .failed req args ⟨hguards, hpipe⟩ e (Or.inl hhandled)
      | .ok payload =>
        dsimp only
        match hserialized : (app.route x).serialize payload with
        | .error e =>
          exact .failed req args ⟨hguards, hpipe⟩ e (Or.inr ⟨payload, hhandled, hserialized⟩)
        | .ok serialized =>
          exact .completed req args ⟨hguards, hpipe⟩ payload serialized hhandled hserialized

/-- A success is not taken for an error. -/
theorem errorResponseSchema_success (response : SuccessResponse) :
    errorResponseSchema response.toJson = none := by
  simp [SuccessResponse.toJson, errorResponseSchema]

/-- The envelope carries the id and the path of the request. -/
theorem envelope_meta (x : Exchange) (payload : Json) :
    (envelope x payload).responseMeta.requestId = x.id ∧
      (envelope x payload).responseMeta.path = x.url := by
  unfold envelope
  match isPaginated payload with
  | some p => exact ⟨rfl, rfl⟩
  | none => exact ⟨rfl, rfl⟩

/-- The reply is one of the two envelopes with the id and the path of the request. The handler may
have run before an error, and has run before a success. -/
inductive Answers (app : Server σ) (x : Exchange) (s : σ) (served : Served σ) : Prop
  | failure (e : ErrorResponse) (hbody : served.reply.body = .failure e) (hid : e.requestId = x.id)
    (hpath : e.path = x.url)
    (hschema : errorResponseSchema served.reply.body.toJson = some e)
    (hrefused : (∀ req args, ¬ app.Runs x s req args) → served.state = app.guarded x s)
  | success (response : SuccessResponse) (req : Request) (args : (app.route x).Args)
    (hbody : served.reply.body = .success (.envelope response))
    (hstatus : served.reply.status = (app.route x).httpCode)
    (hid : response.responseMeta.requestId = x.id) (hpath : response.responseMeta.path = x.url)
    (hschema : errorResponseSchema served.reply.body.toJson = none)
    (hruns : app.Runs x s req args) (hstate : served.state = (app.handled x s req args).1)

/-- A refused request is answered as it should be. -/
theorem answers_refuse (app : Server σ) (x : Exchange) (s s' : σ) (e : Exception)
    (hrefused : (∀ req args, ¬ app.Runs x s req args) → s' = app.guarded x s) :
    app.Answers x s (app.refuse x s' e) ∧ (app.refuse x s' e).reply.header = x.header := by
  obtain ⟨logged, heq⟩ := refuse_eq app x s' e
  rw [heq]
  exact ⟨.failure _ rfl rfl rfl (errorResponseSchema_toJson _) hrefused, rfl⟩

/-- Whatever end it comes to, a request is answered as it should be. -/
theorem Ends.answers {served : Served σ} (h : Ends app x s served) :
    app.Answers x s served ∧ served.reply.header = x.header := by
  match h with
  | .refused e hrefused => exact answers_refuse app x s _ e fun _ => rfl
  | .failed req args hruns e hfailed =>
    exact answers_refuse app x s _ e fun hnever => absurd hruns (hnever req args)
  | .completed req args hruns payload serialized hhandled hserialized =>
    rw [complete_ok]
    obtain ⟨hid, hpath⟩ := envelope_meta x serialized
    exact ⟨.success _ req args rfl rfl hid hpath (errorResponseSchema_success _) hruns rfl, rfl⟩

/-- The logger reads the id that Fastify has chosen. -/
theorem loggerReqId_genReqId (x : Exchange) :
    loggerReqId (genReqId x.requestId x.randomUUID).2 = some x.id := rfl

/-- The handler of a route that is not public runs for the user of the session. -/
theorem user_of_runs {req : Request} {args : (app.route x).Args} (h : app.Runs x s req args)
    (hpublic : ¬ EffectivelyPublic (app.route x).handler (app.route x).cls) :
    ∃ session, app.guards.HasSession x.now x.headers s session ∧
      req.user = some session.authUser := by
  obtain ⟨hguards, -⟩ := h
  by_cases hsession : ∃ session, app.guards.HasSession x.now x.headers s session
  · obtain ⟨session, hfound⟩ := hsession
    refine ⟨session, hfound, ?_⟩
    rw [activate, AppModule.activate, AppModule.guards, tryActivate_ok
      (BetterAuthGuard.canActivate_session ⟨x.headers, none, none⟩ hpublic hfound)] at hguards
    by_cases hroles : effectiveRoles (app.route x).handler (app.route x).cls = []
    · rw [tryActivate_ok (RolesGuard.canActivate_unrestricted hroles)] at hguards
      cases hguards
      rfl
    · have hguard : RolesGuard.canActivate app.guards.ADMIN_USER_IDS _
          ⟨x.headers, some session.authUser, some session⟩
          (app.guards.getSession x.now x.headers s).1 = _ :=
        RolesGuard.canActivate_user hroles rfl
      by_cases haccepts : app.guards.accepts (effectiveRoles (app.route x).handler
          (app.route x).cls) session.authUser = true
      · rw [if_pos haccepts] at hguard
        rw [tryActivate_ok hguard] at hguards
        cases hguards
        rfl
      · rw [if_neg haccepts] at hguard
        rw [tryActivate_error hguard] at hguards
        cases hguards
  · exact absurd ⟨req, hguards⟩ (AppModule.not_passes_of_no_session hpublic hsession)

/-- Every request gets one reply, in one of the two envelopes, which the documented schema of errors
tells apart; its header, its `meta` and the logger carry one id. A request that the guards or the
pipe refuse leaves the state as its session lookup does, and the handler of a route that is not
public runs only for the user of a session. -/
theorem respond_answers (app : Server σ) (x : Exchange) (s : σ) :
    app.Answers x s (app.respond x s) ∧
    (app.respond x s).reply.header = x.header ∧
    loggerReqId (genReqId x.requestId x.randomUUID).2 = some x.id ∧
    ∀ req args, app.Runs x s req args →
      ¬ EffectivelyPublic (app.route x).handler (app.route x).cls →
      ∃ session, app.guards.HasSession x.now x.headers s session ∧
        req.user = some session.authUser := by
  have hends := (ends_respond app x s).answers
  exact ⟨hends.1, hends.2, loggerReqId_genReqId x, fun _ _ => user_of_runs⟩

/-! ## Refused requests -/

/-- A request that the guards and the pipe let through, in the state it finds. -/
def admits (app : Server σ) (x : Exchange) (s : σ) : Bool :=
  match (app.activate x s).2 with
  | .ok (true, _) => match (app.route x).pipe x.input with
    | .ok _ => true
    | .error _ => false
  | _ => false

/-- A handler runs only for a request that is admitted. -/
theorem admits_of_runs {req : Request} {args : (app.route x).Args} (h : app.Runs x s req args) :
    app.admits x s = true := by
  obtain ⟨hguards, hpipe⟩ := h
  rw [admits, hguards]
  simp only [hpipe]

/-- A request that is not admitted fails, and leaves what its guards leave. -/
theorem respond_of_not_admits (h : app.admits x s = false) :
    (app.respond x s).state = app.guarded x s ∧
      ∃ e, (app.respond x s).reply.body = .failure e := by
  have hnever : ∀ req args, ¬ app.Runs x s req args := fun req args hruns =>
    nomatch h.symm.trans (admits_of_runs hruns)
  match (ends_respond app x s).answers.1 with
  | .failure e hbody _ _ _ hrefused => exact ⟨hrefused hnever, e, hbody⟩
  | .success _ req args _ _ _ _ _ hruns _ => exact absurd hruns (hnever req args)

/-- A request, or a bare lookup of the session. -/
inductive Visit where
  | request (x : Exchange)
  | lookup (now : ℕ) (headers : List (String × String))

def visit (app : Server σ) (s : σ) : Visit → σ × List Reply
  | .request x => ((app.respond x s).state, [(app.respond x s).reply])
  | .lookup now headers => ((app.guards.getSession now headers s).1, [])

/-- Some visits, one after the other, and the replies to the requests among them. -/
def visits (app : Server σ) : σ → List Visit → σ × List Reply
  | s, [] => (s, [])
  | s, v :: vs =>
    let visited := app.visit s v
    let rest := visits app visited.1 vs
    (rest.1, visited.2 ++ rest.2)

/-- What is left of a request that the guards or the pipe refuse: the lookup, if the guards make
one. -/
def remnant (app : Server σ) (x : Exchange) : List Visit :=
  if EffectivelyPublic (app.route x).handler (app.route x).cls then []
  else [.lookup x.now x.headers]

/-- A run with its refused requests cut down to their lookups. -/
def cutDown (app : Server σ) : σ → List Exchange → List Visit
  | _, [] => []
  | s, x :: xs =>
    (if app.admits x s then [.request x] else app.remnant x) ++
      cutDown app (app.respond x s).state xs

/-- The replies of a run, each with whether its request has been admitted. -/
def judged (app : Server σ) : σ → List Exchange → List (Bool × Reply)
  | _, [] => []
  | s, x :: xs => (app.admits x s, (app.respond x s).reply) ::
      judged app (app.respond x s).state xs

/-- What a refused request leaves behind is what its guards do. -/
theorem visits_remnant (s : σ) (vs : List Visit) :
    app.visits s (app.remnant x ++ vs) = app.visits (app.guarded x s) vs := by
  rw [remnant, guarded, AppModule.lookedUp]
  by_cases hpublic : EffectivelyPublic (app.route x).handler (app.route x).cls
  · rw [if_pos hpublic, if_pos hpublic, List.nil_append]
  · rw [if_neg hpublic, if_neg hpublic]
    rfl

/-- A refused request does no more than its session lookup: cut down to it in any run, the other
requests find the same states and get the same replies; and to each refused request goes an
error. -/
theorem refused_as_lookup (app : Server σ) (s : σ) (xs : List Exchange) :
    (app.visits s (app.cutDown s xs)).1 = (app.serve s xs).1 ∧
    (app.visits s (app.cutDown s xs)).2 =
      ((app.judged s xs).filter Prod.fst).map Prod.snd ∧
    (app.serve s xs).2 = (app.judged s xs).map Prod.snd ∧
    ∀ p ∈ app.judged s xs, p.1 = false → ∃ e, p.2.body = .failure e := by
  induction xs generalizing s with
  | nil => exact ⟨rfl, rfl, rfl, fun p hp => absurd hp List.not_mem_nil⟩
  | cons x xs ih =>
    obtain ⟨hstate, hreplies, hjudged, herrors⟩ := ih (app.respond x s).state
    have hjudged' : (app.serve s (x :: xs)).2 = (app.judged s (x :: xs)).map Prod.snd :=
      congrArg ((app.respond x s).reply :: ·) hjudged
    cases hadmits : app.admits x s with
    | true =>
      rw [judged, hadmits] at hjudged' ⊢
      rw [cutDown, hadmits, if_pos rfl]
      refine ⟨hstate, congrArg ((app.respond x s).reply :: ·) hreplies, hjudged',
        fun p hp hfalse => ?_⟩
      rcases List.mem_cons.mp hp with rfl | hp
      · cases hfalse
      · exact herrors p hp hfalse
    | false =>
      obtain ⟨hguarded, e, hbody⟩ := respond_of_not_admits hadmits
      rw [judged, hadmits] at hjudged' ⊢
      rw [cutDown, hadmits, if_neg Bool.false_ne_true, visits_remnant, ← hguarded]
      refine ⟨hstate, hreplies, hjudged', fun p hp hfalse => ?_⟩
      rcases List.mem_cons.mp hp with rfl | hp
      · exact ⟨e, hbody⟩
      · exact herrors p hp hfalse

end Server

/-! ## What a client does not learn -/

/-- An exception that is not meant for the client. -/
def Exception.Internal (e : Exception) : Prop :=
  match e.cls with
  | .zodSerializationException _ | .error | .notAnError => True
  | .zodValidationException _ | .appException .. | .httpException .. => False

/-- Exceptions that a client cannot tell apart in production. -/
def Alike (e e' : Exception) : Prop := e = e' ∨ e.Internal ∧ e'.Internal

/-- Outcomes that are equal up to such exceptions. -/
inductive AlikeOutcome {ε α : Type} (exception : ε → Exception) : Except ε α → Except ε α → Prop
  | ok (a : α) : AlikeOutcome exception (.ok a) (.ok a)
  | error (e e' : ε) (h : Alike (exception e) (exception e')) :
    AlikeOutcome exception (.error e) (.error e')

/-- Two servers in production that differ in nothing but the internal errors that the session
lookup, the handlers and the serializers throw. -/
structure AlikeServers {σ : Type} (app app' : Server σ) : Prop where
  rt : app'.rt = app.rt
  env : app.NODE_ENV = "production"
  env' : app'.NODE_ENV = "production"
  admins : app'.guards.ADMIN_USER_IDS = app.guards.ADMIN_USER_IDS
  session : ∀ now headers s,
    (app'.guards.getSession now headers s).1 = (app.guards.getSession now headers s).1 ∧
    AlikeOutcome Exception.ofJsError (app.guards.getSession now headers s).2
      (app'.guards.getSession now headers s).2
  route : ∀ x, ∃ handle serializer,
    app'.route x = { app.route x with handle := handle, serializer := serializer } ∧
    (∀ req args s, (handle req args s).1 = ((app.route x).handle req args s).1 ∧
      AlikeOutcome id ((app.route x).handle req args s).2 (handle req args s).2) ∧
    ∀ payload, AlikeOutcome id ((app.route x).serialize payload)
      ((app'.route x).serialize payload)

namespace Server

variable {σ : Type} {app app' : Server σ} {x : Exchange} {s : σ}

/-- A client sees the state and the reply. -/
def Served.seen (served : Served σ) : σ × Reply := (served.state, served.reply)

/-- In production an internal error is reported without its message. -/
theorem judge_internal {rt : FilterRuntime} {lang : Option String} {e : Exception}
    (h : e.Internal) : ∃ logged, HttpExceptionFilter.judge rt "production" lang e =
      ⟨500, "Internal server error", none, none, logged⟩ := by
  obtain ⟨cls, message, stack⟩ := e
  match cls with
  | .zodSerializationException zodError => exact ⟨_, rfl⟩
  | .error | .notAnError => exact ⟨_, rfl⟩
  | .zodValidationException _ | .appException .. | .httpException .. => exact h.elim

/-- Two servers that fail for different reasons refuse alike. -/
theorem seen_refuse (h : AlikeServers app app') {e e' : Exception} (hexception : Alike e e') :
    Served.seen (app'.refuse x s e') = Served.seen (app.refuse x s e) := by
  obtain ⟨logged, heq⟩ := refuse_eq app x s e
  obtain ⟨logged', heq'⟩ := refuse_eq app' x s e'
  rw [heq, heq', errorBody, errorBody, h.rt, h.env, h.env']
  rcases hexception with rfl | ⟨hinternal, hinternal'⟩
  · rfl
  · obtain ⟨l, hl⟩ := @judge_internal app.rt x.lang e hinternal
    obtain ⟨l', hl'⟩ := @judge_internal app.rt x.lang e' hinternal'
    rw [hl, hl']
    rfl

/-- The guards leave the same state. -/
theorem alike_guarded (h : AlikeServers app app') (x : Exchange) (s : σ) :
    app'.guarded x s = app.guarded x s := by
  obtain ⟨handle, serializer, hroute, -, -⟩ := h.route x
  rw [guarded, guarded, AppModule.lookedUp, AppModule.lookedUp, hroute,
    (h.session x.now x.headers s).1]

/-- The guards let the same requests pass, and refuse the others alike. -/
theorem alike_activate (h : AlikeServers app app') (x : Exchange) (s : σ) :
    AlikeOutcome Refusal.exception (app.activate x s).2 (app'.activate x s).2 := by
  have hsame : ∀ r : Except Refusal (Bool × Request), AlikeOutcome Refusal.exception r r := by
    intro r
    cases r with
    | ok a => exact .ok a
    | error e => exact .error e e (Or.inl rfl)
  obtain ⟨handle, serializer, hroute, -, -⟩ := h.route x
  rw [activate, activate, AppModule.activate, AppModule.activate, AppModule.guards,
    AppModule.guards, hroute, h.admins]
  by_cases hpublic : EffectivelyPublic (app.route x).handler (app.route x).cls
  · rw [tryActivate_ok (BetterAuthGuard.canActivate_public hpublic),
      tryActivate_ok (BetterAuthGuard.canActivate_public hpublic)]
    exact hsame _
  · have hlookup := @BetterAuthGuard.canActivate_lookup _ _ _ x.now s app.guards.getSession
      ⟨x.headers, none, none⟩ hpublic
    have hlookup' := @BetterAuthGuard.canActivate_lookup _ _ _ x.now s app'.guards.getSession
      ⟨x.headers, none, none⟩ hpublic
    obtain ⟨hstate, hsession⟩ := h.session x.now x.headers s
    dsimp only at hlookup hlookup'
    rw [hstate] at hlookup'
    generalize (app.guards.getSession x.now x.headers s).2 = found at hlookup hsession
    generalize (app'.guards.getSession x.now x.headers s).2 = found' at hlookup' hsession
    cases hsession with
    | error e e' halike =>
      rw [tryActivate_error hlookup, tryActivate_error hlookup']
      exact .error _ _ halike
    | ok session? =>
      cases session? with
      | none =>
        rw [tryActivate_error hlookup, tryActivate_error hlookup']
        exact hsame _
      | some session =>
        rw [tryActivate_ok hlookup, tryActivate_ok hlookup']
        exact hsame _

/-- They complete alike. -/
theorem seen_complete (h : AlikeServers app app') {r r' : σ × Except Exception Json}
    (hstate : r'.1 = r.1) (houtcome : AlikeOutcome id r.2 r'.2) :
    Served.seen (app'.complete x r') = Served.seen (app.complete x r) := by
  obtain ⟨s, outcome⟩ := r
  obtain ⟨s', outcome'⟩ := r'
  obtain rfl : s' = s := hstate
  obtain ⟨handle, serializer, hroute, -, -⟩ := h.route x
  match outcome, outcome', houtcome with
  | _, _, .ok payload =>
    rw [complete_ok, complete_ok, hroute]
  | _, _, .error e e' halike =>
    rw [complete_error, complete_error]
    exact seen_refuse h halike

/-- The pipe, the handler and the serializer do the same, up to internal errors. -/
theorem alike_run (h : AlikeServers app app') (req : Request) (s : σ) :
    ((app'.route x).run req x.input s).1 = ((app.route x).run req x.input s).1 ∧
      AlikeOutcome id ((app.route x).run req x.input s).2 ((app'.route x).run req x.input s).2 := by
  obtain ⟨handle, serializer, hroute, hhandle, hserialize⟩ := h.route x
  rw [hroute] at hserialize ⊢
  simp only [Route.run]
  match hpipe : (app.route x).pipe x.input with
  | .error zodError => exact ⟨rfl, .error _ _ (Or.inl rfl)⟩
  | .ok args =>
    obtain ⟨hstate, houtcome⟩ := hhandle req args s
    dsimp only
    generalize (app.route x).handle req args s = r at hstate houtcome
    generalize handle req args s = r' at hstate houtcome
    obtain ⟨s₁, outcome⟩ := r
    obtain ⟨s₁', outcome'⟩ := r'
    obtain rfl : s₁' = s₁ := hstate
    match outcome, outcome', houtcome with
    | _, _, .ok payload => exact ⟨rfl, hserialize payload⟩
    | _, _, .error e e' halike => exact ⟨rfl, .error e e' halike⟩

/-- They respond alike. -/
theorem seen_respond (h : AlikeServers app app') (x : Exchange) (s : σ) :
    Served.seen (app'.respond x s) = Served.seen (app.respond x s) := by
  have hguards := alike_activate h x s
  rw [respond, respond, activate_eq app, activate_eq app', alike_guarded h]
  generalize (app.activate x s).2 = r at hguards
  generalize (app'.activate x s).2 = r' at hguards
  match hguards with
  | .error e e' halike => exact seen_refuse h halike
  | .ok (false, _) => exact seen_refuse h (Or.inl rfl)
  | .ok (true, req) =>
    obtain ⟨hstate, houtcome⟩ := @alike_run _ _ _ x h req (app.guarded x s)
    exact seen_complete h hstate houtcome

/-- In production the internal errors of the session lookup, the handlers and the serializers tell a
client nothing: two servers that only differ in them give the same replies in every run. -/
theorem serve_conceals (h : AlikeServers app app') (s : σ) (xs : List Exchange) :
    app'.serve s xs = app.serve s xs := by
  induction xs generalizing s with
  | nil => rfl
  | cons x xs ih =>
    have hseen := seen_respond h x s
    have hstate : (app'.respond x s).state = (app.respond x s).state := congrArg Prod.fst hseen
    have hreply : (app'.respond x s).reply = (app.respond x s).reply := congrArg Prod.snd hseen
    rw [serve, serve, hstate, hreply, ih]

/-- A server in production with one public route, whose handler throws an error with this message. -/
def failing (message : String) : Server ℕ where
  guards := ⟨fun _ _ n => (n, .ok none), none⟩
  rt := ⟨fun _ => none, fun key _ _ => key, fun _ => ""⟩
  NODE_ENV := "production"
  route _ :=
    { handler := ⟨some true, none⟩, cls := ⟨none, none⟩, httpCode := 200, Args := Json
      pipe := .ok, handle := fun _ _ n => (n + 1, .error ⟨.error, message, none⟩)
      serializer := none }

/-- Servers whose handler fails with different messages are alike. -/
theorem alike_failing (message message' : String) :
    AlikeServers (failing message) (failing message') where
  rt := rfl
  env := rfl
  env' := rfl
  admins := rfl
  session _ _ _ := ⟨rfl, .ok none⟩
  route _ := ⟨_, _, rfl, fun _ _ _ => ⟨rfl, .error _ _ (Or.inr ⟨trivial, trivial⟩)⟩, fun payload =>
    .ok payload⟩

/-- A request without an id of its own. -/
def ping : Exchange :=
  ⟨0, "/ping", none, [], .null, "2f1c6a52", "2026-01-01T00:00:00.000Z", none⟩

/-- Two requests to a handler that fails show nothing of its message. -/
theorem serve_conceals_failing :
    (failing "connect ECONNREFUSED 10.0.0.7:5432").serve 0 [ping, ping] =
      (failing "timeout").serve 0 [ping, ping] ∧
    ((failing "timeout").serve 0 [ping, ping]).1 = 2 :=
  ⟨serve_conceals (alike_failing _ _) 0 _, rfl⟩

end Server

end NestFastify.Common
