import NestFastify.Config.EnvSchema
import NestFastify.Foundation.JavaScript

/-!
# The global guards

`BetterAuthGuard` (better-auth.guard.ts) and `RolesGuard` (roles.guard.ts), which app.module.ts
registers one after the other as `APP_GUARD`. The second guard knows the user only from `req.user`,
which the first one fills in. The session lookup of Better Auth is a parameter: it reads the clock
and the state `σ` of the application, where the sessions are, and may change it.
-/

namespace NestFastify.Common

/-! ## Requests and metadata -/

/-- The user of a Better Auth session; the admin plugin adds `role` at runtime. -/
structure SessionUser where
  id : String
  email : String
  role : Option Json

structure Session where
  user : SessionUser

structure AuthUser where
  userId : String
  email : String
  role : Option String

/-- A request, and what the guards leave in it. -/
structure Request where
  headers : List (String × String)
  user : Option AuthUser
  session : Option Session

/-- What `@Public` and `@Roles` put on a handler or a class; `none` without the decorator. -/
structure Metadata where
  isPublic : Option Bool
  roles : Option (List String)

structure ExecutionContext where
  type : String
  handler : Metadata
  cls : Metadata

/-- `Reflector.getAllAndOverride`: the first target that carries the key. -/
def getAllAndOverride {α : Type} (key : Metadata → Option α) (targets : List Metadata) :
    Option α :=
  targets.findSome? key

/-- How a guard refuses a request. -/
inductive Refusal where
  | unauthorizedException
  | forbiddenException
  | thrown (e : JsError)

/-- A guard answers `true` or `false` or throws; it may write to the request, and what it calls may
change the state. -/
abbrev CanActivate (σ : Type) : Type :=
  ExecutionContext → Request → σ → σ × Except Refusal (Bool × Request)

/-! ## The guards -/

/-- `auth.api.getSession` at an instant, by the headers of the request. The lookup moves on the
expiry of a session that is in use, and deletes one that has expired. -/
abbrev GetSession (σ : Type) : Type :=
  ℕ → List (String × String) → σ → σ × Except JsError (Option Session)

variable {σ : Type}

/-- What `BetterAuthGuard` assigns to `req.user`; a role that is not a string is left out. -/
def Session.authUser (session : Session) : AuthUser where
  userId := session.user.id
  email := session.user.email
  role := match session.user.role with
    | some (.str role) => some role
    | _ => none

def BetterAuthGuard.canActivate (getSession : GetSession σ) (now : ℕ) : CanActivate σ :=
  fun context req s =>
    -- the handlers of a queue carry no Authorization header
    if context.type ≠ "http" then (s, .ok (true, req))
    else if getAllAndOverride Metadata.isPublic [context.handler, context.cls] = some true then
      (s, .ok (true, req))
    else
      let (s', found) := getSession now req.headers s
      match found with
      | .error e => (s', .error (.thrown e))
      | .ok none => (s', .error .unauthorizedException)
      | .ok (some session) =>
        (s', .ok (true, { req with user := some session.authUser, session := some session }))

def RolesGuard.canActivate (ADMIN_USER_IDS : Option (List String)) : CanActivate σ :=
  fun context req s =>
    if context.type ≠ "http" then (s, .ok (true, req))
    else
      match getAllAndOverride Metadata.roles [context.handler, context.cls] with
      | none => (s, .ok (true, req))
      -- `@Roles()` without a role asks for nothing
      | some [] => (s, .ok (true, req))
      | some roles =>
        match req.user with
        -- on a public route nobody has filled in the user
        | none => (s, .error .forbiddenException)
        | some user =>
          let adminUserIds := ADMIN_USER_IDS.getD []
          let roleMatches := user.role.any roles.contains
          if roleMatches || adminUserIds.contains user.userId then (s, .ok (true, req))
          else (s, .error .forbiddenException)

/-- Nest asks the guards in their order; one that answers `false` stands for a 403. -/
def tryActivate : List (CanActivate σ) → CanActivate σ
  | [], _, req, s => (s, .ok (true, req))
  | guard :: guards, context, req, s =>
    let (s', answer) := guard context req s
    match answer with
    | .error e => (s', .error e)
    | .ok (false, _) => (s', .error .forbiddenException)
    | .ok (true, req') => tryActivate guards context req' s'

/-- What the guards depend on besides the request and its route. -/
structure AppModule (σ : Type) where
  getSession : GetSession σ
  ADMIN_USER_IDS : Option (List String)

/-- The `APP_GUARD` providers. -/
def AppModule.guards (app : AppModule σ) (now : ℕ) : List (CanActivate σ) :=
  [BetterAuthGuard.canActivate app.getSession now, RolesGuard.canActivate app.ADMIN_USER_IDS]

/-- What the guards make of a request that has just come in, and the state they leave. -/
def AppModule.activate (app : AppModule σ) (now : ℕ) (context : ExecutionContext)
    (headers : List (String × String)) (s : σ) : σ × Except Refusal (Bool × Request) :=
  tryActivate (app.guards now) context ⟨headers, none, none⟩ s

/-! ## What one guard does -/

variable {app : AppModule σ} {handler cls : Metadata} {headers : List (String × String)}
  {context : ExecutionContext} {req : Request} {session : Session} {user : AuthUser} {now : ℕ}
  {s s' : σ}

/-- The roles a route asks for; none without `@Roles`. -/
def effectiveRoles (handler cls : Metadata) : List String :=
  (getAllAndOverride Metadata.roles [handler, cls]).getD []

def EffectivelyPublic (handler cls : Metadata) : Prop :=
  getAllAndOverride Metadata.isPublic [handler, cls] = some true

instance (handler cls : Metadata) : Decidable (EffectivelyPublic handler cls) :=
  inferInstanceAs (Decidable (_ = _))

/-- The test that `RolesGuard` makes. -/
def AppModule.accepts (app : AppModule σ) (required : List String) (user : AuthUser) : Bool :=
  user.role.any required.contains || (app.ADMIN_USER_IDS.getD []).contains user.userId

/-- A guard that lets the request through leaves it to the next one. -/
theorem tryActivate_ok {guard : CanActivate σ} {guards : List (CanActivate σ)} {req' : Request}
    (h : guard context req s = (s', .ok (true, req'))) :
    tryActivate (guard :: guards) context req s = tryActivate guards context req' s' := by
  rw [tryActivate, h]

/-- A guard that throws ends the request. -/
theorem tryActivate_error {guard : CanActivate σ} {guards : List (CanActivate σ)} {e : Refusal}
    (h : guard context req s = (s', .error e)) :
    tryActivate (guard :: guards) context req s = (s', .error e) := by
  rw [tryActivate, h]

namespace BetterAuthGuard

variable {getSession : GetSession σ}

/-- On a public route nobody is looked up. -/
theorem canActivate_public (h : EffectivelyPublic handler cls) :
    canActivate getSession now ⟨"http", handler, cls⟩ req s = (s, .ok (true, req)) := by
  simp only [EffectivelyPublic] at h
  simp [canActivate, h]

/-- On a route that is not public the guard looks up the session, which may change the state. -/
theorem canActivate_lookup (req : Request) (h : ¬ EffectivelyPublic handler cls) :
    canActivate getSession now ⟨"http", handler, cls⟩ req s =
      ((getSession now req.headers s).1, match (getSession now req.headers s).2 with
        | .error e => .error (.thrown e)
        | .ok none => .error .unauthorizedException
        | .ok (some session) =>
          .ok (true, { req with user := some session.authUser, session := some session })) := by
  simp only [EffectivelyPublic] at h
  simp only [canActivate, ne_eq, not_true, if_false, h]
  generalize getSession now req.headers s = r
  obtain ⟨s', found⟩ := r
  cases found with
  | error e => rfl
  | ok session? =>
    cases session? with
    | none => rfl
    | some session => rfl

/-- With a session the request gets its user. -/
theorem canActivate_session (req : Request) (h : ¬ EffectivelyPublic handler cls)
    (hsession : (getSession now req.headers s).2 = .ok (some session)) :
    canActivate getSession now ⟨"http", handler, cls⟩ req s = ((getSession now req.headers s).1,
      .ok (true, { req with user := some session.authUser, session := some session })) := by
  rw [canActivate_lookup req h, hsession]

/-- Without one it is refused, and the lookup has happened. -/
theorem canActivate_refused (req : Request) (h : ¬ EffectivelyPublic handler cls)
    (hsession : ∀ session, (getSession now req.headers s).2 ≠ .ok (some session)) :
    ∃ e, canActivate getSession now ⟨"http", handler, cls⟩ req s =
      ((getSession now req.headers s).1, .error e) := by
  rw [canActivate_lookup req h]
  cases hcall : (getSession now req.headers s).2 with
  | error e => exact ⟨.thrown e, rfl⟩
  | ok found =>
    cases found with
    | none => exact ⟨.unauthorizedException, rfl⟩
    | some session => exact absurd hcall (hsession session)

end BetterAuthGuard

namespace RolesGuard

/-- A route without roles lets everybody pass. -/
theorem canActivate_unrestricted (h : effectiveRoles handler cls = []) :
    canActivate app.ADMIN_USER_IDS ⟨"http", handler, cls⟩ req s = (s, .ok (true, req)) := by
  cases hroles : getAllAndOverride Metadata.roles [handler, cls] with
  | none => simp [canActivate, hroles]
  | some roles =>
    rw [effectiveRoles, hroles, Option.getD_some] at h
    subst h
    simp [canActivate, hroles]

/-- A route that asks for roles needs a user in the request. -/
theorem canActivate_anonymous (h : effectiveRoles handler cls ≠ []) (huser : req.user = none) :
    canActivate app.ADMIN_USER_IDS ⟨"http", handler, cls⟩ req s =
      (s, .error .forbiddenException) := by
  cases hroles : getAllAndOverride Metadata.roles [handler, cls] with
  | none => simp [effectiveRoles, hroles] at h
  | some roles =>
    cases roles with
    | nil => simp [effectiveRoles, hroles] at h
    | cons role roles => simp [canActivate, hroles, huser]

/-- A user passes a route with roles when the guard accepts the user. -/
theorem canActivate_user (h : effectiveRoles handler cls ≠ []) (huser : req.user = some user) :
    canActivate app.ADMIN_USER_IDS ⟨"http", handler, cls⟩ req s =
      if app.accepts (effectiveRoles handler cls) user then (s, .ok (true, req))
      else (s, .error .forbiddenException) := by
  cases hroles : getAllAndOverride Metadata.roles [handler, cls] with
  | none => simp [effectiveRoles, hroles] at h
  | some roles =>
    cases roles with
    | nil => simp [effectiveRoles, hroles] at h
    | cons role roles => simp [canActivate, effectiveRoles, hroles, huser, AppModule.accepts]

/-- The guard reads the metadata and the request only. -/
theorem canActivate_state (app : AppModule σ) (req : Request) (s : σ) :
    (canActivate app.ADMIN_USER_IDS ⟨"http", handler, cls⟩ req s).1 = s := by
  by_cases hroles : effectiveRoles handler cls = []
  · rw [canActivate_unrestricted hroles]
  · match huser : req.user with
    | none => rw [canActivate_anonymous hroles huser]
    | some user =>
      rw [canActivate_user hroles huser]
      split
      · rfl
      · rfl

end RolesGuard

/-! ## The guards together -/

/-- The role of a user is that of the session, where it is a string. -/
theorem Session.authUser_role {role : String} :
    session.authUser.role = some role ↔ session.user.role = some (.str role) := by
  unfold Session.authUser
  split
  · rename_i heq
    rw [heq, Option.some_inj, Option.some_inj, Json.str.injEq]
  · rename_i hother
    constructor
    · intro h
      cases h
    · intro h
      exact absurd h (hother role)

/-- The roles of a user; the admin plugin stores them in one string with commas. -/
def SessionUser.roles (user : SessionUser) : List String :=
  match user.role with
  | some (.str role) => Config.splitComma role
  | _ => []

namespace AppModule

/-- The session of a request that comes in at an instant and finds a state. -/
def HasSession (app : AppModule σ) (now : ℕ) (headers : List (String × String)) (s : σ)
    (session : Session) : Prop :=
  (app.getSession now headers s).2 = .ok (some session)

/-- An HTTP request gets past the guards. -/
def Passes (app : AppModule σ) (handler cls : Metadata) (now : ℕ)
    (headers : List (String × String)) (s : σ) : Prop :=
  ∃ req, (app.activate now ⟨"http", handler, cls⟩ headers s).2 = .ok (true, req)

/-- The user holds one of the roles or is an administrator by configuration. -/
def Entitled (app : AppModule σ) (required : List String) (user : SessionUser) : Prop :=
  user.id ∈ app.ADMIN_USER_IDS.getD [] ∨ ∃ role ∈ user.roles, role ∈ required

/-- Who should get past the guards. -/
def MayPass (app : AppModule σ) (handler cls : Metadata) (now : ℕ)
    (headers : List (String × String)) (s : σ) : Prop :=
  effectiveRoles handler cls = [] ∧
      (EffectivelyPublic handler cls ∨ ∃ session, app.HasSession now headers s session) ∨
    effectiveRoles handler cls ≠ [] ∧
      ∃ session, app.HasSession now headers s session ∧
        app.Entitled (effectiveRoles handler cls) session.user

/-- The state that the guards leave: on a public route they do not touch it, elsewhere it is what the
session lookup makes of it. -/
def lookedUp (app : AppModule σ) (handler cls : Metadata) (now : ℕ)
    (headers : List (String × String)) (s : σ) : σ :=
  if EffectivelyPublic handler cls then s else (app.getSession now headers s).1

/-- The guards change nothing but what the lookup changes. -/
theorem activate_state : (app.activate now ⟨"http", handler, cls⟩ headers s).1 =
    app.lookedUp handler cls now headers s := by
  have hroles : ∀ (req : Request) (s' : σ), (tryActivate
      [RolesGuard.canActivate app.ADMIN_USER_IDS] ⟨"http", handler, cls⟩ req s').1 = s' := by
    intro req s'
    have hstate := @RolesGuard.canActivate_state _ handler cls app req s'
    rw [tryActivate]
    generalize RolesGuard.canActivate app.ADMIN_USER_IDS ⟨"http", handler, cls⟩ req s' = r at hstate
    obtain ⟨s'', answer⟩ := r
    rcases answer with e | ⟨_ | _, req'⟩
    · exact hstate
    · exact hstate
    · exact hstate
  rw [lookedUp, activate, guards]
  by_cases hpublic : EffectivelyPublic handler cls
  · rw [if_pos hpublic, tryActivate_ok (BetterAuthGuard.canActivate_public hpublic), hroles]
  · rw [if_neg hpublic]
    by_cases hsession : ∃ session, (app.getSession now headers s).2 = .ok (some session)
    · obtain ⟨session, hfound⟩ := hsession
      rw [tryActivate_ok (BetterAuthGuard.canActivate_session ⟨headers, none, none⟩ hpublic hfound),
        hroles]
    · obtain ⟨e, he⟩ := BetterAuthGuard.canActivate_refused ⟨headers, none, none⟩ hpublic
        fun session hfound => hsession ⟨session, hfound⟩
      rw [tryActivate_error he]

/-- The guard accepts a required role and the ids of `ADMIN_USER_IDS`. -/
theorem accepts_iff {required : List String} : app.accepts required session.authUser = true ↔
    (∃ role, session.user.role = some (.str role) ∧ role ∈ required) ∨
      session.user.id ∈ app.ADMIN_USER_IDS.getD [] := by
  rw [accepts, Bool.or_eq_true, Option.any_eq_true, List.contains_iff_mem]
  simp only [Session.authUser_role, List.contains_iff_mem]
  exact Iff.rfl

/-- A public route leaves the request without a user. -/
theorem passes_public (h : EffectivelyPublic handler cls) :
    app.Passes handler cls now headers s ↔ effectiveRoles handler cls = [] := by
  rw [Passes, activate, guards, tryActivate_ok (BetterAuthGuard.canActivate_public h)]
  by_cases hroles : effectiveRoles handler cls = []
  · rw [tryActivate_ok (RolesGuard.canActivate_unrestricted hroles)]
    exact iff_of_true ⟨⟨headers, none, none⟩, rfl⟩ hroles
  · rw [tryActivate_error (RolesGuard.canActivate_anonymous hroles rfl)]
    exact iff_of_false (fun hok => by cases hok.choose_spec) hroles

/-- With a session the roles decide. -/
theorem passes_session (h : ¬ EffectivelyPublic handler cls)
    (hsession : app.HasSession now headers s session) : app.Passes handler cls now headers s ↔
      effectiveRoles handler cls = [] ∨
        app.accepts (effectiveRoles handler cls) session.authUser = true := by
  rw [Passes, activate, guards,
    tryActivate_ok (BetterAuthGuard.canActivate_session ⟨headers, none, none⟩ h hsession)]
  by_cases hroles : effectiveRoles handler cls = []
  · rw [tryActivate_ok (RolesGuard.canActivate_unrestricted hroles)]
    exact iff_of_true ⟨⟨headers, some session.authUser, some session⟩, rfl⟩ (Or.inl hroles)
  · have hguard : RolesGuard.canActivate app.ADMIN_USER_IDS ⟨"http", handler, cls⟩
        ⟨headers, some session.authUser, some session⟩ (app.getSession now headers s).1 = _ :=
      RolesGuard.canActivate_user hroles rfl
    by_cases haccepts : app.accepts (effectiveRoles handler cls) session.authUser = true
    · rw [if_pos haccepts] at hguard
      rw [tryActivate_ok hguard]
      exact iff_of_true ⟨_, rfl⟩ (Or.inr haccepts)
    · rw [if_neg haccepts] at hguard
      rw [tryActivate_error hguard]
      exact iff_of_false (fun hok => by cases hok.choose_spec) (not_or.mpr ⟨hroles, haccepts⟩)

/-- Without a session nobody passes. -/
theorem not_passes_of_no_session (h : ¬ EffectivelyPublic handler cls)
    (hsession : ¬ ∃ session, app.HasSession now headers s session) :
    ¬ app.Passes handler cls now headers s := by
  obtain ⟨e, he⟩ := BetterAuthGuard.canActivate_refused ⟨headers, none, none⟩ h
    fun session hfound => hsession ⟨session, hfound⟩
  rw [Passes, activate, guards, tryActivate_error he]
  exact fun hok => by cases hok.choose_spec

/-- Without roles a session is enough. -/
theorem passes_unrestricted (hroles : effectiveRoles handler cls = []) :
    app.Passes handler cls now headers s ↔
      EffectivelyPublic handler cls ∨ ∃ session, app.HasSession now headers s session := by
  by_cases hpublic : EffectivelyPublic handler cls
  · exact iff_of_true ((passes_public hpublic).mpr hroles) (Or.inl hpublic)
  · by_cases hsession : ∃ session, app.HasSession now headers s session
    · obtain ⟨session, hfound⟩ := hsession
      exact iff_of_true ((passes_session hpublic hfound).mpr (Or.inl hroles))
        (Or.inr ⟨session, hfound⟩)
    · exact iff_of_false (not_passes_of_no_session hpublic hsession)
        (not_or.mpr ⟨hpublic, hsession⟩)

/-- And so it should be. -/
theorem mayPass_unrestricted (hroles : effectiveRoles handler cls = []) :
    app.MayPass handler cls now headers s ↔
      EffectivelyPublic handler cls ∨ ∃ session, app.HasSession now headers s session := by
  simp [MayPass, hroles]

/-- There is one session at most. -/
theorem HasSession.unique {session' : Session} (h : app.HasSession now headers s session)
    (h' : app.HasSession now headers s session') : session' = session :=
  Option.some.inj (Except.ok.inj (h'.symm.trans h))

/-- With roles and a session the user has to be entitled. -/
theorem mayPass_session (hroles : effectiveRoles handler cls ≠ [])
    (hsession : app.HasSession now headers s session) : app.MayPass handler cls now headers s ↔
      app.Entitled (effectiveRoles handler cls) session.user := by
  constructor
  · intro h
    rcases h with ⟨hnone, -⟩ | ⟨-, session', hfound, hentitled⟩
    · exact absurd hnone hroles
    · exact hsession.unique hfound ▸ hentitled
  · intro hentitled
    exact Or.inr ⟨hroles, session, hsession, hentitled⟩

/-- The guards let exactly those through who should get through, if and only if the route asks
for no roles, or there is no session, or the session's user is one the guards judge right: on a
public route, which never has a user, one who is not entitled; elsewhere an administrator by
configuration or one whose role string is in the list just when one of its roles is. -/
theorem passes_iff_mayPass_iff (app : AppModule σ) (handler cls : Metadata) (now : ℕ)
    (headers : List (String × String)) (s : σ) :
    (app.Passes handler cls now headers s ↔ app.MayPass handler cls now headers s) ↔
      (effectiveRoles handler cls ≠ [] → ∀ session, app.HasSession now headers s session →
        (EffectivelyPublic handler cls →
          ¬ app.Entitled (effectiveRoles handler cls) session.user) ∧
        (¬ EffectivelyPublic handler cls → session.user.id ∉ app.ADMIN_USER_IDS.getD [] →
          ((∃ role ∈ session.user.roles, role ∈ effectiveRoles handler cls) ↔
            ∃ role, session.user.role = some (.str role) ∧
              role ∈ effectiveRoles handler cls))) := by
  by_cases hroles : effectiveRoles handler cls = []
  · exact iff_of_true ((passes_unrestricted hroles).trans (mayPass_unrestricted hroles).symm)
      fun hne => absurd hroles hne
  by_cases hsession : ∃ session, app.HasSession now headers s session
  · obtain ⟨session, hfound⟩ := hsession
    rw [mayPass_session hroles hfound]
    by_cases hpublic : EffectivelyPublic handler cls
    · -- nobody passes
      rw [passes_public hpublic]
      constructor
      · intro h _ session' hfound'
        rw [hfound.unique hfound']
        exact ⟨fun _ hentitled => hroles (h.mpr hentitled), fun hnot => absurd hpublic hnot⟩
      · intro h
        exact iff_of_false hroles ((h hroles session hfound).1 hpublic)
    · rw [passes_session hpublic hfound, accepts_iff, Entitled]
      constructor
      · intro h _ session' hfound'
        rw [hfound.unique hfound']
        refine ⟨fun hyes => absurd hyes hpublic, fun _ hid => ?_⟩
        simp only [hroles, hid, false_or, or_false] at h
        exact h.symm
      -- an administrator by configuration passes, and should
      · intro h
        by_cases hid : session.user.id ∈ app.ADMIN_USER_IDS.getD []
        · exact iff_of_true (Or.inr (Or.inr hid)) (Or.inl hid)
        · have hwhole := (h hroles session hfound).2 hpublic hid
          simp only [hroles, hid, false_or, or_false]
          exact hwhole.symm
  · -- both sides refuse
    refine iff_of_true (iff_of_false ?_ ?_) fun _ session hfound =>
      absurd ⟨session, hfound⟩ hsession
    · by_cases hpublic : EffectivelyPublic handler cls
      · exact fun hpasses => hroles ((passes_public hpublic).mp hpasses)
      · exact not_passes_of_no_session hpublic hsession
    · rintro (⟨hnone, -⟩ | ⟨-, session, hfound, -⟩)
      · exact hroles hnone
      · exact hsession ⟨session, hfound⟩

/-- An application with one user, who has two roles, and no administrators by configuration. -/
def twoRoles : AppModule Unit where
  getSession _ _ s := (s, .ok (some ⟨⟨"u1", "ann@example.com", some (.str "admin,user")⟩⟩))
  ADMIN_USER_IDS := some []

/-- A user who holds the role is refused, since the role string is compared whole. -/
theorem not_passes_iff_mayPass : ¬ ∀ (app : AppModule Unit) handler cls now headers s,
    Passes app handler cls now headers s ↔ MayPass app handler cls now headers s := by
  intro h
  have hsession : twoRoles.HasSession 0 [] ()
      ⟨⟨"u1", "ann@example.com", some (.str "admin,user")⟩⟩ := rfl
  have hmay : twoRoles.MayPass ⟨none, some ["admin"]⟩ ⟨none, none⟩ 0 [] () :=
    Or.inr ⟨by decide, _, hsession, Or.inr ⟨"admin", by decide, by decide⟩⟩
  have hpasses := (passes_session (by decide) hsession).mp ((h _ _ _ _ _ _).mpr hmay)
  exact absurd hpasses (by decide)

/-- A user with one role is judged by it. -/
theorem accepts_iff_entitled {required : List String} {role : String}
    (hrole : session.user.role = some (.str role)) (hsingle : ',' ∉ role.toList) :
    app.accepts required session.authUser = true ↔ app.Entitled required session.user := by
  have hroles : session.user.roles = [role] := by
    rw [SessionUser.roles, hrole]
    show (role.toList.splitOn ',').map String.ofList = [role]
    rw [List.splitOn_eq_singleton hsingle, List.map_singleton, String.ofList_toList]
  rw [accepts_iff, Entitled, hroles, hrole, or_comm]
  simp

end AppModule

end NestFastify.Common
