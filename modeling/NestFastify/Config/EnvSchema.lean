import Mathlib.Data.PNat.Basic
import Mathlib.Data.Rat.Defs
import NestFastify.Foundation.JsString

/-!
# The environment schema

`envSchema` (env.schema.ts) reads the environment variables, applies the defaults, checks
each field and then the conditions that relate several fields. Its result `Env` carries
those conditions, so an environment that misses one cannot be built.

A check that a field of the right type fails does not abort the parse: the conditions that relate
fields are then checked too, on the values as they were read (`CrossFields`).

What JavaScript and Zod do with a string (`Number(s)`, `s.trim()`, the format checks) is
the parameter `Runtime`.
-/

namespace NestFastify.Config

/-- The string functions of the JavaScript runtime and of Zod. -/
structure Runtime where
  /-- `Number(s)`; `none` for `NaN` and the infinities. -/
  number : String → Option ℚ
  /-- `s.trim()`. -/
  trim : String → String
  /-- `s.toLowerCase()`. -/
  toLowerCase : String → String
  /-- `z.url()` accepts `s`. -/
  isUrl : String → Bool
  /-- `String(n)` of an integer beyond the safe ones. -/
  numberText : ℤ → String

/-- An issue of a failed parse; the texts of Zod's own checks are left out. -/
structure Issue where
  path : String
  message : Option String
deriving DecidableEq

/-- The result of a parse; one that is aborted ends before the checks of what contains it. -/
inductive Parsed (α : Type) where
  | valid (a : α)
  | invalid (aborted : Bool) (issues : List Issue)

/-- Apply a parsed function to the next parsed field; the issues of both are kept. -/
def Parsed.seq {α β : Type} : Parsed (α → β) → Parsed α → Parsed β
  | .valid f, .valid a => .valid (f a)
  | .valid _, .invalid aborted xs => .invalid aborted xs
  | .invalid aborted fs, .valid _ => .invalid aborted fs
  | .invalid aborted fs, .invalid aborted' xs => .invalid (aborted || aborted') (fs ++ xs)

instance : Applicative Parsed where
  pure := .valid
  seq f x := f.seq (x ())

/-- The first field of the schema is accepted. -/
@[simp] theorem map_valid {α β : Type} (f : α → β) (a : α) :
    f <$> Parsed.valid a = .valid (f a) := rfl

/-- So is a further one. -/
@[simp] theorem valid_seq {α β : Type} (f : α → β) (a : α) :
    Parsed.valid f <*> Parsed.valid a = .valid (f a) := rfl

/-- The unparsed environment: one string or nothing for each variable. -/
abbrev RawEnv : Type := String → Option String

/-! ## Field checks -/

section Fields

variable (rt : Runtime) (raw : RawEnv) (name : String)

/-- A value that is not of the type, or not there. -/
def mistyped {α : Type} : Parsed α := .invalid true [⟨name, none⟩]

/-- A value of the type that one of Zod's own checks refuses. -/
def refused {α : Type} : Parsed α := .invalid false [⟨name, none⟩]

/-- `z.string().default(d)`. -/
def stringField (default : String) : Parsed String := .valid ((raw name).getD default)

/-- `z.string().optional()`. -/
def optionalStringField : Parsed (Option String) := .valid (raw name)

/-- `z.string().min(n)`. -/
def minLengthField (n : ℕ) : Parsed String :=
  match raw name with
  | some s => if n ≤ JsString.length s then .valid s else refused name
  | none => mistyped name

/-- `z.url()`, with a default or without one. -/
def urlField (default : Option String) : Parsed String :=
  match raw name, default with
  | some s, _ => if rt.isUrl s then .valid s else refused name
  | none, some d => .valid d
  | none, none => mistyped name

/-- The largest integer `z.int()` accepts, `Number.MAX_SAFE_INTEGER`. -/
def maxSafeInteger : ℕ := 2 ^ 53 - 1

/-- `Number(s)`, when it is an integer. -/
def integer (s : String) : Option ℤ :=
  (rt.number s).bind fun q => if q.den = 1 then some q.num else none

/-- The issues of `.int()` and of the further checks of an integer: one for each that fails. -/
def intIssues (checks : List (ℤ → Bool)) (n : ℤ) : List Issue :=
  (((fun n => decide (n.natAbs ≤ maxSafeInteger)) :: checks).filter fun check => !check n).map
    fun _ => ⟨name, none⟩

variable {name} in
/-- An integer without an issue passes every check. -/
theorem checks_of_intIssues {checks : List (ℤ → Bool)} {n : ℤ} (h : intIssues name checks n = [])
    {check : ℤ → Bool} (hcheck : check ∈ checks) : check n = true := by
  simp only [intIssues, List.map_eq_nil_iff, List.filter_eq_nil_iff] at h
  simpa using h check (List.mem_cons_of_mem _ hcheck)

variable {name} in
/-- An integer without an issue is a safe one. -/
theorem safe_of_intIssues {checks : List (ℤ → Bool)} {n : ℤ} (h : intIssues name checks n = []) :
    n.natAbs ≤ maxSafeInteger := by
  simp only [intIssues, List.map_eq_nil_iff, List.filter_eq_nil_iff] at h
  simpa using h _ List.mem_cons_self

/-- `z.coerce.number().int()` with further checks and a default; `make` reads off the value. -/
def intField {α : Type} (checks : List (ℤ → Bool)) (default : α)
    (make : (n : ℤ) → (∀ check ∈ checks, check n = true) → α) : Parsed α :=
  match raw name with
  | none => .valid default
  | some s =>
    match integer rt s with
    | none => mistyped name
    | some n =>
      if h : intIssues name checks n = [] then .valid (make n fun _ => checks_of_intIssues h)
      else .invalid false (intIssues name checks n)

variable {rt raw name} in
/-- A safe integer that meets the further checks is accepted. -/
theorem intField_number {α : Type} {checks : List (ℤ → Bool)} {default : α}
    {make : (n : ℤ) → (∀ check ∈ checks, check n = true) → α} {s : String} {n : ℤ}
    (hraw : raw name = some s) (hnumber : rt.number s = some (n : ℚ))
    (hsafe : n.natAbs ≤ maxSafeInteger) (hchecks : ∀ check ∈ checks, check n = true) :
    intField rt raw name checks default make = .valid (make n hchecks) := by
  have hinteger : integer rt s = some n := by
    rw [integer, hnumber, Option.bind_some, if_pos (Rat.den_intCast n), Rat.num_intCast]
  have hnone : intIssues name checks n = [] := by
    simp only [intIssues, List.map_eq_nil_iff, List.filter_eq_nil_iff]
    intro check hcheck
    rcases List.mem_cons.mp hcheck with rfl | hcheck
    · simp [hsafe]
    · simp [hchecks check hcheck]
  simp only [intField, hraw, hinteger]
  exact dif_pos hnone

/-- `.positive()`. -/
def positive (n : ℤ) : Bool := decide (0 < n)

/-- An integer that is positive. -/
def toPNat (n : ℤ) (h : positive n = true) : ℕ+ :=
  ⟨n.toNat, Int.pos_iff_toNat_pos.mp (of_decide_eq_true h)⟩

/-- An upper bound of the number is one of the positive number that it is read as. -/
theorem toPNat_le {n : ℤ} {m : ℕ+} (h : positive n = true) (hle : n ≤ m) : toPNat n h ≤ m :=
  Int.toNat_le.mpr hle

/-- `z.coerce.number().int().positive().default(d)`. -/
def positiveIntField (default : ℕ+) : Parsed ℕ+ :=
  intField rt raw name [positive] default fun n h => toPNat n (h _ List.mem_cons_self)

/-- `z.coerce.number().int().min(0).default(d)`. -/
def naturalField (default : ℕ) : Parsed ℕ :=
  intField rt raw name [fun n => decide (0 ≤ n)] default fun n _ => n.toNat

/-- `z.enum(values)`, with the value used when the variable is missing. -/
def enumField {α : Type} (values : List (String × α)) (default : Option α) : Parsed α :=
  match raw name, default with
  | some s, _ =>
    match values.lookup s with
    | some a => .valid a
    | none => mistyped name
  | none, some a => .valid a
  | none, none => mistyped name

/-- `z.stringbool().default(d)`. -/
def stringboolField (default : Bool) : Parsed Bool :=
  match raw name with
  | none => .valid default
  | some s =>
    if rt.toLowerCase s ∈ ["true", "1", "yes", "on", "y", "enabled"] then .valid true
    else if rt.toLowerCase s ∈ ["false", "0", "no", "off", "n", "disabled"] then .valid false
    else mistyped name

/-- `s.split(',')`. -/
def splitComma (s : String) : List String := (s.toList.splitOn ',').map String.ofList

/-- A CSV list: split, trimmed, without the empty items; empty when the variable is. -/
def csvField : Parsed (List String) :=
  .valid (match raw name with
    | none => []
    | some s => if s = "" then [] else ((splitComma s).map rt.trim).filter (· ≠ ""))

/-- One delay of `RABBITMQ_RETRY_DELAYS_MS`: `Number(n.trim())`, a positive integer. -/
def retryDelay (s : String) : Option ℕ+ :=
  (rt.number (rt.trim s)).bind fun q =>
    if h : q.den = 1 ∧ 0 < q.num.toNat then some ⟨q.num.toNat, h.2⟩ else none

/-- `RABBITMQ_RETRY_DELAYS_MS`: every item a positive integer. -/
def retryDelaysField (default : List ℕ+) : Parsed (List ℕ+) :=
  match raw name with
  | none => .valid default
  | some s =>
    match (splitComma s).mapM (retryDelay rt) with
    | some delays => .valid delays
    | none => .invalid false [⟨name, some
        "RABBITMQ_RETRY_DELAYS_MS phải là danh sách số ms dương, cách nhau bằng dấu phẩy"⟩]

/-- The pattern `/^\d+[kmg]?$/i`. -/
def isFileSize (s : String) : Bool :=
  let digits := s.toList.takeWhile Char.isDigit
  let unit := s.toList.dropWhile Char.isDigit
  !digits.isEmpty && (unit.isEmpty || (unit.length = 1 && unit.all (· ∈ "kmgKMG".toList)))

/-- `LOG_FILE_MAX_SIZE`. -/
def fileSizeField (default : String) : Parsed String :=
  match raw name with
  | none => .valid default
  | some s => if isFileSize s then .valid s else .invalid false [⟨name, some
      "LOG_FILE_MAX_SIZE phải dạng số + đơn vị k/m/g (vd 50m)"⟩]

end Fields

/-! ## The schema -/

inductive NodeEnv | development | test | production
deriving DecidableEq

inductive LogLevel | fatal | error | warn | info | debug | trace | silent
deriving DecidableEq

/-- The output of the object schema, before the checks that relate fields. -/
structure EnvFields where
  NODE_ENV : NodeEnv
  PORT : ℕ+
  LOG_LEVEL : Option LogLevel
  LOG_FILE_ENABLED : Bool
  LOG_ERROR_FILE_ENABLED : Bool
  LOG_DIR : String
  LOG_FILE_MAX_DAYS : ℕ+
  LOG_FILE_MAX_SIZE : String
  DATABASE_URL : String
  REDIS_HOST : String
  REDIS_PORT : ℕ+
  REDIS_PASSWORD : Option String
  REDIS_DB : ℕ
  REDIS_KEY_PREFIX : String
  CACHE_DEFAULT_TTL : ℕ+
  RABBITMQ_URL : String
  RABBITMQ_EXCHANGE : String
  RABBITMQ_PREFETCH : ℕ+
  RABBITMQ_MAX_RETRIES : ℕ
  RABBITMQ_RETRY_DELAYS_MS : List ℕ+
  RABBITMQ_QUORUM_DELIVERY_LIMIT : ℕ+
  RABBITMQ_IDEMPOTENCY_TTL : ℕ+
  RABBITMQ_OUTBOX_POLL_MS : ℕ+
  RABBITMQ_OUTBOX_BATCH : ℕ+
  RABBITMQ_OUTBOX_MAX_ATTEMPTS : ℕ+
  BETTER_AUTH_SECRET : String
  BETTER_AUTH_URL : String
  EMAIL_VERIFICATION_REQUIRED : Bool
  ALLOWED_ORIGINS : List String
  ADMIN_USER_IDS : List String
  GOOGLE_CLIENT_ID : Option String
  GOOGLE_CLIENT_SECRET : Option String
  FACEBOOK_CLIENT_ID : Option String
  FACEBOOK_CLIENT_SECRET : Option String
  FALLBACK_LANGUAGE : String
  WORKER_PORT : ℕ+
  MAIL_WORKER_CONCURRENCY : ℕ+
  BULLBOARD_USER : String
  BULLBOARD_PASSWORD : Option String

/-- `Boolean(s)` of an optional string. -/
def truthy (s : Option String) : Bool := s.any (· ≠ "")

/-- A social provider needs both its id and its secret, or neither. -/
def pairIssue (id secret : Option String) (idKey secretKey label : String) : List Issue :=
  if truthy id ≠ truthy secret then
    [⟨if truthy id then secretKey else idKey,
      some (label ++ " OAuth needs both id and secret, or neither.")⟩]
  else []

/-- What the checks that relate fields read. Of the retry delays this is their number, and of
`RABBITMQ_MAX_RETRIES` the value and its text. -/
structure CrossFields where
  NODE_ENV : NodeEnv
  BULLBOARD_PASSWORD : Option String
  retryDelays : ℕ
  maxRetries : ℤ
  maxRetriesText : String
  GOOGLE_CLIENT_ID : Option String
  GOOGLE_CLIENT_SECRET : Option String
  FACEBOOK_CLIENT_ID : Option String
  FACEBOOK_CLIENT_SECRET : Option String

def EnvFields.cross (env : EnvFields) : CrossFields where
  NODE_ENV := env.NODE_ENV
  BULLBOARD_PASSWORD := env.BULLBOARD_PASSWORD
  retryDelays := env.RABBITMQ_RETRY_DELAYS_MS.length
  maxRetries := env.RABBITMQ_MAX_RETRIES
  maxRetriesText := toString env.RABBITMQ_MAX_RETRIES
  GOOGLE_CLIENT_ID := env.GOOGLE_CLIENT_ID
  GOOGLE_CLIENT_SECRET := env.GOOGLE_CLIENT_SECRET
  FACEBOOK_CLIENT_ID := env.FACEBOOK_CLIENT_ID
  FACEBOOK_CLIENT_SECRET := env.FACEBOOK_CLIENT_SECRET

/-- The `superRefine` of the schema. -/
def superRefine (env : CrossFields) : List Issue :=
  (if env.NODE_ENV = .production ∧ truthy env.BULLBOARD_PASSWORD = false then
    [⟨"BULLBOARD_PASSWORD", some "BULLBOARD_PASSWORD là bắt buộc ở production."⟩] else []) ++
  (if (env.retryDelays : ℤ) < env.maxRetries then
    [⟨"RABBITMQ_RETRY_DELAYS_MS", some ("RABBITMQ_RETRY_DELAYS_MS phải có ít nhất " ++
      "RABBITMQ_MAX_RETRIES (" ++ env.maxRetriesText ++ ") phần tử.")⟩] else []) ++
  pairIssue env.GOOGLE_CLIENT_ID env.GOOGLE_CLIENT_SECRET
    "GOOGLE_CLIENT_ID" "GOOGLE_CLIENT_SECRET" "Google" ++
  pairIssue env.FACEBOOK_CLIENT_ID env.FACEBOOK_CLIENT_SECRET
    "FACEBOOK_CLIENT_ID" "FACEBOOK_CLIENT_SECRET" "Facebook"

/-- An accepted environment. -/
structure Env extends EnvFields where
  refined : superRefine toEnvFields.cross = []

def nodeEnvs : List (String × NodeEnv) :=
  [("development", .development), ("test", .test), ("production", .production)]

def fields (rt : Runtime) (raw : RawEnv) : Parsed EnvFields :=
  EnvFields.mk
  <$> (enumField raw "NODE_ENV" nodeEnvs (some .development))
  <*> (positiveIntField rt raw "PORT" 3000)
  <*> (enumField raw "LOG_LEVEL" [("fatal", some .fatal), ("error", some .error),
      ("warn", some .warn), ("info", some .info), ("debug", some .debug),
      ("trace", some .trace), ("silent", some .silent)] (some none))
  <*> (stringboolField rt raw "LOG_FILE_ENABLED" false)
  <*> (stringboolField rt raw "LOG_ERROR_FILE_ENABLED" false)
  <*> (stringField raw "LOG_DIR" "logs")
  <*> (positiveIntField rt raw "LOG_FILE_MAX_DAYS" 30)
  <*> (fileSizeField raw "LOG_FILE_MAX_SIZE" "50m")
  <*> (urlField rt raw "DATABASE_URL" none)
  <*> (stringField raw "REDIS_HOST" "localhost")
  <*> (positiveIntField rt raw "REDIS_PORT" 6379)
  <*> (optionalStringField raw "REDIS_PASSWORD")
  <*> (naturalField rt raw "REDIS_DB" 0)
  <*> (stringField raw "REDIS_KEY_PREFIX" "app:")
  <*> (positiveIntField rt raw "CACHE_DEFAULT_TTL" 60)
  <*> (urlField rt raw "RABBITMQ_URL" none)
  <*> (stringField raw "RABBITMQ_EXCHANGE" "app")
  <*> (positiveIntField rt raw "RABBITMQ_PREFETCH" 10)
  <*> (naturalField rt raw "RABBITMQ_MAX_RETRIES" 3)
  <*> (retryDelaysField rt raw "RABBITMQ_RETRY_DELAYS_MS" [5000, 30000, 300000])
  <*> (positiveIntField rt raw "RABBITMQ_QUORUM_DELIVERY_LIMIT" 5)
  <*> (positiveIntField rt raw "RABBITMQ_IDEMPOTENCY_TTL" 86400)
  <*> (positiveIntField rt raw "RABBITMQ_OUTBOX_POLL_MS" 1000)
  <*> (positiveIntField rt raw "RABBITMQ_OUTBOX_BATCH" 50)
  <*> (positiveIntField rt raw "RABBITMQ_OUTBOX_MAX_ATTEMPTS" 10)
  <*> (minLengthField raw "BETTER_AUTH_SECRET" 32)
  <*> (urlField rt raw "BETTER_AUTH_URL" (some "http://localhost:3000"))
  <*> (stringboolField rt raw "EMAIL_VERIFICATION_REQUIRED" true)
  <*> (csvField rt raw "ALLOWED_ORIGINS")
  <*> (csvField rt raw "ADMIN_USER_IDS")
  <*> (optionalStringField raw "GOOGLE_CLIENT_ID")
  <*> (optionalStringField raw "GOOGLE_CLIENT_SECRET")
  <*> (optionalStringField raw "FACEBOOK_CLIENT_ID")
  <*> (optionalStringField raw "FACEBOOK_CLIENT_SECRET")
  <*> (stringField raw "FALLBACK_LANGUAGE" "vi")
  <*> (positiveIntField rt raw "WORKER_PORT" 3001)
  <*> (positiveIntField rt raw "MAIL_WORKER_CONCURRENCY" 5)
  <*> (stringField raw "BULLBOARD_USER" "admin")
  <*> (optionalStringField raw "BULLBOARD_PASSWORD")

/-- The values that the checks which relate fields read when no field has aborted the parse: a
check that has failed leaves its value as it is. -/
def crossFields (rt : Runtime) (raw : RawEnv) : CrossFields :=
  let maxRetries := ((raw "RABBITMQ_MAX_RETRIES").bind (integer rt)).getD 3
  { NODE_ENV := ((raw "NODE_ENV").bind fun s => nodeEnvs.lookup s).getD .development
    BULLBOARD_PASSWORD := raw "BULLBOARD_PASSWORD"
    retryDelays := ((raw "RABBITMQ_RETRY_DELAYS_MS").map fun s => (splitComma s).length).getD 3
    maxRetries := maxRetries
    maxRetriesText := if maxRetries.natAbs ≤ maxSafeInteger then toString maxRetries
      else rt.numberText maxRetries
    GOOGLE_CLIENT_ID := raw "GOOGLE_CLIENT_ID"
    GOOGLE_CLIENT_SECRET := raw "GOOGLE_CLIENT_SECRET"
    FACEBOOK_CLIENT_ID := raw "FACEBOOK_CLIENT_ID"
    FACEBOOK_CLIENT_SECRET := raw "FACEBOOK_CLIENT_SECRET" }

/-- `envSchema.safeParse`: the checks that relate fields run unless a field has aborted. -/
def envSchema (rt : Runtime) (raw : RawEnv) : Parsed Env :=
  match fields rt raw with
  | .invalid true issues => .invalid true issues
  | .invalid false issues => .invalid false (issues ++ superRefine (crossFields rt raw))
  | .valid env =>
    if h : superRefine env.cross = [] then .valid ⟨env, h⟩
    else .invalid false (superRefine env.cross)

/-! ## What is accepted -/

/-- A sequence of fields is accepted when each of them is. -/
theorem seq_eq_valid {α β : Type} {f : Parsed (α → β)} {x : Parsed α} {b : β} :
    f <*> x = .valid b ↔ ∃ g a, f = .valid g ∧ x = .valid a ∧ g a = b := by
  constructor
  · intro h
    cases f with
    | valid g =>
      cases x with
      | valid a => exact ⟨g, a, rfl, rfl, Parsed.valid.inj h⟩
      | invalid aborted xs => cases h
    | invalid aborted fs => cases x <;> cases h
  · rintro ⟨g, a, rfl, rfl, rfl⟩
    rfl

/-- The first field of the schema is accepted when the result is. -/
theorem map_eq_valid {α β : Type} {f : α → β} {x : Parsed α} {b : β} :
    f <$> x = .valid b ↔ ∃ a, x = .valid a ∧ f a = b := by
  rw [show f <$> x = Parsed.valid f <*> x from rfl, seq_eq_valid]
  simp

/-- A list that is read item by item keeps its length. -/
theorem length_of_mapM {α β : Type} {f : α → Option β} {xs : List α} :
    ∀ {ys : List β}, xs.mapM f = some ys → ys.length = xs.length := by
  induction xs with
  | nil =>
    intro ys h
    cases h
    rfl
  | cons x xs ih =>
    intro ys h
    simp only [List.mapM_cons, Option.bind_eq_bind, Option.bind_eq_some_iff, Option.pure_def,
      Option.some.injEq] at h
    obtain ⟨y, -, rest, hrest, rfl⟩ := h
    simp [ih hrest]

section Read

variable {rt : Runtime} {raw : RawEnv} {name : String}

/-! A field that is accepted has the value that was read. -/

theorem read_optionalString {value : Option String}
    (h : optionalStringField raw name = .valid value) : raw name = value := Parsed.valid.inj h

/-- An accepted enumeration is the value of the text that was read, or the default. -/
theorem read_enum {α : Type} {values : List (String × α)} {default value : α}
    (h : enumField raw name values (some default) = .valid value) :
    ((raw name).bind fun s => values.lookup s).getD default = value := by
  unfold enumField at h
  cases hraw : raw name with
  | none =>
    rw [hraw] at h
    exact Parsed.valid.inj h
  | some s =>
    simp only [hraw] at h
    cases hlookup : values.lookup s with
    | none =>
      rw [hlookup] at h
      cases h
    | some a =>
      rw [hlookup] at h
      simpa [hlookup] using Parsed.valid.inj h

/-- An accepted natural number is the integer that was read, or the default; it is a safe integer
either way. -/
theorem read_natural {default value : ℕ} (h : naturalField rt raw name default = .valid value)
    (hsafe : default ≤ maxSafeInteger) :
    ((raw name).bind (integer rt)).getD default = (value : ℤ) ∧ value ≤ maxSafeInteger := by
  unfold naturalField intField at h
  cases hraw : raw name with
  | none =>
    rw [hraw] at h
    have hvalue := Parsed.valid.inj h
    exact ⟨congrArg Nat.cast hvalue, hvalue ▸ hsafe⟩
  | some s =>
    simp only [hraw] at h
    cases hinteger : integer rt s with
    | none =>
      rw [hinteger] at h
      cases h
    | some n =>
      simp only [hinteger] at h
      split at h
      · rename_i hissues
        have hnonneg : 0 ≤ n := of_decide_eq_true (checks_of_intIssues hissues List.mem_cons_self)
        have hsafe := safe_of_intIssues hissues
        have hvalue := Parsed.valid.inj h
        simp only [Option.bind_some, hinteger, Option.getD_some]
        omega
      · cases h

/-- There are as many delays as the text has items. -/
theorem read_retryDelays {default value : List ℕ+}
    (h : retryDelaysField rt raw name default = .valid value) :
    ((raw name).map fun s => (splitComma s).length).getD default.length = value.length := by
  unfold retryDelaysField at h
  cases hraw : raw name with
  | none =>
    rw [hraw] at h
    exact congrArg List.length (Parsed.valid.inj h)
  | some s =>
    simp only [hraw] at h
    cases hdelays : (splitComma s).mapM (retryDelay rt) with
    | none =>
      rw [hdelays] at h
      cases h
    | some delays =>
      rw [hdelays] at h
      rw [← Parsed.valid.inj h]
      exact (length_of_mapM hdelays).symm

end Read

/-- Where every field is accepted, its value is the one that was read. -/
theorem crossFields_eq {rt : Runtime} {raw : RawEnv} {env : EnvFields}
    (h : fields rt raw = .valid env) : crossFields rt raw = env.cross := by
  unfold fields at h
  simp only [seq_eq_valid, map_eq_valid] at h
  -- The fields are taken off from the last to the first, and those read here are kept.
  obtain ⟨_, _, h, hpassword, rfl⟩ := h
  iterate 4 obtain ⟨_, _, h, -, rfl⟩ := h
  obtain ⟨_, _, ⟨_, _, ⟨_, _, ⟨_, _, h, hgoogleId, rfl⟩, hgoogleSecret, rfl⟩, hfacebookId, rfl⟩,
    hfacebookSecret, rfl⟩ := h
  iterate 10 obtain ⟨_, _, h, -, rfl⟩ := h
  obtain ⟨_, _, ⟨_, _, h, hmax, rfl⟩, hdelays, rfl⟩ := h
  iterate 17 obtain ⟨_, _, h, -, rfl⟩ := h
  obtain ⟨_, hnodeEnv, rfl⟩ := h
  obtain ⟨hmax, hsafe⟩ := read_natural hmax (by decide)
  rw [Nat.cast_ofNat] at hmax
  simp only [crossFields, EnvFields.cross, read_enum hnodeEnv, read_optionalString hpassword,
    read_optionalString hgoogleId, read_optionalString hgoogleSecret,
    read_optionalString hfacebookId, read_optionalString hfacebookSecret, hmax,
    ← read_retryDelays hdelays, Int.natAbs_natCast, if_pos hsafe]
  rfl

/-- The schema accepts exactly when every field is accepted and the checks that relate fields,
on the values as they were read, find nothing. -/
theorem envSchema_eq_valid {rt : Runtime} {raw : RawEnv} {env : EnvFields} :
    (∃ hrefined, envSchema rt raw = .valid ⟨env, hrefined⟩) ↔
      fields rt raw = .valid env ∧ superRefine (crossFields rt raw) = [] := by
  unfold envSchema
  constructor
  · rintro ⟨hrefined, h⟩
    cases hfields : fields rt raw with
    | invalid aborted issues =>
      rw [hfields] at h
      cases aborted <;> cases h
    | valid env' =>
      simp only [hfields] at h
      split at h
      · cases Parsed.valid.inj h
        exact ⟨rfl, (crossFields_eq hfields).symm ▸ hrefined⟩
      · cases h
  · rintro ⟨hfields, hrefined⟩
    rw [crossFields_eq hfields] at hrefined
    rw [hfields]
    exact ⟨hrefined, dif_pos hrefined⟩

/-- Every attempt below `RABBITMQ_MAX_RETRIES` has its retry tier. -/
theorem Env.retries_le_tiers (env : Env) :
    env.RABBITMQ_MAX_RETRIES ≤ env.RABBITMQ_RETRY_DELAYS_MS.length := by
  have h := env.refined
  simp only [superRefine, List.append_eq_nil_iff] at h
  have htiers := h.1.1.2
  split at htiers
  · cases htiers
  · rename_i hlt
    exact Int.ofNat_le.mp (Int.not_lt.mp hlt)

/-! ## Defaults -/

section Defaults

variable {rt : Runtime} {raw : RawEnv} {name : String} (h : raw name = none)
include h

/-- A missing variable takes its default, whatever the field. -/
theorem stringField_default (d : String) : stringField raw name d = .valid d := by
  simp [stringField, h]

theorem optionalStringField_default : optionalStringField raw name = .valid none := by
  simp [optionalStringField, h]

theorem urlField_default (d : String) : urlField rt raw name (some d) = .valid d := by
  simp [urlField, h]

theorem intField_default {α : Type} {checks : List (ℤ → Bool)} (d : α)
    {make : (n : ℤ) → (∀ check ∈ checks, check n = true) → α} :
    intField rt raw name checks d make = .valid d := by
  simp [intField, h]

theorem positiveIntField_default (d : ℕ+) : positiveIntField rt raw name d = .valid d :=
  intField_default h d

theorem naturalField_default (d : ℕ) : naturalField rt raw name d = .valid d :=
  intField_default h d

theorem enumField_default {α : Type} (values : List (String × α)) (d : α) :
    enumField raw name values (some d) = .valid d := by
  simp [enumField, h]

theorem stringboolField_default (d : Bool) : stringboolField rt raw name d = .valid d := by
  simp [stringboolField, h]

theorem csvField_default : csvField rt raw name = .valid [] := by
  simp [csvField, h]

theorem retryDelaysField_default (d : List ℕ+) : retryDelaysField rt raw name d = .valid d := by
  simp [retryDelaysField, h]

theorem fileSizeField_default (d : String) : fileSizeField raw name d = .valid d := by
  simp [fileSizeField, h]

end Defaults

/-- The environment with every default in place. -/
def defaultEnv (databaseUrl rabbitmqUrl secret : String) : Env where
  NODE_ENV := .development
  PORT := 3000
  LOG_LEVEL := none
  LOG_FILE_ENABLED := false
  LOG_ERROR_FILE_ENABLED := false
  LOG_DIR := "logs"
  LOG_FILE_MAX_DAYS := 30
  LOG_FILE_MAX_SIZE := "50m"
  DATABASE_URL := databaseUrl
  REDIS_HOST := "localhost"
  REDIS_PORT := 6379
  REDIS_PASSWORD := none
  REDIS_DB := 0
  REDIS_KEY_PREFIX := "app:"
  CACHE_DEFAULT_TTL := 60
  RABBITMQ_URL := rabbitmqUrl
  RABBITMQ_EXCHANGE := "app"
  RABBITMQ_PREFETCH := 10
  RABBITMQ_MAX_RETRIES := 3
  RABBITMQ_RETRY_DELAYS_MS := [5000, 30000, 300000]
  RABBITMQ_QUORUM_DELIVERY_LIMIT := 5
  RABBITMQ_IDEMPOTENCY_TTL := 86400
  RABBITMQ_OUTBOX_POLL_MS := 1000
  RABBITMQ_OUTBOX_BATCH := 50
  RABBITMQ_OUTBOX_MAX_ATTEMPTS := 10
  BETTER_AUTH_SECRET := secret
  BETTER_AUTH_URL := "http://localhost:3000"
  EMAIL_VERIFICATION_REQUIRED := true
  ALLOWED_ORIGINS := []
  ADMIN_USER_IDS := []
  GOOGLE_CLIENT_ID := none
  GOOGLE_CLIENT_SECRET := none
  FACEBOOK_CLIENT_ID := none
  FACEBOOK_CLIENT_SECRET := none
  FALLBACK_LANGUAGE := "vi"
  WORKER_PORT := 3001
  MAIL_WORKER_CONCURRENCY := 5
  BULLBOARD_USER := "admin"
  BULLBOARD_PASSWORD := none
  refined := by simp [EnvFields.cross, superRefine, pairIssue]

/-- The three variables without a default are enough: the schema then accepts, and every
other field has its default. -/
theorem envSchema_defaults (rt : Runtime) {raw : RawEnv} {databaseUrl rabbitmqUrl secret : String}
    (hdb : raw "DATABASE_URL" = some databaseUrl) (hdbUrl : rt.isUrl databaseUrl = true)
    (hmq : raw "RABBITMQ_URL" = some rabbitmqUrl) (hmqUrl : rt.isUrl rabbitmqUrl = true)
    (hsecret : raw "BETTER_AUTH_SECRET" = some secret) (hlen : 32 ≤ JsString.length secret)
    (hrest : ∀ name, name ≠ "DATABASE_URL" → name ≠ "RABBITMQ_URL" →
      name ≠ "BETTER_AUTH_SECRET" → raw name = none) :
    envSchema rt raw = .valid (defaultEnv databaseUrl rabbitmqUrl secret) := by
  have hnone : ∀ name, name ≠ "DATABASE_URL" ∧ name ≠ "RABBITMQ_URL" ∧
      name ≠ "BETTER_AUTH_SECRET" → raw name = none :=
    fun name hname => hrest name hname.1 hname.2.1 hname.2.2
  have hdbField : urlField rt raw "DATABASE_URL" none = .valid databaseUrl := by
    simp [urlField, hdb, hdbUrl]
  have hmqField : urlField rt raw "RABBITMQ_URL" none = .valid rabbitmqUrl := by
    simp [urlField, hmq, hmqUrl]
  have hsecretField : minLengthField raw "BETTER_AUTH_SECRET" 32 = .valid secret := by
    simp [minLengthField, hsecret, hlen]
  have hfields : fields rt raw = .valid (defaultEnv databaseUrl rabbitmqUrl secret).toEnvFields := by
    unfold fields
    simp (disch := exact hnone _ (by decide)) only [enumField_default, positiveIntField_default,
      stringboolField_default, stringField_default, fileSizeField_default, urlField_default,
      optionalStringField_default, naturalField_default, retryDelaysField_default,
      csvField_default, hdbField, hmqField, hsecretField, map_valid, valid_seq]
    rfl
  unfold envSchema
  rw [hfields]
  exact dif_pos (defaultEnv databaseUrl rabbitmqUrl secret).refined

end NestFastify.Config
