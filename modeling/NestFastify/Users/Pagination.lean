import NestFastify.Common.ResponseInterceptor
import NestFastify.Config.EnvSchema
import NestFastify.Messaging.Contracts

/-!
# GET /users

The list of users page by page: `listUsersQuerySchema`, `UsersController.findAll`,
`UsersService.findAll` and `PrismaUserRepository`, the schema that serializes the result, and the
interceptor around it. The service computes an offset and the interceptor a number of pages; the two
meet only in the response.
-/

namespace NestFastify.Users

open Common (Origin Intercepted ResponseInterceptor.intercept SuccessResponse)
open Config (Parsed RawEnv Runtime)

/-! ## The query -/

/-- The page size, `.int().positive().max(100)`. -/
abbrev Limit : Type := {n : ℕ+ // n ≤ 100}

structure ListUsersQuery where
  page : ℕ+
  limit : Limit

/-- `.max(100)`. -/
def atMostHundred (n : ℤ) : Bool := decide (n ≤ 100)

/-- `z.coerce.number().int().positive().max(100).default(20)`. -/
def limitField (rt : Runtime) (raw : RawEnv) : Parsed Limit :=
  Config.intField rt raw "limit" [Config.positive, atMostHundred] ⟨20, by decide⟩ fun n h =>
    ⟨Config.toPNat n (h _ List.mem_cons_self), Config.toPNat_le (m := 100) _
      (of_decide_eq_true (h atMostHundred (List.mem_cons_of_mem _ List.mem_cons_self)))⟩

def listUsersQuerySchema (rt : Runtime) (raw : RawEnv) : Parsed ListUsersQuery :=
  ListUsersQuery.mk <$> Config.positiveIntField rt raw "page" 1 <*> limitField rt raw

section Schema

variable {rt : Runtime} {raw : RawEnv} {n : ℕ+} {name s : String} {default : ℕ+}

theorem positive_natCast (n : ℕ+) : Config.positive (n : ℕ) = true :=
  decide_eq_true (Int.natCast_pos.mpr n.pos)

/-- A safe positive number is accepted. -/
theorem positiveIntField_number (hraw : raw name = some s) (hnumber : rt.number s = some (n : ℚ))
    (hsafe : n ≤ Config.maxSafeInteger) :
    Config.positiveIntField rt raw name default = .valid n := by
  have hchecks : ∀ check ∈ [Config.positive], check (n : ℕ) = true := fun check hcheck =>
    List.mem_singleton.mp hcheck ▸ positive_natCast n
  exact Config.intField_number hraw hnumber hsafe hchecks

/-- Every page and limit that a client can write down is accepted. -/
theorem listUsersQuerySchema_number {page : ℕ+} {limit : Limit} {pageText limitText : String}
    (hpage : raw "page" = some pageText) (hpageNumber : rt.number pageText = some (page : ℚ))
    (hsafe : page ≤ Config.maxSafeInteger) (hlimit : raw "limit" = some limitText)
    (hlimitNumber : rt.number limitText = some (limit.val : ℚ)) :
    listUsersQuerySchema rt raw = .valid ⟨page, limit⟩ := by
  have hmax : (limit.val : ℕ) ≤ Config.maxSafeInteger :=
    Nat.le_trans limit.property (by decide)
  have hchecks : ∀ check ∈ [Config.positive, atMostHundred], check (limit.val : ℕ) = true := by
    intro check hcheck
    rcases List.mem_cons.mp hcheck with rfl | hcheck
    · exact positive_natCast limit.val
    · rw [List.mem_singleton.mp hcheck]
      exact decide_eq_true (Int.ofNat_le.mpr limit.property)
  have hfield : limitField rt raw = .valid limit :=
    Config.intField_number hlimit hlimitNumber hmax hchecks
  rw [listUsersQuerySchema, positiveIntField_number hpage hpageNumber hsafe, hfield]
  rfl

end Schema

/-! ## The table and the services -/

/-- The columns of a user that a response shows; a date is its instant. -/
structure User where
  id : String
  name : String
  email : String
  createdAt : ℤ
  updatedAt : ℤ

/-- The table `user` in the order in which `findMany` enumerates it. Any text can be an address
there. -/
structure UserTable where
  rows : List User
  primaryKey : (rows.map User.id).Nodup

structure FindUsersParams where
  skip : Option ℕ
  take : Option ℕ

/-- `findMany({ skip, take })`. -/
def PrismaUserRepository.findAll (rows : List User) (params : FindUsersParams) : List User :=
  let rest := rows.drop (params.skip.getD 0)
  match params.take with
  | some n => rest.take n
  | none => rest

def PrismaUserRepository.count (rows : List User) : ℕ := rows.length

def UsersService.findAll (rows : List User) (page limit : ℕ+) : List User × ℕ :=
  (PrismaUserRepository.findAll rows ⟨some ((page - 1) * limit), some limit⟩,
    PrismaUserRepository.count rows)

structure PaginatedUsers where
  items : List User
  total : ℕ
  page : ℕ
  limit : ℕ

def UsersController.findAll (rows : List User) (query : ListUsersQuery) : PaginatedUsers :=
  let (items, total) := UsersService.findAll rows query.page query.limit
  { items := items, total := total, page := query.page, limit := query.limit.val }

/-! ## The response -/

/-- Zod, and how a date is written. -/
structure Api where
  z : Messaging.Zod
  toISOString : ℤ → String

def Api.userJson (api : Api) (user : User) : Json :=
  .obj [("id", .str user.id), ("email", .str user.email), ("name", .str user.name),
    ("createdAt", .str (api.toISOString user.createdAt)),
    ("updatedAt", .str (api.toISOString user.updatedAt))]

/-- `none` when the schema refuses the address. -/
def Api.userResponseSchema (api : Api) (user : User) : Option Json :=
  if api.z.email user.email then some (api.userJson user) else none

/-- `paginatedSchema(userResponseSchema)`. -/
def Api.paginatedUsersResponseSchema (api : Api) (payload : PaginatedUsers) : Option Json :=
  (payload.items.mapM api.userResponseSchema).map fun items =>
    .obj [("items", .arr items), ("page", .num payload.page), ("limit", .num payload.limit),
      ("total", .num payload.total)]

def serializationFailed : JsError := .error "Internal Server Error"

/-- The serializer runs before the interceptor puts the envelope around its result. -/
def Api.getUsers (api : Api) (table : UserTable) (req : Origin) (timestamp : String)
    (query : ListUsersQuery) : Intercepted :=
  ResponseInterceptor.intercept "http" req timestamp <|
    match api.paginatedUsersResponseSchema (UsersController.findAll table.rows query) with
    | some payload => .ok payload
    | none => .error serializationFailed

/-! ## One page -/

section OnePage

variable {api : Api} {rows : List User} {page limit : ℕ+}

/-- The users on a page, as they are sent. -/
def Api.data (api : Api) (rows : List User) (limit page : ℕ+) : List Json :=
  (Pages.page rows limit page.natPred).map api.userJson

/-- `findAll` returns the page and the number of all rows. -/
theorem UsersService.findAll_eq (rows : List User) (page limit : ℕ+) :
    UsersService.findAll rows page limit =
      (Pages.page rows limit page.natPred, rows.length) := rfl

/-- A list of users with checked addresses is serialized as it is. -/
theorem Api.mapM_userResponseSchema {users : List User}
    (h : ∀ user ∈ users, api.z.email user.email = true) :
    users.mapM api.userResponseSchema = some (users.map api.userJson) := by
  induction users with
  | nil => rfl
  | cons user users ih =>
    have huser : api.userResponseSchema user = some (api.userJson user) :=
      if_pos (h user List.mem_cons_self)
    have husers := ih fun user' hmem => h user' (List.mem_cons_of_mem user hmem)
    rw [List.mapM_cons, huser, husers]
    rfl

/-- Where every address passes, the serializer keeps the page as it is. -/
theorem Api.paginatedUsersResponseSchema_eq
    (haddresses : ∀ user ∈ rows, api.z.email user.email = true) (query : ListUsersQuery) :
    api.paginatedUsersResponseSchema (UsersController.findAll rows query) =
      some (.obj [("items", .arr (api.data rows query.limit.val query.page)),
        ("page", .num query.page), ("limit", .num query.limit.val),
        ("total", .num rows.length)]) := by
  have hpage : ∀ user ∈ Pages.page rows query.limit.val query.page.natPred,
      api.z.email user.email = true := by
    intro user hmem
    exact haddresses user (List.mem_of_mem_drop (List.mem_of_mem_take hmem))
  rw [Api.paginatedUsersResponseSchema, UsersController.findAll, UsersService.findAll_eq]
  show ((Pages.page rows query.limit.val query.page.natPred).mapM
    api.userResponseSchema).map _ = _
  rw [Api.mapM_userResponseSchema hpage]
  rfl

end OnePage

/-! ## All pages -/

/-- The numbers beside a page. -/
def pagination (rows : List User) (limit page : ℕ+) : Common.PaginationMeta :=
  Common.buildPagination page limit rows.length

def totalPages (rows : List User) (limit : ℕ+) : ℕ := Pages.pageCount rows.length limit

/-- What a client that turns the pages of a table sees. -/
structure Paginated (api : Api) (table : UserTable) (limit : Limit) (data : ℕ+ → List Json)
    (pagination : ℕ+ → Common.PaginationMeta) (totalPages : ℕ) : Prop where
  answered : ∀ page req timestamp,
    (api.getUsers table req timestamp ⟨page, limit⟩).outcome = .ok (.envelope
      ⟨.arr (data page),
        ⟨timestamp, req.url.getD "", req.id.getD "", some (pagination page)⟩⟩)
  /-- Pages `1` to `totalPages` in order are the table. -/
  complete : (List.range totalPages).flatMap (fun k => data k.succPNat) =
    table.rows.map api.userJson
  once : ((List.range totalPages).flatMap fun k => data k.succPNat).Nodup
  full : ∀ page : ℕ+, page < totalPages → (data page).length = limit.val
  beyond : ∀ page : ℕ+, totalPages < page → data page = []
  hasNext : ∀ page, (pagination page).hasNext = true ↔ data (page + 1) ≠ []
  hasPrev : ∀ page, (pagination page).hasPrev = true ↔ 2 ≤ page
  totalPages_eq : ∀ page, (pagination page).totalPages = totalPages
  counted : {page | data page ≠ []}.ncard = totalPages
  empty : table.rows = [] → totalPages = 0

section AllPages

variable {api : Api} {rows : List User} {limit page : ℕ+}

/-- The data of a page are its rows. -/
theorem Api.data_succPNat (k : ℕ) :
    api.data rows limit k.succPNat = (Pages.page rows limit k).map api.userJson := by
  rw [Api.data, Nat.natPred_succPNat]

/-- The pages with data are those up to the last one. -/
theorem Api.data_ne_nil_iff :
    api.data rows limit page ≠ [] ↔ (page : ℕ) ≤ totalPages rows limit := by
  rw [Api.data, Ne, List.map_eq_nil_iff, ← Ne, Pages.page_ne_nil_iff_lt limit.pos]
  have hpred := PNat.natPred_add_one page
  rw [totalPages]
  omega

/-- The pages together have every row once, in order. -/
theorem Api.complete_data : (List.range (totalPages rows limit)).flatMap
    (fun k => api.data rows limit k.succPNat) = rows.map api.userJson := by
  have hpages : (fun k => api.data rows limit k.succPNat) =
      fun k => (Pages.page rows limit k).map api.userJson := by
    ext1 k
    exact Api.data_succPNat k
  have hall : (List.range (totalPages rows limit)).flatMap (Pages.page rows limit) = rows :=
    Pages.flatMap_page_of_le limit.pos (Nat.le_refl _)
  rw [hpages, ← List.map_flatMap, hall]

/-- Different rows are different data. -/
theorem Api.nodup_userJson (table : UserTable) : (table.rows.map api.userJson).Nodup := by
  refine List.Nodup.map_on ?_ (List.Nodup.of_map User.id table.primaryKey)
  intro user hmem user' hmem' heq
  -- the primary key can be read off the JSON value
  have hid : user.id = user'.id := by
    simp only [Api.userJson, Json.obj.injEq, List.cons.injEq, Prod.mk.injEq, Json.str.injEq] at heq
    exact heq.1.2
  exact List.inj_on_of_nodup_map table.primaryKey hmem hmem' hid

/-- Every page before the last one is full. -/
theorem Api.length_data (h : (page : ℕ) < totalPages rows limit) :
    (api.data rows limit page).length = limit := by
  have hpred := PNat.natPred_add_one page
  rw [Api.data, List.length_map]
  apply Pages.length_page_of_lt limit.pos
  rw [totalPages] at h
  omega

/-- There are as many pages with data as `meta.pagination` says. -/
theorem Api.ncard_data_ne_nil :
    {page | api.data rows limit page ≠ []}.ncard = totalPages rows limit := by
  have himage : {page | api.data rows limit page ≠ []} =
      Nat.succPNat '' {k | Pages.page rows limit k ≠ []} := by
    ext page
    constructor
    · intro h
      refine ⟨page.natPred, ?_, PNat.succPNat_natPred page⟩
      exact fun hnil => h (by rw [Api.data, hnil, List.map_nil])
    · rintro ⟨k, hk, rfl⟩
      show api.data rows limit k.succPNat ≠ []
      rw [Api.data_succPNat]
      exact fun hnil => hk (List.map_eq_nil_iff.mp hnil)
  rw [himage, Set.ncard_image_of_injective _ Nat.succPNat_injective,
    Pages.ncard_page_ne_nil limit.pos, totalPages]

end AllPages

/-- A table all of whose addresses the schema accepts is paginated: its pages in order are the
table, each user once, and the numbers beside a page tell the truth about the others. -/
theorem Api.getUsers_paginated (api : Api) (table : UserTable) (limit : Limit)
    (haddresses : ∀ user ∈ table.rows, api.z.email user.email = true) :
    Paginated api table limit (api.data table.rows limit.val)
      (pagination table.rows limit.val) (totalPages table.rows limit.val) where
  answered page req timestamp := by
    rw [Api.getUsers, Api.paginatedUsersResponseSchema_eq haddresses]
    rfl
  complete := Api.complete_data
  once := by
    rw [Api.complete_data]
    exact Api.nodup_userJson table
  full page h := Api.length_data h
  beyond page h := by
    by_contra hne
    have hle := Api.data_ne_nil_iff.mp hne
    omega
  hasNext page := by
    rw [pagination, Common.buildPagination_hasNext limit.val.pos, Api.data_ne_nil_iff,
      PNat.add_coe, PNat.one_coe]
    exact Nat.succ_le_iff.symm
  hasPrev page := by
    rw [pagination, Common.buildPagination_hasPrev]
    exact PNat.coe_le_coe 2 page
  totalPages_eq page := Common.buildPagination_totalPages limit.val.pos
  counted := Api.ncard_data_ne_nil
  empty h := by
    rw [h]
    exact Pages.pageCount_zero

section Tables

/-- An API that accepts an address with something around its one `@`. -/
def sampleApi : Api where
  z := {
    uuid := fun _ => true
    email := fun s =>
      match s.toList.splitOn '@' with
      | [localPart, domain] => !localPart.isEmpty && !domain.isEmpty
      | _ => false
    errorText := fun _ => "Invalid" }
  toISOString _ := "2026-06-05T00:00:00.000Z"

def userNamed (id email : String) : User := ⟨id, id, email, 0, 0⟩

def threeUsers : UserTable where
  rows := [userNamed "u1" "u1@example.com", userNamed "u2" "u2@example.com",
    userNamed "u3" "u3@example.com"]
  primaryKey := by decide

/-- Two on a page, three users take two pages. -/
theorem Api.getUsers_paginated_threeUsers :
    Paginated sampleApi threeUsers ⟨2, by decide⟩ (sampleApi.data threeUsers.rows 2)
      (pagination threeUsers.rows 2) 2 := by
  have h := Api.getUsers_paginated sampleApi threeUsers ⟨2, by decide⟩ (by decide)
  have htotal : totalPages threeUsers.rows 2 = 2 := by decide
  rw [htotal] at h
  exact h

/-- A user that has been put into the table without an address, by a seed or by hand. -/
def withoutAddress : UserTable where
  rows := [userNamed "u1" "u1@example.com", userNamed "u2" ""]
  primaryKey := by decide

/-- One address that the schema refuses, and the page of its user is an error. -/
theorem Api.not_paginated_withoutAddress : ¬ ∀ (api : Api) (table : UserTable) (limit : Limit),
    ∃ data pagination totalPages, Paginated api table limit data pagination totalPages := by
  intro hall
  obtain ⟨data, pagination, totalPages, h⟩ := hall sampleApi withoutAddress ⟨2, by decide⟩
  have hanswered := h.answered 1 ⟨none, none⟩ ""
  have hfailed : (sampleApi.getUsers withoutAddress ⟨none, none⟩ "" ⟨1, 2, by decide⟩).outcome =
      .error serializationFailed := rfl
  rw [hfailed] at hanswered
  cases hanswered

end Tables

end NestFastify.Users
