import NestFastify.Foundation.JsString
import Mathlib.Tactic.ByContra

/-!
# Basic auth in front of Bull Board

`verifyBasicAuth` and `createBullBoardAuthHook` (basic-auth.ts), with the prefix that
main.worker.ts hooks and worker.module.ts registers. What `Buffer` makes of base64 and the path
that the router matches are parameters: the hook reads the request target as it is, the router
strips, cuts and decodes it first.
-/

namespace NestFastify.Auth

open JsString

/-- `Buffer.from(s, 'base64').toString('utf8')`. -/
abbrev Decode : Type := String → String

/-- The path that the router matches for a request target; `none` for a bad one. -/
abbrev RouterPath : Type := String → Option String

/-! ## basic-auth.ts -/

def verifyBasicAuth (decode : Decode) (header : Option String)
    (expectedUser expectedPass : String) : Bool :=
  match header with
  | none => false
  | some header =>
    if startsWith header "Basic " = false then false
    else
      let decoded := decode (sliceFrom header "Basic ".length)
      -- the first colon ends the user name; a password may hold more of them
      match indexOf decoded ':' with
      | none => false
      | some sep => sliceTo decoded sep = expectedUser && sliceFrom decoded (sep + 1) = expectedPass

/-- The hook calls `done`, or answers the request itself. -/
inductive HookResult where
  | done
  | send (header value : String) (code : ℕ)
deriving DecidableEq

/-- The part of a request that the hook reads; `url` is the raw request target. -/
structure Request where
  url : String
  authorization : Option String

def createBullBoardAuthHook (decode : Decode) (routePrefix user pass : String) (req : Request) :
    HookResult :=
  -- the hook runs for every request of the worker
  if startsWith req.url routePrefix = false then .done
  else if verifyBasicAuth decode req.authorization user pass then .done
  else .send "WWW-Authenticate" "Basic realm=\"Bull Board\"" 401

/-- The prefix in main.worker.ts, and the route in worker.module.ts. -/
def route : String := "/admin/queues"

/-! ## A router and a decoder -/

def hexValue (c : Char) : Option ℕ :=
  if '0' ≤ c ∧ c ≤ '9' then some (c.toNat - '0'.toNat)
  else if 'a' ≤ c ∧ c ≤ 'f' then some (c.toNat - 'a'.toNat + 10)
  else if 'A' ≤ c ∧ c ≤ 'F' then some (c.toNat - 'A'.toNat + 10)
  else none

/-- The characters whose escapes stay as they are. -/
def reserved : List Char := ['#', '$', '%', '&', '+', ',', '/', ':', ';', '=', '?', '@']

/-- Escapes of ASCII characters; any other target with escapes counts as a bad one. -/
def decodeEscapes : List Char → Option (List Char)
  | [] => some []
  | '%' :: a :: b :: rest =>
    match hexValue a, hexValue b, decodeEscapes rest with
    | some hi, some lo, some rest =>
      let c := Char.ofNat (16 * hi + lo)
      if 128 ≤ 16 * hi + lo then none
      else if c ∈ reserved then some ('%' :: a :: b :: rest) else some (c :: rest)
    | _, _, _ => none
  | c :: rest => if c = '%' then none else (decodeEscapes rest).map (c :: ·)

/-- An absolute-form target loses its scheme and host. -/
def stripOrigin (url : String) : List Char :=
  if startsWith url "http://" then (url.toList.drop 7).dropWhile (· ≠ '/')
  else if startsWith url "https://" then (url.toList.drop 8).dropWhile (· ≠ '/')
  else url.toList

/-- Strip the origin, cut the query and decode the rest. -/
def findMyWay : RouterPath := fun url =>
  (decodeEscapes ((stripOrigin url).takeWhile fun c => decide (c ≠ '?' ∧ c ≠ '#'))).map String.ofList

def base64Value (c : Char) : Option ℕ :=
  if 'A' ≤ c ∧ c ≤ 'Z' then some (c.toNat - 'A'.toNat)
  else if 'a' ≤ c ∧ c ≤ 'z' then some (c.toNat - 'a'.toNat + 26)
  else if '0' ≤ c ∧ c ≤ '9' then some (c.toNat - '0'.toNat + 52)
  else if c = '+' ∨ c = '-' then some 62
  else if c = '/' ∨ c = '_' then some 63
  else none

def base64Bytes : List ℕ → List ℕ
  | a :: b :: c :: d :: rest =>
    [4 * a + b / 16, 16 * (b % 16) + c / 4, 64 * (c % 4) + d] ++ base64Bytes rest
  | [a, b, c] => [4 * a + b / 16, 16 * (b % 16) + c / 4]
  | [a, b] => [4 * a + b / 16]
  | _ => []

/-- Base64 of ASCII text, up to the padding. -/
def decodeBase64 : Decode := fun s =>
  String.ofList ((base64Bytes ((s.toList.takeWhile (· ≠ '=')).filterMap base64Value)).map Char.ofNat)

/-! ## Who gets through -/

/-- The header is `Basic ` and base64 of `user:pass`. -/
def Authorized (decode : Decode) (user pass : String) (header : Option String) : Prop :=
  ∃ base64, header = some ("Basic " ++ base64) ∧ decode base64 = user ++ ":" ++ pass

/-- The router dispatches the target to a route under the prefix. -/
def Dispatched (path : RouterPath) (routePrefix url : String) : Prop :=
  ∃ p, path url = some p ∧ (p = routePrefix ∨ startsWith p (routePrefix ++ "/") = true)

theorem verifyBasicAuth_iff {decode : Decode} {header : Option String} {user pass : String}
    (huser : ':' ∉ user.toList) :
    verifyBasicAuth decode header user pass = true ↔ Authorized decode user pass header := by
  match header with
  | none =>
    constructor
    · exact nofun
    · intro h
      obtain ⟨base64, hheader, -⟩ := h
      exact nomatch hheader
  | some header =>
    by_cases hbasic : startsWith header "Basic " = true
    · obtain ⟨base64, rfl⟩ := startsWith_iff.mp hbasic
      -- the decoded text is cut at its first colon
      have hcut : verifyBasicAuth decode (some ("Basic " ++ base64)) user pass = true ↔
          ∃ i, indexOf (decode base64) ':' = some i ∧ sliceTo (decode base64) i = user ∧
            sliceFrom (decode base64) (i + 1) = pass := by
        simp only [verifyBasicAuth, hbasic, Bool.true_eq_false, if_false, sliceFrom_append]
        match indexOf (decode base64) ':' with
        | none => simp
        | some sep => simp
      rw [hcut, cut_iff huser]
      constructor
      · intro h
        exact ⟨base64, rfl, h⟩
      · intro h
        obtain ⟨base64', hheader, hdecode⟩ := h
        rw [(String.append_right_inj "Basic ").mp (Option.some.inj hheader)]
        exact hdecode
    · constructor
      · intro h
        simp [verifyBasicAuth, hbasic] at h
      · intro h
        obtain ⟨base64, hheader, -⟩ := h
        rw [Option.some.inj hheader] at hbasic
        exact absurd (startsWith_append _ _) hbasic

/-- On targets that literally start with the prefix, exactly the authorized get through. -/
theorem hook_eq_done_iff {decode : Decode} {user pass routePrefix : String} {req : Request}
    (huser : ':' ∉ user.toList) :
    createBullBoardAuthHook decode routePrefix user pass req = .done ↔
      startsWith req.url routePrefix = false ∨ Authorized decode user pass req.authorization := by
  rw [← verifyBasicAuth_iff huser]
  unfold createBullBoardAuthHook
  by_cases hstarts : startsWith req.url routePrefix = false
  · simp [hstarts]
  · by_cases hverify : verifyBasicAuth decode req.authorization user pass = true
    · simp [hverify]
    · simp [hstarts, hverify]

/-- Exactly the authorized get through to a target of Bull Board, whatever the header, if and
only if the raw target starts with the prefix or is not dispatched to Bull Board at all. -/
theorem protected_iff (decode : Decode) (path : RouterPath) {user : String} (pass url : String)
    (huser : ':' ∉ user.toList) :
    (∀ header, Dispatched path route url →
      (createBullBoardAuthHook decode route user pass ⟨url, header⟩ = .done ↔
        Authorized decode user pass header)) ↔
    (Dispatched path route url → startsWith url route = true) := by
  constructor
  · intro h hdispatched
    -- a request without the header is not let through
    by_contra hstarts
    have hdone : createBullBoardAuthHook decode route user pass ⟨url, none⟩ = .done :=
      (hook_eq_done_iff huser).mpr (Or.inl (eq_false_of_ne_true hstarts))
    obtain ⟨base64, hheader, -⟩ := (h none hdispatched).mp hdone
    exact nomatch hheader
  · intro h header hdispatched
    rw [hook_eq_done_iff huser]
    simp [h hdispatched]

theorem protected_iff_queue : Authorized decodeBase64 "admin" "pw" (some "Basic YWRtaW46cHc=") ∧
    ∀ header, Dispatched findMyWay route "/admin/queues/queue/mail?page=2" →
      (createBullBoardAuthHook decodeBase64 route "admin" "pw"
        ⟨"/admin/queues/queue/mail?page=2", header⟩ = .done ↔
          Authorized decodeBase64 "admin" "pw" header) :=
  ⟨⟨"YWRtaW46cHc=", by decide, by decide +kernel⟩,
    (protected_iff decodeBase64 findMyWay "pw" "/admin/queues/queue/mail?page=2" (by decide)).mpr
      fun _ => by decide⟩

/-- The router decodes the escaped letter, the hook does not. -/
theorem not_protected : ¬ ∀ url header, Dispatched findMyWay route url →
    (createBullBoardAuthHook decodeBase64 route "admin" "pw" ⟨url, header⟩ = .done ↔
      Authorized decodeBase64 "admin" "pw" header) := by
  intro h
  have hdispatched : Dispatched findMyWay route "/%61dmin/queues" :=
    ⟨"/admin/queues", by decide +kernel, Or.inl rfl⟩
  obtain ⟨base64, hheader, -⟩ := (h "/%61dmin/queues" none hdispatched).mp (by decide)
  exact nomatch hheader

/-! ## Targets without escapes -/

theorem decodeEscapes_plain {cs : List Char} (h : '%' ∉ cs) : decodeEscapes cs = some cs := by
  induction cs with
  | nil => rfl
  | cons c cs ih =>
    have hc : c ≠ '%' := fun heq => h (heq ▸ List.mem_cons_self)
    have hrest := ih fun hmem => h (List.mem_cons_of_mem _ hmem)
    unfold decodeEscapes
    split
    · rename_i heq
      exact absurd heq (List.cons_ne_nil _ _)
    · rename_i heq
      exact absurd (List.cons.inj heq).1 hc
    · rename_i heq
      obtain ⟨rfl, rfl⟩ := List.cons.inj heq
      rw [if_neg hc, hrest]
      rfl

/-- A target in origin form without escapes that reaches Bull Board starts with the prefix. -/
theorem startsWith_of_dispatched {url : String} (hslash : url.toList.head? = some '/')
    (hplain : '%' ∉ url.toList) (h : Dispatched findMyWay route url) :
    startsWith url route = true := by
  obtain ⟨p, hpath, hp⟩ := h
  -- neither the origin nor an escape is there to be taken away
  have hstrip : stripOrigin url = url.toList := by
    unfold stripOrigin
    have hnot : ∀ scheme : String, scheme.toList.head? = some 'h' →
        startsWith url scheme = false := by
      intro scheme hscheme
      by_contra hstart
      obtain ⟨rest, rfl⟩ := startsWith_iff.mp (by simpa using hstart)
      rw [String.toList_append, List.head?_append, hscheme] at hslash
      exact absurd (Option.some.inj hslash) (by decide)
    rw [hnot _ (by decide), hnot _ (by decide)]
    rfl
  have hcut := List.takeWhile_prefix (l := url.toList) fun c => decide (c ≠ '?' ∧ c ≠ '#')
  have hdecoded := decodeEscapes_plain fun hmem => hplain (hcut.subset hmem)
  rw [findMyWay, hstrip, hdecoded] at hpath
  obtain rfl := Option.some.inj hpath
  have hroute : startsWith (String.ofList (url.toList.takeWhile fun c =>
      decide (c ≠ '?' ∧ c ≠ '#'))) route = true := by
    rcases hp with hp | hp
    · rw [hp]
      decide
    · obtain ⟨rest, hrest⟩ := startsWith_iff.mp hp
      rw [hrest, String.append_assoc]
      exact startsWith_append _ _
  rw [startsWith, List.isPrefixOf_iff_prefix, String.toList_ofList] at hroute
  rw [startsWith, List.isPrefixOf_iff_prefix]
  exact hroute.trans hcut

end NestFastify.Auth
