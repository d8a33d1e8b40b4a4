import NestFastify.Foundation.JavaScript
import NestFastify.Foundation.Pages

/-!
# The response envelope

`ResponseInterceptor` (response.interceptor.ts). It recognises a payload of the shape of
paginated.schema.ts and computes `meta.pagination` from the numbers it finds there.
-/

namespace NestFastify.Common

structure PaginatedPayload where
  items : List Json
  page : ℚ
  limit : ℚ
  total : ℚ

def isPaginated : Json → Option PaginatedPayload
  | .obj fields =>
    match Json.field fields "items", Json.field fields "page", Json.field fields "limit",
      Json.field fields "total" with
    | some (.arr items), some (.num page), some (.num limit), some (.num total) =>
      some ⟨items, page, limit, total⟩
    | _, _, _, _ => none
  | _ => none

structure PaginationMeta where
  page : ℚ
  limit : ℚ
  total : ℚ
  totalPages : ℚ
  hasNext : Bool
  hasPrev : Bool

def buildPagination (page limit total : ℚ) : PaginationMeta :=
  let totalPages : ℚ := if 0 < limit then ⌈total / limit⌉ else 0
  { page := page
    limit := limit
    total := total
    totalPages := totalPages
    hasNext := page < totalPages
    hasPrev := 1 < page }

structure ResponseMeta where
  timestamp : String
  path : String
  requestId : String
  pagination : Option PaginationMeta

/-- The envelope, whose `success` is always `true`; `responseMeta` is its `meta`. -/
structure SuccessResponse where
  data : Json
  responseMeta : ResponseMeta

/-- What goes out: the payload as it is, or in the envelope. -/
inductive Body where
  | payload (v : Json)
  | envelope (response : SuccessResponse)

/-- The parts of a request that end up in the envelope. -/
structure Origin where
  id : Option String
  url : Option String

/-- What the interceptor makes of a handler's outcome; the header is set before the handler runs. -/
structure Intercepted where
  header : Option (String × String)
  outcome : Except JsError Body

def ResponseInterceptor.intercept (type : String) (req : Origin) (timestamp : String)
    (handle : Except JsError Json) : Intercepted :=
  if type ≠ "http" then ⟨none, handle.map .payload⟩
  else
    let requestId := req.id.getD ""
    let path := req.url.getD ""
    { header := if requestId = "" then none else some ("x-request-id", requestId)
      outcome := handle.map fun payload =>
        match isPaginated payload with
        | some p =>
          .envelope ⟨.arr p.items,
            ⟨timestamp, path, requestId, some (buildPagination p.page p.limit p.total)⟩⟩
        | none => .envelope ⟨payload, ⟨timestamp, path, requestId, none⟩⟩ }

section BuildPagination

variable {page limit total : ℕ}

/-- On whole numbers `totalPages` counts the pages that the items take up. -/
theorem buildPagination_totalPages (hlimit : 0 < limit) :
    (buildPagination page limit total).totalPages = Pages.pageCount total limit := by
  have hpos : (0 : ℚ) < limit := Nat.cast_pos.mpr hlimit
  rw [buildPagination, if_pos hpos, Pages.ceil_div_eq_pageCount hlimit, Int.cast_natCast]

theorem buildPagination_hasNext (hlimit : 0 < limit) :
    (buildPagination page limit total).hasNext = true ↔ page < Pages.pageCount total limit := by
  have htotal := @buildPagination_totalPages page limit total hlimit
  have hnext : (buildPagination page limit total).hasNext =
      decide ((page : ℚ) < (buildPagination page limit total).totalPages) := rfl
  rw [hnext, htotal, decide_eq_true_eq, Nat.cast_lt]

theorem buildPagination_hasPrev :
    (buildPagination page limit total).hasPrev = true ↔ 2 ≤ page := by
  have hprev : (buildPagination page limit total).hasPrev = decide ((1 : ℚ) < page) := rfl
  rw [hprev, decide_eq_true_eq, Nat.one_lt_cast]
  exact Iff.rfl

end BuildPagination

end NestFastify.Common
