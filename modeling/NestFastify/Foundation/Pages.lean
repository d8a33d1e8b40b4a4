import Mathlib.Algebra.Order.Floor.Defs
import Mathlib.Algebra.Order.Floor.Semiring
import Mathlib.Data.Rat.Floor
import Mathlib.Data.Set.Card
import Mathlib.Tactic.Positivity

/-!
# Pages of a list

A list cut into pages of `limit` elements, counted from zero. A page past the end is empty, the
last page may be short.
-/

namespace Pages

variable {α : Type} {l : List α} {limit k m n : ℕ}

/-- The elements on page `k`. -/
def page (l : List α) (limit k : ℕ) : List α := (l.drop (k * limit)).take limit

/-- How many pages `n` elements take up. -/
def pageCount (n limit : ℕ) : ℕ := (n + limit - 1) / limit

theorem length_page : (page l limit k).length = min limit (l.length - k * limit) := by
  rw [page, List.length_take, List.length_drop]

theorem page_ne_nil_iff (hlimit : 0 < limit) : page l limit k ≠ [] ↔ k * limit < l.length := by
  rw [← List.length_pos_iff, length_page]
  omega

theorem lt_pageCount_iff (hlimit : 0 < limit) : k < pageCount n limit ↔ k * limit < n := by
  rw [pageCount, Nat.lt_div_iff_mul_lt hlimit]
  omega

/-- Exactly the pages before `pageCount` have elements. -/
theorem page_ne_nil_iff_lt (hlimit : 0 < limit) :
    page l limit k ≠ [] ↔ k < pageCount l.length limit := by
  rw [page_ne_nil_iff hlimit, lt_pageCount_iff hlimit]

/-- Every page with a page after it is full. -/
theorem length_page_of_lt (hlimit : 0 < limit) (h : k + 1 < pageCount l.length limit) :
    (page l limit k).length = limit := by
  have hnext : (k + 1) * limit < l.length := (lt_pageCount_iff hlimit).mp h
  rw [Nat.succ_mul] at hnext
  rw [length_page]
  omega

/-- The first `m` pages, one after the other, are the first `m * limit` elements. -/
theorem flatMap_page (m : ℕ) : (List.range m).flatMap (page l limit) = l.take (m * limit) := by
  induction m with
  | zero => simp
  | succ m ih =>
    rw [List.range_succ, List.flatMap_append, ih, List.flatMap_singleton, Nat.succ_mul,
      List.take_add, page]

theorem flatMap_page_of_le (hlimit : 0 < limit) (hm : pageCount l.length limit ≤ m) :
    (List.range m).flatMap (page l limit) = l := by
  have hend : l.length ≤ m * limit := by
    have h := mt (lt_pageCount_iff (n := l.length) hlimit).mpr (Nat.not_lt.mpr hm)
    omega
  rw [flatMap_page, List.take_of_length_le hend]

theorem pageCount_zero : pageCount 0 limit = 0 := by
  rw [pageCount]
  rcases Nat.eq_zero_or_pos limit with rfl | hlimit
  · rfl
  · exact Nat.div_eq_of_lt (by omega)

/-- The number of pages as it is computed from a quotient. -/
theorem ceil_div_eq_pageCount (hlimit : 0 < limit) : ⌈(n : ℚ) / limit⌉ = pageCount n limit := by
  have hpos : (0 : ℚ) < limit := Nat.cast_pos.mpr hlimit
  have hceil : ⌈(n : ℚ) / limit⌉₊ = pageCount n limit := by
    refine eq_of_forall_lt_iff fun k => ?_
    rw [Nat.lt_ceil, lt_div_iff₀ hpos, lt_pageCount_iff hlimit]
    exact_mod_cast Iff.rfl
  rw [← hceil, Int.natCast_ceil_eq_ceil (by positivity)]

theorem ncard_page_ne_nil (hlimit : 0 < limit) :
    {k | page l limit k ≠ []}.ncard = pageCount l.length limit := by
  have hset : {k | page l limit k ≠ []} = Finset.range (pageCount l.length limit) := by
    ext k
    simp [page_ne_nil_iff_lt hlimit]
  rw [hset, Set.ncard_coe_finset, Finset.card_range]

end Pages
