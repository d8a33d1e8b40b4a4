import Mathlib.Data.Int.Order.Basic
import Mathlib.Data.List.Nodup
import Mathlib.Data.List.Sort
import Mathlib.Order.Bounds.Basic

/-!
# Sorted sets

A set of members, each with an integer score, in the order of the scores: the value behind
`ZADD`, `ZCARD`, `ZRANGE` and `ZREMRANGEBYSCORE`. Members with the same score stand in no
particular order, since only scores are read.
-/

structure SortedSet.Scored (M : Type) where
  score : ℤ
  member : M
deriving DecidableEq

/-- The entries are sorted by score, and each member is there once. -/
@[ext]
structure SortedSet (M : Type) where
  entries : List (SortedSet.Scored M)
  sorted : entries.Pairwise fun x y => x.score ≤ y.score
  unique : (entries.map SortedSet.Scored.member).Nodup

namespace SortedSet

variable {M : Type}

def empty : SortedSet M := ⟨[], List.Pairwise.nil, List.nodup_nil⟩

/-- `ZCARD`. -/
def card (z : SortedSet M) : ℕ := z.entries.length

def scores (z : SortedSet M) : List ℤ := z.entries.map Scored.score

/-- The score of the first entry. -/
def first (z : SortedSet M) : Option ℤ := z.entries.head?.map Scored.score

/-- The entries that stay when those with a score that passes `p` are removed. -/
def remove (z : SortedSet M) (p : ℤ → Bool) : SortedSet M where
  entries := z.entries.filter fun x => !p x.score
  sorted := z.sorted.filter _
  unique := z.unique.sublist (List.filter_sublist.map _)

/-- The order in which entries are inserted. -/
def byScore (x y : Scored M) : Prop := x.score ≤ y.score

instance : DecidableRel (@byScore M) := fun x y => inferInstanceAs (Decidable (x.score ≤ y.score))

instance : Std.Total (@byScore M) := ⟨fun x y => le_total x.score y.score⟩

instance : IsTrans (Scored M) byScore := ⟨fun _ _ _ h h' => Int.le_trans h h'⟩

section Add

variable [DecidableEq M] (z : SortedSet M) (score : ℤ) (member : M)

/-- The entries of the other members. -/
def others : List (Scored M) := z.entries.filter fun x => decide (x.member ≠ member)

/-- `ZADD`: a member that is there already gets the new score. -/
def add : SortedSet M where
  entries := (z.others member).orderedInsert byScore ⟨score, member⟩
  sorted := (z.sorted.filter _).orderedInsert _ _
  unique := by
    have hperm := (List.perm_orderedInsert byScore ⟨score, member⟩ (z.others member)).map
      Scored.member
    apply hperm.nodup_iff.mpr
    rw [List.map_cons, List.nodup_cons]
    refine ⟨fun hmem => ?_, z.unique.sublist (List.filter_sublist.map _)⟩
    obtain ⟨x, hx, hmember⟩ := List.mem_map.mp hmem
    exact of_decide_eq_true (List.mem_filter.mp hx).2 hmember

end Add

/-! ## What the operations do -/

/-- What is removed are the members whose score meets the condition. -/
theorem mem_remove {z : SortedSet M} {p : ℤ → Bool} {x : Scored M} :
    x ∈ (z.remove p).entries ↔ x ∈ z.entries ∧ p x.score = false := by
  simp [remove]

theorem remove_empty (p : ℤ → Bool) : (empty : SortedSet M).remove p = empty :=
  SortedSet.ext rfl

/-- A set without members is empty. -/
theorem eq_empty_of_card {z : SortedSet M} (h : z.card = 0) : z = empty :=
  SortedSet.ext (List.length_eq_zero_iff.mp h)

/-- Every member has a score. -/
theorem length_scores (z : SortedSet M) : z.scores.length = z.card := by
  rw [scores, card, List.length_map]

/-- A removal that takes nothing away leaves the set as it is. -/
theorem remove_of_card_le {z : SortedSet M} {p : ℤ → Bool} (h : z.card ≤ (z.remove p).card) :
    z.remove p = z :=
  SortedSet.ext (List.filter_sublist.eq_of_length (le_antisymm (List.length_filter_le _ _) h))

/-- The scores that are left. -/
theorem scores_remove (z : SortedSet M) (p : ℤ → Bool) :
    (z.remove p).scores = z.scores.filter fun score => !p score := by
  rw [scores, scores, List.filter_map]
  rfl

/-- Only the empty set has no first member. -/
theorem first_eq_none {z : SortedSet M} : z.first = none ↔ z.entries = [] := by
  simp [first]

/-- The first score is the least one. -/
theorem isLeast_first {z : SortedSet M} {m : ℤ} (h : z.first = some m) :
    IsLeast {a | a ∈ z.scores} m := by
  suffices hleast : (∃ x ∈ z.entries, x.score = m) ∧ ∀ x ∈ z.entries, m ≤ x.score by
    refine ⟨List.mem_map.mpr hleast.1, fun a ha => ?_⟩
    obtain ⟨x, hx, rfl⟩ := List.mem_map.mp ha
    exact hleast.2 x hx
  have hsorted := z.sorted
  unfold first at h
  match hentries : z.entries with
  | [] =>
    rw [hentries] at h
    exact nomatch h
  | x :: rest =>
    rw [hentries] at h hsorted
    obtain rfl : x.score = m := Option.some.inj h
    refine ⟨⟨x, List.mem_cons_self, rfl⟩, fun y hy => ?_⟩
    rcases List.mem_cons.mp hy with rfl | hy
    · exact le_rfl
    · exact (List.pairwise_cons.mp hsorted).1 y hy

/-- The first member has the least score. -/
theorem isLeast_getD {z : SortedSet M} {a : ℤ} (ha : a ∈ z.scores) (d : ℤ) :
    IsLeast {a | a ∈ z.scores} (z.first.getD d) := by
  match hfirst : z.first with
  | some m => exact isLeast_first hfirst
  | none =>
    rw [scores, first_eq_none.mp hfirst] at ha
    exact absurd ha List.not_mem_nil

section Add

variable [DecidableEq M] {z : SortedSet M} {score : ℤ} {member : M}

/-- Adding a member that is not there yet. -/
theorem entries_add (h : ∀ x ∈ z.entries, x.member ≠ member) :
    (z.add score member).entries.Perm (⟨score, member⟩ :: z.entries) := by
  have hothers : z.others member = z.entries :=
    List.filter_eq_self.mpr fun x hx => decide_eq_true (h x hx)
  refine (List.perm_orderedInsert byScore _ _).trans ?_
  rw [hothers]

/-- A new member joins the others. -/
theorem mem_add (h : ∀ x ∈ z.entries, x.member ≠ member) {x : Scored M} :
    x ∈ (z.add score member).entries ↔ x = ⟨score, member⟩ ∨ x ∈ z.entries := by
  rw [(entries_add h).mem_iff, List.mem_cons]

/-- What is in the set after `ZADD` is the new entry, or was there before. -/
theorem mem_of_mem_add {x : Scored M} (h : x ∈ (z.add score member).entries) :
    x = ⟨score, member⟩ ∨ x ∈ z.entries := by
  rcases List.mem_cons.mp ((List.perm_orderedInsert byScore _ _).mem_iff.mp h) with hnew | hold
  · exact Or.inl hnew
  · exact Or.inr (List.mem_filter.mp hold).1

/-- An addition adds one member at most. -/
theorem card_add_le : (z.add score member).card ≤ z.card + 1 := by
  have hlength := (List.perm_orderedInsert byScore ⟨score, member⟩ (z.others member)).length_eq
  have hothers : (z.others member).length ≤ z.entries.length := List.length_filter_le _ _
  rw [List.length_cons] at hlength
  rw [card, add, hlength, card]
  omega

/-- It adds one score. -/
theorem scores_add (h : ∀ x ∈ z.entries, x.member ≠ member) :
    (z.add score member).scores.Perm (score :: z.scores) := (entries_add h).map Scored.score

/-- A new member is one more. -/
theorem card_add (h : ∀ x ∈ z.entries, x.member ≠ member) :
    (z.add score member).card = z.card + 1 := by
  unfold card
  rw [(entries_add h).length_eq, List.length_cons]

end Add

end SortedSet
