import Mathlib.Data.Nat.Notation

/-!
# Strings of JavaScript

`startsWith`, `slice` and `indexOf`, over the characters of a string. Positions only come from
`indexOf` and from the length of a prefix, so it does not matter there that JavaScript counts
UTF-16 units, as `length` does.
-/

namespace JsString

/-- `s.length`: a character outside the basic plane counts twice. -/
def length (s : String) : ℕ := s.toList.length + s.toList.countP fun c => decide (0xFFFF < c.toNat)

def startsWith (s p : String) : Bool := p.toList.isPrefixOf s.toList

/-- `s.slice(start)`. -/
def sliceFrom (s : String) (start : ℕ) : String := String.ofList (s.toList.drop start)

/-- `s.slice(0, stop)`. -/
def sliceTo (s : String) (stop : ℕ) : String := String.ofList (s.toList.take stop)

/-- `s.indexOf(c)`; `none` is `-1`. -/
def indexOf (s : String) (c : Char) : Option ℕ := s.toList.idxOf? c

theorem startsWith_iff {s p : String} : startsWith s p = true ↔ ∃ rest, s = p ++ rest := by
  rw [startsWith, List.isPrefixOf_iff_prefix]
  constructor
  · intro h
    obtain ⟨rest, hrest⟩ := h
    refine ⟨String.ofList rest, String.ext ?_⟩
    rw [String.toList_append, String.toList_ofList, hrest]
  · intro h
    obtain ⟨rest, rfl⟩ := h
    rw [String.toList_append]
    exact List.prefix_append _ _

theorem startsWith_append (p rest : String) : startsWith (p ++ rest) p = true :=
  startsWith_iff.mpr ⟨rest, rfl⟩

theorem sliceFrom_append (p rest : String) : sliceFrom (p ++ rest) p.length = rest := by
  rw [sliceFrom, String.toList_append, ← String.length_toList, List.drop_left, String.ofList_toList]

/-- Cutting at the first `c` gives `a` and `b`, where `a` has no `c`, exactly for `a ++ c ++ b`. -/
theorem cut_list {l a b : List Char} {c : Char} (ha : c ∉ a) :
    (∃ i, l.idxOf? c = some i ∧ l.take i = a ∧ l.drop (i + 1) = b) ↔ l = a ++ c :: b := by
  constructor
  · intro h
    obtain ⟨i, hi, rfl, rfl⟩ := h
    obtain ⟨hlt, hc, -⟩ := List.idxOf?_eq_some_iff.mp hi
    rw [← hc, List.getElem_cons_drop, List.take_append_drop]
  · intro h
    subst h
    refine ⟨a.length, List.idxOf?_eq_some_iff.mpr ⟨by simp, by simp, ?_⟩, by simp, by simp⟩
    intro j hj hget
    rw [List.getElem_append_left hj] at hget
    exact ha (hget ▸ List.getElem_mem hj)

theorem cut_iff {s a b : String} {c : Char} (ha : c ∉ a.toList) :
    (∃ i, indexOf s c = some i ∧ sliceTo s i = a ∧ sliceFrom s (i + 1) = b) ↔
      s = a ++ String.singleton c ++ b := by
  have hs : s = a ++ String.singleton c ++ b ↔ s.toList = a.toList ++ c :: b.toList := by
    rw [← String.toList_inj, String.toList_append, String.toList_append, String.toList_singleton,
      List.append_assoc, List.singleton_append]
  rw [hs, ← cut_list ha]
  simp only [indexOf, sliceTo, sliceFrom, ← String.toList_inj, String.toList_ofList]

end JsString
