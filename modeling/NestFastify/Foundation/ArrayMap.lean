import Mathlib.Data.Nat.Notation
import Mathlib.Logic.Function.Basic

/-!
# Maps of arrays

A JavaScript `Map` whose values are arrays. An array is an object of its own: it grows in
place, and one that has been deleted from the map is still there for a loop that has got
hold of it. No two keys share an array.
-/

/-- The addresses of the arrays in the map, and the arrays by their address. -/
structure ArrayMap (κ α : Type) where
  address : κ → Option ℕ
  arrays : List (List α)
  allocated : ∀ {k : κ} {r : ℕ}, address k = some r → r < arrays.length
  separate : ∀ {k k' : κ} {r : ℕ}, address k = some r → address k' = some r → k = k'

namespace ArrayMap

variable {κ α : Type}

/-- `new Map()`. -/
def empty : ArrayMap κ α := ⟨fun _ => none, [], nofun, nofun⟩

/-- The elements of the array at `r`. -/
def array (m : ArrayMap κ α) (r : ℕ) : List α := m.arrays.getD r []

/-- `map.get(k)`, read at once. -/
def get (m : ArrayMap κ α) (k : κ) : Option (List α) := (m.address k).map m.array

/-- `array.push(a)`. -/
def push (m : ArrayMap κ α) (r : ℕ) (a : α) : ArrayMap κ α where
  address := m.address
  arrays := m.arrays.modify r (· ++ [a])
  allocated := by
    intro k r' h
    rw [List.length_modify]
    exact m.allocated h
  separate := m.separate

variable [DecidableEq κ]

/-- `map.set(k, l)`, for a new array `l`. -/
def set (m : ArrayMap κ α) (k : κ) (l : List α) : ArrayMap κ α where
  address := Function.update m.address k (some m.arrays.length)
  arrays := m.arrays ++ [l]
  allocated := by
    intro k' r h
    rw [List.length_append, List.length_singleton]
    by_cases hk : k' = k
    · rw [hk, Function.update_self] at h
      cases h
      omega
    · rw [Function.update_of_ne hk] at h
      exact Nat.lt_succ_of_lt (m.allocated h)
  separate := by
    intro k₁ k₂ r h₁ h₂
    by_cases hk₁ : k₁ = k
    · by_cases hk₂ : k₂ = k
      · rw [hk₁, hk₂]
      · rw [hk₁, Function.update_self] at h₁
        rw [Function.update_of_ne hk₂] at h₂
        cases h₁
        exact absurd (m.allocated h₂) (Nat.lt_irrefl _)
    · rw [Function.update_of_ne hk₁] at h₁
      by_cases hk₂ : k₂ = k
      · rw [hk₂, Function.update_self] at h₂
        cases h₂
        exact absurd (m.allocated h₁) (Nat.lt_irrefl _)
      · rw [Function.update_of_ne hk₂] at h₂
        exact m.separate h₁ h₂

/-- `map.delete(k)`; the array stays. -/
def delete (m : ArrayMap κ α) (k : κ) : ArrayMap κ α where
  address := Function.update m.address k none
  arrays := m.arrays
  allocated := by
    intro k' r h
    by_cases hk : k' = k
    · rw [hk, Function.update_self] at h
      cases h
    · rw [Function.update_of_ne hk] at h
      exact m.allocated h
  separate := by
    intro k₁ k₂ r h₁ h₂
    have hne : ∀ {k' : κ}, Function.update m.address k none k' = some r → k' ≠ k := by
      intro k' h hk
      rw [hk, Function.update_self] at h
      cases h
    rw [Function.update_of_ne (hne h₁)] at h₁
    rw [Function.update_of_ne (hne h₂)] at h₂
    exact m.separate h₁ h₂

section Arrays

variable {m : ArrayMap κ α} {k k' : κ} {r r' : ℕ} {a : α} {l : List α}

omit [DecidableEq κ] in
/-- A push appends to its own array. -/
theorem array_push_self (h : r < m.arrays.length) : (m.push r a).array r = m.array r ++ [a] := by
  simp [array, push, List.getD_eq_getElem?_getD, h]

omit [DecidableEq κ] in
/-- A push leaves every other array as it is. -/
theorem array_push_ne (h : r' ≠ r) : (m.push r a).array r' = m.array r' := by
  simp [array, push, List.getD_eq_getElem?_getD, h.symm]

/-- Setting a key leaves the arrays there are alone. -/
theorem array_set (h : r < m.arrays.length) : (m.set k l).array r = m.array r := by
  simp [array, set, List.getD_eq_getElem?_getD, List.getElem?_append_left h]

omit [DecidableEq κ] in
/-- A push moves no array. -/
@[simp] theorem address_push : (m.push r a).address = m.address := rfl

/-- A key that is set gets a new array. -/
@[simp] theorem address_set_self : (m.set k l).address k = some m.arrays.length :=
  Function.update_self ..

/-- The other keys keep their arrays. -/
theorem address_set_ne (h : k' ≠ k) : (m.set k l).address k' = m.address k' :=
  Function.update_of_ne h ..

@[simp] theorem address_delete_self : (m.delete k).address k = none := Function.update_self ..

theorem address_delete_ne (h : k' ≠ k) : (m.delete k).address k' = m.address k' :=
  Function.update_of_ne h ..

omit [DecidableEq κ] in
/-- What a key holds is what its array holds. -/
theorem get_of_address (h : m.address k = some r) : m.get k = some (m.array r) := by
  rw [get, h, Option.map_some]

omit [DecidableEq κ] in
theorem get_eq_none_iff : m.get k = none ↔ m.address k = none := Option.map_eq_none_iff

omit [DecidableEq κ] in
/-- A push shows under each key that has the array. -/
theorem get_push_self (h : m.address k = some r) :
    (m.push r a).get k = some (m.array r ++ [a]) := by
  rw [get, address_push, h, Option.map_some, array_push_self (m.allocated h)]

omit [DecidableEq κ] in
/-- Pushing to the array of one key leaves the other keys alone. -/
theorem get_push_ne (h : m.address k = some r) (hne : k' ≠ k) :
    (m.push r a).get k' = m.get k' := by
  rw [get, get, address_push]
  cases hk' : m.address k' with
  | none => rfl
  | some r' =>
    have hr : r' ≠ r := fun heq => hne (m.separate (heq ▸ hk') h)
    rw [Option.map_some, Option.map_some, array_push_ne hr]

/-- A key that is set reads back what it was set to. -/
theorem get_set_self : (m.set k l).get k = some l := by
  rw [get, address_set_self, Option.map_some]
  simp [array, set, List.getD_eq_getElem?_getD]

/-- The other keys read as before. -/
theorem get_set_ne (hne : k' ≠ k) : (m.set k l).get k' = m.get k' := by
  rw [get, get, address_set_ne hne]
  cases hk' : m.address k' with
  | none => rfl
  | some r' => rw [Option.map_some, Option.map_some, array_set (m.allocated hk')]

/-- A key that is deleted reads as absent. -/
theorem get_delete_self : (m.delete k).get k = none := by
  rw [get, address_delete_self, Option.map_none]

/-- The other keys read as before the deletion. -/
theorem get_delete_ne (hne : k' ≠ k) : (m.delete k).get k' = m.get k' := by
  rw [get, get, address_delete_ne hne]
  rfl

end Arrays

end ArrayMap
