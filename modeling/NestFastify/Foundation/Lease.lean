import Mathlib.Data.Nat.Notation
import Mathlib.Data.Option.Basic

/-!
# Leases

A lease register: at most one holder at a time, up to an instant after which the register
is free again. `latest` remembers the last grant, with the expiry its last extension gave
it, also after the register has become free.

Two facts about any sequence of steps: the lease in force is the latest one granted
(`Step.agree`), and a holder stays in force until it releases or its time is up
(`Step.lost`).
-/

namespace Lease

variable {T : Type}

/-- A holder and the last instant of its lease. -/
structure Grant (T : Type) where
  holder : T
  expireAt : ℕ

/-- The register at an instant. A stored grant may have lapsed. -/
structure View (T : Type) where
  now : ℕ
  stored : Option (Grant T)
  latest : Option (Grant T)

/-- The grant in force. -/
def View.live (v : View T) : Option (Grant T) := v.stored.filter (v.now ≤ ·.expireAt)

inductive Event (T : Type) where
  | pass
  | grant (holder : T)
  | extend (holder : T)
  | release (holder : T)

/-- What can happen to a register. Only a free one is granted; only the holder of the grant
in force extends or releases it. -/
inductive Step : View T → Event T → View T → Prop
  | pass (v : View T) (ms : ℕ) : Step v .pass { v with now := v.now + ms }
  | grant (v : View T) (holder : T) (ms : ℕ) (hfree : v.live = none) :
    Step v (.grant holder)
      ⟨v.now, some ⟨holder, v.now + ms⟩, some ⟨holder, v.now + ms⟩⟩
  | extend (v : View T) (g : Grant T) (ms : ℕ) (hlive : v.live = some g) :
    Step v (.extend g.holder)
      ⟨v.now, some ⟨g.holder, v.now + ms⟩, some ⟨g.holder, v.now + ms⟩⟩
  | release (v : View T) (g : Grant T) (hlive : v.live = some g) :
    Step v (.release g.holder) ⟨v.now, none, v.latest⟩

/-- The grant in force is the latest one. -/
def View.Agree (v : View T) : Prop := ∀ g, v.live = some g → v.latest = some g

variable {v v' : View T} {l : Event T}

theorem View.live_eq_some {g : Grant T} :
    v.live = some g ↔ v.stored = some g ∧ v.now ≤ g.expireAt := by
  rw [View.live, Option.filter_eq_some_iff, decide_eq_true_iff]

theorem Step.agree (h : Step v l v') (hv : v.Agree) : v'.Agree := by
  intro g hg
  rw [View.live_eq_some] at hg
  cases h with
  | pass ms =>
    have hnow : v.now ≤ g.expireAt := Nat.le_trans (Nat.le_add_right v.now ms) hg.2
    exact hv g (View.live_eq_some.mpr ⟨hg.1, hnow⟩)
  | grant holder ms hfree => exact hg.1
  | extend g' ms hlive => exact hg.1
  | release g' hlive => cases hg.1

/-- A grant in force is still in force after a step, held by the same holder, unless its
time has run out or its holder has released it. -/
theorem Step.lost {g : Grant T} (h : Step v l v') (hg : v.live = some g) :
    (∃ g', v'.live = some g' ∧ g'.holder = g.holder) ∨
      (l = .pass ∧ g.expireAt < v'.now) ∨ l = .release g.holder := by
  have hstored := (View.live_eq_some.mp hg).1
  cases h with
  | pass ms =>
    by_cases hlapsed : g.expireAt < v.now + ms
    · exact Or.inr (Or.inl ⟨rfl, hlapsed⟩)
    · exact Or.inl ⟨g, View.live_eq_some.mpr ⟨hstored, Nat.le_of_not_lt hlapsed⟩, rfl⟩
  | grant holder ms hfree =>
    rw [hfree] at hg
    cases hg
  | extend g' ms hlive =>
    rw [hlive] at hg
    cases hg
    exact Or.inl ⟨_, View.live_eq_some.mpr ⟨rfl, Nat.le_add_right _ _⟩, rfl⟩
  | release g' hlive =>
    rw [hlive] at hg
    cases hg
    exact Or.inr (Or.inr rfl)

end Lease
