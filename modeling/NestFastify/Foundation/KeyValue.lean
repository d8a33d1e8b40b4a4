import Mathlib.Data.Nat.Notation
import Mathlib.Logic.Function.Basic

/-!
# A key-value store with expiry

The single-node store behind a lock or a cache: each entry holds a value and possibly
an instant after which it no longer counts. Every operation takes the current time
`now` of the store's one clock. An entry that has lapsed may still be in the map, but no
operation sees it, so the state of the store is read through `get`.
-/

/-- A value together with its last valid instant (`none`: it does not expire). -/
structure KeyValue.Entry (V : Type) where
  value : V
  expireAt : Option ℕ

/-- The contents of the store. -/
abbrev KeyValue (K V : Type) : Type := K → Option (KeyValue.Entry V)

namespace KeyValue

variable {K V : Type}

/-- The entry still counts at `now`: it lapses strictly after its last instant. -/
def Entry.live (now : ℕ) (e : Entry V) : Bool := e.expireAt.all (now ≤ ·)

/-- The entry `GET`, `SET NX` and `PEXPIRE` see. -/
def entry (now : ℕ) (kv : KeyValue K V) (k : K) : Option (Entry V) :=
  (kv k).filter (Entry.live now)

/-- `GET`. -/
def get (now : ℕ) (kv : KeyValue K V) (k : K) : Option V := (kv.entry now k).map Entry.value

variable [DecidableEq K]

/-- `SET`, with the expiry replaced as well. -/
def set (kv : KeyValue K V) (k : K) (v : V) (expireAt : Option ℕ) : KeyValue K V :=
  Function.update kv k (some ⟨v, expireAt⟩)

/-- `SET NX PX`: `none` when the key is taken. -/
def setNx (now : ℕ) (kv : KeyValue K V) (k : K) (v : V) (ms : ℕ) : Option (KeyValue K V) :=
  if (kv.entry now k).isSome then none else some (kv.set k v (some (now + ms)))

/-- `DEL`. -/
def del (kv : KeyValue K V) (k : K) : KeyValue K V := Function.update kv k none

/-- `PEXPIRE` with a positive time on an entry that is there. -/
def pexpire (now : ℕ) (kv : KeyValue K V) (k : K) (ms : ℕ) : KeyValue K V :=
  match kv.entry now k with
  | some e => kv.set k e.value (some (now + ms))
  | none => kv

variable {now ms : ℕ} {kv kv' : KeyValue K V} {k k' : K} {v : V} {until' : Option ℕ}

/-- A key reads back what was set. -/
theorem set_self : kv.set k v until' k = some ⟨v, until'⟩ := Function.update_self ..

/-- The other keys are as before. -/
theorem set_ne (h : k' ≠ k) : kv.set k v until' k' = kv k' := Function.update_of_ne h ..

/-- A deleted key has no entry. -/
theorem del_self : kv.del k k = none := Function.update_self ..

/-- The other keys are as before. -/
theorem del_ne (h : k' ≠ k) : kv.del k k' = kv k' := Function.update_of_ne h ..

omit [DecidableEq K] in
/-- Two stores that agree on a key show the same entry there. -/
theorem entry_congr (h : kv' k = kv k) : kv'.entry now k = kv.entry now k := by
  rw [entry, entry, h]

omit [DecidableEq K] in
/-- An entry is read while it is live. -/
theorem entry_eq_some {e : Entry V} :
    kv.entry now k = some e ↔ kv k = some e ∧ e.live now = true := by
  rw [entry, Option.filter_eq_some_iff]

omit [DecidableEq K] in
/-- An entry with an expiry is live up to that instant. -/
theorem live_some {t : ℕ} : Entry.live now ⟨v, some t⟩ = true ↔ now ≤ t := by
  simp [Entry.live]

omit [DecidableEq K] in
/-- An entry that counts has counted before. -/
theorem entry_of_le {now' : ℕ} {e : Entry V} (hle : now ≤ now') (h : kv.entry now' k = some e) :
    kv.entry now k = some e := by
  obtain ⟨hstored, hlive⟩ := entry_eq_some.mp h
  refine entry_eq_some.mpr ⟨hstored, ?_⟩
  obtain ⟨value, expireAt⟩ := e
  cases expireAt with
  | none => rfl
  | some t => exact live_some.mpr (Nat.le_trans hle (live_some.mp hlive))

/-- What has just been set with `PX` is live. -/
theorem entry_set_px (ms : ℕ) :
    (kv.set k v (some (now + ms))).entry now k = some ⟨v, some (now + ms)⟩ := by
  rw [entry_eq_some]
  exact ⟨set_self, live_some.mpr (Nat.le_add_right now ms)⟩

/-- `SET NX PX` succeeds exactly on a key that is not taken, and then only writes it. -/
theorem setNx_eq_some : kv.setNx now k v ms = some kv' ↔
    kv.entry now k = none ∧ kv' = kv.set k v (some (now + ms)) := by
  unfold setNx
  split
  · rename_i h
    obtain ⟨e, he⟩ := Option.isSome_iff_exists.mp h
    simp [he]
  · rename_i h
    rw [Bool.not_eq_true, Option.isSome_eq_false_iff, Option.isNone_iff_eq_none] at h
    simp [h, eq_comm]

/-- `SET NX` fails on a live entry. -/
theorem setNx_eq_none : kv.setNx now k v ms = none ↔ ∃ e, kv.entry now k = some e := by
  unfold setNx
  split
  · rename_i h
    simp [Option.isSome_iff_exists.mp h]
  · rename_i h
    simpa [Option.isSome_iff_exists] using h

/-- `PEXPIRE` of a live entry sets its expiry anew. -/
theorem pexpire_of_entry {e : Entry V} (h : kv.entry now k = some e) :
    kv.pexpire now k ms = kv.set k e.value (some (now + ms)) := by
  simp [pexpire, h]

end KeyValue
