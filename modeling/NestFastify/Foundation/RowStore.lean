import Mathlib.Data.List.Basic
import Mathlib.Data.List.Nodup
import Mathlib.Data.List.Sort
import Mathlib.Data.Nat.Notation
import Mathlib.Logic.Function.Basic

/-!
# Rows, row locks and transactions

A table of rows and the transactions that are open on it, one for each connection. A
transaction sees the committed rows under its own writes. A row it reads for update or writes
is locked until it ends, and no other transaction can lock it. A transaction of which a
statement has failed can only end, and nothing of it persists.

Two facts about every sequence of operations: no row is locked twice, and a row is only
written under its lock (`Sound`).
-/

/-- An open transaction. `writes` are the versions it has written. -/
structure Txn (K R : Type) where
  startedAt : ℕ
  failed : Bool
  locked : List K
  writes : K → Option R

/-- The committed rows, and the transaction that each connection has open. -/
structure RowStore (K R : Type) where
  rows : List R
  txns : List (Option (Txn K R))

namespace RowStore

variable {K R : Type}

/-- The version of a row that a transaction sees. -/
def see (key : R → K) (t : Txn K R) (row : R) : R := (t.writes (key row)).getD row

section Operations

variable [DecidableEq K] (key : R → K) (db : RowStore K R) (i : ℕ)

/-- The open transaction of a connection. -/
def txn? : Option (Txn K R) := db.txns[i]?.join

def setTxn (t : Option (Txn K R)) : RowStore K R := { db with txns := db.txns.set i t }

/-- Another connection has the row locked. -/
def lockedElsewhere (k : K) : Bool :=
  (List.range db.txns.length).any fun j =>
    decide (j ≠ i) && (db.txn? j).any fun t => decide (k ∈ t.locked)

def begin (now : ℕ) : RowStore K R := db.setTxn i (some ⟨now, false, [], fun _ => none⟩)

/-- `SELECT .. WHERE wanted ORDER BY order LIMIT limit FOR UPDATE SKIP LOCKED`. -/
def claim (t : Txn K R) (wanted : R → Bool) (order : R → ℕ) (limit : ℕ) :
    RowStore K R × List R :=
  let visible := (db.rows.filter fun row => !db.lockedElsewhere i (key row)).map (see key t)
  let batch := ((visible.filter wanted).insertionSort fun a b => order a ≤ order b).take limit
  (db.setTxn i (some { t with locked := t.locked ++ batch.map key }), batch)

/-- `UPDATE .. WHERE key = k RETURNING *`, on a row that is there. -/
def update (t : Txn K R) (k : K) (row : R) (change : R → R) : RowStore K R × R :=
  (db.setTxn i (some { t with
    locked := t.locked ++ [k]
    writes := Function.update t.writes k (some (change (see key t row))) }), change (see key t row))

/-- A statement of the transaction has failed. -/
def fail (t : Txn K R) : RowStore K R := db.setTxn i (some { t with failed := true })

def rollback : RowStore K R := db.setTxn i none

def commit (t : Txn K R) : RowStore K R :=
  { rows := db.rows.map (see key t), txns := db.txns.set i none }

def insert (row : R) : RowStore K R := { db with rows := db.rows ++ [row] }

end Operations

/-! ## Looking up a transaction -/

section Lookup

variable {db : RowStore K R} {i j : ℕ} {t : Txn K R} {o : Option (Txn K R)}

/-- A transaction is open in its slot. -/
theorem txn?_eq_some : db.txn? i = some t ↔ db.txns[i]? = some (some t) := by
  unfold txn?
  match db.txns[i]? with
  | none => simp
  | some none => simp
  | some (some u) => simp

/-- A slot has what was put there. -/
theorem txn?_setTxn_self (hi : i < db.txns.length) : (db.setTxn i o).txn? i = o := by
  unfold txn? setTxn
  rw [List.getElem?_set_self hi]
  rfl

/-- The other slots are as before. -/
theorem txn?_setTxn_ne (h : i ≠ j) : (db.setTxn i o).txn? j = db.txn? j := by
  unfold txn? setTxn
  rw [List.getElem?_set_ne h]

theorem lt_of_txn? (h : db.txn? i = some t) : i < db.txns.length :=
  (List.getElem?_eq_some_iff.mp (txn?_eq_some.mp h)).1

/-- Setting a transaction beyond the connections does nothing. -/
theorem txn?_setTxn_cases :
    (db.setTxn i o).txn? j = db.txn? j ∨ (i = j ∧ (db.setTxn i o).txn? j = o) := by
  by_cases hij : i = j
  · subst hij
    by_cases hi : i < db.txns.length
    · exact Or.inr ⟨rfl, txn?_setTxn_self hi⟩
    · left
      unfold txn? setTxn
      rw [List.getElem?_eq_none (by simpa using hi), List.getElem?_eq_none (by simpa using hi)]
  · exact Or.inl (txn?_setTxn_ne hij)

variable [DecidableEq K]

/-- A row that another transaction has locked is locked elsewhere. -/
theorem lockedElsewhere_of_mem {k : K} (hij : j ≠ i) (h : db.txn? j = some t) (hk : k ∈ t.locked) :
    db.lockedElsewhere i k = true := by
  unfold lockedElsewhere
  rw [List.any_eq_true]
  refine ⟨j, List.mem_range.mpr (lt_of_txn? h), ?_⟩
  rw [h]
  simp [hij, hk]

end Lookup

/-! ## The discipline of the locks -/

/-- No row is locked by two transactions, and only locked rows are written. -/
structure Sound (db : RowStore K R) : Prop where
  exclusive : ∀ i j t u k, db.txn? i = some t → db.txn? j = some u → k ∈ t.locked →
    k ∈ u.locked → i = j
  writes : ∀ i t k, db.txn? i = some t → k ∉ t.locked → t.writes k = none

section Discipline

variable {db : RowStore K R} {i : ℕ} {t : Txn K R}

/-- Soundness is about the open transactions alone. -/
theorem Sound.congr {db' : RowStore K R} (h : db.Sound) (htxns : db'.txns = db.txns) :
    db'.Sound := by
  have htxn : ∀ j, db'.txn? j = db.txn? j := by
    intro j
    unfold txn?
    rw [htxns]
  constructor
  · intro i j t u k ht hu
    rw [htxn] at ht hu
    exact h.exclusive i j t u k ht hu
  · intro i t k ht
    rw [htxn] at ht
    exact h.writes i t k ht

/-- Ending a transaction gives its locks back. -/
theorem Sound.rollback (h : db.Sound) (i : ℕ) : (db.rollback i).Sound := by
  have hold : ∀ j t, (db.rollback i).txn? j = some t → db.txn? j = some t := by
    intro j t ht
    rcases txn?_setTxn_cases (i := i) (j := j) (o := none) with hsame | ⟨-, hnone⟩
    · exact hsame.symm.trans ht
    · exact nomatch hnone.symm.trans ht
  constructor
  · intro j j' t u k ht hu
    exact h.exclusive j j' t u k (hold j t ht) (hold j' u hu)
  · intro j t k ht
    exact h.writes j t k (hold j t ht)

/-- A transaction may lock rows that no other one has locked, and write under its locks. -/
theorem Sound.set (h : db.Sound) (hlocks : ∀ j u k, j ≠ i → db.txn? j = some u → k ∈ t.locked →
    k ∉ u.locked) (hwrites : ∀ k, k ∉ t.locked → t.writes k = none) :
    (db.setTxn i (some t)).Sound := by
  have hcases : ∀ j u, (db.setTxn i (some t)).txn? j = some u →
      (j ≠ i ∧ db.txn? j = some u) ∨ (j = i ∧ u = t) := by
    intro j u hu
    by_cases hij : j = i
    · subst hij
      rcases txn?_setTxn_cases (i := j) (j := j) (o := some t) with hsame | ⟨-, hself⟩
      · have hlt := lt_of_txn? (hsame.symm.trans hu)
        rw [txn?_setTxn_self hlt] at hu
        exact Or.inr ⟨rfl, (Option.some.inj hu).symm⟩
      · exact Or.inr ⟨rfl, Option.some.inj (hu.symm.trans hself)⟩
    · rw [txn?_setTxn_ne (Ne.symm hij)] at hu
      exact Or.inl ⟨hij, hu⟩
  constructor
  · intro j j' u u' k hu hu' hk hk'
    rcases hcases j u hu with ⟨hj, hold⟩ | ⟨rfl, rfl⟩
    · rcases hcases j' u' hu' with ⟨hj', hold'⟩ | ⟨rfl, rfl⟩
      · exact h.exclusive j j' u u' k hold hold' hk hk'
      · exact absurd hk (hlocks j u k hj hold hk')
    · rcases hcases j' u' hu' with ⟨hj', hold'⟩ | ⟨rfl, rfl⟩
      · exact absurd hk' (hlocks j' u' k hj' hold' hk)
      · rfl
  · intro j u k hu hk
    rcases hcases j u hu with ⟨-, hold⟩ | ⟨-, rfl⟩
    · exact h.writes j u k hold hk
    · exact hwrites k hk

variable {key : R → K}

/-- Each operation keeps it. -/
theorem Sound.begin (h : db.Sound) (i now : ℕ) : (db.begin i now).Sound :=
  h.set (fun _ _ _ _ _ hk => absurd hk List.not_mem_nil) fun _ _ => rfl

theorem Sound.fail (h : db.Sound) (ht : db.txn? i = some t) : (db.fail i t).Sound :=
  h.set (fun j u k hj hu hk hk' => hj (h.exclusive j i u t k hu ht hk' hk)) (h.writes i t · ht)

theorem Sound.commit (h : db.Sound) (t : Txn K R) : (db.commit key i t).Sound :=
  (h.rollback i).congr rfl

theorem Sound.insert (h : db.Sound) (row : R) : (db.insert row).Sound := h.congr rfl

/-! ### What a transaction sees -/

variable {row : R}

/-- A transaction sees the committed version of a row it has not locked. -/
theorem see_of_not_locked (h : db.Sound) (ht : db.txn? i = some t) (hrow : key row ∉ t.locked) :
    see key t row = row := by
  rw [see, h.writes i t _ ht hrow]
  rfl

theorem txn?_commit : (db.commit key i t).txn? = (db.rollback i).txn? := rfl

/-- A transaction that is rolled back is closed. -/
theorem txn?_rollback_self : (db.rollback i).txn? i = none := by
  by_cases hi : i < db.txns.length
  · exact txn?_setTxn_self hi
  · unfold txn? rollback setTxn
    rw [List.getElem?_eq_none (by simpa using hi)]
    rfl

/-! ### What the statements lock -/

variable [DecidableEq K]

/-- An update of a locked row keeps it. -/
theorem Sound.update (h : db.Sound) (ht : db.txn? i = some t) {k : K} (hk : k ∈ t.locked) (row : R)
    (change : R → R) : (db.update key i t k row change).1.Sound := by
  refine h.set (fun j u k' hj hu hk' hku => ?_) fun k' hk' => ?_
  · refine hj (h.exclusive j i u t k' hu ht hku ?_)
    rcases List.mem_append.mp hk' with hold | hnew
    · exact hold
    · rw [List.mem_singleton.mp hnew]
      exact hk
  · show Function.update t.writes k _ k' = none
    have hne : k' ≠ k := by
      rintro rfl
      exact hk' (List.mem_append_left _ hk)
    rw [Function.update_of_ne hne]
    exact h.writes i t k' ht fun hold => hk' (List.mem_append_left _ hold)

section Claim

variable {wanted : R → Bool} {order : R → ℕ} {limit : ℕ} {row : R}

/-- A claimed row is wanted in the version that the transaction sees, and free. -/
theorem mem_claim (h : row ∈ (db.claim key i t wanted order limit).2) :
    wanted row = true ∧
      ∃ r ∈ db.rows, see key t r = row ∧ db.lockedElsewhere i (key r) = false := by
  have hsorted := List.mem_of_mem_take h
  rw [List.mem_insertionSort, List.mem_filter] at hsorted
  obtain ⟨r, hr, hsee⟩ := List.mem_map.mp hsorted.1
  rw [List.mem_filter, Bool.not_eq_true'] at hr
  exact ⟨hsorted.2, r, hr.1, hsee, hr.2⟩

/-- A row that is wanted and free is among those that the limit is applied to. -/
theorem mem_sorted (order : R → ℕ) (hrow : row ∈ db.rows)
    (hfree : db.lockedElsewhere i (key row) = false) (hwanted : wanted (see key t row) = true) :
    see key t row ∈ (((db.rows.filter fun row => !db.lockedElsewhere i (key row)).map
      (see key t)).filter wanted).insertionSort fun a b => order a ≤ order b := by
  have hvisible : see key t row ∈
      (db.rows.filter fun row => !db.lockedElsewhere i (key row)).map (see key t) :=
    List.mem_map_of_mem (List.mem_filter.mpr ⟨hrow, by rw [hfree]; rfl⟩)
  rw [List.mem_insertionSort]
  exact List.mem_filter.mpr ⟨hvisible, hwanted⟩

/-- A row that is wanted and free makes the claim find some row. -/
theorem claim_ne_nil (hrow : row ∈ db.rows) (hfree : db.lockedElsewhere i (key row) = false)
    (hwanted : wanted (see key t row) = true) (hlimit : 0 < limit) :
    (db.claim key i t wanted order limit).2 ≠ [] := by
  have hsorted := mem_sorted order hrow hfree hwanted
  intro hnil
  rcases List.take_eq_nil_iff.mp hnil with hzero | hempty
  · omega
  · rw [hempty] at hsorted
    exact absurd hsorted List.not_mem_nil

/-- A limit that leaves room for the whole table lets every such row in. -/
theorem mem_claim_of_le (hrow : row ∈ db.rows) (hfree : db.lockedElsewhere i (key row) = false)
    (hwanted : wanted (see key t row) = true) (hlimit : db.rows.length ≤ limit) :
    see key t row ∈ (db.claim key i t wanted order limit).2 := by
  let visible := (db.rows.filter fun row => !db.lockedElsewhere i (key row)).map (see key t)
  have hlength : ((visible.filter wanted).insertionSort fun a b => order a ≤ order b).length ≤
      limit := by
    have hfilter := List.length_filter_le wanted visible
    have hrows := List.length_filter_le (fun row => !db.lockedElsewhere i (key row)) db.rows
    rw [List.length_map] at hfilter
    rw [List.length_insertionSort]
    omega
  show see key t row ∈ List.take limit _
  rw [List.take_of_length_le hlength]
  exact mem_sorted order hrow hfree hwanted

/-- The claimed rows have different keys. -/
theorem nodup_claim (hrows : (db.rows.map key).Nodup)
    (hsee : ∀ r ∈ db.rows, key (see key t r) = key r) :
    ((db.claim key i t wanted order limit).2.map key).Nodup := by
  have hmap : ((db.rows.filter fun row => !db.lockedElsewhere i (key row)).map (see key t)).map key =
      (db.rows.filter fun row => !db.lockedElsewhere i (key row)).map key := by
    rw [List.map_map]
    apply List.map_congr_left
    intro r hr
    exact hsee r (List.mem_filter.mp hr).1
  have hvisible : (((db.rows.filter fun row => !db.lockedElsewhere i (key row)).map
      (see key t)).map key).Nodup := by
    rw [hmap]
    exact hrows.sublist (List.filter_sublist.map key)
  have hwanted := hvisible.sublist (List.Sublist.map key (List.filter_sublist (p := wanted)))
  have hsorted := ((List.perm_insertionSort (fun a b => order a ≤ order b) _).map key).nodup_iff.mpr
    hwanted
  exact hsorted.sublist ((List.take_sublist _ _).map key)

/-- A claim locks rows that no other transaction has locked. -/
theorem Sound.claim (h : db.Sound) (ht : db.txn? i = some t)
    (hsee : ∀ r ∈ db.rows, key (see key t r) = key r) :
    (db.claim key i t wanted order limit).1.Sound := by
  refine h.set (fun j u k hj hu hk hku => ?_) fun k hk => ?_
  · rcases List.mem_append.mp hk with hold | hnew
    · exact hj (h.exclusive j i u t k hu ht hku hold)
    · obtain ⟨row, hrow, rfl⟩ := List.mem_map.mp hnew
      obtain ⟨-, r, hr, rfl, hfree⟩ := mem_claim hrow
      rw [hsee r hr] at hku
      rw [lockedElsewhere_of_mem hj hu hku] at hfree
      exact Bool.noConfusion hfree
  · exact h.writes i t k ht fun hold => hk (List.mem_append_left _ hold)

end Claim

end Discipline

end RowStore
