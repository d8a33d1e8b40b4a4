import Mathlib.Data.List.Nodup
import Mathlib.Data.Nat.Notation
import Mathlib.Tactic.ByContra

/-!
# Nested transactions

`PrismaService.db` and `runInTransaction` (prisma.service.ts) and `PrismaTransactionManager.run`
(transaction-manager.prisma.ts), for async functions that write through `db` and call `run`, to
any depth. A write goes to the client in the store of its async context; a transaction is always
opened on the base client.

An execution leaves a trace: which writes and runs it made, and which runs resolved. The
database can be read off the trace.
-/

namespace NestFastify.Prisma

/-! ## Functions and traces -/

/-- What is left of an async function: it has resolved or rejected, or it awaits a write or a
`run` and goes on with whether that resolved. -/
inductive Code where
  | resolve
  | reject
  | write (next : Bool → Code)
  | run (fn : Code) (next : Bool → Code)

/-- The writes that took effect, by number, and the runs with their own traces. -/
inductive Trace where
  | nil
  | write (number : ℕ) (rest : Trace)
  | run (resolved : Bool) (fn rest : Trace)
  deriving DecidableEq

namespace Trace

/-- The writes that are made outside the runs of the trace. -/
def direct : Trace → List ℕ
  | nil => []
  | write number rest => number :: rest.direct
  | run _ _ rest => rest.direct

/-- All writes in the dynamic extent. -/
def all : Trace → List ℕ
  | nil => []
  | write number rest => number :: rest.all
  | run _ fn rest => fn.all ++ rest.all

/-- The runs that are not inside another run of the trace. -/
def runs : Trace → List (Bool × Trace)
  | nil => []
  | write _ rest => rest.runs
  | run resolved fn rest => (resolved, fn) :: rest.runs

/-- The runs at any depth that resolved. -/
def resolvedRuns : Trace → List Trace
  | nil => []
  | write _ rest => rest.resolvedRuns
  | run resolved fn rest =>
    fn.resolvedRuns ++ (if resolved then [fn] else []) ++ rest.resolvedRuns

end Trace

/-! ## prisma.service.ts -/

/-- `uncommitted` holds the writes of each transaction, `commits` what has been committed at
once, in order. `attempts` numbers the writes. -/
structure Database where
  nextTx : ℕ
  uncommitted : ℕ → List ℕ
  commits : List (List ℕ)
  attempts : ℕ

def Database.init : Database := ⟨0, fun _ => [], [], 0⟩

def Database.persisted (s : Database) : List ℕ := s.commits.flatten

/-- The base client (`none`), or the client of a transaction. -/
abbrev Client : Type := Option ℕ

structure Result where
  db : Database
  trace : Trace
  resolved : Bool

/-- A write on a client; a write on the base client is committed at once. -/
def Database.write (s : Database) : Client → (accepted : Bool) → Database
  | _, false => { s with attempts := s.attempts + 1 }
  | none, true => { s with
      commits := s.commits ++ [[s.attempts]]
      attempts := s.attempts + 1 }
  | some tx, true => { s with
      uncommitted := fun t =>
        if t = tx then s.uncommitted tx ++ [s.attempts] else s.uncommitted t
      attempts := s.attempts + 1 }

def Database.begin (s : Database) : Database := { s with nextTx := s.nextTx + 1 }

def Database.commit (s : Database) (tx : ℕ) : Database :=
  { s with commits := s.commits ++ [s.uncommitted tx] }

/-- `$transaction(f)` on the base client: a new transaction that commits if `f` resolves. -/
def transaction (f : ℕ → Database → Result) (s : Database) : Result :=
  let r := f s.nextTx s.begin
  { r with db := if r.resolved then r.db.commit s.nextTx else r.db }

namespace PrismaService

/-- `alsStore.getStore() ?? this`. -/
def db (store : Option ℕ) : Client := store

/-- `fn` runs with the transaction client in the store. -/
def runInTransaction (fn : Option ℕ → Database → Result) : Database → Result :=
  transaction fun tx => fn (some tx)

end PrismaService

def PrismaTransactionManager.run (fn : Option ℕ → Database → Result) : Database → Result :=
  PrismaService.runInTransaction fn

/-- An async function, run with `store` in its async context; `accepts` says which writes
succeed. -/
def exec (accepts : ℕ → Bool) : Code → Option ℕ → Database → Result
  | .resolve, _, s => ⟨s, .nil, true⟩
  | .reject, _, s => ⟨s, .nil, false⟩
  | .write next, store, s =>
    let accepted := accepts s.attempts
    let r := exec accepts (next accepted) store (s.write (PrismaService.db store) accepted)
    { r with trace := if accepted then .write s.attempts r.trace else r.trace }
  -- a new transaction of the base client, whatever client the store holds
  | .run fn next, store, s =>
    let r := PrismaTransactionManager.run (exec accepts fn) s
    let r' := exec accepts (next r.resolved) store r.db
    { r' with trace := .run r.resolved r.trace r'.trace }

/-! ## The database, read off the trace -/

namespace Trace

/-- What is committed while a function runs in a transaction: the runs it makes. -/
def commits (t : Trace) : List (List ℕ) := t.resolvedRuns.map direct

/-- What a run commits, with the runs inside it. -/
def runCommits (resolved : Bool) (fn : Trace) : List (List ℕ) :=
  fn.commits ++ if resolved then [fn.direct] else []

/-- What is committed while a function runs outside transactions. -/
def commitsOutside : Trace → List (List ℕ)
  | nil => []
  | write number rest => [number] :: rest.commitsOutside
  | run resolved fn rest => runCommits resolved fn ++ rest.commitsOutside

end Trace

/-- The transactions that have not been opened yet hold nothing. -/
def Database.Fresh (s : Database) : Prop := ∀ tx, s.nextTx ≤ tx → s.uncommitted tx = []

/-- What an execution does to the database. -/
structure Did (store : Option ℕ) (s : Database) (r : Result) : Prop where
  nextTx : s.nextTx ≤ r.db.nextTx
  fresh : r.db.Fresh
  commits : r.db.commits = s.commits ++ match store with
    | none => r.trace.commitsOutside
    | some _ => r.trace.commits
  own : ∀ tx, store = some tx → r.db.uncommitted tx = s.uncommitted tx ++ r.trace.direct
  others : ∀ tx, tx < s.nextTx → store ≠ some tx → r.db.uncommitted tx = s.uncommitted tx

/-- What a transaction does to the database. -/
structure Ran (s : Database) (r : Result) : Prop where
  nextTx : s.nextTx ≤ r.db.nextTx
  fresh : r.db.Fresh
  commits : r.db.commits = s.commits ++ Trace.runCommits r.resolved r.trace
  others : ∀ tx, tx < s.nextTx → r.db.uncommitted tx = s.uncommitted tx

/-- A transaction that resolves commits what its function has written on its client. -/
theorem ran_transaction {f : ℕ → Database → Result} {s : Database} (hs : s.Fresh)
    (h : Did (some s.nextTx) s.begin (f s.nextTx s.begin)) : Ran s (transaction f s) := by
  have hnext : s.nextTx + 1 ≤ (f s.nextTx s.begin).db.nextTx := h.nextTx
  have hown : (f s.nextTx s.begin).db.uncommitted s.nextTx = (f s.nextTx s.begin).trace.direct := by
    rw [h.own _ rfl]
    show s.uncommitted s.nextTx ++ _ = _
    rw [hs s.nextTx (Nat.le_refl _), List.nil_append]
  have hothers : ∀ tx, tx < s.nextTx →
      (f s.nextTx s.begin).db.uncommitted tx = s.uncommitted tx := by
    intro tx htx
    refine h.others tx (Nat.lt_succ_of_lt htx) fun heq => ?_
    have heq := Option.some.inj heq
    omega
  have hcommits : (f s.nextTx s.begin).db.commits =
      s.commits ++ (f s.nextTx s.begin).trace.commits := h.commits
  unfold transaction
  by_cases hresolved : (f s.nextTx s.begin).resolved = true
  · simp only [hresolved, if_true]
    refine ⟨Nat.le_of_succ_le hnext, h.fresh, ?_, hothers⟩
    simp only [Database.commit, Trace.runCommits, hcommits, hown, if_true, List.append_assoc]
  · simp only [hresolved]
    refine ⟨Nat.le_of_succ_le hnext, h.fresh, ?_, hothers⟩
    simp [Trace.runCommits, hcommits]

/-! ### One lemma for each constructor -/

section Constructors

variable {s : Database} {store : Option ℕ} {r r' : Result}

/-- A write on the client of a transaction is one of its uncommitted ones. -/
theorem Database.write_uncommitted {own : ℕ} : (s.write (some own) true).uncommitted own =
    s.uncommitted own ++ [s.attempts] := if_pos rfl

/-- It is none of another transaction. -/
theorem Database.write_uncommitted_ne {tx : ℕ} (hne : store ≠ some tx) :
    (s.write store true).uncommitted tx = s.uncommitted tx := by
  cases store with
  | none => rfl
  | some own => exact if_neg fun heq => hne (by rw [heq])

/-- A write touches no transaction that has not begun. -/
theorem Database.Fresh.write (hs : s.Fresh) (hstore : ∀ tx, store = some tx → tx < s.nextTx) :
    (s.write store true).Fresh := by
  intro tx htx
  have hle : s.nextTx ≤ tx := by
    cases store with
    | none => exact htx
    | some own => exact htx
  rw [Database.write_uncommitted_ne]
  · exact hs tx hle
  · intro heq
    have hlt := hstore tx heq
    omega

/-- A function that has settled does nothing more. -/
theorem Did.settled (hs : s.Fresh) (resolved : Bool) : Did store s ⟨s, .nil, resolved⟩ where
  nextTx := Nat.le_refl _
  fresh := hs
  commits := by
    cases store with
    | none => exact (List.append_nil _).symm
    | some tx => exact (List.append_nil _).symm
  own tx _ := (List.append_nil _).symm
  others _ _ _ := rfl

/-- A refused write does nothing. -/
theorem Did.rejected (h : Did store (s.write store false) r) : Did store s r where
  nextTx := h.nextTx
  fresh := h.fresh
  commits := h.commits
  own := h.own
  others := h.others

/-- An accepted write is the first one of the trace. -/
theorem Did.write (h : Did store (s.write store true) r) :
    Did store s { r with trace := .write s.attempts r.trace } := by
  have hnext : (s.write store true).nextTx = s.nextTx := by
    cases store with
    | none => rfl
    | some own => rfl
  constructor
  · rw [← hnext]
    exact h.nextTx
  · exact h.fresh
  · refine h.commits.trans ?_
    cases store with
    | none =>
      show s.commits ++ [[s.attempts]] ++ _ = _
      rw [List.append_assoc]
      rfl
    | some own => rfl
  · intro tx htx
    subst htx
    refine (h.own tx rfl).trans ?_
    rw [Database.write_uncommitted, List.append_assoc]
    rfl
  · intro tx htx hne
    refine (h.others tx (hnext.symm ▸ htx) hne).trans ?_
    exact Database.write_uncommitted_ne hne

/-- A run is followed by the rest of the function. -/
theorem Did.run (hran : Ran s r) (h : Did store r.db r')
    (hstore : ∀ tx, store = some tx → tx < s.nextTx) :
    Did store s { r' with trace := .run r.resolved r.trace r'.trace } := by
  constructor
  · exact Nat.le_trans hran.nextTx h.nextTx
  · exact h.fresh
  · refine h.commits.trans ?_
    rw [hran.commits, List.append_assoc]
    cases store with
    | none => rfl
    | some tx =>
      simp only [Trace.runCommits, Trace.commits, Trace.resolvedRuns, List.map_append]
      congr 2
      split <;> rfl
  · intro tx htx
    refine (h.own tx htx).trans ?_
    rw [hran.others tx (hstore tx htx)]
    rfl
  · intro tx htx hne
    refine (h.others tx (Nat.lt_of_lt_of_le htx hran.nextTx) hne).trans ?_
    exact hran.others tx htx

end Constructors

/-- The writes of a function are committed as its trace says. -/
theorem did_exec (accepts : ℕ → Bool) (p : Code) (store : Option ℕ) (s : Database)
    (hs : s.Fresh) (hstore : ∀ tx, store = some tx → tx < s.nextTx) :
    Did store s (exec accepts p store s) := by
  induction p generalizing store s with
  | resolve => exact Did.settled hs true
  | reject => exact Did.settled hs false
  | write next ih =>
    by_cases haccepts : accepts s.attempts = true
    · have hstore' : ∀ tx, store = some tx → tx < (s.write store true).nextTx := by
        intro tx htx
        subst htx
        exact hstore tx rfl
      have hnext := ih true store (s.write store true) (hs.write hstore) hstore'
      simp only [exec, haccepts, if_true]
      exact hnext.write
    · have haccepts := eq_false_of_ne_true haccepts
      have hnext := ih false store (s.write store false) hs hstore
      simp only [exec, haccepts]
      exact hnext.rejected
  | run fn next ihfn ihnext =>
    have hfn := ihfn (some s.nextTx) s.begin (fun tx htx => hs tx (Nat.le_of_succ_le htx))
      fun tx htx => by
        rw [← Option.some.inj htx]
        exact Nat.lt_succ_self _
    have hran : Ran s (PrismaTransactionManager.run (exec accepts fn) s) :=
      @ran_transaction (fun tx => exec accepts fn (some tx)) s hs hfn
    have hnext := ihnext (PrismaTransactionManager.run (exec accepts fn) s).resolved store
      (PrismaTransactionManager.run (exec accepts fn) s).db hran.fresh
      fun tx htx => Nat.lt_of_lt_of_le (hstore tx htx) hran.nextTx
    exact Did.run hran hnext hstore

/-! ## The numbers of the writes -/

/-- An execution numbers its writes in the order in which they are made. -/
structure Numbered (s : Database) (r : Result) : Prop where
  attempts : s.attempts ≤ r.db.attempts
  range : ∀ i ∈ r.trace.all, s.attempts ≤ i ∧ i < r.db.attempts
  nodup : r.trace.all.Nodup

section Numbers

variable {s s' : Database} {r r' : Result}

/-- The numbers of a later part of an execution. -/
theorem Numbered.mono (h : Numbered s' r) (hle : s.attempts ≤ s'.attempts) : Numbered s r where
  attempts := Nat.le_trans hle h.attempts
  range i hi := ⟨Nat.le_trans hle (h.range i hi).1, (h.range i hi).2⟩
  nodup := h.nodup

/-- The first write has the first number. -/
theorem Numbered.write (h : Numbered s' r) (hattempts : s'.attempts = s.attempts + 1) :
    Numbered s { r with trace := .write s.attempts r.trace } := by
  have hlt : s.attempts < r.db.attempts := by
    have hle := h.attempts
    omega
  have hlater := h.mono (s := s) (by omega)
  constructor
  · exact Nat.le_of_lt hlt
  · intro i hi
    rcases List.mem_cons.mp hi with rfl | hi
    · exact ⟨Nat.le_refl _, hlt⟩
    · exact hlater.range i hi
  · refine List.nodup_cons.mpr ⟨fun hmem => ?_, h.nodup⟩
    have hself := (h.range _ hmem).1
    omega

/-- A run numbers its writes before those that come after it. -/
theorem Numbered.run (h : Numbered s r) (hnext : Numbered r.db r') :
    Numbered s { r' with trace := .run r.resolved r.trace r'.trace } := by
  have hlater := hnext.mono h.attempts
  constructor
  · exact hlater.attempts
  · intro i hi
    rcases List.mem_append.mp hi with hi | hi
    · have hi := h.range i hi
      exact ⟨hi.1, Nat.lt_of_lt_of_le hi.2 hnext.attempts⟩
    · exact hlater.range i hi
  · refine List.nodup_append.mpr ⟨h.nodup, hnext.nodup, fun i hi j hj heq => ?_⟩
    have hlow := (h.range i hi).2
    have hhigh := (hnext.range j hj).1
    omega

/-- A transaction numbers the writes of its function. -/
theorem numbered_transaction {f : ℕ → Database → Result}
    (h : Numbered s.begin (f s.nextTx s.begin)) : Numbered s (transaction f s) := by
  have hsame : (transaction f s).db.attempts = (f s.nextTx s.begin).db.attempts := by
    unfold transaction
    dsimp only
    split
    · rfl
    · rfl
  constructor
  · rw [hsame]
    exact h.attempts
  · rw [hsame]
    exact h.range
  · exact h.nodup

end Numbers

/-- Every execution numbers its writes. -/
theorem numbered_exec (accepts : ℕ → Bool) (p : Code) (store : Option ℕ) (s : Database) :
    Numbered s (exec accepts p store s) := by
  induction p generalizing store s with
  | resolve => exact ⟨Nat.le_refl _, nofun, List.nodup_nil⟩
  | reject => exact ⟨Nat.le_refl _, nofun, List.nodup_nil⟩
  | write next ih =>
    have hattempts : ∀ accepted, (s.write store accepted).attempts = s.attempts + 1 := by
      intro accepted
      match store, accepted with
      | none, true | some tx, true | none, false | some tx, false => rfl
    by_cases haccepts : accepts s.attempts = true
    · simp only [exec, haccepts, if_true]
      exact (ih true store (s.write store true)).write (hattempts true)
    · have haccepts := eq_false_of_ne_true haccepts
      simp only [exec, haccepts]
      exact (ih false store (s.write store false)).mono (by rw [hattempts]; exact Nat.le_succ _)
  | run fn next ihfn ihnext =>
    have hfn := numbered_transaction (f := fun tx => exec accepts fn (some tx))
      (ihfn (some s.nextTx) s.begin)
    exact hfn.run (ihnext _ store _)

namespace Trace

variable {t fn : Trace} {resolved : Bool} {c : List ℕ} {i : ℕ}

/-- The writes outside runs are among all writes. -/
theorem direct_subset (t : Trace) : t.direct ⊆ t.all := by
  induction t with
  | nil => exact List.Subset.refl _
  | write number rest ih => exact List.cons_subset_cons _ ih
  | run resolved fn rest _ ih => exact List.Subset.trans ih (List.subset_append_right _ _)

/-- So are those of a run that resolved. -/
theorem all_subset_of_resolvedRuns (h : fn ∈ t.resolvedRuns) : fn.all ⊆ t.all := by
  induction t with
  | nil => exact absurd h List.not_mem_nil
  | write number rest ih => exact List.Subset.trans (ih h) (List.subset_cons_self _ _)
  | run resolved fn' rest ihfn ih =>
    rw [resolvedRuns, List.mem_append, List.mem_append] at h
    rcases h with (hinner | hself) | hrest
    · exact List.Subset.trans (ihfn hinner) (List.subset_append_left _ _)
    · split at hself
      · rw [List.mem_singleton.mp hself]
        exact List.subset_append_left _ _
      · exact absurd hself List.not_mem_nil
    · exact List.Subset.trans (ih hrest) (List.subset_append_right _ _)

/-- And those of an outermost run. -/
theorem all_subset_of_runs (h : (resolved, fn) ∈ t.runs) : fn.all ⊆ t.all := by
  induction t with
  | nil => exact absurd h List.not_mem_nil
  | write number rest ih => exact List.Subset.trans (ih h) (List.subset_cons_self _ _)
  | run resolved' fn' rest _ ih =>
    rcases List.mem_cons.mp h with heq | hrest
    · rw [(Prod.mk.inj heq).2]
      exact List.subset_append_left _ _
    · exact List.Subset.trans (ih hrest) (List.subset_append_right _ _)

/-- A run commits the direct writes of one run that resolved: itself, or one inside it. -/
theorem mem_runCommits : c ∈ runCommits resolved fn ↔
    (∃ t ∈ fn.resolvedRuns, t.direct = c) ∨ (resolved = true ∧ c = fn.direct) := by
  rw [runCommits, List.mem_append, commits, List.mem_map]
  refine or_congr Iff.rfl ?_
  by_cases hresolved : resolved = true
  · simp [hresolved]
  · simp [hresolved]

/-- A run commits none but its own writes. -/
theorem subset_of_mem_runCommits (h : c ∈ runCommits resolved fn) : c ⊆ fn.all := by
  rcases mem_runCommits.mp h with ⟨t, ht, rfl⟩ | ⟨-, rfl⟩
  · exact List.Subset.trans t.direct_subset (all_subset_of_resolvedRuns ht)
  · exact fn.direct_subset

/-- What is committed has been written. -/
theorem subset_of_mem_commitsOutside (h : c ∈ t.commitsOutside) : c ⊆ t.all := by
  induction t with
  | nil => exact absurd h List.not_mem_nil
  | write number rest ih =>
    rcases List.mem_cons.mp h with rfl | hrest
    · exact List.cons_subset_cons _ (List.nil_subset _)
    · exact List.Subset.trans (ih hrest) (List.subset_cons_self _ _)
  | run resolved fn rest _ ih =>
    rcases List.mem_append.mp h with hrun | hrest
    · exact List.Subset.trans (subset_of_mem_runCommits hrun) (List.subset_append_left _ _)
    · exact List.Subset.trans (ih hrest) (List.subset_append_right _ _)

/-- What an outermost run commits is committed. -/
theorem runCommits_subset (h : (resolved, fn) ∈ t.runs) :
    runCommits resolved fn ⊆ t.commitsOutside := by
  induction t with
  | nil => exact absurd h List.not_mem_nil
  | write number rest ih => exact List.Subset.trans (ih h) (List.subset_cons_self _ _)
  | run resolved' fn' rest _ ih =>
    rcases List.mem_cons.mp h with heq | hrest
    · rw [(Prod.mk.inj heq).1, (Prod.mk.inj heq).2]
      exact List.subset_append_left _ _
    · exact List.Subset.trans (ih hrest) (List.subset_append_right _ _)

/-- A commit with a write of a run is one that the run makes. -/
theorem mem_runCommits_of_mem (hnodup : t.all.Nodup) (h : (resolved, fn) ∈ t.runs)
    (hc : c ∈ t.commitsOutside) (hic : i ∈ c) (hi : i ∈ fn.all) : c ∈ runCommits resolved fn := by
  induction t with
  | nil => exact absurd h List.not_mem_nil
  | write number rest ih =>
    obtain ⟨hnumber, hnodup⟩ := List.nodup_cons.mp hnodup
    rcases List.mem_cons.mp hc with rfl | hrest
    · rw [List.mem_singleton.mp hic] at hi
      exact absurd (all_subset_of_runs (show (resolved, fn) ∈ rest.runs from h) hi) hnumber
    · exact ih hnodup h hrest
  | run resolved' fn' rest _ ih =>
    obtain ⟨-, hnodup, hdisjoint⟩ := List.nodup_append.mp hnodup
    rcases List.mem_cons.mp h with heq | hruns
    · obtain ⟨rfl, rfl⟩ := Prod.mk.inj heq
      rcases List.mem_append.mp hc with hrun | hrest
      · exact hrun
      · exact absurd rfl (hdisjoint i hi i (subset_of_mem_commitsOutside hrest hic))
    · rcases List.mem_append.mp hc with hrun | hrest
      · exact absurd rfl (hdisjoint i (subset_of_mem_runCommits hrun hic) i
          (all_subset_of_runs hruns hi))
      · exact ih hnodup hruns hrest

/-- A write outside runs is committed by itself. -/
theorem singleton_mem_commitsOutside (h : i ∈ t.direct) : [i] ∈ t.commitsOutside := by
  induction t with
  | nil => exact absurd h List.not_mem_nil
  | write number rest ih =>
    rcases List.mem_cons.mp h with rfl | hrest
    · exact List.mem_cons_self
    · exact List.mem_cons_of_mem _ (ih hrest)
  | run resolved fn rest _ ih => exact List.mem_append_right _ (ih h)

end Trace

/-! ## Atomicity -/

/-- What is expected of the runs in the trace `t`, once they have settled. -/
structure Atomic (s : Database) (t : Trace) : Prop where
  /-- A write outside all runs persists by itself. -/
  outside : ∀ i ∈ t.direct, [i] ∈ s.commits
  /-- Nothing persists of an outermost run that rejected. -/
  rejected : ∀ fn, (false, fn) ∈ t.runs → ∀ i ∈ fn.all, i ∉ s.persisted
  /-- Of one that resolved, all writes persist together. -/
  resolved : ∀ fn, (true, fn) ∈ t.runs → ∃ c ∈ s.commits, ∀ i ∈ fn.all, i ∈ c

/-- All writes of the outermost run are made directly in one run that resolved, if it resolved
itself; if it rejected, the runs inside that resolved have made no writes. -/
def InOneRun : Bool × Trace → Prop
  | (true, fn) => ∃ t ∈ fn :: fn.resolvedRuns, ∀ i ∈ fn.all, i ∈ t.direct
  | (false, fn) => ∀ t ∈ fn.resolvedRuns, t.direct = []

/-- Every execution is atomic exactly when each outermost run that resolved has made all its writes
directly in one run, itself or one inside it that resolved, and inside each one that rejected no run
that resolved has written. -/
theorem atomic_iff (accepts : ℕ → Bool) (p : Code) :
    Atomic (exec accepts p none .init).db (exec accepts p none .init).trace ↔
      ∀ run ∈ (exec accepts p none .init).trace.runs, InOneRun run := by
  have hcommits : (exec accepts p none .init).db.commits =
      (exec accepts p none .init).trace.commitsOutside :=
    (did_exec accepts p none .init (fun _ _ => rfl) nofun).commits
  have hnodup := (numbered_exec accepts p none .init).nodup
  generalize (exec accepts p none .init).trace = t at *
  generalize (exec accepts p none .init).db = s at *
  constructor
  · intro h run hrun
    match run with
    | (true, fn) =>
      obtain ⟨c, hc, hall⟩ := h.resolved fn hrun
      match hfn : fn.all with
      | [] => exact ⟨fn, List.mem_cons_self, by rw [hfn]; nofun⟩
      | i :: rest =>
        -- the commit that holds one write of the run is that of one run inside
        have hi : i ∈ fn.all := hfn ▸ List.mem_cons_self
        rw [hcommits] at hc
        have hmem := Trace.mem_runCommits_of_mem hnodup hrun hc (hall i hi) hi
        rcases Trace.mem_runCommits.mp hmem with ⟨t', ht', rfl⟩ | ⟨-, rfl⟩
        · exact ⟨t', List.mem_cons_of_mem _ ht', hall⟩
        · exact ⟨fn, List.mem_cons_self, hall⟩
    | (false, fn) =>
      -- a write of a run inside that resolved would persist
      intro t' ht'
      rw [List.eq_nil_iff_forall_not_mem]
      intro i hi
      refine h.rejected fn hrun i (Trace.all_subset_of_resolvedRuns ht' (t'.direct_subset hi)) ?_
      rw [Database.persisted, hcommits]
      exact List.mem_flatten.mpr ⟨_, Trace.runCommits_subset hrun
        (Trace.mem_runCommits.mpr (Or.inl ⟨t', ht', rfl⟩)), hi⟩
  · intro h
    constructor
    · intro i hi
      rw [hcommits]
      exact Trace.singleton_mem_commitsOutside hi
    · intro fn hfn i hi hpersisted
      rw [Database.persisted, hcommits] at hpersisted
      obtain ⟨c, hc, hic⟩ := List.mem_flatten.mp hpersisted
      rcases Trace.mem_runCommits.mp (Trace.mem_runCommits_of_mem hnodup hfn hc hic hi) with
        ⟨t', ht', rfl⟩ | ⟨hresolved, -⟩
      · rw [h _ hfn t' ht'] at hic
        exact absurd hic List.not_mem_nil
      · exact nomatch hresolved
    · intro fn hfn
      obtain ⟨t', ht', hall⟩ := h _ hfn
      refine ⟨t'.direct, ?_, hall⟩
      rw [hcommits]
      apply Trace.runCommits_subset hfn
      rcases List.mem_cons.mp ht' with rfl | ht'
      · exact Trace.mem_runCommits.mpr (Or.inr ⟨rfl, rfl⟩)
      · exact Trace.mem_runCommits.mpr (Or.inl ⟨t', ht', rfl⟩)

/-- The inner run has committed its write when the outer one rejects. -/
theorem not_atomic : ¬ ∀ accepts p, Atomic (exec accepts p none .init).db
    (exec accepts p none .init).trace := by
  intro h
  have hatomic := h (fun _ => true)
    (.run (.run (.write fun _ => .resolve) fun _ => .reject) fun _ => .reject)
  exact hatomic.rejected (.run true (.write 0 .nil) .nil) (by decide) 0 (by decide) (by decide)

end NestFastify.Prisma
