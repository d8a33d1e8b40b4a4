/-!
# Async functions

An async function as the tree of the calls it awaits: it has resolved, it has rejected,
or it awaits one call `c` and goes on with whatever the call settles to. `C` lists the
calls, `R c` is what `c` resolves to, `ε` is the type of thrown values. The tree fixes
the points where the function can be interleaved with others and leaves every outcome
of every call open.

A `while` loop without a bound is unrolled `fuel` times; `pending` is the loop that is
still running when the fuel is used up.
-/

/-- An async function that makes the calls `C` and resolves to `α` or rejects with `ε`. -/
inductive Async (ε C : Type) (R : C → Type) (α : Type) where
  | resolve (a : α)
  | reject (e : ε)
  | await (c : C) (k : Except ε (R c) → Async ε C R α)
  | pending

namespace Async

variable {ε C : Type} {R : C → Type} {α β : Type}

/-- `await p`, then go on with its value; a rejection goes through. -/
def bind : Async ε C R α → (α → Async ε C R β) → Async ε C R β
  | resolve a, f => f a
  | reject e, _ => reject e
  | await c k, f => await c fun r => (k r).bind f
  | pending, _ => pending

instance : Monad (Async ε C R) where
  pure := resolve
  bind := bind

/-- A settled value, as the async function that is already settled. -/
def settled : Except ε α → Async ε C R α
  | .ok a => resolve a
  | .error e => reject e

/-- `await c`: resolve to the call's value, or throw what it rejects with. -/
def call (c : C) : Async ε C R (R c) := await c settled

/-- `throw e`. -/
def throw (e : ε) : Async ε C R α := reject e

/-- `try { p } catch (e) { h e }`. -/
def tryCatch : Async ε C R α → (ε → Async ε C R α) → Async ε C R α
  | resolve a, _ => resolve a
  | reject e, h => h e
  | await c k, h => await c fun r => (k r).tryCatch h
  | pending, _ => pending

/-- `try { p } finally { f }`: `f` runs once `p` has settled; if `f` rejects, its error
replaces the outcome of `p`. -/
def tryFinally : Async ε C R α → Async ε C R β → Async ε C R α
  | resolve a, f => f.bind fun _ => resolve a
  | reject e, f => f.bind fun _ => reject e
  | await c k, f => await c fun r => (k r).tryFinally f
  | pending, _ => pending

/-- `while`: `body s` either goes round again with a new loop state or leaves the loop. -/
def loop {σ : Type} (body : σ → Async ε C R (σ ⊕ α)) : Nat → σ → Async ε C R α
  | 0, _ => pending
  | fuel + 1, s => (body s).bind fun
    | .inl s' => loop body fuel s'
    | .inr a => resolve a

/-- `return` and `await` by their names. -/
@[simp] theorem pure_eq_resolve (a : α) : (pure a : Async ε C R α) = resolve a := rfl

@[simp] theorem bind_eq_bind (p : Async ε C R α) (f : α → Async ε C R β) :
    p >>= f = p.bind f := rfl

/-- An `await` goes on with the value, passes a rejection through, and waits with its promise. -/
@[simp] theorem resolve_bind (a : α) (f : α → Async ε C R β) :
    (resolve a).bind f = f a := rfl

@[simp] theorem reject_bind (e : ε) (f : α → Async ε C R β) :
    (reject e : Async ε C R α).bind f = reject e := rfl

@[simp] theorem await_bind (c : C) (k : Except ε (R c) → Async ε C R α)
    (f : α → Async ε C R β) : (await c k).bind f = await c fun r => (k r).bind f := rfl

@[simp] theorem settled_ok (a : α) : (settled (.ok a) : Async ε C R α) = resolve a := rfl

@[simp] theorem settled_error (e : ε) :
    (settled (.error e : Except ε α) : Async ε C R α) = reject e := rfl

/-- Only a rejection gets to the handler of `try … catch`. -/
@[simp] theorem resolve_tryCatch (a : α) (h : ε → Async ε C R α) :
    (resolve a).tryCatch h = resolve a := rfl

@[simp] theorem reject_tryCatch (e : ε) (h : ε → Async ε C R α) :
    (reject e).tryCatch h = h e := rfl

@[simp] theorem await_tryCatch (c : C) (k : Except ε (R c) → Async ε C R α)
    (h : ε → Async ε C R α) :
    (await c k).tryCatch h = await c fun r => (k r).tryCatch h := rfl

/-- `finally` runs once the body has settled, whichever way. -/
@[simp] theorem resolve_tryFinally (a : α) (f : Async ε C R β) :
    (resolve a).tryFinally f = f.bind fun _ => resolve a := rfl

@[simp] theorem reject_tryFinally (e : ε) (f : Async ε C R β) :
    (reject e : Async ε C R α).tryFinally f = f.bind fun _ => reject e := rfl

@[simp] theorem await_tryFinally (c : C) (k : Except ε (R c) → Async ε C R α)
    (f : Async ε C R β) :
    (await c k).tryFinally f = await c fun r => (k r).tryFinally f := rfl

/-! ## Running against an environment -/

/-- A call together with the outcome it settled to. -/
abbrev Event (ε C : Type) (R : C → Type) : Type := (c : C) × Except ε (R c)

/-- Run against an environment that answers each call from the calls before it. The
result is the calls made, in order, and how the function settled (`none`: it has not). -/
def run (env : List (Event ε C R) → (c : C) → Except ε (R c)) :
    Async ε C R α → List (Event ε C R) → List (Event ε C R) × Option (Except ε α)
  | resolve a, past => (past, some (.ok a))
  | reject e, past => (past, some (.error e))
  | await c k, past => (k (env past c)).run env (past ++ [⟨c, env past c⟩])
  | pending, past => (past, none)

/-- Run an async function at once against a state: each call is handled in the state it
finds. -/
def exec {σ : Type} (handler : σ → (c : C) → σ × Except ε (R c)) :
    Async ε C R α → σ → Option (σ × Except ε α)
  | resolve a, s => some (s, .ok a)
  | reject e, s => some (s, .error e)
  | await c k, s => (k (handler s c).2).exec handler (handler s c).1
  | pending, _ => none

section Exec

variable {σ : Type} {handler : σ → (c : C) → σ × Except ε (R c)} {s s' : σ}

/-- A single call is handled in the state it finds. -/
theorem exec_call (handler : σ → (c : C) → σ × Except ε (R c)) (s : σ) (c : C) :
    (call c : Async ε C R (R c)).exec handler s = some (handler s c) := by
  show (settled (handler s c).2).exec handler (handler s c).1 = _
  match handler s c with
  | (s', .ok a) => rfl
  | (s', .error e) => rfl

/-- A settled value leaves the state as it is. -/
theorem exec_settled (handler : σ → (c : C) → σ × Except ε (R c)) (s : σ) (r : Except ε α) :
    (settled r : Async ε C R α).exec handler s = some (s, r) := by
  cases r <;> rfl

/-- Once `p` has resolved, what follows it goes on in the state it left. -/
theorem exec_bind_ok {p : Async ε C R α} {f : α → Async ε C R β} {a : α}
    (h : p.exec handler s = some (s', .ok a)) :
    (p.bind f).exec handler s = (f a).exec handler s' := by
  induction p generalizing s with
  | resolve b =>
    cases h
    rfl
  | reject e => cases h
  | await c k ih => exact ih _ h
  | pending => cases h

/-- A rejection ends the execution. -/
theorem exec_bind_error {p : Async ε C R α} {f : α → Async ε C R β} {e : ε}
    (h : p.exec handler s = some (s', .error e)) :
    (p.bind f).exec handler s = some (s', .error e) := by
  induction p generalizing s with
  | resolve b => cases h
  | reject e' =>
    cases h
    rfl
  | await c k ih => exact ih _ h
  | pending => cases h

/-- `return f(await p)`. -/
theorem exec_bind_resolve (p : Async ε C R α) (f : α → β) (s : σ) :
    (p.bind fun a => resolve (f a)).exec handler s =
      (p.exec handler s).map fun q => (q.1, q.2.map f) := by
  induction p generalizing s with
  | resolve a => rfl
  | reject e => rfl
  | await c k ih => exact ih _ _
  | pending => rfl

end Exec

/-- What a suspended function shows to its surroundings; `P` is what it goes on as. -/
inductive View (ε C : Type) (R : C → Type) (α P : Type) where
  | awaits (call : C) (k : Except ε (R call) → P)
  | settled (result : Except ε α)
  | running

def View.map {P Q : Type} (f : P → Q) : View ε C R α P → View ε C R α Q
  | awaits call k => awaits call fun r => f (k r)
  | settled result => settled result
  | running => running

def view : Async ε C R α → View ε C R α (Async ε C R α)
  | await call k => .awaits call k
  | resolve a => .settled (.ok a)
  | reject e => .settled (.error e)
  | pending => .running

/-- What follows a call is known from its value and from its rejection. -/
theorem await_congr {c : C} {k g : Except ε (R c) → Async ε C R α}
    (hok : ∀ a, k (.ok a) = g (.ok a)) (herror : ∀ e, k (.error e) = g (.error e)) :
    await c k = await c g := by
  congr 1
  funext r
  match r with
  | .ok a => exact hok a
  | .error e => exact herror e

/-- A function that awaits a call goes on as the view says if it does so after each answer. -/
theorem view_await {P : Type} {f : P → Async ε C R α} {code : Async ε C R α} {c : C}
    {k : Except ε (R c) → Async ε C R α} {k' : Except ε (R c) → P} (hcode : code = await c k)
    (hok : ∀ a, k (.ok a) = f (k' (.ok a))) (herror : ∀ e, k (.error e) = f (k' (.error e))) :
    code.view = (View.awaits c k').map f := by
  rw [hcode, await_congr (g := fun r => f (k' r)) hok herror]
  rfl

/-- A run only adds calls to those already made. -/
theorem prefix_run (env : List (Event ε C R) → (c : C) → Except ε (R c)) (p : Async ε C R α)
    (past : List (Event ε C R)) : past <+: (p.run env past).1 := by
  induction p generalizing past with
  | resolve a => exact List.prefix_rfl
  | reject e => exact List.prefix_rfl
  | await c k ih => exact (List.prefix_append past _).trans (ih _ _)
  | pending => exact List.prefix_rfl

/-- A function that awaits a call makes one. -/
theorem run_await_ne_nil (env : List (Event ε C R) → (c : C) → Except ε (R c)) (c : C)
    (k : Except ε (R c) → Async ε C R α) (past : List (Event ε C R)) :
    ((await c k).run env past).1 ≠ [] := by
  have hprefix : past ++ [⟨c, env past c⟩] <+: ((await c k).run env past).1 :=
    prefix_run env (k (env past c)) _
  intro hnil
  rw [hnil, List.prefix_nil] at hprefix
  exact List.append_ne_nil_of_right_ne_nil past (List.cons_ne_nil _ _) hprefix

section Run

variable {env : List (Event ε C R) → (c : C) → Except ε (R c)} {past past' : List (Event ε C R)}

/-- A settled value makes no call. -/
theorem run_settled (env : List (Event ε C R) → (c : C) → Except ε (R c)) (r : Except ε α)
    (past : List (Event ε C R)) :
    (settled r : Async ε C R α).run env past = (past, some r) := by
  cases r <;> rfl

/-- Sequencing: the calls of `p`, then those of what follows it. -/
theorem run_bind_ok {p : Async ε C R α} {f : α → Async ε C R β} {a : α}
    (h : p.run env past = (past', some (.ok a))) :
    (p.bind f).run env past = (f a).run env past' := by
  induction p generalizing past with
  | resolve b =>
    cases h
    rfl
  | reject e => cases h
  | await c k ih => exact ih _ h
  | pending => cases h

/-- A rejection ends the run. -/
theorem run_bind_error {p : Async ε C R α} {f : α → Async ε C R β} {e : ε}
    (h : p.run env past = (past', some (.error e))) :
    (p.bind f).run env past = (past', some (.error e)) := by
  induction p generalizing past with
  | resolve b => cases h
  | reject e' =>
    cases h
    rfl
  | await c k ih => exact ih _ h
  | pending => cases h

/-- What is pending stays pending in an `await`. -/
theorem run_bind_pending {p : Async ε C R α} {f : α → Async ε C R β}
    (h : p.run env past = (past', none)) : (p.bind f).run env past = (past', none) := by
  induction p generalizing past with
  | resolve b => cases h
  | reject e => cases h
  | await c k ih => exact ih _ h
  | pending =>
    cases h
    rfl

/-- Once the body has settled its outcome waits for what `finally` does. -/
theorem run_tryFinally {p : Async ε C R α} {f : Async ε C R β} {r : Except ε α}
    (h : p.run env past = (past', some r)) :
    (p.tryFinally f).run env past = (f.bind fun _ => settled r).run env past' := by
  induction p generalizing past with
  | resolve a =>
    cases h
    rfl
  | reject e =>
    cases h
    rfl
  | await c k ih => exact ih _ h
  | pending => cases h

/-- Nor does `finally` run before the body has settled. -/
theorem run_tryFinally_pending {p : Async ε C R α} {f : Async ε C R β}
    (h : p.run env past = (past', none)) : (p.tryFinally f).run env past = (past', none) := by
  induction p generalizing past with
  | resolve a => cases h
  | reject e => cases h
  | await c k ih => exact ih _ h
  | pending =>
    cases h
    rfl

end Run

/-! ## Where a function has got to -/

/-- After the calls `past`, settled as recorded there, `p` has become `q`. -/
inductive Resumes (p : Async ε C R α) : List (Event ε C R) → Async ε C R α → Prop
  | start : Resumes p [] p
  | resume {past : List (Event ε C R)} {c : C} {k : Except ε (R c) → Async ε C R α}
      (h : Resumes p past (await c k)) (r : Except ε (R c)) :
      Resumes p (past ++ [⟨c, r⟩]) (k r)

/-! ## Pre- and postconditions over the calls made

`p.Satisfies pre post past` is the contract of a function that has made the calls `past`:
every call it can still make meets `pre` at its time, and it settles only in a way that
meets `post`. Both read the calls made so far. -/

def Satisfies (pre : List (Event ε C R) → C → Prop)
    (post : List (Event ε C R) → Except ε α → Prop) :
    Async ε C R α → List (Event ε C R) → Prop
  | resolve a, past => post past (.ok a)
  | reject e, past => post past (.error e)
  | await c k, past => pre past c ∧ ∀ r, (k r).Satisfies pre post (past ++ [⟨c, r⟩])
  | pending, _ => True

/-- `P` holds of every call the function can make, taken with what follows it. -/
def Everywhere (P : (c : C) → (Except ε (R c) → Async ε C R α) → Prop) :
    Async ε C R α → Prop
  | resolve _ => True
  | reject _ => True
  | await c k => P c k ∧ ∀ r, (k r).Everywhere P
  | pending => True

/-- What holds of every call of a function holds of the rest of it. -/
theorem Resumes.everywhere {P : (c : C) → (Except ε (R c) → Async ε C R α) → Prop}
    {p q : Async ε C R α} {past : List (Event ε C R)} (h : Resumes p past q)
    (hp : p.Everywhere P) : q.Everywhere P := by
  induction h with
  | start => exact hp
  | resume _ r ih => exact ih.2 r

variable {pre : List (Event ε C R) → C → Prop} {mid : List (Event ε C R) → Except ε α → Prop}
  {past : List (Event ε C R)}

/-- The contract holds of every later stage. -/
theorem Resumes.satisfies {p q : Async ε C R α} (h : Resumes p past q)
    (hp : p.Satisfies pre mid []) : q.Satisfies pre mid past := by
  induction h with
  | start => exact hp
  | resume _ r ih => exact ih.2 r

/-- A precondition that does not read the calls so far holds of every call. -/
theorem Satisfies.everywhere {P : (c : C) → (Except ε (R c) → Async ε C R α) → Prop}
    {p : Async ε C R α} (h : p.Satisfies pre mid past)
    (hP : ∀ past c k, pre past c → P c k) : p.Everywhere P := by
  induction p generalizing past with
  | resolve a => trivial
  | reject e => trivial
  | await c k ih => exact ⟨hP past c k h.1, fun r => ih r (h.2 r)⟩
  | pending => trivial

/-- Sequencing: what holds when `p` has settled is what `f` starts from, and a rejection
of `p` is one of the whole. -/
theorem Satisfies.bind {post : List (Event ε C R) → Except ε β → Prop} {p : Async ε C R α}
    {f : α → Async ε C R β} (hp : p.Satisfies pre mid past)
    (hf : ∀ past' a, mid past' (.ok a) → (f a).Satisfies pre post past')
    (he : ∀ past' e, mid past' (.error e) → post past' (.error e)) :
    (p.bind f).Satisfies pre post past := by
  induction p generalizing past with
  | resolve a => exact hf past a hp
  | reject e => exact he past e hp
  | await c k ih => exact ⟨hp.1, fun r => ih r (hp.2 r)⟩
  | pending => trivial

/-- One round of a loop restores the invariant, or leaves with the loop's result. -/
def roundPost {σ : Type} (inv : List (Event ε C R) → σ → Prop)
    (post : List (Event ε C R) → Except ε α → Prop) (past : List (Event ε C R)) :
    Except ε (σ ⊕ α) → Prop
  | .ok (.inl s) => inv past s
  | .ok (.inr a) => post past (.ok a)
  | .error e => post past (.error e)

/-- The loop rule: `inv` holds of the loop state at the start of every round. -/
theorem Satisfies.loop {σ : Type} {body : σ → Async ε C R (σ ⊕ α)}
    {inv : List (Event ε C R) → σ → Prop}
    (hbody : ∀ past s, inv past s → (body s).Satisfies pre (roundPost inv mid) past)
    (fuel : Nat) {s : σ} (hs : inv past s) : (loop body fuel s).Satisfies pre mid past := by
  induction fuel generalizing s past with
  | zero => trivial
  | succ fuel ih =>
    refine (hbody past s hs).bind (fun past' r hr => ?_) fun _ _ he => he
    cases r with
    | inl s' => exact ih hr
    | inr a => exact hr

/-- A settled value has only its postcondition to meet. -/
theorem satisfies_settled {r : Except ε α} (h : mid past r) :
    (settled r : Async ε C R α).Satisfies pre mid past := by
  cases r <;> exact h

/-- One call, and what comes after it. -/
theorem satisfies_call_bind (c : C) {f : R c → Async ε C R α} (hpre : pre past c)
    (hok : ∀ a, (f a).Satisfies pre mid (past ++ [⟨c, .ok a⟩]))
    (herr : ∀ e, mid (past ++ [⟨c, .error e⟩]) (.error e)) :
    ((call c).bind f).Satisfies pre mid past := by
  refine ⟨hpre, fun r => ?_⟩
  cases r with
  | ok a => exact hok a
  | error e => exact herr e

/-- `try`/`finally`: the block that follows starts from what holds when `p` has settled. -/
theorem Satisfies.tryFinally {post : List (Event ε C R) → Except ε α → Prop} {p : Async ε C R α}
    {f : Async ε C R β} (hp : p.Satisfies pre mid past)
    (hf : ∀ past' r, mid past' r → (f.bind fun _ => settled r).Satisfies pre post past') :
    (p.tryFinally f).Satisfies pre post past := by
  induction p generalizing past with
  | resolve a => exact hf past (.ok a) hp
  | reject e => exact hf past (.error e) hp
  | await c k ih => exact ⟨hp.1, fun r => ih r (hp.2 r)⟩
  | pending => trivial

/-! ## More calls -/

section Embed

variable {D : Type} {RD : D → Type}

/-- The same function among functions that make the calls `D` besides. -/
def embed : Async ε C R α → Async ε (D ⊕ C) (Sum.elim RD R) α
  | resolve a => resolve a
  | reject e => reject e
  | await c k => await (Sum.inr c) fun r => (k r).embed
  | pending => pending

/-- What the calls of the function keep holds throughout, and when it has settled. -/
theorem satisfies_embed {inv : List (Event ε (D ⊕ C) (Sum.elim RD R)) → Prop}
    {pre : List (Event ε (D ⊕ C) (Sum.elim RD R)) → D ⊕ C → Prop}
    (hpre : ∀ past c, inv past → pre past (.inr c))
    (hkeep : ∀ past c r, inv past → inv (past ++ [⟨.inr c, r⟩])) (p : Async ε C R α)
    {past : List (Event ε (D ⊕ C) (Sum.elim RD R))} (h : inv past) :
    (p.embed : Async ε (D ⊕ C) (Sum.elim RD R) α).Satisfies pre (fun past' _ => inv past') past := by
  induction p generalizing past with
  | resolve a => exact h
  | reject e => exact h
  | await c k ih => exact ⟨hpre past c h, fun r => ih r (hkeep past c r h)⟩
  | pending => trivial

end Embed

end Async
