import Mathlib.Logic.Relation

/-!
# Runs of a transition function

A system is a partial step function `step : σ → α → Option σ`: `none` means that the
action is not enabled. `ok` is the condition a run puts on its steps, read in the state
*before* the step; `Reaches step ok s t` says that some run whose steps all meet `ok`
leads from `s` to `t`.

`run` replays a concrete list of actions, so that a reached state can be computed.
-/

namespace Transition

variable {σ α : Type} {step : σ → α → Option σ} {ok : σ → α → Prop} {s t : σ}

/-- One step of a run: some enabled action that meets the run's condition. -/
def Next (step : σ → α → Option σ) (ok : σ → α → Prop) (s t : σ) : Prop :=
  ∃ a, ok s a ∧ step s a = some t

/-- `t` is reached from `s` by a run whose steps all meet `ok`. -/
def Reaches (step : σ → α → Option σ) (ok : σ → α → Prop) : σ → σ → Prop :=
  Relation.ReflTransGen (Next step ok)

theorem Reaches.refl (s : σ) : Reaches step ok s s := Relation.ReflTransGen.refl

/-- One more step. -/
theorem Reaches.tail {u : σ} {a : α} (h : Reaches step ok s t) (ha : ok t a)
    (hu : step t a = some u) : Reaches step ok s u :=
  Relation.ReflTransGen.tail h ⟨a, ha, hu⟩

/-- One run after another. -/
theorem Reaches.trans {u : σ} (h : Reaches step ok s t) (h' : Reaches step ok t u) :
    Reaches step ok s u := Relation.ReflTransGen.trans h h'

/-- Weakening the condition on the steps keeps every run. -/
theorem Reaches.mono {ok' : σ → α → Prop} (hok : ∀ s a, ok s a → ok' s a)
    (h : Reaches step ok s t) : Reaches step ok' s t := by
  induction h with
  | refl => exact Reaches.refl s
  | tail _ hnext ih =>
    obtain ⟨a, ha, hs⟩ := hnext
    exact ih.tail (hok _ a ha) hs

/-- The invariant rule: what holds at first and survives every step holds of every
state reached. -/
theorem Reaches.invariant {Inv : σ → Prop} (h : Reaches step ok s t) (h0 : Inv s)
    (hstep : ∀ u a v, Inv u → ok u a → step u a = some v → Inv v) : Inv t := by
  induction h with
  | refl => exact h0
  | tail _ hnext ih =>
    obtain ⟨a, ha, hs⟩ := hnext
    exact hstep _ a _ ih ha hs

/-- The invariant rule relative to an invariant `J` that is already known. -/
theorem Reaches.invariant_under {J Inv : σ → Prop} (h : Reaches step ok s t)
    (hJ : ∀ u, Reaches step ok s u → J u) (h0 : Inv s)
    (hstep : ∀ u a v, J u → Inv u → ok u a → step u a = some v → Inv v) : Inv t := by
  induction h with
  | refl => exact h0
  | tail hu hnext ih =>
    obtain ⟨a, ha, hs⟩ := hnext
    exact hstep _ a _ (hJ _ hu) ih ha hs

/-- A run of a part is a run of the system, whose other parts move along. -/
theorem Reaches.extend {σ' α' : Type} {f : σ → σ'} {step' : σ' → α' → Option σ'}
    {ok' : σ' → α' → Prop} (hstep : ∀ u b v', ok' (f u) b → step' (f u) b = some v' →
      ∃ a v, ok u a ∧ step u a = some v ∧ f v = v')
    {t' : σ'} (h : Reaches step' ok' (f s) t') : ∃ t, Reaches step ok s t ∧ f t = t' := by
  induction h with
  | refl => exact ⟨s, Reaches.refl s, rfl⟩
  | tail _ hnext ih =>
    obtain ⟨u, hu, rfl⟩ := ih
    obtain ⟨b, hb, hmove⟩ := hnext
    obtain ⟨a, v, ha, hv, rfl⟩ := hstep u b _ hb hmove
    exact ⟨v, hu.tail ha hv, rfl⟩

/-- Runs of a step function that mirrors `step'` through `f` come from runs of `step'`. -/
theorem Reaches.lift {σ' : Type} {f : σ' → σ} {step' : σ' → α → Option σ'}
    (hstep : ∀ s' a, step (f s') a = (step' s' a).map f) {s' : σ'}
    (h : Reaches step ok (f s') t) :
    ∃ t', Reaches step' (fun u a => ok (f u) a) s' t' ∧ f t' = t := by
  refine h.extend fun u a v ha hs => ?_
  rw [hstep] at hs
  obtain ⟨v', hv', rfl⟩ := Option.map_eq_some_iff.mp hs
  exact ⟨a, v', ha, hv', rfl⟩

/-- A run of a system of several parts is a run of each part: a step moves the part or leaves
it as it is. -/
theorem Reaches.project {σ' α' : Type} {f : σ → σ'} {step' : σ' → α' → Option σ'}
    {ok' : σ' → α' → Prop} (hstep : ∀ u a v, ok u a → step u a = some v →
      f v = f u ∨ ∃ b, ok' (f u) b ∧ step' (f u) b = some (f v))
    (h : Reaches step ok s t) : Reaches step' ok' (f s) (f t) := by
  induction h with
  | refl => exact Reaches.refl (f s)
  | tail _ hnext ih =>
    obtain ⟨a, ha, hs⟩ := hnext
    rcases hstep _ a _ ha hs with hsame | ⟨b, hb, hmove⟩
    · rw [hsame]
      exact ih
    · exact ih.tail hb hmove

/-! ## What can still happen -/

/-- Some run from `s` whose steps all meet `ok` leads to a state with `G`. -/
def Leads (step : σ → α → Option σ) (ok : σ → α → Prop) (G : σ → Prop) (s : σ) : Prop :=
  ∃ t, Reaches step ok s t ∧ G t

section Leads

variable {G : σ → Prop}

/-- What holds already is led to. -/
theorem Leads.here (h : G s) : Leads step ok G s := ⟨s, Reaches.refl s, h⟩

/-- One step on the way. -/
theorem Leads.head {a : α} (ha : ok s a) (hs : step s a = some t) (h : Leads step ok G t) :
    Leads step ok G s := by
  obtain ⟨u, hu, hG⟩ := h
  exact ⟨u, ((Reaches.refl s).tail ha hs).trans hu, hG⟩

/-- What is led to may be weakened. -/
theorem Leads.imp {G' : σ → Prop} (hG : ∀ t, G t → G' t) (h : Leads step ok G s) :
    Leads step ok G' s := by
  obtain ⟨t, ht, hGt⟩ := h
  exact ⟨t, ht, hG t hGt⟩

/-- So may what is asked of the steps. -/
theorem Leads.mono {ok' : σ → α → Prop} (hok : ∀ u a, ok u a → ok' u a) (h : Leads step ok G s) :
    Leads step ok' G s := by
  obtain ⟨t, ht, hGt⟩ := h
  exact ⟨t, ht.mono hok, hGt⟩

/-- What the steps of the run keep still holds where it leads. -/
theorem Leads.keep {J : σ → Prop} (h : Leads step ok G s) (h0 : J s)
    (hstep : ∀ u a v, J u → ok u a → step u a = some v → J v) :
    Leads step ok (fun t => J t ∧ G t) s := by
  obtain ⟨t, ht, hG⟩ := h
  exact ⟨t, ht, ht.invariant h0 hstep, hG⟩

/-- What a system can still do, a system that moves in step with it through `f` can do too. -/
theorem Leads.map {σ' : Type} {f : σ' → σ} {step' : σ' → α → Option σ'}
    (hstep : ∀ s' a, step (f s') a = (step' s' a).map f) {s' : σ'}
    (h : Leads step' (fun u a => ok (f u) a) (fun u => G (f u)) s') : Leads step ok G (f s') := by
  obtain ⟨t', ht', hG⟩ := h
  refine ⟨f t', ht'.project fun u a v ha hv => Or.inr ⟨a, ha, ?_⟩, hG⟩
  rw [hstep, hv]
  rfl

end Leads

/-! ## Recording a run -/

/-- The system together with a record of its run: what `note` reads off each step, in order. -/
def recording {β : Type} (step : σ → α → Option σ) (note : σ → α → List β) (p : σ × List β)
    (a : α) : Option (σ × List β) := (step p.1 a).map fun t => (t, p.2 ++ note p.1 a)

section Recording

variable {β : Type} {note : σ → α → List β} {p q : σ × List β}

/-- A recorded step is a step, with its note. -/
theorem recording_eq_some {a : α} (h : recording step note p a = some q) :
    step p.1 a = some q.1 ∧ q.2 = p.2 ++ note p.1 a := by
  obtain ⟨t, ht, rfl⟩ := Option.map_eq_some_iff.mp h
  exact ⟨ht, rfl⟩

/-- A record only grows. -/
theorem Reaches.record_prefix {ok : σ × List β → α → Prop}
    (h : Reaches (recording step note) ok p q) : p.2 <+: q.2 := by
  have hstep : ∀ u a v, p.2 <+: u.2 → ok u a → recording step note u a = some v →
      p.2 <+: v.2 := by
    intro u a v hu _ hv
    rw [(recording_eq_some hv).2]
    exact hu.trans (List.prefix_append _ _)
  have hrefl : p.2 <+: p.2 := List.prefix_rfl
  induction h with
  | refl => exact hrefl
  | tail _ hnext ih =>
    obtain ⟨a, ha, hv⟩ := hnext
    exact hstep _ a _ ih ha hv

/-- Every run can be recorded. -/
theorem Reaches.record (h : Reaches step ok s t) (notes : List β) :
    ∃ notes', Reaches (recording step note) (fun p a => ok p.1 a) (s, notes) (t, notes') := by
  induction h with
  | refl => exact ⟨notes, Reaches.refl _⟩
  | @tail u v _ hnext ih =>
    obtain ⟨a, ha, hs⟩ := hnext
    obtain ⟨notes', hrun⟩ := ih
    refine ⟨notes' ++ note u a, hrun.tail ha ?_⟩
    rw [recording, hs]
    rfl

end Recording

/-! ## Noninterference -/

/-- The unwinding rule, for a total step function: a relation that visible actions keep when
they are made on both sides, and hidden ones when they are made on the left only, relates a
run to the run of its visible actions. -/
theorem foldl_filter_related {next : σ → α → σ} {visible : α → Bool} {R : σ → σ → Prop}
    (hvisible : ∀ s t a, R s t → visible a = true → R (next s a) (next t a))
    (hhidden : ∀ s t a, R s t → visible a = false → R (next s a) t) (as : List α)
    (h : R s t) : R (as.foldl next s) ((as.filter visible).foldl next t) := by
  induction as generalizing s t with
  | nil => exact h
  | cons a as ih =>
    by_cases ha : visible a = true
    · rw [List.filter_cons_of_pos ha]
      exact ih (hvisible s t a h ha)
    · rw [List.filter_cons_of_neg ha]
      exact ih (hhidden s t a h (by simpa using ha))

/-- Replay a list of actions; `none` as soon as one is not enabled or misses the
condition. -/
def run (step : σ → α → Option σ) (ok : σ → α → Prop) [∀ s a, Decidable (ok s a)] :
    σ → List α → Option σ
  | s, [] => some s
  | s, a :: as => if ok s a then (step s a).bind (run step ok · as) else none

/-- A run that goes through reaches its end. -/
theorem reaches_of_run [∀ s a, Decidable (ok s a)] {as : List α}
    (h : run step ok s as = some t) : Reaches step ok s t := by
  induction as generalizing s with
  | nil =>
    simp only [run, Option.some.injEq] at h
    exact h ▸ Reaches.refl s
  | cons a as ih =>
    simp only [run] at h
    split at h
    · rename_i hok
      obtain ⟨u, hu, hrun⟩ := Option.bind_eq_some_iff.mp h
      exact (Reaches.tail (Reaches.refl s) hok hu).trans (ih hrun)
    · cases h

/-- A replayed run whose last state passes the test `p` reaches a state where `p` holds. -/
theorem exists_reaches_of_run [∀ s a, Decidable (ok s a)] {as : List α} {p : σ → Bool}
    (h : (run step ok s as).map p = some true) : ∃ t, Reaches step ok s t ∧ p t = true := by
  obtain ⟨t, ht, hp⟩ := Option.map_eq_some_iff.mp h
  exact ⟨t, reaches_of_run ht, hp⟩

/-- A replayed run that is cut in two, with a test on the state at the cut and the last one. -/
theorem exists_reaches_of_runs {ok' : σ → α → Prop} [∀ s a, Decidable (ok s a)]
    [∀ s a, Decidable (ok' s a)] {as bs : List α} {p : σ → σ → Bool}
    (h : ((run step ok s as).bind fun u => (run step ok' u bs).map (p u)) = some true) :
    ∃ u t, Reaches step ok s u ∧ Reaches step ok' u t ∧ p u t = true := by
  obtain ⟨u, hu, hrest⟩ := Option.bind_eq_some_iff.mp h
  obtain ⟨t, ht, hp⟩ := Option.map_eq_some_iff.mp hrest
  exact ⟨u, t, reaches_of_run hu, reaches_of_run ht, hp⟩

end Transition
