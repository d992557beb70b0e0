import Mathlib.Data.List.Basic
import Mathlib.Order.Basic

/-!
# Runs of labelled step functions

A system is a partial step function `step : σ → α → Option σ`: the label `α` carries every choice
the environment makes (which actor moves, what the hardware answers), so a step is a function and
a run is a list of labels. `none` means the label is not enabled in the state.

* `run` — the state a list of labels leads to.
* `Along ok` — every step of the run is taken in a state, and with a label, that satisfies `ok`.
* `run_inv` — **the induction rule**: what each admissible step keeps, every admissible run keeps.
* `along_congr` — conditions that agree under an invariant.
* `throughout_iff_along` — when a condition on the steps is exactly what an invariant needs.
-/

namespace Runs

variable {σ τ α : Type*}

/-- The state after a list of labels; `none` when some label is not enabled. -/
def run (step : σ → α → Option σ) : σ → List α → Option σ
  | s, [] => some s
  | s, a :: as => (step s a).bind fun s' => run step s' as

@[simp] theorem run_nil (step : σ → α → Option σ) (s : σ) : run step s [] = some s := rfl

theorem run_cons (step : σ → α → Option σ) (s : σ) (a : α) (as : List α) :
    run step s (a :: as) = (step s a).bind fun s' => run step s' as := rfl

theorem run_cons_eq_some {step : σ → α → Option σ} {s t : σ} {a : α} {as : List α} :
    run step s (a :: as) = some t ↔ ∃ s', step s a = some s' ∧ run step s' as = some t := by
  simp [run_cons, Option.bind_eq_some_iff]

theorem run_append (step : σ → α → Option σ) (s : σ) (as bs : List α) :
    run step s (as ++ bs) = (run step s as).bind fun s' => run step s' bs := by
  induction as generalizing s with
  | nil => rfl
  | cons a as ih =>
    simp only [List.cons_append, run_cons, Option.bind_assoc]
    congr 1
    funext s'
    exact ih s'

/-- Every step of the run satisfies `ok` in the state it is taken from. -/
def Along (step : σ → α → Option σ) (ok : σ → α → Prop) : σ → List α → Prop
  | _, [] => True
  | s, a :: as => ok s a ∧ ∀ s', step s a = some s' → Along step ok s' as

@[simp] theorem along_nil (step : σ → α → Option σ) (ok : σ → α → Prop) (s : σ) :
    Along step ok s [] := trivial

theorem along_cons {step : σ → α → Option σ} {ok : σ → α → Prop} {s : σ} {a : α} {as : List α} :
    Along step ok s (a :: as) ↔ ok s a ∧ ∀ s', step s a = some s' → Along step ok s' as :=
  Iff.rfl

theorem along_cons_of_step {step : σ → α → Option σ} {ok : σ → α → Prop} {s s' : σ} {a : α}
    {as : List α} (hs' : step s a = some s') :
    Along step ok s (a :: as) ↔ ok s a ∧ Along step ok s' as := by
  rw [along_cons]
  refine and_congr_right fun _ => ⟨fun h => h s' hs', fun h t ht => ?_⟩
  rw [hs', Option.some.injEq] at ht
  exact ht ▸ h

theorem along_cons_of_none {step : σ → α → Option σ} {ok : σ → α → Prop} {s : σ} {a : α}
    {as : List α} (hs : step s a = none) : Along step ok s (a :: as) ↔ ok s a := by
  rw [along_cons]
  refine ⟨And.left, fun h => ⟨h, fun t ht => ?_⟩⟩
  rw [hs] at ht
  cases ht

instance decidableAlong (step : σ → α → Option σ) (ok : σ → α → Prop)
    [∀ s a, Decidable (ok s a)] : (s : σ) → (as : List α) → Decidable (Along step ok s as)
  | _, [] => .isTrue trivial
  | s, a :: as =>
    match hs : step s a with
    | none => decidable_of_iff _ (along_cons_of_none hs).symm
    | some s' =>
      have := decidableAlong step ok s' as
      decidable_of_iff _ (along_cons_of_step hs).symm

/-- **The induction rule for runs**, relative to a condition on the steps. -/
theorem run_inv {step : σ → α → Option σ} {p : σ → α → Prop} {I : σ → Prop}
    (hstep : ∀ s a s', I s → p s a → step s a = some s' → I s')
    {s t : σ} {as : List α} (hs : I s) (hok : Along step p s as)
    (hrun : run step s as = some t) : I t := by
  induction as generalizing s with
  | nil =>
    rw [run_nil, Option.some.injEq] at hrun
    exact hrun ▸ hs
  | cons a as ih =>
    obtain ⟨s', hs', hrest⟩ := run_cons_eq_some.1 hrun
    obtain ⟨ha, htail⟩ := hok
    exact ih (hstep s a s' hs ha hs') (htail s' hs') hrest

/-- The unconditional induction rule. -/
theorem run_inv' {step : σ → α → Option σ} {I : σ → Prop}
    (hstep : ∀ s a s', I s → step s a = some s' → I s')
    {s t : σ} {as : List α} (hs : I s) (hrun : run step s as = some t) : I t := by
  refine run_inv (p := fun _ _ => True) (fun s a s' h _ => hstep s a s' h) hs ?_ hrun
  clear hrun
  induction as generalizing s with
  | nil => trivial
  | cons a as ih => exact ⟨trivial, fun s' hs' => ih (hstep s a s' hs hs')⟩

theorem along_and {step : σ → α → Option σ} {p q : σ → α → Prop} {s : σ} {as : List α}
    (hp : Along step p s as) (hq : Along step q s as) :
    Along step (fun s a => p s a ∧ q s a) s as := by
  induction as generalizing s with
  | nil => trivial
  | cons a as ih => exact ⟨⟨hp.1, hq.1⟩, fun s' hs' => ih (hp.2 s' hs') (hq.2 s' hs')⟩

/-- A condition that does not depend on the state. -/
theorem along_of_forall {step : σ → α → Option σ} {p : σ → α → Prop} {s : σ} {as : List α}
    (h : ∀ a ∈ as, ∀ s, p s a) : Along step p s as := by
  induction as generalizing s with
  | nil => trivial
  | cons a as ih =>
    obtain ⟨ha, has⟩ := List.forall_mem_cons.1 h
    exact ⟨ha s, fun s' _ => ih has⟩

/-- Conditions that agree in every state that satisfies an invariant agree along every run, if the
steps that satisfy the second one keep the invariant. -/
theorem along_congr_of {step : σ → α → Option σ} {p q : σ → α → Prop} {I : σ → Prop}
    (hstep : ∀ s a s', I s → q s a → step s a = some s' → I s')
    (hpq : ∀ s a, I s → (p s a ↔ q s a)) {s : σ} {as : List α} (hs : I s) :
    Along step p s as ↔ Along step q s as := by
  induction as generalizing s with
  | nil => exact Iff.rfl
  | cons a as ih =>
    rw [along_cons, along_cons, hpq s a hs]
    exact and_congr_right fun ha => forall₂_congr fun s' hs' => ih (hstep s a s' hs ha hs')

theorem along_congr {step : σ → α → Option σ} {p q : σ → α → Prop} {I : σ → Prop}
    (hstep : ∀ s a s', I s → step s a = some s' → I s') (hpq : ∀ s a, I s → (p s a ↔ q s a))
    {s : σ} {as : List α} (hs : I s) : Along step p s as ↔ Along step q s as :=
  along_congr_of (fun s a s' h _ => hstep s a s' h) hpq hs

/-- The state reached by every initial part of the run satisfies `I`. -/
def Throughout (step : σ → α → Option σ) (I : σ → Prop) (s : σ) (as : List α) : Prop :=
  ∀ bs cs t, as = bs ++ cs → run step s bs = some t → I t

/-- **Exact conditions**: if a step from `I` leads to `I` exactly when it satisfies `p`, then a run
stays in `I` exactly when all its steps satisfy `p`. -/
theorem throughout_iff_along {step : σ → α → Option σ} {p : σ → α → Prop} {I : σ → Prop}
    (hstep : ∀ s a s', I s → step s a = some s' → (I s' ↔ p s a)) {s t : σ} {as : List α}
    (hs : I s) (hrun : run step s as = some t) : Throughout step I s as ↔ Along step p s as := by
  induction as generalizing s with
  | nil =>
    refine ⟨fun _ => trivial, fun _ bs cs u has hu => ?_⟩
    obtain ⟨rfl, -⟩ := List.append_eq_nil_iff.1 has.symm
    rw [run_nil, Option.some.injEq] at hu
    exact hu ▸ hs
  | cons a as ih =>
    obtain ⟨s', hs', hrest⟩ := run_cons_eq_some.1 hrun
    rw [along_cons_of_step hs']
    constructor
    · intro h
      have hI : I s' := h [a] as s' rfl (run_cons_eq_some.2 ⟨s', hs', rfl⟩)
      refine ⟨(hstep s a s' hs hs').1 hI, (ih hI hrest).1 fun bs cs u has hu => ?_⟩
      exact h (a :: bs) cs u (by rw [has, List.cons_append]) (run_cons_eq_some.2 ⟨s', hs', hu⟩)
    · rintro ⟨ha, htail⟩ bs cs u has hu
      have hI : I s' := (hstep s a s' hs hs').2 ha
      cases bs with
      | nil =>
        rw [run_nil, Option.some.injEq] at hu
        exact hu ▸ hs
      | cons b bs =>
        rw [List.cons_append, List.cons.injEq] at has
        obtain ⟨rfl, has⟩ := has
        obtain ⟨s'', hs'', hu⟩ := run_cons_eq_some.1 hu
        rw [hs', Option.some.injEq] at hs''
        subst hs''
        exact (ih hI hrest).2 htail bs cs u has hu

/-- **Runs that end**: a label that is enabled until `done` and lowers a measure leads there. -/
theorem exists_run_replicate {step : σ → α → Option σ} {a : α} {I done : σ → Prop} (m : σ → ℕ)
    (hstep : ∀ s, I s → ¬ done s → ∃ s', step s a = some s' ∧ I s' ∧ m s' < m s) {s : σ}
    (hs : I s) : ∃ n s', run step s (List.replicate n a) = some s' ∧ done s' := by
  induction hk : m s using Nat.strongRecOn generalizing s with
  | ind k ih =>
    by_cases hdone : done s
    · exact ⟨0, s, rfl, hdone⟩
    · obtain ⟨t, ht, hI, hlt⟩ := hstep s hs hdone
      obtain ⟨n, s', hrun, hs'⟩ := ih (m t) (hk ▸ hlt) hI rfl
      exact ⟨n + 1, s', run_cons_eq_some.2 ⟨t, ht, hrun⟩, hs'⟩

end Runs
