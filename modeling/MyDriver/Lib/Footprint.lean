import MyDriver.Lib.Runs
import Mathlib.Data.Set.BooleanAlgebra
import Mathlib.Data.Set.Piecewise
import Mathlib.Order.CompletePartialOrder

/-!
# Components that share a memory

Any number of components work on one memory, each in a part of its own, and on a common state that
every one of them may change.

* `patch S m₀ m` — the memory `m` in `S`, and `m₀` outside.
* `Component` — a step function that neither reads nor writes outside of its `foot`, as long as its
  own state keeps to `inv` and its steps to `ok`.
* `Component.frame` — what a step leaves alone.
* `run_alone` — **each component goes through the states it would go through alone**, with the
  changes of the common state by the others as steps of an environment.
* `run_outside` — and what belongs to none is never written.
-/

namespace Footprint

open Runs

variable {α β π γ κ ι : Type*}

/-! ## Memory put together -/

open Classical in
/-- The memory `m` in `S`, and `m₀` outside. -/
noncomputable def patch (S : Set α) (m₀ m : α → β) : α → β := S.piecewise m m₀

variable {S : Set α} {m₀ m : α → β} {a : α}

theorem patch_inside (h : a ∈ S) : patch S m₀ m a = m a := by
  classical exact Set.piecewise_eq_of_mem S m m₀ h

theorem patch_outside (h : a ∉ S) : patch S m₀ m a = m₀ a := by
  classical exact Set.piecewise_eq_of_notMem S m m₀ h

@[simp] theorem patch_same (S : Set α) (m : α → β) : patch S m m = m := by
  classical exact Set.piecewise_same S m

/-- A memory that agrees with `m` in `S`. -/
theorem patch_of_eqOn {m' : α → β} (h : S.EqOn m' m) : patch S m' m = m' := by
  funext a
  by_cases ha : a ∈ S
  · rw [patch_inside ha, h ha]
  · rw [patch_outside ha]

theorem patch_update [DecidableEq α] (h : a ∈ S) (m₀ m : α → β) (v : β) :
    Function.update (patch S m₀ m) a v = patch S m₀ (Function.update m a v) := by
  funext b
  by_cases hb : b = a
  · rw [hb, Function.update_self, patch_inside h, Function.update_self]
  · rw [Function.update_of_ne hb]
    by_cases hS : b ∈ S
    · rw [patch_inside hS, patch_inside hS, Function.update_of_ne hb]
    · rw [patch_outside hS, patch_outside hS]

/-! ## Components -/

/-- A component: `π` is its own state, `γ` the common one, `κ` the labels of its steps. -/
structure Component (π γ κ α β : Type*) where
  step : π → γ → (α → β) → κ → Option (π × γ × (α → β))
  foot : Set α
  inv : π → Prop
  ok : π → κ → Prop
  keeps : ∀ {p g m k t}, inv p → ok p k → step p g m k = some t → inv t.1
  confined : ∀ {p k}, inv p → ok p k → ∀ g m₀ m,
    step p g (patch foot m₀ m) k = (step p g m k).map fun t => (t.1, t.2.1, patch foot m₀ t.2.2)

namespace Component

variable (c : Component π γ κ α β)

/-- The component alone: the environment may change the common state. -/
def alone : π × γ × (α → β) → κ ⊕ γ → Option (π × γ × (α → β))
  | (p, g, m), .inl k => c.step p g m k
  | (p, _, m), .inr g => some (p, g, m)

variable {c} {p : π} {g : γ} {k : κ} {t : π × γ × (α → β)}

/-- Outside of its part a step writes nothing. -/
theorem frame (hinv : c.inv p) (hok : c.ok p k) (hstep : c.step p g m k = some t)
    (ha : a ∉ c.foot) : t.2.2 a = m a := by
  have hpatch := c.confined hinv hok g m m
  rw [patch_same, hstep, Option.map_some, Option.some.injEq] at hpatch
  rw [congrArg (fun t => t.2.2 a) hpatch]
  exact patch_outside ha

/-- A step in another memory that is the same in its part. -/
theorem transfer {m' : α → β} (hinv : c.inv p) (hok : c.ok p k) (hstep : c.step p g m k = some t)
    (hm : c.foot.EqOn m' m) : c.step p g m' k = some (t.1, t.2.1, patch c.foot m' t.2.2) := by
  rw [← patch_of_eqOn hm, c.confined hinv hok, hstep, patch_of_eqOn hm, Option.map_some]

end Component

/-! ## Systems of components -/

/-- The state of the components together. -/
structure System (ι π γ α β : Type*) where
  parts : ι → π
  common : γ
  mem : α → β

variable [DecidableEq ι] (f : ι → π → γ → (α → β) → κ → Option (π × γ × (α → β)))

/-- A step of one component; `f` are the steps of them all. -/
def step (s : System ι π γ α β) (x : ι × κ) : Option (System ι π γ α β) :=
  (f x.1 (s.parts x.1) s.common s.mem x.2).map fun t =>
    { parts := Function.update s.parts x.1 t.1, common := t.2.1, mem := t.2.2 }

/-- What a run is for one of the components. -/
def seen (i : ι) : System ι π γ α β → List (ι × κ) → List (κ ⊕ γ)
  | _, [] => []
  | s, x :: acts =>
    match step f s x with
    | none => []
    | some s' => (if x.1 = i then .inl x.2 else .inr s'.common) :: seen i s' acts

variable {cs : ι → Component π γ κ α β} {s s' : System ι π γ α β} {x : ι × κ} {acts : List (ι × κ)}

theorem step_inv (hinv : ∀ i, (cs i).inv (s.parts i)) (hok : (cs x.1).ok (s.parts x.1) x.2)
    (hstep : step (fun i => (cs i).step) s x = some s') (i : ι) : (cs i).inv (s'.parts i) := by
  obtain ⟨t, ht, rfl⟩ := Option.map_eq_some_iff.1 hstep
  by_cases hi : i = x.1
  · subst hi
    dsimp only
    rw [Function.update_self]
    exact (cs x.1).keeps (hinv _) hok ht
  · dsimp only
    rw [Function.update_of_ne hi]
    exact hinv i

/-- What belongs to none is never written. -/
theorem run_outside (hinv : ∀ i, (cs i).inv (s.parts i))
    (hok : Along (step fun i => (cs i).step) (fun s x => (cs x.1).ok (s.parts x.1) x.2) s acts)
    (hrun : run (step fun i => (cs i).step) s acts = some s') (ha : ∀ i, a ∉ (cs i).foot) :
    s'.mem a = s.mem a := by
  induction acts generalizing s with
  | nil =>
    rw [run_nil, Option.some.injEq] at hrun
    rw [hrun]
  | cons x acts ih =>
    obtain ⟨s₁, hs₁, hrest⟩ := run_cons_eq_some.1 hrun
    obtain ⟨hx, htail⟩ := (along_cons_of_step hs₁).1 hok
    rw [ih (step_inv hinv hx hs₁) htail hrest]
    obtain ⟨t, ht, rfl⟩ := Option.map_eq_some_iff.1 hs₁
    exact Component.frame (hinv _) hx ht (ha x.1)

/-- **Each component runs as it would alone**, in a memory that need agree with the shared one in
its own part only. -/
theorem run_alone (hapart : Pairwise fun i j => Disjoint (cs i).foot (cs j).foot)
    (hinv : ∀ i, (cs i).inv (s.parts i))
    (hok : Along (step fun i => (cs i).step) (fun s x => (cs x.1).ok (s.parts x.1) x.2) s acts)
    (hrun : run (step fun i => (cs i).step) s acts = some s') (i : ι)
    (hm : (cs i).foot.EqOn m s.mem) :
    ∃ m', run (cs i).alone (s.parts i, s.common, m) (seen (fun i => (cs i).step) i s acts) =
      some (s'.parts i, s'.common, m') ∧ (cs i).foot.EqOn m' s'.mem := by
  induction acts generalizing s m with
  | nil =>
    rw [run_nil, Option.some.injEq] at hrun
    subst hrun
    exact ⟨m, rfl, hm⟩
  | cons x acts ih =>
    obtain ⟨s₁, hs₁, hrest⟩ := run_cons_eq_some.1 hrun
    obtain ⟨hx, htail⟩ := (along_cons_of_step hs₁).1 hok
    have hinv₁ := step_inv hinv hx hs₁
    obtain ⟨t, ht, hs⟩ := Option.map_eq_some_iff.1 hs₁
    rw [seen, hs₁]
    dsimp only
    by_cases hi : x.1 = i
    · subst hi
      have halone := Component.transfer (hinv _) hx ht hm
      have hparts : s₁.parts x.1 = t.1 := by
        rw [← hs]
        exact Function.update_self _ _ _
      obtain ⟨m', hr, hm'⟩ := ih (m := patch (cs x.1).foot m t.2.2) hinv₁ htail hrest fun a ha => by
        rw [patch_inside ha, ← hs]
      refine ⟨m', run_cons_eq_some.2 ⟨_, ?_, hr⟩, hm'⟩
      rw [if_pos rfl, hparts, ← hs]
      exact halone
    · have hparts : s₁.parts i = s.parts i := by
        rw [← hs]
        exact Function.update_of_ne (Ne.symm hi) _ _
      obtain ⟨m', hr, hm'⟩ := ih (m := m) hinv₁ htail hrest fun a ha => by
        have hother : a ∉ (cs x.1).foot := Set.disjoint_right.1 (hapart hi) ha
        rw [hm ha, ← hs]
        exact (Component.frame (hinv _) hx ht hother).symm
      refine ⟨m', run_cons_eq_some.2 ⟨_, ?_, hr⟩, hm'⟩
      rw [if_neg hi, hparts]
      rfl

end Footprint
