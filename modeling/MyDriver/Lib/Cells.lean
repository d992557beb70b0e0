import Mathlib.Data.List.Basic

/-!
# Independent cells of one state

Cells are parts of a state that are read and written one at a time. What is written into a cell may
be normalised (`norm`), and the cells may have values of different types. They are independent when
a cell that was just written gives back what was written, and no other cell notices
(`Independent`).

* `Independent.run_last` — after any writes, a cell gives back the last one of its own.
* `Independent.run_none` — without one, what it held at first.
* `Independent.run_filter` — the writes of the other cells could be left out.
-/

namespace Cells

variable {σ κ : Type*} {V : κ → Type*}

/-- A cell and what is written into it. -/
abbrev Write (V : κ → Type*) := (k : κ) × V k

/-- One write after the other. -/
def run (put : σ → (k : κ) → V k → σ) (s : σ) (writes : List (Write V)) : σ :=
  writes.foldl (fun s x => put s x.1 x.2) s

/-- No cell is affected by the writes of another one. -/
structure Independent (get : σ → (k : κ) → V k) (put : σ → (k : κ) → V k → σ)
    (norm : (k : κ) → V k → V k) : Prop where
  same : ∀ s k v, get (put s k v) k = norm k v
  other : ∀ s j k v, j ≠ k → get (put s k v) j = get s j

namespace Independent

variable {get : σ → (k : κ) → V k} {put : σ → (k : κ) → V k → σ} {norm : (k : κ) → V k → V k}

theorem run_none (h : Independent get put norm) (s : σ) {k : κ} {writes : List (Write V)}
    (hnone : ∀ x ∈ writes, x.1 ≠ k) : get (run put s writes) k = get s k := by
  induction writes generalizing s with
  | nil => rfl
  | cons x writes ih =>
    have hrest : ∀ y ∈ writes, y.1 ≠ k := fun y hy => hnone y (List.mem_cons_of_mem _ hy)
    calc get (run put s (x :: writes)) k
        = get (put s x.1 x.2) k := ih (put s x.1 x.2) hrest
      _ = get s k := h.other s k x.1 x.2 (hnone x List.mem_cons_self).symm

/-- **The last write counts.** -/
theorem run_last (h : Independent get put norm) (s : σ) {k : κ} (before : List (Write V)) (v : V k)
    {after : List (Write V)} (hafter : ∀ x ∈ after, x.1 ≠ k) :
    get (run put s (before ++ ⟨k, v⟩ :: after)) k = norm k v := by
  rw [run, List.foldl_append, List.foldl_cons]
  exact (h.run_none _ hafter).trans (h.same _ k v)

/-- What a cell holds depends on what it held and on its own writes. -/
theorem run_congr (h : Independent get put norm) [DecidableEq κ] {s s' : σ} {k : κ}
    (hs : get s k = get s' k) (writes : List (Write V)) :
    get (run put s writes) k = get (run put s' (writes.filter fun x => x.1 = k)) k := by
  induction writes generalizing s s' with
  | nil => exact hs
  | cons x writes ih =>
    by_cases hx : x.1 = k
    · have hput : get (put s x.1 x.2) k = get (put s' x.1 x.2) k := by
        subst hx
        rw [h.same, h.same]
      rw [List.filter_cons_of_pos (by simpa using hx)]
      exact ih hput
    · have hput : get (put s x.1 x.2) k = get s' k := by
        rw [h.other s k x.1 x.2 (Ne.symm hx), hs]
      rw [List.filter_cons_of_neg (by simpa using hx)]
      exact ih hput

theorem run_filter (h : Independent get put norm) [DecidableEq κ] (s : σ) (k : κ)
    (writes : List (Write V)) :
    get (run put s writes) k = get (run put s (writes.filter fun x => x.1 = k)) k :=
  h.run_congr rfl writes

end Independent

end Cells
