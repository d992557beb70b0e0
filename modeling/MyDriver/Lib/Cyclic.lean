import Mathlib.Data.List.Basic
import Mathlib.Data.List.Nodup
import Mathlib.Data.List.Range
import Mathlib.Data.Nat.ModEq

/-!
# Objects arranged on a circle

`n` objects stand on a circle. `f x` is the object at position `x`, where positions are all
natural numbers and `x`, `x + n`, `x + 2n`, … are the same place. Counting laps this way keeps the
arithmetic of circular buffers linear: a pointer that moves forward by `k` goes from `x` to `x + k`
whether or not it passes the end of the buffer.

* `IsCircle f n` — `f` is such an arrangement.
* `arc f x k` — the `k` objects from position `x` on.
* `arc_append` — neighbouring arcs join up.
* `arc_nodup`, `arc_perm` — an arc of at most one lap repeats nothing, and an arc of a whole lap
  lists every object exactly once, wherever it starts.
-/

namespace Cyclic

variable {α β : Type*} {f : ℕ → α} {n : ℕ}

/-- `f` places `n` distinct objects on a circle. -/
structure IsCircle (f : ℕ → α) (n : ℕ) : Prop where
  pos : 0 < n
  period : ∀ x, f (x + n) = f x
  inj : ∀ x y, x < n → y < n → f x = f y → x = y

namespace IsCircle

theorem mod (h : IsCircle f n) (x : ℕ) : f (x % n) = f x := by
  induction x using Nat.strong_induction_on with
  | _ x ih =>
    by_cases hx : x < n
    · rw [Nat.mod_eq_of_lt hx]
    · obtain ⟨y, rfl⟩ : ∃ y, x = y + n := ⟨x - n, by omega⟩
      have hpos := h.pos
      rw [Nat.add_mod_right, h.period, ih y (by omega)]

theorem eq_iff (h : IsCircle f n) {x y : ℕ} : f x = f y ↔ x % n = y % n := by
  constructor
  · intro hxy
    refine h.inj _ _ (Nat.mod_lt _ h.pos) (Nat.mod_lt _ h.pos) ?_
    rw [h.mod, h.mod, hxy]
  · intro hxy
    rw [← h.mod x, hxy, h.mod]

/-- Two positions less than a lap apart are the same place only when they are equal. -/
theorem eq_of_lt_lap (h : IsCircle f n) {x i j : ℕ} (hi : i < n) (hj : j < n)
    (hxy : f (x + i) = f (x + j)) : i = j := by
  have hmod : x + i ≡ x + j [MOD n] := h.eq_iff.1 hxy
  exact Nat.ModEq.eq_of_lt_of_lt (Nat.ModEq.add_left_cancel' x hmod) hi hj

theorem eq_of_near (h : IsCircle f n) {x i j : ℕ} (hij : i ≤ j) (hlt : j < i + n)
    (hxy : f (x + i) = f (x + j)) : i = j := by
  obtain ⟨d, rfl⟩ := Nat.exists_eq_add_of_le hij
  rw [← Nat.add_assoc, ← Nat.add_zero (x + i), Nat.add_assoc (x + i), Nat.zero_add] at hxy
  have := h.eq_of_lt_lap h.pos (by omega) hxy
  omega

theorem congr_add (h : IsCircle f n) {x y : ℕ} (hxy : f x = f y) (k : ℕ) :
    f (x + k) = f (y + k) :=
  h.eq_iff.2 (Nat.ModEq.add_right k (h.eq_iff.1 hxy))

end IsCircle

/-- The `k` objects from position `x` on. -/
def arc (f : ℕ → α) (x k : ℕ) : List α := (List.range' x k).map f

@[simp] theorem arc_zero (f : ℕ → α) (x : ℕ) : arc f x 0 = [] := rfl

theorem arc_succ (f : ℕ → α) (x k : ℕ) : arc f x (k + 1) = f x :: arc f (x + 1) k := rfl

@[simp] theorem length_arc (f : ℕ → α) (x k : ℕ) : (arc f x k).length = k := by simp [arc]

theorem arc_append (f : ℕ → α) (x j k : ℕ) : arc f x j ++ arc f (x + j) k = arc f x (j + k) := by
  simp [arc, ← List.map_append, List.range'_append_1]

theorem mem_arc {x k : ℕ} {a : α} : a ∈ arc f x k ↔ ∃ i < k, f (x + i) = a := by
  simp only [arc, List.mem_map, List.mem_range'_1]
  constructor
  · rintro ⟨y, ⟨h₁, h₂⟩, rfl⟩
    exact ⟨y - x, by omega, by congr 1; omega⟩
  · rintro ⟨i, hi, rfl⟩
    exact ⟨x + i, by omega, rfl⟩

theorem getElem_arc {x k i : ℕ} (hi : i < (arc f x k).length) : (arc f x k)[i] = f (x + i) := by
  simp [arc]

theorem take_arc (f : ℕ → α) {x j k : ℕ} (hjk : j ≤ k) : (arc f x k).take j = arc f x j := by
  obtain ⟨i, rfl⟩ := Nat.exists_eq_add_of_le hjk
  rw [← arc_append]
  exact List.take_left' (length_arc f x j)

theorem drop_arc (f : ℕ → α) {x j k : ℕ} (hjk : j ≤ k) :
    (arc f x k).drop j = arc f (x + j) (k - j) := by
  obtain ⟨i, rfl⟩ := Nat.exists_eq_add_of_le hjk
  rw [← arc_append, Nat.add_sub_cancel_left]
  exact List.drop_left' (length_arc f x j)

theorem map_arc (f : ℕ → α) (g : α → β) (x k : ℕ) : (arc f x k).map g = arc (g ∘ f) x k := by
  simp [arc]

theorem arc_congr {f g : ℕ → α} {x k : ℕ} (h : ∀ i < k, f (x + i) = g (x + i)) :
    arc f x k = arc g x k := by
  refine List.map_congr_left fun y hy => ?_
  obtain ⟨h₁, h₂⟩ := List.mem_range'_1.1 hy
  have hi := h (y - x) (by omega)
  rwa [show x + (y - x) = y by omega] at hi

theorem arc_eq_mapIdx {l : List β} {φ : ℕ → β → α} {x : ℕ}
    (h : ∀ i, (hi : i < l.length) → f (x + i) = φ i l[i]) : arc f x l.length = l.mapIdx φ := by
  refine List.ext_getElem (by simp) fun i h₁ h₂ => ?_
  rw [getElem_arc, List.getElem_mapIdx]
  exact h i (by simpa using h₁)

theorem arc_concat (f : ℕ → α) (x k : ℕ) : arc f x (k + 1) = arc f x k ++ [f (x + k)] := by
  rw [← arc_append]
  rfl

/-- An arc of a table that is read round and round may start in the first round. -/
theorem arc_mod (v : ℕ → α) (n x k : ℕ) :
    arc (fun y => v (y % n)) (x % n) k = arc (fun y => v (y % n)) x k := by
  refine List.ext_getElem (by simp) fun i _ _ => ?_
  rw [getElem_arc, getElem_arc, Nat.mod_add_mod]

/-- **An arc of at most one lap repeats nothing.** -/
theorem arc_nodup (h : IsCircle f n) {x k : ℕ} (hk : k ≤ n) : (arc f x k).Nodup := by
  refine List.Nodup.map_on (fun a ha b hb hab => ?_) List.nodup_range'
  obtain ⟨ha₁, ha₂⟩ := List.mem_range'_1.1 ha
  obtain ⟨hb₁, hb₂⟩ := List.mem_range'_1.1 hb
  rw [show a = x + (a - x) by omega, show b = x + (b - x) by omega] at hab
  have := h.eq_of_lt_lap (by omega) (by omega) hab
  omega

/-- A whole lap lists every object, wherever it starts. -/
theorem mem_arc_lap (h : IsCircle f n) (x y : ℕ) : f y ∈ arc f x n := by
  have hpos := h.pos
  refine mem_arc.2 ⟨(y + (n - x % n)) % n, Nat.mod_lt _ hpos, h.eq_iff.2 ?_⟩
  have hx := Nat.mod_lt x hpos
  have hsum : x % n + (y + (n - x % n)) = y + n := by omega
  calc (x + (y + (n - x % n)) % n) % n
      = (x % n + (y + (n - x % n)) % n) % n := (Nat.mod_add_mod x n _).symm
    _ = (x % n + (y + (n - x % n))) % n := Nat.add_mod_mod _ _ _
    _ = y % n := by rw [hsum, Nat.add_mod_right]

/-- **A whole lap is the same collection, wherever it starts.** -/
theorem arc_perm (h : IsCircle f n) (x y : ℕ) : (arc f x n).Perm (arc f y n) := by
  refine (List.perm_ext_iff_of_nodup (arc_nodup h le_rfl) (arc_nodup h le_rfl)).2 fun a => ?_
  constructor <;> intro ha <;> obtain ⟨i, -, rfl⟩ := mem_arc.1 ha <;> exact mem_arc_lap h _ _

end Cyclic
