import Mathlib.Algebra.BigOperators.Group.Finset.Piecewise
import Mathlib.Algebra.Order.BigOperators.Group.Finset
import Mathlib.Data.Finset.Lattice.Fold
import Mathlib.Order.Lattice.Nat

/-!
# Queues served in rounds

A round takes one element from each queue that has one. There is a budget: an element costs one,
and so does a round that goes to its end. `taken c p` is what a budget `c` pays for when `p` are the
lengths of the queues.

* `taken_round`, `taken_last` — round by round.
* `taken_eq_min_iff` — **when as much is taken as if the rounds were free**.
-/

namespace Rounds

open Finset

variable {ι : Type*} [Fintype ι] {c : ℕ} {p : ι → ℕ}

/-- The queues that have an element. -/
def busy (p : ι → ℕ) : ℕ := #{j | 0 < p j}

/-- What the first `r` rounds find. -/
def found (p : ι → ℕ) (r : ℕ) : ℕ := ∑ j, min (p j) r

/-- Before round `r` begins, `r` rounds are paid for. -/
def taken (c : ℕ) (p : ι → ℕ) : ℕ := (range c).sup fun r => min (c - r) (found p (r + 1))

/-- The first round comes before the others. -/
theorem found_succ (p : ι → ℕ) (r : ℕ) : found p (r + 1) = busy p + found (fun j => p j - 1) r := by
  rw [found, busy, found, card_filter, ← sum_add_distrib]
  apply sum_congr rfl
  intro j _
  split_ifs with hj
  · omega
  · omega

theorem found_zero (p : ι → ℕ) : found p 0 = 0 := by
  rw [found]
  simp only [Nat.min_zero, sum_const_zero]

theorem found_one (p : ι → ℕ) : found p 1 = busy p := by
  rw [found_succ, found_zero, add_zero]

theorem found_le_sum (p : ι → ℕ) (r : ℕ) : found p r ≤ ∑ j, p j :=
  sum_le_sum fun j _ => min_le_left (p j) r

/-- Everything is found as soon as the longest queue is empty. -/
theorem found_eq_sum_iff {r : ℕ} : found p r = ∑ j, p j ↔ univ.sup p ≤ r := by
  rw [found, sum_eq_sum_iff_of_le fun j _ => min_le_left (p j) r, Finset.sup_le_iff]
  simp only [min_eq_left_iff]

theorem longest_le_sum (p : ι → ℕ) : univ.sup p ≤ ∑ j, p j :=
  Finset.sup_le fun _ hj => single_le_sum (fun i _ => Nat.zero_le (p i)) hj

/-- A round that begins contributes. -/
theorem le_taken {r : ℕ} (hr : r < c) : min (c - r) (found p (r + 1)) ≤ taken c p :=
  le_sup (f := fun r => min (c - r) (found p (r + 1))) (mem_range.2 hr)

theorem taken_le_iff {n : ℕ} : taken c p ≤ n ↔ ∀ r < c, min (c - r) (found p (r + 1)) ≤ n := by
  rw [taken, Finset.sup_le_iff]
  simp only [mem_range]

/-- The budget ends within the first round. -/
theorem taken_last (h : c ≤ busy p) : taken c p = c := by
  apply le_antisymm
  · exact taken_le_iff.2 fun r _ => (min_le_left _ _).trans (Nat.sub_le c r)
  · obtain rfl | hpos := Nat.eq_zero_or_pos c
    · exact Nat.zero_le _
    · have hfirst := le_taken (p := p) hpos
      rw [found_one, Nat.sub_zero, min_eq_left h] at hfirst
      exact hfirst

/-- The first round goes to its end. -/
theorem taken_round (h : busy p < c) :
    taken c p = busy p + taken (c - busy p - 1) fun j => p j - 1 := by
  apply le_antisymm
  · rw [taken_le_iff]
    intro r hr
    cases r with
    | zero =>
      rw [found_one]
      exact (min_le_right _ _).trans (Nat.le_add_right _ _)
    | succ r =>
      rw [found_succ]
      by_cases hbegins : r < c - busy p - 1
      · have hrest := le_taken (p := fun j => p j - 1) hbegins
        omega
      · -- The round before used up the budget.
        omega
  · have hfirst := le_taken (p := p) (Nat.zero_lt_of_lt h)
    rw [found_one, Nat.sub_zero, min_eq_right h.le] at hfirst
    have hrest : taken (c - busy p - 1) (fun j => p j - 1) ≤ taken c p - busy p := by
      rw [taken_le_iff]
      intro r hr
      have hround := le_taken (p := p) (show r + 1 < c by omega)
      rw [found_succ] at hround
      omega
    omega

/-- **Enough for everything.** The budget takes as much as if the rounds were free if it ends
within the first round, or pays for all elements and for the rounds before the last. -/
theorem taken_eq_min_iff :
    taken c p = min c (∑ j, p j) ↔ c ≤ busy p ∨ ∑ j, p j + univ.sup p ≤ c + 1 := by
  have hbusy : busy p ≤ ∑ j, p j := by
    rw [← found_one]
    exact found_le_sum p 1
  have hlongest := longest_le_sum p
  constructor
  · intro htaken
    obtain rfl | hpos := Nat.eq_zero_or_pos c
    · exact Or.inl (Nat.zero_le _)
    -- `r` is the round in which the last element is taken.
    obtain ⟨r, hr, hlast⟩ := exists_mem_eq_sup (range c) ⟨0, mem_range.2 hpos⟩
      fun r => min (c - r) (found p (r + 1))
    rw [mem_range] at hr
    rw [taken, hlast] at htaken
    by_cases hmore : c ≤ ∑ j, p j
    · obtain rfl : r = 0 := by omega
      rw [found_one] at htaken
      left
      omega
    · have hfound := found_le_sum p (r + 1)
      have hall : univ.sup p ≤ r + 1 := found_eq_sum_iff.1 (by omega)
      right
      omega
  · intro h
    apply le_antisymm
    · rw [taken_le_iff]
      intro r hr
      have hfound := found_le_sum p (r + 1)
      omega
    · obtain hfirst | hall := h
      · rw [taken_last hfirst]
        exact min_le_left _ _
      · obtain hnone | hsome := Nat.eq_zero_or_pos (univ.sup p)
        · rw [← found_eq_sum_iff.2 hnone.le, found_zero]
          exact (min_le_right _ _).trans (Nat.zero_le _)
        · have hlast := le_taken (c := c) (p := p) (r := univ.sup p - 1) (by omega)
          rw [found_eq_sum_iff.2 (by omega)] at hlast
          omega

end Rounds
