import Mathlib.Algebra.Order.Ring.Int
import Mathlib.Order.Monotone.Basic
import Mathlib.Tactic.Linarith
import Mathlib.Tactic.Ring

/-!
# The digital line

The points of a line of slope `m / n`, with `0 ≤ m ≤ n`, column by column: in column `i` the row is
the integer nearest to `i * m / n`, and the lower one if there are two.

* `height_eq_iff` — the row, by the remainder it leaves.
* `height_succ` — the row of the next column, which is the same or the next.
* `height_last` — in column `n` the line is in row `m`.
* `error_succ` — **the error term**, whose sign tells which it is, from one column to the next.
-/

namespace Digital

/-- The row in column `i`. -/
def height (n m : ℤ) (i : ℕ) : ℤ := -((n - 2 * (m * i)) / (2 * n))

variable {n m : ℤ} {i : ℕ}

theorem height_eq_iff (hn : 0 < n) {k : ℤ} :
    height n m i = k ↔ -n < 2 * (m * i - n * k) ∧ 2 * (m * i - n * k) ≤ n := by
  have hq : height n m i = k ↔ (n - 2 * (m * i)) / (2 * n) = -k := by
    unfold height
    omega
  rw [hq, Int.ediv_eq_iff_of_pos (by omega)]
  constructor
  · rintro ⟨hle, hlt⟩
    constructor <;> linarith
  · rintro ⟨hlt, hle⟩
    constructor <;> linarith

theorem height_zero (hn : 0 ≤ n) : height n m 0 = 0 := by
  rcases hn.eq_or_lt with rfl | hn
  · simp [height]
  · refine (height_eq_iff hn).2 ?_
    simp only [Nat.cast_zero, mul_zero, sub_zero]
    omega

/-- The row is half a step away at most. -/
theorem height_near (hm : 0 ≤ m) (hmn : m ≤ n) (i : ℕ) :
    -n ≤ 2 * (m * i - n * height n m i) ∧ 2 * (m * i - n * height n m i) ≤ n := by
  rcases (hm.trans hmn).eq_or_lt with rfl | hn
  · obtain rfl : m = 0 := hmn.antisymm hm
    simp
  · obtain ⟨hlt, hle⟩ := (height_eq_iff hn).1 (rfl : height n m i = _)
    exact ⟨hlt.le, hle⟩

/-- **The next column.** -/
theorem height_succ (hm : 0 ≤ m) (hmn : m ≤ n) (i : ℕ) :
    height n m (i + 1) =
      if n < 2 * (m * (i + 1) - n * height n m i) then height n m i + 1 else height n m i := by
  rcases (hm.trans hmn).eq_or_lt with rfl | hn
  · obtain rfl : m = 0 := hmn.antisymm hm
    simp [height]
  · obtain ⟨hlt, hle⟩ := (height_eq_iff hn).1 (rfl : height n m i = _)
    rw [height_eq_iff hn]
    push_cast
    split_ifs <;> constructor <;> linarith

theorem height_mono (hm : 0 ≤ m) (hmn : m ≤ n) {i j : ℕ} (hij : i ≤ j) :
    height n m i ≤ height n m j := by
  refine monotone_nat_of_le_succ (fun k => ?_) hij
  rw [height_succ hm hmn]
  split_ifs <;> omega

/-- **The last column.** -/
theorem height_last (hm : 0 ≤ m) (hmn : m ≤ n) : height n m n.toNat = m := by
  rcases (hm.trans hmn).eq_or_lt with rfl | hn
  · obtain rfl : m = 0 := hmn.antisymm hm
    exact height_zero le_rfl
  · rw [height_eq_iff hn, Int.toNat_of_nonneg hn.le]
    constructor <;> linarith [mul_comm m n]

/-- How far the line is above the middle of row `height n m i` and the next in column `i + 1`, in
units of `1 / n`. -/
def error (n m : ℤ) (i : ℕ) : ℤ := m * (i + 1) - n * height n m i - n / 2

theorem error_zero (hn : 0 ≤ n) : error n m 0 = m - n / 2 := by
  simp [error, height_zero hn]

theorem error_bounds (hm : 0 ≤ m) (hmn : m ≤ n) (i : ℕ) :
    m - n ≤ error n m i ∧ error n m i ≤ m := by
  have hnear := height_near hm hmn i
  rw [error, mul_add, mul_one]
  omega

theorem height_of_error (hm : 0 ≤ m) (hmn : m ≤ n) (i : ℕ) :
    height n m (i + 1) = if 0 < error n m i then height n m i + 1 else height n m i := by
  rw [height_succ hm hmn, error]
  refine if_congr ?_ rfl rfl
  omega

theorem error_succ (hm : 0 ≤ m) (hmn : m ≤ n) (i : ℕ) :
    error n m (i + 1) = (if 0 < error n m i then error n m i - n else error n m i) + m := by
  have hnext := height_of_error hm hmn i
  rw [error, hnext]
  push_cast
  split_ifs <;> unfold error <;> ring

end Digital
