import Mathlib.Tactic.Linarith
import Mathlib.Tactic.Ring
import MyDriver.Lib.Cyclic
import MyDriver.Xdma.BdRing

/-!
# Where the BDs of a ring are

`Laid r` says that `r` describes a block of BDs which does not run past the end of the address
space; `bdAt r x` is the address of the BD at position `x`, counted in laps. The BDs of a laid ring
stand on a circle (`Laid.circle`), BDs at different places do not overlap (`Laid.apart`), and the
three ways of moving agree with positions:

* `Laid.next` — `bdRingNext` goes from `x` to `x + 1`,
* `Laid.seekahead` — `ringSeekahead` by `k` goes from `x` to `x + k`,
* `Laid.seekback` — `ringSeekback` by `k` goes from `x + k` to `x`.

The two seek functions compute modulo `2 ^ 32`. They are right for every `k` up to the size of the
ring, also when the ring ends exactly at `2 ^ 32` and when its size in bytes is `2 ^ 32`.
-/

namespace Dma

open Cyclic Words

/-- The fields of `r` describe a block of BDs inside the address space. -/
structure Laid (r : BdRing) : Prop where
  cnt_pos : 0 < r.allCnt.toNat
  sep : 64 ≤ r.separation.toNat
  fits : r.firstBdAddr.toNat + r.separation.toNat * r.allCnt.toNat ≤ 2 ^ 32
  last : r.lastBdAddr.toNat = r.firstBdAddr.toNat + r.separation.toNat * (r.allCnt.toNat - 1)
  length : r.length = r.separation * r.allCnt

/-- The address of the BD at position `x`, counted in laps. -/
def bdAt (r : BdRing) (x : ℕ) : U32 :=
  r.firstBdAddr + r.separation * BitVec.ofNat 32 (x % r.allCnt.toNat)

theorem bdAt_zero (r : BdRing) : bdAt r 0 = r.firstBdAddr := by simp [bdAt]

namespace Laid

variable {r : BdRing}

/-- The BD at place `i` ends before the BD at a later place `j` begins. -/
theorem place_le (r : BdRing) {i j : ℕ} (hij : i < j) :
    r.separation.toNat * i + r.separation.toNat ≤ r.separation.toNat * j := by
  rw [← Nat.mul_succ]
  exact Nat.mul_le_mul_left _ hij

theorem toNat_place (h : Laid r) {i : ℕ} (hi : i < r.allCnt.toNat) :
    (r.firstBdAddr + r.separation * BitVec.ofNat 32 i).toNat =
      r.firstBdAddr.toNat + r.separation.toNat * i := by
  have hfits := h.fits
  have hsep := h.sep
  have hmul := place_le r hi
  have hcnt := r.allCnt.isLt
  rw [BitVec.toNat_add, BitVec.toNat_mul, BitVec.toNat_ofNat, Nat.mod_eq_of_lt (a := i) (by omega),
    Nat.mod_eq_of_lt (a := _ * i) (by omega), Nat.mod_eq_of_lt (by omega)]

theorem toNat_bdAt (h : Laid r) (x : ℕ) :
    (bdAt r x).toNat = r.firstBdAddr.toNat + r.separation.toNat * (x % r.allCnt.toNat) :=
  h.toNat_place (Nat.mod_lt _ h.cnt_pos)

/-- **The BDs of a laid ring stand on a circle.** -/
theorem circle (h : Laid r) : IsCircle (bdAt r) r.allCnt.toNat where
  pos := h.cnt_pos
  period x := by rw [bdAt, bdAt, Nat.add_mod_right]
  inj x y hx hy hxy := by
    have hsep := h.sep
    have heq := congrArg BitVec.toNat hxy
    rw [h.toNat_bdAt, h.toNat_bdAt, Nat.mod_eq_of_lt hx, Nat.mod_eq_of_lt hy] at heq
    exact Nat.eq_of_mul_eq_mul_left (by omega) (Nat.add_left_cancel heq)

/-- **BDs at different places do not overlap.** -/
theorem apart (h : Laid r) {x y : ℕ} (hxy : bdAt r x ≠ bdAt r y) :
    Apart 64 (bdAt r x) (bdAt r y) := by
  have hsep := h.sep
  have hfits := h.fits
  have hx := h.toNat_bdAt x
  have hy := h.toNat_bdAt y
  have hne : x % r.allCnt.toNat ≠ y % r.allCnt.toNat := fun heq => hxy (h.circle.eq_iff.2 heq)
  have hxn := place_le r (Nat.mod_lt x h.cnt_pos)
  have hyn := place_le r (Nat.mod_lt y h.cnt_pos)
  generalize x % r.allCnt.toNat = i at *
  generalize y % r.allCnt.toNat = j at *
  rw [Apart, BitVec.toNat_sub, BitVec.toNat_sub, hx, hy]
  rcases Nat.lt_or_gt_of_ne hne with hij | hij
  · have hmul := place_le r hij
    generalize r.separation.toNat * i = a at *
    generalize r.separation.toNat * j = b at *
    omega
  · have hmul := place_le r hij
    generalize r.separation.toNat * i = a at *
    generalize r.separation.toNat * j = b at *
    omega

/-! ## Moving -/

theorem mod_add (h : Laid r) (x : ℕ) {k : ℕ} (hk : k ≤ r.allCnt.toNat) :
    (x + k) % r.allCnt.toNat =
      if x % r.allCnt.toNat + k < r.allCnt.toNat then x % r.allCnt.toNat + k
      else x % r.allCnt.toNat + k - r.allCnt.toNat := by
  have hx := Nat.mod_lt x h.cnt_pos
  rw [← Nat.mod_add_mod]
  split_ifs with hlt
  · exact Nat.mod_eq_of_lt hlt
  · rw [Nat.mod_eq_sub_mod (by omega), Nat.mod_eq_of_lt (by omega)]

theorem next (h : Laid r) (x : ℕ) : bdRingNext r (bdAt r x) = bdAt r (x + 1) := by
  have hsep := h.sep
  have hfits := h.fits
  have hcnt := h.cnt_pos
  have hmod := h.mod_add x (k := 1) (by omega)
  have hx := h.toNat_bdAt x
  have hxn := Nat.mod_lt x h.cnt_pos
  unfold bdRingNext
  by_cases hlast : x % r.allCnt.toNat + 1 < r.allCnt.toNat
  · have hle := place_le r (show x % r.allCnt.toNat < r.allCnt.toNat - 1 by omega)
    rw [if_neg (by rw [BitVec.le_def, hx, h.last]; omega)]
    apply BitVec.eq_of_toNat_eq
    have hmul := place_le r (show r.allCnt.toNat - 1 < r.allCnt.toNat by omega)
    rw [BitVec.toNat_add, hx, h.toNat_bdAt, hmod, if_pos hlast, Nat.mul_succ,
      Nat.mod_eq_of_lt (by omega), Nat.add_assoc]
  · have heq : x % r.allCnt.toNat = r.allCnt.toNat - 1 := by omega
    rw [if_pos (by rw [BitVec.le_def, hx, h.last, heq])]
    rw [← bdAt_zero]
    refine h.circle.eq_iff.2 ?_
    rw [hmod, if_neg hlast, Nat.zero_mod]
    omega

theorem iterate_next (h : Laid r) (x k : ℕ) : (bdRingNext r)^[k] (bdAt r x) = bdAt r (x + k) := by
  induction k generalizing x with
  | zero => rfl
  | succ k ih => rw [Function.iterate_succ_apply, h.next, ih]; congr 1; omega

theorem prev (h : Laid r) (x : ℕ) : bdRingPrev r (bdAt r (x + 1)) = bdAt r x := by
  have hsep := h.sep
  have hfits := h.fits
  have hcnt := h.cnt_pos
  have hmod := h.mod_add x (k := 1) (by omega)
  have hx := h.toNat_bdAt (x + 1)
  have hxn := place_le r (Nat.mod_lt x h.cnt_pos)
  unfold bdRingPrev
  by_cases hlast : x % r.allCnt.toNat + 1 < r.allCnt.toNat
  · rw [hmod, if_pos hlast, Nat.mul_succ] at hx
    rw [if_neg (by rw [BitVec.le_def, hx]; omega)]
    apply BitVec.eq_of_toNat_eq
    rw [BitVec.toNat_sub, hx, h.toNat_bdAt]
    omega
  · have heq : x % r.allCnt.toNat = r.allCnt.toNat - 1 := by
      have := Nat.mod_lt x h.cnt_pos
      omega
    rw [hmod, if_neg hlast, heq, show r.allCnt.toNat - 1 + 1 - r.allCnt.toNat = 0 by omega] at hx
    rw [if_pos (by rw [BitVec.le_def, hx]; omega)]
    apply BitVec.eq_of_toNat_eq
    rw [h.last, h.toNat_bdAt, heq]

theorem iterate_prev (h : Laid r) (x k : ℕ) : (bdRingPrev r)^[k] (bdAt r (x + k)) = bdAt r x := by
  induction k with
  | zero => rfl
  | succ k ih => rw [Function.iterate_succ_apply, ← Nat.add_assoc, h.prev, ih]

/-- A BD is also that many BDs behind another one, counted on by a lap. -/
theorem exists_behind (h : Laid r) (x : ℕ) {k : ℕ} (hk : k ≤ r.allCnt.toNat) :
    ∃ y, bdAt r x = bdAt r (y + k) := by
  refine ⟨x + (r.allCnt.toNat - k), ?_⟩
  rw [Nat.add_assoc, Nat.sub_add_cancel hk]
  exact (h.circle.period x).symm

/-- The length of the ring in bytes, modulo the address space. -/
theorem toNat_length (h : Laid r) :
    r.length.toNat = r.separation.toNat * r.allCnt.toNat % 2 ^ 32 := by
  rw [h.length, BitVec.toNat_mul]

/-- The bytes that count when `num` BDs are passed: from the start of the ring to the first BD (`a`)
and to the last (`a'`), between them (`b`), and in the whole ring (`len`). -/
theorem bytes (h : Laid r) (x : ℕ) (num : U32) (hk : num.toNat ≤ r.allCnt.toNat) :
    ∃ a a' b len : ℕ,
      (bdAt r x).toNat = r.firstBdAddr.toNat + a ∧
      (bdAt r (x + num.toNat)).toNat = r.firstBdAddr.toNat + a' ∧
      (r.separation * num).toNat = b % 2 ^ 32 ∧ r.length.toNat = len % 2 ^ 32 ∧
      r.lastBdAddr.toNat + r.separation.toNat = r.firstBdAddr.toNat + len ∧
      r.firstBdAddr.toNat + len ≤ 2 ^ 32 ∧ a + r.separation.toNat ≤ len ∧ b ≤ len ∧
      (a' = a + b ∧ a' + r.separation.toNat ≤ len ∨ a' + len = a + b) := by
  have hcnt := h.cnt_pos
  have hlast := place_le r (show r.allCnt.toNat - 1 < r.allCnt.toNat by omega)
  have hsucc : r.separation.toNat * (r.allCnt.toNat - 1) + r.separation.toNat =
      r.separation.toNat * r.allCnt.toNat := by
    rw [← Nat.mul_succ, Nat.succ_eq_add_one, Nat.sub_add_cancel hcnt]
  refine ⟨_, _, r.separation.toNat * num.toNat, r.separation.toNat * r.allCnt.toNat,
    h.toNat_bdAt x, h.toNat_bdAt _, BitVec.toNat_mul .., h.toNat_length, ?_, h.fits,
    place_le r (Nat.mod_lt x hcnt), Nat.mul_le_mul_left _ hk, ?_⟩
  · rw [h.last, Nat.add_assoc, hsucc]
  · rw [h.mod_add x hk]
    split_ifs with hin
    · exact Or.inl ⟨Nat.mul_add _ _ _, place_le r hin⟩
    · right
      rw [← Nat.mul_add, ← Nat.mul_add, Nat.sub_add_cancel (not_lt.1 hin)]

/-- **Seeking ahead by at most one lap.** -/
theorem seekahead (h : Laid r) (x : ℕ) (num : U32) (hk : num.toNat ≤ r.allCnt.toNat) :
    ringSeekahead r (bdAt r x) num = bdAt r (x + num.toNat) := by
  have hsep := h.sep
  obtain ⟨a, a', b, len, hx, hy, hmul, hlen, hlast, hfits, ha, hb, hwhere⟩ := h.bytes x num hk
  have haddr : (bdAt r x + r.separation * num).toNat =
      (r.firstBdAddr.toNat + a + b % 2 ^ 32) % 2 ^ 32 := by
    rw [BitVec.toNat_add, hx, hmul]
  apply BitVec.eq_of_toNat_eq
  unfold ringSeekahead
  dsimp only
  rw [hy]
  split_ifs with hwrap
  · -- Past the last BD: the sum is too large, or has wrapped, and `Length` is taken off.
    rw [BitVec.lt_def, BitVec.lt_def, haddr, hx] at hwrap
    rw [BitVec.toNat_sub, haddr, hlen]
    omega
  · -- No wrap: the sum stays inside the ring.
    rw [BitVec.lt_def, BitVec.lt_def, haddr, hx] at hwrap
    rw [haddr]
    omega

/-- **Seeking back by at most one lap.** -/
theorem seekback (h : Laid r) (x : ℕ) (num : U32) (hk : num.toNat ≤ r.allCnt.toNat) :
    ringSeekback r (bdAt r (x + num.toNat)) num = bdAt r x := by
  have hsep := h.sep
  have hfirst := r.firstBdAddr.isLt
  obtain ⟨a, a', b, len, hx, hy, hmul, hlen, hlast, hfits, ha, hb, hwhere⟩ := h.bytes x num hk
  have haddr : (bdAt r (x + num.toNat) - r.separation * num).toNat =
      (2 ^ 32 - b % 2 ^ 32 + (r.firstBdAddr.toNat + a')) % 2 ^ 32 := by
    rw [BitVec.toNat_sub, hy, hmul]
  apply BitVec.eq_of_toNat_eq
  unfold ringSeekback
  dsimp only
  rw [hx]
  split_ifs with hwrap
  · rw [BitVec.lt_def, BitVec.lt_def, haddr, hy] at hwrap
    rw [BitVec.toNat_add, haddr, hlen]
    omega
  · rw [BitVec.lt_def, BitVec.lt_def, haddr, hy] at hwrap
    rw [haddr]
    omega

end Laid

end Dma
