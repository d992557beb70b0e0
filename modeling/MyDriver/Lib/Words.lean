import Mathlib.Data.BitVec
import Mathlib.Logic.Function.Basic
import Mathlib.Tactic.LinearCombination

/-!
# Masked words and word memory

A word that carries several fields is updated by masking one field in and another out; a memory is
a function from addresses to words. The lemmas here say when such updates leave the rest alone.

* `merge_and_left`, `merge_and_right` — a word put together from two disjoint masks gives each of
  them back.
* `Apart k a b` — the blocks of `k` bytes at `a` and at `b` do not overlap, also not around the
  end of the address space.
* `Apart.add_ne` — addresses inside blocks that are apart differ, so writes do not meet.
-/

namespace Words

variable {w : ℕ}

/-! ## Masks -/

theorem and_and_of_disjoint {a b : BitVec w} (h : a &&& b = 0) (x : BitVec w) :
    x &&& a &&& b = 0 := by
  rw [BitVec.and_assoc, h]
  exact BitVec.and_zero

theorem merge_and_left {a b : BitVec w} (h : a &&& b = 0) (x y : BitVec w) :
    (x &&& a ||| y &&& b) &&& a = x &&& a := by
  have hb : y &&& b &&& a = 0 := and_and_of_disjoint (by rwa [BitVec.and_comm]) y
  rw [BitVec.and_or_distrib_right, hb, BitVec.and_assoc, BitVec.and_self]
  exact BitVec.or_zero

theorem merge_and_right {a b : BitVec w} (h : a &&& b = 0) (x y : BitVec w) :
    (x &&& a ||| y &&& b) &&& b = y &&& b := by
  rw [BitVec.or_comm]
  exact merge_and_left (by rwa [BitVec.and_comm]) y x

/-- A mask inside another one sees through it. -/
theorem and_and_of_sub {a c : BitVec w} (h : a &&& c = c) (x : BitVec w) :
    x &&& a &&& c = x &&& c := by
  rw [BitVec.and_assoc, h]

/-! ## Blocks of memory -/

/-- The blocks of `k` bytes at `a` and at `b` do not overlap. -/
def Apart (k : ℕ) (a b : BitVec w) : Prop := k ≤ (a - b).toNat ∧ k ≤ (b - a).toNat

theorem Apart.symm {k : ℕ} {a b : BitVec w} (h : Apart k a b) : Apart k b a := ⟨h.2, h.1⟩

theorem Apart.ne {k : ℕ} {a b : BitVec w} (h : Apart k a b) (hk : 0 < k) : a ≠ b := by
  rintro rfl
  have h1 := h.1
  rw [BitVec.sub_self] at h1
  simp at h1
  omega

/-- Addresses inside blocks that are apart differ. -/
theorem Apart.add_ne {k : ℕ} {a b x y : BitVec w} (h : Apart k a b) (hx : x.toNat < k)
    (hy : y.toNat < k) : a + x ≠ b + y := by
  intro hab
  obtain ⟨h1, h2⟩ := h
  have e1 : a - b = y - x := by linear_combination hab
  have e2 : b - a = x - y := by linear_combination -hab
  rw [e1, BitVec.toNat_sub] at h1
  rw [e2, BitVec.toNat_sub] at h2
  have hxw := x.isLt
  have hyw := y.isLt
  rcases Nat.le_total x.toNat y.toNat with hxy | hxy
  · rw [show 2 ^ w - x.toNat + y.toNat = (y.toNat - x.toNat) + 2 ^ w by omega,
      Nat.add_mod_right, Nat.mod_eq_of_lt (by omega)] at h1
    omega
  · rw [show 2 ^ w - y.toNat + x.toNat = (x.toNat - y.toNat) + 2 ^ w by omega,
      Nat.add_mod_right, Nat.mod_eq_of_lt (by omega)] at h2
    omega

/-- Writing one word of a block leaves the other words of the block alone. -/
theorem update_offset {β : Type*} {a x y : BitVec w} (h : x ≠ y) (m : BitVec w → β) (v : β) :
    Function.update m (a + x) v (a + y) = m (a + y) := by
  refine Function.update_of_ne (fun hxy => h ?_) _ _
  exact ((BitVec.add_right_inj a).1 hxy).symm

end Words
