import Mathlib.Data.List.Basic

/-!
# Streams in blocks

A stream is read in blocks of `n`, one behind the other. What is behind the last whole block is the
beginning of the next one.

* `blocks n l` — the whole blocks of `l`.
* `blocks_append`, `blocks_concat` — the stream goes on, by less than a block or by one.
-/

namespace Blocks

variable {α : Type*} {n : ℕ} {l part b : List α}

def block (n : ℕ) (l : List α) (k : ℕ) : List α := (l.drop (n * k)).take n

def blocks (n : ℕ) (l : List α) : List (List α) := (List.range (l.length / n)).map (block n l)

theorem block_bound {k : ℕ} (hk : k < l.length / n) : n * k + n ≤ l.length := by
  have hle := Nat.mul_le_mul_left n (Nat.succ_le_of_lt hk)
  rw [Nat.mul_succ] at hle
  exact Nat.le_trans hle (Nat.mul_div_le l.length n)

theorem block_append {k : ℕ} (hk : k < l.length / n) : block n (l ++ part) k = block n l k := by
  have hbound := block_bound hk
  unfold block
  rw [List.drop_append_of_le_length (by omega), List.take_append_of_le_length]
  rw [List.length_drop]
  omega

/-- Less than a block. -/
theorem blocks_append (hn : 0 < n) (hl : n ∣ l.length) (hpart : part.length < n) :
    blocks n (l ++ part) = blocks n l := by
  obtain ⟨q, hq⟩ := hl
  have hdiv : (l ++ part).length / n = l.length / n := by
    rw [List.length_append, hq, Nat.mul_add_div hn, Nat.div_eq_of_lt hpart, Nat.add_zero,
      Nat.mul_div_cancel_left q hn]
  unfold blocks
  rw [hdiv]
  exact List.map_congr_left fun k hk => block_append (List.mem_range.1 hk)

/-- One block more. -/
theorem blocks_concat (hn : 0 < n) (hl : n ∣ l.length) (hpart : part.length = n) :
    blocks n (l ++ part) = blocks n l ++ [part] := by
  obtain ⟨q, hq⟩ := hl
  have hdiv : (l ++ part).length / n = l.length / n + 1 := by
    rw [List.length_append, hpart, Nat.add_div_right _ hn]
  have hlast : block n (l ++ part) (l.length / n) = part := by
    rw [block, hq, Nat.mul_div_cancel_left q hn, ← hq, List.drop_left, ← hpart, List.take_length]
  unfold blocks
  rw [hdiv, List.range_succ, List.map_append, List.map_singleton, hlast]
  exact congrArg (· ++ [part])
    (List.map_congr_left fun k hk => block_append (List.mem_range.1 hk))

theorem mem_blocks (h : b ∈ blocks n l) : b.length = n ∧ ∀ a ∈ b, a ∈ l := by
  obtain ⟨k, hk, rfl⟩ := List.mem_map.1 h
  have hbound := block_bound (List.mem_range.1 hk)
  refine ⟨?_, fun a ha => List.mem_of_mem_drop (List.mem_of_mem_take ha)⟩
  rw [block, List.length_take, List.length_drop]
  omega

end Blocks
