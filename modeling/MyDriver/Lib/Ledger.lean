import Mathlib.Algebra.Order.Group.Multiset
import Mathlib.Data.Multiset.Count

/-!
# Ledgers

A resource that must be given back is an open obligation. A ledger is the list of what happened to
obligations, `settle` goes through it and returns what is open at its end, and fails when
something is closed that is not open. Obligations of the same kind are not told apart, so open
obligations form a multiset.

* `settle_append` — ledgers may be read piece by piece.
* `settle_opens`, `settle_closes` — opening and closing a list of obligations.
* `settle_balance` — **the books balance**: every obligation is closed as often as it is opened,
  but for those still open.
-/

namespace Ledger

variable {α : Type*}

inductive Entry (α : Type*) where
  | opens (a : α)
  | closes (a : α)
deriving DecidableEq

variable [DecidableEq α]

/-- What is open after the ledger. -/
def settle : Multiset α → List (Entry α) → Option (Multiset α)
  | M, [] => some M
  | M, .opens a :: es => settle (a ::ₘ M) es
  | M, .closes a :: es => if a ∈ M then settle (M.erase a) es else none

theorem settle_append (M : Multiset α) (es fs : List (Entry α)) :
    settle M (es ++ fs) = (settle M es).bind fun N => settle N fs := by
  induction es generalizing M with
  | nil => rfl
  | cons e es ih =>
    cases e with
    | opens a => exact ih _
    | closes a =>
      rw [List.cons_append, settle, settle]
      split_ifs
      · exact ih _
      · rfl

theorem settle_append_eq {M N K : Multiset α} {es fs : List (Entry α)} (h : settle M es = some N)
    (h' : settle N fs = some K) : settle M (es ++ fs) = some K := by
  rw [settle_append, h]
  exact h'

theorem settle_opens (l : List α) (M : Multiset α) :
    settle M (l.map Entry.opens) = some ((l : Multiset α) + M) := by
  induction l generalizing M with
  | nil => exact congrArg some (zero_add M).symm
  | cons a l ih =>
    rw [List.map_cons, settle, ih, ← Multiset.cons_coe, Multiset.add_cons, Multiset.cons_add]

theorem settle_closes (l : List α) (M : Multiset α) :
    settle ((l : Multiset α) + M) (l.map Entry.closes) = some M := by
  induction l with
  | nil => exact congrArg some (zero_add M)
  | cons a l ih =>
    rw [List.map_cons, settle, ← Multiset.cons_coe, Multiset.cons_add,
      if_pos (Multiset.mem_cons_self a _), Multiset.erase_cons_head, ih]

/-- What was opened last is closed first. -/
theorem settle_head (a : α) (M : Multiset α) (es : List (Entry α)) :
    settle (a ::ₘ M) (.closes a :: es) = settle M es := by
  rw [settle, if_pos (Multiset.mem_cons_self a M), Multiset.erase_cons_head]

/-- To close what is open and open it again changes nothing. -/
theorem settle_borrow {a : α} {M : Multiset α} (h : a ∈ M) (es : List (Entry α)) :
    settle M (.closes a :: .opens a :: es) = settle M es := by
  rw [settle, if_pos h, settle, Multiset.cons_erase h]

/-- Opening a list of obligations and closing all but the first `n`. -/
theorem settle_opens_drop (l : List α) (n : ℕ) (M : Multiset α) :
    settle M (l.map Entry.opens ++ (l.drop n).map Entry.closes) =
      some ((l.take n : Multiset α) + M) := by
  refine settle_append_eq (settle_opens l M) ?_
  have hsplit : (l : Multiset α) + M = (l.drop n : Multiset α) + ((l.take n : Multiset α) + M) := by
    rw [← add_assoc, Multiset.coe_add, ← Multiset.coe_eq_coe.2 List.perm_append_comm,
      List.take_append_drop]
  rw [hsplit]
  exact settle_closes _ _

/-- **The books balance.** -/
theorem settle_balance {M N : Multiset α} {es : List (Entry α)} (h : settle M es = some N) (a : α) :
    M.count a + es.count (.opens a) = N.count a + es.count (.closes a) := by
  induction es generalizing M with
  | nil =>
    rw [settle, Option.some.injEq] at h
    rw [h, List.count_nil, List.count_nil]
  | cons e es ih =>
    cases e with
    | opens b =>
      rw [settle] at h
      have hes := ih h
      rw [Multiset.count_cons] at hes
      simp only [List.count_cons, beq_iff_eq, Entry.opens.injEq, reduceCtorEq, if_false]
      by_cases hab : a = b
      · rw [if_pos hab] at hes
        rw [if_pos hab.symm]
        omega
      · rw [if_neg hab] at hes
        rw [if_neg (Ne.symm hab)]
        omega
    | closes b =>
      rw [settle] at h
      split_ifs at h with hb
      have hes := ih h
      simp only [List.count_cons, beq_iff_eq, Entry.closes.injEq, reduceCtorEq, if_false]
      by_cases hab : a = b
      · subst hab
        have hpos := Multiset.count_pos.2 hb
        rw [Multiset.count_erase_self] at hes
        rw [if_pos rfl]
        omega
      · rw [Multiset.count_erase_of_ne hab] at hes
        rw [if_neg (Ne.symm hab)]
        omega

end Ledger
