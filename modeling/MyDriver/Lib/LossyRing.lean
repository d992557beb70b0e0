import Mathlib.Data.Int.ModEq
import Mathlib.Data.List.Basic
import Mathlib.Logic.Function.Basic

/-!
# Ring buffers that overwrite their oldest element

A buffer of `max` slots with a read index, a write index and a count. A full buffer takes a new
element in the place of its oldest one. `Contents max b l` says that the elements waiting in `b`,
oldest first, are `l`.

A `Track` is such a buffer with its history: what was put in, what was taken out, what was
overwritten.

* `Contents.push`, `Contents.pop` — the buffer is a bounded queue.
* `Track.Good.push`, `Track.Good.pop` — **everything put in is taken out, overwritten or waiting**,
  and it left in the order in which it came.
-/

/-- The count may be taken below zero. -/
structure LossyRing (α : Type*) where
  slot : ℕ → α
  read : ℕ
  write : ℕ
  num : ℤ

namespace LossyRing

variable {α : Type*}

/-! ## The buffer -/

/-- The next index. Below `max`, a test for `max = i + 1` is the same. -/
def succ (max i : ℕ) : ℕ := if max ≤ i + 1 then 0 else i + 1

/-- The new element goes into its slot. -/
def store (max : ℕ) (b : LossyRing α) (x : α) : LossyRing α :=
  { b with slot := Function.update b.slot b.write x, write := succ max b.write }

/-- The count follows, or the read index if the count found was the maximum. -/
def bump (max : ℕ) (b : LossyRing α) (found : ℤ) : LossyRing α :=
  if found < max then { b with num := found + 1 } else { b with read := succ max b.read }

def push (max : ℕ) (b : LossyRing α) (x : α) : LossyRing α := bump max (store max b x) b.num

def front (b : LossyRing α) : α := b.slot b.read

def pop (max : ℕ) (b : LossyRing α) : LossyRing α :=
  { b with num := b.num - 1, read := succ max b.read }

/-- What is waiting, oldest first. -/
structure Contents (max : ℕ) (b : LossyRing α) (l : List α) : Prop where
  num : b.num = l.length
  le : l.length ≤ max
  read : b.read < max
  write : b.write = (b.read + l.length) % max
  slot : ∀ i (hi : i < l.length), b.slot ((b.read + i) % max) = l[i]

variable {max : ℕ} {b : LossyRing α} {l : List α} {a x : α}

theorem succ_eq {r : ℕ} (h : r < max) : succ max r = (r + 1) % max := by
  rw [succ]
  split_ifs with hge
  · rw [show r + 1 = max by omega, Nat.mod_self]
  · rw [Nat.mod_eq_of_lt (by omega)]

theorem succ_mod {i : ℕ} (h : 0 < max) : succ max (i % max) = (i + 1) % max := by
  rw [succ_eq (Nat.mod_lt i h), Nat.mod_add_mod]

theorem empty_contents (slot : ℕ → α) (h : 0 < max) :
    Contents max { slot := slot, read := 0, write := 0, num := 0 } [] :=
  ⟨rfl, Nat.zero_le _, h, (Nat.zero_mod _).symm, fun i hi => by cases hi⟩

/-- Indices less than a lap apart are different. -/
theorem slot_ne {i j : ℕ} (hij : i < j) (hj : j < max) (r : ℕ) : (r + i) % max ≠ (r + j) % max := by
  intro heq
  have hmod : (r + i) ≡ (r + j) [MOD max] := heq
  have hcancel := Nat.ModEq.add_left_cancel' r hmod
  rw [Nat.ModEq, Nat.mod_eq_of_lt (by omega), Nat.mod_eq_of_lt hj] at hcancel
  omega

theorem Contents.front (h : Contents max b (a :: l)) : b.front = a := by
  have hslot := h.slot 0 (Nat.succ_pos _)
  rwa [Nat.add_zero, Nat.mod_eq_of_lt h.read] at hslot

/-- The oldest element leaves. -/
theorem Contents.pop (h : Contents max b (a :: l)) : Contents max (b.pop max) l := by
  have hpos : 0 < max := Nat.lt_of_le_of_lt (Nat.zero_le _) h.read
  have hle := h.le
  rw [List.length_cons] at hle
  refine ⟨?_, by omega, ?_, ?_, fun i hi => ?_⟩
  · show b.num - 1 = l.length
    rw [h.num, List.length_cons]
    omega
  · show succ max b.read < max
    rw [succ_eq h.read]
    exact Nat.mod_lt _ hpos
  · show b.write = (succ max b.read + l.length) % max
    rw [h.write, succ_eq h.read, Nat.mod_add_mod, List.length_cons]
    congr 1
    omega
  · show b.slot ((succ max b.read + i) % max) = l[i]
    have hslot := h.slot (i + 1) (by rw [List.length_cons]; omega)
    rw [List.getElem_cons_succ] at hslot
    rw [succ_eq h.read, Nat.mod_add_mod, ← hslot]
    congr 2
    omega

/-- A new element comes in, in the place of the oldest if the buffer is full. -/
theorem Contents.push (h : Contents max b l) (x : α) :
    Contents max (b.push max x) ((if l.length < max then l else l.tail) ++ [x]) := by
  have hpos : 0 < max := Nat.lt_of_le_of_lt (Nat.zero_le _) h.read
  have hnum := h.num
  rw [LossyRing.push, bump]
  by_cases hroom : l.length < max
  · have hfound : b.num < max := by omega
    rw [if_pos hroom, if_pos hfound]
    refine ⟨?_, ?_, h.read, ?_, fun i hi => ?_⟩
    · show b.num + 1 = ((l ++ [x]).length : ℤ)
      rw [List.length_append, List.length_singleton, hnum]
      rfl
    · rw [List.length_append, List.length_singleton]
      exact hroom
    · show succ max b.write = (b.read + (l ++ [x]).length) % max
      rw [h.write, succ_mod hpos, List.length_append, List.length_singleton]
      rfl
    · show Function.update b.slot b.write x ((b.read + i) % max) = (l ++ [x])[i]
      rw [List.length_append, List.length_singleton] at hi
      by_cases hlast : i = l.length
      · subst hlast
        rw [← h.write, Function.update_self, List.getElem_concat_length rfl]
      · rw [h.write, Function.update_of_ne (slot_ne (by omega) hroom _),
          h.slot i (by omega), List.getElem_append_left]
  · have hfound : ¬ b.num < max := by omega
    have hfull : l.length = max := Nat.le_antisymm h.le (Nat.le_of_not_lt hroom)
    obtain ⟨a, l', rfl⟩ : ∃ a l', l = a :: l' := by
      cases l with
      | nil => exact absurd hpos (by rw [← hfull]; exact Nat.lt_irrefl _)
      | cons a l' => exact ⟨a, l', rfl⟩
    have hwrite : b.write = b.read := by
      rw [h.write, hfull, Nat.add_mod_right, Nat.mod_eq_of_lt h.read]
    rw [List.length_cons] at hfull
    rw [if_neg hroom, if_neg hfound, List.tail_cons]
    refine ⟨?_, ?_, ?_, ?_, fun i hi => ?_⟩
    · show b.num = ((l' ++ [x]).length : ℤ)
      rw [hnum, List.length_append, List.length_cons, List.length_singleton]
    · rw [List.length_append, List.length_singleton]
      exact le_of_eq hfull
    · show succ max b.read < max
      rw [succ_eq h.read]
      exact Nat.mod_lt _ hpos
    · show succ max b.write = (succ max b.read + (l' ++ [x]).length) % max
      rw [hwrite, succ_eq h.read, Nat.mod_add_mod, List.length_append, List.length_singleton, hfull,
        Nat.add_mod_right]
    · show Function.update b.slot b.write x ((succ max b.read + i) % max) = (l' ++ [x])[i]
      rw [List.length_append, List.length_singleton] at hi
      rw [hwrite, succ_eq h.read, Nat.mod_add_mod]
      by_cases hlast : i = l'.length
      · subst hlast
        rw [show b.read + 1 + l'.length = b.read + max by omega, Nat.add_mod_right,
          Nat.mod_eq_of_lt h.read, Function.update_self, List.getElem_concat_length rfl]
      · have hne : (b.read + 1 + i) % max ≠ b.read := by
          have hapart := slot_ne (show 0 < i + 1 by omega) (show i + 1 < max by omega) b.read
          rw [Nat.add_zero, Nat.mod_eq_of_lt h.read] at hapart
          rw [show b.read + 1 + i = b.read + (i + 1) by omega]
          exact hapart.symm
        rw [Function.update_of_ne hne, show b.read + 1 + i = b.read + (i + 1) by omega,
          h.slot (i + 1) (by rw [List.length_cons]; omega), List.getElem_cons_succ,
          List.getElem_append_left]

/-- An element that is in its slot but not counted is out of the way of one that leaves. -/
theorem Contents.front_store (h : Contents max b (a :: l)) (hroom : l.length + 1 < max) (x : α) :
    (store max b x).front = a := by
  have hne : b.read ≠ b.write := by
    have hapart := slot_ne (show 0 < l.length + 1 by omega) hroom b.read
    rw [Nat.add_zero, Nat.mod_eq_of_lt h.read] at hapart
    rw [h.write, List.length_cons]
    exact hapart
  have hfront := h.front
  show Function.update b.slot b.write x b.read = a
  rw [Function.update_of_ne hne]
  exact hfront

/-! ## The history -/

/-- Each element put in was taken out, was lost or is waiting, and they left in the order in which
they came. The flags say which of those that have left were taken out. -/
def Accounts (produced popped lost pending : List α) : Prop :=
  ∃ fates : List (α × Bool), produced = fates.map Prod.fst ++ pending ∧
    popped = (fates.filter Prod.snd).map Prod.fst ∧
    lost = (fates.filter fun f => !f.2).map Prod.fst

variable {produced popped lost pending : List α}

theorem Accounts.nil (l : List α) : Accounts l [] [] l := ⟨[], rfl, rfl, rfl⟩

theorem Accounts.produce (h : Accounts produced popped lost pending) (x : α) :
    Accounts (produced ++ [x]) popped lost (pending ++ [x]) := by
  obtain ⟨fates, hproduced, hpopped, hlost⟩ := h
  exact ⟨fates, by rw [hproduced, List.append_assoc], hpopped, hlost⟩

theorem Accounts.pop (h : Accounts produced popped lost (a :: pending)) :
    Accounts produced (popped ++ [a]) lost pending := by
  obtain ⟨fates, hproduced, hpopped, hlost⟩ := h
  refine ⟨fates ++ [(a, true)], ?_, ?_, ?_⟩
  · rw [hproduced, List.map_append, List.append_assoc]
    rfl
  · rw [hpopped, List.filter_append, List.map_append]
    rfl
  · rw [hlost, List.filter_append, List.map_append]
    exact (List.append_nil _).symm

theorem Accounts.lose (h : Accounts produced popped lost (a :: pending)) :
    Accounts produced popped (lost ++ [a]) pending := by
  obtain ⟨fates, hproduced, hpopped, hlost⟩ := h
  refine ⟨fates ++ [(a, false)], ?_, ?_, ?_⟩
  · rw [hproduced, List.map_append, List.append_assoc]
    rfl
  · rw [hpopped, List.filter_append, List.map_append]
    exact (List.append_nil _).symm
  · rw [hlost, List.filter_append, List.map_append]
    rfl

/-- What was taken out is a part of what was put in, in the same order. -/
theorem Accounts.sublist (h : Accounts produced popped lost pending) : popped.Sublist produced := by
  obtain ⟨fates, rfl, rfl, -⟩ := h
  exact (List.filter_sublist.map _).trans (List.sublist_append_left _ _)

end LossyRing

/-- A buffer with its history. -/
structure Track (α : Type*) where
  ring : LossyRing α
  produced : List α
  popped : List α
  /-- The elements that were the oldest when a full buffer took a new one. -/
  lost : List α

namespace Track

open LossyRing

variable {α : Type*} {max : ℕ} {t : Track α}

def push (max : ℕ) (t : Track α) (x : α) : Track α :=
  { t with
    ring := t.ring.push max x
    produced := t.produced ++ [x]
    lost := if t.ring.num < max then t.lost else t.lost ++ [t.ring.front] }

def pop (max : ℕ) (t : Track α) : Track α :=
  { t with ring := t.ring.pop max, popped := t.popped ++ [t.ring.front] }

/-- The buffer is in order, and its history accounts for every element. -/
def Good (max : ℕ) (t : Track α) : Prop :=
  ∃ l, Contents max t.ring l ∧ Accounts t.produced t.popped t.lost l

/-- An empty buffer without history. -/
def fresh (slot : ℕ → α) : Track α where
  ring := { slot := slot, read := 0, write := 0, num := 0 }
  produced := []
  popped := []
  lost := []

theorem fresh_good (slot : ℕ → α) (h : 0 < max) : Good max (fresh slot) :=
  ⟨[], empty_contents slot h, .nil []⟩

theorem Good.push (h : t.Good max) (x : α) : (t.push max x).Good max := by
  obtain ⟨l, hcontents, haccounts⟩ := h
  refine ⟨_, hcontents.push x, ?_⟩
  have hnum := hcontents.num
  unfold Track.push
  dsimp only
  by_cases hroom : l.length < max
  · rw [if_pos hroom, if_pos (by omega)]
    exact haccounts.produce x
  · have hpos : 0 < max := Nat.lt_of_le_of_lt (Nat.zero_le _) hcontents.read
    rw [if_neg hroom, if_neg (by omega)]
    cases l with
    | nil => exact absurd hpos hroom
    | cons a l =>
      rw [hcontents.front]
      exact haccounts.lose.produce x

theorem Good.pop (h : t.Good max) (hnum : 0 < t.ring.num) : (t.pop max).Good max := by
  obtain ⟨l, hcontents, haccounts⟩ := h
  cases l with
  | nil =>
    rw [hcontents.num] at hnum
    exact absurd hnum (lt_irrefl _)
  | cons a l =>
    refine ⟨l, hcontents.pop, ?_⟩
    show Accounts t.produced (t.popped ++ [t.ring.front]) t.lost l
    rw [hcontents.front]
    exact haccounts.pop

/-- **The law of the buffer.** -/
theorem Good.law (h : t.Good max) :
    t.ring.write = (t.ring.read + t.ring.num.toNat) % max ∧ 0 ≤ t.ring.num ∧
      t.ring.num ≤ max ∧ ∃ pending, t.ring.num = (pending.length : ℤ) ∧
        Accounts t.produced t.popped t.lost pending := by
  obtain ⟨l, hcontents, haccounts⟩ := h
  have hnum := hcontents.num
  have hle := hcontents.le
  refine ⟨?_, by omega, by omega, l, hnum, haccounts⟩
  rw [hcontents.write, hnum]
  rfl

end Track
