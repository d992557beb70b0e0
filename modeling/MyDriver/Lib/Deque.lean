import Mathlib.Data.List.Nodup

/-!
# A stock of objects that is worked at both ends

The objects of a stock are out or free. One is taken from the front of the free ones and joins the
end of those that are out; they come back by number only, either those that have been out longest,
which then wait behind the free ones, or those that were taken last, which will be the next ones
taken again.

* `Stock.step_all`, `Stock.run_all` — nothing is lost and nothing is doubled.
* `Stock.take_fresh`, `Stock.take_eq_none_iff` — what is taken was not out, and nothing can be taken
  exactly when everything is out.
-/

namespace Deque

variable {α : Type*}

/-- The objects that are out, longest first, and the free ones, in the order they will be taken. -/
@[ext] structure Stock (α : Type*) where
  out : List α
  free : List α

/-- What is done with a stock. -/
inductive Op where
  | take
  | putOldest (num : ℕ)
  | putNewest (num : ℕ)

namespace Stock

/-- Everything: what is out, and behind it what is free. -/
def all (s : Stock α) : List α := s.out ++ s.free

def take (s : Stock α) : Option (α × Stock α) :=
  match s.free with
  | [] => none
  | a :: free => some (a, { out := s.out ++ [a], free := free })

def putOldest (num : ℕ) (s : Stock α) : Stock α where
  out := s.out.drop num
  free := s.free ++ s.out.take num

def putNewest (num : ℕ) (s : Stock α) : Stock α where
  out := s.out.take (s.out.length - num)
  free := s.out.drop (s.out.length - num) ++ s.free

def step (s : Stock α) : Op → Stock α
  | .take => ((s.take).map Prod.snd).getD s
  | .putOldest num => s.putOldest num
  | .putNewest num => s.putNewest num

/-- A stock nothing has been taken from. -/
def fresh (free : List α) : Stock α := ⟨[], free⟩

variable {s s' : Stock α} {a : α}

theorem take_cases (htake : s.take = some (a, s')) :
    s.free = a :: s'.free ∧ s'.out = s.out ++ [a] := by
  rw [take] at htake
  cases hfree : s.free with
  | nil =>
    rw [hfree] at htake
    cases htake
  | cons b free =>
    rw [hfree] at htake
    obtain ⟨rfl, rfl⟩ := Prod.mk.inj (Option.some.inj htake)
    exact ⟨rfl, rfl⟩

theorem take_all (htake : s.take = some (a, s')) : s'.all = s.all := by
  obtain ⟨hfree, hout⟩ := take_cases htake
  rw [all, all, hfree, hout, List.append_assoc, List.singleton_append]

theorem putNewest_all (num : ℕ) (s : Stock α) : (s.putNewest num).all = s.all := by
  rw [all, all, putNewest, ← List.append_assoc, List.take_append_drop]

theorem putOldest_all (num : ℕ) (s : Stock α) : (s.putOldest num).all.Perm s.all := by
  have hall : s.all = s.out.take num ++ (s.out.drop num ++ s.free) := by
    rw [← List.append_assoc, List.take_append_drop, all]
  rw [hall, all, putOldest, ← List.append_assoc]
  exact List.perm_append_comm

/-- **A step loses nothing and doubles nothing.** -/
theorem step_all (s : Stock α) (op : Op) : (s.step op).all.Perm s.all := by
  cases op with
  | take =>
    rw [step]
    cases htake : s.take with
    | none => exact List.Perm.refl _
    | some got =>
      rw [Option.map_some, Option.getD_some, take_all htake]
  | putOldest num => exact putOldest_all num s
  | putNewest num =>
    rw [step, putNewest_all]

theorem run_all (s : Stock α) (ops : List Op) : (ops.foldl step s).all.Perm s.all := by
  induction ops generalizing s with
  | nil => exact List.Perm.refl _
  | cons op ops ih => exact (ih (s.step op)).trans (s.step_all op)

theorem run_fresh_nodup {free : List α} (hfree : free.Nodup) (ops : List Op) :
    (ops.foldl step (fresh free)).all.Nodup :=
  (run_all (fresh free) ops).nodup_iff.2 hfree

theorem mem_run_fresh (free : List α) (ops : List Op) {a : α} :
    a ∈ (ops.foldl step (fresh free)).all ↔ a ∈ free :=
  (run_all (fresh free) ops).mem_iff

/-- **What is taken was not out.** -/
theorem take_fresh (hs : s.all.Nodup) (htake : s.take = some (a, s')) : a ∉ s.out ∧ a ∈ s.all := by
  have hfree := (take_cases htake).1
  rw [all, hfree] at hs ⊢
  refine ⟨fun hout => ?_, List.mem_append_right _ List.mem_cons_self⟩
  exact (List.nodup_append.1 hs).2.2 a hout a List.mem_cons_self rfl

/-- **Nothing can be taken** exactly when everything is out. -/
theorem take_eq_none_iff (hs : s.all.Nodup) : s.take = none ↔ ∀ a ∈ s.all, a ∈ s.out := by
  cases htake : s.take with
  | none =>
    have hfree : s.free = [] := by
      rw [take] at htake
      cases hfree : s.free with
      | nil => rfl
      | cons b free =>
        rw [hfree] at htake
        cases htake
    rw [all, hfree, List.append_nil]
    exact ⟨fun _ _ ha => ha, fun _ => rfl⟩
  | some got =>
    obtain ⟨hnew, hall⟩ := take_fresh hs htake
    refine ⟨fun hno => ?_, fun hout => absurd (hout _ hall) hnew⟩
    cases hno

end Stock

end Deque
