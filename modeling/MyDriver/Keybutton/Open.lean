import Mathlib.Data.Fin.VecNotation
import Mathlib.Data.Fintype.Basic
import Mathlib.Data.List.FinRange
import Mathlib.Order.WellFounded
import MyDriver.Lib.Runs

/-!
# The key-pad: opening and closing

`keybutton_open` requests the interrupts of the four rows, and `keybutton_close` frees all four. A
request that fails with `-EINVAL` or `-EBUSY` ends the loop, any other failure does not.

* `requestLoop_ret`, `mem_requestLoop` — what the loop returns and which lines it registers.
* `openOk_iff` — when one call is all or nothing.
* `allOrNothing_iff_clean` — **a run is all or nothing** exactly when no call registers a part of
  the lines, or none of them without an error.
-/

namespace Keybutton

open Runs

abbrev buttonIrqNum : ℕ := 4

/-- The error codes, positive as in the kernel's headers. -/
def eBusy : ℤ := 16
def eInval : ℤ := 22

/-- An index into `button_irq_num`. -/
abbrev Line := Fin buttonIrqNum

/-- The loop of `keybutton_open` over the given lines, with what `request_irq` returns for each:
the result and the lines that are registered. -/
def requestLoop (res : Line → ℤ) : List Line → ℤ × List Line
  | [] => (0, [])
  | i :: is =>
    if res i ≠ 0 then
      if res i = -eInval then (res i, [])
      else if res i = -eBusy then (res i, [])
      else requestLoop res is
    else
      let rest := requestLoop res is
      (rest.1, i :: rest.2)

def keybuttonOpen (res : Line → ℤ) : ℤ × List Line := requestLoop res (List.finRange buttonIrqNum)

/-- The lines that `keybutton_close` frees. -/
def keybuttonClose : List Line := List.finRange buttonIrqNum

/-! ## The system -/

variable {κ : Type}

/-- How often each line is registered for the device, and the open files with the lines that their
`keybutton_open` has registered. -/
structure PadSys (κ : Type) where
  irqs : Line → ℕ
  files : κ → Option (List Line)

namespace PadSys

def register (s : PadSys κ) (lines : List Line) : PadSys κ :=
  { s with irqs := fun i => s.irqs i + lines.count i }

/-- `free_irq` for each of the lines; on a line that is not registered it does nothing. -/
def release (s : PadSys κ) (lines : List Line) : PadSys κ :=
  { s with irqs := fun i => s.irqs i - lines.count i }

def setFile [DecidableEq κ] (s : PadSys κ) (f : κ) (lines : Option (List Line)) : PadSys κ :=
  { s with files := Function.update s.files f lines }

/-- The module has just been loaded. -/
def start : PadSys κ where
  irqs _ := 0
  files _ := none

end PadSys

/-- The calls; `res` is what `request_irq` returns. -/
inductive PadAct (κ : Type) where
  | open (f : κ) (res : Line → ℤ)
  | close (f : κ)

/-- A file whose `keybutton_open` has failed is not closed. -/
def padStep [DecidableEq κ] (s : PadSys κ) : PadAct κ → Option (PadSys κ)
  | .open f res =>
    if s.files f = none ∧ ∀ i, res i ≤ 0 then
      let opened := keybuttonOpen res
      let s := s.register opened.2
      some (if opened.1 = 0 then s.setFile f (some opened.2) else s)
    else none
  | .close f => if s.files f = none then none else some ((s.release keybuttonClose).setFile f none)

/-! ## What is promised -/

/-- A call of `keybutton_open` succeeds if and only if it registers all lines, and leaves none of
them registered if it fails; `keybutton_close` frees the lines that are registered by the matching
call. -/
def StepOk (s : PadSys κ) : PadAct κ → Prop
  | .open _ res =>
    ((keybuttonOpen res).1 = 0 ↔ ∀ i, i ∈ (keybuttonOpen res).2) ∧
    ((keybuttonOpen res).1 ≠ 0 → (s.register (keybuttonOpen res).2).irqs = s.irqs)
  | .close f => ∀ lines, s.files f = some lines → ∀ i, i ∈ keybuttonClose ↔ i ∈ lines

/-- The failures that end the loop. -/
def Stops (r : ℤ) : Prop := r = -eInval ∨ r = -eBusy

instance (r : ℤ) : Decidable (Stops r) := by unfold Stops; infer_instance

/-- All requests succeed, or none before one that ends the loop. -/
def Clean (res : Line → ℤ) : Prop :=
  (∀ i, res i = 0) ∨ ∃ k, Stops (res k) ∧ ∀ j < k, res j ≠ 0

instance (res : Line → ℤ) : Decidable (Clean res) := by unfold Clean; infer_instance

def CleanStep (_ : PadSys κ) : PadAct κ → Prop
  | .open _ res => Clean res
  | .close _ => True

/-! ## One call -/

variable {res : Line → ℤ}

theorem Stops.ne_zero {r : ℤ} (h : Stops r) : r ≠ 0 := by
  rcases h with rfl | rfl <;> decide

/-- A pass of the loop, by its three ways to go on. -/
theorem requestLoop_cons (res : Line → ℤ) (i : Line) (is : List Line) :
    requestLoop res (i :: is) =
      if res i = 0 then ((requestLoop res is).1, i :: (requestLoop res is).2)
      else if Stops (res i) then (res i, []) else requestLoop res is := by
  rw [requestLoop]
  by_cases hzero : res i = 0
  · rw [if_neg (not_not.2 hzero), if_pos hzero]
  · rw [if_pos hzero, if_neg hzero]
    by_cases hinval : res i = -eInval
    · rw [if_pos hinval, if_pos (show Stops (res i) from Or.inl hinval)]
    · rw [if_neg hinval]
      exact if_congr (or_iff_right hinval).symm rfl rfl

theorem requestLoop_ret (res : Line → ℤ) (is : List Line) :
    (requestLoop res is).1 = 0 ↔ ∀ i ∈ is, ¬ Stops (res i) := by
  induction is with
  | nil => simp [requestLoop]
  | cons i is ih =>
    rw [requestLoop_cons, List.forall_mem_cons]
    split_ifs with hzero hstop
    · have hgo : ¬ Stops (res i) := fun h => h.ne_zero hzero
      rw [and_iff_right hgo]
      exact ih
    · exact iff_of_false hzero fun h => h.1 hstop
    · rw [and_iff_right hstop]
      exact ih

theorem mem_requestLoop {is : List Line} (hsorted : is.Pairwise (· < ·)) (i : Line) :
    i ∈ (requestLoop res is).2 ↔
      i ∈ is ∧ res i = 0 ∧ ∀ j ∈ is, j < i → ¬ Stops (res j) := by
  induction is with
  | nil => simp [requestLoop]
  | cons k is ih =>
    obtain ⟨hlt, hrest⟩ := List.pairwise_cons.1 hsorted
    -- The line `k` comes before all others.
    have hfirst : ∀ i ∈ is, (∀ j ∈ k :: is, j < i → ¬ Stops (res j)) ↔
        ¬ Stops (res k) ∧ ∀ j ∈ is, j < i → ¬ Stops (res j) := fun i hi => by
      rw [List.forall_mem_cons, imp_iff_right (hlt i hi)]
    have hnone : ∀ j ∈ k :: is, ¬ j < k := fun j hj => by
      rcases List.mem_cons.1 hj with rfl | hj
      · exact lt_irrefl _
      · exact (hlt j hj).asymm
    rw [requestLoop_cons]
    split_ifs with hzero hstop
    · have hgo : ¬ Stops (res k) := fun h => h.ne_zero hzero
      rw [List.mem_cons, List.mem_cons, ih hrest]
      constructor
      · rintro (rfl | ⟨hi, hres, hbefore⟩)
        · exact ⟨Or.inl rfl, hzero, fun j hj hji => absurd hji (hnone j hj)⟩
        · exact ⟨Or.inr hi, hres, (hfirst i hi).2 ⟨hgo, hbefore⟩⟩
      · rintro ⟨rfl | hi, hres, hbefore⟩
        · exact Or.inl rfl
        · exact Or.inr ⟨hi, hres, ((hfirst i hi).1 hbefore).2⟩
    · refine iff_of_false List.not_mem_nil ?_
      rintro ⟨hi, hres, hbefore⟩
      rcases List.mem_cons.1 hi with rfl | hi
      · exact hzero hres
      · exact ((hfirst i hi).1 hbefore).1 hstop
    · rw [ih hrest]
      constructor
      · rintro ⟨hi, hres, hbefore⟩
        exact ⟨List.mem_cons_of_mem k hi, hres, (hfirst i hi).2 ⟨hstop, hbefore⟩⟩
      · rintro ⟨hi, hres, hbefore⟩
        rcases List.mem_cons.1 hi with rfl | hi
        · exact absurd hres hzero
        · exact ⟨hi, hres, ((hfirst i hi).1 hbefore).2⟩

theorem keybuttonOpen_ret (res : Line → ℤ) : (keybuttonOpen res).1 = 0 ↔ ∀ i, ¬ Stops (res i) := by
  rw [keybuttonOpen, requestLoop_ret]
  simp

theorem mem_keybuttonOpen (i : Line) :
    i ∈ (keybuttonOpen res).2 ↔ res i = 0 ∧ ∀ j < i, ¬ Stops (res j) := by
  rw [keybuttonOpen, mem_requestLoop (List.pairwise_lt_finRange _)]
  simp

/-- **One call** is all or nothing exactly when it is clean. -/
theorem openOk_iff (res : Line → ℤ) :
    (((keybuttonOpen res).1 = 0 ↔ ∀ i, i ∈ (keybuttonOpen res).2) ∧
      ((keybuttonOpen res).1 ≠ 0 → ∀ i, i ∉ (keybuttonOpen res).2)) ↔ Clean res := by
  constructor
  · rintro ⟨hall, hnone⟩
    by_cases hret : (keybuttonOpen res).1 = 0
    · exact Or.inl fun i => ((mem_keybuttonOpen i).1 (hall.1 hret i)).1
    · -- The first line that ends the loop.
      rw [keybuttonOpen_ret, not_forall_not] at hret
      obtain ⟨k, hk, hmin⟩ := WellFounded.has_min (wellFounded_lt (α := Line))
        {k | Stops (res k)} hret
      have hret : (keybuttonOpen res).1 ≠ 0 := fun h => (keybuttonOpen_ret res).1 h k hk
      refine Or.inr ⟨k, hk, fun j hj hres => hnone hret j ((mem_keybuttonOpen j).2 ⟨hres, ?_⟩)⟩
      exact fun j' hj' hstop => hmin j' hstop (hj'.trans hj)
  · rintro (hzero | ⟨k, hk, hbefore⟩)
    · have hgo : ∀ i, ¬ Stops (res i) := fun i h => h.ne_zero (hzero i)
      have hret := (keybuttonOpen_ret res).2 hgo
      refine ⟨iff_of_true hret fun i => (mem_keybuttonOpen i).2 ⟨hzero i, fun j _ => hgo j⟩, ?_⟩
      exact fun h => absurd hret h
    · have hret : (keybuttonOpen res).1 ≠ 0 := fun h => (keybuttonOpen_ret res).1 h k hk
      have hnone : ∀ i, i ∉ (keybuttonOpen res).2 := by
        intro i hi
        obtain ⟨hres, hgo⟩ := (mem_keybuttonOpen i).1 hi
        rcases lt_trichotomy i k with hlt | rfl | hlt
        · exact hbefore i hlt hres
        · exact hk.ne_zero hres
        · exact hgo k hlt hk
      exact ⟨iff_of_false hret fun h => hnone k (h k), fun _ => hnone⟩

/-! ## Runs -/

variable {s s' : PadSys κ}

theorem register_irqs_eq (s : PadSys κ) (lines : List Line) :
    (s.register lines).irqs = s.irqs ↔ ∀ i, i ∉ lines := by
  rw [funext_iff]
  refine forall_congr' fun i => ?_
  rw [← List.count_eq_zero]
  exact Nat.add_eq_left

/-- Every open file has all lines. -/
def AllLines (s : PadSys κ) : Prop := ∀ f lines, s.files f = some lines → ∀ i, i ∈ lines

theorem stepOk_iff (h : AllLines s) (a : PadAct κ) : StepOk s a ↔ CleanStep s a := by
  cases a with
  | «open» f res =>
    rw [StepOk, register_irqs_eq, openOk_iff]
    rfl
  | close f =>
    refine iff_of_true (fun lines hf i => ?_) trivial
    exact iff_of_true (List.mem_finRange i) (h f lines hf i)

variable [DecidableEq κ]

theorem AllLines.setFile (h : AllLines s) (f : κ) {v : Option (List Line)}
    (hv : ∀ lines, v = some lines → ∀ i, i ∈ lines) : AllLines (s.setFile f v) := by
  intro f' lines hf'
  change Function.update s.files f v f' = some lines at hf'
  rw [Function.update_apply] at hf'
  split_ifs at hf' with heq
  · exact hv lines hf'
  · exact h f' lines hf'

theorem AllLines.step {a : PadAct κ} (h : AllLines s) (hclean : CleanStep s a)
    (hs' : padStep s a = some s') : AllLines s' := by
  cases a with
  | «open» f res =>
    rw [padStep, Option.ite_none_right_eq_some] at hs'
    obtain ⟨-, hs'⟩ := hs'
    rw [← Option.some.inj hs']
    split_ifs with hret
    · refine AllLines.setFile (s := s.register (keybuttonOpen res).2) h f fun lines hlines => ?_
      rw [← Option.some.inj hlines]
      exact ((openOk_iff res).2 hclean).1.1 hret
    · exact h
  | close f =>
    rw [padStep, Option.ite_none_left_eq_some] at hs'
    obtain ⟨-, hs'⟩ := hs'
    rw [← Option.some.inj hs']
    exact AllLines.setFile (s := s.release keybuttonClose) h f nofun

/-- **All or nothing**: so is every call of a run exactly when every call of `keybutton_open` is
clean. -/
theorem allOrNothing_iff_clean (as : List (PadAct κ)) :
    Along padStep StepOk PadSys.start as ↔ Along padStep CleanStep PadSys.start as :=
  along_congr_of (I := AllLines) (fun _ _ _ h hclean hs' => h.step hclean hs')
    (fun _ a h => stepOk_iff h a) nofun

/-- **A line stays behind**: the second request fails with `-EBUSY`, and the first line is not
freed. If it fails with `-ENOMEM`, the call returns 0. -/
theorem second_request_fails :
    ¬ Along padStep StepOk PadSys.start [PadAct.open () ![0, -16, 0, 0]] ∧
    (keybuttonOpen ![0, -16, 0, 0]) = (-16, [0]) ∧
    (keybuttonOpen ![0, -12, 0, 0]) = (0, [0, 2, 3]) := by
  refine ⟨fun h => ?_, by decide, by decide⟩
  have hclean : Clean ![0, -16, 0, 0] := (stepOk_iff nofun _).1 h.1
  exact absurd hclean (by decide)

end Keybutton
