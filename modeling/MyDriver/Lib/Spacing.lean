import Mathlib.Data.List.DropRight
import Mathlib.Data.List.Infix

/-!
# Marks at a bounded distance

A list with some marked elements has no gap of length `n` if of any `n` elements in a row one is
marked. It grows at its end. `Spaced p n d l` says that it has no gap, and that `d` unmarked
elements may follow.

A counter marks every `n`-th element. `ahead n c` is how far a counter at `c` is from the next mark.

* `Spaced.counted` — elements that are marked by the counter leave no gap.
* `Spaced.skip` — **neither do values of the counter that are left out, unless one is a mark**.
-/

namespace Spacing

variable {α : Type*} {p : α → Prop} [DecidablePred p] {n d c : ℕ} {l : List α} {x : α}

/-- Of any `n` elements in a row one is marked. -/
def NoGap (p : α → Prop) (n : ℕ) (l : List α) : Prop :=
  ∀ m, m <:+: l → m.length = n → ∃ x ∈ m, p x

/-- How many unmarked elements there are at the end. -/
def trail (p : α → Prop) [DecidablePred p] (l : List α) : ℕ := (l.rtakeWhile fun x => ¬ p x).length

/-- `d` more unmarked elements leave no gap. -/
structure Spaced (p : α → Prop) [DecidablePred p] (n d : ℕ) (l : List α) : Prop where
  noGap : NoGap p n l
  trail_lt : trail p l + d < n

theorem trail_concat (l : List α) (x : α) :
    trail p (l ++ [x]) = if p x then 0 else trail p l + 1 := by
  rw [trail, List.rtakeWhile_concat]
  by_cases hx : p x
  · simp only [hx, not_true_eq_false, decide_false, Bool.false_eq_true, if_false, if_true,
      List.length_nil]
  · simp only [hx, not_false_eq_true, decide_true, if_true, if_false, List.length_append,
      List.length_singleton, trail]

/-- An unmarked end is part of the trail. -/
theorem trail_append (l : List α) {m : List α} (hm : ∀ x ∈ m, ¬ p x) :
    trail p (l ++ m) = trail p l + m.length := by
  induction m using List.reverseRecOn with
  | nil => rw [List.append_nil, List.length_nil, Nat.add_zero]
  | append_singleton m x ih =>
    rw [← List.append_assoc, trail_concat, if_neg (hm x (by simp)),
      ih fun y hy => hm y (List.mem_append_left _ hy), List.length_append, List.length_singleton]
    rfl

/-! ## One more element -/

/-- The only new gap is at the end. -/
theorem NoGap.concat (h : NoGap p n l) (htrail : trail p (l ++ [x]) < n) :
    NoGap p n (l ++ [x]) := by
  intro m hm hlen
  obtain hend | hold := List.infix_concat_iff.1 hm
  · by_contra hnone
    obtain ⟨a, ha⟩ := hend
    have hunmarked : ∀ y ∈ m, ¬ p y := fun y hy hpy => hnone ⟨y, hy, hpy⟩
    rw [← ha, trail_append a hunmarked, hlen] at htrail
    omega
  · exact h m hold hlen

theorem Spaced.nil (h : d < n) : Spaced p n d ([] : List α) := by
  refine ⟨fun m hm hlen => ?_, ?_⟩
  · rw [List.infix_nil.1 hm] at hlen
    rw [← hlen, List.length_nil] at h
    exact absurd h (Nat.not_lt_zero d)
  · show 0 + d < n
    omega

theorem Spaced.marked (h : Spaced p n c l) (hx : p x) (hd : d < n) : Spaced p n d (l ++ [x]) := by
  have htrail : trail p (l ++ [x]) = 0 := by rw [trail_concat, if_pos hx]
  exact ⟨h.noGap.concat (by omega), by omega⟩

theorem Spaced.unmarked (h : Spaced p n (d + 1) l) (hx : ¬ p x) : Spaced p n d (l ++ [x]) := by
  have htrail : trail p (l ++ [x]) = trail p l + 1 := by rw [trail_concat, if_neg hx]
  have hlt := h.trail_lt
  exact ⟨h.noGap.concat (by omega), by omega⟩

theorem Spaced.mono (h : Spaced p n c l) (hd : d ≤ c) : Spaced p n d l :=
  ⟨h.noGap, lt_of_le_of_lt (Nat.add_le_add_left hd _) h.trail_lt⟩

/-! ## Counters -/

def ahead (n c : ℕ) : ℕ := (n - c % n) % n

theorem ahead_lt (hn : 0 < n) (c : ℕ) : ahead n c < n := Nat.mod_lt _ hn

theorem ahead_congr {c' : ℕ} (h : c % n = c' % n) : ahead n c = ahead n c' := by
  rw [ahead, ahead, h]

/-- A step that makes no mark comes closer to the next one. -/
theorem ahead_succ (hn : 0 < n) (hc : ¬ n ∣ c) : ahead n c = ahead n (c + 1) + 1 := by
  have hpos : 0 < c % n := Nat.pos_of_ne_zero fun h0 => hc (Nat.dvd_of_mod_eq_zero h0)
  have hlt := Nat.mod_lt c hn
  have hsucc : (c + 1) % n = (c % n + 1) % n := (Nat.mod_add_mod c n 1).symm
  rw [ahead, ahead, hsucc, Nat.mod_eq_of_lt (show n - c % n < n by omega)]
  generalize c % n = r at hpos hlt
  obtain hlast | hmore := Nat.eq_or_lt_of_le (show r + 1 ≤ n from hlt)
  · rw [hlast, Nat.mod_self, Nat.sub_zero, Nat.mod_self]
    omega
  · rw [Nat.mod_eq_of_lt hmore, Nat.mod_eq_of_lt (show n - (r + 1) < n by omega)]
    omega

/-- **Elements that the counter marks.** -/
theorem Spaced.counted (hn : 0 < n) {xs : List α} (h : Spaced p n (ahead n c) l)
    (hxs : ∀ i (hi : i < xs.length), p xs[i] ↔ n ∣ c + i) :
    Spaced p n (ahead n (c + xs.length)) (l ++ xs) := by
  induction xs generalizing l c with
  | nil => rwa [List.append_nil]
  | cons x xs ih =>
    have hfirst : p x ↔ n ∣ c := hxs 0 (Nat.succ_pos _)
    have hone : Spaced p n (ahead n (c + 1)) (l ++ [x]) := by
      by_cases hx : p x
      · exact h.marked hx (ahead_lt hn _)
      · rw [ahead_succ hn (mt hfirst.2 hx)] at h
        exact h.unmarked hx
    have hrest := ih hone fun i hi => by
      rw [Nat.add_assoc, Nat.add_comm 1 i]
      exact hxs (i + 1) (Nat.succ_lt_succ hi)
    rwa [List.append_assoc, List.singleton_append, Nat.add_assoc, Nat.add_comm 1] at hrest

/-- **Values of the counter that are left out.** -/
theorem Spaced.skip (hn : 0 < n) (h : Spaced p n (ahead n c) l) {k : ℕ}
    (hk : ∀ i < k, ¬ n ∣ c + i) : Spaced p n (ahead n (c + k)) l := by
  induction k with
  | zero => exact h
  | succ k ih =>
    have hbefore := ih fun i hi => hk i (Nat.lt_succ_of_lt hi)
    rw [ahead_succ hn (hk k (Nat.lt_succ_self k))] at hbefore
    exact hbefore.mono (Nat.le_succ _)

end Spacing
