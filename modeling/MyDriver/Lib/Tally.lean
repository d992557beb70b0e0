import Mathlib.Data.Finset.Card
import Mathlib.Data.List.Nodup

/-!
# Counting every turn once

Keys are issued again and again, and each issue starts a new turn of the key: `turn a` says how many
turns `a` has had. An observer keeps the set `seen` of the turns in which it has seen a key. A
counter that is increased at every look counts turns, and not looks, as long as no key is looked at
twice in one turn.

* `issue`, `look` — new turns, and what has been seen after a look.
* `Fresh turn live seen` — **the invariant**: no key of `live` has been seen in its present turn.
* `Fresh.card_look` — under it, a look sees as many new turns as it looks at keys.
-/

namespace Tally

variable {α : Type*} [DecidableEq α] {turn : α → ℕ} {seen : Finset (α × ℕ)}
  {live live' l : List α}

/-- The turns after the keys of `l` have been issued. -/
def issue (turn : α → ℕ) (l : List α) : α → ℕ := fun a => if a ∈ l then turn a + 1 else turn a

/-- What has been seen after a look at the keys of `l`. -/
def look (turn : α → ℕ) (seen : Finset (α × ℕ)) (l : List α) : Finset (α × ℕ) :=
  seen ∪ (l.map fun a => (a, turn a)).toFinset

theorem mem_look {p : α × ℕ} : p ∈ look turn seen l ↔ p ∈ seen ∨ p.1 ∈ l ∧ turn p.1 = p.2 := by
  rw [look, Finset.mem_union, List.mem_toFinset, List.mem_map]
  refine or_congr_right ⟨?_, ?_⟩
  · rintro ⟨a, ha, rfl⟩
    exact ⟨ha, rfl⟩
  · rintro ⟨hmem, hturn⟩
    exact ⟨p.1, hmem, by rw [hturn]⟩

/-- No key of `live` has been seen in its present turn, and no key in a turn yet to come. -/
structure Fresh (turn : α → ℕ) (live : List α) (seen : Finset (α × ℕ)) : Prop where
  past : ∀ p ∈ seen, p.2 ≤ turn p.1
  unseen : ∀ a ∈ live, (a, turn a) ∉ seen

namespace Fresh

omit [DecidableEq α] in
theorem empty (turn : α → ℕ) (live : List α) : Fresh turn live ∅ where
  past p hp := absurd hp (Finset.notMem_empty p)
  unseen _ _ := Finset.notMem_empty _

omit [DecidableEq α] in
theorem mono (h : Fresh turn live seen) (hsub : live' ⊆ live) : Fresh turn live' seen where
  past := h.past
  unseen a ha := h.unseen a (hsub ha)

/-- Issued keys are fresh. -/
theorem issue (h : Fresh turn live seen) (hdisj : List.Disjoint live l) :
    Fresh (issue turn l) (live ++ l) seen where
  past p hp := by
    have hpast := h.past p hp
    unfold Tally.issue
    split_ifs <;> omega
  unseen a ha := by
    intro hin
    rcases List.mem_append.1 ha with hlive | hnew
    · rw [Tally.issue, if_neg fun hl => hdisj hlive hl] at hin
      exact h.unseen a hlive hin
    · have hpast := h.past _ hin
      simp only [Tally.issue, if_pos hnew] at hpast
      omega

/-- **A look at live keys sees as many new turns as it looks at keys.** -/
theorem card_look (h : Fresh turn live seen) (hsub : l ⊆ live) (hl : l.Nodup) :
    (look turn seen l).card = seen.card + l.length := by
  have hinj : (l.map fun a => (a, turn a)).Nodup :=
    hl.map fun a b hab => (Prod.mk.inj hab).1
  rw [look, Finset.card_union_of_disjoint, List.toFinset_card_of_nodup hinj, List.length_map]
  refine Finset.disjoint_right.2 fun p hp => ?_
  rw [List.mem_toFinset, List.mem_map] at hp
  obtain ⟨a, ha, rfl⟩ := hp
  exact h.unseen a (hsub ha)

/-- What has been looked at must leave before the next look. -/
theorem look (h : Fresh turn live seen) (hsub : live' ⊆ live) (hdisj : List.Disjoint live' l) :
    Fresh turn live' (look turn seen l) where
  past p hp := by
    rcases mem_look.1 hp with hold | ⟨-, hnew⟩
    · exact h.past p hold
    · exact hnew.ge
  unseen a ha hin := by
    rcases mem_look.1 hin with hold | ⟨hl, -⟩
    · exact h.unseen a (hsub ha) hold
    · exact hdisj ha hl

end Fresh

end Tally
