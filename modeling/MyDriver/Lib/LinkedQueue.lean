import Mathlib.Data.List.Nodup
import Mathlib.Logic.Function.Basic

/-!
# Singly linked queues with a tail pointer

Nodes are linked by a `next` pointer, taken at the head and put at the tail. `Holds q l` says that
`q` is in order and that its nodes are `l`.

* `Holds.pop` — taking the head node takes the first of the list.
* `Holds.push` — a node that is not in a nonempty queue goes to the end of the list.
-/

/-- `none` is the null pointer. -/
structure LinkedQueue (α : Type*) where
  next : α → Option α
  head : Option α
  tail : Option α

namespace LinkedQueue

variable {α : Type*}

/-- From `p` on, the nodes are those of the list, and the last of them has no successor. -/
def Threads (next : α → Option α) : Option α → List α → Prop
  | p, [] => p = none
  | p, a :: l => p = some a ∧ Threads next (next a) l

structure Holds (q : LinkedQueue α) (l : List α) : Prop where
  threads : Threads q.next q.head l
  nodup : l.Nodup
  tail : ∀ a, l.getLast? = some a → q.tail = some a

/-- Take the head node; `none` when there is none. -/
def pop (q : LinkedQueue α) : Option (α × LinkedQueue α) :=
  q.head.map fun a => (a, { q with head := q.next a })

variable [DecidableEq α]

/-- Put a node at the tail; `none` when there is no tail to put it at. -/
def push (q : LinkedQueue α) (b : α) : Option (LinkedQueue α) :=
  q.tail.map fun t =>
    { q with
      next := Function.update (Function.update q.next t (some b)) b none
      tail := some b }

instance decidableThreads (next : α → Option α) :
    (p : Option α) → (l : List α) → Decidable (Threads next p l)
  | p, [] => inferInstanceAs (Decidable (p = none))
  | p, a :: l =>
    have := decidableThreads next (next a) l
    inferInstanceAs (Decidable (p = some a ∧ Threads next (next a) l))

variable {next : α → Option α} {p : Option α} {l : List α} {q : LinkedQueue α} {a b : α}

/-- Nodes that are not reached do not matter. -/
theorem Threads.update (h : Threads next p l) (ha : a ∉ l) (v : Option α) :
    Threads (Function.update next a v) p l := by
  induction l generalizing p with
  | nil => exact h
  | cons x l ih =>
    obtain ⟨hx, htail⟩ := h
    rw [List.mem_cons, not_or] at ha
    refine ⟨hx, ?_⟩
    rw [Function.update_of_ne (Ne.symm ha.1)]
    exact ih htail ha.2

/-- Linking a new node behind the last one. -/
theorem Threads.concat (h : Threads next p l) (hnodup : l.Nodup) {t : α}
    (hlast : l.getLast? = some t) (hb : b ∉ l) :
    Threads (Function.update (Function.update next t (some b)) b none) p (l ++ [b]) := by
  induction l generalizing p with
  | nil => cases hlast
  | cons x l ih =>
    obtain ⟨hx, htail⟩ := h
    rw [List.mem_cons, not_or] at hb
    obtain ⟨hfresh, hrest⟩ := List.nodup_cons.1 hnodup
    refine ⟨hx, ?_⟩
    rw [Function.update_of_ne (Ne.symm hb.1)]
    cases l with
    | nil =>
      rw [List.getLast?_singleton, Option.some.injEq] at hlast
      subst hlast
      rw [Function.update_self]
      exact ⟨rfl, Function.update_self _ _ _⟩
    | cons y l =>
      rw [List.getLast?_cons_cons] at hlast
      have hne : x ≠ t := by
        intro heq
        exact hfresh (heq ▸ List.mem_of_getLast? hlast)
      rw [Function.update_of_ne hne]
      exact ih htail hrest hlast hb.2

omit [DecidableEq α] in
theorem Holds.head_ne (h : Holds q l) (hne : l ≠ []) : q.head ≠ none := by
  intro hnone
  cases l with
  | nil => exact hne rfl
  | cons a l =>
    have hhead := h.threads.1
    rw [hnone] at hhead
    cases hhead

omit [DecidableEq α] in
/-- Taking the head node takes the first of the list. -/
theorem Holds.pop (h : Holds q (a :: l)) :
    ∃ q', q.pop = some (a, q') ∧ Holds q' l := by
  obtain ⟨hthreads, hnodup, htail⟩ := h
  refine ⟨{ q with head := q.next a }, ?_, hthreads.2, (List.nodup_cons.1 hnodup).2, ?_⟩
  · rw [LinkedQueue.pop, hthreads.1]
    rfl
  · intro t ht
    apply htail
    cases l with
    | nil => cases ht
    | cons x l => rw [List.getLast?_cons_cons, ht]

/-- A node that is not in the queue goes to the end of the list. -/
theorem Holds.push (h : Holds q l) (hne : l ≠ []) (hb : b ∉ l) :
    ∃ q', q.push b = some q' ∧ Holds q' (l ++ [b]) := by
  have hlast := List.getLast?_eq_some_getLast hne
  have htail := h.tail _ hlast
  rw [LinkedQueue.push, htail]
  refine ⟨_, rfl, h.threads.concat h.nodup hlast hb, ?_, ?_⟩
  · rw [← List.concat_eq_append]
    exact h.nodup.concat hb
  · intro t ht
    rw [List.getLast?_concat, Option.some.injEq] at ht
    rw [ht]

end LinkedQueue
