import Mathlib.Data.List.Induction

/-!
# Packets cut into fragments

A packet travels in fragments, the last of which says so. What a reader that joins them makes of a
sequence of fragments are the packets that are complete in it (`packets`) and the beginning of the
one that is not (`rest`).

* `packets_append`, `rest_append` — a reader may stop anywhere and go on later.
* `Whole` — a sequence that ends where a packet ends, `Whole.rest` — after which nothing is open.
* `exists_cut` — the fragments of the first packet.

A relay reads fragments, keeps the packets that are complete in a FIFO, and writes them out in
fragments again. `underway` lists the packets that are in it.

* `underway_read`, `underway_write` — the relay itself loses nothing,
* `underway_offer`, `underway_accept` — and what goes in comes out, in order.
-/

namespace Framing

variable {α : Type*}

/-- A fragment. -/
structure Frag (α : Type*) where
  data : List α
  last : Bool
deriving DecidableEq

/-- The packets that are complete in the fragments `l`, when `acc` has been read of the first. -/
def packets : List α → List (Frag α) → List (List α)
  | _, [] => []
  | acc, f :: l =>
    if f.last = true then (acc ++ f.data) :: packets [] l else packets (acc ++ f.data) l

/-- What has been read of the packet that is not. -/
def rest : List α → List (Frag α) → List α
  | acc, [] => acc
  | acc, f :: l => if f.last = true then rest [] l else rest (acc ++ f.data) l

variable {acc : List α} {f : Frag α} {l l' : List (Frag α)}

theorem packets_cons_last (h : f.last = true) :
    packets acc (f :: l) = (acc ++ f.data) :: packets [] l := if_pos h

theorem packets_cons_inner (h : f.last = false) :
    packets acc (f :: l) = packets (acc ++ f.data) l := by
  rw [packets, if_neg (by rw [h]; exact Bool.false_ne_true)]

theorem rest_cons_last (h : f.last = true) : rest acc (f :: l) = rest [] l := if_pos h

theorem rest_cons_inner (h : f.last = false) : rest acc (f :: l) = rest (acc ++ f.data) l := by
  rw [rest, if_neg (by rw [h]; exact Bool.false_ne_true)]

/-- **A reader may stop and go on later.** -/
theorem packets_append (acc : List α) (l l' : List (Frag α)) :
    packets acc (l ++ l') = packets acc l ++ packets (rest acc l) l' := by
  induction l generalizing acc with
  | nil => rfl
  | cons f l ih =>
    rw [List.cons_append]
    cases hlast : f.last with
    | true =>
      rw [packets_cons_last hlast, packets_cons_last hlast, rest_cons_last hlast, ih,
        List.cons_append]
    | false =>
      rw [packets_cons_inner hlast, packets_cons_inner hlast, rest_cons_inner hlast, ih]

theorem rest_append (acc : List α) (l l' : List (Frag α)) :
    rest acc (l ++ l') = rest (rest acc l) l' := by
  induction l generalizing acc with
  | nil => rfl
  | cons f l ih =>
    rw [List.cons_append]
    cases hlast : f.last with
    | true => rw [rest_cons_last hlast, rest_cons_last hlast, ih]
    | false => rw [rest_cons_inner hlast, rest_cons_inner hlast, ih]

/-- The sequence ends where a packet ends. -/
def Whole (l : List (Frag α)) : Prop := ∀ f ∈ l.getLast?, f.last = true

theorem whole_nil : Whole ([] : List (Frag α)) := fun _ hf => by cases hf

theorem whole_concat : Whole (l ++ [f]) ↔ f.last = true := by
  rw [Whole, List.getLast?_concat]
  exact ⟨fun h => h f rfl, fun h g hg => Option.some.inj hg ▸ h⟩

theorem Whole.of_append (h : Whole (l ++ l')) : Whole l' := by
  cases l' using List.reverseRecOn with
  | nil => exact whole_nil
  | append_singleton l' f =>
    rw [← List.append_assoc, whole_concat] at h
    exact whole_concat.2 h

/-- Where no packet ends there is nothing. -/
theorem Whole.eq_nil (h : Whole l) (hnone : packets acc l = []) : l = [] := by
  cases l using List.reverseRecOn with
  | nil => rfl
  | append_singleton l f =>
    rw [packets_append, packets_cons_last (whole_concat.1 h)] at hnone
    exact absurd hnone (List.append_ne_nil_of_right_ne_nil _ (List.cons_ne_nil _ _))

/-- **Nothing is open after whole packets.** -/
theorem Whole.rest (h : Whole l) : rest [] l = [] := by
  cases l using List.reverseRecOn with
  | nil => rfl
  | append_singleton l f =>
    rw [rest_append, rest_cons_last (whole_concat.1 h)]
    rfl

/-- The fragments of one packet. -/
theorem packets_one (hinit : ∀ g ∈ l, g.last = false) (hlast : f.last = true) :
    packets acc (l ++ [f]) = [acc ++ (l ++ [f]).flatMap Frag.data] := by
  induction l generalizing acc with
  | nil =>
    rw [List.nil_append, packets_cons_last hlast, List.flatMap_singleton]
    rfl
  | cons g l ih =>
    obtain ⟨hg, hl⟩ := List.forall_mem_cons.1 hinit
    rw [List.cons_append, packets_cons_inner hg, ih hl, List.flatMap_cons, List.append_assoc]

/-- **The fragments of the first packet.** -/
theorem exists_cut {p : List α} {ps : List (List α)} (h : packets acc l = p :: ps) :
    ∃ init f l', l = init ++ f :: l' ∧ (∀ g ∈ init, g.last = false) ∧ f.last = true ∧
      p = acc ++ (init ++ [f]).flatMap Frag.data ∧ packets [] l' = ps ∧
      Framing.rest acc l = Framing.rest [] l' := by
  induction l generalizing acc with
  | nil => cases h
  | cons f l ih =>
    cases hlast : f.last with
    | true =>
      rw [packets_cons_last hlast, List.cons.injEq] at h
      obtain ⟨rfl, hps⟩ := h
      refine ⟨[], f, l, rfl, List.forall_mem_nil _, hlast, ?_, hps, rest_cons_last hlast⟩
      rw [List.nil_append, List.flatMap_singleton]
    | false =>
      rw [packets_cons_inner hlast] at h
      obtain ⟨init, f', l', rfl, hinit, hf', rfl, hps, hrest⟩ := ih h
      refine ⟨f :: init, f', l', rfl, List.forall_mem_cons.2 ⟨hlast, hinit⟩, hf', ?_, hps, ?_⟩
      · rw [List.cons_append, List.flatMap_cons, List.append_assoc]
      · rw [rest_cons_inner hlast]
        exact hrest

/-! ## A relay -/

/-- The packet to be written next, or what is left of it, and those after it. -/
def next (writing : Option (List α)) (fifo : List (List α)) : Option (List α × List (List α)) :=
  match writing, fifo with
  | some left, fifo => some (left, fifo)
  | none, p :: fifo => some (p, fifo)
  | none, [] => none

/-- The packets that are in a relay, oldest first: those that are complete in what has been written,
the one that is being written, those in the FIFO, and those that are read. -/
def underway (written : List (Frag α)) (writing : Option (List α)) (fifo : List (List α))
    (reading : List α) (unread : List (Frag α)) : List (List α) :=
  packets [] written ++ (writing.map fun left => rest [] written ++ left).toList ++ fifo ++
    packets reading unread

variable {written unread : List (Frag α)} {writing : Option (List α)} {fifo fifo' : List (List α)}
  {reading bytes data left : List α}

/-- A fragment is read. -/
theorem underway_read : underway written writing fifo reading (f :: unread) =
    underway written writing (if f.last = true then fifo ++ [reading ++ f.data] else fifo)
      (if f.last = true then [] else reading ++ f.data) unread := by
  rw [underway, underway]
  cases hlast : f.last with
  | true =>
    rw [packets_cons_last hlast, if_pos rfl, if_pos rfl]
    simp only [List.append_assoc, List.singleton_append]
  | false => rw [packets_cons_inner hlast, if_neg Bool.false_ne_true, if_neg Bool.false_ne_true]

theorem next_spec (h : next writing fifo = some (bytes, fifo'))
    (hclosed : writing = none → rest [] written = []) :
    (writing.map fun left => rest [] written ++ left).toList ++ fifo =
      (rest [] written ++ bytes) :: fifo' := by
  unfold next at h
  split at h
  · rw [Option.some.injEq, Prod.mk.injEq] at h
    obtain ⟨rfl, rfl⟩ := h
    rfl
  · rw [Option.some.injEq, Prod.mk.injEq] at h
    obtain ⟨rfl, rfl⟩ := h
    rw [hclosed rfl]
    rfl
  · cases h

/-- A fragment is written; `left` is what is left of the packet. -/
theorem underway_write (reading : List α) (unread : List (Frag α))
    (h : next writing fifo = some (data ++ left, fifo'))
    (hclosed : writing = none → rest [] written = []) (last : Bool) (writing' : Option (List α))
    (hend : left = [] → last = true ∧ writing' = none)
    (hmore : left ≠ [] → last = false ∧ writing' = some left) :
    underway (written ++ [⟨data, last⟩]) writing' fifo' reading unread =
      underway written writing fifo reading unread := by
  rw [underway, underway, List.append_assoc (packets [] written), next_spec h hclosed,
    packets_append, rest_append]
  by_cases hleft : left = []
  · obtain ⟨rfl, rfl⟩ := hend hleft
    rw [packets_cons_last rfl, hleft, List.append_nil]
    simp [packets]
  · obtain ⟨rfl, rfl⟩ := hmore hleft
    rw [packets_cons_inner rfl, rest_cons_inner rfl]
    simp [packets, rest]

/-- More is offered for reading, behind whole packets. -/
theorem underway_offer (hwhole : rest reading unread = []) (l : List (Frag α)) :
    underway written writing fifo reading (unread ++ l) =
      underway written writing fifo reading unread ++ packets [] l := by
  rw [underway, underway, packets_append, hwhole, ← List.append_assoc]

/-- Whole packets are accepted. -/
theorem underway_accept (hwhole : Whole l) (written : List (Frag α)) (writing : Option (List α))
    (fifo : List (List α)) (reading : List α) (unread : List (Frag α)) :
    underway (l ++ written) writing fifo reading unread =
      packets [] l ++ underway written writing fifo reading unread := by
  rw [underway, underway, packets_append, rest_append, hwhole.rest]
  simp only [List.append_assoc]

end Framing
