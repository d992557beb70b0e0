import Mathlib.Data.List.FinRange
import MyDriver.Lib.LinkedQueue
import MyDriver.Lib.Runs

/-!
# The packet array pools

`PktHandler`, `descriptor_free` and the receive refill take an array of packets from `DQPool` and
give it back with `EQPool`. The pools hang together by `next`, and both ends of the list are global
variables. `PoolSys` runs any number of callers against each other.

* `pools_kept` — **the list holds the pools that nobody holds, in the order they came back**.
-/

namespace Dma

open LinkedQueue Runs

/-! ## The functions -/

/-- `MAX_POOL` -/
def maxPool : ℕ := 10

/-- `pktPool`, `pktPoolHead` and `pktPoolTail`. -/
abbrev PktPools := LinkedQueue (Fin maxPool)

/-- The list as `xdma_probe` builds it. -/
def probedPools : PktPools where
  next i := if h : i.val = maxPool - 1 then none else some ⟨i.val + 1, by have := i.isLt; omega⟩
  head := some ⟨0, by decide⟩
  tail := some ⟨maxPool - 1, by decide⟩

/-- `DQPool`; `none` when it would follow a null pointer. -/
def dqPool (q : PktPools) : Option (Fin maxPool × PktPools) :=
  q.head.map fun ppool => (ppool, { q with head := q.next ppool })

/-- `EQPool`; `none` when it would follow a null pointer. -/
def eqPool (q : PktPools) (pp : Fin maxPool) : Option PktPools :=
  q.tail.map fun tail =>
    { q with
      next := Function.update (Function.update q.next tail (some pp)) pp none
      tail := some pp }

/-! ## The system -/

/-- The pools, who holds which, and the history of the list: the pools in the order in which they
were put into it, and how many have been taken from it. -/
structure PoolSys (κ : Type) where
  pools : PktPools
  held : List (κ × Fin maxPool)
  returned : List (Fin maxPool)
  taken : ℕ

inductive PoolAct (κ : Type) where
  | dq (k : κ)
  | eq (k : κ) (pp : Fin maxPool)

variable {κ : Type} [DecidableEq κ]

/-- Callers hold at most `MAX_POOL - 1` pools and return what they hold. -/
def poolStep (s : PoolSys κ) : PoolAct κ → Option (PoolSys κ)
  | .dq k =>
    if s.held.length < maxPool - 1 then
      (dqPool s.pools).map fun got =>
        { s with pools := got.2, held := (k, got.1) :: s.held, taken := s.taken + 1 }
    else none
  | .eq k pp =>
    if (k, pp) ∈ s.held then
      (eqPool s.pools pp).map fun pools =>
        { s with pools := pools, held := s.held.erase (k, pp), returned := s.returned ++ [pp] }
    else none

/-- After `xdma_probe`. -/
def probedSys : PoolSys κ where
  pools := probedPools
  held := []
  returned := List.finRange maxPool
  taken := 0

/-! ## The run -/

/-- The pools in the list, by its history. -/
def PoolSys.waiting (s : PoolSys κ) : List (Fin maxPool) := s.returned.drop s.taken

/-- **The invariant.** -/
structure PoolInv (s : PoolSys κ) : Prop where
  holds : Holds s.pools s.waiting
  taken : s.taken ≤ s.returned.length
  held : s.held.length ≤ maxPool - 1
  all : (s.waiting ++ s.held.map Prod.snd).Perm (List.finRange maxPool)

variable {s s' : PoolSys κ}

omit [DecidableEq κ] in
theorem PoolInv.length (h : PoolInv s) : s.waiting.length + s.held.length = maxPool := by
  have hlen := h.all.length_eq
  rwa [List.length_append, List.length_map, List.length_finRange] at hlen

omit [DecidableEq κ] in
theorem PoolInv.nodup (h : PoolInv s) : (s.waiting ++ s.held.map Prod.snd).Nodup :=
  h.all.nodup_iff.2 (List.nodup_finRange _)

/-- **One step.** -/
theorem poolStep_inv {a : PoolAct κ} (h : PoolInv s) (hstep : poolStep s a = some s') :
    PoolInv s' := by
  cases a with
  | dq k =>
    rw [poolStep] at hstep
    split_ifs at hstep with hfew
    have hlen : s.waiting.length + s.held.length = 10 := h.length
    have hfew' : s.held.length < 9 := hfew
    -- The bound on the pools held leaves two in the list.
    obtain ⟨a, b, l, hl⟩ : ∃ a b l, s.waiting = a :: b :: l := by
      cases hw : s.waiting with
      | nil =>
        rw [hw, List.length_nil] at hlen
        omega
      | cons a l =>
        cases l with
        | nil =>
          rw [hw, List.length_singleton] at hlen
          omega
        | cons b l => exact ⟨a, b, l, rfl⟩
    have hholds := h.holds
    rw [hl] at hholds
    obtain ⟨q', hpop, hholds'⟩ := hholds.pop
    have hdq : dqPool s.pools = some (a, q') := hpop
    rw [hdq, Option.map_some, Option.some.injEq] at hstep
    subst hstep
    have hrest : s.returned.drop (s.taken + 1) = b :: l := by
      rw [← List.drop_drop]
      show s.waiting.drop 1 = b :: l
      rw [hl]
      rfl
    refine ⟨?_, ?_, ?_, ?_⟩
    · show Holds q' (s.returned.drop (s.taken + 1))
      rw [hrest]
      exact hholds'
    · have hshort : s.taken < s.returned.length := by
        by_contra hge
        rw [PoolSys.waiting, List.drop_eq_nil_of_le (Nat.le_of_not_lt hge)] at hl
        cases hl
      exact hshort
    · show (_ :: s.held).length ≤ _
      rw [List.length_cons]
      exact hfew
    · show List.Perm (s.returned.drop (s.taken + 1) ++ a :: s.held.map Prod.snd) _
      have hall := h.all
      rw [hl] at hall
      rw [hrest]
      exact List.perm_middle.trans hall
  | eq k pp =>
    rw [poolStep] at hstep
    split_ifs at hstep with hin
    have hmem : pp ∈ s.held.map Prod.snd := List.mem_map.2 ⟨(k, pp), hin, rfl⟩
    have hfresh : pp ∉ s.waiting := by
      intro hw
      exact (List.nodup_append.1 h.nodup).2.2 pp hw pp hmem rfl
    have hlen := h.length
    have hfew := h.held
    have hne : s.waiting ≠ [] := by
      intro hnil
      rw [hnil] at hlen
      simp only [List.length_nil, maxPool] at hlen hfew
      omega
    obtain ⟨q', hpush, hholds'⟩ := h.holds.push hne hfresh
    have heq : eqPool s.pools pp = some q' := hpush
    rw [heq, Option.map_some, Option.some.injEq] at hstep
    subst hstep
    have hwaiting : (s.returned ++ [pp]).drop s.taken = s.waiting ++ [pp] :=
      List.drop_append_of_le_length h.taken
    refine ⟨?_, ?_, ?_, ?_⟩
    · show Holds q' ((s.returned ++ [pp]).drop s.taken)
      rw [hwaiting]
      exact hholds'
    · show s.taken ≤ (s.returned ++ [pp]).length
      rw [List.length_append]
      exact Nat.le_add_right_of_le h.taken
    · exact (List.length_erase_le).trans hfew
    · show List.Perm ((s.returned ++ [pp]).drop s.taken ++ (s.held.erase (k, pp)).map Prod.snd) _
      rw [hwaiting, List.append_assoc]
      apply List.Perm.trans _ h.all
      apply List.Perm.append_left
      exact ((List.perm_cons_erase hin).map Prod.snd).symm

/-- **The pools are kept.** The head is never null; from the head on, the list holds the pools that
have been put into it and not been taken, in that order, up to the tail; every pool is in the list
or held, once; and no pool is held twice. -/
theorem pools_kept (acts : List (PoolAct κ)) (s : PoolSys κ)
    (hrun : run poolStep probedSys acts = some s) :
    s.pools.head ≠ none ∧ Threads s.pools.next s.pools.head (s.returned.drop s.taken) ∧
      s.pools.tail = (s.returned.drop s.taken).getLast? ∧
      (s.returned.drop s.taken ++ s.held.map Prod.snd).Perm (List.finRange maxPool) ∧
      (s.held.map Prod.snd).Nodup := by
  have hinv : PoolInv s := by
    refine run_inv' (fun s a s' h hstep => poolStep_inv h hstep) ⟨?_, ?_, ?_, ?_⟩ hrun
    · refine ⟨?_, List.nodup_finRange _, fun t ht => ?_⟩
      · show Threads probedPools.next probedPools.head (List.finRange maxPool)
        decide
      · rw [← ht]
        show probedPools.tail = (List.finRange maxPool).getLast?
        decide
    · exact Nat.zero_le _
    · exact Nat.zero_le _
    · exact .of_eq (List.append_nil _)
  have hne : s.waiting ≠ [] := by
    intro hnil
    have hlen := hinv.length
    have hfew := hinv.held
    rw [hnil] at hlen
    simp only [List.length_nil, maxPool] at hlen hfew
    omega
  refine ⟨hinv.holds.head_ne hne, hinv.holds.threads, ?_, hinv.all,
    (List.nodup_append.1 hinv.nodup).2.1⟩
  have hlast := List.getLast?_eq_some_getLast hne
  rw [hinv.holds.tail _ hlast]
  exact hlast.symm

/-- Two callers take a pool each, and one gives its pool back. -/
def twoTakers : List (PoolAct Bool) := [.dq true, .dq false, .eq true ⟨0, by decide⟩, .dq true]

theorem pools_kept_twoTakers : ∃ s, run poolStep probedSys twoTakers = some s ∧
    s.pools.head ≠ none ∧ Threads s.pools.next s.pools.head (s.returned.drop s.taken) ∧
      s.pools.tail = (s.returned.drop s.taken).getLast? ∧
      (s.returned.drop s.taken ++ s.held.map Prod.snd).Perm (List.finRange maxPool) ∧
      (s.held.map Prod.snd).Nodup :=
  ⟨_, rfl, pools_kept twoTakers _ rfl⟩

end Dma
