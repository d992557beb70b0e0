import MyDriver.Lib.Deque
import MyDriver.Rawdata.Fragments

/-!
# A buffer pool is a deque

`InitBuffers` fills a pool with the pages it can get, and from then on the pool is worked at both
ends. `stock` reads a pool as a `Stock` of the deque library, from its cursors: the buffers that are
out, from `AllocPtr` on, and the free ones behind them, from `FreePtr` on. Each of the three
functions is the operation of the deque on it (`stock_allocBuf`, `stock_freeUsedBuf`,
`stock_freeUnusedBuf`), and so is every run of them (`stock_run`). The counters of a pool are
natural numbers: the source counts down only while a buffer is out, and from `LastBuf` then, which
is not 0.

* `initPool_spec` — what the loop of `InitBuffers` leaves.
* `pool_deque` — **a pool is a deque**, whatever its size and whatever it has been used for.
-/

namespace Dma

open Cyclic Deque

/-! ## `InitBuffers` -/

/-- The loop of `InitBuffers`: `i` when it stops, and `origVA`. `page i` is what the `i`-th call of
`__get_free_pages` returns, 0 when there is no page. -/
def initLoop (page : ℕ → U32) : ℕ → ℕ → (ℕ → U32) → ℕ × (ℕ → U32)
  | 0, i, origVA => (i, origVA)
  | bound + 1, i, origVA =>
    if page i = 0 then (i, origVA)
    else initLoop page bound (i + 1) (Function.update origVA i (page i))

/-- `InitBuffers`, with its loop. -/
def initPool (page : ℕ → U32) (bptr : Buffer) : Buffer :=
  let got := initLoop page numBufs 0 bptr.origVA
  let cleared := { bptr with
    totalNum := 0, allocNum := 0, firstBuf := 0, lastBuf := 0, freePtr := 0, allocPtr := 0
    origVA := got.2 }
  if got.1 ≠ 0 then { cleared with
    firstBuf := 0, lastBuf := got.1, freePtr := 0, allocPtr := 0, totalNum := got.1, allocNum := 0 }
  else cleared

/-- The loop stores the pages from `i` on, up to the first that is missing. -/
theorem initLoop_spec (page : ℕ → U32) (bound i : ℕ) (origVA : ℕ → U32) :
    (initLoop page bound i origVA).1 ≤ i + bound ∧
    (∀ j < i, (initLoop page bound i origVA).2 j = origVA j) ∧
    ∀ j, i ≤ j → j < (initLoop page bound i origVA).1 →
      (initLoop page bound i origVA).2 j = page j ∧ page j ≠ 0 := by
  induction bound generalizing i origVA with
  | zero => exact ⟨le_rfl, fun _ _ => rfl, fun j hi hj => absurd hj (not_lt.2 hi)⟩
  | succ bound ih =>
    rw [initLoop]
    split_ifs with hnull
    · exact ⟨Nat.le_add_right _ _, fun _ _ => rfl, fun j hi hj => absurd hj (not_lt.2 hi)⟩
    · obtain ⟨hle, hbefore, hstored⟩ := ih (i + 1) (Function.update origVA i (page i))
      refine ⟨by omega, fun j hj => ?_, fun j hi hj => ?_⟩
      · rw [hbefore j (by omega), Function.update_of_ne (by omega)]
      · rcases Nat.eq_or_lt_of_le hi with rfl | hlt
        · rw [hbefore i (by omega), Function.update_self]
          exact ⟨rfl, hnull⟩
        · exact hstored j hlt hj

/-- **What `InitBuffers` leaves**: a pool nothing is out of, with every page that could be had. -/
theorem initPool_spec (page : ℕ → U32) (bptr : Buffer) :
    let b := initPool page bptr
    b = initBuffers b.origVA b.totalNum ∧ b.totalNum ≤ numBufs ∧
      ∀ i < b.totalNum, b.origVA i = page i ∧ page i ≠ 0 := by
  obtain ⟨hle, -, hstored⟩ := initLoop_spec page numBufs 0 bptr.origVA
  rw [Nat.zero_add] at hle
  dsimp only [initPool]
  split_ifs with hgot
  · exact ⟨rfl, hle, fun i hi => hstored i (Nat.zero_le i) hi⟩
  · exact ⟨rfl, Nat.zero_le _, fun i hi => absurd hi (Nat.not_lt_zero i)⟩

/-! ## The deque -/

/-- A pool, as a stock of buffers. -/
def stock (b : Buffer) : Stock U32 where
  out := window b
  free := freeBufs b

def BufferOp.deque : BufferOp → Deque.Op
  | .alloc => .take
  | .freeUsed num => .putOldest num
  | .freeUnused num => .putNewest num

section Refinement

variable {bufVA : ℕ → U32} {n : ℕ} {b b' : Buffer}

theorem allocBuf_eq_none : allocBuf b = none ↔ b.allocNum = b.totalNum := by
  rw [allocBuf]
  split_ifs with hfull
  · exact iff_of_true rfl hfull
  · exact iff_of_false (fun hnone => by cases hnone) hfull

theorem freeUsedBuf_freePtr (num : ℕ) (b : Buffer) : (freeUsedBuf num b).freePtr = b.freePtr :=
  freeUsedBuf_loop.frame Buffer.freePtr (fun _ => rfl) num b

/-- **`AllocBuf` takes.** -/
theorem stock_allocBuf (h : Pooled bufVA n b) :
    (allocBuf b).map (fun got => (got.1, stock got.2)) = (stock b).take := by
  cases hok : allocBuf b with
  | none =>
    have hfree : freeBufs b = [] := by
      rw [← List.length_eq_zero_iff, length_freeBufs, allocBuf_eq_none.1 hok, Nat.sub_self]
    rw [Stock.take, show (stock b).free = [] from hfree]
    rfl
  | some got =>
    obtain ⟨hpooled, hwindow⟩ := h.allocBuf hok
    have hfree : freeBufs b = got.1 :: freeBufs got.2 := by
      have hlap := hpooled.lap
      rw [allocBuf_allocPtr hok, ← h.lap, hwindow, List.append_assoc] at hlap
      exact (List.append_cancel_left hlap).symm
    rw [Stock.take, show (stock b).free = _ from hfree]
    show some (got.1, stock got.2) = some (got.1, ⟨window b ++ [got.1], freeBufs got.2⟩)
    rw [← hwindow]
    rfl

/-- **`FreeUsedBuf` puts back what has been out longest.** -/
theorem stock_freeUsedBuf (h : Pooled bufVA n b) (num : ℕ) :
    stock (freeUsedBuf num b) = (stock b).putOldest num := by
  obtain ⟨hpooled, hwindow⟩ := h.freeUsedBuf (Nat.min_le_right num b.allocNum)
  rw [← freeUsedBuf_loop.eq_min] at hpooled hwindow
  have hlen : (freeUsedBuf num b).allocNum = b.allocNum - min num b.allocNum := by
    rw [← length_window, hwindow, List.length_drop, length_window]
  have hle := h.le
  -- The free buffers grow at their far end, which is where the window began.
  have hsize : n - (freeUsedBuf num b).allocNum = n - b.allocNum + min num b.allocNum := by omega
  have hturn : (b.freePtr + (n - b.allocNum)) % n = b.allocPtr % n := by
    rw [h.free, Nat.mod_add_mod, Nat.add_assoc, Nat.add_sub_cancel' hle, Nat.add_mod_right]
  have hfree : freeBufs (freeUsedBuf num b) =
      freeBufs b ++ (window b).take (min num b.allocNum) := by
    rw [freeBufs, freeBufs, window, hpooled.total, hpooled.va, h.total, h.va, freeUsedBuf_freePtr,
      hsize, ← arc_append, ← arc_mod bufVA n (b.freePtr + _), hturn, arc_mod,
      take_arc _ (Nat.min_le_right _ _)]
  ext1
  · show window (freeUsedBuf num b) = (window b).drop num
    rw [hwindow, ← length_window, ← List.drop_eq_drop_min]
  · show freeBufs (freeUsedBuf num b) = freeBufs b ++ (window b).take num
    rw [hfree, ← length_window, ← List.take_eq_take_min]

/-- **`FreeUnusedBuf` puts back what was taken last.** -/
theorem stock_freeUnusedBuf (h : Pooled bufVA n b) (num : ℕ) :
    stock (freeUnusedBuf num b) = (stock b).putNewest num := by
  obtain ⟨hpooled, hwindow⟩ := h.freeUnusedBuf (Nat.min_le_right num b.allocNum)
  rw [← freeUnusedBuf_loop.eq_min] at hpooled hwindow
  have hleft : b.allocNum - min num b.allocNum = (window b).length - num := by
    rw [length_window]
    omega
  have hlap := hpooled.lap
  rw [freeUnusedBuf_allocPtr, ← h.lap, hwindow, hleft] at hlap
  ext1
  · show window (freeUnusedBuf num b) = (window b).take ((window b).length - num)
    rw [hwindow, hleft]
  · show freeBufs (freeUnusedBuf num b) = (window b).drop ((window b).length - num) ++ freeBufs b
    refine (List.append_right_inj ((window b).take ((window b).length - num))).1 ?_
    rw [hlap, ← List.append_assoc, List.take_append_drop]

theorem stock_step (h : Pooled bufVA n b) (op : BufferOp) :
    stock (bufferStep b op) = (stock b).step op.deque := by
  cases op with
  | alloc =>
    show stock (((allocBuf b).map Prod.snd).getD b) = (((stock b).take).map Prod.snd).getD (stock b)
    rw [← stock_allocBuf h]
    cases allocBuf b with
    | none => rfl
    | some got => rfl
  | freeUsed num => exact stock_freeUsedBuf h num
  | freeUnused num => exact stock_freeUnusedBuf h num

/-- **Every run of a pool is a run of the deque.** -/
theorem stock_run (h : Pooled bufVA n b) (ops : List BufferOp) :
    stock (ops.foldl bufferStep b) = (ops.map BufferOp.deque).foldl Stock.step (stock b) := by
  induction ops generalizing b with
  | nil => rfl
  | cons op ops ih =>
    rw [List.foldl_cons, List.map_cons, List.foldl_cons, ← stock_step h op]
    exact ih (h.step op)

end Refinement

/-- A call of one of the three functions on a pool. -/
inductive BufferCall where
  | allocBuf
  | freeUsedBuf (num : ℤ)
  | freeUnusedBuf (num : ℤ)

/-- Both loops count up from 0, so that a negative `num` frees nothing. -/
def BufferCall.op : BufferCall → BufferOp
  | .allocBuf => .alloc
  | .freeUsedBuf num => .freeUsed num.toNat
  | .freeUnusedBuf num => .freeUnused num.toNat

/-- What a pool of `num` pages promises; `window b` lists the buffers that are out, the first that
was allocated first. -/
structure PoolContract (page : ℕ → U32) (num : ℕ) (b : Buffer) : Prop where
  total : b.totalNum = num
  ptr : 0 < num → b.freePtr = (b.allocPtr + b.allocNum) % num
  inside : 0 < num → b.allocPtr < num
  le : b.allocNum ≤ num
  count : (window b).length = b.allocNum
  none : allocBuf b = none ↔ ∀ i < num, page i ∈ window b
  some : ∀ va b', allocBuf b = some (va, b') → va ≠ 0 ∧ va ∉ window b ∧ (∃ i < num, page i = va) ∧
    window b' = window b ++ [va]
  used : ∀ n : ℤ, ∃ freed, freed.length = min n.toNat b.allocNum ∧
    window b = freed ++ window (freeUsedBuf n.toNat b)
  unused : ∀ n : ℤ, ∃ freed, freed.length = min n.toNat b.allocNum ∧
    window b = window (freeUnusedBuf n.toNat b) ++ freed

section Contract

variable {bufVA page : ℕ → U32} {n : ℕ} {b : Buffer}

theorem stock_initBuffers (bufVA : ℕ → U32) (n : ℕ) :
    stock (initBuffers bufVA n) = .fresh (pages bufVA n) := by
  rw [pages_eq_arc]
  rfl

theorem pages_congr (hsame : ∀ i < n, bufVA i = page i) : pages bufVA n = pages page n :=
  List.map_congr_left fun i hi => hsame i (List.mem_range.1 hi)

theorem mem_pages {va : U32} : va ∈ pages page n ↔ ∃ i < n, page i = va := by
  simp [pages]

theorem Pooled.contract (h : Pooled bufVA n b) (hpages : ∀ i < n, page i ≠ 0)
    (hnodup : (stock b).all.Nodup) (hmem : ∀ va, va ∈ (stock b).all ↔ va ∈ pages page n) :
    PoolContract page n b where
  total := h.total
  ptr _ := h.free
  inside hpos := by
    rw [h.alloc]
    exact Nat.mod_lt _ hpos
  le := h.le
  count := length_window b
  none := by
    have htake : Dma.allocBuf b = none ↔ (stock b).take = Option.none := by
      rw [← stock_allocBuf h, Option.map_eq_none_iff]
    rw [htake, Stock.take_eq_none_iff hnodup]
    constructor
    · intro hall i hi
      exact hall _ ((hmem _).2 (mem_pages.2 ⟨i, hi, rfl⟩))
    · intro hall va hva
      obtain ⟨i, hi, rfl⟩ := mem_pages.1 ((hmem va).1 hva)
      exact hall i hi
  some va b' hok := by
    have htake : (stock b).take = Option.some (va, stock b') := by
      rw [← stock_allocBuf h, hok]
      rfl
    obtain ⟨hnew, hall⟩ := Stock.take_fresh hnodup htake
    obtain ⟨i, hi, rfl⟩ := mem_pages.1 ((hmem va).1 hall)
    exact ⟨hpages i hi, hnew, ⟨i, hi, rfl⟩, (h.allocBuf hok).2⟩
  used k := by
    have hout : window (Dma.freeUsedBuf k.toNat b) = (window b).drop k.toNat :=
      congrArg Stock.out (stock_freeUsedBuf h k.toNat)
    refine ⟨(window b).take k.toNat, ?_, ?_⟩
    · rw [List.length_take, length_window]
    · rw [hout, List.take_append_drop]
  unused k := by
    have hout : window (Dma.freeUnusedBuf k.toNat b) =
        (window b).take ((window b).length - k.toNat) :=
      congrArg Stock.out (stock_freeUnusedBuf h k.toNat)
    refine ⟨(window b).drop ((window b).length - k.toNat), ?_, ?_⟩
    · rw [List.length_drop, ← length_window b]
      omega
    · rw [hout, List.take_append_drop]

end Contract

/-- **A pool is a deque.** Let `InitBuffers` get any pages, no two of them the same. After any calls
with any arguments the pool is the deque the calls make of these pages, and it keeps its contract:
the cursors fit the counters, a buffer is taken that is not out, unless all are, and the buffers
that are put back are the first or the last ones that are out. -/
theorem pool_deque (page : ℕ → U32) (bptr : Buffer)
    (hpages : (pages page (initPool page bptr).totalNum).Nodup) (calls : List BufferCall) :
    let num := (initPool page bptr).totalNum
    let ops := calls.map BufferCall.op
    let b := ops.foldl bufferStep (initPool page bptr)
    num ≤ numBufs ∧
    stock b = (ops.map BufferOp.deque).foldl Stock.step (.fresh (pages page num)) ∧
    PoolContract page num b := by
  intro num ops b
  obtain ⟨hinit, hle, hgot⟩ := initPool_spec page bptr
  have hpooled : Pooled (initPool page bptr).origVA num (initPool page bptr) := by
    have h := initBuffers_pooled (initPool page bptr).origVA num
    rwa [← hinit] at h
  have hstock : stock b = (ops.map BufferOp.deque).foldl Stock.step (.fresh (pages page num)) := by
    have hstart : stock (initPool page bptr) = .fresh (pages page num) := by
      rw [hinit, stock_initBuffers, pages_congr fun i hi => (hgot i hi).1]
    rw [← hstart]
    exact stock_run hpooled ops
  refine ⟨hle, hstock, (hpooled.steps ops).contract (fun i hi => (hgot i hi).2) ?_ fun va => ?_⟩
  · rw [hstock]
    exact Stock.run_fresh_nodup hpages _
  · rw [hstock]
    exact Stock.mem_run_fresh _ _

/-- Three pages, after which there is no more memory. -/
def scarcePage (i : ℕ) : U32 := if i < 3 then BitVec.ofNat 32 (0x1000 * (i + 1)) else 0

/-- The cursors of three pages go round: all of them are out, and the oldest is the second. -/
theorem pool_deque_threePages :
    let b := ([.allocBuf, .allocBuf, .freeUsedBuf 1, .allocBuf, .freeUnusedBuf (-1), .allocBuf,
      .allocBuf].map BufferCall.op).foldl bufferStep (initPool scarcePage (initBuffers 0 0))
    window b = [0x2000, 0x3000, 0x1000] ∧ PoolContract scarcePage 3 b :=
  ⟨by decide, (pool_deque scarcePage (initBuffers 0 0) (by decide) _).2.2⟩

end Dma
