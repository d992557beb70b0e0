import MyDriver.Lib.Tally
import MyDriver.Xdma.Settled

/-!
# The error counters of a ring

`Dma_BdRingFromHw` increases `BDerrs` and `BDSerrs` while it scans the Hardware group, also for BDs
that it then leaves there. `CountSys` is a ring with the books of an observer: how often each BD has
been submitted by `Dma_BdRingToHw`, and which submissions a poll has seen with an error. What the
hardware does to the status words meanwhile is in the reads of each poll, which may find anything.

* `examined_eq` — the BDs a poll looks at, in order.
* `errors_countedOnce` — **while every poll takes the bad BDs it sees, each is counted once**.
* `counted_again` — a BD that a poll leaves behind is counted by the next poll too.
-/

namespace Dma

open Cyclic Runs Tally

/-! ## What a poll looks at -/

/-- The BDs that the loop of `Dma_BdRingFromHw` looks at, with what it reads of them. -/
def examinedLoop (r : BdRing) (rd : ℕ → Mem) : ℕ → U32 → ℕ → List (U32 × BdSeen)
  | 0, _, _ => []
  | left + 1, cur, t =>
    let v := bdSeen rd t cur
    (cur, v) ::
      if ¬ v.Done r.isRxChannel then []
      else if bdRingNext r cur = r.hwTail then []
      else examinedLoop r rd left (bdRingNext r cur) (t + 1)

def examined (r : BdRing) (rd : ℕ → Mem) (bdLimit : U32) : List (U32 × BdSeen) :=
  if r.hwCnt = 0 then [] else examinedLoop r rd bdLimit.toNat r.hwHead 0

/-- Those whose status has a bit of `mask`. -/
def seenWith (mask : U32) (l : List (U32 × BdSeen)) : List U32 :=
  (l.filter fun e => Flag e.2.bdStsCr mask).map Prod.fst

theorem seenWith_cons (mask : U32) (e : U32 × BdSeen) (l : List (U32 × BdSeen)) :
    seenWith mask (e :: l) =
      if Flag e.2.bdStsCr mask then e.1 :: seenWith mask l else seenWith mask l := by
  unfold seenWith
  rw [List.filter_cons]
  by_cases h : Flag e.2.bdStsCr mask
  · rw [if_pos (decide_eq_true h), if_pos h, List.map_cons]
  · rw [if_neg (fun hd => h (of_decide_eq_true hd)), if_neg h]

/-- One more of `n`, in a counter of the ring. -/
theorem count_succ (x : U32) (n : ℕ) : x + 1 + BitVec.ofNat 32 n = x + BitVec.ofNat 32 (n + 1) := by
  rw [BitVec.ofNat_add, BitVec.add_assoc]
  congr 1
  exact BitVec.add_comm _ _

/-- **The loop counts what it looks at.** -/
theorem fromHwLoop_counts (r : BdRing) (rd : ℕ → Mem) (left : ℕ) (cur : U32) (s : FromHwLoop) :
    let l := examinedLoop r rd left cur s.bdCount
    (fromHwLoop r rd left cur s).bdErrs =
        s.bdErrs + BitVec.ofNat 32 (seenWith bdErrorMask l).length ∧
      (r.isRxChannel = false → (fromHwLoop r rd left cur s).bdSErrs =
        s.bdSErrs + BitVec.ofNat 32 (seenWith bdShortMask l).length) := by
  induction left generalizing cur s with
  | zero => exact ⟨(BitVec.add_zero _).symm, fun _ => (BitVec.add_zero _).symm⟩
  | succ left ih =>
    intro l
    set v := bdSeen rd s.bdCount cur with hv
    set rest := (if ¬ v.Done r.isRxChannel then []
      else if bdRingNext r cur = r.hwTail then []
      else examinedLoop r rd left (bdRingNext r cur) (s.bdCount + 1)) with hrest
    have hl : l = (cur, v) :: rest := rfl
    -- The rest of the scan starts from the counters after this BD.
    have hgo : (fromHwLoop r rd (left + 1) cur s).bdErrs =
          (s.countErrors r.isRxChannel v).bdErrs +
            BitVec.ofNat 32 (seenWith bdErrorMask rest).length ∧
        (r.isRxChannel = false → (fromHwLoop r rd (left + 1) cur s).bdSErrs =
          (s.countErrors r.isRxChannel v).bdSErrs +
            BitVec.ofNat 32 (seenWith bdShortMask rest).length) := by
      rw [fromHwLoop, hrest]
      by_cases hd : v.Done r.isRxChannel
      · dsimp only
        rw [if_neg (not_not.2 hd), if_neg (not_not.2 hd)]
        by_cases hend : bdRingNext r cur = r.hwTail
        · rw [if_pos hend, if_pos hend]
          exact ⟨(BitVec.add_zero _).symm, fun _ => (BitVec.add_zero _).symm⟩
        · rw [if_neg hend, if_neg hend]
          exact ih _ _
      · dsimp only
        rw [if_pos hd, if_pos hd]
        exact ⟨(BitVec.add_zero _).symm, fun _ => (BitVec.add_zero _).symm⟩
    rw [hl, seenWith_cons, seenWith_cons]
    constructor
    · rw [hgo.1]
      by_cases herr : Flag v.bdStsCr bdErrorMask
      · simp only [FromHwLoop.countErrors, if_pos herr, List.length_cons, count_succ]
      · simp only [FromHwLoop.countErrors, if_neg herr]
    · intro hrx
      rw [hgo.2 hrx]
      by_cases hshort : Flag v.bdStsCr bdShortMask
      · simp only [FromHwLoop.countErrors, if_pos (And.intro hrx hshort), if_pos hshort,
          List.length_cons, count_succ]
      · simp only [FromHwLoop.countErrors, if_neg fun h : _ ∧ _ => hshort h.2, if_neg hshort]

theorem fromHw_counts (r : BdRing) (rd : ℕ → Mem) (bdLimit : U32) :
    let l := examined r rd bdLimit
    (bdRingFromHw r rd bdLimit).2.2.bdErrs =
        r.bdErrs + BitVec.ofNat 32 (seenWith bdErrorMask l).length ∧
      (r.isRxChannel = false → (bdRingFromHw r rd bdLimit).2.2.bdSErrs =
        r.bdSErrs + BitVec.ofNat 32 (seenWith bdShortMask l).length) := by
  intro l
  have hloop := fromHwLoop_counts r rd bdLimit.toNat r.hwHead
    { bdCount := 0, bdPartialCount := 0, bdErrs := r.bdErrs, bdSErrs := r.bdSErrs }
  unfold bdRingFromHw
  by_cases hzero : r.hwCnt = 0
  · have hl : l = [] := if_pos hzero
    rw [if_pos hzero, hl]
    exact ⟨(BitVec.add_zero _).symm, fun _ => (BitVec.add_zero _).symm⟩
  · have hl : l = examinedLoop r rd bdLimit.toNat r.hwHead 0 := if_neg hzero
    rw [if_neg hzero, hl]
    dsimp only
    split_ifs
    · exact hloop
    · exact hloop

variable {r : BdRing} {g : Split}

theorem examinedLoop_eq (h : Laid r) (rd : ℕ → Mem) {y n : ℕ} (hn : n ≤ r.allCnt.toNat)
    (htail : r.hwTail = bdAt r (y + n)) (left t : ℕ) (ht : t < n) :
    ∃ k ≤ min left (n - t), examinedLoop r rd left (bdAt r (y + t)) t =
        (List.range' t k).map (fun j => (bdAt r (y + j), bdSeen rd j (bdAt r (y + j)))) ∧
      ∀ j, t ≤ j → j + 1 < t + k → (bdSeen rd j (bdAt r (y + j))).Done r.isRxChannel := by
  induction left generalizing t with
  | zero => exact ⟨0, Nat.zero_le _, rfl, fun j _ hj => by omega⟩
  | succ left ih =>
    rw [examinedLoop]
    by_cases hd : (bdSeen rd t (bdAt r (y + t))).Done r.isRxChannel
    · rw [if_neg (not_not.2 hd), h.next, htail]
      by_cases hend : t + 1 = n
      · rw [if_pos (by rw [← hend, Nat.add_assoc])]
        exact ⟨1, by omega, rfl, fun j _ hj => by omega⟩
      · have hne : bdAt r (y + t + 1) ≠ bdAt r (y + n) := fun heq =>
          hend (h.circle.eq_of_near (x := y) (by omega) (by omega) heq)
        obtain ⟨k, hk, heq, hdone⟩ := ih (t + 1) (by omega)
        rw [if_neg hne, Nat.add_assoc, heq]
        refine ⟨k + 1, by omega, rfl, fun j hj hlt => ?_⟩
        rcases Nat.eq_or_lt_of_le hj with rfl | hj
        · exact hd
        · exact hdone j hj (by omega)
    · rw [if_pos hd]
      exact ⟨1, by omega, rfl, fun j _ hj => by omega⟩

/-- **What a poll looks at**: the first BDs of the Hardware group, all but the last of them
finished. -/
theorem examined_eq (h : Parts r g) (rd : ℕ → Mem) (bdLimit : U32) :
    ∃ k ≤ min bdLimit.toNat g.hw, examined r rd bdLimit =
        (List.range k).map (fun j => (bdAt r (g.hwPos + j), hwSeen r rd g j)) ∧
      ∀ j, j + 1 < k → (hwSeen r rd g j).Done r.isRxChannel := by
  have hlap := g.lap
  by_cases hzero : r.hwCnt = 0
  · exact ⟨0, Nat.zero_le _, if_pos hzero, fun j hj => by omega⟩
  · have hpos : 0 < g.hw := by
      rw [← h.hwCnt]
      exact Nat.pos_of_ne_zero fun h0 => hzero (cnt_eq_zero.2 h0)
    obtain ⟨k, hk, heq, hdone⟩ := examinedLoop_eq h.laid rd (y := g.hwPos) (n := g.hw)
      (by rw [h.size]; omega) h.hwTail bdLimit.toNat 0 hpos
    refine ⟨k, hk, ?_, fun j hj => hdone j (Nat.zero_le j) (by omega)⟩
    rw [Nat.add_zero, ← h.hwHead] at heq
    rw [examined, if_neg hzero, heq, List.range_eq_range']
    rfl

/-! ## The observer -/

/-- A ring, with the number of times each BD has been submitted, and the submissions that a poll has
seen with `DMA_BD_ERROR_MASK` and with `DMA_BD_SHORT_MASK`. -/
structure CountSys where
  chan : Chan
  turn : U32 → ℕ
  errSeen : Finset (U32 × ℕ)
  shortSeen : Finset (U32 × ℕ)

def countStep (s : CountSys) (op : RingOp) : Option CountSys :=
  (ringStep s.chan op).map fun c =>
    match op with
    | .toHw numBd bdSetPtr =>
      if (bdRingToHw s.chan numBd bdSetPtr).1 = .success then
        { s with chan := c, turn := issue s.turn (bdsFrom s.chan.ring numBd.toNat bdSetPtr) }
      else { s with chan := c }
    | .fromHw rd bdLimit =>
      let l := examined s.chan.ring rd bdLimit
      { s with
        chan := c
        errSeen := look s.turn s.errSeen (seenWith bdErrorMask l)
        shortSeen := look s.turn s.shortSeen (seenWith bdShortMask l) }
    | _ => { s with chan := c }

def countSys (c : Chan) : CountSys where
  chan := c
  turn := fun _ => 0
  errSeen := ∅
  shortSeen := ∅

/-- The counters say how many submissions have been seen with an error; they are 32 bits wide. -/
structure Counted (s : CountSys) : Prop where
  bdErrs : s.chan.ring.bdErrs.toNat = s.errSeen.card % 2 ^ 32
  bdSErrs : s.chan.ring.isRxChannel = false →
    s.chan.ring.bdSErrs.toNat = s.shortSeen.card % 2 ^ 32

/-- What pass `j` of a scan reads, if the scan gets there. -/
def scanAt (r : BdRing) (rd : ℕ → Mem) (j : ℕ) : BdSeen :=
  bdSeen rd j ((bdRingNext r)^[j] r.hwHead)

/-- The BDs before pass `j` are finished. -/
def FinishedTo (r : BdRing) (rd : ℕ → Mem) (j : ℕ) : Prop :=
  ∀ i < j, (scanAt r rd i).Done r.isRxChannel

instance (r : BdRing) (rd : ℕ → Mem) (j : ℕ) : Decidable (FinishedTo r rd j) := by
  unfold FinishedTo; infer_instance

/-- Of `n` BDs, one from `j` on ends a packet, and the BDs up to it are finished. -/
def PacketEnds (r : BdRing) (rd : ℕ → Mem) (n j : ℕ) : Prop :=
  ∃ k < n, j ≤ k ∧ FinishedTo r rd (k + 1) ∧ (scanAt r rd k).Boundary r.isRxChannel

instance (r : BdRing) (rd : ℕ → Mem) (n j : ℕ) : Decidable (PacketEnds r rd n j) := by
  unfold PacketEnds; infer_instance

/-- Where the scan gets to a BD with an error, the BD is finished; where it gets to one that was
processed short, for sending, it goes on to the end of the packet. -/
def TakesErrors (r : BdRing) (rd : ℕ → Mem) (bdLimit : U32) : Prop :=
  ∀ j < min bdLimit.toNat r.hwCnt.toNat, FinishedTo r rd j →
    (Flag (scanAt r rd j).bdStsCr bdErrorMask → (scanAt r rd j).Done r.isRxChannel) ∧
    (r.isRxChannel = false → Flag (scanAt r rd j).bdStsCr bdShortMask →
      PacketEnds r rd (min bdLimit.toNat r.hwCnt.toNat) j)

instance (r : BdRing) (rd : ℕ → Mem) (bdLimit : U32) : Decidable (TakesErrors r rd bdLimit) := by
  unfold TakesErrors; infer_instance

def PollsTakeErrors (s : CountSys) : RingOp → Prop
  | .fromHw rd bdLimit => TakesErrors s.chan.ring rd bdLimit
  | _ => True

instance (s : CountSys) (op : RingOp) : Decidable (PollsTakeErrors s op) := by
  cases op <;> unfold PollsTakeErrors <;> infer_instance

/-! ## The counters under the other operations -/

theorem toHw_counts (c : Chan) (numBd bdSetPtr : U32) :
    (bdRingToHw c numBd bdSetPtr).2.ring.bdErrs = c.ring.bdErrs ∧
      (bdRingToHw c numBd bdSetPtr).2.ring.bdSErrs = c.ring.bdSErrs := by
  unfold bdRingToHw
  dsimp only
  split_ifs <;> exact ⟨rfl, rfl⟩

theorem forceFromHw_counts (r : BdRing) (bdLimit : U32) :
    (bdRingForceFromHw r bdLimit).2.2.bdErrs = r.bdErrs ∧
      (bdRingForceFromHw r bdLimit).2.2.bdSErrs = r.bdSErrs := by
  unfold bdRingForceFromHw
  dsimp only
  split_ifs <;> exact ⟨rfl, rfl⟩

/-! ## One poll -/

theorem Parts.scanAt_eq (h : Parts r g) (rd : ℕ → Mem) (j : ℕ) :
    scanAt r rd j = hwSeen r rd g j := by
  rw [scanAt, h.hwHead, h.laid.iterate_next]
  rfl

/-- The BDs seen with a bit of `mask`, if none of them is behind the first `k`. -/
theorem seenWith_taken (h : Parts r g) (rd : ℕ → Mem) {m k : ℕ} (hm : m ≤ g.hw) {mask : U32}
    (htaken : ∀ j < m, Flag (hwSeen r rd g j).bdStsCr mask → j < k) :
    let l := (List.range m).map fun j => (bdAt r (g.hwPos + j), hwSeen r rd g j)
    seenWith mask l ⊆ arc (bdAt r) g.hwPos k ∧ (seenWith mask l).Nodup := by
  have hlap := g.lap
  intro l
  have hfst : l.map Prod.fst = arc (bdAt r) g.hwPos m := by
    rw [arc, List.range'_eq_map_range, List.map_map, List.map_map]
    rfl
  constructor
  · intro bd hbd
    obtain ⟨e, he, rfl⟩ := List.mem_map.1 hbd
    obtain ⟨hin, hflag⟩ := List.mem_filter.1 he
    obtain ⟨j, hj, rfl⟩ := List.mem_map.1 hin
    exact mem_arc.2 ⟨j, htaken j (List.mem_range.1 hj) (of_decide_eq_true hflag), rfl⟩
  · refine List.Nodup.sublist (List.filter_sublist.map Prod.fst) ?_
    rw [hfst]
    exact arc_nodup h.circle (by omega)

/-- **A poll that takes the bad BDs**: they are among those that leave the Hardware group. -/
theorem poll_takes (h : Parts r g) {rd : ℕ → Mem} {bdLimit : U32}
    (htakes : TakesErrors r rd bdLimit) :
    ∃ taken g', Parts (bdRingFromHw r rd bdLimit).2.2 g' ∧
      (bdRingFromHw r rd bdLimit).2.2.base = r.base ∧
      hwBds r = taken ++ hwBds (bdRingFromHw r rd bdLimit).2.2 ∧
      (seenWith bdErrorMask (examined r rd bdLimit) ⊆ taken ∧
        (seenWith bdErrorMask (examined r rd bdLimit)).Nodup) ∧
      (r.isRxChannel = false → seenWith bdShortMask (examined r rd bdLimit) ⊆ taken ∧
        (seenWith bdShortMask (examined r rd bdLimit)).Nodup) := by
  obtain ⟨m, hm, hexamined, hdone⟩ := examined_eq h rd bdLimit
  obtain ⟨k, r', hk, heq, hwhole, hparts, hbase⟩ := h.fromHw rd bdLimit
  have hfinished : ∀ j, (∀ i < j, (hwSeen r rd g i).Done r.isRxChannel) → FinishedTo r rd j :=
    fun j hj i hi => by
      rw [h.scanAt_eq]
      exact hj i hi
  have hbefore : ∀ j < m, FinishedTo r rd j := fun j hj =>
    hfinished j fun i hi => hdone i (by omega)
  -- A BD up to which all are finished and which ends a packet is taken.
  have hboundary : ∀ j < min bdLimit.toNat g.hw, FinishedTo r rd (j + 1) →
      (hwSeen r rd g j).Boundary r.isRxChannel → j < k := by
    intro j hj hfin hb
    by_contra hkj
    obtain ⟨i, hi, hnot⟩ := hwhole.max j (by omega) hj hb
    have hd := hfin i (by omega)
    rw [h.scanAt_eq] at hd
    exact hnot hd
  rw [heq, hexamined]
  refine ⟨arc (bdAt r) g.hwPos k, _, hparts, hbase, ?_, ?_, fun hrx => ?_⟩
  · rw [h.hwBds_eq, hparts.hwBds_eq, bdAt_congr (block_of_base hbase), g.fromHw_hwPos]
    show arc (bdAt r) g.hwPos g.hw = _ ++ arc (bdAt r) (g.hwPos + k) (g.hw - k)
    rw [arc_append, Nat.add_sub_cancel' hk]
  · refine seenWith_taken h rd (by omega) fun j hj herr => ?_
    have herr' := (htakes j (by rw [h.hwCnt]; omega) (hbefore j hj)).1
    rw [h.scanAt_eq] at herr'
    refine hboundary j (by omega) (fun i hi => ?_) (Or.inr (Or.inr herr))
    rcases Nat.lt_succ_iff_lt_or_eq.1 hi with hi | rfl
    · exact hbefore j hj i hi
    · rw [h.scanAt_eq]
      exact herr' herr
  · refine seenWith_taken h rd (by omega) fun j hj hshort => ?_
    have hends := (htakes j (by rw [h.hwCnt]; omega) (hbefore j hj)).2 hrx
    rw [h.scanAt_eq, h.hwCnt] at hends
    obtain ⟨i, hi, hji, hfin, hb⟩ := hends hshort
    rw [h.scanAt_eq] at hb
    exact hji.trans_lt (hboundary i hi hfin hb)

/-! ## The run -/

/-- **The invariant**: the counters are right, and no BD of the Hardware group has been seen with an
error since it was submitted. -/
structure CountInv (s : CountSys) : Prop where
  parts : ∃ g, Parts s.chan.ring g
  err : Fresh s.turn (hwBds s.chan.ring) s.errSeen
  bdErrs : s.chan.ring.bdErrs = BitVec.ofNat 32 s.errSeen.card
  short : s.chan.ring.isRxChannel = false → Fresh s.turn (hwBds s.chan.ring) s.shortSeen
  bdSErrs : s.chan.ring.isRxChannel = false →
    s.chan.ring.bdSErrs = BitVec.ofNat 32 s.shortSeen.card

variable {s s' : CountSys}

/-- The Hardware group may only lose BDs, and the counters stay. -/
theorem CountInv.leave (h : CountInv s) {c : Chan} (hparts : ∃ g, Parts c.ring g)
    (hblock : c.ring.block = s.chan.ring.block) (hhw : hwBds c.ring ⊆ hwBds s.chan.ring)
    (hcnt : c.ring.bdErrs = s.chan.ring.bdErrs ∧ c.ring.bdSErrs = s.chan.ring.bdSErrs) :
    CountInv { s with chan := c } := by
  have hrx : c.ring.isRxChannel = s.chan.ring.isRxChannel := isRx_congr hblock
  refine ⟨hparts, h.err.mono hhw, hcnt.1.trans h.bdErrs, fun hdir => ?_, fun hdir => ?_⟩
  · exact (h.short (hrx ▸ hdir)).mono hhw
  · exact hcnt.2.trans (h.bdSErrs (hrx ▸ hdir))

theorem CountInv.quiet (h : CountInv s) {op : RingOp} {c : Chan}
    (hstep : ringStep s.chan op = some c) (hop : op.Quiet) : CountInv { s with chan := c } := by
  obtain ⟨g, hg⟩ := h.parts
  obtain ⟨g', hkept⟩ := ringStep_parts hg hstep
  have hsame := hop.sameHw hstep
  exact h.leave ⟨g', hkept.parts⟩ (block_of_base hsame.base)
    (by rw [hsame.hwBds]; exact List.Subset.refl _)
    ⟨hsame.bdErrs, hsame.bdSErrs⟩

theorem CountInv.forceFromHw (h : CountInv s) (bdLimit : U32) :
    CountInv { s with
      chan := { s.chan with ring := (bdRingForceFromHw s.chan.ring bdLimit).2.2 } } := by
  obtain ⟨g, hg⟩ := h.parts
  obtain ⟨r', hk, heq, hparts, hbase⟩ := hg.forceFromHw bdLimit
  have hcnt := forceFromHw_counts s.chan.ring bdLimit
  rw [heq] at hcnt ⊢
  refine h.leave ⟨_, hparts⟩ (block_of_base hbase) ?_ hcnt
  rw [hg.hwBds_eq, hparts.hwBds_eq, bdAt_congr (block_of_base hbase), g.fromHw_hwPos]
  intro bd hbd
  obtain ⟨i, hi, rfl⟩ := mem_arc.1 hbd
  have hi' : i < g.hw - min bdLimit.toNat g.hw := hi
  exact mem_arc.2 ⟨min bdLimit.toNat g.hw + i, by omega, by rw [Nat.add_assoc]⟩

theorem CountInv.start (h : CountInv s) :
    CountInv { s with chan := (bdRingStart s.chan).2 } := by
  obtain ⟨g, hg⟩ := h.parts
  have hkept := start_kept hg
  refine h.leave ⟨g, hkept.parts⟩ hkept.block ?_ ?_
  · rw [hg.hwBds_eq, hkept.parts.hwBds_eq, bdAt_congr hkept.block]
    exact List.Subset.refl _
  · unfold bdRingStart
    split_ifs <;> exact ⟨rfl, rfl⟩

/-- What is submitted starts a new turn. -/
theorem CountInv.toHw (h : CountInv s) (numBd bdSetPtr : U32)
    (hok : (bdRingToHw s.chan numBd bdSetPtr).1 = .success) :
    CountInv { s with
      chan := (bdRingToHw s.chan numBd bdSetPtr).2
      turn := issue s.turn (bdsFrom s.chan.ring numBd.toNat bdSetPtr) } := by
  obtain ⟨g, hg⟩ := h.parts
  obtain ⟨herrs, hshorts⟩ := toHw_counts s.chan numBd bdSetPtr
  obtain ⟨g', hkept⟩ := toHw_kept hg numBd bdSetPtr
  have hrx : (bdRingToHw s.chan numBd bdSetPtr).2.ring.isRxChannel = s.chan.ring.isRxChannel :=
    isRx_congr hkept.block
  have hhw : hwBds (bdRingToHw s.chan numBd bdSetPtr).2.ring =
      hwBds s.chan.ring ++ bdsFrom s.chan.ring numBd.toNat bdSetPtr := by
    by_cases hpos : numBd = 0
    · rw [hpos, toHw_zero]
      exact (List.append_nil _).symm
    · obtain ⟨hle, rfl, hsop, hloop⟩ := hg.toHw_success hpos hok
      obtain ⟨r', heq, hparts, hbase⟩ := hg.toHw hpos hle hsop hloop
      rw [heq, hg.hwBds_eq, bdsFrom_eq hg.laid]
      show hwBds r' = _
      rw [hparts.hwBds_eq, bdAt_congr (block_of_base hbase), g.toHw_hwPos]
      exact (arc_append _ _ _ _).symm
  have hdisj : List.Disjoint (hwBds s.chan.ring) (bdsFrom s.chan.ring numBd.toNat bdSetPtr) := by
    have hnodup := hkept.parts.nodup_hwBds
    rw [hhw] at hnodup
    exact List.disjoint_of_nodup_append hnodup
  refine ⟨⟨g', hkept.parts⟩, ?_, herrs.trans h.bdErrs, fun hdir => ?_, fun hdir => ?_⟩
  · dsimp only
    rw [hhw]
    exact h.err.issue hdisj
  · dsimp only
    rw [hhw]
    exact (h.short (hrx ▸ hdir)).issue hdisj
  · exact hshorts.trans (h.bdSErrs (hrx ▸ hdir))

/-- A poll that takes the bad BDs counts new submissions only. -/
theorem CountInv.fromHw (h : CountInv s) {rd : ℕ → Mem} {bdLimit : U32}
    (htakes : TakesErrors s.chan.ring rd bdLimit) :
    let l := examined s.chan.ring rd bdLimit
    CountInv { s with
      chan := { s.chan with ring := (bdRingFromHw s.chan.ring rd bdLimit).2.2 }
      errSeen := look s.turn s.errSeen (seenWith bdErrorMask l)
      shortSeen := look s.turn s.shortSeen (seenWith bdShortMask l) } := by
  intro l
  obtain ⟨g, hg⟩ := h.parts
  obtain ⟨taken, g', hparts, hbase, hhw, ⟨herr, herrNodup⟩, hshort⟩ := poll_takes hg htakes
  obtain ⟨herrs, hshorts⟩ := fromHw_counts s.chan.ring rd bdLimit
  have hrx : (bdRingFromHw s.chan.ring rd bdLimit).2.2.isRxChannel = s.chan.ring.isRxChannel :=
    isRx_congr (block_of_base hbase)
  have hrest : hwBds (bdRingFromHw s.chan.ring rd bdLimit).2.2 ⊆ hwBds s.chan.ring := by
    rw [hhw]
    exact List.subset_append_right _ _
  have htaken : taken ⊆ hwBds s.chan.ring := by
    rw [hhw]
    exact List.subset_append_left _ _
  have hdisj : List.Disjoint taken (hwBds (bdRingFromHw s.chan.ring rd bdLimit).2.2) := by
    have hnodup := hg.nodup_hwBds
    rw [hhw] at hnodup
    exact List.disjoint_of_nodup_append hnodup
  have hleft : ∀ {b : List U32}, b ⊆ taken →
      List.Disjoint (hwBds (bdRingFromHw s.chan.ring rd bdLimit).2.2) b :=
    fun hb bd hin hbd => hdisj (hb hbd) hin
  refine ⟨⟨g', hparts⟩, h.err.look hrest (hleft herr), ?_, fun hdir => ?_, fun hdir => ?_⟩
  · dsimp only
    rw [h.err.card_look (List.Subset.trans herr htaken) herrNodup, BitVec.ofNat_add, ← h.bdErrs]
    exact herrs
  · exact (h.short (hrx ▸ hdir)).look hrest (hleft (hshort (hrx ▸ hdir)).1)
  · have hdir' := hrx ▸ hdir
    obtain ⟨hsub, hnodup⟩ := hshort hdir'
    dsimp only
    rw [(h.short hdir').card_look (List.Subset.trans hsub htaken) hnodup, BitVec.ofNat_add,
      ← h.bdSErrs hdir']
    exact hshorts hdir'

/-- **One step.** -/
theorem CountInv.step {op : RingOp} (h : CountInv s) (hok : PollsTakeErrors s op)
    (hstep : countStep s op = some s') : CountInv s' := by
  obtain ⟨c, hc, rfl⟩ := Option.map_eq_some_iff.1 hstep
  cases op with
  | toHw numBd bdSetPtr =>
    rw [← Option.some.inj hc]
    dsimp only
    by_cases hsucc : (bdRingToHw s.chan numBd bdSetPtr).1 = .success
    · rw [if_pos hsucc]
      exact h.toHw numBd bdSetPtr hsucc
    · rw [if_neg hsucc]
      obtain ⟨g, hg⟩ := h.parts
      obtain ⟨hring, -⟩ := toHw_rejected hsucc
      refine h.leave ⟨g, by rwa [hring]⟩ (by rw [hring]) (by rw [hring]; exact List.Subset.refl _) ?_
      rw [hring]
      exact ⟨rfl, rfl⟩
  | fromHw rd bdLimit =>
    rw [← Option.some.inj hc]
    exact h.fromHw hok
  | forceFromHw bdLimit =>
    rw [← Option.some.inj hc]
    exact h.forceFromHw bdLimit
  | start =>
    rw [← Option.some.inj hc]
    exact h.start
  | alloc | unAlloc | free | hwWrite | setCtrl | setStatus | setCtrlLength | setStatLength
    | setId | setBufAddr | setUserData =>
    exact h.quiet hc trivial

/-- **Each bad submission is counted once**, while every poll takes the bad BDs that it sees. -/
theorem errors_countedOnce (c : Chan) (physAddr virtAddr alignment bdCount : U32)
    (hok : (bdRingCreate c physAddr virtAddr alignment bdCount).1 = .success)
    (hfits : Fits virtAddr (bdRingCreate c physAddr virtAddr alignment bdCount).2.ring.separation
      bdCount)
    (ops : List RingOp) (s : CountSys)
    (htakes : Along countStep PollsTakeErrors
      (countSys (bdRingCreate c physAddr virtAddr alignment bdCount).2) ops)
    (hrun : run countStep (countSys (bdRingCreate c physAddr virtAddr alignment bdCount).2) ops =
      some s) : Counted s := by
  have hinv : CountInv s := by
    refine run_inv (fun s op s' h hok hstep => CountInv.step h hok hstep) ?_ htakes hrun
    have hparts := create_parts hok hfits
    rw [(create_success hok).2.2.2] at hparts ⊢
    exact ⟨⟨_, hparts⟩, Fresh.empty _ _, rfl, fun _ => Fresh.empty _ _, fun _ => rfl⟩
  refine ⟨?_, fun hrx => ?_⟩
  · rw [hinv.bdErrs, BitVec.toNat_ofNat]
  · rw [hinv.bdSErrs hrx, BitVec.toNat_ofNat]

/-- A ring of four BDs for sending, with a packet of two BDs given to the hardware. -/
def twoBdPacket : List RingOp :=
  [.alloc 2, .setCtrl 0 0x80000000, .setCtrlLength 0 64, .setCtrl 1 0x40000000,
    .setCtrlLength 1 64, .toHw 2 0x1000]

/-- The first BD was processed short, and the second is completed with an error: both are taken. -/
def bothBad : List RingOp :=
  twoBdPacket ++ [.hwWrite 0 0x03000020 0 0, .hwWrite 1 0x11000040 0 0,
    .fromHw (fun _ a => if a = 0x1000 then 0x03000020 else if a = 0x1040 then 0x11000040 else 0) 4]

theorem errors_countedOnce_bothBad : ∃ s,
    run countStep (countSys (bdRingCreate (initializedChan false fun _ => 0) 0 0x1000 64 4).2)
      bothBad = some s ∧ Counted s :=
  ⟨_, rfl, errors_countedOnce (initializedChan false fun _ => 0) 0 0x1000 64 4 (by decide)
    (by decide) bothBad _ (by decide +kernel) rfl⟩

/-- **Counted again.** The first BD of a packet was processed short and the second is still in work:
the first stays in the Hardware group, and each poll counts it. A BD that shows an error and is not
yet completed is counted by each poll as well. -/
theorem counted_again :
    (∃ s₁ s₂ s₃,
      run countStep (countSys (bdRingCreate (initializedChan false fun _ => 0) 0 0x1000 64 4).2)
        (twoBdPacket ++ [.hwWrite 0 0x03000020 0 0]) = some s₁ ∧
      countStep s₁ (.fromHw (fun _ => s₁.chan.mem) 4) = some s₂ ∧
      countStep s₂ (.fromHw (fun _ => s₂.chan.mem) 4) = some s₃ ∧
      s₃.chan.ring.bdSErrs = 2 ∧ s₃.shortSeen.card = 1 ∧ ¬ Counted s₃) ∧
    ∃ s₁ s₂ s₃,
      run countStep (countSys (bdRingCreate (initializedChan false fun _ => 0) 0 0x1000 64 4).2)
        (twoBdPacket ++ [.hwWrite 0 0x10000000 0 0]) = some s₁ ∧
      countStep s₁ (.fromHw (fun _ => s₁.chan.mem) 4) = some s₂ ∧
      countStep s₂ (.fromHw (fun _ => s₂.chan.mem) 4) = some s₃ ∧
      s₃.chan.ring.bdErrs = 2 ∧ s₃.errSeen.card = 1 ∧ ¬ Counted s₃ := by
  constructor
  · refine ⟨_, _, _, rfl, rfl, rfl, by decide +kernel, by decide +kernel, fun h => ?_⟩
    exact absurd (h.bdSErrs rfl) (by decide +kernel)
  · refine ⟨_, _, _, rfl, rfl, rfl, by decide +kernel, by decide +kernel, fun h => ?_⟩
    exact absurd h.bdErrs (by decide +kernel)

end Dma
