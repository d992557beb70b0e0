import Mathlib.Order.Bounds.Basic
import MyDriver.Xdma.ErrorCount
import MyDriver.Xdma.UserWords

/-!
# The contracts of `Dma_BdRingFromHw` and `Dma_BdRingToHw`

What the two functions are to do on any reachable ring, said in terms of the words in memory and
without the loops and counters of the source.

* `fromHw_greatest` — `Dma_BdRingFromHw` returns the largest number of finished BDs that ends a
  packet, and moves exactly these.
* `toHw_success_iff` — what `Dma_BdRingToHw` accepts.
* `toHw_contract_iff` — this is its contract but for a set for sending that does not end a packet,
  which is accepted.
-/

namespace Dma

open Cyclic Runs

/-- A ring that has been created in a block that does not wrap, after any run of operations. -/
def Reached (c : Chan) : Prop :=
  ∃ (c₀ : Chan) (physAddr virtAddr alignment bdCount : U32) (ops : List RingOp),
    (bdRingCreate c₀ physAddr virtAddr alignment bdCount).1 = .success ∧
    Fits virtAddr (bdRingCreate c₀ physAddr virtAddr alignment bdCount).2.ring.separation bdCount ∧
    run ringStep (bdRingCreate c₀ physAddr virtAddr alignment bdCount).2 ops = some c

theorem Reached.parts {c : Chan} (h : Reached c) : ∃ g, Parts c.ring g := by
  obtain ⟨c₀, p, v, a, n, ops, hok, hfits, hrun⟩ := h
  obtain ⟨g, hg⟩ := run_kept (create_parts hok hfits) hrun
  exact ⟨g, hg.parts⟩

/-! ## `Dma_BdRingFromHw` -/

/-- The high user word that pass `j` of a scan reads, if the scan gets there. -/
def usrhAt (r : BdRing) (rd : ℕ → Mem) (j : ℕ) : U32 :=
  bdRead (rd (4 * j + 2)) ((bdRingNext r)^[j] r.hwHead) bdUsrhOffset

def usrlAt (r : BdRing) (rd : ℕ → Mem) (j : ℕ) : U32 :=
  bdRead (rd (4 * j + 3)) ((bdRingNext r)^[j] r.hwHead) bdUsrlOffset

/-- The BD number `j` of the Hardware group is done: it is completed, and the user words of a
received packet that are not announced as zero are there. -/
def DoneAt (r : BdRing) (rd : ℕ → Mem) (j : ℕ) : Prop :=
  Flag (scanAt r rd j).bdStsCr bdCompMask ∧
    (r.isRxChannel = true → Flag (scanAt r rd j).bdStsCr bdEopMask →
      (¬ Flag (scanAt r rd j).bdStsCr bdUserHighZeroMask → usrhAt r rd j ≠ 0) ∧
      (¬ Flag (scanAt r rd j).bdStsCr bdUserLowZeroMask → usrlAt r rd j ≠ 0))

/-- It is a boundary: it has an error, or it ends a packet. -/
def BoundaryAt (r : BdRing) (rd : ℕ → Mem) (j : ℕ) : Prop :=
  Flag (scanAt r rd j).bdStsCr bdErrorMask ∨
    (r.isRxChannel = true ∧ Flag (scanAt r rd j).bdStsCr bdEopMask) ∨
    (r.isRxChannel = false ∧ Flag (scanAt r rd j).bdCtrl bdEopMask)

instance (r : BdRing) (rd : ℕ → Mem) (j : ℕ) : Decidable (DoneAt r rd j) := by
  unfold DoneAt; infer_instance

instance (r : BdRing) (rd : ℕ → Mem) (j : ℕ) : Decidable (BoundaryAt r rd j) := by
  unfold BoundaryAt; infer_instance

/-- How many of the first `n` BDs are done, up to the first that is not. -/
def leadingDone (r : BdRing) (rd : ℕ → Mem) : ℕ → ℕ
  | 0 => 0
  | n + 1 => if leadingDone r rd n = n ∧ DoneAt r rd n then n + 1 else leadingDone r rd n

/-- The BDs of the Post group, from `PostHead` on. -/
def postBds (r : BdRing) : List U32 := bdsFrom r r.postCnt.toNat r.postHead

section Words

/-- The halves of the user data, as the source looks at them. -/
theorem userData_high_iff (usrh usrl : U32) :
    userData usrh usrl &&& 0xFFFFFFFF00000000 = 0 ↔ usrh = 0 := by
  constructor
  · intro hzero
    have hmask : ∀ i < 32, (0xFFFFFFFF00000000 : BitVec 64).getLsbD (32 + i) = true := by decide
    refine BitVec.eq_of_getLsbD_eq fun i hi => ?_
    have hbit := congrArg (fun w => BitVec.getLsbD w (32 + i)) hzero
    have hout : usrl.getLsbD (32 + i) = false := BitVec.getLsbD_of_ge usrl _ (Nat.le_add_right 32 i)
    rw [userData, BitVec.getLsbD_and, hmask i hi, Bool.and_true, BitVec.getLsbD_or,
      BitVec.getLsbD_shiftLeft, BitVec.getLsbD_setWidth, BitVec.getLsbD_setWidth, hout] at hbit
    have hlt : 32 + i < 64 := by omega
    have hge : ¬ 32 + i < 32 := by omega
    have hlt' : i < 64 := by omega
    simp only [hlt, hge, hlt', Nat.add_sub_cancel_left, decide_true, decide_false, Bool.not_false,
      Bool.true_and, Bool.and_false, Bool.or_false] at hbit
    rw [hbit]
    exact (BitVec.getLsbD_zero (w := 64)).trans BitVec.getLsbD_zero.symm
  · rintro rfl
    exact userData_high usrl

theorem userData_low_iff (usrh usrl : U32) : userData usrh usrl &&& 0xFFFFFFFF = 0 ↔ usrl = 0 := by
  constructor
  · intro hzero
    have hmask : ∀ i < 32, (0xFFFFFFFF : BitVec 64).getLsbD i = true := by decide
    refine BitVec.eq_of_getLsbD_eq fun i hi => ?_
    have hbit := congrArg (fun w => BitVec.getLsbD w i) hzero
    rw [userData, BitVec.getLsbD_and, hmask i hi, Bool.and_true, BitVec.getLsbD_or,
      BitVec.getLsbD_shiftLeft, BitVec.getLsbD_setWidth, BitVec.getLsbD_setWidth] at hbit
    have hlt : i < 64 := by omega
    simp only [hi, hlt, decide_true, Bool.not_true, Bool.and_false, Bool.false_and, Bool.true_and,
      Bool.false_or] at hbit
    rw [hbit]
    exact (BitVec.getLsbD_zero (w := 64)).trans BitVec.getLsbD_zero.symm
  · rintro rfl
    exact userData_low usrh

end Words

section FromHw

variable {r : BdRing} {g : Split}

/-- What the source tests is what is asked for. -/
theorem doneAt_iff (r : BdRing) (rd : ℕ → Mem) (j : ℕ) :
    DoneAt r rd j ↔ (scanAt r rd j).Done r.isRxChannel := by
  have hinfo : (scanAt r rd j).userInfo = userData (usrhAt r rd j) (usrlAt r rd j) := rfl
  rw [DoneAt, BdSeen.Done, hinfo, userData_high_iff, userData_low_iff]
  refine and_congr_right fun _ => ?_
  constructor
  · rintro hwords ⟨hrx, heop, hmiss⟩
    obtain ⟨hhigh, hlow⟩ := hwords hrx heop
    rcases hmiss with ⟨hflag, hzero⟩ | ⟨hflag, hzero⟩
    · exact hhigh hflag hzero
    · exact hlow hflag hzero
  · intro hnone hrx heop
    exact ⟨fun hflag hzero => hnone ⟨hrx, heop, Or.inl ⟨hflag, hzero⟩⟩,
      fun hflag hzero => hnone ⟨hrx, heop, Or.inr ⟨hflag, hzero⟩⟩⟩

theorem boundaryAt_iff (r : BdRing) (rd : ℕ → Mem) (j : ℕ) :
    BoundaryAt r rd j ↔ (scanAt r rd j).Boundary r.isRxChannel := by
  rw [BoundaryAt, or_comm, or_assoc]
  rfl

theorem leadingDone_le (r : BdRing) (rd : ℕ → Mem) (n : ℕ) : leadingDone r rd n ≤ n := by
  induction n with
  | zero => exact le_rfl
  | succ n ih =>
    rw [leadingDone]
    split_ifs
    · exact le_rfl
    · exact ih.trans (Nat.le_succ n)

theorem leadingDone_done (r : BdRing) (rd : ℕ → Mem) (n : ℕ) :
    ∀ j < leadingDone r rd n, DoneAt r rd j := by
  induction n with
  | zero => exact fun j hj => absurd hj (Nat.not_lt_zero j)
  | succ n ih =>
    rw [leadingDone]
    split_ifs with hnext
    · intro j hj
      rcases Nat.lt_succ_iff_lt_or_eq.1 hj with hj | rfl
      · exact ih j (by rw [hnext.1]; exact hj)
      · exact hnext.2
    · exact ih

theorem leadingDone_stop (r : BdRing) (rd : ℕ → Mem) {n : ℕ} (hlt : leadingDone r rd n < n) :
    ¬ DoneAt r rd (leadingDone r rd n) := by
  induction n with
  | zero => exact absurd hlt (Nat.not_lt_zero _)
  | succ n ih =>
    rw [leadingDone] at hlt ⊢
    split_ifs at hlt ⊢ with hnext
    · exact absurd hlt (lt_irrefl _)
    · by_cases heq : leadingDone r rd n = n
      · rw [heq]
        exact fun hdone => hnext ⟨heq, hdone⟩
      · exact ih (lt_of_le_of_ne (leadingDone_le r rd n) heq)

/-- What is finished is among the leading BDs. -/
theorem le_leadingDone {rd : ℕ → Mem} {n k : ℕ} (hk : k ≤ n) (hdone : ∀ j < k, DoneAt r rd j) :
    k ≤ leadingDone r rd n := by
  by_contra hlt
  exact leadingDone_stop r rd (by omega) (hdone _ (not_le.1 hlt))

/-- **The number of BDs that are taken.** -/
theorem Parts.isGreatest_taken (h : Parts r g) {rd : ℕ → Mem} {n k : ℕ}
    (hwhole : WholePackets (hwSeen r rd g) r.isRxChannel n k) :
    IsGreatest {k | k ≤ leadingDone r rd n ∧ (k = 0 ∨ BoundaryAt r rd (k - 1))} k := by
  have hdone : ∀ j, DoneAt r rd j ↔ (hwSeen r rd g j).Done r.isRxChannel := fun j => by
    rw [doneAt_iff, h.scanAt_eq]
  have hends : ∀ j, BoundaryAt r rd j ↔ (hwSeen r rd g j).Boundary r.isRxChannel := fun j => by
    rw [boundaryAt_iff, h.scanAt_eq]
  refine ⟨⟨le_leadingDone hwhole.le fun j hj => (hdone j).2 (hwhole.done j hj), ?_⟩, ?_⟩
  · rcases Nat.eq_zero_or_pos k with hzero | hpos
    · exact Or.inl hzero
    · exact Or.inr ((hends _).2 (hwhole.boundary hpos))
  · rintro i ⟨hi, hboundary⟩
    by_contra hki
    have hle := leadingDone_le r rd n
    have hends' := (hends _).1 (hboundary.resolve_left (by omega))
    obtain ⟨l, hl, hnot⟩ := hwhole.max (i - 1) (by omega) (by omega) hends'
    exact hnot ((hdone l).1 (leadingDone_done r rd n l (by omega)))

/-- What the source writes when there is something to take. -/
theorem fromHw_some {rd : ℕ → Mem} {bdLimit : U32} (hsome : (bdRingFromHw r rd bdLimit).1 ≠ 0) :
    (bdRingFromHw r rd bdLimit).2.2 = { r with
      hwHead := ringSeekahead r r.hwHead (BitVec.ofNat 32 (bdRingFromHw r rd bdLimit).1)
      hwCnt := r.hwCnt - BitVec.ofNat 32 (bdRingFromHw r rd bdLimit).1
      postCnt := r.postCnt + BitVec.ofNat 32 (bdRingFromHw r rd bdLimit).1
      bdErrs := (bdRingFromHw r rd bdLimit).2.2.bdErrs
      bdSErrs := (bdRingFromHw r rd bdLimit).2.2.bdSErrs } := by
  unfold bdRingFromHw at hsome ⊢
  dsimp only at hsome ⊢
  split_ifs at hsome ⊢
  · exact absurd rfl hsome
  · exact absurd rfl hsome
  · rfl

theorem fromHw_none {rd : ℕ → Mem} {bdLimit : U32} (hnone : (bdRingFromHw r rd bdLimit).1 = 0) :
    (bdRingFromHw r rd bdLimit).2.1 = 0 ∧ (bdRingFromHw r rd bdLimit).2.2 = { r with
      bdErrs := (bdRingFromHw r rd bdLimit).2.2.bdErrs
      bdSErrs := (bdRingFromHw r rd bdLimit).2.2.bdSErrs } := by
  unfold bdRingFromHw at hnone ⊢
  dsimp only at hnone ⊢
  split_ifs at hnone ⊢ with hempty hcount
  · exact ⟨rfl, rfl⟩
  · exact ⟨rfl, rfl⟩
  · exact absurd hnone hcount

theorem Parts.postBds_eq (h : Parts r g) : postBds r = arc (bdAt r) g.start g.post := by
  rw [postBds, h.postCnt, h.postHead, bdsFrom_eq h.laid]

end FromHw

/-- **Whole finished packets.** Of the leading done BDs of the Hardware group, within the limit,
`Dma_BdRingFromHw` takes as many as there are up to the last boundary, and moves these from the
Hardware to the Post group. The hardware may write to the BDs before each of its word reads. -/
theorem fromHw_greatest (c : Chan) (hc : Reached c) (rd : ℕ → Mem) (bdLimit : U32) :
    let got := bdRingFromHw c.ring rd bdLimit
    IsGreatest {k | k ≤ leadingDone c.ring rd (min bdLimit.toNat c.ring.hwCnt.toNat) ∧
        (k = 0 ∨ BoundaryAt c.ring rd (k - 1))} got.1 ∧
      (0 < got.1 →
        got.2.1 = c.ring.hwHead ∧
        got.2.2 = { c.ring with
          hwHead := (bdRingNext c.ring)^[got.1] c.ring.hwHead
          hwCnt := c.ring.hwCnt - BitVec.ofNat 32 got.1
          postCnt := c.ring.postCnt + BitVec.ofNat 32 got.1
          bdErrs := got.2.2.bdErrs
          bdSErrs := got.2.2.bdSErrs } ∧
        postBds got.2.2 = postBds c.ring ++ (hwBds c.ring).take got.1 ∧
        hwBds got.2.2 = (hwBds c.ring).drop got.1 ∧ got.1 ≤ c.ring.hwCnt.toNat) ∧
      (got.1 = 0 → got.2.1 = 0 ∧ got.2.2 = { c.ring with
        bdErrs := got.2.2.bdErrs
        bdSErrs := got.2.2.bdSErrs }) := by
  intro got
  obtain ⟨g, hparts⟩ := hc.parts
  obtain ⟨k, r', hk, heq, hwhole, hparts', hbase⟩ := hparts.fromHw rd bdLimit
  have hgot : got = (k, if k = 0 then 0 else bdAt c.ring g.hwPos, r') := heq
  refine ⟨?_, fun hpos => ?_, fun hnone => fromHw_none hnone⟩
  · rw [hgot, hparts.hwCnt]
    exact hparts.isGreatest_taken hwhole
  · have hset : got.1 = k := by rw [hgot]
    have hring : got.2.2 = r' := by rw [hgot]
    have hlap := g.lap
    have hsize := hparts.size_lt
    have hofNat : (BitVec.ofNat 32 k).toNat = k := toNat_ofNat_cnt (by omega)
    have hahead : ringSeekahead c.ring c.ring.hwHead (BitVec.ofNat 32 k) =
        (bdRingNext c.ring)^[k] c.ring.hwHead := by
      rw [hparts.hwHead, hparts.laid.seekahead _ _ (by rw [hofNat, hparts.size]; omega), hofNat,
        hparts.laid.iterate_next]
    refine ⟨?_, ?_, ?_, ?_, ?_⟩
    · rw [hset] at hpos
      rw [hgot, hparts.hwHead]
      exact if_neg hpos.ne'
    · rw [← hset] at hahead
      refine (fromHw_some hpos.ne').trans ?_
      dsimp only
      rw [← hahead]
    · rw [hset, hring, hparts'.postBds_eq, hparts.postBds_eq, hparts.hwBds_eq, take_arc _ hk,
        bdAt_congr (block_of_base hbase)]
      exact (arc_append _ _ _ _).symm
    · rw [hset, hring, hparts'.hwBds_eq, hparts.hwBds_eq, drop_arc _ hk, g.fromHw_hwPos,
        bdAt_congr (block_of_base hbase)]
      rfl
    · rw [hset, hparts.hwCnt]
      exact hk

/-- A ring of two BDs for sending, both handed over; the first ends a packet. -/
def twoHandedOver : List RingOp :=
  [.alloc 2, .setCtrl 0 0xC0000000, .setCtrlLength 0 64, .setCtrl 1 0x80000000, .setCtrlLength 1 64,
    .toHw 2 0x1000]

/-- Both are completed when the poll reads them, and the second packet goes on. -/
theorem fromHw_greatest_twoHandedOver : ∃ c',
    run ringStep (bdRingCreate (initializedChan false fun _ => 0) 0 0x1000 64 3).2 twoHandedOver =
      some c' ∧
    let rd : ℕ → Mem := fun _ => hwWrite (hwWrite c'.mem 0x1000 0x01000040 0 0) 0x1040 0x01000040 0 0
    (bdRingFromHw c'.ring rd 7).1 = 1 ∧
    IsGreatest {k | k ≤ leadingDone c'.ring rd (min 7 c'.ring.hwCnt.toNat) ∧
      (k = 0 ∨ BoundaryAt c'.ring rd (k - 1))} (bdRingFromHw c'.ring rd 7).1 :=
  ⟨_, rfl, by decide +kernel, (fromHw_greatest _ ⟨initializedChan false fun _ => 0, 0, 0x1000, 64, 3,
    twoHandedOver, by decide, by decide, rfl⟩ _ 7).1⟩

/-! ## `Dma_BdRingToHw` -/

/-- The call comes after `Dma_BdRingAlloc`: for the BDs that were allocated, from the first on. -/
def InSequence (r : BdRing) (numBd bdSetPtr : U32) : Prop :=
  numBd ≤ r.preCnt ∧ bdSetPtr = r.preHead

/-- The control word of the BD number `i` of the set. -/
def setCtrlAt (c : Chan) (bdSetPtr : U32) (i : ℕ) : U32 :=
  bdRead c.mem ((bdRingNext c.ring)^[i] bdSetPtr) bdBuflCtrlOffset

def HaveLength (c : Chan) (numBd bdSetPtr : U32) : Prop :=
  ∀ i < numBd.toNat, setCtrlAt c bdSetPtr i &&& bdBuflMask ≠ 0

def StartsPacket (c : Chan) (bdSetPtr : U32) : Prop :=
  c.ring.isRxChannel = false → Flag (setCtrlAt c bdSetPtr 0) bdSopMask

def EndsPacket (c : Chan) (numBd bdSetPtr : U32) : Prop :=
  c.ring.isRxChannel = false → Flag (setCtrlAt c bdSetPtr (numBd.toNat - 1)) bdEopMask

/-- What `Dma_BdRingToHw` is to do with a set of at least one BD. -/
structure ToHwContract (c : Chan) (numBd bdSetPtr : U32) : Prop where
  success : (bdRingToHw c numBd bdSetPtr).1 = .success ↔
    InSequence c.ring numBd bdSetPtr ∧ HaveLength c numBd bdSetPtr ∧ StartsPacket c bdSetPtr ∧
      EndsPacket c numBd bdSetPtr
  listError : (bdRingToHw c numBd bdSetPtr).1 = .dmaSgListError ↔ ¬ InSequence c.ring numBd bdSetPtr
  rejected : (bdRingToHw c numBd bdSetPtr).1 ≠ .success →
    (bdRingToHw c numBd bdSetPtr).2.ring = c.ring ∧ (bdRingToHw c numBd bdSetPtr).2.regs = c.regs

section ToHw

variable {c : Chan} {g : Split} {numBd bdSetPtr : U32}

/-- The check of the source. -/
theorem inSequence_iff :
    InSequence c.ring numBd bdSetPtr ↔
      ¬ (c.ring.preCnt < numBd ∨ c.ring.preHead ≠ bdSetPtr) := by
  rw [not_or, not_not, BitVec.not_lt, InSequence, eq_comm (a := bdSetPtr)]

theorem toHw_listError_iff (hpos : numBd ≠ 0) :
    (bdRingToHw c numBd bdSetPtr).1 = .dmaSgListError ↔ ¬ InSequence c.ring numBd bdSetPtr := by
  rw [inSequence_iff, not_not, bdRingToHw, if_neg hpos]
  dsimp only
  constructor
  · intro herr
    by_contra hsync
    rw [if_neg hsync] at herr
    split_ifs at herr
  · intro hsync
    rw [if_pos hsync]

/-- The loop looks for a length in every BD of the set. -/
theorem Parts.haveLength_iff (h : Parts c.ring g) (n : U32) :
    HaveLength c n (bdAt c.ring g.prePos) ↔
      (toHwLoop c.ring n.toNat c.mem (bdAt c.ring g.prePos)).1 = true := by
  rw [toHwLoop_ok h.laid]
  refine forall₂_congr fun i _ => ?_
  rw [setCtrlAt, h.laid.iterate_next]
  rfl

/-- **What is accepted**: the end of the packet is not asked for. -/
theorem Parts.toHw_success_iff (h : Parts c.ring g) (hpos : numBd ≠ 0) :
    (bdRingToHw c numBd bdSetPtr).1 = .success ↔
      InSequence c.ring numBd bdSetPtr ∧ HaveLength c numBd bdSetPtr ∧ StartsPacket c bdSetPtr := by
  constructor
  · intro hok
    obtain ⟨hle, rfl, hsop, hloop⟩ := h.toHw_success hpos hok
    refine ⟨⟨?_, h.preHead.symm⟩, (h.haveLength_iff numBd).2 hloop, hsop⟩
    rw [BitVec.le_def, h.preCnt]
    exact hle
  · rintro ⟨⟨hle, rfl⟩, hlength, hsop⟩
    rw [BitVec.le_def, h.preCnt] at hle
    rw [h.preHead] at hlength hsop ⊢
    obtain ⟨r', heq, -⟩ := h.toHw hpos hle hsop ((h.haveLength_iff numBd).1 hlength)
    rw [heq]

end ToHw

/-- **The contract is kept** exactly when a set for sending that is in sequence, has lengths and
starts a packet also ends one: a set that does not is accepted, although the source says that it
will be rejected. -/
theorem toHw_contract_iff (c : Chan) (hc : Reached c) (numBd bdSetPtr : U32) (hpos : numBd ≠ 0) :
    ToHwContract c numBd bdSetPtr ↔
      (InSequence c.ring numBd bdSetPtr → HaveLength c numBd bdSetPtr → StartsPacket c bdSetPtr →
        EndsPacket c numBd bdSetPtr) := by
  obtain ⟨g, hparts⟩ := hc.parts
  have hok : (bdRingToHw c numBd bdSetPtr).1 = .success ↔ _ := hparts.toHw_success_iff hpos
  constructor
  · intro hcontract hseq hlength hstart
    exact (hcontract.success.1 (hok.2 ⟨hseq, hlength, hstart⟩)).2.2.2
  · intro hends
    refine ⟨?_, toHw_listError_iff hpos, toHw_rejected⟩
    rw [hok]
    constructor
    · rintro ⟨hseq, hlength, hstart⟩
      exact ⟨hseq, hlength, hstart, hends hseq hlength hstart⟩
    · rintro ⟨hseq, hlength, hstart, -⟩
      exact ⟨hseq, hlength, hstart⟩

/-- A ring for sending with one BD that starts a packet and has a length. -/
def oneStarted : List RingOp := [.alloc 1, .setCtrl 0 0x80000000, .setCtrlLength 0 64]

/-- It does not end the packet, and is accepted. -/
theorem accepts_open : ∃ c',
    run ringStep (bdRingCreate (initializedChan false fun _ => 0) 0 0x1000 64 3).2 oneStarted =
      some c' ∧ Reached c' ∧ (bdRingToHw c' 1 0x1000).1 = .success ∧ ¬ EndsPacket c' 1 0x1000 ∧
      ¬ ToHwContract c' 1 0x1000 := by
  have hok : ∃ c', run ringStep (bdRingCreate (initializedChan false fun _ => 0) 0 0x1000 64 3).2
      oneStarted = some c' ∧ Reached c' ∧ (bdRingToHw c' 1 0x1000).1 = .success ∧
      ¬ EndsPacket c' 1 0x1000 :=
    ⟨_, rfl, ⟨initializedChan false fun _ => 0, 0, 0x1000, 64, 3, oneStarted, by decide, by decide,
      rfl⟩, by decide +kernel, by unfold EndsPacket; decide +kernel⟩
  obtain ⟨c', hrun, hc, hsuccess, hopen⟩ := hok
  exact ⟨c', hrun, hc, hsuccess, hopen, fun hcontract =>
    hopen (hcontract.success.1 hsuccess).2.2.2⟩

/-- With end-of-packet in the control word it is what was asked for. -/
theorem toHw_contract_iff_ended : ∃ c',
    run ringStep (bdRingCreate (initializedChan false fun _ => 0) 0 0x1000 64 3).2
      (oneStarted ++ [.setCtrl 0 0xC0000040]) = some c' ∧ ToHwContract c' 1 0x1000 :=
  ⟨_, rfl, (toHw_contract_iff _ ⟨initializedChan false fun _ => 0, 0, 0x1000, 64, 3,
    oneStarted ++ [.setCtrl 0 0xC0000040], by decide, by decide, rfl⟩ 1 0x1000 (by decide)).2
    fun _ _ _ => by unfold EndsPacket; decide +kernel⟩

end Dma
