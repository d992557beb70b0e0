import MyDriver.Xdma.Geometry
import MyDriver.Xdma.Split

/-!
# The ring functions on the four groups

`Parts r g` says that the pointers and counters of the laid ring `r` describe the split `g`. Each
ring function has one lemma here that says what it does to such a ring: an accepted call makes the
corresponding move of the split, and a call is accepted exactly when the move is possible (and,
for `bdRingToHw`, when the BDs themselves are acceptable). None of them changes where the ring
lies, which `BdRing.base` expresses.

`Parts.fromHw` characterises `bdRingFromHw`: it takes the longest run of finished BDs that ends a
packet.
-/

namespace Dma

open Cyclic

/-- The ring without its group pointers and counters: what no ring function but
`bdRingCreate` and `bdRingStart` changes. -/
def BdRing.base (r : BdRing) : BdRing :=
  { r with
    freeHead := 0, preHead := 0, hwHead := 0, hwTail := 0, postHead := 0
    freeCnt := 0, preCnt := 0, hwCnt := 0, postCnt := 0, bdErrs := 0, bdSErrs := 0 }

/-- Where the ring lies: what no ring function but `bdRingCreate` changes. -/
def BdRing.block (r : BdRing) : BdRing :=
  { r.base with runState := .success, bdaRestart := 0 }

theorem block_of_base {r r' : BdRing} (h : r'.base = r.base) : r'.block = r.block := by
  unfold BdRing.block
  rw [h]

theorem bdAt_congr {r r' : BdRing} (h : r'.block = r.block) : bdAt r' = bdAt r := by
  have h' : bdAt r'.block = bdAt r.block := by rw [h]
  exact h'

/-- The pointers and counters of `r` describe the split `g`. -/
structure Parts (r : BdRing) (g : Split) : Prop where
  laid : Laid r
  size : r.allCnt.toNat = g.size
  postCnt : r.postCnt.toNat = g.post
  hwCnt : r.hwCnt.toNat = g.hw
  preCnt : r.preCnt.toNat = g.pre
  freeCnt : r.freeCnt.toNat = g.free
  postHead : r.postHead = bdAt r g.start
  hwHead : r.hwHead = bdAt r g.hwPos
  preHead : r.preHead = bdAt r g.prePos
  hwTail : r.hwTail = bdAt r g.prePos
  freeHead : r.freeHead = bdAt r g.freePos

namespace Parts

variable {r : BdRing} {g : Split}

theorem circle (h : Parts r g) : IsCircle (bdAt r) g.size := h.size ▸ h.laid.circle

theorem size_lt (h : Parts r g) : g.size < 2 ^ 32 := h.size ▸ r.allCnt.isLt

end Parts

/-! ## Counters -/

theorem toNat_sub_cnt {a b : U32} (h : b.toNat ≤ a.toNat) : (a - b).toNat = a.toNat - b.toNat :=
  BitVec.toNat_sub_of_le (BitVec.le_def.2 h)

theorem toNat_add_cnt {a b : U32} (h : a.toNat + b.toNat < 2 ^ 32) :
    (a + b).toNat = a.toNat + b.toNat := by
  rw [BitVec.toNat_add, Nat.mod_eq_of_lt h]

theorem toNat_ofNat_cnt {k : ℕ} (h : k < 2 ^ 32) : (BitVec.ofNat 32 k).toNat = k := by
  rw [BitVec.toNat_ofNat, Nat.mod_eq_of_lt h]

theorem not_lt_cnt {a b : U32} : ¬ a < b ↔ b.toNat ≤ a.toNat := by
  rw [BitVec.lt_def]
  omega

theorem ofNat_cnt_ne_zero {k : ℕ} (h : k < 2 ^ 32) (hk : k ≠ 0) : BitVec.ofNat 32 k ≠ 0 := by
  intro hzero
  rw [← toNat_ofNat_cnt h, hzero] at hk
  exact hk rfl

theorem ofNat_cnt_succ (k : ℕ) : BitVec.ofNat 32 (k + 1) = BitVec.ofNat 32 k + 1 :=
  BitVec.ofNat_add k 1

theorem cnt_eq_zero {a : U32} : a = 0 ↔ a.toNat = 0 :=
  ⟨fun h => by rw [h]; rfl, fun h => BitVec.eq_of_toNat_eq h⟩

variable {r : BdRing} {g : Split}

/-! ## Alloc and UnAlloc -/

theorem Parts.alloc (h : Parts r g) {numBd : U32} (hle : numBd.toNat ≤ g.free) :
    ∃ r', bdRingAlloc r numBd = .ok (bdAt r g.freePos, r') ∧
      Parts r' (g.alloc numBd.toNat hle) ∧ r'.base = r.base := by
  have hlap := g.lap
  have hsize := h.size_lt
  have hfree : (r.freeCnt - numBd).toNat = g.free - numBd.toNat := by
    rw [toNat_sub_cnt (by rw [h.freeCnt]; exact hle), h.freeCnt]
  have hpre : (r.preCnt + numBd).toNat = g.pre + numBd.toNat := by
    rw [toNat_add_cnt (by rw [h.preCnt]; omega), h.preCnt]
  refine ⟨{ r with
    freeHead := ringSeekahead r (bdAt r g.freePos) numBd
    freeCnt := r.freeCnt - numBd
    preCnt := r.preCnt + numBd }, ?_, ?_, rfl⟩
  · rw [bdRingAlloc, if_neg (not_lt_cnt.2 (by rw [h.freeCnt]; exact hle)), h.freeHead]
  · exact {
      laid := { h.laid with }
      size := h.size
      postCnt := h.postCnt
      hwCnt := h.hwCnt
      preCnt := hpre
      freeCnt := hfree
      postHead := h.postHead
      hwHead := h.hwHead
      preHead := h.preHead
      hwTail := h.hwTail
      freeHead := by
        show ringSeekahead r (bdAt r g.freePos) numBd = bdAt r _
        rw [h.laid.seekahead _ _ (by rw [h.size]; omega), g.alloc_freePos] }

theorem Parts.alloc_error (h : Parts r g) {numBd : U32} (hlt : g.free < numBd.toNat) :
    bdRingAlloc r numBd = .error .failure := by
  rw [bdRingAlloc, if_pos]
  rwa [BitVec.lt_def, h.freeCnt]

theorem Parts.unAlloc (h : Parts r g) {numBd : U32} (hle : numBd.toNat ≤ g.pre) :
    ∃ r', bdRingUnAlloc r numBd = .ok r' ∧ Parts r' (g.unAlloc numBd.toNat hle) ∧
      r'.base = r.base := by
  have hlap := g.lap
  have hsize := h.size_lt
  have hpre : (r.preCnt - numBd).toNat = g.pre - numBd.toNat := by
    rw [toNat_sub_cnt (by rw [h.preCnt]; exact hle), h.preCnt]
  have hfree : (r.freeCnt + numBd).toNat = g.free + numBd.toNat := by
    rw [toNat_add_cnt (by rw [h.freeCnt]; omega), h.freeCnt]
  refine ⟨{ r with
    freeHead := ringSeekback r r.freeHead numBd
    freeCnt := r.freeCnt + numBd
    preCnt := r.preCnt - numBd }, ?_, ?_, rfl⟩
  · rw [bdRingUnAlloc, if_neg (not_lt_cnt.2 (by rw [h.preCnt]; exact hle))]
  · exact {
      laid := { h.laid with }
      size := h.size
      postCnt := h.postCnt
      hwCnt := h.hwCnt
      preCnt := hpre
      freeCnt := hfree
      postHead := h.postHead
      hwHead := h.hwHead
      preHead := h.preHead
      hwTail := h.hwTail
      freeHead := by
        show ringSeekback r r.freeHead numBd = bdAt r _
        rw [h.freeHead, ← g.unAlloc_freePos hle, h.laid.seekback _ _ (by rw [h.size]; omega)] }

theorem Parts.unAlloc_error (h : Parts r g) {numBd : U32} (hlt : g.pre < numBd.toNat) :
    bdRingUnAlloc r numBd = .error .failure := by
  rw [bdRingUnAlloc, if_pos]
  rwa [BitVec.lt_def, h.preCnt]

/-! ## ToHw -/

/-- When the loop runs to its end it has walked over `k` BDs. -/
theorem toHwLoop_cur {k : ℕ} {m : Mem} {cur : U32} (h : (toHwLoop r k m cur).1 = true) :
    (toHwLoop r k m cur).2.2 = (bdRingNext r)^[k] cur := by
  induction k generalizing m cur with
  | zero => rfl
  | succ k ih =>
    unfold toHwLoop at h ⊢
    split_ifs at h ⊢ with hlen
    exact ih h

theorem toHw_zero (c : Chan) (bdSetPtr : U32) : bdRingToHw c 0 bdSetPtr = (.success, c) := by
  rw [bdRingToHw, if_pos rfl]

/-- The registers after a set has been handed over with the tail at `hwTail`. -/
def regsAfterToHw (c : Chan) (hwTail : U32) : Regs :=
  if c.ring.runState = .dmaSgIsStarted
  then { c.regs with swNextBd := virtToPhys c.ring hwTail } else c.regs

/-- A set is accepted when the loop over its BDs runs to its end and, for TX, the first BD starts a
packet. -/
theorem Parts.toHw {c : Chan} (h : Parts c.ring g) {numBd : U32} (hpos : numBd ≠ 0)
    (hle : numBd.toNat ≤ g.pre)
    (hsop : c.ring.isRxChannel = false →
      Flag (bdRead c.mem (bdAt c.ring g.prePos) bdBuflCtrlOffset) bdSopMask)
    (hloop : (toHwLoop c.ring numBd.toNat c.mem (bdAt c.ring g.prePos)).1 = true) :
    ∃ r', bdRingToHw c numBd (bdAt c.ring g.prePos) = (.success, {
        ring := r'
        mem := (toHwLoop c.ring numBd.toNat c.mem (bdAt c.ring g.prePos)).2.1
        regs := regsAfterToHw c (bdAt c.ring (g.toHw numBd.toNat hle).prePos) }) ∧
      Parts r' (g.toHw numBd.toNat hle) ∧ r'.base = c.ring.base := by
  have hlap := g.lap
  have hsize := h.size_lt
  have hpre : (c.ring.preCnt - numBd).toNat = g.pre - numBd.toNat := by
    rw [toNat_sub_cnt (by rw [h.preCnt]; exact hle), h.preCnt]
  have hhw : (c.ring.hwCnt + numBd).toNat = g.hw + numBd.toNat := by
    rw [toNat_add_cnt (by rw [h.hwCnt]; omega), h.hwCnt]
  have hcur : (toHwLoop c.ring numBd.toNat c.mem (bdAt c.ring g.prePos)).2.2 =
      bdAt c.ring (g.toHw numBd.toNat hle).prePos := by
    rw [toHwLoop_cur hloop, h.laid.iterate_next, g.toHw_prePos]
  have hsync : ¬ (c.ring.preCnt < numBd ∨ c.ring.preHead ≠ bdAt c.ring g.prePos) := by
    rw [not_or, not_not]
    exact ⟨not_lt_cnt.2 (by rw [h.preCnt]; exact hle), h.preHead⟩
  have hfirst : ¬ (c.ring.isRxChannel = false ∧
      ¬ Flag (bdRead c.mem (bdAt c.ring g.prePos) bdBuflCtrlOffset) bdSopMask) :=
    fun hn => hn.2 (hsop hn.1)
  refine ⟨{ c.ring with
    preHead := ringSeekahead c.ring c.ring.preHead numBd
    preCnt := c.ring.preCnt - numBd
    hwTail := bdAt c.ring (g.toHw numBd.toNat hle).prePos
    hwCnt := c.ring.hwCnt + numBd }, ?_, ?_, rfl⟩
  · rw [bdRingToHw, if_neg hpos, if_neg hsync, if_neg hfirst]
    dsimp only
    rw [hloop, if_neg (by simp), hcur]
    rfl
  · exact {
      laid := { h.laid with }
      size := h.size
      postCnt := h.postCnt
      hwCnt := hhw
      preCnt := hpre
      freeCnt := h.freeCnt
      postHead := h.postHead
      hwHead := h.hwHead
      preHead := by
        show ringSeekahead c.ring c.ring.preHead numBd = bdAt c.ring _
        rw [h.preHead, h.laid.seekahead _ _ (by rw [h.size]; omega), g.toHw_prePos]
      hwTail := rfl
      freeHead := by
        show c.ring.freeHead = bdAt c.ring _
        rw [h.freeHead, g.toHw_freePos] }

/-- What an accepted call must have been given. -/
theorem Parts.toHw_success {c : Chan} (h : Parts c.ring g) {numBd bdSetPtr : U32} (hpos : numBd ≠ 0)
    (hok : (bdRingToHw c numBd bdSetPtr).1 = .success) :
    numBd.toNat ≤ g.pre ∧ bdSetPtr = bdAt c.ring g.prePos ∧
      (c.ring.isRxChannel = false →
        Flag (bdRead c.mem (bdAt c.ring g.prePos) bdBuflCtrlOffset) bdSopMask) ∧
      (toHwLoop c.ring numBd.toNat c.mem (bdAt c.ring g.prePos)).1 = true := by
  unfold bdRingToHw at hok
  rw [if_neg hpos] at hok
  split_ifs at hok with hsync hsop
  rw [not_or, not_not, h.preHead] at hsync
  obtain ⟨hlt, rfl⟩ := hsync
  refine ⟨h.preCnt ▸ not_lt_cnt.1 hlt, rfl, fun hrx => by_contra fun hn => hsop ⟨hrx, hn⟩, ?_⟩
  dsimp only at hok
  by_contra hloop
  rw [if_pos (Bool.eq_false_iff.2 hloop)] at hok
  cases hok

/-- A rejected call leaves the ring and the registers alone. -/
theorem toHw_rejected {c : Chan} {numBd bdSetPtr : U32}
    (h : (bdRingToHw c numBd bdSetPtr).1 ≠ .success) :
    (bdRingToHw c numBd bdSetPtr).2.ring = c.ring ∧
      (bdRingToHw c numBd bdSetPtr).2.regs = c.regs := by
  unfold bdRingToHw at h ⊢
  dsimp only at h ⊢
  split_ifs at h ⊢ <;> first | exact absurd rfl h | exact ⟨rfl, rfl⟩

/-! ## Free -/

theorem free_zero (c : Chan) (bdSetPtr : U32) : bdRingFree c 0 bdSetPtr = .ok c := by
  rw [bdRingFree, if_pos rfl]

theorem Parts.free {c : Chan} (h : Parts c.ring g) {numBd : U32} (hpos : numBd ≠ 0)
    (hle : numBd.toNat ≤ g.post) :
    ∃ r', bdRingFree c numBd (bdAt c.ring g.start) = .ok { c with
        ring := r', mem := freeLoop c.ring numBd.toNat c.mem (bdAt c.ring g.start) } ∧
      Parts r' (g.freeUp numBd.toNat hle) ∧ r'.base = c.ring.base := by
  have hlap := g.lap
  have hsize := h.size_lt
  have hpost : (c.ring.postCnt - numBd).toNat = g.post - numBd.toNat := by
    rw [toNat_sub_cnt (by rw [h.postCnt]; exact hle), h.postCnt]
  have hfree : (c.ring.freeCnt + numBd).toNat = g.free + numBd.toNat := by
    rw [toNat_add_cnt (by rw [h.freeCnt]; omega), h.freeCnt]
  have hsync : ¬ (c.ring.postCnt < numBd ∨ c.ring.postHead ≠ bdAt c.ring g.start) := by
    rw [not_or, not_not]
    exact ⟨not_lt_cnt.2 (by rw [h.postCnt]; exact hle), h.postHead⟩
  refine ⟨{ c.ring with
    freeCnt := c.ring.freeCnt + numBd
    postCnt := c.ring.postCnt - numBd
    postHead := ringSeekahead c.ring c.ring.postHead numBd }, ?_, ?_, rfl⟩
  · rw [bdRingFree, if_neg hpos, if_neg hsync]
  · exact {
      laid := { h.laid with }
      size := h.size
      postCnt := hpost
      hwCnt := h.hwCnt
      preCnt := h.preCnt
      freeCnt := hfree
      postHead := by
        show ringSeekahead c.ring c.ring.postHead numBd = bdAt c.ring _
        rw [h.postHead, h.laid.seekahead _ _ (by rw [h.size]; omega)]
        rfl
      hwHead := by
        show c.ring.hwHead = bdAt c.ring _
        rw [h.hwHead, g.freeUp_hwPos]
      preHead := by
        show c.ring.preHead = bdAt c.ring _
        rw [h.preHead, g.freeUp_prePos]
      hwTail := by
        show c.ring.hwTail = bdAt c.ring _
        rw [h.hwTail, g.freeUp_prePos]
      freeHead := by
        show c.ring.freeHead = bdAt c.ring _
        rw [h.freeHead, g.freeUp_freePos] }

/-- What an accepted call for at least one BD must have been given. -/
theorem Parts.free_ok {c c' : Chan} (h : Parts c.ring g) {numBd bdSetPtr : U32} (hpos : numBd ≠ 0)
    (hok : bdRingFree c numBd bdSetPtr = .ok c') :
    numBd.toNat ≤ g.post ∧ bdSetPtr = bdAt c.ring g.start := by
  unfold bdRingFree at hok
  rw [if_neg hpos] at hok
  split_ifs at hok with hsync
  rw [not_or, not_not, h.postHead] at hsync
  exact ⟨h.postCnt ▸ not_lt_cnt.1 hsync.1, hsync.2.symm⟩

/-! ## FromHw -/

/-- What the loop of `bdRingFromHw` has found out after `bdCount` BDs: all are finished, and
`bdPartialCount` of them come after the last packet boundary. -/
structure Scanned (v : ℕ → BdSeen) (isRx : Bool) (s : FromHwLoop) : Prop where
  le : s.bdPartialCount ≤ s.bdCount
  done : ∀ j < s.bdCount, (v j).Done isRx
  boundary : s.bdPartialCount < s.bdCount → (v (s.bdCount - s.bdPartialCount - 1)).Boundary isRx
  inside : ∀ j, s.bdCount - s.bdPartialCount ≤ j → j < s.bdCount → ¬ (v j).Boundary isRx

theorem Scanned.countErrors {v : ℕ → BdSeen} {isRx : Bool} {s : FromHwLoop}
    (h : Scanned v isRx s) (w : BdSeen) : Scanned v isRx (s.countErrors isRx w) :=
  ⟨h.le, h.done, h.boundary, h.inside⟩

theorem Scanned.countBd {v : ℕ → BdSeen} {isRx : Bool} {s : FromHwLoop}
    (h : Scanned v isRx s) (hd : (v s.bdCount).Done isRx) :
    Scanned v isRx (s.countBd isRx (v s.bdCount)) := by
  have hle := h.le
  by_cases hb : (v s.bdCount).Boundary isRx
  · simp only [FromHwLoop.countBd, if_pos hb]
    refine ⟨Nat.zero_le _, fun j hj => ?_, fun _ => ?_, fun j h1 h2 => ?_⟩
    · dsimp only at hj
      rcases Nat.lt_succ_iff_lt_or_eq.1 hj with hj | rfl
      · exact h.done j hj
      · exact hd
    · simpa using hb
    · dsimp only at h1 h2
      omega
  · simp only [FromHwLoop.countBd, if_neg hb]
    refine ⟨by dsimp only; omega, fun j hj => ?_, fun hlt => ?_, fun j h1 h2 => ?_⟩
    · dsimp only at hj
      rcases Nat.lt_succ_iff_lt_or_eq.1 hj with hj | rfl
      · exact h.done j hj
      · exact hd
    · dsimp only at hlt ⊢
      rw [show s.bdCount + 1 - (s.bdPartialCount + 1) - 1 = s.bdCount - s.bdPartialCount - 1 by omega]
      exact h.boundary (by omega)
    · dsimp only at h1 h2
      rcases Nat.lt_succ_iff_lt_or_eq.1 h2 with h2 | rfl
      · exact h.inside j (by omega) h2
      · exact hb

/-- The loop stops at the end of the Hardware group, at the limit, or at an unfinished BD. -/
theorem fromHwLoop_spec (h : Laid r) (rd : ℕ → Mem) {y n : ℕ} (hhw : n ≤ r.allCnt.toNat)
    (htail : r.hwTail = bdAt r (y + n)) (left : ℕ) (s : FromHwLoop)
    (hs : Scanned (fun j => bdSeen rd j (bdAt r (y + j))) r.isRxChannel s)
    (hlt : s.bdCount < n) :
    let s' := fromHwLoop r rd left (bdAt r (y + s.bdCount)) s
    Scanned (fun j => bdSeen rd j (bdAt r (y + j))) r.isRxChannel s' ∧
      s.bdCount ≤ s'.bdCount ∧ s'.bdCount ≤ min (s.bdCount + left) n ∧
      (s'.bdCount = min (s.bdCount + left) n ∨
        ¬ (bdSeen rd s'.bdCount (bdAt r (y + s'.bdCount))).Done r.isRxChannel) := by
  induction left generalizing s with
  | zero =>
    have hmin : min (s.bdCount + 0) n = s.bdCount := by omega
    exact ⟨hs, le_rfl, hmin.ge, Or.inl hmin.symm⟩
  | succ left ih =>
    intro s'
    have hs' : s' = fromHwLoop r rd (left + 1) (bdAt r (y + s.bdCount)) s := rfl
    rw [fromHwLoop] at hs'
    set v := bdSeen rd s.bdCount (bdAt r (y + s.bdCount)) with hv
    by_cases hd : v.Done r.isRxChannel
    · rw [if_neg (not_not.2 hd), h.next, htail] at hs'
      set t := (s.countErrors r.isRxChannel v).countBd r.isRxChannel v with ht
      have htc : t.bdCount = s.bdCount + 1 := rfl
      have hscan : Scanned (fun j => bdSeen rd j (bdAt r (y + j))) r.isRxChannel t :=
        Scanned.countBd (hs.countErrors v) hd
      by_cases hend : s.bdCount + 1 = n
      · rw [if_pos (by rw [← hend, Nat.add_assoc])] at hs'
        have hmin : min (s.bdCount + (left + 1)) n = t.bdCount := by omega
        rw [hs', hmin]
        exact ⟨hscan, by omega, le_rfl, Or.inl rfl⟩
      · have hne : bdAt r (y + s.bdCount + 1) ≠ bdAt r (y + n) := fun heq =>
          hend (h.circle.eq_of_near (x := y) (by omega) (by omega) heq)
        rw [if_neg hne] at hs'
        have hmin : min (s.bdCount + (left + 1)) n = min (t.bdCount + left) n := by omega
        rw [hs', hmin]
        obtain ⟨h1, h2, h3, h4⟩ := ih t hscan (by omega)
        rw [htc, ← Nat.add_assoc] at h1 h2 h3 h4
        exact ⟨h1, by omega, h3, h4⟩
    · rw [if_pos hd] at hs'
      rw [hs']
      refine ⟨hs.countErrors v, le_rfl, ?_, Or.inr hd⟩
      show s.bdCount ≤ _
      omega

/-- `k` is the largest number of leading BDs, at most `m`, that are all finished and end a
packet. -/
structure WholePackets (v : ℕ → BdSeen) (isRx : Bool) (m k : ℕ) : Prop where
  le : k ≤ m
  done : ∀ j < k, (v j).Done isRx
  boundary : 0 < k → (v (k - 1)).Boundary isRx
  max : ∀ j, k ≤ j → j < m → (v j).Boundary isRx → ∃ i ≤ j, ¬ (v i).Done isRx

theorem Scanned.wholePackets {v : ℕ → BdSeen} {isRx : Bool} {s : FromHwLoop} {m : ℕ}
    (h : Scanned v isRx s) (hle : s.bdCount ≤ m)
    (hstop : s.bdCount = m ∨ ¬ (v s.bdCount).Done isRx) :
    WholePackets v isRx m (s.bdCount - s.bdPartialCount) where
  le := by omega
  done j hj := h.done j (by omega)
  boundary hpos := h.boundary (by omega)
  max j hkj hjm hb := by
    have hj : s.bdCount ≤ j := by
      by_contra hlt
      exact h.inside j hkj (by omega) hb
    rcases hstop with heq | hnd
    · omega
    · exact ⟨s.bdCount, hj, hnd⟩

/-- What the call sees of the BDs of the Hardware group. -/
def hwSeen (r : BdRing) (rd : ℕ → Mem) (g : Split) (j : ℕ) : BdSeen :=
  bdSeen rd j (bdAt r (g.hwPos + j))

/-- The ring after `k` BDs have left the Hardware group for the Post group, as both
`bdRingFromHw` and `bdRingForceFromHw` write it. -/
theorem Parts.moveFromHw (h : Parts r g) {k : ℕ} (hk : k ≤ g.hw) (e₁ e₂ : U32) :
    Parts { r with
      bdErrs := e₁
      bdSErrs := e₂
      hwCnt := r.hwCnt - BitVec.ofNat 32 k
      postCnt := r.postCnt + BitVec.ofNat 32 k
      hwHead := ringSeekahead r r.hwHead (BitVec.ofNat 32 k) } (g.fromHw k hk) := by
  have hlap := g.lap
  have hsize := h.size_lt
  have hofNat : (BitVec.ofNat 32 k).toNat = k := toNat_ofNat_cnt (by omega)
  have hhw : (r.hwCnt - BitVec.ofNat 32 k).toNat = g.hw - k := by
    rw [toNat_sub_cnt (by rw [hofNat, h.hwCnt]; exact hk), hofNat, h.hwCnt]
  have hpost : (r.postCnt + BitVec.ofNat 32 k).toNat = g.post + k := by
    rw [toNat_add_cnt (by rw [hofNat, h.postCnt]; omega), hofNat, h.postCnt]
  exact {
    laid := { h.laid with }
    size := h.size
    postCnt := hpost
    hwCnt := hhw
    preCnt := h.preCnt
    freeCnt := h.freeCnt
    postHead := h.postHead
    hwHead := by
      show ringSeekahead r r.hwHead (BitVec.ofNat 32 k) = bdAt r _
      rw [h.hwHead, h.laid.seekahead _ _ (by rw [hofNat, h.size]; omega), hofNat, g.fromHw_hwPos]
    preHead := by
      show r.preHead = bdAt r _
      rw [h.preHead, g.fromHw_prePos]
    hwTail := by
      show r.hwTail = bdAt r _
      rw [h.hwTail, g.fromHw_prePos]
    freeHead := by
      show r.freeHead = bdAt r _
      rw [h.freeHead, g.fromHw_freePos] }

theorem Parts.fromHw_none (h : Parts r g) (e₁ e₂ : U32) :
    Parts { r with bdErrs := e₁, bdSErrs := e₂ } g :=
  { laid := { h.laid with }
    size := h.size
    postCnt := h.postCnt
    hwCnt := h.hwCnt
    preCnt := h.preCnt
    freeCnt := h.freeCnt
    postHead := h.postHead
    hwHead := h.hwHead
    preHead := h.preHead
    hwTail := h.hwTail
    freeHead := h.freeHead }

/-- **What `bdRingFromHw` takes.** -/
theorem Parts.fromHw (h : Parts r g) (rd : ℕ → Mem) (bdLimit : U32) :
    ∃ k r', ∃ hk : k ≤ g.hw,
      bdRingFromHw r rd bdLimit = (k, if k = 0 then 0 else bdAt r g.hwPos, r') ∧
      WholePackets (hwSeen r rd g) r.isRxChannel (min bdLimit.toNat g.hw) k ∧
      Parts r' (g.fromHw k hk) ∧ r'.base = r.base := by
  have hlap := g.lap
  have hsize := h.size_lt
  unfold bdRingFromHw
  by_cases hzero : r.hwCnt = 0
  · have hz : g.hw = 0 := by rw [← h.hwCnt, ← cnt_eq_zero]; exact hzero
    rw [if_pos hzero]
    refine ⟨0, r, Nat.zero_le _, rfl, ?_, h, rfl⟩
    exact ⟨Nat.zero_le _, by omega, by omega, fun j _ hj => by omega⟩
  · have hpos : 0 < g.hw := by
      rw [← h.hwCnt]; exact Nat.pos_of_ne_zero fun h0 => hzero (cnt_eq_zero.2 h0)
    rw [if_neg hzero]
    obtain ⟨hscan, -, hle, hstop⟩ := fromHwLoop_spec h.laid rd (y := g.hwPos)
      (n := g.hw) (by rw [h.size]; omega) h.hwTail bdLimit.toNat
      { bdCount := 0, bdPartialCount := 0, bdErrs := r.bdErrs, bdSErrs := r.bdSErrs }
      ⟨le_rfl, fun j hj => by simp at hj, fun hj => by simp at hj, fun j _ hj => by simp at hj⟩ hpos
    simp only [Nat.zero_add, Nat.add_zero, ← h.hwHead] at hscan hle hstop
    set s := fromHwLoop r rd bdLimit.toNat r.hwHead
      { bdCount := 0, bdPartialCount := 0, bdErrs := r.bdErrs, bdSErrs := r.bdSErrs }
    have hwhole := hscan.wholePackets hle hstop
    dsimp only
    by_cases hk : s.bdCount - s.bdPartialCount = 0
    · rw [if_pos hk]
      rw [hk] at hwhole
      exact ⟨0, _, Nat.zero_le _, rfl, hwhole, h.fromHw_none _ _, rfl⟩
    · rw [if_neg hk]
      have hkle : s.bdCount - s.bdPartialCount ≤ g.hw := hwhole.le.trans (Nat.min_le_right _ _)
      refine ⟨s.bdCount - s.bdPartialCount, _, hkle, ?_, hwhole,
        h.moveFromHw hkle s.bdErrs s.bdSErrs, rfl⟩
      rw [if_neg hk, h.hwHead]
      rfl

theorem forceFromHwLoop_eq (h : Laid r) {y hw : ℕ} (hhw : hw ≤ r.allCnt.toNat)
    (htail : r.hwTail = bdAt r (y + hw)) (left n : ℕ) (hn : n < hw) :
    forceFromHwLoop r left (bdAt r (y + n)) n = min (n + left) hw := by
  induction left generalizing n with
  | zero => rw [forceFromHwLoop]; omega
  | succ left ih =>
    rw [forceFromHwLoop, h.next, htail]
    by_cases hend : n + 1 = hw
    · rw [if_pos (by rw [← hend, Nat.add_assoc])]
      omega
    · have hne : bdAt r (y + n + 1) ≠ bdAt r (y + hw) := fun heq =>
        hend (h.circle.eq_of_near (x := y) (by omega) (by omega) heq)
      rw [if_neg hne, Nat.add_assoc, ih (n + 1) (by omega)]
      omega

/-- `bdRingForceFromHw` takes everything, up to the limit. -/
theorem Parts.forceFromHw (h : Parts r g) (bdLimit : U32) :
    ∃ r', ∃ hk : min bdLimit.toNat g.hw ≤ g.hw,
      bdRingForceFromHw r bdLimit = (min bdLimit.toNat g.hw,
        if min bdLimit.toNat g.hw = 0 then 0 else bdAt r g.hwPos, r') ∧
      Parts r' (g.fromHw (min bdLimit.toNat g.hw) hk) ∧ r'.base = r.base := by
  have hlap := g.lap
  unfold bdRingForceFromHw
  by_cases hzero : r.hwCnt = 0
  · have hz : g.hw = 0 := by rw [← h.hwCnt, ← cnt_eq_zero]; exact hzero
    have hmin : min bdLimit.toNat g.hw = 0 := by omega
    rw [if_pos hzero]
    refine ⟨r, Nat.min_le_right _ _, by rw [hmin]; rfl, ?_, rfl⟩
    simp only [hmin]
    exact h
  · have hpos : 0 < g.hw := by
      rw [← h.hwCnt]; exact Nat.pos_of_ne_zero fun h0 => hzero (cnt_eq_zero.2 h0)
    have hcount : forceFromHwLoop r bdLimit.toNat r.hwHead 0 = min bdLimit.toNat g.hw := by
      have hloop := forceFromHwLoop_eq h.laid (y := g.hwPos) (by rw [h.size]; omega) h.hwTail
        bdLimit.toNat 0 hpos
      rwa [Nat.add_zero, Nat.zero_add, ← h.hwHead] at hloop
    rw [if_neg hzero, hcount]
    by_cases hk : min bdLimit.toNat g.hw = 0
    · rw [if_pos hk]
      refine ⟨r, Nat.min_le_right _ _, by rw [hk]; rfl, ?_, rfl⟩
      simp only [hk]
      exact h
    · rw [if_neg hk]
      exact ⟨_, Nat.min_le_right _ _, by rw [if_neg hk, h.hwHead],
        h.moveFromHw (Nat.min_le_right _ _) r.bdErrs r.bdSErrs, rfl⟩

end Dma
