import MyDriver.Xdma.Links
import MyDriver.Xdma.Register

/-!
# `Dma_BdRingCheck`

The ring can be checked while it is stopped: the five pointers must lie between the first and the
last BD, the four counters must add up, and each BD must be linked to the next. The function
compares pointers with the two ends only, so a pointer into the middle of a BD would pass.

* `bdRingCheck_success_iff` — what is accepted of a ring whose pointers are in place.
* `check_sound_complete` — **every reachable stopped ring is accepted, and no ring with a changed
  link or with counters that do not add up**.
-/

namespace Dma

open Runs

/-! ## The function -/

/-- The test of a pointer. -/
def BdRing.Outside (r : BdRing) (addrV : U32) : Prop := addrV < r.firstBdAddr ∨ r.lastBdAddr < addrV

instance (r : BdRing) (addrV : U32) : Decidable (r.Outside addrV) := by
  unfold BdRing.Outside; infer_instance

/-- The loop over the links; `AddrV` after it, or `none` when it returns. -/
def checkLinks (m : Mem) (separation : U32) : ℕ → U32 → U32 → Option U32
  | 0, addrV, _ => some addrV
  | k + 1, addrV, addrP =>
    if bdRead m addrV bdNdescOffset ≠ addrP then none
    else checkLinks m separation k (addrV + separation) (addrP + separation)

def bdRingCheck (c : Chan) : XStatus :=
  let r := c.ring
  if r.allCnt = 0 then .dmaSgNoList
  else if r.runState = .dmaSgIsStarted then .isStarted
  else if r.runState ≠ .dmaSgIsStopped then .dmaSgListError
  else if r.Outside r.freeHead then .dmaSgListError
  else if r.Outside r.preHead then .dmaSgListError
  else if r.Outside r.hwHead then .dmaSgListError
  else if r.Outside r.hwTail then .dmaSgListError
  else if r.Outside r.postHead then .dmaSgListError
  else if r.hwCnt + r.preCnt + r.freeCnt + r.postCnt ≠ r.allCnt then .dmaSgListError
  else
    match checkLinks c.mem r.separation (r.allCnt.toNat - 1) r.firstBdAddr
      (r.firstBdPhysAddr + r.separation) with
    | none => .dmaSgListError
    | some addrV =>
      -- The last BD points back to the first.
      if bdRead c.mem addrV bdNdescOffset ≠ r.firstBdPhysAddr then .dmaSgListError else .success

/-! ## What is accepted -/

variable {r : BdRing} {c : Chan} {m : Mem}

/-- The pointers lie at BDs of the ring. -/
structure HeadsIn (r : BdRing) : Prop where
  freeHead : ∃ x, r.freeHead = bdAt r x
  preHead : ∃ x, r.preHead = bdAt r x
  hwHead : ∃ x, r.hwHead = bdAt r x
  hwTail : ∃ x, r.hwTail = bdAt r x
  postHead : ∃ x, r.postHead = bdAt r x

theorem Parts.headsIn {g : Split} (h : Parts r g) : HeadsIn r :=
  ⟨⟨_, h.freeHead⟩, ⟨_, h.preHead⟩, ⟨_, h.hwHead⟩, ⟨_, h.hwTail⟩, ⟨_, h.postHead⟩⟩

theorem Laid.not_outside (h : Laid r) {addrV : U32} (hin : ∃ x, addrV = bdAt r x) :
    ¬ r.Outside addrV := by
  obtain ⟨x, rfl⟩ := hin
  have hx := Nat.mod_lt x h.cnt_pos
  have hmul : r.separation.toNat * (x % r.allCnt.toNat) ≤
      r.separation.toNat * (r.allCnt.toNat - 1) := Nat.mul_le_mul_left _ (by omega)
  have hat := h.toNat_bdAt x
  have hlast := h.last
  rw [BdRing.Outside, BitVec.lt_def, BitVec.lt_def]
  omega

/-- The counters add up, as the source adds them. -/
def CountersAdd (r : BdRing) : Prop := r.hwCnt + r.preCnt + r.freeCnt + r.postCnt = r.allCnt

theorem Parts.countersAdd {g : Split} (h : Parts r g) : CountersAdd r := by
  have hlap := g.lap
  have hlt := h.size_lt
  refine BitVec.eq_of_toNat_eq ?_
  rw [BitVec.toNat_add, BitVec.toNat_add, BitVec.toNat_add, h.hwCnt, h.preCnt, h.freeCnt, h.postCnt,
    h.size]
  omega

theorem virtToPhys_succ {x : ℕ} (hx : x + 1 < r.allCnt.toNat) :
    virtToPhys r (bdAt r (x + 1)) = virtToPhys r (bdAt r x) + r.separation := by
  rw [bdAt_succ hx]
  unfold virtToPhys
  ring

/-- The loop is over when it has found the next `k` links right. -/
theorem checkLinks_iff {k x : ℕ} (hx : x + k < r.allCnt.toNat) (addrV : U32) :
    checkLinks m r.separation k (bdAt r x) (virtToPhys r (bdAt r x) + r.separation) = some addrV ↔
      addrV = bdAt r (x + k) ∧
      ∀ i < k, (bdWords m (bdAt r (x + i))).ndesc = virtToPhys r (bdAt r (x + i + 1)) := by
  induction k generalizing x with
  | zero =>
    rw [checkLinks, Option.some.injEq, Nat.add_zero]
    exact ⟨fun heq => ⟨heq.symm, fun i hi => absurd hi (Nat.not_lt_zero i)⟩, fun h => h.1.symm⟩
  | succ k ih =>
    have hnext := virtToPhys_succ (r := r) (x := x) (by omega)
    have hfirst : bdRead m (bdAt r x) bdNdescOffset = (bdWords m (bdAt r (x + 0))).ndesc := rfl
    rw [checkLinks, hfirst, ← hnext]
    by_cases hlink : (bdWords m (bdAt r (x + 0))).ndesc = virtToPhys r (bdAt r (x + 1))
    · rw [if_neg (not_not.2 hlink), ← bdAt_succ (by omega), ih (by omega),
        show x + 1 + k = x + (k + 1) by omega]
      refine and_congr_right fun _ => ⟨fun hrest i hi => ?_, fun hall i hi => ?_⟩
      · cases i with
        | zero => exact hlink
        | succ i =>
          rw [show x + (i + 1) = x + 1 + i by omega]
          exact hrest i (by omega)
      · rw [show x + 1 + i = x + (i + 1) by omega]
        exact hall (i + 1) (by omega)
    · rw [if_pos hlink]
      exact iff_of_false (Option.some_ne_none _).symm fun h => hlink (h.2 0 (Nat.succ_pos k))

/-- Each BD of the first lap is linked to the next, which is a lap of links. -/
theorem linked_iff (h : Laid r) : Linked r m ↔
    (∀ i < r.allCnt.toNat - 1, (bdWords m (bdAt r i)).ndesc = virtToPhys r (bdAt r (i + 1))) ∧
      (bdWords m (bdAt r (r.allCnt.toNat - 1))).ndesc = r.firstBdPhysAddr := by
  have hcnt := h.cnt_pos
  have hback : virtToPhys r (bdAt r (r.allCnt.toNat - 1 + 1)) = r.firstBdPhysAddr := by
    rw [Nat.sub_add_cancel hcnt, virtToPhys_bdAt, Nat.mod_self]
    simp
  constructor
  · exact fun hlinked => ⟨fun i _ => hlinked i, hback ▸ hlinked _⟩
  · rintro ⟨hlinks, hlast⟩ x
    have hx := Nat.mod_lt x hcnt
    have hsame : bdAt r x = bdAt r (x % r.allCnt.toNat) := (h.circle.mod x).symm
    rw [h.circle.congr_add hsame 1, hsame]
    by_cases hend : x % r.allCnt.toNat = r.allCnt.toNat - 1
    · rw [hend, hback]
      exact hlast
    · exact hlinks _ (by omega)

/-- **What is accepted**, with the pointers in place. -/
theorem bdRingCheck_success_iff (h : Laid c.ring) (hheads : HeadsIn c.ring)
    (hstopped : c.ring.runState = .dmaSgIsStopped) :
    (bdRingCheck c = .success ↔ CountersAdd c.ring ∧ Linked c.ring c.mem) ∧
      (bdRingCheck c ≠ .success → bdRingCheck c = .dmaSgListError) := by
  have hcnt := h.cnt_pos
  have hcreated : ¬ c.ring.allCnt = 0 := fun hzero => by
    rw [hzero] at hcnt
    exact absurd hcnt (lt_irrefl 0)
  have hloop := checkLinks_iff (r := c.ring) (m := c.mem) (k := c.ring.allCnt.toNat - 1) (x := 0)
    (by omega)
  have hstart : virtToPhys c.ring (bdAt c.ring 0) = c.ring.firstBdPhysAddr := by
    rw [virtToPhys_bdAt, Nat.zero_mod]
    simp
  rw [hstart, bdAt_zero] at hloop
  simp only [Nat.zero_add] at hloop
  rw [bdRingCheck, if_neg hcreated, hstopped, if_neg XStatus.noConfusion, if_neg (not_not.2 rfl),
    if_neg (h.not_outside hheads.freeHead), if_neg (h.not_outside hheads.preHead),
    if_neg (h.not_outside hheads.hwHead), if_neg (h.not_outside hheads.hwTail),
    if_neg (h.not_outside hheads.postHead), linked_iff h, CountersAdd]
  by_cases hadd : c.ring.hwCnt + c.ring.preCnt + c.ring.freeCnt + c.ring.postCnt = c.ring.allCnt
  · rw [if_neg (not_not.2 hadd)]
    cases hrun : checkLinks c.mem c.ring.separation (c.ring.allCnt.toNat - 1) c.ring.firstBdAddr
        (c.ring.firstBdPhysAddr + c.ring.separation) with
    | none =>
      refine ⟨iff_of_false XStatus.noConfusion fun hlinks => ?_, fun _ => rfl⟩
      rw [(hloop _).2 ⟨rfl, hlinks.2.1⟩] at hrun
      cases hrun
    | some addrV =>
      obtain ⟨rfl, hlinks⟩ := (hloop addrV).1 hrun
      dsimp only
      by_cases hlast : bdRead c.mem (bdAt c.ring (c.ring.allCnt.toNat - 1)) bdNdescOffset =
          c.ring.firstBdPhysAddr
      · rw [if_neg (not_not.2 hlast)]
        exact ⟨iff_of_true rfl ⟨hadd, hlinks, hlast⟩, fun hne => absurd rfl hne⟩
      · rw [if_pos hlast]
        exact ⟨iff_of_false XStatus.noConfusion fun hall => hlast hall.2.2, fun _ => rfl⟩
  · rw [if_pos hadd]
    exact ⟨iff_of_false XStatus.noConfusion fun hall => hadd hall.1, fun _ => rfl⟩

/-! ## Every run -/

/-- What may happen to a created ring. -/
inductive CheckAct where
  | op (op : RingOp)
  /-- `Dma_Reset` -/
  | reset

def checkStep (c : Chan) : CheckAct → Option Chan
  | .op op => ringStep c op
  | .reset => some (dmaReset c)

/-- The ring is split into its groups and linked. -/
structure Checkable (c : Chan) : Prop where
  parts : ∃ g, Parts c.ring g
  linked : Linked c.ring c.mem

theorem Linked.kept {c' : Chan} {g g' : Split} (h : Linked c.ring c.mem) (hkept : Kept c c' g g') :
    Linked c'.ring c'.mem := by
  have hphys : virtToPhys c'.ring.block = virtToPhys c.ring.block := by rw [hkept.block]
  have hvirt : virtToPhys c'.ring = virtToPhys c.ring := hphys
  intro x
  rw [bdAt_congr hkept.block, hvirt]
  exact h.congr hkept.links x

theorem Checkable.step {c' : Chan} {a : CheckAct} (h : Checkable c)
    (hstep : checkStep c a = some c') : Checkable c' := by
  obtain ⟨g, hg⟩ := h.parts
  cases a with
  | op op =>
    obtain ⟨g', hkept⟩ := ringStep_parts hg hstep
    exact ⟨⟨g', hkept.parts⟩, h.linked.kept hkept⟩
  | reset =>
    rw [← Option.some.inj hstep]
    exact ⟨⟨g, { hg with laid := { hg.laid with } }⟩, h.linked⟩

/-- A ring after something has written to its links and its counters. -/
def tampered (c : Chan) (m : Mem) (freeCnt preCnt hwCnt postCnt : U32) : Chan :=
  { c with
    mem := m
    ring := { c.ring with
      freeCnt := freeCnt, preCnt := preCnt, hwCnt := hwCnt, postCnt := postCnt } }

/-- **Sound and complete.** -/
theorem check_sound_complete (c : Chan) (physAddr virtAddr alignment bdCount : U32)
    (hok : (bdRingCreate c physAddr virtAddr alignment bdCount).1 = .success)
    (hfits : Fits virtAddr (bdRingCreate c physAddr virtAddr alignment bdCount).2.ring.separation
      bdCount) (acts : List CheckAct) (c' : Chan)
    (hrun : run checkStep (bdRingCreate c physAddr virtAddr alignment bdCount).2 acts = some c')
    (hstopped : c'.ring.runState = .dmaSgIsStopped) :
    bdRingCheck c' = .success ∧
    ∀ (m : Mem) (freeCnt preCnt hwCnt postCnt : U32),
      ((∃ k, bdRead m (bdAt c'.ring k) bdNdescOffset ≠
          bdRead c'.mem (bdAt c'.ring k) bdNdescOffset) ∨
        freeCnt + preCnt + hwCnt + postCnt ≠ c'.ring.allCnt) →
      bdRingCheck (tampered c' m freeCnt preCnt hwCnt postCnt) = .dmaSgListError := by
  have hend : Checkable c' := run_inv' (fun _ _ _ h hstep => h.step hstep)
    ⟨⟨_, create_parts hok hfits⟩, created_linked hok hfits⟩ hrun
  obtain ⟨g, hg⟩ := hend.parts
  constructor
  · exact (bdRingCheck_success_iff hg.laid hg.headsIn hstopped).1.2 ⟨hg.countersAdd, hend.linked⟩
  · intro m freeCnt preCnt hwCnt postCnt hbad
    have hheads := hg.headsIn
    obtain ⟨hiff, herror⟩ := bdRingCheck_success_iff
      (c := tampered c' m freeCnt preCnt hwCnt postCnt) { hg.laid with }
      ⟨hheads.freeHead, hheads.preHead, hheads.hwHead, hheads.hwTail, hheads.postHead⟩ hstopped
    refine herror fun hsuccess => ?_
    obtain ⟨hadd, hlinked⟩ := hiff.1 hsuccess
    rcases hbad with ⟨k, hne⟩ | hsum
    · exact hne ((hlinked k).trans (hend.linked k).symm)
    · refine hsum ?_
      have hsum' : hwCnt + preCnt + freeCnt + postCnt = c'.ring.allCnt := hadd
      rw [← hsum']
      ring

/-- The ring of `turnAround`, started and reset. -/
theorem check_sound_complete_turnAround : ∃ c',
    run checkStep (bdRingCreate (initializedChan false fun _ => 0) 0 0xFFFFFF40 64 3).2
      ((RingOp.start :: turnAround).map .op ++ [.reset]) = some c' ∧
    bdRingCheck c' = .success ∧
    bdRingCheck (tampered c' (bdWrite c'.mem 0xFFFFFFC0 bdNdescOffset 0x40)
      c'.ring.freeCnt c'.ring.preCnt c'.ring.hwCnt c'.ring.postCnt) = .dmaSgListError := by
  have h := check_sound_complete (initializedChan false fun _ => 0) 0 0xFFFFFF40 64 3 (by decide)
    (by decide) ((RingOp.start :: turnAround).map .op ++ [.reset]) _ rfl rfl
  exact ⟨_, rfl, h.1, h.2 _ _ _ _ _ (Or.inl ⟨2, by decide +kernel⟩)⟩

end Dma
