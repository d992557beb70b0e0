import MyDriver.Xdma.Partition

/-!
# The linked list of the hardware is the ring of the software

The engine moves from BD to BD by the link words in memory, which hold physical addresses. The
driver moves by comparing and adding, or by multiplying and subtracting, on virtual addresses.
`created_linked` says that a new ring is linked in the order of its positions, `Linked.follow` that
following links is then moving along positions, and `run_kept` has already said that nothing the
driver does later changes a link.

* `links_agree` — **the three ways of moving agree**, in every reachable state of the ring.
* `seek_eq_iterate` — **seeking is stepping**, in both directions and for up to a whole lap.
-/

namespace Dma

open Cyclic Runs

variable {r : BdRing}

/-- The physical address in the link word of the BD at the physical address `pa`. -/
def ndescAt (r : BdRing) (m : Mem) (pa : U32) : U32 := bdRead m (physToVirt r pa) bdNdescOffset

theorem physToVirt_virtToPhys (r : BdRing) (a : U32) : physToVirt r (virtToPhys r a) = a := by
  unfold physToVirt virtToPhys
  ring

theorem virtToPhys_physToVirt (r : BdRing) (a : U32) : virtToPhys r (physToVirt r a) = a := by
  unfold physToVirt virtToPhys
  ring

/-- The link of each BD is the physical address of the BD after it. -/
def Linked (r : BdRing) (m : Mem) : Prop :=
  ∀ x, (bdWords m (bdAt r x)).ndesc = virtToPhys r (bdAt r (x + 1))

theorem Linked.follow {m : Mem} (h : Linked r m) (x k : ℕ) :
    (ndescAt r m)^[k] (virtToPhys r (bdAt r x)) = virtToPhys r (bdAt r (x + k)) := by
  induction k generalizing x with
  | zero => rfl
  | succ k ih =>
    have hone : ndescAt r m (virtToPhys r (bdAt r x)) = virtToPhys r (bdAt r (x + 1)) := by
      rw [ndescAt, physToVirt_virtToPhys]
      exact h x
    rw [Function.iterate_succ_apply, hone, ih]
    congr 2
    omega

theorem Linked.congr {m m' : Mem} (h : Linked r m) (hs : SameLinks r m m') : Linked r m' :=
  fun x => (hs x).trans (h x)

theorem edits_ndesc (v : U32) : Edits (fun m bd => bdWrite m bd bdNdescOffset v)
    fun w => { w with ndesc := v } where
  touches m bd := touches_bdWrite m bd v (by decide)
  words m bd := by
    ext1 <;> simp [bdWords, bdRead_bdWrite, bdBuflStatusOffset, bdUsrlOffset, bdUsrhOffset,
      bdBuflCtrlOffset, bdBufalOffset, bdBufahOffset, bdNdescOffset, bdVbufalOffset]

/-! ## The links of a new ring -/

theorem bdAt_succ {x : ℕ} (hx : x + 1 < r.allCnt.toNat) :
    bdAt r (x + 1) = bdAt r x + r.separation := by
  rw [bdAt, bdAt, Nat.mod_eq_of_lt hx, Nat.mod_eq_of_lt (by omega), ofNat_cnt_succ]
  ring

theorem virtToPhys_bdAt (r : BdRing) (x : ℕ) : virtToPhys r (bdAt r x) =
    r.firstBdPhysAddr + r.separation * BitVec.ofNat 32 (x % r.allCnt.toNat) := by
  unfold virtToPhys bdAt
  ring

/-- The loop that links the BDs walks along the ring, short of its last BD. -/
theorem linkBds_walk (h : Laid r) {k x : ℕ} (hx : x + k < r.allCnt.toNat) (m : Mem) (p : U32) :
    (linkBds r.separation k m (bdAt r x) p).1 =
      walkBds r (fun i m bd => bdWrite m bd bdNdescOffset (p + r.separation * BitVec.ofNat 32 i))
        k m (bdAt r x) := by
  induction k generalizing x m p with
  | zero => rfl
  | succ k ih =>
    have hstep : ∀ i, p + r.separation + r.separation * BitVec.ofNat 32 i =
        p + r.separation * BitVec.ofNat 32 (i + 1) := fun i => by
      rw [ofNat_cnt_succ]
      ring
    have hzero : p + r.separation * BitVec.ofNat 32 0 = p := by simp
    rw [linkBds, ← bdAt_succ (by omega), ih (by omega), walkBds, h.next, hzero]
    simp only [hstep]

/-- The two writes of `bdRingCreate` that make the list circular. -/
theorem linkBds_linked (h : Laid r) (m : Mem) :
    Linked r (bdWrite
      (linkBds r.separation (r.allCnt.toNat - 1) m (bdAt r 0)
        (r.firstBdPhysAddr + r.separation)).1
      (bdAt r (r.allCnt.toNat - 1)) bdNdescOffset r.firstBdPhysAddr) := by
  have hcnt := h.cnt_pos
  rw [linkBds_walk h (by omega)]
  intro x
  have hx := Nat.mod_lt x hcnt
  have hsame : bdAt r x = bdAt r (x % r.allCnt.toNat) := (h.circle.mod x).symm
  rw [h.circle.congr_add hsame 1, hsame]
  generalize x % r.allCnt.toNat = i at hx
  by_cases hlast : i = r.allCnt.toNat - 1
  · rw [hlast, (edits_ndesc _).words, Nat.sub_add_cancel hcnt, virtToPhys_bdAt]
    simp
  · have hne : bdAt r i ≠ bdAt r (r.allCnt.toNat - 1) := fun heq =>
      hlast (h.circle.inj i _ hx (by omega) heq)
    have hi : i < r.allCnt.toNat - 1 := by omega
    have hown := walkBds_own h (fun i => edits_ndesc
      (r.firstBdPhysAddr + r.separation + r.separation * BitVec.ofNat 32 i)) (by omega) m 0 hi
    rw [Nat.zero_add] at hown
    rw [(edits_ndesc _).other h _ hne, hown, virtToPhys_bdAt, Nat.mod_eq_of_lt (by omega),
      ofNat_cnt_succ]
    ring

theorem created_linked {c : Chan} {physAddr virtAddr alignment bdCount : U32}
    (hok : (bdRingCreate c physAddr virtAddr alignment bdCount).1 = .success)
    (hfits : Fits virtAddr (bdRingCreate c physAddr virtAddr alignment bdCount).2.ring.separation
      bdCount) :
    Linked (bdRingCreate c physAddr virtAddr alignment bdCount).2.ring
      (bdRingCreate c physAddr virtAddr alignment bdCount).2.mem := by
  have hlinked := linkBds_linked (create_parts hok hfits).laid
    (zeroFill c.mem virtAddr (alignment * bdCount))
  have hcnt : 0 < bdCount.toNat := Nat.pos_of_ne_zero fun h =>
    (create_success hok).2.2.1 (cnt_eq_zero.2 h)
  rw [(create_success hok).2.2.2] at hlinked ⊢
  have hlast : ∀ r : BdRing, r.allCnt = bdCount → bdAt r (bdCount.toNat - 1) =
      r.firstBdAddr + r.separation * BitVec.ofNat 32 (bdCount.toNat - 1) := fun r hr => by
    rw [bdAt, hr, Nat.mod_eq_of_lt (by omega)]
  rw [bdAt_zero] at hlinked
  dsimp only at hlinked ⊢
  rw [hlast _ rfl] at hlinked
  rw [linkedMem, linkBds_snd]
  exact hlinked

/-- **The three ways of moving agree.** -/
theorem links_agree (c : Chan) (physAddr virtAddr alignment bdCount : U32)
    (hok : (bdRingCreate c physAddr virtAddr alignment bdCount).1 = .success)
    (hfits : Fits virtAddr (bdRingCreate c physAddr virtAddr alignment bdCount).2.ring.separation
      bdCount)
    (ops : List RingOp) (c' : Chan)
    (hrun : run ringStep (bdRingCreate c physAddr virtAddr alignment bdCount).2 ops = some c') :
    (∀ i k, k ≤ c'.ring.allCnt.toNat →
      physToVirt c'.ring ((ndescAt c'.ring c'.mem)^[k] (virtToPhys c'.ring (bdAt c'.ring i))) =
        bdAt c'.ring (i + k) ∧
      (bdRingNext c'.ring)^[k] (bdAt c'.ring i) = bdAt c'.ring (i + k) ∧
      ringSeekahead c'.ring (bdAt c'.ring i) (BitVec.ofNat 32 k) = bdAt c'.ring (i + k)) ∧
    (∀ a, physToVirt c'.ring (virtToPhys c'.ring a) = a ∧
      virtToPhys c'.ring (physToVirt c'.ring a) = a) ∧
    (∀ i, bdAt c'.ring i =
        virtAddr + alignment * BitVec.ofNat 32 (i % bdCount.toNat) ∧
      virtToPhys c'.ring (bdAt c'.ring i) =
        physAddr + alignment * BitVec.ofNat 32 (i % bdCount.toNat) ∧
      bdRead c'.mem (bdAt c'.ring i) bdNdescOffset =
        bdRead (bdRingCreate c physAddr virtAddr alignment bdCount).2.mem (bdAt c'.ring i)
          bdNdescOffset) := by
  obtain ⟨g, hg⟩ := run_kept (create_parts hok hfits) hrun
  have hat := bdAt_congr hg.block
  have hlaid := hg.parts.laid
  have hphys : virtToPhys c'.ring = virtToPhys (bdRingCreate c physAddr virtAddr alignment
      bdCount).2.ring := by
    have hblock : virtToPhys c'.ring.block = virtToPhys (bdRingCreate c physAddr virtAddr alignment
      bdCount).2.ring.block := by rw [hg.block]
    exact hblock
  have hlinked : Linked c'.ring c'.mem := by
    have h := (created_linked hok hfits).congr hg.links
    intro x
    rw [hat, hphys]
    exact h x
  refine ⟨fun i k hk => ⟨?_, hlaid.iterate_next i k, ?_⟩, fun a => ⟨physToVirt_virtToPhys _ a,
    virtToPhys_physToVirt _ a⟩, fun i => ⟨?_, ?_, ?_⟩⟩
  · rw [hlinked.follow, physToVirt_virtToPhys]
  · have hofNat : (BitVec.ofNat 32 k).toNat = k :=
      toNat_ofNat_cnt (lt_of_le_of_lt hk c'.ring.allCnt.isLt)
    rw [hlaid.seekahead i _ (by rw [hofNat]; exact hk), hofNat]
  · rw [hat, (create_success hok).2.2.2]
    rfl
  · rw [hphys, hat, virtToPhys_bdAt, (create_success hok).2.2.2]
  · rw [hat]
    exact hg.links i

/-- The ring of `turnAround`, whose physical addresses start at 0. -/
theorem links_agree_turnAround : ∃ c',
    run ringStep (bdRingCreate (initializedChan false fun _ => 0) 0 0xFFFFFF40 64 3).2 turnAround =
      some c' ∧
    physToVirt c'.ring ((ndescAt c'.ring c'.mem)^[3] (virtToPhys c'.ring (bdAt c'.ring 1))) =
      bdAt c'.ring 4 :=
  ⟨_, rfl, ((links_agree (initializedChan false fun _ => 0) 0 0xFFFFFF40 64 3 (by decide)
    (by decide) turnAround _ rfl).1 1 3 (by decide)).1⟩

/-- **Seeking is stepping.** On a ring that was laid out without wrapping, from any of its BDs and
by up to a whole lap, and seeking back undoes seeking ahead. -/
theorem seek_eq_iterate (c : Chan) (physAddr virtAddr alignment bdCount : U32)
    (hok : (bdRingCreate c physAddr virtAddr alignment bdCount).1 = .success)
    (hfits : Fits virtAddr (bdRingCreate c physAddr virtAddr alignment bdCount).2.ring.separation
      bdCount)
    (ops : List RingOp) (c' : Chan)
    (hrun : run ringStep (bdRingCreate c physAddr virtAddr alignment bdCount).2 ops = some c')
    (p num : U32) (hp : ∃ i, p = bdAt c'.ring i) (hnum : num.toNat ≤ c'.ring.allCnt.toNat) :
    ringSeekahead c'.ring p num = (bdRingNext c'.ring)^[num.toNat] p ∧
    ringSeekback c'.ring p num = (bdRingPrev c'.ring)^[num.toNat] p ∧
    ringSeekback c'.ring (ringSeekahead c'.ring p num) num = p := by
  obtain ⟨g, hg⟩ := run_kept (create_parts hok hfits) hrun
  have hlaid := hg.parts.laid
  obtain ⟨i, rfl⟩ := hp
  obtain ⟨j, hbehind⟩ := hlaid.exists_behind i hnum
  have hahead : ringSeekahead c'.ring (bdAt c'.ring i) num = bdAt c'.ring (i + num.toNat) :=
    hlaid.seekahead i num hnum
  refine ⟨?_, ?_, ?_⟩
  · rw [hahead, hlaid.iterate_next]
  · rw [hbehind, hlaid.seekback j num hnum, hlaid.iterate_prev]
  · rw [hahead, hlaid.seekback i num hnum]

/-- Three BDs that end at `2 ^ 32`: a whole lap from the last one. -/
theorem seek_eq_iterate_turnAround : ∃ c',
    run ringStep (bdRingCreate (initializedChan false fun _ => 0) 0 0xFFFFFF40 64 3).2 turnAround =
      some c' ∧
    ringSeekahead c'.ring 0xFFFFFFC0 3 = (bdRingNext c'.ring)^[3] 0xFFFFFFC0 ∧
    ringSeekback c'.ring 0xFFFFFFC0 3 = (bdRingPrev c'.ring)^[3] 0xFFFFFFC0 ∧
    ringSeekback c'.ring (ringSeekahead c'.ring 0xFFFFFFC0 3) 3 = 0xFFFFFFC0 :=
  ⟨_, rfl, seek_eq_iterate (initializedChan false fun _ => 0) 0 0xFFFFFF40 64 3 (by decide)
    (by decide) turnAround _ rfl 0xFFFFFFC0 3 ⟨2, by decide⟩ (by decide)⟩

end Dma
