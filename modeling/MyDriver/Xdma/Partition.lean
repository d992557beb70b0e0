import Mathlib.Tactic.IntervalCases
import MyDriver.Lib.Runs
import MyDriver.Xdma.RingMem

/-!
# The four groups partition the ring

`RingOp` lists what can happen to a ring after its creation: calls of the ring functions with any
arguments, the field setters on any BD, and hardware writes to the words of a BD that belong to
the engine. `ringStep_parts` says that each of them keeps the ring split into its four groups and
keeps the links; by induction so does every run.

* `create_parts` — a created ring is laid out, and all of its BDs are free.
* `ring_partitioned` — **every reachable ring is partitioned**.
-/

namespace Dma

open Cyclic Runs

/-! ## Creation -/

/-- The alignments `bdRingCreate` accepts are powers of two, and each is the separation. -/
theorem bdSeparation_eq {a : U32} (hmin : ¬ a < bdMinimumAlignment) (hpow : ¬ Flag (a - 1) a) :
    bdSeparation a = a := by
  have hge : 64 ≤ a.toNat := not_lt_cnt.1 hmin
  have hlt := a.isLt
  have hand : a.toNat &&& (a.toNat - 1) = 0 := by
    have h1 : (a - 1).toNat = a.toNat - 1 :=
      toNat_sub_cnt (show 1 ≤ a.toNat by omega)
    have h2 : a &&& (a - 1) = 0 := by rw [BitVec.and_comm]; exact not_not.1 hpow
    rw [← h1, ← BitVec.toNat_and, h2]
    rfl
  obtain ⟨k, hk⟩ := (Nat.and_sub_one_eq_zero_iff_isPowerOfTwo (by omega)).1 hand
  have hk32 : k < 32 := (Nat.pow_lt_pow_iff_right (by omega)).1 (hk ▸ hlt)
  have hk6 : 6 ≤ k := (Nat.pow_le_pow_iff_right (a := 2) (by omega)).1 (hk ▸ hge)
  have ha : a = BitVec.ofNat 32 (2 ^ k) := by
    apply BitVec.eq_of_toNat_eq
    rw [hk, toNat_ofNat_cnt (hk ▸ hlt)]
  rw [ha]
  clear ha hk hand hlt hge hmin hpow
  interval_cases k <;> rfl

theorem linkBds_snd (separation : U32) (k : ℕ) (m : Mem) (v p : U32) :
    (linkBds separation k m v p).2 = v + separation * BitVec.ofNat 32 k := by
  induction k generalizing m v p with
  | zero => simp [linkBds]
  | succ k ih =>
    rw [linkBds, ih]
    rw [ofNat_cnt_succ]
    ring

/-- The memory of a new ring. -/
def linkedMem (c : Chan) (physAddr virtAddr separation bdCount : U32) : Mem :=
  let linked := linkBds separation (bdCount.toNat - 1)
    (zeroFill c.mem virtAddr (separation * bdCount)) virtAddr (physAddr + separation)
  bdWrite linked.1 linked.2 bdNdescOffset physAddr

/-- What a successful call leaves. -/
theorem create_success {c : Chan} {physAddr virtAddr alignment bdCount : U32}
    (hok : (bdRingCreate c physAddr virtAddr alignment bdCount).1 = .success) :
    64 ≤ alignment.toNat ∧ bdSeparation alignment = alignment ∧ bdCount ≠ 0 ∧
    (bdRingCreate c physAddr virtAddr alignment bdCount).2 = { c with
      mem := linkedMem c physAddr virtAddr alignment bdCount
      ring := { c.ring with
        separation := alignment
        runState := .dmaSgIsStopped
        firstBdAddr := virtAddr
        firstBdPhysAddr := physAddr
        lastBdAddr := virtAddr + alignment * BitVec.ofNat 32 (bdCount.toNat - 1)
        length := alignment * bdCount
        allCnt := bdCount, freeCnt := bdCount, hwCnt := 0, preCnt := 0, postCnt := 0
        bdErrs := 0, bdSErrs := 0
        freeHead := virtAddr, preHead := virtAddr, hwHead := virtAddr, hwTail := virtAddr
        postHead := virtAddr
        bdaRestart := physAddr } } := by
  unfold bdRingCreate at hok ⊢
  dsimp only at hok ⊢
  split_ifs at hok ⊢ with hmin hpow halign hcnt hspan
  have hsep := bdSeparation_eq hmin hpow
  have hlen : alignment * BitVec.ofNat 32 (bdCount.toNat - 1) + alignment = alignment * bdCount := by
    have hpos : 0 < bdCount.toNat := Nat.pos_of_ne_zero fun h => hcnt (cnt_eq_zero.2 h)
    have hone : BitVec.ofNat 32 (bdCount.toNat - 1) + 1 = bdCount := by
      rw [show (1 : U32) = BitVec.ofNat 32 1 by rfl, ← BitVec.ofNat_add,
        Nat.sub_add_cancel hpos, BitVec.ofNat_toNat, BitVec.setWidth_eq]
    calc alignment * BitVec.ofNat 32 (bdCount.toNat - 1) + alignment
        = alignment * (BitVec.ofNat 32 (bdCount.toNat - 1) + 1) := by ring
      _ = alignment * bdCount := by rw [hone]
  refine ⟨not_lt_cnt.1 hmin, hsep, hcnt, ?_⟩
  rw [hsep, linkBds_snd, linkedMem, linkBds_snd, ← hlen]
  rw [BitVec.add_comm virtAddr, BitVec.add_sub_cancel]

/-- The ring fits into the address space without wrapping, counted in unbounded numbers. -/
def Fits (virtAddr separation bdCount : U32) : Prop :=
  separation.toNat * bdCount.toNat ≤ 2 ^ 32 - virtAddr.toNat

instance (virtAddr separation bdCount : U32) : Decidable (Fits virtAddr separation bdCount) := by
  unfold Fits; infer_instance

/-- **A created ring is laid out, and all of its BDs are free.** -/
theorem create_parts {c : Chan} {physAddr virtAddr alignment bdCount : U32}
    (hok : (bdRingCreate c physAddr virtAddr alignment bdCount).1 = .success)
    (hfits : Fits virtAddr (bdRingCreate c physAddr virtAddr alignment bdCount).2.ring.separation
      bdCount) :
    Parts (bdRingCreate c physAddr virtAddr alignment bdCount).2.ring
      (Split.fresh bdCount.toNat) := by
  obtain ⟨hmin, -, hcnt, hc⟩ := create_success hok
  have hpos : 0 < bdCount.toNat := Nat.pos_of_ne_zero fun h => hcnt (cnt_eq_zero.2 h)
  have hv := virtAddr.isLt
  rw [hc] at hfits ⊢
  rw [Fits] at hfits
  have hle : alignment.toNat * (bdCount.toNat - 1) + alignment.toNat =
      alignment.toNat * bdCount.toNat := by
    rw [← Nat.mul_succ, Nat.succ_eq_add_one, Nat.sub_add_cancel hpos]
  dsimp only at hfits ⊢
  have hlast : (virtAddr + alignment * BitVec.ofNat 32 (bdCount.toNat - 1)).toNat =
      virtAddr.toNat + alignment.toNat * (bdCount.toNat - 1) := by
    have hb := bdCount.isLt
    rw [BitVec.toNat_add, BitVec.toNat_mul, toNat_ofNat_cnt (by omega),
      Nat.mod_eq_of_lt (a := alignment.toNat * _) (by omega), Nat.mod_eq_of_lt (by omega)]
  have hfirst : ∀ r : BdRing, r.firstBdAddr = virtAddr → virtAddr = bdAt r 0 :=
    fun r hr => by rw [bdAt_zero, hr]
  exact {
    laid := ⟨hpos, hmin, by dsimp only; omega, hlast, rfl⟩
    size := rfl
    postCnt := rfl
    hwCnt := rfl
    preCnt := rfl
    freeCnt := rfl
    postHead := hfirst _ rfl
    hwHead := hfirst _ rfl
    preHead := hfirst _ rfl
    hwTail := hfirst _ rfl
    freeHead := hfirst _ rfl }

/-! ## Operations -/

/-- What may happen to a created ring. Setters and hardware writes name the BD by its place. -/
inductive RingOp where
  | start
  | alloc (numBd : U32)
  | unAlloc (numBd : U32)
  | toHw (numBd bdSetPtr : U32)
  /-- `rd` is the memory as each word read of the call finds it. -/
  | fromHw (rd : ℕ → Mem) (bdLimit : U32)
  | forceFromHw (bdLimit : U32)
  | free (numBd bdSetPtr : U32)
  /-- The engine writes the status word and the two user words of a BD. -/
  | hwWrite (i : ℕ) (status usrl usrh : U32)
  | setCtrl (i : ℕ) (data : U32)
  | setStatus (i : ℕ) (data : U32)
  | setCtrlLength (i : ℕ) (lenBytes : U32)
  | setStatLength (i : ℕ) (lenBytes : U32)
  | setId (i : ℕ) (id : U32)
  | setBufAddr (i : ℕ) (addr : U32)
  | setUserData (i : ℕ) (user : BitVec 64)

/-- The words of a BD that the engine writes. -/
def hwWrite (m : Mem) (bd status usrl usrh : U32) : Mem :=
  bdWrite (bdWrite (bdWrite m bd bdBuflStatusOffset status) bd bdUsrlOffset usrl) bd bdUsrhOffset
    usrh

theorem edits_hwWrite (status usrl usrh : U32) : Edits (fun m bd => hwWrite m bd status usrl usrh)
    fun w => { w with status := status, usrl := usrl, usrh := usrh } where
  touches m bd := ((touches_bdWrite m bd _ (by decide)).trans
    (touches_bdWrite _ bd _ (by decide))).trans (touches_bdWrite _ bd _ (by decide))
  words m bd := by
    ext1 <;> simp [bdWords, hwWrite, bdRead_bdWrite, bdBuflStatusOffset, bdUsrlOffset, bdUsrhOffset,
      bdBuflCtrlOffset, bdBufalOffset, bdBufahOffset, bdNdescOffset, bdVbufalOffset]

/-- A rejected call leaves the ring as it is (`toHw` may have cleared status words). -/
def ringStep (c : Chan) : RingOp → Option Chan
  | .start => some (bdRingStart c).2
  | .alloc numBd =>
    match bdRingAlloc c.ring numBd with
    | .ok (_, r) => some { c with ring := r }
    | .error _ => some c
  | .unAlloc numBd =>
    match bdRingUnAlloc c.ring numBd with
    | .ok r => some { c with ring := r }
    | .error _ => some c
  | .toHw numBd bdSetPtr => some (bdRingToHw c numBd bdSetPtr).2
  | .fromHw rd bdLimit => some { c with ring := (bdRingFromHw c.ring rd bdLimit).2.2 }
  | .forceFromHw bdLimit => some { c with ring := (bdRingForceFromHw c.ring bdLimit).2.2 }
  | .free numBd bdSetPtr =>
    match bdRingFree c numBd bdSetPtr with
    | .ok c' => some c'
    | .error _ => some c
  | .hwWrite i status usrl usrh =>
    some { c with mem := hwWrite c.mem (bdAt c.ring i) status usrl usrh }
  | .setCtrl i data => some { c with mem := bdSetCtrl c.mem (bdAt c.ring i) data }
  | .setStatus i data => some { c with mem := bdSetStatus c.mem (bdAt c.ring i) data }
  | .setCtrlLength i len => some { c with mem := bdSetCtrlLength c.mem (bdAt c.ring i) len }
  | .setStatLength i len => some { c with mem := bdSetStatLength c.mem (bdAt c.ring i) len }
  | .setId i id => some { c with mem := bdSetId c.mem (bdAt c.ring i) id }
  | .setBufAddr i addr => some { c with mem := bdSetBufAddr c.mem (bdAt c.ring i) addr }
  | .setUserData i user => some { c with mem := bdSetUserData c.mem (bdAt c.ring i) user }

/-- What every operation keeps: a split of the ring into groups, the place of the ring, the
links. -/
structure Kept (c c' : Chan) (g g' : Split) : Prop where
  parts : Parts c'.ring g'
  size : g'.size = g.size
  block : c'.ring.block = c.ring.block
  links : SameLinks c.ring c.mem c'.mem

theorem Kept.ofMem {c : Chan} {g : Split} (h : Parts c.ring g) {m : Mem}
    (hm : SameLinks c.ring c.mem m) : Kept c { c with mem := m } g g :=
  ⟨h, rfl, rfl, hm⟩

theorem Kept.ofRing {c : Chan} {g g' : Split} {r : BdRing} (h : Parts r g')
    (hsize : g'.size = g.size) (hbase : r.base = c.ring.base) :
    Kept c { c with ring := r } g g' :=
  ⟨h, hsize, block_of_base hbase, SameLinks.refl _ _⟩

theorem start_kept {c : Chan} {g : Split} (h : Parts c.ring g) :
    Kept c (bdRingStart c).2 g g := by
  unfold bdRingStart
  split_ifs with h1 h2
  · exact Kept.ofMem h (SameLinks.refl _ _)
  · exact Kept.ofMem h (SameLinks.refl _ _)
  · exact {
      parts := { h with laid := { h.laid with } }
      size := rfl
      block := rfl
      links := SameLinks.refl _ _ }

/-- Also a rejected call leaves the links alone. -/
theorem toHw_sameLinks {c : Chan} {g : Split} (h : Parts c.ring g) (numBd bdSetPtr : U32) :
    SameLinks c.ring c.mem (bdRingToHw c numBd bdSetPtr).2.mem := by
  have hloop : c.ring.preHead = bdSetPtr →
      SameLinks c.ring c.mem (toHwLoop c.ring numBd.toNat c.mem bdSetPtr).2.1 := by
    rintro rfl
    obtain ⟨j, -, hmem, -⟩ := toHwLoop_walk c.ring numBd.toNat c.mem c.ring.preHead
    rw [hmem, h.preHead]
    exact walkBds_sameLinks h.laid (fun _ => edits_setStatus 0) (fun _ _ => rfl) j _ _
  unfold bdRingToHw
  dsimp only
  split_ifs with h1 h2 h3 h4
  · exact SameLinks.refl _ _
  · exact SameLinks.refl _ _
  · exact SameLinks.refl _ _
  all_goals exact hloop (not_not.1 (not_or.1 h2).2)

theorem toHw_kept {c : Chan} {g : Split} (h : Parts c.ring g) (numBd bdSetPtr : U32) :
    ∃ g', Kept c (bdRingToHw c numBd bdSetPtr).2 g g' := by
  have hlinks := toHw_sameLinks h numBd bdSetPtr
  by_cases hpos : numBd = 0
  · rw [hpos, toHw_zero]
    exact ⟨g, Kept.ofMem h (SameLinks.refl _ _)⟩
  by_cases hok : (bdRingToHw c numBd bdSetPtr).1 = .success
  · obtain ⟨hle, rfl, hsop, hloop⟩ := h.toHw_success hpos hok
    obtain ⟨r', heq, hparts, hbase⟩ := h.toHw hpos hle hsop hloop
    rw [heq] at hlinks ⊢
    exact ⟨_, hparts, rfl, block_of_base hbase, hlinks⟩
  · obtain ⟨hring, -⟩ := toHw_rejected hok
    exact ⟨g, by rwa [hring], rfl, by rw [hring], hlinks⟩

theorem free_kept {c c' : Chan} {g : Split} (h : Parts c.ring g) {numBd bdSetPtr : U32}
    (hok : bdRingFree c numBd bdSetPtr = .ok c') : ∃ g', Kept c c' g g' := by
  by_cases hpos : numBd = 0
  · rw [hpos, free_zero, Except.ok.injEq] at hok
    subst hok
    exact ⟨g, Kept.ofMem h (SameLinks.refl _ _)⟩
  · obtain ⟨hle, rfl⟩ := h.free_ok hpos hok
    obtain ⟨r', heq, hparts, hbase⟩ := h.free hpos hle
    rw [heq, Except.ok.injEq] at hok
    subst hok
    refine ⟨_, hparts, rfl, block_of_base hbase, ?_⟩
    rw [freeLoop_walk]
    exact walkBds_sameLinks h.laid (fun _ => edits_freeBd) (fun _ _ => rfl) _ _ _

/-- **One operation.** -/
theorem ringStep_parts {c c' : Chan} {g : Split} {op : RingOp} (h : Parts c.ring g)
    (hstep : ringStep c op = some c') : ∃ g', Kept c c' g g' := by
  have edit : ∀ {body : Mem → U32 → Mem} {eff : BdWords → BdWords} {i : ℕ},
      Edits body eff → (∀ w, (eff w).ndesc = w.ndesc) →
      some { c with mem := body c.mem (bdAt c.ring i) } = some c' → ∃ g', Kept c c' g g' := by
    intro body eff i he hlink hc
    rw [← Option.some.inj hc]
    exact ⟨g, Kept.ofMem h (he.sameLinks hlink h.laid _ _)⟩
  cases op with
  | start =>
    rw [← Option.some.inj hstep]
    exact ⟨g, start_kept h⟩
  | alloc numBd =>
    rcases Nat.lt_or_ge g.free numBd.toNat with hlt | hle
    · simp only [ringStep, h.alloc_error hlt, Option.some.injEq] at hstep
      exact ⟨g, hstep ▸ Kept.ofMem h (SameLinks.refl _ _)⟩
    · obtain ⟨r', heq, hparts, hbase⟩ := h.alloc hle
      simp only [ringStep, heq, Option.some.injEq] at hstep
      subst hstep
      exact ⟨_, Kept.ofRing hparts rfl hbase⟩
  | unAlloc numBd =>
    rcases Nat.lt_or_ge g.pre numBd.toNat with hlt | hle
    · simp only [ringStep, h.unAlloc_error hlt, Option.some.injEq] at hstep
      exact ⟨g, hstep ▸ Kept.ofMem h (SameLinks.refl _ _)⟩
    · obtain ⟨r', heq, hparts, hbase⟩ := h.unAlloc hle
      simp only [ringStep, heq, Option.some.injEq] at hstep
      subst hstep
      exact ⟨_, Kept.ofRing hparts rfl hbase⟩
  | toHw numBd bdSetPtr =>
    rw [← Option.some.inj hstep]
    exact toHw_kept h numBd bdSetPtr
  | fromHw rd bdLimit =>
    obtain ⟨k, r', hk, heq, -, hparts, hbase⟩ := h.fromHw rd bdLimit
    simp only [ringStep, heq, Option.some.injEq] at hstep
    subst hstep
    exact ⟨_, Kept.ofRing hparts rfl hbase⟩
  | forceFromHw bdLimit =>
    obtain ⟨r', hk, heq, hparts, hbase⟩ := h.forceFromHw bdLimit
    simp only [ringStep, heq, Option.some.injEq] at hstep
    subst hstep
    exact ⟨_, Kept.ofRing hparts rfl hbase⟩
  | free numBd bdSetPtr =>
    rw [ringStep] at hstep
    split at hstep
    · next c₁ hok =>
      rw [← Option.some.inj hstep]
      exact free_kept h hok
    · rw [← Option.some.inj hstep]
      exact ⟨g, Kept.ofMem h (SameLinks.refl _ _)⟩
  | hwWrite i status usrl usrh => exact edit (edits_hwWrite status usrl usrh) (fun _ => rfl) hstep
  | setCtrl i data => exact edit (edits_setCtrl data) (fun _ => rfl) hstep
  | setStatus i data => exact edit (edits_setStatus data) (fun _ => rfl) hstep
  | setCtrlLength i len => exact edit (edits_setCtrlLength len) (fun _ => rfl) hstep
  | setStatLength i len => exact edit (edits_setStatLength len) (fun _ => rfl) hstep
  | setId i id => exact edit (edits_setId id) (fun _ => rfl) hstep
  | setBufAddr i addr => exact edit (edits_setBufAddr addr) (fun _ => rfl) hstep
  | setUserData i user => exact edit (edits_setUserData user) (fun _ => rfl) hstep

/-- **Every run of operations.** -/
theorem run_kept {c c' : Chan} {g : Split} {ops : List RingOp} (h : Parts c.ring g)
    (hrun : run ringStep c ops = some c') : ∃ g', Kept c c' g g' := by
  refine run_inv' (I := fun c' => ∃ g', Kept c c' g g') ?_ ⟨g, Kept.ofMem h (SameLinks.refl _ _)⟩
    hrun
  rintro c₁ op c₂ ⟨g₁, h₁⟩ hstep
  obtain ⟨g₂, h₂⟩ := ringStep_parts h₁.parts hstep
  refine ⟨g₂, h₂.parts, h₂.size.trans h₁.size, h₂.block.trans h₁.block, h₁.links.trans ?_⟩
  have hlinks := h₂.links
  rwa [SameLinks, bdAt_congr h₁.block] at hlinks

/-! ## The partition -/

/-- The BDs of a ring, in the order of their addresses. -/
def bdList (r : BdRing) : List U32 := arc (bdAt r) 0 r.allCnt.toNat

/-- The law of the four groups. Positions are counted modulo `AllCnt` by `bdAt`. -/
structure Partitioned (r : BdRing) : Prop where
  sum : r.freeCnt.toNat + r.preCnt.toNat + r.hwCnt.toNat + r.postCnt.toNat = r.allCnt.toNat
  heads : r.freeHead ∈ bdList r ∧ r.preHead ∈ bdList r ∧ r.hwHead ∈ bdList r ∧
    r.hwTail ∈ bdList r ∧ r.postHead ∈ bdList r
  tail : r.hwTail = r.preHead
  /-- With the Post group at position `x`, each group starts where the one before it ends, the
  last ends where the first starts, and the four together list every BD once. -/
  segments : ∃ x < r.allCnt.toNat,
    r.postHead = bdAt r x ∧
    r.hwHead = bdAt r (x + r.postCnt.toNat) ∧
    r.preHead = bdAt r (x + r.postCnt.toNat + r.hwCnt.toNat) ∧
    r.freeHead = bdAt r (x + r.postCnt.toNat + r.hwCnt.toNat + r.preCnt.toNat) ∧
    r.postHead =
      bdAt r (x + r.postCnt.toNat + r.hwCnt.toNat + r.preCnt.toNat + r.freeCnt.toNat) ∧
    (arc (bdAt r) x r.postCnt.toNat ++
      arc (bdAt r) (x + r.postCnt.toNat) r.hwCnt.toNat ++
      arc (bdAt r) (x + r.postCnt.toNat + r.hwCnt.toNat) r.preCnt.toNat ++
      arc (bdAt r) (x + r.postCnt.toNat + r.hwCnt.toNat + r.preCnt.toNat) r.freeCnt.toNat).Perm
      (bdList r) ∧
    (bdList r).Nodup

/-- A split may be turned back to its first lap. -/
def Split.unwind (g : Split) : Split := { g with start := g.start % g.size }

theorem Parts.unwind {r : BdRing} {g : Split} (h : Parts r g) : Parts r g.unwind := by
  have hturn : ∀ k, bdAt r (g.unwind.start + k) = bdAt r (g.start + k) :=
    h.circle.congr_add (h.circle.mod g.start)
  have hturn0 : bdAt r g.unwind.start = bdAt r g.start := hturn 0
  exact {
    laid := h.laid
    size := h.size
    postCnt := h.postCnt
    hwCnt := h.hwCnt
    preCnt := h.preCnt
    freeCnt := h.freeCnt
    postHead := by rw [hturn0, h.postHead]
    hwHead := by rw [h.hwHead]; exact (hturn g.post).symm
    preHead := by
      rw [h.preHead, Split.prePos, Split.prePos, Nat.add_assoc, Nat.add_assoc]
      exact (hturn _).symm
    hwTail := by
      rw [h.hwTail, Split.prePos, Split.prePos, Nat.add_assoc, Nat.add_assoc]
      exact (hturn _).symm
    freeHead := by
      rw [h.freeHead, Split.freePos, Split.freePos, Nat.add_assoc, Nat.add_assoc, Nat.add_assoc,
        Nat.add_assoc]
      exact (hturn _).symm }

theorem Parts.partitioned {r : BdRing} {g : Split} (h : Parts r g) : Partitioned r := by
  have hmem : ∀ x, bdAt r x ∈ bdList r := fun x => mem_arc_lap h.laid.circle 0 x
  have hlap := g.lap
  have hpos := h.laid.cnt_pos
  have hu := h.unwind
  constructor
  · rw [h.freeCnt, h.preCnt, h.hwCnt, h.postCnt, h.size]
    omega
  · rw [h.freeHead, h.preHead, h.hwHead, h.hwTail, h.postHead]
    exact ⟨hmem _, hmem _, hmem _, hmem _, hmem _⟩
  · rw [h.hwTail, h.preHead]
  · refine ⟨g.unwind.start, ?_, hu.postHead, ?_⟩
    · rw [h.size]
      exact Nat.mod_lt _ (h.size ▸ hpos)
    have hcover := g.unwind.cover hu.circle
    have hend : r.postHead = bdAt r (g.unwind.start + g.size) := by
      rw [hu.postHead, h.circle.period]
    rw [h.postCnt, h.hwCnt, h.preCnt, h.freeCnt, bdList, h.size]
    refine ⟨hu.hwHead, hu.preHead, hu.freeHead, ?_, hcover, arc_nodup h.circle le_rfl⟩
    rw [hend]
    congr 1
    omega

/-- **Every reachable ring is partitioned.** -/
theorem ring_partitioned (c : Chan) (physAddr virtAddr alignment bdCount : U32)
    (hok : (bdRingCreate c physAddr virtAddr alignment bdCount).1 = .success)
    (hfits : Fits virtAddr (bdRingCreate c physAddr virtAddr alignment bdCount).2.ring.separation
      bdCount)
    (ops : List RingOp) (c' : Chan)
    (hrun : run ringStep (bdRingCreate c physAddr virtAddr alignment bdCount).2 ops = some c') :
    Partitioned c'.ring ∧ c'.ring.allCnt = bdCount := by
  obtain ⟨g, hg⟩ := run_kept (create_parts hok hfits) hrun
  have hcnt : c'.ring.block.allCnt = bdCount := by
    rw [hg.block, (create_success hok).2.2.2]
    rfl
  exact ⟨hg.parts.partitioned, hcnt⟩

/-- A ring of three BDs that ends at the top of the address space, taken round by calls that are
accepted and calls that are not. -/
def turnAround : List RingOp :=
  [.alloc 2, .setCtrl 0 0x80000000, .setCtrlLength 0 64, .toHw 2 0xFFFFFF40, .toHw 1 0xFFFFFF40,
    .hwWrite 0 0x01000000 0 0, .fromHw (fun _ _ => 0xFFFFFFFF) 7, .free 1 0xFFFFFF40, .unAlloc 3]

theorem ring_partitioned_turnAround : ∃ c',
    run ringStep (bdRingCreate (initializedChan false fun _ => 0) 0 0xFFFFFF40 64 3).2 turnAround =
      some c' ∧ Partitioned c'.ring ∧ c'.ring.allCnt = 3 :=
  ⟨_, rfl, ring_partitioned (initializedChan false fun _ => 0) 0 0xFFFFFF40 64 3 (by decide)
    (by decide) turnAround _ rfl⟩

end Dma
