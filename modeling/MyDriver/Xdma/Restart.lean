import MyDriver.Xdma.Fetch
import MyDriver.Xdma.Register

/-!
# Stop, reset, start

`Dma_BdRingStart` loads the engine with `BdaRestart`. Nothing in the driver writes this field after
`Dma_BdRingCreate` (`Dma_mBdRingSnapShotCurrBd`, which would, is not used), so the engine starts at
the first BD of the block, wherever it left off.

* `RestartAct` — calls of the ring functions, with any arguments, `Dma_Reset`, and the engine.
* `restart_resumes` — **the engine resumes where it left off exactly when this is the first BD**,
  and while every start is such a start, it writes no BD twice and none outside the Hardware group.
* `sent_again` — after a restart the engine processes a completed BD again.
-/

namespace Dma

open Cyclic Runs

/-- What may happen to a created ring and its engine. -/
inductive RestartAct where
  | engine (e : Completion)
  | reset
  | start
  | toHw (numBd bdSetPtr : U32)
  /-- A poll; the engine takes the steps `es[t]` just before its word read `t`. -/
  | fromHw (bdLimit : U32) (es : List (List Completion))
  | forceFromHw (bdLimit : U32)
  /-- The ring functions that do not touch the Hardware group, and the field setters. -/
  | other (op : RingOp)

def restartStep (s : Watched) : RestartAct → Option Watched
  | .engine e => some (s.engine e)
  | .reset => some { s with chan := dmaReset s.chan }
  | .start => some { s with chan := (bdRingStart s.chan).2 }
  | .toHw numBd bdSetPtr => some (s.toHw numBd bdSetPtr).2
  | .fromHw bdLimit es => some (s.fromHw bdLimit es).2.2
  | .forceFromHw bdLimit =>
    some { s with chan := { s.chan with ring := (bdRingForceFromHw s.chan.ring bdLimit).2.2 } }
  | .other op =>
    match op with
    | .start | .toHw _ _ | .fromHw _ _ | .forceFromHw _ | .hwWrite _ _ _ _ => none
    | op => (ringStep s.chan op).map fun c => { s with chan := c }

/-- The first BD of the Hardware group that the engine has not completed; `HwTail` if there is
none. -/
def firstOpen (s : Watched) : U32 :=
  ((hwBds s.chan.ring).find? fun bd => !s.done bd).getD s.chan.ring.hwTail

/-- A start of a stopped ring points the engine to where it left off, and to the end of the
Hardware group. -/
def Resumes (s : Watched) : RestartAct → Prop
  | .start => s.chan.ring.runState = .dmaSgIsStopped →
    (bdRingStart s.chan).2.regs.nextBd = virtToPhys s.chan.ring (firstOpen s) ∧
    (bdRingStart s.chan).2.regs.swNextBd = virtToPhys s.chan.ring s.chan.ring.hwTail
  | _ => True

/-- At a start of a stopped ring, the engine has left off at the first BD of the block. -/
def LeftOffAtFirst (s : Watched) : RestartAct → Prop
  | .start => s.chan.ring.runState = .dmaSgIsStopped → firstOpen s = s.chan.ring.firstBdAddr
  | _ => True

/-- BDs are forced out of the Hardware group only while the ring is stopped, and the status of its
BDs is left to the engine. -/
def LeavesToEngine (s : Watched) : RestartAct → Prop
  | .forceFromHw _ => s.chan.ring.runState ≠ .dmaSgIsStarted
  | .other (.setStatus i _) => bdAt s.chan.ring i ∉ hwBds s.chan.ring
  | _ => True

instance (s : Watched) (a : RestartAct) : Decidable (LeftOffAtFirst s a) := by
  cases a <;> unfold LeftOffAtFirst <;> infer_instance

instance (s : Watched) (a : RestartAct) : Decidable (LeavesToEngine s a) := by
  unfold LeavesToEngine
  split <;> infer_instance

/-! ## What a start writes -/

/-- What every operation keeps. -/
structure Rooted (r : BdRing) : Prop where
  parts : ∃ g, Parts r g
  bdaRestart : r.bdaRestart = r.firstBdPhysAddr
  runState : r.runState = .dmaSgIsStarted ∨ r.runState = .dmaSgIsStopped

theorem virtToPhys_first (r : BdRing) : virtToPhys r r.firstBdAddr = r.firstBdPhysAddr := by
  unfold virtToPhys
  ring

theorem virtToPhys_inj {r : BdRing} {a b : U32} (h : virtToPhys r a = virtToPhys r b) : a = b := by
  rw [← physToVirt_virtToPhys r a, h, physToVirt_virtToPhys]

theorem Rooted.allCnt {r : BdRing} (h : Rooted r) : r.allCnt ≠ 0 := by
  obtain ⟨g, hg⟩ := h.parts
  intro hzero
  have hpos := hg.laid.cnt_pos
  rw [hzero] at hpos
  exact absurd hpos (lt_irrefl 0)

/-- The ring after a start, and the registers. -/
theorem bdRingStart_stopped {c : Chan} (hcnt : c.ring.allCnt ≠ 0)
    (hstopped : c.ring.runState = .dmaSgIsStopped) :
    (bdRingStart c).2 = { c with
      ring := { c.ring with runState := .dmaSgIsStarted }
      regs := { enable c.regs with
        nextBd := c.ring.bdaRestart
        swNextBd := if 0 < c.ring.hwCnt then virtToPhys c.ring c.ring.hwTail
          else c.ring.bdaRestart } } := by
  have hnot : ¬ c.ring.runState = .dmaSgIsStarted := by
    rw [hstopped]
    exact XStatus.noConfusion
  rw [bdRingStart, if_neg hcnt, if_neg hnot]
  dsimp only
  split_ifs <;> rfl

/-- **A start resumes exactly when the engine has left off at the first BD.** -/
theorem resumes_iff {s : Watched} (h : Rooted s.chan.ring) (a : RestartAct) :
    Resumes s a ↔ LeftOffAtFirst s a := by
  cases a with
  | start =>
    refine forall_congr' fun hstopped => ?_
    have hphys : s.chan.ring.bdaRestart = virtToPhys s.chan.ring s.chan.ring.firstBdAddr := by
      rw [h.bdaRestart, virtToPhys_first]
    rw [bdRingStart_stopped h.allCnt hstopped]
    dsimp only
    rw [hphys]
    constructor
    · rintro ⟨hnext, -⟩
      exact (virtToPhys_inj hnext).symm
    · intro hfirst
      refine ⟨by rw [hfirst], ?_⟩
      by_cases hpos : 0 < s.chan.ring.hwCnt
      · rw [if_pos hpos]
      · -- With nothing in the Hardware group, the engine has left off at `HwTail`.
        have hzero : s.chan.ring.hwCnt.toNat = 0 := by
          rw [BitVec.lt_def] at hpos
          exact Nat.eq_zero_of_not_pos hpos
        have hnone : firstOpen s = s.chan.ring.hwTail := by
          rw [firstOpen, hwBds, hzero]
          rfl
        rw [if_neg hpos, ← hfirst, hnone]
  | engine | reset | toHw | fromHw | forceFromHw | other => exact Iff.rfl

/-! ## Every run -/

/-- Only `Dma_BdRingStart` writes `RunState`, and none writes `BdaRestart`. -/
theorem ringStep_fields {c c' : Chan} {op : RingOp} (hop : op ≠ .start)
    (hstep : ringStep c op = some c') :
    c'.ring.runState = c.ring.runState ∧ c'.ring.bdaRestart = c.ring.bdaRestart := by
  have quiet : op.Quiet →
      c'.ring.runState = c.ring.runState ∧ c'.ring.bdaRestart = c.ring.bdaRestart := by
    intro hquiet
    have hbase := (hquiet.sameHw hstep).base
    have hrestart : c'.ring.base.bdaRestart = c.ring.base.bdaRestart := by rw [hbase]
    exact ⟨runState_congr hbase, hrestart⟩
  cases op with
  | start => exact absurd rfl hop
  | toHw =>
    rw [← Option.some.inj hstep, bdRingToHw]
    dsimp only
    split_ifs <;> exact ⟨rfl, rfl⟩
  | fromHw =>
    rw [← Option.some.inj hstep, bdRingFromHw]
    dsimp only
    split_ifs <;> exact ⟨rfl, rfl⟩
  | forceFromHw =>
    rw [← Option.some.inj hstep, bdRingForceFromHw]
    dsimp only
    split_ifs <;> exact ⟨rfl, rfl⟩
  | alloc | unAlloc | free | hwWrite | setCtrl | setStatus | setCtrlLength | setStatLength
    | setId | setBufAddr | setUserData => exact quiet trivial

theorem Rooted.ringStep {c c' : Chan} {op : RingOp} (h : Rooted c.ring) (hop : op ≠ .start)
    (hstep : ringStep c op = some c') : Rooted c'.ring := by
  obtain ⟨g, hg⟩ := h.parts
  obtain ⟨g', hkept⟩ := ringStep_parts hg hstep
  obtain ⟨hrun, hrestart⟩ := ringStep_fields hop hstep
  have hphys : c'.ring.block.firstBdPhysAddr = c.ring.block.firstBdPhysAddr := by rw [hkept.block]
  refine ⟨⟨g', hkept.parts⟩, hrestart.trans (h.bdaRestart.trans hphys.symm), ?_⟩
  rw [hrun]
  exact h.runState

theorem Rooted.start {c : Chan} (h : Rooted c.ring) : Rooted (bdRingStart c).2.ring := by
  obtain ⟨g, hg⟩ := h.parts
  have hkept := start_kept hg
  rcases h.runState with hstarted | hstopped
  · rw [bdRingStart, if_neg h.allCnt, if_pos hstarted]
    exact h
  · rw [bdRingStart_stopped h.allCnt hstopped] at hkept ⊢
    exact ⟨⟨g, hkept.parts⟩, h.bdaRestart, Or.inl rfl⟩

theorem Watched.engine_ring (s : Watched) (e : Completion) :
    (s.engine e).chan.ring = s.chan.ring := by
  unfold Watched.engine
  split_ifs <;> rfl

/-- **One step.** -/
theorem Rooted.step {s s' : Watched} {a : RestartAct} (h : Rooted s.chan.ring)
    (hstep : restartStep s a = some s') : Rooted s'.chan.ring := by
  cases a with
  | engine e =>
    rw [← Option.some.inj hstep, s.engine_ring]
    exact h
  | reset =>
    rw [← Option.some.inj hstep]
    obtain ⟨g, hg⟩ := h.parts
    exact ⟨⟨g, { hg with laid := { hg.laid with } }⟩, h.bdaRestart, Or.inr rfl⟩
  | start =>
    rw [← Option.some.inj hstep]
    exact h.start
  | toHw numBd bdSetPtr =>
    rw [← Option.some.inj hstep]
    exact h.ringStep (RingOp.noConfusion : RingOp.toHw numBd bdSetPtr ≠ .start) rfl
  | fromHw bdLimit es =>
    rw [← Option.some.inj hstep]
    have hne : RingOp.fromHw (fun t => (s.atRead es t).chan.mem) bdLimit ≠ .start :=
      RingOp.noConfusion
    have hring := h.ringStep hne rfl
    exact hring
  | forceFromHw bdLimit =>
    rw [← Option.some.inj hstep]
    exact h.ringStep (RingOp.noConfusion : RingOp.forceFromHw bdLimit ≠ .start) rfl
  | other op =>
    rw [restartStep.eq_def] at hstep
    dsimp only at hstep
    split at hstep
    · cases hstep
    · cases hstep
    · cases hstep
    · cases hstep
    · cases hstep
    · obtain ⟨c, hc, rfl⟩ := Option.map_eq_some_iff.1 hstep
      exact h.ringStep (by assumption) hc

/-! ## Runs that resume -/

/-- From `m` to `m'` no BD has become completed. -/
def NoNewComp (r : BdRing) (m m' : Mem) : Prop :=
  ∀ x, (bdWords m' (bdAt r x)).Comp → (bdWords m (bdAt r x)).Comp

theorem NoNewComp.refl (r : BdRing) (m : Mem) : NoNewComp r m m := fun _ h => h

theorem Edits.noNewComp {r : BdRing} {body : Mem → U32 → Mem} {eff : BdWords → BdWords}
    (he : Edits body eff) (hcomp : ∀ w, (eff w).Comp → w.Comp) (h : Laid r) (m : Mem) (x : ℕ) :
    NoNewComp r m (body m (bdAt r x)) := by
  intro y hy
  by_cases heq : bdAt r y = bdAt r x
  · rw [heq, he.words] at hy
    rw [heq]
    exact hcomp _ hy
  · rwa [he.other h m heq] at hy

theorem walkBds_noNewComp {r : BdRing} {body : ℕ → Mem → U32 → Mem} {eff : ℕ → BdWords → BdWords}
    (h : Laid r) (he : ∀ i, Edits (body i) (eff i)) (hcomp : ∀ i w, (eff i w).Comp → w.Comp)
    (n : ℕ) (m : Mem) (x : ℕ) : NoNewComp r m (walkBds r body n m (bdAt r x)) := by
  induction n generalizing body eff m x with
  | zero => exact .refl r m
  | succ n ih =>
    rw [walkBds, h.next]
    intro y hy
    exact (he 0).noNewComp (hcomp 0) h m x y
      (ih (fun i => he (i + 1)) (fun i => hcomp (i + 1)) _ _ y hy)

theorem toHw_noNewComp {c : Chan} {g : Split} (h : Parts c.ring g) (numBd bdSetPtr : U32) :
    NoNewComp c.ring c.mem (bdRingToHw c numBd bdSetPtr).2.mem := by
  have hloop : c.ring.preHead = bdSetPtr →
      NoNewComp c.ring c.mem (toHwLoop c.ring numBd.toNat c.mem bdSetPtr).2.1 := by
    rintro rfl
    obtain ⟨j, -, hmem, -⟩ := toHwLoop_walk c.ring numBd.toNat c.mem c.ring.preHead
    rw [hmem, h.preHead]
    exact walkBds_noNewComp h.laid (fun _ => edits_setStatus 0)
      (fun _ w hw => absurd hw (clearedWords_comp w)) j _ _
  unfold bdRingToHw
  dsimp only
  split_ifs with h1 h2 h3 h4
  · exact .refl _ _
  · exact .refl _ _
  · exact .refl _ _
  all_goals exact hloop (not_not.1 (not_or.1 h2).2)

/-- The status word keeps its upper bits under `Dma_mBdSetStatLength`. -/
theorem comp_setStatLength (w : BdWords) (len : U32)
    (h : BdWords.Comp { w with status := w.status &&& bdStatusMask ||| len &&& bdBuflMask }) :
    w.Comp := by
  have hmask : bdStatusMask &&& bdCompMask = bdCompMask := by decide
  have hdisj : bdBuflMask &&& bdCompMask = 0#32 := by decide
  rw [BdWords.Comp, Flag, BitVec.and_or_distrib_right, Words.and_and_of_sub hmask,
    Words.and_and_of_disjoint hdisj] at h
  intro hzero
  rw [hzero] at h
  exact h (BitVec.or_self)

/-- What the driver does outside the Hardware group completes no BD, unless it sets the status of
one. -/
theorem RingOp.Quiet.noNewComp {c c' : Chan} {g : Split} {op : RingOp} (h : op.Quiet)
    (hparts : Parts c.ring g) (hstatus : ∀ i data, op ≠ .setStatus i data)
    (hengine : ∀ i st usrl usrh, op ≠ .hwWrite i st usrl usrh)
    (hstep : ringStep c op = some c') : NoNewComp c.ring c.mem c'.mem := by
  have edit : ∀ {body : Mem → U32 → Mem} {eff : BdWords → BdWords} {i : ℕ},
      Edits body eff → (∀ w, (eff w).Comp → w.Comp) →
      some { c with mem := body c.mem (bdAt c.ring i) } = some c' →
      NoNewComp c.ring c.mem c'.mem := by
    intro body eff i he hcomp hc
    rw [← Option.some.inj hc]
    exact he.noNewComp hcomp hparts.laid _ _
  cases op with
  | alloc numBd =>
    rw [ringStep] at hstep
    split at hstep <;> rw [← Option.some.inj hstep] <;> exact .refl _ _
  | unAlloc numBd =>
    rw [ringStep] at hstep
    split at hstep <;> rw [← Option.some.inj hstep] <;> exact .refl _ _
  | free numBd bdSetPtr =>
    rw [ringStep] at hstep
    split at hstep
    · next c₁ hok =>
      rw [← Option.some.inj hstep]
      by_cases hpos : numBd = 0
      · rw [hpos, free_zero, Except.ok.injEq] at hok
        rw [← hok]
        exact .refl _ _
      · obtain ⟨hle, rfl⟩ := hparts.free_ok hpos hok
        obtain ⟨r', heq, -⟩ := hparts.free hpos hle
        rw [heq, Except.ok.injEq] at hok
        rw [← hok]
        dsimp only
        rw [freeLoop_walk]
        exact walkBds_noNewComp hparts.laid (fun _ => edits_freeBd)
          (fun _ _ hw => absurd (show (0 : U32) &&& bdCompMask = 0 by decide) hw) _ _ _
    · rw [← Option.some.inj hstep]
      exact .refl _ _
  | start => exact h.elim
  | toHw => exact h.elim
  | fromHw => exact h.elim
  | forceFromHw => exact h.elim
  | hwWrite i st usrl usrh => exact absurd rfl (hengine i st usrl usrh)
  | setStatus i data => exact absurd rfl (hstatus i data)
  | setCtrl i data => exact edit (edits_setCtrl data) (fun _ hw => hw) hstep
  | setCtrlLength i len => exact edit (edits_setCtrlLength len) (fun _ hw => hw) hstep
  | setStatLength i len =>
    exact edit (edits_setStatLength len) (fun w hw => comp_setStatLength w len hw) hstep
  | setId i id => exact edit (edits_setId id) (fun _ hw => hw) hstep
  | setBufAddr i addr => exact edit (edits_setBufAddr addr) (fun _ hw => hw) hstep
  | setUserData i user => exact edit (edits_setUserData user) (fun _ hw => hw) hstep

variable {s s' : Watched} {g : Split} {k : ℕ}

/-- The engine has left off where it stands. -/
theorem Tracks.firstOpen_eq (h : Tracks s g k) :
    firstOpen s = bdAt s.chan.ring (g.hwPos + k) := by
  have hle := h.le
  have hdone : (arc (bdAt s.chan.ring) g.hwPos k).find? (fun bd => !s.done bd) = none := by
    refine List.find?_eq_none.2 fun bd hbd => ?_
    obtain ⟨i, hi, rfl⟩ := mem_arc.1 hbd
    rw [h.done i hi]
    exact Bool.false_ne_true
  have hsplit : arc (bdAt s.chan.ring) g.hwPos g.hw = arc (bdAt s.chan.ring) g.hwPos k ++
      arc (bdAt s.chan.ring) (g.hwPos + k) (g.hw - k) := by
    rw [arc_append, Nat.add_sub_cancel' hle]
  rw [firstOpen, h.parts.hwBds_eq, hsplit, List.find?_append, hdone, Option.none_or]
  rcases Nat.eq_or_lt_of_le hle with rfl | hlt
  · rw [Nat.sub_self, arc_zero, h.parts.hwTail, g.hwPos_add]
    rfl
  · obtain ⟨n, hn⟩ : ∃ n, g.hw - k = n + 1 := ⟨g.hw - k - 1, by omega⟩
    have hopen := (h.opens k le_rfl hlt).1
    rw [hn, arc_succ, List.find?_cons_of_pos (by rw [hopen]; rfl)]
    rfl

/-- After `Dma_Reset` the engine is disabled. -/
theorem dmaReset_disabled (c : Chan) : ¬ Flag (dmaReset c).regs.ctrlStatus engEnableMask := by
  have hset : ∀ (g : Regs) (data : U32), (setCrSr g data).ctrlStatus &&& engEnableMask =
      data &&& engEnableMask := fun g data =>
    crSrAfter_control engEnableMask (by decide) (by decide) (by decide) g.ctrlStatus data
  intro hen
  refine hen ?_
  unfold dmaReset
  dsimp only
  split_ifs
  · rw [engIntAck, hset, BitVec.and_or_distrib_right, getCrSr, hset, BitVec.and_assoc]
    have hint : engAllintMask &&& engEnableMask = 0#32 := by decide
    rw [hint, BitVec.and_zero]
    decide
  · rw [hset]
    decide

theorem Tracks.reset (h : Tracks s g k) : Tracks { s with chan := dmaReset s.chan } g k where
  parts := { h.parts with laid := { h.parts.laid with } }
  linked := h.linked
  le := h.le
  done := h.done
  opens := h.opens
  regs hen := absurd hen (dmaReset_disabled s.chan)

/-- A start that resumes. -/
theorem Tracks.start (h : Tracks s g k) (hroot : Rooted s.chan.ring)
    (hok : Resumes s .start) : Tracks { s with chan := (bdRingStart s.chan).2 } g k := by
  rcases hroot.runState with hstarted | hstopped
  · have hsame : (bdRingStart s.chan).2 = s.chan := by
      rw [bdRingStart, if_neg hroot.allCnt, if_pos hstarted]
    rw [hsame]
    exact h
  · obtain ⟨hnext, hsw⟩ := hok hstopped
    rw [h.firstOpen_eq] at hnext
    rw [h.parts.hwTail] at hsw
    rw [bdRingStart_stopped hroot.allCnt hstopped] at hnext hsw ⊢
    exact {
      parts := { h.parts with laid := { h.parts.laid with } }
      linked := h.linked
      le := h.le
      done := h.done
      opens := h.opens
      regs := fun _ => ⟨rfl, hnext, hsw⟩ }

/-- BDs are submitted, or refused. -/
theorem Tracks.toHw (h : Tracks s g k) (numBd bdSetPtr : U32) :
    ∃ g', Tracks (s.toHw numBd bdSetPtr).2 g' k ∧
      (s.toHw numBd bdSetPtr).2.stray = s.stray ∧ (s.toHw numBd bdSetPtr).2.again = s.again := by
  by_cases hzero : numBd = 0
  · refine ⟨g, ?_, rfl, rfl⟩
    have hsame : (s.toHw numBd bdSetPtr).2 = s := by
      rw [hzero, Watched.toHw, toHw_zero]
      rfl
    rw [hsame]
    exact h
  by_cases hok : (bdRingToHw s.chan numBd bdSetPtr).1 = .success
  · obtain ⟨hle, rfl, hsop, hloop⟩ := h.parts.toHw_success hzero hok
    have hacc : ToHwAccepts s.chan g.prePos numBd.toNat :=
      Or.inr ⟨hsop, (toHwLoop_ok h.parts.laid _ _ _).1 hloop⟩
    obtain ⟨s', heq, -, hs', -, -, hstray, hagain, -⟩ := h.toHw_ok hle hacc
    rw [BitVec.ofNat_toNat, BitVec.setWidth_eq] at heq
    rw [heq]
    exact ⟨_, hs', hstray, hagain⟩
  · obtain ⟨hring, hregs⟩ := toHw_rejected hok
    have hsame : (s.toHw numBd bdSetPtr).2 =
        { s with chan := (bdRingToHw s.chan numBd bdSetPtr).2 } := by
      rw [Watched.toHw]
      dsimp only
      rw [if_neg hok]
    rw [hsame]
    refine ⟨g, h.frame (by rw [hring]; exact h.parts) rfl rfl (by rw [hring]) hregs
      (toHw_sameLinks h.parts numBd bdSetPtr) fun i _ hc => ?_, rfl, rfl⟩
    rw [wordsAt, hring] at hc
    exact toHw_noNewComp h.parts numBd bdSetPtr _ hc

/-- BDs are forced out of the Hardware group of a stopped ring. -/
theorem Tracks.forceFromHw (h : Tracks s g k) (bdLimit : U32)
    (hstopped : s.chan.ring.runState ≠ .dmaSgIsStarted) :
    ∃ g' j, Tracks { s with
      chan := { s.chan with ring := (bdRingForceFromHw s.chan.ring bdLimit).2.2 } } g' j := by
  obtain ⟨r', hn, heq, hparts, hbase⟩ := h.parts.forceFromHw bdLimit
  have hbd : bdAt r' = bdAt s.chan.ring := bdAt_congr (block_of_base hbase)
  have hphys : virtToPhys r' = virtToPhys s.chan.ring := virtToPhys_congr (block_of_base hbase)
  have hle := h.le
  rw [heq]
  generalize min bdLimit.toNat g.hw = n at hn hparts
  have hpos : ∀ i, (g.fromHw n hn).hwPos + i = g.hwPos + (n + i) := fun i => by
    rw [g.fromHw_hwPos hn, Nat.add_assoc]
  refine ⟨_, k - n, {
    parts := hparts
    linked := fun x => ?_
    le := ?_
    done := fun i hi => ?_
    opens := fun i hi hlt => ?_
    regs := fun hen => absurd (h.regs hen).1 hstopped }⟩
  · dsimp only
    rw [hbd, hphys]
    exact h.linked x
  · show k - n ≤ g.hw - n
    omega
  · dsimp only
    rw [hbd, hpos]
    exact h.done (n + i) (by omega)
  · have hlt' : i < g.hw - n := hlt
    dsimp only [wordsAt]
    rw [hbd, hpos]
    exact h.opens (n + i) (by omega) (by omega)

/-- What the driver does outside the Hardware group. -/
theorem Tracks.quiet (h : Tracks s g k) {op : RingOp} (hop : op.Quiet)
    (hengine : ∀ i st usrl usrh, op ≠ .hwWrite i st usrl usrh)
    (hok : LeavesToEngine s (.other op)) {c : Chan} (hstep : ringStep s.chan op = some c) :
    ∃ g', Tracks { s with chan := c } g' k := by
  obtain ⟨g', hkept⟩ := ringStep_parts h.parts hstep
  have hsame := hop.sameHw hstep
  have hbd : bdAt c.ring = bdAt s.chan.ring := bdAt_congr hkept.block
  have hhead : bdAt s.chan.ring g'.hwPos = bdAt s.chan.ring g.hwPos := by
    rw [← h.parts.hwHead, ← hsame.hwHead, hkept.parts.hwHead, hbd]
  have hhw : g'.hw = g.hw := by
    rw [← hkept.parts.hwCnt, hsame.hwCnt, h.parts.hwCnt]
  refine ⟨g', h.frame hkept.parts hhead hhw hsame.base hsame.regs hkept.links fun i hi hc => ?_⟩
  rw [wordsAt, hbd] at hc
  by_cases hstatus : ∃ j data, op = .setStatus j data
  · obtain ⟨j, data, rfl⟩ := hstatus
    have hne : bdAt s.chan.ring (g.hwPos + i) ≠ bdAt s.chan.ring j := by
      intro heq
      refine hok ?_
      rw [← heq, h.parts.hwBds_eq]
      exact mem_arc.2 ⟨i, hi, rfl⟩
    rw [← Option.some.inj hstep] at hc
    rwa [(edits_setStatus data).other h.parts.laid _ hne] at hc
  · exact hop.noNewComp h.parts (fun j data heq => hstatus ⟨j, data, heq⟩) hengine hstep _ hc

/-- **The invariant** of the runs that resume. -/
structure RestartInv (s : Watched) : Prop where
  tracks : ∃ g k, Tracks s g k
  rooted : Rooted s.chan.ring
  stray : s.stray = []
  again : s.again = []

/-- **One step of a run that resumes.** -/
theorem RestartInv.step {a : RestartAct} (h : RestartInv s)
    (hok : Resumes s a ∧ LeavesToEngine s a) (hstep : restartStep s a = some s') :
    RestartInv s' := by
  obtain ⟨g, k, ht⟩ := h.tracks
  have hrooted := h.rooted.step hstep
  cases a with
  | engine e =>
    obtain ⟨j, -, hj, hcalm⟩ := ht.engine e
    rw [← Option.some.inj hstep] at hrooted ⊢
    exact ⟨⟨g, j, hj⟩, hrooted, hcalm.stray.trans h.stray, hcalm.again.trans h.again⟩
  | reset =>
    rw [← Option.some.inj hstep] at hrooted ⊢
    exact ⟨⟨g, k, ht.reset⟩, hrooted, h.stray, h.again⟩
  | start =>
    rw [← Option.some.inj hstep] at hrooted ⊢
    exact ⟨⟨g, k, ht.start h.rooted hok.1⟩, hrooted, h.stray, h.again⟩
  | toHw numBd bdSetPtr =>
    obtain ⟨g', ht', hstray, hagain⟩ := ht.toHw numBd bdSetPtr
    rw [← Option.some.inj hstep] at hrooted ⊢
    exact ⟨⟨g', k, ht'⟩, hrooted, hstray.trans h.stray, hagain.trans h.again⟩
  | fromHw bdLimit es =>
    obtain ⟨n, j, t, hn, heq, ht', -, -, hstray, hagain, -⟩ := ht.fromHw bdLimit es
    rw [← Option.some.inj hstep, heq] at hrooted ⊢
    exact ⟨⟨_, j, ht'⟩, hrooted, hstray.trans h.stray, hagain.trans h.again⟩
  | forceFromHw bdLimit =>
    obtain ⟨g', j, ht'⟩ := ht.forceFromHw bdLimit hok.2
    rw [← Option.some.inj hstep] at hrooted ⊢
    exact ⟨⟨g', j, ht'⟩, hrooted, h.stray, h.again⟩
  | other op =>
    rw [restartStep.eq_def] at hstep
    dsimp only at hstep
    split at hstep
    · cases hstep
    · cases hstep
    · cases hstep
    · cases hstep
    · cases hstep
    · next hstart htoHw hfromHw hforce hengine =>
      obtain ⟨c, hc, rfl⟩ := Option.map_eq_some_iff.1 hstep
      have hquiet : op.Quiet := by
        cases op with
        | start => exact absurd rfl hstart
        | toHw => exact absurd rfl (htoHw _ _)
        | fromHw => exact absurd rfl (hfromHw _ _)
        | forceFromHw => exact absurd rfl (hforce _)
        | alloc | unAlloc | free | hwWrite | setCtrl | setStatus | setCtrlLength | setStatLength
          | setId | setBufAddr | setUserData => trivial
      obtain ⟨g', ht'⟩ := ht.quiet hquiet hengine hok.2 hc
      exact ⟨⟨g', k, ht'⟩, hrooted, h.stray, h.again⟩

/-- A new ring is rooted, and the engine stands at its start. -/
theorem created_restartInv (isRxChannel : Bool) (m : Mem) {physAddr virtAddr alignment bdCount : U32}
    (hok : (bdRingCreate (initializedChan isRxChannel m) physAddr virtAddr alignment bdCount).1 =
      .success)
    (hfits : Fits virtAddr (bdRingCreate (initializedChan isRxChannel m) physAddr virtAddr alignment
      bdCount).2.ring.separation bdCount) :
    RestartInv
      (watch (bdRingCreate (initializedChan isRxChannel m) physAddr virtAddr alignment bdCount).2) := by
  have hparts := create_parts hok hfits
  have hlinked := created_linked hok hfits
  have hfields := (create_success hok).2.2.2
  have hoff : ¬ Flag (watch (bdRingCreate (initializedChan isRxChannel m) physAddr virtAddr alignment
      bdCount).2).chan.regs.ctrlStatus engEnableMask := by
    simp only [watch, hfields]
    exact fun h => absurd h (by decide : ¬ Flag 0 engEnableMask)
  have htracks : Tracks
      (watch (bdRingCreate (initializedChan isRxChannel m) physAddr virtAddr alignment bdCount).2)
      (Split.fresh bdCount.toNat) 0 :=
    { parts := hparts
      linked := hlinked
      le := Nat.zero_le _
      done := fun i hi => absurd hi (Nat.not_lt_zero i)
      opens := fun i _ hi => absurd hi (Nat.not_lt_zero i)
      regs := fun hen => absurd hen hoff }
  refine ⟨⟨_, 0, htracks⟩, ⟨⟨_, hparts⟩, ?_, Or.inr ?_⟩, rfl, rfl⟩
  · simp only [watch, hfields]
  · simp only [watch, hfields]

/-- **Stop, reset, start.** All starts of a run resume where the engine left off exactly when this
is always the first BD of the block. In such a run the engine processes no BD twice and fetches none
outside the Hardware group, if the BDs of that group are left to it. -/
theorem restart_resumes (isRxChannel : Bool) (m : Mem) (physAddr virtAddr alignment bdCount : U32)
    (hok : (bdRingCreate (initializedChan isRxChannel m) physAddr virtAddr alignment bdCount).1 =
      .success)
    (hfits : Fits virtAddr (bdRingCreate (initializedChan isRxChannel m) physAddr virtAddr alignment
      bdCount).2.ring.separation bdCount) (acts : List RestartAct) (s : Watched)
    (hrun : run restartStep (watch (bdRingCreate (initializedChan isRxChannel m) physAddr virtAddr
      alignment bdCount).2) acts = some s) :
    (Along restartStep Resumes (watch (bdRingCreate (initializedChan isRxChannel m) physAddr virtAddr
        alignment bdCount).2) acts ↔
      Along restartStep LeftOffAtFirst (watch (bdRingCreate (initializedChan isRxChannel m) physAddr
        virtAddr alignment bdCount).2) acts) ∧
    (Along restartStep LeftOffAtFirst (watch (bdRingCreate (initializedChan isRxChannel m) physAddr
        virtAddr alignment bdCount).2) acts →
      Along restartStep LeavesToEngine (watch (bdRingCreate (initializedChan isRxChannel m) physAddr
        virtAddr alignment bdCount).2) acts → s.stray = [] ∧ s.again = []) := by
  have hinv := created_restartInv isRxChannel m hok hfits
  have hiff : Along restartStep Resumes _ acts ↔ Along restartStep LeftOffAtFirst _ acts :=
    along_congr (I := fun s : Watched => Rooted s.chan.ring)
      (fun s a s' h hstep => h.step hstep) (fun s a h => resumes_iff h a) hinv.rooted
  refine ⟨hiff, fun hfirst hleaves => ?_⟩
  have hend := run_inv (I := RestartInv) (fun s a s' h hok hstep => h.step hok hstep) hinv
    (along_and (hiff.2 hfirst) hleaves) hrun
  exact ⟨hend.stray, hend.again⟩

/-- Two BDs are queued, the engine is started, reset before it has done anything, and started
again; then it completes the first of them. -/
def startedTwice : List RestartAct :=
  [.other (.alloc 2), .other (.setCtrlLength 0 64), .other (.setCtrlLength 1 64), .toHw 2 0x1000,
    .start, .reset, .start, .engine ⟨0x40000040, 0, 0⟩, .fromHw 4 []]

theorem restart_resumes_startedTwice : ∃ s,
    run restartStep (watch (bdRingCreate (initializedChan true fun _ => 0) 0 0x1000 64 4).2)
      startedTwice = some s ∧
    Along restartStep Resumes
      (watch (bdRingCreate (initializedChan true fun _ => 0) 0 0x1000 64 4).2) startedTwice ∧
    s.stray = [] ∧ s.again = [] := by
  have h := restart_resumes true (fun _ => 0) 0 0x1000 64 4 (by decide) (by decide) startedTwice _ rfl
  have hfirst : Along restartStep LeftOffAtFirst
      (watch (bdRingCreate (initializedChan true fun _ => 0) 0 0x1000 64 4).2) startedTwice := by
    decide +kernel
  exact ⟨_, rfl, h.1.2 hfirst, h.2 hfirst (by decide +kernel)⟩

/-- **Sent again.** The engine has completed the first BD and stands at the second when it is reset.
`Dma_BdRingStart` points it to the first BD again, and it processes this BD once more. -/
theorem sent_again : ∃ s s' s'',
    run restartStep (watch (bdRingCreate (initializedChan true fun _ => 0) 0 0x1000 64 4).2)
      [.other (.alloc 2), .other (.setCtrlLength 0 64), .other (.setCtrlLength 1 64),
        .toHw 2 0x1000, .start, .engine ⟨0x40000040, 0, 0⟩, .reset] = some s ∧
    s.chan.ring.runState = .dmaSgIsStopped ∧ firstOpen s = 0x1040 ∧
    restartStep s .start = some s' ∧ ¬ Resumes s .start ∧ s'.chan.regs.nextBd = 0 ∧
    restartStep s' (.engine ⟨0x40000040, 0, 0⟩) = some s'' ∧ s''.again = [0x1000] :=
  ⟨_, _, _, rfl, rfl, by decide +kernel, rfl,
    fun h => absurd (h rfl).1 (by decide +kernel), by decide +kernel, rfl, by decide +kernel⟩

end Dma
