import MyDriver.Xdma.Links
import MyDriver.Xdma.Settled

/-!
# The engine at work on the ring

The engine holds the physical address of a BD in `REG_DMA_ENG_NEXT_BD`. While it is enabled and this
address is not the one in `REG_SW_NEXT_BD`, it completes the BD and goes on to the one that the BD's
link names. It looks at no field of the ring: what keeps it inside the Hardware group is how the
driver sets the two registers.

`Watched` is a ring with the notes of an observer: which BDs the engine has completed since they
were last submitted, and what should not have happened. `Tracks s g k` says that the engine stands
at the BD number `k` of the Hardware group.

* `Tracks.engine` — a step of the engine, and `Tracks.fromHw` — **a poll during which the engine
  goes on**: nothing is returned that the engine has not completed.
* `Tracks.frame`, `Tracks.toHw_ok` — what the driver does meanwhile.
-/

namespace Dma

open Cyclic

/-- What the engine writes into a BD, besides `DMA_BD_COMP_MASK`. -/
structure Completion where
  status : U32
  usrl : U32
  usrh : U32

/-- The BD that the engine points to. -/
def engineBd (c : Chan) : U32 := physToVirt c.ring c.regs.nextBd

/-- The engine is enabled and has a BD to work on. -/
def EngineReady (c : Chan) : Prop :=
  Flag c.regs.ctrlStatus engEnableMask ∧ c.regs.nextBd ≠ c.regs.swNextBd

instance (c : Chan) : Decidable (EngineReady c) := by unfold EngineReady; infer_instance

/-- The engine completes a BD and goes on to the next. -/
def engineStep (c : Chan) (e : Completion) : Chan :=
  { c with
    mem := hwWrite c.mem (engineBd c) (e.status ||| bdCompMask) e.usrl e.usrh
    regs := { c.regs with nextBd := bdRead c.mem (engineBd c) bdNdescOffset } }

/-- A ring under observation. -/
structure Watched where
  chan : Chan
  /-- The engine has completed the BD since `Dma_BdRingToHw` last submitted it. -/
  done : U32 → Bool
  /-- The BDs the engine has written that were not in the Hardware group. -/
  stray : List U32
  /-- The BDs the engine has written that it had completed already. -/
  again : List U32
  /-- The BDs `Dma_BdRingFromHw` has returned that were not completed when it read their status. -/
  stale : List U32

def watch (c : Chan) : Watched := ⟨c, fun _ => false, [], [], []⟩

namespace Watched

/-- A step of the engine, if it has a BD to work on. -/
def engine (s : Watched) (e : Completion) : Watched :=
  if EngineReady s.chan then
    let bd := engineBd s.chan
    { s with
      chan := engineStep s.chan e
      done := Function.update s.done bd true
      stray := if bd ∈ hwBds s.chan.ring then s.stray else s.stray ++ [bd]
      again := if s.done bd = true then s.again ++ [bd] else s.again }
  else s

def engineRun (s : Watched) (es : List Completion) : Watched := es.foldl engine s

/-- What the word read number `t` of a call finds, when the engine takes the steps `es[t]` just
before it. -/
def atRead (s : Watched) (es : List (List Completion)) (t : ℕ) : Watched :=
  s.engineRun (es.take (t + 1)).flatten

/-- `Dma_BdRingFromHw` while the engine goes on. The status of the BD number `j` is read by the word
read number `4 * j`. -/
def fromHw (s : Watched) (bdLimit : U32) (es : List (List Completion)) : ℕ × U32 × Watched :=
  let r := s.chan.ring
  let got := bdRingFromHw r (fun t => (s.atRead es t).chan.mem) bdLimit
  let after := s.engineRun es.flatten
  let bd (j : ℕ) : U32 := (bdRingNext r)^[j] r.hwHead
  (got.1, got.2.1, { after with
    chan := { after.chan with ring := got.2.2 }
    stale := after.stale ++
      ((List.range got.1).filter fun j => !(s.atRead es (4 * j)).done (bd j)).map bd })

def toHw (s : Watched) (numBd bdSetPtr : U32) : XStatus × Watched :=
  let toHw := bdRingToHw s.chan numBd bdSetPtr
  (toHw.1, { s with
    chan := toHw.2
    done :=
      if toHw.1 = .success then
        fun bd => if bd ∈ bdsFrom s.chan.ring numBd.toNat bdSetPtr then false else s.done bd
      else s.done })

/-- Only the engine has moved, and it has done nothing that is noted down. -/
structure Calm (s s' : Watched) : Prop where
  ring : s'.chan.ring = s.chan.ring
  ctrlStatus : s'.chan.regs.ctrlStatus = s.chan.regs.ctrlStatus
  stray : s'.stray = s.stray
  again : s'.again = s.again
  stale : s'.stale = s.stale

theorem Calm.refl (s : Watched) : Calm s s := ⟨rfl, rfl, rfl, rfl, rfl⟩

theorem Calm.trans {s s' s'' : Watched} (h : Calm s s') (h' : Calm s' s'') : Calm s s'' :=
  ⟨h'.ring.trans h.ring, h'.ctrlStatus.trans h.ctrlStatus, h'.stray.trans h.stray,
    h'.again.trans h.again, h'.stale.trans h.stale⟩

theorem engineRun_append (s : Watched) (es fs : List Completion) :
    s.engineRun (es ++ fs) = (s.engineRun es).engineRun fs := List.foldl_append

end Watched

theorem virtToPhys_congr {r r' : BdRing} (h : r'.block = r.block) :
    virtToPhys r' = virtToPhys r := by
  have h' : virtToPhys r'.block = virtToPhys r.block := by rw [h]
  exact h'

theorem runState_congr {r r' : BdRing} (h : r'.base = r.base) : r'.runState = r.runState := by
  have h' : r'.base.runState = r.base.runState := by rw [h]
  exact h'

/-- What a rewrite does to one BD, whether it is among those rewritten or not. -/
theorem Rewrites.rel {Q : BdWords → BdWords → Prop} {r : BdRing} {m m' : Mem} {x n : ℕ}
    {eff : ℕ → BdWords → BdWords} (hw : Rewrites r m m' x n eff) (hrefl : ∀ w, Q w w)
    (heff : ∀ i w, Q w (eff i w)) (y : ℕ) : Q (bdWords m (bdAt r y)) (bdWords m' (bdAt r y)) := by
  by_cases hin : ∃ i < n, bdAt r y = bdAt r (x + i)
  · obtain ⟨i, hi, hyi⟩ := hin
    rw [hyi, hw.own i hi]
    exact heff i _
  · rw [hw.other y fun i hi hyi => hin ⟨i, hi, hyi⟩]
    exact hrefl _

theorem Rewrites.sameLinks {r : BdRing} {m m' : Mem} {x n : ℕ} {eff : ℕ → BdWords → BdWords}
    (hw : Rewrites r m m' x n eff) (hlink : ∀ i w, (eff i w).ndesc = w.ndesc) :
    SameLinks r m m' :=
  hw.rel (Q := fun w w' => w'.ndesc = w.ndesc) (fun _ => rfl) hlink

/-- **The engine stands at the BD number `k` of the Hardware group**: it has completed those before
it, and none of the others. -/
structure Tracks (s : Watched) (g : Split) (k : ℕ) : Prop where
  parts : Parts s.chan.ring g
  linked : Linked s.chan.ring s.chan.mem
  le : k ≤ g.hw
  done : ∀ i < k, s.done (bdAt s.chan.ring (g.hwPos + i)) = true
  opens : ∀ i, k ≤ i → i < g.hw → s.done (bdAt s.chan.ring (g.hwPos + i)) = false ∧
    ¬ (wordsAt s.chan (g.hwPos + i)).Comp
  regs : Flag s.chan.regs.ctrlStatus engEnableMask →
    s.chan.ring.runState = .dmaSgIsStarted ∧
    s.chan.regs.nextBd = virtToPhys s.chan.ring (bdAt s.chan.ring (g.hwPos + k)) ∧
    s.chan.regs.swNextBd = virtToPhys s.chan.ring (bdAt s.chan.ring g.prePos)

variable {s s' : Watched} {g g' : Split} {k : ℕ}

namespace Tracks

/-- The place of the engine is unique. -/
theorem unique {j : ℕ} (h : Tracks s g k) (h' : Tracks s g j) : k = j := by
  have hlt : ∀ {i j : ℕ}, Tracks s g i → Tracks s g j → ¬ i < j := by
    intro i j hi hj hij
    have hdone := hj.done i hij
    rw [(hi.opens i le_rfl (hij.trans_le hj.le)).1] at hdone
    cases hdone
  have h₁ := hlt h h'
  have h₂ := hlt h' h
  omega

/-! ## The engine -/

theorem ready (h : Tracks s g k) (hready : EngineReady s.chan) :
    k < g.hw ∧ engineBd s.chan = bdAt s.chan.ring (g.hwPos + k) := by
  obtain ⟨-, hnext, hsw⟩ := h.regs hready.1
  refine ⟨lt_of_le_of_ne h.le fun heq => hready.2 ?_, ?_⟩
  · rw [hnext, hsw, heq, g.hwPos_add]
  · rw [engineBd, hnext, physToVirt_virtToPhys]

/-- **A step of the engine.** -/
theorem engine (h : Tracks s g k) (e : Completion) :
    ∃ j, k ≤ j ∧ Tracks (s.engine e) g j ∧ s.Calm (s.engine e) := by
  unfold Watched.engine
  by_cases hready : EngineReady s.chan
  · obtain ⟨hlt, hbd⟩ := h.ready hready
    have hlap := g.lap
    have he := edits_hwWrite (e.status ||| bdCompMask) e.usrl e.usrh
    have hne : ∀ i < g.hw, i ≠ k →
        bdAt s.chan.ring (g.hwPos + i) ≠ bdAt s.chan.ring (g.hwPos + k) := fun i hi hik heq =>
      hik (h.parts.circle.eq_of_lt_lap (by omega) (by omega) heq)
    rw [if_pos hready]
    dsimp only
    rw [hbd]
    have hin : bdAt s.chan.ring (g.hwPos + k) ∈ hwBds s.chan.ring := by
      rw [h.parts.hwBds_eq]
      exact mem_arc.2 ⟨k, hlt, rfl⟩
    have hfresh := (h.opens k le_rfl hlt).1
    rw [if_pos hin, hfresh, if_neg Bool.false_ne_true]
    refine ⟨k + 1, Nat.le_succ k, ?_, ⟨rfl, rfl, rfl, rfl, rfl⟩⟩
    exact {
      parts := h.parts
      linked := h.linked.congr (by
        rw [engineStep, hbd]
        exact he.sameLinks (fun _ => rfl) h.parts.laid _ _)
      le := hlt
      done := by
        intro i hi
        dsimp only
        by_cases hik : i = k
        · rw [hik]
          exact Function.update_self _ _ _
        · exact (Function.update_of_ne (hne i (by omega) hik) _ _).trans (h.done i (by omega))
      opens := by
        intro i hki hi
        obtain ⟨hnot, hcomp⟩ := h.opens i (by omega) hi
        have hbdi := hne i hi (by omega)
        refine ⟨(Function.update_of_ne hbdi _ _).trans hnot, ?_⟩
        have hwords : wordsAt (engineStep s.chan e) (g.hwPos + i) = wordsAt s.chan (g.hwPos + i) := by
          rw [wordsAt, engineStep, hbd]
          exact he.other h.parts.laid s.chan.mem hbdi
        rw [hwords]
        exact hcomp
      regs := by
        intro hen
        obtain ⟨hstarted, -, hsw⟩ := h.regs hen
        refine ⟨hstarted, ?_, hsw⟩
        show bdRead s.chan.mem (engineBd s.chan) bdNdescOffset = _
        rw [hbd]
        exact h.linked (g.hwPos + k) }
  · rw [if_neg hready]
    exact ⟨k, le_rfl, h, .refl s⟩

/-- Any number of steps. -/
theorem engineRun (h : Tracks s g k) (es : List Completion) :
    ∃ j, k ≤ j ∧ Tracks (s.engineRun es) g j ∧ s.Calm (s.engineRun es) := by
  induction es generalizing s k with
  | nil => exact ⟨k, le_rfl, h, .refl s⟩
  | cons e es ih =>
    obtain ⟨i, hki, hi, hcalm⟩ := h.engine e
    obtain ⟨j, hij, hj, hcalm'⟩ := ih hi
    exact ⟨j, hki.trans hij, hj, hcalm.trans hcalm'⟩

/-! ## Polling -/

/-- The engine at a word read of a call, and at the end of the call. -/
theorem atRead (h : Tracks s g k) (es : List (List Completion)) (t : ℕ) :
    ∃ i, Tracks (s.atRead es t) g i ∧ s.Calm (s.atRead es t) ∧
      ∀ j, Tracks (s.engineRun es.flatten) g j → i ≤ j := by
  obtain ⟨i, -, hi, hcalm⟩ := h.engineRun (es.take (t + 1)).flatten
  refine ⟨i, hi, hcalm, fun j hj => ?_⟩
  obtain ⟨j', hij, hj', -⟩ := hi.engineRun (es.drop (t + 1)).flatten
  rw [← Watched.engineRun_append, ← List.flatten_append, List.take_append_drop] at hj'
  rw [hj.unique hj']
  exact hij

/-- What a poll sees as completed, the engine has completed. -/
theorem seen_done (h : Tracks s g k) {es : List (List Completion)} {j : ℕ}
    (hj : Tracks (s.engineRun es.flatten) g j) {i : ℕ} (hi : i < g.hw)
    (hseen : Flag (bdGetStatus (s.atRead es (4 * i)).chan.mem
      (bdAt s.chan.ring (g.hwPos + i))) bdCompMask) :
    (s.atRead es (4 * i)).done (bdAt s.chan.ring (g.hwPos + i)) = true ∧ i < j := by
  obtain ⟨p, hp, hcalm, hle⟩ := h.atRead es (4 * i)
  have hcomp : (wordsAt (s.atRead es (4 * i)).chan (g.hwPos + i)).Comp := by
    have hmask : bdStatusMask &&& bdCompMask = bdCompMask := by decide
    rw [bdGetStatus, Flag, Words.and_and_of_sub hmask] at hseen
    rw [wordsAt, hcalm.ring]
    exact hseen
  have hlt : i < p := by
    by_contra hge
    exact (hp.opens i (by omega) hi).2 hcomp
  have hdone := hp.done i hlt
  rw [hcalm.ring] at hdone
  exact ⟨hdone, hlt.trans_le (hle j hj)⟩

/-- **A poll while the engine goes on.** -/
theorem fromHw (h : Tracks s g k) (bdLimit : U32) (es : List (List Completion)) :
    ∃ n j s', ∃ hn : n ≤ g.hw,
      s.fromHw bdLimit es = (n, if n = 0 then 0 else bdAt s.chan.ring g.hwPos, s') ∧
      Tracks s' (g.fromHw n hn) j ∧ s'.chan.ring.base = s.chan.ring.base ∧
      s'.chan.regs.ctrlStatus = s.chan.regs.ctrlStatus ∧ s'.stray = s.stray ∧
      s'.again = s.again ∧ s'.stale = s.stale := by
  obtain ⟨n, r', hn, heq, hwhole, hparts, hbase⟩ :=
    h.parts.fromHw (fun t => (s.atRead es t).chan.mem) bdLimit
  obtain ⟨j, -, hj, hcalm⟩ := h.engineRun es.flatten
  have hseen : ∀ i < n, (s.atRead es (4 * i)).done (bdAt s.chan.ring (g.hwPos + i)) = true ∧
      i < j := fun i hi => h.seen_done hj (hi.trans_le hn) (hwhole.done i hi).1
  have hnj : n ≤ j := by
    by_contra hlt
    exact absurd (hseen j (by omega)).2 (lt_irrefl j)
  have hjle := hj.le
  have hbd : bdAt r' = bdAt s.chan.ring := bdAt_congr (block_of_base hbase)
  have hphys : virtToPhys r' = virtToPhys s.chan.ring := virtToPhys_congr (block_of_base hbase)
  have hpos : ∀ i, (g.fromHw n hn).hwPos + i = g.hwPos + (n + i) := fun i => by
    rw [g.fromHw_hwPos hn, Nat.add_assoc]
  have hstale : ((List.range n).filter fun i => !(s.atRead es (4 * i)).done
      ((bdRingNext s.chan.ring)^[i] s.chan.ring.hwHead)) = [] := by
    refine List.filter_eq_nil_iff.2 fun i hi => ?_
    rw [h.parts.hwHead, h.parts.laid.iterate_next, (hseen i (List.mem_range.1 hi)).1]
    exact Bool.false_ne_true
  refine ⟨n, j - n, { s.engineRun es.flatten with
    chan := { (s.engineRun es.flatten).chan with ring := r' } }, hn, ?_, ?_, hbase,
    hcalm.ctrlStatus, hcalm.stray, hcalm.again, hcalm.stale⟩
  · rw [Watched.fromHw, heq]
    dsimp only
    rw [hstale, List.map_nil, List.append_nil]
  · have hlinked := hj.linked
    have hdone := hj.done
    have hopens := hj.opens
    have hregs := hj.regs
    rw [hcalm.ring] at hlinked hdone hregs
    simp only [wordsAt, hcalm.ring] at hopens
    exact {
      parts := hparts
      linked := fun x => by
        show (bdWords _ (bdAt r' x)).ndesc = virtToPhys r' (bdAt r' (x + 1))
        rw [hbd, hphys]
        exact hlinked x
      le := by
        show j - n ≤ g.hw - n
        omega
      done := fun i hi => by
        dsimp only
        rw [hbd, hpos]
        exact hdone (n + i) (by omega)
      opens := fun i hi hlt => by
        have hlt' : i < g.hw - n := hlt
        dsimp only [wordsAt]
        rw [hbd, hpos]
        exact hopens (n + i) (by omega) (by omega)
      regs := fun hen => by
        obtain ⟨hstarted, hnext, hsw⟩ := hregs hen
        dsimp only
        rw [hbd, hphys, hpos, Nat.add_sub_cancel' hnj, runState_congr hbase, g.fromHw_prePos hn]
        exact ⟨hstarted, hnext, hsw⟩ }

/-! ## The driver -/

/-- What the driver does outside the Hardware group, or to words that say nothing about
completion. -/
theorem frame (h : Tracks s g k) {c : Chan} (hparts : Parts c.ring g')
    (hhead : bdAt s.chan.ring g'.hwPos = bdAt s.chan.ring g.hwPos) (hhw : g'.hw = g.hw)
    (hbase : c.ring.base = s.chan.ring.base) (hregs : c.regs = s.chan.regs)
    (hlinks : SameLinks s.chan.ring s.chan.mem c.mem)
    (hcomp : ∀ i < g.hw, (wordsAt c (g.hwPos + i)).Comp → (wordsAt s.chan (g.hwPos + i)).Comp) :
    Tracks { s with chan := c } g' k := by
  have hbd : bdAt c.ring = bdAt s.chan.ring := bdAt_congr (block_of_base hbase)
  have hphys : virtToPhys c.ring = virtToPhys s.chan.ring :=
    virtToPhys_congr (block_of_base hbase)
  have hpos : ∀ i, bdAt s.chan.ring (g'.hwPos + i) = bdAt s.chan.ring (g.hwPos + i) :=
    h.parts.circle.congr_add hhead
  exact {
    parts := hparts
    linked := fun x => by
      dsimp only
      rw [hbd, hphys]
      exact h.linked.congr hlinks x
    le := by rw [hhw]; exact h.le
    done := fun i hi => by
      dsimp only
      rw [hbd, hpos]
      exact h.done i hi
    opens := fun i hki hi => by
      rw [hhw] at hi
      obtain ⟨hdone, hopen⟩ := h.opens i hki hi
      have hcomp' := hcomp i hi
      rw [wordsAt, hbd] at hcomp'
      dsimp only [wordsAt]
      rw [hbd, hpos]
      exact ⟨hdone, fun hc => hopen (hcomp' hc)⟩
    regs := fun hen => by
      dsimp only at hen ⊢
      rw [hregs] at hen ⊢
      rw [hbd, hphys, hpos, ← g'.hwPos_add, hhw, hpos, g.hwPos_add, runState_congr hbase]
      exact h.regs hen }

/-- **BDs that are accepted** are added at the end, none of them completed. -/
theorem toHw_ok (h : Tracks s g k) {n : ℕ} (hn : n ≤ g.pre) (hacc : ToHwAccepts s.chan g.prePos n) :
    ∃ s', s.toHw (BitVec.ofNat 32 n) (bdAt s.chan.ring g.prePos) = (.success, s') ∧
      bdRingToHw s.chan (BitVec.ofNat 32 n) (bdAt s.chan.ring g.prePos) = (.success, s'.chan) ∧
      Tracks s' (g.toHw n hn) k ∧ s'.chan.ring.base = s.chan.ring.base ∧
      s'.chan.regs.ctrlStatus = s.chan.regs.ctrlStatus ∧ s'.stray = s.stray ∧
      s'.again = s.again ∧ s'.stale = s.stale := by
  have hlap := g.lap
  have hle := h.le
  have hsize := h.parts.size_lt
  have hofNat : (BitVec.ofNat 32 n).toNat = n := toNat_ofNat_cnt (by omega)
  obtain ⟨c, heq, hparts, hbase, hregs, hw⟩ := h.parts.submit_ok hn hacc
  have hbd : bdAt c.ring = bdAt s.chan.ring := bdAt_congr (block_of_base hbase)
  have hphys : virtToPhys c.ring = virtToPhys s.chan.ring :=
    virtToPhys_congr (block_of_base hbase)
  have hctrl : c.regs.ctrlStatus = s.chan.regs.ctrlStatus := by
    rw [hregs, regsAfterToHw]
    split_ifs <;> rfl
  have hhw : (g.toHw n hn).hw = g.hw + n := rfl
  have hpos : (g.toHw n hn).hwPos = g.hwPos := rfl
  have hnew : ∀ i, bdAt s.chan.ring (g.hwPos + i) ∈ arc (bdAt s.chan.ring) g.prePos n →
      i < g.hw + n → g.hw ≤ i := by
    intro i hin hi
    obtain ⟨j, hj, heq⟩ := mem_arc.1 hin
    rw [← g.hwPos_add, Nat.add_assoc] at heq
    have := h.parts.circle.eq_of_lt_lap (by omega) (by omega) heq
    omega
  have hbds : bdsFrom s.chan.ring (BitVec.ofNat 32 n).toNat (bdAt s.chan.ring g.prePos) =
      arc (bdAt s.chan.ring) g.prePos n := by
    rw [hofNat, bdsFrom_eq h.parts.laid]
  refine ⟨{ s with
    chan := c
    done := fun bd => if bd ∈ arc (bdAt s.chan.ring) g.prePos n then false else s.done bd }, ?_,
    heq, ?_, hbase, hctrl, rfl, rfl, rfl⟩
  · rw [Watched.toHw, heq, hbds]
    rfl
  exact {
    parts := hparts
    linked := fun x => by
      dsimp only
      rw [hbd, hphys]
      exact h.linked.congr (hw.sameLinks fun _ _ => rfl) x
    le := by
      rw [hhw]
      omega
    done := fun i hi => by
      dsimp only
      rw [hbd, hpos]
      rw [if_neg fun hin => by have := hnew i hin (by omega); omega]
      exact h.done i hi
    opens := fun i hki hi => by
      rw [hhw] at hi
      dsimp only [wordsAt]
      rw [hbd, hpos]
      by_cases hlt : i < g.hw
      · obtain ⟨hdone, hopen⟩ := h.opens i hki hlt
        rw [if_neg fun hin => by have := hnew i hin (by omega); omega]
        refine ⟨hdone, ?_⟩
        rw [hw.behind h.parts (by rw [← g.hwPos_add]; omega) (by rw [← g.hwPos_add]; omega)]
        exact hopen
      · obtain ⟨j, rfl⟩ := Nat.exists_eq_add_of_le (not_lt.1 hlt)
        rw [← Nat.add_assoc, g.hwPos_add]
        rw [if_pos (mem_arc.2 ⟨j, by omega, rfl⟩), hw.own j (by omega)]
        exact ⟨rfl, clearedWords_comp _⟩
    regs := fun hen => by
      dsimp only at hen ⊢
      rw [hctrl] at hen
      obtain ⟨hstarted, hnext, hsw⟩ := h.regs hen
      rw [hbd, hphys, hpos, runState_congr hbase, hregs]
      refine ⟨hstarted, ?_, ?_⟩
      · rw [regsAfterToHw, if_pos hstarted]
        split_ifs <;> exact hnext
      · rw [g.toHw_prePos hn]
        by_cases hzero : n = 0
        · rw [if_pos hzero, hzero]
          exact hsw
        · rw [if_neg hzero, regsAfterToHw, if_pos hstarted] }

/-- BDs that are refused stay where they are. -/
theorem toHw_fail (h : Tracks s g k) {n : ℕ} (hn : n ≤ g.pre)
    (hacc : ¬ ToHwAccepts s.chan g.prePos n) :
    ∃ m', s.toHw (BitVec.ofNat 32 n) (bdAt s.chan.ring g.prePos) =
        (.failure, { s with chan := { s.chan with mem := m' } }) ∧
      Tracks { s with chan := { s.chan with mem := m' } } g k := by
  obtain ⟨j, m', heq, -, hw⟩ := h.parts.submit_fail hn hacc
  refine ⟨m', ?_, ?_⟩
  · rw [Watched.toHw, heq]
    rfl
  · refine h.frame (c := { s.chan with mem := m' }) h.parts rfl rfl rfl rfl
      (hw.sameLinks fun _ _ => rfl) fun i _ hc => ?_
    exact hw.rel (Q := fun w w' => w'.Comp → w.Comp) (fun _ hw => hw)
      (fun _ w hcleared => absurd hcleared (clearedWords_comp w)) (g.hwPos + i) hc

end Tracks

end Dma
