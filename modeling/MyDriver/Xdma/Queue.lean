import Mathlib.Data.List.GetD
import MyDriver.Xdma.Packets

/-!
# The ring as a queue of loads

Between two sections the ring is a queue: the BDs of the Hardware group, oldest first, each with
its load. Here every section of the driver is described by what it does to that queue.

* `Parts.sendPkt` — `DmaSendPkt` appends the packets it accepts and unmaps the others, provided
  that `PartialBDPtr` points at the first packet it has to hold back (`Anchored`).
* `Parts.recvPass` — a pass of `DmaSetupRecvBuffers` appends what the user gave, or nothing.
* `Parts.pktHandler` — `PktHandler` takes loads from the front.
* `Parts.forceAll` — `descriptor_free` takes all of them.
-/

namespace Dma

open Cyclic Words

variable {c c' : Chan} {r : BdRing} {g : Split}

/-! ## Loads under a section -/

theorem Rewrites.load_eq {m m' : Mem} {x k : ℕ} {eff : ℕ → BdWords → BdWords}
    (hw : Rewrites r m m' x k eff) (he : ∀ i w, (eff i w).load = w.load) (y : ℕ) :
    (bdWords m' (bdAt r y)).load = (bdWords m (bdAt r y)).load := by
  by_cases hin : ∃ i < k, bdAt r y = bdAt r (x + i)
  · obtain ⟨i, hi, heq⟩ := hin
    rw [heq, hw.own i hi, he]
  · rw [hw.other y fun i hi heq => hin ⟨i, hi, heq⟩]

/-- The Hardware group grows at its end. -/
theorem hwLoads_queue {k : ℕ} (hk : k ≤ g.free) (hold : ∀ i < g.hw,
    wordsAt c' (g.hwPos + i) = wordsAt c (g.hwPos + i)) :
    hwLoads c' (g.queue k hk) = hwLoads c g ++ arc (loadAt c') g.prePos k := by
  rw [hwLoads, hwLoads, g.queue_hwPos]
  show arc (loadAt c') g.hwPos (g.hw + k) = _
  have hload : ∀ i < g.hw, loadAt c' (g.hwPos + i) = loadAt c (g.hwPos + i) :=
    fun i hi => congrArg BdWords.load (hold i hi)
  rw [← arc_append, arc_congr hload]
  rfl

/-- … and shrinks at its beginning. -/
theorem hwLoads_retire {k : ℕ} (hk : k ≤ g.hw) (hold : ∀ i, k ≤ i → i < g.hw →
    wordsAt c' (g.hwPos + i) = wordsAt c (g.hwPos + i)) :
    hwLoads c' (g.retire k hk) = (hwLoads c g).drop k := by
  rw [hwLoads, hwLoads, drop_arc _ hk, g.retire_hwPos]
  refine arc_congr fun i hi => ?_
  rw [Nat.add_assoc]
  exact congrArg BdWords.load
    (hold (k + i) (by omega) (by have : i < g.hw - k := hi; omega))

/-! ## `DmaSendPkt` -/

/-- The load of a sent BD. -/
def sentLoad (thBhIsr : Bool) (intrCount bufPA : U32) (pbuf : PktBuf) : Load :=
  ⟨bufPA, filledCtrl pbuf.size (sentFlags thBhIsr intrCount pbuf.flags), pbuf.bufInfo⟩

/-- The loads of the packets a call sends. -/
def sentLoads (thBhIsr : Bool) (intrCount : U32) (bus : ℕ → U32) (pkts : List PktBuf) :
    List Load :=
  pkts.mapIdx fun i => sentLoad thBhIsr (intrCount + BitVec.ofNat 32 i) (bus i)

/-- The loads a section writes carry the names of the packets. -/
theorem map_id_mapIdx {f : ℕ → PktBuf → Load} (hf : ∀ i p, (f i p).id = p.bufInfo)
    (pkts : List PktBuf) : (pkts.mapIdx f).map Load.id = pkts.map PktBuf.bufInfo :=
  List.ext_getElem (by simp) fun i _ _ => by
    simp only [List.getElem_map, List.getElem_mapIdx, hf]

/-- The unmaps of packets from index `n` on that were mapped and not sent. -/
def unmapEvs (dir : DmaDirection) (bus : ℕ → U32) (n : ℕ) (pkts : List PktBuf) : List Ev :=
  (pkts.drop n).mapIdx fun i pbuf => .unmap (bus (n + i)) (pbuf.size &&& bdBuflMask) dir

/-- The unmaps of the BDs of `pkts.drop n`. -/
theorem recoverEvs_eq {f : ℕ → Load} {dir : DmaDirection} {bus : ℕ → U32} {pkts : List PktBuf}
    {fl : ℕ → U32} {x n k : ℕ} (hk : k = pkts.length - n) (hn : n ≤ pkts.length)
    (hf : ∀ i, (hi : i < pkts.length) →
      f (x + i) = ⟨bus i, filledCtrl pkts[i].size (fl i), pkts[i].bufInfo⟩) :
    arc (fun y => recoverEv dir (f y)) (x + n) k = unmapEvs dir bus n pkts := by
  rw [hk, ← List.length_drop, unmapEvs]
  refine arc_eq_mapIdx fun i hi => ?_
  rw [List.length_drop] at hi
  rw [Nat.add_assoc, hf (n + i) (by omega), recoverEv, filledCtrl_length, List.getElem_drop]

/-- From `c` to `c'` only the `k` BDs from position `x` on have changed, the first `n` of them by
`eff`. -/
structure Fills (c c' : Chan) (x k n : ℕ) (eff : ℕ → BdWords → BdWords) : Prop where
  own : ∀ i < n, wordsAt c' (x + i) = eff i (wordsAt c (x + i))
  other : ∀ y, (∀ i < k, bdAt c.ring y ≠ bdAt c.ring (x + i)) → wordsAt c' y = wordsAt c y

namespace Fills

variable {x k n : ℕ} {eff : ℕ → BdWords → BdWords}

theorem behind (hf : Fills c c' x k n eff) (h : Parts c.ring g) {y : ℕ} (hyx : y < x)
    (hlap : x + k ≤ y + g.size) : wordsAt c' y = wordsAt c y :=
  hf.other y fun i hi => (h.bdAt_ne (by omega) (by omega)).symm

/-- A later change of the same BDs comes on top. -/
theorem trans {c'' : Chan} {eff' : ℕ → BdWords → BdWords} (hf : Fills c c' x k k eff)
    (hf' : Fills c' c'' x k n eff') (hn : n ≤ k) (hring : bdAt c'.ring = bdAt c.ring) :
    Fills c c'' x k n fun i w => eff' i (eff i w) := by
  refine ⟨fun i hi => ?_, fun y hy => ?_⟩
  · rw [hf'.own i hi, hf.own i (by omega)]
  · rw [hf'.other y (by rwa [hring]), hf.other y hy]

/-- What does not concern the loads is not seen in them. -/
theorem load_eq (hf : Fills c c' x k n eff) (he : ∀ i w, (eff i w).load = w.load) {i : ℕ}
    (hi : i < n) : loadAt c' (x + i) = loadAt c (x + i) := by
  rw [loadAt, hf.own i hi, he, loadAt]

end Fills

theorem Rewrites.fills {x k : ℕ} {eff : ℕ → BdWords → BdWords}
    (hw : Rewrites c.ring c.mem c'.mem x k eff) (hbase : c'.ring.base = c.ring.base) :
    Fills c c' x k k eff := by
  have hbd : bdAt c'.ring = bdAt c.ring := bdAt_congr (block_of_base hbase)
  refine ⟨fun i hi => ?_, fun y hy => ?_⟩
  · rw [wordsAt, hbd, hw.own i hi, wordsAt]
  · rw [wordsAt, hbd, hw.other y hy, wordsAt]

/-- Recovering the BDs of `l.drop n`, where those of `l` stand from position `x` on. -/
theorem Parts.recoverRest {l : List PktBuf} {n k x : ℕ} (h : Parts c.ring g) (bus fl : ℕ → U32)
    (hk : k ≤ g.pre) (hkl : k = l.length - n) (hn : n ≤ l.length) (dir : DmaDirection)
    (hload : ∀ i, (hi : i < l.length) →
      loadAt c (x + i) = ⟨bus i, filledCtrl l[i].size (fl i), l[i].bufInfo⟩) :
    ∃ c', recoverBds dir k (bdAt c.ring (x + n)) c = (c', unmapEvs dir bus n l) ∧
      Parts c'.ring (g.unAlloc k hk) ∧ c'.ring.base = c.ring.base ∧ c'.regs = c.regs ∧
      Fills c c' (x + n) k k fun _ => takenWords := by
  obtain ⟨c', heq, hparts, hbase, hregs, hw⟩ := h.recover hk dir (x + n)
  refine ⟨c', ?_, hparts, hbase, hregs, hw.fills hbase⟩
  rw [heq, recoverEvs_eq hkl hn hload]

/-- From `c` to `c'` the Hardware group has grown by `n` BDs, none of them completed, and its old
BDs are as they were. -/
structure Grown (c c' : Chan) (g : Split) (n : ℕ) : Prop where
  old : ∀ i < g.hw, wordsAt c' (g.hwPos + i) = wordsAt c (g.hwPos + i)
  fresh : ∀ i < n, ¬ (wordsAt c' (g.prePos + i)).Comp

theorem Grown.refl (c : Chan) (g : Split) : Grown c c g 0 :=
  ⟨fun _ _ => rfl, fun i hi => absurd hi (Nat.not_lt_zero i)⟩

/-- BDs that were filled and cleared at the end of the Hardware group have made it grow. -/
theorem Fills.grown {k n : ℕ} {eff : ℕ → BdWords → BdWords} (hf : Fills c c' g.prePos k n eff)
    (h : Parts c.ring g) (hk : k ≤ g.free)
    (hfresh : ∀ i w, ¬ (eff i w).Comp) : Grown c c' g n := by
  have hlap := g.lap
  refine ⟨fun i hi => hf.behind h ?_ ?_, fun i hi => ?_⟩
  · rw [Split.hwPos, Split.prePos]
    omega
  · rw [Split.hwPos, Split.prePos]
    omega
  · rw [hf.own i hi]
    exact hfresh i _

/-- When `Dma_BdRingToHw` refuses some of the BDs of `l`, all of them come back. -/
theorem Parts.refused {l : List PktBuf} {hle : l.length ≤ g.free} {k : ℕ}
    (h : Parts c.ring (g.alloc l.length hle)) (hk : k ≤ g.pre + l.length)
    (hacc : ¬ ToHwAccepts c g.prePos k) (bus fl : ℕ → U32) (dir : DmaDirection)
    (hload : ∀ i, (hi : i < l.length) →
      loadAt c (g.prePos + i) = ⟨bus i, filledCtrl l[i].size (fl i), l[i].bufInfo⟩)
    (hkl : k ≤ l.length) :
    ∃ c₂ c', bdRingToHw c (BitVec.ofNat 32 k) (bdAt c.ring g.prePos) = (.failure, c₂) ∧
      recoverBds dir l.length (bdAt c.ring g.prePos) c₂ = (c', unmapEvs dir bus 0 l) ∧
      Parts c'.ring g ∧ c'.ring.base = c.ring.base ∧
      Fills c c' g.prePos l.length 0 fun _ => clearedWords := by
  have hpos : (g.alloc l.length hle).prePos = g.prePos := g.alloc_prePos hle
  obtain ⟨j, m', heq, hj, hw⟩ := h.submit_fail hk (by rwa [hpos])
  rw [hpos] at heq hw
  have hload₂ : ∀ y, loadAt { c with mem := m' } y = loadAt c y := fun y => by
    rw [loadAt, wordsAt, hw.load_eq (fun _ _ => rfl), loadAt, wordsAt]
  obtain ⟨c', hrec, hparts, hbase, -, hrest⟩ := Parts.recoverRest (c := { c with mem := m' })
    (n := 0) (x := g.prePos) (k := l.length) (l := l) h bus fl
    (by show l.length ≤ g.pre + l.length; omega) (by omega) (by omega) dir
    (fun i hi => by rw [hload₂]; exact hload i hi)
  rw [Nat.add_zero] at hrec hrest
  have hg : (g.alloc l.length hle).unAlloc l.length (Nat.le_add_left _ _) = g := by
    ext <;> simp only [Split.alloc, Split.unAlloc] <;> omega
  rw [hg] at hparts
  refine ⟨_, c', heq, hrec, hparts, hbase, fun i hi => absurd hi (Nat.not_lt_zero i), fun y hy => ?_⟩
  rw [hrest.other y hy]
  exact hw.other y fun i hi => hy i (by omega)

/-- `DmaSendPkt` from its call of `Dma_BdRingToHw` on. `l` are the packets that have got a BD: they
are all sent up to the open fragments, or none is. -/
theorem Parts.sendRest {l : List PktBuf} {vars : SendVars} {hle : l.length ≤ g.free}
    (h : Parts c.ring (g.alloc l.length hle)) (hpre : g.pre = 0) (bus fl : ℕ → U32)
    (hload : ∀ i, (hi : i < l.length) →
      loadAt c (g.prePos + i) = ⟨bus i, filledCtrl l[i].size (fl i), l[i].bufInfo⟩)
    (hcount : vars.partialBDcount = (openPkts l).length)
    (hptr : ToHwAccepts c g.prePos (l.length - (openPkts l).length) → openPkts l ≠ [] →
      vars.partialBDPtr = bdAt c.ring (g.prePos + (l.length - (openPkts l).length)))
    {s : Sending} (hs : s = { numpkts := l.length, bdPtr := bdAt c.ring g.prePos, vars := vars }) :
    ∃ n c', ∃ hn : n ≤ l.length,
      sendFinish s (sendSubmit s c).1 (sendSubmit s c).2 = (n, c', unmapEvs .toDevice bus n l) ∧
      Parts c'.ring (g.queue n (hn.trans hle)) ∧ c'.ring.base = c.ring.base ∧
      (ToHwAccepts c g.prePos (l.length - (openPkts l).length) ∧
          n = l.length - (openPkts l).length ∨
        ¬ ToHwAccepts c g.prePos (l.length - (openPkts l).length) ∧ n = 0) ∧
      Fills c c' g.prePos l.length n fun _ => clearedWords := by
  have hlap := g.lap
  have hp := length_openPkts_le l
  have hpos : (g.alloc l.length hle).prePos = g.prePos := g.alloc_prePos hle
  have hsize : (g.alloc l.length hle).size = g.size := rfl
  subst hs
  rw [sendSubmit]
  dsimp only
  rw [hcount]
  obtain ⟨n, hn⟩ : ∃ n, n = l.length - (openPkts l).length := ⟨_, rfl⟩
  rw [← hn] at hptr ⊢
  have hk : n ≤ (g.alloc l.length hle).pre := by
    show n ≤ g.pre + l.length
    omega
  by_cases hacc : ToHwAccepts c g.prePos n
  · -- The complete packets are handed over; the open fragments come back.
    obtain ⟨c₂, heq, hparts, hbase, -, hw⟩ := h.submit_ok hk (by rwa [hpos])
    rw [hpos] at heq hw
    have hbd : bdAt c₂.ring = bdAt c.ring := bdAt_congr (block_of_base hbase)
    have hload₂ : ∀ y, loadAt c₂ y = loadAt c y := fun y => by
      rw [loadAt, wordsAt, hbd, hw.load_eq (fun _ _ => rfl), loadAt, wordsAt]
    have hsub := hw.fills hbase
    rw [heq, sendFinish, if_neg (by simp)]
    dsimp only
    rw [hcount]
    by_cases hopen : openPkts l = []
    · rw [if_neg (by simp [hopen])]
      have hall : n = l.length := by simp [hn, hopen]
      subst hall
      refine ⟨l.length, c₂, le_rfl, ?_, ?_, hbase, Or.inl ⟨hacc, rfl⟩, hsub⟩
      · simp [unmapEvs]
      · rw [← g.alloc_toHw hle hk]
        exact hparts
    · have hpos' : 0 < (openPkts l).length := List.length_pos_iff.2 hopen
      rw [if_pos (by omega), hptr hacc hopen, ← hbd]
      obtain ⟨c₃, hrec, hparts₃, hbase₃, -, hrest⟩ := hparts.recoverRest (n := n) (x := g.prePos)
        (k := l.length - n) (l := l) bus fl
        (by show l.length - n ≤ g.pre + l.length - n; omega) rfl (by omega) .toDevice
        (fun i hi => by rw [hload₂]; exact hload i hi)
      have hlen : (openPkts l).length = l.length - n := by omega
      rw [hlen, hrec]
      refine ⟨n, c₃, by omega, ?_, ?_, hbase₃.trans hbase, Or.inl ⟨hacc, rfl⟩,
        fun i hi => ?_, fun y hy => ?_⟩
      · rw [show l.length - (l.length - n) = n by omega]
      · rw [← g.alloc_toHw_unAlloc hle hk (by omega) (by omega)]
        exact hparts₃
      · rw [hrest.behind hparts (by omega) (by
          show g.prePos + n + (l.length - n) ≤ g.prePos + i + g.size
          omega), hsub.own i hi]
      · rw [hrest.other y fun i hi => ?_, hsub.other y fun i hi => hy i (by omega)]
        rw [hbd, Nat.add_assoc]
        exact hy (n + i) (by omega)
  · -- A refusal: every BD comes back.
    obtain ⟨c₂, c₃, heq, hrec, hparts₃, hbase₃, hfills⟩ :=
      h.refused hk hacc bus fl .toDevice hload (by omega)
    rw [heq, sendFinish, if_pos (by simp)]
    dsimp only
    rw [hrec]
    exact ⟨0, c₃, Nat.zero_le _, rfl, hparts₃, hbase₃, Or.inr ⟨hacc, rfl⟩, hfills⟩

/-- `DmaSendPkt` never stops in the middle of a packet. -/
theorem dmaSendPkt_whole (driverState engineState : DmaState) (thBhIsr : Bool) (bus : ℕ → U32)
    (pkts : List PktBuf) (c : Chan) (intrCount : U32) :
    openPkts (pkts.take
      (dmaSendPkt driverState engineState thBhIsr bus pkts c intrCount).1) = [] := by
  unfold dmaSendPkt
  by_cases hready : driverState ≠ .initialized ∨ pkts = [] ∨ engineState ≠ .userAssigned ∨
      c.ring.isRxChannel = true
  · rw [if_pos hready]
    rfl
  rw [if_neg hready]
  cases hfill : sendFill thBhIsr bus pkts c intrCount with
  | none => rfl
  | some filled =>
    obtain ⟨s, c', ic, evs⟩ := filled
    dsimp only
    unfold sendFill at hfill
    dsimp only at hfill
    by_cases hfree : c.ring.freeCnt.toNat ≤ 2
    · rw [if_pos hfree] at hfill
      cases hfill
    rw [if_neg hfree] at hfill
    set n := min pkts.length (c.ring.freeCnt.toNat - 2) with hn
    cases halloc : bdRingAlloc c.ring (BitVec.ofNat 32 n) with
    | error e =>
      rw [halloc] at hfill
      cases hfill
    | ok got =>
      rw [halloc] at hfill
      simp only [Option.some.injEq, Prod.mk.injEq] at hfill
      obtain ⟨hs, -⟩ := hfill
      have hcount : s.vars.partialBDcount = (openPkts (pkts.take n)).length := by
        rw [← hs]
        exact sendVars_count _ _ _ _ rfl
      have hlen : (pkts.take n).length = n := by
        rw [List.length_take]
        omega
      have hnum : s.numpkts = n := by rw [← hs]
      have hwhole := openPkts_complete (pkts.take n)
      rw [hlen, List.take_take, Nat.min_eq_left (Nat.sub_le _ _), ← hcount] at hwhole
      unfold sendFinish
      split_ifs with hrefused hopen
      · rfl
      · rw [hnum]
        exact hwhole
      · rw [not_not] at hopen
        rw [hopen, Nat.sub_zero] at hwhole
        rw [hnum]
        exact hwhole

/-- The packets without the open fragments. -/
def completePkts (pkts : List PktBuf) : List PktBuf :=
  pkts.take (pkts.length - (openPkts pkts).length)

/-- What `Dma_BdRingToHw` asks of them: the first starts a packet, and all have a length. -/
def Accepted (pkts : List PktBuf) : Prop :=
  (∀ p ∈ (completePkts pkts).head?, Flag p.flags bdSopMask) ∧
    ∀ p ∈ completePkts pkts, p.size &&& bdBuflMask ≠ 0

instance (pkts : List PktBuf) : Decidable (Accepted pkts) := by unfold Accepted; infer_instance

theorem length_completePkts (pkts : List PktBuf) :
    (completePkts pkts).length = pkts.length - (openPkts pkts).length := by
  rw [completePkts, List.length_take]
  exact min_eq_left (Nat.sub_le _ _)

/-- The flags of a packet are those of its BD, with or without the interrupt flags. -/
theorem flag_sentFlags (thBhIsr : Bool) (intrCount uflags : U32) :
    (Flag (sentFlags thBhIsr intrCount uflags) bdSopMask ↔ Flag uflags bdSopMask) ∧
      (Flag (sentFlags thBhIsr intrCount uflags) bdEopMask ↔ Flag uflags bdEopMask) := by
  unfold sentFlags sendFlags intFlags
  by_cases hsop : Flag uflags bdSopMask <;> by_cases heop : Flag uflags bdEopMask
  · rw [if_pos hsop, if_pos heop, iff_true_right hsop, iff_true_right heop]
    split_ifs <;> decide
  · rw [if_pos hsop, if_neg heop, iff_true_right hsop, iff_false_right heop]
    split_ifs <;> decide
  · rw [if_neg hsop, if_pos heop, iff_false_right hsop, iff_true_right heop]
    split_ifs <;> decide
  · rw [if_neg hsop, if_neg heop, iff_false_right hsop, iff_false_right heop]
    split_ifs <;> decide

/-- What is asked of the BDs of the packets is asked of the packets. -/
theorem toHwAccepts_iff {l : List PktBuf} {x : ℕ} {thBhIsr : Bool} {intrCount : U32} {bus : ℕ → U32}
    (hrx : c.ring.isRxChannel = false) (hload : ∀ i, (hi : i < l.length) → loadAt c (x + i) =
      sentLoad thBhIsr (intrCount + BitVec.ofNat 32 i) (bus i) l[i]) :
    ToHwAccepts c x (l.length - (openPkts l).length) ↔ Accepted l := by
  have hctrl : ∀ i, (hi : i < l.length) → (bdWords c.mem (bdAt c.ring (x + i))).ctrl =
      filledCtrl l[i].size (sentFlags thBhIsr (intrCount + BitVec.ofNat 32 i) l[i].flags) :=
    fun i hi => congrArg Load.ctrl (hload i hi)
  have hlen := length_completePkts l
  have hget : ∀ i, (hi : i < (completePkts l).length) → ∃ h : i < l.length,
      (completePkts l)[i] = l[i] := fun i hi => ⟨by omega, List.getElem_take⟩
  rw [← hlen, ToHwAccepts, Accepted]
  by_cases hnil : completePkts l = []
  · simp [hnil]
  have hpos : 0 < (completePkts l).length := List.length_pos_iff.2 hnil
  rw [or_iff_right hpos.ne']
  refine and_congr ?_ ?_
  · obtain ⟨hlt, hfirst⟩ := hget 0 hpos
    have hzero := hctrl 0 hlt
    rw [Nat.add_zero] at hzero
    rw [List.head?_eq_getElem?, List.getElem?_eq_getElem hpos, hfirst, hzero, Flag,
      filledCtrl_flag _ _ (by decide)]
    simp only [hrx, forall_const, Option.mem_def, Option.some.injEq, forall_eq']
    exact (flag_sentFlags _ _ _).1
  · rw [List.forall_mem_iff_getElem]
    refine forall₂_congr fun i hi => ?_
    obtain ⟨hlt, heq⟩ := hget i hi
    rw [heq, hctrl i hlt, filledCtrl_length]

/-- The BD of a packet that has been handed over. -/
def handedWords (thBhIsr : Bool) (intrCount bufPA : U32) (pbuf : PktBuf) (w : BdWords) : BdWords :=
  clearedWords (sentWords thBhIsr intrCount bufPA pbuf w)

/-- `DmaSendPkt` up to its call of `Dma_BdRingToHw`, when nothing is held back from an earlier call.
-/
theorem Parts.sendStart (h : Parts c.ring g) (hpre : g.pre = 0) (hfree : 2 < g.free)
    (hrx : c.ring.isRxChannel = false) (thBhIsr : Bool) (bus : ℕ → U32) (pkts : List PktBuf)
    (intrCount : U32) {l : List PktBuf} (hl : l = pkts.take (g.free - 2)) :
    ∃ c₁, ∃ hle : l.length ≤ g.free,
      Dma.sendFill thBhIsr bus pkts c intrCount = some (
        { numpkts := l.length
          bdPtr := bdAt c.ring g.prePos
          vars := sendVars c.ring l (bdAt c.ring g.prePos)
            { partialBDcount := 0, partialOK := false, partialBDPtr := 0 } },
        c₁, if thBhIsr then intrCount + BitVec.ofNat 32 l.length else intrCount,
        mapEvs .toDevice bus l) ∧
      Parts c₁.ring (g.alloc l.length hle) ∧ c₁.ring.base = c.ring.base ∧
      Fills c c₁ g.prePos l.length l.length (fun i =>
        sentWords thBhIsr (intrCount + BitVec.ofNat 32 i) (bus i) (l.getD i default)) ∧
      (∀ i, (hi : i < l.length) → loadAt c₁ (g.prePos + i) =
        sentLoad thBhIsr (intrCount + BitVec.ofNat 32 i) (bus i) l[i]) ∧
      (ToHwAccepts c₁ g.prePos (l.length - (openPkts l).length) ↔ Accepted l) := by
  obtain ⟨c₁, hle, hfill, hparts₁, hbase₁, -, hw₁⟩ :=
    h.sendFill hfree thBhIsr bus pkts intrCount hl
  have hpos : g.freePos = g.prePos := g.freePos_of_pre hpre
  rw [hpos] at hfill hw₁
  have hfilled := hw₁.fills hbase₁
  have hload₁ : ∀ i, (hi : i < l.length) → loadAt c₁ (g.prePos + i) =
      sentLoad thBhIsr (intrCount + BitVec.ofNat 32 i) (bus i) l[i] := fun i hi => by
    rw [loadAt, hfilled.own i hi, List.getD_eq_getElem _ _ hi]
    rfl
  have hrx₁ : c₁.ring.isRxChannel = false := by rw [isRx_congr (block_of_base hbase₁), hrx]
  exact ⟨c₁, hle, hfill, hparts₁, hbase₁, hfilled, hload₁, toHwAccepts_iff hrx₁ hload₁⟩

/-- Nothing to send, or no room: no packet gets a BD. -/
theorem take_idle {pkts : List PktBuf} {free : ℕ} (hno : pkts = [] ∨ free ≤ 2) :
    pkts.take (free - 2) = [] := by
  rcases hno with hpkts | hfree
  · rw [hpkts, List.take_nil]
  · rw [Nat.sub_eq_zero_of_le hfree, List.take_zero]

/-- `DmaSendPkt` returns at once. -/
theorem Parts.sendPkt_idle (h : Parts c.ring g) {pkts : List PktBuf} (hno : pkts = [] ∨ g.free ≤ 2)
    (hrx : c.ring.isRxChannel = false) (thBhIsr : Bool) (bus : ℕ → U32) (intrCount : U32) :
    dmaSendPkt .initialized .userAssigned thBhIsr bus pkts c intrCount = (0, c, intrCount, []) := by
  unfold dmaSendPkt
  by_cases hpkts : pkts = []
  · rw [if_pos (Or.inr (Or.inl hpkts))]
  · rw [if_neg (by simp [hpkts, hrx])]
    rw [Dma.sendFill, h.freeCnt, if_pos (hno.resolve_left hpkts)]

/-- **`DmaSendPkt`.** -/
theorem Parts.sendPkt (h : Parts c.ring g) (hpre : g.pre = 0) (hrx : c.ring.isRxChannel = false)
    (thBhIsr : Bool) (bus : ℕ → U32) (pkts : List PktBuf) (intrCount : U32)
    {l : List PktBuf} (hl : l = pkts.take (g.free - 2)) (hanch : Accepted l → Anchored l) :
    ∃ n c' ic, ∃ hn : n ≤ g.free,
      dmaSendPkt .initialized .userAssigned thBhIsr bus pkts c intrCount =
        (n, c', ic, mapEvs .toDevice bus l ++ unmapEvs .toDevice bus n l) ∧
      n ≤ l.length ∧
      Parts c'.ring (g.queue n hn) ∧ c'.ring.base = c.ring.base ∧ Grown c c' g n ∧
      hwLoads c' (g.queue n hn) = hwLoads c g ++ sentLoads thBhIsr intrCount bus (l.take n) ∧
      n = (if Accepted l then l.length - (openPkts l).length else 0) ∧
      Fills c c' g.prePos l.length n fun i =>
        handedWords thBhIsr (intrCount + BitVec.ofNat 32 i) (bus i) (l.getD i default) := by
  have hlap := g.lap
  -- Nothing to do, or no room: nothing is mapped.
  by_cases hno : pkts = [] ∨ g.free ≤ 2
  · have hnil : l = [] := hl.trans (take_idle hno)
    have heq := h.sendPkt_idle hno hrx thBhIsr bus intrCount
    subst hnil
    exact ⟨0, c, intrCount, Nat.zero_le _, heq, le_rfl, h, rfl, .refl c g, (List.append_nil _).symm,
      (ite_self 0).symm, ⟨fun i hi => absurd hi (Nat.not_lt_zero i), fun _ _ => rfl⟩⟩
  obtain ⟨hpkts, hfree⟩ := not_or.1 hno
  obtain ⟨c₁, hle, hfill, hparts₁, hbase₁, hfilled, hload₁, hacc⟩ :=
    h.sendStart hpre (by omega) hrx thBhIsr bus pkts intrCount hl
  obtain ⟨hcount, hptr⟩ := sendVars_spec h.laid l g.prePos
  have hbd₁ : bdAt c₁.ring = bdAt c.ring := bdAt_congr (block_of_base hbase₁)
  have hlen : l.length ≤ g.free - 2 := by rw [hl, List.length_take]; omega
  obtain ⟨n, c', hn, heq, hparts, hbase, hcase, hsub⟩ := hparts₁.sendRest hpre bus
    (fun i => sentFlags thBhIsr (intrCount + BitVec.ofNat 32 i) (l.getD i default).flags)
    (fun i hi => by rw [hload₁ i hi, List.getD_eq_getElem _ _ hi]; rfl) hcount
    (fun haccepts hopen => by rw [hbd₁]; exact hptr (hanch (hacc.1 haccepts)) hopen) rfl
  have hfills := hfilled.trans hsub hn hbd₁
  have hgrown : Grown c c' g n := hfills.grown h hle fun _ _ => clearedWords_comp _
  refine ⟨n, c', if thBhIsr then intrCount + BitVec.ofNat 32 l.length else intrCount,
    hn.trans hle, ?_, hn, hparts, hbase.trans hbase₁, hgrown, ?_, ?_, hfills⟩
  · unfold dmaSendPkt
    rw [if_neg (by simp [hpkts, hrx]), hfill]
    dsimp only
    rw [hbd₁] at heq
    rw [heq]
  · rw [hwLoads_queue (hn.trans hle) hgrown.old]
    congr 1
    have htake : (l.take n).length = n := by rw [List.length_take]; omega
    conv_lhs => rw [← htake]
    refine arc_eq_mapIdx fun i hi => ?_
    have hin : i < n := by omega
    rw [hsub.load_eq (fun _ _ => rfl) hin, hload₁ i (by omega), List.getElem_take]
  · rw [hacc] at hcase
    rcases hcase with ⟨hyes, rfl⟩ | ⟨hno', rfl⟩
    · rw [if_pos hyes]
    · rw [if_neg hno']

/-! ## `DmaSetupRecvBuffers` -/

/-- The load of a BD for reception. -/
def recvLoad (thBhIsr : Bool) (intrCount bufPA : U32) (pbuf : PktBuf) : Load :=
  ⟨bufPA, filledCtrl pbuf.size (recvFlags thBhIsr intrCount), pbuf.bufInfo⟩

/-- The loads of the packets a pass queues. -/
def recvLoads (thBhIsr : Bool) (intrCount : U32) (bus : ℕ → U32) (pkts : List PktBuf) :
    List Load :=
  pkts.mapIdx fun i => recvLoad thBhIsr (intrCount + BitVec.ofNat 32 i) (bus i)

section Recv

variable {υ : Type} {user : UserPtrs υ} {thBhIsr : Bool}

/-- Everything a pass of the outer loop can do, from the split `g` to the split in the last
place. -/
inductive RecvOutcome (user : UserPtrs υ) (thBhIsr : Bool) (bus : ℕ → U32) (freeBdCount : ℕ)
    (d : Dev υ) (g : Split) : RecvPass υ → Split → Prop where
  /-- The user has no packet. -/
  | nothing (hgot : (user.getPkt d.user freeBdCount).1 = []) :
    RecvOutcome user thBhIsr bus freeBdCount d g
      { goesOn := false, numgot := 0, dev := { d with user := (user.getPkt d.user freeBdCount).2 }
        evs := [.getPkt []] } g
  /-- The packets are queued. -/
  | queued (pkts : List PktBuf) (u : υ) (c : Chan) (intrCount : U32) (hn : pkts.length ≤ g.free)
    (hgot : user.getPkt d.user freeBdCount = (pkts, u)) (hne : pkts ≠ [])
    (hparts : Parts c.ring (g.queue pkts.length hn)) (hbase : c.ring.base = d.chan.ring.base)
    (hloads : hwLoads c (g.queue pkts.length hn) =
      hwLoads d.chan g ++ recvLoads thBhIsr d.intrCount bus pkts)
    (hgrown : Grown d.chan c g pkts.length)
    (hblank : ∀ i < pkts.length, (wordsAt c (g.prePos + i)).usrl = 0 ∧
      (wordsAt c (g.prePos + i)).usrh = 0) :
    RecvOutcome user thBhIsr bus freeBdCount d g
      { goesOn := true, numgot := pkts.length
        dev := { chan := c, intrCount := intrCount, user := u }
        evs := .getPkt pkts :: mapEvs .fromDevice bus pkts } (g.queue pkts.length hn)
  /-- `Dma_BdRingToHw` refuses a packet without a length, and all packets are put back. -/
  | refused (pkts : List PktBuf) (u : υ) (c : Chan) (intrCount : U32)
    (hgot : user.getPkt d.user freeBdCount = (pkts, u)) (hne : pkts ≠ [])
    (hlen : ∃ p ∈ pkts, p.size &&& bdBuflMask = 0)
    (hparts : Parts c.ring g) (hbase : c.ring.base = d.chan.ring.base)
    (hloads : hwLoads c g = hwLoads d.chan g) (hgrown : Grown d.chan c g 0) :
    RecvOutcome user thBhIsr bus freeBdCount d g
      { goesOn := false, numgot := pkts.length
        dev := { chan := c, intrCount := intrCount, user := user.putPkt u (unusedPkts pkts) }
        evs := .getPkt pkts :: mapEvs .fromDevice bus pkts ++ unmapEvs .fromDevice bus 0 pkts ++
          [.putPkt (unusedPkts pkts)] } g

/-- **One pass of the outer loop.** -/
theorem Parts.recvPass {d : Dev υ} (h : Parts d.chan.ring g) (user : UserPtrs υ) (thBhIsr : Bool)
    (hpre : g.pre = 0)
    (hrx : d.chan.ring.isRxChannel = true) (bus : ℕ → U32) {freeBdCount : ℕ}
    (hfree : freeBdCount ≤ g.free) :
    ∃ g', RecvOutcome user thBhIsr bus freeBdCount d g
      (recvPass user thBhIsr bus freeBdCount d) g' := by
  have hlap := g.lap
  have hgot := user.getPkt_le d.user freeBdCount
  obtain ⟨pkts, u, hpu⟩ : ∃ pkts u, user.getPkt d.user freeBdCount = (pkts, u) := ⟨_, _, rfl⟩
  unfold Dma.recvPass
  rw [hpu] at hgot ⊢
  dsimp only at hgot ⊢
  by_cases hnil : pkts = []
  · subst hnil
    rw [if_pos List.length_nil]
    have hout : RecvOutcome user thBhIsr bus freeBdCount d g _ g := .nothing (by rw [hpu])
    rw [hpu] at hout
    exact ⟨g, hout⟩
  have hne : pkts.length ≠ 0 := fun h0 => hnil (List.length_eq_zero_iff.1 h0)
  rw [if_neg hne]
  obtain ⟨c₁, hfill, hparts₁, hbase₁, -, hw₁⟩ :=
    h.recvFill thBhIsr bus pkts d.intrCount (hgot.trans hfree)
  have hle : pkts.length ≤ g.free := hgot.trans hfree
  rw [hfill]
  dsimp only
  have hbd₁ : bdAt c₁.ring = bdAt d.chan.ring := bdAt_congr (block_of_base hbase₁)
  have hpos : g.freePos = g.prePos := g.freePos_of_pre hpre
  have hpos₁ : (g.alloc pkts.length hle).prePos = g.prePos := g.alloc_prePos hle
  rw [hpos] at hw₁ ⊢
  have hfilled := hw₁.fills hbase₁
  have hload₁ : ∀ i, (hi : i < pkts.length) → loadAt c₁ (g.prePos + i) =
      recvLoad thBhIsr (d.intrCount + BitVec.ofNat 32 i) (bus i) pkts[i] := fun i hi => by
    rw [loadAt, hfilled.own i hi, List.getD_eq_getElem _ _ hi]
    rfl
  have hk : pkts.length ≤ (g.alloc pkts.length hle).pre := by
    show pkts.length ≤ g.pre + pkts.length
    omega
  by_cases hacc : ToHwAccepts c₁ g.prePos pkts.length
  · obtain ⟨c₂, heq, hparts, hbase, -, hw⟩ := hparts₁.submit_ok hk (by rwa [hpos₁])
    rw [hpos₁] at heq hw
    have hsub := hw.fills hbase
    have hfills := hfilled.trans hsub le_rfl hbd₁
    have hgrown : Grown d.chan c₂ g pkts.length :=
      hfills.grown h hle fun _ _ => clearedWords_comp _
    have hblank : ∀ i < pkts.length, (wordsAt c₂ (g.prePos + i)).usrl = 0 ∧
        (wordsAt c₂ (g.prePos + i)).usrh = 0 := by
      intro i hi
      rw [hfills.own i hi]
      exact ⟨rfl, rfl⟩
    rw [← hbd₁, heq, if_neg (by simp)]
    rw [g.alloc_toHw hle hk] at hparts
    refine ⟨_, RecvOutcome.queued pkts u c₂ _ hle hpu hnil hparts (hbase.trans hbase₁) ?_ hgrown
      hblank⟩
    rw [hwLoads_queue hle hgrown.old]
    congr 1
    refine arc_eq_mapIdx fun i hi => ?_
    rw [hsub.load_eq (fun _ _ => rfl) hi, hload₁ i hi]
  · obtain ⟨c₂, c₃, heq, hrec, hparts₃, hbase₃, hrest⟩ := hparts₁.refused hk hacc bus
      (fun i => recvFlags thBhIsr (d.intrCount + BitVec.ofNat 32 i)) .fromDevice hload₁ le_rfl
    rw [← hbd₁, heq, if_pos (by simp)]
    dsimp only
    rw [hrec]
    have hgrown : Grown d.chan c₃ g 0 :=
      (hfilled.trans hrest (Nat.zero_le _) hbd₁).grown h hle fun _ _ => clearedWords_comp _
    refine ⟨g, RecvOutcome.refused pkts u c₃ _ hpu hnil ?_ hparts₃ (hbase₃.trans hbase₁) ?_ hgrown⟩
    · -- Reception asks for no start of packet, so a length is missing.
      by_contra hall
      refine hacc (Or.inr ⟨fun hf => ?_, fun i hi => ?_⟩)
      · have hrx₁ : c₁.ring.isRxChannel = d.chan.ring.isRxChannel :=
          isRx_congr (block_of_base hbase₁)
        rw [hrx₁, hrx] at hf
        cases hf
      · have hctrl : (loadAt c₁ (g.prePos + i)).ctrl &&& bdBuflMask =
            pkts[i].size &&& bdBuflMask := by
          rw [hload₁ i hi]
          exact filledCtrl_length _ _
        intro h0
        exact hall ⟨pkts[i], List.getElem_mem hi, hctrl.symm.trans h0⟩
    · exact arc_congr fun i hi => congrArg BdWords.load (hgrown.old i hi)

theorem RecvOutcome.numgot_pos {bus : ℕ → U32} {freeBdCount : ℕ} {d : Dev υ} {p : RecvPass υ}
    {g' : Split} (h : RecvOutcome user thBhIsr bus freeBdCount d g p g') (hgoes : p.goesOn = true) :
    0 < p.numgot := by
  cases h with
  | nothing => cases hgoes
  | queued pkts _ _ _ _ _ hne => exact List.length_pos_iff.2 hne
  | refused => cases hgoes

/-- **The induction rule for `DmaSetupRecvBuffers`.** What every pass keeps, the loop keeps. Each
pass starts with two BDs more than it may use. -/
theorem Parts.setupRecvLoop (user : UserPtrs υ) (thBhIsr : Bool)
    {P : Dev υ → Split → List Ev → Prop}
    (hstep : ∀ d g evs bus freeBdCount p g', Parts d.chan.ring g → freeBdCount + 2 ≤ g.free →
      P d g evs → RecvOutcome user thBhIsr bus freeBdCount d g p g' → P p.dev g' (evs ++ p.evs))
    (bound : ℕ) (bus : ℕ → U32) (freeBdCount : ℕ) (d : Dev υ) (g : Split) (evs : List Ev)
    (h : Parts d.chan.ring g) (hpre : g.pre = 0) (hrx : d.chan.ring.isRxChannel = true)
    (hfree : freeBdCount + 2 ≤ g.free) (hP : P d g evs) :
    ∃ g', P (setupRecvLoop user thBhIsr bound bus freeBdCount d).1 g'
      (evs ++ (setupRecvLoop user thBhIsr bound bus freeBdCount d).2) := by
  induction bound generalizing bus freeBdCount d g evs with
  | zero => exact ⟨g, by rwa [Dma.setupRecvLoop, List.append_nil]⟩
  | succ bound ih =>
    obtain ⟨g', hout⟩ := h.recvPass user thBhIsr hpre hrx bus
      (show freeBdCount ≤ g.free by omega)
    have hP' := hstep d g evs bus freeBdCount _ g' h hfree hP hout
    rw [Dma.setupRecvLoop]
    dsimp only
    generalize Dma.recvPass user thBhIsr bus freeBdCount d = p at hout hP' ⊢
    split_ifs with hgoes
    · obtain ⟨hgoes, hleft⟩ := hgoes
      rw [← List.append_assoc]
      cases hout with
      | nothing => cases hgoes
      | refused => cases hgoes
      | queued pkts u c intrCount hn hgot hne hparts hbase hloads =>
        refine ih _ _ _ _ _ hparts hpre ?_ ?_ hP'
        · rw [isRx_congr (block_of_base hbase), hrx]
        · show freeBdCount - pkts.length + 2 ≤ g.free - pkts.length
          dsimp only at hleft
          omega
    · exact ⟨g', hP'⟩

theorem setupRecvLoop_succ (bound : ℕ) (bus : ℕ → U32) (freeBdCount : ℕ) (d : Dev υ) :
    Dma.setupRecvLoop user thBhIsr (bound + 1) bus freeBdCount d =
      let p := Dma.recvPass user thBhIsr bus freeBdCount d
      if p.goesOn = true ∧ 0 < freeBdCount - p.numgot then
        let rest := Dma.setupRecvLoop user thBhIsr bound (fun i => bus (p.numgot + i))
          (freeBdCount - p.numgot) p.dev
        (rest.1, p.evs ++ rest.2)
      else (p.dev, p.evs) := rfl

/-- A bound of `freeBdCount` is enough: a larger one changes nothing. -/
theorem Parts.setupRecvLoop_bound (bound : ℕ) (bus : ℕ → U32) (freeBdCount : ℕ) (d : Dev υ)
    (g : Split) (h : Parts d.chan.ring g) (hpre : g.pre = 0) (hrx : d.chan.ring.isRxChannel = true)
    (hfree : freeBdCount + 2 ≤ g.free) (hpos : 0 < freeBdCount) (hbound : freeBdCount ≤ bound) :
    Dma.setupRecvLoop user thBhIsr (bound + 1) bus freeBdCount d =
      Dma.setupRecvLoop user thBhIsr bound bus freeBdCount d := by
  induction bound generalizing bus freeBdCount d g with
  | zero => omega
  | succ bound ih =>
    obtain ⟨g', hout⟩ := h.recvPass user thBhIsr hpre hrx bus
      (show freeBdCount ≤ g.free by omega)
    rw [setupRecvLoop_succ (bound + 1), setupRecvLoop_succ bound]
    dsimp only
    generalize Dma.recvPass user thBhIsr bus freeBdCount d = p at hout ⊢
    split_ifs with hgoes
    · obtain ⟨hgoes, hleft⟩ := hgoes
      have hgot := hout.numgot_pos hgoes
      cases hout with
      | nothing => cases hgoes
      | refused => cases hgoes
      | queued pkts u c intrCount hn hgot' hne hparts hbase hloads =>
        dsimp only at hgot hleft ⊢
        have hrx' : c.ring.isRxChannel = true := by rw [isRx_congr (block_of_base hbase), hrx]
        have hfree' : freeBdCount - pkts.length + 2 ≤ g.free - pkts.length := by omega
        rw [ih _ _ { chan := c, intrCount := intrCount, user := u } (g.queue pkts.length hn) hparts
          hpre hrx' hfree' hleft (by omega)]
    · rfl

end Recv

/-! ## `PktHandler` and `descriptor_free` -/

/-- **What `PktHandler` takes off the ring.** -/
theorem Parts.pktHandler (h : Parts c.ring g) (hpost : g.post = 0) (rd : ℕ → Mem) :
    ∃ k c', ∃ hk : k ≤ g.hw,
      pktHandlerRetrieve rd c = (some (arc (fun x => (wordsAt c x).retrieved) g.hwPos k), c',
        arc (fun x => .unmap (loadAt c x).bufal (wordsAt c x).retrieved.size (dirOf c.ring))
          g.hwPos k) ∧
      WholePackets (hwSeen c.ring rd g) c.ring.isRxChannel (min dmaBdCnt.toNat g.hw) k ∧
      Parts c'.ring (g.retire k hk) ∧ c'.ring.base = c.ring.base ∧ c'.regs = c.regs ∧
      (∀ i, k ≤ i → i < g.hw → wordsAt c' (g.hwPos + i) = wordsAt c (g.hwPos + i)) ∧
      hwLoads c' (g.retire k hk) = (hwLoads c g).drop k := by
  have hlap := g.lap
  obtain ⟨k, c', hk, heq, hwhole, hparts, hbase, hregs, hw⟩ := h.retrieve hpost rd
  rw [g.fromHw_freeUp hk] at hparts
  have hbd : bdAt c'.ring = bdAt c.ring := bdAt_congr (block_of_base hbase)
  have hold : ∀ i, k ≤ i → i < g.hw → wordsAt c' (g.hwPos + i) = wordsAt c (g.hwPos + i) :=
    fun i hki hi => by rw [wordsAt, hbd, hw.ahead h (by omega) (by omega), wordsAt]
  exact ⟨k, c', hk, heq, hwhole, hparts, hbase, hregs, hold, hwLoads_retire hk hold⟩

/-- The IDs of the packets a section has taken off the ring are those of their loads. -/
theorem map_bufInfo_arc (f : BdWords → PktBuf) (hf : ∀ w, (f w).bufInfo = w.load.id) {k : ℕ}
    (hk : k ≤ g.hw) : (arc (fun x => f (wordsAt c x)) g.hwPos k).map PktBuf.bufInfo =
      ((hwLoads c g).take k).map Load.id := by
  rw [hwLoads, take_arc _ hk, map_arc, map_arc]
  exact arc_congr fun i _ => hf _

/-- **What `descriptor_free` takes off the ring**: everything. -/
theorem Parts.forceAll (h : Parts c.ring g) (hle : g.hw ≤ dmaBdCnt.toNat) :
    ∃ c', descriptorFreeForce c = (arc (fun x => (wordsAt c x).forced) g.hwPos g.hw,
        (g.hw, if g.hw = 0 then 0 else bdAt c.ring g.hwPos), c',
        (hwLoads c g).map (recoverEv (dirOf c.ring))) ∧
      Parts c'.ring (g.fromHw g.hw le_rfl) ∧ c'.ring.base = c.ring.base ∧ c'.regs = c.regs := by
  obtain ⟨c', heq, hparts, hbase, hregs, -⟩ := h.force hle
  refine ⟨c', ?_, hparts, hbase, hregs⟩
  rw [heq, hwLoads, map_arc]
  rfl

end Dma
