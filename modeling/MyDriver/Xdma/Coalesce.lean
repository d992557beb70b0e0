import MyDriver.Lib.Spacing
import MyDriver.Xdma.Mapping

/-!
# Interrupt coalescing

With `TH_BH_ISR` every BD is prepared for errors to interrupt, and every `INT_COAL_CNT`-th for its
completion as well. The counter of an engine goes up for each BD that is prepared. A BD that is
given back afterwards has counted, and if it had the completion flag, the flag is gone.

`CoalSys` runs the sections and keeps the control words of all BDs that have gone to the hardware.

* `Settled.sendCtrls`, `Settled.refillCtrls` — the control words that a section adds, and where the
  counter is afterwards.
* `flag_every_coalCnt` — **of any `INT_COAL_CNT` BDs in a row one has the flag**, unless a BD with
  the flag is given back.
* `sixteen_without_flag` — a packet that does not fit takes a flag with it.
-/

namespace Dma

open Cyclic Runs Spacing

variable {υ : Type}

/-! ## The system -/

/-- The control words of the BDs that have come to the Hardware group. -/
def newCtrls (c c' : Chan) : List U32 :=
  ((hwBds c'.ring).drop (hwBds c.ring).length).map fun bd => bdRead c'.mem bd bdBuflCtrlOffset

/-- The control words of the BDs that `DmaSendPkt` gives to `Dma_BdRingToHw`. -/
def sentCtrls (bus : ℕ → U32) (pkts : List PktBuf) (c : Chan) (intrCount : U32) : List U32 :=
  if pkts = [] ∨ c.ring.isRxChannel = true then []
  else
    match sendFill true bus pkts c intrCount with
    | none => []
    | some (s, c₁, _) => newCtrls c (sendSubmit s c₁).2

structure CoalSys (υ : Type) where
  sys : MapSys υ
  /-- The control words of all BDs that have gone to the hardware. -/
  queued : List U32

/-- `descriptor_free` is not a step: it is the end of the registration. -/
def coalStep (user : UserPtrs υ) (s : CoalSys υ) (a : MapAct υ) : Option (CoalSys υ) :=
  match a with
  | .free => none
  | .send bus pkts =>
    (mapStep user true s.sys a).map fun sys =>
      { sys := sys
        queued := s.queued ++ sentCtrls bus pkts s.sys.dev.chan s.sys.dev.intrCount }
  | .refill _ =>
    (mapStep user true s.sys a).map fun sys =>
      { sys := sys, queued := s.queued ++ newCtrls s.sys.dev.chan sys.dev.chan }
  | .retrieve | .user _ | .engine _ _ _ _ =>
    (mapStep user true s.sys a).map fun sys => { s with sys := sys }

/-- A BD with the completion flag. -/
abbrev Completes (ctrl : U32) : Prop := Flag ctrl bdIntCompMask

/-- The counter gives no completion flag to the BDs from `i` up to `k`. -/
def NoFlag (intrCount : U32) (i k : ℕ) : Prop :=
  ∀ j < k, i ≤ j → (intrCount + BitVec.ofNat 32 j) % intCoalCnt ≠ 0

instance (intrCount : U32) (i k : ℕ) : Decidable (NoFlag intrCount i k) := by
  unfold NoFlag
  infer_instance

/-- How many of the packets that have got a BD go to the hardware. -/
def keptPkts (pkts : List PktBuf) : ℕ :=
  if Accepted pkts then pkts.length - (openPkts pkts).length else 0

/-- Pass by pass, the packets that have to be put back because one has no length have no flag. -/
def RecvKeeps (user : UserPtrs υ) : ℕ → ℕ → υ → U32 → Prop
  | 0, _, _, _ => True
  | bound + 1, freeBdCount, u, intrCount =>
    let got := user.getPkt u freeBdCount
    let numgot := got.1.length
    if ∃ p ∈ got.1, p.size &&& bdBuflMask = 0 then NoFlag intrCount 0 numgot
    else got.1 ≠ [] → 0 < freeBdCount - numgot →
      RecvKeeps user bound (freeBdCount - numgot) got.2 (intrCount + BitVec.ofNat 32 numgot)

/-- No BD that is given back has the completion flag. -/
def KeepsFlags (user : UserPtrs υ) (s : CoalSys υ) : MapAct υ → Prop
  | .send _ pkts => s.sys.dev.chan.ring.isRxChannel = false →
      let l := pkts.take (s.sys.dev.chan.ring.freeCnt.toNat - 2)
      NoFlag s.sys.dev.intrCount (keptPkts l) l.length
  | .refill _ => s.sys.dev.chan.ring.isRxChannel = true →
      let freeBdCount := s.sys.dev.chan.ring.freeCnt.toNat - 2
      RecvKeeps user freeBdCount freeBdCount s.sys.dev.user s.sys.dev.intrCount
  | _ => True

/-! ## The counter -/

/-- The counter may wrap: `INT_COAL_CNT` divides the number of its values. -/
theorem counter_mod (intrCount : U32) (i : ℕ) :
    (intrCount + BitVec.ofNat 32 i) % intCoalCnt = 0 ↔ 16 ∣ intrCount.toNat + i := by
  rw [← BitVec.toNat_inj, BitVec.toNat_umod, BitVec.toNat_add, BitVec.toNat_ofNat,
    Nat.dvd_iff_mod_eq_zero]
  show (intrCount.toNat + i % 2 ^ 32) % 2 ^ 32 % 16 = 0 ↔ _
  omega

theorem ahead_counter (intrCount : U32) (k : ℕ) :
    ahead 16 (intrCount + BitVec.ofNat 32 k).toNat = ahead 16 (intrCount.toNat + k) := by
  apply ahead_congr
  rw [BitVec.toNat_add, BitVec.toNat_ofNat]
  omega

theorem NoFlag.not_dvd {intrCount : U32} {i k : ℕ} (h : NoFlag intrCount i k) :
    ∀ j < k - i, ¬ 16 ∣ intrCount.toNat + i + j := by
  intro j hj
  rw [Nat.add_assoc, ← counter_mod]
  exact h (i + j) (by omega) (Nat.le_add_right i j)

/-- The completion flag of a control word is the one of the counter. -/
theorem completes_ctrl (size intrCount : U32) {rest flags : U32}
    (hrest : rest &&& bdIntCompMask = 0) (hflags : flags = rest ||| intFlags intrCount) :
    Completes (filledCtrl size flags) ↔ intrCount % intCoalCnt = 0 := by
  rw [Completes, Flag, filledCtrl_flag _ _ (by decide), hflags, BitVec.and_or_distrib_right,
    hrest, intFlags]
  by_cases hc : intrCount % intCoalCnt = 0
  · rw [if_pos hc, iff_true_right hc]
    decide
  · rw [if_neg hc, iff_false_right hc]
    decide

theorem sendFlags_completes (uflags : U32) : sendFlags uflags &&& bdIntCompMask = 0 := by
  unfold sendFlags
  split_ifs <;> decide

/-- The control words of BDs for sending. -/
theorem completes_sent (intrCount : U32) (bus : ℕ → U32) (pkts : List PktBuf) (i : ℕ)
    (hi : i < ((sentLoads true intrCount bus pkts).map Load.ctrl).length) :
    Completes ((sentLoads true intrCount bus pkts).map Load.ctrl)[i] ↔
      16 ∣ intrCount.toNat + i := by
  rw [← counter_mod]
  simp only [sentLoads, List.getElem_map, List.getElem_mapIdx]
  exact completes_ctrl _ _ (sendFlags_completes _) rfl

/-- … and for reception. -/
theorem completes_recv (intrCount : U32) (bus : ℕ → U32) (pkts : List PktBuf) (i : ℕ)
    (hi : i < ((recvLoads true intrCount bus pkts).map Load.ctrl).length) :
    Completes ((recvLoads true intrCount bus pkts).map Load.ctrl)[i] ↔
      16 ∣ intrCount.toNat + i := by
  rw [← counter_mod]
  simp only [recvLoads, List.getElem_map, List.getElem_mapIdx]
  exact completes_ctrl _ _ (BitVec.zero_and) (BitVec.zero_or).symm

/-! ## What a section adds -/

variable {c c' : Chan} {g g' : Split}

/-- The loads at the end of the Hardware group are those of the new BDs. -/
theorem newCtrls_eq (h : Parts c.ring g) (h' : Parts c'.ring g') {loads : List Load}
    (hloads : hwLoads c' g' = hwLoads c g ++ loads) : newCtrls c c' = loads.map Load.ctrl := by
  have hlen : (hwBds c.ring).length = (hwLoads c g).length := by
    rw [h.hwBds_eq, hwLoads, length_arc, length_arc]
  have hctrls : (hwBds c'.ring).map (fun bd => bdRead c'.mem bd bdBuflCtrlOffset) =
      (hwLoads c' g').map Load.ctrl := by
    rw [h'.hwBds_eq, hwLoads, map_arc, map_arc]
    rfl
  rw [newCtrls, List.map_drop, hctrls, hloads, List.map_append, hlen, ← List.length_map Load.ctrl,
    List.drop_left]

theorem newCtrls_same (hhead : hwBds c'.ring = hwBds c.ring) : newCtrls c c' = [] := by
  rw [newCtrls, hhead, List.drop_length, List.map_nil]

/-- Giving BDs back, wherever the loop over them starts. -/
theorem Parts.recover_ring (h : Parts c.ring g) {k : ℕ} (hk : k ≤ g.pre) (dir : DmaDirection)
    (bdPtr : U32) : Parts (recoverBds dir k bdPtr c).1.ring (g.unAlloc k hk) ∧
      (recoverBds dir k bdPtr c).1.ring.base = c.ring.base := by
  obtain ⟨r', heq, hparts, hbase⟩ := h.unAllocNat hk
  rw [recoverBds, heq]
  exact ⟨hparts, hbase⟩

/-- `DmaSendPkt` from its call of `Dma_BdRingToHw` on, when that succeeds. -/
theorem Parts.sendDone {l : List PktBuf} {hle : l.length ≤ g.free} {s : Sending}
    (hnum : s.numpkts = l.length) (hcount : s.vars.partialBDcount = (openPkts l).length) {n : ℕ}
    (hn : n = l.length - (openPkts l).length) {hk : n ≤ (g.alloc l.length hle).pre}
    (h₂ : Parts c'.ring ((g.alloc l.length hle).toHw n hk)) :
    Parts (sendFinish s .success c').2.1.ring (g.queue n (by omega)) ∧
      (sendFinish s .success c').2.1.ring.base = c'.ring.base := by
  have hp := length_openPkts_le l
  rw [sendFinish, if_neg (not_not.2 rfl)]
  by_cases hopen : s.vars.partialBDcount = 0
  · rw [if_neg (not_not.2 hopen)]
    have hall : n = l.length := by omega
    subst hall
    rw [g.alloc_toHw hle hk] at h₂
    exact ⟨h₂, rfl⟩
  · rw [if_pos hopen]
    have hlen : s.vars.partialBDcount = l.length - n := by omega
    have hback : l.length - n ≤ ((g.alloc l.length hle).toHw n hk).pre := by
      show l.length - n ≤ g.pre + l.length - n
      omega
    have hrec := h₂.recover_ring hback .toDevice s.vars.partialBDPtr
    rw [hlen]
    rw [g.alloc_toHw_unAlloc hle hk (by omega) (by omega)] at hrec
    exact hrec

/-- From `c` to `c₁` the BDs of `l` have been filled. -/
structure Prepared (c c₁ : Chan) (g : Split) (bus : ℕ → U32) (intrCount : U32) (l : List PktBuf) :
    Prop where
  le : l.length ≤ g.free
  parts : Parts c₁.ring (g.alloc l.length le)
  base : c₁.ring.base = c.ring.base
  old : ∀ i < g.hw, wordsAt c₁ (g.hwPos + i) = wordsAt c (g.hwPos + i)
  loads : ∀ i, (hi : i < l.length) → loadAt c₁ (g.prePos + i) =
    sentLoad true (intrCount + BitVec.ofNat 32 i) (bus i) l[i]

/-- What goes to the hardware when `Dma_BdRingToHw` succeeds. -/
theorem Prepared.newCtrls_ok {c₁ c₂ : Chan} {bus : ℕ → U32} {intrCount : U32} {l : List PktBuf}
    (hc : Prepared c c₁ g bus intrCount l) (h : Parts c.ring g) {n : ℕ} (hn : n ≤ l.length)
    {hk : n ≤ (g.alloc l.length hc.le).pre}
    (hparts : Parts c₂.ring ((g.alloc l.length hc.le).toHw n hk))
    (hbase : c₂.ring.base = c₁.ring.base)
    (hw : Rewrites c₁.ring c₁.mem c₂.mem g.prePos n fun _ => clearedWords) :
    newCtrls c c₂ = (sentLoads true intrCount bus (l.take n)).map Load.ctrl := by
  have hlap := g.lap
  have hle := hc.le
  have hsub := hw.fills hbase
  have hold : ∀ i < g.hw, wordsAt c₂ (g.hwPos + i) = wordsAt c (g.hwPos + i) := by
    intro i hi
    rw [hsub.behind hc.parts (by rw [Split.hwPos, Split.prePos]; omega) ?_, hc.old i hi]
    show g.prePos + n ≤ g.hwPos + i + g.size
    rw [Split.hwPos, Split.prePos]
    omega
  refine newCtrls_eq h hparts ?_
  refine (hwLoads_queue (hn.trans hle) hold).trans ?_
  congr 1
  have htake : (l.take n).length = n := by rw [List.length_take, min_eq_left hn]
  conv_lhs => rw [← htake]
  refine arc_eq_mapIdx fun i hi => ?_
  rw [htake] at hi
  rw [hsub.load_eq (fun _ _ => rfl) hi, hc.loads i (by omega), List.getElem_take]

/-- … and when it refuses. -/
theorem Prepared.newCtrls_refused {c₁ : Chan} {bus : ℕ → U32} {intrCount : U32} {l : List PktBuf}
    (hc : Prepared c c₁ g bus intrCount l) (h : Parts c.ring g) (m : Mem) :
    newCtrls c { c₁ with mem := m } = [] := by
  apply newCtrls_same
  show hwBds c₁.ring = hwBds c.ring
  rw [hc.parts.hwBds_eq, h.hwBds_eq, bdAt_congr (block_of_base hc.base)]
  rfl

/-- `DmaSendPkt` up to its call of `Dma_BdRingToHw`. -/
theorem Parts.sendPrepared (h : Parts c.ring g) (hpre : g.pre = 0) (hfree : 2 < g.free)
    (hrx : c.ring.isRxChannel = false) (bus : ℕ → U32) (pkts : List PktBuf) (intrCount : U32)
    {l : List PktBuf} (hl : l = pkts.take (g.free - 2)) :
    ∃ s c₁ evs, Dma.sendFill true bus pkts c intrCount =
        some (s, c₁, intrCount + BitVec.ofNat 32 l.length, evs) ∧
      Prepared c c₁ g bus intrCount l ∧ s.numpkts = l.length ∧
      s.vars.partialBDcount = (openPkts l).length ∧
      sendSubmit s c₁ = bdRingToHw c₁ (BitVec.ofNat 32 (l.length - (openPkts l).length))
        (bdAt c₁.ring g.prePos) ∧
      (ToHwAccepts c₁ g.prePos (l.length - (openPkts l).length) ↔ Accepted l) := by
  have hlap := g.lap
  obtain ⟨c₁, hle, hfill, hparts, hbase, hfilled, hload, hacc⟩ :=
    h.sendStart hpre hfree hrx true bus pkts intrCount hl
  obtain ⟨hcount, -⟩ := sendVars_spec h.laid l g.prePos
  rw [if_pos rfl] at hfill
  refine ⟨_, c₁, _, hfill, ⟨hle, hparts, hbase, fun i hi => ?_, hload⟩, rfl, hcount, ?_, hacc⟩
  · exact hfilled.behind h (by rw [Split.hwPos, Split.prePos]; omega)
      (by rw [Split.hwPos, Split.prePos]; omega)
  · rw [sendSubmit]
    dsimp only
    rw [hcount, bdAt_congr (block_of_base hbase)]

/-- **What `DmaSendPkt` adds.** It does not matter where `PartialBDPtr` points. -/
theorem Settled.sendCtrls (h : Settled c g) (hrx : c.ring.isRxChannel = false) (bus : ℕ → U32)
    (pkts : List PktBuf) (intrCount : U32) {l : List PktBuf} (hl : l = pkts.take (g.free - 2)) :
    let sent := dmaSendPkt .initialized .userAssigned true bus pkts c intrCount
    (∃ hn : keptPkts l ≤ g.free, Settled sent.2.1 (g.queue (keptPkts l) hn)) ∧
      sent.2.1.ring.base = c.ring.base ∧
      sent.2.2.1 = intrCount + BitVec.ofNat 32 l.length ∧
      sentCtrls bus pkts c intrCount =
        (sentLoads true intrCount bus (l.take (keptPkts l))).map Load.ctrl := by
  have hp := length_openPkts_le l
  by_cases hno : pkts = [] ∨ g.free ≤ 2
  · rw [h.parts.sendPkt_idle hno hrx true bus intrCount]
    have hnil : l = [] := hl.trans (take_idle hno)
    have hsent : sentCtrls bus pkts c intrCount = [] := by
      rw [sentCtrls]
      split_ifs with hguard
      · rfl
      · rw [sendFill, h.parts.freeCnt, if_pos (hno.resolve_left fun hp => hguard (Or.inl hp))]
    subst hnil
    exact ⟨⟨Nat.zero_le _, h⟩, rfl, (BitVec.add_zero intrCount).symm, hsent⟩
  obtain ⟨hpkts, hfree⟩ := not_or.1 hno
  obtain ⟨s, c₁, evs, hfill, hc, hnum, hcount, hsubmit, hacc⟩ :=
    h.parts.sendPrepared h.pre (by omega) hrx bus pkts intrCount hl
  have hpos : (g.alloc l.length hc.le).prePos = g.prePos := g.alloc_prePos hc.le
  obtain ⟨n, hn⟩ : ∃ n, n = l.length - (openPkts l).length := ⟨_, rfl⟩
  have hk : n ≤ (g.alloc l.length hc.le).pre := by
    show n ≤ g.pre + l.length
    omega
  rw [← hn, ← hpos] at hsubmit hacc
  rw [sentCtrls, if_neg (by simp [hpkts, hrx]), dmaSendPkt, if_neg (by simp [hpkts, hrx]), hfill]
  dsimp only
  rw [hsubmit, keptPkts, ← hn]
  by_cases haccepted : Accepted l
  · obtain ⟨c₂, heq, hparts, hbase, -, hw⟩ := hc.parts.submit_ok hk (hacc.2 haccepted)
    rw [hpos] at hw
    rw [heq, if_pos haccepted]
    obtain ⟨hparts₃, hbase₃⟩ := Parts.sendDone hnum hcount hn hparts
    have hlen : l.length ≤ g.free - 2 := by
      rw [hl, List.length_take]
      exact min_le_left _ _
    exact ⟨⟨by omega, h.queue hparts₃ (by omega)⟩, hbase₃.trans (hbase.trans hc.base), rfl,
      hc.newCtrls_ok h.parts (by omega) hparts hbase hw⟩
  · obtain ⟨j, m', heq, -, -⟩ := hc.parts.submit_fail hk (mt hacc.1 haccepted)
    rw [heq, if_neg haccepted]
    have hback : l.length ≤ (g.alloc l.length hc.le).pre := by
      show l.length ≤ g.pre + l.length
      omega
    obtain ⟨hparts, hbase⟩ :=
      Parts.recover_ring (c := { c₁ with mem := m' }) hc.parts hback .toDevice s.bdPtr
    have hle := hc.le
    have hg : (g.alloc l.length hle).unAlloc l.length hback = g := by
      ext <;> simp only [Split.alloc, Split.unAlloc] <;> omega
    rw [hg] at hparts
    rw [sendFinish, if_pos (by simp), hnum]
    exact ⟨⟨Nat.zero_le _, hparts, h.post, h.pre, h.room⟩, hbase.trans hc.base, rfl,
      hc.newCtrls_refused h.parts m'⟩

section Recv

variable {user : UserPtrs υ}

variable (user) in
/-- A pass counts the packets it gets, whatever becomes of them. -/
theorem recvPass_intrCount {d : Dev υ} (h : Parts d.chan.ring g) (bus : ℕ → U32) {freeBdCount : ℕ}
    (hfree : freeBdCount ≤ g.free) : (recvPass user true bus freeBdCount d).dev.intrCount =
      d.intrCount + BitVec.ofNat 32 (user.getPkt d.user freeBdCount).1.length := by
  have hgot := user.getPkt_le d.user freeBdCount
  rw [recvPass]
  dsimp only
  split_ifs with hnone
  · rw [hnone]
    exact (BitVec.add_zero _).symm
  · obtain ⟨c₁, hfill, -⟩ := h.recvFill true bus (user.getPkt d.user freeBdCount).1 d.intrCount
      (hgot.trans hfree)
    rw [if_pos rfl] at hfill
    rw [hfill]
    dsimp only
    split_ifs <;> rfl

variable (user) in
/-- A pass that gets a packet without a length puts all its packets back. -/
theorem recvPass_refuses {d : Dev υ} (h : Settled d.chan g) (bus : ℕ → U32) {freeBdCount : ℕ}
    (hfree : freeBdCount ≤ g.free)
    (hzero : ∃ p ∈ (user.getPkt d.user freeBdCount).1, p.size &&& bdBuflMask = 0) :
    (recvPass user true bus freeBdCount d).goesOn = false := by
  have hle := (user.getPkt_le d.user freeBdCount).trans hfree
  rw [recvPass]
  dsimp only
  generalize (user.getPkt d.user freeBdCount).1 = pkts at hzero hle
  obtain ⟨q, hq, hlen⟩ := hzero
  obtain ⟨i, hi, rfl⟩ := List.mem_iff_getElem.1 hq
  split_ifs with hnone
  · rfl
  · obtain ⟨c₁, hfill, hparts, hbase, -, hw⟩ := h.parts.recvFill true bus pkts d.intrCount hle
    have hpos : g.freePos = g.prePos := g.freePos_of_pre h.pre
    have hpos₁ : (g.alloc pkts.length hle).prePos = g.prePos := g.alloc_prePos hle
    have hk : pkts.length ≤ (g.alloc pkts.length hle).pre := Nat.le_add_left _ _
    have hbd : bdAt c₁.ring = bdAt d.chan.ring := bdAt_congr (block_of_base hbase)
    have hctrl : (bdWords c₁.mem (bdAt c₁.ring (g.prePos + i))).ctrl &&& bdBuflMask = 0 := by
      rw [hbd, ← hpos, hw.own i hi, List.getD_eq_getElem _ _ hi]
      exact (filledCtrl_length _ _).trans hlen
    have hrefuses : ¬ ToHwAccepts c₁ g.prePos pkts.length := by
      rintro (hnil | ⟨-, hall⟩)
      · exact hnone hnil
      · exact hall i hi hctrl
    obtain ⟨j, m', heq, -⟩ := hparts.submit_fail hk (by rwa [hpos₁])
    rw [hfill]
    dsimp only
    rw [hpos, ← hbd, ← hpos₁, heq, if_pos (by simp)]

/-- From `d` to `d'` the BDs of `loads` have come to the Hardware group, and the completion flags
are as far apart as before. -/
def Queues (d d' : Dev υ) (g : Split) (queued : List U32) : Prop :=
  ∃ g' loads, Settled d'.chan g' ∧ d'.chan.ring.base = d.chan.ring.base ∧
    hwLoads d'.chan g' = hwLoads d.chan g ++ loads ∧
    Spaced Completes 16 (ahead 16 d'.intrCount.toNat) (queued ++ loads.map Load.ctrl)

/-- **The outer loop of `DmaSetupRecvBuffers`.** -/
theorem Settled.recvLoop_queues {d : Dev υ} (h : Settled d.chan g)
    (hrx : d.chan.ring.isRxChannel = true) (bound : ℕ) (bus : ℕ → U32) {freeBdCount : ℕ}
    (hfree : freeBdCount + 2 ≤ g.free)
    (hkeeps : RecvKeeps user bound freeBdCount d.user d.intrCount) {queued : List U32}
    (hspaced : Spaced Completes 16 (ahead 16 d.intrCount.toNat) queued) :
    Queues d (setupRecvLoop user true bound bus freeBdCount d).1 g queued := by
  induction bound generalizing bus freeBdCount d g queued with
  | zero => exact ⟨g, [], h, rfl, (List.append_nil _).symm, by rwa [List.map_nil, List.append_nil]⟩
  | succ bound ih =>
    have hle : freeBdCount ≤ g.free := by omega
    obtain ⟨g', hout⟩ := h.parts.recvPass user true h.pre hrx bus hle
    have hcount := recvPass_intrCount user h.parts bus hle
    have hrefuses := recvPass_refuses user h bus hle
    obtain ⟨hs', hbase'⟩ := hout.settled h hfree
    rw [setupRecvLoop_succ]
    dsimp only
    rw [RecvKeeps] at hkeeps
    generalize recvPass user true bus freeBdCount d = p at hout hcount hrefuses hs' hbase' ⊢
    cases hout with
    | nothing hgot =>
      rw [if_neg (by simp)]
      exact ⟨g, [], hs', hbase', (List.append_nil _).symm, by rwa [List.map_nil, List.append_nil]⟩
    | refused pkts u c intrCount hgot hne hlen hparts hbase hloads hgrown =>
      rw [hgot, if_pos hlen] at hkeeps
      rw [hgot] at hcount
      rw [if_neg (by simp)]
      refine ⟨g, [], hs', hbase', by rw [List.append_nil]; exact hloads, ?_⟩
      rw [List.map_nil, List.append_nil, hcount, ahead_counter]
      exact hspaced.skip (by decide) hkeeps.not_dvd
    | queued pkts u c intrCount hn hgot hne hparts hbase hloads hgrown hblank =>
      have hlen : ¬ ∃ p ∈ pkts, p.size &&& bdBuflMask = 0 := by
        rw [hgot] at hrefuses
        exact fun hzero => Bool.noConfusion (hrefuses hzero)
      rw [hgot, if_neg hlen] at hkeeps
      rw [hgot] at hcount
      dsimp only at hcount
      subst hcount
      have hspaced' : Spaced Completes 16
          (ahead 16 (d.intrCount + BitVec.ofNat 32 pkts.length).toNat)
          (queued ++ (recvLoads true d.intrCount bus pkts).map Load.ctrl) := by
        have hadded := hspaced.counted (by decide) (completes_recv d.intrCount bus pkts)
        rw [List.length_map, recvLoads, List.length_mapIdx, ← ahead_counter] at hadded
        exact hadded
      split_ifs with hmore
      · have hroom : freeBdCount - pkts.length + 2 ≤ g.free - pkts.length := by
          have hleft := hmore.2
          dsimp only at hleft
          omega
        obtain ⟨g', loads, hs, hbase₂, hloads₂, hspaced₂⟩ := ih hs'
          (by rw [isRx_congr (block_of_base hbase), hrx]) _ hroom (hkeeps hne hmore.2) hspaced'
        refine ⟨g', recvLoads true d.intrCount bus pkts ++ loads, hs, hbase₂.trans hbase', ?_, ?_⟩
        · rw [hloads₂, hloads, List.append_assoc]
        · rw [List.map_append, ← List.append_assoc]
          exact hspaced₂
      · exact ⟨_, _, hs', hbase', hloads, hspaced'⟩

/-- **What `PktHandler` adds.** -/
theorem Settled.refillCtrls {d : Dev υ} (h : Settled d.chan g) (bus : ℕ → U32)
    (hkeeps : d.chan.ring.isRxChannel = true →
      RecvKeeps user (d.chan.ring.freeCnt.toNat - 2) (d.chan.ring.freeCnt.toNat - 2) d.user
        d.intrCount) {queued : List U32}
    (hspaced : Spaced Completes 16 (ahead 16 d.intrCount.toNat) queued) :
    Queues d (pktHandlerRefill user true bus d).1 g queued := by
  have hsame : Queues d d g queued :=
    ⟨g, [], h, rfl, (List.append_nil _).symm, by rwa [List.map_nil, List.append_nil]⟩
  rw [h.parts.freeCnt] at hkeeps
  rw [pktHandlerRefill]
  split_ifs with hrx
  · rw [setupRecvBuffers, h.parts.freeCnt]
    split_ifs with hfree
    · exact hsame
    · exact h.recvLoop_queues hrx _ bus (by omega) (hkeeps hrx) hspaced
  · exact hsame

end Recv

/-! ## The run -/

variable {user : UserPtrs υ} {s s' : CoalSys υ}

/-- **The invariant.** The flags are close together, and the counter comes to the next one in
time. -/
structure CoalInv (s : CoalSys υ) : Prop where
  settled : ∃ g, Settled s.sys.dev.chan g
  spaced : Spaced Completes 16 (ahead 16 s.sys.dev.intrCount.toNat) s.queued

/-- A call of `DmaSendPkt`. -/
theorem Settled.coalSend {g : Split} (h : Settled s.sys.dev.chan g)
    (hrx : s.sys.dev.chan.ring.isRxChannel = false) (user : UserPtrs υ) (bus : ℕ → U32)
    (pkts : List PktBuf) {l : List PktBuf} (hl : l = pkts.take (g.free - 2)) :
    ∃ s', ∃ hn : keptPkts l ≤ g.free, coalStep user s (.send bus pkts) = some s' ∧
      Settled s'.sys.dev.chan (g.queue (keptPkts l) hn) ∧
      s'.sys.dev.chan.ring.isRxChannel = false ∧
      s'.sys.dev.intrCount = s.sys.dev.intrCount + BitVec.ofNat 32 l.length ∧
      s'.queued = s.queued ++
        (sentLoads true s.sys.dev.intrCount bus (l.take (keptPkts l))).map Load.ctrl := by
  obtain ⟨⟨hn, hs'⟩, hbase, hcount, hctrls⟩ := h.sendCtrls hrx bus pkts s.sys.dev.intrCount hl
  refine ⟨_, hn, rfl, hs', ?_, hcount, congrArg (s.queued ++ ·) hctrls⟩
  exact (isRx_congr (block_of_base hbase)).trans hrx

theorem keptPkts_le (l : List PktBuf) : keptPkts l ≤ l.length := by
  rw [keptPkts]
  split_ifs
  · exact Nat.sub_le _ _
  · exact Nat.zero_le _

theorem CoalInv.send (h : CoalInv s) {bus : ℕ → U32} {pkts : List PktBuf}
    (hok : KeepsFlags user s (.send bus pkts))
    (hstep : coalStep user s (.send bus pkts) = some s') : CoalInv s' := by
  obtain ⟨g, hs⟩ := h.settled
  cases hrx : s.sys.dev.chan.ring.isRxChannel with
  | true =>
    rw [coalStep, mapStep, Option.map_some, Option.some.injEq] at hstep
    subst hstep
    rw [dmaSendPkt_rx hrx, sentCtrls, if_pos (Or.inr hrx)]
    refine ⟨⟨g, hs⟩, ?_⟩
    dsimp only
    rw [List.append_nil]
    exact h.spaced
  | false =>
    have hkeeps := hok hrx
    dsimp only at hkeeps
    obtain ⟨l, hl⟩ : ∃ l, l = pkts.take (g.free - 2) := ⟨_, rfl⟩
    rw [hs.parts.freeCnt, ← hl] at hkeeps
    obtain ⟨t, hn, ht, hs', -, hcount, hqueued⟩ := hs.coalSend hrx user bus pkts hl
    obtain rfl : t = s' := Option.some.inj (ht.symm.trans hstep)
    have hkept := keptPkts_le l
    have hlen : ((sentLoads true s.sys.dev.intrCount bus (l.take (keptPkts l))).map
        Load.ctrl).length = keptPkts l := by
      rw [List.length_map, sentLoads, List.length_mapIdx, List.length_take, min_eq_left hkept]
    have hadded := h.spaced.counted (by decide)
      (completes_sent s.sys.dev.intrCount bus (l.take (keptPkts l)))
    rw [hlen] at hadded
    have hskipped := hadded.skip (by decide) hkeeps.not_dvd
    rw [Nat.add_assoc, Nat.add_sub_cancel' hkept, ← ahead_counter] at hskipped
    refine ⟨⟨_, hs'⟩, ?_⟩
    rw [hcount, hqueued]
    exact hskipped

/-- **One step.** -/
theorem CoalInv.step {a : MapAct υ} (h : CoalInv s) (hok : KeepsFlags user s a)
    (hstep : coalStep user s a = some s') : CoalInv s' := by
  obtain ⟨g, hs⟩ := h.settled
  cases a with
  | send bus pkts => exact h.send hok hstep
  | retrieve =>
    rw [coalStep, mapStep, Option.map_some, Option.some.injEq] at hstep
    subst hstep
    obtain ⟨k, pkts, c', evs, hk, heq, hs', -⟩ := hs.retrieve fun _ => s.sys.dev.chan.mem
    dsimp only
    rw [heq]
    exact ⟨⟨_, hs'⟩, h.spaced⟩
  | refill bus =>
    rw [coalStep, mapStep, Option.map_some, Option.some.injEq] at hstep
    subst hstep
    obtain ⟨g', loads, hs', -, hloads, hspaced⟩ := hs.refillCtrls bus hok h.spaced
    refine ⟨⟨g', hs'⟩, ?_⟩
    dsimp only
    rw [newCtrls_eq hs.parts hs'.parts hloads]
    exact hspaced
  | free => cases hstep
  | user u =>
    rw [coalStep, mapStep, Option.map_some, Option.some.injEq] at hstep
    subst hstep
    exact ⟨h.settled, h.spaced⟩
  | engine i status usrl usrh =>
    rw [coalStep, mapStep, Option.map_some, Option.some.injEq] at hstep
    subst hstep
    exact ⟨⟨g, (hs.engineWrite i status usrl usrh).1⟩, h.spaced⟩

/-- After the registration nothing has gone to the hardware. -/
def startedCoal (dev : Dev υ) : CoalSys υ := { sys := { dev := dev, evs := [] }, queued := [] }

/-- **The flag comes in time.** As long as no BD with the completion flag is given back, one of any
`INT_COAL_CNT` BDs in a row has it, wherever the counter starts. -/
theorem flag_every_coalCnt (user : UserPtrs υ) (isRx : Bool) (dev : Dev υ)
    (hdev : Started isRx dev.chan) (acts : List (MapAct υ)) (s : CoalSys υ)
    (hok : Along (coalStep user) (KeepsFlags user) (startedCoal dev) acts)
    (hrun : run (coalStep user) (startedCoal dev) acts = some s) :
    NoGap Completes intCoalCnt.toNat s.queued := by
  have hstart : CoalInv (startedCoal dev) := by
    obtain ⟨g, hs, -⟩ := hdev.settled
    exact ⟨⟨g, hs⟩, Spaced.nil (ahead_lt (by decide) _)⟩
  exact (run_inv (fun s a s' h hok hstep => CoalInv.step h hok hstep) hstart hok hrun).spaced.noGap

/-- A whole packet of one fragment. -/
def onePkt : PktBuf where
  pktBuf := 0x9000
  bufInfo := 0x9000
  size := 64
  flags := bdSopMask ||| bdEopMask ||| pktAll
  userInfo := 0

/-- A packet of three fragments. -/
def threeFrags : List PktBuf :=
  [{ onePkt with flags := bdSopMask ||| pktAll }, { onePkt with flags := pktAll },
    { onePkt with flags := bdEopMask ||| pktAll }]

/-- A ring of 20 BDs for sending. -/
def twentyBds : Dev RawData where
  chan := (bdRingStart (bdRingCreate (initializedChan false fun _ => 0) 0 0x2000 64 20).2).2
  intrCount := 0
  user := twoPages.user

theorem twentyBds_started : Started false twentyBds.chan :=
  ⟨initializedChan false fun _ => 0, 0, 0x2000, 64, 20, rfl, by decide, by decide, rfl⟩

/-- A ring without queued BDs has room for all but two. -/
theorem twentyBds_settled : ∃ g, Settled twentyBds.chan g ∧ g.free = 20 ∧
    twentyBds.chan.ring.isRxChannel = false := by
  obtain ⟨g, hs, hhw, hrx⟩ := twentyBds_started.settled
  have hfree := hs.parts.freeCnt
  exact ⟨g, hs, hfree.symm.trans (by decide), hrx⟩

/-- The third fragment does not fit, and the others are given back without a flag. -/
theorem flag_every_coalCnt_threeFrags : ∃ s,
    run (coalStep (rxUser 9)) (startedCoal twentyBds)
      [.send (fun _ => 0x5000) (List.replicate 17 onePkt), .send (fun _ => 0x5000) threeFrags] =
        some s ∧
    NoGap Completes intCoalCnt.toNat s.queued := by
  obtain ⟨g, hs, hfree, hrx⟩ := twentyBds_settled
  obtain ⟨s₁, hn₁, hstep₁, hs₁, hrx₁, hcount₁, -⟩ :=
    Settled.coalSend (s := startedCoal twentyBds) hs hrx (rxUser 9) (fun _ => 0x5000)
      (List.replicate 17 onePkt) (l := List.replicate 17 onePkt) (by rw [hfree]; decide)
  have hfree₁ : (g.queue _ hn₁).free = 3 := by
    show g.free - keptPkts _ = 3
    rw [hfree]
    decide
  obtain ⟨s₂, hn₂, hstep₂, -⟩ := hs₁.coalSend hrx₁ (rxUser 9) (fun _ => 0x5000) threeFrags rfl
  have hok : Along (coalStep (rxUser 9)) (KeepsFlags (rxUser 9)) (startedCoal twentyBds)
      [.send (fun _ => 0x5000) (List.replicate 17 onePkt), .send (fun _ => 0x5000) threeFrags] := by
    refine (along_cons_of_step hstep₁).2 ⟨fun _ => ?_,
      (along_cons_of_step hstep₂).2 ⟨fun _ => ?_, trivial⟩⟩
    · dsimp only
      have hcnt : (startedCoal twentyBds).sys.dev.chan.ring.freeCnt.toNat = 20 :=
        hs.parts.freeCnt.trans hfree
      rw [hcnt]
      decide +kernel
    · dsimp only
      rw [hs₁.parts.freeCnt, hfree₁, hcount₁]
      decide +kernel
  have hrun : run (coalStep (rxUser 9)) (startedCoal twentyBds)
      [.send (fun _ => 0x5000) (List.replicate 17 onePkt), .send (fun _ => 0x5000) threeFrags] =
        some s₂ :=
    run_cons_eq_some.2 ⟨_, hstep₁, run_cons_eq_some.2 ⟨_, hstep₂, rfl⟩⟩
  exact ⟨s₂, hrun, flag_every_coalCnt (rxUser 9) false twentyBds twentyBds_started _ _ hok hrun⟩

/-- **Sixteen without the flag.** Of a packet of three fragments two get a BD, the first of them
with the flag, and have to be given back. -/
theorem sixteen_without_flag : ∃ s,
    run (coalStep (rxUser 9)) (startedCoal twentyBds)
      [.send (fun _ => 0x5000) (List.replicate 16 onePkt), .send (fun _ => 0x5000) threeFrags,
        .send (fun _ => 0x5000) [onePkt]] = some s ∧
    s.queued.length = 17 ∧ ¬ NoGap Completes intCoalCnt.toNat s.queued := by
  obtain ⟨g, hs, hfree, hrx⟩ := twentyBds_settled
  obtain ⟨s₁, hn₁, hstep₁, hs₁, hrx₁, hcount₁, hqueued₁⟩ :=
    Settled.coalSend (s := startedCoal twentyBds) hs hrx (rxUser 9) (fun _ => 0x5000)
      (List.replicate 16 onePkt) (l := List.replicate 16 onePkt) (by rw [hfree]; decide)
  have hkept₁ : keptPkts (List.replicate 16 onePkt) = 16 := by decide
  have hfree₁ : (g.queue _ hn₁).free = 4 := by
    show g.free - keptPkts _ = 4
    rw [hfree, hkept₁]
  obtain ⟨s₂, hn₂, hstep₂, hs₂, hrx₂, hcount₂, hqueued₂⟩ := hs₁.coalSend hrx₁ (rxUser 9)
    (fun _ => 0x5000) threeFrags (l := threeFrags.take 2) (by rw [hfree₁])
  have hfree₂ : ((g.queue _ hn₁).queue _ hn₂).free = 4 := by
    show (g.queue _ hn₁).free - keptPkts _ = 4
    rw [hfree₁]
    decide
  obtain ⟨s₃, hn₃, hstep₃, -, -, -, hqueued₃⟩ := hs₂.coalSend hrx₂ (rxUser 9)
    (fun _ => 0x5000) [onePkt] (l := [onePkt]) (by rw [hfree₂]; decide)
  have hqueued : s₃.queued =
      (sentLoads true 0 (fun _ => 0x5000) (List.replicate 16 onePkt)).map Load.ctrl ++
        (sentLoads true 18 (fun _ => 0x5000) [onePkt]).map Load.ctrl := by
    rw [hqueued₃, hqueued₂, hqueued₁, hcount₂, hcount₁]
    decide +kernel
  refine ⟨s₃, ?_, ?_, fun h => ?_⟩
  · exact run_cons_eq_some.2 ⟨_, hstep₁, run_cons_eq_some.2 ⟨_, hstep₂,
      run_cons_eq_some.2 ⟨_, hstep₃, rfl⟩⟩⟩
  · rw [hqueued]
    decide +kernel
  · have hnone : (s₃.queued.drop 1).any (fun ctrl => Completes ctrl) = false := by
      rw [hqueued]
      decide +kernel
    obtain ⟨ctrl, hmem, hctrl⟩ := h (s₃.queued.drop 1) (List.drop_suffix 1 _).isInfix (by
      rw [hqueued]
      decide +kernel)
    exact List.any_eq_false.1 hnone ctrl hmem (decide_eq_true hctrl)

end Dma
