import MyDriver.Xdma.Engine

/-!
# What the sections do to the ring

Between two sections the driver holds nothing back: the Pre and the Post group are empty, except
while `descriptor_free` calls the user. What matters of a queued BD is its `Load`, the words the
engine never writes: where the buffer is, the control word and the ID. `hwLoads` lists the loads of
the Hardware group.

* `Parts.sendFill`, `Parts.recvFill` — filling BDs from the packets of the user.
* `Parts.submit_ok`, `Parts.submit_fail` — `Dma_BdRingToHw` hands them over or leaves them.
* `Parts.recover` — giving BDs back.
* `Parts.retrieve`, `Parts.force` — `PktHandler` and `descriptor_free` take BDs off the ring.
-/

namespace Dma

open Cyclic Words

variable {c : Chan} {r : BdRing} {g : Split}

/-! ## Loads -/

/-- The words of a BD that only the driver writes while the BD is queued. -/
structure Load where
  bufal : U32
  ctrl : U32
  id : U32
deriving DecidableEq

def BdWords.load (w : BdWords) : Load := ⟨w.bufal, w.ctrl, w.vbufal⟩

/-- The words of the BD at position `x`. -/
def wordsAt (c : Chan) (x : ℕ) : BdWords := bdWords c.mem (bdAt c.ring x)

/-- The load of the BD at position `x`. -/
def loadAt (c : Chan) (x : ℕ) : Load := (wordsAt c x).load

/-- The loads of the Hardware group, oldest first. -/
def hwLoads (c : Chan) (g : Split) : List Load := arc (loadAt c) g.hwPos g.hw

/-- Positions less than a lap apart are different BDs. -/
theorem Parts.bdAt_ne (h : Parts r g) {x y : ℕ} (hxy : x < y) (hlap : y < x + g.size) :
    bdAt r y ≠ bdAt r x := by
  obtain ⟨d, rfl⟩ := Nat.exists_eq_add_of_lt hxy
  intro heq
  have := h.circle.eq_of_near (x := x) (i := 0) (j := d + 1) (by omega) (by omega) heq.symm
  omega

/-! ## Loops -/

theorem takeLoop_mem {β : Type} (read : Mem → U32 → β) (k : ℕ) (m : Mem) (cur : U32) :
    (takeLoop r read k m cur).2 = walkBds r (fun _ m bd => bdSetId m bd 0) k m cur := by
  induction k generalizing m cur with
  | zero => rfl
  | succ k ih => rw [takeLoop, walkBds, ← ih]

/-- What the loop reads of a BD is what the BD held before the loop. -/
theorem takeLoop_list {β : Type} (h : Laid r) (read : Mem → U32 → β) {f : BdWords → β}
    (hf : ∀ m bd, read m bd = f (bdWords m bd)) {k : ℕ} (hk : k ≤ r.allCnt.toNat) (m : Mem)
    (x : ℕ) :
    (takeLoop r read k m (bdAt r x)).1 = arc (fun y => f (bdWords m (bdAt r y))) x k := by
  induction k generalizing m x with
  | zero => rfl
  | succ k ih =>
    rw [takeLoop, h.next, arc_succ, hf]
    dsimp only
    rw [ih (by omega)]
    congr 1
    refine arc_congr fun i hi => ?_
    have hne : bdAt r (x + 1 + i) ≠ bdAt r x := fun heq => by
      have := h.circle.eq_of_near (x := x) (i := 0) (j := 1 + i) (by omega) (by omega)
        (by rw [← Nat.add_assoc]; exact heq.symm)
      omega
    rw [(edits_setId 0).other h m hne]

/-! ## Filling BDs -/

/-- The control word of a filled BD. -/
def filledCtrl (size flags : U32) : U32 := size &&& bdBuflMask ||| flags &&& bdCtrlMask

theorem bufl_ctrl_disjoint : bdBuflMask &&& bdCtrlMask = 0 := by decide

/-- The length that is written last. -/
theorem written_length (size a : U32) :
    (a &&& bdCtrlMask ||| size &&& bdBuflMask) &&& bdBuflMask = size &&& bdBuflMask :=
  merge_and_right (by decide) a size

theorem filledCtrl_length (size flags : U32) :
    filledCtrl size flags &&& bdBuflMask = size &&& bdBuflMask :=
  merge_and_left bufl_ctrl_disjoint size flags

theorem filledCtrl_flag (size flags : U32) {mask : U32} (hmask : bdCtrlMask &&& mask = mask) :
    filledCtrl size flags &&& mask = flags &&& mask := by
  rw [← and_and_of_sub hmask, filledCtrl, merge_and_right bufl_ctrl_disjoint,
    and_and_of_sub hmask]

/-- The flags in the control word of a sent BD. -/
def sentFlags (thBhIsr : Bool) (intrCount : U32) (uflags : U32) : U32 :=
  if thBhIsr then sendFlags uflags ||| intFlags intrCount else sendFlags uflags

def sentWords (thBhIsr : Bool) (intrCount bufPA : U32) (pbuf : PktBuf) (w : BdWords) : BdWords :=
  { w with
    bufal := bufPA
    bufah := 0
    ctrl := filledCtrl pbuf.size (sentFlags thBhIsr intrCount pbuf.flags)
    status := w.status &&& bdStatusMask ||| pbuf.size &&& bdBuflMask
    vbufal := pbuf.bufInfo
    usrl := pbuf.userInfo.setWidth 32
    usrh := (pbuf.userInfo >>> 32).setWidth 32 }

theorem edits_sendBd (thBhIsr : Bool) (intrCount bufPA : U32) (pbuf : PktBuf) :
    Edits (sendBd thBhIsr intrCount bufPA pbuf) (sentWords thBhIsr intrCount bufPA pbuf) := by
  have hfill := (edits_setUserData pbuf.userInfo).comp <| (edits_setCtrl (sendFlags pbuf.flags)).comp
    <| (edits_setId pbuf.bufInfo).comp <| (edits_setStatLength pbuf.size).comp <|
    (edits_setCtrlLength pbuf.size).comp (edits_setBufAddr bufPA)
  cases thBhIsr with
  | false =>
    refine ⟨hfill.touches, fun m bd => (hfill.words m bd).trans ?_⟩
    simp only [Function.comp, sentWords, sentFlags, filledCtrl, written_length, Bool.false_eq_true,
      if_false]
  | true =>
    have hint := (edits_setCtrl (sendFlags pbuf.flags ||| intFlags intrCount)).comp hfill
    refine ⟨hint.touches, fun m bd => (hint.words m bd).trans ?_⟩
    have hlen := filledCtrl_length pbuf.size (sendFlags pbuf.flags)
    simp only [filledCtrl] at hlen
    simp only [Function.comp, sentWords, sentFlags, filledCtrl, written_length, hlen, if_true]

/-- The flags in the control word of a BD for reception. -/
def recvFlags (thBhIsr : Bool) (intrCount : U32) : U32 := if thBhIsr then intFlags intrCount else 0

def recvWords (thBhIsr : Bool) (intrCount bufPA : U32) (pbuf : PktBuf) (w : BdWords) : BdWords :=
  { w with
    bufal := bufPA
    bufah := 0
    ctrl := filledCtrl pbuf.size (recvFlags thBhIsr intrCount)
    vbufal := pbuf.bufInfo
    usrl := 0
    usrh := 0 }

theorem edits_recvBd (thBhIsr : Bool) (intrCount bufPA : U32) (pbuf : PktBuf) :
    Edits (recvBd thBhIsr intrCount bufPA pbuf) (recvWords thBhIsr intrCount bufPA pbuf) := by
  have hfill := (edits_setUserData 0).comp <| (edits_setCtrl 0).comp <|
    (edits_setId pbuf.bufInfo).comp <| (edits_setCtrlLength pbuf.size).comp (edits_setBufAddr bufPA)
  cases thBhIsr with
  | false =>
    refine ⟨hfill.touches, fun m bd => (hfill.words m bd).trans ?_⟩
    simp only [Function.comp, recvWords, recvFlags, filledCtrl, written_length, Bool.false_eq_true,
      if_false]
    rfl
  | true =>
    have hint := (edits_setCtrl (intFlags intrCount)).comp hfill
    refine ⟨hint.touches, fun m bd => (hint.words m bd).trans ?_⟩
    have hlen := filledCtrl_length pbuf.size 0
    simp only [filledCtrl] at hlen
    simp only [Function.comp, recvWords, recvFlags, filledCtrl, written_length, hlen, if_true]
    rfl

/-! ## The parts of a section -/

/-- Between `m` and `m'` exactly the BDs at the `k` positions from `x` on have changed, by `eff`. -/
structure Rewrites (r : BdRing) (m m' : Mem) (x k : ℕ) (eff : ℕ → BdWords → BdWords) : Prop where
  own : ∀ i < k, bdWords m' (bdAt r (x + i)) = eff i (bdWords m (bdAt r (x + i)))
  other : ∀ y, (∀ i < k, bdAt r y ≠ bdAt r (x + i)) → bdWords m' (bdAt r y) = bdWords m (bdAt r y)

namespace Rewrites

variable {m m' : Mem} {x k : ℕ} {eff : ℕ → BdWords → BdWords}

theorem behind (hw : Rewrites r m m' x k eff) (h : Parts r g) {y : ℕ} (hyx : y < x)
    (hlap : x + k ≤ y + g.size) : bdWords m' (bdAt r y) = bdWords m (bdAt r y) :=
  hw.other y fun i hi => (h.bdAt_ne (by omega) (by omega)).symm

theorem ahead (hw : Rewrites r m m' x k eff) (h : Parts r g) {y : ℕ} (hxy : x + k ≤ y)
    (hlap : y < x + g.size) : bdWords m' (bdAt r y) = bdWords m (bdAt r y) :=
  hw.other y fun i hi => h.bdAt_ne (by omega) (by omega)

theorem congr {r' : BdRing} (hw : Rewrites r' m m' x k eff) (h : bdAt r' = bdAt r) :
    Rewrites r m m' x k eff := by
  obtain ⟨hown, hother⟩ := hw
  rw [h] at hown hother
  exact ⟨hown, hother⟩

end Rewrites

theorem next_congr {r r' : BdRing} (h : r'.block = r.block) : bdRingNext r' = bdRingNext r := by
  have h' : bdRingNext r'.block = bdRingNext r.block := by rw [h]
  exact h'

theorem isRx_congr {r r' : BdRing} (h : r'.block = r.block) : r'.isRxChannel = r.isRxChannel := by
  have h' : r'.block.isRxChannel = r.block.isRxChannel := by rw [h]
  exact h'

theorem dirOf_congr {r r' : BdRing} (h : r'.block = r.block) : dirOf r' = dirOf r := by
  have h' : dirOf r'.block = dirOf r.block := by rw [h]
  exact h'

theorem sendVars_congr {r r' : BdRing} (h : r'.block = r.block) : sendVars r' = sendVars r := by
  funext pkts cur s
  induction pkts generalizing cur s with
  | nil => rfl
  | cons pbuf pkts ih => rw [sendVars, sendVars, ih, next_congr h]

theorem Parts.walk {body : ℕ → Mem → U32 → Mem} {eff : ℕ → BdWords → BdWords} (h : Parts r g)
    (he : ∀ i, Edits (body i) (eff i)) {k : ℕ} (hk : k ≤ g.size) (m : Mem) (x : ℕ) :
    Rewrites r m (walkBds r body k m (bdAt r x)) x k eff :=
  ⟨fun _ hi => walkBds_own h.laid he (by rw [h.size]; exact hk) m x hi,
    fun _ hne => walkBds_other h.laid he m hne⟩

theorem Parts.allocNat (h : Parts r g) {k : ℕ} (hk : k ≤ g.free) :
    ∃ r', bdRingAlloc r (BitVec.ofNat 32 k) = .ok (bdAt r g.freePos, r') ∧
      Parts r' (g.alloc k hk) ∧ r'.base = r.base := by
  have hlap := g.lap
  have hsize := h.size_lt
  have hofNat : (BitVec.ofNat 32 k).toNat = k := toNat_ofNat_cnt (by omega)
  obtain ⟨r', heq, hparts, hbase⟩ := h.alloc (show (BitVec.ofNat 32 k).toNat ≤ g.free by omega)
  simp only [hofNat] at hparts
  exact ⟨r', heq, hparts, hbase⟩

/-- `DmaSendPkt` before `Dma_BdRingToHw`, when there is room: `l` are the packets that get a BD. -/
theorem Parts.sendFill (h : Parts c.ring g) (hfree : 2 < g.free) (thBhIsr : Bool) (bus : ℕ → U32)
    (pkts : List PktBuf) (intrCount : U32) {l : List PktBuf} (hl : l = pkts.take (g.free - 2)) :
    ∃ c', ∃ hle : l.length ≤ g.free,
      sendFill thBhIsr bus pkts c intrCount = some (
        { numpkts := l.length
          bdPtr := bdAt c.ring g.freePos
          vars := sendVars c.ring l (bdAt c.ring g.freePos)
            { partialBDcount := 0, partialOK := false, partialBDPtr := 0 } },
        c', if thBhIsr then intrCount + BitVec.ofNat 32 l.length else intrCount,
        mapEvs .toDevice bus l) ∧
      Parts c'.ring (g.alloc l.length hle) ∧ c'.ring.base = c.ring.base ∧ c'.regs = c.regs ∧
      Rewrites c.ring c.mem c'.mem g.freePos l.length fun i =>
        sentWords thBhIsr (intrCount + BitVec.ofNat 32 i) (bus i) (l.getD i default) := by
  have hlap := g.lap
  have hlen : min pkts.length (g.free - 2) = l.length := by
    rw [hl, List.length_take, Nat.min_comm]
  have htake : pkts.take l.length = l := by
    rw [← hlen, Nat.min_comm, ← List.take_eq_take_min, hl]
  have hle : l.length ≤ g.free := by omega
  obtain ⟨r', halloc, hparts, hbase⟩ := h.allocNat hle
  have hbd : bdAt r' = bdAt c.ring := bdAt_congr (block_of_base hbase)
  have hwalk := hparts.walk (fun i => edits_sendBd thBhIsr (intrCount + BitVec.ofNat 32 i) (bus i)
    (l.getD i default)) (show l.length ≤ g.size by omega) c.mem g.freePos
  rw [hbd] at hwalk
  refine ⟨{ c with
    ring := r'
    mem := walkBds r' (fun i => sendBd thBhIsr (intrCount + BitVec.ofNat 32 i) (bus i)
      (l.getD i default)) l.length c.mem (bdAt c.ring g.freePos) }, hle, ?_, hparts, hbase, rfl,
    hwalk.congr hbd⟩
  rw [Dma.sendFill, h.freeCnt, if_neg (by omega), hlen]
  dsimp only
  rw [htake, halloc, ← sendVars_congr (block_of_base hbase)]

/-- A pass of `DmaSetupRecvBuffers` before `Dma_BdRingToHw`. -/
theorem Parts.recvFill (h : Parts c.ring g) (thBhIsr : Bool) (bus : ℕ → U32) (pkts : List PktBuf)
    (intrCount : U32) (hle : pkts.length ≤ g.free) :
    ∃ c', recvFill thBhIsr bus pkts c intrCount = some (bdAt c.ring g.freePos, c',
        if thBhIsr then intrCount + BitVec.ofNat 32 pkts.length else intrCount,
        mapEvs .fromDevice bus pkts) ∧
      Parts c'.ring (g.alloc pkts.length hle) ∧ c'.ring.base = c.ring.base ∧ c'.regs = c.regs ∧
      Rewrites c.ring c.mem c'.mem g.freePos pkts.length fun i =>
        recvWords thBhIsr (intrCount + BitVec.ofNat 32 i) (bus i) (pkts.getD i default) := by
  have hlap := g.lap
  obtain ⟨r', halloc, hparts, hbase⟩ := h.allocNat hle
  have hbd : bdAt r' = bdAt c.ring := bdAt_congr (block_of_base hbase)
  have hwalk := hparts.walk (fun i => edits_recvBd thBhIsr (intrCount + BitVec.ofNat 32 i) (bus i)
    (pkts.getD i default)) (show pkts.length ≤ g.size by omega) c.mem g.freePos
  rw [hbd] at hwalk
  refine ⟨{ c with
    ring := r'
    mem := walkBds r' (fun i => recvBd thBhIsr (intrCount + BitVec.ofNat 32 i) (bus i)
      (pkts.getD i default)) pkts.length c.mem (bdAt c.ring g.freePos) }, ?_, hparts, hbase, rfl,
    hwalk.congr hbd⟩
  rw [Dma.recvFill, halloc]

/-- What the loop of `Dma_BdRingToHw` does to a BD. -/
def clearedWords (w : BdWords) : BdWords :=
  { w with status := w.status &&& bdBuflMask ||| 0 &&& bdStatusMask }

/-- The engine has completed the BD. -/
def BdWords.Comp (w : BdWords) : Prop := Flag w.status bdCompMask

instance (w : BdWords) : Decidable w.Comp := by unfold BdWords.Comp; infer_instance

theorem clearedWords_comp (w : BdWords) : ¬ (clearedWords w).Comp := by
  show ¬ Flag (w.status &&& bdBuflMask ||| 0 &&& bdStatusMask) bdCompMask
  have hzero : (0 : U32) &&& bdStatusMask = 0#32 := by decide
  have hdisj : bdBuflMask &&& bdCompMask = 0#32 := by decide
  rw [Flag, hzero, BitVec.or_zero, BitVec.and_assoc, hdisj, BitVec.and_zero]
  exact fun h => h rfl

/-- When `Dma_BdRingToHw` accepts the `k` BDs from the start of the Pre group. -/
def ToHwAccepts (c : Chan) (x k : ℕ) : Prop :=
  k = 0 ∨ ((c.ring.isRxChannel = false → Flag (bdWords c.mem (bdAt c.ring x)).ctrl bdSopMask) ∧
    ∀ i < k, (bdWords c.mem (bdAt c.ring (x + i))).ctrl &&& bdBuflMask ≠ 0)

theorem Parts.submit_ok (h : Parts c.ring g) {k : ℕ} (hk : k ≤ g.pre)
    (hacc : ToHwAccepts c g.prePos k) :
    ∃ c', bdRingToHw c (BitVec.ofNat 32 k) (bdAt c.ring g.prePos) = (.success, c') ∧
      Parts c'.ring (g.toHw k hk) ∧ c'.ring.base = c.ring.base ∧
      c'.regs = (if k = 0 then c.regs else regsAfterToHw c (bdAt c.ring (g.prePos + k))) ∧
      Rewrites c.ring c.mem c'.mem g.prePos k fun _ => clearedWords := by
  have hlap := g.lap
  have hsize := h.size_lt
  have hofNat : (BitVec.ofNat 32 k).toNat = k := toNat_ofNat_cnt (by omega)
  by_cases hzero : k = 0
  · subst hzero
    exact ⟨c, toHw_zero c _, h, rfl, rfl, ⟨fun i hi => by omega, fun _ _ => rfl⟩⟩
  · obtain ⟨hsop, hlen⟩ := hacc.resolve_left hzero
    have hpos : BitVec.ofNat 32 k ≠ 0 := ofNat_cnt_ne_zero (by omega) hzero
    have hloop : (toHwLoop c.ring (BitVec.ofNat 32 k).toNat c.mem (bdAt c.ring g.prePos)).1 =
        true := by
      rw [hofNat, toHwLoop_ok h.laid]
      exact hlen
    obtain ⟨r', heq, hparts, hbase⟩ := h.toHw hpos (by rw [hofNat]; exact hk) hsop hloop
    obtain ⟨j, -, hmem, hend⟩ := toHwLoop_walk c.ring k c.mem (bdAt c.ring g.prePos)
    simp only [hofNat] at heq hparts hloop
    rw [hend hloop] at hmem
    refine ⟨_, heq, hparts, hbase, ?_, ?_⟩
    · rw [if_neg hzero, g.toHw_prePos hk]
    · dsimp only
      rw [hmem]
      exact h.walk (fun _ => edits_setStatus 0) (by omega) c.mem g.prePos

theorem Parts.submit_fail (h : Parts c.ring g) {k : ℕ} (hk : k ≤ g.pre)
    (hacc : ¬ ToHwAccepts c g.prePos k) :
    ∃ j m', bdRingToHw c (BitVec.ofNat 32 k) (bdAt c.ring g.prePos) =
        (.failure, { c with mem := m' }) ∧
      j ≤ k ∧ Rewrites c.ring c.mem m' g.prePos j fun _ => clearedWords := by
  have hlap := g.lap
  have hsize := h.size_lt
  have hofNat : (BitVec.ofNat 32 k).toNat = k := toNat_ofNat_cnt (by omega)
  rw [ToHwAccepts, not_or] at hacc
  obtain ⟨hzero, hacc⟩ := hacc
  have hpos : BitVec.ofNat 32 k ≠ 0 := ofNat_cnt_ne_zero (by omega) hzero
  have hsync : ¬ (c.ring.preCnt < BitVec.ofNat 32 k ∨ c.ring.preHead ≠ bdAt c.ring g.prePos) := by
    rw [not_or, not_not]
    exact ⟨not_lt_cnt.2 (by rw [h.preCnt, hofNat]; exact hk), h.preHead⟩
  obtain ⟨j, hj, hmem, -⟩ := toHwLoop_walk c.ring k c.mem (bdAt c.ring g.prePos)
  rw [bdRingToHw, if_neg hpos, if_neg hsync]
  split_ifs with hsop
  · exact ⟨0, c.mem, rfl, by omega, ⟨fun i hi => by omega, fun _ _ => rfl⟩⟩
  · have hloop : (toHwLoop c.ring k c.mem (bdAt c.ring g.prePos)).1 = false := by
      rw [Bool.eq_false_iff]
      intro htrue
      refine hacc ⟨fun hrx => by_contra fun hn => hsop ⟨hrx, hn⟩, ?_⟩
      exact (toHwLoop_ok h.laid k c.mem g.prePos).1 htrue
    rw [hofNat, if_pos hloop]
    refine ⟨j, _, rfl, hj, ?_⟩
    rw [hmem]
    exact h.walk (fun _ => edits_setStatus 0) (by omega) c.mem g.prePos

/-- The unmap of a BD that is recovered. -/
def recoverEv (dir : DmaDirection) (l : Load) : Ev := .unmap l.bufal (l.ctrl &&& bdBuflMask) dir

/-- Clearing the ID. -/
def takenWords (w : BdWords) : BdWords := { w with vbufal := 0 }

theorem Parts.unAllocNat (h : Parts r g) {k : ℕ} (hk : k ≤ g.pre) :
    ∃ r', bdRingUnAlloc r (BitVec.ofNat 32 k) = .ok r' ∧ Parts r' (g.unAlloc k hk) ∧
      r'.base = r.base := by
  have hlap := g.lap
  have hsize := h.size_lt
  have hofNat : (BitVec.ofNat 32 k).toNat = k := toNat_ofNat_cnt (by omega)
  obtain ⟨r', heq, hparts, hbase⟩ := h.unAlloc (show (BitVec.ofNat 32 k).toNat ≤ g.pre by omega)
  simp only [hofNat] at hparts
  exact ⟨r', heq, hparts, hbase⟩

/-- Giving back `k` BDs of the Pre group, reading the BDs from position `x` on. -/
theorem Parts.recover (h : Parts c.ring g) {k : ℕ} (hk : k ≤ g.pre) (dir : DmaDirection) (x : ℕ) :
    ∃ c', recoverBds dir k (bdAt c.ring x) c =
        (c', arc (fun y => recoverEv dir (loadAt c y)) x k) ∧
      Parts c'.ring (g.unAlloc k hk) ∧ c'.ring.base = c.ring.base ∧ c'.regs = c.regs ∧
      Rewrites c.ring c.mem c'.mem x k fun _ => takenWords := by
  have hlap := g.lap
  obtain ⟨r', heq, hparts, hbase⟩ := h.unAllocNat hk
  have hlist := takeLoop_list h.laid (recoverBd dir)
    (f := fun w => recoverEv dir w.load) (fun _ _ => rfl) (k := k) (by rw [h.size]; omega) c.mem x
  have hwalk := h.walk (fun _ => edits_setId 0) (show k ≤ g.size by omega) c.mem x
  refine ⟨{ c with ring := r', mem := (takeLoop c.ring (recoverBd dir) k c.mem (bdAt c.ring x)).2 },
    ?_, hparts, hbase, rfl, ?_⟩
  · rw [recoverBds, heq, hlist]
    rfl
  · dsimp only
    rw [takeLoop_mem]
    exact hwalk

/-! ## Taking BDs off the ring -/

/-- The packet that `PktHandler` makes of the words of a BD. -/
def BdWords.retrieved (w : BdWords) : PktBuf where
  pktBuf := w.vbufal
  bufInfo := w.vbufal
  size := w.status &&& bdBuflMask
  flags := w.status &&& bdStatusMask
  userInfo := w.usrh.setWidth 64 <<< 32 ||| w.usrl.setWidth 64

/-- The packet that `descriptor_free` makes of the words of a BD. -/
def BdWords.forced (w : BdWords) : PktBuf where
  pktBuf := w.vbufal
  bufInfo := w.vbufal
  size := w.ctrl &&& bdBuflMask
  flags := pktUnused
  userInfo := w.usrh.setWidth 64 <<< 32 ||| w.usrl.setWidth 64

/-- A BD after `PktHandler` or `descriptor_free` is done with it. -/
def freedWords (w : BdWords) : BdWords := { w with vbufal := 0, status := 0, ctrl := 0 }

theorem Parts.freeNat (h : Parts c.ring g) {k : ℕ} (hk : k ≤ g.post) :
    ∃ c', bdRingFree c (BitVec.ofNat 32 k) (bdAt c.ring g.start) = .ok c' ∧
      Parts c'.ring (g.freeUp k hk) ∧ c'.ring.base = c.ring.base ∧ c'.regs = c.regs ∧
      Rewrites c.ring c.mem c'.mem g.start k fun _ w => { w with status := 0, ctrl := 0 } := by
  have hlap := g.lap
  have hsize := h.size_lt
  have hofNat : (BitVec.ofNat 32 k).toNat = k := toNat_ofNat_cnt (by omega)
  by_cases hzero : k = 0
  · subst hzero
    exact ⟨c, free_zero c _, h, rfl, rfl, ⟨fun i hi => by omega, fun _ _ => rfl⟩⟩
  · have hpos : BitVec.ofNat 32 k ≠ 0 := ofNat_cnt_ne_zero (by omega) hzero
    obtain ⟨r', heq, hparts, hbase⟩ := h.free hpos (by rw [hofNat]; exact hk)
    simp only [hofNat] at heq hparts
    refine ⟨_, heq, hparts, hbase, rfl, ?_⟩
    dsimp only
    rw [freeLoop_walk]
    exact h.walk (fun _ => edits_freeBd) (by omega) c.mem g.start

/-- The loop of `PktHandler` and its `Dma_BdRingFree`, on BDs that have just come from the
hardware. -/
theorem Parts.handleBds (h : Parts c.ring g) {k : ℕ} (hk : k = g.post) :
    ∃ c', handleBds k (bdAt c.ring g.start) c =
        (some (arc (fun x => (wordsAt c x).retrieved) g.start k), c',
          arc (fun x => .unmap (loadAt c x).bufal (wordsAt c x).retrieved.size (dirOf c.ring))
            g.start k) ∧
      Parts c'.ring (g.freeUp k hk.le) ∧ c'.ring.base = c.ring.base ∧ c'.regs = c.regs ∧
      Rewrites c.ring c.mem c'.mem g.start k fun _ => freedWords := by
  have hlap := g.lap
  have hcnt : k ≤ c.ring.allCnt.toNat := by rw [h.size]; omega
  have hlist := takeLoop_list h.laid (handleBd (dirOf c.ring))
    (f := fun w => (w.retrieved, .unmap w.bufal w.retrieved.size (dirOf c.ring)))
    (fun _ _ => rfl) hcnt c.mem g.start
  have htaken := h.walk (fun _ => edits_setId 0) (show k ≤ g.size by omega) c.mem g.start
  rw [← takeLoop_mem (handleBd (dirOf c.ring))] at htaken
  have h' : Parts ({ c with
      mem := (takeLoop c.ring (handleBd (dirOf c.ring)) k c.mem (bdAt c.ring g.start)).2 } :
      Chan).ring g := h
  obtain ⟨c', heq, hparts, hbase, hregs, hfreed⟩ := h'.freeNat hk.le
  refine ⟨c', ?_, hparts, hbase, hregs, fun i hi => ?_, fun y hne => ?_⟩
  · rw [Dma.handleBds]
    dsimp only at heq ⊢
    rw [heq, hlist]
    dsimp only
    rw [map_arc, map_arc]
    rfl
  · rw [hfreed.own i hi, htaken.own i hi]
    rfl
  · rw [hfreed.other y hne, htaken.other y hne]

/-- What `PktHandler` has retrieved: BDs that `Dma_BdRingFromHw` has seen as whole packets. -/
theorem Parts.retrieve (h : Parts c.ring g) (hpost : g.post = 0) (rd : ℕ → Mem) :
    ∃ k c', ∃ hk : k ≤ g.hw,
      pktHandlerRetrieve rd c = (some (arc (fun x => (wordsAt c x).retrieved) g.hwPos k), c',
        arc (fun x => .unmap (loadAt c x).bufal (wordsAt c x).retrieved.size (dirOf c.ring))
          g.hwPos k) ∧
      WholePackets (hwSeen c.ring rd g) c.ring.isRxChannel (min dmaBdCnt.toNat g.hw) k ∧
      Parts c'.ring ((g.fromHw k hk).freeUp k (Nat.le_add_left k g.post)) ∧
      c'.ring.base = c.ring.base ∧ c'.regs = c.regs ∧
      Rewrites c.ring c.mem c'.mem g.hwPos k fun _ => freedWords := by
  obtain ⟨k, r', hk, heq, hwhole, hparts, hbase⟩ := h.fromHw rd dmaBdCnt
  have hbd : bdAt r' = bdAt c.ring := bdAt_congr (block_of_base hbase)
  have hstart : g.start = g.hwPos := by rw [Split.hwPos, hpost, Nat.add_zero]
  rw [pktHandlerRetrieve, heq]
  dsimp only
  by_cases hzero : k = 0
  · subst hzero
    rw [if_pos rfl]
    exact ⟨0, { c with ring := r' }, hk, rfl, hwhole, hparts, hbase, rfl,
      ⟨fun i hi => by omega, fun _ _ => rfl⟩⟩
  · rw [if_neg hzero, if_neg hzero]
    have hparts' : Parts ({ c with ring := r' } : Chan).ring (g.fromHw k hk) := hparts
    obtain ⟨c', heq', hparts'', hbase', hregs, hfreed⟩ :=
      hparts'.handleBds (k := k) (by show k = g.post + k; omega)
    have hdir : dirOf r' = dirOf c.ring := dirOf_congr (block_of_base hbase)
    have hwords : wordsAt { c with ring := r' } = wordsAt c := by
      funext x
      rw [wordsAt, hbd, wordsAt]
    have hload : loadAt { c with ring := r' } = loadAt c := by
      funext x
      rw [loadAt, hwords, loadAt]
    refine ⟨k, c', hk, ?_, hwhole, hparts'', hbase'.trans hbase, hregs, ?_⟩
    · dsimp only at heq'
      rw [hbd] at heq'
      rw [← hstart]
      refine heq'.trans ?_
      rw [hwords, hload, hdir]
      rfl
    · rw [← hstart]
      exact hfreed.congr hbd

/-- `descriptor_free` takes everything, up to `DMA_BD_CNT`. -/
theorem Parts.force (h : Parts c.ring g) (hle : g.hw ≤ dmaBdCnt.toNat) :
    ∃ c', descriptorFreeForce c = (arc (fun x => (wordsAt c x).forced) g.hwPos g.hw,
        (g.hw, if g.hw = 0 then 0 else bdAt c.ring g.hwPos), c',
        arc (fun x => recoverEv (dirOf c.ring) (loadAt c x)) g.hwPos g.hw) ∧
      Parts c'.ring (g.fromHw g.hw le_rfl) ∧ c'.ring.base = c.ring.base ∧ c'.regs = c.regs ∧
      Rewrites c.ring c.mem c'.mem g.hwPos g.hw fun _ => takenWords := by
  have hlap := g.lap
  obtain ⟨r', hk, heq, hparts, hbase⟩ := h.forceFromHw dmaBdCnt
  simp only [Nat.min_eq_right hle] at heq hparts
  have hbd : bdAt r' = bdAt c.ring := bdAt_congr (block_of_base hbase)
  have hdir : dirOf r' = dirOf c.ring := dirOf_congr (block_of_base hbase)
  rw [descriptorFreeForce, heq]
  dsimp only
  by_cases hzero : g.hw = 0
  · rw [if_pos hzero]
    refine ⟨{ c with ring := r' }, ?_, hparts, hbase, rfl,
      ⟨fun i hi => by omega, fun _ _ => rfl⟩⟩
    simp only [hzero, arc_zero, if_true]
  · rw [if_neg hzero, if_neg hzero]
    have hcnt : g.hw ≤ r'.allCnt.toNat := by rw [hparts.size]; show g.hw ≤ g.size; omega
    have hlist := takeLoop_list hparts.laid (forceBd (dirOf r'))
      (f := fun w => (w.forced, recoverEv (dirOf r') w.load)) (fun _ _ => rfl) hcnt c.mem g.hwPos
    have htaken := hparts.walk (fun _ => edits_setId 0) (show g.hw ≤ g.size by omega) c.mem g.hwPos
    rw [← takeLoop_mem (forceBd (dirOf r'))] at htaken
    rw [hbd] at hlist htaken
    refine ⟨{ c with
      ring := r'
      mem := (takeLoop r' (forceBd (dirOf r')) g.hw c.mem (bdAt c.ring g.hwPos)).2 }, ?_, hparts,
      hbase, rfl, htaken.congr hbd⟩
    rw [hlist, map_arc, map_arc, hdir]
    rfl

end Dma
