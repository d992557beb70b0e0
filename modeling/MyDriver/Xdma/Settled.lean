import MyDriver.Xdma.Partition
import MyDriver.Xdma.Queue

/-!
# Rings between two sections

`Settled c g` says that nothing is held back: the groups of the ring are `g`, its Pre and Post
groups are empty, and the margin of two free BDs is kept. A started ring is settled
(`Started.settled`), and every section of the driver and every write of the engine leads from a
settled ring to a settled ring. The lemmas here are those of `Queue` in that form; the systems built
on them know the ring by its queue of loads only.
-/

namespace Dma

open Cyclic

variable {c : Chan} {g : Split}

/-- Nothing is held back. -/
structure Settled (c : Chan) (g : Split) : Prop where
  parts : Parts c.ring g
  post : g.post = 0
  pre : g.pre = 0
  room : g.hw = 0 ∨ 2 ≤ g.free

theorem Settled.queue {c' : Chan} {n : ℕ} {hn : n ≤ g.free} (h : Settled c g)
    (hparts : Parts c'.ring (g.queue n hn)) (hroom : n = 0 ∨ n + 2 ≤ g.free) :
    Settled c' (g.queue n hn) := by
  refine ⟨hparts, h.post, h.pre, ?_⟩
  show g.hw + n = 0 ∨ 2 ≤ g.free - n
  have := h.room
  omega

/-! ## The queue as the code sees it -/

/-- The `k` BDs from `bdPtr` on, by `Dma_mBdRingNext`. -/
def bdsFrom (r : BdRing) : ℕ → U32 → List U32
  | 0, _ => []
  | k + 1, bdPtr => bdPtr :: bdsFrom r k (bdRingNext r bdPtr)

/-- The BDs of the Hardware group, from `HwHead` on. -/
def hwBds (r : BdRing) : List U32 := bdsFrom r r.hwCnt.toNat r.hwHead

/-- Their IDs. -/
def hwIds (c : Chan) : List U32 := (hwBds c.ring).map (bdGetId c.mem)

/-- Their words. -/
def hwWords (c : Chan) : List BdWords := (hwBds c.ring).map (bdWords c.mem)

theorem bdsFrom_eq {r : BdRing} (h : Laid r) (k x : ℕ) :
    bdsFrom r k (bdAt r x) = arc (bdAt r) x k := by
  induction k generalizing x with
  | zero => rfl
  | succ k ih => rw [bdsFrom, h.next, ih, arc_succ]

theorem Parts.hwBds_eq {r : BdRing} (h : Parts r g) : hwBds r = arc (bdAt r) g.hwPos g.hw := by
  rw [hwBds, h.hwCnt, h.hwHead, bdsFrom_eq h.laid]

theorem Parts.hwIds_eq (h : Parts c.ring g) : hwIds c = (hwLoads c g).map Load.id := by
  rw [hwIds, h.hwBds_eq, hwLoads, map_arc, map_arc]
  rfl

theorem Parts.hwWords_eq (h : Parts c.ring g) : hwWords c = arc (wordsAt c) g.hwPos g.hw := by
  rw [hwWords, h.hwBds_eq, map_arc]
  rfl

/-- The Hardware group has grown by BDs at its end. -/
theorem Parts.hwWords_queue {c' : Chan} {n : ℕ} {hn : n ≤ g.free} (h : Parts c.ring g)
    (h' : Parts c'.ring (g.queue n hn)) (hgrown : Grown c c' g n) :
    hwWords c' = hwWords c ++ arc (wordsAt c') g.prePos n := by
  have hold : arc (wordsAt c') g.hwPos g.hw = arc (wordsAt c) g.hwPos g.hw := arc_congr hgrown.old
  rw [h'.hwWords_eq, h.hwWords_eq, g.queue_hwPos, ← hold]
  exact (arc_append _ _ _ _).symm

theorem Parts.nodup_hwBds {r : BdRing} (h : Parts r g) : (hwBds r).Nodup := by
  have hlap := g.lap
  rw [h.hwBds_eq]
  exact arc_nodup h.circle (by omega)

/-! ## Operations that leave the Hardware group alone -/

/-- The Hardware group, the error counters and the registers are as they were. -/
structure SameHw (c c' : Chan) : Prop where
  base : c'.ring.base = c.ring.base
  regs : c'.regs = c.regs
  hwHead : c'.ring.hwHead = c.ring.hwHead
  hwCnt : c'.ring.hwCnt = c.ring.hwCnt
  bdErrs : c'.ring.bdErrs = c.ring.bdErrs
  bdSErrs : c'.ring.bdSErrs = c.ring.bdSErrs

theorem SameHw.refl (c : Chan) : SameHw c c := ⟨rfl, rfl, rfl, rfl, rfl, rfl⟩

theorem bdsFrom_congr {r r' : BdRing} (h : r'.block = r.block) (k : ℕ) (bdPtr : U32) :
    bdsFrom r' k bdPtr = bdsFrom r k bdPtr := by
  induction k generalizing bdPtr with
  | zero => rfl
  | succ k ih => rw [bdsFrom, bdsFrom, next_congr h, ih]

theorem SameHw.hwBds {c' : Chan} (h : SameHw c c') : hwBds c'.ring = hwBds c.ring := by
  rw [Dma.hwBds, Dma.hwBds, h.hwHead, h.hwCnt, bdsFrom_congr (block_of_base h.base)]

/-- The operations that leave the Hardware group alone. -/
def RingOp.Quiet : RingOp → Prop
  | .start => False
  | .toHw _ _ => False
  | .fromHw _ _ => False
  | .forceFromHw _ => False
  | _ => True

theorem RingOp.Quiet.sameHw {op : RingOp} (h : op.Quiet) {c' : Chan}
    (hstep : ringStep c op = some c') : SameHw c c' := by
  cases op with
  | alloc numBd =>
    rw [ringStep, bdRingAlloc] at hstep
    by_cases hlt : c.ring.freeCnt < numBd
    · rw [if_pos hlt] at hstep
      rw [← Option.some.inj hstep]
      exact .refl c
    · rw [if_neg hlt] at hstep
      rw [← Option.some.inj hstep]
      exact ⟨rfl, rfl, rfl, rfl, rfl, rfl⟩
  | unAlloc numBd =>
    rw [ringStep, bdRingUnAlloc] at hstep
    by_cases hlt : c.ring.preCnt < numBd
    · rw [if_pos hlt] at hstep
      rw [← Option.some.inj hstep]
      exact .refl c
    · rw [if_neg hlt] at hstep
      rw [← Option.some.inj hstep]
      exact ⟨rfl, rfl, rfl, rfl, rfl, rfl⟩
  | free numBd bdSetPtr =>
    rw [ringStep, bdRingFree] at hstep
    by_cases hnone : numBd = 0
    · rw [if_pos hnone] at hstep
      rw [← Option.some.inj hstep]
      exact .refl c
    rw [if_neg hnone] at hstep
    by_cases hsync : c.ring.postCnt < numBd ∨ c.ring.postHead ≠ bdSetPtr
    · rw [if_pos hsync] at hstep
      rw [← Option.some.inj hstep]
      exact .refl c
    · rw [if_neg hsync] at hstep
      rw [← Option.some.inj hstep]
      exact ⟨rfl, rfl, rfl, rfl, rfl, rfl⟩
  | start => exact h.elim
  | toHw => exact h.elim
  | fromHw => exact h.elim
  | forceFromHw => exact h.elim
  | hwWrite | setCtrl | setStatus | setCtrlLength | setStatLength | setId | setBufAddr
    | setUserData =>
    rw [← Option.some.inj hstep]
    exact ⟨rfl, rfl, rfl, rfl, rfl, rfl⟩

/-! ## Started rings -/

/-- A ring that `Dma_BdRingCreate` has made in a block that does not wrap, and `Dma_BdRingStart` has
started. -/
def Started (isRx : Bool) (c' : Chan) : Prop :=
  ∃ (c : Chan) (physAddr virtAddr alignment bdCount : U32), c.ring.isRxChannel = isRx ∧
    (bdRingCreate c physAddr virtAddr alignment bdCount).1 = .success ∧
    Fits virtAddr (bdRingCreate c physAddr virtAddr alignment bdCount).2.ring.separation bdCount ∧
    c' = (bdRingStart (bdRingCreate c physAddr virtAddr alignment bdCount).2).2

theorem Started.settled {isRx : Bool} (h : Started isRx c) :
    ∃ g, Settled c g ∧ g.hw = 0 ∧ c.ring.isRxChannel = isRx := by
  obtain ⟨c₀, p, v, a, n, hrx, hok, hfits, rfl⟩ := h
  have hparts := create_parts hok hfits
  have hkept := start_kept hparts
  refine ⟨_, ⟨hkept.parts, rfl, rfl, Or.inl rfl⟩, rfl, ?_⟩
  rw [isRx_congr hkept.block, (create_success hok).2.2.2]
  exact hrx

/-! ## The engine -/

/-- The engine writes into a BD of the ring. -/
def engineWrite (c : Chan) (i : ℕ) (status usrl usrh : U32) : Chan :=
  { c with mem := hwWrite c.mem (bdAt c.ring i) status usrl usrh }

theorem Parts.loadAt_engineWrite (h : Parts c.ring g) (i : ℕ) (status usrl usrh : U32) (x : ℕ) :
    loadAt (engineWrite c i status usrl usrh) x = loadAt c x := by
  show (bdWords _ (bdAt c.ring x)).load = (bdWords _ (bdAt c.ring x)).load
  have he := edits_hwWrite status usrl usrh
  by_cases heq : bdAt c.ring x = bdAt c.ring i
  · rw [heq, engineWrite, he.words]
    rfl
  · rw [engineWrite, he.other h.laid c.mem heq]

theorem Settled.engineWrite (h : Settled c g) (i : ℕ) (status usrl usrh : U32) :
    Settled (engineWrite c i status usrl usrh) g ∧
      hwLoads (Dma.engineWrite c i status usrl usrh) g = hwLoads c g :=
  ⟨⟨h.parts, h.post, h.pre, h.room⟩,
    arc_congr fun _ _ => h.parts.loadAt_engineWrite i status usrl usrh _⟩

/-! ## The sections -/

/-- `DmaSendPkt` does nothing on a ring for reception. -/
theorem dmaSendPkt_rx {c : Chan} (h : c.ring.isRxChannel = true) (thBhIsr : Bool) (bus : ℕ → U32)
    (pkts : List PktBuf) (intrCount : U32) :
    dmaSendPkt .initialized .userAssigned thBhIsr bus pkts c intrCount =
      (0, c, intrCount, []) := by
  unfold dmaSendPkt
  rw [if_pos (Or.inr (Or.inr (Or.inr h)))]

/-- `DmaSendPkt` on complete packets appends those it accepts. -/
theorem Settled.sendPkt (h : Settled c g) (hrx : c.ring.isRxChannel = false) (thBhIsr : Bool)
    (bus : ℕ → U32) (pkts : List PktBuf) (intrCount : U32)
    (hanch : Anchored (pkts.take (g.free - 2))) :
    ∃ n c' ic, ∃ hn : n ≤ g.free,
      dmaSendPkt .initialized .userAssigned thBhIsr bus pkts c intrCount =
        (n, c', ic, mapEvs .toDevice bus (pkts.take (g.free - 2)) ++
          unmapEvs .toDevice bus n (pkts.take (g.free - 2))) ∧
      n ≤ (pkts.take (g.free - 2)).length ∧ Settled c' (g.queue n hn) ∧
      c'.ring.base = c.ring.base ∧ Grown c c' g n ∧
      hwLoads c' (g.queue n hn) = hwLoads c g ++ sentLoads thBhIsr intrCount bus (pkts.take n) := by
  obtain ⟨n, c', ic, hn, heq, hlen, hparts, hbase, hgrown, hloads, -⟩ :=
    h.parts.sendPkt h.pre hrx thBhIsr bus pkts intrCount rfl fun _ => hanch
  have hle : n ≤ g.free - 2 := by
    rw [List.length_take] at hlen
    omega
  refine ⟨n, c', ic, hn, heq, hlen, h.queue hparts (by omega), hbase, hgrown, ?_⟩
  rw [hloads, List.take_take, Nat.min_eq_left hle]

/-- `PktHandler` takes loads from the front. -/
theorem Settled.retrieve (h : Settled c g) (rd : ℕ → Mem) :
    ∃ k pkts c' evs, ∃ hk : k ≤ g.hw,
      pktHandlerRetrieve rd c = (some pkts, c', evs) ∧ Settled c' (g.retire k hk) ∧
      c'.ring.base = c.ring.base ∧ c'.regs = c.regs ∧
      pkts = arc (fun x => (wordsAt c x).retrieved) g.hwPos k ∧
      evs = arc (fun x => .unmap (loadAt c x).bufal (wordsAt c x).retrieved.size (dirOf c.ring))
        g.hwPos k ∧
      WholePackets (hwSeen c.ring rd g) c.ring.isRxChannel (min dmaBdCnt.toNat g.hw) k ∧
      (∀ i, k ≤ i → i < g.hw → wordsAt c' (g.hwPos + i) = wordsAt c (g.hwPos + i)) ∧
      pkts.map PktBuf.bufInfo = ((hwLoads c g).take k).map Load.id ∧
      hwLoads c' (g.retire k hk) = (hwLoads c g).drop k := by
  obtain ⟨k, c', hk, heq, hwhole, hparts, hbase, hregs, hold, hloads⟩ :=
    h.parts.pktHandler h.post rd
  refine ⟨k, _, c', _, hk, heq, ⟨hparts, h.post, h.pre, ?_⟩, hbase, hregs, rfl, rfl, hwhole, hold,
    map_bufInfo_arc _ (fun _ => rfl) hk, hloads⟩
  show g.hw - k = 0 ∨ 2 ≤ g.free + k
  have := h.room
  omega

/-- `descriptor_free` takes everything off the ring. The margin keeps the Hardware group of a ring
of `DMA_BD_CNT + 1` BDs below `DMA_BD_CNT`. -/
theorem Settled.force (h : Settled c g) (hcnt : g.size ≤ dmaBdCnt.toNat + 1) :
    ∃ c', descriptorFreeForce c = (arc (fun x => (wordsAt c x).forced) g.hwPos g.hw,
        (g.hw, if g.hw = 0 then 0 else bdAt c.ring g.hwPos), c',
        (hwLoads c g).map (recoverEv (dirOf c.ring))) ∧
      Parts c'.ring (g.fromHw g.hw le_rfl) ∧ c'.ring.base = c.ring.base := by
  have hlap := g.lap
  have hroom := h.room
  obtain ⟨c', heq, hparts, hbase, -⟩ := h.parts.forceAll (by omega)
  exact ⟨c', heq, hparts, hbase⟩

/-- … and frees it. -/
theorem Settled.freeForced {c' : Chan} (h : Settled c g)
    (hparts : Parts c'.ring (g.fromHw g.hw le_rfl)) (hbd : bdAt c'.ring = bdAt c.ring) :
    ∃ c'', descriptorFreeBds (g.hw, if g.hw = 0 then 0 else bdAt c.ring g.hwPos) c' = c'' ∧
      Settled c'' (g.retire g.hw le_rfl) ∧ c''.ring.base = c'.ring.base := by
  have hpost : g.hw ≤ (g.fromHw g.hw le_rfl).post := Nat.le_add_left _ _
  obtain ⟨c'', heq, hparts', hbase, -⟩ := hparts.freeNat hpost
  rw [g.fromHw_freeUp le_rfl hpost] at hparts'
  have hroom : (g.retire g.hw le_rfl).hw = 0 := Nat.sub_self _
  rw [descriptorFreeBds]
  dsimp only
  by_cases hzero : g.hw = 0
  · rw [if_pos hzero]
    refine ⟨c', rfl, ⟨?_, h.post, h.pre, Or.inl hroom⟩, rfl⟩
    have hsame : g.retire g.hw le_rfl = g.fromHw g.hw le_rfl := by
      ext <;> simp only [Split.retire, Split.fromHw] <;> omega
    rw [hsame]
    exact hparts
  · have hstart : bdAt c.ring g.hwPos = bdAt c'.ring (g.fromHw g.hw le_rfl).start := by
      rw [hbd, Split.hwPos, h.post]
      rfl
    rw [if_neg hzero, if_neg hzero, hstart, heq]
    exact ⟨c'', rfl, ⟨hparts', h.post, h.pre, Or.inl hroom⟩, hbase⟩

theorem retrieved_used (w : BdWords) : ¬ Flag w.retrieved.flags pktUnused := by
  show ¬ Flag (w.status &&& bdStatusMask) pktUnused
  rw [Flag, BitVec.and_assoc, show bdStatusMask &&& pktUnused = 0#32 by decide, BitVec.and_zero]
  exact fun h => h rfl

section Recv

variable {υ : Type} {user : UserPtrs υ} {thBhIsr : Bool} {bus : ℕ → U32} {freeBdCount : ℕ}
  {d : Dev υ} {p : RecvPass υ} {g' : Split}

theorem RecvOutcome.settled (h : RecvOutcome user thBhIsr bus freeBdCount d g p g')
    (hs : Settled d.chan g) (hfree : freeBdCount + 2 ≤ g.free) :
    Settled p.dev.chan g' ∧ p.dev.chan.ring.base = d.chan.ring.base := by
  cases h with
  | nothing => exact ⟨hs, rfl⟩
  | queued pkts u c intrCount hn hgot hne hparts hbase hloads hgrown =>
    have hle := user.getPkt_le d.user freeBdCount
    rw [hgot] at hle
    dsimp only at hle
    exact ⟨hs.queue hparts (by omega), hbase⟩
  | refused pkts u c intrCount hgot hne hlen hparts hbase =>
    exact ⟨⟨hparts, hs.post, hs.pre, hs.room⟩, hbase⟩

/-- **The rule for `DmaSetupRecvBuffers`**: what every pass keeps, the function keeps. -/
theorem Settled.setupRecv (user : UserPtrs υ) (thBhIsr : Bool)
    {P : Dev υ → Split → List Ev → Prop}
    (hstep : ∀ d g evs bus freeBdCount p g', Settled d.chan g → freeBdCount + 2 ≤ g.free →
      P d g evs → RecvOutcome user thBhIsr bus freeBdCount d g p g' → P p.dev g' (evs ++ p.evs))
    (h : Settled d.chan g) (hrx : d.chan.ring.isRxChannel = true) (bus : ℕ → U32)
    (hP : P d g []) :
    ∃ g', Settled (setupRecvBuffers user thBhIsr bus d).1.chan g' ∧
      (setupRecvBuffers user thBhIsr bus d).1.chan.ring.base = d.chan.ring.base ∧
      P (setupRecvBuffers user thBhIsr bus d).1 g' (setupRecvBuffers user thBhIsr bus d).2 := by
  rw [setupRecvBuffers, h.parts.freeCnt]
  split_ifs with hfree
  · exact ⟨g, h, rfl, hP⟩
  · have hloop := Parts.setupRecvLoop user thBhIsr
      (P := fun d' g' evs =>
        Settled d'.chan g' ∧ d'.chan.ring.base = d.chan.ring.base ∧ P d' g' evs)
      (fun d₁ g₁ evs bus freeBdCount p g₂ _ hfree₁ hP₁ hout =>
        ⟨(hout.settled hP₁.1 hfree₁).1, (hout.settled hP₁.1 hfree₁).2.trans hP₁.2.1,
          hstep d₁ g₁ evs bus freeBdCount p g₂ hP₁.1 hfree₁ hP₁.2.2 hout⟩)
      (g.free - 2) bus (g.free - 2) d g [] h.parts h.pre hrx (by omega) ⟨h, rfl, hP⟩
    rwa [List.nil_append] at hloop

/-- **What the refill does to the Hardware group**: its BDs stay as they are, and those that are
added are not completed and carry no user data. -/
theorem Settled.refill_fresh {d : Dev υ} (h : Settled d.chan g) (user : UserPtrs υ) (thBhIsr : Bool)
    (bus : ℕ → U32) :
    ∃ g', Settled (pktHandlerRefill user thBhIsr bus d).1.chan g' ∧
      (pktHandlerRefill user thBhIsr bus d).1.chan.ring.base = d.chan.ring.base ∧
      g'.hwPos = g.hwPos ∧ g.hw ≤ g'.hw ∧
      (∀ i < g.hw, wordsAt (pktHandlerRefill user thBhIsr bus d).1.chan (g.hwPos + i) =
        wordsAt d.chan (g.hwPos + i)) ∧
      ∀ i, g.hw ≤ i → i < g'.hw →
        ¬ (wordsAt (pktHandlerRefill user thBhIsr bus d).1.chan (g.hwPos + i)).Comp ∧
        (wordsAt (pktHandlerRefill user thBhIsr bus d).1.chan (g.hwPos + i)).usrl = 0 ∧
        (wordsAt (pktHandlerRefill user thBhIsr bus d).1.chan (g.hwPos + i)).usrh = 0 := by
  rw [pktHandlerRefill]
  split_ifs with hrx
  · have hrule := Settled.setupRecv user thBhIsr
      (P := fun d' g' _ => g'.hwPos = g.hwPos ∧ g.hw ≤ g'.hw ∧
        (∀ i < g.hw, wordsAt d'.chan (g.hwPos + i) = wordsAt d.chan (g.hwPos + i)) ∧
        ∀ i, g.hw ≤ i → i < g'.hw → ¬ (wordsAt d'.chan (g.hwPos + i)).Comp ∧
          (wordsAt d'.chan (g.hwPos + i)).usrl = 0 ∧ (wordsAt d'.chan (g.hwPos + i)).usrh = 0)
      ?_ h hrx bus ⟨rfl, le_rfl, fun _ _ => rfl, fun i hi hlt => absurd hlt (not_lt.2 hi)⟩
    · obtain ⟨g', hs, hbase, hpos, hle, hold, hnew⟩ := hrule
      exact ⟨g', hs, hbase, hpos, hle, hold, hnew⟩
    · rintro d₁ g₁ evs bus freeBdCount p g₂ hs₁ hfree ⟨hpos, hle, hold, hnew⟩ hout
      cases hout with
      | nothing => exact ⟨hpos, hle, hold, hnew⟩
      | queued pkts u c intrCount hn hgot hne hparts hbase hloads hgrown hblank =>
        have hkept := hgrown.old
        rw [hpos] at hkept
        refine ⟨hpos, hle.trans (Nat.le_add_right _ _), fun i hi => ?_, fun i hi hlt => ?_⟩
        · exact (hkept i (by omega)).trans (hold i hi)
        · have hlt' : i < g₁.hw + pkts.length := hlt
          by_cases hin : i < g₁.hw
          · dsimp only
            rw [hkept i hin]
            exact hnew i hi hin
          · obtain ⟨j, rfl⟩ := Nat.exists_eq_add_of_le (not_lt.1 hin)
            have hplace : g.hwPos + (g₁.hw + j) = g₁.prePos + j := by
              rw [← g₁.hwPos_add, hpos, Nat.add_assoc]
            rw [hplace]
            exact ⟨hgrown.fresh j (by omega), hblank j (by omega)⟩
      | refused pkts u c intrCount hgot hne hlen hparts hbase hloads hgrown =>
        have hkept := hgrown.old
        rw [hpos] at hkept
        refine ⟨hpos, hle, fun i hi => ?_, fun i hi hlt => ?_⟩
        · exact (hkept i (by omega)).trans (hold i hi)
        · dsimp only
          rw [hkept i hlt]
          exact hnew i hi hlt
  · exact ⟨g, h, rfl, rfl, le_rfl, fun _ _ => rfl, fun i hi hlt => absurd hlt (not_lt.2 hi)⟩

end Recv

/-! ## Buffers -/

/-- The buffers obtained from `UserGetPkt`. -/
def gotIds (evs : List Ev) : List U32 := evs.flatMap fun
  | .getPkt pkts => pkts.map PktBuf.bufInfo
  | _ => []

/-- The buffers passed to `UserPutPkt`. -/
def putIds (evs : List Ev) : List U32 := evs.flatMap fun
  | .putPkt pkts => pkts.map PktBuf.bufInfo
  | _ => []

@[simp] theorem gotIds_append (evs evs' : List Ev) :
    gotIds (evs ++ evs') = gotIds evs ++ gotIds evs' := List.flatMap_append

@[simp] theorem putIds_append (evs evs' : List Ev) :
    putIds (evs ++ evs') = putIds evs ++ putIds evs' := List.flatMap_append

/-- The section calls neither callback. -/
def NoCallback (evs : List Ev) : Prop := gotIds evs = [] ∧ putIds evs = []

theorem noCallback_of_forall {evs : List Ev} (h : ∀ ev ∈ evs, ∃ bus len dir,
    ev = .map bus len dir ∨ ev = .unmap bus len dir) : NoCallback evs := by
  constructor
  all_goals
    apply List.flatMap_eq_nil_iff.2
    intro ev hev
    obtain ⟨bus, len, dir, rfl | rfl⟩ := h ev hev
    · rfl
    · rfl

theorem noCallback_mapEvs (dir : DmaDirection) (bus : ℕ → U32) (pkts : List PktBuf) :
    NoCallback (mapEvs dir bus pkts) := by
  apply noCallback_of_forall
  intro ev hev
  obtain ⟨i, hi, rfl⟩ := List.mem_mapIdx.1 hev
  exact ⟨_, _, _, Or.inl rfl⟩

theorem noCallback_unmapEvs (dir : DmaDirection) (bus : ℕ → U32) (n : ℕ) (pkts : List PktBuf) :
    NoCallback (unmapEvs dir bus n pkts) := by
  apply noCallback_of_forall
  intro ev hev
  obtain ⟨i, hi, rfl⟩ := List.mem_mapIdx.1 hev
  exact ⟨_, _, _, Or.inr rfl⟩

theorem map_bufInfo_unusedPkts (pkts : List PktBuf) :
    (unusedPkts pkts).map PktBuf.bufInfo = pkts.map PktBuf.bufInfo := by
  rw [unusedPkts, List.map_map]
  rfl

/-- What a pass gets and does not put back, it queues. -/
theorem RecvOutcome.ids {υ : Type} {user : UserPtrs υ} {thBhIsr : Bool} {bus : ℕ → U32}
    {freeBdCount : ℕ} {d : Dev υ} {p : RecvPass υ} {g' : Split}
    (h : RecvOutcome user thBhIsr bus freeBdCount d g p g') :
    ∃ l, (hwLoads p.dev.chan g').map Load.id = (hwLoads d.chan g).map Load.id ++ l ∧
      gotIds p.evs = putIds p.evs ++ l := by
  cases h with
  | nothing => exact ⟨[], (List.append_nil _).symm, rfl⟩
  | queued pkts u c intrCount hn hgot hne hparts hbase hloads =>
    have hmaps := noCallback_mapEvs .fromDevice bus pkts
    have hids := map_id_mapIdx
      (f := fun i => recvLoad thBhIsr (d.intrCount + BitVec.ofNat 32 i) (bus i))
      (fun _ _ => rfl) pkts
    refine ⟨pkts.map PktBuf.bufInfo, ?_, ?_⟩
    · rw [hloads, List.map_append]
      exact congrArg _ hids
    · show pkts.map PktBuf.bufInfo ++ gotIds (mapEvs .fromDevice bus pkts) =
        putIds (mapEvs .fromDevice bus pkts) ++ pkts.map PktBuf.bufInfo
      rw [hmaps.1, hmaps.2, List.append_nil, List.nil_append]
  | refused pkts u c intrCount hgot hne hlen hparts hbase hloads =>
    have hmaps := noCallback_mapEvs .fromDevice bus pkts
    have hunmaps := noCallback_unmapEvs .fromDevice bus 0 pkts
    refine ⟨[], by rw [hloads, List.append_nil], ?_⟩
    show pkts.map PktBuf.bufInfo ++ gotIds (mapEvs .fromDevice bus pkts ++
        unmapEvs .fromDevice bus 0 pkts ++ [.putPkt (unusedPkts pkts)]) =
      putIds (mapEvs .fromDevice bus pkts ++ unmapEvs .fromDevice bus 0 pkts ++
        [.putPkt (unusedPkts pkts)]) ++ []
    simp only [gotIds_append, putIds_append, hmaps.1, hmaps.2, hunmaps.1, hunmaps.2,
      List.append_nil, List.nil_append]
    show pkts.map PktBuf.bufInfo ++ [] = (unusedPkts pkts).map PktBuf.bufInfo ++ []
    rw [map_bufInfo_unusedPkts]

/-- `DmaSendPkt` only appends. -/
theorem Settled.sendPkt_ids (h : Settled c g) {pkts : List PktBuf} (hwhole : WholePkts pkts)
    (thBhIsr : Bool) (bus : ℕ → U32) (intrCount : U32) :
    let sent := dmaSendPkt .initialized .userAssigned thBhIsr bus pkts c intrCount
    ∃ g' l, Settled sent.2.1 g' ∧ sent.2.1.ring.base = c.ring.base ∧
      hwIds sent.2.1 = hwIds c ++ l ∧ NoCallback sent.2.2.2 := by
  intro sent
  cases hrx : c.ring.isRxChannel with
  | true =>
    have hsent : sent = (0, c, intrCount, []) := dmaSendPkt_rx hrx thBhIsr bus pkts intrCount
    rw [hsent]
    exact ⟨g, [], h, rfl, (List.append_nil _).symm, rfl, rfl⟩
  | false =>
    obtain ⟨n, c', ic, hn, heq, -, hs, hbase, -, hloads⟩ :=
      h.sendPkt hrx thBhIsr bus pkts intrCount (hwhole.1.take _).anchored
    have hmaps := noCallback_mapEvs .toDevice bus (pkts.take (g.free - 2))
    have hunmaps := noCallback_unmapEvs .toDevice bus n (pkts.take (g.free - 2))
    have hsent : sent = _ := heq
    rw [hsent]
    refine ⟨_, (sentLoads thBhIsr intrCount bus (pkts.take n)).map Load.id, hs, hbase, ?_, ?_⟩
    · dsimp only
      rw [hs.parts.hwIds_eq, h.parts.hwIds_eq, hloads, List.map_append]
    · constructor
      · rw [gotIds_append, hmaps.1, hunmaps.1, List.append_nil]
      · rw [putIds_append, hmaps.2, hunmaps.2, List.append_nil]

/-- The refill only appends, namely what it got and did not put back. -/
theorem Settled.refill_ids {υ : Type} {d : Dev υ} (h : Settled d.chan g) (user : UserPtrs υ)
    (thBhIsr : Bool) (bus : ℕ → U32) :
    let done := pktHandlerRefill user thBhIsr bus d
    ∃ g' l, Settled done.1.chan g' ∧ done.1.chan.ring.base = d.chan.ring.base ∧
      hwIds done.1.chan = hwIds d.chan ++ l ∧ (gotIds done.2).Perm (putIds done.2 ++ l) := by
  intro done
  by_cases hrx : d.chan.ring.isRxChannel = true
  · have hdone : done = setupRecvBuffers user thBhIsr bus d := if_pos hrx
    obtain ⟨g', hs, hbase, l, hl, hperm⟩ := Settled.setupRecv user thBhIsr
      (P := fun d' g' evs => ∃ l, (hwLoads d'.chan g').map Load.id = hwIds d.chan ++ l ∧
        (gotIds evs).Perm (putIds evs ++ l))
      (by
        rintro d₁ g₁ evs bus freeBdCount p g₂ hs hfree ⟨l, hl, hperm⟩ hout
        obtain ⟨l', hl', hgot⟩ := hout.ids
        refine ⟨l ++ l', by rw [hl', hl, List.append_assoc], ?_⟩
        rw [gotIds_append, putIds_append, hgot]
        apply (hperm.append_right _).trans
        simp only [List.append_assoc]
        exact (List.perm_append_comm_assoc _ _ _).append_left _)
      h hrx bus ⟨[], by rw [h.parts.hwIds_eq, List.append_nil], .refl _⟩
    rw [hdone]
    exact ⟨g', l, hs, hbase, by rw [hs.parts.hwIds_eq, hl], hperm⟩
  · have hdone : done = (d, []) := if_neg hrx
    rw [hdone]
    exact ⟨g, [], h, rfl, (List.append_nil _).symm, .refl _⟩

end Dma
