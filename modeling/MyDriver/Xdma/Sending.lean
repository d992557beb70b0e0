import MyDriver.Xdma.Contract

/-!
# What `DmaSendPkt` does with what it cannot send

`DmaSendPkt` maps as many buffers as there is room for, hands the complete packets to the hardware
and takes the rest back.

* `sendPkt_whole` — on complete packets it sends up to the last packet end that fits.
* `rollback_iff` — on packets of any kind it takes back exactly what it has not sent when
  `PartialBDPtr`, where it has to be used, points at the first fragment to be held back.
-/

namespace Dma

open Cyclic Runs Words

variable {c c' : Chan} {g : Split}

/-! ## Complete packets -/

/-- A BD carries a packet of the user from the address at which its buffer is mapped. -/
structure BdCarries (bufPA : U32) (pbuf : PktBuf) (w : BdWords) : Prop where
  bufal : w.bufal = bufPA
  bufah : w.bufah = 0
  length : w.ctrl &&& bdBuflMask = pbuf.size
  statLength : w.status &&& bdBuflMask = pbuf.size
  id : w.vbufal = pbuf.bufInfo
  user : userData w.usrh w.usrl = pbuf.userInfo
  sop : Flag w.ctrl bdSopMask ↔ Flag pbuf.flags bdSopMask
  eop : Flag w.ctrl bdEopMask ↔ Flag pbuf.flags bdEopMask

/-- The two user words hold the user data. -/
theorem userData_words (user : BitVec 64) :
    userData ((user >>> 32).setWidth 32) (user.setWidth 32) = user := by
  refine BitVec.eq_of_getLsbD_eq fun i hi => ?_
  rw [userData, BitVec.getLsbD_or, BitVec.getLsbD_shiftLeft, BitVec.getLsbD_setWidth,
    BitVec.getLsbD_setWidth, BitVec.getLsbD_setWidth, BitVec.getLsbD_setWidth,
    BitVec.getLsbD_ushiftRight]
  rcases Nat.lt_or_ge i 32 with hlt | hge
  · simp [hi, hlt]
  · have hlow : ¬ i < 32 := not_lt.2 hge
    have hhigh : i - 32 < 32 := by omega
    have hsum : 32 + (i - 32) = i := by omega
    simp [hi, hlow, hhigh, hsum, hhigh.trans_le (show 32 ≤ 64 by decide)]

/-- Lengths below `2 ^ 20` fit into the length field. -/
theorem and_buflMask {size : U32} (h : size.toNat < 2 ^ 20) : size &&& bdBuflMask = size := by
  apply BitVec.eq_of_toNat_eq
  rw [BitVec.toNat_and]
  exact (Nat.and_two_pow_sub_one_eq_mod _ 20).trans (Nat.mod_eq_of_lt h)

/-- A BD has the name, the user data and the flags of a packet of the user. -/
structure Tagged (pbuf : PktBuf) (w : BdWords) : Prop where
  id : w.vbufal = pbuf.bufInfo
  user : userData w.usrh w.usrl = pbuf.userInfo
  sop : Flag w.ctrl bdSopMask ↔ Flag pbuf.flags bdSopMask
  eop : Flag w.ctrl bdEopMask ↔ Flag pbuf.flags bdEopMask

theorem handedWords_tagged (thBhIsr : Bool) (intrCount bufPA : U32) (pbuf : PktBuf) (w : BdWords) :
    Tagged pbuf (handedWords thBhIsr intrCount bufPA pbuf w) where
  id := rfl
  user := userData_words pbuf.userInfo
  sop := by
    show Flag (filledCtrl _ _) bdSopMask ↔ _
    rw [Flag, filledCtrl_flag _ _ (by decide)]
    exact (flag_sentFlags _ _ _).1
  eop := by
    show Flag (filledCtrl _ _) bdEopMask ↔ _
    rw [Flag, filledCtrl_flag _ _ (by decide)]
    exact (flag_sentFlags _ _ _).2

theorem handedWords_carries (thBhIsr : Bool) (intrCount bufPA : U32) {pbuf : PktBuf}
    (hsize : pbuf.size.toNat < 2 ^ 20) (w : BdWords) :
    BdCarries bufPA pbuf (handedWords thBhIsr intrCount bufPA pbuf w) where
  bufal := rfl
  bufah := rfl
  length := (filledCtrl_length _ _).trans (and_buflMask hsize)
  statLength := by
    have hleft : bdStatusMask &&& bdBuflMask = 0 := by decide
    have hright : bdBuflMask &&& bdStatusMask = 0 := by decide
    show ((w.status &&& bdStatusMask ||| pbuf.size &&& bdBuflMask) &&& bdBuflMask |||
      0 &&& bdStatusMask) &&& bdBuflMask = pbuf.size
    rw [merge_and_left hright, merge_and_right hleft, and_buflMask hsize]
  id := (handedWords_tagged thBhIsr intrCount bufPA pbuf w).id
  user := (handedWords_tagged thBhIsr intrCount bufPA pbuf w).user
  sop := (handedWords_tagged thBhIsr intrCount bufPA pbuf w).sop
  eop := (handedWords_tagged thBhIsr intrCount bufPA pbuf w).eop

/-- **The BDs that a call has added**: one for each packet it has accepted. -/
theorem Settled.sendPkt_tagged (h : Settled c g) (hrx : c.ring.isRxChannel = false)
    (thBhIsr : Bool) (bus : ℕ → U32) {pkts : List PktBuf} (hwhole : WholePkts pkts)
    (intrCount : U32) {n : ℕ} {c' : Chan} {rest : U32 × List Ev}
    (heq : dmaSendPkt .initialized .userAssigned thBhIsr bus pkts c intrCount = (n, c', rest)) :
    ∃ new, hwWords c' = hwWords c ++ new ∧ List.Forall₂ Tagged (pkts.take n) new := by
  obtain ⟨r, c₁, ic, hr, hsent, hle, hparts, hbase, hgrown, -, -, hfills⟩ :=
    h.parts.sendPkt h.pre hrx thBhIsr bus pkts intrCount rfl
      fun _ => (hwhole.1.take (g.free - 2)).anchored
  rw [heq, Prod.mk.injEq, Prod.mk.injEq] at hsent
  obtain ⟨rfl, rfl, -⟩ := hsent
  rw [List.length_take] at hle
  refine ⟨arc (wordsAt c') g.prePos n, h.parts.hwWords_queue hparts hgrown, ?_⟩
  refine List.forall₂_iff_get.2 ⟨by rw [List.length_take, length_arc]; omega, fun i hi _ => ?_⟩
  rw [List.length_take] at hi
  have hin : i < (pkts.take (g.free - 2)).length := by
    rw [List.length_take]
    omega
  have hpkt : (pkts.take (g.free - 2)).getD i default = pkts[i] := by
    rw [List.getD_eq_getElem _ _ hin, List.getElem_take]
  rw [List.get_eq_getElem, List.get_eq_getElem, List.getElem_take, getElem_arc,
    hfills.own i (by omega), hpkt]
  exact handedWords_tagged _ _ _ _ _

/-- What a call on complete packets is to do: `r` is what it returns, `c'` what it leaves and `evs`
the calls it makes. -/
structure SentWhole (packets : List (List PktBuf)) (bus : ℕ → U32) (c : Chan) (r : ℕ) (c' : Chan)
    (evs : List Ev) : Prop where
  full : c.ring.freeCnt.toNat ≤ 2 → r = 0
  greatest : 2 < c.ring.freeCnt.toNat → IsGreatest
    {k | k ≤ min packets.flatten.length (c.ring.freeCnt.toNat - 2) ∧ PacketEnd packets k} r
  /-- The new BDs are at the end of the Hardware group. -/
  hw : hwBds c'.ring = hwBds c.ring ++ bdsFrom c.ring r c.ring.preHead
  carries : ∀ i < r, ∃ hi : i < packets.flatten.length,
    BdCarries (bus i) packets.flatten[i] (bdWords c'.mem ((bdRingNext c.ring)^[i] c.ring.preHead))
  old : ∀ bd ∈ hwBds c.ring, bdWords c'.mem bd = bdWords c.mem bd
  /-- Of the mapped buffers those from index `r` on are unmapped. -/
  evs : evs =
    (packets.flatten.take (c.ring.freeCnt.toNat - 2)).mapIdx
        (fun i p => .map (bus i) p.size .toDevice) ++
      ((packets.flatten.take (c.ring.freeCnt.toNat - 2)).drop r).mapIdx
        fun i p => .unmap (bus (r + i)) p.size .toDevice
  free : c'.ring.freeCnt.toNat + r = c.ring.freeCnt.toNat
  pre : c'.ring.preCnt = 0

theorem Framed.head_sop {p : PktBuf} {pkts : List PktBuf} (h : Framed true pkts)
    (hp : p ∈ pkts.head?) : Flag p.flags bdSopMask := by
  cases pkts with
  | nil => cases hp
  | cons q qs =>
    rw [List.head?_cons, Option.mem_some_iff] at hp
    subst hp
    exact h.2.1.2 rfl

/-- Complete packets with a length are accepted wherever they are cut. -/
theorem WholePkts.accepted {pkts : List PktBuf} (h : WholePkts pkts)
    (hsize : ∀ p ∈ pkts, p.size &&& bdBuflMask ≠ 0) (m : ℕ) : Accepted (pkts.take m) := by
  refine ⟨fun p hp => ((h.1.take m).take _).head_sop hp, fun p hp => hsize p ?_⟩
  exact List.mem_of_mem_take (List.mem_of_mem_take hp)

/-- The lengths are not 0 and fit into the length field. -/
theorem length_fits {packets : List (List PktBuf)}
    (hsize : ∀ frags ∈ packets, ∀ p ∈ frags, 1 ≤ p.size.toNat ∧ p.size.toNat ≤ 2 ^ 20 - 1) :
    ∀ p ∈ packets.flatten, p.size.toNat < 2 ^ 20 ∧ p.size &&& bdBuflMask ≠ 0 := by
  intro p hp
  obtain ⟨frags, hfrags, hin⟩ := List.mem_flatten.1 hp
  obtain ⟨hlow, hhigh⟩ := hsize frags hfrags p hin
  have hlt : p.size.toNat < 2 ^ 20 := by omega
  refine ⟨hlt, ?_⟩
  rw [and_buflMask hlt]
  intro hzero
  rw [hzero] at hlow
  exact absurd hlow (by decide)

/-- **`DmaSendPkt` on complete packets.** It sends up to the last packet end for which there is
room, and unmaps what it has mapped beyond. -/
theorem sendPkt_whole (c : Chan) (hc : Reached c) (htx : c.ring.isRxChannel = false)
    (hpre : c.ring.preCnt = 0) (packets : List (List PktBuf))
    (hpackets : ∀ frags ∈ packets, CompletePkt frags)
    (hsize : ∀ frags ∈ packets, ∀ p ∈ frags, 1 ≤ p.size.toNat ∧ p.size.toNat ≤ 2 ^ 20 - 1)
    (bus : ℕ → U32) (intrCount : U32) :
    let sent := dmaSendPkt .initialized .userAssigned false bus packets.flatten c intrCount
    SentWhole packets bus c sent.1 sent.2.1 sent.2.2.2 := by
  intro sent
  obtain ⟨g, hparts⟩ := hc.parts
  have hlap := g.lap
  have hgpre : g.pre = 0 := by rw [← hparts.preCnt, hpre]; rfl
  have hwhole := wholePkts_flatten hpackets
  have hlen := length_fits hsize
  obtain ⟨r, c', ic, hr, heq, hle, hparts', hbase, hgrown, -, hcount, hfills⟩ :=
    hparts.sendPkt hgpre htx false bus packets.flatten intrCount rfl
      fun _ => (hwhole.1.take (g.free - 2)).anchored
  have hfree := hparts.freeCnt
  have hpos : c.ring.preHead = bdAt c.ring g.prePos := hparts.preHead
  have hbd : bdAt c'.ring = bdAt c.ring := bdAt_congr (block_of_base hbase)
  rw [if_pos (hwhole.accepted (fun p hp => (hlen p hp).2) _)] at hcount
  have hmax := isGreatest_packetEnd hpackets (m := g.free - 2) rfl
  rw [← hcount] at hmax
  rw [List.length_take] at hle
  show SentWhole packets bus c _ _ _
  rw [show sent = _ from heq]
  exact {
    full := fun hfull => by
      rw [hfree] at hfull
      dsimp only
      omega
    greatest := fun _ => by rwa [hfree]
    hw := by
      rw [hparts'.hwBds_eq, hparts.hwBds_eq, hbd, hpos, bdsFrom_eq hparts.laid, g.queue_hwPos]
      exact (arc_append _ _ _ _).symm
    carries := fun i hi => by
      have hin : i < (packets.flatten.take (g.free - 2)).length := by rw [List.length_take]; omega
      refine ⟨by omega, ?_⟩
      have hwords := hfills.own i hi
      rw [List.getD_eq_getElem _ _ hin, List.getElem_take, wordsAt, hbd] at hwords
      rw [hpos, hparts.laid.iterate_next, hwords]
      exact handedWords_carries _ _ _ (hlen _ (List.getElem_mem _)).1 _
    old := fun bd hbd' => by
      rw [hparts.hwBds_eq] at hbd'
      obtain ⟨i, hi, rfl⟩ := mem_arc.1 hbd'
      have hold := hgrown.old i hi
      rwa [wordsAt, hbd, wordsAt] at hold
    evs := by
      rw [hfree]
      refine congrArg₂ (· ++ ·) rfl ?_
      rw [unmapEvs]
      refine List.ext_getElem (by simp) fun i hi hi' => ?_
      rw [List.getElem_mapIdx, List.getElem_mapIdx, and_buflMask]
      exact (hlen _ (List.mem_of_mem_take (List.mem_of_mem_drop (List.getElem_mem _)))).1
    free := by
      rw [hparts'.freeCnt, hfree]
      show g.free - r + r = g.free
      omega
    pre := by
      apply BitVec.eq_of_toNat_eq
      rw [hparts'.preCnt]
      exact hgpre }

/-- A ring for sending of five BDs that has just been created. -/
def fiveFree : Chan := (bdRingCreate (initializedChan false fun _ => 0) 0 0x1000 64 5).2

/-- No operation has run on it yet. -/
theorem fiveFree_reached : Reached fiveFree :=
  ⟨initializedChan false fun _ => 0, 0, 0x1000, 64, 5, [], by decide, by decide, rfl⟩

/-- Two packets of two fragments each. -/
def twoPackets : List (List PktBuf) :=
  [[⟨0x100, 1, 64, 0x80800000, 7⟩, ⟨0x200, 2, 32, 0x40800000, 7⟩],
    [⟨0x300, 3, 64, 0x80800000, 8⟩, ⟨0x400, 4, 16, 0x40800000, 8⟩]]

/-- There is room for three of the fragments: the first packet is sent and the third fragment
unmapped. -/
theorem sendPkt_whole_twoPackets :
    let sent := dmaSendPkt .initialized .userAssigned false (fun i => BitVec.ofNat 32 (0x8000 + i))
      twoPackets.flatten fiveFree 0
    sent.1 = 2 ∧ SentWhole twoPackets (fun i => BitVec.ofNat 32 (0x8000 + i)) fiveFree sent.1
      sent.2.1 sent.2.2.2 :=
  ⟨by decide +kernel, sendPkt_whole fiveFree fiveFree_reached rfl rfl twoPackets (by decide +kernel)
    (by decide) _ 0⟩

/-! ## Packets of any kind -/

/-- The BDs of the buffers that a call maps, and those of the buffers that it unmaps. -/
structure SendBds where
  mapped : List U32
  unmapped : List U32

/-- The BDs that the recovery loop of `DmaSendPkt` goes through. -/
def recoveredBds (count : ℕ) (bdPtr : U32) (c : Chan) : List U32 :=
  (takeLoop c.ring (fun _ cur => cur) count c.mem bdPtr).1

/-- The BDs that `sendFinish` recovers. -/
def finishBds (s : Sending) (result : XStatus) (c : Chan) : List U32 :=
  if result ≠ .success then recoveredBds s.numpkts s.bdPtr c
  else if s.vars.partialBDcount ≠ 0 then recoveredBds s.vars.partialBDcount s.vars.partialBDPtr c
  else []

/-- The BDs of a call of `dmaSendPkt`. -/
def sendBds (driverState engineState : DmaState) (thBhIsr : Bool) (bus : ℕ → U32)
    (pkts : List PktBuf) (c : Chan) (intrCount : U32) : SendBds :=
  if driverState ≠ .initialized ∨ pkts = [] ∨ engineState ≠ .userAssigned ∨
      c.ring.isRxChannel = true then ⟨[], []⟩
  else
    match sendFill thBhIsr bus pkts c intrCount with
    | none => ⟨[], []⟩
    | some (s, c, _, _) =>
      let toHw := sendSubmit s c
      ⟨bdsFrom c.ring s.numpkts s.bdPtr, finishBds s toHw.1 toHw.2⟩

/-- The packets that get a BD. -/
def mappedPkts (driverState engineState : DmaState) (pkts : List PktBuf) (c : Chan) : List PktBuf :=
  if driverState ≠ .initialized ∨ engineState ≠ .userAssigned then []
  else pkts.take (c.ring.freeCnt.toNat - 2)

/-- What a call has to take back: `l` are the packets that get a BD, `n` is what it returns, `c'`
what it leaves and `evs` the calls it makes. -/
structure RollbackOk (l : List PktBuf) (bus : ℕ → U32) (bds : SendBds) (c : Chan) (n : ℕ)
    (c' : Chan) (evs : List Ev) : Prop where
  /-- What is mapped and not left in the Hardware group is unmapped exactly once, and nothing else.
  -/
  once : bds.unmapped.Perm (bds.mapped.drop n)
  evs : evs = mapEvs .toDevice bus l ++ unmapEvs .toDevice bus n l
  other : ∀ bd ∈ bdList c.ring, bd ∉ bds.mapped → bdWords c'.mem bd = bdWords c.mem bd
  used : ∀ bd ∈ bds.mapped ++ bds.unmapped, bd ≠ 0 ∧ bd ∈ bdList c.ring
  pre : c'.ring.preCnt = 0
  head : c'.ring.preHead = c'.ring.freeHead
  le : n ≤ bds.mapped.length
  hw : hwBds c'.ring = hwBds c.ring ++ bds.mapped.take n

theorem recoveredBds_eq (count : ℕ) (bdPtr : U32) (c : Chan) :
    recoveredBds count bdPtr c = bdsFrom c.ring count bdPtr := by
  rw [recoveredBds]
  generalize c.mem = m
  induction count generalizing bdPtr m with
  | zero => rfl
  | succ count ih => rw [takeLoop, bdsFrom, ih]

theorem length_bdsFrom (r : BdRing) (k : ℕ) (bdPtr : U32) : (bdsFrom r k bdPtr).length = k := by
  induction k generalizing bdPtr with
  | zero => rfl
  | succ k ih => rw [bdsFrom, List.length_cons, ih]

/-- A BD of a ring that does not start at address 0 has an address. -/
theorem Laid.bdAt_ne_zero {r : BdRing} (h : Laid r) (hfirst : r.firstBdAddr ≠ 0) (x : ℕ) :
    bdAt r x ≠ 0 := by
  intro hzero
  have haddr := h.toNat_bdAt x
  have hpos : 0 < r.firstBdAddr.toNat := Nat.pos_of_ne_zero fun h0 => hfirst (cnt_eq_zero.2 h0)
  rw [hzero, show (0 : U32).toNat = 0 from rfl] at haddr
  omega

/-- `PartialBDPtr` after the loop of `DmaSendPkt` over `l`. -/
def partialBDPtrOf (r : BdRing) (l : List PktBuf) (bdPtr : U32) : U32 :=
  (sendVars r l bdPtr { partialBDcount := 0, partialOK := false, partialBDPtr := 0 }).partialBDPtr

/-- **The BDs of a call.** -/
theorem Parts.sendBds (h : Parts c.ring g) (hpre : g.pre = 0) (hrx : c.ring.isRxChannel = false)
    (thBhIsr : Bool) (bus : ℕ → U32) (pkts : List PktBuf) (intrCount : U32)
    {l : List PktBuf} (hl : l = pkts.take (g.free - 2)) :
    sendBds .initialized .userAssigned thBhIsr bus pkts c intrCount =
      ⟨arc (bdAt c.ring) g.prePos l.length,
        if Accepted l then
          bdsFrom c.ring (openPkts l).length (partialBDPtrOf c.ring l (bdAt c.ring g.prePos))
        else arc (bdAt c.ring) g.prePos l.length⟩ := by
  have hlap := g.lap
  by_cases hno : pkts = [] ∨ g.free ≤ 2
  · have hnil : l = [] := hl.trans (take_idle hno)
    subst hnil
    have heq : Dma.sendBds .initialized .userAssigned thBhIsr bus pkts c intrCount = ⟨[], []⟩ := by
      unfold Dma.sendBds
      by_cases hpkts : pkts = []
      · rw [if_pos (Or.inr (Or.inl hpkts))]
      · rw [if_neg (by simp [hpkts, hrx]), Dma.sendFill, h.freeCnt,
          if_pos (hno.resolve_left hpkts)]
    rw [heq]
    split_ifs <;> rfl
  obtain ⟨hpkts, hfree⟩ := not_or.1 hno
  obtain ⟨c₁, hle, hfill, hparts₁, hbase₁, -, -, hacc⟩ :=
    h.sendStart hpre (by omega) hrx thBhIsr bus pkts intrCount hl
  have hcount := sendVars_count c.ring l (bdAt c.ring g.prePos)
    { partialBDcount := 0, partialOK := false, partialBDPtr := 0 } rfl
  have hblock₁ := block_of_base hbase₁
  have hbd₁ : bdAt c₁.ring = bdAt c.ring := bdAt_congr hblock₁
  have hpos : (g.alloc l.length hle).prePos = g.prePos := g.alloc_prePos hle
  have hk : l.length - (openPkts l).length ≤ (g.alloc l.length hle).pre := by
    show l.length - (openPkts l).length ≤ g.pre + l.length
    omega
  unfold Dma.sendBds
  rw [if_neg (by simp [hpkts, hrx]), hfill]
  dsimp only
  rw [bdsFrom_congr hblock₁, bdsFrom_eq h.laid, sendSubmit, finishBds]
  dsimp only
  rw [hcount]
  by_cases hyes : Accepted l
  · obtain ⟨c₂, heq, -, hbase₂, -⟩ := hparts₁.submit_ok hk (by rwa [hpos, hacc])
    rw [hpos, hbd₁] at heq
    rw [if_pos hyes, heq, if_neg (by simp)]
    by_cases hopen : openPkts l = []
    · rw [if_neg (by simp [hopen]), hopen]
      rfl
    · rw [if_pos (by simpa using hopen), recoveredBds_eq,
        bdsFrom_congr ((block_of_base hbase₂).trans hblock₁)]
      rfl
  · obtain ⟨j, m', heq, -⟩ := hparts₁.submit_fail hk (by rwa [hpos, hacc])
    rw [hpos, hbd₁] at heq
    rw [if_neg hyes, heq, if_pos (by simp), recoveredBds_eq, bdsFrom_congr hblock₁,
      bdsFrom_eq h.laid]

/-- **What is recovered behind an accepted call** is what it holds back only if `PartialBDPtr`
points at the first open fragment. -/
theorem Parts.anchored_of_perm (h : Parts c.ring g) (hfirst : c.ring.firstBdAddr ≠ 0)
    {l : List PktBuf} (hl : l.length + 2 ≤ g.size ∨ l = [])
    (hperm : (bdsFrom c.ring (openPkts l).length
        (partialBDPtrOf c.ring l (bdAt c.ring g.prePos))).Perm
      (arc (bdAt c.ring) (g.prePos + (l.length - (openPkts l).length)) (openPkts l).length)) :
    Anchored l := by
  rw [anchored_iff]
  intro hopen
  have hle := length_openPkts_le l
  have hpos : 0 < (openPkts l).length := List.length_pos_iff.2 hopen
  have hroom : l.length + 2 ≤ g.size := hl.resolve_right fun hnil => hopen (by rw [hnil]; rfl)
  obtain ⟨d, hd⟩ := Nat.exists_eq_add_of_le hle
  rw [hd, Nat.add_sub_cancel_left] at hperm ⊢
  rcases sendVars_ptr h.laid l g.prePos with ⟨-, hnull⟩ | ⟨j, hlast, hptr⟩
  · -- No packet starts one: the loop starts at NULL.
    obtain ⟨k, hk⟩ := Nat.exists_eq_add_of_lt hpos
    rw [partialBDPtrOf, hnull, hk, Nat.zero_add, bdsFrom] at hperm
    obtain ⟨i, -, hi⟩ := mem_arc.1 (hperm.subset List.mem_cons_self)
    exact absurd hi (h.laid.bdAt_ne_zero hfirst _)
  · rw [partialBDPtrOf, hptr, bdsFrom_eq h.laid] at hperm
    have hlt := hlast.lt
    have hnear : ∀ {x y : ℕ}, x < y → y < x + g.size → bdAt c.ring (g.prePos + y) ≠
        bdAt c.ring (g.prePos + x) := fun hxy hyx => h.bdAt_ne (by omega) (by omega)
    rcases Nat.lt_trichotomy j d with hjd | rfl | hdj
    · -- The BD at `PartialBDPtr` is left in the Hardware group.
      obtain ⟨i, hi, heq⟩ := mem_arc.1 (hperm.subset (mem_arc.2 ⟨0, hpos, rfl⟩))
      rw [Nat.add_zero, Nat.add_assoc] at heq
      exact absurd heq (hnear (by omega) (by omega))
    · exact hlast
    · -- The BD before `PartialBDPtr` is not recovered.
      obtain ⟨i, hi, heq⟩ := mem_arc.1 (hperm.symm.subset (mem_arc.2 ⟨j - 1 - d, by omega, rfl⟩))
      rw [Nat.add_assoc, Nat.add_assoc, show d + (j - 1 - d) = j - 1 by omega] at heq
      exact absurd heq (hnear (by omega) (by omega))

/-- What is held back begins where `PartialBDPtr` points. -/
theorem bdsFrom_partialBDPtr (h : Laid c.ring) {l : List PktBuf} (hanch : Anchored l) (x : ℕ) :
    bdsFrom c.ring (openPkts l).length (partialBDPtrOf c.ring l (bdAt c.ring x)) =
      (arc (bdAt c.ring) x l.length).drop (l.length - (openPkts l).length) := by
  have hle := length_openPkts_le l
  rw [drop_arc _ (Nat.sub_le _ _), Nat.sub_sub_self hle]
  by_cases hopen : openPkts l = []
  · rw [hopen]
    rfl
  · rw [partialBDPtrOf, (sendVars_spec h l x).2 hanch hopen, bdsFrom_eq h]

/-- **The rollback of a call that is accepted only with `PartialBDPtr` in place.** -/
theorem Parts.rollback (h : Parts c.ring g) (hfirst : c.ring.firstBdAddr ≠ 0) (hpre : g.pre = 0)
    (hrx : c.ring.isRxChannel = false) (thBhIsr : Bool) (bus : ℕ → U32) (pkts : List PktBuf)
    (intrCount : U32) {l : List PktBuf} (hl : l = pkts.take (g.free - 2))
    (hanch : Accepted l → Anchored l) {sent : ℕ × Chan × U32 × List Ev}
    (hsent : sent = dmaSendPkt .initialized .userAssigned thBhIsr bus pkts c intrCount) :
    RollbackOk l bus (Dma.sendBds .initialized .userAssigned thBhIsr bus pkts c intrCount) c sent.1
      sent.2.1 sent.2.2.2 := by
  obtain ⟨n, c', ic, hn, heq, hle, hparts', hbase, hgrown, -, hcount, hfills⟩ :=
    h.sendPkt hpre hrx thBhIsr bus pkts intrCount hl hanch
  have hbd : bdAt c'.ring = bdAt c.ring := bdAt_congr (block_of_base hbase)
  have honce : (if Accepted l then
      bdsFrom c.ring (openPkts l).length (partialBDPtrOf c.ring l (bdAt c.ring g.prePos))
      else arc (bdAt c.ring) g.prePos l.length) = (arc (bdAt c.ring) g.prePos l.length).drop n := by
    rw [hcount]
    split_ifs with hyes
    · exact bdsFrom_partialBDPtr h.laid (hanch hyes) _
    · rfl
  have hmapped : ∀ bd ∈ arc (bdAt c.ring) g.prePos l.length, bd ≠ 0 ∧ bd ∈ bdList c.ring := by
    intro bd hbd'
    obtain ⟨i, -, rfl⟩ := mem_arc.1 hbd'
    exact ⟨h.laid.bdAt_ne_zero hfirst _, mem_arc_lap h.laid.circle 0 _⟩
  rw [hsent, heq, h.sendBds hpre hrx thBhIsr bus pkts intrCount hl, honce]
  exact {
    once := List.Perm.refl _
    evs := rfl
    other := fun bd hin hout => by
      obtain ⟨x, -, rfl⟩ := mem_arc.1 hin
      rw [Nat.zero_add] at hout ⊢
      have hold := hfills.other x fun i hi hx => hout (mem_arc.2 ⟨i, hi, hx.symm⟩)
      rwa [wordsAt, hbd, wordsAt] at hold
    used := fun bd hin => by
      rcases List.mem_append.1 hin with hm | hu
      · exact hmapped bd hm
      · exact hmapped bd (List.mem_of_mem_drop hu)
    pre := by
      apply BitVec.eq_of_toNat_eq
      rw [hparts'.preCnt]
      exact hpre
    head := by
      rw [hparts'.preHead, hparts'.freeHead, Split.prePos, Split.freePos]
      show _ = bdAt c'.ring (_ + g.pre)
      rw [hpre]
      rfl
    le := by
      rw [length_arc]
      exact hle
    hw := by
      rw [hparts'.hwBds_eq, h.hwBds_eq, hbd, take_arc _ hle, g.queue_hwPos]
      exact (arc_append _ _ _ _).symm }

/-- A call that returns at once has nothing to take back. -/
theorem Parts.rollback_none (h : Parts c.ring g) (hpre : g.pre = 0) (bus : ℕ → U32) :
    RollbackOk [] bus ⟨[], []⟩ c 0 c [] where
  once := List.Perm.refl _
  evs := rfl
  other _ _ _ := rfl
  used bd hbd := absurd hbd List.not_mem_nil
  pre := by
    apply BitVec.eq_of_toNat_eq
    rw [h.preCnt]
    exact hpre
  head := by
    rw [h.preHead, h.freeHead, Split.prePos, Split.freePos, hpre]
    rfl
  le := Nat.zero_le _
  hw := (List.append_nil _).symm

/-- An accepted call has taken back what it should have only with `PartialBDPtr` in place. -/
theorem Parts.rollback_anchored (h : Parts c.ring g) (hfirst : c.ring.firstBdAddr ≠ 0)
    (hpre : g.pre = 0) (hrx : c.ring.isRxChannel = false) (thBhIsr : Bool) (bus : ℕ → U32)
    (pkts : List PktBuf) (intrCount : U32) {l : List PktBuf} (hl : l = pkts.take (g.free - 2))
    (hyes : Accepted l) {n : ℕ} {evs : List Ev}
    (hok : RollbackOk l bus (Dma.sendBds .initialized .userAssigned thBhIsr bus pkts c intrCount) c n
      c' evs) : Anchored l := by
  have hlap := g.lap
  have hbds := h.sendBds hpre hrx thBhIsr bus pkts intrCount hl
  rw [if_pos hyes] at hbds
  have honce := hok.once
  have hn := hok.le
  rw [hbds] at honce hn
  have hopen := length_openPkts_le l
  have hlen := honce.length_eq
  rw [length_bdsFrom, List.length_drop] at hlen
  rw [length_arc] at hn hlen
  rw [drop_arc _ hn, show n = l.length - (openPkts l).length by omega,
    Nat.sub_sub_self hopen] at honce
  refine h.anchored_of_perm hfirst ?_ honce
  by_cases hroom : 2 ≤ g.free
  · left
    have htake : l.length ≤ g.free - 2 := by rw [hl]; exact List.length_take_le _ _
    omega
  · right
    rw [hl, take_idle (Or.inr (by omega))]

/-- **What is mapped and not sent is taken back** exactly when the call is refused or `PartialBDPtr`
is in place: behind the last end of packet among the fragments that get a BD there is nothing, or a
fragment that starts a packet of which all fragments must be sent, and no further such fragment. -/
theorem rollback_iff (c : Chan) (hc : Reached c) (hfirst : c.ring.firstBdAddr ≠ 0)
    (htx : c.ring.isRxChannel = false) (hpre : c.ring.preCnt = 0)
    (driverState engineState : DmaState) (thBhIsr : Bool) (bus : ℕ → U32) (pkts : List PktBuf)
    (intrCount : U32) :
    let sent := dmaSendPkt driverState engineState thBhIsr bus pkts c intrCount
    let l := mappedPkts driverState engineState pkts c
    RollbackOk l bus (sendBds driverState engineState thBhIsr bus pkts c intrCount) c sent.1
        sent.2.1 sent.2.2.2 ↔ (Accepted l → Anchored l) := by
  intro sent l
  obtain ⟨g, hparts⟩ := hc.parts
  have hgpre : g.pre = 0 := by rw [← hparts.preCnt, hpre]; rfl
  by_cases hready : driverState = .initialized ∧ engineState = .userAssigned
  · obtain ⟨rfl, rfl⟩ := hready
    have hl : l = pkts.take (g.free - 2) := by
      rw [← hparts.freeCnt]
      rfl
    constructor
    · exact fun hok hyes =>
        hparts.rollback_anchored hfirst hgpre htx thBhIsr bus pkts intrCount hl hyes hok
    · exact fun hanch => hparts.rollback hfirst hgpre htx thBhIsr bus pkts intrCount hl hanch rfl
  · -- The call returns at once.
    have hnot := not_and_or.1 hready
    have hguard : driverState ≠ .initialized ∨ pkts = [] ∨ engineState ≠ .userAssigned ∨
        c.ring.isRxChannel = true := hnot.imp_right fun hstate => Or.inr (Or.inl hstate)
    have hl : l = [] := if_pos hnot
    have hsent : sent = (0, c, intrCount, []) := if_pos hguard
    have hbds : sendBds driverState engineState thBhIsr bus pkts c intrCount = ⟨[], []⟩ :=
      if_pos hguard
    rw [hbds, hsent, hl]
    refine iff_of_true (hparts.rollback_none hgpre bus) fun _ p ps heq => ?_
    cases heq

/-- A fragment that neither starts nor ends a packet. -/
def middleFragment : PktBuf := ⟨0x100, 1, 64, 0x00800000, 7⟩

/-- It is mapped in the first BD, and the recovery unmaps what NULL points at. -/
theorem recovers_null :
    let sent :=
      dmaSendPkt .initialized .userAssigned false (fun _ => 0x8000) [middleFragment] fiveFree 0
    let bds :=
      sendBds .initialized .userAssigned false (fun _ => 0x8000) [middleFragment] fiveFree 0
    Reached fiveFree ∧ fiveFree.ring.isRxChannel = false ∧ fiveFree.ring.preCnt = 0 ∧
      fiveFree.ring.firstBdAddr ≠ 0 ∧
      bds.mapped = [0x1000] ∧ bds.unmapped = [0] ∧ sent.1 = 0 ∧
      sent.2.2.2 = [.map 0x8000 64 .toDevice, .unmap 0 0 .toDevice] ∧
      ¬ RollbackOk [middleFragment] (fun _ => 0x8000) bds fiveFree sent.1 sent.2.1 sent.2.2.2 := by
  have hmapped : (sendBds .initialized .userAssigned false (fun _ => 0x8000) [middleFragment]
      fiveFree 0).unmapped = [0] := by decide +kernel
  refine ⟨fiveFree_reached, rfl, rfl, by decide, by decide +kernel, hmapped, by decide +kernel,
    by decide +kernel, fun hok => ?_⟩
  refine (hok.used 0 (List.mem_append.2 (Or.inr ?_))).1 rfl
  rw [hmapped]
  exact List.mem_cons_self

/-- With start of packet in its flags it is held back and unmapped from its own BD. -/
theorem rollback_iff_started :
    let l : List PktBuf := [⟨0x100, 1, 64, 0x80800000, 7⟩]
    let sent := dmaSendPkt .initialized .userAssigned false (fun _ => 0x8000) l fiveFree 0
    RollbackOk l (fun _ => 0x8000)
      (sendBds .initialized .userAssigned false (fun _ => 0x8000) l fiveFree 0) fiveFree sent.1
      sent.2.1 sent.2.2.2 :=
  (rollback_iff fiveFree fiveFree_reached (by decide) rfl rfl .initialized .userAssigned false
    (fun _ => 0x8000) [⟨0x100, 1, 64, 0x80800000, 7⟩] 0).2 fun _ =>
      Framed.anchored (by decide)

end Dma
