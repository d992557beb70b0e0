import MyDriver.Rawdata.Sguser
import MyDriver.Xdma.Settled

/-!
# Buffer pools and descriptor rings in lock step

The raw data driver on its two engines, in the polled build. The sender (`DmaSetupTransmit`), the
poller (`PktHandler` on either engine) and the engines take turns; a turn is a section under a
lock, a call of `UserPutPkt`, or a write into a BD. The polled build has no interrupt counter, so
the sections are given 0.

The window of a pool is the buffers that have been taken off the ring and not yet returned, then
the buffers of the Hardware group, then those the sender holds (`LockStep`). `Side` is that
statement for one pool and one ring, with what else has to be known of the two; there is one lemma
for each thing that can happen to a side.

* `side_*` — what each turn does to a side.
* `rawStep_inv` — every turn keeps both sides.
* `pools_in_lockStep` — **pools and rings stay in lock step**.
-/

namespace Dma

open Cyclic Runs

/-! ## The system -/

/-- Where the sender is. -/
inductive Sender where
  | idle
  /-- Packets have been taken from the pool. -/
  | taken (pkts : List PktBuf) (origseqno : BitVec 16)
  /-- `DmaSendPkt` has returned `result`. -/
  | sent (pkts : List PktBuf) (origseqno : BitVec 16) (result : ℕ)

/-- Where the poller is. -/
inductive Poller where
  | idle
  /-- Packets are to be given to `UserPutPkt`. -/
  | putTx (pkts : List PktBuf)
  | putRx (pkts : List PktBuf)
  | refillRx

structure RawSys where
  raw : RawData
  tx : Chan
  rx : Chan
  sender : Sender
  poller : Poller

/-- The turns, with what comes from outside: the size of the job, the bus addresses, the memory
as `Dma_BdRingFromHw` finds it, and what the engine writes. -/
inductive RawAct where
  | take (num pktsize : ℕ)
  | send (bus : ℕ → U32)
  | giveBack
  | pollTx (rd : ℕ → Mem)
  | pollRx (rd : ℕ → Mem) (bus : ℕ → U32)
  | put
  | refill (bus : ℕ → U32)
  | engineTx (i : ℕ) (status usrl usrh : U32)
  | engineRx (i : ℕ) (status usrl usrh : U32)

/-- The second locked section of `PktHandler` on the ring for reception. -/
def RawSys.refill (s : RawSys) (bus : ℕ → U32) : RawSys :=
  let done := pktHandlerRefill (rxUser s.raw.handle2) false bus
    { chan := s.rx, intrCount := 0, user := s.raw }
  { s with rx := done.1.chan, raw := done.1.user, poller := .idle }

def rawStep (s : RawSys) : RawAct → Option RawSys
  | .take num pktsize =>
    match s.sender with
    | .idle =>
      let got := setupTransmitTake s.raw.handle0 num pktsize s.raw
      some { s with
        raw := got.2
        sender := match got.1 with
          | none => .idle
          | some (pkts, origseqno) => .taken pkts origseqno }
    | _ => none
  | .send bus =>
    match s.sender with
    | .taken pkts origseqno =>
      let sent := dmaSendPkt .initialized .userAssigned false bus pkts s.tx 0
      some { s with tx := sent.2.1, sender := .sent pkts origseqno sent.1 }
    | _ => none
  | .giveBack =>
    match s.sender with
    | .sent pkts origseqno result =>
      some { s with raw := setupTransmitDone pkts origseqno result s.raw, sender := .idle }
    | _ => none
  | .pollTx rd =>
    match s.poller with
    | .idle =>
      let got := pktHandlerRetrieve rd s.tx
      -- The second section of `PktHandler` does nothing on a ring for transmission.
      some { s with
        tx := got.2.1
        poller := match got.1 with
          | none | some [] => .idle
          | some pkts => .putTx pkts }
    | _ => none
  | .pollRx rd bus =>
    match s.poller with
    | .idle =>
      let got := pktHandlerRetrieve rd s.rx
      let s := { s with rx := got.2.1 }
      match got.1 with
      | none => some s
      -- Without packets the lock is kept until after the refill.
      | some [] => some (s.refill bus)
      | some pkts => some { s with poller := .putRx pkts }
    | _ => none
  | .put =>
    match s.poller with
    | .putTx pkts =>
      some { s with raw := myPutTxPkt s.raw.handle0 s.raw pkts, poller := .idle }
    | .putRx pkts =>
      some { s with raw := myPutRxPkt s.raw.handle2 s.raw pkts, poller := .refillRx }
    | _ => none
  | .refill bus =>
    match s.poller with
    | .refillRx => some (s.refill bus)
    | _ => none
  | .engineTx i status usrl usrh => some { s with tx := engineWrite s.tx i status usrl usrh }
  | .engineRx i status usrl usrh => some { s with rx := engineWrite s.rx i status usrl usrh }

/-- The driver when both engines have just been registered. -/
def registeredSys (txVA rxVA : ℕ → U32) (numTx numRx : ℕ) (handle0 handle2 : U32)
    (txSeqNo : BitVec 16) (tx rx : Chan) : RawSys where
  raw := {
    driverState := .registered
    handle0 := handle0
    handle2 := handle2
    txBufs := initBuffers txVA numTx
    rxBufs := initBuffers rxVA numRx
    txSeqNo := txSeqNo }
  tx := tx
  rx := rx
  sender := .idle
  poller := .idle

/-! ## Lock step -/

/-- The packets taken from the pool and not, or not successfully, queued. -/
def Sender.held : Sender → List PktBuf
  | .idle => []
  | .taken pkts _ => pkts
  | .sent pkts _ result => pkts.drop result

/-- The packets taken off a ring and not yet given to `UserPutPkt`. -/
def Poller.txPkts : Poller → List PktBuf
  | .putTx pkts => pkts
  | _ => []

def Poller.rxPkts : Poller → List PktBuf
  | .putRx pkts => pkts
  | _ => []

def ids (pkts : List PktBuf) : List U32 := pkts.map PktBuf.bufInfo

/-- **The windows of the pools**, from `AllocPtr` on: what has come back from the ring, what is in
the Hardware group, what is not yet queued. -/
structure LockStep (s : RawSys) : Prop where
  tx : window s.raw.txBufs = ids s.poller.txPkts ++ hwIds s.tx ++ ids s.sender.held
  rx : window s.raw.rxBufs = ids s.poller.rxPkts ++ hwIds s.rx

/-- Whenever buffers are freed by count, the ones freed are the ones meant. -/
structure Releases (s : RawSys) : Prop where
  putTx : ∀ pkts, s.poller = .putTx pkts →
    window s.raw.txBufs = ids pkts ++ window (myPutTxPkt s.raw.handle0 s.raw pkts).txBufs
  putRx : ∀ pkts, s.poller = .putRx pkts →
    window s.raw.rxBufs = ids pkts ++ window (myPutRxPkt s.raw.handle2 s.raw pkts).rxBufs
  giveBack : ∀ pkts origseqno result, s.sender = .sent pkts origseqno result →
    window s.raw.txBufs =
      window (setupTransmitDone pkts origseqno result s.raw).txBufs ++ ids (pkts.drop result)

/-! ## One side -/

theorem length_ids (pkts : List PktBuf) : (ids pkts).length = pkts.length := List.length_map _

theorem ids_append (pkts pkts' : List PktBuf) : ids (pkts ++ pkts') = ids pkts ++ ids pkts' :=
  List.map_append

theorem ids_take_append_drop (n : ℕ) (pkts : List PktBuf) :
    ids (pkts.take n) ++ ids (pkts.drop n) = ids pkts := by
  rw [← ids_append, List.take_append_drop]

variable {bufVA : ℕ → U32} {num : ℕ} {isRx : Bool} {b : Buffer} {c : Chan} {g : Split}
  {back held : List PktBuf}

/-- A pool and the ring its buffers go through: `back` has come off the ring, `held` is not yet
queued. -/
structure Side (bufVA : ℕ → U32) (num : ℕ) (isRx : Bool) (b : Buffer) (c : Chan)
    (back held : List PktBuf) (g : Split) : Prop where
  settled : Settled c g
  dir : c.ring.isRxChannel = isRx
  pooled : Pooled bufVA num b
  window : window b = ids back ++ (hwLoads c g).map Load.id ++ ids held
  used : ¬ anyUnused back

theorem Side.le_allocNum (h : Side bufVA num isRx b c back held g) :
    back.length + held.length ≤ b.allocNum := by
  have hlen := congrArg List.length h.window
  simp only [length_window, List.length_append, length_ids] at hlen
  omega

/-- The sender takes buffers. -/
theorem Side.take (h : Side bufVA num isRx b c back [] g) {pkts : List PktBuf} {b' : Buffer}
    (htook : Took bufVA num b pkts b') : Side bufVA num isRx b' c back pkts g where
  settled := h.settled
  dir := h.dir
  pooled := htook.pooled
  window := by
    rw [htook.window, h.window, ids, ids, ids, List.map_nil, List.append_nil]
  used := h.used

/-- `DmaSendPkt` moves packets from the hands of the sender to the ring. -/
theorem Side.send {pkts : List PktBuf} (h : Side bufVA num false b c back pkts g)
    (hwhole : WholePkts pkts) (bus : ℕ → U32) :
    ∃ n c' ic evs g', dmaSendPkt .initialized .userAssigned false bus pkts c 0 =
      (n, c', ic, evs) ∧ n ≤ pkts.length ∧
      Side bufVA num false b c' back (pkts.drop n) g' := by
  obtain ⟨n, c', ic, hle, heq, hn, hs, hbase, -, hloads⟩ :=
    h.settled.sendPkt h.dir false bus pkts 0 (hwhole.1.take _).anchored
  rw [List.length_take] at hn
  refine ⟨n, c', ic, _, _, heq, by omega, hs, ?_, h.pooled, ?_, h.used⟩
  · rw [isRx_congr (block_of_base hbase), h.dir]
  · have hsent : (sentLoads false 0 bus (pkts.take n)).map Load.id = ids (pkts.take n) :=
      map_id_mapIdx (fun _ _ => rfl) _
    rw [h.window, hloads, List.map_append, hsent, ← ids_take_append_drop n pkts]
    simp only [List.append_assoc]

/-- The sender gives its surplus back. -/
theorem Side.giveBack (h : Side bufVA num isRx b c back held g) :
    Side bufVA num isRx (freeUnusedBuf held.length b) c back [] g ∧
      Dma.window b = Dma.window (freeUnusedBuf held.length b) ++ ids held := by
  have hle := h.le_allocNum
  obtain ⟨hpooled, hw⟩ := h.pooled.freeUnusedBuf (k := held.length) (by omega)
  have hw' : Dma.window (freeUnusedBuf held.length b) =
      ids back ++ (hwLoads c g).map Load.id := by
    rw [hw, ← length_window, h.window, List.length_append, length_ids held, Nat.add_sub_cancel,
      List.take_left]
  refine ⟨⟨h.settled, h.dir, hpooled, ?_, h.used⟩, ?_⟩
  · rw [hw']
    exact (List.append_nil _).symm
  · rw [hw', h.window]

/-- `PktHandler` takes packets off the ring. -/
theorem Side.retrieve (h : Side bufVA num isRx b c back held g) (rd : ℕ → Mem) :
    ∃ pkts c' evs g', pktHandlerRetrieve rd c = (some pkts, c', evs) ∧
      Side bufVA num isRx b c' (back ++ pkts) held g' := by
  obtain ⟨k, pkts, c', evs, hk, heq, hs, hbase, -, hpkts, -, -, -, hids, hloads⟩ :=
    h.settled.retrieve rd
  refine ⟨pkts, c', evs, _, heq, hs, ?_, h.pooled, ?_, ?_⟩
  · rw [isRx_congr (block_of_base hbase), h.dir]
  · have hids' : ids pkts = ((hwLoads c g).take k).map Load.id := hids
    have hall : ids pkts ++ ((hwLoads c g).drop k).map Load.id = (hwLoads c g).map Load.id := by
      rw [hids', ← List.map_append, List.take_append_drop]
    rw [h.window, hloads, ← hall, ids_append]
    simp only [List.append_assoc]
  · rintro ⟨p, hp, hflag⟩
    rcases List.mem_append.1 hp with hp | hp
    · exact h.used ⟨p, hp, hflag⟩
    · rw [hpkts] at hp
      obtain ⟨i, -, rfl⟩ := mem_arc.1 hp
      exact retrieved_used _ hflag

/-- `UserPutPkt` returns those to the pool that came off the ring first. -/
theorem Side.putFirst {rest : List PktBuf} (h : Side bufVA num isRx b c (back ++ rest) held g) :
    Side bufVA num isRx (putBufs back b) c rest held g ∧
      Dma.window b = ids back ++ Dma.window (putBufs back b) := by
  have hle := h.le_allocNum
  rw [List.length_append] at hle
  have hused : ¬ anyUnused back := fun ⟨p, hp, hflag⟩ =>
    h.used ⟨p, List.mem_append_left _ hp, hflag⟩
  rw [putBufs, if_neg hused]
  obtain ⟨hpooled, hw⟩ := h.pooled.freeUsedBuf (k := back.length) (by omega)
  have hw' : Dma.window (freeUsedBuf back.length b) =
      ids rest ++ (hwLoads c g).map Load.id ++ ids held := by
    rw [hw, h.window, ids_append, List.append_assoc, List.append_assoc, ← length_ids back,
      List.drop_left, List.append_assoc]
  refine ⟨⟨h.settled, h.dir, hpooled, hw', fun ⟨p, hp, hflag⟩ =>
    h.used ⟨p, List.mem_append_right _ hp, hflag⟩⟩, ?_⟩
  rw [hw', h.window, ids_append]
  simp only [List.append_assoc]

/-- `UserPutPkt` returns them to the pool. -/
theorem Side.put (h : Side bufVA num isRx b c back held g) :
    Side bufVA num isRx (putBufs back b) c [] held g ∧
      Dma.window b = ids back ++ Dma.window (putBufs back b) :=
  Side.putFirst (by rwa [List.append_nil])

theorem Side.engineWrite (h : Side bufVA num isRx b c back held g) (i : ℕ)
    (status usrl usrh : U32) :
    Side bufVA num isRx b (engineWrite c i status usrl usrh) back held g := by
  obtain ⟨hs, hloads⟩ := h.settled.engineWrite i status usrl usrh
  exact ⟨hs, h.dir, h.pooled, by rw [hloads, h.window], h.used⟩

/-- What a refill may change of the raw data driver. -/
structure RxSide (raw : RawData) (bufVA : ℕ → U32) (num : ℕ) (back : List PktBuf)
    (d : Dev RawData) (g : Split) : Prop where
  same : d.user = { raw with rxBufs := d.user.rxBufs }
  side : Side bufVA num true d.user.rxBufs d.chan back [] g

/-- A pass of `DmaSetupRecvBuffers` on the pool for reception. -/
theorem RxSide.pass {raw : RawData} {d : Dev RawData} (hreg : raw.driverState = .registered)
    (h : RxSide raw bufVA num back d g) {thBhIsr : Bool} {bus : ℕ → U32} {freeBdCount : ℕ}
    (hfree : freeBdCount + 2 ≤ g.free) {p : RecvPass RawData} {g' : Split}
    (hout : RecvOutcome (rxUser raw.handle2) thBhIsr bus freeBdCount d g p g') :
    RxSide raw bufVA num back p.dev g' := by
  obtain ⟨hsame, hside⟩ := h
  have hget : (rxUser raw.handle2).getPkt d.user freeBdCount =
      ((getRxLoop freeBdCount d.user.rxBufs).1,
        { raw with rxBufs := (getRxLoop freeBdCount d.user.rxBufs).2 }) := by
    show myGetRxPkt raw.handle2 d.user freeBdCount = _
    rw [myGetRxPkt, hsame, if_neg (by simp [hreg])]
  have htook := getRxLoop_took freeBdCount hside.pooled
  obtain ⟨hs, hbase⟩ := hout.settled hside.settled hfree
  have hdir : p.dev.chan.ring.isRxChannel = true := by
    rw [isRx_congr (block_of_base hbase), hside.dir]
  cases hout with
  | nothing hgot =>
    rw [hget] at hgot ⊢
    dsimp only at hgot
    rw [hgot] at htook
    exact ⟨rfl, hside.take htook⟩
  | queued pkts u c intrCount hn hgot hne hparts hbase hloads hgrown =>
    rw [hget, Prod.mk.injEq] at hgot
    obtain ⟨rfl, rfl⟩ := hgot
    refine ⟨rfl, hs, hdir, htook.pooled, ?_, hside.used⟩
    have hids : (recvLoads thBhIsr d.intrCount bus (getRxLoop freeBdCount d.user.rxBufs).1).map
        Load.id = ids (getRxLoop freeBdCount d.user.rxBufs).1 := map_id_mapIdx (fun _ _ => rfl) _
    rw [htook.window, hside.window, hloads, List.map_append, hids]
    simp only [ids, List.map_nil, List.append_nil, List.append_assoc]
  | refused pkts u c intrCount hgot hne hlen hparts hbase hloads hgrown =>
    -- The buffers of the pool have a length.
    rw [hget, Prod.mk.injEq] at hgot
    obtain ⟨rfl, rfl⟩ := hgot
    obtain ⟨p, hp, hzero⟩ := hlen
    rw [getRxLoop_size _ _ p hp] at hzero
    exact absurd hzero (by decide)

/-- **The refill.** -/
theorem Side.refill {d : Dev RawData} (h : Side bufVA num true d.user.rxBufs d.chan back [] g)
    (hreg : d.user.driverState = .registered) (thBhIsr : Bool) (bus : ℕ → U32) :
    ∃ g', RxSide d.user bufVA num back
      (pktHandlerRefill (rxUser d.user.handle2) thBhIsr bus d).1 g' := by
  rw [pktHandlerRefill, if_pos h.dir]
  obtain ⟨g', -, -, hrx⟩ := Settled.setupRecv (rxUser d.user.handle2) thBhIsr
    (P := fun d' g _ => RxSide d.user bufVA num back d' g)
    (fun d' g evs bus freeBdCount p g' _ hfree hP hout => hP.pass hreg hfree hout)
    h.settled h.dir bus ⟨rfl, h⟩
  exact ⟨g', hrx⟩

/-! ## The run -/

/-- What the sender knows. -/
def Sender.Sound : Sender → Prop
  | .idle => True
  | .taken pkts _ => WholePkts pkts
  | .sent pkts _ result => result ≤ pkts.length

/-- **The invariant**: two sides. -/
structure RawInv (txVA rxVA : ℕ → U32) (numTx numRx : ℕ) (s : RawSys) : Prop where
  registered : s.raw.driverState = .registered
  sender : s.sender.Sound
  tx : ∃ g, Side txVA numTx false s.raw.txBufs s.tx s.poller.txPkts s.sender.held g
  rx : ∃ g, Side rxVA numRx true s.raw.rxBufs s.rx s.poller.rxPkts [] g

variable {txVA rxVA : ℕ → U32} {numTx numRx : ℕ} {s s' : RawSys}

theorem RawInv.lockStep (h : RawInv txVA rxVA numTx numRx s) : LockStep s := by
  obtain ⟨-, -, ⟨g, htx⟩, ⟨g', hrx⟩⟩ := h
  constructor
  · rw [htx.settled.parts.hwIds_eq, htx.window]
  · rw [hrx.settled.parts.hwIds_eq, hrx.window]
    exact List.append_nil _

theorem myPutTxPkt_eq {raw : RawData} (hreg : raw.driverState = .registered)
    (pkts : List PktBuf) :
    myPutTxPkt raw.handle0 raw pkts = { raw with txBufs := putBufs pkts raw.txBufs } := by
  rw [myPutTxPkt, if_neg (by simp [hreg])]

theorem myPutRxPkt_eq {raw : RawData} (hreg : raw.driverState = .registered)
    (pkts : List PktBuf) :
    myPutRxPkt raw.handle2 raw pkts = { raw with rxBufs := putBufs pkts raw.rxBufs } := by
  rw [myPutRxPkt, if_neg (by simp [hreg])]

/-- When everything was sent, nothing is given back. -/
theorem setupTransmitDone_txBufs (pkts : List PktBuf) (origseqno : BitVec 16) (result : ℕ)
    (raw : RawData) : (setupTransmitDone pkts origseqno result raw).txBufs =
      freeUnusedBuf (pkts.drop result).length raw.txBufs := by
  rw [setupTransmitDone, List.length_drop]
  by_cases hall : result = pkts.length
  · rw [if_pos hall, hall, Nat.sub_self]
    rfl
  · rw [if_neg hall]

theorem setupTransmitDone_rest (pkts : List PktBuf) (origseqno : BitVec 16) (result : ℕ)
    (raw : RawData) :
    (setupTransmitDone pkts origseqno result raw).driverState = raw.driverState ∧
    (setupTransmitDone pkts origseqno result raw).rxBufs = raw.rxBufs := by
  rw [setupTransmitDone]
  by_cases hall : result = pkts.length
  · rw [if_pos hall]
    exact ⟨rfl, rfl⟩
  · rw [if_neg hall]
    exact ⟨rfl, rfl⟩

theorem RawInv.releases (h : RawInv txVA rxVA numTx numRx s) : Releases s := by
  obtain ⟨hreg, -, ⟨g, htx⟩, ⟨g', hrx⟩⟩ := h
  constructor
  · intro pkts hp
    rw [hp] at htx
    rw [myPutTxPkt_eq hreg]
    exact htx.put.2
  · intro pkts hp
    rw [hp] at hrx
    rw [myPutRxPkt_eq hreg]
    exact hrx.put.2
  · intro pkts origseqno result hs
    rw [hs] at htx
    rw [setupTransmitDone_txBufs]
    exact htx.giveBack.2

/-- `DmaSetupTransmit` takes its buffers. -/
theorem RawInv.take (h : RawInv txVA rxVA numTx numRx s) {num pktsize : ℕ}
    (hidle : s.sender = .idle) (hstep : rawStep s (.take num pktsize) = some s') :
    RawInv txVA rxVA numTx numRx s' := by
  obtain ⟨hreg, -, ⟨g, htx⟩, hrx⟩ := h
  rw [hidle] at htx
  rw [rawStep, hidle, setupTransmitTake] at hstep
  dsimp only at hstep
  rw [Option.some.injEq] at hstep
  subst hstep
  obtain ⟨ps, b', hpacks, heq⟩ := packetLoop_packs pktsize num s.raw.txBufs s.raw.txSeqNo
  obtain ⟨htook, hwhole⟩ := hpacks.spec htx.pooled
  have hside := htx.take htook
  by_cases hstop : s.raw.driverState ≠ .registered ∨ s.raw.handle0 ≠ s.raw.handle0 ∨ num = 0
  · rw [if_pos hstop]
    exact ⟨hreg, trivial, ⟨g, htx⟩, hrx⟩
  · rw [if_neg hstop, heq]
    dsimp only
    by_cases hzero : ps.length = 0
    · rw [List.length_eq_zero_iff.1 hzero] at hside ⊢
      exact ⟨hreg, trivial, ⟨g, hside⟩, hrx⟩
    · rw [if_neg hzero]
      exact ⟨hreg, hwhole, ⟨g, hside⟩, hrx⟩

/-- `PktHandler` takes packets for transmission off the ring. -/
theorem RawInv.pollTx (h : RawInv txVA rxVA numTx numRx s) {rd : ℕ → Mem}
    (hidle : s.poller = .idle) (hstep : rawStep s (.pollTx rd) = some s') :
    RawInv txVA rxVA numTx numRx s' := by
  obtain ⟨hreg, hsound, ⟨g, htx⟩, hrx⟩ := h
  rw [hidle] at htx hrx
  obtain ⟨pkts, c', evs, g', heq, hside⟩ := htx.retrieve rd
  rw [rawStep, hidle] at hstep
  dsimp only at hstep
  rw [heq, Option.some.injEq] at hstep
  subst hstep
  cases pkts with
  | nil => exact ⟨hreg, hsound, ⟨g', hside⟩, hrx⟩
  | cons p ps => exact ⟨hreg, hsound, ⟨g', hside⟩, hrx⟩

theorem RawInv.refill (h : RawInv txVA rxVA numTx numRx s) (hput : s.poller.rxPkts = [])
    (htx : s.poller.txPkts = []) (bus : ℕ → U32) :
    RawInv txVA rxVA numTx numRx (s.refill bus) := by
  obtain ⟨hreg, hsound, htx', ⟨g, hrx⟩⟩ := h
  rw [hput] at hrx
  rw [htx] at htx'
  obtain ⟨g', hsame, hside⟩ := Side.refill (d := { chan := s.rx, intrCount := 0, user := s.raw })
    hrx hreg false bus
  rw [RawSys.refill, hsame]
  exact ⟨hreg, hsound, htx', ⟨g', hside⟩⟩

theorem RawInv.pollRx (h : RawInv txVA rxVA numTx numRx s) {rd : ℕ → Mem} {bus : ℕ → U32}
    (hidle : s.poller = .idle) (hstep : rawStep s (.pollRx rd bus) = some s') :
    RawInv txVA rxVA numTx numRx s' := by
  obtain ⟨hreg, hsound, htx, ⟨g, hrx⟩⟩ := h
  rw [hidle] at htx hrx
  obtain ⟨pkts, c', evs, g', heq, hside⟩ := hrx.retrieve rd
  rw [rawStep, hidle] at hstep
  dsimp only at hstep
  rw [heq] at hstep
  cases pkts with
  | nil =>
    rw [Option.some.injEq] at hstep
    subst hstep
    exact RawInv.refill (s := { s with rx := c' }) ⟨hreg, hsound, by rw [hidle]; exact htx,
      ⟨g', by rw [hidle]; exact hside⟩⟩ (by rw [hidle]; rfl) (by rw [hidle]; rfl) bus
  | cons p ps =>
    rw [Option.some.injEq] at hstep
    subst hstep
    exact ⟨hreg, hsound, htx, ⟨g', hside⟩⟩

/-- **One turn.** -/
theorem rawStep_inv {a : RawAct} (h : RawInv txVA rxVA numTx numRx s)
    (hstep : rawStep s a = some s') : RawInv txVA rxVA numTx numRx s' := by
  cases a with
  | take num pktsize =>
    cases hsender : s.sender with
    | idle => exact h.take hsender hstep
    | taken => simp [rawStep, hsender] at hstep
    | sent => simp [rawStep, hsender] at hstep
  | send bus =>
    cases hsender : s.sender with
    | idle => simp [rawStep, hsender] at hstep
    | sent => simp [rawStep, hsender] at hstep
    | taken pkts origseqno =>
      obtain ⟨hreg, hsound, ⟨g, htx⟩, hrx⟩ := h
      rw [hsender] at hsound htx
      have hheld : Side txVA numTx false s.raw.txBufs s.tx s.poller.txPkts pkts g := htx
      obtain ⟨n, c', ic, evs, g', heq, hn, hside⟩ := hheld.send hsound bus
      rw [rawStep, hsender] at hstep
      dsimp only at hstep
      rw [heq, Option.some.injEq] at hstep
      subst hstep
      exact ⟨hreg, hn, ⟨g', hside⟩, hrx⟩
  | giveBack =>
    cases hsender : s.sender with
    | idle => simp [rawStep, hsender] at hstep
    | taken => simp [rawStep, hsender] at hstep
    | sent pkts origseqno result =>
      obtain ⟨hreg, hsound, ⟨g, htx⟩, hrx⟩ := h
      rw [hsender] at htx
      obtain ⟨hreg', hrx'⟩ := setupTransmitDone_rest pkts origseqno result s.raw
      rw [rawStep, hsender] at hstep
      dsimp only at hstep
      rw [Option.some.injEq] at hstep
      subst hstep
      refine ⟨hreg'.trans hreg, trivial, ⟨g, ?_⟩, ?_⟩
      · rw [setupTransmitDone_txBufs]
        exact htx.giveBack.1
      · rw [hrx']
        exact hrx
  | pollTx rd =>
    cases hpoller : s.poller with
    | idle => exact h.pollTx hpoller hstep
    | putTx => simp [rawStep, hpoller] at hstep
    | putRx => simp [rawStep, hpoller] at hstep
    | refillRx => simp [rawStep, hpoller] at hstep
  | pollRx rd bus =>
    cases hpoller : s.poller with
    | idle => exact h.pollRx hpoller hstep
    | putTx => simp [rawStep, hpoller] at hstep
    | putRx => simp [rawStep, hpoller] at hstep
    | refillRx => simp [rawStep, hpoller] at hstep
  | put =>
    obtain ⟨hreg, hsound, ⟨g, htx⟩, ⟨g', hrx⟩⟩ := h
    cases hpoller : s.poller with
    | idle => simp [rawStep, hpoller] at hstep
    | refillRx => simp [rawStep, hpoller] at hstep
    | putTx pkts =>
      rw [hpoller] at htx hrx
      rw [rawStep, hpoller] at hstep
      dsimp only at hstep
      rw [myPutTxPkt_eq hreg, Option.some.injEq] at hstep
      subst hstep
      exact ⟨hreg, hsound, ⟨g, htx.put.1⟩, ⟨g', hrx⟩⟩
    | putRx pkts =>
      rw [hpoller] at htx hrx
      rw [rawStep, hpoller] at hstep
      dsimp only at hstep
      rw [myPutRxPkt_eq hreg, Option.some.injEq] at hstep
      subst hstep
      exact ⟨hreg, hsound, ⟨g, htx⟩, ⟨g', hrx.put.1⟩⟩
  | refill bus =>
    cases hpoller : s.poller with
    | idle => simp [rawStep, hpoller] at hstep
    | putTx => simp [rawStep, hpoller] at hstep
    | putRx => simp [rawStep, hpoller] at hstep
    | refillRx =>
      rw [rawStep, hpoller, Option.some.injEq] at hstep
      subst hstep
      exact h.refill (by rw [hpoller]; rfl) (by rw [hpoller]; rfl) bus
  | engineTx i status usrl usrh =>
    rw [rawStep, Option.some.injEq] at hstep
    subst hstep
    obtain ⟨hreg, hsound, ⟨g, htx⟩, hrx⟩ := h
    exact ⟨hreg, hsound, ⟨g, htx.engineWrite i status usrl usrh⟩, hrx⟩
  | engineRx i status usrl usrh =>
    rw [rawStep, Option.some.injEq] at hstep
    subst hstep
    obtain ⟨hreg, hsound, htx, ⟨g, hrx⟩⟩ := h
    exact ⟨hreg, hsound, htx, ⟨g, hrx.engineWrite i status usrl usrh⟩⟩

/-- A new pool and a started ring. -/
theorem Started.side (h : Started isRx c) (bufVA : ℕ → U32) (num : ℕ) :
    ∃ g, Side bufVA num isRx (initBuffers bufVA num) c [] [] g := by
  obtain ⟨g, hs, hhw, hdir⟩ := h.settled
  refine ⟨g, hs, hdir, initBuffers_pooled bufVA num, ?_, ?_⟩
  · rw [hwLoads, hhw]
    rfl
  · rintro ⟨p, hp, -⟩
    cases hp

/-- **Pools and rings stay in lock step.** No buffer is attached to two BDs, and none is lost: a
page that is not in a window is one that the pool will hand out. -/
theorem pools_in_lockStep (txVA rxVA : ℕ → U32) (numTx numRx : ℕ) (handle0 handle2 : U32)
    (txSeqNo : BitVec 16) (tx rx : Chan) (htx : Started false tx) (hrx : Started true rx)
    (hpages : (pages txVA numTx ++ pages rxVA numRx).Nodup) (acts : List RawAct) (s : RawSys)
    (hrun : run rawStep (registeredSys txVA rxVA numTx numRx handle0 handle2 txSeqNo tx rx) acts =
      some s) :
    LockStep s ∧ Releases s ∧ (hwIds s.tx ++ hwIds s.rx).Nodup ∧
      (window s.raw.txBufs ++ freeBufs s.raw.txBufs).Perm (pages txVA numTx) ∧
      (window s.raw.rxBufs ++ freeBufs s.raw.rxBufs).Perm (pages rxVA numRx) := by
  have hinv : RawInv txVA rxVA numTx numRx s := by
    refine run_inv' (fun s a s' h hstep => rawStep_inv h hstep) ?_ hrun
    exact ⟨rfl, trivial, htx.side txVA numTx, hrx.side rxVA numRx⟩
  have hlock := hinv.lockStep
  obtain ⟨-, -, ⟨g, hsideTx⟩, ⟨g', hsideRx⟩⟩ := id hinv
  have hpermTx := hsideTx.pooled.perm (List.nodup_append.1 hpages).1
  have hpermRx := hsideRx.pooled.perm (List.nodup_append.1 hpages).2.1
  refine ⟨hlock, hinv.releases, ?_, hpermTx, hpermRx⟩
  have hall := ((hpermTx.append hpermRx).nodup_iff).2 hpages
  refine hall.sublist (List.Sublist.append ?_ ?_)
  · rw [hlock.tx, List.append_assoc, List.append_assoc]
    exact (List.sublist_append_left _ _).trans (List.sublist_append_right _ _)
  · rw [hlock.rx, List.append_assoc]
    exact (List.sublist_append_left _ _).trans (List.sublist_append_right _ _)

/-- One packet is sent and comes back while the ring for reception is filled. -/
def oneRound : List RawAct :=
  [.take 1 100, .pollRx (fun _ _ => 0) fun _ => 0x5000, .send fun _ => 0x4000,
    .engineTx 0 0x01000064 0 0, .pollTx fun _ _ => 0xFFFFFFFF, .put, .giveBack]

theorem pools_in_lockStep_oneRound : ∃ s,
    run rawStep (registeredSys (fun i => BitVec.ofNat 32 (0x10000 + 0x1000 * i))
      (fun i => BitVec.ofNat 32 (0x20000 + 0x1000 * i)) 2 2 7 9 0
      (bdRingStart (bdRingCreate (initializedChan false fun _ => 0) 0 0x1000 64 4).2).2
      (bdRingStart (bdRingCreate (initializedChan true fun _ => 0) 0 0x2000 64 4).2).2) oneRound =
        some s ∧
    LockStep s ∧ Releases s ∧ (hwIds s.tx ++ hwIds s.rx).Nodup ∧
      (window s.raw.txBufs ++ freeBufs s.raw.txBufs).Perm
        (pages (fun i => BitVec.ofNat 32 (0x10000 + 0x1000 * i)) 2) ∧
      (window s.raw.rxBufs ++ freeBufs s.raw.rxBufs).Perm
        (pages (fun i => BitVec.ofNat 32 (0x20000 + 0x1000 * i)) 2) :=
  ⟨_, rfl, pools_in_lockStep (fun i => BitVec.ofNat 32 (0x10000 + 0x1000 * i))
    (fun i => BitVec.ofNat 32 (0x20000 + 0x1000 * i)) 2 2 7 9 0 _ _
    ⟨initializedChan false fun _ => 0, 0, 0x1000, 64, 4, rfl, by decide, by decide, rfl⟩
    ⟨initializedChan true fun _ => 0, 0, 0x2000, 64, 4, rfl, by decide, by decide, rfl⟩
    (by decide) oneRound _ rfl⟩

end Dma
