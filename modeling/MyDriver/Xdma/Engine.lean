import MyDriver.Xdma.RingMem

/-!
# The driver on one engine: `xdma_user.c` and `xdma_base.c`

The functions that put packets on a ring and take them off again, cut into the sections that run
under `DmaLock`, and `DmaSendPkt` and `DmaSetupRecvBuffers` further into what happens before, in and
after their call of `Dma_BdRingToHw`, because the engine runs between these parts.

What is outside the driver is a parameter: `bus i` is what the `i`-th `pci_map_single` of a call
returns, `UserPtrs` holds the callbacks of the user driver over a state of its own. Each section
returns the calls it made as a list of `Ev`. `thBhIsr` is the build switch `TH_BH_ISR`.
-/

namespace Dma

/-- Driver and engine states of `xdma_user.h`. -/
inductive DmaState where
  | uninitialized
  | initialized
  | userAssigned
  | unregistering
deriving DecidableEq, Repr

/-! ## Packets and callbacks -/

def pktUnused : U32 := 0x00004000
def pktAll : U32 := 0x00800000

/-- `DMA_BD_CNT` -/
def dmaBdCnt : U32 := 3999

/-- `INT_COAL_CNT` -/
def intCoalCnt : U32 := 16

structure PktBuf where
  pktBuf : U32
  bufInfo : U32
  size : U32
  flags : U32
  userInfo : BitVec 64
deriving DecidableEq, Inhabited

inductive DmaDirection where
  | toDevice
  | fromDevice
deriving DecidableEq, Repr

/-- The calls a section makes to the kernel's mapping interface and to the user driver. -/
inductive Ev where
  | map (bus len : U32) (dir : DmaDirection)
  | unmap (bus len : U32) (dir : DmaDirection)
  | getPkt (pkts : List PktBuf)
  | putPkt (pkts : List PktBuf)
deriving DecidableEq

/-- The callbacks of a user driver that this part of the driver uses, over the state `υ` of the
user driver. `UserGetPkt` returns at most as many packets as it is asked for. -/
structure UserPtrs (υ : Type) where
  getPkt : υ → ℕ → List PktBuf × υ
  putPkt : υ → List PktBuf → υ
  getPkt_le : ∀ u num, (getPkt u num).1.length ≤ num

/-- The flag a section passes to the mapping interface. -/
def dirOf (r : BdRing) : DmaDirection := if r.isRxChannel then .fromDevice else .toDevice

/-! ## Loops over BDs -/

/-- A loop that reads something of each BD and clears its ID. -/
def takeLoop {β : Type} (r : BdRing) (read : Mem → U32 → β) : ℕ → Mem → U32 → List β × Mem
  | 0, m, _ => ([], m)
  | k + 1, m, cur =>
    let rest := takeLoop r read k (bdSetId m cur 0) (bdRingNext r cur)
    (read m cur :: rest.1, rest.2)

/-- What the recovery loops of `DmaSendPkt` and `DmaSetupRecvBuffers` do with a BD. -/
def recoverBd (dir : DmaDirection) (m : Mem) (cur : U32) : Ev :=
  .unmap (bdGetBufAddr m cur) (bdGetCtrlLength m cur) dir

/-- Interrupt flags of a new BD: errors always, completion on every 16th. -/
def intFlags (intrCount : U32) : U32 :=
  bdIntErrorMask ||| if intrCount % intCoalCnt = 0 then bdIntCompMask else 0

/-! ## `DmaSendPkt` -/

/-- The `flags` computed from `uflags`. -/
def sendFlags (uflags : U32) : U32 :=
  (if Flag uflags bdSopMask then bdSopMask else 0) |||
    if Flag uflags bdEopMask then bdEopMask else 0

/-- What a pass of the loop of `DmaSendPkt` writes into its BD. -/
def sendBd (thBhIsr : Bool) (intrCount bufPA : U32) (pbuf : PktBuf) (m : Mem) (cur : U32) : Mem :=
  let m := bdSetBufAddr m cur bufPA
  let m := bdSetCtrlLength m cur pbuf.size
  let m := bdSetStatLength m cur pbuf.size
  let m := bdSetId m cur pbuf.bufInfo
  let flags := sendFlags pbuf.flags
  let m := bdSetCtrl m cur flags
  let m := bdSetUserData m cur pbuf.userInfo
  if thBhIsr then bdSetCtrl m cur (flags ||| intFlags intrCount) else m

/-- The variables of `DmaSendPkt` that its loop changes. -/
structure SendVars where
  partialBDcount : ℕ
  partialOK : Bool
  partialBDPtr : U32
deriving DecidableEq

def SendVars.pass (s : SendVars) (cur uflags : U32) : SendVars :=
  let s := if Flag uflags bdSopMask then
      if Flag uflags pktAll then { s with partialOK := false, partialBDPtr := cur }
      else { s with partialOK := true }
    else s
  if Flag uflags bdEopMask then { s with partialBDcount := 0 }
  else { s with partialBDcount := s.partialBDcount + 1 }

def sendVars (r : BdRing) : List PktBuf → U32 → SendVars → SendVars
  | [], _, s => s
  | pbuf :: pkts, cur, s => sendVars r pkts (bdRingNext r cur) (s.pass cur pbuf.flags)

/-- What `DmaSendPkt` has in hand when it calls `Dma_BdRingToHw`. -/
structure Sending where
  numpkts : ℕ
  bdPtr : U32
  vars : SendVars
deriving DecidableEq

/-- The maps of a fill loop. -/
def mapEvs (dir : DmaDirection) (bus : ℕ → U32) (pkts : List PktBuf) : List Ev :=
  pkts.mapIdx fun i pbuf => .map (bus i) pbuf.size dir

/-- `DmaSendPkt` up to its call of `Dma_BdRingToHw`; `none` when it returns 0 before that. -/
def sendFill (thBhIsr : Bool) (bus : ℕ → U32) (pkts : List PktBuf) (c : Chan) (intrCount : U32) :
    Option (Sending × Chan × U32 × List Ev) :=
  let freeBdCount := c.ring.freeCnt.toNat
  if freeBdCount ≤ 2 then none
  else
    let numpkts := min pkts.length (freeBdCount - 2)
    let pkts := pkts.take numpkts
    match bdRingAlloc c.ring (BitVec.ofNat 32 numpkts) with
    | .error _ => none
    | .ok (bdPtr, r) =>
      some ({ numpkts := numpkts, bdPtr := bdPtr
              vars := sendVars r pkts bdPtr
                { partialBDcount := 0, partialOK := false, partialBDPtr := 0 } },
        { c with
          ring := r
          mem := walkBds r (fun i => sendBd thBhIsr (intrCount + BitVec.ofNat 32 i) (bus i)
            (pkts.getD i default)) numpkts c.mem bdPtr },
        if thBhIsr then intrCount + BitVec.ofNat 32 numpkts else intrCount,
        mapEvs .toDevice bus pkts)

/-- The call of `Dma_BdRingToHw` in `DmaSendPkt`. -/
def sendSubmit (s : Sending) (c : Chan) : XStatus × Chan :=
  bdRingToHw c (BitVec.ofNat 32 (s.numpkts - s.vars.partialBDcount)) s.bdPtr

/-- Unmap and give back `count` BDs from `bdPtr` on. -/
def recoverBds (dir : DmaDirection) (count : ℕ) (bdPtr : U32) (c : Chan) : Chan × List Ev :=
  let taken := takeLoop c.ring (recoverBd dir) count c.mem bdPtr
  ({ c with
     mem := taken.2
     ring := match bdRingUnAlloc c.ring (BitVec.ofNat 32 count) with
       | .ok r => r
       | .error _ => c.ring }, taken.1)

/-- `DmaSendPkt` from the result of `Dma_BdRingToHw` on, with its return value. -/
def sendFinish (s : Sending) (result : XStatus) (c : Chan) : ℕ × Chan × List Ev :=
  if result ≠ .success then
    let done := recoverBds .toDevice s.numpkts s.bdPtr c
    (0, done.1, done.2)
  else if s.vars.partialBDcount ≠ 0 then
    let done := recoverBds .toDevice s.vars.partialBDcount s.vars.partialBDPtr c
    (s.numpkts - s.vars.partialBDcount, done.1, done.2)
  else (s.numpkts, c, [])

/-- `DmaSendPkt` as a whole: its result, the ring, the interrupt counter and the calls made. -/
def dmaSendPkt (driverState engineState : DmaState) (thBhIsr : Bool) (bus : ℕ → U32)
    (pkts : List PktBuf) (c : Chan) (intrCount : U32) : ℕ × Chan × U32 × List Ev :=
  if driverState ≠ .initialized ∨ pkts = [] ∨ engineState ≠ .userAssigned ∨
      c.ring.isRxChannel = true then (0, c, intrCount, [])
  else
    match sendFill thBhIsr bus pkts c intrCount with
    | none => (0, c, intrCount, [])
    | some (s, c, intrCount, maps) =>
      let toHw := sendSubmit s c
      let done := sendFinish s toHw.1 toHw.2
      (done.1, done.2.1, intrCount, maps ++ done.2.2)

/-! ## `DmaSetupRecvBuffers` -/

/-- What a pass of the loop of `DmaSetupRecvBuffers` writes into its BD. -/
def recvBd (thBhIsr : Bool) (intrCount bufPA : U32) (pbuf : PktBuf) (m : Mem) (cur : U32) : Mem :=
  let m := bdSetBufAddr m cur bufPA
  let m := bdSetCtrlLength m cur pbuf.size
  let m := bdSetId m cur pbuf.bufInfo
  let m := bdSetCtrl m cur 0
  let m := bdSetUserData m cur 0
  if thBhIsr then bdSetCtrl m cur (intFlags intrCount) else m

/-- One pass of the outer loop from the packets the user has given up to `Dma_BdRingToHw`; `none`
when `Dma_BdRingAlloc` fails. -/
def recvFill (thBhIsr : Bool) (bus : ℕ → U32) (pkts : List PktBuf) (c : Chan) (intrCount : U32) :
    Option (U32 × Chan × U32 × List Ev) :=
  let numgot := pkts.length
  match bdRingAlloc c.ring (BitVec.ofNat 32 numgot) with
  | .error _ => none
  | .ok (bdPtr, r) =>
    some (bdPtr,
      { c with
        ring := r
        mem := walkBds r (fun i => recvBd thBhIsr (intrCount + BitVec.ofNat 32 i) (bus i)
          (pkts.getD i default)) numgot c.mem bdPtr },
      if thBhIsr then intrCount + BitVec.ofNat 32 numgot else intrCount,
      mapEvs .fromDevice bus pkts)

/-- The packets as `PutUnusedPkts` returns them. -/
def unusedPkts (pkts : List PktBuf) : List PktBuf := pkts.map fun p => { p with flags := pktUnused }

/-- What a section sees: the ring, the interrupt counter of the engine and the user driver. -/
structure Dev (υ : Type) where
  chan : Chan
  intrCount : U32
  user : υ

/-- What one pass of the outer loop of `DmaSetupRecvBuffers` leaves: whether it ended without
`break`, how many packets it got, and the rest. -/
structure RecvPass (υ : Type) where
  goesOn : Bool
  numgot : ℕ
  dev : Dev υ
  evs : List Ev

/-- One pass of the outer loop of `DmaSetupRecvBuffers`. -/
def recvPass {υ : Type} (user : UserPtrs υ) (thBhIsr : Bool) (bus : ℕ → U32) (freeBdCount : ℕ)
    (d : Dev υ) : RecvPass υ :=
  let got := user.getPkt d.user freeBdCount
  let numgot := got.1.length
  let d := { d with user := got.2 }
  let putUnused (d : Dev υ) : Dev υ := { d with user := user.putPkt d.user (unusedPkts got.1) }
  if numgot = 0 then { goesOn := false, numgot := 0, dev := d, evs := [.getPkt got.1] }
  else
    match recvFill thBhIsr bus got.1 d.chan d.intrCount with
    | none =>
      { goesOn := false, numgot := numgot, dev := putUnused d
        evs := [.getPkt got.1, .putPkt (unusedPkts got.1)] }
    | some (bdPtr, c, intrCount, maps) =>
      let toHw := bdRingToHw c (BitVec.ofNat 32 numgot) bdPtr
      let d := { d with chan := toHw.2, intrCount := intrCount }
      if toHw.1 ≠ .success then
        let done := recoverBds .fromDevice numgot bdPtr d.chan
        { goesOn := false, numgot := numgot, dev := putUnused { d with chan := done.1 }
          evs := .getPkt got.1 :: maps ++ done.2 ++ [.putPkt (unusedPkts got.1)] }
      else { goesOn := true, numgot := numgot, dev := d, evs := .getPkt got.1 :: maps }

/-- The outer loop of `DmaSetupRecvBuffers`. `bus` serves all passes: each takes up where the one
before it stopped. Every pass that does not end the loop uses up some of `freeBdCount`, which is
therefore enough for `bound`. -/
def setupRecvLoop {υ : Type} (user : UserPtrs υ) (thBhIsr : Bool) :
    ℕ → (ℕ → U32) → ℕ → Dev υ → Dev υ × List Ev
  | 0, _, _, d => (d, [])
  | bound + 1, bus, freeBdCount, d =>
    let p := recvPass user thBhIsr bus freeBdCount d
    if p.goesOn = true ∧ 0 < freeBdCount - p.numgot then
      let rest := setupRecvLoop user thBhIsr bound (fun i => bus (p.numgot + i))
        (freeBdCount - p.numgot) p.dev
      (rest.1, p.evs ++ rest.2)
    else (p.dev, p.evs)

def setupRecvBuffers {υ : Type} (user : UserPtrs υ) (thBhIsr : Bool) (bus : ℕ → U32) (d : Dev υ) :
    Dev υ × List Ev :=
  let freeBdCount := d.chan.ring.freeCnt.toNat
  if freeBdCount ≤ 2 then (d, [])
  else setupRecvLoop user thBhIsr (freeBdCount - 2) bus (freeBdCount - 2) d

/-! ## `PktHandler` -/

/-- The packet `PktHandler` makes of a BD. -/
def retrievedPkt (m : Mem) (cur : U32) : PktBuf where
  pktBuf := bdGetId m cur
  bufInfo := bdGetId m cur
  size := bdGetStatLength m cur
  flags := bdGetStatus m cur
  userInfo := bdGetUserData m cur

/-- What the loop of `PktHandler` does with a BD. -/
def handleBd (dir : DmaDirection) (m : Mem) (cur : U32) : PktBuf × Ev :=
  (retrievedPkt m cur, .unmap (bdGetBufAddr m cur) (retrievedPkt m cur).size dir)

/-- The loop of `PktHandler` and its `Dma_BdRingFree`, on the `n` BDs from `bdPtr` on; no packets
when `Dma_BdRingFree` fails, after which `PktHandler` returns. -/
def handleBds (n : ℕ) (bdPtr : U32) (c : Chan) : Option (List PktBuf) × Chan × List Ev :=
  let taken := takeLoop c.ring (handleBd (dirOf c.ring)) n c.mem bdPtr
  match bdRingFree { c with mem := taken.2 } (BitVec.ofNat 32 n) bdPtr with
  | .error _ => (none, { c with mem := taken.2 }, taken.1.map Prod.snd)
  | .ok c => (some (taken.1.map Prod.fst), c, taken.1.map Prod.snd)

/-- The first locked section of `PktHandler`. The packets are for `UserPutPkt`, which is called if
there are any; `none` when `PktHandler` returns from here. -/
def pktHandlerRetrieve (rd : ℕ → Mem) (c : Chan) : Option (List PktBuf) × Chan × List Ev :=
  let got := bdRingFromHw c.ring rd dmaBdCnt
  if got.1 = 0 then (some [], { c with ring := got.2.2 }, [])
  else handleBds got.1 got.2.1 { c with ring := got.2.2 }

/-- The second locked section of `PktHandler`. -/
def pktHandlerRefill {υ : Type} (user : UserPtrs υ) (thBhIsr : Bool) (bus : ℕ → U32) (d : Dev υ) :
    Dev υ × List Ev :=
  if d.chan.ring.isRxChannel then setupRecvBuffers user thBhIsr bus d else (d, [])

/-! ## `descriptor_free` -/

/-- The packet `descriptor_free` makes of a BD. -/
def forcedPkt (m : Mem) (cur : U32) : PktBuf where
  pktBuf := bdGetId m cur
  bufInfo := bdGetId m cur
  size := bdGetCtrlLength m cur
  flags := pktUnused
  userInfo := bdGetUserData m cur

/-- What the loop of `descriptor_free` does with a BD. -/
def forceBd (dir : DmaDirection) (m : Mem) (cur : U32) : PktBuf × Ev :=
  (forcedPkt m cur, .unmap (bdGetBufAddr m cur) (forcedPkt m cur).size dir)

/-- The first locked section of `descriptor_free`: the packets for `UserPutPkt` and the BDs that
`descriptorFreeBds` is to free. -/
def descriptorFreeForce (c : Chan) : List PktBuf × (ℕ × U32) × Chan × List Ev :=
  let got := bdRingForceFromHw c.ring dmaBdCnt
  let c := { c with ring := got.2.2 }
  if got.1 = 0 then ([], (0, 0), c, [])
  else
    let taken := takeLoop c.ring (forceBd (dirOf c.ring)) got.1 c.mem got.2.1
    (taken.1.map Prod.fst, (got.1, got.2.1), { c with mem := taken.2 }, taken.1.map Prod.snd)

/-- The second locked section of `descriptor_free`; an error of `Dma_BdRingFree` is only logged. -/
def descriptorFreeBds (bds : ℕ × U32) (c : Chan) : Chan :=
  if bds.1 = 0 then c
  else
    match bdRingFree c (BitVec.ofNat 32 bds.1) bds.2 with
    | .error _ => c
    | .ok c => c

end Dma
