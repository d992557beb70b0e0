import MyDriver.Xdma.Hw

/-!
# The descriptor ring: `xdma_bdring.h` and `xdma_bdring.c`

The BDs of a ring lie one after the other in memory, `separation` bytes apart. The driver keeps
four groups of BDs (Free, Pre-process, Hardware, Post-process) by five pointers and four counters,
and moves BDs between neighbouring groups. All addresses and counters are 32-bit words and wrap.

A ring function works on a `Chan`: the ring, the memory that holds the BDs, and the registers of
the engine. Functions that only move pointers are given the ring alone.

`bdRingFromHw` reads BDs that the engine may be writing at that moment. It is therefore given
`rd : ℕ → Mem`, the memory as each of its word reads finds it; `fun _ => m` is the undisturbed
call.
-/

namespace Dma

/-- The status codes of `xstatus.h` that the ring functions return or store in `RunState`. -/
inductive XStatus where
  | success
  | failure
  | invalidParam
  | isStarted
  | dmaSgIsStarted
  | dmaSgIsStopped
  | dmaSgNoList
  | dmaSgListError
deriving DecidableEq, Repr

/-- `Dma_BdRing` -/
structure BdRing where
  isRxChannel : Bool
  runState : XStatus
  firstBdPhysAddr : U32
  firstBdAddr : U32
  lastBdAddr : U32
  length : U32
  separation : U32
  freeHead : U32
  preHead : U32
  hwHead : U32
  hwTail : U32
  postHead : U32
  bdaRestart : U32
  freeCnt : U32
  preCnt : U32
  hwCnt : U32
  postCnt : U32
  allCnt : U32
  bdErrs : U32
  bdSErrs : U32
deriving DecidableEq

/-- A ring, the memory of its BDs and the registers of its engine. -/
structure Chan where
  ring : BdRing
  mem : Mem
  regs : Regs

/-- The ring as `Dma_Initialize` leaves it: cleared, stopped, with its direction. -/
def initializedRing (isRxChannel : Bool) : BdRing where
  isRxChannel := isRxChannel
  runState := .dmaSgIsStopped
  firstBdPhysAddr := 0
  firstBdAddr := 0
  lastBdAddr := 0
  length := 0
  separation := 0
  freeHead := 0
  preHead := 0
  hwHead := 0
  hwTail := 0
  postHead := 0
  bdaRestart := 0
  freeCnt := 0
  preCnt := 0
  hwCnt := 0
  postCnt := 0
  allCnt := 0
  bdErrs := 0
  bdSErrs := 0

/-- A channel that has not been used yet, in memory that holds `m`. -/
def initializedChan (isRxChannel : Bool) (m : Mem) : Chan where
  ring := initializedRing isRxChannel
  mem := m
  regs := { ctrlStatus := 0, nextBd := 0, swNextBd := 0 }

/-! ## Navigation -/

def bdRingNext (r : BdRing) (bdPtr : U32) : U32 :=
  if r.lastBdAddr ≤ bdPtr then r.firstBdAddr else bdPtr + r.separation

def bdRingPrev (r : BdRing) (bdPtr : U32) : U32 :=
  if bdPtr ≤ r.firstBdAddr then r.lastBdAddr else bdPtr - r.separation

def ringSeekahead (r : BdRing) (bdPtr numBd : U32) : U32 :=
  let addr := bdPtr + r.separation * numBd
  if r.lastBdAddr < addr ∨ addr < bdPtr then addr - r.length else addr

def ringSeekback (r : BdRing) (bdPtr numBd : U32) : U32 :=
  let addr := bdPtr - r.separation * numBd
  if addr < r.firstBdAddr ∨ bdPtr < addr then addr + r.length else addr

def physToVirt (r : BdRing) (bdPtr : U32) : U32 := bdPtr + (r.firstBdAddr - r.firstBdPhysAddr)

def virtToPhys (r : BdRing) (bdPtr : U32) : U32 := bdPtr - (r.firstBdAddr - r.firstBdPhysAddr)

/-! ## Creation and start -/

/-- `memset(start, 0, size)` -/
def zeroFill (m : Mem) (start size : U32) : Mem :=
  fun a => if (a - start).toNat < size.toNat then 0 else m a

/-- The loop of `Dma_BdRingCreate` that links each BD to the next; the second component is
`BdVirtAddr` after the loop. -/
def linkBds (separation : U32) : ℕ → Mem → U32 → U32 → Mem × U32
  | 0, m, bdVirtAddr, _ => (m, bdVirtAddr)
  | k + 1, m, bdVirtAddr, bdPhysAddr =>
    linkBds separation k (bdWrite m bdVirtAddr bdNdescOffset bdPhysAddr)
      (bdVirtAddr + separation) (bdPhysAddr + separation)

/-- `Separation`: the size of a BD rounded up to the alignment. -/
def bdSeparation (alignment : U32) : U32 :=
  (4 * bdSwNumWords + (alignment - 1)) &&& ~~~(alignment - 1)

def bdRingCreate (c : Chan) (physAddr virtAddr alignment bdCount : U32) : XStatus × Chan :=
  let r := { c.ring with
    allCnt := 0, freeCnt := 0, hwCnt := 0, preCnt := 0, postCnt := 0, bdErrs := 0, bdSErrs := 0 }
  if alignment < bdMinimumAlignment then (.invalidParam, { c with ring := r })
  else if Flag (alignment - 1) alignment then (.invalidParam, { c with ring := r })
  else if physAddr % alignment ≠ 0 ∨ virtAddr % alignment ≠ 0 then
    (.invalidParam, { c with ring := r })
  else if bdCount = 0 then (.invalidParam, { c with ring := r })
  else
    let separation := bdSeparation alignment
    -- The ring must not span address 0; the 32-bit product may itself have wrapped.
    if virtAddr + separation * bdCount - 1 < virtAddr then
      (.dmaSgListError, { c with ring := { r with separation := separation } })
    else
      let linked := linkBds separation (bdCount.toNat - 1)
        (zeroFill c.mem virtAddr (separation * bdCount)) virtAddr (physAddr + separation)
      (.success, { c with
        mem := bdWrite linked.1 linked.2 bdNdescOffset physAddr
        ring := { r with
          separation := separation
          runState := .dmaSgIsStopped
          firstBdAddr := virtAddr
          firstBdPhysAddr := physAddr
          lastBdAddr := linked.2
          length := linked.2 - virtAddr + separation
          allCnt := bdCount
          freeCnt := bdCount
          freeHead := virtAddr
          preHead := virtAddr
          hwHead := virtAddr
          hwTail := virtAddr
          postHead := virtAddr
          bdaRestart := physAddr } })

def bdRingStart (c : Chan) : XStatus × Chan :=
  if c.ring.allCnt = 0 then (.dmaSgNoList, c)
  else if c.ring.runState = .dmaSgIsStarted then (.success, c)
  else
    let r := { c.ring with runState := .dmaSgIsStarted }
    let g := enable { c.regs with nextBd := r.bdaRestart, swNextBd := r.bdaRestart }
    (.success, { c with
      ring := r
      regs := if 0 < r.hwCnt then { g with swNextBd := virtToPhys r r.hwTail } else g })

/-! ## Moving BDs between the groups -/

/-- The BD set and the ring after the call, or the status with the ring unchanged. -/
def bdRingAlloc (r : BdRing) (numBd : U32) : Except XStatus (U32 × BdRing) :=
  if r.freeCnt < numBd then .error .failure
  else .ok (r.freeHead, { r with
    freeHead := ringSeekahead r r.freeHead numBd
    freeCnt := r.freeCnt - numBd
    preCnt := r.preCnt + numBd })

/-- The source never looks at its `BdSetPtr` argument. -/
def bdRingUnAlloc (r : BdRing) (numBd : U32) : Except XStatus BdRing :=
  if r.preCnt < numBd then .error .failure
  else .ok { r with
    freeHead := ringSeekback r r.freeHead numBd
    freeCnt := r.freeCnt + numBd
    preCnt := r.preCnt - numBd }

/-- The loop of `Dma_BdRingToHw`: whether it ran to its end, the memory, and `CurBdPtr`. -/
def toHwLoop (r : BdRing) : ℕ → Mem → U32 → Bool × Mem × U32
  | 0, m, cur => (true, m, cur)
  | k + 1, m, cur =>
    if bdRead m cur bdBuflCtrlOffset &&& bdBuflMask = 0 then (false, m, cur)
    else toHwLoop r k (bdSetStatus m cur 0) (bdRingNext r cur)

def bdRingToHw (c : Chan) (numBd bdSetPtr : U32) : XStatus × Chan :=
  if numBd = 0 then (.success, c)
  else if c.ring.preCnt < numBd ∨ c.ring.preHead ≠ bdSetPtr then (.dmaSgListError, c)
  else if c.ring.isRxChannel = false ∧ ¬ Flag (bdRead c.mem bdSetPtr bdBuflCtrlOffset) bdSopMask
    then (.failure, c)
  else
    let l := toHwLoop c.ring numBd.toNat c.mem bdSetPtr
    if l.1 = false then (.failure, { c with mem := l.2.1 })
    else
      -- A last TX BD without end-of-packet is logged and accepted.
      let r := { c.ring with
        preHead := ringSeekahead c.ring c.ring.preHead numBd
        preCnt := c.ring.preCnt - numBd
        hwTail := l.2.2
        hwCnt := c.ring.hwCnt + numBd }
      (.success, {
        ring := r
        mem := l.2.1
        regs := if r.runState = .dmaSgIsStarted
          then { c.regs with swNextBd := virtToPhys r r.hwTail } else c.regs })

/-- What one pass of the loop of `Dma_BdRingFromHw` reads of a BD. -/
structure BdSeen where
  bdStsCr : U32
  bdCtrl : U32
  userInfo : BitVec 64
deriving DecidableEq

/-- The reads of pass `t`, in order: status, control, high and low user word. -/
def bdSeen (rd : ℕ → Mem) (t : ℕ) (cur : U32) : BdSeen where
  bdStsCr := bdGetStatus (rd (4 * t)) cur
  bdCtrl := bdGetCtrl (rd (4 * t + 1)) cur
  userInfo := (bdRead (rd (4 * t + 2)) cur bdUsrhOffset).setWidth 64 <<< 32 |||
    (bdRead (rd (4 * t + 3)) cur bdUsrlOffset).setWidth 64

/-- The hardware has finished with the BD: it is completed and, if it is the end of a received
packet, user words announced as nonzero have arrived. -/
def BdSeen.Done (isRx : Bool) (v : BdSeen) : Prop :=
  Flag v.bdStsCr bdCompMask ∧
    ¬ (isRx = true ∧ Flag v.bdStsCr bdEopMask ∧
      ((¬ Flag v.bdStsCr bdUserHighZeroMask ∧ v.userInfo &&& 0xFFFFFFFF00000000 = 0) ∨
        (¬ Flag v.bdStsCr bdUserLowZeroMask ∧ v.userInfo &&& 0xFFFFFFFF = 0)))

/-- The BD ends a packet, or had an error. -/
def BdSeen.Boundary (isRx : Bool) (v : BdSeen) : Prop :=
  (isRx = true ∧ Flag v.bdStsCr bdEopMask) ∨ (isRx = false ∧ Flag v.bdCtrl bdEopMask) ∨
    Flag v.bdStsCr bdErrorMask

instance (isRx : Bool) (v : BdSeen) : Decidable (v.Done isRx) := by
  unfold BdSeen.Done; infer_instance

instance (isRx : Bool) (v : BdSeen) : Decidable (v.Boundary isRx) := by
  unfold BdSeen.Boundary; infer_instance

/-- The loop variables of `Dma_BdRingFromHw`, with the ring's error counters. -/
structure FromHwLoop where
  bdCount : ℕ
  bdPartialCount : ℕ
  bdErrs : U32
  bdSErrs : U32
deriving DecidableEq

/-- The error counters after the BD `v` has been examined. -/
def FromHwLoop.countErrors (s : FromHwLoop) (isRx : Bool) (v : BdSeen) : FromHwLoop :=
  { s with
    bdErrs := if Flag v.bdStsCr bdErrorMask then s.bdErrs + 1 else s.bdErrs
    bdSErrs := if isRx = false ∧ Flag v.bdStsCr bdShortMask then s.bdSErrs + 1 else s.bdSErrs }

/-- The counts after the finished BD `v`. -/
def FromHwLoop.countBd (s : FromHwLoop) (isRx : Bool) (v : BdSeen) : FromHwLoop :=
  { s with
    bdCount := s.bdCount + 1
    bdPartialCount := if v.Boundary isRx then 0 else s.bdPartialCount + 1 }

/-- The loop of `Dma_BdRingFromHw`; the number says how many passes `BdLimit` still allows. -/
def fromHwLoop (r : BdRing) (rd : ℕ → Mem) : ℕ → U32 → FromHwLoop → FromHwLoop
  | 0, _, s => s
  | left + 1, cur, s =>
    let v := bdSeen rd s.bdCount cur
    let s := s.countErrors r.isRxChannel v
    if ¬ v.Done r.isRxChannel then s
    else
      let s := s.countBd r.isRxChannel v
      let cur := bdRingNext r cur
      if cur = r.hwTail then s else fromHwLoop r rd left cur s

/-- The number of BDs, `*BdSetPtr` (0 for `NULL`) and the ring after the call. -/
def bdRingFromHw (r : BdRing) (rd : ℕ → Mem) (bdLimit : U32) : ℕ × U32 × BdRing :=
  if r.hwCnt = 0 then (0, 0, r)
  else
    let s := fromHwLoop r rd bdLimit.toNat r.hwHead
      { bdCount := 0, bdPartialCount := 0, bdErrs := r.bdErrs, bdSErrs := r.bdSErrs }
    let r := { r with bdErrs := s.bdErrs, bdSErrs := s.bdSErrs }
    let bdCount := s.bdCount - s.bdPartialCount
    if bdCount = 0 then (0, 0, r)
    else (bdCount, r.hwHead, { r with
      hwCnt := r.hwCnt - BitVec.ofNat 32 bdCount
      postCnt := r.postCnt + BitVec.ofNat 32 bdCount
      hwHead := ringSeekahead r r.hwHead (BitVec.ofNat 32 bdCount) })

/-- The loop of `Dma_BdRingForceFromHw`, which looks at no BD: only `HwTail` and `BdLimit` end
it. -/
def forceFromHwLoop (r : BdRing) : ℕ → U32 → ℕ → ℕ
  | 0, _, bdCount => bdCount
  | left + 1, cur, bdCount =>
    let cur := bdRingNext r cur
    if cur = r.hwTail then bdCount + 1 else forceFromHwLoop r left cur (bdCount + 1)

def bdRingForceFromHw (r : BdRing) (bdLimit : U32) : ℕ × U32 × BdRing :=
  if r.hwCnt = 0 then (0, 0, r)
  else
    let bdCount := forceFromHwLoop r bdLimit.toNat r.hwHead 0
    if bdCount = 0 then (0, 0, r)
    else (bdCount, r.hwHead, { r with
      hwCnt := r.hwCnt - BitVec.ofNat 32 bdCount
      postCnt := r.postCnt + BitVec.ofNat 32 bdCount
      hwHead := ringSeekahead r r.hwHead (BitVec.ofNat 32 bdCount) })

/-- The loop of `Dma_BdRingFree`. -/
def freeLoop (r : BdRing) : ℕ → Mem → U32 → Mem
  | 0, m, _ => m
  | k + 1, m, cur =>
    freeLoop r k (bdWrite (bdWrite m cur bdBuflStatusOffset 0) cur bdBuflCtrlOffset 0)
      (bdRingNext r cur)

def bdRingFree (c : Chan) (numBd bdSetPtr : U32) : Except XStatus Chan :=
  if numBd = 0 then .ok c
  else if c.ring.postCnt < numBd ∨ c.ring.postHead ≠ bdSetPtr then .error .dmaSgListError
  else .ok { c with
    mem := freeLoop c.ring numBd.toNat c.mem bdSetPtr
    ring := { c.ring with
      freeCnt := c.ring.freeCnt + numBd
      postCnt := c.ring.postCnt - numBd
      postHead := ringSeekahead c.ring c.ring.postHead numBd } }

/-! ## Alignment -/

/-- The number of BDs that fit, and `*Delta` given its value on entry. -/
def bdRingAlign (allocPtr size align delta : U32) : U32 × U32 :=
  if allocPtr = 0 ∨ size = 0 ∨ size < align then (0, 0)
  else
    let bytealign := 4 * bdSwNumWords
    if allocPtr % bytealign ≠ 0 then
      let i := bytealign - (allocPtr &&& 0xFF)
      ((size - i) / bytealign, i)
    else (size / bytealign, delta)

end Dma
