import MyDriver.Xdma.Restart

/-!
# Who owns a descriptor

The engine and the driver share the ring: the BDs of the Hardware group are the engine's, all others
the driver's. A full ring and an empty one look alike to the engine, which stops when its pointer
meets `REG_SW_NEXT_BD`; two callers of `Dma_BdRingToHw` therefore leave two BDs free.

The sections that hold `DmaLock` are cut into their calls of the ring functions (`Stage`), and the
engine may take any number of steps between two of them; a poll may be interrupted at every word
read.

* `OwnSys`, `ownStep` — the ring, its engine, and the section that holds the lock.
* `StageOk` — what a section knows in each stage.
* `engine_owns` — the engine stays in the Hardware group, and what `Dma_BdRingFromHw` returns it has
  completed.
-/

namespace Dma

open Cyclic Runs

/-! ## The system -/

/-- Where the section that holds `DmaLock` stands. -/
inductive Stage where
  | idle
  /-- `DmaSendPkt` has filled its BDs. -/
  | filled (s : Sending)
  /-- `Dma_BdRingToHw` has returned `result`. -/
  | sent (s : Sending) (result : XStatus)
  /-- `DmaSetupRecvBuffers` at the start of a pass, with the value of `free_bd_count`. -/
  | recv (freeBdCount : ℕ)
  | recvFilled (freeBdCount numgot : ℕ) (bdPtr : U32)
  | recvSent (freeBdCount numgot : ℕ) (bdPtr : U32) (result : XStatus)
  /-- `PktHandler` has got `n` BDs from `Dma_BdRingFromHw`. -/
  | retrieved (n : ℕ) (bdPtr : U32)
deriving DecidableEq

/-- A ring under observation, the interrupt counter of its engine, and the section that holds the
lock. -/
structure OwnSys where
  watched : Watched
  intrCount : U32
  stage : Stage

namespace OwnSys

def sendFill (thBhIsr : Bool) (bus : ℕ → U32) (pkts : List PktBuf) (s : OwnSys) : OwnSys :=
  match Dma.sendFill thBhIsr bus pkts s.watched.chan s.intrCount with
  | none => s
  | some (sending, c, intrCount, _) =>
    { watched := { s.watched with chan := c }, intrCount := intrCount, stage := .filled sending }

/-- `sendSubmit`, watched. -/
def sendSubmit (sending : Sending) (s : OwnSys) : OwnSys :=
  let toHw := s.watched.toHw (BitVec.ofNat 32 (sending.numpkts - sending.vars.partialBDcount))
    sending.bdPtr
  { s with watched := toHw.2, stage := .sent sending toHw.1 }

def sendFinish (sending : Sending) (result : XStatus) (s : OwnSys) : OwnSys :=
  { s with
    watched := { s.watched with chan := (Dma.sendFinish sending result s.watched.chan).2.1 }
    stage := .idle }

def recvBegin (s : OwnSys) : OwnSys :=
  let freeBdCount := s.watched.chan.ring.freeCnt.toNat
  if freeBdCount ≤ 2 then s else { s with stage := .recv (freeBdCount - 2) }

/-- The user gives `pkts`; with none, or without BDs, the loop ends. -/
def recvFill (thBhIsr : Bool) (freeBdCount : ℕ) (bus : ℕ → U32) (pkts : List PktBuf) (s : OwnSys) :
    OwnSys :=
  if pkts.length = 0 then { s with stage := .idle }
  else
    match Dma.recvFill thBhIsr bus pkts s.watched.chan s.intrCount with
    | none => { s with stage := .idle }
    | some (bdPtr, c, intrCount, _) =>
      { watched := { s.watched with chan := c }
        intrCount := intrCount
        stage := .recvFilled freeBdCount pkts.length bdPtr }

def recvSubmit (freeBdCount numgot : ℕ) (bdPtr : U32) (s : OwnSys) : OwnSys :=
  let toHw := s.watched.toHw (BitVec.ofNat 32 numgot) bdPtr
  { s with watched := toHw.2, stage := .recvSent freeBdCount numgot bdPtr toHw.1 }

def recvFinish (freeBdCount numgot : ℕ) (bdPtr : U32) (result : XStatus) (s : OwnSys) : OwnSys :=
  if result ≠ .success then
    { s with
      watched := { s.watched with chan := (recoverBds .fromDevice numgot bdPtr s.watched.chan).1 }
      stage := .idle }
  else { s with stage := if 0 < freeBdCount - numgot then .recv (freeBdCount - numgot) else .idle }

def fromHw (es : List (List Completion)) (s : OwnSys) : OwnSys :=
  let got := s.watched.fromHw dmaBdCnt es
  { s with watched := got.2.2, stage := if got.1 = 0 then .idle else .retrieved got.1 got.2.1 }

def handle (n : ℕ) (bdPtr : U32) (s : OwnSys) : OwnSys :=
  { s with
    watched := { s.watched with chan := (handleBds n bdPtr s.watched.chan).2.1 }
    stage := .idle }

end OwnSys

inductive OwnAct where
  | engine (e : Completion)
  | sendFill (bus : ℕ → U32) (pkts : List PktBuf)
  | sendSubmit
  | sendFinish
  | recvBegin
  | recvFill (bus : ℕ → U32) (pkts : List PktBuf)
  | recvSubmit
  | recvFinish
  /-- The engine takes the steps `es[t]` just before the word read `t`. -/
  | fromHw (es : List (List Completion))
  | handle

def ownStep (thBhIsr : Bool) (s : OwnSys) (a : OwnAct) : Option OwnSys :=
  match s.stage, a with
  | _, .engine e => some { s with watched := s.watched.engine e }
  | .idle, .sendFill bus pkts =>
    if s.watched.chan.ring.isRxChannel = false ∧ pkts ≠ [] ∧ WholePkts pkts then
      some (s.sendFill thBhIsr bus pkts)
    else none
  | .filled sending, .sendSubmit => some (s.sendSubmit sending)
  | .sent sending result, .sendFinish => some (s.sendFinish sending result)
  | .idle, .recvBegin => if s.watched.chan.ring.isRxChannel = true then some s.recvBegin else none
  | .recv freeBdCount, .recvFill bus pkts =>
    if pkts.length ≤ freeBdCount then some (s.recvFill thBhIsr freeBdCount bus pkts) else none
  | .recvFilled freeBdCount numgot bdPtr, .recvSubmit => some (s.recvSubmit freeBdCount numgot bdPtr)
  | .recvSent freeBdCount numgot bdPtr result, .recvFinish =>
    some (s.recvFinish freeBdCount numgot bdPtr result)
  | .idle, .fromHw es => some (s.fromHw es)
  | .retrieved n bdPtr, .handle => some (s.handle n bdPtr)
  | _, _ => none

/-- A started ring with its engine; nobody holds the lock. -/
def startedOwn (c : Chan) (intrCount : U32) : OwnSys :=
  { watched := watch c, intrCount := intrCount, stage := .idle }

/-- **What the hardware and the driver owe each other.** -/
structure Owned (s : Watched) : Prop where
  /-- The pointer of the engine is between `HwHead` and `HwTail`. -/
  pointer : ∃ k ≤ s.chan.ring.hwCnt.toNat, s.chan.regs.nextBd =
    virtToPhys s.chan.ring ((bdRingNext s.chan.ring)^[k] s.chan.ring.hwHead)
  hwTail : (bdRingNext s.chan.ring)^[s.chan.ring.hwCnt.toNat] s.chan.ring.hwHead =
    s.chan.ring.hwTail
  /-- The engine has written BDs of the Hardware group only. -/
  stray : s.stray = []
  apart : 0 < s.chan.ring.hwCnt → s.chan.ring.hwHead ≠ s.chan.ring.hwTail
  /-- Two BDs, or the only one, are outside the Pre and the Hardware group. -/
  margin : s.chan.ring.hwCnt.toNat + s.chan.ring.preCnt.toNat + min 2 s.chan.ring.allCnt.toNat ≤
    s.chan.ring.allCnt.toNat
  /-- What `Dma_BdRingFromHw` has returned, the engine had completed. -/
  stale : s.stale = []

/-! ## The stages make up the sections -/

section Sections

variable {s : OwnSys} {thBhIsr : Bool} {bus : ℕ → U32} {pkts : List PktBuf}

/-- Undisturbed, the three stages of a transmission are `DmaSendPkt`. -/
theorem ownStep_sendPkt (hidle : s.stage = .idle) (hrx : s.watched.chan.ring.isRxChannel = false)
    (hpkts : pkts ≠ []) (hwhole : WholePkts pkts)
    (hfill : sendFill thBhIsr bus pkts s.watched.chan s.intrCount ≠ none) :
    ∃ s', run (ownStep thBhIsr) s [.sendFill bus pkts, .sendSubmit, .sendFinish] = some s' ∧
      s'.stage = .idle ∧ s'.watched.chan = (dmaSendPkt .initialized .userAssigned thBhIsr bus pkts
        s.watched.chan s.intrCount).2.1 := by
  obtain ⟨⟨sending, c, intrCount, evs⟩, heq⟩ := Option.ne_none_iff_exists'.1 hfill
  obtain ⟨s₁, hs₁⟩ : ∃ s₁ : OwnSys, s₁ =
    { watched := { s.watched with chan := c }, intrCount := intrCount, stage := .filled sending } :=
    ⟨_, rfl⟩
  have hfirst : ownStep thBhIsr s (.sendFill bus pkts) = some s₁ := by
    rw [ownStep.eq_def, hidle]
    dsimp only
    rw [if_pos ⟨hrx, hpkts, hwhole⟩, OwnSys.sendFill, heq, hs₁]
  refine ⟨(s₁.sendSubmit sending).sendFinish sending (sendSubmit sending c).1, ?_, rfl, ?_⟩
  · rw [run_cons, hfirst, hs₁]
    rfl
  · unfold dmaSendPkt
    rw [if_neg (by simp [hpkts, hrx]), heq, hs₁]
    rfl

/-- The three stages of a pass are the pass of `DmaSetupRecvBuffers`. -/
theorem ownStep_recvPass {υ : Type} (user : UserPtrs υ) {u u' : υ} {freeBdCount : ℕ}
    (hstage : s.stage = .recv freeBdCount) (hgot : user.getPkt u freeBdCount = (pkts, u'))
    (hpkts : pkts ≠ []) (hfill : recvFill thBhIsr bus pkts s.watched.chan s.intrCount ≠ none) :
    let p := recvPass user thBhIsr bus freeBdCount ⟨s.watched.chan, s.intrCount, u⟩
    ∃ s', run (ownStep thBhIsr) s [.recvFill bus pkts, .recvSubmit, .recvFinish] = some s' ∧
      s'.watched.chan = p.dev.chan ∧ s'.stage =
        if p.goesOn = true ∧ 0 < freeBdCount - p.numgot then .recv (freeBdCount - p.numgot)
        else .idle := by
  intro p
  have hne : pkts.length ≠ 0 := fun hnil => hpkts (List.length_eq_zero_iff.1 hnil)
  have hle : pkts.length ≤ freeBdCount := by
    have hle := user.getPkt_le u freeBdCount
    rw [hgot] at hle
    exact hle
  obtain ⟨⟨bdPtr, c, intrCount, evs⟩, heq⟩ := Option.ne_none_iff_exists'.1 hfill
  obtain ⟨s₁, hs₁⟩ : ∃ s₁ : OwnSys, s₁ =
    { watched := { s.watched with chan := c }
      intrCount := intrCount
      stage := .recvFilled freeBdCount pkts.length bdPtr } := ⟨_, rfl⟩
  have hfirst : ownStep thBhIsr s (.recvFill bus pkts) = some s₁ := by
    rw [ownStep.eq_def, hstage]
    dsimp only
    rw [if_pos hle, OwnSys.recvFill, if_neg hne, heq, hs₁]
  refine ⟨(s₁.recvSubmit freeBdCount pkts.length bdPtr).recvFinish freeBdCount pkts.length bdPtr
    (bdRingToHw c (BitVec.ofNat 32 pkts.length) bdPtr).1, ?_, ?_⟩
  · rw [run_cons, hfirst, hs₁]
    rfl
  · have hp : p = recvPass user thBhIsr bus freeBdCount ⟨s.watched.chan, s.intrCount, u⟩ := rfl
    rw [recvPass, hgot] at hp
    dsimp only at hp
    rw [if_neg hne, heq] at hp
    rw [hp, OwnSys.recvFinish, hs₁]
    dsimp only
    by_cases hok : (bdRingToHw c (BitVec.ofNat 32 pkts.length) bdPtr).1 ≠ .success
    · simp only [if_pos hok]
      exact ⟨rfl, by simp⟩
    · simp only [if_neg hok]
      exact ⟨rfl, by simp⟩

/-- The two stages of a poll are the first section of `PktHandler`. -/
theorem ownStep_retrieve (hidle : s.stage = .idle)
    (hgot : (bdRingFromHw s.watched.chan.ring (fun _ => s.watched.chan.mem) dmaBdCnt).1 ≠ 0) :
    ∃ s', run (ownStep thBhIsr) s [.fromHw [], .handle] = some s' ∧ s'.stage = .idle ∧
      s'.watched.chan =
        (pktHandlerRetrieve (fun _ => s.watched.chan.mem) s.watched.chan).2.1 := by
  have hfirst : (s.fromHw []).stage = .retrieved
      (bdRingFromHw s.watched.chan.ring (fun _ => s.watched.chan.mem) dmaBdCnt).1
      (bdRingFromHw s.watched.chan.ring (fun _ => s.watched.chan.mem) dmaBdCnt).2.1 := if_neg hgot
  refine ⟨(s.fromHw []).handle
    (bdRingFromHw s.watched.chan.ring (fun _ => s.watched.chan.mem) dmaBdCnt).1
    (bdRingFromHw s.watched.chan.ring (fun _ => s.watched.chan.mem) dmaBdCnt).2.1, ?_, rfl, ?_⟩
  · have hstep : ownStep thBhIsr s (.fromHw []) = some (s.fromHw []) := by
      rw [ownStep.eq_def, hidle]
    rw [run_cons, hstep, Option.bind_some, run_cons, ownStep.eq_def, hfirst]
    rfl
  · rw [pktHandlerRetrieve, if_neg hgot]
    rfl

end Sections

/-! ## The invariant -/

/-- `PartialBDPtr` points to a BD of the ring, if there is something to give back. -/
def RestAt (r : BdRing) (vars : SendVars) : Prop :=
  vars.partialBDcount ≠ 0 → ∃ y, vars.partialBDPtr = bdAt r y

/-- What the section that holds the lock knows about the groups. -/
def StageOk (r : BdRing) (g : Split) : Stage → Prop
  | .idle => g.post = 0 ∧ g.pre = 0
  | .filled s => g.post = 0 ∧ g.pre = s.numpkts ∧ s.bdPtr = bdAt r g.prePos ∧
    s.vars.partialBDcount ≤ g.pre ∧ RestAt r s.vars
  | .sent s result => g.post = 0 ∧
    if result = .success then g.pre = s.vars.partialBDcount ∧ RestAt r s.vars
    else g.pre = s.numpkts ∧ s.bdPtr = bdAt r g.prePos
  | .recv freeBdCount => g.post = 0 ∧ g.pre = 0 ∧ freeBdCount + 2 ≤ g.free
  | .recvFilled freeBdCount numgot bdPtr => g.post = 0 ∧ g.pre = numgot ∧ bdPtr = bdAt r g.prePos ∧
    freeBdCount - numgot + 2 ≤ g.free
  | .recvSent freeBdCount numgot bdPtr result => g.post = 0 ∧
    if result = .success then g.pre = 0 ∧ freeBdCount - numgot + 2 ≤ g.free
    else g.pre = numgot ∧ bdPtr = bdAt r g.prePos
  | .retrieved n bdPtr => g.post = n ∧ g.pre = 0 ∧ bdPtr = bdAt r g.start

/-- **The invariant.** The margin is kept at every stage. -/
structure OwnInv (s : OwnSys) : Prop where
  tracks : ∃ g k, Tracks s.watched g k ∧ StageOk s.watched.chan.ring g s.stage ∧
    min 2 g.size ≤ g.post + g.free
  enabled : Flag s.watched.chan.regs.ctrlStatus engEnableMask
  stray : s.watched.stray = []
  stale : s.watched.stale = []

section Steps

variable {s : OwnSys} {g : Split} {k : ℕ}

theorem OwnInv.owned (h : OwnInv s) : Owned s.watched := by
  obtain ⟨g, k, ht, -, hmargin⟩ := h.tracks
  have hlap := g.lap
  obtain ⟨-, hnext, -⟩ := ht.regs h.enabled
  have hwalk : ∀ j, (bdRingNext s.watched.chan.ring)^[j] s.watched.chan.ring.hwHead =
      bdAt s.watched.chan.ring (g.hwPos + j) := fun j => by
    rw [ht.parts.hwHead, ht.parts.laid.iterate_next]
  refine ⟨⟨k, ?_, ?_⟩, ?_, h.stray, fun hpos heq => ?_, ?_, h.stale⟩
  · rw [ht.parts.hwCnt]
    exact ht.le
  · rw [hwalk, hnext]
  · rw [hwalk, ht.parts.hwCnt, g.hwPos_add, ht.parts.hwTail]
  · -- A Hardware group that were the whole ring would leave nothing outside.
    have hcnt : 0 < g.hw := by
      rw [← ht.parts.hwCnt]
      exact hpos
    rw [ht.parts.hwHead, ht.parts.hwTail, ← g.hwPos_add] at heq
    have hsame := ht.parts.circle.eq_of_lt_lap (x := g.hwPos) (i := 0) (j := g.hw) (by omega)
      (by omega) heq
    omega
  · rw [ht.parts.hwCnt, ht.parts.preCnt, ht.parts.size]
    omega

/-- The driver has changed the ring, and only that. -/
theorem OwnInv.framed (h : OwnInv s) {c : Chan} {intrCount : U32} {stage : Stage}
    (ht : Tracks { s.watched with chan := c } g k) (hstage : StageOk c.ring g stage)
    (hmargin : min 2 g.size ≤ g.post + g.free) (hregs : c.regs = s.watched.chan.regs) :
    OwnInv { watched := { s.watched with chan := c }, intrCount := intrCount, stage := stage } := by
  refine ⟨⟨g, k, ht, hstage, hmargin⟩, ?_, h.stray, h.stale⟩
  dsimp only
  rw [hregs]
  exact h.enabled

theorem OwnInv.engine (h : OwnInv s) (e : Completion) :
    OwnInv { s with watched := s.watched.engine e } := by
  obtain ⟨g, k, ht, hstage, hmargin⟩ := h.tracks
  obtain ⟨j, -, hj, hcalm⟩ := ht.engine e
  refine ⟨⟨g, j, hj, ?_, hmargin⟩, ?_, hcalm.stray.trans h.stray, hcalm.stale.trans h.stale⟩
  · dsimp only
    rw [hcalm.ring]
    exact hstage
  · dsimp only
    rw [hcalm.ctrlStatus]
    exact h.enabled

/-! `DmaSendPkt` -/

theorem OwnInv.sendFill (h : OwnInv s) (hidle : s.stage = .idle) (thBhIsr : Bool) (bus : ℕ → U32)
    {pkts : List PktBuf} (hwhole : WholePkts pkts) : OwnInv (s.sendFill thBhIsr bus pkts) := by
  obtain ⟨g, k, ht, hstage, hmargin⟩ := h.tracks
  rw [hidle] at hstage
  obtain ⟨hpost, hpre⟩ := hstage
  by_cases hfree : 2 < g.free
  · obtain ⟨c, hle, heq, hparts, hbase, hregs, hw⟩ :=
      ht.parts.sendFill hfree thBhIsr bus pkts s.intrCount rfl
    have hlen : (pkts.take (g.free - 2)).length ≤ g.free - 2 := List.length_take_le _ _
    have hopen := length_openPkts_le (pkts.take (g.free - 2))
    obtain ⟨hcount, hptr⟩ := sendVars_spec ht.parts.laid (pkts.take (g.free - 2)) g.freePos
    have hbd : bdAt c.ring = bdAt s.watched.chan.ring := bdAt_congr (block_of_base hbase)
    have hpos : g.freePos = g.prePos := g.freePos_of_pre hpre
    have hanch := (hwhole.1.take (g.free - 2)).anchored
    rw [OwnSys.sendFill, heq]
    dsimp only
    generalize pkts.take (g.free - 2) = l at *
    refine h.framed (g := g.alloc l.length hle) (k := k) ?_ ?_ ?_ hregs
    · exact ht.frame hparts rfl rfl hbase hregs (hw.sameLinks fun _ _ => rfl) fun i _ hc =>
        hw.rel (Q := fun w w' => w'.Comp → w.Comp) (fun _ hw => hw)
          (fun _ w hcomp => comp_setStatLength w _ hcomp) (g.hwPos + i) (by rwa [wordsAt, hbd] at hc)
    · refine ⟨hpost, ?_, ?_, ?_, ?_⟩
      · show g.pre + l.length = l.length
        rw [hpre, Nat.zero_add]
      · rw [hbd, g.alloc_prePos hle, hpos]
      · rw [hcount]
        show _ ≤ g.pre + l.length
        omega
      · intro hne
        rw [hcount] at hne
        refine ⟨_, (hptr hanch fun hnil => hne ?_).trans (congrFun hbd _).symm⟩
        rw [hnil, List.length_nil]
    · show min 2 g.size ≤ g.post + (g.free - l.length)
      omega
  · have hnone : Dma.sendFill thBhIsr bus pkts s.watched.chan s.intrCount = none := by
      rw [Dma.sendFill, ht.parts.freeCnt]
      exact if_pos (not_lt.1 hfree)
    rw [OwnSys.sendFill, hnone]
    exact h

/-- BDs that are refused stay in the Pre group; those accepted leave it. -/
theorem Tracks.submitted {w : Watched} (ht : Tracks w g k) {n : ℕ} (hn : n ≤ g.pre) :
    ∃ g', Tracks (w.toHw (BitVec.ofNat 32 n) (bdAt w.chan.ring g.prePos)).2 g' k ∧
      (w.toHw (BitVec.ofNat 32 n) (bdAt w.chan.ring g.prePos)).2.chan.ring.base = w.chan.ring.base ∧
      (w.toHw (BitVec.ofNat 32 n) (bdAt w.chan.ring g.prePos)).2.chan.regs.ctrlStatus =
        w.chan.regs.ctrlStatus ∧
      (w.toHw (BitVec.ofNat 32 n) (bdAt w.chan.ring g.prePos)).2.stray = w.stray ∧
      (w.toHw (BitVec.ofNat 32 n) (bdAt w.chan.ring g.prePos)).2.stale = w.stale ∧
      g'.size = g.size ∧ g'.post = g.post ∧ g'.free = g.free ∧
      if (w.toHw (BitVec.ofNat 32 n) (bdAt w.chan.ring g.prePos)).1 = .success then
        g'.pre = g.pre - n
      else g'.pre = g.pre ∧ g'.prePos = g.prePos := by
  by_cases hacc : ToHwAccepts w.chan g.prePos n
  · obtain ⟨w', heq, -, ht', hbase, hctrl, hstray, -, hstale⟩ := ht.toHw_ok hn hacc
    rw [heq]
    exact ⟨_, ht', hbase, hctrl, hstray, hstale, rfl, rfl, rfl, rfl⟩
  · obtain ⟨m', heq, ht'⟩ := ht.toHw_fail hn hacc
    rw [heq]
    exact ⟨g, ht', rfl, rfl, rfl, rfl, rfl, rfl, rfl, rfl, rfl⟩

/-- A call of `Dma_BdRingToHw`. -/
theorem OwnInv.submit (h : OwnInv s) (ht : Tracks s.watched g k)
    (hmargin : min 2 g.size ≤ g.post + g.free) {n : ℕ} (hn : n ≤ g.pre) {bdPtr : U32}
    (hptr : bdPtr = bdAt s.watched.chan.ring g.prePos) {stage : Stage}
    (hstage : ∀ (g' : Split) (r : BdRing), bdAt r = bdAt s.watched.chan.ring → g'.post = g.post →
      g'.free = g.free →
      (if (s.watched.toHw (BitVec.ofNat 32 n) bdPtr).1 = .success then g'.pre = g.pre - n
        else g'.pre = g.pre ∧ g'.prePos = g.prePos) → StageOk r g' stage) :
    OwnInv { s with watched := (s.watched.toHw (BitVec.ofNat 32 n) bdPtr).2, stage := stage } := by
  subst hptr
  obtain ⟨g', ht', hbase, hctrl, hstray, hstale, hsize, hpost, hfree, hpre⟩ := ht.submitted hn
  refine ⟨⟨g', k, ht', hstage g' _ (bdAt_congr (block_of_base hbase)) hpost hfree hpre, ?_⟩, ?_,
    hstray.trans h.stray, hstale.trans h.stale⟩
  · rw [hsize, hpost, hfree]
    exact hmargin
  · dsimp only
    rw [hctrl]
    exact h.enabled

theorem OwnInv.sendSubmit (h : OwnInv s) {sending : Sending} (hstage : s.stage = .filled sending) :
    OwnInv (s.sendSubmit sending) := by
  obtain ⟨g, k, ht, hok, hmargin⟩ := h.tracks
  rw [hstage] at hok
  obtain ⟨hpost, hpre, hptr, hle, hrest⟩ := hok
  refine h.submit ht hmargin (by omega) hptr fun g' r hbd hpost' _ hpre' => ?_
  refine ⟨hpost'.trans hpost, ?_⟩
  split_ifs at hpre' with hres
  · rw [if_pos hres]
    refine ⟨by omega, fun hne => ?_⟩
    rw [hbd]
    exact hrest hne
  · rw [if_neg hres, hbd, hpre'.2]
    exact ⟨hpre'.1.trans hpre, hptr⟩

/-- BDs of the Pre group are given back. -/
theorem OwnInv.recover (h : OwnInv s) (ht : Tracks s.watched g k)
    (hmargin : min 2 g.size ≤ g.post + g.free) (hpost : g.post = 0) (dir : DmaDirection) (y : ℕ) :
    OwnInv { s with
      watched := { s.watched with
        chan := (recoverBds dir g.pre (bdAt s.watched.chan.ring y) s.watched.chan).1 }
      stage := .idle } := by
  obtain ⟨c, heq, hparts, hbase, hregs, hw⟩ := ht.parts.recover le_rfl dir y
  have hbd : bdAt c.ring = bdAt s.watched.chan.ring := bdAt_congr (block_of_base hbase)
  rw [heq]
  refine h.framed (g := g.unAlloc g.pre le_rfl) (k := k) ?_ ⟨hpost, Nat.sub_self g.pre⟩ ?_ hregs
  · exact ht.frame hparts rfl rfl hbase hregs (hw.sameLinks fun _ _ => rfl) fun i _ hc =>
      hw.rel (Q := fun w w' => w'.Comp → w.Comp) (fun _ hw => hw) (fun _ _ hcomp => hcomp)
        (g.hwPos + i) (by rwa [wordsAt, hbd] at hc)
  · show min 2 g.size ≤ g.post + (g.free + g.pre)
    omega

theorem OwnInv.sendFinish (h : OwnInv s) {sending : Sending} {result : XStatus}
    (hstage : s.stage = .sent sending result) : OwnInv (s.sendFinish sending result) := by
  obtain ⟨g, k, ht, hok, hmargin⟩ := h.tracks
  rw [hstage] at hok
  obtain ⟨hpost, hok⟩ := hok
  rw [OwnSys.sendFinish, Dma.sendFinish]
  by_cases hres : result = .success
  · rw [if_pos hres] at hok
    obtain ⟨hpre, hrest⟩ := hok
    rw [if_neg (not_not.2 hres)]
    by_cases hzero : sending.vars.partialBDcount = 0
    · rw [if_neg (not_not.2 hzero)]
      exact h.framed ht ⟨hpost, hpre.trans hzero⟩ hmargin rfl
    · obtain ⟨y, hy⟩ := hrest hzero
      rw [if_pos hzero, hy, ← hpre]
      exact h.recover ht hmargin hpost .toDevice y
  · rw [if_neg hres] at hok
    rw [if_pos hres, hok.2, ← hok.1]
    exact h.recover ht hmargin hpost .toDevice g.prePos

/-! `DmaSetupRecvBuffers` -/

theorem OwnInv.recvBegin (h : OwnInv s) (hidle : s.stage = .idle) : OwnInv s.recvBegin := by
  obtain ⟨g, k, ht, hok, hmargin⟩ := h.tracks
  rw [hidle] at hok
  rw [OwnSys.recvBegin, ht.parts.freeCnt]
  split_ifs with hfree
  · exact h
  · refine h.framed ht ⟨hok.1, hok.2, ?_⟩ hmargin rfl
    omega

theorem OwnInv.recvFill (h : OwnInv s) {freeBdCount : ℕ} (hstage : s.stage = .recv freeBdCount)
    (thBhIsr : Bool) (bus : ℕ → U32) {pkts : List PktBuf} (hle : pkts.length ≤ freeBdCount) :
    OwnInv (s.recvFill thBhIsr freeBdCount bus pkts) := by
  obtain ⟨g, k, ht, hok, hmargin⟩ := h.tracks
  rw [hstage] at hok
  obtain ⟨hpost, hpre, hfree⟩ := hok
  rw [OwnSys.recvFill]
  split_ifs with hnil
  · exact h.framed ht ⟨hpost, hpre⟩ hmargin rfl
  · have hroom : pkts.length ≤ g.free := by omega
    obtain ⟨c, heq, hparts, hbase, hregs, hw⟩ :=
      ht.parts.recvFill thBhIsr bus pkts s.intrCount hroom
    have hbd : bdAt c.ring = bdAt s.watched.chan.ring := bdAt_congr (block_of_base hbase)
    have hpos : g.freePos = g.prePos := g.freePos_of_pre hpre
    rw [heq]
    refine h.framed (g := g.alloc pkts.length hroom) (k := k) ?_ ⟨hpost, ?_, ?_, ?_⟩ ?_ hregs
    · exact ht.frame hparts rfl rfl hbase hregs (hw.sameLinks fun _ _ => rfl) fun i _ hc =>
        hw.rel (Q := fun w w' => w'.Comp → w.Comp) (fun _ hw => hw) (fun _ _ hcomp => hcomp)
          (g.hwPos + i) (by rwa [wordsAt, hbd] at hc)
    · show g.pre + pkts.length = pkts.length
      rw [hpre, Nat.zero_add]
    · rw [hbd, g.alloc_prePos, hpos]
    · show freeBdCount - pkts.length + 2 ≤ g.free - pkts.length
      omega
    · show min 2 g.size ≤ g.post + (g.free - pkts.length)
      omega

theorem OwnInv.recvSubmit (h : OwnInv s) {freeBdCount numgot : ℕ} {bdPtr : U32}
    (hstage : s.stage = .recvFilled freeBdCount numgot bdPtr) :
    OwnInv (s.recvSubmit freeBdCount numgot bdPtr) := by
  obtain ⟨g, k, ht, hok, hmargin⟩ := h.tracks
  rw [hstage] at hok
  obtain ⟨hpost, hpre, hptr, hfree⟩ := hok
  refine h.submit ht hmargin hpre.ge hptr fun g' r hbd hpost' hfree' hpre' => ?_
  refine ⟨hpost'.trans hpost, ?_⟩
  split_ifs at hpre' with hres
  · rw [if_pos hres]
    omega
  · rw [if_neg hres, hbd, hpre'.2]
    exact ⟨hpre'.1.trans hpre, hptr⟩

theorem OwnInv.recvFinish (h : OwnInv s) {freeBdCount numgot : ℕ} {bdPtr : U32} {result : XStatus}
    (hstage : s.stage = .recvSent freeBdCount numgot bdPtr result) :
    OwnInv (s.recvFinish freeBdCount numgot bdPtr result) := by
  obtain ⟨g, k, ht, hok, hmargin⟩ := h.tracks
  rw [hstage] at hok
  obtain ⟨hpost, hok⟩ := hok
  rw [OwnSys.recvFinish]
  by_cases hres : result = .success
  · rw [if_pos hres] at hok
    rw [if_neg (not_not.2 hres)]
    refine h.framed ht ?_ hmargin rfl
    split_ifs
    · exact ⟨hpost, hok⟩
    · exact ⟨hpost, hok.1⟩
  · rw [if_neg hres] at hok
    rw [if_pos hres, hok.2, ← hok.1]
    exact h.recover ht hmargin hpost .fromDevice g.prePos

/-! `PktHandler` -/

theorem OwnInv.fromHw (h : OwnInv s) (hidle : s.stage = .idle) (es : List (List Completion)) :
    OwnInv (s.fromHw es) := by
  obtain ⟨g, k, ht, hok, hmargin⟩ := h.tracks
  rw [hidle] at hok
  obtain ⟨hpost, hpre⟩ := hok
  obtain ⟨n, j, w, hn, heq, ht', hbase, hctrl, hstray, -, hstale⟩ := ht.fromHw dmaBdCnt es
  have hbd : bdAt w.chan.ring = bdAt s.watched.chan.ring := bdAt_congr (block_of_base hbase)
  rw [OwnSys.fromHw, heq]
  refine ⟨⟨g.fromHw n hn, j, ht', ?_, ?_⟩, ?_, hstray.trans h.stray, hstale.trans h.stale⟩
  · dsimp only
    split_ifs with hzero
    · refine ⟨?_, hpre⟩
      show g.post + n = 0
      omega
    · refine ⟨?_, hpre, ?_⟩
      · show g.post + n = n
        omega
      · show bdAt s.watched.chan.ring g.hwPos = bdAt w.chan.ring g.start
        rw [hbd, Split.hwPos, hpost, Nat.add_zero]
  · show min 2 g.size ≤ g.post + n + g.free
    omega
  · dsimp only
    rw [hctrl]
    exact h.enabled

theorem OwnInv.handle (h : OwnInv s) {n : ℕ} {bdPtr : U32} (hstage : s.stage = .retrieved n bdPtr) :
    OwnInv (s.handle n bdPtr) := by
  obtain ⟨g, k, ht, hok, hmargin⟩ := h.tracks
  rw [hstage] at hok
  obtain ⟨hpost, hpre, hptr⟩ := hok
  obtain ⟨c, heq, hparts, hbase, hregs, hw⟩ := ht.parts.handleBds hpost.symm
  have hbd : bdAt c.ring = bdAt s.watched.chan.ring := bdAt_congr (block_of_base hbase)
  have hzero : (0 : U32) &&& bdCompMask = 0 := by decide
  rw [OwnSys.handle, hptr, heq]
  refine h.framed (g := g.freeUp n hpost.ge) (k := k) ?_ ⟨?_, hpre⟩ ?_ hregs
  · exact ht.frame hparts (by rw [g.freeUp_hwPos]) rfl hbase hregs (hw.sameLinks fun _ _ => rfl)
      fun i _ hc => hw.rel (Q := fun w w' => w'.Comp → w.Comp) (fun _ hw => hw)
        (fun _ _ hcomp => absurd hzero hcomp) (g.hwPos + i) (by rwa [wordsAt, hbd] at hc)
  · show g.post - n = 0
    omega
  · show min 2 g.size ≤ g.post - n + (g.free + n)
    omega

/-- **One step.** -/
theorem OwnInv.step (h : OwnInv s) {thBhIsr : Bool} {a : OwnAct} {s' : OwnSys}
    (hstep : ownStep thBhIsr s a = some s') : OwnInv s' := by
  rw [ownStep.eq_def] at hstep
  split at hstep
  · rw [← Option.some.inj hstep]
    exact h.engine _
  · next bus pkts hidle =>
    split_ifs at hstep with hok
    rw [← Option.some.inj hstep]
    exact h.sendFill hidle thBhIsr bus hok.2.2
  · next hstage =>
    rw [← Option.some.inj hstep]
    exact h.sendSubmit hstage
  · next hstage =>
    rw [← Option.some.inj hstep]
    exact h.sendFinish hstage
  · next hidle =>
    split_ifs at hstep
    rw [← Option.some.inj hstep]
    exact h.recvBegin hidle
  · next hstage =>
    split_ifs at hstep with hle
    rw [← Option.some.inj hstep]
    exact h.recvFill hstage thBhIsr _ hle
  · next hstage =>
    rw [← Option.some.inj hstep]
    exact h.recvSubmit hstage
  · next hstage =>
    rw [← Option.some.inj hstep]
    exact h.recvFinish hstage
  · next hidle =>
    rw [← Option.some.inj hstep]
    exact h.fromHw hidle _
  · next hstage =>
    rw [← Option.some.inj hstep]
    exact h.handle hstage
  · cases hstep

/-- **A started ring**: the engine waits at the first BD. -/
theorem Started.ownInv {isRx : Bool} {c : Chan} (hc : Started isRx c) (intrCount : U32) :
    OwnInv (startedOwn c intrCount) := by
  obtain ⟨c₀, p, v, a, n, -, hok, hfits, rfl⟩ := hc
  have hparts := create_parts hok hfits
  have hlinked := created_linked hok hfits
  have hfields := (create_success hok).2.2.2
  have hkept := start_kept hparts
  have hcnt : (bdRingCreate c₀ p v a n).2.ring.allCnt ≠ 0 := by
    intro hzero
    have hpos := hparts.laid.cnt_pos
    rw [hzero] at hpos
    exact absurd hpos (lt_irrefl 0)
  have hstopped : (bdRingCreate c₀ p v a n).2.ring.runState = .dmaSgIsStopped := by rw [hfields]
  have hrestart : (bdRingCreate c₀ p v a n).2.ring.bdaRestart =
      (bdRingCreate c₀ p v a n).2.ring.firstBdPhysAddr := by rw [hfields]
  have hempty : ¬ 0 < (bdRingCreate c₀ p v a n).2.ring.hwCnt := by
    rw [hfields]
    exact lt_irrefl 0
  have hstart := bdRingStart_stopped hcnt hstopped
  generalize (bdRingCreate c₀ p v a n).2 = c at *
  rw [if_neg hempty] at hstart
  have hfirst : c.ring.bdaRestart = virtToPhys c.ring (bdAt c.ring 0) := by
    rw [hrestart, bdAt_zero, virtToPhys_first]
  refine ⟨⟨Split.fresh n.toNat, 0, ?_, ⟨rfl, rfl⟩, ?_⟩, ?_, rfl, rfl⟩
  · exact {
      parts := hkept.parts
      linked := by
        show Linked (bdRingStart c).2.ring (bdRingStart c).2.mem
        rw [hstart]
        exact hlinked
      le := Nat.zero_le _
      done := fun i hi => absurd hi (Nat.not_lt_zero i)
      opens := fun i _ hi => absurd hi (Nat.not_lt_zero i)
      regs := fun _ => by
        show (bdRingStart c).2.ring.runState = _ ∧ (bdRingStart c).2.regs.nextBd = _ ∧
          (bdRingStart c).2.regs.swNextBd = _
        simp only [startedOwn, watch, hstart]
        exact ⟨trivial, hfirst, hfirst⟩ }
  · show min 2 n.toNat ≤ 0 + n.toNat
    omega
  · show Flag (bdRingStart c).2.regs.ctrlStatus engEnableMask
    rw [hstart]
    have hset := crSrAfter_control engEnableMask (by decide) (by decide) (by decide)
      c.regs.ctrlStatus (c.regs.ctrlStatus ||| engEnableMask)
    have henabled : (enable c.regs).ctrlStatus &&& engEnableMask =
        (c.regs.ctrlStatus ||| engEnableMask) &&& engEnableMask := hset
    dsimp only
    rw [Flag, henabled, BitVec.and_or_distrib_right, BitVec.and_self]
    intro hzero
    exact absurd (BitVec.or_eq_zero_iff.1 hzero).2 (by decide)

end Steps

/-- **Ownership.** In every run, whatever the engine does between the ring functions and during the
polls, it stays in the Hardware group, and what is polled is what it has completed. -/
theorem engine_owns {isRx : Bool} (thBhIsr : Bool) (c : Chan) (hc : Started isRx c) (intrCount : U32)
    (acts : List OwnAct) (s : OwnSys)
    (hrun : run (ownStep thBhIsr) (startedOwn c intrCount) acts = some s) : Owned s.watched :=
  (run_inv' (I := OwnInv) (fun _ _ _ h hstep => h.step hstep) (hc.ownInv intrCount) hrun).owned

/-- A packet of two fragments. -/
def twoFragments : List PktBuf :=
  [⟨0x8000, 0x8000, 64, pktAll ||| bdSopMask, 0⟩, ⟨0x9000, 0x9000, 64, pktAll ||| bdEopMask, 0⟩]

/-- The engine sends the first fragment as soon as both are handed over, and the second during the
poll. -/
theorem engine_owns_sent : ∃ s,
    run (ownStep false) (startedOwn
        (bdRingStart (bdRingCreate (initializedChan false fun _ => 0) 0 0x1000 64 4).2).2 0)
      [.sendFill (fun _ => 0x8000) twoFragments, .sendSubmit, .engine ⟨0, 0, 0⟩, .sendFinish,
        .fromHw [[⟨0, 0, 0⟩]]] = some s ∧
    s.stage = .retrieved 2 0x1000 ∧ Owned s.watched := by
  have howned := engine_owns false _
    ⟨initializedChan false fun _ => 0, 0, 0x1000, 64, 4, rfl, by decide, by decide, rfl⟩ 0
    [.sendFill (fun _ => 0x8000) twoFragments, .sendSubmit, .engine ⟨0, 0, 0⟩, .sendFinish,
      .fromHw [[⟨0, 0, 0⟩]]] _ rfl
  exact ⟨_, rfl, by decide +kernel, howned⟩

/-- **The only BD.** Of a ring of one BD no two are outside the Pre and the Hardware group. -/
theorem only_bd : Started false
      (bdRingStart (bdRingCreate (initializedChan false fun _ => 0) 0 0x1000 64 1).2).2 ∧
    ¬ (bdRingStart (bdRingCreate (initializedChan false fun _ => 0) 0 0x1000 64 1).2).2.ring.hwCnt.toNat +
      (bdRingStart (bdRingCreate (initializedChan false fun _ => 0) 0 0x1000 64 1).2).2.ring.preCnt.toNat
        + 2 ≤
      (bdRingStart (bdRingCreate (initializedChan false fun _ => 0) 0 0x1000 64 1).2).2.ring.allCnt.toNat :=
  ⟨⟨initializedChan false fun _ => 0, 0, 0x1000, 64, 1, rfl, by decide, by decide, rfl⟩,
    by decide +kernel⟩

end Dma
