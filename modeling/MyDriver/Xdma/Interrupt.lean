import MyDriver.Xdma.ErrorCount
import MyDriver.Xdma.Register
import MyDriver.Xdma.Restart

/-!
# The interrupt build: `IntrCheck` and `IntrBH`

When it completes a BD that asks for it, an engine raises `DMA_ENG_INT_BDCOMP`. `IntrCheck`
acknowledges the interrupt, disables it and sets the bit of the engine in `PendingMask`; the tasklet
`IntrBH` resets that bit, runs `PktHandler` and enables the interrupt again. Most of these accesses
read, modify and write a register in which writing an event back acknowledges it, and the engines go
on all the while.

* `IntSys`, `intStep` — all engines, with what `IntrCheck` and `IntrBH` are about to do. The steps
  are the accesses to a register and the sections under a lock.
* `Noticed` — a completed BD that asked for an interrupt, and is still in the Hardware group, will
  be looked at.
* `Keeps` — the condition on the steps of `IntrBH` under which this stays so.
* `noticed_iff_keeps` — it is what a run needs, and nobody is forgotten with the interrupt disabled.
* `enable_loses` — the last access of `IntrBH` acknowledges what it has not looked at.
-/

namespace Dma

open Cyclic Runs

variable {υ : Type}

/-! ## The engine -/

/-- The engine completes the BD number `e.1` of the Hardware group and goes on to the next. It
raises its interrupt if the BD asks for it. -/
def complete (c : Chan) (e : ℕ × Completion) : Chan :=
  if e.1 < c.ring.hwCnt.toNat then
    let bd := (bdRingNext c.ring)^[e.1] c.ring.hwHead
    { c with
      mem := hwWrite c.mem bd (e.2.status ||| bdCompMask) e.2.usrl e.2.usrh
      regs := { c.regs with
        nextBd := bdRead c.mem bd bdNdescOffset
        ctrlStatus :=
          if Flag (bdRead c.mem bd bdBuflCtrlOffset) bdIntCompMask then
            c.regs.ctrlStatus ||| (engIntActiveMask ||| engIntBdcomp)
          else c.regs.ctrlStatus } }
  else c

def completes (c : Chan) (es : List (ℕ × Completion)) : Chan := es.foldl complete c

/-- A read-modify-write of the control and status register. Between the read and the write the
engine makes the completions `es`. -/
def rmwCrSr (c : Chan) (f : U32 → U32) (es : List (ℕ × Completion)) : Chan :=
  let reg := getCrSr c.regs
  let c := completes c es
  { c with regs := setCrSr c.regs (f reg) }

/-- `Dma_mEngIntEnable`, with the engine at work. -/
def engIntEnableAmid (c : Chan) (es : List (ℕ × Completion)) : Chan :=
  if c.ring.runState = .dmaSgIsStarted then rmwCrSr c (· ||| engIntEnableBit) es else completes c es

/-! ## The interrupt handler -/

def s2cEngIntVal : U32 := 0x00FF0000
def c2sEngIntVal : U32 := 0xFF000000

/-- Whether `imask` selects the engine `i`. -/
def imask (girqval : U32) (i : ℕ) : Bool :=
  if i < 32 then ((girqval &&& s2cEngIntVal) >>> 16).getLsbD i
  else ((girqval &&& c2sEngIntVal) >>> 24).getLsbD (i - 32)

def acks (dirqval : U32) : U32 :=
  let retval := (if Flag dirqval engEnableMask then engEnableMask else 0) |||
    (if Flag dirqval engIntActiveMask then engIntActiveMask else 0) |||
    (if Flag dirqval engIntBdcomp then engIntBdcomp else 0) |||
    (if Flag dirqval engIntAlerr then engIntAlerr else 0) |||
    (if Flag dirqval engIntFeterr then engIntFeterr else 0) |||
    (if Flag dirqval engIntAborterr then engIntAborterr else 0) |||
    (if Flag dirqval engIntChainend then engIntChainend else 0)
  if Flag dirqval engIntActiveMask then retval &&& ~~~engIntEnableBit else retval

/-- What `IntrCheck` does to the register of the engine `i` when it holds `IntrLock`. The engine
makes the completions `es` and `es''` inside the two accesses of the C2S branch, and `es'` between
them. -/
def ackEngine (i : ℕ) (dirqval : U32) (c : Chan) (es es' es'' : List (ℕ × Completion)) : Chan :=
  if i < 32 then { c with regs := setCrSr c.regs (acks dirqval) }
  else
    let c := rmwCrSr c (· ||| acks dirqval) es
    if Flag dirqval engIntBdcomp then rmwCrSr (completes c es') (· &&& ~~~engIntEnableBit) es'' else c

/-! ## The system -/

/-- Where `IntrCheck` stands. `found` is whether it is to return `XST_SUCCESS`. -/
inductive CheckStage where
  | idle
  /-- At the engine `i` of its loops. -/
  | loop (girqval : U32) (i : ℕ) (found : Bool)
  /-- It has read the register of the engine `i`. -/
  | read (girqval : U32) (i : ℕ) (found : Bool) (dirqval : U32)
deriving DecidableEq

/-- Where `IntrBH` stands. -/
inductive BhStage where
  | idle
  | scan (i : ℕ)
  /-- It has reset the bit in `PendingMask`. -/
  | taken (i : ℕ)
  /-- The first section of `PktHandler` is done. -/
  | retrieved (i : ℕ)
  /-- `PktHandler` has returned. -/
  | handled (i : ℕ)
deriving DecidableEq

/-- What `IntrBH` is doing with an engine. -/
inductive BhPlace where
  | away
  | taken
  /-- `Dma_BdRingFromHw` has been executed, the interrupt is still to be enabled. -/
  | polled
deriving DecidableEq

def BhStage.place : BhStage → ℕ → BhPlace
  | .taken i, k => if k = i then .taken else .away
  | .retrieved i, k => if k = i then .polled else .away
  | .handled i, k => if k = i then .polled else .away
  | _, _ => .away

/-- What does not change: the user drivers, and which engines there are and are assigned. -/
structure IntEnv (υ : Type) where
  user : ℕ → UserPtrs υ
  engineState : ℕ → DmaState
  engineMask : BitVec 64

/-- The engines by their number; `scheduled` says that the tasklet is to run. -/
structure IntSys (υ : Type) where
  dev : ℕ → Dev υ
  pendingMask : BitVec 64
  check : CheckStage
  scheduled : Bool
  bh : BhStage

namespace IntSys

def setDev (s : IntSys υ) (k : ℕ) (d : Dev υ) : IntSys υ := { s with dev := Function.update s.dev k d }

def setChan (s : IntSys υ) (k : ℕ) (c : Chan) : IntSys υ := s.setDev k { s.dev k with chan := c }

/-- `DmaSendPkt` on the engine `k`. -/
def send (env : IntEnv υ) (s : IntSys υ) (k : ℕ) (bus : ℕ → U32) (pkts : List PktBuf) : IntSys υ :=
  let d := s.dev k
  let sent := dmaSendPkt .initialized (env.engineState k) true bus pkts d.chan d.intrCount
  s.setDev k { d with chan := sent.2.1, intrCount := sent.2.2.1 }

/-- A pass of the loops of `IntrCheck` up to the read of the register, or their end. -/
def look (env : IntEnv υ) (s : IntSys υ) (girqval : U32) (i : ℕ) (found : Bool) : IntSys υ :=
  if i = 39 then
    { s with
      check := .idle
      scheduled := s.scheduled || (decide (s.pendingMask ≠ 0) && found) }
  else if i = 7 then { s with check := .loop girqval 32 found }
  else if imask girqval i = true ∧ env.engineMask.getLsbD i = true then
    { s with check := .read girqval i found (getCrSr (s.dev i).chan.regs) }
  else { s with check := .loop girqval (i + 1) found }

/-- The rest of the pass. -/
def ack (s : IntSys υ) (girqval : U32) (i : ℕ) (found : Bool) (dirqval : U32)
    (es es' es'' : List (ℕ × Completion)) : IntSys υ :=
  if Flag dirqval engIntActiveMask ∧ Flag dirqval engIntEnableBit then
    { s.setChan i (ackEngine i dirqval (s.dev i).chan es es' es'') with
      pendingMask :=
        if Flag dirqval engIntBdcomp then s.pendingMask ||| BitVec.twoPow 64 i else s.pendingMask
      check := .loop girqval (i + 1) true }
  else { s with check := .loop girqval (i + 1) found }

/-- A pass of the loop of `IntrBH` up to its call of `PktHandler`. -/
def scan (env : IntEnv υ) (s : IntSys υ) (i : ℕ) : IntSys υ :=
  if s.pendingMask = 0 ∨ 64 ≤ i then { s with bh := .idle }
  else if s.pendingMask.getLsbD i = true then
    { s with
      pendingMask := s.pendingMask &&& ~~~BitVec.twoPow 64 i
      bh := if env.engineState i = .userAssigned then .taken i else .scan (i + 1) }
  else { s with bh := .scan (i + 1) }

/-- The first section of `PktHandler`. The engine makes the completions `es[t]` just before the word
read number `t` of `Dma_BdRingFromHw`. -/
def retrieve (s : IntSys υ) (i : ℕ) (es : List (List (ℕ × Completion))) : IntSys υ :=
  let c := (s.dev i).chan
  let got := pktHandlerRetrieve (fun t => (completes c (es.take (t + 1)).flatten).mem)
    (completes c es.flatten)
  { s.setChan i got.2.1 with bh := if got.1 = none then .handled i else .retrieved i }

/-- The second one, with the user driver in the state `u`. -/
def refill (env : IntEnv υ) (s : IntSys υ) (i : ℕ) (u : υ) (bus : ℕ → U32) : IntSys υ :=
  { s.setDev i (pktHandlerRefill (env.user i) true bus { s.dev i with user := u }).1 with
    bh := .handled i }

def enable (s : IntSys υ) (i : ℕ) (es : List (ℕ × Completion)) : IntSys υ :=
  { s.setChan i (engIntEnableAmid (s.dev i).chan es) with bh := .scan (i + 1) }

end IntSys

inductive IntAct (υ : Type) where
  | complete (k : ℕ) (e : ℕ × Completion)
  | send (k : ℕ) (bus : ℕ → U32) (pkts : List PktBuf)
  /-- An interrupt: `IntrCheck` reads `girqval` from `REG_DMA_CTRL_STATUS`. -/
  | irq (girqval : U32)
  | look
  | ack (es es' es'' : List (ℕ × Completion))
  | tasklet
  | scan
  | retrieve (es : List (List (ℕ × Completion)))
  | refill (u : υ) (bus : ℕ → U32)
  | enable (es : List (ℕ × Completion))

def intStep (env : IntEnv υ) (s : IntSys υ) : IntAct υ → Option (IntSys υ)
  | .complete k e => some (s.setChan k (complete (s.dev k).chan e))
  | .send k bus pkts => if WholePkts pkts then some (s.send env k bus pkts) else none
  | .irq girqval =>
    match s.check with
    | .idle => some { s with check := .loop girqval 0 false }
    | _ => none
  | .look =>
    match s.check with
    | .loop girqval i found => some (s.look env girqval i found)
    | _ => none
  | .ack es es' es'' =>
    match s.check with
    | .read girqval i found dirqval => some (s.ack girqval i found dirqval es es' es'')
    | _ => none
  | .tasklet =>
    match s.bh with
    | .idle => if s.scheduled = true then some { s with scheduled := false, bh := .scan 0 } else none
    | _ => none
  | .scan =>
    match s.bh with
    | .scan i => some (s.scan env i)
    | _ => none
  | .retrieve es =>
    match s.bh with
    | .taken i => some (s.retrieve i es)
    | _ => none
  | .refill u bus =>
    match s.bh with
    | .retrieved i => some (s.refill env i u bus)
    | _ => none
  | .enable es =>
    match s.bh with
    | .handled i => some (s.enable i es)
    | _ => none

/-! ## Registered engines -/

/-- `DmaRegister` from `Dma_BdRingCreate` on: the ring is filled if it is for reception, started,
and the interrupt enabled. -/
def afterRegister (user : UserPtrs υ) (bus : ℕ → U32) (d : Dev υ) : Dev υ :=
  let d := (pktHandlerRefill user true bus d).1
  { d with chan := engIntEnable (bdRingStart d.chan).2 }

def Registered (user : UserPtrs υ) (d' : Dev υ) : Prop :=
  ∃ (d : Dev υ) (bus : ℕ → U32) (physAddr virtAddr alignment bdCount : U32),
    (bdRingCreate d.chan physAddr virtAddr alignment bdCount).1 = .success ∧
    Fits virtAddr (bdRingCreate d.chan physAddr virtAddr alignment bdCount).2.ring.separation bdCount ∧
    d' = afterRegister user bus
      { d with chan := (bdRingCreate d.chan physAddr virtAddr alignment bdCount).2 }

/-- All assigned engines have been registered, and nothing has happened since. -/
structure IntStart (env : IntEnv υ) (s : IntSys υ) : Prop where
  registered : ∀ k, env.engineState k = .userAssigned → Registered (env.user k) (s.dev k)
  pendingMask : s.pendingMask = 0
  check : s.check = .idle
  bh : s.bh = .idle

/-! ## What is promised -/

/-- `DMA_ENG_INT_BDCOMP` is set. -/
def Raised (c : Chan) : Prop := Flag c.regs.ctrlStatus engIntBdcomp

def IntEnabled (c : Chan) : Prop := Flag c.regs.ctrlStatus engIntEnableBit

/-- A BD of the Hardware group is completed and has asked for an interrupt. -/
def Owes (c : Chan) : Prop :=
  ∃ bd ∈ hwBds c.ring, (bdWords c.mem bd).Comp ∧ Flag (bdWords c.mem bd).ctrl bdIntCompMask

instance (c : Chan) : Decidable (Raised c) := by unfold Raised; infer_instance
instance (c : Chan) : Decidable (IntEnabled c) := by unfold IntEnabled; infer_instance
instance (c : Chan) : Decidable (Owes c) :=
  decidable_of_iff ((hwBds c.ring).any fun bd =>
      decide ((bdWords c.mem bd).Comp ∧ Flag (bdWords c.mem bd).ctrl bdIntCompMask))
    (List.any_eq_true.trans (by simp only [decide_eq_true_eq]; exact Iff.rfl))

/-- If there is such a BD, the interrupt is up and enabled, or `IntrBH` is about to enable it; or
the engine is in `PendingMask`; or `IntrBH` is about to poll it. -/
def Noticed (s : IntSys υ) (k : ℕ) : Prop :=
  Owes (s.dev k).chan →
    (Raised (s.dev k).chan ∧ (IntEnabled (s.dev k).chan ∨ s.bh.place k = .polled)) ∨
    s.pendingMask.getLsbD k = true ∨ s.bh.place k = .taken

/-- With its interrupt disabled, the engine is in `PendingMask` or `IntrBH` is at it. -/
def Attended (s : IntSys υ) (k : ℕ) : Prop :=
  ¬ IntEnabled (s.dev k).chan → s.pendingMask.getLsbD k = true ∨ s.bh.place k ≠ .away

instance (s : IntSys υ) (k : ℕ) : Decidable (Noticed s k) := by unfold Noticed; infer_instance

/-- The poll during which the engine makes the completions `es`: another completion is up at its
end, or the completed BDs that ask for an interrupt are in packets whose BDs it has all seen
finished. -/
def PollKeeps (c : Chan) (es : List (List (ℕ × Completion))) : Prop :=
  Raised (completes c es.flatten) ∨
    ∀ j < c.ring.hwCnt.toNat,
      (bdWords (completes c es.flatten).mem ((bdRingNext c.ring)^[j] c.ring.hwHead)).Comp →
      Flag (bdWords (completes c es.flatten).mem ((bdRingNext c.ring)^[j] c.ring.hwHead)).ctrl
        bdIntCompMask →
      PacketEnds c.ring (fun t => (completes c (es.take (t + 1)).flatten).mem)
        (min dmaBdCnt.toNat c.ring.hwCnt.toNat) j

/-- `Dma_mEngIntEnable`, inside of which the engine makes the completions `es`: it reads no
completion, or there is none to be noticed. -/
def EnableKeeps (c : Chan) (es : List (ℕ × Completion)) : Prop :=
  ¬ Raised c ∨ ¬ Owes (completes c es)

instance (c : Chan) (es : List (List (ℕ × Completion))) : Decidable (PollKeeps c es) := by
  unfold PollKeeps; infer_instance

instance (c : Chan) (es : List (ℕ × Completion)) : Decidable (EnableKeeps c es) := by
  unfold EnableKeeps; infer_instance

def Keeps (s : IntSys υ) : IntAct υ → Prop
  | .retrieve es =>
    match s.bh with
    | .taken i => PollKeeps (s.dev i).chan es
    | _ => True
  | .enable es =>
    match s.bh with
    | .handled i => EnableKeeps (s.dev i).chan es
    | _ => True
  | _ => True

instance (s : IntSys υ) (a : IntAct υ) : Decidable (Keeps s a) := by
  cases a <;> unfold Keeps <;> cases s.bh <;> infer_instance

/-! ## Completions -/

/-- `DMA_ENG_INT_ACTIVE_MASK` is set together with the event. -/
def InSync (ctrlStatus : U32) : Prop := Flag ctrlStatus engIntActiveMask ↔ Flag ctrlStatus engIntBdcomp

instance (ctrlStatus : U32) : Decidable (InSync ctrlStatus) := by unfold InSync; infer_instance

/-- What completions keep. -/
structure Onward (c c' : Chan) : Prop where
  ring : c'.ring = c.ring
  intEnabled : IntEnabled c' ↔ IntEnabled c
  inSync : InSync c.regs.ctrlStatus → InSync c'.regs.ctrlStatus
  raised : Raised c → Raised c'
  owes : Owes c' → Owes c ∨ Raised c'

section Completions

variable {c c' c'' : Chan} {g : Split}

theorem Onward.refl (c : Chan) : Onward c c := ⟨rfl, Iff.rfl, id, id, Or.inl⟩

theorem Onward.trans (h : Onward c c') (h' : Onward c' c'') : Onward c c'' := by
  refine ⟨h'.ring.trans h.ring, h'.intEnabled.trans h.intEnabled, fun hs => h'.inSync (h.inSync hs),
    fun hr => h'.raised (h.raised hr), fun ho => ?_⟩
  rcases h'.owes ho with ho | hr
  · rcases h.owes ho with ho | hr
    · exact Or.inl ho
    · exact Or.inr (h'.raised hr)
  · exact Or.inr hr

/-- The rings are what `Settled` speaks about. -/
theorem Settled.onward (hs : Settled c g) (h : Onward c c') : Settled c' g := by
  have hparts := hs.parts
  rw [← h.ring] at hparts
  exact ⟨hparts, hs.post, hs.pre, hs.room⟩

theorem Parts.owes_iff (h : Parts c.ring g) : Owes c ↔ ∃ i < g.hw,
    (wordsAt c (g.hwPos + i)).Comp ∧ Flag (wordsAt c (g.hwPos + i)).ctrl bdIntCompMask := by
  rw [Owes, h.hwBds_eq]
  constructor
  · rintro ⟨bd, hbd, hdone⟩
    obtain ⟨i, hi, rfl⟩ := mem_arc.1 hbd
    exact ⟨i, hi, hdone⟩
  · rintro ⟨i, hi, hdone⟩
    exact ⟨_, mem_arc.2 ⟨i, hi, rfl⟩, hdone⟩

/-- **A completion.** It changes one BD, and if this one has asked for an interrupt, it is raised.
-/
theorem Parts.complete (h : Parts c.ring g) (e : ℕ × Completion) : Onward c (complete c e) := by
  unfold Dma.complete
  by_cases hlt : e.1 < c.ring.hwCnt.toNat
  · rw [if_pos hlt, h.hwHead, h.laid.iterate_next]
    dsimp only
    have he := edits_hwWrite (e.2.status ||| bdCompMask) e.2.usrl e.2.usrh
    have hctrl : bdRead c.mem (bdAt c.ring (g.hwPos + e.1)) bdBuflCtrlOffset =
        (wordsAt c (g.hwPos + e.1)).ctrl := rfl
    rw [hctrl]
    by_cases hask : Flag (wordsAt c (g.hwPos + e.1)).ctrl bdIntCompMask
    · rw [if_pos hask]
      have hup : ∀ mask, Flag (engIntActiveMask ||| engIntBdcomp) mask →
          Flag (c.regs.ctrlStatus ||| (engIntActiveMask ||| engIntBdcomp)) mask :=
        fun mask hmask => flag_or_iff.2 (Or.inr hmask)
      refine ⟨rfl, ?_, fun _ => ?_, fun _ => hup _ (by decide), fun _ => Or.inr (hup _ (by decide))⟩
      · refine ⟨fun hen => ?_, fun hen => flag_or_iff.2 (Or.inl hen)⟩
        exact (flag_or_iff.1 hen).resolve_right (by decide)
      · exact iff_of_true (hup _ (by decide)) (hup _ (by decide))
    · rw [if_neg hask]
      refine ⟨rfl, Iff.rfl, id, id, fun ho => Or.inl ?_⟩
      obtain ⟨i, hi, hcomp, hflag⟩ := Parts.owes_iff (c := { c with
        mem := hwWrite c.mem (bdAt c.ring (g.hwPos + e.1)) (e.2.status ||| bdCompMask) e.2.usrl
          e.2.usrh
        regs := { c.regs with
          nextBd := bdRead c.mem (bdAt c.ring (g.hwPos + e.1)) bdNdescOffset } }) h |>.1 ho
      rw [wordsAt] at hcomp hflag
      dsimp only at hcomp hflag
      refine h.owes_iff.2 ⟨i, hi, ?_⟩
      by_cases heq : bdAt c.ring (g.hwPos + i) = bdAt c.ring (g.hwPos + e.1)
      · -- The BD itself has not asked.
        rw [heq, he.words] at hflag
        exact absurd hflag hask
      · rw [he.other h.laid c.mem heq] at hcomp hflag
        exact ⟨hcomp, hflag⟩
  · rw [if_neg hlt]
    exact .refl c

theorem Parts.completes (h : Parts c.ring g) (es : List (ℕ × Completion)) :
    Onward c (completes c es) := by
  induction es generalizing c with
  | nil => exact .refl c
  | cons e es ih =>
    have hfirst := h.complete e
    have hparts : Parts (Dma.complete c e).ring g := by
      rw [hfirst.ring]
      exact h
    exact hfirst.trans (ih hparts)

/-- The engine of a watched ring makes one of these completions, namely that of the BD it stands at.
-/
theorem Tracks.complete {s : Watched} {k : ℕ} (h : Tracks s g k) (hready : EngineReady s.chan)
    (e : Completion) :
    ∃ ctrlStatus, Dma.complete s.chan (k, e) =
      { engineStep s.chan e with
        regs := { (engineStep s.chan e).regs with ctrlStatus := ctrlStatus } } := by
  obtain ⟨hlt, hbd⟩ := h.ready hready
  rw [Dma.complete, if_pos (by rw [h.parts.hwCnt]; exact hlt), h.parts.hwHead,
    h.parts.laid.iterate_next, engineStep, hbd]
  exact ⟨_, rfl⟩

end Completions

/-! ## Accesses to the register -/

theorem ite_flag {mask : U32} {i : ℕ} (hi : i < 32) (hmask : mask = BitVec.twoPow 32 i) (w : U32) :
    (if Flag w mask then mask else 0) = w &&& mask := by
  rw [hmask]
  by_cases hflag : Flag w (BitVec.twoPow 32 i)
  · have hbit := (flag_twoPow hi).1 hflag
    rw [if_pos hflag, BitVec.and_twoPow, if_pos hbit]
  · rw [if_neg hflag, not_not.1 hflag]

/-- `Acks` writes back `DMA_ENG_ENABLE` and all events, and leaves `DMA_ENG_INT_ENABLE` out. -/
theorem acks_eq (dirqval : U32) : acks dirqval = dirqval &&& (engEnableMask ||| engAllintMask) := by
  have hall : engEnableMask ||| engIntActiveMask ||| engIntBdcomp ||| engIntAlerr ||| engIntFeterr |||
      engIntAborterr ||| engIntChainend = engEnableMask ||| engAllintMask := by decide
  have hkeep : (engEnableMask ||| engAllintMask) &&& ~~~engIntEnableBit =
      engEnableMask ||| engAllintMask := by decide
  unfold acks
  rw [ite_flag (i := 8) (by decide) (by decide), ite_flag (i := 1) (by decide) (by decide),
    ite_flag (i := 2) (by decide) (by decide), ite_flag (i := 3) (by decide) (by decide),
    ite_flag (i := 4) (by decide) (by decide), ite_flag (i := 5) (by decide) (by decide),
    ite_flag (i := 7) (by decide) (by decide)]
  simp only [← BitVec.and_or_distrib_left]
  rw [hall, BitVec.and_assoc, hkeep, ite_self]

theorem flag_acks {mask : U32} (hmask : (engEnableMask ||| engAllintMask) &&& mask = mask)
    (dirqval : U32) : Flag (acks dirqval) mask ↔ Flag dirqval mask := by
  rw [Flag, acks_eq, Words.and_and_of_sub hmask]

theorem not_flag_acks (dirqval : U32) : ¬ Flag (acks dirqval) engIntEnableBit := by
  have hmask : (engEnableMask ||| engAllintMask) &&& engIntEnableBit = 0 := by decide
  rw [Flag, acks_eq, Words.and_and_of_disjoint hmask]
  exact fun h => h rfl

theorem flag_and_not {mask : U32} (hmask : ~~~engIntEnableBit &&& mask = mask) (w : U32) :
    Flag (w &&& ~~~engIntEnableBit) mask ↔ Flag w mask := by
  rw [Flag, Words.and_and_of_sub hmask]

theorem InSync.or {a b : U32} (ha : InSync a) (hb : InSync b) : InSync (a ||| b) := by
  rw [InSync, flag_or_iff, flag_or_iff]
  exact or_congr ha hb

theorem InSync.acks {dirqval : U32} (h : InSync dirqval) : InSync (acks dirqval) := by
  rw [InSync, flag_acks (by decide), flag_acks (by decide)]
  exact h

theorem InSync.crSrAfter {old data : U32} (hold : InSync old) (hdata : InSync data) :
    InSync (crSrAfter old data) := by
  rw [InSync, flag_crSrAfter_active, flag_crSrAfter_bdcomp]
  exact and_congr hold (not_congr hdata)

/-- A started ring between two sections, with its register. -/
structure Running (c : Chan) : Prop where
  settled : ∃ g, Settled c g
  started : c.ring.runState = .dmaSgIsStarted
  inSync : InSync c.regs.ctrlStatus

section Accesses

variable {c c' : Chan}

theorem Running.onward (h : Running c) (ho : Onward c c') : Running c' := by
  obtain ⟨g, hs⟩ := h.settled
  refine ⟨⟨g, hs.onward ho⟩, ?_, ho.inSync h.inSync⟩
  rw [ho.ring]
  exact h.started

theorem Running.goesOn (h : Running c) (es : List (ℕ × Completion)) : Onward c (completes c es) := by
  obtain ⟨g, hs⟩ := h.settled
  exact hs.parts.completes es

theorem Running.setCrSr (h : Running c) {data : U32} (hdata : InSync data) :
    Running { c with regs := setCrSr c.regs data } := by
  obtain ⟨g, hs⟩ := h.settled
  exact ⟨⟨g, hs.parts, hs.post, hs.pre, hs.room⟩, h.started, h.inSync.crSrAfter hdata⟩

theorem Running.rmwCrSr (h : Running c) {f : U32 → U32} (hf : ∀ w, InSync w → InSync (f w))
    (es : List (ℕ × Completion)) : Running (rmwCrSr c f es) :=
  (h.onward (h.goesOn es)).setCrSr (hf _ h.inSync)

/-- Undisturbed, the access is the one of the driver. -/
theorem engIntEnableAmid_calm (c : Chan) : engIntEnableAmid c [] = engIntEnable c := rfl

/-- **`Dma_mEngIntEnable`.** The completions that it has read are acknowledged. -/
theorem Running.engIntEnable (h : Running c) (es : List (ℕ × Completion)) :
    Running (engIntEnableAmid c es) ∧ IntEnabled (engIntEnableAmid c es) ∧
      (Raised (engIntEnableAmid c es) ↔ Raised (completes c es) ∧ ¬ Raised c) ∧
      (Owes (engIntEnableAmid c es) ↔ Owes (completes c es)) := by
  have hbit : InSync engIntEnableBit := by decide
  rw [engIntEnableAmid, if_pos h.started]
  refine ⟨h.rmwCrSr (fun w hw => hw.or hbit) es, ?_, ?_, Iff.rfl⟩
  · exact (flag_crSrAfter_intEnable _ _).2 (flag_or_iff.2 (Or.inr (by decide)))
  · refine (flag_crSrAfter_bdcomp _ _).trans (and_congr_right fun _ => not_congr ?_)
    exact flag_or_iff.trans (or_iff_left (by decide))

/-- **`IntrCheck` on an engine with a completion**: afterwards its interrupt is disabled. -/
theorem Running.ackEngine (h : Running c) {dirqval : U32} (hsync : InSync dirqval) (i : ℕ)
    (es es' es'' : List (ℕ × Completion)) : Running (ackEngine i dirqval c es es' es'') ∧
      (Flag dirqval engIntBdcomp → ¬ IntEnabled (ackEngine i dirqval c es es' es'')) := by
  unfold Dma.ackEngine
  by_cases hs2c : i < 32
  · rw [if_pos hs2c]
    refine ⟨h.setCrSr hsync.acks, fun _ hen => ?_⟩
    exact not_flag_acks dirqval ((flag_crSrAfter_intEnable _ _).1 hen)
  · rw [if_neg hs2c]
    dsimp only
    have hack := h.rmwCrSr (fun w hw => hw.or hsync.acks) es
    by_cases hcomp : Flag dirqval engIntBdcomp
    · rw [if_pos hcomp]
      have hmore := hack.onward (hack.goesOn es')
      refine ⟨hmore.rmwCrSr (fun w hw => ?_) es'', fun _ hen => ?_⟩
      · rw [InSync, flag_and_not (by decide), flag_and_not (by decide)]
        exact hw
      · have hoff := (flag_crSrAfter_intEnable _ _).1 hen
        rw [Flag, BitVec.and_assoc] at hoff
        exact hoff (by rw [show ~~~engIntEnableBit &&& engIntEnableBit = 0#32 by decide,
          BitVec.and_zero]; rfl)
    · rw [if_neg hcomp]
      exact ⟨hack, fun h => absurd h hcomp⟩

end Accesses

/-! ## The sections under `DmaLock` -/

/-- The sections write to no control and status register. -/
theorem toHw_ctrlStatus (c : Chan) (numBd bdSetPtr : U32) :
    (bdRingToHw c numBd bdSetPtr).2.regs.ctrlStatus = c.regs.ctrlStatus := by
  unfold bdRingToHw
  dsimp only
  split_ifs <;> rfl

theorem sendFill_regs {thBhIsr : Bool} {bus : ℕ → U32} {pkts : List PktBuf} {c c' : Chan}
    {intrCount ic : U32} {s : Sending} {evs : List Ev}
    (h : sendFill thBhIsr bus pkts c intrCount = some (s, c', ic, evs)) : c'.regs = c.regs := by
  unfold sendFill at h
  dsimp only at h
  by_cases hfree : c.ring.freeCnt.toNat ≤ 2
  · rw [if_pos hfree] at h
    cases h
  · rw [if_neg hfree] at h
    cases hr : bdRingAlloc c.ring (BitVec.ofNat 32 (min pkts.length (c.ring.freeCnt.toNat - 2))) with
    | error e =>
      rw [hr] at h
      cases h
    | ok got =>
      rw [hr] at h
      cases h
      rfl

theorem sendPkt_ctrlStatus (driverState engineState : DmaState) (thBhIsr : Bool) (bus : ℕ → U32)
    (pkts : List PktBuf) (c : Chan) (intrCount : U32) :
    (dmaSendPkt driverState engineState thBhIsr bus pkts c intrCount).2.1.regs.ctrlStatus =
      c.regs.ctrlStatus := by
  unfold dmaSendPkt
  split_ifs
  · rfl
  · cases hfill : sendFill thBhIsr bus pkts c intrCount with
    | none => rfl
    | some filled =>
      obtain ⟨s, c', ic, evs⟩ := filled
      have hfinish : ∀ result c, (sendFinish s result c).2.1.regs = c.regs := fun result c => by
        unfold sendFinish
        split_ifs <;> rfl
      dsimp only
      rw [hfinish, sendSubmit, toHw_ctrlStatus, sendFill_regs hfill]

theorem recvFill_regs {thBhIsr : Bool} {bus : ℕ → U32} {pkts : List PktBuf} {c c' : Chan}
    {intrCount ic bdPtr : U32} {evs : List Ev}
    (h : recvFill thBhIsr bus pkts c intrCount = some (bdPtr, c', ic, evs)) : c'.regs = c.regs := by
  unfold recvFill at h
  dsimp only at h
  cases hr : bdRingAlloc c.ring (BitVec.ofNat 32 pkts.length) with
  | error e =>
    rw [hr] at h
    cases h
  | ok got =>
    rw [hr] at h
    cases h
    rfl

theorem recvPass_ctrlStatus (user : UserPtrs υ) (thBhIsr : Bool) (bus : ℕ → U32) (freeBdCount : ℕ)
    (d : Dev υ) : (recvPass user thBhIsr bus freeBdCount d).dev.chan.regs.ctrlStatus =
      d.chan.regs.ctrlStatus := by
  unfold recvPass
  dsimp only
  split_ifs
  · rfl
  · cases hfill : recvFill thBhIsr bus (user.getPkt d.user freeBdCount).1 d.chan d.intrCount with
    | none => rfl
    | some filled =>
      obtain ⟨bdPtr, c', ic, evs⟩ := filled
      dsimp only
      split_ifs
      · rw [recoverBds, toHw_ctrlStatus, recvFill_regs hfill]
      · rw [toHw_ctrlStatus, recvFill_regs hfill]

theorem setupRecvLoop_ctrlStatus (user : UserPtrs υ) (thBhIsr : Bool) (bound : ℕ) (bus : ℕ → U32)
    (freeBdCount : ℕ) (d : Dev υ) :
    (setupRecvLoop user thBhIsr bound bus freeBdCount d).1.chan.regs.ctrlStatus =
      d.chan.regs.ctrlStatus := by
  induction bound generalizing bus freeBdCount d with
  | zero => rfl
  | succ bound ih =>
    rw [setupRecvLoop]
    dsimp only
    split_ifs
    · rw [ih, recvPass_ctrlStatus]
    · exact recvPass_ctrlStatus user thBhIsr bus freeBdCount d

theorem refill_ctrlStatus (user : UserPtrs υ) (thBhIsr : Bool) (bus : ℕ → U32) (d : Dev υ) :
    (pktHandlerRefill user thBhIsr bus d).1.chan.regs.ctrlStatus = d.chan.regs.ctrlStatus := by
  unfold pktHandlerRefill setupRecvBuffers
  dsimp only
  split_ifs
  · rfl
  · exact setupRecvLoop_ctrlStatus user thBhIsr _ bus _ d
  · rfl

/-- BDs that are not completed have been added. -/
structure Adds (c c' : Chan) : Prop where
  running : Running c'
  ctrlStatus : c'.regs.ctrlStatus = c.regs.ctrlStatus
  owes : Owes c' → Owes c

section Handler

variable {c c' : Chan} {g g' : Split}

theorem Settled.owes_of_grown (hs : Settled c g) (hs' : Settled c' g') (hpos : g'.hwPos = g.hwPos)
    (hold : ∀ i < g.hw, wordsAt c' (g.hwPos + i) = wordsAt c (g.hwPos + i))
    (hnew : ∀ i, g.hw ≤ i → i < g'.hw → ¬ (wordsAt c' (g.hwPos + i)).Comp) (ho : Owes c') :
    Owes c := by
  obtain ⟨i, hi, hcomp, hask⟩ := hs'.parts.owes_iff.1 ho
  rw [hpos] at hcomp hask
  by_cases hin : i < g.hw
  · rw [hold i hin] at hcomp hask
    exact hs.parts.owes_iff.2 ⟨i, hin, hcomp, hask⟩
  · exact absurd hcomp (hnew i (not_lt.1 hin) hi)

theorem Running.sendPkt (h : Running c) (bus : ℕ → U32) {pkts : List PktBuf} (hwhole : WholePkts pkts)
    (intrCount : U32) :
    Adds c (dmaSendPkt .initialized .userAssigned true bus pkts c intrCount).2.1 := by
  have hctrl := sendPkt_ctrlStatus .initialized .userAssigned true bus pkts c intrCount
  have hsync := h.inSync
  rw [← hctrl] at hsync
  obtain ⟨g, hs⟩ := h.settled
  cases hrx : c.ring.isRxChannel with
  | true =>
    rw [dmaSendPkt_rx hrx true bus pkts intrCount]
    exact ⟨h, rfl, id⟩
  | false =>
    obtain ⟨n, c', ic, hn, heq, -, hs', hbase, hgrown, -⟩ :=
      hs.sendPkt hrx true bus pkts intrCount (hwhole.1.take _).anchored
    rw [heq] at hsync hctrl ⊢
    refine ⟨⟨⟨_, hs'⟩, (runState_congr hbase).trans h.started, hsync⟩, hctrl, fun ho => ?_⟩
    refine hs.owes_of_grown hs' rfl hgrown.old (fun i hi hlt => ?_) ho
    obtain ⟨j, rfl⟩ := Nat.exists_eq_add_of_le hi
    have hlt' : g.hw + j < g.hw + n := hlt
    rw [← Nat.add_assoc, g.hwPos_add]
    exact hgrown.fresh j (by omega)

theorem Running.refill {d : Dev υ} (h : Running d.chan) (user : UserPtrs υ) (bus : ℕ → U32) :
    Adds d.chan (pktHandlerRefill user true bus d).1.chan := by
  have hctrl := refill_ctrlStatus user true bus d
  have hsync := h.inSync
  rw [← hctrl] at hsync
  obtain ⟨g, hs⟩ := h.settled
  obtain ⟨g', hs', hbase, hpos, -, hold, hnew⟩ := hs.refill_fresh user true bus
  refine ⟨⟨⟨g', hs'⟩, (runState_congr hbase).trans h.started, hsync⟩, hctrl, fun ho => ?_⟩
  exact hs.owes_of_grown hs' hpos hold (fun i hi hlt => (hnew i hi hlt).1) ho

/-- **What a poll takes**: the BDs up to the last one that ends a packet, if all are finished. -/
theorem Parts.lt_iff_packetEnds {r : BdRing} (h : Parts r g) {rd : ℕ → Mem} {bdLimit : U32} {k : ℕ}
    (hwhole : WholePackets (hwSeen r rd g) r.isRxChannel (min bdLimit.toNat g.hw) k) (j : ℕ) :
    j < k ↔ PacketEnds r rd (min bdLimit.toNat r.hwCnt.toNat) j := by
  rw [h.hwCnt]
  constructor
  · intro hj
    have hpos : 0 < k := by omega
    have hle := hwhole.le
    refine ⟨k - 1, by omega, by omega, fun i hi => ?_, ?_⟩
    · rw [h.scanAt_eq]
      exact hwhole.done i (by omega)
    · rw [h.scanAt_eq]
      exact hwhole.boundary hpos
  · rintro ⟨i, hi, hji, hfin, hends⟩
    rw [h.scanAt_eq] at hends
    by_contra hjk
    obtain ⟨l, hl, hnot⟩ := hwhole.max i (by omega) hi hends
    have hdone := hfin l (by omega)
    rw [h.scanAt_eq] at hdone
    exact hnot hdone

/-- **The poll.** What it leaves is owed exactly if it is not among the packets it has seen
finished. -/
theorem Running.poll (h : Running c) (es : List (List (ℕ × Completion))) :
    let got := pktHandlerRetrieve (fun t => (completes c (es.take (t + 1)).flatten).mem)
      (completes c es.flatten)
    Running got.2.1 ∧ got.2.1.regs = (completes c es.flatten).regs ∧
      ((Owes got.2.1 → Raised got.2.1) ↔ PollKeeps c es) := by
  intro got
  have hd := h.goesOn es.flatten
  have hrunning := h.onward hd
  obtain ⟨g, hs⟩ := hrunning.settled
  obtain ⟨k, pkts, c', evs, hk, heq, hs', hbase, hregs, -, -, hwhole, hold, -, -⟩ :=
    hs.retrieve fun t => (completes c (es.take (t + 1)).flatten).mem
  have hgot : got = (some pkts, c', evs) := heq
  have hpos : (g.retire k hk).hwPos = g.hwPos + k := g.retire_hwPos hk
  have hbds : ∀ j, bdWords (completes c es.flatten).mem ((bdRingNext c.ring)^[j] c.ring.hwHead) =
      wordsAt (completes c es.flatten) (g.hwPos + j) := fun j => by
    rw [← hd.ring, hs.parts.hwHead, hs.parts.laid.iterate_next]
    rfl
  have hends := hs.parts.lt_iff_packetEnds hwhole
  rw [hd.ring] at hends
  have hcnt : c.ring.hwCnt.toNat = g.hw := by
    rw [← hd.ring]
    exact hs.parts.hwCnt
  have hsync := hrunning.inSync
  rw [← hregs] at hsync
  rw [hgot]
  refine ⟨⟨⟨_, hs'⟩, (runState_congr hbase).trans hrunning.started, hsync⟩, hregs, ?_⟩
  dsimp only
  have hraised : Raised c' ↔ Raised (completes c es.flatten) := by
    rw [Raised, hregs]
    exact Iff.rfl
  rw [PollKeeps, hraised, hs'.parts.owes_iff, hpos]
  constructor
  · intro hnotice
    by_cases hup : Raised (completes c es.flatten)
    · exact Or.inl hup
    · refine Or.inr fun j hj hcomp hask => (hends j).1 ?_
      by_contra hkj
      rw [hbds] at hcomp hask
      obtain ⟨i, rfl⟩ := Nat.exists_eq_add_of_le (not_lt.1 hkj)
      have hsame := hold (k + i) (Nat.le_add_right k i) (by omega)
      refine hup (hnotice ⟨i, ?_, ?_⟩)
      · show i < g.hw - k
        omega
      · rw [Nat.add_assoc, hsame]
        exact ⟨hcomp, hask⟩
  · rintro (hup | htaken) ⟨i, hi, hcomp, hask⟩
    · exact hup
    · have hi' : i < g.hw - k := hi
      have hsame := hold (k + i) (Nat.le_add_right k i) (by omega)
      rw [Nat.add_assoc, hsame] at hcomp hask
      have hin := (hends (k + i)).2 (htaken (k + i) (by omega) (by rwa [hbds]) (by rwa [hbds]))
      omega

end Handler

/-! ## After registration -/

/-- **A registered engine** has its interrupt enabled and nothing to be noticed. -/
theorem Registered.running {user : UserPtrs υ} {d : Dev υ} (h : Registered user d) :
    Running d.chan ∧ IntEnabled d.chan ∧ ¬ Owes d.chan := by
  obtain ⟨d₀, bus, p, v, a, n, hok, hfits, rfl⟩ := h
  have hparts := create_parts hok hfits
  have hfields := (create_success hok).2.2.2
  have hstopped : (bdRingCreate d₀.chan p v a n).2.ring.runState = .dmaSgIsStopped := by rw [hfields]
  have hs : Settled (bdRingCreate d₀.chan p v a n).2 (Split.fresh n.toNat) :=
    ⟨hparts, rfl, rfl, Or.inl rfl⟩
  obtain ⟨d₁, hd₁⟩ : ∃ d₁ : Dev υ, d₁ = { d₀ with chan := (bdRingCreate d₀.chan p v a n).2 } :=
    ⟨_, rfl⟩
  have hchan : d₁.chan = (bdRingCreate d₀.chan p v a n).2 := by rw [hd₁]
  rw [← hchan] at hs hstopped
  rw [← hd₁, afterRegister]
  obtain ⟨g, hs', hbase, hpos, -, -, hnew⟩ := hs.refill_fresh user true bus
  have hstop' := (runState_congr hbase).trans hstopped
  -- The new BDs are all there are.
  have hfresh : ¬ Owes (pktHandlerRefill user true bus d₁).1.chan := by
    rw [hs'.parts.owes_iff, hpos]
    rintro ⟨i, hi, hcomp, -⟩
    exact (hnew i (Nat.zero_le i) hi).1 hcomp
  dsimp only
  generalize (pktHandlerRefill user true bus d₁).1.chan = c at *
  have hcnt : c.ring.allCnt ≠ 0 := by
    intro hzero
    have hlt := hs'.parts.laid.cnt_pos
    rw [hzero] at hlt
    exact absurd hlt (lt_irrefl 0)
  have hstart := bdRingStart_stopped hcnt hstop'
  have hrun : (bdRingStart c).2.ring.runState = .dmaSgIsStarted := by rw [hstart]
  have hmem : (bdRingStart c).2.mem = c.mem := by rw [hstart]
  have hring : (bdRingStart c).2.ring = { c.ring with runState := .dmaSgIsStarted } := by rw [hstart]
  rw [engIntEnable, if_pos hrun]
  refine ⟨⟨⟨g, ?_⟩, hrun, ?_⟩, ?_, ?_⟩
  · have hset := hs'.withRunState .dmaSgIsStarted (bdRingStart c).2.regs
    rw [← hring] at hset
    exact ⟨hset.parts, hset.post, hset.pre, hset.room⟩
  · rw [InSync]
    refine (flag_crSrAfter_active _ _).trans (Iff.trans ?_ (flag_crSrAfter_bdcomp _ _).symm)
    exact iff_of_false (fun h => h.2 (flag_or_iff.2 (Or.inl h.1)))
      fun h => h.2 (flag_or_iff.2 (Or.inl h.1))
  · exact (flag_crSrAfter_intEnable _ _).2 (flag_or_iff.2 (Or.inr (by decide)))
  · have hbds : hwBds (bdRingStart c).2.ring = hwBds c.ring := by
      have hblock : ({ c.ring with runState := .dmaSgIsStarted } : BdRing).block = c.ring.block := rfl
      rw [hring]
      exact bdsFrom_congr hblock _ _
    rw [Owes]
    dsimp only
    rw [hbds, hmem]
    exact hfresh

/-- The locked section of `DmaRegister` leaves a registered engine. -/
theorem registerLocked_registered {va pa : U32} (h : ProperBlock va pa) (user : UserPtrs υ)
    (bus : ℕ → U32) (e : DmaEngine υ) :
    Registered user (registerLocked user true bus (some (va, pa)) e).2.1.dev := by
  obtain ⟨hok, hfits⟩ := h.create e.dev.chan
  have hvaddr : va + 4 * 0 = va := by simp
  have hpaddr : pa + 0 = pa := by simp
  have hinit : (descriptorInit user true bus (some (va, pa)) e).2.1.dev =
      (pktHandlerRefill user true bus { e.dev with
        chan := (bdRingCreate e.dev.chan pa va bdMinimumAlignment (dmaBdCnt + 1)).2 }).1 := by
    unfold descriptorInit pktHandlerRefill
    dsimp only
    rw [h.align]
    dsimp only
    rw [if_neg (by decide), hvaddr, hpaddr, if_neg h.ne, if_neg (not_not.2 hok)]
    split_ifs <;> rfl
  obtain ⟨e₁, k, heq, -, hring, hstop, -⟩ := h.descriptorInit user true bus e
  obtain ⟨hstarted, -⟩ := hring.start hstop
  have hdev : e₁.dev = (descriptorInit user true bus (some (va, pa)) e).2.1.dev := by rw [heq]
  refine ⟨e.dev, bus, pa, va, bdMinimumAlignment, dmaBdCnt + 1, hok, hfits, ?_⟩
  rw [afterRegister, ← hinit, ← hdev]
  unfold registerLocked
  rw [heq]
  dsimp only
  rw [hstarted, if_neg (by decide), if_pos rfl]

/-! ## The invariant -/

/-- What the three parties know of an assigned engine. -/
structure EngineInv (s : IntSys υ) (k : ℕ) : Prop where
  running : Running (s.dev k).chan
  enabled : IntEnabled (s.dev k).chan ↔
    s.pendingMask.getLsbD k = false ∧ s.bh.place k = .away
  /-- The bit of an engine that `IntrBH` is at is not set again. -/
  alone : s.pendingMask.getLsbD k = true → s.bh.place k = .away

/-- `IntrCheck` holds the value of a register whose interrupt can only be disabled by itself. -/
def CheckOk (env : IntEnv υ) (s : IntSys υ) : Prop :=
  match s.check with
  | .read _ i _ dirqval => i < 39 ∧ (env.engineState i = .userAssigned →
      InSync dirqval ∧ (Flag dirqval engIntEnableBit → IntEnabled (s.dev i).chan))
  | .loop _ i _ => i ≤ 39
  | .idle => True

/-- **The invariant.** -/
structure IntInv (env : IntEnv υ) (s : IntSys υ) : Prop where
  engine : ∀ k, env.engineState k = .userAssigned → EngineInv s k
  check : CheckOk env s
  assigned : ∀ k, s.bh.place k ≠ .away → env.engineState k = .userAssigned

/-- All assigned engines are noticed. -/
def AllNoticed (env : IntEnv υ) (s : IntSys υ) : Prop :=
  ∀ k, env.engineState k = .userAssigned → Noticed s k

/-- The engine `k` is in the same state, and treated in the same way. -/
structure SameAt (s s' : IntSys υ) (k : ℕ) : Prop where
  dev : s'.dev k = s.dev k
  pending : s'.pendingMask.getLsbD k = s.pendingMask.getLsbD k
  place : s'.bh.place k = s.bh.place k

section Invariant

variable {env : IntEnv υ} {s s' : IntSys υ} {i k : ℕ}

theorem EngineInv.same (h : EngineInv s k) (hk : SameAt s s' k) : EngineInv s' k := by
  obtain ⟨hrun, henabled, halone⟩ := h
  rw [← hk.dev] at hrun henabled
  rw [← hk.pending, ← hk.place] at henabled halone
  exact ⟨hrun, henabled, halone⟩

theorem noticed_same (hk : SameAt s s' k) : Noticed s' k ↔ Noticed s k := by
  rw [Noticed, Noticed, hk.dev, hk.pending, hk.place]

/-- An interrupt that is up is noticed. -/
theorem EngineInv.noticed_iff (h : EngineInv s k) : Noticed s k ↔ (Owes (s.dev k).chan →
    Raised (s.dev k).chan ∨ s.pendingMask.getLsbD k = true ∨ s.bh.place k = .taken) := by
  refine forall_congr' fun _ => ⟨?_, ?_⟩
  · rintro (⟨hup, -⟩ | hrest)
    · exact Or.inl hup
    · exact Or.inr hrest
  · rintro (hup | hrest)
    · by_cases hpending : s.pendingMask.getLsbD k = true
      · exact Or.inr (Or.inl hpending)
      · cases hplace : s.bh.place k with
        | away => exact Or.inl ⟨hup, Or.inl (h.enabled.2 ⟨Bool.eq_false_iff.2 hpending, hplace⟩)⟩
        | taken => exact Or.inr (Or.inr rfl)
        | polled => exact Or.inl ⟨hup, Or.inr rfl⟩
    · exact Or.inr hrest

theorem EngineInv.attended (h : EngineInv s k) : Attended s k := by
  intro hoff
  by_contra hnone
  obtain ⟨hpending, hplace⟩ := not_or.1 hnone
  exact hoff (h.enabled.2 ⟨Bool.eq_false_iff.2 hpending, not_not.1 hplace⟩)

/-- A step that changes one engine. -/
theorem IntInv.local (h : IntInv env s) (hother : ∀ k, k ≠ i → SameAt s s' k)
    (hown : env.engineState i = .userAssigned → EngineInv s' i) (hcheck : CheckOk env s')
    (hplace : ∀ k, s'.bh.place k ≠ .away → env.engineState k = .userAssigned) : IntInv env s' := by
  refine ⟨fun k hk => ?_, hcheck, hplace⟩
  by_cases hki : k = i
  · rw [hki] at hk ⊢
    exact hown hk
  · exact (h.engine k hk).same (hother k hki)

theorem allNoticed_local (h : AllNoticed env s) (hother : ∀ k, k ≠ i → SameAt s s' k) :
    AllNoticed env s' ↔ (env.engineState i = .userAssigned → Noticed s' i) := by
  refine ⟨fun hall hi => hall i hi, fun hi k hk => ?_⟩
  by_cases hki : k = i
  · rw [hki] at hk ⊢
    exact hi hk
  · exact (noticed_same (hother k hki)).2 (h k hk)

/-- A step that changes no engine. -/
theorem IntInv.quiet (h : IntInv env s) (hsame : ∀ k, SameAt s s' k) (hcheck : CheckOk env s') :
    IntInv env s' := by
  refine ⟨fun k hk => (h.engine k hk).same (hsame k), hcheck, fun k hk => h.assigned k ?_⟩
  rw [← (hsame k).place]
  exact hk

theorem allNoticed_quiet (h : AllNoticed env s) (hsame : ∀ k, SameAt s s' k) : AllNoticed env s' :=
  fun k hk => (noticed_same (hsame k)).2 (h k hk)

/-- `IntrCheck` is at the same place, and no interrupt has been disabled. -/
theorem CheckOk.mono (h : CheckOk env s) (hsame : s'.check = s.check)
    (hon : ∀ k, env.engineState k = .userAssigned → IntEnabled (s.dev k).chan →
      IntEnabled (s'.dev k).chan) : CheckOk env s' := by
  rw [CheckOk] at h ⊢
  rw [hsame]
  cases hstage : s.check with
  | idle => trivial
  | loop girqval i found =>
    rw [hstage] at h
    exact h
  | read girqval i found dirqval =>
    rw [hstage] at h
    exact ⟨h.1, fun hi => ⟨(h.2 hi).1, fun hflag => hon i hi ((h.2 hi).2 hflag)⟩⟩

theorem sameAt_setDev (d : Dev υ) (hki : k ≠ i) : SameAt s (s.setDev i d) k :=
  ⟨Function.update_of_ne hki _ _, rfl, rfl⟩

theorem setDev_self (d : Dev υ) : (s.setDev i d).dev i = d := Function.update_self _ _ _

/-! ## The steps -/

/-- An engine has gone on by itself, or BDs have been added to it. -/
structure Goes (c c' : Chan) : Prop where
  running : Running c'
  enabled : IntEnabled c' ↔ IntEnabled c
  raised : Raised c → Raised c'
  owes : Owes c' → Owes c ∨ Raised c'

theorem Onward.goes {c c' : Chan} (h : Onward c c') (hc : Running c) : Goes c c' :=
  ⟨hc.onward h, h.intEnabled, h.raised, h.owes⟩

theorem Adds.goes {c c' : Chan} (h : Adds c c') : Goes c c' := by
  refine ⟨h.running, ?_, fun hup => ?_, fun ho => Or.inl (h.owes ho)⟩
  · rw [IntEnabled, h.ctrlStatus]
    exact Iff.rfl
  · rw [Raised, h.ctrlStatus]
    exact hup

/-- **A step of one engine.** -/
theorem IntInv.goes (h : IntInv env s) {d : Dev υ}
    (hd : env.engineState i = .userAssigned → Goes (s.dev i).chan d.chan) :
    IntInv env (s.setDev i d) ∧ (AllNoticed env s → AllNoticed env (s.setDev i d)) := by
  have hown : env.engineState i = .userAssigned → EngineInv (s.setDev i d) i := fun hi => by
    have he := h.engine i hi
    refine ⟨?_, ?_, he.alone⟩
    · rw [setDev_self]
      exact (hd hi).running
    · rw [setDev_self]
      exact (hd hi).enabled.trans he.enabled
  have hother : ∀ k, k ≠ i → SameAt s (s.setDev i d) k := fun k hki => sameAt_setDev d hki
  refine ⟨h.local hother hown ?_ h.assigned, fun hall => ?_⟩
  · refine h.check.mono rfl fun k hk hon => ?_
    by_cases hki : k = i
    · rw [hki] at hk hon
      rw [hki, setDev_self]
      exact (hd hk).enabled.2 hon
    · rw [(hother k hki).dev]
      exact hon
  · refine (allNoticed_local hall hother).2 fun hi => (hown hi).noticed_iff.2 fun ho => ?_
    rw [setDev_self] at ho ⊢
    rcases (hd hi).owes ho with ho | hup
    · rcases (h.engine i hi).noticed_iff.1 (hall i hi) ho with hup | hrest
      · exact Or.inl ((hd hi).raised hup)
      · exact Or.inr hrest
    · exact Or.inl hup

theorem place_self (i : ℕ) : (BhStage.taken i).place i = .taken ∧
    (BhStage.retrieved i).place i = .polled ∧ (BhStage.handled i).place i = .polled :=
  ⟨if_pos rfl, if_pos rfl, if_pos rfl⟩

theorem place_ne (hki : k ≠ i) : (BhStage.taken i).place k = .away ∧
    (BhStage.retrieved i).place k = .away ∧ (BhStage.handled i).place k = .away :=
  ⟨if_neg hki, if_neg hki, if_neg hki⟩

/-- `IntrBH` is at an engine: this one is assigned, and not in `PendingMask`. -/
theorem IntInv.at_engine (h : IntInv env s) (hplace : s.bh.place i ≠ .away) :
    env.engineState i = .userAssigned ∧ EngineInv s i ∧ s.pendingMask.getLsbD i = false ∧
      ¬ IntEnabled (s.dev i).chan := by
  have hi := h.assigned i hplace
  have he := h.engine i hi
  refine ⟨hi, he, ?_, fun hon => hplace (he.enabled.1 hon).2⟩
  cases hpending : s.pendingMask.getLsbD i with
  | false => rfl
  | true => exact absurd (he.alone hpending) hplace

/-- **The first section of `PktHandler`.** -/
theorem IntInv.retrieve (h : IntInv env s) (hbh : s.bh = .taken i)
    (es : List (List (ℕ × Completion))) : IntInv env (s.retrieve i es) ∧
      (AllNoticed env s → (AllNoticed env (s.retrieve i es) ↔ PollKeeps (s.dev i).chan es)) := by
  have hplace : s.bh.place i = .taken := by rw [hbh]; exact (place_self i).1
  obtain ⟨hi, he, hpending, hoff⟩ := h.at_engine (i := i) (by rw [hplace]; exact BhPlace.noConfusion)
  obtain ⟨hrunning, hregs, hkeeps⟩ := he.running.poll es
  have honward := he.running.goesOn es.flatten
  have hbh' : (s.retrieve i es).bh.place i = .polled := by
    rw [IntSys.retrieve]
    dsimp only
    split_ifs
    · exact (place_self i).2.2
    · exact (place_self i).2.1
  have hother : ∀ k, k ≠ i → SameAt s (s.retrieve i es) k := fun k hki => by
    refine ⟨Function.update_of_ne hki _ _, rfl, ?_⟩
    rw [hbh, (place_ne hki).1, IntSys.retrieve]
    dsimp only
    split_ifs
    · exact (place_ne hki).2.2
    · exact (place_ne hki).2.1
  have hdev : ((s.retrieve i es).dev i).chan = (pktHandlerRetrieve
      (fun t => (completes (s.dev i).chan (es.take (t + 1)).flatten).mem)
      (completes (s.dev i).chan es.flatten)).2.1 := congrArg Dev.chan (setDev_self _)
  rw [← hdev] at hrunning hregs hkeeps
  have hsame : IntEnabled ((s.retrieve i es).dev i).chan ↔ IntEnabled (s.dev i).chan := by
    rw [IntEnabled, hregs]
    exact honward.intEnabled
  have hown : EngineInv (s.retrieve i es) i := by
    refine ⟨hrunning, ?_, fun hup => ?_⟩
    · refine iff_of_false (fun hon => hoff (hsame.1 hon)) fun hboth => ?_
      rw [hbh'] at hboth
      exact BhPlace.noConfusion hboth.2
    · have hup' : s.pendingMask.getLsbD i = true := hup
      rw [hpending] at hup'
      cases hup'
  refine ⟨h.local hother (fun _ => hown) ?_ fun k hk => ?_, fun hall => ?_⟩
  · refine h.check.mono rfl fun k hk hon => ?_
    by_cases hki : k = i
    · rw [hki] at hon
      exact absurd hon hoff
    · rw [(hother k hki).dev]
      exact hon
  · by_cases hki : k = i
    · rw [hki]
      exact hi
    · rw [(hother k hki).place] at hk
      exact h.assigned k hk
  · rw [allNoticed_local hall hother, ← hkeeps, hown.noticed_iff, hbh']
    have hpending' : (s.retrieve i es).pendingMask.getLsbD i = false := hpending
    rw [hpending']
    constructor
    · intro hnotice ho
      rcases hnotice hi ho with hup | hfalse | hfalse
      · exact hup
      · cases hfalse
      · cases hfalse
    · intro hnotice _ ho
      exact Or.inl (hnotice ho)

/-- The second section of `PktHandler`. -/
theorem IntInv.refill (h : IntInv env s) (hbh : s.bh = .retrieved i) (u : υ) (bus : ℕ → U32) :
    IntInv env (s.refill env i u bus) ∧
      (AllNoticed env s → AllNoticed env (s.refill env i u bus)) := by
  have hgoes := h.goes (i := i)
    (d := (pktHandlerRefill (env.user i) true bus { s.dev i with user := u }).1) fun hi =>
    (Running.refill (d := { s.dev i with user := u }) (h.engine i hi).running (env.user i) bus).goes
  have hsame : ∀ k, SameAt (s.setDev i
      (pktHandlerRefill (env.user i) true bus { s.dev i with user := u }).1)
      (s.refill env i u bus) k := fun k => by
    refine ⟨rfl, rfl, ?_⟩
    show (BhStage.handled i).place k = s.bh.place k
    rw [hbh]
    rfl
  exact ⟨hgoes.1.quiet hsame hgoes.1.check, fun hall => allNoticed_quiet (hgoes.2 hall) hsame⟩

/-- **The end of `IntrBH` for an engine.** -/
theorem IntInv.enable (h : IntInv env s) (hbh : s.bh = .handled i) (es : List (ℕ × Completion)) :
    IntInv env (s.enable i es) ∧
      (AllNoticed env s → (AllNoticed env (s.enable i es) ↔ EnableKeeps (s.dev i).chan es)) := by
  have hplace : s.bh.place i = .polled := by rw [hbh]; exact (place_self i).2.2
  obtain ⟨hi, he, hpending, hoff⟩ := h.at_engine (i := i) (by rw [hplace]; exact BhPlace.noConfusion)
  obtain ⟨hrunning, hon, hraised, howes⟩ := he.running.engIntEnable es
  have honward := he.running.goesOn es
  have hother : ∀ k, k ≠ i → SameAt s (s.enable i es) k := fun k hki => by
    refine ⟨Function.update_of_ne hki _ _, rfl, ?_⟩
    rw [hbh, (place_ne hki).2.2]
    rfl
  have hdev : ((s.enable i es).dev i).chan = engIntEnableAmid (s.dev i).chan es :=
    congrArg Dev.chan (setDev_self _)
  rw [← hdev] at hrunning hon hraised howes
  have hown : EngineInv (s.enable i es) i :=
    ⟨hrunning, iff_of_true hon ⟨hpending, rfl⟩, fun _ => rfl⟩
  refine ⟨h.local hother (fun _ => hown) ?_ fun k hk => absurd rfl hk, fun hall => ?_⟩
  · refine h.check.mono rfl fun k hk hold => ?_
    by_cases hki : k = i
    · rw [hki]
      exact hon
    · rw [(hother k hki).dev]
      exact hold
  · have hpending' : (s.enable i es).pendingMask.getLsbD i = false := hpending
    have haway : (s.enable i es).bh.place i = .away := rfl
    rw [allNoticed_local hall hother, hown.noticed_iff, hraised, howes, hpending', haway, EnableKeeps]
    constructor
    · intro hnotice
      by_cases hup : Raised (s.dev i).chan
      · refine Or.inr fun ho => ?_
        rcases hnotice hi ho with hkept | hfalse | hfalse
        · exact hkept.2 hup
        · cases hfalse
        · cases hfalse
      · exact Or.inl hup
    · rintro (hdown | hnone) _ ho
      · rcases honward.owes ho with hold | hup
        · have hnotice := he.noticed_iff.1 (hall i hi) hold
          rw [hpending, hplace] at hnotice
          rcases hnotice with hup | hfalse | hfalse
          · exact absurd hup hdown
          · cases hfalse
          · cases hfalse
        · exact Or.inl ⟨hup, hdown⟩
      · exact absurd ho hnone

theorem getLsbD_set (mask : BitVec 64) (hki : k ≠ i) :
    (mask ||| BitVec.twoPow 64 i).getLsbD k = mask.getLsbD k := by
  rw [BitVec.getLsbD_or, BitVec.getLsbD_twoPow]
  simp [Ne.symm hki]

theorem getLsbD_reset (mask : BitVec 64) (hki : k ≠ i) :
    (mask &&& ~~~BitVec.twoPow 64 i).getLsbD k = mask.getLsbD k := by
  rw [BitVec.getLsbD_and, BitVec.getLsbD_not, BitVec.getLsbD_twoPow]
  by_cases hk : k < 64
  · simp [Ne.symm hki, hk]
  · simp [hk, BitVec.getLsbD_of_ge mask k (not_lt.1 hk)]

/-- **`IntrCheck` on an engine.** -/
theorem IntInv.ack (h : IntInv env s) {girqval dirqval : U32} {found : Bool}
    (hcheck : s.check = .read girqval i found dirqval) (es es' es'' : List (ℕ × Completion)) :
    IntInv env (s.ack girqval i found dirqval es es' es'') ∧
      (AllNoticed env s → AllNoticed env (s.ack girqval i found dirqval es es' es'')) := by
  have hok := h.check
  rw [CheckOk, hcheck] at hok
  obtain ⟨hlt, hread⟩ := hok
  unfold IntSys.ack
  by_cases hirq : Flag dirqval engIntActiveMask ∧ Flag dirqval engIntEnableBit
  · rw [if_pos hirq]
    obtain ⟨s', hs'⟩ : ∃ s' : IntSys υ, s' =
        { s.setChan i (ackEngine i dirqval (s.dev i).chan es es' es'') with
          pendingMask := if Flag dirqval engIntBdcomp then s.pendingMask ||| BitVec.twoPow 64 i
            else s.pendingMask
          check := .loop girqval (i + 1) true } := ⟨_, rfl⟩
    rw [← hs']
    have hother : ∀ k, k ≠ i → SameAt s s' k := fun k hki => by
      rw [hs']
      refine ⟨Function.update_of_ne hki _ _, ?_, rfl⟩
      dsimp only
      split_ifs
      · exact getLsbD_set s.pendingMask hki
      · rfl
    have hown : env.engineState i = .userAssigned →
        EngineInv s' i ∧ s'.pendingMask.getLsbD i = true := fun hi => by
      have he := h.engine i hi
      obtain ⟨hsync, hon⟩ := hread hi
      obtain ⟨-, haway⟩ := he.enabled.1 (hon hirq.2)
      have hcomp := hsync.1 hirq.1
      obtain ⟨hrunning, hoff⟩ := he.running.ackEngine hsync i es es' es''
      have hdev : (s'.dev i).chan = ackEngine i dirqval (s.dev i).chan es es' es'' := by
        rw [hs']
        exact congrArg Dev.chan (setDev_self _)
      have hpending : s'.pendingMask.getLsbD i = true := by
        rw [hs']
        dsimp only
        rw [if_pos hcomp, BitVec.getLsbD_or, BitVec.getLsbD_twoPow]
        have hlt' : i < 64 := by omega
        simp [hlt']
      have haway' : s'.bh.place i = .away := by
        rw [hs']
        exact haway
      refine ⟨⟨?_, ?_, fun _ => haway'⟩, hpending⟩
      · rw [hdev]
        exact hrunning
      · rw [hdev, hpending]
        exact iff_of_false (hoff hcomp) fun hboth => Bool.noConfusion hboth.1
    refine ⟨h.local hother (fun hi => (hown hi).1) ?_ fun k hk => h.assigned k ?_, fun hall => ?_⟩
    · rw [hs', CheckOk]
      exact hlt
    · rw [hs'] at hk
      exact hk
    · exact (allNoticed_local hall hother).2 fun hi _ => Or.inr (Or.inl (hown hi).2)
  · rw [if_neg hirq]
    have hsame : ∀ k, SameAt s { s with check := .loop girqval (i + 1) found } k :=
      fun k => ⟨rfl, rfl, rfl⟩
    exact ⟨h.quiet hsame hlt, fun hall => allNoticed_quiet hall hsame⟩

/-- **`IntrBH` finds an engine in `PendingMask`**, or goes on. -/
theorem IntInv.scan (h : IntInv env s) (hbh : s.bh = .scan i) :
    IntInv env (s.scan env i) ∧ (AllNoticed env s → AllNoticed env (s.scan env i)) := by
  have haway : ∀ k, s.bh.place k = .away := fun k => by
    rw [hbh]
    rfl
  have hquiet : ∀ stage : BhStage, (∀ k, stage.place k = .away) →
      IntInv env { s with bh := stage } ∧
        (AllNoticed env s → AllNoticed env { s with bh := stage }) := by
    intro stage hstage
    have hsame : ∀ k, SameAt s { s with bh := stage } k :=
      fun k => ⟨rfl, rfl, (hstage k).trans (haway k).symm⟩
    exact ⟨h.quiet hsame h.check, fun hall => allNoticed_quiet hall hsame⟩
  unfold IntSys.scan
  by_cases hend : s.pendingMask = 0 ∨ 64 ≤ i
  · rw [if_pos hend]
    exact hquiet .idle fun _ => rfl
  · rw [if_neg hend]
    by_cases hpending : s.pendingMask.getLsbD i = true
    · rw [if_pos hpending]
      obtain ⟨s', hs'⟩ : ∃ s' : IntSys υ, s' =
          { s with
            pendingMask := s.pendingMask &&& ~~~BitVec.twoPow 64 i
            bh := if env.engineState i = .userAssigned then .taken i else .scan (i + 1) } := ⟨_, rfl⟩
      rw [← hs']
      have hplace : ∀ k, k ≠ i → s'.bh.place k = .away := fun k hki => by
        rw [hs']
        dsimp only
        split_ifs
        · exact (place_ne hki).1
        · rfl
      have hother : ∀ k, k ≠ i → SameAt s s' k := fun k hki => by
        refine ⟨?_, ?_, (hplace k hki).trans (haway k).symm⟩
        · rw [hs']
        · rw [hs']
          exact getLsbD_reset s.pendingMask hki
      have htaken : env.engineState i = .userAssigned → s'.bh.place i = .taken := fun hi => by
        rw [hs']
        dsimp only
        rw [if_pos hi]
        exact (place_self i).1
      have hown : env.engineState i = .userAssigned → EngineInv s' i := fun hi => by
        have he := h.engine i hi
        have hreset : s'.pendingMask.getLsbD i = false := by
          rw [hs']
          dsimp only
          rw [BitVec.getLsbD_and, BitVec.getLsbD_not, BitVec.getLsbD_twoPow]
          simp
        have hdev : s'.dev i = s.dev i := by rw [hs']
        refine ⟨?_, ?_, fun hup => ?_⟩
        · rw [hdev]
          exact he.running
        · rw [hdev, htaken hi]
          refine iff_of_false (fun hon => ?_) fun hboth => BhPlace.noConfusion hboth.2
          have hdown := (he.enabled.1 hon).1
          rw [hpending] at hdown
          cases hdown
        · rw [hreset] at hup
          cases hup
      refine ⟨h.local hother hown ?_ fun k hk => ?_, fun hall => ?_⟩
      · rw [hs']
        exact h.check
      · by_cases hki : k = i
        · rw [hki]
          by_contra hi
          refine hk ?_
          rw [hs']
          dsimp only
          rw [if_neg hi]
          rfl
        · exact absurd (hplace k hki) hk
      · exact (allNoticed_local hall hother).2 fun hi _ => Or.inr (Or.inr (htaken hi))
    · rw [if_neg hpending]
      exact hquiet (.scan (i + 1)) fun _ => rfl

/-- A pass of `IntrCheck` changes nothing before it holds the lock. -/
theorem IntInv.look (h : IntInv env s) {girqval : U32} {found : Bool}
    (hcheck : s.check = .loop girqval i found) : IntInv env (s.look env girqval i found) ∧
      (AllNoticed env s → AllNoticed env (s.look env girqval i found)) := by
  have hle : i ≤ 39 := by
    have hok := h.check
    rw [CheckOk, hcheck] at hok
    exact hok
  unfold IntSys.look
  by_cases hend : i = 39
  · rw [if_pos hend]
    exact ⟨h.quiet (fun k => ⟨rfl, rfl, rfl⟩) trivial,
      fun hall => allNoticed_quiet hall fun k => ⟨rfl, rfl, rfl⟩⟩
  · rw [if_neg hend]
    by_cases hnext : i = 7
    · rw [if_pos hnext]
      have hok : CheckOk env { s with check := .loop girqval 32 found } := by
        show 32 ≤ 39
        omega
      exact ⟨h.quiet (fun k => ⟨rfl, rfl, rfl⟩) hok,
        fun hall => allNoticed_quiet hall fun k => ⟨rfl, rfl, rfl⟩⟩
    · rw [if_neg hnext]
      by_cases hsel : imask girqval i = true ∧ env.engineMask.getLsbD i = true
      · rw [if_pos hsel]
        have hok : CheckOk env { s with
            check := .read girqval i found (getCrSr (s.dev i).chan.regs) } :=
          ⟨by omega, fun hi => ⟨(h.engine i hi).running.inSync, id⟩⟩
        exact ⟨h.quiet (fun k => ⟨rfl, rfl, rfl⟩) hok,
          fun hall => allNoticed_quiet hall fun k => ⟨rfl, rfl, rfl⟩⟩
      · rw [if_neg hsel]
        have hok : CheckOk env { s with check := .loop girqval (i + 1) found } := by
          show i + 1 ≤ 39
          omega
        exact ⟨h.quiet (fun k => ⟨rfl, rfl, rfl⟩) hok,
          fun hall => allNoticed_quiet hall fun k => ⟨rfl, rfl, rfl⟩⟩

/-- **One step.** -/
theorem IntInv.step (h : IntInv env s) {a : IntAct υ} (hstep : intStep env s a = some s') :
    IntInv env s' ∧ (AllNoticed env s → (AllNoticed env s' ↔ Keeps s a)) := by
  have hkept : ∀ {s'' : IntSys υ}, IntInv env s'' ∧ (AllNoticed env s → AllNoticed env s'') →
      IntInv env s'' ∧ (AllNoticed env s → (AllNoticed env s'' ↔ True)) :=
    fun hs'' => ⟨hs''.1, fun hall => iff_of_true (hs''.2 hall) trivial⟩
  cases a with
  | complete k e =>
    rw [← Option.some.inj hstep]
    refine hkept (h.goes fun hk => ?_)
    have hrunning := (h.engine k hk).running
    obtain ⟨g, hs⟩ := hrunning.settled
    exact (hs.parts.complete e).goes hrunning
  | send k bus pkts =>
    rw [intStep] at hstep
    by_cases hwhole : WholePkts pkts
    · rw [if_pos hwhole] at hstep
      rw [← Option.some.inj hstep]
      refine hkept (h.goes fun hk => ?_)
      have hadds := (h.engine k hk).running.sendPkt bus hwhole (s.dev k).intrCount
      rw [← hk] at hadds
      exact hadds.goes
    · rw [if_neg hwhole] at hstep
      cases hstep
  | irq girqval =>
    rw [intStep] at hstep
    cases hcheck : s.check with
    | idle =>
      rw [hcheck] at hstep
      rw [← Option.some.inj hstep]
      have hok : CheckOk env { s with check := .loop girqval 0 false } := Nat.zero_le 39
      exact hkept ⟨h.quiet (fun k => ⟨rfl, rfl, rfl⟩) hok,
        fun hall => allNoticed_quiet hall fun k => ⟨rfl, rfl, rfl⟩⟩
    | loop | read =>
      rw [hcheck] at hstep
      cases hstep
  | look =>
    rw [intStep] at hstep
    cases hcheck : s.check with
    | loop girqval i found =>
      rw [hcheck] at hstep
      rw [← Option.some.inj hstep]
      exact hkept (h.look hcheck)
    | idle | read =>
      rw [hcheck] at hstep
      cases hstep
  | ack es es' es'' =>
    rw [intStep] at hstep
    cases hcheck : s.check with
    | read girqval i found dirqval =>
      rw [hcheck] at hstep
      rw [← Option.some.inj hstep]
      exact hkept (h.ack hcheck es es' es'')
    | idle | loop =>
      rw [hcheck] at hstep
      cases hstep
  | tasklet =>
    rw [intStep] at hstep
    cases hbh : s.bh with
    | idle =>
      rw [hbh] at hstep
      dsimp only at hstep
      split_ifs at hstep
      rw [← Option.some.inj hstep]
      have hsame : ∀ k, SameAt s { s with scheduled := false, bh := .scan 0 } k := fun k => by
        refine ⟨rfl, rfl, ?_⟩
        rw [hbh]
        rfl
      exact hkept ⟨h.quiet hsame h.check, fun hall => allNoticed_quiet hall hsame⟩
    | scan | taken | retrieved | handled =>
      rw [hbh] at hstep
      cases hstep
  | scan =>
    rw [intStep] at hstep
    cases hbh : s.bh with
    | scan i =>
      rw [hbh] at hstep
      rw [← Option.some.inj hstep]
      exact hkept (h.scan hbh)
    | idle | taken | retrieved | handled =>
      rw [hbh] at hstep
      cases hstep
  | retrieve es =>
    rw [intStep] at hstep
    rw [Keeps]
    cases hbh : s.bh with
    | taken i =>
      rw [hbh] at hstep
      rw [← Option.some.inj hstep]
      exact h.retrieve hbh es
    | idle | scan | retrieved | handled =>
      rw [hbh] at hstep
      cases hstep
  | refill u bus =>
    rw [intStep] at hstep
    cases hbh : s.bh with
    | retrieved i =>
      rw [hbh] at hstep
      rw [← Option.some.inj hstep]
      exact hkept (h.refill hbh u bus)
    | idle | scan | taken | handled =>
      rw [hbh] at hstep
      cases hstep
  | enable es =>
    rw [intStep] at hstep
    rw [Keeps]
    cases hbh : s.bh with
    | handled i =>
      rw [hbh] at hstep
      rw [← Option.some.inj hstep]
      exact h.enable hbh es
    | idle | scan | taken | retrieved =>
      rw [hbh] at hstep
      cases hstep

theorem IntStart.inv (h : IntStart env s) : IntInv env s ∧ AllNoticed env s := by
  have hplace : ∀ k, s.bh.place k = .away := fun k => by
    rw [h.bh]
    rfl
  refine ⟨⟨fun k hk => ?_, ?_, fun k hk => absurd (hplace k) hk⟩, fun k hk ho => ?_⟩
  · obtain ⟨hrunning, hon, -⟩ := (h.registered k hk).running
    refine ⟨hrunning, iff_of_true hon ⟨?_, hplace k⟩, fun _ => hplace k⟩
    rw [h.pendingMask]
    exact BitVec.getLsbD_zero
  · rw [CheckOk, h.check]
    trivial
  · exact absurd ho (h.registered k hk).running.2.2

end Invariant

/-- **No lost completion.** All assigned engines stay noticed exactly as long as the polls and the
last accesses of `IntrBH` keep what there is to be noticed. In any case none of them is left with
its interrupt disabled. -/
theorem noticed_iff_keeps (env : IntEnv υ) (s t : IntSys υ) (hs : IntStart env s)
    (acts : List (IntAct υ)) (hrun : run (intStep env) s acts = some t) :
    (Throughout (intStep env) (AllNoticed env) s acts ↔ Along (intStep env) Keeps s acts) ∧
      Throughout (intStep env) (fun s' => ∀ k, env.engineState k = .userAssigned → Attended s' k) s
        acts := by
  obtain ⟨hinv, hall⟩ := hs.inv
  have hstep : ∀ s a s', IntInv env s ∧ AllNoticed env s → intStep env s a = some s' →
      (IntInv env s' ∧ AllNoticed env s' ↔ Keeps s a) := by
    intro s a s' h hstep
    obtain ⟨hinv', hiff⟩ := h.1.step hstep
    exact (and_iff_right hinv').trans (hiff h.2)
  have hreach : Throughout (intStep env) (IntInv env) s acts := fun bs cs u _ hu =>
    run_inv' (I := IntInv env) (fun _ _ _ h hstep => (h.step hstep).1) hinv hu
  refine ⟨?_, fun bs cs u hbs hu k hk => ((hreach bs cs u hbs hu).engine k hk).attended⟩
  rw [← throughout_iff_along hstep ⟨hinv, hall⟩ hrun]
  exact ⟨fun h bs cs u hbs hu => ⟨hreach bs cs u hbs hu, h bs cs u hbs hu⟩,
    fun h bs cs u hbs hu => (h bs cs u hbs hu).2⟩

/-- One assigned engine, which sends. -/
def soleEngine : IntEnv Unit where
  user _ := ⟨fun _ _ => ([], ()), fun _ _ => (), fun _ _ => Nat.zero_le _⟩
  engineState k := if k = 0 then .userAssigned else .initialized
  engineMask := 1

def soleStart : IntSys Unit where
  dev _ := afterRegister (soleEngine.user 0) (fun _ => 0)
    { chan := (bdRingCreate (initializedChan false fun _ => 0) 0 0x1000 64 20).2
      intrCount := 0
      user := () }
  pendingMask := 0
  check := .idle
  scheduled := false
  bh := .idle

theorem soleStart_start : IntStart soleEngine soleStart := by
  refine ⟨fun k hk => ?_, rfl, rfl, rfl⟩
  have hzero : k = 0 := by
    by_contra hne
    have hstate : soleEngine.engineState k = .initialized := if_neg hne
    rw [hstate] at hk
    cases hk
  rw [hzero]
  exact ⟨⟨initializedChan false fun _ => 0, 0, ()⟩, fun _ => 0, 0, 0x1000, 64, 20, by decide,
    by decide, rfl⟩

/-- Seventeen packets are sent, of which the first and the last ask for an interrupt; the first is
completed, `IntrCheck` sees it, and `IntrBH` polls. -/
def solePolled : List (IntAct Unit) :=
  .send 0 (fun _ => 0x8000)
      (List.replicate 17 ⟨0x8000, 0x8000, 64, pktAll ||| bdSopMask ||| bdEopMask, 0⟩) ::
    .complete 0 (0, ⟨0, 0, 0⟩) :: .irq 0x00010000 :: .look :: .ack [] [] [] ::
    List.replicate 15 .look ++ [.tasklet, .scan, .retrieve []]

/-- The other sixteen are completed before the interrupt is enabled again. -/
def soleLost : List (IntAct Unit) :=
  solePolled ++ (List.range 16).map (fun i => .complete 0 (i, ⟨0, 0, 0⟩)) ++
    [.refill () fun _ => 0, .enable []]

/-- The poll takes the only packet that is completed. -/
theorem noticed_iff_keeps_polled : ∃ t, run (intStep soleEngine) soleStart solePolled = some t ∧
    Throughout (intStep soleEngine) (AllNoticed soleEngine) soleStart solePolled := by
  obtain ⟨t, ht⟩ : ∃ t, run (intStep soleEngine) soleStart solePolled = some t :=
    Option.isSome_iff_exists.1 (by decide +kernel)
  refine ⟨t, ht, (noticed_iff_keeps soleEngine soleStart t soleStart_start solePolled ht).1.2 ?_⟩
  decide +kernel

/-- **The enabling loses a completion.** `Dma_mEngIntEnable` writes `DMA_ENG_INT_BDCOMP` back and so
acknowledges the completions since the poll: the interrupt is enabled, but down, and nobody is to
look at the BD. -/
theorem enable_loses : IntStart soleEngine soleStart ∧
    ∃ t, run (intStep soleEngine) soleStart soleLost = some t ∧
      Owes (t.dev 0).chan ∧ ¬ Raised (t.dev 0).chan ∧ t.pendingMask = 0 ∧ t.bh = .scan 1 ∧
      ¬ Noticed t 0 := by
  have hlost : (run (intStep soleEngine) soleStart soleLost).any (fun t => decide
      (Owes (t.dev 0).chan ∧ ¬ Raised (t.dev 0).chan ∧ t.pendingMask = 0 ∧ t.bh = .scan 1 ∧
        ¬ Noticed t 0)) = true := by decide +kernel
  obtain ⟨t, ht, hholds⟩ := (Option.any_eq_true _ _).1 hlost
  exact ⟨soleStart_start, t, ht, of_decide_eq_true hholds⟩

end Dma
