import MyDriver.Xdma.Bd

/-!
# Engine registers: `xdma_hw.h`

The three registers of a DMA engine that the driver's logic depends on. The next-descriptor
registers are plain words. The control and status register mixes three kinds of bits: control bits
that keep what is written, event bits that are cleared by writing 1 (those for which the header
defines an `_ACK` value), and status bits that only the engine changes. The two reset bits clear
themselves.
-/

namespace Dma

def engIntEnableBit : U32 := 0x00000001
def engIntActiveMask : U32 := 0x00000002
def engIntBdcomp : U32 := 0x00000004
def engIntAlerr : U32 := 0x00000008
def engIntFeterr : U32 := 0x00000010
def engIntAborterr : U32 := 0x00000020
def engIntChainend : U32 := 0x00000080

def engEnableMask : U32 := 0x00000100
def engStateMask : U32 := 0x00000C00
def engUserReset : U32 := 0x00004000
def engReset : U32 := 0x00008000
def engAllintMask : U32 := 0x000000BE

/-- The bits with an `_ACK` value: six interrupt events and `DMA_ENG_STATE_WAITED`. -/
def engAckMask : U32 := 0x000010BE

/-- The bits that read back as written. -/
def engControlMask : U32 := engIntEnableBit ||| engEnableMask

/-- The engine registers. -/
structure Regs where
  /-- `REG_DMA_ENG_CTRL_STATUS` -/
  ctrlStatus : U32
  /-- `REG_DMA_ENG_NEXT_BD` -/
  nextBd : U32
  /-- `REG_SW_NEXT_BD` -/
  swNextBd : U32
deriving DecidableEq

/-- What the control and status register holds after `data` is written over `old`. -/
def crSrAfter (old data : U32) : U32 :=
  data &&& engControlMask ||| old &&& engStateMask ||| old &&& engAckMask &&& ~~~data

/-- The control bits read back as written. -/
theorem crSrAfter_control (mask : U32) (hctrl : engControlMask &&& mask = mask)
    (hstate : engStateMask &&& mask = 0#32) (hack : engAckMask &&& mask = 0#32) (old data : U32) :
    crSrAfter old data &&& mask = data &&& mask := by
  have hevents : old &&& engAckMask &&& ~~~data &&& mask = 0#32 := by
    rw [BitVec.and_assoc, BitVec.and_comm (~~~data), ← BitVec.and_assoc,
      Words.and_and_of_disjoint hack]
    exact BitVec.zero_and
  rw [crSrAfter, BitVec.and_or_distrib_right, BitVec.and_or_distrib_right,
    Words.and_and_of_sub hctrl, Words.and_and_of_disjoint hstate, hevents]
  rw [show (0 : U32) = 0#32 by rfl, BitVec.or_zero, BitVec.or_zero]

/-- A bit of a union of two words. -/
theorem flag_or_iff {a b mask : U32} : Flag (a ||| b) mask ↔ Flag a mask ∨ Flag b mask := by
  rw [Flag, BitVec.and_or_distrib_right, Ne, show (0 : U32) = 0#32 by rfl, BitVec.or_eq_zero_iff,
    not_and_or]
  exact Iff.rfl

/-- A single bit. -/
theorem flag_twoPow {a : U32} {i : ℕ} (hi : i < 32) :
    Flag a (BitVec.twoPow 32 i) ↔ a.getLsbD i = true := by
  rw [Flag, BitVec.and_twoPow]
  cases a.getLsbD i with
  | true =>
    rw [if_pos rfl]
    refine ⟨fun _ => rfl, fun _ hzero => ?_⟩
    have hbit := congrArg (fun w => BitVec.getLsbD w i) hzero
    simp [hi] at hbit
  | false =>
    rw [if_neg Bool.false_ne_true]
    exact ⟨fun hne => absurd rfl hne, fun hbit => absurd hbit Bool.false_ne_true⟩

/-- An event bit stays until it is written as 1. -/
theorem flag_crSrAfter_event {mask : U32} {i : ℕ} (hi : i < 32) (hmask : mask = BitVec.twoPow 32 i)
    (hctrl : engControlMask.getLsbD i = false) (hstate : engStateMask.getLsbD i = false)
    (hack : engAckMask.getLsbD i = true) (old data : U32) :
    Flag (crSrAfter old data) mask ↔ Flag old mask ∧ ¬ Flag data mask := by
  rw [hmask]
  simp only [flag_twoPow hi, crSrAfter, BitVec.getLsbD_or, BitVec.getLsbD_and, BitVec.getLsbD_not,
    hctrl, hstate, hack]
  simp [hi]

theorem flag_crSrAfter_active (old data : U32) : Flag (crSrAfter old data) engIntActiveMask ↔
    Flag old engIntActiveMask ∧ ¬ Flag data engIntActiveMask :=
  flag_crSrAfter_event (i := 1) (by decide) (by decide) (by decide) (by decide) (by decide) old data

theorem flag_crSrAfter_bdcomp (old data : U32) : Flag (crSrAfter old data) engIntBdcomp ↔
    Flag old engIntBdcomp ∧ ¬ Flag data engIntBdcomp :=
  flag_crSrAfter_event (i := 2) (by decide) (by decide) (by decide) (by decide) (by decide) old data

theorem flag_crSrAfter_intEnable (old data : U32) :
    Flag (crSrAfter old data) engIntEnableBit ↔ Flag data engIntEnableBit := by
  rw [Flag, crSrAfter_control engIntEnableBit (by decide) (by decide) (by decide)]

def getCrSr (g : Regs) : U32 := g.ctrlStatus

def setCrSr (g : Regs) (data : U32) : Regs := { g with ctrlStatus := crSrAfter g.ctrlStatus data }

/-- `Dma_mEnable` -/
def enable (g : Regs) : Regs := setCrSr g (getCrSr g ||| engEnableMask)

/-- `Dma_mEngIntDisable` -/
def engIntDisable (g : Regs) : Regs := setCrSr g (getCrSr g &&& ~~~engIntEnableBit)

/-- `Dma_mEngIntAck` -/
def engIntAck (g : Regs) (mask : U32) : Regs := setCrSr g (getCrSr g ||| mask)

@[simp] theorem setCrSr_nextBd (g : Regs) (d : U32) : (setCrSr g d).nextBd = g.nextBd := rfl
@[simp] theorem setCrSr_swNextBd (g : Regs) (d : U32) : (setCrSr g d).swNextBd = g.swNextBd := rfl
@[simp] theorem enable_nextBd (g : Regs) : (enable g).nextBd = g.nextBd := rfl
@[simp] theorem enable_swNextBd (g : Regs) : (enable g).swNextBd = g.swNextBd := rfl

end Dma
