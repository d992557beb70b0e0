import MyDriver.Rawdata.TestMode
import MyDriver.Xdma.Registration
import MyDriver.Xdma.Stats

/-!
# Engine numbers from outside

`DmaRegister` and the test commands of `xdma_dev_ioctl` take the number of an engine as an `int`.
They look it up in `engineMask` with `1LL << engine`, which is undefined outside 0 to 63, and go on
with `Dma[engine]`.

* `ioctlEngine_checked_iff`, `dmaRegisterAt_checked_iff` — when the number is checked.
* `engine_numbers_checked_iff` — **the commands let negative numbers through**, `DmaRegister` all
  numbers.
* `dmaRegisterAt_eq` — on an engine that exists it is `dmaRegister`.
-/

namespace Dma

variable {υ : Type}

/-! ## The base driver -/

/-- The callbacks of a user driver that the test commands make. `UserGetState` may be `NULL`;
`UserSetState` is not looked at. -/
structure TestPtrs (υ : Type) where
  /-- The result, what is in `ustate` and its `Buffers`, and the state of the user driver. -/
  userGetState : Option (υ → ℤ × UserState × ℤ × υ)
  userSetState : υ → UserState → ℤ × υ

/-- `DriverState` and what `dmaData` points to; `dma i` is what lies at `Dma[i]`. -/
structure BaseDriver (υ : Type) where
  driverState : DmaState
  engineMask : BitVec 64
  dma : ℤ → DmaEngine υ
  user : ℤ → TestPtrs υ
  userCount : ℤ

/-- What is done with the number of an engine. -/
inductive NumberUse where
  /-- `1LL << i` -/
  | shift (i : ℤ)
  /-- `Dma[i]` -/
  | access (i : ℤ)
deriving DecidableEq

/-- `1LL << i`; `shl` is what comes of it outside the width. -/
def shiftOne (shl : ℤ → BitVec 64) (i : ℤ) : BitVec 64 :=
  if 0 ≤ i ∧ i < maxDmaEngines then BitVec.twoPow 64 i.toNat else shl i

/-! ## The entry points -/

/-- `DmaRegister`: whether it returns a handle, and what it has done with the number. `u` is the
user driver after `UserInit`. -/
def dmaRegisterAt (shl : ℤ → BitVec 64) (engine bar : ℤ) (u : υ) (user : UserPtrs υ)
    (ptrs : TestPtrs υ) (thBhIsr : Bool) (bus : ℕ → U32) (block : Option (U32 × U32))
    (b : BaseDriver υ) : Bool × BaseDriver υ × List NumberUse :=
  if b.driverState ≠ .initialized then (false, b, [])
  else if bar < 0 ∨ 5 < bar then (false, b, [])
  else if b.engineMask &&& shiftOne shl engine = 0 then (false, b, [.shift engine])
  else if (b.dma engine).engineState ≠ .initialized then
    (false, b, [.shift engine, .access engine])
  else
    let e := b.dma engine
    let done := registerLocked user thBhIsr bus block { e with dev := { e.dev with user := u } }
    (done.1,
      { b with
        dma := Function.update b.dma engine done.2.1
        user := Function.update b.user engine ptrs
        userCount := b.userCount + 1 },
      [.shift engine, .access engine])

structure IoctlTestCmd where
  engine : ℤ
  testMode : U32
  minPktSize : U32
  maxPktSize : U32

structure EngState where
  engine : ℤ
  bds : U32
  buffers : ℤ
  minPktSize : U32
  maxPktSize : U32
  bdErrs : U32
  bdSErrs : U32
  intEnab : Bool
  testMode : U32

/-- Whether `access_ok` and the copies from and to the caller succeed. -/
structure CallerMem where
  accessOk : Bool
  copyFrom : Bool
  copyTo : Bool

/-- What a command leaves; `out` is what it has copied to the caller. -/
structure IoctlDone (υ β : Type) where
  retval : ℤ
  base : BaseDriver υ
  out : Option β
  uses : List NumberUse

/-- The commands, up to the point where they know the engine and its `UserGetState`. -/
def ioctlEngine {β : Type} (shl : ℤ → BitVec 64) (mem : CallerMem) (i : ℤ) (b : BaseDriver υ)
    (rest : (υ → ℤ × UserState × ℤ × υ) → ℤ × BaseDriver υ × Option β) : IoctlDone υ β :=
  if b.driverState ≠ .initialized then ⟨-1, b, none, []⟩
  else if mem.accessOk = false then ⟨-eFault, b, none, []⟩
  else if mem.copyFrom = false then ⟨-eFault, b, none, []⟩
  else if maxDmaEngines ≤ i then ⟨-eFault, b, none, []⟩
  else if b.engineMask &&& shiftOne shl i = 0 then ⟨-eFault, b, none, [.shift i]⟩
  else if (b.dma i).engineState ≠ .userAssigned then
    ⟨-eFault, b, none, [.shift i, .access i]⟩
  else
    match (b.user i).userGetState with
    | none => ⟨-eFault, b, none, [.shift i, .access i]⟩
    | some getState =>
      let done := rest getState
      ⟨done.1, done.2.1, done.2.2, [.shift i, .access i]⟩

namespace BaseDriver

/-- A callback leaves the user driver of the engine `i` in the state `u`. -/
def setUser (b : BaseDriver υ) (i : ℤ) (u : υ) : BaseDriver υ :=
  let e := b.dma i
  { b with dma := Function.update b.dma i { e with dev := { e.dev with user := u } } }

end BaseDriver

def igetTestState (shl : ℤ → BitVec 64) (mem : CallerMem) (tc : IoctlTestCmd) (b : BaseDriver υ) :
    IoctlDone υ IoctlTestCmd :=
  ioctlEngine shl mem tc.engine b fun getState =>
    let got := getState (b.dma tc.engine).dev.user
    let b := b.setUser tc.engine got.2.2.2
    if got.1 ≠ 0 then (-eFault, b, none)
    else if mem.copyTo = false then (-eFault, b, none)
    else
      (0, b, some { tc with
        testMode := got.2.1.testMode
        minPktSize := got.2.1.minPktSize
        maxPktSize := got.2.1.maxPktSize })

/-- `ISTART_TEST` and `ISTOP_TEST`, which differ in `TestMode` only. -/
def istartTest (shl : ℤ → BitVec 64) (mem : CallerMem) (tc : IoctlTestCmd) (b : BaseDriver υ) :
    IoctlDone υ IoctlTestCmd :=
  ioctlEngine shl mem tc.engine b fun _ =>
    let set := (b.user tc.engine).userSetState (b.dma tc.engine).dev.user
      { minPktSize := tc.minPktSize, maxPktSize := tc.maxPktSize, testMode := tc.testMode }
    (set.1, b.setUser tc.engine set.2, none)

def igetEngState (thBhIsr : Bool) (shl : ℤ → BitVec 64) (mem : CallerMem) (eng : EngState)
    (b : BaseDriver υ) : IoctlDone υ EngState :=
  ioctlEngine shl mem eng.engine b fun getState =>
    let ring := (b.dma eng.engine).dev.chan.ring
    let got := getState (b.dma eng.engine).dev.user
    let b := b.setUser eng.engine got.2.2.2
    if got.1 ≠ 0 then (-eFault, b, none)
    else if mem.copyTo = false then (-eFault, b, none)
    else
      (0, b, some { eng with
        bds := dmaBdCnt
        buffers := got.2.2.1
        minPktSize := got.2.1.minPktSize
        maxPktSize := got.2.1.maxPktSize
        bdErrs := ring.bdErrs
        bdSErrs := ring.bdSErrs
        intEnab := thBhIsr
        testMode := got.2.1.testMode })

/-! ## What is promised -/

/-- There is an engine with the number. -/
def HasEngine (mask : BitVec 64) (i : ℤ) : Prop :=
  (0 ≤ i ∧ i < maxDmaEngines) ∧ mask.getLsbD i.toNat = true

/-- The number `i` is used in range, `Dma[i]` if the engine exists, and any other is rejected. -/
structure NumberChecked (mask : BitVec 64) (i : ℤ) (uses : List NumberUse) (rejected : Prop) :
    Prop where
  shift : ∀ j : ℤ, .shift j ∈ uses → 0 ≤ j ∧ j < maxDmaEngines
  access : ∀ j : ℤ, .access j ∈ uses → HasEngine mask j
  rejects : ¬ HasEngine mask i → rejected

/-- What is promised of a command on the engine `i`. -/
def CommandOk {β : Type} (b : BaseDriver υ) (i : ℤ) (done : IoctlDone υ β) : Prop :=
  NumberChecked b.engineMask i done.uses (done.retval < 0 ∧ done.base = b ∧ done.out = none)

/-- What is promised of `DmaRegister`. -/
def RegisterOk (b : BaseDriver υ) (engine : ℤ) (done : Bool × BaseDriver υ × List NumberUse) :
    Prop :=
  NumberChecked b.engineMask engine done.2.2 (done.1 = false ∧ done.2.1 = b)

/-- The command is refused before it looks at the number. -/
def Refused (mem : CallerMem) (b : BaseDriver υ) : Prop :=
  b.driverState ≠ .initialized ∨ mem.accessOk = false ∨ mem.copyFrom = false

/-! ## The checks -/

variable {shl : ℤ → BitVec 64} {b : BaseDriver υ} {i : ℤ}

theorem hasEngine_iff (hi : 0 ≤ i ∧ i < maxDmaEngines) (mask : BitVec 64) :
    mask &&& shiftOne shl i ≠ 0 ↔ HasEngine mask i := by
  have hlt : i.toNat < 64 := by
    have h := hi.2
    simp only [maxDmaEngines] at h
    omega
  rw [HasEngine, and_iff_right hi, shiftOne, if_pos hi, BitVec.and_twoPow]
  cases mask.getLsbD i.toNat with
  | false => simp
  | true =>
    refine iff_of_true (fun hzero => ?_) rfl
    have hbit := congrArg (fun w => BitVec.getLsbD w i.toNat) hzero
    simp [hlt] at hbit

/-- A number that is shifted by and out of range. -/
theorem not_numberChecked {mask : BitVec 64} {uses : List NumberUse} {rejected : Prop}
    (hshift : .shift i ∈ uses) (hi : ¬ (0 ≤ i ∧ i < maxDmaEngines)) :
    ¬ NumberChecked mask i uses rejected := fun h => hi (h.shift i hshift)

/-- Nothing is done with the number. -/
theorem numberChecked_nil {mask : BitVec 64} {rejected : Prop} (h : rejected) :
    NumberChecked mask i [] rejected := ⟨nofun, nofun, fun _ => h⟩

/-- It is in range and there is no engine. -/
theorem numberChecked_shift {mask : BitVec 64} {rejected : Prop}
    (hi : 0 ≤ i ∧ i < maxDmaEngines) (h : rejected) :
    NumberChecked mask i [.shift i] rejected where
  shift j hj := by
    obtain rfl : j = i := by simpa using hj
    exact hi
  access j hj := by simp at hj
  rejects _ := h

theorem numberChecked_access {mask : BitVec 64} {rejected : Prop} (h : HasEngine mask i) :
    NumberChecked mask i [.shift i, .access i] rejected where
  shift j hj := by
    obtain rfl : j = i := by simpa using hj
    exact h.1
  access j hj := by
    obtain rfl : j = i := by simpa using hj
    exact h
  rejects hno := absurd h hno

/-- **The commands** check the number, unless it is negative. -/
theorem ioctlEngine_checked_iff {β : Type} (shl : ℤ → BitVec 64) (mem : CallerMem) (i : ℤ)
    (b : BaseDriver υ) (rest : (υ → ℤ × UserState × ℤ × υ) → ℤ × BaseDriver υ × Option β) :
    CommandOk b i (ioctlEngine shl mem i b rest) ↔ Refused mem b ∨ 0 ≤ i := by
  have hfault : -(eFault : ℤ) < 0 := by decide
  unfold CommandOk ioctlEngine Refused
  by_cases hstate : b.driverState ≠ .initialized
  · rw [if_pos hstate]
    exact iff_of_true (numberChecked_nil ⟨Int.negSucc_lt_zero 0, rfl, rfl⟩) (Or.inl (Or.inl hstate))
  rw [if_neg hstate]
  by_cases haccess : mem.accessOk = false
  · rw [if_pos haccess]
    exact iff_of_true (numberChecked_nil ⟨hfault, rfl, rfl⟩) (Or.inl (Or.inr (Or.inl haccess)))
  rw [if_neg haccess]
  by_cases hcopy : mem.copyFrom = false
  · rw [if_pos hcopy]
    exact iff_of_true (numberChecked_nil ⟨hfault, rfl, rfl⟩) (Or.inl (Or.inr (Or.inr hcopy)))
  rw [if_neg hcopy, or_iff_right (by tauto)]
  by_cases hrange : maxDmaEngines ≤ i
  · rw [if_pos hrange]
    simp only [maxDmaEngines] at hrange
    exact iff_of_true (numberChecked_nil ⟨hfault, rfl, rfl⟩) (by omega)
  rw [if_neg hrange]
  by_cases hneg : 0 ≤ i
  · have hin : 0 ≤ i ∧ i < maxDmaEngines := ⟨hneg, not_le.1 hrange⟩
    refine iff_of_true ?_ hneg
    by_cases hmask : b.engineMask &&& shiftOne shl i = 0
    · rw [if_pos hmask]
      exact numberChecked_shift hin ⟨hfault, rfl, rfl⟩
    rw [if_neg hmask]
    have hengine := (hasEngine_iff hin b.engineMask).1 hmask
    by_cases hassigned : (b.dma i).engineState ≠ .userAssigned
    · rw [if_pos hassigned]
      exact numberChecked_access hengine
    rw [if_neg hassigned]
    cases (b.user i).userGetState <;> exact numberChecked_access hengine
  · -- Every branch that is left has shifted by the number.
    refine iff_of_false ?_ hneg
    have hout : ¬ (0 ≤ i ∧ i < maxDmaEngines) := fun h => hneg h.1
    split_ifs with hmask hassigned
    · exact not_numberChecked (by simp) hout
    · exact not_numberChecked (by simp) hout
    · cases (b.user i).userGetState <;> exact not_numberChecked (by simp) hout

/-- **`DmaRegister`** checks nothing but the mask. -/
theorem dmaRegisterAt_checked_iff (shl : ℤ → BitVec 64) (engine bar : ℤ) (u : υ)
    (user : UserPtrs υ) (ptrs : TestPtrs υ) (thBhIsr : Bool) (bus : ℕ → U32)
    (block : Option (U32 × U32)) (b : BaseDriver υ) :
    RegisterOk b engine (dmaRegisterAt shl engine bar u user ptrs thBhIsr bus block b) ↔
      b.driverState ≠ .initialized ∨ (bar < 0 ∨ 5 < bar) ∨ 0 ≤ engine ∧ engine < maxDmaEngines := by
  unfold RegisterOk dmaRegisterAt
  by_cases hstate : b.driverState ≠ .initialized
  · rw [if_pos hstate]
    exact iff_of_true (numberChecked_nil ⟨rfl, rfl⟩) (Or.inl hstate)
  rw [if_neg hstate, or_iff_right hstate]
  by_cases hbar : bar < 0 ∨ 5 < bar
  · rw [if_pos hbar]
    exact iff_of_true (numberChecked_nil ⟨rfl, rfl⟩) (Or.inl hbar)
  rw [if_neg hbar, or_iff_right hbar]
  by_cases hin : 0 ≤ engine ∧ engine < maxDmaEngines
  · refine iff_of_true ?_ hin
    by_cases hmask : b.engineMask &&& shiftOne shl engine = 0
    · rw [if_pos hmask]
      exact numberChecked_shift hin ⟨rfl, rfl⟩
    rw [if_neg hmask]
    have hengine := (hasEngine_iff hin b.engineMask).1 hmask
    split_ifs <;> exact numberChecked_access hengine
  · refine iff_of_false ?_ hin
    split_ifs <;> exact not_numberChecked (by simp) hin

/-- With an engine that exists it is the function on that engine. -/
theorem dmaRegisterAt_eq {engine : ℤ} (h : HasEngine b.engineMask engine) (bar : ℤ) (u : υ)
    (user : UserPtrs υ) (ptrs : TestPtrs υ) (thBhIsr : Bool) (bus : ℕ → U32)
    (block : Option (U32 × U32)) :
    (dmaRegisterAt shl engine bar u user ptrs thBhIsr bus block b).1 =
      (dmaRegister b.driverState bar u user thBhIsr bus block (b.dma engine)).1 ∧
    (dmaRegisterAt shl engine bar u user ptrs thBhIsr bus block b).2.1.dma =
      Function.update b.dma engine
        (dmaRegister b.driverState bar u user thBhIsr bus block (b.dma engine)).2.1 := by
  unfold dmaRegisterAt dmaRegister
  rw [if_neg ((hasEngine_iff h.1 b.engineMask).2 h)]
  split_ifs
  · exact ⟨rfl, (Function.update_eq_self ..).symm⟩
  · exact ⟨rfl, (Function.update_eq_self ..).symm⟩
  · exact ⟨rfl, (Function.update_eq_self ..).symm⟩
  · exact ⟨rfl, rfl⟩

/-- **Every number from outside**: the commands check it unless they are given a negative one,
`DmaRegister` unless it is given one out of range. -/
theorem engine_numbers_checked_iff (thBhIsr : Bool) (shl : ℤ → BitVec 64) (b : BaseDriver υ) :
    (∀ engine bar u user ptrs bus block,
      RegisterOk b engine (dmaRegisterAt shl engine bar u user ptrs thBhIsr bus block b) ↔
        b.driverState ≠ .initialized ∨ (bar < 0 ∨ 5 < bar) ∨
          0 ≤ engine ∧ engine < maxDmaEngines) ∧
    (∀ mem tc, CommandOk b tc.engine (igetTestState shl mem tc b) ↔
      Refused mem b ∨ 0 ≤ tc.engine) ∧
    (∀ mem tc, CommandOk b tc.engine (istartTest shl mem tc b) ↔ Refused mem b ∨ 0 ≤ tc.engine) ∧
    ∀ mem eng, CommandOk b eng.engine (igetEngState thBhIsr shl mem eng b) ↔
      Refused mem b ∨ 0 ≤ eng.engine :=
  ⟨fun engine bar u user ptrs bus block =>
      dmaRegisterAt_checked_iff shl engine bar u user ptrs thBhIsr bus block b,
    fun mem tc => ioctlEngine_checked_iff shl mem tc.engine b _,
    fun mem tc => ioctlEngine_checked_iff shl mem tc.engine b _,
    fun mem eng => ioctlEngine_checked_iff shl mem eng.engine b _⟩

/-- A card with engine 0, on a processor that shifts by the number modulo 64. -/
def oneEngineBase : BaseDriver RawData where
  driverState := .initialized
  engineMask := 1
  dma _ := freshEngine
  user _ := { userGetState := none, userSetState := fun u _ => (0, u) }
  userCount := 0

/-- **Beyond the array**: the number 64 passes for engine 0 in `DmaRegister`, and -64 in the
commands. -/
theorem number_64_passes :
    NumberUse.access 64 ∈ (dmaRegisterAt (fun i => BitVec.twoPow 64 (i % 64).toNat) 64 0
      twoPages.user (rxUser 9) { userGetState := none, userSetState := fun u _ => (0, u) } false
      (fun _ => 0) none oneEngineBase).2.2 ∧
    ¬ RegisterOk oneEngineBase 64 (dmaRegisterAt (fun i => BitVec.twoPow 64 (i % 64).toNat) 64 0
      twoPages.user (rxUser 9) { userGetState := none, userSetState := fun u _ => (0, u) } false
      (fun _ => 0) none oneEngineBase) ∧
    NumberUse.access (-64) ∈ (igetTestState (fun i => BitVec.twoPow 64 (i % 64).toNat)
      ⟨true, true, true⟩ ⟨-64, 0, 0, 0⟩ oneEngineBase).uses ∧
    ¬ CommandOk oneEngineBase (-64) (igetTestState (fun i => BitVec.twoPow 64 (i % 64).toNat)
      ⟨true, true, true⟩ ⟨-64, 0, 0, 0⟩ oneEngineBase) := by
  have hregister : NumberUse.access 64 ∈ (dmaRegisterAt
      (fun i => BitVec.twoPow 64 (i % 64).toNat) 64 0 twoPages.user (rxUser 9)
      { userGetState := none, userSetState := fun u _ => (0, u) } false (fun _ => 0) none
      oneEngineBase).2.2 := by decide
  have hget : NumberUse.access (-64) ∈ (igetTestState (fun i => BitVec.twoPow 64 (i % 64).toNat)
      ⟨true, true, true⟩ ⟨-64, 0, 0, 0⟩ oneEngineBase).uses := by decide
  refine ⟨hregister, fun h => ?_, hget, fun h => ?_⟩
  · exact absurd (h.access 64 hregister).1 (by decide)
  · exact absurd (h.access (-64) hget).1 (by decide)

end Dma
