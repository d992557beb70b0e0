import MyDriver.Lib.Runs
import MyDriver.Rawdata.Sguser

/-!
# Test commands: `mySetState`

A test is started and stopped through two registers of the raw data design. `TX_CONFIG_ADDRESS` has
a bit for the packet checker and one for the loopback, `RX_CONFIG_ADDRESS` one for the packet
generator. The driver makes the values of both from one variable, `testmode`, in which checker and
generator have the same bit.

* `shared_bit` — a start may turn on a checker nobody asked for, and leave a generator running.
* `test_registers` — **what the registers say after a start**, and what a rejected start changes.
-/

namespace Dma

open Runs

/-! ## Commands and registers -/

/-- The bits of `TestMode`. -/
def testStart : U32 := 0x00008000
def enablePktchk : U32 := 0x00000100
def enableLoopback : U32 := 0x00000200
def enablePktgen : U32 := 0x00000400

/-- The bits of the registers. -/
def loopback : U32 := 0x00000002
def pktchkr : U32 := 0x00000001
def pktgenr : U32 := 0x00000001

/-- The registers of `xrawdata0`, as offsets from `TXbarbase`. -/
def txConfigAddress : U32 := 0x9108
def rxConfigAddress : U32 := 0x9100
def pktSizeAddress : U32 := 0x9104

def maxPktSize : U32 := 8 * BitVec.ofNat 32 bufSize
def minPktSize : U32 := 64

/-- The error codes that `mySetState` returns, positive as in the source. -/
def eBadf : ℕ := 9
def eFault : ℕ := 14
def eBadrqc : ℕ := 56

/-- The fields of `UserState` that `mySetState` reads. -/
structure UserState where
  minPktSize : U32
  maxPktSize : U32
  testMode : U32

/-- The variables of the raw data driver that a test command reads or writes, next to those of
`RawData`. `testmode` is the static variable of `mySetState`; `reg` is what has been written to a
register last. -/
structure TestVars where
  rawTestMode : U32
  testmode : U32
  rawMinPktSize : U32
  rawMaxPktSize : U32
  rxSeqNo : BitVec 16
  reg : U32 → U32

/-- `XIo_Out32` -/
def TestVars.out32 (t : TestVars) (addr val : U32) : TestVars :=
  { t with reg := Function.update t.reg addr val }

/-- The variables as the driver is loaded. -/
def loadedTest (reg : U32 → U32) : TestVars where
  rawTestMode := 0
  testmode := 0
  rawMinPktSize := minPktSize
  rawMaxPktSize := maxPktSize
  rxSeqNo := 0
  reg := reg

def myInit (raw : RawData) (t : TestVars) : RawData × TestVars :=
  ({ raw with txSeqNo := 0 },
    (({ t with rxSeqNo := 0 }).out32 txConfigAddress 0).out32 rxConfigAddress 0)

/-- `testmode`, once the command is known. -/
def nextTestmode (mode testmode : U32) : U32 :=
  if Flag mode testStart then
    let v : U32 := 0
    let v := if Flag mode enableLoopback then v ||| loopback else v
    let v := if Flag mode enablePktchk then v ||| pktchkr else v
    if Flag mode enablePktgen then v ||| pktgenr else v
  else
    let v := if Flag mode enablePktchk then testmode &&& ~~~pktchkr else testmode
    if Flag mode enablePktgen then v &&& ~~~pktgenr else v

/-- The packet sizes of a test: `RawMinPktSize` and `RawMaxPktSize`. -/
def boundSizes (size : U32) : U32 × U32 :=
  let lim : U32 × U32 := (size, size)
  let lim := if maxPktSize < lim.2 then (maxPktSize, maxPktSize) else lim
  let lim := if lim.1 < minPktSize then (minPktSize, minPktSize) else lim
  if lim.2 < lim.1 then (lim.2, lim.2) else lim

/-- The start of a test that names what to start. -/
def startTest (ustate : UserState) (raw : RawData) (t : TestVars) : RawData × TestVars :=
  let mode := t.rawTestMode
  let sizes := boundSizes ustate.maxPktSize
  let t := { t with rawMinPktSize := sizes.1, rawMaxPktSize := sizes.2 }
  let t := t.out32 pktSizeAddress sizes.2
  -- In case the last test was a loopback test.
  let t := t.out32 txConfigAddress 0
  let tx : RawData × TestVars :=
    if Flag mode (enablePktchk ||| enableLoopback) then
      ({ raw with txSeqNo := 0 },
        { t with rxSeqNo := if Flag mode enableLoopback then 0 else t.rxSeqNo }.out32
          txConfigAddress t.testmode)
    else (raw, t)
  if Flag mode enablePktgen then
    (tx.1, { tx.2 with rxSeqNo := 0 }.out32 rxConfigAddress tx.2.testmode)
  else tx

def mySetState (hndl : U32) (ustate : UserState) (privdata : U32) (raw : RawData) (t : TestVars) :
    ℕ × RawData × TestVars :=
  if raw.driverState ≠ .registered then (eFault, raw, t)
  else if hndl ≠ raw.handle0 ∧ hndl ≠ raw.handle2 then (eBadf, raw, t)
  else if privdata ≠ 0x54545454 then (0, raw, t)
  else
    let mode := ustate.testMode
    let t := { t with rawTestMode := mode, testmode := nextTestmode mode t.testmode }
    if Flag mode testStart then
      if ¬ Flag mode (enablePktchk ||| enablePktgen ||| enableLoopback) then
        (eBadrqc, raw, { t with rawTestMode := 0 })
      else (0, startTest ustate raw t)
    else (0, raw, (t.out32 txConfigAddress t.testmode).out32 rxConfigAddress t.testmode)

/-- A call on the handle of the transmit engine. -/
def setStateTx (raw : RawData) (t : TestVars) (ustate : UserState) : ℕ × RawData × TestVars :=
  mySetState raw.handle0 ustate 0x54545454 raw t

def setStateStep (s : RawData × TestVars) (ustate : UserState) : Option (RawData × TestVars) :=
  some (setStateTx s.1 s.2 ustate).2

/-! ## One command -/

variable {raw : RawData} {t : TestVars} {ustate : UserState} {mode v : U32}

theorem flag_or {a b : U32} : Flag mode (a ||| b) ↔ Flag mode a ∨ Flag mode b := by
  have hor : mode &&& a ||| mode &&& b = 0#32 ↔ mode &&& a = 0#32 ∧ mode &&& b = 0#32 :=
    BitVec.or_eq_zero_iff
  rw [Flag, BitVec.and_or_distrib_left, Flag, Flag, ← not_and_or]
  exact not_congr hor

@[simp] theorem out32_self (t : TestVars) (addr val : U32) : (t.out32 addr val).reg addr = val :=
  Function.update_self _ _ _

/-- The value made for a start: one bit for the loopback, and one for checker and generator. -/
theorem nextTestmode_start (hstart : Flag mode testStart) :
    (Flag (nextTestmode mode v) loopback ↔ Flag mode enableLoopback) ∧
    (Flag (nextTestmode mode v) pktchkr ↔ Flag mode enablePktchk ∨ Flag mode enablePktgen) := by
  have hbits : ∀ l c g : Bool,
      let v : U32 := 0
      let v := if l = true then v ||| loopback else v
      let v := if c = true then v ||| pktchkr else v
      let v := if g = true then v ||| pktgenr else v
      (Flag v loopback ↔ l = true) ∧ (Flag v pktchkr ↔ c = true ∨ g = true) := by decide
  have hmode := hbits (decide (Flag mode enableLoopback)) (decide (Flag mode enablePktchk))
    (decide (Flag mode enablePktgen))
  simp only [decide_eq_true_eq] at hmode
  rw [nextTestmode, if_pos hstart]
  exact hmode

/-- A stop that names the checker or the generator clears their bit. -/
theorem nextTestmode_stop (hstop : ¬ Flag mode testStart)
    (hnamed : Flag mode enablePktchk ∨ Flag mode enablePktgen) :
    ¬ Flag (nextTestmode mode v) pktgenr := by
  have hclear : (v &&& ~~~pktchkr) &&& pktgenr = 0#32 := by
    rw [BitVec.and_assoc, show ~~~pktchkr &&& pktgenr = 0#32 by decide, BitVec.and_zero]
  have hclear' : ∀ w : U32, (w &&& ~~~pktgenr) &&& pktgenr = 0#32 := by
    intro w
    rw [BitVec.and_assoc, show ~~~pktgenr &&& pktgenr = 0#32 by decide, BitVec.and_zero]
  rw [nextTestmode, if_neg hstop]
  dsimp only
  by_cases hgen : Flag mode enablePktgen
  · rw [if_pos hgen]
    exact not_not_intro (hclear' _)
  · rw [if_neg hgen, if_pos (hnamed.resolve_right hgen)]
    exact not_not_intro hclear

/-- A stop that names neither keeps it. -/
theorem nextTestmode_drain (hstop : ¬ Flag mode testStart)
    (hchk : ¬ Flag mode enablePktchk) (hgen : ¬ Flag mode enablePktgen) :
    nextTestmode mode v = v := by
  rw [nextTestmode, if_neg hstop]
  dsimp only
  rw [if_neg hgen, if_neg hchk]

/-- What a start writes into the two registers. -/
theorem startTest_reg (ustate : UserState) (raw : RawData) (t : TestVars) :
    (startTest ustate raw t).2.reg txConfigAddress =
      (if Flag t.rawTestMode (enablePktchk ||| enableLoopback) then t.testmode else 0) ∧
    (startTest ustate raw t).2.reg rxConfigAddress =
      (if Flag t.rawTestMode enablePktgen then t.testmode else t.reg rxConfigAddress) ∧
    (startTest ustate raw t).2.testmode = t.testmode := by
  rw [startTest]
  dsimp only
  split_ifs with hgen htx htx <;>
    simp [TestVars.out32, Function.update, txConfigAddress, rxConfigAddress, pktSizeAddress]

/-- The checker or the generator. -/
def Names (mode : U32) : Prop := Flag mode enablePktchk ∨ Flag mode enablePktgen

/-- The modes a test may have. -/
abbrev testModes : U32 := enablePktchk ||| enablePktgen ||| enableLoopback

theorem flag_testModes :
    Flag mode testModes ↔ Names mode ∨ Flag mode enableLoopback := by
  rw [testModes, flag_or, flag_or, Names]

theorem setStateTx_stop (hreg : raw.driverState = .registered)
    (hstop : ¬ Flag ustate.testMode testStart) :
    setStateTx raw t ustate = (0, raw,
      ({ t with
        rawTestMode := ustate.testMode
        testmode := nextTestmode ustate.testMode t.testmode }.out32 txConfigAddress
          (nextTestmode ustate.testMode t.testmode)).out32 rxConfigAddress
            (nextTestmode ustate.testMode t.testmode)) := by
  rw [setStateTx, mySetState, if_neg (not_not_intro hreg), if_neg fun h => h.1 rfl,
    if_neg (not_not_intro rfl)]
  dsimp only
  rw [if_neg hstop]

theorem setStateTx_rejected (hreg : raw.driverState = .registered)
    (hstart : Flag ustate.testMode testStart) (hnone : ¬ Flag ustate.testMode testModes) :
    setStateTx raw t ustate = (eBadrqc, raw, { t with rawTestMode := 0, testmode := 0 }) := by
  rw [setStateTx, mySetState, if_neg (not_not_intro hreg), if_neg fun h => h.1 rfl,
    if_neg (not_not_intro rfl)]
  dsimp only
  rw [if_pos hstart, if_pos hnone]
  rw [flag_testModes, Names, not_or, not_or] at hnone
  obtain ⟨⟨hchk, hgen⟩, hloop⟩ := hnone
  rw [nextTestmode, if_pos hstart]
  dsimp only
  rw [if_neg hgen, if_neg hchk, if_neg hloop]

theorem setStateTx_started (hreg : raw.driverState = .registered)
    (hstart : Flag ustate.testMode testStart) (hsome : Flag ustate.testMode testModes) :
    setStateTx raw t ustate = (0, startTest ustate raw { t with
      rawTestMode := ustate.testMode
      testmode := nextTestmode ustate.testMode t.testmode }) := by
  rw [setStateTx, mySetState, if_neg (not_not_intro hreg), if_neg fun h => h.1 rfl,
    if_neg (not_not_intro rfl)]
  dsimp only
  rw [if_pos hstart, if_neg (not_not_intro hsome)]

/-- What the registers say after a start. The bit that checker and generator share shows in
`TX_CONFIG_ADDRESS` when a loopback is started with a generator; and `RX_CONFIG_ADDRESS` is only
written when a generator is started. -/
structure FollowsStart (mode : U32) (before after : TestVars) : Prop where
  loopback : Flag (after.reg txConfigAddress) loopback ↔ Flag mode enableLoopback
  checker : ¬ (Flag mode enableLoopback ∧ Flag mode enablePktgen ∧ ¬ Flag mode enablePktchk) →
    (Flag (after.reg txConfigAddress) pktchkr ↔ Flag mode enablePktchk)
  generator : Flag mode enablePktgen ∨ ¬ Flag (before.reg rxConfigAddress) pktgenr →
    (Flag (after.reg rxConfigAddress) pktgenr ↔ Flag mode enablePktgen)

theorem startTest_follows (hstart : Flag ustate.testMode testStart) :
    FollowsStart ustate.testMode t (startTest ustate raw { t with
      rawTestMode := ustate.testMode
      testmode := nextTestmode ustate.testMode t.testmode }).2 := by
  obtain ⟨htx, hrx, -⟩ := startTest_reg ustate raw { t with
    rawTestMode := ustate.testMode
    testmode := nextTestmode ustate.testMode t.testmode }
  obtain ⟨hloop, hshared⟩ := nextTestmode_start (v := t.testmode) hstart
  dsimp only at htx hrx
  have hzero : ∀ b : U32, ¬ Flag 0 b := fun b h => h BitVec.zero_and
  refine ⟨?_, fun hasked => ?_, fun hbefore => ?_⟩
  · rw [htx]
    by_cases hon : Flag ustate.testMode (enablePktchk ||| enableLoopback)
    · rw [if_pos hon]
      exact hloop
    · rw [if_neg hon]
      rw [flag_or, not_or] at hon
      exact ⟨fun h => absurd h (hzero _), fun h => absurd h hon.2⟩
  · rw [htx]
    by_cases hon : Flag ustate.testMode (enablePktchk ||| enableLoopback)
    · rw [if_pos hon, hshared]
      rw [flag_or] at hon
      constructor
      · rintro (hchk | hgen)
        · exact hchk
        · by_cases hchk : Flag ustate.testMode enablePktchk
          · exact hchk
          · exact absurd ⟨hon.resolve_left hchk, hgen, hchk⟩ hasked
      · exact Or.inl
    · rw [if_neg hon]
      rw [flag_or, not_or] at hon
      exact ⟨fun h => absurd h (hzero _), fun h => absurd h hon.1⟩
  · rw [hrx]
    by_cases hgen : Flag ustate.testMode enablePktgen
    · rw [if_pos hgen]
      exact ⟨fun _ => hgen, fun _ => hshared.2 (Or.inr hgen)⟩
    · rw [if_neg hgen]
      exact ⟨fun h => absurd h (hbefore.resolve_left hgen), fun h => absurd h hgen⟩

/-! ## Sequences of commands -/

/-- Every start that names the checker or the generator has been followed by a stop that does. -/
def Stopped (cmds : List UserState) : Prop :=
  ∀ pre c post, cmds = pre ++ c :: post → Flag c.testMode testStart → Names c.testMode →
    ∃ c' ∈ post, ¬ Flag c'.testMode testStart ∧ Names c'.testMode

/-- The generator bit is set neither in the register nor in the value that the next stop writes. -/
structure GeneratorOff (t : TestVars) : Prop where
  reg : ¬ Flag (t.reg rxConfigAddress) pktgenr
  testmode : ¬ Flag t.testmode pktgenr

theorem Stopped.concat {cmds : List UserState} {c : UserState} (h : Stopped (cmds ++ [c])) :
    (¬ Flag c.testMode testStart ∧ Names c.testMode) ∨
      (Stopped cmds ∧ ¬ (Flag c.testMode testStart ∧ Names c.testMode)) := by
  by_cases hstop : ¬ Flag c.testMode testStart ∧ Names c.testMode
  · exact Or.inl hstop
  · refine Or.inr ⟨fun pre d post heq hstart hnames => ?_, fun hc => ?_⟩
    · obtain ⟨c', hc', hstop'⟩ := h pre d (post ++ [c]) (by rw [heq]; simp) hstart hnames
      rcases List.mem_append.1 hc' with hin | hlast
      · exact ⟨c', hin, hstop'⟩
      · rw [List.mem_singleton] at hlast
        subst hlast
        exact absurd hstop' hstop
    · obtain ⟨c', hc', -⟩ := h cmds c [] rfl hc.1 hc.2
      cases hc'

/-- **One command**, for the generator. -/
theorem GeneratorOff.setState (hreg : raw.driverState = .registered)
    (h : (¬ Flag ustate.testMode testStart ∧ Names ustate.testMode) ∨
      (GeneratorOff t ∧ ¬ (Flag ustate.testMode testStart ∧ Names ustate.testMode))) :
    GeneratorOff (setStateTx raw t ustate).2.2 := by
  by_cases hstart : Flag ustate.testMode testStart
  · obtain ⟨⟨hreg', htest⟩, hnames⟩ := h.resolve_left fun hstop => hstop.1 hstart
    have hnone : ¬ Names ustate.testMode := fun hnames' => hnames ⟨hstart, hnames'⟩
    by_cases hsome : Flag ustate.testMode testModes
    · rw [setStateTx_started hreg hstart hsome]
      obtain ⟨-, hrx, hkeep⟩ := startTest_reg ustate raw { t with
        rawTestMode := ustate.testMode
        testmode := nextTestmode ustate.testMode t.testmode }
      dsimp only at hrx hkeep ⊢
      constructor
      · rw [hrx, if_neg fun hgen => hnone (Or.inr hgen)]
        exact hreg'
      · rw [hkeep]
        exact fun hbit => hnone ((nextTestmode_start hstart).2.1 hbit)
    · rw [setStateTx_rejected hreg hstart hsome]
      exact ⟨hreg', fun hbit => hbit BitVec.zero_and⟩
  · have hoff : ¬ Flag (nextTestmode ustate.testMode t.testmode) pktgenr := by
      rcases h with ⟨-, hnames⟩ | ⟨⟨-, htest⟩, -⟩
      · exact nextTestmode_stop hstart hnames
      · by_cases hnames : Names ustate.testMode
        · exact nextTestmode_stop hstart hnames
        · rw [nextTestmode_drain hstart (fun hchk => hnames (Or.inl hchk))
            fun hgen => hnames (Or.inr hgen)]
          exact htest
    rw [setStateTx_stop hreg hstart]
    constructor
    · rw [out32_self]
      exact hoff
    · exact hoff

theorem setStateTx_raw (hreg : raw.driverState = .registered) :
    (setStateTx raw t ustate).2.1.driverState = .registered := by
  by_cases hstart : Flag ustate.testMode testStart
  · by_cases hsome : Flag ustate.testMode testModes
    · rw [setStateTx_started hreg hstart hsome, startTest]
      dsimp only
      split_ifs <;> exact hreg
    · rw [setStateTx_rejected hreg hstart hsome]
      exact hreg
  · rw [setStateTx_stop hreg hstart]
    exact hreg

/-- The raw data driver has been loaded and registered. -/
def registeredTest (raw : RawData) (reg : U32 → U32) : RawData × TestVars :=
  myInit { raw with driverState := .registered } (loadedTest reg)

/-- **Any sequence of commands.** -/
theorem setState_run (raw₀ : RawData) (reg : U32 → U32) (cmds : List UserState)
    (s : RawData × TestVars) (hrun : run setStateStep (registeredTest raw₀ reg) cmds = some s) :
    s.1.driverState = .registered ∧ (Stopped cmds → GeneratorOff s.2) := by
  induction cmds using List.reverseRecOn generalizing s with
  | nil =>
    rw [run_nil, Option.some.injEq] at hrun
    subst hrun
    refine ⟨rfl, fun _ => ⟨?_, fun hbit => hbit BitVec.zero_and⟩⟩
    rw [registeredTest, myInit, out32_self]
    exact fun hbit => hbit BitVec.zero_and
  | append_singleton cmds c ih =>
    rw [run_append, Option.bind_eq_some_iff] at hrun
    obtain ⟨⟨raw, t⟩, hrun, hlast⟩ := hrun
    obtain ⟨hreg, hoff⟩ := ih _ hrun
    rw [run_cons, setStateStep, Option.bind_some, run_nil, Option.some.injEq] at hlast
    subst hlast
    refine ⟨setStateTx_raw hreg, fun hstopped => GeneratorOff.setState hreg ?_⟩
    rcases hstopped.concat with hstop | ⟨hbefore, hother⟩
    · exact Or.inl hstop
    · exact Or.inr ⟨hoff hbefore, hother⟩

/-- **The registers after a start.** In every sequence of commands on the transmit handle: after a
start that was accepted the registers say what was asked for, as far as `FollowsStart` goes, and
before it no generator was on if whatever was started had been stopped; a start that was rejected
has cleared `RawTestMode` and `testmode` and written no register. -/
theorem test_registers (raw₀ : RawData) (reg : U32 → U32) (cmds : List UserState)
    (ustate : UserState) (s : RawData × TestVars)
    (hrun : run setStateStep (registeredTest raw₀ reg) cmds = some s) :
    (Flag ustate.testMode testStart → (setStateTx s.1 s.2 ustate).1 = 0 →
      FollowsStart ustate.testMode s.2 (setStateTx s.1 s.2 ustate).2.2) ∧
    (Stopped cmds → ¬ Flag (s.2.reg rxConfigAddress) pktgenr) ∧
    ((setStateTx s.1 s.2 ustate).1 = eBadrqc →
      (setStateTx s.1 s.2 ustate).2 = (s.1, { s.2 with rawTestMode := 0, testmode := 0 })) := by
  obtain ⟨hreg, hoff⟩ := setState_run raw₀ reg cmds s hrun
  refine ⟨fun hstart haccepted => ?_, fun hstopped => (hoff hstopped).reg, fun hrejected => ?_⟩
  · by_cases hsome : Flag ustate.testMode testModes
    · rw [setStateTx_started hreg hstart hsome]
      exact startTest_follows hstart
    · rw [setStateTx_rejected hreg hstart hsome] at haccepted
      cases haccepted
  · by_cases hstart : Flag ustate.testMode testStart
    · by_cases hsome : Flag ustate.testMode testModes
      · rw [setStateTx_started hreg hstart hsome] at hrejected
        cases hrejected
      · rw [setStateTx_rejected hreg hstart hsome]
    · rw [setStateTx_stop hreg hstart] at hrejected
      cases hrejected

/-- A command with the packet sizes of the loaded driver. -/
def command (mode : U32) : UserState :=
  { minPktSize := minPktSize, maxPktSize := maxPktSize, testMode := mode }

/-- A generator and then a checker with a loopback are started and stopped, and a start that names
nothing is rejected in between. -/
def startsAndStops : List UserState :=
  [command (testStart ||| enablePktgen), command enablePktgen, command testStart,
    command (testStart ||| enablePktchk ||| enableLoopback), command enablePktchk]

theorem startsAndStops_stopped : Stopped startsAndStops := by
  intro pre c post heq hstart hnames
  have hstop : ∀ mode, ¬ Flag mode testStart ∧ Names mode → command mode ∈ post →
      ∃ c' ∈ post, ¬ Flag c'.testMode testStart ∧ Names c'.testMode :=
    fun mode h hin => ⟨command mode, hin, h⟩
  -- Where `c` stands decides which stop follows.
  rcases pre with _ | ⟨c₀, _ | ⟨c₁, _ | ⟨c₂, _ | ⟨c₃, pre⟩⟩⟩⟩
  all_goals
    simp only [startsAndStops, List.nil_append, List.cons_append, List.cons.injEq] at heq
  · exact hstop enablePktgen ⟨by decide, Or.inr (by decide)⟩ (heq.2 ▸ List.mem_cons_self)
  · exact absurd (heq.2.1 ▸ hstart) (by decide)
  · exact absurd (heq.2.2.1 ▸ hnames) (by unfold Names; decide)
  · exact hstop enablePktchk ⟨by decide, Or.inl (by decide)⟩ (heq.2.2.2.2 ▸ List.mem_cons_self)
  · have hlast : c ∈ [command enablePktchk] :=
      heq.2.2.2.2 ▸ List.mem_append_right pre List.mem_cons_self
    exact absurd (List.mem_singleton.1 hlast ▸ hstart) (by decide)

/-- Then no generator is on, a checker can be started alone, and a start that names nothing changes
no register. -/
theorem test_registers_startsAndStops : ∃ s after,
    run setStateStep (registeredTest twoPages.user fun _ => 0) startsAndStops = some s ∧
    ¬ Flag (s.2.reg rxConfigAddress) pktgenr ∧
    (setStateTx s.1 s.2 (command (testStart ||| enablePktchk))).2.2 = after ∧
    FollowsStart (testStart ||| enablePktchk) s.2 after ∧
    Flag (after.reg txConfigAddress) pktchkr ∧ ¬ Flag (after.reg rxConfigAddress) pktgenr ∧
    (setStateTx s.1 s.2 (command testStart)).2 =
      (s.1, { s.2 with rawTestMode := 0, testmode := 0 }) := by
  have hafter := fun ustate s => test_registers twoPages.user (fun _ => 0) startsAndStops ustate s
  have hoff := (hafter (command testStart) _ rfl).2.1 startsAndStops_stopped
  have hfollows := (hafter (command (testStart ||| enablePktchk)) _ rfl).1 (by decide) rfl
  have hchecker := (hfollows.checker (by decide)).2 (by decide)
  have hgenerator := mt (hfollows.generator (Or.inr hoff)).1 (by decide)
  have hrejected := (hafter (command testStart) _ rfl).2.2 rfl
  exact ⟨_, _, rfl, hoff, rfl, hfollows, hchecker, hgenerator, hrejected⟩

/-- **One bit for two.** A loopback started with a generator turns on the checker. A checker
started while a generator runs leaves it on. A start that names nothing forgets the mode and the
value of the registers. -/
theorem shared_bit :
    (∃ s, run setStateStep (registeredTest twoPages.user fun _ => 0)
        [command (testStart ||| enableLoopback ||| enablePktgen)] = some s ∧
      s.2.reg txConfigAddress = loopback ||| pktchkr) ∧
    (∃ s, run setStateStep (registeredTest twoPages.user fun _ => 0)
        [command (testStart ||| enablePktgen), command (testStart ||| enablePktchk)] = some s ∧
      s.2.reg rxConfigAddress = pktgenr) ∧
    ∃ s, run setStateStep (registeredTest twoPages.user fun _ => 0)
        [command (testStart ||| enablePktchk)] = some s ∧
      s.2.rawTestMode ≠ 0 ∧ s.2.testmode ≠ 0 ∧
      (setStateTx s.1 s.2 (command testStart)).1 = eBadrqc ∧
      (setStateTx s.1 s.2 (command testStart)).2.2.rawTestMode = 0 ∧
      (setStateTx s.1 s.2 (command testStart)).2.2.testmode = 0 :=
  ⟨⟨_, rfl, by decide⟩, ⟨_, rfl, by decide⟩, _, rfl, by decide, by decide, by decide, by decide,
    by decide⟩

end Dma
