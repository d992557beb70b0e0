import MyDriver.Lib.Blocks
import MyDriver.Lib.Runs
import Mathlib.Algebra.Ring.Nat

/-!
# The touch screen: `s3c2410_ts.c`

While the pen is down the driver starts one conversion after the other. `stylus_action` adds up the
samples, and after `1 << shift` of them it starts a timer; `touch_timer_fire` then reports the mean
and begins anew, or reports that the pen is up. It is called from `stylus_updown` as well, when the
pen comes down.

The source has doubts about that call ("we should never get an interrupt with updown set while the
timer is running"). Nothing in the code keeps it from being made in the middle of a series: then the
report has the sum of too few samples. And if the pen is up when it looks again, the samples it has
are kept and the next series is added to them. What the driver relies on is that the controller
interrupts for a pen that comes down only while it waits for that (`AwaitsPen`).

The sums and the count are natural numbers here. For a shift of 21 at most, which `touch_reports`
supposes, none of them leaves the range of a `long` or an `int` of 32 bits.

* `TouchInv.fire` — one series ends and another begins.
* `touch_reports` — **the positions reported are means of whole blocks of samples**, in order.
-/

namespace TouchScreen

open Blocks Runs

abbrev U32 := BitVec 32

/-- `S3C2410_ADCDAT0_UPDOWN` -/
def adcdat0Updown : U32 := 0x8000

/-- `S3C2410_ADCDAT0_XPDATA_MASK`, `S3C2410_ADCDAT1_YPDATA_MASK` -/
def xpdataMask : U32 := 0x3FF
def ypdataMask : U32 := 0x3FF

/-- What is written to `S3C2410_ADCTSC`. -/
inductive Adctsc where
  /-- `WAIT4INT(0)`: wait for the pen to come down. -/
  | waitDown
  /-- `WAIT4INT(1)`: wait for the pen to go up. -/
  | waitUp
  /-- `S3C2410_ADCTSC_PULL_UP_DISABLE | AUTOPST` -/
  | autoPst
deriving DecidableEq

/-- What is reported to the input system, up to an `input_sync`. -/
inductive Report where
  | down (x y : ℕ)
  | up
deriving DecidableEq

structure Ts where
  xp : ℕ
  yp : ℕ
  count : ℕ
  shift : ℕ
  adctsc : Adctsc
  /-- `S3C2410_ADCCON_ENABLE_START`: a conversion is going on. -/
  started : Bool
  /-- `touch_timer` is pending. -/
  timer : Bool
  reports : List Report
  /-- The samples there have been. -/
  samples : List (ℕ × ℕ)
deriving DecidableEq

/-- `s3c2410ts_probe`, as far as it goes well. -/
def s3c2410tsProbe (oversamplingShift : ℕ) : Ts where
  xp := 0
  yp := 0
  count := 0
  shift := oversamplingShift
  adctsc := .waitDown
  started := false
  timer := false
  reports := []
  samples := []

/-- `updown` -/
def updown (data0 data1 : U32) : Bool :=
  data0 &&& adcdat0Updown == 0 && data1 &&& adcdat0Updown == 0

/-- The position in what the converter has. -/
def sample (data0 data1 : U32) : ℕ × ℕ :=
  ((data0 &&& xpdataMask).toNat, (data1 &&& ypdataMask).toNat)

namespace Ts

variable (ts : Ts)

/-- Write `AUTOPST`, and start a conversion. -/
def start : Ts := { ts with adctsc := .autoPst, started := true }

/-- `touch_timer_fire` -/
def touchTimerFire (data0 data1 : U32) : Ts :=
  if updown data0 data1 then
    let ts :=
      if ts.count ≠ 0 then
        let ts := { ts with xp := ts.xp >>> ts.shift, yp := ts.yp >>> ts.shift }
        { ts with reports := ts.reports ++ [.down ts.xp ts.yp] }
      else ts
    { ts with xp := 0, yp := 0, count := 0 }.start
  else { ts with count := 0, reports := ts.reports ++ [.up], adctsc := .waitDown }

/-- `stylus_updown`, which reads the registers, and `touch_timer_fire`, which reads them again. -/
def stylusUpdown (data0 data1 data0' data1' : U32) : Ts :=
  if updown data0 data1 then ts.touchTimerFire data0' data1' else ts

/-- `stylus_action` -/
def stylusAction (data0 data1 : U32) : Ts :=
  let ts := { ts with
    xp := ts.xp + (data0 &&& xpdataMask).toNat
    yp := ts.yp + (data1 &&& ypdataMask).toNat
    count := ts.count + 1 }
  if ts.count < 1 <<< ts.shift then ts.start
  else { ts with timer := true, adctsc := .waitUp }

end Ts

inductive TouchAct where
  /-- `IRQ_TC`; the registers are read twice. -/
  | tc (data0 data1 data0' data1' : U32)
  /-- `IRQ_ADC`, when a conversion is done. -/
  | adc (data0 data1 : U32)
  /-- The timer expires. -/
  | timer (data0 data1 : U32)
deriving DecidableEq

/-- The handlers, as one step each: the registers that let the next one come are written last. -/
def touchStep (ts : Ts) : TouchAct → Option Ts
  | .tc data0 data1 data0' data1' => some (ts.stylusUpdown data0 data1 data0' data1')
  | .adc data0 data1 =>
    if ts.started = true then
      some ({ ts with
        started := false
        samples := ts.samples ++ [sample data0 data1] }.stylusAction data0 data1)
    else none
  | .timer data0 data1 =>
    if ts.timer = true then some ({ ts with timer := false }.touchTimerFire data0 data1) else none

/-- The controller interrupts for a pen that is down only when it waits for it to come down. -/
def AwaitsPen (ts : Ts) : TouchAct → Prop
  | .tc data0 data1 _ _ => updown data0 data1 = true → ts.adctsc = .waitDown
  | .adc _ _ | .timer _ _ => True

instance (ts : Ts) : (a : TouchAct) → Decidable (AwaitsPen ts a)
  | .tc data0 data1 _ _ => inferInstanceAs (Decidable (updown data0 data1 = true → _))
  | .adc _ _ | .timer _ _ => inferInstanceAs (Decidable True)

/-- The positions that are reported. -/
def positions (reports : List Report) : List (ℕ × ℕ) :=
  reports.filterMap fun
    | .down x y => some (x, y)
    | .up => none

/-- The sums of both coordinates. -/
def sums (l : List (ℕ × ℕ)) : ℕ × ℕ := ((l.map Prod.fst).sum, (l.map Prod.snd).sum)

/-- The mean of a list of samples, rounded down. -/
def mean (l : List (ℕ × ℕ)) : ℕ × ℕ := ((sums l).1 / l.length, (sums l).2 / l.length)

/-! ## A series of samples -/

theorem sums_concat (l : List (ℕ × ℕ)) (p : ℕ × ℕ) :
    sums (l ++ [p]) = ((sums l).1 + p.1, (sums l).2 + p.2) := by
  simp [sums]

/-- Where the driver is with the samples `part` of the series. -/
inductive Phase (ts : Ts) (part : List (ℕ × ℕ)) : Prop where
  | waiting (adctsc : ts.adctsc = .waitDown) (started : ts.started = false)
      (timer : ts.timer = false) (count : ts.count = 0) (part_eq : part = [])
  | converting (adctsc : ts.adctsc = .autoPst) (started : ts.started = true)
      (timer : ts.timer = false) (count : ts.count = part.length)
      (lt : part.length < 2 ^ ts.shift) (sums_eq : (ts.xp, ts.yp) = sums part)
  | complete (adctsc : ts.adctsc = .waitUp) (started : ts.started = false)
      (timer : ts.timer = true) (count : ts.count = part.length)
      (length : part.length = 2 ^ ts.shift) (sums_eq : (ts.xp, ts.yp) = sums part)

/-- A position on the screen. -/
def OnScreen (p : ℕ × ℕ) : Prop := p.1 ≤ 0x3FF ∧ p.2 ≤ 0x3FF

/-- The samples before the series, `before`, are whole blocks, and what is reported are means of
these. -/
structure Cut (shift : ℕ) (ts : Ts) (before part : List (ℕ × ℕ)) : Prop where
  shift_eq : ts.shift = shift
  samples : ts.samples = before ++ part
  whole : 2 ^ shift ∣ before.length
  reported : (positions ts.reports).Sublist ((blocks (2 ^ shift) before).map mean)
  onScreen : ∀ p ∈ ts.samples, OnScreen p
  bounded : ts.xp ≤ 0x3FF * 2 ^ shift ∧ ts.yp ≤ 0x3FF * 2 ^ shift

/-- **The invariant.** -/
def TouchInv (shift : ℕ) (ts : Ts) : Prop := ∃ before part, Cut shift ts before part ∧ Phase ts part

variable {shift : ℕ} {ts ts' : Ts} {before part : List (ℕ × ℕ)}

theorem sums_le (h : ∀ p ∈ part, OnScreen p) :
    (sums part).1 ≤ 0x3FF * part.length ∧ (sums part).2 ≤ 0x3FF * part.length := by
  induction part with
  | nil => exact ⟨Nat.zero_le _, Nat.zero_le _⟩
  | cons p l ih =>
    obtain ⟨hfst, hsnd⟩ := ih fun q hq => h q (List.mem_cons_of_mem p hq)
    obtain ⟨hp, hp'⟩ := h p List.mem_cons_self
    simp only [sums, List.map_cons, List.sum_cons, List.length_cons] at hfst hsnd ⊢
    omega

theorem mean_onScreen (h : ∀ p ∈ part, OnScreen p) : OnScreen (mean part) := by
  obtain ⟨hfst, hsnd⟩ := sums_le h
  rw [Nat.mul_comm] at hfst hsnd
  exact ⟨Nat.div_le_of_le_mul hfst, Nat.div_le_of_le_mul hsnd⟩

theorem sample_onScreen (data0 data1 : U32) : OnScreen (sample data0 data1) := by
  unfold OnScreen sample xpdataMask ypdataMask
  rw [BitVec.toNat_and, BitVec.toNat_and]
  exact ⟨Nat.and_le_right, Nat.and_le_right⟩

/-! ## One step -/

theorem touchTimerFire_down {data0 data1 : U32} (hdown : updown data0 data1 = true) :
    ts.touchTimerFire data0 data1 = { ts with
      xp := 0
      yp := 0
      count := 0
      adctsc := .autoPst
      started := true
      reports := if ts.count ≠ 0 then
          ts.reports ++ [.down (ts.xp >>> ts.shift) (ts.yp >>> ts.shift)]
        else ts.reports } := by
  unfold Ts.touchTimerFire
  rw [if_pos hdown]
  split_ifs <;> rfl

theorem touchTimerFire_up {data0 data1 : U32} (hup : ¬ updown data0 data1 = true) :
    ts.touchTimerFire data0 data1 =
      { ts with count := 0, reports := ts.reports ++ [.up], adctsc := .waitDown } := if_neg hup

/-- **One series ends**, whether it is complete or has not begun. -/
theorem Cut.fire (h : Cut shift ts before part) (hstarted : ts.started = false)
    (htimer : ts.timer = false)
    (hpart : part = [] ∧ ts.count = 0 ∨
      part.length = 2 ^ shift ∧ ts.count = part.length ∧ (ts.xp, ts.yp) = sums part)
    (data0 data1 : U32) : TouchInv shift (ts.touchTimerFire data0 data1) := by
  have hpow : 0 < 2 ^ shift := Nat.two_pow_pos shift
  have hsamples : ts.samples = before ++ part ++ [] := by rw [List.append_nil, h.samples]
  have hwhole : 2 ^ shift ∣ (before ++ part).length := by
    rw [List.length_append]
    rcases hpart with ⟨rfl, -⟩ | ⟨hlen, -⟩
    · exact h.whole
    · rw [hlen]
      exact Nat.dvd_add h.whole (Nat.dvd_refl _)
  have hgrow : ((blocks (2 ^ shift) before).map mean).Sublist
      ((blocks (2 ^ shift) (before ++ part)).map mean) := by
    rcases hpart with ⟨rfl, -⟩ | ⟨hlen, -⟩
    · rw [List.append_nil]
    · rw [blocks_concat hpow h.whole hlen]
      exact (List.sublist_append_left _ _).map mean
  by_cases hdown : updown data0 data1 = true
  · rw [touchTimerFire_down hdown]
    refine ⟨before ++ part, [], ⟨h.shift_eq, hsamples, hwhole, ?_, h.onScreen, ?_⟩,
      .converting rfl rfl htimer rfl (Nat.two_pow_pos _) rfl⟩
    · rcases hpart with ⟨-, hcount⟩ | ⟨hlen, hcount, hsums⟩
      · rw [if_neg (not_not.2 hcount)]
        exact h.reported.trans hgrow
      · -- The samples of the series are one block more, and their mean is reported.
        rw [if_pos (by omega), h.shift_eq, blocks_concat hpow h.whole hlen, List.map_append,
          positions, List.filterMap_append]
        have hmean : mean part = (ts.xp >>> shift, ts.yp >>> shift) := by
          rw [mean, ← hsums, hlen, Nat.shiftRight_eq_div_pow, Nat.shiftRight_eq_div_pow]
        rw [List.map_singleton, hmean]
        exact h.reported.append (List.Sublist.refl _)
    · exact ⟨Nat.zero_le _, Nat.zero_le _⟩
  · rw [touchTimerFire_up hdown]
    refine ⟨before ++ part, [], ⟨h.shift_eq, hsamples, hwhole, ?_, h.onScreen, h.bounded⟩,
      .waiting rfl hstarted htimer rfl rfl⟩
    rw [positions, List.filterMap_append]
    exact (List.append_nil (positions ts.reports)).symm ▸ h.reported.trans hgrow

/-- A sample is added to the series. -/
theorem Cut.action (h : Cut shift ts before part) (htimer : ts.timer = false)
    (hcount : ts.count = part.length) (hlt : part.length < 2 ^ shift)
    (hsums : (ts.xp, ts.yp) = sums part) (data0 data1 : U32) :
    TouchInv shift ({ ts with
      started := false
      samples := ts.samples ++ [sample data0 data1] }.stylusAction data0 data1) := by
  have hsamples : ts.samples ++ [sample data0 data1] =
      before ++ (part ++ [sample data0 data1]) := by
    rw [h.samples, List.append_assoc]
  have hscreen : ∀ p ∈ ts.samples ++ [sample data0 data1], OnScreen p := fun p hp => by
    rcases List.mem_append.1 hp with hp | hp
    · exact h.onScreen p hp
    · exact List.mem_singleton.1 hp ▸ sample_onScreen data0 data1
  have hnext : (ts.xp + (data0 &&& xpdataMask).toNat, ts.yp + (data1 &&& ypdataMask).toNat) =
      sums (part ++ [sample data0 data1]) := by
    rw [sums_concat, ← hsums]
    rfl
  have hlen : (part ++ [sample data0 data1]).length = part.length + 1 := List.length_append
  have hpart : ∀ p ∈ part ++ [sample data0 data1], OnScreen p := fun p hp =>
    hscreen p (hsamples ▸ List.mem_append_right before hp)
  have hbound := sums_le hpart
  rw [← hnext, hlen] at hbound
  have hcut : ∀ adctsc started timer, Cut shift { ts with
      xp := ts.xp + (data0 &&& xpdataMask).toNat
      yp := ts.yp + (data1 &&& ypdataMask).toNat
      count := ts.count + 1
      adctsc := adctsc
      started := started
      timer := timer
      samples := ts.samples ++ [sample data0 data1] } before (part ++ [sample data0 data1]) :=
    fun _ _ _ => ⟨h.shift_eq, hsamples, h.whole, h.reported, hscreen,
      Nat.le_trans hbound.1 (Nat.mul_le_mul_left _ hlt),
      Nat.le_trans hbound.2 (Nat.mul_le_mul_left _ hlt)⟩
  have hcount' : ts.count + 1 = (part ++ [sample data0 data1]).length := by rw [hlen, hcount]
  unfold Ts.stylusAction
  dsimp only
  split_ifs with hmore
  · refine ⟨before, part ++ [sample data0 data1], hcut _ _ _,
      .converting rfl rfl htimer hcount' ?_ hnext⟩
    rw [← hcount', ← Nat.one_shiftLeft]
    exact hmore
  · refine ⟨before, part ++ [sample data0 data1], hcut _ _ _,
      .complete rfl rfl rfl hcount' ?_ hnext⟩
    rw [Nat.one_shiftLeft, h.shift_eq, hcount] at hmore
    rw [hlen]
    exact (Nat.le_antisymm hlt (Nat.not_lt.1 hmore)).trans (congrArg (2 ^ ·) h.shift_eq).symm

/-- **What a step keeps.** -/
theorem touchStep_inv {a : TouchAct} (h : TouchInv shift ts) (hok : AwaitsPen ts a)
    (hstep : touchStep ts a = some ts') : TouchInv shift ts' := by
  obtain ⟨before, part, hcut, hphase⟩ := h
  cases a with
  | tc data0 data1 data0' data1' =>
    rw [touchStep, Option.some.injEq, Ts.stylusUpdown] at hstep
    subst hstep
    split_ifs with hdown
    · -- The controller waits for the pen: no series has begun.
      cases hphase with
      | waiting hadctsc hstarted htimer hcount hpart =>
        exact hcut.fire hstarted htimer (Or.inl ⟨hpart, hcount⟩) _ _
      | converting hadctsc => exact Adctsc.noConfusion ((hok hdown).symm.trans hadctsc)
      | complete hadctsc => exact Adctsc.noConfusion ((hok hdown).symm.trans hadctsc)
    · exact ⟨before, part, hcut, hphase⟩
  | adc data0 data1 =>
    rw [touchStep] at hstep
    split_ifs at hstep with hon
    cases hstep
    cases hphase with
    | waiting _ hstarted => exact absurd (hstarted.symm.trans hon) Bool.false_ne_true
    | converting _ _ htimer hcount hlt hsums =>
      exact hcut.action htimer hcount (hcut.shift_eq ▸ hlt) hsums data0 data1
    | complete _ hstarted => exact absurd (hstarted.symm.trans hon) Bool.false_ne_true
  | timer data0 data1 =>
    rw [touchStep] at hstep
    split_ifs at hstep with hon
    cases hstep
    cases hphase with
    | waiting _ _ htimer => exact absurd (htimer.symm.trans hon) Bool.false_ne_true
    | converting _ _ htimer => exact absurd (htimer.symm.trans hon) Bool.false_ne_true
    | complete _ hstarted _ hcount hlen hsums =>
      have hfull : Cut shift { ts with timer := false } before part :=
        ⟨hcut.shift_eq, hcut.samples, hcut.whole, hcut.reported, hcut.onScreen, hcut.bounded⟩
      exact hfull.fire hstarted rfl (Or.inr ⟨hcut.shift_eq ▸ hlen, hcount, hsums⟩) data0 data1

theorem s3c2410tsProbe_inv (shift : ℕ) : TouchInv shift (s3c2410tsProbe shift) := by
  refine ⟨[], [], ⟨rfl, rfl, Nat.dvd_zero _, List.nil_sublist _, fun p hp => ?_,
    Nat.zero_le _, Nat.zero_le _⟩, .waiting rfl rfl rfl rfl rfl⟩
  exact absurd hp List.not_mem_nil

/-! ## Runs -/

/-- The series has no more samples than it ends with. -/
theorem Phase.count_le (h : Phase ts part) : ts.count ≤ 2 ^ ts.shift := by
  cases h with
  | waiting _ _ _ hcount => exact hcount ▸ Nat.zero_le _
  | converting _ _ _ hcount hlt => exact hcount ▸ hlt.le
  | complete _ _ _ hcount hlen => exact hcount ▸ hlen.le

/-- **The positions reported are means of whole blocks.** Cut all the samples there have been into
blocks of `1 << shift`: what is reported are means of these blocks, in their order, and all of them
lie on the screen. The driver always waits for exactly one of the pen, the converter and its
timer, and the sums stay below what that many samples can have, which a `long` holds. -/
theorem touch_reports {acts : List TouchAct} (hshift : shift ≤ 21)
    (hrun : run touchStep (s3c2410tsProbe shift) acts = some ts)
    (hok : Along touchStep AwaitsPen (s3c2410tsProbe shift) acts) :
    (positions ts.reports).Sublist ((blocks (2 ^ shift) ts.samples).map mean) ∧
      (∀ p ∈ positions ts.reports, OnScreen p) ∧
      (ts.xp ≤ 0x3FF * 2 ^ shift ∧ ts.yp ≤ 0x3FF * 2 ^ shift) ∧
      (ts.xp < 2 ^ 31 ∧ ts.yp < 2 ^ 31 ∧ ts.count < 2 ^ 31) ∧
      ([decide (ts.adctsc = .waitDown), ts.started, ts.timer].count true = 1) := by
  obtain ⟨before, part, hcut, hphase⟩ :=
    run_inv (fun _ _ _ h hok hstep => touchStep_inv h hok hstep) (s3c2410tsProbe_inv shift) hok hrun
  have hpow : 0 < 2 ^ shift := Nat.two_pow_pos shift
  have hmost : 2 ^ shift ≤ 2 ^ 21 := Nat.pow_le_pow_right (by decide) hshift
  refine ⟨?_, fun p hp => ?_, hcut.bounded, ?_, ?_⟩
  · rw [hcut.samples]
    cases hphase with
    | waiting _ _ _ _ hpart =>
      rw [hpart, List.append_nil]
      exact hcut.reported
    | converting _ _ _ _ hlt =>
      rw [blocks_append hpow hcut.whole (hcut.shift_eq ▸ hlt)]
      exact hcut.reported
    | complete _ _ _ _ hlen =>
      rw [blocks_concat hpow hcut.whole (hcut.shift_eq ▸ hlen)]
      exact hcut.reported.trans ((List.sublist_append_left _ _).map mean)
  · obtain ⟨block, hblock, rfl⟩ := List.mem_map.1 (hcut.reported.subset hp)
    refine mean_onScreen fun q hq => hcut.onScreen q ?_
    rw [hcut.samples]
    exact List.mem_append_left part ((mem_blocks hblock).2 q hq)
  · have hcount := hphase.count_le
    rw [hcut.shift_eq] at hcount
    have hbounded := hcut.bounded
    omega
  · cases hphase with
    | waiting hadctsc hstarted htimer => rw [hadctsc, hstarted, htimer]; rfl
    | converting hadctsc hstarted htimer => rw [hadctsc, hstarted, htimer]; rfl
    | complete hadctsc hstarted htimer => rw [hadctsc, hstarted, htimer]; rfl

/-- The pen comes down, two samples are taken at a time, and it goes up while the second two are
waiting to be reported. -/
def touchAndGo : List TouchAct :=
  [.tc 0 0 0 0, .adc 100 200, .adc 101 203, .timer 0 0, .adc 300 400, .tc 0x8000 0 0 0,
    .adc 301 402, .timer 0x8000 0x8000, .tc 0x8000 0x8000 0 0]

theorem touch_reports_touchAndGo : ∃ ts, run touchStep (s3c2410tsProbe 1) touchAndGo = some ts ∧
    positions ts.reports = [(100, 201)] ∧
    (positions ts.reports).Sublist ((blocks (2 ^ 1) ts.samples).map mean) := by
  have hok : Along touchStep AwaitsPen (s3c2410tsProbe 1) touchAndGo := by decide
  have hreported : (run touchStep (s3c2410tsProbe 1) touchAndGo).map
      (fun ts => positions ts.reports) = some [(100, 201)] := by decide
  obtain ⟨ts, hrun, hpositions⟩ := Option.map_eq_some_iff.1 hreported
  exact ⟨ts, hrun, hpositions, (touch_reports (by decide) hrun hok).1⟩

/-- An interrupt in the middle of a series, after which the pen is up: a position that is not on the
screen. -/
example : (run touchStep (s3c2410tsProbe 1) [.tc 0 0 0 0, .adc 1000 1000, .tc 0 0 0x8000 0x8000,
    .adc 1000 1000, .adc 1000 1000, .timer 0 0]).map (fun ts => positions ts.reports) =
      some [(1500, 1500)] := by decide

end TouchScreen
