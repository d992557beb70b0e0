import Mathlib.Data.BitVec
import MyDriver.Lib.Runs

/-!
# The buttons: `key/button.c`

Each of four interrupt lines has two buttons. The handler drives the two columns in turn and looks
at the line to find out which of the two is pressed; `buttonEvent_1` stores the number of the button
in a ring of 16 bytes, and `button_read` takes the bytes out.

The tests of the handler are written `dat & (1 << n) == 0`, and C compares first. So the number
stays at `NOKEY`, whichever button is pressed. And the ring has no test for being full: a reader
that lets 16 presses pass finds it empty.

* `ButtonInv` — the cursors of the ring count the presses and the bytes taken.
* `session_reads` — **every byte read is `NOKEY`**, the presses that wait are counted modulo 16, and
  a reader does not sleep while one waits.
-/

namespace Key

open Runs

abbrev U32 := BitVec 32

def maxButtonBuf : U32 := 16

def nokey : BitVec 8 := 0

def eAgain : ℤ := 11
def eRestartsys : ℤ := 512

/-- The lines `BUTTON_IRQ1` to `BUTTON_IRQ4`. -/
inductive ButtonIrq where
  | eint0
  | eint2
  | eint11
  | eint19
deriving DecidableEq

/-- The bit of the line in its register, and the numbers of the two buttons. -/
def ButtonIrq.pin : ButtonIrq → ℕ × U32 × U32
  | .eint0 => (0, 1, 2)
  | .eint2 => (2, 3, 4)
  | .eint11 => (3, 5, 6)
  | .eint19 => (11, 7, 8)

/-- Where a call of `button_read` stands. -/
inductive ReadStage where
  | idle
  /-- At `retry`. -/
  | retry (nonblock : Bool)
  /-- The ring was not empty. -/
  | taking
  /-- In `wait_event_interruptible`. -/
  | waiting
  /-- The wait is over. -/
  | woken
  /-- `flag` was set to 0. -/
  | cleared
deriving DecidableEq

/-- What a call of `button_read` has returned, and the byte it has copied. -/
structure Reading where
  ret : ℤ
  byte : Option (BitVec 8)
deriving DecidableEq

structure ButtonDev where
  buttonStatus : U32
  buf : U32 → BitVec 8
  head : U32
  tail : U32
  flag : Bool
  gpbdat : U32
  reader : ReadStage
  /-- A signal is pending. -/
  signal : Bool
  /-- How many buttons were pressed since the device was opened. -/
  pressed : ℕ
  log : List Reading

/-- `INCBUF(x, MAX_BUTTON_BUF)` -/
def incbuf (x : U32) : U32 := (x + 1) &&& (maxButtonBuf - 1)

/-- The test `dat & (1 << n) == 0`, with the comparison made first. -/
def testPin (dat : U32) (n : ℕ) : Bool :=
  dat &&& (if (1 : U32) <<< n = 0 then 1 else 0) != 0

namespace ButtonDev

variable (s : ButtonDev)

/-- `buttonEvent_1` -/
def buttonEvent1 : ButtonDev :=
  { s with
    buf := Function.update s.buf s.head
      (if 1 ≤ s.buttonStatus.toNat ∧ s.buttonStatus.toNat ≤ 8 then s.buttonStatus.setWidth 8
      else nokey)
    head := incbuf s.head
    flag := true
    pressed := s.pressed + 1 }

/-- Drive one of the columns low, and the other high. -/
def drive (low high : ℕ) : ButtonDev :=
  { s with gpbdat := s.gpbdat &&& ~~~((1 : U32) <<< low) ||| (1 : U32) <<< high }

/-- `isr_button`; `dat` and `dat'` are what the two reads of the line find. -/
def isrButton (irq : ButtonIrq) (dat dat' : U32) : ButtonDev :=
  let s := s.drive 6 7
  let s := if testPin dat irq.pin.1 then { s with buttonStatus := irq.pin.2.1 } else s
  let s := s.drive 7 6
  let s := if testPin dat' irq.pin.1 then { s with buttonStatus := irq.pin.2.2 } else s
  s.buttonEvent1

/-- The call returns. -/
def finish (r : Reading) : ButtonDev := { s with reader := .idle, log := s.log ++ [r] }

/-- `button_read`, from `retry` to the next access to what the handler changes. -/
def look (nonblock : Bool) : ButtonDev :=
  if s.head ≠ s.tail then { s with reader := .taking }
  else if nonblock = true then s.finish ⟨-eAgain, none⟩
  else { s with reader := .waiting }

/-- `buttonRead`, and `copy_to_user`. -/
def take : ButtonDev := { s with tail := incbuf s.tail }.finish ⟨1, some (s.buf s.tail)⟩

/-- What follows the wait. -/
def checkSignal : ButtonDev :=
  if s.signal = true then { s with signal := false }.finish ⟨-eRestartsys, none⟩
  else { s with reader := .retry false }

end ButtonDev

/-- The device, after `s3c2410_buttons_init` and a call of `button_open`. -/
def opened (buf : U32 → BitVec 8) (flag : Bool) (gpbdat : U32) : ButtonDev where
  buttonStatus := 0
  buf := buf
  head := 0
  tail := 0
  flag := flag
  gpbdat := gpbdat
  reader := .idle
  signal := false
  pressed := 0
  log := []

inductive ButtonAct where
  | irq (irq : ButtonIrq) (dat dat' : U32)
  /-- `button_read` is called. -/
  | read (nonblock : Bool)
  /-- The next step of the call. -/
  | go
  | signal
deriving DecidableEq

/-- A step of `button_read`. -/
def goStep (s : ButtonDev) : Option ButtonDev :=
  match s.reader with
  | .idle => none
  | .retry nonblock => some (s.look nonblock)
  | .taking => some s.take
  | .waiting => if s.flag = true ∨ s.signal = true then some { s with reader := .woken } else none
  | .woken => some { s with flag := false, reader := .cleared }
  | .cleared => some s.checkSignal

/-- One reader and the handler, which may come between any two steps. -/
def buttonStep (s : ButtonDev) : ButtonAct → Option ButtonDev
  | .irq irq dat dat' => some (s.isrButton irq dat dat')
  | .read nonblock => if s.reader = .idle then some { s with reader := .retry nonblock } else none
  | .go => goStep s
  | .signal => some { s with signal := true }

/-- The bytes taken out. -/
def taken (log : List Reading) : ℕ := log.countP fun r => r.byte.isSome

/-! ## One step -/

variable {s s' : ButtonDev}

/-- The test says no, whatever the register holds. -/
theorem testPin_pin (irq : ButtonIrq) (dat : U32) : testPin dat irq.pin.1 = false := by
  have hbit : (1 : U32) <<< irq.pin.1 ≠ 0 := by cases irq <;> decide
  rw [testPin, if_neg hbit]
  exact (congrArg (· != 0) BitVec.and_zero).trans (bne_self_eq_false' 0)

theorem toNat_incbuf {x : U32} {n : ℕ} (h : x.toNat = n % 16) :
    (incbuf x).toNat = (n + 1) % 16 := by
  have hmask : (maxButtonBuf - 1).toNat = 2 ^ 4 - 1 := by decide
  have hone : (1 : U32).toNat = 1 := rfl
  rw [incbuf, BitVec.toNat_and, hmask, Nat.and_two_pow_sub_one_eq_mod, BitVec.toNat_add, h, hone]
  omega

theorem buttonEvent1_buf (h : s.buttonStatus = 0) :
    s.buttonEvent1.buf = Function.update s.buf s.head nokey := by
  unfold ButtonDev.buttonEvent1
  rw [h]
  rfl

/-- **The invariant.** -/
structure ButtonInv (s : ButtonDev) : Prop where
  status : s.buttonStatus = 0
  head : s.head.toNat = s.pressed % 16
  tail : s.tail.toNat = taken s.log % 16
  le : taken s.log ≤ s.pressed
  taking : s.reader = .taking → taken s.log < s.pressed
  stored : ∀ a : U32, a.toNat < 16 → a.toNat < s.pressed → s.buf a = nokey
  bytes : ∀ r ∈ s.log, r.byte = none ∨ r.byte = some nokey
  asleep : s.reader = .waiting → s.flag = false → s.head = s.tail

/-- A button is pressed. -/
theorem ButtonInv.irq (h : ButtonInv s) (irq : ButtonIrq) (dat dat' : U32) :
    ButtonInv (s.isrButton irq dat dat') := by
  have hevent : s.isrButton irq dat dat' = ((s.drive 6 7).drive 7 6).buttonEvent1 := by
    unfold ButtonDev.isrButton
    simp only [testPin_pin, Bool.false_eq_true, if_false]
  rw [hevent]
  refine ⟨h.status, toNat_incbuf h.head, h.tail, h.le.trans (Nat.le_succ _),
    fun htaking => (h.taking htaking).trans (Nat.lt_succ_self _), fun a ha hlt => ?_, h.bytes,
    fun _ hoff => Bool.noConfusion hoff⟩
  have hstatus : ((s.drive 6 7).drive 7 6).buttonStatus = 0 := h.status
  rw [buttonEvent1_buf hstatus]
  show Function.update s.buf s.head nokey a = nokey
  by_cases hhead : a = s.head
  · rw [hhead, Function.update_self]
  · rw [Function.update_of_ne hhead]
    refine h.stored a ha (lt_of_le_of_ne (Nat.le_of_lt_succ hlt) fun heq => hhead ?_)
    exact BitVec.eq_of_toNat_eq (by rw [h.head, heq, Nat.mod_eq_of_lt (heq ▸ ha)])

/-- A call returns without a byte. -/
theorem ButtonInv.finish (h : ButtonInv s) (ret : ℤ) : ButtonInv (s.finish ⟨ret, none⟩) := by
  have htaken : taken (s.log ++ [⟨ret, none⟩]) = taken s.log := List.countP_append
  refine ⟨h.status, h.head, ?_, htaken.trans_le h.le, fun htaking => ReadStage.noConfusion htaking,
    h.stored, fun r hr => ?_, fun hwait => ReadStage.noConfusion hwait⟩
  · exact h.tail.trans (congrArg (· % 16) htaken.symm)
  · rcases List.mem_append.1 hr with hr | hr
    · exact h.bytes r hr
    · exact Or.inl (List.mem_singleton.1 hr ▸ rfl)

/-- The stage changes, and nothing is taken. -/
theorem ButtonInv.stage (h : ButtonInv s) {stage : ReadStage} {flag signal : Bool}
    (htaking : stage = .taking → taken s.log < s.pressed)
    (hasleep : stage = .waiting → s.head = s.tail) :
    ButtonInv { s with reader := stage, flag := flag, signal := signal } :=
  ⟨h.status, h.head, h.tail, h.le, htaking, h.stored, h.bytes, fun hwait _ => hasleep hwait⟩

/-- A byte is taken out. -/
theorem ButtonInv.take (h : ButtonInv s) (htaking : s.reader = .taking) : ButtonInv s.take := by
  have hlt := h.taking htaking
  have htaken : taken (s.log ++ [⟨1, some (s.buf s.tail)⟩]) = taken s.log + 1 := List.countP_append
  have hbyte : s.buf s.tail = nokey := by
    refine h.stored s.tail ?_ ?_
    · rw [h.tail]
      exact Nat.mod_lt _ (by decide)
    · rw [h.tail]
      exact (Nat.mod_le _ 16).trans_lt hlt
  refine ⟨h.status, h.head, ?_, htaken.trans_le hlt, fun hstage => ReadStage.noConfusion hstage,
    h.stored, fun r hr => ?_, fun hwait => ReadStage.noConfusion hwait⟩
  · exact (toNat_incbuf h.tail).trans (congrArg (· % 16) htaken.symm)
  · rcases List.mem_append.1 hr with hr | hr
    · exact h.bytes r hr
    · rw [List.mem_singleton.1 hr, ← hbyte]
      exact Or.inr rfl

theorem ButtonInv.go (h : ButtonInv s) (hstep : goStep s = some s') : ButtonInv s' := by
  unfold goStep at hstep
  cases hstage : s.reader with
  | idle =>
    rw [hstage] at hstep
    cases hstep
  | retry nonblock =>
    rw [hstage] at hstep
    cases hstep
    unfold ButtonDev.look
    split_ifs with hsome hblock
    · -- The cursors differ, so not everything was taken.
      refine h.stage (fun _ => lt_of_le_of_ne h.le fun heq => hsome ?_)
        fun hwait => ReadStage.noConfusion hwait
      exact BitVec.eq_of_toNat_eq (by rw [h.head, h.tail, heq])
    · exact h.finish _
    · exact h.stage (fun htaking => ReadStage.noConfusion htaking) fun _ => not_not.1 hsome
  | taking =>
    rw [hstage] at hstep
    cases hstep
    exact h.take hstage
  | waiting =>
    rw [hstage] at hstep
    dsimp only at hstep
    split_ifs at hstep
    cases hstep
    exact h.stage (fun htaking => ReadStage.noConfusion htaking)
      fun hwait => ReadStage.noConfusion hwait
  | woken =>
    rw [hstage] at hstep
    cases hstep
    exact h.stage (fun htaking => ReadStage.noConfusion htaking)
      fun hwait => ReadStage.noConfusion hwait
  | cleared =>
    rw [hstage] at hstep
    cases hstep
    unfold ButtonDev.checkSignal
    split_ifs
    · exact ButtonInv.finish
        (h.stage h.taking fun hwait => ReadStage.noConfusion (hstage.symm.trans hwait)) _
    · exact h.stage (fun htaking => ReadStage.noConfusion htaking)
        fun hwait => ReadStage.noConfusion hwait

theorem buttonStep_inv {a : ButtonAct} (h : ButtonInv s) (hstep : buttonStep s a = some s') :
    ButtonInv s' := by
  cases a with
  | irq irq dat dat' =>
    rw [buttonStep, Option.some.injEq] at hstep
    exact hstep ▸ h.irq irq dat dat'
  | read nonblock =>
    rw [buttonStep] at hstep
    split_ifs at hstep with hidle
    cases hstep
    exact ⟨h.status, h.head, h.tail, h.le, fun htaking => ReadStage.noConfusion htaking, h.stored,
      h.bytes, fun hwait => ReadStage.noConfusion hwait⟩
  | go => exact h.go hstep
  | signal =>
    rw [buttonStep, Option.some.injEq] at hstep
    subst hstep
    exact ⟨h.status, h.head, h.tail, h.le, h.taking, h.stored, h.bytes, h.asleep⟩

theorem opened_inv (buf : U32 → BitVec 8) (flag : Bool) (gpbdat : U32) :
    ButtonInv (opened buf flag gpbdat) :=
  ⟨rfl, rfl, rfl, le_rfl, fun htaking => ReadStage.noConfusion htaking,
    fun _ _ hlt => absurd hlt (Nat.not_lt_zero _), fun _ hr => absurd hr List.not_mem_nil,
    fun hwait => ReadStage.noConfusion hwait⟩

/-- **What can be read.** Whichever buttons are pressed, and whenever, every byte read is `NOKEY`;
the distance of the cursors is the number of presses that were not read, modulo 16; and a reader
that sleeps has left none behind in the ring. -/
theorem session_reads {buf : U32 → BitVec 8} {flag : Bool} {gpbdat : U32} {acts : List ButtonAct}
    (hrun : run buttonStep (opened buf flag gpbdat) acts = some s) :
    (∀ r ∈ s.log, r.byte = none ∨ r.byte = some nokey) ∧
      (taken s.log ≤ s.pressed ∧
        (s.head - s.tail).toNat % 16 = (s.pressed - taken s.log) % 16) ∧
      (s.reader = .waiting → s.flag = false → (s.pressed - taken s.log) % 16 = 0) := by
  have hinv := run_inv' (fun _ _ _ h hstep => buttonStep_inv h hstep) (opened_inv buf flag gpbdat)
    hrun
  have hhead := hinv.head
  have htail := hinv.tail
  have hle := hinv.le
  refine ⟨hinv.bytes, ⟨hle, ?_⟩, fun hwait hoff => ?_⟩
  · rw [BitVec.toNat_sub]
    omega
  · rw [hinv.asleep hwait hoff] at hhead
    omega

/-- A reader that waits is woken and reads, and sixteen presses are lost after that. -/
def lapRun : List ButtonAct :=
  [.read false, .go, .irq .eint2 0 0, .go, .go, .go, .go, .go] ++
    (List.replicate 16 (.irq .eint19 0 0) ++ [.read false, .go])

theorem session_reads_lap : ∃ s, run buttonStep (opened (fun _ => 3) false 0) lapRun = some s ∧
    s.reader = .waiting ∧ s.pressed = 17 ∧ s.log = [⟨1, some 0⟩] ∧
      (∀ r ∈ s.log, r.byte = none ∨ r.byte = some nokey) := by
  obtain ⟨s, hrun, hend⟩ : ∃ s, run buttonStep (opened (fun _ => 3) false 0) lapRun = some s ∧
      s.reader = .waiting ∧ s.pressed = 17 ∧ s.log = [⟨1, some 0⟩] :=
    ⟨_, rfl, rfl, rfl, rfl⟩
  exact ⟨s, hrun, hend.1, hend.2.1, hend.2.2, (session_reads hrun).1⟩

end Key
