import Mathlib.Data.BitVec
import Mathlib.Data.Fin.VecNotation
import Mathlib.Data.Fintype.Prod
import MyDriver.Keybutton.Open

/-!
# The key-pad: reading a key

The interrupt handler notes the row and starts a timer; `delay_timer_fn` reads the columns, stores
the code of the key in `key_value` and wakes the reader. `keybutton_read` holds the semaphore while
it waits, and does not look at what `wait_event_interruptible` returns.

* `ReadSys`, `readStep` — the handler, the timer and any number of readers. A step is an access to
  what they share.
* `ReadInv` — what the reader that holds the semaphore knows about `key_value`.
* `delivers_iff_clean` — **every read delivers a key press or fails** exactly when no copy of a read
  whose wait a signal has ended succeeds.
-/

namespace Keybutton

open Runs

def eFault : ℤ := 14
def eRestartsys : ℤ := 512

/-- A key, by its row and column. -/
abbrev Key := Fin 4 × Fin 4

/-- The codes that `delay_timer_fn` stores. -/
def keyCode (key : Key) : BitVec 16 :=
  (![![10, 11, 12, 16], ![7, 8, 9, 15], ![4, 5, 6, 14], ![1, 2, 3, 13]] key.1) key.2

/-- The bit that is tested in the register of a column. -/
def columnMask : Fin 4 → BitVec 32 := ![0x800, 0x40, 0x2000, 0x4]

/-! ## The system -/

variable {κ : Type}

/-- Where `delay_timer_fn` stands. -/
inductive TimerStage where
  | idle
  /-- `cur_irq` was not zero. -/
  | entered
  /-- It is about to read the register of the column. -/
  | scan (row column : Fin 4)
  /-- It is about to call `wake_up_interruptible`. -/
  | wake
deriving DecidableEq

/-- Where a call of `keybutton_read` stands. -/
inductive ReadStage where
  | idle
  | down (count : ℕ)
  | locked (count : ℕ)
  /-- In `wait_event_interruptible`, about to look at `key_value`. -/
  | check
  | asleep
  /-- The wait is over; `interrupted` if a signal has ended it. -/
  | ready (interrupted : Bool)
deriving DecidableEq

/-- A call of `keybutton_read` that has returned: the byte that it has copied, and the keys whose
codes were stored since it began to wait. -/
structure Reading where
  ret : ℤ
  byte : Option (BitVec 8)
  interrupted : Bool
  since : List Key
deriving DecidableEq

structure ReadSys (κ : Type) where
  keyValue : BitVec 16
  curIrq : ℤ
  /-- `delay_timer` is pending. -/
  armed : Bool
  timer : TimerStage
  /-- The reader that holds the semaphore. -/
  sem : Option κ
  reader : κ → ReadStage
  /-- A signal is pending. -/
  signals : κ → Bool
  /-- The keys whose codes were stored since `key_value` was last set to zero. -/
  since : List Key
  log : List Reading

namespace ReadSys

variable [DecidableEq κ]

def setReader (s : ReadSys κ) (f : κ) (stage : ReadStage) : ReadSys κ :=
  { s with reader := Function.update s.reader f stage }

/-- The call of `f` returns; a signal is delivered then at the latest. -/
def finish (s : ReadSys κ) (f : κ) (r : Reading) : ReadSys κ :=
  { s.setReader f .idle with
    signals := Function.update s.signals f false
    log := s.log ++ [r] }

/-- `up`, and return. -/
def leave (s : ReadSys κ) (f : κ) (r : Reading) : ReadSys κ := { s.finish f r with sem := none }

/-- `down_interruptible`, when it returns. -/
def acquire (s : ReadSys κ) (f : κ) (count : ℕ) (interrupted : Bool) : Option (ReadSys κ) :=
  if interrupted = true then
    if s.signals f = true then some (s.finish f ⟨-eRestartsys, none, true, []⟩) else none
  else if s.sem = none then some { s.setReader f (.locked count) with sem := some f }
  else none

def enter (s : ReadSys κ) (f : κ) (count : ℕ) : ReadSys κ :=
  if count ≠ 1 then s.leave f ⟨0, none, false, []⟩
  else { s.setReader f .check with keyValue := 0, since := [] }

/-- A pass of the loop of `wait_event_interruptible`. -/
def look (s : ReadSys κ) (f : κ) : ReadSys κ :=
  if s.keyValue ≠ 0 then s.setReader f (.ready false)
  else if s.signals f = true then s.setReader f (.ready true)
  else s.setReader f .asleep

/-- The rest of `keybutton_read`; `fails` is whether `copy_to_user` does. -/
def copy (s : ReadSys κ) (f : κ) (interrupted fails : Bool) : ReadSys κ :=
  if fails = true then s.leave f ⟨-eFault, none, interrupted, s.since⟩
  else s.leave f ⟨1, some (s.keyValue.setWidth 8), interrupted, s.since⟩

def woken : ReadStage → ReadStage
  | .asleep => .check
  | stage => stage

def signal (s : ReadSys κ) (f : κ) : ReadSys κ :=
  { s.setReader f (woken (s.reader f)) with signals := Function.update s.signals f true }

omit [DecidableEq κ]

/-- `button_irq_handler`. -/
def irq (s : ReadSys κ) (irq : ℤ) : ReadSys κ := { s with curIrq := irq, armed := true }

/-- The timer expires. -/
def fire (s : ReadSys κ) : ReadSys κ :=
  { s with armed := false, timer := if s.curIrq ≠ 0 then .entered else .idle }

/-- The `switch` of `delay_timer_fn`. -/
def switch (buttonIrq : Fin 4 → ℤ) (s : ReadSys κ) : ReadSys κ :=
  { s with timer :=
      if s.curIrq = buttonIrq 0 then .scan 0 0
      else if s.curIrq = buttonIrq 1 then .scan 1 0
      else if s.curIrq = buttonIrq 2 then .scan 2 0
      else if s.curIrq = buttonIrq 3 then .scan 3 0
      else .wake }

/-- The register of the column has the value `regValue`. -/
def scan (s : ReadSys κ) (row column : Fin 4) (regValue : BitVec 32) : ReadSys κ :=
  if regValue &&& columnMask column ≠ 0 then
    { s with
      keyValue := keyCode (row, column)
      since := s.since ++ [(row, column)]
      timer := .wake }
  else if h : column.val + 1 < 4 then { s with timer := .scan row ⟨column.val + 1, h⟩ }
  else { s with timer := .wake }

def wakeUp (s : ReadSys κ) : ReadSys κ :=
  { s with timer := .idle, reader := fun f => woken (s.reader f) }

/-- The module has just been loaded. -/
def start : ReadSys κ where
  keyValue := 0
  curIrq := 0
  armed := false
  timer := .idle
  sem := none
  reader _ := .idle
  signals _ := false
  since := []
  log := []

end ReadSys

inductive ReadAct (κ : Type) where
  | irq (irq : ℤ)
  | fire
  | switch
  | scan (regValue : BitVec 32)
  | wakeUp
  /-- `f` calls `keybutton_read`. -/
  | call (f : κ) (count : ℕ)
  | acquire (f : κ) (interrupted : Bool)
  | enter (f : κ)
  | look (f : κ)
  | copy (f : κ) (fails : Bool)
  | signal (f : κ)

/-- The numbers of the four interrupts are constants of the platform. -/
def readStep [DecidableEq κ] (buttonIrq : Fin 4 → ℤ) (s : ReadSys κ) :
    ReadAct κ → Option (ReadSys κ)
  | .irq irq => some (s.irq irq)
  | .fire => if s.armed = true ∧ s.timer = .idle then some s.fire else none
  | .switch =>
    match s.timer with
    | .entered => some (s.switch buttonIrq)
    | _ => none
  | .scan regValue =>
    match s.timer with
    | .scan row column => some (s.scan row column regValue)
    | _ => none
  | .wakeUp =>
    match s.timer with
    | .wake => some s.wakeUp
    | _ => none
  | .call f count =>
    match s.reader f with
    | .idle => some (s.setReader f (.down count))
    | _ => none
  | .acquire f interrupted =>
    match s.reader f with
    | .down count => s.acquire f count interrupted
    | _ => none
  | .enter f =>
    match s.reader f with
    | .locked count => some (s.enter f count)
    | _ => none
  | .look f =>
    match s.reader f with
    | .check => some (s.look f)
    | _ => none
  | .copy f fails =>
    match s.reader f with
    | .ready interrupted => some (s.copy f interrupted fails)
    | _ => none
  | .signal f => if s.reader f ≠ .idle then some (s.signal f) else none

/-! ## What is promised -/

/-- A read that returns 1 has copied the code of a key that was stored since it began to wait, and
a read that a signal has interrupted returns an error. -/
structure Delivers (r : Reading) : Prop where
  press : r.ret = 1 → ∃ key ∈ r.since, r.byte = some ((keyCode key).setWidth 8) ∧
    (keyCode key).setWidth 8 ≠ (0 : BitVec 8)
  interrupted : r.interrupted = true → r.ret < 0

def AllDeliver (s : ReadSys κ) : Prop := ∀ r ∈ s.log, Delivers r

/-- The copy of a read whose wait a signal has ended fails. -/
def CleanCopy (s : ReadSys κ) : ReadAct κ → Prop
  | .copy f fails => s.reader f = .ready true → fails = true
  | _ => True

/-! ## The reader that holds the semaphore -/

namespace ReadStage

/-- The reader holds the semaphore. -/
def Inside : ReadStage → Prop
  | .idle | .down _ => False
  | _ => True

/-- It has set `key_value` to zero. -/
def Waiting : ReadStage → Prop
  | .check | .asleep | .ready _ => True
  | _ => False

end ReadStage

open ReadSys ReadStage

theorem keyCode_low_ne_zero : ∀ key, (keyCode key).setWidth 8 ≠ (0 : BitVec 8) := by decide

theorem keyCode_ne_zero (key : Key) : keyCode key ≠ 0 := fun h =>
  keyCode_low_ne_zero key (by rw [h]; rfl)

structure ReadInv (s : ReadSys κ) : Prop where
  holder : ∀ f, (s.reader f).Inside → s.sem = some f
  value : ∀ f, (s.reader f).Waiting → s.keyValue = 0 ∨ ∃ key ∈ s.since, s.keyValue = keyCode key
  seen : ∀ f, s.reader f = .ready false → s.keyValue ≠ 0

section Steps

variable [DecidableEq κ] {s s' : ReadSys κ} {f : κ}

/-- One reader moves. -/
theorem ReadInv.setReader (h : ReadInv s) {stage : ReadStage}
    (hholder : stage.Inside → s.sem = some f)
    (hvalue : stage.Waiting → s.keyValue = 0 ∨ ∃ key ∈ s.since, s.keyValue = keyCode key)
    (hseen : stage = .ready false → s.keyValue ≠ 0) : ReadInv (s.setReader f stage) := by
  have hcases : ∀ g, (s.setReader f stage).reader g = if g = f then stage else s.reader g :=
    fun g => Function.update_apply ..
  refine ⟨fun g hg => ?_, fun g hg => ?_, fun g hg => ?_⟩ <;> rw [hcases] at hg <;>
    split_ifs at hg with heq
  · rw [heq]
    exact hholder hg
  · exact h.holder g hg
  · exact hvalue hg
  · exact h.value g hg
  · exact hseen hg
  · exact h.seen g hg

/-- The call that holds the semaphore, or none, returns. -/
theorem ReadInv.finish (h : ReadInv s) (r : Reading) : ReadInv (s.finish f r) :=
  let hidle : ReadInv (s.setReader f .idle) := h.setReader (f := f) nofun nofun nofun
  ⟨hidle.holder, hidle.value, hidle.seen⟩

theorem ReadInv.leave (h : ReadInv s) (hf : (s.reader f).Inside) (r : Reading) :
    ReadInv (s.leave f r) := by
  have hfinish := h.finish (f := f) r
  refine ⟨fun g hg => ?_, hfinish.value, hfinish.seen⟩
  -- No other reader is inside.
  have hsem : s.sem = some g := hfinish.holder g hg
  have heq : f = g := Option.some.inj ((h.holder f hf).symm.trans hsem)
  subst heq
  exact absurd hg (by simp [ReadSys.leave, ReadSys.finish, ReadSys.setReader, Inside])

theorem woken_inside (stage : ReadStage) : (woken stage).Inside ↔ stage.Inside := by
  cases stage <;> rfl

theorem woken_waiting (stage : ReadStage) : (woken stage).Waiting ↔ stage.Waiting := by
  cases stage <;> rfl

theorem woken_ready {stage : ReadStage} {b : Bool} (h : woken stage = .ready b) :
    stage = .ready b := by
  cases stage <;> simp_all [woken]

omit [DecidableEq κ] in
theorem ReadInv.wakeUp (h : ReadInv s) : ReadInv s.wakeUp where
  holder g hg := h.holder g ((woken_inside _).1 hg)
  value g hg := h.value g ((woken_waiting _).1 hg)
  seen g hg := h.seen g (woken_ready hg)

theorem ReadInv.signal (h : ReadInv s) (f : κ) : ReadInv (s.signal f) :=
  let hwoken : ReadInv (s.setReader f (woken (s.reader f))) :=
    h.setReader (fun hin => h.holder f ((woken_inside _).1 hin))
      (fun hw => h.value f ((woken_waiting _).1 hw)) fun hr => h.seen f (woken_ready hr)
  ⟨hwoken.holder, hwoken.value, hwoken.seen⟩

omit [DecidableEq κ] in
/-- A key is stored. -/
theorem ReadInv.scan (h : ReadInv s) (row column : Fin 4) (regValue : BitVec 32) :
    ReadInv (s.scan row column regValue) := by
  unfold ReadSys.scan
  split_ifs
  · exact ⟨h.holder, fun g _ => Or.inr ⟨(row, column), by simp, rfl⟩,
      fun g _ => keyCode_ne_zero (row, column)⟩
  · exact ⟨h.holder, h.value, h.seen⟩
  · exact ⟨h.holder, h.value, h.seen⟩

theorem ReadInv.enter (h : ReadInv s) {count : ℕ} (hf : s.reader f = .locked count) :
    ReadInv (s.enter f count) := by
  have hin : (s.reader f).Inside := hf ▸ trivial
  unfold ReadSys.enter
  split_ifs
  · exact h.leave hin _
  · have honly : ∀ g, (s.reader g).Inside → g = f := fun g hg =>
      Option.some.inj ((h.holder g hg).symm.trans (h.holder f hin))
    have hmoved : ∀ g, (s.setReader f .check).reader g = if g = f then .check else s.reader g :=
      fun g => Function.update_apply ..
    refine ⟨fun g hg => ?_, fun g _ => Or.inl rfl, fun g hg => ?_⟩
    · change ((s.setReader f .check).reader g).Inside at hg
      rw [hmoved] at hg
      split_ifs at hg with heq
      · rw [heq]
        exact h.holder f hin
      · exact h.holder g hg
    · change (s.setReader f .check).reader g = .ready false at hg
      rw [hmoved] at hg
      split_ifs at hg with heq
      exact absurd (honly g (hg ▸ trivial)) heq

theorem ReadInv.look (h : ReadInv s) (hf : s.reader f = .check) : ReadInv (s.look f) := by
  have hholder := h.holder f (hf ▸ trivial)
  have hvalue := h.value f (hf ▸ trivial)
  unfold ReadSys.look
  split_ifs with hkey
  · exact h.setReader (fun _ => hholder) (fun _ => hvalue) fun _ => hkey
  · exact h.setReader (fun _ => hholder) (fun _ => hvalue) nofun
  · exact h.setReader (fun _ => hholder) (fun _ => hvalue) nofun

theorem ReadInv.acquire (h : ReadInv s) {count : ℕ} {interrupted : Bool}
    (hs' : s.acquire f count interrupted = some s') : ReadInv s' := by
  unfold ReadSys.acquire at hs'
  split_ifs at hs' with hint hsig hfree
  · exact Option.some.inj hs' ▸ h.finish _
  · have hnone : ∀ g, ¬ (s.reader g).Inside := fun g hg => by
      rw [h.holder g hg] at hfree
      exact Option.some_ne_none _ hfree
    have hmoved : ReadInv ({ s with sem := some f }.setReader f (.locked count)) :=
      ReadInv.setReader (s := { s with sem := some f })
        ⟨fun g hg => absurd hg (hnone g), h.value, h.seen⟩ (fun _ => rfl) nofun nofun
    exact Option.some.inj hs' ▸ hmoved

/-- What a step is: its guard, and the state it leads to. -/
inductive Moves (buttonIrq : Fin 4 → ℤ) (s : ReadSys κ) : ReadAct κ → ReadSys κ → Prop where
  | irq (irq : ℤ) : Moves buttonIrq s (.irq irq) (s.irq irq)
  | fire (htimer : s.armed = true ∧ s.timer = .idle) : Moves buttonIrq s .fire s.fire
  | switch (htimer : s.timer = .entered) : Moves buttonIrq s .switch (s.switch buttonIrq)
  | scan (row column : Fin 4) (regValue : BitVec 32) (htimer : s.timer = .scan row column) :
      Moves buttonIrq s (.scan regValue) (s.scan row column regValue)
  | wakeUp (htimer : s.timer = .wake) : Moves buttonIrq s .wakeUp s.wakeUp
  | call (f : κ) (count : ℕ) (hf : s.reader f = .idle) :
      Moves buttonIrq s (.call f count) (s.setReader f (.down count))
  | acquire (f : κ) (count : ℕ) (interrupted : Bool) (s' : ReadSys κ)
      (hf : s.reader f = .down count) (hs' : s.acquire f count interrupted = some s') :
      Moves buttonIrq s (.acquire f interrupted) s'
  | enter (f : κ) (count : ℕ) (hf : s.reader f = .locked count) :
      Moves buttonIrq s (.enter f) (s.enter f count)
  | look (f : κ) (hf : s.reader f = .check) : Moves buttonIrq s (.look f) (s.look f)
  | copy (f : κ) (interrupted fails : Bool) (hf : s.reader f = .ready interrupted) :
      Moves buttonIrq s (.copy f fails) (s.copy f interrupted fails)
  | signal (f : κ) (hf : s.reader f ≠ .idle) : Moves buttonIrq s (.signal f) (s.signal f)

theorem readStep_moves {buttonIrq : Fin 4 → ℤ} {a : ReadAct κ}
    (hs' : readStep buttonIrq s a = some s') : Moves buttonIrq s a s' := by
  cases a with
  | irq irq => exact Option.some.inj hs' ▸ .irq irq
  | acquire f interrupted =>
    rw [readStep] at hs'
    split at hs'
    next count hf => exact .acquire f count interrupted s' hf hs'
    · cases hs'
  | _ =>
    rw [readStep] at hs'
    split at hs'
    · rw [← Option.some.inj hs']
      constructor
      assumption
    · cases hs'

/-- **Every step** keeps the invariant. -/
theorem ReadInv.step {buttonIrq : Fin 4 → ℤ} (h : ReadInv s) {a : ReadAct κ}
    (hs' : readStep buttonIrq s a = some s') : ReadInv s' := by
  cases readStep_moves hs' with
  | irq | fire | switch => exact ⟨h.holder, h.value, h.seen⟩
  | scan row column regValue _ => exact h.scan row column regValue
  | wakeUp _ => exact h.wakeUp
  | call f count _ => exact h.setReader nofun nofun nofun
  | acquire f count interrupted _ _ hs' => exact h.acquire hs'
  | enter f count hf => exact h.enter hf
  | look f hf => exact h.look hf
  | copy f interrupted fails hf =>
    unfold ReadSys.copy
    split_ifs <;> exact h.leave (hf ▸ trivial) _
  | signal f _ => exact h.signal f

omit [DecidableEq κ] in
theorem readInv_start : ReadInv (ReadSys.start : ReadSys κ) := ⟨nofun, nofun, nofun⟩

/-! ## What is delivered -/

theorem allDeliver_leave {r : Reading} (h : AllDeliver s) :
    AllDeliver (s.leave f r) ↔ Delivers r := by
  change (∀ r' ∈ s.log ++ [r], Delivers r') ↔ Delivers r
  simp only [List.mem_append, List.mem_singleton, or_imp, forall_and, forall_eq]
  exact and_iff_right h

theorem delivers_of_neg {ret : ℤ} {byte : Option (BitVec 8)} {interrupted : Bool} {since : List Key}
    (h : ret < 0) : Delivers ⟨ret, byte, interrupted, since⟩ :=
  ⟨fun hone => absurd h (by rw [show ret = 1 from hone]; decide), fun _ => h⟩

theorem allDeliver_acquire (h : AllDeliver s) {count : ℕ} {interrupted : Bool}
    (hs' : s.acquire f count interrupted = some s') : AllDeliver s' := by
  unfold ReadSys.acquire at hs'
  split_ifs at hs'
  · exact Option.some.inj hs' ▸ (allDeliver_leave (f := f) h).2 (delivers_of_neg (by decide))
  · exact Option.some.inj hs' ▸ h

theorem allDeliver_enter (h : AllDeliver s) (count : ℕ) : AllDeliver (s.enter f count) := by
  unfold ReadSys.enter
  split_ifs
  · exact (allDeliver_leave h).2 ⟨nofun, nofun⟩
  · exact h

/-- The end of a read. -/
theorem allDeliver_copy (h : ReadInv s) (hlog : AllDeliver s) {interrupted fails : Bool}
    (hf : s.reader f = .ready interrupted) :
    AllDeliver (s.copy f interrupted fails) ↔ (interrupted = true → fails = true) := by
  unfold ReadSys.copy
  split_ifs with hfails
  · exact iff_of_true ((allDeliver_leave hlog).2 (delivers_of_neg (by decide))) fun _ => hfails
  · rw [allDeliver_leave hlog]
    constructor
    · intro hgood hint
      exact absurd (hgood.interrupted hint) (show ¬ (1 : ℤ) < 0 by decide)
    · intro hclean
      have hint : interrupted = false := by simpa [hfails] using hclean
      subst hint
      -- The reader has seen the code of a key, and nobody else sets it to zero.
      obtain ⟨key, hkey, hvalue⟩ := (h.value f (hf ▸ trivial)).resolve_left (h.seen f hf)
      refine ⟨fun _ => ⟨key, hkey, ?_, keyCode_low_ne_zero key⟩, nofun⟩
      rw [hvalue]

theorem allDeliver_look (h : AllDeliver s) (f : κ) : AllDeliver (s.look f) := by
  unfold ReadSys.look
  split_ifs <;> exact h

omit [DecidableEq κ] in
theorem allDeliver_scan (h : AllDeliver s) (row column : Fin 4) (regValue : BitVec 32) :
    AllDeliver (s.scan row column regValue) := by
  unfold ReadSys.scan
  split_ifs <;> exact h

/-- **A step** keeps every read in order exactly when it is not the copy after a signal. -/
theorem allDeliver_step {buttonIrq : Fin 4 → ℤ} (h : ReadInv s) (hlog : AllDeliver s)
    {a : ReadAct κ} (hs' : readStep buttonIrq s a = some s') :
    AllDeliver s' ↔ CleanCopy s a := by
  cases readStep_moves hs' with
  | copy f interrupted fails hf =>
    rw [allDeliver_copy h hlog hf, CleanCopy, hf, ReadStage.ready.injEq]
  | irq | fire | switch | wakeUp | call | signal => exact iff_of_true hlog trivial
  | scan row column regValue _ =>
    exact iff_of_true (allDeliver_scan hlog row column regValue) trivial
  | acquire f count interrupted _ _ hs' => exact iff_of_true (allDeliver_acquire hlog hs') trivial
  | enter f count hf => exact iff_of_true (allDeliver_enter hlog count) trivial
  | look f hf => exact iff_of_true (allDeliver_look hlog f) trivial

end Steps

/-- **A real key press**: every read of a run delivers one or fails exactly when no copy after a
signal succeeds. -/
theorem delivers_iff_clean [DecidableEq κ] (buttonIrq : Fin 4 → ℤ) (as : List (ReadAct κ))
    {t : ReadSys κ} (hrun : run (readStep buttonIrq) ReadSys.start as = some t) :
    Throughout (readStep buttonIrq) AllDeliver ReadSys.start as ↔
      Along (readStep buttonIrq) CleanCopy ReadSys.start as := by
  rw [← throughout_iff_along (I := fun s => ReadInv s ∧ AllDeliver s)
    (fun s a s' h hs' => (and_iff_right (h.1.step hs')).trans (allDeliver_step h.1 h.2 hs'))
    ⟨readInv_start, nofun⟩ hrun]
  refine forall₅_congr fun bs cs u _ hu => (and_iff_right ?_).symm
  exact run_inv' (fun s a s' h hs' => h.step hs') readInv_start hu

/-- A key of the first row is pressed while a reader waits. -/
theorem delivers_iff_clean_press :
    Throughout (readStep ![16, 18, 55, 63]) AllDeliver ReadSys.start
      [.call () 1, .acquire () false, .enter (), .look (), .irq 16, .fire, .switch, .scan 0x800,
        .wakeUp, .look (), .copy () false] ↔
    Along (readStep ![16, 18, 55, 63]) CleanCopy ReadSys.start
      [.call () 1, .acquire () false, .enter (), .look (), .irq 16, .fire, .switch, .scan 0x800,
        .wakeUp, .look (), .copy () false] :=
  delivers_iff_clean ![16, 18, 55, 63] _ rfl

/-- **No key at all**: a signal ends the wait, and the read returns 1 with a byte 0. -/
theorem signal_reads_zero :
    ¬ Throughout (readStep ![16, 18, 55, 63]) AllDeliver ReadSys.start
      [.call () 1, .acquire () false, .enter (), .look (), .signal (), .look (),
        .copy () false] := by
  intro h
  have hlog := h _ [] _ (List.append_nil _).symm rfl ⟨1, some 0, true, []⟩ (by decide)
  exact absurd (hlog.interrupted rfl) (by decide)

end Keybutton
