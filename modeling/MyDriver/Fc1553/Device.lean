import Mathlib.Data.BitVec
import MyDriver.Lib.Runs

/-!
# The character device of the card: `fc1553.c`

A program reads and writes the registers of the card in words, at the position that it has set with
`fc1553_llseek`. Pointers have `w` bits; a position has 64 and is cut to a pointer where it is added
to the start of BAR 0. What the semaphore and the copies from and to the caller do is part of an
operation: whether the wait was interrupted, how many bytes could not be copied, and what is in the
word buffer afterwards.

* `inBar_iff` — which positions are inside the BAR.
* `accesses_inside_iff` — **when all accesses of a program stay inside the BAR and its buffers**:
  neither function looks at the length of the BAR or at `count`.
-/

namespace Fc1553

open Runs

abbrev U32 := BitVec 32

/-- The error codes, positive as in the kernel's headers. -/
def eFault : ℤ := 14
def eInval : ℤ := 22
def eRestartsys : ℤ := 512

/-- `fc1553_pcie_card`: BAR 0 as it is mapped. A mapping does not wrap. -/
structure Card (w : ℕ) where
  bar0Start : BitVec w
  resLength : U32
  fits : bar0Start.toNat + resLength.toNat ≤ 2 ^ w

/-- An open file, with the first word of `mem_buf`. -/
structure OpenFile where
  fPos : BitVec 64
  memBuf : U32

/-- The accesses to the device, and the copies from and to the caller's buffer of `count` bytes. -/
inductive Access (w : ℕ) where
  | ioread32 (addr : BitVec w)
  | iowrite32 (value : U32) (addr : BitVec w)
  | copy (count bytes : ℕ)

variable {w : ℕ}

def fc1553Llseek (off : BitVec 64) (whence : U32) (f : OpenFile) : ℤ × OpenFile :=
  if whence ≠ 0 then (-eInval, f)
  else if off.toInt < 0 then (-eInval, f)
  else (off.toInt, { f with fPos := off })

/-- The device has `value` at the address; `left` bytes could not be copied. -/
def fc1553Read (card : Card w) (interrupted : Bool) (value : U32) (left count : ℕ) (f : OpenFile) :
    ℤ × OpenFile × List (Access w) :=
  let addr := card.bar0Start + f.fPos.setWidth w
  if interrupted then (-eRestartsys, f, [])
  else
    -- The size of the pointer `mem_buf`.
    let size := w / 8
    (if left ≠ 0 then -eFault else size, { f with memBuf := value },
      [.ioread32 addr, .copy count (size - left)])

/-- The copy leaves `value` in the buffer; `left` bytes could not be copied. -/
def fc1553Write (card : Card w) (interrupted : Bool) (value : U32) (left count : ℕ) (f : OpenFile) :
    ℤ × OpenFile × List (Access w) :=
  let addr := card.bar0Start + f.fPos.setWidth w
  if interrupted then (-eRestartsys, f, [])
  else
    -- The size of what it points to.
    let size := 4
    let f := { f with memBuf := value }
    if left ≠ 0 then (-eFault, f, [.copy count (size - left)])
    else (size, f, [.copy count size, .iowrite32 value addr])

inductive FileOp where
  | llseek (off : BitVec 64) (whence : U32)
  | read (interrupted : Bool) (value : U32) (left count : ℕ)
  | write (interrupted : Bool) (value : U32) (left count : ℕ)

/-- The file, and the accesses made so far. -/
structure FileSys (w : ℕ) where
  file : OpenFile
  log : List (Access w)

def fileStep (card : Card w) (s : FileSys w) : FileOp → Option (FileSys w)
  | .llseek off whence => some { s with file := (fc1553Llseek off whence s.file).2 }
  | .read interrupted value left count =>
    let done := fc1553Read card interrupted value left count s.file
    some { file := done.2.1, log := s.log ++ done.2.2 }
  | .write interrupted value left count =>
    let done := fc1553Write card interrupted value left count s.file
    some { file := done.2.1, log := s.log ++ done.2.2 }

/-- A file that has just been opened. -/
def opened (memBuf : U32) : FileSys w where
  file := { fPos := 0, memBuf := memBuf }
  log := []

/-! ## What is inside -/

/-- The word at `addr` is in BAR 0. -/
def InBar (card : Card w) (addr : BitVec w) : Prop :=
  card.bar0Start.toNat ≤ addr.toNat ∧ addr.toNat + 4 ≤ card.bar0Start.toNat + card.resLength.toNat

def Inside (card : Card w) : Access w → Prop
  | .ioread32 addr => InBar card addr
  | .iowrite32 _ addr => InBar card addr
  | .copy count bytes => bytes ≤ count

/-- The word at the position of the file is in BAR 0. -/
def PosInBar (card : Card w) (f : OpenFile) : Prop :=
  f.fPos.toNat % 2 ^ w + 4 ≤ card.resLength.toNat

/-- What has to hold before an operation: a word at the position, and room for what is copied. -/
def Meets (card : Card w) (s : FileSys w) : FileOp → Prop
  | .llseek _ _ => True
  | .read interrupted _ left count =>
    interrupted = false → PosInBar card s.file ∧ w / 8 ≤ count + left
  | .write interrupted _ left count =>
    interrupted = false → (left = 0 → PosInBar card s.file) ∧ 4 ≤ count + left

/-- **Positions inside the BAR**: the sum does not wrap there, and outside it is not in the BAR. -/
theorem inBar_iff (card : Card w) (f : OpenFile) :
    InBar card (card.bar0Start + f.fPos.setWidth w) ↔ PosInBar card f := by
  have hfits := card.fits
  have hpos : (f.fPos.setWidth w).toNat = f.fPos.toNat % 2 ^ w := BitVec.toNat_setWidth ..
  have hlt := (f.fPos.setWidth w).isLt
  have hstart := card.bar0Start.isLt
  rw [InBar, PosInBar, BitVec.toNat_add, ← hpos]
  generalize (f.fPos.setWidth w).toNat = pos at *
  by_cases hwrap : card.bar0Start.toNat + pos < 2 ^ w
  · rw [Nat.mod_eq_of_lt hwrap]
    omega
  · rw [Nat.mod_eq_sub_mod (not_lt.1 hwrap), Nat.mod_eq_of_lt (by omega)]
    omega

variable {card : Card w} {s s' : FileSys w}

/-- **One operation.** -/
theorem inside_iff_meets {op : FileOp} (hs : ∀ a ∈ s.log, Inside card a)
    (hstep : fileStep card s op = some s') : (∀ a ∈ s'.log, Inside card a) ↔ Meets card s op := by
  have happend : ∀ l : List (Access w),
      (∀ a ∈ s.log ++ l, Inside card a) ↔ ∀ a ∈ l, Inside card a := fun l => by
    rw [List.forall_mem_append]
    exact and_iff_right hs
  cases op with
  | llseek off whence =>
    rw [← Option.some.inj hstep]
    exact iff_of_true hs trivial
  | read interrupted value left count =>
    rw [← Option.some.inj hstep]
    show (∀ a ∈ s.log ++ _, Inside card a) ↔ _
    rw [happend]
    cases interrupted with
    | true => simp [fc1553Read, Meets]
    | false =>
      have hcopy : w / 8 - left ≤ count ↔ w / 8 ≤ count + left := Nat.sub_le_iff_le_add
      simp [fc1553Read, Meets, Inside, inBar_iff, hcopy]
  | write interrupted value left count =>
    rw [← Option.some.inj hstep]
    show (∀ a ∈ s.log ++ _, Inside card a) ↔ _
    rw [happend]
    cases interrupted with
    | true => simp [fc1553Write, Meets]
    | false =>
      by_cases hleft : left = 0
      · simp [fc1553Write, Meets, Inside, inBar_iff, hleft, and_comm]
      · have hcopy : 4 - left ≤ count ↔ 4 ≤ count + left := Nat.sub_le_iff_le_add
        simp [fc1553Write, Meets, Inside, hleft, hcopy]

/-- No operation is ever refused. -/
theorem run_total (card : Card w) (s : FileSys w) (ops : List FileOp) :
    ∃ t, run (fileStep card) s ops = some t := by
  induction ops generalizing s with
  | nil => exact ⟨s, rfl⟩
  | cons op ops ih =>
    have hstep : ∃ s', fileStep card s op = some s' := by
      cases op <;> exact ⟨_, rfl⟩
    obtain ⟨s', hs'⟩ := hstep
    obtain ⟨t, ht⟩ := ih s'
    exact ⟨t, run_cons_eq_some.2 ⟨s', hs', ht⟩⟩

/-- **All accesses stay inside** exactly when every operation meets its condition. -/
theorem accesses_inside_iff (card : Card w) (memBuf : U32) (ops : List FileOp) :
    Throughout (fileStep card) (fun s => ∀ a ∈ s.log, Inside card a) (opened memBuf) ops ↔
      Along (fileStep card) (Meets card) (opened memBuf) ops := by
  obtain ⟨t, ht⟩ := run_total card (opened memBuf) ops
  refine throughout_iff_along (fun s op s' hs hstep => inside_iff_meets hs hstep) ?_ ht
  intro a ha
  cases ha

/-- A BAR of one page. -/
def onePage : Card 32 where
  bar0Start := 0xC0000000
  resLength := 0x1000
  fits := by decide

/-- **Behind the BAR.** A program sets the position to the length of the BAR and reads a word. -/
theorem reads_behind : ¬ Throughout (fileStep onePage) (fun s => ∀ a ∈ s.log, Inside onePage a)
    (opened 0) [.llseek 0x1000 0, .read false 0 0 4] := by
  intro hinside
  have hread := hinside [.llseek 0x1000 0, .read false 0 0 4] [] _ rfl rfl (.ioread32 0xC0001000)
    (List.mem_cons_self ..)
  exact absurd hread (by unfold Inside InBar; decide)

end Fc1553
