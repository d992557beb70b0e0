import MyDriver.Lib.Words

/-!
# Buffer descriptors: `xdma_bd.h`

A buffer descriptor (BD) is a block of sixteen 32-bit words. The first eight are shared with the
DMA engine, the ninth holds the driver's identifier for the buffer. Every access to a BD is one
32-bit read or write at an offset from the BD's address, so the model of memory is a function from
addresses to words.

* `bdRead`, `bdWrite` and the setters and getters follow the macros of the header.
* `BdWords` gathers the words of one BD; each setter has a lemma that says what it does to them.
* `Touches S m m'` — `m'` differs from `m` only inside the BDs of `S`. All setters are framed this
  way, and `Touches.words` turns the frame into "the other BDs are as they were".
-/

namespace Dma

open Words

/-- The driver's `u32`, also the type of an address on the 32-bit machine it is written for. -/
abbrev U32 := BitVec 32

instance (a : U32) (l : List U32) : Decidable (a ∈ l) := inferInstance

/-- Memory, by word. -/
abbrev Mem := U32 → U32

/-! ## Constants -/

def bdMinimumAlignment : U32 := 0x40
/-- Software view of the BD size in words; `sizeof(Dma_Bd)` is four times this. -/
def bdSwNumWords : U32 := 16

def bdBuflStatusOffset : U32 := 0x00
def bdUsrlOffset : U32 := 0x04
def bdUsrhOffset : U32 := 0x08
def bdBuflCtrlOffset : U32 := 0x10
def bdBufalOffset : U32 := 0x14
def bdBufahOffset : U32 := 0x18
def bdNdescOffset : U32 := 0x1C
def bdVbufalOffset : U32 := 0x20

def bdBuflMask : U32 := 0x000FFFFF
def bdStatusMask : U32 := 0xFF000000
def bdCtrlMask : U32 := 0xFF000000

def bdIntErrorMask : U32 := 0x02000000
def bdIntCompMask : U32 := 0x01000000

def bdSopMask : U32 := 0x80000000
def bdEopMask : U32 := 0x40000000
def bdErrorMask : U32 := 0x10000000
def bdUserHighZeroMask : U32 := 0x08000000
def bdUserLowZeroMask : U32 := 0x04000000
def bdShortMask : U32 := 0x02000000
def bdCompMask : U32 := 0x01000000

/-- The C truth value of `word & mask`. -/
abbrev Flag (word mask : U32) : Prop := word &&& mask ≠ 0

/-! ## Accessors -/

def bdRead (m : Mem) (baseAddress offset : U32) : U32 := m (baseAddress + offset)

def bdWrite (m : Mem) (baseAddress offset data : U32) : Mem :=
  Function.update m (baseAddress + offset) data

def bdSetCtrl (m : Mem) (bdPtr data : U32) : Mem :=
  bdWrite m bdPtr bdBuflCtrlOffset
    (bdRead m bdPtr bdBuflCtrlOffset &&& bdBuflMask ||| data &&& bdCtrlMask)

def bdGetCtrl (m : Mem) (bdPtr : U32) : U32 := bdRead m bdPtr bdBuflCtrlOffset &&& bdCtrlMask

def bdSetStatus (m : Mem) (bdPtr data : U32) : Mem :=
  bdWrite m bdPtr bdBuflStatusOffset
    (bdRead m bdPtr bdBuflStatusOffset &&& bdBuflMask ||| data &&& bdStatusMask)

def bdGetStatus (m : Mem) (bdPtr : U32) : U32 := bdRead m bdPtr bdBuflStatusOffset &&& bdStatusMask

def bdSetCtrlLength (m : Mem) (bdPtr lenBytes : U32) : Mem :=
  bdWrite m bdPtr bdBuflCtrlOffset
    (bdRead m bdPtr bdBuflCtrlOffset &&& bdCtrlMask ||| lenBytes &&& bdBuflMask)

def bdSetStatLength (m : Mem) (bdPtr lenBytes : U32) : Mem :=
  bdWrite m bdPtr bdBuflStatusOffset
    (bdRead m bdPtr bdBuflStatusOffset &&& bdStatusMask ||| lenBytes &&& bdBuflMask)

def bdGetStatLength (m : Mem) (bdPtr : U32) : U32 :=
  bdRead m bdPtr bdBuflStatusOffset &&& bdBuflMask

def bdGetCtrlLength (m : Mem) (bdPtr : U32) : U32 :=
  bdRead m bdPtr bdBuflCtrlOffset &&& bdBuflMask

def bdSetId (m : Mem) (bdPtr id : U32) : Mem := bdWrite m bdPtr bdVbufalOffset id

def bdGetId (m : Mem) (bdPtr : U32) : U32 := bdRead m bdPtr bdVbufalOffset

def bdSetBufAddr (m : Mem) (bdPtr addr : U32) : Mem :=
  bdWrite (bdWrite m bdPtr bdBufalOffset addr) bdPtr bdBufahOffset 0

def bdGetBufAddr (m : Mem) (bdPtr : U32) : U32 := bdRead m bdPtr bdBufalOffset

/-- The low and the high half of the 64-bit user data, in the order the macro writes them. -/
def bdSetUserData (m : Mem) (bdPtr : U32) (user : BitVec 64) : Mem :=
  bdWrite (bdWrite m bdPtr bdUsrlOffset (user.setWidth 32)) bdPtr bdUsrhOffset
    ((user >>> 32).setWidth 32)

def bdGetUserData (m : Mem) (bdPtr : U32) : BitVec 64 :=
  (bdRead m bdPtr bdUsrhOffset).setWidth 64 <<< 32 |||
    (bdRead m bdPtr bdUsrlOffset).setWidth 64

/-! ## The words of one BD -/

/-- The words of a BD that the driver or the engine use. -/
@[ext] structure BdWords where
  status : U32
  usrl : U32
  usrh : U32
  ctrl : U32
  bufal : U32
  bufah : U32
  ndesc : U32
  vbufal : U32
deriving DecidableEq

def bdWords (m : Mem) (bd : U32) : BdWords where
  status := bdRead m bd bdBuflStatusOffset
  usrl := bdRead m bd bdUsrlOffset
  usrh := bdRead m bd bdUsrhOffset
  ctrl := bdRead m bd bdBuflCtrlOffset
  bufal := bdRead m bd bdBufalOffset
  bufah := bdRead m bd bdBufahOffset
  ndesc := bdRead m bd bdNdescOffset
  vbufal := bdRead m bd bdVbufalOffset

theorem bdRead_bdWrite (m : Mem) (bd x y v : U32) :
    bdRead (bdWrite m bd x v) bd y = if y = x then v else bdRead m bd y := by
  unfold bdRead bdWrite
  split_ifs with h
  · rw [h, Function.update_self]
  · exact update_offset (Ne.symm h) m v

/-! Each setter, on the words of its own BD. -/

section OwnBd

variable (m : Mem) (bd d : U32)

@[simp] theorem words_setCtrl : bdWords (bdSetCtrl m bd d) bd =
    { bdWords m bd with ctrl := (bdWords m bd).ctrl &&& bdBuflMask ||| d &&& bdCtrlMask } := by
  ext1 <;> simp [bdWords, bdSetCtrl, bdRead_bdWrite, bdBuflStatusOffset, bdUsrlOffset,
    bdUsrhOffset, bdBuflCtrlOffset, bdBufalOffset, bdBufahOffset, bdNdescOffset, bdVbufalOffset]

@[simp] theorem words_setStatus : bdWords (bdSetStatus m bd d) bd =
    { bdWords m bd with
      status := (bdWords m bd).status &&& bdBuflMask ||| d &&& bdStatusMask } := by
  ext1 <;> simp [bdWords, bdSetStatus, bdRead_bdWrite, bdBuflStatusOffset, bdUsrlOffset,
    bdUsrhOffset, bdBuflCtrlOffset, bdBufalOffset, bdBufahOffset, bdNdescOffset, bdVbufalOffset]

@[simp] theorem words_setCtrlLength : bdWords (bdSetCtrlLength m bd d) bd =
    { bdWords m bd with ctrl := (bdWords m bd).ctrl &&& bdCtrlMask ||| d &&& bdBuflMask } := by
  ext1 <;> simp [bdWords, bdSetCtrlLength, bdRead_bdWrite, bdBuflStatusOffset, bdUsrlOffset,
    bdUsrhOffset, bdBuflCtrlOffset, bdBufalOffset, bdBufahOffset, bdNdescOffset, bdVbufalOffset]

@[simp] theorem words_setStatLength : bdWords (bdSetStatLength m bd d) bd =
    { bdWords m bd with
      status := (bdWords m bd).status &&& bdStatusMask ||| d &&& bdBuflMask } := by
  ext1 <;> simp [bdWords, bdSetStatLength, bdRead_bdWrite, bdBuflStatusOffset, bdUsrlOffset,
    bdUsrhOffset, bdBuflCtrlOffset, bdBufalOffset, bdBufahOffset, bdNdescOffset, bdVbufalOffset]

@[simp] theorem words_setId : bdWords (bdSetId m bd d) bd =
    { bdWords m bd with vbufal := d } := by
  ext1 <;> simp [bdWords, bdSetId, bdRead_bdWrite, bdBuflStatusOffset, bdUsrlOffset,
    bdUsrhOffset, bdBuflCtrlOffset, bdBufalOffset, bdBufahOffset, bdNdescOffset, bdVbufalOffset]

@[simp] theorem words_setBufAddr : bdWords (bdSetBufAddr m bd d) bd =
    { bdWords m bd with bufal := d, bufah := 0 } := by
  ext1 <;> simp [bdWords, bdSetBufAddr, bdRead_bdWrite, bdBuflStatusOffset, bdUsrlOffset,
    bdUsrhOffset, bdBuflCtrlOffset, bdBufalOffset, bdBufahOffset, bdNdescOffset, bdVbufalOffset]

@[simp] theorem words_setUserData (u : BitVec 64) : bdWords (bdSetUserData m bd u) bd =
    { bdWords m bd with usrl := u.setWidth 32, usrh := (u >>> 32).setWidth 32 } := by
  ext1 <;> simp [bdWords, bdSetUserData, bdRead_bdWrite, bdBuflStatusOffset, bdUsrlOffset,
    bdUsrhOffset, bdBuflCtrlOffset, bdBufalOffset, bdBufahOffset, bdNdescOffset, bdVbufalOffset]

end OwnBd

/-! ## Frames -/

/-- `a` is the address of a byte of the BD at `bd`. -/
def Inside (bd a : U32) : Prop := (a - bd).toNat < 64

/-- `m'` differs from `m` only inside the BDs of `S`. -/
def Touches (S : List U32) (m m' : Mem) : Prop :=
  ∀ a, (∀ bd ∈ S, ¬ Inside bd a) → m' a = m a

namespace Touches

variable {S T : List U32} {m m₁ m₂ : Mem}

theorem refl (S : List U32) (m : Mem) : Touches S m m := fun _ _ => rfl

theorem mono (h : Touches S m m₁) (hST : S ⊆ T) : Touches T m m₁ :=
  fun a ha => h a fun bd hbd => ha bd (hST hbd)

theorem trans (h₁ : Touches S m m₁) (h₂ : Touches S m₁ m₂) : Touches S m m₂ :=
  fun a ha => (h₂ a ha).trans (h₁ a ha)

theorem append (h₁ : Touches S m m₁) (h₂ : Touches T m₁ m₂) : Touches (S ++ T) m m₂ :=
  (h₁.mono (List.subset_append_left S T)).trans (h₂.mono (List.subset_append_right S T))

/-- A BD apart from the touched ones reads as before. -/
theorem read (h : Touches S m m₁) {bd off : U32} (hbd : ∀ b ∈ S, Apart 64 b bd)
    (hoff : off.toNat < 64) : bdRead m₁ bd off = bdRead m bd off := by
  refine h _ fun b hb hin => ?_
  have hne : b + (bd + off - b) ≠ bd + off := (hbd b hb).add_ne hin hoff
  exact hne (by rw [BitVec.add_comm, BitVec.sub_add_cancel])

theorem words (h : Touches S m m₁) {bd : U32} (hbd : ∀ b ∈ S, Apart 64 b bd) :
    bdWords m₁ bd = bdWords m bd := by
  ext1 <;> exact h.read hbd (by decide)

end Touches

theorem touches_bdWrite (m : Mem) (bd : U32) {off : U32} (v : U32) (hoff : off.toNat < 64) :
    Touches [bd] m (bdWrite m bd off v) := by
  intro a ha
  refine Function.update_of_ne (fun h => ha bd (List.mem_singleton_self bd) ?_) _ _
  rw [Inside, h, BitVec.add_comm, BitVec.add_sub_cancel]
  exact hoff

section Frames

variable (m : Mem) (bd d : U32)

theorem touches_setCtrl : Touches [bd] m (bdSetCtrl m bd d) :=
  touches_bdWrite m bd _ (by decide)

theorem touches_setStatus : Touches [bd] m (bdSetStatus m bd d) :=
  touches_bdWrite m bd _ (by decide)

theorem touches_setCtrlLength : Touches [bd] m (bdSetCtrlLength m bd d) :=
  touches_bdWrite m bd _ (by decide)

theorem touches_setStatLength : Touches [bd] m (bdSetStatLength m bd d) :=
  touches_bdWrite m bd _ (by decide)

theorem touches_setId : Touches [bd] m (bdSetId m bd d) :=
  touches_bdWrite m bd _ (by decide)

theorem touches_setBufAddr : Touches [bd] m (bdSetBufAddr m bd d) :=
  (touches_bdWrite m bd _ (by decide)).trans (touches_bdWrite _ bd _ (by decide))

theorem touches_setUserData (u : BitVec 64) : Touches [bd] m (bdSetUserData m bd u) :=
  (touches_bdWrite m bd _ (by decide)).trans (touches_bdWrite _ bd _ (by decide))

end Frames

end Dma
