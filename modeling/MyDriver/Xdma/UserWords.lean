import MyDriver.Xdma.Settled

/-!
# The user words of a received packet

For a BD of a ring for reception the hardware writes three words: the status and the two user words.
They arrive in any order, and the driver, which reads the BD word by word, may find some of them and
not the others. `Dma_BdRingFromHw` takes a user word that reads as zero for one that has not
arrived, unless the status announces a zero. This is right because `DmaSetupRecvBuffers` clears both
user words before it submits a BD.

* `HwMem` — the memory of the BDs, and the words that the hardware has still to write.
* `Later` — what any number of such writes keep.
* `AsSubmitted` — **the invariant of a submitted BD**: a word is final, or it is as the refill left
  it.
* `userWords_final` — the end-of-packet BDs that `Dma_BdRingFromHw` returns have their final user
  words, and these are what `PktHandler` passes on.
-/

namespace Dma

open Cyclic Runs

/-- A word of a BD that the hardware writes. -/
inductive HwWord where
  | status
  | usrl
  | usrh
deriving DecidableEq

def HwWord.offset : HwWord → U32
  | .status => bdBuflStatusOffset
  | .usrl => bdUsrlOffset
  | .usrh => bdUsrhOffset

def BdWords.hwWord (w : BdWords) : HwWord → U32
  | .status => w.status
  | .usrl => w.usrl
  | .usrh => w.usrh

def BdWords.setHwWord (w : BdWords) : HwWord → U32 → BdWords
  | .status, v => { w with status := v }
  | .usrl, v => { w with usrl := v }
  | .usrh, v => { w with usrh := v }

/-- The 64-bit user data of two user words. -/
def userData (usrh usrl : U32) : BitVec 64 := usrh.setWidth 64 <<< 32 ||| usrl.setWidth 64

/-- What the hardware writes into a BD for one submission. The status says which of the user words
are zero. -/
structure FinalWords where
  status : U32
  usrl : U32
  usrh : U32
  highZero : Flag status bdUserHighZeroMask ↔ usrh = 0
  lowZero : Flag status bdUserLowZeroMask ↔ usrl = 0

def FinalWords.word (f : FinalWords) : HwWord → U32
  | .status => f.status
  | .usrl => f.usrl
  | .usrh => f.usrh

/-- A write of the hardware: which BD, and which of its words. -/
abbrev HwWrite := U32 × HwWord

/-- The memory of the BDs, what the hardware writes into each of them for its present submission,
and which of these words it has not written yet. -/
structure HwMem where
  mem : Mem
  final : U32 → FinalWords
  due : U32 → HwWord → Bool

namespace HwMem

/-- The hardware writes a word, if it has not done so. -/
def write (h : HwMem) (w : HwWrite) : HwMem :=
  if h.due w.1 w.2 = true then
    { h with
      mem := bdWrite h.mem w.1 w.2.offset ((h.final w.1).word w.2)
      due := Function.update h.due w.1 (Function.update (h.due w.1) w.2 false) }
  else h

def writes (h : HwMem) (ws : List HwWrite) : HwMem := ws.foldl write h

/-- What the word read number `t` of a call finds, when the hardware makes the writes `ws[t]` just
before it. -/
def atRead (h : HwMem) (ws : List (List HwWrite)) (t : ℕ) : HwMem :=
  h.writes (ws.take (t + 1)).flatten

theorem writes_append (h : HwMem) (ws vs : List HwWrite) :
    h.writes (ws ++ vs) = (h.writes ws).writes vs := List.foldl_append

end HwMem

/-- The loop of `PktHandler`, with the unmaps. Each pass makes six word reads: buffer address,
length, ID, status, high and low user word. -/
def handleLoop (r : BdRing) : ℕ → HwMem → List (List HwWrite) → U32 → List (PktBuf × Ev) × HwMem
  | 0, h, ws, _ => ([], h.writes ws.flatten)
  | k + 1, h, ws, cur =>
    let m (t : ℕ) : Mem := (h.atRead ws t).mem
    let pbuf : PktBuf := {
      size := bdGetStatLength (m 1) cur
      bufInfo := bdGetId (m 2) cur
      pktBuf := bdGetId (m 2) cur
      flags := bdGetStatus (m 3) cur
      userInfo := userData (bdRead (m 4) cur bdUsrhOffset) (bdRead (m 5) cur bdUsrlOffset) }
    let h := h.atRead ws 5
    let rest := handleLoop r k { h with mem := bdSetId h.mem cur 0 } (ws.drop 6) (bdRingNext r cur)
    ((pbuf, .unmap (bdGetBufAddr (m 0) cur) pbuf.size (dirOf r)) :: rest.1, rest.2)

/-- A ring with its hardware and its user driver. -/
structure RxSys (υ : Type) where
  ring : BdRing
  regs : Regs
  hw : HwMem
  intrCount : U32
  user : υ

namespace RxSys

variable {υ : Type}

def chan (s : RxSys υ) : Chan := ⟨s.ring, s.hw.mem, s.regs⟩

def fromHw (s : RxSys υ) (ws : List (List HwWrite)) : ℕ × U32 × RxSys υ :=
  let got := bdRingFromHw s.ring (fun t => (s.hw.atRead ws t).mem) dmaBdCnt
  (got.1, got.2.1, { s with ring := got.2.2, hw := s.hw.writes ws.flatten })

/-- The rest of the first locked section of `PktHandler`, on the `n` BDs from `bdPtr` on. -/
def handle (s : RxSys υ) (n : ℕ) (bdPtr : U32) (ws : List (List HwWrite)) :
    Option (List PktBuf) × RxSys υ × List Ev :=
  let taken := handleLoop s.ring n s.hw ws bdPtr
  match bdRingFree { s.chan with mem := taken.2.mem } (BitVec.ofNat 32 n) bdPtr with
  | .error _ => (none, { s with hw := taken.2 }, taken.1.map Prod.snd)
  | .ok c =>
    (some (taken.1.map Prod.fst),
      { s with ring := c.ring, regs := c.regs, hw := { taken.2 with mem := c.mem } },
      taken.1.map Prod.snd)

/-- The first locked section of `PktHandler`: the hardware makes the writes `ws[t]` and `ws'[t]`
before the word read number `t` of `Dma_BdRingFromHw` and of the loop. -/
def retrieve (s : RxSys υ) (ws ws' : List (List HwWrite)) :
    Option (List PktBuf) × RxSys υ × List Ev :=
  let got := s.fromHw ws
  if got.1 = 0 then (some [], got.2.2, []) else got.2.2.handle got.1 got.2.1 ws'

/-- The second locked section of `PktHandler`, with the user driver in the state `u`. For each BD
that it submits, the hardware is to write the words `finals`. -/
def refill (user : UserPtrs υ) (thBhIsr : Bool) (s : RxSys υ) (u : υ) (bus : ℕ → U32)
    (finals : U32 → FinalWords) : RxSys υ :=
  let d := (pktHandlerRefill user thBhIsr bus ⟨s.chan, s.intrCount, u⟩).1
  let submitted (bd : U32) : Prop := bd ∈ hwBds d.chan.ring ∧ bd ∉ hwBds s.ring
  { ring := d.chan.ring
    regs := d.chan.regs
    intrCount := d.intrCount
    user := d.user
    hw :=
      { mem := d.chan.mem
        final := fun bd => if submitted bd then finals bd else s.hw.final bd
        due := fun bd w => if submitted bd then true else s.hw.due bd w } }

end RxSys

inductive RxAct (υ : Type) where
  | hwWrite (w : HwWrite)
  | retrieve (ws ws' : List (List HwWrite))
  | refill (u : υ) (bus : ℕ → U32) (finals : U32 → FinalWords)

def rxStep {υ : Type} (user : UserPtrs υ) (thBhIsr : Bool) (s : RxSys υ) :
    RxAct υ → Option (RxSys υ)
  | .hwWrite w => some { s with hw := s.hw.write w }
  | .retrieve ws ws' => some (s.retrieve ws ws').2.1
  | .refill u bus finals => some (s.refill user thBhIsr u bus finals)

/-- A started ring; nothing has been submitted. -/
def startedRx {υ : Type} (c : Chan) (intrCount : U32) (u : υ) (final : U32 → FinalWords) :
    RxSys υ where
  ring := c.ring
  regs := c.regs
  hw := { mem := c.mem, final := final, due := fun _ _ => false }
  intrCount := intrCount
  user := u

/-- The BD, which `Dma_BdRingFromHw` has returned, has its final user words if it is completed and
ends a packet, and the packet made of it carries them. -/
def Finished (h : HwMem) (bd : U32) (pbuf : PktBuf) : Prop :=
  (bdWords h.mem bd).Comp → Flag (bdWords h.mem bd).status bdEopMask →
    (bdWords h.mem bd).usrh = (h.final bd).usrh ∧ (bdWords h.mem bd).usrl = (h.final bd).usrl ∧
    pbuf.userInfo = userData (h.final bd).usrh (h.final bd).usrl

/-! ## Without the hardware -/

theorem handleLoop_calm (r : BdRing) (k : ℕ) (h : HwMem) (cur : U32) :
    handleLoop r k h [] cur = ((takeLoop r (handleBd (dirOf r)) k h.mem cur).1,
      { h with mem := (takeLoop r (handleBd (dirOf r)) k h.mem cur).2 }) := by
  induction k generalizing h cur with
  | zero => rfl
  | succ k ih =>
    rw [handleLoop, takeLoop]
    dsimp only
    rw [List.drop_nil, ih]
    rfl

/-- Undisturbed, the section is the one of the driver. -/
theorem RxSys.retrieve_calm {υ : Type} (s : RxSys υ) :
    (s.retrieve [] []).1 = (pktHandlerRetrieve (fun _ => s.hw.mem) s.chan).1 ∧
    (s.retrieve [] []).2.1.chan = (pktHandlerRetrieve (fun _ => s.hw.mem) s.chan).2.1 ∧
    (s.retrieve [] []).2.2 = (pktHandlerRetrieve (fun _ => s.hw.mem) s.chan).2.2 := by
  have hgot : s.fromHw [] = ((bdRingFromHw s.ring (fun _ => s.hw.mem) dmaBdCnt).1,
      (bdRingFromHw s.ring (fun _ => s.hw.mem) dmaBdCnt).2.1,
      { s with ring := (bdRingFromHw s.ring (fun _ => s.hw.mem) dmaBdCnt).2.2 }) := rfl
  have hchan : s.chan.ring = s.ring := rfl
  rw [RxSys.retrieve, pktHandlerRetrieve, hgot, hchan]
  generalize bdRingFromHw s.ring (fun _ => s.hw.mem) dmaBdCnt = got
  dsimp only
  split_ifs
  · exact ⟨rfl, rfl, rfl⟩
  · rw [RxSys.handle, handleBds, handleLoop_calm]
    dsimp only [RxSys.chan]
    cases bdRingFree (Chan.mk got.2.2 (takeLoop got.2.2 (handleBd (dirOf got.2.2)) got.1 s.hw.mem
        got.2.1).2 s.regs) (BitVec.ofNat 32 got.1) got.2.1 with
    | error _ => exact ⟨rfl, rfl, rfl⟩
    | ok c => exact ⟨rfl, rfl, rfl⟩

/-! ## Writes of the hardware -/

/-- The word is the final one. -/
def HasFinal (h : HwMem) (bd : U32) (w : HwWord) : Prop :=
  (bdWords h.mem bd).hwWord w = (h.final bd).word w

/-- A word as the refill leaves it: the status says that the BD is not completed, the user words are
zero. -/
def HwWord.Blank : HwWord → U32 → Prop
  | .status, v => ¬ Flag v bdCompMask
  | .usrl, v => v = 0
  | .usrh, v => v = 0

/-- **A submitted BD.** The words that the hardware has written are final, the others are blank. -/
def AsSubmitted (h : HwMem) (bd : U32) : Prop :=
  ∀ w, if h.due bd w = true then w.Blank ((bdWords h.mem bd).hwWord w) else HasFinal h bd w

/-- The hardware writes into BDs of the ring only. -/
def DueIn (r : BdRing) (h : HwMem) : Prop := ∀ bd w, h.due bd w = true → ∃ x, bd = bdAt r x

/-- What writes of the hardware keep. -/
structure Later (r : BdRing) (h h' : HwMem) : Prop where
  final : h'.final = h.final
  dueIn : DueIn r h'
  has : ∀ x w, HasFinal h (bdAt r x) w → HasFinal h' (bdAt r x) w
  submitted : ∀ x, AsSubmitted h (bdAt r x) → AsSubmitted h' (bdAt r x)

section Later

variable {r r' : BdRing} {h h' h'' : HwMem}

theorem Later.refl (hd : DueIn r h) : Later r h h := ⟨rfl, hd, fun _ _ hw => hw, fun _ hs => hs⟩

theorem Later.trans (h₁ : Later r h h') (h₂ : Later r h' h'') : Later r h h'' :=
  ⟨h₂.final.trans h₁.final, h₂.dueIn, fun x w hw => h₂.has x w (h₁.has x w hw),
    fun x hs => h₂.submitted x (h₁.submitted x hs)⟩

theorem DueIn.congr (hd : DueIn r h) (hbd : bdAt r' = bdAt r) : DueIn r' h := by
  rw [DueIn, hbd]
  exact hd

theorem Later.congr (hl : Later r h h') (hbd : bdAt r' = bdAt r) : Later r' h h' := by
  obtain ⟨hfinal, hd, hhas, hsub⟩ := hl
  refine ⟨hfinal, hd.congr hbd, ?_, ?_⟩
  · rw [hbd]
    exact hhas
  · rw [hbd]
    exact hsub

/-- A word of which nothing that matters here has changed. -/
theorem HasFinal.congr {bd : U32} {w : HwWord} (hw : HasFinal h bd w)
    (hfinal : h'.final bd = h.final bd)
    (hword : (bdWords h'.mem bd).hwWord w = (bdWords h.mem bd).hwWord w) : HasFinal h' bd w := by
  rw [HasFinal, hfinal, hword]
  exact hw

theorem AsSubmitted.congr {bd : U32} (hs : AsSubmitted h bd) (hfinal : h'.final bd = h.final bd)
    (hdue : h'.due bd = h.due bd)
    (hwords : ∀ w, (bdWords h'.mem bd).hwWord w = (bdWords h.mem bd).hwWord w) :
    AsSubmitted h' bd := by
  intro w
  have hw := hs w
  rw [hdue, hwords]
  split_ifs at hw ⊢
  · exact hw
  · exact hw.congr hfinal (hwords w)

theorem edits_hwWord (w : HwWord) (v : U32) :
    Edits (fun m bd => bdWrite m bd w.offset v) fun ws => ws.setHwWord w v where
  touches m bd := touches_bdWrite m bd v (by cases w <;> decide)
  words m bd := by
    cases w <;> ext1 <;> simp [bdWords, BdWords.setHwWord, HwWord.offset, bdRead_bdWrite,
      bdBuflStatusOffset, bdUsrlOffset, bdUsrhOffset, bdBuflCtrlOffset, bdBufalOffset,
      bdBufahOffset, bdNdescOffset, bdVbufalOffset]

theorem hwWord_setHwWord_self (ws : BdWords) (w : HwWord) (v : U32) :
    (ws.setHwWord w v).hwWord w = v := by cases w <;> rfl

theorem hwWord_setHwWord_ne (ws : BdWords) {w w' : HwWord} (v : U32) (hne : w' ≠ w) :
    (ws.setHwWord w v).hwWord w' = ws.hwWord w' := by
  cases w <;> cases w' <;> first | rfl | exact absurd rfl hne

/-- **A write of the hardware.** -/
theorem later_write (hl : Laid r) (hd : DueIn r h) (w : HwWrite) : Later r h (h.write w) := by
  obtain ⟨bd, w⟩ := w
  by_cases hdue : h.due bd w = true
  · obtain ⟨y, rfl⟩ := hd bd w hdue
    have he := edits_hwWord w ((h.final (bdAt r y)).word w)
    have hwrite : h.write (bdAt r y, w) = { h with
        mem := bdWrite h.mem (bdAt r y) w.offset ((h.final (bdAt r y)).word w)
        due := Function.update h.due (bdAt r y) (Function.update (h.due (bdAt r y)) w false) } :=
      if_pos hdue
    rw [hwrite]
    have hother : ∀ x, bdAt r x ≠ bdAt r y → bdWords (bdWrite h.mem (bdAt r y) w.offset
        ((h.final (bdAt r y)).word w)) (bdAt r x) = bdWords h.mem (bdAt r x) :=
      fun x hne => he.other hl h.mem hne
    have hown : ∀ v, (bdWords (bdWrite h.mem (bdAt r y) w.offset
        ((h.final (bdAt r y)).word w)) (bdAt r y)).hwWord v =
          if v = w then (h.final (bdAt r y)).word w else (bdWords h.mem (bdAt r y)).hwWord v := by
      intro v
      rw [he.words]
      split_ifs with hvw
      · rw [hvw, hwWord_setHwWord_self]
      · exact hwWord_setHwWord_ne _ _ hvw
    refine ⟨rfl, fun bd v hv => ?_, fun x v hx => ?_, fun x hx => ?_⟩
    · dsimp only at hv
      by_cases hbd : bd = bdAt r y
      · exact ⟨y, hbd⟩
      · rw [Function.update_of_ne hbd] at hv
        exact hd bd v hv
    · by_cases hxy : bdAt r x = bdAt r y
      · rw [hxy] at hx ⊢
        rw [HasFinal, hown]
        split_ifs with hvw
        · rw [hvw]
        · exact hx
      · exact hx.congr rfl (congrArg (BdWords.hwWord · v) (hother x hxy))
    · by_cases hxy : bdAt r x = bdAt r y
      · rw [hxy] at hx ⊢
        intro v
        have hv := hx v
        simp only [Function.update_self, HasFinal, hown] at hv ⊢
        by_cases hvw : v = w
        · simp only [hvw, Function.update_self, Bool.false_eq_true, if_false, if_true]
        · simp only [Function.update_of_ne hvw, if_neg hvw]
          exact hv
      · exact hx.congr rfl (Function.update_of_ne hxy _ _) fun v =>
          congrArg (BdWords.hwWord · v) (hother x hxy)
  · have hwrite : h.write (bd, w) = h := if_neg hdue
    rw [hwrite]
    exact .refl hd

theorem later_writes (hl : Laid r) (hd : DueIn r h) (ws : List HwWrite) :
    Later r h (h.writes ws) := by
  induction ws generalizing h with
  | nil => exact .refl hd
  | cons w ws ih =>
    have hw := later_write hl hd w
    exact hw.trans (ih hw.dueIn)

/-- The reads of a call find the memory in the order in which they are made. -/
theorem later_prefix (hl : Laid r) (hd : DueIn r h) {ws vs : List (List HwWrite)} (hp : ws <+: vs) :
    Later r (h.writes ws.flatten) (h.writes vs.flatten) := by
  obtain ⟨zs, rfl⟩ := hp
  rw [List.flatten_append, HwMem.writes_append]
  exact later_writes hl (later_writes hl hd _).dueIn _

/-- Clearing the ID of a BD. -/
theorem later_setId (hl : Laid r) (hd : DueIn r h) (y : ℕ) :
    Later r h { h with mem := bdSetId h.mem (bdAt r y) 0 } := by
  have hsame : ∀ x w, (bdWords (bdSetId h.mem (bdAt r y) 0) (bdAt r x)).hwWord w =
      (bdWords h.mem (bdAt r x)).hwWord w := by
    intro x w
    by_cases hxy : bdAt r x = bdAt r y
    · rw [hxy, words_setId]
      cases w <;> rfl
    · rw [(edits_setId 0).other hl h.mem hxy]
  exact ⟨rfl, hd, fun x w hx => hx.congr rfl (hsame x w), fun x hx => hx.congr rfl rfl (hsame x)⟩

/-- **The loop of `PktHandler`.** A BD that has its final user words keeps them until they are
read. -/
theorem handleLoop_spec (hl : Laid r) (hd : DueIn r h) (k : ℕ) (ws : List (List HwWrite)) (x : ℕ) :
    Later r h (handleLoop r k h ws (bdAt r x)).2 ∧
    List.Forall₂ (fun y (p : PktBuf × Ev) =>
        HasFinal h (bdAt r y) .usrh → HasFinal h (bdAt r y) .usrl →
        p.1.userInfo = userData (h.final (bdAt r y)).usrh (h.final (bdAt r y)).usrl)
      (arc id x k) (handleLoop r k h ws (bdAt r x)).1 := by
  induction k generalizing h ws x with
  | zero => exact ⟨later_writes hl hd _, .nil⟩
  | succ k ih =>
    have hread : ∀ t, Later r h (h.atRead ws t) := fun t => later_writes hl hd _
    have hid := later_setId hl (hread 5).dueIn x
    have hnext := (hread 5).trans hid
    obtain ⟨hlater, hrest⟩ := ih hid.dueIn (ws.drop 6) (x + 1)
    rw [handleLoop, hl.next, arc_succ]
    refine ⟨hnext.trans hlater, .cons ?_ ?_⟩
    · intro husrh husrl
      have hhigh := (hread 4).has x .usrh husrh
      have hlow := (hread 5).has x .usrl husrl
      rw [HasFinal, (hread 4).final] at hhigh
      rw [HasFinal, (hread 5).final] at hlow
      exact congrArg₂ userData hhigh hlow
    · refine List.Forall₂.imp (fun y p hp husrh husrl => ?_) hrest
      have hread := hp (hnext.has y .usrh husrh) (hnext.has y .usrl husrl)
      rwa [hnext.final] at hread

end Later

/-! ## What `Dma_BdRingFromHw` has seen -/

theorem userData_high (usrl : U32) : userData 0 usrl &&& 0xFFFFFFFF00000000 = 0 := by
  have hmask : ∀ i < 32, (0xFFFFFFFF00000000 : BitVec 64).getLsbD i = false := by decide
  refine BitVec.eq_of_getLsbD_eq fun i _ => ?_
  rw [userData, BitVec.getLsbD_and, BitVec.getLsbD_or, BitVec.getLsbD_shiftLeft]
  by_cases hi : i < 32
  · rw [hmask i hi, Bool.and_false]
    exact BitVec.getLsbD_zero.symm
  · have hout : usrl.getLsbD i = false := BitVec.getLsbD_of_ge usrl i (not_lt.1 hi)
    simp [hout]

theorem userData_low (usrh : U32) : userData usrh 0 &&& 0xFFFFFFFF = 0 := by
  have hmask : ∀ i < 64, ¬ i < 32 → (0xFFFFFFFF : BitVec 64).getLsbD i = false := by decide
  refine BitVec.eq_of_getLsbD_eq fun i hi64 => ?_
  rw [userData, BitVec.getLsbD_and, BitVec.getLsbD_or, BitVec.getLsbD_shiftLeft]
  by_cases hi : i < 32
  · simp [hi]
  · rw [hmask i hi64 hi, Bool.and_false]
    exact BitVec.getLsbD_zero.symm

section FromHw

variable {r : BdRing} {h : HwMem}

/-- A word that is not blank has arrived. -/
theorem AsSubmitted.arrived {bd : U32} (hs : AsSubmitted h bd) {w : HwWord}
    (hw : ¬ w.Blank ((bdWords h.mem bd).hwWord w)) : HasFinal h bd w := by
  have hword := hs w
  split_ifs at hword
  · exact absurd hword hw
  · exact hword

/-- A user word that is zero in the end is final at any time. -/
theorem AsSubmitted.zero {bd : U32} (hs : AsSubmitted h bd) {w : HwWord}
    (hzero : (h.final bd).word w = 0) (hblank : ∀ v, w.Blank v → v = 0) : HasFinal h bd w := by
  have hword := hs w
  split_ifs at hword
  · exact (hblank _ hword).trans hzero.symm
  · exact hword

/-- **What the test of `Dma_BdRingFromHw` ensures** of a BD that it takes for completed: the status
is final, and the user words are if it ends a packet. -/
theorem AsSubmitted.seen (hl : Laid r) (hd : DueIn r h) {ws : List (List HwWrite)} {x t : ℕ}
    (hs : AsSubmitted h (bdAt r x))
    (hdone : (bdSeen (fun t => (h.atRead ws t).mem) t (bdAt r x)).Done true) :
    HasFinal (h.writes ws.flatten) (bdAt r x) .status ∧
      (Flag (h.final (bdAt r x)).status bdEopMask →
        HasFinal (h.writes ws.flatten) (bdAt r x) .usrh ∧
        HasFinal (h.writes ws.flatten) (bdAt r x) .usrl) := by
  have hread : ∀ t, Later r h (h.atRead ws t) := fun t => later_writes hl hd _
  have hend : ∀ t, Later r (h.atRead ws t) (h.writes ws.flatten) := fun t =>
    later_prefix hl hd (List.take_prefix (t + 1) ws)
  have hsub : ∀ t, AsSubmitted (h.atRead ws t) (bdAt r x) := fun t => (hread t).submitted x hs
  obtain ⟨hcomp, huser⟩ := hdone
  have hmask : ∀ {mask : U32}, bdStatusMask &&& mask = mask →
      ((bdSeen (fun t => (h.atRead ws t).mem) t (bdAt r x)).bdStsCr &&& mask =
        (bdWords (h.atRead ws (4 * t)).mem (bdAt r x)).status &&& mask) := fun hsub =>
    Words.and_and_of_sub hsub _
  rw [Flag, hmask (by decide)] at hcomp
  have hstatus : HasFinal (h.atRead ws (4 * t)) (bdAt r x) .status :=
    (hsub _).arrived fun hblank => hblank hcomp
  have heq : (bdWords (h.atRead ws (4 * t)).mem (bdAt r x)).status = (h.final (bdAt r x)).status := by
    have hword : (bdWords (h.atRead ws (4 * t)).mem (bdAt r x)).status =
      ((h.atRead ws (4 * t)).final (bdAt r x)).status := hstatus
    rw [hword, (hread _).final]
  refine ⟨(hend _).has x .status hstatus, fun heop => ?_⟩
  simp only [Flag, hmask (show bdStatusMask &&& bdEopMask = bdEopMask by decide),
    hmask (show bdStatusMask &&& bdUserHighZeroMask = bdUserHighZeroMask by decide),
    hmask (show bdStatusMask &&& bdUserLowZeroMask = bdUserLowZeroMask by decide), heq] at huser
  have hwords : ¬ ((¬ Flag (h.final (bdAt r x)).status bdUserHighZeroMask ∧
        (bdSeen (fun t => (h.atRead ws t).mem) t (bdAt r x)).userInfo &&& 0xFFFFFFFF00000000 = 0) ∨
      (¬ Flag (h.final (bdAt r x)).status bdUserLowZeroMask ∧
        (bdSeen (fun t => (h.atRead ws t).mem) t (bdAt r x)).userInfo &&& 0xFFFFFFFF = 0)) :=
    fun hlate => huser ⟨trivial, heop, hlate⟩
  obtain ⟨hhigh, hlow⟩ := not_or.1 hwords
  constructor
  · refine (hend (4 * t + 2)).has x .usrh ?_
    by_cases hzero : Flag (h.final (bdAt r x)).status bdUserHighZeroMask
    · refine (hsub _).zero ?_ fun _ hv => hv
      rw [(hread _).final]
      exact (h.final (bdAt r x)).highZero.1 hzero
    · refine (hsub _).arrived fun hblank => hhigh ⟨hzero, ?_⟩
      have hword : bdRead (h.atRead ws (4 * t + 2)).mem (bdAt r x) bdUsrhOffset = 0 := hblank
      show userData (bdRead _ _ bdUsrhOffset) _ &&& _ = 0
      rw [hword]
      exact userData_high _
  · refine (hend (4 * t + 3)).has x .usrl ?_
    by_cases hzero : Flag (h.final (bdAt r x)).status bdUserLowZeroMask
    · refine (hsub _).zero ?_ fun _ hv => hv
      rw [(hread _).final]
      exact (h.final (bdAt r x)).lowZero.1 hzero
    · refine (hsub _).arrived fun hblank => hlow ⟨hzero, ?_⟩
      have hword : bdRead (h.atRead ws (4 * t + 3)).mem (bdAt r x) bdUsrlOffset = 0 := hblank
      show userData _ (bdRead _ _ bdUsrlOffset) &&& _ = 0
      rw [hword]
      exact userData_low _

end FromHw

/-! ## The sections -/

/-- **The invariant.** -/
structure RxInv {υ : Type} (s : RxSys υ) : Prop where
  settled : ∃ g, Settled s.chan g ∧ ∀ i < g.hw, AsSubmitted s.hw (bdAt s.ring (g.hwPos + i))
  rx : s.ring.isRxChannel = true
  dueIn : DueIn s.ring s.hw

section Sections

variable {υ : Type} {s : RxSys υ} {g : Split}

/-- The BDs that are left in the Hardware group, after the section has freed those it has
retrieved. -/
theorem RxInv.free {c : Chan} {k : ℕ} {h : HwMem} (hk : k ≤ g.hw) (hs : Settled s.chan g)
    (hrx : s.ring.isRxChannel = true) (hsub : ∀ i < g.hw, AsSubmitted h (bdAt s.ring (g.hwPos + i)))
    (hd : DueIn s.ring h) (hparts : Parts c.ring (g.retire k hk)) (hbase : c.ring.base = s.ring.base)
    (hw : Rewrites s.ring h.mem c.mem g.hwPos k fun _ w => { w with status := 0, ctrl := 0 }) :
    RxInv { s with ring := c.ring, regs := c.regs, hw := { h with mem := c.mem } } := by
  have hlap := g.lap
  have hroom := hs.room
  have hbd : bdAt c.ring = bdAt s.ring := bdAt_congr (block_of_base hbase)
  refine ⟨⟨g.retire k hk, ⟨hparts, hs.post, hs.pre, ?_⟩, fun i hi => ?_⟩, ?_, hd.congr hbd⟩
  · show g.hw - k = 0 ∨ 2 ≤ g.free + k
    omega
  · have hi' : i < g.hw - k := hi
    dsimp only
    rw [hbd, g.retire_hwPos hk, Nat.add_assoc]
    refine (hsub (k + i) (by omega)).congr rfl rfl fun w => ?_
    have hsame := hw.ahead hs.parts (y := g.hwPos + (k + i)) (by omega) (by omega)
    exact congrArg (BdWords.hwWord · w) hsame
  · exact (isRx_congr (block_of_base hbase)).trans hrx

/-- The BDs that have just come from the hardware, up to their freeing. -/
theorem RxSys.handle_spec (hparts : Parts s.ring g) (hd : DueIn s.ring s.hw) {k : ℕ}
    (hk : k ≤ g.post) (ws : List (List HwWrite)) :
    ∃ (h : HwMem) (c : Chan) (pkts : List (PktBuf × Ev)),
      s.handle k (bdAt s.ring g.start) ws = (some (pkts.map Prod.fst),
        { s with ring := c.ring, regs := c.regs, hw := { h with mem := c.mem } },
        pkts.map Prod.snd) ∧
      Later s.ring s.hw h ∧ Parts c.ring (g.freeUp k hk) ∧ c.ring.base = s.ring.base ∧
      Rewrites s.ring h.mem c.mem g.start k (fun _ w => { w with status := 0, ctrl := 0 }) ∧
      List.Forall₂ (fun y (p : PktBuf × Ev) =>
          HasFinal s.hw (bdAt s.ring y) .usrh → HasFinal s.hw (bdAt s.ring y) .usrl →
          p.1.userInfo = userData (s.hw.final (bdAt s.ring y)).usrh (s.hw.final (bdAt s.ring y)).usrl)
        (arc id g.start k) pkts := by
  obtain ⟨hlater, hread⟩ := handleLoop_spec hparts.laid hd k ws g.start
  have hparts' : Parts ({ s.chan with
      mem := (handleLoop s.ring k s.hw ws (bdAt s.ring g.start)).2.mem } : Chan).ring g := hparts
  obtain ⟨c, hfree, hfreeUp, hbase, -, hfreed⟩ := hparts'.freeNat hk
  refine ⟨_, c, _, ?_, hlater, hfreeUp, hbase, hfreed, hread⟩
  have hfree' : bdRingFree { s.chan with
      mem := (handleLoop s.ring k s.hw ws (bdAt s.ring g.start)).2.mem } (BitVec.ofNat 32 k)
      (bdAt s.ring g.start) = .ok c := hfree
  rw [RxSys.handle]
  dsimp only
  rw [hfree']

/-- **`PktHandler` up to its call of `UserPutPkt`.** -/
theorem RxInv.retrieve (h : RxInv s) (ws ws' : List (List HwWrite)) :
    RxInv (s.retrieve ws ws').2.1 ∧
    ∃ pkts, (s.retrieve ws ws').1 = some pkts ∧
      List.Forall₂ (Finished (s.fromHw ws).2.2.hw)
        (bdsFrom s.ring (s.fromHw ws).1 (s.fromHw ws).2.1) pkts := by
  obtain ⟨g, hs, hsub⟩ := h.settled
  have hl : Laid s.ring := hs.parts.laid
  obtain ⟨k, r', hk, heq, hwhole, hparts, hbase⟩ :=
    hs.parts.fromHw (fun t => (s.hw.atRead ws t).mem) dmaBdCnt
  have hbd : bdAt r' = bdAt s.ring := bdAt_congr (block_of_base hbase)
  have hlater := later_writes hl h.dueIn ws.flatten
  obtain ⟨h₁, hh₁⟩ : ∃ h₁, h₁ = s.hw.writes ws.flatten := ⟨_, rfl⟩
  have hgot : s.fromHw ws = (k, if k = 0 then 0 else bdAt s.ring g.hwPos,
      { s with ring := r', hw := h₁ }) := by
    have hring : bdRingFromHw s.ring (fun t => (s.hw.atRead ws t).mem) dmaBdCnt = _ := heq
    rw [RxSys.fromHw, hring, hh₁]
    rfl
  rw [← hh₁] at hlater
  rw [RxSys.retrieve, hgot]
  dsimp only
  have hstill : ∀ i < g.hw, AsSubmitted h₁ (bdAt s.ring (g.hwPos + i)) :=
    fun i hi => hlater.submitted _ (hsub i hi)
  by_cases hzero : k = 0
  · subst hzero
    have hsame : g.fromHw 0 hk = g.retire 0 hk := by
      ext <;> simp only [Split.fromHw, Split.retire, Nat.add_zero, Nat.sub_zero]
    rw [hsame] at hparts
    rw [if_pos rfl]
    exact ⟨RxInv.free (c := ⟨r', h₁.mem, s.regs⟩) hk hs h.rx hstill hlater.dueIn hparts hbase
      ⟨fun i hi => absurd hi (Nat.not_lt_zero i), fun _ _ => rfl⟩, [], rfl, .nil⟩
  · have hstart : (g.fromHw k hk).start = g.hwPos := by
      rw [Split.hwPos, hs.post]
      rfl
    obtain ⟨h₂, c, pkts, hhandle, htaken, hfreeUp, hbase', hfreed, hread⟩ :=
      RxSys.handle_spec (s := { s with ring := r', hw := h₁ }) hparts (hlater.dueIn.congr hbd)
        (k := k) (Nat.le_add_left k g.post) ws'
    rw [g.fromHw_freeUp hk] at hfreeUp
    dsimp only at hhandle htaken hbase' hfreed hread
    rw [hstart] at hhandle hfreed hread
    rw [hbd] at hhandle hread
    have htaken := htaken.congr hbd.symm
    rw [if_neg hzero, if_neg hzero, hhandle]
    refine ⟨RxInv.free hk hs h.rx (fun i hi => htaken.submitted _ (hstill i hi)) htaken.dueIn hfreeUp
      (hbase'.trans hbase) (hfreed.congr hbd), _, rfl, ?_⟩
    -- The test of `Dma_BdRingFromHw` held at its reads, and what has arrived by then stays.
    have hseen : ∀ y ∈ arc id g.hwPos k, HasFinal h₁ (bdAt s.ring y) .status ∧
        (Flag (s.hw.final (bdAt s.ring y)).status bdEopMask →
          HasFinal h₁ (bdAt s.ring y) .usrh ∧ HasFinal h₁ (bdAt s.ring y) .usrl) := by
      intro y hy
      obtain ⟨i, hi, rfl⟩ := mem_arc.1 hy
      have hdone := hwhole.done i hi
      have hrx : s.chan.ring.isRxChannel = true := h.rx
      rw [hrx] at hdone
      rw [hh₁]
      exact (hsub i (by omega)).seen hl h.dueIn hdone
    have harc : bdsFrom s.ring k (bdAt s.ring g.hwPos) = (arc id g.hwPos k).map (bdAt s.ring) := by
      rw [bdsFrom_eq hl, map_arc]
      rfl
    rw [harc, List.forall₂_map_left_iff, List.forall₂_map_right_iff]
    refine List.Forall₂.imp (fun y p hp hcomp heop => ?_)
      ((List.forall₂_and_left _ _).2 ⟨hseen, hread⟩)
    obtain ⟨⟨hstatus, huser⟩, huserInfo⟩ := hp
    have hword : (bdWords h₁.mem (bdAt s.ring y)).status = (h₁.final (bdAt s.ring y)).status :=
      hstatus
    rw [hword, hlater.final] at heop
    obtain ⟨husrh, husrl⟩ := huser heop
    exact ⟨husrh, husrl, huserInfo husrh husrl⟩

/-- **The refill.** -/
theorem RxInv.refill (h : RxInv s) (user : UserPtrs υ) (thBhIsr : Bool) (u : υ) (bus : ℕ → U32)
    (finals : U32 → FinalWords) : RxInv (s.refill user thBhIsr u bus finals) := by
  obtain ⟨g, hs, hsub⟩ := h.settled
  have hs' : Settled (Dev.mk s.chan s.intrCount u).chan g := hs
  obtain ⟨g', hset, hbase, hpos, hle, hold, hnew⟩ := hs'.refill_fresh user thBhIsr bus
  rw [RxSys.refill]
  generalize (pktHandlerRefill user thBhIsr bus ⟨s.chan, s.intrCount, u⟩).1 = d at *
  dsimp only at hset hbase hold hnew ⊢
  have hlap := g'.lap
  have hbd : bdAt d.chan.ring = bdAt s.ring := bdAt_congr (block_of_base hbase)
  have hcircle := hset.parts.circle
  rw [hbd] at hcircle
  have hbefore : hwBds s.ring = arc (bdAt s.ring) g.hwPos g.hw := hs.parts.hwBds_eq
  have hafter : hwBds d.chan.ring = arc (bdAt s.ring) g.hwPos g'.hw := by
    rw [hset.parts.hwBds_eq, hbd, hpos]
  have hmem : ∀ {n i}, n ≤ g'.hw → i < g'.hw →
      (bdAt s.ring (g.hwPos + i) ∈ arc (bdAt s.ring) g.hwPos n ↔ i < n) := by
    intro n i hn hi
    refine ⟨fun hin => ?_, fun hlt => mem_arc.2 ⟨i, hlt, rfl⟩⟩
    obtain ⟨j, hj, heq⟩ := mem_arc.1 hin
    have := hcircle.eq_of_lt_lap (by omega) (by omega) heq
    omega
  simp only [hbefore, hafter]
  refine ⟨⟨g', ⟨hset.parts, hset.post, hset.pre, hset.room⟩, fun i hi => ?_⟩, ?_, ?_⟩
  · dsimp only
    rw [hbd, hpos]
    by_cases hlt : i < g.hw
    · have hnot : ¬ (bdAt s.ring (g.hwPos + i) ∈ arc (bdAt s.ring) g.hwPos g'.hw ∧
          bdAt s.ring (g.hwPos + i) ∉ arc (bdAt s.ring) g.hwPos g.hw) := by
        rw [hmem le_rfl hi, hmem hle hi]
        exact fun hn => hn.2 hlt
      refine (hsub i hlt).congr (if_neg hnot) ?_ fun w => ?_
      · funext w
        exact if_neg hnot
      · have hwords := hold i hlt
        rw [wordsAt, hbd] at hwords
        exact congrArg (BdWords.hwWord · w) hwords
    · have hsubmitted : bdAt s.ring (g.hwPos + i) ∈ arc (bdAt s.ring) g.hwPos g'.hw ∧
          bdAt s.ring (g.hwPos + i) ∉ arc (bdAt s.ring) g.hwPos g.hw := by
        rw [hmem le_rfl hi, hmem hle hi]
        exact ⟨hi, hlt⟩
      have hfresh := hnew i (not_lt.1 hlt) hi
      rw [wordsAt, hbd] at hfresh
      obtain ⟨hcomp, husrl, husrh⟩ := hfresh
      intro w
      rw [if_pos (if_pos hsubmitted)]
      cases w with
      | status => exact hcomp
      | usrl => exact husrl
      | usrh => exact husrh
  · exact (isRx_congr (block_of_base hbase)).trans h.rx
  · intro bd w hdue
    dsimp only at hdue ⊢
    rw [hbd]
    split_ifs at hdue with hsubmitted
    · obtain ⟨i, -, rfl⟩ := mem_arc.1 hsubmitted.1
      exact ⟨_, rfl⟩
    · exact h.dueIn bd w hdue

/-- **One step.** -/
theorem RxInv.step (h : RxInv s) {user : UserPtrs υ} {thBhIsr : Bool} {a : RxAct υ} {s' : RxSys υ}
    (hstep : rxStep user thBhIsr s a = some s') : RxInv s' := by
  cases a with
  | hwWrite w =>
    rw [← Option.some.inj hstep]
    obtain ⟨g, hs, hsub⟩ := h.settled
    have hw := later_write hs.parts.laid h.dueIn w
    exact ⟨⟨g, ⟨hs.parts, hs.post, hs.pre, hs.room⟩, fun i hi => hw.submitted _ (hsub i hi)⟩, h.rx,
      hw.dueIn⟩
  | retrieve ws ws' =>
    rw [← Option.some.inj hstep]
    exact (h.retrieve ws ws').1
  | refill u bus finals =>
    rw [← Option.some.inj hstep]
    exact h.refill user thBhIsr u bus finals

theorem Started.rxInv {c : Chan} (hc : Started true c) (intrCount : U32) (u : υ)
    (final : U32 → FinalWords) : RxInv (startedRx c intrCount u final) := by
  obtain ⟨g, hs, hw, hrx⟩ := hc.settled
  refine ⟨⟨g, hs, fun i hi => ?_⟩, hrx, fun bd w hdue => by cases hdue⟩
  rw [hw] at hi
  exact absurd hi (Nat.not_lt_zero i)

end Sections

/-- **The user words are final.** Whenever `PktHandler` polls, each BD that `Dma_BdRingFromHw`
returns completed and at the end of a packet has its final user words, and the `userInfo` that is
passed on is made of these. -/
theorem userWords_final {υ : Type} (user : UserPtrs υ) (thBhIsr : Bool) (c : Chan)
    (hc : Started true c) (intrCount : U32) (u : υ) (final : U32 → FinalWords) (acts : List (RxAct υ))
    (s : RxSys υ)
    (hrun : run (rxStep user thBhIsr) (startedRx c intrCount u final) acts = some s)
    (ws ws' : List (List HwWrite)) :
    ∃ pkts, (s.retrieve ws ws').1 = some pkts ∧
      List.Forall₂ (Finished (s.fromHw ws).2.2.hw)
        (bdsFrom s.ring (s.fromHw ws).1 (s.fromHw ws).2.1) pkts := by
  have hinv := run_inv' (I := RxInv) (fun _ _ _ h hstep => h.step hstep)
    (hc.rxInv intrCount u final) hrun
  exact (hinv.retrieve ws ws').2

/-- The status of a packet of one BD, with a user word of 7. -/
def oneWord : FinalWords where
  status := 0xC9000040
  usrl := 7
  usrh := 0
  highZero := by decide
  lowZero := by decide

/-- A user driver that always has buffers. -/
def bufferUser : UserPtrs Unit where
  getPkt _ num := (List.replicate num ⟨0x8000, 0x8000, 64, 0, 0⟩, ())
  putPkt _ _ := ()
  getPkt_le _ _ := (List.length_replicate).le

/-- The user word of the first BD arrives before its status, which arrives during the poll. -/
theorem userWords_final_wordFirst : ∃ s pkts,
    run (rxStep bufferUser false) (startedRx
        (bdRingStart (bdRingCreate (initializedChan true fun _ => 0) 0 0x1000 64 4).2).2 0 ()
        fun _ => oneWord)
      [.refill () (fun _ => 0x8000) (fun _ => oneWord), .hwWrite (0x1000, .usrl)] = some s ∧
    (s.fromHw [[(0x1000, .status)]]).1 = 1 ∧
    (s.retrieve [[(0x1000, .status)]] []).1 = some pkts ∧
    List.Forall₂ (Finished (s.fromHw [[(0x1000, .status)]]).2.2.hw)
      (bdsFrom s.ring (s.fromHw [[(0x1000, .status)]]).1 (s.fromHw [[(0x1000, .status)]]).2.1)
      pkts := by
  obtain ⟨pkts, hpkts, hfinal⟩ := userWords_final bufferUser false _
    ⟨initializedChan true fun _ => 0, 0, 0x1000, 64, 4, rfl, by decide, by decide, rfl⟩ 0 ()
    (fun _ => oneWord) [.refill () (fun _ => 0x8000) (fun _ => oneWord), .hwWrite (0x1000, .usrl)] _
    rfl [[(0x1000, .status)]] []
  exact ⟨_, pkts, rfl, by decide +kernel, hpkts, hfinal⟩

end Dma
