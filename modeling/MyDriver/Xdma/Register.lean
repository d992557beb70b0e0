import MyDriver.Lib.Ledger
import MyDriver.Xdma.Settled

/-!
# Registration: `DmaRegister`, `DmaUnregister`, `descriptor_init` and `descriptor_free`

An engine with the descriptor space it owns, and the functions that get and give back that space,
cut into the parts that run under `DmaLock` and those that do not. What `pci_alloc_consistent`
returns is a parameter (`none` for `NULL`). Each part returns the calls it made to the allocator
and the uses it made of the ring, as a list of `SpaceEv`.

* `ProperBlock.registerLocked` — given a block, the locked section of `DmaRegister` leaves a started
  ring in it.
* `Owns.descriptorFreeSpace` — the block that `descriptor_free` gives back is that one.
-/

namespace Dma

open Cyclic Ledger

variable {υ : Type}

/-! ## Engines -/

/-- `Dma_Engine`: the descriptor space is what `descriptor_free` goes by. -/
structure DmaEngine (υ : Type) where
  dev : Dev υ
  engineState : DmaState
  descSpacePA : U32
  descSpaceVA : U32
  descSpaceSize : U32
  delta : U32

/-- The calls to the allocator of descriptor space, and the operations on a ring that lies at
`firstBdAddr`. -/
inductive SpaceEv where
  | alloc (va pa size : U32)
  | free (va pa size : U32)
  | use (firstBdAddr : U32)
deriving DecidableEq

/-- An operation on a ring, if there is a ring. -/
def ringUse (r : BdRing) : List SpaceEv := if r.allCnt = 0 then [] else [.use r.firstBdAddr]

/-- `Dma_mEngIntEnable` -/
def engIntEnable (c : Chan) : Chan :=
  if c.ring.runState = .dmaSgIsStarted then
    { c with regs := setCrSr c.regs (getCrSr c.regs ||| engIntEnableBit) }
  else c

/-- `Dma_Reset`, when both resets complete. -/
def dmaReset (c : Chan) : Chan :=
  let g := engIntDisable c.regs
  let g := setCrSr g engUserReset
  let g := { g with ctrlStatus := g.ctrlStatus &&& ~~~engStateMask }
  let g := setCrSr g engReset
  { c with
    regs := if Flag (getCrSr g) engIntActiveMask then engIntAck g (getCrSr g &&& engAllintMask)
      else g
    ring := { c.ring with runState := .dmaSgIsStopped } }

/-! ## Registration -/

/-- `dftsize` -/
def dftsize : U32 := 4 * bdSwNumWords * (dmaBdCnt + 1)

/-- Whether `descriptor_init` succeeds, with the engine it leaves. `BdPtr + delta` adds words. -/
def descriptorInit (user : UserPtrs υ) (thBhIsr : Bool) (bus : ℕ → U32)
    (block : Option (U32 × U32)) (e : DmaEngine υ) : Bool × DmaEngine υ × List SpaceEv :=
  match block with
  | none => (false, e, [])
  | some (bdPtr, bdPhyAddr) =>
    let align := bdRingAlign bdPtr dftsize bdMinimumAlignment 0
    let got := [SpaceEv.alloc bdPtr bdPhyAddr dftsize]
    -- The block is not given back here.
    if align.1.toInt ≤ 0 then (false, e, got)
    else
      let e := { e with
        descSpacePA := bdPhyAddr + align.2
        descSpaceVA := bdPtr + 4 * align.2
        descSpaceSize := dftsize - align.2
        delta := align.2 }
      if e.descSpaceVA = 0 then (false, e, got)
      else
        let made := bdRingCreate e.dev.chan e.descSpacePA e.descSpaceVA bdMinimumAlignment align.1
        let e := { e with dev := { e.dev with chan := made.2 } }
        if made.1 ≠ .success then (false, e, got)
        else if e.dev.chan.ring.isRxChannel then
          (true, { e with dev := (setupRecvBuffers user thBhIsr bus e.dev).1 },
            got ++ ringUse e.dev.chan.ring)
        else (true, e, got)

/-- The locked section of `DmaRegister`: whether it returns the handle, and the engine. -/
def registerLocked (user : UserPtrs υ) (thBhIsr : Bool) (bus : ℕ → U32)
    (block : Option (U32 × U32)) (e : DmaEngine υ) : Bool × DmaEngine υ × List SpaceEv :=
  -- A failure of `descriptor_init` is logged only.
  let init := descriptorInit user thBhIsr bus block e
  let e := { init.2.1 with engineState := .userAssigned }
  let start := bdRingStart e.dev.chan
  let e := { e with dev := { e.dev with chan := start.2 } }
  let evs := init.2.2 ++ ringUse e.dev.chan.ring
  if start.1 = .failure then (false, e, evs)
  else if thBhIsr then
    (true, { e with dev := { e.dev with chan := engIntEnable e.dev.chan } }, evs)
  else (true, e, evs)

/-! ## Unregistration -/

/-- The first locked section of `DmaUnregister`. -/
def unregisterReset (e : DmaEngine υ) : DmaEngine υ :=
  { e with
    engineState := .unregistering
    dev := { e.dev with chan := dmaReset e.dev.chan } }

/-- The end of `descriptor_free`. -/
def descriptorFreeSpace (e : DmaEngine υ) : List SpaceEv :=
  if e.descSpaceVA = 0 then []
  else [.free (e.descSpaceVA - 4 * e.delta) (e.descSpacePA - e.delta) (e.descSpaceSize + e.delta)]

/-- The last locked section of `DmaUnregister`. -/
def unregisterDone (e : DmaEngine υ) : DmaEngine υ := { e with engineState := .initialized }

/-! ## Books of descriptor space -/

/-- Both addresses and the size of a block. -/
abbrev SpaceKey := U32 × U32 × U32

def spaceEntry : SpaceEv → Option (Entry SpaceKey)
  | .alloc va pa size => some (.opens (va, pa, size))
  | .free va pa size => some (.closes (va, pa, size))
  | .use _ => none

/-- The space that has not been given back; `none` when something was given back that was not
obtained, or given back twice. -/
def spaces (evs : List SpaceEv) : Option (Multiset SpaceKey) := settle 0 (evs.filterMap spaceEntry)

/-- The block at `va`. -/
def blockKey (va pa : U32) : SpaceKey := (va, pa, dftsize)

theorem filterMap_replicate_use (a : U32) (n : ℕ) :
    (List.replicate n (SpaceEv.use a)).filterMap spaceEntry = [] := by
  induction n with
  | zero => rfl
  | succ n ih => exact ih

/-! ## A block of memory -/

/-- What `pci_alloc_consistent` promises of its blocks: they are not at address 0, they are aligned
in both address spaces, and they do not wrap. -/
structure ProperBlock (va pa : U32) : Prop where
  ne : va ≠ 0
  alignVA : va % bdMinimumAlignment = 0
  alignPA : pa % bdMinimumAlignment = 0
  fits : va.toNat + dftsize.toNat ≤ 2 ^ 32

instance (va pa : U32) : Decidable (ProperBlock va pa) :=
  decidable_of_iff (va ≠ 0 ∧ va % bdMinimumAlignment = 0 ∧ pa % bdMinimumAlignment = 0 ∧
      va.toNat + dftsize.toNat ≤ 2 ^ 32)
    ⟨fun ⟨h1, h2, h3, h4⟩ => ⟨h1, h2, h3, h4⟩, fun h => ⟨h.ne, h.alignVA, h.alignPA, h.fits⟩⟩

variable {va pa : U32}

/-- No alignment is needed. -/
theorem ProperBlock.align (h : ProperBlock va pa) :
    bdRingAlign va dftsize bdMinimumAlignment 0 = (dmaBdCnt + 1, 0) := by
  have hva : va % (4 * bdSwNumWords) = 0 := h.alignVA
  have hne : ¬ (va = 0 ∨ dftsize = 0 ∨ dftsize < bdMinimumAlignment) := by
    rw [not_or]
    exact ⟨h.ne, by decide⟩
  rw [bdRingAlign, if_neg hne]
  dsimp only
  rw [if_neg (not_not.2 hva)]
  decide

/-- `Dma_BdRingCreate` succeeds on the block, and the ring fits. -/
theorem ProperBlock.create (h : ProperBlock va pa) (c : Chan) :
    (bdRingCreate c pa va bdMinimumAlignment (dmaBdCnt + 1)).1 = .success ∧
    Fits va (bdRingCreate c pa va bdMinimumAlignment (dmaBdCnt + 1)).2.ring.separation
      (dmaBdCnt + 1) := by
  have hok : (bdRingCreate c pa va bdMinimumAlignment (dmaBdCnt + 1)).1 = .success := by
    have hfits := h.fits
    have hspan : ¬ va + bdSeparation bdMinimumAlignment * (dmaBdCnt + 1) - 1 < va := by
      have hprod : bdSeparation bdMinimumAlignment * (dmaBdCnt + 1) = dftsize := by decide
      have hlast : va + dftsize - 1 = va + (dftsize - 1) := by ring
      have hsize : (dftsize - 1).toNat = dftsize.toNat - 1 := by decide
      have hpos : 0 < dftsize.toNat := by decide
      rw [hprod, hlast, not_lt_cnt, toNat_add_cnt (by omega)]
      exact Nat.le_add_right _ _
    unfold bdRingCreate
    dsimp only
    rw [if_neg (by decide), if_neg (by decide), if_neg, if_neg (by decide), if_neg hspan]
    rw [not_or, not_not, not_not]
    exact ⟨h.alignPA, h.alignVA⟩
  refine ⟨hok, ?_⟩
  rw [(create_success hok).2.2.2, Fits]
  have hfits := h.fits
  have hprod : bdMinimumAlignment.toNat * (dmaBdCnt + 1).toNat = dftsize.toNat := by decide
  dsimp only
  omega

/-- The engine owns the block. -/
structure Owns (va pa : U32) (e : DmaEngine υ) : Prop where
  pa : e.descSpacePA = pa
  va : e.descSpaceVA = va
  size : e.descSpaceSize = dftsize
  delta : e.delta = 0

theorem Owns.descriptorFreeSpace {e : DmaEngine υ} (h : Owns va pa e) (hne : va ≠ 0) :
    descriptorFreeSpace e = [.free va pa dftsize] := by
  rw [Dma.descriptorFreeSpace, h.va, h.pa, h.size, h.delta, if_neg hne]
  simp

/-- The ring of an engine lies in the block at `va`, and nothing is held back. -/
structure RingIn (va : U32) (c : Chan) : Prop where
  settled : ∃ g, Settled c g
  firstBdAddr : c.ring.firstBdAddr = va
  allCnt : c.ring.allCnt = dmaBdCnt + 1

theorem RingIn.move {c c' : Chan} (h : RingIn va c) (hs : ∃ g, Settled c' g)
    (hblock : c'.ring.block = c.ring.block) : RingIn va c' := by
  have hfirst : c'.ring.block.firstBdAddr = c.ring.block.firstBdAddr := by rw [hblock]
  have hcnt : c'.ring.block.allCnt = c.ring.block.allCnt := by rw [hblock]
  exact ⟨hs, hfirst.trans h.firstBdAddr, hcnt.trans h.allCnt⟩

theorem RingIn.use {c : Chan} (h : RingIn va c) : ringUse c.ring = [.use va] := by
  rw [ringUse, h.allCnt, h.firstBdAddr, if_neg (by decide)]

/-- Changing the run state and the registers moves no BD. -/
theorem Settled.withRunState {c : Chan} {g : Split} (h : Settled c g) (x : XStatus) (regs : Regs) :
    Settled { c with ring := { c.ring with runState := x }, regs := regs } g :=
  ⟨{ h.parts with laid := { h.parts.laid with } }, h.post, h.pre, h.room⟩

theorem RingIn.reset {c : Chan} (h : RingIn va c) : RingIn va (dmaReset c) := by
  obtain ⟨g, hs⟩ := h.settled
  exact ⟨⟨g, hs.withRunState .dmaSgIsStopped _⟩, h.firstBdAddr, h.allCnt⟩

/-! ## The locked sections -/

/-- A new ring, before it is filled. -/
theorem ProperBlock.ringIn (h : ProperBlock va pa) (c : Chan) :
    RingIn va (bdRingCreate c pa va bdMinimumAlignment (dmaBdCnt + 1)).2 ∧
    (bdRingCreate c pa va bdMinimumAlignment (dmaBdCnt + 1)).2.ring.runState = .dmaSgIsStopped := by
  obtain ⟨hok, hfits⟩ := h.create c
  refine ⟨⟨⟨_, create_parts hok hfits, rfl, rfl, Or.inl rfl⟩, ?_, ?_⟩, ?_⟩
  all_goals rw [(create_success hok).2.2.2]

/-- **`descriptor_init` on a proper block.** -/
theorem ProperBlock.descriptorInit (h : ProperBlock va pa) (user : UserPtrs υ) (thBhIsr : Bool)
    (bus : ℕ → U32) (e : DmaEngine υ) :
    ∃ e' k, descriptorInit user thBhIsr bus (some (va, pa)) e =
        (true, e', .alloc va pa dftsize :: List.replicate k (.use va)) ∧
      Owns va pa e' ∧ RingIn va e'.dev.chan ∧
      e'.dev.chan.ring.runState = .dmaSgIsStopped ∧
      e'.dev.chan.ring.base =
        (bdRingCreate e.dev.chan pa va bdMinimumAlignment (dmaBdCnt + 1)).2.ring.base := by
  obtain ⟨hok, -⟩ := h.create e.dev.chan
  obtain ⟨hring, hstop⟩ := h.ringIn e.dev.chan
  have hvaddr : va + 4 * 0 = va := by simp
  have hpaddr : pa + 0 = pa := by simp
  unfold Dma.descriptorInit
  dsimp only
  rw [h.align]
  dsimp only
  rw [if_neg (by decide), hvaddr, hpaddr, if_neg h.ne, if_neg (not_not.2 hok)]
  have howns : ∀ dev : Dev υ, Owns va pa { e with
      dev := dev, descSpacePA := pa, descSpaceVA := va, descSpaceSize := dftsize - 0
      delta := 0 } := fun _ => ⟨rfl, rfl, by simp, rfl⟩
  by_cases hrx : (bdRingCreate e.dev.chan pa va bdMinimumAlignment
      (dmaBdCnt + 1)).2.ring.isRxChannel = true
  · rw [if_pos hrx, hring.use]
    obtain ⟨g, hs⟩ := hring.settled
    obtain ⟨g', hs', hbase, -⟩ := Settled.setupRecv user thBhIsr
      (P := fun _ _ _ => True) (fun _ _ _ _ _ _ _ _ _ _ _ => trivial)
      (d := { e.dev with
        chan := (bdRingCreate e.dev.chan pa va bdMinimumAlignment (dmaBdCnt + 1)).2 })
      hs hrx bus trivial
    refine ⟨_, 1, rfl, howns _, hring.move ⟨g', hs'⟩ (block_of_base hbase), ?_, hbase⟩
    have hrun : ∀ r r' : BdRing, r'.base = r.base → r'.runState = r.runState := fun r r' hb => by
      have hrun : r'.base.runState = r.base.runState := by rw [hb]
      exact hrun
    rw [hrun _ _ hbase]
    exact hstop
  · rw [if_neg hrx]
    exact ⟨_, 0, rfl, howns _, hring, hstop, rfl⟩

/-- A stopped ring is started. -/
theorem RingIn.start {c : Chan} (h : RingIn va c) (hstop : c.ring.runState = .dmaSgIsStopped) :
    (bdRingStart c).1 = .success ∧ RingIn va (bdRingStart c).2 ∧
      (bdRingStart c).2.ring.runState = .dmaSgIsStarted := by
  obtain ⟨g, hs⟩ := h.settled
  have hcnt : c.ring.allCnt ≠ 0 := by rw [h.allCnt]; decide
  rw [bdRingStart, if_neg hcnt, if_neg (by rw [hstop]; decide)]
  exact ⟨rfl, ⟨⟨g, hs.withRunState .dmaSgIsStarted _⟩, h.firstBdAddr, h.allCnt⟩, rfl⟩

theorem RingIn.intEnable {c : Chan} (h : RingIn va c) :
    RingIn va (engIntEnable c) ∧ (engIntEnable c).ring.runState = c.ring.runState := by
  rw [engIntEnable]
  split_ifs
  · obtain ⟨g, hs⟩ := h.settled
    exact ⟨⟨⟨g, hs.parts, hs.post, hs.pre, hs.room⟩, h.firstBdAddr, h.allCnt⟩, rfl⟩
  · exact ⟨h, rfl⟩

/-- **The locked section of `DmaRegister` on a proper block.** -/
theorem ProperBlock.registerLocked (h : ProperBlock va pa) (user : UserPtrs υ) (thBhIsr : Bool)
    (bus : ℕ → U32) (e : DmaEngine υ) :
    ∃ e' k, registerLocked user thBhIsr bus (some (va, pa)) e =
        (true, e', .alloc va pa dftsize :: List.replicate k (.use va)) ∧
      e'.engineState = .userAssigned ∧ Owns va pa e' ∧ RingIn va e'.dev.chan ∧
      e'.dev.chan.ring.runState = .dmaSgIsStarted := by
  obtain ⟨e₁, k, heq, howns, hring, hstop, -⟩ := h.descriptorInit user thBhIsr bus e
  obtain ⟨hok, hring', hstart⟩ := hring.start hstop
  obtain ⟨hring'', hsame⟩ := hring'.intEnable
  unfold Dma.registerLocked
  rw [heq]
  dsimp only
  rw [hok, if_neg (by decide), hring'.use, List.cons_append, ← List.replicate_succ']
  cases thBhIsr with
  | true =>
    rw [if_pos rfl]
    exact ⟨_, k + 1, rfl, rfl, ⟨howns.pa, howns.va, howns.size, howns.delta⟩, hring'',
      hsame.trans hstart⟩
  | false =>
    rw [if_neg Bool.false_ne_true]
    exact ⟨_, k + 1, rfl, rfl, ⟨howns.pa, howns.va, howns.size, howns.delta⟩, hring', hstart⟩

end Dma
