import Mathlib.Data.Nat.ModEq
import MyDriver.Xdma.Links
import MyDriver.Xdma.Registration

/-!
# The descriptor space: size, alignment and the two views of it

What `Dma_BdRingCreate` accepts, what `Dma_BdRingAlign` reports, and what `descriptor_init` makes of
both.

* `create_success_iff` — the check that the ring does not span address 0 sees the size modulo `2 ^
  32`.
* `create_contract_iff` — it is therefore complete exactly when the size does not wrap unseen.
* `align_contract_iff` — `Dma_BdRingAlign` stays inside the block when the address is aligned, or
  lies in the first 64 bytes of its 256.
* `views_coincide` — a shift is never used: `descriptor_init` succeeds on aligned blocks only, and
  there both views of the descriptor space are the block as it was allocated.
-/

namespace Dma

open Cyclic

/-! ## `Dma_BdRingCreate` -/

/-- What the parameters of `Dma_BdRingCreate` have to be, the size of the ring apart. -/
structure GoodParams (physAddr virtAddr alignment bdCount : U32) : Prop where
  minimum : bdMinimumAlignment.toNat ≤ alignment.toNat
  power : alignment.toNat.isPowerOfTwo
  phys : alignment.toNat ∣ physAddr.toNat
  virt : alignment.toNat ∣ virtAddr.toNat
  count : 0 < bdCount.toNat

/-- The counters of a ring on which the other functions do nothing. -/
structure Dead (r : BdRing) : Prop where
  allCnt : r.allCnt = 0
  freeCnt : r.freeCnt = 0
  preCnt : r.preCnt = 0
  hwCnt : r.hwCnt = 0
  postCnt : r.postCnt = 0

/-- What `Dma_BdRingCreate` promises. -/
structure CreateContract (c : Chan) (physAddr virtAddr alignment bdCount : U32) : Prop where
  success : (bdRingCreate c physAddr virtAddr alignment bdCount).1 = .success →
    GoodParams physAddr virtAddr alignment bdCount ∧
    virtAddr.toNat + (bdRingCreate c physAddr virtAddr alignment bdCount).2.ring.separation.toNat *
      bdCount.toNat ≤ 2 ^ 32
  failure : (bdRingCreate c physAddr virtAddr alignment bdCount).1 ≠ .success →
    let c' := (bdRingCreate c physAddr virtAddr alignment bdCount).2
    Dead c'.ring ∧ (∀ numBd, numBd ≠ 0 → bdRingAlloc c'.ring numBd = .error .failure) ∧
    (∀ rd bdLimit, (bdRingFromHw c'.ring rd bdLimit).1 = 0) ∧
    (bdRingStart c').1 = .dmaSgNoList

/-- The size of the ring wraps to one that seems to fit. -/
def WrapsUnseen (virtAddr separation bdCount : U32) : Prop :=
  2 ^ 32 < virtAddr.toNat + separation.toNat * bdCount.toNat ∧
    if separation.toNat * bdCount.toNat % 2 ^ 32 = 0 then virtAddr = 0
    else virtAddr.toNat + separation.toNat * bdCount.toNat % 2 ^ 32 ≤ 2 ^ 32

section Create

variable {c : Chan} {physAddr virtAddr alignment bdCount : U32}

theorem powerOfTwo_iff {a : U32} (hpos : 0 < a.toNat) :
    ¬ Flag (a - 1) a ↔ a.toNat.isPowerOfTwo := by
  have hpred : (a - 1).toNat = a.toNat - 1 := toNat_sub_cnt (show 1 ≤ a.toNat from hpos)
  rw [← Nat.and_sub_one_eq_zero_iff_isPowerOfTwo hpos.ne', Flag, not_not, ← hpred,
    ← BitVec.toNat_and, BitVec.and_comm]
  exact cnt_eq_zero

theorem mod_eq_zero_iff {a b : U32} : b % a = 0 ↔ a.toNat ∣ b.toNat := by
  rw [cnt_eq_zero, BitVec.toNat_umod, Nat.dvd_iff_mod_eq_zero]

/-- **The check for address 0**, which is made of wrapping operations. -/
theorem not_spans_iff (virtAddr separation bdCount : U32) :
    ¬ virtAddr + separation * bdCount - 1 < virtAddr ↔
      if separation.toNat * bdCount.toNat % 2 ^ 32 = 0 then virtAddr = 0
      else virtAddr.toNat + separation.toNat * bdCount.toNat % 2 ^ 32 ≤ 2 ^ 32 := by
  have hv := virtAddr.isLt
  have hmul : (separation * bdCount).toNat = separation.toNat * bdCount.toNat % 2 ^ 32 :=
    BitVec.toNat_mul ..
  have hlast : (virtAddr + separation * bdCount - 1).toNat =
      (2 ^ 32 - 1 + (virtAddr.toNat + separation.toNat * bdCount.toNat % 2 ^ 32) % 2 ^ 32) %
        2 ^ 32 := by
    rw [BitVec.toNat_sub, BitVec.toNat_add, hmul]
    rfl
  have hlt := Nat.mod_lt (separation.toNat * bdCount.toNat) (show 0 < 2 ^ 32 by decide)
  rw [not_lt_cnt, hlast]
  generalize separation.toNat * bdCount.toNat % 2 ^ 32 = size at *
  split_ifs with hzero
  · rw [cnt_eq_zero, hzero]
    omega
  · omega

/-- **What is accepted.** -/
theorem create_success_iff :
    (bdRingCreate c physAddr virtAddr alignment bdCount).1 = .success ↔
      GoodParams physAddr virtAddr alignment bdCount ∧
      ¬ virtAddr + bdSeparation alignment * bdCount - 1 < virtAddr := by
  unfold bdRingCreate
  dsimp only
  constructor
  · intro hok
    split_ifs at hok with hmin hpow halign hcnt hspan
    have hge : bdMinimumAlignment.toNat ≤ alignment.toNat := not_lt_cnt.1 hmin
    rw [not_or, not_not, not_not] at halign
    refine ⟨⟨hge, (powerOfTwo_iff ?_).1 hpow, mod_eq_zero_iff.1 halign.1,
      mod_eq_zero_iff.1 halign.2, ?_⟩, hspan⟩
    · exact lt_of_lt_of_le (by decide) hge
    · exact Nat.pos_of_ne_zero fun hzero => hcnt (cnt_eq_zero.2 hzero)
  · rintro ⟨hgood, hspan⟩
    have hpos : 0 < alignment.toNat := lt_of_lt_of_le (by decide) hgood.minimum
    rw [if_neg (not_lt_cnt.2 hgood.minimum), if_neg ((powerOfTwo_iff hpos).2 hgood.power), if_neg,
      if_neg (fun hzero => hgood.count.ne' (cnt_eq_zero.1 hzero)), if_neg hspan]
    rw [not_or, not_not, not_not]
    exact ⟨mod_eq_zero_iff.2 hgood.phys, mod_eq_zero_iff.2 hgood.virt⟩

theorem GoodParams.separation (h : GoodParams physAddr virtAddr alignment bdCount) :
    bdSeparation alignment = alignment :=
  bdSeparation_eq (not_lt_cnt.2 h.minimum)
    ((powerOfTwo_iff (lt_of_lt_of_le (by decide) h.minimum)).2 h.power)

/-- A ring that is not created is dead. -/
theorem create_failure
    (hfail : (bdRingCreate c physAddr virtAddr alignment bdCount).1 ≠ .success) :
    Dead (bdRingCreate c physAddr virtAddr alignment bdCount).2.ring := by
  unfold bdRingCreate at hfail ⊢
  dsimp only at hfail ⊢
  split_ifs at hfail ⊢
  all_goals first | exact absurd rfl hfail | exact ⟨rfl, rfl, rfl, rfl, rfl⟩

end Create

namespace Dead

variable {c : Chan} {r : BdRing}

theorem alloc (h : Dead r) {numBd : U32} (hpos : numBd ≠ 0) :
    bdRingAlloc r numBd = .error .failure := by
  rw [bdRingAlloc, if_pos]
  rw [h.freeCnt, BitVec.lt_def]
  exact Nat.pos_of_ne_zero fun hzero => hpos (cnt_eq_zero.2 hzero)

theorem fromHw (h : Dead r) (rd : ℕ → Mem) (bdLimit : U32) :
    (bdRingFromHw r rd bdLimit).1 = 0 := by
  rw [bdRingFromHw, if_pos h.hwCnt]

theorem start (h : Dead c.ring) : (bdRingStart c).1 = .dmaSgNoList := by
  rw [bdRingStart, if_pos h.allCnt]

end Dead

/-- **The contract is kept** exactly when the parameters are refused for another reason, or the size
does not wrap to one that seems to fit. -/
theorem create_contract_iff (c : Chan) (physAddr virtAddr alignment bdCount : U32) :
    CreateContract c physAddr virtAddr alignment bdCount ↔
      (GoodParams physAddr virtAddr alignment bdCount →
        ¬ WrapsUnseen virtAddr alignment bdCount) := by
  constructor
  · rintro hcontract hgood ⟨hpast, hseems⟩
    have hok : (bdRingCreate c physAddr virtAddr alignment bdCount).1 = .success :=
      create_success_iff.2 ⟨hgood, by rw [hgood.separation, not_spans_iff]; exact hseems⟩
    have hfits := (hcontract.success hok).2
    rw [(create_success hok).2.2.2] at hfits
    exact absurd hpast (not_lt.2 hfits)
  · intro hseen
    refine ⟨fun hok => ?_, fun hfail => ?_⟩
    · obtain ⟨hgood, hspan⟩ := create_success_iff.1 hok
      refine ⟨hgood, ?_⟩
      rw [hgood.separation, not_spans_iff] at hspan
      rw [(create_success hok).2.2.2]
      exact not_lt.1 fun hpast => hseen hgood ⟨hpast, hspan⟩
    · have hdead := create_failure hfail
      exact ⟨hdead, fun _ => hdead.alloc, hdead.fromHw, hdead.start⟩

/-- `2 ^ 26 + 1` BDs of 64 bytes: the ring passes for one of 64 bytes. -/
theorem wraps_unseen : ¬ CreateContract (initializedChan false fun _ => 0) 0 0 64 0x04000001 := by
  rw [create_contract_iff, Classical.not_imp, not_not]
  exact ⟨⟨by decide, ⟨6, rfl⟩, by decide, by decide, by decide⟩, by unfold WrapsUnseen; decide⟩

/-! ## `Dma_BdRingAlign` -/

/-- What `Dma_BdRingAlign` reports is a shift by less than one BD, after which the BDs are aligned
and lie inside the block. -/
structure AlignContract (allocPtr size : U32) : Prop where
  aligned : 64 ∣ allocPtr.toNat + (bdRingAlign allocPtr size bdMinimumAlignment 0).2.toNat
  small : (bdRingAlign allocPtr size bdMinimumAlignment 0).2.toNat < 64
  inside : (bdRingAlign allocPtr size bdMinimumAlignment 0).2.toNat +
    64 * (bdRingAlign allocPtr size bdMinimumAlignment 0).1.toNat ≤ size.toNat

section Align

variable {allocPtr size : U32}

theorem toNat_mod_bd (a : U32) : (a % (4 * bdSwNumWords)).toNat = a.toNat % 64 := by
  rw [BitVec.toNat_umod]
  rfl

theorem toNat_div_bd (a : U32) : (a / (4 * bdSwNumWords)).toNat = a.toNat / 64 := by
  rw [BitVec.toNat_udiv]
  rfl

/-- The mask of the source covers four BDs. -/
theorem toNat_shift (allocPtr : U32) :
    (4 * bdSwNumWords - (allocPtr &&& 0xFF)).toNat =
      (2 ^ 32 - allocPtr.toNat % 256 + 64) % 2 ^ 32 := by
  have hmask : (allocPtr &&& 0xFF).toNat = allocPtr.toNat % 256 := by
    rw [BitVec.toNat_and]
    exact Nat.and_two_pow_sub_one_eq_mod allocPtr.toNat 8
  rw [BitVec.toNat_sub, hmask]
  rfl

theorem align_args (hne : allocPtr ≠ 0) (hsize : 64 ≤ size.toNat) :
    ¬ (allocPtr = 0 ∨ size = 0 ∨ size < bdMinimumAlignment) := by
  rw [not_or, not_or, not_lt_cnt, cnt_eq_zero (a := size)]
  exact ⟨hne, by omega, hsize⟩

/-- An aligned address is not shifted. -/
theorem align_aligned (hne : allocPtr ≠ 0) (hsize : 64 ≤ size.toNat)
    (haligned : allocPtr.toNat % 64 = 0) :
    bdRingAlign allocPtr size bdMinimumAlignment 0 = (size / (4 * bdSwNumWords), 0) := by
  have hmod : allocPtr % (4 * bdSwNumWords) = 0 := by
    rw [cnt_eq_zero, toNat_mod_bd, haligned]
  rw [bdRingAlign, if_neg (align_args hne hsize)]
  dsimp only
  rw [if_neg (not_not.2 hmod)]

/-- Any other is shifted by what its last byte asks for. -/
theorem align_shifted (hne : allocPtr ≠ 0) (hsize : 64 ≤ size.toNat)
    (hshift : allocPtr.toNat % 64 ≠ 0) :
    bdRingAlign allocPtr size bdMinimumAlignment 0 =
      ((size - (4 * bdSwNumWords - (allocPtr &&& 0xFF))) / (4 * bdSwNumWords),
        4 * bdSwNumWords - (allocPtr &&& 0xFF)) := by
  have hmod : allocPtr % (4 * bdSwNumWords) ≠ 0 := by
    rw [ne_eq, cnt_eq_zero, toNat_mod_bd]
    exact hshift
  rw [bdRingAlign, if_neg (align_args hne hsize)]
  dsimp only
  rw [if_pos hmod]

end Align

/-- **The shift stays inside the block** exactly when the address is aligned, or less than 64 bytes
above a multiple of 256: further above, the difference of the source wraps. -/
theorem align_contract_iff (allocPtr size : U32) (hne : 0 < allocPtr) (hsize : 128 ≤ size.toNat)
    (hfits : allocPtr.toNat + size.toNat ≤ 2 ^ 32) :
    AlignContract allocPtr size ↔ allocPtr.toNat % 64 = 0 ∨ allocPtr.toNat % 256 < 64 := by
  have hne' : allocPtr ≠ 0 := by
    rintro rfl
    exact absurd hne (by decide)
  by_cases haligned : allocPtr.toNat % 64 = 0
  · have heq : bdRingAlign allocPtr size bdMinimumAlignment 0 = _ :=
      align_aligned hne' (by omega) haligned
    refine ⟨fun _ => Or.inl haligned, fun _ => ⟨?_, ?_, ?_⟩⟩
    · rw [heq]
      exact Nat.dvd_of_mod_eq_zero haligned
    · rw [heq]
      exact show (0 : U32).toNat < 64 by decide
    · rw [heq, toNat_div_bd]
      show 0 + 64 * (size.toNat / 64) ≤ size.toNat
      omega
  · have heq : bdRingAlign allocPtr size bdMinimumAlignment 0 = _ :=
      align_shifted hne' (by omega) haligned
    have hshift := toNat_shift allocPtr
    constructor
    · intro hcontract
      have hsmall := hcontract.small
      rw [heq, hshift] at hsmall
      right
      omega
    · rintro (hzero | hlow)
      · exact absurd hzero haligned
      · have hdelta : (4 * bdSwNumWords - (allocPtr &&& 0xFF)).toNat =
            64 - allocPtr.toNat % 256 := by omega
        refine ⟨?_, ?_, ?_⟩
        · rw [heq, hdelta]
          omega
        · rw [heq, hdelta]
          omega
        · have hle : (4 * bdSwNumWords - (allocPtr &&& 0xFF)).toNat ≤ size.toNat := by omega
          rw [heq, toNat_div_bd, toNat_sub_cnt hle, hdelta]
          omega

theorem align_contract_iff_shifted : AlignContract 0x10010 1024 :=
  (align_contract_iff 0x10010 1024 (by decide) (by decide) (by decide)).2 (by decide)

/-- A block of 1024 bytes at `0x10090` fits, and the shift goes back, out of it. -/
theorem shifts_back : 0 < (0x10090 : U32) ∧ 128 ≤ (1024 : U32).toNat ∧
    (0x10090 : U32).toNat + (1024 : U32).toNat ≤ 2 ^ 32 ∧ ¬ AlignContract 0x10090 1024 :=
  ⟨by decide, by decide, by decide, fun hcontract => absurd hcontract.small (by decide)⟩

/-! ## `descriptor_init` and `descriptor_free` -/

section Init

variable {υ : Type} {user : UserPtrs υ} {thBhIsr : Bool} {bus : ℕ → U32} {va pa : U32}
  {e e' : DmaEngine υ} {evs : List SpaceEv}

/-- The shift of the CPU address counts words, so that it never aligns a block. -/
theorem word_shift_mod {a delta : ℕ} (hdelta : delta = (2 ^ 32 - a % 256 + 64) % 2 ^ 32)
    (haligned : (a + 4 * delta) % 64 = 0) : a % 64 = 0 := by
  omega

/-- What a success of `descriptor_init` rests on. -/
theorem init_created
    (hok : descriptorInit user thBhIsr bus (some (va, pa)) e = (true, e', evs)) :
    va ≠ 0 ∧ (bdRingCreate e.dev.chan (pa + (bdRingAlign va dftsize bdMinimumAlignment 0).2)
      (va + 4 * (bdRingAlign va dftsize bdMinimumAlignment 0).2) bdMinimumAlignment
      (bdRingAlign va dftsize bdMinimumAlignment 0).1).1 = .success := by
  unfold descriptorInit at hok
  dsimp only at hok
  constructor
  · rintro rfl
    rw [if_pos (by decide)] at hok
    cases congrArg Prod.fst hok
  · by_contra hfail
    split_ifs at hok
    · cases congrArg Prod.fst hok
    · cases congrArg Prod.fst hok
    · cases congrArg Prod.fst hok

/-- **`descriptor_init` succeeds on proper blocks only.** -/
theorem properBlock_of_init
    (hok : descriptorInit user thBhIsr bus (some (va, pa)) e = (true, e', evs)) :
    ProperBlock va pa := by
  have hsize : 64 ≤ dftsize.toNat := by decide
  obtain ⟨hne, hcreate⟩ := init_created hok
  obtain ⟨hgood, hspan⟩ := create_success_iff.1 hcreate
  by_cases haligned : va.toNat % 64 = 0
  · have hvaddr : va + 4 * 0 = va := by simp
    have hpaddr : pa + 0 = pa := by simp
    have hprod : bdMinimumAlignment.toNat * (dftsize / (4 * bdSwNumWords)).toNat = dftsize.toNat := by
      decide
    rw [align_aligned hne hsize haligned] at hgood hspan
    dsimp only at hgood hspan
    rw [hvaddr, hpaddr] at hgood
    rw [hvaddr, hgood.separation, not_spans_iff, hprod, if_neg (by decide)] at hspan
    exact ⟨hne, mod_eq_zero_iff.2 hgood.virt, mod_eq_zero_iff.2 hgood.phys, hspan⟩
  · -- A shift of words leaves the CPU address where no BD may be.
    have hvirt := hgood.virt
    rw [align_shifted hne hsize haligned] at hvirt
    dsimp only at hvirt
    have hdelta := toNat_shift va
    have hmul : (4 * (4 * bdSwNumWords - (va &&& 0xFF))).toNat =
        4 * (4 * bdSwNumWords - (va &&& 0xFF)).toNat % 2 ^ 32 := BitVec.toNat_mul ..
    refine absurd (word_shift_mod hdelta ?_) haligned
    have hmin : bdMinimumAlignment.toNat = 64 := rfl
    rw [BitVec.toNat_add, hmul, hmin] at hvirt
    omega

end Init

/-- **The two views coincide.** On any block on which `descriptor_init` succeeds, every BD of the
new ring is at one offset from the start of the block for the CPU and for the bus, and ends inside
the block; and what `descriptor_free` gives back later, whatever has happened to the ring and to the
state of the engine, is the block as it was allocated. -/
theorem views_coincide {υ : Type} (user : UserPtrs υ) (thBhIsr : Bool) (bus : ℕ → U32) (va pa : U32)
    (e e' : DmaEngine υ) (evs : List SpaceEv)
    (hok : descriptorInit user thBhIsr bus (some (va, pa)) e = (true, e', evs)) :
    (∀ k, ∃ offset : U32, bdAt e'.dev.chan.ring k = va + offset ∧
      virtToPhys e'.dev.chan.ring (bdAt e'.dev.chan.ring k) = pa + offset ∧
      offset.toNat + 64 ≤ dftsize.toNat) ∧
    ∀ (dev : Dev υ) (engineState : DmaState),
      descriptorFreeSpace { e' with dev := dev, engineState := engineState } =
        [.free va pa dftsize] := by
  have hproper := properBlock_of_init hok
  obtain ⟨e₁, n, heq, howns, hring, -, hbase⟩ := hproper.descriptorInit user thBhIsr bus e
  have he : e' = e₁ := by
    rw [hok] at heq
    exact congrArg (fun x => x.2.1) heq
  subst he
  constructor
  · intro k
    obtain ⟨hmade, -⟩ := hproper.create e.dev.chan
    have hseparation : e'.dev.chan.ring.base.separation = bdMinimumAlignment := by
      rw [hbase, (create_success hmade).2.2.2]
      rfl
    have hphys : e'.dev.chan.ring.base.firstBdPhysAddr = pa := by
      rw [hbase, (create_success hmade).2.2.2]
      rfl
    have hplace := Nat.mod_lt k (show 0 < (dmaBdCnt + 1).toNat by decide)
    have hcnt : (dmaBdCnt + 1).toNat < 2 ^ 26 := by decide
    have hsize : dftsize.toNat = 64 * (dmaBdCnt + 1).toNat := by decide
    refine ⟨bdMinimumAlignment * BitVec.ofNat 32 (k % (dmaBdCnt + 1).toNat), ?_, ?_, ?_⟩
    · rw [bdAt, hring.firstBdAddr, hring.allCnt]
      exact congrArg (fun x => va + x * _) hseparation
    · rw [virtToPhys_bdAt, hring.allCnt]
      exact congrArg₂ (fun x y => x + y * _) hphys hseparation
    · rw [BitVec.toNat_mul, toNat_ofNat_cnt (by omega)]
      show 64 * (k % (dmaBdCnt + 1).toNat) % 2 ^ 32 + 64 ≤ dftsize.toNat
      omega
  · intro dev engineState
    have howns' : Owns va pa { e' with dev := dev, engineState := engineState } :=
      ⟨howns.pa, howns.va, howns.size, howns.delta⟩
    exact howns'.descriptorFreeSpace hproper.ne

theorem views_coincide_lowBlock : ∃ e' evs,
    descriptorInit (rxUser 9) false (fun _ => 0) (some (0x10000, 0x8000)) freshEngine =
      (true, e', evs) ∧
    (∀ k, ∃ offset : U32, bdAt e'.dev.chan.ring k = 0x10000 + offset ∧
      virtToPhys e'.dev.chan.ring (bdAt e'.dev.chan.ring k) = 0x8000 + offset ∧
      offset.toNat + 64 ≤ dftsize.toNat) ∧
    descriptorFreeSpace e' = [.free 0x10000 0x8000 dftsize] := by
  have hproper : ProperBlock 0x10000 0x8000 := by decide
  obtain ⟨e', n, heq, -⟩ := hproper.descriptorInit (rxUser 9) false (fun _ => 0) freshEngine
  obtain ⟨hbds, hfree⟩ := views_coincide _ _ _ _ _ _ _ _ heq
  exact ⟨e', _, heq, hbds, hfree e'.dev e'.engineState⟩

end Dma
