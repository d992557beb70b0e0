import Mathlib.Tactic.Ring
import MyDriver.Lcd.Line

/-!
# The view port

The buffer of `LCD_240X320.c` is larger than its panel. `Lcd_Init` shows its first part,
`MoveViewPort` moves the part that is shown, one pixel for each key, and `Lcd_MoveViewPort` gives
its place to the controller. In `LCD_320X240.c` the two sizes are the same, and the part that is
shown cannot be moved.

* `viewPorts_inside` — the part stays inside of the buffer, whatever is typed.
* `viewPort_shows` — **what the panel shows**.
-/

namespace Lcd

variable {tft : Tft}

/-! ## The functions -/

def Tft.lcdXsize : Tft → ℕ
  | .tft320240 => 320
  | .tft240320 => 240

def Tft.lcdYsize : Tft → ℕ
  | .tft320240 => 240
  | .tft240320 => 320

/-- What `MoveViewPort` does with a key, where `vd` is 1. -/
def moveKey (tft : Tft) (ch : Char) (v : ℤ × ℤ) : ℤ × ℤ :=
  if ch = '8' then (if 1 ≤ v.2 then (v.1, v.2 - 1) else v)
  else if ch = '4' then (if 1 ≤ v.1 then (v.1 - 1, v.2) else v)
  else if ch = '6' then
    (if v.1 ≤ (tft.scrXsize : ℤ) - tft.lcdXsize - 1 then (v.1 + 1, v.2) else v)
  else if ch = '2' then
    (if v.2 ≤ (tft.scrYsize : ℤ) - tft.lcdYsize - 1 then (v.1, v.2 + 1) else v)
  else v

/-- The arguments of the calls of `Lcd_MoveViewPort` in `MoveViewPort`. -/
def viewPorts (tft : Tft) : List Char → ℤ × ℤ → List (ℤ × ℤ)
  | [], _ => []
  | ch :: keys, v =>
    if ch = '\r' then [] else moveKey tft ch v :: viewPorts tft keys (moveKey tft ch v)

/-- The lowest 21 bits. -/
def m5d (n : U32) : U32 := n &&& 0x1fffff

/-- The values that `Lcd_MoveViewPort` writes into `rLCDSADDR1` and `rLCDSADDR2`; `bufer` is the
address of `LCD_BUFER`. -/
def lcdMoveViewPort (tft : Tft) (bufer : U32) (vx vy : ℤ) : U32 × U32 :=
  let addr := bufer + BitVec.ofInt 32 (vx * 2) + BitVec.ofInt 32 (vy * (tft.scrXsize * 2))
  ((addr >>> 22) <<< 21 ||| m5d (addr >>> 1),
    m5d ((addr + BitVec.ofNat 32 (tft.scrXsize * tft.lcdYsize * 2)) >>> 1))

/-- The values that `Lcd_Init` writes into the same registers. -/
def lcdInit (tft : Tft) (bufer : U32) : U32 × U32 :=
  ((bufer >>> 22) <<< 21 ||| m5d (bufer >>> 1),
    m5d ((bufer + BitVec.ofNat 32 (tft.scrXsize * tft.lcdYsize * 2)) >>> 1))

/-- The view ports that are set by `Lcd_Init` and then in `MoveViewPort`, each with the values that
are written for it. -/
def portRegs (tft : Tft) (bufer : U32) (keys : List Char) : List ((ℤ × ℤ) × (U32 × U32)) :=
  ((0, 0), lcdInit tft bufer) ::
    (viewPorts tft keys (0, 0)).map fun v => (v, lcdMoveViewPort tft bufer v.1 v.2)

/-- The value that `Lcd_Init` writes into `rLCDSADDR3`. -/
def lcdsaddr3 (tft : Tft) : U32 :=
  BitVec.ofNat 32 (tft.scrXsize - tft.lcdXsize) <<< 11 ||| BitVec.ofNat 32 tft.lcdXsize

/-- The half-word that the controller shows in column `x` of row `y`: a row has `PAGEWIDTH`
half-words, `OFFSIZE` lie between two rows. -/
def shownAt (lcdsaddr1 lcdsaddr3 : U32) (x y : ℕ) : ℕ :=
  lcdsaddr1.toNat + y * ((lcdsaddr3 &&& 0x7ff).toNat + (lcdsaddr3 >>> 11 &&& 0x7ff).toNat) + x

/-- The same with the counter of the controller, which has the lowest 21 bits only: the bank, above
them, is that of `LCDSADDR1` for the whole picture. -/
def bankedAt (lcdsaddr1 lcdsaddr3 : U32) (x y : ℕ) : ℕ :=
  lcdsaddr1.toNat / 2 ^ 21 * 2 ^ 21 + shownAt lcdsaddr1 lcdsaddr3 x y % 2 ^ 21

/-- The buffer lies in one bank, of 4 MB. -/
def OneBank (tft : Tft) (bufer : U32) : Prop :=
  (bufer.toNat + 2 * (tft.scrXsize * tft.scrYsize) - 1) / 2 ^ 22 = bufer.toNat / 2 ^ 22

/-! ## What is shown -/

/-- The view port lies inside of the buffer. -/
def Inside (tft : Tft) (v : ℤ × ℤ) : Prop :=
  (0 ≤ v.1 ∧ v.1 + tft.lcdXsize ≤ tft.scrXsize) ∧ 0 ≤ v.2 ∧ v.2 + tft.lcdYsize ≤ tft.scrYsize

theorem moveKey_inside {v : ℤ × ℤ} (h : Inside tft v) (ch : Char) :
    Inside tft (moveKey tft ch v) := by
  obtain ⟨vx, vy⟩ := v
  unfold Inside at *
  unfold moveKey
  dsimp only at h
  split_ifs <;> (dsimp only at *; omega)

/-- **The view port stays inside.** -/
theorem viewPorts_inside {v : ℤ × ℤ} (h : Inside tft v) (keys : List Char) :
    ∀ v' ∈ viewPorts tft keys v, Inside tft v' := by
  induction keys generalizing v with
  | nil => exact List.forall_mem_nil _
  | cons ch keys ih =>
    have hmoved := moveKey_inside h ch
    rw [viewPorts]
    split_ifs
    · exact List.forall_mem_nil _
    · exact List.forall_mem_cons.2 ⟨hmoved, ih hmoved⟩

/-- `Lcd_Init` writes what `Lcd_MoveViewPort` writes for the first pixel. -/
theorem lcdInit_eq (tft : Tft) (bufer : U32) :
    lcdInit tft bufer = lcdMoveViewPort tft bufer 0 0 := by
  simp [lcdInit, lcdMoveViewPort]

theorem portRegs_eq {bufer : U32} {keys : List Char} {v : ℤ × ℤ} {regs : U32 × U32}
    (h : (v, regs) ∈ portRegs tft bufer keys) :
    Inside tft v ∧ regs = lcdMoveViewPort tft bufer v.1 v.2 := by
  have hstart : Inside tft (0, 0) := by
    unfold Inside
    cases tft <;> decide
  rw [portRegs, List.mem_cons, List.mem_map] at h
  rcases h with heq | ⟨v', hv', heq⟩
  · cases heq
    exact ⟨hstart, lcdInit_eq tft bufer⟩
  · cases heq
    exact ⟨viewPorts_inside hstart keys v hv', rfl⟩

/-- The two fields of `LCDSADDR1` are one address. -/
theorem lcdsaddr1_eq (addr : U32) : (addr >>> 22) <<< 21 ||| m5d (addr >>> 1) = addr >>> 1 := by
  refine BitVec.eq_of_getLsbD_eq fun i hi => ?_
  have hmask : (0x1fffff : U32).getLsbD i = decide (i < 21) := by
    revert i
    decide
  simp only [m5d, BitVec.getLsbD_or, BitVec.getLsbD_shiftLeft, BitVec.getLsbD_ushiftRight,
    BitVec.getLsbD_and, hmask]
  by_cases hlow : i < 21
  · simp [hlow, hi]
  · simp [hlow, hi, show 22 + (i - 21) = 1 + i by omega]

theorem m5d_toNat (n : U32) : (m5d n).toNat = n.toNat % 2 ^ 21 := by
  rw [m5d, BitVec.toNat_and]
  exact Nat.and_two_pow_sub_one_eq_mod n.toNat 21

theorem lcdsaddr3_fields (tft : Tft) : (lcdsaddr3 tft &&& 0x7ff).toNat = tft.lcdXsize ∧
    (lcdsaddr3 tft >>> 11 &&& 0x7ff).toNat = tft.scrXsize - tft.lcdXsize := by
  cases tft <;> decide

/-- The address that `Lcd_MoveViewPort` computes. -/
theorem moveAddr_toNat (tft : Tft) (bufer : U32) (vx vy : ℕ)
    (h : bufer.toNat + 2 * (vx + tft.scrXsize * vy) < 2 ^ 32) :
    (bufer + BitVec.ofInt 32 ((vx : ℤ) * 2) +
      BitVec.ofInt 32 ((vy : ℤ) * (tft.scrXsize * 2))).toNat =
        bufer.toNat + 2 * (vx + tft.scrXsize * vy) := by
  have hcol : (BitVec.ofInt 32 ((vx : ℤ) * 2)).toNat = vx * 2 := by
    rw [BitVec.toNat_ofInt]
    omega
  have hdown : (BitVec.ofInt 32 ((vy : ℤ) * (tft.scrXsize * 2))).toNat =
      2 * (tft.scrXsize * vy) := by
    rw [show (vy : ℤ) * (tft.scrXsize * 2) = ((2 * (tft.scrXsize * vy) : ℕ) : ℤ) by push_cast; ring,
      BitVec.toNat_ofInt]
    omega
  rw [BitVec.toNat_add, BitVec.toNat_add, hcol, hdown]
  omega

theorem shownAt_eq (tft : Tft) (bufer : U32) (vx vy : ℕ)
    (h : bufer.toNat + 2 * (vx + tft.scrXsize * vy) < 2 ^ 32) (x y : ℕ) :
    shownAt (lcdMoveViewPort tft bufer vx vy).1 (lcdsaddr3 tft) x y =
      (bufer.toNat + 2 * (vx + tft.scrXsize * vy)) / 2 + tft.scrXsize * y + x := by
  have hwidth : tft.lcdXsize ≤ tft.scrXsize := by cases tft <;> decide
  obtain ⟨hpage, hoff⟩ := lcdsaddr3_fields tft
  rw [lcdMoveViewPort, shownAt, lcdsaddr1_eq, hpage, hoff, Nat.add_sub_cancel' hwidth,
    BitVec.toNat_ushiftRight, moveAddr_toNat tft bufer vx vy h, Nat.shiftRight_eq_div_pow,
    Nat.mul_comm y]

/-- **What the panel shows.** After `Lcd_Init`, and whatever has been typed since, column `x` of row
`y` of the panel shows `LCD_BUFER[vy + y][vx + x]`, which is a pixel of the buffer; `LCDSADDR2` has
the end of what is shown; and if the buffer lies in one bank, the counter never leaves it. -/
theorem viewPort_shows (tft : Tft) (bufer : U32) (heven : bufer.toNat % 2 = 0)
    (hfits : bufer.toNat + 2 * (tft.scrXsize * tft.scrYsize) ≤ 2 ^ 32) (keys : List Char)
    (v : ℤ × ℤ) (regs : U32 × U32) (hv : (v, regs) ∈ portRegs tft bufer keys) (x y : ℕ)
    (hx : x < tft.lcdXsize) (hy : y < tft.lcdYsize) :
    (∃ row col : ℕ, (row : ℤ) = v.2 + y ∧ (col : ℤ) = v.1 + x ∧ row < tft.scrYsize ∧
      col < tft.scrXsize ∧
      2 * shownAt regs.1 (lcdsaddr3 tft) x y = bufer.toNat + 2 * (row * tft.scrXsize + col)) ∧
    regs.2.toNat = shownAt regs.1 (lcdsaddr3 tft) 0 tft.lcdYsize % 2 ^ 21 ∧
    (OneBank tft bufer →
      bankedAt regs.1 (lcdsaddr3 tft) x y = shownAt regs.1 (lcdsaddr3 tft) x y) := by
  obtain ⟨⟨⟨hvx, hvx'⟩, hvy, hvy'⟩, rfl⟩ := portRegs_eq hv
  obtain ⟨vx, hvx⟩ := Int.eq_ofNat_of_zero_le hvx
  obtain ⟨vy, hvy⟩ := Int.eq_ofNat_of_zero_le hvy
  rw [hvx] at hvx' ⊢
  rw [hvy] at hvy' ⊢
  have hrows : tft.scrXsize * (vy + tft.lcdYsize) ≤ tft.scrXsize * tft.scrYsize :=
    Nat.mul_le_mul_left _ (by omega)
  have hrow : tft.scrXsize * (y + 1) ≤ tft.scrXsize * tft.lcdYsize :=
    Nat.mul_le_mul_left _ hy
  rw [Nat.mul_add] at hrows hrow
  have haddr := moveAddr_toNat tft bufer vx vy (by omega)
  have hshown := shownAt_eq tft bufer vx vy (by omega)
  refine ⟨⟨vy + y, vx + x, by push_cast; ring, by push_cast; ring, by omega, by omega, ?_⟩, ?_, ?_⟩
  · rw [hshown, Nat.add_mul, Nat.mul_comm vy, Nat.mul_comm y]
    omega
  · rw [hshown, lcdMoveViewPort, m5d_toNat, BitVec.toNat_ushiftRight, BitVec.toNat_add, haddr,
      BitVec.toNat_ofNat, Nat.shiftRight_eq_div_pow]
    omega
  · intro hbank
    unfold OneBank at hbank
    rw [bankedAt, hshown, lcdMoveViewPort, lcdsaddr1_eq, BitVec.toNat_ushiftRight, haddr,
      Nat.shiftRight_eq_div_pow]
    omega

/-- Down twice and to the right, in the larger buffer. -/
theorem viewPort_shows_moved :
    (∃ row col : ℕ, (row : ℤ) = (1, 2).2 + 3 ∧ (col : ℤ) = (1, 2).1 + 4 ∧
      row < Tft.scrYsize .tft240320 ∧ col < Tft.scrXsize .tft240320 ∧
      2 * shownAt 0x18000501 (lcdsaddr3 .tft240320) 4 3 =
        (0x30000000 : U32).toNat + 2 * (row * Tft.scrXsize .tft240320 + col)) ∧
    (0x032501 : U32).toNat =
      shownAt 0x18000501 (lcdsaddr3 .tft240320) 0 (Tft.lcdYsize .tft240320) % 2 ^ 21 ∧
    (OneBank .tft240320 0x30000000 → bankedAt 0x18000501 (lcdsaddr3 .tft240320) 4 3 =
      shownAt 0x18000501 (lcdsaddr3 .tft240320) 4 3) :=
  viewPort_shows .tft240320 0x30000000 (by decide) (by decide) ['2', '2', '6'] (1, 2)
    (0x18000501, 0x032501) (by decide) 4 3 (by decide) (by decide)

end Lcd
