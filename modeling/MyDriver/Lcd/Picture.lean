import Mathlib.Data.List.GetD
import Mathlib.Tactic.Ring
import MyDriver.Lcd.Line

/-!
# Pictures

`Paint_Bmp` copies a picture of `h` columns and `l` rows to the screen, two bytes to a pixel.
`PutPixel` has unsigned arguments, so that one comparison keeps it on the screen; here the sums are
of type `int`, and the two comparisons leave the negative ones.

* `InBounds` — where a picture may be put.
* `paintBmp_shows` — what is on the screen then.
* `paintBmp_safe` — **everywhere else it stores outside of a row or of `LCD_BUFER`**, or reads
  beyond the picture.
-/

namespace Lcd

variable {tft : Tft} {bmp : List (BitVec 8)} {x0 y0 h l : ℤ}

/-! ## The function -/

/-- `LCD_BUFER[y][x] = c`, which has a meaning only if both indices are inside of their bounds: a
store with a column outside of its row is an access outside, also where it lands in another row. -/
def storePixel (b : Bufer tft) (x y : ℤ) (c : U16) : Option (Bufer tft) :=
  if hin : (0 ≤ x ∧ x < tft.scrXsize) ∧ 0 ≤ y ∧ y < tft.scrYsize then
    let row : Fin tft.scrYsize := ⟨y.toNat, by omega⟩
    some (Function.update b row (Function.update (b row) ⟨x.toNat, by omega⟩ c))
  else none

/-- The pixel at the index `p`. -/
def bmpPixel (bmp : List (BitVec 8)) (p : ℤ) : Option U16 := do
  let p1 ← int32 (p + 1)
  let low ← bmp[p1.toNat]?
  let high ← bmp[p.toNat]?
  return (low.setWidth 32 ||| high.setWidth 32 <<< 8).setWidth 16

/-- The inner loop of `Paint_Bmp`. -/
def bmpRow (bmp : List (BitVec 8)) (x0 y0 h y : ℤ) :
    ℕ → ℤ → ℤ → Bufer tft → Option (ℤ × Bufer tft)
  | 0, _, _, _ => none
  | fuel + 1, x, p, b =>
    if x < h then do
      let c ← bmpPixel bmp p
      let sx ← int32 (x0 + x)
      let b ← (if sx < tft.scrXsize then do
          let sy ← int32 (y0 + y)
          if sy < tft.scrYsize then storePixel b sx sy c else some b
        else some b)
      let p ← int32 (p + 2)
      let x ← int32 (x + 1)
      bmpRow bmp x0 y0 h y fuel x p b
    else some (p, b)

/-- The outer loop. -/
def bmpRows (bmp : List (BitVec 8)) (fuel : ℕ) (x0 y0 h l : ℤ) :
    ℕ → ℤ → ℤ → Bufer tft → Option (Bufer tft)
  | 0, _, _, _ => none
  | left + 1, y, p, b =>
    if y < l then do
      let (p, b) ← bmpRow bmp x0 y0 h y fuel 0 p b
      let y ← int32 (y + 1)
      bmpRows bmp fuel x0 y0 h l left y p b
    else some b

def paintBmp (fuel : ℕ) (x0 y0 h l : ℤ) (bmp : List (BitVec 8)) (b : Bufer tft) :
    Option (Bufer tft) := bmpRows bmp fuel x0 y0 h l fuel 0 0 b

/-! ## What it needs -/

/-- The picture is empty, or it has all its bytes and lies beyond the right or the lower edge, or
begins on the screen. -/
def InBounds (tft : Tft) (x0 y0 h l : ℤ) (bmp : List (BitVec 8)) : Prop :=
  0 < h → 0 < l → 2 * (l * h) ≤ bmp.length ∧
    (x0 < tft.scrXsize → y0 < tft.scrYsize → 0 ≤ x0 ∧ 0 ≤ y0)

/-- What the `int`s are that occur. -/
structure Small (x0 y0 h l : ℤ) (bmp : List (BitVec 8)) : Prop where
  left : |x0| < 2 ^ 30
  top : |y0| < 2 ^ 30
  wide : h < 2 ^ 30
  high : l < 2 ^ 30
  bytes : bmp.length < 2 ^ 31 - 2

/-- The pixel number `k` of the picture, most significant byte first. -/
def colour (bmp : List (BitVec 8)) (k : ℕ) : U16 := bmp.getD (2 * k) 0 ++ bmp.getD (2 * k + 1) 0

/-- The place of a pixel of the screen in the picture. -/
def place (x0 y0 h : ℤ) (y : Fin tft.scrYsize) (x : Fin tft.scrXsize) : ℤ :=
  (((y : ℕ) : ℤ) - y0) * h + (((x : ℕ) : ℤ) - x0)

/-- The screen when the first `k` pixels of the picture have been copied. -/
def shown (x0 y0 h : ℤ) (bmp : List (BitVec 8)) (b : Bufer tft) (k : ℤ) : Bufer tft := fun y x =>
  if (x0 ≤ (x : ℕ) ∧ ((x : ℕ) : ℤ) < x0 + h) ∧ y0 ≤ (y : ℕ) ∧ place x0 y0 h y x < k then
    colour bmp (place x0 y0 h y x).toNat
  else b y x

theorem join_bytes (high low : BitVec 8) :
    (low.setWidth 32 ||| high.setWidth 32 <<< 8).setWidth 16 = high ++ low := by
  refine BitVec.eq_of_getLsbD_eq fun i hi => ?_
  rw [BitVec.getLsbD_append]
  by_cases hlow : i < 8
  · simp [hlow, hi]
  · have hlow' : low.getLsbD i = false := BitVec.getLsbD_of_ge _ _ (by omega)
    simp [hlow, hi, hlow']

theorem bmpPixel_eq {k : ℤ} (hk : 0 ≤ k) (hlen : 2 * k + 2 ≤ bmp.length)
    (hsmall : bmp.length < 2 ^ 31) : bmpPixel bmp (2 * k) = some (colour bmp k.toNat) := by
  have hlow : (2 * k + 1).toNat = 2 * k.toNat + 1 := by omega
  have hhigh : (2 * k).toNat = 2 * k.toNat := by omega
  have hint : int32 (2 * k + 1) = some (2 * k + 1) := int32_eq (by omega) (by omega)
  have hin : 2 * k.toNat + 1 < bmp.length := by omega
  have hin' : 2 * k.toNat < bmp.length := by omega
  rw [bmpPixel, hint]
  simp only [Option.bind_eq_bind, Option.bind_some, hlow, hhigh, List.getElem?_eq_getElem hin,
    List.getElem?_eq_getElem hin']
  rw [colour, List.getD_eq_getElem _ _ hin, List.getD_eq_getElem _ _ hin', ← join_bytes]
  rfl

theorem storePixel_eq (b : Bufer tft) (c : U16) {x y : ℤ} (hx : 0 ≤ x ∧ x < tft.scrXsize)
    (hy : 0 ≤ y ∧ y < tft.scrYsize) : storePixel b x y c =
      some fun (y' : Fin tft.scrYsize) (x' : Fin tft.scrXsize) =>
        if ((y' : ℕ) : ℤ) = y ∧ ((x' : ℕ) : ℤ) = x then c else b y' x' := by
  rw [storePixel, dif_pos ⟨hx, hy⟩]
  refine congrArg some (funext fun y' => funext fun x' => ?_)
  have hrow : y' = ⟨y.toNat, by omega⟩ ↔ ((y' : ℕ) : ℤ) = y := by
    rw [Fin.ext_iff]
    dsimp only
    omega
  have hcol : x' = ⟨x.toNat, by omega⟩ ↔ ((x' : ℕ) : ℤ) = x := by
    rw [Fin.ext_iff]
    dsimp only
    omega
  rw [Function.update_apply]
  by_cases hy' : y' = ⟨y.toNat, by omega⟩
  · rw [if_pos hy', Function.update_apply, ← hy']
    exact if_congr (by rw [hcol, and_iff_right (hrow.1 hy')]) rfl rfl
  · rw [if_neg hy', if_neg fun h => hy' (hrow.2 h.1)]

/-! ## What is shown -/

variable {b : Bufer tft} {i j k : ℤ}

/-- The place determines the pixel. -/
theorem place_eq_iff (y0 j : ℤ) (hi : 0 ≤ i ∧ i < h) (y : Fin tft.scrYsize) (x : Fin tft.scrXsize)
    (hx : x0 ≤ (x : ℕ) ∧ ((x : ℕ) : ℤ) < x0 + h) :
    place x0 y0 h y x = j * h + i ↔ ((y : ℕ) : ℤ) = y0 + j ∧ ((x : ℕ) : ℤ) = x0 + i := by
  unfold place
  constructor
  · intro heq
    have hrows : ((((y : ℕ) : ℤ) - y0 - j) * h) = i - (((x : ℕ) : ℤ) - x0) := by linarith
    have hsame : ((y : ℕ) : ℤ) - y0 - j = 0 := by
      by_contra hne
      rcases lt_or_gt_of_ne hne with hneg | hpos
      · have : (((y : ℕ) : ℤ) - y0 - j) * h ≤ -1 * h :=
          mul_le_mul_of_nonneg_right (by omega) (by omega)
        omega
      · have : 1 * h ≤ (((y : ℕ) : ℤ) - y0 - j) * h :=
          mul_le_mul_of_nonneg_right (by omega) (by omega)
        omega
    rw [hsame, zero_mul] at hrows
    omega
  · rintro ⟨hy, hx'⟩
    rw [hy, hx']
    ring

/-- One pixel more. -/
theorem shown_succ (x0 y0 : ℤ) (bmp : List (BitVec 8)) (b : Bufer tft) (hj : 0 ≤ j)
    (hi : 0 ≤ i ∧ i < h) (y : Fin tft.scrYsize) (x : Fin tft.scrXsize) :
    shown x0 y0 h bmp b (j * h + i + 1) y x =
      if ((y : ℕ) : ℤ) = y0 + j ∧ ((x : ℕ) : ℤ) = x0 + i then colour bmp (j * h + i).toNat
      else shown x0 y0 h bmp b (j * h + i) y x := by
  unfold shown
  by_cases hx : x0 ≤ (x : ℕ) ∧ ((x : ℕ) : ℤ) < x0 + h
  swap
  · rw [if_neg fun hin => hx hin.1, if_neg fun hin => hx (by omega), if_neg fun hin => hx hin.1]
  have hplace := place_eq_iff y0 j hi y x hx
  by_cases hhere : ((y : ℕ) : ℤ) = y0 + j ∧ ((x : ℕ) : ℤ) = x0 + i
  · rw [if_pos hhere, hplace.2 hhere, if_pos ⟨hx, by omega, by omega⟩]
  · have hne := fun heq => hhere (hplace.1 heq)
    rw [if_neg hhere]
    refine if_congr ?_ rfl rfl
    constructor
    · exact fun hin => ⟨hin.1, hin.2.1, by omega⟩
    · exact fun hin => ⟨hin.1, hin.2.1, by omega⟩

section Loops

variable (hs : Small x0 y0 h l bmp)

include hs

/-- The rest of a row. -/
theorem bmpRow_shows (hlen : 2 * (l * h) ≤ bmp.length)
    (hin : x0 < tft.scrXsize → y0 < tft.scrYsize → 0 ≤ x0 ∧ 0 ≤ y0) (hj : 0 ≤ j ∧ j < l)
    (left : ℕ) (hi : 0 ≤ i ∧ i ≤ h) (hleft : left = (h - i).toNat) {fuel : ℕ}
    (hfuel : left < fuel) (b : Bufer tft) :
    bmpRow bmp x0 y0 h j fuel i (2 * (j * h + i)) (shown x0 y0 h bmp b (j * h + i)) =
      some (2 * ((j + 1) * h), shown x0 y0 h bmp b ((j + 1) * h)) := by
  obtain ⟨hx0, hy0, hwide, hhigh, hbytes⟩ := hs
  rw [abs_lt] at hx0 hy0
  induction left generalizing i fuel with
  | zero =>
    obtain ⟨fuel, rfl⟩ : ∃ k, fuel = k + 1 := ⟨fuel - 1, by omega⟩
    obtain rfl : i = h := by omega
    rw [bmpRow, if_neg (lt_irrefl _), add_mul, one_mul]
  | succ left ih =>
    obtain ⟨fuel, rfl⟩ : ∃ k, fuel = k + 1 := ⟨fuel - 1, by omega⟩
    have hlt : i < h := by omega
    have hfits : (j + 1) * h ≤ l * h := mul_le_mul_of_nonneg_right (by omega) (by omega)
    have hk : 0 ≤ j * h := mul_nonneg hj.1 (by omega)
    rw [add_mul, one_mul] at hfits
    have hpixel : bmpPixel bmp (2 * (j * h + i)) = some (colour bmp (j * h + i).toNat) :=
      bmpPixel_eq (by omega) (by omega) (by omega)
    have hcol : int32 (x0 + i) = some (x0 + i) := int32_eq (by omega) (by omega)
    have hrow : int32 (y0 + j) = some (y0 + j) := int32_eq (by omega) (by omega)
    have hp : int32 (2 * (j * h + i) + 2) = some (2 * (j * h + (i + 1))) := by
      rw [show 2 * (j * h + i) + 2 = 2 * (j * h + (i + 1)) by ring]
      exact int32_eq (by omega) (by omega)
    have hnext : int32 (i + 1) = some (i + 1) := int32_eq (by omega) (by omega)
    have hsucc := shown_succ x0 y0 bmp b hj.1 ⟨hi.1, hlt⟩
    -- The pixel is stored if it is on the screen.
    have hstore : (if x0 + i < tft.scrXsize then
        (if y0 + j < tft.scrYsize then
            storePixel (shown x0 y0 h bmp b (j * h + i)) (x0 + i) (y0 + j)
              (colour bmp (j * h + i).toNat)
          else some (shown x0 y0 h bmp b (j * h + i)))
        else some (shown x0 y0 h bmp b (j * h + i))) =
          some (shown x0 y0 h bmp b (j * h + (i + 1))) := by
      rw [← add_assoc]
      by_cases hscreen : x0 + i < tft.scrXsize ∧ y0 + j < tft.scrYsize
      · obtain ⟨hx, hy⟩ := hin (by omega) (by omega)
        rw [if_pos hscreen.1, if_pos hscreen.2, storePixel_eq _ _ ⟨by omega, hscreen.1⟩
          ⟨by omega, hscreen.2⟩]
        exact congrArg some (funext fun y => funext fun x => (hsucc y x).symm)
      · have hsame : shown x0 y0 h bmp b (j * h + i + 1) = shown x0 y0 h bmp b (j * h + i) := by
          refine funext fun y => funext fun x => (hsucc y x).trans (if_neg fun hhere => ?_)
          have hy := y.isLt
          have hx := x.isLt
          omega
        rw [hsame]
        by_cases hx : x0 + i < tft.scrXsize
        · rw [if_pos hx, if_neg fun hy => hscreen ⟨hx, hy⟩]
        · rw [if_neg hx]
    rw [bmpRow, if_pos hlt, hpixel, hcol]
    simp only [Option.bind_eq_bind, Option.bind_some, hrow, hp, hnext]
    rw [hstore, Option.bind_some]
    exact ih (by omega) (by omega) (by omega)

/-- The rows from `j` on. -/
theorem bmpRows_shows (hh : 0 < h) (hlen : 2 * (l * h) ≤ bmp.length)
    (hin : x0 < tft.scrXsize → y0 < tft.scrYsize → 0 ≤ x0 ∧ 0 ≤ y0) (rows : ℕ)
    (hj : 0 ≤ j ∧ j ≤ l) (hrows : rows = (l - j).toNat) {fuel left : ℕ} (hfuel : h < fuel)
    (hleft : rows < left) (b : Bufer tft) :
    bmpRows bmp fuel x0 y0 h l left j (2 * (j * h)) (shown x0 y0 h bmp b (j * h)) =
      some (shown x0 y0 h bmp b (l * h)) := by
  induction rows generalizing j left with
  | zero =>
    obtain ⟨left, rfl⟩ : ∃ k, left = k + 1 := ⟨left - 1, by omega⟩
    obtain rfl : j = l := by omega
    rw [bmpRows, if_neg (lt_irrefl _)]
  | succ rows ih =>
    obtain ⟨left, rfl⟩ : ∃ k, left = k + 1 := ⟨left - 1, by omega⟩
    have hlt : j < l := by omega
    have hnext : int32 (j + 1) = some (j + 1) := by
      have hhigh := hs.high
      exact int32_eq (by omega) (by omega)
    have hwide : (h - 0).toNat < fuel := by omega
    have hrow := bmpRow_shows hs hlen hin ⟨hj.1, hlt⟩ _ ⟨le_rfl, hh.le⟩ rfl hwide b
    rw [add_zero] at hrow
    rw [bmpRows, if_pos hlt, hrow]
    simp only [Option.bind_eq_bind, Option.bind_some, hnext]
    exact ih (by omega) (by omega) (by omega)

/-- **What is on the screen.** -/
theorem paintBmp_shows (hin : InBounds tft x0 y0 h l bmp) (b : Bufer tft) :
    ∃ b', (∀ fuel : ℕ, max (max h l) 0 + 1 < fuel → paintBmp fuel x0 y0 h l bmp b = some b') ∧
      ∀ y x, b' y x =
        if (x0 ≤ (x : ℕ) ∧ ((x : ℕ) : ℤ) < x0 + h) ∧ y0 ≤ (y : ℕ) ∧ ((y : ℕ) : ℤ) < y0 + l then
          colour bmp (place x0 y0 h y x).toNat
        else b y x := by
  by_cases hh : 0 < h
  · by_cases hl : 0 < l
    · obtain ⟨hlen, hedge⟩ := hin hh hl
      have hstart : shown x0 y0 h bmp b (0 * h) = b := by
        refine funext fun y => funext fun x => if_neg fun hpix => ?_
        have hpos : 0 ≤ (((y : ℕ) : ℤ) - y0) * h := mul_nonneg (by omega) hh.le
        have hplace := hpix.2.2
        unfold place at hplace
        omega
      refine ⟨shown x0 y0 h bmp b (l * h), fun fuel hfuel => ?_, fun y x => ?_⟩
      · have hhigh : l.toNat < fuel := by omega
        have hrows := bmpRows_shows hs hh hlen hedge l.toNat ⟨le_rfl, hl.le⟩
          (congrArg Int.toNat (sub_zero l).symm) (show h < (fuel : ℤ) by omega) hhigh b
        rw [hstart, zero_mul, mul_zero] at hrows
        exact hrows
      · refine if_congr (and_congr_right fun hx => and_congr_right fun _ => ?_) rfl rfl
        unfold place
        constructor
        · intro hplace
          by_contra hout
          have hle : l * h ≤ (((y : ℕ) : ℤ) - y0) * h :=
            mul_le_mul_of_nonneg_right (by omega) hh.le
          omega
        · intro hy
          have hle : (((y : ℕ) : ℤ) - y0 + 1) * h ≤ l * h :=
            mul_le_mul_of_nonneg_right (by omega) hh.le
          rw [add_mul, one_mul] at hle
          omega
    · refine ⟨b, fun fuel hfuel => ?_, fun y x => (if_neg (by omega)).symm⟩
      obtain ⟨fuel, rfl⟩ : ∃ k, fuel = k + 1 := ⟨fuel - 1, by omega⟩
      exact if_neg hl
  · -- Without columns the outer loop does nothing.
    have hrows : ∀ (rows left fuel : ℕ) (j : ℤ), rows = (l - j).toNat → 0 ≤ j → rows < left →
        bmpRows bmp (fuel + 1) x0 y0 h l left j 0 b = some b := by
      intro rows
      induction rows with
      | zero =>
        intro left fuel j hj _ hleft
        obtain ⟨left, rfl⟩ : ∃ k, left = k + 1 := ⟨left - 1, by omega⟩
        exact if_neg (by omega)
      | succ rows ih =>
        intro left fuel j hj hpos hleft
        obtain ⟨left, rfl⟩ : ∃ k, left = k + 1 := ⟨left - 1, by omega⟩
        have hnext : int32 (j + 1) = some (j + 1) := by
          have hhigh := hs.high
          exact int32_eq (by omega) (by omega)
        rw [bmpRows, if_pos (by omega), bmpRow, if_neg hh]
        simp only [Option.bind_eq_bind, Option.bind_some, hnext]
        exact ih left fuel (j + 1) (by omega) (by omega) (by omega)
    refine ⟨b, fun fuel hfuel => ?_, fun y x => (if_neg (by omega)).symm⟩
    obtain ⟨fuel, rfl⟩ : ∃ k, fuel = k + 1 := ⟨fuel - 1, by omega⟩
    exact hrows _ _ fuel 0 rfl le_rfl (by omega)

end Loops

/-! ## Where it may be put -/

theorem int32_some {v w : ℤ} (h : int32 v = some w) : w = v := by
  unfold int32 at h
  split_ifs at h
  exact (Option.some.inj h).symm

/-- A pixel of which the bytes have been read. -/
theorem bmpPixel_some {p : ℤ} {c : U16} (hp : 0 ≤ p) (h : bmpPixel bmp p = some c) :
    p + 1 < bmp.length := by
  unfold bmpPixel at h
  simp only [Option.bind_eq_bind, Option.bind_eq_some_iff] at h
  obtain ⟨p1, hp1, low, hlow, -⟩ := h
  rw [int32_some hp1] at hlow
  obtain ⟨hlt, -⟩ := List.getElem?_eq_some_iff.1 hlow
  omega

/-- A row that has been copied: its bytes have been read. -/
theorem bmpRow_some {b b' : Bufer tft} {y i p p' : ℤ} {fuel : ℕ} (hi : i ≤ h) (hp : 0 ≤ p)
    (hrow : bmpRow bmp x0 y0 h y fuel i p b = some (p', b')) :
    p' = p + 2 * (h - i) ∧ (i < h → p' ≤ bmp.length) := by
  induction fuel generalizing i p b with
  | zero => cases hrow
  | succ fuel ih =>
    unfold bmpRow at hrow
    by_cases hlt : i < h
    · rw [if_pos hlt] at hrow
      simp only [Option.bind_eq_bind, Option.bind_eq_some_iff] at hrow
      obtain ⟨c, hc, sx, -, b₁, -, p₁, hp₁, i₁, hi₁, hrest⟩ := hrow
      have hread := bmpPixel_some hp hc
      rw [int32_some hp₁, int32_some hi₁] at hrest
      obtain ⟨heq, hle⟩ := ih (by omega) (by omega) hrest
      refine ⟨by omega, fun _ => ?_⟩
      by_cases hlast : i + 1 < h
      · exact hle hlast
      · omega
    · rw [if_neg hlt, Option.some.injEq, Prod.mk.injEq] at hrow
      exact ⟨by omega, fun hlt' => absurd hlt' hlt⟩

theorem bmpRows_some {b b' : Bufer tft} {y p : ℤ} {fuel left : ℕ} (hh : 0 < h) (hy : y ≤ l)
    (hp : 0 ≤ p) (hrows : bmpRows bmp fuel x0 y0 h l left y p b = some b') :
    y < l → p + 2 * ((l - y) * h) ≤ bmp.length := by
  induction left generalizing y p b with
  | zero => cases hrows
  | succ left ih =>
    intro hlt
    unfold bmpRows at hrows
    rw [if_pos hlt] at hrows
    simp only [Option.bind_eq_bind, Option.bind_eq_some_iff] at hrows
    obtain ⟨⟨p₁, b₁⟩, hrow, y₁, hy₁, hrest⟩ := hrows
    obtain ⟨heq, hle⟩ := bmpRow_some hh.le hp hrow
    rw [int32_some hy₁] at hrest
    have hsplit : (l - y) * h = (l - (y + 1)) * h + h := by ring
    by_cases hlast : y + 1 < l
    · have hmore := ih (by omega) (by omega) hrest hlast
      omega
    · have hone : l - (y + 1) = 0 := by omega
      rw [hone, zero_mul] at hsplit
      have hread := hle hh
      omega

/-- **Where a picture may be put.** `Paint_Bmp` returns if and only if the picture has all its bytes
and does not begin beyond the left or the upper edge, unless nothing of it could be on the screen;
and then what lies on the screen is shown there, and nothing else changes. -/
theorem paintBmp_safe (hs : Small x0 y0 h l bmp) (b : Bufer tft) :
    ((∃ fuel b', paintBmp fuel x0 y0 h l bmp b = some b') ↔ InBounds tft x0 y0 h l bmp) ∧
    (InBounds tft x0 y0 h l bmp → ∃ b',
      (∀ fuel : ℕ, max (max h l) 0 + 1 < fuel → paintBmp fuel x0 y0 h l bmp b = some b') ∧
      ∀ y x, b' y x =
        if (x0 ≤ (x : ℕ) ∧ ((x : ℕ) : ℤ) < x0 + h) ∧ y0 ≤ (y : ℕ) ∧ ((y : ℕ) : ℤ) < y0 + l then
          colour bmp (place x0 y0 h y x).toNat
        else b y x) := by
  refine ⟨⟨?_, fun hin => ?_⟩, fun hin => paintBmp_shows hs hin b⟩
  · rintro ⟨fuel, b', hdone⟩ hh hl
    unfold paintBmp at hdone
    have hread := bmpRows_some hh hl.le le_rfl hdone hl
    rw [sub_zero, zero_add] at hread
    refine ⟨hread, fun hx hy => ?_⟩
    -- The first pixel has been stored.
    obtain ⟨fuel, rfl⟩ : ∃ k, fuel = k + 1 := by
      cases fuel with
      | zero => cases hdone
      | succ k => exact ⟨k, rfl⟩
    rw [bmpRows, if_pos hl, bmpRow, if_pos hh] at hdone
    simp only [Option.bind_eq_bind, Option.bind_eq_some_iff] at hdone
    obtain ⟨-, ⟨c, -, sx, hsx, b₁, hb₁, -⟩, -⟩ := hdone
    rw [int32_some hsx, add_zero, if_pos hx] at hb₁
    obtain ⟨sy, hsy, hb₁⟩ := Option.bind_eq_some_iff.1 hb₁
    rw [int32_some hsy, add_zero, if_pos hy, storePixel] at hb₁
    split_ifs at hb₁ with hstored
    exact ⟨hstored.1.1, hstored.2.1⟩
  · obtain ⟨b', hr, -⟩ := paintBmp_shows hs hin b
    exact ⟨(max (max h l) 0 + 2).toNat, b', hr _ (by omega)⟩

/-- A picture of two pixels in the corner. -/
theorem paintBmp_safe_corner :
    ((∃ fuel b', paintBmp fuel 319 0 2 1 [0xF8, 0, 7, 0xE0] (fun _ _ => 0 : Bufer .tft320240) =
      some b') ↔ InBounds .tft320240 319 0 2 1 [0xF8, 0, 7, 0xE0]) ∧
    (InBounds .tft320240 319 0 2 1 [0xF8, 0, 7, 0xE0] → ∃ b' : Bufer .tft320240,
      (∀ fuel : ℕ, max (max 2 1) (0 : ℤ) + 1 < fuel →
        paintBmp fuel 319 0 2 1 [0xF8, 0, 7, 0xE0] (fun _ _ => 0) = some b') ∧
      ∀ y x, b' y x =
        if ((319 : ℤ) ≤ (x : ℕ) ∧ ((x : ℕ) : ℤ) < 319 + 2) ∧
            (0 : ℤ) ≤ (y : ℕ) ∧ ((y : ℕ) : ℤ) < 0 + 1 then
          colour [0xF8, 0, 7, 0xE0] (place 319 0 2 y x).toNat
        else 0) :=
  paintBmp_safe ⟨by decide, by decide, by decide, by decide, by decide⟩ _

end Lcd
