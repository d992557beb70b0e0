import Mathlib.Data.BitVec
import Mathlib.Algebra.Order.Field.Rat
import Mathlib.Data.Rat.Cast.Order
import Mathlib.Algebra.Order.Ring.Abs
import Mathlib.Tactic.FieldSimp
import MyDriver.Lib.Digital

/-!
# `Glib_Line`

The drivers `LCD_320X240.c` and `LCD_240X320.c` draw a line with the same function, one loop for
each octant. An `int` that overflows is undefined in C, so an expression has a value here only if it
is an `int`.

* `lineLoop_eq` — a loop draws the digital line of its octant.
* `glibLine_draws` — **the line**, for all end points within `2^29`.
-/

namespace Lcd

open Digital

abbrev U16 := BitVec 16
abbrev U32 := BitVec 32

/-! ## The screen -/

/-- The two drivers. -/
inductive Tft where
  | tft320240
  | tft240320
deriving DecidableEq

def Tft.scrXsize : Tft → ℕ
  | .tft320240 => 320
  | .tft240320 => 640

def Tft.scrYsize : Tft → ℕ
  | .tft320240 => 240
  | .tft240320 => 480

/-- `LCD_BUFER`. -/
abbrev Bufer (tft : Tft) := Fin tft.scrYsize → Fin tft.scrXsize → U16

variable {tft : Tft}

def putPixel (b : Bufer tft) (x y : U32) (c : U16) : Bufer tft :=
  if h : x.toNat < tft.scrXsize ∧ y.toNat < tft.scrYsize then
    Function.update b ⟨y.toNat, h.2⟩ (Function.update (b ⟨y.toNat, h.2⟩) ⟨x.toNat, h.1⟩ c)
  else b

/-! ## The loops -/

/-- The value of an expression of type `int`. -/
def int32 (v : ℤ) : Option ℤ := if -2 ^ 31 ≤ v ∧ v < 2 ^ 31 then some v else none

/-- What a call leaves: the screen, and the arguments of `PutPixel` in the order of the calls. -/
structure Drawn (tft : Tft) where
  bufer : Bufer tft
  calls : List (ℤ × ℤ)

/-- The variable that a loop counts. -/
inductive Axis where
  | x
  | y

/-- `x1` and `y1`, from the variable that is counted and the other. -/
def Axis.point : Axis → ℤ → ℤ → ℤ × ℤ
  | .x, a, b => (a, b)
  | .y, a, b => (b, a)

/-- A loop. It runs while the variable `a` `goes` on; `a` moves by `s` each time and the other
variable `b` by `t` if `e` is positive, `long` and `short` are what `e` moves by. -/
def lineLoop (axis : Axis) (goes : ℤ → Bool) (s t long short : ℤ) (color : U16) :
    ℕ → ℤ → ℤ → ℤ → Bufer tft → Option (Drawn tft)
  | 0, _, _, _, _ => none
  | fuel + 1, a, b, e, bufer =>
    if goes a = true then do
      let p := axis.point a b
      let bufer := putPixel bufer (BitVec.ofInt 32 p.1) (BitVec.ofInt 32 p.2) color
      let b' ← (if 0 < e then int32 (b + t) else some b)
      let e' ← (if 0 < e then int32 (e - long) else some e)
      let a' ← int32 (a + s)
      let e' ← int32 (e' + short)
      let drawn ← lineLoop axis goes s t long short color fuel a' b' e' bufer
      return { drawn with calls := p :: drawn.calls }
    else some { bufer := bufer, calls := [] }

/-- `Glib_Line`, the loops with the given fuel. In `LCD_240X320.c` `color` is an `int`, of which
`PutPixel` stores the low half. -/
def glibLine (fuel : ℕ) (x1 y1 x2 y2 : ℤ) (color : U16) (bufer : Bufer tft) :
    Option (Drawn tft) := do
  let dx ← int32 (x2 - x1)
  let dy ← int32 (y2 - y1)
  if 0 ≤ dx then
    if 0 ≤ dy then
      if dy ≤ dx then -- 1/8 octant
        let e ← int32 (dy - dx.tdiv 2)
        lineLoop .x (fun x1 => x1 ≤ x2) 1 1 dx dy color fuel x1 y1 e bufer
      else -- 2/8 octant
        let e ← int32 (dx - dy.tdiv 2)
        lineLoop .y (fun y1 => y1 ≤ y2) 1 1 dy dx color fuel y1 x1 e bufer
    else
      let dy ← int32 (-dy)
      if dy ≤ dx then -- 8/8 octant
        let e ← int32 (dy - dx.tdiv 2)
        lineLoop .x (fun x1 => x1 ≤ x2) 1 (-1) dx dy color fuel x1 y1 e bufer
      else -- 7/8 octant
        let e ← int32 (dx - dy.tdiv 2)
        lineLoop .y (fun y1 => y2 ≤ y1) (-1) 1 dy dx color fuel y1 x1 e bufer
  else
    let dx ← int32 (-dx)
    if 0 ≤ dy then
      if dy ≤ dx then -- 4/8 octant
        let e ← int32 (dy - dx.tdiv 2)
        lineLoop .x (fun x1 => x2 ≤ x1) (-1) 1 dx dy color fuel x1 y1 e bufer
      else -- 3/8 octant
        let e ← int32 (dx - dy.tdiv 2)
        lineLoop .y (fun y1 => y1 ≤ y2) 1 (-1) dy dx color fuel y1 x1 e bufer
    else
      let dy ← int32 (-dy)
      if dy ≤ dx then -- 5/8 octant
        let e ← int32 (dy - dx.tdiv 2)
        lineLoop .x (fun x1 => x2 ≤ x1) (-1) (-1) dx dy color fuel x1 y1 e bufer
      else -- 6/8 octant
        let e ← int32 (dx - dy.tdiv 2)
        lineLoop .y (fun y1 => y2 ≤ y1) (-1) (-1) dy dx color fuel y1 x1 e bufer

/-! ## One octant -/

theorem int32_eq {v : ℤ} (hmin : -2 ^ 31 ≤ v) (hmax : v < 2 ^ 31) : int32 v = some v :=
  if_pos ⟨hmin, hmax⟩

/-- The pixels `ps`, one after the other. -/
def putPixels (color : U16) (bufer : Bufer tft) (ps : List (ℤ × ℤ)) : Bufer tft :=
  ps.foldl (fun b p => putPixel b (BitVec.ofInt 32 p.1) (BitVec.ofInt 32 p.2) color) bufer

/-- The point in column `i` of the digital line from `(a, b)`. -/
def linePoint (axis : Axis) (s t n m a b : ℤ) (i : ℕ) : ℤ × ℤ :=
  axis.point (a + s * i) (b + t * height n m i)

/-- The line from `(a, b)` in directions `s` and `t`, of length `n` and height `m`, ends within the
bounds, and a loop with the condition `goes` goes on as far as the end. -/
structure Octant (goes : ℤ → Bool) (s t n m a b : ℤ) : Prop where
  along : s = 1 ∨ s = -1
  across : t = 1 ∨ t = -1
  short : 0 ≤ m
  long : m ≤ n
  start : |a| < 2 ^ 29 ∧ |b| < 2 ^ 29
  stop : |a + s * n| < 2 ^ 29 ∧ |b + t * m| < 2 ^ 29
  goes : ∀ i : ℕ, i ≤ n.toNat + 1 → (goes (a + s * i) = true ↔ i ≤ n.toNat)

section Octant

variable {goes : ℤ → Bool} {s t n m a b : ℤ}

theorem Octant.intro {a' b' : ℤ} (halong : s = 1 ∨ s = -1) (hacross : t = 1 ∨ t = -1)
    (hshort : 0 ≤ m) (hlong : m ≤ n) (hn : a + s * n = a') (hm : b + t * m = b')
    (hstart : |a| < 2 ^ 29 ∧ |b| < 2 ^ 29) (hstop : |a'| < 2 ^ 29 ∧ |b'| < 2 ^ 29)
    (hgoes : ∀ v, goes v = true ↔ 0 ≤ s * (a' - v)) : Octant goes s t n m a b where
  along := halong
  across := hacross
  short := hshort
  long := hlong
  start := hstart
  stop := by
    rw [hn, hm]
    exact hstop
  goes i _ := by
    rw [hgoes, ← hn]
    rcases halong with hs | hs <;> rw [hs] <;> omega

theorem Octant.long_lt (h : Octant goes s t n m a b) : n < 2 ^ 30 := by
  have ha := abs_lt.1 h.start.1
  have ha' := abs_lt.1 h.stop.1
  rcases h.along with hs | hs <;> rw [hs] at ha' <;> omega

/-- The counted variable, up to one step beyond the end. -/
theorem Octant.count (h : Octant goes s t n m a b) {i : ℕ} (hi : i ≤ n.toNat + 1) :
    -2 ^ 31 ≤ a + s * i ∧ a + s * i < 2 ^ 31 := by
  have ha := abs_lt.1 h.start.1
  have ha' := abs_lt.1 h.stop.1
  have hn := h.short.trans h.long
  rcases h.along with hs | hs <;> rw [hs] at ha' ⊢ <;> omega

theorem Octant.height_le (h : Octant goes s t n m a b) {i : ℕ} (hi : i ≤ n.toNat) :
    0 ≤ height n m i ∧ height n m i ≤ m := by
  have hfirst := height_mono h.short h.long (Nat.zero_le i)
  have hlast := height_mono h.short h.long hi
  rw [height_zero (h.short.trans h.long)] at hfirst
  rw [height_last h.short h.long] at hlast
  exact ⟨hfirst, hlast⟩

/-- The other variable, with one step more. -/
theorem Octant.turn (h : Octant goes s t n m a b) {k : ℤ} (hk : 0 ≤ k ∧ k ≤ m + 1) :
    -2 ^ 31 ≤ b + t * k ∧ b + t * k < 2 ^ 31 := by
  have hb := abs_lt.1 h.start.2
  have hb' := abs_lt.1 h.stop.2
  rcases h.across with ht | ht <;> rw [ht] at hb' ⊢ <;> omega

/-- **A loop** draws the rest of the line. -/
theorem lineLoop_eq (h : Octant goes s t n m a b) (axis : Axis) (color : U16) (left i fuel : ℕ)
    (hi : i + left = n.toNat + 1) (hfuel : left < fuel) (bufer : Bufer tft) :
    lineLoop axis goes s t n m color fuel (a + s * i) (b + t * height n m i) (error n m i) bufer =
      some ⟨putPixels color bufer ((List.range' i left).map (linePoint axis s t n m a b)),
        (List.range' i left).map (linePoint axis s t n m a b)⟩ := by
  induction left generalizing i fuel bufer with
  | zero =>
    obtain ⟨fuel, rfl⟩ : ∃ k, fuel = k + 1 := ⟨fuel - 1, by omega⟩
    have hstop : ¬ goes (a + s * i) = true := by
      rw [h.goes i (by omega)]
      omega
    rw [lineLoop, if_neg hstop]
    rfl
  | succ left ih =>
    obtain ⟨fuel, rfl⟩ : ∃ k, fuel = k + 1 := ⟨fuel - 1, by omega⟩
    have hgo : goes (a + s * i) = true := by
      rw [h.goes i (by omega)]
      omega
    have hn := h.long_lt
    have hm := h.short
    have hmn := h.long
    have hbounds := error_bounds h.short h.long i
    have hbounds' := error_bounds h.short h.long (i + 1)
    have hheight := h.height_le (i := i) (by omega)
    have hrow := height_of_error h.short h.long i
    have hcounted : int32 (a + s * i + s) = some (a + s * (i + 1 : ℕ)) := by
      have hcount := h.count (i := i + 1) (by omega)
      have heq : a + s * i + s = a + s * (i + 1 : ℕ) := by
        push_cast
        ring
      rw [heq]
      exact int32_eq hcount.1 hcount.2
    have hturned : (if 0 < error n m i then int32 (b + t * height n m i + t)
        else some (b + t * height n m i)) = some (b + t * height n m (i + 1)) := by
      rw [hrow]
      split_ifs with hpos
      · have hturn := h.turn (k := height n m i + 1) (by omega)
        have heq : b + t * height n m i + t = b + t * (height n m i + 1) := by ring
        rw [heq]
        exact int32_eq hturn.1 hturn.2
      · rfl
    have hlowered : (if 0 < error n m i then int32 (error n m i - n) else some (error n m i)) =
        some (if 0 < error n m i then error n m i - n else error n m i) := by
      split_ifs
      · exact int32_eq (by omega) (by omega)
      · rfl
    have hraised : int32 ((if 0 < error n m i then error n m i - n else error n m i) + m) =
        some (error n m (i + 1)) := by
      rw [← error_succ h.short h.long]
      exact int32_eq (by omega) (by omega)
    rw [lineLoop, if_pos hgo, hturned, hlowered, hcounted]
    simp only [Option.bind_eq_bind, Option.bind_some, hraised]
    rw [ih (i + 1) fuel (by omega) (by omega)]
    rfl

/-- All of the line. -/
def linePoints (axis : Axis) (s t n m a b : ℤ) : List (ℤ × ℤ) :=
  (List.range' 0 (n.toNat + 1)).map (linePoint axis s t n m a b)

/-- The loop with the statement before it. -/
theorem octant_eq (h : Octant goes s t n m a b) (axis : Axis) (color : U16) {fuel : ℕ}
    (hfuel : n.toNat + 1 < fuel) (bufer : Bufer tft) :
    ((int32 (m - n.tdiv 2)).bind fun e => lineLoop axis goes s t n m color fuel a b e bufer) =
      some ⟨putPixels color bufer (linePoints axis s t n m a b), linePoints axis s t n m a b⟩ := by
  have hpos := h.short.trans h.long
  have hlt := h.long_lt
  have hbounds := error_bounds h.short h.long 0
  have hdraw := lineLoop_eq h axis color (n.toNat + 1) 0 fuel (by omega) hfuel bufer
  rw [Nat.cast_zero, mul_zero, add_zero, height_zero hpos, mul_zero, add_zero] at hdraw
  have hstart : int32 (m - n.tdiv 2) = some (error n m 0) := by
    rw [Int.tdiv_eq_ediv_of_nonneg hpos, ← error_zero hpos]
    have hm := h.short
    have hmn := h.long
    exact int32_eq (by omega) (by omega)
  rw [hstart, Option.bind_some, hdraw]
  rfl

end Octant

/-! ## The line -/

def Axis.along : Axis → ℤ × ℤ → ℤ
  | .x, p => p.1
  | .y, p => p.2

def Axis.across : Axis → ℤ × ℤ → ℤ
  | .x, p => p.2
  | .y, p => p.1

@[simp] theorem Axis.along_point (axis : Axis) (a b : ℤ) : axis.along (axis.point a b) = a := by
  cases axis <;> rfl

@[simp] theorem Axis.across_point (axis : Axis) (a b : ℤ) : axis.across (axis.point a b) = b := by
  cases axis <;> rfl

/-- The longer axis of the line from `p` to `q`. -/
def longer (p q : ℤ × ℤ) : Axis := if |q.2 - p.2| ≤ |q.1 - p.1| then .x else .y

/-- The list is a drawing of the line from `p` to `q`. -/
structure Rasterises (p q : ℤ × ℤ) (path : List (ℤ × ℤ)) : Prop where
  length : (path.length : ℤ) = max |q.1 - p.1| |q.2 - p.2| + 1
  head : path.head? = some p
  last : path.getLast? = some q
  /-- One step along the longer axis, and at most one along the other, towards the end point. -/
  steps : path.IsChain fun r r' =>
    (longer p q).along r' =
      (longer p q).along r + Int.sign ((longer p q).along q - (longer p q).along p) ∧
    ((longer p q).across r' = (longer p q).across r ∨
      (longer p q).across r' =
        (longer p q).across r + Int.sign ((longer p q).across q - (longer p q).across p))
  /-- The ideal line is half a pixel away at most, measured along the shorter axis. -/
  near : ∀ r ∈ path,
    |((longer p q).across r : ℚ) - ((longer p q).across p +
      ((longer p q).along r - (longer p q).along p) *
        ((longer p q).across q - (longer p q).across p) /
        ((longer p q).along q - (longer p q).along p))| ≤ 1 / 2

section Octant

variable {goes : ℤ → Bool} {s t n m a b : ℤ} {axis : Axis}

theorem Octant.abs_along (h : Octant goes s t n m a b) : |s * n| = n := by
  have hn := h.short.trans h.long
  rcases h.along with hs | hs <;> simp [hs, abs_of_nonneg hn]

theorem Octant.abs_across (h : Octant goes s t n m a b) : |t * m| = m := by
  rcases h.across with ht | ht <;> simp [ht, abs_of_nonneg h.short]

theorem Octant.longer (h : Octant goes s t n m a b) (haxis : axis = .y → m < n) :
    Lcd.longer (axis.point a b) (axis.point (a + s * n) (b + t * m)) = axis := by
  cases axis with
  | x =>
    refine if_pos ?_
    simp only [Axis.point, add_sub_cancel_left, h.abs_along, h.abs_across]
    exact h.long
  | y =>
    refine if_neg ?_
    simp only [Axis.point, add_sub_cancel_left, h.abs_along, h.abs_across]
    exact not_le.2 (haxis rfl)

theorem Octant.sign_along (h : Octant goes s t n m a b) (hn : 0 < n) : Int.sign (s * n) = s := by
  rcases h.along with hs | hs <;> simp [hs, Int.sign_eq_one_of_pos hn]

theorem Octant.sign_across (h : Octant goes s t n m a b) (hm : 0 < m) : Int.sign (t * m) = t := by
  rcases h.across with ht | ht <;> simp [ht, Int.sign_eq_one_of_pos hm]

theorem Octant.height_near (h : Octant goes s t n m a b) {i : ℕ} (hi : i ≤ n.toNat) :
    |(t : ℚ) * height n m i - s * i * (t * m) / (s * n)| ≤ 1 / 2 := by
  rcases (h.short.trans h.long).eq_or_lt with hzero | hpos
  · obtain rfl : i = 0 := by omega
    simp [← hzero, height_zero]
  · have hn : (0 : ℚ) < n := by exact_mod_cast hpos
    have hnear := Digital.height_near h.short h.long i
    have hs : (s : ℚ) * s = 1 := by
      rcases h.along with hs | hs <;> rw [hs] <;> norm_num
    have ht : |(t : ℚ)| = 1 := by
      rcases h.across with ht | ht <;> rw [ht] <;> norm_num
    have heq : (t : ℚ) * height n m i - s * i * (t * m) / (s * n) =
        -t * ((m * i - n * height n m i) / n) := by
      have hratio : (s : ℚ) * i * (t * m) / (s * n) = t * (m * i) / n := by
        rw [show (s : ℚ) * i * (t * m) = s * (t * (m * i)) by ring,
          mul_div_mul_left _ _ (left_ne_zero_of_mul_eq_one hs)]
      rw [hratio]
      field_simp
      ring
    rw [heq, abs_mul, abs_neg, ht, one_mul, abs_le, le_div_iff₀ hn, div_le_iff₀ hn]
    have hlow : -(n : ℚ) ≤ 2 * (m * i - n * height n m i) := by exact_mod_cast hnear.1
    have hhigh : 2 * ((m : ℚ) * i - n * height n m i) ≤ n := by exact_mod_cast hnear.2
    constructor <;> linarith

/-- **The points of an octant** are a drawing of its line. -/
theorem Octant.rasterises (h : Octant goes s t n m a b) (haxis : axis = .y → m < n) :
    Rasterises (axis.point a b) (axis.point (a + s * n) (b + t * m))
      (linePoints axis s t n m a b) := by
  have hn := h.short.trans h.long
  refine ⟨?_, ?_, ?_, ?_, ?_⟩
  · have hmax : max |(axis.point (a + s * n) (b + t * m)).1 - (axis.point a b).1|
        |(axis.point (a + s * n) (b + t * m)).2 - (axis.point a b).2| = n := by
      cases axis <;>
        simp [Axis.point, h.abs_along, h.abs_across, h.long]
    rw [hmax]
    simp [linePoints]
    omega
  · simp [linePoints, List.head?_range', linePoint, height_zero hn]
  · simp [linePoints, List.getLast?_range', linePoint, height_last h.short h.long, hn]
  · rw [h.longer haxis, List.isChain_iff_getElem]
    intro i hi
    have hlen : i + 1 < n.toNat + 1 := by simpa [linePoints] using hi
    simp only [linePoints, List.getElem_map, List.getElem_range', linePoint, Axis.along_point,
      Axis.across_point, Nat.zero_add, Nat.one_mul, add_sub_cancel_left]
    constructor
    · rw [h.sign_along (by omega)]
      push_cast
      ring
    · rw [height_of_error h.short h.long]
      split_ifs with hpos
      · rw [h.sign_across (hpos.trans_le (error_bounds h.short h.long i).2)]
        exact Or.inr (by ring)
      · exact Or.inl rfl
  · rw [h.longer haxis]
    intro r hr
    obtain ⟨i, hi, rfl⟩ := List.mem_map.1 hr
    rw [List.mem_range'_1] at hi
    simp only [linePoint, Axis.along_point, Axis.across_point]
    push_cast
    rw [add_sub_cancel_left, add_sub_cancel_left, add_sub_cancel_left, add_sub_add_left_eq_sub]
    exact h.height_near (by omega)

/-- The arguments of `PutPixel` are values of an `int`. -/
theorem Octant.mem_linePoints (h : Octant goes s t n m a b) {r : ℤ × ℤ}
    (hr : r ∈ linePoints axis s t n m a b) :
    (-2 ^ 31 ≤ r.1 ∧ r.1 < 2 ^ 31) ∧ -2 ^ 31 ≤ r.2 ∧ r.2 < 2 ^ 31 := by
  obtain ⟨i, hi, rfl⟩ := List.mem_map.1 hr
  rw [List.mem_range'_1] at hi
  have hheight := h.height_le (i := i) (by omega)
  have halong := h.count (i := i) (by omega)
  have hacross := h.turn (k := height n m i) (by omega)
  cases axis
  · exact ⟨halong, hacross⟩
  · exact ⟨hacross, halong⟩

end Octant

/-! ## The pixels -/

theorem toNat_ofInt {v : ℤ} (hv : -2 ^ 31 ≤ v ∧ v < 2 ^ 31) {k size : ℕ} (hk : k < size)
    (hsize : size ≤ 2 ^ 31) : (BitVec.ofInt 32 v).toNat = k ↔ v = k := by
  rw [BitVec.toNat_ofInt]
  omega

/-- The pixel of the screen in row `y` and column `x`. -/
def pixel (y : Fin tft.scrYsize) (x : Fin tft.scrXsize) : ℤ × ℤ := ((x : ℕ), (y : ℕ))

/-- A call of `PutPixel` writes the pixel of its arguments, if it is on the screen. -/
theorem putPixel_apply (b : Bufer tft) (c : U16) {p : ℤ × ℤ} (hx : -2 ^ 31 ≤ p.1 ∧ p.1 < 2 ^ 31)
    (hy : -2 ^ 31 ≤ p.2 ∧ p.2 < 2 ^ 31) (y : Fin tft.scrYsize) (x : Fin tft.scrXsize) :
    putPixel b (BitVec.ofInt 32 p.1) (BitVec.ofInt 32 p.2) c y x =
      if p = pixel y x then c else b y x := by
  have hxsize : tft.scrXsize ≤ 2 ^ 31 := by cases tft <;> decide
  have hysize : tft.scrYsize ≤ 2 ^ 31 := by cases tft <;> decide
  have hpixel : p = pixel y x ↔
      (BitVec.ofInt 32 p.1).toNat = x ∧ (BitVec.ofInt 32 p.2).toNat = y := by
    rw [toNat_ofInt hx x.isLt hxsize, toNat_ofInt hy y.isLt hysize]
    exact Prod.ext_iff
  rw [if_congr hpixel rfl rfl]
  unfold putPixel
  split_ifs with hin hhere hhere
  · rw [Function.update_apply, if_pos (Fin.ext hhere.2.symm), Function.update_apply,
      if_pos (Fin.ext hhere.1.symm)]
  · rw [Function.update_apply]
    split_ifs with hrow
    · rw [Function.update_apply, if_neg fun hcol => hhere ⟨?_, ?_⟩, hrow]
      · rw [hcol]
      · rw [hrow]
    · rfl
  · exact absurd ⟨hhere.1 ▸ x.isLt, hhere.2 ▸ y.isLt⟩ hin
  · rfl

theorem putPixels_apply (color : U16) (bufer : Bufer tft) (ps : List (ℤ × ℤ))
    (hps : ∀ p ∈ ps, (-2 ^ 31 ≤ p.1 ∧ p.1 < 2 ^ 31) ∧ -2 ^ 31 ≤ p.2 ∧ p.2 < 2 ^ 31)
    (y : Fin tft.scrYsize) (x : Fin tft.scrXsize) :
    putPixels color bufer ps y x = if pixel y x ∈ ps then color else bufer y x := by
  induction ps generalizing bufer with
  | nil => rfl
  | cons p ps ih =>
    have hp := hps p List.mem_cons_self
    show putPixels color (putPixel bufer _ _ color) ps y x = _
    rw [ih _ fun r hr => hps r (List.mem_cons_of_mem _ hr), putPixel_apply _ _ hp.1 hp.2]
    by_cases hrest : pixel y x ∈ ps
    · rw [if_pos hrest, if_pos (List.mem_cons_of_mem _ hrest)]
    · rw [if_neg hrest]
      refine if_congr ?_ rfl rfl
      rw [List.mem_cons, or_iff_left hrest, eq_comm]

/-! ## The result -/

/-- With enough fuel the result is a drawing of the line from `p` to `q`: only the pixels of the
screen on the path are written. -/
def Draws (bufer : Bufer tft) (color : U16) (p q : ℤ × ℤ) (r : ℕ → Option (Drawn tft)) : Prop :=
  ∃ drawn, (∀ fuel : ℕ, max |q.1 - p.1| |q.2 - p.2| + 1 < fuel → r fuel = some drawn) ∧
    Rasterises p q drawn.calls ∧
    ∀ y x, drawn.bufer y x = if pixel y x ∈ drawn.calls then color else bufer y x

/-- A branch of the function draws the line of the octant it is written for. -/
theorem branch_draws {s t n m a b a' b' : ℤ} (axis : Axis) (goes : ℤ → Bool)
    (halong : s = 1 ∨ s = -1) (hacross : t = 1 ∨ t = -1) (hshort : 0 ≤ m) (hlong : m ≤ n)
    (haxis : axis = .y → m < n) (hn : a + s * n = a') (hm : b + t * m = b')
    (hstart : |a| < 2 ^ 29 ∧ |b| < 2 ^ 29) (hstop : |a'| < 2 ^ 29 ∧ |b'| < 2 ^ 29)
    (hgoes : ∀ v, goes v = true ↔ 0 ≤ s * (a' - v)) {color : U16} {bufer : Bufer tft}
    {r : ℕ → Option (Drawn tft)} (hr : ∀ fuel, r fuel =
      (int32 (m - n.tdiv 2)).bind fun e => lineLoop axis goes s t n m color fuel a b e bufer) :
    Draws bufer color (axis.point a b) (axis.point a' b') r := by
  have h := Octant.intro halong hacross hshort hlong hn hm hstart hstop hgoes
  subst hn hm
  have hraster := h.rasterises haxis
  refine ⟨_, fun fuel hfuel => (hr fuel).trans (octant_eq h axis color ?_ bufer), hraster,
    fun y x => ?_⟩
  · rw [← hraster.length] at hfuel
    simpa only [linePoints, List.length_map, List.length_range', Nat.cast_lt] using hfuel
  · exact putPixels_apply color bufer _ (fun r => h.mem_linePoints) y x

/-- **The line.** -/
theorem glibLine_draws (x1 y1 x2 y2 : ℤ) (hp : |x1| < 2 ^ 29 ∧ |y1| < 2 ^ 29)
    (hq : |x2| < 2 ^ 29 ∧ |y2| < 2 ^ 29) (color : U16) (bufer : Bufer tft) :
    Draws bufer color (x1, y1) (x2, y2) fun fuel => glibLine fuel x1 y1 x2 y2 color bufer := by
  have hx1 := abs_lt.1 hp.1
  have hy1 := abs_lt.1 hp.2
  have hx2 := abs_lt.1 hq.1
  have hy2 := abs_lt.1 hq.2
  have hdx : int32 (x2 - x1) = some (x2 - x1) := int32_eq (by omega) (by omega)
  have hdy : int32 (y2 - y1) = some (y2 - y1) := int32_eq (by omega) (by omega)
  have hdx' : int32 (-(x2 - x1)) = some (-(x2 - x1)) := int32_eq (by omega) (by omega)
  have hdy' : int32 (-(y2 - y1)) = some (-(y2 - y1)) := int32_eq (by omega) (by omega)
  by_cases hright : 0 ≤ x2 - x1
  · by_cases hup : 0 ≤ y2 - y1
    · by_cases hflat : y2 - y1 ≤ x2 - x1
      · refine branch_draws .x (fun v => v ≤ x2) (Or.inl rfl) (Or.inl rfl) (by omega) hflat nofun
          (by ring) (by ring) hp hq (by simp) fun fuel => ?_
        simp only [glibLine, hdx, hdy, Option.bind_eq_bind, Option.bind_some,
          if_pos hright, if_pos hup, if_pos hflat]
      · refine branch_draws .y (fun v => v ≤ y2) (Or.inl rfl) (Or.inl rfl) (by omega)
          (not_le.1 hflat).le (fun _ => not_le.1 hflat) (by ring) (by ring) hp.symm hq.symm
          (by simp) fun fuel => ?_
        simp only [glibLine, hdx, hdy, Option.bind_eq_bind, Option.bind_some,
          if_pos hright, if_pos hup, if_neg hflat]
    · by_cases hflat : -(y2 - y1) ≤ x2 - x1
      · refine branch_draws .x (fun v => v ≤ x2) (Or.inl rfl) (Or.inr rfl) (by omega) hflat nofun
          (by ring) (by ring) hp hq (by simp) fun fuel => ?_
        simp only [glibLine, hdx, hdy, hdy', Option.bind_eq_bind, Option.bind_some,
          if_pos hright, if_neg hup, if_pos hflat]
      · refine branch_draws .y (fun v => y2 ≤ v) (Or.inr rfl) (Or.inl rfl) (by omega)
          (not_le.1 hflat).le (fun _ => not_le.1 hflat) (by ring) (by ring) hp.symm hq.symm
          (by simp) fun fuel => ?_
        simp only [glibLine, hdx, hdy, hdy', Option.bind_eq_bind, Option.bind_some,
          if_pos hright, if_neg hup, if_neg hflat]
  · by_cases hup : 0 ≤ y2 - y1
    · by_cases hflat : y2 - y1 ≤ -(x2 - x1)
      · refine branch_draws .x (fun v => x2 ≤ v) (Or.inr rfl) (Or.inl rfl) (by omega) hflat nofun
          (by ring) (by ring) hp hq (by simp) fun fuel => ?_
        simp only [glibLine, hdx, hdy, hdx', Option.bind_eq_bind, Option.bind_some,
          if_neg hright, if_pos hup, if_pos hflat]
      · refine branch_draws .y (fun v => v ≤ y2) (Or.inl rfl) (Or.inr rfl) (by omega)
          (not_le.1 hflat).le (fun _ => not_le.1 hflat) (by ring) (by ring) hp.symm hq.symm
          (by simp) fun fuel => ?_
        simp only [glibLine, hdx, hdy, hdx', Option.bind_eq_bind, Option.bind_some,
          if_neg hright, if_pos hup, if_neg hflat]
    · by_cases hflat : -(y2 - y1) ≤ -(x2 - x1)
      · refine branch_draws .x (fun v => x2 ≤ v) (Or.inr rfl) (Or.inr rfl) (by omega) hflat nofun
          (by ring) (by ring) hp hq (by simp) fun fuel => ?_
        simp only [glibLine, hdx, hdy, hdx', hdy', Option.bind_eq_bind, Option.bind_some,
          if_neg hright, if_neg hup, if_pos hflat]
      · refine branch_draws .y (fun v => y2 ≤ v) (Or.inr rfl) (Or.inr rfl) (by omega)
          (not_le.1 hflat).le (fun _ => not_le.1 hflat) (by ring) (by ring) hp.symm hq.symm
          (by simp) fun fuel => ?_
        simp only [glibLine, hdx, hdy, hdx', hdy', Option.bind_eq_bind, Option.bind_some,
          if_neg hright, if_neg hup, if_neg hflat]

theorem glibLine_draws_down : Draws (fun _ _ => 0 : Bufer .tft320240) 0xF800 (0, 0) (3, -2)
    fun fuel => glibLine fuel 0 0 3 (-2) 0xF800 fun _ _ => 0 :=
  glibLine_draws 0 0 3 (-2) (by decide) (by decide) 0xF800 _

example : (glibLine 6 0 0 3 (-2) 0xF800 (fun _ _ => 0 : Bufer .tft320240)).map Drawn.calls =
    some [(0, 0), (1, -1), (2, -1), (3, -2)] := by decide

end Lcd
