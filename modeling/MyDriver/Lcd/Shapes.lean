import MyDriver.Lcd.Line

/-!
# Rectangles

`Glib_Rectangle` and `Glib_FilledRectangle` are made of lines along the axes. `Lcd_ClearScr` writes
the pixels one by one.

* `Paints` — the pixels of a set have been given a colour, and no others.
* `glibLine_row`, `glibLine_column` — the lines.
* `glibRectangle_paints` — the outline, whichever corners are given.
* `glibFilledRectangle_paints` — **the filled rectangle**.
-/

namespace Lcd

open Digital

variable {tft : Tft} {bufer bufer' bufer'' : Bufer tft} {color : U16}

/-! ## What is painted -/

/-- The pixels in `S` have been given the colour, and no others. -/
structure Paints (bufer bufer' : Bufer tft) (color : U16) (S : Set (ℤ × ℤ)) : Prop where
  inside : ∀ y x, pixel y x ∈ S → bufer' y x = color
  outside : ∀ y x, pixel y x ∉ S → bufer' y x = bufer y x

theorem Paints.nothing (bufer : Bufer tft) (color : U16) : Paints bufer bufer color ∅ :=
  ⟨fun _ _ h => h.elim, fun _ _ _ => rfl⟩

theorem Paints.congr {S S' : Set (ℤ × ℤ)} (h : Paints bufer bufer' color S)
    (hS : ∀ p, p ∈ S ↔ p ∈ S') : Paints bufer bufer' color S' := by
  obtain rfl : S = S' := Set.ext hS
  exact h

/-- One after the other, in the same colour. -/
theorem Paints.union {S S' : Set (ℤ × ℤ)} (h : Paints bufer bufer' color S)
    (h' : Paints bufer' bufer'' color S') : Paints bufer bufer'' color (S ∪ S') := by
  refine ⟨fun y x hin => ?_, fun y x hout => ?_⟩
  · by_cases hlater : pixel y x ∈ S'
    · exact h'.inside y x hlater
    · rw [h'.outside y x hlater]
      exact h.inside y x (hin.resolve_right hlater)
  · rw [h'.outside y x fun hin => hout (Or.inr hin), h.outside y x fun hin => hout (Or.inl hin)]

/-! ## Lines along the axes -/

/-- The points of the row `y` from `x1` to `x2`, in either direction. -/
def row (x1 x2 y : ℤ) : Set (ℤ × ℤ) := {p | (min x1 x2 ≤ p.1 ∧ p.1 ≤ max x1 x2) ∧ p.2 = y}

def column (x y1 y2 : ℤ) : Set (ℤ × ℤ) := {p | p.1 = x ∧ min y1 y2 ≤ p.2 ∧ p.2 ≤ max y1 y2}

theorem height_flat {n : ℤ} (hn : 0 ≤ n) (i : ℕ) : height n 0 i = 0 := by
  induction i with
  | zero => exact height_zero hn
  | succ i ih =>
    have hbounds := error_bounds le_rfl hn i
    rw [height_of_error le_rfl hn, ih, if_neg (by omega)]

section Straight

variable {goes : ℤ → Bool} {s n a b : ℤ} {axis : Axis}

theorem mem_straight (hs : s = 1 ∨ s = -1) (hn : 0 ≤ n) {p : ℤ × ℤ} :
    p ∈ linePoints axis s 1 n 0 a b ↔
      axis.across p = b ∧ 0 ≤ s * (axis.along p - a) ∧ s * (axis.along p - a) ≤ n := by
  constructor
  · intro hp
    obtain ⟨i, hi, rfl⟩ := List.mem_map.1 hp
    rw [List.mem_range'_1] at hi
    rw [linePoint, Axis.across_point, Axis.along_point, height_flat hn]
    refine ⟨by ring, ?_⟩
    rcases hs with rfl | rfl <;> constructor <;> omega
  · rintro ⟨hacross, hlow, hhigh⟩
    refine List.mem_map.2 ⟨(s * (axis.along p - a)).toNat, ?_, ?_⟩
    · rw [List.mem_range'_1]
      omega
    · have hpoint : axis.point (axis.along p) (axis.across p) = p := by cases axis <;> rfl
      rw [linePoint, height_flat hn]
      conv_rhs => rw [← hpoint, hacross]
      congr 1
      · rcases hs with rfl | rfl <;> omega
      · ring

/-- The loop of a line along an axis. -/
theorem Octant.paints (h : Octant goes s 1 n 0 a b) (axis : Axis) (color : U16)
    (bufer : Bufer tft) :
    Paints bufer (putPixels color bufer (linePoints axis s 1 n 0 a b)) color
      {p | axis.across p = b ∧ 0 ≤ s * (axis.along p - a) ∧ s * (axis.along p - a) ≤ n} := by
  have hpixels := putPixels_apply color bufer (linePoints axis s 1 n 0 a b)
    fun r hr => h.mem_linePoints hr
  refine ⟨fun y x hin => ?_, fun y x hout => ?_⟩
  · rw [hpixels, if_pos ((mem_straight h.along h.long).2 hin)]
  · rw [hpixels, if_neg fun hin => hout ((mem_straight h.along h.long).1 hin)]

end Straight

/-- With enough fuel the call returns, and has painted `S`. -/
def Fills (bufer : Bufer tft) (color : U16) (S : Set (ℤ × ℤ)) (enough : ℤ)
    (r : ℕ → Option (Bufer tft)) : Prop :=
  ∃ bufer', (∀ fuel : ℕ, enough < fuel → r fuel = some bufer') ∧ Paints bufer bufer' color S

/-- One call after another. -/
theorem Fills.bind {S S' : Set (ℤ × ℤ)} {enough enough' bound : ℤ} {r : ℕ → Option (Bufer tft)}
    {r' : ℕ → Bufer tft → Option (Bufer tft)} (h : Fills bufer color S enough r)
    (h' : ∀ bufer', Fills bufer' color S' enough' fun fuel => r' fuel bufer')
    (hle : enough ≤ bound) (hle' : enough' ≤ bound) :
    Fills bufer color (S ∪ S') bound fun fuel => (r fuel).bind (r' fuel) := by
  obtain ⟨bufer', hr, hpaints⟩ := h
  obtain ⟨bufer'', hr', hpaints'⟩ := h' bufer'
  refine ⟨bufer'', fun fuel hfuel => ?_, hpaints.union hpaints'⟩
  dsimp only
  rw [hr fuel (by omega), Option.bind_some]
  exact hr' fuel (by omega)

section Lines

variable {x1 y1 x2 y2 : ℤ}

/-- **A horizontal line.** -/
theorem glibLine_row {y : ℤ} (hx1 : |x1| < 2 ^ 29) (hx2 : |x2| < 2 ^ 29) (hy : |y| < 2 ^ 29)
    (color : U16) (bufer : Bufer tft) :
    Fills bufer color (row x1 x2 y) (|x2 - x1| + 1) fun fuel =>
      (glibLine fuel x1 y x2 y color bufer).map Drawn.bufer := by
  have h1 := abs_lt.1 hx1
  have h2 := abs_lt.1 hx2
  have hdx : int32 (x2 - x1) = some (x2 - x1) := int32_eq (by omega) (by omega)
  have hdx' : int32 (-(x2 - x1)) = some (-(x2 - x1)) := int32_eq (by omega) (by omega)
  have hdy : int32 (y - y) = some 0 := by rw [sub_self]; exact int32_eq (by norm_num) (by norm_num)
  by_cases hright : 0 ≤ x2 - x1
  · have hend : x1 + 1 * (x2 - x1) = x2 := by ring
    have h : Octant (fun v => v ≤ x2) 1 1 (x2 - x1) 0 x1 y := Octant.intro (Or.inl rfl)
      (Or.inl rfl) le_rfl hright hend (add_zero y) ⟨hx1, hy⟩ ⟨hx2, hy⟩ (by simp)
    refine ⟨_, fun fuel hfuel => ?_, (h.paints .x color bufer).congr fun p => ?_⟩
    · rw [abs_of_nonneg hright] at hfuel
      simp only [glibLine, hdx, hdy, Option.bind_eq_bind, Option.bind_some, if_pos hright,
        if_pos le_rfl]
      rw [octant_eq h .x color (by omega) bufer]
      rfl
    · simp only [row, Set.mem_ofPred_eq, Axis.along, Axis.across]
      omega
  · have hend : x1 + -1 * -(x2 - x1) = x2 := by ring
    have h : Octant (fun v => x2 ≤ v) (-1) 1 (-(x2 - x1)) 0 x1 y := Octant.intro (Or.inr rfl)
      (Or.inl rfl) le_rfl (by omega) hend (add_zero y) ⟨hx1, hy⟩ ⟨hx2, hy⟩ (by simp)
    refine ⟨_, fun fuel hfuel => ?_, (h.paints .x color bufer).congr fun p => ?_⟩
    · rw [abs_of_neg (not_le.1 hright)] at hfuel
      simp only [glibLine, hdx, hdx', hdy, Option.bind_eq_bind, Option.bind_some, if_neg hright,
        if_pos le_rfl, if_pos (show (0 : ℤ) ≤ -(x2 - x1) by omega)]
      rw [octant_eq h .x color (by omega) bufer]
      rfl
    · simp only [row, Set.mem_ofPred_eq, Axis.along, Axis.across]
      omega

/-- **A vertical line.** -/
theorem glibLine_column {x : ℤ} (hx : |x| < 2 ^ 29) (hy1 : |y1| < 2 ^ 29) (hy2 : |y2| < 2 ^ 29)
    (color : U16) (bufer : Bufer tft) :
    Fills bufer color (column x y1 y2) (|y2 - y1| + 1) fun fuel =>
      (glibLine fuel x y1 x y2 color bufer).map Drawn.bufer := by
  have h1 := abs_lt.1 hy1
  have h2 := abs_lt.1 hy2
  by_cases hpoint : y2 = y1
  · subst hpoint
    obtain ⟨bufer', hr, hpaints⟩ := glibLine_row hx hx hy2 color bufer
    rw [sub_self] at hr ⊢
    refine ⟨bufer', hr, hpaints.congr fun p => ?_⟩
    simp only [row, column, Set.mem_ofPred_eq]
    omega
  have hdy : int32 (y2 - y1) = some (y2 - y1) := int32_eq (by omega) (by omega)
  have hdy' : int32 (-(y2 - y1)) = some (-(y2 - y1)) := int32_eq (by omega) (by omega)
  have hdx : int32 (x - x) = some 0 := by rw [sub_self]; exact int32_eq (by norm_num) (by norm_num)
  by_cases hup : 0 ≤ y2 - y1
  · have hend : y1 + 1 * (y2 - y1) = y2 := by ring
    have h : Octant (fun v => v ≤ y2) 1 1 (y2 - y1) 0 y1 x := Octant.intro (Or.inl rfl)
      (Or.inl rfl) le_rfl hup hend (add_zero x) ⟨hy1, hx⟩ ⟨hy2, hx⟩ (by simp)
    refine ⟨_, fun fuel hfuel => ?_, (h.paints .y color bufer).congr fun p => ?_⟩
    · rw [abs_of_nonneg hup] at hfuel
      simp only [glibLine, hdx, hdy, Option.bind_eq_bind, Option.bind_some, if_pos hup,
        if_pos le_rfl, if_neg (show ¬ y2 - y1 ≤ 0 by omega)]
      rw [octant_eq h .y color (by omega) bufer]
      rfl
    · simp only [column, Set.mem_ofPred_eq, Axis.along, Axis.across]
      omega
  · have hend : y1 + -1 * -(y2 - y1) = y2 := by ring
    have h : Octant (fun v => y2 ≤ v) (-1) 1 (-(y2 - y1)) 0 y1 x := Octant.intro (Or.inr rfl)
      (Or.inl rfl) le_rfl (by omega) hend (add_zero x) ⟨hy1, hx⟩ ⟨hy2, hx⟩ (by simp)
    refine ⟨_, fun fuel hfuel => ?_, (h.paints .y color bufer).congr fun p => ?_⟩
    · rw [abs_of_neg (not_le.1 hup)] at hfuel
      simp only [glibLine, hdx, hdy, hdy', Option.bind_eq_bind, Option.bind_some, if_neg hup,
        if_pos le_rfl, if_neg (show ¬ -(y2 - y1) ≤ 0 by omega)]
      rw [octant_eq h .y color (by omega) bufer]
      rfl
    · simp only [column, Set.mem_ofPred_eq, Axis.along, Axis.across]
      omega

end Lines

/-! ## The shapes -/

/-- `Glib_Rectangle`, which `LCD_240X320.c` has in a comment only. -/
def glibRectangle (fuel : ℕ) (x1 y1 x2 y2 : ℤ) (color : U16) (bufer : Bufer tft) :
    Option (Bufer tft) := do
  let bufer ← (glibLine fuel x1 y1 x2 y1 color bufer).map Drawn.bufer
  let bufer ← (glibLine fuel x2 y1 x2 y2 color bufer).map Drawn.bufer
  let bufer ← (glibLine fuel x1 y2 x2 y2 color bufer).map Drawn.bufer
  (glibLine fuel x1 y1 x1 y2 color bufer).map Drawn.bufer

/-- The loop of `Glib_FilledRectangle`. -/
def fillLoop (fuel : ℕ) (x1 x2 y2 : ℤ) (color : U16) : ℕ → ℤ → Bufer tft → Option (Bufer tft)
  | 0, _, _ => none
  | left + 1, i, bufer =>
    if i ≤ y2 then do
      let bufer ← (glibLine fuel x1 i x2 i color bufer).map Drawn.bufer
      let i ← int32 (i + 1)
      fillLoop fuel x1 x2 y2 color left i bufer
    else some bufer

def glibFilledRectangle (fuel : ℕ) (x1 y1 x2 y2 : ℤ) (color : U16) (bufer : Bufer tft) :
    Option (Bufer tft) := fillLoop fuel x1 x2 y2 color fuel y1 bufer

def lcdClearScr (c : U16) (bufer : Bufer tft) : Bufer tft :=
  (List.finRange tft.scrYsize).foldl (fun b y =>
    (List.finRange tft.scrXsize).foldl (fun b x => Function.update b y (Function.update (b y) x c))
      b) bufer

/-! ## What they paint -/

section Rectangles

variable {x1 y1 x2 y2 : ℤ}

/-- **The outline of a rectangle**, whichever corners are given and wherever they lie. -/
theorem glibRectangle_paints (x1 y1 x2 y2 : ℤ) (hp : |x1| < 2 ^ 29 ∧ |y1| < 2 ^ 29)
    (hq : |x2| < 2 ^ 29 ∧ |y2| < 2 ^ 29) (color : U16) (bufer : Bufer tft) :
    Fills bufer color
      {p | ((min x1 x2 ≤ p.1 ∧ p.1 ≤ max x1 x2) ∧ min y1 y2 ≤ p.2 ∧ p.2 ≤ max y1 y2) ∧
        (p.1 = x1 ∨ p.1 = x2 ∨ p.2 = y1 ∨ p.2 = y2)}
      (max |x2 - x1| |y2 - y1| + 1) fun fuel => glibRectangle fuel x1 y1 x2 y2 color bufer := by
  have hwide : |x2 - x1| + 1 ≤ max |x2 - x1| |y2 - y1| + 1 := by omega
  have hhigh : |y2 - y1| + 1 ≤ max |x2 - x1| |y2 - y1| + 1 := by omega
  have hall := (glibLine_row hp.1 hq.1 hp.2 color bufer).bind
    (fun b => (glibLine_column hq.1 hp.2 hq.2 color b).bind
      (fun b => (glibLine_row hp.1 hq.1 hq.2 color b).bind
        (fun b => glibLine_column hp.1 hp.2 hq.2 color b) hwide hhigh) hhigh le_rfl) hwide le_rfl
  obtain ⟨bufer', hr, hpaints⟩ := hall
  refine ⟨bufer', hr, hpaints.congr fun p => ?_⟩
  simp only [row, column, Set.mem_union, Set.mem_ofPred_eq]
  omega

theorem glibRectangle_paints_turned :
    Fills (fun _ _ => 0 : Bufer .tft320240) 0xF800
      {p | ((min 5 2 ≤ p.1 ∧ p.1 ≤ max 5 2) ∧ min 4 (-1) ≤ p.2 ∧ p.2 ≤ max 4 (-1)) ∧
        (p.1 = 5 ∨ p.1 = 2 ∨ p.2 = 4 ∨ p.2 = -1)}
      (max |2 - 5| |-1 - 4| + 1) fun fuel => glibRectangle fuel 5 4 2 (-1) 0xF800 fun _ _ => 0 :=
  glibRectangle_paints 5 4 2 (-1) (by decide) (by decide) 0xF800 _

/-- The rows from `i` to the last one. -/
theorem fillLoop_fills (hx1 : |x1| < 2 ^ 29) (hx2 : |x2| < 2 ^ 29) (hy2 : |y2| < 2 ^ 29)
    (color : U16) (rows : ℕ) {i : ℤ} (hi : -2 ^ 29 < i) (hrows : rows = (y2 + 1 - i).toNat)
    (bufer : Bufer tft) :
    ∃ bufer', (∀ fuel left : ℕ, |x2 - x1| + 1 < fuel → rows < left →
        fillLoop fuel x1 x2 y2 color left i bufer = some bufer') ∧
      Paints bufer bufer' color {p | (min x1 x2 ≤ p.1 ∧ p.1 ≤ max x1 x2) ∧ i ≤ p.2 ∧ p.2 ≤ y2} := by
  have hy2' := abs_lt.1 hy2
  induction rows generalizing i bufer with
  | zero =>
    refine ⟨bufer, fun fuel left _ hleft => ?_, (Paints.nothing bufer color).congr fun p => ?_⟩
    · obtain ⟨left, rfl⟩ : ∃ k, left = k + 1 := ⟨left - 1, by omega⟩
      rw [fillLoop, if_neg (by omega)]
    · simp only [Set.mem_empty_iff_false, Set.mem_ofPred_eq, false_iff]
      omega
  | succ rows ih =>
    obtain ⟨bufer₁, hline, hpaints⟩ :=
      glibLine_row (y := i) hx1 hx2 (abs_lt.2 ⟨hi, by omega⟩) color bufer
    obtain ⟨bufer₂, hrest, hpaints'⟩ := ih (i := i + 1) (by omega) (by omega) bufer₁
    refine ⟨bufer₂, fun fuel left hfuel hleft => ?_, (hpaints.union hpaints').congr fun p => ?_⟩
    · obtain ⟨left, rfl⟩ : ∃ k, left = k + 1 := ⟨left - 1, by omega⟩
      have hnext : int32 (i + 1) = some (i + 1) := int32_eq (by omega) (by omega)
      have hdraw := hline fuel hfuel
      dsimp only at hdraw
      rw [fillLoop, if_pos (by omega), hdraw]
      simp only [Option.bind_eq_bind, Option.bind_some, hnext]
      exact hrest fuel left hfuel (by omega)
    · simp only [row, Set.mem_union, Set.mem_ofPred_eq]
      omega

/-- **The filled rectangle.** It does not matter which of the columns comes first, but the rows have
to be in order. What lies off the screen is left out. -/
theorem glibFilledRectangle_paints (x1 y1 x2 y2 : ℤ) (hp : |x1| < 2 ^ 29 ∧ |y1| < 2 ^ 29)
    (hq : |x2| < 2 ^ 29 ∧ |y2| < 2 ^ 29) (color : U16) (bufer : Bufer tft) :
    Fills bufer color {p | (min x1 x2 ≤ p.1 ∧ p.1 ≤ max x1 x2) ∧ y1 ≤ p.2 ∧ p.2 ≤ y2}
      (max |x2 - x1| |y2 - y1| + 1) fun fuel =>
        glibFilledRectangle fuel x1 y1 x2 y2 color bufer := by
  have hy1 := abs_lt.1 hp.2
  obtain ⟨bufer', hr, hpaints⟩ := fillLoop_fills hp.1 hq.1 hq.2 color _ hy1.1 rfl bufer
  have hwide := abs_nonneg (x2 - x1)
  have hhigh := le_abs_self (y2 - y1)
  exact ⟨bufer', fun fuel hfuel => hr fuel fuel (by omega) (by omega), hpaints⟩

theorem glibFilledRectangle_paints_mixed :
    Fills (fun _ _ => 0 : Bufer .tft320240) 0x07E0
      {p | (min 5 2 ≤ p.1 ∧ p.1 ≤ max 5 2) ∧ -1 ≤ p.2 ∧ p.2 ≤ 1} (max |2 - 5| |1 - -1| + 1)
      fun fuel => glibFilledRectangle fuel 5 (-1) 2 1 0x07E0 fun _ _ => 0 :=
  glibFilledRectangle_paints 5 (-1) 2 1 (by decide) (by decide) 0x07E0 _

end Rectangles

/-- The inner loop of `Lcd_ClearScr`. -/
theorem clearRow_apply (c : U16) (y : Fin tft.scrYsize) (l : List (Fin tft.scrXsize))
    (bufer : Bufer tft) (y' : Fin tft.scrYsize) (x' : Fin tft.scrXsize) :
    l.foldl (fun b x => Function.update b y (Function.update (b y) x c)) bufer y' x' =
      if y' = y ∧ x' ∈ l then c else bufer y' x' := by
  induction l generalizing bufer with
  | nil => simp
  | cons x l ih =>
    rw [List.foldl_cons, ih]
    by_cases hrow : y' = y
    · subst hrow
      by_cases hlater : x' ∈ l
      · rw [if_pos ⟨rfl, hlater⟩, if_pos ⟨rfl, List.mem_cons_of_mem _ hlater⟩]
      · rw [if_neg fun h => hlater h.2, Function.update_self, Function.update_apply]
        refine if_congr ?_ rfl rfl
        rw [List.mem_cons, or_iff_left hlater, and_iff_right rfl]
    · rw [if_neg fun h => hrow h.1, if_neg fun h => hrow h.1, Function.update_of_ne hrow]

theorem lcdClearScr_eq (c : U16) (bufer : Bufer tft) : lcdClearScr c bufer = fun _ _ => c := by
  have hrows : ∀ (l : List (Fin tft.scrYsize)) (b : Bufer tft) (y x),
      l.foldl (fun b y => (List.finRange tft.scrXsize).foldl
        (fun b x => Function.update b y (Function.update (b y) x c)) b) b y x =
        if y ∈ l then c else b y x := by
    intro l
    induction l with
    | nil => simp
    | cons y₀ l ih =>
      intro b y x
      rw [List.foldl_cons, ih, clearRow_apply]
      by_cases hlater : y ∈ l
      · rw [if_pos hlater, if_pos (List.mem_cons_of_mem _ hlater)]
      · rw [if_neg hlater]
        refine if_congr ?_ rfl rfl
        rw [List.mem_cons, or_iff_left hlater, and_iff_left (List.mem_finRange x)]
  funext y x
  exact (hrows _ bufer y x).trans (if_pos (List.mem_finRange y))

/-- Clearing the screen is filling all of it. -/
theorem glibFilledRectangle_screen (c : U16) (bufer : Bufer tft) {fuel : ℕ}
    (hfuel : tft.scrXsize + tft.scrYsize < fuel) :
    glibFilledRectangle fuel 0 0 (tft.scrXsize - 1) (tft.scrYsize - 1) c bufer =
      some (lcdClearScr c bufer) := by
  have hsize : 0 < tft.scrXsize ∧ tft.scrXsize ≤ 640 ∧ 0 < tft.scrYsize ∧ tft.scrYsize ≤ 480 := by
    cases tft <;> decide
  have hbound : ∀ {v : ℤ}, 0 ≤ v → v < 640 → |v| < 2 ^ 29 := fun hlow hhigh => by
    rw [abs_of_nonneg hlow]
    omega
  have hx : |(tft.scrXsize : ℤ) - 1| < 2 ^ 29 := hbound (by omega) (by omega)
  have hy : |(tft.scrYsize : ℤ) - 1| < 2 ^ 29 := hbound (by omega) (by omega)
  have hrows : tft.scrYsize = ((tft.scrYsize : ℤ) - 1 + 1 - 0).toNat := by omega
  obtain ⟨bufer', hr, hpaints⟩ :=
    fillLoop_fills (hbound le_rfl (by omega)) hx hy c _ (by omega) hrows bufer
  refine (hr fuel fuel ?_ (by omega)).trans (congrArg some ?_)
  · rw [sub_zero, abs_of_nonneg (by omega)]
    omega
  · rw [lcdClearScr_eq]
    funext y x
    refine hpaints.inside y x ?_
    have hx := x.isLt
    have hy := y.isLt
    simp only [pixel, Set.mem_ofPred_eq]
    omega

end Lcd
