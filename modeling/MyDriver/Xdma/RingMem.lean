import MyDriver.Xdma.Groups

/-!
# The ring functions on the memory of the BDs

A ring function writes only to BDs it walks over, one after the other, with the same few words
changed in each. `Edits body eff` says that `body` changes one BD, and its words by `eff`;
`walkBds` runs a body over neighbouring BDs, and `walkBds_own` and `walkBds_other` say what every
BD of the ring holds afterwards. The loops of `bdRingToHw` and `bdRingFree` are walks.

No edit here changes a link word, so a walk keeps all of them (`SameLinks`).
-/

namespace Dma

open Cyclic Words

variable {r : BdRing}

/-- `body` writes only to the BD it is given, and changes its words by `eff`. -/
structure Edits (body : Mem → U32 → Mem) (eff : BdWords → BdWords) : Prop where
  touches : ∀ m bd, Touches [bd] m (body m bd)
  words : ∀ m bd, bdWords (body m bd) bd = eff (bdWords m bd)

namespace Edits

variable {body body₁ body₂ : Mem → U32 → Mem} {eff eff₁ eff₂ : BdWords → BdWords}

theorem comp (h₂ : Edits body₂ eff₂) (h₁ : Edits body₁ eff₁) :
    Edits (fun m bd => body₂ (body₁ m bd) bd) (eff₂ ∘ eff₁) where
  touches m bd := (h₁.touches m bd).trans (h₂.touches _ bd)
  words m bd := by rw [h₂.words, h₁.words]; rfl

/-- The other BDs of the ring stay as they are. -/
theorem other (he : Edits body eff) (h : Laid r) (m : Mem) {x y : ℕ}
    (hne : bdAt r y ≠ bdAt r x) : bdWords (body m (bdAt r x)) (bdAt r y) = bdWords m (bdAt r y) :=
  (he.touches m _).words fun b hb => by
    rw [List.mem_singleton.1 hb]
    exact (h.apart hne).symm

end Edits

theorem edits_setStatus (d : U32) : Edits (fun m bd => bdSetStatus m bd d)
    fun w => { w with status := w.status &&& bdBuflMask ||| d &&& bdStatusMask } :=
  ⟨fun m bd => touches_setStatus m bd d, fun m bd => words_setStatus m bd d⟩

theorem edits_setCtrl (d : U32) : Edits (fun m bd => bdSetCtrl m bd d)
    fun w => { w with ctrl := w.ctrl &&& bdBuflMask ||| d &&& bdCtrlMask } :=
  ⟨fun m bd => touches_setCtrl m bd d, fun m bd => words_setCtrl m bd d⟩

theorem edits_setCtrlLength (d : U32) : Edits (fun m bd => bdSetCtrlLength m bd d)
    fun w => { w with ctrl := w.ctrl &&& bdCtrlMask ||| d &&& bdBuflMask } :=
  ⟨fun m bd => touches_setCtrlLength m bd d, fun m bd => words_setCtrlLength m bd d⟩

theorem edits_setStatLength (d : U32) : Edits (fun m bd => bdSetStatLength m bd d)
    fun w => { w with status := w.status &&& bdStatusMask ||| d &&& bdBuflMask } :=
  ⟨fun m bd => touches_setStatLength m bd d, fun m bd => words_setStatLength m bd d⟩

theorem edits_setId (d : U32) : Edits (fun m bd => bdSetId m bd d)
    fun w => { w with vbufal := d } :=
  ⟨fun m bd => touches_setId m bd d, fun m bd => words_setId m bd d⟩

theorem edits_setBufAddr (d : U32) : Edits (fun m bd => bdSetBufAddr m bd d)
    fun w => { w with bufal := d, bufah := 0 } :=
  ⟨fun m bd => touches_setBufAddr m bd d, fun m bd => words_setBufAddr m bd d⟩

theorem edits_setUserData (u : BitVec 64) : Edits (fun m bd => bdSetUserData m bd u)
    fun w => { w with usrl := u.setWidth 32, usrh := (u >>> 32).setWidth 32 } :=
  ⟨fun m bd => touches_setUserData m bd u, fun m bd => words_setUserData m bd u⟩

/-- The body of the loop of `bdRingFree`. -/
def freeBd (m : Mem) (bd : U32) : Mem :=
  bdWrite (bdWrite m bd bdBuflStatusOffset 0) bd bdBuflCtrlOffset 0

theorem edits_freeBd : Edits freeBd fun w => { w with status := 0, ctrl := 0 } where
  touches m bd := (touches_bdWrite m bd 0 (by decide)).trans (touches_bdWrite _ bd 0 (by decide))
  words m bd := by
    ext1 <;> simp [bdWords, freeBd, bdRead_bdWrite, bdBuflStatusOffset, bdUsrlOffset, bdUsrhOffset,
      bdBuflCtrlOffset, bdBufalOffset, bdBufahOffset, bdNdescOffset, bdVbufalOffset]

/-! ## Walks -/

/-- Run `body 0`, `body 1`, … over `k` BDs from `cur` on. -/
def walkBds (r : BdRing) : (ℕ → Mem → U32 → Mem) → ℕ → Mem → U32 → Mem
  | _, 0, m, _ => m
  | body, k + 1, m, cur =>
    walkBds r (fun i => body (i + 1)) k (body 0 m cur) (bdRingNext r cur)

section Walk

variable {body : ℕ → Mem → U32 → Mem} {eff : ℕ → BdWords → BdWords}

theorem walkBds_other (h : Laid r) (he : ∀ i, Edits (body i) (eff i)) {k : ℕ} (m : Mem) {x y : ℕ}
    (hne : ∀ i < k, bdAt r y ≠ bdAt r (x + i)) :
    bdWords (walkBds r body k m (bdAt r x)) (bdAt r y) = bdWords m (bdAt r y) := by
  induction k generalizing body eff m x with
  | zero => rfl
  | succ k ih =>
    have hrest : ∀ i < k, bdAt r y ≠ bdAt r (x + 1 + i) := fun i hi => by
      rw [Nat.add_assoc, Nat.add_comm 1]
      exact hne (i + 1) (by omega)
    rw [walkBds, h.next, ih (fun i => he (i + 1)) _ hrest]
    exact (he 0).other h m (hne 0 (by omega))

theorem walkBds_own (h : Laid r) (he : ∀ i, Edits (body i) (eff i)) {k : ℕ}
    (hk : k ≤ r.allCnt.toNat) (m : Mem) (x : ℕ) {i : ℕ} (hi : i < k) :
    bdWords (walkBds r body k m (bdAt r x)) (bdAt r (x + i)) =
      eff i (bdWords m (bdAt r (x + i))) := by
  induction k generalizing body eff m x i with
  | zero => omega
  | succ k ih =>
    have hfar : ∀ j, j < k → bdAt r x ≠ bdAt r (x + 1 + j) := fun j hj heq => by
      have := h.circle.eq_of_near (x := x) (i := 0) (j := 1 + j) (by omega) (by omega)
        (by rwa [Nat.add_zero, ← Nat.add_assoc])
      omega
    rw [walkBds, h.next]
    cases i with
    | zero =>
      show bdWords _ (bdAt r x) = eff 0 (bdWords m (bdAt r x))
      rw [walkBds_other h (fun i => he (i + 1)) _ hfar, (he 0).words]
    | succ i =>
      rw [show x + (i + 1) = x + 1 + i by omega, ih (fun i => he (i + 1)) (by omega) _ _ (by omega),
        (he 0).other h _ (hfar i (by omega)).symm]

end Walk

theorem freeLoop_walk (k : ℕ) (m : Mem) (cur : U32) :
    freeLoop r k m cur = walkBds r (fun _ => freeBd) k m cur := by
  induction k generalizing m cur with
  | zero => rfl
  | succ k ih => rw [freeLoop, ih]; rfl

/-- The loop of `bdRingToHw` clears the status of the BDs it passes: of all of them when it runs
to its end, of those before the BD without a length when it does not. -/
theorem toHwLoop_walk (r : BdRing) (k : ℕ) (m : Mem) (cur : U32) :
    ∃ j ≤ k, (toHwLoop r k m cur).2.1 = walkBds r (fun _ m bd => bdSetStatus m bd 0) j m cur ∧
      ((toHwLoop r k m cur).1 = true → j = k) := by
  induction k generalizing m cur with
  | zero => exact ⟨0, le_rfl, rfl, fun _ => rfl⟩
  | succ k ih =>
    unfold toHwLoop
    split_ifs with hlen
    · exact ⟨0, by omega, rfl, fun h => by simp at h⟩
    · obtain ⟨j, hj, hmem, hend⟩ := ih (bdSetStatus m cur 0) (bdRingNext r cur)
      exact ⟨j + 1, by omega, hmem, fun h => by rw [hend h]⟩

/-- The loop runs to its end exactly when every BD has a length. -/
theorem toHwLoop_ok (h : Laid r) (k : ℕ) (m : Mem) (x : ℕ) :
    (toHwLoop r k m (bdAt r x)).1 = true ↔
      ∀ i < k, (bdWords m (bdAt r (x + i))).ctrl &&& bdBuflMask ≠ 0 := by
  induction k generalizing m x with
  | zero => simp [toHwLoop]
  | succ k ih =>
    have hctrl : ∀ y, (bdWords (bdSetStatus m (bdAt r x) 0) (bdAt r y)).ctrl =
        (bdWords m (bdAt r y)).ctrl := fun y => by
      by_cases hy : bdAt r y = bdAt r x
      · rw [hy, words_setStatus]
      · rw [(edits_setStatus 0).other h m hy]
    have hfirst : (bdWords m (bdAt r (x + 0))).ctrl = bdRead m (bdAt r x) bdBuflCtrlOffset := rfl
    unfold toHwLoop
    split_ifs with hlen
    · simp only [false_iff, not_forall]
      exact ⟨0, by omega, by rw [hfirst, hlen]; simp⟩
    · rw [h.next, ih]
      simp only [hctrl]
      constructor
      · intro hall i hi
        cases i with
        | zero => rw [hfirst]; exact hlen
        | succ i =>
          have := hall i (by omega)
          rwa [show x + 1 + i = x + (i + 1) by omega] at this
      · intro hall i hi
        rw [show x + 1 + i = x + (i + 1) by omega]
        exact hall (i + 1) (by omega)

/-! ## Links -/

/-- Every BD of the ring has the link word it had. -/
def SameLinks (r : BdRing) (m m' : Mem) : Prop :=
  ∀ x, (bdWords m' (bdAt r x)).ndesc = (bdWords m (bdAt r x)).ndesc

theorem SameLinks.refl (r : BdRing) (m : Mem) : SameLinks r m m := fun _ => rfl

theorem SameLinks.trans {m m₁ m₂ : Mem} (h₁ : SameLinks r m m₁) (h₂ : SameLinks r m₁ m₂) :
    SameLinks r m m₂ := fun x => (h₂ x).trans (h₁ x)

theorem Edits.sameLinks {body : Mem → U32 → Mem} {eff : BdWords → BdWords} (he : Edits body eff)
    (hlink : ∀ w, (eff w).ndesc = w.ndesc) (h : Laid r) (m : Mem) (x : ℕ) :
    SameLinks r m (body m (bdAt r x)) := by
  intro y
  by_cases hy : bdAt r y = bdAt r x
  · rw [hy, he.words, hlink]
  · rw [he.other h m hy]

theorem walkBds_sameLinks {body : ℕ → Mem → U32 → Mem} {eff : ℕ → BdWords → BdWords} (h : Laid r)
    (he : ∀ i, Edits (body i) (eff i)) (hlink : ∀ i w, (eff i w).ndesc = w.ndesc) (k : ℕ) (m : Mem)
    (x : ℕ) : SameLinks r m (walkBds r body k m (bdAt r x)) := by
  induction k generalizing body eff m x with
  | zero => exact SameLinks.refl r m
  | succ k ih =>
    rw [walkBds, h.next]
    exact ((he 0).sameLinks (hlink 0) h m x).trans
      (ih (fun i => he (i + 1)) (fun i => hlink (i + 1)) _ _)

end Dma
