import Mathlib.Algebra.BigOperators.Group.Finset.Piecewise
import MyDriver.Xdma.Registration
import MyDriver.Xdma.Unregister

/-!
# Who has which engine

Any number of callers run `DmaRegister` and `DmaUnregister` on any number of engines, section by
section. Both functions look at the engine state without the lock and do not look again once they
have it. Allocations always succeed.

* `two_handles` — two callers find the same engine free, and both get a handle.
* `one_handle` — **if what was found still holds when the lock is taken**, an engine has one
  handle at most, and its space is freed once.
-/

namespace Dma

open Ledger Runs

variable {ι κ υ : Type} [DecidableEq ι] [DecidableEq κ]

/-! ## The system -/

/-- Where a caller is. -/
inductive CallerAt (ι : Type) where
  | idle
  /-- `DmaRegister` has found the engine free. -/
  | registering (i : ι)
  /-- `DmaRegister` has copied the callbacks and called `UserInit`. -/
  | copied (i : ι)
  | unregistering (i : ι) (x : UnregAt)
deriving DecidableEq

structure ExclSys (ι κ υ : Type) where
  engine : ι → DmaEngine υ
  userCount : ℤ
  caller : κ → CallerAt ι
  /-- The handles that `DmaRegister` has returned and no completed `DmaUnregister` was given. -/
  live : ι → ℕ
  evs : ι → List SpaceEv

inductive ExclAct (ι κ υ : Type) where
  /-- The tests at the beginning of `DmaRegister`. -/
  | register (k : κ) (i : ι) (bar : ℤ)
  /-- Its unlocked middle part; `u` is the user driver after `UserInit`. -/
  | copy (k : κ) (u : υ)
  /-- Its locked section; `pci_alloc_consistent` returns a block. -/
  | lock (k : κ) (bus : ℕ → U32) (va pa : U32)
  /-- The tests at the beginning of `DmaUnregister`. -/
  | unregister (k : κ) (i : ι)
  /-- Its next section. -/
  | next (k : κ)

/-- The sections of `DmaUnregister` after its tests, with what they do to descriptor space. -/
def unregisterSection (user : UserPtrs υ) (e : DmaEngine υ) :
    UnregAt → Option (UnregAt × DmaEngine υ × List SpaceEv)
  | .checked => some (.resetDone, unregisterReset e, [])
  | .resetDone =>
    let got := descriptorFreeForce e.dev.chan
    some (.afterForce got.1 got.2.1, { e with dev := { e.dev with chan := got.2.2.1 } }, [])
  | .forced pkts bds =>
    some (.returned bds, { e with dev := { e.dev with user := user.putPkt e.dev.user pkts } }, [])
  | .returned bds =>
    some (.ringFreed,
      { e with dev := { e.dev with chan := descriptorFreeBds bds e.dev.chan } }, [])
  | .ringFreed => some (.spaceFreed, e, descriptorFreeSpace e)
  | .spaceFreed => some (.done, unregisterDone e, [])
  | .outside | .done => none

def ExclSys.move (s : ExclSys ι κ υ) (k : κ) (x : CallerAt ι) : ExclSys ι κ υ :=
  { s with caller := Function.update s.caller k x }

def ExclSys.onEngine (s : ExclSys ι κ υ) (i : ι) (e : DmaEngine υ) (evs : List SpaceEv) :
    ExclSys ι κ υ :=
  { s with
    engine := Function.update s.engine i e
    evs := Function.update s.evs i (s.evs i ++ evs) }

def exclStep (user : UserPtrs υ) (thBhIsr : Bool) (s : ExclSys ι κ υ) :
    ExclAct ι κ υ → Option (ExclSys ι κ υ)
  | .register k i bar =>
    match s.caller k with
    | .idle =>
      if (bar < 0 ∨ 5 < bar) ∨ (s.engine i).engineState ≠ .initialized then some s
      else some (s.move k (.registering i))
    | _ => none
  | .copy k u =>
    match s.caller k with
    | .registering i =>
      some ((s.move k (.copied i)).onEngine i
        { s.engine i with dev := { (s.engine i).dev with user := u } } [])
    | _ => none
  | .lock k bus va pa =>
    match s.caller k with
    | .copied i =>
      if ProperBlock va pa then
        let done := registerLocked user thBhIsr bus (some (va, pa)) (s.engine i)
        some { (s.move k .idle).onEngine i done.2.1 done.2.2 with
          userCount := s.userCount + 1
          live := if done.1 then Function.update s.live i (s.live i + 1) else s.live }
      else none
    | _ => none
  | .unregister k i =>
    match s.caller k with
    | .idle =>
      if (s.engine i).engineState ≠ .userAssigned then some s
      else some (s.move k (.unregistering i .checked))
    | _ => none
  | .next k =>
    match s.caller k with
    | .unregistering i x =>
      match unregisterSection user (s.engine i) x with
      | none => none
      | some (.done, e, evs) =>
        some { (s.move k .idle).onEngine i e evs with
          userCount := s.userCount - 1
          live := Function.update s.live i (s.live i - 1) }
      | some (y, e, evs) => some ((s.move k (.unregistering i y)).onEngine i e evs)
    | _ => none

/-- No engine is in use. -/
structure Unused (s : ExclSys ι κ υ) : Prop where
  state : ∀ i, (s.engine i).engineState = .initialized ∨ (s.engine i).engineState = .uninitialized
  userCount : s.userCount = 0
  caller : ∀ k, s.caller k = .idle
  live : ∀ i, s.live i = 0
  evs : ∀ i, s.evs i = []

/-- What the unlocked test found still holds when the lock is taken. -/
def Undisturbed (s : ExclSys ι κ υ) : ExclAct ι κ υ → Prop
  | .lock k _ _ _ => ∀ i, s.caller k = .copied i → (s.engine i).engineState = .initialized
  | .next k => ∀ i, s.caller k = .unregistering i .checked →
      (s.engine i).engineState = .userAssigned
  | _ => True

instance [Fintype ι] (s : ExclSys ι κ υ) (a : ExclAct ι κ υ) : Decidable (Undisturbed s a) := by
  cases a <;> unfold Undisturbed <;> infer_instance

/-! ## Counting engines -/

/-- The engines that `userCount` is to count. -/
def InUse (e : DmaEngine υ) : Prop :=
  e.engineState = .userAssigned ∨ e.engineState = .unregistering

instance (e : DmaEngine υ) : Decidable (InUse e) := by
  unfold InUse
  infer_instance

def inUse [Fintype ι] (engine : ι → DmaEngine υ) : ℕ :=
  (Finset.univ.filter fun i => InUse (engine i)).card

theorem inUse_update [Fintype ι] (engine : ι → DmaEngine υ) (i : ι) (e : DmaEngine υ) :
    inUse (Function.update engine i e) + (if InUse (engine i) then 1 else 0) =
      inUse engine + if InUse e then 1 else 0 := by
  have hsum : ∀ f : ι → DmaEngine υ, inUse f =
      (if InUse (f i) then 1 else 0) + ∑ j ∈ Finset.univ.erase i, if InUse (f j) then 1 else 0 := by
    intro f
    rw [inUse, Finset.card_filter]
    exact (Finset.add_sum_erase _ (fun j => if InUse (f j) then 1 else 0) (Finset.mem_univ i)).symm
  have hrest : ∑ j ∈ Finset.univ.erase i, (if InUse (Function.update engine i e j) then 1 else 0) =
      ∑ j ∈ Finset.univ.erase i, if InUse (engine j) then 1 else 0 := by
    apply Finset.sum_congr rfl
    intro j hj
    rw [Function.update_of_ne (Finset.ne_of_mem_erase hj)]
  rw [hsum, hsum engine, hrest, Function.update_self]
  omega

/-! ## One engine -/

/-- `DmaUnregister` has the engine: it has reset it and is not through with it. -/
def UnregAt.afterReset : UnregAt → Bool
  | .outside | .checked | .done => false
  | _ => true

/-- Where a caller is that has taken the engine out of use. -/
def CallerAt.leaving (i : ι) : CallerAt ι → Option UnregAt
  | .unregistering j x => if j = i ∧ x.afterReset = true then some x else none
  | _ => none

/-- An engine, its live handles, what was done about its space, and who is taking it out of use. -/
inductive EngineLife (e : DmaEngine υ) : ℕ → List SpaceEv → (κ → Option UnregAt) → Prop where
  | free (evs : List SpaceEv) (hstate : ¬ InUse e) (hbooks : spaces evs = some 0) :
    EngineLife e 0 evs fun _ => none
  | assigned (va pa : U32) (evs : List SpaceEv) (hstate : e.engineState = .userAssigned)
    (hblock : ProperBlock va pa) (howns : Owns va pa e)
    (hbooks : spaces evs = some {blockKey va pa}) : EngineLife e 1 evs fun _ => none
  | leaving (k : κ) (x : UnregAt) (va pa : U32) (evs : List SpaceEv)
    (hstate : e.engineState = .unregistering) (hx : x.afterReset = true)
    (hblock : ProperBlock va pa) (howns : Owns va pa e)
    (hbooks : spaces evs = some (if x = .spaceFreed then 0 else {blockKey va pa})) :
    EngineLife e 1 evs (Function.update (fun _ => none) k (some x))

variable {user : UserPtrs υ} {thBhIsr : Bool} {e : DmaEngine υ} {n : ℕ} {evs : List SpaceEv}
  {l : κ → Option UnregAt} {k : κ}

/-- A change of the user driver's state is no change. -/
theorem EngineLife.changed (h : EngineLife e n evs l) (u : υ) :
    EngineLife { e with dev := { e.dev with user := u } } n evs l := by
  cases h with
  | free evs hstate hbooks => exact .free evs hstate hbooks
  | assigned va pa evs hstate hblock howns hbooks =>
    exact .assigned va pa evs hstate hblock ⟨howns.pa, howns.va, howns.size, howns.delta⟩ hbooks
  | leaving k x va pa evs hstate hx hblock howns hbooks =>
    exact .leaving k x va pa evs hstate hx hblock ⟨howns.pa, howns.va, howns.size, howns.delta⟩
      hbooks

/-- The locked section of `DmaRegister` on an engine that is free. -/
theorem EngineLife.lock (h : EngineLife e n evs l) (hstate : e.engineState = .initialized)
    {va pa : U32} (hblock : ProperBlock va pa) (user : UserPtrs υ) (thBhIsr : Bool)
    (bus : ℕ → U32) :
    ∃ e' evs', registerLocked user thBhIsr bus (some (va, pa)) e = (true, e', evs') ∧ n = 0 ∧
      ¬ InUse e ∧ InUse e' ∧ EngineLife e' 1 (evs ++ evs') l := by
  have hnot : ¬ InUse e := by
    rintro (hin | hin) <;> rw [hstate] at hin <;> cases hin
  cases h with
  | assigned va pa evs hassigned => exact absurd (Or.inl hassigned) hnot
  | leaving k x va pa evs hleaving => exact absurd (Or.inr hleaving) hnot
  | free evs _ hbooks =>
    obtain ⟨e', m, heq, hassigned, howns, -, -⟩ := hblock.registerLocked user thBhIsr bus e
    refine ⟨e', _, heq, rfl, hnot, Or.inl hassigned, .assigned va pa _ hassigned hblock howns ?_⟩
    rw [spaces, List.filterMap_append]
    apply settle_append_eq hbooks
    have hopen : (SpaceEv.alloc va pa dftsize :: List.replicate m (.use va)).filterMap spaceEntry =
        .opens (blockKey va pa) :: (List.replicate m (SpaceEv.use va)).filterMap spaceEntry := rfl
    rw [hopen, filterMap_replicate_use]
    rfl

/-- The first locked section of `DmaUnregister` on an engine that is assigned. -/
theorem EngineLife.reset (h : EngineLife e n evs l) (hstate : e.engineState = .userAssigned)
    (k : κ) : InUse e ∧ InUse (unregisterReset e) ∧ l k = none ∧
      EngineLife (unregisterReset e) n evs (Function.update l k (some .resetDone)) := by
  refine ⟨Or.inl hstate, Or.inr rfl, ?_⟩
  cases h with
  | free evs hnot => exact absurd (Or.inl hstate) hnot
  | leaving k x va pa evs hleaving =>
    rw [hstate] at hleaving
    cases hleaving
  | assigned va pa evs _ hblock howns hbooks =>
    exact ⟨rfl, .leaving k .resetDone va pa evs rfl rfl hblock
      ⟨howns.pa, howns.va, howns.size, howns.delta⟩ hbooks⟩

theorem UnregAt.afterForce_ne (pkts : List PktBuf) (bds : ℕ × U32) :
    afterForce pkts bds ≠ .done ∧ (afterForce pkts bds).afterReset = true ∧
      afterForce pkts bds ≠ .spaceFreed := by
  unfold afterForce
  split_ifs
  · exact ⟨by decide, rfl, by decide⟩
  · exact ⟨by simp, rfl, by simp⟩

/-- The other sections, by the caller that has the engine. -/
theorem EngineLife.next (h : EngineLife e n evs l) {x y : UnregAt} {e' : DmaEngine υ}
    {evs' : List SpaceEv} (hx : l k = some x)
    (hsection : unregisterSection user e x = some (y, e', evs')) :
    InUse e ∧ n = 1 ∧ (y = .done → ¬ InUse e' ∧
        EngineLife e' 0 (evs ++ evs') (Function.update l k none)) ∧
      (y ≠ .done → InUse e' ∧ y.afterReset = true ∧
        EngineLife e' n (evs ++ evs') (Function.update l k (some y))) := by
  cases h with
  | free => cases hx
  | assigned => cases hx
  | leaving k₀ x₀ va pa evs hstate hafter hblock howns hbooks =>
    have hk : k = k₀ := by
      by_contra hne
      rw [Function.update_of_ne hne] at hx
      cases hx
    subst hk
    rw [Function.update_self, Option.some.injEq] at hx
    subst hx
    refine ⟨Or.inr hstate, rfl, ?_⟩
    rw [Function.update_idem, Function.update_idem]
    -- A section that only works on the ring or calls the user.
    have hkeep : ∀ (z : UnregAt) (d : Dev υ), z ≠ .done → z.afterReset = true → z ≠ .spaceFreed →
        x₀ ≠ .spaceFreed → y = z → e' = { e with dev := d } → evs' = [] →
        (y = .done → ¬ InUse e' ∧
          EngineLife e' 0 (evs ++ evs') (Function.update (fun _ => none) k none)) ∧
        (y ≠ .done → InUse e' ∧ y.afterReset = true ∧
          EngineLife e' 1 (evs ++ evs') (Function.update (fun _ => none) k (some y))) := by
      rintro z d hdone hz hfreed hfreed₀ rfl rfl rfl
      refine ⟨fun hy => absurd hy hdone, fun _ => ⟨Or.inr hstate, hz, ?_⟩⟩
      rw [if_neg hfreed₀] at hbooks
      rw [List.append_nil]
      exact .leaving k y va pa evs hstate hz hblock ⟨howns.pa, howns.va, howns.size, howns.delta⟩
        (by rw [if_neg hfreed]; exact hbooks)
    cases x₀ with
    | outside => cases hafter
    | checked => cases hafter
    | done => cases hafter
    | resetDone =>
      simp only [unregisterSection, Option.some.injEq, Prod.mk.injEq] at hsection
      obtain ⟨hy, he, hevs⟩ := hsection
      obtain ⟨hdone, hafter', hfreed⟩ := UnregAt.afterForce_ne (descriptorFreeForce e.dev.chan).1
        (descriptorFreeForce e.dev.chan).2.1
      exact hkeep _ _ hdone hafter' hfreed (by decide) hy.symm he.symm hevs.symm
    | forced pkts bds =>
      simp only [unregisterSection, Option.some.injEq, Prod.mk.injEq] at hsection
      obtain ⟨hy, he, hevs⟩ := hsection
      exact hkeep _ _ (by simp) rfl (by simp) (by simp) hy.symm he.symm hevs.symm
    | returned bds =>
      simp only [unregisterSection, Option.some.injEq, Prod.mk.injEq] at hsection
      obtain ⟨hy, he, hevs⟩ := hsection
      exact hkeep _ _ (by decide) rfl (by decide) (by simp) hy.symm he.symm hevs.symm
    | ringFreed =>
      simp only [unregisterSection, Option.some.injEq, Prod.mk.injEq] at hsection
      obtain ⟨rfl, rfl, rfl⟩ := hsection
      refine ⟨fun hy => (by cases hy), fun _ => ⟨Or.inr hstate, rfl, ?_⟩⟩
      refine .leaving k .spaceFreed va pa _ hstate rfl hblock howns ?_
      rw [howns.descriptorFreeSpace hblock.ne, spaces, List.filterMap_append, if_pos rfl]
      apply settle_append_eq hbooks
      show settle _ [.closes (blockKey va pa)] = some 0
      rw [if_neg (by decide), settle, if_pos (Multiset.mem_singleton_self _)]
      simp [settle]
    | spaceFreed =>
      simp only [unregisterSection, Option.some.injEq, Prod.mk.injEq] at hsection
      obtain ⟨rfl, rfl, rfl⟩ := hsection
      have hnot : ¬ InUse (unregisterDone e) := by
        rintro (hin | hin) <;> cases hin
      refine ⟨fun _ => ⟨hnot, ?_⟩, fun hy => absurd rfl hy⟩
      rw [Function.update_eq_self_iff.2 rfl, List.append_nil]
      exact .free evs hnot hbooks

theorem EngineLife.live_le (h : EngineLife e n evs l) : n ≤ 1 := by
  cases h with
  | free => exact Nat.zero_le _
  | assigned => exact le_rfl
  | leaving => exact le_rfl

theorem EngineLife.books (h : EngineLife e n evs l) :
    ∃ M, spaces evs = some M ∧ Multiset.card M ≤ 1 ∧ (¬ InUse e → M = 0) := by
  cases h with
  | free _ _ hbooks => exact ⟨0, hbooks, Nat.zero_le _, fun _ => rfl⟩
  | assigned va pa _ hstate _ _ hbooks =>
    exact ⟨_, hbooks, le_rfl, fun hnot => absurd (Or.inl hstate) hnot⟩
  | leaving k x va pa _ hstate _ _ _ hbooks =>
    refine ⟨_, hbooks, ?_, fun hnot => absurd (Or.inr hstate) hnot⟩
    split_ifs
    · exact Nat.zero_le _
    · exact le_rfl

/-! ## All engines -/

/-- **The invariant.** -/
structure ExclInv [Fintype ι] (s : ExclSys ι κ υ) : Prop where
  life : ∀ i, EngineLife (s.engine i) (s.live i) (s.evs i) fun k => (s.caller k).leaving i
  count : s.userCount = inUse s.engine

theorem leaving_update (caller : κ → CallerAt ι) (k : κ) (x : CallerAt ι) (j : ι) :
    (fun k' => (Function.update caller k x k').leaving j) =
      Function.update (fun k' => (caller k').leaving j) k (x.leaving j) := by
  funext k'
  by_cases hk : k' = k
  · subst hk
    rw [Function.update_self, Function.update_self]
  · rw [Function.update_of_ne hk, Function.update_of_ne hk]

variable [Fintype ι] {s s' : ExclSys ι κ υ} {i : ι}

/-- A caller moves, and the engine it works on changes. -/
theorem ExclInv.moved (h : ExclInv s) {x : CallerAt ι} {e : DmaEngine υ} {n : ℕ}
    {evs : List SpaceEv} {c : ℤ} (hother : ∀ j, j ≠ i → x.leaving j = (s.caller k).leaving j)
    (hlife : EngineLife e n (s.evs i ++ evs)
      (Function.update (fun k => (s.caller k).leaving i) k (x.leaving i)))
    (hcount : c + (if InUse (s.engine i) then 1 else 0) = s.userCount + if InUse e then 1 else 0) :
    ExclInv { (s.move k x).onEngine i e evs with
      userCount := c, live := Function.update s.live i n } := by
  refine ⟨fun j => ?_, ?_⟩
  · unfold ExclSys.onEngine ExclSys.move
    dsimp only
    rw [leaving_update]
    by_cases hj : j = i
    · subst hj
      rw [Function.update_self, Function.update_self, Function.update_self]
      exact hlife
    · rw [Function.update_of_ne hj, Function.update_of_ne hj, Function.update_of_ne hj, hother j hj,
        Function.update_eq_self k fun k => (s.caller k).leaving j]
      exact h.life j
  · show c = inUse (Function.update s.engine i e)
    have hupdate := inUse_update s.engine i e
    have hbefore := h.count
    split_ifs at hcount hupdate <;> omega

/-- A section of `DmaUnregister` that leaves the engine in use. -/
theorem ExclInv.stays (h : ExclInv s) {x : CallerAt ι} {e : DmaEngine υ} {evs : List SpaceEv}
    (hother : ∀ j, j ≠ i → x.leaving j = (s.caller k).leaving j) (hin : InUse (s.engine i))
    (hin' : InUse e) (hlife : EngineLife e (s.live i) (s.evs i ++ evs)
      (Function.update (fun k => (s.caller k).leaving i) k (x.leaving i))) :
    ExclInv ((s.move k x).onEngine i e evs) := by
  have hinv : ExclInv { (s.move k x).onEngine i e evs with
      userCount := s.userCount, live := Function.update s.live i (s.live i) } := by
    apply h.moved hother hlife
    rw [if_pos hin, if_pos hin']
  rw [Function.update_eq_self] at hinv
  exact hinv

/-- A caller that has not got the engine moves. -/
theorem ExclInv.walked (h : ExclInv s) {x : CallerAt ι} {e : DmaEngine υ}
    (hfrom : ∀ j, (s.caller k).leaving j = none) (hto : ∀ j, x.leaving j = none)
    (hlife : EngineLife e (s.live i) (s.evs i) fun k => (s.caller k).leaving i)
    (hstate : e.engineState = (s.engine i).engineState) :
    ExclInv ((s.move k x).onEngine i e []) := by
  have hinv : ExclInv { (s.move k x).onEngine i e [] with
      userCount := s.userCount, live := Function.update s.live i (s.live i) } := by
    apply h.moved
    · intro j _
      rw [hfrom, hto]
    · rw [List.append_nil, hto, Function.update_eq_self_iff.2 (hfrom i).symm]
      exact hlife
    · have hsame : InUse e ↔ InUse (s.engine i) := by
        unfold InUse
        rw [hstate]
      simp only [hsame]
  rw [Function.update_eq_self] at hinv
  exact hinv

theorem ExclInv.moved_only (h : ExclInv s) {x : CallerAt ι}
    (hfrom : ∀ j, (s.caller k).leaving j = none) (hto : ∀ j, x.leaving j = none) :
    ExclInv (s.move k x) := by
  refine ⟨fun j => ?_, h.count⟩
  unfold ExclSys.move
  dsimp only
  rw [leaving_update, hto, Function.update_eq_self_iff.2 (hfrom j).symm]
  exact h.life j

theorem afterReset_of_section {x y : UnregAt} {e' : DmaEngine υ} {evs' : List SpaceEv}
    (h : unregisterSection user e x = some (y, e', evs')) (hx : x ≠ .checked) :
    x.afterReset = true := by
  cases x with
  | outside => cases h
  | done => cases h
  | checked => exact absurd rfl hx
  | _ => rfl

/-- **One step.** -/
theorem exclStep_inv {a : ExclAct ι κ υ} (h : ExclInv s) (hok : Undisturbed s a)
    (hstep : exclStep user thBhIsr s a = some s') : ExclInv s' := by
  cases a with
  | register k i bar =>
    cases hc : s.caller k with
    | idle =>
      rw [exclStep, hc] at hstep
      dsimp only at hstep
      split_ifs at hstep
      · rw [Option.some.injEq] at hstep
        exact hstep ▸ h
      · rw [Option.some.injEq] at hstep
        subst hstep
        exact h.moved_only (fun j => by rw [hc]; rfl) fun j => rfl
    | _ => simp [exclStep, hc] at hstep
  | copy k u =>
    cases hc : s.caller k with
    | registering i =>
      rw [exclStep, hc, Option.some.injEq] at hstep
      subst hstep
      exact h.walked (fun j => by rw [hc]; rfl) (fun j => rfl) ((h.life i).changed u) rfl
    | _ => simp [exclStep, hc] at hstep
  | lock k bus va pa =>
    cases hc : s.caller k with
    | copied i =>
      rw [exclStep, hc] at hstep
      dsimp only at hstep
      by_cases hblock : ProperBlock va pa
      swap
      · rw [if_neg hblock] at hstep
        cases hstep
      obtain ⟨e', evs', heq, hlive, hnot, hin, hlife⟩ :=
        (h.life i).lock (hok i hc) hblock user thBhIsr bus
      rw [if_pos hblock, heq] at hstep
      dsimp only at hstep
      rw [if_pos rfl, hlive, Option.some.injEq] at hstep
      subst hstep
      have hfrom : ∀ j, (s.caller k).leaving j = none := fun j => by rw [hc]; rfl
      apply h.moved
      · intro j _
        rw [hfrom]
        rfl
      · show EngineLife e' 1 _ (Function.update _ k none)
        rw [Function.update_eq_self_iff.2 (hfrom i).symm]
        exact hlife
      · rw [if_neg hnot, if_pos hin]
        omega
    | _ => simp [exclStep, hc] at hstep
  | unregister k i =>
    cases hc : s.caller k with
    | idle =>
      rw [exclStep, hc] at hstep
      dsimp only at hstep
      split_ifs at hstep
      · rw [Option.some.injEq] at hstep
        exact hstep ▸ h
      · rw [Option.some.injEq] at hstep
        subst hstep
        exact h.moved_only (fun j => by rw [hc]; rfl) fun j => if_neg fun hand => by cases hand.2
    | _ => simp [exclStep, hc] at hstep
  | next k =>
    cases hc : s.caller k with
    | unregistering i x =>
      rw [exclStep, hc] at hstep
      dsimp only at hstep
      cases hsection : unregisterSection user (s.engine i) x with
      | none =>
        rw [hsection] at hstep
        cases hstep
      | some done =>
        obtain ⟨y, e', evs'⟩ := done
        rw [hsection] at hstep
        have hother : ∀ z : UnregAt, ∀ j, j ≠ i →
            (CallerAt.unregistering i z).leaving j = (s.caller k).leaving j := by
          intro z j hj
          rw [hc]
          exact (if_neg fun hand => hj hand.1.symm).trans (if_neg fun hand => hj hand.1.symm).symm
        by_cases hx : x = .checked
        · subst hx
          obtain ⟨hin, hin', hnone, hlife⟩ := (h.life i).reset (hok i hc) k
          rw [unregisterSection, Option.some.injEq, Prod.mk.injEq, Prod.mk.injEq] at hsection
          obtain ⟨rfl, rfl, rfl⟩ := hsection
          dsimp only at hstep
          rw [Option.some.injEq] at hstep
          subst hstep
          apply h.stays (hother _) hin hin'
          rw [List.append_nil]
          simpa [CallerAt.leaving, UnregAt.afterReset] using hlife
        · have hafter := afterReset_of_section hsection hx
          have hleaving : (s.caller k).leaving i = some x := by
            rw [hc]
            exact if_pos ⟨rfl, hafter⟩
          obtain ⟨hin, hlive, hlast, hnext⟩ :=
            EngineLife.next (k := k) (h.life i) hleaving hsection
          by_cases hy : y = .done
          · subst hy
            dsimp only at hstep
            rw [Option.some.injEq] at hstep
            subst hstep
            obtain ⟨hnot, hlife⟩ := hlast rfl
            rw [hlive]
            apply h.moved
            · intro j hj
              rw [hc]
              exact (if_neg fun hand => hj hand.1.symm).symm
            · exact hlife
            · rw [if_pos hin, if_neg hnot]
              omega
          · obtain ⟨hin', hafter', hlife⟩ := hnext hy
            have hinv : ExclInv ((s.move k (.unregistering i y)).onEngine i e' evs') := by
              apply h.stays (hother y) hin hin'
              rw [show (CallerAt.unregistering i y).leaving i = some y from if_pos ⟨rfl, hafter'⟩]
              exact hlife
            cases y with
            | done => exact absurd rfl hy
            | _ =>
              rw [Option.some.injEq] at hstep
              exact hstep ▸ hinv
    | _ => simp [exclStep, hc] at hstep

/-- **Undisturbed callers.** An engine has one live handle at most, `userCount` counts the engines
in use, and no space is freed twice: an engine that is not in use has given all its space back. -/
theorem one_handle (user : UserPtrs υ) (thBhIsr : Bool) (s₀ s : ExclSys ι κ υ) (hs₀ : Unused s₀)
    (acts : List (ExclAct ι κ υ))
    (hok : Along (exclStep user thBhIsr) Undisturbed s₀ acts)
    (hrun : run (exclStep user thBhIsr) s₀ acts = some s) :
    (∀ i, s.live i ≤ 1) ∧ s.userCount = inUse s.engine ∧
      ∀ i, ∃ M, spaces (s.evs i) = some M ∧ Multiset.card M ≤ 1 ∧
        (¬ InUse (s.engine i) → M = 0) := by
  have hinv : ExclInv s := by
    refine run_inv (fun s a s' h hok hstep => exclStep_inv h hok hstep) ?_ hok hrun
    have hnot : ∀ i, ¬ InUse (s₀.engine i) := by
      rintro i (hin | hin) <;> rcases hs₀.state i with hi | hi <;> rw [hi] at hin <;> cases hin
    refine ⟨fun i => ?_, ?_⟩
    · have hcallers : (fun k => (s₀.caller k).leaving i) = fun _ => none := by
        funext k
        rw [hs₀.caller k]
        rfl
      rw [hs₀.live, hs₀.evs, hcallers]
      exact .free [] (hnot i) rfl
    · have hnone : inUse s₀.engine = 0 := by
        rw [inUse, Finset.card_eq_zero, Finset.filter_eq_empty_iff]
        exact fun i _ => hnot i
      rw [hs₀.userCount, hnone]
      rfl
  exact ⟨fun i => (hinv.life i).live_le, hinv.count, fun i => (hinv.life i).books⟩

/-! ## Two callers -/

/-- One transmit engine and two callers. -/
def oneEngine : ExclSys Unit Bool RawData where
  engine := fun _ => freshEngine
  userCount := 0
  caller := fun _ => .idle
  live := fun _ => 0
  evs := fun _ => []

theorem oneEngine_unused : Unused oneEngine :=
  ⟨fun _ => Or.inl rfl, rfl, fun _ => rfl, fun _ => rfl, fun _ => rfl⟩

/-- One caller registers and unregisters, then the other registers. -/
def inTurn : List (ExclAct Unit Bool RawData) :=
  [.register true () 0, .copy true twoPages.user, .lock true (fun _ => 0) 0x10000 0x8000,
    .unregister true ()] ++ List.replicate 4 (.next true) ++
  [.register false () 0, .copy false twoPages.user, .lock false (fun _ => 0) 0x10000 0x8000]

theorem one_handle_inTurn : ∃ s,
    run (exclStep (rxUser 9) false) oneEngine inTurn = some s ∧
    (∀ i, s.live i ≤ 1) ∧ s.userCount = inUse s.engine ∧
      ∀ i, ∃ M, spaces (s.evs i) = some M ∧ Multiset.card M ≤ 1 ∧
        (¬ InUse (s.engine i) → M = 0) := by
  have hok : Along (exclStep (rxUser 9) false) Undisturbed oneEngine inTurn := by
    decide +kernel
  exact ⟨_, rfl, one_handle (rxUser 9) false oneEngine _ oneEngine_unused inTurn hok rfl⟩

/-- **Two handles.** Both callers find the engine free before either takes the lock. -/
theorem two_handles : ∃ s,
    run (exclStep (rxUser 9) false) oneEngine
      [.register true () 0, .register false () 0, .copy true twoPages.user,
        .copy false twoPages.user, .lock true (fun _ => 0) 0x10000 0x8000,
        .lock false (fun _ => 0) 0x20000 0x18000] = some s ∧
    s.live () = 2 ∧ s.userCount = 2 ∧ inUse s.engine = 1 :=
  ⟨_, rfl, rfl, rfl, rfl⟩

end Dma
