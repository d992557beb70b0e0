import MyDriver.Rawdata.Sguser
import MyDriver.Xdma.Register

/-!
# The life of descriptor space

One engine is registered and unregistered again and again, and the allocator may refuse memory at
any registration. `RegSys` runs the calls one after another and keeps the list of what they do to
descriptor space.

* `spaces` — the descriptor space that has been obtained and not been given back.
* `UsesLive` — a ring is used only while the space it lies in has not been given back.
* `refused_block` — after a refusal `DmaRegister` goes on with the ring of the last registration.
* `spaces_settle` — **if memory is never refused, space is obtained, used and given back once**.
-/

namespace Dma

open Ledger Runs

variable {υ : Type}

/-! ## Whole calls -/

/-- `DmaRegister` on an engine that exists; `u` is the user driver after `UserInit`. -/
def dmaRegister (driverState : DmaState) (bar : ℤ) (u : υ) (user : UserPtrs υ) (thBhIsr : Bool)
    (bus : ℕ → U32) (block : Option (U32 × U32)) (e : DmaEngine υ) :
    Bool × DmaEngine υ × List SpaceEv :=
  if driverState ≠ .initialized then (false, e, [])
  else if bar < 0 ∨ 5 < bar then (false, e, [])
  else if e.engineState ≠ .initialized then (false, e, [])
  else registerLocked user thBhIsr bus block { e with dev := { e.dev with user := u } }

/-- `DmaUnregister`; `handle` says that it is not `NULL`. -/
def dmaUnregister (driverState : DmaState) (handle : Bool) (user : UserPtrs υ)
    (e : DmaEngine υ) : Bool × DmaEngine υ × List SpaceEv :=
  if driverState ≠ .initialized then (false, e, [])
  else if handle = false then (false, e, [])
  else if e.engineState ≠ .userAssigned then (false, e, [])
  else
    let e := unregisterReset e
    let got := descriptorFreeForce e.dev.chan
    let evs := ringUse e.dev.chan.ring
    let e := { e with
      dev := { e.dev with
        chan := descriptorFreeBds got.2.1 got.2.2.1
        user := if got.1 = [] then e.dev.user else user.putPkt e.dev.user got.1 } }
    (true, unregisterDone e, evs ++ descriptorFreeSpace e)

structure RegSys (υ : Type) where
  engine : DmaEngine υ
  evs : List SpaceEv

inductive RegAct (υ : Type) where
  | register (driverState : DmaState) (bar : ℤ) (u : υ) (bus : ℕ → U32)
      (block : Option (U32 × U32))
  | unregister (driverState : DmaState) (handle : Bool)

def regStep (user : UserPtrs υ) (thBhIsr : Bool) (s : RegSys υ) : RegAct υ → Option (RegSys υ)
  | .register driverState bar u bus block =>
    let done := dmaRegister driverState bar u user thBhIsr bus block s.engine
    some { engine := done.2.1, evs := s.evs ++ done.2.2 }
  | .unregister driverState handle =>
    let done := dmaUnregister driverState handle user s.engine
    some { engine := done.2.1, evs := s.evs ++ done.2.2 }

/-- Memory is not refused: a registration that gets as far as `pci_alloc_consistent` is given a
block, and it is a proper one. -/
def Granted (s : RegSys υ) : RegAct υ → Prop
  | .register driverState bar _ _ block =>
    driverState = .initialized ∧ ¬ (bar < 0 ∨ 5 < bar) ∧ s.engine.engineState = .initialized →
      ∃ b, block = some b ∧ ProperBlock b.1 b.2
  | .unregister _ _ => True

/-! ## Rings in live space -/

/-- The address lies in the block. -/
def InSpace (a : U32) (k : SpaceKey) : Prop :=
  k.1.toNat ≤ a.toNat ∧ a.toNat < k.1.toNat + k.2.2.toNat

/-- With `M` obtained before, every ring is used while its space has not been given back. -/
def UsesLive : Multiset SpaceKey → List SpaceEv → Prop
  | _, [] => True
  | M, .alloc va pa size :: es => UsesLive ((va, pa, size) ::ₘ M) es
  | M, .free va pa size :: es => UsesLive (M.erase (va, pa, size)) es
  | M, .use a :: es => (∃ k ∈ M, InSpace a k) ∧ UsesLive M es

theorem UsesLive.append {M N : Multiset SpaceKey} {es fs : List SpaceEv} (h : UsesLive M es)
    (hs : settle M (es.filterMap spaceEntry) = some N) (h' : UsesLive N fs) :
    UsesLive M (es ++ fs) := by
  induction es generalizing M with
  | nil =>
    rw [List.filterMap_nil, settle, Option.some.injEq] at hs
    rwa [hs]
  | cons e es ih =>
    cases e with
    | alloc va pa size => exact ih h hs
    | free va pa size =>
      have hfreed : settle M (.closes (va, pa, size) :: es.filterMap spaceEntry) = some N := hs
      rw [settle] at hfreed
      split_ifs at hfreed
      exact ih h hfreed
    | use a => exact ⟨h.1, ih h.2 hs⟩

theorem usesLive_replicate {M : Multiset SpaceKey} {a : U32} (h : ∃ k ∈ M, InSpace a k) (n : ℕ) :
    UsesLive M (List.replicate n (.use a)) := by
  induction n with
  | zero => trivial
  | succ n ih => exact ⟨h, ih⟩

/-! ## The run -/

theorem inSpace_blockKey (va pa : U32) : InSpace va (blockKey va pa) :=
  ⟨le_rfl, Nat.lt_add_of_pos_right (show 0 < dftsize.toNat by decide)⟩

/-- The engine between calls, with the space it has. -/
inductive EngineAt (e : DmaEngine υ) : Multiset SpaceKey → Prop where
  | free (hstate : e.engineState = .initialized) : EngineAt e 0
  | assigned (va pa : U32) (hstate : e.engineState = .userAssigned) (hblock : ProperBlock va pa)
    (howns : Owns va pa e) (hring : RingIn va e.dev.chan)
    (hstart : e.dev.chan.ring.runState = .dmaSgIsStarted) : EngineAt e {blockKey va pa}

/-- What a call does to descriptor space: it leads from one state between calls to another, and
uses only rings in live space. -/
def Conserves (M : Multiset SpaceKey) (e' : DmaEngine υ) (evs : List SpaceEv) : Prop :=
  ∃ N, EngineAt e' N ∧ settle M (evs.filterMap spaceEntry) = some N ∧ UsesLive M evs

theorem EngineAt.stays {e : DmaEngine υ} {M : Multiset SpaceKey} (h : EngineAt e M) :
    Conserves M e [] := ⟨M, h, rfl, trivial⟩

variable {user : UserPtrs υ} {thBhIsr : Bool} {e : DmaEngine υ} {va pa : U32}

/-- The locked section of `DmaRegister` on an engine without space. -/
theorem ProperBlock.conserves (h : ProperBlock va pa) (bus : ℕ → U32) :
    Conserves 0 (Dma.registerLocked user thBhIsr bus (some (va, pa)) e).2.1
      (Dma.registerLocked user thBhIsr bus (some (va, pa)) e).2.2 := by
  obtain ⟨e', k, heq, hstate, howns, hring, hstart⟩ := h.registerLocked user thBhIsr bus e
  rw [heq]
  refine ⟨{blockKey va pa}, .assigned va pa hstate h howns hring hstart, ?_, ?_⟩
  · have hopen : (SpaceEv.alloc va pa dftsize :: List.replicate k (.use va)).filterMap spaceEntry =
        .opens (blockKey va pa) :: (List.replicate k (SpaceEv.use va)).filterMap spaceEntry := rfl
    rw [hopen, filterMap_replicate_use]
    rfl
  · exact usesLive_replicate
      ⟨blockKey va pa, Multiset.mem_singleton_self _, inSpace_blockKey va pa⟩ k

/-- `DmaUnregister` gives the space back. -/
theorem dmaUnregister_conserves {M : Multiset SpaceKey} (h : EngineAt e M)
    (driverState : DmaState) (handle : Bool) :
    Conserves M (dmaUnregister driverState handle user e).2.1
      (dmaUnregister driverState handle user e).2.2 := by
  unfold dmaUnregister
  by_cases hdriver : driverState ≠ .initialized
  · rw [if_pos hdriver]
    exact h.stays
  rw [if_neg hdriver]
  by_cases hnull : handle = false
  · rw [if_pos hnull]
    exact h.stays
  rw [if_neg hnull]
  cases h with
  | free hstate =>
    rw [if_pos (by rw [hstate]; decide)]
    exact (EngineAt.free hstate).stays
  | assigned va pa hstate hblock howns hring hstart =>
    rw [if_neg (by rw [hstate]; decide)]
    have hreset : RingIn va (unregisterReset e).dev.chan := hring.reset
    obtain ⟨g, hs⟩ := hreset.settled
    have hfree : ∀ dev : Dev υ, descriptorFreeSpace { unregisterReset e with dev := dev } =
        [.free va pa dftsize] := fun dev =>
      Owns.descriptorFreeSpace (e := { unregisterReset e with dev := dev })
        ⟨howns.pa, howns.va, howns.size, howns.delta⟩ hblock.ne
    dsimp only
    rw [hreset.use, hfree]
    refine ⟨0, .free rfl, ?_, ⟨blockKey va pa, Multiset.mem_singleton_self _, ?_⟩, trivial⟩
    swap
    · exact inSpace_blockKey va pa
    show settle _ [.closes (blockKey va pa)] = some 0
    rw [settle, if_pos (Multiset.mem_singleton_self _)]
    simp [settle]

theorem dmaRegister_conserves {M : Multiset SpaceKey} (h : EngineAt e M) {driverState : DmaState}
    {bar : ℤ} {block : Option (U32 × U32)} (hok : driverState = .initialized ∧
      ¬ (bar < 0 ∨ 5 < bar) ∧ e.engineState = .initialized →
        ∃ b, block = some b ∧ ProperBlock b.1 b.2) (u : υ) (bus : ℕ → U32) :
    Conserves M (dmaRegister driverState bar u user thBhIsr bus block e).2.1
      (dmaRegister driverState bar u user thBhIsr bus block e).2.2 := by
  unfold dmaRegister
  by_cases hdriver : driverState ≠ .initialized
  · rw [if_pos hdriver]
    exact h.stays
  rw [if_neg hdriver]
  by_cases hbar : bar < 0 ∨ 5 < bar
  · rw [if_pos hbar]
    exact h.stays
  rw [if_neg hbar]
  cases h with
  | assigned va pa hstate hblock howns hring hstart =>
    rw [if_pos (by rw [hstate]; decide)]
    exact (EngineAt.assigned va pa hstate hblock howns hring hstart).stays
  | free hstate =>
    rw [if_neg (not_not.2 hstate)]
    obtain ⟨b, rfl, hblock⟩ := hok ⟨not_not.1 hdriver, hbar, hstate⟩
    exact hblock.conserves bus

/-- **The invariant.** -/
structure RegInv (s : RegSys υ) : Prop where
  books : ∃ M, EngineAt s.engine M ∧ spaces s.evs = some M
  live : UsesLive 0 s.evs

theorem RegInv.next {s : RegSys υ} (h : RegInv s) {e' : DmaEngine υ} {evs : List SpaceEv}
    (hc : ∀ M, EngineAt s.engine M → Conserves M e' evs) :
    RegInv { engine := e', evs := s.evs ++ evs } := by
  obtain ⟨⟨M, hM, hspaces⟩, hlive⟩ := h
  obtain ⟨N, hN, hsettle, huses⟩ := hc M hM
  refine ⟨⟨N, hN, ?_⟩, hlive.append hspaces huses⟩
  rw [spaces, List.filterMap_append]
  exact settle_append_eq hspaces hsettle

/-- **One call.** -/
theorem regStep_inv {s s' : RegSys υ} {a : RegAct υ} (h : RegInv s) (hok : Granted s a)
    (hstep : regStep user thBhIsr s a = some s') : RegInv s' := by
  cases a with
  | register driverState bar u bus block =>
    rw [regStep, Option.some.injEq] at hstep
    subst hstep
    exact h.next fun M hM => dmaRegister_conserves hM hok u bus
  | unregister driverState handle =>
    rw [regStep, Option.some.injEq] at hstep
    subst hstep
    exact h.next fun M hM => dmaUnregister_conserves hM driverState handle

/-- A handle is returned for a ring that was made in the block of this very call and started. -/
def OwnRing (block : Option (U32 × U32)) (e : DmaEngine υ) (evs : List SpaceEv) : Prop :=
  ∃ va pa, block = some (va, pa) ∧ .alloc va pa dftsize ∈ evs ∧
    e.dev.chan.ring.firstBdAddr = va ∧ e.dev.chan.ring.allCnt ≠ 0 ∧
    e.dev.chan.ring.runState = .dmaSgIsStarted

/-- A registration that gets as far as `pci_alloc_consistent` always returns the handle. -/
theorem dmaRegister_ownRing_iff {driverState : DmaState} {bar : ℤ} {u : υ} {bus : ℕ → U32}
    {block : Option (U32 × U32)} (hproper : ∀ b, block = some b → ProperBlock b.1 b.2)
    (hret : (dmaRegister driverState bar u user thBhIsr bus block e).1 = true) :
    OwnRing block (dmaRegister driverState bar u user thBhIsr bus block e).2.1
      (dmaRegister driverState bar u user thBhIsr bus block e).2.2 ↔ block ≠ none := by
  constructor
  · rintro ⟨va, pa, rfl, -⟩ hnone
    cases hnone
  · intro hne
    obtain ⟨b, rfl⟩ := Option.ne_none_iff_exists'.1 hne
    unfold dmaRegister at hret ⊢
    split_ifs at hret ⊢
    obtain ⟨e', k, heq, -, -, hring, hstart⟩ := (hproper b rfl).registerLocked user thBhIsr bus
      { e with dev := { e.dev with user := u } }
    rw [heq]
    refine ⟨b.1, b.2, rfl, List.mem_cons_self, hring.firstBdAddr, ?_, hstart⟩
    rw [hring.allCnt]
    decide

/-- **Without refusals** all space but that of an assigned engine has been given back exactly once,
and no ring was used after its space was given back. A handle comes with a ring of its own exactly
when memory was not refused. -/
theorem spaces_settle (user : UserPtrs υ) (thBhIsr : Bool) (e : DmaEngine υ)
    (he : e.engineState = .initialized) (acts : List (RegAct υ)) (s : RegSys υ)
    (hok : Along (regStep user thBhIsr) Granted { engine := e, evs := [] } acts)
    (hrun : run (regStep user thBhIsr) { engine := e, evs := [] } acts = some s) :
    (∃ M, spaces s.evs = some M ∧ (s.engine.engineState = .initialized → M = 0) ∧
      (s.engine.engineState = .userAssigned → M = {(s.engine.descSpaceVA - 4 * s.engine.delta,
        s.engine.descSpacePA - s.engine.delta, s.engine.descSpaceSize + s.engine.delta)})) ∧
    UsesLive 0 s.evs ∧
    ∀ driverState bar u bus block, (∀ b, block = some b → ProperBlock b.1 b.2) →
      (dmaRegister driverState bar u user thBhIsr bus block s.engine).1 = true →
      (OwnRing block (dmaRegister driverState bar u user thBhIsr bus block s.engine).2.1
        (dmaRegister driverState bar u user thBhIsr bus block s.engine).2.2 ↔ block ≠ none) := by
  have hinv : RegInv s := by
    refine run_inv (fun s a s' h hok hstep => regStep_inv h hok hstep) ?_ hok hrun
    exact ⟨⟨0, .free he, rfl⟩, trivial⟩
  obtain ⟨⟨M, hM, hspaces⟩, hlive⟩ := hinv
  refine ⟨⟨M, hspaces, fun hstate => ?_, fun hstate => ?_⟩, hlive,
    fun _ _ _ _ _ hproper hret => dmaRegister_ownRing_iff hproper hret⟩
  · cases hM with
    | free => rfl
    | assigned va pa hassigned =>
      rw [hassigned] at hstate
      cases hstate
  · cases hM with
    | free hinit =>
      rw [hinit] at hstate
      cases hstate
    | assigned va pa hassigned hblock howns =>
      rw [howns.va, howns.pa, howns.size, howns.delta, blockKey]
      simp

/-- A transmit engine after `Dma_Initialize`. -/
def freshEngine : DmaEngine RawData where
  dev := { twoPages with chan := initializedChan false fun _ => 0 }
  engineState := .initialized
  descSpacePA := 0
  descSpaceVA := 0
  descSpaceSize := 0
  delta := 0

/-- The engine is registered in `block` and unregistered. -/
def registered (block : Option (U32 × U32)) : List (RegAct RawData) :=
  [.register .initialized 0 twoPages.user (fun _ => 0) block, .unregister .initialized true]

theorem spaces_settle_registered : ∃ s,
    run (regStep (rxUser 9) false) { engine := freshEngine, evs := [] }
      (registered (some (0x10000, 0x8000))) = some s ∧
    (∃ M, spaces s.evs = some M ∧ (s.engine.engineState = .initialized → M = 0) ∧
      (s.engine.engineState = .userAssigned → M = {(s.engine.descSpaceVA - 4 * s.engine.delta,
        s.engine.descSpacePA - s.engine.delta, s.engine.descSpaceSize + s.engine.delta)})) ∧
    UsesLive 0 s.evs ∧
    ∀ driverState bar u bus block, (∀ b, block = some b → ProperBlock b.1 b.2) →
      (dmaRegister driverState bar u (rxUser 9) false bus block s.engine).1 = true →
      (OwnRing block (dmaRegister driverState bar u (rxUser 9) false bus block s.engine).2.1
        (dmaRegister driverState bar u (rxUser 9) false bus block s.engine).2.2 ↔
          block ≠ none) := by
  have hok : Along (regStep (rxUser 9) false) Granted { engine := freshEngine, evs := [] }
      (registered (some (0x10000, 0x8000))) := by
    refine (along_cons_of_step rfl).2 ⟨fun _ => ⟨(0x10000, 0x8000), rfl, by decide⟩, ?_⟩
    exact (along_cons_of_step rfl).2 ⟨trivial, trivial⟩
  exact ⟨_, rfl, spaces_settle (rxUser 9) false freshEngine rfl _ _ hok rfl⟩

/-- **A refusal.** The engine is registered and unregistered, then memory is refused: the handle is
returned all the same, for the old ring, and unregistering gives the old block back again. -/
theorem refused_block : ∃ s s',
    run (regStep (rxUser 9) false) { engine := freshEngine, evs := [] }
      (registered (some (0x10000, 0x8000))) = some s ∧
    (dmaRegister .initialized 0 twoPages.user (rxUser 9) false (fun _ => 0) none s.engine).1 =
      true ∧
    run (regStep (rxUser 9) false) s (registered none) = some s' ∧
    s'.evs = [.alloc 0x10000 0x8000 dftsize, .use 0x10000, .use 0x10000,
      .free 0x10000 0x8000 dftsize, .use 0x10000, .use 0x10000, .free 0x10000 0x8000 dftsize] ∧
    spaces s'.evs = none :=
  ⟨_, _, rfl, rfl, rfl, rfl, rfl⟩

end Dma
