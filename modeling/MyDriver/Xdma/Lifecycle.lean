import Mathlib.Tactic.Abel
import MyDriver.Lib.Ledger
import MyDriver.Lib.Runs
import MyDriver.Xdma.Engine

/-!
# What the module acquires and releases

`xdma_probe` enables the device, allocates `dmaData`, requests the regions, maps the BARs and
registers a character device, and undoes some of that by hand wherever it fails. `xdma_remove` and
`xdma_cleanup` undo the rest. `dmaData` and `xdmaCdev` are global and keep their old values, and the
failure code `XST_FAILURE` is positive, which makes the PCI core call `xdma_remove`.

The history of a run is a ledger of resources. A use of the `dmaData` block counts as closing and
opening it again, so the books are in order only if it is allocated; a use of a null pointer never
is.

* `left_behind` — failed probes after which the books are not in order.
* `resources_settle` — **which runs leave nothing behind and use nothing they have freed**.
-/

namespace Dma

open Ledger Runs

/-! ## Resources -/

/-- `XST_FAILURE` -/
def xstFailure : ℤ := 1

/-- `MAX_BARS` -/
def maxBars : ℕ := 6

/-- What can be acquired. Blocks, mappings and device numbers go by the address or the number that
the kernel gives out; `none` is the null pointer. -/
inductive Res where
  | device (dev : ℕ)
  | block (addr : Option ℕ)
  | regions (dev : ℕ)
  | bar (vaddr : ℕ)
  | chrdev (no : ℕ)
deriving DecidableEq

inductive LifeEv where
  | acquire (r : Res)
  | release (r : Res)
  /-- The block at `addr` is read or written. -/
  | use (addr : Option ℕ)
deriving DecidableEq

def lifeEntries : LifeEv → List (Entry Res)
  | .acquire r => [.opens r]
  | .release r => [.closes r]
  | .use addr => [.closes (.block addr), .opens (.block addr)]

/-- What is held after these events; `none` if something was released or used that was not held. -/
def books (evs : List LifeEv) : Option (Multiset Res) := settle 0 (evs.flatMap lifeEntries)

/-! ## The module -/

/-- What the kernel answers for a BAR. -/
structure BarEnv where
  len : ℕ
  /-- `IORESOURCE_MEM` -/
  mem : Bool
  /-- What `ioremap` returns. -/
  vaddr : Option ℕ

/-- What the kernel answers during a probe. -/
structure ProbeEnv where
  enable : ℤ
  block : Option ℕ
  requestRegions : ℤ
  setDmaMask : ℤ
  bars : ℕ → BarEnv
  /-- The device number, if `alloc_chrdev_region` succeeds. -/
  chrdev : Option ℕ
  /-- `cdev_alloc` does not return a null pointer. -/
  cdev : Bool
  cdevAdd : ℤ

/-- The fields of `privData` that belong to a BAR. -/
structure PrivData where
  barMask : ℕ → Bool
  baseVAddr : ℕ → Option ℕ

structure ModuleSys where
  dmaData : Option ℕ
  /-- The contents of the `dmaData` blocks. -/
  priv : ℕ → PrivData
  /-- `dev` of `xdmaCdev`, which is read even after `cdev_del`. -/
  xdmaCdev : Option ℕ
  drvdata : ℕ → Option ℕ
  /-- The devices for which the PCI core will call `xdma_remove`. -/
  bound : List ℕ
  evs : List LifeEv
  /-- The kernel has stopped at a null pointer. -/
  crashed : Bool
  /-- `xdma_cleanup` has run. -/
  unloaded : Bool
  /-- Some probe has returned 0. -/
  succeeded : Bool

def ModuleSys.log (s : ModuleSys) (evs : List LifeEv) : ModuleSys := { s with evs := s.evs ++ evs }

/-- A null pointer is used. -/
def ModuleSys.fault (s : ModuleSys) : ModuleSys := { s.log [.use none] with crashed := true }

/-- The loop over the BARs: whether it gets to its end, and what it leaves in `dmaData`. -/
def probeBars (bars : ℕ → BarEnv) : ℕ → ℕ → PrivData → Bool × PrivData × List LifeEv
  | 0, _, d => (true, d, [])
  | n + 1, i, d =>
    if (bars i).len = 0 then
      if i = 0 then (false, d, []) else probeBars bars n (i + 1) d
    else
      let d := { d with barMask := Function.update d.barMask i true }
      if (bars i).mem = false then (false, d, [])
      else
        let d := { d with baseVAddr := Function.update d.baseVAddr i (bars i).vaddr }
        match (bars i).vaddr with
        | none =>
          probeBars bars n (i + 1) { d with barMask := Function.update d.barMask i false }
        | some va =>
          let rest := probeBars bars n (i + 1) d
          (rest.1, rest.2.1, .acquire (.bar va) :: rest.2.2)

/-- The part of `xdma_probe` that registers the character device. -/
def probeChrdev (env : ProbeEnv) (s : ModuleSys) : ModuleSys :=
  match env.chrdev with
  | none => s
  | some no =>
    let s := s.log [.acquire (.chrdev no)]
    if env.cdev = false then
      -- `IS_ERR` does not see the null pointer that `cdev_alloc` returns.
      { s with xdmaCdev := none }.fault
    else
      let s := { s with xdmaCdev := some no }
      if env.cdevAdd < 0 then s.log [.release (.chrdev no)] else s

/-- `xdma_probe`, with its return value. -/
def xdmaProbe (dev : ℕ) (env : ProbeEnv) (s : ModuleSys) : ℤ × ModuleSys :=
  if env.enable < 0 then (env.enable, s)
  else
    let s := s.log [.acquire (.device dev)]
    match env.block with
    | none => (xstFailure, { s with dmaData := none }.log [.release (.device dev)])
    | some b =>
      let d : PrivData := { barMask := fun _ => false, baseVAddr := fun _ => none }
      let s := { s with dmaData := some b }.log [.acquire (.block (some b)), .use (some b)]
      if env.requestRegions < 0 then
        (env.requestRegions, s.log [.release (.block (some b)), .release (.device dev)])
      else
        let s := s.log [.acquire (.regions dev)]
        let undo : List LifeEv :=
          [.release (.regions dev), .release (.block (some b)), .release (.device dev)]
        if env.setDmaMask < 0 then (env.setDmaMask, s.log undo)
        else
          let bars := probeBars env.bars maxBars 0 d
          let s := { s with priv := Function.update s.priv b bars.2.1 }.log bars.2.2
          if bars.1 = false then (xstFailure, s.log undo)
          -- The registers are in BAR 0.
          else if bars.2.1.baseVAddr 0 = none then (0, s.fault)
          else (0, probeChrdev env { s with drvdata := Function.update s.drvdata dev (some b) })

/-- The mappings that `xdma_remove` undoes. -/
def barReleases (d : PrivData) : List Res :=
  (List.range maxBars).filterMap fun i => if d.barMask i then (d.baseVAddr i).map Res.bar else none

def xdmaRemove (dev : ℕ) (s : ModuleSys) : ModuleSys :=
  match s.drvdata dev, s.dmaData with
  | some lp, some b =>
    let s := s.log (.use (some lp) :: .use (some b) :: (barReleases (s.priv b)).map .release)
    let s := match s.xdmaCdev with
      | none => s
      | some no => s.log [.release (.chrdev no)]
    { s.log [.release (.regions dev), .release (.device dev)] with
      drvdata := Function.update s.drvdata dev none }
  | _, _ => s.fault

/-- `pci_unregister_driver` -/
def removeAll : List ℕ → ModuleSys → ModuleSys
  | [], s => s
  | dev :: devs, s => if (xdmaRemove dev s).crashed then xdmaRemove dev s
      else removeAll devs (xdmaRemove dev s)

def xdmaCleanup (s : ModuleSys) : ModuleSys :=
  let s := removeAll s.bound s
  if s.crashed then s
  else
    let s := { s with bound := [], unloaded := true }
    match s.dmaData with
    | none => s
    | some b => s.log [.use (some b), .release (.block (some b))]

inductive ModuleAct where
  | probe (dev : ℕ) (env : ProbeEnv)
  /-- The device is unbound. -/
  | remove (dev : ℕ)
  | cleanup

/-- The PCI core probes devices that are not bound, and removes those that are. -/
def moduleStep (s : ModuleSys) (a : ModuleAct) : Option ModuleSys :=
  if s.crashed ∨ s.unloaded then none
  else match a with
    | .probe dev env =>
      if dev ∈ s.bound then none
      else
        let done := xdmaProbe dev env s
        some { done.2 with
          bound := if 0 ≤ done.1 then dev :: s.bound else s.bound
          succeeded := s.succeeded || decide (done.1 = 0) }
    | .remove dev =>
      if dev ∈ s.bound then some { xdmaRemove dev s with bound := s.bound.erase dev } else none
    | .cleanup => some (xdmaCleanup s)

/-- After `xdma_init`. -/
def loadedModule : ModuleSys where
  dmaData := none
  priv := fun _ => { barMask := fun _ => false, baseVAddr := fun _ => none }
  xdmaCdev := none
  drvdata := fun _ => none
  bound := []
  evs := []
  crashed := false
  unloaded := false
  succeeded := false

/-! ## Books -/

variable {s s' : ModuleSys} {M N : Multiset Res} {dev b : ℕ} {env : ProbeEnv}

@[simp] theorem log_xdmaCdev (s : ModuleSys) (evs : List LifeEv) :
    (s.log evs).xdmaCdev = s.xdmaCdev := rfl

theorem books_log {evs : List LifeEv} (h : books s.evs = some M)
    (h' : settle M (evs.flatMap lifeEntries) = some N) : books (s.log evs).evs = some N := by
  show settle 0 ((s.evs ++ evs).flatMap lifeEntries) = some N
  rw [List.flatMap_append]
  exact settle_append_eq h h'

theorem settle_acquire (r : Res) (M : Multiset Res) (evs : List LifeEv) :
    settle M ((.acquire r :: evs).flatMap lifeEntries) =
      settle (r ::ₘ M) (evs.flatMap lifeEntries) := rfl

theorem settle_release (r : Res) (M : Multiset Res) (evs : List LifeEv) :
    settle (r ::ₘ M) ((.release r :: evs).flatMap lifeEntries) =
      settle M (evs.flatMap lifeEntries) :=
  settle_head r M _

theorem settle_use {addr : Option ℕ} (h : .block addr ∈ M) (evs : List LifeEv) :
    settle M ((.use addr :: evs).flatMap lifeEntries) = settle M (evs.flatMap lifeEntries) :=
  settle_borrow h _

theorem settle_acquires (l : List Res) (M : Multiset Res) :
    settle M ((l.map LifeEv.acquire).flatMap lifeEntries) = some ((l : Multiset Res) + M) := by
  rw [List.flatMap_map, ← settle_opens l M, List.map_eq_flatMap]
  rfl

theorem settle_releases (l : List Res) (M : Multiset Res) :
    settle ((l : Multiset Res) + M) ((l.map LifeEv.release).flatMap lifeEntries) = some M := by
  rw [List.flatMap_map, ← settle_closes l M, List.map_eq_flatMap]
  rfl

/-! ## The loop over the BARs -/

/-- The mapping of BAR `i`. -/
def barAt (d : PrivData) (i : ℕ) : Option Res :=
  if d.barMask i then (d.baseVAddr i).map Res.bar else none

theorem barAt_of_false {d : PrivData} {i : ℕ} (h : d.barMask i = false) : barAt d i = none :=
  if_neg (by simp [h])

theorem barAt_of_true {d : PrivData} {i va : ℕ} (h : d.barMask i = true)
    (hva : d.baseVAddr i = some va) : barAt d i = some (.bar va) := by
  rw [barAt, if_pos h, hva]
  rfl

theorem barAt_congr {d d' : PrivData} {i : ℕ} (h : d'.barMask i = d.barMask i)
    (hva : d'.baseVAddr i = d.baseVAddr i) : barAt d' i = barAt d i := by
  unfold barAt
  simp only [h, hva]

theorem barReleases_eq (d : PrivData) :
    barReleases d = (List.range' 0 maxBars).filterMap (barAt d) := by
  rw [barReleases, List.range_eq_range']
  rfl

/-- BAR 0 is there and is mapped, and all BARs that are there are memory. -/
structure BarsOk (bars : ℕ → BarEnv) : Prop where
  len : (bars 0).len ≠ 0
  vaddr : (bars 0).vaddr ≠ none
  mem : ∀ i < maxBars, (bars i).len ≠ 0 → (bars i).mem = true

/-- Then the loop gets to its end, and leaves in `dmaData` what it has mapped. -/
theorem probeBars_spec (bars : ℕ → BarEnv) (n i : ℕ) (d : PrivData)
    (hmem : ∀ j, i ≤ j → j < i + n → (bars j).len ≠ 0 → (bars j).mem = true)
    (hfirst : i = 0 → (bars 0).len ≠ 0) (hd : ∀ j, i ≤ j → d.barMask j = false) :
    (probeBars bars n i d).1 = true ∧
    (∀ j < i, barAt (probeBars bars n i d).2.1 j = barAt d j ∧
      (probeBars bars n i d).2.1.baseVAddr j = d.baseVAddr j) ∧
    (probeBars bars n i d).2.2 =
      ((List.range' i n).filterMap (barAt (probeBars bars n i d).2.1)).map .acquire ∧
    (0 < n → (bars i).len ≠ 0 → (probeBars bars n i d).2.1.baseVAddr i = (bars i).vaddr) := by
  induction n generalizing i d with
  | zero => exact ⟨rfl, fun j _ => ⟨rfl, rfl⟩, rfl, fun h => absurd h (lt_irrefl 0)⟩
  | succ n ih =>
    have hnext : ∀ j, i + 1 ≤ j → j < i + 1 + n → (bars j).len ≠ 0 → (bars j).mem = true :=
      fun j hij hj => hmem j (by omega) (by omega)
    -- The BARs that follow leave this one and those before it alone.
    have hafter : ∀ d' : PrivData,
        (∀ j ≠ i, d'.barMask j = d.barMask j ∧ d'.baseVAddr j = d.baseVAddr j) →
        (probeBars bars n (i + 1) d').1 = true ∧
        (∀ j < i, barAt (probeBars bars n (i + 1) d').2.1 j = barAt d j ∧
          (probeBars bars n (i + 1) d').2.1.baseVAddr j = d.baseVAddr j) ∧
        (barAt (probeBars bars n (i + 1) d').2.1 i = barAt d' i ∧
          (probeBars bars n (i + 1) d').2.1.baseVAddr i = d'.baseVAddr i) ∧
        (probeBars bars n (i + 1) d').2.2 = ((List.range' (i + 1) n).filterMap
          (barAt (probeBars bars n (i + 1) d').2.1)).map .acquire := by
      intro d' hsame
      obtain ⟨hend, hbefore, hevs, -⟩ := ih (i + 1) d' hnext (by omega) fun j hj =>
        (hsame j (by omega)).1.trans (hd j (by omega))
      refine ⟨hend, fun j hj => ?_, hbefore i (by omega), hevs⟩
      obtain ⟨hbar, hbase⟩ := hbefore j (by omega)
      obtain ⟨hmask, hva⟩ := hsame j (by omega)
      exact ⟨hbar.trans (barAt_congr hmask hva), hbase.trans hva⟩
    rw [probeBars, List.range'_succ, List.filterMap_cons]
    by_cases hlen : (bars i).len = 0
    · have hi : i ≠ 0 := by
        rintro rfl
        exact hfirst rfl hlen
      obtain ⟨hend, hbefore, ⟨hbar, -⟩, hevs⟩ := hafter d fun _ _ => ⟨rfl, rfl⟩
      rw [if_pos hlen, if_neg hi, hbar, barAt_of_false (hd i le_rfl)]
      exact ⟨hend, hbefore, hevs, fun _ h => absurd hlen h⟩
    · have hm := hmem i le_rfl (by omega) hlen
      rw [if_neg hlen]
      dsimp only
      rw [if_neg (by rw [hm]; simp)]
      cases hva : (bars i).vaddr with
      | none =>
        dsimp only
        set d' : PrivData := {
          barMask := Function.update (Function.update d.barMask i true) i false
          baseVAddr := Function.update d.baseVAddr i none } with hd'
        have hsame : ∀ j ≠ i, d'.barMask j = d.barMask j ∧ d'.baseVAddr j = d.baseVAddr j := by
          intro j hj
          rw [hd']
          dsimp only
          rw [Function.update_of_ne hj, Function.update_of_ne hj, Function.update_of_ne hj]
          exact ⟨rfl, rfl⟩
        obtain ⟨hend, hbefore, ⟨hbar, hbase⟩, hevs⟩ := hafter d' hsame
        rw [hbar, barAt_of_false (Function.update_self _ _ _)]
        exact ⟨hend, hbefore, hevs, fun _ _ => hbase.trans (Function.update_self _ _ _)⟩
      | some va =>
        dsimp only
        set d' : PrivData := {
          barMask := Function.update d.barMask i true
          baseVAddr := Function.update d.baseVAddr i (some va) } with hd'
        have hsame : ∀ j ≠ i, d'.barMask j = d.barMask j ∧ d'.baseVAddr j = d.baseVAddr j := by
          intro j hj
          rw [hd']
          dsimp only
          rw [Function.update_of_ne hj, Function.update_of_ne hj]
          exact ⟨rfl, rfl⟩
        obtain ⟨hend, hbefore, ⟨hbar, hbase⟩, hevs⟩ := hafter d' hsame
        rw [hbar, barAt_of_true (Function.update_self _ _ _) (Function.update_self _ _ _)]
        refine ⟨hend, hbefore, ?_, fun _ _ => hbase.trans (Function.update_self _ _ _)⟩
        rw [hevs]
        rfl

/-! ## Orderly runs -/

/-- The kernel's answers let `xdma_probe` get to its end, or fail where all is undone and the return
value is negative. -/
structure ProbeOk (env : ProbeEnv) : Prop where
  block : env.block ≠ none
  rest : env.requestRegions < 0 ∨ env.setDmaMask < 0 ∨
    BarsOk env.bars ∧ (env.chrdev = none ∨ env.cdev = true ∧ 0 ≤ env.cdevAdd)

/-- No probe gets as far as `dmaData` after one has succeeded, and the last one that did so has
succeeded when the module is unloaded. -/
def Orderly (s : ModuleSys) : ModuleAct → Prop
  | .probe _ env => env.enable < 0 ∨ s.succeeded = false ∧ ProbeOk env
  | .remove _ => True
  | .cleanup => s.dmaData = none ∨ s.succeeded = true

/-- What `xdma_remove` releases. -/
def held (dev : ℕ) (d : PrivData) (cdev : Option ℕ) : List Res :=
  barReleases d ++ cdev.toList.map Res.chrdev ++ [.regions dev, .device dev]

/-- **The invariant**: what is held, before a probe has succeeded, while the device is bound, after
it has been removed, and in the end. -/
inductive LifeInv (s : ModuleSys) : Prop where
  | fresh (hbooks : books s.evs = some 0) (hcrashed : s.crashed = false)
      (hsucceeded : s.succeeded = false) (hbound : s.bound = []) (hcdev : s.xdmaCdev = none)
  | bound (dev b : ℕ)
      (hbooks : books s.evs = some ((held dev (s.priv b) s.xdmaCdev : Multiset Res) +
        {.block (some b)}))
      (hcrashed : s.crashed = false) (hunloaded : s.unloaded = false)
      (hsucceeded : s.succeeded = true) (hbound : s.bound = [dev])
      (hdata : s.dmaData = some b) (hdrv : s.drvdata dev = some b)
  | removed (b : ℕ) (hbooks : books s.evs = some {.block (some b)}) (hcrashed : s.crashed = false)
      (hunloaded : s.unloaded = false) (hsucceeded : s.succeeded = true) (hbound : s.bound = [])
      (hdata : s.dmaData = some b)
  | unloaded (hbooks : books s.evs = some 0) (hcrashed : s.crashed = false)
      (hunloaded : s.unloaded = true)

theorem books_acquire (h : books s.evs = some M) (r : Res) :
    books (s.log [.acquire r]).evs = some (r ::ₘ M) :=
  books_log h (settle_acquire r M [])

/-- `dmaData` is allocated and filled. -/
theorem books_block (h : books s.evs = some M) (b : ℕ) :
    books (s.log [.acquire (.block (some b)), .use (some b)]).evs =
      some (.block (some b) ::ₘ M) := by
  apply books_log h
  rw [settle_acquire, settle_use (Multiset.mem_cons_self _ _)]
  rfl

/-- A probe that fails before the BARs. -/
theorem xdmaProbe_undone (dev : ℕ) (h : books s.evs = some M) (hcrashed : s.crashed = false)
    (henable : ¬ env.enable < 0) (hblock : env.block = some b)
    (hfail : env.requestRegions < 0 ∨ env.setDmaMask < 0) :
    (xdmaProbe dev env s).1 < 0 ∧ books (xdmaProbe dev env s).2.evs = some M ∧
      (xdmaProbe dev env s).2.crashed = false ∧
      (xdmaProbe dev env s).2.xdmaCdev = s.xdmaCdev ∧
      (xdmaProbe dev env s).2.bound = s.bound ∧
      (xdmaProbe dev env s).2.succeeded = s.succeeded := by
  have hdevice := books_acquire h (.device dev)
  have hdata : books ({ s.log [.acquire (.device dev)] with dmaData := some b }.log
      [.acquire (.block (some b)), .use (some b)]).evs = _ := books_block hdevice b
  rw [xdmaProbe, if_neg henable, hblock]
  dsimp only
  by_cases hregions : env.requestRegions < 0
  · rw [if_pos hregions]
    refine ⟨hregions, books_log hdata ?_, hcrashed, rfl, rfl, rfl⟩
    rw [settle_release, settle_release]
    rfl
  · have hmask := hfail.resolve_left hregions
    rw [if_neg hregions, if_pos hmask]
    refine ⟨hmask, books_log (books_acquire hdata (.regions dev)) ?_, hcrashed, rfl, rfl, rfl⟩
    rw [settle_release, settle_release, settle_release]
    rfl

theorem held_eq (dev : ℕ) (d : PrivData) (cdev : Option ℕ) (b : ℕ) :
    (held dev d cdev : Multiset Res) + {.block (some b)} =
      (cdev.toList.map Res.chrdev : Multiset Res) + ((barReleases d : Multiset Res) +
        .regions dev ::ₘ .block (some b) ::ₘ .device dev ::ₘ 0) := by
  simp only [held, ← Multiset.coe_add, ← Multiset.cons_coe, Multiset.coe_nil,
    ← Multiset.singleton_add]
  abel

/-- A probe that succeeds. -/
theorem xdmaProbe_bound (dev : ℕ) (h : books s.evs = some 0) (hcrashed : s.crashed = false)
    (hcdev : s.xdmaCdev = none) (henable : ¬ env.enable < 0) (hblock : env.block = some b)
    (hregions : ¬ env.requestRegions < 0) (hmask : ¬ env.setDmaMask < 0) (hbars : BarsOk env.bars)
    (hchr : env.chrdev = none ∨ env.cdev = true ∧ 0 ≤ env.cdevAdd) :
    (xdmaProbe dev env s).1 = 0 ∧
    books (xdmaProbe dev env s).2.evs =
      some ((held dev ((xdmaProbe dev env s).2.priv b) (xdmaProbe dev env s).2.xdmaCdev :
        Multiset Res) + {.block (some b)}) ∧
    (xdmaProbe dev env s).2.crashed = false ∧ (xdmaProbe dev env s).2.unloaded = s.unloaded ∧
    (xdmaProbe dev env s).2.bound = s.bound ∧ (xdmaProbe dev env s).2.dmaData = some b ∧
    (xdmaProbe dev env s).2.drvdata dev = some b := by
  obtain ⟨hend, -, hevs, hfirst⟩ := probeBars_spec env.bars maxBars 0
    { barMask := fun _ => false, baseVAddr := fun _ => none }
    (fun j _ hj => hbars.mem j (by omega)) (fun _ => hbars.len) fun _ _ => rfl
  have hva := hfirst (by decide) hbars.len
  rw [← barReleases_eq] at hevs
  have hdevice := books_acquire h (.device dev)
  have hdata : books ({ s.log [.acquire (.device dev)] with dmaData := some b }.log
      [.acquire (.block (some b)), .use (some b)]).evs = _ := books_block hdevice b
  have hall := books_log (books_acquire hdata (.regions dev))
    (settle_acquires (barReleases (probeBars env.bars maxBars 0
      { barMask := fun _ => false, baseVAddr := fun _ => none }).2.1) _)
  rw [xdmaProbe, if_neg henable, hblock]
  dsimp only
  rw [if_neg hregions, if_neg hmask, hend, if_neg (by simp), hva, if_neg hbars.vaddr, probeChrdev]
  rw [← hevs] at hall
  set d := (probeBars env.bars maxBars 0
    { barMask := fun _ => false, baseVAddr := fun _ => none }).2.1
  cases hno : env.chrdev with
  | none =>
    refine ⟨rfl, ?_, hcrashed, rfl, rfl, rfl, Function.update_self _ _ _⟩
    show books _ = some ((held dev (Function.update s.priv b d b) s.xdmaCdev : Multiset Res) + _)
    rw [Function.update_self, hcdev, held_eq]
    exact hall.trans (congrArg some (zero_add _).symm)
  | some no =>
    obtain ⟨hcdev', hadd⟩ := hchr.resolve_left (by rw [hno]; exact Option.some_ne_none no)
    dsimp only
    rw [if_neg (by rw [hcdev']; simp), if_neg (not_lt.2 hadd)]
    refine ⟨rfl, ?_, hcrashed, rfl, rfl, rfl, Function.update_self _ _ _⟩
    show books _ = some ((held dev (Function.update s.priv b d b) (some no) : Multiset Res) + _)
    rw [Function.update_self, held_eq]
    exact books_acquire hall (.chrdev no)

/-- The removal of the device. -/
theorem xdmaRemove_spec
    (h : books s.evs = some ((held dev (s.priv b) s.xdmaCdev : Multiset Res) + {.block (some b)}))
    (hdata : s.dmaData = some b) (hdrv : s.drvdata dev = some b) :
    books (xdmaRemove dev s).evs = some {.block (some b)} ∧
    (xdmaRemove dev s).crashed = s.crashed ∧ (xdmaRemove dev s).unloaded = s.unloaded ∧
    (xdmaRemove dev s).succeeded = s.succeeded ∧ (xdmaRemove dev s).dmaData = some b := by
  have hopen : (.block (some b) : Res) ∈
      (held dev (s.priv b) s.xdmaCdev : Multiset Res) + {.block (some b)} :=
    Multiset.mem_add.2 (Or.inr (Multiset.mem_singleton_self _))
  have hbars : books (s.log (.use (some b) :: .use (some b) ::
      (barReleases (s.priv b)).map .release)).evs =
        some ((s.xdmaCdev.toList.map Res.chrdev ++ [.regions dev, .device dev] : List Res) +
          ({.block (some b)} : Multiset Res)) := by
    apply books_log h
    rw [settle_use hopen, settle_use hopen, held, List.append_assoc, ← Multiset.coe_add, add_assoc]
    exact settle_releases _ _
  rw [xdmaRemove, hdrv, hdata]
  dsimp only
  rw [log_xdmaCdev]
  cases hcdev : s.xdmaCdev with
  | none =>
    refine ⟨?_, rfl, rfl, rfl, hdata⟩
    rw [hcdev] at hbars
    apply books_log hbars
    exact settle_releases [.regions dev, .device dev] _
  | some no =>
    refine ⟨?_, rfl, rfl, rfl, hdata⟩
    rw [hcdev] at hbars
    refine books_log (books_log hbars (N := (([.regions dev, .device dev] : List Res) :
      Multiset Res) + {.block (some b)}) ?_) (settle_releases [.regions dev, .device dev] _)
    show settle (((.chrdev no :: [.regions dev, .device dev] : List Res) : Multiset Res) +
      {.block (some b)}) _ = _
    rw [← Multiset.cons_coe, Multiset.cons_add, settle_release]
    rfl

/-- **One step.** -/
theorem LifeInv.step {a : ModuleAct} (h : LifeInv s) (hok : Orderly s a)
    (hstep : moduleStep s a = some s') : LifeInv s' := by
  unfold moduleStep at hstep
  by_cases hend : s.crashed = true ∨ s.unloaded = true
  · rw [if_pos hend] at hstep
    cases hstep
  rw [if_neg hend] at hstep
  obtain ⟨-, hloaded⟩ := not_or.1 hend
  cases a with
  | probe dev env =>
    dsimp only at hstep
    by_cases hin : dev ∈ s.bound
    · rw [if_pos hin] at hstep
      cases hstep
    rw [if_neg hin, Option.some.injEq] at hstep
    subst hstep
    by_cases henable : env.enable < 0
    · -- Nothing was acquired.
      have hprobe : xdmaProbe dev env s = (env.enable, s) := if_pos henable
      rw [hprobe]
      dsimp only
      rw [if_neg (by omega), decide_eq_false (by omega), Bool.or_false]
      exact h
    obtain ⟨hnone, hprobe⟩ := hok.resolve_left henable
    obtain ⟨b, hblock⟩ := Option.ne_none_iff_exists'.1 hprobe.block
    cases h with
    | bound dev b hbooks hcrashed hunloaded hsucceeded => simp [hsucceeded] at hnone
    | removed b hbooks hcrashed hunloaded hsucceeded => simp [hsucceeded] at hnone
    | unloaded hbooks hcrashed hunloaded => exact absurd hunloaded hloaded
    | fresh hbooks hcrashed hsucceeded hbound hcdev =>
      by_cases hfail : env.requestRegions < 0 ∨ env.setDmaMask < 0
      · obtain ⟨hret, hbooks', hcrashed', hcdev', hbound', hsucceeded'⟩ :=
          xdmaProbe_undone dev hbooks hcrashed henable hblock hfail
        refine .fresh hbooks' hcrashed' ?_ ?_ (hcdev'.trans hcdev)
        · show (s.succeeded || decide ((xdmaProbe dev env s).1 = 0)) = false
          rw [hsucceeded, decide_eq_false (by omega)]
          rfl
        · show (if 0 ≤ (xdmaProbe dev env s).1 then dev :: s.bound else s.bound) = []
          rw [if_neg (by omega), hbound]
      · obtain ⟨hregions, hmask⟩ := not_or.1 hfail
        obtain ⟨hbars, hchr⟩ := (hprobe.rest.resolve_left hregions).resolve_left hmask
        obtain ⟨hret, hbooks', hcrashed', hunloaded', hbound', hdata', hdrv'⟩ :=
          xdmaProbe_bound dev hbooks hcrashed hcdev henable hblock hregions hmask hbars hchr
        refine .bound dev b hbooks' hcrashed' ?_ ?_ ?_ hdata' hdrv'
        · show (xdmaProbe dev env s).2.unloaded = false
          rw [hunloaded']
          exact Bool.eq_false_iff.2 hloaded
        · show (s.succeeded || decide ((xdmaProbe dev env s).1 = 0)) = true
          rw [hret, decide_eq_true rfl, Bool.or_true]
        · show (if 0 ≤ (xdmaProbe dev env s).1 then dev :: s.bound else s.bound) = [dev]
          rw [hret, if_pos le_rfl, hbound]
  | remove dev =>
    dsimp only at hstep
    by_cases hin : dev ∈ s.bound
    swap
    · rw [if_neg hin] at hstep
      cases hstep
    rw [if_pos hin, Option.some.injEq] at hstep
    subst hstep
    cases h with
    | fresh hbooks hcrashed hsucceeded hbound =>
      rw [hbound] at hin
      cases hin
    | removed b hbooks hcrashed hunloaded hsucceeded hbound =>
      rw [hbound] at hin
      cases hin
    | unloaded hbooks hcrashed hunloaded => exact absurd hunloaded hloaded
    | bound dev' b hbooks hcrashed hunloaded hsucceeded hbound hdata hdrv =>
      rw [hbound, List.mem_singleton] at hin
      subst hin
      obtain ⟨hbooks', hcrashed', hunloaded', hsucceeded', hdata'⟩ :=
        xdmaRemove_spec hbooks hdata hdrv
      refine .removed b hbooks' (hcrashed'.trans hcrashed) (hunloaded'.trans hunloaded)
        (hsucceeded'.trans hsucceeded) ?_ hdata'
      show s.bound.erase dev = []
      rw [hbound, List.erase_cons_head]
  | cleanup =>
    rw [Option.some.injEq] at hstep
    subst hstep
    cases h with
    | unloaded hbooks hcrashed hunloaded => exact absurd hunloaded hloaded
    | fresh hbooks hcrashed hsucceeded hbound =>
      have hdata : s.dmaData = none := hok.resolve_right (by simp [hsucceeded])
      rw [xdmaCleanup, hbound, removeAll]
      dsimp only
      rw [if_neg (by simp [hcrashed]), hdata]
      exact .unloaded hbooks hcrashed rfl
    | removed b hbooks hcrashed hunloaded hsucceeded hbound hdata =>
      rw [xdmaCleanup, hbound, removeAll]
      dsimp only
      rw [if_neg (by simp [hcrashed]), hdata]
      refine .unloaded (books_log (s := s) hbooks ?_) hcrashed rfl
      rw [settle_use (Multiset.mem_singleton_self _)]
      exact settle_release _ 0 []
    | bound dev b hbooks hcrashed hunloaded hsucceeded hbound hdata hdrv =>
      obtain ⟨hbooks', hcrashed', hunloaded', hsucceeded', hdata'⟩ :=
        xdmaRemove_spec hbooks hdata hdrv
      have halive : ¬ (xdmaRemove dev s).crashed = true := by simp [hcrashed', hcrashed]
      rw [xdmaCleanup, hbound, removeAll, if_neg halive, removeAll]
      dsimp only
      rw [if_neg halive, hdata']
      refine .unloaded (books_log (s := xdmaRemove dev s) hbooks' ?_)
        (hcrashed'.trans hcrashed) rfl
      rw [settle_use (Multiset.mem_singleton_self _)]
      exact settle_release _ 0 []

/-- **The module's resources.** In an orderly run nothing is released or used that is not held, no
null pointer is used, and after `xdma_cleanup` nothing is held. -/
theorem resources_settle (acts : List ModuleAct) (s : ModuleSys)
    (hok : Along moduleStep Orderly loadedModule acts)
    (hrun : run moduleStep loadedModule acts = some s) :
    s.crashed = false ∧ ∃ M, books s.evs = some M ∧ (s.unloaded = true → M = 0) := by
  have hinv : LifeInv s := by
    refine run_inv (fun s a s' h hok hstep => LifeInv.step h hok hstep) ?_ hok hrun
    exact .fresh rfl rfl rfl rfl rfl
  cases hinv with
  | fresh hbooks hcrashed => exact ⟨hcrashed, 0, hbooks, fun _ => rfl⟩
  | bound dev b hbooks hcrashed hunloaded =>
    exact ⟨hcrashed, _, hbooks, fun hdone => by simp [hunloaded] at hdone⟩
  | removed b hbooks hcrashed hunloaded =>
    exact ⟨hcrashed, _, hbooks, fun hdone => by simp [hunloaded] at hdone⟩
  | unloaded hbooks hcrashed => exact ⟨hcrashed, 0, hbooks, fun _ => rfl⟩

/-- A kernel that answers everything, for a device with two BARs. -/
def willing : ProbeEnv where
  enable := 0
  block := some 0xA000
  requestRegions := 0
  setDmaMask := 0
  bars := fun i => if i < 2 then ⟨4096, true, some (0xB000 + i)⟩ else ⟨0, false, none⟩
  chrdev := some 250
  cdev := true
  cdevAdd := 0

/-- The regions are busy at first; then the device is probed, unbound, and the module unloaded. -/
def busyFirst : List ModuleAct :=
  [.probe 0 { willing with requestRegions := -16 }, .probe 0 willing, .remove 0, .cleanup]

theorem resources_settle_busyFirst : ∃ s, run moduleStep loadedModule busyFirst = some s ∧
    s.crashed = false ∧ ∃ M, books s.evs = some M ∧ (s.unloaded = true → M = 0) := by
  have hbars : BarsOk willing.bars := by
    refine ⟨by decide, by decide, fun i _ hlen => ?_⟩
    by_cases hi : i < 2
    · simp only [willing, if_pos hi]
    · exact absurd (by simp only [willing, if_neg hi]) hlen
  have hok : Along moduleStep Orderly loadedModule busyFirst := by
    refine (along_cons_of_step rfl).2 ⟨Or.inr ⟨rfl, by decide, Or.inl (by decide)⟩, ?_⟩
    refine (along_cons_of_step rfl).2 ⟨Or.inr ⟨rfl, by decide, ?_⟩, ?_⟩
    · exact Or.inr (Or.inr ⟨hbars, Or.inr ⟨rfl, by decide⟩⟩)
    · exact (along_cons_of_step rfl).2 ⟨trivial, (along_cons_of_step rfl).2 ⟨Or.inr rfl, trivial⟩⟩
  exact ⟨_, rfl, resources_settle busyFirst _ hok rfl⟩

/-- **Left behind.** The regions are busy, and `xdma_cleanup` uses and frees `dmaData` again. BAR 1
is not memory: the mapping of BAR 0 is kept, and as `XST_FAILURE` is positive `xdma_remove` is
called and stops at a null pointer. `cdev_add` fails, and the device number is given back twice. The
device is bound again, and the first `dmaData` is never freed. -/
theorem left_behind :
    (∃ s, run moduleStep loadedModule [.probe 0 { willing with requestRegions := -16 }, .cleanup] =
      some s ∧ s.unloaded = true ∧ books s.evs = none) ∧
    (∃ s, run moduleStep loadedModule [.probe 0 { willing with
        bars := fun i => if i = 0 then ⟨4096, true, some 0xB000⟩ else ⟨256, false, none⟩ },
        .cleanup] = some s ∧
      s.crashed = true ∧ LifeEv.acquire (.bar 0xB000) ∈ s.evs ∧
      LifeEv.release (.bar 0xB000) ∉ s.evs) ∧
    (∃ s, run moduleStep loadedModule [.probe 0 { willing with cdevAdd := -12 }, .cleanup] =
      some s ∧ s.unloaded = true ∧ books s.evs = none) ∧
    ∃ s, run moduleStep loadedModule [.probe 0 willing, .remove 0,
        .probe 0 { willing with block := some 0xC000 }, .cleanup] = some s ∧
      s.unloaded = true ∧ books s.evs = some {.block (some 0xA000)} :=
  ⟨⟨_, rfl, rfl, by decide +kernel⟩, ⟨_, rfl, rfl, by decide +kernel, by decide +kernel⟩,
    ⟨_, rfl, rfl, by decide +kernel⟩, _, rfl, rfl, by decide +kernel⟩

end Dma
