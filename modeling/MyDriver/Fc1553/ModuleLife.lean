import MyDriver.Lib.Ledger
import MyDriver.Xdma.Lifecycle

/-!
# What the card's module acquires and releases: `fc1553.c`

`fc1553_pci_probe` takes over the device as `xdma_probe` does, and then registers a character device
and allocates the card. It undoes its work by hand in the first part and hardly in the second, where
two labels release one region or nothing. `fc1553_exit` frees the card before it unregisters the
driver, whose `fc1553_pci_remove` uses the card.

The history of a run is a ledger of resources, as for the other module: a use of the card counts as
closing and opening its block again.

* `probe_clean_iff` — the failures that leave nothing behind.
* `exit_needs_card` — without a card `fc1553_exit` stops the kernel.
* `life_never` — **no run keeps its books in order**.
-/

namespace Fc1553

open Ledger
open Dma (BarEnv maxBars xstFailure)

/-! ## Resources -/

/-- What can be acquired. Blocks and mappings go by their addresses, `none` is the null pointer. -/
inductive Res where
  | device
  | block (addr : Option ℕ)
  | region (bar : ℕ)
  | bar (vaddr : ℕ)
  | chrdev (major minor : ℕ)
  | cdev
deriving DecidableEq

inductive LifeEv where
  | acquire (r : Res)
  | release (r : Res)
  /-- The card at `addr` is read. -/
  | use (addr : Option ℕ)
deriving DecidableEq

def lifeEntries : LifeEv → List (Entry Res)
  | .acquire r => [.opens r]
  | .release r => [.closes r]
  | .use addr => [.closes (.block addr), .opens (.block addr)]

/-- What is held after these events; `none` if something was released or used that was not held. -/
def books (evs : List LifeEv) : Option (Multiset Res) := settle 0 (evs.flatMap lifeEntries)

/-! ## The module -/

/-- `FC1553_MAJOR` and `FC1553_MINOR` -/
def fc1553Major : ℕ := 250
def fc1553Minor : ℕ := 0

/-- `ENODEV` -/
def eNodev : ℤ := 19

/-- What the kernel answers during a probe. -/
structure ProbeEnv where
  enable : ℤ
  dmaData : Option ℕ
  requestRegions : ℤ
  setDmaMask : ℤ
  bars : ℕ → BarEnv
  /-- What the registration of the character device returns. -/
  chrdev : ℤ
  /-- The number that `alloc_chrdev_region` finds. -/
  dynamicMajor : ℕ
  card : Option ℕ
  memBuf : Option ℕ
  cdevAdd : ℤ
  /-- An access to a register through a null pointer stops the kernel. -/
  nullFaults : Bool

structure ModuleSys where
  major : ℕ
  minor : ℕ
  /-- `barInfo[0].baseVAddr` of `dmaData` -/
  bar0 : Option ℕ
  /-- `pfc1553_card`, and three of the fields of the card. -/
  card : Option ℕ
  memBuf : Option ℕ
  addrMap : Option ℕ
  evs : List LifeEv
  /-- The kernel has stopped at a null pointer. -/
  crashed : Bool

def ModuleSys.log (s : ModuleSys) (evs : List LifeEv) : ModuleSys := { s with evs := s.evs ++ evs }

/-- The module as it is loaded, with its parameters. -/
def loaded (major minor : ℕ) : ModuleSys where
  major := major
  minor := minor
  bar0 := none
  card := none
  memBuf := none
  addrMap := none
  evs := []
  crashed := false

/-- The loop over the BARs: whether it gets to its end, and the mappings made. A BAR that cannot be
mapped is passed over. -/
def probeBars (bars : ℕ → BarEnv) : ℕ → ℕ → Bool × List ℕ
  | 0, _ => (true, [])
  | n + 1, i =>
    if (bars i).len = 0 then
      if i = 0 then (false, []) else probeBars bars n (i + 1)
    else if (bars i).mem = false then (false, [])
    else
      let rest := probeBars bars n (i + 1)
      (rest.1, (bars i).vaddr.toList ++ rest.2)

/-- The BARs that have a region to request. -/
def barRegions (bars : ℕ → BarEnv) : List Res :=
  ((List.range maxBars).filter fun i => (bars i).len ≠ 0).map .region

/-- The first part of `fc1553_pci_probe`: what it returns, if it returns there. -/
def probePci (env : ProbeEnv) (s : ModuleSys) : Option ℤ × ModuleSys :=
  if env.enable < 0 then (some env.enable, s)
  else
    let s := s.log [.acquire .device]
    match env.dmaData with
    | none => (some xstFailure, s.log [.release .device])
    | some b =>
      let s := s.log [.acquire (.block (some b))]
      let undo : List LifeEv := [.release (.block (some b)), .release .device]
      if env.requestRegions < 0 then (some env.requestRegions, s.log undo)
      else
        let s := s.log ((barRegions env.bars).map .acquire)
        let undo := (barRegions env.bars).map .release ++ undo
        if env.setDmaMask < 0 then (some env.setDmaMask, s.log undo)
        else
          let bars := probeBars env.bars maxBars 0
          let s := s.log (bars.2.map fun va => .acquire (.bar va))
          if bars.1 = false then (some xstFailure, s.log undo)
          -- The registers are in BAR 0.
          else if (env.bars 0).vaddr = none ∧ env.nullFaults then (some 0, { s with crashed := true })
          else (none, { s with bar0 := (env.bars 0).vaddr })

def fc1553PciRemove (s : ModuleSys) : ModuleSys :=
  match s.card with
  | none => { s.log [.use none] with crashed := true }
  | some card => s.log (.use (some card) :: .release (.region 0) :: .use (some card) ::
      s.addrMap.toList.map fun va => .release (.bar va))

/-- The second part, from the registration of the character device on. -/
def probeChrdev (env : ProbeEnv) (s : ModuleSys) : ℤ × ModuleSys :=
  let s := if s.major ≠ 0 then s else { s with major := env.dynamicMajor }
  if env.chrdev < 0 then (env.chrdev, s)
  else
    let s := s.log [.acquire (.chrdev s.major s.minor)]
    match env.card with
    | none => (-eNodev, { s with card := none })
    | some card =>
      let s := { s with card := some card, memBuf := none, addrMap := none }.log
        [.acquire (.block (some card))]
      match env.memBuf with
      | none => (-eNodev, s)
      | some memBuf =>
        let s := { s with memBuf := some memBuf, addrMap := s.bar0 }.log
          [.acquire (.block (some memBuf))]
        if s.bar0 = none then (-eNodev, fc1553PciRemove s)
        else if env.cdevAdd ≠ 0 then (-eNodev, s)
        else (0, s.log [.acquire .cdev])

def fc1553PciProbe (env : ProbeEnv) (s : ModuleSys) : ℤ × ModuleSys :=
  match probePci env s with
  | (some result, s) => (result, s)
  | (none, s) => probeChrdev env s

/-- `pci_unregister_driver` calls the remove function of a driver that is bound to the device. The
memory of a freed card still holds what was in it. -/
def fc1553Exit (bound : Bool) (s : ModuleSys) : ModuleSys :=
  match s.card with
  | none => { s.log [.use none] with crashed := true }
  | some card =>
    let s := s.log (.use (some card) :: s.memBuf.toList.map fun b => .release (.block (some b)))
    let s := s.log [.release (.block (some card))]
    let s := if bound then fc1553PciRemove s else s
    s.log [.release (.chrdev fc1553Major fc1553Minor)]

/-- The state after the probe, if there is a device, and whether the driver is bound: the PCI core
takes a positive result for success. -/
def probed (major minor : ℕ) : Option ProbeEnv → Bool × ModuleSys
  | none => (false, loaded major minor)
  | some env =>
    let done := fc1553PciProbe env (loaded major minor)
    (decide (0 ≤ done.1), done.2)

/-- A run of the module, from loading to unloading. -/
def lifeCycle (major minor : ℕ) (probe : Option ProbeEnv) : ModuleSys :=
  let start := probed major minor probe
  if start.2.crashed then start.2 else fc1553Exit start.1 start.2

/-- The books of a run are in order. -/
structure LifeOk (major minor : ℕ) (probe : Option ProbeEnv) : Prop where
  /-- A failed probe leaves nothing behind. -/
  failed : ∀ env, probe = some env → (fc1553PciProbe env (loaded major minor)).1 ≠ 0 →
    books (fc1553PciProbe env (loaded major minor)).2.evs = some 0
  /-- No null pointer is used. -/
  alive : (lifeCycle major minor probe).crashed = false
  /-- Nothing is used after it was freed, and everything is released once. -/
  settled : books (lifeCycle major minor probe).evs = some 0

/-! ## Books -/

variable {major minor : ℕ} {s : ModuleSys} {env : ProbeEnv}

/-- What is acquired has to be released. -/
theorem release_mem {evs : List LifeEv} {r : Res} (hr : ∀ addr, r ≠ .block addr)
    (hbooks : books evs = some 0) (hacquire : LifeEv.acquire r ∈ evs) : LifeEv.release r ∈ evs := by
  have hbalance := settle_balance hbooks r
  rw [Multiset.count_zero, Nat.zero_add, Nat.zero_add] at hbalance
  have hopens : Entry.opens r ∈ evs.flatMap lifeEntries :=
    List.mem_flatMap.2 ⟨_, hacquire, List.mem_singleton.2 rfl⟩
  have hcloses : Entry.closes r ∈ evs.flatMap lifeEntries := by
    rw [← List.count_pos_iff, ← hbalance, List.count_pos_iff]
    exact hopens
  obtain ⟨ev, hev, hin⟩ := List.mem_flatMap.1 hcloses
  cases ev with
  | acquire r' =>
    simp [lifeEntries] at hin
  | release r' =>
    have heq : r = r' := by simpa [lifeEntries] using hin
    rw [heq]
    exact hev
  | use addr =>
    have heq : r = .block addr := by simpa [lifeEntries] using hin
    exact absurd heq (hr addr)

/-- The device has been enabled, and nothing disables it. -/
def Enabled (evs : List LifeEv) : Prop :=
  LifeEv.acquire .device ∈ evs ∧ LifeEv.release .device ∉ evs

theorem Enabled.append {evs : List LifeEv} (h : Enabled evs) (more : List LifeEv)
    (hmore : LifeEv.release .device ∉ more) : Enabled (evs ++ more) :=
  ⟨List.mem_append_left _ h.1, fun hin => (List.mem_append.1 hin).elim h.2 hmore⟩

theorem Enabled.books {evs : List LifeEv} (h : Enabled evs) : books evs ≠ some 0 := fun hbooks =>
  h.2 (release_mem (fun _ => Res.noConfusion) hbooks h.1)

/-! ## The probe -/

/-- The failures that leave nothing behind: those before a BAR is mapped. -/
def EarlyFailure (env : ProbeEnv) : Prop :=
  env.enable < 0 ∨ env.dmaData = none ∨ env.requestRegions < 0 ∨ env.setDmaMask < 0 ∨
    probeBars env.bars maxBars 0 = (false, [])

/-- The first part undone. -/
theorem books_undone (l : List Res) (b : ℕ) :
    books ([.acquire .device] ++ [.acquire (.block (some b))] ++ l.map .acquire ++
      (l.map .release ++ [.release (.block (some b)), .release .device])) = some 0 := by
  have hopens : (l.map LifeEv.acquire).flatMap lifeEntries = l.map Entry.opens := by
    rw [List.flatMap_map]
    exact List.map_eq_flatMap.symm
  have hcloses : (l.map LifeEv.release).flatMap lifeEntries = l.map Entry.closes := by
    rw [List.flatMap_map]
    exact List.map_eq_flatMap.symm
  have hend : settle (.block (some b) ::ₘ .device ::ₘ 0)
      [Entry.closes (Res.block (some b)), Entry.closes Res.device] = some 0 := by
    rw [settle_head, settle_head, settle]
  rw [books, List.flatMap_append, List.flatMap_append, List.flatMap_append, List.flatMap_append,
    hopens, hcloses]
  refine settle_append_eq (settle_opens l _) (settle_append_eq (settle_closes l _) hend)

/-- A mapping is never undone in the first part. -/
theorem bars_stay (va : ℕ) {evs : List LifeEv} (hin : LifeEv.acquire (.bar va) ∈ evs)
    (hout : LifeEv.release (.bar va) ∉ evs) : books evs ≠ some 0 := fun hbooks =>
  hout (release_mem (fun _ => Res.noConfusion) hbooks hin)

/-- Everything the first part of the probe can come to. -/
inductive PciOutcome (env : ProbeEnv) (s : ModuleSys) : Option ℤ × ModuleSys → Prop where
  /-- It fails before a BAR is mapped, and undoes what it has done. -/
  | undone (result : ℤ) (evs : List LifeEv) (hearly : EarlyFailure env)
    (hbooks : books evs = some 0) : PciOutcome env s (some result, s.log evs)
  /-- It fails with a BAR mapped, which stays. -/
  | left (result : ℤ) (evs : List LifeEv) (hlate : ¬ EarlyFailure env)
    (hbooks : books evs ≠ some 0) : PciOutcome env s (some result, s.log evs)
  /-- It uses a null pointer. -/
  | stopped (evs : List LifeEv) : PciOutcome env s (some 0, { s.log evs with crashed := true })
  /-- It goes on with the device enabled. -/
  | goesOn (evs : List LifeEv) (hlate : ¬ EarlyFailure env) (henabled : Enabled evs) :
    PciOutcome env s (none, { s.log evs with bar0 := (env.bars 0).vaddr })

theorem ModuleSys.log_log (s : ModuleSys) (evs evs' : List LifeEv) :
    (s.log evs).log evs' = s.log (evs ++ evs') := by
  rw [ModuleSys.log, ModuleSys.log, ModuleSys.log, List.append_assoc]

/-- **The first part of the probe.** -/
theorem probePci_outcome (env : ProbeEnv) (s : ModuleSys) : PciOutcome env s (probePci env s) := by
  unfold probePci
  by_cases henable : env.enable < 0
  · have hnothing := PciOutcome.undone (s := s) env.enable [] (Or.inl henable) rfl
    rw [ModuleSys.log, List.append_nil] at hnothing
    rwa [if_pos henable]
  rw [if_neg henable]
  cases hdata : env.dmaData with
  | none =>
    dsimp only
    rw [ModuleSys.log_log]
    exact .undone _ _ (Or.inr (Or.inl hdata)) (by decide)
  | some b =>
    dsimp only
    simp only [ModuleSys.log_log]
    by_cases hregions : env.requestRegions < 0
    · rw [if_pos hregions]
      exact .undone _ _ (Or.inr (Or.inr (Or.inl hregions))) (books_undone [] b)
    rw [if_neg hregions]
    by_cases hmask : env.setDmaMask < 0
    · rw [if_pos hmask]
      exact .undone _ _ (Or.inr (Or.inr (Or.inr (Or.inl hmask)))) (books_undone _ b)
    rw [if_neg hmask]
    -- From here on only the BARs decide.
    have hearly : EarlyFailure env ↔ probeBars env.bars maxBars 0 = (false, []) := by
      simp [EarlyFailure, henable, hdata, hregions, hmask]
    by_cases hbars : (probeBars env.bars maxBars 0).1 = false
    · rw [if_pos hbars]
      cases hmapped : (probeBars env.bars maxBars 0).2 with
      | nil =>
        rw [List.map_nil, List.append_nil]
        exact .undone _ _ (hearly.2 (Prod.ext hbars hmapped)) (books_undone _ b)
      | cons va rest =>
        refine .left _ _ (fun h => ?_) (bars_stay va (by simp) (by simp [barRegions]))
        rw [hearly.1 h] at hmapped
        cases hmapped
    rw [if_neg hbars]
    by_cases hnull : (env.bars 0).vaddr = none ∧ env.nullFaults = true
    · rw [if_pos hnull]
      exact .stopped _
    rw [if_neg hnull]
    refine .goesOn _ (fun h => hbars (by rw [hearly.1 h])) ⟨by simp, ?_⟩
    simp [barRegions]

theorem remove_enabled (h : Enabled s.evs) : Enabled (fc1553PciRemove s).evs := by
  unfold fc1553PciRemove
  cases s.card with
  | none => exact h.append _ (by simp)
  | some card => exact h.append _ (by simp)

theorem probeChrdev_enabled (h : Enabled s.evs) : Enabled (probeChrdev env s).2.evs := by
  unfold probeChrdev
  dsimp only
  have hmajor : Enabled (if s.major ≠ 0 then s else { s with major := env.dynamicMajor }).evs := by
    split_ifs <;> exact h
  generalize (if s.major ≠ 0 then s else { s with major := env.dynamicMajor }) = t at hmajor
  by_cases hchrdev : env.chrdev < 0
  · rw [if_pos hchrdev]
    exact hmajor
  rw [if_neg hchrdev]
  have hregion := hmajor.append [.acquire (.chrdev t.major t.minor)] (by simp)
  cases env.card with
  | none => exact hregion
  | some card =>
    have hcard := hregion.append [.acquire (.block (some card))] (by simp)
    cases env.memBuf with
    | none => exact hcard
    | some memBuf =>
      have hbuf := hcard.append [.acquire (.block (some memBuf))] (by simp)
      dsimp only
      split_ifs
      · exact remove_enabled hbuf
      · exact hbuf
      · exact hbuf.append _ (by simp)

/-- **After a probe** there is no card, or a device that is enabled. -/
theorem probe_card_or_enabled (env : ProbeEnv) (major minor : ℕ) :
    (fc1553PciProbe env (loaded major minor)).2.card = none ∨
      Enabled (fc1553PciProbe env (loaded major minor)).2.evs := by
  have hpci := probePci_outcome env (loaded major minor)
  unfold fc1553PciProbe
  generalize probePci env (loaded major minor) = part at hpci ⊢
  cases hpci with
  | undone => exact Or.inl rfl
  | left => exact Or.inl rfl
  | stopped => exact Or.inl rfl
  | goesOn evs hlate henabled => exact Or.inr (probeChrdev_enabled henabled)

/-- Without a card `fc1553_exit` uses a null pointer. -/
theorem exit_needs_card (bound : Bool) (hcard : s.card = none) :
    (fc1553Exit bound s).crashed = true := by
  rw [fc1553Exit, hcard]

theorem exit_enabled (bound : Bool) (h : Enabled s.evs) : Enabled (fc1553Exit bound s).evs := by
  unfold fc1553Exit
  cases s.card with
  | none => exact h.append _ (by simp)
  | some card =>
    have hfree : Enabled ((s.log (.use (some card) ::
        s.memBuf.toList.map fun b => .release (.block (some b)))).log
          [.release (.block (some card))]).evs := (h.append _ (by simp)).append _ (by simp)
    dsimp only
    refine Enabled.append ?_ _ (by simp)
    cases bound with
    | true => exact remove_enabled hfree
    | false => exact hfree

/-- **No run keeps its books.** Without a card the module cannot be unloaded, and with a card the
device is never disabled. -/
theorem life_never (major minor : ℕ) (probe : Option ProbeEnv) : ¬ LifeOk major minor probe := by
  rintro ⟨-, halive, hsettled⟩
  unfold lifeCycle at halive hsettled
  dsimp only at halive hsettled
  by_cases hcrash : (probed major minor probe).2.crashed = true
  · rw [if_pos hcrash, hcrash] at halive
    cases halive
  rw [if_neg hcrash] at halive hsettled
  have hafter : (probed major minor probe).2.card = none ∨
      Enabled (probed major minor probe).2.evs := by
    cases probe with
    | none => exact Or.inl rfl
    | some env => exact probe_card_or_enabled env major minor
  rcases hafter with hcard | henabled
  · rw [exit_needs_card _ hcard] at halive
    cases halive
  · exact (exit_enabled _ henabled).books hsettled

/-- A card with one BAR, on which every call succeeds. -/
def allGranted : ProbeEnv where
  enable := 0
  dmaData := some 1
  requestRegions := 0
  setDmaMask := 0
  bars := fun i => if i = 0 then ⟨4096, true, some 7⟩ else ⟨0, false, none⟩
  chrdev := 0
  dynamicMajor := 0
  card := some 2
  memBuf := some 3
  cdevAdd := 0
  nullFaults := true

/-- **Unloading after a success.** The card is freed and then used by `fc1553_pci_remove`; apart
from that, the device, the other resources of the first part and the character device stay behind.
-/
theorem uses_freed_card : books (lifeCycle 250 0 (some allGranted)).evs = none ∧
    (lifeCycle 250 0 (some allGranted)).evs = [.acquire .device, .acquire (.block (some 1)),
      .acquire (.region 0), .acquire (.bar 7), .acquire (.chrdev 250 0), .acquire (.block (some 2)),
      .acquire (.block (some 3)), .acquire .cdev, .use (some 2), .release (.block (some 3)),
      .release (.block (some 2)), .use (some 2), .release (.region 0), .use (some 2),
      .release (.bar 7), .release (.chrdev 250 0)] ∧
    ¬ LifeOk 250 0 (some allGranted) := by
  have hbooks : books (lifeCycle 250 0 (some allGranted)).evs = none := by decide +kernel
  refine ⟨hbooks, by decide +kernel, fun hok => ?_⟩
  rw [hok.settled] at hbooks
  cases hbooks

/-! ## Failed probes -/

/-- **A failed probe leaves nothing behind** exactly when it fails before a BAR is mapped. -/
theorem probe_clean_iff (env : ProbeEnv) (major minor : ℕ)
    (hfail : (fc1553PciProbe env (loaded major minor)).1 ≠ 0) :
    books (fc1553PciProbe env (loaded major minor)).2.evs = some 0 ↔ EarlyFailure env := by
  have hpci := probePci_outcome env (loaded major minor)
  unfold fc1553PciProbe at hfail ⊢
  generalize probePci env (loaded major minor) = part at hpci hfail ⊢
  cases hpci with
  | undone result evs hearly hbooks => exact iff_of_true hbooks hearly
  | left result evs hlate hbooks => exact iff_of_false hbooks hlate
  | stopped => exact absurd rfl hfail
  | goesOn evs hlate henabled => exact iff_of_false (probeChrdev_enabled henabled).books hlate

end Fc1553
