import MyDriver.Lib.Ledger
import MyDriver.Lib.Runs
import MyDriver.Rawdata.Pool
import MyDriver.Rawdata.TestMode
import MyDriver.Xdma.Registration

/-!
# The life of the raw data module: `rawdata_init`, `poll_routine`, `rawdata_cleanup`

Loading the module fills both buffer pools and starts the polling timer. The first time the timer
expires, both engines are registered; if one of them cannot be had the timer is not started again.
Unloading writes the configuration registers, gives the engines back and frees the pages.

`TXbarbase` is given to the driver by `myInit`, which `DmaRegister` calls. A module that is unloaded
before that writes to `TX_CONFIG_ADDRESS` itself, where nothing is mapped.

The history of a run is a ledger of pages and engines (`holdings`).

* `dmaRegister_answers` — `DmaRegister` refuses before it calls `myInit`, or returns a handle.
* `callRegister_spec` — what a call of `DmaRegister` adds to the ledger.
* `LoadInv.poll`, `LoadInv.cleanup` — one step.
* `rawdata_life` — **what the module has obtained is what it holds**; each engine is asked for once;
  the unloading goes well exactly when `myInit` was called for the transmit engine.
-/

namespace Dma

open Ledger Runs

/-! ## The module -/

/-- The engines of `xrawdata0`. -/
def engineTx : ℕ := 0
def engineRx : ℕ := 32

/-- The `privData` of the two engines. -/
def txPrivData : U32 := 0x54545454
def rxPrivData : U32 := 0x54545456

def statusAddress : U32 := 0x910C

/-- What the module obtains. -/
inductive RawRes where
  | page (va : U32)
  | engine (hndl : U32)
deriving DecidableEq

inductive LoadEv where
  | getPage (va : U32)
  | freePage (va : U32)
  /-- A call of `DmaRegister`; 0 for `NULL`. -/
  | register (engine : ℕ) (hndl : U32)
  /-- A call of `myInit`. -/
  | userInit (privData : U32)
  /-- A call of `DmaUnregister`. -/
  | unregister (hndl : U32)
  | out32 (addr : U32)
  | in32 (addr : U32)
deriving DecidableEq

def loadEntry : LoadEv → Option (Entry RawRes)
  | .getPage va => some (.opens (.page va))
  | .freePage va => some (.closes (.page va))
  | .register _ hndl => if hndl = 0 then none else some (.opens (.engine hndl))
  -- `DmaUnregister` refuses `NULL`.
  | .unregister hndl => if hndl = 0 then none else some (.closes (.engine hndl))
  | .userInit _ | .out32 _ | .in32 _ => none

/-- What is held after these events; `none` when something was given back that was not held. -/
def holdings (evs : List LoadEv) : Option (Multiset RawRes) := settle 0 (evs.filterMap loadEntry)

structure RawModule where
  driverState : RawState
  handle0 : U32
  handle2 : U32
  txBarbase : U32
  rxBarbase : U32
  txBufs : Buffer
  rxBufs : Buffer
  /-- `poll_timer` has been added. -/
  timer : Bool
  unloaded : Bool
  /-- A register was accessed at an address that is not mapped. -/
  crashed : Bool
  evs : List LoadEv

namespace RawModule

variable (s : RawModule)

def log (evs : List LoadEv) : RawModule := { s with evs := s.evs ++ evs }

/-- `XIo_Out32(TXbarbase + TX_CONFIG_ADDRESS, 0)`, and the same for `RX_CONFIG_ADDRESS`. -/
def stopTests : RawModule :=
  if s.txBarbase = 0 then { s with crashed := true }
  else s.log [.out32 (s.txBarbase + txConfigAddress), .out32 (s.txBarbase + rxConfigAddress)]

/-- `myInit` -/
def userInit (barbase privData : U32) : RawModule :=
  let s :=
    if privData = txPrivData then { s with txBarbase := barbase }
    else if privData = rxPrivData then { s with rxBarbase := barbase }
    else s
  (s.log [.userInit privData]).stopTests

end RawModule

/-- An address where something is mapped. -/
abbrev MappedAddr := {va : U32 // va ≠ 0}

/-- What `DmaRegister` does when it is called: the checks before `UserInit` fail, or all is well. -/
inductive RegAnswer where
  | refused
  | granted (hndl barbase : MappedAddr)
deriving DecidableEq

/-- There is no third answer: `Dma_BdRingStart` does not return `XST_FAILURE`, which is what
`DmaRegister` compares its result with. -/
theorem dmaRegister_answers {υ : Type} (driverState : DmaState) (bar : ℤ) (u : υ)
    (user : UserPtrs υ) (thBhIsr : Bool) (bus : ℕ → U32) (block : Option (U32 × U32))
    (e : DmaEngine υ) :
    dmaRegister driverState bar u user thBhIsr bus block e = (false, e, []) ∨
      (dmaRegister driverState bar u user thBhIsr bus block e).1 = true := by
  have hstart : ∀ c : Chan, (bdRingStart c).1 ≠ .failure := fun c => by
    unfold bdRingStart
    split_ifs <;> exact XStatus.noConfusion
  unfold dmaRegister
  split_ifs with hstate hbar hengine
  · exact Or.inl rfl
  · exact Or.inl rfl
  · exact Or.inl rfl
  · refine Or.inr ?_
    unfold registerLocked
    dsimp only
    rw [if_neg (hstart _)]
    split_ifs <;> rfl

/-- `origVA`, as far as it is filled. -/
def Buffer.allPages (b : Buffer) : List U32 := pages b.origVA b.totalNum

/-- `rawdata_init`. The arguments are what the calls of `__get_free_pages` return, and the static
variables `TxBufs` and `RxBufs`. -/
def rawdataInit (txPage rxPage : ℕ → U32) (txBufs rxBufs : Buffer) : RawModule where
  driverState := .initialized
  handle0 := 0
  handle2 := 0
  txBarbase := 0
  rxBarbase := 0
  txBufs := initPool txPage txBufs
  rxBufs := initPool rxPage rxBufs
  timer := true
  unloaded := false
  crashed := false
  evs := ((initPool txPage txBufs).allPages ++ (initPool rxPage rxBufs).allPages).map .getPage

/-- A call of `DmaRegister`, with the `UserInit` it makes. -/
def callRegister (engine : ℕ) (privData : U32) (answer : RegAnswer) (s : RawModule) :
    U32 × RawModule :=
  match answer with
  | .refused => (0, s.log [.register engine 0])
  | .granted hndl barbase => (hndl, (s.userInit barbase privData).log [.register engine hndl])

/-- `poll_routine`, but for the packets it sends. -/
def pollRoutine (tx rx : RegAnswer) (s : RawModule) : RawModule :=
  let s := { s with timer := false }
  match s.driverState with
  | .uninitialized | .initialized =>
    let got := callRegister engineTx txPrivData tx { s with driverState := .registered }
    let s := { got.2 with handle0 := got.1 }
    if s.handle0 = 0 then { s with driverState := .uninitialized }
    else
      let got := callRegister engineRx rxPrivData rx s
      let s := { got.2 with handle2 := got.1 }
      if s.handle2 = 0 then { s with driverState := .uninitialized }
      else { s with timer := true }
  | .registered => { s with timer := true }
  | .polling => s

/-- `rawdata_cleanup` -/
def rawdataCleanup (s : RawModule) : RawModule :=
  let s := { s with timer := false }.stopTests
  if s.crashed then s
  else
    { s.log ([.unregister s.handle0, .unregister s.handle2,
        -- `PrintSummary`
        .in32 (s.txBarbase + statusAddress)] ++
        (s.txBufs.allPages ++ s.rxBufs.allPages).map .freePage) with
      unloaded := true }

inductive LoadAct where
  /-- The timer expires. -/
  | poll (tx rx : RegAnswer)
  | cleanup
deriving DecidableEq

def loadStep (s : RawModule) (a : LoadAct) : Option RawModule :=
  if s.unloaded = true ∨ s.crashed = true then none
  else
    match a with
    | .poll tx rx => if s.timer = true then some (pollRoutine tx rx s) else none
    | .cleanup => some (rawdataCleanup s)

/-- The module is unloaded only after `myInit` was called for the transmit engine. -/
def UnloadsSetUp (s : RawModule) : LoadAct → Prop
  | .poll _ _ => True
  | .cleanup => .userInit txPrivData ∈ s.evs

/-! ## The books -/

/-- The handles that are not `NULL`. -/
def handlesOf (hndls : List U32) : List RawRes := (hndls.filter (· ≠ 0)).map .engine

namespace RawModule

/-- What the module holds. -/
def held (s : RawModule) : Multiset RawRes :=
  if s.unloaded = true then 0
  else ((s.txBufs.allPages ++ s.rxBufs.allPages).map RawRes.page : List RawRes) +
    (handlesOf [s.handle0, s.handle2] : List RawRes)

end RawModule

/-- How often an engine was asked for. -/
def askedOf (engine : ℕ) (evs : List LoadEv) : ℕ :=
  evs.countP fun
    | .register e _ => e = engine
    | _ => false

variable {s s' : RawModule}

theorem filterMap_pages (l : List U32) : (l.map LoadEv.getPage).filterMap loadEntry =
    (l.map RawRes.page).map Entry.opens ∧
      (l.map LoadEv.freePage).filterMap loadEntry = (l.map RawRes.page).map Entry.closes := by
  rw [List.filterMap_map, List.filterMap_map, List.map_map, List.map_map, ← List.filterMap_eq_map,
    ← List.filterMap_eq_map]
  exact ⟨rfl, rfl⟩

theorem handlesOf_cons (hndl : U32) (hndls : List U32) : handlesOf (hndl :: hndls) =
    if hndl = 0 then handlesOf hndls else .engine hndl :: handlesOf hndls := by
  unfold handlesOf
  split_ifs with h
  · rw [List.filter_cons_of_neg (by simpa using h)]
  · rw [List.filter_cons_of_pos (by simpa using h), List.map_cons]

theorem handlesOf_append (hndls hndls' : List U32) :
    handlesOf (hndls ++ hndls') = handlesOf hndls ++ handlesOf hndls' := by
  unfold handlesOf
  rw [List.filter_append, List.map_append]

/-- The engines are given back. -/
theorem filterMap_unregister (hndls : List U32) :
    (hndls.map LoadEv.unregister).filterMap loadEntry = (handlesOf hndls).map Entry.closes := by
  induction hndls with
  | nil => rfl
  | cons hndl hndls ih =>
    rw [List.map_cons, List.filterMap_cons, handlesOf_cons, ih, loadEntry]
    split_ifs <;> rfl

theorem askedOf_append (engine : ℕ) (evs evs' : List LoadEv) :
    askedOf engine (evs ++ evs') = askedOf engine evs + askedOf engine evs' :=
  List.countP_append

/-- `DmaRegister` and what it calls. -/
def LoadEv.Asks : LoadEv → Prop
  | .register _ _ | .userInit _ => True
  | .getPage _ | .freePage _ | .unregister _ | .out32 _ | .in32 _ => False

theorem not_asks {evs : List LoadEv} (h : ∀ ev ∈ evs, ¬ ev.Asks) :
    (∀ engine, askedOf engine evs = 0) ∧ LoadEv.userInit txPrivData ∉ evs := by
  refine ⟨fun engine => List.countP_eq_zero.2 fun ev hev => ?_, fun hev => h _ hev trivial⟩
  have hquiet := h ev hev
  cases ev <;> first | exact Bool.false_ne_true | exact absurd trivial hquiet

/-- What these events add to whatever is held. -/
def Obtains (new : List LoadEv) (got : Multiset RawRes) : Prop :=
  ∀ M, settle M (new.filterMap loadEntry) = some (got + M)

theorem Obtains.append {new new' : List LoadEv} {got got' : Multiset RawRes} (h : Obtains new got)
    (h' : Obtains new' got') : Obtains (new ++ new') (got + got') := fun M => by
  rw [List.filterMap_append, add_comm got got', add_assoc]
  exact settle_append_eq (h M) (h' (got + M))

theorem Obtains.holdings {evs new : List LoadEv} {M got : Multiset RawRes} (h : Obtains new got)
    (hevs : holdings evs = some M) : holdings (evs ++ new) = some (got + M) := by
  rw [Dma.holdings, List.filterMap_append]
  exact settle_append_eq hevs (h M)

/-! ## One step -/

theorem stopTests_eq (h : s.txBarbase ≠ 0) : s.stopTests =
    s.log [.out32 (s.txBarbase + txConfigAddress), .out32 (s.txBarbase + rxConfigAddress)] :=
  if_neg h

/-- `myInit`, when it leaves an address in `TXbarbase`. -/
theorem userInit_eq {barbase privData : U32} (hbar : barbase ≠ 0)
    (hpriv : privData = txPrivData ∨ privData = rxPrivData ∧ s.txBarbase ≠ 0) :
    ∃ tx rx, tx ≠ 0 ∧ s.userInit barbase privData = { s with
      txBarbase := tx
      rxBarbase := rx
      evs := s.evs ++ [.userInit privData, .out32 (tx + txConfigAddress),
        .out32 (tx + rxConfigAddress)] } := by
  rcases hpriv with rfl | ⟨rfl, htx⟩
  · refine ⟨barbase, s.rxBarbase, hbar, ?_⟩
    rw [RawModule.userInit, if_pos rfl, stopTests_eq hbar]
    simp only [RawModule.log, List.append_assoc, List.cons_append, List.nil_append]
  · have hset : ({ s with rxBarbase := barbase }.log [.userInit rxPrivData]).txBarbase ≠ 0 := htx
    refine ⟨s.txBarbase, barbase, htx, ?_⟩
    rw [RawModule.userInit, if_neg (by decide), if_pos rfl, stopTests_eq hset]
    simp only [RawModule.log, List.append_assoc, List.cons_append, List.nil_append]

/-- What a call of `DmaRegister` leaves: the module before, with an address in `TXbarbase` if
`UserInit` was called, and the events `new`. -/
structure RegisterCall (engine : ℕ) (privData : U32) (s : RawModule) (got : U32 × RawModule)
    (new : List LoadEv) : Prop where
  state : ∃ tx rx, got.2 = { s with txBarbase := tx, rxBarbase := rx, evs := s.evs ++ new }
  books : Obtains new (handlesOf [got.1] : List RawRes)
  asked : ∀ e, askedOf e new = if engine = e then 1 else 0
  base : got.2.txBarbase = 0 ↔ s.txBarbase = 0 ∧ LoadEv.userInit txPrivData ∉ new
  granted : got.1 ≠ 0 → got.2.txBarbase ≠ 0

theorem callRegister_spec (engine : ℕ) {privData : U32} (answer : RegAnswer)
    (hpriv : privData = txPrivData ∨ privData = rxPrivData ∧ s.txBarbase ≠ 0) :
    ∃ new, RegisterCall engine privData s (callRegister engine privData answer s) new := by
  have hasked : ∀ hndl e, askedOf e [.register engine hndl] = if engine = e then 1 else 0 :=
    fun hndl e => by by_cases he : engine = e <;> simp [askedOf, he]
  cases answer with
  | refused =>
    refine ⟨_, ⟨s.txBarbase, s.rxBarbase, rfl⟩, fun M => ?_, fun e => hasked 0 e, ?_,
      fun h => absurd rfl h⟩
    · exact congrArg some (zero_add M).symm
    · rw [and_iff_left (by simp)]
      rfl
  | granted hndl barbase =>
    obtain ⟨tx, rx, htx, huserInit⟩ := userInit_eq barbase.2 hpriv
    have hbooks : [LoadEv.register engine hndl].filterMap loadEntry =
        (handlesOf [hndl.1]).map Entry.opens := by
      rw [handlesOf_cons, if_neg hndl.2, List.filterMap_cons, loadEntry, if_neg hndl.2]
      rfl
    refine ⟨[.userInit privData, .out32 (tx + txConfigAddress), .out32 (tx + rxConfigAddress)] ++
      [.register engine hndl], ⟨tx, rx, ?_⟩, fun M => ?_, fun e => ?_, ?_, fun _ => ?_⟩
    · simp only [callRegister, huserInit, RawModule.log, List.append_assoc]
    · exact (congrArg (settle M) hbooks).trans (settle_opens _ M)
    · rw [askedOf_append, hasked]
      exact Nat.zero_add _
    · rw [callRegister, huserInit]
      refine iff_of_false htx fun hnone => ?_
      rcases hpriv with rfl | ⟨-, hset⟩
      · exact hnone.2 List.mem_cons_self
      · exact hset hnone.1
    · rw [callRegister, huserInit]
      exact htx

/-! ## Runs -/

/-- **The invariant.** -/
structure LoadInv (s : RawModule) : Prop where
  books : holdings s.evs = some s.held
  base : s.txBarbase = 0 ↔ LoadEv.userInit txPrivData ∉ s.evs
  ticking : s.timer = true → s.driverState = .initialized ∨ s.driverState = .registered
  fresh : s.driverState = .initialized →
    s.handle0 = 0 ∧ s.handle2 = 0 ∧ ∀ engine, askedOf engine s.evs = 0
  once : ∀ engine, askedOf engine s.evs ≤ 1

theorem rawdataInit_inv (txPage rxPage : ℕ → U32) (txBufs rxBufs : Buffer) :
    LoadInv (rawdataInit txPage rxPage txBufs rxBufs) := by
  have hquiet : ∀ ev ∈ (rawdataInit txPage rxPage txBufs rxBufs).evs, ¬ ev.Asks := fun ev hev => by
    obtain ⟨va, -, rfl⟩ := List.mem_map.1 hev
    exact id
  obtain ⟨hnone, huser⟩ := not_asks hquiet
  refine ⟨?_, iff_of_true rfl huser, fun _ => Or.inl rfl, fun _ => ⟨rfl, rfl, hnone⟩,
    fun engine => (hnone engine).trans_le (Nat.zero_le 1)⟩
  rw [holdings, rawdataInit, (filterMap_pages _).1, settle_opens]
  rfl

/-- The invariant after the registration: no engine was asked for before, and the events `new`
obtained the engines whose handles the module has now. -/
theorem LoadInv.obtained {t : RawModule} (h : LoadInv s) (hload : s.unloaded = false)
    (hstate : s.driverState = .initialized) {new : List LoadEv} (hevs : t.evs = s.evs ++ new)
    (hpools : t.txBufs = s.txBufs ∧ t.rxBufs = s.rxBufs) (htload : t.unloaded = false)
    (hbooks : Obtains new (handlesOf [t.handle0, t.handle2] : List RawRes))
    (hbase : t.txBarbase = 0 ↔ s.txBarbase = 0 ∧ LoadEv.userInit txPrivData ∉ new)
    (hasked : ∀ engine, askedOf engine new ≤ 1)
    (htick : t.timer = false ∧ t.driverState = .uninitialized ∨ t.driverState = .registered) :
    LoadInv t := by
  obtain ⟨h0, h2, hnone⟩ := h.fresh hstate
  refine ⟨?_, ?_, fun hon => ?_, fun hfresh => ?_, fun engine => ?_⟩
  · have hold := hbooks.holdings h.books
    rw [← hevs] at hold
    have hheld : s.held = ((t.txBufs.allPages ++ t.rxBufs.allPages).map RawRes.page :
        List RawRes) := by
      rw [RawModule.held, hload, if_neg Bool.false_ne_true, h0, h2, hpools.1, hpools.2]
      exact add_zero _
    rw [hold, hheld, RawModule.held, htload, if_neg Bool.false_ne_true]
    exact congrArg some (add_comm _ _)
  · rw [hbase, hevs, List.mem_append, not_or, h.base]
  · rcases htick with ⟨hoff, -⟩ | hreg
    · exact absurd hon (by simp [hoff])
    · exact Or.inr hreg
  · rcases htick with ⟨-, hun⟩ | hreg
    · rw [hun] at hfresh
      exact RawState.noConfusion hfresh
    · rw [hreg] at hfresh
      exact RawState.noConfusion hfresh
  · rw [hevs, askedOf_append, hnone, Nat.zero_add]
    exact hasked engine

/-- The first time the timer expires. -/
theorem LoadInv.first (h : LoadInv s) (hload : s.unloaded = false)
    (hstate : s.driverState = .initialized) (tx rx : RegAnswer) :
    LoadInv (pollRoutine tx rx s) ∧ (pollRoutine tx rx s).crashed = s.crashed := by
  obtain ⟨h0, h2, -⟩ := h.fresh hstate
  obtain ⟨new, hnew⟩ := callRegister_spec
    (s := { s with timer := false, driverState := .registered }) engineTx tx (Or.inl rfl)
  unfold pollRoutine
  simp only [hstate]
  rcases hgot : callRegister engineTx txPrivData tx _ with ⟨ret, t⟩
  rw [hgot] at hnew
  obtain ⟨tbar, rbar, ht⟩ := hnew.state
  dsimp only at ht ⊢
  by_cases hret : ret = 0
  · rw [if_pos hret, ht]
    refine ⟨h.obtained hload hstate rfl ⟨rfl, rfl⟩ hload ?_ ?_ ?_ (Or.inl ⟨rfl, rfl⟩), rfl⟩
    · have hbooks := hnew.books
      dsimp only at hbooks ⊢
      rw [h2]
      exact hbooks
    · exact ht ▸ hnew.base
    · exact fun e => (hnew.asked e).trans_le (by split_ifs <;> omega)
  · rw [if_neg hret]
    obtain ⟨new', hnew'⟩ := callRegister_spec (s := { t with handle0 := ret }) engineRx
      rx (Or.inr ⟨rfl, hnew.granted hret⟩)
    rcases hgot' : callRegister engineRx rxPrivData rx _ with ⟨ret', u⟩
    rw [hgot'] at hnew'
    obtain ⟨ubar, urbar, hu⟩ := hnew'.state
    rw [ht] at hu
    dsimp only at hu ⊢
    -- What both calls have obtained.
    have hbooks : Obtains (new ++ new') (handlesOf [ret, ret'] : List RawRes) := by
      have happ := hnew.books.append hnew'.books
      rw [Multiset.coe_add, ← handlesOf_append] at happ
      exact happ
    have hbase : u.txBarbase = 0 ↔
        s.txBarbase = 0 ∧ LoadEv.userInit txPrivData ∉ new ++ new' := by
      rw [List.mem_append, not_or, ← and_assoc]
      exact hnew'.base.trans (and_congr_left fun _ => hnew.base)
    have hasked : ∀ e, askedOf e (new ++ new') ≤ 1 := fun e => by
      rw [askedOf_append, hnew.asked, hnew'.asked]
      by_cases he : engineTx = e
      · rw [if_pos he, if_neg (he ▸ by decide)]
      · rw [if_neg he]
        split_ifs <;> omega
    subst hu
    have hevs : s.evs ++ new ++ new' = s.evs ++ (new ++ new') := List.append_assoc _ _ _
    by_cases hret' : ret' = 0
    · rw [if_pos hret']
      exact ⟨h.obtained hload hstate hevs ⟨rfl, rfl⟩ hload hbooks hbase hasked
        (Or.inl ⟨rfl, rfl⟩), rfl⟩
    · rw [if_neg hret']
      exact ⟨h.obtained hload hstate hevs ⟨rfl, rfl⟩ hload hbooks hbase hasked (Or.inr rfl), rfl⟩

/-- The timer expires. -/
theorem LoadInv.poll (h : LoadInv s) (hload : s.unloaded = false) (htimer : s.timer = true)
    (tx rx : RegAnswer) :
    LoadInv (pollRoutine tx rx s) ∧ (pollRoutine tx rx s).crashed = s.crashed := by
  rcases h.ticking htimer with hstate | hstate
  · exact h.first hload hstate tx rx
  · have hsame : pollRoutine tx rx s = s := by
      unfold pollRoutine
      simp only [hstate]
      rw [← htimer, ← hstate]
    rw [hsame]
    exact ⟨h, rfl⟩

/-- The module is unloaded. -/
theorem LoadInv.cleanup (h : LoadInv s) (hload : s.unloaded = false) (hup : s.crashed = false) :
    LoadInv (rawdataCleanup s) ∧
      ((rawdataCleanup s).crashed = false ↔ LoadEv.userInit txPrivData ∈ s.evs) := by
  unfold rawdataCleanup
  by_cases hbase : s.txBarbase = 0
  · have hstop : { s with timer := false }.stopTests = { s with timer := false, crashed := true } :=
      if_pos hbase
    rw [hstop]
    exact ⟨⟨h.books, h.base, fun hon => absurd hon Bool.false_ne_true, h.fresh, h.once⟩,
      iff_of_false (fun hup' => absurd hup'.symm Bool.false_ne_true) (h.base.1 hbase)⟩
  · have hset : { s with timer := false }.txBarbase ≠ 0 := hbase
    dsimp only
    rw [stopTests_eq hset, if_neg (by simpa [RawModule.log] using hup)]
    -- Nothing but what follows is added to the history.
    obtain ⟨new, hnew⟩ : ∃ new : List LoadEv, new = [.out32 (s.txBarbase + txConfigAddress),
        .out32 (s.txBarbase + rxConfigAddress)] ++ ([s.handle0, s.handle2].map .unregister ++
          [.in32 (s.txBarbase + statusAddress)] ++
          (s.txBufs.allPages ++ s.rxBufs.allPages).map .freePage) := ⟨_, rfl⟩
    have hquiet : ∀ ev ∈ new, ¬ ev.Asks := fun ev hev => by
      rw [hnew] at hev
      simp only [List.mem_append, List.mem_cons, List.mem_map, List.not_mem_nil, or_false] at hev
      rcases hev with (rfl | rfl) | (⟨_, -, rfl⟩ | rfl) | ⟨_, -, rfl⟩ <;> exact id
    obtain ⟨hnone, huser⟩ := not_asks hquiet
    have hclosed : holdings (s.evs ++ new) = some 0 := by
      have hbooks := h.books
      rw [RawModule.held, hload, if_neg Bool.false_ne_true, add_comm, ← add_zero (_ + _),
        add_assoc] at hbooks
      rw [holdings, List.filterMap_append, hnew]
      refine settle_append_eq hbooks ?_
      rw [List.filterMap_append, List.filterMap_append, List.filterMap_append,
        filterMap_unregister, (filterMap_pages _).2]
      have hread : [LoadEv.in32 (s.txBarbase + statusAddress)].filterMap loadEntry = [] := rfl
      rw [hread, List.append_nil]
      exact settle_append_eq rfl (settle_append_eq (settle_closes _ _) (settle_closes _ _))
    have hevs : ({ s with timer := false }.log [.out32 (s.txBarbase + txConfigAddress),
        .out32 (s.txBarbase + rxConfigAddress)]).evs ++ ([.unregister s.handle0,
          .unregister s.handle2, .in32 (s.txBarbase + statusAddress)] ++
          (s.txBufs.allPages ++ s.rxBufs.allPages).map .freePage) = s.evs ++ new := by
      rw [hnew]
      exact List.append_assoc _ _ _
    have hasked : ∀ engine, askedOf engine (s.evs ++ new) = askedOf engine s.evs := fun engine => by
      rw [askedOf_append, hnone, Nat.add_zero]
    refine ⟨⟨?_, ?_, fun hon => absurd hon Bool.false_ne_true, fun hfresh => ?_, fun engine => ?_⟩,
      iff_of_true hup (not_not.1 (mt h.base.2 hbase))⟩
    · dsimp only [RawModule.log] at hevs ⊢
      rw [hevs, hclosed]
      rfl
    · dsimp only [RawModule.log] at hevs ⊢
      rw [hevs, List.mem_append, or_iff_left huser, h.base]
    · obtain ⟨h0, h2, hnone'⟩ := h.fresh hfresh
      refine ⟨h0, h2, fun engine => ?_⟩
      dsimp only [RawModule.log] at hevs ⊢
      rw [hevs, hasked, hnone']
    · dsimp only [RawModule.log] at hevs ⊢
      rw [hevs, hasked]
      exact h.once engine

theorem loadStep_inv {a : LoadAct} (h : LoadInv s) (hstep : loadStep s a = some s') :
    LoadInv s' ∧ (s'.crashed = false ↔ UnloadsSetUp s a) := by
  unfold loadStep at hstep
  by_cases hgone : s.unloaded = true ∨ s.crashed = true
  · rw [if_pos hgone] at hstep
    cases hstep
  rw [if_neg hgone] at hstep
  rw [not_or, Bool.not_eq_true, Bool.not_eq_true] at hgone
  cases a with
  | poll tx rx =>
    dsimp only at hstep
    split_ifs at hstep with htimer
    cases hstep
    obtain ⟨hinv, hsame⟩ := h.poll hgone.1 htimer tx rx
    exact ⟨hinv, iff_of_true (hsame.trans hgone.2) trivial⟩
  | cleanup =>
    cases hstep
    exact h.cleanup hgone.1 hgone.2

/-- **The life of the module.** What has been obtained and not given back is what the module holds;
nothing is given back that was not held; each engine is asked for once at most; and the unloading
goes well exactly when `myInit` was called for the transmit engine before. -/
theorem rawdata_life {txPage rxPage : ℕ → U32} {txBufs rxBufs : Buffer} {acts : List LoadAct}
    (hrun : run loadStep (rawdataInit txPage rxPage txBufs rxBufs) acts = some s) :
    holdings s.evs = some s.held ∧ (∀ engine, askedOf engine s.evs ≤ 1) ∧
      (s.crashed = false ↔
        Along loadStep UnloadsSetUp (rawdataInit txPage rxPage txBufs rxBufs) acts) := by
  have hinit := rawdataInit_inv txPage rxPage txBufs rxBufs
  have hinv := run_inv' (fun t a t' ht hstep => (loadStep_inv ht hstep).1) hinit hrun
  refine ⟨hinv.books, hinv.once, ?_⟩
  have hexact := throughout_iff_along (p := UnloadsSetUp)
    (I := fun t => LoadInv t ∧ t.crashed = false)
    (fun t a t' ht hstep => (and_iff_right (loadStep_inv ht.1 hstep).1).trans
      (loadStep_inv ht.1 hstep).2) ⟨hinit, rfl⟩ hrun
  refine Iff.trans ⟨fun hup bs cs t hacts ht => ?_, fun h => ?_⟩ hexact
  · refine ⟨run_inv' (fun t a t' ht hstep => (loadStep_inv ht hstep).1) hinit ht, ?_⟩
    rw [hacts, run_append, ht] at hrun
    cases cs with
    | nil =>
      cases hrun
      exact hup
    | cons c cs =>
      -- Nothing happens after an access where nothing is mapped.
      obtain ⟨u, hu, -⟩ := run_cons_eq_some.1 hrun
      unfold loadStep at hu
      by_contra hdown
      rw [if_pos (Or.inr (eq_true_of_ne_false hdown))] at hu
      cases hu
  · exact (h acts [] s (List.append_nil acts).symm hrun).2

/-- Two pages, at most, can be had. -/
def pagePair (i : ℕ) : U32 := if i < 2 then 0x1000 + 0x1000 * BitVec.ofNat 32 i else 0

/-- The receive engine is refused, the timer is not started again, and the module is unloaded. -/
def halfRegistered : List LoadAct :=
  [.poll (.granted ⟨0xA000, by decide⟩ ⟨0x90000, by decide⟩) .refused, .cleanup]

theorem rawdata_life_halfRegistered : ∃ s, run loadStep
    (rawdataInit pagePair 0 (initBuffers 0 0) (initBuffers 0 0)) halfRegistered = some s ∧
      s.unloaded = true ∧ s.txBufs.totalNum = 2 ∧ .unregister 0xA000 ∈ s.evs ∧
      holdings s.evs = some 0 ∧ s.crashed = false := by
  obtain ⟨s, hrun, hend⟩ : ∃ s, run loadStep
      (rawdataInit pagePair 0 (initBuffers 0 0) (initBuffers 0 0)) halfRegistered = some s ∧
        s.unloaded = true ∧ s.txBufs.totalNum = 2 ∧ .unregister 0xA000 ∈ s.evs ∧
        s.crashed = false :=
    ⟨_, rfl, rfl, by decide +kernel, by decide +kernel, rfl⟩
  have hlife := (rawdata_life hrun).1
  rw [RawModule.held, if_pos hend.1] at hlife
  exact ⟨s, hrun, hend.1, hend.2.1, hend.2.2.1, hlife, hend.2.2.2⟩

end Dma
