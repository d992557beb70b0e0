import MyDriver.Xdma.Confined
import MyDriver.Xdma.Mapping

/-!
# Several engines

The driver runs up to `MAX_DMA_ENGINES` engines over one memory, and the user drivers share their
state. The lock-protected sections of all of them, and the writes of all the engines, come in any
order.

* `sectionStep`, `enginesStep` — a section of one of them, or a write of its engine.
* `engineComponent` — an engine reads and writes in its own ring only.
* `Sends` — the packets that a run may give to `DmaSendPkt`: with others it rolls back from a BD
  that need not be in the ring.
* `engines_apart` — **no engine sees the others**: each goes through the states it would go through
  alone with its user driver, and memory that belongs to no ring is never written.
-/

namespace Dma

open Cyclic Footprint Runs Words

variable {υ : Type}

/-! ## The system -/

/-- What the driver keeps for an engine: the ring, the registers, the interrupt counter and the
calls that have been made. -/
structure Engine where
  ring : BdRing
  regs : Regs
  intrCount : U32
  evs : List Ev

/-- The engine alone, with the user driver in the state `u`. -/
def Engine.sys (e : Engine) (u : υ) (m : Mem) : MapSys υ where
  dev :=
    { chan := { ring := e.ring, mem := m, regs := e.regs }
      intrCount := e.intrCount
      user := u }
  evs := e.evs

def MapSys.split (s : MapSys υ) : Engine × υ × Mem :=
  ({ ring := s.dev.chan.ring, regs := s.dev.chan.regs, intrCount := s.dev.intrCount, evs := s.evs },
    s.dev.user, s.dev.chan.mem)

/-- A section of the driver, or a write of the engine. -/
def sectionStep (user : UserPtrs υ) (thBhIsr : Bool) (e : Engine) (u : υ) (m : Mem) (a : MapAct υ) :
    Option (Engine × υ × Mem) :=
  (mapStep user thBhIsr (e.sys u m) a).map MapSys.split

abbrev Engines (ι υ : Type) := System ι Engine υ U32 U32

variable {ι : Type} [DecidableEq ι]

def enginesStep (users : ι → UserPtrs υ) (thBhIsr : Bool) :
    Engines ι υ → ι × MapAct υ → Option (Engines ι υ) :=
  Footprint.step fun i => sectionStep (users i) thBhIsr

/-- What an engine sees of a run: its own steps, and that the state of its user driver changes. -/
def enginesSeen (users : ι → UserPtrs υ) (thBhIsr : Bool) (i : ι) (s : Engines ι υ)
    (acts : List (ι × MapAct υ)) : List (MapAct υ) :=
  (seen (fun i => sectionStep (users i) thBhIsr) i s acts).map (Sum.elim id MapAct.user)

/-- The fragments that `DmaSendPkt` has to hold back begin where it looks for them. -/
def Sends (e : Engine) : MapAct υ → Prop
  | .send _ pkts =>
    e.ring.isRxChannel = false → Anchored (pkts.take (e.ring.freeCnt.toNat - 2))
  | _ => True

/-! ## One of them -/

variable {user : UserPtrs υ} {thBhIsr : Bool} {r : BdRing} {e : Engine} {u : υ} {a : MapAct υ}

/-- The bytes of the BDs. -/
def ringBytes (r : BdRing) : Set U32 := {a | ∃ x, Inside (bdAt r x) a}

/-- The engine has a ring where `r` lies, and nothing is held back. -/
structure OnBlock (r : BdRing) (e : Engine) : Prop where
  settled : ∃ g, ∀ m, Settled { ring := e.ring, mem := m, regs := e.regs } g
  block : e.ring.block = r.block
  size : e.ring.allCnt.toNat ≤ dmaBdCnt.toNat + 1

/-- `Settled` looks at the ring alone. -/
theorem Settled.ofRing {c c' : Chan} {g : Split} (h : Settled c g) (hr : c'.ring = c.ring) :
    Settled c' g := ⟨by rw [hr]; exact h.parts, h.post, h.pre, h.room⟩

theorem lies_ringBytes (r : BdRing) (x : ℕ) : Lies (ringBytes r) (bdAt r x) := fun off hoff => by
  refine ⟨x, ?_⟩
  rw [Inside, BitVec.add_comm, BitVec.add_sub_cancel]
  exact hoff

theorem OnBlock.covers (h : OnBlock r e) : Covers (ringBytes r) e.ring := by
  obtain ⟨g, hs⟩ := h.settled
  refine ⟨(hs 0).parts.laid, ?_⟩
  rw [bdAt_congr h.block]
  exact lies_ringBytes r

theorem OnBlock.next (h : OnBlock r e) {t : MapSys υ} {g : Split} (hs : Settled t.dev.chan g)
    (hb : t.dev.chan.ring.block = e.ring.block) : OnBlock r t.split.1 := by
  refine ⟨⟨g, fun m => hs.ofRing rfl⟩, hb.trans h.block, ?_⟩
  have hcnt : t.dev.chan.ring.block.allCnt = e.ring.block.allCnt := by rw [hb]
  exact (congrArg BitVec.toNat hcnt).trans_le h.size

/-- **What a section keeps.** -/
theorem mapStep_onBlock (h : OnBlock r e) (hok : Sends e a) {m : Mem} {t : MapSys υ}
    (hstep : mapStep user thBhIsr (e.sys u m) a = some t) : OnBlock r t.split.1 := by
  obtain ⟨g, hall⟩ := h.settled
  have hs : Settled (e.sys u m).dev.chan g := hall m
  cases a with
  | send bus pkts =>
    rw [mapStep, Option.some.injEq] at hstep
    subst hstep
    cases hrx : e.ring.isRxChannel with
    | true =>
      have hnothing := dmaSendPkt_rx (c := (e.sys u m).dev.chan) hrx thBhIsr bus pkts e.intrCount
      refine h.next (g := g) ?_ ?_
      · exact (congrArg (fun done => Settled done.2.1 g) hnothing).mpr hs
      · exact congrArg (fun done => done.2.1.ring.block) hnothing
    | false =>
      have hanch := hok hrx
      rw [show e.ring.freeCnt.toNat = g.free from hs.parts.freeCnt] at hanch
      obtain ⟨n, c', ic, hn, heq, -, hs', hbase, -⟩ :=
        hs.sendPkt hrx thBhIsr bus pkts e.intrCount hanch
      refine h.next (g := g.queue n hn) ?_ ?_
      · exact (congrArg (fun done => Settled done.2.1 (g.queue n hn)) heq).mpr hs'
      · exact (congrArg (fun done => done.2.1.ring.block) heq).trans (block_of_base hbase)
  | retrieve =>
    rw [mapStep, Option.some.injEq] at hstep
    subst hstep
    obtain ⟨k, pkts, c', evs, hk, heq, hs', hbase, -⟩ := hs.retrieve fun _ => m
    refine h.next (g := g.retire k hk) ?_ ?_
    · exact (congrArg (fun done => Settled done.2.1 (g.retire k hk)) heq).mpr hs'
    · exact (congrArg (fun done => done.2.1.ring.block) heq).trans (block_of_base hbase)
  | refill bus =>
    rw [mapStep, Option.some.injEq] at hstep
    subst hstep
    obtain ⟨g', hs', hbase, -⟩ :=
      Settled.refill_fresh (d := (e.sys u m).dev) hs user thBhIsr bus
    exact h.next hs' (block_of_base hbase)
  | free =>
    rw [mapStep, Option.some.injEq] at hstep
    subst hstep
    obtain ⟨g', hs', hb, -⟩ := hs.free_moves (by rw [← hs.parts.size]; exact h.size)
    exact h.next hs' hb
  | user u' =>
    rw [mapStep, Option.some.injEq] at hstep
    subst hstep
    exact h.next hs rfl
  | engine i status usrl usrh =>
    rw [mapStep, Option.some.injEq] at hstep
    subst hstep
    exact h.next (hs.engineWrite i status usrl usrh).1 rfl

noncomputable def MapSys.patch (S : Set U32) (m₀ : Mem) (s : MapSys υ) : MapSys υ :=
  { s with dev := s.dev.patch S m₀ }

/-- **A section stays in its ring.** -/
theorem mapStep_patch {S : Set U32} {s : MapSys υ} {g : Split} (hs : Settled s.dev.chan g)
    (hcov : Covers S s.dev.chan.ring) (hok : Sends s.split.1 a) (m₀ : Mem) :
    mapStep user thBhIsr (s.patch S m₀) a = (mapStep user thBhIsr s a).map (MapSys.patch S m₀) := by
  unfold mapStep MapSys.patch Dev.patch
  cases a with
  | send bus pkts =>
    dsimp only
    rw [dmaSendPkt_patch m₀ hcov hs.parts thBhIsr bus pkts _ hok]
    rfl
  | retrieve =>
    dsimp only
    have hretrieve := pktHandlerRetrieve_patch m₀ hcov hs.parts fun _ => s.dev.chan.mem
    rw [show (s.dev.chan.patch S m₀).mem = patch S m₀ s.dev.chan.mem from rfl, hretrieve]
    rfl
  | refill bus =>
    have hrefill := pktHandlerRefill_patch m₀ hcov hs.parts hs.pre user thBhIsr bus
    dsimp only [Dev.patch] at hrefill ⊢
    rw [hrefill]
    rfl
  | free =>
    obtain ⟨hb, hbds⟩ := descriptorFreeForce_bds hs.parts
    dsimp only
    rw [descriptorFreeForce_patch m₀ hcov hs.parts]
    dsimp only
    rw [descriptorFreeBds_patch m₀ (hcov.congr hb) hbds]
    rfl
  | user u' => rfl
  | engine i status usrl usrh =>
    dsimp only
    rw [engineWrite_patch m₀ hcov]
    rfl

/-- The engine that has a ring where `r` lies. -/
def engineComponent (user : UserPtrs υ) (thBhIsr : Bool) (r : BdRing) :
    Component Engine υ (MapAct υ) U32 U32 where
  step := sectionStep user thBhIsr
  foot := ringBytes r
  inv := OnBlock r
  ok := Sends
  keeps h hok hstep := by
    obtain ⟨t, ht, rfl⟩ := Option.map_eq_some_iff.1 hstep
    exact mapStep_onBlock h hok ht
  confined {e a} h hok u m₀ m := by
    obtain ⟨g, hall⟩ := h.settled
    have hs : Settled (e.sys u m).dev.chan g := hall m
    have hpatch : mapStep user thBhIsr ((e.sys u m).patch (ringBytes r) m₀) a =
      (mapStep user thBhIsr (e.sys u m) a).map (MapSys.patch (ringBytes r) m₀) :=
        mapStep_patch hs h.covers hok m₀
    rw [sectionStep, sectionStep, Option.map_map]
    exact (congrArg (Option.map MapSys.split) hpatch).trans (Option.map_map _ _ _)

/-- Its runs are those of the engine alone. -/
theorem run_engineComponent (r : BdRing) (e : Engine) (u : υ) (m : Mem)
    (l : List (MapAct υ ⊕ υ)) :
    run (engineComponent user thBhIsr r).alone (e, u, m) l =
      (run (mapStep user thBhIsr) (e.sys u m) (l.map (Sum.elim id MapAct.user))).map
        MapSys.split := by
  induction l generalizing e u m with
  | nil => rfl
  | cons b l ih =>
    cases b with
    | inl a =>
      rw [List.map_cons, run_cons, run_cons, Option.map_bind]
      show ((mapStep user thBhIsr (e.sys u m) a).map MapSys.split).bind _ = _
      rw [Option.bind_map]
      congr 1
      funext t
      exact ih _ _ _
    | inr u' => exact ih e u' m

/-! ## All of them -/

theorem disjoint_ringBytes {r r' : BdRing} (h : ∀ x y, Apart 64 (bdAt r x) (bdAt r' y)) :
    Disjoint (ringBytes r) (ringBytes r') := by
  rw [Set.disjoint_left]
  rintro a ⟨x, hx⟩ ⟨y, hy⟩
  refine (h x y).add_ne hx hy ?_
  rw [BitVec.add_comm, BitVec.sub_add_cancel, BitVec.add_comm, BitVec.sub_add_cancel]

/-- The ring has been started, and `DMA_BD_CNT` is enough for it. -/
def RingStarted (r : BdRing) : Prop :=
  (∃ isRx c, Started isRx c ∧ c.ring = r) ∧ r.allCnt.toNat ≤ dmaBdCnt.toNat + 1

theorem RingStarted.onBlock (h : RingStarted e.ring) : OnBlock e.ring e := by
  obtain ⟨⟨isRx, c, hc, hring⟩, hsize⟩ := h
  obtain ⟨g, hs, -⟩ := hc.settled
  exact ⟨⟨g, fun m => hs.ofRing hring.symm⟩, rfl, hsize⟩

/-- **No engine sees the others.** The sections of any number of engines, whose rings do not
overlap, and the writes of the engines come in any order. If the packets are such that `DmaSendPkt`
finds what it holds back, each engine is left as it would be alone, its BDs hold what they would
hold, and the memory around the rings is untouched. -/
theorem engines_apart (users : ι → UserPtrs υ) (thBhIsr : Bool) (start s : Engines ι υ)
    (hstart : ∀ i, RingStarted (start.parts i).ring)
    (hapart : ∀ i j, i ≠ j → ∀ x y,
      Apart 64 (bdAt (start.parts i).ring x) (bdAt (start.parts j).ring y))
    (acts : List (ι × MapAct υ))
    (hok : Along (enginesStep users thBhIsr) (fun s x => Sends (s.parts x.1) x.2) start acts)
    (hrun : run (enginesStep users thBhIsr) start acts = some s) :
    (∀ i, ∃ m, run (mapStep (users i) thBhIsr) ((start.parts i).sys start.common start.mem)
        (enginesSeen users thBhIsr i start acts) = some ((s.parts i).sys s.common m) ∧
      ∀ x, bdWords s.mem (bdAt (start.parts i).ring x) =
        bdWords m (bdAt (start.parts i).ring x)) ∧
    ∀ a, (∀ i x, ¬ Inside (bdAt (start.parts i).ring x) a) → s.mem a = start.mem a := by
  set cs : ι → Component Engine υ (MapAct υ) U32 U32 := fun i =>
    engineComponent (users i) thBhIsr (start.parts i).ring with hcs
  have hinv : ∀ i, (cs i).inv (start.parts i) := fun i => (hstart i).onBlock
  have hdisj : Pairwise fun i j => Disjoint (cs i).foot (cs j).foot := fun i j hij =>
    disjoint_ringBytes (hapart i j hij)
  refine ⟨fun i => ?_, fun a ha => ?_⟩
  · obtain ⟨m, halone, hm⟩ := run_alone hdisj hinv hok hrun i (Set.eqOn_refl start.mem _)
    rw [run_engineComponent] at halone
    obtain ⟨t, ht, hsplit⟩ := Option.map_eq_some_iff.1 halone
    have hjoin : t = (s.parts i).sys s.common m :=
      congrArg (fun x : Engine × υ × Mem => x.1.sys x.2.1 x.2.2) hsplit
    refine ⟨m, hjoin ▸ ht, fun x => ?_⟩
    ext1 <;> exact (hm (lies_ringBytes _ x _ (by decide))).symm
  · exact run_outside hinv hok hrun fun i ⟨x, hx⟩ => ha i x hx

/-- The raw data driver as the user of the transmit engine; that asks for no packets. -/
def txUser (hndl : U32) : UserPtrs RawData where
  getPkt raw _ := ([], raw)
  putPkt raw pkts := myPutTxPkt hndl raw pkts
  getPkt_le _ _ := Nat.zero_le _

/-- A ring for transmission, and behind it in the same memory one for reception. -/
def txRing : Chan :=
  (bdRingStart (bdRingCreate (initializedChan false fun _ => 0) 0 0x2000 64 5).2).2

def rxRing : Chan :=
  (bdRingStart (bdRingCreate (initializedChan true txRing.mem) 0 0x4000 64 5).2).2

def bothRings : Engines Bool RawData where
  parts b := if b then ⟨rxRing.ring, rxRing.regs, 0, []⟩ else ⟨txRing.ring, txRing.regs, 0, []⟩
  common := twoPages.user
  mem := rxRing.mem

def bothUsers (b : Bool) : UserPtrs RawData := if b then rxUser 9 else txUser 7

/-- A packet goes out while a page is filled. -/
def bothWays : List (Bool × MapAct RawData) :=
  [(true, .refill fun i => BitVec.ofNat 32 (0x50000 + 0x1000 * i)),
    (false, .send (fun _ => 0x90000)
      [⟨0x9000, 0x9000, 100, bdSopMask ||| bdEopMask ||| pktAll, 0⟩]),
    (true, .engine 0 0x4D000064 0 0), (false, .engine 0 0x01000064 0 0), (true, .retrieve),
    (false, .retrieve)]

theorem engines_apart_bothWays : ∃ s,
    run (enginesStep bothUsers false) bothRings bothWays = some s ∧
    (∀ i, ∃ m, run (mapStep (bothUsers i) false)
        ((bothRings.parts i).sys bothRings.common bothRings.mem)
        (enginesSeen bothUsers false i bothRings bothWays) = some ((s.parts i).sys s.common m) ∧
      ∀ x, bdWords s.mem (bdAt (bothRings.parts i).ring x) =
        bdWords m (bdAt (bothRings.parts i).ring x)) ∧
    ∀ a, (∀ i x, ¬ Inside (bdAt (bothRings.parts i).ring x) a) → s.mem a = bothRings.mem a := by
  have hstart : ∀ i, RingStarted (bothRings.parts i).ring := fun i => by
    cases i with
    | false =>
      exact ⟨⟨false, txRing, ⟨initializedChan false fun _ => 0, 0, 0x2000, 64, 5, rfl, by decide,
        by decide, rfl⟩, rfl⟩, by decide⟩
    | true =>
      exact ⟨⟨true, rxRing, ⟨initializedChan true txRing.mem, 0, 0x4000, 64, 5, rfl, by decide,
        by decide, rfl⟩, rfl⟩, by decide⟩
  have hplaces : ∀ i < 5, ∀ j < 5, Apart 64 (0x2000 + 64 * BitVec.ofNat 32 i : U32)
      (0x4000 + 64 * BitVec.ofNat 32 j) := by
    unfold Apart
    decide
  have hboth : ∀ x y, Apart 64 (bdAt txRing.ring x) (bdAt rxRing.ring y) := fun x y =>
    hplaces _ (Nat.mod_lt _ (by decide)) _ (Nat.mod_lt _ (by decide))
  have hapart : ∀ i j, i ≠ j → ∀ x y,
      Apart 64 (bdAt (bothRings.parts i).ring x) (bdAt (bothRings.parts j).ring y) := by
    intro i j hij x y
    cases i <;> cases j
    · exact absurd rfl hij
    · exact hboth x y
    · exact (hboth y x).symm
    · exact absurd rfl hij
  have hanch : Anchored [⟨0x9000, 0x9000, 100, bdSopMask ||| bdEopMask ||| pktAll, 0⟩] :=
    fun p ps hopen => by cases hopen
  have hok : Along (enginesStep bothUsers false) (fun s x => Sends (s.parts x.1) x.2) bothRings
      bothWays := by
    refine (along_cons_of_step rfl).2 ⟨trivial, ?_⟩
    refine (along_cons_of_step rfl).2 ⟨fun _ => hanch, ?_⟩
    refine (along_cons_of_step rfl).2 ⟨trivial, ?_⟩
    refine (along_cons_of_step rfl).2 ⟨trivial, ?_⟩
    refine (along_cons_of_step rfl).2 ⟨trivial, ?_⟩
    exact (along_cons_of_step rfl).2 ⟨trivial, trivial⟩
  exact ⟨_, rfl, engines_apart bothUsers false bothRings _ hstart hapart bothWays hok rfl⟩

end Dma
