import MyDriver.Lib.Ledger
import MyDriver.Rawdata.Sguser
import MyDriver.Xdma.Settled

/-!
# Mappings of buffers

A buffer is mapped when it gets a BD and must be unmapped with the same bus address, length and
direction. The driver keeps no record of its mappings: it reads address and length back from the
BD. `MapSys` runs the sections that map and unmap, with the list of their calls, over any
completions; what is mapped at any time should be exactly the buffers of the Hardware group
(`heldMappings`).

* `Moves` — a section accounts for its mappings. Each section has one lemma here.
* `short_packet` — `PktHandler` unmaps the length that was received, not the length it had mapped.
* `mappings_settle` — **every unmap undoes a mapping**, as long as lengths fit their field,
  received packets fill their buffers and partial packets are found again.
-/

namespace Dma

open Cyclic Ledger Runs

variable {υ : Type}

/-! ## The system -/

/-- Bus address, length and direction. -/
abbrev MapKey := U32 × U32 × DmaDirection

/-- The calls of the mapping interface. -/
def mapEntry : Ev → Option (Entry MapKey)
  | .map bus len dir => some (.opens (bus, len, dir))
  | .unmap bus len dir => some (.closes (bus, len, dir))
  | _ => none

/-- What is mapped after the calls; `none` when something was unmapped that was not mapped. -/
def mappings (evs : List Ev) : Option (Multiset MapKey) := settle 0 (evs.filterMap mapEntry)

/-- The mappings of the Hardware group, by what its BDs say. -/
def heldMappings (c : Chan) : List MapKey :=
  (hwBds c.ring).map fun bd => (bdGetBufAddr c.mem bd, bdGetCtrlLength c.mem bd, dirOf c.ring)

structure MapSys (υ : Type) where
  dev : Dev υ
  evs : List Ev

inductive MapAct (υ : Type) where
  /-- `DmaSendPkt` -/
  | send (bus : ℕ → U32) (pkts : List PktBuf)
  /-- The first section of `PktHandler`, and its call of `UserPutPkt`. -/
  | retrieve
  /-- The second section of `PktHandler`. -/
  | refill (bus : ℕ → U32)
  /-- `descriptor_free` -/
  | free
  /-- The user driver changes its state on its own. -/
  | user (u : υ)
  | engine (i : ℕ) (status usrl usrh : U32)

def mapStep (user : UserPtrs υ) (thBhIsr : Bool) (s : MapSys υ) : MapAct υ → Option (MapSys υ)
  | .send bus pkts =>
    let sent := dmaSendPkt .initialized .userAssigned thBhIsr bus pkts s.dev.chan s.dev.intrCount
    some {
      dev := { s.dev with chan := sent.2.1, intrCount := sent.2.2.1 }
      evs := s.evs ++ sent.2.2.2 }
  | .retrieve =>
    let got := pktHandlerRetrieve (fun _ => s.dev.chan.mem) s.dev.chan
    some {
      dev := { s.dev with
        chan := got.2.1
        user := match got.1 with
          | none | some [] => s.dev.user
          | some pkts => user.putPkt s.dev.user pkts }
      evs := s.evs ++ got.2.2 }
  | .refill bus =>
    let done := pktHandlerRefill user thBhIsr bus s.dev
    some { dev := done.1, evs := s.evs ++ done.2 }
  | .free =>
    let got := descriptorFreeForce s.dev.chan
    some {
      dev := { s.dev with
        chan := descriptorFreeBds got.2.1 got.2.2.1
        user := if got.1 = [] then s.dev.user else user.putPkt s.dev.user got.1 }
      evs := s.evs ++ got.2.2.2 }
  | .user u => some { s with dev := { s.dev with user := u } }
  | .engine i status usrl usrh =>
    some { s with dev := { s.dev with chan := engineWrite s.dev.chan i status usrl usrh } }

/-- The length fits the length field of a BD. -/
def PktBuf.Short (p : PktBuf) : Prop := p.size.toNat < 2 ^ 20

instance (p : PktBuf) : Decidable p.Short := by unfold PktBuf.Short; infer_instance

/-- The completed BDs of the Hardware group say that as much was transferred as was mapped. -/
def FullLengths (c : Chan) : Prop :=
  ∀ bd ∈ hwBds c.ring, Flag (bdGetStatus c.mem bd) bdCompMask →
    bdGetStatLength c.mem bd = bdGetCtrlLength c.mem bd

instance (c : Chan) : Decidable (FullLengths c) := by unfold FullLengths; infer_instance

/-- When a step unmaps what was mapped: lengths fit the length field, the fragments that
`DmaSendPkt` has to hold back begin where it looks for them, and received packets fill their
buffers. -/
def Mappable (user : UserPtrs υ) (s : MapSys υ) : MapAct υ → Prop
  | .send _ pkts =>
    let l := pkts.take (s.dev.chan.ring.freeCnt.toNat - 2)
    Anchored l ∧ ∀ p ∈ l, p.Short
  | .retrieve => FullLengths s.dev.chan
  | .refill _ => ∀ u num, ∀ p ∈ (user.getPkt u num).1, p.Short
  | _ => True

/-! ## Mappings of packets and of loads -/

/-- The mappings of a fill loop. -/
def pktMappings (dir : DmaDirection) (bus : ℕ → U32) (pkts : List PktBuf) : List MapKey :=
  pkts.mapIdx fun i p => (bus i, p.size, dir)

/-- The mapping that a load stands for. -/
def Load.mapping (dir : DmaDirection) (l : Load) : MapKey := (l.bufal, l.ctrl &&& bdBuflMask, dir)

theorem PktBuf.Short.mask {p : PktBuf} (h : p.Short) : p.size &&& bdBuflMask = p.size := by
  refine BitVec.eq_of_toNat_eq ?_
  rw [BitVec.toNat_and, show bdBuflMask.toNat = 2 ^ 20 - 1 by decide, Nat.and_two_pow_sub_one_eq_mod,
    Nat.mod_eq_of_lt h]

theorem mapEntry_mapEvs (dir : DmaDirection) (bus : ℕ → U32) (pkts : List PktBuf) :
    (mapEvs dir bus pkts).filterMap mapEntry = (pktMappings dir bus pkts).map .opens := by
  have hsome : mapEvs dir bus pkts =
      (pktMappings dir bus pkts).map fun k => Ev.map k.1 k.2.1 k.2.2 :=
    List.ext_getElem (by simp [mapEvs, pktMappings]) fun i _ _ => by simp [mapEvs, pktMappings]
  rw [hsome, List.filterMap_map]
  exact congrFun List.filterMap_eq_map _

theorem mapEntry_unmaps (l : List MapKey) :
    (l.map fun k => Ev.unmap k.1 k.2.1 k.2.2).filterMap mapEntry = l.map .closes := by
  rw [List.filterMap_map]
  exact congrFun List.filterMap_eq_map _

theorem mapEntry_unmapEvs (dir : DmaDirection) (bus : ℕ → U32) (n : ℕ) {pkts : List PktBuf}
    (hshort : ∀ p ∈ pkts, p.Short) :
    (unmapEvs dir bus n pkts).filterMap mapEntry =
      ((pktMappings dir bus pkts).drop n).map .closes := by
  have hsome : unmapEvs dir bus n pkts =
      ((pktMappings dir bus pkts).drop n).map fun k => Ev.unmap k.1 k.2.1 k.2.2 := by
    refine List.ext_getElem (by simp [unmapEvs, pktMappings]) fun i hi _ => ?_
    simp only [unmapEvs, List.length_mapIdx, List.length_drop] at hi
    have hp := hshort pkts[n + i] (List.getElem_mem (by omega))
    simp only [unmapEvs, pktMappings, List.getElem_mapIdx, List.getElem_drop, List.getElem_map,
      hp.mask]
  rw [hsome, mapEntry_unmaps]

/-- The loads of short packets stand for their mappings. -/
theorem mapping_mapIdx {f : ℕ → PktBuf → Load} {fl : ℕ → PktBuf → U32} {dir : DmaDirection}
    {bus : ℕ → U32} (hf : ∀ i p, f i p = ⟨bus i, filledCtrl p.size (fl i p), p.bufInfo⟩)
    {pkts : List PktBuf} (hshort : ∀ p ∈ pkts, p.Short) :
    (pkts.mapIdx f).map (Load.mapping dir) = pktMappings dir bus pkts := by
  refine List.ext_getElem (by simp [pktMappings]) fun i hi _ => ?_
  simp only [List.length_map, List.length_mapIdx] at hi
  have hp := hshort pkts[i] (List.getElem_mem hi)
  simp only [pktMappings, List.getElem_map, List.getElem_mapIdx, hf, Load.mapping,
    filledCtrl_length, hp.mask]

theorem pktMappings_take (dir : DmaDirection) (bus : ℕ → U32) (n : ℕ) (pkts : List PktBuf) :
    pktMappings dir bus (pkts.take n) = (pktMappings dir bus pkts).take n :=
  List.ext_getElem (by simp [pktMappings]) fun i _ _ => by simp [pktMappings]

theorem Parts.heldMappings_eq {c : Chan} {g : Split} (h : Parts c.ring g) :
    heldMappings c = (hwLoads c g).map (Load.mapping (dirOf c.ring)) := by
  rw [heldMappings, h.hwBds_eq, hwLoads, map_arc, map_arc]
  rfl

/-! ## What each section does -/

/-- The calls `evs` account for what is mapped before and after them. -/
def Moves (c c' : Chan) (evs : List Ev) : Prop :=
  settle (heldMappings c) (evs.filterMap mapEntry) = some (heldMappings c' : Multiset MapKey)

theorem Moves.nil {c c' : Chan} (h : heldMappings c' = heldMappings c) : Moves c c' [] := by
  rw [Moves, h]
  rfl

/-- Other calls map nothing. -/
theorem Moves.skip (c : Chan) {e : Ev} (he : mapEntry e = none) : Moves c c [e] := by
  rw [Moves, List.filterMap_cons_none he]
  rfl

theorem Moves.append {c₁ c₂ c₃ : Chan} {evs evs' : List Ev} (h : Moves c₁ c₂ evs)
    (h' : Moves c₂ c₃ evs') : Moves c₁ c₃ (evs ++ evs') := by
  rw [Moves, List.filterMap_append]
  exact settle_append_eq h h'

/-- Mapping packets and unmapping all but the first `n` of them. -/
theorem Moves.queue {c c' : Chan} {dir : DmaDirection} {bus : ℕ → U32} {n : ℕ}
    {pkts : List PktBuf} (hshort : ∀ p ∈ pkts, p.Short)
    (hheld : heldMappings c' = heldMappings c ++ (pktMappings dir bus pkts).take n) :
    Moves c c' (mapEvs dir bus pkts ++ unmapEvs dir bus n pkts) := by
  rw [Moves, List.filterMap_append, mapEntry_mapEvs, mapEntry_unmapEvs dir bus n hshort,
    settle_opens_drop, hheld, Multiset.coe_add]
  exact congrArg some (Multiset.coe_eq_coe.2 List.perm_append_comm)

/-- Unmapping the first `k`. -/
theorem Moves.retire (c c' : Chan) {k : ℕ} (hheld : heldMappings c' = (heldMappings c).drop k) :
    Moves c c' (((heldMappings c).take k).map fun m => Ev.unmap m.1 m.2.1 m.2.2) := by
  rw [Moves, mapEntry_unmaps, hheld]
  have hsplit : (heldMappings c : Multiset MapKey) =
      ((heldMappings c).take k : Multiset MapKey) + ((heldMappings c).drop k : Multiset MapKey) := by
    rw [Multiset.coe_add, List.take_append_drop]
  rw [hsplit]
  exact settle_closes _ _

variable {c : Chan} {g : Split}

theorem Settled.sendPkt_moves (h : Settled c g) (thBhIsr : Bool) (bus : ℕ → U32)
    (pkts : List PktBuf) (intrCount : U32) (hanch : Anchored (pkts.take (g.free - 2)))
    (hshort : ∀ p ∈ pkts.take (g.free - 2), p.Short) :
    let sent := dmaSendPkt .initialized .userAssigned thBhIsr bus pkts c intrCount
    ∃ g', Settled sent.2.1 g' ∧ sent.2.1.ring.block = c.ring.block ∧ Moves c sent.2.1 sent.2.2.2 := by
  cases hrx : c.ring.isRxChannel with
  | true =>
    rw [dmaSendPkt_rx hrx]
    exact ⟨g, h, rfl, .nil rfl⟩
  | false =>
    obtain ⟨n, c', ic, hn, heq, hlen, hs, hbase, -, hloads⟩ :=
      h.sendPkt hrx thBhIsr bus pkts intrCount hanch
    rw [heq]
    refine ⟨_, hs, block_of_base hbase, Moves.queue hshort ?_⟩
    have htake : pkts.take n = (pkts.take (g.free - 2)).take n := by
      rw [List.length_take] at hlen
      rw [List.take_take, Nat.min_eq_left (by omega)]
    have hdir : dirOf c.ring = .toDevice := by rw [dirOf, hrx]; rfl
    rw [hs.parts.heldMappings_eq, h.parts.heldMappings_eq, dirOf_congr (block_of_base hbase), hloads,
      List.map_append, hdir, htake, ← pktMappings_take]
    congr 1
    exact mapping_mapIdx (fun _ _ => rfl) fun p hp => hshort p (List.mem_of_mem_take hp)

theorem Settled.refill_moves {d : Dev υ} (h : Settled d.chan g) {user : UserPtrs υ}
    (hshort : ∀ u num, ∀ p ∈ (user.getPkt u num).1, p.Short) (thBhIsr : Bool) (bus : ℕ → U32) :
    let done := pktHandlerRefill user thBhIsr bus d
    ∃ g', Settled done.1.chan g' ∧ done.1.chan.ring.block = d.chan.ring.block ∧
      Moves d.chan done.1.chan done.2 := by
  unfold pktHandlerRefill
  by_cases hrx : d.chan.ring.isRxChannel = true
  · rw [if_pos hrx]
    obtain ⟨g', hs, hbase, hmoves, -⟩ := Settled.setupRecv user thBhIsr
      (P := fun d' g' evs => Moves d.chan d'.chan evs ∧ d'.chan.ring.base = d.chan.ring.base)
      (by
        rintro d₁ g₁ evs bus freeBdCount p g₂ hs₁ hfree ⟨hmoves, hbase₁⟩ hout
        obtain ⟨hs₂, hbase₂⟩ := hout.settled hs₁ hfree
        have hdir : dirOf d₁.chan.ring = .fromDevice := by
          rw [dirOf_congr (block_of_base hbase₁), dirOf, if_pos hrx]
        have hshort' := hshort d₁.user freeBdCount
        refine ⟨hmoves.append ?_, hbase₂.trans hbase₁⟩
        cases hout with
        | nothing => exact Moves.skip _ rfl
        | queued pkts u c intrCount hn hgot hne hparts hbase hloads =>
          rw [hgot] at hshort'
          have hheld : heldMappings c =
              heldMappings d₁.chan ++ (pktMappings .fromDevice bus pkts).take pkts.length := by
            rw [hs₂.parts.heldMappings_eq, hs₁.parts.heldMappings_eq,
              dirOf_congr (block_of_base hbase), hloads, List.map_append, hdir, ← pktMappings_take,
              List.take_length]
            congr 1
            exact mapping_mapIdx (fun _ _ => rfl) hshort'
          have hqueue := Moves.queue hshort' hheld
          rw [unmapEvs, List.drop_length, List.mapIdx_nil, List.append_nil] at hqueue
          exact (Moves.skip d₁.chan rfl).append hqueue
        | refused pkts u c intrCount hgot hne hlen hparts hbase hloads =>
          rw [hgot] at hshort'
          have hheld : heldMappings c =
              heldMappings d₁.chan ++ (pktMappings .fromDevice bus pkts).take 0 := by
            rw [hs₂.parts.heldMappings_eq, hs₁.parts.heldMappings_eq,
              dirOf_congr (block_of_base hbase), hloads, List.take_zero, List.append_nil]
          exact (Moves.skip d₁.chan rfl).append
            ((Moves.queue hshort' hheld).append (Moves.skip c rfl)))
      h hrx bus ⟨Moves.nil rfl, rfl⟩
    exact ⟨g', hs, block_of_base hbase, hmoves⟩
  · rw [if_neg hrx]
    exact ⟨g, h, rfl, .nil rfl⟩

theorem Settled.retrieve_moves (h : Settled c g) (hlen : FullLengths c) :
    let got := pktHandlerRetrieve (fun _ => c.mem) c
    ∃ g', Settled got.2.1 g' ∧ got.2.1.ring.block = c.ring.block ∧ Moves c got.2.1 got.2.2 := by
  obtain ⟨k, pkts, c', evs, hk, heq, hs, hbase, -, -, hevs, hwhole, -, -, hloads⟩ :=
    h.retrieve fun _ => c.mem
  rw [heq]
  refine ⟨_, hs, block_of_base hbase, ?_⟩
  have hheld : heldMappings c' = (heldMappings c).drop k := by
    rw [hs.parts.heldMappings_eq, h.parts.heldMappings_eq, hloads, List.map_drop,
      dirOf_congr (block_of_base hbase)]
  have hunmaps : evs = ((heldMappings c).take k).map fun m => Ev.unmap m.1 m.2.1 m.2.2 := by
    rw [hevs, h.parts.heldMappings_eq, ← List.map_take, hwLoads, take_arc _ hk, map_arc, map_arc]
    refine arc_congr fun i hi => ?_
    have hdone := (hwhole.done i hi).1
    have hin : bdAt c.ring (g.hwPos + i) ∈ hwBds c.ring := by
      rw [h.parts.hwBds_eq]
      exact mem_arc.2 ⟨i, by omega, rfl⟩
    have hsame : (wordsAt c (g.hwPos + i)).retrieved.size =
        (loadAt c (g.hwPos + i)).ctrl &&& bdBuflMask := hlen _ hin hdone
    rw [hsame]
    rfl
  rw [hunmaps]
  exact Moves.retire c c' hheld

theorem Settled.free_moves (h : Settled c g) (hcnt : g.size ≤ dmaBdCnt.toNat + 1) :
    let got := descriptorFreeForce c
    let c' := descriptorFreeBds got.2.1 got.2.2.1
    ∃ g', Settled c' g' ∧ c'.ring.block = c.ring.block ∧ Moves c c' got.2.2.2 ∧
      heldMappings c' = [] := by
  obtain ⟨c₁, heq, hparts, hbase⟩ := h.force hcnt
  obtain ⟨c', hfree, hs, hbase'⟩ := h.freeForced hparts (bdAt_congr (block_of_base hbase))
  rw [heq]
  dsimp only
  rw [hfree]
  have hnil : heldMappings c' = [] := by
    rw [hs.parts.heldMappings_eq, hwLoads]
    show (arc _ _ (g.hw - g.hw)).map _ = []
    rw [Nat.sub_self]
    rfl
  refine ⟨_, hs, block_of_base (hbase'.trans hbase), ?_, hnil⟩
  have hlen : (heldMappings c).length = g.hw := by
    rw [h.parts.heldMappings_eq, List.length_map, hwLoads, length_arc]
  have hmoves := Moves.retire c c' (k := g.hw)
    (by rw [hnil, ← hlen, List.drop_length])
  rw [← hlen, List.take_length, h.parts.heldMappings_eq, List.map_map] at hmoves
  exact hmoves

/-! ## The run -/

/-- **The invariant.** -/
structure Mapped (s : MapSys υ) : Prop where
  settled : ∃ g, Settled s.dev.chan g
  size : s.dev.chan.ring.allCnt.toNat ≤ dmaBdCnt.toNat + 1
  mapped : mappings s.evs = some (heldMappings s.dev.chan : Multiset MapKey)

variable {user : UserPtrs υ} {thBhIsr : Bool} {s s' : MapSys υ}

theorem Mapped.next (h : Mapped s) {d : Dev υ} {evs : List Ev} (hs : ∃ g, Settled d.chan g)
    (hblock : d.chan.ring.block = s.dev.chan.ring.block) (hmoves : Moves s.dev.chan d.chan evs) :
    Mapped { dev := d, evs := s.evs ++ evs } := by
  refine ⟨hs, ?_, ?_⟩
  · have hcnt : d.chan.ring.block.allCnt = s.dev.chan.ring.block.allCnt := by rw [hblock]
    have hcnt' : d.chan.ring.allCnt = s.dev.chan.ring.allCnt := hcnt
    rw [hcnt']
    exact h.size
  · rw [mappings, List.filterMap_append]
    exact settle_append_eq h.mapped hmoves

/-- **One step.** -/
theorem mapStep_mapped {a : MapAct υ} (h : Mapped s) (hok : Mappable user s a)
    (hstep : mapStep user thBhIsr s a = some s') : Mapped s' := by
  obtain ⟨g, hs⟩ := h.settled
  cases a with
  | send bus pkts =>
    rw [mapStep, Option.some.injEq] at hstep
    subst hstep
    obtain ⟨hanch, hshort⟩ := hok
    rw [hs.parts.freeCnt] at hanch hshort
    obtain ⟨g', hs', hblock, hmoves⟩ :=
      hs.sendPkt_moves thBhIsr bus pkts s.dev.intrCount hanch hshort
    exact h.next ⟨g', hs'⟩ hblock hmoves
  | retrieve =>
    rw [mapStep, Option.some.injEq] at hstep
    subst hstep
    obtain ⟨g', hs', hblock, hmoves⟩ := hs.retrieve_moves hok
    exact h.next ⟨g', hs'⟩ hblock hmoves
  | refill bus =>
    rw [mapStep, Option.some.injEq] at hstep
    subst hstep
    obtain ⟨g', hs', hblock, hmoves⟩ := hs.refill_moves hok thBhIsr bus
    exact h.next ⟨g', hs'⟩ hblock hmoves
  | free =>
    rw [mapStep, Option.some.injEq] at hstep
    subst hstep
    obtain ⟨g', hs', hblock, hmoves, -⟩ := hs.free_moves (by rw [← hs.parts.size]; exact h.size)
    exact h.next ⟨g', hs'⟩ hblock hmoves
  | user u =>
    rw [mapStep, Option.some.injEq] at hstep
    subst hstep
    exact ⟨h.settled, h.size, h.mapped⟩
  | engine i status usrl usrh =>
    rw [mapStep, Option.some.injEq] at hstep
    subst hstep
    obtain ⟨hs', hloads⟩ := hs.engineWrite i status usrl usrh
    refine ⟨⟨g, hs'⟩, h.size, ?_⟩
    dsimp only
    rw [h.mapped, hs'.parts.heldMappings_eq, hloads, hs.parts.heldMappings_eq]
    rfl

/-- **Every unmap undoes a mapping.** What is still mapped is what the BDs of the Hardware group
say, and after `descriptor_free` nothing is. -/
theorem mappings_settle (user : UserPtrs υ) (thBhIsr isRx : Bool) (dev : Dev υ)
    (hdev : Started isRx dev.chan) (hcnt : dev.chan.ring.allCnt.toNat ≤ dmaBdCnt.toNat + 1)
    (acts : List (MapAct υ)) (s : MapSys υ)
    (hok : Along (mapStep user thBhIsr) (Mappable user) { dev := dev, evs := [] } acts)
    (hrun : run (mapStep user thBhIsr) { dev := dev, evs := [] } acts = some s) :
    mappings s.evs = some (heldMappings s.dev.chan : Multiset MapKey) ∧
      ∀ s', mapStep user thBhIsr s .free = some s' → mappings s'.evs = some 0 := by
  have hmapped : Mapped s := by
    refine run_inv (fun s a s' h hok hstep => mapStep_mapped h hok hstep) ?_ hok hrun
    obtain ⟨g, hs, hhw, -⟩ := hdev.settled
    refine ⟨⟨g, hs⟩, hcnt, ?_⟩
    show some (0 : Multiset MapKey) = some (heldMappings dev.chan : Multiset MapKey)
    rw [hs.parts.heldMappings_eq, hwLoads, hhw]
    rfl
  refine ⟨hmapped.mapped, fun s' hstep => ?_⟩
  have hmapped' := mapStep_mapped (a := .free) hmapped trivial hstep
  obtain ⟨g, hs⟩ := hmapped.settled
  obtain ⟨-, -, -, -, hnil⟩ := hs.free_moves (by rw [← hs.parts.size]; exact hmapped.size)
  rw [mapStep, Option.some.injEq] at hstep
  subst hstep
  rw [hmapped'.mapped]
  dsimp only at hnil ⊢
  rw [hnil]
  rfl

/-- A page is queued, filled, returned, and the rest is recovered. -/
def fullPage : List (MapAct RawData) :=
  [.refill fun i => BitVec.ofNat 32 (0x5000 * i), .engine 0 0x4D001000 0 0, .retrieve, .free]

theorem mappings_settle_fullPage : ∃ s,
    run (mapStep (rxUser 9) false) { dev := twoPages, evs := [] } fullPage = some s ∧
    mappings s.evs = some (heldMappings s.dev.chan : Multiset MapKey) ∧
      ∀ s', mapStep (rxUser 9) false s .free = some s' → mappings s'.evs = some 0 := by
  have hshort : ∀ u num, ∀ p ∈ ((rxUser 9).getPkt u num).1, p.Short := fun u num p hp => by
    rw [PktBuf.Short, rxUser_size 9 u num p hp]
    decide
  have hfull : FullLengths (engineWrite (pktHandlerRefill (rxUser 9) false
      (fun i => BitVec.ofNat 32 (0x5000 * i)) twoPages).1.chan 0 0x4D001000 0 0) := fun bd hbd => by
    have hin : bd ∈ [(0x2000 : U32), 0x2040] := hbd
    rcases List.mem_cons.1 hin with rfl | hin
    · exact fun _ => rfl
    · rw [List.mem_singleton.1 hin]
      exact fun hcomp => absurd hcomp (by decide)
  have hok : Along (mapStep (rxUser 9) false) (Mappable (rxUser 9)) { dev := twoPages, evs := [] }
      fullPage := by
    refine (along_cons_of_step rfl).2 ⟨hshort, ?_⟩
    refine (along_cons_of_step rfl).2 ⟨trivial, ?_⟩
    refine (along_cons_of_step rfl).2 ⟨hfull, ?_⟩
    exact (along_cons_of_step rfl).2 ⟨trivial, trivial⟩
  exact ⟨_, rfl, mappings_settle (rxUser 9) false true twoPages
    ⟨initializedChan true fun _ => 0, 0, 0x2000, 64, 5, rfl, by decide, by decide, rfl⟩ (by decide)
    fullPage _ hok rfl⟩

/-- **A short packet.** A page of 4096 bytes is mapped, 100 bytes arrive, and 100 bytes are
unmapped. -/
theorem short_packet : ∃ s,
    run (mapStep (rxUser 9) false) { dev := twoPages, evs := [] }
      [.refill fun i => BitVec.ofNat 32 (0x5000 * i), .engine 0 0x4D000064 0 0, .retrieve] = some s ∧
    mappings s.evs = none :=
  ⟨_, rfl, rfl⟩

end Dma
