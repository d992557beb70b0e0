import MyDriver.Xdma.Settled

/-!
# A ring and the place where its engine works

The engine works through the Hardware group in order. Where it stands divides the group in two: the
BDs that are finished, which the driver may take off, and those ahead, of which the driver adds
more. `bd` is the BD that the engine works on next; it has come to the end when this is `HwTail`.

Every section of the driver, and every step of the engine, is a move on these two lists.

* `finished`, `toDo` — the two lists, as the code sees them.
* `AtWork c bd g k` — the engine has finished `k` BDs of the group.
* `AtWork.engine` — a BD moves from one list to the other.
* `AtWork.send`, `AtWork.refill` — BDs are added ahead.
* `AtWork.retrieve` — finished BDs are taken off, also when the engine goes on meanwhile.
-/

namespace Dma

open Cyclic

/-- The words of the finished BDs, oldest first. -/
def finished (c : Chan) (bd : U32) : List BdWords :=
  ((hwBds c.ring).takeWhile (· ≠ bd)).map (bdWords c.mem)

/-- The words of the BDs ahead. -/
def toDo (c : Chan) (bd : U32) : List BdWords :=
  ((hwBds c.ring).dropWhile (· ≠ bd)).map (bdWords c.mem)

/-- The engine works next on the BD number `k` of the Hardware group. -/
structure AtWork (c : Chan) (bd : U32) (g : Split) (k : ℕ) : Prop where
  settled : Settled c g
  le : k ≤ g.hw
  place : bd = bdAt c.ring (g.hwPos + k)
  opens : ∀ w ∈ arc (wordsAt c) (g.hwPos + k) (g.hw - k), ¬ w.Comp

theorem arc_split (f : ℕ → U32) {x n k : ℕ} (hk : k ≤ n) (hne : ∀ i < k, f (x + i) ≠ f (x + k)) :
    (arc f x n).takeWhile (· ≠ f (x + k)) = arc f x k ∧
      (arc f x n).dropWhile (· ≠ f (x + k)) = arc f (x + k) (n - k) := by
  have hall : ∀ b ∈ arc f x k, decide (b ≠ f (x + k)) = true := by
    intro b hb
    obtain ⟨i, hi, rfl⟩ := mem_arc.1 hb
    exact decide_eq_true (hne i hi)
  have hsplit : arc f x n = arc f x k ++ arc f (x + k) (n - k) := by
    rw [arc_append, Nat.add_sub_cancel' hk]
  rw [hsplit, List.takeWhile_append_of_pos hall, List.dropWhile_append_of_pos hall]
  cases hrest : n - k with
  | zero => exact ⟨List.append_nil _, rfl⟩
  | succ m =>
    rw [arc_succ, List.takeWhile_cons_of_neg (by simp), List.dropWhile_cons_of_neg (by simp)]
    exact ⟨List.append_nil _, rfl⟩

variable {c c' : Chan} {bd : U32} {g : Split} {k : ℕ}

namespace AtWork

theorem bds (h : AtWork c bd g k) : (hwBds c.ring).takeWhile (· ≠ bd) = arc (bdAt c.ring) g.hwPos k ∧
    (hwBds c.ring).dropWhile (· ≠ bd) = arc (bdAt c.ring) (g.hwPos + k) (g.hw - k) := by
  have hlap := g.lap
  have hroom := h.settled.room
  have hle := h.le
  rw [h.settled.parts.hwBds_eq, h.place]
  refine arc_split (bdAt c.ring) hle fun i hi heq => ?_
  have := h.settled.parts.circle.eq_of_lt_lap (by omega) (by omega) heq
  omega

theorem finished_eq (h : AtWork c bd g k) : finished c bd = arc (wordsAt c) g.hwPos k := by
  rw [finished, h.bds.1, map_arc]
  rfl

theorem toDo_eq (h : AtWork c bd g k) : toDo c bd = arc (wordsAt c) (g.hwPos + k) (g.hw - k) := by
  rw [toDo, h.bds.2, map_arc]
  rfl

/-- The two lists are the Hardware group. -/
theorem words_eq (h : AtWork c bd g k) :
    finished c bd ++ toDo c bd = arc (wordsAt c) g.hwPos g.hw := by
  rw [h.finished_eq, h.toDo_eq, arc_append, Nat.add_sub_cancel' h.le]

theorem hwIds_eq (h : AtWork c bd g k) :
    hwIds c = (finished c bd ++ toDo c bd).map BdWords.vbufal := by
  rw [h.words_eq, h.settled.parts.hwIds_eq, hwLoads, map_arc, map_arc]
  rfl

theorem toDo_opens (h : AtWork c bd g k) : ∀ w ∈ toDo c bd, ¬ w.Comp := by
  rw [h.toDo_eq]
  exact h.opens

/-- While the engine has not come to the end, the BD it works on is the first of those ahead. -/
theorem ready (h : AtWork c bd g k) (hready : bd ≠ c.ring.hwTail) :
    k < g.hw ∧ toDo c bd = bdWords c.mem bd :: arc (wordsAt c) (g.hwPos + (k + 1))
      (g.hw - (k + 1)) := by
  have hlt : k < g.hw := lt_of_le_of_ne h.le fun heq => hready (by
    rw [h.place, h.settled.parts.hwTail, ← g.hwPos_add, heq])
  refine ⟨hlt, ?_⟩
  rw [h.toDo_eq, show g.hw - k = g.hw - (k + 1) + 1 by omega, arc_succ, Nat.add_assoc, h.place]
  rfl

/-- The sections that make the group grow. -/
theorem grow (h : AtWork c bd g k) {n : ℕ} {hn : n ≤ g.free} (hs : Settled c' (g.queue n hn))
    (hbase : c'.ring.base = c.ring.base) (hgrown : Grown c c' g n) :
    AtWork c' bd (g.queue n hn) k ∧ finished c' bd = finished c bd ∧
      toDo c' bd = toDo c bd ++ arc (wordsAt c') g.prePos n := by
  have hle := h.le
  have hbd : bdAt c'.ring = bdAt c.ring := bdAt_congr (block_of_base hbase)
  have hhw : (g.queue n hn).hw = g.hw + n := rfl
  have hold : arc (wordsAt c') (g.hwPos + k) (g.hw - k) = arc (wordsAt c) (g.hwPos + k) (g.hw - k) :=
    arc_congr fun i hi => by rw [Nat.add_assoc]; exact hgrown.old (k + i) (by omega)
  have hahead : arc (wordsAt c') ((g.queue n hn).hwPos + k) ((g.queue n hn).hw - k) =
      toDo c bd ++ arc (wordsAt c') g.prePos n := by
    rw [h.toDo_eq, ← hold, g.queue_hwPos, hhw, show g.hw + n - k = g.hw - k + n by omega,
      ← arc_append, show g.hwPos + k + (g.hw - k) = g.prePos by rw [← g.hwPos_add]; omega]
  have hat : AtWork c' bd (g.queue n hn) k := by
    refine ⟨hs, by omega, by rw [hbd]; exact h.place, ?_⟩
    rw [hahead]
    intro w hw
    rcases List.mem_append.1 hw with hw | hw
    · exact h.toDo_opens w hw
    · obtain ⟨i, hi, rfl⟩ := mem_arc.1 hw
      exact hgrown.fresh i hi
  refine ⟨hat, ?_, hat.toDo_eq.trans hahead⟩
  rw [hat.finished_eq, h.finished_eq]
  exact arc_congr fun i hi => hgrown.old i (by omega)

end AtWork

/-- The engine writes into the BD it works on. -/
def completeBd (c : Chan) (bd status usrl usrh : U32) : Chan :=
  { c with mem := hwWrite c.mem bd status usrl usrh }

namespace AtWork

/-- **A step of the engine.** -/
theorem engine (h : AtWork c bd g k) (hready : bd ≠ c.ring.hwTail) (status usrl usrh : U32) :
    AtWork (completeBd c bd status usrl usrh) (bdRingNext c.ring bd) g (k + 1) ∧
    finished (completeBd c bd status usrl usrh) (bdRingNext c.ring bd) =
      finished c bd ++ [{ bdWords c.mem bd with status := status, usrl := usrl, usrh := usrh }] ∧
    toDo c bd = bdWords c.mem bd ::
      toDo (completeBd c bd status usrl usrh) (bdRingNext c.ring bd) := by
  have hplace := h.place
  subst hplace
  obtain ⟨hlt, hahead⟩ := h.ready hready
  have hlap := g.lap
  have he := edits_hwWrite status usrl usrh
  have hother : ∀ i < g.hw, i ≠ k →
      wordsAt (completeBd c (bdAt c.ring (g.hwPos + k)) status usrl usrh) (g.hwPos + i) =
        wordsAt c (g.hwPos + i) := fun i hi hik =>
    he.other h.settled.parts.laid c.mem fun heq =>
      hik (h.settled.parts.circle.eq_of_lt_lap (by omega) (by omega) heq)
  have hrest : arc (wordsAt (completeBd c (bdAt c.ring (g.hwPos + k)) status usrl usrh))
      (g.hwPos + (k + 1)) (g.hw - (k + 1)) =
        arc (wordsAt c) (g.hwPos + (k + 1)) (g.hw - (k + 1)) :=
    arc_congr fun i hi => by
      rw [Nat.add_assoc]
      exact hother (k + 1 + i) (by omega) (by omega)
  have hat : AtWork (completeBd c (bdAt c.ring (g.hwPos + k)) status usrl usrh)
      (bdRingNext c.ring (bdAt c.ring (g.hwPos + k))) g (k + 1) := by
    refine ⟨⟨h.settled.parts, h.settled.post, h.settled.pre, h.settled.room⟩, hlt, ?_, ?_⟩
    · rw [h.settled.parts.laid.next]
      rfl
    · rw [hrest]
      intro w hw
      exact h.toDo_opens w (by rw [hahead]; exact List.mem_cons_of_mem _ hw)
  refine ⟨hat, ?_, ?_⟩
  · rw [hat.finished_eq, h.finished_eq, arc_concat]
    congr 1
    · exact arc_congr fun i hi => hother i (by omega) (by omega)
    · exact congrArg (· :: []) (he.words c.mem _)
  · rw [hahead, hat.toDo_eq, hrest]

/-- **`DmaSendPkt`** adds the packets it accepts. -/
theorem send (h : AtWork c bd g k) (hrx : c.ring.isRxChannel = false) {pkts : List PktBuf}
    (hwhole : WholePkts pkts) (bus : ℕ → U32) :
    ∃ n c' ic evs new g', dmaSendPkt .initialized .userAssigned false bus pkts c 0 =
      (n, c', ic, evs) ∧ n ≤ pkts.length ∧ AtWork c' bd g' k ∧
      finished c' bd = finished c bd ∧ toDo c' bd = toDo c bd ++ new ∧
      new.map BdWords.load = sentLoads false 0 bus (pkts.take n) ∧
      c'.ring.isRxChannel = c.ring.isRxChannel := by
  obtain ⟨n, c', ic, hn, heq, hle, hs, hbase, hgrown, hloads⟩ :=
    h.settled.sendPkt hrx false bus pkts 0 (hwhole.1.take _).anchored
  rw [List.length_take] at hle
  obtain ⟨hat, hfin, hahead⟩ := h.grow hs hbase hgrown
  refine ⟨n, c', ic, _, _, _, heq, by omega, hat, hfin, hahead, ?_,
    isRx_congr (block_of_base hbase)⟩
  rw [hwLoads_queue hn hgrown.old, List.append_right_inj] at hloads
  rw [map_arc]
  exact hloads

/-- **`PktHandler`** takes finished BDs off, and the last of them ends a packet. `rd` is what its
word reads find: a BD that is completed then does not change any more. -/
theorem retrieve (h : AtWork c bd g k) (rd : ℕ → Mem)
    (hrd : ∀ t, ∀ b ∈ hwBds c.ring, (bdWords (rd t) b).Comp → bdWords (rd t) b = bdWords c.mem b) :
    ∃ n c' evs g', pktHandlerRetrieve rd c =
      (some (((finished c bd).take n).map BdWords.retrieved), c', evs) ∧
      n ≤ k ∧ AtWork c' bd g' (k - n) ∧ finished c' bd = (finished c bd).drop n ∧
      toDo c' bd = toDo c bd ∧ c'.ring.isRxChannel = c.ring.isRxChannel ∧
      (c.ring.isRxChannel = true → ∀ w ∈ ((finished c bd).take n).getLast?,
        Flag w.status bdEopMask ∨ Flag w.status bdErrorMask) := by
  obtain ⟨n, pkts, c', evs, hn, heq, hs, hbase, -, hpkts, -, hwhole, hold, -, -⟩ :=
    h.settled.retrieve rd
  have hle := h.le
  have hbd : bdAt c'.ring = bdAt c.ring := bdAt_congr (block_of_base hbase)
  -- What is seen as completed is finished.
  have hseen : ∀ i < n, i < k ∧
      (hwSeen c.ring rd g i).bdStsCr = (wordsAt c (g.hwPos + i)).status &&& bdStatusMask := by
    intro i hi
    have hmask : bdStatusMask &&& bdCompMask = bdCompMask := by decide
    have hcomp : (bdWords (rd (4 * i)) (bdAt c.ring (g.hwPos + i))).Comp := by
      have hflag := (hwhole.done i hi).1
      rwa [hwSeen, bdSeen, bdGetStatus, Flag, Words.and_and_of_sub hmask] at hflag
    have hin : bdAt c.ring (g.hwPos + i) ∈ hwBds c.ring := by
      rw [h.settled.parts.hwBds_eq]
      exact mem_arc.2 ⟨i, by omega, rfl⟩
    have hsame := hrd _ _ hin hcomp
    refine ⟨?_, ?_⟩
    · by_contra hge
      refine h.opens (wordsAt c (g.hwPos + i)) (mem_arc.2 ⟨i - k, by omega, ?_⟩) ?_
      · congr 1
        omega
      · rw [wordsAt, ← hsame]
        exact hcomp
    · rw [wordsAt, ← hsame]
      rfl
  have hnk : n ≤ k := by
    by_contra hlt
    have := (hseen (n - 1) (by omega)).1
    omega
  have hhw : (g.retire n hn).hw = g.hw - n := rfl
  have hrest : arc (wordsAt c') ((g.retire n hn).hwPos + (k - n)) ((g.retire n hn).hw - (k - n)) =
      toDo c bd := by
    rw [h.toDo_eq, g.retire_hwPos, hhw, show g.hwPos + n + (k - n) = g.hwPos + k by omega,
      show g.hw - n - (k - n) = g.hw - k by omega]
    exact arc_congr fun i hi => by
      rw [Nat.add_assoc]
      exact hold (k + i) (by omega) (by omega)
  have hat : AtWork c' bd (g.retire n hn) (k - n) := by
    refine ⟨hs, by omega, ?_, ?_⟩
    · rw [hbd, g.retire_hwPos, h.place]
      congr 1
      omega
    · rw [hrest]
      exact h.toDo_opens
  have htake : (finished c bd).take n = arc (wordsAt c) g.hwPos n := by
    rw [h.finished_eq, take_arc _ hnk]
  refine ⟨n, c', evs, _, ?_, hnk, hat, ?_, hat.toDo_eq.trans hrest,
    isRx_congr (block_of_base hbase), fun hrx w hw => ?_⟩
  · rw [heq, hpkts, htake, map_arc]
    rfl
  · rw [hat.finished_eq, h.finished_eq, drop_arc _ hnk, g.retire_hwPos]
    exact arc_congr fun i hi => by
      rw [Nat.add_assoc]
      exact hold (n + i) (by omega) (by omega)
  · obtain ⟨m, rfl⟩ : ∃ m, n = m + 1 := by
      rcases n with _ | m
      · rw [List.take_zero] at hw
        cases hw
      · exact ⟨m, rfl⟩
    rw [htake, arc_concat, List.getLast?_concat, Option.mem_def, Option.some.injEq] at hw
    subst hw
    have hbound := hwhole.boundary (Nat.succ_pos m)
    rw [Nat.add_sub_cancel, BdSeen.Boundary, (hseen m (by omega)).2, hrx] at hbound
    have heop : bdStatusMask &&& bdEopMask = bdEopMask := by decide
    have herr : bdStatusMask &&& bdErrorMask = bdErrorMask := by decide
    simp only [Flag, Words.and_and_of_sub heop, Words.and_and_of_sub herr] at hbound
    rcases hbound with ⟨-, hend⟩ | ⟨htrue, -⟩ | hbad
    · exact Or.inl hend
    · cases htrue
    · exact Or.inr hbad

end AtWork

/-! ## The refill -/

/-- What `pci_map_single` has returned. -/
def mapBus (evs : List Ev) : List U32 := evs.flatMap fun
  | .map bus _ _ => [bus]
  | _ => []

/-- The buffers that `UserGetPkt` has given. -/
def gotBufs (evs : List Ev) : List U32 := evs.flatMap fun
  | .getPkt pkts => pkts.map PktBuf.pktBuf
  | _ => []

theorem mapBus_append (evs evs' : List Ev) : mapBus (evs ++ evs') = mapBus evs ++ mapBus evs' :=
  List.flatMap_append

theorem gotBufs_append (evs evs' : List Ev) :
    gotBufs (evs ++ evs') = gotBufs evs ++ gotBufs evs' := List.flatMap_append

theorem mapBus_mapEvs (dir : DmaDirection) (bus : ℕ → U32) (pkts : List PktBuf) :
    mapBus (mapEvs dir bus pkts) = pkts.mapIdx fun i _ => bus i := by
  induction pkts generalizing bus with
  | nil => rfl
  | cons p pkts ih =>
    rw [mapEvs, List.mapIdx_cons, List.mapIdx_cons]
    exact congrArg _ (ih fun i => bus (i + 1))

theorem gotBufs_mapEvs (dir : DmaDirection) (bus : ℕ → U32) (pkts : List PktBuf) :
    gotBufs (mapEvs dir bus pkts) = [] := by
  refine List.flatMap_eq_nil_iff.2 fun ev hev => ?_
  obtain ⟨i, hi, rfl⟩ := List.mem_mapIdx.1 hev
  rfl

/-- The packets of the user are buffers of one size, named after themselves. -/
structure PageUser {υ : Type} (user : UserPtrs υ) (size : U32) : Prop where
  size : ∀ u num, ∀ p ∈ (user.getPkt u num).1, p.size = size
  buf : ∀ u num, ∀ p ∈ (user.getPkt u num).1, p.pktBuf = p.bufInfo

/-- **The refill** adds the buffers of the user. -/
theorem AtWork.refill {υ : Type} {user : UserPtrs υ} {size : U32} (huser : PageUser user size)
    (hsize : size &&& bdBuflMask ≠ 0) {d : Dev υ} (h : AtWork d.chan bd g k) (bus : ℕ → U32) :
    let done := pktHandlerRefill user false bus d
    ∃ new g', AtWork done.1.chan bd g' k ∧ finished done.1.chan bd = finished d.chan bd ∧
      toDo done.1.chan bd = toDo d.chan bd ++ new ∧
      new.map BdWords.bufal = mapBus done.2 ∧ new.map BdWords.vbufal = gotBufs done.2 ∧
      (∀ w ∈ new, w.ctrl &&& bdBuflMask = size &&& bdBuflMask) ∧
      done.1.chan.ring.isRxChannel = d.chan.ring.isRxChannel := by
  intro done
  by_cases hrx : d.chan.ring.isRxChannel = true
  swap
  · have hdone : done = (d, []) := if_neg hrx
    rw [hdone]
    exact ⟨[], g, h, rfl, (List.append_nil _).symm, rfl, rfl, List.forall_mem_nil _, rfl⟩
  have hdone : done = setupRecvBuffers user false bus d := if_pos hrx
  rw [hdone]
  have hrule := Settled.setupRecv user false
    (P := fun d' g' evs => ∃ new, AtWork d'.chan bd g' k ∧
      finished d'.chan bd = finished d.chan bd ∧ toDo d'.chan bd = toDo d.chan bd ++ new ∧
      new.map BdWords.bufal = mapBus evs ∧ new.map BdWords.vbufal = gotBufs evs ∧
      ∀ w ∈ new, w.ctrl &&& bdBuflMask = size &&& bdBuflMask)
    ?_ h.settled hrx bus
    ⟨[], h, rfl, (List.append_nil _).symm, rfl, rfl, List.forall_mem_nil _⟩
  · obtain ⟨g', -, hbase, new, hat, hfin, hahead, hbus, hbufs, hctrl⟩ := hrule
    exact ⟨new, g', hat, hfin, hahead, hbus, hbufs, hctrl, isRx_congr (block_of_base hbase)⟩
  rintro d₁ g₁ evs bus freeBdCount p g₂ hs hfree ⟨new, hat, hfin, hahead, hbus, hbufs, hctrl⟩ hout
  have hs₂ := (hout.settled hs hfree).1
  rw [mapBus_append, gotBufs_append]
  cases hout with
  | nothing hgot =>
    exact ⟨new, hat, hfin, hahead, by rw [hbus]; exact (List.append_nil _).symm,
      by rw [hbufs]; exact (List.append_nil _).symm, hctrl⟩
  | queued pkts u c intrCount hn hgot hne hparts hbase hloads hgrown =>
    obtain ⟨hat', hfin', hahead'⟩ := hat.grow hs₂ hbase hgrown
    have hpkts := huser.size d₁.user freeBdCount
    have hnames := huser.buf d₁.user freeBdCount
    rw [hgot] at hpkts hnames
    rw [hwLoads_queue hn hgrown.old, List.append_right_inj] at hloads
    -- The words of the new BDs, by their loads.
    have hnew : ∀ {β : Type} (f : Load → β),
        (arc (wordsAt c) g₁.prePos pkts.length).map (fun w => f w.load) =
          pkts.mapIdx fun i p => f (recvLoad false (d₁.intrCount + BitVec.ofNat 32 i) (bus i) p) := by
      intro β f
      have hmap := congrArg (List.map f) hloads
      rw [map_arc] at hmap
      rw [map_arc]
      refine hmap.trans (List.ext_getElem (by simp [recvLoads]) fun i _ _ => ?_)
      simp [recvLoads]
    refine ⟨new ++ arc (wordsAt c) g₁.prePos pkts.length, hat', hfin'.trans hfin, ?_, ?_, ?_, ?_⟩
    · rw [hahead', hahead, List.append_assoc]
    · rw [List.map_append, hbus, List.append_right_inj]
      exact (hnew Load.bufal).trans (mapBus_mapEvs .fromDevice bus pkts).symm
    · rw [List.map_append, hbufs, List.append_right_inj]
      have hgot' : gotBufs (.getPkt pkts :: mapEvs .fromDevice bus pkts) =
          pkts.map PktBuf.pktBuf := by
        rw [show Ev.getPkt pkts :: mapEvs .fromDevice bus pkts =
          [.getPkt pkts] ++ mapEvs .fromDevice bus pkts from rfl, gotBufs_append, gotBufs_mapEvs]
        simp [gotBufs]
      refine ((hnew Load.id).trans ?_).trans hgot'.symm
      rw [List.map_congr_left hnames]
      exact List.ext_getElem (by simp) fun i _ _ => by simp [recvLoad]
    · intro w hw
      rcases List.mem_append.1 hw with hw | hw
      · exact hctrl w hw
      · have hmem := List.mem_map_of_mem (f := fun w : BdWords => w.load.ctrl) hw
        rw [hnew Load.ctrl] at hmem
        obtain ⟨i, hi, heq⟩ := List.mem_mapIdx.1 hmem
        show w.load.ctrl &&& bdBuflMask = _
        rw [← heq, recvLoad, filledCtrl_length, hpkts _ (List.getElem_mem hi)]
  | refused pkts u c intrCount hgot hne hlen hparts hbase hloads hgrown =>
    -- The buffers have a length.
    obtain ⟨p, hp, hzero⟩ := hlen
    have hpkts := huser.size d₁.user freeBdCount
    rw [hgot] at hpkts
    rw [hpkts p hp] at hzero
    exact absurd hzero hsize

/-- A ring that has just been started: nothing is finished, and nothing ahead. -/
theorem Started.atWork {isRx : Bool} (h : Started isRx c) :
    ∃ g, AtWork c c.ring.hwTail g 0 ∧ finished c c.ring.hwTail = [] ∧
      toDo c c.ring.hwTail = [] := by
  obtain ⟨g, hs, hhw, -⟩ := h.settled
  have hat : AtWork c c.ring.hwTail g 0 := by
    refine ⟨hs, Nat.zero_le _, ?_, ?_⟩
    · rw [hs.parts.hwTail, ← g.hwPos_add, hhw]
    · rw [hhw]
      exact List.forall_mem_nil _
  refine ⟨g, hat, hat.finished_eq, ?_⟩
  rw [hat.toDo_eq, hhw, Nat.sub_zero, arc_zero]

end Dma
