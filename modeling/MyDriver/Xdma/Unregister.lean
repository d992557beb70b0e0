import MyDriver.Rawdata.Sguser
import MyDriver.Xdma.Register

/-!
# Unregistering while the poller runs

`poll_routine` looks at the engine state without the lock, and `PktHandler` lets go of the lock
around `UserPutPkt` and refills the ring afterwards. `DmaUnregister` and `descriptor_free` let go of
it as well. `UnregSys` runs one poller against one `DmaUnregister`, section by section.

* `late_refill` — a poller that holds a packet refills the ring after its space is gone.
* `unregister_clean` — **if the poller holds no packet of a receive ring when the space is freed,
  and gets no buffer after the ring was emptied**, everything has been returned and no BD is
  touched.
-/

namespace Dma

open Cyclic Runs

variable {υ : Type}

/-! ## The system -/

/-- Where the poller is with this engine. -/
inductive PollerAt where
  | idle
  /-- The engine was assigned when `poll_routine` looked. -/
  | entered
  /-- Packets are to be given to `UserPutPkt`. -/
  | holding (pkts : List PktBuf)
  | refilling

def PollerAt.ids : PollerAt → List U32
  | .holding pkts => pkts.map PktBuf.bufInfo
  | _ => []

/-- Where `DmaUnregister` is. -/
inductive UnregAt where
  | outside
  /-- The engine was assigned when `DmaUnregister` looked. -/
  | checked
  | resetDone
  /-- `descriptor_free` has packets for `UserPutPkt`, and BDs to free after that. -/
  | forced (pkts : List PktBuf) (bds : ℕ × U32)
  | returned (bds : ℕ × U32)
  /-- What comes next is `pci_free_consistent`. -/
  | ringFreed
  | spaceFreed
  | done
deriving DecidableEq

def UnregAt.ids : UnregAt → List U32
  | .forced pkts _ => pkts.map PktBuf.bufInfo
  | _ => []

/-- Without packets `descriptor_free` goes straight to the end. -/
def UnregAt.afterForce (pkts : List PktBuf) (bds : ℕ × U32) : UnregAt :=
  if pkts = [] then .ringFreed else .forced pkts bds

/-- `Dma_BdRingForceFromHw` is behind. -/
def UnregAt.emptied : UnregAt → Bool
  | .outside | .checked | .resetDone => false
  | _ => true

structure UnregSys (υ : Type) where
  engine : DmaEngine υ
  poller : PollerAt
  unreg : UnregAt
  evs : List Ev

def UnregSys.chan (s : UnregSys υ) : Chan := s.engine.dev.chan

/-- A section that changes the ring only. -/
def UnregSys.onRing (s : UnregSys υ) (c : Chan) (evs : List Ev) : UnregSys υ :=
  { s with engine := { s.engine with dev := { s.engine.dev with chan := c } }, evs := s.evs ++ evs }

/-- A call of `UserPutPkt`. -/
def UnregSys.putPkt (user : UserPtrs υ) (s : UnregSys υ) (pkts : List PktBuf) : UnregSys υ :=
  { s with
    engine := { s.engine with
      dev := { s.engine.dev with user := user.putPkt s.engine.dev.user pkts } }
    evs := s.evs ++ [.putPkt pkts] }

/-- The second locked section of `PktHandler`. -/
def UnregSys.refill (user : UserPtrs υ) (thBhIsr : Bool) (s : UnregSys υ) (bus : ℕ → U32) :
    UnregSys υ :=
  let done := pktHandlerRefill user thBhIsr bus s.engine.dev
  { s with engine := { s.engine with dev := done.1 }, poller := .idle, evs := s.evs ++ done.2 }

inductive PollAct where
  | check
  | retrieve (rd : ℕ → Mem) (bus : ℕ → U32)
  | put
  | refill (bus : ℕ → U32)

inductive UnregAct (υ : Type) where
  | poll (a : PollAct)
  /-- The next section of `DmaUnregister`. -/
  | unregister
  | send (bus : ℕ → U32) (pkts : List PktBuf)
  /-- The user driver changes its state on its own. -/
  | user (u : υ)
  | engine (i : ℕ) (status usrl usrh : U32)

def pollStep (user : UserPtrs υ) (thBhIsr : Bool) (s : UnregSys υ) :
    PollAct → Option (UnregSys υ)
  | .check =>
    match s.poller with
    | .idle =>
      some { s with
        poller := if s.engine.engineState = .userAssigned then .entered else .idle }
    | _ => none
  | .retrieve rd bus =>
    match s.poller with
    | .entered =>
      let got := pktHandlerRetrieve rd s.chan
      let s := s.onRing got.2.1 got.2.2
      match got.1 with
      | none => some { s with poller := .idle }
      -- Without packets the lock is kept until after the refill.
      | some [] => some (s.refill user thBhIsr bus)
      | some pkts => some { s with poller := .holding pkts }
    | _ => none
  | .put =>
    match s.poller with
    | .holding pkts => some { s.putPkt user pkts with poller := .refilling }
    | _ => none
  | .refill bus =>
    match s.poller with
    | .refilling => some (s.refill user thBhIsr bus)
    | _ => none

def unregisterStep (user : UserPtrs υ) (s : UnregSys υ) : Option (UnregSys υ) :=
  match s.unreg with
  | .outside =>
    some { s with unreg := if s.engine.engineState = .userAssigned then .checked else .done }
  | .checked => some { s with engine := unregisterReset s.engine, unreg := .resetDone }
  | .resetDone =>
    let got := descriptorFreeForce s.chan
    some { s.onRing got.2.2.1 got.2.2.2 with unreg := .afterForce got.1 got.2.1 }
  | .forced pkts bds => some { s.putPkt user pkts with unreg := .returned bds }
  | .returned bds => some { s.onRing (descriptorFreeBds bds s.chan) [] with unreg := .ringFreed }
  | .ringFreed => some { s with unreg := .spaceFreed }
  | .spaceFreed => some { s with engine := unregisterDone s.engine, unreg := .done }
  | .done => none

def unregStep (user : UserPtrs υ) (thBhIsr : Bool) (s : UnregSys υ) :
    UnregAct υ → Option (UnregSys υ)
  | .poll a => pollStep user thBhIsr s a
  | .unregister => unregisterStep user s
  | .send bus pkts =>
    -- The user drivers send complete packets.
    if WholePkts pkts then
      let sent := dmaSendPkt .initialized s.engine.engineState thBhIsr bus pkts s.chan
        s.engine.dev.intrCount
      some { s with
        engine := { s.engine with
          dev := { s.engine.dev with chan := sent.2.1, intrCount := sent.2.2.1 } }
        evs := s.evs ++ sent.2.2.2 }
    else none
  | .user u => some { s with engine := { s.engine with dev := { s.engine.dev with user := u } } }
  | .engine i status usrl usrh => some (s.onRing (engineWrite s.chan i status usrl usrh) [])

/-- A registered engine. -/
def unregSys (e : DmaEngine υ) : UnregSys υ where
  engine := e
  poller := .idle
  unreg := .outside
  evs := []

/-- A refill would get nothing: no BD is to spare, or `UserGetPkt` gives no packet. -/
def NoBuffer (user : UserPtrs υ) (d : Dev υ) : Prop :=
  d.chan.ring.isRxChannel = true → d.chan.ring.freeCnt.toNat ≤ 2 ∨
    (user.getPkt d.user (d.chan.ring.freeCnt.toNat - 2)).1 = []

/-- The poller keeps out of the way of `DmaUnregister`. -/
def OutOfTheWay (user : UserPtrs υ) (s : UnregSys υ) : UnregAct υ → Prop
  | .unregister => s.unreg = .ringFreed → s.chan.ring.isRxChannel = true → s.poller.ids = []
  | .poll (.retrieve _ _) | .poll (.refill _) =>
    s.unreg.emptied = true → NoBuffer user s.engine.dev
  | _ => True

instance (user : UserPtrs υ) (d : Dev υ) : Decidable (NoBuffer user d) := by
  unfold NoBuffer
  infer_instance

instance (user : UserPtrs υ) (s : UnregSys υ) (a : UnregAct υ) :
    Decidable (OutOfTheWay user s a) := by
  unfold OutOfTheWay
  split <;> infer_instance

/-- The state with other memory. -/
def UnregSys.withMem (s : UnregSys υ) (m : Mem) : UnregSys υ :=
  { s with
    engine := { s.engine with dev := { s.engine.dev with chan := { s.chan with mem := m } } } }

/-- The section neither reads nor writes a BD: it does the same whatever is in memory, and leaves
memory as it is. -/
def Untouching (user : UserPtrs υ) (thBhIsr : Bool) (s : UnregSys υ) : PollAct → Prop
  | .retrieve rd bus => ∀ m rd', pollStep user thBhIsr (s.withMem m) (.retrieve rd' bus) =
      (pollStep user thBhIsr s (.retrieve rd bus)).map fun s' => s'.withMem m
  | a => ∀ m, pollStep user thBhIsr (s.withMem m) a =
      (pollStep user thBhIsr s a).map fun s' => s'.withMem m

/-! ## An empty ring -/

variable {user : UserPtrs υ} {thBhIsr : Bool}

theorem hwIds_empty {c : Chan} (h : c.ring.hwCnt = 0) : hwIds c = [] := by
  rw [hwIds, hwBds, h]
  rfl

/-- Nothing is retrieved from an empty Hardware group. -/
theorem pktHandlerRetrieve_empty {c : Chan} (h : c.ring.hwCnt = 0) (rd : ℕ → Mem) :
    pktHandlerRetrieve rd c = (some [], c, []) := by
  rw [pktHandlerRetrieve, bdRingFromHw, if_pos h]
  rfl

/-- Nothing is filled without a buffer. -/
theorem pktHandlerRefill_nothing (thBhIsr : Bool) {d : Dev υ} (h : NoBuffer user d) (bus : ℕ → U32) :
    ∃ u evs, pktHandlerRefill user thBhIsr bus d = ({ d with user := u }, evs) ∧
      gotIds evs = [] ∧ putIds evs = [] ∧
      ∀ m, pktHandlerRefill user thBhIsr bus { d with chan := { d.chan with mem := m } } =
        ({ d with chan := { d.chan with mem := m }, user := u }, evs) := by
  unfold pktHandlerRefill setupRecvBuffers
  by_cases hrx : d.chan.ring.isRxChannel = true
  · rw [if_pos hrx]
    by_cases hfull : d.chan.ring.freeCnt.toNat ≤ 2
    · refine ⟨d.user, [], if_pos hfull, rfl, rfl, fun m => ?_⟩
      exact (if_pos hrx).trans (if_pos hfull)
    · have hgot := (h hrx).resolve_left hfull
      obtain ⟨n, hn⟩ : ∃ n, d.chan.ring.freeCnt.toNat - 2 = n + 1 :=
        ⟨d.chan.ring.freeCnt.toNat - 3, by omega⟩
      have hpass : ∀ c : Chan, c.ring = d.chan.ring →
          (if c.ring.isRxChannel = true then
            if c.ring.freeCnt.toNat ≤ 2 then ({ d with chan := c }, [])
            else setupRecvLoop user thBhIsr (c.ring.freeCnt.toNat - 2) bus
              (c.ring.freeCnt.toNat - 2) { d with chan := c }
          else ({ d with chan := c }, [])) =
          ({ d with chan := c, user := (user.getPkt d.user (n + 1)).2 }, [.getPkt []]) := by
        intro c hc
        rw [hc, if_pos hrx, if_neg hfull, hn, setupRecvLoop, recvPass]
        dsimp only
        rw [hn] at hgot
        rw [hgot, List.length_nil, if_pos rfl, if_neg (by rintro ⟨hgoes, -⟩; cases hgoes)]
      refine ⟨(user.getPkt d.user (n + 1)).2, [.getPkt []], ?_, rfl, rfl, fun m => ?_⟩
      · have hd := hpass d.chan rfl
        rw [if_pos hrx] at hd
        exact hd
      · exact hpass { d.chan with mem := m } rfl
  · rw [if_neg hrx]
    exact ⟨d.user, [], rfl, rfl, rfl, fun m => if_neg hrx⟩

theorem descriptorFreeBds_hwCnt (bds : ℕ × U32) (c : Chan) :
    (descriptorFreeBds bds c).ring.hwCnt = c.ring.hwCnt ∧
      (descriptorFreeBds bds c).ring.block = c.ring.block := by
  unfold descriptorFreeBds bdRingFree
  split_ifs <;> exact ⟨rfl, rfl⟩

/-! ## The run -/

/-- **The invariant.** -/
structure UnregInv (isRx : Bool) (s : UnregSys υ) : Prop where
  dir : s.chan.ring.isRxChannel = isRx
  size : s.chan.ring.allCnt.toNat ≤ dmaBdCnt.toNat + 1
  /-- The state of the engine tells how far `DmaUnregister` is. -/
  state : s.engine.engineState = .userAssigned ↔ s.unreg = .outside ∨ s.unreg = .checked
  settled : s.unreg.emptied = false → ∃ g, Settled s.chan g
  empty : s.unreg.emptied = true → s.chan.ring.hwCnt = 0
  /-- A buffer is with the user driver, with the poller, with `descriptor_free` or on the ring. -/
  books : isRx = true → (gotIds s.evs).Perm
    (putIds s.evs ++ (s.poller.ids ++ (s.unreg.ids ++ hwIds s.chan)))
  sending : isRx = false → gotIds s.evs = []

variable {isRx : Bool} {s s' : UnregSys υ}

theorem UnregAt.ids_eq_nil {x : UnregAt} (h : x.emptied = false) : x.ids = [] := by
  cases x with
  | forced => cases h
  | _ => rfl

theorem UnregAt.afterForce_spec (pkts : List PktBuf) (bds : ℕ × U32) :
    (afterForce pkts bds).emptied = true ∧
      (afterForce pkts bds).ids = pkts.map PktBuf.bufInfo := by
  unfold afterForce
  split_ifs with hnil
  · rw [hnil]
    exact ⟨rfl, rfl⟩
  · exact ⟨rfl, rfl⟩

theorem UnregInv.ringCnt (h : UnregInv isRx s) {c : Chan}
    (hblock : c.ring.block = s.chan.ring.block) :
    c.ring.isRxChannel = isRx ∧ c.ring.allCnt.toNat ≤ dmaBdCnt.toNat + 1 := by
  have hcnt : c.ring.block.allCnt = s.chan.ring.block.allCnt := by rw [hblock]
  have hsame : c.ring.allCnt = s.chan.ring.allCnt := hcnt
  refine ⟨(isRx_congr hblock).trans h.dir, ?_⟩
  rw [hsame]
  exact h.size

theorem gotIds_putPkt (user : UserPtrs υ) (s : UnregSys υ) (pkts : List PktBuf) :
    gotIds (s.putPkt user pkts).evs = gotIds s.evs := by
  show gotIds (s.evs ++ [.putPkt pkts]) = _
  rw [gotIds_append]
  exact List.append_nil _

theorem putIds_putPkt (user : UserPtrs υ) (s : UnregSys υ) (pkts : List PktBuf) :
    putIds (s.putPkt user pkts).evs = putIds s.evs ++ pkts.map PktBuf.bufInfo := by
  show putIds (s.evs ++ [.putPkt pkts]) = _
  rw [putIds_append]
  exact congrArg _ (List.append_nil _)

theorem onRing_self (s : UnregSys υ) : s.onRing s.chan [] = s := by
  unfold UnregSys.onRing
  rw [List.append_nil]
  rfl

/-- A section before the ring is emptied, which moves buffers between the ring and the poller. -/
theorem UnregInv.onRing (h : UnregInv isRx s) (hemp : s.unreg.emptied = false) {c : Chan}
    {g : Split} (hs : Settled c g) (hblock : c.ring.block = s.chan.ring.block) {evs : List Ev}
    (hquiet : NoCallback evs) (x : PollerAt)
    (hids : x.ids ++ hwIds c = s.poller.ids ++ hwIds s.chan) :
    UnregInv isRx { s.onRing c evs with poller := x } := by
  obtain ⟨hdir, hsize⟩ := h.ringCnt hblock
  refine ⟨hdir, hsize, h.state, fun _ => ⟨g, hs⟩, fun hne => ?_, fun hrx => ?_, fun hrx => ?_⟩
  · have hsame : s.unreg.emptied = true := hne
    rw [hemp] at hsame
    cases hsame
  · have hbooks := h.books hrx
    rw [UnregAt.ids_eq_nil hemp, List.nil_append, ← hids] at hbooks
    show List.Perm (gotIds (s.evs ++ evs))
      (putIds (s.evs ++ evs) ++ (x.ids ++ (s.unreg.ids ++ hwIds c)))
    rw [gotIds_append, putIds_append, hquiet.1, hquiet.2, UnregAt.ids_eq_nil hemp,
      List.append_nil, List.append_nil, List.nil_append]
    exact hbooks
  · show gotIds (s.evs ++ evs) = []
    rw [gotIds_append, hquiet.1, h.sending hrx]
    rfl

/-- **The refill.** -/
theorem UnregInv.refill (h : UnregInv isRx s) (hpoller : s.poller.ids = [])
    (hout : s.unreg.emptied = true → NoBuffer user s.engine.dev) (bus : ℕ → U32) :
    UnregInv isRx (s.refill user thBhIsr bus) := by
  have hbooks := h.books
  rw [hpoller, List.nil_append] at hbooks
  unfold UnregSys.refill
  by_cases hno : NoBuffer user s.engine.dev
  · obtain ⟨u, evs, heq, hgot, hput, -⟩ := pktHandlerRefill_nothing thBhIsr hno bus
    rw [heq]
    refine ⟨h.dir, h.size, h.state, h.settled, h.empty, fun hrx => ?_, fun hrx => ?_⟩
    · rw [gotIds_append, putIds_append, hgot, hput, List.append_nil, List.append_nil]
      exact hbooks hrx
    · rw [gotIds_append, hgot, List.append_nil]
      exact h.sending hrx
  · -- Buffers come in only while the ring has not been emptied.
    have hemp : s.unreg.emptied = false := by
      rw [← Bool.not_eq_true]
      exact fun hemp => hno (hout hemp)
    have hrecv : isRx = true := by
      rw [← Bool.not_eq_false]
      intro hsend
      apply hno
      intro hrx
      have hdir := h.dir.symm.trans hrx
      rw [hsend] at hdir
      cases hdir
    obtain ⟨g, hs⟩ := h.settled hemp
    obtain ⟨g', l, hs', hbase, hids, hperm⟩ := Settled.refill_ids (d := s.engine.dev) hs user
      thBhIsr bus
    obtain ⟨hdir, hsize⟩ := h.ringCnt (block_of_base hbase)
    refine ⟨hdir, hsize, h.state, fun _ => ⟨g', hs'⟩, fun hne => ?_, fun _ => ?_, fun hsend => ?_⟩
    · rw [hemp] at hne
      cases hne
    · rw [UnregAt.ids_eq_nil hemp, List.nil_append] at hbooks
      have hcat := (hbooks hrecv).append hperm
      rw [gotIds_append, putIds_append, UnregAt.ids_eq_nil hemp]
      apply hcat.trans
      show List.Perm _ (_ ++ ([] ++ ([] ++ hwIds (pktHandlerRefill user thBhIsr bus _).1.chan)))
      rw [List.nil_append, List.nil_append, hids]
      simp only [List.append_assoc]
      exact (List.perm_append_comm_assoc _ _ _).append_left _
    · rw [hrecv] at hsend
      cases hsend

/-- **A section of the poller.** -/
theorem UnregInv.poll (h : UnregInv isRx s) {a : PollAct} (hok : OutOfTheWay user s (.poll a))
    (hstep : pollStep user thBhIsr s a = some s') : UnregInv isRx s' := by
  cases a with
  | check =>
    cases hp : s.poller with
    | idle =>
      have hbooks := h.books
      rw [hp] at hbooks
      rw [pollStep, hp, Option.some.injEq] at hstep
      subst hstep
      refine ⟨h.dir, h.size, h.state, h.settled, h.empty, fun hrx => ?_, h.sending⟩
      dsimp only
      split_ifs
      · exact hbooks hrx
      · exact hbooks hrx
    | _ => simp [pollStep, hp] at hstep
  | retrieve rd bus =>
    cases hp : s.poller with
    | entered =>
      have hbooks := h.books
      rw [hp] at hbooks
      rw [pollStep, hp] at hstep
      dsimp only at hstep
      cases hemp : s.unreg.emptied with
      | true =>
        rw [pktHandlerRetrieve_empty (h.empty hemp), Option.some.injEq] at hstep
        subst hstep
        dsimp only
        rw [onRing_self]
        exact h.refill (by rw [hp]; rfl) hok bus
      | false =>
        obtain ⟨g, hs⟩ := h.settled hemp
        obtain ⟨k, pkts, c', evs, hk, heq, hs', hbase, -, -, hevs, -, -, hids, hloads⟩ :=
          hs.retrieve rd
        obtain ⟨hdir, hsize⟩ := h.ringCnt (block_of_base hbase)
        have htaken : hwIds s.chan = pkts.map PktBuf.bufInfo ++ hwIds c' := by
          rw [hs.parts.hwIds_eq, hs'.parts.hwIds_eq, hloads, hids, ← List.map_append,
            List.take_append_drop]
        have hquiet : NoCallback evs := by
          apply noCallback_of_forall
          intro ev hev
          rw [hevs] at hev
          obtain ⟨i, -, rfl⟩ := mem_arc.1 hev
          exact ⟨_, _, _, Or.inr rfl⟩
        rw [heq] at hstep
        dsimp only at hstep
        cases pkts with
        | nil =>
          rw [Option.some.injEq] at hstep
          subst hstep
          have hinv : UnregInv isRx (s.onRing c' evs) :=
            h.onRing hemp hs' (block_of_base hbase) hquiet s.poller (by rw [htaken]; rfl)
          apply hinv.refill
          · show s.poller.ids = []
            rw [hp]
            rfl
          · intro hne
            have hsame : s.unreg.emptied = true := hne
            rw [hemp] at hsame
            cases hsame
        | cons p ps =>
          rw [Option.some.injEq] at hstep
          subst hstep
          apply h.onRing hemp hs' (block_of_base hbase) hquiet (.holding (p :: ps))
          rw [htaken, hp]
          rfl
    | _ => simp [pollStep, hp] at hstep
  | put =>
    cases hp : s.poller with
    | holding pkts =>
      rw [pollStep, hp, Option.some.injEq] at hstep
      subst hstep
      refine ⟨h.dir, h.size, h.state, h.settled, h.empty, fun hrx => ?_, fun hrx => ?_⟩
      · have hbooks := h.books hrx
        rw [hp] at hbooks
        show List.Perm (gotIds (s.putPkt user pkts).evs)
          (putIds (s.putPkt user pkts).evs ++ ([] ++ (s.unreg.ids ++ hwIds s.chan)))
        rw [gotIds_putPkt, putIds_putPkt, List.append_assoc]
        exact hbooks
      · show gotIds (s.putPkt user pkts).evs = []
        rw [gotIds_putPkt]
        exact h.sending hrx
    | _ => simp [pollStep, hp] at hstep
  | refill bus =>
    cases hp : s.poller with
    | refilling =>
      rw [pollStep, hp, Option.some.injEq] at hstep
      subst hstep
      exact h.refill (by rw [hp]; rfl) hok bus
    | _ => simp [pollStep, hp] at hstep

/-- `Dma_Reset` leaves the BDs alone. -/
theorem Settled.dmaReset {c : Chan} {g : Split} (h : Settled c g) :
    Settled (Dma.dmaReset c) g ∧ hwIds (Dma.dmaReset c) = hwIds c := by
  have hs : Settled (Dma.dmaReset c) g := h.withRunState .dmaSgIsStopped _
  refine ⟨hs, ?_⟩
  rw [hs.parts.hwIds_eq, h.parts.hwIds_eq]
  rfl

/-- `descriptor_free` empties the ring. -/
theorem Settled.descriptorFreeForce {c : Chan} {g : Split} (h : Settled c g)
    (hcnt : c.ring.allCnt.toNat ≤ dmaBdCnt.toNat + 1) :
    ∃ pkts bds c' evs, Dma.descriptorFreeForce c = (pkts, bds, c', evs) ∧
      c'.ring.hwCnt = 0 ∧ c'.ring.block = c.ring.block ∧
      pkts.map PktBuf.bufInfo = hwIds c ∧ NoCallback evs := by
  obtain ⟨c', heq, hparts, hbase⟩ := h.force (h.parts.size ▸ hcnt)
  refine ⟨_, _, c', _, heq, ?_, block_of_base hbase, ?_, ?_⟩
  · apply BitVec.eq_of_toNat_eq
    rw [hparts.hwCnt]
    exact Nat.sub_self _
  · rw [h.parts.hwIds_eq]
    have hids := map_bufInfo_arc (c := c) (g := g) BdWords.forced (fun _ => rfl) le_rfl
    rw [hids, ← length_arc (loadAt c) g.hwPos g.hw, ← hwLoads, List.take_length]
  · apply noCallback_of_forall
    intro ev hev
    obtain ⟨l, -, rfl⟩ := List.mem_map.1 hev
    exact ⟨_, _, _, Or.inr rfl⟩

/-- Once the ring is empty, the sections of `DmaUnregister` only hand over the buffers. -/
theorem UnregInv.after (h : UnregInv isRx s) (hemp : s.unreg.emptied = true) {s' : UnregSys υ}
    (hemp' : s'.unreg.emptied = true) (hcnt : s'.chan.ring.hwCnt = 0)
    (hblock : s'.chan.ring.block = s.chan.ring.block)
    (hstate : s'.engine.engineState ≠ .userAssigned)
    (hpoller : s'.poller = s.poller) (hgot : gotIds s'.evs = gotIds s.evs)
    (hput : (putIds s'.evs ++ s'.unreg.ids).Perm (putIds s.evs ++ s.unreg.ids)) :
    UnregInv isRx s' := by
  obtain ⟨hdir, hsize⟩ := h.ringCnt hblock
  refine ⟨hdir, hsize, ⟨fun hassigned => absurd hassigned hstate, ?_⟩, ?_, fun _ => hcnt,
    fun hrx => ?_, fun hrx => ?_⟩
  · rintro (hu | hu) <;> rw [hu] at hemp' <;> cases hemp'
  · intro hne
    rw [hemp'] at hne
    cases hne
  · have hbooks := h.books hrx
    rw [hwIds_empty (h.empty hemp), List.append_nil] at hbooks
    rw [hwIds_empty hcnt, List.append_nil, hgot, hpoller]
    apply hbooks.trans
    apply (List.perm_append_comm_assoc _ _ _).trans
    exact (hput.symm.append_left _).trans (List.perm_append_comm_assoc _ _ _)
  · rw [hgot]
    exact h.sending hrx

/-- **A section of `DmaUnregister`.** -/
theorem UnregInv.unregister (h : UnregInv isRx s) (hstep : unregisterStep user s = some s') :
    UnregInv isRx s' := by
  have hlater : s.unreg.emptied = true → s.engine.engineState ≠ .userAssigned := by
    intro hemp hassigned
    rcases h.state.1 hassigned with hu | hu <;> rw [hu] at hemp <;> cases hemp
  unfold unregisterStep at hstep
  cases hu : s.unreg with
  | outside =>
    obtain ⟨hdir, hsize, hstate, hsettled, hempty, hbooks, hsending⟩ := h
    rw [hu] at hstep hstate hsettled hbooks
    rw [if_pos (hstate.2 (Or.inl rfl)), Option.some.injEq] at hstep
    subst hstep
    refine ⟨hdir, hsize, ⟨fun _ => Or.inr rfl, fun _ => hstate.2 (Or.inl rfl)⟩, hsettled, ?_,
      hbooks, hsending⟩
    intro hne
    cases hne
  | checked =>
    obtain ⟨hdir, hsize, hstate, hsettled, hempty, hbooks, hsending⟩ := h
    rw [hu] at hstep hsettled hbooks
    rw [Option.some.injEq] at hstep
    subst hstep
    obtain ⟨g, hs⟩ := hsettled rfl
    obtain ⟨hs', hids⟩ := hs.dmaReset
    refine ⟨hdir, hsize, ⟨?_, ?_⟩, fun _ => ⟨g, hs'⟩, ?_, fun hrx => ?_, hsending⟩
    · intro hassigned
      cases hassigned
    · rintro (hne | hne) <;> cases hne
    · intro hne
      cases hne
    · show List.Perm _ (_ ++ (_ ++ (_ ++ hwIds (dmaReset s.chan))))
      rw [hids]
      exact hbooks hrx
  | resetDone =>
    have hstate := h.state
    have hbooks := h.books
    rw [hu] at hstep hstate hbooks
    obtain ⟨g, hs⟩ := h.settled (by rw [hu]; rfl)
    obtain ⟨pkts, bds, c', evs, heq, hcnt, hblock, hids, hquiet⟩ := hs.descriptorFreeForce h.size
    obtain ⟨hdir, hsize⟩ := h.ringCnt hblock
    obtain ⟨hemp, hnext⟩ := UnregAt.afterForce_spec pkts bds
    rw [heq, Option.some.injEq] at hstep
    subst hstep
    refine ⟨hdir, hsize, ⟨fun hassigned => ?_, ?_⟩, fun hne => ?_, fun _ => hcnt, fun hrx => ?_,
      fun hrx => ?_⟩
    · rcases hstate.1 hassigned with hne | hne <;> cases hne
    · rintro (hne | hne) <;> rw [show UnregAt.afterForce pkts bds = _ from hne] at hemp <;>
        cases hemp
    · rw [show (UnregAt.afterForce pkts bds).emptied = false from hne] at hemp
      cases hemp
    · show List.Perm (gotIds (s.evs ++ evs))
        (putIds (s.evs ++ evs) ++ (s.poller.ids ++ ((UnregAt.afterForce pkts bds).ids ++ hwIds c')))
      rw [gotIds_append, putIds_append, hquiet.1, hquiet.2, List.append_nil, List.append_nil,
        hwIds_empty hcnt, hnext, hids, List.append_nil]
      exact hbooks hrx
    · show gotIds (s.evs ++ evs) = []
      rw [gotIds_append, hquiet.1, h.sending hrx]
      rfl
  | forced pkts bds =>
    rw [hu] at hstep
    rw [Option.some.injEq] at hstep
    subst hstep
    have hemp : s.unreg.emptied = true := by rw [hu]; rfl
    refine h.after hemp rfl (h.empty hemp) rfl (hlater hemp) rfl (gotIds_putPkt user s pkts) ?_
    rw [hu]
    show List.Perm (putIds (s.putPkt user pkts).evs ++ []) _
    rw [putIds_putPkt, List.append_nil]
    rfl
  | returned bds =>
    rw [hu] at hstep
    rw [Option.some.injEq] at hstep
    subst hstep
    have hemp : s.unreg.emptied = true := by rw [hu]; rfl
    obtain ⟨hcnt, hblock⟩ := descriptorFreeBds_hwCnt bds s.chan
    have hevs : (s.onRing (descriptorFreeBds bds s.chan) []).evs = s.evs := List.append_nil _
    refine h.after hemp rfl (hcnt.trans (h.empty hemp)) hblock (hlater hemp) rfl ?_ ?_
    · exact congrArg gotIds hevs
    · rw [hu]
      show List.Perm (putIds (s.onRing (descriptorFreeBds bds s.chan) []).evs ++ []) _
      rw [hevs]
      rfl
  | ringFreed =>
    rw [hu] at hstep
    rw [Option.some.injEq] at hstep
    subst hstep
    have hemp : s.unreg.emptied = true := by rw [hu]; rfl
    refine h.after hemp rfl (h.empty hemp) rfl (hlater hemp) rfl rfl ?_
    rw [hu]
    rfl
  | spaceFreed =>
    rw [hu] at hstep
    rw [Option.some.injEq] at hstep
    subst hstep
    have hemp : s.unreg.emptied = true := by rw [hu]; rfl
    refine h.after hemp rfl (h.empty hemp) rfl (fun hassigned => by cases hassigned) rfl rfl ?_
    rw [hu]
    rfl
  | done =>
    rw [hu] at hstep
    cases hstep

/-- `DmaSendPkt` does nothing for an engine that is not assigned. -/
theorem dmaSendPkt_unassigned {engineState : DmaState} (h : engineState ≠ .userAssigned)
    (thBhIsr : Bool) (bus : ℕ → U32) (pkts : List PktBuf) (c : Chan) (intrCount : U32) :
    dmaSendPkt .initialized engineState thBhIsr bus pkts c intrCount = (0, c, intrCount, []) := by
  unfold dmaSendPkt
  rw [if_pos (Or.inr (Or.inr (Or.inl h)))]

theorem UnregInv.send (h : UnregInv isRx s) {pkts : List PktBuf} (hwhole : WholePkts pkts)
    (thBhIsr : Bool) (bus : ℕ → U32) :
    let sent := dmaSendPkt .initialized s.engine.engineState thBhIsr bus pkts s.chan
      s.engine.dev.intrCount
    UnregInv isRx { s with
      engine := { s.engine with
        dev := { s.engine.dev with chan := sent.2.1, intrCount := sent.2.2.1 } }
      evs := s.evs ++ sent.2.2.2 } := by
  intro sent
  have hnothing : sent = (0, s.chan, s.engine.dev.intrCount, []) → UnregInv isRx { s with
      engine := { s.engine with
        dev := { s.engine.dev with chan := sent.2.1, intrCount := sent.2.2.1 } }
      evs := s.evs ++ sent.2.2.2 } := by
    intro heq
    rw [heq]
    dsimp only
    rw [List.append_nil]
    exact h
  by_cases hassigned : s.engine.engineState = .userAssigned
  · cases hdir : isRx with
    | true =>
      rw [hdir] at h hnothing
      apply hnothing
      show dmaSendPkt .initialized s.engine.engineState thBhIsr bus pkts s.chan _ = _
      rw [hassigned]
      exact dmaSendPkt_rx h.dir thBhIsr bus pkts _
    | false =>
      rw [hdir] at h
      have hemp : s.unreg.emptied = false := by
        rcases h.state.1 hassigned with hu | hu <;> rw [hu] <;> rfl
      obtain ⟨g, hs⟩ := h.settled hemp
      obtain ⟨g', l, hs', hbase, -, hquiet⟩ := hs.sendPkt_ids hwhole thBhIsr bus
        s.engine.dev.intrCount
      have hsent : dmaSendPkt .initialized .userAssigned thBhIsr bus pkts s.chan
          s.engine.dev.intrCount = sent := by
        rw [← hassigned]
      rw [hsent] at hs' hbase hquiet
      obtain ⟨hrx, hsize⟩ := h.ringCnt (block_of_base hbase)
      refine ⟨hrx, hsize, h.state, fun _ => ⟨g', hs'⟩, fun hne => ?_, fun hrecv => ?_, fun _ => ?_⟩
      · have hsame : s.unreg.emptied = true := hne
        rw [hemp] at hsame
        cases hsame
      · cases hrecv
      · show gotIds (s.evs ++ sent.2.2.2) = []
        rw [gotIds_append, h.sending rfl, hquiet.1]
        rfl
  · exact hnothing (dmaSendPkt_unassigned hassigned thBhIsr bus pkts _ _)

/-- **One step.** -/
theorem unregStep_inv {a : UnregAct υ} (h : UnregInv isRx s) (hok : OutOfTheWay user s a)
    (hstep : unregStep user thBhIsr s a = some s') : UnregInv isRx s' := by
  cases a with
  | poll a => exact h.poll hok hstep
  | unregister => exact h.unregister hstep
  | send bus pkts =>
    rw [unregStep] at hstep
    split_ifs at hstep with hwhole
    rw [Option.some.injEq] at hstep
    subst hstep
    exact h.send hwhole thBhIsr bus
  | user u =>
    rw [unregStep, Option.some.injEq] at hstep
    subst hstep
    exact ⟨h.dir, h.size, h.state, h.settled, h.empty, h.books, h.sending⟩
  | engine i status usrl usrh =>
    rw [unregStep, Option.some.injEq] at hstep
    subst hstep
    cases hemp : s.unreg.emptied with
    | false =>
      obtain ⟨g, hs⟩ := h.settled hemp
      obtain ⟨hs', hloads⟩ := hs.engineWrite i status usrl usrh
      apply h.onRing hemp hs' rfl ⟨rfl, rfl⟩ s.poller
      rw [hs'.parts.hwIds_eq, hloads, ← hs.parts.hwIds_eq]
    | true =>
      have hevs : (s.onRing (engineWrite s.chan i status usrl usrh) []).evs = s.evs :=
        List.append_nil _
      refine ⟨h.dir, h.size, h.state, fun hne => ?_, h.empty, fun hrx => ?_, fun hrx => ?_⟩
      · have hsame : s.unreg.emptied = false := hne
        rw [hemp] at hsame
        cases hsame
      · have hbooks := h.books hrx
        have hgone : hwIds (engineWrite s.chan i status usrl usrh) = [] :=
          hwIds_empty (h.empty hemp)
        rw [hwIds_empty (h.empty hemp), ← hgone] at hbooks
        rw [hevs]
        exact hbooks
      · rw [hevs]
        exact h.sending hrx

/-- After the ring was emptied, a poller that gets no buffer touches no BD. -/
theorem UnregInv.untouching (h : UnregInv isRx s) (hemp : s.unreg.emptied = true) {a : PollAct}
    (hok : OutOfTheWay user s (.poll a)) : Untouching user thBhIsr s a := by
  have hrefill : NoBuffer user s.engine.dev → ∀ bus m,
      (s.withMem m).refill user thBhIsr bus = (s.refill user thBhIsr bus).withMem m := by
    intro hno bus m
    obtain ⟨u, evs, heq, -, -, hmem⟩ := pktHandlerRefill_nothing thBhIsr hno bus
    unfold UnregSys.refill UnregSys.withMem
    dsimp only
    rw [heq]
    dsimp only
    rw [show s.chan = s.engine.dev.chan from rfl, hmem m]
    rfl
  cases a with
  | check =>
    intro m
    cases hp : s.poller <;> simp [pollStep, UnregSys.withMem, UnregSys.chan, hp]
  | retrieve rd bus =>
    intro m rd'
    cases hp : s.poller with
    | entered =>
      have hcnt : (s.withMem m).chan.ring.hwCnt = 0 := h.empty hemp
      have hp' : (s.withMem m).poller = .entered := hp
      rw [pollStep, pollStep, hp, hp']
      dsimp only
      rw [pktHandlerRetrieve_empty hcnt, pktHandlerRetrieve_empty (h.empty hemp)]
      dsimp only
      rw [onRing_self, onRing_self, hrefill (hok hemp)]
      rfl
    | _ => simp [pollStep, UnregSys.withMem, hp]
  | put =>
    intro m
    cases hp : s.poller <;> simp [pollStep, UnregSys.withMem, UnregSys.putPkt, UnregSys.chan, hp]
  | refill bus =>
    intro m
    cases hp : s.poller with
    | refilling =>
      have hp' : (s.withMem m).poller = .refilling := hp
      rw [pollStep, pollStep, hp, hp']
      dsimp only
      rw [hrefill (hok hemp)]
      rfl
    | _ => simp [pollStep, UnregSys.withMem, hp]

/-- **A poller out of the way.** When `pci_free_consistent` is called, the ring is empty, and all
buffers have been returned exactly if the poller holds none; after it no section of the poller
touches a BD. -/
theorem unregister_clean (user : UserPtrs υ) (thBhIsr isRx : Bool) (e : DmaEngine υ)
    (hstart : Started isRx e.dev.chan)
    (hcnt : e.dev.chan.ring.allCnt.toNat ≤ dmaBdCnt.toNat + 1)
    (hassigned : e.engineState = .userAssigned) (acts : List (UnregAct υ)) (s : UnregSys υ)
    (hok : Along (unregStep user thBhIsr) (OutOfTheWay user) (unregSys e) acts)
    (hrun : run (unregStep user thBhIsr) (unregSys e) acts = some s) :
    (s.unreg = .ringFreed → s.chan.ring.hwCnt = 0 ∧ (isRx = false → gotIds s.evs = []) ∧
      (isRx = true → ((gotIds s.evs).Perm (putIds s.evs) ↔ s.poller.ids = []))) ∧
    (s.unreg = .spaceFreed ∨ s.unreg = .done → ∀ a, OutOfTheWay user s (.poll a) →
      Untouching user thBhIsr s a) := by
  have hinv : UnregInv isRx s := by
    refine run_inv (fun s a s' h hok hstep => unregStep_inv h hok hstep) ?_ hok hrun
    obtain ⟨g, hs, hhw, hdir⟩ := hstart.settled
    refine ⟨hdir, hcnt, ⟨fun _ => Or.inl rfl, fun _ => hassigned⟩, fun _ => ⟨g, hs⟩,
      fun hne => (by cases hne), fun _ => ?_, fun _ => rfl⟩
    show List.Perm [] ([] ++ ([] ++ ([] ++ hwIds e.dev.chan)))
    rw [hs.parts.hwIds_eq, hwLoads, hhw]
    exact .refl _
  refine ⟨fun hu => ?_, fun hu a hok => ?_⟩
  · have hemp : s.unreg.emptied = true := by rw [hu]; rfl
    refine ⟨hinv.empty hemp, hinv.sending, fun hrx => ?_⟩
    have hbooks := hinv.books hrx
    rw [hwIds_empty (hinv.empty hemp), hu] at hbooks
    constructor
    · intro hall
      have hlen := hbooks.length_eq.symm.trans hall.length_eq
      simp only [List.length_append] at hlen
      exact List.eq_nil_of_length_eq_zero (by omega)
    · intro hnone
      rw [hnone] at hbooks
      simpa [UnregAt.ids] using hbooks
  · apply hinv.untouching ?_ hok
    rcases hu with hu | hu <;> rw [hu] <;> rfl

/-! ## A poller in the way -/

/-- The engine of the raw data driver, registered. -/
def rxEngine : DmaEngine RawData where
  dev := twoPages
  engineState := .userAssigned
  descSpacePA := 0
  descSpaceVA := 0x2000
  descSpaceSize := 0x140
  delta := 0

/-- The poller fills the ring, the engine fills the first page, and the poller retrieves it. -/
def onePage : List (UnregAct RawData) :=
  [.poll .check, .poll (.retrieve (fun _ _ => 0) fun i => BitVec.ofNat 32 (0x5000 * i)),
    .engine 0 0x4D000064 0 0, .poll .check,
    .poll (.retrieve (fun _ x => if x = 0x2000 then 0x4D000064 else 0) fun _ => 0)]

/-- `DmaUnregister` up to its call of `pci_free_consistent`. -/
def upToFree : List (UnregAct RawData) := List.replicate 5 .unregister

theorem unregister_clean_onePage : ∃ s,
    run (unregStep (rxUser 9) false) (unregSys rxEngine)
      (onePage ++ [.poll .put, .poll (.refill fun _ => 0)] ++ upToFree) = some s ∧
    (s.unreg = .ringFreed → s.chan.ring.hwCnt = 0 ∧ (true = false → gotIds s.evs = []) ∧
      (true = true → ((gotIds s.evs).Perm (putIds s.evs) ↔ s.poller.ids = []))) ∧
    (s.unreg = .spaceFreed ∨ s.unreg = .done → ∀ a, OutOfTheWay (rxUser 9) s (.poll a) →
      Untouching (rxUser 9) false s a) := by
  have hok : Along (unregStep (rxUser 9) false) (OutOfTheWay (rxUser 9)) (unregSys rxEngine)
      (onePage ++ [.poll .put, .poll (.refill fun _ => 0)] ++ upToFree) := by
    decide +kernel
  exact ⟨_, rfl, unregister_clean (rxUser 9) false true rxEngine
    ⟨initializedChan true fun _ => 0, 0, 0x2000, 64, 5, rfl, by decide, by decide, rfl⟩ (by decide)
    rfl _ _ hok rfl⟩

/-- **A late refill.** `DmaUnregister` runs while the poller holds a page. At the call of
`pci_free_consistent` that page has not been returned; afterwards the poller returns it, gets it
back and writes it into the freed ring. -/
theorem late_refill : ∃ s s',
    run (unregStep (rxUser 9) false) (unregSys rxEngine) (onePage ++ upToFree) = some s ∧
    s.unreg = .ringFreed ∧ (gotIds s.evs).length = 2 ∧ (putIds s.evs).length = 1 ∧
    run (unregStep (rxUser 9) false) s
      [.unregister, .poll .put, .poll (.refill fun _ => 0x7000)] = some s' ∧
    s'.unreg = .spaceFreed ∧ hwIds s'.chan = [0x21000, 0x20000] := by
  refine ⟨_, _, rfl, rfl, rfl, rfl, rfl, rfl, ?_⟩
  decide +kernel

end Dma
