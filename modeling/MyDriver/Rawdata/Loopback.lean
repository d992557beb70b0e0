import MyDriver.Rawdata.Board
import MyDriver.Rawdata.Verify

/-!
# A loopback test

The raw data driver, its two rings and the board in loopback, as one system: `poll_routine` starts
calls of `DmaSetupTransmit`, the poller serves both rings, `mySetState` starts and stops the test,
and the board moves packets from one ring to the other at any time, also while a poll is reading
status words. The commands are those of `xdma_user.h` for a loopback test (`LoopMode`).

* `loopStep` — the system, with the packets that have been given to `DmaSendPkt` and those that
  `myPutRxPkt` has looked at.
* `LoopSys.inFlight` — where the packets between the two are.
* `loopback_conserves` — **no packet is lost, duplicated, reordered or changed**.
-/

namespace Dma

open Cyclic Runs Framing

/-! ## The system -/

def testInProgress : U32 := 0x00004000

/-- Where `poll_routine` is. -/
inductive Ticker where
  | idle
  /-- It has seen that a test was started, -/
  | seen
  /-- and has said that it is in progress. -/
  | first
  /-- Its loop may call `DmaSetupTransmit` another `times` times. -/
  | more (times : ℕ)
deriving DecidableEq

/-- The BDs that the engines work on, what has been read of the packet that is being read, the
packets that have been read, and what is left of the one that is being written. -/
structure Board where
  txBd : U32
  rxBd : U32
  sending : List Byte
  fifo : List (List Byte)
  receiving : Option (List Byte)

structure LoopSys where
  sys : RawSys
  test : TestVars
  errCnt : U32
  rxBufCnt : U32
  page : Pages
  ticker : Ticker
  board : Board
  /-- What has been given to the hardware. -/
  sent : List (List Byte)
  /-- What has been given to `UserPutPkt`. -/
  got : List (List Byte)
  /-- How much had been sent when the last test was started. -/
  before : ℕ

inductive BoardAct where
  | s2c (status usrl usrh : U32)
  | c2s (free usrl usrh : U32)

inductive LoopAct where
  | board (a : BoardAct)
  | tick
  | take
  | send
  | giveBack
  /-- The board takes the steps `during[t]` just before the word read `t`. -/
  | pollTx (during : List (List BoardAct))
  | pollRx (during : List (List BoardAct)) (bus : ℕ → U32)
  | put
  | refill (bus : ℕ → U32)
  | setState (hndl : U32) (ustate : UserState) (privdata : U32)

/-- The packets that `DmaSendPkt` has accepted. -/
def Sender.queued : Sender → List PktBuf
  | .sent pkts _ result => pkts.take result
  | _ => []

namespace LoopSys

variable (m : BusMap)

/-- The transmit engine reads a fragment. In loopback a packet goes to the FIFO. -/
def s2c (status usrl usrh : U32) (s : LoopSys) : LoopSys :=
  if s.board.txBd = s.sys.tx.ring.hwTail then s
  else
    let f := txFrag m s.page (bdWords s.sys.tx.mem s.board.txBd)
    let data := s.board.sending ++ f.data
    { s with
      sys := { s.sys with
        tx := completeBd s.sys.tx s.board.txBd (status ||| bdCompMask) usrl usrh }
      board := { s.board with
        txBd := bdRingNext s.sys.tx.ring s.board.txBd
        sending := if f.last = true then [] else data
        fifo :=
          if f.last = true ∧ Flag (s.test.reg txConfigAddress) loopback then
            s.board.fifo ++ [data]
          else s.board.fifo } }

/-- The receive engine fills a buffer. -/
def c2s (free usrl usrh : U32) (s : LoopSys) : LoopSys :=
  if s.board.rxBd = s.sys.rx.ring.hwTail then s
  else
    match next s.board.receiving s.board.fifo with
    | none => s
    | some (bytes, fifo) =>
      let w := bdWords s.sys.rx.mem s.board.rxBd
      let data := bytes.take (w.ctrl &&& bdBuflMask).toNat
      let left := bytes.drop (w.ctrl &&& bdBuflMask).toNat
      { s with
        sys := { s.sys with
          rx := completeBd s.sys.rx s.board.rxBd (rxStatus free data.length (decide (left = [])))
            usrl usrh }
        page := Function.update s.page (m.toCpu w.bufal)
          (writeBytes (s.page (m.toCpu w.bufal)) data)
        board := { s.board with
          rxBd := bdRingNext s.sys.rx.ring s.board.rxBd
          fifo := fifo
          receiving := if left = [] then none else some left } }

def boardStep (s : LoopSys) : BoardAct → LoopSys
  | .s2c status usrl usrh => s.s2c m status usrl usrh
  | .c2s free usrl usrh => s.c2s m free usrl usrh

def boardRun (s : LoopSys) (as : List BoardAct) : LoopSys := as.foldl (boardStep m) s

/-- `poll_routine` looks at the test mode, and takes the lock to change it. -/
def tick (s : LoopSys) : LoopSys :=
  let mode := s.test.rawTestMode
  if s.ticker = .seen then
    { s with
      test := { s.test with rawTestMode := mode &&& ~~~testStart ||| testInProgress }
      ticker := .first }
  else if Flag mode testStart ∧ Flag mode (enablePktchk ||| enableLoopback) then
    { s with ticker := .seen }
  else if Flag mode testInProgress then { s with ticker := .more 9 }
  else s

/-- A call of `DmaSetupTransmit` for `num` packets, up to `DmaSendPkt`; when it returns 0 the loop
of `poll_routine` ends. -/
def setupTransmit (num : ℕ) (ticker : Ticker) (s : LoopSys) : Option LoopSys :=
  (rawStep s.sys (.take num s.test.rawMaxPktSize.toNat)).map fun sys =>
    { s with
      sys := sys
      page := setupTransmitFormat s.sys.raw.handle0 num s.test.rawMaxPktSize.toNat s.sys.raw s.page
      ticker := if sys.sender.isIdle = true then .idle else ticker }

/-- The calls made in the refill. -/
def refillEvs (s : RawSys) (bus : ℕ → U32) : List Ev :=
  (pktHandlerRefill (rxUser s.raw.handle2) false bus
    { chan := s.rx, intrCount := 0, user := s.raw }).2

end LoopSys

/-- The commands of a loopback test: combinations of `TEST_START` and `ENABLE_LOOPBACK`, and no
start without loopback. -/
def LoopMode (mode : U32) : Prop :=
  mode &&& ~~~(testStart ||| enableLoopback) = 0 ∧ (Flag mode testStart → Flag mode enableLoopback)

instance (mode : U32) : Decidable (LoopMode mode) := by unfold LoopMode; infer_instance

def loopStep (m : BusMap) (s : LoopSys) : LoopAct → Option LoopSys
  | .board a => some (s.boardStep m a)
  | .tick =>
    if (s.ticker = .idle ∨ s.ticker = .seen) ∧ s.sys.sender.isIdle = true then some s.tick else none
  | .take =>
    match s.ticker with
    | .first => s.setupTransmit 1 (.more 0)
    | .more (times + 1) =>
      if s.sys.raw.txBufs.totalNum ≤ s.sys.raw.txBufs.allocNum then some { s with ticker := .idle }
      else s.setupTransmit 100 (.more times)
    | _ => none
  | .send =>
    match s.sys.sender with
    | .taken pkts _ =>
      (rawStep s.sys (.send fun i => m.toBus (pkts.getD i default).pktBuf)).map fun sys =>
        { s with
          sys := sys
          sent := s.sent ++ packets [] (sys.sender.queued.map (pktFrag s.page)) }
    | _ => none
  | .giveBack =>
    match s.sys.sender with
    | .sent pkts _ result =>
      (rawStep s.sys .giveBack).map fun sys =>
        { s with
          sys := sys
          ticker := if result = pkts.length ∧ s.ticker ≠ .more 0 then s.ticker else .idle }
    | _ => none
  | .pollTx during =>
    let s' := s.boardRun m during.flatten
    (rawStep s'.sys (.pollTx fun t =>
      (s.boardRun m (during.take (t + 1)).flatten).sys.tx.mem)).map fun sys => { s' with sys := sys }
  | .pollRx during bus =>
    let s' := s.boardRun m during.flatten
    let rd := fun t => (s.boardRun m (during.take (t + 1)).flatten).sys.rx.mem
    let got := pktHandlerRetrieve rd s'.sys.rx
    -- Without packets the refill follows at once.
    if got.1 = some [] → MapsTo m (LoopSys.refillEvs { s'.sys with rx := got.2.1 } bus) then
      (rawStep s'.sys (.pollRx rd bus)).map fun sys => { s' with sys := sys }
    else none
  | .put =>
    match s.sys.poller with
    | .putRx pkts =>
      (rawStep s.sys .put).map fun sys =>
        let v := putRxLoop s.page pkts
          { errCnt := s.errCnt, rxSeqNo := s.test.rxSeqNo, rxBufCnt := s.rxBufCnt }
        { s with
          sys := sys
          test := { s.test with rxSeqNo := v.rxSeqNo }
          errCnt := v.errCnt
          rxBufCnt := v.rxBufCnt
          got := s.got ++ packets [] (pkts.map (pktFrag s.page)) }
    | _ => (rawStep s.sys .put).map fun sys => { s with sys := sys }
  | .refill bus =>
    if MapsTo m (LoopSys.refillEvs s.sys bus) then
      (rawStep s.sys (.refill bus)).map fun sys => { s with sys := sys }
    else none
  | .setState hndl ustate privdata =>
    if LoopMode ustate.testMode then
      let done := mySetState hndl ustate privdata s.sys.raw s.test
      some { s with
        sys := { s.sys with raw := done.2.1 }
        test := done.2.2
        before := if ResetsSeqNo hndl ustate privdata s.sys.raw then s.sent.length else s.before }
    else none

/-- The system of `registeredSys`, after `myInit`. -/
def registeredLoop (sys : RawSys) (reg : U32 → U32) (page : Pages) : LoopSys where
  sys := { sys with raw := (myInit sys.raw (loadedTest reg)).1 }
  test := (myInit sys.raw (loadedTest reg)).2
  errCnt := 0
  rxBufCnt := 0
  page := page
  ticker := .idle
  board := {
    txBd := sys.tx.ring.hwTail
    rxBd := sys.rx.ring.hwTail
    sending := []
    fifo := []
    receiving := none }
  sent := []
  got := []
  before := 0

/-! ## What is in flight -/

namespace LoopSys

variable (m : BusMap) (s : LoopSys)

def unread : List (Frag Byte) := Dma.unread m s.page s.sys.tx s.board.txBd

def arrived : List (Frag Byte) := Dma.arrived m s.page s.sys.poller.rxPkts s.sys.rx s.board.rxBd

/-- The packets that have been sent and not been received, oldest first: those in the buffers of the
receive ring, the one that is being written, those in the FIFO, and those in the buffers of the
transmit ring. -/
def inFlight : List (List Byte) :=
  underway (s.arrived m) s.board.receiving s.board.fifo s.board.sending (s.unread m)

end LoopSys

/-! ## Whose page it is -/

section Pages

variable {bufVA : ℕ → U32} {n : ℕ} {b b' : Buffer} {va : U32}

theorem Pooled.window_mem (h : Pooled bufVA n b) (hva : va ∈ window b) : va ∈ pages bufVA n := by
  rw [h.window_eq] at hva
  obtain ⟨i, hi, rfl⟩ := mem_arc.1 hva
  have hle := h.le
  exact List.mem_map_of_mem (List.mem_range.2 (Nat.mod_lt _ (by omega)))

/-- The buffer comes from the pool. -/
theorem Pooled.alloc_mem (h : Pooled bufVA n b) (hok : Dma.allocBuf b = some (va, b')) :
    va ∈ pages bufVA n := by
  obtain ⟨hpooled, hw⟩ := h.allocBuf hok
  exact hpooled.window_mem (by rw [hw]; exact List.mem_append_right _ (List.mem_singleton_self va))

/-- The pages of other pools are not written. -/
theorem formatFrags_other (h : Pooled bufVA n b) (hva : va ∉ pages bufVA n) (txSeqNo : BitVec 16)
    (pktsize bound total fragment : ℕ) (page : Pages) :
    formatFrags txSeqNo pktsize bound total fragment b page va = page va := by
  induction bound generalizing total fragment b page with
  | zero => rfl
  | succ bound ih =>
    rw [formatFrags]
    by_cases hlt : total < pktsize
    · rw [if_pos hlt]
      cases hok : allocBuf b with
      | none => rfl
      | some got =>
        obtain ⟨va', b'⟩ := got
        have hne : va ≠ va' := by
          rintro rfl
          exact hva (h.alloc_mem hok)
        dsimp only
        rw [ih (h.allocBuf hok).1, Function.update_of_ne hne]
    · rw [if_neg hlt]

theorem formatPackets_other (h : Pooled bufVA n b) (hva : va ∉ pages bufVA n) (pktsize num : ℕ)
    (txSeqNo : BitVec 16) (page : Pages) :
    formatPackets pktsize num b txSeqNo page va = page va := by
  induction num generalizing b txSeqNo page with
  | zero => rfl
  | succ num ih =>
    obtain ⟨htook, -, -⟩ := (fragLoop_all txSeqNo pktsize b).spec h (Nat.zero_le _)
    have hfrags := formatFrags_other h hva txSeqNo pktsize pktsize 0 0 page
    rw [formatPackets]
    split_ifs with hlt
    · exact hfrags
    · rw [ih htook.pooled, hfrags]

end Pages

theorem Frags.onPage {txSeqNo : BitVec 16} {pktsize total fragment : ℕ} {b : Buffer}
    {frags : ℕ × List PktBuf × Buffer} (h : Frags txSeqNo pktsize total fragment b frags) :
    ∀ p ∈ frags.2.1, p.OnPage := by
  induction h with
  | stop _ => exact List.forall_mem_nil _
  | dry _ _ => exact List.forall_mem_nil _
  | @next total fragment bufsize _ _ _ _ hlt _ hsize _ ih =>
    have hval : (BitVec.ofNat 32 bufsize).toNat = bufsize := by
      unfold bufSize at hsize
      rw [BitVec.toNat_ofNat, Nat.mod_eq_of_lt (by omega)]
    refine List.forall_mem_cons.2 ⟨⟨rfl, ?_, ?_⟩, ih⟩
    · show (BitVec.ofNat 32 bufsize).toNat ≤ bufSize
      omega
    · show 0 < (BitVec.ofNat 32 bufsize).toNat
      unfold bufSize at hsize
      omega

theorem Packs.onPage {pktsize num : ℕ} {txSeqNo : BitVec 16} {b b' : Buffer}
    {ps : List (List PktBuf)} (h : Packs pktsize num txSeqNo b ps b') :
    ∀ p ∈ ps.flatten, p.OnPage := by
  induction h with
  | stop => exact List.forall_mem_nil _
  | short _ _ => exact List.forall_mem_nil _
  | next hfrags _ _ ih =>
    intro p hp
    rw [List.flatten_cons] at hp
    exact (List.mem_append.1 hp).elim ((Frags.of_eq hfrags).onPage p) (ih p)

/-! ## The invariant -/

/-- No test has been started. -/
structure LoopSys.Unused (m : BusMap) (s : LoopSys) : Prop where
  unread : s.unread m = []
  sender : s.sys.sender.isIdle = true
  ticker : s.ticker = .idle
  mode : ¬ Flag s.test.rawTestMode (testStart ||| testInProgress)

/-- The board is in loopback, and the next stop will leave it there. -/
structure LoopSys.Armed (s : LoopSys) : Prop where
  reg : Flag (s.test.reg txConfigAddress) loopback
  testmode : Flag s.test.testmode loopback

/-- **The invariant of a loopback test.** -/
structure LoopInv (m : BusMap) (txVA rxVA : ℕ → U32) (numTx numRx : ℕ) (s : LoopSys) : Prop where
  raw : RawInv txVA rxVA numTx numRx s.sys
  tx : TxLine m s.page s.sys.tx s.board.txBd s.board.sending
  rx : RxLine m s.page s.sys.poller.rxPkts s.sys.rx s.board.rxBd s.board.receiving
  sender : ∀ pkts origseqno, s.sys.sender = .taken pkts origseqno → ∀ p ∈ pkts, p.OnPage
  fifo : ∀ p ∈ s.board.fifo, p ≠ []
  mode : s.Armed ∨ s.Unused m
  flow : s.sent = s.got ++ s.inFlight m

variable {m : BusMap} {txVA rxVA : ℕ → U32} {numTx numRx : ℕ} {s s' : LoopSys}

/-- The pages in the hands of the driver, of the board and of the user are all different. -/
theorem LoopInv.nodup (h : LoopInv m txVA rxVA numTx numRx s)
    (hpages : (pages txVA numTx ++ pages rxVA numRx).Nodup) :
    (window s.sys.raw.txBufs ++ (ids s.sys.poller.rxPkts ++
      (finished s.sys.rx s.board.rxBd).map BdWords.vbufal ++
      (toDo s.sys.rx s.board.rxBd).map BdWords.vbufal)).Nodup := by
  obtain ⟨g, k, hat⟩ := h.rx.work
  have hlock := h.raw.lockStep.rx
  rw [hat.hwIds_eq, List.map_append, ← List.append_assoc] at hlock
  rw [← hlock]
  obtain ⟨-, -, ⟨g₁, htx⟩, ⟨g₂, hrx⟩⟩ := h.raw
  have hpermTx := htx.pooled.perm (List.nodup_append.1 hpages).1
  have hpermRx := hrx.pooled.perm (List.nodup_append.1 hpages).2.1
  exact (((hpermTx.append hpermRx).nodup_iff).2 hpages).sublist
    ((List.sublist_append_left _ _).append (List.sublist_append_left _ _))

/-- What the transmit engine has still to read is out of the pool. -/
theorem LoopInv.unread_window (h : LoopInv m txVA rxVA numTx numRx s) :
    ∀ w ∈ toDo s.sys.tx s.board.txBd, w.vbufal ∈ window s.sys.raw.txBufs := by
  intro w hw
  obtain ⟨g, k, hat⟩ := h.tx.work
  rw [h.raw.lockStep.tx, hat.hwIds_eq]
  refine List.mem_append_left _ (List.mem_append_right _ ?_)
  exact List.mem_map_of_mem (List.mem_append_right _ hw)

/-- The receive engine has a page of its own. -/
theorem LoopInv.writes_apart (h : LoopInv m txVA rxVA numTx numRx s)
    (hpages : (pages txVA numTx ++ pages rxVA numRx).Nodup)
    (hready : s.board.rxBd ≠ s.sys.rx.ring.hwTail) :
    let va := (bdWords s.sys.rx.mem s.board.rxBd).vbufal
    (∀ w ∈ toDo s.sys.tx s.board.txBd, w.vbufal ≠ va) ∧ va ∉ window s.sys.raw.txBufs ∧
      (∀ p ∈ s.sys.poller.rxPkts, p.bufInfo ≠ va) ∧
      ∀ w ∈ finished s.sys.rx s.board.rxBd, w.vbufal ≠ va := by
  intro va
  obtain ⟨g, k, hat⟩ := h.rx.work
  have hnodup := h.nodup hpages
  rw [(hat.ready hready).2, List.map_cons, ← List.append_assoc, List.nodup_middle,
    List.nodup_cons] at hnodup
  have hnot := hnodup.1
  simp only [List.mem_append, not_or] at hnot
  obtain ⟨⟨htx, hheld, hfin⟩, -⟩ := hnot
  refine ⟨fun w hw heq => htx ?_, htx, fun p hp heq => hheld ?_, fun w hw heq => hfin ?_⟩
  · have hin := h.unread_window w hw
    rwa [heq] at hin
  · have hin : p.bufInfo ∈ ids s.sys.poller.rxPkts := List.mem_map_of_mem hp
    rwa [heq] at hin
  · have hin := List.mem_map_of_mem (f := BdWords.vbufal) hw
    rwa [heq] at hin

/-! ## The board -/

/-- Two engines further on. -/
def LoopSys.Further (s s' : LoopSys) : Prop :=
  StillDone s.sys.tx s'.sys.tx ∧ StillDone s.sys.rx s'.sys.rx

/-- What is written next is not empty. -/
theorem next_filled {writing : Option (List Byte)} {fifo fifo' : List (List Byte)}
    {bytes : List Byte} (h : next writing fifo = some (bytes, fifo')) (hmore : writing ≠ some [])
    (hfifo : ∀ p ∈ fifo, p ≠ []) : bytes ≠ [] ∧ ∀ p ∈ fifo', p ≠ [] := by
  unfold next at h
  split at h
  · rw [Option.some.injEq, Prod.mk.injEq] at h
    obtain ⟨rfl, rfl⟩ := h
    exact ⟨fun hnil => hmore (congrArg some hnil), hfifo⟩
  · rw [Option.some.injEq, Prod.mk.injEq] at h
    obtain ⟨rfl, rfl⟩ := h
    exact ⟨hfifo _ List.mem_cons_self, fun p hp => hfifo p (List.mem_cons_of_mem _ hp)⟩
  · cases h

theorem LoopInv.s2c (h : LoopInv m txVA rxVA numTx numRx s) (status usrl usrh : U32) :
    LoopInv m txVA rxVA numTx numRx (s.s2c m status usrl usrh) ∧
      s.Further (s.s2c m status usrl usrh) := by
  unfold LoopSys.s2c
  by_cases hend : s.board.txBd = s.sys.tx.ring.hwTail
  · rw [if_pos hend]
    exact ⟨h, .refl _, .refl _⟩
  rw [if_neg hend]
  obtain ⟨hunread, hline⟩ := h.tx.engine hend (status ||| bdCompMask) usrl usrh
  obtain ⟨g, k, hat⟩ := h.tx.work
  have hraw : rawStep s.sys (.engineTx (g.hwPos + k) (status ||| bdCompMask) usrl usrh) =
      some { s.sys with
        tx := completeBd s.sys.tx s.board.txBd (status ||| bdCompMask) usrl usrh } := by
    rw [rawStep, engineWrite, ← hat.place, completeBd]
  -- There is something to read, so a test has been started.
  have harmed : s.Armed := h.mode.resolve_right fun hunused => by
    have hnone := hunused.unread
    rw [LoopSys.unread, hunread] at hnone
    cases hnone
  refine ⟨⟨rawStep_inv h.raw hraw, hline, h.rx, h.sender, fun p hp => ?_,
    Or.inl ⟨harmed.reg, harmed.testmode⟩, ?_⟩, hat.later hend _ _ _, .refl _⟩
  · dsimp only at hp
    split_ifs at hp with hlast
    · refine (List.mem_append.1 hp).elim (h.fifo p) fun hp => ?_
      rw [List.mem_singleton.1 hp]
      refine List.append_ne_nil_of_right_ne_nil _ (h.tx.filled _ ?_)
      rw [hunread]
      exact List.mem_cons_self
    · exact h.fifo p hp
  have hread := h.flow
  rw [LoopSys.inFlight, LoopSys.unread, hunread, underway_read] at hread
  refine hread.trans (congrArg _ ?_)
  rw [LoopSys.inFlight]
  dsimp only
  rw [if_congr (and_iff_left harmed.reg) rfl rfl]
  rfl

theorem LoopInv.c2s (h : LoopInv m txVA rxVA numTx numRx s)
    (hpages : (pages txVA numTx ++ pages rxVA numRx).Nodup) (free usrl usrh : U32) :
    LoopInv m txVA rxVA numTx numRx (s.c2s m free usrl usrh) ∧
      s.Further (s.c2s m free usrl usrh) := by
  unfold LoopSys.c2s
  by_cases hend : s.board.rxBd = s.sys.rx.ring.hwTail
  · rw [if_pos hend]
    exact ⟨h, .refl _, .refl _⟩
  rw [if_neg hend]
  cases hnext : next s.board.receiving s.board.fifo with
  | none => exact ⟨h, .refl _, .refl _⟩
  | some got =>
    obtain ⟨bytes, fifo⟩ := got
    dsimp only
    obtain ⟨hapart, -, hheld, hfin⟩ := h.writes_apart hpages hend
    obtain ⟨g, k, hat⟩ := h.rx.work
    have hhead : bdWords s.sys.rx.mem s.board.rxBd ∈ toDo s.sys.rx s.board.rxBd := by
      rw [(hat.ready hend).2]
      exact List.mem_cons_self
    have hbus := h.rx.bus _ (List.mem_append_right _ hhead)
    obtain ⟨hbytes, hfifo⟩ := next_filled hnext h.rx.more h.fifo
    obtain ⟨harr, hline⟩ := h.rx.engine hend free usrl usrh hbytes hheld hfin
    set w := bdWords s.sys.rx.mem s.board.rxBd with hw
    set data := bytes.take (w.ctrl &&& bdBuflMask).toNat with hdata
    set left := bytes.drop (w.ctrl &&& bdBuflMask).toNat with hleft
    have hraw : rawStep s.sys
        (.engineRx (g.hwPos + k) (rxStatus free data.length (decide (left = []))) usrl usrh) =
        some { s.sys with
          rx := completeBd s.sys.rx s.board.rxBd (rxStatus free data.length (decide (left = [])))
            usrl usrh } := by
      rw [rawStep, engineWrite, ← hat.place, completeBd]
    set page' := Function.update s.page (m.toCpu w.bufal)
      (writeBytes (s.page (m.toCpu w.bufal)) data) with hpage
    have hsame : ∀ v ∈ toDo s.sys.tx s.board.txBd, page' v.vbufal = s.page v.vbufal := fun v hv =>
      by rw [hpage, hbus, m.toCpu_toBus, Function.update_of_ne (hapart v hv)]
    obtain ⟨htx, hunread⟩ := h.tx.frame hsame
    refine ⟨⟨rawStep_inv h.raw hraw, htx, hline, h.sender, hfifo, ?_, ?_⟩, .refl _,
      hat.later hend _ _ _⟩
    · refine h.mode.imp (fun harmed => ⟨harmed.reg, harmed.testmode⟩) fun hunused => ?_
      exact ⟨hunread.trans hunused.unread, hunused.sender, hunused.ticker, hunused.mode⟩
    · refine h.flow.trans (congrArg _ ?_)
      have hsplit : data ++ left = bytes := List.take_append_drop _ _
      rw [← hsplit] at hnext
      have hwrite := underway_write s.board.sending (s.unread m) hnext h.rx.closed
        (decide (left = [])) (if left = [] then none else some left)
        (fun hdone => ⟨decide_eq_true hdone, if_pos hdone⟩)
        (fun hmore => ⟨decide_eq_false hmore, if_neg hmore⟩)
      rw [LoopSys.inFlight, LoopSys.arrived, ← hwrite, LoopSys.inFlight, LoopSys.arrived,
        LoopSys.unread, LoopSys.unread]
      dsimp only
      rw [harr, hunread]

theorem LoopSys.Further.trans {s s' s'' : LoopSys} (h : s.Further s') (h' : s'.Further s'') :
    s.Further s'' := ⟨h.1.trans h'.1, h.2.trans h'.2⟩

theorem LoopInv.boardRun (h : LoopInv m txVA rxVA numTx numRx s)
    (hpages : (pages txVA numTx ++ pages rxVA numRx).Nodup) (as : List BoardAct) :
    LoopInv m txVA rxVA numTx numRx (s.boardRun m as) ∧ s.Further (s.boardRun m as) := by
  induction as generalizing s with
  | nil => exact ⟨h, .refl _, .refl _⟩
  | cons a as ih =>
    have hstep : LoopInv m txVA rxVA numTx numRx (s.boardStep m a) ∧
        s.Further (s.boardStep m a) := by
      cases a with
      | s2c status usrl usrh => exact h.s2c status usrl usrh
      | c2s free usrl usrh => exact h.c2s hpages free usrl usrh
    obtain ⟨hinv, hfurther⟩ := ih hstep.1
    exact ⟨hinv, hstep.2.trans hfurther⟩

/-- From a word read of a poll to its end. -/
theorem LoopInv.snapshot (h : LoopInv m txVA rxVA numTx numRx s)
    (hpages : (pages txVA numTx ++ pages rxVA numRx).Nodup) (during : List (List BoardAct)) (t : ℕ) :
    (s.boardRun m (during.take (t + 1)).flatten).Further (s.boardRun m during.flatten) := by
  have hrest := ((h.boardRun hpages (during.take (t + 1)).flatten).1.boardRun hpages
    (during.drop (t + 1)).flatten).2
  rwa [LoopSys.boardRun, LoopSys.boardRun, ← List.foldl_append, ← List.flatten_append,
    List.take_append_drop] at hrest

/-- What is completed when its status is read has not changed at the end. -/
theorem StillDone.read {c c' : Chan} (h : StillDone c c') {b : U32} (hb : b ∈ hwBds c'.ring)
    (hcomp : (bdWords c.mem b).Comp) : bdWords c.mem b = bdWords c'.mem b := by
  rw [h.ring] at hb
  exact (h.words b hb hcomp).symm

/-! ## The driver -/

/-- The pages of the receive ring do not belong to the pool for transmission. -/
theorem LoopInv.rx_pages (h : LoopInv m txVA rxVA numTx numRx s)
    (hpages : (pages txVA numTx ++ pages rxVA numRx).Nodup) :
    (∀ p ∈ s.sys.poller.rxPkts, p.bufInfo ∉ pages txVA numTx) ∧
      ∀ w ∈ finished s.sys.rx s.board.rxBd, w.vbufal ∉ pages txVA numTx := by
  obtain ⟨g, k, hat⟩ := h.rx.work
  have hlock := h.raw.lockStep.rx
  obtain ⟨-, -, -, ⟨g', hrx⟩⟩ := h.raw
  have hother : ∀ va ∈ window s.sys.raw.rxBufs, va ∉ pages txVA numTx := fun va hva htx =>
    (List.nodup_append.1 hpages).2.2 va htx va (hrx.pooled.window_mem hva) rfl
  rw [hlock, hat.hwIds_eq] at hother
  refine ⟨fun p hp => hother _ (List.mem_append_left _ (List.mem_map_of_mem hp)), fun w hw => ?_⟩
  exact hother _ (List.mem_append_right _ (List.mem_map_of_mem (List.mem_append_left _ hw)))

/-- A call of `DmaSetupTransmit` prepares its packets. -/
theorem LoopInv.setupTransmit (h : LoopInv m txVA rxVA numTx numRx s)
    (hpages : (pages txVA numTx ++ pages rxVA numRx).Nodup) (harmed : s.Armed) {num : ℕ}
    {ticker : Ticker} (hstep : s.setupTransmit num ticker = some s') :
    LoopInv m txVA rxVA numTx numRx s' := by
  obtain ⟨sys, hsys, rfl⟩ := Option.map_eq_some_iff.1 hstep
  have hraw := rawStep_inv h.raw hsys
  cases hsender : s.sys.sender with
  | taken => simp [rawStep, hsender] at hsys
  | sent => simp [rawStep, hsender] at hsys
  | idle =>
    obtain ⟨hreg, -, ⟨g, htx⟩, -⟩ := id h.raw
    obtain ⟨hheld, hfin⟩ := h.rx_pages hpages
    have hnodup := (List.nodup_append.1 hpages).1
    set page' := setupTransmitFormat s.sys.raw.handle0 num s.test.rawMaxPktSize.toNat s.sys.raw
      s.page with hpage'
    have hout : ∀ va ∈ window s.sys.raw.txBufs, page' va = s.page va := by
      intro va hva
      rw [hpage', setupTransmitFormat]
      split_ifs
      · rfl
      · exact formatPackets_frame htx.pooled hnodup _ _ _ _ hva
    have hother : ∀ va, va ∉ pages txVA numTx → page' va = s.page va := by
      intro va hva
      rw [hpage', setupTransmitFormat]
      split_ifs
      · rfl
      · exact formatPackets_other htx.pooled hva _ _ _ _
    obtain ⟨hline, hunread⟩ := h.tx.frame fun w hw => hout _ (h.unread_window w hw)
    obtain ⟨hline', harr⟩ := h.rx.frame (fun p hp => hother _ (hheld p hp))
      fun w hw => hother _ (hfin w hw)
    rw [rawStep, hsender, Option.some.injEq] at hsys
    subst hsys
    refine ⟨hraw, hline, hline', fun pkts origseqno heq => ?_, h.fifo,
      Or.inl ⟨harmed.reg, harmed.testmode⟩, ?_⟩
    · dsimp only at heq
      obtain ⟨ps, b', hpacks, hloop⟩ := packetLoop_packs s.test.rawMaxPktSize.toNat num
        s.sys.raw.txBufs s.sys.raw.txSeqNo
      rw [setupTransmitTake] at heq
      by_cases hstop :
          s.sys.raw.driverState ≠ .registered ∨ s.sys.raw.handle0 ≠ s.sys.raw.handle0 ∨ num = 0
      · rw [if_pos hstop] at heq
        cases heq
      rw [if_neg hstop, hloop] at heq
      dsimp only at heq
      by_cases hzero : ps.length = 0
      · rw [if_pos hzero] at heq
        cases heq
      · rw [if_neg hzero, Sender.taken.injEq] at heq
        exact heq.1 ▸ hpacks.onPage
    · refine h.flow.trans (congrArg _ ?_)
      rw [LoopSys.inFlight, LoopSys.inFlight, LoopSys.arrived, LoopSys.arrived, LoopSys.unread,
        LoopSys.unread]
      dsimp only
      rw [harr, hunread]

/-- `DmaSendPkt` hands packets over. -/
theorem LoopInv.send (h : LoopInv m txVA rxVA numTx numRx s)
    (hstep : loopStep m s .send = some s') : LoopInv m txVA rxVA numTx numRx s' := by
  cases hsender : s.sys.sender with
  | idle => simp [loopStep, hsender] at hstep
  | sent => simp [loopStep, hsender] at hstep
  | taken pkts origseqno =>
    rw [loopStep, hsender] at hstep
    obtain ⟨sys, hsys, rfl⟩ := Option.map_eq_some_iff.1 hstep
    have hraw := rawStep_inv h.raw hsys
    have hwhole := h.raw.sender
    rw [hsender] at hwhole
    obtain ⟨n, c', ic, evs, heq, hn, hlast, hline, hunread⟩ :=
      h.tx.send hwhole (h.sender pkts origseqno hsender)
    rw [rawStep, hsender] at hsys
    dsimp only at hsys
    rw [heq, Option.some.injEq] at hsys
    subst hsys
    refine ⟨hraw, hline, h.rx, fun _ _ heq => (by cases heq), h.fifo, ?_, ?_⟩
    · refine h.mode.elim (fun harmed => Or.inl ⟨harmed.reg, harmed.testmode⟩) fun hunused => ?_
      have hidle := hunused.sender
      rw [hsender] at hidle
      cases hidle
    · rw [LoopSys.inFlight]
      dsimp only [LoopSys.unread]
      rw [hunread, underway_offer h.tx.whole, ← List.append_assoc, Sender.queued]
      rw [h.flow]
      rfl

/-- The sender returns. -/
theorem LoopInv.giveBack (h : LoopInv m txVA rxVA numTx numRx s)
    (hstep : loopStep m s .giveBack = some s') : LoopInv m txVA rxVA numTx numRx s' := by
  cases hsender : s.sys.sender with
  | idle => simp [loopStep, hsender] at hstep
  | taken => simp [loopStep, hsender] at hstep
  | sent pkts origseqno result =>
    rw [loopStep, hsender] at hstep
    obtain ⟨sys, hsys, rfl⟩ := Option.map_eq_some_iff.1 hstep
    have hraw := rawStep_inv h.raw hsys
    rw [rawStep, hsender, Option.some.injEq] at hsys
    subst hsys
    refine ⟨hraw, h.tx, h.rx, fun _ _ heq => (by cases heq), h.fifo, ?_, h.flow⟩
    refine h.mode.elim (fun harmed => Or.inl ⟨harmed.reg, harmed.testmode⟩) fun hunused => ?_
    have hidle := hunused.sender
    rw [hsender] at hidle
    cases hidle

/-- Only the number of the next packet changes in `RawData`. -/
theorem LoopInv.congr (h : LoopInv m txVA rxVA numTx numRx s) (hsys : s'.sys = s.sys)
    (hpage : s'.page = s.page) (hboard : s'.board = s.board) (hsent : s'.sent = s.sent)
    (hgot : s'.got = s.got) (hmode : s'.Armed ∨ s'.Unused m) :
    LoopInv m txVA rxVA numTx numRx s' := by
  obtain ⟨hraw, htx, hrx, hsender, hfifo, -, hflow⟩ := h
  refine ⟨?_, ?_, ?_, ?_, ?_, hmode, ?_⟩
  · rw [hsys]
    exact hraw
  · rw [hsys, hpage, hboard]
    exact htx
  · rw [hsys, hpage, hboard]
    exact hrx
  · rw [hsys]
    exact hsender
  · rw [hboard]
    exact hfifo
  · rw [LoopSys.inFlight, LoopSys.arrived, LoopSys.unread, hsys, hpage, hboard, hsent, hgot]
    exact hflow

/-- `poll_routine` starts nothing before a test has been started. -/
theorem LoopInv.tick (h : LoopInv m txVA rxVA numTx numRx s) :
    LoopInv m txVA rxVA numTx numRx s.tick := by
  unfold LoopSys.tick
  rcases h.mode with harmed | hunused
  · dsimp only
    split_ifs <;> exact h.congr rfl rfl rfl rfl rfl (Or.inl ⟨harmed.reg, harmed.testmode⟩)
  · have hmode := hunused.mode
    rw [flag_or, not_or] at hmode
    have hseen : s.ticker ≠ .seen := by
      rw [hunused.ticker]
      exact nofun
    dsimp only
    rw [if_neg hseen, if_neg fun hon => hmode.1 hon.1, if_neg hmode.2]
    exact h

theorem LoopInv.take (h : LoopInv m txVA rxVA numTx numRx s)
    (hpages : (pages txVA numTx ++ pages rxVA numRx).Nodup)
    (hstep : loopStep m s .take = some s') : LoopInv m txVA rxVA numTx numRx s' := by
  have harmed : s.ticker ≠ .idle → s.Armed := fun hbusy =>
    h.mode.resolve_right fun hunused => hbusy hunused.ticker
  rw [loopStep.eq_def] at hstep
  dsimp only at hstep
  cases hticker : s.ticker with
  | idle => simp [hticker] at hstep
  | seen => simp [hticker] at hstep
  | first =>
    rw [hticker] at hstep
    exact h.setupTransmit hpages (harmed (by rw [hticker]; exact nofun)) hstep
  | more times =>
    have hon := harmed (by rw [hticker]; exact nofun)
    rw [hticker] at hstep
    cases times with
    | zero => cases hstep
    | succ times =>
      dsimp only at hstep
      split_ifs at hstep
      · rw [Option.some.injEq] at hstep
        subst hstep
        exact h.congr rfl rfl rfl rfl rfl (Or.inl ⟨hon.reg, hon.testmode⟩)
      · exact h.setupTransmit hpages hon hstep

/-- A command of a loopback test names nothing else. -/
theorem LoopMode.clear {mode mask : U32} (h : LoopMode mode)
    (hmask : ~~~(testStart ||| enableLoopback) &&& mask = mask) : ¬ Flag mode mask := by
  rw [Flag, ← hmask, ← BitVec.and_assoc, h.1]
  exact not_not_intro BitVec.zero_and

/-- What such a command does: nothing, if it is not meant for the transmit engine; else it starts a
test, or stops it. -/
theorem LoopMode.setState_cases {ustate : UserState} (hmode : LoopMode ustate.testMode)
    (hndl privdata : U32) (raw : RawData) (t : TestVars) :
    (¬ ResetsSeqNo hndl ustate privdata raw ∧
      (mySetState hndl ustate privdata raw t).2.2 = t) ∨
    (ResetsSeqNo hndl ustate privdata raw ∧
      (mySetState hndl ustate privdata raw t).2.2 = (startTest ustate raw { t with
        rawTestMode := ustate.testMode
        testmode := nextTestmode ustate.testMode t.testmode }).2) ∨
    (¬ ResetsSeqNo hndl ustate privdata raw ∧ ¬ Flag ustate.testMode testStart ∧
      (mySetState hndl ustate privdata raw t).2.2 =
        (({ t with rawTestMode := ustate.testMode }.out32 txConfigAddress t.testmode).out32
          rxConfigAddress t.testmode)) := by
  rw [mySetState]
  by_cases hreg : raw.driverState ≠ .registered
  · rw [if_pos hreg]
    exact Or.inl ⟨fun hreset => hreg hreset.1, rfl⟩
  rw [if_neg hreg]
  by_cases hhandle : hndl ≠ raw.handle0 ∧ hndl ≠ raw.handle2
  · rw [if_pos hhandle]
    exact Or.inl ⟨fun hreset => hreset.2.1.elim hhandle.1 hhandle.2, rfl⟩
  rw [if_neg hhandle]
  by_cases hpriv : privdata ≠ 0x54545454
  · rw [if_pos hpriv]
    exact Or.inl ⟨fun hreset => hpriv hreset.2.2.1, rfl⟩
  rw [if_neg hpriv]
  by_cases hstart : Flag ustate.testMode testStart
  · have hloop := hmode.2 hstart
    have hsome : Flag ustate.testMode (enablePktchk ||| enablePktgen ||| enableLoopback) :=
      flag_or.2 (Or.inr hloop)
    rw [if_pos hstart, if_neg (not_not_intro hsome)]
    refine Or.inr (Or.inl ⟨⟨not_not.1 hreg, ?_, not_not.1 hpriv, hstart,
      flag_or.2 (Or.inr hloop)⟩, rfl⟩)
    exact (not_and_or.1 hhandle).imp not_not.1 not_not.1
  · rw [if_neg hstart, nextTestmode_drain hstart (hmode.clear (by decide)) (hmode.clear (by decide))]
    exact Or.inr (Or.inr ⟨fun hreset => hstart hreset.2.2.2.1, hstart, rfl⟩)

/-- A start sets the bit of the register, and a stop leaves it, since `testmode` has it still. -/
theorem mySetState_loopback {ustate : UserState} (hmode : LoopMode ustate.testMode)
    (hndl privdata : U32) (raw : RawData) (t : TestVars) :
    let t' := (mySetState hndl ustate privdata raw t).2.2
    t' = t ∨ (Flag (t'.reg txConfigAddress) loopback ∧ Flag t'.testmode loopback) ∨
      (t'.reg txConfigAddress = t.testmode ∧ t'.testmode = t.testmode ∧
        ¬ Flag t'.rawTestMode (testStart ||| testInProgress)) := by
  intro t'
  rcases hmode.setState_cases hndl privdata raw t with
    ⟨-, hsame⟩ | ⟨hreset, hstart⟩ | ⟨-, hstop, hdone⟩
  · exact Or.inl hsame
  · have hloop := hmode.2 hreset.2.2.2.1
    obtain ⟨htx, -, hkeep⟩ := startTest_reg ustate raw { t with
      rawTestMode := ustate.testMode
      testmode := nextTestmode ustate.testMode t.testmode }
    rw [if_pos (flag_or.2 (Or.inr hloop))] at htx
    have hon := (nextTestmode_start (v := t.testmode) hreset.2.2.2.1).1.2 hloop
    simp only [t']
    rw [hstart, htx, hkeep]
    exact Or.inr (Or.inl ⟨hon, hon⟩)
  · simp only [t']
    rw [hdone]
    refine Or.inr (Or.inr ⟨?_, rfl, fun hflag => ?_⟩)
    · simp [TestVars.out32, Function.update, txConfigAddress, rxConfigAddress]
    · exact (flag_or.1 hflag).elim hstop (hmode.clear (by decide))

theorem LoopInv.setState (h : LoopInv m txVA rxVA numTx numRx s) {hndl privdata : U32}
    {ustate : UserState} (hstep : loopStep m s (.setState hndl ustate privdata) = some s') :
    LoopInv m txVA rxVA numTx numRx s' := by
  rw [loopStep.eq_def] at hstep
  dsimp only at hstep
  by_cases hmode : LoopMode ustate.testMode
  swap
  · rw [if_neg hmode] at hstep
    cases hstep
  rw [if_pos hmode, Option.some.injEq] at hstep
  subst hstep
  have hraw := mySetState_raw hndl ustate privdata s.sys.raw s.test
  have hkeep : RawInv txVA rxVA numTx numRx { s.sys with
      raw := (mySetState hndl ustate privdata s.sys.raw s.test).2.1 } := by
    obtain ⟨hreg, hsound, htx, hrx⟩ := h.raw
    rw [hraw]
    split_ifs <;> exact ⟨hreg, hsound, htx, hrx⟩
  refine ⟨hkeep, h.tx, h.rx, h.sender, h.fifo, ?_, h.flow⟩
  rcases mySetState_loopback hmode hndl privdata s.sys.raw s.test with
    hsame | ⟨hreg, htest⟩ | ⟨hreg, htest, hstopped⟩
  · rcases h.mode with harmed | hunused
    · exact Or.inl ⟨by rw [hsame]; exact harmed.reg, by rw [hsame]; exact harmed.testmode⟩
    · exact Or.inr ⟨hunused.unread, hunused.sender, hunused.ticker, by
        rw [hsame]
        exact hunused.mode⟩
  · exact Or.inl ⟨hreg, htest⟩
  · rcases h.mode with harmed | hunused
    · exact Or.inl ⟨by rw [hreg]; exact harmed.testmode, by rw [htest]; exact harmed.testmode⟩
    · exact Or.inr ⟨hunused.unread, hunused.sender, hunused.ticker, hstopped⟩

/-- The poller serves the ring for transmission. -/
theorem LoopInv.pollTx (h : LoopInv m txVA rxVA numTx numRx s)
    (hpages : (pages txVA numTx ++ pages rxVA numRx).Nodup) {during : List (List BoardAct)}
    (hstep : loopStep m s (.pollTx during) = some s') : LoopInv m txVA rxVA numTx numRx s' := by
  obtain ⟨sys, hsys, rfl⟩ := Option.map_eq_some_iff.1 hstep
  obtain ⟨hinv, -⟩ := h.boardRun hpages during.flatten
  have hraw := rawStep_inv hinv.raw hsys
  have hlater := fun t => (h.snapshot hpages during t).1
  obtain ⟨hline, hunread⟩ := hinv.tx.retrieve _ fun t b hb hcomp => (hlater t).read hb hcomp
  set s₁ := s.boardRun m during.flatten
  cases hpoller : s₁.sys.poller with
  | idle =>
    rw [rawStep, hpoller, Option.some.injEq] at hsys
    have hnone : sys.poller.rxPkts = s₁.sys.poller.rxPkts := by
      rw [← hsys, hpoller]
      dsimp only
      split <;> rfl
    have hrx : sys.rx = s₁.sys.rx := by rw [← hsys]
    have hsender : sys.sender = s₁.sys.sender := by rw [← hsys]
    have hunread' : LoopSys.unread m { s₁ with sys := sys } = s₁.unread m := by
      rw [LoopSys.unread, ← hsys]
      exact hunread
    refine ⟨hraw, ?_, ?_, ?_, hinv.fifo, ?_, ?_⟩
    · rw [← hsys]
      exact hline
    · rw [hnone, hrx]
      exact hinv.rx
    · rw [hsender]
      exact hinv.sender
    · refine hinv.mode.imp (fun harmed => ⟨harmed.reg, harmed.testmode⟩) fun hunused => ?_
      refine ⟨hunread'.trans hunused.unread, ?_, hunused.ticker, hunused.mode⟩
      rw [hsender]
      exact hunused.sender
    · rw [LoopSys.inFlight, hunread', LoopSys.arrived, hnone, hrx]
      exact hinv.flow
  | putTx => simp [rawStep, hpoller] at hsys
  | putRx => simp [rawStep, hpoller] at hsys
  | refillRx => simp [rawStep, hpoller] at hsys

/-- The second section of `PktHandler` on the ring for reception. -/
theorem LoopInv.refill (h : LoopInv m txVA rxVA numTx numRx s)
    (hput : s.sys.poller.rxPkts = []) (htx : s.sys.poller.txPkts = []) {bus : ℕ → U32}
    (hmaps : MapsTo m (LoopSys.refillEvs s.sys bus)) :
    LoopInv m txVA rxVA numTx numRx { s with sys := s.sys.refill bus } := by
  obtain ⟨hline, harr⟩ := h.rx.refill s.sys.raw.handle2 bus
    (d := { chan := s.sys.rx, intrCount := 0, user := s.sys.raw }) rfl hmaps
  rw [hput] at hline harr
  refine ⟨h.raw.refill hput htx bus, h.tx, hline, h.sender, h.fifo, ?_, ?_⟩
  · refine h.mode.imp (fun harmed => ⟨harmed.reg, harmed.testmode⟩) fun hunused => ?_
    exact ⟨hunused.unread, hunused.sender, hunused.ticker, hunused.mode⟩
  · refine h.flow.trans (congrArg _ ?_)
    rw [LoopSys.inFlight, LoopSys.inFlight, LoopSys.arrived, LoopSys.arrived, hput, ← harr]
    rfl

/-- The poller serves the ring for reception. -/
theorem LoopInv.pollRx (h : LoopInv m txVA rxVA numTx numRx s)
    (hpages : (pages txVA numTx ++ pages rxVA numRx).Nodup) {during : List (List BoardAct)}
    {bus : ℕ → U32} (hstep : loopStep m s (.pollRx during bus) = some s') :
    LoopInv m txVA rxVA numTx numRx s' := by
  rw [loopStep.eq_def] at hstep
  dsimp only at hstep
  split_ifs at hstep with hmaps
  obtain ⟨sys, hsys, rfl⟩ := Option.map_eq_some_iff.1 hstep
  obtain ⟨hinv, -⟩ := h.boardRun hpages during.flatten
  have hraw := rawStep_inv hinv.raw hsys
  have hlater := fun t => (h.snapshot hpages during t).2
  set s₁ := s.boardRun m during.flatten
  set rd := fun t => (s.boardRun m (during.take (t + 1)).flatten).sys.rx.mem
  cases hpoller : s₁.sys.poller with
  | idle =>
    have hrx := hinv.rx
    rw [hpoller] at hrx
    obtain ⟨pkts, c', evs, heq, hline, harr⟩ :=
      hrx.retrieve rd fun t b hb hcomp => (hlater t).read hb hcomp
    rw [heq] at hmaps
    dsimp only at hmaps
    rw [rawStep, hpoller] at hsys
    dsimp only at hsys
    rw [heq] at hsys
    -- The system between the two sections.
    have hmode : ∀ sys' : RawSys, sys'.tx = s₁.sys.tx → sys'.sender = s₁.sys.sender →
        LoopSys.Armed { s₁ with sys := sys' } ∨ LoopSys.Unused m { s₁ with sys := sys' } := by
      intro sys' htx hsender
      refine hinv.mode.imp (fun harmed => ⟨harmed.reg, harmed.testmode⟩) fun hunused => ?_
      refine ⟨?_, ?_, hunused.ticker, hunused.mode⟩
      · rw [LoopSys.unread, htx]
        exact hunused.unread
      · rw [hsender]
        exact hunused.sender
    have hflow : s₁.sent = s₁.got ++ underway (arrived m s₁.page pkts c' s₁.board.rxBd)
        s₁.board.receiving s₁.board.fifo s₁.board.sending (s₁.unread m) := by
      rw [harr, hinv.flow, LoopSys.inFlight, LoopSys.arrived, hpoller]
      rfl
    cases pkts with
    | cons p ps =>
      rw [Option.some.injEq] at hsys
      subst hsys
      exact ⟨hraw, hinv.tx, hline, hinv.sender, hinv.fifo, hmode _ rfl rfl, hflow⟩
    | nil =>
      rw [Option.some.injEq] at hsys
      subst hsys
      have hmid : LoopInv m txVA rxVA numTx numRx { s₁ with sys := { s₁.sys with rx := c' } } := by
        obtain ⟨hreg, hsound, htx, ⟨g, hside⟩⟩ := hinv.raw
        rw [hpoller] at htx hside
        obtain ⟨pkts', c'', evs', g', heq', hside'⟩ := Side.retrieve hside rd
        rw [heq, Prod.mk.injEq, Prod.mk.injEq, Option.some.injEq] at heq'
        obtain ⟨rfl, rfl, -⟩ := heq'
        refine ⟨⟨hreg, hsound, ?_, ⟨g', ?_⟩⟩, hinv.tx, ?_, hinv.sender, hinv.fifo,
          hmode _ rfl rfl, ?_⟩
        · rw [hpoller]
          exact htx
        · rw [hpoller]
          exact hside'
        · rw [hpoller]
          exact hline
        · rw [LoopSys.inFlight, LoopSys.arrived, hpoller]
          exact hflow
      exact hmid.refill (by rw [hpoller]; rfl) (by rw [hpoller]; rfl) (hmaps rfl)
  | putTx => simp [rawStep, hpoller] at hsys
  | putRx => simp [rawStep, hpoller] at hsys
  | refillRx => simp [rawStep, hpoller] at hsys

/-- `UserPutPkt` is called. -/
theorem LoopInv.put (h : LoopInv m txVA rxVA numTx numRx s)
    (hstep : loopStep m s .put = some s') : LoopInv m txVA rxVA numTx numRx s' := by
  rw [loopStep.eq_def] at hstep
  dsimp only at hstep
  cases hpoller : s.sys.poller with
  | idle => simp [hpoller, rawStep] at hstep
  | refillRx => simp [hpoller, rawStep] at hstep
  | putTx pkts =>
    rw [hpoller] at hstep
    obtain ⟨sys, hsys, rfl⟩ := Option.map_eq_some_iff.1 hstep
    have hraw := rawStep_inv h.raw hsys
    rw [rawStep, hpoller, Option.some.injEq] at hsys
    subst hsys
    have hrx := h.rx
    have hflow := h.flow
    rw [LoopSys.inFlight, LoopSys.arrived, hpoller] at hflow
    rw [hpoller] at hrx
    refine ⟨hraw, h.tx, hrx, h.sender, h.fifo, ?_, hflow⟩
    refine h.mode.imp (fun harmed => ⟨harmed.reg, harmed.testmode⟩) fun hunused => ?_
    exact ⟨hunused.unread, hunused.sender, hunused.ticker, hunused.mode⟩
  | putRx pkts =>
    rw [hpoller] at hstep
    obtain ⟨sys, hsys, rfl⟩ := Option.map_eq_some_iff.1 hstep
    have hraw := rawStep_inv h.raw hsys
    rw [rawStep, hpoller, Option.some.injEq] at hsys
    subst hsys
    have hrx := h.rx
    have hflow := h.flow
    rw [LoopSys.inFlight, LoopSys.arrived, hpoller] at hflow
    rw [hpoller] at hrx
    have hrx' : RxLine m s.page pkts s.sys.rx s.board.rxBd s.board.receiving := hrx
    refine ⟨hraw, h.tx, hrx'.put.1, h.sender, h.fifo, ?_, ?_⟩
    · refine h.mode.imp (fun harmed => ⟨harmed.reg, harmed.testmode⟩) fun hunused => ?_
      exact ⟨hunused.unread, hunused.sender, hunused.ticker, hunused.mode⟩
    · refine hflow.trans ?_
      have haccept := underway_accept hrx'.whole (arrived m s.page [] s.sys.rx s.board.rxBd)
        s.board.receiving s.board.fifo s.board.sending (s.unread m)
      show _ = s.got ++ _ ++ _
      rw [List.append_assoc]
      exact congrArg _ haccept

/-- **One step.** -/
theorem loopStep_inv {a : LoopAct} (hpages : (pages txVA numTx ++ pages rxVA numRx).Nodup)
    (h : LoopInv m txVA rxVA numTx numRx s) (hstep : loopStep m s a = some s') :
    LoopInv m txVA rxVA numTx numRx s' := by
  cases a with
  | board a =>
    rw [loopStep, Option.some.injEq] at hstep
    exact hstep ▸ (h.boardRun hpages [a]).1
  | tick =>
    rw [loopStep] at hstep
    split_ifs at hstep
    rw [Option.some.injEq] at hstep
    exact hstep ▸ h.tick
  | take => exact h.take hpages hstep
  | send => exact h.send hstep
  | giveBack => exact h.giveBack hstep
  | pollTx during => exact h.pollTx hpages hstep
  | pollRx during bus => exact h.pollRx hpages hstep
  | put => exact h.put hstep
  | refill bus =>
    rw [loopStep.eq_def] at hstep
    dsimp only at hstep
    split_ifs at hstep with hmaps
    obtain ⟨sys, hsys, rfl⟩ := Option.map_eq_some_iff.1 hstep
    cases hpoller : s.sys.poller with
    | refillRx =>
      rw [rawStep, hpoller, Option.some.injEq] at hsys
      subst hsys
      exact h.refill (by rw [hpoller]; rfl) (by rw [hpoller]; rfl) hmaps
    | idle => simp [rawStep, hpoller] at hsys
    | putTx => simp [rawStep, hpoller] at hsys
    | putRx => simp [rawStep, hpoller] at hsys
  | setState hndl ustate privdata => exact h.setState hstep

/-- The driver is registered on two started rings. -/
theorem registeredLoop_inv (m : BusMap) (txVA rxVA : ℕ → U32) (numTx numRx : ℕ)
    (handle0 handle2 : U32) (txSeqNo : BitVec 16) {tx rx : Chan} (htx : Started false tx)
    (hrx : Started true rx) (reg : U32 → U32) (page : Pages) :
    LoopInv m txVA rxVA numTx numRx (registeredLoop
      (registeredSys txVA rxVA numTx numRx handle0 handle2 txSeqNo tx rx) reg page) := by
  obtain ⟨g, hatTx, hfinTx, haheadTx⟩ := htx.atWork
  obtain ⟨g', hatRx, hfinRx, haheadRx⟩ := hrx.atWork
  obtain ⟨-, -, -, hdirTx⟩ := htx.settled
  obtain ⟨-, -, -, hdirRx⟩ := hrx.settled
  have hunread : unread m page tx tx.ring.hwTail = [] := by
    rw [unread, haheadTx]
    rfl
  have harrived : arrived m page [] rx rx.ring.hwTail = [] := by
    rw [arrived, hfinRx]
    rfl
  refine ⟨⟨rfl, trivial, htx.side txVA numTx, hrx.side rxVA numRx⟩, ?_, ?_, fun _ _ heq => ?_,
    List.forall_mem_nil _, Or.inr ⟨hunread, rfl, rfl, fun hmode => hmode BitVec.zero_and⟩, ?_⟩
  · refine ⟨⟨g, 0, hatTx⟩, hdirTx, ?_, ?_, ?_⟩
    · show ∀ w ∈ toDo tx tx.ring.hwTail, _
      rw [haheadTx]
      exact List.forall_mem_nil _
    · show rest [] (unread m page tx tx.ring.hwTail) = []
      rw [hunread]
      rfl
    · show ∀ f ∈ unread m page tx tx.ring.hwTail, _
      rw [hunread]
      exact List.forall_mem_nil _
  · have hwords : ∀ w, w ∉ finished rx rx.ring.hwTail ++ toDo rx rx.ring.hwTail := by
      rw [hfinRx, haheadRx]
      exact fun w hw => List.not_mem_nil hw
    refine ⟨⟨g', 0, hatRx⟩, hdirRx, fun w hw => absurd hw (hwords w),
      fun w hw => absurd (List.mem_append_right _ hw) (hwords w),
      fun w hw => absurd (List.mem_append_left _ hw) (hwords w), whole_nil, fun f hf => ?_,
      fun _ => ?_, fun hsome => by cases hsome⟩
    · have hf' : f ∈ arrived m page [] rx rx.ring.hwTail := hf
      rw [harrived] at hf'
      cases hf'
    · show rest [] (arrived m page [] rx rx.ring.hwTail) = []
      rw [harrived]
      rfl
  · cases heq
  · show [] = [] ++ underway (arrived m page [] rx rx.ring.hwTail) none [] []
      (unread m page tx tx.ring.hwTail)
    rw [harrived, hunread]
    rfl

/-- Bus addresses as on a machine without an IOMMU. -/
def flatBus : BusMap where
  toBus := id
  toCpu := id
  toCpu_toBus _ := rfl

/-- A packet of 100 bytes goes once around. -/
def onceAround : List LoopAct :=
  [.pollRx [] fun i => BitVec.ofNat 32 (0x20000 + 0x1000 * i),
    .setState 7
      { minPktSize := 100, maxPktSize := 100, testMode := testStart ||| enableLoopback } 0x54545454,
    .tick, .tick, .take, .send, .giveBack, .pollTx [[.s2c 0 0 0]], .put,
    .pollRx [[.c2s 0x0E000000 0 0]] fun i => BitVec.ofNat 32 (0x20000 + 0x1000 * i), .put]

end Dma
