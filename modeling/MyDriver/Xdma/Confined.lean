import MyDriver.Lib.Footprint
import MyDriver.Xdma.Settled

/-!
# The sections stay in their ring

A section of the driver finds the BDs by the pointers of the ring, and by `Dma_mBdRingNext` from
there, so it reads and writes memory nowhere else. This is said with one equation for each function:
in a memory that is another one outside of the ring (`Chan.patch`), the function returns the same
and leaves the same inside, and outside what it has found.

* `Covers S r` — the BDs of `r` lie in `S`.
* `Confines S body` — what is done with one BD stays in it; the setters are `confines_modify`.
* `dmaSendPkt_patch`, `pktHandlerRetrieve_patch`, `pktHandlerRefill_patch`,
  `descriptorFreeForce_patch`, `descriptorFreeBds_patch`, `engineWrite_patch` — the sections and the
  engine.
-/

namespace Dma

open Cyclic Footprint

variable {S : Set U32} {r r' : BdRing} {c : Chan} {g : Split} (m₀ m : Mem) {bd : U32}

/-! ## One BD -/

/-- The BD at `bd` lies in `S`. -/
def Lies (S : Set U32) (bd : U32) : Prop := ∀ off : U32, off.toNat < 64 → bd + off ∈ S

theorem bdRead_patch (h : Lies S bd) {off : U32} (hoff : off.toNat < 64) :
    bdRead (patch S m₀ m) bd off = bdRead m bd off := patch_inside (h off hoff)

theorem bdWrite_patch (h : Lies S bd) {off : U32} (hoff : off.toNat < 64) (v : U32) :
    bdWrite (patch S m₀ m) bd off v = patch S m₀ (bdWrite m bd off v) :=
  patch_update (h off hoff) m₀ m v

/-- What is done with a BD stays in it. -/
def Confines (S : Set U32) (body : Mem → U32 → Mem) : Prop :=
  ∀ m₀ m bd, Lies S bd → body (patch S m₀ m) bd = patch S m₀ (body m bd)

theorem Confines.comp {f f' : Mem → U32 → Mem} (hf : Confines S f) (hf' : Confines S f') :
    Confines S fun m bd => f (f' m bd) bd := fun m₀ m bd h => by
  dsimp only
  rw [hf' m₀ m bd h, hf m₀ _ bd h]

/-- The pattern of the setters. -/
theorem confines_modify {off : U32} (hoff : off.toNat < 64) (f : U32 → U32) :
    Confines S fun m bd => bdWrite m bd off (f (bdRead m bd off)) := fun m₀ m bd h => by
  dsimp only
  rw [bdRead_patch m₀ m h hoff, bdWrite_patch m₀ m h hoff]

theorem confines_write {off : U32} (hoff : off.toNat < 64) (v : U32) :
    Confines S fun m bd => bdWrite m bd off v := confines_modify hoff fun _ => v

theorem confines_setCtrl (d : U32) : Confines S fun m bd => bdSetCtrl m bd d :=
  confines_modify (by decide) fun w => w &&& bdBuflMask ||| d &&& bdCtrlMask

theorem confines_setStatus (d : U32) : Confines S fun m bd => bdSetStatus m bd d :=
  confines_modify (by decide) fun w => w &&& bdBuflMask ||| d &&& bdStatusMask

theorem confines_setCtrlLength (d : U32) : Confines S fun m bd => bdSetCtrlLength m bd d :=
  confines_modify (by decide) fun w => w &&& bdCtrlMask ||| d &&& bdBuflMask

theorem confines_setStatLength (d : U32) : Confines S fun m bd => bdSetStatLength m bd d :=
  confines_modify (by decide) fun w => w &&& bdStatusMask ||| d &&& bdBuflMask

theorem confines_setId (d : U32) : Confines S fun m bd => bdSetId m bd d :=
  confines_write (by decide) d

theorem confines_setBufAddr (d : U32) : Confines S fun m bd => bdSetBufAddr m bd d :=
  (confines_write (by decide) 0).comp (confines_write (by decide) d)

theorem confines_setUserData (u : BitVec 64) : Confines S fun m bd => bdSetUserData m bd u :=
  (confines_write (by decide) _).comp (confines_write (by decide) _)

theorem confines_hwWrite (status usrl usrh : U32) :
    Confines S fun m bd => hwWrite m bd status usrl usrh :=
  (confines_write (by decide) usrh).comp
    ((confines_write (by decide) usrl).comp (confines_write (by decide) status))

theorem confines_sendBd (thBhIsr : Bool) (intrCount bufPA : U32) (pbuf : PktBuf) :
    Confines S (sendBd thBhIsr intrCount bufPA pbuf) := by
  have hfill := (confines_setUserData pbuf.userInfo).comp
    ((confines_setCtrl (S := S) (sendFlags pbuf.flags)).comp
      ((confines_setId pbuf.bufInfo).comp ((confines_setStatLength pbuf.size).comp
        ((confines_setCtrlLength pbuf.size).comp (confines_setBufAddr bufPA)))))
  cases thBhIsr with
  | false => exact hfill
  | true => exact (confines_setCtrl _).comp hfill

theorem confines_recvBd (thBhIsr : Bool) (intrCount bufPA : U32) (pbuf : PktBuf) :
    Confines S (recvBd thBhIsr intrCount bufPA pbuf) := by
  have hfill := (confines_setUserData 0).comp ((confines_setCtrl (S := S) 0).comp
    ((confines_setId pbuf.bufInfo).comp
      ((confines_setCtrlLength pbuf.size).comp (confines_setBufAddr bufPA))))
  cases thBhIsr with
  | false => exact hfill
  | true => exact (confines_setCtrl _).comp hfill

theorem confines_freeBd : Confines S freeBd :=
  (confines_write (by decide) 0).comp (confines_write (by decide) 0)

/-! ## Loops -/

/-- The BDs of the ring lie in `S`. -/
structure Covers (S : Set U32) (r : BdRing) : Prop where
  laid : Laid r
  lies : ∀ x, Lies S (bdAt r x)

theorem Laid.congr (h : Laid r) (hb : r'.block = r.block) : Laid r' := by
  have hl : Laid r.block := ⟨h.cnt_pos, h.sep, h.fits, h.last, h.length⟩
  have hl' : Laid r'.block := hb ▸ hl
  exact ⟨hl'.cnt_pos, hl'.sep, hl'.fits, hl'.last, hl'.length⟩

theorem Covers.congr (h : Covers S r) (hb : r'.block = r.block) : Covers S r' :=
  ⟨h.laid.congr hb, bdAt_congr hb ▸ h.lies⟩

theorem walkBds_patch (h : Covers S r) {body : ℕ → Mem → U32 → Mem}
    (hbody : ∀ i, Confines S (body i)) (k x : ℕ) :
    walkBds r body k (patch S m₀ m) (bdAt r x) = patch S m₀ (walkBds r body k m (bdAt r x)) := by
  induction k generalizing body m x with
  | zero => rfl
  | succ k ih =>
    rw [walkBds, walkBds, hbody 0 m₀ m _ (h.lies x), h.laid.next, ih _ fun i => hbody (i + 1)]

theorem freeLoop_patch (h : Covers S r) (k x : ℕ) :
    freeLoop r k (patch S m₀ m) (bdAt r x) = patch S m₀ (freeLoop r k m (bdAt r x)) := by
  rw [freeLoop_walk, freeLoop_walk, walkBds_patch m₀ m h fun _ => confines_freeBd]

theorem takeLoop_patch (h : Covers S r) {β : Type} {read : Mem → U32 → β}
    (hread : ∀ m₀ m bd, Lies S bd → read (patch S m₀ m) bd = read m bd) (k x : ℕ) :
    takeLoop r read k (patch S m₀ m) (bdAt r x) =
      ((takeLoop r read k m (bdAt r x)).1, patch S m₀ (takeLoop r read k m (bdAt r x)).2) := by
  induction k generalizing m x with
  | zero => rfl
  | succ k ih =>
    have hid : bdSetId (patch S m₀ m) (bdAt r x) 0 = patch S m₀ (bdSetId m (bdAt r x) 0) :=
      confines_setId 0 m₀ m _ (h.lies x)
    rw [takeLoop, takeLoop, hid, h.laid.next, ih, hread m₀ m _ (h.lies x)]

theorem toHwLoop_patch (h : Covers S r) (k x : ℕ) :
    toHwLoop r k (patch S m₀ m) (bdAt r x) =
      ((toHwLoop r k m (bdAt r x)).1, patch S m₀ (toHwLoop r k m (bdAt r x)).2.1,
        (toHwLoop r k m (bdAt r x)).2.2) := by
  induction k generalizing m x with
  | zero => rfl
  | succ k ih =>
    have hstatus : bdSetStatus (patch S m₀ m) (bdAt r x) 0 =
        patch S m₀ (bdSetStatus m (bdAt r x) 0) := confines_setStatus 0 m₀ m _ (h.lies x)
    rw [toHwLoop, toHwLoop, bdRead_patch m₀ m (h.lies x) (by decide), hstatus, h.laid.next, ih]
    split_ifs <;> rfl

theorem bdSeen_patch {rd : ℕ → Mem} (h : Lies S bd) (t : ℕ) :
    bdSeen (fun t => patch S m₀ (rd t)) t bd = bdSeen rd t bd := by
  unfold bdSeen bdGetStatus bdGetCtrl
  simp only [bdRead_patch m₀ _ h (show bdBuflStatusOffset.toNat < 64 by decide),
    bdRead_patch m₀ _ h (show bdBuflCtrlOffset.toNat < 64 by decide),
    bdRead_patch m₀ _ h (show bdUsrhOffset.toNat < 64 by decide),
    bdRead_patch m₀ _ h (show bdUsrlOffset.toNat < 64 by decide)]

theorem fromHwLoop_patch (h : Covers S r) (rd : ℕ → Mem) (left x : ℕ) (s : FromHwLoop) :
    fromHwLoop r (fun t => patch S m₀ (rd t)) left (bdAt r x) s =
      fromHwLoop r rd left (bdAt r x) s := by
  induction left generalizing x s with
  | zero => rfl
  | succ left ih =>
    rw [fromHwLoop, fromHwLoop, bdSeen_patch m₀ (h.lies x), h.laid.next]
    dsimp only
    rw [ih]

/-! ## The ring functions -/

/-- The channel in a memory that is `m₀` outside of `S`. -/
noncomputable def Chan.patch (S : Set U32) (m₀ : Mem) (c : Chan) : Chan :=
  { c with mem := Footprint.patch S m₀ c.mem }

theorem bdRingAlloc_ok {numBd bdPtr : U32} (h : bdRingAlloc r numBd = .ok (bdPtr, r')) :
    bdPtr = r.freeHead ∧ r'.base = r.base := by
  rw [bdRingAlloc] at h
  split_ifs at h
  obtain ⟨rfl, rfl⟩ := Prod.mk.inj (Except.ok.inj h)
  exact ⟨rfl, rfl⟩

theorem bdRingToHw_base (c : Chan) (numBd bdSetPtr : U32) :
    (bdRingToHw c numBd bdSetPtr).2.ring.base = c.ring.base := by
  unfold bdRingToHw
  dsimp only
  split_ifs <;> rfl

theorem bdRingToHw_patch (h : Covers S c.ring) (numBd : U32) (x : ℕ) :
    bdRingToHw (c.patch S m₀) numBd (bdAt c.ring x) =
      ((bdRingToHw c numBd (bdAt c.ring x)).1,
        (bdRingToHw c numBd (bdAt c.ring x)).2.patch S m₀) := by
  unfold bdRingToHw Chan.patch
  dsimp only
  rw [bdRead_patch m₀ c.mem (h.lies x) (by decide), toHwLoop_patch m₀ c.mem h]
  split_ifs <;> rfl

theorem bdRingFree_patch (h : Covers S c.ring) (numBd : U32) (x : ℕ) :
    bdRingFree (c.patch S m₀) numBd (bdAt c.ring x) =
      (bdRingFree c numBd (bdAt c.ring x)).map (Chan.patch S m₀) := by
  unfold bdRingFree Chan.patch
  dsimp only
  rw [freeLoop_patch m₀ c.mem h]
  split_ifs <;> rfl

theorem bdRingFromHw_patch (h : Covers S r) (hhead : ∃ x, r.hwHead = bdAt r x) (rd : ℕ → Mem)
    (bdLimit : U32) :
    bdRingFromHw r (fun t => patch S m₀ (rd t)) bdLimit = bdRingFromHw r rd bdLimit := by
  obtain ⟨x, hx⟩ := hhead
  unfold bdRingFromHw
  rw [hx, fromHwLoop_patch m₀ h]

theorem bdRingFromHw_base (r : BdRing) (rd : ℕ → Mem) (bdLimit : U32) :
    (bdRingFromHw r rd bdLimit).2.2.base = r.base := by
  unfold bdRingFromHw
  dsimp only
  split_ifs <;> rfl

/-- The BDs that are taken off start at `HwHead`. -/
theorem bdRingFromHw_ptr {rd : ℕ → Mem} {bdLimit : U32} (h : (bdRingFromHw r rd bdLimit).1 ≠ 0) :
    (bdRingFromHw r rd bdLimit).2.1 = r.hwHead := by
  unfold bdRingFromHw at h ⊢
  dsimp only at h ⊢
  split_ifs at h ⊢ <;> first | exact absurd rfl h | rfl

theorem bdRingForceFromHw_base (r : BdRing) (bdLimit : U32) :
    (bdRingForceFromHw r bdLimit).2.2.base = r.base := by
  unfold bdRingForceFromHw
  dsimp only
  split_ifs <;> rfl

theorem bdRingForceFromHw_ptr {bdLimit : U32} (h : (bdRingForceFromHw r bdLimit).1 ≠ 0) :
    (bdRingForceFromHw r bdLimit).2.1 = r.hwHead := by
  unfold bdRingForceFromHw at h ⊢
  dsimp only at h ⊢
  split_ifs at h ⊢ <;> first | exact absurd rfl h | rfl

/-! ## `DmaSendPkt` and `DmaSetupRecvBuffers` -/

theorem recoverBd_patch (dir : DmaDirection) (h : Lies S bd) :
    recoverBd dir (patch S m₀ m) bd = recoverBd dir m bd := by
  unfold recoverBd bdGetBufAddr bdGetCtrlLength
  rw [bdRead_patch m₀ m h (by decide), bdRead_patch m₀ m h (by decide)]

theorem recoverBds_patch (h : Covers S c.ring) (dir : DmaDirection) (count x : ℕ) :
    recoverBds dir count (bdAt c.ring x) (c.patch S m₀) =
      ((recoverBds dir count (bdAt c.ring x) c).1.patch S m₀,
        (recoverBds dir count (bdAt c.ring x) c).2) := by
  unfold recoverBds Chan.patch
  dsimp only
  rw [takeLoop_patch m₀ c.mem h fun m₀ m bd hbd => recoverBd_patch m₀ m dir hbd]

/-- The packets are filled in. -/
theorem sendFill_patch (h : Covers S c.ring) (hfree : ∃ x, c.ring.freeHead = bdAt c.ring x)
    (thBhIsr : Bool) (bus : ℕ → U32) (pkts : List PktBuf) (intrCount : U32) :
    sendFill thBhIsr bus pkts (c.patch S m₀) intrCount =
      (sendFill thBhIsr bus pkts c intrCount).map fun t =>
        (t.1, t.2.1.patch S m₀, t.2.2.1, t.2.2.2) := by
  obtain ⟨x, hx⟩ := hfree
  unfold sendFill Chan.patch
  dsimp only
  by_cases hlow : c.ring.freeCnt.toNat ≤ 2
  · rw [if_pos hlow, if_pos hlow]
    rfl
  · rw [if_neg hlow, if_neg hlow]
    cases halloc : bdRingAlloc c.ring (BitVec.ofNat 32 (min pkts.length (c.ring.freeCnt.toNat - 2)))
      with
    | error status => rfl
    | ok got =>
      obtain ⟨bdPtr, r'⟩ := got
      obtain ⟨rfl, hbase⟩ := bdRingAlloc_ok halloc
      have hb := block_of_base hbase
      dsimp only
      rw [hx, ← bdAt_congr hb, walkBds_patch m₀ c.mem (h.congr hb) fun i => confines_sendBd _ _ _ _]
      rfl

theorem recvFill_patch (h : Covers S c.ring) (hfree : ∃ x, c.ring.freeHead = bdAt c.ring x)
    (thBhIsr : Bool) (bus : ℕ → U32) (pkts : List PktBuf) (intrCount : U32) :
    recvFill thBhIsr bus pkts (c.patch S m₀) intrCount =
      (recvFill thBhIsr bus pkts c intrCount).map fun t =>
        (t.1, t.2.1.patch S m₀, t.2.2.1, t.2.2.2) := by
  obtain ⟨x, hx⟩ := hfree
  unfold recvFill Chan.patch
  dsimp only
  cases halloc : bdRingAlloc c.ring (BitVec.ofNat 32 pkts.length) with
  | error status => rfl
  | ok got =>
    obtain ⟨bdPtr, r'⟩ := got
    obtain ⟨rfl, hbase⟩ := bdRingAlloc_ok halloc
    have hb := block_of_base hbase
    dsimp only
    rw [hx, ← bdAt_congr hb, walkBds_patch m₀ c.mem (h.congr hb) fun i => confines_recvBd _ _ _ _]
    rfl

theorem recvFill_some {thBhIsr : Bool} {bus : ℕ → U32} {pkts : List PktBuf} {intrCount ic : U32}
    {bdPtr : U32} {c' : Chan} {evs : List Ev}
    (h : recvFill thBhIsr bus pkts c intrCount = some (bdPtr, c', ic, evs)) :
    bdPtr = c.ring.freeHead ∧ c'.ring.base = c.ring.base := by
  unfold recvFill at h
  dsimp only at h
  cases halloc : bdRingAlloc c.ring (BitVec.ofNat 32 pkts.length) with
  | error status =>
    rw [halloc] at h
    cases h
  | ok got =>
    obtain ⟨ptr, r'⟩ := got
    rw [halloc] at h
    obtain ⟨rfl, rfl, -⟩ := Option.some.inj h
    exact bdRingAlloc_ok halloc

/-- What `sendFill` leaves for the rest of `DmaSendPkt`. -/
theorem sendFill_some {thBhIsr : Bool} {bus : ℕ → U32} {pkts : List PktBuf} {intrCount ic : U32}
    {s : Sending} {c' : Chan} {evs : List Ev}
    (h : sendFill thBhIsr bus pkts c intrCount = some (s, c', ic, evs)) :
    s.bdPtr = c.ring.freeHead ∧ c'.ring.base = c.ring.base ∧
      s.vars = sendVars c.ring (pkts.take (c.ring.freeCnt.toNat - 2)) c.ring.freeHead
        { partialBDcount := 0, partialOK := false, partialBDPtr := 0 } := by
  unfold sendFill at h
  dsimp only at h
  by_cases hlow : c.ring.freeCnt.toNat ≤ 2
  · rw [if_pos hlow] at h
    cases h
  rw [if_neg hlow] at h
  cases halloc : bdRingAlloc c.ring (BitVec.ofNat 32 (min pkts.length (c.ring.freeCnt.toNat - 2)))
    with
  | error status =>
    rw [halloc] at h
    cases h
  | ok got =>
    obtain ⟨bdPtr, r'⟩ := got
    obtain ⟨rfl, hbase⟩ := bdRingAlloc_ok halloc
    rw [halloc] at h
    obtain ⟨rfl, rfl, -⟩ := Option.some.inj h
    refine ⟨rfl, hbase, ?_⟩
    rw [sendVars_congr (block_of_base hbase), Nat.min_comm, ← List.take_eq_take_min]

theorem sendFinish_patch (h : Covers S c.ring) {s : Sending} (hptr : ∃ x, s.bdPtr = bdAt c.ring x)
    (hpart : s.vars.partialBDcount ≠ 0 → ∃ x, s.vars.partialBDPtr = bdAt c.ring x)
    (result : XStatus) :
    sendFinish s result (c.patch S m₀) =
      ((sendFinish s result c).1, (sendFinish s result c).2.1.patch S m₀,
        (sendFinish s result c).2.2) := by
  obtain ⟨x, hx⟩ := hptr
  unfold sendFinish
  split_ifs with hfail hopen
  · dsimp only
    rw [hx, recoverBds_patch m₀ h]
  · obtain ⟨y, hy⟩ := hpart hopen
    dsimp only
    rw [hy, recoverBds_patch m₀ h]
  · rfl

/-- **`DmaSendPkt`.** -/
theorem dmaSendPkt_patch (h : Covers S c.ring) (hparts : Parts c.ring g) (thBhIsr : Bool)
    (bus : ℕ → U32) (pkts : List PktBuf) (intrCount : U32)
    (hanch : c.ring.isRxChannel = false → Anchored (pkts.take (c.ring.freeCnt.toNat - 2))) :
    dmaSendPkt .initialized .userAssigned thBhIsr bus pkts (c.patch S m₀) intrCount =
      ((dmaSendPkt .initialized .userAssigned thBhIsr bus pkts c intrCount).1,
        (dmaSendPkt .initialized .userAssigned thBhIsr bus pkts c intrCount).2.1.patch S m₀,
        (dmaSendPkt .initialized .userAssigned thBhIsr bus pkts c intrCount).2.2) := by
  have hring : (c.patch S m₀).ring = c.ring := rfl
  unfold dmaSendPkt
  rw [hring]
  by_cases hno : DmaState.initialized ≠ .initialized ∨ pkts = [] ∨
      DmaState.userAssigned ≠ .userAssigned ∨ c.ring.isRxChannel = true
  · rw [if_pos hno, if_pos hno]
  rw [if_neg hno, if_neg hno, sendFill_patch m₀ h ⟨_, hparts.freeHead⟩]
  have htx : c.ring.isRxChannel = false := by
    rw [← Bool.not_eq_true]
    exact fun hrx => hno (Or.inr (Or.inr (Or.inr hrx)))
  cases hfill : sendFill thBhIsr bus pkts c intrCount with
  | none => rfl
  | some t =>
    obtain ⟨s, c', ic, evs⟩ := t
    obtain ⟨hptr, hbase, hvars⟩ := sendFill_some hfill
    have hb := block_of_base hbase
    have hbd := bdAt_congr hb
    have hcov' := h.congr hb
    have hstart : s.bdPtr = bdAt c'.ring g.freePos := by rw [hbd, hptr, hparts.freeHead]
    -- The open fragments begin on the ring.
    have hopen : s.vars.partialBDcount ≠ 0 → ∃ x, s.vars.partialBDPtr = bdAt c'.ring x := by
      obtain ⟨hcount, hlast⟩ :=
        sendVars_spec h.laid (pkts.take (c.ring.freeCnt.toNat - 2)) g.freePos
      rw [hvars, hparts.freeHead, hcount, hbd]
      exact fun hne => ⟨_, hlast (hanch htx) fun hnil => hne (by rw [hnil]; rfl)⟩
    have hsubmit : sendSubmit s (c'.patch S m₀) =
        ((sendSubmit s c').1, (sendSubmit s c').2.patch S m₀) := by
      rw [sendSubmit, sendSubmit, hstart, bdRingToHw_patch m₀ hcov']
    have hb' : (sendSubmit s c').2.ring.block = c'.ring.block :=
      block_of_base (bdRingToHw_base _ _ _)
    have hbd' := bdAt_congr hb'
    simp only [Option.map_some]
    rw [hsubmit]
    dsimp only
    rw [sendFinish_patch m₀ (hcov'.congr hb') ⟨g.freePos, by rw [hbd', hstart]⟩ fun hne => ?_]
    obtain ⟨y, hy⟩ := hopen hne
    exact ⟨y, by rw [hbd', hy]⟩

variable {υ : Type} {user : UserPtrs υ} {d : Dev υ}

/-- The same for what a section sees. -/
noncomputable def Dev.patch (S : Set U32) (m₀ : Mem) (d : Dev υ) : Dev υ :=
  { d with chan := d.chan.patch S m₀ }

noncomputable def RecvPass.patch (S : Set U32) (m₀ : Mem) (p : RecvPass υ) : RecvPass υ :=
  { p with dev := p.dev.patch S m₀ }

/-- One pass of the outer loop of `DmaSetupRecvBuffers`. -/
theorem recvPass_patch (h : Covers S d.chan.ring)
    (hfree : ∃ x, d.chan.ring.freeHead = bdAt d.chan.ring x) (user : UserPtrs υ) (thBhIsr : Bool)
    (bus : ℕ → U32) (freeBdCount : ℕ) :
    recvPass user thBhIsr bus freeBdCount (d.patch S m₀) =
      (recvPass user thBhIsr bus freeBdCount d).patch S m₀ := by
  unfold recvPass
  have huser : (d.patch S m₀).user = d.user := rfl
  have hchan : (d.patch S m₀).chan = d.chan.patch S m₀ := rfl
  have hcount : (d.patch S m₀).intrCount = d.intrCount := rfl
  simp only [huser, hchan, hcount]
  by_cases hnone : (user.getPkt d.user freeBdCount).1.length = 0
  · rw [if_pos hnone, if_pos hnone]
    rfl
  rw [if_neg hnone, if_neg hnone, recvFill_patch m₀ h hfree]
  cases hfill : recvFill thBhIsr bus (user.getPkt d.user freeBdCount).1 d.chan d.intrCount with
  | none => rfl
  | some t =>
    obtain ⟨bdPtr, c', ic, maps⟩ := t
    obtain ⟨rfl, hbase⟩ := recvFill_some hfill
    obtain ⟨x, hx⟩ := hfree
    have hb := block_of_base hbase
    have hbd := bdAt_congr hb
    have hcov' := h.congr hb
    have hb' : ∀ n, (bdRingToHw c' n (bdAt c'.ring x)).2.ring.block = c'.ring.block := fun n =>
      block_of_base (bdRingToHw_base _ _ _)
    simp only [Option.map_some]
    rw [hx, ← hbd, bdRingToHw_patch m₀ hcov']
    dsimp only
    by_cases hfail : (bdRingToHw c' (BitVec.ofNat 32 (user.getPkt d.user freeBdCount).1.length)
        (bdAt c'.ring x)).1 ≠ .success
    · rw [if_pos hfail, if_pos hfail]
      have hrec := recoverBds_patch m₀ (hcov'.congr (hb' (BitVec.ofNat 32
        (user.getPkt d.user freeBdCount).1.length))) .fromDevice
        (user.getPkt d.user freeBdCount).1.length x
      rw [bdAt_congr (hb' _)] at hrec
      rw [hrec]
      rfl
    · rw [if_neg hfail, if_neg hfail]
      rfl

theorem setupRecvLoop_patch (user : UserPtrs υ) (thBhIsr : Bool) (bound : ℕ) (bus : ℕ → U32)
    (freeBdCount : ℕ) (d : Dev υ) (g : Split) (hcov : Covers S d.chan.ring)
    (h : Parts d.chan.ring g) (hpre : g.pre = 0) (hrx : d.chan.ring.isRxChannel = true)
    (hfree : freeBdCount + 2 ≤ g.free) :
    setupRecvLoop user thBhIsr bound bus freeBdCount (d.patch S m₀) =
      ((setupRecvLoop user thBhIsr bound bus freeBdCount d).1.patch S m₀,
        (setupRecvLoop user thBhIsr bound bus freeBdCount d).2) := by
  induction bound generalizing bus freeBdCount d g with
  | zero => rfl
  | succ bound ih =>
    obtain ⟨g', hout⟩ := h.recvPass user thBhIsr hpre hrx bus (show freeBdCount ≤ g.free by omega)
    rw [setupRecvLoop_succ, setupRecvLoop_succ, recvPass_patch m₀ hcov ⟨_, h.freeHead⟩]
    dsimp only
    generalize recvPass user thBhIsr bus freeBdCount d = p at hout ⊢
    have hsame : ((p.patch S m₀).goesOn = true ∧ 0 < freeBdCount - (p.patch S m₀).numgot) ↔
        p.goesOn = true ∧ 0 < freeBdCount - p.numgot := Iff.rfl
    by_cases hgoes : p.goesOn = true ∧ 0 < freeBdCount - p.numgot
    · rw [if_pos hgoes, if_pos (hsame.2 hgoes)]
      obtain ⟨hgoes, hleft⟩ := hgoes
      cases hout with
      | nothing => cases hgoes
      | refused => cases hgoes
      | queued pkts u c intrCount hn hgot hne hparts hbase hloads =>
        have hb := block_of_base hbase
        dsimp only at hleft
        have hrest := ih (fun i => bus (pkts.length + i)) (freeBdCount - pkts.length)
          { chan := c, intrCount := intrCount, user := u } (g.queue pkts.length hn)
          (hcov.congr hb) hparts hpre ((isRx_congr hb).trans hrx)
          (show freeBdCount - pkts.length + 2 ≤ g.free - pkts.length by omega)
        exact congrArg (fun rest => (rest.1, _ ++ rest.2)) hrest
    · rw [if_neg hgoes, if_neg (mt hsame.1 hgoes)]
      rfl

/-- **The second section of `PktHandler`.** -/
theorem pktHandlerRefill_patch (hcov : Covers S d.chan.ring) (h : Parts d.chan.ring g)
    (hpre : g.pre = 0) (user : UserPtrs υ) (thBhIsr : Bool) (bus : ℕ → U32) :
    pktHandlerRefill user thBhIsr bus (d.patch S m₀) =
      ((pktHandlerRefill user thBhIsr bus d).1.patch S m₀,
        (pktHandlerRefill user thBhIsr bus d).2) := by
  have hring : (d.patch S m₀).chan.ring = d.chan.ring := rfl
  unfold pktHandlerRefill setupRecvBuffers
  simp only [hring, h.freeCnt]
  by_cases hrx : d.chan.ring.isRxChannel = true
  · rw [if_pos hrx, if_pos hrx]
    by_cases hlow : g.free ≤ 2
    · rw [if_pos hlow, if_pos hlow]
    · rw [if_neg hlow, if_neg hlow]
      exact setupRecvLoop_patch m₀ user thBhIsr _ bus _ d g hcov h hpre hrx (by omega)
  · rw [if_neg hrx, if_neg hrx]

/-! ## `PktHandler` and `descriptor_free` -/

theorem retrievedPkt_patch (h : Lies S bd) :
    retrievedPkt (patch S m₀ m) bd = retrievedPkt m bd := by
  unfold retrievedPkt bdGetId bdGetStatLength bdGetStatus bdGetUserData
  simp only [bdRead_patch m₀ m h (show bdVbufalOffset.toNat < 64 by decide),
    bdRead_patch m₀ m h (show bdBuflStatusOffset.toNat < 64 by decide),
    bdRead_patch m₀ m h (show bdUsrhOffset.toNat < 64 by decide),
    bdRead_patch m₀ m h (show bdUsrlOffset.toNat < 64 by decide)]

theorem handleBd_patch (dir : DmaDirection) (h : Lies S bd) :
    handleBd dir (patch S m₀ m) bd = handleBd dir m bd := by
  unfold handleBd bdGetBufAddr
  rw [retrievedPkt_patch m₀ m h, bdRead_patch m₀ m h (by decide)]

theorem handleBds_patch (h : Covers S c.ring) (n x : ℕ) :
    handleBds n (bdAt c.ring x) (c.patch S m₀) =
      ((handleBds n (bdAt c.ring x) c).1, (handleBds n (bdAt c.ring x) c).2.1.patch S m₀,
        (handleBds n (bdAt c.ring x) c).2.2) := by
  have htaken := takeLoop_patch m₀ c.mem h
    (fun m₀ m bd hbd => handleBd_patch m₀ m (dirOf c.ring) hbd) n x
  have hfree := bdRingFree_patch m₀
    (c := { c with mem := (takeLoop c.ring (handleBd (dirOf c.ring)) n c.mem (bdAt c.ring x)).2 })
    h (BitVec.ofNat 32 n) x
  unfold handleBds
  simp only [Chan.patch] at hfree ⊢
  rw [htaken]
  dsimp only
  rw [hfree]
  cases bdRingFree { c with
      mem := (takeLoop c.ring (handleBd (dirOf c.ring)) n c.mem (bdAt c.ring x)).2 }
      (BitVec.ofNat 32 n) (bdAt c.ring x) <;> rfl

/-- **The first section of `PktHandler`.** -/
theorem pktHandlerRetrieve_patch (hcov : Covers S c.ring) (h : Parts c.ring g) (rd : ℕ → Mem) :
    pktHandlerRetrieve (fun t => patch S m₀ (rd t)) (c.patch S m₀) =
      ((pktHandlerRetrieve rd c).1, (pktHandlerRetrieve rd c).2.1.patch S m₀,
        (pktHandlerRetrieve rd c).2.2) := by
  have hring : (c.patch S m₀).ring = c.ring := rfl
  have hb : (bdRingFromHw c.ring rd dmaBdCnt).2.2.block = c.ring.block :=
    block_of_base (bdRingFromHw_base _ _ _)
  unfold pktHandlerRetrieve
  simp only [hring, bdRingFromHw_patch m₀ hcov ⟨_, h.hwHead⟩]
  by_cases hzero : (bdRingFromHw c.ring rd dmaBdCnt).1 = 0
  · rw [if_pos hzero, if_pos hzero]
    rfl
  · rw [if_neg hzero, if_neg hzero, bdRingFromHw_ptr hzero, h.hwHead, ← bdAt_congr hb]
    exact handleBds_patch m₀
      (c := { c with ring := (bdRingFromHw c.ring rd dmaBdCnt).2.2 }) (hcov.congr hb) _ _

theorem forcedPkt_patch (h : Lies S bd) : forcedPkt (patch S m₀ m) bd = forcedPkt m bd := by
  unfold forcedPkt bdGetId bdGetCtrlLength bdGetUserData
  simp only [bdRead_patch m₀ m h (show bdVbufalOffset.toNat < 64 by decide),
    bdRead_patch m₀ m h (show bdBuflCtrlOffset.toNat < 64 by decide),
    bdRead_patch m₀ m h (show bdUsrhOffset.toNat < 64 by decide),
    bdRead_patch m₀ m h (show bdUsrlOffset.toNat < 64 by decide)]

theorem forceBd_patch (dir : DmaDirection) (h : Lies S bd) :
    forceBd dir (patch S m₀ m) bd = forceBd dir m bd := by
  unfold forceBd bdGetBufAddr
  rw [forcedPkt_patch m₀ m h, bdRead_patch m₀ m h (by decide)]

/-- The first section of `descriptor_free`. -/
theorem descriptorFreeForce_patch (hcov : Covers S c.ring) (h : Parts c.ring g) :
    descriptorFreeForce (c.patch S m₀) =
      ((descriptorFreeForce c).1, (descriptorFreeForce c).2.1,
        (descriptorFreeForce c).2.2.1.patch S m₀, (descriptorFreeForce c).2.2.2) := by
  have hring : (c.patch S m₀).ring = c.ring := rfl
  have hb : (bdRingForceFromHw c.ring dmaBdCnt).2.2.block = c.ring.block :=
    block_of_base (bdRingForceFromHw_base _ _)
  unfold descriptorFreeForce
  simp only [hring]
  by_cases hzero : (bdRingForceFromHw c.ring dmaBdCnt).1 = 0
  · rw [if_pos hzero, if_pos hzero]
    rfl
  · rw [if_neg hzero, if_neg hzero, bdRingForceFromHw_ptr hzero, h.hwHead, ← bdAt_congr hb]
    have htaken := takeLoop_patch m₀ c.mem (hcov.congr hb)
      (fun m₀ m bd hbd => forceBd_patch m₀ m (dirOf (bdRingForceFromHw c.ring dmaBdCnt).2.2) hbd)
      (bdRingForceFromHw c.ring dmaBdCnt).1 g.hwPos
    simp only [Chan.patch]
    rw [htaken]

/-- The second section, on what the first one has taken. -/
theorem descriptorFreeBds_patch (hcov : Covers S c.ring) {bds : ℕ × U32}
    (hbds : bds.1 ≠ 0 → ∃ x, bds.2 = bdAt c.ring x) :
    descriptorFreeBds bds (c.patch S m₀) = (descriptorFreeBds bds c).patch S m₀ := by
  unfold descriptorFreeBds
  by_cases hzero : bds.1 = 0
  · rw [if_pos hzero, if_pos hzero]
  · obtain ⟨x, hx⟩ := hbds hzero
    rw [if_neg hzero, if_neg hzero, hx, bdRingFree_patch m₀ hcov]
    cases bdRingFree c (BitVec.ofNat 32 bds.1) (bdAt c.ring x) <;> rfl

theorem descriptorFreeForce_bds (h : Parts c.ring g) :
    (descriptorFreeForce c).2.2.1.ring.block = c.ring.block ∧
      ((descriptorFreeForce c).2.1.1 ≠ 0 →
        ∃ x, (descriptorFreeForce c).2.1.2 = bdAt (descriptorFreeForce c).2.2.1.ring x) := by
  have hb : (bdRingForceFromHw c.ring dmaBdCnt).2.2.block = c.ring.block :=
    block_of_base (bdRingForceFromHw_base _ _)
  unfold descriptorFreeForce
  dsimp only
  by_cases hzero : (bdRingForceFromHw c.ring dmaBdCnt).1 = 0
  · rw [if_pos hzero]
    exact ⟨hb, fun hne => absurd rfl hne⟩
  · rw [if_neg hzero]
    refine ⟨hb, fun _ => ⟨g.hwPos, ?_⟩⟩
    rw [bdRingForceFromHw_ptr hzero, h.hwHead, bdAt_congr hb]

/-- The engine. -/
theorem engineWrite_patch (hcov : Covers S c.ring) (i : ℕ) (status usrl usrh : U32) :
    engineWrite (c.patch S m₀) i status usrl usrh =
      (engineWrite c i status usrl usrh).patch S m₀ := by
  have hwrite : hwWrite (patch S m₀ c.mem) (bdAt c.ring i) status usrl usrh =
      patch S m₀ (hwWrite c.mem (bdAt c.ring i) status usrl usrh) :=
    confines_hwWrite status usrl usrh m₀ c.mem _ (hcov.lies i)
  unfold engineWrite Chan.patch
  dsimp only
  rw [hwrite]

end Dma
