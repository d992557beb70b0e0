import MyDriver.Xdma.Queue

/-!
# The raw data driver: `xrawdata0/sguser.c`

The user driver of the two raw data engines. It keeps its packet buffers in two pools, one for
transmission and one for reception. A pool is an array of pages that is used round and round: a
buffer is allocated at `FreePtr` and given back either at the other end (`FreeUsedBuf`) or where it
was allocated (`FreeUnusedBuf`), and both give back by count only. `window` lists the buffers that
are out; the two ways of freeing drop them from its two ends.

`DmaSetupTransmit` is cut in three: taking buffers under `RawLock`, `DmaSendPkt`, and giving the
surplus back under `RawLock`. The contents of the buffers (`FormatBuffer`) are left out.
-/

namespace Dma

open Cyclic

/-! ## Buffer pools -/

/-- `BUFSIZE`, a page. -/
def bufSize : ℕ := 4096

/-- A buffer pool. -/
structure Buffer where
  totalNum : ℕ
  allocNum : ℕ
  firstBuf : ℕ
  lastBuf : ℕ
  freePtr : ℕ
  allocPtr : ℕ
  origVA : ℕ → U32

/-- `InitBuffers`, when `num` pages could be had and `bufVA i` is the `i`-th of them. -/
def initBuffers (bufVA : ℕ → U32) (num : ℕ) : Buffer where
  totalNum := num
  allocNum := 0
  firstBuf := 0
  lastBuf := num
  freePtr := 0
  allocPtr := 0
  origVA := bufVA

def allocBuf (b : Buffer) : Option (U32 × Buffer) :=
  if b.allocNum = b.totalNum then none
  else some (b.origVA b.freePtr, { b with
    freePtr := if b.freePtr + 1 = b.lastBuf then 0 else b.freePtr + 1
    allocNum := b.allocNum + 1 })

/-- Frees from the end that was allocated first. -/
def freeUsedBuf : ℕ → Buffer → Buffer
  | 0, b => b
  | num + 1, b =>
    if b.allocNum = 0 then b
    else freeUsedBuf num { b with
      allocPtr := if b.allocPtr + 1 = b.lastBuf then 0 else b.allocPtr + 1
      allocNum := b.allocNum - 1 }

/-- Frees from the end that was allocated last. -/
def freeUnusedBuf : ℕ → Buffer → Buffer
  | 0, b => b
  | num + 1, b =>
    if b.allocNum = 0 then b
    else freeUnusedBuf num { b with
      freePtr := (if b.freePtr = 0 then b.lastBuf else b.freePtr) - 1
      allocNum := b.allocNum - 1 }

/-- The buffers that are out, in the order of their allocation. -/
def window (b : Buffer) : List U32 :=
  arc (fun x => b.origVA (x % b.totalNum)) b.allocPtr b.allocNum

/-- The pool of the `num` pages `bufVA`, with pointers that fit its counters. -/
structure Pooled (bufVA : ℕ → U32) (num : ℕ) (b : Buffer) : Prop where
  total : b.totalNum = num
  last : b.lastBuf = num
  va : b.origVA = bufVA
  le : b.allocNum ≤ num
  alloc : b.allocPtr = b.allocPtr % num
  free : b.freePtr = (b.allocPtr + b.allocNum) % num

section Pools

variable {bufVA : ℕ → U32} {num : ℕ}

theorem initBuffers_pooled (bufVA : ℕ → U32) (num : ℕ) :
    Pooled bufVA num (initBuffers bufVA num) :=
  ⟨rfl, rfl, rfl, Nat.zero_le _, (Nat.zero_mod num).symm, (Nat.zero_mod num).symm⟩

theorem length_window (b : Buffer) : (window b).length = b.allocNum := length_arc _ _ _

theorem Pooled.window_eq {b : Buffer} (h : Pooled bufVA num b) :
    window b = arc (fun x => bufVA (x % num)) b.allocPtr b.allocNum := by
  rw [window, h.total, h.va]

/-- One step up in an array that is used round and round. -/
theorem succ_wrap {x n : ℕ} (hn : 0 < n) :
    (if x % n + 1 = n then 0 else x % n + 1) = (x + 1) % n := by
  have hx := Nat.mod_lt x hn
  have hmod : (x + 1) % n = (x % n + 1) % n := (Nat.mod_add_mod x n 1).symm
  rw [hmod]
  split_ifs with hend
  · rw [hend, Nat.mod_self]
  · exact (Nat.mod_eq_of_lt (by omega)).symm

/-- One step down. -/
theorem pred_wrap {x n : ℕ} (hn : 0 < n) :
    (if (x + 1) % n = 0 then n else (x + 1) % n) - 1 = x % n := by
  have hx := Nat.mod_lt x hn
  rw [← succ_wrap hn]
  by_cases hend : x % n + 1 = n
  · rw [if_pos hend, if_pos rfl]
    omega
  · rw [if_neg hend, if_neg (Nat.succ_ne_zero _)]
    rfl

theorem Pooled.allocBuf {b b' : Buffer} {va : U32} (h : Pooled bufVA num b)
    (hok : allocBuf b = some (va, b')) : Pooled bufVA num b' ∧ window b' = window b ++ [va] := by
  obtain ⟨htotal, hlast, hva, hle, halloc, hfree⟩ := h
  unfold Dma.allocBuf at hok
  by_cases hfull : b.allocNum = b.totalNum
  · rw [if_pos hfull] at hok
    cases hok
  rw [if_neg hfull] at hok
  simp only [Option.some.injEq, Prod.mk.injEq] at hok
  obtain ⟨rfl, rfl⟩ := hok
  refine ⟨⟨htotal, hlast, hva, ?_, halloc, ?_⟩, ?_⟩
  · show b.allocNum + 1 ≤ num
    omega
  · show (if b.freePtr + 1 = b.lastBuf then 0 else b.freePtr + 1) = _
    rw [hlast, hfree, succ_wrap (by omega)]
    rfl
  · show arc _ b.allocPtr (b.allocNum + 1) = _
    rw [arc_concat, hfree, window, htotal]

theorem Pooled.freeUsedBuf {b : Buffer} (h : Pooled bufVA num b) {k : ℕ} (hk : k ≤ b.allocNum) :
    Pooled bufVA num (freeUsedBuf k b) ∧ window (freeUsedBuf k b) = (window b).drop k := by
  induction k generalizing b with
  | zero => exact ⟨h, rfl⟩
  | succ k ih =>
    obtain ⟨htotal, hlast, hva, hle, halloc, hfree⟩ := h
    have hpos : 0 < num := by omega
    have hnext : (if b.allocPtr + 1 = b.lastBuf then 0 else b.allocPtr + 1) =
        (b.allocPtr + 1) % num := by
      rw [hlast, halloc, succ_wrap hpos, Nat.mod_add_mod]
    have hb : Pooled bufVA num { b with
        allocPtr := (b.allocPtr + 1) % num, allocNum := b.allocNum - 1 } := by
      refine ⟨htotal, hlast, hva, ?_, (Nat.mod_mod _ _).symm, ?_⟩
      · show b.allocNum - 1 ≤ num
        omega
      · show b.freePtr = ((b.allocPtr + 1) % num + (b.allocNum - 1)) % num
        rw [hfree, Nat.mod_add_mod]
        congr 1
        omega
    rw [Dma.freeUsedBuf, if_neg (by omega), hnext]
    obtain ⟨hp, hw⟩ := ih hb (by show k ≤ b.allocNum - 1; omega)
    refine ⟨hp, ?_⟩
    rw [hw]
    show (arc (fun x => b.origVA (x % b.totalNum)) ((b.allocPtr + 1) % num) _).drop k = _
    rw [htotal, arc_mod, window, htotal,
      ← Nat.sub_add_cancel (show 1 ≤ b.allocNum by omega), arc_succ]
    rfl

theorem Pooled.freeUnusedBuf {b : Buffer} (h : Pooled bufVA num b) {k : ℕ}
    (hk : k ≤ b.allocNum) : Pooled bufVA num (freeUnusedBuf k b) ∧
      window (freeUnusedBuf k b) = (window b).take (b.allocNum - k) := by
  induction k generalizing b with
  | zero => exact ⟨h, by rw [Nat.sub_zero, ← length_window, List.take_length]; rfl⟩
  | succ k ih =>
    obtain ⟨htotal, hlast, hva, hle, halloc, hfree⟩ := h
    have hpos : 0 < num := by omega
    have hprev : (if b.freePtr = 0 then b.lastBuf else b.freePtr) - 1 =
        (b.allocPtr + (b.allocNum - 1)) % num := by
      have hwrap := pred_wrap (x := b.allocPtr + (b.allocNum - 1)) hpos
      rw [show b.allocPtr + (b.allocNum - 1) + 1 = b.allocPtr + b.allocNum by omega,
        ← hfree] at hwrap
      rwa [hlast]
    have hb : Pooled bufVA num { b with
        freePtr := (b.allocPtr + (b.allocNum - 1)) % num, allocNum := b.allocNum - 1 } := by
      refine ⟨htotal, hlast, hva, ?_, halloc, rfl⟩
      show b.allocNum - 1 ≤ num
      omega
    rw [Dma.freeUnusedBuf, if_neg (by omega), hprev]
    obtain ⟨hp, hw⟩ := ih hb (by show k ≤ b.allocNum - 1; omega)
    refine ⟨hp, ?_⟩
    rw [hw]
    show (arc _ b.allocPtr (b.allocNum - 1)).take (b.allocNum - 1 - k) = _
    rw [take_arc _ (by omega), window, take_arc _ (by omega), Nat.sub_sub, Nat.add_comm 1]

/-- The pages of a pool. -/
def pages (bufVA : ℕ → U32) (num : ℕ) : List U32 := (List.range num).map bufVA

/-- The buffers that are in the pool, in the order in which they will be allocated. -/
def freeBufs (b : Buffer) : List U32 :=
  arc (fun x => b.origVA (x % b.totalNum)) b.freePtr (b.totalNum - b.allocNum)

theorem pages_eq_arc (bufVA : ℕ → U32) (num : ℕ) :
    pages bufVA num = arc (fun x => bufVA (x % num)) 0 num := by
  rw [pages, List.range_eq_range', arc]
  refine List.map_congr_left fun x hx => ?_
  rw [Nat.mod_eq_of_lt (by simpa using hx)]

/-- **A buffer is either out or in the pool.** -/
theorem Pooled.perm {b : Buffer} (h : Pooled bufVA num b) (hpages : (pages bufVA num).Nodup) :
    (window b ++ freeBufs b).Perm (pages bufVA num) := by
  obtain ⟨htotal, -, hva, hle, -, hfree⟩ := h
  rw [window, freeBufs, hfree, htotal, hva, arc_mod, arc_append, Nat.add_sub_cancel' hle,
    pages_eq_arc]
  rcases Nat.eq_zero_or_pos num with rfl | hpos
  · rfl
  · refine arc_perm ⟨hpos, fun x => ?_, fun x y hx hy hxy => ?_⟩ _ _
    · rw [Nat.add_mod_right]
    · rw [Nat.mod_eq_of_lt hx, Nat.mod_eq_of_lt hy] at hxy
      exact List.inj_on_of_nodup_map hpages (List.mem_range.2 hx) (List.mem_range.2 hy) hxy

/-- What a loop that takes buffers leaves of its pool: the packets are named after the buffers that
have joined the window. -/
structure Took (bufVA : ℕ → U32) (num : ℕ) (b : Buffer) (pkts : List PktBuf) (b' : Buffer) :
    Prop where
  pooled : Pooled bufVA num b'
  window : window b' = window b ++ pkts.map PktBuf.bufInfo

theorem Took.nil {b : Buffer} (h : Pooled bufVA num b) : Took bufVA num b [] b :=
  ⟨h, (List.append_nil _).symm⟩

theorem Took.append {b b₁ b₂ : Buffer} {pkts pkts' : List PktBuf} (h : Took bufVA num b pkts b₁)
    (h' : Took bufVA num b₁ pkts' b₂) : Took bufVA num b (pkts ++ pkts') b₂ where
  pooled := h'.pooled
  window := by rw [h'.window, h.window, List.map_append, List.append_assoc]

theorem Took.one {b b' : Buffer} {va : U32} (h : Pooled bufVA num b)
    (hok : allocBuf b = some (va, b')) {p : PktBuf} (hp : p.bufInfo = va) :
    Took bufVA num b [p] b' := by
  obtain ⟨hpooled, hw⟩ := h.allocBuf hok
  exact ⟨hpooled, by rw [hw, List.map_singleton, hp]⟩

/-- Taking packets and giving all of them back changes nothing. -/
theorem Took.undo {b b' : Buffer} {pkts : List PktBuf} (h : Took bufVA num b pkts b') :
    Took bufVA num b [] (freeUnusedBuf pkts.length b') := by
  have hlen := congrArg List.length h.window
  rw [length_window, List.length_append, length_window, List.length_map] at hlen
  obtain ⟨hpooled, hw⟩ := h.pooled.freeUnusedBuf (k := pkts.length) (by omega)
  refine ⟨hpooled, ?_⟩
  rw [hw, h.window, List.map_nil, List.append_nil, hlen, Nat.add_sub_cancel, ← length_window,
    List.take_left]

end Pools

/-! ## Callbacks -/

/-- The driver states of `sguser.c`. -/
inductive RawState where
  | uninitialized
  | initialized
  | polling
  | registered
deriving DecidableEq, Repr

/-- The variables of the raw data driver: `handle[0]` is the handle of the transmit engine,
`handle[2]` that of the receive engine. -/
structure RawData where
  driverState : RawState
  handle0 : U32
  handle2 : U32
  txBufs : Buffer
  rxBufs : Buffer
  txSeqNo : BitVec 16

/-- Some packet is returned unused. -/
def anyUnused (pkts : List PktBuf) : Prop := ∃ p ∈ pkts, Flag p.flags pktUnused

instance (pkts : List PktBuf) : Decidable (anyUnused pkts) := by
  unfold anyUnused; infer_instance

/-- What both put callbacks do with their pool. -/
def putBufs (pkts : List PktBuf) (b : Buffer) : Buffer :=
  if anyUnused pkts then freeUnusedBuf pkts.length b else freeUsedBuf pkts.length b

def myPutRxPkt (hndl : U32) (raw : RawData) (pkts : List PktBuf) : RawData :=
  if raw.driverState ≠ .registered ∨ hndl ≠ raw.handle2 then raw
  else { raw with rxBufs := putBufs pkts raw.rxBufs }

def myPutTxPkt (hndl : U32) (raw : RawData) (pkts : List PktBuf) : RawData :=
  if raw.driverState ≠ .registered ∨ hndl ≠ raw.handle0 then raw
  else { raw with txBufs := putBufs pkts raw.txBufs }

/-- The loop of `myGetRxPkt`. The user driver sets no flags and no user word. -/
def getRxLoop : ℕ → Buffer → List PktBuf × Buffer
  | 0, b => ([], b)
  | num + 1, b =>
    match allocBuf b with
    | none => ([], b)
    | some (bufVA, b) =>
      let rest := getRxLoop num b
      ({ pktBuf := bufVA, bufInfo := bufVA, size := BitVec.ofNat 32 bufSize
         flags := 0, userInfo := 0 } :: rest.1, rest.2)

def myGetRxPkt (hndl : U32) (raw : RawData) (numpkts : ℕ) : List PktBuf × RawData :=
  if raw.driverState ≠ .registered ∨ hndl ≠ raw.handle2 then ([], raw)
  else
    let got := getRxLoop numpkts raw.rxBufs
    (got.1, { raw with rxBufs := got.2 })

theorem getRxLoop_took {bufVA : ℕ → U32} {n : ℕ} (num : ℕ) {b : Buffer} (h : Pooled bufVA n b) :
    Took bufVA n b (getRxLoop num b).1 (getRxLoop num b).2 := by
  induction num generalizing b with
  | zero => exact .nil h
  | succ num ih =>
    unfold getRxLoop
    cases hok : allocBuf b with
    | none => exact .nil h
    | some got => exact (Took.one h hok rfl).append (ih (h.allocBuf hok).1)

theorem getRxLoop_size (num : ℕ) (b : Buffer) :
    ∀ p ∈ (getRxLoop num b).1, p.size = BitVec.ofNat 32 bufSize := by
  induction num generalizing b with
  | zero =>
    intro p hp
    cases hp
  | succ num ih =>
    unfold getRxLoop
    cases allocBuf b with
    | none =>
      intro p hp
      cases hp
    | some got =>
      intro p hp
      rcases List.mem_cons.1 hp with rfl | hin
      · rfl
      · exact ih got.2 p hin

theorem length_getRxLoop_le (num : ℕ) (b : Buffer) : (getRxLoop num b).1.length ≤ num := by
  induction num generalizing b with
  | zero => exact le_rfl
  | succ num ih =>
    unfold getRxLoop
    cases allocBuf b with
    | none => exact Nat.zero_le _
    | some got => simpa using ih got.2

/-- The raw data driver as the user of the receive engine with handle `hndl`. -/
def rxUser (hndl : U32) : UserPtrs RawData where
  getPkt raw numpkts := myGetRxPkt hndl raw numpkts
  putPkt raw pkts := myPutRxPkt hndl raw pkts
  getPkt_le raw numpkts := by
    unfold myGetRxPkt
    split_ifs
    · exact Nat.zero_le _
    · exact length_getRxLoop_le _ _

theorem rxUser_size (hndl : U32) (raw : RawData) (num : ℕ) :
    ∀ p ∈ ((rxUser hndl).getPkt raw num).1, p.size = BitVec.ofNat 32 bufSize := by
  show ∀ p ∈ (myGetRxPkt hndl raw num).1, p.size = BitVec.ofNat 32 bufSize
  unfold myGetRxPkt
  split_ifs
  · intro p hp
    cases hp
  · exact getRxLoop_size _ _

/-- The raw data driver on a ring of five BDs, with two pages for reception. -/
def twoPages : Dev RawData where
  chan := (bdRingStart (bdRingCreate (initializedChan true fun _ => 0) 0 0x2000 64 5).2).2
  intrCount := 0
  user := {
    driverState := .registered
    handle0 := 7
    handle2 := 9
    txBufs := initBuffers (fun _ => 0) 0
    rxBufs := initBuffers (fun i => BitVec.ofNat 32 (0x20000 + 0x1000 * i)) 2
    txSeqNo := 0 }

/-! ## `DmaSetupTransmit` -/

/-- The flags of a fragment. -/
def fragFlags (fragment total pktsize : ℕ) : U32 :=
  pktAll ||| (if fragment = 0 then bdSopMask else 0) ||| if total = pktsize then bdEopMask else 0

/-- The packet fragments loop: `total` when it stops, the fragments, and the pool. Every pass moves
`total` forward, so `pktsize` is enough for `bound`. -/
def fragLoop (txSeqNo : BitVec 16) (pktsize : ℕ) : ℕ → ℕ → ℕ → Buffer → ℕ × List PktBuf × Buffer
  | 0, total, _, b => (total, [], b)
  | bound + 1, total, fragment, b =>
    if total < pktsize then
      match allocBuf b with
      | none => (total, [], b)
      | some (bufVA, b) =>
        let bufsize := if pktsize < total + bufSize then pktsize - total else bufSize
        let rest := fragLoop txSeqNo pktsize bound (total + bufsize) (fragment + 1) b
        (rest.1,
          { pktBuf := bufVA, bufInfo := bufVA, size := BitVec.ofNat 32 bufsize
            flags := fragFlags fragment (total + bufsize) pktsize
            userInfo := txSeqNo.setWidth 64 } :: rest.2.1,
          rest.2.2)
    else (total, [], b)

/-- The total packets loop: how many packets are complete, their fragments, the pool and
`TxSeqNo`. -/
def packetLoop (pktsize : ℕ) : ℕ → Buffer → BitVec 16 → ℕ × List PktBuf × Buffer × BitVec 16
  | 0, b, txSeqNo => (0, [], b, txSeqNo)
  | num + 1, b, txSeqNo =>
    let frags := fragLoop txSeqNo pktsize pktsize 0 0 b
    if frags.1 < pktsize then
      -- The pool is exhausted: the fragments of the packet go back.
      (0, [], freeUnusedBuf frags.2.1.length frags.2.2, txSeqNo)
    else
      let rest := packetLoop pktsize num frags.2.2 (txSeqNo + 1)
      (rest.1 + 1, frags.2.1 ++ rest.2.1, rest.2.2)

/-- `DmaSetupTransmit` up to its call of `DmaSendPkt`: the packets and `origseqno`, or `none` when
it returns before the call. -/
def setupTransmitTake (hndl : U32) (num pktsize : ℕ) (raw : RawData) :
    Option (List PktBuf × BitVec 16) × RawData :=
  if raw.driverState ≠ .registered ∨ hndl ≠ raw.handle0 ∨ num = 0 then (none, raw)
  else
    let got := packetLoop pktsize num raw.txBufs raw.txSeqNo
    (if got.1 = 0 then none else some (got.2.1, raw.txSeqNo),
      { raw with txBufs := got.2.2.1, txSeqNo := got.2.2.2 })

/-- `DmaSetupTransmit` from the result of `DmaSendPkt` on. -/
def setupTransmitDone (pkts : List PktBuf) (origseqno : BitVec 16) (result : ℕ) (raw : RawData) :
    RawData :=
  if result = pkts.length then raw
  else { raw with
    txSeqNo := if result = 0 then origseqno else (pkts.getD result default).userInfo.setWidth 16
    txBufs := freeUnusedBuf (pkts.length - result) raw.txBufs }

theorem fragFlags_all (fragment total pktsize : ℕ) :
    Flag (fragFlags fragment total pktsize) pktAll := by
  unfold fragFlags
  split_ifs <;> decide

theorem fragFlags_sop (fragment total pktsize : ℕ) :
    Flag (fragFlags fragment total pktsize) bdSopMask ↔ decide (fragment = 0) = true := by
  rw [decide_eq_true_eq]
  unfold fragFlags
  split_ifs with h h' <;> simp only [h, iff_true, iff_false] <;> decide

theorem fragFlags_eop (fragment total pktsize : ℕ) :
    Flag (fragFlags fragment total pktsize) bdEopMask ↔ total = pktsize := by
  unfold fragFlags
  split_ifs with h h' <;> simp only [*, iff_true, iff_false] <;> decide

/-- The passes of the packet fragments loop from `total` on, with what it leaves in the end. -/
inductive Frags (txSeqNo : BitVec 16) (pktsize : ℕ) :
    ℕ → ℕ → Buffer → ℕ × List PktBuf × Buffer → Prop
  | stop {total fragment : ℕ} {b : Buffer} (hge : ¬ total < pktsize) :
    Frags txSeqNo pktsize total fragment b (total, [], b)
  | dry {total fragment : ℕ} {b : Buffer} (hlt : total < pktsize) (hnone : allocBuf b = none) :
    Frags txSeqNo pktsize total fragment b (total, [], b)
  | next {total fragment bufsize : ℕ} {b b' : Buffer} {va : U32} {rest : ℕ × List PktBuf × Buffer}
    (hlt : total < pktsize) (hok : allocBuf b = some (va, b'))
    (hsize : bufsize = min bufSize (pktsize - total))
    (hrest : Frags txSeqNo pktsize (total + bufsize) (fragment + 1) b' rest) :
    Frags txSeqNo pktsize total fragment b
      (rest.1,
        { pktBuf := va, bufInfo := va, size := BitVec.ofNat 32 bufsize
          flags := fragFlags fragment (total + bufsize) pktsize
          userInfo := txSeqNo.setWidth 64 } :: rest.2.1,
        rest.2.2)

theorem fragLoop_frags (txSeqNo : BitVec 16) (pktsize bound total fragment : ℕ) (b : Buffer)
    (hbound : pktsize ≤ total + bound) :
    Frags txSeqNo pktsize total fragment b
      (fragLoop txSeqNo pktsize bound total fragment b) := by
  induction bound generalizing total fragment b with
  | zero => exact .stop (by omega)
  | succ bound ih =>
    rw [fragLoop]
    by_cases hlt : total < pktsize
    · rw [if_pos hlt]
      cases hok : allocBuf b with
      | none => exact .dry hlt hok
      | some got =>
        obtain ⟨va, b'⟩ := got
        have hbuf : 0 < bufSize := by decide
        dsimp only
        set bufsize := if pktsize < total + bufSize then pktsize - total else bufSize with hbufsize
        have hsize : bufsize = min bufSize (pktsize - total) := by
          rw [hbufsize]
          split_ifs <;> omega
        exact .next hlt hok hsize (ih _ _ b' (by omega))
    · rw [if_neg hlt]
      exact .stop hlt

/-- The loop of `DmaSetupTransmit`, which starts at zero. -/
theorem fragLoop_all (txSeqNo : BitVec 16) (pktsize : ℕ) (b : Buffer) :
    Frags txSeqNo pktsize 0 0 b (fragLoop txSeqNo pktsize pktsize 0 0 b) :=
  fragLoop_frags txSeqNo pktsize pktsize 0 0 b (Nat.le_add_left _ _)

namespace Frags

variable {txSeqNo : BitVec 16} {pktsize total fragment : ℕ} {b : Buffer}
  {frags : ℕ × List PktBuf × Buffer}

/-- The loop goes on while there is something left of the packet. -/
theorem left (h : Frags txSeqNo pktsize total fragment b frags) (hwhole : ¬ frags.1 < pktsize) :
    frags.2.1 = [] ↔ ¬ total < pktsize := by
  cases h with
  | stop hge => exact iff_of_true rfl hge
  | dry hlt _ => exact absurd hlt hwhole
  | next hlt _ _ _ => exact iff_of_false (List.cons_ne_nil _ _) (not_not.2 hlt)

/-- The fragments of a packet. Unless the pool is exhausted the packet is complete. -/
theorem spec {bufVA : ℕ → U32} {n : ℕ} (hfrags : Frags txSeqNo pktsize total fragment b frags)
    (h : Pooled bufVA n b) (htotal : total ≤ pktsize) :
    Took bufVA n b frags.2.1 frags.2.2 ∧
    (frags.1 < pktsize → frags.2.2.allocNum = frags.2.2.totalNum) ∧
    (¬ frags.1 < pktsize → Framed (decide (fragment = 0)) frags.2.1 ∧ openPkts frags.2.1 = []) := by
  induction hfrags with
  | stop hge => exact ⟨.nil h, fun hlt => absurd hlt hge, fun _ => ⟨trivial, rfl⟩⟩
  | dry hlt hnone =>
    refine ⟨.nil h, fun _ => ?_, fun hge => absurd hlt hge⟩
    by_contra hne
    rw [allocBuf, if_neg hne] at hnone
    cases hnone
  | @next total fragment bufsize b b' va rest hlt hok hsize hrest ih =>
    obtain ⟨htook, hfull, hwhole⟩ := ih (h.allocBuf hok).1 (by omega)
    refine ⟨(Took.one h hok rfl).append htook, hfull, fun hge => ?_⟩
    obtain ⟨hframed, hopen⟩ := hwhole hge
    have hfeop := fragFlags_eop fragment (total + bufsize) pktsize
    have hlast := hrest.left hge
    refine ⟨⟨fragFlags_all _ _ _, fragFlags_sop _ _ _, ?_⟩, openPkts_cons_eq_nil.2 ?_⟩
    all_goals
      by_cases hend : total + bufsize = pktsize
    -- The last fragment is the end of packet; the others leave the packet open.
    · rw [hlast.2 (by omega)]
      trivial
    · show Framed (decide (Flag (fragFlags fragment (total + bufsize) pktsize) bdEopMask)) _
      rw [decide_eq_false fun hf => hend (hfeop.1 hf)]
      exact hframed
    · rw [if_pos (hlast.2 (by omega))]
      exact decide_eq_true (hfeop.2 hend)
    · rw [if_neg fun hnil => hlast.1 hnil (by omega)]
      exact hopen

end Frags

theorem ofNat_succ (q : BitVec 16) (k : ℕ) :
    q + 1 + BitVec.ofNat 16 k = q + BitVec.ofNat 16 (k + 1) := by
  rw [BitVec.ofNat_add, BitVec.add_assoc, BitVec.add_comm 1]
  rfl

/-- How the total packets loop runs: the packets that are complete, and the pool. -/
inductive Packs (pktsize : ℕ) : ℕ → BitVec 16 → Buffer → List (List PktBuf) → Buffer → Prop
  | stop {txSeqNo : BitVec 16} {b : Buffer} : Packs pktsize 0 txSeqNo b [] b
  | short {num : ℕ} {txSeqNo : BitVec 16} {b : Buffer} {frags : ℕ × List PktBuf × Buffer}
    (hfrags : fragLoop txSeqNo pktsize pktsize 0 0 b = frags) (hlt : frags.1 < pktsize) :
    Packs pktsize (num + 1) txSeqNo b [] (freeUnusedBuf frags.2.1.length frags.2.2)
  | next {num : ℕ} {txSeqNo : BitVec 16} {b b' : Buffer} {frags : ℕ × List PktBuf × Buffer}
    {ps : List (List PktBuf)} (hfrags : fragLoop txSeqNo pktsize pktsize 0 0 b = frags)
    (hge : ¬ frags.1 < pktsize) (hrest : Packs pktsize num (txSeqNo + 1) frags.2.2 ps b') :
    Packs pktsize (num + 1) txSeqNo b (frags.2.1 :: ps) b'

theorem Frags.of_eq {txSeqNo : BitVec 16} {pktsize : ℕ} {b : Buffer}
    {frags : ℕ × List PktBuf × Buffer} (h : fragLoop txSeqNo pktsize pktsize 0 0 b = frags) :
    Frags txSeqNo pktsize 0 0 b frags :=
  h ▸ fragLoop_all txSeqNo pktsize b

theorem packetLoop_packs (pktsize num : ℕ) (b : Buffer) (txSeqNo : BitVec 16) :
    ∃ ps b', Packs pktsize num txSeqNo b ps b' ∧ packetLoop pktsize num b txSeqNo =
      (ps.length, ps.flatten, b', txSeqNo + BitVec.ofNat 16 ps.length) := by
  have hnone : txSeqNo = txSeqNo + BitVec.ofNat 16 0 := (BitVec.add_zero _).symm
  induction num generalizing b txSeqNo with
  | zero => exact ⟨[], b, .stop, by rw [packetLoop, List.length_nil, ← hnone]; rfl⟩
  | succ num ih =>
    rw [packetLoop]
    dsimp only
    split_ifs with hlt
    · exact ⟨[], _, .short rfl hlt, by rw [List.length_nil, ← hnone]; rfl⟩
    · obtain ⟨ps, b', hrest, heq⟩ := ih (fragLoop txSeqNo pktsize pktsize 0 0 b).2.2 (txSeqNo + 1)
        (BitVec.add_zero _).symm
      refine ⟨_ :: ps, b', .next rfl hlt hrest, ?_⟩
      rw [heq, ofNat_succ, List.length_cons, List.flatten_cons]

namespace Packs

variable {bufVA : ℕ → U32} {n pktsize num : ℕ} {txSeqNo : BitVec 16} {b b' : Buffer}
  {ps : List (List PktBuf)}

/-- **What `DmaSetupTransmit` has taken**: complete packets in new buffers. -/
theorem spec (hpacks : Packs pktsize num txSeqNo b ps b') (h : Pooled bufVA n b) :
    Took bufVA n b ps.flatten b' ∧ WholePkts ps.flatten := by
  induction hpacks with
  | stop => exact ⟨.nil h, trivial, rfl⟩
  | @short num txSeqNo b frags hfrags hlt =>
    have hall := Frags.of_eq hfrags
    obtain ⟨htook, -, -⟩ := hall.spec h (Nat.zero_le _)
    exact ⟨htook.undo, trivial, rfl⟩
  | @next num txSeqNo b b' frags ps hfrags hge hrest ih =>
    have hall := Frags.of_eq hfrags
    obtain ⟨htook, -, hwhole⟩ := hall.spec h (Nat.zero_le _)
    obtain ⟨htook', hwhole'⟩ := ih htook.pooled
    rw [List.flatten_cons]
    exact ⟨htook.append htook', WholePkts.append (hwhole hge) hwhole'⟩

end Packs

end Dma
