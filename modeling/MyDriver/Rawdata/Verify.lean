import MyDriver.Rawdata.SeqNo
import MyDriver.Xdma.Packets

/-!
# Data verification

In the `DATA_VERIFY` build `myPutRxPkt` compares a number near the end of the last fragment of each
packet with `RxSeqNo`, which counts the packets that have arrived. `FormatBuffer` has written that
number all over the fragment, but a fragment of one byte has no room for it.

* `formatBuffer_check` — where `VerifyBuffer` looks, the number of the packet is.
* `putRxLoop_packet` — what a packet does to `ErrCnt` and `RxSeqNo`.
* `putRx_detects` — **what a sequence of packets does to them**: exactly the sequence breaks are
  counted, among the packets that end with more than one byte.
-/

namespace Dma

/-! ## The functions -/

/-- The variables of `myPutRxPkt`. -/
structure RxVars where
  errCnt : U32
  rxSeqNo : BitVec 16
  rxBufCnt : U32
deriving DecidableEq

def verifyBuffer (buf : Page) (size : U32) (v : RxVars) : RxVars :=
  if size.toInt < 2 then v
  else
    let checkBit := if size.toNat % 2 ≠ 0 then 3 else 2
    let check2 := getShort buf (size.toNat - checkBit)
    if check2 ≠ v.rxSeqNo then { v with errCnt := v.errCnt + 1, rxSeqNo := check2 } else v

/-- The loop of `myPutRxPkt`, with the pages as they are. -/
def putRxLoop (page : Pages) : List PktBuf → RxVars → RxVars
  | [], v => v
  | p :: pkts, v =>
    if Flag p.flags pktUnused then v
    else
      let v :=
        if p.eop = true then
          let v := verifyBuffer (page p.bufInfo) p.size v
          { v with rxSeqNo := v.rxSeqNo + 1 }
        else v
      putRxLoop page pkts { v with rxBufCnt := v.rxBufCnt + 1 }

/-- `myPutRxPkt` in the `DATA_VERIFY` build. -/
def putRxVerify (hndl : U32) (page : Pages) (pkts : List PktBuf) (s : RawData × RxVars) :
    RawData × RxVars :=
  if s.1.driverState ≠ .registered ∨ hndl ≠ s.1.handle2 then s
  else (myPutRxPkt hndl s.1 pkts, putRxLoop page pkts s.2)

/-! ## Packets that arrive -/

/-- A packet of `size` bytes with number `seqNo`, in the fragments `frags`. -/
structure Arrival where
  seqNo : BitVec 16
  size : ℕ
  frags : List PktBuf

/-- The rest of a packet, from byte `total` and the given fragment on, as the hardware has put it
into the pages: `FormatBuffer` has written each fragment, and the last one is marked. -/
def Arrives (page : Pages) (seqNo : BitVec 16) (size : ℕ) : ℕ → ℕ → List PktBuf → Prop
  | total, _, [] => total = size
  | total, fragment, f :: l =>
    f.size.toNat = min bufSize (size - total) ∧ 0 < f.size.toNat ∧
      ¬ Flag f.flags pktUnused ∧ (f.eop = true ↔ total + f.size.toNat = size) ∧
      (∃ buf, ∀ i < f.size.toNat,
        page f.bufInfo i = formatBuffer seqNo size f.size.toNat fragment buf i) ∧
      Arrives page seqNo size (total + f.size.toNat) (fragment + 1) l

/-- A whole packet of a size that the driver uses. -/
structure Arrival.Whole (page : Pages) (p : Arrival) : Prop where
  min : minPktSize.toNat ≤ p.size
  max : p.size ≤ maxPktSize.toNat
  arrives : Arrives page p.seqNo p.size 0 0 p.frags

/-- The last fragment has one byte. -/
def Arrival.OneByte (p : Arrival) : Prop := p.size % bufSize = 1

instance (p : Arrival) : Decidable p.OneByte := by unfold Arrival.OneByte; infer_instance

/-- What a packet does: a sequence break is counted, and the next number is expected then. A packet
that ends with one byte is taken for the one that is expected. -/
def detect (v : RxVars) (p : Arrival) : RxVars :=
  { errCnt := if ¬ p.OneByte ∧ p.seqNo ≠ v.rxSeqNo then v.errCnt + 1 else v.errCnt
    rxSeqNo := if p.OneByte then v.rxSeqNo + 1 else p.seqNo + 1
    rxBufCnt := v.rxBufCnt + BitVec.ofNat 32 p.frags.length }

theorem detect_one {p : Arrival} (h : p.OneByte) (v : RxVars) :
    detect v p = ⟨v.errCnt, v.rxSeqNo + 1, v.rxBufCnt + BitVec.ofNat 32 p.frags.length⟩ := by
  rw [detect, if_neg fun hp => hp.1 h, if_pos h]

theorem detect_more {p : Arrival} (h : ¬ p.OneByte) (v : RxVars) :
    detect v p = ⟨if p.seqNo ≠ v.rxSeqNo then v.errCnt + 1 else v.errCnt, p.seqNo + 1,
      v.rxBufCnt + BitVec.ofNat 32 p.frags.length⟩ := by
  rw [detect, if_congr (and_iff_right h) rfl rfl, if_neg h]

/-! ## Where `VerifyBuffer` looks -/

theorem getShort_setShort_of_apart (p : Page) {i j : ℕ} (v : BitVec 16)
    (h : j + 1 < i ∨ i + 1 < j) : getShort (setShort p i v) j = getShort p j := by
  rw [getShort, getShort, setShort, Function.update_of_ne (by omega),
    Function.update_of_ne (by omega), Function.update_of_ne (by omega),
    Function.update_of_ne (by omega)]

/-- The data pattern. -/
theorem getShort_pattern (q : BitVec 16) (buf : Page) {k j : ℕ} (hj : j < k) :
    getShort ((List.range k).foldl (fun buf i => setShort buf (2 * i) q) buf) (2 * j) = q := by
  induction k with
  | zero => omega
  | succ k ih =>
    rw [List.range_succ, List.foldl_append, List.foldl_cons, List.foldl_nil]
    by_cases heq : j = k
    · rw [heq]
      exact getShort_setShort _ _ q
    · rw [getShort_setShort_of_apart _ q (by omega)]
      exact ih (by omega)

/-- **The number is there**, if the fragment has two bytes and is not a short first one. -/
theorem formatBuffer_check (q : BitVec 16) (pktsize : ℕ) {size fragment : ℕ} (buf : Page)
    (hsize : 2 ≤ size) (hfirst : fragment = 0 → 4 ≤ size) :
    getShort (formatBuffer q pktsize size fragment buf)
      (size - if size % 2 ≠ 0 then 3 else 2) = q := by
  obtain ⟨j, hj⟩ : ∃ j, size / 2 = j + 1 := ⟨size / 2 - 1, by omega⟩
  have hat : (size - if size % 2 ≠ 0 then 3 else 2) = 2 * j := by
    split_ifs <;> omega
  rw [hat]
  -- The last byte of an odd size is behind it.
  have hlast : ∀ p : Page, size % 2 ≠ 0 →
      getShort (Function.update p (size - 1) (q.setWidth 8)) (2 * j) = getShort p (2 * j) := by
    intro p hodd
    rw [getShort, getShort, Function.update_of_ne (by omega), Function.update_of_ne (by omega)]
  have hpattern := getShort_pattern q buf (show j < size / 2 by omega)
  rw [formatBuffer]
  set pattern := (List.range (size / 2)).foldl (fun buf i => setShort buf (2 * i) q) buf
  have hheader : getShort (if fragment = 0 then
      setShort (setShort pattern 0 (BitVec.ofNat 16 pktsize)) 2 q else pattern) (2 * j) = q := by
    split_ifs with hzero
    · have hfour := hfirst hzero
      by_cases hone : j = 1
      · rw [hone]
        exact getShort_setShort _ 2 q
      · rw [getShort_setShort_of_apart _ q (by omega), getShort_setShort_of_apart _ _ (by omega)]
        exact hpattern
    · exact hpattern
  by_cases hodd : size % 2 ≠ 0
  · rw [if_pos hodd, hlast _ hodd]
    exact hheader
  · rw [if_neg hodd]
    exact hheader

/-! ## Packets -/

variable {page : Pages} {v : RxVars} {p : PktBuf} {q : BitVec 16} {size total fragment : ℕ}

/-- The end of a packet whose last fragment has two bytes or more. -/
theorem verifyBuffer_eq {buf₀ buf : Page} {n : U32} (hn : n.toNat ≤ bufSize) (htwo : 2 ≤ n.toNat)
    (hfirst : fragment = 0 → 4 ≤ n.toNat)
    (hbuf : ∀ i < n.toNat, buf i = formatBuffer q size n.toNat fragment buf₀ i) :
    verifyBuffer buf n v =
      { v with errCnt := if q ≠ v.rxSeqNo then v.errCnt + 1 else v.errCnt, rxSeqNo := q } := by
  have hint : ¬ n.toInt < 2 := by
    unfold bufSize at hn
    rw [BitVec.toInt_eq_toNat_of_lt (by omega)]
    omega
  have hcheck : getShort buf (n.toNat - if n.toNat % 2 ≠ 0 then 3 else 2) = q := by
    rw [← formatBuffer_check q size buf₀ htwo hfirst, getShort, getShort, hbuf _ ?_, hbuf _ ?_]
    all_goals split_ifs <;> omega
  rw [verifyBuffer, if_neg hint]
  dsimp only
  rw [hcheck]
  by_cases heq : q ≠ v.rxSeqNo
  · rw [if_pos heq, if_pos heq]
  · rw [if_neg heq, if_neg heq, not_not.1 heq]

/-- A fragment of one byte is not looked at. -/
theorem verifyBuffer_one {buf : Page} {n : U32} (hn : n.toNat = 1) : verifyBuffer buf n v = v := by
  rw [verifyBuffer, if_pos]
  rw [BitVec.toInt_eq_toNat_of_lt (by omega)]
  omega

/-- The fragments before the last one are counted. -/
theorem putRxLoop_inner {l : List PktBuf} (hused : ¬ Flag p.flags pktUnused)
    (heop : ¬ p.eop = true) :
    putRxLoop page (p :: l) v = putRxLoop page l { v with rxBufCnt := v.rxBufCnt + 1 } := by
  rw [putRxLoop, if_neg hused, if_neg heop]

theorem putRxLoop_last {l : List PktBuf} (hused : ¬ Flag p.flags pktUnused) (heop : p.eop = true) :
    putRxLoop page (p :: l) v = putRxLoop page l
      { errCnt := (verifyBuffer (page p.bufInfo) p.size v).errCnt
        rxSeqNo := (verifyBuffer (page p.bufInfo) p.size v).rxSeqNo + 1
        rxBufCnt := (verifyBuffer (page p.bufInfo) p.size v).rxBufCnt + 1 } := by
  rw [putRxLoop, if_neg hused, if_pos heop]

/-- Nothing of a packet comes after its last byte. -/
theorem arrives_end {l : List PktBuf} (h : Arrives page q size size fragment l) : l = [] := by
  cases l with
  | nil => rfl
  | cons f l =>
    obtain ⟨hsize, hlen, -⟩ := h
    omega

/-- The rest of a packet. -/
theorem putRxLoop_arrives {frags rest : List PktBuf} (h : Arrives page q size total fragment frags)
    (hpos : total < size) (hmin : 4 ≤ size) (hdvd : bufSize ∣ total)
    (hfirst : fragment = 0 → total = 0) :
    putRxLoop page (frags ++ rest) v =
      putRxLoop page rest (detect v { seqNo := q, size := size, frags := frags }) := by
  induction frags generalizing total fragment v with
  | nil => exact absurd (show total = size from h) hpos.ne
  | cons f l ih =>
    obtain ⟨hsize, hlen, hused, heop, ⟨buf, hbuf⟩, hrest⟩ := h
    obtain ⟨k, rfl⟩ := hdvd
    rw [List.cons_append]
    by_cases hend : bufSize * k + f.size.toNat = size
    · rw [hend] at hrest
      rw [arrives_end hrest, putRxLoop_last hused (heop.2 hend), List.nil_append]
      congr 1
      by_cases hone : f.size.toNat = 1
      · have hmod : size % bufSize = 1 := by
          unfold bufSize at *
          omega
        rw [verifyBuffer_one hone, detect_one (p := ⟨q, size, [f]⟩) hmod]
        rfl
      · have hmod : ¬ size % bufSize = 1 := by
          unfold bufSize at *
          omega
        have hfour : fragment = 0 → 4 ≤ f.size.toNat := fun hzero => by
          rw [hfirst hzero, Nat.zero_add] at hend
          omega
        rw [verifyBuffer_eq (by omega) (by omega) hfour hbuf,
          detect_more (p := ⟨q, size, [f]⟩) hmod]
        rfl
    · have hfull : f.size.toNat = bufSize := by omega
      rw [putRxLoop_inner hused fun h => hend (heop.1 h),
        ih hrest (by omega) ⟨k + 1, by rw [hfull, Nat.mul_succ]⟩ nofun]
      have hcount : v.rxBufCnt + 1 + BitVec.ofNat 32 l.length =
          v.rxBufCnt + BitVec.ofNat 32 (f :: l).length := by
        rw [List.length_cons, BitVec.add_assoc, Nat.add_comm l.length, BitVec.ofNat_add]
        rfl
      rw [detect, detect, hcount]
      rfl

/-- **One packet.** -/
theorem putRxLoop_packet {p : Arrival} (h : p.Whole page) (rest : List PktBuf) :
    putRxLoop page (p.frags ++ rest) v = putRxLoop page rest (detect v p) := by
  have hmin : 64 ≤ p.size := h.min
  exact putRxLoop_arrives h.arrives (by omega) (by omega) (Nat.dvd_zero _) fun _ => rfl

/-- The packets of one call. -/
theorem putRxLoop_packets {ps : List Arrival} (h : ∀ p ∈ ps, p.Whole page) :
    putRxLoop page (ps.flatMap Arrival.frags) v = ps.foldl detect v := by
  induction ps generalizing v with
  | nil => rfl
  | cons p ps ih =>
    rw [List.flatMap_cons, putRxLoop_packet (h p List.mem_cons_self), List.foldl_cons]
    exact ih fun p hp => h p (List.mem_cons_of_mem _ hp)

/-! ## Sequences of calls -/

/-- A call of `myPutRxPkt` with whole packets, and the pages as they are then. -/
structure Delivery where
  page : Pages
  packets : List Arrival
  whole : ∀ p ∈ packets, p.Whole page

/-- **What is detected**: after any sequence of packets, in any calls, `ErrCnt` has been incremented
once for each break among those that end with more than one byte, and never otherwise. -/
theorem putRx_detects (raw : RawData) (hreg : raw.driverState = .registered) (v : RxVars)
    (calls : List Delivery) :
    (calls.foldl (fun s c => putRxVerify raw.handle2 c.page (c.packets.flatMap Arrival.frags) s)
      (raw, v)).2 = (calls.flatMap Delivery.packets).foldl detect v := by
  induction calls generalizing raw v with
  | nil => rfl
  | cons c calls ih =>
    have hput : putRxVerify raw.handle2 c.page (c.packets.flatMap Arrival.frags) (raw, v) =
        (myPutRxPkt raw.handle2 raw (c.packets.flatMap Arrival.frags),
          c.packets.foldl detect v) := by
      rw [putRxVerify, if_neg (by simp [hreg]), putRxLoop_packets c.whole]
    rw [List.foldl_cons, hput, List.flatMap_cons, List.foldl_append]
    rw [myPutRxPkt_eq hreg]
    exact ih { raw with rxBufs := putBufs _ raw.rxBufs } hreg _

/-- Two pages of a packet of 4097 bytes. -/
def longPage : Pages := fun va =>
  if va = 0 then formatBuffer 7 4097 4096 0 fun _ => 0 else formatBuffer 7 4097 1 1 fun _ => 0

def longPacket : Arrival where
  seqNo := 7
  size := 4097
  frags := [⟨0, 0, 4096, 0, 0⟩, ⟨1, 1, 1, bdEopMask, 0⟩]

theorem longPacket_whole : longPacket.Whole longPage where
  min := by decide
  max := by decide
  arrives := by
    refine ⟨by decide, by decide, by decide, by decide, ⟨fun _ => 0, fun i _ => rfl⟩, ?_⟩
    exact ⟨by decide, by decide, by decide, by decide, ⟨fun _ => 0, fun i _ => rfl⟩, rfl⟩

def longDelivery : Delivery where
  page := longPage
  packets := [longPacket]
  whole := by simpa using longPacket_whole

/-- The pages of a packet of 64 bytes, one of 4100 and one of 65. -/
def otherPages : Pages := fun va =>
  if va = 0 then formatBuffer 0 64 64 0 fun _ => 0
  else if va = 1 then formatBuffer 2 4100 4096 0 fun _ => 0
  else if va = 2 then formatBuffer 2 4100 4 1 fun _ => 0
  else formatBuffer 4 65 65 0 fun _ => 0

theorem otherPages_two : otherPages 2 = formatBuffer 2 4100 4 1 fun _ => 0 := by
  rw [otherPages, if_neg (by decide), if_neg (by decide), if_pos rfl]

/-- Number 0, which is expected, and number 2, which is not. -/
def firstDelivery : Delivery where
  page := otherPages
  packets := [⟨0, 64, [⟨0, 0, 64, bdEopMask, 0⟩]⟩,
    ⟨2, 4100, [⟨1, 1, 4096, 0, 0⟩, ⟨2, 2, 4, bdEopMask, 0⟩]⟩]
  whole := by
    rw [List.forall_mem_cons, List.forall_mem_singleton]
    refine ⟨⟨by decide, by decide, ?_⟩, ⟨by decide, by decide, ?_⟩⟩
    · exact ⟨by decide, by decide, by decide, by decide, ⟨fun _ => 0, fun i _ => rfl⟩, rfl⟩
    · refine ⟨by decide, by decide, by decide, by decide, ⟨fun _ => 0, fun i _ => rfl⟩, ?_⟩
      exact ⟨by decide, by decide, by decide, by decide,
        ⟨fun _ => 0, fun i _ => congrFun otherPages_two i⟩, rfl⟩

/-- Number 4, which is expected after two packets more. -/
def lastDelivery : Delivery where
  page := otherPages
  packets := [⟨4, 65, [⟨3, 3, 65, bdEopMask, 0⟩]⟩]
  whole := by
    rw [List.forall_mem_singleton]
    refine ⟨by decide, by decide, ?_⟩
    exact ⟨by decide, by decide, by decide, by decide, ⟨fun _ => 0, fun i _ => rfl⟩, rfl⟩

/-- One break is counted, in the second of four packets, and the third is taken for number 3. -/
theorem putRx_detects_oneBreak :
    ([firstDelivery, longDelivery, lastDelivery].foldl (fun s c =>
      putRxVerify twoPages.user.handle2 c.page (c.packets.flatMap Arrival.frags) s)
      (twoPages.user, ⟨0, 0, 0⟩)).2 = ⟨1, 5, 6⟩ :=
  (putRx_detects twoPages.user rfl ⟨0, 0, 0⟩ [firstDelivery, longDelivery, lastDelivery]).trans
    (by decide +kernel)

/-- **A break that is not detected**: number 0 is expected and a packet with number 7 comes, but it
ends with one byte. -/
theorem one_byte_undetected : longPacket.Whole longPage ∧ longPacket.seqNo ≠ 0 ∧
    (putRxVerify 9 longPage longPacket.frags (twoPages.user, ⟨0, 0, 0⟩)).2 = ⟨0, 1, 2⟩ :=
  ⟨longPacket_whole, by decide, rfl⟩

end Dma
