import MyDriver.Rawdata.Loopback

/-!
# What a loopback test checks

`DmaSetupTransmit` writes the number of a packet all over it, and `myPutRxPkt` compares the numbers
of the packets that arrive with `RxSeqNo`. When every test is started on an empty loop the check
finds nothing, however the packets are cut to fragments on their way.

* `packetBytes` — what a packet is made of, `Coded` — that the fragments of a packet are made of it.
* `Packs.coded` — what one call of `DmaSetupTransmit` prepares.
* `putRxLoop_stream` — what a call of `myPutRxPkt` finds in packets with the numbers it expects.
* `loopback_clean` — **no error is ever counted**.
-/

namespace Dma

open Cyclic Runs Framing

/-! ## The bytes of a packet -/

/-- What `FormatBuffer` makes of a fragment. -/
def fragBytes (q : BitVec 16) (pktsize bufsize fragment : ℕ) : List Byte :=
  readBytes (formatBuffer q pktsize bufsize fragment fun _ => 0) bufsize

/-- The size of the fragment at byte `total`. -/
def fragSize (pktsize total : ℕ) : ℕ :=
  if pktsize < total + bufSize then pktsize - total else bufSize

/-- A packet from byte `total` on, in at most `bound` fragments. -/
def packetFrom (q : BitVec 16) (pktsize : ℕ) : ℕ → ℕ → ℕ → List Byte
  | 0, _, _ => []
  | bound + 1, total, fragment =>
    if total < pktsize then
      fragBytes q pktsize (fragSize pktsize total) fragment ++
        packetFrom q pktsize bound (total + fragSize pktsize total) (fragment + 1)
    else []

/-- The packet with number `q`. -/
def packetBytes (pktsize : ℕ) (q : BitVec 16) : List Byte := packetFrom q pktsize pktsize 0 0

/-- `n` packets, numbered from `q` on. -/
def stream (pktsize : ℕ) (q : BitVec 16) (n : ℕ) : List (List Byte) :=
  (List.range n).map fun i => packetBytes pktsize (q + BitVec.ofNat 16 i)

theorem length_stream (pktsize : ℕ) (q : BitVec 16) (n : ℕ) : (stream pktsize q n).length = n := by
  rw [stream, List.length_map, List.length_range]

theorem stream_zero (pktsize : ℕ) (q : BitVec 16) : stream pktsize q 0 = [] := rfl

theorem stream_add (pktsize : ℕ) (q : BitVec 16) (n k : ℕ) : stream pktsize q (n + k) =
    stream pktsize q n ++ stream pktsize (q + BitVec.ofNat 16 n) k := by
  rw [stream, List.range_add, List.map_append, List.map_map, stream, stream]
  congr 1
  refine List.map_congr_left fun i _ => ?_
  rw [Function.comp_apply, BitVec.ofNat_add, BitVec.add_assoc]

theorem stream_grow (pktsize n k : ℕ) : stream pktsize 0 (n + k) =
    stream pktsize 0 n ++ stream pktsize (BitVec.ofNat 16 n) k := by
  rw [stream_add]
  exact congrArg (fun q => _ ++ stream pktsize q k) (BitVec.zero_add _)

theorem stream_succ (pktsize : ℕ) (q : BitVec 16) (n : ℕ) :
    stream pktsize q (n + 1) = packetBytes pktsize q :: stream pktsize (q + 1) n := by
  rw [Nat.add_comm, stream_add, stream, List.range_one, List.map_singleton, BitVec.ofNat_eq_ofNat,
    BitVec.add_zero]
  rfl

theorem length_readBytes (p : Page) (n : ℕ) : (readBytes p n).length = n := by
  rw [readBytes, List.length_map, List.length_range]

theorem readBytes_congr {p p' : Page} {n : ℕ} (h : ∀ i < n, p i = p' i) :
    readBytes p n = readBytes p' n := List.map_congr_left fun i hi => h i (List.mem_range.1 hi)

theorem readBytes_inj {p p' : Page} {n : ℕ} (h : readBytes p n = readBytes p' n) :
    ∀ i < n, p i = p' i := fun i hi => List.map_inj_left.1 h i (List.mem_range.2 hi)

theorem setShort_congr {p p' : Page} {i j : ℕ} (q : BitVec 16)
    (h : j ≠ i → j ≠ i + 1 → p j = p' j) : setShort p i q j = setShort p' i q j := by
  unfold setShort
  by_cases hhigh : j = i + 1
  · rw [hhigh, Function.update_self, Function.update_self]
  rw [Function.update_of_ne hhigh, Function.update_of_ne hhigh]
  by_cases hlow : j = i
  · rw [hlow, Function.update_self, Function.update_self]
  rw [Function.update_of_ne hlow, Function.update_of_ne hlow]
  exact h hlow hhigh

/-- **Every byte is written**: nothing is left of what was in the buffer. -/
theorem formatBuffer_all (q : BitVec 16) (pktsize bufsize fragment : ℕ) (buf buf' : Page) :
    ∀ i < bufsize, formatBuffer q pktsize bufsize fragment buf i =
      formatBuffer q pktsize bufsize fragment buf' i := by
  have hpattern : ∀ k, ∀ j < 2 * k,
      (List.range k).foldl (fun buf i => setShort buf (2 * i) q) buf j =
        (List.range k).foldl (fun buf i => setShort buf (2 * i) q) buf' j := by
    intro k
    induction k with
    | zero => exact fun j hj => absurd hj (by omega)
    | succ k ih =>
      intro j hj
      rw [List.range_succ, List.foldl_append, List.foldl_append]
      exact setShort_congr q fun _ _ => ih j (by omega)
  intro i hi
  unfold formatBuffer
  set p := (List.range (bufsize / 2)).foldl (fun buf i => setShort buf (2 * i) q) buf
  set p' := (List.range (bufsize / 2)).foldl (fun buf i => setShort buf (2 * i) q) buf'
  have hheader : i < 2 * (bufsize / 2) →
      (if fragment = 0 then setShort (setShort p 0 (BitVec.ofNat 16 pktsize)) 2 q else p) i =
        (if fragment = 0 then setShort (setShort p' 0 (BitVec.ofNat 16 pktsize)) 2 q else p') i := by
    intro hlt
    have hsame := hpattern _ i hlt
    split_ifs
    · exact setShort_congr q fun _ _ => setShort_congr _ fun _ _ => hsame
    · exact hsame
  by_cases hodd : bufsize % 2 ≠ 0
  · rw [if_pos hodd, if_pos hodd]
    by_cases hlast : i = bufsize - 1
    · rw [hlast, Function.update_self, Function.update_self]
    · rw [Function.update_of_ne hlast, Function.update_of_ne hlast]
      exact hheader (by omega)
  · rw [if_neg hodd, if_neg hodd]
    exact hheader (by omega)

theorem readBytes_formatBuffer (q : BitVec 16) (pktsize bufsize fragment : ℕ) (buf : Page) :
    readBytes (formatBuffer q pktsize bufsize fragment buf) bufsize =
      fragBytes q pktsize bufsize fragment :=
  readBytes_congr (formatBuffer_all q pktsize bufsize fragment buf _)

theorem fragSize_pos {pktsize total : ℕ} (h : total < pktsize) : 0 < fragSize pktsize total := by
  unfold fragSize bufSize
  split_ifs <;> omega

theorem fragSize_le (pktsize total : ℕ) : fragSize pktsize total ≤ bufSize := by
  unfold fragSize
  split_ifs with h
  · omega
  · exact le_rfl

theorem fragSize_fits {pktsize total : ℕ} (h : total < pktsize) :
    total + fragSize pktsize total ≤ pktsize := by
  unfold fragSize
  split_ifs <;> omega

theorem packetFrom_succ {q : BitVec 16} {pktsize total : ℕ} (h : total < pktsize)
    (bound fragment : ℕ) : packetFrom q pktsize (bound + 1) total fragment =
      fragBytes q pktsize (fragSize pktsize total) fragment ++
        packetFrom q pktsize bound (total + fragSize pktsize total) (fragment + 1) := if_pos h

theorem packetFrom_end (q : BitVec 16) (pktsize bound fragment : ℕ) :
    packetFrom q pktsize bound pktsize fragment = [] := by
  cases bound with
  | zero => rfl
  | succ bound => exact if_neg (lt_irrefl _)

theorem length_packetFrom (q : BitVec 16) {pktsize bound total : ℕ} (hle : total ≤ pktsize)
    (hbound : pktsize ≤ total + bound) (fragment : ℕ) :
    (packetFrom q pktsize bound total fragment).length = pktsize - total := by
  induction bound generalizing total fragment with
  | zero => rw [show total = pktsize by omega, packetFrom_end, Nat.sub_self, List.length_nil]
  | succ bound ih =>
    rcases hle.eq_or_lt with rfl | hlt
    · rw [packetFrom_end, Nat.sub_self, List.length_nil]
    · have hpos := fragSize_pos hlt
      have hfits := fragSize_fits hlt
      rw [packetFrom_succ hlt, List.length_append, fragBytes, length_readBytes,
        ih hfits (by omega)]
      omega

/-! ## What is prepared -/

/-- A packet of a test, with number `q`. -/
structure Coded (page : Pages) (pktsize : ℕ) (q : BitVec 16) (l : List PktBuf) : Prop where
  formatted : Formatted page q l
  bytes : (l.map (pktFrag page)).flatMap Frag.data = packetBytes pktsize q

section Prepare

variable {bufVA : ℕ → U32} {n pktsize : ℕ} {b b' : Buffer} {q : BitVec 16} {page page' : Pages}
  {ps : List (List PktBuf)}

theorem formatFrags_data (h : Pooled bufVA n b) (hpages : (pages bufVA n).Nodup)
    {bound total fragment : ℕ}
    (hwhole : ¬ (fragLoop q pktsize bound total fragment b).1 < pktsize) (page : Pages) :
    ((fragLoop q pktsize bound total fragment b).2.1.map
      (pktFrag (formatFrags q pktsize bound total fragment b page))).flatMap Frag.data =
      packetFrom q pktsize bound total fragment := by
  induction bound generalizing total fragment b page with
  | zero => rfl
  | succ bound ih =>
    by_cases hlt : total < pktsize
    swap
    · rw [fragLoop, if_neg hlt, packetFrom, if_neg hlt]
      rfl
    rw [fragLoop, if_pos hlt] at hwhole ⊢
    rw [formatFrags, if_pos hlt, packetFrom_succ hlt]
    cases hok : allocBuf b with
    | none =>
      rw [hok] at hwhole
      exact absurd hlt hwhole
    | some got =>
      obtain ⟨va, b'⟩ := got
      rw [hok] at hwhole
      obtain ⟨hpooled, hw⟩ := h.allocBuf hok
      have hsize : (BitVec.ofNat 32 (fragSize pktsize total)).toNat = fragSize pktsize total := by
        have hle := fragSize_le pktsize total
        unfold bufSize at hle
        rw [BitVec.toNat_ofNat, Nat.mod_eq_of_lt (by omega)]
      have hrest := ih hpooled hwhole
        (Function.update page va (formatBuffer q pktsize (fragSize pktsize total) fragment (page va)))
      dsimp only at hrest ⊢
      rw [List.map_cons, List.flatMap_cons]
      refine congrArg₂ _ ?_ hrest
      show readBytes (formatFrags q pktsize bound _ _ b' _ va) (BitVec.ofNat 32 _).toNat = _
      rw [formatFrags_frame hpooled hpages _ _ _ _ _ _
        (by rw [hw]; exact List.mem_append_right _ (List.mem_singleton_self va)),
        Function.update_self]
      exact (congrArg _ hsize).trans (readBytes_formatBuffer _ _ _ _ _)

/-- Other pages may be written. -/
theorem Coded.frame {l : List PktBuf} (h : Coded page pktsize q l)
    (hpage : ∀ p ∈ l, page' p.bufInfo = page p.bufInfo) : Coded page' pktsize q l := by
  obtain ⟨⟨hpacket, huser, hheader⟩, hbytes⟩ := h
  refine ⟨⟨hpacket, huser, fun p hp => ?_⟩, ?_⟩
  · rw [hpage p (List.mem_of_mem_head? hp)]
    exact hheader p hp
  · rw [← hbytes]
    refine congrArg _ (List.map_congr_left fun p hp => ?_)
    rw [pktFrag, hpage p hp, pktFrag]

theorem Numbered.frame (h : Numbered (Coded page pktsize) q ps)
    (hpage : ∀ p ∈ ps.flatten, page' p.bufInfo = page p.bufInfo) :
    Numbered (Coded page' pktsize) q ps := by
  refine h.mono fun q l hl hcoded => hcoded.frame fun p hp => hpage p ?_
  exact List.mem_flatten_of_mem hl hp

theorem Numbered.formatted (h : Numbered (Coded page pktsize) q ps) :
    Numbered (Formatted page) q ps := h.mono fun _ _ _ hcoded => hcoded.formatted

/-- **What one call of `DmaSetupTransmit` prepares.** -/
theorem Packs.coded {num : ℕ} (hpacks : Packs pktsize num q b ps b') (h : Pooled bufVA n b)
    (hpages : (pages bufVA n).Nodup) (hsize : 4 ≤ pktsize) (page : Pages) :
    Numbered (Coded (formatPackets pktsize num b q page) pktsize) q ps := by
  induction hpacks generalizing page with
  | stop => trivial
  | short _ _ => trivial
  | @next num q b b' frags ps hfrags hge hrest ih =>
    have hformatted := (Packs.next hfrags hge hrest).numbered h hpages hsize page
    obtain ⟨htook, -, -⟩ := (Frags.of_eq hfrags).spec h (Nat.zero_le _)
    have hdata := formatFrags_data h hpages (by rw [hfrags]; exact hge) page
    refine ⟨⟨hformatted.1, ?_⟩, ?_⟩
    · rw [packetBytes, ← hdata, hfrags]
      refine congrArg _ (List.map_congr_left fun p hp => ?_)
      -- Its page is out of the pool while the other packets are prepared.
      have hout : p.bufInfo ∈ window frags.2.2 := by
        rw [htook.window]
        exact List.mem_append_right _ (List.mem_map_of_mem hp)
      rw [formatPackets, hfrags, if_neg hge, pktFrag,
        formatPackets_frame htook.pooled hpages pktsize num _ _ hout, pktFrag]
    · rw [formatPackets, hfrags, if_neg hge]
      exact ih htook.pooled _

/-- The fragments of a packet, as a reader joins them. -/
theorem Coded.packets {l : List PktBuf} (h : Coded page pktsize q l) :
    packets [] (l.map (pktFrag page)) = [packetBytes pktsize q] := by
  obtain ⟨-, init, last, rfl, hlast, hinit⟩ := h.formatted.packet
  rw [← h.bytes, List.map_append, List.map_singleton]
  exact packets_one (List.forall_mem_map.2 hinit) hlast

theorem Coded.whole {l : List PktBuf} (h : Coded page pktsize q l) :
    Whole (l.map (pktFrag page)) := by
  obtain ⟨-, init, last, rfl, hlast, -⟩ := h.formatted.packet
  rw [List.map_append, List.map_singleton, whole_concat]
  exact hlast

theorem Numbered.packets (h : Numbered (Coded page pktsize) q ps) :
    packets [] (ps.flatten.map (pktFrag page)) = stream pktsize q ps.length := by
  induction ps generalizing q with
  | nil => rfl
  | cons l ps ih =>
    rw [List.flatten_cons, List.map_append, packets_append, h.1.whole.rest, h.1.packets, ih h.2,
      List.length_cons, stream_succ]
    rfl

end Prepare

/-! ## What arrives -/

section Arrive

variable {page : Pages} {pktsize bound total fragment : ℕ} {q : BitVec 16} {p : PktBuf}

/-- A fragment of a packet that has been cut to buffers is where `FormatBuffer` has put it. -/
theorem fragment_place {rest : List Byte} (hcut : Cut (pktFrag page p)) (hle : total ≤ pktsize)
    (hbound : pktsize ≤ total + bound)
    (hdata : (pktFrag page p).data ++ rest = packetFrom q pktsize bound total fragment)
    (hlast : p.eop = true → rest = []) (hmore : p.eop = false → rest ≠ []) :
    p.size.toNat = min bufSize (pktsize - total) ∧ 0 < p.size.toNat ∧
      (p.eop = true ↔ total + p.size.toNat = pktsize) ∧
      (∃ buf, ∀ i < p.size.toNat,
        page p.bufInfo i = formatBuffer q pktsize p.size.toNat fragment buf i) ∧
      ∃ bound', pktsize ≤ total + p.size.toNat + bound' ∧
        rest = packetFrom q pktsize bound' (total + p.size.toNat) (fragment + 1) := by
  have hlen : (pktFrag page p).data.length = p.size.toNat := length_readBytes _ _
  have hpos := List.length_pos_iff.2 hcut.pos
  have hsmall := hcut.le
  have hall := congrArg List.length hdata
  rw [List.length_append, length_packetFrom q hle hbound] at hall
  rw [hlen] at hpos hsmall hall
  have hlt : total < pktsize := by omega
  obtain ⟨bound', rfl⟩ : ∃ bound', bound = bound' + 1 := ⟨bound - 1, by omega⟩
  have hsize : p.size.toNat = min bufSize (pktsize - total) ∧
      (p.eop = true ↔ total + p.size.toNat = pktsize) := by
    cases heop : p.eop with
    | true =>
      rw [hlast heop, List.length_nil] at hall
      exact ⟨by omega, iff_of_true rfl (by omega)⟩
    | false =>
      have hfull : p.size.toNat = bufSize := hlen ▸ hcut.full heop
      have hmore' := List.length_pos_iff.2 (hmore heop)
      exact ⟨by omega, iff_of_false Bool.false_ne_true (by omega)⟩
  have hfrag : fragSize pktsize total = p.size.toNat := by
    rw [hsize.1, fragSize]
    split_ifs <;> omega
  rw [packetFrom_succ hlt, hfrag] at hdata
  obtain ⟨hbytes, hrest⟩ := List.append_inj hdata (by rw [hlen, fragBytes, length_readBytes])
  exact ⟨hsize.1, hpos, hsize.2, ⟨_, readBytes_inj hbytes⟩, bound', by omega, hrest⟩

/-- The fragments of a packet. -/
theorem arrives_of_data {init : List PktBuf} {last : PktBuf} (hinit : ∀ p ∈ init, p.eop = false)
    (hlast : last.eop = true) (hcut : ∀ p ∈ init ++ [last], Cut (pktFrag page p))
    (hused : ∀ p ∈ init ++ [last], ¬ Flag p.flags pktUnused) (hle : total ≤ pktsize)
    (hbound : pktsize ≤ total + bound)
    (hdata : ((init ++ [last]).map (pktFrag page)).flatMap Frag.data =
      packetFrom q pktsize bound total fragment) :
    Arrives page q pktsize total fragment (init ++ [last]) := by
  induction init generalizing total fragment bound with
  | nil =>
    have hin : last ∈ [] ++ [last] := List.mem_singleton_self last
    rw [List.nil_append, List.map_singleton, List.flatMap_singleton, ← List.append_nil (Frag.data _)]
      at hdata
    obtain ⟨hsize, hpos, heop, hbuf, -⟩ := fragment_place (hcut last hin) hle hbound hdata
      (fun _ => rfl) fun hno => absurd hlast (by rw [hno]; exact Bool.false_ne_true)
    exact ⟨hsize, hpos, hused last hin, heop, hbuf, heop.1 hlast⟩
  | cons p init ih =>
    obtain ⟨hp, hinit⟩ := List.forall_mem_cons.1 hinit
    obtain ⟨hcutp, hcut⟩ := List.forall_mem_cons.1 hcut
    obtain ⟨husedp, hused⟩ := List.forall_mem_cons.1 hused
    rw [List.cons_append, List.map_cons, List.flatMap_cons] at hdata
    have hmore : ((init ++ [last]).map (pktFrag page)).flatMap Frag.data ≠ [] := by
      rw [List.map_append, List.flatMap_append, List.map_singleton, List.flatMap_singleton]
      refine List.append_ne_nil_of_right_ne_nil _ (hcut last ?_).pos
      exact List.mem_append_right _ (List.mem_singleton_self last)
    obtain ⟨hsize, hpos, heop, hbuf, bound', hbound', hrest⟩ := fragment_place hcutp hle hbound
      hdata (fun hyes => absurd hp (by rw [hyes]; exact Bool.true_eq_false_eq_False)) fun _ => hmore
    exact ⟨hsize, hpos, husedp, heop, hbuf, ih hinit hcut hused (by omega) hbound' hrest⟩

/-- **What `myPutRxPkt` finds** in packets with the numbers it expects. -/
theorem putRxLoop_stream {held : List PktBuf} {v : RxVars} {k : ℕ}
    (hwhole : Whole (held.map (pktFrag page))) (hcut : ∀ p ∈ held, Cut (pktFrag page p))
    (hused : ∀ p ∈ held, ¬ Flag p.flags pktUnused) (hmin : minPktSize.toNat ≤ pktsize)
    (hmax : pktsize ≤ maxPktSize.toNat)
    (hps : packets [] (held.map (pktFrag page)) = stream pktsize v.rxSeqNo k) :
    (putRxLoop page held v).errCnt = v.errCnt ∧
      (putRxLoop page held v).rxSeqNo = v.rxSeqNo + BitVec.ofNat 16 k := by
  induction k generalizing held v with
  | zero =>
    rw [List.map_eq_nil_iff.1 (hwhole.eq_nil hps)]
    exact ⟨rfl, (BitVec.add_zero _).symm⟩
  | succ k ih =>
    rw [stream_succ] at hps
    obtain ⟨init', f', l', heq, hinit, hlast, hbytes, hrest, -⟩ := exists_cut hps
    obtain ⟨init, held', rfl, rfl, hheld'⟩ := List.map_eq_append_iff.1 heq
    obtain ⟨last, rest, rfl, rfl, rfl⟩ := List.map_eq_cons_iff.1 hheld'
    have hsplit : init ++ last :: rest = (init ++ [last]) ++ rest := by simp
    rw [hsplit] at hcut hused hwhole ⊢
    rw [List.nil_append, ← List.map_singleton, ← List.map_append] at hbytes
    have harrival : Arrival.Whole page ⟨v.rxSeqNo, pktsize, init ++ [last]⟩ := by
      refine ⟨hmin, hmax, arrives_of_data (List.forall_mem_map.1 hinit) hlast
        (fun p hp => hcut p (List.mem_append_left _ hp))
        (fun p hp => hused p (List.mem_append_left _ hp)) (Nat.zero_le _) (Nat.le_add_left _ _) ?_⟩
      exact hbytes.symm
    have hnext : (detect v ⟨v.rxSeqNo, pktsize, init ++ [last]⟩).rxSeqNo = v.rxSeqNo + 1 := by
      rw [detect]
      exact ite_self _
    have herr : (detect v ⟨v.rxSeqNo, pktsize, init ++ [last]⟩).errCnt = v.errCnt := by
      rw [detect]
      exact if_neg fun hbreak => hbreak.2 rfl
    rw [List.map_append] at hwhole
    rw [putRxLoop_packet harrival]
    obtain ⟨herr', hseq⟩ := ih hwhole.of_append (fun p hp => hcut p (List.mem_append_right _ hp))
      (fun p hp => hused p (List.mem_append_right _ hp)) (by rw [hnext]; exact hrest)
    rw [herr', hseq, herr, hnext, ofNat_succ]
    exact ⟨rfl, rfl⟩

end Arrive

/-! ## The run -/

/-- The loop is empty, and no call of `DmaSetupTransmit` is on its way. -/
structure LoopSys.Quiet (m : BusMap) (s : LoopSys) : Prop where
  sender : s.sys.sender.isIdle = true
  empty : s.inFlight m = []

/-- Tests are started on an empty loop. -/
def StartsQuiet (m : BusMap) (s : LoopSys) : LoopAct → Prop
  | .setState hndl ustate privdata =>
    ResetsSeqNo hndl ustate privdata s.sys.raw → s.Quiet m
  | _ => True

instance (m : BusMap) (s : LoopSys) : Decidable (s.Quiet m) :=
  decidable_of_iff (s.sys.sender.isIdle = true ∧ s.inFlight m = [])
    ⟨fun h => ⟨h.1, h.2⟩, fun h => ⟨h.1, h.2⟩⟩

instance (m : BusMap) (s : LoopSys) (a : LoopAct) : Decidable (StartsQuiet m s a) := by
  cases a <;> (unfold StartsQuiet; infer_instance)

/-- The size of the packets of the test. -/
def LoopSys.pktsize (s : LoopSys) : ℕ := s.test.rawMaxPktSize.toNat

/-- What the sender has prepared, when `n` packets of the test have been sent. -/
def LoopSys.Codes (s : LoopSys) (n : ℕ) : Prop :=
  match s.sys.sender with
  | .idle => s.sys.raw.txSeqNo = BitVec.ofNat 16 n
  | .taken pkts origseqno => origseqno = BitVec.ofNat 16 n ∧ ∃ ps : List (List PktBuf),
      pkts = ps.flatten ∧ s.sys.raw.txSeqNo = origseqno + BitVec.ofNat 16 ps.length ∧
      Numbered (Coded s.page s.pktsize) origseqno ps
  | .sent pkts origseqno result => ∃ (ps : List (List PktBuf)) (k : ℕ) (page : Pages),
      k ≤ ps.length ∧ pkts = ps.flatten ∧ result = (ps.take k).flatten.length ∧
      s.sys.raw.txSeqNo = origseqno + BitVec.ofNat 16 ps.length ∧
      Numbered (Formatted page) origseqno ps ∧
      origseqno + BitVec.ofNat 16 k = BitVec.ofNat 16 n

/-- **What the check relies on**: what has been sent since the start are the packets of the test, in
order, and `RxSeqNo` counts those that have been received. -/
structure LoopSys.Checked (s : LoopSys) : Prop where
  size : SizeOk s.test
  begun : s.before ≤ s.got.length
  sent : s.sent.drop s.before = stream s.pktsize 0 (s.sent.length - s.before)
  codes : s.Codes (s.sent.length - s.before)
  errCnt : s.errCnt = 0
  rxSeqNo : s.test.rxSeqNo = BitVec.ofNat 16 (s.got.length - s.before)

variable {m : BusMap} {txVA rxVA : ℕ → U32} {numTx numRx : ℕ} {s s' : LoopSys}

/-- Everybody but the sender and `UserPutPkt`. -/
theorem LoopSys.Checked.congr (h : s.Checked) (hsender : s'.sys.sender = s.sys.sender)
    (hseq : s'.sys.raw.txSeqNo = s.sys.raw.txSeqNo)
    (hsize : s'.test.rawMaxPktSize = s.test.rawMaxPktSize)
    (hrx : s'.test.rxSeqNo = s.test.rxSeqNo) (herr : s'.errCnt = s.errCnt)
    (hsent : s'.sent = s.sent) (hgot : s'.got = s.got) (hbefore : s'.before = s.before)
    (hpage : ∀ p ∈ s.sys.sender.held, s'.page p.bufInfo = s.page p.bufInfo) : s'.Checked := by
  obtain ⟨hok, hbegun, hstream, hcodes, hzero, hnext⟩ := h
  have hpkt : s'.pktsize = s.pktsize := congrArg BitVec.toNat hsize
  refine ⟨?_, ?_, ?_, ?_, herr.trans hzero, ?_⟩
  · rw [SizeOk, hsize]
    exact hok
  · rw [hbefore, hgot]
    exact hbegun
  · rw [hsent, hbefore, hpkt]
    exact hstream
  · rw [hsent, hbefore]
    unfold LoopSys.Codes at hcodes ⊢
    rw [hsender, hseq, hpkt]
    cases hcase : s.sys.sender with
    | idle =>
      rw [hcase] at hcodes
      exact hcodes
    | taken pkts origseqno =>
      rw [hcase] at hcodes hpage
      obtain ⟨hnum, ps, rfl, hseq', hps⟩ := hcodes
      exact ⟨hnum, ps, rfl, hseq', hps.frame hpage⟩
    | sent pkts origseqno result =>
      rw [hcase] at hcodes
      exact hcodes
  · rw [hrx, hgot, hbefore]
    exact hnext

/-- The receive engine writes into no page of the sender. -/
theorem LoopInv.boardRun_checked (h : LoopInv m txVA rxVA numTx numRx s)
    (hpages : (pages txVA numTx ++ pages rxVA numRx).Nodup) (hs : s.Checked) (as : List BoardAct) :
    (s.boardRun m as).Checked := by
  induction as generalizing s with
  | nil => exact hs
  | cons a as ih =>
    refine ih (h.boardRun hpages [a]).1 ?_
    cases a with
    | s2c status usrl usrh =>
      show (s.s2c m status usrl usrh).Checked
      unfold LoopSys.s2c
      split_ifs
      · exact hs
      · exact hs.congr rfl rfl rfl rfl rfl rfl rfl rfl fun _ _ => rfl
    | c2s free usrl usrh =>
      show (s.c2s m free usrl usrh).Checked
      unfold LoopSys.c2s
      split_ifs with hend
      · exact hs
      cases next s.board.receiving s.board.fifo with
      | none => exact hs
      | some got =>
        obtain ⟨-, hout, -⟩ := h.writes_apart hpages hend
        obtain ⟨g, k, hat⟩ := h.rx.work
        have hbus : (bdWords s.sys.rx.mem s.board.rxBd).bufal =
            m.toBus (bdWords s.sys.rx.mem s.board.rxBd).vbufal := by
          refine h.rx.bus _ (List.mem_append_right _ ?_)
          rw [(hat.ready hend).2]
          exact List.mem_cons_self
        refine hs.congr rfl rfl rfl rfl rfl rfl rfl rfl fun p hp => ?_
        dsimp only
        rw [hbus, m.toCpu_toBus, Function.update_of_ne]
        rintro heq
        refine hout ?_
        rw [← heq, h.raw.lockStep.tx]
        exact List.mem_append_right _ (List.mem_map_of_mem hp)

/-- `DmaSetupTransmit` prepares its packets. -/
theorem LoopInv.setupTransmit_checked (h : LoopInv m txVA rxVA numTx numRx s)
    (hpages : (pages txVA numTx ++ pages rxVA numRx).Nodup) (hs : s.Checked) {num : ℕ}
    {ticker : Ticker} (hstep : s.setupTransmit num ticker = some s') : s'.Checked := by
  obtain ⟨sys, hsys, rfl⟩ := Option.map_eq_some_iff.1 hstep
  obtain ⟨-, -, ⟨g, htx⟩, -⟩ := h.raw
  obtain ⟨hok, hbegun, hstream, hcodes, hzero, hnext⟩ := hs
  refine ⟨hok, hbegun, hstream, ?_, hzero, hnext⟩
  cases hsender : s.sys.sender with
  | taken => simp [rawStep, hsender] at hsys
  | sent => simp [rawStep, hsender] at hsys
  | idle =>
    unfold LoopSys.Codes at hcodes
    rw [hsender] at hcodes
    rw [rawStep, hsender, setupTransmitTake] at hsys
    dsimp only at hsys hcodes
    rw [Option.some.injEq] at hsys
    subst hsys
    rw [setupTransmitFormat]
    by_cases hstop :
        s.sys.raw.driverState ≠ .registered ∨ s.sys.raw.handle0 ≠ s.sys.raw.handle0 ∨ num = 0
    · rw [if_pos hstop]
      exact hcodes
    obtain ⟨ps, b', hpacks, heq⟩ := packetLoop_packs s.test.rawMaxPktSize.toNat num
      s.sys.raw.txBufs s.sys.raw.txSeqNo
    have hps := hpacks.coded htx.pooled (List.nodup_append.1 hpages).1 hok.four_le s.page
    rw [if_neg hstop, if_neg hstop, heq]
    dsimp only
    by_cases hzero : ps.length = 0
    · -- No packet could be prepared, and none was counted.
      rw [if_pos hzero]
      show s.sys.raw.txSeqNo + BitVec.ofNat 16 ps.length = _
      rw [hzero, hcodes]
      exact BitVec.add_zero _
    · rw [if_neg hzero]
      exact ⟨hcodes, ps, rfl, rfl, hps⟩

/-- `DmaSendPkt` hands over the next packets of the test. -/
theorem LoopInv.send_checked (h : LoopInv m txVA rxVA numTx numRx s) (hs : s.Checked)
    (hstep : loopStep m s .send = some s') : s'.Checked := by
  cases hsender : s.sys.sender with
  | idle => simp [loopStep, hsender] at hstep
  | sent => simp [loopStep, hsender] at hstep
  | taken pkts origseqno =>
    obtain ⟨hok, hbegun, hstream, hcodes, hzero, hnext⟩ := hs
    have hle : s.got.length ≤ s.sent.length := by
      rw [h.flow, List.length_append]
      omega
    rw [loopStep, hsender] at hstep
    obtain ⟨sys, hsys, rfl⟩ := Option.map_eq_some_iff.1 hstep
    have hraw := rawStep_inv h.raw hsys
    rw [rawStep, hsender, Option.some.injEq] at hsys
    subst hsys
    unfold LoopSys.Codes at hcodes
    rw [hsender] at hcodes
    obtain ⟨hnum, ps, rfl, hseq, hps⟩ := hcodes
    -- Whatever `DmaSendPkt` has accepted ends where a packet ends.
    obtain ⟨k, hk, hresult⟩ := cut_packets hps.formatted.forall_packet hraw.sender
      (dmaSendPkt_whole _ _ _ _ _ _ _)
    have hsplit : Numbered (Coded s.page s.pktsize) origseqno (ps.take k) := by
      rw [← List.take_append_drop k ps, Numbered.append] at hps
      exact hps.1
    have hqueued : ps.flatten.take (ps.take k).flatten.length = (ps.take k).flatten := by
      conv_lhs => rw [← List.take_append_drop k ps, List.flatten_append, List.take_append_drop]
      exact List.take_left
    have hadd : packets [] ((ps.flatten.take (ps.take k).flatten.length).map (pktFrag s.page)) =
        stream s.pktsize (BitVec.ofNat 16 (s.sent.length - s.before)) k := by
      rw [hqueued, hsplit.packets, List.length_take, Nat.min_eq_left hk, hnum]
    rw [← hresult] at hadd
    have hlen : (s.sent ++ stream s.pktsize (BitVec.ofNat 16 (s.sent.length - s.before)) k).length -
        s.before = s.sent.length - s.before + k := by
      rw [List.length_append, length_stream]
      omega
    dsimp only [Sender.queued]
    rw [hadd]
    refine ⟨hok, hbegun, ?_, ?_, hzero, hnext⟩
    · dsimp only
      rw [hlen, List.drop_append_of_le_length (by omega), hstream, stream_grow]
      rfl
    · dsimp only
      rw [hlen]
      refine ⟨ps, k, s.page, hk, rfl, hresult, hseq, hps.formatted, ?_⟩
      rw [hnum, BitVec.ofNat_add]

/-- The number of the next packet is the number of packets that have been sent. -/
theorem LoopSys.Checked.giveBack (hs : s.Checked) (hstep : loopStep m s .giveBack = some s') :
    s'.Checked := by
  cases hsender : s.sys.sender with
  | idle => simp [loopStep, hsender] at hstep
  | taken => simp [loopStep, hsender] at hstep
  | sent pkts origseqno result =>
    obtain ⟨hok, hbegun, hstream, hcodes, hzero, hnext⟩ := hs
    rw [loopStep, hsender] at hstep
    obtain ⟨sys, hsys, rfl⟩ := Option.map_eq_some_iff.1 hstep
    rw [rawStep, hsender, Option.some.injEq] at hsys
    subst hsys
    unfold LoopSys.Codes at hcodes
    rw [hsender] at hcodes
    obtain ⟨ps, k, page, hk, rfl, hresult, hseq, hps, hnum⟩ := hcodes
    have hresume := hps.resume hk hresult
    refine ⟨hok, hbegun, hstream, ?_, hzero, hnext⟩
    show (setupTransmitDone ps.flatten origseqno result s.sys.raw).txSeqNo = _
    rw [setupTransmitDone]
    by_cases hall : result = ps.flatten.length
    · rw [if_pos hall] at hresume ⊢
      rw [hseq, hresume, hnum]
    · rw [if_neg hall] at hresume ⊢
      dsimp only
      rw [hresume, hnum]

/-- `myPutRxPkt` looks at the next packets of the test. -/
theorem LoopInv.put_checked (h : LoopInv m txVA rxVA numTx numRx s) (hs : s.Checked)
    (hstep : loopStep m s .put = some s') : s'.Checked := by
  rw [loopStep.eq_def] at hstep
  dsimp only at hstep
  cases hpoller : s.sys.poller with
  | idle => simp [hpoller, rawStep] at hstep
  | refillRx => simp [hpoller, rawStep] at hstep
  | putTx pkts =>
    rw [hpoller] at hstep
    obtain ⟨sys, hsys, rfl⟩ := Option.map_eq_some_iff.1 hstep
    obtain ⟨hsender, hseq⟩ := rawStep_numbers h.raw hsys (by simp) (by simp) (by simp)
    exact hs.congr hsender hseq rfl rfl rfl rfl rfl rfl fun _ _ => rfl
  | putRx pkts =>
    rw [hpoller] at hstep
    obtain ⟨sys, hsys, rfl⟩ := Option.map_eq_some_iff.1 hstep
    obtain ⟨hsender, hseq⟩ := rawStep_numbers h.raw hsys (by simp) (by simp) (by simp)
    obtain ⟨-, -, -, ⟨g, hside⟩⟩ := h.raw
    have hrx := h.rx
    have hflow := h.flow
    rw [LoopSys.inFlight, LoopSys.arrived, hpoller] at hflow
    rw [hpoller] at hrx hside
    have hrx' : RxLine m s.page pkts s.sys.rx s.board.rxBd s.board.receiving := hrx
    have hunused : ¬ anyUnused pkts := hside.used
    have haccept := underway_accept hrx'.whole (arrived m s.page [] s.sys.rx s.board.rxBd)
      s.board.receiving s.board.fifo s.board.sending (s.unread m)
    obtain ⟨hok, hbegun, hstream, hcodes, hzero, hnext⟩ := hs
    set ps := packets [] (pkts.map (pktFrag s.page)) with hps
    set later := underway (arrived m s.page [] s.sys.rx s.board.rxBd) s.board.receiving s.board.fifo
      s.board.sending (s.unread m)
    have hsent : s.sent = s.got ++ (ps ++ later) := hflow.trans (congrArg _ haccept)
    -- They are the packets of the test that come next.
    have hexpect : ps = stream s.pktsize s.test.rxSeqNo ps.length := by
      have hlen : s.sent.length - s.before =
          s.got.length - s.before + (ps.length + later.length) := by
        rw [hsent, List.length_append, List.length_append]
        omega
      rw [hlen, stream_grow, stream_add, hsent, List.drop_append_of_le_length hbegun] at hstream
      obtain ⟨-, hrest⟩ := List.append_inj hstream (by rw [List.length_drop, length_stream])
      rw [hnext]
      exact (List.append_inj hrest (by rw [length_stream])).1
    obtain ⟨herr, hseqno⟩ := putRxLoop_stream
      (v := { errCnt := s.errCnt, rxSeqNo := s.test.rxSeqNo, rxBufCnt := s.rxBufCnt })
      hrx'.whole
      (fun p hp => hrx'.cut _ (List.mem_append_left _ (List.mem_map_of_mem hp)))
      (fun p hp hflag => hunused ⟨p, hp, hflag⟩) (BitVec.le_def.1 hok.1) (BitVec.le_def.1 hok.2)
      (hps.symm.trans hexpect)
    refine ⟨hok, ?_, hstream, ?_, herr.trans hzero, ?_⟩
    · dsimp only
      rw [List.length_append]
      omega
    · unfold LoopSys.Codes at hcodes ⊢
      dsimp only
      rw [hsender, hseq]
      exact hcodes
    · dsimp only
      rw [hseqno, List.length_append]
      dsimp only
      rw [hnext, ← BitVec.ofNat_add]
      congr 1
      omega

theorem startTest_rxSeqNo {t : TestVars} (hloop : Flag t.rawTestMode enableLoopback)
    (ustate : UserState) (raw : RawData) : (startTest ustate raw t).2.rxSeqNo = 0 := by
  rw [startTest]
  dsimp only
  rw [if_pos (flag_or.2 (Or.inr hloop)), if_pos hloop]
  split_ifs <;> rfl

/-- A command, on an empty loop if it starts a test. -/
theorem LoopInv.setState_checked (h : LoopInv m txVA rxVA numTx numRx s) (hs : s.Checked)
    {hndl privdata : U32} {ustate : UserState}
    (hquiet : StartsQuiet m s (.setState hndl ustate privdata))
    (hstep : loopStep m s (.setState hndl ustate privdata) = some s') : s'.Checked := by
  rw [loopStep.eq_def] at hstep
  dsimp only at hstep
  by_cases hmode : LoopMode ustate.testMode
  swap
  · rw [if_neg hmode] at hstep
    cases hstep
  rw [if_pos hmode, Option.some.injEq] at hstep
  subst hstep
  have hraw := mySetState_raw hndl ustate privdata s.sys.raw s.test
  rcases hmode.setState_cases hndl privdata s.sys.raw s.test with
    ⟨hreset, hsame⟩ | ⟨hreset, hstart⟩ | ⟨hreset, -, hdone⟩
  · rw [if_neg hreset] at hraw ⊢
    rw [hraw, hsame]
    exact hs.congr rfl rfl rfl rfl rfl rfl rfl rfl fun _ _ => rfl
  · obtain ⟨hsender, hempty⟩ := hquiet hreset
    have hall : s.sent.length = s.got.length := by
      rw [h.flow, hempty, List.append_nil]
    rw [if_pos hreset] at hraw ⊢
    have hsize := mySetState_size hndl ustate privdata s.sys.raw hs.size
    have hidle : s.sys.sender = .idle := by
      cases hcase : s.sys.sender with
      | idle => rfl
      | taken => rw [hcase] at hsender; cases hsender
      | sent => rw [hcase] at hsender; cases hsender
    refine ⟨hsize, hall.le, ?_, ?_, hs.errCnt, ?_⟩
    · dsimp only
      rw [List.drop_length, Nat.sub_self, stream_zero]
    · dsimp only
      unfold LoopSys.Codes
      rw [Nat.sub_self, hraw]
      dsimp only
      rw [hidle]
      rfl
    · dsimp only
      rw [hall, Nat.sub_self, hstart]
      refine startTest_rxSeqNo ?_ ustate s.sys.raw
      exact hmode.2 hreset.2.2.2.1
  · rw [if_neg hreset] at hraw ⊢
    rw [hraw, hdone]
    exact hs.congr rfl rfl rfl rfl rfl rfl rfl rfl fun _ _ => rfl

/-- **One step.** -/
theorem loopStep_checked {a : LoopAct} (hpages : (pages txVA numTx ++ pages rxVA numRx).Nodup)
    (h : LoopInv m txVA rxVA numTx numRx s) (hs : s.Checked) (hquiet : StartsQuiet m s a)
    (hstep : loopStep m s a = some s') : s'.Checked := by
  -- The poller leaves the sender alone, whatever the board does meanwhile.
  have hpoll : ∀ (during : List BoardAct) (act : RawAct) (sys : RawSys),
      rawStep (s.boardRun m during).sys act = some sys → (∀ num pktsize, act ≠ .take num pktsize) →
      (∀ bus, act ≠ .send bus) → act ≠ .giveBack →
      LoopSys.Checked { s.boardRun m during with sys := sys } := by
    intro during act sys hsys htake hsend hgive
    obtain ⟨hsender, hseq⟩ :=
      rawStep_numbers (h.boardRun hpages during).1.raw hsys htake hsend hgive
    exact (h.boardRun_checked hpages hs during).congr hsender hseq rfl rfl rfl rfl rfl rfl
      fun _ _ => rfl
  cases a with
  | board a =>
    rw [loopStep, Option.some.injEq] at hstep
    exact hstep ▸ h.boardRun_checked hpages hs [a]
  | tick =>
    rw [loopStep] at hstep
    split_ifs at hstep
    rw [Option.some.injEq] at hstep
    subst hstep
    unfold LoopSys.tick
    dsimp only
    split_ifs
    · exact hs.congr rfl rfl rfl rfl rfl rfl rfl rfl fun _ _ => rfl
    · exact hs.congr rfl rfl rfl rfl rfl rfl rfl rfl fun _ _ => rfl
    · exact hs.congr rfl rfl rfl rfl rfl rfl rfl rfl fun _ _ => rfl
    · exact hs
  | take =>
    rw [loopStep.eq_def] at hstep
    dsimp only at hstep
    split at hstep
    · exact h.setupTransmit_checked hpages hs hstep
    · split_ifs at hstep
      · rw [Option.some.injEq] at hstep
        subst hstep
        exact hs.congr rfl rfl rfl rfl rfl rfl rfl rfl fun _ _ => rfl
      · exact h.setupTransmit_checked hpages hs hstep
    · cases hstep
  | send => exact h.send_checked hs hstep
  | giveBack => exact hs.giveBack hstep
  | pollTx during =>
    obtain ⟨sys, hsys, rfl⟩ := Option.map_eq_some_iff.1 hstep
    exact hpoll _ _ _ hsys (by simp) (by simp) (by simp)
  | pollRx during bus =>
    rw [loopStep.eq_def] at hstep
    dsimp only at hstep
    split_ifs at hstep
    obtain ⟨sys, hsys, rfl⟩ := Option.map_eq_some_iff.1 hstep
    exact hpoll _ _ _ hsys (by simp) (by simp) (by simp)
  | put => exact h.put_checked hs hstep
  | refill bus =>
    rw [loopStep.eq_def] at hstep
    dsimp only at hstep
    split_ifs at hstep
    obtain ⟨sys, hsys, rfl⟩ := Option.map_eq_some_iff.1 hstep
    exact hpoll [] _ _ hsys (by simp) (by simp) (by simp)
  | setState hndl ustate privdata => exact h.setState_checked hs hquiet hstep

end Dma
