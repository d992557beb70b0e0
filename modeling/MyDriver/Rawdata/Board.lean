import MyDriver.Lib.Framing
import MyDriver.Rawdata.SeqNo
import MyDriver.Xdma.AtWork

/-!
# The board in loopback

In a loopback test the board hands what its transmit engine has read on to its receive engine,
through a FIFO of packets. The transmit engine joins the fragments that the BDs of its ring describe
to packets; the receive engine cuts the packets to the buffers of its own ring.

The two rings are looked at from the board: `TxLine` is a ring from which whole packets are read
(`unread`), `RxLine` a ring into which they are written, together with the packets that the driver
has taken off it and not yet looked at (`arrived`).

* `TxLine.engine`, `TxLine.send`, `TxLine.retrieve` — what happens to the one,
* `RxLine.engine`, `RxLine.retrieve`, `RxLine.put`, `RxLine.refill` — and to the other.
* `StillDone` — between two looks at a ring no completed BD changes.
-/

namespace Dma

open Cyclic Framing

/-! ## Bytes -/

abbrev Byte := BitVec 8

/-- `pci_map_single` gives a page its bus address, at which the board finds it. -/
structure BusMap where
  toBus : U32 → U32
  toCpu : U32 → U32
  toCpu_toBus : ∀ va, toCpu (toBus va) = va

/-- The first `n` bytes of a page. -/
def readBytes (p : Page) (n : ℕ) : List Byte := (List.range n).map p

/-- The bytes are written to the beginning of the page. -/
def writeBytes (p : Page) (l : List Byte) : Page := fun i => l.getD i (p i)

theorem readBytes_ne_nil (p : Page) {n : ℕ} (hn : 0 < n) : readBytes p n ≠ [] := by
  rw [← List.length_pos_iff, readBytes, List.length_map, List.length_range]
  exact hn

theorem readBytes_writeBytes (p : Page) (l : List Byte) :
    readBytes (writeBytes p l) l.length = l := by
  refine List.ext_getElem (by simp [readBytes]) fun i hi hl => ?_
  simp only [readBytes, List.getElem_map, List.getElem_range, writeBytes]
  exact List.getD_eq_getElem _ _ hl

/-! ## Fragments -/

/-- A fragment as the driver hands it over or gets it back. -/
def pktFrag (page : Pages) (p : PktBuf) : Frag Byte :=
  ⟨readBytes (page p.bufInfo) p.size.toNat, p.eop⟩

/-- A fragment as the transmit engine reads it. -/
def txFrag (m : BusMap) (page : Pages) (w : BdWords) : Frag Byte :=
  ⟨readBytes (page (m.toCpu w.bufal)) (w.ctrl &&& bdBuflMask).toNat, decide (Flag w.ctrl bdEopMask)⟩

/-- A fragment as the receive engine has written it. -/
def rxFrag (m : BusMap) (page : Pages) (w : BdWords) : Frag Byte :=
  ⟨readBytes (page (m.toCpu w.bufal)) (w.status &&& bdBuflMask).toNat,
    decide (Flag w.status bdEopMask)⟩

/-- The status bits the receive engine is free to set. -/
def rxFreeMask : U32 := 0x8E000000

/-- The status of a received fragment. -/
def rxStatus (free : U32) (len : ℕ) (last : Bool) : U32 :=
  free &&& rxFreeMask ||| bdCompMask ||| (if last = true then bdEopMask else 0) |||
    BitVec.ofNat 32 len &&& bdBuflMask

theorem rxStatus_and (free : U32) (len : ℕ) (last : Bool) (mask : U32) :
    rxStatus free len last &&& mask = free &&& (rxFreeMask &&& mask) ||| bdCompMask &&& mask |||
      (if last = true then bdEopMask else 0) &&& mask |||
        BitVec.ofNat 32 len &&& (bdBuflMask &&& mask) := by
  simp only [rxStatus, BitVec.and_or_distrib_right, BitVec.and_assoc]

theorem rxStatus_length (free : U32) {len : ℕ} (hlen : len ≤ bdBuflMask.toNat) (last : Bool) :
    (rxStatus free len last &&& bdBuflMask).toNat = len := by
  have hmask : bdBuflMask.toNat = 2 ^ 20 - 1 := rfl
  have hsame : rxStatus free len last &&& bdBuflMask = BitVec.ofNat 32 len &&& bdBuflMask := by
    rw [rxStatus_and, show rxFreeMask &&& bdBuflMask = 0#32 by decide,
      show bdCompMask &&& bdBuflMask = 0#32 by decide, BitVec.and_self, BitVec.and_zero,
      BitVec.or_zero]
    cases last with
    | true =>
      rw [if_pos rfl, show bdEopMask &&& bdBuflMask = 0#32 by decide, BitVec.or_zero,
        BitVec.zero_or]
    | false => simp
  rw [hsame, BitVec.toNat_and, hmask, Nat.and_two_pow_sub_one_eq_mod, BitVec.toNat_ofNat,
    Nat.mod_eq_of_lt (by omega), Nat.mod_eq_of_lt (by omega)]

theorem rxStatus_eop (free : U32) (len : ℕ) (last : Bool) :
    Flag (rxStatus free len last) bdEopMask ↔ last = true := by
  rw [Flag, rxStatus_and, show rxFreeMask &&& bdEopMask = 0#32 by decide,
    show bdCompMask &&& bdEopMask = 0#32 by decide, show bdBuflMask &&& bdEopMask = 0#32 by decide,
    BitVec.and_zero, BitVec.and_zero, BitVec.or_zero, BitVec.or_zero, BitVec.zero_or]
  cases last <;> decide

theorem rxStatus_error (free : U32) (len : ℕ) (last : Bool) :
    ¬ Flag (rxStatus free len last) bdErrorMask := by
  rw [Flag, rxStatus_and, show rxFreeMask &&& bdErrorMask = 0#32 by decide,
    show bdCompMask &&& bdErrorMask = 0#32 by decide,
    show bdBuflMask &&& bdErrorMask = 0#32 by decide, BitVec.and_zero, BitVec.and_zero,
    BitVec.or_zero, BitVec.or_zero, BitVec.zero_or]
  cases last <;> decide

/-- `PktHandler` finds the fragment that the engine has written. -/
theorem pktFrag_retrieved {m : BusMap} {w : BdWords} (hbus : w.bufal = m.toBus w.vbufal)
    (page : Pages) : pktFrag page w.retrieved = rxFrag m page w := by
  have heop : bdStatusMask &&& bdEopMask = bdEopMask := by decide
  rw [pktFrag, rxFrag, hbus, m.toCpu_toBus, PktBuf.eop, BdWords.retrieved]
  simp only [Flag, Words.and_and_of_sub heop]

theorem txFrag_eq {m : BusMap} {w : BdWords} (hbus : w.bufal = m.toBus w.vbufal) (page : Pages) :
    txFrag m page w =
      ⟨readBytes (page w.vbufal) (w.ctrl &&& bdBuflMask).toNat, decide (Flag w.ctrl bdEopMask)⟩ := by
  rw [txFrag, hbus, m.toCpu_toBus]

theorem rxFrag_eq {m : BusMap} {w : BdWords} (hbus : w.bufal = m.toBus w.vbufal) (page : Pages) :
    rxFrag m page w = ⟨readBytes (page w.vbufal) (w.status &&& bdBuflMask).toNat,
      decide (Flag w.status bdEopMask)⟩ := by
  rw [rxFrag, hbus, m.toCpu_toBus]

/-- The fragments of complete packets. -/
theorem whole_pktFrag {pkts : List PktBuf} (h : openPkts pkts = []) (page : Pages) :
    Whole (pkts.map (pktFrag page)) := by
  cases pkts using List.reverseRecOn with
  | nil => exact whole_nil
  | append_singleton pkts p =>
    rw [List.map_append, List.map_singleton, whole_concat]
    rw [openPkts_concat] at h
    by_contra hlast
    rw [if_neg (show ¬ p.eop = true from hlast)] at h
    exact List.append_ne_nil_of_right_ne_nil _ (List.cons_ne_nil _ _) h

/-! ## The ring that is read -/

/-- The fragments that the transmit engine has still to read. -/
def unread (m : BusMap) (page : Pages) (c : Chan) (bd : U32) : List (Frag Byte) :=
  (toDo c bd).map (txFrag m page)

/-- A ring of whole packets, of which the engine has read `sending` of the first. -/
structure TxLine (m : BusMap) (page : Pages) (c : Chan) (bd : U32) (sending : List Byte) : Prop where
  work : ∃ g k, AtWork c bd g k
  dir : c.ring.isRxChannel = false
  bus : ∀ w ∈ toDo c bd, w.bufal = m.toBus w.vbufal
  whole : rest sending (unread m page c bd) = []
  filled : ∀ f ∈ unread m page c bd, f.data ≠ []

variable {m : BusMap} {page page' : Pages} {c : Chan} {bd : U32} {sending : List Byte}

/-- The driver handles other pages. -/
theorem TxLine.frame (h : TxLine m page c bd sending)
    (hpage : ∀ w ∈ toDo c bd, page' w.vbufal = page w.vbufal) :
    TxLine m page' c bd sending ∧ unread m page' c bd = unread m page c bd := by
  have hsame : unread m page' c bd = unread m page c bd := by
    refine List.map_congr_left fun w hw => ?_
    rw [txFrag_eq (h.bus w hw), txFrag_eq (h.bus w hw), hpage w hw]
  exact ⟨⟨h.work, h.dir, h.bus, by rw [hsame]; exact h.whole, by rw [hsame]; exact h.filled⟩,
    hsame⟩

/-- The engine reads a fragment. -/
theorem TxLine.engine (h : TxLine m page c bd sending) (hready : bd ≠ c.ring.hwTail)
    (status usrl usrh : U32) :
    let f := txFrag m page (bdWords c.mem bd)
    let c' := completeBd c bd status usrl usrh
    unread m page c bd = f :: unread m page c' (bdRingNext c.ring bd) ∧
      TxLine m page c' (bdRingNext c.ring bd) (if f.last = true then [] else sending ++ f.data) := by
  intro f c'
  obtain ⟨⟨g, k, hat⟩, hdir, hbus, hwhole, hfilled⟩ := h
  obtain ⟨hat', -, hahead⟩ := hat.engine hready status usrl usrh
  have hunread : unread m page c bd = f :: unread m page c' (bdRingNext c.ring bd) := by
    rw [unread, hahead]
    rfl
  refine ⟨hunread, ⟨g, k + 1, hat'⟩, hdir, fun w hw => hbus w ?_, ?_, fun f' hf' => ?_⟩
  · rw [hahead]
    exact List.mem_cons_of_mem _ hw
  · rw [hunread] at hwhole
    cases hlast : f.last with
    | true =>
      rw [rest_cons_last hlast] at hwhole
      exact hwhole
    | false =>
      rw [rest_cons_inner hlast] at hwhole
      exact hwhole
  · exact hfilled f' (by rw [hunread]; exact List.mem_cons_of_mem _ hf')

/-- A fragment that the user driver has prepared. -/
structure PktBuf.OnPage (p : PktBuf) : Prop where
  buf : p.pktBuf = p.bufInfo
  size : p.size.toNat ≤ bufSize
  pos : 0 < p.size.toNat

/-- What the engine will read of a BD is what the driver has put on the page. -/
theorem sentLoads_frags (page : Pages) {pkts : List PktBuf} (hown : ∀ p ∈ pkts, p.OnPage) {n : ℕ}
    {new : List BdWords} (hloads : new.map BdWords.load =
      sentLoads false 0 (fun i => m.toBus (pkts.getD i default).pktBuf) (pkts.take n)) :
    (∀ w ∈ new, w.bufal = m.toBus w.vbufal) ∧
      new.map (txFrag m page) = (pkts.take n).map (pktFrag page) := by
  have hlen := congrArg List.length hloads
  rw [List.length_map, sentLoads, List.length_mapIdx] at hlen
  have hload : ∀ i, (hi : i < new.length) → ∃ p ∈ pkts, (pkts.take n)[i]? = some p ∧
      new[i].bufal = m.toBus p.pktBuf ∧ new[i].vbufal = p.bufInfo ∧
      new[i].ctrl = filledCtrl p.size (sentFlags false (0 + BitVec.ofNat 32 i) p.flags) := by
    intro i hi
    have hi' : i < (pkts.take n).length := hlen ▸ hi
    have hin : i < pkts.length := by
      rw [List.length_take] at hi'
      omega
    have heq : new[i].load = sentLoad false (0 + BitVec.ofNat 32 i)
        (m.toBus (pkts.getD i default).pktBuf) (pkts.take n)[i] := by
      have hget := List.getElem_of_eq hloads (i := i) (by simpa using hi)
      simp only [List.getElem_map, sentLoads, List.getElem_mapIdx] at hget
      exact hget
    rw [List.getElem_take, List.getD_eq_getElem _ _ hin] at heq
    refine ⟨pkts[i], List.getElem_mem hin, ?_, ?_, ?_, ?_⟩
    · rw [List.getElem?_eq_getElem hi', List.getElem_take]
    · exact congrArg Load.bufal heq
    · exact congrArg Load.id heq
    · exact congrArg Load.ctrl heq
  have hbus : ∀ w ∈ new, w.bufal = m.toBus w.vbufal := by
    intro w hw
    obtain ⟨i, hi, rfl⟩ := List.getElem_of_mem hw
    obtain ⟨p, hp, -, hbufal, hid, -⟩ := hload i hi
    rw [hbufal, hid, (hown p hp).buf]
  refine ⟨hbus, List.ext_getElem (by simpa using hlen) fun i hi₁ hi₂ => ?_⟩
  rw [List.length_map] at hi₁
  obtain ⟨p, hp, htake, -, hid, hctrl⟩ := hload i hi₁
  rw [List.getElem?_eq_getElem (hlen ▸ hi₁), Option.some.injEq] at htake
  have hsize : (p.size &&& bdBuflMask).toNat = p.size.toNat := by
    have hle := (hown p hp).size
    have hmask : bdBuflMask.toNat = 2 ^ 20 - 1 := rfl
    unfold bufSize at hle
    rw [BitVec.toNat_and, hmask, Nat.and_two_pow_sub_one_eq_mod, Nat.mod_eq_of_lt (by omega)]
  have heop : Flag new[i].ctrl bdEopMask ↔ Flag p.flags bdEopMask := by
    rw [hctrl, Flag, filledCtrl_flag _ _ (by decide)]
    exact (flag_sentFlags _ _ _).2
  rw [List.getElem_map, List.getElem_map, htake, txFrag_eq (hbus _ (List.getElem_mem hi₁)), hid,
    pktFrag, PktBuf.eop]
  congr 1
  · rw [hctrl, filledCtrl_length, hsize]
  · exact decide_eq_decide.2 heop

/-- **`DmaSendPkt`** on prepared packets: the engine will read those it has accepted. -/
theorem TxLine.send (h : TxLine m page c bd sending) {pkts : List PktBuf} (hwhole : WholePkts pkts)
    (hown : ∀ p ∈ pkts, p.OnPage) :
    ∃ n c' ic evs, dmaSendPkt .initialized .userAssigned false
        (fun i => m.toBus (pkts.getD i default).pktBuf) pkts c 0 = (n, c', ic, evs) ∧
      n ≤ pkts.length ∧ Whole ((pkts.take n).map (pktFrag page)) ∧
      TxLine m page c' bd sending ∧
      unread m page c' bd = unread m page c bd ++ (pkts.take n).map (pktFrag page) := by
  obtain ⟨⟨g, k, hat⟩, hdir, hbus, hrest, hfilled⟩ := h
  obtain ⟨n, c', ic, evs, new, g', heq, hn, hat', -, hahead, hloads, hdir'⟩ :=
    hat.send hdir hwhole fun i => m.toBus (pkts.getD i default).pktBuf
  obtain ⟨hnew, hfrags⟩ := sentLoads_frags page hown hloads
  have hopen := dmaSendPkt_whole .initialized .userAssigned false
    (fun i => m.toBus (pkts.getD i default).pktBuf) pkts c 0
  rw [heq] at hopen
  have hlast := whole_pktFrag hopen page
  have hunread : unread m page c' bd =
      unread m page c bd ++ (pkts.take n).map (pktFrag page) := by
    rw [unread, hahead, List.map_append, hfrags, unread]
  refine ⟨n, c', ic, evs, heq, hn, hlast, ⟨⟨g', k, hat'⟩, hdir'.trans hdir, ?_, ?_, ?_⟩, hunread⟩
  · intro w hw
    rw [hahead] at hw
    exact (List.mem_append.1 hw).elim (hbus w) (hnew w)
  · rw [hunread, rest_append, hrest]
    exact hlast.rest
  · intro f hf
    rw [hunread] at hf
    rcases List.mem_append.1 hf with hf | hf
    · exact hfilled f hf
    · obtain ⟨p, hp, rfl⟩ := List.mem_map.1 hf
      exact readBytes_ne_nil _ (hown p (List.mem_of_mem_take hp)).pos

/-- The driver takes off what the engine has read. -/
theorem TxLine.retrieve (h : TxLine m page c bd sending) (rd : ℕ → Mem)
    (hrd : ∀ t, ∀ b ∈ hwBds c.ring, (bdWords (rd t) b).Comp → bdWords (rd t) b = bdWords c.mem b) :
    TxLine m page (pktHandlerRetrieve rd c).2.1 bd sending ∧
      unread m page (pktHandlerRetrieve rd c).2.1 bd = unread m page c bd := by
  obtain ⟨⟨g, k, hat⟩, hdir, hbus, hwhole, hfilled⟩ := h
  obtain ⟨n, c', evs, g', heq, -, hat', -, hahead, hdir', -⟩ := hat.retrieve rd hrd
  rw [heq]
  dsimp only
  have hunread : unread m page c' bd = unread m page c bd := by rw [unread, hahead, unread]
  refine ⟨⟨⟨g', k - n, hat'⟩, hdir'.trans hdir, ?_, ?_, ?_⟩, hunread⟩
  · rw [hahead]
    exact hbus
  · rw [hunread]
    exact hwhole
  · rw [hunread]
    exact hfilled

/-! ## The ring that is written -/

/-- The fragments that have been received and not been looked at: those that the driver has taken
off the ring and those that it has not. -/
def arrived (m : BusMap) (page : Pages) (held : List PktBuf) (c : Chan) (bd : U32) :
    List (Frag Byte) := held.map (pktFrag page) ++ (finished c bd).map (rxFrag m page)

/-- A fragment of a packet that is cut to buffers. -/
structure Cut (f : Frag Byte) : Prop where
  pos : f.data ≠ []
  le : f.data.length ≤ bufSize
  full : f.last = false → f.data.length = bufSize

/-- A ring into which packets are written; `receiving` is what is left of the packet that is being
written. -/
structure RxLine (m : BusMap) (page : Pages) (held : List PktBuf) (c : Chan) (bd : U32)
    (receiving : Option (List Byte)) : Prop where
  work : ∃ g k, AtWork c bd g k
  dir : c.ring.isRxChannel = true
  bus : ∀ w ∈ finished c bd ++ toDo c bd, w.bufal = m.toBus w.vbufal
  room : ∀ w ∈ toDo c bd, (w.ctrl &&& bdBuflMask).toNat = bufSize
  clean : ∀ w ∈ finished c bd, ¬ Flag w.status bdErrorMask
  whole : Whole (held.map (pktFrag page))
  cut : ∀ f ∈ arrived m page held c bd, Cut f
  closed : receiving = none → rest [] (arrived m page held c bd) = []
  more : receiving ≠ some []

variable {held : List PktBuf} {receiving : Option (List Byte)}

theorem RxLine.frame (h : RxLine m page held c bd receiving)
    (hheld : ∀ p ∈ held, page' p.bufInfo = page p.bufInfo)
    (hpage : ∀ w ∈ finished c bd, page' w.vbufal = page w.vbufal) :
    RxLine m page' held c bd receiving ∧
      arrived m page' held c bd = arrived m page held c bd := by
  have hfrags : held.map (pktFrag page') = held.map (pktFrag page) :=
    List.map_congr_left fun p hp => by rw [pktFrag, pktFrag, hheld p hp]
  have hsame : arrived m page' held c bd = arrived m page held c bd := by
    rw [arrived, arrived, hfrags]
    refine congrArg _ (List.map_congr_left fun w hw => ?_)
    have hbus := h.bus w (List.mem_append_left _ hw)
    rw [rxFrag_eq hbus, rxFrag_eq hbus, hpage w hw]
  exact ⟨⟨h.work, h.dir, h.bus, h.room, h.clean, by rw [hfrags]; exact h.whole,
    by rw [hsame]; exact h.cut, by rw [hsame]; exact h.closed, h.more⟩, hsame⟩

/-- The engine writes as much of `bytes` as the buffer takes. -/
theorem RxLine.engine (h : RxLine m page held c bd receiving) (hready : bd ≠ c.ring.hwTail)
    (free usrl usrh : U32) {bytes : List Byte} (hbytes : bytes ≠ [])
    (hheld : ∀ p ∈ held, p.bufInfo ≠ (bdWords c.mem bd).vbufal)
    (hfin : ∀ w ∈ finished c bd, w.vbufal ≠ (bdWords c.mem bd).vbufal) :
    let w := bdWords c.mem bd
    let data := bytes.take (w.ctrl &&& bdBuflMask).toNat
    let left := bytes.drop (w.ctrl &&& bdBuflMask).toNat
    let c' := completeBd c bd (rxStatus free data.length (decide (left = []))) usrl usrh
    let page' := Function.update page (m.toCpu w.bufal)
      (writeBytes (page (m.toCpu w.bufal)) data)
    arrived m page' held c' (bdRingNext c.ring bd) =
        arrived m page held c bd ++ [⟨data, decide (left = [])⟩] ∧
      RxLine m page' held c' (bdRingNext c.ring bd) (if left = [] then none else some left) := by
  intro w data left c' page'
  obtain ⟨g, k, hat⟩ := h.work
  obtain ⟨hat', hfin', hahead⟩ :=
    hat.engine hready (rxStatus free data.length (decide (left = []))) usrl usrh
  have hw : w.bufal = m.toBus w.vbufal :=
    h.bus w (List.mem_append_right _ (by rw [hahead]; exact List.mem_cons_self))
  have hpage : page' = Function.update page w.vbufal (writeBytes (page w.vbufal) data) := by
    simp only [page', hw, m.toCpu_toBus]
  have hother : ∀ p ∈ held, page' p.bufInfo = page p.bufInfo := fun p hp => by
    rw [hpage, Function.update_of_ne (hheld p hp)]
  obtain ⟨hframe, harr⟩ := h.frame hother fun v hv => by
    rw [hpage, Function.update_of_ne (hfin v hv)]
  -- The fragment that has been written.
  set w' : BdWords := { w with
    status := rxStatus free data.length (decide (left = [])), usrl := usrl, usrh := usrh } with hw'
  have hbus' : w'.bufal = m.toBus w'.vbufal := hw
  have hlen : data.length ≤ bdBuflMask.toNat := by
    have hle : (w.ctrl &&& bdBuflMask).toNat ≤ bdBuflMask.toNat := by
      rw [BitVec.toNat_and]
      exact Nat.and_le_right
    exact (List.length_take_le _ bytes).trans hle
  have hfrag : rxFrag m page' w' = ⟨data, decide (left = [])⟩ := by
    have hstatus : w'.status = rxStatus free data.length (decide (left = [])) := rfl
    have hname : w'.vbufal = w.vbufal := rfl
    rw [rxFrag_eq hbus', hstatus, rxStatus_length _ hlen, hpage, hname, Function.update_self,
      readBytes_writeBytes]
    congr 1
    rw [Bool.eq_iff_iff, decide_eq_true_eq]
    exact rxStatus_eop _ _ _
  have harrived : arrived m page' held c' (bdRingNext c.ring bd) =
      arrived m page held c bd ++ [⟨data, decide (left = [])⟩] := by
    rw [← harr, arrived, hfin', List.map_append, List.map_singleton, hfrag, ← List.append_assoc]
    rfl
  refine ⟨harrived, ⟨g, k + 1, hat'⟩, h.dir, ?_, ?_, ?_, hframe.whole, ?_, ?_, ?_⟩
  · intro v hv
    rw [hfin', List.append_assoc] at hv
    rcases List.mem_append.1 hv with hv | hv
    · exact h.bus v (List.mem_append_left _ hv)
    rcases List.mem_append.1 hv with hv | hv
    · rw [List.mem_singleton.1 hv]
      exact hw
    · exact h.bus v (List.mem_append_right _ (by rw [hahead]; exact List.mem_cons_of_mem _ hv))
  · intro v hv
    exact h.room v (by rw [hahead]; exact List.mem_cons_of_mem _ hv)
  · intro v hv
    rw [hfin'] at hv
    rcases List.mem_append.1 hv with hv | hv
    · exact h.clean v hv
    · rw [List.mem_singleton.1 hv]
      exact rxStatus_error _ _ _
  · intro f hf
    rw [harrived] at hf
    rcases List.mem_append.1 hf with hf | hf
    · exact h.cut f hf
    · have hroom := h.room w (by rw [hahead]; exact List.mem_cons_self)
      rw [List.mem_singleton.1 hf]
      refine ⟨fun hnil => ?_, ?_, fun hlast => ?_⟩
      · rw [List.take_eq_nil_iff, hroom] at hnil
        exact hnil.elim (by decide) hbytes
      · rw [← hroom]
        exact List.length_take_le _ _
      · have hne := List.length_pos_iff.2 (of_decide_eq_false hlast)
        rw [List.length_drop] at hne
        rw [List.length_take, Nat.min_eq_left (by omega), hroom]
  · intro hnone
    have hleft : left = [] := by
      by_contra hne
      rw [if_neg hne] at hnone
      cases hnone
    rw [harrived, rest_append, rest_cons_last (decide_eq_true hleft)]
    rfl
  · by_cases hleft : left = []
    · rw [if_pos hleft]
      exact fun hnone => by cases hnone
    · rw [if_neg hleft]
      exact fun hsome => hleft (Option.some.inj hsome)

/-- The driver takes whole packets off. -/
theorem RxLine.retrieve (h : RxLine m page [] c bd receiving) (rd : ℕ → Mem)
    (hrd : ∀ t, ∀ b ∈ hwBds c.ring, (bdWords (rd t) b).Comp → bdWords (rd t) b = bdWords c.mem b) :
    ∃ pkts c' evs, pktHandlerRetrieve rd c = (some pkts, c', evs) ∧
      RxLine m page pkts c' bd receiving ∧ arrived m page pkts c' bd = arrived m page [] c bd := by
  obtain ⟨g, k, hat⟩ := h.work
  obtain ⟨n, c', evs, g', heq, -, hat', hfin, hahead, hdir', hlast⟩ := hat.retrieve rd hrd
  have hbus : ∀ w ∈ finished c bd, w.bufal = m.toBus w.vbufal :=
    fun w hw => h.bus w (List.mem_append_left _ hw)
  have hfrags : (((finished c bd).take n).map BdWords.retrieved).map (pktFrag page) =
      ((finished c bd).take n).map (rxFrag m page) := by
    rw [List.map_map]
    exact List.map_congr_left fun w hw => pktFrag_retrieved (hbus w (List.mem_of_mem_take hw)) page
  have harr : arrived m page (((finished c bd).take n).map BdWords.retrieved) c' bd =
      arrived m page [] c bd := by
    rw [arrived, arrived, hfrags, hfin, ← List.map_append, List.take_append_drop]
    rfl
  refine ⟨_, c', evs, heq, ⟨⟨g', k - n, hat'⟩, hdir'.trans h.dir, ?_, ?_, ?_, ?_, ?_, ?_, h.more⟩,
    harr⟩
  · intro w hw
    rw [hfin, hahead] at hw
    refine h.bus w ?_
    exact (List.mem_append.1 hw).elim (fun hw => List.mem_append_left _ (List.mem_of_mem_drop hw))
      (List.mem_append_right _)
  · rw [hahead]
    exact h.room
  · intro w hw
    rw [hfin] at hw
    exact h.clean w (List.mem_of_mem_drop hw)
  · rw [hfrags]
    intro f hf
    rw [List.getLast?_map, Option.mem_def, Option.map_eq_some_iff] at hf
    obtain ⟨w, hw, rfl⟩ := hf
    have hin := List.mem_of_mem_take (List.mem_of_getLast? hw)
    exact decide_eq_true ((hlast h.dir w hw).resolve_right (h.clean w hin))
  · rw [harr]
    exact h.cut
  · rw [harr]
    exact h.closed

/-- The user driver looks at the packets and gives their pages back. -/
theorem RxLine.put (h : RxLine m page held c bd receiving) :
    RxLine m page [] c bd receiving ∧
      packets [] (arrived m page held c bd) =
        packets [] (held.map (pktFrag page)) ++ packets [] (arrived m page [] c bd) ∧
      rest [] (arrived m page held c bd) = rest [] (arrived m page [] c bd) := by
  have hrest := h.whole.rest
  have hsplit : arrived m page held c bd = held.map (pktFrag page) ++ arrived m page [] c bd := rfl
  have hrest' : rest [] (arrived m page held c bd) = rest [] (arrived m page [] c bd) := by
    rw [hsplit, rest_append, hrest]
  refine ⟨⟨h.work, h.dir, h.bus, h.room, h.clean, whole_nil, fun f hf => ?_, ?_, h.more⟩, ?_, hrest'⟩
  · exact h.cut f (by rw [hsplit]; exact List.mem_append_right _ hf)
  · rw [← hrest']
    exact h.closed
  · rw [hsplit, packets_append, hrest]

/-- The calls of `pci_map_single` have returned the bus addresses of the buffers. -/
def MapsTo (m : BusMap) (evs : List Ev) : Prop := mapBus evs = (gotBufs evs).map m.toBus

instance (m : BusMap) (evs : List Ev) : Decidable (MapsTo m evs) := by
  unfold MapsTo; infer_instance

theorem getRxLoop_buf (num : ℕ) (b : Buffer) :
    ∀ p ∈ (getRxLoop num b).1, p.pktBuf = p.bufInfo := by
  induction num generalizing b with
  | zero => exact List.forall_mem_nil _
  | succ num ih =>
    unfold getRxLoop
    cases allocBuf b with
    | none => exact List.forall_mem_nil _
    | some got => exact List.forall_mem_cons.2 ⟨rfl, ih got.2⟩

/-- The raw data driver gives the pages of its pool. -/
theorem rxUser_pages (hndl : U32) : PageUser (rxUser hndl) (BitVec.ofNat 32 bufSize) where
  size := rxUser_size hndl
  buf raw num p hp := by
    have hp' : p ∈ (myGetRxPkt hndl raw num).1 := hp
    unfold myGetRxPkt at hp'
    split_ifs at hp'
    · cases hp'
    · exact getRxLoop_buf _ _ p hp'

/-- The driver adds buffers. -/
theorem RxLine.refill (h : RxLine m page held c bd receiving) (hndl : U32) (bus : ℕ → U32)
    {d : Dev RawData} (hd : d.chan = c)
    (hmaps : MapsTo m (pktHandlerRefill (rxUser hndl) false bus d).2) :
    RxLine m page held (pktHandlerRefill (rxUser hndl) false bus d).1.chan bd receiving ∧
      arrived m page held (pktHandlerRefill (rxUser hndl) false bus d).1.chan bd =
        arrived m page held c bd := by
  subst hd
  obtain ⟨g, k, hat⟩ := h.work
  obtain ⟨new, g', hat', hfin, hahead, hbufal, hvbufal, hctrl, hdir⟩ :=
    hat.refill (rxUser_pages hndl) (by decide) bus
  have harr : arrived m page held (pktHandlerRefill (rxUser hndl) false bus d).1.chan bd =
      arrived m page held d.chan bd := by rw [arrived, hfin, arrived]
  have hnew : ∀ w ∈ new, w.bufal = m.toBus w.vbufal := by
    rw [MapsTo, ← hbufal, ← hvbufal, List.map_map] at hmaps
    exact List.map_inj_left.1 hmaps
  refine ⟨⟨⟨g', k, hat'⟩, hdir.trans h.dir, ?_, ?_, ?_, h.whole, by rw [harr]; exact h.cut,
    by rw [harr]; exact h.closed, h.more⟩, harr⟩
  · intro w hw
    rw [hfin, hahead, ← List.append_assoc] at hw
    exact (List.mem_append.1 hw).elim (h.bus w) (hnew w)
  · intro w hw
    rw [hahead] at hw
    refine (List.mem_append.1 hw).elim (h.room w) fun hw => ?_
    rw [hctrl w hw]
    decide
  · rw [hfin]
    exact h.clean

/-! ## Looking twice -/

/-- What the engine may have done to a ring between two looks at it. -/
structure StillDone (c c' : Chan) : Prop where
  ring : c'.ring = c.ring
  words : ∀ b ∈ hwBds c.ring, (bdWords c.mem b).Comp → bdWords c'.mem b = bdWords c.mem b

theorem StillDone.refl (c : Chan) : StillDone c c := ⟨rfl, fun _ _ _ => rfl⟩

theorem StillDone.trans {c c' c'' : Chan} (h : StillDone c c') (h' : StillDone c' c'') :
    StillDone c c'' := by
  refine ⟨h'.ring.trans h.ring, fun b hb hcomp => ?_⟩
  have hsame := h.words b hb hcomp
  rw [h'.words b (by rw [h.ring]; exact hb) (by rw [hsame]; exact hcomp), hsame]

/-- The engine writes into a BD that is not completed. -/
theorem AtWork.later {g : Split} {k : ℕ} (h : AtWork c bd g k) (hready : bd ≠ c.ring.hwTail)
    (status usrl usrh : U32) : StillDone c (completeBd c bd status usrl usrh) := by
  refine ⟨rfl, fun b hb hcomp => ?_⟩
  have hne : b ≠ bd := by
    rintro rfl
    exact h.toDo_opens _ (by rw [(h.ready hready).2]; exact List.mem_cons_self) hcomp
  rw [h.settled.parts.hwBds_eq] at hb
  obtain ⟨i, -, rfl⟩ := mem_arc.1 hb
  rw [h.place] at hne ⊢
  exact (edits_hwWrite status usrl usrh).other h.settled.parts.laid c.mem hne

end Dma
