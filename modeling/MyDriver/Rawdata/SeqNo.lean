import MyDriver.Rawdata.LockStep
import MyDriver.Rawdata.TestMode
import MyDriver.Xdma.Sending

/-!
# Sequence numbers

`DmaSetupTransmit` numbers the packets it prepares with `TxSeqNo`. The number goes into the first
fragment of the packet (`FormatBuffer`) and into the user words of all of them. When not all packets
could be queued, the number of the first one that was not is read back from its user word.

`SeqSys` is the system of `LockStep` with the contents of the pages, the test commands, and what has
been given to the hardware since `TxSeqNo` was last reset: the BDs that were added to the Hardware
group, with the pages they are named after.

* `Packs.numbered` — what one call has prepared.
* `Numbered.resume` — where the numbers go on, wherever `DmaSendPkt` stops.
* `seqNo_gapFree` — **no number is skipped or repeated**.
-/

namespace Dma

open Cyclic Runs

/-! ## Numbered sequences -/

/-- `l` consists of `P`s with consecutive numbers, from `q` on. -/
def Numbered {α : Type} (P : BitVec 16 → α → Prop) : BitVec 16 → List α → Prop
  | _, [] => True
  | q, x :: xs => P q x ∧ Numbered P (q + 1) xs

theorem Numbered.append {α : Type} {P : BitVec 16 → α → Prop} {q : BitVec 16} {l l' : List α} :
    Numbered P q (l ++ l') ↔ Numbered P q l ∧ Numbered P (q + BitVec.ofNat 16 l.length) l' := by
  induction l generalizing q with
  | nil => simp [Numbered]
  | cons x xs ih => rw [List.cons_append, Numbered, Numbered, ih, ofNat_succ, and_assoc,
      List.length_cons]

theorem Numbered.mono {α : Type} {P P' : BitVec 16 → α → Prop} {q : BitVec 16} {l : List α}
    (h : Numbered P q l) (hP : ∀ q, ∀ x ∈ l, P q x → P' q x) : Numbered P' q l := by
  induction l generalizing q with
  | nil => trivial
  | cons x xs ih =>
    exact ⟨hP q x (List.mem_cons_self ..) h.1,
      ih h.2 fun q y hy => hP q y (List.mem_cons_of_mem _ hy)⟩

theorem Numbered.map {α β : Type} {P : BitVec 16 → β → Prop} {f : α → β} {q : BitVec 16}
    {l : List α} : Numbered P q (l.map f) ↔ Numbered (fun q x => P q (f x)) q l := by
  induction l generalizing q with
  | nil => rfl
  | cons x xs ih => rw [List.map_cons, Numbered, Numbered, ih]

/-! ## The contents of the pages -/

abbrev Page := ℕ → BitVec 8

/-- The pages by their virtual addresses. -/
abbrev Pages := U32 → Page

/-- A 16-bit write, low byte first. -/
def setShort (p : Page) (i : ℕ) (v : BitVec 16) : Page :=
  Function.update (Function.update p i (v.setWidth 8)) (i + 1) ((v >>> 8).setWidth 8)

def getShort (p : Page) (i : ℕ) : BitVec 16 := p (i + 1) ++ p i

def formatBuffer (txSeqNo : BitVec 16) (pktsize bufsize fragment : ℕ) (buf : Page) : Page :=
  -- The data pattern.
  let buf := (List.range (bufsize / 2)).foldl (fun buf i => setShort buf (2 * i) txSeqNo) buf
  -- Length and number, for the first fragment of a packet.
  let buf := if fragment = 0 then
      setShort (setShort buf 0 (BitVec.ofNat 16 pktsize)) 2 txSeqNo
    else buf
  if bufsize % 2 ≠ 0 then Function.update buf (bufsize - 1) (txSeqNo.setWidth 8) else buf

theorem getShort_setShort (p : Page) (i : ℕ) (v : BitVec 16) : getShort (setShort p i v) i = v := by
  rw [getShort, setShort, Function.update_self, Function.update_of_ne (by omega),
    Function.update_self]
  apply BitVec.eq_of_getLsbD_eq
  intro j hj
  rw [BitVec.getLsbD_append]
  by_cases hlow : j < 8
  · simp [hlow]
  · simp [hlow, show 8 + (j - 8) = j by omega, show j - 8 < 8 by omega]

theorem formatBuffer_number (txSeqNo : BitVec 16) (pktsize : ℕ) {bufsize : ℕ} (h : 4 ≤ bufsize)
    (buf : Page) : getShort (formatBuffer txSeqNo pktsize bufsize 0 buf) 2 = txSeqNo := by
  rw [formatBuffer, if_pos rfl]
  split_ifs with hodd
  · rw [getShort, Function.update_of_ne (by omega), Function.update_of_ne (by omega)]
    exact getShort_setShort _ 2 txSeqNo
  · exact getShort_setShort _ 2 txSeqNo

/-- What the packet fragments loop of `DmaSetupTransmit` (`fragLoop`) writes into the pages. -/
def formatFrags (txSeqNo : BitVec 16) (pktsize : ℕ) : ℕ → ℕ → ℕ → Buffer → Pages → Pages
  | 0, _, _, _, page => page
  | bound + 1, total, fragment, b, page =>
    if total < pktsize then
      match allocBuf b with
      | none => page
      | some (bufVA, b) =>
        let bufsize := if pktsize < total + bufSize then pktsize - total else bufSize
        formatFrags txSeqNo pktsize bound (total + bufsize) (fragment + 1) b
          (Function.update page bufVA (formatBuffer txSeqNo pktsize bufsize fragment (page bufVA)))
    else page

/-- What the total packets loop (`packetLoop`) writes into the pages. -/
def formatPackets (pktsize : ℕ) : ℕ → Buffer → BitVec 16 → Pages → Pages
  | 0, _, _, page => page
  | num + 1, b, txSeqNo, page =>
    let frags := fragLoop txSeqNo pktsize pktsize 0 0 b
    let page := formatFrags txSeqNo pktsize pktsize 0 0 b page
    if frags.1 < pktsize then page else formatPackets pktsize num frags.2.2 (txSeqNo + 1) page

/-- What `DmaSetupTransmit` (`setupTransmitTake`) writes into the pages. -/
def setupTransmitFormat (hndl : U32) (num pktsize : ℕ) (raw : RawData) (page : Pages) : Pages :=
  if raw.driverState ≠ .registered ∨ hndl ≠ raw.handle0 ∨ num = 0 then page
  else formatPackets pktsize num raw.txBufs raw.txSeqNo page

section Frame

variable {bufVA : ℕ → U32} {n : ℕ} {b b' : Buffer} {va : U32}

theorem Pooled.nodup_window (h : Pooled bufVA n b) (hpages : (pages bufVA n).Nodup) :
    (window b).Nodup := by
  have hall := ((h.perm hpages).nodup_iff).2 hpages
  exact (List.nodup_append.1 hall).1

/-- A buffer that comes out of the pool was not out before. -/
theorem Pooled.alloc_ne (h : Pooled bufVA n b) (hpages : (pages bufVA n).Nodup)
    (hok : Dma.allocBuf b = some (va, b')) : va ∉ window b := by
  obtain ⟨hpooled, hw⟩ := h.allocBuf hok
  have hnodup := hpooled.nodup_window hpages
  rw [hw, List.nodup_append] at hnodup
  intro hin
  exact hnodup.2.2 va hin va (List.mem_singleton_self va) rfl

/-- The fragments loop leaves the buffers alone that are out. -/
theorem formatFrags_frame (h : Pooled bufVA n b) (hpages : (pages bufVA n).Nodup)
    (txSeqNo : BitVec 16) (pktsize bound total fragment : ℕ) (page : Pages) (hva : va ∈ window b) :
    formatFrags txSeqNo pktsize bound total fragment b page va = page va := by
  induction bound generalizing total fragment b page with
  | zero => rfl
  | succ bound ih =>
    rw [formatFrags]
    by_cases hlt : total < pktsize
    · rw [if_pos hlt]
      cases hok : allocBuf b with
      | none => rfl
      | some got =>
        obtain ⟨va', b'⟩ := got
        obtain ⟨hpooled, hw⟩ := h.allocBuf hok
        have hne : va ≠ va' := by
          rintro rfl
          exact h.alloc_ne hpages hok hva
        dsimp only
        rw [ih hpooled _ _ _ (by rw [hw]; exact List.mem_append_left _ hva),
          Function.update_of_ne hne]
    · rw [if_neg hlt]

theorem formatPackets_frame (h : Pooled bufVA n b) (hpages : (pages bufVA n).Nodup)
    (pktsize num : ℕ) (txSeqNo : BitVec 16) (page : Pages) (hva : va ∈ window b) :
    formatPackets pktsize num b txSeqNo page va = page va := by
  induction num generalizing b txSeqNo page with
  | zero => rfl
  | succ num ih =>
    obtain ⟨htook, -, -⟩ := (fragLoop_all txSeqNo pktsize b).spec h (Nat.zero_le _)
    have hfrags := formatFrags_frame h hpages txSeqNo pktsize pktsize 0 0 page hva
    rw [formatPackets]
    split_ifs with hlt
    · exact hfrags
    · rw [ih htook.pooled _ _ (by rw [htook.window]; exact List.mem_append_left _ hva), hfrags]

end Frame

/-! ## Packets -/

/-- One complete packet. -/
def IsPacket (l : List PktBuf) : Prop :=
  Framed true l ∧ ∃ init last, l = init ++ [last] ∧ last.eop = true ∧ ∀ p ∈ init, p.eop = false

/-- A packet with number `q`, in the user words and in the page of its first fragment. -/
structure Formatted (page : Pages) (q : BitVec 16) (l : List PktBuf) : Prop where
  packet : IsPacket l
  user : ∀ p ∈ l, p.userInfo = q.setWidth 64
  header : ∀ p ∈ l.head?, getShort (page p.bufInfo) 2 = q

theorem IsPacket.pos {l : List PktBuf} (h : IsPacket l) : 0 < l.length := by
  obtain ⟨-, init, last, rfl, -⟩ := h
  simp

namespace Frags

variable {txSeqNo : BitVec 16} {pktsize total fragment : ℕ} {b : Buffer}
  {frags : ℕ × List PktBuf × Buffer}

theorem user (h : Frags txSeqNo pktsize total fragment b frags) :
    ∀ p ∈ frags.2.1, p.userInfo = txSeqNo.setWidth 64 := by
  induction h with
  | stop _ => exact fun p hp => absurd hp List.not_mem_nil
  | dry _ _ => exact fun p hp => absurd hp List.not_mem_nil
  | next _ _ _ _ ih => exact List.forall_mem_cons.2 ⟨rfl, ih⟩

/-- The fragments of a packet that was not cut short: the last one ends it, the others do not. -/
theorem single (h : Frags txSeqNo pktsize total fragment b frags) (hlt : total < pktsize)
    (hwhole : ¬ frags.1 < pktsize) :
    ∃ init last, frags.2.1 = init ++ [last] ∧ last.eop = true ∧ ∀ p ∈ init, p.eop = false := by
  induction h with
  | stop hge => exact absurd hlt hge
  | dry hlt _ => exact absurd hlt hwhole
  | @next total fragment bufsize b b' va rest hlt hok hsize hrest ih =>
    have hfeop := fragFlags_eop fragment (total + bufsize) pktsize
    by_cases hend : total + bufsize = pktsize
    · rw [(hrest.left hwhole).2 (by omega)]
      exact ⟨[], _, rfl, decide_eq_true (hfeop.2 hend), List.forall_mem_nil _⟩
    · obtain ⟨init, last, heq, hlast, hinit⟩ := ih (by omega) hwhole
      refine ⟨_ :: init, last, congrArg (List.cons _) heq, hlast, ?_⟩
      exact List.forall_mem_cons.2 ⟨decide_eq_false fun hflag => hend (hfeop.1 hflag), hinit⟩

end Frags

section Prepare

variable {bufVA : ℕ → U32} {n : ℕ} {b : Buffer} {pktsize : ℕ}

/-- The first fragment of a packet carries the number. -/
theorem formatFrags_number (h : Pooled bufVA n b) (hpages : (pages bufVA n).Nodup)
    (hsize : 4 ≤ pktsize) (txSeqNo : BitVec 16) (bound : ℕ) (page : Pages) :
    ∀ p ∈ (fragLoop txSeqNo pktsize bound 0 0 b).2.1.head?,
      getShort (formatFrags txSeqNo pktsize bound 0 0 b page p.bufInfo) 2 = txSeqNo := by
  intro p hp
  cases bound with
  | zero => cases hp
  | succ bound =>
    have hpos : 0 < pktsize := by omega
    rw [fragLoop, if_pos hpos] at hp
    rw [formatFrags, if_pos hpos]
    cases hok : allocBuf b with
    | none =>
      rw [hok] at hp
      cases hp
    | some got =>
      obtain ⟨va, b'⟩ := got
      rw [hok] at hp
      dsimp only at hp ⊢
      rw [List.head?_cons, Option.mem_def, Option.some.injEq] at hp
      subst hp
      obtain ⟨hpooled, hw⟩ := h.allocBuf hok
      dsimp only
      rw [formatFrags_frame hpooled hpages _ _ _ _ _ _
        (by rw [hw]; exact List.mem_append_right _ (List.mem_singleton_self va)),
        Function.update_self]
      apply formatBuffer_number
      unfold bufSize
      split_ifs <;> omega

/-- **What one call has prepared**: packets with consecutive numbers from `TxSeqNo` on. -/
theorem Packs.numbered {num : ℕ} {txSeqNo : BitVec 16} {ps : List (List PktBuf)}
    (hpacks : Packs pktsize num txSeqNo b ps b') (h : Pooled bufVA n b)
    (hpages : (pages bufVA n).Nodup) (hsize : 4 ≤ pktsize) (page : Pages) :
    Numbered (Formatted (formatPackets pktsize num b txSeqNo page)) txSeqNo ps := by
  induction hpacks generalizing page with
  | stop => trivial
  | short _ _ => trivial
  | @next num txSeqNo b b' frags ps hfrags hge hrest ih =>
    have hall := Frags.of_eq hfrags
    obtain ⟨htook, -, hwhole⟩ := hall.spec h (Nat.zero_le _)
    have hheader := formatFrags_number h hpages hsize txSeqNo pktsize page
    rw [hfrags] at hheader
    rw [formatPackets, hfrags, if_neg hge]
    refine ⟨⟨⟨(hwhole hge).1, hall.single (by omega) hge⟩, hall.user, fun p hp => ?_⟩,
      ih htook.pooled _⟩
    -- Its page is out of the pool while the other packets are prepared.
    have hout : p.bufInfo ∈ window frags.2.2 := by
      rw [htook.window]
      apply List.mem_append_right
      exact List.mem_map_of_mem (List.mem_of_mem_head? hp)
    rw [formatPackets_frame htook.pooled hpages pktsize num _ _ hout]
    exact hheader p hp

end Prepare

/-- What is complete ends at the end of a packet. -/
theorem cut_packets {ps : List (List PktBuf)} (h : ∀ l ∈ ps, IsPacket l) {n : ℕ}
    (hn : n ≤ ps.flatten.length) (hopen : openPkts (ps.flatten.take n) = []) :
    ∃ k ≤ ps.length, n = (ps.take k).flatten.length := by
  induction ps generalizing n with
  | nil => exact ⟨0, le_rfl, by simpa using hn⟩
  | cons l ps ih =>
    rcases Nat.eq_zero_or_pos n with rfl | hpos
    · exact ⟨0, Nat.zero_le _, rfl⟩
    rw [List.flatten_cons] at hopen
    rw [List.flatten_cons, List.length_append] at hn
    by_cases hin : n < l.length
    · -- The cut leaves out the last fragment of the packet, and no other one ends it.
      obtain ⟨-, init, last, rfl, -, hinit⟩ := h l (List.mem_cons_self ..)
      rw [List.length_append, List.length_singleton] at hin
      rw [List.append_assoc, List.take_append_of_le_length (by omega)] at hopen
      have hne : init.take n ≠ [] := by
        rw [← List.length_pos_iff, List.length_take]
        omega
      have hlast := hinit _ (List.mem_of_mem_take (List.getLast_mem hne))
      rw [← List.dropLast_append_getLast hne, openPkts_concat, hlast] at hopen
      simp at hopen
    · rw [List.take_append, List.take_of_length_le (by omega)] at hopen
      have hrest : openPkts (ps.flatten.take (n - l.length)) = [] := by
        cases hx : ps.flatten.take (n - l.length) using List.reverseRecOn with
        | nil => rfl
        | append_singleton xs p =>
          rw [hx, ← List.append_assoc, openPkts_concat] at hopen
          rw [openPkts_concat]
          cases hp : p.eop with
          | true => rfl
          | false => simp [hp] at hopen
      obtain ⟨k, hk, heq⟩ := ih (fun l' hl' => h l' (List.mem_cons_of_mem _ hl')) (by omega) hrest
      refine ⟨k + 1, by rw [List.length_cons]; omega, ?_⟩
      rw [List.take_succ_cons, List.flatten_cons, List.length_append, ← heq]
      omega

theorem length_flatten_pos {ps : List (List PktBuf)} (h : ∀ l ∈ ps, IsPacket l) (hne : ps ≠ []) :
    0 < ps.flatten.length := by
  cases ps with
  | nil => exact absurd rfl hne
  | cons l ps =>
    have hpos := (h l (List.mem_cons_self ..)).pos
    rw [List.flatten_cons, List.length_append]
    omega

theorem Numbered.forall_packet {page : Pages} {q : BitVec 16} {ps : List (List PktBuf)}
    (h : Numbered (Formatted page) q ps) : ∀ l ∈ ps, IsPacket l := by
  induction ps generalizing q with
  | nil =>
    intro l hl
    cases hl
  | cons l ps ih =>
    intro l' hl'
    rcases List.mem_cons.1 hl' with rfl | hin
    · exact h.1.packet
    · exact ih h.2 l' hin

/-- **Where the numbers go on**: the packet of the first fragment that was not sent, `origseqno` if
that is the first of all, and `TxSeqNo` if there is none. -/
theorem Numbered.resume {page : Pages} {q : BitVec 16} {ps : List (List PktBuf)}
    (h : Numbered (Formatted page) q ps) {k : ℕ} (hk : k ≤ ps.length) {result : ℕ}
    (hresult : result = (ps.take k).flatten.length) :
    (if result = ps.flatten.length then q + BitVec.ofNat 16 ps.length
      else if result = 0 then q
      else (ps.flatten.getD result default).userInfo.setWidth 16) = q + BitVec.ofNat 16 k := by
  have hpackets := h.forall_packet
  have hsplit : ps.flatten = (ps.take k).flatten ++ (ps.drop k).flatten := by
    rw [← List.flatten_append, List.take_append_drop]
  have hlen := congrArg List.length hsplit
  rw [List.length_append, ← hresult] at hlen
  by_cases hall : result = ps.flatten.length
  · rw [if_pos hall]
    have hnone : ps.drop k = [] := by
      by_contra hne
      have hpos := length_flatten_pos (fun l hl => hpackets l (List.mem_of_mem_drop hl)) hne
      omega
    rw [List.drop_eq_nil_iff] at hnone
    rw [Nat.le_antisymm hnone hk]
  rw [if_neg hall]
  by_cases hzero : result = 0
  · rw [if_pos hzero]
    have hnone : ps.take k = [] := by
      by_contra hne
      have hpos := length_flatten_pos (fun l hl => hpackets l (List.mem_of_mem_take hl)) hne
      omega
    rcases List.take_eq_nil_iff.1 hnone with rfl | hps
    · exact (BitVec.add_zero q).symm
    · subst hps
      rw [show k = 0 by simpa using hk]
      exact (BitVec.add_zero q).symm
  · rw [if_neg hzero]
    cases hrest : ps.drop k with
    | nil =>
      rw [hrest, List.flatten_nil, List.length_nil] at hlen
      omega
    | cons l rest =>
      -- The fragment is the first of packet `k`.
      have hnumbered := h
      rw [← List.take_append_drop k ps, Numbered.append, List.length_take, Nat.min_eq_left hk,
        hrest] at hnumbered
      obtain ⟨-, hl, -⟩ := hnumbered
      obtain ⟨p, l', rfl⟩ := List.exists_cons_of_length_pos hl.packet.pos
      have hfirst : ps.flatten.getD result default = p := by
        rw [hsplit, hrest, hresult, List.flatten_cons, List.cons_append]
        simp
      rw [hfirst, hl.user p (List.mem_cons_self ..)]
      apply BitVec.eq_of_toNat_eq
      simp only [BitVec.toNat_setWidth]
      omega

/-! ## The system -/

/-- BDs with what was in their pages. -/
abbrev Given := List (BdWords × Page)

structure SeqSys where
  sys : RawSys
  test : TestVars
  page : Pages
  /-- What has been given to the hardware since the last reset of `TxSeqNo`. -/
  given : Given

inductive SeqAct where
  | turn (a : RawAct)
  /-- `DmaSendPkt` finds the DMA driver or the engine not ready. -/
  | refuse (driverState engineState : DmaState)
  | setState (hndl : U32) (ustate : UserState) (privdata : U32)

/-- `DmaSendPkt` has returned: the BDs that have joined the Hardware group have been given to the
hardware. -/
def SeqSys.handOver (s : SeqSys) (sys : RawSys) : SeqSys :=
  { s with
    sys := sys
    given := s.given ++ ((hwWords sys.tx).drop (hwWords s.sys.tx).length).map fun w =>
      (w, s.page w.vbufal) }

/-- The command resets `TxSeqNo`. -/
def ResetsSeqNo (hndl : U32) (ustate : UserState) (privdata : U32) (raw : RawData) : Prop :=
  raw.driverState = .registered ∧ (hndl = raw.handle0 ∨ hndl = raw.handle2) ∧
    privdata = 0x54545454 ∧ Flag ustate.testMode testStart ∧
    Flag ustate.testMode (enablePktchk ||| enableLoopback)

instance (hndl : U32) (ustate : UserState) (privdata : U32) (raw : RawData) :
    Decidable (ResetsSeqNo hndl ustate privdata raw) := by
  unfold ResetsSeqNo; infer_instance

/-- No call of `DmaSetupTransmit` is on its way. -/
def Sender.isIdle : Sender → Bool
  | .idle => true
  | _ => false

/-- The packets have the size of the running test, and tests are started between the calls. -/
def seqStep (s : SeqSys) : SeqAct → Option SeqSys
  | .turn a =>
    match a with
    | .take num pktsize =>
      if pktsize = s.test.rawMaxPktSize.toNat then
        (rawStep s.sys a).map fun sys => { s with
          sys := sys
          page := setupTransmitFormat s.sys.raw.handle0 num pktsize s.sys.raw s.page }
      else none
    | .send _ => (rawStep s.sys a).map s.handOver
    | _ => (rawStep s.sys a).map fun sys => { s with sys := sys }
  | .refuse driverState engineState =>
    match s.sys.sender with
    | .taken pkts origseqno =>
      if driverState = .initialized ∧ engineState = .userAssigned then none
      else
        let sent := dmaSendPkt driverState engineState false (fun _ => 0) pkts s.sys.tx 0
        some (s.handOver { s.sys with tx := sent.2.1, sender := .sent pkts origseqno sent.1 })
    | _ => none
  | .setState hndl ustate privdata =>
    if Flag ustate.testMode testStart ∧ s.sys.sender.isIdle = false then none
    else
      let done := mySetState hndl ustate privdata s.sys.raw s.test
      some { s with
        sys := { s.sys with raw := done.2.1 }
        test := done.2.2
        given := if ResetsSeqNo hndl ustate privdata s.sys.raw then [] else s.given }

/-- The system of `registeredSys`, after `myInit`. -/
def registeredSeq (sys : RawSys) (reg : U32 → U32) (page : Pages) : SeqSys where
  sys := { sys with raw := (myInit sys.raw (loadedTest reg)).1 }
  test := (myInit sys.raw (loadedTest reg)).2
  page := page
  given := []

/-! ## What the commands do -/

/-- The packet size is within its bounds. -/
def SizeOk (t : TestVars) : Prop := minPktSize ≤ t.rawMaxPktSize ∧ t.rawMaxPktSize ≤ maxPktSize

theorem boundSizes_ok (size : U32) :
    minPktSize ≤ (boundSizes size).2 ∧ (boundSizes size).2 ≤ maxPktSize := by
  have hle : minPktSize ≤ maxPktSize := by decide
  unfold boundSizes
  by_cases hmax : maxPktSize < size
  · simp [hmax, hle, BitVec.not_lt.2 hle]
  · by_cases hmin : size < minPktSize
    · simp [hmax, hmin, hle]
    · simp only [hmax, hmin, if_false, ite_self]
      exact ⟨BitVec.not_lt.1 hmin, BitVec.not_lt.1 hmax⟩

theorem startTest_sizes (ustate : UserState) (raw : RawData) (t : TestVars) :
    ((startTest ustate raw t).2.rawMinPktSize, (startTest ustate raw t).2.rawMaxPktSize) =
      boundSizes ustate.maxPktSize := by
  rw [startTest]
  dsimp only
  split_ifs <;> rfl

/-- **The packet sizes after a command** are those before it, or have been bounded. -/
theorem mySetState_sizes_eq (hndl : U32) (ustate : UserState) (privdata : U32) (raw : RawData)
    (t : TestVars) :
    ((mySetState hndl ustate privdata raw t).2.2.rawMinPktSize,
        (mySetState hndl ustate privdata raw t).2.2.rawMaxPktSize) =
      (t.rawMinPktSize, t.rawMaxPktSize) ∨
    ((mySetState hndl ustate privdata raw t).2.2.rawMinPktSize,
        (mySetState hndl ustate privdata raw t).2.2.rawMaxPktSize) =
      boundSizes ustate.maxPktSize := by
  unfold mySetState
  dsimp only
  split_ifs
  · exact Or.inl rfl
  · exact Or.inl rfl
  · exact Or.inl rfl
  · exact Or.inr (startTest_sizes _ _ _)
  · exact Or.inl rfl
  · exact Or.inl rfl

theorem mySetState_size (hndl : U32) (ustate : UserState) (privdata : U32) (raw : RawData)
    {t : TestVars} (h : SizeOk t) : SizeOk (mySetState hndl ustate privdata raw t).2.2 := by
  rcases mySetState_sizes_eq hndl ustate privdata raw t with hsame | hbound
  · rw [SizeOk, (Prod.mk.inj hsame).2]
    exact h
  · have hsizes := boundSizes_ok ustate.maxPktSize
    rw [← hbound] at hsizes
    exact hsizes

theorem mySetState_raw (hndl : U32) (ustate : UserState) (privdata : U32) (raw : RawData)
    (t : TestVars) : (mySetState hndl ustate privdata raw t).2.1 =
      if ResetsSeqNo hndl ustate privdata raw then { raw with txSeqNo := 0 } else raw := by
  unfold mySetState
  dsimp only
  by_cases hreg : raw.driverState = .registered
  swap
  · have hno : ¬ ResetsSeqNo hndl ustate privdata raw := fun h => hreg h.1
    rw [if_pos hreg, if_neg hno]
  rw [if_neg (not_not_intro hreg)]
  by_cases hhandle : hndl = raw.handle0 ∨ hndl = raw.handle2
  swap
  · have hno : ¬ ResetsSeqNo hndl ustate privdata raw := fun h => hhandle h.2.1
    rw [if_pos (not_or.1 hhandle), if_neg hno]
  rw [if_neg fun h => hhandle.elim h.1 h.2]
  by_cases hpriv : privdata = 0x54545454
  swap
  · have hno : ¬ ResetsSeqNo hndl ustate privdata raw := fun h => hpriv h.2.2.1
    rw [if_pos hpriv, if_neg hno]
  rw [if_neg (not_not_intro hpriv)]
  by_cases hstart : Flag ustate.testMode testStart
  swap
  · have hno : ¬ ResetsSeqNo hndl ustate privdata raw := fun h => hstart h.2.2.2.1
    rw [if_neg hstart, if_neg hno]
  rw [if_pos hstart]
  by_cases hreset : Flag ustate.testMode (enablePktchk ||| enableLoopback)
  · have hyes : ResetsSeqNo hndl ustate privdata raw := ⟨hreg, hhandle, hpriv, hstart, hreset⟩
    have hsome : Flag ustate.testMode (enablePktchk ||| enablePktgen ||| enableLoopback) := by
      rw [flag_or] at hreset
      rw [flag_or, flag_or]
      tauto
    rw [if_neg (not_not_intro hsome), if_pos hyes, startTest]
    dsimp only
    rw [if_pos hreset]
    split_ifs <;> rfl
  · have hno : ¬ ResetsSeqNo hndl ustate privdata raw := fun h => hreset h.2.2.2.2
    rw [if_neg hno]
    split_ifs
    · rw [startTest]
      dsimp only
      rw [if_neg hreset]
      split_ifs <;> rfl
    · rfl

theorem SizeOk.four_le {t : TestVars} (h : SizeOk t) : 4 ≤ t.rawMaxPktSize.toNat := by
  have hmin := BitVec.le_def.1 h.1
  have hval : minPktSize.toNat = 64 := rfl
  omega

/-! ## The run -/

/-- The BDs of one packet, with number `q` in the user words and in the page of the first. -/
structure Carries (q : BitVec 16) (l : Given) : Prop where
  starts : ∀ f ∈ l.head?, Flag f.1.ctrl bdSopMask
  /-- The last BD ends the packet, the others do not. -/
  ends : ∃ init last, l = init ++ [last] ∧ Flag last.1.ctrl bdEopMask ∧
    ∀ f ∈ init, ¬ Flag f.1.ctrl bdEopMask
  user : ∀ f ∈ l, userData f.1.usrh f.1.usrl = q.setWidth 64
  header : ∀ f ∈ l.head?, getShort f.2 2 = q

/-- The packets given to the hardware are numbered from 0, and `next` follows. -/
def GapFree (given : Given) (next : BitVec 16) : Prop :=
  ∃ ps : List Given, given = ps.flatten ∧ Numbered Carries 0 ps ∧
    next = BitVec.ofNat 16 ps.length

/-- Where the numbers are while the sender is busy. -/
def SeqSys.Numbers (s : SeqSys) : Prop :=
  match s.sys.sender with
  | .idle => GapFree s.given s.sys.raw.txSeqNo
  | .taken pkts origseqno => GapFree s.given origseqno ∧
      ∃ ps : List (List PktBuf), pkts = ps.flatten ∧
        s.sys.raw.txSeqNo = origseqno + BitVec.ofNat 16 ps.length ∧
        Numbered (Formatted s.page) origseqno ps
  | .sent pkts origseqno result => ∃ (ps : List (List PktBuf)) (k : ℕ), k ≤ ps.length ∧
      pkts = ps.flatten ∧ result = (ps.take k).flatten.length ∧
      s.sys.raw.txSeqNo = origseqno + BitVec.ofNat 16 ps.length ∧
      Numbered (Formatted s.page) origseqno ps ∧
      GapFree s.given (origseqno + BitVec.ofNat 16 k)

/-- Every BD is that of a fragment, and the first that of the first. -/
theorem tagged_mem {l : List PktBuf} {new : List BdWords} (h : List.Forall₂ Tagged l new) :
    (∀ w ∈ new.head?, ∃ p ∈ l.head?, Tagged p w) ∧ ∀ w ∈ new, ∃ p ∈ l, Tagged p w := by
  induction h with
  | nil => exact ⟨fun w hw => absurd hw (by simp), List.forall_mem_nil _⟩
  | cons hpw _ ih =>
    refine ⟨fun w hw => ?_, List.forall_mem_cons.2 ⟨⟨_, List.mem_cons_self .., hpw⟩, fun w hw => ?_⟩⟩
    · rw [List.head?_cons, Option.mem_def, Option.some.injEq] at hw
      exact ⟨_, rfl, hw ▸ hpw⟩
    · obtain ⟨p, hp, htag⟩ := ih.2 w hw
      exact ⟨p, List.mem_cons_of_mem _ hp, htag⟩

/-- The BDs of one packet, with their pages. -/
theorem Formatted.carries {page : Pages} {q : BitVec 16} {l : List PktBuf} {new : List BdWords}
    (h : Formatted page q l) (hnew : List.Forall₂ Tagged l new) :
    Carries q (new.map fun w => (w, page w.vbufal)) := by
  obtain ⟨⟨hframed, init, last, rfl, hlast, hinit⟩, huser, hheader⟩ := h
  obtain ⟨hhead, hall⟩ := tagged_mem hnew
  refine ⟨fun f hf => ?_, ?_, fun f hf => ?_, fun f hf => ?_⟩
  · rw [List.head?_map, Option.mem_map] at hf
    obtain ⟨w, hw, rfl⟩ := hf
    obtain ⟨p, hp, htag⟩ := hhead w hw
    exact htag.sop.2 (hframed.head_sop hp)
  · obtain ⟨ws, w, rfl⟩ : ∃ ws w, new = ws ++ [w] := by
      cases new using List.reverseRecOn with
      | nil => simpa using hnew.length_eq
      | append_singleton ws w => exact ⟨ws, w, rfl⟩
    have hlen : ws.length = init.length := by simpa using hnew.length_eq.symm
    have hfirst := List.forall₂_take_append _ _ _ hnew
    have hrest := List.forall₂_drop_append _ _ _ hnew
    rw [hlen, List.take_left] at hfirst
    rw [hlen, List.drop_left, List.forall₂_cons] at hrest
    refine ⟨ws.map fun w => (w, page w.vbufal), (w, page w.vbufal), by rw [List.map_append]; rfl,
      hrest.1.eop.2 (of_decide_eq_true hlast), fun f hf => ?_⟩
    obtain ⟨w', hw', rfl⟩ := List.mem_map.1 hf
    obtain ⟨i, hi, rfl⟩ := List.getElem_of_mem hw'
    have hi' : i < init.length := hlen ▸ hi
    have hopen := of_decide_eq_false (hinit _ (List.getElem_mem hi'))
    exact fun hend => hopen ((hfirst.get hi' hi).eop.1 hend)
  · obtain ⟨w, hw, rfl⟩ := List.mem_map.1 hf
    obtain ⟨p, hp, htag⟩ := hall w hw
    exact htag.user.trans (huser p hp)
  · rw [List.head?_map, Option.mem_map] at hf
    obtain ⟨w, hw, rfl⟩ := hf
    obtain ⟨p, hp, htag⟩ := hhead w hw
    show getShort (page w.vbufal) 2 = q
    rw [htag.id]
    exact hheader p hp

/-- The BDs of numbered packets are numbered. -/
theorem Numbered.carries {page : Pages} {q : BitVec 16} {ps : List (List PktBuf)}
    (h : Numbered (Formatted page) q ps) {new : List BdWords}
    (hnew : List.Forall₂ Tagged ps.flatten new) :
    ∃ gs : List Given, (new.map fun w => (w, page w.vbufal)) = gs.flatten ∧
      gs.length = ps.length ∧ Numbered Carries q gs := by
  induction ps generalizing q new with
  | nil =>
    cases hnew
    exact ⟨[], rfl, rfl, trivial⟩
  | cons l ps ih =>
    rw [List.flatten_cons] at hnew
    have hflip := hnew.flip
    rw [← List.take_append_drop l.length new] at hnew
    have hlen : (new.take l.length).length = l.length := by
      have := hflip.length_eq
      rw [List.length_append] at this
      rw [List.length_take]
      omega
    have hfirst := List.forall₂_take_append _ _ _ hnew
    have hrest := List.forall₂_drop_append _ _ _ hnew
    rw [hlen, List.take_left] at hfirst
    rw [hlen, List.drop_left] at hrest
    obtain ⟨gs, hgs, hcount, hnumbered⟩ := ih h.2 hrest
    refine ⟨(new.take l.length).map (fun w => (w, page w.vbufal)) :: gs, ?_, ?_,
      h.1.carries hfirst, hnumbered⟩
    · rw [List.flatten_cons, ← hgs, ← List.map_append, List.take_append_drop]
    · rw [List.length_cons, List.length_cons, hcount]

theorem GapFree.append {page : Pages} {given : Given} {q : BitVec 16} (h : GapFree given q)
    {ps : List (List PktBuf)} (hps : Numbered (Formatted page) q ps) {new : List BdWords}
    (hnew : List.Forall₂ Tagged ps.flatten new) :
    GapFree (given ++ new.map fun w => (w, page w.vbufal)) (q + BitVec.ofNat 16 ps.length) := by
  obtain ⟨gs, rfl, hnumbered, rfl⟩ := h
  obtain ⟨gs', hgs', hcount, hnumbered'⟩ := hps.carries hnew
  refine ⟨gs ++ gs', ?_, ?_, ?_⟩
  · rw [List.flatten_append, hgs']
  · rw [Numbered.append]
    refine ⟨hnumbered, ?_⟩
    rw [show (0 : BitVec 16) + BitVec.ofNat 16 gs.length = _ from BitVec.zero_add _]
    exact hnumbered'
  · rw [List.length_append, hcount, BitVec.ofNat_add]

structure SeqInv (txVA rxVA : ℕ → U32) (numTx numRx : ℕ) (s : SeqSys) : Prop where
  raw : RawInv txVA rxVA numTx numRx s.sys
  size : SizeOk s.test
  numbers : s.Numbers

variable {txVA rxVA : ℕ → U32} {numTx numRx : ℕ} {s s' : SeqSys}

theorem SeqSys.Numbers.congr (h : s.Numbers) (hsender : s'.sys.sender = s.sys.sender)
    (hseq : s'.sys.raw.txSeqNo = s.sys.raw.txSeqNo) (hpage : s'.page = s.page)
    (hgiven : s'.given = s.given) : s'.Numbers := by
  unfold SeqSys.Numbers at h ⊢
  rw [hsender, hseq, hpage, hgiven]
  exact h

theorem RawInv.refill_seqNo {s : RawSys} (h : RawInv txVA rxVA numTx numRx s)
    (hput : s.poller.rxPkts = []) (bus : ℕ → U32) :
    (s.refill bus).raw.txSeqNo = s.raw.txSeqNo := by
  obtain ⟨hreg, -, -, g, hrx⟩ := h
  rw [hput] at hrx
  obtain ⟨g', hsame, -⟩ := Side.refill (d := { chan := s.rx, intrCount := 0, user := s.raw })
    hrx hreg false bus
  rw [RawSys.refill, hsame]

/-- The poller and the engines leave sender and number alone. -/
theorem rawStep_numbers {s s' : RawSys} {a : RawAct} (h : RawInv txVA rxVA numTx numRx s)
    (hstep : rawStep s a = some s') (htake : ∀ num pktsize, a ≠ .take num pktsize)
    (hsend : ∀ bus, a ≠ .send bus) (hgive : a ≠ .giveBack) :
    s'.sender = s.sender ∧ s'.raw.txSeqNo = s.raw.txSeqNo := by
  cases a with
  | take num pktsize => exact absurd rfl (htake num pktsize)
  | send bus => exact absurd rfl (hsend bus)
  | giveBack => exact absurd rfl hgive
  | pollTx rd =>
    cases hp : s.poller with
    | idle =>
      rw [rawStep, hp, Option.some.injEq] at hstep
      subst hstep
      exact ⟨rfl, rfl⟩
    | _ => simp [rawStep, hp] at hstep
  | pollRx rd bus =>
    cases hp : s.poller with
    | idle =>
      obtain ⟨hreg, hsound, htx, g, hrx⟩ := id h
      rw [hp] at hrx
      obtain ⟨pkts, c', evs, g', heq, hside⟩ := hrx.retrieve rd
      rw [rawStep, hp] at hstep
      dsimp only at hstep
      rw [heq] at hstep
      cases pkts with
      | cons p ps =>
        rw [Option.some.injEq] at hstep
        subst hstep
        exact ⟨rfl, rfl⟩
      | nil =>
        rw [Option.some.injEq] at hstep
        subst hstep
        have hmid : RawInv txVA rxVA numTx numRx { s with rx := c' } :=
          ⟨hreg, hsound, htx, g', by rw [hp]; exact hside⟩
        refine ⟨rfl, hmid.refill_seqNo ?_ bus⟩
        rw [hp]
        rfl
    | _ => simp [rawStep, hp] at hstep
  | put =>
    cases hp : s.poller with
    | putTx pkts =>
      rw [rawStep, hp] at hstep
      dsimp only at hstep
      rw [myPutTxPkt_eq h.registered, Option.some.injEq] at hstep
      subst hstep
      exact ⟨rfl, rfl⟩
    | putRx pkts =>
      rw [rawStep, hp] at hstep
      dsimp only at hstep
      rw [myPutRxPkt_eq h.registered, Option.some.injEq] at hstep
      subst hstep
      exact ⟨rfl, rfl⟩
    | _ => simp [rawStep, hp] at hstep
  | refill bus =>
    cases hp : s.poller with
    | refillRx =>
      rw [rawStep, hp, Option.some.injEq] at hstep
      subst hstep
      refine ⟨rfl, h.refill_seqNo ?_ bus⟩
      rw [hp]
      rfl
    | _ => simp [rawStep, hp] at hstep
  | engineTx i status usrl usrh =>
    rw [rawStep, Option.some.injEq] at hstep
    subst hstep
    exact ⟨rfl, rfl⟩
  | engineRx i status usrl usrh =>
    rw [rawStep, Option.some.injEq] at hstep
    subst hstep
    exact ⟨rfl, rfl⟩

/-- `DmaSetupTransmit` prepares its packets. -/
theorem SeqInv.take (h : SeqInv txVA rxVA numTx numRx s) (hpages : (pages txVA numTx).Nodup)
    {num : ℕ} {sys : RawSys} (hidle : s.sys.sender = .idle)
    (hstep : rawStep s.sys (.take num s.test.rawMaxPktSize.toNat) = some sys) :
    SeqSys.Numbers { s with
      sys := sys
      page := setupTransmitFormat s.sys.raw.handle0 num s.test.rawMaxPktSize.toNat s.sys.raw
        s.page } := by
  obtain ⟨⟨hreg, -, ⟨g, htx⟩, -⟩, hsize, hnumbers⟩ := h
  unfold SeqSys.Numbers at hnumbers
  rw [hidle] at hnumbers
  rw [rawStep, hidle, setupTransmitTake] at hstep
  dsimp only at hstep hnumbers
  rw [Option.some.injEq] at hstep
  subst hstep
  rw [setupTransmitFormat]
  by_cases hstop :
      s.sys.raw.driverState ≠ .registered ∨ s.sys.raw.handle0 ≠ s.sys.raw.handle0 ∨ num = 0
  · rw [if_pos hstop]
    exact hnumbers
  obtain ⟨ps, b', hpacks, heq⟩ := packetLoop_packs s.test.rawMaxPktSize.toNat num
    s.sys.raw.txBufs s.sys.raw.txSeqNo
  have hps := hpacks.numbered htx.pooled hpages hsize.four_le s.page
  rw [if_neg hstop, if_neg hstop, heq]
  dsimp only
  by_cases hzero : ps.length = 0
  · -- No packet could be prepared, and none was counted.
    rw [if_pos hzero]
    show GapFree s.given (s.sys.raw.txSeqNo + BitVec.ofNat 16 ps.length)
    rw [hzero]
    exact (BitVec.add_zero s.sys.raw.txSeqNo).symm ▸ hnumbers
  · rw [if_neg hzero]
    exact ⟨hnumbers, ps, rfl, rfl, hps⟩

/-- `DmaSendPkt` returns, whatever it has sent. -/
theorem SeqSys.Numbers.handOver (h : s.Numbers) {pkts : List PktBuf} {origseqno : BitVec 16}
    (hsender : s.sys.sender = .taken pkts origseqno) {n : ℕ} (hn : n ≤ pkts.length)
    (hopen : openPkts (pkts.take n) = []) {c : Chan} {new : List BdWords}
    (hwords : hwWords c = hwWords s.sys.tx ++ new)
    (hnew : List.Forall₂ Tagged (pkts.take n) new) :
    (s.handOver { s.sys with tx := c, sender := .sent pkts origseqno n }).Numbers := by
  unfold SeqSys.Numbers at h
  rw [hsender] at h
  obtain ⟨hgap, ps, rfl, hnext, hps⟩ := h
  obtain ⟨k, hk, hresult⟩ := cut_packets hps.forall_packet hn hopen
  refine ⟨ps, k, hk, rfl, hresult, hnext, hps, ?_⟩
  have hsent : ps.flatten.take n = (ps.take k).flatten := by
    conv_lhs => rw [← List.take_append_drop k ps, List.flatten_append, hresult]
    exact List.take_left
  have hpart := hps
  rw [← List.take_append_drop k ps, Numbered.append] at hpart
  have happend := hgap.append hpart.1 (hsent ▸ hnew)
  rw [List.length_take, Nat.min_eq_left hk] at happend
  show GapFree (s.given ++ ((hwWords c).drop (hwWords s.sys.tx).length).map _) _
  rw [hwords, List.drop_left]
  exact happend

/-- `TxSeqNo` goes on after the packets that were sent. -/
theorem SeqSys.Numbers.giveBack (h : s.Numbers) {pkts : List PktBuf} {origseqno : BitVec 16}
    {result : ℕ} (hsender : s.sys.sender = .sent pkts origseqno result) :
    SeqSys.Numbers { s with sys := { s.sys with
      raw := setupTransmitDone pkts origseqno result s.sys.raw, sender := .idle } } := by
  unfold SeqSys.Numbers at h
  rw [hsender] at h
  obtain ⟨ps, k, hk, rfl, hresult, hnext, hps, hgap⟩ := h
  have hresume := hps.resume hk hresult
  show GapFree s.given (setupTransmitDone ps.flatten origseqno result s.sys.raw).txSeqNo
  rw [setupTransmitDone]
  by_cases hall : result = ps.flatten.length
  · rw [if_pos hall] at hresume ⊢
    rw [hnext, hresume]
    exact hgap
  · rw [if_neg hall] at hresume ⊢
    dsimp only
    rw [hresume]
    exact hgap

/-- The DMA driver was not ready. -/
theorem SeqInv.refuse (h : SeqInv txVA rxVA numTx numRx s) {pkts : List PktBuf}
    {origseqno : BitVec 16} (hsender : s.sys.sender = .taken pkts origseqno)
    {driverState engineState : DmaState}
    (hready : ¬ (driverState = .initialized ∧ engineState = .userAssigned)) :
    dmaSendPkt driverState engineState false (fun _ => 0) pkts s.sys.tx 0 = (0, s.sys.tx, 0, []) ∧
      SeqInv txVA rxVA numTx numRx (s.handOver { s.sys with
        tx := s.sys.tx, sender := .sent pkts origseqno 0 }) := by
  obtain ⟨⟨hreg, hsound, htx, hrx⟩, hsize, hnumbers⟩ := h
  rw [hsender] at hsound htx
  refine ⟨?_, ⟨hreg, Nat.zero_le _, htx, hrx⟩, hsize,
    hnumbers.handOver hsender (Nat.zero_le _) rfl (List.append_nil _).symm .nil⟩
  unfold dmaSendPkt
  rw [if_pos]
  by_cases hdriver : driverState = .initialized
  · exact Or.inr (Or.inr (Or.inl fun hengine => hready ⟨hdriver, hengine⟩))
  · exact Or.inl hdriver

/-- A command. -/
theorem SeqInv.setState (h : SeqInv txVA rxVA numTx numRx s) {hndl privdata : U32}
    {ustate : UserState}
    (hidle : ¬ (Flag ustate.testMode testStart ∧ s.sys.sender.isIdle = false)) :
    SeqInv txVA rxVA numTx numRx { s with
      sys := { s.sys with raw := (mySetState hndl ustate privdata s.sys.raw s.test).2.1 }
      test := (mySetState hndl ustate privdata s.sys.raw s.test).2.2
      given := if ResetsSeqNo hndl ustate privdata s.sys.raw then [] else s.given } := by
  obtain ⟨⟨hreg, hsound, htx, hrx⟩, hsize, hnumbers⟩ := h
  have hsize' := mySetState_size hndl ustate privdata s.sys.raw hsize
  rw [mySetState_raw]
  by_cases hreset : ResetsSeqNo hndl ustate privdata s.sys.raw
  · rw [if_pos hreset, if_pos hreset]
    refine ⟨⟨hreg, hsound, htx, hrx⟩, hsize', ?_⟩
    cases hsender : s.sys.sender with
    | idle =>
      unfold SeqSys.Numbers
      dsimp only
      rw [hsender]
      exact ⟨[], rfl, trivial, rfl⟩
    | taken pkts origseqno => exact absurd ⟨hreset.2.2.2.1, by rw [hsender]; rfl⟩ hidle
    | sent pkts origseqno result => exact absurd ⟨hreset.2.2.2.1, by rw [hsender]; rfl⟩ hidle
  · rw [if_neg hreset, if_neg hreset]
    exact ⟨⟨hreg, hsound, htx, hrx⟩, hsize', hnumbers.congr rfl rfl rfl rfl⟩

/-- **One step.** -/
theorem seqStep_inv {a : SeqAct} (hpages : (pages txVA numTx).Nodup)
    (h : SeqInv txVA rxVA numTx numRx s) (hstep : seqStep s a = some s') :
    SeqInv txVA rxVA numTx numRx s' := by
  cases a with
  | refuse driverState engineState =>
    cases hsender : s.sys.sender with
    | taken pkts origseqno =>
      rw [seqStep, hsender] at hstep
      dsimp only at hstep
      by_cases hready : driverState = .initialized ∧ engineState = .userAssigned
      · rw [if_pos hready] at hstep
        cases hstep
      · obtain ⟨heq, hinv⟩ := h.refuse hsender hready
        rw [if_neg hready, heq, Option.some.injEq] at hstep
        exact hstep ▸ hinv
    | _ => simp [seqStep, hsender] at hstep
  | setState hndl ustate privdata =>
    rw [seqStep] at hstep
    by_cases hidle : Flag ustate.testMode testStart ∧ s.sys.sender.isIdle = false
    · rw [if_pos hidle] at hstep
      cases hstep
    · rw [if_neg hidle, Option.some.injEq] at hstep
      exact hstep ▸ h.setState hidle
  | turn a =>
    cases a with
    | take num pktsize =>
      rw [seqStep] at hstep
      split_ifs at hstep with hsize
      subst hsize
      obtain ⟨sys, hsys, rfl⟩ := Option.map_eq_some_iff.1 hstep
      cases hsender : s.sys.sender with
      | idle => exact ⟨rawStep_inv h.raw hsys, h.size, h.take hpages hsender hsys⟩
      | _ => simp [rawStep, hsender] at hsys
    | send bus =>
      rw [seqStep] at hstep
      obtain ⟨sys, hsys, rfl⟩ := Option.map_eq_some_iff.1 hstep
      have hraw := rawStep_inv h.raw hsys
      cases hsender : s.sys.sender with
      | taken pkts origseqno =>
        obtain ⟨-, hwhole, ⟨g, htx⟩, -⟩ := h.raw
        rw [hsender] at hwhole
        obtain ⟨new, hwords, hnew⟩ := htx.settled.sendPkt_tagged htx.dir false bus hwhole 0 rfl
        rw [rawStep, hsender, Option.some.injEq] at hsys
        subst hsys
        refine ⟨hraw, h.size, h.numbers.handOver hsender hraw.sender ?_ hwords hnew⟩
        exact dmaSendPkt_whole _ _ _ _ _ _ _
      | _ => simp [rawStep, hsender] at hsys
    | giveBack =>
      rw [seqStep.eq_def] at hstep
      dsimp only at hstep
      obtain ⟨sys, hsys, rfl⟩ := Option.map_eq_some_iff.1 hstep
      have hraw := rawStep_inv h.raw hsys
      cases hsender : s.sys.sender with
      | sent pkts origseqno result =>
        rw [rawStep, hsender, Option.some.injEq] at hsys
        subst hsys
        exact ⟨hraw, h.size, h.numbers.giveBack hsender⟩
      | _ => simp [rawStep, hsender] at hsys
    | _ =>
      rw [seqStep.eq_def] at hstep
      dsimp only at hstep
      obtain ⟨sys, hsys, rfl⟩ := Option.map_eq_some_iff.1 hstep
      obtain ⟨hsame, hseq⟩ := rawStep_numbers h.raw hsys (by simp) (by simp) (by simp)
      exact ⟨rawStep_inv h.raw hsys, h.size, h.numbers.congr hsame hseq rfl rfl⟩

/-- **Gap-free sequence numbers.** The BDs that have been given to the hardware since `TxSeqNo` was
last reset are, in the order in which they were queued, those of packets numbered from 0, and
between two calls `TxSeqNo` is the number of the next one. -/
theorem seqNo_gapFree (txVA rxVA : ℕ → U32) (numTx numRx : ℕ) (handle0 handle2 : U32)
    (txSeqNo : BitVec 16) (tx rx : Chan) (reg : U32 → U32) (page : Pages) (htx : Started false tx)
    (hrx : Started true rx) (hpages : (pages txVA numTx).Nodup) (acts : List SeqAct) (s : SeqSys)
    (hrun : run seqStep (registeredSeq
      (registeredSys txVA rxVA numTx numRx handle0 handle2 txSeqNo tx rx) reg page) acts = some s) :
    ∃ ps : List Given, s.given = ps.flatten ∧ Numbered Carries 0 ps ∧
      (s.sys.sender = .idle → s.sys.raw.txSeqNo = BitVec.ofNat 16 ps.length) := by
  have hinv : SeqInv txVA rxVA numTx numRx s := by
    refine run_inv' (fun s a s' h hstep => seqStep_inv hpages h hstep) ?_ hrun
    refine ⟨⟨rfl, trivial, htx.side txVA numTx, hrx.side rxVA numRx⟩, boundSizes_ok maxPktSize, ?_⟩
    exact ⟨[], rfl, trivial, rfl⟩
  have hnumbers := hinv.numbers
  unfold SeqSys.Numbers at hnumbers
  cases hsender : s.sys.sender with
  | idle =>
    rw [hsender] at hnumbers
    obtain ⟨ps, hflat, hps, hnext⟩ := hnumbers
    exact ⟨ps, hflat, hps, fun _ => hnext⟩
  | taken pkts origseqno =>
    rw [hsender] at hnumbers
    obtain ⟨⟨ps, hflat, hps, -⟩, -⟩ := hnumbers
    exact ⟨ps, hflat, hps, fun hidle => by cases hidle⟩
  | sent pkts origseqno result =>
    rw [hsender] at hnumbers
    obtain ⟨-, -, -, -, -, -, -, ps, hflat, hps, -⟩ := hnumbers
    exact ⟨ps, hflat, hps, fun hidle => by cases hidle⟩

/-- A test of packets of 100 bytes: three are prepared, there are BDs for two. -/
def twoOfThree : List SeqAct :=
  [.setState 7 { minPktSize := 100, maxPktSize := 100, testMode := testStart ||| enablePktchk }
      0x54545454,
    .turn (.take 3 100), .turn (.send fun _ => 0x4000), .turn .giveBack]

/-- The rings of `pools_in_lockStep_oneRound` with three pages for transmission. -/
def threePages : RawSys :=
  registeredSys (fun i => BitVec.ofNat 32 (0x10000 + 0x1000 * i))
    (fun i => BitVec.ofNat 32 (0x20000 + 0x1000 * i)) 3 2 7 9 0
    (bdRingStart (bdRingCreate (initializedChan false fun _ => 0) 0 0x1000 64 4).2).2
    (bdRingStart (bdRingCreate (initializedChan true fun _ => 0) 0 0x2000 64 4).2).2

theorem seqNo_gapFree_twoOfThree : ∃ s,
    run seqStep (registeredSeq threePages (fun _ => 0) fun _ _ => 0) twoOfThree = some s ∧
    ∃ ps : List Given, s.given = ps.flatten ∧ Numbered Carries 0 ps ∧
      (s.sys.sender = .idle → s.sys.raw.txSeqNo = BitVec.ofNat 16 ps.length) :=
  ⟨_, rfl, seqNo_gapFree (fun i => BitVec.ofNat 32 (0x10000 + 0x1000 * i))
    (fun i => BitVec.ofNat 32 (0x20000 + 0x1000 * i)) 3 2 7 9 0 _ _ (fun _ => 0) (fun _ _ => 0)
    ⟨initializedChan false fun _ => 0, 0, 0x1000, 64, 4, rfl, by decide, by decide, rfl⟩
    ⟨initializedChan true fun _ => 0, 0, 0x2000, 64, 4, rfl, by decide, by decide, rfl⟩
    (by decide) twoOfThree _ rfl⟩

end Dma
