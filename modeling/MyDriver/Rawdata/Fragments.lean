import Mathlib.Algebra.Order.Floor.Div
import MyDriver.Rawdata.SeqNo

/-!
# Transmit fragmentation

`DmaSetupTransmit` cuts packets of the size of the running test into pages of the transmit pool, for
as long as there are pages, and gives the pages of a packet back that it could not complete.

* `afterCmds_ok` — the packet size is within its bounds after any test commands.
* `Frags.need` — a packet is complete exactly when the pool has the pages for it.
* `transmit_fragments` — **what `DmaSendPkt` is given**, whatever part of the pool is out.
-/

namespace Dma

open Cyclic

/-! ## Packet sizes -/

/-- A call of `mySetState`, with the driver as it finds it. -/
structure TestCmd where
  raw : RawData
  hndl : U32
  ustate : UserState
  privdata : U32

/-- The variables after the commands; nothing else writes the packet sizes. -/
def afterCmds (t : TestVars) (cmds : List TestCmd) : TestVars :=
  cmds.foldl (fun t cmd => (mySetState cmd.hndl cmd.ustate cmd.privdata cmd.raw t).2.2) t

/-- Both packet sizes are within the bounds. -/
def SizesOk (t : TestVars) : Prop :=
  (minPktSize ≤ t.rawMinPktSize ∧ t.rawMinPktSize ≤ maxPktSize) ∧
    minPktSize ≤ t.rawMaxPktSize ∧ t.rawMaxPktSize ≤ maxPktSize

theorem boundSizes_fst (size : U32) : (boundSizes size).1 = (boundSizes size).2 := by
  unfold boundSizes
  dsimp only
  split_ifs <;> rfl

theorem mySetState_sizes (hndl : U32) (ustate : UserState) (privdata : U32) (raw : RawData)
    {t : TestVars} (h : SizesOk t) : SizesOk (mySetState hndl ustate privdata raw t).2.2 := by
  rcases mySetState_sizes_eq hndl ustate privdata raw t with hsame | hbound
  · rw [SizesOk, (Prod.mk.inj hsame).1, (Prod.mk.inj hsame).2]
    exact h
  · have hsizes := boundSizes_ok ustate.maxPktSize
    have hequal := boundSizes_fst ustate.maxPktSize
    rw [← hbound] at hsizes hequal
    dsimp only at hsizes hequal
    rw [SizesOk, hequal]
    exact ⟨hsizes, hsizes⟩

theorem afterCmds_ok (reg : U32 → U32) (cmds : List TestCmd) :
    SizesOk (afterCmds (loadedTest reg) cmds) := by
  have hbounds : minPktSize ≤ maxPktSize := by decide
  have hloaded : SizesOk (loadedTest reg) := ⟨⟨BitVec.le_refl _, hbounds⟩, hbounds, BitVec.le_refl _⟩
  rw [afterCmds]
  generalize loadedTest reg = t at hloaded
  induction cmds generalizing t with
  | nil => exact hloaded
  | cons cmd cmds ih => exact ih _ (mySetState_sizes _ _ _ _ hloaded)

/-! ## The pool -/

/-- `NUM_BUFS` -/
def numBufs : ℕ := 4000

/-- The operations on a pool. -/
inductive BufferOp where
  | alloc
  | freeUsed (num : ℕ)
  | freeUnused (num : ℕ)

def bufferStep (b : Buffer) : BufferOp → Buffer
  | .alloc => ((allocBuf b).map Prod.snd).getD b
  | .freeUsed num => freeUsedBuf num b
  | .freeUnused num => freeUnusedBuf num b

section Pools

variable {bufVA : ℕ → U32} {n : ℕ} {b b' : Buffer}

/-- `free` is a loop that does `step` while a buffer is out. -/
structure FreeLoop (free : ℕ → Buffer → Buffer) (step : Buffer → Buffer) : Prop where
  zero : ∀ b, free 0 b = b
  succ : ∀ num b, free (num + 1) b = if b.allocNum = 0 then b else free num (step b)
  count : ∀ b, (step b).allocNum = b.allocNum - 1

namespace FreeLoop

variable {free : ℕ → Buffer → Buffer} {step : Buffer → Buffer}

/-- More than is out cannot be given back. -/
theorem eq_min (h : FreeLoop free step) (num : ℕ) (b : Buffer) :
    free num b = free (min num b.allocNum) b := by
  induction num generalizing b with
  | zero => rw [Nat.zero_min]
  | succ num ih =>
    by_cases hnone : b.allocNum = 0
    · rw [h.succ, if_pos hnone, hnone, Nat.min_zero, h.zero]
    · rw [show min (num + 1) b.allocNum = min num (b.allocNum - 1) + 1 by omega, h.succ,
        h.succ, if_neg hnone, if_neg hnone, ih, h.count]

/-- What a step leaves alone, the loop does. -/
theorem frame {β : Type*} (h : FreeLoop free step) (f : Buffer → β) (hf : ∀ b, f (step b) = f b)
    (num : ℕ) (b : Buffer) : f (free num b) = f b := by
  induction num generalizing b with
  | zero => rw [h.zero]
  | succ num ih =>
    rw [h.succ]
    split_ifs
    · rfl
    · rw [ih, hf]

end FreeLoop

theorem freeUsedBuf_loop : FreeLoop freeUsedBuf fun b => { b with
    allocPtr := if b.allocPtr + 1 = b.lastBuf then 0 else b.allocPtr + 1
    allocNum := b.allocNum - 1 } :=
  ⟨fun _ => rfl, fun _ _ => rfl, fun _ => rfl⟩

theorem freeUnusedBuf_loop : FreeLoop freeUnusedBuf fun b => { b with
    freePtr := (if b.freePtr = 0 then b.lastBuf else b.freePtr) - 1
    allocNum := b.allocNum - 1 } :=
  ⟨fun _ => rfl, fun _ _ => rfl, fun _ => rfl⟩

theorem Pooled.step (h : Pooled bufVA n b) (op : BufferOp) : Pooled bufVA n (bufferStep b op) := by
  cases op with
  | alloc =>
    rw [bufferStep]
    cases hok : Dma.allocBuf b with
    | none => exact h
    | some got => exact (h.allocBuf hok).1
  | freeUsed num =>
    rw [bufferStep, freeUsedBuf_loop.eq_min]
    exact (h.freeUsedBuf (Nat.min_le_right _ _)).1
  | freeUnused num =>
    rw [bufferStep, freeUnusedBuf_loop.eq_min]
    exact (h.freeUnusedBuf (Nat.min_le_right _ _)).1

theorem Pooled.steps (h : Pooled bufVA n b) (ops : List BufferOp) :
    Pooled bufVA n (ops.foldl bufferStep b) := by
  induction ops generalizing b with
  | nil => exact h
  | cons op ops ih => exact ih (h.step op)

theorem length_freeBufs (b : Buffer) : (freeBufs b).length = b.totalNum - b.allocNum :=
  length_arc _ _ _

/-- The window and the pool behind it make up a lap of the pages. -/
theorem Pooled.lap (h : Pooled bufVA n b) :
    window b ++ freeBufs b = arc (fun x => bufVA (x % n)) b.allocPtr n := by
  rw [h.window_eq, freeBufs, h.free, h.total, h.va, arc_mod, arc_append, Nat.add_sub_cancel' h.le]

theorem freeUnusedBuf_allocPtr (num : ℕ) (b : Buffer) :
    (freeUnusedBuf num b).allocPtr = b.allocPtr :=
  freeUnusedBuf_loop.frame Buffer.allocPtr (fun _ => rfl) num b

theorem allocBuf_allocPtr {va : U32} (hok : allocBuf b = some (va, b')) :
    b'.allocPtr = b.allocPtr := by
  rw [allocBuf] at hok
  by_cases hfull : b.allocNum = b.totalNum
  · rw [if_pos hfull] at hok
    cases hok
  · rw [if_neg hfull] at hok
    rw [← (Prod.mk.inj (Option.some.inj hok)).2]

theorem Frags.allocPtr {txSeqNo : BitVec 16} {pktsize total fragment : ℕ}
    {frags : ℕ × List PktBuf × Buffer} (h : Frags txSeqNo pktsize total fragment b frags) :
    frags.2.2.allocPtr = b.allocPtr := by
  induction h with
  | stop _ => rfl
  | dry _ _ => rfl
  | next _ hok _ _ ih => exact ih.trans (allocBuf_allocPtr hok)

theorem Packs.allocPtr {pktsize num : ℕ} {txSeqNo : BitVec 16} {ps : List (List PktBuf)}
    (hpacks : Packs pktsize num txSeqNo b ps b') : b'.allocPtr = b.allocPtr := by
  induction hpacks with
  | stop => rfl
  | @short num txSeqNo b frags hfrags _ =>
    have hall := Frags.of_eq hfrags
    rw [freeUnusedBuf_allocPtr, hall.allocPtr]
  | @next num txSeqNo b b' frags ps hfrags _ _ ih =>
    have hall := Frags.of_eq hfrags
    rw [ih, hall.allocPtr]

/-- Buffers are taken from the front of the pool. -/
theorem Took.freeBufs {pkts : List PktBuf} (h : Pooled bufVA n b) (htook : Took bufVA n b pkts b')
    (hptr : b'.allocPtr = b.allocPtr) : freeBufs b = pkts.map PktBuf.bufInfo ++ freeBufs b' := by
  have hlap := htook.pooled.lap
  rw [hptr, ← h.lap, htook.window, List.append_assoc] at hlap
  exact (List.append_cancel_left hlap).symm

end Pools

/-! ## Fragments -/

/-- `l` cuts what is left of a packet after `total` bytes in `fragment` fragments. -/
def Cuts (pktsize : ℕ) : ℕ → ℕ → List PktBuf → Prop
  | total, _, [] => total = pktsize
  | total, fragment, f :: l =>
    f.size.toNat = min bufSize (pktsize - total) ∧ 0 < f.size.toNat ∧ f.bufInfo = f.pktBuf ∧
      f.flags = fragFlags fragment (total + f.size.toNat) pktsize ∧
      Cuts pktsize (total + f.size.toNat) (fragment + 1) l

/-- A complete packet of `size` bytes. -/
structure Packet (size : ℕ) (l : List PktBuf) : Prop where
  count : l.length = size ⌈/⌉ bufSize
  sizes : ∀ f ∈ l, 1 ≤ f.size.toNat ∧ f.size.toNat ≤ bufSize
  sum : (l.map fun f => f.size.toNat).sum = size
  info : ∀ f ∈ l, f.bufInfo = f.pktBuf
  all : ∀ f ∈ l, Flag f.flags pktAll
  sop : ∀ i, (h : i < l.length) → (Flag l[i].flags bdSopMask ↔ i = 0)
  eop : ∀ i, (h : i < l.length) → (Flag l[i].flags bdEopMask ↔ i + 1 = l.length)

theorem ceilDiv_step {k n : ℕ} (hk : 0 < k) (hn : 0 < n) : n ⌈/⌉ k = (n - k) ⌈/⌉ k + 1 := by
  rw [Nat.ceilDiv_eq_add_pred_div, Nat.ceilDiv_eq_add_pred_div]
  by_cases hle : k ≤ n
  · rw [show n + k - 1 = n - k + k - 1 + k by omega, Nat.add_div_right _ hk]
  · rw [show n + k - 1 = n - 1 + k by omega, Nat.add_div_right _ hk, Nat.div_eq_of_lt (by omega),
      Nat.div_eq_of_lt (by omega)]

namespace Cuts

variable {pktsize total fragment : ℕ} {l : List PktBuf}

theorem count (h : Cuts pktsize total fragment l) : l.length = (pktsize - total) ⌈/⌉ bufSize := by
  induction l generalizing total fragment with
  | nil =>
    have hend : total = pktsize := h
    rw [hend, Nat.sub_self, zero_ceilDiv]
    rfl
  | cons f l ih =>
    obtain ⟨hsize, hpos, -, -, hrest⟩ := h
    have hbuf : 0 < bufSize := by decide
    have hleft : pktsize - (total + f.size.toNat) = pktsize - total - bufSize := by omega
    rw [List.length_cons, ih hrest, hleft,
      ceilDiv_step hbuf (show 0 < pktsize - total by omega)]

theorem sizes (h : Cuts pktsize total fragment l) :
    ∀ f ∈ l, 1 ≤ f.size.toNat ∧ f.size.toNat ≤ bufSize := by
  induction l generalizing total fragment with
  | nil =>
    intro f hf
    cases hf
  | cons f l ih =>
    obtain ⟨hsize, hpos, -, -, hrest⟩ := h
    intro f' hf'
    rcases List.mem_cons.1 hf' with rfl | hin
    · exact ⟨hpos, by omega⟩
    · exact ih hrest f' hin

theorem sum (h : Cuts pktsize total fragment l) :
    total + (l.map fun f => f.size.toNat).sum = pktsize := by
  induction l generalizing total fragment with
  | nil => exact h
  | cons f l ih =>
    obtain ⟨-, -, -, -, hrest⟩ := h
    rw [List.map_cons, List.sum_cons, ← Nat.add_assoc]
    exact ih hrest

theorem info (h : Cuts pktsize total fragment l) : ∀ f ∈ l, f.bufInfo = f.pktBuf := by
  induction l generalizing total fragment with
  | nil =>
    intro f hf
    cases hf
  | cons f l ih =>
    obtain ⟨-, -, hinfo, -, hrest⟩ := h
    intro f' hf'
    rcases List.mem_cons.1 hf' with rfl | hin
    · exact hinfo
    · exact ih hrest f' hin

/-- The flags of each fragment: the last one is where the sum is complete. -/
theorem flags (h : Cuts pktsize total fragment l) (i : ℕ) (hi : i < l.length) :
    Flag l[i].flags pktAll ∧ (Flag l[i].flags bdSopMask ↔ fragment + i = 0) ∧
      (Flag l[i].flags bdEopMask ↔ i + 1 = l.length) := by
  induction l generalizing total fragment i with
  | nil => exact absurd hi (Nat.not_lt_zero i)
  | cons f l ih =>
    obtain ⟨-, -, -, hflags, hrest⟩ := h
    cases i with
    | zero =>
      have hlast : total + f.size.toNat = pktsize ↔ l = [] := by
        constructor
        · intro hend
          have hcount := hrest.count
          rw [hend, Nat.sub_self, zero_ceilDiv] at hcount
          exact List.length_eq_zero_iff.1 hcount
        · rintro rfl
          exact hrest
      rw [List.getElem_cons_zero, hflags, fragFlags_sop, fragFlags_eop, hlast, decide_eq_true_eq,
        List.length_cons]
      refine ⟨fragFlags_all _ _ _, Iff.rfl, ?_⟩
      rw [← List.length_eq_zero_iff]
      omega
    | succ i =>
      obtain ⟨hall, hsop, heop⟩ := ih hrest i (Nat.lt_of_succ_lt_succ hi)
      rw [List.getElem_cons_succ, List.length_cons, hsop, heop]
      exact ⟨hall, by omega, by omega⟩

theorem packet (h : Cuts pktsize 0 0 l) : Packet pktsize l where
  count := h.count
  sizes := h.sizes
  sum := (Nat.zero_add _).symm.trans h.sum
  info := h.info
  all f hf := by
    obtain ⟨i, hi, rfl⟩ := List.getElem_of_mem hf
    exact (h.flags i hi).1
  sop i hi := by
    rw [(h.flags i hi).2.1, Nat.zero_add]
  eop i hi := (h.flags i hi).2.2

end Cuts

/-! ## The two loops -/

section Loops

variable {bufVA : ℕ → U32} {n : ℕ} {b : Buffer}

theorem allocBuf_none (hnone : allocBuf b = none) : b.totalNum - b.allocNum = 0 := by
  rw [allocBuf] at hnone
  by_cases hfull : b.allocNum = b.totalNum
  · omega
  · rw [if_neg hfull] at hnone
    cases hnone

theorem Took.free_left {pkts : List PktBuf} {b' : Buffer} (h : Pooled bufVA n b)
    (htook : Took bufVA n b pkts b') :
    pkts.length ≤ b.totalNum - b.allocNum ∧
      b'.totalNum - b'.allocNum = b.totalNum - b.allocNum - pkts.length := by
  have hlen := congrArg List.length htook.window
  have hle := htook.pooled.le
  rw [length_window, List.length_append, length_window, List.length_map] at hlen
  rw [h.total, htook.pooled.total]
  omega

/-- **A packet is complete** exactly when there are pages for all of it. -/
theorem Frags.need {txSeqNo : BitVec 16} {pktsize total fragment : ℕ}
    {frags : ℕ × List PktBuf × Buffer} (hfrags : Frags txSeqNo pktsize total fragment b frags)
    (h : Pooled bufVA n b) (htotal : total ≤ pktsize) (hsize : pktsize < 2 ^ 32) :
    (frags.1 < pktsize ↔ b.totalNum - b.allocNum < (pktsize - total) ⌈/⌉ bufSize) ∧
    (¬ frags.1 < pktsize → Cuts pktsize total fragment frags.2.1) := by
  have hbuf : 0 < bufSize := by decide
  induction hfrags with
  | @stop total fragment b hge =>
    obtain rfl : total = pktsize := by omega
    rw [Nat.sub_self, zero_ceilDiv]
    exact ⟨⟨fun hlt => absurd hlt hge, fun hlt => absurd hlt (Nat.not_lt_zero _)⟩, fun _ => rfl⟩
  | @dry total fragment b hlt hnone =>
    rw [allocBuf_none hnone, ceilDiv_step hbuf (show 0 < pktsize - total by omega)]
    exact ⟨⟨fun _ => Nat.succ_pos _, fun _ => hlt⟩, fun hge => absurd hlt hge⟩
  | @next total fragment bufsize b b' va rest hlt hok hmin hrest ih =>
    have hnat : (BitVec.ofNat 32 bufsize).toNat = bufsize := toNat_ofNat_cnt (by omega)
    have hleft : pktsize - (total + bufsize) = pktsize - total - bufSize := by omega
    have hfree := (Took.one (p := { (default : PktBuf) with bufInfo := va }) h hok rfl).free_left h
    obtain ⟨hneed, hcuts⟩ := ih (h.allocBuf hok).1 (by omega)
    rw [List.length_singleton] at hfree
    rw [ceilDiv_step hbuf (show 0 < pktsize - total by omega)]
    constructor
    · rw [hneed, hleft, hfree.2]
      omega
    · intro hge
      refine ⟨?_, ?_, rfl, ?_, ?_⟩
      · rw [hnat]
        exact hmin
      · rw [hnat]
        omega
      · rw [hnat]
      · rw [hnat]
        exact hcuts hge

/-- **The packets of one call**: as many as were asked for, or as there are pages for. -/
theorem Packs.packets {pktsize num : ℕ} {txSeqNo : BitVec 16} {ps : List (List PktBuf)}
    {b' : Buffer} (hpacks : Packs pktsize num txSeqNo b ps b') (hpos : 0 < pktsize)
    (hsize : pktsize < 2 ^ 32) (h : Pooled bufVA n b) :
    (∀ l ∈ ps, Packet pktsize l) ∧
      ps.length = min num ((b.totalNum - b.allocNum) / (pktsize ⌈/⌉ bufSize)) := by
  have hneedpos : 0 < pktsize ⌈/⌉ bufSize := by
    rw [ceilDiv_step (by decide) hpos]
    exact Nat.succ_pos _
  induction hpacks with
  | stop => exact ⟨fun l hl => absurd hl List.not_mem_nil, (Nat.zero_min _).symm⟩
  | @short num txSeqNo b frags hfrags hlt =>
    have hall := Frags.of_eq hfrags
    have hneed := (hall.need h (Nat.zero_le pktsize) hsize).1.1 hlt
    rw [Nat.sub_zero] at hneed
    refine ⟨fun l hl => absurd hl List.not_mem_nil, ?_⟩
    rw [Nat.div_eq_of_lt hneed, Nat.min_zero]
    rfl
  | @next num txSeqNo b b' frags ps hfrags hge hrest ih =>
    have hall := Frags.of_eq hfrags
    have hpacket := ((hall.need h (Nat.zero_le pktsize) hsize).2 hge).packet
    obtain ⟨htook, -, -⟩ := hall.spec h (Nat.zero_le pktsize)
    obtain ⟨hps, hcount⟩ := ih htook.pooled
    obtain ⟨hle, hleft⟩ := htook.free_left h
    rw [hpacket.count] at hle hleft
    refine ⟨List.forall_mem_cons.2 ⟨hpacket, hps⟩, ?_⟩
    rw [List.length_cons, hcount, hleft, Nat.div_eq_sub_div hneedpos hle, Nat.succ_min_succ]

end Loops

/-- **What `DmaSendPkt` is given.** The packet size is within its bounds after any test commands.
However the pool has been used, `DmaSetupTransmit` passes on complete packets of this size, as many
as were asked for or as there are pages for, in the pages that are next in the pool; these have left
the pool, and no others. -/
theorem transmit_fragments (bufVA : ℕ → U32) (got : ℕ) (hpages : (pages bufVA (min got numBufs)).Nodup)
    (uses : List BufferOp) (cmds : List TestCmd) (reg : U32 → U32) (hndl : U32) (raw : RawData)
    (hpool : raw.txBufs = uses.foldl bufferStep (initBuffers bufVA (min got numBufs))) (num : ℕ) :
    let t := afterCmds (loadedTest reg) cmds
    let size := t.rawMaxPktSize.toNat
    let free := freeBufs raw.txBufs
    SizesOk t ∧
    ∀ pkts origseqno raw', setupTransmitTake hndl num size raw = (some (pkts, origseqno), raw') →
      (∃ packets : List (List PktBuf), pkts = packets.flatten ∧ (∀ l ∈ packets, Packet size l) ∧
        packets.length = min num (free.length / (size ⌈/⌉ bufSize))) ∧
      pkts.map PktBuf.pktBuf = free.take pkts.length ∧ (pkts.map PktBuf.pktBuf).Nodup ∧
      pkts.length ≤ numBufs ∧ freeBufs raw'.txBufs = free.drop pkts.length ∧
      window raw'.txBufs = window raw.txBufs ++ pkts.map PktBuf.pktBuf := by
  intro t size free
  have hsizes : SizesOk t := afterCmds_ok reg cmds
  refine ⟨hsizes, fun pkts origseqno raw' htake => ?_⟩
  have hpooled : Pooled bufVA (min got numBufs) raw.txBufs := by
    rw [hpool]
    exact (initBuffers_pooled _ _).steps uses
  have hpos : 0 < size := lt_of_lt_of_le (by decide) (BitVec.le_def.1 hsizes.2.1)
  have hlt : size < 2 ^ 32 := t.rawMaxPktSize.isLt
  obtain ⟨ps, b', hpacks, heq⟩ := packetLoop_packs size num raw.txBufs raw.txSeqNo
  obtain ⟨htook, -⟩ := hpacks.spec hpooled
  obtain ⟨hall, hcount⟩ := hpacks.packets hpos hlt hpooled
  rw [setupTransmitTake] at htake
  by_cases hready : raw.driverState ≠ .registered ∨ hndl ≠ raw.handle0 ∨ num = 0
  · rw [if_pos hready] at htake
    cases htake
  rw [if_neg hready, heq] at htake
  dsimp only at htake
  obtain ⟨hsome, rfl⟩ := Prod.mk.inj htake
  by_cases hnone : ps.length = 0
  · rw [if_pos hnone] at hsome
    cases hsome
  rw [if_neg hnone] at hsome
  obtain ⟨rfl, -⟩ := Prod.mk.inj (Option.some.inj hsome)
  have hinfo : ps.flatten.map PktBuf.bufInfo = ps.flatten.map PktBuf.pktBuf := by
    refine List.map_congr_left fun f hf => ?_
    obtain ⟨l, hl, hin⟩ := List.mem_flatten.1 hf
    exact (hall l hl).info f hin
  have hfree : free = ps.flatten.map PktBuf.pktBuf ++ freeBufs b' := by
    rw [← hinfo]
    exact htook.freeBufs hpooled hpacks.allocPtr
  have hnodup : free.Nodup :=
    ((List.nodup_append'.1 ((hpooled.perm hpages).nodup_iff.2 hpages)).2).1
  have hlen : (ps.flatten.map PktBuf.pktBuf).length = ps.flatten.length := List.length_map _
  refine ⟨⟨ps, rfl, hall, ?_⟩, ?_, ?_, ?_, ?_, ?_⟩
  · rw [hcount, ← length_freeBufs]
  · rw [hfree, ← hlen, List.take_left]
  · rw [hfree] at hnodup
    exact (List.nodup_append'.1 hnodup).1
  · have hle := congrArg List.length hfree
    rw [length_freeBufs, hpooled.total, List.length_append, hlen] at hle
    omega
  · rw [hfree, ← hlen, List.drop_left]
  · rw [← hinfo]
    exact htook.window

/-- The raw data driver with six pages for transmission, one of which is out. -/
def fivePagesLeft : RawData where
  driverState := .registered
  handle0 := 7
  handle2 := 9
  txBufs := [BufferOp.alloc].foldl bufferStep
    (initBuffers (fun i => BitVec.ofNat 32 (0x10000 + 0x1000 * i)) (min 6 numBufs))
  rxBufs := initBuffers (fun _ => 0) 0
  txSeqNo := 0

/-- A test with packets of 5000 bytes. -/
def startLong : TestCmd where
  raw := fivePagesLeft
  hndl := 7
  ustate := { minPktSize := 0, maxPktSize := 5000, testMode := testStart ||| enablePktchk }
  privdata := 0x54545454

/-- Two packets of two pages are sent; the fifth page alone is not enough. -/
theorem transmit_fragments_fivePagesLeft :
    let t := afterCmds (loadedTest fun _ => 0) [startLong]
    t.rawMaxPktSize = 5000 ∧ SizesOk t ∧
    ∃ pkts origseqno raw',
      setupTransmitTake 7 9 t.rawMaxPktSize.toNat fivePagesLeft =
        (some (pkts, origseqno), raw') ∧
      pkts.map (fun f => f.size) = [4096, 904, 4096, 904] ∧
      ∃ packets : List (List PktBuf), pkts = packets.flatten ∧
        (∀ l ∈ packets, Packet t.rawMaxPktSize.toNat l) ∧
        packets.length = min 9 ((freeBufs fivePagesLeft.txBufs).length /
          (t.rawMaxPktSize.toNat ⌈/⌉ bufSize)) := by
  intro t
  have hpages : (pages (fun i => BitVec.ofNat 32 (0x10000 + 0x1000 * i)) (min 6 numBufs)).Nodup := by
    decide +kernel
  have hsize : t.rawMaxPktSize = 5000 := by decide +kernel
  obtain ⟨hok, hsent⟩ := transmit_fragments _ 6 hpages [.alloc] [startLong] (fun _ => 0) 7
    fivePagesLeft rfl 9
  refine ⟨hsize, hok, ?_⟩
  have htake : ∃ pkts origseqno raw', setupTransmitTake 7 9 t.rawMaxPktSize.toNat fivePagesLeft =
      (some (pkts, origseqno), raw') ∧ pkts.map (fun f => f.size) = [4096, 904, 4096, 904] := by
    rw [hsize]
    exact ⟨_, _, _, rfl, by decide +kernel⟩
  obtain ⟨pkts, origseqno, raw', htake, hsizes⟩ := htake
  exact ⟨pkts, origseqno, raw', htake, hsizes, (hsent pkts origseqno raw' htake).1⟩

end Dma
