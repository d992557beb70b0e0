import Mathlib.Data.List.DropRight
import Mathlib.Order.Bounds.Basic
import MyDriver.Xdma.Sections

/-!
# Packets and their fragments

The packets that a user hands to `DmaSendPkt` are fragments: flags say where a packet of the user
starts and ends, and whether all of its fragments must be sent. `DmaSendPkt` counts the fragments
since the last end, to hold them back, and remembers the last start in `PartialBDPtr`.

* `openPkts` — the fragments after the last end of packet.
* `sendVars_count`, `sendVars_ptr` — what the loop of `DmaSendPkt` has counted and remembered.
* `Anchored` — what is open begins at the last start; this is when the two agree (`sendVars_spec`).
* `WholePkts` — complete packets, which are anchored wherever they are cut (`Framed.anchored`).
* `CompletePkt` — one complete packet, fragment by fragment; `isGreatest_packetEnd` says how much of
  a list of them can be sent when the room is limited.
-/

namespace Dma

variable {r : BdRing}

/-! ## Open fragments -/

/-- The packet ends a packet of the user. -/
def PktBuf.eop (p : PktBuf) : Bool := decide (Flag p.flags bdEopMask)

/-- The packet starts one of which all fragments must be sent. -/
def PktBuf.Starts (p : PktBuf) : Prop := Flag p.flags bdSopMask ∧ Flag p.flags pktAll

instance (p : PktBuf) : Decidable p.Starts := by unfold PktBuf.Starts; infer_instance

/-- The fragments after the last end of packet. -/
def openPkts (pkts : List PktBuf) : List PktBuf := pkts.rtakeWhile fun p => !p.eop

/-- The open fragments begin with the last packet that starts one. -/
def Anchored (pkts : List PktBuf) : Prop :=
  ∀ p ps, openPkts pkts = p :: ps → p.Starts ∧ ∀ q ∈ ps, ¬ q.Starts

theorem openPkts_concat (pkts : List PktBuf) (p : PktBuf) :
    openPkts (pkts ++ [p]) = if p.eop then [] else openPkts pkts ++ [p] := by
  rw [openPkts, List.rtakeWhile_concat]
  cases p.eop <;> rfl

theorem length_openPkts_le (pkts : List PktBuf) : (openPkts pkts).length ≤ pkts.length :=
  (List.rtakeWhile_suffix _ pkts).length_le

/-- What is left of the packets without the open fragments is complete. -/
theorem openPkts_complete (pkts : List PktBuf) :
    openPkts (pkts.take (pkts.length - (openPkts pkts).length)) = [] := by
  induction pkts using List.reverseRecOn with
  | nil => rfl
  | append_singleton pkts p ih =>
    have hle := length_openPkts_le pkts
    rw [openPkts_concat]
    cases hp : p.eop with
    | true =>
      simp only [if_true, List.length_nil, Nat.sub_zero, List.take_length]
      rw [openPkts_concat, hp, if_pos rfl]
    | false =>
      rw [if_neg (by simp), List.length_append, List.length_append, List.length_singleton,
        Nat.add_sub_add_right, List.take_append_of_le_length (Nat.sub_le _ _)]
      exact ih

/-! ## The variables of `DmaSendPkt` -/

theorem sendVars_concat (h : Laid r) (pkts : List PktBuf) (p : PktBuf) (x : ℕ) (s : SendVars) :
    sendVars r (pkts ++ [p]) (bdAt r x) s =
      (sendVars r pkts (bdAt r x) s).pass (bdAt r (x + pkts.length)) p.flags := by
  induction pkts generalizing x s with
  | nil => rfl
  | cons q pkts ih =>
    rw [List.cons_append, sendVars, sendVars, h.next, ih, List.length_cons]
    congr 2
    omega

theorem SendVars.pass_count (s : SendVars) (cur : U32) (p : PktBuf) :
    (s.pass cur p.flags).partialBDcount = if p.eop then 0 else s.partialBDcount + 1 := by
  unfold SendVars.pass PktBuf.eop
  simp only [decide_eq_true_eq]
  split_ifs <;> rfl

theorem SendVars.pass_ptr (s : SendVars) (cur : U32) (p : PktBuf) :
    (s.pass cur p.flags).partialBDPtr = if p.Starts then cur else s.partialBDPtr := by
  unfold SendVars.pass PktBuf.Starts
  split_ifs <;> simp_all

/-- The count of `DmaSendPkt` is that of the open fragments, wherever its BDs are. -/
theorem sendVars_count (r : BdRing) (pkts : List PktBuf) (cur : U32) (s : SendVars)
    (hs : s.partialBDcount = 0) :
    (sendVars r pkts cur s).partialBDcount = (openPkts pkts).length := by
  have hconcat : ∀ (pkts : List PktBuf) (p : PktBuf) (cur : U32) (s : SendVars), ∃ cur',
      sendVars r (pkts ++ [p]) cur s = (sendVars r pkts cur s).pass cur' p.flags := by
    intro pkts p
    induction pkts with
    | nil => exact fun cur s => ⟨cur, rfl⟩
    | cons q qs ih => exact fun cur s => ih _ _
  induction pkts using List.reverseRecOn with
  | nil => exact hs
  | append_singleton pkts p ih =>
    obtain ⟨cur', heq⟩ := hconcat pkts p cur s
    rw [heq, SendVars.pass_count, openPkts_concat, ih]
    cases p.eop <;> simp

/-- The packet at index `j` is the last that starts one. -/
def StartsLast (pkts : List PktBuf) (j : ℕ) : Prop :=
  ∃ p ps, pkts.drop j = p :: ps ∧ p.Starts ∧ ∀ q ∈ ps, ¬ q.Starts

theorem StartsLast.lt {pkts : List PktBuf} {j : ℕ} (h : StartsLast pkts j) : j < pkts.length := by
  obtain ⟨p, ps, heq, -⟩ := h
  have hlen := congrArg List.length heq
  rw [List.length_drop, List.length_cons] at hlen
  omega

theorem StartsLast.not_lt {pkts : List PktBuf} {j k : ℕ} (hj : StartsLast pkts j)
    (hk : StartsLast pkts k) : ¬ j < k := by
  intro hlt
  obtain ⟨p, ps, hp, -, hnone⟩ := hj
  obtain ⟨q, qs, hq, hstarts, -⟩ := hk
  obtain ⟨d, rfl⟩ := Nat.exists_eq_add_of_lt hlt
  rw [Nat.add_assoc, ← List.drop_drop, hp, List.drop_succ_cons] at hq
  exact hnone q (List.mem_of_mem_drop (hq ▸ List.mem_cons_self)) hstarts

theorem openPkts_eq_drop (pkts : List PktBuf) :
    openPkts pkts = pkts.drop (pkts.length - (openPkts pkts).length) :=
  List.suffix_iff_eq_drop.1 (List.rtakeWhile_suffix _ pkts)

theorem anchored_iff {pkts : List PktBuf} : Anchored pkts ↔
    (openPkts pkts ≠ [] → StartsLast pkts (pkts.length - (openPkts pkts).length)) := by
  rw [StartsLast, ← openPkts_eq_drop]
  constructor
  · intro hanch hne
    obtain ⟨p, ps, heq⟩ := List.exists_cons_of_ne_nil hne
    exact ⟨p, ps, heq, hanch p ps heq⟩
  · intro hlast p ps heq
    obtain ⟨p', ps', heq', hstarts⟩ := hlast (by simp [heq])
    rw [heq] at heq'
    obtain ⟨rfl, rfl⟩ := List.cons.inj heq'
    exact hstarts

/-- `PartialBDPtr` after the loop of `DmaSendPkt`: the BD of the last packet that starts one, and
NULL if none does. -/
theorem sendVars_ptr (h : Laid r) (pkts : List PktBuf) (x : ℕ) :
    (∀ p ∈ pkts, ¬ p.Starts) ∧ (sendVars r pkts (bdAt r x)
        { partialBDcount := 0, partialOK := false, partialBDPtr := 0 }).partialBDPtr = 0 ∨
      ∃ j, StartsLast pkts j ∧ (sendVars r pkts (bdAt r x)
        { partialBDcount := 0, partialOK := false, partialBDPtr := 0 }).partialBDPtr =
          bdAt r (x + j) := by
  induction pkts using List.reverseRecOn with
  | nil => exact Or.inl ⟨fun p hp => absurd hp List.not_mem_nil, rfl⟩
  | append_singleton pkts p ih =>
    rw [sendVars_concat h, SendVars.pass_ptr]
    split_ifs with hp
    · refine Or.inr ⟨pkts.length, ⟨p, [], List.drop_left, hp, ?_⟩, rfl⟩
      exact fun q hq => absurd hq List.not_mem_nil
    · rcases ih with ⟨hnone, hptr⟩ | ⟨j, hlast, hptr⟩
      · refine Or.inl ⟨fun q hq => ?_, hptr⟩
        rcases List.mem_append.1 hq with hin | hend
        · exact hnone q hin
        · rwa [List.mem_singleton.1 hend]
      · refine Or.inr ⟨j, ?_, hptr⟩
        have hlt := hlast.lt
        obtain ⟨q, qs, hq, hstarts, hnone⟩ := hlast
        refine ⟨q, qs ++ [p], ?_, hstarts, fun q' hq' => ?_⟩
        · rw [List.drop_append_of_le_length hlt.le, hq, List.cons_append]
        · rcases List.mem_append.1 hq' with hin | hend
          · exact hnone q' hin
          · rwa [List.mem_singleton.1 hend]

/-- The variables of `DmaSendPkt` after its loop. -/
theorem sendVars_spec (h : Laid r) (pkts : List PktBuf) (x : ℕ) :
    (sendVars r pkts (bdAt r x)
      { partialBDcount := 0, partialOK := false, partialBDPtr := 0 }).partialBDcount =
        (openPkts pkts).length ∧
    (Anchored pkts → openPkts pkts ≠ [] → (sendVars r pkts (bdAt r x)
      { partialBDcount := 0, partialOK := false, partialBDPtr := 0 }).partialBDPtr =
        bdAt r (x + (pkts.length - (openPkts pkts).length))) := by
  refine ⟨sendVars_count r pkts _ _ rfl, fun hanch hne => ?_⟩
  have hopen := anchored_iff.1 hanch hne
  rcases sendVars_ptr h pkts x with ⟨hnone, -⟩ | ⟨j, hlast, hptr⟩
  · obtain ⟨p, ps, heq, hstarts, -⟩ := hopen
    exact absurd hstarts (hnone p (List.mem_of_mem_drop (heq ▸ List.mem_cons_self)))
  · rw [hptr, Nat.le_antisymm (not_lt.1 (hopen.not_lt hlast)) (not_lt.1 (hlast.not_lt hopen))]

/-! ## Complete packets -/

/-- Every packet is one of which all fragments must be sent, and each starts exactly where the one
before it has ended; the last may be cut short. -/
def Framed : Bool → List PktBuf → Prop
  | _, [] => True
  | atStart, p :: ps =>
    Flag p.flags pktAll ∧ (Flag p.flags bdSopMask ↔ atStart = true) ∧ Framed p.eop ps

instance : (atStart : Bool) → (pkts : List PktBuf) → Decidable (Framed atStart pkts)
  | _, [] => .isTrue trivial
  | _, p :: ps =>
    have := instDecidableFramed p.eop ps
    inferInstanceAs (Decidable (_ ∧ _ ∧ _))

/-- A sequence of complete packets. -/
def WholePkts (pkts : List PktBuf) : Prop := Framed true pkts ∧ openPkts pkts = []

instance (pkts : List PktBuf) : Decidable (WholePkts pkts) := by unfold WholePkts; infer_instance

/-- Whether something is open is settled by the last packet. -/
theorem openPkts_cons_eq_nil {q : PktBuf} {qs : List PktBuf} :
    openPkts (q :: qs) = [] ↔ if qs = [] then q.eop = true else openPkts qs = [] := by
  cases qs using List.reverseRecOn with
  | nil =>
    have h := openPkts_concat [] q
    rw [List.nil_append] at h
    rw [h]
    cases q.eop <;> simp [openPkts]
  | append_singleton qs' q' =>
    rw [if_neg (by simp), openPkts_concat, ← List.cons_append, openPkts_concat]
    cases q'.eop <;> simp

theorem framed_concat (pkts : List PktBuf) (p : PktBuf) (atStart : Bool) :
    Framed atStart (pkts ++ [p]) ↔ Framed atStart pkts ∧ Flag p.flags pktAll ∧
      (Flag p.flags bdSopMask ↔ (if pkts = [] then atStart = true else openPkts pkts = [])) := by
  induction pkts generalizing atStart with
  | nil => simp [Framed]
  | cons q qs ih =>
    rw [List.cons_append, Framed, Framed, ih, ← openPkts_cons_eq_nil, if_neg (by simp)]
    tauto

theorem Framed.take {pkts : List PktBuf} {atStart : Bool} (h : Framed atStart pkts) (k : ℕ) :
    Framed atStart (pkts.take k) := by
  induction pkts generalizing atStart k with
  | nil => rw [List.take_nil]; trivial
  | cons p ps ih =>
    cases k with
    | zero => trivial
    | succ k => exact ⟨h.1, h.2.1, ih h.2.2 k⟩

theorem Framed.append {pkts pkts' : List PktBuf} {atStart : Bool} (h : Framed atStart pkts)
    (hend : if pkts = [] then atStart = true else openPkts pkts = []) (h' : Framed true pkts') :
    Framed atStart (pkts ++ pkts') := by
  induction pkts generalizing atStart with
  | nil =>
    rw [if_pos rfl] at hend
    rwa [hend, List.nil_append]
  | cons q qs ih =>
    rw [if_neg (by simp)] at hend
    exact ⟨h.1, h.2.1, ih h.2.2 (openPkts_cons_eq_nil.1 hend)⟩

theorem WholePkts.append {pkts pkts' : List PktBuf} (h : WholePkts pkts) (h' : WholePkts pkts') :
    WholePkts (pkts ++ pkts') := by
  refine ⟨h.1.append ?_ h'.1, ?_⟩
  · split_ifs
    · rfl
    · exact h.2
  · cases pkts' using List.reverseRecOn with
    | nil => rw [List.append_nil, h.2]
    | append_singleton ps p =>
      have hopen := h'.2
      rw [openPkts_concat] at hopen
      rw [← List.append_assoc, openPkts_concat]
      cases hp : p.eop with
      | true => rfl
      | false => simp [hp] at hopen

/-- Framed packets are anchored, however they are cut. -/
theorem Framed.anchored {pkts : List PktBuf} (h : Framed true pkts) : Anchored pkts := by
  induction pkts using List.reverseRecOn with
  | nil =>
    intro p ps heq
    cases heq
  | append_singleton pkts p ih =>
    obtain ⟨hpkts, hall, hsop⟩ := (framed_concat pkts p true).1 h
    have hstart : Flag p.flags bdSopMask ↔ openPkts pkts = [] := by
      rw [hsop]
      split_ifs with hnil
      · simp [hnil, openPkts]
      · rfl
    intro q qs heq
    rw [openPkts_concat] at heq
    cases hp : p.eop with
    | true =>
      rw [hp, if_pos rfl] at heq
      cases heq
    | false =>
      rw [hp, if_neg (by simp)] at heq
      cases hopen : openPkts pkts with
      | nil =>
        rw [hopen] at heq
        obtain ⟨rfl, rfl⟩ := List.cons.inj heq
        exact ⟨⟨hstart.2 hopen, hall⟩, by simp⟩
      | cons q' qs' =>
        rw [hopen] at heq
        obtain ⟨rfl, rfl⟩ := List.cons.inj heq
        obtain ⟨hq, hqs⟩ := ih hpkts q' qs' hopen
        refine ⟨hq, fun q'' hq'' => ?_⟩
        rcases List.mem_append.1 hq'' with hin | hlast
        · exact hqs q'' hin
        · rw [List.mem_singleton.1 hlast]
          intro hs
          rw [hstart.1 hs.1] at hopen
          cases hopen

/-! ## Packet ends -/

/-- The fragments of one packet, all of which must be sent: the first starts it and the last ends
it. -/
def CompletePkt (frags : List PktBuf) : Prop :=
  frags ≠ [] ∧ ∀ i, (hi : i < frags.length) → Flag frags[i].flags pktAll ∧
    (Flag frags[i].flags bdSopMask ↔ i = 0) ∧ (Flag frags[i].flags bdEopMask ↔ i + 1 = frags.length)

instance (frags : List PktBuf) : Decidable (CompletePkt frags) := by
  unfold CompletePkt; infer_instance

/-- The numbers at which a packet of `packets` ends, and 0. -/
def PacketEnd (packets : List (List PktBuf)) (k : ℕ) : Prop :=
  ∃ j, k = (packets.take j).flatten.length

theorem framed_of_frags {frags : List PktBuf} {atStart : Bool}
    (h : ∀ i, (hi : i < frags.length) → Flag frags[i].flags pktAll ∧
      (Flag frags[i].flags bdSopMask ↔ i = 0 ∧ atStart = true) ∧
      (Flag frags[i].flags bdEopMask ↔ i + 1 = frags.length)) : Framed atStart frags := by
  induction frags generalizing atStart with
  | nil => trivial
  | cons p ps ih =>
    obtain ⟨hall, hsop, heop⟩ := h 0 (Nat.succ_pos _)
    refine ⟨hall, ?_, ih fun i hi => ?_⟩
    · rw [List.getElem_cons_zero] at hsop
      rw [hsop]
      exact and_iff_right rfl
    · obtain ⟨hall', hsop', heop'⟩ := h (i + 1) (Nat.succ_lt_succ hi)
      rw [List.getElem_cons_succ] at hall' hsop' heop'
      have hmore : ¬ p.eop = true := by
        rw [PktBuf.eop, decide_eq_true_eq]
        rw [List.getElem_cons_zero, List.length_cons] at heop
        intro hend
        have := heop.1 hend
        omega
      refine ⟨hall', ?_, ?_⟩
      · rw [hsop']
        exact ⟨fun hzero => absurd hzero.1 (Nat.succ_ne_zero i), fun hp => absurd hp.2 hmore⟩
      · rw [heop', List.length_cons]
        exact Nat.succ_inj

theorem openPkts_append_eq_nil {pkts pkts' : List PktBuf} (hne : pkts' ≠ []) :
    openPkts (pkts ++ pkts') = [] ↔ openPkts pkts' = [] := by
  cases pkts' using List.reverseRecOn with
  | nil => exact absurd rfl hne
  | append_singleton ps p =>
    rw [← List.append_assoc, openPkts_concat, openPkts_concat]
    cases p.eop <;> simp

theorem CompletePkt.whole {frags : List PktBuf} (h : CompletePkt frags) : WholePkts frags := by
  obtain ⟨hne, hfrags⟩ := h
  refine ⟨framed_of_frags fun i hi => ?_, ?_⟩
  · obtain ⟨hall, hsop, heop⟩ := hfrags i hi
    exact ⟨hall, by rw [hsop]; exact (and_iff_left rfl).symm, heop⟩
  · have hpos := List.length_pos_iff.2 hne
    have hlast := (hfrags (frags.length - 1) (by omega)).2.2.2 (by omega)
    have heop : (frags.getLast hne).eop = true := by
      rw [PktBuf.eop, decide_eq_true_eq, List.getLast_eq_getElem]
      exact hlast
    rw [← List.dropLast_append_getLast hne, openPkts_concat, if_pos heop]

/-- Inside a packet something is open. -/
theorem CompletePkt.openPkts_take {frags : List PktBuf} (h : CompletePkt frags) {k : ℕ}
    (hpos : 0 < k) (hk : k < frags.length) : openPkts (frags.take k) ≠ [] := by
  obtain ⟨k, rfl⟩ := Nat.exists_eq_add_of_lt hpos
  rw [Nat.zero_add] at hk ⊢
  have hlt : k < frags.length := by omega
  have heop : ¬ frags[k].eop = true := by
    rw [PktBuf.eop, decide_eq_true_eq, (h.2 k hlt).2.2]
    exact hk.ne
  rw [List.take_succ_eq_append_getElem hlt, openPkts_concat, if_neg heop]
  simp

theorem wholePkts_flatten {packets : List (List PktBuf)}
    (h : ∀ frags ∈ packets, CompletePkt frags) :
    WholePkts packets.flatten := by
  induction packets with
  | nil => exact ⟨trivial, rfl⟩
  | cons frags packets ih =>
    rw [List.flatten_cons]
    exact (h frags List.mem_cons_self).whole.append
      (ih fun frags' hin => h frags' (List.mem_cons_of_mem _ hin))

/-- **A packet ends where nothing is open.** -/
theorem packetEnd_iff {packets : List (List PktBuf)}
    (h : ∀ frags ∈ packets, CompletePkt frags) {k : ℕ} (hk : k ≤ packets.flatten.length) :
    PacketEnd packets k ↔ openPkts (packets.flatten.take k) = [] := by
  constructor
  · rintro ⟨j, rfl⟩
    have hsplit : packets.flatten = (packets.take j).flatten ++ (packets.drop j).flatten := by
      rw [← List.flatten_append, List.take_append_drop]
    rw [hsplit, List.take_left' rfl]
    exact (wholePkts_flatten fun frags hin => h frags (List.mem_of_mem_take hin)).2
  · induction packets generalizing k with
    | nil =>
      intro _
      exact ⟨0, Nat.le_zero.1 hk⟩
    | cons frags packets ih =>
      intro hopen
      have hfrags := h frags List.mem_cons_self
      rw [List.flatten_cons] at hk hopen
      rcases Nat.lt_or_ge k frags.length with hlt | hge
      · rcases Nat.eq_zero_or_pos k with rfl | hpos
        · exact ⟨0, rfl⟩
        · rw [List.take_append_of_le_length hlt.le] at hopen
          exact absurd hopen (hfrags.openPkts_take hpos hlt)
      · obtain ⟨d, rfl⟩ := Nat.exists_eq_add_of_le hge
        rw [List.length_append] at hk
        rw [List.take_length_add_append] at hopen
        have hrest : openPkts (packets.flatten.take d) = [] := by
          by_cases hnil : packets.flatten.take d = []
          · rw [hnil]
            rfl
          · exact (openPkts_append_eq_nil hnil).1 hopen
        obtain ⟨j, hj⟩ :=
          ih (fun frags' hin => h frags' (List.mem_cons_of_mem _ hin)) (by omega) hrest
        refine ⟨j + 1, ?_⟩
        rw [List.take_succ_cons, List.flatten_cons, List.length_append, ← hj]

/-- Without the open fragments the packets are as long as they can be with nothing open. -/
theorem isGreatest_complete (pkts : List PktBuf) :
    IsGreatest {k | k ≤ pkts.length ∧ openPkts (pkts.take k) = []}
      (pkts.length - (openPkts pkts).length) := by
  refine ⟨⟨Nat.sub_le _ _, openPkts_complete pkts⟩, ?_⟩
  rintro k ⟨hk, hopen⟩
  induction pkts using List.reverseRecOn with
  | nil => exact hk
  | append_singleton pkts p ih =>
    rw [List.length_append, List.length_singleton] at hk ⊢
    rw [openPkts_concat]
    split_ifs with hp
    · exact hk
    · rw [List.length_append, List.length_singleton, Nat.add_sub_add_right]
      rcases Nat.lt_or_ge pkts.length k with hlt | hge
      · rw [List.take_of_length_le (by simp; omega), openPkts_concat, if_neg hp] at hopen
        simp at hopen
      · rw [List.take_append_of_le_length hge] at hopen
        exact ih hge hopen

/-- … and these are the packet ends for which there is room. -/
theorem isGreatest_packetEnd {packets : List (List PktBuf)}
    (h : ∀ frags ∈ packets, CompletePkt frags) {m : ℕ} {l : List PktBuf}
    (hl : l = packets.flatten.take m) :
    IsGreatest {k | k ≤ min packets.flatten.length m ∧ PacketEnd packets k}
      (l.length - (openPkts l).length) := by
  have hmax := isGreatest_complete l
  have hset : {k | k ≤ min packets.flatten.length m ∧ PacketEnd packets k} =
      {k | k ≤ l.length ∧ openPkts (l.take k) = []} := by
    ext k
    rw [Set.mem_ofPred_eq, Set.mem_ofPred_eq, hl, List.length_take, min_comm]
    refine and_congr_right fun hk => ?_
    rw [packetEnd_iff h (by omega), List.take_take, Nat.min_eq_left (by omega)]
  rwa [hset]

end Dma
