import MyDriver.Xdma.Interrupt

/-!
# One call of `IntrCheck`

The two loops of `IntrCheck`, undisturbed, as a function of the registers: `REG_DMA_CTRL_STATUS`
tells which engines have raised an interrupt, the comments say that the engines 0 to 7 and 32 to 39
are checked, and the loops stop before the last engine of each kind.

* `checkLoop_swept` — what a loop does to the engines it passes.
* `intrCheck_serves_iff` — **every engine with an interrupt is served** exactly when neither the
  engine 7 nor the engine 39 has one.
* `irq_intrCheck` — the function is what the steps of `intStep` do when the engines stand still.
-/

namespace Dma

open Runs

/-! ## The function -/

/-- What the loops work on; `found` says that `retval` is `XST_SUCCESS`. -/
structure Checking where
  regs : ℕ → Regs
  pendingMask : BitVec 64
  found : Bool

/-- The pass for the engine `i`, which is selected by `imask`. -/
def checkEngine (engineMask : BitVec 64) (ack : Regs → U32 → Regs) (i : ℕ) (s : Checking) :
    Checking :=
  if engineMask.getLsbD i = false then s
  else
    let dirqval := getCrSr (s.regs i)
    if Flag dirqval engIntActiveMask ∧ Flag dirqval engIntEnableBit then
      { regs := Function.update s.regs i (ack (s.regs i) dirqval)
        pendingMask :=
          if Flag dirqval engIntBdcomp then s.pendingMask ||| BitVec.twoPow 64 i else s.pendingMask
        found := true }
    else s

/-- The passes for `left` engines from `first + k` on. -/
def checkLoop (engineMask : BitVec 64) (ack : Regs → U32 → Regs) (imask : U32) (first : ℕ) :
    ℕ → ℕ → Checking → Checking
  | 0, _, s => s
  | left + 1, k, s =>
    if imask = 0 then s
    else if Flag imask (BitVec.twoPow 32 k) then
      checkLoop engineMask ack imask first left (k + 1) (checkEngine engineMask ack (first + k) s)
    else checkLoop engineMask ack imask first left (k + 1) s

/-- The accesses to the register of an S2C engine. -/
def ackS2c (g : Regs) (dirqval : U32) : Regs := setCrSr g (acks dirqval)

/-- The accesses to the register of a C2S engine. -/
def ackC2s (g : Regs) (dirqval : U32) : Regs :=
  let g := engIntAck g (acks dirqval)
  if Flag dirqval engIntBdcomp then engIntDisable g else g

/-- What `IntrCheck` returns and leaves. -/
structure Checked where
  retval : XStatus
  regs : ℕ → Regs
  pendingMask : BitVec 64
  /-- The tasklet is to run. -/
  scheduled : Bool

def intrCheck (engineMask : BitVec 64) (girqval : U32) (regs : ℕ → Regs) (pendingMask : BitVec 64)
    (scheduled : Bool) : Checked :=
  let s := checkLoop engineMask ackS2c ((girqval &&& s2cEngIntVal) >>> 16) 0 7 0
    { regs := regs, pendingMask := pendingMask, found := false }
  let s := checkLoop engineMask ackC2s ((girqval &&& c2sEngIntVal) >>> 24) 32 7 0 s
  { retval := if s.found then .success else .failure
    regs := s.regs
    pendingMask := s.pendingMask
    scheduled := scheduled || (decide (s.pendingMask ≠ 0) && s.found) }

/-! ## What a loop does -/

section Loop

variable {engineMask : BitVec 64} {ack : Regs → U32 → Regs} {imask : U32} {first : ℕ}
  {s s' : Checking}

/-- The engine has an interrupt that a loop from `first` on acts upon when it comes to it. -/
def Selected (engineMask : BitVec 64) (imask : U32) (first : ℕ) (regs : ℕ → Regs) (i : ℕ) : Prop :=
  imask.getLsbD (i - first) = true ∧ engineMask.getLsbD i = true ∧
    Flag (getCrSr (regs i)) engIntActiveMask ∧ Flag (getCrSr (regs i)) engIntEnableBit

instance (regs : ℕ → Regs) (i : ℕ) : Decidable (Selected engineMask imask first regs i) := by
  unfold Selected; infer_instance

/-- The engines that satisfy `asks` are served, and no other. -/
structure Swept (asks : ℕ → Prop) (s s' : Checking) : Prop where
  acknowledged : ∀ i, asks i → getCrSr (s'.regs i) &&& engAllintMask = 0
  others : ∀ i, ¬ asks i → s'.regs i = s.regs i
  pending : ∀ i < 64, s'.pendingMask.getLsbD i = true ↔
    s.pendingMask.getLsbD i = true ∨ asks i ∧ Flag (getCrSr (s.regs i)) engIntBdcomp
  found : s'.found = true ↔ s.found = true ∨ ∃ i, asks i

theorem Swept.none {asks : ℕ → Prop} (h : ∀ i, ¬ asks i) : Swept asks s s where
  acknowledged i hi := absurd hi (h i)
  others _ _ := rfl
  pending i _ := ⟨Or.inl, fun hp => hp.elim id fun hi => absurd hi.1 (h i)⟩
  found := ⟨Or.inl, fun hf => hf.elim id fun ⟨i, hi⟩ => absurd hi (h i)⟩

theorem Swept.congr {p q : ℕ → Prop} (hpq : ∀ i, p i ↔ q i) (h : Swept p s s') : Swept q s s' := by
  have heq : p = q := funext fun i => propext (hpq i)
  exact heq ▸ h

/-- One sweep after another, over other engines. -/
theorem Swept.trans {s'' : Checking} {p q : ℕ → Prop} (hpq : ∀ i, p i → ¬ q i) (h : Swept p s s')
    (h' : Swept q s' s'') : Swept (fun i => p i ∨ q i) s s'' where
  acknowledged i hi := by
    by_cases hq : q i
    · exact h'.acknowledged i hq
    · rw [h'.others i hq]
      exact h.acknowledged i (hi.resolve_right hq)
  others i hi := by
    rw [not_or] at hi
    rw [h'.others i hi.2, h.others i hi.1]
  pending i hi := by
    rw [h'.pending i hi, h.pending i hi, or_assoc, or_and_right]
    refine or_congr_right (or_congr_right (and_congr_right fun hq => ?_))
    rw [h.others i fun hp => hpq i hp hq]
  found := by rw [h'.found, h.found, or_assoc, exists_or]

variable (engineMask first s) in
/-- One pass. -/
theorem checkEngine_swept (hack : ∀ g, getCrSr (ack g (getCrSr g)) &&& engAllintMask = 0) {k : ℕ}
    (hbit : imask.getLsbD k = true) :
    Swept (fun i => i = first + k ∧ Selected engineMask imask first s.regs i) s
      (checkEngine engineMask ack (first + k) s) := by
  have hsub : first + k - first = k := Nat.add_sub_cancel_left first k
  unfold checkEngine
  by_cases hmask : engineMask.getLsbD (first + k) = false
  · rw [if_pos hmask]
    refine Swept.none fun i hsel => ?_
    obtain ⟨rfl, -, hset, -⟩ := hsel
    exact Bool.false_ne_true (hmask.symm.trans hset)
  rw [if_neg hmask]
  dsimp only
  by_cases hirq : Flag (getCrSr (s.regs (first + k))) engIntActiveMask ∧
      Flag (getCrSr (s.regs (first + k))) engIntEnableBit
  · have hsel : Selected engineMask imask first s.regs (first + k) := by
      refine ⟨?_, eq_true_of_ne_false hmask, hirq⟩
      rw [hsub]
      exact hbit
    rw [if_pos hirq]
    refine ⟨?_, fun i hi => ?_, fun i hi => ?_, iff_of_true rfl (Or.inr ⟨_, rfl, hsel⟩)⟩
    · rintro i ⟨rfl, -⟩
      dsimp only
      rw [Function.update_self]
      exact hack _
    · exact Function.update_of_ne (fun heq => hi ⟨heq, heq ▸ hsel⟩) _ _
    · dsimp only
      by_cases heq : i = first + k
      · subst heq
        split_ifs with hcomp
        · have hset :
              (s.pendingMask ||| BitVec.twoPow 64 (first + k)).getLsbD (first + k) = true := by
            simp [hi]
          exact iff_of_true hset (Or.inr ⟨⟨rfl, hsel⟩, hcomp⟩)
        · exact ⟨Or.inl, fun hp => hp.elim id fun h => absurd h.2 hcomp⟩
      · have hset : (if Flag (getCrSr (s.regs (first + k))) engIntBdcomp then
            s.pendingMask ||| BitVec.twoPow 64 (first + k) else s.pendingMask).getLsbD i =
            s.pendingMask.getLsbD i := by
          split_ifs
          · exact getLsbD_set s.pendingMask heq
          · rfl
        rw [hset]
        exact ⟨Or.inl, fun hp => hp.elim id fun h => absurd h.1.1 heq⟩
  · rw [if_neg hirq]
    refine Swept.none fun i hsel => ?_
    obtain ⟨rfl, -, -, hset⟩ := hsel
    exact hirq hset

/-- The `break` leaves out passes that would do nothing. -/
theorem checkLoop_succ (left k : ℕ) (s : Checking) :
    checkLoop engineMask ack imask first (left + 1) k s =
      checkLoop engineMask ack imask first left (k + 1)
        (if Flag imask (BitVec.twoPow 32 k) then checkEngine engineMask ack (first + k) s
         else s) := by
  rw [checkLoop]
  by_cases hzero : imask = 0
  · have hbit : ¬ Flag (0 : U32) (BitVec.twoPow 32 k) := not_not.2 BitVec.zero_and
    rw [if_pos hzero, hzero, if_neg hbit]
    cases left with
    | zero => rfl
    | succ left => rw [checkLoop, if_pos rfl]
  · rw [if_neg hzero]
    split_ifs <;> rfl

variable (engineMask imask first) in
/-- **A loop**, over the engines it passes. -/
theorem checkLoop_swept (hack : ∀ g, getCrSr (ack g (getCrSr g)) &&& engAllintMask = 0)
    (left k : ℕ) (hk : k + left ≤ 32) (s : Checking) :
    Swept (fun i => (first + k ≤ i ∧ i < first + k + left) ∧
      Selected engineMask imask first s.regs i) s
      (checkLoop engineMask ack imask first left k s) := by
  induction left generalizing k s with
  | zero => exact Swept.none fun i hi => absurd hi.1.2 (by omega)
  | succ left ih =>
    rw [checkLoop_succ]
    by_cases hbit : Flag imask (BitVec.twoPow 32 k)
    · rw [if_pos hbit]
      have hfirst := checkEngine_swept engineMask first s hack
        ((flag_twoPow (by omega)).1 hbit)
      set s₁ := checkEngine engineMask ack (first + k) s
      have hsame : ∀ i, first + (k + 1) ≤ i → s₁.regs i = s.regs i := fun i hi =>
        hfirst.others i fun hp => absurd hp.1 (by omega)
      refine (hfirst.trans (fun i hp hq => ?_) (ih (k + 1) (by omega) s₁)).congr fun i => ?_
      · have heq := hp.1
        have hle := hq.1.1
        omega
      · by_cases hi : i = first + k
        · have hin : first + k ≤ i ∧ i < first + k + (left + 1) := by omega
          rw [and_iff_right hi, and_iff_right hin]
          exact ⟨fun h => h.elim id fun h => absurd h.1.1 (by omega), Or.inl⟩
        · rw [or_iff_right fun h : i = first + k ∧ _ => hi h.1]
          constructor
          · rintro ⟨hin, hsel⟩
            rw [Selected, hsame i hin.1] at hsel
            exact ⟨by omega, hsel⟩
          · rintro ⟨hin, hsel⟩
            rw [Selected, hsame i (by omega)]
            exact ⟨by omega, hsel⟩
    · rw [if_neg hbit]
      refine (ih (k + 1) (by omega) s).congr fun i => ?_
      by_cases hi : i = first + k
      · refine iff_of_false (fun h => absurd h.1.1 (by omega)) fun h => ?_
        have hsel := h.2.1
        rw [hi, Nat.add_sub_cancel_left] at hsel
        exact hbit ((flag_twoPow (by omega)).2 hsel)
      · refine and_congr_left fun _ => ?_
        omega

end Loop

/-! ## Who is served -/

variable {engineMask : BitVec 64} {girqval : U32} {regs : ℕ → Regs} {pendingMask : BitVec 64}
  {scheduled : Bool}

/-- The engine `e`, of the first eight of either direction, has an interrupt: its bit is set in the
global status and in `engineMask`, and its interrupt is active and enabled. -/
def Interrupting (engineMask : BitVec 64) (girqval : U32) (regs : ℕ → Regs) (e : ℕ) : Prop :=
  (e < 8 ∧ girqval.getLsbD (16 + e) = true ∨
    32 ≤ e ∧ e < 40 ∧ girqval.getLsbD (24 + (e - 32)) = true) ∧
  engineMask.getLsbD e = true ∧
  Flag (getCrSr (regs e)) engIntActiveMask ∧ Flag (getCrSr (regs e)) engIntEnableBit

instance (e : ℕ) : Decidable (Interrupting engineMask girqval regs e) := by
  unfold Interrupting; infer_instance

/-- What is promised of a call of `IntrCheck` when the engines with an interrupt are those that
satisfy `asks`: their events are acknowledged, their `PendingMask` bits are set if a BD is
completed, and that is all. -/
structure Serves (asks : ℕ → Prop) (regs : ℕ → Regs) (pendingMask : BitVec 64) (scheduled : Bool)
    (r : Checked) : Prop where
  acknowledged : ∀ e, asks e → getCrSr (r.regs e) &&& engAllintMask = 0
  others : ∀ e, ¬ asks e → r.regs e = regs e
  pending : ∀ e < 64, r.pendingMask.getLsbD e = true ↔
    pendingMask.getLsbD e = true ∨ asks e ∧ Flag (getCrSr (regs e)) engIntBdcomp
  success : r.retval = .success ↔ ∃ e, asks e
  failure : r.retval ≠ .success → r.retval = .failure
  tasklet : r.scheduled = true ↔ scheduled = true ∨ r.pendingMask ≠ 0 ∧ ∃ e, asks e

theorem crSrAfter_allint {old data : U32} (h : old &&& engAllintMask &&& ~~~data = 0) :
    crSrAfter old data &&& engAllintMask = 0 := by
  have hctrl : engControlMask &&& engAllintMask = 0#32 := by decide
  have hstate : engStateMask &&& engAllintMask = 0#32 := by decide
  have hack : engAckMask &&& engAllintMask = engAllintMask := by decide
  have hevents : old &&& engAckMask &&& ~~~data &&& engAllintMask =
      old &&& engAllintMask &&& ~~~data := by
    rw [BitVec.and_assoc, BitVec.and_comm (~~~data), ← BitVec.and_assoc, Words.and_and_of_sub hack]
  rw [crSrAfter, BitVec.and_or_distrib_right, BitVec.and_or_distrib_right,
    Words.and_and_of_disjoint hctrl, Words.and_and_of_disjoint hstate, hevents, h]
  rfl

theorem ackS2c_allint (g : Regs) : getCrSr (ackS2c g (getCrSr g)) &&& engAllintMask = 0 := by
  refine crSrAfter_allint ?_
  show g.ctrlStatus &&& engAllintMask &&& ~~~acks g.ctrlStatus = 0
  rw [acks_eq]
  refine BitVec.eq_of_getLsbD_eq fun i hi => ?_
  simp only [BitVec.getLsbD_and, BitVec.getLsbD_not, BitVec.getLsbD_or, hi, decide_true,
    Bool.true_and]
  cases g.ctrlStatus.getLsbD i <;> cases engAllintMask.getLsbD i <;> simp

theorem ackC2s_allint (g : Regs) : getCrSr (ackC2s g (getCrSr g)) &&& engAllintMask = 0 := by
  have hack : getCrSr (engIntAck g (acks (getCrSr g))) &&& engAllintMask = 0 := by
    refine crSrAfter_allint ?_
    refine BitVec.eq_of_getLsbD_eq fun i hi => ?_
    show (g.ctrlStatus &&& engAllintMask &&& ~~~(g.ctrlStatus ||| _)).getLsbD i = _
    simp only [BitVec.getLsbD_and, BitVec.getLsbD_not, BitVec.getLsbD_or, hi, decide_true,
      Bool.true_and]
    cases g.ctrlStatus.getLsbD i <;> simp
  rw [ackC2s]
  split_ifs
  · refine crSrAfter_allint ?_
    show getCrSr (engIntAck g (acks (getCrSr g))) &&& engAllintMask &&& _ = 0
    rw [hack]
    exact BitVec.zero_and
  · exact hack

/-- A bit of a field of the global status. -/
theorem imask_bit {mask : U32} {shift i : ℕ} (hmask : mask.getLsbD (shift + i) = true) :
    ((girqval &&& mask) >>> shift).getLsbD i = girqval.getLsbD (shift + i) := by
  rw [BitVec.getLsbD_ushiftRight, BitVec.getLsbD_and, hmask, Bool.and_true]

theorem imask_s2c {i : ℕ} (hi : i < 8) :
    ((girqval &&& s2cEngIntVal) >>> 16).getLsbD i = girqval.getLsbD (16 + i) := by
  apply imask_bit
  interval_cases i <;> decide

theorem imask_c2s {i : ℕ} (hi : i < 8) :
    ((girqval &&& c2sEngIntVal) >>> 24).getLsbD i = girqval.getLsbD (24 + i) := by
  apply imask_bit
  interval_cases i <;> decide

/-- The engines with an interrupt that the two loops come to. -/
theorem reached_iff (e : ℕ) :
    Interrupting engineMask girqval regs e ∧ e ≠ 7 ∧ e ≠ 39 ↔
      (e < 7 ∧ Selected engineMask ((girqval &&& s2cEngIntVal) >>> 16) 0 regs e) ∨
      (32 ≤ e ∧ e < 39) ∧ Selected engineMask ((girqval &&& c2sEngIntVal) >>> 24) 32 regs e := by
  unfold Interrupting Selected
  rw [Nat.sub_zero]
  constructor
  · rintro ⟨⟨⟨hlt, hbit⟩ | ⟨hge, hlt, hbit⟩, hrest⟩, hseven, hlast⟩
    · exact Or.inl ⟨by omega, by rw [imask_s2c hlt]; exact hbit, hrest⟩
    · exact Or.inr ⟨⟨hge, by omega⟩, by rw [imask_c2s (by omega)]; exact hbit, hrest⟩
  · rintro (⟨hlt, hbit, hrest⟩ | ⟨⟨hge, hlt⟩, hbit, hrest⟩)
    · rw [imask_s2c (by omega)] at hbit
      exact ⟨⟨Or.inl ⟨by omega, hbit⟩, hrest⟩, by omega, by omega⟩
    · rw [imask_c2s (by omega)] at hbit
      exact ⟨⟨Or.inr ⟨hge, by omega, hbit⟩, hrest⟩, by omega, by omega⟩

/-- **What a call does**: it serves the engines 0 to 6 and 32 to 38. -/
theorem intrCheck_serves (engineMask : BitVec 64) (girqval : U32) (regs : ℕ → Regs)
    (pendingMask : BitVec 64) (scheduled : Bool) :
    Serves (fun e => Interrupting engineMask girqval regs e ∧ e ≠ 7 ∧ e ≠ 39) regs pendingMask
      scheduled (intrCheck engineMask girqval regs pendingMask scheduled) := by
  have hs2c := checkLoop_swept engineMask ((girqval &&& s2cEngIntVal) >>> 16) 0 ackS2c_allint 7 0
    (by decide) { regs := regs, pendingMask := pendingMask, found := false }
  rw [intrCheck]
  set s₁ := checkLoop engineMask ackS2c ((girqval &&& s2cEngIntVal) >>> 16) 0 7 0
    { regs := regs, pendingMask := pendingMask, found := false }
  have hc2s := checkLoop_swept engineMask ((girqval &&& c2sEngIntVal) >>> 24) 32 ackC2s_allint 7 0
    (by decide) s₁
  set s₂ := checkLoop engineMask ackC2s ((girqval &&& c2sEngIntVal) >>> 24) 32 7 0 s₁
  have hboth := (hs2c.trans (fun i hp hq => ?_) hc2s).congr (q := fun e =>
    Interrupting engineMask girqval regs e ∧ e ≠ 7 ∧ e ≠ 39) fun e => ?_
  · have hfound : s₂.found = true ↔ ∃ e, Interrupting engineMask girqval regs e ∧ e ≠ 7 ∧ e ≠ 39 :=
      hboth.found.trans (or_iff_right Bool.false_ne_true)
    refine ⟨hboth.acknowledged, hboth.others, hboth.pending, ?_, ?_, ?_⟩
    · rw [← hfound]
      dsimp only
      cases s₂.found <;> simp
    · dsimp only
      cases s₂.found <;> simp
    · rw [← hfound]
      simp
  · have hlt := hp.1.2
    have hge := hq.1.1
    omega
  · rw [reached_iff]
    refine or_congr (and_congr_left fun _ => by omega) ?_
    constructor
    · rintro ⟨hin, hsel⟩
      rw [Selected, hs2c.others e fun hp => absurd hp.1.2 (by omega)] at hsel
      exact ⟨by omega, hsel⟩
    · rintro ⟨hin, hsel⟩
      rw [Selected, hs2c.others e fun hp => absurd hp.1.2 (by omega)]
      exact ⟨by omega, hsel⟩

/-- **Every engine with an interrupt is served** exactly when the last engine of either kind has
none. -/
theorem intrCheck_serves_iff (engineMask : BitVec 64) (girqval : U32) (regs : ℕ → Regs)
    (pendingMask : BitVec 64) (scheduled : Bool) :
    Serves (Interrupting engineMask girqval regs) regs pendingMask scheduled
        (intrCheck engineMask girqval regs pendingMask scheduled) ↔
      ¬ Interrupting engineMask girqval regs 7 ∧ ¬ Interrupting engineMask girqval regs 39 := by
  have hdone := intrCheck_serves engineMask girqval regs pendingMask scheduled
  constructor
  · intro hserves
    -- An engine that is passed over keeps its active interrupt.
    have hmissed : ∀ e, e = 7 ∨ e = 39 → ¬ Interrupting engineMask girqval regs e := by
      intro e he hirq
      have hack := hserves.acknowledged e hirq
      rw [hdone.others e fun h => by omega] at hack
      refine hirq.2.2.1 ?_
      have hsub : engAllintMask &&& engIntActiveMask = engIntActiveMask := by decide
      rw [← hsub, ← BitVec.and_assoc, hack]
      exact BitVec.zero_and
    exact ⟨hmissed 7 (Or.inl rfl), hmissed 39 (Or.inr rfl)⟩
  · rintro ⟨hseven, hlast⟩
    have heq : (fun e => Interrupting engineMask girqval regs e ∧ e ≠ 7 ∧ e ≠ 39) =
        Interrupting engineMask girqval regs := by
      funext e
      refine propext ⟨And.left, fun hirq => ⟨hirq, ?_, ?_⟩⟩
      · rintro rfl
        exact hseven hirq
      · rintro rfl
        exact hlast hirq
    rwa [heq] at hdone

/-- **The engine 7** has a completed BD and its interrupt is active and enabled, but it is not
served, and the call returns `XST_FAILURE`. -/
theorem misses_seven :
    Interrupting 0x80 0x00800000 (fun _ => ⟨0x107, 0, 0⟩) 7 ∧
    (intrCheck 0x80 0x00800000 (fun _ => ⟨0x107, 0, 0⟩) 0 false).retval = .failure ∧
    ¬ Serves (Interrupting 0x80 0x00800000 fun _ => ⟨0x107, 0, 0⟩) (fun _ => ⟨0x107, 0, 0⟩) 0 false
      (intrCheck 0x80 0x00800000 (fun _ => ⟨0x107, 0, 0⟩) 0 false) := by
  have hseven : Interrupting 0x80 0x00800000 (fun _ => ⟨0x107, 0, 0⟩) 7 := by decide
  refine ⟨hseven, by decide, fun hserves => ?_⟩
  exact absurd (hserves.success.2 ⟨7, hseven⟩) (by decide)

/-! ## The steps of the system -/

section Steps

variable {υ : Type} {env : IntEnv υ} {s : IntSys υ}

/-- `IntrCheck` has come to the engine `i`, and what it has done so far is `c`. -/
structure CheckAt (girqval : U32) (i : ℕ) (c : Checking) (s : IntSys υ) : Prop where
  check : s.check = .loop girqval i c.found
  regs : (fun k => (s.dev k).chan.regs) = c.regs
  pendingMask : s.pendingMask = c.pendingMask

theorem regs_setChan (k : ℕ) (c : Chan) :
    (fun j => ((s.setChan k c).dev j).chan.regs) =
      Function.update (fun j => (s.dev j).chan.regs) k c.regs := by
  funext j
  by_cases hj : j = k
  · subst hj
    simp [IntSys.setChan, IntSys.setDev]
  · simp [IntSys.setChan, IntSys.setDev, hj]

theorem ackEngine_regs (i : ℕ) (dirqval : U32) (c : Chan) :
    (ackEngine i dirqval c [] [] []).regs =
      if i < 32 then ackS2c c.regs dirqval else ackC2s c.regs dirqval := by
  unfold ackEngine ackC2s
  split_ifs <;> rfl

variable (env) in
/-- A pass, while the engines stand still. -/
theorem checkAt_pass {girqval : U32} {i : ℕ} {c : Checking} (h : CheckAt girqval i c s)
    (hlast : i ≠ 39) (hseven : i ≠ 7) :
    ∃ acts s', run (intStep env) s acts = some s' ∧ s'.scheduled = s.scheduled ∧
      CheckAt girqval (i + 1)
        (if imask girqval i = true then
          checkEngine env.engineMask (if i < 32 then ackS2c else ackC2s) i c else c) s' := by
  have hlook : intStep env s .look = some (s.look env girqval i c.found) := by
    rw [intStep, h.check]
  have hregs : ∀ k, c.regs k = (s.dev k).chan.regs := fun k => (congrFun h.regs k).symm
  rw [IntSys.look, if_neg hlast, if_neg hseven] at hlook
  by_cases hsel : imask girqval i = true ∧ env.engineMask.getLsbD i = true
  · rw [if_pos hsel] at hlook
    set s₁ : IntSys υ := { s with check := .read girqval i c.found (getCrSr (s.dev i).chan.regs) }
    have hack : intStep env s₁ (.ack [] [] []) =
        some (s₁.ack girqval i c.found (getCrSr (s.dev i).chan.regs) [] [] []) := rfl
    have hrun : run (intStep env) s [.look, .ack [] [] []] =
        some (s₁.ack girqval i c.found (getCrSr (s.dev i).chan.regs) [] [] []) := by
      rw [run_cons, hlook, Option.bind_some, run_cons, hack]
      rfl
    refine ⟨_, _, hrun, ?_, ?_⟩
    · rw [IntSys.ack]
      split_ifs <;> rfl
    rw [if_pos hsel.1, checkEngine, if_neg (by rw [hsel.2]; decide), hregs, IntSys.ack]
    dsimp only
    by_cases hirq : Flag (getCrSr (s.dev i).chan.regs) engIntActiveMask ∧
        Flag (getCrSr (s.dev i).chan.regs) engIntEnableBit
    · rw [if_pos hirq, if_pos hirq, ← h.pendingMask, ← h.regs]
      refine ⟨rfl, ?_, rfl⟩
      refine (regs_setChan i _).trans (congrArg _ ?_)
      rw [ackEngine_regs]
      split_ifs <;> rfl
    · rw [if_neg hirq, if_neg hirq]
      exact ⟨rfl, h.regs, h.pendingMask⟩
  · have hpass : (if imask girqval i = true then
        checkEngine env.engineMask (if i < 32 then ackS2c else ackC2s) i c else c) = c := by
      by_cases hbit : imask girqval i = true
      · rw [if_pos hbit, checkEngine,
          if_pos (eq_false_of_ne_true fun hset => hsel ⟨hbit, hset⟩)]
      · rw [if_neg hbit]
    rw [if_neg hsel] at hlook
    have hrun : run (intStep env) s [.look] =
        some { s with check := .loop girqval (i + 1) c.found } := by
      rw [run_cons, hlook]
      rfl
    refine ⟨_, _, hrun, rfl, ?_⟩
    rw [hpass]
    exact ⟨rfl, h.regs, h.pendingMask⟩

variable (env) in
/-- A loop. -/
theorem checkAt_loop (ack : Regs → U32 → Regs) (first : ℕ) {girqval ibits : U32} {left k : ℕ}
    {c : Checking} (hbits : ∀ j < k + left, ibits.getLsbD j = imask girqval (first + j))
    (hack : ∀ j < k + left, ack = if first + j < 32 then ackS2c else ackC2s)
    (hlast : first + k + left ≤ 39) (hseven : first + k + left ≤ 7 ∨ 7 < first + k)
    (hle : k + left ≤ 32) (h : CheckAt girqval (first + k) c s) :
    ∃ acts s', run (intStep env) s acts = some s' ∧ s'.scheduled = s.scheduled ∧
      CheckAt girqval (first + k + left)
        (checkLoop env.engineMask ack ibits first left k c) s' := by
  induction left generalizing k c s with
  | zero => exact ⟨[], s, rfl, rfl, h⟩
  | succ left ih =>
    obtain ⟨acts, s₁, hrun, hsched, hat⟩ :=
      checkAt_pass env h (by omega) (by omega)
    rw [← hbits k (by omega), ← hack k (by omega)] at hat
    have hbit : Flag ibits (BitVec.twoPow 32 k) ↔ ibits.getLsbD k = true := flag_twoPow (by omega)
    rw [checkLoop_succ, if_congr hbit rfl rfl]
    obtain ⟨acts', s₂, hrun', hsched', hat'⟩ := ih (k := k + 1) (fun j hj => hbits j (by omega))
      (fun j hj => hack j (by omega)) (by omega) (by omega) (by omega) hat
    refine ⟨acts ++ acts', s₂, ?_, hsched'.trans hsched, ?_⟩
    · rw [run_append, hrun]
      exact hrun'
    · rw [show first + k + (left + 1) = first + (k + 1) + left by omega]
      exact hat'

/-- **The function is what the steps do** while the engines stand still. -/
theorem irq_intrCheck (env : IntEnv υ) (s : IntSys υ) (girqval : U32) (hidle : s.check = .idle) :
    ∃ acts s', run (intStep env) s (.irq girqval :: acts) = some s' ∧ s'.check = .idle ∧
      ∃ retval, intrCheck env.engineMask girqval (fun k => (s.dev k).chan.regs) s.pendingMask
        s.scheduled = ⟨retval, fun k => (s'.dev k).chan.regs, s'.pendingMask, s'.scheduled⟩ := by
  have hirq : intStep env s (.irq girqval) = some { s with check := .loop girqval 0 false } := by
    rw [intStep, hidle]
  have hs2c : ∀ j < 0 + 7, ((girqval &&& s2cEngIntVal) >>> 16).getLsbD j = imask girqval (0 + j) :=
    fun j hj => by rw [imask, if_pos (by omega), Nat.zero_add]
  have hc2s : ∀ j < 0 + 7, ((girqval &&& c2sEngIntVal) >>> 24).getLsbD j = imask girqval (32 + j) :=
    fun j hj => by rw [imask, if_neg (by omega), Nat.add_sub_cancel_left]
  obtain ⟨acts, s₁, hrun, hsched, hat⟩ := checkAt_loop env ackS2c 0
    (s := { s with check := .loop girqval 0 false })
    (c := { regs := fun k => (s.dev k).chan.regs, pendingMask := s.pendingMask, found := false })
    hs2c (fun j hj => (if_pos (by omega)).symm) (by decide) (by decide) (by decide) ⟨rfl, rfl, rfl⟩
  set c₁ := checkLoop env.engineMask ackS2c ((girqval &&& s2cEngIntVal) >>> 16) 0 7 0
    { regs := fun k => (s.dev k).chan.regs, pendingMask := s.pendingMask, found := false } with hc₁
  have hturn : intStep env s₁ .look = some { s₁ with check := .loop girqval 32 c₁.found } := by
    rw [intStep, hat.check]
    rfl
  obtain ⟨acts', s₂, hrun', hsched', hat'⟩ := checkAt_loop env ackC2s 32
    (s := { s₁ with check := .loop girqval 32 c₁.found }) hc2s
    (fun j hj => (if_neg (by omega)).symm) (by decide) (by decide) (by decide)
    ⟨rfl, hat.regs, hat.pendingMask⟩
  set c₂ := checkLoop env.engineMask ackC2s ((girqval &&& c2sEngIntVal) >>> 24) 32 7 0 c₁ with hc₂
  have hend : intStep env s₂ .look = some { s₂ with
      check := .idle
      scheduled := s₂.scheduled || (decide (s₂.pendingMask ≠ 0) && c₂.found) } := by
    rw [intStep, hat'.check]
    rfl
  have hall : run (intStep env) s (.irq girqval :: (acts ++ .look :: (acts' ++ [.look]))) =
      some { s₂ with
        check := .idle
        scheduled := s₂.scheduled || (decide (s₂.pendingMask ≠ 0) && c₂.found) } := by
    rw [run_cons, hirq, Option.bind_some, run_append, hrun, Option.bind_some, run_cons, hturn,
      Option.bind_some, run_append, hrun', Option.bind_some, run_cons, hend]
    rfl
  refine ⟨_, _, hall, rfl, if c₂.found then .success else .failure, ?_⟩
  rw [intrCheck]
  dsimp only
  rw [← hc₁, ← hc₂, hat'.regs, hat'.pendingMask, hsched', hsched]

end Steps

end Dma
