import MyDriver.Lib.Rounds
import MyDriver.Xdma.EngineNumber

/-!
# The statistics commands

`IGET_DMA_STATISTICS` and `IGET_SW_STATISTICS` go over the engines again and again, and take one
sample at a time. `i` counts the samples, and the rounds as well. `IGET_TRN_STATISTICS` has one
ring. A sample leaves its ring before it is copied to the caller. Nothing else runs meanwhile.

* `statistics_deliver_iff` — **when everything that fits is delivered**.
* `statistics_takes` — **what leaves the rings is what was given to `copy_to_user`**, and only the
  last of it may not have arrived.
-/

namespace Dma

open LossyRing Finset

variable {κ α : Type}

/-! ## The commands -/

/-- What a statistics command finds. `entryFails k` is about the `k`-th sample that it copies. -/
structure StatsCall where
  /-- `DriverState` is `INITIALIZED`. -/
  initialized : Bool
  accessOk : Bool
  /-- `Count`, if it can be copied from the caller. -/
  countFrom : Option ℤ
  entryFails : ℕ → Bool
  countFails : Bool

/-- A `copy_to_user` of a sample: where it goes, counted from the caller's pointer, and whether it
succeeds. -/
structure CopyCall (κ α : Type) where
  pos : ℕ
  engine : κ
  stats : α
  ok : Bool

/-- The variables of a statistics command. `ptr` is `ds`, `ss` or `ts`. -/
structure StatsCopy (κ α : Type) where
  rings : κ → LossyRing α
  i : ℤ
  len : ℤ
  ptr : ℕ
  retval : ℤ
  calls : List (CopyCall κ α)

/-- What a command leaves; `count` is what it has copied to `Count`. -/
structure StatsReply (κ α : Type) where
  retval : ℤ
  rings : κ → LossyRing α
  calls : List (CopyCall κ α)
  count : Option ℤ

namespace StatsCopy

def start (rings : κ → LossyRing α) : StatsCopy κ α :=
  { rings := rings, i := 0, len := 0, ptr := 0, retval := 0, calls := [] }

/-- The end of a command. -/
def reply (s : StatsCopy κ α) (countFails : Bool) : StatsReply κ α :=
  if countFails then ⟨-eFault, s.rings, s.calls, none⟩
  else ⟨s.retval, s.rings, s.calls, some s.len⟩

variable [DecidableEq κ]

/-- The locked section, and the `copy_to_user` that follows it. -/
def copyOut (s : StatsCopy κ α) (j : κ) (fails : Bool) : StatsCopy κ α :=
  { s with
    rings := Function.update s.rings j ((s.rings j).pop maxStats)
    calls := s.calls ++ [⟨s.ptr, j, (s.rings j).front, !fails⟩] }

end StatsCopy

/-- What is before the `switch` of `xdma_dev_ioctl`, and the first copy. -/
def ioctlStats (call : StatsCall) (rings : κ → LossyRing α) (rest : ℤ → StatsCopy κ α) :
    StatsReply κ α :=
  if call.initialized = false then ⟨-1, rings, [], none⟩
  else if call.accessOk = false then ⟨-eFault, rings, [], none⟩
  else
    match call.countFrom with
    | none => ⟨-1, rings, [], none⟩
    | some count => (rest count).reply call.countFails

variable [DecidableEq κ]

/-- The inner loop, from the engines `js` on. -/
def copyRound (fails : ℕ → Bool) (count : ℤ) : List κ → StatsCopy κ α → StatsCopy κ α
  | [], s => s
  | j :: js, s =>
    if (s.rings j).num = 0 then copyRound fails count js s
    else
      let t := s.copyOut j (fails s.calls.length)
      if fails s.calls.length then { t with retval := -eFault }
      else if count ≤ s.i + 1 then { t with len := s.len + 1, i := s.i + 1 }
      else copyRound fails count js { t with len := s.len + 1, i := s.i + 1, ptr := s.ptr + 1 }

/-- The outer loop. `i` grows, so that `fuel` need not be more than `count - i`. -/
def copyRounds (fails : ℕ → Bool) (count : ℤ) :
    ℕ → StatsCopy (Fin maxDmaEngines) α → StatsCopy (Fin maxDmaEngines) α
  | 0, s => s
  | fuel + 1, s =>
    if s.i < count then
      let t := copyRound fails count (List.finRange maxDmaEngines) s
      if t.retval < 0 then t else copyRounds fails count fuel { t with i := t.i + 1 }
    else s

/-- The loop of `IGET_TRN_STATISTICS`. -/
def copyTrn (fails : ℕ → Bool) (count : ℤ) : ℕ → StatsCopy Unit α → StatsCopy Unit α
  | 0, s => s
  | fuel + 1, s =>
    if s.i < count then
      if (s.rings ()).num = 0 then s
      else
        let t := s.copyOut () (fails s.calls.length)
        if fails s.calls.length then { t with retval := -eFault }
        else copyTrn fails count fuel
          { t with len := s.len + 1, ptr := s.ptr + 1, i := s.i + 1 }
    else s

/-- The commands over the rings of the engines. -/
def igetEngineStatistics (call : StatsCall) (rings : Fin maxDmaEngines → LossyRing α) :
    StatsReply (Fin maxDmaEngines) α :=
  ioctlStats call rings fun count =>
    copyRounds call.entryFails count count.toNat (StatsCopy.start rings)

def igetDmaStatistics (call : StatsCall) (dstats : Fin maxDmaEngines → LossyRing DMASample) :
    StatsReply (Fin maxDmaEngines) DMASample :=
  igetEngineStatistics call dstats

def igetSwStatistics (call : StatsCall) (sstats : Fin maxDmaEngines → LossyRing SWSample) :
    StatsReply (Fin maxDmaEngines) SWSample :=
  igetEngineStatistics call sstats

def igetTrnStatistics (call : StatsCall) (tstats : LossyRing TRNSample) :
    StatsReply Unit TRNSample :=
  ioctlStats call (fun _ => tstats) fun count =>
    copyTrn call.entryFails count count.toNat (StatsCopy.start fun _ => tstats)

/-! ## What leaves the rings -/

/-- The samples of one ring, in the order of the calls. -/
def samplesOf (j : κ) (calls : List (CopyCall κ α)) : List α :=
  calls.filterMap fun c => if c.engine = j then some c.stats else none

/-- The rings held `l`, and the samples of `calls` are what has left them. -/
def LeftBy (l : κ → List α) (rings : κ → LossyRing α) (calls : List (CopyCall κ α)) : Prop :=
  ∀ j, ∃ rest, l j = samplesOf j calls ++ rest ∧ Contents maxStats (rings j) rest

variable {l : κ → List α} {s : StatsCopy κ α} {fails : ℕ → Bool} {count : ℤ}

theorem samplesOf_append (j : κ) (done calls : List (CopyCall κ α)) :
    samplesOf j (done ++ calls) = samplesOf j done ++ samplesOf j calls :=
  List.filterMap_append

theorem samplesOf_singleton (j : κ) (c : CopyCall κ α) :
    samplesOf j [c] = if c.engine = j then [c.stats] else [] := by
  rw [samplesOf, List.filterMap_cons, List.filterMap_nil]
  split_ifs <;> rfl

theorem LeftBy.start {rings : κ → LossyRing α} (h : ∀ j, Contents maxStats (rings j) (l j)) :
    LeftBy l rings [] :=
  fun j => ⟨l j, rfl, h j⟩

theorem copyOut_length (s : StatsCopy κ α) (j : κ) (failed : Bool) :
    (s.copyOut j failed).calls.length = s.calls.length + 1 :=
  List.length_append

/-- **One sample.** It was the oldest of its ring. -/
theorem LeftBy.copyOut (h : LeftBy l s.rings s.calls) {j : κ} (hsome : (s.rings j).num ≠ 0)
    (failed : Bool) : LeftBy l (s.copyOut j failed).rings (s.copyOut j failed).calls := by
  intro i
  obtain ⟨rest, hl, hrest⟩ := h i
  show ∃ rest, l i = samplesOf i (s.calls ++ [_]) ++ rest ∧
    Contents maxStats (Function.update s.rings j ((s.rings j).pop maxStats) i) rest
  rw [samplesOf_append, samplesOf_singleton]
  by_cases hi : j = i
  · subst hi
    rw [if_pos rfl, Function.update_self]
    cases rest with
    | nil =>
      rw [hrest.num] at hsome
      exact absurd rfl hsome
    | cons x rest =>
      refine ⟨rest, ?_, hrest.pop⟩
      rw [hl, hrest.front, List.append_assoc, List.singleton_append]
  · rw [if_neg hi, Function.update_of_ne (Ne.symm hi), List.append_nil]
    exact ⟨rest, hl, hrest⟩

/-- No copy has failed. -/
structure AllCopied (l : κ → List α) (s : StatsCopy κ α) : Prop where
  left : LeftBy l s.rings s.calls
  ok : ∀ c ∈ s.calls, c.ok = true
  len : s.len = s.calls.length
  pos : s.calls.map CopyCall.pos = List.range s.calls.length
  retval : s.retval = 0

/-- The last copy has failed. -/
structure LastFailed (l : κ → List α) (s : StatsCopy κ α) : Prop where
  left : LeftBy l s.rings s.calls
  last : ∃ done c, s.calls = done ++ [c] ∧ (∀ d ∈ done, d.ok = true) ∧ c.ok = false ∧
    s.len = done.length
  retval : s.retval = -eFault

/-- A copy that succeeds. -/
theorem AllCopied.copies (h : AllCopied l s) (hptr : s.ptr = s.calls.length) {j : κ}
    (hsome : (s.rings j).num ≠ 0) (i : ℤ) (ptr : ℕ) :
    AllCopied l { s.copyOut j false with len := s.len + 1, i := i, ptr := ptr } := by
  refine ⟨h.left.copyOut hsome false, fun c hc => ?_, ?_, ?_, h.retval⟩
  · obtain hc | hc := List.mem_append.1 hc
    · exact h.ok c hc
    · rw [List.mem_singleton.1 hc]
      rfl
  · show s.len + 1 = ((s.copyOut j false).calls.length : ℤ)
    rw [copyOut_length, h.len, Nat.cast_succ]
  · show (s.calls ++ [_]).map CopyCall.pos = List.range (s.calls ++ [_]).length
    rw [List.map_append, h.pos, List.length_append, List.length_singleton, List.range_succ,
      List.map_singleton, hptr]

/-- A copy that fails. -/
theorem AllCopied.failing (h : AllCopied l s) {j : κ} (hsome : (s.rings j).num ≠ 0) :
    LastFailed l { s.copyOut j true with retval := -eFault } :=
  ⟨h.left.copyOut hsome true, ⟨s.calls, _, rfl, h.ok, rfl, h.len⟩, rfl⟩

/-! ## The loops -/

/-- The samples waiting in each ring. -/
def waiting (rings : κ → LossyRing α) : κ → ℕ := fun j => (rings j).num.toNat

/-- A ring that gives a sample has one less. -/
theorem waiting_copyOut (s : StatsCopy κ α) (j : κ) (failed : Bool) :
    waiting (s.copyOut j failed).rings =
      Function.update (waiting s.rings) j (waiting s.rings j - 1) := by
  funext i
  show (Function.update s.rings j ((s.rings j).pop maxStats) i).num.toNat = _
  by_cases hi : i = j
  · subst hi
    rw [Function.update_self, Function.update_self]
    show ((s.rings i).num - 1).toNat = (s.rings i).num.toNat - 1
    omega
  · rw [Function.update_of_ne hi, Function.update_of_ne hi]
    rfl

omit [DecidableEq κ] in
theorem waiting_eq {rings : κ → LossyRing α} (h : ∀ j, Contents maxStats (rings j) (l j)) :
    waiting rings = fun j => (l j).length := by
  funext j
  rw [waiting, (h j).num, Int.toNat_natCast]

theorem AllCopied.waiting_pos (h : AllCopied l s) (j : κ) :
    0 < waiting s.rings j ↔ (s.rings j).num ≠ 0 := by
  obtain ⟨rest, -, hrest⟩ := h.left j
  rw [waiting, hrest.num]
  omega

theorem AllCopied.start {rings : κ → LossyRing α}
    (h : ∀ j, Contents maxStats (rings j) (l j)) : AllCopied l (StatsCopy.start rings) :=
  ⟨LeftBy.start h, fun _ hc => absurd hc List.not_mem_nil, rfl, rfl, rfl⟩

/-- The pointer is moved on, unless the command is done. -/
def PtrOk (count : ℤ) (s : StatsCopy κ α) : Prop := s.i < count → s.ptr = s.calls.length

/-- How many samples a round takes from the rings of `js`. -/
def roundTakes (count : ℤ) (js : List κ) (s : StatsCopy κ α) : ℕ :=
  min (count - s.i).toNat (js.countP fun j => 0 < waiting s.rings j)

/-- A round over the rings of `js`, from `s` to `t`. -/
structure RoundDone (l : κ → List α) (count : ℤ) (js : List κ) (s t : StatsCopy κ α) : Prop where
  all : AllCopied l t
  ptr : PtrOk count t
  calls : t.calls.length = s.calls.length + roundTakes count js s
  i : t.i = s.i + roundTakes count js s
  left : t.i < count → ∀ j,
    waiting t.rings j = if j ∈ js then waiting s.rings j - 1 else waiting s.rings j

variable {j : κ} {js : List κ} {t : StatsCopy κ α}

/-- The first ring is empty. -/
theorem RoundDone.skip (h : RoundDone l count js s t) (hj : j ∉ js) (hnone : (s.rings j).num = 0) :
    RoundDone l count (j :: js) s t := by
  have hzero : waiting s.rings j = 0 := by
    rw [waiting, hnone]
    rfl
  have htakes : roundTakes count (j :: js) s = roundTakes count js s := by
    rw [roundTakes, List.countP_cons_of_neg (by rw [hzero]; simp), ← roundTakes]
  refine ⟨h.all, h.ptr, ?_, ?_, fun hmore i => ?_⟩
  · rw [htakes]
    exact h.calls
  · rw [htakes]
    exact h.i
  · rw [h.left hmore i]
    by_cases hi : i = j
    · subst hi
      rw [if_neg hj, if_pos List.mem_cons_self, hzero]
    · simp only [List.mem_cons, hi, false_or]

/-- The first ring gives a sample, and then the others are looked at. -/
theorem RoundDone.cons (hj : j ∉ js) (hpos : 0 < waiting s.rings j) (hmore : s.i + 1 < count)
    {ptr : ℕ} (h : RoundDone l count js
      { s.copyOut j false with len := s.len + 1, i := s.i + 1, ptr := ptr } t) :
    RoundDone l count (j :: js) s t := by
  have hsame : ∀ i, i ≠ j → waiting (s.copyOut j false).rings i = waiting s.rings i := by
    intro i hi
    rw [waiting_copyOut, Function.update_of_ne hi]
  have htakes : roundTakes count (j :: js) s = 1 + roundTakes count js
      { s.copyOut j false with len := s.len + 1, i := s.i + 1, ptr := ptr } := by
    have hothers : (js.countP fun i => 0 < waiting (s.copyOut j false).rings i) =
        js.countP fun i => 0 < waiting s.rings i := by
      apply List.countP_congr
      intro i hi
      rw [hsame i (ne_of_mem_of_not_mem hi hj)]
    rw [roundTakes, roundTakes, List.countP_cons_of_pos (by simpa using hpos)]
    dsimp only
    rw [hothers]
    omega
  refine ⟨h.all, h.ptr, ?_, ?_, fun hmore' i => ?_⟩
  · rw [h.calls, htakes]
    dsimp only
    rw [copyOut_length, add_assoc]
  · rw [h.i, htakes]
    push_cast
    ring
  · rw [h.left hmore' i]
    by_cases hi : i = j
    · subst hi
      rw [if_neg hj, if_pos List.mem_cons_self]
      dsimp only
      rw [waiting_copyOut, Function.update_self]
    · simp only [List.mem_cons, hi, false_or]
      rw [hsame i hi]

/-- The first ring gives the last sample that was asked for. -/
theorem RoundDone.last (hpos : 0 < waiting s.rings j) (hmore : s.i < count)
    (hlast : count ≤ s.i + 1)
    (h : AllCopied l { s.copyOut j false with len := s.len + 1, i := s.i + 1 }) :
    RoundDone l count (j :: js) s { s.copyOut j false with len := s.len + 1, i := s.i + 1 } := by
  have htakes : roundTakes count (j :: js) s = 1 := by
    rw [roundTakes, List.countP_cons_of_pos (by simpa using hpos)]
    omega
  have hdone : ¬ s.i + 1 < count := not_lt.2 hlast
  refine ⟨h, fun hmore' => absurd hmore' hdone, ?_, ?_, fun hmore' => absurd hmore' hdone⟩
  · rw [htakes]
    exact copyOut_length s j false
  · rw [htakes]
    rfl

/-- **One round.** It takes a sample from each ring of `js` that has one, until it has enough. -/
theorem copyRound_spec (fails : ℕ → Bool) (hnodup : js.Nodup) (h : AllCopied l s) (hi : s.i < count)
    (hptr : PtrOk count s) :
    LastFailed l (copyRound fails count js s) ∧ (∃ k, fails k = true) ∨
      RoundDone l count js s (copyRound fails count js s) := by
  induction js generalizing s with
  | nil =>
    have htakes : roundTakes count [] s = 0 := by rw [roundTakes, List.countP_nil, Nat.min_zero]
    refine Or.inr ⟨h, hptr, ?_, ?_, fun _ j => (if_neg List.not_mem_nil).symm⟩
    · rw [htakes]
      rfl
    · rw [htakes]
      exact (add_zero _).symm
  | cons j js ih =>
    rw [List.nodup_cons] at hnodup
    rw [copyRound]
    by_cases hnone : (s.rings j).num = 0
    · rw [if_pos hnone]
      exact (ih hnodup.2 h hi hptr).imp_right fun hrest => hrest.skip hnodup.1 hnone
    · rw [if_neg hnone]
      have hpos := (h.waiting_pos j).2 hnone
      cases hfails : fails s.calls.length with
      | true =>
        rw [if_pos rfl]
        exact Or.inl ⟨h.failing hnone, _, hfails⟩
      | false =>
        rw [if_neg Bool.false_ne_true]
        split_ifs with hlast
        · exact Or.inr (RoundDone.last hpos hi hlast (h.copies (hptr hi) hnone _ _))
        · have hptr' : PtrOk count { s.copyOut j false with
              len := s.len + 1, i := s.i + 1, ptr := s.ptr + 1 } := by
            intro _
            dsimp only
            rw [copyOut_length, hptr hi]
          exact (ih hnodup.2 (h.copies (hptr hi) hnone _ _) (not_le.1 hlast) hptr').imp_right
            fun hrest => hrest.cons hnodup.1 hpos (not_le.1 hlast)

/-- The engines are gone through in their order. -/
theorem countP_finRange {n : ℕ} (p : Fin n → ℕ) :
    ((List.finRange n).countP fun j => 0 < p j) = Rounds.busy p := by
  rw [List.countP_eq_length_filter, Rounds.busy, Fin.univ_def]
  rfl

variable {l : Fin maxDmaEngines → List α} {s t : StatsCopy (Fin maxDmaEngines) α}

theorem taken_done (h : count ≤ s.i) :
    Rounds.taken (count - s.i).toNat (waiting s.rings) = 0 := by
  have hzero : (count - s.i).toNat = 0 := by omega
  rw [hzero, Rounds.taken_last (Nat.zero_le _)]

/-- A round over all engines takes its part of what there is to take. -/
theorem RoundDone.taken (h : RoundDone l count (List.finRange maxDmaEngines) s t) :
    t.calls.length + Rounds.taken (count - (t.i + 1)).toNat (waiting t.rings) =
      s.calls.length + Rounds.taken (count - s.i).toNat (waiting s.rings) := by
  have htakes : roundTakes count (List.finRange maxDmaEngines) s =
      min (count - s.i).toNat (Rounds.busy (waiting s.rings)) := by
    rw [roundTakes, countP_finRange]
  have hi := h.i
  rw [htakes] at hi
  rw [h.calls, htakes, add_assoc]
  congr 1
  obtain hlast | hmore := le_or_gt (count - s.i).toNat (Rounds.busy (waiting s.rings))
  · have hzero : (count - (t.i + 1)).toNat = 0 := by omega
    rw [Rounds.taken_last hlast, hzero, Rounds.taken_last (Nat.zero_le _), min_eq_left hlast,
      add_zero]
  · have hwaiting : waiting t.rings = fun j => waiting s.rings j - 1 := by
      funext j
      rw [h.left (by omega) j, if_pos (List.mem_finRange j)]
    rw [Rounds.taken_round hmore, min_eq_right hmore.le, hwaiting]
    congr 2
    omega

/-- **All rounds.** -/
theorem copyRounds_spec (fails : ℕ → Bool) (count : ℤ) (fuel : ℕ) (h : AllCopied l s)
    (hptr : PtrOk count s) (hfuel : (count - s.i).toNat ≤ fuel) :
    LastFailed l (copyRounds fails count fuel s) ∧ (∃ k, fails k = true) ∨
      AllCopied l (copyRounds fails count fuel s) ∧
        (copyRounds fails count fuel s).calls.length =
          s.calls.length + Rounds.taken (count - s.i).toNat (waiting s.rings) := by
  induction fuel generalizing s with
  | zero =>
    refine Or.inr ⟨h, ?_⟩
    rw [taken_done (by omega)]
    rfl
  | succ fuel ih =>
    rw [copyRounds]
    split_ifs with hi
    · have hround := copyRound_spec fails (List.nodup_finRange maxDmaEngines) h hi hptr
      generalize copyRound fails count (List.finRange maxDmaEngines) s = t at hround
      dsimp only
      obtain ⟨hfailed, hfails⟩ | hround := hround
      · rw [if_pos (by rw [hfailed.retval]; decide)]
        exact Or.inl ⟨hfailed, hfails⟩
      · rw [if_neg (by rw [hround.all.retval]; decide)]
        have hall : AllCopied l { t with i := t.i + 1 } :=
          ⟨hround.all.left, hround.all.ok, hround.all.len, hround.all.pos, hround.all.retval⟩
        have hptr' : PtrOk count { t with i := t.i + 1 } :=
          fun hmore => hround.ptr ((lt_add_one t.i).trans hmore)
        have hi' := hround.i
        rw [← hround.taken]
        exact ih hall hptr' (by dsimp only; omega)
    · refine Or.inr ⟨h, ?_⟩
      rw [taken_done (not_lt.1 hi)]
      rfl

/-- **The loop over one ring.** -/
theorem copyTrn_spec {l : Unit → List α} {s : StatsCopy Unit α} (fails : ℕ → Bool) (count : ℤ)
    (fuel : ℕ) (h : AllCopied l s) (hptr : s.ptr = s.calls.length)
    (hfuel : (count - s.i).toNat ≤ fuel) :
    LastFailed l (copyTrn fails count fuel s) ∧ (∃ k, fails k = true) ∨
      AllCopied l (copyTrn fails count fuel s) ∧ (copyTrn fails count fuel s).calls.length =
        s.calls.length + min (count - s.i).toNat (waiting s.rings ()) := by
  induction fuel generalizing s with
  | zero =>
    refine Or.inr ⟨h, ?_⟩
    rw [Nat.le_zero.1 hfuel, Nat.zero_min]
    rfl
  | succ fuel ih =>
    rw [copyTrn]
    split_ifs with hi hnone hfails
    · refine Or.inr ⟨h, ?_⟩
      have hzero : waiting s.rings () = 0 := by
        rw [waiting, hnone]
        rfl
      rw [hzero, Nat.min_zero]
      rfl
    · rw [hfails]
      exact Or.inl ⟨h.failing hnone, _, hfails⟩
    · rw [Bool.eq_false_of_not_eq_true hfails]
      have hlen := copyOut_length s () false
      have htakes : s.calls.length + min (count - s.i).toNat (waiting s.rings ()) =
          (s.copyOut () false).calls.length +
            min (count - (s.i + 1)).toNat (waiting (s.copyOut () false).rings ()) := by
        have hpos := (h.waiting_pos ()).2 hnone
        rw [hlen, waiting_copyOut, Function.update_self]
        omega
      rw [htakes]
      exact ih (h.copies hptr hnone _ _) (by rw [hptr]; exact hlen.symm) (by dsimp only; omega)
    · refine Or.inr ⟨h, ?_⟩
      have hzero : (count - s.i).toNat = 0 := by omega
      rw [hzero, Nat.zero_min]
      rfl

/-! ## What the caller gets -/

/-- What the caller may rely on: what left the rings was given to `copy_to_user`, a copy that fails
is the last one, and `Count` is the number of the others. -/
structure TakesCopied (l : κ → List α) (r : StatsReply κ α) : Prop where
  left : LeftBy l r.rings r.calls
  last : (∀ c ∈ r.calls, c.ok = true) ∨ ∃ done c, r.calls = done ++ [c] ∧
    (∀ d ∈ done, d.ok = true) ∧ c.ok = false ∧ r.retval = -eFault
  count : ∀ n, r.count = some n → n = (r.calls.filter CopyCall.ok).length

/-- What left the rings has arrived, and `Count` says how much that is. -/
def LosesNothing (l : κ → List α) (r : StatsReply κ α) : Prop :=
  LeftBy l r.rings (r.calls.filter CopyCall.ok) ∧
    ∀ n, r.count = some n → n = (r.calls.filter CopyCall.ok).length

/-- Everything that fits has arrived. -/
structure DeliversAll [Fintype κ] (l : κ → List α) (count : ℤ) (r : StatsReply κ α) : Prop where
  retval : r.retval = 0
  ok : ∀ c ∈ r.calls, c.ok = true
  pos : r.calls.map CopyCall.pos = List.range r.calls.length
  left : LeftBy l r.rings r.calls
  total : (r.calls.length : ℤ) = min count (∑ j, (l j).length : ℕ)
  count : r.count = some (r.calls.length : ℤ)

omit [DecidableEq κ] in
theorem filter_ok {calls : List (CopyCall κ α)} (h : ∀ c ∈ calls, c.ok = true) :
    calls.filter CopyCall.ok = calls :=
  List.filter_eq_self.2 h

omit [DecidableEq κ] in
theorem filter_ok_last {done : List (CopyCall κ α)} {c : CopyCall κ α}
    (hdone : ∀ d ∈ done, d.ok = true) (hc : c.ok = false) :
    (done ++ [c]).filter CopyCall.ok = done := by
  rw [List.filter_append, filter_ok hdone,
    List.filter_cons_of_neg (by rw [hc]; exact Bool.false_ne_true), List.filter_nil,
    List.append_nil]

section Reply

variable {l : κ → List α} {s : StatsCopy κ α}

theorem AllCopied.takes (h : AllCopied l s) (countFails : Bool) :
    TakesCopied l (s.reply countFails) := by
  cases countFails with
  | true => exact ⟨h.left, Or.inl h.ok, fun n hn => nomatch hn⟩
  | false =>
    refine ⟨h.left, Or.inl h.ok, fun n hn => ?_⟩
    rw [← Option.some.inj hn, h.len]
    show _ = ((s.calls.filter CopyCall.ok).length : ℤ)
    rw [filter_ok h.ok]

theorem LastFailed.takes (h : LastFailed l s) (countFails : Bool) :
    TakesCopied l (s.reply countFails) := by
  obtain ⟨done, c, hcalls, hdone, hc, hlen⟩ := h.last
  cases countFails with
  | true => exact ⟨h.left, Or.inr ⟨done, c, hcalls, hdone, hc, rfl⟩, fun n hn => nomatch hn⟩
  | false =>
    refine ⟨h.left, Or.inr ⟨done, c, hcalls, hdone, hc, h.retval⟩, fun n hn => ?_⟩
    rw [← Option.some.inj hn, hlen]
    show _ = ((s.calls.filter CopyCall.ok).length : ℤ)
    rw [hcalls, filter_ok_last hdone hc]

/-- Before the loops nothing is taken. -/
theorem ioctlStats_takes {rings : κ → LossyRing α} (hrings : ∀ j, Contents maxStats (rings j) (l j))
    {call : StatsCall} {rest : ℤ → StatsCopy κ α}
    (hrest : ∀ count, LastFailed l (rest count) ∨ AllCopied l (rest count)) :
    TakesCopied l (ioctlStats call rings rest) := by
  have hnone : ∀ retval, TakesCopied l (⟨retval, rings, [], none⟩ : StatsReply κ α) := fun retval =>
    ⟨LeftBy.start hrings, Or.inl fun c hc => absurd hc List.not_mem_nil, fun n hn => nomatch hn⟩
  rw [ioctlStats]
  split_ifs
  · exact hnone _
  · exact hnone _
  · cases call.countFrom with
    | none => exact hnone _
    | some count => exact (hrest count).elim (fun h => h.takes _) fun h => h.takes _

/-- Without failures only the number of samples is in question. -/
theorem AllCopied.delivers_iff [Fintype κ] (h : AllCopied l s) (count : ℤ) :
    DeliversAll l count (s.reply false) ↔
      (s.calls.length : ℤ) = min count (∑ j, (l j).length : ℕ) := by
  refine ⟨fun hall => hall.total, fun htotal => ⟨h.retval, h.ok, h.pos, h.left, htotal, ?_⟩⟩
  show some s.len = some _
  rw [h.len]
  rfl

/-- A copy that fails loses its sample. -/
theorem TakesCopied.losesNothing_iff {r : StatsReply κ α} (h : TakesCopied l r) :
    LosesNothing l r ↔ ∀ c ∈ r.calls, c.ok = true := by
  constructor
  · intro hnothing
    obtain hok | ⟨done, c, hcalls, hdone, hc, -⟩ := h.last
    · exact hok
    -- What waits behind the lost sample cannot be one longer and one shorter.
    · have harrived : r.calls.filter CopyCall.ok = done := by
        rw [hcalls, filter_ok_last hdone hc]
      obtain ⟨rest, hl, hrest⟩ := h.left c.engine
      obtain ⟨rest', hl', hrest'⟩ := hnothing.1 c.engine
      have hnum := hrest.num
      rw [hrest'.num] at hnum
      rw [hl, harrived, hcalls, samplesOf_append, samplesOf_singleton, if_pos rfl] at hl'
      have hlen := congrArg List.length hl'
      simp only [List.length_append, List.length_singleton] at hlen
      omega
  · intro hok
    refine ⟨?_, h.count⟩
    rw [filter_ok hok]
    exact h.left

end Reply

/-! ## The engines -/

section Engines

variable {l : Fin maxDmaEngines → List α} {rings : Fin maxDmaEngines → LossyRing α}

theorem igetEngineStatistics_takes (h : ∀ j, Contents maxStats (rings j) (l j)) (call : StatsCall) :
    TakesCopied l (igetEngineStatistics call rings) := by
  refine ioctlStats_takes h fun count => ?_
  have hspec := copyRounds_spec call.entryFails count count.toNat (AllCopied.start h) (fun _ => rfl)
    (by rw [StatsCopy.start, sub_zero])
  exact hspec.imp And.left And.left

/-- The first round finds all that is asked for, or `i` does not get to `Count` before every sample
is taken: it counts the rounds before the last one too. -/
def FitsRounds (count : ℤ) (l : Fin maxDmaEngines → List α) : Prop :=
  count ≤ (#{j | 0 < (l j).length} : ℕ) ∨
    ((∑ j, (l j).length + univ.sup fun j => (l j).length : ℕ) : ℤ) ≤ count + 1

instance (l : Fin maxDmaEngines → List α) : Decidable (FitsRounds count l) :=
  inferInstanceAs (Decidable (_ ∨ _))

/-- A command that nothing goes wrong with. -/
def goodCall (count : ℤ) : StatsCall where
  initialized := true
  accessOk := true
  countFrom := some count
  entryFails := fun _ => false
  countFails := false

theorem igetEngineStatistics_delivers_iff (h : ∀ j, Contents maxStats (rings j) (l j))
    (hcount : 0 ≤ count) :
    DeliversAll l count (igetEngineStatistics (goodCall count) rings) ↔ FitsRounds count l := by
  obtain ⟨-, k, hk⟩ | ⟨hall, hlen⟩ := copyRounds_spec (fun _ => false) count
    count.toNat (AllCopied.start h) (fun _ => rfl) (by rw [StatsCopy.start, sub_zero])
  · exact absurd hk Bool.false_ne_true
  · have htaken : (copyRounds (fun _ => false) count count.toNat
        (StatsCopy.start rings)).calls.length =
          Rounds.taken count.toNat fun j => (l j).length := by
      rw [hlen, StatsCopy.start, sub_zero, waiting_eq h]
      exact Nat.zero_add _
    refine (hall.delivers_iff count).trans ?_
    rw [htaken]
    have hfits := Rounds.taken_eq_min_iff (c := count.toNat) (p := fun j => (l j).length)
    rw [FitsRounds]
    rw [Rounds.busy] at hfits
    constructor
    · intro heq
      refine (hfits.1 (by omega)).imp (fun hfirst => by omega) fun hrest => by omega
    · intro hor
      have heq := hfits.2 (hor.imp (fun hfirst => by omega) fun hrest => by omega)
      omega

end Engines

section Trn

variable {l : List TRNSample} {tstats : LossyRing TRNSample}

theorem igetTrnStatistics_takes (h : Contents maxStats tstats l) (call : StatsCall) :
    TakesCopied (fun _ => l) (igetTrnStatistics call tstats) := by
  refine ioctlStats_takes (fun _ => h) fun count => ?_
  have hspec := copyTrn_spec call.entryFails count count.toNat (AllCopied.start fun _ => h) rfl
    (by rw [StatsCopy.start, sub_zero])
  exact hspec.imp And.left And.left

theorem igetTrnStatistics_delivers (h : Contents maxStats tstats l) (hcount : 0 ≤ count) :
    DeliversAll (fun _ => l) count (igetTrnStatistics (goodCall count) tstats) := by
  obtain ⟨-, k, hk⟩ | ⟨hall, hlen⟩ := copyTrn_spec (fun _ => false) count count.toNat
    (AllCopied.start fun _ => h) rfl (by rw [StatsCopy.start, sub_zero])
  · exact absurd hk Bool.false_ne_true
  · refine (hall.delivers_iff count).2 ?_
    have hwaiting : waiting (fun _ : Unit => tstats) () = l.length :=
      congrFun (waiting_eq (l := fun _ => l) fun _ => h) ()
    rw [hlen, Finset.univ_unique, Finset.sum_singleton]
    show ((0 + min (count - 0).toNat (waiting (fun _ => tstats) ()) : ℕ) : ℤ) = _
    rw [hwaiting]
    omega

end Trn

/-! ## The three commands -/

/-- **When everything that fits is delivered.** The commands over the engines stop early when the
samples are not spread evenly over them. The command over one ring always delivers everything. -/
theorem statistics_deliver_iff (count : ℤ) (hcount : 0 ≤ count)
    (dstats : Fin maxDmaEngines → LossyRing DMASample) (ld : Fin maxDmaEngines → List DMASample)
    (hd : ∀ j, Contents maxStats (dstats j) (ld j))
    (sstats : Fin maxDmaEngines → LossyRing SWSample) (ls : Fin maxDmaEngines → List SWSample)
    (hs : ∀ j, Contents maxStats (sstats j) (ls j))
    (tstats : LossyRing TRNSample) (lt : List TRNSample) (ht : Contents maxStats tstats lt) :
    (DeliversAll ld count (igetDmaStatistics (goodCall count) dstats) ↔ FitsRounds count ld) ∧
    (DeliversAll ls count (igetSwStatistics (goodCall count) sstats) ↔ FitsRounds count ls) ∧
    DeliversAll (fun _ => lt) count (igetTrnStatistics (goodCall count) tstats) :=
  ⟨igetEngineStatistics_delivers_iff hd hcount, igetEngineStatistics_delivers_iff hs hcount,
    igetTrnStatistics_delivers ht hcount⟩

/-- A ring that holds `xs`. -/
def ringOf (x : α) (xs : List α) : LossyRing α :=
  { slot := fun i => xs.getD i x, read := 0, write := xs.length % maxStats, num := xs.length }

theorem ringOf_contents (x : α) {xs : List α} (h : xs.length ≤ maxStats) :
    Contents maxStats (ringOf x xs) xs := by
  refine ⟨rfl, h, show 0 < maxStats by decide, ?_, fun i hi => ?_⟩
  · show xs.length % maxStats = (0 + xs.length) % maxStats
    rw [Nat.zero_add]
  · show xs.getD ((0 + i) % maxStats) x = xs[i]
    rw [Nat.zero_add, Nat.mod_eq_of_lt (hi.trans_le h), List.getD_eq_getElem _ _ hi]

/-- The first engine has `xs` waiting, the others nothing. -/
def onFirst (xs : List α) (j : Fin maxDmaEngines) : List α :=
  if j = ⟨0, maxDmaEngines_pos⟩ then xs else []

theorem onFirst_contents (x : α) {xs : List α} (h : xs.length ≤ maxStats) (j : Fin maxDmaEngines) :
    Contents maxStats (ringOf x (onFirst xs j)) (onFirst xs j) := by
  apply ringOf_contents
  rw [onFirst]
  split_ifs
  · exact h
  · exact Nat.zero_le _

/-- Two samples of the first engine. -/
def twoSamples : List DMASample := [⟨4, 8, 12⟩, ⟨16, 20, 24⟩]

def samplesBack : Fin maxDmaEngines → LossyRing DMASample :=
  fun j => ringOf ⟨0, 0, 0⟩ (onFirst twoSamples j)

/-- With room for three they are both delivered. -/
theorem statistics_deliver_iff_roomy :
    DeliversAll (onFirst twoSamples) 3 (igetDmaStatistics (goodCall 3) samplesBack) :=
  (statistics_deliver_iff 3 (by decide) samplesBack (onFirst twoSamples)
    (onFirst_contents _ (by decide)) (fun j => ringOf ⟨0⟩ (onFirst [] j)) (onFirst [])
    (onFirst_contents _ (by decide)) (ringOf ⟨0, 0⟩ []) [] (ringOf_contents _ (by decide))).1.2
    (by decide +kernel)

/-- **One too few.** With room for two, one is delivered. -/
theorem one_of_two_delivered :
    ¬ DeliversAll (onFirst twoSamples) 2 (igetDmaStatistics (goodCall 2) samplesBack) := by
  intro h
  have hlen : (igetDmaStatistics (goodCall 2) samplesBack).calls.length = 1 := by decide +kernel
  have htotal := h.total
  rw [hlen] at htotal
  revert htotal
  decide +kernel

/-- **What leaves the rings.** Whatever fails, what a command takes from the rings it gives to
`copy_to_user`; a failure ends it, and loses the one sample it is about. `Count` is the number of
those that arrived. -/
theorem statistics_takes (call : StatsCall)
    (dstats : Fin maxDmaEngines → LossyRing DMASample) (ld : Fin maxDmaEngines → List DMASample)
    (hd : ∀ j, Contents maxStats (dstats j) (ld j))
    (sstats : Fin maxDmaEngines → LossyRing SWSample) (ls : Fin maxDmaEngines → List SWSample)
    (hs : ∀ j, Contents maxStats (sstats j) (ls j))
    (tstats : LossyRing TRNSample) (lt : List TRNSample) (ht : Contents maxStats tstats lt) :
    TakesCopied ld (igetDmaStatistics call dstats) ∧
    TakesCopied ls (igetSwStatistics call sstats) ∧
    TakesCopied (fun _ => lt) (igetTrnStatistics call tstats) :=
  ⟨igetEngineStatistics_takes hd call, igetEngineStatistics_takes hs call,
    igetTrnStatistics_takes ht call⟩

/-- The caller's memory ends after the first sample. -/
def badCall : StatsCall := { goodCall 3 with entryFails := fun k => decide (1 ≤ k) }

theorem statistics_takes_badCall :
    TakesCopied (onFirst twoSamples) (igetDmaStatistics badCall samplesBack) :=
  (statistics_takes badCall samplesBack (onFirst twoSamples) (onFirst_contents _ (by decide))
    (fun j => ringOf ⟨0⟩ (onFirst [] j)) (onFirst []) (onFirst_contents _ (by decide))
    (ringOf ⟨0, 0⟩ []) [] (ringOf_contents _ (by decide))).1

/-- **A sample is lost.** The first engine has two, one arrives, and none is left. -/
theorem sample_lost :
    ¬ LosesNothing (onFirst twoSamples) (igetDmaStatistics badCall samplesBack) := by
  intro h
  obtain ⟨rest, hl, hrest⟩ := h.1 ⟨0, by decide⟩
  have hnone : ((igetDmaStatistics badCall samplesBack).rings ⟨0, by decide⟩).num = 0 := by
    decide +kernel
  have harrived : (samplesOf ⟨0, by decide⟩ ((igetDmaStatistics badCall samplesBack).calls.filter
      CopyCall.ok)).length = 1 := by
    decide +kernel
  have hlen := congrArg List.length hl
  rw [List.length_append, harrived] at hlen
  have hnum := hrest.num
  rw [hnone] at hnum
  have htwo : (onFirst twoSamples ⟨0, by decide⟩).length = 2 := by decide
  omega

end Dma
