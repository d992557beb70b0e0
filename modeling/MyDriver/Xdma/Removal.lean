import MyDriver.Lib.Runs
import MyDriver.Xdma.Engine
import MyDriver.Xdma.Stats

/-!
# Removal and the timers

`xdma_remove` deletes the two timers of the driver with `del_timer_sync`, which waits until the
handler of the timer is not running, and holds a lock that the handler takes: `DmaStatsLock` for
`poll_stats`, `DmaLock` for `poll_routine`. The handlers look at `DriverState` once, when they
start. "The driver state flag has already been changed" when `xdma_cleanup` is the reason for the
removal, but not when the device is unbound.

* `unbound` — `xdma_remove` waits for a handler that waits for it.
* `removal_deadlockFree` — **which runs never come there**.
* `handlers_return` — in all other states a handler that is waited for can return.
-/

namespace Dma

open Runs

/-! ## The three flows -/

/-- Where `xdma_cleanup` and `xdma_remove` are. -/
inductive RemoverAt where
  | outside
  /-- `xdma_cleanup` holds `DmaLock`. -/
  | marking
  /-- `xdma_cleanup` has changed `DriverState`. -/
  | marked
  /-- `xdma_remove` has been called. -/
  | removing
  /-- It holds `DmaStatsLock` and deletes the timer of `poll_stats`. -/
  | delStats
  | statsGone
  | between
  /-- It holds `DmaLock` and deletes the timer of `poll_routine`. -/
  | delPoll
  | pollGone
  | after
  /-- It holds `DmaLock` and resets the engines. -/
  | resetting
  | removed
deriving DecidableEq

/-- Where `poll_stats` is; `i` counts the engines. -/
inductive StatsAt where
  | idle
  | entry
  | loop (i : ℕ)
  /-- It holds `DmaStatsLock`. -/
  | locked (i : ℕ)
  | tail
deriving DecidableEq

/-- Where `poll_routine` is; `i` counts the engines. -/
inductive PollAt where
  | idle
  | entry
  | loop (i : ℕ)
  /-- `PktHandler` holds `DmaLock` and has `n` BDs to go. -/
  | retrieve (i n : ℕ)
  /-- It holds `DmaStatsLock`, too. -/
  | count (i n : ℕ)
  /-- `PktHandler` calls `UserPutPkt`. -/
  | put (i : ℕ)
  /-- `PktHandler` holds `DmaLock` again. -/
  | refill (i : ℕ)
deriving DecidableEq

structure RemoveSys where
  driverState : DmaState
  /-- `engineMask` -/
  engineMask : ℕ → Bool
  /-- The engines that are `USER_ASSIGNED`. -/
  assigned : ℕ → Bool
  remover : RemoverAt
  stats : StatsAt
  poll : PollAt
  /-- The timers that are pending. -/
  statsTimer : Bool
  pollTimer : Bool

/-- `DmaLock` is free. -/
def RemoveSys.dmaFree (s : RemoveSys) : Bool :=
  (match s.remover with
    | .marking | .delPoll | .pollGone | .resetting => false
    | _ => true) &&
  match s.poll with
  | .retrieve _ _ | .count _ _ | .refill _ => false
  | _ => true

/-- `DmaStatsLock` is free. -/
def RemoveSys.statsFree (s : RemoveSys) : Bool :=
  (match s.remover with
    | .delStats | .statsGone => false
    | _ => true) &&
  (match s.stats with
    | .locked _ => false
    | _ => true) &&
  match s.poll with
  | .count _ _ => false
  | _ => true

/-- The engines that `poll_routine` handles. -/
def RemoveSys.handled (s : RemoveSys) (i : ℕ) : Bool := s.engineMask i && s.assigned i

inductive RemoveAct where
  /-- The next step of `xdma_cleanup` and `xdma_remove`; `unbind` says what begins. -/
  | remover (unbind : Bool)
  | statsFires
  | stats
  | pollFires
  /-- The next step of `poll_routine`. In the interrupt build it skips an engine that had an
  interrupt `recently`; `found` is what `Dma_BdRingFromHw` returns, and `Dma_BdRingFree` succeeds or
  not. -/
  | poll (recently : Bool) (found : ℕ) (freed : Bool)

def removerStep (s : RemoveSys) (unbind : Bool) : Option RemoveSys :=
  match s.remover with
  | .outside =>
    if unbind then some { s with remover := .removing }
    else if s.dmaFree then some { s with remover := .marking }
    else none
  | .marking => some { s with driverState := .unregistering, remover := .marked }
  | .marked => some { s with remover := .removing }
  | .removing => if s.statsFree then some { s with remover := .delStats } else none
  | .delStats =>
    if s.stats = .idle then some { s with statsTimer := false, remover := .statsGone } else none
  | .statsGone => some { s with remover := .between }
  | .between => if s.dmaFree then some { s with remover := .delPoll } else none
  | .delPoll =>
    if s.poll = .idle then some { s with pollTimer := false, remover := .pollGone } else none
  | .pollGone => some { s with remover := .after }
  | .after => if s.dmaFree then some { s with remover := .resetting } else none
  | .resetting => some { s with remover := .removed }
  | .removed => none

def statsTimerStep (s : RemoveSys) : Option RemoveSys :=
  match s.stats with
  | .idle => none
  | .entry =>
    if s.driverState = .unregistering then some { s with stats := .idle }
    else some { s with stats := .loop 0 }
  | .loop i =>
    if i < maxDmaEngines then
      if s.engineMask i then
        if s.statsFree then some { s with stats := .locked i } else none
      else some { s with stats := .loop (i + 1) }
    else some { s with stats := .tail }
  | .locked i => some { s with stats := .loop (i + 1) }
  | .tail => some { s with stats := .idle, statsTimer := true }

def pollTimerStep (thBhIsr : Bool) (s : RemoveSys) (recently : Bool) (found : ℕ) (freed : Bool) :
    Option RemoveSys :=
  match s.poll with
  | .idle => none
  | .entry =>
    if s.driverState = .unregistering then some { s with poll := .idle }
    else some { s with poll := .loop 0 }
  | .loop i =>
    if i < maxDmaEngines then
      if thBhIsr && recently then some { s with poll := .loop (i + 1) }
      else if s.handled i then
        if s.dmaFree then
          some { s with poll := if found = 0 then .refill i else .retrieve i found }
        else none
      else some { s with poll := .loop (i + 1) }
    else some { s with poll := .idle, pollTimer := true }
  | .retrieve i 0 => some { s with poll := if freed then .put i else .loop (i + 1) }
  | .retrieve i (n + 1) => if s.statsFree then some { s with poll := .count i n } else none
  | .count i n => some { s with poll := .retrieve i n }
  | .put i => if s.dmaFree then some { s with poll := .refill i } else none
  | .refill i => some { s with poll := .loop (i + 1) }

def removeStep (thBhIsr : Bool) (s : RemoveSys) : RemoveAct → Option RemoveSys
  | .remover unbind => removerStep s unbind
  | .statsFires =>
    if s.stats = .idle ∧ s.statsTimer = true then
      some { s with stats := .entry, statsTimer := false }
    else none
  | .stats => statsTimerStep s
  | .pollFires =>
    if s.poll = .idle ∧ s.pollTimer = true then
      some { s with poll := .entry, pollTimer := false }
    else none
  | .poll recently found freed => pollTimerStep thBhIsr s recently found freed

/-- After `xdma_probe`, with some engines assigned. -/
def probedTimers (engineMask assigned : ℕ → Bool) : RemoveSys where
  driverState := .initialized
  engineMask := engineMask
  assigned := assigned
  remover := .outside
  stats := .idle
  poll := .idle
  statsTimer := true
  pollTimer := true

/-! ## Who waits for whom -/

/-- There is an engine from `i` on for which a handler takes its lock. -/
def Left (p : ℕ → Bool) (i : ℕ) : Prop := ∃ j < maxDmaEngines, i ≤ j ∧ p j = true

/-- `poll_stats` has to take `DmaStatsLock` before it returns. -/
def StatsNeeds (s : RemoveSys) : Prop :=
  match s.stats with
  | .idle | .tail => False
  | .entry => s.driverState ≠ .unregistering ∧ Left s.engineMask 0
  | .loop i => Left s.engineMask i
  | .locked i => Left s.engineMask (i + 1)

/-- `poll_routine` has to take `DmaLock` before it returns; unless, in the interrupt build, it skips
the engine, or `Dma_BdRingFree` fails. -/
def PollNeeds (s : RemoveSys) : Prop :=
  match s.poll with
  | .idle => False
  | .entry => s.driverState ≠ .unregistering ∧ Left s.handled 0
  | .loop i => Left s.handled i
  | .retrieve _ _ | .count _ _ | .put _ => True
  | .refill i => Left s.handled (i + 1)

/-- `xdma_remove` waits for a handler and holds the lock that the handler has to take. -/
def Deadlocked (s : RemoveSys) : Prop :=
  s.remover = .delStats ∧ StatsNeeds s ∨ s.remover = .delPoll ∧ PollNeeds s

/-- `xdma_remove` takes its lock only when the handler does not need it any more, and while it holds
the lock the timer does not fire unless `DriverState` makes the handler return. -/
def TimelyRemoval (s : RemoveSys) : RemoveAct → Prop
  | .remover _ => (s.remover = .removing → ¬ StatsNeeds s) ∧ (s.remover = .between → ¬ PollNeeds s)
  | .statsFires =>
    s.remover = .delStats → s.driverState = .unregistering ∨ ¬ Left s.engineMask 0
  | .pollFires => s.remover = .delPoll → s.driverState = .unregistering ∨ ¬ Left s.handled 0
  | _ => True

variable {s s' : RemoveSys} {thBhIsr : Bool}

theorem Left.mono {p : ℕ → Bool} {i : ℕ} (h : Left p (i + 1)) : Left p i := by
  obtain ⟨j, hj, hij, hp⟩ := h
  exact ⟨j, hj, by omega, hp⟩

/-- What a step of `poll_stats` does. -/
inductive StatsTimerMove (s : RemoveSys) : RemoveSys → Prop
  | returns (hat : s.stats = .entry) (hstate : s.driverState = .unregistering) :
    StatsTimerMove s { s with stats := .idle }
  | begins (hat : s.stats = .entry) (hstate : s.driverState ≠ .unregistering) :
    StatsTimerMove s { s with stats := .loop 0 }
  | locks {i : ℕ} (hat : s.stats = .loop i) (hi : i < maxDmaEngines)
    (hmask : s.engineMask i = true) (hfree : s.statsFree = true) :
    StatsTimerMove s { s with stats := .locked i }
  | skips {i : ℕ} (hat : s.stats = .loop i) (hi : i < maxDmaEngines)
    (hmask : s.engineMask i ≠ true) : StatsTimerMove s { s with stats := .loop (i + 1) }
  | ends {i : ℕ} (hat : s.stats = .loop i) (hi : ¬ i < maxDmaEngines) :
    StatsTimerMove s { s with stats := .tail }
  | unlocks {i : ℕ} (hat : s.stats = .locked i) :
    StatsTimerMove s { s with stats := .loop (i + 1) }
  | rearms (hat : s.stats = .tail) : StatsTimerMove s { s with stats := .idle, statsTimer := true }

theorem statsTimerStep_move (hstep : statsTimerStep s = some s') : StatsTimerMove s s' := by
  rw [statsTimerStep] at hstep
  cases hat : s.stats with
  | idle =>
    rw [hat] at hstep
    cases hstep
  | entry =>
    rw [hat] at hstep
    dsimp only at hstep
    split_ifs at hstep with hstate
    · cases hstep
      exact .returns hat hstate
    · cases hstep
      exact .begins hat hstate
  | loop i =>
    rw [hat] at hstep
    dsimp only at hstep
    split_ifs at hstep with hi hmask hfree
    · cases hstep
      exact .locks hat hi hmask hfree
    · cases hstep
      exact .skips hat hi hmask
    · cases hstep
      exact .ends hat hi
  | locked i =>
    rw [hat] at hstep
    cases hstep
    exact .unlocks hat
  | tail =>
    rw [hat] at hstep
    cases hstep
    exact .rearms hat

/-- `poll_stats` gets no nearer to its lock while it does not need it. -/
theorem statsTimerStep_needs (hneeds : ¬ StatsNeeds s) (hstep : statsTimerStep s = some s') :
    ¬ StatsNeeds s' := by
  unfold StatsNeeds at hneeds
  cases statsTimerStep_move hstep with
  | returns => exact id
  | begins hat hstate =>
    rw [hat] at hneeds
    exact fun hleft => hneeds ⟨hstate, hleft⟩
  | locks hat hi hmask =>
    rw [hat] at hneeds
    exact absurd ⟨_, hi, le_rfl, hmask⟩ hneeds
  | skips hat =>
    rw [hat] at hneeds
    exact fun hleft => hneeds (Left.mono hleft)
  | ends => exact id
  | unlocks hat =>
    rw [hat] at hneeds
    exact hneeds
  | rearms => exact id

/-- What a step of `poll_routine` does. -/
inductive PollTimerMove (thBhIsr : Bool) (s : RemoveSys) (recently : Bool) (found : ℕ)
    (freed : Bool) : RemoveSys → Prop
  | returns (hat : s.poll = .entry) (hstate : s.driverState = .unregistering) :
    PollTimerMove thBhIsr s recently found freed { s with poll := .idle }
  | begins (hat : s.poll = .entry) (hstate : s.driverState ≠ .unregistering) :
    PollTimerMove thBhIsr s recently found freed { s with poll := .loop 0 }
  | skips {i : ℕ} (hat : s.poll = .loop i) (hi : i < maxDmaEngines)
    (hskip : (thBhIsr && recently) = true ∨ s.handled i ≠ true) :
    PollTimerMove thBhIsr s recently found freed { s with poll := .loop (i + 1) }
  | locks {i : ℕ} (hat : s.poll = .loop i) (hi : i < maxDmaEngines)
    (hhandled : s.handled i = true) (hfree : s.dmaFree = true) :
    PollTimerMove thBhIsr s recently found freed
      { s with poll := if found = 0 then .refill i else .retrieve i found }
  | rearms {i : ℕ} (hat : s.poll = .loop i) (hi : ¬ i < maxDmaEngines) :
    PollTimerMove thBhIsr s recently found freed { s with poll := .idle, pollTimer := true }
  | retrieved {i : ℕ} (hat : s.poll = .retrieve i 0) :
    PollTimerMove thBhIsr s recently found freed
      { s with poll := if freed then .put i else .loop (i + 1) }
  | counts {i n : ℕ} (hat : s.poll = .retrieve i (n + 1)) (hfree : s.statsFree = true) :
    PollTimerMove thBhIsr s recently found freed { s with poll := .count i n }
  | counted {i n : ℕ} (hat : s.poll = .count i n) :
    PollTimerMove thBhIsr s recently found freed { s with poll := .retrieve i n }
  | relocks {i : ℕ} (hat : s.poll = .put i) (hfree : s.dmaFree = true) :
    PollTimerMove thBhIsr s recently found freed { s with poll := .refill i }
  | unlocks {i : ℕ} (hat : s.poll = .refill i) :
    PollTimerMove thBhIsr s recently found freed { s with poll := .loop (i + 1) }

theorem pollTimerStep_move {recently freed : Bool} {found : ℕ}
    (hstep : pollTimerStep thBhIsr s recently found freed = some s') :
    PollTimerMove thBhIsr s recently found freed s' := by
  rw [pollTimerStep] at hstep
  cases hat : s.poll with
  | idle =>
    rw [hat] at hstep
    cases hstep
  | entry =>
    rw [hat] at hstep
    dsimp only at hstep
    split_ifs at hstep with hstate
    · cases hstep
      exact .returns hat hstate
    · cases hstep
      exact .begins hat hstate
  | loop i =>
    rw [hat] at hstep
    by_cases hi : i < maxDmaEngines
    · dsimp only at hstep
      rw [if_pos hi] at hstep
      by_cases hskip : (thBhIsr && recently) = true
      · rw [if_pos hskip] at hstep
        cases hstep
        exact .skips hat hi (Or.inl hskip)
      rw [if_neg hskip] at hstep
      by_cases hhandled : s.handled i = true
      · rw [if_pos hhandled] at hstep
        by_cases hfree : s.dmaFree = true
        · rw [if_pos hfree] at hstep
          cases hstep
          exact .locks hat hi hhandled hfree
        · rw [if_neg hfree] at hstep
          cases hstep
      · rw [if_neg hhandled] at hstep
        cases hstep
        exact .skips hat hi (Or.inr hhandled)
    · dsimp only at hstep
      rw [if_neg hi] at hstep
      cases hstep
      exact .rearms hat hi
  | retrieve i n =>
    rw [hat] at hstep
    cases n with
    | zero =>
      cases hstep
      exact .retrieved hat
    | succ n =>
      dsimp only at hstep
      split_ifs at hstep with hfree
      cases hstep
      exact .counts hat hfree
  | count i n =>
    rw [hat] at hstep
    cases hstep
    exact .counted hat
  | put i =>
    rw [hat] at hstep
    dsimp only at hstep
    split_ifs at hstep with hfree
    cases hstep
    exact .relocks hat hfree
  | refill i =>
    rw [hat] at hstep
    cases hstep
    exact .unlocks hat

/-- Neither does `poll_routine`. -/
theorem pollTimerStep_needs {recently freed : Bool} {found : ℕ} (hneeds : ¬ PollNeeds s)
    (hstep : pollTimerStep thBhIsr s recently found freed = some s') : ¬ PollNeeds s' := by
  unfold PollNeeds at hneeds
  cases pollTimerStep_move hstep with
  | returns => exact id
  | begins hat hstate =>
    rw [hat] at hneeds
    exact fun hleft => hneeds ⟨hstate, hleft⟩
  | skips hat =>
    rw [hat] at hneeds
    exact fun hleft => hneeds (Left.mono hleft)
  | locks hat hi hhandled =>
    rw [hat] at hneeds
    exact absurd ⟨_, hi, le_rfl, hhandled⟩ hneeds
  | rearms => exact id
  | unlocks hat =>
    rw [hat] at hneeds
    exact hneeds
  -- In the others the handler is on its way to the lock.
  | retrieved hat => exact absurd (by rw [hat]; trivial) hneeds
  | counts hat => exact absurd (by rw [hat]; trivial) hneeds
  | counted hat => exact absurd (by rw [hat]; trivial) hneeds
  | relocks hat => exact absurd (by rw [hat]; trivial) hneeds

/-- The two timers are apart. -/
theorem pollTimerStep_frame {recently freed : Bool} {found : ℕ}
    (hstep : pollTimerStep thBhIsr s recently found freed = some s') :
    s' = { s with poll := s'.poll, pollTimer := s'.pollTimer } := by
  cases pollTimerStep_move hstep <;> rfl

theorem statsTimerStep_frame (hstep : statsTimerStep s = some s') :
    s' = { s with stats := s'.stats, statsTimer := s'.statsTimer } := by
  cases statsTimerStep_move hstep <;> rfl

/-- **One step**: it leads to a deadlock exactly when it is not timely. -/
theorem deadlocked_step {a : RemoveAct} (h : ¬ Deadlocked s)
    (hstep : removeStep thBhIsr s a = some s') : ¬ Deadlocked s' ↔ TimelyRemoval s a := by
  cases a with
  | stats =>
    refine iff_of_true ?_ trivial
    have hframe := statsTimerStep_frame hstep
    rintro (⟨hat, hneeds⟩ | ⟨hat, hneeds⟩)
    · rw [hframe] at hat
      exact statsTimerStep_needs (fun hneeds => h (Or.inl ⟨hat, hneeds⟩)) hstep hneeds
    · rw [hframe] at hat hneeds
      exact h (Or.inr ⟨hat, hneeds⟩)
  | poll recently found freed =>
    refine iff_of_true ?_ trivial
    have hframe := pollTimerStep_frame hstep
    rintro (⟨hat, hneeds⟩ | ⟨hat, hneeds⟩)
    · rw [hframe] at hat hneeds
      exact h (Or.inl ⟨hat, hneeds⟩)
    · rw [hframe] at hat
      exact pollTimerStep_needs (fun hneeds => h (Or.inr ⟨hat, hneeds⟩)) hstep hneeds
  | statsFires =>
    rw [removeStep] at hstep
    split_ifs at hstep with hfires
    rw [Option.some.injEq] at hstep
    subst hstep
    constructor
    · intro hfree hat
      by_contra hboth
      rw [not_or, not_not] at hboth
      exact hfree (Or.inl ⟨hat, hboth⟩)
    · rintro htimely (⟨hat, hstate, hleft⟩ | ⟨hat, hneeds⟩)
      · exact (htimely hat).elim hstate fun hnone => hnone hleft
      · exact h (Or.inr ⟨hat, hneeds⟩)
  | pollFires =>
    rw [removeStep] at hstep
    split_ifs at hstep with hfires
    rw [Option.some.injEq] at hstep
    subst hstep
    constructor
    · intro hfree hat
      by_contra hboth
      rw [not_or, not_not] at hboth
      exact hfree (Or.inr ⟨hat, hboth⟩)
    · rintro htimely (⟨hat, hneeds⟩ | ⟨hat, hstate, hleft⟩)
      · exact h (Or.inl ⟨hat, hneeds⟩)
      · exact (htimely hat).elim hstate fun hnone => hnone hleft
  | remover unbind =>
    rw [removeStep, removerStep] at hstep
    cases hr : s.remover with
    | removing =>
      rw [hr] at hstep
      dsimp only at hstep
      split_ifs at hstep
      rw [Option.some.injEq] at hstep
      subst hstep
      constructor
      · exact fun hfree =>
          ⟨fun _ hneeds => hfree (Or.inl ⟨rfl, hneeds⟩), fun hat => by simp [hr] at hat⟩
      · rintro ⟨htimely, -⟩ (⟨-, hneeds⟩ | ⟨hat, -⟩)
        · exact htimely hr hneeds
        · cases hat
    | between =>
      rw [hr] at hstep
      dsimp only at hstep
      split_ifs at hstep
      rw [Option.some.injEq] at hstep
      subst hstep
      constructor
      · exact fun hfree =>
          ⟨fun hat => by simp [hr] at hat, fun _ hneeds => hfree (Or.inr ⟨rfl, hneeds⟩)⟩
      · rintro ⟨-, htimely⟩ (⟨hat, -⟩ | ⟨-, hneeds⟩)
        · cases hat
        · exact htimely hr hneeds
    | _ =>
      rw [hr] at hstep
      dsimp only at hstep
      refine iff_of_true ?_ ⟨fun hat => by simp [hr] at hat, fun hat => by simp [hr] at hat⟩
      try split_ifs at hstep
      all_goals first
        | cases hstep
          rintro (⟨hat, -⟩ | ⟨hat, -⟩) <;> cases hat
        | cases hstep

theorem probedTimers_free (engineMask assigned : ℕ → Bool) :
    ¬ Deadlocked (probedTimers engineMask assigned) := by
  rintro (⟨hat, -⟩ | ⟨hat, -⟩) <;> cases hat

/-- **Deadlock-free removal.** A run never comes to a state in which `xdma_remove` waits for a
handler that needs the lock it holds, exactly when all its steps are timely. -/
theorem removal_deadlockFree (thBhIsr : Bool) (engineMask assigned : ℕ → Bool)
    (acts : List RemoveAct) (s : RemoveSys)
    (hrun : run (removeStep thBhIsr) (probedTimers engineMask assigned) acts = some s) :
    Throughout (removeStep thBhIsr) (fun s => ¬ Deadlocked s) (probedTimers engineMask assigned)
        acts ↔
      Along (removeStep thBhIsr) TimelyRemoval (probedTimers engineMask assigned) acts :=
  throughout_iff_along (fun _ _ _ h hstep => deadlocked_step h hstep)
    (probedTimers_free engineMask assigned) hrun

/-- The removal that `xdma_cleanup` begins, with a tick of each timer before and during it. -/
def cleanRemoval : List RemoveAct :=
  [.statsFires, .pollFires, .remover false, .remover false, .stats, .poll false 0 true,
    .remover false, .remover false, .remover false, .remover false, .remover false, .remover false,
    .remover false, .remover false, .remover false]

theorem removal_deadlockFree_cleanRemoval : ∃ s,
    run (removeStep false) (probedTimers (fun i => i == 0) fun _ => true) cleanRemoval = some s ∧
    (Throughout (removeStep false) (fun s => ¬ Deadlocked s)
        (probedTimers (fun i => i == 0) fun _ => true) cleanRemoval ↔
      Along (removeStep false) TimelyRemoval (probedTimers (fun i => i == 0) fun _ => true)
        cleanRemoval) :=
  ⟨_, rfl, removal_deadlockFree false (fun i => i == 0) (fun _ => true) cleanRemoval _ rfl⟩

/-- **Unbound.** The device is unbound while `poll_stats` runs; or it is unbound, and the timer of
`poll_routine` fires while `xdma_remove` deletes it. From there on neither side gets any further. -/
theorem unbound :
    (∃ s, run (removeStep false) (probedTimers (fun i => i == 0) fun _ => true)
        [.statsFires, .stats, .remover true, .remover true] = some s ∧
      Deadlocked s ∧ (∀ unbind, removeStep false s (.remover unbind) = none) ∧
      removeStep false s .stats = none) ∧
    ∃ s, run (removeStep false) (probedTimers (fun i => i == 0) fun _ => true)
        [.remover true, .remover true, .remover true, .remover true, .remover true, .pollFires,
          .poll false 0 true] = some s ∧
      Deadlocked s ∧ (∀ unbind, removeStep false s (.remover unbind) = none) ∧
      ∀ found freed, removeStep false s (.poll false found freed) = none :=
  ⟨⟨_, rfl, Or.inl ⟨rfl, 0, by decide, le_rfl, rfl⟩, fun _ => rfl, rfl⟩,
    _, rfl, Or.inr ⟨rfl, 0, by decide, le_rfl, rfl⟩, fun _ => rfl, fun _ _ => rfl⟩

/-! ## Handlers that return -/

/-- More than the steps `poll_stats` has to take without a lock. -/
def StatsAt.rest : StatsAt → ℕ
  | .idle => 0
  | .tail => 1
  | .loop i => 2 + (maxDmaEngines - i)
  | .locked i => 3 + (maxDmaEngines - i)
  | .entry => 4 + maxDmaEngines

def PollAt.rest : PollAt → ℕ
  | .idle => 0
  | .loop i => 1 + (maxDmaEngines - i)
  | .refill i => 2 + (maxDmaEngines - i)
  | _ => 3 + maxDmaEngines

/-- `poll_stats` moves on while it does not need its lock. -/
theorem statsTimerStep_moves (hneeds : ¬ StatsNeeds s) (hrun : s.stats ≠ .idle) :
    ∃ s', statsTimerStep s = some s' ∧ s'.stats.rest < s.stats.rest := by
  unfold StatsNeeds at hneeds
  unfold statsTimerStep
  cases hs : s.stats with
  | idle => exact absurd hs hrun
  | entry =>
    dsimp only
    by_cases hstate : s.driverState = .unregistering
    · rw [if_pos hstate]
      exact ⟨_, rfl, Nat.succ_pos _⟩
    · rw [if_neg hstate]
      refine ⟨_, rfl, ?_⟩
      simp only [StatsAt.rest]
      omega
  | loop i =>
    rw [hs] at hneeds
    dsimp only at hneeds ⊢
    by_cases hi : i < maxDmaEngines
    · have hmask : s.engineMask i ≠ true := fun hmask => hneeds ⟨i, hi, le_rfl, hmask⟩
      rw [if_pos hi, if_neg hmask]
      refine ⟨_, rfl, ?_⟩
      simp only [StatsAt.rest]
      omega
    · rw [if_neg hi]
      refine ⟨_, rfl, ?_⟩
      simp only [StatsAt.rest]
      omega
  | locked i =>
    refine ⟨_, rfl, ?_⟩
    simp only [StatsAt.rest]
    omega
  | tail => exact ⟨_, rfl, Nat.one_pos⟩

theorem pollTimerStep_moves (thBhIsr : Bool) (hneeds : ¬ PollNeeds s) (hrun : s.poll ≠ .idle) :
    ∃ s', pollTimerStep thBhIsr s false 0 true = some s' ∧ s'.poll.rest < s.poll.rest := by
  unfold PollNeeds at hneeds
  unfold pollTimerStep
  cases hp : s.poll with
  | idle => exact absurd hp hrun
  | entry =>
    dsimp only
    by_cases hstate : s.driverState = .unregistering
    · rw [if_pos hstate]
      exact ⟨_, rfl, Nat.succ_pos _⟩
    · rw [if_neg hstate]
      refine ⟨_, rfl, ?_⟩
      simp only [PollAt.rest]
      omega
  | loop i =>
    rw [hp] at hneeds
    dsimp only at hneeds ⊢
    by_cases hi : i < maxDmaEngines
    · have hhandled : s.handled i ≠ true := fun hhandled => hneeds ⟨i, hi, le_rfl, hhandled⟩
      rw [if_pos hi, Bool.and_false, if_neg Bool.false_ne_true, if_neg hhandled]
      refine ⟨_, rfl, ?_⟩
      simp only [PollAt.rest]
      omega
    · rw [if_neg hi]
      refine ⟨_, rfl, ?_⟩
      simp only [PollAt.rest]
      omega
  | refill i =>
    refine ⟨_, rfl, ?_⟩
    simp only [PollAt.rest]
    omega
  | retrieve i n => exact absurd (by rw [hp]; trivial) hneeds
  | count i n => exact absurd (by rw [hp]; trivial) hneeds
  | put i => exact absurd (by rw [hp]; trivial) hneeds

/-- **Handlers return**: where `xdma_remove` waits without a deadlock, the handler it waits for gets
to its end without any help. -/
theorem handlers_return (h : ¬ Deadlocked s) :
    (s.remover = .delStats → ∃ n s', run (removeStep thBhIsr) s (List.replicate n .stats) = some s' ∧
      s'.stats = .idle) ∧
    (s.remover = .delPoll → ∃ n s', run (removeStep thBhIsr) s
      (List.replicate n (.poll false 0 true)) = some s' ∧ s'.poll = .idle) := by
  constructor
  · intro hat
    refine exists_run_replicate (I := fun s => ¬ StatsNeeds s) (fun s => s.stats.rest) ?_
      fun hneeds => h (Or.inl ⟨hat, hneeds⟩)
    intro s hneeds hrun
    obtain ⟨s', hs', hlt⟩ := statsTimerStep_moves hneeds hrun
    exact ⟨s', hs', statsTimerStep_needs hneeds hs', hlt⟩
  · intro hat
    refine exists_run_replicate (I := fun s => ¬ PollNeeds s) (fun s => s.poll.rest) ?_
      fun hneeds => h (Or.inr ⟨hat, hneeds⟩)
    intro s hneeds hrun
    obtain ⟨s', hs', hlt⟩ := pollTimerStep_moves thBhIsr hneeds hrun
    exact ⟨s', hs', pollTimerStep_needs hneeds hs', hlt⟩

end Dma
