import MyDriver.Rawdata.LockStep

/-!
# The order in which buffers come back, in the interrupt build

`IntrBH` and `poll_routine` may both be inside `PktHandler` for one engine. Each takes its packets
off the ring under `DmaLock` and calls `UserPutPkt` after it has let go of the lock. `OrderSys` runs
the two against each other and against the engine and the sender. It keeps books: the IDs given to
`Dma_BdRingToHw` so far, those passed to `UserPutPkt` so far, and which contexts hold packets, the
one that took them first at the front.

The raw data driver frees by count: `FreeUsedBuf` is told how many buffers come back, and frees as
many from the end of its window that was allocated first (`RxPoolInv`).

* `out_of_turn` — a context that took its packets later may return them first.
* `returned_inOrder` — **if packets are returned in turn, buffers come back in ring order**, and the
  buffers that the raw data driver has freed are those that have come back.
-/

namespace Dma

open Cyclic Runs

variable {υ : Type}

/-! ## The system -/

/-- The contexts that run `PktHandler`. -/
inductive Context where
  | intrBH
  | pollRoutine
deriving DecidableEq, Repr

/-- Where a context is in `PktHandler`. -/
inductive HandlerAt where
  | idle
  /-- Packets are to be given to `UserPutPkt`. -/
  | holding (pkts : List PktBuf)
  | refilling

def HandlerAt.pkts : HandlerAt → List PktBuf
  | .holding pkts => pkts
  | _ => []

structure OrderSys (υ : Type) where
  dev : Dev υ
  handler : Context → HandlerAt
  /-- The contexts that hold packets, in the order in which they took them. -/
  inFlight : List Context
  /-- The IDs given to `Dma_BdRingToHw`. -/
  queued : List U32
  /-- The IDs passed to `UserPutPkt`. -/
  returned : List U32

inductive OrderAct (υ : Type) where
  | retrieve (ctx : Context) (rd : ℕ → Mem) (bus : ℕ → U32)
  | put (ctx : Context)
  | refill (ctx : Context) (bus : ℕ → U32)
  | send (bus : ℕ → U32) (pkts : List PktBuf)
  /-- The user driver changes its state on its own. -/
  | user (u : υ)
  | engine (i : ℕ) (status usrl usrh : U32)

/-- The IDs of the BDs that a section has added to the Hardware group. -/
def newIds (c c' : Chan) : List U32 := (hwIds c').drop (hwIds c).length

/-- The second locked section of `PktHandler`. -/
def OrderSys.refill (user : UserPtrs υ) (s : OrderSys υ) (ctx : Context) (bus : ℕ → U32) :
    OrderSys υ :=
  let done := pktHandlerRefill user true bus s.dev
  { s with
    dev := done.1
    handler := Function.update s.handler ctx .idle
    queued := s.queued ++ newIds s.dev.chan done.1.chan }

def orderStep (user : UserPtrs υ) (s : OrderSys υ) : OrderAct υ → Option (OrderSys υ)
  | .retrieve ctx rd bus =>
    match s.handler ctx with
    | .idle =>
      let got := pktHandlerRetrieve rd s.dev.chan
      let s := { s with dev := { s.dev with chan := got.2.1 } }
      match got.1 with
      | none => some s
      -- Without packets the lock is kept until after the refill.
      | some [] => some (s.refill user ctx bus)
      | some pkts => some { s with
          handler := Function.update s.handler ctx (.holding pkts)
          inFlight := s.inFlight ++ [ctx] }
    | _ => none
  | .put ctx =>
    match s.handler ctx with
    | .holding pkts => some { s with
        dev := { s.dev with user := user.putPkt s.dev.user pkts }
        handler := Function.update s.handler ctx .refilling
        inFlight := s.inFlight.erase ctx
        returned := s.returned ++ pkts.map PktBuf.bufInfo }
    | _ => none
  | .refill ctx bus =>
    match s.handler ctx with
    | .refilling => some (s.refill user ctx bus)
    | _ => none
  | .send bus pkts =>
    -- The user drivers send complete packets.
    if WholePkts pkts then
      let sent := dmaSendPkt .initialized .userAssigned true bus pkts s.dev.chan s.dev.intrCount
      some { s with
        dev := { s.dev with chan := sent.2.1, intrCount := sent.2.2.1 }
        queued := s.queued ++ newIds s.dev.chan sent.2.1 }
    else none
  | .user u => some { s with dev := { s.dev with user := u } }
  | .engine i status usrl usrh =>
    some { s with dev := { s.dev with chan := engineWrite s.dev.chan i status usrl usrh } }

/-- An engine that has just been started. -/
def orderSys (dev : Dev υ) : OrderSys υ where
  dev := dev
  handler := fun _ => .idle
  inFlight := []
  queued := []
  returned := []

/-- Packets are returned in turn: a context calls `UserPutPkt` only when no other context holds
packets that were taken off the ring before its own. -/
def PutsInTurn (s : OrderSys υ) : OrderAct υ → Prop
  | .put ctx => s.inFlight.head? = some ctx
  | _ => True

instance (s : OrderSys υ) (a : OrderAct υ) : Decidable (PutsInTurn s a) := by
  cases a <;> unfold PutsInTurn <;> infer_instance

/-! ## Growth of the queue -/

theorem newIds_eq {c c' : Chan} {l : List U32} (h : hwIds c' = hwIds c ++ l) : newIds c c' = l := by
  rw [newIds, h, List.drop_left]

/-! ## The run -/

/-- **The invariant**: what has been queued is what has come back, what the contexts hold, in the
order in which they took it, and what is in the Hardware group. -/
structure Books (s : OrderSys υ) : Prop where
  settled : ∃ g, Settled s.dev.chan g
  nodup : s.inFlight.Nodup
  holds : ∀ ctx, ctx ∈ s.inFlight ↔ ∃ pkts, s.handler ctx = .holding pkts
  queued : s.queued = s.returned ++
    s.inFlight.flatMap (fun ctx => (s.handler ctx).pkts.map PktBuf.bufInfo) ++ hwIds s.dev.chan

variable {user : UserPtrs υ} {s s' : OrderSys υ} {ctx : Context}

/-- What the contexts hold depends on the contexts that hold something. -/
theorem flatMap_update {l : List Context} (hctx : ctx ∉ l) (handler : Context → HandlerAt)
    (a : HandlerAt) :
    l.flatMap (fun x => (Function.update handler ctx a x).pkts.map PktBuf.bufInfo) =
      l.flatMap (fun x => (handler x).pkts.map PktBuf.bufInfo) := by
  refine List.flatMap_congr fun x hx => ?_
  have hne : x ≠ ctx := fun heq => hctx (heq ▸ hx)
  rw [Function.update_of_ne hne]

theorem Books.not_mem (h : Books s) (hne : ∀ pkts, s.handler ctx ≠ .holding pkts) :
    ctx ∉ s.inFlight := fun hin => by
  obtain ⟨pkts, hpkts⟩ := (h.holds ctx).1 hin
  exact hne pkts hpkts

/-- A context that holds nothing moves on without taking anything. -/
theorem Books.holds_update (h : Books s) (hne : ∀ pkts, s.handler ctx ≠ .holding pkts)
    {a : HandlerAt} (ha : ∀ pkts, a ≠ .holding pkts) (x : Context) :
    x ∈ s.inFlight ↔ ∃ pkts, Function.update s.handler ctx a x = .holding pkts := by
  by_cases hx : x = ctx
  · subst hx
    rw [Function.update_self]
    exact ⟨fun hin => absurd hin (h.not_mem hne), fun ⟨pkts, hp⟩ => absurd hp (ha pkts)⟩
  · rw [Function.update_of_ne hx]
    exact h.holds x

theorem Books.refill (h : Books s) (hne : ∀ pkts, s.handler ctx ≠ .holding pkts)
    (bus : ℕ → U32) : Books (s.refill user ctx bus) := by
  obtain ⟨g, hs⟩ := h.settled
  obtain ⟨g', l, hs', -, hids, -⟩ := hs.refill_ids user true bus
  refine ⟨⟨g', hs'⟩, h.nodup, h.holds_update hne (fun _ hp => by cases hp), ?_⟩
  unfold OrderSys.refill
  dsimp only
  rw [flatMap_update (h.not_mem hne), newIds_eq hids, hids, h.queued]
  simp only [List.append_assoc]

theorem Books.retrieve (h : Books s) (hidle : s.handler ctx = .idle) {rd : ℕ → Mem}
    {bus : ℕ → U32} (hstep : orderStep user s (.retrieve ctx rd bus) = some s') : Books s' := by
  have hne : ∀ pkts, s.handler ctx ≠ .holding pkts := fun pkts hp => by
    rw [hidle] at hp
    cases hp
  obtain ⟨g, hs⟩ := h.settled
  obtain ⟨k, pkts, c', evs, hk, heq, hs', -, -, -, -, -, -, hids, hloads⟩ := hs.retrieve rd
  have htaken : hwIds s.dev.chan = pkts.map PktBuf.bufInfo ++ hwIds c' := by
    rw [hs.parts.hwIds_eq, hs'.parts.hwIds_eq, hloads, hids, ← List.map_append,
      List.take_append_drop]
  rw [orderStep, hidle] at hstep
  dsimp only at hstep
  rw [heq] at hstep
  have hqueued := h.queued
  rw [htaken] at hqueued
  cases pkts with
  | nil =>
    rw [Option.some.injEq] at hstep
    subst hstep
    exact Books.refill (s := { s with dev := { s.dev with chan := c' } })
      ⟨⟨_, hs'⟩, h.nodup, h.holds, hqueued⟩ hne bus
  | cons p ps =>
    rw [Option.some.injEq] at hstep
    subst hstep
    have hnot := h.not_mem hne
    refine ⟨⟨_, hs'⟩, ?_, fun x => ?_, ?_⟩
    · exact List.nodup_append.2 ⟨h.nodup, List.nodup_singleton _, fun a ha b hb hab => by
        rw [List.mem_singleton] at hb
        exact hnot (hb ▸ hab ▸ ha)⟩
    · by_cases hx : x = ctx
      · subst hx
        dsimp only
        rw [Function.update_self]
        exact ⟨fun _ => ⟨_, rfl⟩, fun _ => List.mem_append_right _ (List.mem_singleton_self _)⟩
      · dsimp only
        rw [Function.update_of_ne hx, ← h.holds x, List.mem_append, List.mem_singleton]
        exact or_iff_left hx
    · dsimp only
      rw [List.flatMap_append, flatMap_update hnot, hqueued]
      simp only [List.flatMap_cons, List.flatMap_nil, Function.update_self, HandlerAt.pkts,
        List.append_nil, List.append_assoc]

/-- The context at the front returns its packets. -/
theorem Books.put (h : Books s) {pkts : List PktBuf} (hhold : s.handler ctx = .holding pkts)
    (hturn : s.inFlight.head? = some ctx)
    (hstep : orderStep user s (.put ctx) = some s') : Books s' := by
  obtain ⟨rest, hrest⟩ : ∃ rest, s.inFlight = ctx :: rest := by
    cases hl : s.inFlight with
    | nil => rw [hl] at hturn; cases hturn
    | cons x xs =>
      rw [hl, List.head?_cons, Option.some.injEq] at hturn
      exact ⟨xs, by rw [hturn]⟩
  obtain ⟨hs, hnodup, hholds, hqueued⟩ := h
  rw [hrest] at hnodup hholds hqueued
  have hnot : ctx ∉ rest := (List.nodup_cons.1 hnodup).1
  rw [orderStep, hhold] at hstep
  dsimp only at hstep
  rw [hrest, List.erase_cons_head, Option.some.injEq] at hstep
  subst hstep
  refine ⟨hs, (List.nodup_cons.1 hnodup).2, fun x => ?_, ?_⟩
  · by_cases hx : x = ctx
    · subst hx
      dsimp only
      rw [Function.update_self]
      exact ⟨fun hin => absurd hin hnot, fun ⟨pkts, hp⟩ => by cases hp⟩
    · dsimp only
      rw [Function.update_of_ne hx, ← hholds x, List.mem_cons]
      exact (or_iff_right hx).symm
  · dsimp only
    rw [flatMap_update hnot, hqueued, List.flatMap_cons, hhold]
    simp only [HandlerAt.pkts, List.append_assoc]

/-- **One step.** -/
theorem orderStep_books {a : OrderAct υ} (h : Books s) (hok : PutsInTurn s a)
    (hstep : orderStep user s a = some s') : Books s' := by
  cases a with
  | retrieve ctx rd bus =>
    cases hh : s.handler ctx with
    | idle => exact h.retrieve hh hstep
    | holding => simp [orderStep, hh] at hstep
    | refilling => simp [orderStep, hh] at hstep
  | put ctx =>
    cases hh : s.handler ctx with
    | idle => simp [orderStep, hh] at hstep
    | refilling => simp [orderStep, hh] at hstep
    | holding pkts => exact h.put hh hok hstep
  | refill ctx bus =>
    cases hh : s.handler ctx with
    | idle => simp [orderStep, hh] at hstep
    | holding => simp [orderStep, hh] at hstep
    | refilling =>
      rw [orderStep, hh, Option.some.injEq] at hstep
      subst hstep
      exact h.refill (fun pkts hp => by rw [hh] at hp; cases hp) bus
  | send bus pkts =>
    rw [orderStep] at hstep
    split_ifs at hstep with hwhole
    rw [Option.some.injEq] at hstep
    subst hstep
    obtain ⟨g, hs⟩ := h.settled
    obtain ⟨g', l, hs', -, hids, -⟩ := hs.sendPkt_ids hwhole true bus s.dev.intrCount
    refine ⟨⟨g', hs'⟩, h.nodup, h.holds, ?_⟩
    dsimp only
    rw [newIds_eq hids, hids, h.queued]
    simp only [List.append_assoc]
  | user u =>
    rw [orderStep, Option.some.injEq] at hstep
    subst hstep
    exact ⟨h.settled, h.nodup, h.holds, h.queued⟩
  | engine i status usrl usrh =>
    rw [orderStep, Option.some.injEq] at hstep
    subst hstep
    obtain ⟨g, hs⟩ := h.settled
    obtain ⟨hs', hloads⟩ := hs.engineWrite i status usrl usrh
    refine ⟨⟨g, hs'⟩, h.nodup, h.holds, ?_⟩
    dsimp only
    rw [hs'.parts.hwIds_eq, hloads, ← hs.parts.hwIds_eq, h.queued]

theorem orderSys_books {dev : Dev υ} {isRx : Bool} (hdev : Started isRx dev.chan) :
    Books (orderSys dev) := by
  obtain ⟨g, hs, hhw, -⟩ := hdev.settled
  refine ⟨⟨g, hs⟩, List.nodup_nil, fun ctx => ⟨fun hin => ?_, fun hp => ?_⟩, ?_⟩
  · cases hin
  · obtain ⟨pkts, hp⟩ := hp
    cases hp
  · show [] = [] ++ [] ++ hwIds dev.chan
    rw [hs.parts.hwIds_eq, hwLoads, hhw]
    rfl

/-! ## Freeing by count -/

/-- What the raw data driver does on its own leaves its pool for reception alone: it takes buffers
from it and gives them back in its callbacks only. -/
def SparesRxPool (s : OrderSys RawData) : OrderAct RawData → Prop
  | .user u => u = { s.dev.user with txBufs := u.txBufs, txSeqNo := u.txSeqNo }
  | _ => True

/-- The packets the contexts hold, the first that were taken at the front. -/
def OrderSys.held (s : OrderSys υ) : List PktBuf :=
  s.inFlight.flatMap fun ctx => (s.handler ctx).pkts

/-- **The invariant of the pool**: the window is what the contexts hold, then the Hardware group. -/
structure RxPoolInv (hndl : U32) (bufVA : ℕ → U32) (num : ℕ) (s : OrderSys RawData) : Prop where
  registered : s.dev.user.driverState = .registered
  handle : s.dev.user.handle2 = hndl
  side : ∃ g, Side bufVA num true s.dev.user.rxBufs s.dev.chan s.held [] g

section Pool

variable {hndl : U32} {bufVA : ℕ → U32} {num : ℕ} {s s' : OrderSys RawData} {ctx : Context}

/-- What has been queued has come back or is in the window. -/
theorem RxPoolInv.queued (h : RxPoolInv hndl bufVA num s) (hbooks : Books s) :
    s.queued = s.returned ++ window s.dev.user.rxBufs := by
  obtain ⟨-, -, g, hside⟩ := h
  have hheld : ids s.held =
      s.inFlight.flatMap fun ctx => (s.handler ctx).pkts.map PktBuf.bufInfo := by
    rw [ids, OrderSys.held, List.map_flatMap]
  have hempty : ids [] = [] := rfl
  rw [hbooks.queued, hside.window, hside.settled.parts.hwIds_eq, hheld, hempty, List.append_nil,
    List.append_assoc]

/-- A context that holds nothing moves on. -/
theorem held_update (hnot : ctx ∉ s.inFlight) (a : HandlerAt) :
    s.inFlight.flatMap (fun x => (Function.update s.handler ctx a x).pkts) = s.held := by
  refine List.flatMap_congr fun x hx => ?_
  have hother : x ≠ ctx := fun heq => hnot (heq ▸ hx)
  rw [Function.update_of_ne hother]

theorem RxPoolInv.refill (h : RxPoolInv hndl bufVA num s) (hnot : ctx ∉ s.inFlight)
    (bus : ℕ → U32) : RxPoolInv hndl bufVA num (s.refill (rxUser hndl) ctx bus) := by
  obtain ⟨hreg, rfl, g, hside⟩ := h
  obtain ⟨g', hsame, hside'⟩ := hside.refill hreg true bus
  have huser : (s.refill (rxUser s.dev.user.handle2) ctx bus).dev.user = { s.dev.user with
      rxBufs := (s.refill (rxUser s.dev.user.handle2) ctx bus).dev.user.rxBufs } := hsame
  have hheld : (s.refill (rxUser s.dev.user.handle2) ctx bus).held = s.held := held_update hnot _
  refine ⟨?_, ?_, g', ?_⟩
  · rw [huser]
    exact hreg
  · rw [huser]
  · rw [hheld]
    exact hside'

theorem RxPoolInv.retrieve (h : RxPoolInv hndl bufVA num s) (hnot : ctx ∉ s.inFlight)
    (hidle : s.handler ctx = .idle) {rd : ℕ → Mem} {bus : ℕ → U32}
    (hstep : orderStep (rxUser hndl) s (.retrieve ctx rd bus) = some s') :
    RxPoolInv hndl bufVA num s' := by
  obtain ⟨hreg, hhandle, g, hside⟩ := h
  obtain ⟨pkts, c', evs, g', heq, hside'⟩ := hside.retrieve rd
  rw [orderStep, hidle] at hstep
  dsimp only at hstep
  rw [heq] at hstep
  cases pkts with
  | nil =>
    rw [Option.some.injEq] at hstep
    subst hstep
    rw [List.append_nil] at hside'
    exact RxPoolInv.refill (s := { s with dev := { s.dev with chan := c' } })
      ⟨hreg, hhandle, g', hside'⟩ hnot bus
  | cons p ps =>
    rw [Option.some.injEq] at hstep
    subst hstep
    have hheld : (s.inFlight ++ [ctx]).flatMap
        (fun x => (Function.update s.handler ctx (.holding (p :: ps)) x).pkts) =
          s.held ++ (p :: ps) := by
      rw [List.flatMap_append, held_update hnot, List.flatMap_singleton, Function.update_self]
      rfl
    refine ⟨hreg, hhandle, g', ?_⟩
    unfold OrderSys.held
    dsimp only
    rw [hheld]
    exact hside'

/-- The packets that are returned in turn are the first of the window. -/
theorem RxPoolInv.first (h : RxPoolInv hndl bufVA num s) {pkts : List PktBuf}
    (hhold : s.handler ctx = .holding pkts) (hturn : s.inFlight.head? = some ctx) :
    ∃ rest g, s.inFlight = ctx :: rest ∧ Side bufVA num true s.dev.user.rxBufs s.dev.chan
      (pkts ++ rest.flatMap fun x => (s.handler x).pkts) [] g := by
  obtain ⟨-, -, g, hside⟩ := h
  obtain ⟨rest, hrest⟩ := List.head?_eq_some_iff.1 hturn
  rw [OrderSys.held, hrest, List.flatMap_cons, hhold] at hside
  exact ⟨rest, g, hrest, hside⟩

theorem RxPoolInv.putRx_eq (h : RxPoolInv hndl bufVA num s) (pkts : List PktBuf) :
    (rxUser hndl).putPkt s.dev.user pkts =
      { s.dev.user with rxBufs := putBufs pkts s.dev.user.rxBufs } := by
  obtain ⟨hreg, rfl, -⟩ := h
  exact myPutRxPkt_eq hreg pkts

/-- What is passed back in turn is what `FreeUsedBuf` frees. -/
theorem RxPoolInv.frees (h : RxPoolInv hndl bufVA num s) {pkts : List PktBuf}
    (hhold : s.handler ctx = .holding pkts) (hturn : s.inFlight.head? = some ctx) :
    window s.dev.user.rxBufs =
      ids pkts ++ window ((rxUser hndl).putPkt s.dev.user pkts).rxBufs := by
  obtain ⟨rest, g, -, hside⟩ := h.first hhold hturn
  rw [h.putRx_eq]
  exact hside.putFirst.2

theorem RxPoolInv.put (h : RxPoolInv hndl bufVA num s) (hnodup : s.inFlight.Nodup)
    {pkts : List PktBuf} (hhold : s.handler ctx = .holding pkts)
    (hturn : s.inFlight.head? = some ctx)
    (hstep : orderStep (rxUser hndl) s (.put ctx) = some s') : RxPoolInv hndl bufVA num s' := by
  obtain ⟨rest, g, hrest, hside⟩ := h.first hhold hturn
  have hnot : ctx ∉ rest := by
    rw [hrest] at hnodup
    exact (List.nodup_cons.1 hnodup).1
  have hheld : (s.inFlight.erase ctx).flatMap
      (fun x => (Function.update s.handler ctx .refilling x).pkts) =
        rest.flatMap fun x => (s.handler x).pkts := by
    rw [hrest, List.erase_cons_head]
    exact held_update (s := { s with inFlight := rest }) hnot _
  rw [orderStep, hhold] at hstep
  dsimp only at hstep
  rw [h.putRx_eq, Option.some.injEq] at hstep
  subst hstep
  refine ⟨h.registered, h.handle, g, ?_⟩
  unfold OrderSys.held
  dsimp only
  rw [hheld]
  exact hside.putFirst.1

/-- **One step**, for the pool. -/
theorem orderStep_pool {a : OrderAct RawData} (hbooks : Books s) (h : RxPoolInv hndl bufVA num s)
    (hturn : PutsInTurn s a) (hspares : SparesRxPool s a)
    (hstep : orderStep (rxUser hndl) s a = some s') : RxPoolInv hndl bufVA num s' := by
  cases a with
  | retrieve ctx rd bus =>
    cases hh : s.handler ctx with
    | idle => exact h.retrieve (hbooks.not_mem fun pkts hp => by rw [hh] at hp; cases hp) hh hstep
    | holding => simp [orderStep, hh] at hstep
    | refilling => simp [orderStep, hh] at hstep
  | put ctx =>
    cases hh : s.handler ctx with
    | idle => simp [orderStep, hh] at hstep
    | refilling => simp [orderStep, hh] at hstep
    | holding pkts => exact h.put hbooks.nodup hh hturn hstep
  | refill ctx bus =>
    cases hh : s.handler ctx with
    | idle => simp [orderStep, hh] at hstep
    | holding => simp [orderStep, hh] at hstep
    | refilling =>
      rw [orderStep, hh, Option.some.injEq] at hstep
      subst hstep
      exact h.refill (hbooks.not_mem fun pkts hp => by rw [hh] at hp; cases hp) bus
  | send bus pkts =>
    obtain ⟨hreg, hhandle, g, hside⟩ := h
    rw [orderStep, dmaSendPkt_rx hside.dir] at hstep
    split_ifs at hstep
    rw [Option.some.injEq] at hstep
    subst hstep
    exact ⟨hreg, hhandle, g, hside⟩
  | user u =>
    obtain ⟨hreg, hhandle, g, hside⟩ := h
    have hsame : u = { s.dev.user with txBufs := u.txBufs, txSeqNo := u.txSeqNo } := hspares
    rw [orderStep, hsame, Option.some.injEq] at hstep
    subst hstep
    exact ⟨hreg, hhandle, g, hside⟩
  | engine i status usrl usrh =>
    obtain ⟨hreg, hhandle, g, hside⟩ := h
    rw [orderStep, Option.some.injEq] at hstep
    subst hstep
    exact ⟨hreg, hhandle, g, hside.engineWrite i status usrl usrh⟩

end Pool

/-- **In turn, buffers come back in ring order**: those that have come back are the first that were
queued. And the raw data driver, which frees by count, has freed those that have come back and no
others: the window has all others, and a call in turn frees what it is given. -/
theorem returned_inOrder (user : UserPtrs υ) (dev : Dev υ) (isRx : Bool)
    (hdev : Started isRx dev.chan) (acts : List (OrderAct υ)) (s : OrderSys υ)
    (hok : Along (orderStep user) PutsInTurn (orderSys dev) acts)
    (hrun : run (orderStep user) (orderSys dev) acts = some s) :
    s.returned <+: s.queued ∧
    ∀ (hndl : U32) (bufVA : ℕ → U32) (num : ℕ) (raw : Dev RawData), Started true raw.chan →
      raw.user.driverState = .registered → raw.user.handle2 = hndl →
      raw.user.rxBufs = initBuffers bufVA num →
      ∀ (acts : List (OrderAct RawData)) (t : OrderSys RawData),
        Along (orderStep (rxUser hndl)) PutsInTurn (orderSys raw) acts →
        Along (orderStep (rxUser hndl)) SparesRxPool (orderSys raw) acts →
        run (orderStep (rxUser hndl)) (orderSys raw) acts = some t →
        t.queued = t.returned ++ window t.dev.user.rxBufs ∧
        ∀ ctx pkts, t.handler ctx = .holding pkts → t.inFlight.head? = some ctx →
          window t.dev.user.rxBufs =
            ids pkts ++ window ((rxUser hndl).putPkt t.dev.user pkts).rxBufs := by
  constructor
  · have hbooks : Books s := run_inv (fun s a s' h hok hstep => orderStep_books h hok hstep)
      (orderSys_books hdev) hok hrun
    rw [hbooks.queued, List.append_assoc]
    exact List.prefix_append _ _
  · intro hndl bufVA num raw hraw hreg hhandle hpool acts t hok hspares hrun
    obtain ⟨g, hs, hhw, hrx⟩ := hraw.settled
    have hside : Side bufVA num true raw.user.rxBufs raw.chan [] [] g := by
      refine ⟨hs, hrx, hpool ▸ initBuffers_pooled bufVA num, ?_, fun ⟨p, hp, _⟩ => by cases hp⟩
      rw [hpool, hwLoads, hhw]
      rfl
    obtain ⟨hbooks, hinv⟩ := run_inv (I := fun t => Books t ∧ RxPoolInv hndl bufVA num t)
      (fun s a s' h hok hstep => ⟨orderStep_books h.1 hok.1 hstep,
        orderStep_pool h.1 h.2 hok.1 hok.2 hstep⟩)
      ⟨orderSys_books hraw, hreg, hhandle, g, hside⟩ (along_and hok hspares) hrun
    exact ⟨hinv.queued hbooks, fun ctx pkts hhold hturn => hinv.frees hhold hturn⟩

/-! ## Two batches -/

/-- Memory in which the status word at `a` is that of a complete packet of 100 bytes. -/
def packetAt (a : U32) : ℕ → Mem := fun _ x => if x = a then 0x4D000064 else 0

/-- `poll_routine` takes the first packet, `IntrBH` the second. -/
def twoBatches : List (OrderAct RawData) :=
  [.retrieve .pollRoutine (fun _ _ => 0) (fun i => BitVec.ofNat 32 (0x5000 * i)),
    .engine 0 0x4D000064 0 0, .retrieve .pollRoutine (packetAt 0x2000) fun _ => 0,
    .engine 1 0x4D000064 0 0, .retrieve .intrBH (packetAt 0x2040) fun _ => 0]

theorem returned_inOrder_twoBatches : ∃ s,
    run (orderStep (rxUser 9)) (orderSys twoPages) (twoBatches ++ [.put .pollRoutine]) = some s ∧
    s.returned <+: s.queued ∧ s.queued = s.returned ++ window s.dev.user.rxBufs ∧
    ∀ ctx pkts, s.handler ctx = .holding pkts → s.inFlight.head? = some ctx →
      window s.dev.user.rxBufs =
        ids pkts ++ window ((rxUser 9).putPkt s.dev.user pkts).rxBufs := by
  have hdev : Started true twoPages.chan :=
    ⟨initializedChan true fun _ => 0, 0, 0x2000, 64, 5, rfl, by decide, by decide, rfl⟩
  have hall := returned_inOrder (rxUser 9) twoPages true hdev (twoBatches ++ [.put .pollRoutine]) _
    (by decide) rfl
  refine ⟨_, rfl, hall.1, ?_⟩
  exact hall.2 9 _ 2 twoPages hdev rfl rfl rfl (twoBatches ++ [.put .pollRoutine]) _ (by decide)
    (along_of_forall (by simp [twoBatches, SparesRxPool])) rfl

/-- **Out of turn.** `IntrBH` returns the second page before `poll_routine` returns the first, and
the pool then takes the first page, which `poll_routine` still holds, for free. -/
theorem out_of_turn : ∃ s s',
    run (orderStep (rxUser 9)) (orderSys twoPages) (twoBatches ++ [.put .intrBH]) = some s ∧
    run (orderStep (rxUser 9)) s [.put .pollRoutine] = some s' ∧
    window s.dev.user.rxBufs = [0x21000] ∧ s.returned = [0x21000] ∧
    ¬ s'.returned.Sublist s'.queued :=
  ⟨_, _, rfl, rfl, by decide, by decide, by decide⟩

end Dma
