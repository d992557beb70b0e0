import MyDriver.Lib.Bytes
import MyDriver.Lib.Cells
import MyDriver.Xdma.Creation

/-!
# The fields of the BDs do not disturb each other

The setters and getters of `xdma_bd.h` are macros over `XIo_In32` and `XIo_Out32`. `Access.set` and
`Access.get` are these macros, field by field, for any memory with two such functions. Over memory
by word they are the setters and getters of the other modules (`wordAccess_set`, `wordAccess_get`);
over bytes they are what the machine does.

A memory whose aligned words behave shows the setters as the word memory has them
(`Access.Lawful.words_set`), so that the effect of each on the words of its BD, which is known
there, carries over. From it comes that the fields of BDs on multiples of 64 are independent
(`Access.Lawful.independent`).

* `fields_independent` — **the fields of all BDs of a ring are independent** in byte memory.
-/

namespace Dma

open Cells Words

/-! ## Fields -/

inductive Field where
  | ctrl
  | status
  | ctrlLength
  | statLength
  | id
  | bufAddr
  | userData
deriving DecidableEq

/-- What a setter of the field takes and its getter returns. -/
abbrev Field.Val : Field → Type
  | .userData => BitVec 64
  | _ => U32

/-- What is left of a value in its field. -/
def Field.kept : (f : Field) → f.Val → f.Val
  | .ctrl, data => data &&& bdCtrlMask
  | .status, data => data &&& bdStatusMask
  | .ctrlLength, lenBytes => lenBytes &&& bdBuflMask
  | .statLength, lenBytes => lenBytes &&& bdBuflMask
  | .id, value => value
  | .bufAddr, addr => addr
  | .userData, user => user

/-- `XIo_In32` and `XIo_Out32` on some memory. -/
structure Access (μ : Type) where
  in32 : μ → U32 → U32
  out32 : μ → U32 → U32 → μ

namespace Access

variable {μ : Type} (A : Access μ)

def read (m : μ) (baseAddress offset : U32) : U32 := A.in32 m (baseAddress + offset)

def write (m : μ) (baseAddress offset data : U32) : μ := A.out32 m (baseAddress + offset) data

/-- The setters of `xdma_bd.h`. -/
def set : (f : Field) → μ → U32 → f.Val → μ
  | .ctrl, m, bdPtr, data =>
    A.write m bdPtr bdBuflCtrlOffset
      (A.read m bdPtr bdBuflCtrlOffset &&& bdBuflMask ||| data &&& bdCtrlMask)
  | .status, m, bdPtr, data =>
    A.write m bdPtr bdBuflStatusOffset
      (A.read m bdPtr bdBuflStatusOffset &&& bdBuflMask ||| data &&& bdStatusMask)
  | .ctrlLength, m, bdPtr, lenBytes =>
    A.write m bdPtr bdBuflCtrlOffset
      (A.read m bdPtr bdBuflCtrlOffset &&& bdCtrlMask ||| lenBytes &&& bdBuflMask)
  | .statLength, m, bdPtr, lenBytes =>
    A.write m bdPtr bdBuflStatusOffset
      (A.read m bdPtr bdBuflStatusOffset &&& bdStatusMask ||| lenBytes &&& bdBuflMask)
  | .id, m, bdPtr, value => A.write m bdPtr bdVbufalOffset value
  | .bufAddr, m, bdPtr, addr =>
    A.write (A.write m bdPtr bdBufalOffset addr) bdPtr bdBufahOffset 0
  | .userData, m, bdPtr, user =>
    A.write (A.write m bdPtr bdUsrlOffset (user.setWidth 32)) bdPtr bdUsrhOffset
      ((user >>> 32).setWidth 32)

/-- The getters of `xdma_bd.h`. -/
def get : (f : Field) → μ → U32 → f.Val
  | .ctrl, m, bdPtr => A.read m bdPtr bdBuflCtrlOffset &&& bdCtrlMask
  | .status, m, bdPtr => A.read m bdPtr bdBuflStatusOffset &&& bdStatusMask
  | .ctrlLength, m, bdPtr => A.read m bdPtr bdBuflCtrlOffset &&& bdBuflMask
  | .statLength, m, bdPtr => A.read m bdPtr bdBuflStatusOffset &&& bdBuflMask
  | .id, m, bdPtr => A.read m bdPtr bdVbufalOffset
  | .bufAddr, m, bdPtr => A.read m bdPtr bdBufalOffset
  | .userData, m, bdPtr =>
    (A.read m bdPtr bdUsrhOffset).setWidth 64 <<< 32 ||| (A.read m bdPtr bdUsrlOffset).setWidth 64

/-- Aligned words are kept, and do not overlap. -/
structure Lawful : Prop where
  same : ∀ m a v, 4 ∣ a.toNat → A.in32 (A.out32 m a v) a = v
  other : ∀ m a c v, 4 ∣ a.toNat → 4 ∣ c.toNat → a ≠ c → A.in32 (A.out32 m a v) c = A.in32 m c

end Access

/-- Memory by word. -/
def wordAccess : Access Mem where
  in32 m a := m a
  out32 := Function.update

/-- Memory by byte: `readl` and `writel`. -/
def byteAccess : Access (ByteMem 32) where
  in32 := load
  out32 := store

theorem byteAccess_lawful : byteAccess.Lawful where
  same m a v _ := load_store m a v (by omega)
  other m a c v ha hc hne := load_store_of_apart m (apart_of_dvd (by decide) ha hc hne) v

/-! ## The two views -/

/-- A setter of the other modules. -/
def Field.set : (f : Field) → Mem → U32 → f.Val → Mem
  | .ctrl => bdSetCtrl
  | .status => bdSetStatus
  | .ctrlLength => bdSetCtrlLength
  | .statLength => bdSetStatLength
  | .id => bdSetId
  | .bufAddr => bdSetBufAddr
  | .userData => bdSetUserData

def Field.get : (f : Field) → Mem → U32 → f.Val
  | .ctrl => bdGetCtrl
  | .status => bdGetStatus
  | .ctrlLength => bdGetCtrlLength
  | .statLength => bdGetStatLength
  | .id => bdGetId
  | .bufAddr => bdGetBufAddr
  | .userData => bdGetUserData

theorem wordAccess_set (f : Field) : wordAccess.set f = f.set := by
  cases f <;> rfl

theorem wordAccess_get (f : Field) : wordAccess.get f = f.get := by
  cases f <;> rfl

namespace Access

variable {μ : Type} {A : Access μ} {m : μ} {bd : U32}

theorem get_eq (A : Access μ) (f : Field) (m : μ) (bd : U32) :
    A.get f m bd = f.get (A.in32 m) bd := by
  cases f <;> rfl

/-- The words of a BD are aligned. -/
theorem aligned_word (hbd : 64 ∣ bd.toNat) {offset : U32} (hoffset : 4 ∣ offset.toNat) :
    4 ∣ (bd + offset).toNat :=
  dvd_toNat_add (by decide) (dvd_trans (by decide) hbd) hoffset

namespace Lawful

theorem in32_write (h : A.Lawful) (hbd : 64 ∣ bd.toNat) {offset : U32} (hoffset : 4 ∣ offset.toNat)
    (data : U32) {M : Mem} (hM : ∀ a, 4 ∣ a.toNat → A.in32 m a = M a) {a : U32}
    (ha : 4 ∣ a.toNat) : A.in32 (A.write m bd offset data) a = bdWrite M bd offset data a := by
  have hword := aligned_word hbd hoffset
  rw [write, bdWrite, Function.update_apply]
  split_ifs with hsame
  · rw [hsame, h.same m _ data hword]
  · rw [h.other m _ _ data hword ha (Ne.symm hsame), hM a ha]

/-- **A setter, seen through aligned words**, is the setter on the word memory. -/
theorem in32_set (h : A.Lawful) (hbd : 64 ∣ bd.toNat) (f : Field) (v : f.Val) {a : U32}
    (ha : 4 ∣ a.toNat) : A.in32 (A.set f m bd v) a = f.set (A.in32 m) bd v a := by
  have hrefl : ∀ a, 4 ∣ a.toNat → A.in32 m a = A.in32 m a := fun _ _ => rfl
  cases f with
  | ctrl => exact h.in32_write hbd (by decide) _ hrefl ha
  | status => exact h.in32_write hbd (by decide) _ hrefl ha
  | ctrlLength => exact h.in32_write hbd (by decide) _ hrefl ha
  | statLength => exact h.in32_write hbd (by decide) _ hrefl ha
  | id => exact h.in32_write hbd (by decide) _ hrefl ha
  | bufAddr =>
    exact h.in32_write hbd (by decide) _ (fun _ => h.in32_write hbd (by decide) _ hrefl) ha
  | userData =>
    exact h.in32_write hbd (by decide) _ (fun _ => h.in32_write hbd (by decide) _ hrefl) ha

theorem words_set (h : A.Lawful) {bd' : U32} (hbd : 64 ∣ bd.toNat) (hbd' : 64 ∣ bd'.toNat)
    (f : Field) (v : f.Val) :
    bdWords (A.in32 (A.set f m bd v)) bd' = bdWords (f.set (A.in32 m) bd v) bd' := by
  ext1 <;> exact h.in32_set hbd f v (aligned_word hbd' (by decide))

end Lawful

end Access

/-! ## Independence -/

namespace Field

/-- What a field holds, by the words of its BD. -/
def val : (f : Field) → BdWords → f.Val
  | .ctrl, w => w.ctrl &&& bdCtrlMask
  | .status, w => w.status &&& bdStatusMask
  | .ctrlLength, w => w.ctrl &&& bdBuflMask
  | .statLength, w => w.status &&& bdBuflMask
  | .id, w => w.vbufal
  | .bufAddr, w => w.bufal
  | .userData, w => w.usrh.setWidth 64 <<< 32 ||| w.usrl.setWidth 64

/-- What the setter of a field does to the words of its BD. -/
def eff : (f : Field) → f.Val → BdWords → BdWords
  | .ctrl, data, w => { w with ctrl := w.ctrl &&& bdBuflMask ||| data &&& bdCtrlMask }
  | .status, data, w => { w with status := w.status &&& bdBuflMask ||| data &&& bdStatusMask }
  | .ctrlLength, len, w => { w with ctrl := w.ctrl &&& bdCtrlMask ||| len &&& bdBuflMask }
  | .statLength, len, w => { w with status := w.status &&& bdStatusMask ||| len &&& bdBuflMask }
  | .id, value, w => { w with vbufal := value }
  | .bufAddr, addr, w => { w with bufal := addr, bufah := 0 }
  | .userData, user, w =>
    { w with usrl := user.setWidth 32, usrh := (user >>> 32).setWidth 32 }

theorem get_eq_val (f : Field) (m : Mem) (bd : U32) : f.get m bd = f.val (bdWords m bd) := by
  cases f <;> rfl

theorem edits_set (f : Field) (v : f.Val) : Edits (fun m bd => f.set m bd v) (f.eff v) := by
  cases f with
  | ctrl => exact edits_setCtrl v
  | status => exact edits_setStatus v
  | ctrlLength => exact edits_setCtrlLength v
  | statLength => exact edits_setStatLength v
  | id => exact edits_setId v
  | bufAddr => exact edits_setBufAddr v
  | userData => exact edits_setUserData v

/-- The two halves of a double word make it up. -/
theorem append_halves (user : BitVec 64) :
    ((user >>> 32).setWidth 32).setWidth 64 <<< 32 ||| (user.setWidth 32).setWidth 64 = user := by
  apply BitVec.eq_of_getLsbD_eq
  intro i hi
  by_cases hlow : i < 32
  · simp [hlow, hi]
  · have hhigh : i - 32 < 32 := by omega
    simp [hlow, hi, hhigh, Nat.add_sub_cancel' (not_lt.1 hlow)]

theorem val_eff (f : Field) (v : f.Val) (w : BdWords) : f.val (f.eff v w) = f.kept v := by
  cases f with
  | ctrl => exact merge_and_right (by decide) _ v
  | status => exact merge_and_right (by decide) _ v
  | ctrlLength => exact merge_and_right (by decide) _ v
  | statLength => exact merge_and_right (by decide) _ v
  | id => rfl
  | bufAddr => rfl
  | userData => exact append_halves v

/-- **The setters of the other fields** leave a field of the same BD alone. -/
theorem val_eff_of_ne {f g : Field} (hne : f ≠ g) (v : g.Val) (w : BdWords) :
    f.val (g.eff v w) = f.val w := by
  -- Fields in one word have disjoint masks, and the others have words of their own.
  cases f <;> cases g <;>
    first | exact absurd rfl hne | rfl | exact merge_and_left (by decide) _ v

end Field

/-- A BD of the ring, by its address. -/
abbrev RingBd (r : BdRing) := {bd : U32 // ∃ x, bd = bdAt r x}

/-- A call of the setter of a field on a BD of the ring. -/
abbrev SetterCall (r : BdRing) := Write fun k : RingBd r × Field => k.2.Val

namespace Access

variable {μ : Type} {A : Access μ}

/-- Calls of setters, one after the other. -/
def setAll (A : Access μ) {r : BdRing} (m : μ) (calls : List (SetterCall r)) : μ :=
  run (fun m k v => A.set k.2 m k.1 v) m calls

/-- **The fields of aligned BDs are independent.** -/
theorem Lawful.independent (h : A.Lawful) {r : BdRing} (hr : ∀ x, 64 ∣ (bdAt r x).toNat) :
    Independent (fun m (k : RingBd r × Field) => A.get k.2 m k.1)
      (fun m k v => A.set k.2 m k.1 v) fun k => k.2.kept where
  same m := by
    rintro ⟨⟨bd, x, rfl⟩, f⟩ v
    dsimp only at v ⊢
    rw [get_eq, f.get_eq_val, h.words_set (hr x) (hr x), (f.edits_set v).words, f.val_eff]
  other m := by
    rintro ⟨⟨bd', y, rfl⟩, f⟩ ⟨⟨bd, x, rfl⟩, g⟩ v hne
    dsimp only at v ⊢
    rw [get_eq, get_eq, f.get_eq_val, f.get_eq_val, h.words_set (hr x) (hr y)]
    by_cases hbd : bdAt r x = bdAt r y
    · have hfield : f ≠ g := fun hfg => hne (by simp only [hbd, hfg])
      rw [← hbd, (g.edits_set v).words, Field.val_eff_of_ne hfield]
    · rw [((g.edits_set v).touches _ _).words fun b hb => ?_]
      rw [List.mem_singleton.1 hb]
      exact apart_of_dvd (by decide) (hr x) (hr y) hbd

end Access

/-- The BDs of a created ring stand on multiples of 64, also when the ring wraps. -/
theorem created_aligned {c : Chan} {physAddr virtAddr alignment bdCount : U32}
    (hok : (bdRingCreate c physAddr virtAddr alignment bdCount).1 = .success) (x : ℕ) :
    64 ∣ (bdAt (bdRingCreate c physAddr virtAddr alignment bdCount).2.ring x).toNat := by
  obtain ⟨hgood, -⟩ := create_success_iff.1 hok
  have halign : 64 ∣ alignment.toNat := by
    obtain ⟨k, hk⟩ := hgood.power
    have hmin : 2 ^ 6 ≤ alignment.toNat := hgood.minimum
    rw [hk] at hmin ⊢
    exact pow_dvd_pow 2 ((Nat.pow_le_pow_iff_right (by omega)).1 hmin)
  rw [bdAt, (create_success hok).2.2.2]
  exact dvd_toNat_add (by decide) (dvd_trans halign hgood.virt)
    (dvd_toNat_mul (by decide) halign _)

/-- **The fields of all BDs of a ring are independent.** In byte memory, whatever it holds, and
after any calls of the setters on BDs of a created ring: a getter returns what is kept of the value
of the last call of its own setter on its own BD, or what it returned at first, and all other calls
could be left out. -/
theorem fields_independent (c : Chan) (physAddr virtAddr alignment bdCount : U32)
    (hok : (bdRingCreate c physAddr virtAddr alignment bdCount).1 = .success) (b : ByteMem 32) :
    let r := (bdRingCreate c physAddr virtAddr alignment bdCount).2.ring
    ∀ (bd : RingBd r) (f : Field) (calls : List (SetterCall r)),
      (∀ before v after, calls = before ++ ⟨(bd, f), v⟩ :: after → (∀ x ∈ after, x.1 ≠ (bd, f)) →
        byteAccess.get f (byteAccess.setAll b calls) bd = f.kept v) ∧
      ((∀ x ∈ calls, x.1 ≠ (bd, f)) →
        byteAccess.get f (byteAccess.setAll b calls) bd = byteAccess.get f b bd) ∧
      byteAccess.get f (byteAccess.setAll b calls) bd =
        byteAccess.get f (byteAccess.setAll b (calls.filter fun x => x.1 = (bd, f))) bd := by
  intro r bd f calls
  have hindependent := byteAccess_lawful.independent (created_aligned hok)
  refine ⟨fun before v after hcalls hafter => ?_, fun hnone => ?_, ?_⟩
  · rw [hcalls]
    exact hindependent.run_last b before v hafter
  · exact hindependent.run_none b hnone
  · exact hindependent.run_filter b (bd, f) calls

/-- The last of three BDs, in memory full of ones: the length is written in among the flags of the
same word, the user data of the same BD and the length of the BD before. -/
theorem fields_independent_lastBd :
    let r := (bdRingCreate (initializedChan false fun _ => 0) 0 0xFFFFFF40 64 3).2.ring
    let last : RingBd r := ⟨0xFFFFFFC0, 2, by decide⟩
    let calls : List (SetterCall r) := [⟨(last, .ctrl), 0x12345678⟩,
      ⟨(last, .ctrlLength), 0x12345678⟩, ⟨(last, .userData), 0x1122334455667788⟩,
      ⟨(⟨0xFFFFFF80, 1, by decide⟩, .ctrlLength), 7⟩, ⟨(last, .ctrl), 0xABCDEF01⟩]
    byteAccess.get .ctrlLength (byteAccess.setAll (fun _ => 0xFF) calls) last = 0x45678 := by
  intro r last calls
  refine (fields_independent (initializedChan false fun _ => 0) 0 0xFFFFFF40 64 3 (by decide)
    (fun _ => 0xFF) last .ctrlLength calls).1 [⟨(last, .ctrl), 0x12345678⟩] 0x12345678 _ rfl ?_
  decide

end Dma
