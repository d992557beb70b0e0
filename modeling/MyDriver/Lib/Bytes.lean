import MyDriver.Lib.Words

/-!
# Words in a byte memory

A memory of bytes with wrapping addresses, read and written by 32-bit words, the low byte first.

* `load_store` — a word that was stored is loaded again.
* `load_store_of_apart` — a store leaves the words alone whose bytes it does not touch.
* `apart_of_dvd` — two different multiples of `k` are `k` bytes apart, also around the end of the
  address space, when `k` divides its size.
-/

namespace Words

variable {w : ℕ}

/-- A memory of bytes. -/
abbrev ByteMem (w : ℕ) := BitVec w → BitVec 8

/-- The word of four bytes. -/
def ofBytes (byte : ℕ → BitVec 8) : BitVec 32 := byte 3 ++ byte 2 ++ byte 1 ++ byte 0

def load (b : ByteMem w) (a : BitVec w) : BitVec 32 := ofBytes fun i => b (a + BitVec.ofNat w i)

def store (b : ByteMem w) (a : BitVec w) (v : BitVec 32) : ByteMem w := fun x =>
  if (x - a).toNat < 4 then v.extractLsb' (8 * (x - a).toNat) 8 else b x

theorem ofBytes_congr {f g : ℕ → BitVec 8} (h : ∀ i < 4, f i = g i) : ofBytes f = ofBytes g := by
  rw [ofBytes, ofBytes, h 0 (by omega), h 1 (by omega), h 2 (by omega), h 3 (by omega)]

/-- The four bytes of a word make it up. -/
theorem ofBytes_extract (v : BitVec 32) : (ofBytes fun i => v.extractLsb' (8 * i) 8) = v := by
  show v.extractLsb' 24 8 ++ v.extractLsb' 16 8 ++ v.extractLsb' 8 8 ++ v.extractLsb' 0 8 = v
  rw [BitVec.extractLsb'_append_extractLsb'_eq_extractLsb' (show 24 = 16 + 8 from rfl),
    BitVec.extractLsb'_append_extractLsb'_eq_extractLsb' (show 16 = 8 + 8 from rfl),
    BitVec.extractLsb'_append_extractLsb'_eq_extractLsb' (show 8 = 0 + 8 from rfl)]
  exact BitVec.extractLsb'_eq_self

/-- **A word that was stored is loaded again.** -/
theorem load_store (b : ByteMem w) (a : BitVec w) (v : BitVec 32) (hw : 2 ≤ w) :
    load (store b a v) a = v := by
  have hsize : 2 ^ 2 ≤ 2 ^ w := Nat.pow_le_pow_right (by omega) hw
  rw [load, ← ofBytes_extract v]
  refine ofBytes_congr fun i hi => ?_
  have hoff : (a + BitVec.ofNat w i - a).toNat = i := by
    rw [BitVec.add_comm, BitVec.add_sub_cancel, BitVec.toNat_ofNat, Nat.mod_eq_of_lt (by omega)]
  rw [store, hoff, if_pos hi, ofBytes_extract]

/-- **A store leaves the words alone** that it does not overlap. -/
theorem load_store_of_apart (b : ByteMem w) {a c : BitVec w} (hac : Apart 4 a c) (v : BitVec 32) :
    load (store b a v) c = load b c := by
  refine ofBytes_congr fun i hi => ?_
  have hoff : (BitVec.ofNat w i).toNat < 4 := by
    rw [BitVec.toNat_ofNat]
    exact lt_of_le_of_lt (Nat.mod_le _ _) hi
  refine if_neg fun hin => hac.add_ne hin hoff ?_
  rw [BitVec.add_comm, BitVec.sub_add_cancel]

/-! ## Aligned addresses -/

section Aligned

variable {k : ℕ} {a c : BitVec w}

theorem dvd_toNat_add (hk : k ∣ 2 ^ w) (ha : k ∣ a.toNat) (hc : k ∣ c.toNat) :
    k ∣ (a + c).toNat := by
  rw [BitVec.toNat_add, Nat.dvd_mod_iff hk]
  exact Nat.dvd_add ha hc

theorem dvd_toNat_mul (hk : k ∣ 2 ^ w) (ha : k ∣ a.toNat) (c : BitVec w) : k ∣ (a * c).toNat := by
  rw [BitVec.toNat_mul, Nat.dvd_mod_iff hk]
  exact Dvd.dvd.mul_right ha _

theorem dvd_toNat_sub (hk : k ∣ 2 ^ w) (ha : k ∣ a.toNat) (hc : k ∣ c.toNat) :
    k ∣ (a - c).toNat := by
  rw [BitVec.toNat_sub, Nat.dvd_mod_iff hk]
  exact Nat.dvd_add (Nat.dvd_sub hk hc) ha

/-- **Different multiples of `k` are `k` apart.** -/
theorem apart_of_dvd (hk : k ∣ 2 ^ w) (ha : k ∣ a.toNat) (hc : k ∣ c.toNat) (hne : a ≠ c) :
    Apart k a c := by
  have hpos : ∀ {x y : BitVec w}, x ≠ y → 0 < (x - y).toNat := fun {x y} hxy => by
    refine Nat.pos_of_ne_zero fun hzero => hxy ?_
    rw [← BitVec.sub_add_cancel x y, BitVec.eq_of_toNat_eq (y := 0#w) hzero, BitVec.zero_add]
  exact ⟨Nat.le_of_dvd (hpos hne) (dvd_toNat_sub hk ha hc),
    Nat.le_of_dvd (hpos hne.symm) (dvd_toNat_sub hk hc ha)⟩

end Aligned

end Words
