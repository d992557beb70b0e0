import Mathlib.Data.List.Basic
import MyDriver.Lib.Cyclic

/-!
# What the ring is for: four groups that rotate

The abstract model of a descriptor ring. A lap of `size` BDs is split into four neighbouring
groups, in this order: Post, Hardware, Pre, Free. The Post group starts at position `start`,
counted in laps. BDs enter a group at its end and leave it at its beginning, so every group is a
queue and the ring as a whole is first in, first out.

A `Split` cannot be built unless the groups make up exactly one lap, and each move asks for enough
BDs in the group they come from.
-/

namespace Dma

open Cyclic

/-- A lap split into four neighbouring groups. -/
@[ext] structure Split where
  size : ℕ
  start : ℕ
  post : ℕ
  hw : ℕ
  pre : ℕ
  free : ℕ
  lap : post + hw + pre + free = size

namespace Split

/-- Where the Hardware group starts. -/
def hwPos (g : Split) : ℕ := g.start + g.post

/-- Where the Pre group starts, which is where the Hardware group ends. -/
def prePos (g : Split) : ℕ := g.start + g.post + g.hw

/-- Where the Free group starts. -/
def freePos (g : Split) : ℕ := g.start + g.post + g.hw + g.pre

/-- A fresh ring: every BD is free. -/
def fresh (n : ℕ) : Split := ⟨n, 0, 0, 0, 0, n, by omega⟩

def alloc (g : Split) (k : ℕ) (h : k ≤ g.free) : Split :=
  { g with pre := g.pre + k, free := g.free - k, lap := by have := g.lap; omega }

def unAlloc (g : Split) (k : ℕ) (h : k ≤ g.pre) : Split :=
  { g with pre := g.pre - k, free := g.free + k, lap := by have := g.lap; omega }

def toHw (g : Split) (k : ℕ) (h : k ≤ g.pre) : Split :=
  { g with hw := g.hw + k, pre := g.pre - k, lap := by have := g.lap; omega }

def fromHw (g : Split) (k : ℕ) (h : k ≤ g.hw) : Split :=
  { g with post := g.post + k, hw := g.hw - k, lap := by have := g.lap; omega }

def freeUp (g : Split) (k : ℕ) (h : k ≤ g.post) : Split :=
  { g with
    start := g.start + k, post := g.post - k, free := g.free + k, lap := by have := g.lap; omega }

/-- Free BDs that go straight to the hardware. -/
def queue (g : Split) (k : ℕ) (h : k ≤ g.free) : Split :=
  { g with hw := g.hw + k, free := g.free - k, lap := by have := g.lap; omega }

/-- BDs that go straight from the hardware to the Free group. -/
def retire (g : Split) (k : ℕ) (h : k ≤ g.hw) : Split :=
  { g with
    start := g.start + k, hw := g.hw - k, free := g.free + k, lap := by have := g.lap; omega }

theorem hwPos_add (g : Split) : g.hwPos + g.hw = g.prePos := rfl

/-- Without BDs in preparation the next one is the next free one. -/
theorem freePos_of_pre (g : Split) (hpre : g.pre = 0) : g.freePos = g.prePos := by
  rw [freePos, hpre]
  rfl

theorem alloc_prePos (g : Split) {k : ℕ} (h : k ≤ g.free) : (g.alloc k h).prePos = g.prePos := rfl

theorem alloc_freePos (g : Split) {k : ℕ} (h : k ≤ g.free) :
    (g.alloc k h).freePos = g.freePos + k := by
  simp only [freePos, alloc]; omega

theorem unAlloc_freePos (g : Split) {k : ℕ} (h : k ≤ g.pre) :
    (g.unAlloc k h).freePos + k = g.freePos := by
  simp only [freePos, unAlloc]; omega

theorem toHw_hwPos (g : Split) {k : ℕ} (h : k ≤ g.pre) : (g.toHw k h).hwPos = g.hwPos := rfl

theorem toHw_prePos (g : Split) {k : ℕ} (h : k ≤ g.pre) : (g.toHw k h).prePos = g.prePos + k := by
  simp only [prePos, toHw]; omega

theorem toHw_freePos (g : Split) {k : ℕ} (h : k ≤ g.pre) : (g.toHw k h).freePos = g.freePos := by
  simp only [freePos, toHw]; omega

theorem fromHw_hwPos (g : Split) {k : ℕ} (h : k ≤ g.hw) : (g.fromHw k h).hwPos = g.hwPos + k := by
  simp only [hwPos, fromHw]; omega

theorem fromHw_prePos (g : Split) {k : ℕ} (h : k ≤ g.hw) : (g.fromHw k h).prePos = g.prePos := by
  simp only [prePos, fromHw]; omega

theorem fromHw_freePos (g : Split) {k : ℕ} (h : k ≤ g.hw) :
    (g.fromHw k h).freePos = g.freePos := by
  simp only [freePos, fromHw]; omega

theorem freeUp_hwPos (g : Split) {k : ℕ} (h : k ≤ g.post) : (g.freeUp k h).hwPos = g.hwPos := by
  simp only [hwPos, freeUp]; omega

theorem freeUp_prePos (g : Split) {k : ℕ} (h : k ≤ g.post) :
    (g.freeUp k h).prePos = g.prePos := by
  simp only [prePos, freeUp]; omega

theorem freeUp_freePos (g : Split) {k : ℕ} (h : k ≤ g.post) :
    (g.freeUp k h).freePos = g.freePos := by
  simp only [freePos, freeUp]; omega

/-- Allocating `m` BDs, handing over `k` and giving back the rest queues `k`. -/
theorem alloc_toHw_unAlloc (g : Split) {m k : ℕ} (hm : m ≤ g.free) (hk : k ≤ g.pre + m)
    (hrest : m - k ≤ g.pre + m - k) (hkm : k ≤ m) :
    ((g.alloc m hm).toHw k hk).unAlloc (m - k) hrest = g.queue k (hkm.trans hm) := by
  ext <;> simp only [alloc, toHw, unAlloc, queue] <;> omega

theorem alloc_toHw (g : Split) {k : ℕ} (hm : k ≤ g.free) (hk : k ≤ g.pre + k) :
    (g.alloc k hm).toHw k hk = g.queue k hm := by
  ext <;> simp only [alloc, toHw, queue]
  omega

theorem fromHw_freeUp (g : Split) {k : ℕ} (h : k ≤ g.hw) (h' : k ≤ g.post + k) :
    (g.fromHw k h).freeUp k h' = g.retire k h := by
  ext <;> simp only [fromHw, freeUp, retire]
  omega

theorem queue_hwPos (g : Split) {k : ℕ} (h : k ≤ g.free) : (g.queue k h).hwPos = g.hwPos := rfl

theorem retire_hwPos (g : Split) {k : ℕ} (h : k ≤ g.hw) : (g.retire k h).hwPos = g.hwPos + k := by
  simp only [hwPos, retire]; omega

/-- **The four groups cover the circle once.** -/
theorem cover {α : Type*} {f : ℕ → α} (g : Split) (hf : IsCircle f g.size) :
    (arc f g.start g.post ++ arc f g.hwPos g.hw ++ arc f g.prePos g.pre ++
      arc f g.freePos g.free).Perm (arc f 0 g.size) := by
  have hlap : arc f g.start g.post ++ arc f g.hwPos g.hw ++ arc f g.prePos g.pre ++
      arc f g.freePos g.free = arc f g.start g.size := by
    have hpre : g.prePos = g.start + (g.post + g.hw) := by unfold prePos; omega
    have hfree : g.freePos = g.start + (g.post + g.hw + g.pre) := by unfold freePos; omega
    rw [hwPos, arc_append, hpre, arc_append, hfree, arc_append, g.lap]
  rw [hlap]
  exact arc_perm hf _ _

end Split

end Dma
