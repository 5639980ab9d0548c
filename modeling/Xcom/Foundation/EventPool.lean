import Mathlib.Data.Finset.Card
import Mathlib.Data.Fintype.Card
import Mathlib.Logic.Function.Basic

/-!
# The pool of counted blocks

`EventPool`: a block is free when its reference count is zero.  An allocation takes any
free block and counts one reference, `event_ref_inc` counts one more, and `event_gc`
takes one back.
-/

namespace Xcom

/-- `EventPool` with `n` blocks: the reference count of each. -/
structure EventPool (n : Nat) where
  refs : Fin n → Nat := fun _ => 0

namespace EventPool

variable {n : Nat}

/-- The blocks nobody refers to. -/
def freeSet (p : EventPool n) : Finset (Fin n) := Finset.univ.filter fun b => p.refs b = 0

/-- The blocks somebody refers to. -/
def usedSet (p : EventPool n) : Finset (Fin n) := Finset.univ.filter fun b => p.refs b ≠ 0

@[simp] theorem mem_freeSet {p : EventPool n} {b : Fin n} : b ∈ p.freeSet ↔ p.refs b = 0 :=
  Finset.mem_filter_univ b

@[simp] theorem mem_usedSet {p : EventPool n} {b : Fin n} : b ∈ p.usedSet ↔ p.refs b ≠ 0 :=
  Finset.mem_filter_univ b

/-- `free_blocks`. -/
def freeBlocks (p : EventPool n) : Nat := p.freeSet.card

/-- `used`. -/
def used (p : EventPool n) : Nat := p.usedSet.card

/-- The pool may answer an allocation with the block `b`: it is free, or none is. -/
def Serves (p : EventPool n) (b : Fin n) : Prop := p.refs b = 0 ∨ p.freeBlocks = 0

instance (p : EventPool n) (b : Fin n) : Decidable (p.Serves b) :=
  inferInstanceAs (Decidable (_ ∨ _))

/-- Counts the first reference of a block. -/
def claim (p : EventPool n) (b : Fin n) : EventPool n := ⟨Function.update p.refs b 1⟩

/-- `alloc_with_margin`, answered with the block `b`: at least `margin` blocks stay free. -/
def allocWithMargin (p : EventPool n) (margin : Nat) (b : Fin n) : Option (EventPool n) :=
  if margin < p.freeBlocks then some (p.claim b) else none

/-- `alloc`, answered with the block `b`. -/
def alloc (p : EventPool n) (b : Fin n) : Option (EventPool n) := p.allocWithMargin 0 b

/-- `event_ref_inc`. -/
def refInc (p : EventPool n) (b : Fin n) : EventPool n :=
  ⟨Function.update p.refs b (p.refs b + 1)⟩

/-- `event_gc`. -/
def gc (p : EventPool n) (b : Fin n) : EventPool n :=
  ⟨Function.update p.refs b (p.refs b - 1)⟩

/-- Each block is referred to as often as it is held. -/
def Counts (p : EventPool n) (held : List (Fin n)) : Prop := ∀ b, p.refs b = held.count b

theorem counts_init : Counts ({} : EventPool n) [] := fun _ => rfl

theorem Counts.perm {p : EventPool n} {held held' : List (Fin n)} (h : p.Counts held)
    (hcount : ∀ b, held'.count b = held.count b) : p.Counts held' := by
  intro b
  rw [h b, hcount b]

/-- A block is free exactly when nobody holds it. -/
theorem Counts.free_iff {p : EventPool n} {held : List (Fin n)} (h : p.Counts held) (b : Fin n) :
    p.refs b = 0 ↔ b ∉ held := by
  rw [h b, List.count_eq_zero]

theorem Counts.claim {p : EventPool n} {held : List (Fin n)} {b : Fin n} (h : p.Counts held)
    (hfree : p.refs b = 0) : (p.claim b).Counts (b :: held) := by
  intro c
  by_cases hc : c = b
  · subst hc
    have hnone := (h.free_iff c).mp hfree
    simp [EventPool.claim, List.count_eq_zero.mpr hnone]
  · simp [EventPool.claim, hc, h c, Ne.symm hc]

theorem Counts.refInc {p : EventPool n} {held : List (Fin n)} (h : p.Counts held) (b : Fin n) :
    (p.refInc b).Counts (b :: held) := by
  intro c
  by_cases hc : c = b
  · subst hc
    simp [EventPool.refInc, h c]
  · simp [EventPool.refInc, hc, h c, Ne.symm hc]

theorem Counts.gc {p : EventPool n} {held : List (Fin n)} {b : Fin n}
    (h : p.Counts (b :: held)) : (p.gc b).Counts held := by
  intro c
  have hcount := h c
  by_cases hc : c = b
  · subst hc
    simp [EventPool.gc, hcount]
  · simpa [EventPool.gc, hc, List.count_cons, Ne.symm hc] using hcount

theorem allocWithMargin_some {p p' : EventPool n} {margin : Nat} {b : Fin n}
    (hserves : p.Serves b) (h : p.allocWithMargin margin b = some p') :
    p.refs b = 0 ∧ p' = p.claim b := by
  unfold allocWithMargin at h
  split at h
  · cases h
    exact ⟨hserves.resolve_right (by omega), rfl⟩
  · cases h

/-- What a claim leaves free. -/
theorem freeBlocks_claim {p : EventPool n} {b : Fin n} (h : p.refs b = 0) :
    (p.claim b).freeBlocks + 1 = p.freeBlocks := by
  have herase : (p.claim b).freeSet = p.freeSet.erase b := by
    ext c
    by_cases hc : c = b
    · subst hc
      simp [claim]
    · simp [claim, hc]
  have hmem : b ∈ p.freeSet := mem_freeSet.mpr h
  rw [freeBlocks, herase, Finset.card_erase_add_one hmem, freeBlocks]

theorem margin_le_freeBlocks {p p' : EventPool n} {margin : Nat} {b : Fin n}
    (hserves : p.Serves b) (h : p.allocWithMargin margin b = some p') :
    margin ≤ p'.freeBlocks := by
  obtain ⟨hfree, rfl⟩ := allocWithMargin_some hserves h
  have hleft := freeBlocks_claim hfree
  unfold allocWithMargin at h
  split at h
  · omega
  · cases h

theorem used_le (p : EventPool n) : p.used ≤ n := by
  calc p.used ≤ (Finset.univ : Finset (Fin n)).card := Finset.card_filter_le _ _
    _ = n := Finset.card_fin n

/-- Blocks that are held and differ from each other are in use. -/
theorem Counts.length_le_used {p : EventPool n} {held : List (Fin n)} (h : p.Counts held)
    {l : List (Fin n)} (hnodup : l.Nodup) (hsub : ∀ b ∈ l, b ∈ held) : l.length ≤ p.used := by
  rw [← List.toFinset_card_of_nodup hnodup, used]
  apply Finset.card_le_card
  intro b hb
  have hheld := hsub b (List.mem_toFinset.mp hb)
  rw [mem_usedSet]
  intro hzero
  exact (h.free_iff b).mp hzero hheld

end EventPool

end Xcom
