import Mathlib.Data.List.FinRange
import Mathlib.Data.List.Perm.Basic

/-!
# The fixed block pool

`FixedPool` keeps the blocks it has not handed out on a list and serves the block that
was released last.  Its allocations and releases are single compare-and-swap steps.
-/

namespace Xcom

/-- `FixedPool` with `n` blocks: the free list, its head first. -/
structure FixedPool (n : Nat) where
  free : List (Fin n) := List.finRange n
  deriving DecidableEq, Repr

namespace FixedPool

variable {n : Nat}

/-- `allocate`. -/
def allocate (p : FixedPool n) : Option (Fin n × FixedPool n) :=
  match p.free with
  | [] => none
  | b :: free => some (b, ⟨free⟩)

/-- `release`. -/
def release (p : FixedPool n) (b : Fin n) : FixedPool n := ⟨b :: p.free⟩

/-- Every block of the pool is free or held, and none is both or held twice. -/
def Conserves (p : FixedPool n) (held : List (Fin n)) : Prop :=
  (held ++ p.free).Perm (List.finRange n)

theorem conserves_init : Conserves ({} : FixedPool n) [] := .refl _

theorem Conserves.perm {p : FixedPool n} {held held' : List (Fin n)} (h : p.Conserves held)
    (hperm : held'.Perm held) : p.Conserves held' :=
  (hperm.append_right _).trans h

theorem Conserves.nodup {p : FixedPool n} {held : List (Fin n)} (h : p.Conserves held) :
    held.Nodup :=
  (h.nodup_iff.mpr (List.nodup_finRange n)).of_append_left

theorem Conserves.length {p : FixedPool n} {held : List (Fin n)} (h : p.Conserves held) :
    held.length + p.free.length = n := by
  rw [← List.length_append, h.length_eq, List.length_finRange]

theorem Conserves.not_free {p : FixedPool n} {held : List (Fin n)} (h : p.Conserves held)
    {b : Fin n} (hb : b ∈ held) : b ∉ p.free := by
  intro hfree
  have hnodup := h.nodup_iff.mpr (List.nodup_finRange n)
  exact List.disjoint_of_nodup_append hnodup hb hfree

theorem allocate_free {p p' : FixedPool n} {b : Fin n} (h : p.allocate = some (b, p')) :
    p.free = b :: p'.free := by
  unfold allocate at h
  split at h
  · cases h
  · cases h
    assumption

/-- The block handed out is held by nobody. -/
theorem Conserves.allocate {p p' : FixedPool n} {held : List (Fin n)} {b : Fin n}
    (h : p.Conserves held) (ha : p.allocate = some (b, p')) : p'.Conserves (b :: held) := by
  rw [Conserves, allocate_free ha] at h
  exact List.perm_middle.symm.trans h

theorem Conserves.release {p : FixedPool n} {held : List (Fin n)} {b : Fin n}
    (h : p.Conserves (b :: held)) : (p.release b).Conserves held := by
  show (held ++ b :: p.free).Perm (List.finRange n)
  exact List.perm_middle.trans h

/-! ## Reference counts -/

/-- The count of every block outside the pool is the number of its references, and a
block of the pool has none. -/
structure Counted (p : FixedPool n) (count : Fin n → Nat) (refs : List (Fin n)) : Prop where
  nodup : p.free.Nodup
  free : ∀ b ∈ p.free, b ∉ refs
  counted : ∀ b, b ∉ p.free → count b = refs.count b

variable {p p' : FixedPool n} {count count' : Fin n → Nat} {refs refs' : List (Fin n)}
  {b : Fin n}

theorem counted_init (count : Fin n → Nat) : Counted ({} : FixedPool n) count [] where
  nodup := List.nodup_finRange n
  free _ _ := List.not_mem_nil
  counted b hb := absurd (List.mem_finRange b) hb

theorem Counted.perm (h : p.Counted count refs) (hperm : refs'.Perm refs) :
    p.Counted count refs' where
  nodup := h.nodup
  free b hb := fun hmem => h.free b hb (hperm.mem_iff.mp hmem)
  counted b hb := by rw [hperm.count_eq, h.counted b hb]

/-- A block is handed out with two references. -/
theorem Counted.allocate (h : p.Counted count refs) (ha : p.allocate = some (b, p'))
    (hb : count' b = 2) (hother : ∀ c, c ≠ b → count' c = count c) :
    p'.Counted count' (b :: b :: refs) := by
  have hfree := allocate_free ha
  have hnodup := h.nodup
  rw [hfree] at hnodup
  obtain ⟨hnew, hnodup⟩ := List.nodup_cons.mp hnodup
  have hnone : b ∉ refs := h.free b (hfree ▸ List.mem_cons_self)
  constructor
  · exact hnodup
  · intro c hc hmem
    have hne : c ≠ b := fun heq => hnew (heq ▸ hc)
    refine h.free c ?_ (by simpa [hne] using hmem)
    rw [hfree]
    exact List.mem_cons_of_mem _ hc
  · intro c hc
    by_cases hcb : c = b
    · subst hcb
      rw [hb, List.count_cons_self, List.count_cons_self, List.count_eq_zero_of_not_mem hnone]
    · rw [hother c hcb, List.count_cons_of_ne (Ne.symm hcb), List.count_cons_of_ne (Ne.symm hcb)]
      apply h.counted
      rw [hfree]
      exact fun hmem => (List.mem_cons.mp hmem).elim hcb hc

/-- A reference is given up; the last one returns the block. -/
theorem Counted.drop (h : p.Counted count (b :: refs)) (hb : count' b = count b - 1)
    (hother : ∀ c, c ≠ b → count' c = count c) :
    (if count b = 1 then p.release b else p).Counted count' refs := by
  have hout : b ∉ p.free := fun hmem => h.free b hmem List.mem_cons_self
  have hcount := h.counted b hout
  rw [List.count_cons_self] at hcount
  have hrest : ∀ c, c ∉ p.free → c ≠ b → count' c = refs.count c := by
    intro c hc hcb
    rw [hother c hcb, h.counted c hc, List.count_cons_of_ne (Ne.symm hcb)]
  split
  · constructor
    · exact List.nodup_cons.mpr ⟨hout, h.nodup⟩
    · intro c hc hmem
      rcases List.mem_cons.mp hc with rfl | hc
      · have hpos := List.count_pos_iff.mpr hmem
        omega
      · exact h.free c hc (List.mem_cons_of_mem _ hmem)
    · intro c hc
      exact hrest c (fun hmem => hc (List.mem_cons_of_mem _ hmem))
        (fun heq => hc (heq ▸ List.mem_cons_self))
  · constructor
    · exact h.nodup
    · exact fun c hc hmem => h.free c hc (List.mem_cons_of_mem _ hmem)
    · intro c hc
      by_cases hcb : c = b
      · subst hcb
        omega
      · exact hrest c hc hcb

end FixedPool

end Xcom
