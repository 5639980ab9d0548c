import Mathlib.Tactic.Ring
import Mathlib.Order.Bounds.Basic

/-!
# Points of an arithmetic grid

The points `start + k * step`, and the first of them behind a moment.
-/

namespace Transition.Grid

/-- The points of the grid behind `now`. -/
def Behind (start step now : Nat) : Set Nat :=
  {p | now < p ∧ ∃ k, p = start + k * step}

/-- The first point of the grid behind `now`. -/
def next (start step now : Nat) : Nat :=
  start + ((now - start) / step + 1) * step

variable {start step now : Nat}

/-- A moment is less than one step ahead of its next point. -/
theorem lt_next (hstep : 0 < step) (hnow : start ≤ now) : now < next start step now := by
  have hlt : now - start < ((now - start) / step + 1) * step := by
    rw [Nat.mul_comm]
    exact Nat.lt_mul_div_succ (now - start) hstep
  unfold next
  omega

theorem isLeast_next (hstep : 0 < step) (hnow : start ≤ now) :
    IsLeast (Behind start step now) (next start step now) := by
  refine ⟨⟨lt_next hstep hnow, _, rfl⟩, ?_⟩
  rintro p ⟨hlt, k, rfl⟩
  have hk : (now - start) / step < k := by
    apply Nat.div_lt_of_lt_mul
    rw [Nat.mul_comm]
    omega
  have hmul : ((now - start) / step + 1) * step ≤ k * step := Nat.mul_le_mul_right step hk
  unfold next
  omega

theorem next_start : next start step start = start + step := by
  unfold next
  rw [Nat.sub_self, Nat.zero_div, Nat.zero_add, Nat.one_mul]

/-- From a point that has passed, one step and as many whole steps as are missed lead to
the next point. -/
theorem skip_eq_next {p : Nat} (hstep : 0 < step) (hp : ∃ k, p = start + k * step)
    (hpassed : p ≤ now) :
    (if p + step ≤ now then p + step + ((now - (p + step)) / step + 1) * step else p + step) =
      next start step now := by
  obtain ⟨k, rfl⟩ := hp
  have hsplit : now - start = now - (start + k * step) + k * step := by omega
  have hquot : (now - start) / step = (now - (start + k * step)) / step + k := by
    rw [hsplit, Nat.add_mul_div_right _ _ hstep]
  unfold next
  rw [hquot]
  split
  · rename_i hmissed
    have hrest : now - (start + k * step) = now - (start + k * step + step) + step := by omega
    rw [hrest, Nat.add_div_right _ hstep]
    ring
  · rename_i hahead
    have hzero : (now - (start + k * step)) / step = 0 := Nat.div_eq_of_lt (by omega)
    rw [hzero]
    ring

end Transition.Grid
