import Mathlib.Order.Lattice
import Xcom.Transition.Loop
import Xcom.Transition.Ring

/-!
# The ring of a waveform series

`ring_push`, `ring_iter` and `ring_lower_bound` of `waveform.lua`.  The oldest point stands at
`head`; the points count from one on from there, over the end of the tables.
-/

namespace Xcom.Display.Waveform

open Transition Transition.Loop

variable {X Y : Type}

/-- `CAPACITY`. -/
def capacity : Nat := 65536

/-- What `ring_new` makes; a slot that was never written is `nil`. -/
structure WaveRing (X Y : Type) where
  x : Nat → Option X := fun _ => none
  y : Nat → Option Y := fun _ => none
  head : Nat := 1
  count : Nat := 0
  lastY : Option Y := none

namespace WaveRing

/-- `ring_push`. -/
def push (ring : WaveRing X Y) (x : X) (y : Y) : WaveRing X Y :=
  let slot := (ring.head - 1 + ring.count) % capacity + 1
  { x := Function.update ring.x slot (some x)
    y := Function.update ring.y slot (some y)
    head := if ring.count < capacity then ring.head else ring.head % capacity + 1
    count := if ring.count < capacity then ring.count + 1 else ring.count
    lastY := some y }

/-- `(ring.head - 2 + i) % CAPACITY + 1`. -/
def slotOf (ring : WaveRing X Y) (i : Nat) : Nat := (ring.head + i - 2) % capacity + 1

/-- The upvalue of `ring_iter` and what its loop was given. -/
structure IterState (X Y : Type) where
  i : Nat
  out : List (X × Option Y) := []

/-- One round of a `for` loop over `ring_iter(ring, first, last)`, which ends at a `nil`. -/
def iterRound (ring : WaveRing X Y) (last : Nat) (st : IterState X Y) :
    Round (IterState X Y) (List (X × Option Y)) :=
  if st.i > last then .done st.out
  else
    let slot := ring.slotOf st.i
    match ring.x slot with
    | none => .done st.out
    | some x => .next { i := st.i + 1, out := st.out ++ [(x, ring.y slot)] }

/-- The loop over the points from `first` to `last` ends and is given `out`. -/
def Iter (ring : WaveRing X Y) (first last : Nat) (out : List (X × Option Y)) : Prop :=
  Returns (ring.iterRound last) { i := first } out

/-- The locals of `ring_lower_bound`. -/
structure SearchState where
  lo : Nat
  hi : Nat

variable [LinearOrder X]

/-- One round of `ring_lower_bound`; to compare `nil` is an error. -/
def searchRound (ring : WaveRing X Y) (target : X) (st : SearchState) :
    Round SearchState (Except Unit Nat) :=
  if st.lo < st.hi then
    let mid := (st.lo + st.hi) / 2
    match ring.x (ring.slotOf mid) with
    | none => .done (.error ())
    | some x => if x < target then .next { st with lo := mid + 1 } else .next { st with hi := mid }
  else .done (.ok st.lo)

/-- `ring_lower_bound(ring, target)` ends and returns `i`. -/
def LowerBound (ring : WaveRing X Y) (target : X) (i : Nat) : Prop :=
  Returns (ring.searchRound target) { lo := 1, hi := ring.count } (.ok i)

end WaveRing

/-! ## What a ring holds -/

/-- The ring after a sequence of pushes. -/
def pushed (points : List (X × Y)) : WaveRing X Y :=
  points.foldl (fun ring p => ring.push p.1 p.2) {}

/-- The last points that there is room for. -/
def window (points : List (X × Y)) : List (X × Y) := points.drop (points.length - capacity)

theorem length_window (points : List (X × Y)) :
    (window points).length = min points.length capacity := by
  rw [window, List.length_drop]
  omega

/-- A ring holds the points pushed. -/
structure Keeps (ring : WaveRing X Y) (points : List (X × Y)) : Prop where
  xs : Ring.Holds capacity (fun i => ring.x (i + 1)) (points.map Prod.fst)
  ys : Ring.Holds capacity (fun i => ring.y (i + 1)) (points.map Prod.snd)
  head : ring.head = (points.length - capacity) % capacity + 1
  count : ring.count = min points.length capacity

theorem keeps_new : Keeps ({} : WaveRing X Y) [] where
  xs := Ring.holds_nil _
  ys := Ring.holds_nil _
  head := by simp
  count := by simp

variable {ring : WaveRing X Y} {points : List (X × Y)}

/-- The slot that is written next. -/
theorem Keeps.slot (h : Keeps ring points) :
    (ring.head - 1 + ring.count) % capacity = points.length % capacity := by
  have hsum : points.length - capacity + min points.length capacity = points.length := by omega
  rw [h.head, h.count, Nat.add_sub_cancel, Nat.mod_add_mod, hsum]

theorem Keeps.push (h : Keeps ring points) (x : X) (y : Y) :
    Keeps (ring.push x y) (points ++ [(x, y)]) where
  xs := by
    have hpush := h.xs.push x
    rw [List.length_map] at hpush
    simp only [WaveRing.push, h.slot, Ring.update_succ, List.map_append]
    exact hpush
  ys := by
    have hpush := h.ys.push y
    rw [List.length_map] at hpush
    simp only [WaveRing.push, h.slot, Ring.update_succ, List.map_append]
    exact hpush
  head := by
    have hcount := h.count
    simp only [WaveRing.push, List.length_append, List.length_singleton]
    by_cases hroom : ring.count < capacity
    · have hlow : points.length - capacity = 0 := by omega
      have hnext : points.length + 1 - capacity = 0 := by omega
      rw [if_pos hroom, h.head, hlow, hnext]
    · have hnext : points.length + 1 - capacity = points.length - capacity + 1 := by omega
      rw [if_neg hroom, h.head, hnext, Nat.mod_add_mod]
  count := by
    have hcount := h.count
    simp only [WaveRing.push, List.length_append, List.length_singleton]
    split <;> omega

theorem keeps_foldl (h : Keeps ring points) (more : List (X × Y)) :
    Keeps (more.foldl (fun ring p => ring.push p.1 p.2) ring) (points ++ more) := by
  induction more generalizing ring points with
  | nil => simpa using h
  | cons p more ih =>
    have hrest := ih (h.push p.1 p.2)
    rwa [List.append_assoc] at hrest

theorem keeps_pushed (points : List (X × Y)) : Keeps (pushed points) points :=
  keeps_foldl keeps_new points

/-- The slot of a logical index holds the point of the window at it. -/
theorem Keeps.slotOf_eq (h : Keeps ring points) (i : Nat) :
    ring.slotOf (i + 1) = (points.length - capacity + i) % capacity + 1 := by
  have hsum : (points.length - capacity) % capacity + 1 + (i + 1) - 2 =
      (points.length - capacity) % capacity + i := by omega
  rw [WaveRing.slotOf, h.head, hsum, Nat.mod_add_mod]

theorem Keeps.point (h : Keeps ring points) {i : Nat} {p : X × Y}
    (hp : (window points)[i]? = some p) :
    ring.x (ring.slotOf (i + 1)) = some p.1 ∧ ring.y (ring.slotOf (i + 1)) = some p.2 := by
  have hi : i < (window points).length := (List.getElem?_eq_some_iff.mp hp).1
  rw [length_window] at hi
  rw [window, List.getElem?_drop] at hp
  have hx := h.xs (points.length - capacity + i) (by rw [List.length_map]; omega)
    (by rw [List.length_map]; omega)
  have hy := h.ys (points.length - capacity + i) (by rw [List.length_map]; omega)
    (by rw [List.length_map]; omega)
  rw [List.getElem?_map, hp] at hx hy
  rw [h.slotOf_eq]
  exact ⟨hx, hy⟩

/-! ## The iterator -/

/-- What a loop over the iterator is given of a point. -/
def given (p : X × Y) : X × Option Y := (p.1, some p.2)

/-- From an index on, the points of the window come in their order. -/
theorem Keeps.iter (h : Keeps ring points) (k : Nat) (out : List (X × Option Y)) :
    Returns (ring.iterRound ring.count) { i := k + 1, out := out }
      (out ++ ((window points).drop k).map given) := by
  have hcount : ring.count = (window points).length := h.count.trans (length_window points).symm
  induction hrest : (window points).drop k generalizing k out with
  | nil =>
    have hend : k + 1 > ring.count := by
      rw [hcount]
      exact Nat.lt_succ_of_le (List.drop_eq_nil_iff.mp hrest)
    apply Returns.done
    rw [WaveRing.iterRound, if_pos hend, List.map_nil, List.append_nil]
  | cons p rest ih =>
    have hp : (window points)[k]? = some p := by
      rw [← List.head?_drop, hrest, List.head?_cons]
    have hlt : k < (window points).length := (List.getElem?_eq_some_iff.mp hp).1
    have hlater : (window points).drop (k + 1) = rest := by
      rw [← List.drop_drop, hrest, List.drop_one, List.tail_cons]
    have hin : ¬ k + 1 > ring.count := by omega
    obtain ⟨hx, hy⟩ := h.point hp
    have hround : ring.iterRound ring.count { i := k + 1, out := out } =
        .next { i := k + 1 + 1, out := out ++ [given p] } := by
      simp only [WaveRing.iterRound, if_neg hin, hx, hy, given]
    have hreturns := ih (k + 1) (out ++ [given p]) hlater
    rw [List.append_assoc, List.singleton_append] at hreturns
    exact .next hround hreturns

/-! ## The search -/

variable [LinearOrder X]

/-- The points stand in the order of their `x`. -/
def Rising (points : List (X × Y)) : Prop := points.Pairwise fun p q => p.1 ≤ q.1

instance (points : List (X × Y)) : Decidable (Rising points) :=
  inferInstanceAs (Decidable (points.Pairwise fun p q => p.1 ≤ q.1))

theorem Rising.window (h : Rising points) : Rising (window points) :=
  List.Pairwise.drop h

theorem Rising.le {w : List (X × Y)} (h : Rising w) {i j : Nat} {p q : X × Y}
    (hi : w[i]? = some p) (hj : w[j]? = some q) (hij : i ≤ j) : p.1 ≤ q.1 := by
  obtain ⟨hilt, rfl⟩ := List.getElem?_eq_some_iff.mp hi
  obtain ⟨hjlt, rfl⟩ := List.getElem?_eq_some_iff.mp hj
  rcases Nat.lt_or_eq_of_le hij with hlt | rfl
  · exact List.pairwise_iff_getElem.mp h i j hilt hjlt hlt
  · exact le_refl _

/-- The smallest index, counted from one, with an `x` of the target or more; no more than the
last index, and one where there is none. -/
def lowerBoundOf (w : List (X × Y)) (target : X) : Nat :=
  max 1 (min (w.findIdx (fun p => decide (target ≤ p.1)) + 1) w.length)

/-- The points before the interval are less, and the one at its end is not. -/
structure Bounds (w : List (X × Y)) (target : X) (st : WaveRing.SearchState) : Prop where
  first : 1 ≤ st.lo
  last : st.hi ≤ w.length
  ordered : st.lo ≤ max 1 st.hi
  below : ∀ i p, w[i]? = some p → i + 1 < st.lo → p.1 < target
  above : st.hi = w.length ∨ ∃ p, w[st.hi - 1]? = some p ∧ target ≤ p.1

variable {target : X} {st : WaveRing.SearchState}

/-- A round on an interval of two or more halves it. -/
theorem Bounds.next (hring : Keeps ring points) (hrising : Rising points)
    (h : Bounds (window points) target st) {st' : WaveRing.SearchState}
    (hround : ring.searchRound target st = .next st') :
    Bounds (window points) target st' ∧ st'.hi - st'.lo < st.hi - st.lo := by
  have hfirst := h.first
  have hlast := h.last
  by_cases hlt : st.lo < st.hi
  · obtain ⟨k, hk⟩ : ∃ k, (st.lo + st.hi) / 2 = k + 1 := ⟨(st.lo + st.hi) / 2 - 1, by omega⟩
    have hmid : k < (window points).length := by omega
    have hp := List.getElem?_eq_getElem hmid
    have hx := (hring.point hp).1
    by_cases hless : (window points)[k].1 < target
    · simp only [WaveRing.searchRound, if_pos hlt, hk, hx, if_pos hless] at hround
      cases hround
      refine ⟨⟨by dsimp only; omega, hlast, by dsimp only; omega, ?_, h.above⟩,
        by dsimp only; omega⟩
      intro i q hq hi
      exact lt_of_le_of_lt (hrising.window.le hq hp (by dsimp only at hi; omega)) hless
    · simp only [WaveRing.searchRound, if_pos hlt, hk, hx, if_neg hless] at hround
      cases hround
      refine ⟨⟨hfirst, by dsimp only; omega, by dsimp only; omega, h.below, .inr ⟨_, hp, ?_⟩⟩,
        by dsimp only; omega⟩
      exact not_lt.mp hless
  · simp only [WaveRing.searchRound, if_neg hlt] at hround
    cases hround

/-- Where the interval is one point, it is the one looked for. -/
theorem Bounds.done (h : Bounds (window points) target st) {r : Except Unit Nat}
    (hring : Keeps ring points) (hround : ring.searchRound target st = .done r) :
    r = .ok (lowerBoundOf (window points) target) := by
  have hfirst := h.first
  have hlast := h.last
  have hordered := h.ordered
  by_cases hlt : st.lo < st.hi
  · obtain ⟨k, hk⟩ : ∃ k, (st.lo + st.hi) / 2 = k + 1 := ⟨(st.lo + st.hi) / 2 - 1, by omega⟩
    have hmid : k < (window points).length := by omega
    have hx := (hring.point (List.getElem?_eq_getElem hmid)).1
    simp only [WaveRing.searchRound, if_pos hlt, hk, hx] at hround
    split at hround <;> cases hround
  · simp only [WaveRing.searchRound, if_neg hlt] at hround
    cases hround
    have hbefore : st.lo - 1 < (window points).length →
        st.lo - 1 ≤ (window points).findIdx (fun p => decide (target ≤ p.1)) := by
      intro hin
      apply List.le_findIdx_of_not hin
      intro i hi
      have hless := h.below i _ (List.getElem?_eq_getElem (by omega)) (by omega)
      simpa using hless
    have hfound : (window points).findIdx (fun p => decide (target ≤ p.1)) ≤
        (window points).length := List.findIdx_le_length
    apply congrArg Except.ok
    unfold lowerBoundOf
    rcases h.above with hend | ⟨p, hp, hle⟩
    · by_cases hempty : (window points).length = 0
      · omega
      · have hin := hbefore (by omega)
        omega
    · have hin : st.hi - 1 < (window points).length := (List.getElem?_eq_some_iff.mp hp).1
      have hat : (window points).findIdx (fun p => decide (target ≤ p.1)) ≤ st.hi - 1 := by
        by_contra hgt
        have hnot := List.not_of_lt_findIdx (Nat.lt_of_not_le hgt)
        rw [List.getElem?_eq_getElem hin, Option.some.injEq] at hp
        rw [hp] at hnot
        simp [hle] at hnot
      have hin := hbefore (by omega)
      omega

/-- In a ring of points that rise the search ends at the index looked for. -/
theorem Keeps.lowerBound (h : Keeps ring points) (hrising : Rising points) (target : X) :
    ring.LowerBound target (lowerBoundOf (window points) target) := by
  have hstart : Bounds (window points) target { lo := 1, hi := ring.count } := by
    have hcount : ring.count = (window points).length := h.count.trans (length_window points).symm
    refine ⟨Nat.le_refl 1, Nat.le_of_eq hcount, Nat.le_max_left 1 _, ?_, .inl hcount⟩
    intro i p _ hi
    exact absurd hi (by dsimp only; omega)
  obtain ⟨r, hr, rfl⟩ := returns (fun st : WaveRing.SearchState => st.hi - st.lo)
    (fun _ _ hb => hb.next h hrising) (fun _ _ hb => hb.done h) hstart
  exact hr

/-- After every sequence of pushes the iterator yields the last points that there is room for,
and in points that rise the search finds the first that is not less. -/
theorem waveform_ring (points : List (X × Y)) :
    (pushed points).Iter 1 (pushed points).count
        ((points.drop (points.length - capacity)).map given) ∧
      (Rising points → ∀ target, (pushed points).LowerBound target
        (lowerBoundOf (points.drop (points.length - capacity)) target)) := by
  have hkeeps := keeps_pushed points
  constructor
  · have hiter := hkeeps.iter 0 []
    rw [List.nil_append, List.drop_zero] at hiter
    exact hiter
  · intro hrising target
    exact hkeeps.lowerBound hrising target

/-- Three points, two of them at one time. -/
theorem waveform_ring_three : Rising [(1, 5), (2, 6), (2, 7)] ∧
    (pushed [(1, 5), (2, 6), (2, 7)]).LowerBound 2 2 := by
  have hrising : Rising [(1, 5), (2, 6), (2, 7)] := by decide
  have hindex : lowerBoundOf ([(1, 5), (2, 6), (2, 7)].drop (3 - capacity)) 2 = 2 := by decide
  have hsearch := (waveform_ring [(1, 5), (2, 6), (2, 7)]).2 hrising 2
  exact ⟨hrising, hindex ▸ hsearch⟩

end Xcom.Display.Waveform
