import Mathlib.Data.List.Basic
import Mathlib.Data.List.Infix
import Mathlib.Data.List.Range

/-!
# Streams of records

The symbols of a sequence of records without an empty one, and what is taken from its front in
pieces of any sizes.
-/

namespace Transition.Records

universe u

variable {α : Type u} (unit : Nat → List α)

/-- The symbols of the first records. -/
def records (k : Nat) : List α := (List.range k).flatMap unit

/-- The first symbols of the stream. -/
def first (n : Nat) : List α := (records unit n).take n

theorem records_succ (k : Nat) : records unit (k + 1) = records unit k ++ unit k := by
  rw [records, List.range_succ, List.flatMap_append, List.flatMap_singleton]
  rfl

theorem records_prefix {k m : Nat} (h : k ≤ m) : records unit k <+: records unit m := by
  induction m, h using Nat.le_induction with
  | base => exact List.prefix_rfl
  | succ m _ ih => exact ih.trans (records_succ unit m ▸ List.prefix_append ..)

variable {unit}

theorem length_records (hunit : ∀ i, unit i ≠ []) (k : Nat) : k ≤ (records unit k).length := by
  induction k with
  | zero => exact Nat.zero_le _
  | succ k ih =>
    have hpos := List.length_pos_iff.mpr (hunit k)
    rw [records_succ, List.length_append]
    omega

/-- What enough records begin with. -/
theorem take_records (hunit : ∀ i, unit i ≠ []) {k n : Nat} (h : n ≤ (records unit k).length) :
    (records unit k).take n = first unit n := by
  have hn := length_records hunit n
  rcases Nat.le_total k n with hle | hle
  · obtain ⟨more, hmore⟩ := records_prefix unit hle
    rw [first, ← hmore, List.take_append_of_le_length h]
  · obtain ⟨more, hmore⟩ := records_prefix unit hle
    rw [first, ← hmore, List.take_append_of_le_length hn]

theorem length_first (hunit : ∀ i, unit i ≠ []) (n : Nat) : (first unit n).length = n := by
  rw [first, List.length_take]
  exact Nat.min_eq_left (length_records hunit n)

theorem first_prefix (hunit : ∀ i, unit i ≠ []) {n m : Nat} (h : n ≤ m) :
    first unit n <+: first unit m := by
  have hm := length_records hunit m
  rw [← take_records hunit (h.trans hm), first]
  exact List.take_prefix_take_left h

/-- Records of one length are where they are counted to be. -/
theorem record_at {size : Nat} (hsize : ∀ i, (unit i).length = size) (hpos : 0 < size) {i n : Nat}
    (h : (i + 1) * size ≤ n) : ((first unit n).drop (i * size)).take size = unit i := by
  have hunit : ∀ j, unit j ≠ [] := fun j hnil => by
    have hlen := hsize j
    rw [hnil, List.length_nil] at hlen
    omega
  have hlen : ∀ k, (records unit k).length = k * size := by
    intro k
    induction k with
    | zero => simp [records]
    | succ k ih => rw [records_succ, List.length_append, ih, hsize, Nat.succ_mul]
  have hfirst : records unit (i + 1) <+: first unit n := by
    have hshort := take_records hunit (Nat.le_of_eq (hlen (i + 1)).symm)
    rw [← hlen (i + 1), List.take_length] at hshort
    rw [hshort, hlen]
    exact first_prefix hunit h
  obtain ⟨more, hmore⟩ := hfirst
  rw [← hmore, records_succ, List.append_assoc, ← hlen i, List.drop_left,
    List.take_append_of_le_length (Nat.le_of_eq (hsize i).symm), ← hsize i, List.take_length]

end Transition.Records
