import Mathlib.Data.List.DropRight

/-!
# The last part of a text

The last `n` entries of a list under appends: a long enough back decides them alone, and two
fronts with the same last part stay alike whatever is appended to both.
-/

namespace Text

variable {α : Type*} {a b c : List α} {m n : Nat}

@[simp]
theorem length_rtake : (a.rtake n).length = min n a.length := by
  rw [List.rtake, List.length_drop]
  omega

theorem rtake_suffix (a : List α) (n : Nat) : a.rtake n <:+ a :=
  List.drop_suffix (a.length - n) a

theorem rtake_of_length_le (h : a.length ≤ n) : a.rtake n = a := by
  rw [List.rtake, Nat.sub_eq_zero_of_le h, List.drop_zero]

/-- A back of at least `n` entries decides the last `n`. -/
theorem rtake_append_of_le (h : n ≤ b.length) : (a ++ b).rtake n = b.rtake n := by
  have hcut : (a ++ b).length - n = a.length + (b.length - n) := by
    rw [List.length_append]
    omega
  rw [List.rtake, hcut, List.drop_length_add_append, List.rtake]

/-- A shorter back leaves the rest to the front. -/
theorem rtake_append_of_length_le (h : b.length ≤ n) :
    (a ++ b).rtake n = a.rtake (n - b.length) ++ b := by
  have hcut : (a ++ b).length - n = a.length - (n - b.length) := by
    rw [List.length_append]
    omega
  have hle : a.length - (n - b.length) ≤ a.length := Nat.sub_le _ _
  rw [List.rtake, hcut, List.drop_append_of_le_length hle, List.rtake]

theorem rtake_rtake (h : m ≤ n) : (a.rtake n).rtake m = a.rtake m := by
  obtain ⟨front, hfront⟩ := rtake_suffix a n
  by_cases hlen : m ≤ (a.rtake n).length
  · have hback := rtake_append_of_le (a := front) hlen
    rw [hfront] at hback
    exact hback.symm
  · rw [length_rtake] at hlen
    have hall : a.rtake n = a := rtake_of_length_le (by omega)
    rw [hall]

/-- Two fronts with the same last part stay alike under an append. -/
theorem rtake_append_congr (h : a.rtake n = b.rtake n) :
    (a ++ c).rtake n = (b ++ c).rtake n := by
  by_cases hlen : n ≤ c.length
  · rw [rtake_append_of_le hlen, rtake_append_of_le hlen]
  · have hle : n - c.length ≤ n := Nat.sub_le n c.length
    have hlen' : c.length ≤ n := by omega
    rw [rtake_append_of_length_le hlen', rtake_append_of_length_le hlen', ← rtake_rtake hle, h,
      rtake_rtake hle]

theorem rtake_min_length (a : List α) (n : Nat) : a.rtake (min a.length n) = a.rtake n := by
  by_cases hle : a.length ≤ n
  · rw [Nat.min_eq_left hle, rtake_of_length_le hle, rtake_of_length_le (Nat.le_refl _)]
  · rw [Nat.min_eq_right (by omega)]

end Text
