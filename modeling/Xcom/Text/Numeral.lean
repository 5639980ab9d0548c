import Mathlib.Data.Nat.Digits.Defs
import Mathlib.Data.Nat.Digits.Div
import Mathlib.Data.Nat.Digits.Lemmas

/-!
# Numerals

Digits with the most significant one first, padded with zeros, and what their first ones
stand for.
-/

namespace Numeral

/-- The digits of a number, padded to `width`. -/
def padded (b width n : Nat) : List Nat :=
  List.replicate (width - (Nat.digits b n).length) 0 ++ (Nat.digits b n).reverse

/-- The value of digits read behind a number. -/
def readOn (b v : Nat) (ds : List Nat) : Nat := ds.foldl (fun v d => v * b + d) v

theorem readOn_eq (b v : Nat) (ds : List Nat) :
    readOn b v ds = v * b ^ ds.length + Nat.ofDigits b ds.reverse := by
  induction ds generalizing v with
  | nil => simp [readOn]
  | cons d ds ih =>
    show readOn b (v * b + d) ds = _
    rw [ih, List.reverse_cons, Nat.ofDigits_append, Nat.ofDigits_singleton, List.length_cons,
      List.length_reverse]
    ring

theorem readOn_zeros (b k : Nat) : readOn b 0 (List.replicate k 0) = 0 := by
  induction k with
  | zero => rfl
  | succ k ih =>
    rw [List.replicate_succ]
    show readOn b (0 * b + 0) _ = 0
    rw [Nat.zero_mul]
    exact ih

/-- The first `width` digits of a longer number are those of its quotient. -/
theorem readOn_take_padded {b : Nat} (hb : 2 ≤ b) (width n : Nat) :
    readOn b 0 ((padded b width n).take width) =
      n / b ^ ((Nat.digits b n).length - width) := by
  unfold padded
  by_cases hlong : width ≤ (Nat.digits b n).length
  · rw [Nat.sub_eq_zero_of_le hlong, List.replicate_zero, List.nil_append, List.take_reverse,
      readOn_eq, Nat.zero_mul, Nat.zero_add, List.reverse_reverse,
      Nat.self_div_pow_eq_ofDigits_drop _ _ hb]
  · have hlen : (List.replicate (width - (Nat.digits b n).length) 0 ++
        (Nat.digits b n).reverse).length ≤ width := by
      rw [List.length_append, List.length_replicate, List.length_reverse]
      omega
    rw [List.take_of_length_le hlen, readOn, List.foldl_append]
    show readOn b (readOn b 0 (List.replicate _ 0)) _ = _
    rw [readOn_zeros, readOn_eq, Nat.zero_mul, Nat.zero_add, List.reverse_reverse,
      Nat.ofDigits_digits, Nat.sub_eq_zero_of_le (Nat.le_of_not_le hlong), Nat.pow_zero,
      Nat.div_one]

theorem padded_lt {b : Nat} (hb : 2 ≤ b) {width n d : Nat} (hd : d ∈ padded b width n) :
    d < b := by
  rcases List.mem_append.mp hd with hd | hd
  · rw [List.eq_of_mem_replicate hd]
    omega
  · exact Nat.digits_lt_base (by omega) (List.mem_reverse.mp hd)

theorem length_padded (b width n : Nat) : width ≤ (padded b width n).length := by
  rw [padded, List.length_append, List.length_replicate, List.length_reverse]
  omega

/-- A number that needs no more digits has `width` of them. -/
theorem length_padded_of_lt {b width n : Nat} (hb : 2 ≤ b) (h : n < b ^ width) :
    (padded b width n).length = width := by
  have hlen : (Nat.digits b n).length ≤ width := (Nat.digits_length_le_iff (by omega) n).mpr h
  rw [padded, List.length_append, List.length_replicate, List.length_reverse]
  omega

/-- A number that needs no more digits is read whole. -/
theorem leading_of_lt {b width n : Nat} (hb : 2 ≤ b) (h : n < b ^ width) :
    n / b ^ ((Nat.digits b n).length - width) = n := by
  have hlen : (Nat.digits b n).length ≤ width := (Nat.digits_length_le_iff (by omega) n).mpr h
  rw [Nat.sub_eq_zero_of_le hlen, Nat.pow_zero, Nat.div_one]

theorem leading_lt {b : Nat} (hb : 2 ≤ b) (width n : Nat) :
    n / b ^ ((Nat.digits b n).length - width) < b ^ width := by
  apply Nat.div_lt_of_lt_mul
  rw [← Nat.pow_add]
  apply (Nat.lt_base_pow_length_digits (m := n) hb).trans_le
  apply Nat.pow_le_pow_right (by omega)
  omega

end Numeral
