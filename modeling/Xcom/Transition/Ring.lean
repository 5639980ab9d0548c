import Mathlib.Data.List.Basic
import Mathlib.Logic.Function.Basic

/-!
# The last items in a ring

A ring of `n` slots is written at a running count.  Read back from the oldest slot on, it
gives the last `n` items in their order.
-/

namespace Transition.Ring

universe u

variable {α : Type u} {n : Nat}

/-- The slots hold the last `n` items. -/
def Holds (n : Nat) (slots : Nat → Option α) (xs : List α) : Prop :=
  ∀ i, i < xs.length → xs.length ≤ i + n → slots (i % n) = xs[i]?

theorem holds_nil (slots : Nat → Option α) : Holds n slots [] := by
  intro i hi
  cases hi

/-- Two of the last `n` positions share no slot. -/
theorem slot_ne {i m : Nat} (hi : i < m) (hm : m < i + n) : i % n ≠ m % n := by
  intro heq
  have hdvd : n ∣ m - i := Nat.dvd_of_mod_eq_zero (Nat.sub_mod_eq_zero_of_mod_eq heq.symm)
  have hle := Nat.le_of_dvd (by omega) hdvd
  omega

/-- The next item takes the slot of the oldest one. -/
theorem Holds.push {slots : Nat → Option α} {xs : List α} (h : Holds n slots xs) (x : α) :
    Holds n (Function.update slots (xs.length % n) (some x)) (xs ++ [x]) := by
  intro i hi hn
  rw [List.length_append, List.length_singleton] at hi hn
  by_cases hlast : i = xs.length
  · rw [hlast, Function.update_self, List.getElem?_concat_length]
  · have hlt : i < xs.length := by omega
    have hslot : i % n ≠ xs.length % n := slot_ne hlt (by omega)
    rw [Function.update_of_ne hslot, List.getElem?_append_left hlt]
    exact h i hlt (by omega)

/-- A table that counts from one, read as one that counts from zero. -/
theorem update_succ (slots : Nat → Option α) (k : Nat) (x : Option α) :
    (fun i => Function.update slots (k + 1) x (i + 1)) =
      Function.update (fun i => slots (i + 1)) k x := by
  funext i
  by_cases h : i = k
  · rw [h, Function.update_self, Function.update_self]
  · rw [Function.update_of_ne h, Function.update_of_ne (by omega)]

/-- The slots from the oldest on. -/
def read (n : Nat) (slots : Nat → Option α) (count : Nat) : List α :=
  (List.range (min n count)).filterMap fun i => slots ((count - min n count + i) % n)

theorem range_getElem? (xs : List α) :
    (List.range xs.length).filterMap (fun i => xs[i]?) = xs := by
  induction xs with
  | nil => rfl
  | cons x xs ih =>
    rw [List.length_cons, List.range_succ_eq_map, List.filterMap_cons, List.filterMap_map]
    exact congrArg (x :: ·) ih

/-- What is read are the last `n` items. -/
theorem Holds.read {slots : Nat → Option α} {xs : List α} (h : Holds n slots xs) :
    read n slots xs.length = xs.drop (xs.length - n) := by
  have hlen : (xs.drop (xs.length - n)).length = min n xs.length := by
    rw [List.length_drop]
    omega
  have hall : Ring.read n slots xs.length =
      (List.range (xs.drop (xs.length - n)).length).filterMap
        fun i => (xs.drop (xs.length - n))[i]? := by
    rw [hlen]
    apply List.filterMap_congr
    intro i hi
    rw [List.mem_range] at hi
    have hstart : xs.length - min n xs.length = xs.length - n := by omega
    rw [hstart, List.getElem?_drop]
    exact h _ (by omega) (by omega)
  rw [hall, range_getElem?]

end Transition.Ring
