import Mathlib.Data.List.Infix

/-!
# Occurrences of a pattern

The occurrences found by searching on behind each one that was found: they do not overlap.
-/

namespace Occurrences

variable {α : Type} [DecidableEq α] (pattern : List α)

/-- The first place a pattern stands at. -/
def search : List α → Option Nat
  | [] => none
  | x :: xs => if pattern.isPrefixOf (x :: xs) then some 0 else (search xs).map (· + 1)

/-- The places of the occurrences in a text that begins at `i`, once `skip` symbols are
passed over. -/
def occurrences : Nat → Nat → List α → List Nat
  | _, _, [] => []
  | skip + 1, i, _ :: xs => occurrences skip (i + 1) xs
  | 0, i, x :: xs =>
    if pattern.isPrefixOf (x :: xs) then i :: occurrences (pattern.length - 1) (i + 1) xs
    else occurrences 0 (i + 1) xs

variable {pattern}

theorem search_cons (x : α) (xs : List α) : search pattern (x :: xs) =
    if pattern.isPrefixOf (x :: xs) then some 0 else (search pattern xs).map (· + 1) := rfl

theorem occurrences_nil (skip i : Nat) : occurrences pattern skip i [] = [] := rfl

theorem occurrences_succ (skip i : Nat) (x : α) (xs : List α) :
    occurrences pattern (skip + 1) i (x :: xs) = occurrences pattern skip (i + 1) xs := rfl

theorem occurrences_cons (i : Nat) (x : α) (xs : List α) : occurrences pattern 0 i (x :: xs) =
    if pattern.isPrefixOf (x :: xs) then i :: occurrences pattern (pattern.length - 1) (i + 1) xs
    else occurrences pattern 0 (i + 1) xs := rfl

theorem search_bound {xs : List α} {n : Nat} (h : search pattern xs = some n) :
    n + pattern.length ≤ xs.length := by
  induction xs generalizing n with
  | nil => cases h
  | cons x xs ih =>
    rw [search_cons] at h
    split at h
    · rename_i hprefix
      cases h
      rw [Nat.zero_add]
      exact (List.isPrefixOf_iff_prefix.mp hprefix).length_le
    · obtain ⟨m, hm, rfl⟩ := Option.map_eq_some_iff.mp h
      have hle := ih hm
      rw [List.length_cons]
      omega

/-- The place found holds the pattern, and nothing of the text before it does. -/
theorem search_split {xs : List α} {n : Nat} (h : search pattern xs = some n) :
    xs = xs.take n ++ pattern ++ xs.drop (n + pattern.length) ∧
      (pattern ≠ [] → ¬ pattern <:+: xs.take n) := by
  induction xs generalizing n with
  | nil => cases h
  | cons x xs ih =>
    rw [search_cons] at h
    split at h
    · rename_i hprefix
      cases h
      obtain ⟨rest, hrest⟩ := List.isPrefixOf_iff_prefix.mp hprefix
      refine ⟨?_, fun hne hinfix => hne (List.infix_nil.mp hinfix)⟩
      rw [List.take_zero, List.nil_append, Nat.zero_add, ← hrest, List.drop_left]
    · rename_i hprefix
      obtain ⟨m, hm, rfl⟩ := Option.map_eq_some_iff.mp h
      obtain ⟨hsplit, hfree⟩ := ih hm
      have hbound := search_bound hm
      constructor
      · rw [List.take_succ_cons, Nat.add_right_comm, List.drop_succ_cons, List.cons_append,
          List.cons_append, ← hsplit]
      · intro hne hinfix
        rw [List.take_succ_cons] at hinfix
        rcases List.infix_cons_iff.mp hinfix with hhead | htail
        · have hwhole := hhead.trans (List.take_prefix (m + 1) (x :: xs))
          exact hprefix (List.isPrefixOf_iff_prefix.mpr hwhole)
        · exact hfree hne htail

/-- Where no place is found there is none. -/
theorem search_none (hne : pattern ≠ []) {xs : List α} (h : search pattern xs = none) :
    ¬ pattern <:+: xs := by
  induction xs with
  | nil => exact fun hinfix => hne (List.infix_nil.mp hinfix)
  | cons x xs ih =>
    rw [search_cons] at h
    split at h
    · cases h
    · rename_i hprefix
      intro hinfix
      rcases List.infix_cons_iff.mp hinfix with hhead | htail
      · exact hprefix (List.isPrefixOf_iff_prefix.mpr hhead)
      · exact ih (Option.map_eq_none_iff.mp h) htail

theorem occurrences_skip (skip i : Nat) (xs : List α) :
    occurrences pattern skip i xs = occurrences pattern 0 (i + skip) (xs.drop skip) := by
  induction skip generalizing i xs with
  | zero => rfl
  | succ skip ih =>
    cases xs with
    | nil => rfl
    | cons x xs =>
      rw [occurrences_succ, ih, List.drop_succ_cons, Nat.add_right_comm, Nat.add_assoc]

/-- The occurrences as a search and what is found behind it. -/
theorem occurrences_search (h : pattern ≠ []) (i : Nat) (xs : List α) :
    occurrences pattern 0 i xs =
      match search pattern xs with
      | none => []
      | some n => (i + n) :: occurrences pattern 0 (i + n + pattern.length)
          (xs.drop (n + pattern.length)) := by
  have hlen : 0 < pattern.length := List.length_pos_iff.mpr h
  induction xs generalizing i with
  | nil => rfl
  | cons x xs ih =>
    rw [occurrences_cons, search_cons]
    split
    · obtain ⟨k, hk⟩ := Nat.exists_eq_add_of_lt hlen
      rw [occurrences_skip, hk]
      simp only [Nat.add_zero, Nat.zero_add, Nat.add_sub_cancel, List.drop_succ_cons]
      rw [Nat.add_right_comm, Nat.add_assoc]
    · rw [ih]
      cases hs : search pattern xs with
      | none => rfl
      | some n =>
        simp only [Option.map_some]
        rw [show n + 1 + pattern.length = n + pattern.length + 1 by omega, List.drop_succ_cons,
          show i + 1 + n = i + (n + 1) by omega]

/-- An occurrence stands within the text. -/
theorem occurrences_bound {skip i : Nat} {xs : List α} {n : Nat}
    (h : n ∈ occurrences pattern skip i xs) : n + pattern.length ≤ i + xs.length := by
  induction xs generalizing skip i with
  | nil => simp [occurrences_nil] at h
  | cons x xs ih =>
    rw [List.length_cons]
    cases skip with
    | succ skip =>
      have hle := ih h
      omega
    | zero =>
      rw [occurrences_cons] at h
      split at h
      · rename_i hprefix
        rcases List.mem_cons.mp h with rfl | h
        · have hle := (List.isPrefixOf_iff_prefix.mp hprefix).length_le
          rw [List.length_cons] at hle
          omega
        · have hle := ih h
          omega
      · have hle := ih h
        omega

end Occurrences
