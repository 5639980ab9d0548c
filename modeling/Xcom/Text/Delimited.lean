import Mathlib.Data.List.TakeWhile

/-!
# Texts ended by a mark

A text is read up to the first mark, and reading goes on behind it.  What holds no mark and
is written with one behind it is read back whole.
-/

namespace Delimited

variable {α : Type}

/-! ## Writing -/

/-- Texts with a mark behind each. -/
def marked (stop : α) (texts : List (List α)) : List α := texts.flatMap (· ++ [stop])

theorem marked_cons (stop : α) (text : List α) (texts : List (List α)) :
    marked stop (text :: texts) = text ++ stop :: marked stop texts := by
  simp [marked]

theorem marked_append (stop : α) (texts texts' : List (List α)) :
    marked stop (texts ++ texts') = marked stop texts ++ marked stop texts' :=
  List.flatMap_append

/-- Marks between texts and one behind them all are marks behind each. -/
theorem intercalate_append_stop (stop : α) {texts : List (List α)} (h : texts ≠ []) :
    List.intercalate [stop] texts ++ [stop] = marked stop texts := by
  induction texts with
  | nil => exact absurd rfl h
  | cons text texts ih =>
    cases texts with
    | nil => simp [marked, List.intercalate]
    | cons next texts =>
      have hrest : List.intercalate [stop] (next :: texts) ++ [stop] =
          marked stop (next :: texts) := ih (List.cons_ne_nil _ _)
      rw [marked_cons, ← hrest]
      simp [List.intercalate]

/-- A text put between parts is a text behind each of them but the last. -/
theorem intercalate_concat (sep : List α) (texts : List (List α)) (last : List α) :
    List.intercalate sep (texts ++ [last]) = texts.flatMap (· ++ sep) ++ last := by
  induction texts with
  | nil => simp [List.intercalate]
  | cons text texts ih =>
    have hrest : texts ++ [last] ≠ [] := List.concat_ne_nil last texts
    rw [List.cons_append, List.intercalate_cons_of_ne_nil hrest, ih, List.flatMap_cons]
    simp only [List.append_assoc]

/-! ## Reading -/

variable [DecidableEq α] (stop : α)

/-- The part before the first mark. -/
def before (xs : List α) : List α := xs.takeWhile (· ≠ stop)

/-- The part behind the first mark. -/
def behind (xs : List α) : List α := (xs.dropWhile (· ≠ stop)).tail

variable {stop}

@[simp] theorem before_nil : before stop [] = [] := rfl

theorem before_cons_stop (xs : List α) : before stop (stop :: xs) = [] := by
  simp [before]

theorem before_cons_ne {a : α} (h : a ≠ stop) (xs : List α) :
    before stop (a :: xs) = a :: before stop xs := by
  simp [before, h]

theorem length_before_le (xs : List α) : (before stop xs).length ≤ xs.length :=
  (List.takeWhile_prefix _).length_le

theorem not_mem_before (xs : List α) : stop ∉ before stop xs := by
  intro hmem
  have hne := List.mem_takeWhile_imp hmem
  simp at hne

theorem before_mark {text : List α} (h : stop ∉ text) (rest : List α) :
    before stop (text ++ stop :: rest) = text := by
  induction text with
  | nil => exact before_cons_stop rest
  | cons a text ih =>
    obtain ⟨ha, htext⟩ := not_or.mp (List.mem_cons.not.mp h)
    rw [List.cons_append, before_cons_ne (Ne.symm ha), ih htext]

theorem behind_mark {text : List α} (h : stop ∉ text) (rest : List α) :
    behind stop (text ++ stop :: rest) = rest := by
  induction text with
  | nil => simp [behind]
  | cons a text ih =>
    obtain ⟨ha, htext⟩ := not_or.mp (List.mem_cons.not.mp h)
    have hskip : behind stop (a :: (text ++ stop :: rest)) =
        behind stop (text ++ stop :: rest) := by
      simp [behind, Ne.symm ha]
    rw [List.cons_append, hskip, ih htext]

theorem before_of_not_mem {text : List α} (h : stop ∉ text) : before stop text = text := by
  induction text with
  | nil => rfl
  | cons a text ih =>
    obtain ⟨ha, htext⟩ := not_or.mp (List.mem_cons.not.mp h)
    rw [before_cons_ne (Ne.symm ha), ih htext]

/-- Cutting what is stored cuts what is read. -/
theorem before_take (n : Nat) (xs : List α) :
    before stop (xs.take n) = (before stop xs).take n := by
  induction xs generalizing n with
  | nil => simp
  | cons a xs ih =>
    cases n with
    | zero => rfl
    | succ n =>
      by_cases ha : a = stop
      · subst ha
        rw [List.take_succ_cons, before_cons_stop, before_cons_stop, List.take_nil]
      · rw [List.take_succ_cons, before_cons_ne ha, before_cons_ne ha, List.take_succ_cons, ih]

/-- A mark behind everything changes nothing. -/
theorem before_append_stop (xs : List α) : before stop (xs ++ [stop]) = before stop xs := by
  induction xs with
  | nil => exact before_cons_stop []
  | cons a xs ih =>
    by_cases ha : a = stop
    · subst ha
      rw [List.cons_append, before_cons_stop, before_cons_stop]
    · rw [List.cons_append, before_cons_ne ha, before_cons_ne ha, ih]

end Delimited
