import Xcom.Transition.Transducer

/-!
# Lines of a stream

A stream cut behind every end mark, as a transducer: the line that has begun is its state,
so that the lines do not depend on how the stream arrives.
-/

namespace Transition.Lines

variable {α : Type} [DecidableEq α] (nl : α)

/-- One symbol: it ends the line that has begun or goes on with it. -/
def cut (held : List α) (b : α) : List (List α) × List α :=
  if b = nl then ([held ++ [b]], []) else ([], held ++ [b])

/-- The complete lines of a text behind the line that has begun, and what is left. -/
abbrev lines (held text : List α) : List (List α) × List α := transduce (cut nl) held text

/-- A text as pieces: its lines, and the rest of it if there is one. -/
def pieces (text : List α) : List (List α) :=
  (lines nl [] text).1 ++ if (lines nl [] text).2 = [] then [] else [(lines nl [] text).2]

variable {nl}

theorem lines_end (held text : List α) :
    lines nl held (nl :: text) =
      ((held ++ [nl]) :: (lines nl [] text).1, (lines nl [] text).2) := by
  simp only [lines, transduce, cut, if_true, List.singleton_append]

theorem lines_go {b : α} (hb : b ≠ nl) (held text : List α) :
    lines nl held (b :: text) = lines nl (held ++ [b]) text := by
  simp only [lines, transduce, cut, if_neg hb, List.nil_append]

/-- Nothing is lost. -/
theorem lines_flatten (nl : α) (held text : List α) :
    (lines nl held text).1.flatten ++ (lines nl held text).2 = held ++ text := by
  induction text generalizing held with
  | nil => simp [lines, transduce]
  | cons b text ih =>
    by_cases hb : b = nl
    · subst hb
      rw [lines_end, List.flatten_cons, List.append_assoc, ih, List.append_assoc]
      rfl
    · rw [lines_go hb, ih, List.append_assoc, List.singleton_append]

/-- A text without an end mark goes on with the line. -/
theorem lines_open (held : List α) {text : List α} (h : nl ∉ text) :
    lines nl held text = ([], held ++ text) := by
  induction text generalizing held with
  | nil => simp [lines, transduce]
  | cons b text ih =>
    have hb : b ≠ nl := fun heq => h (heq ▸ List.mem_cons_self)
    have htext : nl ∉ text := fun hmem => h (List.mem_cons_of_mem b hmem)
    rw [lines_go hb, ih _ htext, List.append_assoc, List.singleton_append]

/-- What has begun may as well be read with the text. -/
theorem lines_held {held : List α} (h : nl ∉ held) (text : List α) :
    lines nl [] (held ++ text) = lines nl held text := by
  have hopen := lines_open [] h
  rw [lines, transduce_append]
  rw [lines] at hopen
  rw [hopen, List.nil_append, List.nil_append]

/-- What is left has no end mark. -/
theorem lines_rest {held text : List α} (h : nl ∉ held) : nl ∉ (lines nl held text).2 := by
  induction text generalizing held with
  | nil => exact h
  | cons b text ih =>
    by_cases hb : b = nl
    · subst hb
      rw [lines_end]
      exact ih List.not_mem_nil
    · rw [lines_go hb]
      apply ih
      intro hmem
      rcases List.mem_append.mp hmem with hmem | hmem
      · exact h hmem
      · exact hb (List.mem_singleton.mp hmem).symm

/-- A text that ends with an end mark is its lines. -/
theorem lines_closed {held text : List α} (h : (held ++ text).getLast? = some nl)
    (hheld : nl ∉ held) : (lines nl held text).2 = [] := by
  by_contra hne
  have hflat := lines_flatten nl held text
  have hlast : (held ++ text).getLast? = (lines nl held text).2.getLast? := by
    rw [← hflat, List.getLast?_append_of_ne_nil _ hne]
  rw [h] at hlast
  exact lines_rest hheld (List.mem_of_getLast? hlast.symm)

theorem pieces_flatten (text : List α) : (pieces nl text).flatten = text := by
  have hflat := lines_flatten nl [] text
  unfold pieces
  split
  · rename_i hrest
    rw [hrest] at hflat
    simpa using hflat
  · simpa using hflat

/-- The complete lines of a text are the lines of their text, and nothing is left of it. -/
theorem lines_complete (text : List α) :
    lines nl [] (lines nl [] text).1.flatten = ((lines nl [] text).1, []) := by
  have hflat := lines_flatten nl [] text
  rw [List.nil_append] at hflat
  have hsplit := transduce_append (cut nl) [] (lines nl [] text).1.flatten (lines nl [] text).2
  have hrest : nl ∉ (lines nl [] text).2 := lines_rest List.not_mem_nil
  have hopen := lines_open (lines nl [] (lines nl [] text).1.flatten).2 hrest
  unfold lines at hopen hflat ⊢
  rw [hflat, hopen, List.append_nil] at hsplit
  have hlines := congrArg Prod.fst hsplit
  have hleft := congrArg Prod.snd hsplit
  have hnone := List.append_left_eq_self.mp hleft.symm
  exact Prod.ext hlines.symm hnone

theorem pieces_complete (text : List α) :
    pieces nl (lines nl [] text).1.flatten = (lines nl [] text).1 := by
  rw [pieces, lines_complete]
  exact List.append_nil _

/-- The line that has begun is no longer than the line it becomes, or than what is left. -/
theorem held_le {n : Nat} {held text : List α}
    (hlines : ∀ l ∈ (lines nl held text).1, l.length ≤ n + 1)
    (hrest : (lines nl held text).2.length ≤ n) : held.length ≤ n := by
  induction text generalizing held with
  | nil => exact hrest
  | cons b text ih =>
    by_cases hb : b = nl
    · subst hb
      rw [lines_end] at hlines
      have hfirst := hlines _ List.mem_cons_self
      rw [List.length_append, List.length_singleton] at hfirst
      omega
    · rw [lines_go hb] at hlines hrest
      have hlonger := ih hlines hrest
      rw [List.length_append] at hlonger
      omega

end Transition.Lines
