import Mathlib.Data.List.Basic

/-!
# Fields between separators

A text is split into its longest runs of symbols that are no separators.  Words that hold no
separator and are not empty are found again between separators.
-/

namespace Fields

variable {α : Type} (sep : α → Bool)

/-- The runs of a text that is read behind `run`. -/
def runsFrom : List α → List α → List (List α)
  | run, [] => if run.isEmpty then [] else [run]
  | run, x :: xs =>
    if sep x then (if run.isEmpty then [] else [run]) ++ runsFrom [] xs
    else runsFrom (run ++ [x]) xs

/-- The longest runs without separators. -/
def runs (xs : List α) : List (List α) := runsFrom sep [] xs

/-- A text without separators. -/
def Clean (xs : List α) : Prop := ∀ x ∈ xs, sep x = false

variable {sep}

theorem clean_nil : Clean sep [] := fun _ h => absurd h List.not_mem_nil

theorem Clean.append {xs ys : List α} (hx : Clean sep xs) (hy : Clean sep ys) :
    Clean sep (xs ++ ys) := by
  intro c hc
  rcases List.mem_append.mp hc with hc | hc
  · exact hx c hc
  · exact hy c hc

theorem runsFrom_clean {xs : List α} (h : Clean sep xs) (run rest : List α) :
    runsFrom sep run (xs ++ rest) = runsFrom sep (run ++ xs) rest := by
  induction xs generalizing run with
  | nil => rw [List.append_nil, List.nil_append]
  | cons x xs ih =>
    have hx : sep x = false := h x List.mem_cons_self
    have hxs : Clean sep xs := fun c hc => h c (.tail _ hc)
    rw [List.cons_append, runsFrom, if_neg (by rw [hx]; exact Bool.false_ne_true), ih hxs,
      List.append_assoc, List.singleton_append]

/-- No run holds a separator. -/
theorem clean_of_mem_runsFrom {run xs word : List α} (hrun : Clean sep run)
    (h : word ∈ runsFrom sep run xs) : Clean sep word := by
  induction xs generalizing run with
  | nil =>
    rw [runsFrom] at h
    split at h
    · cases h
    · rw [List.mem_singleton.mp h]
      exact hrun
  | cons x xs ih =>
    rw [runsFrom] at h
    split at h
    · rcases List.mem_append.mp h with h | h
      · split at h
        · cases h
        · rw [List.mem_singleton.mp h]
          exact hrun
      · exact ih clean_nil h
    · rename_i hx
      have hone : Clean sep [x] := by
        intro c hc
        rw [List.mem_singleton.mp hc]
        simpa using hx
      exact ih (hrun.append hone) h

theorem clean_of_mem_runs {xs word : List α} (h : word ∈ runs sep xs) : Clean sep word :=
  clean_of_mem_runsFrom clean_nil h

/-- Words written with a separator between any two are found again. -/
theorem runs_intercalate {stop : α} (hstop : sep stop = true) {words : List (List α)}
    (hclean : ∀ word ∈ words, Clean sep word) (hne : ∀ word ∈ words, word ≠ []) :
    runs sep ([stop].intercalate words) = words := by
  induction words with
  | nil => rfl
  | cons word words ih =>
    have hword : (word.isEmpty : Bool) = false := by
      have hnonempty := hne word List.mem_cons_self
      cases word with
      | nil => exact absurd rfl hnonempty
      | cons x word => rfl
    have hwordClean := hclean word List.mem_cons_self
    have hrest := ih (fun w hw => hclean w (.tail _ hw)) fun w hw => hne w (.tail _ hw)
    cases words with
    | nil =>
      have hone : [stop].intercalate [word] = word ++ [] := by simp [List.intercalate]
      rw [runs, hone, runsFrom_clean hwordClean, List.nil_append, runsFrom, hword]
      rfl
    | cons next words =>
      have hmore : [stop].intercalate (word :: next :: words) =
          word ++ stop :: [stop].intercalate (next :: words) := by
        simp [List.intercalate]
      rw [runs, hmore, runsFrom_clean hwordClean, List.nil_append, runsFrom, if_pos hstop, hword]
      exact congrArg (word :: ·) hrest

end Fields
