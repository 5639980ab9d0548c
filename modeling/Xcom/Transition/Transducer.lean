import Mathlib.Data.List.Basic

/-!
# Transducers

A transducer reads one symbol at a time, writes a list of symbols for it and moves to
its next state.  What it makes of a stream does not depend on how the stream is cut.
-/

namespace Transition

universe u v w

variable {σ : Type u} {α : Type v} {β : Type w}

/-- What a transducer writes for a stream, and its state behind it. -/
def transduce (f : σ → α → List β × σ) : σ → List α → List β × σ
  | s, [] => ([], s)
  | s, x :: xs => ((f s x).1 ++ (transduce f (f s x).2 xs).1, (transduce f (f s x).2 xs).2)

/-- Runs a function on blocks one by one and carries the state between them. -/
def overBlocks (f : σ → List α → List β × σ) : σ → List (List α) → List β × σ
  | s, [] => ([], s)
  | s, x :: xs => ((f s x).1 ++ (overBlocks f (f s x).2 xs).1, (overBlocks f (f s x).2 xs).2)

theorem transduce_append (f : σ → α → List β × σ) (s : σ) (xs ys : List α) :
    transduce f s (xs ++ ys) =
      ((transduce f s xs).1 ++ (transduce f (transduce f s xs).2 ys).1,
        (transduce f (transduce f s xs).2 ys).2) := by
  induction xs generalizing s with
  | nil => rfl
  | cons x xs ih =>
    rw [List.cons_append, transduce, ih, transduce, List.append_assoc]

/-- A function that is a transducer on the blocks it is given is one on their stream. -/
theorem overBlocks_eq_transduce {f : σ → α → List β × σ} {g : σ → List α → List β × σ}
    {xss : List (List α)} (h : ∀ xs ∈ xss, ∀ s, g s xs = transduce f s xs) (s : σ) :
    overBlocks g s xss = transduce f s xss.flatten := by
  induction xss generalizing s with
  | nil => rfl
  | cons xs xss ih =>
    have hhead := h xs List.mem_cons_self
    have htail := ih fun ys hys => h ys (List.mem_cons_of_mem xs hys)
    rw [List.flatten_cons, transduce_append, overBlocks, hhead, htail]

end Transition
