import Mathlib.Data.List.Chain

/-!
# Edges of a latched signal

A latch remembers the last reading of a Boolean signal and reports a change: `true` for
a rising edge and `false` for a falling one.  The reports alternate, whatever is read.
-/

namespace Transition.Latch

/-- What a latch that holds `held` reports when it reads `signal`. -/
def edge (held signal : Bool) : Option Bool :=
  if signal && !held then some true
  else if !signal && held then some false
  else none

/-- The reports of a latch over a stream of readings. -/
def edges : Bool → List Bool → List Bool
  | _, [] => []
  | held, signal :: signals => (edge held signal).toList ++ edges signal signals

@[simp] theorem edge_self (held : Bool) : edge held held = none := by
  cases held <;> rfl

theorem edge_of_ne {held signal : Bool} (h : signal ≠ held) : edge held signal = some signal := by
  cases held <;> cases signal <;> first | rfl | exact absurd rfl h

@[simp] theorem edges_cons_self (held : Bool) (signals : List Bool) :
    edges held (held :: signals) = edges held signals := by
  rw [edges, edge_self, Option.toList_none, List.nil_append]

theorem edges_cons_of_ne {held signal : Bool} (h : signal ≠ held) (signals : List Bool) :
    edges held (signal :: signals) = signal :: edges signal signals := by
  rw [edges, edge_of_ne h, Option.toList_some, List.singleton_append]

/-- The first report differs from what is held. -/
theorem head_edges (held : Bool) (signals : List Bool) :
    ∀ e ∈ (edges held signals).head?, e ≠ held := by
  induction signals with
  | nil =>
    intro e he
    cases he
  | cons signal signals ih =>
    by_cases hsame : signal = held
    · subst hsame
      rwa [edges_cons_self]
    · rw [edges_cons_of_ne hsame]
      intro e he
      cases he
      exact hsame

/-- Rising and falling edges alternate. -/
theorem isChain_edges (held : Bool) (signals : List Bool) :
    (edges held signals).IsChain (· ≠ ·) := by
  induction signals generalizing held with
  | nil => exact .nil
  | cons signal signals ih =>
    by_cases hsame : signal = held
    · subst hsame
      rw [edges_cons_self]
      exact ih signal
    · rw [edges_cons_of_ne hsame, List.isChain_cons]
      refine ⟨?_, ih signal⟩
      intro e he
      exact (head_edges signal signals e he).symm

end Transition.Latch
