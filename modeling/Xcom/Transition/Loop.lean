import Mathlib.Order.Basic

/-!
# Loops

A loop is one round of it: the round goes on with a new state or it ends the loop with a
value.  Nothing says that a loop ends; an invariant and a measure that falls do.
-/

namespace Transition.Loop

universe u v

/-- What one round comes to. -/
inductive Round (σ : Type u) (β : Type v)
  | next (s : σ)
  | done (b : β)

variable {σ : Type u} {β : Type v}

/-- The loop, left after `n` rounds. -/
def run (round : σ → Round σ β) : Nat → σ → Option β
  | 0, _ => none
  | n + 1, s =>
    match round s with
    | .next t => run round n t
    | .done b => some b

/-- The loop ends and gives `b`. -/
def Returns (round : σ → Round σ β) (s : σ) (b : β) : Prop := ∃ n, run round n s = some b

variable {round : σ → Round σ β} {s t : σ} {b : β}

theorem run_next (h : round s = .next t) (n : Nat) : run round (n + 1) s = run round n t := by
  simp only [run, h]

theorem run_done (h : round s = .done b) (n : Nat) : run round (n + 1) s = some b := by
  simp only [run, h]

theorem Returns.done (h : round s = .done b) : Returns round s b := ⟨1, run_done h 0⟩

theorem Returns.next (h : round s = .next t) (ht : Returns round t b) : Returns round s b := by
  obtain ⟨n, hn⟩ := ht
  exact ⟨n + 1, (run_next h n).trans hn⟩

/-- A loop whose rounds keep an invariant and lower a measure ends. -/
theorem returns {inv : σ → Prop} {post : β → Prop} (measure : σ → Nat)
    (hnext : ∀ s t, inv s → round s = .next t → inv t ∧ measure t < measure s)
    (hdone : ∀ s b, inv s → round s = .done b → post b) (hs : inv s) :
    ∃ b, Returns round s b ∧ post b := by
  induction hm : measure s using Nat.strongRecOn generalizing s with
  | ind m ih =>
    cases hround : round s with
    | done b => exact ⟨b, .done hround, hdone s b hs hround⟩
    | next t =>
      obtain ⟨ht, hlt⟩ := hnext s t hs hround
      obtain ⟨b, hb, hpost⟩ := ih (measure t) (hm ▸ hlt) ht rfl
      exact ⟨b, .next hround hb, hpost⟩

/-- A loop that only ever goes on does not end. -/
theorem stays {inv : σ → Prop} (hnext : ∀ s, inv s → ∃ t, round s = .next t ∧ inv t)
    (hs : inv s) (b : β) : ¬ Returns round s b := by
  rintro ⟨n, hn⟩
  induction n generalizing s with
  | zero => cases hn
  | succ n ih =>
    obtain ⟨t, hround, ht⟩ := hnext s hs
    exact ih ht ((run_next hround n).symm.trans hn)

end Transition.Loop
