import Mathlib.Logic.Relation
import Xcom.Transition.Machine

/-!
# Simulations

A relation between two machines under which every step of the first is matched by some
steps of the second.  What is reachable in the first is then related to something that
is reachable in the second.
-/

namespace Transition

universe u v u' v'

variable {σ : Type u} {ε : Type v} {τ : Type u'} {δ : Type v'}

/-- Some steps of a machine. -/
abbrev Steps (n : Machine τ δ) : τ → τ → Prop :=
  Relation.ReflTransGen fun t t' => ∃ f, n.step t f = some t'

theorem Steps.reach {n : Machine τ δ} {t t' : τ} (h : Steps n t t') (ht : Reach n t) :
    Reach n t' := by
  induction h with
  | refl => exact ht
  | tail _ hstep ih =>
    obtain ⟨f, hf⟩ := hstep
    exact .step ih trivial hf

/-- Every step of `m` is matched by some steps of `n`. -/
structure Simulation (m : Machine σ ε) (n : Machine τ δ) (r : σ → τ → Prop) : Prop where
  init : r m.init n.init
  step : ∀ {s e s' t}, Reach m s → Reach n t → r s t → m.step s e = some s' →
    ∃ t', Steps n t t' ∧ r s' t'

theorem Simulation.reach {m : Machine σ ε} {n : Machine τ δ} {r : σ → τ → Prop}
    (h : Simulation m n r) {s : σ} (hs : Reach m s) : ∃ t, Reach n t ∧ r s t := by
  induction hs with
  | init => exact ⟨n.init, .init, h.init⟩
  | step hprev _ hstep ih =>
    obtain ⟨t, ht, hr⟩ := ih
    obtain ⟨t', hsteps, hr'⟩ := h.step hprev ht hr hstep
    exact ⟨t', hsteps.reach ht, hr'⟩

end Transition
