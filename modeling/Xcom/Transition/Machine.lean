import Mathlib.Order.Basic

/-!
# Machines with an executable step

A machine is an initial state and a partial step driven by labels: a label names
the party that moves and fixes every choice the environment makes for it.  Runs
are studied under a condition on their steps, read off the state before the step.
-/

namespace Transition

universe u v u' v'

/-- A machine with one initial state and a partial, executable step. -/
structure Machine (σ : Type u) (ε : Type v) where
  init : σ
  step : σ → ε → Option σ

variable {σ : Type u} {ε : Type v} {τ : Type u'} {δ : Type v'}

/-- The states of the runs of `m` whose steps all meet `c`. -/
inductive ReachUnder (m : Machine σ ε) (c : σ → ε → Prop) : σ → Prop
  | init : ReachUnder m c m.init
  | step {s s' : σ} {e : ε} :
      ReachUnder m c s → c s e → m.step s e = some s' → ReachUnder m c s'

/-- The reachable states of `m`. -/
abbrev Reach (m : Machine σ ε) : σ → Prop := ReachUnder m fun _ _ => True

namespace ReachUnder

variable {m : Machine σ ε} {c d : σ → ε → Prop} {p q : σ → Prop}

theorem mono (h : ∀ s e, c s e → d s e) {s : σ} (hs : ReachUnder m c s) :
    ReachUnder m d s := by
  induction hs with
  | init => exact .init
  | step _ hc hstep ih => exact .step ih (h _ _ hc) hstep

theorem reach {s : σ} (hs : ReachUnder m c s) : Reach m s :=
  hs.mono fun _ _ _ => trivial

/-- The invariant rule: what holds initially and is kept by every step that
meets the condition holds in every state of such a run. -/
theorem invariant (hinit : p m.init)
    (hstep : ∀ s e s', p s → c s e → m.step s e = some s' → p s')
    {s : σ} (hs : ReachUnder m c s) : p s := by
  induction hs with
  | init => exact hinit
  | step _ hc hs' ih => exact hstep _ _ _ ih hc hs'

/-- The invariant rule relative to an invariant `q` that is already known. -/
theorem invariantUsing (hq : ∀ s, ReachUnder m c s → q s) (hinit : p m.init)
    (hstep : ∀ s e s', q s → p s → c s e → m.step s e = some s' → p s')
    {s : σ} (hs : ReachUnder m c s) : p s := by
  induction hs with
  | init => exact hinit
  | step hprev hc hs' ih => exact hstep _ _ _ (hq _ hprev) ih hc hs'

end ReachUnder

/-- Runs a list of labels, checking the condition before every step. -/
def execUnder (m : Machine σ ε) (c : σ → ε → Prop) [∀ s e, Decidable (c s e)] :
    σ → List ε → Option σ
  | s, [] => some s
  | s, e :: es =>
    if c s e then (m.step s e).bind fun s' => execUnder m c s' es else none

/-- Runs a list of labels. -/
abbrev exec (m : Machine σ ε) : σ → List ε → Option σ :=
  execUnder m fun _ _ => True

theorem reachUnder_of_execUnder {m : Machine σ ε} {c : σ → ε → Prop}
    [∀ s e, Decidable (c s e)] {es : List ε} {s s' : σ}
    (hs : ReachUnder m c s) (h : execUnder m c s es = some s') : ReachUnder m c s' := by
  induction es generalizing s with
  | nil =>
    simp only [execUnder, Option.some.injEq] at h
    exact h ▸ hs
  | cons e es ih =>
    simp only [execUnder] at h
    split at h
    · rename_i hc
      obtain ⟨t, ht, hrest⟩ := Option.bind_eq_some_iff.mp h
      exact ih (.step hs hc ht) hrest
    · cases h

/-- A run of labels that ends in a state with property `p` exhibits such a state. -/
theorem exists_of_execUnder {m : Machine σ ε} {c : σ → ε → Prop}
    [∀ s e, Decidable (c s e)] {p : σ → Prop} [DecidablePred p] (es : List ε)
    (h : (execUnder m c m.init es).any (fun s => decide (p s)) = true) :
    ∃ s, ReachUnder m c s ∧ p s := by
  cases hrun : execUnder m c m.init es with
  | none => simp [hrun] at h
  | some s =>
    rw [hrun, Option.any_some] at h
    exact ⟨s, reachUnder_of_execUnder .init hrun, of_decide_eq_true h⟩

/-- A machine `m` seen through `state`: every step of `m` is either invisible or
a step of the smaller machine `n`. -/
structure Projection (m : Machine σ ε) (n : Machine τ δ) where
  state : σ → τ
  label : ε → Option δ
  init : state m.init = n.init
  step : ∀ {s e s'}, m.step s e = some s' →
    (label e = none ∧ state s' = state s) ∨
    ∃ f, label e = some f ∧ n.step (state s) f = some (state s')

theorem Projection.reachUnder {m : Machine σ ε} {n : Machine τ δ}
    (π : Projection m n) {c : σ → ε → Prop} {d : τ → δ → Prop}
    (hcond : ∀ s e f, π.label e = some f → c s e → d (π.state s) f)
    {s : σ} (hs : ReachUnder m c s) : ReachUnder n d (π.state s) := by
  induction hs with
  | init => exact π.init ▸ .init
  | step _ hc hstep ih =>
    rcases π.step hstep with ⟨-, heq⟩ | ⟨f, hf, hn⟩
    · exact heq ▸ ih
    · exact .step ih (hcond _ _ f hf hc) hn

end Transition
