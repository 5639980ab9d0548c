import Mathlib.Data.List.Basic

/-!
# Histories and their ledgers

What a step does can be told as a history of events.  A ledger is kept along it, an event
after the other; a law about events is a law about each with the ledger before it.
-/

namespace Transition.History

universe u v w

variable {ε : Type u} {κ : Type v} {σ : Type w}

/-- `p` holds of every event of a history and the ledger before it. -/
def Throughout (after : κ → ε → κ) (p : κ → ε → Prop) : κ → List ε → Prop
  | _, [] => True
  | l, e :: es => p l e ∧ Throughout after p (after l e) es

instance decidableThroughout (after : κ → ε → κ) (p : κ → ε → Prop)
    [∀ l e, Decidable (p l e)] : ∀ l es, Decidable (Throughout after p l es)
  | _, [] => .isTrue trivial
  | l, e :: es =>
    have := decidableThroughout after p (after l e) es
    inferInstanceAs (Decidable (p l e ∧ Throughout after p (after l e) es))

theorem throughout_append {after : κ → ε → κ} {p : κ → ε → Prop} {l : κ} {es es' : List ε} :
    Throughout after p l (es ++ es') ↔
      Throughout after p l es ∧ Throughout after p (es.foldl after l) es' := by
  induction es generalizing l with
  | nil => simp [Throughout]
  | cons e es ih =>
    show p l e ∧ Throughout after p (after l e) (es ++ es') ↔ _
    rw [ih, ← and_assoc]
    exact Iff.rfl

/-- An event of a history is looked at with the ledger of the events before it. -/
theorem throughout_iff {after : κ → ε → κ} {p : κ → ε → Prop} {l : κ} {es : List ε} :
    Throughout after p l es ↔ ∀ pre e, pre ++ [e] <+: es → p (pre.foldl after l) e := by
  induction es generalizing l with
  | nil =>
    refine ⟨fun _ pre e hpre => ?_, fun _ => trivial⟩
    exact absurd (List.prefix_nil.mp hpre) (by simp)
  | cons e es ih =>
    constructor
    · rintro ⟨hhead, hlater⟩ pre e' hpre
      cases pre with
      | nil =>
        obtain ⟨rfl, -⟩ := List.cons_prefix_cons.mp hpre
        exact hhead
      | cons e₀ pre =>
        obtain ⟨rfl, hlate⟩ := List.cons_prefix_cons.mp hpre
        exact ih.mp hlater pre e' hlate
    · intro hall
      refine ⟨hall [] e (List.prefix_append [e] es), ih.mpr ?_⟩
      intro pre e' hpre
      exact hall (e :: pre) e' (List.cons_prefix_cons.mpr ⟨rfl, hpre⟩)

/-- Two conditions that agree where an invariant holds, which it does as long as they do. -/
theorem throughout_congr {after : κ → ε → κ} {p q : κ → ε → Prop} {inv : κ → Prop}
    (hiff : ∀ l e, inv l → (p l e ↔ q l e)) (hstep : ∀ l e, inv l → p l e → inv (after l e))
    {l : κ} (hl : inv l) (es : List ε) : Throughout after p l es ↔ Throughout after q l es := by
  induction es generalizing l with
  | nil => exact Iff.rfl
  | cons e es ih =>
    constructor
    · rintro ⟨hhead, hlater⟩
      exact ⟨(hiff l e hl).mp hhead, (ih (hstep l e hl hhead)).mp hlater⟩
    · rintro ⟨hhead, hlater⟩
      have hhead' := (hiff l e hl).mpr hhead
      exact ⟨hhead', (ih (hstep l e hl hhead')).mpr hlater⟩

/-- How a ledger is kept, when an event is as it should be, which events are looked at, and
what the ledger has to do with the state. -/
structure Book (ε : Type u) (κ : Type v) (σ : Type w) where
  after : κ → ε → κ
  meets : κ → ε → Prop
  right : κ → ε → Prop
  inv : κ → σ → Prop

/-- A history that leads from `s` to `t`: where its events meet the condition they are
right, and the ledger behind them belongs to `t`. -/
def Book.Carries (b : Book ε κ σ) (es : List ε) (s t : σ) : Prop :=
  ∀ l, b.inv l s → Throughout b.after b.meets l es →
    Throughout b.after b.right l es ∧ b.inv (es.foldl b.after l) t

namespace Book.Carries

variable {b : Book ε κ σ} {es es' : List ε} {s t r : σ}

theorem nil (h : ∀ l, b.inv l s → b.inv l t) : b.Carries [] s t :=
  fun l hl _ => ⟨trivial, h l hl⟩

theorem single {e : ε} (h : ∀ l, b.inv l s → b.meets l e → b.right l e ∧ b.inv (b.after l e) t) :
    b.Carries [e] s t := by
  intro l hl hmeets
  obtain ⟨hright, hinv⟩ := h l hl hmeets.1
  exact ⟨⟨hright, trivial⟩, hinv⟩

theorem append (h : b.Carries es s t) (h' : b.Carries es' t r) : b.Carries (es ++ es') s r := by
  intro l hl hmeets
  rw [throughout_append] at hmeets
  obtain ⟨hright, hinv⟩ := h l hl hmeets.1
  obtain ⟨hright', hinv'⟩ := h' _ hinv hmeets.2
  rw [throughout_append, List.foldl_append]
  exact ⟨⟨hright, hright'⟩, hinv'⟩

/-- Before the history, the state may move where the ledger does not see it. -/
theorem of_before (h : b.Carries es t r) (hsame : ∀ l, b.inv l s → b.inv l t) :
    b.Carries es s r := (nil hsame).append h

/-- And behind it. -/
theorem of_behind (h : b.Carries es s t) (hsame : ∀ l, b.inv l t → b.inv l r) :
    b.Carries es s r := by
  rw [← List.append_nil es]
  exact h.append (nil hsame)

end Book.Carries

end Transition.History
