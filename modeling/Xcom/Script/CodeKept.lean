import Xcom.Script.Preserves

/-!
# Properties of the highlight rules

A property of the engine that reads only which scripts are enabled, their rules, their
order and the rules flag, and that the highlight calls keep.
-/

namespace Xcom.Script.Engine

/-- The calls that leave the rules of a script alone. -/
def Api.Quiet : Api → Prop
  | .highlightRule _ _ _ | .highlightClear => False
  | _ => True

/-- A property that the `allowed` highlight calls keep, and every change to the rest of a
record. -/
structure KeptBy (allowed : Api → Prop) (P : State → Prop) : Prop where
  rules : ∀ {s} (c a), allowed a → ¬ a.Quiet → P s → P (callApi c a s)
  modify : ∀ {s} (name) {f : Record → Record},
    (∀ r, (f r).enabled = r.enabled ∧ (f r).rules = r.rules) → P s → P (s.modify name f)
  congr : ∀ {s t : State}, t.scripts = s.scripts → t.order = s.order →
    t.rulesDirty = s.rulesDirty → P s → P t

/-- Such a property is kept by script code: the filter calls leave the rules alone. -/
theorem KeptBy.preserves {allowed : Api → Prop} {P : State → Prop} (h : KeptBy allowed P) :
    Preserves allowed P where
  policy c a ha hpolicy hs := by
    cases a with
    | filterKeep patterns =>
      refine h.congr (s := State.modify _ c.script _) rfl rfl rfl (h.modify c.script ?_ hs)
      exact fun _ => ⟨rfl, rfl⟩
    | filterDrop patterns =>
      refine h.congr (s := State.modify _ c.script _) rfl rfl rfl (h.modify c.script ?_ hs)
      exact fun _ => ⟨rfl, rfl⟩
    | filterClear =>
      refine h.congr (s := State.modify _ c.script _) rfl rfl rfl (h.modify c.script ?_ hs)
      exact fun _ => ⟨rfl, rfl⟩
    | highlightRule pattern color bg => exact h.rules c _ ha id hs
    | highlightClear => exact h.rules c _ ha id hs
    | _ => exact absurd hpolicy id
  modify name f hf hs := by
    apply h.modify name _ hs
    intro r
    have hsame := hf r
    simp only [Record.policy, Prod.mk.injEq] at hsame
    exact ⟨hsame.1, hsame.2.2.2⟩
  congr hscripts horder hdirty _ hs := h.congr hscripts horder hdirty hs

end Xcom.Script.Engine
