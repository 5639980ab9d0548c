import Xcom.Script.CodeKept
import Xcom.Script.Rules

/-!
# The rules the renderer holds

The window takes the rules at its start and never again, so a frame leaves in the renderer
the list of the start, whatever the scripts did since.
-/

namespace Xcom.Script.Engine

variable {s : State} {name : Bytes}

/-- While the rules flag is down, no script is enabled: the list taken would be empty. -/
def Announced (s : State) : Prop := s.rulesDirty = false → ∀ name, s.isEnabled name = false

theorem isEnabled_modify (s : State) (name : Bytes) (f : Record → Record) (n : Bytes) :
    (s.modify name f).isEnabled n =
      if n = name then (s.scripts n).any fun r => (f r).enabled else s.isEnabled n := by
  by_cases hn : n = name
  · cases hs : s.scripts n <;> simp [State.isEnabled, State.modify, ← hn, hs]
  · simp [State.isEnabled, State.modify, hn]

/-- An update that turns no script on. -/
theorem Announced.modify (h : Announced s) (name : Bytes) {f : Record → Record}
    (hf : ∀ r, (f r).enabled = true → r.enabled = true) : Announced (s.modify name f) := by
  intro hclean n
  have hoff := h hclean n
  rw [isEnabled_modify]
  by_cases hn : n = name
  · rw [if_pos hn]
    cases hs : s.scripts n with
    | none => rfl
    | some r =>
      have hr : r.enabled = false := by simpa [State.isEnabled, hs] using hoff
      show (f r).enabled = false
      by_contra hon
      have hon' := hf r (by simpa using hon)
      rw [hr] at hon'
      cases hon'
  · rw [if_neg hn]
    exact hoff

theorem announced_of_dirty (h : s.rulesDirty = true) : Announced s := by
  intro hclean
  rw [h] at hclean
  cases hclean

/-- Script code turns no script on and takes no flag down. -/
theorem announced_kept : KeptBy (fun _ => True) Announced where
  rules c a _ hrules h := by
    cases a with
    | highlightRule pattern color bg =>
      by_cases hp : pattern = []
      · simpa only [callApi, if_pos hp] using h
      · simp only [callApi, if_neg hp]
        exact announced_of_dirty rfl
    | highlightClear => exact announced_of_dirty rfl
    | _ => exact absurd trivial hrules
  modify name f hf h := by
    apply h.modify
    intro r hr
    rw [← (hf r).1]
    exact hr
  congr hscripts _ hdirty h := by
    intro hclean n
    have hoff := h (hdirty ▸ hclean) n
    unfold State.isEnabled at hoff ⊢
    rw [hscripts]
    exact hoff

/-- A load that succeeds raises the flag. -/
theorem loadScript_dirty (name : Bytes) (file : File) (s : State)
    (hok : (loadScript name file s).2 = true) : (loadScript name file s).1.rulesDirty = true := by
  unfold loadScript at hok ⊢
  split at hok
  · cases hok
  · dsimp only at hok ⊢
    split at hok
    · cases hok
    · split at hok
      · cases hok
      · rfl

theorem announced_loadScript (h : Announced s) (name : Bytes) (file : File) :
    Announced (loadScript name file s).1 := by
  have hreload : Announced (onReload file s) :=
    announced_kept.preserves.onReload (fun _ codes _ role f => (codes role f).within_all) h
  unfold loadScript
  split
  · exact h
  · dsimp only
    split
    · apply Announced.modify (s := (onReload file s).retire name) hreload
      intro r hr
      cases hr
    · rename_i chunk _
      have hfresh : Announced (((onReload file s).retire name).modify name
          fun r => r.fresh name) :=
        Announced.modify (s := (onReload file s).retire name) hreload name fun _ hr => hr
      have hrun := announced_kept.preserves.exec chunk chunk.within_all
        ⟨name, (((onReload file s).retire name).modify name fun r => r.fresh name).loadOf name⟩
        hfresh
      split
      · rename_i s₃ hres
        rw [hres] at hrun
        apply Announced.modify (s := s₃.retire name) hrun
        intro r hr
        cases hr
      · exact announced_of_dirty rfl

theorem announced_enable (h : Announced s) (name : Bytes) (file : File) :
    Announced (enable name file s) := by
  have hload := announced_loadScript h name file
  have hdirty := loadScript_dirty name file s
  unfold enable
  rcases hres : loadScript name file s with ⟨t, ok⟩
  rw [hres] at hload hdirty
  cases ok with
  | false =>
    apply Announced.modify hload
    intro r hr
    cases hr
  | true => exact announced_of_dirty (hdirty rfl)

theorem collectRules_eq_nil (h : ∀ name, s.isEnabled name = false) : collectRules s = [] := by
  have hnone : ∀ name, s.rulesOf name = [] := by
    intro name
    have hoff := h name
    unfold State.rulesOf
    cases hs : s.scripts name with
    | none => rfl
    | some record =>
      have hr : record.enabled = false := by simpa [State.isEnabled, hs] using hoff
      simp [hr]
  unfold collectRules
  rw [List.flatMap_eq_nil_iff.mpr fun name _ => hnone name]
  rfl

end Xcom.Script.Engine

namespace Xcom.Script.Highlight

open Engine (State File Announced collectRules)

/-- What the renderer holds once the pending push, if any, is made. -/
def Window.shown (w : Window) : List Engine.Rule :=
  if w.scriptRulesDirty then w.scriptRules.getD [] else w.nativeRules

theorem native_frame (w : Window) : w.frame.nativeRules = w.shown := by
  unfold Window.frame Window.shown
  split <;> rfl

/-- No event hands the window other rules. -/
theorem shown_step (w : Window) (e : Event) : (w.step e).shown = w.shown := by
  cases e with
  | engine o => rfl
  | frame =>
    show w.frame.shown = w.shown
    by_cases hdirty : w.scriptRulesDirty = true
    · simp [Window.frame, Window.shown, hdirty]
    · simp [Window.frame, Window.shown, hdirty]

theorem shown_run (w : Window) (events : List Event) : (w.run events).shown = w.shown := by
  induction events generalizing w with
  | nil => rfl
  | cons e events ih =>
    calc
      ((w.step e).run events).shown = (w.step e).shown := ih (w.step e)
      _ = w.shown := shown_step w e

theorem announced_startScripts (scan : Option (List Bytes))
    (scriptEnabled : List (Bytes × File)) : Announced (startScripts scan scriptEnabled) := by
  have henables : ∀ (entries : List (Bytes × File)) (s : State), Announced s →
      Announced (entries.foldl (fun s e => Engine.enable e.1 e.2 s) s) := by
    intro entries
    induction entries with
    | nil => exact fun s hs => hs
    | cons e entries ih => exact fun s hs => ih _ (Engine.announced_enable hs e.1 e.2)
  unfold startScripts
  apply henables
  intro _ name
  cases scan with
  | none => rfl
  | some names =>
    by_cases hname : name ∈ names
    · simp [Engine.State.isEnabled, Engine.loadAll, Engine.State.touch, hname]
    · simp [Engine.State.isEnabled, Engine.loadAll, Engine.State.touch, hname]

/-- The one-shot push hands over the rules of the start. -/
theorem shown_start (scan : Option (List Bytes)) (scriptEnabled : List (Bytes × File)) :
    (start scan scriptEnabled).shown = collectRules (start scan scriptEnabled).scripts := by
  have hann := announced_startScripts scan scriptEnabled
  unfold start Engine.takeRulesIfDirty
  by_cases hdirty : (startScripts scan scriptEnabled).rulesDirty = true
  · simp [hdirty, Window.shown]
  · have hclean : (startScripts scan scriptEnabled).rulesDirty = false := by simpa using hdirty
    simp [hclean, Window.shown, Engine.collectRules_eq_nil (hann hclean)]

/-- After a frame the renderer holds the rules that were in effect at the start. -/
theorem native_run_frame (scan : Option (List Bytes)) (scriptEnabled : List (Bytes × File))
    (events : List Event) :
    ((start scan scriptEnabled).run (events ++ [.frame])).nativeRules =
      collectRules (start scan scriptEnabled).scripts := by
  have hlast : (start scan scriptEnabled).run (events ++ [.frame]) =
      ((start scan scriptEnabled).run events).frame := by
    simp [Window.run, Window.step]
  rw [hlast, native_frame, shown_run, shown_start]

/-- A frame changes nothing in the engine. -/
theorem scripts_run_frame (w : Window) (events : List Event) :
    (w.run (events ++ [.frame])).scripts = (w.run events).scripts := by
  have hlast : w.run (events ++ [.frame]) = (w.run events).frame := by
    simp [Window.run, Window.step]
  rw [hlast]
  unfold Window.frame
  split <;> rfl

/-- After a frame the renderer holds the rules in effect exactly where these are the rules
that were in effect at the start. -/
theorem native_current_iff (scan : Option (List Bytes)) (scriptEnabled : List (Bytes × File))
    (events : List Event) :
    ((start scan scriptEnabled).run (events ++ [.frame])).nativeRules =
        collectRules ((start scan scriptEnabled).run (events ++ [.frame])).scripts ↔
      collectRules ((start scan scriptEnabled).run events).scripts =
        collectRules (start scan scriptEnabled).scripts := by
  rw [native_run_frame, scripts_run_frame]
  exact eq_comm

/-- A script that sets one rule. -/
def ruleScript : Bytes := [0x68]

/-- What it does when it is loaded. -/
def ruleChunk : Engine.Code :=
  .api (.highlightRule [0x45] (some 0xFF0000) false) (.ret .nothing)

/-- A script enabled once the window runs is not highlighted. -/
theorem native_stale_after_enable :
    ¬ ∀ scan scriptEnabled events,
      ((start scan scriptEnabled).run (events ++ [.frame])).nativeRules =
        collectRules ((start scan scriptEnabled).run (events ++ [.frame])).scripts := by
  intro hall
  have hrun := hall (some [ruleScript]) []
    [.engine (.enable ruleScript { chunk := some ruleChunk })]
  exact absurd hrun (by decide)

end Xcom.Script.Highlight
