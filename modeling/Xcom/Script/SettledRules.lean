import Mathlib.Data.List.Basic
import Xcom.Script.Highlight

/-!
# Runs that leave the highlight rules alone

The renderer is up to date as long as the rules in effect stay those of the start: no code
makes a highlight call, the scripts that are loaded and disabled give no rules, and a scan
finds the scripts that do in their order.
-/

namespace Xcom.Script.Engine

variable {s t : State} {name : Bytes}

/-- A load whose code, the flushed line's included, makes no highlight call. -/
structure File.Quiet (file : File) : Prop where
  held : ∀ line codes, file.held = some (line, codes) → codes.Within Api.Quiet
  chunk : ∀ code, file.chunk = some code → code.Within Api.Quiet

/-- An operation that leaves the rules in effect as they are. -/
def Settles (s : State) : Op → Prop
  | .loadAll names => names.flatMap s.rulesOf = s.order.flatMap s.rulesOf
  | .enable name file | .reload name file => s.rulesOf name = [] ∧ file.Quiet
  | .disable name => s.rulesOf name = []
  | .receive _ codes | .send _ codes | .uiEvent _ codes => codes.Within Api.Quiet
  | .fire _ code | .readDone _ code | .evalCommand code => code.Within Api.Quiet
  | .host _ _ | .shutdown => True

/-- What `collect_rules` reads of a script. -/
def State.ruleRow (s : State) (name : Bytes) : Option (Bool × List Rule) :=
  (s.scripts name).map fun r => (r.enabled, r.rules)

theorem rulesOf_of_ruleRow (h : t.ruleRow name = s.ruleRow name) :
    t.rulesOf name = s.rulesOf name := by
  unfold State.ruleRow at h
  unfold State.rulesOf
  cases hs : s.scripts name with
  | none =>
    rw [hs] at h
    rw [Option.map_eq_none_iff.mp h]
  | some r =>
    rw [hs] at h
    obtain ⟨r', hr', heq⟩ := Option.map_eq_some_iff.mp h
    have hon : r'.enabled = r.enabled := congrArg Prod.fst heq
    have hrules : r'.rules = r.rules := congrArg Prod.snd heq
    simp only [hr', hon, hrules]

theorem ruleRow_modify (s : State) (name : Bytes) (f : Record → Record) (n : Bytes) :
    (s.modify name f).ruleRow n =
      if n = name then (s.scripts n).map fun r => ((f r).enabled, (f r).rules)
      else s.ruleRow n := by
  by_cases hn : n = name
  · cases hs : s.scripts n <;> simp [State.ruleRow, State.modify, ← hn, hs]
  · simp [State.ruleRow, State.modify, hn]

theorem ruleRow_modify_same {f : Record → Record}
    (hf : ∀ r, (f r).enabled = r.enabled ∧ (f r).rules = r.rules) (n : Bytes) :
    (s.modify name f).ruleRow n = s.ruleRow n := by
  rw [ruleRow_modify]
  by_cases hn : n = name
  · rw [if_pos hn]
    cases hs : s.scripts n with
    | none => simp [State.ruleRow, hs]
    | some r => simp [State.ruleRow, hs, (hf r).1, (hf r).2]
  · rw [if_neg hn]

/-- The rows of the scripts and their order. -/
def RowsAre (rows : Bytes → Option (Bool × List Rule)) (order : List Bytes) (s : State) :
    Prop :=
  (∀ name, s.ruleRow name = rows name) ∧ s.order = order

/-- Code without highlight calls leaves them alone. -/
theorem rows_kept (rows : Bytes → Option (Bool × List Rule)) (order : List Bytes) :
    KeptBy Api.Quiet (RowsAre rows order) where
  modify name f hf h := by
    refine ⟨?_, h.2⟩
    intro n
    rw [ruleRow_modify_same hf n]
    exact h.1 n
  congr hscripts horder _ h := by
    refine ⟨?_, horder.trans h.2⟩
    intro n
    have hrow := h.1 n
    unfold State.ruleRow at hrow ⊢
    rw [hscripts]
    exact hrow
  rules _ _ hquiet hrules _ := absurd hquiet hrules

theorem rowsAre_self (s : State) : RowsAre s.ruleRow s.order s := ⟨fun _ => rfl, rfl⟩

theorem RowsAre.inOrder (h : RowsAre s.ruleRow s.order t) :
    t.order.flatMap t.rulesOf = s.order.flatMap s.rulesOf := by
  rw [h.2]
  exact List.flatMap_congr fun n _ => rulesOf_of_ruleRow (h.1 n)

/-! ## A load, an enable and a disable -/

/-- The states agree but for one script, which gives no rules in the second. -/
structure AllBut (name : Bytes) (s t : State) : Prop where
  order : t.order = s.order
  others : ∀ n, n ≠ name → t.ruleRow n = s.ruleRow n
  none : t.rulesOf name = []

theorem AllBut.inOrder (h : AllBut name s t) (hs : s.rulesOf name = []) :
    t.order.flatMap t.rulesOf = s.order.flatMap s.rulesOf := by
  rw [h.order]
  apply List.flatMap_congr
  intro n _
  by_cases hn : n = name
  · rw [hn, h.none, hs]
  · exact rulesOf_of_ruleRow (h.others n hn)

theorem AllBut.touch (h : AllBut name s t) : AllBut name s t.touch :=
  ⟨h.order, h.others, h.none⟩

/-- An update of the one script that leaves it disabled, or without rules. -/
theorem AllBut.modify (horder : t.order = s.order)
    (hothers : ∀ n, n ≠ name → t.ruleRow n = s.ruleRow n) {f : Record → Record}
    (hf : ∀ r, t.scripts name = some r → (f r).enabled = true → (f r).rules = []) :
    AllBut name s (t.modify name f) where
  order := horder
  others n hn := by
    rw [ruleRow_modify, if_neg hn]
    exact hothers n hn
  none := by
    unfold State.rulesOf
    cases hr : t.scripts name with
    | none => simp [State.modify, hr]
    | some r =>
      have hgive := hf r hr
      by_cases hon : (f r).enabled = true
      · simp [State.modify, hr, hon, hgive hon]
      · simp [State.modify, hr, hon]

theorem loadScript_allBut {file : File} (hquiet : file.Quiet) (hs : s.rulesOf name = []) :
    AllBut name s (loadScript name file s).1 ∧
      ((loadScript name file s).2 = true →
        ∀ r, (loadScript name file s).1.scripts name = some r → r.rules = []) := by
  obtain ⟨hrows, horder⟩ :=
    (rows_kept s.ruleRow s.order).preserves.onReload hquiet.held (rowsAre_self s)
  unfold loadScript
  split
  · exact ⟨⟨rfl, fun _ _ => rfl, hs⟩, by rintro ⟨⟩⟩
  · dsimp only
    split
    · refine ⟨AllBut.touch (AllBut.modify (t := (onReload file s).retire name) horder
        (fun n _ => hrows n) ?_), by rintro ⟨⟩⟩
      rintro r _ ⟨⟩
    · rename_i chunk hchunk
      obtain ⟨s₂, hs₂⟩ :
          ∃ t, t = ((onReload file s).retire name).modify name fun r => r.fresh name :=
        ⟨_, rfl⟩
      have hothers₂ : ∀ n, n ≠ name → s₂.ruleRow n = s.ruleRow n := by
        intro n hn
        rw [hs₂, ruleRow_modify, if_neg hn]
        exact hrows n
      have horder₂ : s₂.order = s.order := by
        rw [hs₂]
        exact horder
      have hfresh : ∀ p, s₂.ruleRow name = some p → p.2 = [] := by
        intro p hp
        rw [hs₂, ruleRow_modify, if_pos rfl] at hp
        obtain ⟨r, -, rfl⟩ := Option.map_eq_some_iff.mp hp
        rfl
      rw [← hs₂]
      obtain ⟨hrows₃, horder₃⟩ := (rows_kept s₂.ruleRow s₂.order).preserves.exec chunk
        (hquiet.chunk chunk hchunk) ⟨name, s₂.loadOf name⟩ (rowsAre_self s₂)
      rcases hres : exec chunk ⟨name, s₂.loadOf name⟩ s₂ with ⟨s₃, out⟩
      rw [hres] at hrows₃ horder₃
      have hothers : ∀ n, n ≠ name → s₃.ruleRow n = s.ruleRow n := by
        intro n hn
        rw [← hothers₂ n hn]
        exact hrows₃ n
      have hempty : ∀ r, s₃.scripts name = some r → r.rules = [] := by
        intro r hr
        apply hfresh (r.enabled, r.rules)
        rw [← hrows₃ name]
        simp [State.ruleRow, hr]
      have hloaded : AllBut name s { s₃ with rulesDirty := true }.touch := by
        refine ⟨horder₃.trans horder₂, hothers, ?_⟩
        show s₃.rulesOf name = []
        unfold State.rulesOf
        cases hr : s₃.scripts name with
        | none => rfl
        | some r =>
          have hrules := hempty r hr
          by_cases hon : r.enabled = true
          · simp [hon, hrules]
          · simp [hon]
      cases out with
      | nothing => exact ⟨hloaded, fun _ => hempty⟩
      | text p => exact ⟨hloaded, fun _ => hempty⟩
      | value => exact ⟨hloaded, fun _ => hempty⟩
      | error =>
        refine ⟨AllBut.touch (AllBut.modify (t := s₃.retire name) (horder₃.trans horder₂)
          hothers ?_), by rintro ⟨⟩⟩
        rintro r _ ⟨⟩

theorem enable_allBut {file : File} (hquiet : file.Quiet) (hs : s.rulesOf name = []) :
    AllBut name s (enable name file s) := by
  obtain ⟨hload, hempty⟩ := loadScript_allBut hquiet hs
  unfold enable
  rcases hres : loadScript name file s with ⟨t, ok⟩
  rw [hres] at hload hempty
  cases ok with
  | false =>
    apply AllBut.modify hload.order hload.others
    rintro r _ ⟨⟩
  | true =>
    have hon : AllBut name s (t.modify name fun r => { r with enabled := true }) :=
      AllBut.modify hload.order hload.others fun r hr _ => hempty rfl r hr
    exact hon.touch

theorem disable_allBut (hs : s.rulesOf name = []) : AllBut name s (disable name s) := by
  unfold disable
  split
  · exact ⟨rfl, fun _ _ => rfl, hs⟩
  · apply AllBut.touch
    apply AllBut.modify (s := s) (t := s.retire name) rfl (fun _ _ => rfl)
    rintro r _ ⟨⟩

/-- A scan adds disabled scripts and sets the order. -/
theorem rulesOf_loadAll (names : List Bytes) (s : State) (n : Bytes) :
    (loadAll names s).rulesOf n = s.rulesOf n := by
  unfold State.rulesOf
  by_cases hn : n ∈ names
  · cases hs : s.scripts n <;> simp [loadAll, State.touch, hn, hs]
  · simp [loadAll, State.touch, hn]

/-! ## Steps and runs -/

/-- What one step leaves of the rules. -/
theorem rules_step {o : Op} (hsettles : Settles s o) (hstep : step s o = some t) :
    t.order.flatMap t.rulesOf = s.order.flatMap s.rulesOf := by
  have hkept := (rows_kept s.ruleRow s.order).preserves
  have hrunning : o.Runs Api.Quiet → t.order.flatMap t.rulesOf = s.order.flatMap s.rulesOf :=
    fun hruns => (hkept.running hruns hstep (rowsAre_self s)).inOrder
  cases o with
  | loadAll names =>
    cases hstep
    calc
      names.flatMap (loadAll names s).rulesOf = names.flatMap s.rulesOf :=
        List.flatMap_congr fun n _ => rulesOf_loadAll names s n
      _ = s.order.flatMap s.rulesOf := hsettles
  | enable name file =>
    cases hstep
    exact (enable_allBut hsettles.2 hsettles.1).inOrder hsettles.1
  | disable name =>
    cases hstep
    exact (disable_allBut hsettles).inOrder hsettles
  | reload name file =>
    cases hstep
    exact (loadScript_allBut hsettles.2 hsettles.1).1.inOrder hsettles.1
  | receive text codes => exact hrunning hsettles
  | send data codes => exact hrunning hsettles
  | uiEvent page codes => exact hrunning hsettles
  | fire handle code => exact hrunning hsettles
  | readDone index code => exact hrunning hsettles
  | evalCommand code => exact hrunning hsettles
  | host isOpen ready => exact hrunning trivial
  | shutdown => exact hrunning trivial

end Xcom.Script.Engine

namespace Xcom.Script.Highlight

open Engine (State File collectRules Settles)

/-- Every operation of the run leaves the rules in effect as they are. -/
def Window.Settled : Window → List Event → Prop
  | _, [] => True
  | w, .frame :: events => w.frame.Settled events
  | w, .engine o :: events => Settles w.scripts o ∧ (w.step (.engine o)).Settled events

theorem collectRules_step {w : Window} {o : Engine.Op} (h : Settles w.scripts o) :
    collectRules (w.step (.engine o)).scripts = collectRules w.scripts := by
  show collectRules ((Engine.step w.scripts o).getD w.scripts) = _
  cases hstep : Engine.step w.scripts o with
  | none => rfl
  | some t => exact congrArg (List.take Engine.maxRules) (Engine.rules_step h hstep)

theorem collectRules_run {w : Window} (events : List Event) (h : w.Settled events) :
    collectRules (w.run events).scripts = collectRules w.scripts := by
  induction events generalizing w with
  | nil => rfl
  | cons e events ih =>
    cases e with
    | engine o => exact (ih h.2).trans (collectRules_step h.1)
    | frame =>
      have hframe : w.frame.scripts = w.scripts := scripts_run_frame w []
      calc
        collectRules (w.frame.run events).scripts = collectRules w.frame.scripts := ih h
        _ = collectRules w.scripts := by rw [hframe]

/-- In a run of such operations every frame leaves the renderer up to date. -/
theorem native_of_settled (scan : Option (List Bytes)) (scriptEnabled : List (Bytes × File))
    (events : List Event) (h : (start scan scriptEnabled).Settled events) :
    ((start scan scriptEnabled).run (events ++ [.frame])).nativeRules =
      collectRules ((start scan scriptEnabled).run (events ++ [.frame])).scripts := by
  rw [native_run_frame, scripts_run_frame, collectRules_run events h]

end Xcom.Script.Highlight
