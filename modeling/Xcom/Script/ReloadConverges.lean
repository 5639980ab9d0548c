import Xcom.Script.ReloadBursts

/-!
# What hot reload converges to

A save that the watcher has settled has been loaded, as long as its script was enabled.  So
the scripts the user wants run what is saved, if no load in between has failed; a save that
does not parse ends this.
-/

namespace Xcom.Script.HotReload

/-! ## What the scripts run -/

/-- A script the user wants, with nothing saved since that the watcher has not settled, is
enabled and runs what is saved, where that loads. -/
def Converged (s : State) : Prop :=
  ∀ n, s.wanted n = true → s.unseen n = false → n ∉ s.changed → Loads (s.disk n) →
    s.engine.isEnabled n = true ∧ s.loaded n = s.disk n

section Runs

variable {windowMs : Nat} {s s' : State} {n name : Bytes} {held : Held}

theorem isEnabled_congr {t : Engine.State} (h : t.flag n = s.engine.flag n) :
    t.isEnabled n = s.engine.isEnabled n := by
  rw [Engine.isEnabled_eq, Engine.isEnabled_eq, h]

theorem known_of_isEnabled (h : s.engine.isEnabled n = true) : (s.engine.flag n).isSome := by
  rw [Engine.isEnabled_eq] at h
  cases hflag : s.engine.flag n with
  | none => rw [hflag] at h; cases h
  | some on => rfl

theorem Converged.enable (h : Converged s) (name : Bytes) (held : Held) :
    Converged (s.enable name held) := by
  rw [State.enable]
  split
  · rename_i hknown
    intro n hwanted hseen hsettled hloads
    by_cases hn : n = name
    · subst hn
      rw [← Engine.flag_isSome] at hknown
      have hok := State.loads_succeeds held hknown hloads
      refine ⟨?_, ?_⟩
      · show (Engine.enable n _ s.engine).isEnabled n = true
        rw [Engine.isEnabled_eq, Engine.flag_enable, hok, Engine.setFlag_self]
        obtain ⟨on, hon⟩ := Option.isSome_iff_exists.mp hknown
        rw [hon]
        rfl
      · dsimp only
        rw [Function.update_self, hok, if_pos rfl]
    · dsimp only at hwanted ⊢
      rw [Function.update_of_ne hn] at hwanted ⊢
      obtain ⟨hon, hloaded⟩ := h n hwanted hseen hsettled hloads
      refine ⟨?_, hloaded⟩
      rw [isEnabled_congr (s := s), hon]
      rw [Engine.flag_enable]
      exact Engine.setFlag_of_ne hn _ _
  · exact h

theorem Converged.load (h : Converged s) (name : Bytes) (held : Held) :
    Converged (s.load name held) := by
  obtain ⟨engine, loaded, hload, hkeeps⟩ := s.load_spec name held
  rw [hload]
  intro n hwanted hseen hsettled hloads
  obtain ⟨hon, hloaded⟩ := h n hwanted hseen hsettled hloads
  obtain ⟨hflag, hafter⟩ := hkeeps n hloads (known_of_isEnabled hon)
  refine ⟨(isEnabled_congr hflag).trans hon, ?_⟩
  dsimp only
  rw [hafter]
  split
  · rfl
  · exact hloaded

theorem Converged.pump (hbooked : Booked windowMs s) (h : Converged s) (held : Bytes → Held)
    (hnone : NoneFailed s (.pump held)) : Converged (s.pump held) := by
  obtain ⟨hsettled, hchanged, _, _⟩ :=
    Debounce.drain_spec s.debounce s.now hbooked.nodup
  obtain ⟨engine, loaded, hpump, hkeeps⟩ := s.pump_spec held
  rw [hpump]
  intro n hwanted hseen hgone hloads
  dsimp only at hwanted hseen hgone hloads ⊢
  by_cases hmem : n ∈ s.settled
  · have hon : s.engine.isEnabled n = true := by
      have hall := List.all_eq_true.mp hnone n hmem
      rw [hwanted] at hall
      exact hall
    obtain ⟨hflag, hafter⟩ := hkeeps n hloads (known_of_isEnabled hon)
    refine ⟨(isEnabled_congr hflag).trans hon, ?_⟩
    rw [hafter, if_pos (State.mem_plan.mpr ⟨hmem, hon⟩)]
  · have hquiet : n ∉ s.changed := by
      intro hin
      rw [hchanged] at hgone
      rw [hbooked.settled] at hmem
      by_cases hquiet : s.debounce.quiet s.now n = true
      · exact hmem (List.mem_filter.mpr ⟨hin, hquiet⟩)
      · exact hgone (List.mem_filter.mpr ⟨hin, by simp [hquiet]⟩)
    obtain ⟨hon, hloaded⟩ := h n hwanted hseen hquiet hloads
    obtain ⟨hflag, hafter⟩ := hkeeps n hloads (known_of_isEnabled hon)
    refine ⟨(isEnabled_congr hflag).trans hon, ?_⟩
    rw [hafter, if_neg fun hin => hmem (State.mem_plan.mp hin).1, hloaded]

theorem Converged.watchEvent (h : Converged s) (name : Bytes) :
    Converged (s.watchEvent name) := by
  rw [State.watchEvent]
  split
  · intro n hwanted hseen hsettled hloads
    dsimp only at hwanted hseen hsettled hloads ⊢
    have hquiet : n ≠ name ∧ n ∉ s.changed := by
      split at hsettled
      · rename_i hmem
        refine ⟨?_, hsettled⟩
        rintro rfl
        exact hsettled (List.contains_iff_mem.mp hmem)
      · rw [List.mem_append, not_or, List.mem_singleton] at hsettled
        exact hsettled.symm
    rw [Function.update_of_ne hquiet.1] at hseen
    exact h n hwanted hseen hquiet.2 hloads
  · exact h

theorem Converged.disable (h : Converged s) (name : Bytes) : Converged (s.disable name) := by
  intro n hwanted hseen hsettled hloads
  dsimp only [State.disable] at hwanted hseen hsettled hloads ⊢
  have hn : n ≠ name := by
    rintro rfl
    rw [Function.update_self] at hwanted
    cases hwanted
  rw [Function.update_of_ne hn] at hwanted
  obtain ⟨hon, hloaded⟩ := h n hwanted hseen hsettled hloads
  have hflag : (Engine.disable name s.engine).flag n = s.engine.flag n := by
    rw [Engine.flag_disable]
    exact Engine.setFlag_of_ne hn _ _
  exact ⟨(isEnabled_congr hflag).trans hon, hloaded⟩

theorem Converged.save (h : Converged s) (name : Bytes) (content : Option Engine.Code) :
    Converged (s.save name content) := by
  intro n hwanted hseen hsettled hloads
  dsimp only [State.save] at hwanted hseen hsettled hloads ⊢
  have hn : n ≠ name := by
    rintro rfl
    rw [Function.update_self] at hseen
    cases hseen
  rw [Function.update_of_ne hn] at hseen hloads ⊢
  exact h n hwanted hseen hsettled hloads

theorem Converged.step {e : Event} (hbooked : Booked windowMs s) (h : Converged s)
    (hnone : NoneFailed s e) (hstep : s.step e = some s') : Converged s' := by
  cases e with
  | scan names =>
    cases hstep
    intro n hwanted hseen hsettled hloads
    obtain ⟨hon, hloaded⟩ := h n hwanted hseen hsettled hloads
    exact ⟨(Engine.isEnabled_loadAll _ _ n).trans hon, hloaded⟩
  | enable name held =>
    cases hstep
    exact h.enable name held
  | disable name =>
    cases hstep
    exact h.disable name
  | reload name held =>
    cases hstep
    exact h.load name held
  | run o =>
    rw [State.step] at hstep
    split at hstep
    · cases hstep
    · rename_i hloads
      obtain ⟨engine, hrun, rfl⟩ := Option.map_eq_some_iff.mp hstep
      have hflag := Engine.flag_running (Bool.eq_false_iff.mpr hloads) hrun
      intro n hwanted hseen hsettled hloads
      obtain ⟨hon, hloaded⟩ := h n hwanted hseen hsettled hloads
      exact ⟨(isEnabled_congr (congrFun hflag n)).trans hon, hloaded⟩
  | save name content =>
    cases hstep
    exact h.save name content
  | watch name =>
    cases hstep
    exact h.watchEvent name
  | tick ms =>
    cases hstep
    exact h
  | pump held =>
    cases hstep
    exact Converged.pump hbooked h held hnone

theorem run_converged (hs : Transition.ReachUnder (machine windowMs) NoneFailed s) :
    Converged s := by
  apply hs.invariantUsing (fun s hs => run_booked hs.reach)
  · exact nofun
  · exact fun s e s' hbooked hs hnone hstep => hs.step hbooked hnone hstep

/-- In every run in which no burst settles for a script that a failed load disabled, a pump
after the window leaves every script the user wants enabled and loaded as saved, where that
loads; in every run, a burst is loaded at most once, and not before its window is over. -/
theorem hot_reload_converges (windowMs : Nat) :
    (∀ s, Transition.ReachUnder (machine windowMs) NoneFailed s → ∀ held n,
      NoneFailed s (.pump held) → s.wanted n = true → s.unseen n = false →
      (∀ t, s.lastEvent n = some t → t + windowMs ≤ s.now) → Loads (s.disk n) →
      (s.pump held).engine.isEnabled n = true ∧ (s.pump held).loaded n = s.disk n) ∧
    ∀ s, Transition.Reach (machine windowMs) s →
      (∀ r ∈ s.reloads, r.lastEvent + windowMs ≤ r.time) ∧
      (s.reloads.map fun r => (r.name, r.burst)).Nodup := by
  constructor
  · intro s hs held n hnone hwanted hseen hlate hloads
    have hbooked := run_booked hs.reach
    have hafter := Converged.pump hbooked (run_converged hs) held hnone
    obtain ⟨engine, loaded, hpump, _⟩ := s.pump_spec held
    rw [hpump] at hafter ⊢
    exact hafter n hwanted hseen (hbooked.settles hlate) hloads
  · intro s hs
    have hbooked := run_booked hs
    exact ⟨hbooked.late, hbooked.once⟩

end Runs

/-! ## A save that does not parse -/

/-- `a.lua`. -/
def sampleName : Bytes := [0x61, 0x2E, 0x6C, 0x75, 0x61]

/-- A script that is found and enabled, then saved again. -/
def sampleRun : List Event :=
  [.save sampleName (some (.ret .nothing)), .watch sampleName, .scan [sampleName],
    .enable sampleName none, .save sampleName (some (.ret .value)), .watch sampleName, .tick 200]

def sampleEnd : State :=
  (Transition.execUnder (machine 200) NoneFailed (machine 200).init sampleRun).getD {}

theorem loads_value : Loads (some (.ret .value)) := ⟨_, rfl, fun _ _ => nofun⟩

theorem hot_reload_converges_saved :
    (sampleEnd.pump fun _ => none).engine.isEnabled sampleName = true ∧
      (sampleEnd.pump fun _ => none).loaded sampleName = some (.ret .value) := by
  have hend : Transition.execUnder (machine 200) NoneFailed (machine 200).init sampleRun =
      some sampleEnd := rfl
  have hrun := Transition.reachUnder_of_execUnder .init hend
  apply (hot_reload_converges 200).1 sampleEnd hrun (fun _ => none) sampleName
  · decide
  · rfl
  · rfl
  · intro t ht
    cases ht
    decide
  · exact loads_value

/-- A save that does not parse settles, and then one that does. -/
def brokenRun : List Event :=
  [.save sampleName (some (.ret .nothing)), .watch sampleName, .scan [sampleName],
    .enable sampleName none, .save sampleName none, .watch sampleName, .tick 200,
    .pump fun _ => none, .save sampleName (some (.ret .value)), .watch sampleName, .tick 200]

def brokenEnd : State :=
  (Transition.exec (machine 200) (machine 200).init brokenRun).getD {}

/-- The script the user enabled stays disabled, though its content loads. -/
theorem chain_ended :
    Transition.Reach (machine 200) brokenEnd ∧ brokenEnd.wanted sampleName = true ∧
      brokenEnd.unseen sampleName = false ∧
      (∀ t, brokenEnd.lastEvent sampleName = some t → t + 200 ≤ brokenEnd.now) ∧
      Loads (brokenEnd.disk sampleName) ∧
      (brokenEnd.pump fun _ => none).engine.isEnabled sampleName = false := by
  have hend : Transition.exec (machine 200) (machine 200).init brokenRun = some brokenEnd := rfl
  refine ⟨Transition.reachUnder_of_execUnder .init hend, rfl, rfl, ?_, loads_value, rfl⟩
  intro t ht
  cases ht
  decide

end Xcom.Script.HotReload
