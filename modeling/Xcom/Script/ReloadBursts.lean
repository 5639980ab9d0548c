import Xcom.Script.EnabledFlags
import Xcom.Script.HotReload

/-!
# Bursts and reloads

A name is changed as long as its burst is not over; once it settles, the next pump loads its
script, where that is enabled.  So every burst is loaded at most once, and not before its
window is over; and a script whose content loads keeps its flag through every load.
-/

namespace Xcom.Script.HotReload

/-! ## The debounce -/

namespace Debounce

variable {d : Debounce} {now : Nat} {name n : Bytes} {names : List Bytes}

/-- The burst of the name is over. -/
def quiet (d : Debounce) (now : Nat) (name : Bytes) : Bool :=
  match d.pending name with
  | none => false
  | some stamp => !decide (now - stamp < d.windowMs)

theorem ready_spec (d : Debounce) (name : Bytes) (now : Nat) :
    d.ready name now = (d.quiet now name,
      if d.quiet now name then { d with pending := Function.update d.pending name none }
      else d) := by
  rw [ready, quiet]
  cases d.pending name with
  | none => rfl
  | some stamp =>
    dsimp only
    by_cases hwait : now - stamp < d.windowMs
    · simp [hwait]
    · simp [hwait]

theorem quiet_update {m : Bytes} (h : n ≠ m) (stamp : Option Nat) :
    ({ d with pending := Function.update d.pending m stamp } : Debounce).quiet now n =
      d.quiet now n := by
  rw [quiet, quiet]
  dsimp only
  rw [Function.update_of_ne h]

/-- Distinct names settle when their bursts are over, and the others keep theirs. -/
theorem drain_spec (d : Debounce) (now : Nat) (hnodup : names.Nodup) :
    (drain now names d).1 = names.filter (d.quiet now) ∧
      (drain now names d).2.1 = names.filter (fun n => !d.quiet now n) ∧
      (drain now names d).2.2.windowMs = d.windowMs ∧
      ∀ n, (drain now names d).2.2.pending n =
        if n ∈ names ∧ d.quiet now n = true then none else d.pending n := by
  induction names generalizing d with
  | nil => exact ⟨rfl, rfl, rfl, fun n => by simp [drain]⟩
  | cons name names ih =>
    obtain ⟨hnew, hrest⟩ := List.nodup_cons.mp hnodup
    rw [drain, ready_spec]
    by_cases hquiet : d.quiet now name = true
    · have hsame : ∀ n ∈ names, ({ d with
          pending := Function.update d.pending name none } : Debounce).quiet now n =
            d.quiet now n := by
        intro n hn
        apply quiet_update
        rintro rfl
        exact hnew hn
      obtain ⟨hsettled, hchanged, hwindow, hpending⟩ := ih { d with
        pending := Function.update d.pending name none } hrest
      rw [List.filter_congr hsame] at hsettled
      rw [List.filter_congr fun n hn => congrArg (! ·) (hsame n hn)] at hchanged
      simp only [hquiet, if_true]
      refine ⟨?_, ?_, hwindow, ?_⟩
      · rw [hsettled, List.filter_cons_of_pos hquiet]
      · rw [hchanged, List.filter_cons_of_neg (by simp [hquiet])]
      · intro n
        rw [hpending]
        by_cases hn : n = name
        · subst hn
          simp [hquiet]
        · have hmem : n ∈ name :: names ↔ n ∈ names := by simp [hn]
          simp only [hmem, quiet_update hn, Function.update_of_ne hn]
    · obtain ⟨hsettled, hchanged, hwindow, hpending⟩ := ih d hrest
      simp only [hquiet, Bool.false_eq_true, if_false]
      refine ⟨?_, ?_, hwindow, ?_⟩
      · rw [hsettled, List.filter_cons_of_neg hquiet]
      · rw [hchanged, List.filter_cons_of_pos (by simp [hquiet])]
      · intro n
        rw [hpending]
        by_cases hn : n = name
        · subst hn
          simp [hquiet]
        · have hmem : n ∈ name :: names ↔ n ∈ names := by simp [hn]
          simp only [hmem]

end Debounce

/-! ## Loads -/

namespace State

variable {s : State} {name n : Bytes}

theorem loads_succeeds (held : Held) (hknown : (s.engine.flag name).isSome)
    (h : Loads (s.disk name)) :
    (Engine.loadScript name ⟨held, s.disk name⟩ s.engine).2 = true := by
  obtain ⟨code, hcode, hruns⟩ := h
  rw [Engine.flag_isSome] at hknown
  exact Engine.loadScript_succeeds hknown hcode hruns

/-- A load touches the engine and what is loaded, and a script whose content loads keeps its
flag through every load. -/
theorem load_spec (s : State) (name : Bytes) (held : Held) : ∃ engine loaded,
    s.load name held = { s with engine := engine, loaded := loaded } ∧
      ∀ n, Loads (s.disk n) → (s.engine.flag n).isSome →
        engine.flag n = s.engine.flag n ∧
        loaded n = if n = name then s.disk n else s.loaded n := by
  rw [load]
  split
  · refine ⟨_, _, rfl, ?_⟩
    intro n hloads hknown
    by_cases hn : n = name
    · subst hn
      have hok := loads_succeeds held hknown hloads
      refine ⟨congrFun (Engine.flag_loadScript_of_ok hok) n, ?_⟩
      rw [Function.update_self, hok, if_pos rfl, if_pos rfl]
    · refine ⟨Engine.flag_loadScript_of_ne hn _ _, ?_⟩
      rw [Function.update_of_ne hn, if_neg hn]
  · rename_i hunknown
    refine ⟨s.engine, s.loaded, rfl, ?_⟩
    intro n _ hknown
    refine ⟨rfl, ?_⟩
    rw [if_neg]
    rintro rfl
    exact hunknown ((Engine.flag_isSome _ _).symm.trans hknown)

/-- What a reload by the pump records. -/
def reloadOf (s : State) (name : Bytes) : Reload :=
  ⟨name, s.burst name, (s.lastEvent name).getD 0, s.now⟩

theorem reloads_spec (held : Bytes → Held) (plan : List Bytes) (s : State) : ∃ engine loaded,
    plan.foldl (reloadSettled held) s =
        { s with
          engine := engine, loaded := loaded
          reloads := (plan.map s.reloadOf).reverse ++ s.reloads } ∧
      ∀ n, Loads (s.disk n) → (s.engine.flag n).isSome →
        engine.flag n = s.engine.flag n ∧
        loaded n = if n ∈ plan then s.disk n else s.loaded n := by
  induction plan generalizing s with
  | nil => exact ⟨s.engine, s.loaded, rfl, fun n _ _ => ⟨rfl, (if_neg List.not_mem_nil).symm⟩⟩
  | cons name plan ih =>
    obtain ⟨engine, loaded, hload, hkeeps⟩ := s.load_spec name (held name)
    have hfirst : s.reloadSettled held name =
        { s with
          engine := engine, loaded := loaded
          reloads := s.reloadOf name :: s.reloads } := by
      rw [reloadSettled, hload]
      rfl
    obtain ⟨engine', loaded', hrest, hkeeps'⟩ := ih (s.reloadSettled held name)
    rw [hfirst] at hrest hkeeps'
    refine ⟨engine', loaded', ?_, ?_⟩
    · rw [List.foldl_cons, hfirst, hrest]
      simp [reloadOf]
    · intro n hloads hknown
      obtain ⟨hflag, hloaded⟩ := hkeeps n hloads hknown
      obtain ⟨hflag', hloaded'⟩ := hkeeps' n hloads (by rwa [hflag])
      refine ⟨hflag'.trans hflag, ?_⟩
      rw [hloaded']
      dsimp only
      rw [hloaded]
      by_cases hn : n = name
      · simp [hn]
      · simp [hn]

/-- The reloads of a pump: the scripts that settle and are enabled. -/
def plan (s : State) : List Bytes := reloadPlan s.engine s.settled

theorem mem_plan : n ∈ s.plan ↔ n ∈ s.settled ∧ s.engine.isEnabled n = true := by
  rw [plan, reloadPlan, List.mem_insertionSort, List.mem_filter]

theorem pump_spec (held : Bytes → Held) (s : State) : ∃ engine loaded,
    s.pump held =
        { s with
          engine := engine, loaded := loaded
          changed := (Debounce.drain s.now s.changed s.debounce).2.1
          debounce := (Debounce.drain s.now s.changed s.debounce).2.2
          reloads := (s.plan.map s.reloadOf).reverse ++ s.reloads } ∧
      ∀ n, Loads (s.disk n) → (s.engine.flag n).isSome →
        engine.flag n = s.engine.flag n ∧
        loaded n = if n ∈ s.plan then s.disk n else s.loaded n :=
  reloads_spec held s.plan { s with
    changed := (Debounce.drain s.now s.changed s.debounce).2.1
    debounce := (Debounce.drain s.now s.changed s.debounce).2.2 }

end State

/-! ## Bursts -/

/-- A name is changed as long as its burst is not over, and the reloads are of bursts that
were, each of another one. -/
structure Booked (windowMs : Nat) (s : State) : Prop where
  window : s.debounce.windowMs = windowMs
  nodup : s.changed.Nodup
  tracked : ∀ n, n ∈ s.changed ↔ (s.debounce.pending n).isSome
  stamp : ∀ n t, s.debounce.pending n = some t → s.lastEvent n = some t ∧ t ≤ s.now
  past : ∀ r ∈ s.reloads, r.burst ≤ s.burst r.name
  waiting : ∀ r ∈ s.reloads, r.name ∈ s.changed → r.burst < s.burst r.name
  late : ∀ r ∈ s.reloads, r.lastEvent + windowMs ≤ r.time
  once : (s.reloads.map fun r => (r.name, r.burst)).Nodup

section Bursts

variable {windowMs : Nat} {s s' : State} {n : Bytes}

theorem Booked.settled (h : Booked windowMs s) :
    s.settled = s.changed.filter (s.debounce.quiet s.now) :=
  (Debounce.drain_spec _ _ h.nodup).1

/-- A name settles a window after its last event. -/
theorem Booked.late_of_settled (h : Booked windowMs s) (hn : n ∈ s.settled) :
    n ∈ s.changed ∧ ∃ t, s.lastEvent n = some t ∧ t + windowMs ≤ s.now := by
  rw [h.settled] at hn
  obtain ⟨hmem, hquiet⟩ := List.mem_filter.mp hn
  refine ⟨hmem, ?_⟩
  rw [Debounce.quiet] at hquiet
  cases hpending : s.debounce.pending n with
  | none =>
    rw [hpending] at hquiet
    cases hquiet
  | some t =>
    obtain ⟨hlast, hle⟩ := h.stamp n t hpending
    rw [hpending, h.window] at hquiet
    refine ⟨t, hlast, ?_⟩
    simp only [Bool.not_eq_true', decide_eq_false_iff_not] at hquiet
    omega

/-- A window after its last event a name is changed no more. -/
theorem Booked.settles (h : Booked windowMs s)
    (hlate : ∀ t, s.lastEvent n = some t → t + windowMs ≤ s.now) :
    n ∉ (Debounce.drain s.now s.changed s.debounce).2.1 := by
  intro hmem
  rw [(Debounce.drain_spec _ _ h.nodup).2.1] at hmem
  obtain ⟨hin, hwait⟩ := List.mem_filter.mp hmem
  obtain ⟨t, hpending⟩ := Option.isSome_iff_exists.mp ((h.tracked n).mp hin)
  have hle := hlate t (h.stamp n t hpending).1
  rw [Debounce.quiet, hpending, h.window] at hwait
  simp only [Bool.not_not, decide_eq_true_eq] at hwait
  omega

theorem Booked.watchEvent (h : Booked windowMs s) (name : Bytes) :
    Booked windowMs (s.watchEvent name) := by
  rw [State.watchEvent]
  split
  · have hchanged : ∀ n, n ∈ (if s.changed.contains name then s.changed
        else s.changed ++ [name]) ↔ n = name ∨ n ∈ s.changed := by
      intro n
      split
      · rename_i hmem
        constructor
        · exact .inr
        · rintro (rfl | hn)
          · exact List.contains_iff_mem.mp hmem
          · exact hn
      · simp [or_comm]
    have hburst : ∀ n, s.burst n ≤ (if (s.debounce.pending name).isSome then s.burst
        else Function.update s.burst name (s.burst name + 1)) n := by
      intro n
      split
      · exact Nat.le_refl _
      · by_cases hn : n = name
        · subst hn
          rw [Function.update_self]
          exact Nat.le_succ _
        · rw [Function.update_of_ne hn]
    refine ⟨h.window, ?_, ?_, ?_, ?_, ?_, h.late, h.once⟩
    · dsimp only
      split
      · exact h.nodup
      · rename_i hnew
        rw [List.contains_iff_mem] at hnew
        exact List.nodup_append.mpr ⟨h.nodup, List.nodup_singleton name, by
          rintro a ha b hb rfl
          exact hnew (List.mem_singleton.mp hb ▸ ha)⟩
    · intro n
      dsimp only [Debounce.touch]
      rw [hchanged]
      by_cases hn : n = name
      · subst hn
        simp
      · rw [Function.update_of_ne hn, ← h.tracked]
        simp [hn]
    · intro n t hpending
      dsimp only [Debounce.touch] at hpending ⊢
      by_cases hn : n = name
      · subst hn
        rw [Function.update_self] at hpending ⊢
        exact ⟨hpending, Nat.le_of_eq (Option.some.inj hpending).symm⟩
      · rw [Function.update_of_ne hn] at hpending ⊢
        exact h.stamp n t hpending
    · exact fun r hr => Nat.le_trans (h.past r hr) (hburst r.name)
    · intro r hr hmem
      rcases (hchanged r.name).mp hmem with hname | hold
      · dsimp only
        rw [hname]
        by_cases hpending : (s.debounce.pending name).isSome = true
        · rw [if_pos hpending]
          have hwas := h.waiting r hr (hname ▸ (h.tracked name).mpr hpending)
          rwa [hname] at hwas
        · have hle := h.past r hr
          rw [hname] at hle
          rw [if_neg hpending, Function.update_self]
          exact Nat.lt_succ_of_le hle
      · exact Nat.lt_of_lt_of_le (h.waiting r hr hold) (hburst r.name)
  · exact h

theorem Booked.pump (h : Booked windowMs s) (held : Bytes → Held) :
    Booked windowMs (s.pump held) := by
  obtain ⟨hsettled, hchanged, hwindow, hpending⟩ :=
    Debounce.drain_spec s.debounce s.now h.nodup
  have hplan : ∀ n ∈ s.plan, n ∈ s.settled := fun n hn => (State.mem_plan.mp hn).1
  have hnodup : s.plan.Nodup := by
    rw [State.plan, reloadPlan, (List.perm_insertionSort _ _).nodup_iff]
    apply List.Nodup.filter
    rw [h.settled]
    exact h.nodup.filter _
  have hgone : ∀ n ∈ s.settled, n ∉ (Debounce.drain s.now s.changed s.debounce).2.1 := by
    intro n hn hmem
    rw [h.settled] at hn
    rw [hchanged] at hmem
    have hquiet := (List.mem_filter.mp hn).2
    have hwait := (List.mem_filter.mp hmem).2
    rw [hquiet] at hwait
    cases hwait
  have hstays : ∀ n ∈ (Debounce.drain s.now s.changed s.debounce).2.1, n ∈ s.changed := by
    intro n hmem
    rw [hchanged] at hmem
    exact (List.mem_filter.mp hmem).1
  have hnew : ∀ r ∈ (s.plan.map s.reloadOf).reverse, r.name ∈ s.plan ∧ r = s.reloadOf r.name := by
    intro r hr
    obtain ⟨n, hn, rfl⟩ := List.mem_map.mp (List.mem_reverse.mp hr)
    exact ⟨hn, rfl⟩
  obtain ⟨engine, loaded, hpump, _⟩ := s.pump_spec held
  rw [hpump]
  refine ⟨hwindow.trans h.window, ?_, ?_, ?_, ?_, ?_, ?_, ?_⟩
  · rw [hchanged]
    exact h.nodup.filter _
  · intro n
    have htracked := h.tracked n
    rw [hchanged, List.mem_filter, hpending]
    by_cases hquiet : s.debounce.quiet s.now n = true
    · by_cases hmem : n ∈ s.changed
      · simp [hquiet, hmem]
      · simpa [hquiet, hmem] using htracked
    · simpa [hquiet] using htracked
  · intro n t hstamp
    rw [hpending] at hstamp
    split at hstamp
    · cases hstamp
    · exact h.stamp n t hstamp
  · intro r hr
    rcases List.mem_append.mp hr with hr | hr
    · rw [(hnew r hr).2]
      exact Nat.le_refl _
    · exact h.past r hr
  · intro r hr hmem
    rcases List.mem_append.mp hr with hr | hr
    · exact absurd hmem (hgone _ (hplan _ (hnew r hr).1))
    · exact h.waiting r hr (hstays _ hmem)
  · intro r hr
    rcases List.mem_append.mp hr with hr | hr
    · obtain ⟨hmem, heq⟩ := hnew r hr
      obtain ⟨_, t, hlast, hlate⟩ := h.late_of_settled (hplan _ hmem)
      rw [heq]
      show (s.lastEvent r.name).getD 0 + windowMs ≤ s.now
      rw [hlast]
      exact hlate
    · exact h.late r hr
  · rw [List.map_append, List.nodup_append]
    refine ⟨?_, h.once, ?_⟩
    · rw [List.map_reverse, List.nodup_reverse, List.map_map]
      refine hnodup.map ?_
      intro m n heq
      exact congrArg Prod.fst heq
    · intro a ha b hb
      obtain ⟨r, hr, rfl⟩ := List.mem_map.mp ha
      obtain ⟨q, hq, rfl⟩ := List.mem_map.mp hb
      obtain ⟨hmem, heq⟩ := hnew r hr
      rintro hsame
      have hname : q.name = r.name := (congrArg Prod.fst hsame).symm
      have hburst : q.burst = s.burst r.name :=
        (congrArg Prod.snd hsame).symm.trans (congrArg Reload.burst heq)
      have hlt := h.waiting q hq (hname ▸ (h.late_of_settled (hplan _ hmem)).1)
      rw [hburst, hname] at hlt
      exact Nat.lt_irrefl _ hlt

theorem Booked.load (h : Booked windowMs s) (name : Bytes) (held : Held) :
    Booked windowMs (s.load name held) := by
  obtain ⟨engine, loaded, hload, _⟩ := s.load_spec name held
  rw [hload]
  exact { h with }

theorem Booked.step {e : Event} (h : Booked windowMs s) (hstep : s.step e = some s') :
    Booked windowMs s' := by
  cases e with
  | scan names =>
    cases hstep
    exact { h with }
  | enable name held =>
    cases hstep
    rw [State.enable]
    split
    · exact { h with }
    · exact h
  | disable name =>
    cases hstep
    exact { h with }
  | reload name held =>
    cases hstep
    exact h.load name held
  | run o =>
    rw [State.step] at hstep
    split at hstep
    · cases hstep
    · obtain ⟨engine, _, rfl⟩ := Option.map_eq_some_iff.mp hstep
      exact { h with }
  | save name content =>
    cases hstep
    exact { h with }
  | watch name =>
    cases hstep
    exact h.watchEvent name
  | tick ms =>
    cases hstep
    refine { h with stamp := ?_ }
    intro n t hpending
    obtain ⟨hlast, hle⟩ := h.stamp n t hpending
    exact ⟨hlast, Nat.le_add_right_of_le hle⟩
  | pump held =>
    cases hstep
    exact h.pump held

theorem run_booked (hs : Transition.Reach (machine windowMs) s) : Booked windowMs s := by
  apply hs.invariant
  · exact ⟨rfl, List.nodup_nil, fun n => by simp [machine], nofun, nofun, nofun, nofun,
      List.nodup_nil⟩
  · exact fun s e s' hs _ hstep => hs.step hstep

end Bursts

end Xcom.Script.HotReload
