import Xcom.Script.LineFilter

/-!
# The cached flag of the line filter

`has_line_filter` answers from `_line_filter_on` until something takes the flag away.  In
every state of the engine a flag that is there is right.
-/

namespace Xcom.Script.LineFilter

open Engine (State Record Code Codes File Fn Copy Api callApi exec Preserves)

/-- An enabled script has a filter rule. -/
def filtering (s : State) : Bool :=
  s.order.any fun name => (s.scripts name).any fun r =>
    r.enabled && (r.keeps ≠ [] || r.drops ≠ [])

/-- A flag that is cached is the one that would be computed. -/
def Current (s : State) : Prop := ∀ on, s.lineFilterOn = some on → on = filtering s

theorem current_of_none {s : State} (h : s.lineFilterOn = none) : Current s := by
  intro on hon
  rw [h] at hon
  cases hon

theorem hasLineFilter_eq {s : State} (h : Current s) :
    (hasLineFilter s).2 = filtering s ∧ (hasLineFilter s).1.scripts = s.scripts ∧
      (hasLineFilter s).1.order = s.order ∧ Current (hasLineFilter s).1 := by
  unfold hasLineFilter
  cases hon : s.lineFilterOn with
  | some on => exact ⟨h on hon, rfl, rfl, h⟩
  | none =>
    refine ⟨rfl, rfl, rfl, ?_⟩
    intro on hset
    cases hset
    rfl

/-- Without a filter there is no keep and no drop. -/
theorem filtering_eq_false (s : State) :
    filtering s = false ↔ keeps s = [] ∧ drops s = [] := by
  unfold filtering keeps drops keepsOf dropsOf
  rw [List.any_eq_false, List.flatMap_eq_nil_iff, List.flatMap_eq_nil_iff, ← forall₂_and]
  apply forall₂_congr
  intro name _
  unfold givenBy
  cases hscript : s.scripts name with
  | none => simp
  | some record =>
    by_cases hon : record.enabled = true
    · simp [hon]
    · simp [hon]

/-- What the filter reads of a record. -/
def filterRow (r : Record) : Bool × List Bytes × List Bytes := (r.enabled, r.keeps, r.drops)

/-- The filter of a state reads the rows of the records and their order. -/
theorem filtering_congr {s t : State} (horder : t.order = s.order)
    (hrows : ∀ name, (t.scripts name).map filterRow = (s.scripts name).map filterRow) :
    filtering t = filtering s := by
  unfold filtering
  rw [horder]
  congr 1
  funext name
  have hname := hrows name
  cases hs : s.scripts name with
  | none =>
    rw [hs, Option.map_none, Option.map_eq_none_iff] at hname
    rw [hname]
  | some r =>
    rw [hs] at hname
    obtain ⟨r', ht, heq⟩ := Option.map_eq_some_iff.mp hname
    simp only [filterRow, Prod.mk.injEq] at heq
    simp only [ht, Option.any_some, heq.1, heq.2.1, heq.2.2]

theorem filterRow_modify (s : State) (name : Bytes) {f : Record → Record}
    (hf : ∀ r, filterRow (f r) = filterRow r) (n : Bytes) :
    ((s.modify name f).scripts n).map filterRow = (s.scripts n).map filterRow := by
  unfold State.modify
  dsimp only
  split
  · cases s.scripts n with
    | none => rfl
    | some r => simp [hf r]
  · rfl

theorem Current.modify {s : State} (h : Current s) (name : Bytes) {f : Record → Record}
    (hf : ∀ r, filterRow (f r) = filterRow r) : Current (s.modify name f) := by
  intro on hon
  have hsame : filtering (s.modify name f) = filtering s :=
    filtering_congr rfl (filterRow_modify s name hf)
  rw [hsame]
  exact h on hon

/-- The filter calls take the flag away, and nothing else that script code does touches
what it stands for. -/
theorem current_kept : Preserves (fun _ => True) Current where
  policy {s} c a _ hpolicy h := by
    cases a with
    | filterKeep patterns => exact current_of_none rfl
    | filterDrop patterns => exact current_of_none rfl
    | filterClear => exact current_of_none rfl
    | highlightRule pattern color bg =>
      by_cases hempty : pattern = []
      · simpa only [callApi, if_pos hempty] using h
      · simp only [callApi, if_neg hempty]
        exact Current.modify (s := s) h c.script fun _ => rfl
    | highlightClear => exact Current.modify (s := s) h c.script fun _ => rfl
    | _ => exact absurd hpolicy id
  modify name f hf h := by
    apply h.modify
    intro r
    have hsame := hf r
    simp only [Record.policy, Prod.mk.injEq] at hsame
    simp only [filterRow, hsame.1, hsame.2.1, hsame.2.2.1]
  congr hscripts horder _ hflag h := by
    intro on hon
    rw [hflag] at hon
    rw [h on hon]
    exact (filtering_congr horder fun name => by rw [hscripts]).symm

/-! ## The operations of the engine -/

/-- A load of a script that is known takes the flag away. -/
theorem loadScript_flag {s : State} (name : Bytes) (file : File) (h : Current s) :
    Current (Engine.loadScript name file s).1 := by
  unfold Engine.loadScript
  split
  · exact h
  · dsimp only
    split
    · exact current_of_none rfl
    · split
      · exact current_of_none rfl
      · exact current_of_none rfl

/-- Where a load fails, the flag is gone or the script is unknown. -/
theorem loadScript_failed {s : State} {name : Bytes} {file : File}
    (h : (Engine.loadScript name file s).2 = false) :
    (Engine.loadScript name file s).1.lineFilterOn = none ∨
      s.scripts name = none ∧ (Engine.loadScript name file s).1 = s := by
  unfold Engine.loadScript at h ⊢
  split at h
  · rename_i hunknown
    exact .inr ⟨hunknown, rfl⟩
  · dsimp only at h ⊢
    split at h
    · exact .inl rfl
    · split at h
      · exact .inl rfl
      · cases h

theorem enable_flag {s : State} (name : Bytes) (file : File) (h : Current s) :
    Current (Engine.enable name file s) := by
  have hfailed := @loadScript_failed s name file
  unfold Engine.enable
  rcases hres : Engine.loadScript name file s with ⟨t, ok⟩
  rw [hres] at hfailed
  cases ok with
  | true => exact current_of_none rfl
  | false =>
    rcases hfailed rfl with hnone | ⟨hunknown, hunchanged⟩
    · exact current_of_none hnone
    · obtain rfl : t = s := hunchanged
      have hsame : filtering (t.modify name fun r => { r with enabled := false }) =
          filtering t := by
        refine filtering_congr ?_ ?_
        · rfl
        · intro n
          by_cases hn : n = name
          · subst hn
            simp [State.modify, hunknown]
          · simp [State.modify, hn]
      intro on hon
      exact (h on hon).trans hsame.symm

theorem step_flag {s t : State} {o : Engine.Op} (h : Current s)
    (hstep : Engine.step s o = some t) : Current t := by
  by_cases hloads : o.loads = true
  · cases o with
    | loadAll names =>
      cases hstep
      exact current_of_none rfl
    | enable name file =>
      cases hstep
      exact enable_flag name file h
    | disable name =>
      cases hstep
      unfold Engine.disable
      split
      · exact h
      · exact current_of_none rfl
    | reload name file =>
      cases hstep
      exact loadScript_flag name file h
    | _ => cases hloads
  · have hruns := Engine.Op.runs_all (Bool.eq_false_iff.mpr hloads)
    exact current_kept.running hruns hstep h

/-- In every state of the engine the flag that is cached is right. -/
theorem reach_flag {s : State} (hs : Transition.Reach Engine.machine s) : Current s := by
  apply hs.invariant (p := Current)
  · exact current_of_none rfl
  · exact fun s o t h _ hstep => step_flag h hstep

end Xcom.Script.LineFilter
