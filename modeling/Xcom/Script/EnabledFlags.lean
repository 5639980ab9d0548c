import Xcom.Script.Preserves

/-!
# Which scripts are enabled

Script code enables and disables nothing: the flags of the records change by `enable`, by
`disable` and by a load that fails, and each of them changes the flag of one script.
-/

namespace Xcom.Script.Engine

/-- The flag of a script, where the engine knows it. -/
def State.flag (s : State) (name : Bytes) : Option Bool := (s.scripts name).map (·.enabled)

/-- The flags with that of one script set. -/
def setFlag (name : Bytes) (on : Bool) (flag : Bytes → Option Bool) (n : Bytes) : Option Bool :=
  if n = name then (flag n).map fun _ => on else flag n

@[simp]
theorem setFlag_self (name : Bytes) (on : Bool) (flag : Bytes → Option Bool) :
    setFlag name on flag name = (flag name).map fun _ => on := if_pos rfl

theorem setFlag_of_ne {name n : Bytes} (h : n ≠ name) (on : Bool) (flag : Bytes → Option Bool) :
    setFlag name on flag n = flag n := if_neg h

theorem setFlag_setFlag (name : Bytes) (on on' : Bool) (flag : Bytes → Option Bool) :
    setFlag name on (setFlag name on' flag) = setFlag name on flag := by
  funext n
  by_cases hn : n = name
  · subst hn
    rw [setFlag_self, setFlag_self, setFlag_self, Option.map_map]
    rfl
  · rw [setFlag_of_ne hn, setFlag_of_ne hn, setFlag_of_ne hn]

variable {s t : State} {name : Bytes} {file : File}

theorem isEnabled_eq (s : State) (name : Bytes) : s.isEnabled name = (s.flag name).getD false := by
  rw [State.isEnabled, State.flag]
  cases s.scripts name <;> rfl

theorem flag_isSome (s : State) (name : Bytes) : (s.flag name).isSome = (s.scripts name).isSome :=
  Option.isSome_map

theorem flag_congr (h : t.scripts = s.scripts) : t.flag = s.flag := by
  funext n
  rw [State.flag, State.flag, h]

theorem flag_modify {f : Record → Record} (h : t.scripts = (s.modify name f).scripts)
    (hf : ∀ r, (f r).enabled = r.enabled) : t.flag = s.flag := by
  funext n
  rw [State.flag, State.flag, h, State.modify]
  dsimp only
  split
  · cases s.scripts n with
    | none => rfl
    | some r => exact congrArg some (hf r)
  · rfl

theorem flag_modify_set {f : Record → Record} {on : Bool}
    (h : t.scripts = (s.modify name f).scripts) (hf : ∀ r, (f r).enabled = on) :
    t.flag = setFlag name on s.flag := by
  funext n
  rw [State.flag, setFlag, State.flag, h, State.modify]
  dsimp only
  split
  · cases s.scripts n with
    | none => rfl
    | some r => exact congrArg some (hf r)
  · rfl

theorem flag_kept (flag : Bytes → Option Bool) :
    Preserves (fun _ => True) fun s => s.flag = flag where
  policy {s} c a _ hpolicy h := by
    subst h
    cases a with
    | highlightRule pattern color bg =>
      rw [callApi]
      split
      · rfl
      · exact flag_modify (s := s) rfl fun _ => rfl
    | filterKeep patterns => exact flag_modify (s := s) rfl fun _ => rfl
    | filterDrop patterns => exact flag_modify (s := s) rfl fun _ => rfl
    | filterClear => exact flag_modify (s := s) rfl fun _ => rfl
    | highlightClear => exact flag_modify (s := s) rfl fun _ => rfl
    | _ => exact hpolicy.elim
  modify name f hf h := (flag_modify rfl fun r => congrArg Prod.fst (hf r)).trans h
  congr hscripts _ _ _ h := (flag_congr hscripts).trans h

theorem flag_onReload (file : File) (s : State) : (onReload file s).flag = s.flag :=
  (flag_kept s.flag).onReload (fun _ codes _ role f => (codes role f).within_all) rfl

/-- The state in which the chunk of a load runs. -/
theorem flag_fresh (name : Bytes) (file : File) (s : State) :
    (((onReload file s).retire name).modify name fun r => r.fresh name).flag = s.flag := by
  rw [← flag_onReload file s]
  exact flag_modify (s := onReload file s) rfl fun _ => rfl

/-- A load leaves every flag as it is, or takes that of its script away where it fails. -/
theorem flag_loadScript {ok : Bool} (h : loadScript name file s = (t, ok)) :
    t.flag = if ok then s.flag else setFlag name false s.flag := by
  have hfresh := flag_fresh name file s
  unfold loadScript at h
  split at h
  · rename_i hunknown
    cases h
    funext n
    show s.flag n = setFlag name false s.flag n
    by_cases hn : n = name
    · rw [hn, setFlag_self, State.flag, hunknown]
      rfl
    · rw [setFlag_of_ne hn]
  · dsimp only at h
    split at h
    · have hheld := flag_onReload file s
      cases h
      show _ = setFlag name false s.flag
      rw [← hheld]
      exact flag_modify_set (s := onReload file s) rfl fun _ => rfl
    · rename_i chunk _
      generalize ((onReload file s).retire name).modify name (fun r => r.fresh name) = fresh
        at hfresh h
      have hrun : (exec chunk ⟨name, fresh.loadOf name⟩ fresh).1.flag = s.flag :=
        ((flag_kept fresh.flag).exec chunk chunk.within_all _ rfl).trans hfresh
      split at h
      · rename_i u heq
        rw [heq] at hrun
        cases h
        show _ = setFlag name false s.flag
        rw [← hrun]
        exact flag_modify_set (s := u) rfl fun _ => rfl
      · rename_i heq
        rw [heq] at hrun
        cases h
        exact hrun

theorem flag_loadScript_of_ok (h : (loadScript name file s).2 = true) :
    (loadScript name file s).1.flag = s.flag := by
  rcases hload : loadScript name file s with ⟨t, ok⟩
  rw [hload] at h
  rw [flag_loadScript hload, if_pos h]

theorem flag_loadScript_of_ne {n : Bytes} (h : n ≠ name) (file : File) (s : State) :
    (loadScript name file s).1.flag n = s.flag n := by
  rcases hload : loadScript name file s with ⟨t, ok⟩
  rw [flag_loadScript hload]
  cases ok with
  | true => rfl
  | false => exact setFlag_of_ne h false s.flag

/-- `enable` sets the flag as the load succeeds or fails. -/
theorem flag_enable (name : Bytes) (file : File) (s : State) :
    (enable name file s).flag = setFlag name (loadScript name file s).2 s.flag := by
  unfold enable
  rcases hload : loadScript name file s with ⟨t, ok⟩
  have hflag := flag_loadScript hload
  cases ok with
  | false =>
    have hfailed : t.flag = setFlag name false s.flag := hflag
    show (t.modify name _).flag = setFlag name false s.flag
    rw [← setFlag_setFlag name false false, ← hfailed]
    exact flag_modify_set (s := t) rfl fun _ => rfl
  | true =>
    have hloaded : t.flag = s.flag := hflag
    show (State.touch _).flag = setFlag name true s.flag
    rw [← hloaded]
    exact flag_modify_set (s := t) rfl fun _ => rfl

theorem flag_disable : (disable name s).flag = setFlag name false s.flag := by
  unfold disable
  split
  · rename_i hunknown
    funext n
    by_cases hn : n = name
    · rw [hn, setFlag_self, State.flag, hunknown]
      rfl
    · rw [setFlag_of_ne hn]
  · exact flag_modify_set (s := s) rfl fun _ => rfl

theorem isEnabled_loadAll (names : List Bytes) (s : State) (n : Bytes) :
    (loadAll names s).isEnabled n = s.isEnabled n := by
  rw [State.isEnabled, State.isEnabled, loadAll]
  dsimp only [State.touch]
  split
  · cases s.scripts n <;> rfl
  · rfl

/-- A step in which scripts run leaves the flags. -/
theorem flag_running {o : Op} (hloads : o.loads = false) (hstep : step s o = some t) :
    t.flag = s.flag :=
  (flag_kept s.flag).running (Op.runs_all hloads) hstep rfl

/-- A script that is known loads a chunk that runs without an error. -/
theorem loadScript_succeeds {chunk : Code} (hknown : (s.scripts name).isSome)
    (hchunk : file.chunk = some chunk) (hruns : ∀ c s, (exec chunk c s).2 ≠ .error) :
    (loadScript name file s).2 = true := by
  unfold loadScript
  split
  · rename_i hunknown
    rw [hunknown] at hknown
    cases hknown
  · dsimp only
    split
    · rename_i hnone
      cases hnone.symm.trans hchunk
    · rename_i chunk' hsome
      obtain rfl := Option.some.inj (hsome.symm.trans hchunk)
      split
      · rename_i heq
        exact absurd (congrArg Prod.snd heq) (hruns _ _)
      · rfl

end Xcom.Script.Engine
