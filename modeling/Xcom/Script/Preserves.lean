import Xcom.Script.Engine

/-!
# Properties that script code keeps

What the hooks of a dispatch do depends on the code of the scripts.  A property of the
engine that reads only which scripts are enabled, their filters and rules, their order and
the flags beside these, and that the filter and highlight calls keep, is kept by any code
and by every dispatch.
-/

namespace Xcom.Script.Engine

/-- The code makes no call outside `allowed`, and sets off none. -/
def Code.Within (allowed : Api → Prop) : Code → Prop
  | .ret _ => True
  | .api a k => allowed a ∧ k.Within allowed
  | .send _ hooks k => (∀ f, (hooks f).Within allowed) ∧ k.Within allowed

/-- The same of what every function does in a step. -/
def Codes.Within (allowed : Api → Prop) (codes : Codes) : Prop :=
  ∀ role f, (codes role f).Within allowed

/-- A step in which scripts run, and make `allowed` calls only. -/
def Op.Runs (allowed : Api → Prop) : Op → Prop
  | .receive _ codes => codes.Within allowed
  | .send _ codes => codes.Within allowed
  | .uiEvent _ codes => codes.Within allowed
  | .fire _ code => code.Within allowed
  | .readDone _ code => code.Within allowed
  | .evalCommand code => code.Within allowed
  | .host _ _ => True
  | .shutdown => True
  | .loadAll _ => False
  | .enable _ _ => False
  | .disable _ => False
  | .reload _ _ => False

/-- The calls that change the filters or the rules of a script. -/
def Api.Policy : Api → Prop
  | .filterKeep _ | .filterDrop _ | .filterClear | .highlightRule _ _ _ | .highlightClear => True
  | _ => False

/-- A step that loads a script, enables or disables one, or scans the directory. -/
def Op.loads : Op → Bool
  | .loadAll _ => true
  | .enable _ _ => true
  | .disable _ => true
  | .reload _ _ => true
  | _ => false

/-- What a record says about lines: whether it counts, its filters, its rules. -/
def Record.policy (r : Record) : Bool × List Bytes × List Bytes × List Rule :=
  (r.enabled, r.keeps, r.drops, r.rules)

/-- A property that the `allowed` filter and highlight calls keep, and every change to the
rest of a record. -/
structure Preserves (allowed : Api → Prop) (P : State → Prop) : Prop where
  policy : ∀ {s} (c a), allowed a → a.Policy → P s → P (callApi c a s)
  modify : ∀ {s} (name) {f : Record → Record},
    (∀ r, (f r).policy = r.policy) → P s → P (s.modify name f)
  congr : ∀ {s t : State}, t.scripts = s.scripts → t.order = s.order →
    t.rulesDirty = s.rulesDirty → t.lineFilterOn = s.lineFilterOn → P s → P t

/-- A function called with a state of the property leaves one. -/
def Runner.Keeps (P : State → Prop) (run : Runner) : Prop := ∀ f s, P s → P (run f s).1

theorem Code.within_all (code : Code) : code.Within fun _ => True := by
  induction code with
  | ret r => trivial
  | api a k ih => exact ⟨trivial, ih⟩
  | send data hooks k ihhooks ihk => exact ⟨ihhooks, ihk⟩

theorem Op.runs_all {o : Op} (h : o.loads = false) : o.Runs fun _ => True := by
  have hwithin : ∀ codes : Codes, codes.Within fun _ => True :=
    fun codes role f => (codes role f).within_all
  cases o with
  | loadAll names => cases h
  | enable name file => cases h
  | disable name => cases h
  | reload name file => cases h
  | receive text codes => exact hwithin codes
  | send data codes => exact hwithin codes
  | uiEvent page codes => exact hwithin codes
  | fire handle code => exact code.within_all
  | readDone index code => exact code.within_all
  | evalCommand code => exact code.within_all
  | host isOpen ready => trivial
  | shutdown => trivial

namespace Preserves

variable {allowed : Api → Prop} {P : State → Prop} {s : State}

/-- Every allowed call keeps the property; but for the filter and highlight calls it
changes at most the rest of the record. -/
theorem call (h : Preserves allowed P) (c : Copy) (a : Api) (ha : allowed a) (hs : P s) :
    P (callApi c a s) := by
  cases a with
  | filterKeep patterns => exact h.policy c _ ha trivial hs
  | filterDrop patterns => exact h.policy c _ ha trivial hs
  | filterClear => exact h.policy c _ ha trivial hs
  | highlightRule pattern color bg => exact h.policy c _ ha trivial hs
  | highlightClear => exact h.policy c _ ha trivial hs
  | onReceive id =>
    refine h.congr (s := s.modify c.script _) rfl rfl rfl rfl (h.modify c.script ?_ hs)
    exact fun _ => rfl
  | onSend id => exact h.modify c.script (fun _ => rfl) hs
  | setUartReceive id => exact h.modify c.script (fun _ => rfl) hs
  | setUiEvent id => exact h.modify c.script (fun _ => rfl) hs
  | busy active => exact h.modify c.script (fun _ => rfl) hs
  | timerStart ms id => exact h.congr (s := s) rfl rfl rfl rfl hs
  | timerLoopStart ms id => exact h.congr (s := s) rfl rfl rfl rfl hs
  | timerStop handle => exact h.congr (s := s) rfl rfl rfl rfl hs
  | fileReadAtAsync fd offset len id =>
    cases fd with
    | none => exact hs
    | some fd =>
      by_cases hargs : offset < 0 ∨ len ≤ 0
      · simpa only [callApi, if_pos hargs] using hs
      · simp only [callApi, if_neg hargs]
        exact h.congr (s := s) rfl rfl rfl rfl hs

theorem calling (h : Preserves allowed P) (role : Role) (f : Fn) (hs : P s) :
    P (s.calling role f) := by
  apply h.congr _ _ _ _ hs <;> rfl

theorem strikeSend (h : Preserves allowed P) (name : Bytes) (hs : P s) :
    P (s.strikeSend name) := by
  apply h.modify name _ hs
  intro r
  by_cases hlast : hookStrikes ≤ r.strikesSend + 1
  · simp [Record.policy, hlast]
  · simp [Record.policy, hlast]

theorem strikeRecv (h : Preserves allowed P) (name : Bytes) (legacy : Bool) (hs : P s) :
    P (s.strikeRecv name legacy) := by
  unfold State.strikeRecv
  split
  · refine h.congr (s := s.modify name _) (t := { s.modify name _ with recvHookOn := none })
      rfl rfl rfl rfl (h.modify name ?_ hs)
    intro r
    cases legacy with
    | false => exact rfl
    | true => exact rfl
  · exact h.modify name (fun r => rfl) hs

theorem dispatchSend (h : Preserves allowed P) {run : Runner} (hrun : run.Keeps P)
    (names : List Bytes) (payload : Bytes) (hs : P s) :
    P (Engine.dispatchSend run names payload s).1 := by
  induction names generalizing payload s with
  | nil => exact hs
  | cons name rest ih =>
    have hreset : ∀ {t : State}, P t →
        P (t.modify name fun r => { r with strikesSend := 0 }) := by
      intro t ht
      exact h.modify name (fun r => rfl) ht
    unfold Engine.dispatchSend
    split
    · exact ih payload hs
    · split
      · rename_i f _ _
        have hcalled := hrun f _ (h.calling .send f hs)
        rcases hres : run f (s.calling .send f) with ⟨t, r⟩
        rw [hres] at hcalled
        cases r with
        | nothing => exact hreset hcalled
        | text p => exact ih p (hreset hcalled)
        | value => exact ih payload (hreset hcalled)
        | error => exact ih payload (h.strikeSend name hcalled)
      · exact ih payload hs

theorem coreSend (h : Preserves allowed P) {run : Runner} (hrun : run.Keeps P) (data : Bytes)
    (hs : P s) : P (Engine.coreSend run data s).1 := by
  unfold Engine.coreSend
  split
  · exact hs
  · exact h.dispatchSend hrun _ _ hs

theorem uartSend (h : Preserves allowed P) {run : Runner} (hrun : run.Keeps P) (c : Copy)
    (data : Bytes) (hs : P s) : P (Engine.uartSend c run data s) := by
  unfold Engine.uartSend
  split
  · exact hs
  · have hsent := h.coreSend hrun data hs
    rcases hres : Engine.coreSend run data s with ⟨t, payload⟩
    rw [hres] at hsent
    cases payload with
    | none => exact hsent
    | some p => apply h.congr _ _ _ _ hsent <;> rfl

/-- Code within the calls keeps the property, with all it sets off. -/
theorem exec (h : Preserves allowed P) (code : Code) (hcode : code.Within allowed) (c : Copy)
    (hs : P s) : P (Engine.exec code c s).1 := by
  induction code generalizing c s with
  | ret r => exact hs
  | api a k ih => exact ih hcode.2 c (h.call c a hcode.1 hs)
  | send data hooks k ihhooks ihk =>
    apply ihk hcode.2
    apply h.uartSend _ c data hs
    intro f t ht
    exact ihhooks f (hcode.1 f) f.owner ht

theorem keeps_run (h : Preserves allowed P) {codes : Codes} (hcodes : codes.Within allowed)
    (role : Role) : (codes.run role).Keeps P := by
  intro f t ht
  exact h.exec (codes role f) (hcodes role f) f.owner ht

theorem callRecvHook (h : Preserves allowed P) {codes : Codes} (hcodes : codes.Within allowed)
    (name : Bytes) (record : Record) (text : Bytes) (hs : P s) :
    P (Engine.callRecvHook codes name record text s).1 := by
  have hreset : ∀ {t : State}, P t →
      P (t.modify name fun r => { r with strikesRecv := 0 }) := by
    intro t ht
    exact h.modify name (fun r => rfl) ht
  unfold Engine.callRecvHook
  split
  · exact hs
  · rename_i f _
    have hcalled := h.keeps_run hcodes .receive f _ (h.calling .receive f hs)
    rcases hres : codes.run .receive f (s.calling .receive f) with ⟨t, r⟩
    rw [hres] at hcalled
    cases r with
    | nothing => exact hreset hcalled
    | text p => exact hreset hcalled
    | value => exact hreset hcalled
    | error => exact h.strikeRecv name false hcalled

theorem callUartReceive (h : Preserves allowed P) {codes : Codes}
    (hcodes : codes.Within allowed) (name : Bytes) (hs : P s) :
    P (Engine.callUartReceive codes name s) := by
  unfold Engine.callUartReceive
  split
  · exact hs
  · rename_i f _
    have hcalled := h.keeps_run hcodes .uartReceive f _ (h.calling .uartReceive f hs)
    rcases hres : codes.run .uartReceive f (s.calling .uartReceive f) with ⟨t, r⟩
    rw [hres] at hcalled
    cases r with
    | error => exact h.strikeRecv name true hcalled
    | nothing => exact hcalled
    | text p => exact hcalled
    | value => exact hcalled

theorem receiveLoop (h : Preserves allowed P) {codes : Codes} (hcodes : codes.Within allowed)
    (names : List Bytes) (text : Bytes) (hs : P s) :
    P (Engine.receiveLoop codes names text s).1 := by
  induction names generalizing text s with
  | nil => exact hs
  | cons name rest ih =>
    unfold Engine.receiveLoop
    split
    · exact ih text hs
    · rename_i record _
      by_cases hon : record.enabled = true
      · have hhook := h.callRecvHook hcodes name record text hs
        rw [if_pos hon]
        rcases hres : Engine.callRecvHook codes name record text s with ⟨t, out⟩
        rw [hres] at hhook
        cases out with
        | none => exact hhook
        | some text' => exact ih text' (h.callUartReceive hcodes name hhook)
      · rw [if_neg hon]
        exact ih text hs

theorem dispatchReceive (h : Preserves allowed P) {codes : Codes}
    (hcodes : codes.Within allowed) (text : Bytes) (hs : P s) :
    P (Engine.dispatchReceive codes text s).1 := by
  have hcache : P (hasReceiveHook s).1 := by
    unfold hasReceiveHook
    split
    · exact hs
    · exact h.congr (s := s) rfl rfl rfl rfl hs
  unfold Engine.dispatchReceive
  rcases hres : hasReceiveHook s with ⟨t, on⟩
  rw [hres] at hcache
  cases on with
  | false => exact hcache
  | true => exact h.receiveLoop hcodes _ _ hcache

theorem dispatchUiEvent (h : Preserves allowed P) {codes : Codes}
    (hcodes : codes.Within allowed) (page : Bytes) (hs : P s) :
    P (Engine.dispatchUiEvent codes page s) := by
  unfold Engine.dispatchUiEvent
  split
  · exact hs
  · split
    · split
      · exact hs
      · rename_i f _
        exact h.keeps_run hcodes .uiEvent f _ (h.calling .uiEvent f hs)
    · exact hs

theorem onReload (h : Preserves allowed P) {file : File}
    (hfile : ∀ line codes, file.held = some (line, codes) → codes.Within allowed)
    (hs : P s) : P (Engine.onReload file s) := by
  unfold Engine.onReload
  split
  · exact hs
  · rename_i line codes hheld
    exact h.dispatchReceive (hfile line codes hheld) line hs

/-- A step in which scripts run, and none is loaded, keeps the property. -/
theorem running (h : Preserves allowed P) {o : Op} (hruns : o.Runs allowed) {t : State}
    (hstep : Engine.step s o = some t) (hs : P s) : P t := by
  cases o with
  | receive text codes =>
    cases hstep
    exact h.dispatchReceive hruns text hs
  | send data codes =>
    cases hstep
    exact h.coreSend (h.keeps_run hruns .send) data hs
  | uiEvent page codes =>
    cases hstep
    exact h.dispatchUiEvent hruns page hs
  | fire handle code =>
    obtain ⟨timer, -, rfl⟩ := Option.map_eq_some_iff.mp hstep
    apply h.exec code hruns
    apply h.calling
    split
    · exact hs
    · exact h.congr (s := s) rfl rfl rfl rfl hs
  | readDone index code =>
    obtain ⟨read, -, rfl⟩ := Option.map_eq_some_iff.mp hstep
    apply h.exec code hruns
    apply h.calling
    exact h.congr (s := s) rfl rfl rfl rfl hs
  | evalCommand code =>
    obtain ⟨c, -, rfl⟩ := Option.map_eq_some_iff.mp hstep
    exact h.exec code hruns c hs
  | host isOpen ready =>
    cases hstep
    exact h.congr (s := s) rfl rfl rfl rfl hs
  | shutdown =>
    cases hstep
    exact h.congr (s := s) rfl rfl rfl rfl hs
  | loadAll names => exact hruns.elim
  | enable name file => exact hruns.elim
  | disable name => exact hruns.elim
  | reload name file => exact hruns.elim

end Preserves

end Xcom.Script.Engine
