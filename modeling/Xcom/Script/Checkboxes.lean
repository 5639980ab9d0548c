import Xcom.Script.Preserves

/-!
# The checkboxes of the script console

One buffer has two writers: a click while a frame is drawn, and the pump, which writes back
what the engine has enabled.  A copy of what the pump wrote last tells them apart.  A new
list of scripts brings a new buffer, and with it every click the last draw made is gone.
-/

namespace Xcom.Script.Checkboxes

/-- What the header of a script file gives the list: the label and the tooltip. -/
structure Header where
  label : Bytes
  tooltip : Bytes := []
  deriving DecidableEq, Repr

/-- The engine with the headers of its records. -/
structure Scripts where
  engine : Engine.State := {}
  header : Bytes → Header := fun name => { label := name }

/-- What a load of a script finds on disk. -/
structure Found where
  file : Engine.File
  header : Header

namespace Scripts

/-- The header is read again by every load whose file parses. -/
def loaded (s : Scripts) (name : Bytes) (found : Found) (engine : Engine.State) : Scripts :=
  { engine := engine
    header :=
      if (s.engine.scripts name).isSome && found.file.chunk.isSome then
        Function.update s.header name found.header
      else s.header }

/-- `enable`. -/
def enable (s : Scripts) (name : Bytes) (enabled : Bool) (found : Found) : Scripts :=
  if enabled then s.loaded name found (Engine.enable name found.file s.engine)
  else { s with engine := Engine.disable name s.engine }

/-- `reload`. -/
def reload (s : Scripts) (name : Bytes) (found : Found) : Scripts :=
  s.loaded name found (Engine.loadScript name found.file s.engine).1

/-- `load_all`: the headers of the files that were found are read. -/
def loadAll (s : Scripts) (names : List Bytes) (headers : Bytes → Header) : Scripts :=
  { engine := Engine.loadAll names s.engine
    header := fun name => if names.contains name then headers name else s.header name }

/-- `script_labels`. -/
def scriptLabels (s : Scripts) : List Bytes :=
  s.engine.order.map fun name =>
    if (s.engine.scripts name).isSome then (s.header name).label else name

/-- `script_tooltips`. -/
def scriptTooltips (s : Scripts) : List Bytes :=
  s.engine.order.map fun name =>
    if (s.engine.scripts name).isSome then (s.header name).tooltip else []

/-- The signature of the list: names, labels and tooltips. -/
def signature (s : Scripts) : Bytes :=
  List.intercalate [0x2C] s.engine.order ++ [0x01] ++
    List.intercalate [0x2C] s.scriptLabels ++ [0x01] ++
    List.intercalate [0x2C] s.scriptTooltips

end Scripts

/-- What changes on the side of the engine; `page` is a call of `ui.page`. -/
inductive Change
  | enable (name : Bytes) (enabled : Bool) (found : Found)
  | reload (name : Bytes) (found : Found)
  | loadAll (names : List Bytes) (headers : Bytes → Header)
  | page
  | run (o : Engine.Op)

/-- A change; the names of a directory differ. -/
def Scripts.change (s : Scripts) : Change → Option Scripts
  | .enable name enabled found => some (s.enable name enabled found)
  | .reload name found => some (s.reload name found)
  | .loadAll names headers => if names.Nodup then some (s.loadAll names headers) else none
  | .page => some { s with engine := { s.engine with listGen := s.engine.listGen + 1 } }
  | .run o =>
    if o.loads then none
    else (Engine.step s.engine o).map fun engine => { s with engine := engine }

/-- The script list and the checkboxes as window and bridge have them.  `enabledBuf` says
which boxes are ticked; `drawn` records the boxes as the last draw found them, `calls` the
calls of `enable` by the feedback of the last pump. -/
structure Window where
  scripts : Scripts := {}
  consoleOpen : Bool := false
  listGen : Option Nat := none
  listSignature : Option Bytes := none
  enabledShadow : Option (List Bool) := none
  scriptNames : List Bytes := []
  enabledBuf : Option (List Bool) := none
  drawn : List Bool := []
  calls : List (Bytes × Bool) := []

namespace Window

/-- `set_scripts`. -/
def setScripts (w : Window) : Window :=
  let names := w.scripts.engine.order
  { w with
    scriptNames := names
    enabledBuf := if names = [] then none else some (names.map fun _ => false) }

/-- The push of a list that has changed. -/
def pushList (w : Window) : Window :=
  if w.listGen = some w.scripts.engine.listGen then w
  else
    let signature := w.scripts.signature
    let w :=
      if w.listSignature = some signature then w
      else { w.setScripts with listSignature := some signature, enabledShadow := none }
    { w with listGen := some w.scripts.engine.listGen }

/-- The boxes are seeded from the engine once the buffer is new or the console opens. -/
def seed (w : Window) : Window :=
  match w.consoleOpen, w.enabledBuf with
  | true, some buf =>
    match w.enabledShadow with
    | some _ => w
    | none =>
      let flags := w.scripts.engine.order.map w.scripts.engine.isEnabled
      { w with
        enabledShadow := some flags
        enabledBuf := some (flags.take buf.length ++ buf.drop flags.length) }
  | _, _ => { w with enabledShadow := none }

/-- What the save of the editor and the console events do to the scripts; `createNew` is
`_script_create_new`. -/
inductive Act
  | change (c : Change)
  | createNew (name : Bytes) (names : List Bytes) (headers : Bytes → Header) (found : Found)

def act (w : Window) : Act → Option Window
  | .change c => (w.scripts.change c).map fun s => { w with scripts := s }
  | .createNew name names headers found =>
    if names.Nodup then
      some { w with
        scripts := (w.scripts.loadAll names headers).enable name true found
        listSignature := none }
    else none

/-- The first loop of the feedback: a box that differs from the shadow is a click. -/
def consumeClicks (found : Bytes → Found) :
    List Bytes → List Bool → List Bool → Scripts → Scripts × List Bool × List (Bytes × Bool)
  | name :: names, want :: buf, shadow, s =>
    if shadow.head? = some want then
      let r := consumeClicks found names buf shadow.tail s
      (r.1, want :: r.2.1, r.2.2)
    else
      let r := consumeClicks found names buf shadow.tail (s.enable name want (found name))
      (r.1, want :: r.2.1, (name, want) :: r.2.2)
  | _, _, shadow, s => (s, shadow, [])

/-- The second loop: shadow and buffer follow the engine. -/
def mirror (s : Engine.State) : List Bytes → List Bool → List Bool → List Bool × List Bool
  | name :: names, on :: buf, shadow =>
    let actual := s.isEnabled name
    let r := mirror s names buf shadow.tail
    (actual :: r.1, (if shadow.head? = some actual then on else actual) :: r.2)
  | _, buf, shadow => (shadow, buf)

/-- The feedback. -/
def feedback (found : Bytes → Found) (w : Window) : Window :=
  match w.consoleOpen, w.enabledBuf, w.enabledShadow with
  | true, some buf, some shadow =>
    let r := consumeClicks found w.scriptNames buf shadow w.scripts
    let m := mirror r.1.engine w.scriptNames buf r.2.1
    { w with scripts := r.1, enabledShadow := some m.1, enabledBuf := some m.2, calls := r.2.2 }
  | _, _, _ => { w with calls := [] }

/-- `_pump_script_console`, as far as it touches the list of scripts. -/
def pump (w : Window) (acts : List Act) (found : Bytes → Found) : Option Window :=
  (acts.foldlM act w.pushList.seed).map (feedback found)

/-- The draw: every click toggles its box. -/
def draw (w : Window) (clicks : List Nat) : Window :=
  { w with
    drawn := w.enabledBuf.getD []
    enabledBuf :=
      if w.consoleOpen then w.enabledBuf.map fun buf => clicks.foldl (·.modify · not) buf
      else w.enabledBuf }

/-- A frame, a change of the engine between two frames, the toggle of the console. -/
inductive Event
  | frame (acts : List Act) (found : Bytes → Found) (clicks : List Nat)
  | change (c : Change)
  | toggle

def step (w : Window) : Event → Option Window
  | .frame acts found clicks => (w.pump acts found).map (·.draw clicks)
  | .change c => (w.scripts.change c).map fun s => { w with scripts := s }
  | .toggle => some { w with consoleOpen := !w.consoleOpen }

def machine : Transition.Machine Window Event := ⟨{}, step⟩

/-- The boxes the user sees. -/
def boxes (w : Window) : List Bool := w.enabledBuf.getD []

/-- The boxes that differ between two buffers of one list. -/
def changed (names : List Bytes) (before after : List Bool) : List (Bytes × Bool) :=
  ((names.zip (before.zip after)).filter fun e => e.2.1 != e.2.2).map fun e => (e.1, e.2.2)

/-- What the user has changed since the last pump. -/
def changes (w : Window) : List (Bytes × Bool) := changed w.scriptNames w.drawn w.boxes

/-- The next pump pushes a new list. -/
def Pushes (w : Window) : Prop :=
  w.listGen ≠ some w.scripts.engine.listGen ∧ w.listSignature ≠ some w.scripts.signature

instance (w : Window) : Decidable w.Pushes := inferInstanceAs (Decidable (_ ∧ _))

/-- The calls of the next pump. -/
def due (w : Window) : List (Bytes × Bool) := if w.Pushes then [] else w.changes

/-- The next pump seeds as many boxes as there are: two lists of different length can share
a signature only through a comma in a file name. -/
def SeedsFit (w : Window) : Prop :=
  w.consoleOpen = true → w.enabledShadow = none → ¬w.Pushes →
    w.scriptNames.length = w.scripts.engine.order.length

/-- No click meets a new list. -/
def Meets (w : Window) : Event → Prop
  | .frame _ _ _ => w.SeedsFit ∧ (w.consoleOpen = true → w.Pushes → w.changes = [])
  | _ => True

instance (w : Window) : Decidable w.SeedsFit := inferInstanceAs (Decidable (_ → _))

instance (w : Window) (e : Event) : Decidable (w.Meets e) :=
  match e with
  | .frame _ _ _ => inferInstanceAs (Decidable (_ ∧ _))
  | .change _ => isTrue trivial
  | .toggle => isTrue trivial

end Window

/-! ## The order of the scripts -/

section Order

variable {s t : Engine.State} {name : Bytes} {file : Engine.File}

theorem order_kept (order : List Bytes) :
    Engine.Preserves (fun _ => True) fun s => s.order = order where
  policy {s} c a _ hpolicy h := by
    cases a with
    | filterKeep patterns => exact h
    | filterDrop patterns => exact h
    | filterClear => exact h
    | highlightRule pattern color bg =>
      rw [Engine.callApi]
      split
      · exact h
      · exact h
    | highlightClear => exact h
    | _ => exact hpolicy.elim
  modify name f hf h := h
  congr hscripts horder _ _ h := horder.trans h

theorem exec_order (code : Engine.Code) (c : Engine.Copy) (s : Engine.State) :
    (Engine.exec code c s).1.order = s.order :=
  (order_kept s.order).exec code code.within_all c rfl

theorem loadScript_order : (Engine.loadScript name file s).1.order = s.order := by
  have hheld : (Engine.onReload file s).order = s.order :=
    (order_kept s.order).onReload (fun _ codes _ role f => (codes role f).within_all) rfl
  unfold Engine.loadScript
  split
  · rfl
  · dsimp only
    split
    · exact hheld
    · rename_i chunk _
      have hrun := exec_order chunk
        ⟨name, (((Engine.onReload file s).retire name).modify name fun r => r.fresh name).loadOf
          name⟩ (((Engine.onReload file s).retire name).modify name fun r => r.fresh name)
      split
      · rename_i heq
        rw [heq] at hrun
        exact hrun.trans hheld
      · rename_i heq
        rw [heq] at hrun
        exact hrun.trans hheld

theorem enable_order : (Engine.enable name file s).order = s.order := by
  have hload : (Engine.loadScript name file s).1.order = s.order := loadScript_order
  unfold Engine.enable
  split
  · rename_i heq
    rw [heq] at hload
    exact hload
  · rename_i heq
    rw [heq] at hload
    exact hload

theorem disable_order : (Engine.disable name s).order = s.order := by
  unfold Engine.disable
  split
  · rfl
  · rfl

end Order

namespace Scripts

variable {s t : Scripts}

theorem enable_order (s : Scripts) (name : Bytes) (enabled : Bool) (found : Found) :
    (s.enable name enabled found).engine.order = s.engine.order := by
  cases enabled with
  | true => exact Checkboxes.enable_order
  | false => exact Checkboxes.disable_order

/-- The listed scripts stay different ones. -/
theorem change_nodup {c : Change} (hnodup : s.engine.order.Nodup) (h : s.change c = some t) :
    t.engine.order.Nodup := by
  cases c with
  | enable name enabled found =>
    cases h
    rw [enable_order]
    exact hnodup
  | reload name found =>
    cases h
    show (Engine.loadScript name found.file s.engine).1.order.Nodup
    rw [loadScript_order]
    exact hnodup
  | loadAll names headers =>
    rw [change] at h
    split at h
    · cases h
      assumption
    · cases h
  | page =>
    cases h
    exact hnodup
  | run o =>
    rw [change] at h
    split at h
    · cases h
    · rename_i hloads
      obtain ⟨engine, hstep, rfl⟩ := Option.map_eq_some_iff.mp h
      have horder := (order_kept s.engine.order).running
        (Engine.Op.runs_all (Bool.eq_false_iff.mpr hloads)) hstep rfl
      show engine.order.Nodup
      rw [horder]
      exact hnodup

end Scripts

namespace Window

variable {w w' : Window}

/-! ## The two loops of the feedback -/

theorem changed_self (names : List Bytes) (buf : List Bool) : changed names buf buf = [] := by
  induction names generalizing buf with
  | nil => rfl
  | cons name names ih =>
    cases buf with
    | nil => rfl
    | cons on buf => simpa [changed] using ih buf

theorem changed_sublist (names : List Bytes) (before after : List Bool) :
    ((changed names before after).map Prod.fst).Sublist names := by
  induction names generalizing before after with
  | nil => exact List.nil_sublist _
  | cons name names ih =>
    cases before with
    | nil => exact List.nil_sublist _
    | cons old before =>
      cases after with
      | nil => exact List.nil_sublist _
      | cons want after =>
        have hrest := ih before after
        by_cases hsame : old = want
        · have hskip : changed (name :: names) (old :: before) (want :: after) =
              changed names before after := by
            simp [changed, hsame]
          rw [hskip]
          exact hrest.cons name
        · have htake : changed (name :: names) (old :: before) (want :: after) =
              (name, want) :: changed names before after := by
            simp [changed, hsame]
          rw [htake]
          exact hrest.cons_cons name

/-- Every box that differs from the shadow gives one call, in the order of the list. -/
theorem consumeClicks_spec (found : Bytes → Found) {names : List Bytes} {buf shadow : List Bool}
    (hbuf : buf.length = names.length) (hshadow : shadow.length = names.length) (s : Scripts) :
    consumeClicks found names buf shadow s =
      ((changed names shadow buf).foldl (fun s c => s.enable c.1 c.2 (found c.1)) s, buf,
        changed names shadow buf) := by
  induction names generalizing buf shadow s with
  | nil =>
    obtain rfl := List.length_eq_zero_iff.mp hbuf
    obtain rfl := List.length_eq_zero_iff.mp hshadow
    rfl
  | cons name names ih =>
    cases buf with
    | nil => cases hbuf
    | cons want buf =>
      cases shadow with
      | nil => cases hshadow
      | cons old shadow =>
        have hrest := ih (Nat.succ.inj hbuf) (Nat.succ.inj hshadow)
        rw [consumeClicks, List.head?_cons, List.tail_cons]
        by_cases hsame : old = want
        · have hskip : changed (name :: names) (old :: shadow) (want :: buf) =
              changed names shadow buf := by
            simp [changed, hsame]
          rw [if_pos (congrArg some hsame), hrest, hskip]
        · have htake : changed (name :: names) (old :: shadow) (want :: buf) =
              (name, want) :: changed names shadow buf := by
            simp [changed, hsame]
          have hne : some old ≠ some want := fun h => hsame (Option.some.inj h)
          rw [if_neg hne, hrest, htake]
          rfl

theorem mirror_self (s : Engine.State) {names : List Bytes} {buf : List Bool}
    (hbuf : buf.length = names.length) :
    mirror s names buf buf = (names.map s.isEnabled, names.map s.isEnabled) := by
  induction names generalizing buf with
  | nil =>
    obtain rfl := List.length_eq_zero_iff.mp hbuf
    rfl
  | cons name names ih =>
    cases buf with
    | nil => cases hbuf
    | cons on buf =>
      have hbox : (if some on = some (s.isEnabled name) then on else s.isEnabled name) =
          s.isEnabled name := by
        split
        · rename_i heq
          exact Option.some.inj heq
        · rfl
      rw [mirror, List.head?_cons, List.tail_cons, ih (Nat.succ.inj hbuf), hbox]
      rfl

end Window

end Xcom.Script.Checkboxes
