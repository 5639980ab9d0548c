import Xcom.Script.Checkboxes

/-!
# Clicks on the checkboxes

A shadow is what the last draw found, so the boxes that differ from it are the clicks of the
draw; a list that is pushed anew has none of them.  The calls of every pump follow, and the
boxes it leaves.
-/

namespace Xcom.Script.Checkboxes

namespace Window

variable {w w' : Window}

/-! ## Every run -/

/-- The boxes are those of the list, and the shadow is what the last draw found. -/
structure Sound (w : Window) : Prop where
  order : w.scripts.engine.order.Nodup
  names : w.scriptNames.Nodup
  boxes : w.boxes.length = w.scriptNames.length
  drawn : w.drawn.length = w.scriptNames.length
  shadow : ∀ shadow, w.enabledShadow = some shadow → shadow = w.drawn
  unseeded : w.enabledShadow = none → w.drawn = w.boxes

/-- The feedback is about to call `enable` for `calls`. -/
structure Ready (calls : List (Bytes × Bool)) (w : Window) : Prop where
  order : w.scripts.engine.order.Nodup
  names : w.scriptNames.Nodup
  boxes : w.boxes.length = w.scriptNames.length
  shadow : ∀ shadow, w.enabledShadow = some shadow →
    shadow.length = w.scriptNames.length ∧ changed w.scriptNames shadow w.boxes = calls
  unseeded : w.enabledShadow = none → w.consoleOpen = false ∨ w.scriptNames = [] ∧ calls = []
  closed : w.consoleOpen = false → w.enabledShadow = none

theorem pushList_of_not_pushes (h : ¬w.Pushes) :
    w.pushList = { w with listGen := some w.scripts.engine.listGen } := by
  rw [pushList]
  by_cases hgen : w.listGen = some w.scripts.engine.listGen
  · rw [if_pos hgen, ← hgen]
  · have hsame : w.listSignature = some w.scripts.signature := by
      by_contra hne
      exact h ⟨hgen, hne⟩
    rw [if_neg hgen]
    dsimp only
    rw [if_pos hsame]

theorem pushList_of_pushes (h : w.Pushes) :
    w.pushList = { w.setScripts with
      listSignature := some w.scripts.signature
      enabledShadow := none
      listGen := some w.scripts.engine.listGen } := by
  rw [pushList, if_neg h.1]
  dsimp only
  rw [if_neg h.2]
  rfl

theorem boxes_of_buf {buf : List Bool} (h : w.enabledBuf = some buf) : w.boxes = buf := by
  rw [boxes, h]
  rfl

theorem names_of_none (hlen : w.boxes.length = w.scriptNames.length)
    (h : w.enabledBuf = none) : w.scriptNames = [] := by
  apply List.length_eq_zero_iff.mp
  rw [← hlen, boxes, h]
  rfl

theorem seed_of_closed (h : w.consoleOpen = false) :
    w.seed = { w with enabledShadow := none } := by
  rw [seed, h]

theorem seed_of_none (h : w.enabledBuf = none) : w.seed = { w with enabledShadow := none } := by
  rw [seed, h]
  cases w.consoleOpen <;> rfl

theorem seed_of_shadow {buf shadow : List Bool} (hopen : w.consoleOpen = true)
    (hbuf : w.enabledBuf = some buf) (hshadow : w.enabledShadow = some shadow) : w.seed = w := by
  rw [seed, hopen, hbuf, hshadow]

/-- As many boxes as the engine has scripts are seeded from its flags. -/
theorem seed_of_fresh {buf : List Bool} (hopen : w.consoleOpen = true)
    (hbuf : w.enabledBuf = some buf) (hshadow : w.enabledShadow = none)
    (hlen : buf.length = w.scripts.engine.order.length) :
    w.seed = { w with
      enabledShadow := some (w.scripts.engine.order.map w.scripts.engine.isEnabled)
      enabledBuf := some (w.scripts.engine.order.map w.scripts.engine.isEnabled) } := by
  have hflags : (w.scripts.engine.order.map w.scripts.engine.isEnabled).length = buf.length := by
    rw [List.length_map, hlen]
  rw [seed, hopen, hbuf, hshadow]
  dsimp only
  rw [List.take_of_length_le (Nat.le_of_eq hflags),
    List.drop_of_length_le (Nat.le_of_eq hflags.symm), List.append_nil]

/-- The seed makes a list ready for `calls`: a shadow leaves the clicks, and without one
there are none. -/
theorem ready_seed {calls : List (Bytes × Bool)} (horder : w.scripts.engine.order.Nodup)
    (hnames : w.scriptNames.Nodup) (hboxes : w.boxes.length = w.scriptNames.length)
    (hshadow : ∀ shadow, w.enabledShadow = some shadow →
      shadow.length = w.scriptNames.length ∧ changed w.scriptNames shadow w.boxes = calls)
    (hfresh : w.consoleOpen = true → w.enabledShadow = none →
      w.scriptNames.length = w.scripts.engine.order.length ∧ calls = [])
    (hempty : w.scriptNames = [] → calls = []) : Ready calls w.seed := by
  by_cases hopen : w.consoleOpen = true
  · cases hbuf : w.enabledBuf with
    | none =>
      have hnil := names_of_none hboxes hbuf
      rw [seed_of_none hbuf]
      exact ⟨horder, hnames, hboxes, nofun, fun _ => .inr ⟨hnil, hempty hnil⟩, fun _ => rfl⟩
    | some buf =>
      cases hnone : w.enabledShadow with
      | some shadow =>
        rw [seed_of_shadow hopen hbuf hnone]
        exact ⟨horder, hnames, hboxes, hshadow, fun h => (nomatch hnone.symm.trans h),
          fun h => (nomatch hopen.symm.trans h)⟩
      | none =>
        obtain ⟨hfit, rfl⟩ := hfresh hopen hnone
        have hlen : buf.length = w.scripts.engine.order.length := by
          rw [← boxes_of_buf hbuf, hboxes, hfit]
        have hflags : (w.scripts.engine.order.map w.scripts.engine.isEnabled).length =
            w.scriptNames.length := by
          rw [List.length_map, hfit]
        rw [seed_of_fresh hopen hbuf hnone hlen]
        refine ⟨horder, hnames, hflags, ?_, nofun, fun h => (nomatch hopen.symm.trans h)⟩
        intro shadow hsome
        obtain rfl := Option.some.inj hsome
        exact ⟨hflags, changed_self _ _⟩
  · have hclosed := Bool.eq_false_iff.mpr hopen
    rw [seed_of_closed hclosed]
    exact ⟨horder, hnames, hboxes, nofun, fun _ => .inl hclosed, fun _ => rfl⟩

theorem Sound.ready_of_not_pushes (hw : Sound w) (hfit : w.SeedsFit) (h : ¬w.Pushes) :
    Ready w.changes w.pushList.seed := by
  rw [pushList_of_not_pushes h]
  apply ready_seed
  · exact hw.order
  · exact hw.names
  · exact hw.boxes
  · intro shadow hshadow
    obtain rfl := hw.shadow shadow hshadow
    exact ⟨hw.drawn, rfl⟩
  · intro hopen hshadow
    refine ⟨hfit hopen hshadow h, ?_⟩
    rw [changes, hw.unseeded hshadow, changed_self]
  · intro hnil
    have hnames : w.scriptNames = [] := hnil
    rw [changes, hnames]
    rfl

theorem Sound.ready_of_pushes (hw : Sound w) (h : w.Pushes) : Ready [] w.pushList.seed := by
  rw [pushList_of_pushes h]
  apply ready_seed
  · exact hw.order
  · exact hw.order
  · show (Option.getD (if _ then _ else _) []).length = _
    split
    · rename_i hnil
      exact (congrArg List.length hnil).symm
    · exact List.length_map _
  · exact nofun
  · exact fun _ _ => ⟨rfl, rfl⟩
  · exact fun _ => rfl

theorem Sound.ready (hw : Sound w) (hfit : w.SeedsFit) : Ready w.due w.pushList.seed := by
  rw [due]
  split
  · rename_i hpushes
    exact hw.ready_of_pushes hpushes
  · rename_i hpushes
    exact hw.ready_of_not_pushes hfit hpushes

theorem Ready.act {calls : List (Bytes × Bool)} {a : Act} (hw : Ready calls w)
    (h : w.act a = some w') : Ready calls w' ∧ w'.consoleOpen = w.consoleOpen := by
  cases a with
  | change c =>
    obtain ⟨s, hs, rfl⟩ := Option.map_eq_some_iff.mp h
    exact ⟨{ hw with order := Scripts.change_nodup hw.order hs }, rfl⟩
  | createNew name names headers found =>
    rw [Window.act] at h
    split at h
    · rename_i hnodup
      cases h
      refine ⟨{ hw with order := ?_ }, rfl⟩
      rw [Scripts.enable_order]
      exact hnodup
    · cases h

theorem Ready.acts {calls : List (Bytes × Bool)} {acts : List Act} (hw : Ready calls w)
    (h : acts.foldlM Window.act w = some w') :
    Ready calls w' ∧ w'.consoleOpen = w.consoleOpen := by
  induction acts generalizing w with
  | nil =>
    cases h
    exact ⟨hw, rfl⟩
  | cons a acts ih =>
    rw [List.foldlM_cons] at h
    obtain ⟨mid, hact, hrest⟩ := Option.bind_eq_some_iff.mp h
    obtain ⟨hmid, hopen⟩ := hw.act hact
    obtain ⟨hready, hopen'⟩ := ih hmid hrest
    exact ⟨hready, hopen'.trans hopen⟩

/-- The boxes after a pump: the shadow is the buffer. -/
structure Fed (w : Window) : Prop where
  order : w.scripts.engine.order.Nodup
  names : w.scriptNames.Nodup
  boxes : w.boxes.length = w.scriptNames.length
  shadow : ∀ shadow, w.enabledShadow = some shadow → shadow = w.boxes
  unseeded : w.enabledShadow = none → w.consoleOpen = false ∨ w.boxes = []

theorem foldl_enable_order (found : Bytes → Found) (calls : List (Bytes × Bool)) (s : Scripts) :
    (calls.foldl (fun s c => s.enable c.1 c.2 (found c.1)) s).engine.order = s.engine.order := by
  induction calls generalizing s with
  | nil => rfl
  | cons c calls ih => rw [List.foldl_cons, ih, Scripts.enable_order]

/-- A list without boxes leaves the feedback nothing to do. -/
theorem Ready.feedback_nil {calls : List (Bytes × Bool)} (hw : Ready calls w)
    (found : Bytes → Found) (hnil : w.scriptNames = []) (hcalls : calls = [])
    (hfed : w.feedback found = { w with calls := [] }) :
    Fed (w.feedback found) ∧ (w.feedback found).calls = calls ∧
      (w.feedback found).scripts =
        calls.foldl (fun s c => s.enable c.1 c.2 (found c.1)) w.scripts ∧
      (w.feedback found).boxes =
        (w.feedback found).scriptNames.map (w.feedback found).scripts.engine.isEnabled := by
  have hboxes : w.boxes = [] := by
    apply List.length_eq_zero_iff.mp
    rw [hw.boxes, hnil]
    rfl
  have hflags : w.boxes = w.scriptNames.map w.scripts.engine.isEnabled := by
    rw [hboxes, hnil]
    rfl
  rw [hfed, hcalls]
  refine ⟨⟨hw.order, hw.names, hw.boxes, ?_, fun _ => .inr hboxes⟩, rfl, rfl, hflags⟩
  intro shadow hshadow
  have hlen := (hw.shadow shadow hshadow).1
  rw [hnil] at hlen
  exact (List.length_eq_zero_iff.mp hlen).trans hboxes.symm

/-- The feedback of a list that is ready: the calls, and boxes that show the flags. -/
theorem Ready.feedback {calls : List (Bytes × Bool)} (hw : Ready calls w) (found : Bytes → Found)
    (hopen : w.consoleOpen = true) :
    Fed (w.feedback found) ∧ (w.feedback found).calls = calls ∧
      (w.feedback found).scripts =
        calls.foldl (fun s c => s.enable c.1 c.2 (found c.1)) w.scripts ∧
      (w.feedback found).boxes =
        (w.feedback found).scriptNames.map (w.feedback found).scripts.engine.isEnabled := by
  cases hshadow : w.enabledShadow with
  | none =>
    have hfed : w.feedback found = { w with calls := [] } := by
      rw [Window.feedback, hshadow]
      cases w.consoleOpen <;> cases w.enabledBuf <;> rfl
    rcases hw.unseeded hshadow with hclosed | ⟨hnil, hcalls⟩
    · cases hopen.symm.trans hclosed
    · exact hw.feedback_nil found hnil hcalls hfed
  | some shadow =>
    obtain ⟨hlen, hcalls⟩ := hw.shadow shadow hshadow
    cases hbuf : w.enabledBuf with
    | none =>
      have hnil := names_of_none hw.boxes hbuf
      have hnone : calls = [] := by
        rw [← hcalls, hnil]
        rfl
      apply hw.feedback_nil found hnil hnone
      rw [Window.feedback, hopen, hbuf]
    | some buf =>
      have hboxes := boxes_of_buf hbuf
      have hbuflen : buf.length = w.scriptNames.length := hboxes ▸ hw.boxes
      rw [hboxes] at hcalls
      have hfed : w.feedback found = { w with
          scripts := calls.foldl (fun s c => s.enable c.1 c.2 (found c.1)) w.scripts
          enabledShadow := some (w.scriptNames.map
            (calls.foldl (fun s c => s.enable c.1 c.2 (found c.1)) w.scripts).engine.isEnabled)
          enabledBuf := some (w.scriptNames.map
            (calls.foldl (fun s c => s.enable c.1 c.2 (found c.1)) w.scripts).engine.isEnabled)
          calls := calls } := by
        rw [Window.feedback, hopen, hbuf, hshadow]
        dsimp only
        rw [consumeClicks_spec found hbuflen hlen, hcalls, mirror_self _ hbuflen]
      rw [hfed]
      refine ⟨⟨?_, hw.names, List.length_map _, ?_, nofun⟩, rfl, rfl, rfl⟩
      · show (calls.foldl _ w.scripts).engine.order.Nodup
        rw [foldl_enable_order]
        exact hw.order
      · intro s hs
        exact (Option.some.inj hs).symm

theorem seed_open (w : Window) : w.seed.consoleOpen = w.consoleOpen := by
  rw [seed]
  split
  · split
    · rfl
    · rfl
  · rfl

theorem pushList_open (w : Window) : w.pushList.consoleOpen = w.consoleOpen := by
  by_cases h : w.Pushes
  · rw [pushList_of_pushes h]
    rfl
  · rw [pushList_of_not_pushes h]

/-- A pump with the console open calls `enable` as due and leaves boxes that show the
flags. -/
theorem Sound.pump_open {acts : List Act} {found : Bytes → Found} (hw : Sound w)
    (hfit : w.SeedsFit) (hopen : w.consoleOpen = true) (h : w.pump acts found = some w') :
    Fed w' ∧ w'.calls = w.due ∧
      (∃ m, acts.foldlM Window.act w.pushList.seed = some m ∧
        w'.scripts = w.due.foldl (fun s c => s.enable c.1 c.2 (found c.1)) m.scripts) ∧
      w'.boxes = w'.scriptNames.map w'.scripts.engine.isEnabled := by
  obtain ⟨m, hacts, rfl⟩ := Option.map_eq_some_iff.mp h
  obtain ⟨hready, hsame⟩ := (hw.ready hfit).acts hacts
  rw [seed_open, pushList_open, hopen] at hsame
  obtain ⟨hfed, hcalls, hscripts, hboxes⟩ := hready.feedback found hsame
  exact ⟨hfed, hcalls, ⟨m, hacts, hscripts⟩, hboxes⟩

theorem Sound.pump (hw : Sound w) (hfit : w.SeedsFit) {acts : List Act}
    {found : Bytes → Found} (h : w.pump acts found = some w') : Fed w' := by
  by_cases hopen : w.consoleOpen = true
  · exact (hw.pump_open hfit hopen h).1
  · obtain ⟨m, hacts, rfl⟩ := Option.map_eq_some_iff.mp h
    obtain ⟨hready, hsame⟩ := (hw.ready hfit).acts hacts
    rw [seed_open, pushList_open, Bool.eq_false_iff.mpr hopen] at hsame
    have hfed : m.feedback found = { m with calls := [] } := by
      rw [feedback, hsame]
    rw [hfed]
    refine ⟨hready.order, hready.names, hready.boxes, ?_, fun _ => .inl hsame⟩
    intro shadow hshadow
    cases (hready.closed hsame).symm.trans hshadow

theorem clicks_length (clicks : List Nat) (buf : List Bool) :
    (clicks.foldl (·.modify · not) buf).length = buf.length := by
  induction clicks generalizing buf with
  | nil => rfl
  | cons i clicks ih => rw [List.foldl_cons, ih, List.length_modify]

theorem boxes_draw (w : Window) (clicks : List Nat) :
    (w.draw clicks).boxes =
      if w.consoleOpen then clicks.foldl (·.modify · not) w.boxes else w.boxes := by
  have hnil : clicks.foldl (·.modify · not) ([] : List Bool) = [] :=
    List.length_eq_zero_iff.mp (clicks_length clicks [])
  rw [boxes, boxes, draw]
  cases w.consoleOpen with
  | false => rfl
  | true =>
    cases w.enabledBuf with
    | none => exact hnil.symm
    | some buf => rfl

theorem Fed.draw (hw : Fed w) (clicks : List Nat) : Sound (w.draw clicks) := by
  refine ⟨hw.order, hw.names, ?_, hw.boxes, hw.shadow, ?_⟩
  · rw [boxes_draw]
    split
    · exact (clicks_length clicks w.boxes).trans hw.boxes
    · exact hw.boxes
  · intro hshadow
    rw [boxes_draw]
    show w.boxes = _
    rcases hw.unseeded hshadow with hclosed | hnil
    · rw [hclosed]
      rfl
    · have hclicks : clicks.foldl (·.modify · not) ([] : List Bool) = [] :=
        List.length_eq_zero_iff.mp (clicks_length clicks [])
      rw [hnil, hclicks, ite_self]

/-- The frames of a run seed as many boxes as there are. -/
def Seeds (w : Window) : Event → Prop
  | .frame _ _ _ => w.SeedsFit
  | _ => True

theorem Sound.step {e : Event} (hw : Sound w) (hseeds : w.Seeds e) (h : w.step e = some w') :
    Sound w' := by
  cases e with
  | frame acts found clicks =>
    obtain ⟨fed, hpump, rfl⟩ := Option.map_eq_some_iff.mp h
    exact (hw.pump hseeds hpump).draw clicks
  | change c =>
    obtain ⟨s, hs, rfl⟩ := Option.map_eq_some_iff.mp h
    exact { hw with order := Scripts.change_nodup hw.order hs }
  | toggle =>
    cases h
    exact { hw with }

theorem run_sound (hw : Transition.ReachUnder machine Seeds w) : Sound w := by
  apply hw.invariant (p := Sound)
  · exact ⟨List.nodup_nil, List.nodup_nil, rfl, rfl, nofun, fun _ => rfl⟩
  · exact fun w e w' hw hseeds hstep => hw.step hseeds hstep

theorem changes_nodup (hw : Sound w) : (w.changes.map Prod.fst).Nodup :=
  hw.names.sublist (changed_sublist _ _ _)

/-- In every run in which no click meets a new list, a pump calls `enable` once for every
change of a box since the last pump and for nothing else, and leaves boxes that show the
flags; in every run whose seeds fit, it does the first exactly then. -/
theorem checkboxes_exact {w w' : Window} {acts : List Act} {found : Bytes → Found}
    (hopen : w.consoleOpen = true) (hpump : w.pump acts found = some w') :
    (Transition.ReachUnder machine Meets w → w.Meets (.frame acts found []) →
      (w.changes.map Prod.fst).Nodup ∧ w'.calls = w.changes ∧
      (∃ m, acts.foldlM act w.pushList.seed = some m ∧
        w'.scripts = w.changes.foldl (fun s c => s.enable c.1 c.2 (found c.1)) m.scripts) ∧
      w'.boxes = w'.scriptNames.map w'.scripts.engine.isEnabled) ∧
    (Transition.ReachUnder machine Seeds w → w.SeedsFit →
      (w'.calls = w.changes ↔ (w.Pushes → w.changes = [])) ∧
      w'.boxes = w'.scriptNames.map w'.scripts.engine.isEnabled) := by
  constructor
  · intro hw hmeets
    have hsound : Sound w := by
      apply run_sound
      apply hw.mono
      intro w e he
      cases e with
      | frame acts found clicks => exact he.1
      | change c => trivial
      | toggle => trivial
    have hdue : w.due = w.changes := by
      rw [due]
      split
      · rename_i hpushes
        exact (hmeets.2 hopen hpushes).symm
      · rfl
    obtain ⟨_, hcalls, hscripts, hboxes⟩ := hsound.pump_open hmeets.1 hopen hpump
    rw [hdue] at hcalls hscripts
    exact ⟨changes_nodup hsound, hcalls, hscripts, hboxes⟩
  · intro hw hfit
    obtain ⟨_, hcalls, _, hboxes⟩ := (run_sound hw).pump_open hfit hopen hpump
    refine ⟨?_, hboxes⟩
    rw [hcalls, due]
    by_cases hpushes : w.Pushes
    · rw [if_pos hpushes]
      exact ⟨fun h _ => h.symm, fun h => (h hpushes).symm⟩
    · rw [if_neg hpushes]
      exact ⟨fun _ h => (hpushes h).elim, fun _ => rfl⟩

/-- `a.lua`. -/
def sampleName : Bytes := [0x61, 0x2E, 0x6C, 0x75, 0x61]

/-- A file that loads, under a label. -/
def sampleFound (label : Bytes) : Found where
  file := { chunk := some (.ret .nothing) }
  header := { label := label }

/-- An enabled script, the console opened, and the box of the script unticked in a draw. -/
def sampleRun : List Event :=
  [.change (.loadAll [sampleName] fun _ => { label := [0x41] }),
    .change (.enable sampleName true (sampleFound [0x41])), .toggle,
    .frame [] (fun _ => sampleFound [0x41]) [0]]

theorem checkboxes_exact_unticked :
    ∃ w w' : Window, w.pump [] (fun _ => sampleFound [0x41]) = some w' ∧
      w'.calls = [(sampleName, false)] ∧
      w'.boxes = w'.scriptNames.map w'.scripts.engine.isEnabled := by
  obtain ⟨w, hrun, hopen, hchanges, hmeets, hpump⟩ := Transition.exists_of_execUnder
    (m := machine) (c := Meets)
    (p := fun w => w.consoleOpen = true ∧ w.changes = [(sampleName, false)] ∧
      w.Meets (.frame [] (fun _ => sampleFound [0x41]) []) ∧
      (w.pump [] fun _ => sampleFound [0x41]).isSome = true) sampleRun (by decide)
  obtain ⟨w', hw'⟩ := Option.isSome_iff_exists.mp hpump
  obtain ⟨_, hcalls, _, hboxes⟩ := (checkboxes_exact hopen hw').1 hrun hmeets
  exact ⟨w, w', hw', hcalls.trans hchanges, hboxes⟩

/-- The label of the script changes before the next pump: the click is gone. -/
theorem click_lost :
    ∃ w w' : Window, Transition.Reach machine w ∧ w.consoleOpen = true ∧
      w.pump [] (fun _ => sampleFound [0x42]) = some w' ∧
      w.changes = [(sampleName, false)] ∧ w'.calls = [] := by
  obtain ⟨w, hrun, hopen, hchanges, hcalls⟩ := Transition.exists_of_execUnder
    (m := machine) (c := fun _ _ => True)
    (p := fun w => w.consoleOpen = true ∧ w.changes = [(sampleName, false)] ∧
      (w.pump [] fun _ => sampleFound [0x42]).map Window.calls = some [])
    (sampleRun ++ [.change (.reload sampleName (sampleFound [0x42]))]) (by decide)
  obtain ⟨w', hw', hnone⟩ := Option.map_eq_some_iff.mp hcalls
  exact ⟨w, w', hrun, hopen, hw', hchanges, hnone⟩

end Window

end Xcom.Script.Checkboxes
