import Xcom.Script.ConsoleEvents
import Mathlib.Data.List.TakeDrop

/-!
# Saves of the editor over a run

The text goes back through a buffer of its own size; what is written is compared with what
the editor holds.
-/

namespace Xcom.Script.Console

open Delimited

/-! ## The way back -/

/-- What comes back: as much of the string as the buffer holds. -/
theorem copyOut_eq (capacity : Nat) (bytes : Bytes) :
    copyOut capacity bytes = (before 0 bytes).take (capacity - 1) := by
  unfold copyOut
  dsimp only
  rw [before_append_stop]
  split
  · rename_i hlt
    have hle : (before 0 bytes).length ≤ bytes.length := length_before_le bytes
    rw [List.take_length, List.take_of_length_le]
    omega
  · exact before_take _ _

theorem copyOut_eq_self_iff (capacity : Nat) (hcap : 0 < capacity) (bytes : Bytes) :
    copyOut capacity bytes = before 0 bytes ↔ (before 0 bytes).length < capacity := by
  rw [copyOut_eq, List.take_eq_self_iff]
  omega

/-- The path and the text fit into the buffers they go back through. -/
def Editor.Fits (e : Editor) : Prop :=
  e.path.length < pathCapacity ∧ e.text.length < textCapacity

instance (e : Editor) : Decidable e.Fits := inferInstanceAs (Decidable (_ ∧ _))

/-- The path of an editor is a C string. -/
def Editor.Plain (e : Editor) : Prop := 0 ∉ e.path

theorem Editor.Plain.taken_iff {e : Editor} (h : e.Plain) :
    e.taken = (e.path, e.text) ↔ e.Fits := by
  have hpath := copyOut_eq_self_iff pathCapacity (by decide) e.path
  rw [before_of_not_mem h] at hpath
  have htext := copyOut_eq_self_iff textCapacity (by decide) e.buf
  rw [Editor.taken, Prod.mk.injEq, hpath]
  exact and_congr_right fun _ => htext

/-- A loaded text without a NUL is the text that is held. -/
theorem Editor.load_text (e : Editor) (path : Bytes) {text : Bytes} (h : 0 ∉ text) :
    (e.load path text).text = text := by
  have hlast : text.getLast? ≠ some 0 := fun heq => h (List.mem_of_getLast? heq)
  show before 0 (if text.getLast? = some 0 then text else text ++ [0]) = text
  rw [if_neg hlast]
  exact before_mark h []

theorem Editor.edit_text (e : Editor) (text : Bytes) : (e.edit text).text = before 0 text :=
  before_mark (not_mem_before text) _

/-! ## The pump -/

variable {canWrite : Bytes → Bool} {s : State}

theorem handle_plain (h : s.editor.Plain) (t : Taken) : (s.handle t).editor.Plain := by
  unfold State.handle
  split
  · exact h
  · split
    · split
      · exact h
      · dsimp only
        split
        · exact h
        · exact not_mem_before _
    · split <;> exact h

theorem takeEvents_plain (h : s.editor.Plain) : s.takeEvents.editor.Plain := by
  have hfold : ∀ (qs : List Queued) (t : State), t.editor.Plain →
      (qs.foldl (fun s q => s.handle (.ofPacked q.packed)) t).editor.Plain := by
    intro qs
    induction qs with
    | nil => exact fun t ht => ht
    | cons q qs ih => exact fun t ht => ih _ (handle_plain ht _)
  exact hfold _ _ h

/-- A save writes what came back, where it came back to. -/
theorem saveEditor_some (canWrite : Bytes → Bool) {q : Queued} {rest : List Queued}
    (h : takeSave s.queue = some (q, rest)) :
    (s.saveEditor canWrite).files = (if canWrite s.editor.taken.1 then
        s.setFile s.editor.taken.1 (some s.editor.taken.2) else s).files ∧
      (s.saveEditor canWrite).writes = s.writes ++
        [⟨s.editor.taken.1, s.editor.taken.2, s.editor.path, s.editor.text⟩] ∧
      (s.saveEditor canWrite).queue = rest ∧
      (s.saveEditor canWrite).editor.path = s.editor.path := by
  unfold State.saveEditor
  rw [h]
  dsimp only
  split
  · exact ⟨rfl, rfl, rfl, rfl⟩
  · exact ⟨rfl, rfl, rfl, rfl⟩

theorem setFile_self (s : State) (path : Bytes) (content : Option Bytes) :
    (s.setFile path content).files path = content := if_pos rfl

theorem saveEditor_none (h : takeSave s.queue = none) : s.saveEditor canWrite = s := by
  rw [State.saveEditor, h]

/-! ## Runs -/

/-- A pump that saves finds that the editor fits. -/
def SavesFit (s : State) (l : Label) : Prop :=
  l = .pump → takeSave s.queue ≠ none → s.editor.Fits

/-- The path is a C string, and what was written is what the editor held. -/
structure SavesInv (s : State) : Prop where
  plain : s.editor.Plain
  writes : ∀ w ∈ s.writes, w.path = w.loaded ∧ w.text = w.held

theorem plain_step (h : s.editor.Plain) (l : Label) :
    (Console.step canWrite s l).editor.Plain := by
  cases l with
  | raise e => exact h
  | edit text =>
    simp only [Console.step]
    split
    · exact h
    · exact h
  | pump =>
    apply takeEvents_plain
    cases hsave : takeSave s.queue with
    | none =>
      rw [saveEditor_none hsave]
      exact h
    | some found =>
      obtain ⟨-, -, -, hpath⟩ := saveEditor_some canWrite hsave
      show 0 ∉ _
      rw [hpath]
      exact h
  | rescan scripts => exact h
  | change path content => exact h

theorem SavesInv.step (h : SavesInv s) {l : Label} (hl : SavesFit s l) :
    SavesInv (Console.step canWrite s l) := by
  refine ⟨plain_step h.plain l, ?_⟩
  cases l with
  | raise e => exact h.writes
  | edit text =>
    simp only [Console.step]
    split
    · exact h.writes
    · exact h.writes
  | pump =>
    show ∀ w ∈ (s.saveEditor canWrite).takeEvents.writes, _
    rw [(takeEvents_frame _).2.2.2]
    cases hsave : takeSave s.queue with
    | none =>
      rw [saveEditor_none hsave]
      exact h.writes
    | some found =>
      have hfits : s.editor.Fits := hl rfl (by rw [hsave]; exact Option.some_ne_none _)
      have htaken := h.plain.taken_iff.mpr hfits
      obtain ⟨-, hwrites, -, -⟩ := saveEditor_some canWrite hsave
      rw [hwrites, htaken]
      intro w hw
      rcases List.mem_append.mp hw with hw | hw
      · exact h.writes w hw
      · rw [List.mem_singleton.mp hw]
        exact ⟨rfl, rfl⟩
  | rescan scripts => exact h.writes
  | change path content => exact h.writes

theorem savesInv_reach (h : Transition.ReachUnder (machine canWrite) SavesFit s) :
    SavesInv s := by
  apply h.invariant
  · constructor
    · exact List.not_mem_nil
    · intro w hw
      cases hw
  · intro s l s' hs hl hstep
    cases hstep
    exact hs.step hl

/-! ## A script selected and saved -/

/-- What a selection finds: nothing is queued, the index fits, and the script has a file
without NUL bytes. -/
structure Selectable (s : State) (i : Nat) (path content : Bytes) : Prop where
  quiet : s.queue = []
  fits : (Raised.select i).Fits
  listed : ∃ name, s.scripts[i]? = some ⟨name, path⟩
  file : s.files path = some content
  path_plain : 0 ∉ path
  content_plain : 0 ∉ content

/-- A selection pumped: the editor holds the file. -/
def State.selected (canWrite : Bytes → Bool) (s : State) (i : Nat) : State :=
  step canWrite (step canWrite s (.raise (.select i))) .pump

/-- A save pumped. -/
def State.savedOnce (canWrite : Bytes → Bool) (s : State) : State :=
  step canWrite (step canWrite s (.raise .save)) .pump

theorem selected_spec (canWrite : Bytes → Bool) {i : Nat} {path content : Bytes}
    (h : Selectable s i path content) :
    (s.selected canWrite i).editor = { s.editor with index := some i }.load path content ∧
      (s.selected canWrite i).files = s.files ∧ (s.selected canWrite i).queue = [] := by
  obtain ⟨name, hlisted⟩ := h.listed
  have hagrees := (agrees_iff (.select i)).mpr h.fits
  have hnosave : isSave (Raised.select i).pack = false := by
    rw [Bool.eq_false_iff]
    intro hsave
    cases (isSave_iff h.fits).mp hsave
  have htype : (Taken.ofPacked (Raised.select i).pack).type = 1 := hagrees.type
  have hindex : (Taken.ofPacked (Raised.select i).pack).index = i := hagrees.index i rfl
  have hflag : (Taken.ofPacked (Raised.select i).pack).flag = false := by
    rw [Bool.eq_false_iff]
    intro hflag
    cases hagrees.flag.mp hflag
  have hkept : (step canWrite s (.raise (.select i))).saveEditor canWrite =
      step canWrite s (.raise (.select i)) := by
    apply saveEditor_none
    simp [step, h.quiet, takeSave, hnosave]
  have hhandled : ∀ t : State, t.scripts = s.scripts → t.files = s.files →
      t.editor = s.editor → (t.handle (.ofPacked (Raised.select i).pack)).editor =
        { s.editor with index := some i }.load path content := by
    intro t hscripts hfiles heditor
    simp [State.handle, hindex, hscripts, hlisted, htype, hflag, hfiles, h.file, heditor]
  obtain ⟨hqueue, -, hfiles, -⟩ := takeEvents_frame (step canWrite s (.raise (.select i)))
  have hpumped : s.selected canWrite i = (step canWrite s (.raise (.select i))).takeEvents := by
    show ((step canWrite s (.raise (.select i))).saveEditor canWrite).takeEvents = _
    rw [hkept]
  rw [hpumped]
  refine ⟨?_, hfiles, ?_⟩
  · simp only [State.takeEvents, step, h.quiet, List.nil_append, eventCapacity,
      List.take_succ_cons, List.take_nil, List.foldl_cons, List.foldl_nil]
    exact hhandled _ rfl rfl rfl
  · rw [hqueue]
    simp [step, h.quiet, eventCapacity]

theorem savedOnce_files (h : s.queue = []) :
    (s.savedOnce canWrite).files = (if canWrite s.editor.taken.1 then
      s.setFile s.editor.taken.1 (some s.editor.taken.2) else s).files := by
  have hsave : takeSave (step canWrite s (.raise .save)).queue =
      some (⟨.save, Raised.save.pack⟩, []) := by
    simp only [step, h, List.nil_append, takeSave]
    rfl
  show ((step canWrite s (.raise .save)).saveEditor canWrite).takeEvents.files = _
  rw [(takeEvents_frame _).2.2.1, (saveEditor_some canWrite hsave).1]
  show (if canWrite s.editor.taken.1 then _ else step canWrite s (.raise .save)).files = _
  split
  · rfl
  · rfl

/-- A script selected and saved unedited: as much of its file as comes back is written. -/
theorem select_save_files {i : Nat} {path content : Bytes}
    (h : Selectable s i path content) :
    ((s.selected canWrite i).savedOnce canWrite).files =
      if canWrite (path.take (pathCapacity - 1)) then
        (s.setFile (path.take (pathCapacity - 1))
          (some (content.take (textCapacity - 1)))).files
      else s.files := by
  obtain ⟨heditor, hfiles, hqueue⟩ := selected_spec canWrite h
  have hpath : (s.selected canWrite i).editor.taken.1 = path.take (pathCapacity - 1) := by
    show copyOut pathCapacity (s.selected canWrite i).editor.path = _
    rw [copyOut_eq, heditor]
    show (before 0 (before 0 path)).take _ = _
    rw [before_of_not_mem (not_mem_before path), before_of_not_mem h.path_plain]
  have htext : (s.selected canWrite i).editor.taken.2 = content.take (textCapacity - 1) := by
    show copyOut textCapacity (s.selected canWrite i).editor.buf = _
    rw [copyOut_eq, heditor]
    exact congrArg (List.take _) (Editor.load_text _ path h.content_plain)
  rw [savedOnce_files hqueue, hpath, htext]
  split
  · simp only [State.setFile, hfiles]
  · exact hfiles

/-- What comes back from an editor is what it holds exactly where path and text fit.  In a
run whose saves all find that they do, every save writes to the loaded file what the editor
holds; and a script of a size that fits, selected and saved unedited, has the file it had. -/
theorem editor_save_exact (canWrite : Bytes → Bool) (s : State) :
    (Transition.Reach (machine canWrite) s →
      (s.editor.taken = (s.editor.path, s.editor.text) ↔ s.editor.Fits)) ∧
    (Transition.ReachUnder (machine canWrite) SavesFit s →
      (∀ w ∈ s.writes, w.path = w.loaded ∧ w.text = w.held) ∧
      ∀ q rest, takeSave s.queue = some (q, rest) → SavesFit s .pump →
        canWrite s.editor.path = true →
        (s.pump canWrite).files = (s.setFile s.editor.path (some s.editor.text)).files) ∧
    ∀ i path content, Selectable s i path content → path.length < pathCapacity →
      content.length < textCapacity →
      ((s.selected canWrite i).savedOnce canWrite).files = s.files := by
  have hplain : Transition.Reach (machine canWrite) s → s.editor.Plain := by
    intro h
    apply h.invariant List.not_mem_nil
    intro s l s' hs _ hstep
    cases hstep
    exact plain_step hs l
  refine ⟨fun h => (hplain h).taken_iff, ?_, ?_⟩
  · intro h
    refine ⟨(savesInv_reach h).writes, ?_⟩
    intro q rest hsave hfits hopen
    have htaken := (hplain h.reach).taken_iff.mpr (hfits rfl (by simp [hsave]))
    show (s.saveEditor canWrite).takeEvents.files = _
    rw [(takeEvents_frame _).2.2.1, (saveEditor_some canWrite hsave).1, htaken]
    exact congrArg State.files (if_pos hopen)
  · intro i path content h hpath hcontent
    rw [select_save_files h, List.take_of_length_le (by omega), List.take_of_length_le (by omega)]
    split
    · funext p
      show (if p = path then some content else s.files p) = s.files p
      split
      · rename_i heq
        rw [heq, h.file]
      · rfl
    · rfl

/-- A console with a script of one line. -/
def shortScript : State :=
  step (fun _ => true) (step (fun _ => true) {} (.rescan [⟨[0x41], [0x2F, 0x41]⟩]))
    (.change [0x2F, 0x41] (some [0x78, 0x0A]))

/-- That script is selected, edited and saved, and selected and saved as it is. -/
theorem editor_save_exact_short :
    ((step (fun _ => true) (step (fun _ => true) (shortScript.selected (fun _ => true) 0)
      (.edit [0x79])) (.raise .save)).pump fun _ => true).files [0x2F, 0x41] = some [0x79] ∧
    ((shortScript.selected (fun _ => true) 0).savedOnce (fun _ => true)).files =
      shortScript.files := by
  have hshort : Transition.ReachUnder (machine fun _ => true) SavesFit shortScript :=
    .step (.step .init (fun h => by cases h) rfl) (fun h => by cases h) rfl
  constructor
  · have hselected : Transition.ReachUnder (machine fun _ => true) SavesFit
        (shortScript.selected (fun _ => true) 0) :=
      .step (.step hshort (fun h => by cases h) rfl) (fun _ h => absurd (by decide) h) rfl
    have hraised : Transition.ReachUnder (machine fun _ => true) SavesFit
        (step (fun _ => true) (step (fun _ => true) (shortScript.selected (fun _ => true) 0)
          (.edit [0x79])) (.raise .save)) :=
      .step (.step hselected (fun h => by cases h) rfl) (fun h => by cases h) rfl
    rw [((editor_save_exact _ _).2.1 hraised).2 _ _ rfl (fun _ _ => by decide) rfl]
    exact setFile_self _ _ _
  · have hselectable : Selectable shortScript 0 [0x2F, 0x41] [0x78, 0x0A] := by
      refine ⟨rfl, ?_, ⟨[0x41], rfl⟩, setFile_self _ _ _, by decide, by decide⟩
      intro i hi
      cases hi
      decide
    exact (editor_save_exact _ shortScript).2.2 0 _ _ hselectable (by decide) (by decide)

/-- A file longer than the buffer. -/
def longFile : Bytes := List.replicate textCapacity 0x61

/-- A console with that script. -/
def longScript : State :=
  step (fun _ => true) (step (fun _ => true) {} (.rescan [⟨[0x41], [0x2F, 0x41]⟩]))
    (.change [0x2F, 0x41] (some longFile))

/-- Selecting a script and saving it unedited cuts the end of its file off. -/
theorem long_file_cut :
    Transition.Reach (machine fun _ => true) longScript ∧
    longScript.files [0x2F, 0x41] = some longFile ∧
    ((longScript.selected (fun _ => true) 0).savedOnce (fun _ => true)).files [0x2F, 0x41] ≠
      some longFile := by
  have hplain : (0 : UInt8) ∉ longFile := by
    intro hmem
    have heq := List.eq_of_mem_replicate hmem
    exact absurd heq (by decide)
  have hfile : longScript.files [0x2F, 0x41] = some longFile := setFile_self _ _ _
  have hselectable : Selectable longScript 0 [0x2F, 0x41] longFile := by
    refine ⟨rfl, ?_, ⟨[0x41], rfl⟩, hfile, by decide, hplain⟩
    intro i hi
    cases hi
    decide
  refine ⟨.step (.step .init trivial rfl) trivial rfl, hfile, ?_⟩
  rw [select_save_files hselectable, if_pos rfl]
  intro heq
  have hcut : longFile.take (textCapacity - 1) = longFile :=
    Option.some.inj ((setFile_self longScript _ _).symm.trans heq)
  have hlen := congrArg List.length hcut
  rw [List.length_take, longFile, List.length_replicate] at hlen
  exact absurd hlen (by decide)

end Xcom.Script.Console
