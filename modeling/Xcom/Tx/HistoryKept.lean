import Xcom.Tx.SendHistory

/-!
# The history over a run

A save writes the history behind everything else, and the next start finds it there.  So
commands, saves and restarts in any order lead to the most recent commands.
-/

namespace Xcom.Tx.SendHistory

open Config (Bytes Value Data Numbers Readable)
open Pages (LuaNumbers bytes Settings SettingKey Bridge Write applyWrites settingWrites
  saveWrites DoneSave loadConfig)
open Recency

variable {N : Type} {numbers : LuaNumbers N}

/-! ## The keys of the history -/

theorem history_ne_count (index : Nat) :
    (SettingKey.history index).place.2 ≠ countKey.place.2 := by
  have hprefix : bytes "history." ≠ bytes "history_" := by decide
  intro heq
  exact hprefix (congrArg (List.take 8) heq)

theorem history_inj {i j : Nat}
    (h : (SettingKey.history i).place.2 = (SettingKey.history j).place.2) : i = j :=
  Pages.decimalDigits_inj (List.append_cancel_left h)

/-- The history is written last. -/
theorem saveHistoryWrites_eq (numbers : Numbers N) (settings : Settings N) (b : Bridge N)
    (history : List Bytes) :
    saveHistoryWrites numbers settings b history =
      saveWrites numbers settings b ++ settingWrites (historySettings numbers history) := by
  simp [saveHistoryWrites, saveWrites, settingWrites]

theorem mem_historySettings {numbers : Numbers N} {history : List Bytes} {w : Write N} :
    w ∈ settingWrites (historySettings numbers history) ↔
      w = (countKey.place.1, countKey.place.2, some (.number (numbers.ofInt history.length))) ∨
      ∃ index text, history[index]? = some text ∧
        w = ((SettingKey.history index).place.1, (SettingKey.history index).place.2,
          some (.string text)) := by
  simp only [settingWrites, historySettings, List.map_cons, List.mem_cons, List.map_map,
    List.mem_map]
  constructor
  · rintro (rfl | ⟨e, he, rfl⟩)
    · exact .inl rfl
    · exact .inr ⟨e.2, e.1, List.mem_zipIdx_iff_getElem?.mp he, rfl⟩
  · rintro (rfl | ⟨index, text, htext, rfl⟩)
    · exact .inl rfl
    · exact .inr ⟨(text, index), List.mem_zipIdx_iff_getElem?.mpr htext, rfl⟩

section Saved

variable (settings : Settings N) (b : Bridge N) (history : List Bytes) (data : Data N)

/-- The configuration of a save. -/
def saved (numbers : Numbers N) : Data N :=
  applyWrites data (saveHistoryWrites numbers settings b history)

theorem get_saved {numbers : Numbers N} {w : Write N}
    (hw : w ∈ settingWrites (historySettings numbers history)) :
    Config.get (saved settings b history data numbers) w.1 w.2.1 = w.2.2 := by
  have hlast : saved settings b history data numbers =
      applyWrites (applyWrites data (saveWrites numbers settings b))
        (settingWrites (historySettings numbers history)) := by
    rw [saved, saveHistoryWrites_eq, applyWrites, List.foldl_append]
    rfl
  rw [hlast]
  apply Pages.get_applyWrites hw
  intro w' hw' _ hkey
  rcases mem_historySettings.mp hw with rfl | ⟨i, text, htext, rfl⟩
  · rcases mem_historySettings.mp hw' with rfl | ⟨j, text', -, rfl⟩
    · rfl
    · exact absurd hkey (history_ne_count j)
  · rcases mem_historySettings.mp hw' with rfl | ⟨j, text', htext', rfl⟩
    · exact absurd hkey.symm (history_ne_count i)
    · obtain rfl := history_inj hkey
      obtain rfl := Option.some.inj (htext'.symm.trans htext)
      rfl

theorem readable_saved (hlaw : numbers.Lawful) (hdata : Readable numbers.toNumbers data) :
    Readable numbers.toNumbers (saved settings b history data numbers.toNumbers) := by
  apply Pages.Readable.applyWrites hlaw.plain _ hdata
  exact Pages.saveWrites_wellFormed numbers.toNumbers
    { settings with after := settings.after ++ historySettings numbers.toNumbers history } b

/-- The entries of a list, one after the other. -/
theorem filterMap_range {α : Type} {f : Nat → Option α} {xs : List α}
    (h : ∀ i x, xs[i]? = some x → f i = some x) : (List.range xs.length).filterMap f = xs := by
  induction xs using List.reverseRecOn with
  | nil => rfl
  | append_singleton xs x ih =>
    have hfront : (List.range xs.length).filterMap f = xs := by
      apply ih
      intro i y hy
      have hlt : i < xs.length := (List.getElem?_eq_some_iff.mp hy).1
      exact h i y (by rw [List.getElem?_append_left hlt, hy])
    have hlast : f xs.length = some x := h xs.length x (by simp)
    rw [List.length_append, List.length_singleton, List.range_succ, List.filterMap_append, hfront]
    simp [hlast]

/-- The next start finds the history that was saved. -/
theorem loadHistory_saved (hlaw : numbers.Lawful) (hdata : Readable numbers.toNumbers data)
    (hkept : Kept history) :
    loadHistory numbers (loadConfig numbers.toNumbers (some (Config.serialize numbers.toNumbers
      (saved settings b history data numbers.toNumbers)))) = history := by
  have hreadable := readable_saved settings b history data hlaw hdata
  have hle : history.length ≤ 64 := hkept.length_le
  have hget : ∀ w ∈ settingWrites (historySettings numbers.toNumbers history), ∀ value,
      w.2.2 = some value → value.Writable numbers.toNumbers →
      Config.get (loadConfig numbers.toNumbers (some (Config.serialize numbers.toNumbers
        (saved settings b history data numbers.toNumbers)))) w.1 w.2.1 = some value := by
    intro w hw value hvalue hwritable
    apply Pages.get_reloaded hlaw hreadable _ hwritable
    rw [get_saved settings b history data hw, hvalue]
  have hcount := hget _ (mem_historySettings.mpr (.inl rfl)) _ rfl ⟨history.length, by omega, rfl⟩
  have hturns : storedCount numbers
      (some (.number (numbers.ofInt history.length))) = history.length := by
    rw [storedCount, hlaw.floor_int _ (by omega)]
    omega
  rw [loadHistory]
  simp only at hcount
  rw [hcount, hturns]
  apply filterMap_range
  intro index text htext
  have hentry := hget _ (mem_historySettings.mpr (.inr ⟨index, text, htext, rfl⟩)) _ rfl trivial
  have hne : text ≠ [] := by
    rintro rfl
    exact absurd (hkept.noBlank [] (List.mem_of_getElem? htext)) (by decide)
  simp only at hentry
  rw [hentry, storedEntry, if_neg hne]

end Saved

/-! ## One step -/

/-- The program has the most recent commands, has published them, and its configuration can
be written. -/
structure Program.Holds (numbers : LuaNumbers N) (former : List Bytes) (p : Program N) :
    Prop where
  history : p.sender.sendHistory = expected p.commands former
  published : p.sender.published.getLast? = some p.sender.sendHistory
  readable : Readable numbers.toNumbers p.data

theorem Program.Holds.kept {former : List Bytes} {p : Program N} (h : p.Holds numbers former) :
    Kept p.sender.sendHistory := by
  rw [h.history]
  exact kept_recents _

theorem start_holds (hlaw : numbers.Lawful) (disk : Config.Disk) {commands former : List Bytes}
    (h : sanitize (loadHistory numbers (loadConfig numbers.toNumbers disk.path)) none =
      expected commands former) :
    (Program.start numbers disk commands).Holds numbers former where
  history := h
  published := rfl
  readable := Pages.loadConfig_readable hlaw disk.path

theorem Program.Holds.remember {former : List Bytes} {p : Program N}
    (h : p.Holds numbers former) (text : Bytes) :
    (p.apply numbers (.send text)).Holds numbers former := by
  obtain ⟨hhistory, hpublished⟩ := remember_spec h.kept text
  refine ⟨?_, ?_, h.readable⟩
  · show (p.sender.remember text).sendHistory = expected (text :: p.commands) former
    rw [hhistory, h.history, push_expected]
  · show (p.sender.remember text).published.getLast? = some (p.sender.remember text).sendHistory
    rw [hpublished, hhistory]
    by_cases hsame : push p.sender.sendHistory text none = p.sender.sendHistory
    · rw [if_pos hsame, h.published, hsame]
    · rw [if_neg hsame, List.getLast?_concat]

theorem Program.Holds.save (hlaw : numbers.Lawful) {former : List Bytes} {p : Program N}
    (h : p.Holds numbers former) (settings : Settings N) (b : Bridge N)
    (o : Config.SaveOutcome) : (p.save numbers settings b o).Holds numbers former :=
  ⟨h.history, h.published, readable_saved settings b _ p.data hlaw h.readable⟩

/-- The start behind a done save has the same history. -/
theorem Program.Holds.reload (hlaw : numbers.Lawful) {former : List Bytes} {p : Program N}
    (h : p.Holds numbers former) (settings : Settings N) (b : Bridge N) (o : DoneSave) :
    sanitize (loadHistory numbers (loadConfig numbers.toNumbers
      (p.save numbers settings b o.1).disk.path)) none = p.sender.sendHistory := by
  have hpath : (p.save numbers settings b o.1).disk.path = some (Config.serialize
      numbers.toNumbers (saved settings b p.sender.sendHistory p.data numbers.toNumbers)) :=
    Pages.DoneSave.path o numbers.toNumbers p.disk _
  rw [hpath, loadHistory_saved settings b _ p.data hlaw h.readable h.kept, sanitize_kept h.kept]

theorem Program.Holds.apply (hlaw : numbers.Lawful) {former : List Bytes} {p : Program N}
    (h : p.Holds numbers former) (op : Op N) : (p.apply numbers op).Holds numbers former := by
  cases op with
  | send text => exact h.remember text
  | save settings b o => exact h.save hlaw settings b o
  | restart settings b o =>
    apply start_holds hlaw
    rw [h.reload hlaw settings b o, h.history]

/-! ## Runs -/

theorem Program.Holds.run (hlaw : numbers.Lawful) {former : List Bytes} {p : Program N}
    (h : p.Holds numbers former) (ops : List (Op N)) :
    (p.run numbers ops).Holds numbers former := by
  induction ops generalizing p with
  | nil => exact h
  | cons op ops ih => exact ih (h.apply hlaw op)

/-- The commands accepted in a run, the most recent first. -/
def accepted (ops : List (Op N)) : List Bytes :=
  (ops.filterMap fun op =>
    match op with
    | .send text => some text
    | _ => none).reverse

theorem run_commands (numbers : LuaNumbers N) (p : Program N) (ops : List (Op N)) :
    (p.run numbers ops).commands = accepted ops ++ p.commands := by
  induction ops generalizing p with
  | nil => rfl
  | cons op ops ih =>
    have hcons : accepted (op :: ops) ++ p.commands =
        accepted ops ++ (p.apply numbers op).commands := by
      cases op with
      | send text => simp [accepted, Program.apply]
      | save settings b o => rfl
      | restart settings b o => rfl
    rw [hcons, ← ih]
    rfl

/-- What the history is to do in a state of the program. -/
structure Remembers (numbers : LuaNumbers N) (former : List Bytes) (p : Program N) : Prop where
  /-- The most recent commands, each once. -/
  history : p.sender.sendHistory = expected p.commands former
  nodup : p.sender.sendHistory.Nodup
  /-- Any command that is not blank comes to the head. -/
  head : ∀ text, isBlank text = false → (p.sender.remember text).sendHistory.head? = some text
  published : p.sender.published.getLast? = some p.sender.sendHistory
  /-- The next command publishes exactly what changes. -/
  publishes : ∀ text, (p.sender.remember text).published =
    if expected (text :: p.commands) former = p.sender.sendHistory then p.sender.published
    else p.sender.published ++ [expected (text :: p.commands) former]
  sanitized : sanitize p.sender.sendHistory none = p.sender.sendHistory
  /-- A done save and the start after it keep the history. -/
  reloaded : ∀ settings b o,
    (p.apply numbers (.restart settings b o)).sender.sendHistory = p.sender.sendHistory

theorem Program.Holds.remembers (hlaw : numbers.Lawful) {former : List Bytes} {p : Program N}
    (h : p.Holds numbers former) : Remembers numbers former p where
  history := h.history
  nodup := h.kept.nodup
  head text hblank := by
    rw [(remember_spec h.kept text).1, push_command hblank]
    rfl
  published := h.published
  publishes text := by
    have hpush : push p.sender.sendHistory text none = expected (text :: p.commands) former := by
      rw [h.history, push_expected]
    rw [(remember_spec h.kept text).2, hpush]
  sanitized := sanitize_kept h.kept
  reloaded settings b o := h.reload hlaw settings b o

/-- From any configuration file and for any commands, saves and restarts, the history is the
most recent commands, with those of the file behind them. -/
theorem history_remembers (hlaw : numbers.Lawful) (disk : Config.Disk) (ops : List (Op N)) :
    Remembers numbers (loadHistory numbers (loadConfig numbers.toNumbers disk.path))
        ((Program.start numbers disk []).run numbers ops) ∧
      ((Program.start numbers disk []).run numbers ops).commands = accepted ops := by
  constructor
  · have hstart : (Program.start numbers disk []).Holds numbers
        (loadHistory numbers (loadConfig numbers.toNumbers disk.path)) :=
      start_holds hlaw disk (sanitize_eq _ none)
    exact (hstart.run hlaw ops).remembers hlaw
  · rw [run_commands]
    exact List.append_nil _

/-- Without a configuration file, `A`, `B`, a blank and `A` again leave `A` and `B`. -/
theorem history_remembers_again :
    ((Program.start Pages.integerLua ⟨none, none⟩ []).run Pages.integerLua
      [.send [0x41], .send [0x42], .send [0x20], .send [0x41]]).sender.sendHistory =
      [[0x41], [0x42]] := by
  have hlaw := history_remembers Pages.integerLua_lawful ⟨none, none⟩
    [.send [0x41], .send [0x42], .send [0x20], .send [0x41]]
  rw [hlaw.1.history, hlaw.2]
  decide

end Xcom.Tx.SendHistory
