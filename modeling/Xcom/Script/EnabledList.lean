import Xcom.Pages.Preserved
import Xcom.Script.EnabledFlags
import Xcom.Script.HotReload
import Xcom.Text.Fields

/-!
# The enabled scripts over a restart

The names of the enabled scripts are saved as one text with commas between them, and the next
start splits that text at commas and at blanks.  So a script comes back enabled as long as its
name has neither.
-/

namespace Xcom.Script.EnabledList

open Config (Bytes Value Data Numbers Readable)
open Pages (LuaNumbers bytes Settings SettingKey Bridge applyWrites settingWrites saveWrites
  DoneSave loadConfig)
open Fields

variable {N : Type}

/-! ## Saving -/

/-- `enabled_list`. -/
def enabledList (s : Engine.State) : List Bytes := s.order.filter s.isEnabled

/-- `table.concat(names, ",")`. -/
def joinNames (names : List Bytes) : Bytes := [(0x2C : UInt8)].intercalate names

/-- `[script] enabled`. -/
def enabledKey : SettingKey := .fixed ⟨25, by decide⟩

/-- What a save writes besides: the settings around `enabled`, of which none has its key, and
the pages. -/
structure SaveContext (N : Type) where
  settings : Settings N
  later : List (SettingKey × Option (Value N))
  bridge : Bridge N
  others : ∀ setting ∈ settings.before ++ later ++ settings.between ++ settings.after,
    setting.1.place ≠ enabledKey.place

/-- The configuration of a save: `[script] enabled` among the others. -/
def saveEnabled (numbers : Numbers N) (c : SaveContext N) (data : Data N) (s : Engine.State) :
    Data N :=
  let value := some (.string (joinNames (enabledList s)))
  applyWrites data (saveWrites numbers
    { c.settings with before := c.settings.before ++ (enabledKey, value) :: c.later } c.bridge)

/-! ## The start -/

/-- `[^,%s]+` stops here. -/
def isSeparator (c : UInt8) : Bool := c == 0x2C || Config.isSpace c

/-- `tostring` of a value. -/
def toText (numbers : Numbers N) : Value N → Bytes
  | .boolean on => if on then bytes "true" else bytes "false"
  | .number n => numbers.tostring n
  | .string s => s

/-- `cfg.script_enabled`. -/
def scriptEnabled (numbers : Numbers N) (data : Data N) : List Bytes :=
  let raw := (Config.get data enabledKey.place.1 enabledKey.place.2).getD (.string [])
  runs isSeparator (toText numbers raw)

/-- What `load_all` finds in a directory. -/
def scanned (dir : List Bytes) : List Bytes :=
  (dir.filter HotReload.isLua).insertionSort (· ≤ ·)

/-- `Window:start`: `load_all`, and `enable` for each name of the configuration. -/
def startScripts (dir : List Bytes) (files : Bytes → Engine.File) (names : List Bytes) :
    Engine.State :=
  names.foldl (fun s name => Engine.enable name (files name) s) (Engine.loadAll (scanned dir) {})

/-- The scripts behind the start with a configuration file. -/
def restarted (numbers : LuaNumbers N) (dir : List Bytes) (files : Bytes → Engine.File)
    (file : Option Bytes) : Engine.State :=
  startScripts dir files
    (scriptEnabled numbers.toNumbers (loadConfig numbers.toNumbers file))

/-- The file behind a done save of the scripts of `s`. -/
def savedFile (numbers : LuaNumbers N) (c : SaveContext N) (o : DoneSave) (disk : Config.Disk)
    (data : Data N) (s : Engine.State) : Option Bytes :=
  (Config.save numbers.toNumbers o.1 disk (saveEnabled numbers.toNumbers c data s)).2.path

/-! ## The names -/

theorem enabledKey_place : enabledKey.place = (bytes "script", bytes "enabled") := rfl

theorem get_saveEnabled (numbers : Numbers N) (c : SaveContext N) (data : Data N)
    (s : Engine.State) :
    Config.get (saveEnabled numbers c data s) enabledKey.place.1 enabledKey.place.2 =
      some (.string (joinNames (enabledList s))) := by
  have hmultipage : enabledKey.place.1 ≠ bytes "multipage" := by decide
  exact Pages.get_saved_setting numbers c.settings c.bridge data hmultipage _ c.later c.others

/-- The next start splits the text that was saved. -/
theorem scriptEnabled_saved {numbers : LuaNumbers N} (hlaw : numbers.Lawful) (c : SaveContext N)
    (o : DoneSave) (disk : Config.Disk) {data : Data N}
    (hdata : Readable numbers.toNumbers data) (s : Engine.State) :
    scriptEnabled numbers.toNumbers
      (loadConfig numbers.toNumbers (savedFile numbers c o disk data s)) =
        runs isSeparator (joinNames (enabledList s)) := by
  have hreadable : Readable numbers.toNumbers (saveEnabled numbers.toNumbers c data s) :=
    Pages.Readable.applyWrites hlaw.plain (Pages.saveWrites_wellFormed numbers.toNumbers _ _) hdata
  have hget := Pages.get_reloaded hlaw hreadable
    (get_saveEnabled numbers.toNumbers c data s) trivial
  rw [savedFile, DoneSave.path, scriptEnabled, hget]
  rfl

/-! ## The flags -/

variable {files : Bytes → Engine.File} {s : Engine.State}

theorem isSome_flag_enable (name n : Bytes) (file : Engine.File) (s : Engine.State) :
    ((Engine.enable name file s).flag n).isSome = (s.flag n).isSome := by
  rw [Engine.flag_enable, Engine.setFlag]
  split
  · exact Option.isSome_map
  · rfl

/-- A script whose name is not read keeps its flag. -/
theorem flag_foldl_of_not_mem {names : List Bytes} {n : Bytes} (h : n ∉ names)
    (s : Engine.State) :
    (names.foldl (fun s name => Engine.enable name (files name) s) s).flag n = s.flag n := by
  induction names generalizing s with
  | nil => rfl
  | cons name names ih =>
    obtain ⟨hne, hrest⟩ := not_or.mp (List.mem_cons.not.mp h)
    rw [List.foldl_cons, ih hrest, Engine.flag_enable, Engine.setFlag_of_ne hne]

/-- A script whose name is read is enabled, where it loads. -/
theorem flag_foldl_of_mem {names : List Bytes} {n : Bytes} (h : n ∈ names)
    (hload : HotReload.Loads (files n).chunk) {s : Engine.State}
    (hknown : (s.flag n).isSome = true) :
    (names.foldl (fun s name => Engine.enable name (files name) s) s).flag n = some true := by
  induction names generalizing s with
  | nil => cases h
  | cons name names ih =>
    have hknown' : ((Engine.enable name (files name) s).flag n).isSome = true := by
      rw [isSome_flag_enable]
      exact hknown
    rw [List.foldl_cons]
    by_cases hlater : n ∈ names
    · exact ih hlater hknown'
    · obtain rfl : n = name := (List.mem_cons.mp h).resolve_right hlater
      obtain ⟨chunk, hchunk, hruns⟩ := hload
      have hscript : (s.scripts n).isSome = true := by
        rw [← Engine.flag_isSome]
        exact hknown
      have hok := Engine.loadScript_succeeds hscript hchunk hruns
      rw [flag_foldl_of_not_mem hlater, Engine.flag_enable, Engine.setFlag_self, hok]
      obtain ⟨on, hon⟩ := Option.isSome_iff_exists.mp hknown
      rw [hon]
      rfl

theorem flag_scan (dir : List Bytes) (n : Bytes) :
    (Engine.loadAll (scanned dir) {}).flag n =
      if n ∈ scanned dir then some false else none := by
  show Option.map _ (if (scanned dir).contains n then _ else _) = _
  by_cases hmem : n ∈ scanned dir
  · rw [if_pos (List.contains_iff_mem.mpr hmem), if_pos hmem]
    rfl
  · rw [if_neg (fun hin => hmem (List.contains_iff_mem.mp hin)), if_neg hmem]
    rfl

theorem not_enabled_of_not_mem {names : List Bytes} {n : Bytes} (h : n ∉ names)
    (dir : List Bytes) : (startScripts dir files names).isEnabled n = false := by
  rw [Engine.isEnabled_eq, startScripts, flag_foldl_of_not_mem h, flag_scan]
  split <;> rfl

theorem enabled_of_mem {names dir : List Bytes} {n : Bytes} (h : n ∈ names)
    (hload : HotReload.Loads (files n).chunk) (hdir : n ∈ scanned dir) :
    (startScripts dir files names).isEnabled n = true := by
  have hknown : ((Engine.loadAll (scanned dir) {}).flag n).isSome = true := by
    rw [flag_scan, if_pos hdir]
    rfl
  rw [Engine.isEnabled_eq, startScripts, flag_foldl_of_mem h hload hknown]
  rfl

/-! ## Save and restart -/

/-- The start enables the scripts that were enabled, and no other. -/
def Restores (s t : Engine.State) : Prop := ∀ n, t.isEnabled n = true ↔ n ∈ enabledList s

theorem ne_nil_of_isLua {name : Bytes} (h : HotReload.isLua name = true) : name ≠ [] := by
  rintro rfl
  exact absurd h (by decide)

theorem mem_scanned {dir : List Bytes} {n : Bytes} (h : n ∈ scanned dir) :
    HotReload.isLua n = true :=
  (List.mem_filter.mp ((List.mem_insertionSort _).mp h)).2

/-- A done save and the start after it bring back exactly the enabled scripts just where no
name of them holds a comma or a blank. -/
theorem enabled_restored_iff {numbers : LuaNumbers N} (hlaw : numbers.Lawful)
    (c : SaveContext N) (o : DoneSave) (disk : Config.Disk) {data : Data N}
    (hdata : Readable numbers.toNumbers data) {dir : List Bytes} (hscan : s.order = scanned dir)
    (hload : ∀ n ∈ enabledList s, HotReload.Loads (files n).chunk) :
    Restores s (restarted numbers dir files (savedFile numbers c o disk data s)) ↔
      ∀ n ∈ enabledList s, ∀ b ∈ n, isSeparator b = false := by
  unfold restarted
  rw [scriptEnabled_saved hlaw c o disk hdata]
  have hmem : ∀ n ∈ enabledList s, n ∈ scanned dir := by
    intro n hn
    rw [← hscan]
    exact (List.mem_filter.mp hn).1
  constructor
  · intro hrestores n hn
    have henabled := (hrestores n).mpr hn
    -- A name that is enabled has been read, and what is read holds no separator.
    by_contra hclean
    have hnot : n ∉ runs isSeparator (joinNames (enabledList s)) :=
      fun hread => hclean (clean_of_mem_runs hread)
    rw [not_enabled_of_not_mem hnot] at henabled
    cases henabled
  · intro hclean
    have hread : runs isSeparator (joinNames (enabledList s)) = enabledList s :=
      runs_intercalate (by decide) hclean
        fun n hn => ne_nil_of_isLua (mem_scanned (hmem n hn))
    rw [hread]
    intro n
    constructor
    · intro henabled
      by_contra hnot
      rw [not_enabled_of_not_mem hnot] at henabled
      cases henabled
    · intro hn
      exact enabled_of_mem hn (hload n hn) (hmem n hn)

/-! A directory with one script, which is enabled. -/

/-- `a.lua`. -/
def plainName : Bytes := [0x61, 0x2E, 0x6C, 0x75, 0x61]

/-- `a b.lua`. -/
def blankName : Bytes := [0x61, 0x20, 0x62, 0x2E, 0x6C, 0x75, 0x61]

def oneEnabled (name : Bytes) : Engine.State where
  scripts n := if n = name then some { enabled := true } else none
  order := [name]

/-- A script without statements. -/
def emptyScript : Engine.File := { chunk := some (.ret .nothing) }

theorem emptyScript_loads : HotReload.Loads emptyScript.chunk := ⟨_, rfl, fun _ _ => nofun⟩

/-- A save of no other settings. -/
def bareSave : SaveContext Int where
  settings := ⟨[], [], []⟩
  later := []
  bridge := Bridge.new
  others := nofun

def doneSave : DoneSave :=
  ⟨⟨true, true, true, 0, true, ⟨true, true⟩, true, ⟨true, true⟩⟩, by decide, by decide⟩

theorem plainName_clean : ∀ n ∈ enabledList (oneEnabled plainName), ∀ b ∈ n,
    isSeparator b = false := by
  have hone : enabledList (oneEnabled plainName) = [plainName] := by decide
  have hplain : plainName.all (fun b => !isSeparator b) = true := by decide
  intro n hn b hb
  rw [hone] at hn
  rw [List.mem_singleton.mp hn] at hb
  simpa using List.all_eq_true.mp hplain b hb

theorem enabled_restored_plain :
    Restores (oneEnabled plainName) (restarted Pages.integerLua [plainName] (fun _ => emptyScript)
      (savedFile Pages.integerLua bareSave doneSave ⟨none, none⟩
        (loadConfig Pages.integerLua.toNumbers none) (oneEnabled plainName))) :=
  (enabled_restored_iff Pages.integerLua_lawful bareSave doneSave ⟨none, none⟩
    (Pages.loadConfig_readable Pages.integerLua_lawful none) (by decide)
    fun _ _ => emptyScript_loads).mpr plainName_clean

/-- The scripts behind a save with `a b.lua` enabled and a restart. -/
def blankRestarted : Engine.State :=
  restarted Pages.integerLua [blankName] (fun _ => emptyScript)
    (savedFile Pages.integerLua bareSave doneSave ⟨none, none⟩
      (loadConfig Pages.integerLua.toNumbers none) (oneEnabled blankName))

/-- The start reads `a` and `b.lua`, so `a b.lua` is not enabled again. -/
theorem blank_name_lost :
    blankRestarted.isEnabled blankName = false ∧
      ¬ Restores (oneEnabled blankName) blankRestarted := by
  have hnot : blankName ∉ runs isSeparator (joinNames (enabledList (oneEnabled blankName))) := by
    decide
  have hlost : blankRestarted.isEnabled blankName = false := by
    rw [blankRestarted, restarted, scriptEnabled_saved Pages.integerLua_lawful bareSave doneSave
      ⟨none, none⟩ (Pages.loadConfig_readable Pages.integerLua_lawful none)]
    exact not_enabled_of_not_mem hnot [blankName]
  refine ⟨hlost, fun hrestores => ?_⟩
  have hagain := (hrestores blankName).mpr (by decide)
  rw [hlost] at hagain
  cases hagain

end Xcom.Script.EnabledList
