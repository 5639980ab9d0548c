import Xcom.Pages.Preserved
import Xcom.Serial.BaudChoice

/-!
# The chosen baud rate over reloads

A save writes the rate that is used as `baud_rate`, and the next start reads `baud_custom`
beside it, which no save writes.  So the rate is the one chosen, and the one saved, as long
as no override is left over and the file has no other custom rate.
-/

namespace Xcom.Serial.BaudChoice

open Config (Value Data Numbers Readable)
open Pages (bytes Settings SettingKey Bridge applyWrites saveWrites DoneSave loadConfig)

variable {N : Type}

/-! ## The configuration -/

/-- `[serial] baud_rate`. -/
def baudKey : SettingKey := .fixed ⟨5, by decide⟩

/-- What a save writes besides: the settings around `baud_rate`, of which none has its key,
and the pages. -/
structure SaveContext (N : Type) where
  settings : Settings N
  later : List (SettingKey × Option (Value N))
  bridge : Bridge N
  others : ∀ setting ∈ settings.before ++ later ++ settings.between ++ settings.after,
    setting.1.place ≠ baudKey.place

/-- The configuration of a save of a rate. -/
def saveRate (numbers : Numbers N) (c : SaveContext N) (data : Data N) (rate : Int) : Data N :=
  applyWrites data (saveWrites numbers
    { c.settings with
      before := c.settings.before ++ (baudKey, some (.number (numbers.ofInt rate))) :: c.later }
    c.bridge)

/-- `cfg.baud_rate`. -/
def cfgBaudRate (numbers : Numbers N) (data : Data N) : Value N :=
  (Config.get data baudKey.place.1 baudKey.place.2).getD (.number (numbers.ofInt 115200))

/-- `cfg.baud_custom`. -/
def cfgBaudCustom (numbers : Numbers N) (data : Data N) : Value N :=
  (Config.get data (bytes "serial") (bytes "baud_custom")).getD (.number (numbers.ofInt 0))

/-! ## Runs -/

/-- The program as far as the rate reaches.  `saved` is the rate of the save whose text is at
the path, and the source has no such field. -/
structure Program (N : Type) where
  panel : Panel
  data : Data N
  disk : Config.Disk
  saved : Option Int

/-- The start of the program, with the Custom field where the native side has it. -/
def Program.start (numbers : BaudNumbers N) (extra : Bool) (disk : Config.Disk)
    (saved : Option Int) : Program N :=
  let data := loadConfig numbers.toNumbers disk.path
  { panel := .new numbers extra (cfgBaudRate numbers.toNumbers data)
      (cfgBaudCustom numbers.toNumbers data)
    data := data, disk := disk, saved := saved }

/-- What the user does, and a save that fails: whatever it leaves on the disk. -/
inductive Op (N : Type)
  | selectPreset (index : Fin baudItems.length)
  | editCustom (value : Int)
  | save (c : SaveContext N) (o : DoneSave)
  | failSave (c : SaveContext N) (disk : Config.Disk)
  | reload

def Program.step (numbers : BaudNumbers N) (extra : Bool) (p : Program N) : Op N → Program N
  | .selectPreset index => { p with panel := { p.panel with baud := index } }
  | .editCustom value =>
    { p with panel := { p.panel with baudCustom := p.panel.baudCustom.map fun _ => value } }
  | .save c o =>
    let data := saveRate numbers.toNumbers c p.data p.panel.serialConfig
    { p with
      data := data, disk := (Config.save numbers.toNumbers o.1 p.disk data).2
      saved := some p.panel.serialConfig }
  | .failSave c disk =>
    { p with
      data := saveRate numbers.toNumbers c p.data p.panel.serialConfig
      disk := disk, saved := none }
  | .reload => .start numbers extra p.disk p.saved

def Program.run (numbers : BaudNumbers N) (extra : Bool) (p : Program N) (ops : List (Op N)) :
    Program N :=
  ops.foldl (Program.step numbers extra) p

/-- The rates of a configuration file agree. -/
def FileAgrees (numbers : BaudNumbers N) (disk : Config.Disk) : Prop :=
  let data := loadConfig numbers.toNumbers disk.path
  Agrees numbers (cfgBaudRate numbers.toNumbers data) (cfgBaudCustom numbers.toNumbers data)

/-- In every state the rate is the one chosen, and a reload of a saved configuration gives
the rate that was saved. -/
structure Selects (numbers : BaudNumbers N) (extra : Bool) (p : Program N) (ops : List (Op N)) :
    Prop where
  chosen : ∀ pre, pre <+: ops → (p.run numbers extra pre).panel.Chosen
  reloaded : ∀ pre, pre ++ [.reload] <+: ops → ∀ rate, (p.run numbers extra pre).saved = some rate →
    (p.run numbers extra (pre ++ [.reload])).panel.serialConfig = rate

/-- In every state the override changes nothing, and each reload of a saved configuration
finds rates that agree. -/
structure Unhindered (numbers : BaudNumbers N) (extra : Bool) (p : Program N)
    (ops : List (Op N)) : Prop where
  free : ∀ pre, pre <+: ops → (p.run numbers extra pre).panel.Free
  agrees : ∀ pre, pre ++ [.reload] <+: ops → (p.run numbers extra pre).saved ≠ none →
    FileAgrees numbers (p.run numbers extra pre).disk

/-! ## What holds in every state -/

/-- The configuration can be read back, the override is a rate, and a rate that was saved
stands in the file. -/
structure Sound (numbers : BaudNumbers N) (p : Program N) : Prop where
  readable : Readable numbers.toNumbers p.data
  override : ∀ rate, p.panel.baudOverride = some rate → 300 ≤ rate ∧ rate ≤ 3000000
  stored : ∀ rate, p.saved = some rate → 300 ≤ rate ∧ rate ≤ 3000000 ∧
    cfgBaudRate numbers.toNumbers (loadConfig numbers.toNumbers p.disk.path) =
      .number (numbers.ofInt rate)

variable {numbers : BaudNumbers N} {p : Program N}

theorem Sound.start (hlaw : numbers.Lawful) (extra : Bool) {disk : Config.Disk}
    {saved : Option Int}
    (hstored : ∀ rate, saved = some rate → 300 ≤ rate ∧ rate ≤ 3000000 ∧
      cfgBaudRate numbers.toNumbers (loadConfig numbers.toNumbers disk.path) =
        .number (numbers.ofInt rate)) :
    Sound numbers (.start numbers extra disk saved) where
  readable := Pages.loadConfig_readable hlaw.lua disk.path
  override _ h := new_override h
  stored := hstored

theorem saveRate_readable (hlaw : numbers.Lawful) (c : SaveContext N) {data : Data N}
    (h : Readable numbers.toNumbers data) (rate : Int) :
    Readable numbers.toNumbers (saveRate numbers.toNumbers c data rate) :=
  Pages.Readable.applyWrites hlaw.lua.plain
    (Pages.saveWrites_wellFormed numbers.toNumbers _ _) h

/-- The next start reads the rate of a save. -/
theorem cfgBaudRate_saved (hlaw : numbers.Lawful) (c : SaveContext N) (o : DoneSave)
    (disk : Config.Disk) {data : Data N} (h : Readable numbers.toNumbers data) {rate : Int}
    (hlower : 300 ≤ rate) (hupper : rate ≤ 3000000) :
    cfgBaudRate numbers.toNumbers (loadConfig numbers.toNumbers
      (Config.save numbers.toNumbers o.1 disk (saveRate numbers.toNumbers c data rate)).2.path) =
        .number (numbers.ofInt rate) := by
  have hmultipage : baudKey.place.1 ≠ bytes "multipage" := by decide
  have hget := Pages.get_saved_setting numbers.toNumbers c.settings c.bridge data hmultipage
    (some (.number (numbers.ofInt rate))) c.later c.others
  have hread := Pages.get_reloaded hlaw.lua (saveRate_readable hlaw c h rate) hget
    ⟨rate, by omega, rfl⟩
  rw [DoneSave.path, cfgBaudRate, hread]
  rfl

/-- No save writes `baud_custom`. -/
theorem get_baudCustom_saveRate (c : SaveContext N) (data : Data N) (rate : Int) :
    Config.get (saveRate numbers.toNumbers c data rate) (bytes "serial") (bytes "baud_custom") =
      Config.get data (bytes "serial") (bytes "baud_custom") := by
  have hserial : bytes "multipage" ≠ bytes "serial" := by decide
  apply Pages.get_applyWrites_other
  rintro w hw ⟨hname, hkey⟩
  rcases Pages.mem_saveWrites hw with ⟨k, v, rfl⟩ | rfl | ⟨index, page, -, hw⟩ | rfl
  · cases k with
    | fixed i =>
      have htable : ∀ k ∈ Pages.settingKeys, bytes k.1 = bytes "serial" →
          bytes k.2 ≠ bytes "baud_custom" := by
        decide +kernel
      exact htable _ (List.get_mem Pages.settingKeys i) hname hkey
    | history index =>
      have hsend : bytes "send" ≠ bytes "serial" := by decide
      exact hsend hname
  · exact hserial hname
  · obtain ⟨slot, rfl | rfl⟩ := Pages.mem_pageWrites.mp hw
    · exact hserial hname
    · exact hserial hname
  · exact hserial hname

theorem get_baudCustom_saved (hlaw : numbers.Lawful) (c : SaveContext N) (o : DoneSave)
    (disk : Config.Disk) {data : Data N} (h : Readable numbers.toNumbers data)
    (habsent : Config.get data (bytes "serial") (bytes "baud_custom") = none) (rate : Int) :
    Config.get (loadConfig numbers.toNumbers
      (Config.save numbers.toNumbers o.1 disk (saveRate numbers.toNumbers c data rate)).2.path)
        (bytes "serial") (bytes "baud_custom") = none := by
  rw [DoneSave.path]
  show Config.get (Config.parse _ _) _ _ = none
  rw [Config.parse_reread (saveRate_readable hlaw c h rate), get_baudCustom_saveRate, habsent]
  rfl

/-- The rates of a file without `baud_custom` agree. -/
theorem fileAgrees_of_absent (hlaw : numbers.Lawful) {disk : Config.Disk}
    (h : Config.get (loadConfig numbers.toNumbers disk.path) (bytes "serial")
      (bytes "baud_custom") = none) : FileAgrees numbers disk := by
  have hnone := agrees_ofInt_zero hlaw (cfgBaudRate numbers.toNumbers
    (loadConfig numbers.toNumbers disk.path))
  show Agrees numbers _ (cfgBaudCustom _ _)
  rw [cfgBaudCustom, h]
  exact hnone

theorem Sound.step (hlaw : numbers.Lawful) (extra : Bool) (h : Sound numbers p) (op : Op N) :
    Sound numbers (p.step numbers extra op) := by
  cases op with
  | selectPreset index => exact ⟨h.readable, h.override, h.stored⟩
  | editCustom value => exact ⟨h.readable, h.override, h.stored⟩
  | save c o =>
    have hbounds := p.panel.serialConfig_bounds
    have hrate := cfgBaudRate_saved hlaw c o p.disk h.readable hbounds.1 hbounds.2
    refine ⟨saveRate_readable hlaw c h.readable _, h.override, ?_⟩
    intro rate hsaved
    obtain rfl := Option.some.inj hsaved
    exact ⟨hbounds.1, hbounds.2, hrate⟩
  | failSave c disk =>
    exact ⟨saveRate_readable hlaw c h.readable _, h.override, nofun⟩
  | reload => exact Sound.start hlaw extra h.stored

theorem Sound.run (hlaw : numbers.Lawful) (extra : Bool) (h : Sound numbers p) (ops : List (Op N)) :
    Sound numbers (p.run numbers extra ops) := by
  induction ops generalizing p with
  | nil => exact h
  | cons op ops ih => exact ih (h.step hlaw extra op)

theorem run_reload (extra : Bool) (p : Program N) (ops : List (Op N)) :
    p.run numbers extra (ops ++ [.reload]) =
      .start numbers extra (p.run numbers extra ops).disk (p.run numbers extra ops).saved := by
  rw [Program.run, List.foldl_append]
  rfl

/-! ## The rate over a run -/

/-- A reload gives the rate that was saved just where the file has no other. -/
theorem Sound.reload_iff (hlaw : numbers.Lawful) (extra : Bool) (h : Sound numbers p) {rate : Int}
    (hsaved : p.saved = some rate) :
    (Program.start numbers extra p.disk p.saved).panel.serialConfig = rate ↔
      FileAgrees numbers p.disk := by
  obtain ⟨hlower, hupper, hread⟩ := h.stored rate hsaved
  show (Panel.new numbers extra _ _).serialConfig = rate ↔ Agrees numbers _ _
  rw [hread]
  exact start_rate_iff hlaw hlower hupper extra _

/-- In every run the rate is the one chosen and survives every reload of a saved
configuration just where no override changes it in any of its states, and the file of each
such reload has no other custom rate. -/
theorem baud_selected_iff (hlaw : numbers.Lawful) (extra : Bool) (disk : Config.Disk)
    (ops : List (Op N)) :
    Selects numbers extra (.start numbers extra disk none) ops ↔
      Unhindered numbers extra (.start numbers extra disk none) ops := by
  have hstart : Sound numbers (.start numbers extra disk none) := .start hlaw extra nofun
  have hsound := fun pre => hstart.run hlaw extra pre
  constructor
  · intro hselects
    constructor
    · intro pre hpre
      exact (Panel.chosen_iff (hsound pre).override).mp (hselects.chosen pre hpre)
    · intro pre hpre hsaved
      obtain ⟨rate, hrate⟩ := Option.ne_none_iff_exists'.mp hsaved
      have hreloaded := hselects.reloaded pre hpre rate hrate
      rw [run_reload] at hreloaded
      exact ((hsound pre).reload_iff hlaw extra hrate).mp hreloaded
  · intro hfree
    constructor
    · intro pre hpre
      exact (Panel.chosen_iff (hsound pre).override).mpr (hfree.free pre hpre)
    · intro pre hpre rate hrate
      have hsaved : (Program.run numbers extra (.start numbers extra disk none) pre).saved ≠
          none := by
        rw [hrate]
        exact Option.some_ne_none rate
      rw [run_reload]
      exact ((hsound pre).reload_iff hlaw extra hrate).mpr (hfree.agrees pre hpre hsaved)

/-! The numbers are integers. -/

def integerRates : BaudNumbers Int := { Pages.integerFloats with isInt := fun n m => n == m }

theorem integerRates_lawful : integerRates.Lawful where
  lua := Pages.integerLua_lawful
  isInt_ofInt _ _ _ := beq_iff_eq
  isNaN_ofInt _ _ := rfl

/-- A save of no other settings. -/
def bareSave : SaveContext Int where
  settings := ⟨[], [], []⟩
  later := []
  bridge := Bridge.new
  others := nofun

def doneSave : DoneSave :=
  ⟨⟨true, true, true, 0, true, ⟨true, true⟩, true, ⟨false, false⟩⟩, by decide, by decide⟩

/-- `9600` is chosen and saved, and the program starts again. -/
def presetOps : List (Op Int) := [.selectPreset ⟨3, by decide⟩, .save bareSave doneSave, .reload]

/-- The disk behind that save. -/
def presetDisk : Config.Disk :=
  (Program.run integerRates true (.start integerRates true ⟨none, none⟩ none)
    (presetOps.take 2)).disk

theorem presetDisk_rates :
    cfgBaudRate integerRates.toNumbers (loadConfig integerRates.toNumbers presetDisk.path) =
        .number 9600 ∧
      Config.get (loadConfig integerRates.toNumbers presetDisk.path) (bytes "serial")
        (bytes "baud_custom") = none := by
  have hreadable := Pages.loadConfig_readable integerRates_lawful.lua none
  constructor
  · exact cfgBaudRate_saved integerRates_lawful bareSave doneSave ⟨none, none⟩ hreadable
      (by decide : (300 : Int) ≤ 9600) (by decide)
  · exact get_baudCustom_saved integerRates_lawful bareSave doneSave ⟨none, none⟩ hreadable rfl 9600

theorem baud_selected_preset :
    Selects integerRates true (.start integerRates true ⟨none, none⟩ none) presetOps := by
  obtain ⟨hrate, habsent⟩ := presetDisk_rates
  have hagrees := fileAgrees_of_absent integerRates_lawful habsent
  have hreloaded : (Panel.new integerRates true
      (cfgBaudRate integerRates.toNumbers (loadConfig integerRates.toNumbers presetDisk.path))
      (cfgBaudCustom integerRates.toNumbers
        (loadConfig integerRates.toNumbers presetDisk.path))).Free := by
    rw [hrate, cfgBaudCustom, habsent]
    exact fun _ => nofun
  apply (baud_selected_iff integerRates_lawful true ⟨none, none⟩ presetOps).mpr
  constructor
  · intro pre hpre
    simp only [presetOps, List.prefix_cons_iff, List.prefix_nil] at hpre
    obtain rfl | ⟨_, rfl, rfl | ⟨_, rfl, rfl | ⟨_, rfl, rfl⟩⟩⟩ := hpre
    · exact fun _ => nofun
    · exact fun _ => nofun
    · exact fun _ => nofun
    · exact hreloaded
  · intro pre hpre hsaved
    have hlate := (List.prefix_append pre [.reload]).trans hpre
    simp only [presetOps, List.prefix_cons_iff, List.prefix_nil] at hlate
    obtain rfl | ⟨_, rfl, rfl | ⟨_, rfl, rfl | ⟨_, rfl, rfl⟩⟩⟩ := hlate
    · exact absurd rfl hsaved
    · exact absurd rfl hsaved
    · exact hagrees
    · exact hagrees

/-- A configuration of a version that wrote `250000`. -/
def customRateFile : Config.Disk := ⟨some (bytes "[serial]\nbaud_rate = 250000\n"), none⟩

/-- The Custom field is cleared, and the rate is still `250000`. -/
theorem cleared_rate_used :
    (Program.run integerRates true (.start integerRates true customRateFile none)
        [.editCustom 0]).panel.serialConfig = 250000 ∧
      ¬ Selects integerRates true (.start integerRates true customRateFile none)
        [.editCustom 0] := by
  have hused : (Program.run integerRates true (.start integerRates true customRateFile none)
      [.editCustom 0]).panel.serialConfig = 250000 := by
    decide +kernel
  have hcleared : ¬ (Program.run integerRates true
      (.start integerRates true customRateFile none) [.editCustom 0]).panel.Chosen := by
    decide +kernel
  exact ⟨hused, fun hselects => hcleared (hselects.chosen _ List.prefix_rfl)⟩

end Xcom.Serial.BaudChoice
