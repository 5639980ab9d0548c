import Xcom.Config.Save

/-!
# The pages of the multi-send tab

`imgui_bridge.lua`: eight slots of text and flag are on the screen, in buffers the native
side edits.  The other pages are Lua tables.  `Window:_save_config` and the start of the
program move the pages to the configuration and back.
-/

namespace Xcom.Pages

open Config (Bytes Value Data Numbers)

variable {N : Type}

/-- A literal of the source. -/
def bytes (s : String) : Bytes := s.toUTF8.data.toList

/-- A slot of a page, `0` to `MULTI_SLOTS - 1`. -/
abbrev Slot := Fin 8

/-- `MULTI_SLOT_CAPACITY`. -/
def multiSlotCapacity : Nat := 512

/-- A page: an entry that was never stored is absent. -/
structure Page (N : Type) where
  text : Slot → Option (Value N)
  enabled : Slot → Option (Value N)

/-- `{ text = {}, enabled = {} }`. -/
def Page.empty : Page N := ⟨fun _ => none, fun _ => none⟩

/-- The fields of the bridge for the pages.  `multiPage` is the page in the buffers. -/
structure Bridge (N : Type) where
  multiText : Slot → Bytes
  multiEnabled : Slot → Int
  multiPage : Int
  multiPageCount : Int
  pages : List (Page N)

/-- `M.new`. -/
def Bridge.new : Bridge N where
  multiText _ := List.replicate multiSlotCapacity 0
  multiEnabled _ := 0
  multiPage := 0
  multiPageCount := 1
  pages := [Page.empty]

/-! ## Values -/

/-- `cstr`. -/
def cstr (buf : Bytes) : Bytes := buf.takeWhile (· ≠ 0)

/-- A value that counts as true. -/
def truthy : Option (Value N) → Bool
  | none => false
  | some (.boolean b) => b
  | some _ => true

/-- `== true`. -/
def isTrue : Option (Value N) → Bool
  | some (.boolean b) => b
  | _ => false

/-- `v or ""`. -/
def orEmpty : Option (Value N) → Value N
  | none | some (.boolean false) => .string []
  | some v => v

/-- The text of an entry, `none` where taking its length raises. -/
def entryText (v : Option (Value N)) : Option Bytes :=
  match orEmpty v with
  | .string s => some s
  | _ => none

/-- A slot buffer that is filled with zeros and has a text copied over it. -/
def slotBuffer (text : Bytes) : Bytes :=
  text.take (multiSlotCapacity - 1) ++
    List.replicate (multiSlotCapacity - min text.length (multiSlotCapacity - 1)) 0

/-! ## The page operations: `none` where Lua raises -/

/-- `self.pages[self.multi_page[0] + 1]`. -/
def Bridge.page (b : Bridge N) : Option (Page N) :=
  if 0 ≤ b.multiPage then b.pages[b.multiPage.toNat]? else none

/-- What `_store_page` puts into the page. -/
def Bridge.visiblePage (b : Bridge N) : Page N where
  text i := some (.string (cstr (b.multiText i)))
  enabled i := some (.boolean (b.multiEnabled i ≠ 0))

/-- `_store_page`. -/
def Bridge.storePage (b : Bridge N) : Option (Bridge N) :=
  b.page.map fun _ => { b with pages := b.pages.set b.multiPage.toNat b.visiblePage }

/-- The buffers with the entries of a page. -/
def Bridge.fill (b : Bridge N) (page : Page N) : Bridge N :=
  { b with
    multiText := fun i => slotBuffer ((entryText (page.text i)).getD [])
    multiEnabled := fun i => if truthy (page.enabled i) then 1 else 0 }

/-- `_load_page`. -/
def Bridge.loadPage (b : Bridge N) : Option (Bridge N) :=
  b.page.bind fun page =>
    if ∀ i, (entryText (page.text i)).isSome then some (b.fill page) else none

/-- `change_page`. -/
def Bridge.changePage (b : Bridge N) (delta : Int) : Option (Bridge N) :=
  b.storePage.bind fun b =>
    { b with multiPage := max 0 (min (b.multiPageCount - 1) (b.multiPage + delta)) }.loadPage

/-- `add_page`. -/
def Bridge.addPage (b : Bridge N) : Option (Bridge N) :=
  b.storePage.bind fun b =>
    if b.multiPageCount ≥ 50 then some b
    else
      let pages := b.pages ++ [Page.empty]
      { b with
        pages := pages
        multiPageCount := pages.length
        multiPage := pages.length - 1 }.loadPage

/-- `remove_page`. -/
def Bridge.removePage (b : Bridge N) : Option (Bridge N) :=
  if b.multiPageCount ≤ 1 then some b
  else
    b.storePage.bind fun b =>
      let pages := b.pages.eraseIdx b.multiPage.toNat
      { b with
        pages := pages
        multiPageCount := pages.length
        multiPage := min b.multiPage (pages.length - 1) }.loadPage

/-- `set_pages`, with the initial page as a whole number. -/
def Bridge.setPages (b : Bridge N) (pages : List (Page N)) (initialPage : Int) :
    Option (Bridge N) :=
  if pages = [] then some b
  else
    { b with
      pages := pages
      multiPageCount := pages.length
      multiPage := max 0 (min (pages.length - 1) initialPage) }.loadPage

/-! ## The native side -/

/-- A text the input field takes. -/
def SlotText := { s : Bytes // s.length ≤ multiSlotCapacity - 1 ∧ 0 ∉ s }

/-- The input field of a slot: the bytes behind the new text stay. -/
def Bridge.editText (b : Bridge N) (slot : Slot) (text : SlotText) : Bridge N :=
  { b with
    multiText := Function.update b.multiText slot
      (text.1 ++ 0 :: (b.multiText slot).drop (text.1.length + 1)) }

/-- The switch of a slot. -/
def Bridge.toggle (b : Bridge N) (slot : Slot) (enabled : Int) : Bridge N :=
  { b with multiEnabled := Function.update b.multiEnabled slot enabled }

/-! ## The configuration -/

/-- `string.format("entry.%d.%d.%s", page, index, key)`. -/
def entryKey (page : Nat) (slot : Slot) (key : Bytes) : Bytes :=
  bytes "entry." ++
    (Config.decimalDigits page ++ 0x2E :: (Config.decimalDigits slot ++ 0x2E :: key))

/-- One `config.set`: section, key and value. -/
abbrev Write (N : Type) := Bytes × Bytes × Option (Value N)

/-- The `config.set` calls of a save, in their order. -/
def applyWrites (data : Data N) (writes : List (Write N)) : Data N :=
  writes.foldl (fun data w => Config.set data w.1 w.2.1 w.2.2) data

/-- The `set_multi_entry` calls for a page. -/
def pageWrites (page : Page N) (index : Nat) : List (Write N) :=
  (List.finRange 8).flatMap fun slot =>
    [(bytes "multipage", entryKey index slot (bytes "text"), some (orEmpty (page.text slot))),
      (bytes "multipage", entryKey index slot (bytes "enabled"),
        some (.boolean (isTrue (page.enabled slot))))]

/-- The sections and keys of the other settings with fixed names. -/
def settingKeys : List (String × String) :=
  [("window", "x"), ("window", "y"), ("window", "w"), ("window", "h"), ("port", "name"),
    ("serial", "baud_rate"), ("serial", "data_bits"), ("serial", "stop_bits"),
    ("serial", "parity"), ("serial", "flow_control"), ("serial", "dtr_enable"),
    ("serial", "rts_enable"), ("serial", "dtr_open"), ("serial", "rts_open"),
    ("display", "timestamp"), ("display", "pause_display"), ("display", "auto_clear"),
    ("display", "auto_clear_bytes"), ("display", "auto_save"), ("display", "save_path"),
    ("display", "receive_window_bytes"), ("display", "charset"), ("display", "tx_echo"),
    ("display", "frame_gap_ms"), ("display", "strip_timestamp_on_copy"),
    ("script", "enabled"), ("script", "autorun_console"), ("script", "auto_reload"),
    ("send", "receive_hex"), ("send", "hex"), ("send", "crlf"),
    ("send", "autosend_period_ms"), ("send", "history_count"), ("multipage", "hex"),
    ("multipage", "crlf"), ("multipage", "period_ms"), ("multipage", "gap_ms"),
    ("font", "size_index"), ("font", "show_chinese_in_receive")]

/-- The name of another setting. -/
inductive SettingKey
  | fixed (i : Fin settingKeys.length)
  | history (index : Nat)

/-- Its section and key. -/
def SettingKey.place : SettingKey → Bytes × Bytes
  | .fixed i => (bytes (settingKeys.get i).1, bytes (settingKeys.get i).2)
  | .history index => (bytes "send", bytes "history." ++ Config.decimalDigits index)

/-- The `config.set` calls of `_save_config` for the other settings: those before the pages,
those between the entries and the current page, and those after it. -/
structure Settings (N : Type) where
  before : List (SettingKey × Option (Value N))
  between : List (SettingKey × Option (Value N))
  after : List (SettingKey × Option (Value N))

def settingWrites (settings : List (SettingKey × Option (Value N))) : List (Write N) :=
  settings.map fun s => (s.1.place.1, s.1.place.2, s.2)

/-- All `config.set` calls of `_save_config`; the visible page is stored. -/
def saveWrites (numbers : Numbers N) (settings : Settings N) (b : Bridge N) : List (Write N) :=
  settingWrites settings.before ++
    (bytes "multipage", bytes "page_count", some (.number (numbers.ofInt b.multiPageCount))) ::
    b.pages.zipIdx.flatMap (fun e => pageWrites e.1 e.2) ++
    settingWrites settings.between ++
    (bytes "multipage", bytes "page", some (.number (numbers.ofInt b.multiPage))) ::
    settingWrites settings.after

/-- `_save_config` up to the call of `config.save`. -/
def saveConfig (numbers : Numbers N) (settings : Settings N) (data : Data N) (b : Bridge N) :
    Option (Data N × Bridge N) :=
  b.storePage.map fun b => (applyWrites data (saveWrites numbers settings b), b)

/-! ## The start -/

/-- The numbers of the runtime with `math.floor`; a number beyond every bound has some
integer beyond the bounds the program compares with. -/
structure LuaNumbers (N : Type) extends Numbers N where
  floor : N → Int

/-- `config.load`. -/
def loadConfig (numbers : Numbers N) : Option Bytes → Data N
  | none => (∅ : Data N).insert [] ∅
  | some content => Config.parse numbers content

/-- `math.max(1, math.min(v, 50))`, the number of turns of the loop up to it.  A string is
read as a number; what is none raises. -/
def pageCount (numbers : LuaNumbers N) : Option (Value N) → Option Int
  | none => some 1
  | some (.number n) => some (max 1 (min (numbers.floor n) 50))
  | some (.string s) => (numbers.tonumber s).map fun n => max 1 (min (numbers.floor n) 50)
  | some (.boolean _) => none

/-- `math.floor(tonumber(v) or 0)`, where the key is absent `0`. -/
def initialPage (numbers : LuaNumbers N) : Option (Value N) → Int
  | some (.number n) => numbers.floor n
  | some (.string s) => ((numbers.tonumber s).map numbers.floor).getD 0
  | _ => 0

/-- `get_multi_entry`. -/
def getMultiEntry (data : Data N) (page : Nat) (slot : Slot) (key : Bytes) (default : Value N) :
    Value N :=
  (Config.get data (bytes "multipage") (entryKey page slot key)).getD default

/-- `cfg.quick_pages`. -/
def quickPages (numbers : LuaNumbers N) (data : Data N) : Option (List (Page N)) :=
  (pageCount numbers (Config.get data (bytes "multipage") (bytes "page_count"))).map fun count =>
    (List.range count.toNat).map fun page =>
      { text := fun slot => some (getMultiEntry data page slot (bytes "text") (.string []))
        enabled := fun slot =>
          some (getMultiEntry data page slot (bytes "enabled") (.boolean false)) }

/-- The program as far as the pages reach: the bridge, `cfg_data` and the configuration
file with its sibling. -/
structure Program (N : Type) where
  bridge : Bridge N
  data : Data N
  disk : Config.Disk

/-- The start of the program: `config.load`, the pages and `set_pages`. -/
def start (numbers : LuaNumbers N) (disk : Config.Disk) : Option (Program N) :=
  let data := loadConfig numbers.toNumbers disk.path
  (quickPages numbers data).bind fun pages =>
    (Bridge.new.setPages pages
      (initialPage numbers (Config.get data (bytes "multipage") (bytes "page")))).map
      fun bridge => ⟨bridge, data, disk⟩

/-- The outcomes of a save that is done. -/
def DoneSave := { o : Config.SaveOutcome //
  (o.opened ∧ o.wrote ∧ o.closed) ∧
    ((o.first.moveFileEx ∨ o.first.osRename) ∨ o.second.moveFileEx ∨ o.second.osRename) }

/-- `_save_config`. -/
def Program.save (numbers : LuaNumbers N) (p : Program N) (settings : Settings N)
    (o : Config.SaveOutcome) : Option (Program N) :=
  (saveConfig numbers.toNumbers settings p.data p.bridge).map fun r =>
    ⟨r.2, r.1, (Config.save numbers.toNumbers o p.disk r.1).2⟩

/-- What happens to the pages. -/
inductive Op (N : Type)
  | editText (slot : Slot) (text : SlotText)
  | toggle (slot : Slot) (enabled : Int)
  | changePage (delta : Int)
  | addPage
  | removePage
  | save (settings : Settings N) (o : Config.SaveOutcome)
  | restart (settings : Settings N) (o : DoneSave)

/-- One step of the program. -/
def Program.apply (numbers : LuaNumbers N) (p : Program N) : Op N → Option (Program N)
  | .editText slot text => some { p with bridge := p.bridge.editText slot text }
  | .toggle slot enabled => some { p with bridge := p.bridge.toggle slot enabled }
  | .changePage delta => (p.bridge.changePage delta).map fun b => { p with bridge := b }
  | .addPage => p.bridge.addPage.map fun b => { p with bridge := b }
  | .removePage => p.bridge.removePage.map fun b => { p with bridge := b }
  | .save settings o => p.save numbers settings o
  | .restart settings o => (p.save numbers settings o.1).bind fun p => start numbers p.disk

/-- A run of the program. -/
def Program.run (numbers : LuaNumbers N) (p : Program N) (ops : List (Op N)) :
    Option (Program N) :=
  ops.foldlM (Program.apply numbers) p

end Xcom.Pages
