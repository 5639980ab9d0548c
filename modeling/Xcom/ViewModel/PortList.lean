import Mathlib.Data.List.Sort
import Mathlib.Data.String.Basic
import Xcom.Text.Fields
import Xcom.Transition.Machine
import Xcom.ViewModel.GraceDriver

/-!
# The list of ports

The list is built anew whenever the ports change, under a selection that is the user's: the
dropdown of the native panel, and the name buffer of the ImGui panel with the rows it offers.
Beside the selection stands its presence, without which a port is not opened.
-/

namespace Xcom.ViewModel

/-- An entry of `xcom.list_ports` with its occupancy. -/
structure ListedPort extends PortInfo where
  busy : Bool := false
  deriving DecidableEq, Repr

namespace PortList

/-! ## Rows and names -/

/-- `port_key`. -/
def portKey (p : ListedPort) : String := p.name

/-- The label of a row of the dropdown. -/
def comboLabel (p : ListedPort) : String :=
  let label := if p.description = "" then p.name else p.name ++ "  " ++ p.description
  if p.busy then label ++ "  （被占用）" else label

/-- `port_combo_entries`. -/
def portComboEntries (ports : List ListedPort) : List String × List String :=
  (ports.map comboLabel, ports.map portKey)

/-- `find_key_index`; a `want` of `nil` is the empty name. -/
def findKeyIndex (keys : List String) (want : String) : Option Nat :=
  if want = "" then none else keys.idxOf? want

/-- `port_list_signature`. -/
def portListSignature (ports : List ListedPort) : String :=
  "\x01".intercalate ((ports.map (·.name)).insertionSort (· ≤ ·))

/-- The one port whose text is `want`. -/
def uniquePortBy (text : ListedPort → String) (ports : List ListedPort) (want : String) :
    Option String :=
  if want = "" then none
  else
    match ports.filter fun p => decide (text p ≠ "" ∧ text p = want) with
    | [p] => some p.name
    | _ => none

/-- `unique_port_by_desc`. -/
def uniquePortByDesc : List ListedPort → String → Option String := uniquePortBy (·.description)

/-- `unique_port_by_hwid`. -/
def uniquePortByHwid : List ListedPort → String → Option String := uniquePortBy (·.hardwareId)

/-- `describe_enum_error`. -/
def describeEnumError (code : Int) : Option String :=
  if code = 0 then none
  else if code = 5 then some "无法读取串口列表：访问被拒绝"
  else if code = 87 then some "串口列表读取失败：参数无效"
  else some s!"串口枚举失败（错误码 {code}）"

/-- The text of an enumeration error. -/
def enumErrorText (code : Int) : String :=
  (describeEnumError code).getD s!"port enumeration failed (error {code})"

/-- `M:ports` of the simulator. -/
def simPorts : List ListedPort :=
  [{ name := "VIRTUAL", description := "SIM 虚拟串口", hardwareId := "" },
    { name := "TESTLOOP", description := "SIM 回环", hardwareId := "" }]

/-- A row of the ImGui panel: the mark of an occupied port rides behind a tab. -/
def shownName (busyName : String) (p : ListedPort) : String :=
  if p.name ≠ "" ∧ (p.busy = true ∨ p.name = busyName) then p.name ++ "\t（被占用）" else p.name

/-- `xcom_imgui_set_ports` keeps the names that are not empty. -/
def setPorts (names : List String) : List String := names.filter (· ≠ "")

/-- The key of a row in `ConnectionContent`: what stands before the tab. -/
def rowKey (row : String) : String := String.ofList (row.toList.takeWhile (· ≠ '\t'))

/-- `PORT_CAPACITY`. -/
def PORT_CAPACITY : Nat := 128

/-! ## The window -/

/-- The controls that hold the selection. -/
inductive Panel
  /-- The dropdown `conn.port`: its rows, and the row that is selected. -/
  | native (items : List String) (cur : Option Nat)
  /-- The rows of the bridge and its buffer `port`. -/
  | imgui (rows : List String) (port : String)
  deriving DecidableEq, Repr

/-- The window as far as its ports go; a text that is `nil` is empty.  The last two fields are
history: the names of the ports that the rows stand for, up to a tab in the ImGui panel, and the
name that the user chose last, at first that of the file. -/
structure Picker where
  panel : Panel
  vm : ViewModel := {}
  imguiPort : Option String := none
  portKeys : Option (List String) := none
  portWant : String := ""
  portDesc : String := ""
  portHwid : String := ""
  portBusyName : String := ""
  portsSignature : Option String := none
  probePortBusy : Bool := false
  simActive : Bool := false
  deferQueue : List (List ListedPort × Option Int) := []
  status : String := ""
  statusDirty : Option String := none
  names : List String := []
  chosen : String := ""
  deriving DecidableEq, Repr

namespace Picker

/-- `_ports_refresh_allowed`. -/
def portsRefreshAllowed (w : Picker) : Bool :=
  w.vm.uiState.superState = .offline ∧ w.vm.recovering = false

/-- `_port_probe_flag`. -/
def portProbeFlag (w : Picker) : Bool :=
  if w.vm.uiState.superState ≠ .offline ∨ w.vm.recovering = true then false
  else w.probePortBusy

/-- Ports are probed only while their list may be built anew. -/
theorem portProbeFlag_eq (w : Picker) :
    w.portProbeFlag = (w.portsRefreshAllowed && w.probePortBusy) := by
  unfold portProbeFlag portsRefreshAllowed
  by_cases hstate : w.vm.uiState.superState = .offline
  · cases hrec : w.vm.recovering <;> simp [hstate]
  · simp [hstate]

/-- `_set_port_present`, without the rendering. -/
def setPortPresent (w : Picker) (present : Bool) : Picker :=
  { w with vm := (w.vm.setPortPresent present).1 }

/-- The texts of the wanted port are kept while it is listed. -/
def rememberTexts (w : Picker) (ports : List ListedPort) (want : String) : Picker :=
  match ports.find? (·.name = want) with
  | some p => { w with portDesc := p.description, portHwid := p.hardwareId }
  | none => w

/-- `_remember_imgui_desc`. -/
def rememberImguiDesc (w : Picker) (ports : List ListedPort) (want : String) : Picker :=
  if want = "" then w else w.rememberTexts ports want

/-- What is told of a port that is not listed. -/
def absentText (w : Picker) (ports : List ListedPort) (want : String) : String :=
  match (uniquePortByHwid ports w.portHwid).or (uniquePortByDesc ports w.portDesc) with
  | some alt => s!"port {want} not present; {alt} may be the same device - select it"
  | none => s!"port {want} not present - select a port"

/-- What is told of a list that was built. -/
def countText (ports : List ListedPort) : String := s!"ports: {ports.length}"

/-- `_report_empty_ports`. -/
def reportEmptyPorts (enumErr : Option Int) : String :=
  match enumErr with
  | some code => enumErrorText code
  | none => "no COM ports detected"

/-- `_refresh_imgui_ports`; the entries of the simulator are added to the list it is given. -/
def refreshImguiPorts (w : Picker) (ports : List ListedPort) (enumErr : Option Int) :
    Picker × List ListedPort :=
  match w.panel with
  | .native _ _ => (w, ports)
  | .imgui _ port =>
    let statusDirty :=
      match enumErr with
      | some code => some (enumErrorText code)
      | none => w.statusDirty
    let ports := if w.simActive then ports ++ simPorts else ports
    ({ w with
        panel := .imgui (setPorts (ports.map (shownName w.portBusyName))) port
        statusDirty := statusDirty
        names := ((ports.map (·.name)).filter (· ≠ "")).map rowKey }, ports)

/-- The port that is wanted when the dropdown is built anew: the row that is selected now, also
where the user picked it since. -/
def liveWant (w : Picker) (cur : Option Nat) : String :=
  ((w.portKeys.bind fun keys => cur.bind fun i => keys[i]?).getD w.portWant)

/-- The mark of an open that was refused. -/
def markBusy (w : Picker) (ports : List ListedPort) : List ListedPort :=
  if w.portBusyName = "" then ports
  else ports.map fun p => if p.name = w.portBusyName then { p with busy := true } else p

/-- The rows of the dropdown and their keys: a wanted port that is not listed has a row of its
own. -/
def comboRows (ports : List ListedPort) (want : String) : List String × List String :=
  let entries := portComboEntries ports
  if findKeyIndex entries.2 want = none ∧ want ≠ "" then
    (entries.1 ++ [want ++ "  (not present)"], entries.2 ++ [want])
  else entries

/-- What `_reload_port_combo` tells. -/
def tellPorts (w : Picker) (ports : List ListedPort) (want : String) (present : Bool)
    (enumErr : Option Int) : Picker :=
  if present = false ∧ want ≠ "" then { w with status := w.absentText ports want }
  else if ports = [] then { w with status := reportEmptyPorts enumErr }
  else if present = false then { w with status := "select a port" }
  else if w.portBusyName = "" then { w with status := countText ports }
  else w

/-- The dropdown built anew, with the wanted port selected. -/
def rebuildCombo (w : Picker) (ports : List ListedPort) (want : String) : Picker :=
  let rows := comboRows ports want
  let found := findKeyIndex (portComboEntries ports).2 want
  { w with
    panel := .native rows.1 (if found = none ∧ want ≠ "" then some ports.length else found)
    portWant := want
    portKeys := some rows.2
    names := rows.2 }

/-- `_reload_port_combo` with an enumeration. -/
def reloadPortCombo (w : Picker) (ports : List ListedPort) (enumErr : Option Int) : Picker :=
  match w.panel with
  | .imgui _ _ => w
  | .native _ cur =>
    let want := w.liveWant cur
    let ports := w.markBusy ports
    let present := (findKeyIndex (portComboEntries ports).2 want).isSome
    let w := w.rebuildCombo ports want
    let w := if present then w.rememberTexts ports want else w
    (w.setPortPresent present).tellPorts ports want present enumErr

/-- The name that the ImGui panel is judged by. -/
def imguiWant (w : Picker) (port : String) : String :=
  if w.imguiPort.getD "" = "" then port else w.imguiPort.getD ""

/-- What `_apply_ports` tells in the ImGui panel. -/
def tellImguiPorts (w : Picker) (ports : List ListedPort) (want : String) (present : Bool)
    (enumErr : Option Int) : Picker :=
  if present = false ∧ want ≠ "" then { w with status := w.absentText ports want }
  else if enumErr = none ∧ w.portBusyName = "" ∧ ports ≠ [] then
    { w with status := countText ports }
  else w

/-- `_apply_ports`. -/
def applyPorts (w : Picker) (ports : List ListedPort) (enumErr : Option Int) : Picker :=
  let w := { w with portsSignature := some (portListSignature ports) }
  match w.panel with
  | .native _ _ => w.reloadPortCombo ports enumErr
  | .imgui _ port =>
    let refreshed := w.refreshImguiPorts ports enumErr
    let ports := refreshed.2
    let want := w.imguiWant port
    let present := ports.any (·.name = want)
    let w := refreshed.1.rememberImguiDesc ports want
    (w.setPortPresent present).tellImguiPorts ports want present enumErr

/-- `_refresh_ports_after_change`. -/
def refreshPortsAfterChange (w : Picker) (ports : List ListedPort) (enumErr : Option Int) :
    Picker :=
  let w := { w with portBusyName := "" }
  if w.portsRefreshAllowed then w.applyPorts ports enumErr else w

/-- `_poll_ports_backstop`. -/
def pollPortsBackstop (w : Picker) (ports : List ListedPort) (enumErr : Option Int) : Picker :=
  if w.portsRefreshAllowed = false ∨ some (portListSignature ports) = w.portsSignature then w
  else { w with portBusyName := "", deferQueue := w.deferQueue ++ [(ports, enumErr)] }

/-- The next job of `_defer_queue`. -/
def runDeferred (w : Picker) : Option Picker :=
  match w.deferQueue with
  | [] => none
  | (ports, enumErr) :: jobs =>
    let w := { w with deferQueue := jobs }
    some (if w.portsRefreshAllowed then w.applyPorts ports enumErr else w)

/-- The refresh button: `on_btn_refresh` of the native panel, `_refresh_imgui_ports` of the
other. -/
def refresh (w : Picker) (ports : List ListedPort) (enumErr : Option Int) : Picker :=
  match w.panel with
  | .native _ _ => { w with portBusyName := "" }.applyPorts ports enumErr
  | .imgui _ _ => (w.refreshImguiPorts ports enumErr).1

/-- `_mark_port_occupied`. -/
def markPortOccupied (w : Picker) (name : String) (ports : List ListedPort)
    (enumErr : Option Int) : Picker :=
  if name = "" ∨ name = w.portBusyName then w
  else
    let w := { w with portBusyName := name }
    match w.panel with
    | .native _ _ => w.reloadPortCombo ports enumErr
    | .imgui _ _ => (w.refreshImguiPorts ports enumErr).1

/-- The user picks a row.  In the ImGui panel its key is copied into the buffer, which
`sync_settings` reads; a name that does not fit stops the program. -/
def pick (w : Picker) (row : Nat) : Option Picker :=
  match w.panel with
  | .native items _ =>
    if row < items.length then
      some { w with panel := .native items (some row), chosen := (w.names[row]?).getD "" }
    else none
  | .imgui rows _ =>
    (rows[row]?).bind fun text =>
      let key := rowKey text
      if key.utf8ByteSize < PORT_CAPACITY then
        some { w with
          panel := .imgui rows key, imguiPort := some key, chosen := (w.names[row]?).getD "" }
      else none

/-- The adoption of another port in `_drive_reconnect`. -/
def adopt (w : Picker) (target : String) (ports : List ListedPort) (enumErr : Option Int) :
    Option Picker :=
  if target = "" then none
  else some ({ w with imguiPort := some target }.refreshImguiPorts ports enumErr).1

/-- The deferred status of `render_imgui`. -/
def commitStatus (w : Picker) : Picker :=
  match w.panel, w.statusDirty with
  | .imgui _ _, some text => { w with status := text, statusDirty := none }
  | _, _ => w

/-- The port of `_serial_config`; the text of a dropdown is that of its row. -/
def serialPort (w : Picker) : String :=
  match w.panel with
  | .imgui _ port => w.imguiPort.getD port
  | .native items cur =>
    (w.portKeys.bind fun keys => cur.bind fun i => keys[i]?).getD
      ((cur.bind fun i => items[i]?).getD "")

/-- The open action and `sync_settings` copy the name of the buffer. -/
def syncPort (w : Picker) : Picker :=
  match w.panel with
  | .native _ _ => w
  | .imgui _ port => { w with imguiPort := some port }

/-- `core_open`, as the panel calls it, up to the request, whose port is returned. -/
def coreOpen (w : Picker) : Picker × Option String :=
  let w := w.syncPort
  if w.vm.intentOpen.2 = false then (w, none)
  else
    let w := { w with vm := w.vm.intentOpen.1 }
    if w.vm.uiState.portPresent = false then
      ({ w with
          vm := w.vm.rejectOpen.1
          status :=
            match w.panel with
            | .imgui _ _ => "Selected port is not present; reconnect or reselect"
            | .native _ _ => "selected port not present - select a port" }, none)
    else if w.serialPort = "" then
      ({ w with
          vm := w.vm.rejectOpen.1
          status :=
            match w.panel with
            | .imgui _ _ => "Select a port first"
            | .native _ _ => "select a port before opening" }, none)
    else (w, some w.serialPort)

/-- What happens to a window: the user, the ports, the timers, a refused open, the grace driver
and the rest of the session. -/
inductive Op
  | pick (row : Nat)
  | refresh (ports : List ListedPort) (enumErr : Option Int)
  | nodesChanged (ports : List ListedPort) (enumErr : Option Int)
  | backstop (ports : List ListedPort) (enumErr : Option Int)
  | deferred
  | openFailed (name : String) (ports : List ListedPort) (enumErr : Option Int)
  | adopt (target : String) (ports : List ListedPort) (enumErr : Option Int)
  | activateSim (ports : List ListedPort) (enumErr : Option Int)
  | syncSettings
  | frame
  | coreOpen
  | session (hsm : Hsm)
  deriving DecidableEq, Repr

def step (w : Picker) : Op → Option Picker
  | .pick row => w.pick row
  | .refresh ports enumErr => some (w.refresh ports enumErr)
  | .nodesChanged ports enumErr => some (w.refreshPortsAfterChange ports enumErr)
  | .backstop ports enumErr => some (w.pollPortsBackstop ports enumErr)
  | .deferred => w.runDeferred
  | .openFailed name ports enumErr => some (w.markPortOccupied name ports enumErr)
  | .adopt target ports enumErr => w.adopt target ports enumErr
  | .activateSim ports enumErr =>
    some ({ w with simActive := true }.refreshImguiPorts ports enumErr).1
  | .syncSettings => some w.syncPort
  | .frame => some w.commitStatus
  | .coreOpen => some w.coreOpen.1
  | .session hsm => some { w with vm.hsm := hsm }

/-- A new window: `port` is that of the file or, with the ImGui panel, what `_init_imgui` copies
of it. -/
def start (imgui : Bool) (port : String) : Picker :=
  if imgui then { panel := .imgui [] port, chosen := port }
  else { panel := .native [] none, portWant := port, chosen := port }

def machine (imgui : Bool) (port : String) : Transition.Machine Picker Op :=
  ⟨start imgui port, step⟩

/-! ## The selection -/

/-- A row of the dropdown that shows the name: the label of such a port, or the row of one that is
not listed. -/
def Reads (text name : String) : Prop :=
  (∃ p : ListedPort, p.name = name ∧ text = comboLabel p) ∨ text = name ++ "  (not present)"

/-- The selection of the dropdown is what was chosen, and its rows show what they stand for. -/
structure NativeKept (w : Picker) (items : List String) (cur : Option Nat) : Prop where
  names : w.portKeys.getD [] = w.names
  rows : List.Forall₂ Reads items w.names
  live : w.liveWant cur = w.chosen
  selected : w.portKeys.isSome = true → (cur.bind fun i => w.names[i]?).getD "" = w.chosen

/-- The buffer holds what was chosen, and each row has the key of its port. -/
structure ImguiKept (w : Picker) (rows : List String) (port : String) : Prop where
  buffer : port = w.chosen
  keys : rows.map rowKey = w.names
  named : w.imguiPort = some "" → port = ""

/-- The selection is the user's. -/
def Kept (w : Picker) : Prop :=
  match w.panel with
  | .native items cur => w.NativeKept items cur
  | .imgui rows port => w.ImguiKept rows port

theorem Kept.native {w : Picker} (h : w.Kept) {items : List String} {cur : Option Nat}
    (hp : w.panel = .native items cur) : w.NativeKept items cur := by
  unfold Kept at h
  rwa [hp] at h

theorem Kept.imgui {w : Picker} (h : w.Kept) {rows : List String} {port : String}
    (hp : w.panel = .imgui rows port) : w.ImguiKept rows port := by
  unfold Kept at h
  rwa [hp] at h

theorem rowKey_shownName (busyName : String) (p : ListedPort) :
    rowKey (shownName busyName p) = rowKey p.name := by
  unfold shownName
  split
  · have hlist : (p.name ++ "\t（被占用）").toList =
        p.name.toList ++ '\t' :: "（被占用）".toList := by
      rw [String.toList_append]
      rfl
    unfold rowKey
    rw [hlist]
    congr 1
    induction p.name.toList with
    | nil => rfl
    | cons c cs ih =>
      rw [List.cons_append, List.takeWhile_cons, List.takeWhile_cons, ih]
  · rfl

theorem shownName_eq_empty (busyName : String) (p : ListedPort) :
    shownName busyName p = "" ↔ p.name = "" := by
  unfold shownName
  split
  · rename_i h
    simp [h.1]
  · rfl

/-- The rows that the bridge keeps have the keys of the ports. -/
theorem setPorts_keys (busyName : String) (ports : List ListedPort) :
    (setPorts (ports.map (shownName busyName))).map rowKey =
      ((ports.map (·.name)).filter (· ≠ "")).map rowKey := by
  unfold setPorts
  induction ports with
  | nil => rfl
  | cons p ports ih =>
    rw [List.map_cons, List.map_cons]
    by_cases hname : p.name = ""
    · rw [List.filter_cons_of_neg (by simp [shownName_eq_empty, hname]),
        List.filter_cons_of_neg (by simp [hname]), ih]
    · rw [List.filter_cons_of_pos (by simp [shownName_eq_empty, hname]),
        List.filter_cons_of_pos (by simp [hname]), List.map_cons, List.map_cons, ih,
        rowKey_shownName]

theorem findKeyIndex_eq_some {keys : List String} {want : String} {i : Nat}
    (h : findKeyIndex keys want = some i) : keys[i]? = some want := by
  unfold findKeyIndex at h
  split at h
  · cases h
  · obtain ⟨hi, hget, -⟩ := List.idxOf?_eq_some_iff.mp h
    rw [List.getElem?_eq_getElem hi, hget]

/-- Every row of the dropdown shows what it stands for. -/
theorem comboRows_reads (ports : List ListedPort) (want : String) :
    List.Forall₂ Reads (comboRows ports want).1 (comboRows ports want).2 := by
  have hports : List.Forall₂ Reads (ports.map comboLabel) (ports.map portKey) := by
    rw [List.forall₂_map_left_iff, List.forall₂_map_right_iff, List.forall₂_same]
    exact fun p _ => .inl ⟨p, rfl, rfl⟩
  unfold comboRows
  dsimp only [portComboEntries]
  split
  · exact List.rel_append hports (.cons (.inr rfl) .nil)
  · exact hports

/-- The row that is selected stands for the port that is wanted. -/
theorem comboRows_selected (ports : List ListedPort) (want : String) :
    ((if findKeyIndex (portComboEntries ports).2 want = none ∧ want ≠ "" then some ports.length
      else findKeyIndex (portComboEntries ports).2 want).bind
        fun i => (comboRows ports want).2[i]?).getD "" = want := by
  unfold comboRows
  dsimp only
  split
  · rw [Option.bind_some, List.getElem?_append_right (by simp [portComboEntries])]
    simp [portComboEntries]
  · rename_i hfound
    cases hindex : findKeyIndex (portComboEntries ports).2 want with
    | none =>
      have hwant : want = "" := by
        by_contra hne
        exact hfound ⟨hindex, hne⟩
      rw [hwant]
      rfl
    | some i =>
      rw [Option.bind_some, findKeyIndex_eq_some hindex]
      rfl

/-- Nothing that the selection is read from has changed. -/
theorem Kept.congr {w w' : Picker} (h : w.Kept) (hpanel : w'.panel = w.panel)
    (himgui : w'.imguiPort = w.imguiPort) (hkeys : w'.portKeys = w.portKeys)
    (hwant : w'.portWant = w.portWant) (hnames : w'.names = w.names)
    (hchosen : w'.chosen = w.chosen) : w'.Kept := by
  unfold Kept
  rw [hpanel]
  cases hp : w.panel with
  | native items cur =>
    have hold := h.native hp
    have hlive : w'.liveWant cur = w.liveWant cur := by
      unfold liveWant
      rw [hkeys, hwant]
    exact ⟨by rw [hkeys, hnames]; exact hold.names, by rw [hnames]; exact hold.rows,
      by rw [hlive, hchosen]; exact hold.live,
      by rw [hkeys, hnames, hchosen]; exact hold.selected⟩
  | imgui rows port =>
    have hold := h.imgui hp
    exact ⟨by rw [hchosen]; exact hold.buffer, by rw [hnames]; exact hold.keys,
      by rw [himgui]; exact hold.named⟩

theorem Kept.rememberTexts {w : Picker} (h : w.Kept) (ports : List ListedPort)
    (want : String) : (w.rememberTexts ports want).Kept := by
  unfold Picker.rememberTexts
  split
  · exact h.congr rfl rfl rfl rfl rfl rfl
  · exact h

theorem Kept.rememberImguiDesc {w : Picker} (h : w.Kept) (ports : List ListedPort)
    (want : String) : (w.rememberImguiDesc ports want).Kept := by
  unfold Picker.rememberImguiDesc
  split
  · exact h
  · exact h.rememberTexts ports want

theorem Kept.setPortPresent {w : Picker} (h : w.Kept) (present : Bool) :
    (w.setPortPresent present).Kept := h.congr rfl rfl rfl rfl rfl rfl

theorem Kept.tellPorts {w : Picker} (h : w.Kept) (ports : List ListedPort) (want : String)
    (present : Bool) (enumErr : Option Int) :
    (w.tellPorts ports want present enumErr).Kept := by
  unfold Picker.tellPorts
  repeat' split
  all_goals exact h.congr rfl rfl rfl rfl rfl rfl

theorem Kept.tellImguiPorts {w : Picker} (h : w.Kept) (ports : List ListedPort)
    (want : String) (present : Bool) (enumErr : Option Int) :
    (w.tellImguiPorts ports want present enumErr).Kept := by
  unfold Picker.tellImguiPorts
  repeat' split
  all_goals exact h.congr rfl rfl rfl rfl rfl rfl

/-- The rows are built anew and the buffer is not touched. -/
theorem Kept.refreshImguiPorts {w : Picker} (h : w.Kept) (ports : List ListedPort)
    (enumErr : Option Int) : (w.refreshImguiPorts ports enumErr).1.Kept := by
  unfold Picker.refreshImguiPorts
  split
  · exact h
  · rename_i rows port hp
    have hold := h.imgui hp
    exact ⟨hold.buffer, setPorts_keys _ _, hold.named⟩

/-- The dropdown is built anew around the port that was chosen. -/
theorem kept_rebuildCombo (w : Picker) (ports : List ListedPort) :
    (w.rebuildCombo ports w.chosen).Kept := by
  have hselected := comboRows_selected ports w.chosen
  unfold rebuildCombo
  dsimp only
  set sel := if findKeyIndex (portComboEntries ports).2 w.chosen = none ∧ w.chosen ≠ "" then
    some ports.length else findKeyIndex (portComboEntries ports).2 w.chosen
  refine ⟨rfl, comboRows_reads ports w.chosen, ?_, fun _ => hselected⟩
  show (sel.bind fun i => (comboRows ports w.chosen).2[i]?).getD w.chosen = w.chosen
  cases hrow : sel.bind fun i => (comboRows ports w.chosen).2[i]? with
  | none => rfl
  | some name =>
    rw [hrow] at hselected
    exact hselected

theorem Kept.reloadPortCombo {w : Picker} (h : w.Kept) (ports : List ListedPort)
    (enumErr : Option Int) : (w.reloadPortCombo ports enumErr).Kept := by
  unfold Picker.reloadPortCombo
  split
  · exact h
  · rename_i items cur hp
    dsimp only
    rw [(h.native hp).live]
    have hbuilt := w.kept_rebuildCombo (w.markBusy ports)
    apply Kept.tellPorts
    apply Kept.setPortPresent
    split
    · exact hbuilt.rememberTexts _ _
    · exact hbuilt

/-- Both panels keep the selection where an enumeration is applied. -/
theorem Kept.applyPorts {w : Picker} (h : w.Kept) (ports : List ListedPort)
    (enumErr : Option Int) : (w.applyPorts ports enumErr).Kept := by
  have hsigned : Kept { w with portsSignature := some (portListSignature ports) } :=
    h.congr rfl rfl rfl rfl rfl rfl
  unfold Picker.applyPorts
  dsimp only
  split
  · exact hsigned.reloadPortCombo ports enumErr
  · have hrefreshed := hsigned.refreshImguiPorts ports enumErr
    exact ((hrefreshed.rememberImguiDesc _ _).setPortPresent _).tellImguiPorts _ _ _ _

theorem Kept.refreshPortsAfterChange {w : Picker} (h : w.Kept) (ports : List ListedPort)
    (enumErr : Option Int) : (w.refreshPortsAfterChange ports enumErr).Kept := by
  have hclear : Kept { w with portBusyName := "" } := h.congr rfl rfl rfl rfl rfl rfl
  unfold Picker.refreshPortsAfterChange
  dsimp only
  split
  · exact hclear.applyPorts ports enumErr
  · exact hclear

theorem Kept.pollPortsBackstop {w : Picker} (h : w.Kept) (ports : List ListedPort)
    (enumErr : Option Int) : (w.pollPortsBackstop ports enumErr).Kept := by
  unfold Picker.pollPortsBackstop
  split
  · exact h
  · exact h.congr rfl rfl rfl rfl rfl rfl

theorem Kept.runDeferred {w w' : Picker} (h : w.Kept) (hrun : w.runDeferred = some w') :
    w'.Kept := by
  unfold Picker.runDeferred at hrun
  split at hrun
  · cases hrun
  · rename_i ports enumErr jobs _
    cases hrun
    have hpopped : Kept { w with deferQueue := jobs } := h.congr rfl rfl rfl rfl rfl rfl
    split
    · exact hpopped.applyPorts ports enumErr
    · exact hpopped

theorem Kept.refresh {w : Picker} (h : w.Kept) (ports : List ListedPort)
    (enumErr : Option Int) : (w.refresh ports enumErr).Kept := by
  have hclear : Kept { w with portBusyName := "" } := h.congr rfl rfl rfl rfl rfl rfl
  unfold Picker.refresh
  split
  · exact hclear.applyPorts ports enumErr
  · exact h.refreshImguiPorts ports enumErr

theorem Kept.markPortOccupied {w : Picker} (h : w.Kept) (name : String)
    (ports : List ListedPort) (enumErr : Option Int) :
    (w.markPortOccupied name ports enumErr).Kept := by
  have hmarked : Kept { w with portBusyName := name } := h.congr rfl rfl rfl rfl rfl rfl
  unfold Picker.markPortOccupied
  split
  · exact h
  · dsimp only
    split
    · exact hmarked.reloadPortCombo ports enumErr
    · exact hmarked.refreshImguiPorts ports enumErr

/-- A pick makes a row of the list the selection. -/
theorem Kept.pick {w w' : Picker} (h : w.Kept) {row : Nat} (hpick : w.pick row = some w') :
    w'.Kept := by
  unfold Picker.pick at hpick
  split at hpick
  · rename_i items cur hp
    have hold := h.native hp
    split at hpick
    · rename_i hrow
      cases hpick
      have hget : ∃ name, w.names[row]? = some name :=
        ⟨_, List.getElem?_eq_getElem (hold.rows.length_eq ▸ hrow)⟩
      obtain ⟨name, hname⟩ := hget
      refine ⟨hold.names, hold.rows, ?_, fun _ => rfl⟩
      show ((w.portKeys.bind fun keys => keys[row]?).getD w.portWant) = (w.names[row]?).getD ""
      have hnames := hold.names
      cases hkeys : w.portKeys with
      | none =>
        rw [hkeys] at hnames
        rw [← hnames] at hname
        cases hname
      | some keys =>
        rw [hkeys] at hnames
        rw [← hnames] at hname ⊢
        rw [Option.bind_some, Option.getD_some] at *
        rw [hname]
        rfl
    · cases hpick
  · rename_i rows port hp
    have hold := h.imgui hp
    obtain ⟨text, htext, hkey⟩ := Option.bind_eq_some_iff.mp hpick
    dsimp only at hkey
    split at hkey
    · cases hkey
      refine ⟨?_, hold.keys, fun hempty => Option.some.inj hempty⟩
      show rowKey text = (w.names[row]?).getD ""
      rw [← hold.keys, List.getElem?_map, htext]
      rfl
    · cases hkey

theorem Kept.syncPort {w : Picker} (h : w.Kept) : w.syncPort.Kept := by
  unfold Picker.syncPort
  split
  · exact h
  · rename_i rows port hp
    have hold := h.imgui hp
    unfold Kept
    rw [hp]
    exact ⟨hold.buffer, hold.keys, fun hempty => Option.some.inj hempty⟩

/-- Asking for an open changes nothing but the view-model and the status. -/
theorem Kept.coreOpen {w : Picker} (h : w.Kept) : w.coreOpen.1.Kept := by
  have hsync := h.syncPort
  unfold Picker.coreOpen
  dsimp only
  split
  · exact hsync
  · split
    · exact hsync.congr rfl rfl rfl rfl rfl rfl
    · split
      · exact hsync.congr rfl rfl rfl rfl rfl rfl
      · exact hsync.congr rfl rfl rfl rfl rfl rfl

theorem Kept.adopt {w w' : Picker} (h : w.Kept) {target : String} {ports : List ListedPort}
    {enumErr : Option Int} (hadopt : w.adopt target ports enumErr = some w') : w'.Kept := by
  unfold Picker.adopt at hadopt
  split at hadopt
  · cases hadopt
  · rename_i htarget
    cases hadopt
    apply Kept.refreshImguiPorts
    unfold Kept
    cases hp : w.panel with
    | native items cur =>
      have hold := h.native hp
      exact ⟨hold.names, hold.rows, hold.live, hold.selected⟩
    | imgui rows port =>
      have hold := h.imgui hp
      exact ⟨hold.buffer, hold.keys, fun hempty => absurd (Option.some.inj hempty) htarget⟩

/-- Every step keeps the selection. -/
theorem Kept.step {w w' : Picker} (h : w.Kept) {op : Op} (hstep : w.step op = some w') :
    w'.Kept := by
  cases op with
  | pick row => exact h.pick hstep
  | refresh ports enumErr =>
    cases hstep
    exact h.refresh ports enumErr
  | nodesChanged ports enumErr =>
    cases hstep
    exact h.refreshPortsAfterChange ports enumErr
  | backstop ports enumErr =>
    cases hstep
    exact h.pollPortsBackstop ports enumErr
  | deferred => exact h.runDeferred hstep
  | openFailed name ports enumErr =>
    cases hstep
    exact h.markPortOccupied name ports enumErr
  | adopt target ports enumErr => exact h.adopt hstep
  | activateSim ports enumErr =>
    cases hstep
    have hactive : Kept { w with simActive := true } := h.congr rfl rfl rfl rfl rfl rfl
    exact hactive.refreshImguiPorts ports enumErr
  | syncSettings =>
    cases hstep
    exact h.syncPort
  | frame =>
    cases hstep
    unfold commitStatus
    split
    · exact h.congr rfl rfl rfl rfl rfl rfl
    · exact h
  | coreOpen =>
    cases hstep
    exact h.coreOpen
  | session hsm =>
    cases hstep
    exact h.congr rfl rfl rfl rfl rfl rfl

theorem kept_start (imgui : Bool) (port : String) : (start imgui port).Kept := by
  cases imgui with
  | true => exact ⟨rfl, rfl, nofun⟩
  | false => exact ⟨rfl, .nil, rfl, nofun⟩

theorem kept_reach {imgui : Bool} {port : String} {w : Picker}
    (h : Transition.Reach (machine imgui port) w) : w.Kept :=
  h.invariant (kept_start imgui port) fun _ _ _ hkept _ hstep => hkept.step hstep

/-! ## What an open asks for -/

/-- The list of ports has been built; the buffer of the ImGui panel needs none. -/
def Built (w : Picker) : Bool :=
  match w.panel with
  | .native _ _ => w.portKeys.isSome
  | .imgui _ _ => true

/-- The text that the panel shows as selected. -/
def shownText (w : Picker) : Option String :=
  match w.panel with
  | .native items cur => cur.bind fun i => items[i]?
  | .imgui _ port => some port

/-- The port of the configuration, behind the open action. -/
theorem Kept.serialPort {w : Picker} (h : w.Kept) :
    w.syncPort.serialPort = if w.Built then w.chosen else "" := by
  unfold Built Picker.syncPort
  cases hp : w.panel with
  | imgui rows port =>
    rw [if_pos rfl, ← (h.imgui hp).buffer]
    rfl
  | native items cur =>
    have hold := h.native hp
    dsimp only
    unfold Picker.serialPort
    rw [hp]
    dsimp only
    have hnames := hold.names
    have hrows := hold.rows
    cases hkeys : w.portKeys with
    | none =>
      rw [hkeys] at hnames
      rw [← hnames] at hrows
      cases hrows
      cases cur <;> rfl
    | some keys =>
      rw [hkeys] at hnames
      have hselected := hold.selected (by rw [hkeys]; rfl)
      rw [← hnames, Option.getD_some] at hselected hrows
      rw [Option.isSome_some, if_pos rfl, ← hselected, Option.bind_some]
      cases cur with
      | none => rfl
      | some i =>
        rw [Option.bind_some, Option.bind_some]
        cases hkey : keys[i]? with
        | some key => rfl
        | none =>
          have hitem : items[i]? = none := by
            rw [List.getElem?_eq_none_iff] at hkey ⊢
            exact hrows.length_eq ▸ hkey
          rw [hitem]
          rfl

/-- What an open asks for. -/
theorem coreOpen_eq_some {w : Picker} {name : String} :
    w.coreOpen.2 = some name ↔ w.vm.hsm.canOpen = true ∧ w.vm.portPresent = true ∧
      w.syncPort.serialPort ≠ "" ∧ w.syncPort.serialPort = name := by
  have hvm : w.syncPort.vm = w.vm := by
    unfold syncPort
    split <;> rfl
  have hserial : ∀ vm, Picker.serialPort { w.syncPort with vm := vm } = w.syncPort.serialPort :=
    fun _ => rfl
  have hintent : w.vm.intentOpen.2 = w.vm.hsm.canOpen := by
    show w.vm.hsm.intentOpen.2 = _
    unfold Hsm.intentOpen
    split
    · rename_i hcan
      exact hcan.symm
    · rename_i hcan
      exact (Bool.eq_false_iff.mpr hcan).symm
  unfold coreOpen
  dsimp only
  rw [hvm, hintent]
  cases hcan : w.vm.hsm.canOpen with
  | false => simp
  | true =>
    have hpresent : w.vm.intentOpen.1.uiState.portPresent = w.vm.portPresent := rfl
    rw [hpresent, hserial, if_neg (by simp)]
    cases hp : w.vm.portPresent with
    | false => simp
    | true =>
      rw [if_neg (by simp)]
      by_cases hport : w.syncPort.serialPort = ""
      · simp [hport]
      · simp [hport]

/-- A text that shows the port: its name, or a row of the dropdown. -/
def Shows (text name : String) : Prop := text = name ∨ Reads text name

/-- In every run a refresh of the ports, whatever it brings, leaves the selection to the user: an
open asks for the port that was chosen last and for no other, and asks only while it is present;
and what the panel shows as selected is that port, also where it is not listed. -/
theorem choice_is_kept {imgui : Bool} {port : String} {w : Picker}
    (h : Transition.Reach (machine imgui port) w) :
    (∀ name, w.coreOpen.2 = some name ↔ w.vm.hsm.canOpen = true ∧ w.vm.portPresent = true ∧
      w.Built = true ∧ w.chosen ≠ "" ∧ name = w.chosen) ∧
    (w.Built = true → w.chosen ≠ "" → ∃ text, w.shownText = some text ∧ Shows text w.chosen) := by
  have hkept := kept_reach h
  constructor
  · intro name
    rw [coreOpen_eq_some, hkept.serialPort]
    cases w.Built with
    | false => simp
    | true =>
      rw [if_pos rfl]
      constructor
      · rintro ⟨hcan, hpresent, hchosen, rfl⟩
        exact ⟨hcan, hpresent, rfl, hchosen, rfl⟩
      · rintro ⟨hcan, hpresent, -, hchosen, rfl⟩
        exact ⟨hcan, hpresent, hchosen, rfl⟩
  · intro hbuilt hchosen
    unfold Built at hbuilt
    unfold shownText
    cases hp : w.panel with
    | imgui rows buffer =>
      exact ⟨buffer, rfl, .inl (hkept.imgui hp).buffer⟩
    | native items cur =>
      rw [hp] at hbuilt
      have hold := hkept.native hp
      have hselected := hold.selected hbuilt
      cases cur with
      | none => exact absurd hselected.symm hchosen
      | some i =>
        rw [Option.bind_some] at hselected
        cases hname : w.names[i]? with
        | none =>
          rw [hname] at hselected
          exact absurd hselected.symm hchosen
        | some name =>
          rw [hname, Option.getD_some] at hselected
          obtain ⟨hi, hget⟩ := List.getElem?_eq_some_iff.mp hname
          have hitem : i < items.length := hold.rows.length_eq ▸ hi
          refine ⟨items[i], List.getElem?_eq_getElem hitem, .inr ?_⟩
          rw [← hselected, ← hget]
          exact hold.rows.get hitem hi

def port3 : ListedPort := { name := "COM3", description := "", hardwareId := "" }

/-- The port of the file is not listed, another one is picked and then unplugged. -/
theorem choice_is_kept_unplugged : ∃ w, Transition.Reach (machine false "COM7") w ∧
    (w.chosen = "COM3" ∧ w.vm.portPresent = false) ∧
    (∀ name, w.coreOpen.2 = some name ↔ w.vm.hsm.canOpen = true ∧ w.vm.portPresent = true ∧
      w.Built = true ∧ w.chosen ≠ "" ∧ name = w.chosen) ∧
    (w.Built = true → w.chosen ≠ "" →
      ∃ text, w.shownText = some text ∧ Shows text w.chosen) := by
  obtain ⟨w, hw, hchosen⟩ := Transition.exists_of_execUnder (m := machine false "COM7")
    (c := fun _ _ => True)
    (p := fun w => w.chosen = "COM3" ∧ w.vm.portPresent = false)
    [.refresh [port3] none, .pick 0, .nodesChanged [] none] (by decide)
  exact ⟨w, hw, hchosen, choice_is_kept hw⟩

/-! ## The presence in the ImGui panel -/

/-- The names that a refresh offers. -/
def offered (w : Picker) (ports : List ListedPort) : List String :=
  (if w.simActive then ports ++ simPorts else ports).map (·.name)

theorem tellImguiPorts_vm (w : Picker) (ports : List ListedPort) (want : String)
    (present : Bool) (enumErr : Option Int) :
    (w.tellImguiPorts ports want present enumErr).vm = w.vm := by
  unfold tellImguiPorts
  repeat' split
  all_goals rfl

theorem setPortPresent_portPresent (w : Picker) (present : Bool) :
    (w.setPortPresent present).vm.portPresent = present := by
  show (w.vm.setPortPresent present).1.portPresent = present
  unfold ViewModel.setPortPresent
  split
  · rename_i h
    exact h
  · rfl

theorem imguiWant_eq_serialPort {w : Picker} (h : w.Kept) {rows : List String} {port : String}
    (hp : w.panel = .imgui rows port) : w.imguiWant port = w.serialPort := by
  unfold imguiWant serialPort
  rw [hp]
  dsimp only
  cases himgui : w.imguiPort with
  | none => rfl
  | some name =>
    rw [Option.getD_some, Option.getD_some]
    split
    · rename_i hempty
      rw [hempty] at himgui ⊢
      exact (h.imgui hp).named himgui
    · rfl

/-- An enumeration that is applied judges the port that is selected. -/
theorem applyPorts_present {w : Picker} (h : w.Kept) {rows : List String} {port : String}
    (hp : w.panel = .imgui rows port) (ports : List ListedPort) (enumErr : Option Int) :
    (w.applyPorts ports enumErr).vm.portPresent = decide (w.serialPort ∈ w.offered ports) := by
  rw [← imguiWant_eq_serialPort h hp]
  unfold applyPorts
  dsimp only
  rw [hp]
  dsimp only
  rw [tellImguiPorts_vm, setPortPresent_portPresent]
  unfold refreshImguiPorts offered
  dsimp only
  rw [Bool.eq_iff_iff, List.any_eq_true, decide_eq_true_iff, List.mem_map]
  constructor
  · rintro ⟨p, hmem, hname⟩
    exact ⟨p, hmem, of_decide_eq_true hname⟩
  · rintro ⟨p, hmem, hname⟩
    exact ⟨p, hmem, decide_eq_true hname⟩

/-- A name that `xcom.list_ports` can be told apart by: it is not empty and holds no byte `1`. -/
def Separable (p : ListedPort) : Prop := p.name ≠ "" ∧ Char.ofNat 1 ∉ p.name.toList

theorem sorted_of_signature {ports : List ListedPort} (h : ∀ p ∈ ports, Separable p) :
    Fields.runs (· == Char.ofNat 1) (portListSignature ports).toList =
      ((ports.map (·.name)).insertionSort (· ≤ ·)).map String.toList := by
  have hword : ∀ word ∈ ((ports.map (·.name)).insertionSort (· ≤ ·)).map String.toList,
      word ≠ [] ∧ Char.ofNat 1 ∉ word := by
    intro word hmem
    obtain ⟨name, hname, rfl⟩ := List.mem_map.mp hmem
    obtain ⟨p, hp, rfl⟩ := List.mem_map.mp (List.mem_insertionSort _ |>.mp hname)
    refine ⟨fun hnil => (h p hp).1 (String.toList_eq_nil_iff.mp hnil), (h p hp).2⟩
  unfold portListSignature
  rw [String.toList_intercalate]
  refine Fields.runs_intercalate (by decide) (fun word hmem c hc => ?_)
    fun word hmem => (hword word hmem).1
  rw [beq_eq_false_iff_ne]
  rintro rfl
  exact (hword word hmem).2 hc

/-- The order of an enumeration does not count. -/
theorem portListSignature_perm {listed ports : List ListedPort}
    (h : (ports.map (·.name)).Perm (listed.map (·.name))) :
    portListSignature ports = portListSignature listed := by
  unfold portListSignature
  congr 1
  apply List.Perm.eq_of_sortedLE List.sortedLE_insertionSort List.sortedLE_insertionSort
  exact (List.perm_insertionSort _ _).trans (h.trans (List.perm_insertionSort _ _).symm)

/-- Enumerations have one signature just where they have the same names, in any order. -/
theorem portListSignature_eq_iff {listed ports : List ListedPort}
    (hlisted : ∀ p ∈ listed, Separable p) (hports : ∀ p ∈ ports, Separable p) :
    portListSignature ports = portListSignature listed ↔
      (ports.map (·.name)).Perm (listed.map (·.name)) := by
  refine ⟨fun hsame => ?_, portListSignature_perm⟩
  have hsorted := sorted_of_signature hports
  rw [hsame, sorted_of_signature hlisted] at hsorted
  have hnames := List.map_injective_iff.mpr (fun _ _ => String.toList_injective) hsorted
  have hports := List.perm_insertionSort (· ≤ ·) (ports.map (·.name))
  rw [← hnames] at hports
  exact hports.symm.trans (List.perm_insertionSort _ _)

/-- What happens between two changes of the ports: a device change is none of it, and a backstop
finds the names that were `listed`. -/
def Unchanged (listed : List ListedPort) (_ : Picker) : Op → Prop
  | .nodesChanged _ _ => False
  | .backstop ports _ => (ports.map (·.name)).Perm (listed.map (·.name))
  | .pick _ | .refresh _ _ | .deferred | .openFailed _ _ _ | .adopt _ _ _ | .activateSim _ _
  | .syncSettings | .frame | .coreOpen | .session _ => True

/-- The ImGui panel after `listed` was applied, with no other enumeration waiting. -/
structure Settled (listed : List ListedPort) (present : Bool) (w : Picker) : Prop where
  imgui : ∃ rows port, w.panel = .imgui rows port
  signature : w.portsSignature = some (portListSignature listed)
  queue : w.deferQueue = []
  present : w.vm.portPresent = present

theorem Settled.refreshImguiPorts {listed : List ListedPort} {present : Bool} {w : Picker}
    (h : w.Settled listed present) (ports : List ListedPort) (enumErr : Option Int) :
    (w.refreshImguiPorts ports enumErr).1.Settled listed present := by
  unfold Picker.refreshImguiPorts
  split
  · exact h
  · exact ⟨⟨_, _, rfl⟩, h.signature, h.queue, h.present⟩

theorem Settled.syncPort {listed : List ListedPort} {present : Bool} {w : Picker}
    (h : w.Settled listed present) : w.syncPort.Settled listed present := by
  unfold Picker.syncPort
  split
  · exact h
  · rename_i rows port hp
    exact ⟨⟨rows, port, hp⟩, h.signature, h.queue, h.present⟩

theorem rejectOpen_portPresent (vm : ViewModel) :
    vm.rejectOpen.1.portPresent = vm.portPresent := by
  unfold ViewModel.rejectOpen ViewModel.showing
  split <;> rfl

theorem Settled.coreOpen {listed : List ListedPort} {present : Bool} {w : Picker}
    (h : w.Settled listed present) : w.coreOpen.1.Settled listed present := by
  have hsync := h.syncPort
  unfold Picker.coreOpen
  dsimp only
  split
  · exact hsync
  · split
    · exact ⟨hsync.imgui, hsync.signature, hsync.queue,
        (rejectOpen_portPresent _).trans hsync.present⟩
    · split
      · exact ⟨hsync.imgui, hsync.signature, hsync.queue,
          (rejectOpen_portPresent _).trans hsync.present⟩
      · exact ⟨hsync.imgui, hsync.signature, hsync.queue, hsync.present⟩

/-- Without a change of the ports nothing judges the selection again. -/
theorem Settled.step {listed : List ListedPort} {present : Bool} {w w' : Picker}
    (h : w.Settled listed present) {op : Op} (hop : Unchanged listed w op)
    (hstep : w.step op = some w') : w'.Settled listed present := by
  obtain ⟨rows, port, hp⟩ := h.imgui
  cases op with
  | nodesChanged ports enumErr => exact hop.elim
  | pick row =>
    replace hstep : w.pick row = some w' := hstep
    unfold Picker.pick at hstep
    rw [hp] at hstep
    obtain ⟨text, -, hkey⟩ := Option.bind_eq_some_iff.mp hstep
    dsimp only at hkey
    split at hkey
    · cases hkey
      exact ⟨⟨_, _, rfl⟩, h.signature, h.queue, h.present⟩
    · cases hkey
  | refresh ports enumErr =>
    cases hstep
    unfold Picker.refresh
    rw [hp]
    exact h.refreshImguiPorts ports enumErr
  | backstop ports enumErr =>
    cases hstep
    unfold pollPortsBackstop
    rw [if_pos (.inr (by rw [portListSignature_perm hop, h.signature]))]
    exact h
  | deferred =>
    replace hstep : w.runDeferred = some w' := hstep
    unfold runDeferred at hstep
    rw [h.queue] at hstep
    cases hstep
  | openFailed name ports enumErr =>
    cases hstep
    have hmarked : Settled listed present { w with portBusyName := name } :=
      ⟨h.imgui, h.signature, h.queue, h.present⟩
    unfold markPortOccupied
    split
    · exact h
    · dsimp only
      split
      · rename_i hnative
        rw [hp] at hnative
        cases hnative
      · exact hmarked.refreshImguiPorts ports enumErr
  | adopt target ports enumErr =>
    replace hstep : w.adopt target ports enumErr = some w' := hstep
    unfold Picker.adopt at hstep
    split at hstep
    · cases hstep
    · cases hstep
      have hadopted : Settled listed present { w with imguiPort := some target } :=
        ⟨h.imgui, h.signature, h.queue, h.present⟩
      exact hadopted.refreshImguiPorts ports enumErr
  | activateSim ports enumErr =>
    cases hstep
    have hactive : Settled listed present { w with simActive := true } :=
      ⟨h.imgui, h.signature, h.queue, h.present⟩
    exact hactive.refreshImguiPorts ports enumErr
  | syncSettings =>
    cases hstep
    exact h.syncPort
  | frame =>
    cases hstep
    unfold commitStatus
    split
    · exact ⟨h.imgui, h.signature, h.queue, h.present⟩
    · exact h
  | coreOpen =>
    cases hstep
    exact h.coreOpen
  | session hsm =>
    cases hstep
    exact ⟨h.imgui, h.signature, h.queue, h.present⟩

/-- The presence in the ImGui panel waits for a change of the ports: after an enumeration was
applied neither a pick nor the refresh button nor a backstop that finds the same names judges the
selection again, so an open stays refused whatever is chosen; and the first device change, or
backstop with other names, that is let through judges the port that is selected then. -/
theorem presence_waits_for_change {imgui : Bool} {port : String} {w : Picker}
    {rows : List String} {buffer : String} {listed : List ListedPort}
    (h : Transition.Reach (machine imgui port) w) (himgui : w.panel = .imgui rows buffer)
    (hqueue : w.deferQueue = []) (hsignature : w.portsSignature = some (portListSignature listed))
    (hlisted : ∀ p ∈ listed, Separable p) :
    ∀ w', Transition.ReachUnder ⟨w, step⟩ (Unchanged listed) w' →
      w'.vm.portPresent = w.vm.portPresent ∧
      (w.vm.portPresent = false → w'.coreOpen.2 = none) ∧
      ∀ ports enumErr, w'.portsRefreshAllowed = true →
        (w'.refreshPortsAfterChange ports enumErr).vm.portPresent =
          decide (w'.serialPort ∈ w'.offered ports) ∧
        ((∀ p ∈ ports, Separable p) → ¬ (ports.map (·.name)).Perm (listed.map (·.name)) →
          ((w'.pollPortsBackstop ports enumErr).runDeferred.map fun v => v.vm.portPresent) =
            some (decide (w'.serialPort ∈ w'.offered ports))) := by
  intro w' hrun
  have hboth : w'.Kept ∧ w'.Settled listed w.vm.portPresent := by
    have hstart : w.Settled listed w.vm.portPresent :=
      ⟨⟨_, _, himgui⟩, hsignature, hqueue, rfl⟩
    exact hrun.invariant (p := fun v => v.Kept ∧ v.Settled listed w.vm.portPresent)
      ⟨kept_reach h, hstart⟩
      fun _ _ _ hv hop hstep => ⟨hv.1.step hstep, hv.2.step hop hstep⟩
  obtain ⟨hkept, hsettled⟩ := hboth
  obtain ⟨rows', port', hp⟩ := hsettled.imgui
  refine ⟨hsettled.present, fun habsent => ?_, fun ports enumErr hallowed => ⟨?_, ?_⟩⟩
  · cases hopen : w'.coreOpen.2 with
    | none => rfl
    | some name =>
      have hpresent := (coreOpen_eq_some.mp hopen).2.1
      rw [hsettled.present, habsent] at hpresent
      cases hpresent
  · have hclear : Kept { w' with portBusyName := "" } := hkept.congr rfl rfl rfl rfl rfl rfl
    have hstill : Picker.portsRefreshAllowed { w' with portBusyName := "" } = true := hallowed
    unfold refreshPortsAfterChange
    dsimp only
    rw [if_pos hstill, applyPorts_present hclear hp]
    rfl
  · intro hports hchanged
    have hother : ¬ (w'.portsRefreshAllowed = false ∨
        some (portListSignature ports) = w'.portsSignature) := by
      rw [hsettled.signature, hallowed]
      rintro (hfalse | hsame)
      · cases hfalse
      · exact hchanged ((portListSignature_eq_iff hlisted hports).mp (Option.some.inj hsame))
    have hclear : Kept { w' with portBusyName := "", deferQueue := [] } :=
      hkept.congr rfl rfl rfl rfl rfl rfl
    have hstill : Picker.portsRefreshAllowed { w' with portBusyName := "", deferQueue := [] } =
        true := hallowed
    unfold pollPortsBackstop
    rw [if_neg hother, hsettled.queue, List.nil_append]
    unfold runDeferred
    dsimp only
    rw [Option.map_some, if_pos hstill, applyPorts_present hclear hp]
    rfl

/-- The port of the file is not listed; the one that is listed is picked and not opened, until
something else changes. -/
theorem presence_waits_for_change_picked : ∃ w w', w.vm.portPresent = false ∧
    step w (.pick 0) = some w' ∧ w'.chosen = "COM3" ∧ w'.coreOpen.2 = none ∧
    ∀ ports enumErr, w'.portsRefreshAllowed = true →
      (w'.refreshPortsAfterChange ports enumErr).vm.portPresent =
        decide (w'.serialPort ∈ w'.offered ports) := by
  have hreach : Transition.Reach (machine true "COM7")
      ((start true "COM7").refreshPortsAfterChange [port3] none) :=
    .step (e := .nodesChanged [port3] none) .init trivial rfl
  have hpick : step ((start true "COM7").refreshPortsAfterChange [port3] none) (.pick 0) =
      some _ := rfl
  have hseparable : ∀ p ∈ [port3], Separable p := by
    intro p hp
    rw [List.mem_singleton.mp hp]
    exact ⟨by decide, by decide⟩
  have hsignature : ((start true "COM7").refreshPortsAfterChange [port3] none).portsSignature =
      some (portListSignature [port3]) := rfl
  obtain ⟨-, hrefused, hjudged⟩ := presence_waits_for_change hreach rfl rfl hsignature hseparable _
    (.step (e := .pick 0) .init trivial hpick)
  exact ⟨_, _, rfl, hpick, by decide, hrefused rfl, fun ports enumErr hallowed =>
    (hjudged ports enumErr hallowed).1⟩

end Picker

end PortList

end Xcom.ViewModel
