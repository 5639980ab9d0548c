import Xcom.Abi.Status
import Xcom.ViewModel.Operations

/-!
# The grace driver

`Window:poll_status` with its watchdogs, `Window:_drive_reconnect` with the choice of the
port, and the open and close of the user, as far as they reach the view-model, the core's
open and close, and the fields for the grace window.
-/

namespace Xcom.ViewModel

/-- An entry of `xcom.list_ports`; an absent text is empty. -/
structure PortInfo where
  name : String
  description : String
  hardwareId : String
  deriving DecidableEq, Repr

/-- What the grace driver asks of the core. -/
inductive CoreCall
  | close
  | openAsync (port : String)
  deriving DecidableEq, Repr

/-- A call of the grace driver and the number of the window it was made for. -/
structure DriverCall where
  window : Nat
  call : CoreCall
  deriving DecidableEq, Repr

/-- The `_reconnect_*` fields; `phaseOpen` is the phase `"open"`. -/
structure Grace where
  deadline : Option Nat := none
  attempt : Nat := 0
  pending : Bool := false
  phaseOpen : Bool := false
  portDesc : Option String := none
  portHwid : Option String := none
  knownPorts : Option (List String) := none
  candidateNames : Option (List String) := none
  deriving DecidableEq, Repr

/-- The fields a window that ends leaves. -/
def Grace.drop (g : Grace) : Grace :=
  { g with
    deadline := none, pending := false, phaseOpen := false, portDesc := none
    portHwid := none, knownPorts := none }

/-- The fields of the window.  `portState` is `none` before the first snapshot and for a code
that is no state.  `windows` counts the grace windows that were armed and `calls` collects
what the grace driver asked of the core; the source has neither. -/
structure Window where
  vm : ViewModel := {}
  portState : Option PortState := none
  serialPort : String
  portHwid : Option String := none
  graceMs : Nat
  grace : Grace := {}
  openingDeadline : Option Nat := none
  openingNoticeAt : Option Nat := none
  closingDeadline : Option Nat := none
  windows : Nat := 0
  calls : List DriverCall := []
  deriving DecidableEq, Repr

/-- What one poll reads: the time, the snapshot, what each enumeration lists, and the
results of the core. -/
structure PollInput where
  now : Nat
  snapshot : SnapshotTable
  descriptionPorts : List PortInfo
  hardwarePorts : List PortInfo
  presentPorts : List PortInfo
  resolvePorts : List PortInfo
  openStatus : XcomStatus
  openResult : Option XcomStatus
  deriving DecidableEq, Repr

/-- `OPENING_TIMEOUT_MS`. -/
def openingTimeoutMs : Nat := 5000

/-- `OPENING_SILENT_MS`. -/
def openingSilentMs : Nat := 1000

/-- `CLOSING_TIMEOUT_MS`. -/
def closingTimeoutMs : Nat := 5000

/-! ## The choice of the port -/

/-- `_port_description`. -/
def portDescription (ports : List PortInfo) (name : String) : Option String :=
  if name = "" then none
  else
    (ports.find? (·.name = name)).bind fun p =>
      if p.description = "" then none else some p.description

/-- `_port_hardware_id`. -/
def portHardwareId (ports : List PortInfo) (name : String) : Option String :=
  if name = "" then none
  else
    (ports.find? (·.name = name)).bind fun p =>
      if p.hardwareId = "" then none else some p.hardwareId

/-- `_present_port_names`. -/
def presentPortNames (ports : List PortInfo) : List String :=
  (ports.map (·.name)).filter (· ≠ "")

/-- The result of `_resolve_reconnect_port`, and the candidates it leaves. -/
structure Resolved where
  target : String
  matched : Bool
  candidateNames : Option (List String)
  deriving DecidableEq, Repr

/-- `_resolve_reconnect_port`. -/
def resolveReconnectPort (g : Grace) (ports : List PortInfo) (original : String) : Resolved :=
  if original = "" then ⟨original, false, g.candidateNames⟩
  else
    let fresh := ports.filter fun p =>
      p.name ≠ original ∧ p.name ∉ g.knownPorts.getD []
    let hwidCandidates := (fresh.filter fun p =>
      p.hardwareId ≠ "" ∧ some p.hardwareId = g.portHwid).map (·.name)
    let candidates := (fresh.filter fun p =>
      p.description ≠ "" ∧ some p.description = g.portDesc).map (·.name)
    if ports.any (·.name = original) then ⟨original, true, some []⟩
    else
      match hwidCandidates with
      | [candidate] => ⟨candidate, true, some hwidCandidates⟩
      | _ :: _ :: _ => ⟨original, false, some hwidCandidates⟩
      | [] =>
        match candidates with
        | [candidate] => ⟨candidate, true, some candidates⟩
        | _ => ⟨original, false, some candidates⟩

namespace Window

/-! ## The grace window -/

/-- A grace window ends when the session left RECONNECTING without the driver. -/
def abandonReconnect (w : Window) : Window :=
  if w.grace.deadline.isSome ∧ ¬ w.vm.recovering then
    { w with grace := { w.grace.drop with attempt := 0, candidateNames := none } }
  else w

/-- A fault of a session arms a window. -/
def armReconnect (w : Window) (i : PollInput) : Window :=
  { w with
    vm := (w.vm.enterReconnecting (some i.snapshot.generation)).1
    grace :=
      { deadline := some (i.now + w.graceMs)
        portDesc := portDescription i.descriptionPorts w.serialPort
        portHwid := portHardwareId i.hardwarePorts w.serialPort <|> w.portHwid
        knownPorts := some (presentPortNames i.presentPorts) }
    windows := w.windows + 1 }

/-- A call of the grace driver. -/
def call (w : Window) (c : CoreCall) : Window :=
  { w with calls := w.calls ++ [⟨w.windows, c⟩] }

/-- The adapter came back under another name. -/
def adoptPort (w : Window) (r : Resolved) : Window :=
  let w := { w with grace.candidateNames := r.candidateNames }
  if r.matched ∧ r.target ≠ "" ∧ r.target ≠ w.serialPort then
    { w with serialPort := r.target, grace.pending := false, grace.phaseOpen := false }
  else w

/-- The reset of the core, the reopen after it and the probe of that reopen. -/
def attempt (w : Window) (i : PollInput) : Window :=
  if ¬ w.grace.phaseOpen then { w.call .close with grace.phaseOpen := true }
  else if ¬ w.grace.pending ∧ w.serialPort ≠ "" then
    { w.call (.openAsync w.serialPort) with
      grace.attempt := w.grace.attempt + 1, grace.pending := i.openStatus = .ok }
  else if w.grace.pending ∧ i.openResult ≠ none ∧ i.openResult ≠ some .ok ∧
      i.openResult ≠ some .errBusy then
    { w with grace.pending := false, grace.phaseOpen := false }
  else w

/-- `_drive_reconnect` with an armed deadline. -/
def driveReconnect (w : Window) (deadline : Nat) (i : PollInput) : Window :=
  if i.now ≥ deadline then
    { w with vm := w.vm.reconnectTimeout.1, grace := { w.grace.drop with attempt := 0 } }
  else
    (w.adoptPort (resolveReconnectPort w.grace i.resolvePorts w.serialPort)).attempt i

/-- A snapshot inside the window: only OPENING and OPEN reach the state machine, and only
one that is latched ends the window. -/
def absorb (w : Window) (snap : SnapshotTable) : Window :=
  if snap.portState = some .portOpen ∨ snap.portState = some .portOpening then
    let r := hsmOnPortState w.vm.hsm snap.portState (some snap.generation)
    let w := { w with vm.hsm := r.1 }
    if r.2 then { w with vm := w.vm.settleRecovering.1, grace := w.grace.drop } else w
  else w

/-! ## The poll -/

/-- The OPENING watchdog, and whether it ends the poll. -/
def openingWatchdog (w : Window) (now : Nat) : Window × Bool :=
  if w.vm.hsm.state = .opening then
    match w.openingDeadline with
    | none =>
      ({ w with
        openingDeadline := some (now + openingTimeoutMs)
        openingNoticeAt := some (now + openingSilentMs) }, false)
    | some deadline =>
      if w.openingNoticeAt.any (· ≤ now) then ({ w with openingNoticeAt := none }, false)
      else if now ≥ deadline then
        ({ w with vm := w.vm.forceFault.1, openingDeadline := none, openingNoticeAt := none }, true)
      else (w, false)
  else ({ w with openingDeadline := none, openingNoticeAt := none }, false)

/-- The CLOSING watchdog, and whether it ends the poll. -/
def closingWatchdog (w : Window) (now : Nat) : Window × Bool :=
  if w.vm.hsm.state = .closing then
    match w.closingDeadline with
    | none => ({ w with closingDeadline := some (now + closingTimeoutMs) }, false)
    | some deadline =>
      if now ≥ deadline ∧ w.portState ≠ some .portClosing then
        ({ w with vm := w.vm.forceFault.1, closingDeadline := none }, true)
      else (w, false)
  else ({ w with closingDeadline := none }, false)

/-- The view-model takes the snapshot over. -/
def takeSnapshot (w : Window) (snap : SnapshotTable) : Window :=
  { w with vm := (w.vm.onSnapshot (some snap)).1 }

/-- A FAULT snapshot of a session or of its grace window. -/
def pollFault (w : Window) (i : PollInput) : Window :=
  match w.grace.deadline with
  | some deadline => w.driveReconnect deadline i
  | none => (w.armReconnect i).driveReconnect (i.now + w.graceMs) i

/-- The poll from the snapshot on. -/
def pollSnapshot (w : Window) (i : PollInput) : Window :=
  let w := abandonReconnect { w with portState := i.snapshot.portState }
  let wasOpen := w.vm.hsm.state = .opened ∨ w.vm.hsm.state = .opening
  if i.snapshot.portState = some .portFault ∧ (wasOpen ∨ w.grace.deadline.isSome) then
    w.pollFault i
  else
    match w.grace.deadline with
    | none => w.takeSnapshot i.snapshot
    | some deadline =>
      let w := w.driveReconnect deadline i
      if w.grace.deadline.isSome then w.absorb i.snapshot else w.takeSnapshot i.snapshot

/-- `poll_status`. -/
def pollStatus (w : Window) (i : PollInput) : Window :=
  let opening := w.openingWatchdog i.now
  if opening.2 then opening.1
  else
    let closing := opening.1.closingWatchdog i.now
    if closing.2 then closing.1 else closing.1.pollSnapshot i

/-! ## The user -/

/-- `core_open`; `status` is what the core answers to the request. -/
def coreOpen (w : Window) (status : XcomStatus) (i : PollInput) : Window :=
  if ¬ w.vm.intentOpen.2 then w
  else
    let w := { w with vm := w.vm.intentOpen.1 }
    if w.vm.portPresent = false ∨ w.serialPort = "" then { w with vm := w.vm.rejectOpen.1 }
    else
      let w := if status ≠ .ok then { w with vm := w.vm.rejectOpen.1 } else w
      w.pollStatus i

/-- `core_close`. -/
def coreClose (w : Window) (i : PollInput) : Window :=
  if ¬ w.vm.intentClose.2 then w
  else { w with vm := w.vm.intentClose.1 }.pollStatus i

/-- What happens to a window. -/
inductive Event
  | poll (i : PollInput)
  | openPort (status : XcomStatus) (i : PollInput)
  | closePort (i : PollInput)
  | setPortPresent (present : Bool)
  | selectPort (name : String) (hardwareId : Option String)

def step (w : Window) : Event → Window
  | .poll i => w.pollStatus i
  | .openPort status i => w.coreOpen status i
  | .closePort i => w.coreClose i
  | .setPortPresent present => { w with vm := (w.vm.setPortPresent present).1 }
  | .selectPort name hardwareId => { w with serialPort := name, portHwid := hardwareId }

/-- A window of a new program. -/
def new (serialPort : String) (graceMs : Nat) : Window :=
  { serialPort := serialPort, graceMs := graceMs }

/-- A run of events. -/
def run (w : Window) (es : List Event) : Window := es.foldl step w

end Window

end Xcom.ViewModel
