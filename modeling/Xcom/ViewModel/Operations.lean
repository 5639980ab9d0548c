import Xcom.ViewModel.Hsm

/-!
# The operations of the view-model

The intents of the user, their rejections and the recovery operations of `Hsm`, and
`ViewModel`, which keeps the retained snapshot beside the state machine and derives
the render state from both.
-/

namespace Xcom.ViewModel

/-- `UI_TO_CORE`. -/
def uiToCore : UiState → PortState
  | .closed => .portClosed
  | .opening => .portOpening
  | .opened => .portOpen
  | .closing => .portClosing
  | .fault | .reconnecting => .portFault

namespace Hsm

/-- `Hsm:super_state`: a grace window is OFFLINE whatever candidate is latched. -/
def superState (h : Hsm) : SuperState :=
  if h.state = .reconnecting then .offline else parentState h.effective

/-- `Hsm:can_open`. -/
def canOpen (h : Hsm) : Bool := h.state = .closed ∨ h.state = .fault

/-- `Hsm:can_close`. -/
def canClose (h : Hsm) : Bool :=
  h.state = .opened ∨ h.state = .opening ∨ h.state = .fault ∨ h.state = .reconnecting

/-- `Hsm:intent_open`. -/
def intentOpen (h : Hsm) : Hsm × Bool :=
  if h.canOpen then
    ({ h with
      returnTo := some h.state, state := .opening, effective := .opening
      faulted := false }, true)
  else (h, false)

/-- `Hsm:intent_close`. -/
def intentClose (h : Hsm) : Hsm × Bool :=
  if h.canClose then
    ({ h with
      returnTo := some h.state, state := .closing, effective := .closing
      faulted := false }, true)
  else (h, false)

/-- A rollback consumes the remembered target. -/
def rollBack (h : Hsm) (target : UiState) (healthy : UiState) : Hsm :=
  { h with
    returnTo := none, state := target, effective := target, faulted := target ≠ healthy }

/-- `Hsm:reject_open`. -/
def rejectOpen (h : Hsm) : Hsm × Bool :=
  if h.state ≠ .opening then (h, false)
  else (h.rollBack (h.returnTo.getD .closed) .closed, true)

/-- `Hsm:reject_close`. -/
def rejectClose (h : Hsm) : Hsm × Bool :=
  if h.state ≠ .closing then (h, false)
  else (h.rollBack (h.returnTo.getD .fault) .opened, true)

/-- `Hsm:force_fault`. -/
def forceFault (h : Hsm) : Hsm × Bool :=
  if h.state ≠ .opening ∧ h.state ≠ .closing then (h, false)
  else ({ h with state := .fault, effective := .fault, faulted := true }, true)

end Hsm

/-- The table handed out by `get_snapshot`.  `portState` is `none` for a code that
`CORE_TO_UI` does not list; `counters` are the fields that are only compared and
copied. -/
structure SnapshotTable where
  portState : Option PortState
  generation : Nat
  counters : List Nat := []
  deriving DecidableEq, Repr

end ViewModel

open ViewModel

/-- `ViewModel`, as `new` makes it. -/
structure ViewModel where
  hsm : Hsm := {}
  snapshot : SnapshotTable := ⟨some .portClosed, 0, []⟩
  portPresent : Bool := true
  deriving DecidableEq, Repr

/-- The table of `ViewModel:ui_state`, its copy of the snapshot left out. -/
structure UiStateTable where
  state : UiState
  superState : SuperState
  portPresent : Bool
  paramsEnabled : Bool
  openEnabled : Bool
  closeEnabled : Bool
  sendEnabled : Bool
  autosendEnabled : Bool
  connected : Bool
  portStateCode : PortState
  reconnecting : Bool
  faulted : Bool
  deriving DecidableEq, Repr

namespace ViewModel

/-- `ViewModel:set_port_present`. -/
def setPortPresent (vm : ViewModel) (present : Bool) : ViewModel × Bool :=
  if vm.portPresent = present then (vm, false)
  else ({ vm with portPresent := present }, true)

/-- `ViewModel:ui_state`. -/
def uiState (vm : ViewModel) : UiStateTable :=
  { state := vm.hsm.state
    superState := vm.hsm.superState
    portPresent := vm.portPresent
    paramsEnabled := vm.hsm.superState = .offline
    openEnabled := vm.hsm.canOpen && vm.portPresent
    closeEnabled := vm.hsm.canClose
    sendEnabled := vm.hsm.superState = .online
    autosendEnabled := vm.hsm.superState = .online
    connected := vm.hsm.superState = .online
    portStateCode := uiToCore vm.hsm.state
    reconnecting := vm.hsm.state = .reconnecting
    faulted := vm.hsm.state = .fault }

/-- `Hsm:on_port_state` with its checks of the arguments: a generation that is not a
number and a state that `CORE_TO_UI` does not list are no-ops. -/
def hsmOnPortState (h : Hsm) (coreState : Option PortState) (generation : Option Nat) :
    Hsm × Bool :=
  match coreState, generation with
  | some coreState, some generation => h.onPortState coreState generation
  | _, _ => (h, false)

/-- `ViewModel:on_snapshot`; `none` is a malformed snapshot. -/
def onSnapshot (vm : ViewModel) (snap : Option SnapshotTable) : ViewModel × Bool :=
  match snap with
  | none => (vm, false)
  | some snap =>
    if snap.generation < vm.hsm.generation then (vm, false)
    else
      let (hsm, stateChanged) := hsmOnPortState vm.hsm snap.portState (some snap.generation)
      if snap = vm.snapshot ∧ stateChanged = false then ({ vm with hsm := hsm }, false)
      else ({ vm with hsm := hsm, snapshot := snap }, true)

/-- `ViewModel:on_port_state`. -/
def onPortState (vm : ViewModel) (coreState : Option PortState) (generation : Option Nat) :
    ViewModel × Bool :=
  let (hsm, changed) := hsmOnPortState vm.hsm coreState generation
  if changed then
    ({ vm with
      hsm := hsm
      snapshot.portState := coreState
      snapshot.generation := generation.getD vm.snapshot.generation }, true)
  else ({ vm with hsm := hsm }, false)

/-- An operation of `Hsm` after which the retained snapshot shows the new state. -/
def showing (vm : ViewModel) (r : Hsm × Bool) : ViewModel × Bool :=
  if r.2 then ({ vm with hsm := r.1, snapshot.portState := some (uiToCore r.1.state) }, true)
  else (vm, false)

/-- `ViewModel:intent_open`. -/
def intentOpen (vm : ViewModel) : ViewModel × Bool :=
  ({ vm with hsm := vm.hsm.intentOpen.1 }, vm.hsm.intentOpen.2)

/-- `ViewModel:intent_close`. -/
def intentClose (vm : ViewModel) : ViewModel × Bool :=
  ({ vm with hsm := vm.hsm.intentClose.1 }, vm.hsm.intentClose.2)

/-- `ViewModel:reject_open`. -/
def rejectOpen (vm : ViewModel) : ViewModel × Bool := vm.showing vm.hsm.rejectOpen

/-- `ViewModel:reject_close`. -/
def rejectClose (vm : ViewModel) : ViewModel × Bool := vm.showing vm.hsm.rejectClose

/-- `ViewModel:force_fault`. -/
def forceFault (vm : ViewModel) : ViewModel × Bool := vm.showing vm.hsm.forceFault

/-- `ViewModel:enter_reconnecting`; without an argument the generation is kept. -/
def enterReconnecting (vm : ViewModel) (generation : Option Nat) : ViewModel × Bool :=
  vm.showing (vm.hsm.enterReconnecting (generation.getD vm.hsm.generation))

/-- `ViewModel:reconnect_timeout`. -/
def reconnectTimeout (vm : ViewModel) : ViewModel × Bool := vm.showing vm.hsm.reconnectTimeout

/-- `ViewModel:recovering`. -/
def recovering (vm : ViewModel) : Bool := vm.hsm.state = .reconnecting

/-- `ViewModel:settle_recovering`. -/
def settleRecovering (vm : ViewModel) : ViewModel × Bool := vm.showing vm.hsm.settleRecovering

/-- The operations that change a view-model. -/
inductive Op
  | intentOpen
  | intentClose
  | rejectOpen
  | rejectClose
  | forceFault
  | enterReconnecting (generation : Option Nat)
  | reconnectTimeout
  | onPortState (coreState : Option PortState) (generation : Option Nat)
  | onSnapshot (snap : Option SnapshotTable)
  | settleRecovering
  | setPortPresent (present : Bool)
  deriving DecidableEq, Repr

/-- One operation; the flag is the value returned. -/
def apply (vm : ViewModel) : Op → ViewModel × Bool
  | .intentOpen => vm.intentOpen
  | .intentClose => vm.intentClose
  | .rejectOpen => vm.rejectOpen
  | .rejectClose => vm.rejectClose
  | .forceFault => vm.forceFault
  | .enterReconnecting generation => vm.enterReconnecting generation
  | .reconnectTimeout => vm.reconnectTimeout
  | .onPortState coreState generation => vm.onPortState coreState generation
  | .onSnapshot snap => vm.onSnapshot snap
  | .settleRecovering => vm.settleRecovering
  | .setPortPresent present => vm.setPortPresent present

end ViewModel

end Xcom
