import Xcom.Session.World

/-!
# The Dispatcher

The actions of the serial owner and of the send AO.  An action unfolds into the
steps that other threads can see between; the table of `Xcom.Serial.Table` decides
what a `serial_transition` unfolds into.
-/

namespace Xcom

/-- Choices of the environment at a step of the Dispatcher. -/
inductive DispLabel
  | dispatch (index : Nat)
  | run
  | opened (error : Option Nat)
  | started (ok : Bool)
  | submitted (accepted : Bool)
  | enqueued (accepted : Bool)
  deriving DecidableEq, Repr

/-- `SessionWriter::kMaxJobs`. -/
def kMaxJobs : Nat := 256

open DispOp

/-- `WinSerialBackend::close`: stop the read thread, join it, drop the handle. -/
def backendClose : List DispOp := [stopReader, joinReader]

/-- `sink_owner_open`.  `WinSerialBackend::open` begins with a `close`. -/
def sinkOwnerOpen : List DispOp := backendClose ++ [openDevice]

/-- `sink_owner_close`. -/
def sinkOwnerClose : List DispOp :=
  [closeAdmission, releaseDeferred, stopWriter, joinWriter] ++ backendClose ++ [openAdmission]

/-- `serial_run_action`. -/
def serialRunAction : SerialAction → List DispOp
  | .kOwnerOpen => sinkOwnerOpen
  | .kOwnerClose => sinkOwnerClose
  | .kCancelClose => [submitClose]
  | .kOpenCommit => [commitOpen, resetDisplay]
  | .kOpenFail => []
  | .kCloseCommit => [commitClose, resetDisplay]

/-- `serial_do_open`. -/
def serialDoOpen : List DispOp := [exchangeFaultPending, transition .kOpen, resolveOpen]

/-- `serial_do_close`. -/
def serialDoClose : List DispOp :=
  [transition .kClose, transition .kCloseDone, clearFaultPending]

/-- `serial_do_fault`: a Fault while already in FAULT is dropped. -/
def serialDoFault (state : PortState) : List DispOp :=
  if state = .portFault then [] else [clearFaultPending, transition .kFault]

/-- The action an event is dispatched to. -/
def actionOf (state : PortState) : Event → List DispOp
  | .sigOpen _ => serialDoOpen
  | .sigClose => serialDoClose
  | .sigFault => serialDoFault state
  | .sigSend desc => [sendLoadGeneration desc]

/-- The open request an event carries. -/
def Event.request : Event → Option Request
  | .sigOpen req => some req
  | _ => none

namespace World

/-- `serial_publish`. -/
@[simp] def serialPublish (w : World) (state : PortState) : World :=
  { w with serialState := state, core.portState := state }.emit
    (.published state w.core.generation w.current)

/-- `serial_transition`.  With `publish_first` the target is published before the
action runs, otherwise after it. -/
def serialTransition (w : World) (event : SerialEvent) (rest : List DispOp) : World :=
  match serialFindEdge w.serialState w.core.lastOpenResult event with
  | none => { w with agenda := rest }
  | some edge =>
    if edge.publishFirst then
      { w.serialPublish edge.toState with agenda := serialRunAction edge.action ++ rest }
    else
      { w with agenda := serialRunAction edge.action ++ publish edge.toState :: rest }

/-- The tail of `sink_owner_open` once the device is open: start the session
writer unless it is running. -/
def startSession (w : World) (ok : Bool) (rest : List DispOp) : World :=
  if w.writerActive then
    { w with agenda := openAdmission :: storeOpenResult (.status .ok) :: rest }
  else if ok then
    { w with
      writer := .wait, writerStop := false, jobs := []
      agenda := openAdmission :: storeOpenResult (.status .ok) :: rest }
  else
    { w with agenda := backendClose ++ storeOpenResult (.status .errIo) :: rest }

/-- One step of an action.  `rest` is what remains of the action behind it. -/
def opStep (w : World) (rest : List DispOp) : DispOp → DispLabel → Option World
  | exchangeFaultPending, .run => some
      { w with
        core.faultPending := false
        agenda := if w.core.faultPending then transition .kFault :: rest else rest }
  | transition event, .run => some (w.serialTransition event rest)
  | resolveOpen, .run => some
      { w with
        agenda :=
          if w.core.lastOpenResult ≠ .status .ok then transition .kOpenDone :: rest
          else exchangeCancelOpen :: rest }
  | exchangeCancelOpen, .run => some
      { w with
        core.cancelOpen := false
        agenda :=
          if w.core.cancelOpen then transition .kCancel :: rest
          else transition .kOpenDone :: rest }
  | clearFaultPending, .run => some { w with core.faultPending := false, agenda := rest }
  | publish state, .run => some { w.serialPublish state with agenda := rest }
  | openDevice, .opened none => some
      { w with
        device := some w.nextHandle, nextHandle := w.nextHandle + 1
        reader := .running, readerStop := false
        agenda := startWriter :: rest }
  | openDevice, .opened (some error) => some
      { w with agenda := storeOpenResult (.ofBackendError error) :: rest }
  | startWriter, .started ok => some (w.startSession ok rest)
  | storeOpenResult result, .run => some
      ({ w with core.lastOpenResult := result, agenda := rest }.emit
        (.openResolved w.current result))
  | closeAdmission, .run => some { w with core.callbackAdmission := false, agenda := rest }
  | openAdmission, .run => some { w with core.callbackAdmission := true, agenda := rest }
  | releaseDeferred, .run => some { w with agenda := rest }
  | stopWriter, .run => some
      { w with writerStop := w.writerStop || w.writerActive, agenda := rest }
  | joinWriter, .run =>
      if w.writer = .inactive ∨ w.writer = .exited then
        some { w with writer := .inactive, jobs := [], agenda := rest }
      else none
  | stopReader, .run => some { w with readerStop := true, agenda := rest }
  | joinReader, .run =>
      if w.reader = .absent ∨ w.reader = .exited then
        some { w with reader := .absent, device := none, agenda := rest }
      else none
  | submitClose, .submitted accepted => some
      (if accepted then { w.stage .sigClose with agenda := rest }
       else { w with agenda := sinkOwnerClose ++ publish .portFault :: rest })
  | commitOpen, .run => some
      { w with
        core.openGeneration := w.core.openGeneration + 1
        core.generation := w.core.openGeneration + 1
        agenda := rest }
  | commitClose, .run => some
      { w with core.generation := w.core.generation + 1, agenda := rest }
  | resetDisplay, .run => some { w with agenda := rest }
  | sendLoadGeneration desc, .run => some
      { w with
        agenda :=
          if desc.generation ≠ w.core.generation then rest else sendLoadState desc :: rest }
  | sendLoadState desc, .run => some
      { w with
        agenda := if w.core.portState ≠ .portOpen then rest else sendEnqueue desc :: rest }
  | sendEnqueue desc, .enqueued accepted =>
      if accepted then
        if w.writerActive ∧ w.jobs.length < kMaxJobs then
          some { w with jobs := w.jobs ++ [desc], agenda := rest }
        else none
      else some { w with agenda := rest }
  | _, _ => none

/-- One step of the Dispatcher: the next step of the running action, or with none
running the dispatch of any staged event. -/
def dispStep (w : World) (l : DispLabel) : Option World :=
  match w.agenda, l with
  | [], .dispatch i =>
    match w.events[i]? with
    | none => none
    | some event => some
        { w with
          events := w.events.eraseIdx i
          current := event.request
          agenda := actionOf w.serialState event }
  | [], _ => none
  | op :: rest, l => w.opStep rest op l

end World

end Xcom
