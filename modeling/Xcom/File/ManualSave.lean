import Xcom.File.Writer

/-!
# The manual save

`Window:on_btn_save` over the file writer.  The save opens its file as the log, hands the
view text over block by block, flushes and closes the log again.  The window is the ABI
caller, so the read thread and the writer thread move between any two steps of its calls.
-/

namespace Xcom.File

/-- `LOG_APPEND_BLOCK_BYTES`. -/
def logAppendBlockBytes : Nat := 64 * 1024

/-- What the failure text of a save names. -/
inductive SaveFailure
  | append (rc : XcomStatus)
  | flush (rc : XcomStatus)
  | close
  deriving DecidableEq, Repr

/-- The byte counts of the failure text. -/
inductive SaveAmount
  | nothingWritten (total : Nat)
  | wrote (accepted total : Nat)
  | notConfirmed (accepted total : Nat)
  deriving DecidableEq, Repr

/-- What the status line says at the end of a save: "saved", "save failed" with the
status of the open, or "save incomplete" and "save failed" with what went wrong. -/
inductive SaveStatus
  | saved
  | openFailed (rc : XcomStatus)
  | failed (incomplete : Bool) (why : SaveFailure) (amount : SaveAmount)
  deriving DecidableEq, Repr

/-- The call a save waits in.  `left` counts the further attempts of
`_log_close_with_retry`. -/
inductive SaveStage
  | opening
  | appending
  | flushing
  | closing (left : Nat)
  deriving DecidableEq, Repr

/-- A save under way: `data` is the view text taken at its start.  `call` is history: the
open call of the save. -/
structure Save where
  path : Path
  data : List UInt8
  call : Call
  accepted : Nat := 0
  appendErr : Option XcomStatus := none
  flushRc : XcomStatus := .ok
  stage : SaveStage := .opening
  deriving DecidableEq, Repr

/-- The end of a save.  `file` is history: what the file held then. -/
structure SaveReport where
  path : Path
  data : List UInt8
  status : SaveStatus
  file : Option (List UInt8)
  deriving DecidableEq, Repr

/-- The writer, the save under way, the status of the append under way, and the saves
that have ended. -/
structure SaveWindow where
  core : LogWriter
  save : Option Save := none
  appendRc : XcomStatus := .ok
  reports : List SaveReport := []

namespace Save

/-- The next block: the rest of the text, or as much of it as an append takes. -/
def block (save : Save) : List UInt8 :=
  (save.data.drop save.accepted).take
    (min (save.data.length - save.accepted) logAppendBlockBytes)

def why (save : Save) : SaveFailure :=
  match save.appendErr with
  | some rc => .append rc
  | none => if save.flushRc ≠ .ok then .flush save.flushRc else .close

def amount (save : Save) : SaveAmount :=
  if save.accepted = 0 then .nothingWritten save.data.length
  else if save.flushRc = .ok then .wrote save.accepted save.data.length
  else .notConfirmed save.accepted save.data.length

/-- What the save reports once the log is closed, or is not. -/
def status (save : Save) (closedOk : Bool) : SaveStatus :=
  if save.appendErr = none ∧ save.flushRc = .ok ∧ closedOk then .saved
  else .failed (0 < save.accepted) save.why save.amount

end Save

namespace LogWriter

/-- The first step of a call. -/
def call (s : LogWriter) (l : CallerLabel) : LogWriter := (s.callerStep l).getD s

/-- The status of the call that the next step of the caller ends. -/
def callStatus (s : LogWriter) (appendRc : XcomStatus) : XcomStatus :=
  match s.caller with
  | .openLoadAccepting _ => .errBusy
  | .appendLease .. => .errNotOpen
  | .appendRelease => appendRc
  | .closeWait _ => .errTimeout
  | .syncWait _ _ c => if (s.cells c).done then (s.cells c).status else .errTimeout
  -- no cell, or no room in the queue
  | _ => .errFull

/-- The status of the append under way, as its last step has left it: a block that was
not queued is undone. -/
def appendStatus (s : LogWriter) (appendRc : XcomStatus) : XcomStatus :=
  match s.caller with
  | .appendAlloc _ | .appendUndo _ => .errFull
  | .appendEnqueue _ => .ok
  | _ => appendRc

end LogWriter

namespace SaveWindow

/-- The save ends. -/
def report (s : SaveWindow) (save : Save) (status : SaveStatus) : SaveWindow :=
  { s with
    save := none
    reports := s.reports ++ [⟨save.path, save.data, status, s.core.files.fs save.path⟩] }

/-- One attempt of `_log_close_with_retry`. -/
def logClose (s : SaveWindow) (save : Save) (left : Nat) : SaveWindow :=
  { s with core := s.core.call .closeCall, save := some { save with stage := .closing left } }

def logFlush (s : SaveWindow) (save : Save) : SaveWindow :=
  { s with core := s.core.call .flushCall, save := some { save with stage := .flushing } }

/-- The loop over the text: the next block, or the flush behind the last one. -/
def appendNext (s : SaveWindow) (save : Save) : SaveWindow :=
  if save.accepted < save.data.length then
    { s with
      core := s.core.call (.appendCall (some save.block))
      save := some { save with stage := .appending } }
  else s.logFlush save

/-- `on_btn_save` goes on with the status of a call that has returned. -/
def afterCall (s : SaveWindow) (save : Save) (rc : XcomStatus) : SaveWindow :=
  match save.stage with
  | .opening => if rc = .ok then s.appendNext save else s.report save (.openFailed rc)
  | .appending =>
    if rc = .ok then s.appendNext { save with accepted := save.accepted + save.block.length }
    else s.logFlush { save with appendErr := some rc }
  | .flushing => s.logClose { save with flushRc := rc } 3
  | .closing left =>
    if rc = .ok then s.report save (save.status true)
    else
      match left with
      | 0 => s.report save (save.status false)
      | left + 1 => s.logClose save left

/-- The start of `on_btn_save`, behind the dialog: an empty view is not saved, and
`xcom_log_open` starts the writer thread where there is none. -/
def onBtnSave (s : SaveWindow) (spawned : Bool) (source : Option Path) (data : List UInt8) :
    SaveWindow :=
  if data = [] then s
  else
    let started := s.core.call (.startCall spawned)
    let save : Save := { path := source.getD [], data := data, call := started.nextCall }
    if started.running then
      let core := started.call (.openCall source false)
      if core.caller = .idle then { s with core := core }.report save (.openFailed .errParam)
      else { s with core := core, save := some save }
    else { s with core := started }.report save (.openFailed .errIo)

/-- A step while a save is under way: the window makes no other call. -/
def stepSaving (s : SaveWindow) (save : Save) (l : Label) : Option SaveWindow :=
  match l with
  | .caller l =>
    if s.core.caller = .idle then none
    else
      (s.core.callerStep l).map fun core =>
        let s' := { s with core := core, appendRc := s.core.appendStatus s.appendRc }
        if core.caller = .idle then s'.afterCall save (s.core.callStatus s.appendRc) else s'
  | l => (s.core.step l).map fun core => { s with core := core }

end SaveWindow

/-- A step of one of the threads, or the save button.  `source` is what the conversion
makes of the path the dialog gave. -/
inductive SaveLabel
  | core (l : Label)
  | onBtnSave (spawned : Bool) (source : Option Path) (data : List UInt8)
  deriving DecidableEq, Repr

def SaveWindow.step (s : SaveWindow) (l : SaveLabel) : Option SaveWindow :=
  match s.save, l with
  | none, .core l => (s.core.step l).map fun core => { s with core := core }
  | some save, .core l => s.stepSaving save l
  | none, .onBtnSave spawned source data =>
    if s.core.caller = .idle then some (s.onBtnSave spawned source data) else none
  | some _, .onBtnSave .. => none

/-- The window and the file writer over a file system. -/
def saveMachine (fs : FileSystem) : Transition.Machine SaveWindow SaveLabel where
  init := { core := (logWriterMachine fs).init }
  step := SaveWindow.step

end Xcom.File
