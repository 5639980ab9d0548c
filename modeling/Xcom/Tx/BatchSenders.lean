import Xcom.Script.SendFile

/-!
# The batch senders

Three paced senders share the port: the sequential Run, the auto-cycle and the streaming
file send.  The first two are timers of the window, the third is a script.
-/

namespace Xcom.Tx.Batch

open Script.SendFile (Plugin Ctx Sent UiEvent)
open Script.Engine (Copy)

/-- `send_file.lua`. -/
def sendFile : Script.Bytes :=
  [0x73, 0x65, 0x6E, 0x64, 0x5F, 0x66, 0x69, 0x6C, 0x65, 0x2E, 0x6C, 0x75, 0x61]

/-- A load of `send_file.lua`. -/
def copy (n : Nat) : Copy := ⟨sendFile, n⟩

/-- The slots of the page on show, with their boxes. -/
structure Page where
  slots : List (Script.Bytes × Bool)
  hex : Bool := false
  crlf : Bool := false

/-- A snapshot of the enabled slots, with their lines. -/
structure Snapshot where
  entries : List Script.Bytes
  lines : List Nat
  hex : Bool
  crlf : Bool
  deriving DecidableEq, Repr

/-- `_snapshot_multi_batch`. -/
def snapshotMultiBatch (page : Page) : Snapshot :=
  let enabled := page.slots.zipIdx.filter fun slot => slot.1.2 && !slot.1.1.isEmpty
  { entries := enabled.map (·.1.1), lines := enabled.map (·.2 + 1)
    hex := page.hex, crlf := page.crlf }

/-- A sequential Run under way. -/
structure Sequence where
  batch : Snapshot
  index : Nat
  deriving DecidableEq, Repr

/-- What a request can be refused for. -/
inductive Blocker
  | sequence
  | cycle
  | file
  | reset
  deriving DecidableEq, Repr

/-- A refused request: the sender named, and whether it was at work. -/
structure Refusal where
  blocker : Blocker
  active : Bool
  deriving DecidableEq, Repr

/-- The window; `multiTimer` is the timer of the auto-cycle, started or stopped, and the
table of every load of `send_file.lua` is in `files`. -/
structure State where
  engine : Script.Engine.State := Script.Engine.loadAll [sendFile] {}
  files : Nat → Plugin := fun _ => {}
  sequence : Option Sequence := none
  multiTimer : Option Bool := none
  multiSnapshot : Option Snapshot := none
  multiAuto : Bool := false
  reset : Bool := false
  refusals : List Refusal := []

/-- One copy of the script, and the engine. -/
def State.ctx (s : State) (n : Nat) : Ctx := ⟨s.files n, s.engine⟩

/-- What a copy of the script has done. -/
def State.put (s : State) (n : Nat) (x : Ctx) : State :=
  { s with engine := x.engine, files := fun m => if m = n then x.plugin else s.files m }

/-- The load of the present copy. -/
def State.load (s : State) : Nat := s.engine.loadOf sendFile

/-- A copy of the file send streams. -/
def State.fileActive (s : State) : Bool :=
  (List.range (s.load + 1)).any fun n => Script.SendFile.streaming (copy n) (s.ctx n)

/-- The party named in a refusal is at work. -/
def State.isActive (s : State) : Blocker → Bool
  | .sequence => s.sequence.isSome
  | .cycle => s.multiTimer = some true
  | .file => s.fileActive
  | .reset => s.reset

/-- A refusal. -/
def State.refuse (s : State) (b : Blocker) : State :=
  { s with refusals := ⟨b, s.isActive b⟩ :: s.refusals }

/-! ## The senders of the window -/

/-- `_stop_sequence`. -/
def stopSequence (s : State) : State := { s with sequence := none }

/-- `_multi_timer:stop()`, where there is a timer. -/
def stopMulti (s : State) : State := { s with multiTimer := s.multiTimer.map fun _ => false }

/-- `_imgui_run_sequence`. -/
def runSequence (page : Page) (s : State) : State :=
  if s.sequence.isSome then stopSequence s
  else if s.multiTimer.isSome then s.refuse .cycle
  else if s.engine.anyScriptBusy then s.refuse .file
  else
    let batch := snapshotMultiBatch page
    if batch.entries.isEmpty then s else { s with sequence := some ⟨batch, 0⟩ }

/-- `_sync_imgui_multi_auto`. -/
def syncMultiAuto (page : Page) (s : State) : State :=
  if s.reset then { s with multiAuto := false }.refuse .reset
  else if !s.multiAuto then { s with multiTimer := none, multiSnapshot := none }
  else if s.sequence.isSome then { s with multiAuto := false }.refuse .sequence
  else if s.engine.anyScriptBusy then { s with multiAuto := false }.refuse .file
  else { s with multiSnapshot := some (snapshotMultiBatch page), multiTimer := some true }

/-- What becomes of one entry of a sequence. -/
inductive Entry
  | noPayload
  | sent (r : Sent)

/-- `core_send`: refused while a reset is in flight. -/
def coreSend (s : State) (r : Sent) : Sent := if s.reset then .refused (some (-4)) else r

/-- The timer of a sequence fires. -/
def sequenceStep (o : Entry) (s : State) : Option State :=
  s.sequence.map fun q =>
    let index := q.index + 1
    let next :=
      if q.batch.entries.length ≤ index then stopSequence s
      else { s with sequence := some { q with index := index } }
    if q.batch.entries.length < index then stopSequence s
    else
      match o with
      | .noPayload => next
      | .sent r =>
        match coreSend s r with
        | .ok => next
        | .refused _ => stopSequence s

/-- The timer of the auto-cycle fires: the snapshot is sent, refused or not. -/
def cycleFire (s : State) : Option State := if s.multiTimer = some true then some s else none

/-- `_render_ui_state`, with what the connection now is. -/
def renderUiState (connected : Bool) (page : Page) (s : State) : State :=
  let was := s.engine.isOpen
  let s₁ := { s with engine := { s.engine with isOpen := connected } }
  let s₂ := if was && !connected then stopMulti (stopSequence s₁) else s₁
  if connected && !was then syncMultiAuto page s₂ else s₂

/-- `core_close`, up to the rendering; the view model may decline. -/
def coreClose (accepted : Bool) (s : State) : State :=
  if accepted then stopMulti (stopSequence s) else s

/-- `start_reset_sequence`; the sequencer may fail at once. -/
def startReset (inFlight : Bool) (s : State) : State :=
  if s.reset then s
  else { stopMulti (stopSequence s) with multiAuto := false, reset := inFlight }

/-- `_finish_reset`. -/
def finishReset (s : State) : State := { s with reset := false }

/-! ## The script -/

/-- What a load of `send_file.lua` finds. -/
inductive Found
  | missing
  | runs
  | fails
  deriving DecidableEq, Repr

/-- The file as the engine loads it: it sets `ui.event`. -/
def Found.file : Found → Script.Engine.File
  | .missing => { chunk := none }
  | .runs =>
    { chunk := some (.api (.setUiEvent (some Script.SendFile.uiEventId)) (.ret .nothing)) }
  | .fails => { chunk := some (.ret .error) }

/-- `dispatch_ui_event`, for a page of the script. -/
def uiEvent (e : UiEvent) (s : State) : State :=
  if s.engine.isEnabled sendFile then
    match ((s.engine.scripts sendFile).bind (·.env)).bind (·.uiEvent) with
    | none => s
    | some f =>
      let n := f.owner.load
      s.put n (Script.SendFile.uiEvent (copy n) e (s.ctx n))
  else s

/-- A timer of the script fires. -/
def fireTimer (handle : Nat) (s : State) : Option State :=
  (s.engine.timers.find? (·.handle = handle)).map fun t =>
    let n := t.fn.owner.load
    let s₁ := { s with engine := s.engine.timerDestroy handle }
    s₁.put n (Script.SendFile.issueRead (copy n) (s₁.ctx n))

/-- A read of the script completes. -/
def readDone (index : Nat) (data : Option Script.Bytes) (sent : Sent) (s : State) :
    Option State :=
  s.engine.reads[index]?.map fun r =>
    let n := r.fn.owner.load
    let s₁ := { s with engine := { s.engine with reads := s.engine.reads.eraseIdx index } }
    let result := if s.engine.isOpen then coreSend s sent else .refused (some (-2))
    s₁.put n (Script.SendFile.completion (copy n) ⟨r.fd, r.offset.toNat⟩ data result
      (s₁.ctx n))

/-! ## The window as a machine -/

/-- What the user, the port, the script engine and the event loop do. -/
inductive Op
  | runSequence (page : Page)
  | multiAuto (on : Bool) (page : Page)
  | uiEvent (e : UiEvent)
  | enable (found : Found)
  | disable
  | reload (found : Found)
  | render (connected : Bool) (page : Page)
  | close (accepted : Bool)
  | startReset (inFlight : Bool)
  | finishReset
  | sequenceStep (o : Entry)
  | cycleFire
  | fireTimer (handle : Nat)
  | readDone (index : Nat) (data : Option Script.Bytes) (sent : Sent)

/-- One step. -/
def step (s : State) : Op → Option State
  | .runSequence page => some (runSequence page s)
  | .multiAuto on page => some (syncMultiAuto page { s with multiAuto := on })
  | .uiEvent e => some (uiEvent e s)
  | .enable found => some { s with engine := Script.Engine.enable sendFile found.file s.engine }
  | .disable => some { s with engine := Script.Engine.disable sendFile s.engine }
  | .reload found =>
    some { s with engine := (Script.Engine.loadScript sendFile found.file s.engine).1 }
  | .render connected page => some (renderUiState connected page s)
  | .close accepted => some (coreClose accepted s)
  | .startReset inFlight => some (startReset inFlight s)
  | .finishReset => some (finishReset s)
  | .sequenceStep o => sequenceStep o s
  | .cycleFire => cycleFire s
  | .fireTimer handle => fireTimer handle s
  | .readDone index data sent => readDone index data sent s

/-- The window, with the script listed and disabled. -/
def machine : Transition.Machine State Op := ⟨{}, step⟩

end Xcom.Tx.Batch
