import Xcom.Receive.Transcript
import Xcom.Tx.BatchSenders
import Xcom.Tx.Hex

/-!
# The senders of the window

`core_send` with its interlocks, the send hook and the echo, and what calls it: a slot, `Send
enabled`, the sequential Run and the auto-cycle, with the texts of their reports.
-/

namespace Xcom.Tx.SendWindow

open Config (Bytes)
open Batch (Page Snapshot snapshotMultiBatch)
open Receive (Transcript)
open Hex (buildSendPayload)

/-- Who calls `core_send`; Runs and cycles are counted. -/
inductive Sender
  | slot (index : Nat)
  | enabled
  | sequence (run : Nat)
  | cycle (cycle : Nat)
  deriving DecidableEq, Repr

/-- A call of `core_send`, with what the core took. -/
structure Send where
  sender : Sender
  payload : Bytes
  took : Option Bytes
  deriving DecidableEq, Repr

/-- What `dispatch_send` comes to: a payload, a cancelled send, or an error. -/
inductive Hooked
  | result (payload : Option Bytes)
  | raised
  deriving DecidableEq, Repr

/-- The answers to one call: the hook where there are scripts, `xcom_send` and
`xcom_log_append`. -/
structure Answer where
  scripts : Option Hooked := none
  rc : Int := 0
  logRc : Int := 0
  deriving DecidableEq, Repr

/-- A sequential Run: its number, its snapshot, how far it is and the lines without a payload. -/
structure Run where
  number : Nat
  batch : Snapshot
  index : Nat := 0
  skippedBad : List Nat := []
  skippedBlank : List Nat := []
  deriving DecidableEq, Repr

/-- The window.  `batches` and `cycles` are the snapshots of the Runs and cycles so far, and
`history` the calls of `core_send`: the source has none of the three. -/
structure Window where
  core : Bool := true
  resetInFlight : Bool := false
  recovering : Bool := false
  scriptBusy : Bool := false
  page : Page := { slots := [] }
  sequence : Option Run := none
  multiAuto : Bool := false
  multiTimer : Option Bool := none
  multiSnapshot : Option Snapshot := none
  statusDirty : String := ""
  portStatus : String := ""
  transcript : Transcript := {}
  batches : List Snapshot := []
  cycles : List Snapshot := []
  history : List Send := []

/-! ## `core_send` -/

/-- `STATUS_TEXT[rc] or tostring(rc)`. -/
def statusText (rc : Int) : String :=
  match rc with
  | 0 => "ok"
  | -1 => "bad parameter"
  | -2 => "not open"
  | -3 => "already open"
  | -4 => "busy"
  | -5 => "full"
  | -6 => "io error"
  | -7 => "timeout"
  | -8 => "drain incomplete"
  | -9 => "unsupported"
  | rc => toString rc

/-- The payload behind the hook; an error leaves it as it was. -/
def hooked (payload : Bytes) (answer : Answer) : Option Bytes :=
  match answer.scripts with
  | none | some .raised => some payload
  | some (.result payload) => payload

/-- `core_send`: what it returns, and what the core took. -/
def coreSend (data : Bytes) (answer : Answer) (w : Window) :
    Window × (Bool × Option Int) × Option Bytes :=
  if !w.core then (w, (false, some (-2)), none)
  else if w.resetInFlight then
    ({ w with portStatus := "reset sequence in progress; send blocked" }, (false, some (-4)), none)
  else if w.recovering then
    ({ w with portStatus := "串口连接异常，等待恢复，暂不能发送" }, (false, some (-2)), none)
  else if data = [] then (w, (true, none), none)
  else
    match hooked data answer with
    | none => (w, (false, none), none)
    | some payload =>
      if answer.rc = 0 then
        let transcript := w.transcript.echoTx payload answer.logRc
        let portStatus :=
          if answer.logRc ≠ 0 ∧ w.transcript.logActive ∧ w.transcript.txEcho ∧ payload ≠ [] then
            "TX not logged: " ++ statusText answer.logRc
          else w.portStatus
        ({ w with transcript := transcript, portStatus := portStatus }, (true, none), some payload)
      else
        ({ w with portStatus := "send failed: " ++ statusText answer.rc },
          (false, some answer.rc), none)

/-- A call of `core_send` by one of the senders. -/
def call (sender : Sender) (payload : Bytes) (answer : Answer) (w : Window) :
    Window × Bool × Option Int :=
  let (after, result, took) := coreSend payload answer w
  ({ after with history := w.history ++ [⟨sender, payload, took⟩] }, result)

/-! ## Slots -/

/-- What a text comes to as a payload. -/
inductive Encoded
  | raised
  | invalid
  | blank
  | payload (payload : Bytes)
  deriving DecidableEq, Repr

/-- `build_send_payload`, as its callers tell its results apart. -/
def encode (text : Bytes) (hex crlf : Bool) : Encoded :=
  match buildSendPayload (some text) hex crlf with
  | .error _ => .raised
  | .ok (none, _) => .invalid
  | .ok (some [], _) => .blank
  | .ok (some (b :: payload), _) => .payload (b :: payload)

/-- `multi_entry`. -/
def multiEntry (page : Page) (index : Nat) : Bytes × Bool := page.slots.getD index ([], false)

/-- `_imgui_send_slot`; an error ends it. -/
def sendSlot (index : Nat) (answer : Answer) (w : Window) : Window :=
  let name := "multi slot " ++ toString (index + 1)
  let text := (multiEntry w.page index).1
  if text = [] then { w with statusDirty := name ++ ": empty, nothing sent" }
  else
    match encode text w.page.hex w.page.crlf with
    | .raised | .blank => w
    | .invalid => { w with statusDirty := name ++ ": invalid HEX, nothing sent" }
    | .payload payload =>
      match call (.slot index) payload answer w with
      | (after, true, _) => after
      | (after, false, rc) =>
        let reason := rc.elim "" fun rc => " (" ++ statusText rc ++ ")"
        { after with statusDirty := name ++ ": not sent" ++ reason }

/-- The counts of a batch. -/
structure Counts where
  sent : Nat := 0
  failed : Nat := 0
  badHex : Option Nat := none
  deriving DecidableEq, Repr

/-- The loop of `_imgui_send_enabled` over texts with their lines, and the answers by line; no
counts where it is ended by an error. -/
def sendSlots (sender : Sender) (hex crlf : Bool) (answers : Nat → Answer) :
    List (Bytes × Nat) → Counts → Window → Option Counts × Window
  | [], counts, w => (some counts, w)
  | (text, line) :: slots, counts, w =>
    match encode text hex crlf with
    | .raised => (none, w)
    | .invalid =>
      sendSlots sender hex crlf answers slots
        { counts with badHex := some (counts.badHex.getD line) } w
    | .blank => sendSlots sender hex crlf answers slots counts w
    | .payload payload =>
      match call sender payload (answers line) w with
      | (after, true, _) =>
        sendSlots sender hex crlf answers slots { counts with sent := counts.sent + 1 } after
      | (after, false, _) =>
        sendSlots sender hex crlf answers slots { counts with failed := counts.failed + 1 } after

/-- What `_imgui_send_enabled` says at its end. -/
def enabledStatus (counts : Counts) (skippedUnchecked : Bool) : Option String :=
  if 0 < counts.failed then some ("multi: " ++ toString counts.failed ++ " slot(s) not sent")
  else if counts.sent = 0 then
    match counts.badHex with
    | some line => some ("multi slot " ++ toString line ++ ": invalid HEX, nothing sent")
    | none =>
      if skippedUnchecked then some "multi: tick the enable box on the rows to send"
      else some "multi: no enabled rows with text"
  else none

/-- `_imgui_send_enabled`, of a batch or of the page on show. -/
def sendEnabled (sender : Sender) (batch : Option Snapshot) (answers : Nat → Answer) (w : Window) :
    Window :=
  let slots := batch.getD (snapshotMultiBatch w.page)
  let skippedUnchecked := batch.isNone && w.page.slots.any fun slot => !slot.1.isEmpty && !slot.2
  match sendSlots sender slots.hex slots.crlf answers (slots.entries.zip slots.lines) {} w with
  | (none, after) => after
  | (some counts, after) =>
    { after with
      statusDirty := (enabledStatus counts skippedUnchecked).getD after.statusDirty }

/-! ## The sequential Run -/

/-- `table.concat(lines, ",")`. -/
def lineList (lines : List Nat) : String := String.intercalate "," (lines.map toString)

/-- The lines that produced no payload, named. -/
def notice (bad blank : List Nat) : String :=
  let invalid := if bad = [] then "" else "line " ++ lineList bad ++ " invalid HEX"
  let both :=
    if blank = [] then invalid
    else (if invalid ≠ "" then invalid ++ "; " else "") ++ "line " ++ lineList blank ++ " blank HEX"
  if both ≠ "" then " [" ++ both ++ " not sent]" else ""

/-- `index/#entries`. -/
def progress (index count : Nat) : String := toString index ++ "/" ++ toString count

/-- `_stop_sequence`. -/
def stopSequence (finalStatus : Option String) (w : Window) : Window :=
  { w with sequence := none, statusDirty := finalStatus.getD "sequence done" }

/-- `_imgui_run_sequence`. -/
def runSequence (w : Window) : Window :=
  if w.sequence.isSome then stopSequence none w
  else if w.multiTimer.isSome then
    { w with statusDirty := "sequence refused: auto-cycle running" }
  else if w.scriptBusy then
    { w with statusDirty := "sequence refused: file send in progress" }
  else
    let batch := snapshotMultiBatch w.page
    if batch.entries = [] then
      { w with statusDirty := "sequence: no enabled entries on this page" }
    else
      { w with
        sequence := some { number := w.batches.length, batch := batch }
        batches := w.batches ++ [batch] }

/-- The end of a firing, with the lines that were skipped. -/
def sequenceReport (run : Run) (w : Window) : Window :=
  let count := run.batch.entries.length
  let said := progress run.index count ++ notice run.skippedBad run.skippedBlank
  if count ≤ run.index then stopSequence (some ("sequence done " ++ said)) w
  else { w with sequence := some run, statusDirty := "sequence " ++ said }

/-- The timer of a Run fires. -/
def sequenceFire (answer : Answer) (w : Window) : Option Window :=
  w.sequence.map fun run =>
    let next := { run with index := run.index + 1 }
    match run.batch.entries[run.index]? with
    | none => stopSequence none w
    | some text =>
      let line := run.batch.lines.getD run.index 0
      match encode text run.batch.hex run.batch.crlf with
      | .raised => sequenceReport next w
      | .invalid => sequenceReport { next with skippedBad := run.skippedBad ++ [line] } w
      | .blank => sequenceReport { next with skippedBlank := run.skippedBlank ++ [line] } w
      | .payload payload =>
        match call (.sequence run.number) payload answer w with
        | (after, true, _) => sequenceReport next after
        | (after, false, rc) =>
          let reason := rc.elim "" fun rc => " (" ++ statusText rc ++ ")"
          stopSequence (some ("sequence stopped at " ++
            progress next.index run.batch.entries.length ++ ": send failed" ++ reason)) after

/-! ## The auto-cycle -/

/-- `_sync_imgui_multi_auto`. -/
def syncMultiAuto (w : Window) : Window :=
  if w.resetInFlight then
    { w with multiAuto := false, statusDirty := "auto-cycle refused: reset sequence running" }
  else if !w.multiAuto then { w with multiTimer := none, multiSnapshot := none }
  else if w.sequence.isSome then
    { w with multiAuto := false, statusDirty := "auto-cycle refused: sequence running" }
  else if w.scriptBusy then
    { w with multiAuto := false, statusDirty := "auto-cycle refused: file send in progress" }
  else
    let batch := snapshotMultiBatch w.page
    { w with
      multiSnapshot := some batch, multiTimer := some true, cycles := w.cycles ++ [batch] }

/-- `_send_imgui_multi`, when the timer of the cycle fires. -/
def cycleFire (answers : Nat → Answer) (w : Window) : Option Window :=
  if w.multiTimer = some true then
    some (sendEnabled (.cycle (w.cycles.length - 1)) w.multiSnapshot answers w)
  else none

/-- What ends both: the port closes, or a reset starts. -/
def stopBatches (finalStatus : String) (w : Window) : Window :=
  let stopped := if w.sequence.isSome then stopSequence (some finalStatus) w else w
  { stopped with multiTimer := w.multiTimer.map fun _ => false }

/-! ## The window as a machine -/

/-- What the user, the port, the scripts and the event loop do. -/
inductive Op
  | edit (page : Page)
  | environment (core recovering scriptBusy : Bool)
  | slot (index : Nat) (answer : Answer)
  | enabled (answers : Nat → Answer)
  | runSequence
  | sequenceFire (answer : Answer)
  | multiAuto (on : Bool)
  | cycleFire (answers : Nat → Answer)
  | portClosed
  | connected
  | startReset (inFlight : Bool)
  | finishReset
  /-- What is received and cleared; what is sent goes through `core_send`. -/
  | view (op : Transcript.Op)

/-- One step. -/
def step (w : Window) : Op → Option Window
  | .edit page => some { w with page := page }
  | .environment core recovering scriptBusy =>
    some { w with core := core, recovering := recovering, scriptBusy := scriptBusy }
  | .slot index answer => some (sendSlot index answer w)
  | .enabled answers => some (sendEnabled .enabled none answers w)
  | .runSequence => some (runSequence w)
  | .sequenceFire answer => sequenceFire answer w
  | .multiAuto on => some (syncMultiAuto { w with multiAuto := on })
  | .cycleFire answers => cycleFire answers w
  | .portClosed => some (stopBatches "sequence stopped: port closed" w)
  | .connected => some (syncMultiAuto w)
  | .startReset inFlight =>
    if w.resetInFlight then some w
    else some { stopBatches "sequence stopped: reset" w with
      multiAuto := false, resetInFlight := inFlight }
  | .finishReset => some { w with resetInFlight := false }
  | .view (.sent _ _) => none
  | .view op => some { w with transcript := w.transcript.apply op }

def machine : Transition.Machine Window Op := ⟨{}, step⟩

end Xcom.Tx.SendWindow
