import Xcom.Text.Delimited
import Xcom.Script.PluginEvents
import Xcom.Transition.Machine

/-!
# The script console

The native console raises events as packed integers and holds the text of the editor.  The
pump takes a save of the editor first and then the other events, of which a selection loads
a file into the editor.
-/

namespace Xcom.Script.Console

open Delimited (before)

/-! ## Events -/

/-- What the user does in the console.  `Reload` carries the index of the editor, 0 without
one. -/
inductive Raised
  | select (index : Nat)
  | save
  | reload (index : Nat)
  | clearLog
  | newScript
  | openFolder
  deriving DecidableEq, Repr

/-- `ScriptEvent`. -/
def Raised.type : Raised → Nat
  | .select _ => 1
  | .save => 1
  | .reload _ => 2
  | .openFolder => 3
  | .clearLog => 4
  | .newScript => 5

/-- The script an event is about. -/
def Raised.index : Raised → Option Nat
  | .select index => some index
  | .reload index => some index
  | _ => none

/-- The mark of Ctrl+S. -/
def saveFlag : Nat := 0x40

/-- What the console adds to the type. -/
def Raised.low : Raised → Nat
  | .select index => index
  | .reload index => index
  | .save => saveFlag
  | _ => 0

/-- `(type << 8) | low`. -/
def Raised.pack (e : Raised) : Nat := e.type <<< 8 ||| e.low

/-- An event as `M:take_script_events` reads it. -/
structure Taken where
  type : Nat
  index : Nat
  flag : Bool
  deriving DecidableEq, Repr

/-- The event of a packed integer. -/
def Taken.ofPacked (packed : Nat) : Taken :=
  ⟨packed >>> 8, packed &&& 0xFF, packed &&& 0x40 ≠ 0⟩

/-- What `xcom_imgui_script_take_editor_save` takes for a save. -/
def isSave (packed : Nat) : Bool := packed >>> 8 = 1 ∧ packed &&& saveFlag ≠ 0

/-! ## The editor -/

/-- `script_edit_*`; `buf` is the NUL-terminated buffer of the editor. -/
structure Editor where
  index : Option Nat := none
  path : Bytes := []
  buf : Bytes := [0]
  dirty : Bool := false
  deriving DecidableEq, Repr

/-- The text the editor holds. -/
def Editor.text (e : Editor) : Bytes := before 0 e.buf

/-- `xcom_imgui_script_load_editor`. -/
def Editor.load (e : Editor) (path text : Bytes) : Editor :=
  { e with
    path := before 0 path
    buf := if text.getLast? = some 0 then text else text ++ [0]
    dirty := false }

/-- `InputTextMultiline` with `ScriptEditorResize`: the buffer grows where the text needs
it, and the text is copied over its beginning with a NUL behind it. -/
def Editor.edit (e : Editor) (text : Bytes) : Editor :=
  { e with
    buf := before 0 text ++ 0 :: e.buf.drop ((before 0 text).length + 1)
    dirty := true }

/-- What is copied into a buffer of `capacity` bytes and read back from it as a string. -/
def copyOut (capacity : Nat) (bytes : Bytes) : Bytes :=
  let copied := if bytes.length < capacity then bytes.length else capacity - 1
  before 0 (bytes.take copied ++ [0])

/-- The capacities of `M:take_editor_save`. -/
def pathCapacity : Nat := 512

def textCapacity : Nat := 65536

/-- The path and the text `M:take_editor_save` gives back. -/
def Editor.taken (e : Editor) : Bytes × Bytes :=
  (copyOut pathCapacity e.path, copyOut textCapacity e.buf)

/-! ## The pump -/

/-- A queued event, with what was raised. -/
structure Queued where
  raised : Raised
  packed : Nat
  deriving DecidableEq, Repr

/-- What became of a queued event: it was taken for a save, or read by the bridge. -/
inductive Outcome
  | saved
  | taken (t : Taken)
  deriving DecidableEq, Repr

/-- A script of the list. -/
structure Listed where
  name : Bytes
  path : Bytes
  deriving DecidableEq, Repr

/-- A save the pump wrote, or tried to: what it wrote where, and what the editor held. -/
structure Write where
  path : Bytes
  text : Bytes
  loaded : Bytes
  held : Bytes
  deriving DecidableEq, Repr

/-- The console, the files and the script list.  `reloads` collects the scripts the engine
was told to load; `outcomes` and `writes` collect what the pump did. -/
structure State where
  queue : List Queued := []
  editor : Editor := {}
  scripts : List Listed := []
  files : Bytes → Option Bytes := fun _ => none
  reloads : List Bytes := []
  outcomes : List (Raised × Outcome) := []
  writes : List Write := []

/-- A file written, or deleted, from outside or by the pump. -/
def State.setFile (s : State) (path : Bytes) (content : Option Bytes) : State :=
  { s with files := fun p => if p = path then content else s.files p }

/-- The first event taken for a save, and the others. -/
def takeSave : List Queued → Option (Queued × List Queued)
  | [] => none
  | q :: rest =>
    if isSave q.packed then some (q, rest)
    else (takeSave rest).map fun (found, others) => (found, q :: others)

/-- Saves the editor: `canWrite` says which paths can be opened for writing. -/
def State.saveEditor (canWrite : Bytes → Bool) (s : State) : State :=
  match takeSave s.queue with
  | none => s
  | some (q, rest) =>
    let (path, text) := s.editor.taken
    let s := { s with
      queue := rest
      editor := { s.editor with dirty := false }
      outcomes := s.outcomes ++ [(q.raised, .saved)]
      writes := s.writes ++ [⟨path, text, s.editor.path, s.editor.text⟩] }
    if canWrite path then
      { s.setFile path (some text) with
        reloads := s.reloads ++
          ((s.scripts.find? (·.path = path)).map (·.name)).toList }
    else s

/-- One event of the loop over `take_script_events`.  The folder, the log and the new script
are the business of others. -/
def State.handle (s : State) (t : Taken) : State :=
  match s.scripts[t.index]? with
  | none => s
  | some script =>
    if t.type = 1 then
      if t.flag then s
      else
        let s := { s with editor.index := some t.index }
        match s.files script.path with
        | none => s
        | some content => { s with editor := s.editor.load script.path content }
    else if t.type = 2 then { s with reloads := s.reloads ++ [script.name] }
    else s

/-- The capacity of the event buffer. -/
def eventCapacity : Nat := 16

/-- Reads the other events. -/
def State.takeEvents (s : State) : State :=
  let events := s.queue.take eventCapacity
  let s := { s with
    queue := s.queue.drop eventCapacity
    outcomes := s.outcomes ++ events.map fun q => (q.raised, .taken (.ofPacked q.packed)) }
  events.foldl (fun s q => s.handle (.ofPacked q.packed)) s

/-- `_pump_script_console`, as far as it concerns events and the editor. -/
def State.pump (canWrite : Bytes → Bool) (s : State) : State :=
  (s.saveEditor canWrite).takeEvents

/-! ## Runs -/

/-- What happens to the console: an event is raised, the text is edited (the editor is shown
for a selected script only), the pump runs, the script list changes, a file changes from
outside. -/
inductive Label
  | raise (e : Raised)
  | edit (text : Bytes)
  | pump
  | rescan (scripts : List Listed)
  | change (path : Bytes) (content : Option Bytes)
  deriving DecidableEq, Repr

def step (canWrite : Bytes → Bool) (s : State) : Label → State
  | .raise e => { s with queue := s.queue ++ [⟨e, e.pack⟩] }
  | .edit text =>
    if s.editor.index.isSome then { s with editor := s.editor.edit text } else s
  | .pump => s.pump canWrite
  | .rescan scripts => { s with scripts := scripts }
  | .change path content => s.setFile path content

/-- The console from its start. -/
def machine (canWrite : Bytes → Bool) : Transition.Machine State Label where
  init := {}
  step s l := some (step canWrite s l)

end Xcom.Script.Console
