import Xcom.Script.PluginEvents
import Xcom.Transition.Machine

/-!
# The script engine

A script runs in an environment of its own, made anew by every load; through it the code
registers hooks, starts timers and reads, and sends.  What the code of a script does is
left open: a piece of code is the tree of the calls it makes on its environment.
-/

namespace Xcom.Script.Engine

/-- One load of a script: the environment its functions belong to. -/
structure Copy where
  script : Bytes
  load : Nat
  deriving DecidableEq, Repr

/-- A function a script registered, through the environment of one of its loads. -/
structure Fn where
  owner : Copy
  id : Nat
  deriving DecidableEq, Repr

/-- What a function of a script gives back. -/
inductive Result
  /-- `nil` or `false`. -/
  | nothing
  | text (s : Bytes)
  | value
  /-- An error, or the end of the instruction budget. -/
  | error
  deriving DecidableEq, Repr

/-- What the engine calls a function of a script as. -/
inductive Role
  | receive
  | uartReceive
  | send
  | uiEvent
  | timer
  | read
  deriving DecidableEq, Repr

/-- The calls of the environment that reach the engine; a function is an `id`. -/
inductive Api
  | onReceive (id : Nat)
  | onSend (id : Nat)
  | setUartReceive (id : Option Nat)
  | setUiEvent (id : Option Nat)
  | filterKeep (patterns : List Bytes)
  | filterDrop (patterns : List Bytes)
  | filterClear
  | highlightRule (pattern : Bytes) (color : Option Int) (bg : Bool)
  | highlightClear
  | busy (active : Bool)
  | timerStart (ms id : Nat)
  | timerLoopStart (ms id : Nat)
  | timerStop (handle : Nat)
  | fileReadAtAsync (fd : Option Nat) (offset len : Int) (id : Nat)

/-- A run of script code; `uart.send` carries what the send hooks it sets off do. -/
inductive Code
  | ret (r : Result)
  | api (a : Api) (k : Code)
  | send (data : Bytes) (hooks : Fn → Code) (k : Code)

/-! ## The state of the engine -/

/-- A highlight rule. -/
structure Rule where
  pattern : Bytes
  color : Int
  bg : Bool
  deriving DecidableEq, Repr

/-- What the engine reads in the environment of a copy. -/
structure Env where
  copy : Copy
  uartReceive : Option Fn := none
  uiEvent : Option Fn := none
  deriving DecidableEq, Repr

/-- The record of a script; `load` counts the environments built for it. -/
structure Record where
  load : Nat := 0
  enabled : Bool := false
  recvHook : Option Fn := none
  sendHook : Option Fn := none
  env : Option Env := none
  keeps : List Bytes := []
  drops : List Bytes := []
  rules : List Rule := []
  strikesRecv : Nat := 0
  strikesSend : Nat := 0
  busy : Bool := false
  deriving DecidableEq, Repr

/-- A timer of the engine's list. -/
structure Timer where
  handle : Nat
  ms : Nat
  repeating : Bool
  fn : Fn
  deriving DecidableEq, Repr

/-- An asynchronous read in flight. -/
structure Read where
  fd : Nat
  offset : Int
  len : Int
  fn : Fn
  deriving DecidableEq, Repr

/-- What happened: a copy was disabled or replaced, a function was called (with the script
enabled or not), code of a copy sent. -/
inductive Event
  | retired (c : Copy)
  | call (role : Role) (f : Fn) (enabled : Bool)
  | sent (c : Copy) (payload : Bytes)
  deriving DecidableEq, Repr

/-- The copy whose code an event is. -/
def Event.copy : Event → Option Copy
  | .retired _ => none
  | .call _ f _ => some f.owner
  | .sent c _ => some c

/-- The engine; `isOpen` and `ready` are what `is_open` and the interlocks of `core_send`
find.  The newest event is first. -/
structure State where
  scripts : Bytes → Option Record := fun _ => none
  known : List Bytes := []
  order : List Bytes := []
  timers : List Timer := []
  reads : List Read := []
  nextHandle : Nat := 0
  rulesDirty : Bool := false
  lineFilterOn : Option Bool := none
  recvHookOn : Option Bool := none
  listGen : Nat := 1
  isOpen : Bool := false
  ready : Bool := false
  trace : List Event := []

/-- `HOOK_STRIKES`. -/
def hookStrikes : Nat := 3

/-- `FILE_WINDOW_BYTES`. -/
def fileWindowBytes : Int := 1024 * 1024

/-- An update of one record. -/
def State.modify (s : State) (name : Bytes) (f : Record → Record) : State :=
  { s with scripts := fun n => if n = name then (s.scripts n).map f else s.scripts n }

/-- `_touch_scripts`. -/
def State.touch (s : State) : State :=
  { s with listGen := s.listGen + 1, lineFilterOn := none, recvHookOn := none }

/-- `is_enabled`. -/
def State.isEnabled (s : State) (name : Bytes) : Bool := (s.scripts name).any (·.enabled)

/-- The number of the last load of a script. -/
def State.loadOf (s : State) (name : Bytes) : Nat := ((s.scripts name).map (·.load)).getD 0

/-- `any_script_busy`. -/
def State.anyScriptBusy (s : State) : Bool :=
  s.known.any fun name => (s.scripts name).any fun r => r.enabled && r.busy

/-- Records an event. -/
def State.note (s : State) (e : Event) : State := { s with trace := e :: s.trace }

/-- The engine is about to call `f`. -/
def State.calling (s : State) (role : Role) (f : Fn) : State :=
  s.note (.call role f (s.isEnabled f.owner.script))

/-- The present copy of a script goes out of use. -/
def State.retire (s : State) (name : Bytes) : State :=
  s.note (.retired ⟨name, s.loadOf name⟩)

/-- `timer_create`. -/
def State.timerCreate (s : State) (ms : Nat) (f : Fn) (repeating : Bool) : State :=
  { s with
    timers := s.timers ++ [⟨s.nextHandle, max 1 ms, repeating, f⟩]
    nextHandle := s.nextHandle + 1 }

/-- `timer_destroy`, and `_retire_timer`. -/
def State.timerDestroy (s : State) (handle : Nat) : State :=
  { s with timers := s.timers.eraseP (·.handle = handle) }

/-- The effect of a call that code of the copy `c` makes on its environment.  A read with
refused arguments calls back in place, which is part of the code. -/
def callApi (c : Copy) (a : Api) (s : State) : State :=
  match a with
  | .onReceive id =>
    { s.modify c.script fun r => { r with recvHook := some ⟨c, id⟩, strikesRecv := 0 } with
      recvHookOn := none }
  | .onSend id =>
    s.modify c.script fun r => { r with sendHook := some ⟨c, id⟩, strikesSend := 0 }
  | .setUartReceive id =>
    s.modify c.script fun r => { r with
      env := r.env.map fun e =>
        if e.copy = c then { e with uartReceive := id.map (Fn.mk c) } else e }
  | .setUiEvent id =>
    s.modify c.script fun r => { r with
      env := r.env.map fun e =>
        if e.copy = c then { e with uiEvent := id.map (Fn.mk c) } else e }
  | .filterKeep patterns =>
    { s.modify c.script fun r => { r with keeps := r.keeps ++ patterns.filter (· ≠ []) } with
      lineFilterOn := none }
  | .filterDrop patterns =>
    { s.modify c.script fun r => { r with drops := r.drops ++ patterns.filter (· ≠ []) } with
      lineFilterOn := none }
  | .filterClear =>
    { s.modify c.script fun r => { r with keeps := [], drops := [] } with
      lineFilterOn := none }
  | .highlightRule pattern color bg =>
    if pattern = [] then s
    else
      { s.modify c.script fun r => { r with
          rules := r.rules ++ [⟨pattern, color.getD 0xC62828, bg⟩] } with
        rulesDirty := true }
  | .highlightClear =>
    { s.modify c.script fun r => { r with rules := [] } with rulesDirty := true }
  | .busy active => s.modify c.script fun r => { r with busy := active }
  | .timerStart ms id => s.timerCreate ms ⟨c, id⟩ false
  | .timerLoopStart ms id => s.timerCreate ms ⟨c, id⟩ true
  | .timerStop handle => s.timerDestroy handle
  | .fileReadAtAsync fd offset len id =>
    match fd with
    | some fd =>
      if offset < 0 ∨ len ≤ 0 then s
      else { s with reads := s.reads ++ [⟨fd, offset, min len fileWindowBytes, ⟨c, id⟩⟩] }
    | none => s

/-! ## Dispatch -/

/-- A function called with the hooks as they are; `run` is what the code does. -/
abbrev Runner := Fn → State → State × Result

/-- A failed call of the send hook. -/
def State.strikeSend (s : State) (name : Bytes) : State :=
  s.modify name fun r =>
    if hookStrikes ≤ r.strikesSend + 1 then { r with sendHook := none, strikesSend := 0 }
    else { r with strikesSend := r.strikesSend + 1 }

/-- `dispatch_send`, for the scripts still to come. -/
def dispatchSend (run : Runner) : List Bytes → Bytes → State → State × Option Bytes
  | [], payload, s => (s, some payload)
  | name :: rest, payload, s =>
    match s.scripts name with
    | none => dispatchSend run rest payload s
    | some record =>
      match record.enabled, record.sendHook with
      | true, some f =>
        match run f (s.calling .send f) with
        | (t, .error) => dispatchSend run rest payload (t.strikeSend name)
        | (t, .nothing) => (t.modify name fun r => { r with strikesSend := 0 }, none)
        | (t, .text p) =>
          dispatchSend run rest p (t.modify name fun r => { r with strikesSend := 0 })
        | (t, .value) =>
          dispatchSend run rest payload (t.modify name fun r => { r with strikesSend := 0 })
      | _, _ => dispatchSend run rest payload s

/-- `core_send`: what is handed to the port. -/
def coreSend (run : Runner) (data : Bytes) (s : State) : State × Option Bytes :=
  if !s.ready || data.isEmpty then (s, none) else dispatchSend run s.order data s

/-- `uart.send`. -/
def uartSend (c : Copy) (run : Runner) (data : Bytes) (s : State) : State :=
  if !s.isOpen || data.isEmpty then s
  else
    match coreSend run data s with
    | (t, some payload) => t.note (.sent c payload)
    | (t, none) => t

/-- Runs code of the copy `c`. -/
def exec : Code → Copy → State → State × Result
  | .ret r, _, s => (s, r)
  | .api a k, c, s => exec k c (callApi c a s)
  | .send data hooks k, c, s =>
    exec k c (uartSend c (fun f => exec (hooks f) f.owner) data s)

/-- What every function does when it is called in a step. -/
abbrev Codes := Role → Fn → Code

/-- A function called as `role`. -/
def Codes.run (codes : Codes) (role : Role) : Runner := fun f => exec (codes role f) f.owner

/-- `has_receive_hook`. -/
def hasReceiveHook (s : State) : State × Bool :=
  match s.recvHookOn with
  | some on => (s, on)
  | none =>
    let on := s.order.any fun name => (s.scripts name).any fun r =>
      r.enabled && (r.recvHook.isSome || (r.env.bind (·.uartReceive)).isSome)
    ({ s with recvHookOn := some on }, on)

/-- A failed call as `receive` (or `uartReceive`) takes the hook away at the third strike. -/
def State.strikeRecv (s : State) (name : Bytes) (legacy : Bool) : State :=
  if hookStrikes ≤ ((s.scripts name).map (·.strikesRecv)).getD 0 + 1 then
    { s.modify name fun r =>
        if legacy then
          { r with env := r.env.map fun e => { e with uartReceive := none }, strikesRecv := 0 }
        else { r with recvHook := none, strikesRecv := 0 } with
      recvHookOn := none }
  else s.modify name fun r => { r with strikesRecv := r.strikesRecv + 1 }

/-- The receive hook of one script: the text it leaves, none where it drops the batch. -/
def callRecvHook (codes : Codes) (name : Bytes) (record : Record) (text : Bytes) (s : State) :
    State × Option Bytes :=
  match record.recvHook with
  | none => (s, some text)
  | some f =>
    match codes.run .receive f (s.calling .receive f) with
    | (t, .error) => (t.strikeRecv name false, some text)
    | (t, .nothing) => (t.modify name fun r => { r with strikesRecv := 0 }, none)
    | (t, .text p) => (t.modify name fun r => { r with strikesRecv := 0 }, some p)
    | (t, .value) => (t.modify name fun r => { r with strikesRecv := 0 }, some text)

/-- The `uartReceive` of one script. -/
def callUartReceive (codes : Codes) (name : Bytes) (s : State) : State :=
  match ((s.scripts name).bind (·.env)).bind (·.uartReceive) with
  | none => s
  | some f =>
    match codes.run .uartReceive f (s.calling .uartReceive f) with
    | (t, .error) => t.strikeRecv name true
    | (t, _) => t

/-- The loop of `dispatch_receive`. -/
def receiveLoop (codes : Codes) : List Bytes → Bytes → State → State × Option Bytes
  | [], text, s => (s, some text)
  | name :: rest, text, s =>
    match s.scripts name with
    | none => receiveLoop codes rest text s
    | some record =>
      if record.enabled then
        match callRecvHook codes name record text s with
        | (t, none) => (t, none)
        | (t, some text') => receiveLoop codes rest text' (callUartReceive codes name t)
      else receiveLoop codes rest text s

/-- `dispatch_receive`. -/
def dispatchReceive (codes : Codes) (text : Bytes) (s : State) : State × Option Bytes :=
  match hasReceiveHook s with
  | (t, false) => (t, some text)
  | (t, true) => receiveLoop codes t.order text t

/-- `page:match("^([^:]+):")`. -/
def pageScript (page : Bytes) : Option Bytes :=
  let name := page.takeWhile (· ≠ 0x3A)
  if name ≠ [] ∧ 0x3A ∈ page then some name else none

/-- `dispatch_ui_event`. -/
def dispatchUiEvent (codes : Codes) (page : Bytes) (s : State) : State :=
  match pageScript page with
  | none => s
  | some name =>
    if s.isEnabled name then
      match ((s.scripts name).bind (·.env)).bind (·.uiEvent) with
      | none => s
      | some f => (codes.run .uiEvent f (s.calling .uiEvent f)).1
    else s

/-- The environment `eval_command` works in: that of the first enabled script. -/
def replCopy (s : State) : Option Copy :=
  (s.order.filterMap fun name => (s.scripts name).bind fun r =>
    if r.enabled then r.env.map (·.copy) else none).head?

/-! ## Loading -/

/-- What a load finds: the partial line that `on_reload` flushes through the hooks, with
what they do, and the chunk, where the file parses. -/
structure File where
  held : Option (Bytes × Codes) := none
  chunk : Option Code

/-- `on_reload`. -/
def onReload (file : File) (s : State) : State :=
  match file.held with
  | none => s
  | some (line, codes) => (dispatchReceive codes line s).1

/-- The record cleared for a new load, with a new environment. -/
def Record.fresh (r : Record) (name : Bytes) : Record :=
  { load := r.load + 1, enabled := r.enabled, env := some { copy := ⟨name, r.load + 1⟩ } }

/-- `load_script`; the flag says whether the load succeeded. -/
def loadScript (name : Bytes) (file : File) (s : State) : State × Bool :=
  match s.scripts name with
  | none => (s, false)
  | some _ =>
    let s₁ := onReload file s
    match file.chunk with
    | none => (((s₁.retire name).modify name fun r => { r with enabled := false }).touch, false)
    | some chunk =>
      let s₂ := (s₁.retire name).modify name fun r => r.fresh name
      match exec chunk ⟨name, s₂.loadOf name⟩ s₂ with
      | (s₃, .error) =>
        (((s₃.retire name).modify name fun r =>
          { r with enabled := false, env := none }).touch, false)
      | (s₃, _) => ({ s₃ with rulesDirty := true }.touch, true)

/-- `enable(name, true)`. -/
def enable (name : Bytes) (file : File) (s : State) : State :=
  match loadScript name file s with
  | (t, false) => t.modify name fun r => { r with enabled := false }
  | (t, true) => (t.modify name fun r => { r with enabled := true }).touch

/-- `enable(name, false)`. -/
def disable (name : Bytes) (s : State) : State :=
  match s.scripts name with
  | none => s
  | some _ =>
    ((s.retire name).modify name fun r =>
      { r with enabled := false, strikesRecv := 0, strikesSend := 0 }).touch

/-- `load_all`: the scan found `names`. -/
def loadAll (names : List Bytes) (s : State) : State :=
  { s with
    scripts := fun n => if names.contains n then some ((s.scripts n).getD {}) else s.scripts n
    known := s.known ++ names.filter fun n => (s.scripts n).isNone
    order := names }.touch

/-- `shutdown`. -/
def shutdown (s : State) : State := { s with timers := [] }

/-! ## The engine as a machine -/

/-- What happens to the engine.  `fire` and `readDone` are the callbacks of the event
loop; a reload by `pump` or `poll` is a `reload`. -/
inductive Op
  | loadAll (names : List Bytes)
  | enable (name : Bytes) (file : File)
  | disable (name : Bytes)
  | reload (name : Bytes) (file : File)
  | receive (text : Bytes) (codes : Codes)
  | send (data : Bytes) (codes : Codes)
  | uiEvent (page : Bytes) (codes : Codes)
  | fire (handle : Nat) (code : Code)
  | readDone (index : Nat) (code : Code)
  | evalCommand (code : Code)
  | host (isOpen ready : Bool)
  | shutdown

/-- A timer fires: a one-shot timer leaves the list before its function runs. -/
def fire (handle : Nat) (code : Code) (s : State) : Option State :=
  (s.timers.find? (·.handle = handle)).map fun t =>
    let s₁ := if t.repeating then s else s.timerDestroy handle
    (exec code t.fn.owner (s₁.calling .timer t.fn)).1

/-- A read completes, in any order. -/
def readDone (index : Nat) (code : Code) (s : State) : Option State :=
  s.reads[index]?.map fun r =>
    let s₁ := { s with reads := s.reads.eraseIdx index }
    (exec code r.fn.owner (s₁.calling .read r.fn)).1

/-- One step of the engine. -/
def step (s : State) : Op → Option State
  | .loadAll names => some (loadAll names s)
  | .enable name file => some (enable name file s)
  | .disable name => some (disable name s)
  | .reload name file => some (loadScript name file s).1
  | .receive text codes => some (dispatchReceive codes text s).1
  | .send data codes => some (coreSend (codes.run .send) data s).1
  | .uiEvent page codes => some (dispatchUiEvent codes page s)
  | .fire handle code => fire handle code s
  | .readDone index code => readDone index code s
  | .evalCommand code =>
    (replCopy s).map fun c => (exec code c s).1
  | .host isOpen ready => some { s with isOpen := isOpen, ready := ready }
  | .shutdown => some (shutdown s)

/-- The engine, from `new`. -/
def machine : Transition.Machine State Op := ⟨{}, step⟩

end Xcom.Script.Engine
