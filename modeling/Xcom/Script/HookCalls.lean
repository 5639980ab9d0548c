import Xcom.Script.Preserves

/-!
# The hooks of a script and how their calls end

What happens to the hooks while the engine takes a step, told as a history: which hook is
registered, how each call of a hook ends, and when a script is loaded or disabled.
-/

namespace Xcom.Script.Engine

/-- The hooks of a script. -/
inductive Hook
  | receive
  | uartReceive
  | send
  deriving DecidableEq, Repr

/-- The function a record holds as a hook. -/
def Record.hook (r : Record) : Hook → Option Fn
  | .receive => r.recvHook
  | .uartReceive => r.env.bind (·.uartReceive)
  | .send => r.sendHook

/-- The function registered as a hook. -/
def State.hook (s : State) (name : Bytes) (hook : Hook) : Option Fn :=
  (s.scripts name).bind fun r => r.hook hook

/-- What happens to the hooks of a script: one is registered; a call of one ends, where it
is `held` if the hook is still there and `disabled` if the engine then takes it away; the
script is loaded anew or disabled. -/
inductive HookEvent
  | registered (script : Bytes) (hook : Hook)
  | ended (script : Bytes) (hook : Hook) (failed held disabled : Bool)
  | renewed (script : Bytes)
  deriving DecidableEq, Repr

/-- What the engine does when a call of a hook has ended. -/
def State.settle (s : State) (name : Bytes) : Hook → Result → State
  | .send, .error => s.strikeSend name
  | .send, _ => s.modify name fun r => { r with strikesSend := 0 }
  | .receive, .error => s.strikeRecv name false
  | .receive, _ => s.modify name fun r => { r with strikesRecv := 0 }
  | .uartReceive, .error => s.strikeRecv name true
  | .uartReceive, _ => s

/-- The end of a call, by what the engine holds before and after it has settled it. -/
def ended (s : State) (name : Bytes) (hook : Hook) (r : Result) : HookEvent :=
  .ended name hook (r = .error) (s.hook name hook).isSome
    ((s.hook name hook).isSome && ((s.settle name hook r).hook name hook).isNone)

/-- The events of a call that code of the copy `c` makes on its environment; `uartReceive`
is a hook in the environment the engine reads. -/
def apiEvents (c : Copy) (a : Api) (s : State) : List HookEvent :=
  match a with
  | .onReceive _ => [.registered c.script .receive]
  | .onSend _ => [.registered c.script .send]
  | .setUartReceive _ =>
    if ((s.scripts c.script).bind (·.env)).any (·.copy = c) then
      [.registered c.script .uartReceive]
    else []
  | _ => []

/-- The events while a function runs. -/
abbrev Watch := Fn → State → List HookEvent

/-- The events of a call of a hook: those while it runs, and its end. -/
def callEvents (run : Runner) (watch : Watch) (name : Bytes) (hook : Hook) (f : Fn)
    (s : State) : List HookEvent :=
  watch f s ++ [ended (run f s).1 name hook (run f s).2]

/-- The events of `dispatch_send`. -/
def sendEvents (run : Runner) (watch : Watch) :
    List Bytes → Bytes → State → List HookEvent
  | [], _, _ => []
  | name :: rest, payload, s =>
    match s.scripts name with
    | none => sendEvents run watch rest payload s
    | some record =>
      match record.enabled, record.sendHook with
      | true, some f =>
        callEvents run watch name .send f (s.calling .send f) ++
          match run f (s.calling .send f) with
          | (_, .nothing) => []
          | (t, .text p) => sendEvents run watch rest p (t.settle name .send (.text p))
          | (t, r) => sendEvents run watch rest payload (t.settle name .send r)
      | _, _ => sendEvents run watch rest payload s

/-- The events of `core_send`. -/
def coreSendEvents (run : Runner) (watch : Watch) (data : Bytes) (s : State) :
    List HookEvent :=
  if !s.ready || data.isEmpty then [] else sendEvents run watch s.order data s

/-- The events of `uart.send`. -/
def uartSendEvents (run : Runner) (watch : Watch) (data : Bytes) (s : State) :
    List HookEvent :=
  if !s.isOpen || data.isEmpty then [] else coreSendEvents run watch data s

/-- The events while code of the copy `c` runs. -/
def execEvents : Code → Copy → State → List HookEvent
  | .ret _, _, _ => []
  | .api a k, c, s => apiEvents c a s ++ execEvents k c (callApi c a s)
  | .send data hooks k, c, s =>
    uartSendEvents (fun f => exec (hooks f) f.owner) (fun f => execEvents (hooks f) f.owner)
      data s ++
      execEvents k c (uartSend c (fun f => exec (hooks f) f.owner) data s)

/-- The events while a function called as `role` runs. -/
def Codes.watch (codes : Codes) (role : Role) : Watch :=
  fun f => execEvents (codes role f) f.owner

/-- The events of the receive hook of one script. -/
def recvHookEvents (codes : Codes) (name : Bytes) (record : Record) (s : State) :
    List HookEvent :=
  match record.recvHook with
  | none => []
  | some f =>
    callEvents (codes.run .receive) (codes.watch .receive) name .receive f
      (s.calling .receive f)

/-- The events of the `uartReceive` of one script. -/
def uartReceiveEvents (codes : Codes) (name : Bytes) (s : State) : List HookEvent :=
  match ((s.scripts name).bind (·.env)).bind (·.uartReceive) with
  | none => []
  | some f =>
    callEvents (codes.run .uartReceive) (codes.watch .uartReceive) name .uartReceive f
      (s.calling .uartReceive f)

/-- The events of the loop of `dispatch_receive`. -/
def receiveLoopEvents (codes : Codes) : List Bytes → Bytes → State → List HookEvent
  | [], _, _ => []
  | name :: rest, text, s =>
    match s.scripts name with
    | none => receiveLoopEvents codes rest text s
    | some record =>
      if record.enabled then
        recvHookEvents codes name record s ++
          match callRecvHook codes name record text s with
          | (_, none) => []
          | (t, some text') =>
            uartReceiveEvents codes name t ++
              receiveLoopEvents codes rest text' (callUartReceive codes name t)
      else receiveLoopEvents codes rest text s

/-- The events of `dispatch_receive`. -/
def receiveEvents (codes : Codes) (text : Bytes) (s : State) : List HookEvent :=
  match hasReceiveHook s with
  | (_, false) => []
  | (t, true) => receiveLoopEvents codes t.order text t

/-- The events of `dispatch_ui_event`. -/
def uiEventEvents (codes : Codes) (page : Bytes) (s : State) : List HookEvent :=
  match pageScript page with
  | none => []
  | some name =>
    if s.isEnabled name then
      match ((s.scripts name).bind (·.env)).bind (·.uiEvent) with
      | none => []
      | some f => codes.watch .uiEvent f (s.calling .uiEvent f)
    else []

/-- The events of `on_reload`. -/
def onReloadEvents (file : File) (s : State) : List HookEvent :=
  match file.held with
  | none => []
  | some (line, codes) => receiveEvents codes line s

/-- The events of `load_script`. -/
def loadEvents (name : Bytes) (file : File) (s : State) : List HookEvent :=
  match s.scripts name with
  | none => []
  | some _ =>
    onReloadEvents file s ++
      match file.chunk with
      | none => []
      | some chunk =>
        let s₁ := ((onReload file s).retire name).modify name fun r => r.fresh name
        .renewed name :: execEvents chunk ⟨name, s₁.loadOf name⟩ s₁

/-- The events of a timer that fires. -/
def fireEvents (handle : Nat) (code : Code) (s : State) : List HookEvent :=
  match s.timers.find? (·.handle = handle) with
  | none => []
  | some t =>
    let s₁ := if t.repeating then s else s.timerDestroy handle
    execEvents code t.fn.owner (s₁.calling .timer t.fn)

/-- The events of a read that completes. -/
def readDoneEvents (index : Nat) (code : Code) (s : State) : List HookEvent :=
  match s.reads[index]? with
  | none => []
  | some r =>
    execEvents code r.fn.owner
      ({ s with reads := s.reads.eraseIdx index }.calling .read r.fn)

/-- The events of a step of the engine. -/
def stepEvents (s : State) : Op → List HookEvent
  | .loadAll _ => []
  | .enable name file => loadEvents name file s
  | .disable name => [.renewed name]
  | .reload name file => loadEvents name file s
  | .receive text codes => receiveEvents codes text s
  | .send data codes => coreSendEvents (codes.run .send) (codes.watch .send) data s
  | .uiEvent page codes => uiEventEvents codes page s
  | .fire handle code => fireEvents handle code s
  | .readDone index code => readDoneEvents index code s
  | .evalCommand code =>
    match replCopy s with
    | none => []
    | some c => execEvents code c s
  | .host _ _ => []
  | .shutdown => []

/-- The engine and the history of its hooks. -/
structure Watched where
  engine : State := {}
  history : List HookEvent := []

/-- The engine, watched. -/
def watchedMachine : Transition.Machine Watched Op :=
  ⟨{}, fun w op => (step w.engine op).map fun t =>
    ⟨t, w.history ++ stepEvents w.engine op⟩⟩

/-! ## The functions that the histories follow -/

/-- A call of the send hook of one script, through what the engine does at its end. -/
theorem dispatchSend_call {run : Runner} {name : Bytes} {rest : List Bytes} {payload : Bytes}
    {s : State} {record : Record} {f : Fn} (hrecord : s.scripts name = some record)
    (henabled : record.enabled = true) (hhook : record.sendHook = some f) :
    dispatchSend run (name :: rest) payload s =
      match run f (s.calling .send f) with
      | (t, .nothing) => (t.settle name .send .nothing, none)
      | (t, .text p) => dispatchSend run rest p (t.settle name .send (.text p))
      | (t, r) => dispatchSend run rest payload (t.settle name .send r) := by
  rw [dispatchSend, hrecord]
  simp only [henabled, hhook]
  rcases run f (s.calling .send f) with ⟨t, r⟩
  cases r <;> rfl

/-- A call of the receive hook of one script. -/
theorem callRecvHook_settle {codes : Codes} {name : Bytes} {record : Record} {text : Bytes}
    {s : State} {f : Fn} (hhook : record.recvHook = some f) :
    (callRecvHook codes name record text s).1 =
      (codes.run .receive f (s.calling .receive f)).1.settle name .receive
        (codes.run .receive f (s.calling .receive f)).2 := by
  rw [callRecvHook, hhook]
  dsimp only
  rcases codes.run .receive f (s.calling .receive f) with ⟨t, r⟩
  cases r <;> rfl

/-- A call of the `uartReceive` of one script. -/
theorem callUartReceive_settle {codes : Codes} {name : Bytes} {s : State} {f : Fn}
    (hhook : ((s.scripts name).bind (·.env)).bind (·.uartReceive) = some f) :
    callUartReceive codes name s =
      (codes.run .uartReceive f (s.calling .uartReceive f)).1.settle name .uartReceive
        (codes.run .uartReceive f (s.calling .uartReceive f)).2 := by
  rw [callUartReceive, hhook]
  dsimp only
  rcases codes.run .uartReceive f (s.calling .uartReceive f) with ⟨t, r⟩
  cases r <;> rfl

end Xcom.Script.Engine
