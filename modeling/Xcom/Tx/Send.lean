import Xcom.Tx.Blocks
import Xcom.Transition.Machine

/-!
# The transmit path

`xcom_send` and `xcom_set_auto_template`, the auto-send timer, the send actions of the
Dispatcher and the session writer.  Port state and generation are whatever a load finds,
and any staged event may be dispatched next.
-/

namespace Xcom.Tx

/-- `SessionWriter::kMaxJobs`. -/
def kMaxJobs : Nat := 256

/-- A staged event of the send actors. -/
inductive TxEvent
  | send (d : TxDescriptor)
  | autosend
  | autosendConfig (d : AutoTemplateDescriptor)
  deriving DecidableEq, Repr

/-- Where the ABI caller stands in `xcom_send` or in `xcom_set_auto_template`. -/
inductive AbiPc
  | idle
  | loadState (size : UInt32)
  | alloc (size : UInt32)
  | loadGeneration (block : Block) (size : UInt32)
  | submitWrite (d : TxDescriptor)
  | allocTemplate (size intervalMs : UInt32)
  | submitConfig (d : AutoTemplateDescriptor)
  | release (block : Block)
  deriving DecidableEq, Repr

/-- One step of an action of the Dispatcher. -/
inductive TxOp
  | stopTimer
  | releaseTemplate
  | resetGate
  | install (d : AutoTemplateDescriptor)
  | startTimer
  | autoLoadState
  | autoAlloc
  | autoLoadGeneration (block : Block)
  | autoEnqueue (job : Job)
  | autoDisarm
  | userLoadGeneration (d : TxDescriptor)
  | userLoadState (d : TxDescriptor)
  | userEnqueue (d : TxDescriptor)
  | release (block : Block)
  | startWriter
  | checkWriter
  | stopWriter
  | joinWriter
  | drainJobs
  | rearm
  deriving DecidableEq, Repr

/-- Where the timer thread stands in `autosend_tick`. -/
inductive TimerPc
  | stopped
  | waiting
  | loadState
  | exchange
  | submit
  | refused
  deriving DecidableEq, Repr

/-- Where the session writer stands in `run` or in `release_leftover_jobs`. -/
inductive WriterPc
  | absent
  | waiting
  | popping
  | loadGeneration (job : Job)
  | loadState (job : Job)
  | writing (job : Job)
  | releasing (job : Job)
  | rearming
  | checkStop
  | leftover
  | leftRelease (job : Job)
  | leftRearm
  | exited
  deriving DecidableEq, Repr

/-- The template of `SendCtx`. -/
structure Template where
  block : Option Block := none
  length : UInt16 := 0
  intervalMs : UInt32 := 0
  deriving DecidableEq, Repr

/-- The transmit path. -/
structure TxPath where
  tx : TxBlockPool := {}
  events : List TxEvent := []
  autosend : Template := {}
  autosendArmed : Bool := false
  jobs : List Job := []
  stop : Bool := false
  running : Bool := true
  abi : AbiPc := .idle
  ops : List TxOp := []
  timer : TimerPc := .stopped
  writer : WriterPc := .absent
  deriving DecidableEq, Repr

/-- What the ABI caller does next. -/
inductive AbiLabel
  | send (dataNull : Bool) (size : UInt32)
  | setAutoTemplate (dataNull : Bool) (size intervalMs : UInt32)
  | loadState (isOpen : Bool)
  | loadGeneration (generation : UInt32)
  | submit (accepted : Bool)
  | run
  deriving DecidableEq, Repr

/-- What the Dispatcher does next.  `ownerOpen` and `ownerClose` stand for what a session
boundary does to the writer and the timer, `shutdown` for the end of the core. -/
inductive DispLabel
  | dispatch (i : Nat)
  | ownerOpen
  | ownerClose
  | shutdown
  | loadState (isOpen : Bool)
  | loadGeneration (generation : UInt32)
  | start (started : Bool)
  | run
  deriving DecidableEq, Repr

/-- What the timer thread does next. -/
inductive TimerLabel
  | tick
  | loadState (isOpen : Bool)
  | submit (accepted : Bool)
  | run
  deriving DecidableEq, Repr

/-- What the session writer does next. -/
inductive WriterLabel
  | wake
  | loadGeneration (generation : UInt32)
  | loadState (isOpen : Bool)
  | written
  | run
  deriving DecidableEq, Repr

/-- The party that moves. -/
inductive Label
  | abi (l : AbiLabel)
  | disp (l : DispLabel)
  | timer (l : TimerLabel)
  | writer (l : WriterLabel)
  deriving DecidableEq, Repr

namespace TxPath

/-- One step of `xcom_send` or of `xcom_set_auto_template`. -/
def abiStep (s : TxPath) (l : AbiLabel) : Option TxPath :=
  match s.abi, l with
  | .idle, .send dataNull size =>
    if s.running = false then none
    else if dataNull ∨ size = 0 ∨ kTxBlockBytes < size then some s
    else some { s with abi := .loadState size }
  | .idle, .setAutoTemplate dataNull size intervalMs =>
    if s.running = false then none
    else if (intervalMs ≠ 0 ∧ dataNull) ∨ kTxBlockBytes < size then some s
    else if intervalMs = 0 then some { s with abi := .submitConfig {} }
    else some { s with abi := .allocTemplate size intervalMs }
  | .loadState size, .loadState isOpen => some
      { s with abi := if isOpen then .alloc size else .idle }
  | .alloc size, .run => some
      (match s.tx.tryAlloc with
        | some (b, tx) => { s with tx := tx, abi := .loadGeneration b size }
        | none => { s with abi := .idle })
  | .loadGeneration b size, .loadGeneration g => some
      { s with abi := .submitWrite ⟨b, size.toUInt16, g⟩ }
  | .submitWrite d, .submit accepted => some
      (if accepted then { s with events := s.events ++ [.send d], abi := .idle }
       else { s with abi := .release d.block })
  | .allocTemplate size intervalMs, .run => some
      (match s.tx.tryAlloc with
        | some (b, tx) =>
          { s with tx := tx, abi := .submitConfig ⟨some b, size.toUInt16, intervalMs⟩ }
        | none => { s with abi := .idle })
  | .submitConfig d, .submit accepted => some
      (if accepted then { s with events := s.events ++ [.autosendConfig d], abi := .idle }
       else match d.held with
        | b :: _ => { s with abi := .release b }
        | [] => { s with abi := .idle })
  | .release b, .run => some { s with tx := s.tx.release b, abi := .idle }
  | _, _ => none

/-- The steps of `autosend_config_action`. -/
def autosendConfigAction (d : AutoTemplateDescriptor) : List TxOp :=
  if d.valid = false then d.held.map .release
  else [.stopTimer, .releaseTemplate, .resetGate] ++
    (if d.intervalMs = 0 then [] else [.install d, .startTimer])

/-- The steps of the action an event starts. -/
def action : TxEvent → List TxOp
  | .send d => [.userLoadGeneration d]
  | .autosend => [.autoLoadState]
  | .autosendConfig d => autosendConfigAction d

/-- `sink_enqueue_write`: the writer is active and its ring has room. -/
def canEnqueue (s : TxPath) : Bool := s.writer ≠ .absent ∧ s.jobs.length < kMaxJobs

/-- One turn of `release_leftover_jobs` on the Dispatcher. -/
def drainJob (s : TxPath) (rest : List TxOp) : TxPath :=
  match s.jobs with
  | [] => { s with ops := rest }
  | job :: jobs =>
    { s with
      jobs := jobs
      ops := .release job.block ::
        ((if job.autoSend then [.rearm] else []) ++ .drainJobs :: rest) }

/-- One step of an action.  `rest` are the steps behind it. -/
def opStep (s : TxPath) (rest : List TxOp) : TxOp → DispLabel → Option TxPath
  -- `stop` joins a tick that is under way.
  | .stopTimer, .run =>
    if s.timer = .waiting ∨ s.timer = .stopped then some { s with timer := .stopped, ops := rest }
    else none
  | .releaseTemplate, .run => some
      { s with
        tx := match s.autosend.block with
          | some b => s.tx.release b
          | none => s.tx
        autosend := {}, ops := rest }
  | .resetGate, .run => some { s with autosendArmed := false, ops := rest }
  | .install d, .run => some
      { s with autosend := ⟨d.block, d.length, d.intervalMs⟩, ops := rest }
  | .startTimer, .start started => some
      { s with timer := if started then .waiting else .stopped, ops := rest }
  | .autoLoadState, .loadState isOpen => some
      { s with ops := (if isOpen then .autoAlloc else .autoDisarm) :: rest }
  | .autoAlloc, .run => some
      (if s.autosend.block = none ∨ s.autosend.length = 0 then
        { s with ops := .autoDisarm :: rest }
       else match s.tx.tryAlloc with
        | some (b, tx) => { s with tx := tx, ops := .autoLoadGeneration b :: rest }
        | none => { s with ops := .autoDisarm :: rest })
  | .autoLoadGeneration b, .loadGeneration g => some
      { s with ops := .autoEnqueue ⟨b, s.autosend.length, g, true⟩ :: rest }
  | .autoEnqueue job, .run => some
      (if s.canEnqueue then { s with jobs := s.jobs ++ [job], ops := rest }
       else { s with ops := .release job.block :: .autoDisarm :: rest })
  | .autoDisarm, .run => some { s with autosendArmed := false, ops := rest }
  | .userLoadGeneration d, .loadGeneration g => some
      { s with
        ops := (if d.generation = g then .userLoadState d else .release d.block) :: rest }
  | .userLoadState d, .loadState isOpen => some
      { s with ops := (if isOpen then .userEnqueue d else .release d.block) :: rest }
  | .userEnqueue d, .run => some
      (if s.canEnqueue then
        { s with jobs := s.jobs ++ [⟨d.block, d.length, d.generation, false⟩], ops := rest }
       else { s with ops := .release d.block :: rest })
  | .release b, .run => some { s with tx := s.tx.release b, ops := rest }
  | .startWriter, .start started => some
      (if s.writer = .absent ∧ started then
        { s with jobs := [], stop := false, writer := .waiting, ops := rest }
       else { s with ops := rest })
  | .checkWriter, .run => some
      { s with
        ops := (if s.writer = .absent then [] else [.stopWriter, .joinWriter, .drainJobs]) ++
          rest }
  | .stopWriter, .run => some { s with stop := true, ops := rest }
  | .joinWriter, .run =>
    if s.writer = .exited ∨ s.writer = .absent then
      some { s with writer := .absent, ops := rest }
    else none
  | .drainJobs, .run => some (s.drainJob rest)
  | .rearm, .run => some { s with autosendArmed := false, ops := rest }
  | _, _ => none

/-- One step of the Dispatcher.  The end of the core finds no staged event. -/
def dispStep (s : TxPath) (l : DispLabel) : Option TxPath :=
  match s.ops, l with
  | [], .dispatch i =>
    if s.running then
      s.events[i]?.map fun event =>
        { s with events := s.events.eraseIdx i, ops := action event }
    else none
  | [], .ownerOpen => if s.running then some { s with ops := [.startWriter] } else none
  | [], .ownerClose =>
    if s.running then some { s with ops := [.stopTimer, .checkWriter] } else none
  | [], .shutdown =>
    if s.running ∧ s.abi = .idle ∧ s.events = [] then
      some { s with
        running := false
        ops := [.stopTimer, .releaseTemplate, .stopWriter, .joinWriter, .drainJobs] }
    else none
  | op :: rest, l => s.opStep rest op l
  | _, _ => none

/-- One step of `autosend_tick`. -/
def timerStep (s : TxPath) (l : TimerLabel) : Option TxPath :=
  match s.timer, l with
  | .waiting, .tick => some { s with timer := .loadState }
  | .loadState, .loadState isOpen => some
      { s with timer := if isOpen then .exchange else .waiting }
  | .exchange, .run => some
      (if s.autosendArmed then { s with timer := .waiting }
       else { s with autosendArmed := true, timer := .submit })
  | .submit, .submit accepted => some
      (if accepted then { s with events := s.events ++ [.autosend], timer := .waiting }
       else { s with timer := .refused })
  | .refused, .run => some { s with autosendArmed := false, timer := .waiting }
  | _, _ => none

/-- One step of the session writer. -/
def writerStep (s : TxPath) (l : WriterLabel) : Option TxPath :=
  match s.writer, l with
  | .waiting, .wake => some { s with writer := if s.stop then .leftover else .popping }
  | .popping, .run => some
      (match s.jobs with
        | [] => { s with writer := .waiting }
        | job :: jobs => { s with jobs := jobs, writer := .loadGeneration job })
  | .loadGeneration job, .loadGeneration g => some
      { s with writer := if job.gen = g then .loadState job else .releasing job }
  | .loadState job, .loadState isOpen => some
      { s with writer := if isOpen then .writing job else .releasing job }
  | .writing job, .written => some { s with writer := .releasing job }
  | .releasing job, .run => some
      { s with
        tx := s.tx.release job.block
        writer := if job.autoSend then .rearming else .checkStop }
  | .rearming, .run => some { s with autosendArmed := false, writer := .checkStop }
  | .checkStop, .run => some { s with writer := if s.stop then .leftover else .popping }
  | .leftover, .run => some
      (match s.jobs with
        | [] => { s with writer := .exited }
        | job :: jobs => { s with jobs := jobs, writer := .leftRelease job })
  | .leftRelease job, .run => some
      { s with
        tx := s.tx.release job.block
        writer := if job.autoSend then .leftRearm else .leftover }
  | .leftRearm, .run => some { s with autosendArmed := false, writer := .leftover }
  | _, _ => none

/-- One step of the transmit path. -/
def step (s : TxPath) : Label → Option TxPath
  | .abi l => s.abiStep l
  | .disp l => s.dispStep l
  | .timer l => s.timerStep l
  | .writer l => s.writerStep l

end TxPath

/-- The transmit path from `xcom_create` on. -/
def txMachine : Transition.Machine TxPath Label where
  init := {}
  step := TxPath.step

end Xcom.Tx
