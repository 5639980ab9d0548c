import Xcom.Abi.Config
import Xcom.Serial.Table

/-!
# The state of a core

Everything the lifecycle of a serial session shares: the atomics of `CoreCtx`,
the events staged for the Dispatcher, and the program counters of the four
threads that touch them (the ABI caller, the Dispatcher, the backend read thread
and the session writer).  The ports modelled are physical ones.  Payloads ride in
the descriptor that owns their pool block.

Fields marked as history are read by no step.
-/

namespace Xcom

/-- Identity of one successful native open of the device. -/
abbrev Handle := Nat

/-- Identity of one open request accepted for dispatch. -/
abbrev Request := Nat

/-- The lifecycle atomics of `CoreCtx` and the configuration snapshot. -/
structure CoreCtx where
  portState : PortState := .portClosed
  generation : UInt32 := 0
  openGeneration : UInt32 := 0
  cancelOpen : Bool := false
  faultPending : Bool := false
  lastOpenResult : OpenResult := .status .errIo
  callbackAdmission : Bool := true
  txFailStreak : UInt32 := 0
  config : SerialConfig := {}
  deriving DecidableEq, Repr

/-- `TxDescriptor` together with the bytes of its TxBlock.  `acceptedOn` is
history: the device handle behind the OPEN state that `xcom_send` saw. -/
structure TxDescriptor where
  data : List UInt8
  generation : UInt32
  acceptedOn : Option Handle
  deriving DecidableEq, Repr

/-- Events staged for the Dispatcher. -/
inductive Event
  | sigOpen (req : Request)
  | sigClose
  | sigFault
  | sigSend (desc : TxDescriptor)
  deriving DecidableEq, Repr

/-- One step of the Dispatcher inside an action.  An action is the list of the
steps it still has to make. -/
inductive DispOp
  | exchangeFaultPending
  | transition (event : SerialEvent)
  | resolveOpen
  | exchangeCancelOpen
  | clearFaultPending
  | publish (state : PortState)
  | openDevice
  | startWriter
  | storeOpenResult (result : OpenResult)
  | closeAdmission
  | openAdmission
  | releaseDeferred
  | stopWriter
  | joinWriter
  | stopReader
  | joinReader
  | submitClose
  | commitOpen
  | commitClose
  | resetDisplay
  | sendLoadGeneration (desc : TxDescriptor)
  | sendLoadState (desc : TxDescriptor)
  | sendEnqueue (desc : TxDescriptor)
  deriving DecidableEq, Repr

/-- Where the single ABI caller stands.  `sync` tells `xcom_open` from
`xcom_open_async`; the loaded values are the locals of the call. -/
inductive AbiPc
  | idle
  | queueLoadState (sync : Bool) (cfg : SerialConfig)
  | queueLoadResult (sync : Bool) (cfg : SerialConfig) (currentState : PortState)
  | queueStoreBusy (sync : Bool)
  | queueStoreCancel (sync : Bool)
  | queueSubmit (sync : Bool)
  | queueRejected
  | openPollResult (req : Request) (i : Nat)
  | openPollState (req : Request) (i : Nat)
  | openPollFailure (req : Request)
  | openDeadline (req : Request)
  | takeLoadState
  | takeLoadResult
  | takeFailure
  | closeLoadState
  | closeLoadResult (st : PortState)
  | closeStoreCancel
  | closeSubmit
  | closePoll
  | sendLoadState (data : List UInt8)
  | sendAlloc (data : List UInt8) (seen : Option Handle)
  | sendLoadGeneration (data : List UInt8) (seen : Option Handle)
  | sendSubmit (desc : TxDescriptor)
  deriving DecidableEq, Repr

/-- Where the backend read thread stands: `absent` before a start and after the
join, `running` in the read loop, otherwise inside `serial_fault_callback`. -/
inductive ReaderPc
  | absent
  | running
  | faultLoadAdmission
  | faultSubmit
  | faultStoreState
  | faultStorePending
  | exited
  deriving DecidableEq, Repr

/-- Where the session write thread stands. -/
inductive WriterPc
  | inactive
  | wait
  | pop
  | loadGeneration (job : TxDescriptor)
  | loadState (job : TxDescriptor)
  | write (job : TxDescriptor)
  | faultSubmit
  | faultStoreState
  | faultStorePending
  | release
  | exited
  deriving DecidableEq, Repr

/-- What a run is judged by. -/
inductive Obs
  | published (state : PortState) (generation : UInt32) (req : Option Request)
  | faultStored
  | openQueued (req : Request)
  | openResolved (req : Option Request) (result : OpenResult)
  | openReturned (req : Request) (status : XcomStatus)
  | takeReturned (req : Option Request) (status : XcomStatus)
  | closeReturned (status : XcomStatus)
  | written (desc : TxDescriptor) (handle : Handle) (bytes : List UInt8)
  deriving DecidableEq, Repr

/-- The whole state.  `current`, `nextRequest`, `nextHandle` and `trace` (newest
first) are history. -/
structure World where
  core : CoreCtx := {}
  serialState : PortState := .portClosed
  agenda : List DispOp := []
  current : Option Request := none
  events : List Event := []
  abi : AbiPc := .idle
  reader : ReaderPc := .absent
  readerStop : Bool := false
  writer : WriterPc := .inactive
  writerStop : Bool := false
  jobs : List TxDescriptor := []
  device : Option Handle := none
  nextRequest : Request := 0
  nextHandle : Handle := 0
  trace : List Obs := []
  deriving DecidableEq, Repr

namespace World

/-- Appends an observation to the history. -/
@[simp] def emit (w : World) (o : Obs) : World := { w with trace := o :: w.trace }

/-- Stages an accepted event. -/
@[simp] def stage (w : World) (e : Event) : World := { w with events := w.events ++ [e] }

/-- The last open request that was accepted. -/
def lastRequest (w : World) : Option Request :=
  if w.nextRequest = 0 then none else some (w.nextRequest - 1)

/-- `SessionWriter::active`: the thread object is joinable. -/
def writerActive (w : World) : Bool := w.writer ≠ .inactive

theorem writerActive_iff (w : World) : w.writerActive = true ↔ w.writer ≠ .inactive := by
  simp [writerActive]

end World

end Xcom
