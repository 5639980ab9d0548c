import Xcom.File.Storage
import Xcom.Foundation.FixedPool

/-!
# The state of the file writer

Everything `LogWriter::Impl` shares between the one ABI caller, the serial read thread
and the writer thread, with a program counter for each of them.  The events that only
wake a thread up are left out: every thread may look again at any time.

Fields marked as history are read by no step.
-/

namespace Xcom.File

/-- `Completion`: the answer of a synchronous request.  It is shared by the caller and
the queued job. -/
structure Completion where
  refCount : Nat := 0
  status : XcomStatus := .errIo
  done : Bool := false
  deriving DecidableEq, Repr

/-- `AtomicCompletion`. -/
structure AtomicCompletion where
  requestId : UInt64
  status : XcomStatus
  deriving DecidableEq, Repr

/-- Where a thread stands in `acquire_append_lease`: before the first load, the
increment, the second load, and the decrement of a refused attempt. -/
inductive LeasePc
  | load
  | add
  | recheck
  | retreat
  deriving DecidableEq, Repr

/-- How `acquire_append_lease` goes on. -/
inductive LeaseNext
  | goOn (pc : LeasePc)
  | granted
  | refused
  deriving DecidableEq, Repr

/-- Where the ABI caller stands.  `shutdown` tells the close inside `shutdown` from
`xcom_log_close`. -/
inductive CallerPc
  | idle
  -- open
  | openLoadAccepting (job : FileJob)
  -- append
  | appendLease (pc : LeasePc) (data : List UInt8)
  | appendAlloc (data : List UInt8)
  | appendEnqueue (job : FileJob)
  | appendUndo (block : BlockId)
  | appendRelease
  -- close_append_admission
  | closeStore (shutdown : Bool)
  | closeWait (shutdown : Bool)
  -- submit_sync
  | syncAcquire (shutdown : Bool) (job : FileJob)
  | syncEnqueue (shutdown : Bool) (job : FileJob) (completion : CompletionId)
  | syncUndo (shutdown : Bool) (job : FileJob) (completion : CompletionId)
  | syncWait (shutdown : Bool) (job : FileJob) (completion : CompletionId)
  -- the asynchronous requests
  | submitReserve (copied : Bool) (job : FileJob)
  | submitAlloc (job : FileJob)
  | submitEnqueue (job : FileJob)
  | submitUndoBlock (block : BlockId)
  | submitUndoReservation
  -- take_completion
  | takePop
  | takeRelease (completion : AtomicCompletion)
  -- shutdown
  | shutdownReject
  | shutdownStop
  | shutdownJoin
  deriving DecidableEq, Repr

/-- Where the read thread stands in `rx_ingress`, as far as the file lane goes. -/
inductive ReaderPc
  | idle
  | lease (pc : LeasePc)
  | leased
  deriving DecidableEq, Repr

/-- Who called `process_rx_ref`. -/
inductive RxCaller
  | loop
  | close (job : FileJob)
  | cancel
  deriving DecidableEq, Repr

/-- Where the writer thread stands.  `cancelling` tells `finish` inside
`cancel_pending` from the one at the end of `process`. -/
inductive WriterPc
  | absent
  | top
  | popJob
  | popRaw
  | process (job : FileJob)
  | openStore (job : FileJob) (status : XcomStatus)
  | append (job : FileJob)
  | appendFailed (job : FileJob)
  | closeDrain (job : FileJob)
  | closeReset (job : FileJob)
  -- process_rx_ref
  | rx (segment : List UInt8) (offset : Nat) (caller : RxCaller)
  | rxWrite (segment : List UInt8) (offset : Nat) (caller : RxCaller)
  -- finish
  | finish (cancelling : Bool) (job : FileJob) (status : XcomStatus)
  | releaseBlock (cancelling : Bool) (job : FileJob) (status : XcomStatus)
  | completeSync (cancelling : Bool) (job : FileJob) (status : XcomStatus)
  | dropCompletion (cancelling : Bool) (completion : CompletionId)
  -- the end of the thread
  | cancelJobs
  | cancelRx
  | resetLog
  | resetStream
  | exited
  deriving DecidableEq, Repr

/-- A file the writer has closed, with what it held then and everything it was to hold:
the segments published and the appends accepted while it was open.  History. -/
structure ClosedFile where
  log : LogFile
  content : List UInt8
  segments : List (List UInt8)
  appends : List (List UInt8)
  deriving DecidableEq, Repr

/-- The whole state.  `nextCall` and everything from `returned` on is history: the
statuses `open` has returned, the request ids in the order of their acceptance, the
completions taken, what was published and accepted for the open log file, the files
closed so far, and whether `close_append_admission` has returned true since an Open
last admitted appends. -/
structure LogWriter where
  running : Bool := false
  stopping : Bool := false
  acceptingLog : Bool := false
  appendersInFlight : Nat := 0
  pendingCompletions : Nat := 0
  dataPool : FixedPool kFileBlockCount := {}
  completionPool : FixedPool kCompletionPoolCapacity := {}
  cells : CompletionId → Completion := fun _ => {}
  jobs : List FileJob := []
  completions : List AtomicCompletion := []
  rawReady : List (List UInt8) := []
  files : FileState
  caller : CallerPc := .idle
  reader : ReaderPc := .idle
  writer : WriterPc := .absent
  nextCall : Call := 0
  returned : List (Call × XcomStatus) := []
  accepted : List UInt64 := []
  taken : List AtomicCompletion := []
  segments : List (List UInt8) := []
  appends : List (List UInt8) := []
  closedFiles : List ClosedFile := []
  admissionClosed : Bool := false

namespace LeasePc

/-- One step of `acquire_append_lease`. -/
def next (accepting : Bool) : LeasePc → LeaseNext
  | load => if accepting then .goOn add else .refused
  | add => .goOn recheck
  | recheck => if accepting then .granted else .goOn retreat
  | retreat => .goOn load

/-- What the step does to `appenders_in_flight`. -/
def count (inFlight : Nat) : LeasePc → Nat
  | add => inFlight + 1
  | retreat => inFlight - 1
  | _ => inFlight

/-- The attempt is counted in `appenders_in_flight`. -/
def counted : LeasePc → Bool
  | recheck | retreat => true
  | _ => false

end LeasePc

namespace LogWriter

/-- The cells after `release_completion`. -/
def releasedCells (s : LogWriter) (c : CompletionId) : CompletionId → Completion :=
  Function.update s.cells c { s.cells c with refCount := (s.cells c).refCount - 1 }

/-- The pool after `release_completion`: the last reference returns the cell. -/
def releasedPool (s : LogWriter) (c : CompletionId) : FixedPool kCompletionPoolCapacity :=
  if (s.cells c).refCount = 1 then s.completionPool.release c else s.completionPool

/-- `enqueue` accepts a job. -/
def admits (s : LogWriter) : Bool :=
  s.running ∧ ¬ s.stopping ∧ s.jobs.length < kFileJobCapacity

/-- The pool after `release_block`. -/
def releasedBlock (s : LogWriter) : Option BlockId → FixedPool kFileBlockCount
  | none => s.dataPool
  | some block => s.dataPool.release block

end LogWriter

end Xcom.File
