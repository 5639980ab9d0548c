import Xcom.File.State

/-!
# The ABI caller and the read thread

The functions of `LogWriter` that the single ABI caller runs, one shared access a step,
and the lease that `rx_ingress` holds on the file lane.
-/

namespace Xcom.File

/-- The calls of the ABI caller, and the choices of the environment inside them: whether
the event of a new completion is valid, and whether a wait has timed out. -/
inductive CallerLabel
  | startCall (spawned : Bool)
  | openCall (source : Option Path) (append : Bool)
  | appendCall (data : Option (List UInt8))
  | flushCall
  | closeCall
  | submitAtomicCall (source : Option Path) (data : Option (List UInt8)) (requestId : UInt64)
  | submitAtomicBorrowedCall (source : Option Path) (data : Option (List UInt8))
      (requestId : UInt64)
  | streamBeginCall (source : Option Path) (streamId requestId : UInt64)
  | streamAppendBorrowedCall (streamId : UInt64) (data : Option (List UInt8))
      (requestId : UInt64)
  | streamCommitCall (streamId requestId : UInt64)
  | streamAbortCall (streamId requestId : UInt64)
  | takeCall
  | shutdownCall
  | run
  | acquire (valid : Bool)
  | timeout
  deriving DecidableEq, Repr

/-- What the read thread does next. -/
inductive ReaderLabel
  | ingress
  | run
  | publish (segment : List UInt8)
  | release
  deriving DecidableEq, Repr

/-- Where `append` goes on after a step of its lease. -/
def LeaseNext.appendPc (data : List UInt8) : LeaseNext → CallerPc
  | goOn pc => .appendLease pc data
  | granted => .appendAlloc data
  | refused => .idle

/-- Where `rx_ingress` goes on after a step of its lease. -/
def LeaseNext.readerPc : LeaseNext → ReaderPc
  | goOn pc => .lease pc
  | granted => .leased
  | refused => .idle

/-- How a request that was not queued is undone. -/
def submitUndo : Option BlockId → CallerPc
  | none => .submitUndoReservation
  | some block => .submitUndoBlock block

namespace LogWriter

/-- Where `submit_sync` returns to: the caller or `shutdown`. -/
def syncCaller (shutdown : Bool) (status : XcomStatus) : CallerPc :=
  if shutdown then if status = .ok then .shutdownStop else .shutdownReject else .idle

/-- The history once `submit_sync` has returned. -/
def syncReturned (s : LogWriter) (shutdown : Bool) (job : FileJob) (status : XcomStatus) :
    List (Call × XcomStatus) :=
  if shutdown = false ∧ job.kind = .fileOpen then (job.call, status) :: s.returned
  else s.returned

/-- An asynchronous request whose arguments are in order goes on to reserve its
completion. -/
def submit (s : LogWriter) (copied : Bool) (job : Option FileJob) : LogWriter :=
  match job with
  | none => s
  | some job => { s with caller := .submitReserve copied job }

/-- The data of a request that copies it. -/
def copiedData (data : Option (List UInt8)) : Option (List UInt8) :=
  data.filter fun bytes => bytes.length ≤ kFileBlockBytes

/-- The job of `submit_atomic` and of `submit_atomic_borrowed`. -/
def atomicJob (source : Option Path) (data : Option (List UInt8)) (requestId : UInt64)
    (borrowed : Bool) : Option FileJob :=
  (utf8ToWide source).bind fun path => data.map fun bytes =>
    { kind := .atomicWrite, data := bytes, borrowed := borrowed, requestId := requestId
      path := path }

/-- A job of the stream functions: id 0 names no stream. -/
def streamJob (kind : Kind) (streamId requestId : UInt64) (path : Path)
    (data : List UInt8) : Option FileJob :=
  if streamId = 0 then none
  else some { kind := kind, data := data, borrowed := kind = .streamAppend
              requestId := requestId, streamId := streamId, path := path }

/-- One step of the ABI caller. -/
def callerStep (s : LogWriter) (l : CallerLabel) : Option LogWriter :=
  match s.caller, l with
  | .idle, .startCall spawned =>
    if s.running then some s
    else if spawned then some { s with stopping := false, running := true, writer := .top }
    else some { s with stopping := false }
  | .idle, .openCall source append =>
    match utf8ToWide source with
    | none => some
        { s with returned := (s.nextCall, .errParam) :: s.returned, nextCall := s.nextCall + 1 }
    | some path => some
        { s with
          nextCall := s.nextCall + 1
          caller := .openLoadAccepting
            { kind := .fileOpen, append := append, path := path, call := s.nextCall } }
  | .idle, .appendCall data =>
    match copiedData data with
    | none => some s
    | some bytes => some { s with caller := .appendLease .load bytes }
  | .idle, .flushCall => some { s with caller := .syncAcquire false { kind := .fileFlush } }
  | .idle, .closeCall => some { s with caller := .closeStore false }
  | .idle, .submitAtomicCall source data requestId =>
    some (s.submit true (atomicJob source (copiedData data) requestId false))
  | .idle, .submitAtomicBorrowedCall source data requestId =>
    some (s.submit false (atomicJob source data requestId true))
  | .idle, .streamBeginCall source streamId requestId =>
    some (s.submit false ((utf8ToWide source).bind fun path =>
      streamJob .streamBegin streamId requestId path []))
  | .idle, .streamAppendBorrowedCall streamId data requestId =>
    some (s.submit false (data.bind fun bytes =>
      streamJob .streamAppend streamId requestId [] bytes))
  | .idle, .streamCommitCall streamId requestId =>
    some (s.submit false (streamJob .streamCommit streamId requestId [] []))
  | .idle, .streamAbortCall streamId requestId =>
    some (s.submit false (streamJob .streamAbort streamId requestId [] []))
  | .idle, .takeCall => some { s with caller := .takePop }
  | .idle, .shutdownCall =>
    if s.running then some { s with caller := .closeStore true } else some s
  -- open
  | .openLoadAccepting job, .run =>
    if s.acceptingLog then
      some { s with caller := .idle, returned := s.syncReturned false job .errBusy }
    else some { s with caller := .syncAcquire false job }
  -- append
  | .appendLease pc data, .run => some
      { s with
        appendersInFlight := pc.count s.appendersInFlight
        caller := (pc.next s.acceptingLog).appendPc data }
  | .appendAlloc data, .run =>
    match s.dataPool.allocate with
    | none => some { s with caller := .appendRelease }
    | some (block, pool) => some
        { s with
          dataPool := pool
          caller := .appendEnqueue { kind := .fileAppend, blockId := some block, data := data } }
  | .appendEnqueue job, .run =>
    if s.admits then
      some { s with
        jobs := s.jobs ++ [job], appends := s.appends ++ [job.data], caller := .appendRelease }
    else
      match job.blockId with
      | none => none
      | some block => some { s with caller := .appendUndo block }
  | .appendUndo block, .run =>
    some { s with dataPool := s.dataPool.release block, caller := .appendRelease }
  | .appendRelease, .run =>
    some { s with appendersInFlight := s.appendersInFlight - 1, caller := .idle }
  -- close_append_admission
  | .closeStore shutdown, .run =>
    some { s with acceptingLog := false, caller := .closeWait shutdown }
  | .closeWait shutdown, .run =>
    if s.appendersInFlight = 0 then
      some { s with
        admissionClosed := true, caller := .syncAcquire shutdown { kind := .fileClose } }
    else some s
  | .closeWait shutdown, .timeout =>
    if s.appendersInFlight = 0 then none
    else some { s with caller := syncCaller shutdown .errTimeout }
  -- submit_sync
  | .syncAcquire shutdown job, .acquire valid =>
    match s.completionPool.allocate with
    | none => some
        { s with
          caller := syncCaller shutdown .errFull
          returned := s.syncReturned shutdown job .errFull }
    | some (c, pool) =>
      if valid then
        some { s with
          completionPool := pool
          cells := Function.update s.cells c { refCount := 2 }
          caller := .syncEnqueue shutdown { job with completion := some c } c }
      else
        some { s with
          caller := syncCaller shutdown .errFull
          returned := s.syncReturned shutdown job .errFull }
  | .syncEnqueue shutdown job c, .run =>
    if s.admits then
      some { s with jobs := s.jobs ++ [job], caller := .syncWait shutdown job c }
    else
      some { s with
        cells := s.releasedCells c, completionPool := s.releasedPool c
        caller := .syncUndo shutdown job c }
  | .syncUndo shutdown job c, .run => some
      { s with
        cells := s.releasedCells c, completionPool := s.releasedPool c
        caller := syncCaller shutdown .errFull
        returned := s.syncReturned shutdown job .errFull }
  | .syncWait shutdown job c, .run =>
    if (s.cells c).done then
      some { s with
        cells := s.releasedCells c, completionPool := s.releasedPool c
        caller := syncCaller shutdown (s.cells c).status
        returned := s.syncReturned shutdown job (s.cells c).status }
    else none
  | .syncWait shutdown job c, .timeout =>
    if (s.cells c).done then none
    else
      some { s with
        cells := s.releasedCells c, completionPool := s.releasedPool c
        caller := syncCaller shutdown .errTimeout
        returned := s.syncReturned shutdown job .errTimeout }
  -- the asynchronous requests
  | .submitReserve copied job, .run =>
    if s.pendingCompletions < kCompletionCapacity then
      some { s with
        pendingCompletions := s.pendingCompletions + 1
        caller := if copied then .submitAlloc job else .submitEnqueue job }
    else some { s with caller := .idle }
  | .submitAlloc job, .run =>
    match s.dataPool.allocate with
    | none => some { s with caller := .submitUndoReservation }
    | some (block, pool) => some
        { s with
          dataPool := pool, caller := .submitEnqueue { job with blockId := some block } }
  | .submitEnqueue job, .run =>
    if s.admits then
      some { s with
        jobs := s.jobs ++ [job], accepted := s.accepted ++ [job.requestId], caller := .idle }
    else some { s with caller := submitUndo job.blockId }
  | .submitUndoBlock block, .run =>
    some { s with dataPool := s.dataPool.release block, caller := .submitUndoReservation }
  | .submitUndoReservation, .run =>
    some { s with pendingCompletions := s.pendingCompletions - 1, caller := .idle }
  -- take_completion
  | .takePop, .run =>
    match s.completions with
    | [] => some { s with caller := .idle }
    | completion :: rest => some { s with completions := rest, caller := .takeRelease completion }
  | .takeRelease completion, .run =>
    some { s with
      pendingCompletions := s.pendingCompletions - 1
      taken := s.taken ++ [completion]
      caller := .idle }
  -- shutdown
  | .shutdownReject, .run => some { s with acceptingLog := false, caller := .shutdownStop }
  | .shutdownStop, .run => some { s with stopping := true, caller := .shutdownJoin }
  | .shutdownJoin, .run =>
    if s.writer = .exited then
      some { s with running := false, writer := .absent, caller := .idle }
    else none
  | _, _ => none

/-- One step of the read thread.  What it does apart from the file lane is left out, so
it may publish any segment under its lease. -/
def readerStep (s : LogWriter) (l : ReaderLabel) : Option LogWriter :=
  match s.reader, l with
  | .idle, .ingress => some { s with reader := .lease .load }
  | .lease pc, .run => some
      { s with
        appendersInFlight := pc.count s.appendersInFlight
        reader := (pc.next s.acceptingLog).readerPc }
  | .leased, .publish segment => some
      { s with rawReady := s.rawReady ++ [segment], segments := s.segments ++ [segment] }
  | .leased, .release =>
    some { s with appendersInFlight := s.appendersInFlight - 1, reader := .idle }
  | _, _ => none

end LogWriter

end Xcom.File
