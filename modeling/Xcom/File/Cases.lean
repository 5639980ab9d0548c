import Xcom.File.Writer

/-!
# What a step of the file writer can be

The inversion lemmas of the three threads: each says once what one step of its thread
does to the shared state.
-/

namespace Xcom.File

/-- The points of a call from which there is but one step. -/
def CallerPc.single : CallerPc → Bool
  | .idle | .closeWait _ | .syncAcquire .. | .syncWait .. => false
  | _ => true

namespace LogWriter

/-- A fresh asynchronous job. -/
structure AsyncJob (job : FileJob) : Prop where
  kind : job.kind.isAsync = true
  offset : job.offset = 0
  blockId : job.blockId = none
  completion : job.completion = none

theorem atomicJob_async {source : Option Path} {data : Option (List UInt8)}
    {requestId : UInt64} {borrowed : Bool} {job : FileJob}
    (h : atomicJob source data requestId borrowed = some job) : AsyncJob job := by
  simp only [atomicJob, Option.bind_eq_some_iff, Option.map_eq_some_iff] at h
  obtain ⟨path, -, bytes, -, rfl⟩ := h
  constructor <;> rfl

theorem streamJob_async {kind : Kind} {streamId requestId : UInt64} {path : Path}
    {data : List UInt8} {job : FileJob} (hk : kind.isAsync = true)
    (h : streamJob kind streamId requestId path data = some job) : AsyncJob job := by
  unfold streamJob at h
  split at h
  · cases h
  · cases h
    exact ⟨hk, rfl, rfl, rfl⟩

/-- What a step of the ABI caller does. -/
inductive CallerStep (s : LogWriter) : LogWriter → Prop
  | refused (hpc : s.caller = .idle) : CallerStep s s
  | started (hpc : s.caller = .idle) (hr : s.running = false) :
      CallerStep s { s with stopping := false, running := true, writer := .top }
  | startFails (hpc : s.caller = .idle) (hr : s.running = false) :
      CallerStep s { s with stopping := false }
  | openParam (hpc : s.caller = .idle) :
      CallerStep s { s with
        returned := (s.nextCall, .errParam) :: s.returned, nextCall := s.nextCall + 1 }
  | openCall (append : Bool) (path : Path) (hpc : s.caller = .idle) :
      CallerStep s { s with
        nextCall := s.nextCall + 1
        caller := .openLoadAccepting
          { kind := .fileOpen, append := append, path := path, call := s.nextCall } }
  | appendCall (data : List UInt8) (hpc : s.caller = .idle) :
      CallerStep s { s with caller := .appendLease .load data }
  | flushCall (hpc : s.caller = .idle) :
      CallerStep s { s with caller := .syncAcquire false { kind := .fileFlush } }
  | closeCall (shutdown : Bool) (hpc : s.caller = .idle)
      (hr : shutdown = true → s.running = true) :
      CallerStep s { s with caller := .closeStore shutdown }
  | submitCall (copied : Bool) (job : FileJob) (hpc : s.caller = .idle) (hj : AsyncJob job) :
      CallerStep s { s with caller := .submitReserve copied job }
  | takeCall (hpc : s.caller = .idle) : CallerStep s { s with caller := .takePop }
  -- open
  | openBusy (job : FileJob) (hpc : s.caller = .openLoadAccepting job)
      (ha : s.acceptingLog = true) :
      CallerStep s { s with caller := .idle, returned := s.syncReturned false job .errBusy }
  | openProceeds (job : FileJob) (hpc : s.caller = .openLoadAccepting job)
      (ha : s.acceptingLog = false) :
      CallerStep s { s with caller := .syncAcquire false job }
  -- append
  | appendLease (pc : LeasePc) (data : List UInt8) (hpc : s.caller = .appendLease pc data) :
      CallerStep s { s with
        appendersInFlight := pc.count s.appendersInFlight
        caller := (pc.next s.acceptingLog).appendPc data }
  | appendNoBlock (data : List UInt8) (hpc : s.caller = .appendAlloc data) :
      CallerStep s { s with caller := .appendRelease }
  | appendAlloc (data : List UInt8) (block : BlockId) (pool : FixedPool kFileBlockCount)
      (hpc : s.caller = .appendAlloc data) (ha : s.dataPool.allocate = some (block, pool)) :
      CallerStep s { s with
        dataPool := pool
        caller := .appendEnqueue { kind := .fileAppend, blockId := some block, data := data } }
  | appendEnqueue (job : FileJob) (hpc : s.caller = .appendEnqueue job)
      (ha : s.admits = true) :
      CallerStep s { s with
        jobs := s.jobs ++ [job], appends := s.appends ++ [job.data], caller := .appendRelease }
  | appendFull (job : FileJob) (block : BlockId) (hpc : s.caller = .appendEnqueue job)
      (hb : job.blockId = some block) : CallerStep s { s with caller := .appendUndo block }
  | appendUndo (block : BlockId) (hpc : s.caller = .appendUndo block) :
      CallerStep s { s with dataPool := s.dataPool.release block, caller := .appendRelease }
  | appendRelease (hpc : s.caller = .appendRelease) :
      CallerStep s { s with appendersInFlight := s.appendersInFlight - 1, caller := .idle }
  -- close_append_admission
  | closeStore (shutdown : Bool) (hpc : s.caller = .closeStore shutdown) :
      CallerStep s { s with acceptingLog := false, caller := .closeWait shutdown }
  | closeDrained (shutdown : Bool) (hpc : s.caller = .closeWait shutdown)
      (h0 : s.appendersInFlight = 0) :
      CallerStep s { s with
        admissionClosed := true, caller := .syncAcquire shutdown { kind := .fileClose } }
  | closeWaits (shutdown : Bool) (hpc : s.caller = .closeWait shutdown) : CallerStep s s
  | closeTimesOut (shutdown : Bool) (hpc : s.caller = .closeWait shutdown) :
      CallerStep s { s with caller := syncCaller shutdown .errTimeout }
  -- submit_sync
  | syncFull (shutdown : Bool) (job : FileJob) (hpc : s.caller = .syncAcquire shutdown job) :
      CallerStep s { s with
        caller := syncCaller shutdown .errFull
        returned := s.syncReturned shutdown job .errFull }
  | syncAcquire (shutdown : Bool) (job : FileJob) (c : CompletionId)
      (pool : FixedPool kCompletionPoolCapacity) (hpc : s.caller = .syncAcquire shutdown job)
      (ha : s.completionPool.allocate = some (c, pool)) :
      CallerStep s { s with
        completionPool := pool
        cells := Function.update s.cells c { refCount := 2 }
        caller := .syncEnqueue shutdown { job with completion := some c } c }
  | syncEnqueue (shutdown : Bool) (job : FileJob) (c : CompletionId)
      (hpc : s.caller = .syncEnqueue shutdown job c) (ha : s.admits = true) :
      CallerStep s { s with jobs := s.jobs ++ [job], caller := .syncWait shutdown job c }
  | syncRejected (shutdown : Bool) (job : FileJob) (c : CompletionId)
      (hpc : s.caller = .syncEnqueue shutdown job c) :
      CallerStep s { s with
        cells := s.releasedCells c, completionPool := s.releasedPool c
        caller := .syncUndo shutdown job c }
  | syncUndo (shutdown : Bool) (job : FileJob) (c : CompletionId)
      (hpc : s.caller = .syncUndo shutdown job c) :
      CallerStep s { s with
        cells := s.releasedCells c, completionPool := s.releasedPool c
        caller := syncCaller shutdown .errFull
        returned := s.syncReturned shutdown job .errFull }
  | syncDone (shutdown : Bool) (job : FileJob) (c : CompletionId)
      (hpc : s.caller = .syncWait shutdown job c) (hd : (s.cells c).done = true) :
      CallerStep s { s with
        cells := s.releasedCells c, completionPool := s.releasedPool c
        caller := syncCaller shutdown (s.cells c).status
        returned := s.syncReturned shutdown job (s.cells c).status }
  | syncTimesOut (shutdown : Bool) (job : FileJob) (c : CompletionId)
      (hpc : s.caller = .syncWait shutdown job c) (hd : (s.cells c).done = false) :
      CallerStep s { s with
        cells := s.releasedCells c, completionPool := s.releasedPool c
        caller := syncCaller shutdown .errTimeout
        returned := s.syncReturned shutdown job .errTimeout }
  -- the asynchronous requests
  | submitReserve (copied : Bool) (job : FileJob) (hpc : s.caller = .submitReserve copied job)
      (hp : s.pendingCompletions < kCompletionCapacity) :
      CallerStep s { s with
        pendingCompletions := s.pendingCompletions + 1
        caller := if copied then .submitAlloc job else .submitEnqueue job }
  | submitFull (copied : Bool) (job : FileJob) (hpc : s.caller = .submitReserve copied job) :
      CallerStep s { s with caller := .idle }
  | submitNoBlock (job : FileJob) (hpc : s.caller = .submitAlloc job) :
      CallerStep s { s with caller := .submitUndoReservation }
  | submitAlloc (job : FileJob) (block : BlockId) (pool : FixedPool kFileBlockCount)
      (hpc : s.caller = .submitAlloc job) (ha : s.dataPool.allocate = some (block, pool)) :
      CallerStep s { s with
        dataPool := pool, caller := .submitEnqueue { job with blockId := some block } }
  | submitEnqueue (job : FileJob) (hpc : s.caller = .submitEnqueue job)
      (ha : s.admits = true) :
      CallerStep s { s with
        jobs := s.jobs ++ [job], accepted := s.accepted ++ [job.requestId], caller := .idle }
  | submitRejected (job : FileJob) (hpc : s.caller = .submitEnqueue job) :
      CallerStep s { s with caller := submitUndo job.blockId }
  | submitUndoBlock (block : BlockId) (hpc : s.caller = .submitUndoBlock block) :
      CallerStep s { s with
        dataPool := s.dataPool.release block, caller := .submitUndoReservation }
  | submitUndoReservation (hpc : s.caller = .submitUndoReservation) :
      CallerStep s { s with pendingCompletions := s.pendingCompletions - 1, caller := .idle }
  -- take_completion
  | takeEmpty (hpc : s.caller = .takePop) (hc : s.completions = []) :
      CallerStep s { s with caller := .idle }
  | takePop (completion : AtomicCompletion) (rest : List AtomicCompletion)
      (hpc : s.caller = .takePop) (hc : s.completions = completion :: rest) :
      CallerStep s { s with completions := rest, caller := .takeRelease completion }
  | takeRelease (completion : AtomicCompletion) (hpc : s.caller = .takeRelease completion) :
      CallerStep s { s with
        pendingCompletions := s.pendingCompletions - 1
        taken := s.taken ++ [completion]
        caller := .idle }
  -- shutdown
  | shutdownReject (hpc : s.caller = .shutdownReject) :
      CallerStep s { s with acceptingLog := false, caller := .shutdownStop }
  | shutdownStop (hpc : s.caller = .shutdownStop) :
      CallerStep s { s with stopping := true, caller := .shutdownJoin }
  | shutdownJoin (hpc : s.caller = .shutdownJoin) (hw : s.writer = .exited) :
      CallerStep s { s with running := false, writer := .absent, caller := .idle }

theorem submit_cases {s : LogWriter} {copied : Bool} {job : Option FileJob}
    (hpc : s.caller = .idle) (hj : ∀ j, job = some j → AsyncJob j) :
    CallerStep s (s.submit copied job) := by
  cases job with
  | none => exact .refused hpc
  | some j => exact .submitCall copied j hpc (hj j rfl)

/-- A call of the interface begins. -/
theorem idleStep_cases {s s' : LogWriter} {l : CallerLabel} (hpc : s.caller = .idle)
    (h : s.callerStep l = some s') : CallerStep s s' := by
  unfold callerStep at h
  rw [hpc] at h
  cases l with
  | startCall spawned =>
    simp only at h
    split at h
    · cases h; exact .refused hpc
    split at h
    · cases h
      rw [← hpc]
      exact .started hpc (by simp_all)
    · cases h
      rw [← hpc]
      exact .startFails hpc (by simp_all)
  | openCall source append =>
    simp only at h
    split at h
    · cases h
      rw [← hpc]
      exact .openParam hpc
    · cases h; exact .openCall _ _ hpc
  | appendCall data =>
    simp only at h
    split at h
    · cases h; exact .refused hpc
    · cases h; exact .appendCall _ hpc
  | flushCall => cases h; exact .flushCall hpc
  | closeCall => cases h; exact .closeCall false hpc (by simp)
  | submitAtomicCall source data requestId =>
    cases h; exact submit_cases hpc fun j hj => atomicJob_async hj
  | submitAtomicBorrowedCall source data requestId =>
    cases h; exact submit_cases hpc fun j hj => atomicJob_async hj
  | streamBeginCall source streamId requestId =>
    cases h
    refine submit_cases hpc fun j hj => ?_
    obtain ⟨path, -, hj⟩ := Option.bind_eq_some_iff.mp hj
    exact streamJob_async rfl hj
  | streamAppendBorrowedCall streamId data requestId =>
    cases h
    refine submit_cases hpc fun j hj => ?_
    obtain ⟨bytes, -, hj⟩ := Option.bind_eq_some_iff.mp hj
    exact streamJob_async rfl hj
  | streamCommitCall streamId requestId =>
    cases h; exact submit_cases hpc fun j hj => streamJob_async rfl hj
  | streamAbortCall streamId requestId =>
    cases h; exact submit_cases hpc fun j hj => streamJob_async rfl hj
  | takeCall => cases h; exact .takeCall hpc
  | shutdownCall =>
    simp only at h
    split at h
    · cases h; exact .closeCall true hpc fun _ => ‹_›
    · cases h; exact .refused hpc
  | run | acquire | timeout => cases h

theorem single_label {s s' : LogWriter} {l : CallerLabel} (hpc : s.caller.single = true)
    (h : s.callerStep l = some s') : l = .run := by
  unfold callerStep at h
  cases hc : s.caller <;> rw [hc] at h hpc
  case idle | closeWait | syncAcquire | syncWait => exact absurd hpc Bool.false_ne_true
  all_goals
    cases l with
    | run => rfl
    | _ => cases h

/-- `close_append_admission` loops until its deadline. -/
theorem closeWait_cases {s s' : LogWriter} {l : CallerLabel} {shutdown : Bool}
    (hpc : s.caller = .closeWait shutdown) (h : s.callerStep l = some s') :
    CallerStep s s' := by
  unfold callerStep at h
  rw [hpc] at h
  cases l with
  | run =>
    simp only at h
    split at h
    · cases h; exact .closeDrained shutdown hpc ‹_›
    · cases h; exact .closeWaits shutdown hpc
  | timeout =>
    simp only at h
    split at h
    · cases h
    · cases h; exact .closeTimesOut shutdown hpc
  | _ => cases h

theorem syncAcquire_cases {s s' : LogWriter} {l : CallerLabel} {shutdown : Bool}
    {job : FileJob} (hpc : s.caller = .syncAcquire shutdown job)
    (h : s.callerStep l = some s') : CallerStep s s' := by
  unfold callerStep at h
  rw [hpc] at h
  cases l with
  | acquire valid =>
    simp only at h
    split at h
    · cases h; exact .syncFull shutdown job hpc
    split at h
    · cases h; exact .syncAcquire shutdown job _ _ hpc ‹_›
    · cases h; exact .syncFull shutdown job hpc
  | _ => cases h

theorem syncWait_cases {s s' : LogWriter} {l : CallerLabel} {shutdown : Bool}
    {job : FileJob} {c : CompletionId} (hpc : s.caller = .syncWait shutdown job c)
    (h : s.callerStep l = some s') : CallerStep s s' := by
  unfold callerStep at h
  rw [hpc] at h
  cases l with
  | run =>
    simp only at h
    split at h
    · cases h; exact .syncDone shutdown job c hpc ‹_›
    · cases h
  | timeout =>
    simp only at h
    split at h
    · cases h
    · cases h; exact .syncTimesOut shutdown job c hpc (by simp_all)
  | _ => cases h

/-- The steps from a point with but one, by the point. -/
theorem runStep_cases {s s' : LogWriter} (hpc' : s.caller.single = true)
    (h : s.callerStep .run = some s') : CallerStep s s' := by
  unfold callerStep at h
  cases hpc : s.caller <;> rw [hpc] at h hpc' <;> simp only at h
  case idle | closeWait | syncAcquire | syncWait => cases hpc'
  case openLoadAccepting job =>
    split at h
    · cases h; exact .openBusy job hpc ‹_›
    · cases h; exact .openProceeds job hpc (by simp_all)
  case appendLease pc data => cases h; exact .appendLease pc data hpc
  case appendAlloc data =>
    split at h
    · cases h; exact .appendNoBlock data hpc
    · cases h; exact .appendAlloc data _ _ hpc ‹_›
  case appendEnqueue job =>
    split at h
    · cases h; exact .appendEnqueue job hpc ‹_›
    split at h
    · cases h
    · cases h; exact .appendFull job _ hpc ‹_›
  case appendUndo block => cases h; exact .appendUndo block hpc
  case appendRelease => cases h; exact .appendRelease hpc
  case closeStore shutdown => cases h; exact .closeStore shutdown hpc
  case syncEnqueue shutdown job c =>
    split at h
    · cases h; exact .syncEnqueue shutdown job c hpc ‹_›
    · cases h; exact .syncRejected shutdown job c hpc
  case syncUndo shutdown job c => cases h; exact .syncUndo shutdown job c hpc
  case submitReserve copied job =>
    split at h
    · cases h; exact .submitReserve copied job hpc ‹_›
    · cases h; exact .submitFull copied job hpc
  case submitAlloc job =>
    split at h
    · cases h; exact .submitNoBlock job hpc
    · cases h; exact .submitAlloc job _ _ hpc ‹_›
  case submitEnqueue job =>
    split at h
    · cases h; exact .submitEnqueue job hpc ‹_›
    · cases h; exact .submitRejected job hpc
  case submitUndoBlock block => cases h; exact .submitUndoBlock block hpc
  case submitUndoReservation => cases h; exact .submitUndoReservation hpc
  case takePop =>
    split at h
    · cases h; exact .takeEmpty hpc ‹_›
    · cases h; exact .takePop _ _ hpc ‹_›
  case takeRelease completion => cases h; exact .takeRelease completion hpc
  case shutdownReject => cases h; exact .shutdownReject hpc
  case shutdownStop => cases h; exact .shutdownStop hpc
  case shutdownJoin =>
    split at h
    · cases h; exact .shutdownJoin hpc ‹_›
    · cases h

theorem callerStep_cases {s s' : LogWriter} {l : CallerLabel} (h : s.callerStep l = some s') :
    CallerStep s s' := by
  cases hpc : s.caller with
  | idle => exact idleStep_cases hpc h
  | closeWait shutdown => exact closeWait_cases hpc h
  | syncAcquire shutdown job => exact syncAcquire_cases hpc h
  | syncWait shutdown job c => exact syncWait_cases hpc h
  | _ =>
    have hsingle : s.caller.single = true := by rw [hpc]; rfl
    obtain rfl := single_label hsingle h
    exact runStep_cases hsingle h

/-- What a step of the read thread does. -/
inductive ReaderStep (s : LogWriter) : LogWriter → Prop
  | ingress (hpc : s.reader = .idle) : ReaderStep s { s with reader := .lease .load }
  | lease (pc : LeasePc) (hpc : s.reader = .lease pc) :
      ReaderStep s { s with
        appendersInFlight := pc.count s.appendersInFlight
        reader := (pc.next s.acceptingLog).readerPc }
  | publish (segment : List UInt8) (hpc : s.reader = .leased) :
      ReaderStep s { s with
        rawReady := s.rawReady ++ [segment], segments := s.segments ++ [segment] }
  | release (hpc : s.reader = .leased) :
      ReaderStep s { s with appendersInFlight := s.appendersInFlight - 1, reader := .idle }

theorem readerStep_cases {s s' : LogWriter} {l : ReaderLabel} (h : s.readerStep l = some s') :
    ReaderStep s s' := by
  unfold readerStep at h
  split at h
  case h_1 hpc => cases h; exact .ingress hpc
  case h_2 pc hpc => cases h; exact .lease pc hpc
  case h_3 segment hpc => cases h; exact .publish segment hpc
  case h_4 hpc => cases h; exact .release hpc
  case h_5 => cases h

/-- What a step of the writer thread does. -/
inductive WriterStep (s : LogWriter) : LogWriter → Prop
  | top (hpc : s.writer = .top) :
      WriterStep s { s with writer := if s.stopping then .cancelJobs else .popJob }
  | noJob (hpc : s.writer = .popJob) : WriterStep s { s with writer := .popRaw }
  | popJob (job : FileJob) (rest : List FileJob) (hpc : s.writer = .popJob)
      (hj : s.jobs = job :: rest) :
      WriterStep s { s with jobs := rest, writer := .process job }
  | noRaw (hpc : s.writer = .popRaw) : WriterStep s { s with writer := .top }
  | popRaw (segment : List UInt8) (rest : List (List UInt8)) (hpc : s.writer = .popRaw)
      (hr : s.rawReady = segment :: rest) : WriterStep s { s with
        rawReady := rest
        files := s.files.noteBlock (.segment segment)
        writer := .rx segment 0 .loop }
  -- process
  | openBusy (job : FileJob) (hpc : s.writer = .process job) (hk : job.kind = .fileOpen)
      (hf : s.files.logFile.isSome = true) :
      WriterStep s { s with writer := .finish false job .errBusy }
  | openCreated (job : FileJob) (hpc : s.writer = .process job) (hk : job.kind = .fileOpen)
      (hf : s.files.logFile = none) (hh : s.files.held job.path = false) :
      WriterStep s { s with
        files := s.files.openLog job, segments := [], appends := []
        writer := .openStore job .ok }
  | openFailed (job : FileJob) (hpc : s.writer = .process job) (hk : job.kind = .fileOpen)
      (hf : s.files.logFile = none) : WriterStep s { s with writer := .openStore job .errIo }
  | appendStart (job : FileJob) (log : LogFile) (hpc : s.writer = .process job)
      (hk : job.kind = .fileAppend) (hf : s.files.logFile = some log) :
      WriterStep s { s with
        files := s.files.noteBlock (.append job.data), writer := .append job }
  | appendNotOpen (job : FileJob) (hpc : s.writer = .process job)
      (hk : job.kind = .fileAppend) (hf : s.files.logFile = none) :
      WriterStep s { s with writer := .finish false job .errNotOpen }
  | flush (job : FileJob) (status : XcomStatus) (hpc : s.writer = .process job)
      (hk : job.kind = .fileFlush) : WriterStep s { s with writer := .finish false job status }
  | close (job : FileJob) (hpc : s.writer = .process job) (hk : job.kind = .fileClose) :
      WriterStep s { s with acceptingLog := false, writer := .closeDrain job }
  | work (job : FileJob) (o : Outcomes) (files : FileState) (status : XcomStatus)
      (hpc : s.writer = .process job) (hk : job.kind.isAsync = true)
      (hw : s.files.processAsync job o = some (files, status)) :
      WriterStep s { s with files := files, writer := .finish false job status }
  | openStore (job : FileJob) (status : XcomStatus) (hpc : s.writer = .openStore job status) :
      WriterStep s { s with
        acceptingLog := status = .ok
        admissionClosed := s.admissionClosed ∧ status ≠ .ok
        writer := .finish false job status }
  | appendDone (job : FileJob) (hpc : s.writer = .append job)
      (hd : job.data.length ≤ job.offset) :
      WriterStep s { s with writer := .finish false job .ok }
  | appendFails (job : FileJob) (hpc : s.writer = .append job) :
      WriterStep s { s with writer := .appendFailed job }
  | appendWrote (job : FileJob) (count : Nat) (hpc : s.writer = .append job)
      (hc : job.offset + count ≤ job.data.length) :
      WriterStep s { s with
        files := s.files.writeLog (job.slice job.offset (job.offset + count))
        writer := .append { job with offset := job.offset + count } }
  | appendRetry (job : FileJob) (hpc : s.writer = .appendFailed job) :
      WriterStep s { s with writer := .append job }
  | appendAborted (job : FileJob) (hpc : s.writer = .appendFailed job)
      (hs : s.stopping = true) : WriterStep s { s with writer := .finish false job .errIo }
  | drain (job : FileJob) (segment : List UInt8) (rest : List (List UInt8))
      (hpc : s.writer = .closeDrain job) (hf : s.files.logFile.isSome = true)
      (hr : s.rawReady = segment :: rest) :
      WriterStep s { s with
        rawReady := rest
        files := s.files.noteBlock (.segment segment)
        writer := .rx segment 0 (.close job) }
  | drained (job : FileJob) (hpc : s.writer = .closeDrain job)
      (hr : s.files.logFile = none ∨ s.rawReady = []) :
      WriterStep s { s with writer := .closeReset job }
  | closeNone (job : FileJob) (hpc : s.writer = .closeReset job)
      (hf : s.files.logFile = none) : WriterStep s { s with writer := .finish false job .ok }
  | closeReset (job : FileJob) (log : LogFile) (status : XcomStatus)
      (hpc : s.writer = .closeReset job) (hf : s.files.logFile = some log) :
      WriterStep s { s with
        files := { s.files with logFile := none }
        closedFiles := s.closedFiles ++
          [⟨log, (s.files.fs log.path).getD [], s.segments, s.appends⟩]
        writer := .finish false job status }
  -- process_rx_ref
  | rxGoOn (segment : List UInt8) (offset : Nat) (caller : RxCaller)
      (hpc : s.writer = .rx segment offset caller) (hf : s.files.logFile.isSome = true)
      (ho : offset < segment.length) :
      WriterStep s { s with writer := .rxWrite segment offset caller }
  | rxBack (segment : List UInt8) (offset : Nat) (caller : RxCaller)
      (hpc : s.writer = .rx segment offset caller)
      (hd : s.files.logFile = none ∨ segment.length ≤ offset ∨ s.stopping = true) :
      WriterStep s { s with writer := caller.back }
  | rxFailed (segment : List UInt8) (offset : Nat) (caller : RxCaller)
      (hpc : s.writer = .rxWrite segment offset caller) :
      WriterStep s { s with writer := .rx segment offset caller }
  | rxWrote (segment : List UInt8) (offset count : Nat) (caller : RxCaller)
      (hpc : s.writer = .rxWrite segment offset caller)
      (hc : offset + count ≤ segment.length) :
      WriterStep s { s with
        files := s.files.writeLog ((segment.drop offset).take count)
        writer := .rx segment (offset + count) caller }
  -- finish
  | publish (cancelling : Bool) (job : FileJob) (status : XcomStatus)
      (hpc : s.writer = .finish cancelling job status) (hk : job.kind.isAsync = true)
      (hc : s.completions.length < kCompletionCapacity) :
      WriterStep s { s with
        completions := s.completions ++ [⟨job.requestId, status⟩]
        writer := .releaseBlock cancelling job status }
  | finishSync (cancelling : Bool) (job : FileJob) (status : XcomStatus)
      (hpc : s.writer = .finish cancelling job status) (hk : job.kind.isAsync = false) :
      WriterStep s { s with writer := .releaseBlock cancelling job status }
  | releaseBlock (cancelling : Bool) (job : FileJob) (status : XcomStatus)
      (hpc : s.writer = .releaseBlock cancelling job status) :
      WriterStep s { s with
        dataPool := s.releasedBlock job.blockId
        writer := .completeSync cancelling job status }
  | completeNone (cancelling : Bool) (job : FileJob) (status : XcomStatus)
      (hpc : s.writer = .completeSync cancelling job status) (hc : job.completion = none) :
      WriterStep s { s with writer := finished cancelling }
  | completeSync (cancelling : Bool) (job : FileJob) (status : XcomStatus) (c : CompletionId)
      (hpc : s.writer = .completeSync cancelling job status) (hc : job.completion = some c) :
      WriterStep s { s with
        cells := Function.update s.cells c { s.cells c with status := status, done := true }
        writer := .dropCompletion cancelling c }
  | dropCompletion (cancelling : Bool) (c : CompletionId)
      (hpc : s.writer = .dropCompletion cancelling c) :
      WriterStep s { s with
        cells := s.releasedCells c, completionPool := s.releasedPool c
        writer := finished cancelling }
  -- the end of the thread
  | jobsCancelled (hpc : s.writer = .cancelJobs) (hj : s.jobs = []) :
      WriterStep s { s with writer := .cancelRx }
  | cancelJob (job : FileJob) (rest : List FileJob) (hpc : s.writer = .cancelJobs)
      (hj : s.jobs = job :: rest) :
      WriterStep s { s with jobs := rest, writer := .finish true job .errTimeout }
  | rxCancelled (hpc : s.writer = .cancelRx) : WriterStep s { s with writer := .resetLog }
  | cancelRx (segment : List UInt8) (rest : List (List UInt8)) (hpc : s.writer = .cancelRx)
      (hr : s.rawReady = segment :: rest) : WriterStep s { s with
        rawReady := rest
        files := s.files.noteBlock (.segment segment)
        writer := .rx segment 0 .cancel }
  | resetLog (hpc : s.writer = .resetLog) :
      WriterStep s { s with files := { s.files with logFile := none }, writer := .resetStream }
  | resetStream (deleted : Bool) (hpc : s.writer = .resetStream) :
      WriterStep s { s with files := s.files.resetStream deleted, writer := .exited }

theorem processStep_cases {s s' : LogWriter} {job : FileJob} {l : WriterLabel}
    (hpc : s.writer = .process job) (h : s.processStep job l = some s') : WriterStep s s' := by
  unfold processStep at h
  split at h
  case h_1 ok hk =>
    split at h
    · cases h; exact .openBusy job hpc hk ‹_›
    · rename_i hf
      have hf : s.files.logFile = none := by simpa using hf
      split at h
      · split at h
        · cases h
        · cases h; exact .openCreated job hpc hk hf (by simp_all)
      · cases h; exact .openFailed job hpc hk hf
  case h_2 hk =>
    split at h
    · rename_i hf
      obtain ⟨log, hf⟩ := Option.isSome_iff_exists.mp hf
      cases h; exact .appendStart job log hpc hk hf
    · cases h; exact .appendNotOpen job hpc hk (by simp_all)
  case h_3 hk => cases h; exact .flush job _ hpc hk
  case h_4 hk => cases h; exact .close job hpc hk
  case h_5 =>
    split at h
    · cases h
    · rename_i files status hw
      cases h
      refine .work job _ files status hpc ?_ hw
      unfold FileState.processAsync at hw
      cases hk : job.kind <;> simp_all [Kind.isAsync]
  case h_6 => cases h

theorem writerStep_cases {s s' : LogWriter} {l : WriterLabel} (h : s.writerStep l = some s') :
    WriterStep s s' := by
  unfold writerStep at h
  split at h
  case h_1 hpc => cases h; exact .top hpc
  case h_2 hpc =>
    split at h
    · cases h; exact .noJob hpc
    · cases h; exact .popJob _ _ hpc ‹_›
  case h_3 hpc =>
    split at h
    · cases h; exact .noRaw hpc
    · cases h; exact .popRaw _ _ hpc ‹_›
  case h_4 job l hpc => exact processStep_cases hpc h
  case h_5 job status hpc => cases h; exact .openStore job status hpc
  case h_6 job hpc =>
    split at h
    · cases h
    · cases h; exact .appendDone job hpc (by omega)
  case h_7 job outcome hpc =>
    split at h
    · split at h
      · cases h; exact .appendFails job hpc
      split at h
      · cases h; exact .appendWrote job _ hpc ‹_›
      · cases h
    · cases h
  case h_8 job hpc =>
    cases h
    split
    · exact .appendAborted job hpc ‹_›
    · exact .appendRetry job hpc
  case h_9 job hpc =>
    split at h
    · rename_i hf hr
      cases h; exact .drain job _ _ hpc (by simp [hf]) hr
    · rename_i hno
      cases h
      refine .drained job hpc ?_
      cases hf : s.files.logFile with
      | none => exact .inl rfl
      | some log =>
        right
        cases hr : s.rawReady with
        | nil => rfl
        | cons segment rest => exact absurd hr (hno log segment rest hf)
  case h_10 job ok hpc =>
    split at h
    · cases h; exact .closeNone job hpc ‹_›
    · cases h; exact .closeReset job _ _ hpc ‹_›
  case h_11 segment offset caller hpc =>
    split at h
    · rename_i hgo
      cases h; exact .rxGoOn segment offset caller hpc hgo.1 hgo.2.1
    · rename_i hno
      cases h
      refine .rxBack segment offset caller hpc ?_
      by_contra hcon
      obtain ⟨hf, hcon⟩ := not_or.mp hcon
      obtain ⟨ho, hs⟩ := not_or.mp hcon
      exact hno ⟨Option.isSome_iff_ne_none.mpr hf, by omega, hs⟩
  case h_12 segment offset caller outcome hpc =>
    split at h
    · cases h; exact .rxFailed segment offset caller hpc
    split at h
    · cases h; exact .rxWrote segment offset _ caller hpc ‹_›
    · cases h
  case h_13 cancelling job status hpc =>
    split at h
    · split at h
      · cases h; exact .publish cancelling job status hpc ‹_› ‹_›
      · cases h
    · cases h; exact .finishSync cancelling job status hpc (by simp_all)
  case h_14 cancelling job status hpc => cases h; exact .releaseBlock cancelling job status hpc
  case h_15 cancelling job status hpc =>
    split at h
    · cases h; exact .completeNone cancelling job status hpc ‹_›
    · cases h; exact .completeSync cancelling job status _ hpc ‹_›
  case h_16 cancelling c hpc => cases h; exact .dropCompletion cancelling c hpc
  case h_17 hpc =>
    split at h
    · cases h; exact .jobsCancelled hpc ‹_›
    · cases h; exact .cancelJob _ _ hpc ‹_›
  case h_18 hpc =>
    split at h
    · cases h; exact .rxCancelled hpc
    · cases h; exact .cancelRx _ _ hpc ‹_›
  case h_19 hpc => cases h; exact .resetLog hpc
  case h_20 ok hpc => cases h; exact .resetStream ok hpc
  case h_21 => cases h

end LogWriter

end Xcom.File
