import Xcom.File.Caller
import Xcom.Transition.Machine

/-!
# The writer thread

The loop of `LogWriter::start` and the processing of one job, and the machine of the
three threads.  What a job does to files that no other thread sees is one step.
-/

namespace Xcom.File

/-- The answers of the environment to the writer thread. -/
inductive WriterLabel
  | run
  | create (ok : Bool)
  | write (outcome : WriteOutcome)
  | flush (ok : Bool)
  | work (o : Outcomes)
  | delete (ok : Bool)
  deriving DecidableEq, Repr

/-- Where `process_rx_ref` returns to. -/
def RxCaller.back : RxCaller → WriterPc
  | loop => .top
  | close job => .closeDrain job
  | cancel => .cancelRx

/-- Where `finish` returns to. -/
def finished (cancelling : Bool) : WriterPc := if cancelling then .cancelJobs else .top

namespace LogWriter

/-- `process` before its first visible step. -/
def processStep (s : LogWriter) (job : FileJob) (l : WriterLabel) : Option LogWriter :=
  match job.kind, l with
  | .fileOpen, .create ok =>
    if s.files.logFile.isSome then some { s with writer := .finish false job .errBusy }
    else if ok then
      if s.files.held job.path then none
      else
        some { s with
          files := s.files.openLog job
          segments := [], appends := []
          writer := .openStore job .ok }
    else some { s with writer := .openStore job .errIo }
  | .fileAppend, .run =>
    if s.files.logFile.isSome then
      some { s with files := s.files.noteBlock (.append job.data), writer := .append job }
    else some { s with writer := .finish false job .errNotOpen }
  | .fileFlush, .flush ok => some
      { s with
        writer :=
          .finish false job (if s.files.logFile.isSome ∧ ok then .ok else .errIo) }
  | .fileClose, .run => some { s with acceptingLog := false, writer := .closeDrain job }
  | _, .work o =>
    match s.files.processAsync job o with
    | none => none
    | some (files, status) => some { s with files := files, writer := .finish false job status }
  | _, _ => none

/-- One step of the writer thread. -/
def writerStep (s : LogWriter) (l : WriterLabel) : Option LogWriter :=
  match s.writer, l with
  | .top, .run => some { s with writer := if s.stopping then .cancelJobs else .popJob }
  | .popJob, .run =>
    match s.jobs with
    | [] => some { s with writer := .popRaw }
    | job :: rest => some { s with jobs := rest, writer := .process job }
  | .popRaw, .run =>
    match s.rawReady with
    | [] => some { s with writer := .top }
    | segment :: rest => some
        { s with
          rawReady := rest
          files := s.files.noteBlock (.segment segment)
          writer := .rx segment 0 .loop }
  | .process job, l => s.processStep job l
  | .openStore job status, .run => some
      { s with
        acceptingLog := status = .ok
        admissionClosed := s.admissionClosed ∧ status ≠ .ok
        writer := .finish false job status }
  | .append job, .run =>
    if job.offset < job.data.length then none
    else some { s with writer := .finish false job .ok }
  | .append job, .write outcome =>
    if job.offset < job.data.length then
      if outcome.count = 0 then some { s with writer := .appendFailed job }
      else if job.offset + outcome.count ≤ job.data.length then
        some { s with
          files := s.files.writeLog (job.slice job.offset (job.offset + outcome.count))
          writer := .append { job with offset := job.offset + outcome.count } }
      else none
    else none
  | .appendFailed job, .run => some
      { s with writer := if s.stopping then .finish false job .errIo else .append job }
  | .closeDrain job, .run =>
    match s.files.logFile, s.rawReady with
    | some _, segment :: rest => some
        { s with
          rawReady := rest
          files := s.files.noteBlock (.segment segment)
          writer := .rx segment 0 (.close job) }
    | _, _ => some { s with writer := .closeReset job }
  | .closeReset job, .flush ok =>
    match s.files.logFile with
    | none => some { s with writer := .finish false job .ok }
    | some log => some
        { s with
          files := { s.files with logFile := none }
          closedFiles := s.closedFiles ++
            [⟨log, (s.files.fs log.path).getD [], s.segments, s.appends⟩]
          writer := .finish false job (if ok then .ok else .errIo) }
  -- process_rx_ref
  | .rx segment offset caller, .run =>
    if s.files.logFile.isSome ∧ offset < segment.length ∧ ¬ s.stopping then
      some { s with writer := .rxWrite segment offset caller }
    else some { s with writer := caller.back }
  | .rxWrite segment offset caller, .write outcome =>
    if outcome.count = 0 then some { s with writer := .rx segment offset caller }
    else if offset + outcome.count ≤ segment.length then
      some { s with
        files := s.files.writeLog ((segment.drop offset).take outcome.count)
        writer := .rx segment (offset + outcome.count) caller }
    else none
  -- finish
  | .finish cancelling job status, .run =>
    if job.kind.isAsync then
      -- the push behind COACT_ASSERT
      if s.completions.length < kCompletionCapacity then
        some { s with
          completions := s.completions ++ [⟨job.requestId, status⟩]
          writer := .releaseBlock cancelling job status }
      else none
    else some { s with writer := .releaseBlock cancelling job status }
  | .releaseBlock cancelling job status, .run =>
    some { s with
      dataPool := s.releasedBlock job.blockId, writer := .completeSync cancelling job status }
  | .completeSync cancelling job status, .run =>
    match job.completion with
    | none => some { s with writer := finished cancelling }
    | some c => some
        { s with
          cells := Function.update s.cells c { s.cells c with status := status, done := true }
          writer := .dropCompletion cancelling c }
  | .dropCompletion cancelling c, .run =>
    some { s with
      cells := s.releasedCells c, completionPool := s.releasedPool c
      writer := finished cancelling }
  -- the end of the thread
  | .cancelJobs, .run =>
    match s.jobs with
    | [] => some { s with writer := .cancelRx }
    | job :: rest => some { s with jobs := rest, writer := .finish true job .errTimeout }
  | .cancelRx, .run =>
    match s.rawReady with
    | [] => some { s with writer := .resetLog }
    | segment :: rest => some
        { s with
          rawReady := rest
          files := s.files.noteBlock (.segment segment)
          writer := .rx segment 0 .cancel }
  | .resetLog, .run =>
    some { s with files := { s.files with logFile := none }, writer := .resetStream }
  | .resetStream, .delete ok =>
    some { s with files := s.files.resetStream ok, writer := .exited }
  | _, _ => none

end LogWriter

/-- The thread that moves, and what it does. -/
inductive Label
  | caller (l : CallerLabel)
  | reader (l : ReaderLabel)
  | writer (l : WriterLabel)
  deriving DecidableEq, Repr

/-- One step of the file writer. -/
def LogWriter.step (s : LogWriter) : Label → Option LogWriter
  | .caller l => s.callerStep l
  | .reader l => s.readerStep l
  | .writer l => s.writerStep l

/-- The file writer over a file system. -/
def logWriterMachine (fs : FileSystem) : Transition.Machine LogWriter Label where
  init := { files := { fs := fs } }
  step := LogWriter.step

end Xcom.File
