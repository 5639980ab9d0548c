import Mathlib.Data.List.Basic
import Mathlib.Logic.Function.Basic
import Xcom.Abi.Status

/-!
# The files of the writer thread

The handles of the dedicated file writer and the file system behind them.  Only the
writer thread touches either, so what it does for one job is one function of them; the
outcome of every native call is an argument.
-/

namespace Xcom.File

/-- A path as the native calls take it: `wchar_t` units without the terminator. -/
abbrev Path := List UInt16

/-- `kFileBlockBytes`. -/
def kFileBlockBytes : Nat := 65536

/-- `kFileBlockCount`. -/
def kFileBlockCount : Nat := 16

/-- `kFileJobCapacity`. -/
def kFileJobCapacity : Nat := 16

/-- `kCompletionCapacity`. -/
def kCompletionCapacity : Nat := 32

/-- `kCompletionPoolCapacity`. -/
def kCompletionPoolCapacity : Nat := 8

/-- `kPathChars`. -/
def kPathChars : Nat := 520

/-- `utf8_to_wide`.  The source is what the conversion makes of the caller's string:
nothing for a null pointer or for ill-formed UTF-8. -/
def utf8ToWide (source : Option Path) : Option Path :=
  source.filter fun path => path ≠ [] ∧ path.length + 1 ≤ kPathChars

/-- An ASCII text as `wchar_t` units. -/
def wide (text : List Char) : Path := text.map fun c => c.toNat.toUInt16

/-- The temporary sibling `L"%ls.xcom.%llu.tmp"`. -/
def temporaryPath (path : Path) (id : UInt64) : Path :=
  path ++ wide ['.', 'x', 'c', 'o', 'm', '.'] ++ wide (Nat.toDigits 10 id.toNat) ++
    wide ['.', 't', 'm', 'p']

theorem temporaryPath_ne (path : Path) (id : UInt64) : temporaryPath path id ≠ path := by
  intro heq
  have hlen := congrArg List.length heq
  simp only [temporaryPath, wide, List.length_append, List.length_map, List.length_cons] at hlen
  omega

/-! ## Jobs -/

abbrev BlockId := Fin kFileBlockCount

abbrev CompletionId := Fin kCompletionPoolCapacity

/-- One call of `LogWriter::open`. -/
abbrev Call := Nat

/-- `LogWriter::Impl::Kind`. -/
inductive Kind
  | fileOpen
  | fileAppend
  | fileFlush
  | fileClose
  | atomicWrite
  | streamBegin
  | streamAppend
  | streamCommit
  | streamAbort
  deriving DecidableEq, Repr

/-- The kinds that answer through the completion queue. -/
def Kind.isAsync : Kind → Bool
  | .atomicWrite | .streamBegin | .streamAppend | .streamCommit | .streamAbort => true
  | _ => false

/-- `FileJob`.  The bytes ride in the descriptor, whether they lie in a block of the pool
or are borrowed.  `call` is history: the open call behind an Open. -/
structure FileJob where
  kind : Kind := .fileAppend
  blockId : Option BlockId := none
  data : List UInt8 := []
  borrowed : Bool := false
  offset : Nat := 0
  requestId : UInt64 := 0
  streamId : UInt64 := 0
  append : Bool := false
  completion : Option CompletionId := none
  path : Path := []
  call : Call := 0
  deriving DecidableEq, Repr

/-! ## Writing -/

/-- What one `WriteFile` returns: the bytes it wrote, or a failure. -/
inductive WriteOutcome
  | wrote (count : Nat)
  | failed
  deriving DecidableEq, Repr

/-- The bytes a `WriteFile` got through.  A success that wrote nothing counts as a
failure. -/
def WriteOutcome.count : WriteOutcome → Nat
  | wrote count => count
  | failed => 0

/-- `write_all`: writes on from the offset of the job until all is written or a
`WriteFile` gets nothing through. -/
def writeAll : List WriteOutcome → FileJob → Option (FileJob × XcomStatus)
  | [], job => if job.offset < job.data.length then none else some (job, .ok)
  | outcome :: outcomes, job =>
    if job.offset < job.data.length then
      if outcome.count = 0 then some (job, .errIo)
      else if job.offset + outcome.count ≤ job.data.length then
        writeAll outcomes { job with offset := job.offset + outcome.count }
      else none
    else some (job, .ok)

/-- The bytes of a job between two offsets. -/
def FileJob.slice (job : FileJob) (start stop : Nat) : List UInt8 :=
  (job.data.drop start).take (stop - start)

theorem writeAll_spec {outcomes : List WriteOutcome} {job job' : FileJob} {status : XcomStatus}
    (h : writeAll outcomes job = some (job', status)) :
    job' = { job with offset := job'.offset } ∧ job.offset ≤ job'.offset ∧
      (status = .ok → job.data.length ≤ job'.offset) := by
  induction outcomes generalizing job with
  | nil =>
    rw [writeAll] at h
    split at h
    · cases h
    · cases h
      exact ⟨rfl, le_rfl, fun _ => by omega⟩
  | cons outcome outcomes ih =>
    rw [writeAll] at h
    split at h
    · split at h
      · cases h
        exact ⟨rfl, le_rfl, fun hok => by cases hok⟩
      · split at h
        · obtain ⟨heq, hle, hok⟩ := ih h
          refine ⟨?_, ?_, ?_⟩
          · rw [heq]
          · simp only at hle
            omega
          · exact hok
        · cases h
    · cases h
      exact ⟨rfl, le_rfl, fun _ => by omega⟩

/-- A fresh job that is written through is written whole. -/
theorem writeAll_ok {outcomes : List WriteOutcome} {job job' : FileJob}
    (h : writeAll outcomes job = some (job', .ok)) (hfresh : job.offset = 0) :
    job.slice job.offset job'.offset = job.data := by
  obtain ⟨-, -, hok⟩ := writeAll_spec h
  rw [FileJob.slice, hfresh, List.drop_zero, Nat.sub_zero]
  exact List.take_of_length_le (hok rfl)

/-! ## The file system -/

/-- The contents of every file that exists. -/
abbrev FileSystem := Path → Option (List UInt8)

/-- Creates a file or replaces its contents. -/
def FileSystem.put (fs : FileSystem) (path : Path) (bytes : List UInt8) : FileSystem :=
  Function.update fs path (some bytes)

/-- Writes at the end of a file. -/
def FileSystem.extend (fs : FileSystem) (path : Path) (bytes : List UInt8) : FileSystem :=
  fs.put path ((fs path).getD [] ++ bytes)

/-- `DeleteFileW`. -/
def FileSystem.delete (fs : FileSystem) (path : Path) : FileSystem :=
  Function.update fs path none

/-- `MoveFileExW` with `MOVEFILE_REPLACE_EXISTING`. -/
def FileSystem.move (fs : FileSystem) (source destination : Path) : FileSystem :=
  FileSystem.delete (Function.update fs destination (fs source)) source

/-! ## Handles -/

/-- A block that was handed to the log file. -/
inductive Block
  | segment (bytes : List UInt8)
  | append (bytes : List UInt8)
  deriving DecidableEq, Repr

def Block.bytes : Block → List UInt8
  | segment bytes => bytes
  | append bytes => bytes

/-- The open log file.  All but its path is history: the call it was opened for, what
the file held then, the bytes written through the handle, and the blocks they come from,
the last of which may still be under way. -/
structure LogFile where
  path : Path
  call : Call
  base : List UInt8 := []
  written : List UInt8 := []
  blocks : List Block := []
  deriving DecidableEq, Repr

/-- `AtomicStream`, its handle open on `temporary`.  `appended` is history: the bytes of
the appends that were answered with OK. -/
structure AtomicStream where
  id : UInt64
  active : Bool := true
  destination : Path
  temporary : Path
  appended : List UInt8 := []
  deriving DecidableEq, Repr

/-- What the writer thread owns. -/
structure FileState where
  fs : FileSystem
  logFile : Option LogFile := none
  atomicStream : Option AtomicStream := none

/-- The environment's answers to the native calls of one job. -/
structure Outcomes where
  formatted : Bool := true
  created : Bool := true
  writes : List WriteOutcome := []
  flushed : Bool := true
  moved : Bool := true
  deleted : Bool := true
  deriving DecidableEq, Repr

/-- `AtomicStream::abort`. -/
def AtomicStream.abort (stream : AtomicStream) (deleted : Bool) (fs : FileSystem) : FileSystem :=
  if stream.active ∧ stream.temporary ≠ [] ∧ deleted then fs.delete stream.temporary else fs

/-- `AtomicStream::commit`. -/
def AtomicStream.commit (stream : AtomicStream) (o : Outcomes) (fs : FileSystem) :
    AtomicStream × FileSystem × XcomStatus :=
  if o.flushed ∧ o.moved then
    ({ stream with active := false }, fs.move stream.temporary stream.destination, .ok)
  else (stream, fs, .errIo)

namespace FileState

/-- A path with an open handle that shares no write access: it can be neither created
again, nor moved onto, nor deleted. -/
def held (f : FileState) (path : Path) : Bool :=
  f.logFile.any (·.path = path) || f.atomicStream.any (·.temporary = path)

/-- `atomic_stream.reset()`. -/
def resetStream (f : FileState) (deleted : Bool) : FileState :=
  match f.atomicStream with
  | none => f
  | some stream => { f with fs := stream.abort deleted f.fs, atomicStream := none }

/-- Writes bytes through the log handle. -/
def writeLog (f : FileState) (bytes : List UInt8) : FileState :=
  match f.logFile with
  | none => f
  | some log =>
    { f with
      fs := f.fs.extend log.path bytes
      logFile := some { log with written := log.written ++ bytes } }

/-- Notes that the writer starts on a block. -/
def noteBlock (f : FileState) (block : Block) : FileState :=
  { f with logFile := f.logFile.map fun log => { log with blocks := log.blocks ++ [block] } }

/-- The native open of an Open: OPEN_ALWAYS and the end of the file, or
CREATE_ALWAYS. -/
def openLog (f : FileState) (job : FileJob) : FileState :=
  let base := if job.append then (f.fs job.path).getD [] else []
  { f with
    fs := f.fs.put job.path base
    logFile := some { path := job.path, call := job.call, base := base } }

/-- `process_atomic`. -/
def processAtomic (f : FileState) (job : FileJob) (o : Outcomes) :
    Option (FileState × XcomStatus) :=
  let temporary := temporaryPath job.path job.requestId
  if ¬ o.formatted then some (f, .errParam)
  else if ¬ o.created then some (f, .errIo)
  else if f.held temporary then none
  else
    match writeAll o.writes job with
    | none => none
    | some (job', status) =>
      let fs := f.fs.put temporary (job.slice job.offset job'.offset)
      if status = .ok ∧ o.flushed ∧ o.moved then
        if f.held job.path then none
        else some ({ f with fs := fs.move temporary job.path }, .ok)
      else some ({ f with fs := if o.deleted then fs.delete temporary else fs }, .errIo)

/-- `process_stream_begin`. -/
def processStreamBegin (f : FileState) (job : FileJob) (o : Outcomes) :
    Option (FileState × XcomStatus) :=
  let temporary := temporaryPath job.path job.streamId
  if f.atomicStream.isSome then some (f, .errBusy)
  else if ¬ o.formatted then some (f, .errParam)
  else if ¬ o.created then some (f, .errIo)
  else if f.held temporary then none
  else
    some ({ f with
      fs := f.fs.put temporary []
      atomicStream := some
        { id := job.streamId, destination := job.path, temporary := temporary } }, .ok)

/-- `process_stream_append`. -/
def processStreamAppend (f : FileState) (job : FileJob) (o : Outcomes) :
    Option (FileState × XcomStatus) :=
  match f.atomicStream with
  | none => some (f, .errNotOpen)
  | some stream =>
    if stream.id ≠ job.streamId then some (f, .errNotOpen)
    else
      match writeAll o.writes job with
      | none => none
      | some (job', status) =>
        let f' := { f with fs := f.fs.extend stream.temporary (job.slice job.offset job'.offset) }
        if status ≠ .ok then some (f'.resetStream o.deleted, status)
        else
          some ({ f' with
            atomicStream := some { stream with appended := stream.appended ++ job.data } },
            status)

/-- `process_stream_commit`. -/
def processStreamCommit (f : FileState) (job : FileJob) (o : Outcomes) :
    Option (FileState × XcomStatus) :=
  match f.atomicStream with
  | none => some (f, .errNotOpen)
  | some stream =>
    if stream.id ≠ job.streamId then some (f, .errNotOpen)
    else
      let f' := { f with atomicStream := none }
      if o.flushed ∧ o.moved ∧ f'.held stream.destination then none
      else
        let (stream, fs, status) := stream.commit o f.fs
        some ({ f' with fs := stream.abort o.deleted fs }, status)

/-- `process_stream_abort`. -/
def processStreamAbort (f : FileState) (job : FileJob) (o : Outcomes) :
    Option (FileState × XcomStatus) :=
  match f.atomicStream with
  | none => some (f, .ok)
  | some stream =>
    if stream.id ≠ job.streamId then some (f, .errNotOpen)
    else some (f.resetStream o.deleted, .ok)

/-- `process` for the kinds that answer through the completion queue. -/
def processAsync (f : FileState) (job : FileJob) (o : Outcomes) :
    Option (FileState × XcomStatus) :=
  match job.kind with
  | .atomicWrite => f.processAtomic job o
  | .streamBegin => f.processStreamBegin job o
  | .streamAppend => f.processStreamAppend job o
  | .streamCommit => f.processStreamCommit job o
  | .streamAbort => f.processStreamAbort job o
  | _ => none

end FileState

end Xcom.File
