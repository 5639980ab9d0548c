import Xcom.Transition.Handles
import Xcom.Transition.Machine

/-!
# The files a script has open

A close waits for the asynchronous reads of its descriptor: `fs_close` lets the event loop
run once, and where a read is still out it leaves the close to the completion.  The count of
the reads, the waiting closes and the open descriptors are tables of the record, which a
reload makes anew; reload and shutdown close what is open whether a read is out or not.
-/

namespace Xcom.Script.OpenFiles

/-- An asynchronous read that is out: its descriptor, and the environment it was made in. -/
structure Read where
  fd : Nat
  load : Nat
  deriving DecidableEq, Repr

/-- A call that has not returned: `fs_close` inside `uv.run("nowait")`, or a completion
inside the callback of the script. -/
inductive Frame
  | closing (fd : Nat)
  | completing (fd : Nat)
  deriving DecidableEq, Repr

/-- The record of a script, the descriptors of the system, and what is under way, the
innermost call first.  The last fields record: the reads out on the descriptor of every
close, the number of environments, and the openings before the last reload or shutdown. -/
structure State where
  os : Transition.Handles := {}
  openFds : List Nat := []
  fsPending : Nat → Nat := fun _ => 0
  fsCloseDeferred : List Nat := []
  reads : List Read := []
  stack : List Frame := []
  closesUnder : List Nat := []
  load : Nat := 0
  mark : Nat := 0

namespace State

/-- The reads that are out on a descriptor. -/
def outstanding (s : State) (fd : Nat) : Nat := s.reads.countP (·.fd = fd)

/-- `uv.fs_close`. -/
def uvFsClose (s : State) (fd : Nat) : State :=
  { s with os := s.os.close fd, closesUnder := s.outstanding fd :: s.closesUnder }

/-- `remove_open_fd`: the last entry goes. -/
def removeOpenFd (s : State) (fd : Nat) : State :=
  { s with openFds := (s.openFds.reverse.erase fd).reverse }

/-- `file_open`, with the number the system gives. -/
def fileOpen (s : State) (fd : Nat) : State :=
  { s with os := s.os.openAt fd, openFds := s.openFds ++ [fd] }

/-- `file_read_at_async`. -/
def fileReadAtAsync (s : State) (fd : Nat) : State :=
  { s with
    fsPending := Function.update s.fsPending fd (s.fsPending fd + 1)
    reads := s.reads ++ [⟨fd, s.load⟩] }

/-- `fs_close`, up to the run of the event loop where a read is out. -/
def fsClose (s : State) (fd : Nat) : State :=
  let s := s.removeOpenFd fd
  if 0 < s.fsPending fd then { s with stack := .closing fd :: s.stack } else s.uvFsClose fd

/-- `fs_close` after the run of the event loop. -/
def fsCloseRest (s : State) (fd : Nat) : State :=
  if s.fsPending fd = 0 then s.uvFsClose fd
  else { s with fsCloseDeferred := List.insert fd s.fsCloseDeferred }

/-- The completion of a read, up to the callback. -/
def complete (s : State) (index : Nat) (r : Read) : State :=
  { s with
    fsPending := Function.update s.fsPending r.fd
      (if s.fsPending r.fd ≤ 1 then 0 else s.fsPending r.fd - 1)
    reads := s.reads.eraseIdx index
    stack := .completing r.fd :: s.stack }

/-- The completion after the callback. -/
def completeRest (s : State) (fd : Nat) : State :=
  if s.fsPending fd = 0 ∧ fd ∈ s.fsCloseDeferred then
    { s with fsCloseDeferred := s.fsCloseDeferred.filter (· ≠ fd) }.uvFsClose fd
  else s

/-- The loop of `close_record_fds` over one entry. -/
def teardown (s : State) (fd : Nat) : State :=
  { s with
    fsPending := Function.update s.fsPending fd 0
    fsCloseDeferred := s.fsCloseDeferred.filter (· ≠ fd) }.uvFsClose fd

/-- `close_record_fds`. -/
def closeRecordFds (s : State) : State :=
  { s.openFds.reverse.foldl teardown s with openFds := [] }

/-- A load, from `close_record_fds` to `build_env`. -/
def reload (s : State) : State :=
  { s.closeRecordFds with
    openFds := []
    fsPending := fun _ => 0
    fsCloseDeferred := []
    load := s.load + 1
    mark := s.os.opened }

/-- `shutdown`. -/
def shutdown (s : State) : State := { s.closeRecordFds with mark := s.os.opened }

/-- The event loop can deliver a completion: no callback of a completion is running. -/
def loopRuns (s : State) : Bool :=
  match s.stack with
  | .completing _ :: _ => false
  | _ => true

end State

/-- What happens: calls of the script, the system completing a read, the return of the
innermost call, an error out of a callback, a load and the shutdown. -/
inductive Event
  | fileOpen (fd : Nat)
  | fileReadAtAsync (fd : Nat)
  | fileClose (fd : Nat)
  | complete (index : Nat)
  | resume
  | raise
  | reload
  | shutdown
  deriving DecidableEq, Repr

def State.step (s : State) : Event → Option State
  | .fileOpen fd => if (s.os.table fd).isSome then none else some (s.fileOpen fd)
  | .fileReadAtAsync fd => some (s.fileReadAtAsync fd)
  | .fileClose fd => some (s.fsClose fd)
  | .complete index =>
    if s.loopRuns then s.reads[index]?.map (s.complete index) else none
  | .resume =>
    match s.stack with
    | [] => none
    | .closing fd :: rest => some ({ s with stack := rest }.fsCloseRest fd)
    | .completing fd :: rest => some ({ s with stack := rest }.completeRest fd)
  | .raise =>
    match s.stack with
    | .completing _ :: rest => some { s with stack := rest }
    | _ => none
  | .reload => some s.reload
  | .shutdown => some s.shutdown

/-- A script of the engine, with its files. -/
def machine : Transition.Machine State Event := ⟨{}, State.step⟩

/-- No load while a read is out or a close waits, no shutdown while a read is out on an open
descriptor, no close of a descriptor that is not open, no error out of a callback whose
descriptor waits to be closed. -/
def Safe (s : State) : Event → Bool
  | .fileClose fd => s.openFds.contains fd
  | .raise => s.stack.head?.all fun f => s.fsCloseDeferred.all fun fd => f != .completing fd
  | .reload => s.reads.isEmpty && s.fsCloseDeferred.isEmpty
  | .shutdown => s.openFds.all fun fd => s.outstanding fd = 0
  | _ => true

/-- Every close hit an open descriptor of the script with no read out, so every opening is
open or was closed, once; nothing opened before the last load or shutdown is open once all
completions have run; every read that is out is of the present environment, which counts it. -/
structure Clean (s : State) : Prop where
  balanced : s.os.Balanced
  idle : ∀ n ∈ s.closesUnder, n = 0
  released : s.reads = [] → s.stack = [] → ∀ fd k, s.os.table fd = some k → s.mark ≤ k
  present : ∀ r ∈ s.reads, r.load = s.load
  counted : ∀ fd, s.fsPending fd = s.outstanding fd

end Xcom.Script.OpenFiles
