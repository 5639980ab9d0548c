import Xcom.Session.World

/-!
# The read thread and the session writer

The two threads a session owns.  Both report a fault the same way: submit the
critical Fault event, and if it is refused store FAULT in the published view and
then raise the latch that the owner reconciles.
-/

namespace Xcom

/-- What the backend read thread does next. -/
inductive ReaderLabel
  | fault
  | loadAdmission
  | submit (accepted : Bool)
  | storeState
  | storePending
  | stop
  deriving DecidableEq, Repr

/-- What the session writer does next.  `write` carries the outcome of the native
write: the bytes that reached the driver, whether it succeeded, and whether the
error is one that ends the session at once. -/
inductive WriterLabel
  | wake
  | pop
  | loadGeneration
  | loadState
  | write (count : Nat) (ok fatal : Bool)
  | submit (accepted : Bool)
  | storeState
  | storePending
  | release
  deriving DecidableEq, Repr

/-- `kTxFailStreakLimit`. -/
def kTxFailStreakLimit : UInt32 := 3

namespace World

/-- `serial_fault_callback`, and the end of `read_loop` after it or on a stop. -/
def readerStep (w : World) (l : ReaderLabel) : Option World :=
  match w.reader, l with
  | .running, .fault => some { w with reader := .faultLoadAdmission }
  | .running, .stop => if w.readerStop then some { w with reader := .exited } else none
  | .faultLoadAdmission, .loadAdmission =>
    some { w with reader := if w.core.callbackAdmission then .faultSubmit else .exited }
  | .faultSubmit, .submit true => some { w.stage .sigFault with reader := .exited }
  | .faultSubmit, .submit false => some { w with reader := .faultStoreState }
  | .faultStoreState, .storeState =>
    some ({ w with core.portState := .portFault, reader := .faultStorePending }.emit .faultStored)
  | .faultStorePending, .storePending =>
    some { w with core.faultPending := true, reader := .exited }
  | _, _ => none

/-- `sink_owner_write` once the device is known to be open. -/
@[simp] def ownerWrite (w : World) (job : TxDescriptor) (handle : Handle) (count : Nat)
    (ok fatal : Bool) : World :=
  let streak := w.core.txFailStreak + 1
  { w with
    core.txFailStreak := if ok then 0 else streak
    writer :=
      if ¬ ok ∧ (fatal ∨ kTxFailStreakLimit ≤ streak) then .faultSubmit else .release }.emit
    (.written job handle (job.data.take count))

/-- `SessionWriter::run`. -/
def writerStep (w : World) (l : WriterLabel) : Option World :=
  match w.writer, l with
  | .wait, .wake =>
    if w.writerStop then some { w with jobs := [], writer := .exited }
    else some { w with writer := .pop }
  | .pop, .pop =>
    match w.jobs with
    | [] => some { w with writer := .wait }
    | job :: jobs => some { w with jobs := jobs, writer := .loadGeneration job }
  | .loadGeneration job, .loadGeneration =>
    some { w with
      writer := if job.generation = w.core.generation then .loadState job else .release }
  | .loadState job, .loadState =>
    some { w with writer := if w.core.portState = .portOpen then .write job else .release }
  | .write job, .write count ok fatal =>
    match w.device with
    | none => some { w with writer := .release }
    | some handle =>
      if count ≤ job.data.length ∧ (ok = true → count = job.data.length) then
        some (w.ownerWrite job handle count ok fatal)
      else none
  | .faultSubmit, .submit true => some { w.stage .sigFault with writer := .release }
  | .faultSubmit, .submit false => some { w with writer := .faultStoreState }
  | .faultStoreState, .storeState =>
    some ({ w with core.portState := .portFault, writer := .faultStorePending }.emit .faultStored)
  | .faultStorePending, .storePending =>
    some { w with core.faultPending := true, writer := .release }
  | .release, .release =>
    if w.writerStop then some { w with jobs := [], writer := .exited }
    else some { w with writer := .pop }
  | _, _ => none

end World

end Xcom
