import Xcom.Transition.Machine
import Xcom.Session.Abi
import Xcom.Session.Owner
import Xcom.Session.Threads

/-!
# The session machine

The interleavings of the ABI caller, the Dispatcher, the read thread and the
session writer, as one machine.
-/

namespace Xcom

/-- The thread that moves, and what it does. -/
inductive Label
  | abi (l : AbiLabel)
  | disp (l : DispLabel)
  | reader (l : ReaderLabel)
  | writer (l : WriterLabel)
  deriving DecidableEq, Repr

namespace World

/-- One step of the core. -/
def step (w : World) : Label → Option World
  | .abi l => w.abiStep l
  | .disp l => w.dispStep l
  | .reader l => w.readerStep l
  | .writer l => w.writerStep l

end World

/-- The core from `xcom_create` on. -/
def sessionMachine : Transition.Machine World Label where
  init := {}
  step := World.step

/-! ## Straight runs

The labels of one call or one action when nothing interferes. -/

/-- `queue_open` up to the accepted Open event. -/
def queueOpenRun (cfg : XcomPortConfig) : List AbiLabel :=
  [.openAsyncCall (some cfg), .loadState, .loadResult, .storeBusy, .storeCancel, .submit true]

/-- `xcom_open` up to the accepted Open event. -/
def syncOpenRun (cfg : XcomPortConfig) : List Label :=
  .abi (.openCall (some cfg)) :: (queueOpenRun cfg).tail.map .abi

/-- `serial_do_open` up to the recorded success of the native open. -/
def ownerOpenRun : List DispLabel :=
  [.dispatch 0, .run, .run, .run, .run, .opened none, .started true, .run, .run]

/-- The rest of `serial_do_open` when it is not cancelled. -/
def ownerCommitRun : List DispLabel := [.run, .run, .run, .run, .run, .run]

/-- `xcom_close` up to the accepted Close event. -/
def queueCloseRun : List AbiLabel := [.closeCall, .loadState, .loadResult, .submit true]

/-- `sink_owner_close` of a session whose threads are idle. -/
def ownerCloseRun : List Label :=
  [.disp .run, .disp .run, .disp .run, .writer .wake, .disp .run, .disp .run, .reader .stop,
    .disp .run, .disp .run]

/-- `serial_do_close` of an open session. -/
def closeRun : List Label :=
  [Label.disp (.dispatch 0), .disp .run] ++ ownerCloseRun ++
    [Label.disp .run, .disp .run, .disp .run, .disp .run, .disp .run]

/-- An open from the call to the published OPEN. -/
def openRun (cfg : XcomPortConfig) : List Label :=
  (queueOpenRun cfg).map Label.abi ++ (ownerOpenRun ++ ownerCommitRun).map Label.disp

/-- An open that `xcom_close` cancels while the native open runs, up to the return
of the close.  Both the handoff and the close submit a Close event. -/
def cancelledOpenRun (cfg : XcomPortConfig) : List Label :=
  (queueOpenRun cfg).map Label.abi ++ ownerOpenRun.map Label.disp ++
    [Label.abi .closeCall, .abi .loadState, .abi .loadResult, .abi .storeCancel,
      .abi (.submit true), .disp .run, .disp .run, .disp .run, .disp (.submitted true)] ++
    closeRun ++ [Label.disp (.dispatch 0), .disp .run, .disp .run, .disp .run, .abi (.poll false)]

/-- A read fault of an open session, reported and dispatched. -/
def faultRun : List Label :=
  [.reader .fault, .reader .loadAdmission, .reader (.submit true), .disp (.dispatch 0),
    .disp .run, .disp .run, .disp .run, .disp .run, .disp .run, .writer .wake, .disp .run,
    .disp .run, .disp .run, .disp .run]

/-- A staged Send from its dispatch to the completed native write. -/
def sendRun : List Label :=
  [.disp (.dispatch 0), .disp .run, .disp .run, .disp (.enqueued true), .writer .wake,
    .writer .pop, .writer .loadGeneration, .writer .loadState, .writer (.write 1 true false)]

/-- A well-formed configuration of a physical port. -/
def someConfig : XcomPortConfig where
  structSize := sizeofXcomPortConfig
  port := some [0x43, 0x4F, 0x4D, 0x33]
  baudRate := 115200
  dataBits := 8
  stopBits := 0
  parity := 0
  flowControl := 0
  dtrEnable := 0
  rtsEnable := 0

end Xcom
