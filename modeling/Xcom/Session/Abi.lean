import Xcom.Session.World

/-!
# The ABI caller

`xcom_open`, `xcom_open_async`, `xcom_take_open_result`, `xcom_close` and
`xcom_send`, one shared access a step.  Only one thread calls into the ABI.
-/

namespace Xcom

/-- The calls the ABI thread makes and the accesses inside them. -/
inductive AbiLabel
  | openCall (cfg : Option XcomPortConfig)
  | openAsyncCall (cfg : Option XcomPortConfig)
  | takeCall
  | closeCall
  | sendCall (data : List UInt8)
  | loadState
  | loadResult
  | loadGeneration
  | storeBusy
  | storeCancel
  | storeRejected
  | alloc (available : Bool)
  | submit (accepted : Bool)
  | poll (expired : Bool)
  deriving DecidableEq, Repr

/-- Polls of `xcom_open`, 10 ms apart. -/
def kOpenPolls : Nat := 200

/-- `kTxBlockBytes`. -/
def kTxBlockBytes : Nat := 4096

namespace World

/-- The shared prefix of the open calls before the first shared load. -/
def queueOpen (w : World) (sync : Bool) (cfg : Option XcomPortConfig) : Option World :=
  match checkConfig cfg with
  | .error _ => some w
  | .ok snapshot =>
    if isVirtualPort snapshot.portName then none
    else some { w with abi := .queueLoadState sync snapshot }

/-- `xcom_open` sleeps and polls again, until its polls are used up. -/
@[simp] def nextPoll (w : World) (req : Request) (i : Nat) : World :=
  { w with abi := if i + 1 < kOpenPolls then .openPollResult req (i + 1) else .openDeadline req }

/-- A call returns. -/
@[simp] def returns (w : World) (o : Obs) : World := { w with abi := .idle }.emit o

/-- One step of the ABI caller. -/
def abiStep (w : World) (l : AbiLabel) : Option World :=
  match w.abi, l with
  | .idle, .openCall cfg => w.queueOpen true cfg
  | .idle, .openAsyncCall cfg => w.queueOpen false cfg
  | .idle, .takeCall => some { w with abi := .takeLoadState }
  | .idle, .closeCall => some { w with abi := .closeLoadState }
  | .idle, .sendCall data =>
    if data.length = 0 ∨ kTxBlockBytes < data.length then some w
    else some { w with abi := .sendLoadState data }
  -- queue_open
  | .queueLoadState sync cfg, .loadState =>
    some { w with abi := .queueLoadResult sync cfg w.core.portState }
  | .queueLoadResult sync cfg currentState, .loadResult =>
    if currentState = .portOpen then some { w with abi := .idle }
    else if w.core.lastOpenResult = .status .errBusy then some { w with abi := .idle }
    else if currentState ≠ .portClosed ∧ currentState ≠ .portFault then
      some { w with abi := .idle }
    else some { w with core.config := cfg, abi := .queueStoreBusy sync }
  | .queueStoreBusy sync, .storeBusy =>
    some { w with core.lastOpenResult := .status .errBusy, abi := .queueStoreCancel sync }
  | .queueStoreCancel sync, .storeCancel =>
    some { w with core.cancelOpen := false, abi := .queueSubmit sync }
  | .queueSubmit sync, .submit true =>
    some ({ w.stage (.sigOpen w.nextRequest) with
      nextRequest := w.nextRequest + 1
      abi := if sync then .openPollResult w.nextRequest 0 else .idle }.emit
        (.openQueued w.nextRequest))
  | .queueSubmit _, .submit false => some { w with abi := .queueRejected }
  | .queueRejected, .storeRejected =>
    some { w with core.lastOpenResult := .status .errIo, abi := .idle }
  -- xcom_open
  | .openPollResult req i, .loadResult =>
    if w.core.lastOpenResult = .status .ok then some { w with abi := .openPollState req i }
    else if w.core.lastOpenResult = .status .errBusy then some (w.nextPoll req i)
    else some { w with abi := .openPollFailure req }
  | .openPollState req i, .loadState =>
    if w.core.portState = .portOpen then some (w.returns (.openReturned req .ok))
    else some (w.nextPoll req i)
  | .openPollFailure req, .loadResult =>
    some (w.returns (.openReturned req (openFailureStatusFromResult w.core.lastOpenResult)))
  | .openDeadline req, .storeCancel =>
    some ({ w with core.cancelOpen := true }.returns (.openReturned req .errTimeout))
  -- xcom_take_open_result
  | .takeLoadState, .loadState =>
    if w.core.portState = .portOpen then some (w.returns (.takeReturned w.lastRequest .ok))
    else if w.core.portState = .portOpening then
      some (w.returns (.takeReturned w.lastRequest .errBusy))
    else some { w with abi := .takeLoadResult }
  | .takeLoadResult, .loadResult =>
    if w.core.lastOpenResult = .status .errBusy then
      some (w.returns (.takeReturned w.lastRequest .errBusy))
    else some { w with abi := .takeFailure }
  | .takeFailure, .loadResult =>
    some (w.returns
      (.takeReturned w.lastRequest (openFailureStatusFromResult w.core.lastOpenResult)))
  -- xcom_close
  | .closeLoadState, .loadState => some { w with abi := .closeLoadResult w.core.portState }
  | .closeLoadResult st, .loadResult =>
    if st = .portClosed ∧ w.core.lastOpenResult ≠ .status .errBusy then
      some (w.returns (.closeReturned .ok))
    else if st = .portOpening ∨ w.core.lastOpenResult = .status .errBusy then
      some { w with abi := .closeStoreCancel }
    else some { w with abi := .closeSubmit }
  | .closeStoreCancel, .storeCancel =>
    some { w with core.cancelOpen := true, abi := .closeSubmit }
  | .closeSubmit, .submit true => some { w.stage .sigClose with abi := .closePoll }
  | .closeSubmit, .submit false => some (w.returns (.closeReturned .errFull))
  | .closePoll, .poll expired =>
    if w.core.portState = .portClosed then some (w.returns (.closeReturned .ok))
    else if expired then some (w.returns (.closeReturned .errTimeout))
    else some w
  -- xcom_send
  | .sendLoadState data, .loadState =>
    if w.core.portState ≠ .portOpen then some { w with abi := .idle }
    else some { w with abi := .sendAlloc data w.device }
  | .sendAlloc data seen, .alloc available =>
    if available then some { w with abi := .sendLoadGeneration data seen }
    else some { w with abi := .idle }
  | .sendLoadGeneration data seen, .loadGeneration =>
    some { w with abi := .sendSubmit ⟨data, w.core.generation, seen⟩ }
  | .sendSubmit desc, .submit true => some { w.stage (.sigSend desc) with abi := .idle }
  | .sendSubmit _, .submit false => some { w with abi := .idle }
  | _, _ => none

end World

end Xcom
