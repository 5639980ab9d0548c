import Mathlib.Data.PNat.Basic

/-!
# Status codes and published port states

The values that cross the C ABI: the `XCOM_*` status enumerators, the
`XCOM_PORT_*` view published by the serial owner, and the translation of a
recorded open result into a caller-visible status.
-/

namespace Xcom

/-- `XcomStatus`: `XCOM_OK` and the `XCOM_ERR_*` enumerators. -/
inductive XcomStatus
  | ok
  | errParam
  | errNotOpen
  | errAlreadyOpen
  | errBusy
  | errFull
  | errIo
  | errTimeout
  | errDrainIncomplete
  | errUnsupported
  deriving DecidableEq, Repr

namespace XcomStatus

/-- The numeric value of an enumerator. -/
def code : XcomStatus → Int
  | ok => 0
  | errParam => -1
  | errNotOpen => -2
  | errAlreadyOpen => -3
  | errBusy => -4
  | errFull => -5
  | errIo => -6
  | errTimeout => -7
  | errDrainIncomplete => -8
  | errUnsupported => -9

/-- Statuses that report a definitive failure: neither success nor "poll again". -/
def isFailure (s : XcomStatus) : Bool := s ≠ ok ∧ s ≠ errBusy

end XcomStatus

/-- `XCOM_PORT_*`, and with the same values the owner's `SerialState`. -/
inductive PortState
  | portClosed
  | portOpening
  | portOpen
  | portClosing
  | portFault
  deriving DecidableEq, Repr

/-- The domain of `last_open_result`: a status stored by the core, or the raw
Win32 code stored by the serial owner.  The sign tells the two apart. -/
inductive OpenResult
  | status (s : XcomStatus)
  | win32 (code : ℕ+)
  deriving DecidableEq, Repr

namespace OpenResult

/-- The `int32_t` the atomic holds. -/
def recorded : OpenResult → Int
  | status s => s.code
  | win32 c => ((c : Nat) : Int)

theorem recorded_injective : Function.Injective recorded := by
  intro a b h
  cases a with
  | status s =>
    cases b with
    | status t => cases s <;> cases t <;> first | rfl | cases h
    | win32 d =>
      have hd := d.pos
      cases s <;> simp only [recorded, XcomStatus.code] at h <;> omega
  | win32 c =>
    have hc := c.pos
    cases b with
    | status t => cases t <;> simp only [recorded, XcomStatus.code] at h <;> omega
    | win32 d =>
      have hcd : (c : Nat) = d := Int.ofNat.inj h
      rw [PNat.eq hcd]

/-- What `sink_owner_open` records for a failed `WinSerialBackend::open`. -/
def ofBackendError (error : Nat) : OpenResult :=
  if h : 0 < error then win32 ⟨error, h⟩ else status .errIo

theorem ofBackendError_ne_ok (error : Nat) : ofBackendError error ≠ status .ok := by
  unfold ofBackendError
  split <;> simp

theorem ofBackendError_ne_busy (error : Nat) : ofBackendError error ≠ status .errBusy := by
  unfold ofBackendError
  split <;> simp

end OpenResult

/-- `open_failure_status_from_result`. -/
def openFailureStatusFromResult : OpenResult → XcomStatus
  | .win32 c =>
    if (c : Nat) = 87 then .errParam
    else if (c : Nat) = 121 ∨ (c : Nat) = 258 ∨ (c : Nat) = 1460 then .errTimeout
    else .errIo
  | .status .errBusy => .errIo
  | .status .ok => .errIo
  | .status s => s

theorem openFailureStatusFromResult_isFailure (r : OpenResult) :
    (openFailureStatusFromResult r).isFailure = true := by
  cases r with
  | win32 c =>
    simp only [openFailureStatusFromResult]
    split
    · rfl
    · split <;> rfl
  | status s => cases s <;> rfl

end Xcom
