import Xcom.Abi.Status

/-!
# The serial transition table

`kSerialEdges` of the serial owner: rows are scanned in order and the first one
whose state and event match and whose guard passes is taken.
-/

namespace Xcom

/-- `SerialEvent`: the inputs of `serial_transition`. -/
inductive SerialEvent
  | kOpen
  | kClose
  | kFault
  | kOpenDone
  | kCloseDone
  | kCancel
  deriving DecidableEq, Repr

/-- `SerialAction`: what an edge runs. -/
inductive SerialAction
  | kOwnerOpen
  | kOwnerClose
  | kCancelClose
  | kOpenCommit
  | kOpenFail
  | kCloseCommit
  deriving DecidableEq, Repr

/-- `serial_open_succeeded`: the guard of the edge from OPENING to OPEN. -/
def serialOpenSucceeded (lastOpenResult : OpenResult) : Bool :=
  lastOpenResult = .status .ok

/-- One row of the table.  `guard` reads `last_open_result`; a row without one is
unconditional. -/
structure SerialEdge where
  fromState : PortState
  event : SerialEvent
  guard : Option (OpenResult → Bool)
  toState : PortState
  action : SerialAction
  publishFirst : Bool

open PortState SerialEvent SerialAction in
/-- The transition table, row by row. -/
def kSerialEdges : List SerialEdge :=
  [ ⟨portClosed,  kOpen,      none,                     portOpening, kOwnerOpen,   true⟩,
    ⟨portFault,   kOpen,      none,                     portOpening, kOwnerOpen,   true⟩,
    ⟨portOpening, kOpenDone,  some serialOpenSucceeded, portOpen,    kOpenCommit,  false⟩,
    ⟨portOpening, kOpenDone,  none,                     portClosed,  kOpenFail,    false⟩,
    ⟨portOpening, kCancel,    none,                     portClosing, kCancelClose, true⟩,
    ⟨portOpen,    kClose,     none,                     portClosing, kOwnerClose,  true⟩,
    ⟨portFault,   kClose,     none,                     portClosing, kOwnerClose,  true⟩,
    ⟨portClosing, kClose,     none,                     portClosing, kOwnerClose,  true⟩,
    ⟨portClosing, kCloseDone, none,                     portClosed,  kCloseCommit, false⟩,
    ⟨portOpening, kFault,     none,                     portFault,   kOwnerClose,  true⟩,
    ⟨portOpen,    kFault,     none,                     portFault,   kOwnerClose,  true⟩,
    ⟨portClosing, kFault,     none,                     portClosed,  kOwnerClose,  true⟩ ]

/-- `serial_find_edge`. -/
def serialFindEdge (state : PortState) (lastOpenResult : OpenResult) (event : SerialEvent) :
    Option SerialEdge :=
  kSerialEdges.find? fun edge =>
    edge.fromState = state ∧ edge.event = event ∧
      (edge.guard.elim true fun guard => guard lastOpenResult)

/-- Whether an Open finds an edge out of `state`. -/
def hasOpenEdge (state : PortState) : Bool := state = .portClosed ∨ state = .portFault

theorem hasOpenEdge_iff (state : PortState) (r : OpenResult) :
    hasOpenEdge state = (serialFindEdge state r .kOpen).isSome := by
  cases state <;> rfl

end Xcom
