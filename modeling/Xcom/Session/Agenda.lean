import Xcom.Session.Step

/-!
# What the Dispatcher can be in the middle of

Every action the Dispatcher runs is, at each of its steps, one of a fixed family
of agendas, and the owner's state says which.  `OwnerStep` says once what a step
inside an action does; later invariants are cases on it and never unfold the table.
-/

namespace Xcom

open DispOp

/-- What can remain behind a `sink_owner_close`: nothing or the reopen after a
Fault edge, the CloseDone of a close, the FAULT of a refused cancel handoff. -/
inductive AfterClose : PortState → List DispOp → Prop
  | fault : AfterClose .portFault []
  | faultWhileClosing : AfterClose .portClosed []
  | reopen : AfterClose .portFault [transition .kOpen, resolveOpen]
  | reopenClosed : AfterClose .portClosed [transition .kOpen, resolveOpen]
  | closeDone : AfterClose .portClosing [transition .kCloseDone, clearFaultPending]
  | cancelRefused : AfterClose .portClosing [publish .portFault]

/-- The agendas of the Dispatcher, by the state of the owner. -/
inductive Agenda : PortState → List DispOp → Prop
  | idle {s} (h : s ≠ .portOpening) : Agenda s []
  -- serial_do_open
  | reconcile {s} (h : s ≠ .portOpening) :
      Agenda s [exchangeFaultPending, transition .kOpen, resolveOpen]
  | reconcileFault {s} (h : s ≠ .portOpening) :
      Agenda s [transition .kFault, transition .kOpen, resolveOpen]
  | openEdge {s} (h : s ≠ .portOpening) : Agenda s [transition .kOpen, resolveOpen]
  | openStopReader : Agenda .portOpening [stopReader, joinReader, openDevice, resolveOpen]
  | openJoinReader : Agenda .portOpening [joinReader, openDevice, resolveOpen]
  | openDevice : Agenda .portOpening [openDevice, resolveOpen]
  | startWriter : Agenda .portOpening [startWriter, resolveOpen]
  | startAdmit :
      Agenda .portOpening [openAdmission, storeOpenResult (.status .ok), resolveOpen]
  | startFailStop : Agenda .portOpening
      [stopReader, joinReader, storeOpenResult (.status .errIo), resolveOpen]
  | startFailJoin : Agenda .portOpening
      [joinReader, storeOpenResult (.status .errIo), resolveOpen]
  | storeResult {r} (h : r ≠ .status .errBusy) :
      Agenda .portOpening [storeOpenResult r, resolveOpen]
  | resolve {s} : Agenda s [resolveOpen]
  | exchangeCancel {s} : Agenda s [exchangeCancelOpen]
  | openDone {s} : Agenda s [transition .kOpenDone]
  | cancel {s} : Agenda s [transition .kCancel]
  | commitOpen : Agenda .portOpening [commitOpen, resetDisplay, publish .portOpen]
  | resetOpen : Agenda .portOpening [resetDisplay, publish .portOpen]
  | publishOpen : Agenda .portOpening [publish .portOpen]
  | openFail : Agenda .portOpening [publish .portClosed]
  | submitClose : Agenda .portClosing [submitClose]
  | cancelRefused : Agenda .portClosing [publish .portFault]
  -- serial_do_close
  | closeEdge {s} (h : s ≠ .portOpening) :
      Agenda s [transition .kClose, transition .kCloseDone, clearFaultPending]
  | closeDone {s} (h : s = .portClosing ∨ s = .portClosed) :
      Agenda s [transition .kCloseDone, clearFaultPending]
  | commitClose :
      Agenda .portClosing [commitClose, resetDisplay, publish .portClosed, clearFaultPending]
  | resetClose : Agenda .portClosing [resetDisplay, publish .portClosed, clearFaultPending]
  | publishClosed : Agenda .portClosing [publish .portClosed, clearFaultPending]
  | clearPending {s} (h : s ≠ .portOpening) : Agenda s [clearFaultPending]
  -- serial_do_fault
  | faultClear {s} (h : s ≠ .portOpening) : Agenda s [clearFaultPending, transition .kFault]
  | faultEdge {s} (h : s ≠ .portOpening) : Agenda s [transition .kFault]
  -- sink_owner_close
  | closeAdmission {s r} (h : AfterClose s r) : Agenda s
      (closeAdmission :: releaseDeferred :: stopWriter :: joinWriter :: stopReader ::
        joinReader :: openAdmission :: r)
  | closeRelease {s r} (h : AfterClose s r) : Agenda s
      (releaseDeferred :: stopWriter :: joinWriter :: stopReader :: joinReader ::
        openAdmission :: r)
  | closeStopWriter {s r} (h : AfterClose s r) : Agenda s
      (stopWriter :: joinWriter :: stopReader :: joinReader :: openAdmission :: r)
  | closeJoinWriter {s r} (h : AfterClose s r) : Agenda s
      (joinWriter :: stopReader :: joinReader :: openAdmission :: r)
  | closeStopReader {s r} (h : AfterClose s r) : Agenda s
      (stopReader :: joinReader :: openAdmission :: r)
  | closeJoinReader {s r} (h : AfterClose s r) : Agenda s (joinReader :: openAdmission :: r)
  | closeAdmit {s r} (h : AfterClose s r) : Agenda s (openAdmission :: r)
  -- send_user_action
  | sendLoadGeneration {s d} (h : s ≠ .portOpening) : Agenda s [sendLoadGeneration d]
  | sendLoadState {s d} (h : s ≠ .portOpening) : Agenda s [sendLoadState d]
  | sendEnqueue {s d} (h : s ≠ .portOpening) : Agenda s [sendEnqueue d]

theorem AfterClose.agenda {s : PortState} {r : List DispOp} (h : AfterClose s r) :
    Agenda s r := by
  cases h with
  | fault => exact .idle (by decide)
  | faultWhileClosing => exact .idle (by decide)
  | reopen => exact .openEdge (by decide)
  | reopenClosed => exact .openEdge (by decide)
  | closeDone => exact .closeDone (.inl rfl)
  | cancelRefused => exact .cancelRefused

/-- What a step inside an action does.  `w` is the state before it. -/
inductive OwnerStep (w : World) : World → Prop
  -- serial_do_open
  | reconcilePending
      (ha : w.agenda = [exchangeFaultPending, transition .kOpen, resolveOpen])
      (hs : w.serialState ≠ .portOpening) (hp : w.core.faultPending = true) :
      OwnerStep w { w with
        core.faultPending := false
        agenda := [transition .kFault, transition .kOpen, resolveOpen] }
  | reconcileClear
      (ha : w.agenda = [exchangeFaultPending, transition .kOpen, resolveOpen])
      (hs : w.serialState ≠ .portOpening) (hp : w.core.faultPending = false) :
      OwnerStep w { w with
        core.faultPending := false, agenda := [transition .kOpen, resolveOpen] }
  | openEdge (ha : w.agenda = [transition .kOpen, resolveOpen])
      (hs : w.serialState = .portClosed ∨ w.serialState = .portFault) :
      OwnerStep w { w.serialPublish .portOpening with
        agenda := [stopReader, joinReader, openDevice, resolveOpen] }
  | openNoEdge (ha : w.agenda = [transition .kOpen, resolveOpen])
      (hs : w.serialState = .portOpen ∨ w.serialState = .portClosing) :
      OwnerStep w { w with agenda := [resolveOpen] }
  | openStopReader (ha : w.agenda = [stopReader, joinReader, openDevice, resolveOpen])
      (hs : w.serialState = .portOpening) :
      OwnerStep w { w with
        readerStop := true, agenda := [joinReader, openDevice, resolveOpen] }
  | openJoinReader (ha : w.agenda = [joinReader, openDevice, resolveOpen])
      (hs : w.serialState = .portOpening) (hr : w.reader = .absent ∨ w.reader = .exited) :
      OwnerStep w { w with
        reader := .absent, device := none, agenda := [openDevice, resolveOpen] }
  | openDevice (ha : w.agenda = [openDevice, resolveOpen])
      (hs : w.serialState = .portOpening) :
      OwnerStep w { w with
        device := some w.nextHandle, nextHandle := w.nextHandle + 1
        reader := .running, readerStop := false, agenda := [startWriter, resolveOpen] }
  | openDeviceFail (error : Nat) (ha : w.agenda = [openDevice, resolveOpen])
      (hs : w.serialState = .portOpening) :
      OwnerStep w { w with agenda := [storeOpenResult (.ofBackendError error), resolveOpen] }
  | startRunning (ha : w.agenda = [startWriter, resolveOpen])
      (hs : w.serialState = .portOpening) (hw : w.writer ≠ .inactive) :
      OwnerStep w { w with
        agenda := [openAdmission, storeOpenResult (.status .ok), resolveOpen] }
  | startWriter (ha : w.agenda = [startWriter, resolveOpen])
      (hs : w.serialState = .portOpening) (hw : w.writer = .inactive) :
      OwnerStep w { w with
        writer := .wait, writerStop := false, jobs := []
        agenda := [openAdmission, storeOpenResult (.status .ok), resolveOpen] }
  | startFail (ha : w.agenda = [startWriter, resolveOpen])
      (hs : w.serialState = .portOpening) (hw : w.writer = .inactive) :
      OwnerStep w { w with
        agenda := [stopReader, joinReader, storeOpenResult (.status .errIo), resolveOpen] }
  | startAdmit
      (ha : w.agenda = [openAdmission, storeOpenResult (.status .ok), resolveOpen])
      (hs : w.serialState = .portOpening) :
      OwnerStep w { w with
        core.callbackAdmission := true
        agenda := [storeOpenResult (.status .ok), resolveOpen] }
  | startFailStop
      (ha : w.agenda = [stopReader, joinReader, storeOpenResult (.status .errIo), resolveOpen])
      (hs : w.serialState = .portOpening) :
      OwnerStep w { w with
        readerStop := true
        agenda := [joinReader, storeOpenResult (.status .errIo), resolveOpen] }
  | startFailJoin
      (ha : w.agenda = [joinReader, storeOpenResult (.status .errIo), resolveOpen])
      (hs : w.serialState = .portOpening) (hr : w.reader = .absent ∨ w.reader = .exited) :
      OwnerStep w { w with
        reader := .absent, device := none
        agenda := [storeOpenResult (.status .errIo), resolveOpen] }
  | storeResult (r : OpenResult) (ha : w.agenda = [storeOpenResult r, resolveOpen])
      (hs : w.serialState = .portOpening) (hr : r ≠ .status .errBusy) :
      OwnerStep w ({ w with core.lastOpenResult := r, agenda := [resolveOpen] }.emit
        (.openResolved w.current r))
  | resolveFailed (ha : w.agenda = [resolveOpen])
      (hr : w.core.lastOpenResult ≠ .status .ok) :
      OwnerStep w { w with agenda := [transition .kOpenDone] }
  | resolveOk (ha : w.agenda = [resolveOpen]) (hr : w.core.lastOpenResult = .status .ok) :
      OwnerStep w { w with agenda := [exchangeCancelOpen] }
  | exchangeCancelled (ha : w.agenda = [exchangeCancelOpen])
      (hc : w.core.cancelOpen = true) :
      OwnerStep w { w with core.cancelOpen := false, agenda := [transition .kCancel] }
  | exchangeClear (ha : w.agenda = [exchangeCancelOpen]) (hc : w.core.cancelOpen = false) :
      OwnerStep w { w with core.cancelOpen := false, agenda := [transition .kOpenDone] }
  | openDone (ha : w.agenda = [transition .kOpenDone]) (hs : w.serialState = .portOpening)
      (hr : w.core.lastOpenResult = .status .ok) :
      OwnerStep w { w with agenda := [commitOpen, resetDisplay, publish .portOpen] }
  | openFail (ha : w.agenda = [transition .kOpenDone]) (hs : w.serialState = .portOpening)
      (hr : w.core.lastOpenResult ≠ .status .ok) :
      OwnerStep w { w with agenda := [publish .portClosed] }
  | openDoneNoEdge (ha : w.agenda = [transition .kOpenDone])
      (hs : w.serialState ≠ .portOpening) : OwnerStep w { w with agenda := [] }
  | cancel (ha : w.agenda = [transition .kCancel]) (hs : w.serialState = .portOpening) :
      OwnerStep w { w.serialPublish .portClosing with agenda := [submitClose] }
  | cancelNoEdge (ha : w.agenda = [transition .kCancel])
      (hs : w.serialState ≠ .portOpening) : OwnerStep w { w with agenda := [] }
  | commitOpen (ha : w.agenda = [commitOpen, resetDisplay, publish .portOpen])
      (hs : w.serialState = .portOpening) :
      OwnerStep w { w with
        core.openGeneration := w.core.openGeneration + 1
        core.generation := w.core.openGeneration + 1
        agenda := [resetDisplay, publish .portOpen] }
  | resetOpen (ha : w.agenda = [resetDisplay, publish .portOpen])
      (hs : w.serialState = .portOpening) :
      OwnerStep w { w with agenda := [publish .portOpen] }
  | publishOpen (ha : w.agenda = [publish .portOpen]) (hs : w.serialState = .portOpening) :
      OwnerStep w { w.serialPublish .portOpen with agenda := [] }
  | publishOpenFail (ha : w.agenda = [publish .portClosed])
      (hs : w.serialState = .portOpening) :
      OwnerStep w { w.serialPublish .portClosed with agenda := [] }
  | submitClose (ha : w.agenda = [submitClose]) (hs : w.serialState = .portClosing) :
      OwnerStep w { w.stage .sigClose with agenda := [] }
  | submitCloseRefused (ha : w.agenda = [submitClose]) (hs : w.serialState = .portClosing) :
      OwnerStep w { w with agenda := sinkOwnerClose ++ [publish .portFault] }
  | publishFault (ha : w.agenda = [publish .portFault]) (hs : w.serialState = .portClosing) :
      OwnerStep w { w.serialPublish .portFault with agenda := [] }
  -- serial_do_close
  | closeEdge
      (ha : w.agenda = [transition .kClose, transition .kCloseDone, clearFaultPending])
      (hs : w.serialState = .portOpen ∨ w.serialState = .portFault ∨
        w.serialState = .portClosing) :
      OwnerStep w { w.serialPublish .portClosing with
        agenda := sinkOwnerClose ++ [transition .kCloseDone, clearFaultPending] }
  | closeNoEdge
      (ha : w.agenda = [transition .kClose, transition .kCloseDone, clearFaultPending])
      (hs : w.serialState = .portClosed) :
      OwnerStep w { w with agenda := [transition .kCloseDone, clearFaultPending] }
  | closeDone (ha : w.agenda = [transition .kCloseDone, clearFaultPending])
      (hs : w.serialState = .portClosing) :
      OwnerStep w { w with
        agenda := [commitClose, resetDisplay, publish .portClosed, clearFaultPending] }
  | closeDoneNoEdge (ha : w.agenda = [transition .kCloseDone, clearFaultPending])
      (hs : w.serialState = .portClosed) :
      OwnerStep w { w with agenda := [clearFaultPending] }
  | commitClose
      (ha : w.agenda = [commitClose, resetDisplay, publish .portClosed, clearFaultPending])
      (hs : w.serialState = .portClosing) :
      OwnerStep w { w with
        core.generation := w.core.generation + 1
        agenda := [resetDisplay, publish .portClosed, clearFaultPending] }
  | resetClose (ha : w.agenda = [resetDisplay, publish .portClosed, clearFaultPending])
      (hs : w.serialState = .portClosing) :
      OwnerStep w { w with agenda := [publish .portClosed, clearFaultPending] }
  | publishClosed (ha : w.agenda = [publish .portClosed, clearFaultPending])
      (hs : w.serialState = .portClosing) :
      OwnerStep w { w.serialPublish .portClosed with agenda := [clearFaultPending] }
  | clearPending (ha : w.agenda = [clearFaultPending]) (hs : w.serialState ≠ .portOpening) :
      OwnerStep w { w with core.faultPending := false, agenda := [] }
  -- serial_do_fault, and the Fault edge of a reconciliation
  | faultClear (ha : w.agenda = [clearFaultPending, transition .kFault])
      (hs : w.serialState ≠ .portOpening) :
      OwnerStep w { w with core.faultPending := false, agenda := [transition .kFault] }
  | faultOpen (r : List DispOp) (ha : w.agenda = transition .kFault :: r)
      (hr : r = [] ∨ r = [transition .kOpen, resolveOpen])
      (hs : w.serialState = .portOpen) :
      OwnerStep w { w.serialPublish .portFault with agenda := sinkOwnerClose ++ r }
  | faultClosing (r : List DispOp) (ha : w.agenda = transition .kFault :: r)
      (hr : r = [] ∨ r = [transition .kOpen, resolveOpen])
      (hs : w.serialState = .portClosing) :
      OwnerStep w { w.serialPublish .portClosed with agenda := sinkOwnerClose ++ r }
  | faultNoEdge (r : List DispOp) (ha : w.agenda = transition .kFault :: r)
      (hr : r = [] ∨ r = [transition .kOpen, resolveOpen])
      (hs : w.serialState = .portClosed ∨ w.serialState = .portFault) :
      OwnerStep w { w with agenda := r }
  -- sink_owner_close
  | closeAdmission (r : List DispOp) (h : AfterClose w.serialState r)
      (ha : w.agenda = closeAdmission :: releaseDeferred :: stopWriter :: joinWriter ::
        stopReader :: joinReader :: openAdmission :: r) :
      OwnerStep w { w with
        core.callbackAdmission := false
        agenda := releaseDeferred :: stopWriter :: joinWriter :: stopReader :: joinReader ::
          openAdmission :: r }
  | closeRelease (r : List DispOp) (h : AfterClose w.serialState r)
      (ha : w.agenda = releaseDeferred :: stopWriter :: joinWriter :: stopReader ::
        joinReader :: openAdmission :: r) :
      OwnerStep w { w with
        agenda := stopWriter :: joinWriter :: stopReader :: joinReader :: openAdmission :: r }
  | closeStopWriter (r : List DispOp) (h : AfterClose w.serialState r)
      (ha : w.agenda =
        stopWriter :: joinWriter :: stopReader :: joinReader :: openAdmission :: r) :
      OwnerStep w { w with
        writerStop := w.writerStop || w.writerActive
        agenda := joinWriter :: stopReader :: joinReader :: openAdmission :: r }
  | closeJoinWriter (r : List DispOp) (h : AfterClose w.serialState r)
      (ha : w.agenda = joinWriter :: stopReader :: joinReader :: openAdmission :: r)
      (hw : w.writer = .inactive ∨ w.writer = .exited) :
      OwnerStep w { w with
        writer := .inactive, jobs := []
        agenda := stopReader :: joinReader :: openAdmission :: r }
  | closeStopReader (r : List DispOp) (h : AfterClose w.serialState r)
      (ha : w.agenda = stopReader :: joinReader :: openAdmission :: r) :
      OwnerStep w { w with readerStop := true, agenda := joinReader :: openAdmission :: r }
  | closeJoinReader (r : List DispOp) (h : AfterClose w.serialState r)
      (ha : w.agenda = joinReader :: openAdmission :: r)
      (hw : w.reader = .absent ∨ w.reader = .exited) :
      OwnerStep w { w with reader := .absent, device := none, agenda := openAdmission :: r }
  | closeAdmit (r : List DispOp) (h : AfterClose w.serialState r)
      (ha : w.agenda = openAdmission :: r) :
      OwnerStep w { w with core.callbackAdmission := true, agenda := r }
  -- send_user_action
  | sendStale (d : TxDescriptor)
      (ha : w.agenda = [sendLoadGeneration d] ∨ w.agenda = [sendLoadState d] ∨
        w.agenda = [sendEnqueue d]) (hs : w.serialState ≠ .portOpening) :
      OwnerStep w { w with agenda := [] }
  | sendCurrent (d : TxDescriptor) (ha : w.agenda = [sendLoadGeneration d])
      (hs : w.serialState ≠ .portOpening) (hg : d.generation = w.core.generation) :
      OwnerStep w { w with agenda := [sendLoadState d] }
  | sendOpen (d : TxDescriptor) (ha : w.agenda = [sendLoadState d])
      (hs : w.serialState ≠ .portOpening) (hp : w.core.portState = .portOpen) :
      OwnerStep w { w with agenda := [sendEnqueue d] }
  | sendEnqueue (d : TxDescriptor) (ha : w.agenda = [sendEnqueue d])
      (hs : w.serialState ≠ .portOpening) (hw : w.writer ≠ .inactive) :
      OwnerStep w { w with jobs := w.jobs ++ [d], agenda := [] }

namespace World

variable {w : World} (rest : List DispOp)

theorem serialTransition_noEdge {event : SerialEvent}
    (h : serialFindEdge w.serialState w.core.lastOpenResult event = none) :
    w.serialTransition event rest = { w with agenda := rest } := by
  simp only [serialTransition, h]

theorem serialTransition_edge {event : SerialEvent} {edge : SerialEdge}
    (h : serialFindEdge w.serialState w.core.lastOpenResult event = some edge) :
    w.serialTransition event rest =
      if edge.publishFirst then
        { w.serialPublish edge.toState with agenda := serialRunAction edge.action ++ rest }
      else
        { w with agenda := serialRunAction edge.action ++ publish edge.toState :: rest } := by
  simp only [serialTransition, h]

end World

theorem fault_step {w : World} {rest : List DispOp} (hne : w.serialState ≠ .portOpening)
    (hrest : rest = [] ∨ rest = [transition .kOpen, resolveOpen])
    (ha : w.agenda = transition .kFault :: rest) :
    OwnerStep w (w.serialTransition .kFault rest) := by
  cases hs : w.serialState with
  | portClosed =>
    rw [World.serialTransition_noEdge _ (by rw [hs]; rfl)]
    exact .faultNoEdge _ ha hrest (.inl hs)
  | portFault =>
    rw [World.serialTransition_noEdge _ (by rw [hs]; rfl)]
    exact .faultNoEdge _ ha hrest (.inr hs)
  | portOpen =>
    rw [World.serialTransition_edge _ (by rw [hs]; rfl)]
    exact .faultOpen _ ha hrest hs
  | portClosing =>
    rw [World.serialTransition_edge _ (by rw [hs]; rfl)]
    exact .faultClosing _ ha hrest hs
  | portOpening => exact absurd hs hne

theorem open_step {w : World} (hne : w.serialState ≠ .portOpening)
    (ha : w.agenda = [transition .kOpen, resolveOpen]) :
    OwnerStep w (w.serialTransition .kOpen [resolveOpen]) := by
  cases hs : w.serialState with
  | portClosed =>
    rw [World.serialTransition_edge _ (by rw [hs]; rfl)]
    exact .openEdge ha (.inl hs)
  | portFault =>
    rw [World.serialTransition_edge _ (by rw [hs]; rfl)]
    exact .openEdge ha (.inr hs)
  | portOpen =>
    rw [World.serialTransition_noEdge _ (by rw [hs]; rfl)]
    exact .openNoEdge ha (.inl hs)
  | portClosing =>
    rw [World.serialTransition_noEdge _ (by rw [hs]; rfl)]
    exact .openNoEdge ha (.inr hs)
  | portOpening => exact absurd hs hne

theorem openDone_step {w : World} (ha : w.agenda = [transition .kOpenDone]) :
    OwnerStep w (w.serialTransition .kOpenDone []) := by
  by_cases hs : w.serialState = .portOpening
  · by_cases hr : w.core.lastOpenResult = .status .ok
    · rw [World.serialTransition_edge _ (by rw [hs, hr]; rfl)]
      exact .openDone ha hs hr
    · have hfind : serialFindEdge w.serialState w.core.lastOpenResult .kOpenDone =
          some ⟨.portOpening, .kOpenDone, none, .portClosed, .kOpenFail, false⟩ := by
        simp [hs, serialFindEdge, kSerialEdges, serialOpenSucceeded, hr]
      rw [World.serialTransition_edge _ hfind]
      exact .openFail ha hs hr
  · have hfind : serialFindEdge w.serialState w.core.lastOpenResult .kOpenDone = none := by
      cases hst : w.serialState <;> first | rfl | exact absurd hst hs
    rw [World.serialTransition_noEdge _ hfind]
    exact .openDoneNoEdge ha hs

theorem cancel_step {w : World} (ha : w.agenda = [transition .kCancel]) :
    OwnerStep w (w.serialTransition .kCancel []) := by
  by_cases hs : w.serialState = .portOpening
  · rw [World.serialTransition_edge _ (by rw [hs]; rfl)]
    exact .cancel ha hs
  · have hfind : serialFindEdge w.serialState w.core.lastOpenResult .kCancel = none := by
      cases hst : w.serialState <;> first | rfl | exact absurd hst hs
    rw [World.serialTransition_noEdge _ hfind]
    exact .cancelNoEdge ha hs

theorem close_step {w : World} (hne : w.serialState ≠ .portOpening)
    (ha : w.agenda = [transition .kClose, transition .kCloseDone, clearFaultPending]) :
    OwnerStep w (w.serialTransition .kClose [transition .kCloseDone, clearFaultPending]) := by
  cases hs : w.serialState with
  | portClosed =>
    rw [World.serialTransition_noEdge _ (by rw [hs]; rfl)]
    exact .closeNoEdge ha hs
  | portFault =>
    rw [World.serialTransition_edge _ (by rw [hs]; rfl)]
    exact .closeEdge ha (.inr (.inl hs))
  | portOpen =>
    rw [World.serialTransition_edge _ (by rw [hs]; rfl)]
    exact .closeEdge ha (.inl hs)
  | portClosing =>
    rw [World.serialTransition_edge _ (by rw [hs]; rfl)]
    exact .closeEdge ha (.inr (.inr hs))
  | portOpening => exact absurd hs hne

theorem closeDone_step {w : World}
    (hs : w.serialState = .portClosing ∨ w.serialState = .portClosed)
    (ha : w.agenda = [transition .kCloseDone, clearFaultPending]) :
    OwnerStep w (w.serialTransition .kCloseDone [clearFaultPending]) := by
  rcases hs with hs | hs
  · rw [World.serialTransition_edge _ (by rw [hs]; rfl)]
    exact .closeDone ha hs
  · rw [World.serialTransition_noEdge _ (by rw [hs]; rfl)]
    exact .closeDoneNoEdge ha hs

theorem startSession_step {w : World} (ok : Bool) (hs : w.serialState = .portOpening)
    (ha : w.agenda = [startWriter, resolveOpen]) :
    OwnerStep w (w.startSession ok [resolveOpen]) := by
  unfold World.startSession
  split
  · rename_i hactive
    exact .startRunning ha hs (w.writerActive_iff.mp hactive)
  · rename_i hactive
    have hw : w.writer = .inactive := not_not.mp (mt w.writerActive_iff.mpr hactive)
    split
    · exact .startWriter ha hs hw
    · exact .startFail ha hs hw

/-- The inversion lemma of the Dispatcher: a step inside an action is one of the
steps of `OwnerStep`. -/
theorem opStep_cases {w w' : World} {op : DispOp} {rest : List DispOp} {l : DispLabel}
    (h : Agenda w.serialState w.agenda) (ha : w.agenda = op :: rest)
    (hstep : w.opStep rest op l = some w') : OwnerStep w w' := by
  rw [ha] at h
  generalize hs : w.serialState = s at h
  cases h with
  | reconcile hne =>
    cases l <;> simp only [World.opStep, reduceCtorEq, Option.some.injEq] at hstep
    subst hstep
    cases hp : w.core.faultPending with
    | true => exact .reconcilePending ha (hs ▸ hne) hp
    | false => exact .reconcileClear ha (hs ▸ hne) hp
  | reconcileFault hne =>
    cases l <;> simp only [World.opStep, reduceCtorEq, Option.some.injEq] at hstep
    exact hstep ▸ fault_step (hs ▸ hne) (.inr rfl) ha
  | openEdge hne =>
    cases l <;> simp only [World.opStep, reduceCtorEq, Option.some.injEq] at hstep
    exact hstep ▸ open_step (hs ▸ hne) ha
  | openStopReader =>
    cases l <;> simp only [World.opStep, reduceCtorEq, Option.some.injEq] at hstep
    exact hstep ▸ .openStopReader ha hs
  | openJoinReader =>
    cases l <;> simp only [World.opStep, reduceCtorEq] at hstep
    split at hstep
    · cases hstep
      exact .openJoinReader ha hs ‹_›
    · cases hstep
  | openDevice =>
    cases l with
    | opened error =>
      cases error with
      | none =>
        simp only [World.opStep, Option.some.injEq] at hstep
        exact hstep ▸ .openDevice ha hs
      | some error =>
        simp only [World.opStep, Option.some.injEq] at hstep
        exact hstep ▸ .openDeviceFail error ha hs
    | _ => simp only [World.opStep, reduceCtorEq] at hstep
  | startWriter =>
    cases l <;> simp only [World.opStep, reduceCtorEq, Option.some.injEq] at hstep
    exact hstep ▸ startSession_step _ hs ha
  | startAdmit =>
    cases l <;> simp only [World.opStep, reduceCtorEq, Option.some.injEq] at hstep
    exact hstep ▸ .startAdmit ha hs
  | startFailStop =>
    cases l <;> simp only [World.opStep, reduceCtorEq, Option.some.injEq] at hstep
    exact hstep ▸ .startFailStop ha hs
  | startFailJoin =>
    cases l <;> simp only [World.opStep, reduceCtorEq] at hstep
    split at hstep
    · cases hstep
      exact .startFailJoin ha hs ‹_›
    · cases hstep
  | storeResult hr =>
    cases l <;> simp only [World.opStep, reduceCtorEq, Option.some.injEq] at hstep
    exact hstep ▸ .storeResult _ ha hs hr
  | resolve =>
    cases l <;> simp only [World.opStep, reduceCtorEq, Option.some.injEq] at hstep
    subst hstep
    by_cases hr : w.core.lastOpenResult = .status .ok
    · simpa only [hr, ne_eq, not_true_eq_false, if_false] using OwnerStep.resolveOk ha hr
    · simpa only [hr, ne_eq, not_false_eq_true, if_true] using OwnerStep.resolveFailed ha hr
  | exchangeCancel =>
    cases l <;> simp only [World.opStep, reduceCtorEq, Option.some.injEq] at hstep
    subst hstep
    cases hc : w.core.cancelOpen with
    | true => exact .exchangeCancelled ha hc
    | false => exact .exchangeClear ha hc
  | openDone =>
    cases l <;> simp only [World.opStep, reduceCtorEq, Option.some.injEq] at hstep
    exact hstep ▸ openDone_step ha
  | cancel =>
    cases l <;> simp only [World.opStep, reduceCtorEq, Option.some.injEq] at hstep
    exact hstep ▸ cancel_step ha
  | commitOpen =>
    cases l <;> simp only [World.opStep, reduceCtorEq, Option.some.injEq] at hstep
    exact hstep ▸ .commitOpen ha hs
  | resetOpen =>
    cases l <;> simp only [World.opStep, reduceCtorEq, Option.some.injEq] at hstep
    exact hstep ▸ .resetOpen ha hs
  | publishOpen =>
    cases l <;> simp only [World.opStep, reduceCtorEq, Option.some.injEq] at hstep
    exact hstep ▸ .publishOpen ha hs
  | openFail =>
    cases l <;> simp only [World.opStep, reduceCtorEq, Option.some.injEq] at hstep
    exact hstep ▸ .publishOpenFail ha hs
  | submitClose =>
    cases l with
    | submitted accepted =>
      cases accepted with
      | true =>
        simp only [World.opStep, if_true, Option.some.injEq] at hstep
        exact hstep ▸ .submitClose ha hs
      | false =>
        simp only [World.opStep, Bool.false_eq_true, if_false, Option.some.injEq] at hstep
        exact hstep ▸ .submitCloseRefused ha hs
    | _ => simp only [World.opStep, reduceCtorEq] at hstep
  | cancelRefused =>
    cases l <;> simp only [World.opStep, reduceCtorEq, Option.some.injEq] at hstep
    exact hstep ▸ .publishFault ha hs
  | closeEdge hne =>
    cases l <;> simp only [World.opStep, reduceCtorEq, Option.some.injEq] at hstep
    exact hstep ▸ close_step (hs ▸ hne) ha
  | closeDone hor =>
    cases l <;> simp only [World.opStep, reduceCtorEq, Option.some.injEq] at hstep
    exact hstep ▸ closeDone_step (hs ▸ hor) ha
  | commitClose =>
    cases l <;> simp only [World.opStep, reduceCtorEq, Option.some.injEq] at hstep
    exact hstep ▸ .commitClose ha hs
  | resetClose =>
    cases l <;> simp only [World.opStep, reduceCtorEq, Option.some.injEq] at hstep
    exact hstep ▸ .resetClose ha hs
  | publishClosed =>
    cases l <;> simp only [World.opStep, reduceCtorEq, Option.some.injEq] at hstep
    exact hstep ▸ .publishClosed ha hs
  | clearPending hne =>
    cases l <;> simp only [World.opStep, reduceCtorEq, Option.some.injEq] at hstep
    exact hstep ▸ .clearPending ha (hs ▸ hne)
  | faultClear hne =>
    cases l <;> simp only [World.opStep, reduceCtorEq, Option.some.injEq] at hstep
    exact hstep ▸ .faultClear ha (hs ▸ hne)
  | faultEdge hne =>
    cases l <;> simp only [World.opStep, reduceCtorEq, Option.some.injEq] at hstep
    exact hstep ▸ fault_step (hs ▸ hne) (.inl rfl) ha
  | closeAdmission hr =>
    cases l <;> simp only [World.opStep, reduceCtorEq, Option.some.injEq] at hstep
    exact hstep ▸ .closeAdmission _ (hs ▸ hr) ha
  | closeRelease hr =>
    cases l <;> simp only [World.opStep, reduceCtorEq, Option.some.injEq] at hstep
    exact hstep ▸ .closeRelease _ (hs ▸ hr) ha
  | closeStopWriter hr =>
    cases l <;> simp only [World.opStep, reduceCtorEq, Option.some.injEq] at hstep
    exact hstep ▸ .closeStopWriter _ (hs ▸ hr) ha
  | closeJoinWriter hr =>
    cases l <;> simp only [World.opStep, reduceCtorEq] at hstep
    split at hstep
    · cases hstep
      exact .closeJoinWriter _ (hs ▸ hr) ha ‹_›
    · cases hstep
  | closeStopReader hr =>
    cases l <;> simp only [World.opStep, reduceCtorEq, Option.some.injEq] at hstep
    exact hstep ▸ .closeStopReader _ (hs ▸ hr) ha
  | closeJoinReader hr =>
    cases l <;> simp only [World.opStep, reduceCtorEq] at hstep
    split at hstep
    · cases hstep
      exact .closeJoinReader _ (hs ▸ hr) ha ‹_›
    · cases hstep
  | closeAdmit hr =>
    cases l <;> simp only [World.opStep, reduceCtorEq, Option.some.injEq] at hstep
    exact hstep ▸ .closeAdmit _ (hs ▸ hr) ha
  | sendLoadGeneration hne =>
    cases l <;> simp only [World.opStep, reduceCtorEq, Option.some.injEq] at hstep
    subst hstep
    split
    · exact .sendStale _ (.inl ha) (hs ▸ hne)
    · exact .sendCurrent _ ha (hs ▸ hne) (not_not.mp ‹_›)
  | sendLoadState hne =>
    cases l <;> simp only [World.opStep, reduceCtorEq, Option.some.injEq] at hstep
    subst hstep
    split
    · exact .sendStale _ (.inr (.inl ha)) (hs ▸ hne)
    · exact .sendOpen _ ha (hs ▸ hne) (not_not.mp ‹_›)
  | sendEnqueue hne =>
    cases l with
    | enqueued accepted =>
      simp only [World.opStep] at hstep
      split at hstep
      · split at hstep
        · rename_i hroom
          cases hstep
          exact .sendEnqueue _ ha (hs ▸ hne) (w.writerActive_iff.mp hroom.1)
        · cases hstep
      · cases hstep
        exact .sendStale _ (.inr (.inr ha)) (hs ▸ hne)
    | _ => simp only [World.opStep, reduceCtorEq] at hstep

end Xcom
