import Xcom.Session.Agenda

/-!
# What the other threads can do

The inversion lemmas of the ABI caller, the read thread and the session writer:
each says once what one step of its thread does to the shared state.
-/

namespace Xcom

/-- What a step of the ABI caller does. -/
inductive AbiStep (w : World) : World → Prop
  | refused (hpc : w.abi = .idle) : AbiStep w w
  | openCall (sync : Bool) (cfg : SerialConfig) (hpc : w.abi = .idle) :
      AbiStep w { w with abi := .queueLoadState sync cfg }
  | takeCall (hpc : w.abi = .idle) : AbiStep w { w with abi := .takeLoadState }
  | closeCall (hpc : w.abi = .idle) : AbiStep w { w with abi := .closeLoadState }
  | sendCall (data : List UInt8) (hpc : w.abi = .idle) :
      AbiStep w { w with abi := .sendLoadState data }
  -- queue_open
  | queueLoadState (sync : Bool) (cfg : SerialConfig)
      (hpc : w.abi = .queueLoadState sync cfg) :
      AbiStep w { w with abi := .queueLoadResult sync cfg w.core.portState }
  | queueRefused (sync : Bool) (cfg : SerialConfig) (st : PortState)
      (hpc : w.abi = .queueLoadResult sync cfg st) : AbiStep w { w with abi := .idle }
  | queueAllowed (sync : Bool) (cfg : SerialConfig) (st : PortState)
      (hpc : w.abi = .queueLoadResult sync cfg st)
      (hst : st = .portClosed ∨ st = .portFault)
      (hr : w.core.lastOpenResult ≠ .status .errBusy) :
      AbiStep w { w with core.config := cfg, abi := .queueStoreBusy sync }
  | storeBusy (sync : Bool) (hpc : w.abi = .queueStoreBusy sync) :
      AbiStep w { w with
        core.lastOpenResult := .status .errBusy, abi := .queueStoreCancel sync }
  | storeCancel (sync : Bool) (hpc : w.abi = .queueStoreCancel sync) :
      AbiStep w { w with core.cancelOpen := false, abi := .queueSubmit sync }
  | openQueued (sync : Bool) (hpc : w.abi = .queueSubmit sync) :
      AbiStep w ({ w.stage (.sigOpen w.nextRequest) with
        nextRequest := w.nextRequest + 1
        abi := if sync then .openPollResult w.nextRequest 0 else .idle }.emit
          (.openQueued w.nextRequest))
  | openRejected (sync : Bool) (hpc : w.abi = .queueSubmit sync) :
      AbiStep w { w with abi := .queueRejected }
  | storeRejected (hpc : w.abi = .queueRejected) :
      AbiStep w { w with core.lastOpenResult := .status .errIo, abi := .idle }
  -- xcom_open
  | pollOk (req : Request) (i : Nat) (hpc : w.abi = .openPollResult req i)
      (hr : w.core.lastOpenResult = .status .ok) :
      AbiStep w { w with abi := .openPollState req i }
  | pollAgain (req : Request) (i : Nat)
      (hpc : w.abi = .openPollResult req i ∨ w.abi = .openPollState req i) :
      AbiStep w (w.nextPoll req i)
  | pollFailed (req : Request) (i : Nat) (hpc : w.abi = .openPollResult req i)
      (hok : w.core.lastOpenResult ≠ .status .ok)
      (hbusy : w.core.lastOpenResult ≠ .status .errBusy) :
      AbiStep w { w with abi := .openPollFailure req }
  | openReturnsOk (req : Request) (i : Nat) (hpc : w.abi = .openPollState req i)
      (hp : w.core.portState = .portOpen) :
      AbiStep w (w.returns (.openReturned req .ok))
  | openReturnsFailure (req : Request) (st : XcomStatus) (hpc : w.abi = .openPollFailure req)
      (hst : st = openFailureStatusFromResult w.core.lastOpenResult) :
      AbiStep w (w.returns (.openReturned req st))
  | openTimesOut (req : Request) (hpc : w.abi = .openDeadline req) :
      AbiStep w ({ w with core.cancelOpen := true }.returns (.openReturned req .errTimeout))
  -- xcom_take_open_result
  | takeOk (hpc : w.abi = .takeLoadState) (hp : w.core.portState = .portOpen) :
      AbiStep w (w.returns (.takeReturned w.lastRequest .ok))
  | takeOpening (hpc : w.abi = .takeLoadState) (hp : w.core.portState = .portOpening) :
      AbiStep w (w.returns (.takeReturned w.lastRequest .errBusy))
  | takeLoadState (hpc : w.abi = .takeLoadState) (hp : w.core.portState ≠ .portOpen)
      (hp' : w.core.portState ≠ .portOpening) :
      AbiStep w { w with abi := .takeLoadResult }
  | takeBusy (hpc : w.abi = .takeLoadResult)
      (hr : w.core.lastOpenResult = .status .errBusy) :
      AbiStep w (w.returns (.takeReturned w.lastRequest .errBusy))
  | takeLoadResult (hpc : w.abi = .takeLoadResult)
      (hr : w.core.lastOpenResult ≠ .status .errBusy) :
      AbiStep w { w with abi := .takeFailure }
  | takeFailure (st : XcomStatus) (hpc : w.abi = .takeFailure)
      (hst : st = openFailureStatusFromResult w.core.lastOpenResult) :
      AbiStep w (w.returns (.takeReturned w.lastRequest st))
  -- xcom_close
  | closeLoadState (hpc : w.abi = .closeLoadState) :
      AbiStep w { w with abi := .closeLoadResult w.core.portState }
  | closeIdempotent (hpc : w.abi = .closeLoadResult .portClosed)
      (hr : w.core.lastOpenResult ≠ .status .errBusy) :
      AbiStep w (w.returns (.closeReturned .ok))
  | closeCancels (st : PortState) (hpc : w.abi = .closeLoadResult st) :
      AbiStep w { w with abi := .closeStoreCancel }
  | closeProceeds (st : PortState) (hpc : w.abi = .closeLoadResult st) :
      AbiStep w { w with abi := .closeSubmit }
  | closeStoreCancel (hpc : w.abi = .closeStoreCancel) :
      AbiStep w { w with core.cancelOpen := true, abi := .closeSubmit }
  | closeSubmit (hpc : w.abi = .closeSubmit) :
      AbiStep w { w.stage .sigClose with abi := .closePoll }
  | closeRejected (hpc : w.abi = .closeSubmit) :
      AbiStep w (w.returns (.closeReturned .errFull))
  | closeReturnsOk (hpc : w.abi = .closePoll) (hp : w.core.portState = .portClosed) :
      AbiStep w (w.returns (.closeReturned .ok))
  | closeTimesOut (hpc : w.abi = .closePoll) :
      AbiStep w (w.returns (.closeReturned .errTimeout))
  | closePollAgain (hpc : w.abi = .closePoll) : AbiStep w w
  -- xcom_send
  | sendRefused (hpc : (∃ data, w.abi = .sendLoadState data) ∨
        (∃ data seen, w.abi = .sendAlloc data seen) ∨ ∃ desc, w.abi = .sendSubmit desc) :
      AbiStep w { w with abi := .idle }
  | sendLoadState (data : List UInt8) (hpc : w.abi = .sendLoadState data)
      (hp : w.core.portState = .portOpen) :
      AbiStep w { w with abi := .sendAlloc data w.device }
  | sendAlloc (data : List UInt8) (seen : Option Handle)
      (hpc : w.abi = .sendAlloc data seen) :
      AbiStep w { w with abi := .sendLoadGeneration data seen }
  | sendLoadGeneration (data : List UInt8) (seen : Option Handle)
      (hpc : w.abi = .sendLoadGeneration data seen) :
      AbiStep w { w with abi := .sendSubmit ⟨data, w.core.generation, seen⟩ }
  | sendSubmit (desc : TxDescriptor) (hpc : w.abi = .sendSubmit desc) :
      AbiStep w { w.stage (.sigSend desc) with abi := .idle }

theorem queueOpen_cases {w w' : World} {sync : Bool} {cfg : Option XcomPortConfig}
    (hpc : w.abi = .idle) (h : w.queueOpen sync cfg = some w') : AbiStep w w' := by
  unfold World.queueOpen at h
  split at h
  · cases h
    exact .refused hpc
  · split at h
    · cases h
    · cases h
      exact .openCall _ _ hpc

theorem abiStep_cases {w w' : World} {l : AbiLabel} (h : w.abiStep l = some w') :
    AbiStep w w' := by
  unfold World.abiStep at h
  split at h
  case h_1 hpc => exact queueOpen_cases hpc h
  case h_2 hpc => exact queueOpen_cases hpc h
  case h_3 hpc => cases h; exact .takeCall hpc
  case h_4 hpc => cases h; exact .closeCall hpc
  case h_5 hpc =>
    split at h
    · cases h; exact .refused hpc
    · cases h; exact .sendCall _ hpc
  case h_6 hpc => cases h; exact .queueLoadState _ _ hpc
  case h_7 hpc =>
    split at h
    · cases h; exact .queueRefused _ _ _ hpc
    split at h
    · cases h; exact .queueRefused _ _ _ hpc
    split at h
    · cases h; exact .queueRefused _ _ _ hpc
    · rename_i hr hst
      cases h
      refine .queueAllowed _ _ _ hpc ?_ hr
      by_contra hcon
      exact hst (not_or.mp hcon)
  case h_8 hpc => cases h; exact .storeBusy _ hpc
  case h_9 hpc => cases h; exact .storeCancel _ hpc
  case h_10 hpc => cases h; exact .openQueued _ hpc
  case h_11 hpc => cases h; exact .openRejected _ hpc
  case h_12 hpc => cases h; exact .storeRejected hpc
  case h_13 hpc =>
    split at h
    · cases h; exact .pollOk _ _ hpc ‹_›
    split at h
    · cases h; exact .pollAgain _ _ (.inl hpc)
    · cases h; exact .pollFailed _ _ hpc ‹_› ‹_›
  case h_14 hpc =>
    split at h
    · cases h; exact .openReturnsOk _ _ hpc ‹_›
    · cases h; exact .pollAgain _ _ (.inr hpc)
  case h_15 hpc => cases h; exact .openReturnsFailure _ _ hpc rfl
  case h_16 hpc => cases h; exact .openTimesOut _ hpc
  case h_17 hpc =>
    split at h
    · cases h; exact .takeOk hpc ‹_›
    split at h
    · cases h; exact .takeOpening hpc ‹_›
    · cases h; exact .takeLoadState hpc ‹_› ‹_›
  case h_18 hpc =>
    split at h
    · cases h; exact .takeBusy hpc ‹_›
    · cases h; exact .takeLoadResult hpc ‹_›
  case h_19 hpc => cases h; exact .takeFailure _ hpc rfl
  case h_20 hpc => cases h; exact .closeLoadState hpc
  case h_21 hpc =>
    split at h
    · rename_i hst
      cases h
      exact .closeIdempotent (hst.1 ▸ hpc) hst.2
    split at h
    · cases h; exact .closeCancels _ hpc
    · cases h; exact .closeProceeds _ hpc
  case h_22 hpc => cases h; exact .closeStoreCancel hpc
  case h_23 hpc => cases h; exact .closeSubmit hpc
  case h_24 hpc => cases h; exact .closeRejected hpc
  case h_25 hpc =>
    split at h
    · cases h; exact .closeReturnsOk hpc ‹_›
    split at h
    · cases h; exact .closeTimesOut hpc
    · cases h; exact .closePollAgain hpc
  case h_26 hpc =>
    split at h
    · cases h; exact .sendRefused (.inl ⟨_, hpc⟩)
    · cases h; exact .sendLoadState _ hpc (not_not.mp ‹_›)
  case h_27 hpc =>
    split at h
    · cases h; exact .sendAlloc _ _ hpc
    · cases h; exact .sendRefused (.inr (.inl ⟨_, _, hpc⟩))
  case h_28 hpc => cases h; exact .sendLoadGeneration _ _ hpc
  case h_29 hpc => cases h; exact .sendSubmit _ hpc
  case h_30 hpc => cases h; exact .sendRefused (.inr (.inr ⟨_, hpc⟩))
  case h_31 => cases h

/-- What a step of the read thread does. -/
inductive ReaderStep (w : World) : World → Prop
  | fault (hpc : w.reader = .running) : ReaderStep w { w with reader := .faultLoadAdmission }
  | stop (hpc : w.reader = .running) (hstop : w.readerStop = true) :
      ReaderStep w { w with reader := .exited }
  | admitted (hpc : w.reader = .faultLoadAdmission) (ha : w.core.callbackAdmission = true) :
      ReaderStep w { w with reader := .faultSubmit }
  | refused (hpc : w.reader = .faultLoadAdmission) : ReaderStep w { w with reader := .exited }
  | submit (hpc : w.reader = .faultSubmit) :
      ReaderStep w { w.stage .sigFault with reader := .exited }
  | rejected (hpc : w.reader = .faultSubmit) :
      ReaderStep w { w with reader := .faultStoreState }
  | storeState (hpc : w.reader = .faultStoreState) :
      ReaderStep w ({ w with
        core.portState := .portFault, reader := .faultStorePending }.emit .faultStored)
  | storePending (hpc : w.reader = .faultStorePending) :
      ReaderStep w { w with core.faultPending := true, reader := .exited }

theorem readerStep_cases {w w' : World} {l : ReaderLabel} (h : w.readerStep l = some w') :
    ReaderStep w w' := by
  unfold World.readerStep at h
  split at h
  case h_1 hpc => cases h; exact .fault hpc
  case h_2 hpc =>
    split at h
    · cases h; exact .stop hpc ‹_›
    · cases h
  case h_3 hpc =>
    cases h
    split
    · exact .admitted hpc ‹_›
    · exact .refused hpc
  case h_4 hpc => cases h; exact .submit hpc
  case h_5 hpc => cases h; exact .rejected hpc
  case h_6 hpc => cases h; exact .storeState hpc
  case h_7 hpc => cases h; exact .storePending hpc
  case h_8 => cases h

/-- What a step of the session writer does. -/
inductive WriterStep (w : World) : World → Prop
  | stopped (hpc : w.writer = .wait ∨ w.writer = .release) (hstop : w.writerStop = true) :
      WriterStep w { w with jobs := [], writer := .exited }
  | next (hpc : w.writer = .wait ∨ w.writer = .release) :
      WriterStep w { w with writer := .pop }
  | empty (hpc : w.writer = .pop) : WriterStep w { w with writer := .wait }
  | pop (job : TxDescriptor) (jobs : List TxDescriptor) (hpc : w.writer = .pop)
      (hjobs : w.jobs = job :: jobs) :
      WriterStep w { w with jobs := jobs, writer := .loadGeneration job }
  | stale (hpc : (∃ job, w.writer = .loadGeneration job) ∨ (∃ job, w.writer = .loadState job) ∨
        ∃ job, w.writer = .write job) : WriterStep w { w with writer := .release }
  | current (job : TxDescriptor) (hpc : w.writer = .loadGeneration job)
      (hg : job.generation = w.core.generation) :
      WriterStep w { w with writer := .loadState job }
  | openPort (job : TxDescriptor) (hpc : w.writer = .loadState job)
      (hp : w.core.portState = .portOpen) : WriterStep w { w with writer := .write job }
  | write (job : TxDescriptor) (handle : Handle) (count : Nat) (ok fatal : Bool)
      (hpc : w.writer = .write job) (hd : w.device = some handle) :
      WriterStep w (w.ownerWrite job handle count ok fatal)
  | submit (hpc : w.writer = .faultSubmit) :
      WriterStep w { w.stage .sigFault with writer := .release }
  | rejected (hpc : w.writer = .faultSubmit) :
      WriterStep w { w with writer := .faultStoreState }
  | storeState (hpc : w.writer = .faultStoreState) :
      WriterStep w ({ w with
        core.portState := .portFault, writer := .faultStorePending }.emit .faultStored)
  | storePending (hpc : w.writer = .faultStorePending) :
      WriterStep w { w with core.faultPending := true, writer := .release }

theorem writerStep_cases {w w' : World} {l : WriterLabel} (h : w.writerStep l = some w') :
    WriterStep w w' := by
  unfold World.writerStep at h
  split at h
  case h_1 hpc =>
    split at h
    · cases h; exact .stopped (.inl hpc) ‹_›
    · cases h; exact .next (.inl hpc)
  case h_2 hpc =>
    split at h
    · cases h; exact .empty hpc
    · cases h; exact .pop _ _ hpc ‹_›
  case h_3 hpc =>
    cases h
    split
    · exact .current _ hpc ‹_›
    · exact .stale (.inl ⟨_, hpc⟩)
  case h_4 hpc =>
    cases h
    split
    · exact .openPort _ hpc ‹_›
    · exact .stale (.inr (.inl ⟨_, hpc⟩))
  case h_5 hpc =>
    split at h
    · cases h; exact .stale (.inr (.inr ⟨_, hpc⟩))
    · split at h
      · cases h; exact .write _ _ _ _ _ hpc ‹_›
      · cases h
  case h_6 hpc => cases h; exact .submit hpc
  case h_7 hpc => cases h; exact .rejected hpc
  case h_8 hpc => cases h; exact .storeState hpc
  case h_9 hpc => cases h; exact .storePending hpc
  case h_10 hpc =>
    split at h
    · cases h; exact .stopped (.inr hpc) ‹_›
    · cases h; exact .next (.inr hpc)
  case h_11 => cases h

/-- The dispatch of a staged event. -/
def World.dispatched (w : World) (i : Nat) (event : Event) : World :=
  { w with
    events := w.events.eraseIdx i
    current := event.request
    agenda := actionOf w.serialState event }

/-- What a step of the Dispatcher does. -/
theorem dispStep_cases {w w' : World} {l : DispLabel} (hag : Agenda w.serialState w.agenda)
    (h : w.dispStep l = some w') :
    OwnerStep w w' ∨
      ∃ i event, l = .dispatch i ∧ w.agenda = [] ∧ w.events[i]? = some event ∧
        w' = w.dispatched i event := by
  unfold World.dispStep at h
  split at h
  · rename_i i ha
    split at h
    · cases h
    · rename_i event hev
      cases h
      exact .inr ⟨i, event, rfl, ha, hev, rfl⟩
  · cases h
  · rename_i ha
    exact .inl (opStep_cases hag ha h)

theorem AbiStep.owner {w w' : World} (h : AbiStep w w') :
    w'.serialState = w.serialState ∧ w'.agenda = w.agenda ∧ w'.current = w.current := by
  cases h <;> exact ⟨rfl, rfl, rfl⟩

theorem ReaderStep.owner {w w' : World} (h : ReaderStep w w') :
    w'.serialState = w.serialState ∧ w'.agenda = w.agenda ∧ w'.current = w.current := by
  cases h <;> exact ⟨rfl, rfl, rfl⟩

theorem WriterStep.owner {w w' : World} (h : WriterStep w w') :
    w'.serialState = w.serialState ∧ w'.agenda = w.agenda ∧ w'.current = w.current := by
  cases h <;> exact ⟨rfl, rfl, rfl⟩

theorem OwnerStep.agenda {w w' : World} (h : OwnerStep w w') :
    Agenda w'.serialState w'.agenda := by
  cases h with
  | reconcilePending ha hs hp => exact .reconcileFault hs
  | reconcileClear ha hs hp => exact .openEdge hs
  | openEdge ha hs => exact .openStopReader
  | openNoEdge ha hs => exact .resolve
  | openStopReader ha hs => exact hs ▸ .openJoinReader
  | openJoinReader ha hs hr => exact hs ▸ .openDevice
  | openDevice ha hs => exact hs ▸ .startWriter
  | openDeviceFail error ha hs => exact hs ▸ .storeResult (OpenResult.ofBackendError_ne_busy error)
  | startRunning ha hs hw => exact hs ▸ .startAdmit
  | startWriter ha hs hw => exact hs ▸ .startAdmit
  | startFail ha hs hw => exact hs ▸ .startFailStop
  | startAdmit ha hs => exact hs ▸ .storeResult (by simp)
  | startFailStop ha hs => exact hs ▸ .startFailJoin
  | startFailJoin ha hs hr => exact hs ▸ .storeResult (by simp)
  | storeResult r ha hs hr => exact .resolve
  | resolveFailed ha hr => exact .openDone
  | resolveOk ha hr => exact .exchangeCancel
  | exchangeCancelled ha hc => exact .cancel
  | exchangeClear ha hc => exact .openDone
  | openDone ha hs hr => exact hs ▸ .commitOpen
  | openFail ha hs hr => exact hs ▸ .openFail
  | openDoneNoEdge ha hs => exact .idle hs
  | cancel ha hs => exact .submitClose
  | cancelNoEdge ha hs => exact .idle hs
  | commitOpen ha hs => exact hs ▸ .resetOpen
  | resetOpen ha hs => exact hs ▸ .publishOpen
  | publishOpen ha hs => exact .idle (by simp)
  | publishOpenFail ha hs => exact .idle (by simp)
  | submitClose ha hs => exact .idle (hs.trans_ne (by decide))
  | submitCloseRefused ha hs => exact hs ▸ .closeAdmission .cancelRefused
  | publishFault ha hs => exact .idle (by simp)
  | closeEdge ha hs => exact .closeAdmission .closeDone
  | closeNoEdge ha hs => exact .closeDone (.inr hs)
  | closeDone ha hs => exact hs ▸ .commitClose
  | closeDoneNoEdge ha hs => exact .clearPending (by simp [hs])
  | commitClose ha hs => exact hs ▸ .resetClose
  | resetClose ha hs => exact hs ▸ .publishClosed
  | publishClosed ha hs => exact .clearPending (by simp)
  | clearPending ha hs => exact .idle hs
  | faultClear ha hs => exact .faultEdge hs
  | faultOpen r ha hr hs =>
    rcases hr with rfl | rfl
    · exact .closeAdmission .fault
    · exact .closeAdmission .reopen
  | faultClosing r ha hr hs =>
    rcases hr with rfl | rfl
    · exact .closeAdmission .faultWhileClosing
    · exact .closeAdmission .reopenClosed
  | faultNoEdge r ha hr hs =>
    have hne : w.serialState ≠ .portOpening := by rcases hs with hs | hs <;> simp [hs]
    rcases hr with rfl | rfl
    · exact .idle hne
    · exact .openEdge hne
  | closeAdmission r h ha => exact .closeRelease h
  | closeRelease r h ha => exact .closeStopWriter h
  | closeStopWriter r h ha => exact .closeJoinWriter h
  | closeJoinWriter r h ha hw => exact .closeStopReader h
  | closeStopReader r h ha => exact .closeJoinReader h
  | closeJoinReader r h ha hw => exact .closeAdmit h
  | closeAdmit r h ha => exact h.agenda
  | sendStale d ha hs => exact .idle hs
  | sendCurrent d ha hs hg => exact .sendLoadState hs
  | sendOpen d ha hs hp => exact .sendEnqueue hs
  | sendEnqueue d ha hs hw => exact .idle hs

theorem dispatched_agenda {w : World} (i : Nat) (event : Event)
    (hne : w.serialState ≠ .portOpening) :
    Agenda (w.dispatched i event).serialState (w.dispatched i event).agenda := by
  cases event with
  | sigOpen req => exact .reconcile hne
  | sigClose => exact .closeEdge hne
  | sigFault =>
    simp only [World.dispatched, actionOf, serialDoFault]
    split
    · exact .idle hne
    · exact .faultClear hne
  | sigSend desc => exact .sendLoadGeneration hne

theorem Agenda.idle_ne {s : PortState} {a : List DispOp} (h : Agenda s a) (ha : a = []) :
    s ≠ .portOpening := by
  subst ha
  cases h with
  | idle h => exact h

theorem step_keeps_agenda {w w' : World} {l : Label} (hag : Agenda w.serialState w.agenda)
    (hstep : w.step l = some w') : Agenda w'.serialState w'.agenda := by
  cases l with
  | abi l =>
    obtain ⟨hs, ha, -⟩ := (abiStep_cases hstep).owner
    rw [hs, ha]
    exact hag
  | disp l =>
    rcases dispStep_cases hag hstep with h | ⟨i, event, -, ha, -, rfl⟩
    · exact h.agenda
    · exact dispatched_agenda i event (hag.idle_ne ha)
  | reader l =>
    obtain ⟨hs, ha, -⟩ := (readerStep_cases hstep).owner
    rw [hs, ha]
    exact hag
  | writer l =>
    obtain ⟨hs, ha, -⟩ := (writerStep_cases hstep).owner
    rw [hs, ha]
    exact hag

/-- In every reachable state the Dispatcher runs one of the agendas of `Agenda`. -/
theorem agenda_reach {w : World} (h : Transition.Reach sessionMachine w) :
    Agenda w.serialState w.agenda :=
  h.invariant (p := fun w => Agenda w.serialState w.agenda) (.idle (by decide))
    fun _ _ _ hag _ hstep => step_keeps_agenda hag hstep

end Xcom
