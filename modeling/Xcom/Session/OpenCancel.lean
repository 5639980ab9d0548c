import Xcom.Session.Resources

/-!
# Opens that are cancelled

`xcom_open` raises the cancel flag when its polls are used up and `xcom_close` when
it finds an open in flight.  The owner exchanges the flag once, between the recorded
success of the native open and the edge to OPEN.
-/

namespace Xcom

open DispOp

/-- The next step of `xcom_open` gives up. -/
def AbiPc.atDeadline : AbiPc → Bool
  | .openDeadline _ => true
  | _ => false

/-- The request an `xcom_open` waits for. -/
def AbiPc.polled : AbiPc → Option Request
  | .openPollResult req _ | .openPollState req _ | .openPollFailure req
  | .openDeadline req => some req
  | _ => none

/-- The last state stored in the published view, and the request it was stored for. -/
def publishedBy : List Obs → Option (PortState × Option Request)
  | [] => none
  | .published state _ req :: _ => some (state, req)
  | .faultStored :: _ => some (.portFault, none)
  | _ :: trace => publishedBy trace

namespace World

/-- The owner has decided for OPEN and not yet published it. -/
def pastExchange (w : World) : Bool :=
  w.serialState = .portOpening ∧
    (w.agenda = [transition .kOpenDone] ∧ w.core.lastOpenResult = .status .ok ∨
      publish .portOpen ∈ w.agenda)

/-- The owner has threads still to join. -/
def insideClose (w : World) : Bool := joinWriter ∈ w.agenda ∨ joinReader ∈ w.agenda

/-- The next step of the owner records the result of an open. -/
def recordsResult (w : World) : Bool :=
  match w.agenda with
  | storeOpenResult _ :: _ => true
  | _ => false

/-- The port is closed and holds nothing. -/
structure Released (w : World) : Prop where
  portState : w.core.portState = .portClosed
  serialState : w.serialState = .portClosed
  writer : w.WriterGone
  device : w.DeviceGone

/-- What the callers of `xcom_open` and `xcom_close` rely on: an open that timed out
has not left OPEN published and never publishes it, and a close that returned success
leaves a released port, until a later open is queued, and no earlier open to come. -/
structure CancelsHold (w : World) : Prop where
  timedOut : ∀ post pre req, w.trace = post ++ .openReturned req .errTimeout :: pre →
    (∀ generation, .published .portOpen generation (some req) ∉ post) ∧
      publishedBy pre ≠ some (.portOpen, some req)
  closed : ∀ post pre, w.trace = post ++ .closeReturned .ok :: pre →
    (∀ req, .openQueued req ∉ post) → w.Released
  cancelled : ∀ post pre, w.trace = post ++ .closeReturned .ok :: pre →
    ∀ req, .openQueued req ∈ pre →
      ∀ generation, .published .portOpen generation (some req) ∉ post

end World

/-- The deadline of `xcom_open` passes before the owner has decided for OPEN;
`xcom_close` trusts CLOSED only with no open in flight and no join to come, and the
owner records no result between its two loads; and opens are accepted one at a time. -/
def CancelsInTime (w : World) : Label → Prop
  | .abi _ =>
    (w.abi.storesBusy = true → w.insideOpen = false) ∧
    (w.abi.atDeadline = true → w.core.portState ≠ .portOpen ∧ w.pastExchange = false) ∧
    (w.abi = .closeLoadState → w.core.portState = .portClosed →
      w.core.lastOpenResult ≠ .status .errBusy → w.insideClose = false) ∧
    (w.abi = .closePoll → w.core.portState = .portClosed →
      w.pending = [] ∧ w.insideClose = false)
  | .disp _ => w.recordsResult = true → w.abi ≠ .closeLoadResult .portClosed
  | _ => True

instance : ∀ w l, Decidable (CancelsInTime w l)
  | _, .abi _ => inferInstanceAs (Decidable (_ ∧ _))
  | _, .disp _ => inferInstanceAs (Decidable (_ → _))
  | _, .reader _ => inferInstanceAs (Decidable True)
  | _, .writer _ => inferInstanceAs (Decidable True)

theorem CancelsInTime.oneOpen {w : World} {l : Label} (h : CancelsInTime w l) :
    OneOpenAtATime w l := by
  cases l with
  | abi l => exact h.1
  | _ => trivial

/-! ## Requests that are cancelled -/

namespace World

/-- The running open does not get to OPEN. -/
def Cancelling (w : World) : Prop :=
  w.Failing ∨
    (w.agenda = [resolveOpen] ∨ w.agenda = [exchangeCancelOpen]) ∧ w.core.cancelOpen = true ∨
    w.agenda = [transition .kCancel]

/-- `r` publishes no OPEN any more. -/
structure Cancelled (w : World) (r : Request) : Prop where
  accepted : r < w.nextRequest
  flagged : r ∈ w.pending → w.core.cancelOpen = true
  closing : w.current = some r → w.serialState = .portOpening → w.openAhead = false →
    w.Cancelling

/-- Closed, and nothing under way that would change it. -/
structure Shut (w : World) : Prop where
  released : w.Released
  pending : w.pending = []
  joined : w.insideClose = false

theorem Shut.cancelled {w : World} (h : w.Shut) {r : Request} (hr : r < w.nextRequest) :
    w.Cancelled r where
  accepted := hr
  flagged := fun hmem => by simp [h.pending] at hmem
  closing := fun _ hopening => by simp [h.released.serialState] at hopening

end World

theorem AbiStep.cancelOpen {w w' : World} (h : AbiStep w w')
    (hc : w.core.cancelOpen = true) : w'.core.cancelOpen = true ∨ w.abi.Parked := by
  cases h with
  | storeCancel sync hpc => exact .inr (by simp [hpc, AbiPc.Parked])
  | openTimesOut req hpc => exact .inl rfl
  | closeStoreCancel hpc => exact .inl rfl
  | _ => exact .inl hc

theorem OwnerStep.cancelOpen {w w' : World} (h : OwnerStep w w')
    (hc : w.core.cancelOpen = true) :
    w'.core.cancelOpen = true ∨ w.agenda = [exchangeCancelOpen] := by
  cases h with
  | exchangeCancelled ha hc => exact .inr ha
  | exchangeClear ha hc => exact .inr ha
  | _ => exact .inl hc

/-- Inside `sink_owner_open`, and behind it, a flagged open stays flagged. -/
theorem OwnerStep.cancelling {w w' : World} (h : OwnerStep w w')
    (hs : w.serialState = .portOpening) (hs' : w'.serialState = .portOpening)
    (ha' : w'.openAhead = false)
    (hc : w.openAhead = true → w.core.cancelOpen = true)
    (hcl : w.openAhead = false → w.Cancelling) : w'.Cancelling := by
  cases h with
  | storeResult r ha hopening hr =>
    exact .inr (.inl ⟨.inl rfl, hc (by simp [World.openAhead, ha, opensAhead])⟩)
  | closeAdmission r hr ha => exact absurd hs hr.ahead
  | closeRelease r hr ha => exact absurd hs hr.ahead
  | closeStopWriter r hr ha => exact absurd hs hr.ahead
  | closeJoinWriter r hr ha hw => exact absurd hs hr.ahead
  | closeStopReader r hr ha => exact absurd hs hr.ahead
  | closeJoinReader r hr ha hw => exact absurd hs hr.ahead
  | closeAdmit r hr ha => exact absurd hs hr.ahead
  | _ => simp_all [World.Cancelling, World.Failing, World.openAhead, opensAhead]

theorem OwnerStep.entersOpening {w w' : World} (h : OwnerStep w w')
    (hs : w.serialState ≠ .portOpening) (hs' : w'.serialState = .portOpening) :
    w'.openAhead = true := by
  cases h with
  | openEdge ha hstate => rfl
  | _ => simp_all

namespace World.Cancelled

variable {w w' : World} {r : Request}

theorem abi (h : w.Cancelled r) (hs : AbiStep w w') (hp : PendingInv w) (hap : ApartInv w)
    (hag : Agenda w.serialState w.agenda) : w'.Cancelled r where
  accepted := lt_of_lt_of_le h.accepted hs.next_le
  flagged := fun hmem => by
    have hmem := (hs.pending hmem).resolve_right (not_le.mpr h.accepted)
    refine (hs.cancelOpen (h.flagged hmem)).resolve_right fun hpk => ?_
    simp [hp.queuing (AbiPc.queuing_of_parked hpk)] at hmem
  closing := fun hcur hopening hahead => by
    obtain ⟨hstate, ha, hc⟩ := hs.owner
    rw [hstate] at hopening
    rw [hc] at hcur
    have hcl := h.closing hcur hopening (by rwa [World.openAhead, ha] at hahead)
    have hin : w.insideOpen = true := by
      have hne : w.agenda ≠ [] := fun hnil => hag.idle_ne hnil hopening
      simp [World.insideOpen, hcur, hne]
    rw [World.Cancelling, World.Failing, ha]
    refine hcl.imp (.imp_left fun hres => ⟨hres.1, hs.result_ne_ok hres.2⟩)
      (.imp_left fun hres => ⟨hres.1, (hs.cancelOpen hres.2).resolve_right fun hpk => ?_⟩)
    simp [hap.parked hpk] at hin

theorem owner (h : w.Cancelled r) (hs : OwnerStep w w') (hp : PendingInv w)
    (hap : ApartInv w) : w'.Cancelled r where
  accepted := hs.pending.next ▸ h.accepted
  flagged := fun hmem => by
    have hmem' : r ∈ w.pending := by
      rcases hs.pending.pending_eq hp with heq | hnil
      · exact heq ▸ hmem
      · simp [hnil] at hmem
    refine (hs.cancelOpen (h.flagged hmem')).resolve_right fun ha => ?_
    have hopens : w.opens ≠ [] := by
      have : r ∈ w.opens := by simpa [World.pending, World.openAhead, ha, opensAhead] using hmem'
      exact List.ne_nil_of_mem this
    simpa [hap.staged hopens] using hap.inside (.inl ha)
  closing := fun hcur hopening hahead => by
    have hcur : w.current = some r := hs.pending.current ▸ hcur
    by_cases hstate : w.serialState = .portOpening
    · exact hs.cancelling hstate hopening hahead
        (fun ha => h.flagged (by simp [pending, ha, hcur])) (h.closing hcur hstate)
    · simp [hs.entersOpening hstate hopening] at hahead

theorem dispatched (h : w.Cancelled r) {i : Nat} {event : Event} (ha : w.agenda = [])
    (hne : w.serialState ≠ .portOpening) (hev : w.events[i]? = some event) :
    (w.dispatched i event).Cancelled r where
  accepted := h.accepted
  flagged := fun hmem => h.flagged ((pending_dispatched ha hev).mem_iff.mp hmem)
  closing := fun _ hopening => absurd hopening hne

theorem reader (h : w.Cancelled r) (hs : ReaderStep w w') : w'.Cancelled r where
  accepted := hs.pending.2 ▸ h.accepted
  flagged := fun hmem => by
    have hflag := h.flagged (hs.pending.1 ▸ hmem)
    cases hs <;> exact hflag
  closing := by cases hs <;> exact h.closing

theorem writer (h : w.Cancelled r) (hs : WriterStep w w') : w'.Cancelled r where
  accepted := hs.pending.2 ▸ h.accepted
  flagged := fun hmem => by
    have hflag := h.flagged (hs.pending.1 ▸ hmem)
    cases hs <;> exact hflag
  closing := by cases hs <;> exact h.closing

end World.Cancelled

/-! ## A closed port stays closed -/

theorem OwnerStep.shut {w w' : World} (h : OwnerStep w w') (hp : PendingInv w)
    (hshut : w.Shut) : w'.Shut := by
  have hpend' : w'.pending = [] := by
    rcases h.pending.pending_eq hp with heq | hnil
    · rw [heq, hshut.pending]
    · exact hnil
  have hahead : w.openAhead = false := Bool.eq_false_iff.mpr fun ha => by
    obtain ⟨r, -, hmem⟩ := hp.ahead_current ha
    simp [hshut.pending] at hmem
  obtain ⟨⟨hport, hstate, hw, hd⟩, -, hjoined⟩ := hshut
  cases h with
  | closeAdmission r hr ha => simp [World.insideClose, ha] at hjoined
  | closeRelease r hr ha => simp [World.insideClose, ha] at hjoined
  | closeStopWriter r hr ha => simp [World.insideClose, ha] at hjoined
  | closeJoinWriter r hr ha hw => simp [World.insideClose, ha] at hjoined
  | closeStopReader r hr ha => simp [World.insideClose, ha] at hjoined
  | closeJoinReader r hr ha hw => simp [World.insideClose, ha] at hjoined
  | closeAdmit r hr ha =>
    obtain ⟨hjw, hjr, -, -⟩ := hr.noJoin
    exact ⟨⟨hport, hstate, hw, hd⟩, hpend', by simp [World.insideClose, hjw, hjr]⟩
  | sendEnqueue d ha hs hw' => exact absurd hw.1 hw'
  | faultNoEdge r ha hr hs =>
    refine ⟨⟨hport, hstate, hw, hd⟩, hpend', ?_⟩
    rcases hr with rfl | rfl <;> simp [World.insideClose]
  | closeEdge ha hs => simp [hstate] at hs
  | _ =>
    -- Either nothing is opened, or an open was ahead or the port not closed.
    first
    | refine ⟨⟨hport, hstate, hw, hd⟩, hpend', ?_⟩
      simp [World.insideClose]
      done
    | simp_all [World.openAhead, opensAhead]

theorem World.Shut.reader {w w' : World} (hshut : w.Shut) (h : ReaderStep w w') : w'.Shut := by
  have habsent := hshut.released.device.1
  cases h <;> simp_all

theorem World.Shut.writer {w w' : World} (hshut : w.Shut) (h : WriterStep w w') : w'.Shut := by
  have habsent := hshut.released.writer.1
  cases h <;> simp_all

theorem World.Shut.dispatched {w : World} {i : Nat} {event : Event} (ha : w.agenda = [])
    (hev : w.events[i]? = some event) (hshut : w.Shut) : (w.dispatched i event).Shut where
  released :=
    { hshut.released with
      writer := hshut.released.writer, device := hshut.released.device }
  pending := (hshut.pending ▸ pending_dispatched ha hev).eq_nil
  joined := by
    cases event with
    | sigFault =>
      simp only [World.insideClose, World.dispatched, actionOf, serialDoFault]
      split <;> simp
    | _ => simp [World.insideClose, World.dispatched, actionOf, serialDoOpen, serialDoClose]

theorem World.Shut.abi {w w' : World} (hshut : w.Shut) (h : AbiStep w w') :
    w'.Shut ∨ w'.trace = .openQueued w.nextRequest :: w.trace := by
  cases h with
  | openQueued sync hpc => exact .inr rfl
  | closeSubmit hpc =>
    refine .inl ⟨⟨hshut.released.1, hshut.released.2, hshut.released.3, hshut.released.4⟩, ?_,
      hshut.joined⟩
    simpa [World.pending, World.openAhead, World.opens, Event.request] using hshut.pending
  | sendSubmit desc hpc =>
    refine .inl ⟨⟨hshut.released.1, hshut.released.2, hshut.released.3, hshut.released.4⟩, ?_,
      hshut.joined⟩
    simpa [World.pending, World.openAhead, World.opens, Event.request] using hshut.pending
  | _ =>
    exact .inl ⟨⟨hshut.released.1, hshut.released.2, hshut.released.3, hshut.released.4⟩,
      hshut.pending, hshut.joined⟩

/-! ## What a step adds to the history -/

/-- What a step may add to the history. -/
structure CancelStep (w w' : World) : Prop where
  trace : w'.trace = w.trace ∨ ∃ o, w'.trace = o :: w.trace
  cancelled : ∀ r, w.Cancelled r → w'.Cancelled r
  shut : w.Shut → w'.Shut ∨ ∃ req, w'.trace = .openQueued req :: w.trace
  next : w.nextRequest ≤ w'.nextRequest
  queues : ∀ req, w'.trace = .openQueued req :: w.trace → req < w'.nextRequest
  opens : ∀ generation r, w'.trace = .published .portOpen generation (some r) :: w.trace →
    ¬ w.Cancelled r
  timesOut : ∀ req, w'.trace = .openReturned req .errTimeout :: w.trace →
    w'.Cancelled req ∧ publishedBy w.trace ≠ some (.portOpen, some req)
  closes : w'.trace = .closeReturned .ok :: w.trace → w'.Shut

/-- `CancelsHold` with what keeps it. -/
structure CancelHistory (w : World) : Prop where
  queued : ∀ req, .openQueued req ∈ w.trace → req < w.nextRequest
  timedOut : ∀ post pre req, w.trace = post ++ .openReturned req .errTimeout :: pre →
    w.Cancelled req ∧ (∀ generation, .published .portOpen generation (some req) ∉ post) ∧
      publishedBy pre ≠ some (.portOpen, some req)
  closed : ∀ post pre, w.trace = post ++ .closeReturned .ok :: pre →
    (∀ req, .openQueued req ∉ post) → w.Shut
  cancelled : ∀ post pre, w.trace = post ++ .closeReturned .ok :: pre →
    ∀ req, .openQueued req ∈ pre → w.Cancelled req ∧
      ∀ generation, .published .portOpen generation (some req) ∉ post

theorem CancelHistory.cancelsHold {w : World} (h : CancelHistory w) : w.CancelsHold where
  timedOut := fun post pre req heq => (h.timedOut post pre req heq).2
  closed := fun post pre heq hno => (h.closed post pre heq hno).released
  cancelled := fun post pre heq req hmem => (h.cancelled post pre heq req hmem).2

/-- A step without an observation keeps the history. -/
theorem CancelHistory.silent {w w' : World} (hs : CancelStep w w') (htr : w'.trace = w.trace)
    (h : CancelHistory w) : CancelHistory w' where
  queued := fun req hmem => lt_of_lt_of_le (h.queued req (htr ▸ hmem)) hs.next
  timedOut := fun post pre req heq => by
    obtain ⟨hcan, hrest⟩ := h.timedOut post pre req (htr ▸ heq)
    exact ⟨hs.cancelled req hcan, hrest⟩
  closed := fun post pre heq hno => by
    refine (hs.shut (h.closed post pre (htr ▸ heq) hno)).resolve_right fun ⟨req, hcons⟩ => ?_
    simp [htr] at hcons
  cancelled := fun post pre heq req hmem => by
    obtain ⟨hcan, hrest⟩ := h.cancelled post pre (htr ▸ heq) req hmem
    exact ⟨hs.cancelled req hcan, hrest⟩

theorem CancelHistory.observed {w w' : World} {o : Obs} (hs : CancelStep w w')
    (htr : w'.trace = o :: w.trace) (h : CancelHistory w) : CancelHistory w' where
  queued := fun req hmem => by
    rcases List.mem_cons.mp (htr ▸ hmem) with rfl | hmem
    · exact hs.queues req htr
    · exact lt_of_lt_of_le (h.queued req hmem) hs.next
  timedOut := fun post pre req heq => by
    rcases List.cons_eq_append_iff.mp (htr ▸ heq) with ⟨rfl, hnew⟩ | ⟨post, rfl, hold⟩
    · obtain ⟨rfl, rfl⟩ := List.cons.inj hnew.symm
      obtain ⟨hcan, hleft⟩ := hs.timesOut req htr
      exact ⟨hcan, by simp, hleft⟩
    · obtain ⟨hcan, hno, hleft⟩ := h.timedOut post pre req hold
      refine ⟨hs.cancelled req hcan, fun generation hmem => ?_, hleft⟩
      rcases List.mem_cons.mp hmem with rfl | hmem
      · exact hs.opens generation req htr hcan
      · exact hno generation hmem
  closed := fun post pre heq hno => by
    rcases List.cons_eq_append_iff.mp (htr ▸ heq) with ⟨rfl, hnew⟩ | ⟨post, rfl, hold⟩
    · obtain ⟨rfl, rfl⟩ := List.cons.inj hnew.symm
      exact hs.closes htr
    · have hshut := h.closed post pre hold fun req hmem => hno req (List.mem_cons_of_mem _ hmem)
      refine (hs.shut hshut).resolve_right fun ⟨req, hcons⟩ => ?_
      obtain ⟨rfl, -⟩ := List.cons.inj (htr.symm.trans hcons)
      exact hno req (by simp)
  cancelled := fun post pre heq req hmem => by
    rcases List.cons_eq_append_iff.mp (htr ▸ heq) with ⟨rfl, hnew⟩ | ⟨post, rfl, hold⟩
    · obtain ⟨rfl, rfl⟩ := List.cons.inj hnew.symm
      exact ⟨(hs.closes htr).cancelled (lt_of_lt_of_le (h.queued req hmem) hs.next), by simp⟩
    · obtain ⟨hcan, hno⟩ := h.cancelled post pre hold req hmem
      refine ⟨hs.cancelled req hcan, fun generation hmem => ?_⟩
      rcases List.mem_cons.mp hmem with rfl | hmem
      · exact hs.opens generation req htr hcan
      · exact hno generation hmem

theorem CancelHistory.step {w w' : World} (hs : CancelStep w w') (h : CancelHistory w) :
    CancelHistory w' := by
  rcases hs.trace with htr | ⟨o, htr⟩
  · exact h.silent hs htr
  · exact h.observed hs htr

/-! ## The calls in progress -/

/-- What the calls of the ABI caller have loaded still holds when they use it. -/
structure CallInv (w : World) : Prop where
  polling : ∀ req, w.abi.polled = some req → req < w.nextRequest
  view : ∀ state req, publishedBy w.trace = some (state, req) →
    w.core.portState = state ∧ ∀ r, req = some r → r < w.nextRequest
  left : ∀ req, w.abi.polled = some req →
    publishedBy w.trace = some (.portOpen, some req) → w.core.lastOpenResult = .status .ok
  failing : ∀ req, w.abi = .openPollFailure req → w.pending = [] ∧
    w.core.lastOpenResult ≠ .status .ok ∧ w.Cancelled req
  closing : w.abi = .closeLoadResult .portClosed →
    w.core.lastOpenResult = .status .errBusy ∨ w.Shut

/-- Where an open stands behind its recorded result. -/
theorem Agenda.opening {a : List DispOp} (h : Agenda .portOpening a)
    (hahead : a.any opensAhead = false) :
    a = [resolveOpen] ∨ a = [exchangeCancelOpen] ∨ a = [transition .kOpenDone] ∨
      a = [transition .kCancel] ∨ publish .portOpen ∈ a ∨ a = [publish .portClosed] := by
  generalize hs : PortState.portOpening = s at h
  cases h with
  | closeAdmission h => exact absurd hs.symm h.ahead
  | closeRelease h => exact absurd hs.symm h.ahead
  | closeStopWriter h => exact absurd hs.symm h.ahead
  | closeJoinWriter h => exact absurd hs.symm h.ahead
  | closeStopReader h => exact absurd hs.symm h.ahead
  | closeJoinReader h => exact absurd hs.symm h.ahead
  | closeAdmit h => exact absurd hs.symm h.ahead
  | closeDone h => simp [← hs] at h
  | _ => simp_all [opensAhead]

/-- An open that is not decided for OPEN does not get there once it is flagged. -/
theorem Agenda.cancelling {w : World} (hag : Agenda w.serialState w.agenda)
    (hs : w.serialState = .portOpening) (hahead : w.openAhead = false)
    (hpast : w.pastExchange = false)
    (hc : w.core.cancelOpen = true) : w.Cancelling := by
  simp only [World.pastExchange, hs, true_and, decide_eq_false_iff_not, not_or, not_and] at hpast
  rcases (hs ▸ hag).opening hahead with ha | ha | ha | ha | ha | ha
  · exact .inr (.inl ⟨.inl ha, hc⟩)
  · exact .inr (.inl ⟨.inr ha, hc⟩)
  · exact .inl (.inl ⟨.inr ha, hpast.1 ha⟩)
  · exact .inr (.inr ha)
  · exact absurd ha hpast.2
  · exact .inl (.inr ha)

/-- A recorded failure is not decided for OPEN. -/
theorem Agenda.failed {w : World} (hag : Agenda w.serialState w.agenda) (hap : ApartInv w)
    (hs : w.serialState = .portOpening) (hahead : w.openAhead = false)
    (hr : w.core.lastOpenResult ≠ .status .ok) : w.Cancelling := by
  rcases (hs ▸ hag).opening hahead with ha | ha | ha | ha | ha | ha
  · exact .inl (.inl ⟨.inl ha, hr⟩)
  · exact absurd (hap.succeeded (.inl ha)).1 hr
  · exact .inl (.inl ⟨.inr ha, hr⟩)
  · exact .inr (.inr ha)
  · exact absurd (hap.succeeded (.inr ha)).1 hr
  · exact .inl (.inr ha)

/-- What is known of every state of a run that meets the condition. -/
structure CancelContext (w : World) : Prop where
  agenda : Agenda w.serialState w.agenda
  view : ViewInv w
  pending : PendingInv w
  apart : ApartInv w
  resources : ResourceInv w

theorem CancelContext.shut {w : World} (h : CancelContext w)
    (hport : w.core.portState = .portClosed) (hpend : w.pending = [])
    (hjoined : w.insideClose = false) : w.Shut := by
  have hstate : w.serialState = .portClosed := by
    rcases h.view with heq | hf
    · exact heq ▸ hport
    · simp [hf] at hport
  simp only [World.insideClose, decide_eq_false_iff_not, not_or] at hjoined
  exact ⟨⟨hport, hstate, h.resources.writer (.inl (.inl hstate)) hjoined.1,
    h.resources.device (.inl hstate) hjoined.2⟩, hpend, by simpa [World.insideClose]⟩

theorem AbiStep.cancelStep {w w' : World} {l : AbiLabel} (h : AbiStep w w')
    (hx : CancelContext w) (hc : CancelsInTime w (.abi l)) (hcall : CallInv w) :
    CancelStep w w' := by
  have hcancelled := fun r (hr : w.Cancelled r) => hr.abi h hx.pending hx.apart hx.agenda
  have hshut := fun hs : w.Shut => (hs.abi h).imp_right fun htr =>
    (⟨w.nextRequest, htr⟩ : ∃ req, w'.trace = .openQueued req :: w.trace)
  have hnext := h.next_le
  cases h with
  | openQueued sync hpc =>
    refine ⟨.inr ⟨_, rfl⟩, hcancelled, hshut, hnext, fun req htr => ?_, nofun, nofun, nofun⟩
    obtain ⟨hreq, -⟩ := List.cons.inj htr
    cases hreq
    exact Nat.lt_succ_self _
  | openReturnsFailure req st hpc hst =>
    refine ⟨.inr ⟨_, rfl⟩, hcancelled, hshut, hnext, nofun, nofun, fun req' htr => ?_, nofun⟩
    obtain ⟨hobs, -⟩ := List.cons.inj htr
    cases hobs
    obtain ⟨-, hr, hcan⟩ := hcall.failing req hpc
    exact ⟨hcancelled req hcan, fun hleft =>
      hr (hcall.left req (by simp [hpc, AbiPc.polled]) hleft)⟩
  | openTimesOut req hpc =>
    refine ⟨.inr ⟨_, rfl⟩, hcancelled, hshut, hnext, nofun, nofun, fun req' htr => ?_, nofun⟩
    obtain ⟨hobs, -⟩ := List.cons.inj htr
    cases hobs
    obtain ⟨hnopen, hpast⟩ := hc.2.1 (by simp [hpc, AbiPc.atDeadline])
    refine ⟨⟨hcall.polling req (by simp [hpc, AbiPc.polled]), fun _ => rfl,
      fun _ hopening hahead => ?_⟩, fun hleft => hnopen (hcall.view _ _ hleft).1⟩
    exact Agenda.cancelling hx.agenda hopening hahead hpast rfl
  | closeIdempotent hpc hr =>
    refine ⟨.inr ⟨_, rfl⟩, hcancelled, hshut, hnext, nofun, nofun, nofun, fun _ => ?_⟩
    exact (hshut ((hcall.closing hpc).resolve_left hr)).resolve_right nofun
  | closeReturnsOk hpc hp =>
    obtain ⟨hpend, hjoined⟩ := hc.2.2.2 hpc hp
    refine ⟨.inr ⟨_, rfl⟩, hcancelled, hshut, hnext, nofun, nofun, nofun, fun _ => ?_⟩
    exact (hshut (hx.shut hp hpend hjoined)).resolve_right nofun
  | openReturnsOk req i hpc hp =>
    exact ⟨.inr ⟨_, rfl⟩, hcancelled, hshut, hnext, nofun, nofun, nofun, nofun⟩
  | takeOk | takeOpening | takeBusy | takeFailure | closeTimesOut | closeRejected =>
    exact ⟨.inr ⟨_, rfl⟩, hcancelled, hshut, hnext, nofun, nofun, nofun, nofun⟩
  | _ =>
    exact ⟨.inl rfl, hcancelled, hshut, hnext, by simp, by simp, by simp, by simp⟩

theorem AbiStep.polled {w w' : World} {req : Request} (h : AbiStep w w')
    (hpc : w'.abi.polled = some req) :
    w.abi.polled = some req ∧ w'.core.lastOpenResult = w.core.lastOpenResult ∨
      req = w.nextRequest ∧ w'.nextRequest = req + 1 ∧
        publishedBy w'.trace = publishedBy w.trace := by
  cases h with
  | openQueued sync hpc' =>
    cases sync <;> simp only [AbiPc.polled, World.emit, if_true, Option.some.injEq,
      reduceCtorEq, Bool.false_eq_true, if_false] at hpc
    exact .inr ⟨hpc.symm, by simp [hpc], rfl⟩
  | pollOk req' i hpc' hr => exact .inl ⟨by simpa [hpc', AbiPc.polled] using hpc, rfl⟩
  | pollFailed req' i hpc' hok hbusy => exact .inl ⟨by simpa [hpc', AbiPc.polled] using hpc, rfl⟩
  | pollAgain req' i hpc' =>
    refine .inl ⟨?_, rfl⟩
    have hreq : req' = req := by
      simp only [World.nextPoll] at hpc
      split at hpc <;> exact Option.some.inj hpc
    rcases hpc' with hpc' | hpc' <;> simp [hpc', AbiPc.polled, hreq]
  | refused hpc' => exact .inl ⟨hpc, rfl⟩
  | closePollAgain hpc' => exact .inl ⟨hpc, rfl⟩
  | _ => cases hpc

theorem AbiStep.publishedBy {w w' : World} (h : AbiStep w w') :
    publishedBy w'.trace = publishedBy w.trace := by
  cases h <;> rfl

theorem AbiStep.callFailing {w w' : World} (h : AbiStep w w') (hx : CancelContext w)
    (hcall : CallInv w) (req : Request) (hpc : w'.abi = .openPollFailure req) :
    w'.pending = [] ∧ w'.core.lastOpenResult ≠ .status .ok ∧ w'.Cancelled req := by
  have hcancelled := fun (hr : w.Cancelled req) => hr.abi h hx.pending hx.apart hx.agenda
  cases h with
  | pollFailed req' i hpc' hok hbusy =>
    cases hpc
    have hpend : w.pending = [] := by
      by_contra hne
      exact hbusy (hx.pending.busy hne).1
    have hlt := hcall.polling req (by simp [hpc', AbiPc.polled])
    refine ⟨hpend, hok, hcancelled ⟨hlt, fun hmem => by simp [hpend] at hmem, ?_⟩⟩
    exact fun _ hopening hahead => Agenda.failed hx.agenda hx.apart hopening hahead hok
  | openQueued sync hpc' => cases sync <;> cases hpc
  | pollAgain req' i hpc' =>
    simp only [World.nextPoll] at hpc
    split at hpc <;> cases hpc
  | refused hpc' => simp [hpc'] at hpc
  | closePollAgain hpc' => simp [hpc'] at hpc
  | _ => cases hpc

theorem AbiStep.callClosing {w w' : World} {l : AbiLabel} (h : AbiStep w w')
    (hx : CancelContext w) (hc : CancelsInTime w (.abi l))
    (hpc : w'.abi = .closeLoadResult .portClosed) :
    w'.core.lastOpenResult = .status .errBusy ∨ w'.Shut := by
  have hshut := fun hs : w.Shut => hs.abi h
  cases h with
  | closeLoadState hpc' =>
    simp only [AbiPc.closeLoadResult.injEq] at hpc
    by_cases hbusy : w.core.lastOpenResult = .status .errBusy
    · exact .inl hbusy
    · have hpend : w.pending = [] := by
        by_contra hne
        exact hbusy (hx.pending.busy hne).1
      have hw := hx.shut hpc hpend (hc.2.2.1 hpc' hpc hbusy)
      exact .inr ((hshut hw).resolve_right (by simp))
  | openQueued sync hpc' => cases sync <;> cases hpc
  | pollAgain req' i hpc' =>
    simp only [World.nextPoll] at hpc
    split at hpc <;> cases hpc
  | refused hpc' => simp [hpc'] at hpc
  | closePollAgain hpc' => simp [hpc'] at hpc
  | _ => cases hpc

theorem AbiStep.callInv {w w' : World} {l : AbiLabel} (h : AbiStep w w')
    (hx : CancelContext w) (hc : CancelsInTime w (.abi l)) (hcall : CallInv w) :
    CallInv w' where
  polling := fun req hpc => by
    rcases h.polled hpc with ⟨hpc, -⟩ | ⟨-, hn, -⟩
    · exact lt_of_lt_of_le (hcall.polling req hpc) h.next_le
    · rw [hn]; exact Nat.lt_succ_self _
  view := fun state req hpub => by
    rw [h.publishedBy] at hpub
    obtain ⟨hp, hr⟩ := hcall.view state req hpub
    exact ⟨h.portState ▸ hp, fun r hreq => lt_of_lt_of_le (hr r hreq) h.next_le⟩
  left := fun req hpc hleft => by
    rw [h.publishedBy] at hleft
    rcases h.polled hpc with ⟨hpc, hr⟩ | ⟨rfl, -, -⟩
    · rw [hr, hcall.left req hpc hleft]
    · exact absurd ((hcall.view _ _ hleft).2 _ rfl) (lt_irrefl _)
  failing := h.callFailing hx hcall
  closing := h.callClosing hx hc

theorem OwnerStep.cancelStep {w w' : World} (h : OwnerStep w w') (hx : CancelContext w) :
    CancelStep w w' := by
  have hcancelled := fun r (hr : w.Cancelled r) => hr.owner h hx.pending hx.apart
  have hshut := fun hs : w.Shut => (Or.inl (h.shut hx.pending hs) :
    w'.Shut ∨ ∃ req, w'.trace = .openQueued req :: w.trace)
  have hnext := h.pending.next.ge
  cases h with
  | publishOpen ha hs =>
    refine ⟨.inr ⟨_, rfl⟩, hcancelled, hshut, hnext, by simp, fun g r htr hcan => ?_, by simp,
      by simp⟩
    obtain ⟨hobs, -⟩ := List.cons.inj htr
    simp only [Obs.published.injEq, true_and] at hobs
    have hcl := hcan.closing hobs.2 hs (by simp [World.openAhead, ha, opensAhead])
    simp [World.Cancelling, World.Failing, ha] at hcl
  | storeResult | openEdge | publishOpenFail | cancel | closeEdge | publishClosed | publishFault
  | faultOpen | faultClosing =>
    exact ⟨.inr ⟨_, rfl⟩, hcancelled, hshut, hnext, by simp, by simp, by simp, by simp⟩
  | _ => exact ⟨.inl rfl, hcancelled, hshut, hnext, by simp, by simp, by simp, by simp⟩

theorem OwnerStep.publishedBy {w w' : World} (h : OwnerStep w w') :
    publishedBy w'.trace = publishedBy w.trace ∧ w'.core.portState = w.core.portState ∨
      publishedBy w'.trace = some (w'.core.portState, w.current) ∧
        (w'.core.portState = .portOpen → publish .portOpen ∈ w.agenda) := by
  cases h with
  | openEdge | publishOpenFail | cancel | closeEdge | publishClosed | publishFault
  | faultOpen | faultClosing => exact .inr ⟨rfl, nofun⟩
  | publishOpen ha hs => exact .inr ⟨rfl, fun _ => by simp [ha]⟩
  | _ => exact .inl ⟨rfl, rfl⟩

theorem OwnerStep.result {w w' : World} (h : OwnerStep w w') :
    w'.core.lastOpenResult = w.core.lastOpenResult ∨
      ∃ r, w.agenda = [storeOpenResult r, resolveOpen] ∧ w.serialState = .portOpening := by
  cases h with
  | storeResult r ha hs hr => exact .inr ⟨r, ha, hs⟩
  | _ => exact .inl rfl

theorem OwnerStep.callInv {w w' : World} {l : DispLabel} (h : OwnerStep w w')
    (hx : CancelContext w) (hc : CancelsInTime w (.disp l)) (hcall : CallInv w) :
    CallInv w' := by
  have hp := h.pending
  refine ⟨fun req hpc => ?_, fun state req hpub => ?_, fun req hpc hleft => ?_,
    fun req hpc => ?_, fun hpc => ?_⟩
  · rw [hp.next]
    exact hcall.polling req (hp.abi ▸ hpc)
  · rcases h.publishedBy with ⟨heq, hport⟩ | ⟨heq, -⟩
    · rw [hport, hp.next]
      exact hcall.view state req (heq ▸ hpub)
    · obtain ⟨rfl, rfl⟩ := Prod.mk.inj (Option.some.inj (heq.symm.trans hpub))
      exact ⟨rfl, fun r hr => hp.next ▸ (hx.pending.current r hr).2⟩
  · rw [hp.abi] at hpc
    rcases h.publishedBy with ⟨heq, hport⟩ | ⟨heq, hopen⟩
    · rw [heq] at hleft
      rcases h.result with hr | ⟨r, -, hopening⟩
      · rw [hr, hcall.left req hpc hleft]
      · have hport := (hcall.view _ _ hleft).1
        rcases hx.view with hview | hview <;> simp [hport, hopening] at hview
    · obtain ⟨hport, -⟩ := Prod.mk.inj (Option.some.inj (heq.symm.trans hleft))
      have hmem := hopen hport
      rcases h.result with hr | ⟨r, ha, -⟩
      · rw [hr, (hx.apart.succeeded (.inr hmem)).1]
      · simp [ha] at hmem
  · rw [hp.abi] at hpc
    obtain ⟨hpend, hr, hcan⟩ := hcall.failing req hpc
    refine ⟨?_, ?_, hcan.owner h hx.pending hx.apart⟩
    · exact (hp.pending_eq hx.pending).elim (fun heq => heq.trans hpend) id
    · rcases h.result with heq | ⟨r, ha, -⟩
      · exact heq ▸ hr
      · obtain ⟨r', -, hmem⟩ := hx.pending.ahead_current (by
          simp [World.openAhead, ha, opensAhead])
        simp [hpend] at hmem
  · rw [hp.abi] at hpc
    refine (hcall.closing hpc).imp (fun hbusy => ?_) (h.shut hx.pending)
    rcases h.result with heq | ⟨r, ha, -⟩
    · exact heq.trans hbusy
    · exact absurd hpc (hc (by simp [World.recordsResult, ha]))

theorem dispatched_cancel {w : World} {i : Nat} {event : Event} (hx : CancelContext w)
    (ha : w.agenda = []) (hev : w.events[i]? = some event) (hcall : CallInv w) :
    CancelStep w (w.dispatched i event) ∧ CallInv (w.dispatched i event) := by
  have hne := hx.agenda.idle_ne ha
  refine ⟨⟨.inl rfl, fun r h => h.dispatched ha hne hev, fun h => .inl (h.dispatched ha hev),
    le_rfl, ?_, ?_, ?_, ?_⟩, hcall.polling, hcall.view, hcall.left, fun req hpc => ?_,
    fun hpc => (hcall.closing hpc).imp_right fun h => h.dispatched ha hev⟩
  · simp [World.dispatched]
  · simp [World.dispatched]
  · simp [World.dispatched]
  · simp [World.dispatched]
  · obtain ⟨hpend, hr, hcan⟩ := hcall.failing req hpc
    exact ⟨(hpend ▸ pending_dispatched ha hev).eq_nil, hr, hcan.dispatched ha hne hev⟩

/-- What a reporter of faults does to the history and to the calls in progress. -/
structure ReporterCall (w w' : World) : Prop where
  trace : (w'.trace = w.trace ∨ ∃ d h b, w'.trace = .written d h b :: w.trace) ∧
      w'.core.portState = w.core.portState ∨
    w'.trace = .faultStored :: w.trace ∧ w'.core.portState = .portFault
  abi : w'.abi = w.abi
  result : w'.core.lastOpenResult = w.core.lastOpenResult
  pending : w'.pending = w.pending ∧ w'.nextRequest = w.nextRequest
  cancelled : ∀ r, w.Cancelled r → w'.Cancelled r
  shut : w.Shut → w'.Shut

theorem ReporterCall.cancelStep {w w' : World} (h : ReporterCall w w') : CancelStep w w' := by
  refine ⟨?_, h.cancelled, fun hs => .inl (h.shut hs), h.pending.2.ge, ?_, ?_, ?_, ?_⟩
  · rcases h.trace with ⟨htr | ⟨_, _, _, htr⟩, -⟩ | ⟨htr, -⟩
    · exact .inl htr
    · exact .inr ⟨_, htr⟩
    · exact .inr ⟨_, htr⟩
  all_goals
    rcases h.trace with ⟨htr | ⟨_, _, _, htr⟩, -⟩ | ⟨htr, -⟩ <;> simp [htr]

theorem ReporterCall.callInv {w w' : World} (h : ReporterCall w w') (hcall : CallInv w) :
    CallInv w' := by
  have hpub : publishedBy w'.trace = publishedBy w.trace ∧
        w'.core.portState = w.core.portState ∨
      publishedBy w'.trace = some (.portFault, none) ∧ w'.core.portState = .portFault := by
    rcases h.trace with ⟨htr | ⟨_, _, _, htr⟩, hp⟩ | ⟨htr, hp⟩
    · exact .inl ⟨by rw [htr], hp⟩
    · exact .inl ⟨by rw [htr]; rfl, hp⟩
    · exact .inr ⟨by rw [htr]; rfl, hp⟩
  refine ⟨fun req hpc => ?_, fun state req hstate => ?_, fun req hpc hleft => ?_,
    fun req hpc => ?_, fun hpc => ?_⟩
  · rw [h.pending.2]
    exact hcall.polling req (h.abi ▸ hpc)
  · rcases hpub with ⟨heq, hp⟩ | ⟨heq, hp⟩
    · rw [hp, h.pending.2]
      exact hcall.view state req (heq ▸ hstate)
    · obtain ⟨rfl, rfl⟩ := Prod.mk.inj (Option.some.inj (heq.symm.trans hstate))
      exact ⟨hp, nofun⟩
  · rcases hpub with ⟨heq, -⟩ | ⟨heq, -⟩
    · rw [h.result]
      exact hcall.left req (h.abi ▸ hpc) (heq ▸ hleft)
    · simp [heq] at hleft
  · obtain ⟨hpend, hr, hcan⟩ := hcall.failing req (h.abi ▸ hpc)
    exact ⟨h.pending.1.trans hpend, h.result ▸ hr, h.cancelled req hcan⟩
  · rw [h.result]
    exact (hcall.closing (h.abi ▸ hpc)).imp_right h.shut

theorem ReaderStep.call {w w' : World} (h : ReaderStep w w') : ReporterCall w w' := by
  have hp := h.pending
  have hcan := fun r (hr : w.Cancelled r) => hr.reader h
  have hshut := fun hs : w.Shut => hs.reader h
  cases h with
  | storeState hpc => exact ⟨.inr ⟨rfl, rfl⟩, rfl, rfl, hp, hcan, hshut⟩
  | _ => exact ⟨.inl ⟨.inl rfl, rfl⟩, rfl, rfl, hp, hcan, hshut⟩

theorem WriterStep.call {w w' : World} (h : WriterStep w w') : ReporterCall w w' := by
  have hp := h.pending
  have hcan := fun r (hr : w.Cancelled r) => hr.writer h
  have hshut := fun hs : w.Shut => hs.writer h
  cases h with
  | storeState hpc => exact ⟨.inr ⟨rfl, rfl⟩, rfl, rfl, hp, hcan, hshut⟩
  | write job handle count ok fatal hpc hd =>
    exact ⟨.inl ⟨.inr ⟨_, _, _, rfl⟩, rfl⟩, rfl, rfl, hp, hcan, hshut⟩
  | _ => exact ⟨.inl ⟨.inl rfl, rfl⟩, rfl, rfl, hp, hcan, hshut⟩

theorem cancelHistory_reach {w : World}
    (h : Transition.ReachUnder sessionMachine CancelsInTime w) :
    CallInv w ∧ CancelHistory w := by
  refine h.invariantUsing (q := CancelContext) (p := fun w => CallInv w ∧ CancelHistory w)
    (fun w hw => ?_) ?_ ?_
  · have hone := hw.mono fun _ _ => CancelsInTime.oneOpen
    exact ⟨agenda_reach hw.reach, viewInv_reach hw.reach, pendingInv_reach hw.reach,
      apartInv_reach hone, resourceInv_reach hone⟩
  · constructor <;> constructor <;> simp [sessionMachine, AbiPc.polled, publishedBy]
  rintro w l w' hx ⟨hcall, hhist⟩ hc hstep
  cases l with
  | abi l =>
    have hs := abiStep_cases hstep
    exact ⟨hs.callInv hx hc hcall, hhist.step (hs.cancelStep hx hc hcall)⟩
  | disp l =>
    rcases dispStep_cases hx.agenda hstep with hs | ⟨i, event, -, ha, hev, rfl⟩
    · exact ⟨hs.callInv hx hc hcall, hhist.step (hs.cancelStep hx)⟩
    · obtain ⟨hs, hcall'⟩ := dispatched_cancel hx ha hev hcall
      exact ⟨hcall', hhist.step hs⟩
  | reader l =>
    have hs := (readerStep_cases hstep).call
    exact ⟨hs.callInv hcall, hhist.step hs.cancelStep⟩
  | writer l =>
    have hs := (writerStep_cases hstep).call
    exact ⟨hs.callInv hcall, hhist.step hs.cancelStep⟩

end Xcom
