import Mathlib.Data.List.Perm.Basic
import Xcom.Session.NoWedge

/-!
# The open request in flight

`queue_open` accepts an open only where the recorded result is not BUSY, so one
request at most is staged or still to be recorded, and it is the last accepted one.
-/

namespace Xcom

open DispOp

/-- The ABI caller is between the loads of `queue_open` and its event. -/
def AbiPc.queuing : AbiPc → Bool
  | .queueStoreBusy _ | .queueStoreCancel _ | .queueSubmit _ | .queueRejected => true
  | _ => false

/-- Steps in front of the recorded result of an open. -/
def opensAhead : DispOp → Bool
  | .transition .kOpen | .openDevice | .startWriter | .storeOpenResult _ => true
  | _ => false

namespace World

/-- The running action has an open still to record. -/
def openAhead (w : World) : Bool := w.agenda.any opensAhead

/-- The staged open requests. -/
def opens (w : World) : List Request := w.events.filterMap Event.request

/-- The open requests that are accepted and not yet recorded. -/
def pending (w : World) : List Request :=
  (if w.openAhead then w.current.toList else []) ++ w.opens

/-- The owner is through with `r`, or past recording its result. -/
def Recorded (w : World) (r : Request) : Prop := r ∉ w.pending ∧ r < w.nextRequest

/-- `r` has published OPEN. -/
def reached (w : World) (r : Request) : Bool :=
  w.trace.any fun
    | .published .portOpen _ req => req = some r
    | _ => false

end World

/-- One open in flight at most. -/
structure PendingInv (w : World) : Prop where
  single : w.pending.length ≤ 1
  last : ∀ r ∈ w.pending, w.lastRequest = some r
  current : ∀ r, w.current = some r → r ∉ w.opens ∧ r < w.nextRequest
  carried : w.openAhead = true ∨ w.serialState = .portOpening → w.current.isSome
  busy : w.pending ≠ [] →
    w.core.lastOpenResult = .status .errBusy ∧ w.abi.queuing = false
  parked : w.abi.Parked → w.core.lastOpenResult = .status .errBusy

theorem lastRequest_eq_some {w : World} {r : Request} :
    w.lastRequest = some r ↔ w.nextRequest = r + 1 := by
  unfold World.lastRequest
  cases w.nextRequest <;> simp

theorem PendingInv.lt {w : World} (h : PendingInv w) {r : Request} (hr : r ∈ w.pending) :
    r < w.nextRequest := by
  rw [lastRequest_eq_some.mp (h.last r hr)]
  exact Nat.lt_succ_self r

theorem PendingInv.eq {w : World} (h : PendingInv w) {r r' : Request} (hr : r ∈ w.pending)
    (hr' : r' ∈ w.pending) : r = r' :=
  Option.some.inj ((h.last r hr).symm.trans (h.last r' hr'))

theorem PendingInv.opens_of_ahead {w : World} (h : PendingInv w) (ha : w.openAhead = true) :
    w.opens = [] := by
  obtain ⟨r, hr⟩ := Option.isSome_iff_exists.mp (h.carried (.inl ha))
  have hlen := h.single
  simp only [World.pending, ha, hr, if_true, Option.toList_some, List.length_append,
    List.length_singleton] at hlen
  exact List.length_eq_zero_iff.mp (by omega)

theorem PendingInv.ahead_current {w : World} (h : PendingInv w) (ha : w.openAhead = true) :
    ∃ r, w.current = some r ∧ r ∈ w.pending := by
  obtain ⟨r, hr⟩ := Option.isSome_iff_exists.mp (h.carried (.inl ha))
  exact ⟨r, hr, by simp [World.pending, ha, hr]⟩

theorem PendingInv.queuing {w : World} (h : PendingInv w) (hq : w.abi.queuing = true) :
    w.pending = [] := by
  by_contra hne
  simp [(h.busy hne).2] at hq

theorem AbiPc.queuing_of_parked {pc : AbiPc} (h : pc.Parked) : pc.queuing = true := by
  cases pc <;> first | rfl | cases h

theorem PendingInv.not_ahead {w : World} (h : PendingInv w) (hp : w.abi.Parked) :
    ¬ w.openAhead = true := by
  intro ha
  obtain ⟨r, hr⟩ := Option.isSome_iff_exists.mp (h.carried (.inl ha))
  have hnil := h.queuing (AbiPc.queuing_of_parked hp)
  simp [World.pending, ha, hr] at hnil

/-- A step that only takes off what is in flight. -/
theorem PendingInv.shrink {w w' : World} (h : PendingInv w)
    (hpend : w'.pending = w.pending ∨ w'.pending = []) (hopens : w'.opens = w.opens)
    (hcur : w'.current = w.current) (hnext : w'.nextRequest = w.nextRequest)
    (hcarried : w'.openAhead = true ∨ w'.serialState = .portOpening →
      w.openAhead = true ∨ w.serialState = .portOpening)
    (hbusy : w'.pending ≠ [] → w.core.lastOpenResult = .status .errBusy →
      w.abi.queuing = false →
      w'.core.lastOpenResult = .status .errBusy ∧ w'.abi.queuing = false)
    (hparked : w'.abi.Parked → w'.core.lastOpenResult = .status .errBusy) : PendingInv w' where
  single := by
    rcases hpend with heq | hnil
    · exact heq ▸ h.single
    · simp [hnil]
  last := by
    rcases hpend with heq | hnil
    · simpa [heq, World.lastRequest, hnext] using h.last
    · simp [hnil]
  current := by simpa [hcur, hopens, hnext] using h.current
  carried := fun hc => by
    rw [hcur]
    exact h.carried (hcarried hc)
  busy := fun hne => by
    rcases hpend with heq | hnil
    · obtain ⟨hb, hq⟩ := h.busy (heq ▸ hne)
      exact hbusy hne hb hq
    · exact absurd hnil hne
  parked := hparked

/-- A step inside an action leaves the requests alone and only gets further with an
open. -/
structure OwnerPending (w w' : World) : Prop where
  opens : w'.opens = w.opens
  current : w'.current = w.current
  next : w'.nextRequest = w.nextRequest
  abi : w'.abi = w.abi
  ahead : w'.openAhead = true → w.openAhead = true
  opening : w'.serialState = .portOpening → w.openAhead = true ∨ w.serialState = .portOpening
  result : w'.core.lastOpenResult = w.core.lastOpenResult ∨
    w.openAhead = true ∧ w'.openAhead = false

theorem AfterClose.ahead {s : PortState} {r : List DispOp} (h : AfterClose s r) :
    s ≠ .portOpening := by
  cases h <;> simp

theorem OwnerStep.pending {w w' : World} (h : OwnerStep w w') : OwnerPending w w' := by
  cases h with
  | storeResult r ha hs hr =>
    exact ⟨rfl, rfl, rfl, rfl, by simp [World.openAhead, opensAhead], .inr,
      .inr (by simp [World.openAhead, opensAhead, ha])⟩
  | submitClose ha hs =>
    exact ⟨by simp [World.opens, Event.request], rfl, rfl, rfl,
      by simp [World.openAhead, opensAhead], by simp [hs], .inl rfl⟩
  | sendStale d ha hs =>
    exact ⟨rfl, rfl, rfl, rfl, by simp [World.openAhead], .inr, .inl rfl⟩
  | closeAdmit r hr ha =>
    exact ⟨rfl, rfl, rfl, rfl, by simp [World.openAhead, opensAhead, ha], .inr, .inl rfl⟩
  | _ =>
    refine ⟨rfl, rfl, rfl, rfl, ?_, ?_, .inl rfl⟩
    all_goals simp_all [World.openAhead, opensAhead, sinkOwnerClose, backendClose]

theorem OwnerPending.pending_eq {w w' : World} (hp : OwnerPending w w') (hinv : PendingInv w) :
    w'.pending = w.pending ∨ w'.pending = [] := by
  cases ha : w'.openAhead with
  | true => exact .inl (by simp [World.pending, ha, hp.ahead ha, hp.opens, hp.current])
  | false =>
    cases hw : w.openAhead with
    | true => exact .inr (by simp [World.pending, ha, hp.opens, hinv.opens_of_ahead hw])
    | false => exact .inl (by simp [World.pending, ha, hw, hp.opens])

theorem OwnerStep.pendingInv {w w' : World} (h : OwnerStep w w') (hinv : PendingInv w) :
    PendingInv w' := by
  have hp := h.pending
  refine hinv.shrink (hp.pending_eq hinv) hp.opens hp.current hp.next ?_ (fun hne hb hq => ?_)
    fun hpk => ?_
  · exact fun hc => hc.elim (fun ha => .inl (hp.ahead ha)) hp.opening
  · refine ⟨?_, hp.abi ▸ hq⟩
    rcases hp.result with heq | ⟨hw, ha⟩
    · exact heq ▸ hb
    · simp [World.pending, ha, hp.opens, hinv.opens_of_ahead hw] at hne
  · rw [hp.abi] at hpk
    rcases hp.result with heq | ⟨hw, -⟩
    · rw [heq]
      exact hinv.parked hpk
    · exact absurd hw (hinv.not_ahead hpk)

/-- A step of another thread that stages no open. -/
theorem PendingInv.frame {w w' : World} (h : PendingInv w)
    (howner : w'.serialState = w.serialState ∧ w'.agenda = w.agenda ∧ w'.current = w.current)
    (hopens : w'.opens = w.opens) (hnext : w'.nextRequest = w.nextRequest)
    (hbusy : w.pending ≠ [] → w.core.lastOpenResult = .status .errBusy →
      w.abi.queuing = false →
      w'.core.lastOpenResult = .status .errBusy ∧ w'.abi.queuing = false)
    (hparked : w'.abi.Parked → w'.core.lastOpenResult = .status .errBusy) : PendingInv w' := by
  obtain ⟨hs, ha, hc⟩ := howner
  have hahead : w'.openAhead = w.openAhead := by simp only [World.openAhead, ha]
  have hpend : w'.pending = w.pending := by simp only [World.pending, hahead, hc, hopens]
  refine h.shrink (.inl hpend) hopens hc hnext ?_ (fun hne => hbusy (hpend ▸ hne)) hparked
  rw [hahead, hs]
  exact id

theorem queued_pendingInv {w : World} {sync : Bool} (hinv : PendingInv w)
    (hnil : w.pending = []) (hbusy : w.core.lastOpenResult = .status .errBusy) :
    PendingInv ({ w.stage (.sigOpen w.nextRequest) with
      nextRequest := w.nextRequest + 1
      abi := if sync then .openPollResult w.nextRequest 0 else .idle }.emit
        (.openQueued w.nextRequest)) := by
  generalize hw' : World.emit _ _ = w'
  obtain ⟨hahead, hnone⟩ := List.append_eq_nil_iff.mp hnil
  have hopens : w'.opens = [w.nextRequest] := by
    subst hw'
    simpa [World.opens, Event.request] using hnone
  have hsame : w'.openAhead = w.openAhead ∧ w'.current = w.current ∧
      w'.serialState = w.serialState ∧ w'.nextRequest = w.nextRequest + 1 ∧
      w'.core.lastOpenResult = .status .errBusy ∧ w'.abi.queuing = false := by
    subst hw'
    exact ⟨rfl, rfl, rfl, rfl, hbusy, by cases sync <;> rfl⟩
  obtain ⟨ha, hc, hs, hn, hb, hq⟩ := hsame
  have hpend : w'.pending = [w.nextRequest] := by
    rw [World.pending, ha, hc, hahead, hopens, List.nil_append]
  refine ⟨by simp [hpend], fun r hr => ?_, fun r hr => ?_, ?_, fun _ => ⟨hb, hq⟩, fun _ => hb⟩
  · rw [hpend, List.mem_singleton] at hr
    rw [lastRequest_eq_some, hn, hr]
  · have hlt := (hinv.current r (hc ▸ hr)).2
    exact ⟨by simpa [hopens] using hlt.ne, by rw [hn]; exact Nat.lt_succ_of_lt hlt⟩
  · rw [ha, hc, hs]
    exact hinv.carried

theorem AbiStep.pendingInv {w w' : World} (h : AbiStep w w') (hinv : PendingInv w) :
    PendingInv w' := by
  cases h with
  | queueAllowed sync cfg st hpc hst hr =>
    exact hinv.frame ⟨rfl, rfl, rfl⟩ rfl rfl (fun hne hb _ => absurd hb hr) False.elim
  | storeBusy sync hpc =>
    have hnil := hinv.queuing (by simp [hpc, AbiPc.queuing])
    exact hinv.frame ⟨rfl, rfl, rfl⟩ rfl rfl (fun hne => absurd hnil hne) fun _ => rfl
  | storeCancel sync hpc =>
    have hnil := hinv.queuing (by simp [hpc, AbiPc.queuing])
    exact hinv.frame ⟨rfl, rfl, rfl⟩ rfl rfl (fun hne => absurd hnil hne)
      fun _ => hinv.parked (by simp [hpc, AbiPc.Parked])
  | openRejected sync hpc =>
    have hnil := hinv.queuing (by simp [hpc, AbiPc.queuing])
    exact hinv.frame ⟨rfl, rfl, rfl⟩ rfl rfl (fun hne => absurd hnil hne)
      fun _ => hinv.parked (by simp [hpc, AbiPc.Parked])
  | storeRejected hpc =>
    have hnil := hinv.queuing (by simp [hpc, AbiPc.queuing])
    exact hinv.frame ⟨rfl, rfl, rfl⟩ rfl rfl (fun hne => absurd hnil hne) False.elim
  | openQueued sync hpc =>
    exact queued_pendingInv hinv (hinv.queuing (by simp [hpc, AbiPc.queuing]))
      (hinv.parked (by simp [hpc, AbiPc.Parked]))
  | closeSubmit hpc =>
    exact hinv.frame ⟨rfl, rfl, rfl⟩ (by simp [World.opens, Event.request]) rfl
      (fun _ hb _ => ⟨hb, rfl⟩) False.elim
  | sendSubmit desc hpc =>
    exact hinv.frame ⟨rfl, rfl, rfl⟩ (by simp [World.opens, Event.request]) rfl
      (fun _ hb _ => ⟨hb, rfl⟩) False.elim
  | refused hpc => exact hinv
  | closePollAgain hpc => exact hinv
  | pollAgain req i hpc =>
    have hq : (w.nextPoll req i).abi.queuing = false := by
      simp only [World.nextPoll]
      split <;> rfl
    exact hinv.frame ⟨rfl, rfl, rfl⟩ rfl rfl (fun _ hb _ => ⟨hb, hq⟩)
      fun hp => absurd (AbiPc.queuing_of_parked hp) (hq ▸ Bool.false_ne_true)
  | _ => exact hinv.frame ⟨rfl, rfl, rfl⟩ rfl rfl (fun _ hb _ => ⟨hb, rfl⟩) False.elim

theorem ReaderStep.pendingInv {w w' : World} (h : ReaderStep w w') (hinv : PendingInv w) :
    PendingInv w' := by
  cases h with
  | submit hpc =>
    exact hinv.frame ⟨rfl, rfl, rfl⟩ (by simp [World.opens, Event.request]) rfl
      (fun _ hb hq => ⟨hb, hq⟩) hinv.parked
  | _ => exact hinv.frame ⟨rfl, rfl, rfl⟩ rfl rfl (fun _ hb hq => ⟨hb, hq⟩) hinv.parked

theorem WriterStep.pendingInv {w w' : World} (h : WriterStep w w') (hinv : PendingInv w) :
    PendingInv w' := by
  cases h with
  | submit hpc =>
    exact hinv.frame ⟨rfl, rfl, rfl⟩ (by simp [World.opens, Event.request]) rfl
      (fun _ hb hq => ⟨hb, hq⟩) hinv.parked
  | _ => exact hinv.frame ⟨rfl, rfl, rfl⟩ rfl rfl (fun _ hb hq => ⟨hb, hq⟩) hinv.parked

/-- Dispatching an event takes its request, if it carries one, off the staged ones. -/
theorem opens_dispatched {w : World} {i : Nat} {event : Event}
    (hev : w.events[i]? = some event) :
    List.Perm (event.request.toList ++ (w.dispatched i event).opens) w.opens := by
  obtain ⟨hi, hget⟩ := List.getElem?_eq_some_iff.mp hev
  have hperm := (List.getElem_cons_eraseIdx_perm hi).filterMap Event.request
  rw [List.filterMap_cons, hget] at hperm
  cases hr : event.request <;> simpa [hr, World.opens, World.dispatched] using hperm

theorem actionOf_ahead (s : PortState) (event : Event) :
    (actionOf s event).any opensAhead = event.request.isSome := by
  cases event with
  | sigFault =>
    simp only [actionOf, serialDoFault]
    split <;> rfl
  | _ => rfl

theorem pending_dispatched {w : World} {i : Nat} {event : Event} (ha : w.agenda = [])
    (hev : w.events[i]? = some event) :
    List.Perm (w.dispatched i event).pending w.pending := by
  have hahead : (w.dispatched i event).openAhead = event.request.isSome :=
    actionOf_ahead w.serialState event
  have hold : w.pending = w.opens := by simp [World.pending, World.openAhead, ha]
  rw [hold]
  refine .trans (.of_eq ?_) (opens_dispatched hev)
  rw [World.pending, hahead]
  cases hr : event.request <;> simp [World.dispatched, hr]

theorem dispatched_pendingInv {w : World} {i : Nat} {event : Event} (ha : w.agenda = [])
    (hne : w.serialState ≠ .portOpening) (hev : w.events[i]? = some event)
    (hinv : PendingInv w) : PendingInv (w.dispatched i event) := by
  have hperm := opens_dispatched hev
  have hpend := pending_dispatched ha hev
  have hold : w.pending = w.opens := by simp [World.pending, World.openAhead, ha]
  refine ⟨hpend.length_eq ▸ hinv.single, fun r hr => hinv.last r (hpend.mem_iff.mp hr),
    fun r hr => ?_, fun hc => ?_, fun hnil => hinv.busy fun h => hnil (h ▸ hpend).eq_nil,
    hinv.parked⟩
  · have hr : event.request = some r := hr
    rw [hr, Option.toList_some] at hperm
    have hlen := hperm.length_eq
    rw [List.length_append, List.length_singleton, ← hold] at hlen
    have hnone : (w.dispatched i event).opens = [] := by
      have := hinv.single
      exact List.length_eq_zero_iff.mp (by omega)
    exact ⟨by simp [hnone], hinv.lt (hold ▸ hperm.mem_iff.mp (by simp))⟩
  · rcases hc with hc | hc
    · exact (actionOf_ahead w.serialState event).symm.trans hc
    · exact absurd hc hne

theorem pendingInv_reach {w : World} (h : Transition.Reach sessionMachine w) :
    PendingInv w := by
  refine h.invariantUsing (q := fun w => Agenda w.serialState w.agenda)
    (fun _ h => agenda_reach h) ?_ ?_
  · constructor <;> simp [sessionMachine, World.pending, World.openAhead, World.opens, AbiPc.Parked]
  intro w l w' hag hinv _ hstep
  cases l with
  | abi l => exact (abiStep_cases hstep).pendingInv hinv
  | disp l =>
    rcases dispStep_cases hag hstep with h | ⟨i, event, -, ha, hev, rfl⟩
    · exact h.pendingInv hinv
    · exact dispatched_pendingInv ha (hag.idle_ne ha) hev hinv
  | reader l => exact (readerStep_cases hstep).pendingInv hinv
  | writer l => exact (writerStep_cases hstep).pendingInv hinv

/-! ## Recorded requests stay recorded -/

theorem AbiStep.pending {w w' : World} {r : Request} (h : AbiStep w w') (hr : r ∈ w'.pending) :
    r ∈ w.pending ∨ w.nextRequest ≤ r := by
  cases h with
  | openQueued sync hpc =>
    simp only [World.pending, World.openAhead, World.opens, World.stage, World.emit,
      List.filterMap_append, ← List.append_assoc, List.mem_append] at hr
    rcases hr with hr | hr
    · exact .inl (List.mem_append.mpr hr)
    · simp only [Event.request, List.filterMap_cons, List.filterMap_nil,
        List.mem_singleton] at hr
      exact .inr hr.ge
  | closeSubmit hpc =>
    exact .inl (by simpa [World.pending, World.openAhead, World.opens, Event.request] using hr)
  | sendSubmit desc hpc =>
    exact .inl (by simpa [World.pending, World.openAhead, World.opens, Event.request] using hr)
  | _ => exact .inl hr

theorem AbiStep.next_le {w w' : World} (h : AbiStep w w') :
    w.nextRequest ≤ w'.nextRequest := by
  cases h <;> first | exact le_rfl | exact Nat.le_succ _

theorem ReaderStep.pending {w w' : World} (h : ReaderStep w w') :
    w'.pending = w.pending ∧ w'.nextRequest = w.nextRequest := by
  cases h with
  | submit hpc => simp [World.pending, World.openAhead, World.opens, Event.request]
  | _ => exact ⟨rfl, rfl⟩

theorem WriterStep.pending {w w' : World} (h : WriterStep w w') :
    w'.pending = w.pending ∧ w'.nextRequest = w.nextRequest := by
  cases h with
  | submit hpc => simp [World.pending, World.openAhead, World.opens, Event.request]
  | _ => exact ⟨rfl, rfl⟩

namespace World.Recorded

variable {w w' : World} {r : Request}

theorem abi (h : w.Recorded r) (hs : AbiStep w w') : w'.Recorded r :=
  ⟨fun hr => (hs.pending hr).elim h.1 (not_le.mpr h.2), lt_of_lt_of_le h.2 hs.next_le⟩

theorem owner (h : w.Recorded r) (hs : OwnerStep w w') (hinv : PendingInv w) :
    w'.Recorded r := by
  refine ⟨fun hr => ?_, hs.pending.next ▸ h.2⟩
  rcases hs.pending.pending_eq hinv with heq | hnil
  · exact h.1 (heq ▸ hr)
  · simp [hnil] at hr

theorem dispatched (h : w.Recorded r) {i : Nat} {event : Event} (ha : w.agenda = [])
    (hev : w.events[i]? = some event) : (w.dispatched i event).Recorded r :=
  ⟨fun hr => h.1 ((pending_dispatched ha hev).mem_iff.mp hr), h.2⟩

theorem reader (h : w.Recorded r) (hs : ReaderStep w w') : w'.Recorded r := by
  rwa [Recorded, hs.pending.1, hs.pending.2]

theorem writer (h : w.Recorded r) (hs : WriterStep w w') : w'.Recorded r := by
  rwa [Recorded, hs.pending.1, hs.pending.2]

end World.Recorded

end Xcom
