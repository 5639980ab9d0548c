import Xcom.Session.OpenResult

/-!
# The resources of a session

The read thread, the session writer and the device handle exist only while a session
is opening, open or being closed.  This needs that no open is accepted while the
owner still works on the one before it.
-/

namespace Xcom

open DispOp

/-- The next step of `queue_open` parks the recorded result. -/
def AbiPc.storesBusy : AbiPc → Bool
  | .queueStoreBusy _ => true
  | _ => false

namespace World

/-- The Dispatcher is inside `serial_do_open`. -/
def insideOpen (w : World) : Bool := w.current.isSome ∧ w.agenda ≠ []

/-- The session writer is gone. -/
def WriterGone (w : World) : Prop := w.writer = .inactive ∧ w.jobs = []

/-- The read thread and the device handle are gone. -/
def DeviceGone (w : World) : Prop := w.reader = .absent ∧ w.device = none

/-- States of the owner without a session, but for the joins it still has to make. -/
def Sessionless (w : World) : Prop :=
  w.serialState = .portClosed ∨ w.serialState = .portFault ∨
    publish .portClosed ∈ w.agenda ∨ publish .portFault ∈ w.agenda ∨
    (transition .kCloseDone ∈ w.agenda ∧ transition .kClose ∉ w.agenda) ∨
    openDevice ∈ w.agenda ∨
    (∃ result, result ≠ .status .ok ∧ storeOpenResult result ∈ w.agenda) ∨
    (w.serialState = .portOpening ∧ w.Failing)

end World

/-- The result is parked only while the Dispatcher is not inside `serial_do_open`. -/
def OneOpenAtATime (w : World) : Label → Prop
  | .abi _ => w.abi.storesBusy = true → w.insideOpen = false
  | _ => True

/-- An accepted open waits for the one before it to be through. -/
structure ApartInv (w : World) : Prop where
  parked : w.abi.Parked → w.insideOpen = false
  staged : w.opens ≠ [] → w.insideOpen = false
  carried : resolveOpen ∈ w.agenda ∨ exchangeCancelOpen ∈ w.agenda → w.current.isSome
  succeeded : w.agenda = [exchangeCancelOpen] ∨ publish .portOpen ∈ w.agenda →
    w.core.lastOpenResult = .status .ok ∧ w.current.isSome

theorem OwnerStep.insideOpen {w w' : World} (h : OwnerStep w w')
    (hin : w'.insideOpen = true) : w.insideOpen = true := by
  have hne : w.agenda ≠ [] := by
    cases h with
    | sendStale d ha hs => rcases ha with ha | ha | ha <;> simp [ha]
    | _ => simp [*]
  have hcur := h.pending.current
  simp only [World.insideOpen, hcur, ne_eq, decide_eq_true_eq] at hin ⊢
  exact ⟨hin.1, hne⟩

theorem OwnerStep.carried {w w' : World} (h : OwnerStep w w')
    (hmem : resolveOpen ∈ w'.agenda ∨ exchangeCancelOpen ∈ w'.agenda) :
    resolveOpen ∈ w.agenda ∨ exchangeCancelOpen ∈ w.agenda := by
  cases h <;> simp_all [sinkOwnerClose, backendClose]

theorem AfterClose.ne_succeeded {s : PortState} {r : List DispOp} (h : AfterClose s r) :
    ¬ (r = [exchangeCancelOpen] ∨ publish .portOpen ∈ r) := by
  cases h <;> simp

theorem OwnerStep.succeeded {w w' : World} (h : OwnerStep w w') (hp : PendingInv w)
    (hinv : ApartInv w) (ha : w'.agenda = [exchangeCancelOpen] ∨ publish .portOpen ∈ w'.agenda) :
    w'.core.lastOpenResult = .status .ok ∧ w'.current.isSome := by
  cases h with
  | resolveOk hag hr => exact ⟨hr, hinv.carried (by simp [hag])⟩
  | openDone hag hs hr => exact ⟨hr, hp.carried (.inr hs)⟩
  | commitOpen hag hs => exact hinv.succeeded (.inr (by simp [hag]))
  | resetOpen hag hs => exact hinv.succeeded (.inr (by simp [hag]))
  | closeAdmit r hr hag => exact absurd ha hr.ne_succeeded
  | closeAdmission r hr hag => exact absurd (.inr (by simpa using ha)) hr.ne_succeeded
  | closeRelease r hr hag => exact absurd (.inr (by simpa using ha)) hr.ne_succeeded
  | closeStopWriter r hr hag => exact absurd (.inr (by simpa using ha)) hr.ne_succeeded
  | closeJoinWriter r hr hag hw => exact absurd (.inr (by simpa using ha)) hr.ne_succeeded
  | closeStopReader r hr hag => exact absurd (.inr (by simpa using ha)) hr.ne_succeeded
  | closeJoinReader r hr hag hw => exact absurd (.inr (by simpa using ha)) hr.ne_succeeded
  | faultNoEdge r hag hr hs => rcases hr with rfl | rfl <;> simp at ha
  | faultOpen r hag hr hs => rcases hr with rfl | rfl <;> simp [sinkOwnerClose, backendClose] at ha
  | faultClosing r hag hr hs =>
    rcases hr with rfl | rfl <;> simp [sinkOwnerClose, backendClose] at ha
  | _ => simp [sinkOwnerClose, backendClose] at ha

theorem OwnerStep.apart {w w' : World} (h : OwnerStep w w') (hp : PendingInv w)
    (hinv : ApartInv w) : ApartInv w' where
  parked := fun hp => Bool.eq_false_iff.mpr fun hin => by
    simpa [hinv.parked (h.pending.abi ▸ hp)] using h.insideOpen hin
  staged := fun ho => Bool.eq_false_iff.mpr fun hin => by
    simpa [hinv.staged (h.pending.opens ▸ ho)] using h.insideOpen hin
  carried := fun hmem => by
    rw [h.pending.current]
    exact hinv.carried (h.carried hmem)
  succeeded := h.succeeded hp hinv

theorem ApartInv.inside {w : World} (h : ApartInv w)
    (ha : w.agenda = [exchangeCancelOpen] ∨ publish .portOpen ∈ w.agenda) :
    w.insideOpen = true := by
  have hne : w.agenda ≠ [] := by
    rcases ha with ha | ha
    · simp [ha]
    · exact List.ne_nil_of_mem ha
  simp [World.insideOpen, hne, (h.succeeded ha).2]

/-- A step of another thread that neither parks the result nor stages an open. -/
theorem ApartInv.frame {w w' : World} (h : ApartInv w)
    (howner : w'.serialState = w.serialState ∧ w'.agenda = w.agenda ∧ w'.current = w.current)
    (hparked : w'.abi.Parked → w.abi.Parked) (hopens : w'.opens = w.opens)
    (hresult : w'.core.lastOpenResult = w.core.lastOpenResult ∨ w.insideOpen = false) :
    ApartInv w' := by
  obtain ⟨-, ha, hc⟩ := howner
  have hin : w'.insideOpen = w.insideOpen := by simp only [World.insideOpen, ha, hc]
  refine ⟨fun hp => hin ▸ h.parked (hparked hp), fun ho => hin ▸ h.staged (hopens ▸ ho),
    by rw [ha, hc]; exact h.carried, fun hag => ?_⟩
  rw [ha] at hag
  rcases hresult with heq | hout
  · rw [heq, hc]
    exact h.succeeded hag
  · simp [h.inside hag] at hout

theorem AbiStep.apart {w w' : World} {l : AbiLabel} (h : AbiStep w w')
    (hc : OneOpenAtATime w (.abi l)) (hinv : ApartInv w) : ApartInv w' := by
  have hstep := h
  cases h with
  | storeBusy sync hpc =>
    have hout := hc (by simp [hpc, AbiPc.storesBusy])
    refine ⟨fun _ => hout, hinv.staged, hinv.carried, fun hag => ?_⟩
    simp [hinv.inside hag] at hout
  | storeCancel sync hpc =>
    exact hinv.frame hstep.owner (fun _ => by simp [hpc, AbiPc.Parked]) rfl (.inl rfl)
  | openRejected sync hpc =>
    exact hinv.frame hstep.owner (fun _ => by simp [hpc, AbiPc.Parked]) rfl (.inl rfl)
  | storeRejected hpc =>
    exact hinv.frame hstep.owner False.elim rfl (.inr (hinv.parked (by simp [hpc, AbiPc.Parked])))
  | openQueued sync hpc =>
    have hout := hinv.parked (by simp [hpc, AbiPc.Parked])
    exact ⟨fun _ => hout, fun _ => hout, hinv.carried, hinv.succeeded⟩
  | closeSubmit hpc =>
    exact hinv.frame hstep.owner False.elim (by simp [World.opens, Event.request]) (.inl rfl)
  | sendSubmit desc hpc =>
    exact hinv.frame hstep.owner False.elim (by simp [World.opens, Event.request]) (.inl rfl)
  | refused hpc => exact hinv
  | closePollAgain hpc => exact hinv
  | pollAgain req i hpc =>
    refine hinv.frame hstep.owner ?_ rfl (.inl rfl)
    simp only [World.nextPoll]
    split <;> exact False.elim
  | _ => exact hinv.frame hstep.owner False.elim rfl (.inl rfl)

theorem ReaderStep.apart {w w' : World} (h : ReaderStep w w') (hinv : ApartInv w) :
    ApartInv w' := by
  have hstep := h
  cases h with
  | submit hpc =>
    exact hinv.frame hstep.owner id (by simp [World.opens, Event.request]) (.inl rfl)
  | _ => exact hinv.frame hstep.owner id rfl (.inl rfl)

theorem WriterStep.apart {w w' : World} (h : WriterStep w w') (hinv : ApartInv w) :
    ApartInv w' := by
  have hstep := h
  cases h with
  | submit hpc =>
    exact hinv.frame hstep.owner id (by simp [World.opens, Event.request]) (.inl rfl)
  | _ => exact hinv.frame hstep.owner id rfl (.inl rfl)

theorem dispatched_apart {w : World} {i : Nat} {event : Event} (ha : w.agenda = [])
    (hne : w.serialState ≠ .portOpening) (hev : w.events[i]? = some event)
    (hp : PendingInv w) : ApartInv (w.dispatched i event) := by
  have hp' := dispatched_pendingInv ha hne hev hp
  have hout (hnone : event.request = none) : (w.dispatched i event).insideOpen = false := by
    simp [World.insideOpen, World.dispatched, hnone]
  have hahead (hsome : event.request ≠ none) : (w.dispatched i event).openAhead = true :=
    (actionOf_ahead w.serialState event).trans (Option.isSome_iff_ne_none.mpr hsome)
  refine ⟨fun hpk => hout ?_, fun ho => hout ?_, fun hmem => ?_, fun hag => ?_⟩
  · by_contra hsome
    exact hp'.not_ahead hpk (hahead hsome)
  · by_contra hsome
    exact ho (hp'.opens_of_ahead (hahead hsome))
  · cases event with
    | sigOpen req => rfl
    | sigFault =>
      simp only [World.dispatched, actionOf, serialDoFault] at hmem
      split at hmem <;> simp at hmem
    | _ => simp [World.dispatched, actionOf, serialDoClose] at hmem
  · cases event with
    | sigFault =>
      simp only [World.dispatched, actionOf, serialDoFault] at hag
      split at hag <;> simp at hag
    | _ => simp [World.dispatched, actionOf, serialDoOpen, serialDoClose] at hag

theorem apartInv_reach {w : World}
    (h : Transition.ReachUnder sessionMachine OneOpenAtATime w) : ApartInv w := by
  refine h.invariantUsing (q := fun w => Agenda w.serialState w.agenda ∧ PendingInv w)
    (fun _ h => ⟨agenda_reach h.reach, pendingInv_reach h.reach⟩) ?_ ?_
  · constructor <;> simp [sessionMachine, World.opens, World.insideOpen]
  rintro w l w' ⟨hag, hp⟩ hinv hc hstep
  cases l with
  | abi l => exact (abiStep_cases hstep).apart hc hinv
  | disp l =>
    rcases dispStep_cases hag hstep with h | ⟨i, event, -, ha, hev, rfl⟩
    · exact h.apart hp hinv
    · exact dispatched_apart ha (hag.idle_ne ha) hev hp
  | reader l => exact (readerStep_cases hstep).apart hinv
  | writer l => exact (writerStep_cases hstep).apart hinv

/-! ## Sessionless states hold nothing -/

/-- Where there is no session, what has been joined is gone. -/
structure ResourceInv (w : World) : Prop where
  writer : w.Sessionless ∨ startWriter ∈ w.agenda → joinWriter ∉ w.agenda → w.WriterGone
  device : w.Sessionless → joinReader ∉ w.agenda → w.DeviceGone

theorem AfterClose.sessionless {w : World} {r : List DispOp} (h : AfterClose w.serialState r)
    (hr : r <:+ w.agenda) (hk : transition .kClose ∉ w.agenda) : w.Sessionless := by
  generalize hs : w.serialState = s at h
  cases h with
  | fault => exact .inr (.inl hs)
  | faultWhileClosing => exact .inl hs
  | reopen => exact .inr (.inl hs)
  | reopenClosed => exact .inl hs
  | closeDone => exact .inr (.inr (.inr (.inr (.inl ⟨hr.subset (by simp), hk⟩))))
  | cancelRefused => exact .inr (.inr (.inr (.inl (hr.subset (by simp)))))

theorem AfterClose.noJoin {s : PortState} {r : List DispOp} (h : AfterClose s r) :
    joinWriter ∉ r ∧ joinReader ∉ r ∧ startWriter ∉ r ∧ transition .kClose ∉ r := by
  cases h <;> simp

/-- A step that leaves the resources alone, where what is free of a session and of a join
behind it was so before it. -/
theorem ResourceInv.same {w w' : World} (h : ResourceInv w)
    (hsame : (w'.writer = w.writer ∧ w'.jobs = w.jobs) ∧ w'.reader = w.reader ∧
      w'.device = w.device)
    (hwriter : w'.Sessionless ∨ startWriter ∈ w'.agenda → joinWriter ∉ w'.agenda →
      (w.Sessionless ∨ startWriter ∈ w.agenda) ∧ joinWriter ∉ w.agenda)
    (hdevice : w'.Sessionless → joinReader ∉ w'.agenda →
      w.Sessionless ∧ joinReader ∉ w.agenda) : ResourceInv w' := by
  obtain ⟨⟨hw, hj⟩, hr, hd⟩ := hsame
  constructor
  · intro hless hno
    obtain ⟨hold, hold'⟩ := hwriter hless hno
    simpa only [World.WriterGone, hw, hj] using h.writer hold hold'
  · intro hless hno
    obtain ⟨hold, hold'⟩ := hdevice hless hno
    simpa only [World.DeviceGone, hr, hd] using h.device hold hold'

theorem OwnerStep.resources {w w' : World} (h : OwnerStep w w') (ha : ApartInv w)
    (hinv : ResourceInv w) : ResourceInv w' := by
  have hgone (r : List DispOp) (hr : AfterClose w.serialState r) (hsuf : r <:+ w.agenda)
      (hk : transition .kClose ∉ w.agenda) :
      (joinWriter ∉ w.agenda → w.WriterGone) ∧ (joinReader ∉ w.agenda → w.DeviceGone) :=
    have hless := hr.sessionless hsuf hk
    ⟨hinv.writer (.inl hless), hinv.device hless⟩
  cases h with
  | closeAdmission r hr hag => exact ⟨fun _ hj => by simp at hj, fun _ hj => by simp at hj⟩
  | closeRelease r hr hag => exact ⟨fun _ hj => by simp at hj, fun _ hj => by simp at hj⟩
  | closeStopWriter r hr hag => exact ⟨fun _ hj => by simp at hj, fun _ hj => by simp at hj⟩
  | closeJoinWriter r hr hag hw => exact ⟨fun _ _ => ⟨rfl, rfl⟩, fun _ hj => by simp at hj⟩
  | closeStopReader r hr hag =>
    obtain ⟨hjw, -, -, hk⟩ := hr.noJoin
    have hg := hgone r hr (hag ▸ ⟨[_, _, _], rfl⟩) (by simp [hag, hk])
    exact ⟨fun _ _ => hg.1 (by simp [hag, hjw]), fun _ hj => by simp at hj⟩
  | closeJoinReader r hr hag hw =>
    obtain ⟨hjw, -, -, hk⟩ := hr.noJoin
    have hg := hgone r hr (hag ▸ ⟨[_, _], rfl⟩) (by simp [hag, hk])
    exact ⟨fun _ _ => hg.1 (by simp [hag, hjw]), fun _ _ => ⟨rfl, rfl⟩⟩
  | closeAdmit r hr hag =>
    obtain ⟨hjw, hjr, -, hk⟩ := hr.noJoin
    have hg := hgone r hr (hag ▸ ⟨[_], rfl⟩) (by simp [hag, hk])
    exact ⟨fun _ _ => hg.1 (by simp [hag, hjw]), fun _ _ => hg.2 (by simp [hag, hjr])⟩
  | openNoEdge hag hs =>
    rcases hs with hs | hs <;> constructor <;> simp [World.Sessionless, World.Failing, hs]
  | exchangeClear hag hc =>
    have hok := (ha.succeeded (.inl hag)).1
    obtain ⟨hwriter, hdevice⟩ := hinv
    constructor <;>
      simp_all [World.Sessionless, World.Failing, World.WriterGone, World.DeviceGone]
  | faultNoEdge r hag hr hs =>
    obtain ⟨hwriter, hdevice⟩ := hinv
    have hless : w.Sessionless := hs.elim .inl fun h => .inr (.inl h)
    rcases hr with rfl | rfl
    all_goals exact ⟨fun _ _ => hwriter (.inl hless) (by simp [hag]),
      fun _ _ => hdevice hless (by simp [hag])⟩
  | sendStale d hag hs =>
    obtain ⟨hwriter, hdevice⟩ := hinv
    rcases hag with hag | hag | hag
    all_goals
      constructor <;>
        simp_all [World.Sessionless, World.Failing, World.WriterGone, World.DeviceGone]
  | openJoinReader hag hs hr =>
    have hgone : w.WriterGone := hinv.writer (by simp [World.Sessionless, hag]) (by simp [hag])
    exact ⟨fun _ _ => hgone, fun _ _ => ⟨rfl, rfl⟩⟩
  | openDevice hag hs =>
    have hgone : w.WriterGone := hinv.writer (by simp [World.Sessionless, hag]) (by simp [hag])
    exact ⟨fun _ _ => hgone, by simp [World.Sessionless, World.Failing, hs]⟩
  | startWriter hag hs hw =>
    constructor <;> simp [World.Sessionless, World.Failing, hs]
  | startFailJoin hag hs hr =>
    have hgone : w.WriterGone := hinv.writer (by simp [World.Sessionless, hag]) (by simp [hag])
    exact ⟨fun _ _ => hgone, fun _ _ => ⟨rfl, rfl⟩⟩
  | sendEnqueue d hag hs hw =>
    have hless (h : w.serialState = .portClosed ∨ w.serialState = .portFault) : False :=
      hw (hinv.writer (.inl (h.imp_right .inl)) (by simp [hag])).1
    constructor <;> simp [World.Sessionless, World.Failing, hs] <;> grind
  | _ =>
    clear hgone ha
    refine hinv.same ⟨⟨rfl, rfl⟩, rfl, rfl⟩ ?_ ?_ <;> clear hinv <;>
      simp [World.Sessionless, World.Failing, sinkOwnerClose, backendClose, *]

/-- Outside `serial_do_open` the recorded result does not matter. -/
theorem sessionless_outside {w w' : World}
    (howner : w'.serialState = w.serialState ∧ w'.agenda = w.agenda ∧ w'.current = w.current)
    (hout : w.insideOpen = false) (hp : PendingInv w) (h : w'.Sessionless) :
    w.Sessionless := by
  obtain ⟨hs, ha, -⟩ := howner
  simp only [World.Sessionless, World.Failing, hs, ha] at h ⊢
  refine h.imp_right (.imp_right (.imp_right (.imp_right (.imp_right (.imp_right
    (.imp_right fun hopens => ?_))))))
  obtain ⟨hopening, hf⟩ := hopens
  have hcur := hp.carried (.inr hopening)
  rcases hf with ⟨hag | hag, -⟩ | hag
  all_goals simp [World.insideOpen, hcur, hag] at hout

theorem AbiStep.resources {w w' : World} {l : AbiLabel} (h : AbiStep w w')
    (hc : OneOpenAtATime w (.abi l)) (ha : ApartInv w) (hp : PendingInv w)
    (hinv : ResourceInv w) : ResourceInv w' := by
  have hless (hout : w.insideOpen = false) (hs : w'.Sessionless) : w.Sessionless :=
    sessionless_outside h.owner hout hp hs
  cases h with
  | storeBusy sync hpc =>
    have hout := hc (by simp [hpc, AbiPc.storesBusy])
    exact ⟨fun hs => hinv.writer (hs.imp_left (hless hout)),
      fun hs => hinv.device (hless hout hs)⟩
  | storeRejected hpc =>
    have hout := ha.parked (by simp [hpc, AbiPc.Parked])
    exact ⟨fun hs => hinv.writer (hs.imp_left (hless hout)),
      fun hs => hinv.device (hless hout hs)⟩
  | _ => exact ⟨hinv.writer, hinv.device⟩

theorem ReaderStep.resources {w w' : World} (h : ReaderStep w w') (hinv : ResourceInv w) :
    ResourceInv w' := by
  have hrunning : w.reader ≠ .absent := by cases h <;> simp [*]
  have hnone : w.Sessionless → ¬ joinReader ∉ w.agenda := fun hs hj =>
    hrunning (hinv.device hs hj).1
  cases h <;> exact ⟨hinv.writer, fun hs hj => absurd hj (hnone hs)⟩

theorem WriterStep.resources {w w' : World} (h : WriterStep w w') (hinv : ResourceInv w) :
    ResourceInv w' := by
  have hrunning : w.writer ≠ .inactive := by
    cases h with
    | stopped hpc => rcases hpc with hpc | hpc <;> simp [hpc]
    | next hpc => rcases hpc with hpc | hpc <;> simp [hpc]
    | stale hpc => rcases hpc with ⟨_, hpc⟩ | ⟨_, hpc⟩ | ⟨_, hpc⟩ <;> simp [hpc]
    | _ => simp [*]
  have hnone : w.Sessionless ∨ startWriter ∈ w.agenda → ¬ joinWriter ∉ w.agenda := fun hs hj =>
    hrunning (hinv.writer hs hj).1
  cases h <;> exact ⟨fun hs hj => absurd hj (hnone hs), hinv.device⟩

theorem dispatched_resources {w : World} {i : Nat} {event : Event} (ha : w.agenda = [])
    (hne : w.serialState ≠ .portOpening) (hinv : ResourceInv w) :
    ResourceInv (w.dispatched i event) := by
  have hless : (w.dispatched i event).Sessionless ∨
      startWriter ∈ (w.dispatched i event).agenda → w.Sessionless := by
    intro h
    have hstate : (w.dispatched i event).serialState = w.serialState := rfl
    cases event with
    | sigFault =>
      simp only [World.dispatched, actionOf, serialDoFault] at h
      split at h <;> simp_all [World.Sessionless]
    | _ =>
      simp_all [World.Sessionless, World.dispatched, actionOf, serialDoOpen, serialDoClose]
  exact ⟨fun hs _ => hinv.writer (.inl (hless hs)) (by simp [ha]),
    fun hs _ => hinv.device (hless (.inl hs)) (by simp [ha])⟩

theorem resourceInv_reach {w : World}
    (h : Transition.ReachUnder sessionMachine OneOpenAtATime w) : ResourceInv w := by
  refine h.invariantUsing
    (q := fun w => Agenda w.serialState w.agenda ∧ PendingInv w ∧ ApartInv w)
    (fun _ h => ⟨agenda_reach h.reach, pendingInv_reach h.reach, apartInv_reach h⟩) ?_ ?_
  · constructor <;> simp [sessionMachine, World.WriterGone, World.DeviceGone]
  rintro w l w' ⟨hag, hp, hap⟩ hinv hc hstep
  cases l with
  | abi l => exact (abiStep_cases hstep).resources hc hap hp hinv
  | disp l =>
    rcases dispStep_cases hag hstep with h | ⟨i, event, -, ha, hev, rfl⟩
    · exact h.resources hap hinv
    · exact dispatched_resources ha (hag.idle_ne ha) hinv
  | reader l => exact (readerStep_cases hstep).resources hinv
  | writer l => exact (writerStep_cases hstep).resources hinv

end Xcom
