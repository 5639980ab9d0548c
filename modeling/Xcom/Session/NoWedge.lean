import Xcom.Session.Generation

/-!
# The BUSY sentinel

`queue_open` parks `last_open_result` at BUSY, and only the owner's processing of
that open (or the refusal of its event) takes it off again.
-/

namespace Xcom

open DispOp

/-- The ABI caller has parked the result and not yet handed the open over. -/
def AbiPc.Parked : AbiPc → Prop
  | .queueStoreCancel _ | .queueSubmit _ | .queueRejected => True
  | _ => False

instance : DecidablePred AbiPc.Parked
  | .queueStoreCancel _ | .queueSubmit _ | .queueRejected => .isTrue trivial
  | .idle | .queueLoadState _ _ | .queueLoadResult _ _ _ | .queueStoreBusy _
  | .openPollResult _ _ | .openPollState _ _ | .openPollFailure _ | .openDeadline _
  | .takeLoadState | .takeLoadResult | .takeFailure
  | .closeLoadState | .closeLoadResult _ | .closeStoreCancel | .closeSubmit | .closePoll
  | .sendLoadState _ | .sendAlloc _ _ | .sendLoadGeneration _ _ | .sendSubmit _ =>
    .isFalse not_false

/-- Steps that store a result, or lead to one in the same `sink_owner_open`. -/
def storesOpenResult : DispOp → Bool
  | .openDevice | .startWriter | .storeOpenResult _ => true
  | _ => false

namespace World

/-- The running action will still record the result of an open: it is inside
`sink_owner_open`, or in front of an Open that will find an edge. -/
def WillResolve (w : World) : Prop :=
  w.agenda.any storesOpenResult = true ∨
    transition .kOpen ∈ w.agenda ∧
      (w.AtOp exchangeFaultPending →
        hasOpenEdge w.serialState = true ∨ w.core.faultPending = true) ∧
      (w.AtOp (transition .kOpen) → hasOpenEdge w.serialState = true)

/-- Every submitted event has been dispatched, its action has run to its end, and
no open call stands between its sentinel and its event. -/
def Quiescent (w : World) : Prop := w.events = [] ∧ w.agenda = [] ∧ ¬ w.abi.Parked

/-- No open is waiting for an answer. -/
def Answered (w : World) : Prop :=
  w.core.lastOpenResult ≠ .status .errBusy ∧ w.core.portState ≠ .portOpening

end World

instance (w : World) : Decidable w.Quiescent := inferInstanceAs (Decidable (_ ∧ _ ∧ _))

instance (w : World) : Decidable w.Answered := inferInstanceAs (Decidable (_ ∧ _))

/-- An Open is dispatched only where it finds an edge: in CLOSED or FAULT, or with
the fault latch raised, which the owner reconciles first. -/
def OpenFindsEdge (w : World) : Label → Prop
  | .disp (.dispatch i) =>
    (w.events[i]?.bind Event.request).isSome →
      hasOpenEdge w.serialState = true ∨ w.core.faultPending = true
  | _ => True

instance : ∀ w l, Decidable (OpenFindsEdge w l)
  | _, .disp (.dispatch _) => inferInstanceAs (Decidable (_ → _))
  | _, .disp .run => inferInstanceAs (Decidable True)
  | _, .disp (.opened _) => inferInstanceAs (Decidable True)
  | _, .disp (.started _) => inferInstanceAs (Decidable True)
  | _, .disp (.submitted _) => inferInstanceAs (Decidable True)
  | _, .disp (.enqueued _) => inferInstanceAs (Decidable True)
  | _, .abi _ => inferInstanceAs (Decidable True)
  | _, .reader _ => inferInstanceAs (Decidable True)
  | _, .writer _ => inferInstanceAs (Decidable True)

/-- A parked BUSY has somebody who will take it off. -/
def BusyInv (w : World) : Prop :=
  w.core.lastOpenResult = .status .errBusy →
    w.abi.Parked ∨ (∃ event ∈ w.events, event.request.isSome) ∨ w.WillResolve

/-! ## The published view -/

/-- The view is the owner's state, or FAULT stored over it by a reporter. -/
def ViewInv (w : World) : Prop :=
  w.core.portState = w.serialState ∨ w.core.portState = .portFault

theorem OwnerStep.view {w w' : World} (h : OwnerStep w w') :
    (w'.core.portState = w'.serialState) ∨
      (w'.core.portState = w.core.portState ∧ w'.serialState = w.serialState) := by
  cases h <;> first | exact .inl rfl | exact .inr ⟨rfl, rfl⟩

theorem viewInv_reach {w : World} (h : Transition.Reach sessionMachine w) : ViewInv w := by
  refine h.invariantUsing (q := fun w => Agenda w.serialState w.agenda)
    (fun _ h => agenda_reach h) (.inl rfl) ?_
  intro w l w' hag hinv _ hstep
  cases l with
  | abi l =>
    have hs := abiStep_cases hstep
    have hp : w'.core.portState = w.core.portState := by cases hs <;> rfl
    rw [ViewInv, hp, hs.owner.1]
    exact hinv
  | disp l =>
    rcases dispStep_cases hag hstep with h | ⟨i, event, -, -, -, rfl⟩
    · rcases h.view with heq | ⟨hp, hs⟩
      · exact .inl heq
      · rw [ViewInv, hp, hs]
        exact hinv
    · exact hinv
  | reader l =>
    cases readerStep_cases hstep with
    | storeState hpc => exact .inr rfl
    | _ => exact hinv
  | writer l =>
    cases writerStep_cases hstep with
    | storeState hpc => exact .inr rfl
    | _ => exact hinv

/-! ## The sentinel is always taken off -/

theorem AbiStep.busy {w w' : World} (h : AbiStep w w') (hinv : BusyInv w) : BusyInv w' := by
  intro hbusy
  cases h with
  | storeBusy sync hpc => exact .inl trivial
  | storeCancel sync hpc => exact .inl trivial
  | openQueued sync hpc =>
    exact .inr (.inl ⟨.sigOpen w.nextRequest, by simp, rfl⟩)
  | openRejected sync hpc => exact .inl trivial
  | storeRejected hpc => cases hbusy
  | closeSubmit hpc =>
    rcases hinv hbusy with hp | ⟨e, he, hr⟩ | hw
    · simp [hpc, AbiPc.Parked] at hp
    · exact .inr (.inl ⟨e, List.mem_append_left _ he, hr⟩)
    · exact .inr (.inr hw)
  | sendSubmit desc hpc =>
    rcases hinv hbusy with hp | ⟨e, he, hr⟩ | hw
    · simp [hpc, AbiPc.Parked] at hp
    · exact .inr (.inl ⟨e, List.mem_append_left _ he, hr⟩)
    · exact .inr (.inr hw)
  | sendRefused hpc =>
    refine (hinv hbusy).imp_left fun hp => ?_
    rcases hpc with ⟨d, hpc⟩ | ⟨d, s, hpc⟩ | ⟨d, hpc⟩ <;> simp [hpc, AbiPc.Parked] at hp
  | pollAgain req i hpc =>
    refine (hinv hbusy).imp_left fun hp => ?_
    rcases hpc with hpc | hpc <;> simp [hpc, AbiPc.Parked] at hp
  | refused hpc => exact hinv hbusy
  | closePollAgain hpc => exact hinv hbusy
  | _ hpc => exact (hinv hbusy).imp_left fun hp => by simp [*, AbiPc.Parked] at hp

theorem AfterClose.reopens {s : PortState} {r : List DispOp} (h : AfterClose s r) :
    (r = [transition .kOpen, resolveOpen] ∧ hasOpenEdge s = true) ∨
      (transition .kOpen ∉ r ∧ r.any storesOpenResult = false) := by
  cases h <;> simp [hasOpenEdge, storesOpenResult]

/-- Behind a step of `sink_owner_close` an Open to come is still to come. -/
theorem willResolve_closing {w w' : World} {op : DispOp} {r : List DispOp} (ops : List DispOp)
    (ha : w.agenda = op :: (ops ++ r)) (ha' : w'.agenda = ops ++ r)
    (hs : w'.serialState = w.serialState) (h : AfterClose w.serialState r)
    (hne : op ≠ transition .kOpen ∧ storesOpenResult op = false)
    (hops : ∀ o ∈ ops, o ≠ transition .kOpen ∧ o ≠ exchangeFaultPending ∧
      storesOpenResult o = false) (hw : w.WillResolve) : w'.WillResolve := by
  have hany : ops.any storesOpenResult = false := by
    rw [List.any_eq_false]
    exact fun o ho => by simp [(hops o ho).2.2]
  have hnot : transition .kOpen ∉ ops := fun ho => (hops _ ho).1 rfl
  rcases h.reopens with ⟨rfl, hedge⟩ | ⟨hno, hnone⟩
  · right
    rw [hs, World.AtOp, World.AtOp, ha']
    refine ⟨by simp, fun hat => ?_, fun hat => hedge⟩
    cases ops with
    | nil => simp at hat
    | cons o os =>
      simp only [List.cons_append, List.head?_cons, Option.some.injEq] at hat
      exact absurd hat (hops o (by simp)).2.1
  · simp [World.WillResolve, ha, hno, hnone, hany, hnot, hne.1.symm, hne.2] at hw

theorem OwnerStep.willResolve {w w' : World} (h : OwnerStep w w') (hw : w.WillResolve) :
    w'.WillResolve ∨ w'.core.lastOpenResult ≠ .status .errBusy := by
  cases h with
  | reconcilePending ha hs hp => exact .inl (.inr (by simp [World.AtOp]))
  | reconcileClear ha hs hp =>
    have hedge : hasOpenEdge w.serialState = true := by
      simpa [World.WillResolve, World.AtOp, ha, hp, storesOpenResult] using hw
    exact .inl (.inr (by simp [World.AtOp, hedge]))
  | openEdge ha hs => exact .inl (.inl (by simp [storesOpenResult]))
  | openNoEdge ha hs =>
    rcases hs with hs | hs <;>
      simp [World.WillResolve, World.AtOp, ha, hs, storesOpenResult, hasOpenEdge] at hw
  | openStopReader ha hs => exact .inl (.inl (by simp [storesOpenResult]))
  | openJoinReader ha hs hr => exact .inl (.inl (by simp [storesOpenResult]))
  | openDevice ha hs => exact .inl (.inl (by simp [storesOpenResult]))
  | openDeviceFail error ha hs => exact .inl (.inl (by simp [storesOpenResult]))
  | startRunning ha hs hr => exact .inl (.inl (by simp [storesOpenResult]))
  | startWriter ha hs hr => exact .inl (.inl (by simp [storesOpenResult]))
  | startFail ha hs hr => exact .inl (.inl (by simp [storesOpenResult]))
  | startAdmit ha hs => exact .inl (.inl (by simp [storesOpenResult]))
  | startFailStop ha hs => exact .inl (.inl (by simp [storesOpenResult]))
  | startFailJoin ha hs hr => exact .inl (.inl (by simp [storesOpenResult]))
  | storeResult r ha hs hr => exact .inr hr
  | faultOpen r ha hr hs =>
    rcases hr with rfl | rfl
    · simp [World.WillResolve, ha, storesOpenResult] at hw
    · exact .inl (.inr (by simp [World.AtOp, sinkOwnerClose]))
  | faultClosing r ha hr hs =>
    rcases hr with rfl | rfl
    · simp [World.WillResolve, ha, storesOpenResult] at hw
    · exact .inl (.inr (by simp [World.AtOp, sinkOwnerClose]))
  | faultNoEdge r ha hr hs =>
    rcases hr with rfl | rfl
    · simp [World.WillResolve, ha, storesOpenResult] at hw
    · rcases hs with hs | hs <;> exact .inl (.inr (by simp [World.AtOp, hs, hasOpenEdge]))
  | closeAdmission r hr ha =>
    exact .inl (willResolve_closing [releaseDeferred, stopWriter, joinWriter, stopReader,
      joinReader, openAdmission] ha rfl rfl hr (by simp [storesOpenResult])
      (by simp [storesOpenResult]) hw)
  | closeRelease r hr ha =>
    exact .inl (willResolve_closing [stopWriter, joinWriter, stopReader,
      joinReader, openAdmission] ha rfl rfl hr (by simp [storesOpenResult])
      (by simp [storesOpenResult]) hw)
  | closeStopWriter r hr ha =>
    exact .inl (willResolve_closing [joinWriter, stopReader, joinReader, openAdmission]
      ha rfl rfl hr (by simp [storesOpenResult]) (by simp [storesOpenResult]) hw)
  | closeJoinWriter r hr ha hj =>
    exact .inl (willResolve_closing [stopReader, joinReader, openAdmission]
      ha rfl rfl hr (by simp [storesOpenResult]) (by simp [storesOpenResult]) hw)
  | closeStopReader r hr ha =>
    exact .inl (willResolve_closing [joinReader, openAdmission]
      ha rfl rfl hr (by simp [storesOpenResult]) (by simp [storesOpenResult]) hw)
  | closeJoinReader r hr ha hj =>
    exact .inl (willResolve_closing [openAdmission]
      ha rfl rfl hr (by simp [storesOpenResult]) (by simp [storesOpenResult]) hw)
  | closeAdmit r hr ha =>
    exact .inl (willResolve_closing [] ha rfl rfl hr (by simp [storesOpenResult])
      (by simp) hw)
  | sendStale d ha hs =>
    rcases ha with ha | ha | ha <;> simp [World.WillResolve, ha, storesOpenResult] at hw
  | _ => simp [World.WillResolve, *, storesOpenResult] at hw

theorem OwnerStep.busy_frame {w w' : World} (h : OwnerStep w w') :
    w'.abi = w.abi ∧ (∀ e ∈ w.events, e ∈ w'.events) ∧
      (w'.core.lastOpenResult = .status .errBusy →
        w.core.lastOpenResult = .status .errBusy) := by
  cases h with
  | storeResult r ha hs hr => exact ⟨rfl, fun e he => he, fun hb => absurd hb hr⟩
  | submitClose ha hs => exact ⟨rfl, fun e he => List.mem_append_left _ he, id⟩
  | _ => exact ⟨rfl, fun e he => he, id⟩

theorem OwnerStep.busy {w w' : World} (h : OwnerStep w w') (hinv : BusyInv w) : BusyInv w' := by
  intro hbusy
  obtain ⟨habi, hev, hres⟩ := h.busy_frame
  rcases hinv (hres hbusy) with hp | ⟨e, he, hr⟩ | hw
  · exact .inl (habi ▸ hp)
  · exact .inr (.inl ⟨e, hev e he, hr⟩)
  · exact .inr (.inr ((h.willResolve hw).resolve_right (not_not_intro hbusy)))

theorem mem_eraseIdx_of_ne {α : Type*} {l : List α} {i : Nat} {x y : α} (hx : x ∈ l)
    (hy : l[i]? = some y) (hne : x ≠ y) : x ∈ l.eraseIdx i := by
  induction l generalizing i with
  | nil => cases hx
  | cons a l ih =>
    cases i with
    | zero =>
      simp only [List.getElem?_cons_zero, Option.some.injEq] at hy
      subst hy
      simpa [hne] using hx
    | succ i =>
      rcases List.mem_cons.mp hx with rfl | hx
      · simp
      · exact List.mem_cons_of_mem _ (ih hx hy)

theorem dispatched_busy {w : World} {i : Nat} {event : Event} (ha : w.agenda = [])
    (hev : w.events[i]? = some event) (hc : OpenFindsEdge w (.disp (.dispatch i)))
    (hinv : BusyInv w) : BusyInv (w.dispatched i event) := by
  intro hbusy
  rcases hinv hbusy with hp | ⟨e, he, hr⟩ | hw
  · exact .inl hp
  · by_cases heq : e = event
    · subst heq
      obtain ⟨req, rfl⟩ : ∃ req, e = .sigOpen req := by
        cases e <;> simp [Event.request] at hr ⊢
      have hedge := hc (by simp [hev, Event.request])
      exact .inr (.inr (.inr ⟨by simp [World.dispatched, actionOf, serialDoOpen],
        fun _ => hedge, by simp [World.AtOp, World.dispatched, actionOf, serialDoOpen]⟩))
    · exact .inr (.inl ⟨e, mem_eraseIdx_of_ne he hev heq, hr⟩)
  · simp [World.WillResolve, ha] at hw

/-- A thread stages the fault. -/
theorem BusyInv.stage {w : World} (hinv : BusyInv w) : BusyInv (w.stage .sigFault) :=
  fun hbusy => (hinv hbusy).imp_right (.imp_left fun ⟨e, he, hr⟩ =>
    ⟨e, List.mem_append_left _ he, hr⟩)

/-- A thread leaves the fault pending. -/
theorem BusyInv.faultPending {w : World} (hinv : BusyInv w) :
    BusyInv { w with core.faultPending := true } :=
  fun hbusy => (hinv hbusy).imp_right (.imp_right (.imp_right fun ⟨hm, _, hat⟩ =>
    ⟨hm, fun _ => .inr rfl, hat⟩))

theorem ReaderStep.busy {w w' : World} (h : ReaderStep w w') (hinv : BusyInv w) :
    BusyInv w' := by
  cases h with
  | submit hpc => exact hinv.stage
  | storePending hpc => exact hinv.faultPending
  | _ => exact hinv

theorem WriterStep.busy {w w' : World} (h : WriterStep w w') (hinv : BusyInv w) :
    BusyInv w' := by
  cases h with
  | submit hpc => exact hinv.stage
  | storePending hpc => exact hinv.faultPending
  | _ => exact hinv

theorem busyInv_reach {w : World} (h : Transition.ReachUnder sessionMachine OpenFindsEdge w) :
    BusyInv w := by
  refine h.invariantUsing (q := fun w => Agenda w.serialState w.agenda)
    (fun _ h => agenda_reach h.reach) (fun hbusy => by cases hbusy) ?_
  intro w l w' hag hinv hc hstep
  cases l with
  | abi l => exact (abiStep_cases hstep).busy hinv
  | disp l =>
    rcases dispStep_cases hag hstep with h | ⟨i, event, rfl, ha, hev, rfl⟩
    · exact h.busy hinv
    · exact dispatched_busy ha hev hc hinv
  | reader l => exact (readerStep_cases hstep).busy hinv
  | writer l => exact (writerStep_cases hstep).busy hinv

/-- Where every Open finds an edge, an answer is there once all events are dispatched. -/
theorem no_busy_wedge {w : World} (h : Transition.ReachUnder sessionMachine OpenFindsEdge w)
    (hq : w.Quiescent) : w.Answered := by
  obtain ⟨hev, ha, hparked⟩ := hq
  constructor
  · intro hbusy
    rcases busyInv_reach h hbusy with hp | ⟨e, he, -⟩ | hw
    · exact hparked hp
    · simp [hev] at he
    · simp [World.WillResolve, ha] at hw
  · intro hopening
    have hidle := (agenda_reach h.reach).idle_ne ha
    rcases viewInv_reach h.reach with heq | hfault
    · exact hidle (heq ▸ hopening)
    · simp [hfault] at hopening

/-- An open that fails leaves its answer. -/
theorem no_busy_wedge_failed :
    ∃ w : World, w.core.lastOpenResult = .status .errIo ∧ w.Answered := by
  obtain ⟨w, hw, hq, hres⟩ := Transition.exists_of_execUnder (m := sessionMachine)
    (c := OpenFindsEdge)
    (p := fun w => w.Quiescent ∧ w.core.lastOpenResult = .status .errIo)
    ((queueOpenRun someConfig).map Label.abi ++
      [Label.disp (.dispatch 0), .disp .run, .disp .run, .disp .run, .disp .run,
        .disp (.opened (some 0)), .disp .run, .disp .run, .disp .run, .disp .run])
    (by decide +kernel)
  exact ⟨w, hres, no_busy_wedge hw hq⟩

/-- The read thread of an open session reports a fault and its event is refused.
An Open queued and dispatched between its two stores finds no edge out of OPEN, and
nothing is left that would take BUSY off. -/
theorem busy_wedge :
    ∃ w : World, Transition.Reach sessionMachine w ∧ ¬ (w.Quiescent → w.Answered) :=
  Transition.exists_of_execUnder
    (openRun someConfig ++
      [Label.reader .fault, .reader .loadAdmission, .reader (.submit false), .reader .storeState] ++
      (queueOpenRun someConfig).map Label.abi ++
      [Label.disp (.dispatch 0), .disp .run, .disp .run, .disp .run, .disp .run,
        .reader .storePending])
    (by decide +kernel)

end Xcom
