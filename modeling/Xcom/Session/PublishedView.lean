import Xcom.Session.Lifecycle

/-!
# The published view of the lifecycle

Every state the owner publishes follows the transition table, OPEN and OPENING are
published only when the request and the session before it allow it, and between two
events the published state is the owner's own, as long as no cleared latch hides a
fault report.
-/

namespace Xcom

open DispOp

/-! ## The published state and the owner's own -/

namespace World

/-- The running action publishes before it ends. -/
def WillPublish (w : World) : Prop :=
  w.AtOp (transition .kFault) ∧ (w.serialState = .portOpen ∨ w.serialState = .portClosing) ∨
    w.serialState = .portClosed ∧
      (w.agenda = [transition .kFault, transition .kOpen, resolveOpen] ∨
        w.agenda = [transition .kOpen, resolveOpen])

/-- The published state is the owner's, or a report that is still under way, or will be
published over, has stored FAULT. -/
def Synced (w : World) : Prop :=
  w.core.portState = w.serialState ∨
    w.core.portState = .portFault ∧ (w.Reporting ∨ w.WillPublish)

/-- Two facts of the actions: a close ends in CLOSED, and the device is opened with no
read thread. -/
structure ActionFacts (w : World) : Prop where
  closed : w.agenda = [clearFaultPending] → w.serialState = .portClosed
  joined : w.agenda = [openDevice, resolveOpen] → w.reader = .absent

end World

theorem AfterClose.apart {s : PortState} {r : List DispOp} (h : AfterClose s r) :
    r ≠ [clearFaultPending] ∧ r ≠ [openDevice, resolveOpen] := by
  cases h <;> simp

/-- Where the published state is not the owner's, it is FAULT, over another state. -/
theorem ViewInv.overwritten {w : World} (h : ViewInv w) (hne : w.serialState ≠ .portOpening) :
    w.core.portState = w.serialState ∨ w.core.portState = .portFault ∧
      (w.serialState = .portClosed ∨ w.serialState = .portOpen ∨
        w.serialState = .portClosing) := by
  rcases h with heq | hf
  · exact .inl heq
  · cases hst : w.serialState with
    | portFault => exact .inl hf
    | portOpening => exact absurd hst hne
    | portClosed => exact .inr ⟨hf, .inl rfl⟩
    | portOpen => exact .inr ⟨hf, .inr (.inl rfl)⟩
    | portClosing => exact .inr ⟨hf, .inr (.inr rfl)⟩

variable {w w' : World}

theorem OwnerStep.actionFacts (h : OwnerStep w w') : w'.ActionFacts := by
  cases h with
  | closeAdmit r hr ha =>
    constructor
    · intro hclear
      exact absurd hclear hr.apart.1
    · intro hdevice
      exact absurd hdevice hr.apart.2
  | faultNoEdge r ha hr hs => rcases hr with rfl | rfl <;> constructor <;> simp
  | _ => constructor <;> simp_all [sinkOwnerClose, backendClose]

theorem dispatched_actionFacts (i : Nat) (event : Event) :
    (w.dispatched i event).ActionFacts := by
  cases event with
  | sigFault =>
    constructor
    all_goals
      simp only [World.dispatched, actionOf, serialDoFault]
      split <;> simp
  | _ => constructor <;> simp [World.dispatched, actionOf, serialDoOpen, serialDoClose]

theorem actionFacts_reach (h : Transition.Reach sessionMachine w) : w.ActionFacts := by
  refine h.invariantUsing (q := fun w => Agenda w.serialState w.agenda)
    (fun _ h => agenda_reach h) (by constructor <;> simp [sessionMachine]) ?_
  intro w l w' hag hinv _ hstep
  cases l with
  | abi l =>
    have hs := abiStep_cases hstep
    have hr : w'.reader = w.reader := by cases hs <;> rfl
    obtain ⟨hst, ha, -⟩ := hs.owner
    constructor
    · rw [ha, hst]
      exact hinv.closed
    · rw [ha, hr]
      exact hinv.joined
  | disp l =>
    rcases dispStep_cases hag hstep with hs | ⟨i, event, -, -, -, rfl⟩
    · exact hs.actionFacts
    · exact dispatched_actionFacts i event
  | reader l =>
    have hs := readerStep_cases hstep
    obtain ⟨hst, ha, -⟩ := hs.owner
    constructor
    · rw [ha, hst]
      exact hinv.closed
    · intro hd
      -- an absent read thread makes no step
      have habs := hinv.joined (ha ▸ hd)
      cases hs <;> simp_all
  | writer l =>
    have hs := writerStep_cases hstep
    have hr : w'.reader = w.reader := by cases hs <;> rfl
    obtain ⟨hst, ha, -⟩ := hs.owner
    constructor
    · rw [ha, hst]
      exact hinv.closed
    · rw [ha, hr]
      exact hinv.joined

/-- A step that leaves the view, the owner's state and the reports alone, outside the
actions that still publish over a report. -/
theorem World.Synced.keep (h : w.Synced) (hno : ¬ w.WillPublish)
    (hp : w'.core.portState = w.core.portState) (hs : w'.serialState = w.serialState)
    (hr : w.Reporting → w'.Reporting) : w'.Synced := by
  rcases h with heq | ⟨hf, hrep | hwill⟩
  · left
    rw [hp, hs, heq]
  · right
    rw [hp]
    exact ⟨hf, .inl (hr hrep)⟩
  · exact absurd hwill hno

/-- A report is not under way in a thread that has left its loop. -/
theorem World.Reporting.reader_left (h : w.Reporting)
    (hr : w.reader = .absent ∨ w.reader = .exited) :
    w.core.faultPending = true ∨ w.writer = .faultStorePending := by
  rcases h with hp | hrd | hwr
  · exact .inl hp
  · rcases hr with hr | hr <;> simp [hr] at hrd
  · exact .inr hwr

theorem World.Reporting.writer_left (h : w.Reporting)
    (hw : w.writer = .inactive ∨ w.writer = .exited) :
    w.core.faultPending = true ∨ w.reader = .faultStorePending := by
  rcases h with hp | hrd | hwr
  · exact .inl hp
  · exact .inr hrd
  · rcases hw with hw | hw <;> simp [hw] at hwr

theorem OwnerStep.synced (h : OwnerStep w w') (hf : w.ActionFacts)
    (hc : w.AtOp clearFaultPending → w.serialState = .portClosed →
      w.core.portState = .portClosed)
    (hv : ViewInv w) (hsync : w.Synced) : w'.Synced := by
  cases h with
  | reconcilePending ha hs hp =>
    rcases hv.overwritten hs with heq | ⟨hfault, hst | hst | hst⟩
    · exact .inl heq
    · exact .inr ⟨hfault, .inr (.inr ⟨hst, .inl rfl⟩)⟩
    · exact .inr ⟨hfault, .inr (.inl ⟨rfl, .inl hst⟩)⟩
    · exact .inr ⟨hfault, .inr (.inl ⟨rfl, .inr hst⟩)⟩
  | faultClear ha hs =>
    have hclear := hc (by simp [World.AtOp, ha])
    rcases hv.overwritten hs with heq | ⟨hfault, hst | hst | hst⟩
    · exact .inl heq
    · exact .inl ((hclear hst).trans hst.symm)
    · exact .inr ⟨hfault, .inr (.inl ⟨rfl, .inl hst⟩)⟩
    · exact .inr ⟨hfault, .inr (.inl ⟨rfl, .inr hst⟩)⟩
  | clearPending ha hs =>
    have hst := hf.closed ha
    exact .inl ((hc (by simp [World.AtOp, ha]) hst).trans hst.symm)
  | faultNoEdge r ha hr hs =>
    rcases hsync with heq | ⟨hfault, hrep | hwill⟩
    · exact .inl heq
    · exact .inr ⟨hfault, .inl hrep⟩
    · rcases hr with rfl | rfl
      · simp [World.WillPublish, World.AtOp, ha] at hwill
        rcases hs with hs | hs <;> simp [hs] at hwill
      · rcases hs with hs | hs
        · exact .inr ⟨hfault, .inr (.inr ⟨hs, .inr rfl⟩)⟩
        · exact .inl (hfault.trans hs.symm)
  | openDevice ha hs =>
    have hjoin := hf.joined ha
    refine hsync.keep (by simp [World.WillPublish, World.AtOp, ha]) rfl rfl ?_
    simp [World.Reporting, hjoin]
  | openEdge | cancel | publishOpen | publishOpenFail | publishFault | closeEdge
  | publishClosed | faultOpen | faultClosing => exact .inl rfl
  | sendStale d ha hs =>
    refine hsync.keep ?_ rfl rfl id
    rcases ha with ha | ha | ha <;> simp [World.WillPublish, World.AtOp, ha]
  | openNoEdge ha hs =>
    refine hsync.keep ?_ rfl rfl id
    rcases hs with hs | hs <;> simp [World.WillPublish, World.AtOp, ha, hs]
  | openJoinReader ha hs hr | startFailJoin ha hs hr =>
    refine hsync.keep (by simp [World.WillPublish, World.AtOp, ha]) rfl rfl ?_
    intro hrep
    exact (hrep.reader_left hr).imp id .inr
  | closeJoinReader r h ha hr =>
    refine hsync.keep (by simp [World.WillPublish, World.AtOp, ha]) rfl rfl ?_
    intro hrep
    exact (hrep.reader_left hr).imp id .inr
  | closeJoinWriter r h ha hw =>
    refine hsync.keep (by simp [World.WillPublish, World.AtOp, ha]) rfl rfl ?_
    intro hrep
    exact (hrep.writer_left hw).imp id .inl
  | _ =>
    apply hsync.keep
    · simp_all [World.WillPublish, World.AtOp]
    · rfl
    · rfl
    · intro hrep
      simp_all [World.Reporting]

/-- A report goes on where it was, or ends in a raised latch. -/
theorem ReaderStep.reporting (h : ReaderStep w w') (hrep : w.Reporting) : w'.Reporting := by
  rcases hrep with hp | hrd | hwr
  · left
    cases h <;> first | exact hp | rfl
  · left
    cases h <;> simp_all
  · right; right
    cases h <;> exact hwr

theorem WriterStep.reporting (h : WriterStep w w') (hrep : w.Reporting) : w'.Reporting := by
  rcases hrep with hp | hrd | hwr
  · left
    cases h <;> first | exact hp | rfl
  · right; left
    cases h <;> exact hrd
  · left
    cases h <;> simp_all

theorem World.WillPublish.owner (h : w.WillPublish)
    (ho : w'.serialState = w.serialState ∧ w'.agenda = w.agenda ∧ w'.current = w.current) :
    w'.WillPublish := by
  simpa only [World.WillPublish, World.AtOp, ho.1, ho.2.1] using h

theorem ReaderStep.synced (h : ReaderStep w w') (hsync : w.Synced) : w'.Synced := by
  have hrep := h.reporting
  have ho := h.owner
  cases h with
  | storeState hpc => exact .inr ⟨rfl, .inl (.inr (.inl rfl))⟩
  | _ => exact hsync.imp id fun ⟨hf, hr⟩ => ⟨hf, hr.imp hrep (·.owner ho)⟩

theorem WriterStep.synced (h : WriterStep w w') (hsync : w.Synced) : w'.Synced := by
  have hrep := h.reporting
  have ho := h.owner
  cases h with
  | storeState hpc => exact .inr ⟨rfl, .inl (.inr (.inr rfl))⟩
  | _ => exact hsync.imp id fun ⟨hf, hr⟩ => ⟨hf, hr.imp hrep (·.owner ho)⟩

theorem AbiStep.synced (h : AbiStep w w') (hsync : w.Synced) : w'.Synced := by
  cases h <;> exact hsync

theorem synced_reach (h : Transition.ReachUnder sessionMachine ClearsSeenFault w) :
    w.Synced := by
  refine h.invariantUsing
    (q := fun w => Agenda w.serialState w.agenda ∧ ViewInv w ∧ w.ActionFacts)
    (fun _ h => ⟨agenda_reach h.reach, viewInv_reach h.reach, actionFacts_reach h.reach⟩)
    (.inl rfl) ?_
  intro w l w' ⟨hag, hv, hf⟩ hsync hc hstep
  cases l with
  | abi l => exact (abiStep_cases hstep).synced hsync
  | disp l =>
    rcases dispStep_cases hag hstep with hs | ⟨i, event, -, ha, -, rfl⟩
    · exact hs.synced hf hc hv hsync
    · refine hsync.imp id fun ⟨hfault, hrep⟩ => ⟨hfault, hrep.imp id fun hwill => ?_⟩
      simp [World.WillPublish, World.AtOp, ha] at hwill
  | reader l => exact (readerStep_cases hstep).synced hsync
  | writer l => exact (writerStep_cases hstep).synced hsync

/-! ## What may be published -/

/-- The history bears out that `state` is published from `fromState`. -/
def OwnerHistory.Announces (h : OwnerHistory) (fromState state : PortState) : Prop :=
  (∃ edge ∈ h.edge, edge ∈ kSerialEdges ∧ edge.fromState = fromState ∧ edge.toState = state) ∨
    h.refused = true ∧ fromState = .portClosing ∧ state = .portFault

/-- `sink_owner_close` has run since the last OPEN, or the session is open, or the
running action is about to run it or inside it. -/
def Lifecycle.Released (s : Lifecycle) : Prop :=
  s.world.serialState = .portOpen ∨ s.history.ownerClose = .done ∨
    closeAdmission ∈ s.world.agenda ∨
    s.history.ownerClose = .running ∧ openAdmission ∈ s.world.agenda ∧
      s.world.serialState ≠ .portOpening

/-- What the history says of the running action. -/
structure HistoryInv (s : Lifecycle) : Prop where
  announced : ∀ state, publish state ∈ s.world.agenda →
    s.history.Announces s.world.serialState state
  succeeded : s.world.serialState = .portOpening →
    s.world.agenda = [resolveOpen] ∨ s.world.agenda = [exchangeCancelOpen] ∨
      s.world.agenda = [transition .kOpenDone] →
    s.world.core.lastOpenResult = .status .ok → s.history.succeeded = true
  pending : s.world.serialState = .portOpening →
    s.world.agenda = [resolveOpen] ∨ s.world.agenda = [exchangeCancelOpen] →
    s.world.core.lastOpenResult = .status .ok →
    s.history.uncancelled = true ∨ s.world.core.cancelOpen = true
  uncancelled : s.world.serialState = .portOpening →
    s.world.agenda = [transition .kOpenDone] →
    s.world.core.lastOpenResult = .status .ok → s.history.uncancelled = true
  opened : publish .portOpen ∈ s.world.agenda →
    s.history.succeeded = true ∧ s.history.uncancelled = true
  released : s.Released
  legal : ∀ p ∈ s.history.published, p.Legal

theorem serialFindEdge_spec {state : PortState} {r : OpenResult} {event : SerialEvent}
    {edge : SerialEdge} (h : serialFindEdge state r event = some edge) :
    edge ∈ kSerialEdges ∧ edge.fromState = state := by
  constructor
  · exact List.mem_of_find?_eq_some h
  · have hfound := List.find?_some h
    simp only [decide_eq_true_eq] at hfound
    exact hfound.1

namespace OwnerHistory

variable (h : OwnerHistory)

@[simp] theorem record_edge (fromState : PortState) (p : Option PortState) :
    (h.record fromState p).edge = h.edge := by cases p <;> rfl

@[simp] theorem record_refused (fromState : PortState) (p : Option PortState) :
    (h.record fromState p).refused = h.refused := by cases p <;> rfl

@[simp] theorem record_succeeded (fromState : PortState) (p : Option PortState) :
    (h.record fromState p).succeeded = h.succeeded := by cases p <;> rfl

@[simp] theorem record_uncancelled (fromState : PortState) (p : Option PortState) :
    (h.record fromState p).uncancelled = h.uncancelled := by cases p <;> rfl

theorem record_ownerClose (fromState : PortState) (p : Option PortState) :
    (h.record fromState p).ownerClose =
      if p = some .portOpen then .owed else h.ownerClose := by
  cases p with
  | none => rfl
  | some state => cases state <;> rfl

@[simp] theorem note_published (w w' : World) : (h.note w w').published = h.published := by
  unfold note
  split <;> rfl

/-- Behind a transition the history announces the target of the edge it took. -/
theorem note_announces (h : OwnerHistory) {w : World} (w' : World) (event : SerialEvent)
    {state : PortState} (ha : w.AtOp (transition event))
    (hf : (serialFindEdge w.serialState w.core.lastOpenResult event).map
      SerialEdge.toState = some state) : (h.note w w').Announces w.serialState state := by
  obtain ⟨edge, hfind, hto⟩ := Option.map_eq_some_iff.mp hf
  obtain ⟨hmem, hfrom⟩ := serialFindEdge_spec hfind
  left
  refine ⟨edge, ?_, hmem, hfrom, hto⟩
  simp only [World.AtOp] at ha
  simp [note, ha, hfind]

end OwnerHistory

variable {s : Lifecycle}

theorem OwnerStep.announced (h : OwnerStep s.world w') (hinv : HistoryInv s)
    (state : PortState) (hmem : publish state ∈ w'.agenda) :
    (s.history.note s.world w').Announces w'.serialState state := by
  have hold := hinv.announced state
  cases h with
  | openDone ha hs hr =>
    apply s.history.note_announces _ .kOpenDone
    · simp [World.AtOp, ha]
    · have hto : state = .portOpen := by simpa using hmem
      rw [hto, hs, hr]
      rfl
  | openFail ha hs hr =>
    apply s.history.note_announces _ .kOpenDone
    · simp [World.AtOp, ha]
    · have hto : state = .portClosed := by simpa using hmem
      simp [hto, hs, serialFindEdge, kSerialEdges, serialOpenSucceeded, hr]
  | closeDone ha hs =>
    apply s.history.note_announces _ .kCloseDone
    · simp [World.AtOp, ha]
    · have hto : state = .portClosed := by simpa using hmem
      rw [hto, hs]
      rfl
  | submitCloseRefused ha hs =>
    right
    have hto : state = .portFault := by simpa [sinkOwnerClose, backendClose] using hmem
    exact ⟨by simp [OwnerHistory.note, ha], hs, hto⟩
  | faultNoEdge r ha hr hs => rcases hr with rfl | rfl <;> simp at hmem
  | faultOpen r ha hr hs | faultClosing r ha hr hs =>
    rcases hr with rfl | rfl <;> simp [sinkOwnerClose, backendClose] at hmem
  | _ => simp_all [OwnerHistory.note, OwnerHistory.Announces, sinkOwnerClose, backendClose]

theorem AfterClose.state {st : PortState} {r : List DispOp} (h : AfterClose st r) :
    st ≠ .portOpening ∧ st ≠ .portOpen := by
  cases h <;> simp

theorem AfterClose.not_opened {st : PortState} {r : List DispOp} (h : AfterClose st r) :
    publish .portOpen ∉ r := by
  cases h <;> simp

theorem AfterClose.not_closing {st : PortState} {r : List DispOp} (h : AfterClose st r) :
    closeAdmission ∉ r := by
  cases h <;> simp

theorem OwnerStep.succeeds (h : OwnerStep s.world w') (hinv : HistoryInv s)
    (hst : w'.serialState = .portOpening)
    (ha : w'.agenda = [resolveOpen] ∨ w'.agenda = [exchangeCancelOpen] ∨
      w'.agenda = [transition .kOpenDone])
    (hr : w'.core.lastOpenResult = .status .ok) :
    (s.history.note s.world w').succeeded = true := by
  have hold := hinv.succeeded
  cases h with
  | closeAdmit r hr' => exact absurd hst hr'.state.1
  | _ => simp_all [OwnerHistory.note]

theorem OwnerStep.cancelPending (h : OwnerStep s.world w') (hinv : HistoryInv s)
    (hst : w'.serialState = .portOpening)
    (ha : w'.agenda = [resolveOpen] ∨ w'.agenda = [exchangeCancelOpen])
    (hr : w'.core.lastOpenResult = .status .ok) :
    (s.history.note s.world w').uncancelled = true ∨ w'.core.cancelOpen = true := by
  have hold := hinv.pending
  cases h with
  | closeAdmit r hr' => exact absurd hst hr'.state.1
  | _ => simp_all [OwnerHistory.note]

theorem OwnerStep.uncancelled (h : OwnerStep s.world w') (hinv : HistoryInv s)
    (hst : w'.serialState = .portOpening) (ha : w'.agenda = [transition .kOpenDone])
    (hr : w'.core.lastOpenResult = .status .ok) :
    (s.history.note s.world w').uncancelled = true := by
  have hold := hinv.pending
  cases h with
  | closeAdmit r hr' => exact absurd hst hr'.state.1
  | _ => simp_all [OwnerHistory.note]

theorem OwnerStep.opened (h : OwnerStep s.world w') (hinv : HistoryInv s)
    (hmem : publish .portOpen ∈ w'.agenda) :
    (s.history.note s.world w').succeeded = true ∧
      (s.history.note s.world w').uncancelled = true := by
  have hold := hinv.opened
  have hsuc := hinv.succeeded
  have hunc := hinv.uncancelled
  cases h with
  | closeAdmit r hr => exact absurd hmem hr.not_opened
  | faultNoEdge r ha hr hs => rcases hr with rfl | rfl <;> simp at hmem
  | faultOpen r ha hr hs | faultClosing r ha hr hs =>
    rcases hr with rfl | rfl <;> simp [sinkOwnerClose, backendClose] at hmem
  | _ => simp_all [OwnerHistory.note, sinkOwnerClose, backendClose]

theorem OwnerStep.publishedOpen (h : OwnerStep w w')
    (hp : justPublished w w' = some .portOpen) :
    w'.serialState = .portOpen ∧ w.AtOp (publish .portOpen) := by
  cases h with
  | publishOpen ha => exact ⟨rfl, by simp [World.AtOp, ha]⟩
  | openEdge | cancel | publishOpenFail | publishFault | closeEdge | publishClosed | faultOpen
  | faultClosing =>
    rw [justPublished_serialPublish] at hp
    simp at hp
  | storeResult => simp [justPublished] at hp
  | _ =>
    rw [justPublished_silent (by rfl)] at hp
    cases hp

theorem OwnerStep.publishedOpening (h : OwnerStep w w')
    (hp : justPublished w w' = some .portOpening) :
    w.agenda = [transition .kOpen, resolveOpen] ∧
      (w.serialState = .portClosed ∨ w.serialState = .portFault) := by
  cases h with
  | openEdge ha hs => exact ⟨ha, hs⟩
  | publishOpen | cancel | publishOpenFail | publishFault | closeEdge | publishClosed
  | faultOpen | faultClosing =>
    rw [justPublished_serialPublish] at hp
    simp at hp
  | storeResult => simp [justPublished] at hp
  | _ =>
    rw [justPublished_silent (by rfl)] at hp
    cases hp

/-- Every way out of OPEN runs `sink_owner_close`, and nothing but it comes before the
next OPENING. -/
theorem OwnerStep.released (h : OwnerStep s.world w') (hrel : s.Released) :
    w'.serialState = .portOpen ∨ (s.history.note s.world w').ownerClose = .done ∨
      DispOp.closeAdmission ∈ w'.agenda ∨
      (s.history.note s.world w').ownerClose = .running ∧ openAdmission ∈ w'.agenda ∧
        w'.serialState ≠ .portOpening := by
  unfold Lifecycle.Released at hrel
  cases h with
  | openEdge ha hs =>
    rcases hs with hs | hs <;> simp_all [OwnerHistory.note]
  | faultNoEdge r ha hr hs =>
    rcases hr with rfl | rfl <;> simp_all [OwnerHistory.note]
  | faultOpen | faultClosing | closeEdge | submitCloseRefused =>
    right; right; left
    simp [sinkOwnerClose]
  | closeAdmission r h ha =>
    right; right; right
    exact ⟨by simp [OwnerHistory.note, ha], by simp, h.state.1⟩
  | closeAdmit r h ha =>
    right; left
    have hopen := h.state.2
    have hclosing := h.not_closing
    simp_all [OwnerHistory.note]
    rcases hrel with hd | hd <;> simp [hd]
  | sendStale d ha hs =>
    rcases ha with ha | ha | ha <;> simp_all [OwnerHistory.note]
  | _ => simp_all [OwnerHistory.note]

theorem OwnerHistory.note_publish (h : OwnerHistory) {w : World} (w' : World)
    {state : PortState} (ha : w.AtOp (publish state)) : h.note w w' = h := by
  simp only [World.AtOp] at ha
  simp [note, ha]

theorem OwnerStep.announces (h : OwnerStep s.world w') (hinv : HistoryInv s)
    {state : PortState} (hp : justPublished s.world w' = some state) :
    (s.history.note s.world w').Announces s.world.serialState state := by
  have hpub := h.publishes
  rw [hp] at hpub
  cases hpub with
  | named _ ha =>
    rw [s.history.note_publish w' ha]
    exact hinv.announced state (List.mem_of_mem_head? ha)
  | edge event _ ha hf => exact s.history.note_announces w' event ha hf

/-- The publication a step makes is legal. -/
theorem OwnerStep.legal (h : OwnerStep s.world w') (hinv : HistoryInv s) {state : PortState}
    (hp : justPublished s.world w' = some state) (p : Publication)
    (hmem : p ∈ ((s.history.note s.world w').record s.world.serialState
      (some state)).published) : p.Legal := by
  simp only [OwnerHistory.record, OwnerHistory.note_published, List.mem_cons] at hmem
  rcases hmem with rfl | hold
  · constructor
    · exact h.announces hinv hp
    · intro hopen
      have ha := (h.publishedOpen (hp.trans (congrArg some hopen))).2
      rw [s.history.note_publish w' ha]
      exact hinv.opened (List.mem_of_mem_head? ha)
    · intro hopening
      obtain ⟨ha, hs⟩ := h.publishedOpening (hp.trans (congrArg some hopening))
      have hrel := hinv.released
      unfold Lifecycle.Released at hrel
      have hdone : s.history.ownerClose = .done := by
        rcases hs with hs | hs <;> simpa [ha, hs] using hrel
      simpa [OwnerHistory.note, ha] using hdone
  · exact hinv.legal p hold

theorem HistoryInv.owner (hinv : HistoryInv s) (h : OwnerStep s.world w') (l : DispLabel) :
    HistoryInv ⟨w', s.historyAfter w' (.disp l)⟩ where
  announced := fun state hmem => by
    simpa [Lifecycle.historyAfter, OwnerHistory.Announces] using h.announced hinv state hmem
  succeeded := fun hst ha hr => by
    simpa [Lifecycle.historyAfter] using h.succeeds hinv hst ha hr
  pending := fun hst ha hr => by
    simpa [Lifecycle.historyAfter] using h.cancelPending hinv hst ha hr
  uncancelled := fun hst ha hr => by
    simpa [Lifecycle.historyAfter] using h.uncancelled hinv hst ha hr
  opened := fun hmem => by
    simpa [Lifecycle.historyAfter] using h.opened hinv hmem
  released := by
    have hrel := h.released hinv.released
    simp only [Lifecycle.Released, Lifecycle.historyAfter, OwnerHistory.record_ownerClose]
    split
    · rename_i hp
      exact .inl (h.publishedOpen hp).1
    · exact hrel
  legal := by
    simp only [Lifecycle.historyAfter]
    cases hp : justPublished s.world w' with
    | none =>
      intro p hmem
      rw [OwnerHistory.record, OwnerHistory.note_published] at hmem
      exact hinv.legal p hmem
    | some state => exact h.legal hinv hp

/-- A step outside the Dispatcher makes no history; the result and the cancel flag it
stores do not take back what the owner has seen. -/
theorem HistoryInv.outside (hinv : HistoryInv s)
    (ho : w'.serialState = s.world.serialState ∧ w'.agenda = s.world.agenda ∧
      w'.current = s.world.current)
    (hr : w'.core.lastOpenResult = .status .ok →
      s.world.core.lastOpenResult = .status .ok ∧
        (s.world.core.cancelOpen = true → w'.core.cancelOpen = true)) :
    HistoryInv ⟨w', s.history⟩ := by
  obtain ⟨hst, ha, -⟩ := ho
  constructor
  · simpa only [hst, ha] using hinv.announced
  · intro hs hag hok
    exact hinv.succeeded (hst ▸ hs) (ha ▸ hag) (hr hok).1
  · intro hs hag hok
    exact (hinv.pending (hst ▸ hs) (ha ▸ hag) (hr hok).1).imp id (hr hok).2
  · intro hs hag hok
    exact hinv.uncancelled (hst ▸ hs) (ha ▸ hag) (hr hok).1
  · simpa only [ha] using hinv.opened
  · simpa only [Lifecycle.Released, hst, ha] using hinv.released
  · exact hinv.legal

theorem HistoryInv.dispatched (hinv : HistoryInv s) (ha : s.world.agenda = [])
    (hne : s.world.serialState ≠ .portOpening) (i : Nat) (event : Event) (l : DispLabel) :
    HistoryInv ⟨s.world.dispatched i event,
      s.historyAfter (s.world.dispatched i event) (.disp l)⟩ := by
  have hpub : ∀ state, publish state ∉ actionOf s.world.serialState event := by
    intro state
    cases event with
    | sigFault =>
      simp only [actionOf, serialDoFault]
      split <;> simp
    | _ => simp [actionOf, serialDoOpen, serialDoClose]
  have hsilent : justPublished s.world (s.world.dispatched i event) = none :=
    justPublished_silent rfl
  constructor
  · intro state hmem
    exact absurd hmem (hpub state)
  · intro hs
    exact absurd hs hne
  · intro hs
    exact absurd hs hne
  · intro hs
    exact absurd hs hne
  · intro hmem
    exact absurd hmem (hpub _)
  · have hrel := hinv.released
    simp only [Lifecycle.Released, Lifecycle.historyAfter, hsilent, ha] at hrel ⊢
    simp [OwnerHistory.record, OwnerHistory.note, ha, World.dispatched] at hrel ⊢
    exact hrel.imp id .inl
  · intro p hmem
    simp only [Lifecycle.historyAfter, hsilent, OwnerHistory.record,
      OwnerHistory.note_published] at hmem
    exact hinv.legal p hmem

theorem AbiStep.keepsResult (h : AbiStep w w') (hp : PendingInv w)
    (hr : w'.core.lastOpenResult = .status .ok) :
    w.core.lastOpenResult = .status .ok ∧
      (w.core.cancelOpen = true → w'.core.cancelOpen = true) := by
  cases h with
  | storeBusy | storeRejected => simp at hr
  | storeCancel sync hpc =>
    -- the flag is reset behind the stored BUSY
    have hbusy := hp.parked (by rw [hpc]; trivial)
    rw [hbusy] at hr
    cases hr
  | openTimesOut | closeStoreCancel => exact ⟨hr, fun _ => rfl⟩
  | _ => exact ⟨hr, id⟩

theorem historyInv_reach (h : Transition.Reach lifecycleMachine s) : HistoryInv s := by
  refine h.invariantUsing
    (q := fun s => Agenda s.world.serialState s.world.agenda ∧ PendingInv s.world)
    (fun _ h => ⟨agenda_reach (Lifecycle.session_reach h),
      pendingInv_reach (Lifecycle.session_reach h)⟩) ?_ ?_
  · constructor <;> simp [lifecycleMachine, Lifecycle.Released]
  · intro s l s' ⟨hag, hp⟩ hinv _ hstep
    obtain ⟨hw, hh⟩ := Lifecycle.step_eq_some hstep
    obtain ⟨w', h'⟩ := s'
    simp only at hw hh
    subst hh
    cases l with
    | abi l =>
      have hs := abiStep_cases hw
      exact hinv.outside hs.owner (hs.keepsResult hp)
    | disp l =>
      rcases dispStep_cases hag hw with hs | ⟨i, event, -, ha, -, rfl⟩
      · exact hinv.owner hs l
      · exact hinv.dispatched ha (hag.idle_ne ha) i event l
    | reader l =>
      have hs := readerStep_cases hw
      refine hinv.outside hs.owner fun hr => ?_
      cases hs <;> exact ⟨hr, id⟩
    | writer l =>
      have hs := writerStep_cases hw
      refine hinv.outside hs.owner fun hr => ?_
      cases hs <;> exact ⟨hr, id⟩

/-! ## The published view -/

/-- Between two events the published state is the owner's own, and everything the owner
has published was legal. -/
structure PublishedView (s : Lifecycle) : Prop where
  synced : s.world.BetweenEvents → s.world.core.portState = s.world.serialState
  legal : ∀ p ∈ s.history.published, p.Legal

/-- In every run in which the fault latch is never cleared in CLOSED over a published
FAULT, the published view is sound. -/
theorem published_view
    (h : Transition.ReachUnder lifecycleMachine (fun s => ClearsSeenFault s.world) s) :
    PublishedView s where
  synced := by
    intro ⟨ha, hrep⟩
    have hworld : Transition.ReachUnder sessionMachine ClearsSeenFault s.world :=
      Lifecycle.session.reachUnder (fun s e f hf hc => Option.some.inj hf ▸ hc) h
    rcases synced_reach hworld with heq | ⟨-, hbad | hwill⟩
    · exact heq
    · exact absurd hbad hrep
    · simp [World.WillPublish, World.AtOp, ha] at hwill
  legal := (historyInv_reach h.reach).legal

/-- An open and the close behind it. -/
theorem published_view_closed :
    ∃ s : Lifecycle, s.history.published.length = 4 ∧ PublishedView s := by
  obtain ⟨s, hs, hlen⟩ := Transition.exists_of_execUnder (m := lifecycleMachine)
    (c := fun s => ClearsSeenFault s.world) (p := fun s => s.history.published.length = 4)
    (openRun someConfig ++ queueCloseRun.map .abi ++ closeRun) (by decide +kernel)
  exact ⟨s, hlen, published_view hs⟩

/-- The session writer's failed write is reported, its event refused. -/
def refusedWriteRun : List Label :=
  [.abi (.sendCall [0x41]), .abi .loadState, .abi (.alloc true), .abi .loadGeneration,
    .abi (.submit true), .disp (.dispatch 0), .disp .run, .disp .run, .disp (.enqueued true),
    .writer .wake, .writer .pop, .writer .loadGeneration, .writer .loadState,
    .writer (.write 0 false true), .writer (.submit false), .writer .storeState,
    .writer .storePending]

/-- An Open that reconciles the latch of a refused report and reopens the device, up to
the Close that a cancel of it submits. -/
def cancelledReopenRun : List Label :=
  [.disp (.dispatch 0), .disp .run, .disp .run, .disp .run, .disp .run, .disp .run,
    .writer .release, .disp .run, .disp .run, .disp .run, .disp .run, .disp .run, .disp .run,
    .disp .run, .disp (.opened none), .disp (.started true), .disp .run, .disp .run,
    .abi .closeCall, .abi .loadState, .abi .loadResult, .abi .storeCancel,
    .abi (.submit true), .disp .run, .disp .run, .disp .run, .disp (.submitted true)]

/-- A Fault dispatched in CLOSING, and a refused report behind its CLOSED. -/
def refusedFaultRun : List Label :=
  [.disp (.dispatch 0), .disp .run, .disp .run, .reader .fault, .reader .loadAdmission,
    .reader (.submit false), .reader .storeState, .reader .storePending, .disp .run,
    .disp .run, .disp .run, .writer .wake, .disp .run, .disp .run, .disp .run, .disp .run]

/-- The writer's refused report stores FAULT over an open session, an open is accepted on
it, and the read thread's own report is staged behind that open.  The open is cancelled,
so the report is dispatched in CLOSING: it publishes CLOSED before it joins the threads,
and the new read thread's refused report stores FAULT over it.  The Close of the
cancelled open then finds no edge and clears the latch, and FAULT stays published. -/
def staleFaultRun : List Label :=
  openRun someConfig ++ refusedWriteRun ++ (queueOpenRun someConfig).map Label.abi ++
    [Label.reader .fault, .reader .loadAdmission, .reader (.submit true)] ++
    cancelledReopenRun ++ refusedFaultRun ++
    [Label.disp (.dispatch 0), .disp .run, .disp .run, .disp .run]

theorem published_view_stale :
    ∃ s : Lifecycle, Transition.Reach lifecycleMachine s ∧ ¬ PublishedView s := by
  obtain ⟨s, hs, hb, hne⟩ := Transition.exists_of_execUnder (m := lifecycleMachine)
    (c := fun _ _ => True)
    (p := fun s => s.world.BetweenEvents ∧ s.world.core.portState ≠ s.world.serialState)
    staleFaultRun (by decide +kernel)
  exact ⟨s, hs, fun hview => hne (hview.synced hb)⟩

end Xcom
