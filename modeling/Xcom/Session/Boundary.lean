import Xcom.Session.NoWedge

/-!
# Session boundaries

Three steps of the owner move a session boundary: the two commits and the publication of
OPEN.  Every other step leaves alone what tells one session from the next.
-/

namespace Xcom

open DispOp

namespace World

/-- How often OPEN has been published. -/
def openings (w : World) : Nat := w.snapshots.countP fun s => s.1 = .portOpen

/-- The session is open, or its read thread is still to be joined. -/
def ReaderLive (w : World) : Prop := w.serialState = .portOpen ∨ joinReader ∈ w.agenda

end World

theorem Agenda.not_committed {a : List DispOp} (h : Agenda .portOpen a) : ¬ Committed a := by
  generalize hs : PortState.portOpen = s at h
  cases h <;> first | cases hs; done | simp [Committed]

/-- A step that moves no boundary. -/
structure QuietStep (w w' : World) : Prop where
  generation : w'.core.generation = w.core.generation
  openGeneration : w'.core.openGeneration = w.core.openGeneration
  openings : w'.openings = w.openings
  committed : Committed w'.agenda → Committed w.agenda
  opened : w'.serialState = .portOpen → w.serialState = .portOpen
  live : w.reader = .running → w.ReaderLive → w'.ReaderLive

/-- What a step of the session does to its boundaries. -/
inductive BoundaryStep (w : World) : Label → World → Prop
  | commitOpen (l : DispLabel) (ha : w.agenda = [commitOpen, resetDisplay, publish .portOpen])
      (hs : w.serialState = .portOpening) :
      BoundaryStep w (.disp l) { w with
        core.openGeneration := w.core.openGeneration + 1
        core.generation := w.core.openGeneration + 1
        agenda := [resetDisplay, publish .portOpen] }
  | publishOpen (l : DispLabel) (ha : w.agenda = [publish .portOpen])
      (hs : w.serialState = .portOpening) :
      BoundaryStep w (.disp l) { w.serialPublish .portOpen with agenda := [] }
  | commitClose (l : DispLabel)
      (ha : w.agenda =
        [commitClose, resetDisplay, publish .portClosed, clearFaultPending])
      (hs : w.serialState = .portClosing) :
      BoundaryStep w (.disp l) { w with
        core.generation := w.core.generation + 1
        agenda := [resetDisplay, publish .portClosed, clearFaultPending] }
  | quiet {w' : World} (l : Label) (h : QuietStep w w') : BoundaryStep w l w'

theorem OwnerStep.boundary {w w' : World} (h : OwnerStep w w') (l : DispLabel) :
    BoundaryStep w (.disp l) w' := by
  cases h with
  | commitOpen ha hs => exact .commitOpen l ha hs
  | publishOpen ha hs => exact .publishOpen l ha hs
  | commitClose ha hs => exact .commitClose l ha hs
  | closeAdmit r hr ha =>
    refine .quiet _ ⟨rfl, rfl, rfl, fun hcm => absurd hcm hr.not_committed, id, fun _ hl => ?_⟩
    simpa [World.ReaderLive, ha] using hl
  | faultNoEdge r ha hr hs =>
    refine .quiet _ ⟨rfl, rfl, rfl, ?_, id, fun _ hl => ?_⟩
    · rcases hr with rfl | rfl <;> simp [Committed]
    · simpa [World.ReaderLive, ha] using hl
  | faultOpen r ha hr hs =>
    refine .quiet _ ⟨rfl, rfl, rfl, by simp [Committed, sinkOwnerClose], by simp, fun _ _ => ?_⟩
    simp [World.ReaderLive, sinkOwnerClose, backendClose]
  | faultClosing r ha hr hs =>
    refine .quiet _ ⟨rfl, rfl, rfl, by simp [Committed, sinkOwnerClose], by simp, fun _ _ => ?_⟩
    simp [World.ReaderLive, sinkOwnerClose, backendClose]
  | sendStale d ha hs =>
    refine .quiet _ ⟨rfl, rfl, rfl, by simp [Committed], id, fun _ hl => ?_⟩
    rcases ha with ha | ha | ha <;> simpa [World.ReaderLive, ha] using hl
  | closeEdge ha hs =>
    refine .quiet _ ⟨rfl, rfl, rfl, by simp [Committed, sinkOwnerClose], by simp, fun _ _ => ?_⟩
    simp [World.ReaderLive, sinkOwnerClose, backendClose]
  | submitCloseRefused ha hs =>
    refine .quiet _ ⟨rfl, rfl, rfl, by simp [Committed, sinkOwnerClose], id, fun _ _ => ?_⟩
    simp [World.ReaderLive, sinkOwnerClose, backendClose]
  | _ =>
    refine .quiet _ ⟨rfl, rfl, rfl, ?_, ?_, fun hr hl => ?_⟩
    all_goals simp_all [World.ReaderLive, Committed]

/-- A step outside the Dispatcher moves no boundary. -/
theorem QuietStep.outside {w w' : World}
    (hg : w'.core.generation = w.core.generation ∧
      w'.core.openGeneration = w.core.openGeneration ∧ w'.snapshots = w.snapshots)
    (ho : w'.serialState = w.serialState ∧ w'.agenda = w.agenda ∧ w'.current = w.current) :
    QuietStep w w' where
  generation := hg.1
  openGeneration := hg.2.1
  openings := by rw [World.openings, hg.2.2, World.openings]
  committed := by rw [ho.2.1]; exact id
  opened := by rw [ho.1]; exact id
  live := fun _ hl => by rw [World.ReaderLive, ho.1, ho.2.1]; exact hl

theorem step_boundary {w w' : World} {l : Label} (hag : Agenda w.serialState w.agenda)
    (h : w.step l = some w') : BoundaryStep w l w' := by
  cases l with
  | abi l =>
    have hs := abiStep_cases h
    exact .quiet _ (.outside hs.generation hs.owner)
  | disp l =>
    rcases dispStep_cases hag h with hs | ⟨i, event, -, ha, -, rfl⟩
    · exact hs.boundary l
    · refine .quiet _ ⟨rfl, rfl, rfl, fun hcm => ?_, id, fun _ hl => ?_⟩
      · exact absurd hcm (actionOf_not_committed w.serialState event)
      · have hopen : w.serialState = .portOpen := by simpa [World.ReaderLive, ha] using hl
        exact .inl hopen
  | reader l =>
    have hs := readerStep_cases h
    exact .quiet _ (.outside hs.generation hs.owner)
  | writer l =>
    have hs := writerStep_cases h
    exact .quiet _ (.outside hs.generation hs.owner)

/-- Only the read thread itself leaves its loop. -/
theorem step_running {w w' : World} {l : Label} (hag : Agenda w.serialState w.agenda)
    (h : w.step l = some w') (hl : ∀ r, l ≠ .reader r) (hr : w.reader = .running) :
    w'.reader = .running := by
  cases l with
  | abi l => cases abiStep_cases h <;> exact hr
  | disp l =>
    rcases dispStep_cases hag h with hs | ⟨i, event, -, -, -, rfl⟩
    · cases hs <;> simp_all
    · exact hr
  | reader l => exact absurd rfl (hl l)
  | writer l => cases writerStep_cases h <;> exact hr

/-- Only the Dispatcher works off an action. -/
theorem step_agenda {w w' : World} {l : Label} (h : w.step l = some w')
    (hl : ∀ d, l ≠ .disp d) : w'.agenda = w.agenda := by
  cases l with
  | abi l => exact (abiStep_cases h).owner.2.1
  | disp l => exact absurd rfl (hl l)
  | reader l => exact (readerStep_cases h).owner.2.1
  | writer l => exact (writerStep_cases h).owner.2.1

/-- A reset of the display ends in its own step. -/
theorem step_atReset {w w' : World} {l : Label} (h : w.step l = some w')
    (ha : w.AtOp resetDisplay) (hl : l ≠ .disp .run) : w'.AtOp resetDisplay := by
  by_cases hd : ∀ d, l ≠ .disp d
  · rw [World.AtOp, step_agenda h hd]
    exact ha
  · obtain ⟨d, rfl⟩ := not_forall_not.mp hd
    obtain ⟨rest, hrest⟩ := List.head?_eq_some_iff.mp ha
    simp only [World.step, World.dispStep, hrest] at h
    cases d <;> simp [World.opStep] at h hl

/-- While a session is open, and once it has been committed, the generation is the one
its commit chose. -/
def SessionGeneration (w : World) : Prop :=
  w.serialState = .portOpen ∨ Committed w.agenda → w.core.generation = w.core.openGeneration

theorem BoundaryStep.sessionGeneration {w w' : World} {l : Label} (h : BoundaryStep w l w')
    (hinv : SessionGeneration w) : SessionGeneration w' := by
  cases h with
  | commitOpen l ha hs => exact fun _ => rfl
  | publishOpen l ha hs => exact fun _ => hinv (.inr (.inr ha))
  | commitClose l ha hs => exact fun ho => by simp [hs, Committed] at ho
  | quiet l hq =>
    intro ho
    rw [hq.generation, hq.openGeneration]
    exact hinv (ho.imp hq.opened hq.committed)

theorem sessionGeneration_reach {w : World} (h : Transition.Reach sessionMachine w) :
    SessionGeneration w := by
  refine h.invariantUsing (q := fun w => Agenda w.serialState w.agenda)
    (fun _ h => agenda_reach h) (fun _ => rfl) ?_
  intro w l w' hag hinv _ hstep
  exact (step_boundary hag hstep).sessionGeneration hinv

end Xcom
