import Xcom.Session.Pending

/-!
# The lifecycle the owner publishes

The session machine together with a history of the owner: the edge that
`serial_transition` took, what `owner_open` returned for the request being processed,
how far `sink_owner_close` has come since the last OPEN, and every state the owner
has published so far.
-/

namespace Xcom

open DispOp

/-- How far `sink_owner_close` has come since OPEN was last published. -/
inductive OwnerClosePhase
  | owed
  | running
  | done
  deriving DecidableEq, Repr

/-- One `serial_publish`: the states on both sides and the history at that point. -/
structure Publication where
  fromState : PortState
  toState : PortState
  edge : Option SerialEdge
  refused : Bool
  succeeded : Bool
  uncancelled : Bool
  ownerClose : OwnerClosePhase

/-- What is remembered of the owner.  `edge` is what `serial_find_edge` returned last,
`refused` that a cancelled open could not submit its Close, `succeeded` that
`owner_open` returned success for the request being processed, and `uncancelled` that
no cancel was pending then nor where the owner took the flag. -/
structure OwnerHistory where
  edge : Option SerialEdge := none
  refused : Bool := false
  succeeded : Bool := false
  uncancelled : Bool := false
  ownerClose : OwnerClosePhase := .done
  published : List Publication := []

/-- The state a step of the owner has published, if any. -/
def justPublished (w w' : World) : Option PortState :=
  match w'.trace with
  | .published state _ _ :: before => if before.length = w.trace.length then some state else none
  | _ => none

namespace OwnerHistory

/-- The history behind a step of the Dispatcher from `w` to `w'`, its publication apart. -/
def note (h : OwnerHistory) (w w' : World) : OwnerHistory :=
  match w.agenda.head? with
  | none => { h with edge := none, refused := false, succeeded := false, uncancelled := false }
  | some (transition event) =>
    { h with edge := serialFindEdge w.serialState w.core.lastOpenResult event }
  | some (storeOpenResult result) =>
    { h with succeeded := result = .status .ok, uncancelled := !w.core.cancelOpen }
  | some exchangeCancelOpen => { h with uncancelled := h.uncancelled && !w.core.cancelOpen }
  | some submitClose => { h with refused := w'.events = w.events }
  | some closeAdmission => { h with ownerClose := .running }
  | some openAdmission =>
    { h with ownerClose := if h.ownerClose = .running then .done else h.ownerClose }
  | some _ => h

/-- Records a publication. -/
def record (h : OwnerHistory) (fromState : PortState) : Option PortState → OwnerHistory
  | none => h
  | some toState =>
    { h with
      ownerClose := if toState = .portOpen then .owed else h.ownerClose
      published :=
        ⟨fromState, toState, h.edge, h.refused, h.succeeded, h.uncancelled, h.ownerClose⟩ ::
          h.published }

end OwnerHistory

/-- The session with the history of its owner. -/
structure Lifecycle where
  world : World := {}
  history : OwnerHistory := {}

namespace Lifecycle

/-- The history behind a step: only the Dispatcher makes any. -/
def historyAfter (s : Lifecycle) (w' : World) : Label → OwnerHistory
  | .disp _ =>
    (s.history.note s.world w').record s.world.serialState (justPublished s.world w')
  | _ => s.history

/-- One step of the session, with its history. -/
def step (s : Lifecycle) (l : Label) : Option Lifecycle :=
  (s.world.step l).map fun w' => ⟨w', s.historyAfter w' l⟩

end Lifecycle

/-- The lifecycle from `xcom_create` on. -/
def lifecycleMachine : Transition.Machine Lifecycle Label where
  init := {}
  step := Lifecycle.step

namespace World

/-- A thread is inside a fault report whose event was refused, or the report waits to be
reconciled. -/
def Reporting (w : World) : Prop :=
  w.core.faultPending = true ∨ w.reader = .faultStorePending ∨ w.writer = .faultStorePending

instance (w : World) : Decidable w.Reporting := inferInstanceAs (Decidable (_ ∨ _ ∨ _))

/-- The owner is between two events, and no fault report is under way. -/
def BetweenEvents (w : World) : Prop := w.agenda = [] ∧ ¬ w.Reporting

instance (w : World) : Decidable w.BetweenEvents := inferInstanceAs (Decidable (_ ∧ _))

end World

/-- A publication follows the table, or is the FAULT of a refused cancel handoff; it is
OPEN only for an open that succeeded and was not cancelled, and OPENING only behind a
completed `sink_owner_close`. -/
structure Publication.Legal (p : Publication) : Prop where
  edge : (∃ edge ∈ p.edge, edge ∈ kSerialEdges ∧ edge.fromState = p.fromState ∧
      edge.toState = p.toState) ∨
    p.refused = true ∧ p.fromState = .portClosing ∧ p.toState = .portFault
  opened : p.toState = .portOpen → p.succeeded = true ∧ p.uncancelled = true
  closed : p.toState = .portOpening → p.ownerClose = .done

/-- The fault latch is cleared in CLOSED only while the published state is CLOSED, too. -/
def ClearsSeenFault (w : World) : Label → Prop
  | .disp _ => w.AtOp clearFaultPending → w.serialState = .portClosed →
      w.core.portState = .portClosed
  | _ => True

instance : ∀ w l, Decidable (ClearsSeenFault w l)
  | _, .disp _ => inferInstanceAs (Decidable (_ → _ → _))
  | _, .abi _ => inferInstanceAs (Decidable True)
  | _, .reader _ => inferInstanceAs (Decidable True)
  | _, .writer _ => inferInstanceAs (Decidable True)

namespace Lifecycle

variable {s s' : Lifecycle} {l : Label}

theorem step_eq_some (h : s.step l = some s') :
    s.world.step l = some s'.world ∧ s'.history = s.historyAfter s'.world l := by
  simp only [step, Option.map_eq_some_iff] at h
  obtain ⟨w', hw, rfl⟩ := h
  exact ⟨hw, rfl⟩

/-- The lifecycle without its history is the session. -/
def session : Transition.Projection lifecycleMachine sessionMachine where
  state := Lifecycle.world
  label := some
  init := rfl
  step := fun h => .inr ⟨_, rfl, (step_eq_some h).1⟩

theorem session_reach (h : Transition.Reach lifecycleMachine s) :
    Transition.Reach sessionMachine s.world :=
  session.reachUnder (fun _ _ _ _ _ => trivial) h

end Lifecycle

/-! ## What a step publishes -/

section

variable {w w' : World}

theorem justPublished_silent (h : w'.trace = w.trace) : justPublished w w' = none := by
  unfold justPublished
  split
  · rename_i htr
    have hlen := congrArg List.length (h.symm.trans htr)
    simp only [List.length_cons] at hlen
    rw [if_neg (by omega)]
  · rfl

theorem justPublished_serialPublish (state : PortState) (agenda : List DispOp) :
    justPublished w { w.serialPublish state with agenda := agenda } = some state := by
  simp [justPublished]

/-- A step of the owner publishes the state its action names, or the target of an edge
that publishes first. -/
inductive Publishes (w : World) : Option PortState → Prop
  | silent : Publishes w none
  | named (state : PortState) (ha : w.AtOp (publish state)) : Publishes w (some state)
  | edge (event : SerialEvent) (state : PortState) (ha : w.AtOp (transition event))
      (hf : (serialFindEdge w.serialState w.core.lastOpenResult event).map
        SerialEdge.toState = some state) :
      Publishes w (some state)

theorem OwnerStep.publishes (h : OwnerStep w w') : Publishes w (justPublished w w') := by
  cases h with
  | publishOpen ha | publishOpenFail ha | publishFault ha | publishClosed ha =>
    rw [justPublished_serialPublish]
    exact .named _ (by simp [World.AtOp, ha])
  | openEdge ha hs =>
    rw [justPublished_serialPublish]
    rcases hs with hs | hs
    all_goals exact .edge .kOpen _ (by simp [World.AtOp, ha]) (by rw [hs]; rfl)
  | cancel ha hs =>
    rw [justPublished_serialPublish]
    exact .edge .kCancel _ (by simp [World.AtOp, ha]) (by rw [hs]; rfl)
  | closeEdge ha hs =>
    rw [justPublished_serialPublish]
    rcases hs with hs | hs | hs
    all_goals exact .edge .kClose _ (by simp [World.AtOp, ha]) (by rw [hs]; rfl)
  | faultOpen r ha hr hs =>
    rw [justPublished_serialPublish]
    exact .edge .kFault _ (by simp [World.AtOp, ha]) (by rw [hs]; rfl)
  | faultClosing r ha hr hs =>
    rw [justPublished_serialPublish]
    exact .edge .kFault _ (by simp [World.AtOp, ha]) (by rw [hs]; rfl)
  | storeResult => exact .silent
  | _ =>
    rw [justPublished_silent (by rfl)]
    exact .silent

end

end Xcom
