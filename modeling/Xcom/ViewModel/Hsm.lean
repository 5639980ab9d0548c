import Xcom.Abi.Status

/-!
# The view-model's state machine

`Hsm` of `view_model.lua`, the mirror that the status poller feeds with sampled
snapshots of the core, and the part of `Window:poll_status` that drives it.
-/

namespace Xcom.ViewModel

/-- `STATE_*`: the core's states, and the grace window of the view. -/
inductive UiState
  | closed
  | opening
  | opened
  | closing
  | fault
  | reconnecting
  deriving DecidableEq, Repr

/-- `SUPER_*`. -/
inductive SuperState
  | offline
  | transitional
  | online
  deriving DecidableEq, Repr

/-- `CORE_TO_UI`. -/
def coreToUi : PortState → UiState
  | .portClosed => .closed
  | .portOpening => .opening
  | .portOpen => .opened
  | .portClosing => .closing
  | .portFault => .fault

/-- `PARENT_STATE`. -/
def parentState : UiState → SuperState
  | .closed | .fault | .reconnecting => .offline
  | .opening | .closing => .transitional
  | .opened => .online

/-- `Hsm`, as `new_hsm` makes it. -/
structure Hsm where
  state : UiState := .closed
  effective : UiState := .closed
  faulted : Bool := false
  generation : Nat := 0
  returnTo : Option UiState := none
  deriving DecidableEq, Repr

namespace Hsm

/-- `Hsm:enter_reconnecting`; the flag is the value returned. -/
def enterReconnecting (h : Hsm) (generation : Nat) : Hsm × Bool :=
  if h.effective = .reconnecting then (h, false)
  else if parentState h.effective = .offline ∧ h.effective ≠ .fault then (h, false)
  else if generation < h.generation then (h, false)
  else
    ({ h with
      generation := generation, state := .reconnecting, effective := .reconnecting
      faulted := true }, true)

/-- `Hsm:reconnect_timeout`. -/
def reconnectTimeout (h : Hsm) : Hsm × Bool :=
  if h.state ≠ .reconnecting then (h, false)
  else ({ h with state := .fault, effective := .fault, faulted := true }, true)

/-- `Hsm:on_port_state` inside the grace window, `state` already being the view's
name of a core state other than FAULT. -/
def latch (h : Hsm) (state : UiState) (generation : Nat) : Hsm × Bool :=
  if (state = .opening ∨ state = .opened) ∧ generation ≤ h.generation then (h, false)
  else
    let cleared :=
      if h.generation < generation then { h with returnTo := none, faulted := false }
      else if state = .opening ∨ state = .opened ∨ state = .closing then
        { h with faulted := false }
      else h
    if generation = h.generation ∧ state = h.effective then (cleared, false)
    else ({ cleared with generation := generation, effective := state }, true)

/-- `Hsm:on_port_state`. -/
def onPortState (h : Hsm) (coreState : PortState) (generation : Nat) : Hsm × Bool :=
  if generation < h.generation then (h, false)
  else if h.state = .reconnecting then
    if coreToUi coreState ≠ .fault then h.latch (coreToUi coreState) generation
    else if generation = h.generation then (h, false)
    else ({ h with returnTo := none, generation := generation }, true)
  else if coreToUi coreState = h.state ∧ coreToUi coreState = h.effective ∧
      generation = h.generation then (h, false)
  else
    let cleared :=
      if h.generation < generation then { h with returnTo := none, faulted := false } else h
    ({ cleared with
      generation := generation, state := coreToUi coreState
      effective := coreToUi coreState }, true)

/-- `ViewModel:settle_recovering`. -/
def settleRecovering (h : Hsm) : Hsm × Bool :=
  if h.state ≠ .reconnecting then (h, false)
  else if h.effective ≠ .opened ∧ h.effective ≠ .opening then (h, false)
  else ({ h with state := h.effective }, true)

/-- Outside the grace window a snapshot that is not older is taken over whole. -/
theorem onPortState_of_le {h : Hsm} (coreState : PortState) {generation : Nat}
    (hst : h.state ≠ .reconnecting) (hle : h.generation ≤ generation) :
    (h.onPortState coreState generation).1.state = coreToUi coreState ∧
      (h.onPortState coreState generation).1.effective = coreToUi coreState ∧
      (h.onPortState coreState generation).1.generation = generation := by
  unfold onPortState
  rw [if_neg (not_lt.mpr hle), if_neg hst]
  split
  · rename_i hsame
    exact ⟨hsame.1.symm, hsame.2.1.symm, hsame.2.2.symm⟩
  · exact ⟨rfl, rfl, rfl⟩

/-- In the grace window a candidate of a newer generation is latched and settled. -/
theorem onPortState_settle {h : Hsm} {coreState : PortState} {generation : Nat}
    (hst : h.state = .reconnecting) (hlt : h.generation < generation)
    (hcand : coreState = .portOpening ∨ coreState = .portOpen) :
    (h.onPortState coreState generation).2 = true ∧
      (h.onPortState coreState generation).1.settleRecovering.1.state = coreToUi coreState ∧
      (h.onPortState coreState generation).1.settleRecovering.1.effective =
        coreToUi coreState ∧
      (h.onPortState coreState generation).1.settleRecovering.1.generation = generation := by
  have hne : ¬ generation = h.generation := by omega
  have hnle : ¬ generation ≤ h.generation := by omega
  rcases hcand with rfl | rfl <;>
    simp [onPortState, latch, settleRecovering, coreToUi, hst, hne, hnle, hlt.not_gt, hlt]

end Hsm

/-- What `poll_status` reads of a snapshot. -/
abbrev Snapshot := PortState × Nat

/-- The mirror and whether the reconnect deadline is armed. -/
structure Ui where
  hsm : Hsm := {}
  deadline : Bool := false
  deriving DecidableEq, Repr

namespace Ui

/-- `_drive_reconnect` as far as it touches the mirror: past the deadline the
window is given up. -/
def driveReconnect (u : Ui) (expired : Bool) : Ui :=
  if expired then { hsm := u.hsm.reconnectTimeout.1, deadline := false } else u

/-- A candidate snapshot inside the grace window: the window is disarmed only when
the candidate is latched, and then settled. -/
def absorb (u : Ui) (snap : Snapshot) : Ui :=
  if (u.hsm.onPortState snap.1 snap.2).2 then
    { hsm := (u.hsm.onPortState snap.1 snap.2).1.settleRecovering.1, deadline := false }
  else u

/-- `ViewModel:on_snapshot`. -/
def onSnapshot (u : Ui) (snap : Snapshot) : Ui :=
  if snap.2 < u.hsm.generation then u
  else { u with hsm := (u.hsm.onPortState snap.1 snap.2).1 }

/-- The grace driver is abandoned once the mirror has left the window. -/
def abandon (u : Ui) : Ui :=
  if u.deadline ∧ u.hsm.state ≠ .reconnecting then { u with deadline := false } else u

/-- The FAULT branch of `poll_status`. -/
def pollFault (u : Ui) (snap : Snapshot) (expired : Bool) : Ui :=
  if u.deadline then u.driveReconnect expired
  else
    driveReconnect { hsm := (u.hsm.enterReconnecting snap.2).1, deadline := true } expired

/-- `poll_status` on an armed window: only OPENING and OPEN reach the mirror. -/
def pollWindow (u : Ui) (snap : Snapshot) (expired : Bool) : Ui :=
  if (u.driveReconnect expired).deadline then
    if snap.1 = .portOpen ∨ snap.1 = .portOpening then (u.driveReconnect expired).absorb snap
    else u.driveReconnect expired
  else (u.driveReconnect expired).onSnapshot snap

/-- One poll of the status timer; `expired` tells whether the grace deadline, if
one is armed, has passed. -/
def poll (u : Ui) (snap : Snapshot) (expired : Bool) : Ui :=
  let u := u.abandon
  if snap.1 = .portFault ∧
      ((u.hsm.state = .opened ∨ u.hsm.state = .opening) ∨ u.deadline) then
    u.pollFault snap expired
  else if u.deadline then u.pollWindow snap expired
  else u.onSnapshot snap

end Ui

end Xcom.ViewModel
