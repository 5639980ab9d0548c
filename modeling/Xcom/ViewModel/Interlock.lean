import Xcom.Session.Abi
import Xcom.Transition.Machine
import Xcom.ViewModel.Operations

/-!
# The interlock of the view-model

Over any operations and snapshots the state and the effective state of the mirror
part only inside the grace window.  Everything the render state enables follows from
that: what it enables is admitted by `Window:core_send` and taken by the core.
-/

namespace Xcom

/-- `queue_open` takes an open in this port state, no earlier open being pending. -/
def World.TakesOpen (s : PortState) : Prop :=
  ∀ (w : World) (sync : Bool) (cfg : SerialConfig),
    w.abi = .queueLoadState sync cfg → w.core.portState = s →
    w.core.lastOpenResult ≠ .status .errBusy →
    ∃ w₁ w₂, w.abiStep .loadState = some w₁ ∧ w₁.abiStep .loadResult = some w₂ ∧
      w₂.abi = .queueStoreBusy sync

/-- `xcom_close` goes on to submit its signal in this port state. -/
def World.TakesClose (s : PortState) : Prop :=
  ∀ w : World, w.abi = .closeLoadState → w.core.portState = s →
    ∃ w₁ w₂, w.abiStep .loadState = some w₁ ∧ w₁.abiStep .loadResult = some w₂ ∧
      (w₂.abi = .closeStoreCancel ∨ w₂.abi = .closeSubmit)

/-- `xcom_send` goes on to take a block in this port state. -/
def World.TakesSend (s : PortState) : Prop :=
  ∀ (w : World) (data : List UInt8),
    w.abi = .sendLoadState data → w.core.portState = s →
    ∃ w', w.abiStep .loadState = some w' ∧ w'.abi = .sendAlloc data w.device

theorem World.takesOpen_of {s : PortState} (h : s = .portClosed ∨ s = .portFault) :
    World.TakesOpen s := by
  intro w sync cfg hpc hport hresult
  have hopen : w.core.portState ≠ .portOpen := by
    rcases h with rfl | rfl <;> simp [hport]
  have hidle : ¬ (w.core.portState ≠ .portClosed ∧ w.core.portState ≠ .portFault) := by
    rcases h with rfl | rfl <;> simp [hport]
  refine ⟨{ w with abi := .queueLoadResult sync cfg w.core.portState },
    { w with core.config := cfg, abi := .queueStoreBusy sync }, ?_, ?_, rfl⟩
  · unfold World.abiStep
    rw [hpc]
  · show (if w.core.portState = .portOpen then _ else _) = _
    rw [if_neg hopen, if_neg hresult, if_neg hidle]

theorem World.takesClose_of {s : PortState} (h : s ≠ .portClosed) : World.TakesClose s := by
  intro w hpc hport
  have hnot : ¬ (w.core.portState = .portClosed ∧
      w.core.lastOpenResult ≠ .status .errBusy) := by
    rw [hport]
    exact fun hclosed => h hclosed.1
  have hload : w.abiStep .loadState =
      some { w with abi := .closeLoadResult w.core.portState } := by
    unfold World.abiStep
    rw [hpc]
  by_cases hcancel : w.core.portState = .portOpening ∨
      w.core.lastOpenResult = .status .errBusy
  · refine ⟨_, { w with abi := .closeStoreCancel }, hload, ?_, .inl rfl⟩
    show (if _ then _ else if _ then _ else _) = _
    rw [if_neg hnot, if_pos hcancel]
  · refine ⟨_, { w with abi := .closeSubmit }, hload, ?_, .inr rfl⟩
    show (if _ then _ else if _ then _ else _) = _
    rw [if_neg hnot, if_neg hcancel]

theorem World.takesSend_of : World.TakesSend .portOpen := by
  intro w data hpc hport
  refine ⟨{ w with abi := .sendAlloc data w.device }, ?_, rfl⟩
  unfold World.abiStep
  rw [hpc]
  exact if_neg (not_not.mpr hport)

namespace ViewModel

/-- `Window:core_send`: the interlocks, the send hook of the scripts and the send of
the core, if one is loaded. -/
def coreSend (vm : ViewModel) (core : Option (List UInt8 → XcomStatus))
    (resetInFlight : Bool) (dispatchSend : List UInt8 → Option (List UInt8))
    (data : List UInt8) : Bool × Option XcomStatus :=
  match core with
  | none => (false, some .errNotOpen)
  | some send =>
    if resetInFlight then (false, some .errBusy)
    else if vm.recovering then (false, some .errNotOpen)
    else if data.length = 0 then (true, none)
    else
      match dispatchSend data with
      | none => (false, none)
      | some hooked =>
        if send hooked ≠ .ok then (false, some (send hooked)) else (true, none)

/-- The view-model under any operations. -/
def machine : Transition.Machine ViewModel Op where
  init := {}
  step vm op := some (vm.apply op).1

/-- Outside the grace window the state is the effective state. -/
def Hsm.Settled (h : Hsm) : Prop := h.state ≠ .reconnecting → h.state = h.effective

namespace Hsm

theorem Settled.of_eq {h : Hsm} (heq : h.state = h.effective) : h.Settled := fun _ => heq

theorem Settled.of_window {h : Hsm} (hst : h.state = .reconnecting) : h.Settled :=
  fun hne => absurd hst hne

theorem Settled.intentOpen {h : Hsm} (hs : h.Settled) : h.intentOpen.1.Settled := by
  unfold Hsm.intentOpen
  split
  · exact .of_eq rfl
  · exact hs

theorem Settled.intentClose {h : Hsm} (hs : h.Settled) : h.intentClose.1.Settled := by
  unfold Hsm.intentClose
  split
  · exact .of_eq rfl
  · exact hs

theorem Settled.rejectOpen {h : Hsm} (hs : h.Settled) : h.rejectOpen.1.Settled := by
  unfold Hsm.rejectOpen
  split
  · exact hs
  · exact .of_eq rfl

theorem Settled.rejectClose {h : Hsm} (hs : h.Settled) : h.rejectClose.1.Settled := by
  unfold Hsm.rejectClose
  split
  · exact hs
  · exact .of_eq rfl

theorem Settled.forceFault {h : Hsm} (hs : h.Settled) : h.forceFault.1.Settled := by
  unfold Hsm.forceFault
  split
  · exact hs
  · exact .of_eq rfl

theorem Settled.enterReconnecting {h : Hsm} (hs : h.Settled) (generation : Nat) :
    (h.enterReconnecting generation).1.Settled := by
  unfold Hsm.enterReconnecting
  split
  · exact hs
  · split
    · exact hs
    · split
      · exact hs
      · exact .of_eq rfl

theorem Settled.reconnectTimeout {h : Hsm} (hs : h.Settled) :
    h.reconnectTimeout.1.Settled := by
  unfold Hsm.reconnectTimeout
  split
  · exact hs
  · exact .of_eq rfl

/-- Latching leaves the state alone. -/
theorem latch_state (h : Hsm) (state : UiState) (generation : Nat) :
    (h.latch state generation).1.state = h.state := by
  unfold Hsm.latch
  dsimp only
  split_ifs <;> rfl

/-- A snapshot inside the grace window leaves the state alone. -/
theorem onPortState_window {h : Hsm} (hst : h.state = .reconnecting) (coreState : PortState)
    (generation : Nat) : (h.onPortState coreState generation).1.state = .reconnecting := by
  unfold Hsm.onPortState
  rw [if_pos hst]
  split
  · exact hst
  · split
    · rw [latch_state]
      exact hst
    · split
      · exact hst
      · exact hst

theorem Settled.onPortState {h : Hsm} (hs : h.Settled) (coreState : PortState)
    (generation : Nat) : (h.onPortState coreState generation).1.Settled := by
  by_cases hst : h.state = .reconnecting
  · exact .of_window (onPortState_window hst coreState generation)
  · by_cases hlt : generation < h.generation
    · unfold Hsm.onPortState
      rw [if_pos hlt]
      exact hs
    · have htaken := onPortState_of_le coreState hst (not_lt.mp hlt)
      exact .of_eq (htaken.1.trans htaken.2.1.symm)

theorem Settled.settleRecovering {h : Hsm} (hs : h.Settled) :
    h.settleRecovering.1.Settled := by
  unfold Hsm.settleRecovering
  split
  · exact hs
  · split
    · exact hs
    · exact .of_eq rfl

end Hsm

theorem settled_hsmOnPortState {h : Hsm} (hs : h.Settled) (coreState : Option PortState)
    (generation : Option Nat) : (hsmOnPortState h coreState generation).1.Settled := by
  cases coreState with
  | none => exact hs
  | some coreState =>
    cases generation with
    | none => exact hs
    | some generation => exact hs.onPortState coreState generation

theorem onPortState_hsm (vm : ViewModel) (coreState : Option PortState)
    (generation : Option Nat) :
    (vm.onPortState coreState generation).1.hsm =
      (hsmOnPortState vm.hsm coreState generation).1 := by
  unfold onPortState
  dsimp only
  split <;> rfl

theorem onSnapshot_hsm (vm : ViewModel) (snap : SnapshotTable) :
    (vm.onSnapshot (some snap)).1.hsm =
      if snap.generation < vm.hsm.generation then vm.hsm
      else (hsmOnPortState vm.hsm snap.portState (some snap.generation)).1 := by
  unfold onSnapshot
  dsimp only
  split_ifs <;> rfl

theorem showing_hsm {vm : ViewModel} {r : Hsm × Bool} (hr : r.2 = false → r.1 = vm.hsm) :
    (vm.showing r).1.hsm = r.1 := by
  unfold showing
  split
  · rfl
  · rename_i hflag
    exact (hr (Bool.eq_false_of_not_eq_true hflag)).symm

theorem settled_showing {vm : ViewModel} {r : Hsm × Bool} (hs : vm.hsm.Settled)
    (hr : r.1.Settled) : (vm.showing r).1.hsm.Settled := by
  unfold showing
  split
  · exact hr
  · exact hs

theorem settled_apply {vm : ViewModel} (hs : vm.hsm.Settled) (op : Op) :
    (vm.apply op).1.hsm.Settled := by
  cases op with
  | intentOpen => exact hs.intentOpen
  | intentClose => exact hs.intentClose
  | rejectOpen => exact settled_showing hs hs.rejectOpen
  | rejectClose => exact settled_showing hs hs.rejectClose
  | forceFault => exact settled_showing hs hs.forceFault
  | enterReconnecting generation => exact settled_showing hs (hs.enterReconnecting _)
  | reconnectTimeout => exact settled_showing hs hs.reconnectTimeout
  | onPortState coreState generation =>
    show (vm.onPortState coreState generation).1.hsm.Settled
    rw [onPortState_hsm]
    exact settled_hsmOnPortState hs coreState generation
  | onSnapshot snap =>
    cases snap with
    | none => exact hs
    | some snap =>
      show (vm.onSnapshot (some snap)).1.hsm.Settled
      rw [onSnapshot_hsm]
      split
      · exact hs
      · exact settled_hsmOnPortState hs snap.portState (some snap.generation)
  | settleRecovering => exact settled_showing hs hs.settleRecovering
  | setPortPresent present =>
    show (vm.setPortPresent present).1.hsm.Settled
    unfold setPortPresent
    split
    · exact hs
    · exact hs

theorem settled_reach {vm : ViewModel} (h : Transition.Reach machine vm) : vm.hsm.Settled := by
  refine h.invariant (p := fun vm => vm.hsm.Settled) (.of_eq rfl) ?_
  intro s e s' hs _ hstep
  obtain rfl : (s.apply e).1 = s' := Option.some.inj hstep
  exact settled_apply hs e

/-- What the render state promises about one view-model. -/
structure Interlocked (vm : ViewModel) : Prop where
  effective : vm.uiState.state ≠ .reconnecting → vm.uiState.state = vm.hsm.effective
  send : vm.uiState.sendEnabled = true ↔ vm.uiState.state = .opened
  autosend : vm.uiState.autosendEnabled = true ↔ vm.uiState.state = .opened
  window : (vm.recovering = true ↔ vm.uiState.state = .reconnecting) ∧
    vm.uiState.reconnecting = vm.recovering
  refused : vm.recovering = true → ∀ core resetInFlight dispatchSend data,
    (vm.coreSend core resetInFlight dispatchSend data).1 = false
  admitted : vm.uiState.sendEnabled = true → ∀ send dispatchSend data hooked,
    data ≠ [] → dispatchSend data = some hooked →
    ((vm.coreSend (some send) false dispatchSend data).1 = true ↔ send hooked = .ok)
  opens : vm.uiState.openEnabled = true → World.TakesOpen vm.uiState.portStateCode
  closes : vm.uiState.closeEnabled = true → World.TakesClose vm.uiState.portStateCode
  sends : vm.uiState.sendEnabled = true → World.TakesSend vm.uiState.portStateCode

theorem online_iff {h : Hsm} (hs : h.Settled) : h.superState = .online ↔ h.state = .opened := by
  unfold Hsm.superState
  by_cases hst : h.state = .reconnecting
  · simp [hst]
  · rw [if_neg hst, ← hs hst]
    cases h.state <;> simp [parentState]

theorem coreSend_recovering {vm : ViewModel} (hre : vm.recovering = true)
    (core : Option (List UInt8 → XcomStatus)) (resetInFlight : Bool)
    (dispatchSend : List UInt8 → Option (List UInt8)) (data : List UInt8) :
    (vm.coreSend core resetInFlight dispatchSend data).1 = false := by
  cases core with
  | none => rfl
  | some send =>
    cases resetInFlight with
    | false => simp [coreSend, hre]
    | true => rfl

theorem coreSend_settled {vm : ViewModel} (hre : vm.recovering = false)
    (send : List UInt8 → XcomStatus) {dispatchSend : List UInt8 → Option (List UInt8)}
    {data hooked : List UInt8} (hdata : data ≠ []) (hhook : dispatchSend data = some hooked) :
    (vm.coreSend (some send) false dispatchSend data).1 = true ↔ send hooked = .ok := by
  by_cases hok : send hooked = .ok
  · simp [coreSend, hre, hdata, hhook, hok]
  · simp [coreSend, hre, hdata, hhook, hok]

end ViewModel

end Xcom
