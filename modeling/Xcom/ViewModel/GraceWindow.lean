import Xcom.ViewModel.GraceDriver
import Xcom.ViewModel.Interlock

/-!
# Grace windows over a run

Every state is compared with the ones that follow it: within one window the deadline stays,
and the driver asks the core for nothing on behalf of a window that was left.
-/

namespace Xcom.ViewModel

/-! ## The state machine outside RECONNECTING -/

theorem forceFault_state {vm : ViewModel} (h : vm.hsm.state ≠ .reconnecting) :
    vm.forceFault.1.hsm.state ≠ .reconnecting := by
  unfold forceFault showing Hsm.forceFault
  split_ifs with hst hflag
  · cases hflag
  · exact h
  · exact fun heq => by cases heq
  · exact h

/-- Past the deadline the state machine is not in RECONNECTING. -/
theorem reconnectTimeout_state (vm : ViewModel) :
    vm.reconnectTimeout.1.hsm.state ≠ .reconnecting := by
  unfold reconnectTimeout showing Hsm.reconnectTimeout
  split_ifs with hst hflag
  · cases hflag
  · exact hst
  · exact fun heq => by cases heq
  · exact absurd rfl ‹_›

theorem coreToUi_ne (s : PortState) : coreToUi s ≠ .reconnecting := by
  cases s <;> decide

/-- A snapshot does not open a window. -/
theorem onSnapshot_state {vm : ViewModel} (h : vm.hsm.state ≠ .reconnecting)
    (snap : SnapshotTable) : (vm.onSnapshot (some snap)).1.hsm.state ≠ .reconnecting := by
  rw [onSnapshot_hsm]
  by_cases hlt : snap.generation < vm.hsm.generation
  · rw [if_pos hlt]
    exact h
  · rw [if_neg hlt]
    cases hport : snap.portState with
    | none => exact h
    | some portState =>
      show (vm.hsm.onPortState portState snap.generation).1.state ≠ _
      rw [(Hsm.onPortState_of_le portState h (not_lt.mp hlt)).1]
      exact coreToUi_ne portState

/-- The intent of the user to open shows OPENING, and to close CLOSING. -/
theorem intentOpen_state {vm : ViewModel} (h : vm.intentOpen.2 = true) :
    vm.intentOpen.1.hsm.state = .opening ∧
      (vm.intentOpen.1.hsm.returnTo = some .closed ∨
        vm.intentOpen.1.hsm.returnTo = some .fault) := by
  unfold intentOpen Hsm.intentOpen at h ⊢
  by_cases hopen : vm.hsm.canOpen = true
  · rw [if_pos hopen]
    unfold Hsm.canOpen at hopen
    rcases of_decide_eq_true hopen with hst | hst
    · exact ⟨rfl, .inl (congrArg some hst)⟩
    · exact ⟨rfl, .inr (congrArg some hst)⟩
  · rw [if_neg hopen] at h
    cases h

theorem intentClose_state {vm : ViewModel} (h : vm.intentClose.2 = true) :
    vm.intentClose.1.hsm.state = .closing := by
  unfold intentClose Hsm.intentClose at h ⊢
  by_cases hclose : vm.hsm.canClose = true
  · rw [if_pos hclose]
  · rw [if_neg hclose] at h
    cases h

/-- An open that is not submitted leaves the view where it was. -/
theorem rejectOpen_state {vm : ViewModel} (h : vm.intentOpen.2 = true) :
    vm.intentOpen.1.rejectOpen.1.hsm.state ≠ .reconnecting := by
  obtain ⟨hst, hreturn⟩ := intentOpen_state h
  have hreject : vm.intentOpen.1.rejectOpen.1.hsm.state =
      (vm.intentOpen.1.hsm.returnTo).getD .closed := by
    unfold rejectOpen showing Hsm.rejectOpen
    rw [if_neg (not_not.mpr hst)]
    rfl
  rw [hreject]
  rcases hreturn with hreturn | hreturn
  · rw [hreturn]
    decide
  · rw [hreturn]
    decide

/-- What is latched is the effective state. -/
theorem latch_effective {h : Hsm} {state : UiState} {generation : Nat}
    (hlatched : (h.latch state generation).2 = true) :
    (h.latch state generation).1.effective = state := by
  unfold Hsm.latch at hlatched ⊢
  dsimp only at hlatched ⊢
  split_ifs at hlatched ⊢
  all_goals rfl

/-- A recovery that is latched is settled. -/
theorem settle_state {vm : ViewModel} {h : Hsm} (hst : h.state = .reconnecting) {s : PortState}
    (hs : s = .portOpen ∨ s = .portOpening) {generation : Nat}
    (hlatched : (h.onPortState s generation).2 = true)
    (hvm : vm.hsm = (h.onPortState s generation).1) :
    vm.settleRecovering.1.hsm.state ≠ .reconnecting := by
  have hcandidate : coreToUi s ≠ .fault ∧ (coreToUi s = .opened ∨ coreToUi s = .opening) := by
    rcases hs with rfl | rfl
    · exact ⟨by decide, .inl rfl⟩
    · exact ⟨by decide, .inr rfl⟩
  have hstate : vm.hsm.state = .reconnecting := hvm ▸ Hsm.onPortState_window hst s generation
  have heffective : vm.hsm.effective = coreToUi s := by
    rw [hvm]
    unfold Hsm.onPortState at hlatched ⊢
    by_cases hlt : generation < h.generation
    · rw [if_pos hlt] at hlatched
      cases hlatched
    · rw [if_neg hlt, if_pos hst, if_pos hcandidate.1] at hlatched ⊢
      exact latch_effective hlatched
  have hsettle : vm.hsm.settleRecovering = ({ vm.hsm with state := vm.hsm.effective }, true) := by
    have hboth : ¬ (vm.hsm.effective ≠ .opened ∧ vm.hsm.effective ≠ .opening) := by
      rw [heffective]
      rcases hcandidate.2 with heq | heq
      · exact fun hnot => hnot.1 heq
      · exact fun hnot => hnot.2 heq
    rw [Hsm.settleRecovering, if_neg (not_not.mpr hstate), if_neg hboth]
  have hsettled : vm.settleRecovering.1.hsm.state = coreToUi s := by
    rw [settleRecovering, showing, hsettle]
    exact heffective
  rw [hsettled]
  exact coreToUi_ne s

namespace Window

/-! ## From one state to a later one -/

/-- In RECONNECTING a deadline is armed. -/
def Armed (w : Window) : Prop :=
  w.vm.hsm.state = .reconnecting → w.grace.deadline.isSome

/-- What a later state keeps: the window it is in, if that is still the same one, and the
calls, to which only calls for that window or later ones are added. -/
structure Moves (w w' : Window) : Prop where
  windows : w.windows ≤ w'.windows
  same : w'.windows = w.windows → w'.vm.hsm.state = .reconnecting →
    w.vm.hsm.state = .reconnecting ∧ w'.grace.deadline = w.grace.deadline
  calls : ∃ later, w'.calls = w.calls ++ later ∧ ∀ c ∈ later, w.windows ≤ c.window ∧
    (c.window = w.windows → w.vm.hsm.state = .reconnecting)

theorem Moves.trans {w w' w'' : Window} (h : w.Moves w') (h' : w'.Moves w'') : w.Moves w'' where
  windows := h.windows.trans h'.windows
  same := by
    intro heq hst
    have hle := h.windows
    have hle' := h'.windows
    obtain ⟨hst', hdeadline'⟩ := h'.same (by omega) hst
    obtain ⟨hst, hdeadline⟩ := h.same (by omega) hst'
    exact ⟨hst, hdeadline'.trans hdeadline⟩
  calls := by
    obtain ⟨later, hcalls, hlater⟩ := h.calls
    obtain ⟨later', hcalls', hlater'⟩ := h'.calls
    have hle := h.windows
    refine ⟨later ++ later', by rw [hcalls', hcalls, List.append_assoc], ?_⟩
    intro c hc
    rcases List.mem_append.mp hc with hc | hc
    · exact hlater c hc
    · obtain ⟨hwindow, hstate⟩ := hlater' c hc
      refine ⟨hle.trans hwindow, ?_⟩
      intro heq
      exact (h.same (by omega) (hstate (by omega))).1

/-- Nothing but other fields changed. -/
theorem Moves.of_same {w w' : Window} (hst : w'.vm.hsm.state = w.vm.hsm.state)
    (hdeadline : w'.grace.deadline = w.grace.deadline) (hwindows : w'.windows = w.windows)
    (hcalls : w'.calls = w.calls) : w.Moves w' where
  windows := hwindows.ge
  same := fun _ h => ⟨hst ▸ h, hdeadline⟩
  calls := ⟨[], by rw [hcalls, List.append_nil], fun c hc => by cases hc⟩

/-- The window was left, if there was one. -/
theorem Moves.of_left {w w' : Window} (hst : w'.vm.hsm.state ≠ .reconnecting)
    (hwindows : w'.windows = w.windows) (hcalls : w'.calls = w.calls) : w.Moves w' where
  windows := hwindows.ge
  same := fun _ h => absurd h hst
  calls := ⟨[], by rw [hcalls, List.append_nil], fun c hc => by cases hc⟩

/-! ## The driver -/

theorem adoptPort_same (w : Window) (r : Resolved) :
    (w.adoptPort r).vm = w.vm ∧ (w.adoptPort r).grace.deadline = w.grace.deadline ∧
      (w.adoptPort r).windows = w.windows ∧ (w.adoptPort r).calls = w.calls := by
  unfold adoptPort
  dsimp only
  split <;> exact ⟨rfl, rfl, rfl, rfl⟩

/-- An attempt asks the core for at most one thing, for the current window. -/
theorem attempt_same (w : Window) (i : PollInput) :
    (w.attempt i).vm = w.vm ∧ (w.attempt i).grace.deadline = w.grace.deadline ∧
      (w.attempt i).windows = w.windows ∧
      ∃ later, (w.attempt i).calls = w.calls ++ later ∧ ∀ c ∈ later, c.window = w.windows := by
  have hcall : ∀ call, ∃ later, (w.call call).calls = w.calls ++ later ∧
      ∀ c ∈ later, c.window = w.windows := by
    intro call
    refine ⟨[⟨w.windows, call⟩], rfl, ?_⟩
    intro c hc
    rw [List.mem_singleton.mp hc]
  have hnone : ∃ later, w.calls = w.calls ++ later ∧ ∀ c ∈ later, c.window = w.windows :=
    ⟨[], (List.append_nil _).symm, fun c hc => by cases hc⟩
  unfold attempt
  split
  · exact ⟨rfl, rfl, rfl, hcall _⟩
  · split
    · exact ⟨rfl, rfl, rfl, hcall _⟩
    · split
      · exact ⟨rfl, rfl, rfl, hnone⟩
      · exact ⟨rfl, rfl, rfl, hnone⟩

/-- Past the deadline the window is given up. -/
theorem driveReconnect_expired {w : Window} {deadline : Nat} {i : PollInput}
    (h : i.now ≥ deadline) :
    (w.driveReconnect deadline i).vm.hsm.state ≠ .reconnecting ∧
      (w.driveReconnect deadline i).grace.deadline = none ∧
      (w.driveReconnect deadline i).windows = w.windows ∧
      (w.driveReconnect deadline i).calls = w.calls := by
  unfold driveReconnect
  rw [if_pos h]
  exact ⟨reconnectTimeout_state w.vm, rfl, rfl, rfl⟩

/-- Before it the view-model and the window stay as they are. -/
theorem driveReconnect_running {w : Window} {deadline : Nat} {i : PollInput}
    (h : ¬ i.now ≥ deadline) :
    (w.driveReconnect deadline i).vm = w.vm ∧
      (w.driveReconnect deadline i).grace.deadline = w.grace.deadline ∧
      (w.driveReconnect deadline i).windows = w.windows ∧
      ∃ later, (w.driveReconnect deadline i).calls = w.calls ++ later ∧
        ∀ c ∈ later, c.window = w.windows := by
  unfold driveReconnect
  rw [if_neg h]
  obtain ⟨hvm, hdeadline, hwindows, hcalls⟩ :=
    w.adoptPort_same (resolveReconnectPort w.grace i.resolvePorts w.serialPort)
  obtain ⟨hvm', hdeadline', hwindows', later, hcalls', hlater⟩ :=
    (w.adoptPort (resolveReconnectPort w.grace i.resolvePorts w.serialPort)).attempt_same i
  refine ⟨hvm'.trans hvm, hdeadline'.trans hdeadline, hwindows'.trans hwindows, later, ?_, ?_⟩
  · rw [hcalls', hcalls]
  · intro c hc
    rw [hlater c hc, hwindows]

/-- In its window the driver moves on. -/
theorem moves_driveReconnect {w : Window} (hst : w.vm.hsm.state = .reconnecting)
    (deadline : Nat) (i : PollInput) : w.Moves (w.driveReconnect deadline i) := by
  by_cases hexpired : i.now ≥ deadline
  · obtain ⟨hleft, -, hwindows, hcalls⟩ := driveReconnect_expired (w := w) hexpired
    exact .of_left hleft hwindows hcalls
  · obtain ⟨hvm, hdeadline, hwindows, later, hcalls, hlater⟩ :=
      driveReconnect_running (w := w) hexpired
    refine ⟨hwindows.ge, fun _ _ => ⟨hst, hdeadline⟩, later, hcalls, ?_⟩
    intro c hc
    exact ⟨(hlater c hc).ge, fun _ => hst⟩

/-- A fault arms a window of its own, whatever the driver does in it. -/
theorem moves_arm (w : Window) (deadline : Nat) (i : PollInput) :
    w.Moves ((w.armReconnect i).driveReconnect deadline i) := by
  have hnext : ((w.armReconnect i).driveReconnect deadline i).windows = w.windows + 1 ∧
      ∃ later, ((w.armReconnect i).driveReconnect deadline i).calls = w.calls ++ later ∧
        ∀ c ∈ later, c.window = w.windows + 1 := by
    by_cases hexpired : i.now ≥ deadline
    · obtain ⟨-, -, hwindows, hcalls⟩ :=
        driveReconnect_expired (w := w.armReconnect i) hexpired
      exact ⟨hwindows, [], by rw [hcalls, List.append_nil]; rfl, fun c hc => by cases hc⟩
    · obtain ⟨-, -, hwindows, later, hcalls, hlater⟩ :=
        driveReconnect_running (w := w.armReconnect i) hexpired
      exact ⟨hwindows, later, hcalls, hlater⟩
  obtain ⟨hwindows, later, hcalls, hlater⟩ := hnext
  refine ⟨by omega, fun heq => by omega, later, hcalls, ?_⟩
  intro c hc
  have hwindow := hlater c hc
  exact ⟨by omega, fun heq => by omega⟩

/-- A snapshot in the window: one that is latched ends it. -/
theorem absorb_state {w : Window} (hst : w.vm.hsm.state = .reconnecting) (snap : SnapshotTable) :
    ((w.absorb snap).vm.hsm.state ≠ .reconnecting ∨
      (w.absorb snap).vm.hsm.state = w.vm.hsm.state ∧
        (w.absorb snap).grace.deadline = w.grace.deadline) ∧
      (w.absorb snap).windows = w.windows ∧ (w.absorb snap).calls = w.calls := by
  unfold absorb
  by_cases hcandidate : snap.portState = some .portOpen ∨ snap.portState = some .portOpening
  · rw [if_pos hcandidate]
    have hport : ∃ s, snap.portState = some s ∧ (s = .portOpen ∨ s = .portOpening) := by
      rcases hcandidate with hport | hport
      · exact ⟨_, hport, .inl rfl⟩
      · exact ⟨_, hport, .inr rfl⟩
    obtain ⟨s, hport, hs⟩ := hport
    rw [hport]
    dsimp only [hsmOnPortState]
    by_cases hlatched : (w.vm.hsm.onPortState s snap.generation).2 = true
    · rw [if_pos hlatched]
      exact ⟨.inl (settle_state hst hs hlatched rfl), rfl, rfl⟩
    · have hstay := Hsm.onPortState_window hst s snap.generation
      rw [if_neg hlatched]
      exact ⟨.inr ⟨hstay.trans hst.symm, rfl⟩, rfl, rfl⟩
  · rw [if_neg hcandidate]
    exact ⟨.inr ⟨rfl, rfl⟩, rfl, rfl⟩

theorem moves_absorb {w : Window} (hst : w.vm.hsm.state = .reconnecting) (snap : SnapshotTable) :
    w.Moves (w.absorb snap) := by
  obtain ⟨hleft | ⟨hstay, hdeadline⟩, hwindows, hcalls⟩ := absorb_state hst snap
  · exact .of_left hleft hwindows hcalls
  · exact .of_same hstay hdeadline hwindows hcalls

theorem moves_takeSnapshot {w : Window} (hst : w.vm.hsm.state ≠ .reconnecting)
    (snap : SnapshotTable) : w.Moves (w.takeSnapshot snap) :=
  .of_left (onSnapshot_state hst snap) rfl rfl

/-! ## The poll -/

/-- A watchdog ends the poll with a forced fault, or moves only its own deadlines. -/
def Watched (w : Window) (r : Window × Bool) : Prop :=
  (r.2 = true ∧ r.1.vm.hsm.state ≠ .reconnecting ∨
    r.2 = false ∧ r.1.vm = w.vm ∧ r.1.grace = w.grace) ∧
    r.1.windows = w.windows ∧ r.1.calls = w.calls

theorem openingWatchdog_watched (w : Window) (now : Nat) : w.Watched (w.openingWatchdog now) := by
  unfold openingWatchdog
  by_cases hst : w.vm.hsm.state = .opening
  · rw [if_pos hst]
    have hforced : w.vm.forceFault.1.hsm.state ≠ .reconnecting :=
      forceFault_state (by rw [hst]; decide)
    cases w.openingDeadline with
    | none => exact ⟨.inr ⟨rfl, rfl, rfl⟩, rfl, rfl⟩
    | some deadline =>
      dsimp only
      split
      · exact ⟨.inr ⟨rfl, rfl, rfl⟩, rfl, rfl⟩
      · split
        · exact ⟨.inl ⟨rfl, hforced⟩, rfl, rfl⟩
        · exact ⟨.inr ⟨rfl, rfl, rfl⟩, rfl, rfl⟩
  · rw [if_neg hst]
    exact ⟨.inr ⟨rfl, rfl, rfl⟩, rfl, rfl⟩

theorem closingWatchdog_watched (w : Window) (now : Nat) : w.Watched (w.closingWatchdog now) := by
  unfold closingWatchdog
  by_cases hst : w.vm.hsm.state = .closing
  · rw [if_pos hst]
    have hforced : w.vm.forceFault.1.hsm.state ≠ .reconnecting :=
      forceFault_state (by rw [hst]; decide)
    cases w.closingDeadline with
    | none => exact ⟨.inr ⟨rfl, rfl, rfl⟩, rfl, rfl⟩
    | some deadline =>
      dsimp only
      split
      · exact ⟨.inl ⟨rfl, hforced⟩, rfl, rfl⟩
      · exact ⟨.inr ⟨rfl, rfl, rfl⟩, rfl, rfl⟩
  · rw [if_neg hst]
    exact ⟨.inr ⟨rfl, rfl, rfl⟩, rfl, rfl⟩

/-- The same view-model and grace fields. -/
structure SameGrace (w w' : Window) : Prop where
  vm : w'.vm = w.vm
  grace : w'.grace = w.grace
  windows : w'.windows = w.windows
  calls : w'.calls = w.calls

theorem SameGrace.moves {w w' : Window} (h : w.SameGrace w') : w.Moves w' :=
  .of_same (by rw [h.vm]) (by rw [h.grace]) h.windows h.calls

/-- The watchdogs end the poll outside RECONNECTING, or the poll goes on from the same
grace fields. -/
theorem pollStatus_cases (w : Window) (i : PollInput) :
    ((w.pollStatus i).vm.hsm.state ≠ .reconnecting ∧ (w.pollStatus i).windows = w.windows ∧
        (w.pollStatus i).calls = w.calls) ∨
      ∃ w', w.SameGrace w' ∧ w.pollStatus i = w'.pollSnapshot i := by
  unfold pollStatus
  dsimp only
  obtain ⟨⟨hstop, hst⟩ | ⟨hgo, hvm, hgrace⟩, hwindows, hcalls⟩ :=
    w.openingWatchdog_watched i.now
  · rw [if_pos hstop]
    exact .inl ⟨hst, hwindows, hcalls⟩
  · rw [if_neg (by rw [hgo]; decide)]
    obtain ⟨⟨hstop, hst⟩ | ⟨hgo', hvm', hgrace'⟩, hwindows', hcalls'⟩ :=
      (w.openingWatchdog i.now).1.closingWatchdog_watched i.now
    · rw [if_pos hstop]
      exact .inl ⟨hst, hwindows'.trans hwindows, hcalls'.trans hcalls⟩
    · rw [if_neg (by rw [hgo']; decide)]
      exact .inr ⟨_, ⟨hvm'.trans hvm, hgrace'.trans hgrace, hwindows'.trans hwindows,
        hcalls'.trans hcalls⟩, rfl⟩

/-- After the check for a window that was left, a deadline is armed in RECONNECTING only. -/
theorem abandonReconnect_spec (w : Window) :
    w.Moves w.abandonReconnect ∧ w.abandonReconnect.vm = w.vm ∧
      (w.vm.hsm.state = .reconnecting → w.abandonReconnect = w) ∧
      (w.vm.hsm.state ≠ .reconnecting → w.abandonReconnect.grace.deadline = none) := by
  unfold abandonReconnect
  by_cases hst : w.vm.hsm.state = .reconnecting
  · have hrecovering : w.vm.recovering = true := decide_eq_true hst
    rw [if_neg (fun h => h.2 hrecovering)]
    exact ⟨.of_same rfl rfl rfl rfl, rfl, fun _ => rfl, fun h => absurd hst h⟩
  · have hrecovering : ¬ w.vm.recovering = true := fun h => hst (of_decide_eq_true h)
    by_cases harmed : w.grace.deadline.isSome = true
    · rw [if_pos ⟨harmed, hrecovering⟩]
      exact ⟨.of_left hst rfl rfl, rfl, fun h => absurd h hst, fun _ => rfl⟩
    · rw [if_neg (fun h => harmed h.1)]
      exact ⟨.of_left hst rfl rfl, rfl, fun h => absurd h hst,
        fun _ => Option.not_isSome_iff_eq_none.mp harmed⟩

/-- A poll that starts in RECONNECTING works in its window. -/
theorem pollSnapshot_window {w : Window} (i : PollInput) (hst : w.vm.hsm.state = .reconnecting)
    {deadline : Nat} (hdeadline : w.grace.deadline = some deadline) :
    w.Moves (w.pollSnapshot i) ∧ (w.pollSnapshot i).Armed ∧
      (i.now ≥ deadline → (w.pollSnapshot i).vm.hsm.state ≠ .reconnecting) := by
  have hnext : ∃ v : Window, w.SameGrace v ∧ w.pollSnapshot i =
      if i.snapshot.portState = some .portFault then v.driveReconnect deadline i
      else if (v.driveReconnect deadline i).grace.deadline.isSome then
        (v.driveReconnect deadline i).absorb i.snapshot
      else (v.driveReconnect deadline i).takeSnapshot i.snapshot := by
    refine ⟨{ w with portState := i.snapshot.portState }, ⟨rfl, rfl, rfl, rfl⟩, ?_⟩
    have hkept := (abandonReconnect_spec { w with portState := i.snapshot.portState }).2.2.1 hst
    unfold pollSnapshot
    rw [hkept]
    dsimp only [pollFault]
    rw [hdeadline]
    simp only [Option.isSome_some, or_true, and_true]
  obtain ⟨v, hsame, hpoll⟩ := hnext
  have hst' : v.vm.hsm.state = .reconnecting := by rw [hsame.vm, hst]
  have hdrive := moves_driveReconnect hst' deadline i
  have hdeadline' : v.grace.deadline = some deadline := by rw [hsame.grace, hdeadline]
  rw [hpoll]
  by_cases hexpired : i.now ≥ deadline
  · obtain ⟨hleft, hnone, -, -⟩ := driveReconnect_expired (w := v) hexpired
    by_cases hfault : i.snapshot.portState = some .portFault
    · rw [if_pos hfault]
      exact ⟨hsame.moves.trans hdrive, fun h => absurd h hleft, fun _ => hleft⟩
    · rw [if_neg hfault, hnone, if_neg (by decide)]
      have htaken := onSnapshot_state hleft i.snapshot
      exact ⟨(hsame.moves.trans hdrive).trans (moves_takeSnapshot hleft i.snapshot),
        fun h => absurd h htaken, fun _ => htaken⟩
  · obtain ⟨hvm, hkept, -, -⟩ := driveReconnect_running (w := v) hexpired
    have hrunning : (v.driveReconnect deadline i).vm.hsm.state = .reconnecting := by
      rw [hvm, hst']
    have harmed : (v.driveReconnect deadline i).grace.deadline.isSome := by
      rw [hkept, hdeadline']
      rfl
    by_cases hfault : i.snapshot.portState = some .portFault
    · rw [if_pos hfault]
      exact ⟨hsame.moves.trans hdrive, fun _ => harmed, fun h => absurd h hexpired⟩
    · rw [if_neg hfault, if_pos harmed]
      refine ⟨(hsame.moves.trans hdrive).trans (moves_absorb hrunning i.snapshot), ?_,
        fun h => absurd h hexpired⟩
      intro hst
      obtain ⟨hleft | ⟨-, hdeadline⟩, -, -⟩ := absorb_state hrunning i.snapshot
      · exact absurd hst hleft
      · rw [hdeadline]
        exact harmed

/-- A poll that starts outside RECONNECTING leaves it or arms a window of its own. -/
theorem pollSnapshot_outside {w : Window} (i : PollInput)
    (hst : w.vm.hsm.state ≠ .reconnecting) :
    w.Moves (w.pollSnapshot i) ∧ (w.pollSnapshot i).Armed := by
  obtain ⟨hmoves, hvm, -, hnone⟩ :=
    abandonReconnect_spec { w with portState := i.snapshot.portState }
  have hstate : w.Moves { w with portState := i.snapshot.portState } := .of_same rfl rfl rfl rfl
  have hfirst := hstate.trans hmoves
  have hst' : (abandonReconnect { w with portState := i.snapshot.portState }).vm.hsm.state ≠
      .reconnecting := by
    rw [hvm]
    exact hst
  unfold pollSnapshot
  dsimp only
  generalize hv : abandonReconnect { w with portState := i.snapshot.portState } = v at *
  have hnone' := hnone hst
  split
  · rw [pollFault, hnone']
    refine ⟨hfirst.trans (v.moves_arm _ i), ?_⟩
    dsimp only
    intro hlast
    by_cases hexpired : i.now ≥ i.now + v.graceMs
    · exact absurd hlast (driveReconnect_expired (w := v.armReconnect i) hexpired).1
    · rw [(driveReconnect_running (w := v.armReconnect i) hexpired).2.1]
      rfl
  · rw [hnone']
    exact ⟨hfirst.trans (moves_takeSnapshot hst' i.snapshot),
      fun h => absurd h (onSnapshot_state hst' i.snapshot)⟩

/-- A poll moves on and keeps the deadline armed, and past the deadline it leaves the
window. -/
theorem pollStatus_spec {w : Window} (h : w.Armed) (i : PollInput) :
    w.Moves (w.pollStatus i) ∧ (w.pollStatus i).Armed ∧
      ∀ deadline, w.vm.hsm.state = .reconnecting → w.grace.deadline = some deadline →
        i.now ≥ deadline → (w.pollStatus i).vm.hsm.state ≠ .reconnecting := by
  rcases w.pollStatus_cases i with ⟨hleft, hwindows, hcalls⟩ | ⟨v, hsame, hpoll⟩
  · exact ⟨.of_left hleft hwindows hcalls, fun h => absurd h hleft, fun _ _ _ _ => hleft⟩
  · rw [hpoll]
    by_cases hst : w.vm.hsm.state = .reconnecting
    · obtain ⟨deadline, hdeadline⟩ := Option.isSome_iff_exists.mp (h hst)
      obtain ⟨hmoves, harmed, hexpired⟩ := pollSnapshot_window (w := v) i
        (by rw [hsame.vm, hst]) (by rw [hsame.grace, hdeadline])
      refine ⟨hsame.moves.trans hmoves, harmed, ?_⟩
      intro deadline' _ hdeadline' hnow
      rw [hdeadline'] at hdeadline
      obtain rfl := Option.some.inj hdeadline
      exact hexpired hnow
    · obtain ⟨hmoves, harmed⟩ := pollSnapshot_outside (w := v) i (by rw [hsame.vm]; exact hst)
      exact ⟨hsame.moves.trans hmoves, harmed, fun _ h => absurd h hst⟩

/-! ## The mirror and its deadline alone -/

/-- The state machine, and whether a deadline is armed. -/
def ui (w : Window) : Ui := ⟨w.vm.hsm, w.grace.deadline.isSome⟩

/-- The armed deadline has passed. -/
def expired (w : Window) (now : Nat) : Bool := w.grace.deadline.any (· ≤ now)

theorem showing_timeout (vm : ViewModel) :
    vm.reconnectTimeout.1.hsm = vm.hsm.reconnectTimeout.1 := by
  apply showing_hsm
  unfold Hsm.reconnectTimeout
  split
  · exact fun _ => rfl
  · exact fun h => by cases h

theorem showing_enter (vm : ViewModel) (generation : Nat) :
    (vm.enterReconnecting (some generation)).1.hsm = (vm.hsm.enterReconnecting generation).1 := by
  apply showing_hsm
  rw [Option.getD_some]
  unfold Hsm.enterReconnecting
  split_ifs
  · exact fun _ => rfl
  · exact fun _ => rfl
  · exact fun _ => rfl
  · exact fun h => by cases h

theorem showing_settle (vm : ViewModel) :
    vm.settleRecovering.1.hsm = vm.hsm.settleRecovering.1 := by
  apply showing_hsm
  unfold Hsm.settleRecovering
  split_ifs
  · exact fun _ => rfl
  · exact fun _ => rfl
  · exact fun h => by cases h

theorem abandonReconnect_ui (w : Window) : w.abandonReconnect.ui = w.ui.abandon := by
  unfold abandonReconnect Ui.abandon
  by_cases h : w.grace.deadline.isSome = true ∧ w.vm.hsm.state ≠ .reconnecting
  · rw [if_pos ⟨h.1, fun hst => h.2 (of_decide_eq_true hst)⟩]
    exact (if_pos h).symm
  · rw [if_neg (fun hnot => h ⟨hnot.1, fun hst => hnot.2 (decide_eq_true hst)⟩)]
    exact (if_neg h).symm

theorem driveReconnect_ui {w : Window} {deadline : Nat}
    (hdeadline : w.grace.deadline = some deadline) (i : PollInput) :
    (w.driveReconnect deadline i).ui = w.ui.driveReconnect (w.expired i.now) := by
  have hexpired : w.expired i.now = decide (deadline ≤ i.now) := by
    rw [expired, hdeadline]
    rfl
  rw [hexpired]
  by_cases hnow : i.now ≥ deadline
  · rw [decide_eq_true hnow, driveReconnect, if_pos hnow, Ui.driveReconnect, if_pos rfl]
    exact congrArg (Ui.mk · false) (showing_timeout w.vm)
  · obtain ⟨hvm, hkept, -, -⟩ := driveReconnect_running (w := w) hnow
    rw [decide_eq_false hnow, Ui.driveReconnect, if_neg (by decide), ui, ui, hvm, hkept]

theorem takeSnapshot_ui (w : Window) {snap : SnapshotTable} {s : PortState}
    (hport : snap.portState = some s) :
    (w.takeSnapshot snap).ui = w.ui.onSnapshot (s, snap.generation) := by
  unfold takeSnapshot Ui.onSnapshot ui
  rw [onSnapshot_hsm, hport]
  dsimp only
  split <;> rfl

/-- A candidate that is not latched leaves no trace. -/
theorem onPortState_kept {h : Hsm} {s : PortState} (hs : s = .portOpen ∨ s = .portOpening)
    {generation : Nat} (hflag : (h.onPortState s generation).2 = false) :
    (h.onPortState s generation).1 = h := by
  have hcandidate : coreToUi s = .opening ∨ coreToUi s = .opened := by
    rcases hs with rfl | rfl
    · exact .inr rfl
    · exact .inl rfl
  have hfault : coreToUi s ≠ .fault := by
    rcases hs with rfl | rfl <;> decide
  unfold Hsm.onPortState at hflag ⊢
  split_ifs at hflag ⊢
  · rfl
  · unfold Hsm.latch at hflag ⊢
    by_cases hle : generation ≤ h.generation
    · rw [if_pos ⟨hcandidate, hle⟩]
    · rw [if_neg (fun hstale => hle hstale.2)] at hflag
      dsimp only at hflag
      rw [if_neg (fun hsame => hle hsame.1.le)] at hflag
      cases hflag
  · rfl

theorem absorb_ui (w : Window) {snap : SnapshotTable} {s : PortState}
    (hport : snap.portState = some s) (hs : s = .portOpen ∨ s = .portOpening) :
    (w.absorb snap).ui = w.ui.absorb (s, snap.generation) := by
  have hcandidate : snap.portState = some .portOpen ∨ snap.portState = some .portOpening := by
    rw [hport]
    rcases hs with rfl | rfl
    · exact .inl rfl
    · exact .inr rfl
  unfold absorb Ui.absorb
  rw [if_pos hcandidate, hport]
  dsimp only [hsmOnPortState]
  by_cases hlatched : (w.vm.hsm.onPortState s snap.generation).2 = true
  · rw [if_pos hlatched]
    refine Eq.trans ?_ (if_pos hlatched).symm
    exact congrArg (Ui.mk · false) (showing_settle _)
  · rw [if_neg hlatched]
    refine Eq.trans ?_ (if_neg hlatched).symm
    exact congrArg (Ui.mk · _) (onPortState_kept hs (Bool.eq_false_of_not_eq_true hlatched))

/-- From the snapshot on, a poll does to the mirror and the deadline what `Ui.poll` does. -/
theorem pollSnapshot_ui (w : Window) (i : PollInput) {s : PortState}
    (hport : i.snapshot.portState = some s) (hgrace : 0 < w.graceMs) :
    (w.pollSnapshot i).ui =
      w.ui.poll (s, i.snapshot.generation) (w.abandonReconnect.expired i.now) := by
  have hstart : ({ w with portState := i.snapshot.portState } : Window).abandonReconnect.ui =
      w.ui.abandon := abandonReconnect_ui _
  have hsame : ({ w with portState := i.snapshot.portState } : Window).abandonReconnect.expired =
      w.abandonReconnect.expired := by
    unfold abandonReconnect
    dsimp only
    split <;> rfl
  unfold pollSnapshot Ui.poll
  dsimp only
  rw [← hstart, ← hsame]
  have hgrace' : 0 <
      ({ w with portState := i.snapshot.portState } : Window).abandonReconnect.graceMs := by
    unfold abandonReconnect
    split
    · exact hgrace
    · exact hgrace
  generalize abandonReconnect { w with portState := i.snapshot.portState } = v at *
  rw [hport]
  by_cases hdrop : s = .portFault ∧
      ((v.vm.hsm.state = .opened ∨ v.vm.hsm.state = .opening) ∨ v.grace.deadline.isSome)
  · rw [if_pos ⟨congrArg some hdrop.1, hdrop.2⟩]
    refine Eq.trans ?_ (if_pos hdrop).symm
    unfold pollFault Ui.pollFault
    cases hdeadline : v.grace.deadline with
    | some deadline =>
      rw [if_pos (by rw [ui, hdeadline]; rfl)]
      exact driveReconnect_ui hdeadline i
    | none =>
      rw [if_neg (by rw [ui, hdeadline]; exact Bool.false_ne_true)]
      have hexpired : (v.armReconnect i).expired i.now = v.expired i.now := by
        have hlater : ¬ i.now + v.graceMs ≤ i.now := by omega
        rw [expired, expired, hdeadline]
        exact decide_eq_false hlater
      have harmed : (v.armReconnect i).grace.deadline = some (i.now + v.graceMs) := rfl
      dsimp only
      rw [driveReconnect_ui harmed i, hexpired]
      exact congrArg (fun h => Ui.driveReconnect ⟨h, true⟩ (v.expired i.now))
        (showing_enter v.vm i.snapshot.generation)
  · rw [if_neg (fun h => hdrop ⟨Option.some.inj h.1, h.2⟩)]
    refine Eq.trans ?_ (if_neg hdrop).symm
    cases hdeadline : v.grace.deadline with
    | none =>
      rw [if_neg (by rw [ui, hdeadline]; exact Bool.false_ne_true)]
      exact v.takeSnapshot_ui hport
    | some deadline =>
      have hdrive := driveReconnect_ui hdeadline i
      rw [if_pos (by rw [ui, hdeadline]; rfl)]
      unfold Ui.pollWindow
      rw [← hdrive]
      dsimp only
      by_cases harmed : (v.driveReconnect deadline i).grace.deadline.isSome = true
      · rw [if_pos harmed]
        refine Eq.trans ?_ (if_pos harmed).symm
        by_cases hs : s = .portOpen ∨ s = .portOpening
        · rw [if_pos hs]
          exact absorb_ui _ hport hs
        · rw [if_neg hs, absorb, hport, if_neg]
          exact fun h => hs (h.imp Option.some.inj Option.some.inj)
      · rw [if_neg harmed]
        refine Eq.trans ?_ (if_neg harmed).symm
        exact takeSnapshot_ui _ hport

/-! ## Runs -/

theorem step_spec {w : Window} (h : w.Armed) (e : Event) :
    w.Moves (w.step e) ∧ (w.step e).Armed := by
  cases e with
  | poll i =>
    obtain ⟨hmoves, harmed, -⟩ := pollStatus_spec h i
    exact ⟨hmoves, harmed⟩
  | openPort status i =>
    show w.Moves (w.coreOpen status i) ∧ (w.coreOpen status i).Armed
    unfold coreOpen
    by_cases hopen : w.vm.intentOpen.2 = true
    · rw [if_neg (not_not.mpr hopen)]
      have hopening : w.vm.intentOpen.1.hsm.state ≠ .reconnecting := by
        rw [(intentOpen_state hopen).1]
        decide
      have hrejected := rejectOpen_state hopen
      dsimp only
      split
      · exact ⟨.of_left hrejected rfl rfl, fun h => absurd h hrejected⟩
      · split
        · have hleft : w.Moves { w with vm := w.vm.intentOpen.1.rejectOpen.1 } :=
            .of_left hrejected rfl rfl
          obtain ⟨hmoves, harmed, -⟩ := pollStatus_spec
            (w := { w with vm := w.vm.intentOpen.1.rejectOpen.1 }) (fun h => absurd h hrejected) i
          exact ⟨hleft.trans hmoves, harmed⟩
        · have hleft : w.Moves { w with vm := w.vm.intentOpen.1 } := .of_left hopening rfl rfl
          obtain ⟨hmoves, harmed, -⟩ := pollStatus_spec
            (w := { w with vm := w.vm.intentOpen.1 }) (fun h => absurd h hopening) i
          exact ⟨hleft.trans hmoves, harmed⟩
    · rw [if_pos hopen]
      exact ⟨.of_same rfl rfl rfl rfl, h⟩
  | closePort i =>
    show w.Moves (w.coreClose i) ∧ (w.coreClose i).Armed
    unfold coreClose
    by_cases hclose : w.vm.intentClose.2 = true
    · rw [if_neg (not_not.mpr hclose)]
      have hclosing : w.vm.intentClose.1.hsm.state ≠ .reconnecting := by
        rw [intentClose_state hclose]
        decide
      have hleft : w.Moves { w with vm := w.vm.intentClose.1 } := .of_left hclosing rfl rfl
      obtain ⟨hmoves, harmed, -⟩ := pollStatus_spec
        (w := { w with vm := w.vm.intentClose.1 }) (fun h => absurd h hclosing) i
      exact ⟨hleft.trans hmoves, harmed⟩
    · rw [if_pos hclose]
      exact ⟨.of_same rfl rfl rfl rfl, h⟩
  | setPortPresent present =>
    have hvm : (w.vm.setPortPresent present).1.hsm = w.vm.hsm := by
      unfold setPortPresent
      split <;> rfl
    refine ⟨.of_same (congrArg _ hvm) rfl rfl rfl, ?_⟩
    intro hst
    exact h ((congrArg Hsm.state hvm).symm.trans hst)
  | selectPort name hardwareId => exact ⟨.of_same rfl rfl rfl rfl, h⟩

theorem run_spec {w : Window} (h : w.Armed) (es : List Event) :
    w.Moves (w.run es) ∧ (w.run es).Armed := by
  induction es generalizing w with
  | nil => exact ⟨.of_same rfl rfl rfl rfl, h⟩
  | cons e es ih =>
    obtain ⟨hmoves, harmed⟩ := step_spec h e
    obtain ⟨hmoves', harmed'⟩ := ih harmed
    exact ⟨hmoves.trans hmoves', harmed'⟩

/-- In every state of a run: in RECONNECTING a deadline is armed, and the first poll at or
after that deadline, whatever came before it, finds the window left or leaves it.  Outside
RECONNECTING the driver asks the core for nothing any more for the windows so far. -/
theorem grace_window_closes (serialPort : String) (graceMs : Nat) (es : List Event) :
    let w := (Window.new serialPort graceMs).run es
    (w.vm.hsm.state = .reconnecting → w.grace.deadline.isSome) ∧
    (∀ deadline (later : List Event) (i : PollInput),
      w.vm.hsm.state = .reconnecting → w.grace.deadline = some deadline → i.now ≥ deadline →
      ((w.run later).step (.poll i)).vm.hsm.state = .reconnecting →
      w.windows < ((w.run later).step (.poll i)).windows) ∧
    (w.vm.hsm.state ≠ .reconnecting → ∀ later : List Event,
      ∃ calls, (w.run later).calls = w.calls ++ calls ∧ ∀ c ∈ calls, w.windows < c.window) := by
  intro w
  have hinit : (Window.new serialPort graceMs).Armed := fun h => by cases h
  have harmed : w.Armed := (run_spec hinit es).2
  refine ⟨harmed, ?_, ?_⟩
  · intro deadline later i hst hdeadline hnow hlast
    obtain ⟨hmoves, harmed'⟩ := run_spec harmed later
    obtain ⟨hmoves', -, hexpired⟩ := pollStatus_spec harmed' i
    have hle := hmoves.windows
    have hle' := hmoves'.windows
    by_contra hnot
    have hsame : ((w.run later).step (.poll i)).windows = (w.run later).windows := by
      show ((w.run later).pollStatus i).windows = _
      change ¬ w.windows < ((w.run later).pollStatus i).windows at hnot
      omega
    obtain ⟨hst', -⟩ := hmoves'.same hsame hlast
    have hwindow : (w.run later).windows = w.windows := by
      change ((w.run later).pollStatus i).windows = _ at hsame
      change ¬ w.windows < ((w.run later).pollStatus i).windows at hnot
      omega
    obtain ⟨-, hkept⟩ := hmoves.same hwindow hst'
    exact hexpired deadline hst' (hkept.trans hdeadline) hnow hlast
  · intro hst later
    obtain ⟨calls, hcalls, hlater⟩ := (run_spec harmed later).1.calls
    refine ⟨calls, hcalls, ?_⟩
    intro c hc
    obtain ⟨hle, hsame⟩ := hlater c hc
    exact lt_of_le_of_ne hle fun heq => hst (hsame heq.symm)

/-- A session that is opened and faults: the window is armed and the driver resets the
core. -/
example :
    let input (now : Nat) (s : PortState) (generation : Nat) : PollInput :=
      ⟨now, ⟨some s, generation, []⟩, [], [], [], [], .ok, none⟩
    let w := (Window.new "COM3" 8000).run
      [.openPort .ok (input 0 .portOpening 1), .poll (input 250 .portOpen 1),
        .poll (input 500 .portFault 1)]
    w.vm.hsm.state = .reconnecting ∧ w.grace.deadline = some 8500 ∧ w.calls = [⟨1, .close⟩] := by
  decide

end Window

end Xcom.ViewModel
