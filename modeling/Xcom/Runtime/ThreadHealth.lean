import Xcom.Abi.Status
import Xcom.Transition.Latch
import Xcom.Transition.Transducer
import Xcom.Transition.Wrap

/-!
# Liveness of a thread

`liveness_evaluate`, read by the 250 ms snapshot poll.  A thread is wedged when it runs,
is not in its known wait and has not beaten for longer than its timeout; a fault is
reported when that begins and a recovery when it ends.
-/

namespace Xcom.Runtime

open Transition

inductive LivenessEdge
  | kNone
  | kFault
  | kRecovery
  deriving DecidableEq, Repr

structure LivenessState where
  lastBeatMs : UInt32 := 0
  /-- Sticky: a nonzero beat has been seen, so that a beat at the wrap is not masked. -/
  started : Bool := false
  faulted : Bool := false
  episodes : UInt32 := 0
  deriving DecidableEq, Repr

structure LivenessResult where
  edge : LivenessEdge := .kNone
  elapsedMs : UInt32 := 0
  episodes : UInt32 := 0
  deriving DecidableEq, Repr

/-- `liveness_evaluate`. -/
def livenessEvaluate (state : LivenessState) (nowMs timeoutMs : UInt32)
    (running parked : Bool) : LivenessResult × LivenessState :=
  let started := if state.lastBeatMs ≠ 0 then true else state.started
  -- the subtraction of a clock that wrapped past the beat
  let elapsed := nowMs - state.lastBeatMs
  let expired := running && started && !parked && decide (timeoutMs < elapsed)
  if expired && !state.faulted then
    ({ edge := .kFault, elapsedMs := elapsed, episodes := state.episodes + 1 },
      { state with started := started, faulted := true, episodes := state.episodes + 1 })
  else if !expired && state.faulted then
    ({ edge := .kRecovery, elapsedMs := elapsed, episodes := state.episodes },
      { state with started := started, faulted := false })
  else
    ({ edge := .kNone, elapsedMs := elapsed, episodes := state.episodes },
      { state with started := started })

/-- What one check of a thread reads. -/
structure Observation where
  lastBeatMs : UInt32
  nowMs : UInt32
  timeoutMs : UInt32
  running : Bool
  parked : Bool
  deriving DecidableEq, Repr

/-- The beginning of `report_thread_health`: the beat that was loaded is stored and
evaluated. -/
def observe (state : LivenessState) (o : Observation) : LivenessResult × LivenessState :=
  livenessEvaluate { state with lastBeatMs := o.lastBeatMs } o.nowMs o.timeoutMs o.running o.parked

/-- `report_thread_health`: the entry it pushes to the error ring, and the new state. -/
def reportThreadHealth (name : String) (state : LivenessState) (o : Observation) :
    Option (XcomStatus × String) × LivenessState :=
  let (result, state') := observe state o
  match result.edge with
  | .kFault =>
    (some (.errTimeout, "thread stalled: " ++ name ++ " no beat for " ++
      toString result.elapsedMs.toNat ++ " ms (reported, not killed)"), state')
  | .kRecovery => (some (.ok, "thread recovered: " ++ name ++ " beating again"), state')
  | .kNone => (none, state')

/-! ## One check -/

/-- A nonzero beat has been seen up to this check. -/
def startedBy (state : LivenessState) (o : Observation) : Bool :=
  if o.lastBeatMs ≠ 0 then true else state.started

/-- The check finds the thread wedged. -/
def expired (state : LivenessState) (o : Observation) : Bool :=
  o.running && startedBy state o && !o.parked && decide (o.timeoutMs < o.nowMs - o.lastBeatMs)

theorem observe_fault {state : LivenessState} {o : Observation} (hexp : expired state o = true)
    (hfaulted : state.faulted = false) :
    observe state o =
      ({ edge := .kFault, elapsedMs := o.nowMs - o.lastBeatMs, episodes := state.episodes + 1 },
        { lastBeatMs := o.lastBeatMs, started := startedBy state o, faulted := true,
          episodes := state.episodes + 1 }) := by
  unfold expired startedBy at hexp
  unfold observe livenessEvaluate
  simp only [hexp, hfaulted, Bool.not_false, Bool.and_self, if_true]
  rfl

theorem observe_recovery {state : LivenessState} {o : Observation}
    (hexp : expired state o = false) (hfaulted : state.faulted = true) :
    observe state o =
      ({ edge := .kRecovery, elapsedMs := o.nowMs - o.lastBeatMs, episodes := state.episodes },
        { lastBeatMs := o.lastBeatMs, started := startedBy state o, faulted := false,
          episodes := state.episodes }) := by
  unfold expired startedBy at hexp
  unfold observe livenessEvaluate
  simp only [hexp, hfaulted, Bool.not_false, Bool.false_and, Bool.and_self, if_true,
    Bool.false_eq_true, if_false]
  rfl

theorem observe_steady {state : LivenessState} {o : Observation}
    (hexp : expired state o = state.faulted) :
    observe state o =
      ({ edge := .kNone, elapsedMs := o.nowMs - o.lastBeatMs, episodes := state.episodes },
        { state with lastBeatMs := o.lastBeatMs, started := startedBy state o }) := by
  unfold expired startedBy at hexp
  unfold observe livenessEvaluate
  simp only [hexp, Bool.and_not_self, Bool.not_and_self, Bool.false_eq_true, if_false]
  rfl

theorem observe_started (state : LivenessState) (o : Observation) :
    (observe state o).2.started = startedBy state o := by
  cases hexp : expired state o <;> cases hfaulted : state.faulted
  · rw [observe_steady (hexp.trans hfaulted.symm)]
  · rw [observe_recovery hexp hfaulted]
  · rw [observe_fault hexp hfaulted]
  · rw [observe_steady (hexp.trans hfaulted.symm)]

theorem observe_faulted (state : LivenessState) (o : Observation) :
    (observe state o).2.faulted = expired state o := by
  cases hexp : expired state o <;> cases hfaulted : state.faulted
  · rw [observe_steady (hexp.trans hfaulted.symm), ← hfaulted]
  · rw [observe_recovery hexp hfaulted]
  · rw [observe_fault hexp hfaulted]
  · rw [observe_steady (hexp.trans hfaulted.symm), ← hfaulted]

/-- A check reports a fault only of a thread it finds wedged. -/
theorem expired_of_fault {state : LivenessState} {o : Observation}
    (h : (observe state o).1.edge = .kFault) : expired state o = true := by
  cases hexp : expired state o with
  | true => rfl
  | false =>
    exfalso
    cases hfaulted : state.faulted with
    | true =>
      rw [observe_recovery hexp hfaulted] at h
      cases h
    | false =>
      rw [observe_steady (hexp.trans hfaulted.symm)] at h
      cases h

/-- One entry for an edge, and none without. -/
theorem reportThreadHealth_isSome (name : String) (state : LivenessState) (o : Observation) :
    (reportThreadHealth name state o).1.isSome = decide ((observe state o).1.edge ≠ .kNone) := by
  unfold reportThreadHealth
  cases hedge : (observe state o).1.edge <;> simp [hedge]

/-! ## Sequences of checks -/

/-- The reports of a latch, as liveness edges. -/
def LivenessEdge.ofReport : Bool → LivenessEdge
  | true => .kFault
  | false => .kRecovery

theorem LivenessEdge.ofReport_injective : Function.Injective ofReport := by
  intro a b
  cases a <;> cases b <;> simp [ofReport]

/-- The edge of a check, if it has one. -/
def check (state : LivenessState) (o : Observation) : List LivenessEdge × LivenessState :=
  ([(observe state o).1.edge].filter (· ≠ .kNone), (observe state o).2)

/-- The edges emitted for one thread, and its state behind them. -/
def checks : LivenessState → List Observation → List LivenessEdge × LivenessState :=
  transduce check

theorem checks_cons (state : LivenessState) (o : Observation) (os : List Observation) :
    checks state (o :: os) =
      ((check state o).1 ++ (checks (observe state o).2 os).1,
        (checks (observe state o).2 os).2) :=
  rfl

/-- What each check finds. -/
def findings : LivenessState → List Observation → List Bool
  | _, [] => []
  | state, o :: os => expired state o :: findings (observe state o).2 os

theorem check_edges (state : LivenessState) (o : Observation) :
    (check state o).1 =
      (Latch.edge state.faulted (expired state o)).toList.map LivenessEdge.ofReport := by
  unfold check
  cases hexp : expired state o <;> cases hfaulted : state.faulted
  · rw [observe_steady (hexp.trans hfaulted.symm)]
    rfl
  · rw [observe_recovery hexp hfaulted]
    rfl
  · rw [observe_fault hexp hfaulted]
    rfl
  · rw [observe_steady (hexp.trans hfaulted.symm)]
    rfl

/-- The checks of a thread latch what they find. -/
theorem checks_edges (state : LivenessState) (os : List Observation) :
    (checks state os).1 =
      (Latch.edges state.faulted (findings state os)).map LivenessEdge.ofReport := by
  induction os generalizing state with
  | nil => rfl
  | cons o os ih =>
    have htail := ih (observe state o).2
    rw [observe_faulted] at htail
    rw [checks_cons, check_edges, htail, findings, Latch.edges, List.map_append]

theorem count_check (state : LivenessState) (o : Observation) :
    (observe state o).2.episodes =
      state.episodes + UInt32.ofNat ((check state o).1.count .kFault) := by
  unfold check
  cases hexp : expired state o <;> cases hfaulted : state.faulted
  · rw [observe_steady (hexp.trans hfaulted.symm)]
    exact (UInt32.add_zero _).symm
  · rw [observe_recovery hexp hfaulted]
    exact (UInt32.add_zero _).symm
  · rw [observe_fault hexp hfaulted]
    rfl
  · rw [observe_steady (hexp.trans hfaulted.symm)]
    exact (UInt32.add_zero _).symm

/-- The counter counts the faults, modulo its width. -/
theorem checks_episodes (state : LivenessState) (os : List Observation) :
    (checks state os).2.episodes =
      state.episodes + UInt32.ofNat ((checks state os).1.count .kFault) := by
  induction os generalizing state with
  | nil => exact (UInt32.add_zero _).symm
  | cons o os ih =>
    calc (checks state (o :: os)).2.episodes
        = (checks (observe state o).2 os).2.episodes := rfl
      _ = state.episodes + UInt32.ofNat ((check state o).1.count .kFault) +
            UInt32.ofNat ((checks (observe state o).2 os).1.count .kFault) := by
          rw [ih, count_check]
      _ = state.episodes + UInt32.ofNat
            (((check state o).1 ++ (checks (observe state o).2 os).1).count .kFault) := by
          rw [List.count_append, UInt32.ofNat_add, UInt32.add_assoc]

/-- `started` is the memory of a nonzero beat. -/
theorem checks_started (state : LivenessState) (os : List Observation) :
    (checks state os).2.started = true ↔
      state.started = true ∨ ∃ o ∈ os, o.lastBeatMs ≠ 0 := by
  induction os generalizing state with
  | nil => simp [checks, transduce]
  | cons o os ih =>
    rw [checks_cons, ih, observe_started, startedBy]
    by_cases hbeat : o.lastBeatMs = 0 <;> simp [hbeat]

/-- The edges emitted over any checks alternate and begin with a fault, the counter has
counted the faults as far as 32 bits can, and a fault is emitted only of a started,
running thread out of its wait whose last beat is older than the timeout, also where the
clock has wrapped since the beat. -/
theorem liveness_edges (os : List Observation) :
    ((checks {} os).1.IsChain (· ≠ ·) ∧ (∀ e ∈ (checks {} os).1.head?, e = .kFault)) ∧
    (checks {} os).2.episodes.toNat = (checks {} os).1.count .kFault % 2 ^ 32 ∧
    ∀ before o after, os = before ++ o :: after →
      (observe (checks {} before).2 o).1.edge = .kFault →
      o.running = true ∧ o.parked = false ∧ (∃ b ∈ before ++ [o], b.lastBeatMs ≠ 0) ∧
      o.timeoutMs < o.nowMs - o.lastBeatMs ∧
      ∀ beat now : Nat, o.lastBeatMs = UInt32.ofNat beat → o.nowMs = UInt32.ofNat now →
        beat ≤ now → beat + o.timeoutMs.toNat < now := by
  have hedges := checks_edges {} os
  refine ⟨⟨?_, ?_⟩, ?_, ?_⟩
  · rw [hedges, List.isChain_map]
    apply (Latch.isChain_edges _ _).imp
    intro a b hne heq
    exact hne (LivenessEdge.ofReport_injective heq)
  · intro e he
    rw [hedges, List.head?_map] at he
    obtain ⟨report, hreport, rfl⟩ := Option.mem_map.mp he
    have hne := Latch.head_edges _ _ report hreport
    rw [Bool.eq_not_of_ne hne]
    rfl
  · rw [checks_episodes, UInt32.zero_add, Wrap.toNat_ofNat]
  · intro before o after _ hfault
    have hexp := expired_of_fault hfault
    unfold expired at hexp
    simp only [Bool.and_eq_true, Bool.not_eq_true', decide_eq_true_eq] at hexp
    obtain ⟨⟨⟨hrunning, hstarted⟩, hparked⟩, helapsed⟩ := hexp
    refine ⟨hrunning, hparked, ?_, helapsed, ?_⟩
    · by_cases hbeat : o.lastBeatMs = 0
      · rw [startedBy, if_neg (not_not.mpr hbeat), checks_started] at hstarted
        obtain ⟨b, hmem, hne⟩ := hstarted.resolve_left Bool.false_ne_true
        exact ⟨b, List.mem_append_left _ hmem, hne⟩
      · exact ⟨o, List.mem_append_right _ (List.mem_singleton_self o), hbeat⟩
    · intro beat now hb hn hle
      by_contra hlate
      have hwidth := o.timeoutMs.toNat_lt
      have hsub := Wrap.toNat_sub hle (show now < beat + 2 ^ 32 by omega)
      rw [hb, hn, UInt32.lt_iff_toNat_lt, hsub] at helapsed
      omega

/-- A check that finds a thread wedged, and one that finds it beating. -/
def wedgedCheck : Observation := ⟨1, 3000, 1000, true, false⟩

def beatingCheck : Observation := ⟨3000, 3000, 1000, true, false⟩

/-- A thread that is found wedged `n` times and beating after each. -/
def episodesOf : Nat → List Observation
  | 0 => []
  | n + 1 => wedgedCheck :: beatingCheck :: episodesOf n

theorem count_episodesOf (n : Nat) (state : LivenessState) (hstate : state.faulted = false) :
    (checks state (episodesOf n)).1.count .kFault = n := by
  induction n generalizing state with
  | zero => rfl
  | succ n ih =>
    have hwedged : expired state wedgedCheck = true := rfl
    have hfault := observe_fault hwedged hstate
    have hcleared : (observe (observe state wedgedCheck).2 beatingCheck).2.faulted = false :=
      observe_faulted _ _
    have hfirst : (check state wedgedCheck).1 = [.kFault] := by
      unfold check
      rw [hfault]
      rfl
    have hsecond : (check (observe state wedgedCheck).2 beatingCheck).1 = [.kRecovery] := by
      have hheld : (observe state wedgedCheck).2.faulted = true := observe_faulted _ _
      unfold check
      rw [observe_recovery rfl hheld]
      rfl
    have hrest := ih _ hcleared
    rw [episodesOf, checks_cons, checks_cons, hfirst, hsecond, List.count_append,
      List.count_append, hrest, List.count_singleton_self, List.count_eq_zero.mpr (by decide)]
    omega

/-- After `2 ^ 32` episodes the counter is back at zero. -/
theorem liveness_counter_wraps :
    ¬ ∀ os : List Observation,
      (checks {} os).2.episodes.toNat = (checks {} os).1.count .kFault := by
  intro h
  obtain ⟨n, hn⟩ : ∃ n, n = 2 ^ 32 := ⟨_, rfl⟩
  have hcount := count_episodesOf n {} rfl
  have hcounter := h (episodesOf n)
  rw [checks_episodes, hcount, UInt32.zero_add, Wrap.toNat_ofNat, hn, Nat.mod_self] at hcounter
  exact absurd hcounter (by decide)

end Xcom.Runtime
