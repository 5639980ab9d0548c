import Xcom.Transition.Grid
import Xcom.Transition.Machine

/-!
# The periodic timer

`PeriodicTimer`.  The worker keeps an absolute deadline in nanoseconds of the monotonic
clock; a firing that is late, or whose callback is long, moves the deadline over the
periods it has missed and keeps the grid of the start.
-/

namespace Xcom.PeriodicTimer

open Transition

def kNsPerMs : UInt64 := 1000000

/-- `wait_milliseconds`. -/
def waitMilliseconds (remainingNs : UInt64) : UInt32 :=
  let roundedMs := (remainingNs + (kNsPerMs - 1)) / kNsPerMs
  let kMaxWait : UInt64 := 0xFFFFFFFE
  (if roundedMs > kMaxWait then kMaxWait else roundedMs).toUInt32

/-- `start`: the interval the worker runs with.  `ready` stands for the callback, the
wake event, the clock's frequency and the thread, all of which must be there. -/
def start (intervalMs : UInt32) (ready : Bool) : Option UInt64 :=
  if intervalMs = 0 || !ready then none else some (intervalMs.toUInt64 * kNsPerMs)

/-- The deadline behind a firing. -/
def nextDeadline (deadlineNs intervalNs afterCallbackNs : UInt64) : UInt64 :=
  let deadlineNs := deadlineNs + intervalNs
  if deadlineNs ≤ afterCallbackNs then
    let skipped := (afterCallbackNs - deadlineNs) / intervalNs + 1
    deadlineNs + skipped * intervalNs
  else deadlineNs

/-- Where the worker is: at the head of its loop, or in the callback. -/
inductive WorkerPc
  | loop
  | callback
  deriving DecidableEq, Repr

/-- One firing: the reading its deadline was computed from, the deadline and the moment
it happened. -/
structure Firing where
  computedAt : Nat
  deadline : Nat
  firedAt : Nat
  deriving DecidableEq, Repr

/-- The worker and the time.  `timeNs` does not wrap; the worker reads its low 64 bits. -/
structure Worker where
  pc : WorkerPc := .loop
  deadlineNs : UInt64
  timeNs : Nat
  /-- The moment from which the deadline was computed. -/
  computedAt : Nat
  /-- The firings, the latest first. -/
  fired : List Firing := []
  deriving DecidableEq, Repr

/-- A read of the clock after some time: at the head of the loop, however long the wait
before it was, or behind the callback. -/
inductive Reading
  | now (elapsed : Nat)
  | afterCallback (elapsed : Nat)
  deriving DecidableEq, Repr

/-- `monotonic_ns`. -/
def monotonicNs (timeNs : Nat) : UInt64 := UInt64.ofNat timeNs

/-- The start of `run`. -/
def Worker.init (intervalNs : UInt64) (startNs : Nat) : Worker where
  deadlineNs := monotonicNs startNs + intervalNs
  timeNs := startNs
  computedAt := startNs

/-- One iteration of `run`, cut at the callback.  The stop flag ends the run between two
iterations. -/
def Worker.step (intervalNs : UInt64) (w : Worker) : Reading → Option Worker
  | .now elapsed =>
    let timeNs := w.timeNs + elapsed
    match w.pc with
    | .loop =>
      if monotonicNs timeNs < w.deadlineNs then some { w with timeNs := timeNs }
      else some { w with
        pc := .callback
        timeNs := timeNs
        fired := ⟨w.computedAt, w.deadlineNs.toNat, timeNs⟩ :: w.fired }
    | .callback => none
  | .afterCallback elapsed =>
    let timeNs := w.timeNs + elapsed
    match w.pc with
    | .loop => none
    | .callback => some { w with
        pc := .loop
        deadlineNs := nextDeadline w.deadlineNs intervalNs (monotonicNs timeNs)
        timeNs := timeNs
        computedAt := timeNs }

def timerMachine (intervalNs : UInt64) (startNs : Nat) : Machine Worker Reading where
  init := Worker.init intervalNs startNs
  step := Worker.step intervalNs

/-! ## The arithmetic -/

/-- A wait that is not cut off lasts for what remains, and less than a millisecond more. -/
theorem waitMilliseconds_covers {remainingNs : UInt64}
    (hmax : remainingNs.toNat ≤ 0xFFFFFFFE * kNsPerMs.toNat) :
    remainingNs.toNat ≤ (waitMilliseconds remainingNs).toNat * kNsPerMs.toNat ∧
      (waitMilliseconds remainingNs).toNat * kNsPerMs.toNat <
        remainingNs.toNat + kNsPerMs.toNat := by
  have hns : kNsPerMs.toNat = 1000000 := rfl
  have hrounded : ((remainingNs + (kNsPerMs - 1)) / kNsPerMs).toNat =
      (remainingNs.toNat + 999999) / 1000000 := by
    rw [UInt64.toNat_div, UInt64.toNat_add, hns,
      show (kNsPerMs - 1).toNat = 999999 from rfl, Nat.mod_eq_of_lt (by omega)]
  have hcap : ¬ (remainingNs + (kNsPerMs - 1)) / kNsPerMs > 0xFFFFFFFE := by
    rw [gt_iff_lt, UInt64.lt_iff_toNat_lt, hrounded,
      show (0xFFFFFFFE : UInt64).toNat = 0xFFFFFFFE from rfl]
    omega
  have hwait : (waitMilliseconds remainingNs).toNat = (remainingNs.toNat + 999999) / 1000000 := by
    unfold waitMilliseconds
    dsimp only
    rw [if_neg hcap, UInt64.toNat_toUInt32, hrounded, Nat.mod_eq_of_lt (by omega)]
  rw [hwait, hns]
  omega

theorem start_pos {intervalMs : UInt32} {ready : Bool} {intervalNs : UInt64}
    (h : start intervalMs ready = some intervalNs) : 0 < intervalNs.toNat := by
  unfold start at h
  split at h
  · cases h
  · rename_i hguard
    obtain rfl := Option.some.inj h
    have hms : intervalMs.toNat ≠ 0 := by
      intro hzero
      apply hguard
      rw [show intervalMs = 0 from UInt32.toNat_inj.mp hzero]
      rfl
    have hwidth := intervalMs.toNat_lt
    rw [UInt64.toNat_mul, UInt32.toNat_toUInt64, show kNsPerMs.toNat = 1000000 from rfl,
      Nat.mod_eq_of_lt (by omega)]
    omega

theorem toNat_monotonicNs {timeNs : Nat} (h : timeNs < 2 ^ 64) :
    (monotonicNs timeNs).toNat = timeNs :=
  UInt64.toNat_ofNat_of_lt' h

/-- The time is not before a reading of it. -/
theorem monotonicNs_le (timeNs : Nat) : (monotonicNs timeNs).toNat ≤ timeNs := by
  rw [monotonicNs, UInt64.toNat_ofNat']
  exact Nat.mod_le _ _

/-- While the next point fits 64 bits, the skipping ends on it. -/
theorem toNat_nextDeadline {deadlineNs intervalNs : UInt64} {startNs timeNs : Nat}
    (hpos : 0 < intervalNs.toNat)
    (hgrid : ∃ k, deadlineNs.toNat = startNs + k * intervalNs.toNat)
    (hpassed : deadlineNs.toNat ≤ timeNs)
    (hfits : Grid.next startNs intervalNs.toNat timeNs < 2 ^ 64) :
    (nextDeadline deadlineNs intervalNs (monotonicNs timeNs)).toNat =
      Grid.next startNs intervalNs.toNat timeNs := by
  have hskip := Grid.skip_eq_next hpos hgrid hpassed
  have hstart : startNs ≤ timeNs := by
    obtain ⟨k, hk⟩ := hgrid
    omega
  have htime : timeNs < 2 ^ 64 := (Grid.lt_next hpos hstart).trans hfits
  have hreading := toNat_monotonicNs htime
  by_cases hmissed : deadlineNs.toNat + intervalNs.toNat ≤ timeNs
  · rw [if_pos hmissed] at hskip
    have hsum : (deadlineNs + intervalNs).toNat = deadlineNs.toNat + intervalNs.toNat := by
      rw [UInt64.toNat_add, Nat.mod_eq_of_lt (by omega)]
    have hle : deadlineNs + intervalNs ≤ monotonicNs timeNs := by
      rw [UInt64.le_iff_toNat_le, hsum, hreading]
      exact hmissed
    have hgap : (monotonicNs timeNs - (deadlineNs + intervalNs)).toNat =
        timeNs - (deadlineNs.toNat + intervalNs.toNat) := by
      rw [UInt64.toNat_sub_of_le _ _ hle, hsum, hreading]
    have hskipped : ((monotonicNs timeNs - (deadlineNs + intervalNs)) / intervalNs + 1).toNat =
        ((timeNs - (deadlineNs.toNat + intervalNs.toNat)) / intervalNs.toNat + 1) % 2 ^ 64 := by
      rw [UInt64.toNat_add, UInt64.toNat_div, hgap]
      rfl
    unfold nextDeadline
    dsimp only
    rw [if_pos hle, UInt64.toNat_add, UInt64.toNat_mul, hskipped, hsum, Nat.mod_mul_mod,
      Nat.add_mod_mod, hskip, Nat.mod_eq_of_lt hfits]
  · rw [if_neg hmissed] at hskip
    have hsum : (deadlineNs + intervalNs).toNat = deadlineNs.toNat + intervalNs.toNat := by
      rw [UInt64.toNat_add, Nat.mod_eq_of_lt (by omega)]
    have hgt : ¬ deadlineNs + intervalNs ≤ monotonicNs timeNs := by
      rw [UInt64.le_iff_toNat_le, hsum, hreading]
      exact hmissed
    unfold nextDeadline
    dsimp only
    rw [if_neg hgt, hsum, hskip]

/-! ## The run -/

/-- The deadline is the next point of the grid behind the moment it was computed, and so
were those of the firings; no firing came before its own, and none before the time had
passed the one before it. -/
structure Worker.OnGrid (intervalNs : UInt64) (startNs : Nat) (w : Worker) : Prop where
  deadline : IsLeast (Grid.Behind startNs intervalNs.toNat w.computedAt) w.deadlineNs.toNat
  point : ∀ f ∈ w.fired,
    IsLeast (Grid.Behind startNs intervalNs.toNat f.computedAt) f.deadline
  notEarly : ∀ f ∈ w.fired, f.deadline ≤ f.firedAt
  once : w.fired.Pairwise fun later earlier => earlier.firedAt < later.deadline

/-- The next point of the grid behind a callback fits the worker's 64 bits. -/
def Fits (intervalNs : UInt64) (startNs : Nat) (w : Worker) : Reading → Prop
  | .now _ => True
  | .afterCallback elapsed =>
    Grid.next startNs intervalNs.toNat (w.timeNs + elapsed) < 2 ^ 64

instance (intervalNs : UInt64) (startNs : Nat) (w : Worker) (r : Reading) :
    Decidable (Fits intervalNs startNs w r) := by
  cases r <;> unfold Fits <;> infer_instance

/-- Where the times stand towards each other. -/
structure Worker.Timed (intervalNs : UInt64) (startNs : Nat) (w : Worker) : Prop where
  started : startNs ≤ w.computedAt
  computed : w.computedAt ≤ w.timeNs
  fired : ∀ f ∈ w.fired, f.firedAt ≤ w.timeNs
  behindCallback : w.pc = .loop → ∀ f ∈ w.fired, f.firedAt ≤ w.computedAt
  inCallback : w.pc = .callback → w.deadlineNs.toNat ≤ w.timeNs

section Run

variable {intervalNs : UInt64} {startNs : Nat}

theorem init_inv (hpos : 0 < intervalNs.toNat) (hstart : startNs + intervalNs.toNat < 2 ^ 64) :
    (Worker.init intervalNs startNs).Timed intervalNs startNs ∧
      (Worker.init intervalNs startNs).OnGrid intervalNs startNs := by
  have hreading := toNat_monotonicNs (show startNs < 2 ^ 64 by omega)
  have hfirst : (Worker.init intervalNs startNs).deadlineNs.toNat =
      Grid.next startNs intervalNs.toNat startNs := by
    change (monotonicNs startNs + intervalNs).toNat = _
    rw [UInt64.toNat_add, hreading, Nat.mod_eq_of_lt hstart, Grid.next_start]
  constructor
  · constructor
    · exact le_refl _
    · exact le_refl _
    · intro f hf
      cases hf
    · intro _ f hf
      cases hf
    · intro hpc
      cases hpc
  · constructor
    · rw [hfirst]
      exact Grid.isLeast_next hpos (le_refl _)
    · intro f hf
      cases hf
    · intro f hf
      cases hf
    · exact .nil

/-- Time passes: the worker waits, or its deadline has come and it fires. -/
theorem now_inv {w w' : Worker} {elapsed : Nat} (htimed : w.Timed intervalNs startNs)
    (hgrid : w.OnGrid intervalNs startNs) (h : w.step intervalNs (.now elapsed) = some w') :
    w'.Timed intervalNs startNs ∧ w'.OnGrid intervalNs startNs := by
  unfold Worker.step at h
  cases hpc : w.pc with
  | callback =>
    rw [hpc] at h
    cases h
  | loop =>
    rw [hpc] at h
    dsimp only at h
    have hcomputed := htimed.computed
    have hlater : ∀ f ∈ w.fired, f.firedAt ≤ w.timeNs + elapsed := by
      intro f hf
      exact (htimed.fired f hf).trans (Nat.le_add_right _ _)
    by_cases hwait : monotonicNs (w.timeNs + elapsed) < w.deadlineNs
    · rw [if_pos hwait] at h
      obtain rfl := Option.some.inj h
      constructor
      · refine ⟨htimed.started, hcomputed.trans (Nat.le_add_right _ _), hlater,
          fun _ => htimed.behindCallback hpc, ?_⟩
        intro hcallback
        cases hcallback
      · exact ⟨hgrid.deadline, hgrid.point, hgrid.notEarly, hgrid.once⟩
    · rw [if_neg hwait] at h
      obtain rfl := Option.some.inj h
      have hcome : w.deadlineNs.toNat ≤ w.timeNs + elapsed := by
        rw [UInt64.not_lt, UInt64.le_iff_toNat_le] at hwait
        exact hwait.trans (monotonicNs_le _)
      constructor
      · refine ⟨htimed.started, hcomputed.trans (Nat.le_add_right _ _), ?_, ?_, fun _ => hcome⟩
        · intro f hf
          rcases List.mem_cons.mp hf with rfl | hf
          · exact le_refl _
          · exact hlater f hf
        · intro hloop
          cases hloop
      · refine ⟨hgrid.deadline, ?_, ?_, ?_⟩
        · intro f hf
          rcases List.mem_cons.mp hf with rfl | hf
          · exact hgrid.deadline
          · exact hgrid.point f hf
        · intro f hf
          rcases List.mem_cons.mp hf with rfl | hf
          · exact hcome
          · exact hgrid.notEarly f hf
        · apply List.Pairwise.cons _ hgrid.once
          intro f hf
          exact (htimed.behindCallback hpc f hf).trans_lt hgrid.deadline.1.1

/-- Behind the callback the deadline is the next point of the grid. -/
theorem afterCallback_inv {w w' : Worker} {elapsed : Nat} (hpos : 0 < intervalNs.toNat)
    (hfits : Fits intervalNs startNs w (.afterCallback elapsed))
    (htimed : w.Timed intervalNs startNs) (hgrid : w.OnGrid intervalNs startNs)
    (h : w.step intervalNs (.afterCallback elapsed) = some w') :
    w'.Timed intervalNs startNs ∧ w'.OnGrid intervalNs startNs := by
  unfold Worker.step at h
  cases hpc : w.pc with
  | loop =>
    rw [hpc] at h
    cases h
  | callback =>
    rw [hpc] at h
    obtain rfl := Option.some.inj h
    have hstarted := htimed.started
    have hcomputed := htimed.computed
    have hpassed := htimed.inCallback hpc
    have hnext := toNat_nextDeadline hpos hgrid.deadline.1.2
      (hpassed.trans (Nat.le_add_right _ elapsed)) hfits
    have hlater : ∀ f ∈ w.fired, f.firedAt ≤ w.timeNs + elapsed := by
      intro f hf
      exact (htimed.fired f hf).trans (Nat.le_add_right _ _)
    constructor
    · refine ⟨?_, le_refl _, hlater, fun _ => hlater, ?_⟩
      · show startNs ≤ w.timeNs + elapsed
        omega
      · intro hcb
        cases hcb
    · refine ⟨?_, hgrid.point, hgrid.notEarly, hgrid.once⟩
      show IsLeast _ (nextDeadline _ _ _).toNat
      rw [hnext]
      exact Grid.isLeast_next hpos (show startNs ≤ w.timeNs + elapsed by omega)

theorem run_inv (hpos : 0 < intervalNs.toNat) (hstart : startNs + intervalNs.toNat < 2 ^ 64)
    {w : Worker}
    (hw : ReachUnder (timerMachine intervalNs startNs) (Fits intervalNs startNs) w) :
    w.Timed intervalNs startNs ∧ w.OnGrid intervalNs startNs := by
  apply hw.invariant
    (p := fun w => Worker.Timed intervalNs startNs w ∧ Worker.OnGrid intervalNs startNs w)
  · exact init_inv hpos hstart
  · rintro w r w' ⟨htimed, hgrid⟩ hfits hstep
    cases r with
    | now elapsed => exact now_inv htimed hgrid hstep
    | afterCallback elapsed => exact afterCallback_inv hpos hfits htimed hgrid hstep

end Run

/-- The timer keeps the grid of its start, as long as the deadlines fit 64 bits. -/
theorem timer_keeps_grid {intervalMs : UInt32} {ready : Bool} {intervalNs : UInt64}
    (hinterval : start intervalMs ready = some intervalNs) {startNs : Nat}
    (hstart : startNs + intervalNs.toNat < 2 ^ 64) {w : Worker}
    (hw : ReachUnder (timerMachine intervalNs startNs) (Fits intervalNs startNs) w) :
    w.OnGrid intervalNs startNs :=
  (run_inv (start_pos hinterval) hstart hw).2

/-- A wait that ends late, a callback longer than two periods, and the firing behind it. -/
def lateRun : List Reading :=
  [.now 3000000, .now 3000000, .afterCallback 11000000, .now 1000000, .now 2000000]

theorem timer_keeps_grid_late :
    ∃ w : Worker, ReachUnder (timerMachine 5000000 7) (Fits 5000000 7) w ∧
      w.fired.map Firing.deadline = [20000007, 5000007] ∧ w.OnGrid 5000000 7 := by
  obtain ⟨w, hw, hfired⟩ := exists_of_execUnder (m := timerMachine 5000000 7)
    (c := Fits 5000000 7) (p := fun w => w.fired.map Firing.deadline = [20000007, 5000007])
    lateRun (by decide +kernel)
  have hinterval : start 5 true = some 5000000 := rfl
  exact ⟨w, hw, hfired, timer_keeps_grid hinterval (by decide) hw⟩

/-- At the end of the clock the first deadline wraps and the timer fires at once. -/
theorem timer_leaves_grid :
    ¬ ∀ (intervalMs : UInt32) (ready : Bool) (intervalNs : UInt64),
      start intervalMs ready = some intervalNs → ∀ (startNs : Nat) (w : Worker),
        Reach (timerMachine intervalNs startNs) w → w.OnGrid intervalNs startNs := by
  intro h
  obtain ⟨w, hw, hfired⟩ := exists_of_execUnder (m := timerMachine 5000000 (2 ^ 64 - 1))
    (c := fun _ _ => True) (p := fun w => w.fired = [⟨2 ^ 64 - 1, 4999999, 2 ^ 64 - 1⟩])
    [.now 0] (by decide +kernel)
  have hpoint := (h 5 true 5000000 rfl (2 ^ 64 - 1) w hw).point _
    (hfired ▸ List.mem_singleton_self _)
  exact absurd hpoint.1.1 (by decide)

end Xcom.PeriodicTimer
