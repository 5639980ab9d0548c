import Xcom.Display.Conserved
import Xcom.Display.Ledger

/-!
# The count of pending batches

`display_pending` is kept beside the lane: it grows after a push, shrinks after a drained
batch and after a reset.  It follows the lane as long as no drain drops a batch of another
session, and as long as no drain counts a batch off before it was counted on.
-/

namespace Xcom.Display

open DispOp

/-- A pushed batch the Dispatcher has still to count. -/
def KickPc.uncounted : KickPc → Nat
  | .countPending _ => 1
  | _ => 0

/-- A drained batch the ABI caller has still to count off. -/
def ConsumerPc.uncounted : ConsumerPc → Nat
  | .releaseDrained | .countPending => 1
  | _ => 0

/-- The batches in the display lane with the one the consumer has begun. -/
def Path.batches (p : Path) : Nat := p.ready.length + p.active.isSome.toNat

/-- No batch is counted off before it is counted on: when the ABI caller counts while the
Dispatcher is between its push and its count, the ready ring holds a batch. -/
def Path.CountsInTurn (p : Path) : Prop :=
  p.consumer = .countPending → p.kick.uncounted = 1 → p.ready ≠ []

instance (p : Path) : Decidable p.CountsInTurn := inferInstanceAs (Decidable (_ → _ → _))

/-- The ABI caller drops no batch of another session and counts in turn. -/
def CountsSeen (c : Core) (l : CoreLabel) : Prop :=
  l = .path (.consumer .run) → c.path.DrainsCurrent ∧ c.path.CountsInTurn

instance (c : Core) (l : CoreLabel) : Decidable (CountsSeen c l) :=
  inferInstanceAs (Decidable (_ → _))

/-- Nobody is inside a commit, `rx_kick_action` or a call of the ABI. -/
def Core.Quiescent (c : Core) : Prop :=
  c.world.agenda = [] ∧ c.path.kick = .idle ∧ c.path.consumer = .idle

instance (c : Core) : Decidable c.Quiescent := inferInstanceAs (Decidable (_ ∧ _))

/-- The count is exact whenever nobody moves, and never wraps. -/
def Core.CountsPending (c : Core) : Prop :=
  (c.Quiescent → c.path.displayPending.toNat = c.path.batches) ∧
    c.path.displayPending.toNat ≤ kDisplayBatchCount + 1

/-- How the count lags behind the lane. -/
structure CounterInv (c : Core) : Prop where
  counted : c.path.displayPending.toNat + c.path.kick.uncounted =
    c.path.batches + c.path.consumer.uncounted + c.path.purged.length
  bounded : c.path.batches + c.path.consumer.uncounted + c.path.purged.length ≤
    kDisplayBatchCount + 1
  popping : c.path.consumer.popping = true → c.path.active = none
  purging : c.path.purged ≠ [] → c.world.AtOp resetDisplay
  serialised : c.path.kick ≠ .idle → c.world.agenda = []

theorem CounterInv.not_purging {c : Core} (h : CounterInv c) (ha : c.world.agenda = []) :
    c.path.purged = [] := by
  by_contra hne
  have hat := h.purging hne
  rw [World.AtOp, ha] at hat
  cases hat

theorem countOn {n : UInt32} (h : n.toNat ≤ kDisplayBatchCount) :
    (n + 1).toNat = n.toNat + 1 := by
  rw [UInt32.toNat_add]
  apply Nat.mod_eq_of_lt
  show n.toNat + 1 < 2 ^ 32
  simp only [kDisplayBatchCount] at h
  omega

theorem countOff {n : UInt32} {k : Nat} (h : k ≤ n.toNat) :
    (n - UInt32.ofNat k).toNat = n.toNat - k := by
  have hlt := n.toNat_lt
  have hk : (UInt32.ofNat k).toNat = k := UInt32.toNat_ofNat_of_lt' (by
    show k < 2 ^ 32
    omega)
  rw [UInt32.toNat_sub_of_le, hk]
  rw [UInt32.le_iff_toNat_le, hk]
  exact h

/-- The batches and the hands of the path add up to the buffers of the lane. -/
theorem Occupies.total {p : Path} {s : DisplayLane} (hs : LaneInv s) (h : Occupies p s) :
    p.free + p.batches + p.kick.batches + p.consumer.batches ≤ kDisplayBatchCount := by
  have hlength := hs.conserved.length
  have hready : s.ready.length = p.ready.length := by rw [← h.ready, List.length_map]
  have hactive : s.active.toList.length = p.active.isSome.toNat := by
    rw [← h.active]
    cases s.active <;> rfl
  have hdrain : p.consumer.batches ≤ s.drain.held.length := by
    have hstands := h.drain
    cases hd : s.drain <;> rw [hd] at hstands
    case idle => cases hpc : p.consumer <;> simp_all [DrainPc.Stands, ConsumerPc.draining,
      ConsumerPc.batches]
    all_goals
      rw [show p.consumer = _ from hstands]
      simp [ConsumerPc.batches, DrainPc.held]
  simp only [DisplayLane.held, List.length_append, List.length_map] at hlength
  rw [Path.batches, ← h.free, ← h.hand]
  omega

theorem KickStep.counter {env : Env} {c : Core} {p : Path} {l : KickLabel}
    (h : KickStep env c.path l p) (ha : c.world.agenda = [])
    (hocc : ∃ s, LaneInv s ∧ Occupies c.path s) (hinv : CounterInv c) :
    CounterInv ⟨c.world, p⟩ := by
  have hcounted := hinv.counted
  have hbounded := hinv.bounded
  have hpurged := hinv.not_purging ha
  obtain ⟨s, hs, hocc⟩ := hocc
  have htotal := hocc.total hs
  obtain ⟨hconsumer, hactive, hpur, -⟩ := h.others
  have hpop : p.consumer.popping = true → p.active = none := by
    rw [hconsumer, hactive]
    exact hinv.popping
  have hreset : p.purged ≠ [] → c.world.AtOp resetDisplay := by
    rw [hpur]
    exact hinv.purging
  cases h with
  | push n d text hpc hr =>
    have hfresh : c.path.batches + 1 ≤ kDisplayBatchCount := by
      rw [hpc] at htotal
      simp only [KickPc.batches] at htotal
      omega
    have howed : c.path.consumer.uncounted ≤ 1 := by
      cases c.path.consumer <;> simp [ConsumerPc.uncounted]
    refine ⟨?_, ?_, hpop, hreset, fun _ => ha⟩
    · simp only [hpc, hpurged, KickPc.uncounted, Path.batches, List.length_append,
        List.length_singleton, List.length_nil] at hcounted ⊢
      omega
    · simp only [hpurged, Path.batches, List.length_append, List.length_singleton,
        List.length_nil] at hfresh ⊢
      omega
  | countPending n hpc =>
    rw [hpc] at hcounted
    simp only [KickPc.uncounted] at hcounted
    have hadd := countOn (n := c.path.displayPending) (by omega)
    refine ⟨?_, hbounded, hpop, hreset, fun _ => ha⟩
    show (c.path.displayPending + 1).toNat + 0 = _
    rw [hadd]
    exact hcounted
  | _ =>
    refine ⟨?_, hbounded, hpop, hreset, fun _ => ha⟩
    simp_all [KickPc.uncounted, Path.batches]

theorem ConsumerStep.counter {env : Env} {c : Core} {p : Path} {l : ConsumerLabel}
    (h : ConsumerStep env c.path l p) (hc : CountsSeen c (.path (.consumer l)))
    (hinv : CounterInv c) : CounterInv ⟨c.world, p⟩ := by
  have hcounted := hinv.counted
  have hbounded := hinv.bounded
  have hpop := h.popping hinv.popping
  have hsame : p.kick = c.path.kick ∧ p.purged = c.path.purged := by
    cases h <;> exact ⟨rfl, rfl⟩
  have hreset : p.purged ≠ [] → c.world.AtOp resetDisplay := by
    rw [hsame.2]
    exact hinv.purging
  have hserial : p.kick ≠ .idle → c.world.agenda = [] := by
    rw [hsame.1]
    exact hinv.serialised
  cases h with
  | dropActive capacity g b offset hpc ha hg =>
    have hcur := (hc rfl).1
    rw [Path.DrainsCurrent, hpc, ha] at hcur
    exact absurd (hcur (b, offset) rfl) hg
  | popStale capacity g b ready hpc hr hg =>
    have hcur := (hc rfl).1
    rw [Path.DrainsCurrent, hpc, hr] at hcur
    exact absurd (hcur b rfl) hg
  | popReady capacity g b ready hpc hr hg =>
    have hnone := hinv.popping (by rw [hpc]; rfl)
    refine ⟨?_, ?_, hpop, hreset, hserial⟩
    · simp only [Path.batches, hpc, hr, hnone, ConsumerPc.uncounted, List.length_cons,
        Option.isSome_none, Option.isSome_some, Bool.toNat_false, Bool.toNat_true] at hcounted ⊢
      omega
    · simp only [Path.batches, hpc, hr, hnone, ConsumerPc.uncounted, List.length_cons,
        Option.isSome_none, Option.isSome_some, Bool.toNat_false, Bool.toNat_true] at hbounded ⊢
      omega
  | copyLast capacity g b offset chunk hpc ha =>
    refine ⟨?_, ?_, hpop, hreset, hserial⟩
    · simp only [Path.batches, hpc, ha, ConsumerPc.uncounted, Option.isSome_none,
        Option.isSome_some, Bool.toNat_false, Bool.toNat_true] at hcounted ⊢
      omega
    · simp only [Path.batches, hpc, ha, ConsumerPc.uncounted, Option.isSome_none,
        Option.isSome_some, Bool.toNat_false, Bool.toNat_true] at hbounded ⊢
      omega
  | countPending hpc =>
    have hturn := (hc rfl).2 hpc
    rw [hpc] at hcounted hbounded
    simp only [ConsumerPc.uncounted] at hcounted hbounded
    have hpos : 1 ≤ c.path.displayPending.toNat := by
      by_cases hk : c.path.kick.uncounted = 1
      · have hready := List.length_pos_of_ne_nil (hturn hk)
        simp only [Path.batches] at hcounted
        omega
      · have hzero : c.path.kick.uncounted = 0 := by
          cases hkick : c.path.kick <;> simp_all [KickPc.uncounted]
        omega
    have hsub := countOff hpos
    refine ⟨?_, ?_, hpop, hreset, hserial⟩
    · show (c.path.displayPending - 1).toNat + c.path.kick.uncounted =
        c.path.batches + 0 + c.path.purged.length
      rw [show (1 : UInt32) = UInt32.ofNat 1 from rfl, hsub]
      omega
    · show c.path.batches + 0 + c.path.purged.length ≤ _
      omega
  | storePause o resume hpc =>
    refine ⟨?_, ?_, hpop, hreset, hserial⟩ <;> cases resume <;>
      simp_all [ConsumerPc.uncounted, Path.batches]
  | returned => exact hinv
  | _ =>
    refine ⟨?_, ?_, hpop, hreset, hserial⟩ <;> simp_all [ConsumerPc.uncounted, Path.batches]

/-- Nothing but the Dispatcher changes its action, and it does so with `rx_kick_action` idle. -/
theorem CounterInv.still_serialised {c : Core} {l : Xcom.Label} {world : World}
    (hinv : CounterInv c) (hocc : c.occupied l = false) (hmove : c.world.step l = some world)
    (hk : c.path.kick ≠ .idle) : world.agenda = [] := by
  rw [← hinv.serialised hk]
  apply step_agenda hmove
  rintro d rfl
  simp [Core.occupied, hk] at hocc

theorem OwnerEffect.counter {c : Core} {l : Xcom.Label} {path : Path} {world : World}
    (h : OwnerEffect c l path) (hocc : c.occupied l = false) (hmove : c.world.step l = some world)
    (hinv : CounterInv c) : CounterInv ⟨world, path⟩ := by
  have hserial := hinv.still_serialised hocc hmove
  cases h with
  | none hreset =>
    exact ⟨hinv.counted, hinv.bounded, hinv.popping,
      fun hp => step_atReset hmove (hinv.purging hp) (hreset (hinv.purging hp)), hserial⟩
  | releaseDeferred ha =>
    have hcounts : c.path.releaseDeferred.displayPending = c.path.displayPending ∧
        c.path.releaseDeferred.ready = c.path.ready := by
      unfold Path.releaseDeferred
      split
      · exact ⟨rfl, rfl⟩
      · split <;> exact ⟨rfl, rfl⟩
    obtain ⟨hpending, hready⟩ := hcounts
    obtain ⟨hconsumer, hactive, hpur, -, hkick, -⟩ := releaseDeferred_others c.path
    refine ⟨?_, ?_, ?_, fun hp => ?_, ?_⟩
    · simp only [Path.batches, hpending, hready, hconsumer, hactive, hpur, hkick]
      exact hinv.counted
    · simp only [Path.batches, hready, hconsumer, hactive, hpur]
      exact hinv.bounded
    · simp only [hconsumer, hactive]
      exact hinv.popping
    · have hreset := hinv.purging (hpur ▸ hp)
      rw [World.AtOp, ha] at hreset
      cases hreset
    · rw [hkick]
      exact hserial
  | commitReset ha hr =>
    have hcounted := hinv.counted
    have hidle : c.path.kick = .idle := by
      by_contra hne
      rw [World.AtOp, hinv.serialised hne] at ha
      cases ha
    have hle : c.path.purged.length ≤ c.path.displayPending.toNat := by
      simp only [hidle, KickPc.uncounted] at hcounted
      omega
    have hsub := countOff hle
    refine ⟨?_, ?_, hinv.popping, fun hp => absurd rfl hp, hserial⟩
    · show (c.path.displayPending - UInt32.ofNat c.path.purged.length).toNat +
        c.path.kick.uncounted = c.path.batches + c.path.consumer.uncounted + 0
      rw [hsub]
      omega
    · have hbounded := hinv.bounded
      show c.path.batches + c.path.consumer.uncounted + 0 ≤ _
      omega

theorem counterInv_reach {c : Core} (h : Transition.ReachUnder coreMachine CountsSeen c) :
    CounterInv c := by
  apply h.invariantUsing (fun c hc => occupies_reach hc.reach)
  · constructor <;> simp [coreMachine, KickPc.uncounted, ConsumerPc.uncounted, Path.batches,
      ConsumerPc.popping]
  intro c l c' hocc hinv hc hstep
  cases coreStep_cases hstep with
  | session l path world hidle heffect hmove => exact heffect.counter hidle hmove hinv
  | purge b ready ha hr =>
    have hcounted := hinv.counted
    have hbounded := hinv.bounded
    refine ⟨?_, ?_, hinv.popping, fun _ => ha, hinv.serialised⟩
    · simp only [Path.batches, hr, List.length_append, List.length_cons, List.length_nil]
        at hcounted ⊢
      omega
    · simp only [Path.batches, hr, List.length_append, List.length_cons, List.length_nil]
        at hbounded ⊢
      omega
  | reader l path hw hmove => cases hmove <;> exact ⟨hinv.counted, hinv.bounded, hinv.popping,
      hinv.purging, hinv.serialised⟩
  | kick l path hw hmove => exact hmove.counter hw hocc hinv
  | consumer l path hw hmove => exact hmove.counter hc hinv

/-- While every drain meets batches of its own session and no batch is counted off before
it is counted on, the count is exact whenever nobody moves, and it never wraps. -/
theorem pending_exact {c : Core} (h : Transition.ReachUnder coreMachine CountsSeen c) :
    c.CountsPending := by
  have hinv := counterInv_reach h
  have hcounted := hinv.counted
  constructor
  · rintro ⟨ha, hkick, hconsumer⟩
    simp only [hkick, hconsumer, hinv.not_purging ha, KickPc.uncounted, ConsumerPc.uncounted,
      List.length_nil] at hcounted
    omega
  · have hbounded := hinv.bounded
    omega

/-- A batch of which one byte is drained still counts. -/
theorem pending_exact_partial :
    ∃ c : Core, c.Quiescent ∧ c.path.ready = [] ∧ c.path.active.isSome ∧
      c.path.displayPending = 1 ∧ c.CountsPending := by
  obtain ⟨c, hc, hq, hr, ha, hp⟩ := Transition.exists_of_execUnder (m := coreMachine)
    (c := CountsSeen) (p := fun c => c.Quiescent ∧ c.path.ready = [] ∧ c.path.active.isSome ∧
      c.path.displayPending = 1)
    (inSession (openRun someConfig) ++ onPath ((ingressRun [0x41, 0x42]).map PathLabel.reader ++
      kickRun ++ (drainRun 1).take 5)) (by decide +kernel)
  exact ⟨c, hq, hr, ha, hp, pending_exact hc⟩

/-- The rest of a batch drained in part is dropped behind a reopen and stays counted.  A
batch drained before it is counted takes the count below zero. -/
theorem pending_miscounted :
    (∃ c : Core, Transition.Reach coreMachine c ∧ c.Quiescent ∧ c.path.ready = [] ∧
      c.path.active = none ∧ ¬ c.CountsPending) ∧
    ∃ c : Core, Transition.Reach coreMachine c ∧ c.path.displayPending = 0xFFFFFFFF ∧
      ¬ c.CountsPending := by
  constructor
  · obtain ⟨c, hc, hq, hr, ha, hp⟩ := Transition.exists_of_execUnder (m := coreMachine)
      (c := fun _ _ => True) (p := fun c => c.Quiescent ∧ c.path.ready = [] ∧
        c.path.active = none ∧ c.path.displayPending = 1)
      (inSession (openRun someConfig) ++ onPath ((ingressRun [0x41, 0x42]).map PathLabel.reader ++
        kickRun ++ (drainRun 1).take 5) ++
        inSession (queueCloseRun.map Label.abi ++ closeRun ++ [Label.abi (.poll false)] ++
          openRun someConfig) ++
        onPath ((drainRun 1).take 4)) (by decide +kernel)
    refine ⟨c, hc, hq, hr, ha, fun hcounts => ?_⟩
    have hexact := hcounts.1 hq
    simp [hp, Path.batches, hr, ha] at hexact
  · obtain ⟨c, hc, hp⟩ := Transition.exists_of_execUnder (m := coreMachine)
      (c := fun _ _ => True) (p := fun c => c.path.displayPending = 0xFFFFFFFF)
      (inSession (openRun someConfig) ++ onPath ((ingressRun [0x41]).map PathLabel.reader ++
        kickRun.take 6 ++ drainRun 16)) (by decide +kernel)
    refine ⟨c, hc, hp, fun hcounts => ?_⟩
    have hbound := hcounts.2
    rw [hp] at hbound
    exact absurd hbound (by decide)

end Xcom.Display
