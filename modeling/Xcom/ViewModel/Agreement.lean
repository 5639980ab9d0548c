import Xcom.Session.Generation
import Xcom.ViewModel.Mirror

/-!
# The mirror and the core

The snapshots the owner publishes, sampled by the view-model.
-/

namespace Xcom

open DispOp ViewModel

/-- The published snapshots as the poller reads them, oldest first. -/
def World.published (w : World) : List Snapshot :=
  (w.snapshots.map fun p => (p.1, p.2.toNat)).reverse

/-- Any sample that contains the last snapshot leaves the mirror showing it; and a
poller that has just sampled an OPEN shows it, outside the grace window. -/
def MirrorFollows (published : List Snapshot) : Prop :=
  (∀ (sample : List Snapshot) (last : Snapshot), sample.Sublist published →
    published.getLast? = some last → sample.getLast? = some last →
    (Hsm.feed {} sample).effective = coreToUi last.1 ∧
      (Hsm.feed {} sample).generation = last.2) ∧
  ∀ (polls : List (Snapshot × Bool)) (last : Snapshot × Bool),
    (polls.map Prod.fst).Sublist published → polls.getLast? = some last →
    last.1.1 = .portOpen →
    (Ui.pollAll {} polls).hsm.Shows last.1 ∧ (Ui.pollAll {} polls).deadline = false

/-- At most one close commit since the last open commit when an open commits, none
when a refused cancel handoff publishes FAULT, and no counter wraps. -/
def SteadyCommits (w : World) : Label → Prop
  | .disp _ =>
    (w.AtOp .commitOpen →
      w.core.generation.toNat ≤ w.core.openGeneration.toNat + 1 ∧
        w.core.openGeneration.toNat + 1 < 2 ^ 32) ∧
    (w.AtOp .commitClose → w.core.generation.toNat + 1 < 2 ^ 32) ∧
    (w.AtOp (.publish .portFault) → w.core.generation = w.core.openGeneration)
  | _ => True

instance : ∀ w l, Decidable (SteadyCommits w l)
  | _, .disp _ => inferInstanceAs (Decidable (_ ∧ _ ∧ _))
  | _, .abi _ => inferInstanceAs (Decidable True)
  | _, .reader _ => inferInstanceAs (Decidable True)
  | _, .writer _ => inferInstanceAs (Decidable True)

/-- `Steady`, newest first and with the generations of the core. -/
def SteadySnapshots (ps : List (PortState × UInt32)) : Prop :=
  ps.Pairwise fun later earlier =>
    earlier.2.toNat ≤ later.2.toNat ∧
      (earlier.1 = .portFault → later.1 = .portOpen → earlier.2.toNat < later.2.toNat)

/-- What keeps the published snapshots steady. -/
structure SteadyInv (w : World) : Prop where
  counters : w.core.openGeneration.toNat ≤ w.core.generation.toNat
  inSession : w.serialState = .portOpen ∨ Committed w.agenda →
    w.core.generation = w.core.openGeneration
  bound : ∀ p ∈ w.snapshots, p.2.toNat ≤ w.core.generation.toNat
  faults : ∀ p ∈ w.snapshots, p.1 = .portFault → p.2.toNat ≤ w.core.openGeneration.toNat
  committed : Committed w.agenda →
    ∀ p ∈ w.snapshots, p.1 = .portFault → p.2.toNat < w.core.generation.toNat
  steady : SteadySnapshots w.snapshots

theorem SteadyInv.frame {w w' : World} (h : SteadyInv w)
    (hg : w'.core.generation = w.core.generation ∧
      w'.core.openGeneration = w.core.openGeneration ∧ w'.snapshots = w.snapshots)
    (hs : w'.serialState = w.serialState) (ha : Committed w'.agenda → Committed w.agenda) :
    SteadyInv w' := by
  obtain ⟨hgen, hopen, hsnap⟩ := hg
  exact
    { counters := by rw [hgen, hopen]; exact h.counters
      inSession := by
        rw [hgen, hopen, hs]
        exact fun hor => h.inSession (hor.imp_right ha)
      bound := by rw [hsnap, hgen]; exact h.bound
      faults := by rw [hsnap, hopen]; exact h.faults
      committed := fun hc => by rw [hsnap, hgen]; exact h.committed (ha hc)
      steady := by rw [hsnap]; exact h.steady }

theorem SteadyInv.publish {w : World} {state : PortState} {a : List DispOp}
    (h : SteadyInv w) (hopen : state = .portOpen → Committed w.agenda)
    (hfault : state = .portFault → w.core.generation = w.core.openGeneration)
    (ha : ¬ Committed a) : SteadyInv { w.serialPublish state with agenda := a } where
  counters := h.counters
  inSession := by
    rintro (hst | hc)
    · exact h.inSession (.inr (hopen hst))
    · exact absurd hc ha
  bound := by
    intro p hp
    rcases List.mem_cons.mp hp with rfl | hp
    · exact le_refl _
    · exact h.bound p hp
  faults := by
    intro p hp hst
    rcases List.mem_cons.mp hp with rfl | hp
    · exact (congrArg UInt32.toNat (hfault hst)).le
    · exact h.faults p hp hst
  committed := fun hc => absurd hc ha
  steady := List.Pairwise.cons
    (fun p hp => ⟨h.bound p hp, fun hf hst => h.committed (hopen hst) p hp hf⟩) h.steady

theorem steadyInv_ownerStep {w w' : World} {l : DispLabel} (h : SteadyInv w)
    (hc : SteadyCommits w (.disp l)) (hstep : OwnerStep w w') : SteadyInv w' := by
  cases hstep with
  | openEdge ha hs => exact h.publish (by simp) (by simp) (by simp [Committed])
  | cancel ha hs => exact h.publish (by simp) (by simp) (by simp [Committed])
  | commitOpen ha hs =>
    obtain ⟨hle, hmax⟩ := hc.1 (by simp [World.AtOp, ha])
    have hnext : (w.core.openGeneration + 1).toNat = w.core.openGeneration.toNat + 1 := by
      rw [UInt32.toNat_add, UInt32.toNat_one, Nat.mod_eq_of_lt hmax]
    exact
      { counters := le_refl _
        inSession := fun _ => rfl
        bound := fun p hp => (h.bound p hp).trans (by simp only; rw [hnext]; exact hle)
        faults := fun p hp hf => (h.faults p hp hf).trans (by simp only; rw [hnext]; omega)
        committed := fun _ p hp hf =>
          lt_of_le_of_lt (h.faults p hp hf) (by simp only; rw [hnext]; omega)
        steady := h.steady }
  | resetOpen ha hs => exact h.frame ⟨rfl, rfl, rfl⟩ rfl fun _ => .inl ha
  | publishOpen ha hs => exact h.publish (fun _ => .inr ha) (by simp) (by simp [Committed])
  | publishOpenFail ha hs => exact h.publish (by simp) (by simp) (by simp [Committed])
  | publishFault ha hs =>
    exact h.publish (by simp) (fun _ => hc.2.2 (by simp [World.AtOp, ha]))
      (by simp [Committed])
  | closeEdge ha hs =>
    exact h.publish (by simp) (by simp) (by simp [Committed, sinkOwnerClose])
  | commitClose ha hs =>
    have hmax := hc.2.1 (by simp [World.AtOp, ha])
    have hnext : (w.core.generation + 1).toNat = w.core.generation.toNat + 1 := by
      rw [UInt32.toNat_add, UInt32.toNat_one, Nat.mod_eq_of_lt hmax]
    exact
      { counters := h.counters.trans (by simp only; rw [hnext]; omega)
        inSession := by simp [hs, Committed]
        bound := fun p hp => (h.bound p hp).trans (by simp only; rw [hnext]; omega)
        faults := h.faults
        committed := fun hcm => absurd hcm (by simp [Committed])
        steady := h.steady }
  | publishClosed ha hs => exact h.publish (by simp) (by simp) (by simp [Committed])
  | faultOpen r ha hr hs =>
    exact h.publish (by simp) (fun _ => h.inSession (.inl hs))
      (by simp [Committed, sinkOwnerClose])
  | faultClosing r ha hr hs =>
    exact h.publish (by simp) (by simp) (by simp [Committed, sinkOwnerClose])
  | faultNoEdge r ha hr hs =>
    refine h.frame ⟨rfl, rfl, rfl⟩ rfl fun hcm => absurd hcm ?_
    rcases hr with rfl | rfl <;> simp [Committed]
  | submitCloseRefused ha hs =>
    exact h.frame ⟨rfl, rfl, rfl⟩ rfl (by simp [Committed, sinkOwnerClose])
  | closeAdmit r hr ha =>
    exact h.frame ⟨rfl, rfl, rfl⟩ rfl fun hcm => absurd hcm hr.not_committed
  | _ => exact h.frame ⟨rfl, rfl, rfl⟩ rfl (by simp [Committed])

theorem steadyInv_reach {w : World}
    (h : Transition.ReachUnder sessionMachine SteadyCommits w) : SteadyInv w := by
  refine h.invariantUsing (q := fun w => Agenda w.serialState w.agenda)
    (fun _ h => agenda_reach h.reach) ?_ ?_
  · exact
      { counters := le_refl _
        inSession := by simp [sessionMachine, Committed]
        bound := by simp [sessionMachine, World.snapshots]
        faults := by simp [sessionMachine, World.snapshots]
        committed := by simp [sessionMachine, Committed]
        steady := by simp [sessionMachine, World.snapshots, SteadySnapshots] }
  intro w l w' hag hinv hc hstep
  cases l with
  | abi l =>
    have hs := abiStep_cases hstep
    exact hinv.frame hs.generation hs.owner.1 (by rw [hs.owner.2.1]; exact id)
  | disp l =>
    rcases dispStep_cases hag hstep with h | ⟨i, event, -, -, -, rfl⟩
    · exact steadyInv_ownerStep hinv hc h
    · exact hinv.frame ⟨rfl, rfl, rfl⟩ rfl fun hcm =>
        absurd hcm (actionOf_not_committed w.serialState event)
  | reader l =>
    have hs := readerStep_cases hstep
    exact hinv.frame hs.generation hs.owner.1 (by rw [hs.owner.2.1]; exact id)
  | writer l =>
    have hs := writerStep_cases hstep
    exact hinv.frame hs.generation hs.owner.1 (by rw [hs.owner.2.1]; exact id)

theorem SteadySnapshots.published {w : World} (h : SteadySnapshots w.snapshots) :
    Steady w.published := by
  unfold Steady World.published
  rw [List.pairwise_reverse, List.pairwise_map]
  exact h

theorem mirrorFollows_of_steady {published : List Snapshot} (h : Steady published) :
    MirrorFollows published := by
  constructor
  · intro sample last hsub _ hlast
    have hsteady : sample.Pairwise fun earlier later => earlier.2 ≤ later.2 :=
      (h.sublist hsub).imp fun hab => hab.1
    exact (Hsm.feed_shows hsteady (by decide) (fun s _ => Nat.zero_le _) hlast).2
  · intro polls last hsub hlast hopen
    refine Ui.pollAll_open (h.sublist hsub) ?_ hlast hopen
    exact
      { gen := fun s _ => Nat.zero_le _
        armed := by simp
        window := by simp }

/-- Under `SteadyCommits` the mirror follows the core through every sampling. -/
theorem mirror_follows {w : World}
    (h : Transition.ReachUnder sessionMachine SteadyCommits w) : MirrorFollows w.published :=
  mirrorFollows_of_steady (SteadySnapshots.published (steadyInv_reach h).steady)

/-- The condition is met by a session that faults and is reopened. -/
theorem mirror_follows_recovery :
    ∃ w : World,
      w.published =
        [(.portOpening, 0), (.portOpen, 1), (.portFault, 1), (.portOpening, 1), (.portOpen, 2)] ∧
      MirrorFollows w.published := by
  obtain ⟨w, hw, hpub⟩ := Transition.exists_of_execUnder (m := sessionMachine)
    (c := SteadyCommits)
    (p := fun w => w.published =
      [(.portOpening, 0), (.portOpen, 1), (.portFault, 1), (.portOpening, 1), (.portOpen, 2)])
    (openRun someConfig ++ faultRun ++ openRun someConfig) (by decide +kernel)
  exact ⟨w, hpub, mirror_follows hw⟩

/-- Two opens cancelled by a close leave the generation at 2 and `open_generation`
at 0: the next OPEN is published with generation 1, and the mirror drops it. -/
theorem mirror_drops_reopen :
    ∃ w : World, Transition.Reach sessionMachine w ∧ ¬ MirrorFollows w.published := by
  obtain ⟨w, hw, hpub⟩ := Transition.exists_of_execUnder (m := sessionMachine)
    (c := fun _ _ => True)
    (p := fun w => w.published =
      [(.portOpening, 0), (.portClosing, 0), (.portClosing, 0), (.portClosed, 1),
        (.portOpening, 1), (.portClosing, 1), (.portClosing, 1), (.portClosed, 2),
        (.portOpening, 2), (.portOpen, 1)])
    (cancelledOpenRun someConfig ++ cancelledOpenRun someConfig ++ openRun someConfig)
    (by decide +kernel)
  refine ⟨w, hw, fun h => ?_⟩
  have hshow := (h.1 w.published (.portOpen, 1) (List.Sublist.refl _)
    (by rw [hpub]; rfl) (by rw [hpub]; rfl)).2
  rw [hpub] at hshow
  exact absurd hshow (by decide)

end Xcom
