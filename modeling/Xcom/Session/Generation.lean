import Xcom.Session.Cases

/-!
# Generations of published snapshots

The generation is written by two commits from two counters: an open commit sets it
from `open_generation`, a close commit adds one to it.
-/

namespace Xcom

open DispOp

namespace World

/-- The `(port_state, generation)` snapshots the owner has published, newest first. -/
def snapshots (w : World) : List (PortState × UInt32) :=
  w.trace.filterMap fun
    | .published state generation _ => some (state, generation)
    | _ => none

/-- The Dispatcher is about to run `op`. -/
def AtOp (w : World) (op : DispOp) : Prop := w.agenda.head? = some op

instance (w : World) (op : DispOp) : Decidable (w.AtOp op) :=
  inferInstanceAs (Decidable (_ = _))

end World

/-- Every OPEN is published with a generation above all published before it. -/
def OpenFresh (ps : List (PortState × UInt32)) : Prop :=
  ps.Pairwise fun later earlier => later.1 = .portOpen → earlier.2 < later.2

instance (ps : List (PortState × UInt32)) : Decidable (OpenFresh ps) :=
  inferInstanceAs (Decidable (List.Pairwise _ _))

/-- An open commit finds the generation where the last open commit left it, and
neither counter wraps. -/
def OpensBeforeAnyClose (w : World) : Label → Prop
  | .disp _ =>
    (w.AtOp .commitOpen →
      w.core.generation = w.core.openGeneration ∧ w.core.openGeneration.toNat + 1 < 2 ^ 32) ∧
    (w.AtOp .commitClose → w.core.generation.toNat + 1 < 2 ^ 32)
  | _ => True

instance : ∀ w l, Decidable (OpensBeforeAnyClose w l)
  | _, .disp _ => inferInstanceAs (Decidable (_ ∧ _))
  | _, .abi _ => inferInstanceAs (Decidable True)
  | _, .reader _ => inferInstanceAs (Decidable True)
  | _, .writer _ => inferInstanceAs (Decidable True)

/-- The agendas between an open commit and the OPEN it publishes. -/
def Committed (a : List DispOp) : Prop :=
  a = [resetDisplay, publish .portOpen] ∨ a = [publish .portOpen]

/-- What keeps a published OPEN fresh. -/
structure GenInv (w : World) : Prop where
  bound : ∀ p ∈ w.snapshots, p.2.toNat ≤ w.core.generation.toNat
  counters : w.core.openGeneration.toNat ≤ w.core.generation.toNat
  committed : Committed w.agenda → ∀ p ∈ w.snapshots, p.2.toNat < w.core.generation.toNat
  fresh : OpenFresh w.snapshots

theorem AbiStep.generation {w w' : World} (h : AbiStep w w') :
    w'.core.generation = w.core.generation ∧
      w'.core.openGeneration = w.core.openGeneration ∧ w'.snapshots = w.snapshots := by
  cases h <;> exact ⟨rfl, rfl, rfl⟩

theorem ReaderStep.generation {w w' : World} (h : ReaderStep w w') :
    w'.core.generation = w.core.generation ∧
      w'.core.openGeneration = w.core.openGeneration ∧ w'.snapshots = w.snapshots := by
  cases h <;> exact ⟨rfl, rfl, rfl⟩

theorem WriterStep.generation {w w' : World} (h : WriterStep w w') :
    w'.core.generation = w.core.generation ∧
      w'.core.openGeneration = w.core.openGeneration ∧ w'.snapshots = w.snapshots := by
  cases h <;> exact ⟨rfl, rfl, rfl⟩

theorem GenInv.frame {w w' : World} (h : GenInv w)
    (hg : w'.core.generation = w.core.generation ∧
      w'.core.openGeneration = w.core.openGeneration ∧ w'.snapshots = w.snapshots)
    (ha : Committed w'.agenda → Committed w.agenda) : GenInv w' := by
  obtain ⟨hgen, hopen, hsnap⟩ := hg
  exact
    { bound := by rw [hsnap, hgen]; exact h.bound
      counters := by rw [hgen, hopen]; exact h.counters
      committed := fun hc => by rw [hsnap, hgen]; exact h.committed (ha hc)
      fresh := by rw [hsnap]; exact h.fresh }

/-- Publishing any state but OPEN, or OPEN right after its commit. -/
theorem GenInv.publish {w : World} {state : PortState} {a : List DispOp} (h : GenInv w)
    (hopen : state = .portOpen → Committed w.agenda) (ha : ¬ Committed a) :
    GenInv { w.serialPublish state with agenda := a } where
  bound := by
    intro p hp
    rcases List.mem_cons.mp hp with rfl | hp
    · exact le_refl _
    · exact h.bound p hp
  counters := h.counters
  committed := fun hc => absurd hc ha
  fresh := by
    refine List.Pairwise.cons (fun p hp hstate => ?_) h.fresh
    exact UInt32.lt_iff_toNat_lt.mpr (h.committed (hopen hstate) p hp)

theorem AfterClose.not_committed {s : PortState} {r : List DispOp} (h : AfterClose s r) :
    ¬ Committed r := by
  cases h <;> simp [Committed]

theorem genInv_ownerStep {w w' : World} {l : DispLabel} (h : GenInv w)
    (hc : OpensBeforeAnyClose w (.disp l)) (hstep : OwnerStep w w') : GenInv w' := by
  cases hstep with
  | openEdge ha hs => exact h.publish (by simp) (by simp [Committed])
  | cancel ha hs => exact h.publish (by simp) (by simp [Committed])
  | commitOpen ha hs =>
    obtain ⟨heq, hmax⟩ := hc.1 (by simp [World.AtOp, ha])
    have hnext : (w.core.openGeneration + 1).toNat = w.core.openGeneration.toNat + 1 := by
      rw [UInt32.toNat_add, UInt32.toNat_one, Nat.mod_eq_of_lt hmax]
    have habove : ∀ p ∈ w.snapshots, p.2.toNat < (w.core.openGeneration + 1).toNat := by
      intro p hp
      have := h.bound p hp
      rw [heq] at this
      omega
    exact
      { bound := fun p hp => (habove p hp).le
        counters := le_refl _
        committed := fun _ => habove
        fresh := h.fresh }
  | resetOpen ha hs => exact h.frame ⟨rfl, rfl, rfl⟩ fun _ => .inl ha
  | publishOpen ha hs => exact h.publish (fun _ => .inr ha) (by simp [Committed])
  | publishOpenFail ha hs => exact h.publish (by simp) (by simp [Committed])
  | publishFault ha hs => exact h.publish (by simp) (by simp [Committed])
  | closeEdge ha hs => exact h.publish (by simp) (by simp [Committed, sinkOwnerClose])
  | commitClose ha hs =>
    have hmax := hc.2 (by simp [World.AtOp, ha])
    have hnext : (w.core.generation + 1).toNat = w.core.generation.toNat + 1 := by
      rw [UInt32.toNat_add, UInt32.toNat_one, Nat.mod_eq_of_lt hmax]
    exact
      { bound := fun p hp => (h.bound p hp).trans (by rw [hnext]; omega)
        counters := h.counters.trans (by rw [hnext]; omega)
        committed := fun hcm => absurd hcm (by simp [Committed])
        fresh := h.fresh }
  | publishClosed ha hs => exact h.publish (by simp) (by simp [Committed])
  | faultOpen r ha hr hs => exact h.publish (by simp) (by simp [Committed, sinkOwnerClose])
  | faultClosing r ha hr hs => exact h.publish (by simp) (by simp [Committed, sinkOwnerClose])
  | faultNoEdge r ha hr hs =>
    refine h.frame ⟨rfl, rfl, rfl⟩ fun hcm => absurd hcm ?_
    rcases hr with rfl | rfl <;> simp [Committed]
  | submitCloseRefused ha hs =>
    exact h.frame ⟨rfl, rfl, rfl⟩ (by simp [Committed, sinkOwnerClose])
  | closeAdmit r hr ha => exact h.frame ⟨rfl, rfl, rfl⟩ fun hcm => absurd hcm hr.not_committed
  | _ => exact h.frame ⟨rfl, rfl, rfl⟩ (by simp [Committed])

theorem actionOf_not_committed (s : PortState) (event : Event) :
    ¬ Committed (actionOf s event) := by
  cases event with
  | sigFault =>
    simp only [actionOf, serialDoFault]
    split <;> simp [Committed]
  | _ => simp [actionOf, serialDoOpen, serialDoClose, Committed]

theorem genInv_reach {w : World}
    (h : Transition.ReachUnder sessionMachine OpensBeforeAnyClose w) : GenInv w := by
  refine h.invariantUsing (q := fun w => Agenda w.serialState w.agenda)
    (fun _ h => agenda_reach h.reach) ?_ ?_
  · exact ⟨by simp [sessionMachine, World.snapshots], by simp [sessionMachine],
      by simp [sessionMachine, Committed], by simp [sessionMachine, World.snapshots, OpenFresh]⟩
  intro w l w' hag hinv hc hstep
  cases l with
  | abi l =>
    have hs := abiStep_cases hstep
    exact hinv.frame hs.generation (by rw [hs.owner.2.1]; exact id)
  | disp l =>
    rcases dispStep_cases hag hstep with h | ⟨i, event, -, -, -, rfl⟩
    · exact genInv_ownerStep hinv hc h
    · exact hinv.frame ⟨rfl, rfl, rfl⟩ fun hcm =>
        absurd hcm (actionOf_not_committed w.serialState event)
  | reader l =>
    have hs := readerStep_cases hstep
    exact hinv.frame hs.generation (by rw [hs.owner.2.1]; exact id)
  | writer l =>
    have hs := writerStep_cases hstep
    exact hinv.frame hs.generation (by rw [hs.owner.2.1]; exact id)

/-- While no session is opened after a close, every OPEN is published with a
generation above every one published before it. -/
theorem open_generation_fresh {w : World}
    (h : Transition.ReachUnder sessionMachine OpensBeforeAnyClose w) : OpenFresh w.snapshots :=
  (genInv_reach h).fresh

/-- The first session of a core is published with a fresh generation. -/
theorem open_generation_fresh_first :
    ∃ w : World, w.snapshots = [(.portOpen, 1), (.portOpening, 0)] ∧ OpenFresh w.snapshots := by
  obtain ⟨w, hw, hsnap⟩ := Transition.exists_of_execUnder (m := sessionMachine)
    (c := OpensBeforeAnyClose)
    (p := fun w => w.snapshots = [(.portOpen, 1), (.portOpening, 0)])
    (openRun someConfig) (by decide +kernel)
  exact ⟨w, hsnap, open_generation_fresh hw⟩

/-- Open, close, open: the second OPEN is published with the generation that the
close and the second OPENING were published with. -/
theorem reopen_generation_not_fresh :
    ∃ w : World, Transition.Reach sessionMachine w ∧ ¬ OpenFresh w.snapshots :=
  Transition.exists_of_execUnder
    (openRun someConfig ++ queueCloseRun.map .abi ++ closeRun ++ [.abi (.poll false)] ++
      openRun someConfig)
    (by decide +kernel)

end Xcom
