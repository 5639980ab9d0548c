import Xcom.Display.Wakeup
import Xcom.Session.Boundary
import Xcom.Session.Step

/-!
# The core with its display path

The session machine and the display path as one machine.  The path reads the lifecycle
atomics of the session; the owner acts on the path at the boundaries of a session.
-/

namespace Xcom

open DispOp

namespace World

/-- What the display path reads of a session. -/
def env (w : World) : Display.Env where
  portState := w.core.portState
  callbackAdmission := w.core.callbackAdmission
  generation := w.core.generation
  opens := w.openings

end World

namespace Display

/-- The whole core. -/
structure Core where
  world : World := {}
  path : Path := {}
  deriving DecidableEq, Repr

/-- The party that moves.  `purge` is one turn of the loop of a running reset. -/
inductive CoreLabel
  | session (l : Xcom.Label)
  | purge
  | path (l : PathLabel)
  deriving DecidableEq, Repr

namespace Core

/-- A thread is inside its part of the display path. -/
def occupied (c : Core) : Xcom.Label → Bool
  | .abi _ => c.path.consumer ≠ .idle
  | .disp _ => c.path.kick ≠ .idle
  | .reader _ => c.path.reader ≠ .idle
  | .writer _ => false

/-- A thread of the session is free to enter the display path. -/
def enters (c : Core) : PathLabel → Prop
  | .reader _ => c.world.reader = .running
  | .kick _ => c.world.agenda = []
  | .consumer _ => c.world.abi = .idle

instance (c : Core) : DecidablePred c.enters
  | .reader _ => inferInstanceAs (Decidable (_ = _))
  | .kick _ => inferInstanceAs (Decidable (_ = _))
  | .consumer _ => inferInstanceAs (Decidable (_ = _))

/-- What the next step of an action does to the display path.  A reset ends once it has
found the ready ring empty. -/
def ownerEffect (c : Core) : Xcom.Label → Option Path
  | .disp .run =>
    if c.world.AtOp releaseDeferred then some c.path.releaseDeferred
    else if c.world.AtOp resetDisplay then
      if c.path.ready = [] then some c.path.commitReset else none
    else some c.path
  | _ => some c.path

/-- One step of the core. -/
def step (c : Core) : CoreLabel → Option Core
  | .session l =>
    if c.occupied l then none
    else (c.ownerEffect l).bind fun path => (c.world.step l).map fun world => ⟨world, path⟩
  | .purge =>
    if c.world.AtOp resetDisplay then c.path.purge.map fun path => ⟨c.world, path⟩ else none
  | .path l =>
    if c.enters l then (c.path.step c.world.env l).map fun path => ⟨c.world, path⟩ else none

end Core

/-- The core from `xcom_create` on. -/
def coreMachine : Transition.Machine Core CoreLabel where
  init := {}
  step := Core.step

/-- What the owner does to the display path.  The steps of a reset that is not over are
none of its own. -/
inductive OwnerEffect (c : Core) (l : Xcom.Label) : Path → Prop
  | none (h : c.world.AtOp resetDisplay → l ≠ .disp .run) : OwnerEffect c l c.path
  | releaseDeferred (ha : c.world.AtOp releaseDeferred) :
      OwnerEffect c l c.path.releaseDeferred
  | commitReset (ha : c.world.AtOp resetDisplay) (hr : c.path.ready = []) :
      OwnerEffect c l c.path.commitReset

theorem ownerEffect_cases {c : Core} {l : Xcom.Label} {p : Path}
    (h : c.ownerEffect l = some p) : OwnerEffect c l p := by
  unfold Core.ownerEffect at h
  split at h
  · split at h
    · cases h; exact .releaseDeferred ‹_›
    · split at h
      · split at h
        · cases h; exact .commitReset ‹_› ‹_›
        · cases h
      · cases h; exact .none fun ha => absurd ha ‹_›
  · cases h; exact .none fun _ => ‹_›

/-- What a step of the core does. -/
inductive CoreStep (c : Core) : CoreLabel → Core → Prop
  | session (l : Xcom.Label) (path : Path) (world : World) (ho : c.occupied l = false)
      (heffect : OwnerEffect c l path) (hstep : c.world.step l = some world) :
      CoreStep c (.session l) ⟨world, path⟩
  | purge (b : Batch) (ready : List Batch) (ha : c.world.AtOp resetDisplay)
      (hr : c.path.ready = b :: ready) :
      CoreStep c .purge ⟨c.world, { c.path with
        ready := ready, free := c.path.free + 1, purged := c.path.purged ++ [b] }⟩
  | reader (l : IngressLabel) (path : Path) (hw : c.world.reader = .running)
      (hstep : IngressStep c.world.env c.path l path) :
      CoreStep c (.path (.reader l)) ⟨c.world, path⟩
  | kick (l : KickLabel) (path : Path) (hw : c.world.agenda = [])
      (hstep : KickStep c.world.env c.path l path) :
      CoreStep c (.path (.kick l)) ⟨c.world, path⟩
  | consumer (l : ConsumerLabel) (path : Path) (hw : c.world.abi = .idle)
      (hstep : ConsumerStep c.world.env c.path l path) :
      CoreStep c (.path (.consumer l)) ⟨c.world, path⟩

theorem coreStep_cases {c c' : Core} {l : CoreLabel} (h : c.step l = some c') :
    CoreStep c l c' := by
  cases l with
  | session l =>
    simp only [Core.step] at h
    split at h
    · cases h
    · obtain ⟨path, hpath, h⟩ := Option.bind_eq_some_iff.mp h
      obtain ⟨world, hworld, rfl⟩ := Option.map_eq_some_iff.mp h
      exact .session l path world (Bool.eq_false_iff.mpr ‹_›) (ownerEffect_cases hpath) hworld
  | purge =>
    simp only [Core.step, Path.purge] at h
    split at h
    · obtain ⟨path, hpath, rfl⟩ := Option.map_eq_some_iff.mp h
      split at hpath
      · cases hpath
      · cases hpath; exact .purge _ _ ‹_› ‹_›
    · cases h
  | path l =>
    simp only [Core.step] at h
    split at h
    · rename_i henters
      obtain ⟨path, hpath, rfl⟩ := Option.map_eq_some_iff.mp h
      cases l with
      | reader l => exact .reader l path henters (readerStep_cases hpath)
      | kick l => exact .kick l path henters (kickStep_cases hpath)
      | consumer l => exact .consumer l path henters (consumerStep_cases hpath)
    · cases h

/-- The core seen through its session is a run of the session machine. -/
def sessionProjection : Transition.Projection coreMachine sessionMachine where
  state := Core.world
  label
    | .session l => some l
    | _ => none
  init := rfl
  step := by
    intro c l c' h
    cases coreStep_cases h with
    | session l path world ho heffect hstep => exact .inr ⟨l, rfl, hstep⟩
    | _ => exact .inl ⟨rfl, rfl⟩

theorem session_reach {cond : Core → CoreLabel → Prop} {c : Core}
    (h : Transition.ReachUnder coreMachine cond c) :
    Transition.Reach sessionMachine c.world :=
  sessionProjection.reachUnder (fun _ _ _ _ _ => trivial) h

end Display

end Xcom
