import Xcom.Transition.Machine
import Mathlib.Data.List.Basic
import Mathlib.Order.Lattice

/-!
# The throttled save

`Window:_mark_config_dirty` and `Window:_flush_config_save` around a one-shot timer: a change is
written within a window of its mark, and no two writes share a window.
-/

namespace Xcom.Config

def CONFIG_SAVE_THROTTLE_MS : Nat := 500

/-- The window behind its settings.  `marks` are the times of the changes and `writes` those of the
timer's saves, newest first, and `written` of the oldest changes are on disk: the source has none
of these. -/
structure SaveThrottle where
  now : Nat := 0
  dirty : Bool := false
  pending : Bool := false
  /-- When `_config_save_timer` is due, where it is started. -/
  timer : Option Nat := none
  closed : Bool := false
  marks : List Nat := []
  writes : List Nat := []
  written : Nat := 0
  deriving DecidableEq, Repr

namespace SaveThrottle

/-- `Window:_mark_config_dirty`, behind a change.  A write that is scheduled keeps its time. -/
def mark (s : SaveThrottle) : SaveThrottle :=
  { s with
    dirty := true
    marks := s.now :: s.marks
    pending := true
    timer := if s.pending then s.timer else some (s.now + CONFIG_SAVE_THROTTLE_MS) }

/-- `Window:_save_config`, which writes the settings as they are, unless it raises. -/
def saveConfig (succeeds : Bool) (s : SaveThrottle) : SaveThrottle :=
  { s with written := if succeeds then s.marks.length else s.written }

/-- The timer's callback, `Window:_flush_config_save`: the flags are cleared before the save. -/
def flush (succeeds : Bool) (s : SaveThrottle) : SaveThrottle :=
  if s.dirty = false then { s with pending := false, timer := none }
  else
    { s with pending := false, timer := none, dirty := false, writes := s.now :: s.writes
      : SaveThrottle }.saveConfig succeeds

/-- The teardown: the timer is stopped and the last write is made. -/
def close (succeeds : Bool) (s : SaveThrottle) : SaveThrottle :=
  { s with timer := none, dirty := false, pending := false, closed := true
    : SaveThrottle }.saveConfig succeeds

inductive Op
  | tick
  | mark
  | fire (succeeds : Bool)
  | close (succeeds : Bool)
  deriving DecidableEq, Repr

/-- One step.  The loop is busy for `latency` behind a due timer, and no longer. -/
def step (latency : Nat) (s : SaveThrottle) : Op → Option SaveThrottle
  | .tick =>
    if ∀ due ∈ s.timer, s.now < due + latency then some { s with now := s.now + 1 } else none
  | .mark => if s.closed then none else some s.mark
  | .fire succeeds => if ∃ due ∈ s.timer, due ≤ s.now then some (s.flush succeeds) else none
  | .close succeeds => if s.closed then none else some (s.close succeeds)

def machine (latency : Nat) : Transition.Machine SaveThrottle Op := ⟨{}, step latency⟩

/-- The save of the step does not raise. -/
def Succeeds (_ : SaveThrottle) : Op → Prop
  | .fire succeeds | .close succeeds => succeeds = true
  | _ => True

/-! ## What holds of every run -/

/-- The changes that are not on disk. -/
def unwritten (s : SaveThrottle) : List Nat := s.marks.take (s.marks.length - s.written)

/-- The timer is started just where a change waits for it, and not for a time within a window of
a write. -/
structure Kept (latency : Nat) (s : SaveThrottle) : Prop where
  dirty : s.dirty = s.pending
  timer : s.timer.isSome = s.pending
  punctual : ∀ due ∈ s.timer, s.now ≤ due + latency
  ahead : ∀ due ∈ s.timer, due ≤ s.now + CONFIG_SAVE_THROTTLE_MS
  past : ∀ w ∈ s.writes, w ≤ s.now
  behind : ∀ w ∈ s.writes, ∀ due ∈ s.timer, w + CONFIG_SAVE_THROTTLE_MS ≤ due
  apart : s.writes.Pairwise fun later earlier => earlier + CONFIG_SAVE_THROTTLE_MS ≤ later

theorem Kept.tick {latency : Nat} {s : SaveThrottle} (h : s.Kept latency)
    (hfree : ∀ due ∈ s.timer, s.now < due + latency) :
    ({ s with now := s.now + 1 } : SaveThrottle).Kept latency :=
  ⟨h.dirty, h.timer, fun due hdue => hfree due hdue,
    fun due hdue => Nat.le_trans (h.ahead due hdue) (by show _ ≤ s.now + 1 + _; omega),
    fun w hw => Nat.le_succ_of_le (h.past w hw), h.behind, h.apart⟩

theorem Kept.mark {latency : Nat} {s : SaveThrottle} (h : s.Kept latency) :
    s.mark.Kept latency := by
  have htimer : ∀ due ∈ s.mark.timer, due ∈ s.timer ∨ due = s.now + CONFIG_SAVE_THROTTLE_MS := by
    intro due hdue
    unfold SaveThrottle.mark at hdue
    dsimp only at hdue
    split at hdue
    · exact .inl hdue
    · exact .inr (Option.some.inj hdue).symm
  refine ⟨rfl, ?_, fun due hdue => ?_, fun due hdue => ?_, h.past, fun w hw due hdue => ?_,
    h.apart⟩
  · unfold SaveThrottle.mark
    dsimp only
    split
    · rename_i hpending
      exact h.timer.trans hpending
    · rfl
  · rcases htimer due hdue with hold | rfl
    · exact h.punctual due hold
    · show s.now ≤ _
      omega
  · rcases htimer due hdue with hold | rfl
    · exact h.ahead due hold
    · exact Nat.le_refl _
  · rcases htimer due hdue with hold | rfl
    · exact h.behind w hw due hold
    · exact Nat.add_le_add_right (h.past w hw) _

theorem Kept.flush {latency : Nat} {s : SaveThrottle} (h : s.Kept latency) (succeeds : Bool)
    (hdue : ∃ due ∈ s.timer, due ≤ s.now) : (s.flush succeeds).Kept latency := by
  unfold SaveThrottle.flush
  split
  · rename_i hclean
    exact ⟨hclean, rfl, nofun, nofun, h.past, fun _ _ => nofun, h.apart⟩
  · obtain ⟨due, hstarted, hnow⟩ := hdue
    refine ⟨rfl, rfl, nofun, nofun, fun w hw => ?_, fun _ _ => nofun, ?_⟩
    · rcases List.mem_cons.mp hw with rfl | hold
      · exact Nat.le_refl _
      · exact h.past w hold
    · exact List.pairwise_cons.mpr
        ⟨fun w hw => Nat.le_trans (h.behind w hw due hstarted) hnow, h.apart⟩

theorem Kept.step {latency : Nat} {s s' : SaveThrottle} (h : s.Kept latency) {op : Op}
    (hstep : s.step latency op = some s') : s'.Kept latency := by
  unfold SaveThrottle.step at hstep
  cases op with
  | tick =>
    dsimp only at hstep
    split at hstep
    · rename_i hfree
      exact Option.some.inj hstep ▸ h.tick hfree
    · cases hstep
  | mark =>
    dsimp only at hstep
    split at hstep
    · cases hstep
    · exact Option.some.inj hstep ▸ h.mark
  | fire succeeds =>
    dsimp only at hstep
    split at hstep
    · rename_i hdue
      exact Option.some.inj hstep ▸ h.flush succeeds hdue
    · cases hstep
  | close succeeds =>
    dsimp only at hstep
    split at hstep
    · cases hstep
    · obtain rfl := Option.some.inj hstep
      exact ⟨rfl, rfl, nofun, nofun, h.past, fun _ _ => nofun, h.apart⟩

theorem kept_reach {latency : Nat} {c : SaveThrottle → Op → Prop} {s : SaveThrottle}
    (h : Transition.ReachUnder (machine latency) c s) : s.Kept latency :=
  h.invariant ⟨rfl, rfl, nofun, nofun, nofun, nofun, List.Pairwise.nil⟩
    fun _ _ _ hkept _ hstep => hkept.step hstep

/-- A change that is not on disk waits for a timer that was started no later than behind it. -/
structure Durable (s : SaveThrottle) : Prop where
  written : s.written ≤ s.marks.length
  waits : ∀ t ∈ s.unwritten, ∃ due ∈ s.timer, due ≤ t + CONFIG_SAVE_THROTTLE_MS
  clean : s.pending = false → s.written = s.marks.length

theorem Durable.mark {latency : Nat} {s : SaveThrottle} (h : s.Durable) (hkept : s.Kept latency) :
    s.mark.Durable := by
  have hunwritten : s.mark.unwritten = s.now :: s.unwritten := by
    show (s.now :: s.marks).take ((s.now :: s.marks).length - s.written) = _
    rw [List.length_cons, Nat.succ_sub h.written, List.take_succ_cons]
    rfl
  refine ⟨Nat.le_succ_of_le h.written, fun t ht => ?_, fun hfalse => by cases hfalse⟩
  rw [hunwritten] at ht
  cases hpending : s.pending with
  | false =>
    have hnone : s.unwritten = [] := by
      rw [unwritten, h.clean hpending, Nat.sub_self, List.take_zero]
    rw [hnone, List.mem_singleton] at ht
    subst ht
    exact ⟨s.now + CONFIG_SAVE_THROTTLE_MS, by simp [SaveThrottle.mark, hpending], Nat.le_refl _⟩
  | true =>
    have hsame : s.mark.timer = s.timer := by simp [SaveThrottle.mark, hpending]
    rw [hsame]
    rcases List.mem_cons.mp ht with rfl | hold
    · obtain ⟨due, hdue⟩ := Option.isSome_iff_exists.mp (hkept.timer.trans hpending)
      exact ⟨due, hdue, hkept.ahead due hdue⟩
    · exact h.waits t hold

/-- Behind a save that went through everything is on disk. -/
theorem durable_of_written {s : SaveThrottle} (h : s.written = s.marks.length) : s.Durable := by
  refine ⟨Nat.le_of_eq h, fun t ht => ?_, fun _ => h⟩
  rw [unwritten, h, Nat.sub_self, List.take_zero] at ht
  cases ht

theorem Durable.step {latency : Nat} {s s' : SaveThrottle} (h : s.Durable)
    (hkept : s.Kept latency) {op : Op} (hsucceeds : Succeeds s op)
    (hstep : s.step latency op = some s') : s'.Durable := by
  unfold SaveThrottle.step at hstep
  cases op with
  | tick =>
    dsimp only at hstep
    split at hstep
    · obtain rfl := Option.some.inj hstep
      exact ⟨h.written, h.waits, h.clean⟩
    · cases hstep
  | mark =>
    dsimp only at hstep
    split at hstep
    · cases hstep
    · exact Option.some.inj hstep ▸ h.mark hkept
  | fire succeeds =>
    obtain rfl : succeeds = true := hsucceeds
    dsimp only at hstep
    split at hstep
    · obtain rfl := Option.some.inj hstep
      unfold SaveThrottle.flush
      split
      · rename_i hclean
        exact durable_of_written (h.clean (hkept.dirty.symm.trans hclean))
      · exact durable_of_written rfl
    · cases hstep
  | close succeeds =>
    obtain rfl : succeeds = true := hsucceeds
    dsimp only at hstep
    split at hstep
    · cases hstep
    · exact Option.some.inj hstep ▸ durable_of_written rfl

/-- In every run any two of the timer's writes are a window apart; and where the writes go
through, a change that is older than a window and the latency of the loop is on disk. -/
theorem config_saves_throttled (latency : Nat) :
    (∀ s, Transition.Reach (machine latency) s →
      s.writes.Pairwise fun later earlier => earlier + CONFIG_SAVE_THROTTLE_MS ≤ later) ∧
    (∀ s, Transition.ReachUnder (machine latency) Succeeds s →
      ∀ t ∈ s.unwritten, s.now ≤ t + CONFIG_SAVE_THROTTLE_MS + latency) := by
  refine ⟨fun s hs => (kept_reach hs).apart, fun s hs t ht => ?_⟩
  have hdurable : s.Durable :=
    hs.invariantUsing (fun _ hreach => kept_reach hreach)
      ⟨Nat.le_refl _, nofun, fun _ => rfl⟩
      fun _ _ _ hkept hdurable hsucceeds hstep => hdurable.step hkept hsucceeds hstep
  obtain ⟨due, hdue, hle⟩ := hdurable.waits t ht
  have hnow := (kept_reach hs).punctual due hdue
  omega

end SaveThrottle

end Xcom.Config
