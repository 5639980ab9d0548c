import Xcom.Display.Lane
import Xcom.Foundation.FixedPool
import Xcom.Transition.Machine

/-!
# The buffers of the display lane

`DisplayLane` with the identity of its batch buffers: the pool they come from, the ready
ring and the batch the consumer has begun.  The producer may hold any number of buffers
and do with each what the lane lets it; the steps of a reset and of a drain interleave
with it in every way.
-/

namespace Xcom.Display

/-- A batch buffer. -/
abbrev Buf := Fin kDisplayBatchCount

/-- A descriptor of the ready ring with the buffer it names. -/
structure Slot where
  buf : Buf
  batch : Batch
  deriving DecidableEq, Repr

/-- Where the consumer stands in `drain_into`. -/
inductive DrainPc
  | idle
  | checkActive (capacity : Nat) (generation : UInt32)
  | popReady (capacity : Nat) (generation : UInt32)
  | releaseStale (capacity : Nat) (generation : UInt32) (buf : Buf)
  | copy (capacity : Nat) (generation : UInt32)
  | releaseDrained (buf : Buf)
  deriving DecidableEq, Repr

/-- The lane.  `hand` holds the buffers the producer has acquired, `resetting` the one a
running reset has popped. -/
structure DisplayLane where
  buffers : FixedPool kDisplayBatchCount := {}
  hand : List Buf := []
  ready : List Slot := []
  active : Option (Slot × Nat) := none
  drain : DrainPc := .idle
  resetting : Option Buf := none
  deriving DecidableEq, Repr

/-- An operation of the producer, one half of a turn of `reset`, or the next step of
`drain_into`. -/
inductive LaneLabel
  | tryAcquire
  | pushReady (buf : Buf) (batch : Batch)
  | releaseBuf (buf : Buf)
  | resetPop
  | resetRelease
  | drainInto (capacity : Nat) (generation : UInt32)
  | run
  deriving DecidableEq, Repr

namespace DisplayLane

/-- `try_acquire`. -/
def tryAcquire (s : DisplayLane) : Option DisplayLane :=
  s.buffers.allocate.map fun (buf, buffers) =>
    { s with buffers := buffers, hand := buf :: s.hand }

/-- `push_ready`, for a ring as large as the pool. -/
def pushReady (s : DisplayLane) (buf : Buf) (batch : Batch) : Option DisplayLane :=
  if s.ready.length < kDisplayBatchCount then
    some { s with hand := s.hand.erase buf, ready := s.ready ++ [⟨buf, batch⟩] }
  else none

/-- `release_buf` of a buffer the producer holds. -/
def releaseBuf (s : DisplayLane) (buf : Buf) : DisplayLane :=
  { s with hand := s.hand.erase buf, buffers := s.buffers.release buf }

/-- The first half of a turn of `reset`. -/
def resetPop (s : DisplayLane) : DisplayLane :=
  match s.ready with
  | [] => s
  | slot :: ready => { s with ready := ready, resetting := some slot.buf }

/-- The end of `drain_into`. -/
def copyOut (s : DisplayLane) (capacity : Nat) (slot : Slot) (offset : Nat) : DisplayLane :=
  let count := min capacity (slot.batch.text.length - offset)
  if offset + count = slot.batch.text.length then
    { s with active := none, drain := .releaseDrained slot.buf }
  else { s with active := some (slot, offset + count), drain := .idle }

/-- One step of `drain_into`. -/
def drainStep (s : DisplayLane) : Option DisplayLane :=
  match s.drain with
  | .idle => none
  | .checkActive capacity g => some
      (match s.active with
        | some (slot, _) =>
          if slot.batch.gen ≠ g then
            { s with
              active := none, buffers := s.buffers.release slot.buf
              drain := .popReady capacity g }
          else { s with drain := .copy capacity g }
        | none => { s with drain := .popReady capacity g })
  | .popReady capacity g => some
      (match s.ready with
        | [] => { s with drain := .idle }
        | slot :: ready =>
          if slot.batch.gen = g then
            { s with ready := ready, active := some (slot, 0), drain := .copy capacity g }
          else { s with ready := ready, drain := .releaseStale capacity g slot.buf })
  | .releaseStale capacity g buf => some
      { s with buffers := s.buffers.release buf, drain := .popReady capacity g }
  | .copy capacity _ => s.active.map fun a => s.copyOut capacity a.1 a.2
  | .releaseDrained buf => some { s with buffers := s.buffers.release buf, drain := .idle }

/-- One step of the lane.  An operation that reports failure leaves the lane as it is;
the producer pushes and releases only what it holds. -/
def step (s : DisplayLane) : LaneLabel → Option DisplayLane
  | .tryAcquire => some (s.tryAcquire.getD s)
  | .pushReady buf batch => if buf ∈ s.hand then some ((s.pushReady buf batch).getD s) else none
  | .releaseBuf buf => if buf ∈ s.hand then some (s.releaseBuf buf) else none
  | .resetPop => if s.resetting = none then some s.resetPop else none
  | .resetRelease => s.resetting.map fun buf =>
      { s with buffers := s.buffers.release buf, resetting := none }
  | .drainInto capacity generation =>
    if s.drain = .idle then
      some (if capacity = 0 then s else { s with drain := .checkActive capacity generation })
    else none
  | .run => s.drainStep

end DisplayLane

/-- The display lane of a handle. -/
def laneMachine : Transition.Machine DisplayLane LaneLabel where
  init := {}
  step := DisplayLane.step

/-! ## Where the buffers are -/

/-- The buffer a drain has popped and not released. -/
def DrainPc.held : DrainPc → List Buf
  | .releaseStale _ _ buf | .releaseDrained buf => [buf]
  | _ => []

/-- The buffers that are not free: with the producer, in the ready ring, active at the
consumer, or popped by a drain or a reset that is about to release them. -/
def DisplayLane.held (s : DisplayLane) : List Buf :=
  s.hand ++ s.ready.map (·.buf) ++ s.active.toList.map (·.1.buf) ++ s.drain.held ++
    s.resetting.toList

/-- A drain looks for the next batch when none is active, and copies an active one. -/
def DisplayLane.DrainsInTurn (s : DisplayLane) : Prop :=
  match s.drain with
  | .popReady _ _ | .releaseStale _ _ _ => s.active = none
  | _ => True

/-- Every buffer is in exactly one place. -/
structure LaneInv (s : DisplayLane) : Prop where
  conserved : s.buffers.Conserves s.held
  inTurn : s.DrainsInTurn

/-- Buffers that only change places stay conserved. -/
theorem LaneInv.moved {s s' : DisplayLane} (h : LaneInv s) (hbuffers : s'.buffers = s.buffers)
    (hcount : ∀ x, s'.held.count x = s.held.count x) (hturn : s'.DrainsInTurn) : LaneInv s' := by
  constructor
  · rw [hbuffers]
    exact h.conserved.perm (List.perm_iff_count.mpr hcount)
  · exact hturn

/-- A buffer that leaves its place for the pool. -/
theorem LaneInv.released {s s' : DisplayLane} {buf : Buf} (h : LaneInv s)
    (hbuffers : s'.buffers = s.buffers.release buf)
    (hcount : ∀ x, (buf :: s'.held).count x = s.held.count x) (hturn : s'.DrainsInTurn) :
    LaneInv s' := by
  constructor
  · rw [hbuffers]
    apply FixedPool.Conserves.release
    exact h.conserved.perm (List.perm_iff_count.mpr hcount)
  · exact hturn

theorem LaneInv.tryAcquire {s s' : DisplayLane} (h : LaneInv s) (ha : s.tryAcquire = some s') :
    LaneInv s' := by
  obtain ⟨⟨buf, buffers⟩, hallocate, rfl⟩ := Option.map_eq_some_iff.mp ha
  constructor
  · exact h.conserved.allocate hallocate
  · exact h.inTurn

theorem LaneInv.pushReady {s s' : DisplayLane} {buf : Buf} {batch : Batch} (h : LaneInv s)
    (hmem : buf ∈ s.hand) (hp : s.pushReady buf batch = some s') : LaneInv s' := by
  unfold DisplayLane.pushReady at hp
  split at hp
  · cases hp
    apply h.moved
    · rfl
    · intro x
      have hx := (List.perm_cons_erase hmem).count_eq x
      simp only [DisplayLane.held, List.map_append, List.map_cons, List.map_nil,
        List.count_append, List.count_cons, List.count_nil] at hx ⊢
      omega
    · exact h.inTurn
  · cases hp

theorem LaneInv.releaseBuf {s : DisplayLane} {buf : Buf} (h : LaneInv s) (hmem : buf ∈ s.hand) :
    LaneInv (s.releaseBuf buf) := by
  apply h.released
  · rfl
  · intro x
    have hx := (List.perm_cons_erase hmem).count_eq x
    simp only [DisplayLane.releaseBuf, DisplayLane.held, List.count_append, List.count_cons]
      at hx ⊢
    omega
  · exact h.inTurn

theorem LaneInv.resetPop {s : DisplayLane} (h : LaneInv s) (hidle : s.resetting = none) :
    LaneInv s.resetPop := by
  unfold DisplayLane.resetPop
  split
  · exact h
  · rename_i slot ready hready
    apply h.moved
    · rfl
    · intro x
      simp only [DisplayLane.held, hready, hidle, List.map_cons, List.count_append,
        List.count_cons, List.count_nil, Option.toList_none, Option.toList_some]
      omega
    · exact h.inTurn

theorem LaneInv.copyOut {s : DisplayLane} {capacity offset : Nat} {g : UInt32} {slot : Slot}
    (h : LaneInv s) (hpc : s.drain = .copy capacity g) (hactive : s.active = some (slot, offset)) :
    LaneInv (s.copyOut capacity slot offset) := by
  unfold DisplayLane.copyOut
  simp only
  split
  · apply h.moved
    · rfl
    · intro x
      simp only [DisplayLane.held, hactive, hpc, DrainPc.held, Option.toList_none,
        Option.toList_some, List.map_nil, List.map_cons, List.count_append, List.count_nil]
      omega
    · trivial
  · apply h.moved
    · rfl
    · intro x
      simp only [DisplayLane.held, hactive, hpc, DrainPc.held, Option.toList_some,
        List.map_nil, List.map_cons]
    · trivial

theorem LaneInv.drainStep {s s' : DisplayLane} (h : LaneInv s) (hs : s.drainStep = some s') :
    LaneInv s' := by
  have hturn := h.inTurn
  unfold DisplayLane.drainStep at hs
  unfold DisplayLane.DrainsInTurn at hturn
  split at hs
  case h_1 => cases hs
  case h_2 capacity g hpc =>
    cases hs
    split
    · rename_i slot offset hactive
      split
      · apply h.released
        · rfl
        · intro x
          simp only [DisplayLane.held, hactive, hpc, DrainPc.held, Option.toList_none,
            Option.toList_some, List.map_nil, List.map_cons, List.count_append, List.count_cons,
            List.count_nil]
          omega
        · rfl
      · apply h.moved
        · rfl
        · intro x
          simp only [DisplayLane.held, hpc, DrainPc.held]
        · trivial
    · rename_i hactive
      apply h.moved
      · rfl
      · intro x
        simp only [DisplayLane.held, hpc, DrainPc.held]
      · exact hactive
  case h_3 capacity g hpc =>
    rw [hpc] at hturn
    cases hs
    split
    · apply h.moved
      · rfl
      · intro x
        simp only [DisplayLane.held, hpc, DrainPc.held]
      · trivial
    · rename_i slot ready hready
      split
      · apply h.moved
        · rfl
        · intro x
          simp only [DisplayLane.held, hready, hturn, hpc, DrainPc.held, Option.toList_none,
            Option.toList_some, List.map_nil, List.map_cons, List.count_append, List.count_cons,
            List.count_nil]
          omega
        · trivial
      · apply h.moved
        · rfl
        · intro x
          simp only [DisplayLane.held, hready, hpc, DrainPc.held, List.map_cons,
            List.count_append, List.count_cons, List.count_nil]
          omega
        · exact hturn
  case h_4 capacity g buf hpc =>
    rw [hpc] at hturn
    cases hs
    apply h.released
    · rfl
    · intro x
      simp only [DisplayLane.held, hpc, DrainPc.held, List.count_append, List.count_cons,
        List.count_nil]
      omega
    · exact hturn
  case h_5 capacity g hpc =>
    obtain ⟨⟨slot, offset⟩, hactive, rfl⟩ := Option.map_eq_some_iff.mp hs
    exact h.copyOut hpc hactive
  case h_6 buf hpc =>
    cases hs
    apply h.released
    · rfl
    · intro x
      simp only [DisplayLane.held, hpc, DrainPc.held, List.count_append, List.count_cons,
        List.count_nil]
      omega
    · trivial

theorem LaneInv.step {s s' : DisplayLane} {l : LaneLabel} (h : LaneInv s)
    (hs : s.step l = some s') : LaneInv s' := by
  cases l with
  | tryAcquire =>
    cases hs
    cases ha : s.tryAcquire with
    | none => exact h
    | some s' => exact h.tryAcquire ha
  | pushReady buf batch =>
    obtain ⟨hmem, hs⟩ := Option.ite_none_right_eq_some.mp hs
    cases hs
    cases hp : s.pushReady buf batch with
    | none => exact h
    | some s' => exact h.pushReady hmem hp
  | releaseBuf buf =>
    obtain ⟨hmem, hs⟩ := Option.ite_none_right_eq_some.mp hs
    cases hs
    exact h.releaseBuf hmem
  | resetPop =>
    obtain ⟨hidle, hs⟩ := Option.ite_none_right_eq_some.mp hs
    cases hs
    exact h.resetPop hidle
  | resetRelease =>
    obtain ⟨buf, hbuf, rfl⟩ := Option.map_eq_some_iff.mp hs
    apply h.released
    · rfl
    · intro x
      simp only [DisplayLane.held, hbuf, Option.toList_none, Option.toList_some,
        List.count_append, List.count_cons, List.count_nil]
      omega
    · exact h.inTurn
  | drainInto capacity generation =>
    obtain ⟨hidle, hs⟩ := Option.ite_none_right_eq_some.mp hs
    cases hs
    split
    · exact h
    · apply h.moved
      · rfl
      · intro x
        simp only [DisplayLane.held, hidle, DrainPc.held]
      · trivial
  | run => exact h.drainStep hs

theorem laneInv_reach {s : DisplayLane} (h : Transition.Reach laneMachine s) : LaneInv s := by
  apply h.invariant
  · constructor
    · exact FixedPool.conserves_init
    · trivial
  · intro s l s' hinv _ hs
    exact hinv.step hs

/-- The ring has room for every buffer the producer holds. -/
theorem LaneInv.ready_room {s : DisplayLane} (h : LaneInv s) (hhand : s.hand ≠ []) :
    s.ready.length < kDisplayBatchCount := by
  have hlength := h.conserved.length
  have hpos := List.length_pos_of_ne_nil hhand
  simp only [DisplayLane.held, List.length_append, List.length_map] at hlength
  omega

end Xcom.Display
