import Mathlib.Algebra.Order.Ring.Rat
import Mathlib.Algebra.Order.Ring.Nat
import Xcom.Transition.Machine

/-!
# The reset sequencer

`reset_sequencer.lua`: a profile's edges on DTR and RTS, each a delay behind the one
before it.  Whatever `set_lines` answers and whenever the sequencer is started again, it
ends with the lines released.
-/

namespace Xcom.ResetSequencer

open Transition

/-! ## Profiles -/

variable {L : Type}

/-- An entry of `reset.edges`; the delay as `tonumber` takes it. -/
structure Edge (L : Type) where
  rts : Option L := none
  dtr : Option L := none
  delay : Option ℚ := none

/-- `profile.reset`, with the numbers as `tonumber` takes them. -/
structure Reset (L : Type) where
  mode : Option String := none
  edges : List (Edge L) := []
  settleMs : Option ℚ := none
  manualCountdownMs : Option ℚ := none

structure Profile (L : Type) where
  reset : Reset L := {}
  flowControl : Option String := none
  manualInstructions : Option String := none

/-- `M.MANUAL_COUNTDOWN_MS`. -/
def manualCountdownDefault : ℚ := 10000

def manualCountdown (reset : Reset L) : ℚ :=
  (reset.manualCountdownMs.orElse fun _ => reset.settleMs).getD manualCountdownDefault

/-! ## The sequencer -/

inductive SeqState
  | idle
  | running
  | settling
  | done
  | failed
  | manual
  deriving DecidableEq, Repr

/-- Levels of the two lines. -/
structure Lines (L : Type) where
  dtr : L
  rts : L
  deriving DecidableEq

def released [Zero L] : Lines L := ⟨0, 0⟩

/-- The levels behind an edge. -/
def Lines.setBy (cur : Lines L) (e : Edge L) : Lines L := ⟨e.dtr.getD cur.dtr, e.rts.getD cur.rts⟩

/-- An edge that was given to `set_lines`: its number, when, and the levels. -/
structure Applied (L : Type) where
  edge : Nat
  time : ℚ
  lines : Lines L

/-- The sequencer.  `commands` are the levels given to `set_lines`, `applied` the edges
since the last start; the latest come first. -/
structure Seq (L : Type) [Zero L] where
  state : SeqState := .idle
  index : Nat := 0
  cur : Lines L := released
  edgeAt : List ℚ := []
  t0 : ℚ := 0
  settleUntil : ℚ := 0
  deadline : ℚ := 0
  err : Option String := none
  note : Option String := none
  manualInstructions : Option String := none
  commands : List (Lines L) := []
  applied : List (Applied L) := []

/-- `remaining_ms`. -/
def Seq.remainingMs [Zero L] (s : Seq L) (now : ℚ) : ℚ :=
  match s.state with
  | .settling => max (s.settleUntil - now) 0
  | .manual => max (s.deadline - now) 0
  | _ => 0

/-- The delays of the edges, each added to those before it. -/
def delays : ℚ → List (Edge L) → List ℚ
  | _, [] => []
  | acc, e :: edges => (acc + e.delay.getD 0) :: delays (acc + e.delay.getD 0) edges

section Sequencer

variable [Zero L] (profile : Profile L) (setLines : Option (Nat → Option Int))

/-- `_apply`.  `setLines` answers the calls by their number, with what `tonumber` makes of
the result; there may be no actuator at all. -/
def Seq.apply (s : Seq L) : Int × Seq L :=
  match setLines with
  | none => (-1, s)
  | some answer =>
    ((answer s.commands.length).getD (-1), { s with commands := s.cur :: s.commands })

/-- `_fail`. -/
def Seq.fail (msg : String) (s : Seq L) : Seq L :=
  { s with
    err := some msg
    cur := released
    commands := if setLines.isSome then released :: s.commands else s.commands
    state := .failed }

/-- RTS cannot be driven under unsupported flow control. -/
def undriven : Bool :=
  profile.reset.mode == some "auto" && profile.flowControl == some "unsupported"

/-- The mode of a start; what cannot be driven falls to manual. -/
def startMode : String :=
  if undriven profile then "manual" else profile.reset.mode.getD "manual"

/-- `start`, at a reading of the clock. -/
def Seq.start (now : ℚ) (s : Seq L) : Seq L :=
  let s := { s with
    err := none
    note :=
      if undriven profile then some "flow_control unsupported: manual reset required" else none
    index := 0
    cur := released
    settleUntil := 0
    edgeAt := []
    manualInstructions := profile.manualInstructions
    t0 := now
    applied := [] }
  if startMode profile = "manual" then
    { s with deadline := now + manualCountdown profile.reset, state := .manual }
  else if startMode profile ≠ "auto" ∨ profile.reset.edges = [] then { s with state := .done }
  else { s with edgeAt := delays 0 profile.reset.edges, state := .running }

/-- The end of `_run_edges`, once the lines rest. -/
def Seq.settle (s : Seq L) : Seq L :=
  let settle := profile.reset.settleMs.getD 0
  if 0 < settle then
    { s with
      settleUntil := s.t0 + s.edgeAt.getD (profile.reset.edges.length - 1) 0 + settle
      state := .settling }
  else { s with state := .done }

variable [DecidableEq L]

/-- `_run_edges` behind its loop: a line that the last edge left asserted is released. -/
def Seq.finish (s : Seq L) : Seq L :=
  if s.cur ≠ released then
    let (rc, s) := Seq.apply setLines { s with cur := released }
    if rc ≠ 0 then s.fail setLines "final deassert failed" else s.settle profile
  else s.settle profile

/-- `_run_edges`, over the edges that are left. -/
def Seq.runEdges (now : ℚ) : List (Edge L) → Seq L → Seq L
  | [], s => s.finish profile setLines
  | e :: rest, s =>
    if now - s.t0 < s.edgeAt.getD s.index 0 then s
    else
      let i := s.index + 1
      let cur := s.cur.setBy e
      let (rc, s) := Seq.apply setLines { s with
        cur := cur
        applied := ⟨i, now, cur⟩ :: s.applied }
      if rc ≠ 0 then
        s.fail setLines ("edge " ++ toString i ++ " set_lines failed (rc=" ++ toString rc ++ ")")
      else runEdges now rest { s with index := i }

/-- `step`. -/
def Seq.step (now : ℚ) (s : Seq L) : Seq L :=
  match s.state with
  | .running => s.runEdges profile setLines now (profile.reset.edges.drop s.index)
  | .settling => if s.settleUntil ≤ now then { s with state := .done } else s
  | _ => s

/-- A call of the sequencer, with the time it reads or is given. -/
inductive Call
  | start (now : ℚ)
  | step (now : ℚ)

def seqMachine : Machine (Seq L) Call where
  init := { manualInstructions := profile.manualInstructions }
  step s
    | .start now => some (s.start profile now)
    | .step now => some (s.step profile setLines now)

end Sequencer

/-! ## What a profile asks for -/

/-- The delays up to an edge. -/
def cumulative : List (Edge L) → Nat → ℚ
  | _, 0 => 0
  | [], _ + 1 => 0
  | e :: edges, i + 1 => e.delay.getD 0 + cumulative edges i

theorem delays_getD (acc : ℚ) (edges : List (Edge L)) {i : Nat} (hi : i < edges.length) :
    (delays acc edges).getD i 0 = acc + cumulative edges (i + 1) := by
  induction edges generalizing acc i with
  | nil => cases hi
  | cons e edges ih =>
    cases i with
    | zero => simp [delays, cumulative]
    | succ i =>
      have hrest := ih (acc + e.delay.getD 0) (Nat.lt_of_succ_lt_succ hi)
      rw [delays, List.getD_cons_succ, hrest, cumulative, add_assoc]

section Asked

variable [Zero L]

/-- The levels behind the first edges. -/
def linesAfter (edges : List (Edge L)) (n : Nat) : Lines L :=
  (edges.take n).foldl Lines.setBy released

/-- The edges of a start so far: the first ones of the profile, in their order, none
before its delays have elapsed and each with its levels. -/
structure Seq.InOrder (edges : List (Edge L)) (s : Seq L) : Prop where
  numbers : s.applied.reverse.map Applied.edge = List.range' 1 s.applied.length
  exist : s.applied.length ≤ edges.length
  notEarly : ∀ a ∈ s.applied, cumulative edges a.edge ≤ a.time - s.t0
  lines : ∀ a ∈ s.applied, a.lines = linesAfter edges a.edge

/-- The sequencer drives no line for this profile. -/
def Passive (profile : Profile L) : Prop :=
  profile.reset.mode ≠ some "auto" ∨ profile.flowControl = some "unsupported" ∨
    profile.reset.edges = []

theorem linesAfter_succ {edges rest : List (Edge L)} {e : Edge L} {n : Nat}
    (h : edges.drop n = e :: rest) : linesAfter edges (n + 1) = (linesAfter edges n).setBy e := by
  have hget : edges[n]? = some e := by
    rw [← List.head?_drop, h, List.head?_cons]
  unfold linesAfter
  rw [List.take_add_one, hget, Option.toList_some, List.foldl_append]
  rfl

/-- One more edge. -/
theorem Seq.InOrder.append {edges rest : List (Edge L)} {e : Edge L} {s s' : Seq L} {now : ℚ}
    (h : s.InOrder edges) (hcount : s.applied.length = s.index)
    (hrest : edges.drop s.index = e :: rest) (hcur : s.cur = linesAfter edges s.index)
    (hdue : cumulative edges (s.index + 1) ≤ now - s.t0)
    (happlied : s'.applied = ⟨s.index + 1, now, s.cur.setBy e⟩ :: s.applied)
    (ht0 : s'.t0 = s.t0) : s'.InOrder edges := by
  have hlt : s.index < edges.length := by
    by_contra hge
    rw [List.drop_eq_nil_of_le (Nat.le_of_not_lt hge)] at hrest
    cases hrest
  constructor
  · rw [happlied, List.reverse_cons, List.map_append, h.numbers, hcount, List.length_cons, hcount,
      List.range'_1_concat]
    simp [Nat.add_comm]
  · rw [happlied, List.length_cons, hcount]
    exact hlt
  · intro a ha
    rw [happlied] at ha
    rw [ht0]
    rcases List.mem_cons.mp ha with rfl | ha
    · exact hdue
    · exact h.notEarly a ha
  · intro a ha
    rw [happlied] at ha
    rcases List.mem_cons.mp ha with rfl | ha
    · rw [linesAfter_succ hrest, hcur]
    · exact h.lines a ha

end Asked

/-! ## Runs -/

section Runs

variable [Zero L] (profile : Profile L) (setLines : Option (Nat → Option Int))

/-- What holds between two calls.  A state other than running that follows a command
follows a release; a passive profile never commands. -/
structure Seq.Inv (s : Seq L) : Prop where
  inOrder : s.InOrder profile.reset.edges
  unwired : setLines = none → s.commands = []
  passive : Passive profile → s.commands = [] ∧ s.state ≠ .running
  driven : ¬ Passive profile → s.state ≠ .manual
  resting : s.state ≠ .running → s.state ≠ .idle → ∀ l ∈ s.commands.head?, l = released
  pending : s.state = .running →
    s.index < profile.reset.edges.length ∧ s.edgeAt = delays 0 profile.reset.edges ∧
    s.applied.length = s.index ∧ s.cur = linesAfter profile.reset.edges s.index

/-- Inside the loop of `_run_edges`, with the edges that are left. -/
structure Seq.Ahead (rest : List (Edge L)) (s : Seq L) : Prop where
  inOrder : s.InOrder profile.reset.edges
  unwired : setLines = none → s.commands = []
  driven : ¬ Passive profile
  running : s.state = .running
  left : profile.reset.edges.drop s.index = rest
  edgeAt : s.edgeAt = delays 0 profile.reset.edges
  count : s.applied.length = s.index
  cur : s.cur = linesAfter profile.reset.edges s.index
  commanded : rest = [] → ∀ l ∈ s.commands.head?, l = s.cur

variable {profile setLines}

/-- A state that rests behind a release. -/
theorem Seq.Inv.of_released {s : Seq L} (horder : s.InOrder profile.reset.edges)
    (hunwired : setLines = none → s.commands = []) (hdriven : ¬ Passive profile)
    (hstate : s.state = .settling ∨ s.state = .done ∨ s.state = .failed)
    (hreleased : ∀ l ∈ s.commands.head?, l = released) : s.Inv profile setLines where
  inOrder := horder
  unwired := hunwired
  passive h := absurd h hdriven
  driven _ := by rcases hstate with h | h | h <;> rw [h] <;> decide
  resting _ _ := hreleased
  pending h := by rcases hstate with hs | hs | hs <;> rw [hs] at h <;> cases h

theorem apply_state (setLines : Option (Nat → Option Int)) (s : Seq L) :
    (Seq.apply setLines s).2 =
      { s with commands := if setLines.isSome then s.cur :: s.commands else s.commands } := by
  cases setLines <;> rfl

/-- Without an actuator the call fails. -/
theorem apply_ok {s : Seq L} (h : (Seq.apply setLines s).1 = 0) : setLines.isSome = true := by
  cases setLines with
  | none => cases h
  | some answer => rfl

/-- A failure releases the lines. -/
theorem fail_inv {s : Seq L} (msg : String) (horder : s.InOrder profile.reset.edges)
    (hunwired : setLines = none → s.commands = []) (hdriven : ¬ Passive profile) :
    (s.fail setLines msg).Inv profile setLines := by
  have hcommands : (s.fail setLines msg).commands =
      if setLines.isSome then released :: s.commands else s.commands := rfl
  refine .of_released ⟨horder.numbers, horder.exist, horder.notEarly, horder.lines⟩ ?_ hdriven
    (.inr (.inr rfl)) ?_
  · intro hnone
    rw [hcommands, hunwired hnone, hnone]
    rfl
  · intro l hl
    rw [hcommands] at hl
    cases hset : setLines with
    | none =>
      rw [hunwired hset, hset] at hl
      cases hl
    | some answer =>
      rw [hset] at hl
      cases hl
      rfl

theorem settle_inv {s : Seq L} (horder : s.InOrder profile.reset.edges)
    (hunwired : setLines = none → s.commands = []) (hdriven : ¬ Passive profile)
    (hreleased : ∀ l ∈ s.commands.head?, l = released) :
    (s.settle profile).Inv profile setLines := by
  have hsame : (s.settle profile).InOrder profile.reset.edges ∧
      (s.settle profile).commands = s.commands ∧
      ((s.settle profile).state = .settling ∨ (s.settle profile).state = .done) := by
    unfold Seq.settle
    dsimp only
    split
    · exact ⟨⟨horder.numbers, horder.exist, horder.notEarly, horder.lines⟩, rfl, .inl rfl⟩
    · exact ⟨⟨horder.numbers, horder.exist, horder.notEarly, horder.lines⟩, rfl, .inr rfl⟩
  obtain ⟨horder', hcommands, hstate⟩ := hsame
  apply Seq.Inv.of_released horder' _ hdriven (hstate.imp_right .inl)
  · rw [hcommands]
    exact hreleased
  · rw [hcommands]
    exact hunwired

/-- A start forgets the edges of the last one and commands nothing. -/
theorem start_frame (now : ℚ) (s : Seq L) :
    (s.start profile now).applied = [] ∧ (s.start profile now).commands = s.commands := by
  unfold Seq.start
  dsimp only
  split
  · exact ⟨rfl, rfl⟩
  · split <;> exact ⟨rfl, rfl⟩

omit [Zero L] in
theorem startMode_auto (h : startMode profile = "auto") :
    profile.reset.mode = some "auto" ∧ profile.flowControl ≠ some "unsupported" := by
  unfold startMode at h
  split at h
  · exact absurd h (by decide)
  · rename_i hdriven
    have hmode : profile.reset.mode = some "auto" := by
      cases hset : profile.reset.mode with
      | none =>
        rw [hset] at h
        exact absurd h (by decide)
      | some mode =>
        rw [hset, Option.getD_some] at h
        rw [h]
    refine ⟨hmode, ?_⟩
    intro hflow
    apply hdriven
    unfold undriven
    rw [hmode, hflow]
    decide

theorem start_passive (now : ℚ) (s : Seq L) (h : Passive profile) :
    (s.start profile now).state = .manual ∨ (s.start profile now).state = .done := by
  unfold Seq.start
  dsimp only
  by_cases hmanual : startMode profile = "manual"
  · rw [if_pos hmanual]
    exact .inl rfl
  · rw [if_neg hmanual]
    by_cases hdriven : startMode profile ≠ "auto" ∨ profile.reset.edges = []
    · rw [if_pos hdriven]
      exact .inr rfl
    · obtain ⟨hauto, hedges⟩ := not_or.mp hdriven
      obtain ⟨hmode, hflow⟩ := startMode_auto (not_not.mp hauto)
      rcases h with h | h | h
      · exact absurd hmode h
      · exact absurd h hflow
      · exact absurd h hedges

theorem start_driven (now : ℚ) (s : Seq L) (h : ¬ Passive profile) :
    (s.start profile now).state = .running ∧ (s.start profile now).index = 0 ∧
      (s.start profile now).edgeAt = delays 0 profile.reset.edges ∧
      (s.start profile now).cur = released := by
  obtain ⟨hmode, hflow, hedges⟩ : profile.reset.mode = some "auto" ∧
      profile.flowControl ≠ some "unsupported" ∧ profile.reset.edges ≠ [] := by
    unfold Passive at h
    obtain ⟨hmode, hrest⟩ := not_or.mp h
    obtain ⟨hflow, hedges⟩ := not_or.mp hrest
    exact ⟨not_not.mp hmode, hflow, hedges⟩
  have hauto : startMode profile = "auto" := by
    have hdriven : undriven profile = false := by
      unfold undriven
      rw [beq_eq_false_iff_ne.mpr hflow, Bool.and_false]
    unfold startMode
    rw [hdriven, hmode]
    rfl
  unfold Seq.start
  dsimp only
  rw [hauto, if_neg (by decide), if_neg (by simp [hedges])]
  exact ⟨rfl, rfl, rfl, rfl⟩

theorem start_inv {s : Seq L} (now : ℚ) (h : s.Inv profile setLines) :
    (s.start profile now).Inv profile setLines := by
  have hframe : (s.start profile now).applied = [] ∧
      (s.start profile now).commands = s.commands := start_frame now s
  obtain ⟨happlied, hcommands⟩ := hframe
  have hunwired : setLines = none → (s.start profile now).commands = [] := by
    intro hnone
    rw [hcommands]
    exact h.unwired hnone
  have horder : (s.start profile now).InOrder profile.reset.edges := by
    constructor <;> simp [happlied]
  by_cases hpassive : Passive profile
  · have hstate := start_passive now s hpassive
    have hnone : (s.start profile now).commands = [] := hcommands.trans (h.passive hpassive).1
    have hrunning : (s.start profile now).state ≠ .running := by
      rcases hstate with hs | hs <;> rw [hs] <;> decide
    refine ⟨horder, hunwired, fun _ => ⟨hnone, hrunning⟩, fun hd => absurd hpassive hd, ?_,
      fun hr => absurd hr hrunning⟩
    intro _ _ l hl
    rw [hnone] at hl
    cases hl
  · obtain ⟨hstate, hindex, hat, hcur⟩ := start_driven now s hpassive
    refine ⟨horder, hunwired, fun hp => absurd hp hpassive, ?_, fun hr => absurd hstate hr, ?_⟩
    · intro _ hmanual
      rw [hstate] at hmanual
      cases hmanual
    · intro _
      have hne : profile.reset.edges ≠ [] := fun hnil => hpassive (.inr (.inr hnil))
      refine ⟨?_, hat, ?_, ?_⟩
      · rw [hindex]
        exact List.length_pos_iff.mpr hne
      · rw [happlied, hindex]
        rfl
      · rw [hcur, hindex]
        rfl

variable [DecidableEq L]

/-- All edges applied: the lines are released, or they rest already. -/
theorem finish_inv {s : Seq L} (h : s.Ahead profile setLines []) :
    (s.finish profile setLines).Inv profile setLines := by
  unfold Seq.finish
  split
  · have hstate := apply_state setLines { s with cur := released }
    have horder : (Seq.apply setLines { s with cur := released }).2.InOrder
        profile.reset.edges := by
      rw [hstate]
      exact ⟨h.inOrder.numbers, h.inOrder.exist, h.inOrder.notEarly, h.inOrder.lines⟩
    have hunwired : setLines = none →
        (Seq.apply setLines { s with cur := released }).2.commands = [] := by
      intro hnone
      rw [hstate, hnone]
      exact h.unwired hnone
    dsimp only
    split
    · exact fail_inv _ horder hunwired h.driven
    · apply settle_inv horder hunwired h.driven
      intro l hl
      cases hset : setLines with
      | none =>
        rw [hunwired hset] at hl
        cases hl
      | some answer =>
        rw [hstate, hset] at hl
        cases hl
        rfl
  · rename_i hcur
    apply settle_inv h.inOrder h.unwired h.driven
    intro l hl
    exact (h.commanded rfl l hl).trans (not_not.mp hcur)

/-- The loop of `_run_edges`. -/
theorem runEdges_inv {now : ℚ} {rest : List (Edge L)} {s : Seq L}
    (h : s.Ahead profile setLines rest) :
    (Seq.runEdges profile setLines now rest s).Inv profile setLines := by
  induction rest generalizing s with
  | nil => exact finish_inv h
  | cons e rest ih =>
    have hlt : s.index < profile.reset.edges.length := by
      by_contra hge
      have hnil := h.left
      rw [List.drop_eq_nil_of_le (Nat.le_of_not_lt hge)] at hnil
      cases hnil
    have hat : s.edgeAt.getD s.index 0 = cumulative profile.reset.edges (s.index + 1) := by
      rw [h.edgeAt, delays_getD 0 _ hlt, zero_add]
    unfold Seq.runEdges
    split
    · -- the edge is not due yet
      refine ⟨h.inOrder, h.unwired, fun hp => absurd hp h.driven, ?_, ?_, ?_⟩
      · intro _ hmanual
        rw [h.running] at hmanual
        cases hmanual
      · intro hstate
        exact absurd h.running hstate
      · intro _
        exact ⟨hlt, h.edgeAt, h.count, h.cur⟩
    · rename_i hdue
      rw [hat, not_lt] at hdue
      have hstate := apply_state setLines
        { s with cur := s.cur.setBy e, applied := ⟨s.index + 1, now, s.cur.setBy e⟩ :: s.applied }
      have hunwired : setLines = none →
          (Seq.apply setLines { s with
            cur := s.cur.setBy e
            applied := ⟨s.index + 1, now, s.cur.setBy e⟩ :: s.applied }).2.commands = [] := by
        intro hnone
        rw [hstate, hnone]
        exact h.unwired hnone
      have horder : (Seq.apply setLines { s with
          cur := s.cur.setBy e
          applied := ⟨s.index + 1, now, s.cur.setBy e⟩ :: s.applied }).2.InOrder
            profile.reset.edges :=
        h.inOrder.append h.count h.left h.cur hdue (by rw [hstate]) (by rw [hstate])
      dsimp only
      split
      · exact fail_inv _ horder hunwired h.driven
      · rename_i hok
        have hwired := apply_ok (not_not.mp hok)
        rw [hstate, if_pos hwired] at horder ⊢
        apply ih
        constructor
        · exact ⟨horder.numbers, horder.exist, horder.notEarly, horder.lines⟩
        · intro hnone
          rw [hnone] at hwired
          cases hwired
        · exact h.driven
        · exact h.running
        · show profile.reset.edges.drop (s.index + 1) = rest
          rw [← List.tail_drop, h.left, List.tail_cons]
        · exact h.edgeAt
        · show (s.applied.length + 1) = s.index + 1
          rw [h.count]
        · show s.cur.setBy e = linesAfter profile.reset.edges (s.index + 1)
          rw [linesAfter_succ h.left, h.cur]
        · intro _ l hl
          cases hl
          rfl

theorem step_inv {s : Seq L} (now : ℚ) (h : s.Inv profile setLines) :
    (s.step profile setLines now).Inv profile setLines := by
  unfold Seq.step
  split
  · rename_i hrunning
    have hdriven : ¬ Passive profile := fun hp => (h.passive hp).2 hrunning
    obtain ⟨hlt, hat, hcount, hcur⟩ := h.pending hrunning
    apply runEdges_inv
    refine ⟨h.inOrder, h.unwired, hdriven, hrunning, rfl, hat, hcount, hcur, ?_⟩
    intro hnil
    have hle := List.drop_eq_nil_iff.mp hnil
    omega
  · rename_i hsettling
    split
    · have hreleased : ∀ l ∈ s.commands.head?, l = released := by
        apply h.resting <;> rw [hsettling] <;> decide
      refine ⟨⟨h.inOrder.numbers, h.inOrder.exist, h.inOrder.notEarly, h.inOrder.lines⟩, h.unwired,
        ?_, ?_, fun _ _ => hreleased, ?_⟩
      · intro hp
        exact ⟨(h.passive hp).1, fun hstate => by cases hstate⟩
      · intro _ hstate
        cases hstate
      · intro hstate
        cases hstate
    · exact h
  · exact h

theorem reach_inv {s : Seq L} (hs : Reach (seqMachine profile setLines) s) :
    s.Inv profile setLines := by
  apply hs.invariant (p := Seq.Inv profile setLines)
  · constructor
    · constructor <;> simp [seqMachine]
    · exact fun _ => rfl
    · intro _
      exact ⟨rfl, fun hstate => by cases hstate⟩
    · intro _ hstate
      cases hstate
    · intro _ hidle
      exact absurd rfl hidle
    · intro hstate
      cases hstate
  · rintro s call s' h - hstep
    cases call with
    | start now =>
      obtain rfl := Option.some.inj hstep
      exact start_inv now h
    | step now =>
      obtain rfl := Option.some.inj hstep
      exact step_inv now h

end Runs

/-- Whatever the profile, the answers of `set_lines` and the calls are: since the last start
the edges were applied in their order, each once with its levels and none early, and the
sequencer is done, failed or manual only behind a release, if it has commanded at all. -/
theorem reset_sequencer_safe [Zero L] [DecidableEq L] (profile : Profile L)
    (setLines : Option (Nat → Option Int)) {s : Seq L}
    (hs : Reach (seqMachine profile setLines) s) :
    s.InOrder profile.reset.edges ∧
      (s.state = .done ∨ s.state = .failed ∨ s.state = .manual →
        ∀ l ∈ s.commands.head?, l = released) := by
  have h := reach_inv hs
  refine ⟨h.inOrder, ?_⟩
  intro hstate
  apply h.resting <;> rcases hstate with hs | hs | hs <;> rw [hs] <;> decide

/-- An edge that fails after two that did not, with levels 0 and 1. -/
def pulse : Profile Nat where
  reset := { mode := some "auto", edges := [{ rts := some 1 }, { dtr := some 1, delay := some 120 },
    { rts := some 0, delay := some 60 }, { dtr := some 0, delay := some 50 }] }

theorem reset_sequencer_safe_failed :
    ∃ s : Seq Nat, Reach (seqMachine pulse (some fun n => if n = 2 then some 5 else some 0)) s ∧
      s.state = .failed ∧ s.commands = [⟨0, 0⟩, ⟨1, 0⟩, ⟨1, 1⟩, ⟨0, 1⟩] ∧
      s.InOrder pulse.reset.edges := by
  obtain ⟨s, hs, hstate, hcommands⟩ := exists_of_execUnder
    (m := seqMachine pulse (some fun n => if n = 2 then some 5 else some 0))
    (c := fun _ _ => True)
    (p := fun s => s.state = .failed ∧ s.commands = [⟨0, 0⟩, ⟨1, 0⟩, ⟨1, 1⟩, ⟨0, 1⟩])
    [.start 10, .step 10, .step 100, .step 195] (by decide +kernel)
  exact ⟨s, hs, hstate, hcommands, (reset_sequencer_safe _ _ hs).1⟩

end Xcom.ResetSequencer
