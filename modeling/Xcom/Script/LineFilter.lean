import Mathlib.Data.List.Infix
import Xcom.Receive.WholeLines
import Xcom.Script.Preserves
import Xcom.Transition.Lines

/-!
# The line filter

`filter.keep` and `filter.drop` of the enabled scripts decide every complete line of the
text behind the receive hooks.  A line that has not ended is held and decided with the next
batch, with an idle gap, or once it is too long.
-/

namespace Xcom.Script.LineFilter

open Engine (State Record Codes hasReceiveHook dispatchReceive)

/-- `PENDING_MAX`. -/
def pendingMax : Nat := 8 * 1024

/-- `PENDING_IDLE_MS`. -/
def pendingIdleMs : Int := 200

/-- `string.find(line, pat, 1, true)`. -/
def contains (line pat : Bytes) : Bool := pat <:+: line

/-! ## The decision of one line -/

/-- The keep patterns of a script, read until one matches; the flag is `any_keep`. -/
def keepPass (line : Bytes) : List Bytes → Bool → Bool × Bool
  | [], anyKeep => (false, anyKeep)
  | pat :: pats, _ => if contains line pat then (true, true) else keepPass line pats true

/-- The first pass of `line_visible`: whether a keep matched, and `any_keep`. -/
def keepScan (s : State) (line : Bytes) : List Bytes → Bool → Bool × Bool
  | [], anyKeep => (false, anyKeep)
  | name :: rest, anyKeep =>
    match s.scripts name with
    | none => keepScan s line rest anyKeep
    | some record =>
      if record.enabled then
        match keepPass line record.keeps anyKeep with
        | (true, anyKeep) => (true, anyKeep)
        | (false, anyKeep) => keepScan s line rest anyKeep
      else keepScan s line rest anyKeep

/-- The second pass: whether a drop matched. -/
def dropScan (s : State) (line : Bytes) : List Bytes → Bool
  | [] => false
  | name :: rest =>
    match s.scripts name with
    | none => dropScan s line rest
    | some record =>
      if record.enabled && record.drops.any (contains line) then true else dropScan s line rest

/-- `line_visible`. -/
def lineVisible (s : State) (line : Bytes) : Bool :=
  match keepScan s line s.order false with
  | (true, _) => true
  | (false, true) => false
  | (false, false) => !dropScan s line s.order

/-- `has_line_filter`. -/
def hasLineFilter (s : State) : State × Bool :=
  match s.lineFilterOn with
  | some on => (s, on)
  | none =>
    let on := s.order.any fun name => (s.scripts name).any fun r =>
      r.enabled && (r.keeps ≠ [] || r.drops ≠ [])
    ({ s with lineFilterOn := some on }, on)

/-! ## Batches -/

/-- The scan of a decided text that looks for a line that is not shown. -/
def keepsAll (visible : Bytes → Bool) : Bytes → Bytes → Bool
  | line, [] => line.isEmpty || visible line
  | line, b :: rest =>
    if b = 0x0A then visible (line ++ [b]) && keepsAll visible [] rest
    else keepsAll visible (line ++ [b]) rest

/-- The scan that puts together the lines that are shown. -/
def keptLines (visible : Bytes → Bool) : Bytes → Bytes → Bytes
  | line, [] => if !line.isEmpty && visible line then line else []
  | line, b :: rest =>
    if b = 0x0A then
      (if visible (line ++ [b]) then line ++ [b] else []) ++ keptLines visible [] rest
    else keptLines visible (line ++ [b]) rest

/-- The engine with `filter_pending`, `last_rx_ms` and `pending_output`. -/
structure Funnel where
  engine : State
  filterPending : Bytes := []
  lastRxMs : Int := 0
  pendingOutput : Option Bytes := none

/-- `apply_line_filter` once it knows where the decided text ends. -/
def decideTo (now : Int) (combined : Bytes) (n : Nat) (f : Funnel) : Funnel × Bytes :=
  let decided := combined.take n
  ({ f with filterPending := combined.drop n, lastRxMs := now },
    if keepsAll (lineVisible f.engine) [] decided then decided
    else keptLines (lineVisible f.engine) [] decided)

/-- `apply_line_filter`. -/
def applyLineFilter (now : Int) (text : Bytes) (framed : Bool) (f : Funnel) : Funnel × Bytes :=
  match hasLineFilter f.engine with
  | (engine, false) => ({ f with engine := engine }, text)
  | (engine, true) =>
    let f := { f with engine := engine }
    let combined := f.filterPending ++ text
    match Receive.lastNl combined 0 none with
    | none =>
      if framed || decide (pendingMax < combined.length) then
        decideTo now combined combined.length f
      else ({ f with filterPending := combined, lastRxMs := now }, [])
    | some n =>
      let rest := combined.length - n
      if decide (pendingMax < rest) || framed && decide (0 < rest) then
        decideTo now combined combined.length f
      else decideTo now combined n f

/-- `flush_pending`, called by `pump`. -/
def flushPending (now : Int) (f : Funnel) : Funnel :=
  if f.filterPending = [] then f
  else if pendingMax < f.filterPending.length ∨
      0 < f.lastRxMs ∧ pendingIdleMs < now - f.lastRxMs then
    let line := f.filterPending
    let f := { f with filterPending := [] }
    if lineVisible f.engine line then { f with pendingOutput := some line } else f
  else f

/-- `process_rx`: the text to append, none where there is nothing to show. -/
def processRx (codes : Codes) (text : Bytes) (now : Int) (framed : Bool) (f : Funnel) :
    Funnel × Option Bytes :=
  if text = [] then (f, none)
  else
    let flushed := f.pendingOutput
    let f := { f with pendingOutput := none }
    match hasReceiveHook f.engine with
    | (engine, hook) =>
      match if hook then (engine, true) else hasLineFilter engine with
      | (engine, false) => ({ f with engine := engine }, some (flushed.getD [] ++ text))
      | (engine, true) =>
        match dispatchReceive codes text engine with
        | (engine, none) => ({ f with engine := engine }, flushed)
        | (engine, some hooked) =>
          match applyLineFilter now hooked framed { f with engine := engine } with
          | (f, filtered) =>
            let filtered := flushed.getD [] ++ filtered
            (f, if filtered = [] then none else some filtered)

/-! ## The rules in force -/

/-- What a script gives: nothing while it is disabled. -/
def givenBy (s : State) (rules : Record → List Bytes) (name : Bytes) : List Bytes :=
  match s.scripts name with
  | none => []
  | some record => if record.enabled then rules record else []

/-- The keep patterns of those of the scripts that are enabled, in their order. -/
def keepsOf (s : State) (names : List Bytes) : List Bytes :=
  names.flatMap (givenBy s Record.keeps)

/-- The drop patterns of those of the scripts that are enabled, in their order. -/
def dropsOf (s : State) (names : List Bytes) : List Bytes :=
  names.flatMap (givenBy s Record.drops)

def keeps (s : State) : List Bytes := keepsOf s s.order

def drops (s : State) : List Bytes := dropsOf s s.order

/-- The decision as the rules give it: a keep that matches shows the line, a keep that does
not hides it, and without keeps a drop hides it. -/
def visibleUnder (keeps drops : List Bytes) (line : Bytes) : Bool :=
  keeps.any (contains line) || keeps.isEmpty && !drops.any (contains line)

theorem keepPass_eq (line : Bytes) (pats : List Bytes) (anyKeep : Bool) :
    keepPass line pats anyKeep =
      (pats.any (contains line), anyKeep || !pats.isEmpty) := by
  induction pats generalizing anyKeep with
  | nil => simp [keepPass]
  | cons pat pats ih =>
    rw [keepPass]
    by_cases hpat : contains line pat = true
    · simp [hpat]
    · rw [if_neg hpat, ih]
      simp [hpat]

theorem keepScan_eq (s : State) (line : Bytes) (names : List Bytes) (anyKeep : Bool) :
    keepScan s line names anyKeep =
      ((keepsOf s names).any (contains line), anyKeep || !(keepsOf s names).isEmpty) := by
  induction names generalizing anyKeep with
  | nil => simp [keepScan, keepsOf]
  | cons name rest ih =>
    have hcons : keepsOf s (name :: rest) = givenBy s Record.keeps name ++ keepsOf s rest :=
      List.flatMap_cons
    rw [hcons, keepScan, givenBy]
    cases hscript : s.scripts name with
    | none => simp [ih]
    | some record =>
      dsimp only
      by_cases hon : record.enabled = true
      · have hempty : (record.keeps ++ keepsOf s rest).isEmpty =
            (record.keeps.isEmpty && (keepsOf s rest).isEmpty) := by
          cases record.keeps <;> rfl
        rw [if_pos hon, if_pos hon, keepPass_eq, List.any_append, hempty]
        cases hmatch : record.keeps.any (contains line) with
        | true =>
          have hne : record.keeps.isEmpty = false := by
            cases hkeeps : record.keeps with
            | nil =>
              rw [hkeeps] at hmatch
              cases hmatch
            | cons pat pats => rfl
          simp only [Bool.true_or, hne, Bool.false_and, Bool.not_false, Bool.or_true]
        | false => simp only [ih, Bool.false_or, Bool.or_assoc, Bool.not_and]
      · rw [if_neg hon, if_neg hon, List.nil_append]
        exact ih anyKeep

theorem dropScan_eq (s : State) (line : Bytes) (names : List Bytes) :
    dropScan s line names = (dropsOf s names).any (contains line) := by
  induction names with
  | nil => rfl
  | cons name rest ih =>
    have hcons : dropsOf s (name :: rest) = givenBy s Record.drops name ++ dropsOf s rest :=
      List.flatMap_cons
    rw [hcons, dropScan, List.any_append, ih, givenBy]
    cases hscript : s.scripts name with
    | none => simp
    | some record =>
      dsimp only
      by_cases hon : record.enabled = true
      · rw [hon, Bool.true_and, if_pos rfl]
        cases record.drops.any (contains line) <;> rfl
      · rw [Bool.not_eq_true] at hon
        rw [hon, Bool.false_and]
        rfl

/-- `line_visible` reads nothing but the rules in force. -/
theorem lineVisible_eq (s : State) (line : Bytes) :
    lineVisible s line = visibleUnder (keeps s) (drops s) line := by
  have hkeep := keepScan_eq s line s.order false
  have hdrop := dropScan_eq s line s.order
  unfold lineVisible visibleUnder
  rw [hkeep, hdrop]
  rw [keeps, drops]
  cases hmatch : (keepsOf s s.order).any (contains line) with
  | true => rfl
  | false =>
    cases hnone : (keepsOf s s.order).isEmpty <;> simp

/-! ## What the filter is documented to do -/

/-- No keep rule, or a keep that matches, and no drop that matches. -/
def Shown (s : State) (line : Bytes) : Prop :=
  (keeps s = [] ∨ ∃ pat ∈ keeps s, pat <:+: line) ∧ ¬ ∃ pat ∈ drops s, pat <:+: line

/-- The line contains an enabled keep pattern and an enabled drop pattern. -/
def Contested (s : State) (line : Bytes) : Prop :=
  (∃ pat ∈ keeps s, pat <:+: line) ∧ ∃ pat ∈ drops s, pat <:+: line

theorem lineVisible_iff (s : State) (line : Bytes) :
    lineVisible s line = true ↔
      (∃ pat ∈ keeps s, pat <:+: line) ∨
        keeps s = [] ∧ ¬ ∃ pat ∈ drops s, pat <:+: line := by
  rw [lineVisible_eq, visibleUnder]
  simp [contains]

/-- The filter does what it is documented to do with a line exactly where the line is not
contested; a keep wins over every drop. -/
theorem lineVisible_shown_iff (s : State) (line : Bytes) :
    (lineVisible s line = true ↔ Shown s line) ↔ ¬ Contested s line := by
  rw [lineVisible_iff]
  unfold Shown Contested
  by_cases hkeep : ∃ pat ∈ keeps s, pat <:+: line
  · by_cases hdrop : ∃ pat ∈ drops s, pat <:+: line
    · simp [hkeep, hdrop]
    · simp [hkeep, hdrop]
  · simp [hkeep]

/-- A script that keeps `K` and drops `D`. -/
def bothRules : State where
  scripts _ := some { enabled := true, keeps := [[0x4B]], drops := [[0x44]] }
  order := [[0x61]]

/-- The line `KD` is shown. -/
theorem contested_line_shown : ¬ ∀ s line, lineVisible s line = true ↔ Shown s line := by
  intro h
  have hshown : lineVisible bothRules [0x4B, 0x44] = true := by decide
  obtain ⟨-, hdrop⟩ := (h bothRules [0x4B, 0x44]).mp hshown
  exact hdrop ⟨[0x44], by decide, by decide⟩

end Xcom.Script.LineFilter
