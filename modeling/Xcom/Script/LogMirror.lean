import Xcom.Pages.Store
import Xcom.Transition.History
import Xcom.Transition.Ring

/-!
# The log of the script console

`log`, `log_lines` and `clear_log` of `script_engine.lua`, and the panel that `render_imgui`
gives the text of a dirty poll.
-/

namespace Xcom.Script

open Transition Pages

/-- `LOG_LINE_MAX`. -/
def logLineMax : Nat := 2000

/-- `LOG_RING`. -/
def logRingSize : Nat := 200

/-- `LEVEL_TAG`. -/
def levelTag : List Config.Bytes :=
  [bytes "TRACE", bytes "DEBUG", bytes "INFO ", bytes "WARN ", bytes "ERROR", bytes "FATAL"]

/-- A line of the log; `level` is `none` for a value that is no index of the table. -/
def logLine (level : Option Nat) (tag : Config.Bytes) (parts : List Config.Bytes) : Config.Bytes :=
  let text := List.intercalate (bytes " ") parts
  let text := if text.length > logLineMax then text.take logLineMax ++ bytes "..." else text
  let level := ((level.bind fun l => if l = 0 then none else levelTag[l - 1]?).getD (bytes "INFO "))
  bytes "[" ++ level ++ bytes "][" ++ tag ++ bytes "] " ++ text

/-- The log fields of the engine. -/
structure ScriptLog where
  logRing : Nat → Option Config.Bytes := fun _ => none
  logHead : Nat := 0
  logCount : Nat := 0
  logFlushed : Nat := 0

namespace ScriptLog

/-- `M:log`. -/
def log (l : ScriptLog) (line : Config.Bytes) : ScriptLog :=
  let head := l.logHead % logRingSize + 1
  { l with
    logRing := Function.update l.logRing head (some line)
    logHead := head
    logCount := l.logCount + 1 }

/-- `M:log_lines`: the text, which is `nil` where nothing is new. -/
def logLines (l : ScriptLog) : Option Config.Bytes × ScriptLog :=
  if l.logCount = l.logFlushed then (none, l)
  else
    let count := min logRingSize l.logCount
    let start := l.logCount - count
    let lines := (List.range count).filterMap fun i => l.logRing ((start + i) % logRingSize + 1)
    (some (List.intercalate (bytes "\n") lines), { l with logFlushed := l.logCount })

/-- `M:clear_log`. -/
def clearLog (_ : ScriptLog) : ScriptLog := {}

end ScriptLog

/-- The engine's log and the panel.  `since` is what was logged since the last clear; the
source has no such field. -/
structure LogMirror where
  log : ScriptLog := {}
  panel : Config.Bytes := []
  since : List Config.Bytes := []

inductive LogOp
  | log (level : Option Nat) (tag : Config.Bytes) (parts : List Config.Bytes)
  | clear
  | poll

namespace LogMirror

/-- One frame of `render_imgui`: the panel keeps the last dirty text. -/
def poll (m : LogMirror) : LogMirror :=
  { m with log := m.log.logLines.2, panel := m.log.logLines.1.getD m.panel }

def step (m : LogMirror) : LogOp → LogMirror
  | .log level tag parts =>
    { m with
      log := m.log.log (logLine level tag parts), since := m.since ++ [logLine level tag parts] }
  | .clear => { m with log := m.log.clearLog, since := [] }
  | .poll => m.poll

def run (m : LogMirror) (ops : List LogOp) : LogMirror := ops.foldl step m

/-- The last lines since the clear, oldest first. -/
def tail (m : LogMirror) : Config.Bytes :=
  List.intercalate (bytes "\n") (m.since.drop (m.since.length - logRingSize))

/-- The panel shows the log. -/
def Mirrors (m : LogMirror) : Prop := m.panel = m.tail

instance (m : LogMirror) : Decidable m.Mirrors := inferInstanceAs (Decidable (_ = _))

/-! ## What holds of every run -/

/-- The ring holds the last lines, and a text that is not out of date is the one the panel
has. -/
structure Kept (m : LogMirror) : Prop where
  holds : Ring.Holds logRingSize (fun i => m.log.logRing (i + 1)) m.since
  head : m.log.logHead % logRingSize = m.since.length % logRingSize
  count : m.log.logCount = m.since.length
  flushed : m.log.logFlushed ≤ m.log.logCount
  shown : m.log.logFlushed = m.log.logCount → 0 < m.log.logCount → m.Mirrors

theorem kept_new : ({} : LogMirror).Kept where
  holds := Ring.holds_nil _
  head := rfl
  count := rfl
  flushed := Nat.le_refl 0
  shown := fun _ h => absurd h (Nat.lt_irrefl 0)

theorem Kept.log {m : LogMirror} (h : m.Kept) (level : Option Nat) (tag : Config.Bytes)
    (parts : List Config.Bytes) : (m.step (.log level tag parts)).Kept where
  holds := by
    have hpush := h.holds.push (logLine level tag parts)
    rw [← h.head, ← Ring.update_succ] at hpush
    exact hpush
  head := by
    have hhead := h.head
    simp only [step, ScriptLog.log, logRingSize, List.length_append, List.length_singleton]
      at hhead ⊢
    omega
  count := by
    have hcount := h.count
    simp only [step, ScriptLog.log, List.length_append, List.length_singleton]
    omega
  flushed := Nat.le_succ_of_le h.flushed
  shown := by
    intro hsame
    have hle := h.flushed
    have hnew : m.log.logFlushed = m.log.logCount + 1 := hsame
    omega

theorem kept_clear (m : LogMirror) : (m.step .clear).Kept where
  holds := Ring.holds_nil _
  head := rfl
  count := rfl
  flushed := Nat.le_refl 0
  shown := fun _ h => absurd h (Nat.lt_irrefl 0)

/-- A poll of a log that has changed gives the panel its tail. -/
theorem logLines_dirty {m : LogMirror} (h : m.Kept) (hdirty : m.log.logCount ≠ m.log.logFlushed) :
    m.log.logLines = (some m.tail, { m.log with logFlushed := m.log.logCount }) := by
  have hread := h.holds.read
  rw [Ring.read, ← h.count] at hread
  rw [ScriptLog.logLines, if_neg hdirty, tail, ← h.count]
  dsimp only
  rw [hread]

theorem Kept.poll {m : LogMirror} (h : m.Kept) :
    m.poll.Kept ∧ (m.log.logCount ≠ 0 → m.poll.Mirrors) := by
  by_cases hclean : m.log.logCount = m.log.logFlushed
  · have hsame : m.poll = m := by
      rw [LogMirror.poll, ScriptLog.logLines, if_pos hclean]
      rfl
    rw [hsame]
    exact ⟨h, fun hsome => h.shown hclean.symm (Nat.pos_of_ne_zero hsome)⟩
  · have hdirty := logLines_dirty h hclean
    have hmirrors : m.poll.Mirrors := by
      have hpanel : m.poll.panel = m.tail := by
        rw [LogMirror.poll, hdirty, Option.getD_some]
      have htail : m.poll.tail = m.tail := by
        simp only [tail, LogMirror.poll]
      rw [Mirrors, hpanel, htail]
    refine ⟨⟨?_, ?_, ?_, ?_, fun _ _ => hmirrors⟩, fun _ => hmirrors⟩
    · rw [LogMirror.poll, hdirty]
      exact h.holds
    · rw [LogMirror.poll, hdirty]
      exact h.head
    · rw [LogMirror.poll, hdirty]
      exact h.count
    · rw [LogMirror.poll, hdirty]

theorem Kept.step {m : LogMirror} (h : m.Kept) (op : LogOp) : (m.step op).Kept := by
  cases op with
  | log level tag parts => exact h.log level tag parts
  | clear => exact kept_clear m
  | poll => exact h.poll.1

/-! ## Polls of an empty log -/

/-- A poll that finds nothing logged since the clear finds the panel empty. -/
def Seen (m : LogMirror) : LogOp → Prop
  | .poll => m.log.logCount = 0 → m.panel = []
  | _ => True

/-- A poll of an empty log leaves the panel as it is. -/
theorem mirrors_empty {m : LogMirror} (h : m.Kept) (hnone : m.log.logCount = 0) :
    m.poll.Mirrors ↔ m.panel = [] := by
  have hflushed := h.flushed
  have hclean : m.log.logCount = m.log.logFlushed := by omega
  have hsame : m.poll = m := by
    rw [LogMirror.poll, ScriptLog.logLines, if_pos hclean]
    rfl
  have hsince : m.since = [] := List.length_eq_zero_iff.mp (h.count.symm.trans hnone)
  rw [hsame, Mirrors, tail, hsince]
  rfl

theorem mirrors_iff {m : LogMirror} (h : m.Kept) : m.poll.Mirrors ↔ m.Seen .poll := by
  by_cases hnone : m.log.logCount = 0
  · rw [mirrors_empty h hnone]
    exact ⟨fun hempty _ => hempty, fun hseen => hseen hnone⟩
  · exact ⟨fun _ hzero => absurd hzero hnone, fun _ => h.poll.2 hnone⟩

theorem mirrors_run_iff {m : LogMirror} (h : m.Kept) (ops : List LogOp) :
    (∀ pre, pre ++ [.poll] <+: ops → (m.run (pre ++ [.poll])).Mirrors) ↔
      History.Throughout step Seen m ops := by
  have hagree : ∀ (m : LogMirror) op, m.Kept →
      ((op = .poll → (m.step op).Mirrors) ↔ m.Seen op) := by
    intro m op hm
    cases op with
    | poll => exact ⟨fun hmirrors => (mirrors_iff hm).mp (hmirrors rfl),
        fun hseen _ => (mirrors_iff hm).mpr hseen⟩
    | log level tag parts => exact ⟨fun _ => trivial, fun _ => nofun⟩
    | clear => exact ⟨fun _ => trivial, fun _ => nofun⟩
  rw [← History.throughout_congr hagree (fun m op hm _ => hm.step op) h ops,
    History.throughout_iff]
  constructor
  · rintro hall pre _ hpre rfl
    have hmirrors := hall pre hpre
    rw [run, List.foldl_concat] at hmirrors
    exact hmirrors
  · intro hall pre hpre
    rw [run, List.foldl_concat]
    exact hall pre .poll hpre rfl

/-- In every run of logging, clearing and polling: after each poll the panel shows the last
lines since the clear, exactly when no poll finds nothing logged since the clear while the
panel still has a text. -/
theorem log_mirror_iff (ops : List LogOp) :
    (∀ pre, pre ++ [.poll] <+: ops → (run {} (pre ++ [.poll])).Mirrors) ↔
      History.Throughout step Seen {} ops :=
  mirrors_run_iff kept_new ops

/-- The clear of a log that was shown does not reach the panel. -/
theorem clear_not_shown :
    ¬ ∀ pre, pre ++ [.poll] <+: [.log (some 3) (bytes "a") [bytes "b"], .poll, .clear, .poll] →
      (run {} (pre ++ [.poll])).Mirrors := by
  intro hall
  have hlast := hall [.log (some 3) (bytes "a") [bytes "b"], .poll, .clear] List.prefix_rfl
  revert hlast
  decide

end LogMirror

end Xcom.Script
