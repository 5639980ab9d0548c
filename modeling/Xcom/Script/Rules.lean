import Xcom.Script.Engine

/-!
# Highlight rules on their way to the renderer

The engine raises `rules_dirty` where a script changes its rules and at the end of a load.
`Window:start` takes the rules once; a frame pushes what the window holds while its own
flag is up.  The callback `on_rules_changed` is given to the engine, which has no call of it.
-/

namespace Xcom.Script.Engine

/-- `MAX_RULES`. -/
def maxRules : Nat := 32

/-- What one script of the order has to give: nothing while it is disabled. -/
def State.rulesOf (s : State) (name : Bytes) : List Rule :=
  match s.scripts name with
  | none => []
  | some record => if record.enabled then record.rules else []

/-- `collect_rules`. -/
def collectRules (s : State) : List Rule := (s.order.flatMap s.rulesOf).take maxRules

/-- `take_rules_if_dirty`. -/
def takeRulesIfDirty (s : State) : State × Option (List Rule) :=
  if s.rulesDirty then
    let s := { s with rulesDirty := false }
    (s, some (collectRules s))
  else (s, none)

end Xcom.Script.Engine

namespace Xcom.Script.Highlight

open Engine (State File Rule)

/-- The engine, `_script_rules` and `_script_rules_dirty` of the window, and the list the
renderer was handed last. -/
structure Window where
  scripts : State
  scriptRules : Option (List Rule) := none
  scriptRulesDirty : Bool := false
  nativeRules : List Rule := []

/-- The engine as `Window:start` brings it up: one scan of the directory, none where it
cannot be read, and the scripts that the configuration has enabled. -/
def startScripts (scan : Option (List Bytes)) (scriptEnabled : List (Bytes × File)) : State :=
  let scanned := match scan with
    | none => {}
    | some names => Engine.loadAll names {}
  scriptEnabled.foldl (fun s e => Engine.enable e.1 e.2 s) scanned

/-- `Window:start`, to the one-shot push. -/
def start (scan : Option (List Bytes)) (scriptEnabled : List (Bytes × File)) : Window :=
  match Engine.takeRulesIfDirty (startScripts scan scriptEnabled) with
  | (scripts, none) => { scripts }
  | (scripts, some rules) => { scripts, scriptRules := some rules, scriptRulesDirty := true }

/-- The highlight part of a rendered frame. -/
def Window.frame (w : Window) : Window :=
  if w.scriptRulesDirty then
    { w with scriptRulesDirty := false, nativeRules := w.scriptRules.getD [] }
  else w

/-- What happens once the window runs. -/
inductive Event
  | engine (o : Engine.Op)
  | frame

/-- One event; an operation that the engine cannot make changes nothing. -/
def Window.step (w : Window) : Event → Window
  | .engine o => { w with scripts := (Engine.step w.scripts o).getD w.scripts }
  | .frame => w.frame

/-- A run of the window. -/
def Window.run (w : Window) (events : List Event) : Window := events.foldl Window.step w

end Xcom.Script.Highlight
