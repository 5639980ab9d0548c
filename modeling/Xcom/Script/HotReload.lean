import Mathlib.Data.List.Sort
import Xcom.Script.Preserves

/-!
# Hot reload

The watcher notes which script files changed and when; the pump waits until a burst of
events is over and loads the scripts that are enabled.  A load that fails disables its
script, and from then on the plan leaves it out: the next save that parses is not loaded.
-/

namespace Xcom.Script.HotReload

/-! ## The debounce -/

/-- The debounce scheduler: the last event of every name whose burst is not over. -/
structure Debounce where
  windowMs : Nat := 200
  pending : Bytes → Option Nat := fun _ => none

namespace Debounce

/-- `debounce:touch`. -/
def touch (d : Debounce) (name : Bytes) (now : Nat) : Debounce :=
  { d with pending := Function.update d.pending name (some now) }

/-- `debounce:ready`: true once for every burst that is over. -/
def ready (d : Debounce) (name : Bytes) (now : Nat) : Bool × Debounce :=
  match d.pending name with
  | none => (false, d)
  | some stamp =>
    if now - stamp < d.windowMs then (false, d)
    else (true, { d with pending := Function.update d.pending name none })

/-- The loop of `pump` over the changed names: those that settled, and those still changed. -/
def drain (now : Nat) : List Bytes → Debounce → List Bytes × List Bytes × Debounce
  | [], d => ([], [], d)
  | name :: names, d =>
    let (settles, d) := d.ready name now
    let (settled, changed, d) := drain now names d
    if settles then (name :: settled, changed, d) else (settled, name :: changed, d)

end Debounce

/-- `reload_plan`: the enabled scripts among the changed ones, sorted. -/
def reloadPlan (s : Engine.State) (changed : List Bytes) : List Bytes :=
  (changed.filter s.isEnabled).insertionSort (· ≤ ·)

/-- `name:match("%.lua$")`. -/
def isLua (name : Bytes) : Bool := [0x2E, 0x6C, 0x75, 0x61].isSuffixOf name

/-! ## The watcher as a machine -/

/-- A reload by the pump: of which burst, when its last event was and when it ran. -/
structure Reload where
  name : Bytes
  burst : Nat
  lastEvent : Nat
  time : Nat
  deriving DecidableEq, Repr

/-- The engine with its watcher and the files.  The last fields record: the scripts the user
has enabled and not disabled since, the files saved with their event still to come, the
content of the last load where it succeeded, the events, and the reloads by the pump. -/
structure State where
  engine : Engine.State := {}
  disk : Bytes → Option Engine.Code := fun _ => none
  now : Nat := 0
  debounce : Debounce := {}
  changed : List Bytes := []
  wanted : Bytes → Bool := fun _ => false
  unseen : Bytes → Bool := fun _ => false
  loaded : Bytes → Option Engine.Code := fun _ => none
  lastEvent : Bytes → Option Nat := fun _ => none
  burst : Bytes → Nat := fun _ => 0
  reloads : List Reload := []

/-- What `on_reload` flushes through the hooks before a load. -/
abbrev Held := Option (Bytes × Engine.Codes)

namespace State

/-- `load_script` of the file as it is. -/
def load (s : State) (name : Bytes) (held : Held) : State :=
  if (s.engine.scripts name).isSome then
    let r := Engine.loadScript name ⟨held, s.disk name⟩ s.engine
    { s with
      engine := r.1
      loaded := Function.update s.loaded name (if r.2 then s.disk name else none) }
  else s

/-- `enable` by the user. -/
def enable (s : State) (name : Bytes) (held : Held) : State :=
  if (s.engine.scripts name).isSome then
    let r := Engine.loadScript name ⟨held, s.disk name⟩ s.engine
    { s with
      engine := Engine.enable name ⟨held, s.disk name⟩ s.engine
      loaded := Function.update s.loaded name (if r.2 then s.disk name else none)
      wanted := Function.update s.wanted name true }
  else s

/-- `enable(name, false)`. -/
def disable (s : State) (name : Bytes) : State :=
  { s with
    engine := Engine.disable name s.engine
    wanted := Function.update s.wanted name false }

/-- The callback of the watcher. -/
def watchEvent (s : State) (name : Bytes) : State :=
  if isLua name then
    { s with
      debounce := s.debounce.touch name s.now
      changed := if s.changed.contains name then s.changed else s.changed ++ [name]
      unseen := Function.update s.unseen name false
      lastEvent := Function.update s.lastEvent name (some s.now)
      burst :=
        if (s.debounce.pending name).isSome then s.burst
        else Function.update s.burst name (s.burst name + 1) }
  else s

/-- A reload by the pump. -/
def reloadSettled (held : Bytes → Held) (s : State) (name : Bytes) : State :=
  { s.load name (held name) with
    reloads :=
      ⟨name, s.burst name, (s.lastEvent name).getD 0, s.now⟩ :: s.reloads }

/-- The names that settle in the next pump. -/
def settled (s : State) : List Bytes := (Debounce.drain s.now s.changed s.debounce).1

/-- `pump`, after `flush_pending`. -/
def pump (held : Bytes → Held) (s : State) : State :=
  let r := Debounce.drain s.now s.changed s.debounce
  let s := { s with changed := r.2.1, debounce := r.2.2 }
  (reloadPlan s.engine r.1).foldl (reloadSettled held) s

/-- A file is saved; its event comes later. -/
def save (s : State) (name : Bytes) (content : Option Engine.Code) : State :=
  { s with
    disk := Function.update s.disk name content
    unseen := Function.update s.unseen name true }

end State

/-- What happens; `reload` is one by the console, `run` a step in which no script is loaded,
enabled or disabled. -/
inductive Event
  | scan (names : List Bytes)
  | enable (name : Bytes) (held : Held)
  | disable (name : Bytes)
  | reload (name : Bytes) (held : Held)
  | run (o : Engine.Op)
  | save (name : Bytes) (content : Option Engine.Code)
  | watch (name : Bytes)
  | tick (ms : Nat)
  | pump (held : Bytes → Held)

def State.step (s : State) : Event → Option State
  | .scan names => some { s with engine := Engine.loadAll (names.filter isLua) s.engine }
  | .enable name held => some (s.enable name held)
  | .disable name => some (s.disable name)
  | .reload name held => some (s.load name held)
  | .run o =>
    if o.loads then none
    else (Engine.step s.engine o).map fun engine => { s with engine := engine }
  | .save name content => some (s.save name content)
  | .watch name => some (s.watchEvent name)
  | .tick ms => some { s with now := s.now + ms }
  | .pump held => some (s.pump held)

/-- The engine with a watcher of the window `windowMs`, from `watch_start` on. -/
def machine (windowMs : Nat) : Transition.Machine State Event :=
  ⟨{ debounce := { windowMs := windowMs } }, State.step⟩

/-- The content parses, and runs without an error. -/
def Loads (content : Option Engine.Code) : Prop :=
  ∃ code, content = some code ∧ ∀ c s, (Engine.exec code c s).2 ≠ .error

/-- No burst settles for a script that the user enabled and a failed load disabled. -/
def NoneFailed (s : State) : Event → Prop
  | .pump _ => (s.settled.all fun name => !s.wanted name || s.engine.isEnabled name) = true
  | _ => True

instance (s : State) (e : Event) : Decidable (NoneFailed s e) :=
  match e with
  | .pump _ => inferInstanceAs (Decidable (_ = true))
  | .scan _ => isTrue trivial
  | .enable _ _ => isTrue trivial
  | .disable _ => isTrue trivial
  | .reload _ _ => isTrue trivial
  | .run _ => isTrue trivial
  | .save _ _ => isTrue trivial
  | .watch _ => isTrue trivial
  | .tick _ => isTrue trivial

end Xcom.Script.HotReload
