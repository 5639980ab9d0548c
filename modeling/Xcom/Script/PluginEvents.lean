import Mathlib.Data.List.Induction

/-!
# The event channel of plugin pages

The native side queues a record for every interaction with a widget and copies whole
records into a buffer; the bridge splits the buffer and reads the records with a Lua
pattern.
-/

namespace Xcom.Script

/-- A Lua string. -/
abbrev Bytes := List UInt8

/-- The kinds of an interaction. -/
inductive Kind
  | check
  | slider
  | combo
  | click
  deriving DecidableEq, Repr

/-- The name of a kind in a record. -/
def Kind.name : Kind → Bytes
  | .check => [0x63, 0x68, 0x65, 0x63, 0x6B]
  | .slider => [0x73, 0x6C, 0x69, 0x64, 0x65, 0x72]
  | .combo => [0x63, 0x6F, 0x6D, 0x62, 0x6F]
  | .click => [0x63, 0x6C, 0x69, 0x63, 0x6B]

/-- Neither a field separator nor the end of a record. -/
def plainByte (b : UInt8) : Bool := b ≠ 0x3A ∧ b ≠ 0

/-- The characters of a widget id: `[A-Za-z0-9_.-]`. -/
def widgetByte (b : UInt8) : Bool :=
  0x41 ≤ b ∧ b ≤ 0x5A ∨ 0x61 ≤ b ∧ b ≤ 0x7A ∨ 0x30 ≤ b ∧ b ≤ 0x39 ∨
    b = 0x5F ∨ b = 0x2E ∨ b = 0x2D

/-- An interaction with a widget of a page `script:local`. -/
structure Interaction where
  script : Bytes
  localId : Bytes
  kind : Kind
  widget : Bytes
  value : Bytes
  script_plain : script.all plainByte = true
  local_plain : localId.all plainByte = true
  widget_documented : widget ≠ [] ∧ widget.all widgetByte = true
  value_plain : value.all plainByte = true
  deriving DecidableEq

/-- The id of the page. -/
def Interaction.page (i : Interaction) : Bytes := i.script ++ [0x3A] ++ i.localId

/-- The record of `spec_event`: `page:kind:wid[:value]`. -/
def Interaction.record (i : Interaction) : Bytes :=
  i.page ++ [0x3A] ++ i.kind.name ++ [0x3A] ++ i.widget ++
    if i.value = [] then [] else [0x3A] ++ i.value

/-- `kMaxQueued`. -/
def kMaxQueued : Nat := 256

/-- The size of `_plugin_event_buf`. -/
def pluginEventBuf : Nat := 4096

/-- `spec_event`: the oldest record goes when the queue is full. -/
def specEvent (queue : List Bytes) (i : Interaction) : List Bytes :=
  (if kMaxQueued ≤ queue.length then queue.drop 1 else queue) ++ [i.record]

/-- The loop of `xcom_imgui_take_plugin_events`: what is copied, and what stays queued. -/
def takeEvents (capacity : Nat) : Nat → List Bytes → Bytes × List Bytes
  | _, [] => ([], [])
  | written, event :: rest =>
    if capacity < written + (event.length + 1) then ([], event :: rest)
    else
      let taken := takeEvents capacity (written + (event.length + 1)) rest
      (event ++ [0] ++ taken.1, taken.2)

/-! ## The bridge -/

/-- A record as the bridge hands it on. -/
structure Event where
  page : Bytes
  kind : Bytes
  widget : Option Bytes
  value : Option Bytes
  deriving DecidableEq, Repr

/-- The text `check|slider|combo|click`: a Lua pattern has no alternation, so this is what
the second capture stands for. -/
def kindPattern : Bytes :=
  Kind.check.name ++ [0x7C] ++ Kind.slider.name ++ [0x7C] ++ Kind.combo.name ++ [0x7C] ++
    Kind.click.name

/-- `^(.-):(check|slider|combo|click):(.+)$`: the first and the third capture. -/
def matchRecord : Bytes → Option (Bytes × Bytes)
  | [] => none
  | c :: rest =>
    let sep := [0x3A] ++ kindPattern ++ [0x3A]
    if sep.isPrefixOf (c :: rest) ∧ (c :: rest).drop sep.length ≠ [] then
      some ([], (c :: rest).drop sep.length)
    else (matchRecord rest).map fun m => (c :: m.1, m.2)

/-- `^([^:]+):?(.*)$`: the widget, and the value where there is one. -/
def matchTail (tail : Bytes) : Option Bytes × Option Bytes :=
  let widget := tail.takeWhile (· ≠ 0x3A)
  let value := (tail.dropWhile (· ≠ 0x3A)).drop 1
  if widget = [] then (none, none)
  else (some widget, if value = [] then none else some value)

/-- One record of the loop of `take_plugin_events`. -/
def decodeRecord (record : Bytes) : Option Event :=
  (matchRecord record).map fun m =>
    { page := m.1, kind := kindPattern
      widget := (matchTail m.2).1, value := (matchTail m.2).2 }

/-- The runs `[^%z]+` matches one after the other. -/
def gmatchRecords : Bytes → Bytes → List Bytes
  | [], before => if before = [] then [] else [before]
  | b :: rest, before =>
    if b = 0 then (if before = [] then [] else [before]) ++ gmatchRecords rest []
    else gmatchRecords rest (before ++ [b])

/-- `take_plugin_events` on what the native side copied. -/
def decodeBuffer (raw : Bytes) : List Event := (gmatchRecords raw []).filterMap decodeRecord

/-- What the bridge should make of an interaction. -/
def Interaction.event (i : Interaction) : Event where
  page := i.page
  kind := i.kind.name
  widget := some i.widget
  value := if i.value = [] then none else some i.value

/-! ## Runs -/

/-- The channel.  `queued` and `taken` record the interactions in order, and `stalled` that
a drain found records and took none. -/
structure Channel where
  queue : List Bytes := []
  decoded : List Event := []
  queued : List Interaction := []
  taken : Nat := 0
  stalled : Bool := false
  deriving DecidableEq

/-- A user acts on a widget, or the window drains the channel. -/
inductive Op
  | interact (i : Interaction)
  | drain
  deriving DecidableEq

def Channel.op (c : Channel) : Op → Channel
  | .interact i => { c with queue := specEvent c.queue i, queued := c.queued ++ [i] }
  | .drain =>
    let taken := takeEvents pluginEventBuf 0 c.queue
    { c with
      queue := taken.2
      decoded := c.decoded ++ decodeBuffer taken.1
      taken := c.taken + (c.queue.length - taken.2.length)
      stalled := c.stalled || (c.queue ≠ [] && taken.1 = []) }

def run (ops : List Op) : Channel := ops.foldl Channel.op {}

/-- At most 256 interactions are outstanding: none comes in while the queue is full. -/
def Outstanding (ops : List Op) : Prop :=
  ∀ before i after, ops = before ++ .interact i :: after → (run before).queue.length < kMaxQueued

/-- Every interaction taken is decoded as it was, once and in order, the others are still
queued in order, and no drain is blocked. -/
structure Exact (c : Channel) : Prop where
  decoded : c.decoded = (c.queued.take c.taken).map Interaction.event
  order : c.queue = (c.queued.drop c.taken).map Interaction.record
  live : c.stalled = false

/-- No drain finds an interaction queued. -/
def QuietDrains (ops : List Op) : Prop :=
  ∀ before after, ops = before ++ .drain :: after → (run before).queue = []

theorem run_concat (ops : List Op) (o : Op) : run (ops ++ [o]) = (run ops).op o := by
  rw [run, List.foldl_append]
  rfl

theorem run_append (ops later : List Op) :
    run (ops ++ later) = later.foldl Channel.op (run ops) := by
  rw [run, List.foldl_append]
  rfl

/-- A drain takes the first records, and none only if it copies nothing. -/
theorem takeEvents_spec (capacity written : Nat) (queue : List Bytes) :
    ∃ k, k ≤ queue.length ∧ (takeEvents capacity written queue).2 = queue.drop k ∧
      ((takeEvents capacity written queue).1 = [] ↔ k = 0) := by
  induction queue generalizing written with
  | nil => exact ⟨0, Nat.le_refl _, rfl, by simp [takeEvents]⟩
  | cons event rest ih =>
    rw [takeEvents]
    split
    · exact ⟨0, Nat.zero_le _, rfl, by simp⟩
    · obtain ⟨k, hk, hrest, -⟩ := ih (written + (event.length + 1))
      refine ⟨k + 1, Nat.succ_le_succ hk, hrest, ?_⟩
      simp

/-- What a drain does to the channel. -/
theorem drain_spec (c : Channel) :
    ∃ k, k ≤ c.queue.length ∧ (c.op .drain).queue = c.queue.drop k ∧
      (c.op .drain).taken = c.taken + k ∧
      (c.op .drain).stalled = (c.stalled || (decide (c.queue ≠ []) && decide (k = 0))) := by
  obtain ⟨k, hk, hrest, hnone⟩ := takeEvents_spec pluginEventBuf 0 c.queue
  refine ⟨k, hk, hrest, ?_, ?_⟩
  · simp only [Channel.op, hrest, List.length_drop]
    omega
  · simp only [Channel.op, hnone]

theorem drain_empty {c : Channel} (h : c.queue = []) : c.op .drain = c := by
  obtain ⟨queue, decoded, queued, taken, stalled⟩ := c
  obtain rfl : queue = [] := h
  simp [Channel.op, takeEvents, decodeBuffer, gmatchRecords]

/-- What was taken and what is queued are the interactions in order; whatever is decoded
has the kind the pattern asks for. -/
structure Kept (c : Channel) : Prop where
  within : c.taken ≤ c.queued.length
  order : c.queue = (c.queued.drop c.taken).map Interaction.record
  kinds : ∀ e ∈ c.decoded, e.kind = kindPattern

theorem decodeBuffer_kind (raw : Bytes) : ∀ e ∈ decodeBuffer raw, e.kind = kindPattern := by
  intro e he
  obtain ⟨record, -, hrecord⟩ := List.mem_filterMap.mp he
  obtain ⟨m, -, rfl⟩ := Option.map_eq_some_iff.mp hrecord
  rfl

theorem kept_op {c : Channel} (h : Kept c) {o : Op}
    (ho : ∀ i, o = .interact i → c.queue.length < kMaxQueued) : Kept (c.op o) := by
  cases o with
  | interact i =>
    have hroom : ¬ kMaxQueued ≤ c.queue.length := Nat.not_le_of_lt (ho i rfl)
    refine ⟨?_, ?_, h.kinds⟩
    · simp only [Channel.op, List.length_append]
      exact Nat.le_add_right_of_le h.within
    · simp only [Channel.op, specEvent, if_neg hroom]
      rw [List.drop_append_of_le_length h.within, List.map_append, ← h.order]
      rfl
  | drain =>
    obtain ⟨k, hk, hqueue, htaken, -⟩ := drain_spec c
    have hlen := congrArg List.length h.order
    rw [List.length_map, List.length_drop] at hlen
    refine ⟨?_, ?_, ?_⟩
    · have hqueued : (c.op .drain).queued = c.queued := rfl
      have hwithin := h.within
      rw [htaken, hqueued]
      omega
    · have hqueued : (c.op .drain).queued = c.queued := rfl
      rw [hqueue, htaken, hqueued, h.order, ← List.map_drop, List.drop_drop]
    · intro e he
      rcases List.mem_append.mp he with he | he
      · exact h.kinds e he
      · exact decodeBuffer_kind _ e he

theorem outstanding_concat {ops : List Op} {o : Op} (h : Outstanding (ops ++ [o])) :
    Outstanding ops ∧ ∀ i, o = .interact i → (run ops).queue.length < kMaxQueued := by
  constructor
  · intro before i after heq
    exact h before i (after ++ [o]) (by rw [heq, List.append_assoc, List.cons_append])
  · rintro i rfl
    exact h ops i [] rfl

theorem kept_run {ops : List Op} (h : Outstanding ops) : Kept (run ops) := by
  induction ops using List.reverseRecOn with
  | nil => exact ⟨Nat.le_refl _, rfl, by simp [run]⟩
  | append_singleton ops o ih =>
    obtain ⟨hops, ho⟩ := outstanding_concat h
    rw [run_concat]
    exact kept_op (ih hops) ho

/-- A channel that has stalled, or has taken something, stays so. -/
theorem foldl_op_grows (later : List Op) (c : Channel) :
    c.taken ≤ (later.foldl Channel.op c).taken ∧
      (c.stalled = true → (later.foldl Channel.op c).stalled = true) := by
  induction later generalizing c with
  | nil => exact ⟨Nat.le_refl _, id⟩
  | cons o later ih =>
    obtain ⟨htaken, hstalled⟩ := ih (c.op o)
    cases o with
    | interact i => exact ⟨htaken, hstalled⟩
    | drain =>
      obtain ⟨k, -, -, hk, hs⟩ := drain_spec c
      rw [hk] at htaken
      refine ⟨Nat.le_trans (Nat.le_add_right _ _) htaken, fun h => hstalled ?_⟩
      rw [hs, h]
      rfl

theorem kindPattern_ne (kind : Kind) : kind.name ≠ kindPattern := by
  cases kind <;> decide

/-- Nothing that was taken has been decoded as it was. -/
theorem exact_taken {c : Channel} (hkept : Kept c) (h : Exact c) : c.taken = 0 := by
  by_contra hpos
  have hwithin := hkept.within
  obtain ⟨i, rest, hcons⟩ : ∃ i rest, c.queued.take c.taken = i :: rest := by
    apply List.exists_cons_of_ne_nil
    intro hnil
    have hlen := congrArg List.length hnil
    rw [List.length_take, List.length_nil] at hlen
    omega
  have hdecoded := h.decoded
  rw [hcons, List.map_cons] at hdecoded
  have hkind := hkept.kinds i.event (hdecoded ▸ List.mem_cons_self)
  exact kindPattern_ne i.kind hkind

/-- Within 256 outstanding interactions, a run of the channel hands the interactions on as
they were exactly when no drain finds any. -/
theorem channel_exact_iff {ops : List Op} (hout : Outstanding ops) :
    Exact (run ops) ↔ QuietDrains ops := by
  constructor
  · intro hexact before after heq
    by_contra hne
    obtain ⟨k, -, -, htaken, hstalled⟩ := drain_spec (run before)
    have hrun : run ops = after.foldl Channel.op ((run before).op .drain) := by
      rw [heq, run_append]
      rfl
    obtain ⟨hgrows, hstays⟩ := foldl_op_grows after ((run before).op .drain)
    rw [← hrun] at hgrows hstays
    by_cases hk : k = 0
    · have hstall : ((run before).op .drain).stalled = true := by
        rw [hstalled]
        simp [hne, hk]
      have hdead := hstays hstall
      rw [hexact.live] at hdead
      cases hdead
    · have hzero := exact_taken (kept_run hout) hexact
      omega
  · intro hquiet
    induction ops using List.reverseRecOn with
    | nil => exact ⟨rfl, rfl, rfl⟩
    | append_singleton ops o ih =>
      obtain ⟨hops, ho⟩ := outstanding_concat hout
      have hprev := ih hops fun before after heq => hquiet before (after ++ [o])
        (by rw [heq, List.append_assoc, List.cons_append])
      have hkept := kept_run hout
      have hzero := exact_taken (kept_run hops) hprev
      rw [run_concat] at hkept ⊢
      cases o with
      | interact i =>
        refine ⟨?_, hkept.order, hprev.live⟩
        have hdecoded := hprev.decoded
        simp only [Channel.op]
        rw [hzero] at hdecoded ⊢
        exact hdecoded
      | drain =>
        have hempty : (run ops).queue = [] := hquiet ops [] rfl
        rw [drain_empty hempty]
        exact hprev

/-- A button of a page. -/
def sampleClick : Interaction where
  script := [0x61]
  localId := [0x62]
  kind := .click
  widget := [0x67, 0x6F]
  value := []
  script_plain := rfl
  local_plain := rfl
  widget_documented := by decide
  value_plain := rfl

/-- A drain before the click. -/
theorem channel_exact_iff_early : Exact (run [.drain, .interact sampleClick]) := by
  have hout : Outstanding [.drain, .interact sampleClick] := by
    intro before i after heq
    match before with
    | [] => cases heq
    | [_] =>
      obtain ⟨rfl, -⟩ := List.cons.inj heq
      decide
    | _ :: _ :: _ => simp at heq
  apply (channel_exact_iff hout).mpr
  intro before after heq
  match before with
  | [] => rfl
  | [_] => simp at heq
  | _ :: _ :: _ => simp at heq

/-- A click that is drained is not decoded. -/
theorem channel_loses_click :
    Outstanding [.interact sampleClick, .drain] ∧
      ¬ Exact (run [.interact sampleClick, .drain]) := by
  constructor
  · intro before i after heq
    match before with
    | [] => decide
    | [_] => simp at heq
    | _ :: _ :: _ => simp at heq
  · intro h
    have hdecoded := h.decoded
    revert hdecoded
    decide

end Xcom.Script
