import Xcom.Receive.WholeLines
import Xcom.Transition.Marked

/-!
# Segments and their stamps

The first batch of a session and every batch that arrives the gap or more after the one
before it begin a segment.  The text of a segment is what the charset conversion gives for
its batches; in the view a stamp with the time of the segment's arrival is to stand before
the first byte of it.
-/

namespace Xcom.Receive

/-! ## Sessions -/

/-- The window over a session, and what has arrived: the time of the last batch, the times
the segments began at, the wall clock of the first, and the converted bytes with the
numbers of their segments.  A segment is `lost` if its first batch was withheld whole. -/
structure RxSession where
  window : RxWindow
  ingress : Option Int := none
  segments : List Int := []
  wall : Int := 0
  converted : List (Nat × UInt8) := []
  lost : Bool := false

/-- What happens in a session. -/
inductive Arrival
  | batch (text : List UInt8) (ingressMs : Int)
  | flush
  | clear
  | options (o : Options)

namespace RxSession

variable (cfg : RxConfig)

/-- The number of the present segment. -/
def current (x : RxSession) : Nat := x.segments.length - 1

/-- The stamp of a segment: the wall time of its arrival. -/
def stamp (x : RxSession) (segment : Nat) : List UInt8 :=
  cfg.timestampPrefix
    (x.wall + (x.segments.getD segment 0 - x.segments.headD 0))

/-- A batch that arrives at `t` begins a segment. -/
def begins (x : RxSession) (t : Int) : Bool :=
  match x.ingress with
  | none => true
  | some last => cfg.timestampGapMs ≤ t - last

/-- A batch that is not skipped arrives. -/
def arrive (env : Env) (x : RxSession) (text : List UInt8) (t : Int) : RxSession :=
  let out := (x.window.convertBatch cfg text).1
  let segments := if x.begins cfg t then x.segments ++ [t] else x.segments
  { window := x.window.takeBatch cfg env ⟨text, some t, true⟩
    ingress := some t
    segments := segments
    wall := if x.segments = [] then env.wallMs else x.wall
    converted := x.converted ++ (out.getD []).map (Prod.mk (segments.length - 1))
    lost := if x.begins cfg t then out.isNone else x.lost }

/-- One step; the stamps stay on and the automatic frame break off. -/
def step (x : RxSession) (e : Env × Arrival) : Option RxSession :=
  match e.2 with
  | .batch text t =>
    if x.window.opts.pauseDisplay ∨ text = [] then
      some { x with window := x.window.takeBatch cfg e.1 ⟨text, some t, true⟩ }
    else some (x.arrive cfg e.1 text t)
  | .flush => some { x with window := x.window.flushRxLines cfg e.1 }
  | .clear => some { x with window := x.window.clearImguiView }
  | .options o =>
    if o.timestamp ∧ ¬ o.frameGapEn then some { x with window := x.window.pushDisplayOptions o }
    else none

/-- The sessions that begin with the window `w`. -/
def machine (w : RxWindow) : Transition.Machine RxSession (Env × Arrival) where
  init := { window := w }
  step := step cfg

end RxSession

/-- A window at the beginning of a session without scripts, with stamps and without the
automatic frame break; what its records hold is of this session. -/
structure Fresh (w : RxWindow) : Prop where
  timestamp : w.opts.timestamp = true
  frameGap : w.opts.frameGapEn = false
  script : w.script = .shown
  ingress : w.rxIngressMs = none
  anchor : w.rxTsAnchor = none
  stamp : w.rxSegmentStampPending = false
  line : w.rxLinePending = []
  handouts : w.handouts = []
  shown : w.shown = []

/-- What of a converted text is shown, by what left the bridge. -/
def shownPart : List Handout → List (Nat × UInt8) → List (Nat × UInt8)
  | [], _ => []
  | .handed text :: hs, items => items.take text.length ++ shownPart hs (items.drop text.length)
  | .discarded text :: hs, items => shownPart hs (items.drop text.length)

/-- The law of the stamps: what left the bridge and what it holds is the converted text, and
the view is what was shown of it with the stamp of each segment before its first byte. -/
structure RxSession.Stamped (cfg : RxConfig) (x : RxSession) : Prop where
  flow : x.converted.map Prod.snd =
    x.window.handouts.flatMap Handout.text ++ x.window.rxLinePending
  shown : x.window.shown.flatten =
    Transition.marked (x.stamp cfg) [] (shownPart x.window.handouts x.converted)

/-- A batch gives text only in a segment whose first batch the charset has not withheld
whole. -/
def InSegment (cfg : RxConfig) (x : RxSession) (e : Env × Arrival) : Prop :=
  match e.2 with
  | .batch text t =>
    x.window.opts.pauseDisplay = true ∨ text = [] ∨ x.begins cfg t = true ∨ x.lost = false ∨
      (x.window.convertBatch cfg text).1 = none
  | _ => True

instance (cfg : RxConfig) (x : RxSession) (e : Env × Arrival) :
    Decidable (InSegment cfg x e) :=
  match e with
  | (_, .batch text t) =>
    inferInstanceAs (Decidable (x.window.opts.pauseDisplay = true ∨ text = [] ∨
      x.begins cfg t = true ∨ x.lost = false ∨ (x.window.convertBatch cfg text).1 = none))
  | (_, .flush) => .isTrue trivial
  | (_, .clear) => .isTrue trivial
  | (_, .options _) => .isTrue trivial

/-! ## What leaves the bridge -/

/-- The bridge loses nothing. -/
theorem bridgeLines_join (pending text : List UInt8) :
    (bridgeLines pending text).1 ++ (bridgeLines pending text).2 = pending ++ text := by
  cases hlast : lastNl text 0 none with
  | none =>
    rw [bridgeLines_none hlast]
    rfl
  | some n =>
    rw [bridgeLines_some hlast]
    split
    · exact List.append_nil _
    · rw [List.append_assoc, List.take_append_drop]

/-- The number of bytes that have left the bridge. -/
def leftCount (hs : List Handout) : Nat := (hs.flatMap Handout.text).length

theorem leftCount_cons (h : Handout) (hs : List Handout) :
    leftCount (h :: hs) = h.text.length + leftCount hs := by
  rw [leftCount, List.flatMap_cons, List.length_append]
  rfl

theorem shownPart_append (hs hs' : List Handout) (items : List (Nat × UInt8)) :
    shownPart (hs ++ hs') items =
      shownPart hs items ++ shownPart hs' (items.drop (leftCount hs)) := by
  induction hs generalizing items with
  | nil => rfl
  | cons h hs ih =>
    rw [leftCount_cons, ← List.drop_drop]
    cases h with
    | handed text =>
      rw [List.cons_append, shownPart, shownPart, ih, List.append_assoc]
      rfl
    | discarded text =>
      rw [List.cons_append, shownPart, shownPart, ih]
      rfl

/-- What has left the bridge does not see what comes behind. -/
theorem shownPart_extend {hs : List Handout} {items : List (Nat × UInt8)}
    (h : leftCount hs ≤ items.length) (more : List (Nat × UInt8)) :
    shownPart hs (items ++ more) = shownPart hs items := by
  induction hs generalizing items with
  | nil => rfl
  | cons head hs ih =>
    rw [leftCount_cons] at h
    have hhead : head.text.length ≤ items.length := Nat.le_of_add_right_le h
    have hrest : leftCount hs ≤ (items.drop head.text.length).length := by
      rw [List.length_drop]
      exact Nat.le_sub_of_add_le' h
    have hdrop : shownPart hs ((items ++ more).drop head.text.length) =
        shownPart hs (items.drop head.text.length) := by
      rw [List.drop_append_of_le_length hhead, ih hrest]
    cases head with
    | handed text =>
      have htake : (items ++ more).take text.length = items.take text.length :=
        List.take_append_of_le_length hhead
      rw [shownPart, shownPart, htake]
      exact congrArg (_ ++ ·) hdrop
    | discarded text => exact hdrop

theorem mem_shownPart {hs : List Handout} {items : List (Nat × UInt8)} {p : Nat × UInt8}
    (h : p ∈ shownPart hs items) : p ∈ items := by
  induction hs generalizing items with
  | nil => cases h
  | cons head hs ih =>
    cases head with
    | handed text =>
      rcases List.mem_append.mp h with h | h
      · exact List.mem_of_mem_take h
      · exact List.mem_of_mem_drop (ih h)
    | discarded text => exact List.mem_of_mem_drop (ih h)

/-- What the window of a session keeps while a text is handed out. -/
def RxWindow.settings (s : RxWindow) :
    Options × (List UInt8 → Funnel) × Option Int × Option (Int × Int) × Option Int × Charset ×
      Bool :=
  (s.opts, s.script, s.rxIngressMs, s.rxTsAnchor, s.rxSegmentIngressMs, s.charset,
    s.charsetActive)

theorem settings_fields {s t : RxWindow} (h : t.settings = s.settings) :
    t.opts = s.opts ∧ t.script = s.script ∧ t.rxIngressMs = s.rxIngressMs ∧
      t.rxTsAnchor = s.rxTsAnchor ∧ t.rxSegmentIngressMs = s.rxSegmentIngressMs ∧
      t.charset = s.charset ∧ t.charsetActive = s.charsetActive := by
  simpa only [RxWindow.settings, Prod.mk.injEq] using h

/-- The held line stays, or goes with a clear of the view. -/
def Keeps (s t : RxWindow) : Prop :=
  (t.handouts = s.handouts ∧ t.rxLinePending = s.rxLinePending) ∨
    (t.handouts = s.handouts ++ [.discarded s.rxLinePending] ∧ t.rxLinePending = [])

theorem clear_spec (s : RxWindow) :
    s.clearImguiView.settings = s.settings ∧ s.clearImguiView.shown = s.shown ∧
      s.clearImguiView.rxSegmentStampPending = s.rxSegmentStampPending ∧
      Keeps s s.clearImguiView := by
  unfold RxWindow.clearImguiView RxWindow.discardRxLines
  by_cases hline : s.rxLinePending = []
  · rw [if_pos hline]
    exact ⟨rfl, rfl, rfl, .inl ⟨rfl, rfl⟩⟩
  · rw [if_neg hline]
    exact ⟨rfl, rfl, rfl, .inr ⟨rfl, rfl⟩⟩

/-- A text is appended to the view, which may then be cleared. -/
theorem append_spec (env : Env) (s : RxWindow) {text : List UInt8} (htext : text ≠ []) :
    (s.appendImguiReceive env text).settings = s.settings ∧
      (s.appendImguiReceive env text).shown = s.shown ++ [text] ∧
      (s.appendImguiReceive env text).rxSegmentStampPending = s.rxSegmentStampPending ∧
      Keeps s (s.appendImguiReceive env text) := by
  unfold RxWindow.appendImguiReceive
  rw [if_neg htext]
  dsimp only
  split
  · exact clear_spec _
  · exact ⟨rfl, rfl, rfl, .inl ⟨rfl, rfl⟩⟩

/-- A text was handed out and shown behind `front`. -/
structure Emitted (s t : RxWindow) (front text : List UInt8) : Prop where
  settings : t.settings = s.settings
  shown : t.shown = s.shown ++ [front ++ text]
  bridge : Keeps { s with handouts := s.handouts ++ [.handed text] } t
  paid : t.rxSegmentStampPending = false

/-- What stands before a text that is shown: the stamp that is owed, if one is. -/
def RxWindow.front (cfg : RxConfig) (env : Env) (s : RxWindow) : List UInt8 :=
  if s.rxSegmentStampPending then cfg.timestampPrefix (s.segmentWall.getD env.wallMs) else []

theorem stamp_spec (cfg : RxConfig) (env : Env) {s : RxWindow}
    (htimestamp : s.opts.timestamp = true) (out : List UInt8) :
    s.stampRxText cfg env out =
      (s.front cfg env ++ out, { s with rxSegmentStampPending := false }) := by
  unfold RxWindow.stampRxText RxWindow.front
  by_cases howed : s.rxSegmentStampPending = true
  · rw [if_pos howed, if_pos howed, if_pos htimestamp]
  · rw [if_neg howed, if_neg howed, ← Bool.eq_false_iff.mpr howed]
    rfl

/-- Without scripts a text is shown as it is handed out. -/
theorem emit_spec (cfg : RxConfig) (env : Env) {s : RxWindow} {text : List UInt8}
    (hscript : s.script = .shown) (htimestamp : s.opts.timestamp = true) (htext : text ≠ []) :
    Emitted s (s.emitRxText cfg env text) (s.front cfg env) text := by
  have hrun : ({ s with handouts := s.handouts ++ [.handed text] } : RxWindow).runRxScripts text =
      (some text, { s with handouts := s.handouts ++ [.handed text] }) := by
    unfold RxWindow.runRxScripts
    rw [hscript]
    simp only [if_neg htext]
  have hstamp := stamp_spec cfg env
    (s := { s with handouts := s.handouts ++ [.handed text] }) htimestamp text
  have hne : s.front cfg env ++ text ≠ [] := List.append_ne_nil_of_right_ne_nil _ htext
  unfold RxWindow.emitRxText
  simp only [hrun, if_neg htext, hstamp]
  obtain ⟨hsettings, hshown, hpaid, hkeeps⟩ := append_spec env
    { s with handouts := s.handouts ++ [.handed text], rxSegmentStampPending := false } hne
  exact ⟨hsettings, hshown, hkeeps, hpaid⟩

end Xcom.Receive
