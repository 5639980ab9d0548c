import Xcom.Receive.Charset
import Xcom.Transition.Machine

/-!
# The receive funnel

What the window does with a drained batch: segment decision, frame break, charset
conversion, whole-line bridge, script stage, timestamp, append to the view.  The held
partial line is delivered by a new segment, an idle gap, a script reload, a disconnect and
the final drain, and discarded by a clear of the view.
-/

namespace Xcom.Receive

/-- `RX_LINE_CAP`. -/
def rxLineCap : Nat := 4096

/-! ## Whole lines -/

/-- The scan of `split_complete_lines`: the number of bytes up to the last LF. -/
def lastNl : List UInt8 → Nat → Option Nat → Option Nat
  | [], _, last => last
  | b :: rest, read, last => lastNl rest (read + 1) (if b = 0x0A then some (read + 1) else last)

/-- `split_complete_lines`. -/
def splitCompleteLines (text : List UInt8) : List UInt8 × List UInt8 :=
  match lastNl text 0 none with
  | none => ([], text)
  | some n => if n = text.length then (text, []) else (text.take n, text.drop n)

/-- The bridge of `_process_rx_batch`: the complete lines and the tail to be held. -/
def bridgeLines (pending text : List UInt8) : List UInt8 × List UInt8 :=
  if pending = [] then splitCompleteLines text
  else
    match lastNl text 0 none with
    | none => ([], pending ++ text)
    | some n =>
      if n = text.length then (pending ++ text, [])
      else (pending ++ text.take n, text.drop n)

/-! ## The state of the window -/

/-- The display options the user can change at any time. -/
structure Options where
  pauseDisplay : Bool := false
  timestamp : Bool := false
  frameGapEn : Bool := false
  frameGapMs : Int := 0
  autoClearBytes : Nat := 0
  receiveHex : Bool := false
  charset : CharsetItem := .ascii
  deriving DecidableEq, Repr

/-- What a run of the script stage does with a text: an error, nothing left, or a text. -/
inductive Funnel
  | error
  | dropped
  | shown (text : List UInt8)
  deriving DecidableEq, Repr

/-- A text that left the bridge: into the script stage, or with a clear of the view. -/
inductive Handout
  | handed (text : List UInt8)
  | discarded (text : List UInt8)
  deriving DecidableEq, Repr

/-- What does not change while the window runs. -/
structure RxConfig where
  timestampGapMs : Int
  timestampPrefix : Int → List UInt8
  kernel32 : Option Kernel32
  txEcho : Bool

/-- What a handler finds: the loop's clock, the wall clock, and whether the user drags a
selection. -/
structure Env where
  now : Int
  wallMs : Int
  dragging : Bool

/-- The receive side of the window.  `received`, `handouts` and `shown` record what went
through: the unpaused batches, the texts that left the bridge, the appends to the view. -/
structure RxWindow where
  opts : Options := {}
  charset : Charset := {}
  charsetActive : Bool := false
  script : List UInt8 → Funnel := .shown
  core : Bool := true
  connected : Bool := false
  rxIdleMs : Option Int := none
  rxIngressMs : Option Int := none
  rxTsNoticeGiven : Bool := false
  rxTsAnchor : Option (Int × Int) := none
  rxSegmentStampPending : Bool := false
  rxSegmentIngressMs : Option Int := none
  rxLastBatchMs : Option Int := none
  rxLinePending : List UInt8 := []
  rxLineForced : Nat := 0
  rxLineDiscarded : Nat := 0
  rxFunnelErrors : Nat := 0
  pausedDisplayBytes : Nat := 0
  imguiReceiveTotal : Nat := 0
  viewTailOpen : Bool := false
  received : List UInt8 := []
  handouts : List Handout := []
  shown : List (List UInt8) := []

namespace RxWindow

variable (cfg : RxConfig) (env : Env)

/-! ## Append to the view -/

/-- `_flush_rx_lines(true)`: the held partial line goes with the view. -/
def discardRxLines (s : RxWindow) : RxWindow :=
  if s.rxLinePending = [] then s
  else
    { s with
      rxLinePending := []
      rxLineDiscarded := s.rxLineDiscarded + s.rxLinePending.length
      handouts := s.handouts ++ [.discarded s.rxLinePending] }

/-- `_clear_imgui_view`. -/
def clearImguiView (s : RxWindow) : RxWindow :=
  { s.discardRxLines with imguiReceiveTotal := 0, viewTailOpen := false }

/-- `_append_imgui_receive`.  The automatic clear waits while a selection is dragged. -/
def appendImguiReceive (s : RxWindow) (text : List UInt8) : RxWindow :=
  if text = [] then s
  else
    let s := { s with
      imguiReceiveTotal := s.imguiReceiveTotal + text.length
      viewTailOpen := text.getLast? ≠ some 0x0A
      shown := s.shown ++ [text] }
    if 0 < s.opts.autoClearBytes ∧ s.opts.autoClearBytes ≤ s.imguiReceiveTotal ∧
        ¬ env.dragging then
      s.clearImguiView
    else s

/-! ## Script stage and timestamp -/

/-- `_run_rx_scripts`: a failing script shows the text unchanged. -/
def runRxScripts (s : RxWindow) (text : List UInt8) : Option (List UInt8) × RxWindow :=
  match s.script text with
  | .error => (some text, { s with rxFunnelErrors := s.rxFunnelErrors + 1 })
  | .dropped => (none, s)
  | .shown out => (if out = [] then none else some out, s)

/-- The wall time a segment arrived at, if its clock is anchored. -/
def segmentWall (s : RxWindow) : Option Int :=
  match s.rxSegmentIngressMs, s.rxTsAnchor with
  | some ingress, some (mono, wall) => some (wall + (ingress - mono))
  | _, _ => none

/-- The timestamp stage of `_emit_rx_text`. -/
def stampRxText (s : RxWindow) (out : List UInt8) : List UInt8 × RxWindow :=
  if s.rxSegmentStampPending then
    (if s.opts.timestamp then
      cfg.timestampPrefix (s.segmentWall.getD env.wallMs) ++ out else out,
      { s with rxSegmentStampPending := false })
  else (out, s)

/-- `_emit_rx_text`. -/
def emitRxText (s : RxWindow) (text : List UInt8) : RxWindow :=
  let handed : RxWindow := { s with handouts := s.handouts ++ [.handed text] }
  let run := handed.runRxScripts text
  match run.1 with
  | none => run.2
  | some out =>
    if out = [] then run.2
    else
      let stamped := run.2.stampRxText cfg env out
      stamped.2.appendImguiReceive env stamped.1

/-- `_flush_rx_lines(false)`: the held partial line is delivered. -/
def flushRxLines (s : RxWindow) : RxWindow :=
  if s.rxLinePending = [] then s
  else
    let forced : RxWindow :=
      { s with rxLinePending := [], rxLineForced := s.rxLineForced + 1 }
    forced.emitRxText cfg env s.rxLinePending

/-! ## One batch -/

/-- `_rx_batch_is_new_segment`. -/
def rxBatchIsNewSegment (s : RxWindow) (ingressMs : Option Int) (tsSupported : Bool) :
    Bool × RxWindow :=
  match ingressMs with
  | none =>
    (false, { s with
      rxTsNoticeGiven := s.rxTsNoticeGiven || s.opts.timestamp
      rxIngressMs := none })
  | some ingress =>
    if ¬ tsSupported then
      (false, { s with
        rxTsNoticeGiven := s.rxTsNoticeGiven || s.opts.timestamp
        rxIngressMs := none })
    else
      let s' := if s.rxTsAnchor = none then
        { s with rxTsAnchor := some (ingress, env.wallMs) } else s
      (match s.rxIngressMs with
        | none => true
        | some prev => cfg.timestampGapMs ≤ ingress - prev,
        { s' with rxIngressMs := some ingress })

/-- The automatic frame break of `_process_rx_batch`. -/
def breakFrame (s : RxWindow) : RxWindow :=
  if s.opts.frameGapEn then
    let broken := match s.rxLastBatchMs with
      | none => s
      | some last =>
        if s.opts.frameGapMs < env.now - last ∧ s.viewTailOpen then
          s.appendImguiReceive env [0x0A] else s
    { broken with rxLastBatchMs := some env.now }
  else { s with rxLastBatchMs := none }

/-- The charset conversion of `_process_rx_batch`: nothing while all is held back. -/
def convertBatch (s : RxWindow) (text : List UInt8) : Option (List UInt8) × RxWindow :=
  if s.charsetActive then
    ((s.charset.convert cfg.kernel32 text).1,
      { s with charset := (s.charset.convert cfg.kernel32 text).2 })
  else (some text, s)

/-- The whole-line bridge of `_process_rx_batch`, with the flush of a tail over the cap:
the text to be handed out, and the state that holds the tail. -/
def bridgeBatch (s : RxWindow) (text : List UInt8) : List UInt8 × RxWindow :=
  let cut := bridgeLines s.rxLinePending text
  if rxLineCap < cut.2.length then
    (cut.1 ++ cut.2, { s with rxLinePending := [], rxLineForced := s.rxLineForced + 1 })
  else (cut.1, { s with rxLinePending := cut.2 })

/-- The stamp a new segment is owed. -/
def oweStamp (s : RxWindow) (new tsSupported : Bool) (ingressMs : Option Int) : RxWindow :=
  if new ∧ s.opts.timestamp ∧ tsSupported then
    { s with rxSegmentStampPending := true, rxSegmentIngressMs := ingressMs }
  else s

/-- What follows the segment decision in `_process_rx_batch`. -/
def processText (s : RxWindow) (new tsSupported : Bool) (ingressMs : Option Int)
    (text : List UInt8) : RxWindow :=
  let converted := (s.breakFrame env).convertBatch cfg text
  match converted.1 with
  | none => converted.2
  | some text =>
    let cut := converted.2.bridgeBatch text
    let s := cut.2.oweStamp new tsSupported ingressMs
    if cut.1 = [] then s else s.emitRxText cfg env cut.1

/-- A batch as `drain_display_ts` returns it. -/
structure Batch where
  text : List UInt8
  ingressMs : Option Int
  tsSupported : Bool

/-- `_process_rx_batch`. -/
def processRxBatch (s : RxWindow) (batch : Batch) : RxWindow :=
  if batch.text = [] then s
  else
    let arrived : RxWindow := { s with rxIdleMs := some env.now }
    let decision := arrived.rxBatchIsNewSegment cfg env batch.ingressMs batch.tsSupported
    let flushed := if decision.1 then decision.2.flushRxLines cfg env else decision.2
    flushed.processText cfg env decision.1 batch.tsSupported batch.ingressMs batch.text

/-! ## Drains -/

/-- One drained batch: counted while the display is paused, else processed. -/
def takeBatch (s : RxWindow) (batch : Batch) : RxWindow :=
  if s.opts.pauseDisplay then
    { s with pausedDisplayBytes := s.pausedDisplayBytes + batch.text.length }
  else
    let taken : RxWindow := { s with received := s.received ++ batch.text }
    taken.processRxBatch cfg env batch

/-- The drain loop, with its bound of rounds: it ends at a failed or empty drain. -/
def drainRounds : Nat → List (Option Batch) → RxWindow → RxWindow
  | 0, _, s => s
  | _ + 1, [], s => s
  | _ + 1, none :: _, s => s
  | rounds + 1, some batch :: drains, s =>
    if batch.text = [] then s else drainRounds rounds drains (s.takeBatch cfg env batch)

/-- The first drain of a poll returned something. -/
def drainedAny : List (Option Batch) → Bool
  | some batch :: _ => batch.text ≠ []
  | _ => false

/-- The idle flush of `poll_display` is due. -/
def idleDue (s : RxWindow) : Bool :=
  match s.rxIdleMs with
  | none => false
  | some idle => s.rxLinePending ≠ [] ∧ ¬ s.opts.pauseDisplay ∧
      cfg.timestampGapMs ≤ env.now - idle

/-- `poll_display`. -/
def pollDisplay (s : RxWindow) (drains : List (Option Batch)) : RxWindow :=
  if ¬ (s.core ∧ s.connected) then s
  else
    let s := drainRounds cfg env 8 drains s
    if drainedAny drains then s
    else if s.idleDue cfg env then s.flushRxLines cfg env else s

/-- What the charset still holds is shown at the end of a session. -/
def flushCharset (s : RxWindow) : RxWindow :=
  if s.charsetActive then
    let flushed : RxWindow := { s with charset := (s.charset.flush cfg.kernel32).2 }
    match (s.charset.flush cfg.kernel32).1 with
    | none => flushed
    | some tail => flushed.appendImguiReceive env tail
  else s

/-- `_final_drain`. -/
def finalDrain (s : RxWindow) (drains : List (Option Batch)) : RxWindow :=
  if ¬ s.core then s
  else ((drainRounds cfg env 500 drains s).flushRxLines cfg env).flushCharset cfg env

/-! ## The other handlers -/

/-- `_push_display_options`. -/
def pushDisplayOptions (s : RxWindow) (o : Options) : RxWindow :=
  { s with
    opts := o
    charset := if o.charset = s.opts.charset then s.charset
      else (s.charset.set (some o.charset.name)).2
    charsetActive := ¬ o.receiveHex ∧ o.charset ≠ .ascii ∧ o.charset ≠ .utf8 }

/-- The connected edge of `_render_ui_state`. -/
def renderConnected (s : RxWindow) (connected : Bool) : RxWindow :=
  if s.connected ∧ ¬ connected then
    let closed : RxWindow := { s with connected := false }
    { (closed.flushRxLines cfg env).flushCharset cfg env with
      rxIngressMs := none
      rxSegmentStampPending := false
      rxTsAnchor := none
      rxSegmentIngressMs := none }
  else { s with connected := connected }

/-- A script is loaded anew: the held line goes through the old hooks first. -/
def onReload (s : RxWindow) (script : List UInt8 → Funnel) : RxWindow :=
  { s.flushRxLines cfg env with script := script }

/-- CR LF is shown as LF. -/
def foldCrLf : List UInt8 → List UInt8
  | 0x0D :: 0x0A :: rest => 0x0A :: foldCrLf rest
  | b :: rest => b :: foldCrLf rest
  | [] => []

/-- `_echo_tx`, on the view's side: a row of its own, closed by an LF. -/
def echoTx (s : RxWindow) (payload : List UInt8) : RxWindow :=
  if ¬ cfg.txEcho ∨ payload = [] then s
  else
    let row := if s.viewTailOpen then s.appendImguiReceive env [0x0A] else s
    let line := foldCrLf ([0x54, 0x58, 0x3A, 0x20] ++ payload)
    row.appendImguiReceive env (if line.getLast? = some 0x0A then line else line ++ [0x0A])

/-- `_note_link_boundary`, on the view's side. -/
def noteLinkBoundary (s : RxWindow) (line : List UInt8) : RxWindow :=
  if line = [] then s
  else
    s.appendImguiReceive env
      ([0x0A, 0x5B, 0x58, 0x43, 0x4F, 0x4D, 0x5D, 0x20] ++ line ++ [0x0A])

/-- What happens to the receive side. -/
inductive Action
  | poll (drains : List (Option Batch))
  | finalDrain (drains : List (Option Batch))
  | options (o : Options)
  | connected (connected : Bool)
  | reload (script : List UInt8 → Funnel)
  | clear
  | closed
  | echoTx (payload : List UInt8)
  | noteLinkBoundary (line : List UInt8)

/-- One handler. -/
def act (s : RxWindow) : Action → RxWindow
  | .poll drains => s.pollDisplay cfg env drains
  | .finalDrain drains => s.finalDrain cfg env drains
  | .options o => s.pushDisplayOptions o
  | .connected connected => s.renderConnected cfg env connected
  | .reload script => s.onReload cfg env script
  | .clear => s.clearImguiView
  | .closed => { s with core := false, connected := false }
  | .echoTx payload => s.echoTx cfg env payload
  | .noteLinkBoundary line => s.noteLinkBoundary env line

/-- The window as it is created with the options of its configuration. -/
def start (o : Options) : RxWindow :=
  { opts := o, charset := (({} : Charset).set (some o.charset.name)).2 }

/-- The handlers in any order. -/
def machine (o : Options) : Transition.Machine RxWindow (Env × Action) where
  init := start o
  step s e := some (s.act cfg e.1 e.2)

end RxWindow

end Xcom.Receive
