import Xcom.Transition.Machine
import Mathlib.Data.List.Induction
import Mathlib.Data.Nat.Bitwise
import Mathlib.Data.Nat.Log

/-!
# The line status of the port

`WinSerialBackend::poll_line_status` reports what `ClearCommError` and `GetCommModemStatus`
answer on a change only; the owner adds the reports up and keeps the modem lines as a level.
All the same the level is that of the last sample of the session and the counters count the
samples.  The diagnostics are due at totals that are powers of two.
-/

namespace Xcom.Serial

/-! ## The poll of the read thread -/

/-- `COMSTAT`, as far as it is read. -/
structure ComStat where
  ctsHold : Bool := false
  dsrHold : Bool := false
  xoffHold : Bool := false
  rlsdHold : Bool := false
  inQue : UInt32 := 0
  outQue : UInt32 := 0
  deriving DecidableEq, Repr

/-- What the driver answers a poll: the error mask with the state, and the modem inputs.  `none`
is a call that failed. -/
structure LineSample where
  comm : Option (UInt32 × ComStat)
  modem : Option UInt32
  deriving DecidableEq, Repr

def kLineStatusCtsHold : UInt32 := 1
def kLineStatusDsrHold : UInt32 := 2
def kLineStatusXoffHold : UInt32 := 4
def kLineStatusRlsdHold : UInt32 := 8

def ceRxOver : UInt32 := 0x1
def ceOverrun : UInt32 := 0x2
def ceRxParity : UInt32 := 0x4
def ceFrame : UInt32 := 0x8
def ceBreak : UInt32 := 0x10

def msCtsOn : UInt32 := 0x10
def msDsrOn : UInt32 := 0x20
def msRingOn : UInt32 := 0x40
def msRlsdOn : UInt32 := 0x80

def kModemCts : UInt32 := 1
def kModemDsr : UInt32 := 2
def kModemRing : UInt32 := 4
def kModemRlsd : UInt32 := 8
def kModemValid : UInt32 := 0x80000000

/-- One bit of a mask that is put together. -/
def flag (on : Bool) (bit : UInt32) : UInt32 := if on then bit else 0

/-- The four holds in one mask. -/
def ComStat.holds (stat : ComStat) : UInt32 :=
  flag stat.ctsHold kLineStatusCtsHold ||| flag stat.dsrHold kLineStatusDsrHold |||
    flag stat.xoffHold kLineStatusXoffHold ||| flag stat.rlsdHold kLineStatusRlsdHold

/-- The modem inputs as they are published; zero is no sample. -/
def packModem : Option UInt32 → UInt32
  | none => 0
  | some raw =>
    kModemValid ||| flag (raw &&& msCtsOn ≠ 0) kModemCts |||
      flag (raw &&& msDsrOn ≠ 0) kModemDsr ||| flag (raw &&& msRingOn ≠ 0) kModemRing |||
      flag (raw &&& msRlsdOn ≠ 0) kModemRlsd

structure SerialLineStatus where
  framingErrors : UInt32
  parityErrors : UInt32
  overrunErrors : UInt32
  breakEvents : UInt32
  holdEvents : UInt32
  errorFlags : UInt32
  cbInQue : UInt32
  cbOutQue : UInt32
  modemLines : UInt32
  deriving DecidableEq, Repr

/-- `last_holds_` and `last_modem_`. -/
structure LineEdges where
  holds : UInt32 := 0
  modem : UInt32 := 0
  deriving DecidableEq, Repr

/-- The report of a poll. -/
def LineEdges.report (last : LineEdges) (errors : UInt32) (stat : ComStat) (modem : UInt32) :
    SerialLineStatus where
  framingErrors := flag (errors &&& ceFrame ≠ 0) 1
  parityErrors := flag (errors &&& ceRxParity ≠ 0) 1
  overrunErrors := flag (errors &&& (ceRxOver ||| ceOverrun) ≠ 0) 1
  breakEvents := flag (errors &&& ceBreak ≠ 0) 1
  holdEvents := flag (decide (stat.holds ≠ last.holds) && decide (stat.holds ≠ 0)) 1
  errorFlags := errors
  cbInQue := stat.inQue
  cbOutQue := stat.outQue
  modemLines := modem

/-- `poll_line_status`: what is remembered, and what the owner is told. -/
def pollLineStatus (last : LineEdges) (sample : LineSample) :
    LineEdges × Option SerialLineStatus :=
  match sample.comm with
  | none => (last, none)
  | some (errors, stat) =>
    let holds := stat.holds
    let holdEdge := decide (holds ≠ last.holds)
    let modem := packModem sample.modem
    let modemEdge := decide (modem ≠ last.modem)
    -- A hold that is released is not worth a report.
    if errors = 0 ∧ (holdEdge = false ∨ holds = 0) ∧ modemEdge = false then (⟨holds, modem⟩, none)
    else (⟨holds, modem⟩, some (last.report errors stat modem))

/-! ## The counters of the core -/

/-- A `kLineError` record. -/
structure LineRecord where
  total : UInt32
  parity : UInt32
  overrun : UInt32
  breaks : UInt32
  deriving DecidableEq, Repr

/-- The metrics the line status is added to; `records` are the diagnostics that were emitted. -/
structure LineMetrics where
  framingErrors : UInt32 := 0
  parityErrors : UInt32 := 0
  overrunErrors : UInt32 := 0
  breakEvents : UInt32 := 0
  flowHoldEvents : UInt32 := 0
  modemLines : UInt32 := 0
  rxBytes : UInt32 := 0
  rxLossOffset : UInt32 := 0
  records : List LineRecord := []
  deriving DecidableEq, Repr

/-- The guarded `fetch_add`, with the new total. -/
def addUnlessZero (total delta : UInt32) : UInt32 := if delta ≠ 0 then total + delta else total

@[simp] theorem addUnlessZero_eq (total delta : UInt32) :
    addUnlessZero total delta = total + delta := by
  unfold addUnlessZero
  split
  · rfl
  · rename_i hzero
    simp [not_not.mp hzero]

/-- A total at which a diagnostic is due. -/
def milestone (count : UInt32) : Bool := count ≠ 0 && (count &&& (count - 1)) = 0

/-- `line_status_ingress`. -/
def lineStatusIngress (framing parity overrun breaks hold : UInt32) (m : LineMetrics) :
    LineMetrics :=
  let f := addUnlessZero m.framingErrors framing
  let p := addUnlessZero m.parityErrors parity
  let o := addUnlessZero m.overrunErrors overrun
  let b := addUnlessZero m.breakEvents breaks
  { m with
    framingErrors := f
    parityErrors := p
    overrunErrors := o
    breakEvents := b
    flowHoldEvents := addUnlessZero m.flowHoldEvents hold
    rxLossOffset := if overrun ≠ 0 then m.rxBytes else m.rxLossOffset
    records :=
      if milestone f || milestone p || milestone o || milestone b then
        m.records ++ [⟨f + p + o + b, p, o, b⟩]
      else m.records }

/-- The line status callback of `sink_owner_open`: the level is stored always, the counters are
only entered for an error or a hold. -/
def onLineStatus (status : SerialLineStatus) (m : LineMetrics) : LineMetrics :=
  let m := { m with modemLines := status.modemLines }
  if status.framingErrors ||| status.parityErrors ||| status.overrunErrors |||
      status.breakEvents ||| status.holdEvents ≠ 0 then
    lineStatusIngress status.framingErrors status.parityErrors status.overrunErrors
      status.breakEvents status.holdEvents m
  else m

/-! ## Sessions -/

inductive LinePhase
  | closed
  | opened
  /-- The level was dropped, the read thread is not joined yet. -/
  | closing
  deriving DecidableEq, Repr

/-- What happened, newest first. -/
inductive LineEntry
  | opened
  | polled (sample : LineSample)
  deriving DecidableEq, Repr

/-- The line status of one backend over its sessions; the source has no `history`. -/
structure LineWatch where
  phase : LinePhase := .closed
  edges : LineEdges := {}
  metrics : LineMetrics := {}
  history : List LineEntry := []
  deriving DecidableEq, Repr

namespace LineWatch

/-- The steps of the owner and of the read thread. -/
inductive Op
  | openPort
  | openFailed
  | poll (sample : LineSample)
  | received (count : UInt32)
  | ownerClose
  | joined
  deriving DecidableEq, Repr

/-- The level of the session before is dropped. -/
def dropLevel (s : LineWatch) : LineWatch :=
  { s with metrics := { s.metrics with modemLines := 0 } }

/-- One poll of the read thread. -/
def polled (sample : LineSample) (s : LineWatch) : LineWatch :=
  let (edges, status) := pollLineStatus s.edges sample
  { s with
    edges := edges
    metrics := status.elim s.metrics (onLineStatus · s.metrics)
    history := .polled sample :: s.history }

/-- One step. -/
def step (s : LineWatch) : Op → Option LineWatch
  | .openPort =>
    if s.phase = .closed then
      some { s.dropLevel with phase := .opened, edges := {}, history := .opened :: s.history }
    else none
  | .openFailed => if s.phase = .closed then some s.dropLevel else none
  | .poll sample => if s.phase ≠ .closed then some (s.polled sample) else none
  | .received count =>
    some { s with metrics := { s.metrics with rxBytes := s.metrics.rxBytes + count } }
  | .ownerClose => if s.phase = .opened then some { s.dropLevel with phase := .closing } else none
  | .joined => if s.phase = .closing then some { s with phase := .closed } else none

def machine : Transition.Machine LineWatch Op := ⟨{}, step⟩

end LineWatch

/-! ## What was sampled -/

/-- The last sample of the session, among those with a state. -/
def lastSample : List LineEntry → Option LineSample
  | .polled sample :: history => if sample.comm.isSome then some sample else lastSample history
  | _ => none

def LineSample.holds (sample : LineSample) : UInt32 := sample.comm.elim 0 (·.2.holds)

/-- The sample shows the error. -/
def LineSample.shows (sample : LineSample) (error : UInt32) : Bool :=
  sample.comm.elim false fun answer => answer.1 &&& error ≠ 0

/-- The holds in the last sample. -/
def heldLast (history : List LineEntry) : UInt32 := (lastSample history).elim 0 (·.holds)

/-- The modem lines in the last sample. -/
def levelLast (history : List LineEntry) : UInt32 :=
  (lastSample history).elim 0 fun sample => packModem sample.modem

/-- How often the error was sampled, over all sessions. -/
def sampled (error : UInt32) (history : List LineEntry) : Nat :=
  history.countP fun entry =>
    match entry with
    | .polled sample => sample.shows error
    | .opened => false

/-- How often a sample shows holds, other ones than the sample before it. -/
def holdsBegun : List LineEntry → Nat
  | [] => 0
  | .opened :: history => holdsBegun history
  | .polled sample :: history =>
    holdsBegun history +
      if sample.comm.isSome ∧ sample.holds ≠ heldLast history ∧ sample.holds ≠ 0 then 1 else 0

/-! ## One report -/

/-- What a report adds to the counters. -/
structure Added (framing parity overrun breaks hold : UInt32) (m m' : LineMetrics) : Prop where
  framing : m'.framingErrors = m.framingErrors + framing
  parity : m'.parityErrors = m.parityErrors + parity
  overrun : m'.overrunErrors = m.overrunErrors + overrun
  breaks : m'.breakEvents = m.breakEvents + breaks
  hold : m'.flowHoldEvents = m.flowHoldEvents + hold

theorem lineStatusIngress_added (framing parity overrun breaks hold : UInt32) (m : LineMetrics) :
    Added framing parity overrun breaks hold m
      (lineStatusIngress framing parity overrun breaks hold m) := by
  constructor <;> simp [lineStatusIngress]

theorem onLineStatus_added (status : SerialLineStatus) (m : LineMetrics) :
    Added status.framingErrors status.parityErrors status.overrunErrors status.breakEvents
      status.holdEvents m (onLineStatus status m) := by
  unfold onLineStatus
  dsimp only
  split
  · have hadded := lineStatusIngress_added status.framingErrors status.parityErrors
      status.overrunErrors status.breakEvents status.holdEvents
      { m with modemLines := status.modemLines }
    exact ⟨hadded.framing, hadded.parity, hadded.overrun, hadded.breaks, hadded.hold⟩
  · rename_i hzero
    simp only [ne_eq, not_not, UInt32.or_eq_zero_iff] at hzero
    obtain ⟨⟨⟨⟨hf, hp⟩, ho⟩, hb⟩, hh⟩ := hzero
    constructor <;> simp [hf, hp, ho, hb, hh]

theorem onLineStatus_level (status : SerialLineStatus) (m : LineMetrics) :
    (onLineStatus status m).modemLines = status.modemLines := by
  unfold onLineStatus
  dsimp only
  split <;> rfl

/-! ## One poll -/

/-- A poll whose `ClearCommError` fails changes nothing. -/
theorem polled_failed {s : LineWatch} {sample : LineSample} (hcomm : sample.comm = none) :
    (s.polled sample).edges = s.edges ∧ (s.polled sample).metrics = s.metrics := by
  simp [LineWatch.polled, pollLineStatus, hcomm]

theorem polled_edges {s : LineWatch} {sample : LineSample} {errors : UInt32} {stat : ComStat}
    (hcomm : sample.comm = some (errors, stat)) :
    (s.polled sample).edges = ⟨stat.holds, packModem sample.modem⟩ := by
  unfold LineWatch.polled pollLineStatus
  simp only [hcomm]
  split <;> rfl

/-- Told or not, the poll counts its errors and a new hold once. -/
theorem polled_added {s : LineWatch} {sample : LineSample} {errors : UInt32} {stat : ComStat}
    (hcomm : sample.comm = some (errors, stat)) :
    Added (flag (errors &&& ceFrame ≠ 0) 1) (flag (errors &&& ceRxParity ≠ 0) 1)
      (flag (errors &&& (ceRxOver ||| ceOverrun) ≠ 0) 1) (flag (errors &&& ceBreak ≠ 0) 1)
      (flag (decide (stat.holds ≠ s.edges.holds) && decide (stat.holds ≠ 0)) 1)
      s.metrics (s.polled sample).metrics := by
  unfold LineWatch.polled pollLineStatus
  simp only [hcomm]
  split
  · rename_i hquiet
    obtain ⟨rfl, hhold, -⟩ := hquiet
    have hnone : (decide (stat.holds ≠ s.edges.holds) && decide (stat.holds ≠ 0)) = false := by
      rcases hhold with hsame | hzero
      · rw [hsame, Bool.false_and]
      · simp [hzero]
    rw [hnone]
    constructor <;> simp [flag]
  · exact onLineStatus_added (s.edges.report errors stat (packModem sample.modem)) s.metrics

/-- Told or not, the owner's level is the sampled one where it was the one before. -/
theorem polled_level {s : LineWatch} {sample : LineSample} {errors : UInt32} {stat : ComStat}
    (hcomm : sample.comm = some (errors, stat)) (hlevel : s.metrics.modemLines = s.edges.modem) :
    (s.polled sample).metrics.modemLines = packModem sample.modem := by
  unfold LineWatch.polled pollLineStatus
  simp only [hcomm]
  split
  · rename_i hquiet
    have hsame : packModem sample.modem = s.edges.modem := by simpa using hquiet.2.2
    rw [hsame]
    exact hlevel
  · exact onLineStatus_level (s.edges.report errors stat (packModem sample.modem)) s.metrics

/-! ## The run -/

/-- The edges are those of the last sample, and the metrics are what the samples add up to. -/
structure LineWatch.Kept (s : LineWatch) : Prop where
  holds : s.edges.holds = heldLast s.history
  modem : s.edges.modem = levelLast s.history
  level : s.phase = .opened → s.metrics.modemLines = s.edges.modem
  framing : s.metrics.framingErrors = UInt32.ofNat (sampled ceFrame s.history)
  parity : s.metrics.parityErrors = UInt32.ofNat (sampled ceRxParity s.history)
  overrun : s.metrics.overrunErrors = UInt32.ofNat (sampled (ceRxOver ||| ceOverrun) s.history)
  breaks : s.metrics.breakEvents = UInt32.ofNat (sampled ceBreak s.history)
  stalls : s.metrics.flowHoldEvents = UInt32.ofNat (holdsBegun s.history)

theorem ofNat_add_flag (n : Nat) (on : Bool) :
    UInt32.ofNat (n + if on then 1 else 0) = UInt32.ofNat n + flag on 1 := by
  cases on
  · simp [flag]
  · exact UInt32.ofNat_add n 1

theorem sampled_polled (error : UInt32) (sample : LineSample) (history : List LineEntry) :
    sampled error (.polled sample :: history) =
      sampled error history + if sample.shows error then 1 else 0 :=
  List.countP_cons

/-- A counter goes on from the samples before to those with the new one. -/
theorem counted {total total' error errors : UInt32} {stat : ComStat} {sample : LineSample}
    {history : List LineEntry} (hcomm : sample.comm = some (errors, stat))
    (hold : total = UInt32.ofNat (sampled error history))
    (hadd : total' = total + flag (errors &&& error ≠ 0) 1) :
    total' = UInt32.ofNat (sampled error (.polled sample :: history)) := by
  have hshows : sample.shows error = decide (errors &&& error ≠ 0) := by
    simp [LineSample.shows, hcomm]
  rw [sampled_polled, ofNat_add_flag, hshows, hadd, hold]

theorem LineWatch.Kept.polled {s : LineWatch} (h : s.Kept) (sample : LineSample) :
    (s.polled sample).Kept := by
  cases hcomm : sample.comm with
  | none =>
    obtain ⟨hedges, hmetrics⟩ := polled_failed (s := s) hcomm
    have hlast : lastSample (.polled sample :: s.history) = lastSample s.history := by
      simp [lastSample, hcomm]
    have hcount : ∀ error, sampled error (.polled sample :: s.history) =
        sampled error s.history := by
      intro error
      rw [sampled_polled]
      simp [LineSample.shows, hcomm]
    have hstalls : holdsBegun (.polled sample :: s.history) = holdsBegun s.history := by
      simp [holdsBegun, hcomm]
    constructor
    · rw [hedges, h.holds]
      exact congrArg (·.elim 0 (·.holds)) hlast.symm
    · rw [hedges, h.modem]
      exact congrArg (·.elim 0 fun sample => packModem sample.modem) hlast.symm
    · rw [hedges, hmetrics]
      exact h.level
    · rw [hmetrics, h.framing]
      exact congrArg UInt32.ofNat (hcount _).symm
    · rw [hmetrics, h.parity]
      exact congrArg UInt32.ofNat (hcount _).symm
    · rw [hmetrics, h.overrun]
      exact congrArg UInt32.ofNat (hcount _).symm
    · rw [hmetrics, h.breaks]
      exact congrArg UInt32.ofNat (hcount _).symm
    · rw [hmetrics, h.stalls]
      exact congrArg UInt32.ofNat hstalls.symm
  | some answer =>
    obtain ⟨errors, stat⟩ := answer
    have hedges := polled_edges (s := s) hcomm
    have hadded := polled_added (s := s) hcomm
    have hlast : lastSample (.polled sample :: s.history) = some sample := by
      simp [lastSample, hcomm]
    have hsample : sample.holds = stat.holds := by simp [LineSample.holds, hcomm]
    constructor
    · rw [hedges, ← hsample]
      exact congrArg (·.elim 0 (·.holds)) hlast.symm
    · rw [hedges]
      exact congrArg (·.elim 0 fun sample => packModem sample.modem) hlast.symm
    · intro hopen
      rw [polled_level hcomm (h.level hopen), hedges]
    · exact counted hcomm h.framing hadded.framing
    · exact counted hcomm h.parity hadded.parity
    · exact counted hcomm h.overrun hadded.overrun
    · exact counted hcomm h.breaks hadded.breaks
    · have hstalls : holdsBegun (.polled sample :: s.history) = holdsBegun s.history +
          if decide (stat.holds ≠ s.edges.holds) && decide (stat.holds ≠ 0) then 1 else 0 := by
        simp [holdsBegun, hcomm, hsample, h.holds]
      rw [hadded.hold, h.stalls, ← ofNat_add_flag, ← hstalls]
      rfl

theorem LineWatch.Kept.step {s s' : LineWatch} (h : s.Kept) {op : LineWatch.Op}
    (hstep : s.step op = some s') : s'.Kept := by
  unfold LineWatch.step at hstep
  cases op with
  | openPort =>
    dsimp only at hstep
    split at hstep
    · obtain rfl := Option.some.inj hstep
      exact ⟨rfl, rfl, fun _ => rfl, h.framing, h.parity, h.overrun, h.breaks, h.stalls⟩
    · cases hstep
  | openFailed =>
    dsimp only at hstep
    split at hstep
    · rename_i hclosed
      obtain rfl := Option.some.inj hstep
      exact ⟨h.holds, h.modem, fun hopen => (by cases hclosed.symm.trans hopen), h.framing,
        h.parity, h.overrun, h.breaks, h.stalls⟩
    · cases hstep
  | poll sample =>
    dsimp only at hstep
    split at hstep
    · exact Option.some.inj hstep ▸ h.polled sample
    · cases hstep
  | received count =>
    obtain rfl := Option.some.inj hstep
    exact ⟨h.holds, h.modem, h.level, h.framing, h.parity, h.overrun, h.breaks, h.stalls⟩
  | ownerClose =>
    dsimp only at hstep
    split at hstep
    · obtain rfl := Option.some.inj hstep
      exact ⟨h.holds, h.modem, fun hopen => (by cases hopen), h.framing, h.parity, h.overrun,
        h.breaks, h.stalls⟩
    · cases hstep
  | joined =>
    dsimp only at hstep
    split at hstep
    · obtain rfl := Option.some.inj hstep
      exact ⟨h.holds, h.modem, fun hopen => (by cases hopen), h.framing, h.parity, h.overrun,
        h.breaks, h.stalls⟩
    · cases hstep

theorem LineWatch.kept_reach {s : LineWatch} (h : Transition.Reach LineWatch.machine s) :
    s.Kept :=
  h.invariant ⟨rfl, rfl, fun hopen => (by cases hopen), rfl, rfl, rfl, rfl, rfl⟩
    fun _ _ _ hkept _ hstep => hkept.step hstep

/-- Although the owner is told of changes only: while the port is open the level it publishes is
that of the last sample of this session, and in every state each counter is the number of samples
that showed the error, over all sessions, and the stall counter the number of holds begun. -/
theorem line_status_is_sampled {s : LineWatch} (h : Transition.Reach LineWatch.machine s) :
    (s.phase = .opened → s.metrics.modemLines = levelLast s.history) ∧
    s.metrics.framingErrors = UInt32.ofNat (sampled ceFrame s.history) ∧
    s.metrics.parityErrors = UInt32.ofNat (sampled ceRxParity s.history) ∧
    s.metrics.overrunErrors = UInt32.ofNat (sampled (ceRxOver ||| ceOverrun) s.history) ∧
    s.metrics.breakEvents = UInt32.ofNat (sampled ceBreak s.history) ∧
    s.metrics.flowHoldEvents = UInt32.ofNat (holdsBegun s.history) := by
  have hkept := LineWatch.kept_reach h
  exact ⟨fun hopen => (hkept.level hopen).trans hkept.modem, hkept.framing, hkept.parity,
    hkept.overrun, hkept.breaks, hkept.stalls⟩

theorem line_status_is_sampled_stall : ∃ s : LineWatch,
    (s.phase = .opened ∧ levelLast s.history = kModemValid) ∧
      s.metrics.modemLines = levelLast s.history := by
  obtain ⟨s, hs, hopen, hlevel⟩ : ∃ s : LineWatch, Transition.Reach LineWatch.machine s ∧
      (s.phase = .opened ∧ levelLast s.history = kModemValid) :=
    Transition.exists_of_execUnder [.openPort,
      .poll ⟨some (ceFrame, { ctsHold := true }), some msCtsOn⟩,
      .poll ⟨some (0, { ctsHold := true }), some 0⟩] (by decide)
  exact ⟨s, ⟨hopen, hlevel⟩, (line_status_is_sampled hs).1 hopen⟩

/-! ## The diagnostics -/

/-- The categories of errors a diagnostic counts. -/
inductive LineKind
  | framing
  | parity
  | overrun
  | breaks
  deriving DecidableEq, Repr

def LineMetrics.total (m : LineMetrics) : LineKind → UInt32
  | .framing => m.framingErrors
  | .parity => m.parityErrors
  | .overrun => m.overrunErrors
  | .breaks => m.breakEvents

/-- What a report adds to the category. -/
structure LineReport where
  delta : LineKind → UInt32
  hold : UInt32

/-- Reports are folded in one by one. -/
def foldReports (m : LineMetrics) (reports : List LineReport) : LineMetrics :=
  reports.foldl (fun m r => lineStatusIngress (r.delta .framing) (r.delta .parity)
    (r.delta .overrun) (r.delta .breaks) r.hold m) m

/-- A report of one error of the category. -/
def LineReport.one (kind : LineKind) : LineReport := ⟨fun k => flag (k = kind) 1, 0⟩

theorem foldReports_append (m : LineMetrics) (reports : List LineReport) (r : LineReport) :
    foldReports m (reports ++ [r]) = lineStatusIngress (r.delta .framing) (r.delta .parity)
      (r.delta .overrun) (r.delta .breaks) r.hold (foldReports m reports) :=
  List.foldl_append

theorem milestone_iff (count : UInt32) : milestone count = true ↔ count.toNat.isPowerOfTwo := by
  rw [← Nat.ne_zero_and_sub_one_eq_zero_iff_isPowerOfTwo]
  have hzero : count = 0 ↔ count.toNat = 0 := by
    rw [← UInt32.toNat_inj]
    rfl
  unfold milestone
  rw [Bool.and_eq_true, decide_eq_true_iff, decide_eq_true_iff, ne_eq, hzero]
  refine and_congr_right fun hne => ?_
  have hsub : (count - 1).toNat = count.toNat - 1 :=
    UInt32.toNat_sub_of_le _ _ (UInt32.le_iff_toNat_le.mpr (by simp; omega))
  rw [← UInt32.toNat_inj, UInt32.toNat_and, hsub]
  rfl

/-- Some total calls for a diagnostic. -/
def LineMetrics.due (m : LineMetrics) : Bool :=
  milestone m.framingErrors || milestone m.parityErrors || milestone m.overrunErrors ||
    milestone m.breakEvents

theorem due_iff (m : LineMetrics) :
    m.due = true ↔ ∃ kind, (m.total kind).toNat.isPowerOfTwo := by
  simp only [LineMetrics.due, Bool.or_eq_true, milestone_iff]
  constructor
  · rintro (((hf | hp) | ho) | hb)
    · exact ⟨.framing, hf⟩
    · exact ⟨.parity, hp⟩
    · exact ⟨.overrun, ho⟩
    · exact ⟨.breaks, hb⟩
  · rintro ⟨kind, hpow⟩
    cases kind with
    | framing => exact .inl (.inl (.inl hpow))
    | parity => exact .inl (.inl (.inr hpow))
    | overrun => exact .inl (.inr hpow)
    | breaks => exact .inr hpow

theorem foldReports_total (m : LineMetrics) (reports : List LineReport) (r : LineReport)
    (kind : LineKind) : (foldReports m (reports ++ [r])).total kind =
      (foldReports m reports).total kind + r.delta kind := by
  rw [foldReports_append]
  cases kind <;> simp [lineStatusIngress, LineMetrics.total]

/-- A report leaves a record where a total is due behind it, whatever it reported. -/
theorem foldReports_records (m : LineMetrics) (reports : List LineReport) (r : LineReport) :
    (foldReports m (reports ++ [r])).records.length = (foldReports m reports).records.length +
      if (foldReports m (reports ++ [r])).due then 1 else 0 := by
  rw [foldReports_append]
  generalize foldReports m reports = m'
  have hrecords : ∃ record, (lineStatusIngress (r.delta .framing) (r.delta .parity)
      (r.delta .overrun) (r.delta .breaks) r.hold m').records =
        if (lineStatusIngress (r.delta .framing) (r.delta .parity) (r.delta .overrun)
          (r.delta .breaks) r.hold m').due then m'.records ++ [record] else m'.records := ⟨_, rfl⟩
  obtain ⟨record, hrecord⟩ := hrecords
  rw [hrecord]
  split
  · exact List.length_append
  · rfl

theorem log2_next {n : Nat} (hn : n ≠ 0) :
    (n + 1).log2 = n.log2 + if (n + 1).isPowerOfTwo then 1 else 0 := by
  obtain ⟨hle, hlt⟩ := (Nat.log2_eq_iff hn).mp rfl
  split
  · rename_i hpow
    obtain ⟨k, hk⟩ := hpow
    rw [hk, Nat.log2_two_pow]
    have hlow : n.log2 < k := by
      apply (Nat.pow_lt_pow_iff_right (show 1 < 2 by decide)).mp
      omega
    have hhigh : k < n.log2 + 2 := by
      apply (Nat.pow_lt_pow_iff_right (show 1 < 2 by decide)).mp
      rw [← hk, Nat.pow_succ]
      omega
    omega
  · rename_i hpow
    have hne : n + 1 ≠ 2 ^ (n.log2 + 1) := fun heq => hpow ⟨_, heq⟩
    have hstay : (n + 1).log2 = n.log2 :=
      (Nat.log2_eq_iff (Nat.succ_ne_zero n)).mpr ⟨by omega, by omega⟩
    exact hstay

/-- Errors of one category only leave one record for each power of two. -/
theorem one_kind_records (kind : LineKind) (n : Nat) (hn : n < 4294967296) :
    (∀ k, ((foldReports {} (List.replicate n (.one kind))).total k).toNat =
        if k = kind then n else 0) ∧
    (foldReports {} (List.replicate n (.one kind))).records.length =
      if n = 0 then 0 else n.log2 + 1 := by
  induction n with
  | zero => exact ⟨fun k => by cases k <;> simp [foldReports, LineMetrics.total], rfl⟩
  | succ n ih =>
    obtain ⟨htotal, hrecords⟩ := ih (by omega)
    have hnext : ∀ k, ((foldReports {} (List.replicate (n + 1) (.one kind))).total k).toNat =
        if k = kind then n + 1 else 0 := by
      intro k
      rw [List.replicate_succ', foldReports_total, UInt32.toNat_add, htotal k]
      by_cases hk : k = kind
      · simp only [LineReport.one, flag, hk, decide_true, if_true]
        exact Nat.mod_eq_of_lt hn
      · simp [LineReport.one, flag, hk]
    have hdue : (foldReports {} (List.replicate (n + 1) (.one kind))).due = true ↔
        (n + 1).isPowerOfTwo := by
      rw [due_iff]
      constructor
      · rintro ⟨k, hpow⟩
        rw [hnext k] at hpow
        split at hpow
        · exact hpow
        · obtain ⟨e, he⟩ := hpow
          exact absurd he.symm (Nat.ne_of_gt (Nat.two_pow_pos e))
      · exact fun hpow => ⟨kind, by rw [hnext kind, if_pos rfl]; exact hpow⟩
    refine ⟨hnext, ?_⟩
    rw [if_neg (Nat.succ_ne_zero n), List.replicate_succ', foldReports_records,
      ← List.replicate_succ', hrecords]
    by_cases hzero : n = 0
    · subst hzero
      have hone : (0 + 1).isPowerOfTwo := ⟨0, rfl⟩
      rw [if_pos rfl, if_pos (hdue.mpr hone)]
      rfl
    · rw [if_neg hzero, log2_next hzero]
      by_cases hpow : (n + 1).isPowerOfTwo
      · rw [if_pos hpow, if_pos (hdue.mpr hpow)]
      · rw [if_neg hpow, if_neg (fun h => hpow (hdue.mp h))]

/-- A storm of errors of one category leaves about as many records as its count has binary digits.
But while the total of another category rests at a power of two, each report leaves one, a hold as
well. -/
theorem line_storm_records :
    (∀ kind n, n < 4294967296 →
      (foldReports {} (List.replicate n (.one kind))).records.length =
        if n = 0 then 0 else n.log2 + 1) ∧
    (∀ (m : LineMetrics) (kind : LineKind) (reports : List LineReport),
      (m.total kind).toNat.isPowerOfTwo → (∀ r ∈ reports, r.delta kind = 0) →
        (foldReports m reports).records.length = m.records.length + reports.length) := by
  refine ⟨fun kind n hn => (one_kind_records kind n hn).2, fun m kind reports hpow hrest => ?_⟩
  suffices h : (foldReports m reports).total kind = m.total kind ∧
      (foldReports m reports).records.length = m.records.length + reports.length from h.2
  induction reports using List.reverseRec with
  | nil => exact ⟨rfl, rfl⟩
  | append_singleton reports r ih =>
    obtain ⟨htotal, hrecords⟩ := ih fun r' hr' => hrest r' (List.mem_append_left _ hr')
    have hsame : (foldReports m (reports ++ [r])).total kind = m.total kind := by
      rw [foldReports_total, hrest r (by simp), htotal]
      simp
    have hdue : (foldReports m (reports ++ [r])).due = true :=
      (due_iff _).mpr ⟨kind, by rw [hsame]; exact hpow⟩
    refine ⟨hsame, ?_⟩
    rw [foldReports_records, hrecords, if_pos hdue, List.length_append, List.length_singleton,
      Nat.add_assoc]

end Xcom.Serial
