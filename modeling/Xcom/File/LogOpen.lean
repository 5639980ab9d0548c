import Xcom.File.Cells
import Xcom.File.Stream

/-!
# Opening the log file

`open` waits for the writer thread only so long, while its job stays in the queue.  What
it returns and what becomes of the job agree as long as the wait is not given up over a
job that creates the file.
-/

namespace Xcom.File

/-- The file of an `open` that has returned an error is not the log file. -/
def LogWriter.OpenAtomic (s : LogWriter) : Prop :=
  ∀ call status, (call, status) ∈ s.returned → status ≠ .ok →
    s.files.logFile.map (·.call) ≠ some call

/-- The Open the caller waits for. -/
def CallerPc.awaitedOpen : CallerPc → Option FileJob
  | .syncWait _ job _ => if job.kind = .fileOpen then some job else none
  | _ => none

/-- The Open the writer starts on. -/
def WriterPc.startedOpen : WriterPc → Option FileJob
  | .process job => if job.kind = .fileOpen then some job else none
  | _ => none

/-- The wait of an `open` is not given up when its file is open already, and the writer
creates a file only for an `open` that still waits. -/
def OpensInTime (s : LogWriter) (l : Label) : Prop :=
  (l = .caller .timeout → ∀ job ∈ s.caller.awaitedOpen,
    s.files.logFile.map (·.call) ≠ some job.call) ∧
  (l = .writer (.create true) → s.files.logFile = none →
    s.writer.startedOpen = s.caller.awaitedOpen)

instance (s : LogWriter) (l : Label) : Decidable (OpensInTime s l) :=
  inferInstanceAs (Decidable ((_ → _) ∧ (_ → _ → _)))

/-! ## The running call -/

/-- The running `open`. -/
def CallerPc.openCall : CallerPc → Option Call
  | .openLoadAccepting job | .syncAcquire _ job | .syncEnqueue _ job _ | .syncUndo _ job _
  | .syncWait _ job _ => if job.kind = .fileOpen then some job.call else none
  | _ => none

/-- The caller waits for an answer through a cell. -/
def CallerPc.waitsOn : CallerPc → Option CompletionId
  | .syncWait _ _ c => some c
  | _ => none

/-- The answer the writer is about to give. -/
def WriterPc.answer : WriterPc → Option (FileJob × XcomStatus)
  | .openStore job status | .finish _ job status | .releaseBlock _ job status
  | .completeSync _ job status => some (job, status)
  | _ => none

namespace LogWriter

/-- The job behind a cell is answered with OK, or about to be. -/
def Succeeds (s : LogWriter) (c : CompletionId) : Prop :=
  (∃ job, s.writer.answer = some (job, .ok) ∧ job.completion = some c) ∨
    (s.cells c).done = true ∧ (s.cells c).status = .ok

/-- What a step of the caller does to its calls of `open`. -/
inductive OpenCallStep (s s' : LogWriter) : Prop
  | quiet (hr : s'.returned = s.returned) (hn : s'.nextCall = s.nextCall)
      (hc : s'.caller.openCall = none ∨
        s'.caller.openCall = s.caller.openCall ∧ s.caller.waitsOn = none)
  | starts (hr : s'.returned = s.returned) (hn : s'.nextCall = s.nextCall + 1)
      (hc : s'.caller.openCall = some s.nextCall)
  | refuses (status : XcomStatus) (hr : s'.returned = (s.nextCall, status) :: s.returned)
      (hn : s'.nextCall = s.nextCall + 1) (hc : s'.caller.openCall = none)
  | returns (call : Call) (status : XcomStatus) (ho : s.caller.openCall = some call)
      (hr : s'.returned = (call, status) :: s.returned) (hn : s'.nextCall = s.nextCall)
      (hc : s'.caller.openCall = none)
      (hs : ∀ c, s.caller.waitsOn = some c →
        (s.cells c).done = true ∧ status = (s.cells c).status ∨
          s.files.logFile.map (·.call) ≠ some call)

variable {s s' : LogWriter}

theorem syncCaller_openCall (shutdown : Bool) (status : XcomStatus) :
    (syncCaller shutdown status).openCall = none := by
  unfold syncCaller
  split
  · split <;> rfl
  · rfl

/-- `submit_sync` returns to `open`, or to another call. -/
theorem OpenCallStep.sync {shutdown : Bool} {job : FileJob} {status : XcomStatus}
    (hr : s'.returned = s.syncReturned shutdown job status) (hn : s'.nextCall = s.nextCall)
    (hc : s'.caller.openCall = none)
    (ho : job.kind = .fileOpen → s.caller.openCall = some job.call)
    (hs : ∀ c, s.caller.waitsOn = some c →
      (s.cells c).done = true ∧ status = (s.cells c).status ∨
        (job.kind = .fileOpen → s.files.logFile.map (·.call) ≠ some job.call)) :
    OpenCallStep s s' := by
  unfold syncReturned at hr
  split at hr
  · rename_i hopen
    refine .returns job.call status (ho hopen.2) hr hn hc ?_
    intro c hwait
    exact (hs c hwait).imp_right fun h => h hopen.2
  · exact .quiet hr hn (.inl hc)

theorem CallerStep.openCalls (h : CallerStep s s')
    (htime : ∀ shutdown job c, s.caller = .syncWait shutdown job c → (s.cells c).done = false →
      job.kind = .fileOpen → s.files.logFile.map (·.call) ≠ some job.call) :
    OpenCallStep s s' := by
  cases h with
  | openParam hpc => exact .refuses .errParam rfl rfl (by rw [hpc]; rfl)
  | openCall => exact .starts rfl rfl rfl
  | openBusy job hpc =>
    refine .sync rfl rfl rfl ?_ ?_
    · intro hk
      simp [hpc, CallerPc.openCall, hk]
    · simp [hpc, CallerPc.waitsOn]
  | syncFull shutdown job hpc | syncUndo shutdown job c hpc =>
    refine .sync rfl rfl (syncCaller_openCall _ _) ?_ ?_
    · intro hk
      simp [hpc, CallerPc.openCall, hk]
    · simp [hpc, CallerPc.waitsOn]
  | syncDone shutdown job c hpc hd =>
    refine .sync rfl rfl (syncCaller_openCall _ _) ?_ ?_
    · intro hk
      simp [hpc, CallerPc.openCall, hk]
    · rw [hpc]
      rintro _ ⟨⟩
      exact .inl ⟨hd, rfl⟩
  | syncTimesOut shutdown job c hpc hd =>
    refine .sync rfl rfl (syncCaller_openCall _ _) ?_ ?_
    · intro hk
      simp [hpc, CallerPc.openCall, hk]
    · rw [hpc]
      rintro _ ⟨⟩
      exact .inr (htime shutdown job c hpc hd)
  | closeTimesOut => exact .quiet rfl rfl (.inl (syncCaller_openCall _ _))
  | openProceeds job hpc | syncAcquire _ job _ _ hpc | syncEnqueue _ job _ hpc
  | syncRejected _ job _ hpc =>
    refine .quiet rfl rfl (.inr ?_)
    rw [hpc]
    exact ⟨rfl, rfl⟩
  | appendLease pc data hpc =>
    refine .quiet rfl rfl (.inl ?_)
    cases pc.next s.acceptingLog <;> rfl
  | submitReserve copied job hpc =>
    refine .quiet rfl rfl (.inl ?_)
    cases copied <;> rfl
  | submitRejected job hpc =>
    refine .quiet rfl rfl (.inl ?_)
    cases job.blockId <;> rfl
  | refused hpc | started hpc | startFails hpc | closeWaits _ hpc =>
    refine .quiet rfl rfl (.inl ?_)
    simp only [hpc, CallerPc.openCall]
  | _ => exact .quiet rfl rfl (.inl rfl)

/-! ## The job of the running call -/

theorem WriterStep.calls (h : WriterStep s s') :
    s'.returned = s.returned ∧ s'.nextCall = s.nextCall ∧ s'.caller = s.caller := by
  cases h <;> exact ⟨rfl, rfl, rfl⟩

/-- The log file is the one that was open, or a new one. -/
theorem WriterStep.log {log' : LogFile} (h : WriterStep s s')
    (hlog : s'.files.logFile = some log') :
    (∃ log, s.files.logFile = some log ∧ log'.call = log.call) ∨
      ∃ job, s.writer.startedOpen = some job ∧ s.files.logFile = none ∧
        s'.writer = .openStore job .ok ∧ log'.call = job.call := by
  cases h with
  | openCreated job hpc hk hf hh =>
    cases hlog
    exact .inr ⟨job, by simp [hpc, WriterPc.startedOpen, hk], hf, rfl, rfl⟩
  | appendStart | popRaw | drain | cancelRx =>
    obtain ⟨log, hf, rfl⟩ := Option.map_eq_some_iff.mp hlog
    exact .inl ⟨log, hf, rfl⟩
  | appendWrote | rxWrote =>
    simp only [FileState.writeLog] at hlog
    split at hlog
    · exact .inl ⟨log', hlog, rfl⟩
    · rename_i log hf
      cases hlog
      exact .inl ⟨log, hf, rfl⟩
  | work job o files status hpc hk hw =>
    have hsame := FileState.processAsync_logFile hk hw
    exact .inl ⟨log', hsame ▸ hlog, rfl⟩
  | resetStream deleted hpc =>
    have hsame : (s.files.resetStream deleted).logFile = s.files.logFile := by
      unfold FileState.resetStream
      split <;> rfl
    exact .inl ⟨log', hsame ▸ hlog, rfl⟩
  | closeReset | resetLog => cases hlog
  | _ => exact .inl ⟨log', hlog, rfl⟩

/-- An answer that will be OK stays so. -/
theorem WriterStep.succeeds {c : CompletionId} (h : WriterStep s s') (hinv : CellsInv s)
    (hs : s.Succeeds c) : s'.Succeeds c := by
  cases h with
  | openStore job status hpc | publish _ job status hpc | finishSync _ job status hpc
  | releaseBlock _ job status hpc =>
    refine hs.imp_left ?_
    rintro ⟨job', hanswer, hcell⟩
    rw [hpc] at hanswer
    exact ⟨job', hanswer, hcell⟩
  | completeNone _ job _ hpc hc =>
    refine .inr (hs.resolve_left ?_)
    rintro ⟨job', hanswer, hcell⟩
    rw [hpc] at hanswer
    cases hanswer
    rw [hc] at hcell
    cases hcell
  | completeSync _ job status d hpc hc =>
    right
    show (Function.update s.cells d _ c).done = true ∧ (Function.update s.cells d _ c).status = .ok
    by_cases hcd : c = d
    · subst hcd
      rw [Function.update_self]
      refine ⟨rfl, ?_⟩
      rcases hs with ⟨job', hanswer, -⟩ | ⟨hdone, -⟩
      · rw [hpc] at hanswer
        cases hanswer
        rfl
      · -- the cell is still owed, so it is not done
        have howed : c ∈ s.owed := by
          simp [owed, hpc, WriterPc.answering, hc]
        simp [hinv.fresh c howed] at hdone
    · rw [Function.update_of_ne hcd]
      refine hs.resolve_left ?_
      rintro ⟨job', hanswer, hcell⟩
      rw [hpc] at hanswer
      cases hanswer
      rw [hc] at hcell
      exact hcd (Option.some.inj hcell).symm
  | dropCompletion _ d hpc =>
    right
    show (s.releasedCells d c).done = true ∧ (s.releasedCells d c).status = .ok
    rw [(s.releasedCells_done d c).1, (s.releasedCells_done d c).2]
    refine hs.resolve_left ?_
    rintro ⟨job', hanswer, -⟩
    rw [hpc] at hanswer
    cases hanswer
  | _ =>
    refine .inr (hs.resolve_left ?_)
    rintro ⟨job', hanswer, -⟩
    simp_all [WriterPc.answer]

/-- A wait that is not done ends only by its timeout. -/
theorem timeout_label {l : CallerLabel} {shutdown : Bool} {job : FileJob} {c : CompletionId}
    (h : s.callerStep l = some s') (hpc : s.caller = .syncWait shutdown job c)
    (hd : (s.cells c).done = false) : l = .timeout := by
  unfold callerStep at h
  rw [hpc] at h
  cases l <;> simp_all

/-- Only a creation that succeeds opens a file. -/
theorem create_label {l : WriterLabel} {job : FileJob} (h : s.writerStep l = some s')
    (hs : s.writer.startedOpen = some job) (hpc' : s'.writer = .openStore job .ok) :
    l = .create true := by
  unfold WriterPc.startedOpen at hs
  split at hs
  · rename_i job' hpc
    split at hs
    · rename_i hk
      cases hs
      simp only [writerStep, hpc, processStep, hk] at h
      cases l with
      | create ok =>
        cases ok
        · simp only at h
          split at h
          · cases h
            cases hpc'
          · cases h
            cases hpc'
        · rfl
      | work o => simp [FileState.processAsync, hk] at h
      | _ => cases h
    · cases hs
  · cases hs

end LogWriter

/-- The log file belongs to an `open` that has returned OK, or that waits for an answer
that will be OK. -/
structure OpensInv (s : LogWriter) : Prop where
  known : ∀ call status, (call, status) ∈ s.returned → call < s.nextCall
  log : ∀ log, s.files.logFile = some log → log.call < s.nextCall ∧
    ∀ status, (log.call, status) ∈ s.returned → status = .ok
  running : ∀ call, s.caller.openCall = some call → call < s.nextCall ∧
    ∀ status, (call, status) ∉ s.returned
  waits : ∀ log, s.files.logFile = some log → s.caller.openCall = some log.call →
    ∃ c, s.caller.waitsOn = some c ∧ s.Succeeds c

namespace LogWriter

variable {s s' : LogWriter}

/-- The answer a wait gets is not the one the writer is about to give. -/
theorem Succeeds.done {c : CompletionId} (h : s.Succeeds c) (hinv : CellsInv s)
    (hd : (s.cells c).done = true) : (s.cells c).status = .ok := by
  rcases h with ⟨job, hanswer, hcell⟩ | ⟨-, hok⟩
  · have howed : c ∈ s.owed := by
      unfold WriterPc.answer at hanswer
      split at hanswer <;> cases hanswer
      all_goals
        rename_i hpc
        simp [owed, unfinished, hpc, WriterPc.answering, WriterPc.job, hcell]
    simp [hinv.fresh c howed] at hd
  · exact hok

theorem OpenCallStep.opens (h : OpenCallStep s s') (hf : s'.files = s.files)
    (hcells : CellsInv s) (hinv : OpensInv s) : OpensInv s' := by
  have hknown := hinv.known
  have hlog := hinv.log
  cases h with
  | quiet hr hn hc =>
    have hcall : s'.caller.openCall = none ∨ s'.caller.openCall = s.caller.openCall :=
      hc.imp_right And.left
    constructor
    · rw [hr, hn]
      exact hknown
    · rw [hr, hn, hf]
      exact hlog
    · intro call ho
      rw [hr, hn]
      rcases hcall with hnone | hsame
      · rw [hnone] at ho
        cases ho
      · exact hinv.running call (hsame ▸ ho)
    · intro log hl ho
      rw [hf] at hl
      rcases hc with hnone | ⟨hsame, hwait⟩
      · rw [hnone] at ho
        cases ho
      · -- the log file is that of a call that waits
        obtain ⟨c, hwaits, -⟩ := hinv.waits log hl (hsame ▸ ho)
        rw [hwait] at hwaits
        cases hwaits
  | starts hr hn hc =>
    have hlater : ∀ call status, (call, status) ∈ s'.returned → call < s'.nextCall := by
      intro call status hmem
      rw [hr] at hmem
      rw [hn]
      exact (hknown call status hmem).trans (Nat.lt_succ_self _)
    constructor
    · exact hlater
    · intro log hl
      rw [hf] at hl
      obtain ⟨hlt, hok⟩ := hlog log hl
      rw [hn, hr]
      exact ⟨hlt.trans (Nat.lt_succ_self _), hok⟩
    · intro call ho
      rw [hc] at ho
      cases ho
      rw [hn, hr]
      refine ⟨Nat.lt_succ_self _, ?_⟩
      intro status hmem
      exact Nat.lt_irrefl _ (hknown _ status hmem)
    · intro log hl ho
      rw [hf] at hl
      rw [hc] at ho
      have hlt := (hlog log hl).1
      rw [← Option.some.inj ho] at hlt
      exact absurd hlt (Nat.lt_irrefl _)
  | refuses status hr hn hc =>
    constructor
    · intro call status' hmem
      rw [hr] at hmem
      rw [hn]
      rcases List.mem_cons.mp hmem with heq | hmem
      · cases heq
        exact Nat.lt_succ_self _
      · exact (hknown call status' hmem).trans (Nat.lt_succ_self _)
    · intro log hl
      rw [hf] at hl
      obtain ⟨hlt, hok⟩ := hlog log hl
      rw [hn, hr]
      refine ⟨hlt.trans (Nat.lt_succ_self _), ?_⟩
      intro status' hmem
      rcases List.mem_cons.mp hmem with heq | hmem
      · rw [(Prod.mk.inj heq).1] at hlt
        exact absurd hlt (Nat.lt_irrefl _)
      · exact hok status' hmem
    · intro call ho
      rw [hc] at ho
      cases ho
    · intro log _ ho
      rw [hc] at ho
      cases ho
  | returns call status ho hr hn hc hs =>
    constructor
    · intro call' status' hmem
      rw [hr] at hmem
      rw [hn]
      rcases List.mem_cons.mp hmem with heq | hmem
      · cases heq
        exact (hinv.running call ho).1
      · exact hknown call' status' hmem
    · intro log hl
      rw [hf] at hl
      obtain ⟨hlt, hok⟩ := hlog log hl
      rw [hn, hr]
      refine ⟨hlt, ?_⟩
      intro status' hmem
      rcases List.mem_cons.mp hmem with heq | hmem
      · obtain ⟨hcall, rfl⟩ := Prod.mk.inj heq
        obtain ⟨c, hwait, hsucc⟩ := hinv.waits log hl (hcall ▸ ho)
        rcases hs c hwait with ⟨hdone, rfl⟩ | hother
        · exact hsucc.done hcells hdone
        · rw [hl] at hother
          exact absurd (congrArg some hcall) hother
      · exact hok status' hmem
    · intro call' ho'
      rw [hc] at ho'
      cases ho'
    · intro log _ ho'
      rw [hc] at ho'
      cases ho'

theorem awaitedOpen_openCall {pc : CallerPc} {job : FileJob} (h : pc.awaitedOpen = some job) :
    pc.openCall = some job.call := by
  unfold CallerPc.awaitedOpen at h
  split at h
  · split at h
    · rename_i hk
      cases h
      exact if_pos hk
    · cases h
  · cases h

theorem awaitedOpen_waitsOn {pc : CallerPc} {job : FileJob} (hfit : pc.Fit)
    (h : pc.awaitedOpen = some job) :
    ∃ c, pc.waitsOn = some c ∧ job.completion = some c := by
  unfold CallerPc.awaitedOpen at h
  split at h
  · split at h
    · cases h
      exact ⟨_, rfl, hfit⟩
    · cases h
  · cases h

theorem WriterStep.opens (h : WriterStep s s') (hjobs : JobsInv s) (hcells : CellsInv s)
    (hinv : OpensInv s)
    (htime : ∀ job, s.writer.startedOpen = some job → s'.writer = .openStore job .ok →
      s.files.logFile = none → s.caller.awaitedOpen = some job) : OpensInv s' := by
  obtain ⟨hr, hn, hc⟩ := h.calls
  constructor
  · rw [hr, hn]
    exact hinv.known
  · intro log' hl'
    rw [hr, hn]
    rcases h.log hl' with ⟨log, hl, hcall⟩ | ⟨job, hstart, hnone, hpc', hcall⟩
    · rw [hcall]
      exact hinv.log log hl
    · rw [hcall]
      have hopen := awaitedOpen_openCall (htime job hstart hpc' hnone)
      obtain ⟨hlt, hnew⟩ := hinv.running job.call hopen
      exact ⟨hlt, fun status hmem => absurd hmem (hnew status)⟩
  · rw [hr, hn, hc]
    exact hinv.running
  · intro log' hl' ho
    rw [hc] at ho ⊢
    rcases h.log hl' with ⟨log, hl, hcall⟩ | ⟨job, hstart, hnone, hpc', hcall⟩
    · obtain ⟨c, hwait, hsucc⟩ := hinv.waits log hl (hcall ▸ ho)
      exact ⟨c, hwait, h.succeeds hcells hsucc⟩
    · -- the writer has just opened the file the caller waits for
      obtain ⟨c, hwait, hcell⟩ := awaitedOpen_waitsOn hjobs.caller (htime job hstart hpc' hnone)
      refine ⟨c, hwait, .inl ⟨job, ?_, hcell⟩⟩
      rw [hpc']
      rfl

end LogWriter

theorem opensInv_reach {fs : FileSystem} {s : LogWriter}
    (h : Transition.ReachUnder (logWriterMachine fs) OpensInTime s) : OpensInv s := by
  refine h.invariantUsing (q := fun s => JobsInv s ∧ LogWriter.CellsInv s)
    (fun _ h => ⟨jobsInv_reach h.reach, cellsInv_reach h.reach⟩) ?_ ?_
  · constructor
    · intro call status hmem
      cases hmem
    · intro log hl
      cases hl
    · intro call ho
      cases ho
    · intro log hl
      cases hl
  · intro s l s' ⟨hjobs, hcells⟩ hinv htime hstep
    cases l with
    | caller l =>
      have hs := LogWriter.callerStep_cases hstep
      refine (hs.openCalls ?_).opens hs.files hcells hinv
      intro shutdown job c hpc hd hk
      refine htime.1 (congrArg _ (LogWriter.timeout_label hstep hpc hd)) job ?_
      simp [hpc, CallerPc.awaitedOpen, hk]
    | reader l =>
      cases LogWriter.readerStep_cases hstep <;>
        exact ⟨hinv.known, hinv.log, hinv.running, hinv.waits⟩
    | writer l =>
      refine (LogWriter.writerStep_cases hstep).opens hjobs hcells hinv ?_
      intro job hstart hpc' hnone
      rw [← htime.2 (congrArg _ (LogWriter.create_label hstep hstart hpc')) hnone]
      exact hstart

/-- An `open` that has returned an error has left no log file, in every run in which the
writer creates files only for an `open` that still waits, and no wait is given up once
its file is open. -/
theorem open_atomic {fs : FileSystem} {s : LogWriter}
    (h : Transition.ReachUnder (logWriterMachine fs) OpensInTime s) : s.OpenAtomic := by
  intro call status hmem hst hlog
  obtain ⟨log, hl, rfl⟩ := Option.map_eq_some_iff.mp hlog
  exact hst (((opensInv_reach h).log log hl).2 status hmem)

/-- An `open` up to its wait. -/
def openRun : List Label :=
  [.caller (.openCall (some [67]) false), .caller .run, .caller (.acquire true), .caller .run]

/-- The writer thread opens the file, up to the answer. -/
def openedRun : List Label :=
  [Label.writer .run, .writer .run, .writer (.create true)] ++ List.replicate 4 (Label.writer .run)

/-- A file is open, and a second `open` has returned an error. -/
theorem open_atomic_busy :
    ∃ s : LogWriter, s.returned = [(1, .errBusy), (0, .ok)] ∧
      s.files.logFile.map (·.call) = some 0 ∧ s.OpenAtomic := by
  obtain ⟨s, hs, hreturned, hlog⟩ := Transition.exists_of_execUnder
    (m := logWriterMachine fun _ => none) (c := OpensInTime)
    (p := fun s => s.returned = [(1, .errBusy), (0, .ok)] ∧
      s.files.logFile.map (·.call) = some 0)
    ([.caller (.startCall true)] ++ openRun ++ openedRun ++
      [.caller .run, .caller (.openCall (some [67]) false), .caller .run]) (by decide +kernel)
  exact ⟨s, hreturned, hlog, open_atomic hs⟩

/-- The wait is given up before the writer comes to the job, which opens the file all
the same. -/
theorem late_open_not_atomic :
    ∃ s : LogWriter, Transition.Reach (logWriterMachine fun _ => none) s ∧ ¬ s.OpenAtomic := by
  obtain ⟨s, hs, hreturned, hlog⟩ := Transition.exists_of_execUnder
    (m := logWriterMachine fun _ => none) (c := fun _ _ => True)
    (p := fun s => s.returned = [(0, .errTimeout)] ∧ s.files.logFile.map (·.call) = some 0)
    ([Label.caller (.startCall true)] ++ openRun ++ [Label.caller .timeout] ++ openedRun)
    (by decide +kernel)
  refine ⟨s, hs, ?_⟩
  intro hatomic
  refine hatomic 0 .errTimeout ?_ (by decide) hlog
  rw [hreturned]
  exact List.mem_singleton_self _

end Xcom.File
