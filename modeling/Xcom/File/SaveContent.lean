import Xcom.File.LogOpen
import Xcom.File.RawLane

/-!
# One caller, one file

What becomes of a request its caller waits for, and of the file while that caller alone
hands jobs over and the raw lane stays empty: the bytes in the file and the bytes still on
their way make up what was accepted.
-/

namespace Xcom.File

variable {s s' : LogWriter}

/-- The log opened by a call is open. -/
def FileState.Opened (call : Call) (f : FileState) : Prop :=
  ∃ log, f.logFile = some log ∧ log.call = call

/-- No segment waits in the raw lane while that log is open. -/
def LogWriter.LaneEmpty (call : Call) (s : LogWriter) : Prop :=
  s.files.Opened call → s.rawReady = []

/-- The writer thread has seen no stop request and will see none. -/
structure LogWriter.Serving (s : LogWriter) : Prop where
  stopping : s.stopping = false
  ending : s.writer.ending = false

theorem ThreadInv.serving (hinv : ThreadInv s) (hw : s.writer ≠ .absent)
    (hpc : s.caller ≠ .shutdownJoin) : s.Serving := by
  have hstop : s.stopping = false := by
    by_contra hcon
    have hjoin := (hinv.stopping (hinv.running.mpr hw)).mp (by simpa using hcon)
    exact hpc hjoin
  constructor
  · exact hstop
  · by_contra hcon
    have hs := hinv.ending (by simpa using hcon)
    rw [hstop] at hs
    cases hs

/-! ## A request that is waited for -/

/-- The writer is between two jobs. -/
def WriterPc.atRest : WriterPc → Bool
  | .top | .popJob | .popRaw | .dropCompletion false _ => true
  | _ => false

namespace LogWriter

/-- How far a request is whose caller waits for it: it is the last job of the queue, it
is the only job left, or it has been answered.  `post` holds of the files from an answer OK
on. -/
inductive Awaited (post : FileState → Prop) (job : FileJob) (c : CompletionId)
    (s : LogWriter) : Prop
  | queued (earlier : List FileJob) (hj : s.jobs = earlier ++ [job])
  | processed (hj : s.jobs = []) (hw : s.writer = .process job)
  | answered (status : XcomStatus) (hj : s.jobs = [])
      (hw : s.writer.answer = some (job, status)) (hp : status = .ok → post s.files)
  | done (hd : (s.cells c).done = true)
      (hp : (s.cells c).status = .ok →
        s.jobs = [] ∧ s.writer.atRest = true ∧ post s.files)

variable {post : FileState → Prop} {job : FileJob} {c : CompletionId} {call : Call}

/-- The writer takes jobs from the head of the queue. -/
theorem WriterStep.pops (h : WriterStep s s') (hs : s.Serving) :
    s'.jobs = s.jobs ∨ ∃ job, s.jobs = job :: s'.jobs ∧ s'.writer = .process job := by
  cases h with
  | popJob job rest hpc hj => exact .inr ⟨job, hj, rfl⟩
  | cancelJob job rest hpc hj =>
    have hend := hs.ending
    rw [hpc] at hend
    cases hend
  | _ => exact .inl rfl

/-- A cell that is done is left as it is. -/
theorem WriterStep.keepsDone (h : WriterStep s s') (hcells : CellsInv s)
    (hd : (s.cells c).done = true) :
    (s'.cells c).done = true ∧ (s'.cells c).status = (s.cells c).status := by
  cases h with
  | completeSync cancelling job status c' hpc hc =>
    have howed : c' ∈ s.owed := by
      simp [owed, hpc, WriterPc.answering, hc]
    have hne : c ≠ c' := by
      intro heq
      rw [heq, hcells.fresh c' howed] at hd
      cases hd
    simp only [Function.update_of_ne hne, and_true]
    exact hd
  | dropCompletion cancelling c' hpc =>
    obtain ⟨hdone, hstatus⟩ := s.releasedCells_done c' c
    exact ⟨hdone.trans hd, hstatus⟩
  | _ => exact ⟨hd, rfl⟩

theorem WriterStep.processed (h : WriterStep s s') (hj : s.jobs = [])
    (hw : s.writer = .process job) (hk : job.kind = .fileOpen ∨ job.kind = .fileFlush)
    (hopen : job.kind = .fileOpen → post (s.files.openLog job))
    (hflush : job.kind = .fileFlush → post s.files) : Awaited post job c s' := by
  cases h with
  | openBusy job' hpc =>
    obtain rfl := WriterPc.process.inj (hw.symm.trans hpc)
    exact .answered .errBusy hj rfl (by simp)
  | openCreated job' hpc hk' =>
    obtain rfl := WriterPc.process.inj (hw.symm.trans hpc)
    exact .answered .ok hj rfl fun _ => hopen hk'
  | openFailed job' hpc =>
    obtain rfl := WriterPc.process.inj (hw.symm.trans hpc)
    exact .answered .errIo hj rfl (by simp)
  | flush job' status hpc hk' =>
    obtain rfl := WriterPc.process.inj (hw.symm.trans hpc)
    exact .answered status hj rfl fun _ => hflush hk'
  | appendStart job' _ hpc hk' | appendNotOpen job' hpc hk' | close job' hpc hk' =>
    obtain rfl := WriterPc.process.inj (hw.symm.trans hpc)
    simp [hk'] at hk
  | work job' _ _ _ hpc hk' =>
    obtain rfl := WriterPc.process.inj (hw.symm.trans hpc)
    rcases hk with hk | hk
    all_goals
      rw [hk] at hk'
      cases hk'
  | _ => simp_all

theorem WriterStep.answered {status : XcomStatus} (h : WriterStep s s') (hs : s.Serving)
    (hj : s.jobs = []) (hw : s.writer.answer = some (job, status))
    (hp : status = .ok → post s.files) (hk : job.kind.isAsync = false)
    (hc : job.completion = some c) : Awaited post job c s' := by
  cases h with
  | openStore job' status' hpc =>
    rw [hpc] at hw
    cases hw
    exact .answered _ hj rfl hp
  | publish cancelling job' status' hpc hk' =>
    rw [hpc] at hw
    cases hw
    rw [hk] at hk'
    cases hk'
  | finishSync cancelling job' status' hpc | releaseBlock cancelling job' status' hpc =>
    rw [hpc] at hw
    cases hw
    exact .answered _ hj rfl hp
  | completeNone cancelling job' status' hpc hc' =>
    rw [hpc] at hw
    cases hw
    rw [hc] at hc'
    cases hc'
  | completeSync cancelling job' status' c' hpc hc' =>
    have hend := hs.ending
    rw [hpc] at hw hend
    cases hw
    obtain rfl : cancelling = false := hend
    obtain rfl := Option.some.inj (hc.symm.trans hc')
    refine .done ?_ ?_
    · simp only [Function.update_self]
    · simp only [Function.update_self]
      exact fun hok => ⟨hj, rfl, hp hok⟩
  | _ => simp_all [WriterPc.answer]

theorem Awaited.same (h : Awaited post job c s) (hj : s'.jobs = s.jobs)
    (hw : s'.writer = s.writer) (hf : s'.files = s.files) (hc : s'.cells = s.cells) :
    Awaited post job c s' := by
  cases h with
  | queued earlier hjobs => exact .queued earlier (hj.trans hjobs)
  | processed hjobs hproc => exact .processed (hj.trans hjobs) (hw.trans hproc)
  | answered status hjobs hanswer hp =>
    exact .answered status (hj.trans hjobs) (by rw [hw, hanswer]) (by rwa [hf])
  | done hd hp => exact .done (by rwa [hc]) (by rwa [hc, hj, hw, hf])

/-- The writer stays at rest while it finds neither a job nor a segment. -/
theorem WriterStep.rests (h : WriterStep s s') (hs : s.Serving) (hj : s.jobs = [])
    (hr : s.rawReady = []) (hw : s.writer.atRest = true) :
    s'.jobs = [] ∧ s'.writer.atRest = true ∧ s'.files = s.files := by
  cases h with
  | top hpc => exact ⟨hj, by simp [hs.stopping, WriterPc.atRest], rfl⟩
  | noJob hpc | noRaw hpc => exact ⟨hj, rfl, rfl⟩
  | dropCompletion cancelling c' hpc =>
    cases cancelling
    · exact ⟨hj, rfl, rfl⟩
    · rw [hpc] at hw
      cases hw
  | _ => simp_all [WriterPc.atRest]

theorem WriterStep.awaited (h : WriterStep s s') (hs : s.Serving) (hcells : CellsInv s)
    (hlane : s.LaneEmpty call) (hlog : ∀ f, post f → f.Opened call)
    (hk : job.kind = .fileOpen ∨ job.kind = .fileFlush) (hc : job.completion = some c)
    (hopen : job.kind = .fileOpen → post (s.files.openLog job))
    (hflush : job.kind = .fileFlush → post s.files) (hw : Awaited post job c s) :
    Awaited post job c s' := by
  have hsync : job.kind.isAsync = false := by
    rcases hk with hk | hk
    all_goals
      rw [hk]
      rfl
  cases hw with
  | queued earlier hj =>
    rcases h.pops hs with heq | ⟨first, hpop, hproc⟩
    · exact .queued earlier (heq.trans hj)
    · rw [hj] at hpop
      cases earlier with
      | nil =>
        obtain ⟨rfl, hnil⟩ := List.cons.inj hpop
        exact .processed hnil.symm hproc
      | cons _ earlier => exact .queued earlier (List.cons.inj hpop).2.symm
  | processed hj hw => exact h.processed hj hw hk hopen hflush
  | answered status hj hw hp => exact h.answered hs hj hw hp hsync hc
  | done hd hp =>
    obtain ⟨hdone, hstatus⟩ := h.keepsDone hcells hd
    refine .done hdone ?_
    intro hok
    obtain ⟨hj, hrest, hpost⟩ := hp (hstatus ▸ hok)
    obtain ⟨hj', hrest', hfiles⟩ := h.rests hs hj (hlane (hlog _ hpost)) hrest
    exact ⟨hj', hrest', hfiles.symm ▸ hpost⟩

end LogWriter

/-! ## The file while blocks are on their way -/

/-- What the writer has yet to write of the append it works on. -/
def WriterPc.remaining : WriterPc → List UInt8
  | .process job => if job.kind = .fileAppend then job.data else []
  | .append job | .appendFailed job => job.data.drop job.offset
  | _ => []

/-- The writer works on an append or a flush, or on nothing. -/
def WriterPc.fills : WriterPc → Bool
  | .process job => job.kind = .fileAppend ∨ job.kind = .fileFlush
  | .top | .popJob | .popRaw | .append _ | .appendFailed _ | .finish false _ _
  | .releaseBlock false _ _ | .completeSync false _ _ | .dropCompletion false _ => true
  | _ => false

namespace LogWriter

/-- The bytes on their way to the log file. -/
def toWrite (s : LogWriter) : List UInt8 := s.writer.remaining ++ (jobAppends s.jobs).flatten

/-- The log of a call is open, and its file holds `goal` but for what is on its way. -/
structure Filling (path : Path) (call : Call) (goal : List UInt8) (s : LogWriter) : Prop where
  log : ∃ log, s.files.logFile = some log ∧ log.path = path ∧ log.call = call
  content : ∃ bytes, s.files.fs path = some bytes ∧ bytes ++ s.toWrite = goal
  jobs : ∀ job ∈ s.jobs, job.kind = .fileAppend ∨ job.kind = .fileFlush
  writer : s.writer.fills = true

variable {path : Path} {call : Call} {goal : List UInt8}

theorem Filling.opened (h : Filling path call goal s) : s.files.Opened call := by
  obtain ⟨log, hlog, -, hcall⟩ := h.log
  exact ⟨log, hlog, hcall⟩

theorem toWrite_of_rest (hj : s.jobs = []) (hw : s.writer.atRest = true) : s.toWrite = [] := by
  have hrest : s.writer.remaining = [] := by
    unfold WriterPc.atRest at hw
    split at hw <;> simp_all [WriterPc.remaining]
  rw [toWrite, hrest, hj]
  rfl

/-- A step that leaves the log handle, the queue and the bytes as they are. -/
theorem Filling.keep (h : Filling path call goal s)
    (hlog : ∀ log, s.files.logFile = some log →
      ∃ log', s'.files.logFile = some log' ∧ log'.path = log.path ∧ log'.call = log.call)
    (hfs : s'.files.fs = s.files.fs) (hjobs : s'.jobs = s.jobs)
    (hrest : s'.writer.remaining = s.writer.remaining) (hw : s'.writer.fills = true) :
    Filling path call goal s' := by
  constructor
  · obtain ⟨log, hopen, hpath, hcall⟩ := h.log
    obtain ⟨log', hopen', hpath', hcall'⟩ := hlog log hopen
    exact ⟨log', hopen', hpath'.trans hpath, hcall'.trans hcall⟩
  · rw [toWrite, hfs, hjobs, hrest]
    exact h.content
  · rw [hjobs]
    exact h.jobs
  · exact hw

theorem Filling.same (h : Filling path call goal s) (hfiles : s'.files = s.files)
    (hw : s'.writer = s.writer) (hjobs : s'.jobs = s.jobs) : Filling path call goal s' := by
  refine h.keep ?_ (by rw [hfiles]) hjobs (by rw [hw]) ?_
  · intro log hl
    exact ⟨log, by rw [hfiles, hl], rfl, rfl⟩
  · rw [hw]
    exact h.writer

/-- A job joins the queue. -/
theorem Filling.enqueue {job : FileJob} (h : Filling path call goal s)
    (hfiles : s'.files = s.files) (hw : s'.writer = s.writer) (hjobs : s'.jobs = s.jobs ++ [job])
    (hk : job.kind = .fileAppend ∨ job.kind = .fileFlush) :
    Filling path call (goal ++ (jobAppends [job]).flatten) s' := by
  have hnew : s'.toWrite = s.toWrite ++ (jobAppends [job]).flatten := by
    rcases hk with hk | hk
    all_goals simp [toWrite, hw, hjobs, jobAppends, hk]
  constructor
  · rw [hfiles]
    exact h.log
  · obtain ⟨bytes, hbytes, hgoal⟩ := h.content
    refine ⟨bytes, by rw [hfiles, hbytes], ?_⟩
    rw [hnew, ← List.append_assoc, hgoal]
  · intro job' hmem
    rw [hjobs] at hmem
    rcases List.mem_append.mp hmem with hmem | hmem
    · exact h.jobs job' hmem
    · rw [List.mem_singleton.mp hmem]
      exact hk
  · rw [hw]
    exact h.writer

theorem WriterStep.filling (h : WriterStep s s') (hs : s.Serving) (hjobs : JobsInv s)
    (hlane : s.LaneEmpty call) (hf : Filling path call goal s) : Filling path call goal s' := by
  have hfills := hf.writer
  have hraw := hlane hf.opened
  obtain ⟨log, hlog, hpath, hcall⟩ := hf.log
  cases h with
  | top hpc =>
    have hpop : (if s.stopping = true then WriterPc.cancelJobs else .popJob) = .popJob := by
      simp [hs.stopping]
    refine hf.keep (fun log hl => ⟨log, hl, rfl, rfl⟩) rfl rfl ?_ ?_
    · simp only [hpop, hpc, WriterPc.remaining]
    · simp only [hpop, WriterPc.fills]
  | popJob job rest hpc hj =>
    constructor
    · exact hf.log
    · obtain ⟨bytes, hbytes, hgoal⟩ := hf.content
      refine ⟨bytes, hbytes, ?_⟩
      rw [← hgoal]
      by_cases hk : job.kind = .fileAppend
      · simp [toWrite, hpc, hj, WriterPc.remaining, jobAppends, hk]
      · simp [toWrite, hpc, hj, WriterPc.remaining, jobAppends, hk]
    · intro job' hmem
      exact hf.jobs job' (hj ▸ List.mem_cons_of_mem _ hmem)
    · have hk := hf.jobs job (hj ▸ List.mem_cons_self)
      exact decide_eq_true hk
  | popRaw segment rest hpc hr =>
    rw [hraw] at hr
    cases hr
  | appendStart job log' hpc hk =>
    have hoff : job.offset = 0 := by
      have hfit := hjobs.writer
      rw [hpc] at hfit
      exact hfit
    refine hf.keep ?_ rfl rfl ?_ rfl
    · intro log hl
      exact ⟨{ log with blocks := log.blocks ++ [.append job.data] },
        by simp [FileState.noteBlock, hl], rfl, rfl⟩
    · simp [hpc, WriterPc.remaining, hk, hoff]
  | appendNotOpen job hpc hk hnone =>
    rw [hlog] at hnone
    cases hnone
  | flush job status hpc hk =>
    refine hf.keep (fun log hl => ⟨log, hl, rfl, rfl⟩) rfl rfl ?_ rfl
    simp [hpc, WriterPc.remaining, hk]
  | appendDone job hpc hd =>
    refine hf.keep (fun log hl => ⟨log, hl, rfl, rfl⟩) rfl rfl ?_ rfl
    rw [hpc]
    exact (List.drop_of_length_le hd).symm
  | appendFails job hpc | appendRetry job hpc =>
    refine hf.keep (fun log hl => ⟨log, hl, rfl, rfl⟩) rfl rfl ?_ rfl
    rw [hpc]
    rfl
  | appendAborted job hpc hstop =>
    rw [hs.stopping] at hstop
    cases hstop
  | appendWrote job count hpc hcount =>
    -- what was written leaves the rest of the block and joins the file
    constructor
    · refine ⟨{ log with
        written := log.written ++ job.slice job.offset (job.offset + count) }, ?_, hpath, hcall⟩
      simp [FileState.writeLog, hlog]
    · obtain ⟨bytes, hbytes, hgoal⟩ := hf.content
      refine ⟨bytes ++ job.slice job.offset (job.offset + count), ?_, ?_⟩
      · rw [FileState.writeLog, hlog]
        simp [FileSystem.extend, FileSystem.put, hpath, hbytes]
      · rw [← hgoal, toWrite, toWrite, hpc]
        simp only [WriterPc.remaining, FileJob.slice, Nat.add_sub_cancel_left]
        rw [← List.drop_drop, List.append_assoc, ← List.append_assoc (List.take _ _),
          List.take_append_drop]
    · exact hf.jobs
    · rfl
  | publish cancelling job status hpc | finishSync cancelling job status hpc
  | releaseBlock cancelling job status hpc | completeSync cancelling job status c hpc =>
    rw [hpc] at hfills
    cases cancelling
    · refine hf.keep (fun log hl => ⟨log, hl, rfl, rfl⟩) rfl rfl ?_ rfl
      rw [hpc]
      rfl
    · cases hfills
  | completeNone cancelling job status hpc | dropCompletion cancelling c hpc =>
    rw [hpc] at hfills
    cases cancelling
    · refine hf.keep (fun log hl => ⟨log, hl, rfl, rfl⟩) rfl rfl ?_ rfl
      rw [hpc]
      rfl
    · cases hfills
  | noJob hpc | noRaw hpc =>
    refine hf.keep (fun log hl => ⟨log, hl, rfl, rfl⟩) rfl rfl ?_ rfl
    rw [hpc]
    rfl
  | work job o files status hpc hk =>
    rw [hpc] at hfills
    rcases of_decide_eq_true hfills with hk' | hk'
    all_goals
      rw [hk'] at hk
      cases hk
  | _ => simp_all [WriterPc.fills]

end LogWriter

/-! ## The file behind the last block -/

/-- The writer works on a close, or on nothing that it writes. -/
def WriterPc.shuts : WriterPc → Bool
  | .process job => job.kind = .fileClose
  | .rx _ _ caller | .rxWrite _ _ caller => ¬ caller.cancels
  | .top | .popJob | .popRaw | .closeDrain _ | .closeReset _ | .finish false _ _
  | .releaseBlock false _ _ | .completeSync false _ _ | .dropCompletion false _ => true
  | _ => false

/-- The writer works on a segment. -/
def WriterPc.receives : WriterPc → Bool
  | .rx .. | .rxWrite .. => true
  | _ => false

namespace LogWriter

/-- The file holds `goal`, and there are but closes left to do. -/
structure Filled (path : Path) (call : Call) (goal : List UInt8) (s : LogWriter) : Prop where
  content : s.files.fs path = some goal
  log : ∀ log, s.files.logFile = some log → log.call = call
  jobs : ∀ job ∈ s.jobs, job.kind = .fileClose
  writer : s.writer.shuts = true
  raw : s.writer.receives = true → s.files.logFile = none

variable {path : Path} {call : Call} {goal : List UInt8}

/-- Once nothing is on its way the file is filled. -/
theorem Filling.filled (h : Filling path call goal s) (hj : s.jobs = [])
    (hw : s.writer.atRest = true) : Filled path call goal s := by
  obtain ⟨bytes, hbytes, hgoal⟩ := h.content
  constructor
  · rw [toWrite_of_rest hj hw, List.append_nil] at hgoal
    rw [hbytes, hgoal]
  · obtain ⟨log, hlog, -, hcall⟩ := h.log
    intro log' hlog'
    rw [hlog] at hlog'
    cases hlog'
    exact hcall
  · intro job hmem
    rw [hj] at hmem
    cases hmem
  · unfold WriterPc.atRest at hw
    split at hw <;> simp_all [WriterPc.shuts]
  · intro hr
    unfold WriterPc.atRest at hw
    split at hw <;> simp_all [WriterPc.receives]

/-- A step that leaves the file, the handle and the queue as they are. -/
theorem Filled.keep (h : Filled path call goal s) (hfs : s'.files.fs = s.files.fs)
    (hlog : s'.files.logFile = s.files.logFile ∨ s'.files.logFile = none)
    (hjobs : ∀ job ∈ s'.jobs, job ∈ s.jobs ∨ job.kind = .fileClose)
    (hw : s'.writer.shuts = true)
    (hraw : s'.writer.receives = true → s.writer.receives = true ∨ s.files.logFile = none) :
    Filled path call goal s' := by
  constructor
  · rw [hfs]
    exact h.content
  · intro log hl
    rcases hlog with heq | hnone
    · exact h.log log (heq ▸ hl)
    · rw [hnone] at hl
      cases hl
  · intro job hmem
    rcases hjobs job hmem with hold | hk
    · exact h.jobs job hold
    · exact hk
  · exact hw
  · intro hr
    have hnone : s.files.logFile = none := by
      rcases hraw hr with hr | hnone
      · exact h.raw hr
      · exact hnone
    rcases hlog with heq | heq
    · rw [heq, hnone]
    · exact heq

theorem WriterStep.filled (h : WriterStep s s') (hs : s.Serving) (hlane : s.LaneEmpty call)
    (hf : Filled path call goal s) : Filled path call goal s' := by
  have hshuts := hf.writer
  have hsame : ∀ job ∈ s.jobs, job ∈ s.jobs ∨ job.kind = .fileClose := fun _ hmem => .inl hmem
  have hnone : s.rawReady ≠ [] → s.files.logFile = none := by
    intro hraw
    cases hlog : s.files.logFile with
    | none => rfl
    | some log => exact absurd (hlane ⟨log, hlog, hf.log log hlog⟩) hraw
  cases h with
  | top hpc =>
    have hpop : (if s.stopping = true then WriterPc.cancelJobs else .popJob) = .popJob := by
      simp [hs.stopping]
    refine hf.keep rfl (.inl rfl) hsame ?_ ?_
    · simp only [hpop, WriterPc.shuts]
    · simp [hpop, WriterPc.receives]
  | popJob job rest hpc hj =>
    refine hf.keep rfl (.inl rfl) ?_ ?_ ?_
    · intro job' hmem
      exact .inl (hj ▸ List.mem_cons_of_mem _ hmem)
    · exact decide_eq_true (hf.jobs job (hj ▸ List.mem_cons_self))
    · simp [WriterPc.receives]
  | popRaw segment rest hpc hr | drain job segment rest hpc _ hr =>
    have hclosed := hnone (by simp [hr])
    refine hf.keep rfl (.inl ?_) hsame rfl fun _ => .inr hclosed
    rw [FileState.noteBlock, hclosed]
    rfl
  | rxWrote segment offset count caller hpc hc =>
    have hclosed := hf.raw (by rw [hpc]; rfl)
    have hsame' : s.files.writeLog ((segment.drop offset).take count) = s.files := by
      rw [FileState.writeLog, hclosed]
    refine hf.keep ?_ (.inl ?_) hsame ?_ fun _ => .inr hclosed
    · rw [hsame']
    · rw [hsame']
    · rw [hpc] at hshuts
      exact hshuts
  | rxGoOn segment offset caller hpc | rxFailed segment offset caller hpc =>
    rw [hpc] at hshuts
    exact hf.keep rfl (.inl rfl) hsame hshuts fun _ => .inl (by rw [hpc]; rfl)
  | rxBack segment offset caller hpc =>
    rw [hpc] at hshuts
    cases caller with
    | loop | close =>
      exact hf.keep rfl (.inl rfl) hsame rfl (by simp [RxCaller.back, WriterPc.receives])
    | cancel => cases hshuts
  | closeReset job log status hpc =>
    exact hf.keep rfl (.inr rfl) hsame rfl (by simp [WriterPc.receives])
  | publish cancelling job status hpc | finishSync cancelling job status hpc
  | releaseBlock cancelling job status hpc | completeSync cancelling job status c hpc
  | completeNone cancelling job status hpc | dropCompletion cancelling c hpc =>
    rw [hpc] at hshuts
    cases cancelling
    · exact hf.keep rfl (.inl rfl) hsame rfl (by simp [finished, WriterPc.receives])
    · cases hshuts
  | noJob hpc | noRaw hpc | close job hpc | drained job hpc | closeNone job hpc =>
    exact hf.keep rfl (.inl rfl) hsame rfl (by simp [WriterPc.receives])
  | work job o files status hpc hk =>
    rw [hpc] at hshuts
    rw [of_decide_eq_true hshuts] at hk
    cases hk
  | _ => simp_all [WriterPc.shuts]

end LogWriter

end Xcom.File
