import Xcom.File.RawLane

/-!
# What the log file holds

The log file gets the segments the read thread publishes under its lease and the blocks
of the accepted appends, each whole and each kind in its order, and the Close finds
nothing left to write.
-/

namespace Xcom.File

/-! ## Blocks -/

/-- The segments among the blocks of a file. -/
def segmentsOf (blocks : List Block) : List (List UInt8) :=
  blocks.filterMap fun
    | .segment bytes => some bytes
    | .append _ => none

/-- The appends among the blocks of a file. -/
def appendsOf (blocks : List Block) : List (List UInt8) :=
  blocks.filterMap fun
    | .segment _ => none
    | .append bytes => some bytes

def bytesOf (blocks : List Block) : List UInt8 := blocks.flatMap Block.bytes

theorem bytesOf_concat (blocks : List Block) (block : Block) :
    bytesOf (blocks ++ [block]) = bytesOf blocks ++ block.bytes := by
  simp [bytesOf]

theorem segmentsOf_segment (blocks : List Block) (bytes : List UInt8) :
    segmentsOf (blocks ++ [.segment bytes]) = segmentsOf blocks ++ [bytes] := by
  simp [segmentsOf]

theorem segmentsOf_append (blocks : List Block) (bytes : List UInt8) :
    segmentsOf (blocks ++ [.append bytes]) = segmentsOf blocks := by
  simp [segmentsOf]

theorem appendsOf_segment (blocks : List Block) (bytes : List UInt8) :
    appendsOf (blocks ++ [.segment bytes]) = appendsOf blocks := by
  simp [appendsOf]

theorem appendsOf_append (blocks : List Block) (bytes : List UInt8) :
    appendsOf (blocks ++ [.append bytes]) = appendsOf blocks ++ [bytes] := by
  simp [appendsOf]

/-- A closed file holds what it held when it was opened and then its blocks, which are
the segments published and the appends accepted while it was open. -/
structure ClosedFile.Complete (file : ClosedFile) : Prop where
  content : file.content = file.log.base ++ bytesOf file.log.blocks
  segments : segmentsOf file.log.blocks = file.segments
  appends : appendsOf file.log.blocks = file.appends

/-- The block under way, and how far it is written. -/
def WriterPc.current : WriterPc → Option (Block × Nat)
  | .append job | .appendFailed job => some (.append job.data, job.offset)
  | .rx segment offset _ | .rxWrite segment offset _ => some (.segment segment, offset)
  | _ => none

/-- The bytes written are those of the blocks, the one under way as far as it has got. -/
def LogFile.Holds (log : LogFile) : Option (Block × Nat) → Prop
  | none => log.written = bytesOf log.blocks
  | some (block, offset) => ∃ blocks, log.blocks = blocks ++ [block] ∧
      log.written = bytesOf blocks ++ block.bytes.take offset

theorem LogFile.Holds.begins {log : LogFile} {current : Option (Block × Nat)}
    (h : log.Holds current) : log.written <+: bytesOf log.blocks := by
  match current, h with
  | none, h =>
    have heq : log.written = bytesOf log.blocks := h
    exact heq ▸ List.prefix_rfl
  | some (block, offset), ⟨blocks, hblocks, hwritten⟩ =>
    rw [hblocks, hwritten, bytesOf_concat]
    exact (List.prefix_append_right_inj _).mpr (List.take_prefix _ _)

/-- The open log file and what is still on its way to it. -/
structure LogWriter.Content (s : LogWriter) (log : LogFile) : Prop where
  disk : s.files.fs log.path = some (log.base ++ log.written)
  holds : log.Holds s.writer.current
  segments : segmentsOf log.blocks ++ s.rawReady = s.segments
  appends : appendsOf log.blocks ++ s.pendingAppends = s.appends

structure ContentInv (s : LogWriter) : Prop where
  log : ∀ log, s.files.logFile = some log → s.Content log
  closed : ∀ file ∈ s.closedFiles, file.Complete

variable {s s' : LogWriter} {log : LogFile}

/-- A step that writes nothing: it publishes a segment, or queues an append, at most. -/
theorem LogWriter.Content.push (h : s.Content log)
    (hdisk : s'.files.fs log.path = s.files.fs log.path) (hholds : log.Holds s'.writer.current)
    {segments appends : List (List UInt8)} (hraw : s'.rawReady = s.rawReady ++ segments)
    (hsegments : s'.segments = s.segments ++ segments)
    (hpending : s'.pendingAppends = s.pendingAppends ++ appends)
    (happends : s'.appends = s.appends ++ appends) : s'.Content log where
  disk := by
    rw [hdisk]
    exact h.disk
  holds := hholds
  segments := by rw [hraw, hsegments, ← h.segments, List.append_assoc]
  appends := by rw [hpending, happends, ← h.appends, List.append_assoc]

/-- A step that brings nothing new to the log file. -/
theorem LogWriter.Content.quiet (h : s.Content log)
    (hdisk : s'.files.fs log.path = s.files.fs log.path) (hholds : log.Holds s'.writer.current)
    (hsame : s'.rawReady = s.rawReady ∧ s'.segments = s.segments ∧ s'.appends = s.appends)
    (hpending : s'.pendingAppends = s.pendingAppends) : s'.Content log where
  disk := by
    rw [hdisk]
    exact h.disk
  holds := hholds
  segments := by
    rw [hsame.1, hsame.2.1]
    exact h.segments
  appends := by
    rw [hpending, hsame.2.2]
    exact h.appends

/-- The writer starts on a block. -/
theorem LogFile.Holds.note (h : log.Holds none) (block : Block) :
    LogFile.Holds { log with blocks := log.blocks ++ [block] } (some (block, 0)) := by
  refine ⟨log.blocks, rfl, ?_⟩
  rw [List.take_zero, List.append_nil]
  exact h

/-- The writer writes on. -/
theorem LogFile.Holds.write {block : Block} {offset count : Nat}
    (h : log.Holds (some (block, offset))) :
    LogFile.Holds
      { log with written := log.written ++ (block.bytes.drop offset).take count }
      (some (block, offset + count)) := by
  obtain ⟨blocks, hblocks, hwritten⟩ := h
  refine ⟨blocks, hblocks, ?_⟩
  rw [hwritten, List.append_assoc, List.take_add]

/-- The writer is through with a block. -/
theorem LogFile.Holds.done {block : Block} {offset : Nat}
    (h : log.Holds (some (block, offset))) (hd : block.bytes.length ≤ offset) :
    log.Holds none := by
  obtain ⟨blocks, hblocks, hwritten⟩ := h
  rw [LogFile.Holds, hblocks, hwritten, bytesOf_concat, List.take_of_length_le hd]

/-- A job that is no append is queued. -/
theorem ContentInv.enqueueOther (hinv : ContentInv s) {job : FileJob}
    (hk : job.kind ≠ .fileAppend) (accepted : List UInt64) (caller : CallerPc) :
    ContentInv { s with
      jobs := s.jobs ++ [job], accepted := accepted, caller := caller } := by
  refine ⟨?_, hinv.closed⟩
  intro log hlog
  have hcontent := hinv.log log hlog
  refine hcontent.quiet rfl hcontent.holds ⟨rfl, rfl, rfl⟩ ?_
  show jobAppends (s.writer.starting.toList ++ (s.jobs ++ [job])) = _
  rw [← List.append_assoc]
  exact jobAppends_concat_other hk

namespace LogWriter

variable {s s' : LogWriter}

/-- The Append the writer starts on heads the appends on their way. -/
theorem pendingAppends_start {job : FileJob} (hpc : s.writer = .process job)
    (hk : job.kind = .fileAppend) : s.pendingAppends = job.data :: jobAppends s.jobs := by
  simp [pendingAppends, pendingJobs, hpc, WriterPc.starting, jobAppends, hk]

theorem pendingAppends_other {job : FileJob} (hpc : s.writer = .process job)
    (hk : job.kind ≠ .fileAppend) : s.pendingAppends = jobAppends s.jobs := by
  simp [pendingAppends, pendingJobs, hpc, WriterPc.starting, jobAppends, hk]

theorem CallerStep.content (h : CallerStep s s') (hjobs : JobsInv s) (hthread : ThreadInv s)
    (hstop : s.stopping = false) (hinv : ContentInv s) : ContentInv s' := by
  have hfit := hjobs.caller
  cases h with
  | appendEnqueue job hpc =>
    rw [hpc] at hfit
    refine ⟨?_, hinv.closed⟩
    intro log hlog
    have hcontent := hinv.log log hlog
    refine hcontent.push rfl hcontent.holds (List.append_nil _).symm (List.append_nil _).symm ?_ rfl
    show jobAppends (s.writer.starting.toList ++ (s.jobs ++ [job])) = _
    rw [← List.append_assoc]
    exact jobAppends_concat hfit.1
  | submitEnqueue job hpc =>
    rw [hpc] at hfit
    apply hinv.enqueueOther
    intro hk
    have hasync := hfit.1
    rw [hk] at hasync
    cases hasync
  | syncEnqueue shutdown job c hpc =>
    rw [hpc] at hfit
    exact hinv.enqueueOther hfit.2.1 s.accepted _
  | started hpc hr =>
    have habs : s.writer = .absent := by
      by_contra hcon
      simp [hthread.running.mpr hcon] at hr
    refine ⟨?_, hinv.closed⟩
    intro log hlog
    have hcontent := hinv.log log hlog
    have hholds := hcontent.holds
    rw [habs] at hholds
    refine hcontent.quiet rfl hholds ⟨rfl, rfl, rfl⟩ ?_
    simp [pendingAppends, pendingJobs, habs, WriterPc.starting]
  | shutdownJoin hpc hw =>
    have hs := hthread.ending (by rw [hw]; rfl)
    rw [hstop] at hs
    cases hs
  | _ =>
    refine ⟨?_, hinv.closed⟩
    intro log hlog
    have hcontent := hinv.log log hlog
    exact hcontent.quiet rfl hcontent.holds ⟨rfl, rfl, rfl⟩ rfl

theorem ReaderStep.content (h : ReaderStep s s') (hinv : ContentInv s) : ContentInv s' := by
  refine ⟨?_, ?_⟩
  · intro log hlog
    cases h with
    | publish segment hpc =>
      have hcontent := hinv.log log hlog
      exact hcontent.push rfl hcontent.holds rfl rfl (List.append_nil _).symm
        (List.append_nil _).symm
    | _ =>
      have hcontent := hinv.log log hlog
      exact hcontent.quiet rfl hcontent.holds ⟨rfl, rfl, rfl⟩ rfl
  · cases h <;> exact hinv.closed

/-- The writer gets some more bytes of a block through. -/
theorem writes_content {block : Block} {offset count : Nat} {bytes : List UInt8}
    (hold : ∀ log, s.files.logFile = some log → s.Content log)
    (hcurrent : s.writer.current = some (block, offset))
    (hfiles : s'.files = s.files.writeLog bytes)
    (hcurrent' : s'.writer.current = some (block, offset + count))
    (hsame : s'.rawReady = s.rawReady ∧ s'.segments = s.segments ∧ s'.appends = s.appends)
    (hpending : s'.pendingAppends = s.pendingAppends)
    (hlog : s'.files.logFile = some log) (hbytes : bytes = (block.bytes.drop offset).take count) :
    s'.Content log := by
  rw [hfiles, FileState.writeLog] at hlog
  cases hf : s.files.logFile with
  | none =>
    simp only [hf] at hlog
    cases hlog
  | some old =>
    have hcontent := hold old hf
    have hholds := hcontent.holds
    rw [hcurrent] at hholds
    simp only [hf, Option.some.injEq] at hlog
    subst hlog
    constructor
    · rw [hfiles]
      simp only [FileState.writeLog, hf, FileSystem.extend, FileSystem.put, Function.update_self,
        hcontent.disk, Option.getD_some, List.append_assoc]
    · rw [hcurrent', hbytes]
      exact hholds.write
    · rw [hsame.1, hsame.2.1]
      exact hcontent.segments
    · rw [hpending, hsame.2.2]
      exact hcontent.appends

/-- The log file after a step of the writer: it is what it was, but for the block that is
noted or the bytes that are written, or it is new. -/
theorem WriterStep.contentLog (h : WriterStep s s') (hjobs : JobsInv s) (hthread : ThreadInv s)
    (hstop : s.stopping = false) (howned : s.files.Owned) (horder : OrderInv s)
    (hinv : ContentInv s) (hlog : s'.files.logFile = some log) : s'.Content log := by
  have hold := hinv.log
  have hfit := hjobs.writer
  have hend : s.writer.ending = false := by
    by_contra hcon
    have hs := hthread.ending (by simpa using hcon)
    rw [hstop] at hs
    cases hs
  cases h with
  | openCreated job hpc hk hf hh =>
    cases hlog
    have hraw : s.rawReady = [] := by
      by_contra hne
      exact (horder.raw hne).1 hf
    have happends : s.pendingAppends = [] := by
      by_contra hne
      exact horder.appends hne hf
    rw [pendingAppends_other hpc (by simp [hk])] at happends
    constructor
    · exact (Function.update_self _ _ _).trans (congrArg some (List.append_nil _).symm)
    · rfl
    · exact hraw
    · exact happends
  | appendStart job old hpc hk hf =>
    have hcontent := hold old hf
    have hholds := hcontent.holds
    rw [hpc] at hfit hholds
    simp only [FileState.noteBlock, hf, Option.map_some, Option.some.injEq] at hlog
    subst hlog
    constructor
    · exact hcontent.disk
    · have hnote := hholds.note (.append job.data)
      rw [← hfit] at hnote
      exact hnote
    · rw [← hcontent.segments]
      exact congrArg (· ++ _) (segmentsOf_append _ _)
    · rw [← hcontent.appends, pendingAppends_start hpc hk]
      show appendsOf (old.blocks ++ [.append job.data]) ++ jobAppends s.jobs = _
      rw [appendsOf_append, List.append_assoc]
      rfl
  | popRaw segment rest hpc hr | drain job segment rest hpc _ hr =>
    obtain ⟨old, hf, rfl⟩ := Option.map_eq_some_iff.mp hlog
    have hcontent := hold old hf
    have hholds := hcontent.holds
    have happends := hcontent.appends
    rw [hpc] at hholds
    simp only [pendingAppends, pendingJobs, hpc, WriterPc.starting] at happends
    constructor
    · exact hcontent.disk
    · exact hholds.note (.segment segment)
    · rw [← hcontent.segments, hr]
      show segmentsOf (old.blocks ++ [.segment segment]) ++ rest = _
      rw [segmentsOf_segment, List.append_assoc]
      rfl
    · exact (congrArg (· ++ _) (appendsOf_segment _ _)).trans happends
  | appendWrote job count hpc hc =>
    have hcurrent : s.writer.current = some (.append job.data, job.offset) := by
      rw [hpc]
      rfl
    refine writes_content hold hcurrent rfl rfl ⟨rfl, rfl, rfl⟩ ?_ hlog ?_
    · simp [pendingAppends, pendingJobs, hpc, WriterPc.starting]
    · rw [FileJob.slice, Nat.add_sub_cancel_left]
      rfl
  | rxWrote segment offset count caller hpc hc =>
    have hcurrent : s.writer.current = some (.segment segment, offset) := by
      rw [hpc]
      rfl
    refine writes_content hold hcurrent rfl rfl ⟨rfl, rfl, rfl⟩ ?_ hlog rfl
    simp [pendingAppends, pendingJobs, hpc, WriterPc.starting]
  | appendDone job hpc hd =>
    have hcontent := hold log hlog
    have hholds := hcontent.holds
    rw [hpc] at hholds
    refine hcontent.quiet rfl (hholds.done hd) ⟨rfl, rfl, rfl⟩ ?_
    simp [pendingAppends, pendingJobs, hpc, WriterPc.starting]
  | rxBack segment offset caller hpc hd =>
    have hcontent := hold log hlog
    have hholds := hcontent.holds
    rw [hpc] at hholds
    -- no stop is requested and the file is open, so the segment is written to its end
    have hlen : segment.length ≤ offset := by
      rcases hd with hf | hd | hs
      · exact absurd (hf.symm.trans hlog) (by simp)
      · exact hd
      · rw [hstop] at hs
        cases hs
    refine hcontent.quiet rfl ?_ ⟨rfl, rfl, rfl⟩ ?_
    · cases caller <;> exact hholds.done hlen
    · cases caller <;> simp [pendingAppends, pendingJobs, hpc, RxCaller.back, WriterPc.starting]
  | work job o files status hpc hk hw =>
    have hsame := FileState.processAsync_logFile hk hw
    have hlog : s.files.logFile = some log := hsame ▸ hlog
    have hcontent := hold log hlog
    have hholds := hcontent.holds
    rw [hpc] at hholds
    refine hcontent.quiet ?_ hholds ⟨rfl, rfl, rfl⟩ ?_
    · exact FileState.processAsync_log_content hk howned hw hlog
    · refine (pendingAppends_other hpc ?_).symm
      intro happend
      rw [happend] at hk
      cases hk
  | cancelRx _ _ hpc | rxCancelled hpc | resetLog hpc | resetStream _ hpc | jobsCancelled hpc
  | cancelJob _ _ hpc =>
    rw [hpc] at hend
    cases hend
  | appendAborted _ _ hs =>
    rw [hstop] at hs
    cases hs
  | closeReset => cases hlog
  | openFailed _ _ _ hf | appendNotOpen _ _ _ hf | closeNone _ _ hf =>
    rw [hf] at hlog
    cases hlog
  | top hpc =>
    have hcontent := hold log hlog
    have hholds := hcontent.holds
    rw [hpc] at hholds
    rw [hstop]
    refine hcontent.quiet rfl hholds ⟨rfl, rfl, rfl⟩ ?_
    simp [pendingAppends, pendingJobs, hpc, WriterPc.starting]
  | popJob job rest hpc hj =>
    have hcontent := hold log hlog
    have hholds := hcontent.holds
    rw [hpc] at hholds
    refine hcontent.quiet rfl hholds ⟨rfl, rfl, rfl⟩ ?_
    simp [pendingAppends, pendingJobs, hpc, hj, WriterPc.starting]
  | openBusy job hpc hk | flush job _ hpc hk | close job hpc hk =>
    have hcontent := hold log hlog
    have hholds := hcontent.holds
    rw [hpc] at hholds
    refine hcontent.quiet rfl hholds ⟨rfl, rfl, rfl⟩ ?_
    rw [pendingAppends_other hpc (by simp [hk])]
    rfl
  | completeNone cancelling _ _ hpc | dropCompletion cancelling _ hpc =>
    have hcontent := hold log hlog
    have hholds := hcontent.holds
    rw [hpc] at hholds
    cases cancelling
    all_goals
      refine hcontent.quiet rfl hholds ⟨rfl, rfl, rfl⟩ ?_
      simp [pendingAppends, pendingJobs, hpc, finished, WriterPc.starting]
  | noJob hpc | noRaw hpc | openStore _ _ hpc | appendFails _ hpc | appendRetry _ hpc
  | drained _ hpc | rxGoOn _ _ _ hpc | rxFailed _ _ _ hpc | publish _ _ _ hpc
  | finishSync _ _ _ hpc | releaseBlock _ _ _ hpc | completeSync _ _ _ _ hpc =>
    have hcontent := hold log hlog
    have hholds := hcontent.holds
    rw [hpc] at hholds
    refine hcontent.quiet rfl hholds ⟨rfl, rfl, rfl⟩ ?_
    simp [pendingAppends, pendingJobs, hpc, WriterPc.starting]

/-- The Close finds every block written, the lane drained and no append left. -/
theorem WriterStep.contentClosed (h : WriterStep s s') (horder : OrderInv s)
    (hinv : ContentInv s) : ∀ file ∈ s'.closedFiles, file.Complete := by
  cases h with
  | closeReset job log status hpc hf =>
    have hcontent := hinv.log log hf
    have hholds := hcontent.holds
    have happends := hcontent.appends
    have hraw : s.rawReady = [] := by
      by_contra hne
      exact (horder.raw hne).2 job hpc
    rw [hpc] at hholds
    rw [horder.closing (by rw [hpc]; rfl), List.append_nil] at happends
    intro file hmem
    rcases List.mem_append.mp hmem with hmem | hmem
    · exact hinv.closed file hmem
    · rw [List.mem_singleton.mp hmem]
      constructor
      · show (s.files.fs log.path).getD [] = log.base ++ bytesOf log.blocks
        rw [hcontent.disk, ← show log.written = bytesOf log.blocks from hholds]
        rfl
      · rw [← hcontent.segments, hraw, List.append_nil]
      · exact happends
  | _ => exact hinv.closed

end LogWriter

theorem contentInv_reach {fs : FileSystem} {s : LogWriter}
    (h : Transition.ReachUnder (logWriterMachine fs) OpensApart s) : ContentInv s := by
  refine h.invariantUsing (q := fun s => JobsInv s ∧ ThreadInv s ∧ StreamInv s ∧
      AdmissionInv s ∧ OrderInv s)
    (fun _ h => ⟨jobsInv_reach h.reach, threadInv_reach h.reach, streamInv_reach h.reach,
      admissionInv_reach h, orderInv_reach h⟩) ?_ ?_
  · constructor
    · intro log hlog
      cases hlog
    · intro file hmem
      cases hmem
  · intro s l s' ⟨hjobs, hthread, hstream, hadm, horder⟩ hinv _ hstep
    cases l with
    | caller l => exact (LogWriter.callerStep_cases hstep).content hjobs hthread hadm.stopping hinv
    | reader l => exact (LogWriter.readerStep_cases hstep).content hinv
    | writer l =>
      have hs := LogWriter.writerStep_cases hstep
      constructor
      · intro log hlog
        exact hs.contentLog hjobs hthread hadm.stopping hstream.owned horder hinv hlog
      · exact hs.contentClosed horder hinv

/-- The raw lane is sound: a closed file holds just the segments published and the
appends accepted while it was open, whole and each kind in its order; the open one holds
the first of them, and the others are on their way; a segment is published only for an
open file; and once a close has waited for the leases, nobody holds one. -/
structure RawLaneSound (s : LogWriter) : Prop where
  closed : ∀ file ∈ s.closedFiles, file.Complete
  log : ∀ log, s.files.logFile = some log →
    s.files.fs log.path = some (log.base ++ log.written) ∧
      log.written <+: bytesOf log.blocks ∧
      segmentsOf log.blocks ++ s.rawReady = s.segments ∧
      appendsOf log.blocks ++ s.pendingAppends = s.appends
  leased : s.reader = .leased → s.files.logFile ≠ none
  admission : s.admissionClosed = true → s.acceptingLog = false ∧ ¬ s.Holds

/-- The raw lane is sound in every run without a stop request in which leases are
admitted for an Open only while no close is under way. -/
theorem raw_lane_sound {fs : FileSystem} {s : LogWriter}
    (h : Transition.ReachUnder (logWriterMachine fs) OpensApart s) : RawLaneSound s := by
  have hadm := admissionInv_reach h
  have hinv := contentInv_reach h
  constructor
  · exact hinv.closed
  · intro log hlog
    have hcontent := hinv.log log hlog
    exact ⟨hcontent.disk, hcontent.holds.begins, hcontent.segments, hcontent.appends⟩
  · exact fun hpc => (hadm.holds (.inl hpc)).1
  · exact hadm.closed

/-- The thread is started and an `open` has queued its job. -/
def openQueuedRun : List Label :=
  [.caller (.startCall true), .caller (.openCall (some [67]) false), .caller .run,
    .caller (.acquire true), .caller .run]

/-- The writer serves the Open. -/
def openServedRun : List Label :=
  [Label.writer .run, .writer .run, .writer (.create true)] ++ List.replicate 5 (Label.writer .run)

/-- The read thread gets its lease. -/
def leaseRun : List Label := .reader .ingress :: List.replicate 3 (.reader .run)

/-- A close queues its job. -/
def closeQueuedRun : List Label :=
  [.caller .closeCall, .caller .run, .caller .run, .caller (.acquire true), .caller .run]

/-- Two segments and an append, and a close that writes the second segment in two goes
after a failure. -/
def recordRun : List Label :=
  openQueuedRun ++ openServedRun ++ [Label.caller .run] ++ leaseRun ++
  [Label.reader (.publish [1, 2]), .reader (.publish [3, 4]), .reader .release] ++
  [Label.caller (.appendCall (some [9]))] ++ List.replicate 6 (Label.caller .run) ++
  List.replicate 3 (Label.writer .run) ++ [Label.writer (.write (.wrote 1))] ++
  List.replicate 4 (Label.writer .run) ++ closeQueuedRun ++
  List.replicate 5 (Label.writer .run) ++ [Label.writer (.write (.wrote 2))] ++
  List.replicate 3 (Label.writer .run) ++ [Label.writer (.write .failed), .writer .run,
    .writer (.write (.wrote 1)), .writer .run, .writer (.write (.wrote 1))] ++
  List.replicate 2 (Label.writer .run) ++ [Label.writer (.flush true)]

theorem raw_lane_sound_record :
    ∃ s : LogWriter, s.closedFiles.map (·.content) = [[9, 1, 2, 3, 4]] ∧ RawLaneSound s := by
  obtain ⟨s, hs, hcontent⟩ := Transition.exists_of_execUnder
    (m := logWriterMachine fun _ => none) (c := OpensApart)
    (p := fun s => s.closedFiles.map (·.content) = [[9, 1, 2, 3, 4]]) recordRun
    (by decide +kernel)
  exact ⟨s, hcontent, raw_lane_sound hs⟩

/-- The wait of an `open` is given up while its job is queued, and a close waits for the
leases and queues its job behind it.  The Open then admits a lease, and the segment is
published after the Close has drained the lane. -/
def lateOpenRun : List Label :=
  openQueuedRun ++ [Label.caller .timeout] ++ closeQueuedRun ++ openServedRun ++ leaseRun ++
  List.replicate 4 (Label.writer .run) ++ [Label.reader (.publish [1]), .writer (.flush true)]

theorem late_open_loses_segment :
    ∃ s : LogWriter,
      Transition.ReachUnder (logWriterMachine fun _ => none) KeepsRunning s ∧
        ¬ RawLaneSound s := by
  obtain ⟨s, hs, hclosed⟩ := Transition.exists_of_execUnder
    (m := logWriterMachine fun _ => none) (c := KeepsRunning)
    (p := fun s => ∃ file ∈ s.closedFiles, segmentsOf file.log.blocks ≠ file.segments)
    lateOpenRun (by decide +kernel)
  refine ⟨s, hs, ?_⟩
  intro hsound
  obtain ⟨file, hmem, hne⟩ := hclosed
  exact hne (hsound.closed file hmem).segments

end Xcom.File
