import Xcom.File.Jobs

/-!
# The completion queue

An asynchronous request reserves its completion before it is queued.  Whatever becomes
of its job, one completion with its request id is published for it, in the order in which
the requests were accepted, and the block that carried its bytes goes back to the pool.
-/

namespace Xcom.File

/-! ## Requests on their way -/

/-- The completion the caller has popped and not yet accounted for. -/
def CallerPc.popped : CallerPc → Option AtomicCompletion
  | .takeRelease completion => some completion
  | _ => none

/-- Completions reserved for a request that is not accepted yet. -/
def CallerPc.reservation : CallerPc → Nat
  | .submitAlloc _ | .submitEnqueue _ | .submitUndoBlock _ | .submitUndoReservation => 1
  | _ => 0

/-- The block in the caller's hand. -/
def CallerPc.block : CallerPc → Option BlockId
  | .appendEnqueue job | .submitEnqueue job => job.blockId
  | .appendUndo block | .submitUndoBlock block => some block
  | _ => none

/-- The Close inside which `process_rx_ref` runs. -/
def RxCaller.job : RxCaller → Option FileJob
  | close job => some job
  | _ => none

/-- The job the writer works on, up to its completion. -/
def WriterPc.job : WriterPc → Option FileJob
  | .process job | .openStore job _ | .append job | .appendFailed job | .closeDrain job
  | .closeReset job | .finish _ job _ => some job
  | .rx _ _ caller | .rxWrite _ _ caller => caller.job
  | _ => none

/-- The job whose completion is out and whose block is still to be released. -/
def WriterPc.finishing : WriterPc → Option FileJob
  | .releaseBlock _ job _ => some job
  | _ => none

/-- The request ids of the asynchronous jobs. -/
def requestIds (jobs : List FileJob) : List UInt64 :=
  (jobs.filter (·.kind.isAsync)).map (·.requestId)

@[simp] theorem requestIds_append (jobs jobs' : List FileJob) :
    requestIds (jobs ++ jobs') = requestIds jobs ++ requestIds jobs' := by
  simp [requestIds]

namespace LogWriter

/-- The jobs without a completion, the one under way first. -/
def unfinished (s : LogWriter) : List FileJob := s.writer.job.toList ++ s.jobs

/-- The accepted requests whose completion has not been taken, oldest first. -/
def untaken (s : LogWriter) : List UInt64 :=
  (s.caller.popped.toList ++ s.completions).map (·.requestId) ++ requestIds s.unfinished

/-- The blocks outside the pool: in the caller's hand, with a finished job, with the
jobs. -/
def blocks (s : LogWriter) : List BlockId :=
  s.caller.block.toList ++ (s.writer.finishing.toList ++ s.unfinished).filterMap (·.blockId)

/-- What a step does to the requests. -/
inductive RequestStep (s s' : LogWriter) : Prop
  | quiet (ha : s'.accepted = s.accepted) (ht : s'.taken = s.taken)
      (hp : s'.pendingCompletions = s.pendingCompletions) (hu : s'.untaken = s.untaken)
      (hr : s'.caller.reservation = s.caller.reservation)
  | reserve (ha : s'.accepted = s.accepted) (ht : s'.taken = s.taken)
      (hp : s'.pendingCompletions = s.pendingCompletions + 1)
      (hcap : s.pendingCompletions < kCompletionCapacity) (hu : s'.untaken = s.untaken)
      (hr : s.caller.reservation = 0) (hr' : s'.caller.reservation = 1)
  | accept (id : UInt64) (ha : s'.accepted = s.accepted ++ [id]) (ht : s'.taken = s.taken)
      (hp : s'.pendingCompletions = s.pendingCompletions) (hu : s'.untaken = s.untaken ++ [id])
      (hr : s.caller.reservation = 1) (hr' : s'.caller.reservation = 0)
  | giveBack (ha : s'.accepted = s.accepted) (ht : s'.taken = s.taken)
      (hp : s'.pendingCompletions = s.pendingCompletions - 1) (hu : s'.untaken = s.untaken)
      (hr : s.caller.reservation = 1) (hr' : s'.caller.reservation = 0)
  | take (completion : AtomicCompletion) (ha : s'.accepted = s.accepted)
      (ht : s'.taken = s.taken ++ [completion])
      (hp : s'.pendingCompletions = s.pendingCompletions - 1)
      (hu : s.untaken = completion.requestId :: s'.untaken)
      (hr : s'.caller.reservation = s.caller.reservation)

variable {s s' : LogWriter}

theorem syncCaller_plain (shutdown : Bool) (status : XcomStatus) :
    (syncCaller shutdown status).popped = none ∧
      (syncCaller shutdown status).reservation = 0 ∧ (syncCaller shutdown status).block = none := by
  unfold syncCaller
  split
  · split <;> exact ⟨rfl, rfl, rfl⟩
  · exact ⟨rfl, rfl, rfl⟩

theorem CallerStep.request (h : CallerStep s s') (hinv : JobsInv s) (ht : ThreadInv s) :
    RequestStep s s' := by
  have hfit := hinv.caller
  cases h with
  | submitReserve copied job hpc hp =>
    refine .reserve rfl rfl rfl hp ?_ (by simp [hpc, CallerPc.reservation]) ?_
    · cases copied <;> simp [untaken, unfinished, hpc, CallerPc.popped]
    · cases copied <;> rfl
  | submitEnqueue job hpc ha =>
    rw [hpc] at hfit
    refine .accept job.requestId rfl rfl rfl ?_ (by simp [hpc, CallerPc.reservation]) rfl
    simp [untaken, unfinished, hpc, CallerPc.popped, requestIds, hfit.1]
  | submitUndoReservation hpc =>
    refine .giveBack rfl rfl rfl ?_ (by simp [hpc, CallerPc.reservation]) rfl
    simp [untaken, unfinished, hpc, CallerPc.popped]
  | takePop completion rest hpc hc =>
    refine .quiet rfl rfl rfl ?_ (by simp [hpc, CallerPc.reservation])
    simp [untaken, unfinished, hpc, hc, CallerPc.popped]
  | takeRelease completion hpc =>
    refine .take completion rfl rfl rfl ?_ (by simp [hpc, CallerPc.reservation])
    simp [untaken, unfinished, hpc, CallerPc.popped]
  | appendEnqueue job hpc =>
    rw [hpc] at hfit
    refine .quiet rfl rfl rfl ?_ (by simp [hpc, CallerPc.reservation])
    simp [untaken, unfinished, hpc, CallerPc.popped, requestIds, hfit.1, Kind.isAsync]
  | syncEnqueue shutdown job c hpc =>
    rw [hpc] at hfit
    refine .quiet rfl rfl rfl ?_ (by simp [hpc, CallerPc.reservation])
    simp [untaken, unfinished, hpc, CallerPc.popped, requestIds, hfit.1]
  | closeTimesOut shutdown hpc | syncFull shutdown job hpc | syncUndo shutdown job c hpc
  | syncDone shutdown job c hpc | syncTimesOut shutdown job c hpc =>
    refine .quiet rfl rfl rfl ?_ ?_
    · simp only [untaken, unfinished, hpc, (syncCaller_plain _ _).1]
      rfl
    · rw [hpc]
      exact (syncCaller_plain _ _).2.1
  | started hpc hr =>
    have habs : s.writer = .absent := by
      by_contra hcon
      simp [ht.running.mpr hcon] at hr
    refine .quiet rfl rfl rfl ?_ rfl
    simp [untaken, unfinished, habs, WriterPc.job]
  | shutdownJoin hpc hw =>
    refine .quiet rfl rfl rfl ?_ (by simp [hpc, CallerPc.reservation])
    simp [untaken, unfinished, hpc, hw, CallerPc.popped, WriterPc.job]
  | appendLease pc data hpc =>
    cases pc.next s.acceptingLog
    all_goals
      refine .quiet rfl rfl rfl ?_ ?_
      · simp [untaken, unfinished, hpc, LeaseNext.appendPc, CallerPc.popped]
      · simp [hpc, LeaseNext.appendPc, CallerPc.reservation]
  | submitRejected job hpc =>
    cases job.blockId
    all_goals
      refine .quiet rfl rfl rfl ?_ ?_
      · simp [untaken, unfinished, hpc, submitUndo, CallerPc.popped]
      · simp [hpc, submitUndo, CallerPc.reservation]
  | _ =>
    refine .quiet rfl rfl rfl ?_ ?_
    · simp [untaken, unfinished, CallerPc.popped, *]
    · simp [CallerPc.reservation, *]

theorem WriterStep.request (h : WriterStep s s') : RequestStep s s' := by
  cases h with
  | publish cancelling job status hpc hk hc =>
    refine .quiet rfl rfl rfl ?_ rfl
    simp [untaken, unfinished, hpc, WriterPc.job, requestIds, hk]
  | finishSync cancelling job status hpc hk =>
    refine .quiet rfl rfl rfl ?_ rfl
    simp [untaken, unfinished, hpc, WriterPc.job, requestIds, hk]
  | top hpc =>
    refine .quiet rfl rfl rfl ?_ rfl
    cases s.stopping <;> simp [untaken, unfinished, hpc, WriterPc.job]
  | appendWrote job count hpc hc =>
    refine .quiet rfl rfl rfl ?_ rfl
    simp [untaken, unfinished, hpc, WriterPc.job, requestIds, List.filter_cons]
    split <;> simp
  | rxBack segment offset caller hpc =>
    refine .quiet rfl rfl rfl ?_ rfl
    cases caller <;> simp [untaken, unfinished, hpc, WriterPc.job, RxCaller.job, RxCaller.back]
  | completeNone cancelling job status hpc | dropCompletion cancelling c hpc =>
    refine .quiet rfl rfl rfl ?_ rfl
    cases cancelling <;> simp [untaken, unfinished, hpc, WriterPc.job, finished]
  | _ =>
    refine .quiet rfl rfl rfl ?_ rfl
    simp [untaken, unfinished, WriterPc.job, RxCaller.job, *]

/-- What a step does to the blocks. -/
inductive BlockStep (s s' : LogWriter) : Prop
  | quiet (hp : s'.dataPool = s.dataPool) (hb : s'.blocks.Perm s.blocks)
  | allocate (block : BlockId) (ha : s.dataPool.allocate = some (block, s'.dataPool))
      (hb : s'.blocks.Perm (block :: s.blocks))
  | release (block : BlockId) (hp : s'.dataPool = s.dataPool.release block)
      (hb : s.blocks.Perm (block :: s'.blocks))

/-- The block of a queued job comes last. -/
theorem filterMap_blockId_concat (jobs : List FileJob) (job : FileJob) :
    ((jobs ++ [job]).filterMap (·.blockId)).Perm
      (job.blockId.toList ++ jobs.filterMap (·.blockId)) := by
  rw [List.filterMap_append]
  refine List.perm_append_comm.trans (.append_right _ ?_)
  cases hb : job.blockId <;> simp [hb]

theorem CallerStep.block (h : CallerStep s s') (hinv : JobsInv s) (ht : ThreadInv s) :
    BlockStep s s' := by
  have hfit := hinv.caller
  cases h with
  | appendAlloc data block pool hpc ha =>
    refine .allocate block ha ?_
    simp [blocks, unfinished, hpc, CallerPc.block]
  | submitAlloc job block pool hpc ha =>
    refine .allocate block ha ?_
    simp [blocks, unfinished, hpc, CallerPc.block]
  | appendUndo block hpc | submitUndoBlock block hpc =>
    refine .release block rfl ?_
    simp [blocks, unfinished, hpc, CallerPc.block]
  | appendEnqueue job hpc | submitEnqueue job hpc =>
    refine .quiet rfl ?_
    have hend : s.writer.finishing.toList ++ (s.writer.job.toList ++ (s.jobs ++ [job])) =
        s.writer.finishing.toList ++ (s.writer.job.toList ++ s.jobs) ++ [job] := by
      simp only [List.append_assoc]
    simp only [blocks, unfinished, hpc, CallerPc.block, hend]
    exact filterMap_blockId_concat _ job
  | appendFull job block hpc hb =>
    refine .quiet rfl ?_
    simp [blocks, unfinished, hpc, hb, CallerPc.block]
  | submitRejected job hpc =>
    refine .quiet rfl ?_
    cases hb : job.blockId <;> simp [blocks, unfinished, hpc, hb, submitUndo, CallerPc.block]
  | syncEnqueue shutdown job c hpc =>
    rw [hpc] at hfit
    refine .quiet rfl ?_
    simp [blocks, unfinished, hpc, CallerPc.block, hfit.2.2.2.1]
  | closeTimesOut shutdown hpc | syncFull shutdown job hpc | syncUndo shutdown job c hpc
  | syncDone shutdown job c hpc | syncTimesOut shutdown job c hpc =>
    refine .quiet rfl ?_
    simp only [blocks, unfinished, hpc, (syncCaller_plain _ _).2.2]
    exact .refl _
  | started hpc hr =>
    have habs : s.writer = .absent := by
      by_contra hcon
      simp [ht.running.mpr hcon] at hr
    refine .quiet rfl ?_
    simp [blocks, unfinished, habs, WriterPc.job, WriterPc.finishing]
  | shutdownJoin hpc hw =>
    refine .quiet rfl ?_
    simp [blocks, unfinished, hpc, hw, CallerPc.block, WriterPc.job, WriterPc.finishing]
  | appendLease pc data hpc =>
    refine .quiet rfl ?_
    cases pc.next s.acceptingLog <;>
      simp [blocks, unfinished, hpc, LeaseNext.appendPc, CallerPc.block]
  | submitReserve copied job hpc =>
    rw [hpc] at hfit
    refine .quiet rfl ?_
    cases copied <;> simp [blocks, unfinished, hpc, CallerPc.block, hfit.2.2.1]
  | _ =>
    refine .quiet rfl ?_
    simp [blocks, unfinished, CallerPc.block, *]

theorem WriterStep.block (h : WriterStep s s') : BlockStep s s' := by
  cases h with
  | releaseBlock cancelling job status hpc =>
    cases hb : job.blockId with
    | none =>
      refine .quiet (by simp [releasedBlock]) ?_
      simp [blocks, unfinished, hpc, hb, WriterPc.job, WriterPc.finishing]
    | some block =>
      refine .release block (by simp [releasedBlock]) ?_
      simp [blocks, unfinished, hpc, hb, WriterPc.job, WriterPc.finishing]
  | top hpc =>
    refine .quiet rfl ?_
    cases s.stopping <;>
      simp [blocks, unfinished, hpc, WriterPc.job, WriterPc.finishing]
  | appendWrote job count hpc hc =>
    refine .quiet rfl ?_
    simp [blocks, unfinished, hpc, WriterPc.job, WriterPc.finishing, List.filterMap_cons]
  | rxBack segment offset caller hpc =>
    refine .quiet rfl ?_
    cases caller <;>
      simp [blocks, unfinished, hpc, WriterPc.job, WriterPc.finishing, RxCaller.job,
        RxCaller.back]
  | completeNone cancelling job status hpc | dropCompletion cancelling c hpc =>
    refine .quiet rfl ?_
    cases cancelling <;>
      simp [blocks, unfinished, hpc, WriterPc.job, WriterPc.finishing, finished]
  | _ =>
    refine .quiet rfl ?_
    simp [blocks, unfinished, WriterPc.job, WriterPc.finishing, RxCaller.job, *]

end LogWriter

/-! ## The completions of all requests -/

/-- The request ids accepted so far are those of the completions taken, in order, and
then those still on their way; the counter is their number and what the running call has
reserved, and the queue has room for the completion about to be published; every block is
in the pool or with one request that is still on its way; and a thread that is gone has
left no request behind. -/
structure CompletionsSound (s : LogWriter) : Prop where
  ordered : s.accepted = s.taken.map (·.requestId) ++ s.untaken
  pending : s.pendingCompletions + s.taken.length =
    s.accepted.length + s.caller.reservation
  bounded : s.pendingCompletions ≤ kCompletionCapacity
  room : ∀ cancelling job status, s.writer = .finish cancelling job status →
    job.kind.isAsync = true → s.completions.length < kCompletionCapacity
  blocks : s.dataPool.Conserves s.blocks
  stopped : s.writer = .exited ∨ s.writer = .absent → s.unfinished = []

/-- What is counted and kept of the requests. -/
structure RequestsInv (s : LogWriter) : Prop where
  ordered : s.accepted = s.taken.map (·.requestId) ++ s.untaken
  pending : s.pendingCompletions = s.untaken.length + s.caller.reservation
  bounded : s.pendingCompletions ≤ kCompletionCapacity
  blocks : s.dataPool.Conserves s.blocks

namespace LogWriter

variable {s s' : LogWriter}

theorem BlockStep.conserves (h : BlockStep s s') (hinv : s.dataPool.Conserves s.blocks) :
    s'.dataPool.Conserves s'.blocks := by
  cases h with
  | quiet hp hb =>
    rw [hp]
    exact hinv.perm hb
  | allocate block ha hb => exact (hinv.allocate ha).perm hb
  | release block hp hb =>
    rw [hp]
    exact (hinv.perm hb.symm).release

theorem RequestStep.requests (h : RequestStep s s') (hb : BlockStep s s')
    (hinv : RequestsInv s) : RequestsInv s' := by
  have hord := hinv.ordered
  have hpend := hinv.pending
  have hbound := hinv.bounded
  cases h with
  | quiet ha ht hp hu hr =>
    refine ⟨?_, ?_, ?_, hb.conserves hinv.blocks⟩
    · rw [ha, ht, hu]
      exact hord
    · rw [hp, hu, hr]
      exact hpend
    · rw [hp]
      exact hbound
  | reserve ha ht hp hcap hu hr hr' =>
    refine ⟨?_, ?_, ?_, hb.conserves hinv.blocks⟩
    · rw [ha, ht, hu]
      exact hord
    · rw [hp, hu, hr', hpend, hr]
    · rw [hp]
      exact hcap
  | accept id ha ht hp hu hr hr' =>
    refine ⟨?_, ?_, ?_, hb.conserves hinv.blocks⟩
    · rw [ha, ht, hu, hord, List.append_assoc]
    · rw [hp, hu, hr', hpend, hr, List.length_append]
      rfl
    · rw [hp]
      exact hbound
  | giveBack ha ht hp hu hr hr' =>
    refine ⟨?_, ?_, ?_, hb.conserves hinv.blocks⟩
    · rw [ha, ht, hu]
      exact hord
    · rw [hp, hu, hr', hpend, hr]
      rfl
    · omega
  | take completion ha ht hp hu hr =>
    refine ⟨?_, ?_, ?_, hb.conserves hinv.blocks⟩
    · rw [ha, ht, hord, hu, List.map_append, List.append_assoc]
      rfl
    · rw [hp, hr, hpend, hu, List.length_cons]
      omega
    · omega

end LogWriter

theorem requestsInv_reach {fs : FileSystem} {s : LogWriter}
    (h : Transition.Reach (logWriterMachine fs) s) : RequestsInv s := by
  refine h.invariantUsing (q := fun s => JobsInv s ∧ ThreadInv s)
    (fun _ h => ⟨jobsInv_reach h, threadInv_reach h⟩) ?_ ?_
  · exact ⟨rfl, rfl, Nat.zero_le _, FixedPool.conserves_init⟩
  · intro s l s' ⟨hjobs, hthread⟩ hinv _ hstep
    cases l with
    | caller l =>
      have hs := LogWriter.callerStep_cases hstep
      exact (hs.request hjobs hthread).requests (hs.block hjobs hthread) hinv
    | reader l =>
      cases LogWriter.readerStep_cases hstep <;>
        exact ⟨hinv.ordered, hinv.pending, hinv.bounded, hinv.blocks⟩
    | writer l =>
      have hs := LogWriter.writerStep_cases hstep
      exact hs.request.requests hs.block hinv

/-- In every reachable state the completions, their counter and the blocks of the
requests are accounted for. -/
theorem completions_sound {fs : FileSystem} {s : LogWriter}
    (h : Transition.Reach (logWriterMachine fs) s) : CompletionsSound s := by
  have hinv := requestsInv_reach h
  have hthread := threadInv_reach h
  constructor
  · exact hinv.ordered
  · have hlen := congrArg List.length hinv.ordered
    rw [List.length_append, List.length_map] at hlen
    rw [hinv.pending, hlen]
    omega
  · exact hinv.bounded
  · intro cancelling job status hpc hk
    -- the job under way is one of the pending requests, the queued completions are others
    have hpend := hinv.pending
    have hbound := hinv.bounded
    have hlen : s.completions.length + 1 ≤ s.untaken.length := by
      simp [LogWriter.untaken, LogWriter.unfinished, hpc, WriterPc.job, requestIds, hk]
      omega
    omega
  · exact hinv.blocks
  · intro hw
    have hjobs : s.jobs = [] := by
      apply hthread.emptied
      rcases hw with hw | hw <;> rw [hw] <;> rfl
    rcases hw with hw | hw <;> simp [LogWriter.unfinished, hw, hjobs, WriterPc.job]

/-- An atomic write of three bytes in two goes, up to its completion being taken. -/
def atomicWriteRun : List Label :=
  [Label.caller (.startCall true),
    .caller (.submitAtomicCall (some [67]) (some [1, 2, 3]) 7)] ++
  List.replicate 3 (Label.caller .run) ++ List.replicate 2 (Label.writer .run) ++
  [Label.writer (.work { writes := [.wrote 2, .wrote 1] })] ++
  List.replicate 3 (Label.writer .run) ++
  [Label.caller .takeCall, .caller .run, .caller .run]

theorem completions_sound_atomicWrite :
    ∃ s : LogWriter, s.taken = [⟨7, .ok⟩] ∧ s.pendingCompletions = 0 ∧ CompletionsSound s := by
  obtain ⟨s, hs, htaken, hpending⟩ := Transition.exists_of_execUnder
    (m := logWriterMachine fun _ => none) (c := fun _ _ => True)
    (p := fun s => s.taken = [⟨7, .ok⟩] ∧ s.pendingCompletions = 0) atomicWriteRun
    (by decide +kernel)
  exact ⟨s, htaken, hpending, completions_sound hs⟩

end Xcom.File
