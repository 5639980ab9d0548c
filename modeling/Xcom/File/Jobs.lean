import Xcom.File.Cases

/-!
# The jobs on their way

Which jobs stand where, and that a job is accepted only while the writer thread will
still come to it.
-/

namespace Xcom.File

/-! ## Kinds -/

/-- The jobs the caller prepares are fresh and of the kind of its call. -/
def CallerPc.Fit : CallerPc → Prop
  | .openLoadAccepting job => job.kind = .fileOpen ∧ job.offset = 0 ∧ job.blockId = none
  | .syncAcquire _ job =>
    job.kind.isAsync = false ∧ job.kind ≠ .fileAppend ∧ job.offset = 0 ∧ job.blockId = none
  | .syncEnqueue _ job c =>
    job.kind.isAsync = false ∧ job.kind ≠ .fileAppend ∧ job.offset = 0 ∧
      job.blockId = none ∧ job.completion = some c
  | .syncWait _ job c => job.completion = some c
  | .appendEnqueue job => job.kind = .fileAppend ∧ job.offset = 0 ∧ job.completion = none
  | .submitReserve _ job | .submitAlloc job =>
    job.kind.isAsync = true ∧ job.offset = 0 ∧ job.blockId = none ∧ job.completion = none
  | .submitEnqueue job =>
    job.kind.isAsync = true ∧ job.offset = 0 ∧ job.completion = none
  | _ => True

/-- The kind of a job that is being processed fits the place. -/
def WriterPc.Fit : WriterPc → Prop
  | .process job => job.offset = 0
  | .openStore job _ => job.kind = .fileOpen
  | .append job | .appendFailed job => job.kind = .fileAppend
  | .closeDrain job | .closeReset job | .rx _ _ (.close job) | .rxWrite _ _ (.close job) =>
    job.kind = .fileClose
  | _ => True

structure JobsInv (s : LogWriter) : Prop where
  caller : s.caller.Fit
  queued : ∀ job ∈ s.jobs, job.offset = 0
  writer : s.writer.Fit

namespace LogWriter

variable {s s' : LogWriter}

theorem syncCaller_fit (shutdown : Bool) (status : XcomStatus) :
    (syncCaller shutdown status).Fit := by
  unfold syncCaller
  split
  · split <;> trivial
  · trivial

theorem CallerStep.jobs (h : CallerStep s s') (hinv : JobsInv s) : JobsInv s' := by
  have hcaller := hinv.caller
  have hqueued := hinv.queued
  cases h with
  | started => exact ⟨hcaller, hqueued, trivial⟩
  | openParam => exact ⟨hcaller, hqueued, hinv.writer⟩
  | appendLease pc data hpc =>
    refine ⟨?_, hqueued, hinv.writer⟩
    cases pc <;> cases s.acceptingLog <;> trivial
  | submitReserve copied job hpc hp =>
    rw [hpc] at hcaller
    refine ⟨?_, hqueued, hinv.writer⟩
    cases copied with
    | false => exact ⟨hcaller.1, hcaller.2.1, hcaller.2.2.2⟩
    | true => exact hcaller
  | submitRejected job hpc =>
    refine ⟨?_, hqueued, hinv.writer⟩
    cases job.blockId <;> trivial
  | appendEnqueue job hpc | syncEnqueue _ job _ hpc | submitEnqueue job hpc =>
    rw [hpc] at hcaller
    refine ⟨by first | trivial | exact hcaller.2.2.2.2, ?_, hinv.writer⟩
    intro job' hmem
    rcases List.mem_append.mp hmem with hold | hnew
    · exact hqueued job' hold
    · rw [List.mem_singleton.mp hnew]
      simp_all [CallerPc.Fit]
  | closeTimesOut | syncFull | syncUndo | syncTimesOut | syncDone =>
    refine ⟨?_, hqueued, hinv.writer⟩
    exact syncCaller_fit _ _
  | shutdownJoin => exact ⟨trivial, hqueued, trivial⟩
  | submitCall copied job hpc hj =>
    exact ⟨⟨hj.kind, hj.offset, hj.blockId, hj.completion⟩, hqueued, hinv.writer⟩
  | _ =>
    refine ⟨?_, hqueued, hinv.writer⟩
    simp_all [CallerPc.Fit, Kind.isAsync]

theorem WriterStep.jobs (h : WriterStep s s') (hinv : JobsInv s) : JobsInv s' := by
  have hqueued := hinv.queued
  have hwriter := hinv.writer
  cases h with
  | top hpc =>
    refine ⟨hinv.caller, hqueued, ?_⟩
    simp only
    split <;> trivial
  | popJob job rest hpc hj =>
    rw [hj] at hqueued
    exact ⟨hinv.caller, fun j hm => hqueued j (List.mem_cons_of_mem _ hm),
      hqueued job List.mem_cons_self⟩
  | cancelJob job rest hpc hj =>
    rw [hj] at hqueued
    exact ⟨hinv.caller, fun j hm => hqueued j (List.mem_cons_of_mem _ hm), trivial⟩
  | rxBack segment offset caller hpc =>
    refine ⟨hinv.caller, hqueued, ?_⟩
    rw [hpc] at hwriter
    cases caller <;> exact hwriter
  | rxGoOn _ _ caller hpc | rxFailed _ _ caller hpc | rxWrote _ _ _ caller hpc =>
    refine ⟨hinv.caller, hqueued, ?_⟩
    rw [hpc] at hwriter
    cases caller <;> exact hwriter
  | completeNone cancelling | dropCompletion cancelling =>
    refine ⟨hinv.caller, hqueued, ?_⟩
    cases cancelling <;> trivial
  | _ =>
    refine ⟨hinv.caller, hqueued, ?_⟩
    simp_all [WriterPc.Fit]

end LogWriter

theorem jobsInv_reach {fs : FileSystem} {s : LogWriter}
    (h : Transition.Reach (logWriterMachine fs) s) : JobsInv s := by
  refine h.invariant (p := JobsInv) ⟨?_, ?_, ?_⟩ ?_
  · trivial
  · simp [logWriterMachine]
  · trivial
  intro s l s' hinv _ hstep
  cases l with
  | caller l => exact (LogWriter.callerStep_cases hstep).jobs hinv
  | reader l =>
    cases LogWriter.readerStep_cases hstep <;> exact ⟨hinv.caller, hinv.queued, hinv.writer⟩
  | writer l => exact (LogWriter.writerStep_cases hstep).jobs hinv

/-! ## The life of the thread -/

/-- `process_rx_ref` is called by `cancel_pending_rx`. -/
def RxCaller.cancels : RxCaller → Bool
  | cancel => true
  | _ => false

/-- The writer thread has seen the stop request. -/
def WriterPc.ending : WriterPc → Bool
  | .finish cancelling _ _ | .releaseBlock cancelling _ _ | .completeSync cancelling _ _
  | .dropCompletion cancelling _ => cancelling
  | .rx _ _ caller | .rxWrite _ _ caller => caller.cancels
  | .cancelJobs | .cancelRx | .resetLog | .resetStream | .exited => true
  | _ => false

/-- The writer thread is through with the queue, or not there. -/
def WriterPc.emptied : WriterPc → Bool
  | .rx _ _ caller | .rxWrite _ _ caller => caller.cancels
  | .cancelRx | .resetLog | .resetStream | .exited | .absent => true
  | _ => false

/-- The caller is inside `shutdown` and has not set the stop flag yet. -/
def CallerPc.shutting : CallerPc → Bool
  | .closeStore shutdown | .closeWait shutdown | .syncAcquire shutdown _
  | .syncEnqueue shutdown _ _ | .syncUndo shutdown _ _ | .syncWait shutdown _ _ => shutdown
  | .shutdownReject | .shutdownStop => true
  | _ => false

structure ThreadInv (s : LogWriter) : Prop where
  running : s.running = true ↔ s.writer ≠ .absent
  stopping : s.running = true → (s.stopping = true ↔ s.caller = .shutdownJoin)
  shutting : s.caller.shutting = true ∨ s.caller = .shutdownJoin → s.running = true
  ending : s.writer.ending = true → s.stopping = true
  emptied : s.writer.emptied = true → s.jobs = []

theorem WriterPc.ending_of_emptied {pc : WriterPc} (h : pc.emptied = true) :
    pc.ending = true ∨ pc = .absent := by
  cases pc <;> first | exact .inl h | exact .inr rfl | cases h

/-- A job is accepted only while the thread will still come to it. -/
theorem ThreadInv.admitted {s : LogWriter} (h : ThreadInv s) (ha : s.admits = true) :
    s.writer.emptied = false := by
  simp only [LogWriter.admits, decide_eq_true_eq] at ha
  obtain ⟨hr, hs, -⟩ := ha
  by_contra hcon
  rcases WriterPc.ending_of_emptied (by simpa using hcon) with hend | habs
  · exact hs (h.ending hend)
  · exact h.running.mp hr habs

/-- A step of the caller that leaves the flags and the thread alone. -/
theorem ThreadInv.keep {s s' : LogWriter} (hinv : ThreadInv s)
    (hflags : s'.running = s.running ∧ s'.stopping = s.stopping ∧ s'.writer = s.writer)
    (hjobs : s'.jobs = s.jobs ∨ s.admits = true) (hpc : s.caller ≠ .shutdownJoin)
    (hpc' : s'.caller ≠ .shutdownJoin)
    (hshut : s'.caller.shutting = true → s.caller.shutting = true ∨ s.running = true) :
    ThreadInv s' := by
  obtain ⟨hr, hs, hw⟩ := hflags
  constructor
  · rw [hr, hw]
    exact hinv.running
  · intro hrun
    rw [hs, hinv.stopping (hr ▸ hrun)]
    exact ⟨fun h => absurd h hpc, fun h => absurd h hpc'⟩
  · intro hin
    rw [hr]
    rcases hin with hin | hin
    · exact (hshut hin).elim (fun h => hinv.shutting (.inl h)) id
    · exact absurd hin hpc'
  · rw [hs, hw]
    exact hinv.ending
  · intro he
    rw [hw] at he
    rcases hjobs with hj | ha
    · rw [hj]
      exact hinv.emptied he
    · simp [hinv.admitted ha] at he

namespace LogWriter

variable {s s' : LogWriter}

theorem syncCaller_ne_join (shutdown : Bool) (status : XcomStatus) :
    syncCaller shutdown status ≠ .shutdownJoin := by
  unfold syncCaller
  split
  · split <;> simp
  · simp

theorem syncCaller_shutting {shutdown : Bool} {status : XcomStatus}
    (h : (syncCaller shutdown status).shutting = true) : shutdown = true := by
  cases shutdown
  · cases h
  · rfl

theorem CallerStep.thread (h : CallerStep s s') (hinv : ThreadInv s) : ThreadInv s' := by
  cases h with
  | started hpc hr =>
    constructor
    · simp
    · simp [hpc]
    · simp
    · simp [WriterPc.ending]
    · simp [WriterPc.emptied]
  | startFails hpc hr =>
    have habs : s.writer = .absent := by
      by_contra hcon
      simp [hinv.running.mpr hcon] at hr
    constructor
    · exact hinv.running
    · simp [hr]
    · simp [hpc, CallerPc.shutting]
    · simp [habs, WriterPc.ending]
    · exact hinv.emptied
  | shutdownStop hpc =>
    constructor
    · exact hinv.running
    · simp
    · intro _
      exact hinv.shutting (.inl (by rw [hpc]; rfl))
    · exact fun _ => rfl
    · exact hinv.emptied
  | shutdownJoin hpc hw =>
    constructor
    · simp
    · simp
    · simp [CallerPc.shutting]
    · simp [WriterPc.ending]
    · intro _
      exact hinv.emptied (by rw [hw]; rfl)
  | appendEnqueue job hpc ha | submitEnqueue job hpc ha =>
    exact hinv.keep ⟨rfl, rfl, rfl⟩ (.inr ha) (by simp [hpc]) (by simp)
      (by simp [CallerPc.shutting])
  | syncEnqueue shutdown job c hpc ha =>
    refine hinv.keep ⟨rfl, rfl, rfl⟩ (.inr ha) (by simp [hpc]) (by simp) ?_
    rw [hpc]
    exact .inl
  | appendLease pc data hpc =>
    refine hinv.keep ⟨rfl, rfl, rfl⟩ (.inl rfl) (by simp [hpc]) ?_ ?_
    all_goals cases pc.next s.acceptingLog <;> simp [LeaseNext.appendPc, CallerPc.shutting]
  | submitReserve copied job hpc =>
    refine hinv.keep ⟨rfl, rfl, rfl⟩ (.inl rfl) (by simp [hpc]) ?_ ?_
    all_goals cases copied <;> simp [CallerPc.shutting]
  | submitRejected job hpc =>
    refine hinv.keep ⟨rfl, rfl, rfl⟩ (.inl rfl) (by simp [hpc]) ?_ ?_
    all_goals cases job.blockId <;> simp [submitUndo, CallerPc.shutting]
  | closeCall shutdown hpc hr =>
    refine hinv.keep ⟨rfl, rfl, rfl⟩ (.inl rfl) (by simp [hpc]) (by simp) ?_
    exact fun h => .inr (hr h)
  | openBusy job hpc =>
    exact hinv.keep ⟨rfl, rfl, rfl⟩ (.inl rfl) (by simp [hpc]) (by simp)
      (by simp [CallerPc.shutting])
  | closeTimesOut shutdown hpc | syncFull shutdown job hpc | syncUndo shutdown job c hpc
  | syncDone shutdown job c hpc | syncTimesOut shutdown job c hpc =>
    refine hinv.keep ⟨rfl, rfl, rfl⟩ (.inl rfl) (by simp [hpc]) (syncCaller_ne_join _ _) ?_
    intro hin
    rw [hpc]
    exact .inl (syncCaller_shutting hin)
  | refused hpc | openParam hpc | closeWaits shutdown hpc =>
    exact hinv.keep ⟨rfl, rfl, rfl⟩ (.inl rfl) (by simp [hpc]) (by simp [hpc]) .inl
  | closeStore shutdown hpc | closeDrained shutdown hpc | syncAcquire shutdown job c pool hpc
  | syncRejected shutdown job c hpc =>
    refine hinv.keep ⟨rfl, rfl, rfl⟩ (.inl rfl) (by simp [hpc]) (by simp) ?_
    rw [hpc]
    exact .inl
  | shutdownReject hpc =>
    refine hinv.keep ⟨rfl, rfl, rfl⟩ (.inl rfl) (by simp [hpc]) (by simp) ?_
    rw [hpc]
    exact .inl
  | _ =>
    apply hinv.keep
    · exact ⟨rfl, rfl, rfl⟩
    · exact .inl rfl
    · simp [*]
    · simp
    · simp [CallerPc.shutting]

theorem WriterStep.flags (h : WriterStep s s') :
    s'.running = s.running ∧ s'.stopping = s.stopping ∧ s'.caller = s.caller := by
  cases h <;> exact ⟨rfl, rfl, rfl⟩

theorem WriterStep.present (h : WriterStep s s') :
    s.writer ≠ .absent ∧ s'.writer ≠ .absent := by
  cases h with
  | top hpc =>
    refine ⟨by simp [hpc], ?_⟩
    simp only
    split <;> simp
  | completeNone cancelling _ _ hpc | dropCompletion cancelling _ hpc =>
    exact ⟨by simp [hpc], by cases cancelling <;> simp [finished]⟩
  | rxBack _ _ caller hpc => exact ⟨by simp [hpc], by cases caller <;> simp [RxCaller.back]⟩
  | _ => exact ⟨by simp [*], by simp⟩

/-- The thread turns to its end only when it has seen the stop request. -/
theorem WriterStep.ending (h : WriterStep s s') (he : s'.writer.ending = true) :
    s.writer.ending = true ∨ s.stopping = true := by
  cases h with
  | top hpc =>
    right
    simp only at he
    split at he
    · assumption
    · cases he
  | completeNone cancelling _ _ hpc | dropCompletion cancelling _ hpc =>
    left
    rw [hpc]
    cases cancelling
    · cases he
    · rfl
  | rxBack _ _ caller hpc =>
    left
    rw [hpc]
    cases caller <;> first | rfl | cases he
  | rxGoOn _ _ _ hpc | rxFailed _ _ _ hpc | rxWrote _ _ _ _ hpc | publish _ _ _ hpc
  | finishSync _ _ _ hpc | releaseBlock _ _ _ hpc | completeSync _ _ _ _ hpc =>
    rw [hpc]
    exact .inl he
  | jobsCancelled hpc | cancelJob _ _ hpc | rxCancelled hpc | cancelRx _ _ hpc | resetLog hpc
  | resetStream _ hpc =>
    rw [hpc]
    exact .inl rfl
  | _ => cases he

theorem WriterStep.emptied (h : WriterStep s s') (he : s'.writer.emptied = true) :
    s.writer.emptied = true ∧ s'.jobs = s.jobs ∨ s'.jobs = [] := by
  cases h with
  | top hpc =>
    simp only at he
    split at he <;> cases he
  | completeNone cancelling | dropCompletion cancelling => cases cancelling <;> cases he
  | rxBack _ _ caller hpc =>
    left
    rw [hpc]
    cases caller <;> first | exact ⟨rfl, rfl⟩ | cases he
  | rxGoOn _ _ _ hpc | rxFailed _ _ _ hpc | rxWrote _ _ _ _ hpc =>
    rw [hpc]
    exact .inl ⟨he, rfl⟩
  | jobsCancelled hpc hj => exact .inr hj
  | rxCancelled hpc | cancelRx _ _ hpc | resetLog hpc | resetStream _ hpc =>
    rw [hpc]
    exact .inl ⟨rfl, rfl⟩
  | _ => cases he

theorem WriterStep.thread (h : WriterStep s s') (hinv : ThreadInv s) : ThreadInv s' := by
  obtain ⟨hr, hs, hc⟩ := h.flags
  obtain ⟨hw, hw'⟩ := h.present
  constructor
  · rw [hr, hinv.running]
    exact ⟨fun _ => hw', fun _ => hw⟩
  · rw [hr, hs, hc]
    exact hinv.stopping
  · rw [hr, hc]
    exact hinv.shutting
  · intro he
    rw [hs]
    exact (h.ending he).elim hinv.ending id
  · intro he
    rcases h.emptied he with ⟨hold, hj⟩ | hnil
    · rw [hj]
      exact hinv.emptied hold
    · exact hnil

end LogWriter

theorem threadInv_reach {fs : FileSystem} {s : LogWriter}
    (h : Transition.Reach (logWriterMachine fs) s) : ThreadInv s := by
  refine h.invariant (p := ThreadInv) ?_ ?_
  · constructor <;> simp [logWriterMachine, CallerPc.shutting, WriterPc.ending]
  · intro s l s' hinv _ hstep
    cases l with
    | caller l => exact (LogWriter.callerStep_cases hstep).thread hinv
    | reader l =>
      cases LogWriter.readerStep_cases hstep <;>
        exact ⟨hinv.running, hinv.stopping, hinv.shutting, hinv.ending, hinv.emptied⟩
    | writer l => exact (LogWriter.writerStep_cases hstep).thread hinv

end Xcom.File
