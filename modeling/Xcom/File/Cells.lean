import Xcom.File.Completions

/-!
# The cells of the synchronous requests

A cell is shared by the caller that waits on it and by the job that will answer through
it.  Its reference count is the number of the two that still hold it, so a cell that is
used again has nobody left who could answer through it.
-/

namespace Xcom.File

/-- The references of the caller: its own, and the one of a job it has not queued. -/
def CallerPc.cells : CallerPc → List CompletionId
  | .syncEnqueue _ _ c => [c, c]
  | .syncUndo _ _ c | .syncWait _ _ c => [c]
  | _ => []

/-- The cell of a job that is about to be queued. -/
def CallerPc.unsent : CallerPc → Option CompletionId
  | .syncEnqueue _ _ c => some c
  | _ => none

/-- The finished job whose answer is still to be given. -/
def WriterPc.answering : WriterPc → Option FileJob
  | .releaseBlock _ job _ | .completeSync _ job _ => some job
  | _ => none

/-- The reference of a job that has been answered. -/
def WriterPc.dropping : WriterPc → Option CompletionId
  | .dropCompletion _ c => some c
  | _ => none

namespace LogWriter

/-- The cells of the jobs that are not answered yet. -/
def owed (s : LogWriter) : List CompletionId :=
  (s.writer.answering.toList ++ s.unfinished).filterMap (·.completion)

/-- All references to cells. -/
def refs (s : LogWriter) : List CompletionId :=
  s.caller.cells ++ (s.writer.dropping.toList ++ s.owed)

/-- What a step does to the cells. -/
inductive CellStep (s s' : LogWriter) : Prop
  | quiet (hp : s'.completionPool = s.completionPool) (hc : s'.cells = s.cells)
      (hr : s'.refs = s.refs) (ho : s'.owed = s.owed)
      (hu : s'.caller.unsent = s.caller.unsent)
  | acquire (c : CompletionId) (ha : s.completionPool.allocate = some (c, s'.completionPool))
      (hc : s'.cells = Function.update s.cells c { refCount := 2 })
      (hr : s'.refs = c :: c :: s.refs) (ho : s'.owed = s.owed)
      (hu : s'.caller.unsent = some c)
  | send (c : CompletionId) (hp : s'.completionPool = s.completionPool)
      (hc : s'.cells = s.cells) (hr : s'.refs.Perm s.refs) (ho : s'.owed = s.owed ++ [c])
      (hu : s.caller.unsent = some c) (hu' : s'.caller.unsent = none)
  | answer (c : CompletionId) (status : XcomStatus)
      (hp : s'.completionPool = s.completionPool)
      (hc : s'.cells = Function.update s.cells c { s.cells c with status := status, done := true })
      (hr : s'.refs = s.refs) (ho : s.owed = c :: s'.owed)
      (hu : s'.caller.unsent = s.caller.unsent)
  | drop (c : CompletionId) (hp : s'.completionPool = s.releasedPool c)
      (hc : s'.cells = s.releasedCells c) (hr : s.refs.Perm (c :: s'.refs))
      (ho : s'.owed = s.owed)
      (hu : s'.caller.unsent = none ∨ s'.caller.unsent = s.caller.unsent)

/-- The reference counts are right; no cell is owed by two jobs, nor is one that a job
has yet to be queued with; and a cell that is owed is not done. -/
structure CellsInv (s : LogWriter) : Prop where
  counted : s.completionPool.Counted (fun c => (s.cells c).refCount) s.refs
  nodup : s.owed.Nodup
  fresh : ∀ c ∈ s.owed, (s.cells c).done = false
  unsent : ∀ c, s.caller.unsent = some c → c ∉ s.owed ∧ (s.cells c).done = false

variable {s s' : LogWriter}

theorem owed_subset_refs {c : CompletionId} (h : c ∈ s.owed) : c ∈ s.refs :=
  List.mem_append_right _ (List.mem_append_right _ h)

theorem releasedCells_refCount (s : LogWriter) (c : CompletionId) :
    (s.releasedCells c c).refCount = (s.cells c).refCount - 1 := by
  rw [releasedCells, Function.update_self]

theorem releasedCells_ne (s : LogWriter) {c d : CompletionId} (h : d ≠ c) :
    s.releasedCells c d = s.cells d := Function.update_of_ne h _ _

theorem releasedCells_done (s : LogWriter) (c d : CompletionId) :
    (s.releasedCells c d).done = (s.cells d).done ∧
      (s.releasedCells c d).status = (s.cells d).status := by
  by_cases h : d = c
  · subst h
    rw [releasedCells, Function.update_self]
    exact ⟨rfl, rfl⟩
  · rw [releasedCells_ne s h]
    exact ⟨rfl, rfl⟩

theorem CellStep.cells (h : CellStep s s') (hinv : CellsInv s) : CellsInv s' := by
  have hcounted := hinv.counted
  have hfresh := hinv.fresh
  cases h with
  | quiet hp hc hr ho hu =>
    constructor
    · rw [hp, hc, hr]
      exact hcounted
    · rw [ho]
      exact hinv.nodup
    · rw [hc, ho]
      exact hfresh
    · rw [hc, ho, hu]
      exact hinv.unsent
  | acquire c ha hc hr ho hu =>
    have hnone : c ∉ s.refs := by
      apply hcounted.free
      rw [FixedPool.allocate_free ha]
      exact List.mem_cons_self
    have hnew : c ∉ s.owed := fun hmem => hnone (owed_subset_refs hmem)
    constructor
    · rw [hr]
      refine hcounted.allocate ha ?_ ?_
      · simp only [hc, Function.update_self]
      · intro d hd
        simp only [hc, Function.update_of_ne hd]
    · rw [ho]
      exact hinv.nodup
    · intro d hd
      rw [ho] at hd
      have hdc : d ≠ c := fun heq => hnew (heq ▸ hd)
      rw [hc, Function.update_of_ne hdc]
      exact hfresh d hd
    · intro d hd
      rw [hu] at hd
      cases hd
      rw [ho, hc, Function.update_self]
      exact ⟨hnew, rfl⟩
  | send c hp hc hr ho hu hu' =>
    obtain ⟨hnew, hdone⟩ := hinv.unsent c hu
    constructor
    · rw [hp, hc]
      exact hcounted.perm hr
    · rw [ho]
      exact List.nodup_append.mpr ⟨hinv.nodup, List.nodup_singleton _, fun a ha b hb => by
        rw [List.mem_singleton.mp hb]
        exact fun heq => hnew (heq ▸ ha)⟩
    · intro d hd
      rw [hc]
      rw [ho] at hd
      rcases List.mem_append.mp hd with hd | hd
      · exact hfresh d hd
      · rw [List.mem_singleton.mp hd]
        exact hdone
    · intro d hd
      rw [hu'] at hd
      cases hd
  | answer c status hp hc hr ho hu =>
    have hnodup := hinv.nodup
    rw [ho] at hnodup
    obtain ⟨hnew, hnodup⟩ := List.nodup_cons.mp hnodup
    constructor
    · have hcount : (fun d => (s'.cells d).refCount) = fun d => (s.cells d).refCount := by
        funext d
        rw [hc]
        by_cases hd : d = c
        · rw [hd, Function.update_self]
        · rw [Function.update_of_ne hd]
      rw [hp, hcount, hr]
      exact hcounted
    · exact hnodup
    · intro d hd
      have hdc : d ≠ c := fun heq => hnew (heq ▸ hd)
      rw [hc, Function.update_of_ne hdc]
      exact hfresh d (ho ▸ List.mem_cons_of_mem _ hd)
    · intro d hd
      rw [hu] at hd
      obtain ⟨hout, hdone⟩ := hinv.unsent d hd
      rw [ho] at hout
      have hdc : d ≠ c := fun heq => hout (heq ▸ List.mem_cons_self)
      rw [hc, Function.update_of_ne hdc]
      exact ⟨fun hmem => hout (List.mem_cons_of_mem _ hmem), hdone⟩
  | drop c hp hc hr ho hu =>
    constructor
    · rw [hp, hc]
      refine (hcounted.perm hr.symm).drop (s.releasedCells_refCount c) ?_
      exact fun d hd => congrArg _ (releasedCells_ne s hd)
    · rw [ho]
      exact hinv.nodup
    · intro d hd
      rw [ho] at hd
      rw [hc, (s.releasedCells_done c d).1]
      exact hfresh d hd
    · intro d hd
      rw [hc, ho, (s.releasedCells_done c d).1]
      rcases hu with hu | hu
      · rw [hu] at hd
        cases hd
      · exact hinv.unsent d (hu ▸ hd)

theorem syncCaller_cells (shutdown : Bool) (status : XcomStatus) :
    (syncCaller shutdown status).cells = [] ∧ (syncCaller shutdown status).unsent = none := by
  unfold syncCaller
  split
  · split <;> exact ⟨rfl, rfl⟩
  · exact ⟨rfl, rfl⟩

theorem CallerStep.cell (h : CallerStep s s') (hinv : JobsInv s) (ht : ThreadInv s) :
    CellStep s s' := by
  have hfit := hinv.caller
  cases h with
  | syncAcquire shutdown job c pool hpc ha =>
    refine .acquire c ha rfl ?_ rfl rfl
    simp [refs, owed, unfinished, hpc, CallerPc.cells]
  | syncEnqueue shutdown job c hpc ha =>
    rw [hpc] at hfit
    have ho : owed { s with jobs := s.jobs ++ [job], caller := .syncWait shutdown job c } =
        s.owed ++ [c] := by
      simp [owed, unfinished, hfit.2.2.2.2]
    refine .send c rfl rfl ?_ ho (by rw [hpc]; rfl) rfl
    have hlast : (s.writer.dropping.toList ++ s.owed ++ [c]).Perm
        ([c] ++ (s.writer.dropping.toList ++ s.owed)) := List.perm_append_comm
    simp only [refs, ho, hpc, CallerPc.cells]
    simpa using hlast
  | syncRejected shutdown job c hpc =>
    refine .drop c rfl rfl ?_ rfl (.inl rfl)
    simp [refs, owed, unfinished, hpc, CallerPc.cells]
  | syncUndo shutdown job c hpc | syncDone shutdown job c hpc | syncTimesOut shutdown job c hpc =>
    refine .drop c rfl rfl ?_ rfl (.inl (syncCaller_cells _ _).2)
    simp only [refs, hpc, (syncCaller_cells _ _).1]
    exact .refl _
  | closeTimesOut shutdown hpc | syncFull shutdown job hpc =>
    refine .quiet rfl rfl ?_ rfl ?_
    · simp only [refs, hpc, (syncCaller_cells _ _).1]
      rfl
    · rw [(syncCaller_cells _ _).2, hpc]
      rfl
  | appendEnqueue job hpc ha | submitEnqueue job hpc ha =>
    rw [hpc] at hfit
    refine .quiet rfl rfl ?_ ?_ (by rw [hpc]; rfl)
    · simp [refs, owed, unfinished, hpc, CallerPc.cells, hfit.2.2]
    · simp [owed, unfinished, hfit.2.2]
  | started hpc hr =>
    have habs : s.writer = .absent := by
      by_contra hcon
      simp [ht.running.mpr hcon] at hr
    refine .quiet rfl rfl ?_ ?_ rfl
    · simp [refs, owed, unfinished, habs, WriterPc.answering, WriterPc.dropping, WriterPc.job]
    · simp [owed, unfinished, habs, WriterPc.answering, WriterPc.job]
  | shutdownJoin hpc hw =>
    refine .quiet rfl rfl ?_ ?_ (by rw [hpc]; rfl)
    · simp [refs, owed, unfinished, hpc, hw, CallerPc.cells, WriterPc.answering,
        WriterPc.dropping, WriterPc.job]
    · simp [owed, unfinished, hw, WriterPc.answering, WriterPc.job]
  | appendLease pc data hpc =>
    refine .quiet rfl rfl ?_ rfl ?_
    · cases pc.next s.acceptingLog <;>
        simp [refs, owed, unfinished, hpc, LeaseNext.appendPc, CallerPc.cells]
    · cases pc.next s.acceptingLog <;> simp [hpc, LeaseNext.appendPc, CallerPc.unsent]
  | submitReserve copied job hpc =>
    refine .quiet rfl rfl ?_ rfl ?_
    · cases copied <;> simp [refs, owed, unfinished, hpc, CallerPc.cells]
    · cases copied <;> simp [hpc, CallerPc.unsent]
  | submitRejected job hpc =>
    refine .quiet rfl rfl ?_ rfl ?_
    · cases job.blockId <;> simp [refs, owed, unfinished, hpc, submitUndo, CallerPc.cells]
    · cases job.blockId <;> simp [hpc, submitUndo, CallerPc.unsent]
  | _ =>
    refine .quiet rfl rfl ?_ rfl ?_
    · simp [refs, owed, unfinished, CallerPc.cells, *]
    · simp [CallerPc.unsent, *]

theorem WriterStep.cell (h : WriterStep s s') : CellStep s s' := by
  cases h with
  | completeSync cancelling job status c hpc hc =>
    refine .answer c status rfl rfl ?_ ?_ rfl
    · simp [refs, owed, unfinished, hpc, hc, WriterPc.answering, WriterPc.dropping,
        WriterPc.job]
    · simp [owed, unfinished, hpc, hc, WriterPc.answering, WriterPc.job]
  | dropCompletion cancelling c hpc =>
    refine .drop c rfl rfl ?_ ?_ (.inr rfl)
    · cases cancelling
      all_goals
        simp only [refs, owed, unfinished, hpc, finished, WriterPc.answering, WriterPc.dropping,
          WriterPc.job]
        simp
    · cases cancelling <;>
        simp [owed, unfinished, hpc, finished, WriterPc.answering, WriterPc.job]
  | completeNone cancelling job status hpc hc =>
    cases cancelling
    all_goals
      refine .quiet rfl rfl ?_ ?_ rfl
      · simp [refs, owed, unfinished, hpc, hc, finished, WriterPc.answering,
          WriterPc.dropping, WriterPc.job]
      · simp [owed, unfinished, hpc, hc, finished, WriterPc.answering, WriterPc.job]
  | top hpc =>
    refine .quiet rfl rfl ?_ ?_ rfl
    · cases s.stopping <;> simp [refs, owed, unfinished, hpc, WriterPc.answering,
        WriterPc.dropping, WriterPc.job]
    · cases s.stopping <;> simp [owed, unfinished, hpc, WriterPc.answering, WriterPc.job]
  | rxBack segment offset caller hpc =>
    refine .quiet rfl rfl ?_ ?_ rfl
    · cases caller <;> simp [refs, owed, unfinished, hpc, WriterPc.answering,
        WriterPc.dropping, WriterPc.job, RxCaller.job, RxCaller.back]
    · cases caller <;> simp [owed, unfinished, hpc, WriterPc.answering, WriterPc.job,
        RxCaller.job, RxCaller.back]
  | appendWrote job count hpc hc =>
    refine .quiet rfl rfl ?_ ?_ rfl
    · simp [refs, owed, unfinished, hpc, WriterPc.answering, WriterPc.dropping, WriterPc.job,
        List.filterMap_cons]
    · simp [owed, unfinished, hpc, WriterPc.answering, WriterPc.job, List.filterMap_cons]
  | _ =>
    refine .quiet rfl rfl ?_ ?_ rfl
    · simp [refs, owed, unfinished, WriterPc.answering, WriterPc.dropping, WriterPc.job,
        RxCaller.job, *]
    · simp [owed, unfinished, WriterPc.answering, WriterPc.job, RxCaller.job, *]

end LogWriter

theorem cellsInv_reach {fs : FileSystem} {s : LogWriter}
    (h : Transition.Reach (logWriterMachine fs) s) : LogWriter.CellsInv s := by
  refine h.invariantUsing (q := fun s => JobsInv s ∧ ThreadInv s)
    (fun _ h => ⟨jobsInv_reach h, threadInv_reach h⟩) ?_ ?_
  · constructor
    · exact FixedPool.counted_init _
    · exact List.nodup_nil
    · intro c hc
      cases hc
    · intro c hc
      cases hc
  · intro s l s' ⟨hjobs, hthread⟩ hinv _ hstep
    cases l with
    | caller l =>
      exact ((LogWriter.callerStep_cases hstep).cell hjobs hthread).cells hinv
    | reader l =>
      cases LogWriter.readerStep_cases hstep <;>
        exact ⟨hinv.counted, hinv.nodup, hinv.fresh, hinv.unsent⟩
    | writer l => exact (LogWriter.writerStep_cases hstep).cell.cells hinv

end Xcom.File
