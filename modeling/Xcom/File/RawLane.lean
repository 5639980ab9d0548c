import Xcom.File.Admission

/-!
# The raw file lane

What is on its way to the log file finds it open: a lease keeps every Close away, so a
segment or an append that joins the lane is ahead of the Close that ends the file.
-/

namespace Xcom.File

/-! ## Appends in the queue -/

/-- The data of the Append jobs. -/
def jobAppends (jobs : List FileJob) : List (List UInt8) :=
  (jobs.filter (·.kind = .fileAppend)).map (·.data)

theorem jobAppends_concat_other {jobs : List FileJob} {job : FileJob}
    (hk : job.kind ≠ .fileAppend) : jobAppends (jobs ++ [job]) = jobAppends jobs := by
  simp [jobAppends, hk]

theorem jobAppends_concat {jobs : List FileJob} {job : FileJob} (hk : job.kind = .fileAppend) :
    jobAppends (jobs ++ [job]) = jobAppends jobs ++ [job.data] := by
  simp [jobAppends, hk]

theorem jobAppends_nil {jobs : List FileJob} (h : ∀ job ∈ jobs, job.kind ≠ .fileAppend) :
    jobAppends jobs = [] := by
  rw [jobAppends, List.filter_eq_nil_iff.mpr (by simpa using h)]
  rfl

/-! ## The order of the queue -/

/-- The job the writer has taken and not started on. -/
def WriterPc.starting : WriterPc → Option FileJob
  | .process job => some job
  | _ => none

namespace LogWriter

/-- The jobs that are not started on. -/
def pendingJobs (s : LogWriter) : List FileJob := s.writer.starting.toList ++ s.jobs

/-- The appends on their way to the log file. -/
def pendingAppends (s : LogWriter) : List (List UInt8) := jobAppends s.pendingJobs

end LogWriter

/-- What is on its way has an open file, and no append is behind a Close. -/
structure OrderInv (s : LogWriter) : Prop where
  raw : s.rawReady ≠ [] → s.files.logFile ≠ none ∧ ∀ job, s.writer ≠ .closeReset job
  appends : s.pendingAppends ≠ [] → s.files.logFile ≠ none
  order : s.pendingJobs.Pairwise fun a b => a.kind = .fileClose → b.kind ≠ .fileAppend
  closing : s.writer.closes = true → s.pendingAppends = []

variable {s s' : LogWriter}

theorem OrderInv.keep (hinv : OrderInv s) (hraw : s'.rawReady = s.rawReady)
    (hfiles : s'.files = s.files) (hwriter : s'.writer = s.writer) (hjobs : s'.jobs = s.jobs) :
    OrderInv s' := by
  have hpending : s'.pendingJobs = s.pendingJobs := by
    rw [LogWriter.pendingJobs, hwriter, hjobs]
    rfl
  constructor
  · rw [hraw, hfiles, hwriter]
    exact hinv.raw
  · rw [LogWriter.pendingAppends, hpending, hfiles]
    exact hinv.appends
  · rw [hpending]
    exact hinv.order
  · rw [LogWriter.pendingAppends, hpending, hwriter]
    exact hinv.closing

theorem Pairwise.concat {α : Type} {r : α → α → Prop} {l : List α} {a : α}
    (hl : l.Pairwise r) (ha : ∀ b ∈ l, r b a) : (l ++ [a]).Pairwise r := by
  rw [List.pairwise_append]
  refine ⟨hl, List.pairwise_singleton _ _, ?_⟩
  intro b hb c hc
  rw [List.mem_singleton.mp hc]
  exact ha b hb

/-- A job that is no append joins the queue. -/
theorem OrderInv.enqueue {job : FileJob} (hinv : OrderInv s) (hraw : s'.rawReady = s.rawReady)
    (hfiles : s'.files = s.files) (hwriter : s'.writer = s.writer)
    (hjobs : s'.jobs = s.jobs ++ [job]) (hk : job.kind ≠ .fileAppend) : OrderInv s' := by
  have hpending : s'.pendingJobs = s.pendingJobs ++ [job] := by
    rw [LogWriter.pendingJobs, hwriter, hjobs, ← List.append_assoc]
    rfl
  have happends : s'.pendingAppends = s.pendingAppends := by
    rw [LogWriter.pendingAppends, hpending]
    exact jobAppends_concat_other hk
  constructor
  · rw [hraw, hfiles, hwriter]
    exact hinv.raw
  · rw [happends, hfiles]
    exact hinv.appends
  · rw [hpending]
    exact Pairwise.concat hinv.order fun _ _ _ => hk
  · rw [happends, hwriter]
    exact hinv.closing

namespace LogWriter

variable {s s' : LogWriter}

/-- A Close among the jobs not started on is due. -/
theorem closeDue_of_pending {job : FileJob} (hmem : job ∈ s.pendingJobs)
    (hk : job.kind = .fileClose) : s.CloseDue := by
  rcases List.mem_append.mp hmem with hstart | hqueue
  · right
    unfold WriterPc.starting at hstart
    split at hstart
    · rename_i hpc
      rw [Option.mem_toList.mp hstart |> Option.some.inj] at hpc
      rw [hpc]
      exact decide_eq_true hk
    · cases hstart
  · exact .inl (.inr ⟨job, hqueue, hk⟩)

theorem CallerStep.order (h : CallerStep s s') (hjobs : JobsInv s) (hthread : ThreadInv s)
    (hadm : AdmissionInv s) (hinv : OrderInv s) : OrderInv s' := by
  have hfit := hjobs.caller
  cases h with
  | appendEnqueue job hpc =>
    rw [hpc] at hfit
    -- the lease of the append keeps the file open and every Close away
    obtain ⟨hopen, hdue⟩ := hadm.holds (.inr (by rw [hpc]; rfl))
    constructor
    · exact hinv.raw
    · exact fun _ => hopen
    · show List.Pairwise _ (s.writer.starting.toList ++ (s.jobs ++ [job]))
      rw [← List.append_assoc]
      refine Pairwise.concat hinv.order ?_
      intro a ha hclose
      exact absurd (closeDue_of_pending ha hclose) hdue
    · intro hcloses
      exact absurd (.inr hcloses) hdue
  | submitEnqueue job hpc =>
    rw [hpc] at hfit
    refine hinv.enqueue rfl rfl rfl rfl ?_
    intro hk
    have hasync := hfit.1
    rw [hk] at hasync
    cases hasync
  | syncEnqueue shutdown job c hpc =>
    rw [hpc] at hfit
    exact hinv.enqueue rfl rfl rfl rfl hfit.2.1
  | started hpc hr =>
    have habs : s.writer = .absent := by
      by_contra hcon
      simp [hthread.running.mpr hcon] at hr
    have hpending : s.pendingJobs = s.jobs := by
      rw [pendingJobs, habs]
      rfl
    have happends := hinv.appends
    have horder := hinv.order
    rw [pendingAppends, hpending] at happends
    rw [hpending] at horder
    exact ⟨fun hne => ⟨(hinv.raw hne).1, by simp⟩, happends, horder, by simp [WriterPc.closes]⟩
  | shutdownJoin hpc hw =>
    have hs := hthread.ending (by rw [hw]; rfl)
    rw [hadm.stopping] at hs
    cases hs
  | _ => exact hinv.keep rfl rfl rfl rfl

theorem ReaderStep.order (h : ReaderStep s s') (hadm : AdmissionInv s) (hinv : OrderInv s) :
    OrderInv s' := by
  cases h with
  | publish segment hpc =>
    -- the lease of the read thread keeps the file open and every Close away
    obtain ⟨hopen, hdue⟩ := hadm.holds (.inl hpc)
    refine ⟨fun _ => ⟨hopen, ?_⟩, hinv.appends, hinv.order, hinv.closing⟩
    intro job hpc'
    exact hdue (.inr (by rw [hpc']; rfl))
  | _ => exact hinv.keep rfl rfl rfl rfl

/-- The writer takes the jobs in their order. -/
theorem WriterStep.pending (h : WriterStep s s') :
    s'.pendingJobs = s.pendingJobs ∨ ∃ job, s.pendingJobs = job :: s'.pendingJobs := by
  cases h with
  | popJob job rest hpc hj =>
    left
    simp [pendingJobs, hpc, hj, WriterPc.starting]
  | cancelJob job rest hpc hj =>
    right
    exact ⟨job, by simp [pendingJobs, hpc, hj, WriterPc.starting]⟩
  | openBusy job hpc | openCreated job hpc | openFailed job hpc | appendStart job _ hpc
  | appendNotOpen job hpc | flush job _ hpc | close job hpc | work job _ _ _ hpc =>
    right
    exact ⟨job, by simp [pendingJobs, hpc, WriterPc.starting]⟩
  | top hpc =>
    left
    cases hs : s.stopping <;> simp [pendingJobs, hpc, WriterPc.starting]
  | rxBack _ _ caller hpc =>
    left
    cases caller <;> simp [pendingJobs, hpc, RxCaller.back, WriterPc.starting]
  | completeNone cancelling _ _ hpc | dropCompletion cancelling _ hpc =>
    left
    cases cancelling <;> simp [pendingJobs, hpc, finished, WriterPc.starting]
  | _ =>
    left
    simp [pendingJobs, WriterPc.starting, *]

/-- The writer turns to the end of a Close once the lane is empty. -/
theorem WriterStep.raw (h : WriterStep s s') (hraw : s'.rawReady ≠ []) :
    s.rawReady ≠ [] ∧ ((∃ job, s'.writer = .closeReset job) → s.files.logFile = none) := by
  cases h with
  | popRaw _ _ _ hr | drain _ _ _ _ _ hr | cancelRx _ _ _ hr => simp [hr]
  | drained job hpc hr => exact ⟨hraw, fun _ => hr.resolve_right hraw⟩
  | top => cases hs : s.stopping <;> exact ⟨hraw, by simp⟩
  | rxBack _ _ caller => cases caller <;> exact ⟨hraw, by simp [RxCaller.back]⟩
  | completeNone cancelling | dropCompletion cancelling =>
    cases cancelling <;> exact ⟨hraw, by simp [finished]⟩
  | _ => exact ⟨hraw, by simp⟩

theorem jobAppends_cons_nil {job : FileJob} {jobs : List FileJob}
    (h : jobAppends (job :: jobs) = []) : jobAppends jobs = [] := by
  simp only [jobAppends, List.map_eq_nil_iff, List.filter_eq_nil_iff] at h ⊢
  exact fun job' hmem => h job' (List.mem_cons_of_mem _ hmem)

theorem WriterStep.order (h : WriterStep s s') (hthread : ThreadInv s)
    (hstop : s.stopping = false) (hinv : OrderInv s) : OrderInv s' := by
  have hkeeps : (∀ job, s.writer ≠ .closeReset job) → s.files.logFile ≠ none →
      s'.files.logFile ≠ none := by
    intro hclose
    apply h.keepsLog hclose
    intro hpc
    have hs := hthread.ending (by rw [hpc]; rfl)
    rw [hstop] at hs
    cases hs
  have happends : s.pendingAppends = [] → s'.pendingAppends = [] := by
    unfold pendingAppends
    rcases h.pending with heq | ⟨job, heq⟩
    · rw [heq]
      exact id
    · rw [heq]
      exact jobAppends_cons_nil
  constructor
  · intro hraw
    obtain ⟨hold, hreset⟩ := h.raw hraw
    obtain ⟨hopen, hclose⟩ := hinv.raw hold
    exact ⟨hkeeps hclose hopen, fun job hpc => hopen (hreset ⟨job, hpc⟩)⟩
  · intro hne
    have hold : s.pendingAppends ≠ [] := fun hnil => hne (happends hnil)
    refine hkeeps ?_ (hinv.appends hold)
    intro job hpc
    exact hold (hinv.closing (by rw [hpc]; rfl))
  · have horder := hinv.order
    rcases h.pending with heq | ⟨job, heq⟩
    · rw [heq]
      exact horder
    · rw [heq] at horder
      exact (List.pairwise_cons.mp horder).2
  · intro hcloses
    by_cases hpop : s.writer = .popJob
    · -- the Close has just left the queue, and the order of the queue is known
      have horder := hinv.order
      cases h with
      | popJob job rest hpc hj =>
        have hk : job.kind = .fileClose := by simpa [WriterPc.closes] using hcloses
        simp only [pendingJobs, hpc, hj, WriterPc.starting] at horder
        apply jobAppends_nil
        intro job' hmem
        rcases List.mem_cons.mp hmem with rfl | hmem
        · rw [hk]
          decide
        · exact (List.pairwise_cons.mp horder).1 job' hmem hk
      | noJob => cases hcloses
      | _ => simp_all
    · exact happends (hinv.closing (h.closes hpop hcloses))

end LogWriter

theorem orderInv_reach {fs : FileSystem} {s : LogWriter}
    (h : Transition.ReachUnder (logWriterMachine fs) OpensApart s) : OrderInv s := by
  refine h.invariantUsing (q := fun s => JobsInv s ∧ ThreadInv s ∧ AdmissionInv s)
    (fun _ h => ⟨jobsInv_reach h.reach, threadInv_reach h.reach, admissionInv_reach h⟩) ?_ ?_
  · constructor
    · intro hne
      exact absurd rfl hne
    · intro hne
      exact absurd rfl hne
    · exact List.Pairwise.nil
    · exact fun _ => rfl
  · intro s l s' ⟨hjobs, hthread, hadm⟩ hinv _ hstep
    cases l with
    | caller l => exact (LogWriter.callerStep_cases hstep).order hjobs hthread hadm hinv
    | reader l => exact (LogWriter.readerStep_cases hstep).order hadm hinv
    | writer l => exact (LogWriter.writerStep_cases hstep).order hthread hadm.stopping hinv

end Xcom.File
