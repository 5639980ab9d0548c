import Xcom.File.ManualSave
import Xcom.File.SaveContent

/-!
# What a save reports

A save opens the raw lane along with its file: what the read thread receives meanwhile
goes into the file between the blocks of the text.  While the lane stays empty, a save that
reports "saved" has left exactly the text in the file.
-/

namespace Xcom.File

variable {s s' : LogWriter}

/-! ## Inside a call -/

namespace LogWriter

/-- The caller is in `submit_sync` with a job of property `P`. -/
inductive Submitting (P : FileJob → Prop) (post : FileState → Prop) (s : LogWriter) : Prop
  | acquire (job : FileJob) (hpc : s.caller = .syncAcquire false job) (hj : P job)
  | enqueue (job : FileJob) (c : CompletionId) (hpc : s.caller = .syncEnqueue false job c)
      (hj : P job)
  | undo (job : FileJob) (c : CompletionId) (hpc : s.caller = .syncUndo false job c)
  | wait (job : FileJob) (c : CompletionId) (hpc : s.caller = .syncWait false job c)
      (hj : P job) (hw : Awaited post job c s)

variable {P : FileJob → Prop} {post : FileState → Prop} {call : Call}

/-- What the steps of a waiting caller do besides. -/
structure Frame (P : FileJob → Prop) (s s' : LogWriter) : Prop where
  files : s'.files = s.files
  writer : s'.writer = s.writer
  jobs : s'.jobs = s.jobs ∨ ∃ job, P job ∧ s'.jobs = s.jobs ++ [job]

/-- The last job a caller waits for is not done before it is answered. -/
theorem Awaited.answered_of_done {job : FileJob} {c : CompletionId}
    (h : Awaited post job c s) (hcells : CellsInv s) (hc : job.completion = some c)
    (hd : (s.cells c).done = true) (hok : (s.cells c).status = .ok) :
    s.jobs = [] ∧ s.writer.atRest = true ∧ post s.files := by
  have hfresh : c ∉ s.owed := by
    intro hmem
    rw [hcells.fresh c hmem] at hd
    cases hd
  cases h with
  | queued earlier hj =>
    refine absurd ?_ hfresh
    simp [owed, unfinished, hj, hc]
  | processed hj hw =>
    refine absurd ?_ hfresh
    simp [owed, unfinished, hw, WriterPc.job, hc]
  | answered status hj hw =>
    refine absurd ?_ hfresh
    unfold WriterPc.answer at hw
    split at hw <;> cases hw
    all_goals simp_all [owed, unfinished, WriterPc.job, WriterPc.answering]
  | done _ hp => exact hp hok

theorem CallerStep.submitting (h : CallerStep s s') (hjobs : JobsInv s) (hcells : CellsInv s)
    (hP : ∀ job c, P job → P { job with completion := some c }) (appendRc : XcomStatus)
    (hw : Submitting P post s) :
    Frame P s s' ∧ (Submitting P post s' ∨
      s'.caller = .idle ∧ (s.callStatus appendRc = .ok →
        s'.jobs = [] ∧ s'.writer.atRest = true ∧ post s'.files)) := by
  have hfit := hjobs.caller
  cases h with
  | syncFull shutdown job hpc =>
    cases hw with
    | acquire job' hpc' =>
      obtain ⟨rfl, rfl⟩ := CallerPc.syncAcquire.inj (hpc.symm.trans hpc')
      refine ⟨⟨rfl, rfl, .inl rfl⟩, .inr ⟨rfl, ?_⟩⟩
      simp [callStatus, hpc]
    | enqueue _ _ hpc' | undo _ _ hpc' | wait _ _ hpc' => simp [hpc] at hpc'
  | syncAcquire shutdown job c pool hpc =>
    cases hw with
    | acquire job' hpc' hj =>
      obtain ⟨rfl, rfl⟩ := CallerPc.syncAcquire.inj (hpc.symm.trans hpc')
      exact ⟨⟨rfl, rfl, .inl rfl⟩, .inl (.enqueue _ c rfl (hP job c hj))⟩
    | enqueue _ _ hpc' | undo _ _ hpc' | wait _ _ hpc' => simp [hpc] at hpc'
  | syncEnqueue shutdown job c hpc =>
    cases hw with
    | enqueue job' c' hpc' hj =>
      obtain ⟨rfl, rfl, rfl⟩ := CallerPc.syncEnqueue.inj (hpc.symm.trans hpc')
      exact ⟨⟨rfl, rfl, .inr ⟨job, hj, rfl⟩⟩, .inl (.wait job c rfl hj (.queued s.jobs rfl))⟩
    | acquire _ hpc' | undo _ _ hpc' | wait _ _ hpc' => simp [hpc] at hpc'
  | syncRejected shutdown job c hpc =>
    cases hw with
    | enqueue job' c' hpc' hj =>
      obtain ⟨rfl, rfl, rfl⟩ := CallerPc.syncEnqueue.inj (hpc.symm.trans hpc')
      exact ⟨⟨rfl, rfl, .inl rfl⟩, .inl (.undo job c rfl)⟩
    | acquire _ hpc' | undo _ _ hpc' | wait _ _ hpc' => simp [hpc] at hpc'
  | syncUndo shutdown job c hpc =>
    cases hw with
    | undo job' c' hpc' =>
      obtain ⟨rfl, rfl, rfl⟩ := CallerPc.syncUndo.inj (hpc.symm.trans hpc')
      refine ⟨⟨rfl, rfl, .inl rfl⟩, .inr ⟨rfl, ?_⟩⟩
      simp [callStatus, hpc]
    | acquire _ hpc' | enqueue _ _ hpc' | wait _ _ hpc' => simp [hpc] at hpc'
  | syncDone shutdown job c hpc hd =>
    cases hw with
    | wait job' c' hpc' hj ha =>
      obtain ⟨rfl, rfl, rfl⟩ := CallerPc.syncWait.inj (hpc.symm.trans hpc')
      rw [hpc] at hfit
      refine ⟨⟨rfl, rfl, .inl rfl⟩, .inr ⟨rfl, ?_⟩⟩
      intro hok
      have hok : (s.cells c).status = .ok := by simpa [callStatus, hpc, hd] using hok
      exact ha.answered_of_done hcells hfit hd hok
    | acquire _ hpc' | enqueue _ _ hpc' | undo _ _ hpc' => simp [hpc] at hpc'
  | syncTimesOut shutdown job c hpc hd =>
    cases hw with
    | wait job' c' hpc' hj ha =>
      obtain ⟨rfl, rfl, rfl⟩ := CallerPc.syncWait.inj (hpc.symm.trans hpc')
      refine ⟨⟨rfl, rfl, .inl rfl⟩, .inr ⟨rfl, ?_⟩⟩
      simp [callStatus, hpc, hd]
    | acquire _ hpc' | enqueue _ _ hpc' | undo _ _ hpc' => simp [hpc] at hpc'
  | _ =>
    exfalso
    cases hw <;> simp_all

theorem WriterStep.submitting (h : WriterStep s s') (hs : s.Serving) (hjobs : JobsInv s)
    (hcells : CellsInv s) (hlane : s.LaneEmpty call) (hlog : ∀ f, post f → f.Opened call)
    (hk : ∀ job, P job → job.kind = .fileOpen ∨ job.kind = .fileFlush)
    (hopen : ∀ job, P job → job.kind = .fileOpen → post (s.files.openLog job))
    (hflush : ∀ job, P job → job.kind = .fileFlush → post s.files)
    (hw : Submitting P post s) : Submitting P post s' := by
  have hcaller := h.flags.2.2
  have hfit := hjobs.caller
  cases hw with
  | acquire job hpc hj => exact .acquire job (hcaller.trans hpc) hj
  | enqueue job c hpc hj => exact .enqueue job c (hcaller.trans hpc) hj
  | undo job c hpc => exact .undo job c (hcaller.trans hpc)
  | wait job c hpc hj ha =>
    rw [hpc] at hfit
    exact .wait job c (hcaller.trans hpc) hj
      (h.awaited hs hcells hlane hlog (hk job hj) hfit (hopen job hj) (hflush job hj) ha)

theorem Submitting.same (h : Submitting P post s) (hpc : s'.caller = s.caller)
    (hj : s'.jobs = s.jobs) (hw : s'.writer = s.writer) (hf : s'.files = s.files)
    (hc : s'.cells = s.cells) : Submitting P post s' := by
  cases h with
  | acquire job hat hjob => exact .acquire job (hpc.trans hat) hjob
  | enqueue job c hat hjob => exact .enqueue job c (hpc.trans hat) hjob
  | undo job c hat => exact .undo job c (hpc.trans hat)
  | wait job c hat hjob ha => exact .wait job c (hpc.trans hat) hjob (ha.same hj hw hf hc)

theorem Filling.frame {path : Path} {goal : List UInt8} (h : Filling path call goal s)
    (hframe : Frame (·.kind = .fileFlush) s s') : Filling path call goal s' := by
  rcases hframe.jobs with hj | ⟨job, hk, hj⟩
  · exact h.same hframe.files hframe.writer hj
  · have hnew := h.enqueue hframe.files hframe.writer hj (.inr hk)
    simpa [jobAppends, hk] using hnew

end LogWriter

/-! ## The stages of a save -/

namespace Save

/-- The part of the text that was accepted. -/
def taken (save : Save) : List UInt8 := save.data.take save.accepted

/-- The job of the open call of a save. -/
structure Opens (save : Save) (job : FileJob) : Prop where
  kind : job.kind = .fileOpen
  append : job.append = false
  path : job.path = save.path
  call : job.call = save.call

/-- The file has been created and is empty. -/
def Created (save : Save) (f : FileState) : Prop :=
  (∃ log, f.logFile = some log ∧ log.path = save.path ∧ log.call = save.call) ∧
    f.fs save.path = some []

theorem Opens.created {save : Save} {job : FileJob} (h : save.Opens job) (f : FileState) :
    save.Created (f.openLog job) := by
  refine ⟨⟨_, rfl, h.path, h.call⟩, ?_⟩
  simp [FileState.openLog, h.append, h.path, FileSystem.put]

theorem Created.opened {save : Save} {f : FileState} (h : save.Created f) :
    f.Opened save.call := by
  obtain ⟨⟨log, hlog, -, hcall⟩, -⟩ := h
  exact ⟨log, hlog, hcall⟩

theorem Created.filling {save : Save} (h : save.Created s.files) (hj : s.jobs = [])
    (hw : s.writer.atRest = true) : s.Filling save.path save.call [] := by
  constructor
  · exact h.1
  · refine ⟨[], h.2, ?_⟩
    rw [LogWriter.toWrite_of_rest hj hw]
    rfl
  · intro job hmem
    rw [hj] at hmem
    cases hmem
  · unfold WriterPc.atRest at hw
    split at hw <;> simp_all [WriterPc.fills]

theorem block_length_le (save : Save) : save.block.length ≤ kFileBlockBytes := by
  simp only [block, List.length_take, logAppendBlockBytes, kFileBlockBytes]
  omega

/-- The accepted part grows by the block. -/
theorem taken_block (save : Save) :
    { save with accepted := save.accepted + save.block.length }.taken =
      save.taken ++ save.block := by
  have hlen : save.block.length =
      min (save.data.length - save.accepted) logAppendBlockBytes := by
    simp only [block, List.length_take, List.length_drop]
    omega
  simp only [taken, List.take_add, hlen]
  rfl

end Save

/-- Where the caller may be in `close`. -/
def CallerPc.closes : CallerPc → Bool
  | .closeStore false | .closeWait false => true
  | .syncAcquire false job | .syncEnqueue false job _ | .syncUndo false job _
  | .syncWait false job _ => job.kind = .fileClose
  | _ => false

namespace LogWriter

/-- The open call of a save. -/
inductive Opening (save : Save) (s : LogWriter) : Prop
  | begun (job : FileJob) (hpc : s.caller = .openLoadAccepting job) (hj : save.Opens job)
  | submitting (hs : Submitting save.Opens save.Created s)

/-- An append call of a save. -/
inductive Appending (save : Save) (appendRc : XcomStatus) (s : LogWriter) : Prop
  | lease (pc : LeasePc) (hpc : s.caller = .appendLease pc save.block)
      (hf : Filling save.path save.call save.taken s)
  | alloc (hpc : s.caller = .appendAlloc save.block)
      (hf : Filling save.path save.call save.taken s)
  | enqueue (job : FileJob) (hpc : s.caller = .appendEnqueue job) (hd : job.data = save.block)
      (hf : Filling save.path save.call save.taken s)
  | undo (block : BlockId) (hpc : s.caller = .appendUndo block)
      (hf : Filling save.path save.call save.taken s)
  | release (hpc : s.caller = .appendRelease)
      (hf : Filling save.path save.call
        (if appendRc = .ok then save.taken ++ save.block else save.taken) s)

variable {save : Save} {appendRc : XcomStatus}

theorem CallerStep.opening (h : CallerStep s s') (hjobs : JobsInv s) (hcells : CellsInv s)
    (appendRc : XcomStatus) (hs : Opening save s) :
    Opening save s' ∨ s'.caller = .idle ∧
      (s.callStatus appendRc = .ok → Filling save.path save.call [] s') := by
  cases hs with
  | begun job hpc hj =>
    cases h with
    | openBusy job' hpc' =>
      right
      refine ⟨rfl, ?_⟩
      simp [callStatus, hpc]
    | openProceeds job' hpc' =>
      obtain rfl := CallerPc.openLoadAccepting.inj (hpc.symm.trans hpc')
      exact .inl (.submitting (.acquire job rfl hj))
    | _ => simp_all
  | submitting hw =>
    have hP : ∀ job c, save.Opens job → save.Opens { job with completion := some c } :=
      fun job c hj => ⟨hj.kind, hj.append, hj.path, hj.call⟩
    obtain ⟨-, hstay | ⟨hidle, hret⟩⟩ := h.submitting hjobs hcells hP appendRc hw
    · exact .inl (.submitting hstay)
    · right
      refine ⟨hidle, ?_⟩
      intro hok
      obtain ⟨hnil, hrest, hcreated⟩ := hret hok
      exact hcreated.filling hnil hrest

theorem CallerStep.appending (h : CallerStep s s') (hjobs : JobsInv s)
    (hs : Appending save appendRc s) :
    Appending save (s.appendStatus appendRc) s' ∨ s'.caller = .idle ∧
      Filling save.path save.call
        (if s.callStatus appendRc = .ok then save.taken ++ save.block else save.taken) s' := by
  have hfit := hjobs.caller
  cases hs with
  | lease pc hpc hf =>
    cases h with
    | appendLease pc' data hpc' =>
      obtain ⟨rfl, rfl⟩ := CallerPc.appendLease.inj (hpc.symm.trans hpc')
      have hf' : Filling save.path save.call save.taken { s with
          appendersInFlight := pc.count s.appendersInFlight
          caller := (pc.next s.acceptingLog).appendPc save.block } := hf.same rfl rfl rfl
      cases hnext : pc.next s.acceptingLog with
      | goOn pc' =>
        rw [hnext] at hf'
        exact .inl (.lease pc' rfl hf')
      | granted =>
        rw [hnext] at hf'
        exact .inl (.alloc rfl hf')
      | refused =>
        rw [hnext] at hf'
        refine .inr ⟨rfl, ?_⟩
        simpa [callStatus, hpc] using hf'
    | _ => simp_all
  | alloc hpc hf =>
    cases h with
    | appendNoBlock data hpc' =>
      have hrc : s.appendStatus appendRc = .errFull := by simp [appendStatus, hpc]
      refine .inl (.release rfl ?_)
      rw [hrc, if_neg (by decide)]
      exact hf.same rfl rfl rfl
    | appendAlloc data block pool hpc' =>
      obtain rfl := CallerPc.appendAlloc.inj (hpc.symm.trans hpc')
      exact .inl (.enqueue _ rfl rfl (hf.same rfl rfl rfl))
    | _ => simp_all
  | enqueue job hpc hd hf =>
    rw [hpc] at hfit
    cases h with
    | appendEnqueue job' hpc' =>
      obtain rfl := CallerPc.appendEnqueue.inj (hpc.symm.trans hpc')
      refine .inl (.release rfl ?_)
      have hnew : Filling save.path save.call (save.taken ++ (jobAppends [job]).flatten)
          { s with
            jobs := s.jobs ++ [job], appends := s.appends ++ [job.data]
            caller := .appendRelease } := hf.enqueue rfl rfl rfl (.inl hfit.1)
      simpa [appendStatus, hpc, jobAppends, hfit.1, hd] using hnew
    | appendFull job' block hpc' => exact .inl (.undo block rfl (hf.same rfl rfl rfl))
    | _ => simp_all
  | undo block hpc hf =>
    cases h with
    | appendUndo block' hpc' =>
      have hrc : s.appendStatus appendRc = .errFull := by simp [appendStatus, hpc]
      refine .inl (.release rfl ?_)
      rw [hrc, if_neg (by decide)]
      exact hf.same rfl rfl rfl
    | _ => simp_all
  | release hpc hf =>
    cases h with
    | appendRelease hpc' =>
      have hrc : s.callStatus appendRc = appendRc := by simp [callStatus, hpc]
      refine .inr ⟨rfl, ?_⟩
      rw [hrc]
      exact hf.same rfl rfl rfl
    | _ => simp_all

theorem CallerStep.closing (path : Path) (call : Call) (goal : List UInt8)
    (h : CallerStep s s') (hs : s.caller.closes = true) :
    (s'.caller.closes = true ∨ s'.caller = .idle) ∧
      (Filled path call goal s → Filled path call goal s') := by
  have hkeep : ∀ t : LogWriter, t.files = s.files → t.writer = s.writer →
      (∀ job ∈ t.jobs, job ∈ s.jobs ∨ job.kind = .fileClose) →
      Filled path call goal s → Filled path call goal t := by
    intro t hfiles hw hj hf
    refine hf.keep (by rw [hfiles]) (.inl (by rw [hfiles])) hj ?_ ?_
    · rw [hw]
      exact hf.writer
    · rw [hw]
      exact .inl
  have hsame : ∀ job ∈ s.jobs, job ∈ s.jobs ∨ job.kind = .fileClose := fun _ hmem => .inl hmem
  cases h with
  | closeStore shutdown hpc | closeDrained shutdown hpc | closeWaits shutdown hpc
  | syncAcquire shutdown job c pool hpc | syncRejected shutdown job c hpc =>
    rw [hpc] at hs
    cases shutdown
    · exact ⟨.inl (by first | exact hs | rw [hpc]; exact hs), hkeep _ rfl rfl hsame⟩
    · cases hs
  | closeTimesOut shutdown hpc | syncFull shutdown job hpc | syncUndo shutdown job c hpc
  | syncDone shutdown job c hpc | syncTimesOut shutdown job c hpc =>
    rw [hpc] at hs
    cases shutdown
    · exact ⟨.inr rfl, hkeep _ rfl rfl hsame⟩
    · cases hs
  | syncEnqueue shutdown job c hpc =>
    rw [hpc] at hs
    cases shutdown
    · refine ⟨.inl hs, hkeep _ rfl rfl ?_⟩
      intro job' hmem
      rcases List.mem_append.mp hmem with hold | hnew
      · exact .inl hold
      · rw [List.mem_singleton.mp hnew]
        exact .inr (of_decide_eq_true hs)
    · cases hs
  | _ => simp_all [CallerPc.closes]

/-- What the stage of a save says about the writer and the file. -/
def StageInv (save : Save) (appendRc : XcomStatus) (s : LogWriter) : Prop :=
  match save.stage with
  | .opening => save.accepted = 0 ∧ save.appendErr = none ∧ Opening save s
  | .appending => save.appendErr = none ∧ Appending save appendRc s
  | .flushing =>
    (save.appendErr = none → save.taken = save.data) ∧
      Filling save.path save.call save.taken s ∧
      Submitting (·.kind = .fileFlush) (·.Opened save.call) s
  | .closing _ =>
    s.caller.closes = true ∧
      (save.appendErr = none → save.flushRc = .ok → Filled save.path save.call save.data s)

/-- What a call of a save leaves behind when it returns. -/
def ReturnInv (save : Save) (status : XcomStatus) (s : LogWriter) : Prop :=
  match save.stage with
  | .opening =>
    save.accepted = 0 ∧ save.appendErr = none ∧
      (status = .ok → Filling save.path save.call [] s)
  | .appending =>
    save.appendErr = none ∧ Filling save.path save.call
      (if status = .ok then save.taken ++ save.block else save.taken) s
  | .flushing =>
    (save.appendErr = none → save.taken = save.data) ∧
      (status = .ok → Filled save.path save.call save.taken s)
  | .closing _ =>
    save.appendErr = none → save.flushRc = .ok → Filled save.path save.call save.data s

theorem Appending.caller (h : Appending save appendRc s) :
    s.caller ≠ .idle ∧ s.caller ≠ .shutdownJoin := by
  cases h <;> simp_all

theorem Submitting.caller (h : Submitting P post s) :
    s.caller ≠ .idle ∧ s.caller ≠ .shutdownJoin := by
  cases h <;> simp_all

/-- While a save is under way the caller is inside one of its calls. -/
theorem StageInv.caller (h : StageInv save appendRc s) :
    s.caller ≠ .idle ∧ s.caller ≠ .shutdownJoin := by
  unfold StageInv at h
  split at h
  · cases h.2.2 with
    | begun job hpc => simp [hpc]
    | submitting hs => exact hs.caller
  · exact h.2.caller
  · exact h.2.2.caller
  · have hcloses := h.1
    constructor
    all_goals
      intro hpc
      rw [hpc] at hcloses
      cases hcloses

/-- A step of the caller goes on with the call or returns from it. -/
theorem CallerStep.stage (h : CallerStep s s') (hjobs : JobsInv s) (hcells : CellsInv s)
    (hs : StageInv save appendRc s) :
    StageInv save (s.appendStatus appendRc) s' ∨
      s'.caller = .idle ∧ ReturnInv save (s.callStatus appendRc) s' := by
  unfold StageInv at hs
  unfold StageInv ReturnInv
  cases hstage : save.stage with
  | opening =>
    simp only [hstage] at hs ⊢
    obtain ⟨hzero, herr, hopening⟩ := hs
    rcases h.opening hjobs hcells appendRc hopening with hstay | ⟨hidle, hret⟩
    · exact .inl ⟨hzero, herr, hstay⟩
    · exact .inr ⟨hidle, hzero, herr, hret⟩
  | appending =>
    simp only [hstage] at hs ⊢
    obtain ⟨herr, happending⟩ := hs
    rcases h.appending hjobs happending with hstay | ⟨hidle, hret⟩
    · exact .inl ⟨herr, hstay⟩
    · exact .inr ⟨hidle, herr, hret⟩
  | flushing =>
    simp only [hstage] at hs ⊢
    obtain ⟨hall, hfilling, hsub⟩ := hs
    obtain ⟨hframe, hnext⟩ := h.submitting hjobs hcells (fun _ _ hk => hk) appendRc hsub
    have hfilling' := hfilling.frame hframe
    rcases hnext with hstay | ⟨hidle, hret⟩
    · exact .inl ⟨hall, hfilling', hstay⟩
    · refine .inr ⟨hidle, hall, ?_⟩
      intro hok
      obtain ⟨hnil, hrest, -⟩ := hret hok
      exact hfilling'.filled hnil hrest
  | closing left =>
    simp only [hstage] at hs ⊢
    obtain ⟨hcloses, hfilled⟩ := hs
    obtain ⟨hnext, hkeeps⟩ := h.closing save.path save.call save.data hcloses
    rcases hnext with hstay | hidle
    · exact .inl ⟨hstay, fun herr hok => hkeeps (hfilled herr hok)⟩
    · exact .inr ⟨hidle, fun herr hok => hkeeps (hfilled herr hok)⟩

theorem WriterStep.stage (h : WriterStep s s') (hjobs : JobsInv s) (hthread : ThreadInv s)
    (hcells : CellsInv s) (hlane : s.LaneEmpty save.call) (hs : StageInv save appendRc s) :
    StageInv save appendRc s' := by
  have hserving := hthread.serving h.present.1 hs.caller.2
  have hcaller := h.flags.2.2
  unfold StageInv at hs ⊢
  cases hstage : save.stage with
  | opening =>
    simp only [hstage] at hs ⊢
    obtain ⟨hzero, herr, hopening⟩ := hs
    refine ⟨hzero, herr, ?_⟩
    cases hopening with
    | begun job hpc hj => exact .begun job (hcaller.trans hpc) hj
    | submitting hsub =>
      refine .submitting (h.submitting hserving hjobs hcells hlane ?_ ?_ ?_ ?_ hsub)
      · exact fun f hf => hf.opened
      · exact fun job hj => .inl hj.kind
      · exact fun job hj _ => hj.created _
      · intro job hj hk
        rw [hj.kind] at hk
        cases hk
  | appending =>
    simp only [hstage] at hs ⊢
    obtain ⟨herr, happending⟩ := hs
    refine ⟨herr, ?_⟩
    cases happending with
    | lease pc hpc hf =>
      exact .lease pc (hcaller.trans hpc) (h.filling hserving hjobs hlane hf)
    | alloc hpc hf => exact .alloc (hcaller.trans hpc) (h.filling hserving hjobs hlane hf)
    | enqueue job hpc hd hf =>
      exact .enqueue job (hcaller.trans hpc) hd (h.filling hserving hjobs hlane hf)
    | undo block hpc hf =>
      exact .undo block (hcaller.trans hpc) (h.filling hserving hjobs hlane hf)
    | release hpc hf => exact .release (hcaller.trans hpc) (h.filling hserving hjobs hlane hf)
  | flushing =>
    simp only [hstage] at hs ⊢
    obtain ⟨hall, hfilling, hsub⟩ := hs
    refine ⟨hall, h.filling hserving hjobs hlane hfilling, ?_⟩
    refine h.submitting hserving hjobs hcells hlane (fun f hf => hf) ?_ ?_ ?_ hsub
    · exact fun job hk => .inr hk
    · intro job hk hk'
      rw [hk] at hk'
      cases hk'
    · exact fun _ _ _ => hfilling.opened
  | closing left =>
    simp only [hstage] at hs ⊢
    obtain ⟨hcloses, hfilled⟩ := hs
    refine ⟨by rw [hcaller, hcloses], ?_⟩
    intro herr hok
    exact h.filled hserving hlane (hfilled herr hok)

/-- The read thread touches neither the queue nor the file. -/
theorem StageInv.same (h : StageInv save appendRc s) (hpc : s'.caller = s.caller)
    (hj : s'.jobs = s.jobs) (hw : s'.writer = s.writer) (hf : s'.files = s.files)
    (hc : s'.cells = s.cells) : StageInv save appendRc s' := by
  unfold StageInv at h ⊢
  split at h
  · obtain ⟨hzero, herr, hopening⟩ := h
    refine ⟨hzero, herr, ?_⟩
    cases hopening with
    | begun job hat hjob => exact .begun job (hpc.trans hat) hjob
    | submitting hs => exact .submitting (hs.same hpc hj hw hf hc)
  · obtain ⟨herr, happending⟩ := h
    refine ⟨herr, ?_⟩
    cases happending with
    | lease pc hat hfill => exact .lease pc (hpc.trans hat) (hfill.same hf hw hj)
    | alloc hat hfill => exact .alloc (hpc.trans hat) (hfill.same hf hw hj)
    | enqueue job hat hd hfill =>
      exact .enqueue job (hpc.trans hat) hd (hfill.same hf hw hj)
    | undo block hat hfill => exact .undo block (hpc.trans hat) (hfill.same hf hw hj)
    | release hat hfill => exact .release (hpc.trans hat) (hfill.same hf hw hj)
  · obtain ⟨hall, hfill, hs⟩ := h
    exact ⟨hall, hfill.same hf hw hj, hs.same hpc hj hw hf hc⟩
  · obtain ⟨hcloses, hfilled⟩ := h
    refine ⟨by rw [hpc, hcloses], ?_⟩
    intro herr hok
    refine (hfilled herr hok).keep (by rw [hf]) (.inl (by rw [hf])) ?_ ?_ ?_
    · intro job hmem
      exact .inl (hj ▸ hmem)
    · rw [hw]
      exact (hfilled herr hok).writer
    · rw [hw]
      exact .inl

end LogWriter

/-! ## The window -/

namespace SaveWindow

/-- Every save that ended with "saved" has left its text, and the one under way is where
its stage says. -/
structure SaveInv (s : SaveWindow) : Prop where
  exact : ∀ r ∈ s.reports, r.status = .saved → r.file = some r.data
  stage : ∀ save, s.save = some save → LogWriter.StageInv save s.appendRc s.core

/-- No segment waits in the raw lane while the file a save has opened is open. -/
def LaneApart (s : SaveWindow) (_ : SaveLabel) : Prop :=
  ∀ save ∈ s.save, ∀ log ∈ s.core.files.logFile, log.call = save.call → s.core.rawReady = []

instance (s : SaveWindow) (l : SaveLabel) : Decidable (LaneApart s l) :=
  inferInstanceAs (Decidable (∀ save ∈ s.save, ∀ log ∈ s.core.files.logFile, _))

variable {w : SaveWindow} {save : Save}

theorem report_inv {status : SaveStatus}
    (hexact : ∀ r ∈ w.reports, r.status = .saved → r.file = some r.data)
    (hfile : status = .saved → w.core.files.fs save.path = some save.data) :
    SaveInv (w.report save status) := by
  constructor
  · intro r hmem hsaved
    rcases List.mem_append.mp hmem with hold | hnew
    · exact hexact r hold hsaved
    · rw [List.mem_singleton.mp hnew] at hsaved ⊢
      exact hfile hsaved
  · intro save' hsave
    cases hsave

theorem logClose_inv {left : Nat} (hidle : w.core.caller = .idle)
    (hexact : ∀ r ∈ w.reports, r.status = .saved → r.file = some r.data)
    (hfilled : save.appendErr = none → save.flushRc = .ok →
      w.core.Filled save.path save.call save.data) :
    SaveInv (w.logClose save left) := by
  have hcall : w.core.call .closeCall = { w.core with caller := .closeStore false } := by
    unfold LogWriter.call LogWriter.callerStep
    rw [hidle]
    rfl
  constructor
  · exact hexact
  · intro save' hsave
    obtain rfl := Option.some.inj hsave
    simp only [LogWriter.StageInv, logClose, hcall]
    refine ⟨rfl, ?_⟩
    intro herr hok
    have hf := hfilled herr hok
    exact hf.keep rfl (.inl rfl) (fun _ hmem => .inl hmem) hf.writer .inl

theorem logFlush_inv (hidle : w.core.caller = .idle)
    (hexact : ∀ r ∈ w.reports, r.status = .saved → r.file = some r.data)
    (hall : save.appendErr = none → save.taken = save.data)
    (hfilling : w.core.Filling save.path save.call save.taken) :
    SaveInv (w.logFlush save) := by
  have hcall : w.core.call .flushCall =
      { w.core with caller := .syncAcquire false { kind := .fileFlush } } := by
    unfold LogWriter.call LogWriter.callerStep
    rw [hidle]
    rfl
  constructor
  · exact hexact
  · intro save' hsave
    obtain rfl := Option.some.inj hsave
    simp only [LogWriter.StageInv, logFlush, hcall]
    exact ⟨hall, hfilling.same rfl rfl rfl, .acquire _ rfl rfl⟩

theorem appendNext_inv (hidle : w.core.caller = .idle)
    (hexact : ∀ r ∈ w.reports, r.status = .saved → r.file = some r.data)
    (herr : save.appendErr = none)
    (hfilling : w.core.Filling save.path save.call save.taken) :
    SaveInv (w.appendNext save) := by
  unfold appendNext
  split
  · have hcopied : LogWriter.copiedData (some save.block) = some save.block := by
      simp [LogWriter.copiedData, save.block_length_le]
    have hcall : w.core.call (.appendCall (some save.block)) =
        { w.core with caller := .appendLease .load save.block } := by
      unfold LogWriter.call LogWriter.callerStep
      rw [hidle]
      simp only [hcopied]
      rfl
    constructor
    · exact hexact
    · intro save' hsave
      obtain rfl := Option.some.inj hsave
      simp only [LogWriter.StageInv, hcall]
      exact ⟨herr, .lease .load rfl (hfilling.same rfl rfl rfl)⟩
  · rename_i hend
    refine logFlush_inv hidle hexact (fun _ => ?_) hfilling
    exact List.take_of_length_le (by omega)

theorem afterCall_inv {rc : XcomStatus} (hidle : w.core.caller = .idle)
    (hexact : ∀ r ∈ w.reports, r.status = .saved → r.file = some r.data)
    (hret : w.core.ReturnInv save rc) : SaveInv (w.afterCall save rc) := by
  unfold LogWriter.ReturnInv at hret
  unfold afterCall
  cases hstage : save.stage with
  | opening =>
    simp only [hstage] at hret ⊢
    obtain ⟨hzero, herr, hopened⟩ := hret
    split
    · rename_i hok
      refine appendNext_inv hidle hexact herr ?_
      have hnone : save.taken = [] := by simp [Save.taken, hzero]
      rw [hnone]
      exact hopened hok
    · exact report_inv hexact (by simp)
  | appending =>
    simp only [hstage] at hret ⊢
    obtain ⟨herr, hfilling⟩ := hret
    split
    · rename_i hok
      rw [if_pos hok, ← save.taken_block] at hfilling
      exact appendNext_inv hidle hexact herr hfilling
    · rename_i hbad
      rw [if_neg hbad] at hfilling
      exact logFlush_inv hidle hexact (by simp) hfilling
  | flushing =>
    simp only [hstage] at hret ⊢
    obtain ⟨hall, hfilled⟩ := hret
    refine logClose_inv hidle hexact ?_
    intro herr hok
    have hf := hfilled hok
    rw [hall herr] at hf
    exact hf
  | closing left =>
    simp only [hstage] at hret ⊢
    have hsaved : ∀ closedOk, save.status closedOk = .saved →
        w.core.files.fs save.path = some save.data := by
      intro closedOk hstatus
      unfold Save.status at hstatus
      split at hstatus
      · rename_i hok
        exact (hret hok.1 hok.2.1).content
      · cases hstatus
    split
    · exact report_inv hexact (hsaved true)
    · cases left with
      | zero => exact report_inv hexact (hsaved false)
      | succ left => exact logClose_inv hidle hexact hret

theorem startCall_idle {s : LogWriter} (spawned : Bool) (hidle : s.caller = .idle) :
    (s.call (.startCall spawned)).caller = .idle := by
  unfold LogWriter.call LogWriter.callerStep
  rw [hidle]
  simp only
  split
  · exact hidle
  · split
    · rfl
    · rfl

/-- An open call that does not return at once is on its way with the path it was given. -/
theorem openCall_begun {s : LogWriter} {source : Option Path} {append : Bool}
    (hidle : s.caller = .idle) (hbusy : (s.call (.openCall source append)).caller ≠ .idle) :
    (s.call (.openCall source append)).caller = .openLoadAccepting
      { kind := .fileOpen, append := append, path := source.getD [], call := s.nextCall } := by
  unfold LogWriter.call LogWriter.callerStep at hbusy ⊢
  rw [hidle] at hbusy ⊢
  simp only at hbusy ⊢
  cases hpath : utf8ToWide source with
  | none =>
    rw [hpath] at hbusy
    exact absurd rfl hbusy
  | some path =>
    have hsource : source = some path := (Option.filter_eq_some_iff.mp hpath).1
    rw [hsource]
    rfl

theorem onBtnSave_inv {spawned : Bool} {source : Option Path} {data : List UInt8}
    (hinv : SaveInv w) (hidle : w.core.caller = .idle) :
    SaveInv (w.onBtnSave spawned source data) := by
  have hstarted := startCall_idle spawned hidle
  unfold onBtnSave
  split
  · exact hinv
  simp only
  split
  · split
    · exact report_inv hinv.exact (by simp)
    · rename_i hbusy
      constructor
      · exact hinv.exact
      · intro save hsave
        obtain rfl := Option.some.inj hsave
        exact ⟨rfl, rfl, .begun _ (openCall_begun hstarted hbusy) ⟨rfl, rfl, rfl, rfl⟩⟩
  · exact report_inv hinv.exact (by simp)

/-! ### The writer under the window -/

section Core

variable {fs : FileSystem}

theorem reach_call {s : LogWriter} (h : Transition.Reach (logWriterMachine fs) s)
    (l : CallerLabel) : Transition.Reach (logWriterMachine fs) (s.call l) := by
  unfold LogWriter.call
  cases hstep : s.callerStep l with
  | none => exact h
  | some s' => exact .step (e := .caller l) h trivial hstep

theorem reach_appendNext (h : Transition.Reach (logWriterMachine fs) w.core) :
    Transition.Reach (logWriterMachine fs) (w.appendNext save).core := by
  unfold appendNext
  split
  · exact reach_call h _
  · exact reach_call h _

theorem reach_afterCall {rc : XcomStatus} (h : Transition.Reach (logWriterMachine fs) w.core) :
    Transition.Reach (logWriterMachine fs) (w.afterCall save rc).core := by
  unfold afterCall
  split
  · split
    · exact reach_appendNext h
    · exact h
  · split
    · exact reach_appendNext h
    · exact reach_call h _
  · exact reach_call h _
  · split
    · exact h
    · split
      · exact h
      · exact reach_call h _

theorem reach_onBtnSave {spawned : Bool} {source : Option Path} {data : List UInt8}
    (h : Transition.Reach (logWriterMachine fs) w.core) :
    Transition.Reach (logWriterMachine fs) (w.onBtnSave spawned source data).core := by
  have hstarted := reach_call h (.startCall spawned)
  unfold onBtnSave
  split
  · exact h
  simp only
  split
  · split
    · exact reach_call hstarted _
    · exact reach_call hstarted _
  · exact hstarted

/-- What a step of the window is for the writer below it. -/
inductive WindowStep (w : SaveWindow) : SaveWindow → Prop
  | core (l : Label) (core : LogWriter) (hstep : w.core.step l = some core)
      (hfree : w.save = none ∨ ∀ l', l ≠ .caller l') : WindowStep w { w with core := core }
  | call (save : Save) (l : CallerLabel) (core : LogWriter) (hsave : w.save = some save)
      (hstep : w.core.callerStep l = some core) (hbusy : core.caller ≠ .idle) :
      WindowStep w { w with core := core, appendRc := w.core.appendStatus w.appendRc }
  | returned (save : Save) (l : CallerLabel) (core : LogWriter) (hsave : w.save = some save)
      (hstep : w.core.callerStep l = some core) (hidle : core.caller = .idle) :
      WindowStep w
        ({ w with core := core, appendRc := w.core.appendStatus w.appendRc }.afterCall save
          (w.core.callStatus w.appendRc))
  | save (spawned : Bool) (source : Option Path) (data : List UInt8) (hnone : w.save = none)
      (hidle : w.core.caller = .idle) : WindowStep w (w.onBtnSave spawned source data)

theorem step_cases {w' : SaveWindow} {l : SaveLabel} (h : w.step l = some w') :
    WindowStep w w' := by
  unfold step at h
  cases hsave : w.save with
  | none =>
    cases l with
    | core l =>
      simp only [hsave, Option.map_eq_some_iff] at h
      obtain ⟨core, hstep, rfl⟩ := h
      exact hsave ▸ .core l core hstep (.inl hsave)
    | onBtnSave spawned source data =>
      simp only [hsave] at h
      split at h
      · rename_i hidle
        cases h
        exact .save spawned source data hsave hidle
      · cases h
  | some save =>
    cases l with
    | core l =>
      simp only [hsave, stepSaving] at h
      cases l with
      | caller l =>
        simp only at h
        split at h
        · cases h
        · simp only [Option.map_eq_some_iff] at h
          obtain ⟨core, hstep, rfl⟩ := h
          split
          · exact hsave ▸ .returned save l core hsave hstep ‹_›
          · exact hsave ▸ .call save l core hsave hstep ‹_›
      | reader l | writer l =>
        simp only [Option.map_eq_some_iff] at h
        obtain ⟨core, hstep, rfl⟩ := h
        exact hsave ▸ .core _ core hstep (.inr (by simp))
    | onBtnSave => simp [hsave] at h

theorem reach_core {cond : SaveWindow → SaveLabel → Prop}
    (h : Transition.ReachUnder (saveMachine fs) cond w) :
    Transition.Reach (logWriterMachine fs) w.core := by
  refine h.invariant (p := fun w => Transition.Reach (logWriterMachine fs) w.core) .init ?_
  intro w l w' hw _ hstep
  cases step_cases hstep with
  | core l core hcore => exact .step hw trivial hcore
  | call save l core hsave hcore => exact .step (e := .caller l) hw trivial hcore
  | returned save l core hsave hcore =>
    exact reach_afterCall (.step (e := .caller l) hw trivial hcore)
  | save spawned source data => exact reach_onBtnSave hw

end Core

theorem LaneApart.laneEmpty {l : SaveLabel} (h : LaneApart w l) (hsave : w.save = some save) :
    w.core.LaneEmpty save.call := by
  rintro ⟨log, hlog, hcall⟩
  exact h save hsave log hlog hcall

theorem saveInv_step {w' : SaveWindow} {l : SaveLabel} (hjobs : JobsInv w.core)
    (hthread : ThreadInv w.core) (hcells : w.core.CellsInv) (hapart : LaneApart w l)
    (hinv : SaveInv w) (h : w.step l = some w') : SaveInv w' := by
  cases step_cases h with
  | core l core hstep hfree =>
    constructor
    · exact hinv.exact
    · intro save hsave
      have hstage := hinv.stage save hsave
      cases l with
      | caller l =>
        rcases hfree with hnone | hother
        · rw [hnone] at hsave
          cases hsave
        · exact absurd rfl (hother l)
      | reader l =>
        cases LogWriter.readerStep_cases hstep <;> exact hstage.same rfl rfl rfl rfl rfl
      | writer l =>
        exact (LogWriter.writerStep_cases hstep).stage hjobs hthread hcells
          (hapart.laneEmpty hsave) hstage
  | call save l core hsave hstep hbusy =>
    constructor
    · exact hinv.exact
    · intro save' hsave'
      obtain rfl := Option.some.inj (hsave.symm.trans hsave')
      rcases (LogWriter.callerStep_cases hstep).stage hjobs hcells (hinv.stage save hsave) with
        hstay | ⟨hidle, -⟩
      · exact hstay
      · exact absurd hidle hbusy
  | returned save l core hsave hstep hidle =>
    rcases (LogWriter.callerStep_cases hstep).stage hjobs hcells (hinv.stage save hsave) with
      hstay | ⟨-, hret⟩
    · exact absurd hidle hstay.caller.1
    · exact afterCall_inv hidle hinv.exact hret
  | save spawned source data hnone hidle => exact onBtnSave_inv hinv hidle

/-- In every run in which no segment waits in the raw lane while the file of a save is
open, a save that reports "saved" has left exactly its text in the file. -/
theorem save_exact {fs : FileSystem} {w : SaveWindow}
    (hw : Transition.ReachUnder (saveMachine fs) LaneApart w) :
    ∀ r ∈ w.reports, r.status = .saved → r.file = some r.data := by
  have hinv : SaveInv w := by
    refine hw.invariantUsing
      (q := fun w => JobsInv w.core ∧ ThreadInv w.core ∧ w.core.CellsInv) ?_ ?_ ?_
    · intro w hw
      have hcore := reach_core hw
      exact ⟨jobsInv_reach hcore, threadInv_reach hcore, cellsInv_reach hcore⟩
    · constructor
      · intro r hmem
        cases hmem
      · intro save hsave
        cases hsave
    · rintro w l w' ⟨hjobs, hthread, hcells⟩ hinv hapart hstep
      exact saveInv_step hjobs hthread hcells hapart hinv hstep
  exact hinv.exact

/-! ### A save of two bytes -/

/-- The button, the open call, and the append call. -/
def sampleAppended : List SaveLabel :=
  [SaveLabel.onBtnSave true (some (wide ['a'])) [0x41, 0x42], .core (.caller .run),
    .core (.caller (.acquire true)), .core (.caller .run), .core (.writer .run),
    .core (.writer .run), .core (.writer (.create true)), .core (.writer .run),
    .core (.writer .run), .core (.writer .run), .core (.writer .run), .core (.writer .run)] ++
    List.replicate 7 (SaveLabel.core (.caller .run))

/-- A byte arrives and is published into the raw lane. -/
def sampleReceived : List SaveLabel :=
  [.core (.reader .ingress), .core (.reader .run), .core (.reader .run), .core (.reader .run),
    .core (.reader (.publish [0x7A])), .core (.reader .release)]

/-- The block is written, the flush call returns, and the writer comes to the close. -/
def sampleFlushed : List SaveLabel :=
  [.core (.writer .run), .core (.writer .run), .core (.writer .run),
    .core (.writer (.write (.wrote 2))), .core (.writer .run), .core (.writer .run),
    .core (.writer .run), .core (.writer .run), .core (.caller (.acquire true)),
    .core (.caller .run), .core (.writer .run), .core (.writer .run),
    .core (.writer (.flush true)), .core (.writer .run), .core (.writer .run),
    .core (.writer .run), .core (.writer .run), .core (.caller .run), .core (.caller .run),
    .core (.caller .run), .core (.caller (.acquire true)), .core (.caller .run),
    .core (.writer .run), .core (.writer .run), .core (.writer .run)]

/-- The close drains the segment. -/
def sampleDrained : List SaveLabel :=
  [.core (.writer .run), .core (.writer .run), .core (.writer (.write (.wrote 1))),
    .core (.writer .run)]

/-- The close call returns. -/
def sampleClosed : List SaveLabel :=
  [.core (.writer .run), .core (.writer (.flush true)), .core (.writer .run),
    .core (.writer .run), .core (.writer .run), .core (.writer .run), .core (.caller .run)]

theorem save_exact_quiet :
    ∃ w : SaveWindow, (∀ r ∈ w.reports, r.status = .saved → r.file = some r.data) ∧
      w.reports = [⟨wide ['a'], [0x41, 0x42], .saved, some [0x41, 0x42]⟩] := by
  obtain ⟨w, hw, hreports⟩ := Transition.exists_of_execUnder
    (m := saveMachine fun _ => none) (c := LaneApart)
    (p := fun w => w.reports = [⟨wide ['a'], [0x41, 0x42], .saved, some [0x41, 0x42]⟩])
    (sampleAppended ++ sampleFlushed ++ sampleClosed) (by decide +kernel)
  exact ⟨w, save_exact hw, hreports⟩

/-- A byte received while the save runs is in the file that was reported saved. -/
theorem save_mixed : ¬ ∀ fs w, Transition.Reach (saveMachine fs) w →
    ∀ r ∈ w.reports, r.status = .saved → r.file = some r.data := by
  intro hall
  obtain ⟨w, hw, hreports⟩ := Transition.exists_of_execUnder
    (m := saveMachine fun _ => none) (c := fun _ _ => True)
    (p := fun w => w.reports = [⟨wide ['a'], [0x41, 0x42], .saved, some [0x41, 0x42, 0x7A]⟩])
    (sampleAppended ++ sampleReceived ++ sampleFlushed ++ sampleDrained ++ sampleClosed)
    (by decide +kernel)
  have hexact := hall _ w hw ⟨wide ['a'], [0x41, 0x42], .saved, some [0x41, 0x42, 0x7A]⟩
    (by rw [hreports]; exact List.mem_singleton_self _) rfl
  exact absurd hexact (by decide)

end SaveWindow

end Xcom.File
