import Xcom.File.Stream

/-!
# Admission to the log file

`append` and the read thread hold a lease while they hand something to the log file.  A
close shuts the admission and waits for the leases before it queues its job, so nobody
holds one from there until a file is opened again, as long as no Open is served in
between.
-/

namespace Xcom.File

/-! ## Counting the leases -/

/-- The attempt adds to the counter. -/
def LeasePc.leases (pc : LeasePc) : Nat := if pc.counted then 1 else 0

def LeaseNext.leases : LeaseNext → Nat
  | goOn pc => pc.leases
  | granted => 1
  | refused => 0

/-- What the caller adds to `appenders_in_flight`. -/
def CallerPc.leases : CallerPc → Nat
  | .appendLease pc _ => pc.leases
  | .appendAlloc _ | .appendEnqueue _ | .appendUndo _ | .appendRelease => 1
  | _ => 0

/-- What the read thread adds to it. -/
def ReaderPc.leases : ReaderPc → Nat
  | .idle => 0
  | .lease pc => pc.leases
  | .leased => 1

theorem LeasePc.count_next (pc : LeasePc) (accepting : Bool) (other : Nat) :
    pc.count (other + pc.leases) = other + (pc.next accepting).leases := by
  cases pc <;> cases accepting <;> rfl

theorem LeaseNext.appendPc_leases (next : LeaseNext) (data : List UInt8) :
    (next.appendPc data).leases = next.leases := by
  cases next <;> rfl

theorem LeaseNext.readerPc_leases (next : LeaseNext) : next.readerPc.leases = next.leases := by
  cases next <;> rfl

namespace LogWriter

variable {s s' : LogWriter}

/-- The counter is the number of the leases and of the attempts. -/
def LeaseInv (s : LogWriter) : Prop :=
  s.appendersInFlight = s.reader.leases + s.caller.leases

theorem syncCaller_leases (shutdown : Bool) (status : XcomStatus) :
    (syncCaller shutdown status).leases = 0 := by
  unfold syncCaller
  split
  · split <;> rfl
  · rfl

theorem CallerStep.leases (h : CallerStep s s') (hinv : LeaseInv s) : LeaseInv s' := by
  unfold LeaseInv at hinv ⊢
  cases h with
  | appendLease pc data hpc =>
    rw [hpc] at hinv
    show pc.count s.appendersInFlight = _
    rw [hinv]
    exact (pc.count_next s.acceptingLog _).trans
      (congrArg _ (LeaseNext.appendPc_leases _ data).symm)
  | appendRelease hpc =>
    rw [hpc] at hinv
    show s.appendersInFlight - 1 = _
    rw [hinv]
    rfl
  | closeTimesOut _ hpc | syncFull _ _ hpc | syncUndo _ _ _ hpc | syncDone _ _ _ hpc
  | syncTimesOut _ _ _ hpc =>
    rw [hpc] at hinv
    exact hinv.trans (congrArg _ (syncCaller_leases _ _).symm)
  | submitReserve copied job hpc =>
    rw [hpc] at hinv
    cases copied <;> exact hinv
  | submitRejected job hpc =>
    rw [hpc] at hinv
    refine hinv.trans ?_
    cases job.blockId <;> rfl
  | refused | startFails | started | openParam | closeWaits => exact hinv
  | _ => simp_all [CallerPc.leases, LeasePc.leases, LeasePc.counted]

theorem ReaderStep.leases (h : ReaderStep s s') (hinv : LeaseInv s) : LeaseInv s' := by
  unfold LeaseInv at hinv ⊢
  cases h with
  | ingress hpc =>
    rw [hpc] at hinv
    exact hinv
  | lease pc hpc =>
    rw [hpc, Nat.add_comm] at hinv
    have hnext := (pc.count_next s.acceptingLog s.caller.leases).trans
      (congrArg _ (LeaseNext.readerPc_leases _).symm)
    show pc.count s.appendersInFlight = _
    rw [hinv]
    exact hnext.trans (Nat.add_comm _ _)
  | publish => exact hinv
  | release hpc =>
    rw [hpc] at hinv
    show s.appendersInFlight - 1 = 0 + s.caller.leases
    rw [hinv]
    exact (Nat.add_sub_cancel_left 1 _).trans (Nat.zero_add _).symm

end LogWriter

theorem leaseInv_reach {fs : FileSystem} {s : LogWriter}
    (h : Transition.Reach (logWriterMachine fs) s) : s.LeaseInv := by
  refine h.invariant (p := LogWriter.LeaseInv) ?_ ?_
  · rfl
  intro s l s' hinv _ hstep
  cases l with
  | caller l => exact (LogWriter.callerStep_cases hstep).leases hinv
  | reader l => exact (LogWriter.readerStep_cases hstep).leases hinv
  | writer l =>
    cases LogWriter.writerStep_cases hstep <;> exact hinv

/-! ## Leases and closes -/

/-- The caller holds a lease. -/
def CallerPc.holds : CallerPc → Bool
  | .appendAlloc _ | .appendEnqueue _ | .appendUndo _ | .appendRelease => true
  | _ => false

/-- A close has shut the admission and waits for the leases. -/
def CallerPc.drains : CallerPc → Bool
  | .closeWait _ => true
  | _ => false

/-- A close has waited for the leases and is about to queue its job. -/
def CallerPc.drained : CallerPc → Bool
  | .syncAcquire _ job | .syncEnqueue _ job _ => job.kind = .fileClose
  | _ => false

/-- The writer is at a Close and has not closed the file yet. -/
def WriterPc.closes : WriterPc → Bool
  | .process job => job.kind = .fileClose
  | .closeDrain _ | .closeReset _ | .rx _ _ (.close _) | .rxWrite _ _ (.close _) => true
  | _ => false

namespace LogWriter

/-- A lease is held. -/
def Holds (s : LogWriter) : Prop := s.reader = .leased ∨ s.caller.holds = true

/-- A Close is queued, or about to be. -/
def Closing (s : LogWriter) : Prop :=
  s.caller.drained = true ∨ ∃ job ∈ s.jobs, job.kind = .fileClose

/-- A Close is on its way, past the wait for the leases. -/
def CloseDue (s : LogWriter) : Prop := s.Closing ∨ s.writer.closes = true

instance (s : LogWriter) : Decidable s.Closing := inferInstanceAs (Decidable (_ ∨ _))

end LogWriter

/-- The writer is about to admit leases to the file it has opened. -/
def WriterPc.admitting : WriterPc → Bool
  | .openStore _ status => status = .ok
  | _ => false

/-- No stop is requested. -/
def KeepsRunning (s : LogWriter) (l : Label) : Prop :=
  l = .caller .run → s.caller ≠ .shutdownStop

instance (s : LogWriter) (l : Label) : Decidable (KeepsRunning s l) :=
  inferInstanceAs (Decidable (_ → _))

/-- No stop is requested, and the writer admits leases for an Open only while no close is
under way. -/
def OpensApart (s : LogWriter) (l : Label) : Prop :=
  KeepsRunning s l ∧
  (l = .writer .run → s.writer.admitting = true → s.caller.drains = false ∧ ¬ s.Closing)

instance (s : LogWriter) (l : Label) : Decidable (OpensApart s l) :=
  inferInstanceAs (Decidable (_ ∧ (_ → _ → _)))

/-- Leases are admitted and held only for an open file that no Close is under way for. -/
structure AdmissionInv (s : LogWriter) : Prop where
  accepting : s.acceptingLog = true →
    s.files.logFile ≠ none ∧ ¬ s.CloseDue ∧ s.caller.drains = false
  holds : s.Holds → s.files.logFile ≠ none ∧ ¬ s.CloseDue
  admitting : s.writer.admitting = true → s.files.logFile ≠ none
  closed : s.admissionClosed = true → s.acceptingLog = false ∧ ¬ s.Holds
  stopping : s.stopping = false

variable {s s' : LogWriter}

/-- A step that neither grants a lease, nor queues a Close, nor closes a file. -/
theorem AdmissionInv.quiet (hinv : AdmissionInv s)
    (haccepting : s'.acceptingLog = true → s.acceptingLog = true)
    (hholds : s'.Holds → s.Holds)
    (hlog : s.files.logFile ≠ none → s'.files.logFile ≠ none)
    (hdue : s'.CloseDue → s.CloseDue)
    (hdrains : s'.caller.drains = true → s.caller.drains = true ∨ s'.acceptingLog = false)
    (hadmitting : s'.writer.admitting = true → s'.files.logFile ≠ none)
    (hclosed : s'.admissionClosed = true → s.admissionClosed = true)
    (hstop : s'.stopping = false) : AdmissionInv s' where
  accepting ha := by
    obtain ⟨hopen, hnone, hd⟩ := hinv.accepting (haccepting ha)
    refine ⟨hlog hopen, fun h => hnone (hdue h), ?_⟩
    by_contra hcon
    rcases hdrains (by simpa using hcon) with hdrains | hno
    · rw [hd] at hdrains
      cases hdrains
    · rw [ha] at hno
      cases hno
  holds hh := by
    obtain ⟨hopen, hnone⟩ := hinv.holds (hholds hh)
    exact ⟨hlog hopen, fun h => hnone (hdue h)⟩
  admitting := hadmitting
  closed hc := by
    obtain ⟨hno, hnone⟩ := hinv.closed (hclosed hc)
    refine ⟨?_, fun h => hnone (hholds h)⟩
    by_contra hcon
    rw [haccepting (by simpa using hcon)] at hno
    cases hno
  stopping := hstop

/-- A caller that leaves the writer alone. -/
theorem AdmissionInv.keep (hinv : AdmissionInv s)
    (hsame : s'.files = s.files ∧ s'.writer = s.writer ∧ s'.reader = s.reader ∧
      s'.admissionClosed = s.admissionClosed ∧ s'.stopping = s.stopping)
    (haccepting : s'.acceptingLog = s.acceptingLog ∨ s'.acceptingLog = false)
    (hholds : s'.caller.holds = true → s.caller.holds = true)
    (hdue : s'.Closing → s.Closing)
    (hdrains : s'.caller.drains = true → s.caller.drains = true ∨ s'.acceptingLog = false) :
    AdmissionInv s' := by
  obtain ⟨hf, hw, hr, hc, hs⟩ := hsame
  refine hinv.quiet ?_ ?_ ?_ ?_ hdrains ?_ ?_ ?_
  · intro ha
    rcases haccepting with hsame | hno
    · rw [← hsame]
      exact ha
    · rw [hno] at ha
      cases ha
  · rintro (hh | hh)
    · exact .inl (hr ▸ hh)
    · exact .inr (hholds hh)
  · rw [hf]
    exact id
  · rintro (h | h)
    · exact .inl (hdue h)
    · exact .inr (hw ▸ h)
  · rw [hf, hw]
    exact hinv.admitting
  · rw [hc]
    exact id
  · rw [hs]
    exact hinv.stopping

/-- A step of the writer that admits nobody and keeps the file open. -/
theorem AdmissionInv.write (hinv : AdmissionInv s)
    (hsame : s'.caller = s.caller ∧ s'.reader = s.reader ∧
      s'.admissionClosed = s.admissionClosed ∧ s'.stopping = s.stopping)
    (haccepting : s'.acceptingLog = true → s.acceptingLog = true)
    (hlog : s.files.logFile ≠ none → s'.files.logFile ≠ none)
    (hdue : s'.CloseDue → s.CloseDue)
    (hadmitting : s'.writer.admitting = true → s'.files.logFile ≠ none) : AdmissionInv s' := by
  obtain ⟨hcaller, hreader, hc, hs⟩ := hsame
  refine hinv.quiet haccepting ?_ hlog hdue ?_ hadmitting ?_ ?_
  · unfold LogWriter.Holds
    rw [hcaller, hreader]
    exact id
  · rw [hcaller]
    exact .inl
  · rw [hc]
    exact id
  · rw [hs]
    exact hinv.stopping

/-- A granted lease finds the admission open. -/
theorem AdmissionInv.grant (hinv : AdmissionInv s) (ha : s.acceptingLog = true)
    (hsame : s'.files = s.files ∧ s'.writer = s.writer ∧ s'.acceptingLog = s.acceptingLog ∧
      s'.admissionClosed = s.admissionClosed ∧ s'.stopping = s.stopping)
    (hdue : s'.Closing → s.Closing) (hdrains : s'.caller.drains = true → s.caller.drains = true) :
    AdmissionInv s' := by
  obtain ⟨hf, hw, hacc, hc, hs⟩ := hsame
  obtain ⟨hopen, hnone, hd⟩ := hinv.accepting ha
  have hnone' : ¬ s'.CloseDue := by
    rintro (h | h)
    · exact hnone (.inl (hdue h))
    · exact hnone (.inr (hw ▸ h))
  constructor
  · intro _
    rw [hf]
    refine ⟨hopen, hnone', ?_⟩
    by_contra hcon
    rw [hdrains (by simpa using hcon)] at hd
    cases hd
  · intro _
    rw [hf]
    exact ⟨hopen, hnone'⟩
  · rw [hf, hw]
    exact hinv.admitting
  · intro hclosed
    rw [hc] at hclosed
    rw [(hinv.closed hclosed).1] at ha
    cases ha
  · rw [hs]
    exact hinv.stopping

theorem LeasePc.next_granted {pc : LeasePc} {accepting : Bool}
    (h : pc.next accepting = .granted) : accepting = true := by
  cases pc <;> cases accepting <;> simp_all [LeasePc.next]

namespace LogWriter

variable {s s' : LogWriter}

theorem syncCaller_idle (shutdown : Bool) (status : XcomStatus) :
    (syncCaller shutdown status).holds = false ∧ (syncCaller shutdown status).drains = false ∧
      (syncCaller shutdown status).drained = false := by
  unfold syncCaller
  split
  · split <;> exact ⟨rfl, rfl, rfl⟩
  · exact ⟨rfl, rfl, rfl⟩

/-- Closing, as far as the queue goes. -/
theorem Closing.of_queue (hj : s'.jobs = s.jobs) (hd : s'.caller.drained = true → s.Closing)
    (h : s'.Closing) : s.Closing := by
  rcases h with h | h
  · exact hd h
  · rw [hj] at h
    exact .inr h

/-- A job joins the queue.  A Close does so only once its close has waited for the
leases. -/
theorem Closing.of_enqueue {job : FileJob} (hj : s'.jobs = s.jobs ++ [job])
    (hk : job.kind = .fileClose → s.Closing) (hd : s'.caller.drained = false)
    (h : s'.Closing) : s.Closing := by
  rcases h with h | ⟨job', hmem, hkind⟩
  · rw [hd] at h
    cases h
  · rw [hj] at hmem
    rcases List.mem_append.mp hmem with hold | hnew
    · exact .inr ⟨job', hold, hkind⟩
    · rw [List.mem_singleton.mp hnew] at hkind
      exact hk hkind

theorem holds_counted (h : s.Holds) (hlease : s.LeaseInv) : 0 < s.appendersInFlight := by
  unfold LeaseInv at hlease
  rcases h with h | h
  · rw [hlease, h]
    exact Nat.add_pos_left Nat.one_pos _
  · have hpos : 0 < s.caller.leases := by
      unfold CallerPc.holds at h
      split at h
      all_goals first | (rename_i hpc; rw [hpc]; exact Nat.one_pos) | cases h
    omega

theorem CallerStep.admission (h : CallerStep s s') (hjobs : JobsInv s) (hthread : ThreadInv s)
    (hlease : s.LeaseInv) (hstop : s.caller ≠ .shutdownStop) (hinv : AdmissionInv s) :
    AdmissionInv s' := by
  have hfit := hjobs.caller
  cases h with
  | shutdownStop hpc => exact absurd hpc hstop
  | shutdownJoin hpc hw =>
    have hs := hthread.ending (by rw [hw]; rfl)
    rw [hinv.stopping] at hs
    cases hs
  | started hpc =>
    refine hinv.quiet id id id ?_ .inl (by simp [WriterPc.admitting]) id rfl
    rintro (h | h)
    · exact .inl h
    · cases h
  | startFails => exact hinv.keep ⟨rfl, rfl, rfl, rfl, hinv.stopping.symm⟩ (.inl rfl) id id .inl
  | appendLease pc data hpc =>
    cases hnext : pc.next s.acceptingLog with
    | granted =>
      refine hinv.grant (LeasePc.next_granted hnext) ⟨rfl, rfl, rfl, rfl, rfl⟩ ?_ ?_
      · exact Closing.of_queue rfl (by simp [LeaseNext.appendPc, CallerPc.drained])
      · simp [LeaseNext.appendPc, CallerPc.drains]
    | goOn pc' =>
      refine hinv.keep ⟨rfl, rfl, rfl, rfl, rfl⟩ (.inl rfl) ?_ ?_ ?_
      · simp [LeaseNext.appendPc, CallerPc.holds]
      · exact Closing.of_queue rfl (by simp [LeaseNext.appendPc, CallerPc.drained])
      · simp [LeaseNext.appendPc, CallerPc.drains]
    | refused =>
      refine hinv.keep ⟨rfl, rfl, rfl, rfl, rfl⟩ (.inl rfl) ?_ ?_ ?_
      · simp [LeaseNext.appendPc, CallerPc.holds]
      · exact Closing.of_queue rfl (by simp [LeaseNext.appendPc, CallerPc.drained])
      · simp [LeaseNext.appendPc, CallerPc.drains]
  | closeStore shutdown hpc =>
    refine hinv.keep ⟨rfl, rfl, rfl, rfl, rfl⟩ (.inr rfl) ?_ ?_ ?_
    · simp [CallerPc.holds]
    · exact Closing.of_queue rfl (by simp [CallerPc.drained])
    · exact fun _ => .inr rfl
  | shutdownReject hpc =>
    refine hinv.keep ⟨rfl, rfl, rfl, rfl, rfl⟩ (.inr rfl) ?_ ?_ ?_
    · simp [CallerPc.holds]
    · exact Closing.of_queue rfl (by simp [CallerPc.drained])
    · simp [CallerPc.drains]
  | closeDrained shutdown hpc h0 =>
    -- nobody holds a lease, and nobody gets one: the admission is shut
    have hnone : ¬ s.Holds := fun h => by
      have hpos := holds_counted h hlease
      omega
    have hnone' : ¬ LogWriter.Holds { s with
        admissionClosed := true, caller := .syncAcquire shutdown { kind := .fileClose } } := by
      rintro (h | h)
      · exact hnone (.inl h)
      · cases h
    have hshut : s.acceptingLog = false := by
      by_contra hcon
      have hdrains := (hinv.accepting (by simpa using hcon)).2.2
      rw [hpc] at hdrains
      cases hdrains
    constructor
    · intro ha
      rw [hshut] at ha
      cases ha
    · exact fun h => absurd h hnone'
    · exact hinv.admitting
    · exact fun _ => ⟨hshut, hnone'⟩
    · exact hinv.stopping
  | closeTimesOut _ hpc | syncFull _ _ hpc | syncUndo _ _ _ hpc | syncDone _ _ _ hpc
  | syncTimesOut _ _ _ hpc =>
    refine hinv.keep ⟨rfl, rfl, rfl, rfl, rfl⟩ (.inl rfl) ?_ ?_ ?_
    · simp [syncCaller_idle]
    · exact Closing.of_queue rfl (by simp [syncCaller_idle])
    · simp [syncCaller_idle]
  | appendEnqueue job hpc | submitEnqueue job hpc =>
    rw [hpc] at hfit
    refine hinv.keep ⟨rfl, rfl, rfl, rfl, rfl⟩ (.inl rfl) ?_ ?_ ?_
    · simp [hpc, CallerPc.holds]
    · refine Closing.of_enqueue rfl ?_ rfl
      intro hk
      simp [CallerPc.Fit, hk, Kind.isAsync] at hfit
    · simp [CallerPc.drains]
  | syncEnqueue shutdown job c hpc =>
    refine hinv.keep ⟨rfl, rfl, rfl, rfl, rfl⟩ (.inl rfl) ?_ ?_ ?_
    · simp [CallerPc.holds]
    · refine Closing.of_enqueue rfl ?_ rfl
      intro hk
      left
      rw [hpc]
      simpa [CallerPc.drained] using hk
    · simp [CallerPc.drains]
  | openProceeds job hpc =>
    rw [hpc] at hfit
    refine hinv.keep ⟨rfl, rfl, rfl, rfl, rfl⟩ (.inl rfl) ?_ ?_ ?_
    · simp [CallerPc.holds]
    · exact Closing.of_queue rfl (by simp [CallerPc.drained, hfit.1])
    · simp [CallerPc.drains]
  | syncAcquire shutdown job c pool hpc =>
    refine hinv.keep ⟨rfl, rfl, rfl, rfl, rfl⟩ (.inl rfl) ?_ ?_ ?_
    · simp [CallerPc.holds]
    · refine Closing.of_queue rfl ?_
      intro h
      left
      rw [hpc]
      exact h
    · simp [CallerPc.drains]
  | submitReserve copied job hpc =>
    cases copied
    all_goals
      refine hinv.keep ⟨rfl, rfl, rfl, rfl, rfl⟩ (.inl rfl) ?_ ?_ ?_
      · simp [CallerPc.holds]
      · exact Closing.of_queue rfl (by simp [CallerPc.drained])
      · simp [CallerPc.drains]
  | submitRejected job hpc =>
    cases job.blockId
    all_goals
      refine hinv.keep ⟨rfl, rfl, rfl, rfl, rfl⟩ (.inl rfl) ?_ ?_ ?_
      · simp [submitUndo, CallerPc.holds]
      · exact Closing.of_queue rfl (by simp [submitUndo, CallerPc.drained])
      · simp [submitUndo, CallerPc.drains]
  | refused | closeWaits | openParam =>
    exact hinv.keep ⟨rfl, rfl, rfl, rfl, rfl⟩ (.inl rfl) id id .inl
  | _ =>
    refine hinv.keep ⟨rfl, rfl, rfl, rfl, rfl⟩ (.inl rfl) ?_ ?_ ?_
    · simp [CallerPc.holds, *]
    · exact Closing.of_queue rfl (by simp [CallerPc.drained])
    · simp [CallerPc.drains]

theorem ReaderStep.admission (h : ReaderStep s s') (hinv : AdmissionInv s) :
    AdmissionInv s' := by
  cases h with
  | lease pc hpc =>
    cases hnext : pc.next s.acceptingLog with
    | granted =>
      exact hinv.grant (LeasePc.next_granted hnext) ⟨rfl, rfl, rfl, rfl, rfl⟩ id id
    | goOn pc' =>
      refine hinv.quiet id ?_ id id .inl hinv.admitting id hinv.stopping
      rintro (h | h)
      · cases h
      · exact .inr h
    | refused =>
      refine hinv.quiet id ?_ id id .inl hinv.admitting id hinv.stopping
      rintro (h | h)
      · cases h
      · exact .inr h
  | ingress | release =>
    refine hinv.quiet id ?_ id id .inl hinv.admitting id hinv.stopping
    rintro (h | h)
    · cases h
    · exact .inr h
  | publish => exact hinv.quiet id id id id .inl hinv.admitting id hinv.stopping

/-- The writer comes to a Close only from the queue. -/
theorem WriterStep.closes (h : WriterStep s s') (hpop : s.writer ≠ .popJob)
    (hc : s'.writer.closes = true) : s.writer.closes = true := by
  cases h with
  | popJob _ _ hpc => exact absurd hpc hpop
  | close job hpc hk => simp [hpc, hk, WriterPc.closes]
  | drain _ _ _ hpc | drained _ hpc =>
    rw [hpc]
    rfl
  | rxGoOn _ _ caller hpc | rxFailed _ _ caller hpc | rxWrote _ _ _ caller hpc
  | rxBack _ _ caller hpc =>
    rw [hpc]
    cases caller <;> first | rfl | cases hc
  | top => cases hs : s.stopping <;> simp [hs, WriterPc.closes] at hc
  | completeNone cancelling | dropCompletion cancelling => cases cancelling <;> cases hc
  | _ => simp [WriterPc.closes] at hc

theorem WriterStep.closeDue (h : WriterStep s s') (hdue : s'.CloseDue) : s.CloseDue := by
  have hcloses := h.closes
  cases h with
  | popJob job rest hpc hj =>
    left
    rcases hdue with (hd | ⟨job', hmem, hk⟩) | hk
    · exact .inl hd
    · exact .inr ⟨job', hj ▸ List.mem_cons_of_mem _ hmem, hk⟩
    · exact .inr ⟨job, hj ▸ List.mem_cons_self, by simpa [WriterPc.closes] using hk⟩
  | cancelJob job rest hpc hj =>
    left
    rcases hdue with (hd | ⟨job', hmem, hk⟩) | hk
    · exact .inl hd
    · exact .inr ⟨job', hj ▸ List.mem_cons_of_mem _ hmem, hk⟩
    · cases hk
  | noJob hpc => exact hdue.imp_right fun hk => by cases hk
  | _ => exact hdue.imp_right (hcloses (by simp [*]))

/-- Only a close and the end of the thread close the file. -/
theorem WriterStep.keepsLog (h : WriterStep s s') (hclose : ∀ job, s.writer ≠ .closeReset job)
    (hreset : s.writer ≠ .resetLog) (hf : s.files.logFile ≠ none) :
    s'.files.logFile ≠ none := by
  cases h with
  | closeReset job _ _ hpc => exact absurd hpc (hclose job)
  | resetLog hpc => exact absurd hpc hreset
  | openCreated => simp [FileState.openLog]
  | appendStart | popRaw | drain | cancelRx => simpa [FileState.noteBlock] using hf
  | appendWrote | rxWrote =>
    simp only [FileState.writeLog]
    split
    · exact hf
    · simp
  | work job o files status hpc hk hw =>
    rw [FileState.processAsync_logFile hk hw]
    exact hf
  | resetStream deleted hpc =>
    simp only [FileState.resetStream]
    split <;> exact hf
  | _ => exact hf

theorem WriterStep.admitting (h : WriterStep s s') (ha : s'.writer.admitting = true) :
    s'.files.logFile ≠ none := by
  cases h with
  | openCreated => simp [FileState.openLog]
  | top => cases hs : s.stopping <;> simp [hs, WriterPc.admitting] at ha
  | rxBack _ _ caller => cases caller <;> cases ha
  | completeNone cancelling | dropCompletion cancelling => cases cancelling <;> cases ha
  | _ => simp [WriterPc.admitting] at ha

theorem WriterStep.admission (h : WriterStep s s') (hthread : ThreadInv s)
    (hopen : s.writer.admitting = true → s.caller.drains = false ∧ ¬ s.Closing)
    (hinv : AdmissionInv s) : AdmissionInv s' := by
  have hdue := h.closeDue
  have hadmitting := h.admitting
  have hreset : s.writer ≠ .resetLog := by
    intro hpc
    have hs := hthread.ending (by rw [hpc]; rfl)
    rw [hinv.stopping] at hs
    cases hs
  have hkeeps := fun hclose => h.keepsLog hclose hreset
  cases h with
  | openStore job status hpc =>
    by_cases hok : status = .ok
    · -- the leases are admitted again, and no close is under way
      subst hok
      have hadm : s.writer.admitting = true := by rw [hpc]; rfl
      obtain ⟨hdrains, hclosing⟩ := hopen hadm
      refine ⟨?_, ?_, ?_, ?_, hinv.stopping⟩
      · intro _
        refine ⟨hinv.admitting hadm, ?_, hdrains⟩
        rintro (h | h)
        · exact hclosing h
        · cases h
      · intro hh
        exact ⟨hinv.admitting hadm, fun h => (hinv.holds hh).2 (hdue h)⟩
      · exact hadmitting
      · simp
    · refine hinv.write ⟨rfl, rfl, ?_, rfl⟩ ?_ (hkeeps (by simp [hpc])) hdue hadmitting
      · simp [hok]
      · simp [hok]
  | closeReset job log status hpc hf =>
    -- the Close is over: nobody was admitted, and nobody holds a lease
    have hcloses : s.CloseDue := .inr (by rw [hpc]; rfl)
    have hshut : s.acceptingLog = false := by
      by_contra hcon
      exact (hinv.accepting (by simpa using hcon)).2.1 hcloses
    have hnone : ¬ s.Holds := fun hh => (hinv.holds hh).2 hcloses
    refine ⟨?_, ?_, hadmitting, ?_, hinv.stopping⟩
    · intro ha
      rw [hshut] at ha
      cases ha
    · exact fun hh => absurd hh hnone
    · exact fun _ => ⟨hshut, hnone⟩
  | close job hpc =>
    exact hinv.write ⟨rfl, rfl, rfl, rfl⟩ (by simp) (hkeeps (by simp [hpc])) hdue hadmitting
  | closeNone job hpc hf =>
    exact hinv.write ⟨rfl, rfl, rfl, rfl⟩ id (fun hopen => absurd hf hopen) hdue hadmitting
  | resetLog hpc => exact absurd hpc hreset
  | _ =>
    refine hinv.write ⟨rfl, rfl, rfl, rfl⟩ id (hkeeps ?_) hdue hadmitting
    simp [*]

theorem shutdownStop_label {l : CallerLabel} (h : s.callerStep l = some s')
    (hpc : s.caller = .shutdownStop) : l = .run := by
  unfold callerStep at h
  rw [hpc] at h
  cases l with
  | run => rfl
  | _ => cases h

theorem admitting_label {l : WriterLabel} (h : s.writerStep l = some s')
    (hadm : s.writer.admitting = true) : l = .run := by
  unfold WriterPc.admitting at hadm
  split at hadm
  · rename_i hpc
    unfold writerStep at h
    rw [hpc] at h
    cases l with
    | run => rfl
    | _ => cases h
  · cases hadm

end LogWriter

theorem admissionInv_reach {fs : FileSystem} {s : LogWriter}
    (h : Transition.ReachUnder (logWriterMachine fs) OpensApart s) : AdmissionInv s := by
  refine h.invariantUsing (q := fun s => JobsInv s ∧ ThreadInv s ∧ s.LeaseInv)
    (fun _ h => ⟨jobsInv_reach h.reach, threadInv_reach h.reach, leaseInv_reach h.reach⟩) ?_ ?_
  · constructor
    · intro ha
      cases ha
    · rintro (h | h) <;> cases h
    · intro ha
      cases ha
    · intro ha
      cases ha
    · rfl
  · intro s l s' ⟨hjobs, hthread, hlease⟩ hinv hopen hstep
    cases l with
    | caller l =>
      refine (LogWriter.callerStep_cases hstep).admission hjobs hthread hlease ?_ hinv
      intro hpc
      exact hopen.1 (congrArg _ (LogWriter.shutdownStop_label hstep hpc)) hpc
    | reader l => exact (LogWriter.readerStep_cases hstep).admission hinv
    | writer l =>
      refine (LogWriter.writerStep_cases hstep).admission hthread ?_ hinv
      intro hadm
      exact hopen.2 (congrArg _ (LogWriter.admitting_label hstep hadm)) hadm

end Xcom.File
