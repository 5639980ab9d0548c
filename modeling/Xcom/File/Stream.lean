import Xcom.File.Jobs

/-!
# The atomic stream

The stream writes into a temporary file that nobody else can touch while it is open, and
only its commit moves that file onto the destination.
-/

namespace Xcom.File

/-- The kinds that act on the atomic stream. -/
def Kind.isStream : Kind → Bool
  | .streamBegin | .streamAppend | .streamCommit | .streamAbort => true
  | _ => false

theorem Kind.isAsync_cases {kind : Kind} (h : kind.isAsync = true) :
    kind.isStream = true ∨ kind = .atomicWrite := by
  cases kind <;> first | exact .inl rfl | exact .inr rfl | cases h

namespace FileState

/-- The stream is active, and its temporary file holds the bytes appended to it and is
not the log file. -/
structure Owns (f : FileState) (stream : AtomicStream) : Prop where
  active : stream.active = true
  temporary : stream.temporary = temporaryPath stream.destination stream.id
  written : f.fs stream.temporary = some stream.appended
  apart : ∀ log, f.logFile = some log → log.path ≠ stream.temporary

/-- The active stream, if there is one, owns its temporary file. -/
def Owned (f : FileState) : Prop :=
  ∀ stream, f.atomicStream = some stream → f.Owns stream

/-- The temporary file of the active stream. -/
def Temporary (f : FileState) (path : Path) : Prop :=
  ∃ stream, f.atomicStream = some stream ∧ path = stream.temporary

/-- What a stream request does. -/
inductive StreamStep (f : FileState) (job : FileJob) : FileState → XcomStatus → Prop
  | refused (status : XcomStatus)
      (hno : ∀ stream, f.atomicStream = some stream →
        stream.id = job.streamId → job.kind = .streamBegin)
      (hs : job.kind = .streamBegin → status ≠ .ok) : StreamStep f job f status
  | begun (hk : job.kind = .streamBegin) (hnone : f.atomicStream = none)
      (hh : f.held (temporaryPath job.path job.streamId) = false) :
      StreamStep f job
        { f with
          fs := f.fs.put (temporaryPath job.path job.streamId) []
          atomicStream := some
            { id := job.streamId, destination := job.path
              temporary := temporaryPath job.path job.streamId } } .ok
  | appended (stream : AtomicStream) (bytes : List UInt8) (hk : job.kind = .streamAppend)
      (hs : f.atomicStream = some stream) (hid : stream.id = job.streamId)
      (hb : job.offset = 0 → bytes = job.data) :
      StreamStep f job
        { f with
          fs := f.fs.extend stream.temporary bytes
          atomicStream := some { stream with appended := stream.appended ++ job.data } } .ok
  | torn (stream : AtomicStream) (bytes : List UInt8) (deleted : Bool) (status : XcomStatus)
      (hk : job.kind = .streamAppend) (hs : f.atomicStream = some stream)
      (hid : stream.id = job.streamId) (hst : status ≠ .ok) :
      StreamStep f job
        { f with
          fs := stream.abort deleted (f.fs.extend stream.temporary bytes)
          atomicStream := none } status
  | committed (stream : AtomicStream) (hk : job.kind = .streamCommit)
      (hs : f.atomicStream = some stream) (hid : stream.id = job.streamId)
      (hd : ∀ log, f.logFile = some log → log.path ≠ stream.destination) :
      StreamStep f job
        { f with
          fs := f.fs.move stream.temporary stream.destination, atomicStream := none } .ok
  | lost (stream : AtomicStream) (deleted : Bool) (hk : job.kind = .streamCommit)
      (hs : f.atomicStream = some stream) (hid : stream.id = job.streamId) :
      StreamStep f job { f with fs := stream.abort deleted f.fs, atomicStream := none } .errIo
  | aborted (stream : AtomicStream) (deleted : Bool) (hk : job.kind = .streamAbort)
      (hs : f.atomicStream = some stream) (hid : stream.id = job.streamId) :
      StreamStep f job { f with fs := stream.abort deleted f.fs, atomicStream := none } .ok

variable {f f' : FileState} {job : FileJob} {o : Outcomes} {status : XcomStatus}

theorem processStreamBegin_cases (hk : job.kind = .streamBegin)
    (h : f.processStreamBegin job o = some (f', status)) : StreamStep f job f' status := by
  unfold processStreamBegin at h
  split at h
  · cases h
    exact .refused _ (fun _ _ _ => hk) (by simp)
  rename_i hnone
  split at h
  · cases h
    exact .refused _ (fun _ _ _ => hk) (by simp)
  split at h
  · cases h
    exact .refused _ (fun _ _ _ => hk) (by simp)
  simp only at h
  split at h
  · cases h
  · rename_i hh
    cases h
    exact .begun hk (by simpa using hnone) (by simpa using hh)

theorem processStreamAppend_cases (hk : job.kind = .streamAppend)
    (h : f.processStreamAppend job o = some (f', status)) : StreamStep f job f' status := by
  have hnb : job.kind = .streamBegin → status ≠ .ok := by simp [hk]
  unfold processStreamAppend at h
  split at h
  · rename_i hnone
    cases h
    exact .refused _ (by simp [hnone]) hnb
  rename_i stream hs
  split at h
  · rename_i hid
    cases h
    refine .refused _ ?_ hnb
    intro stream' hs' hid'
    rw [hs] at hs'
    cases hs'
    exact absurd hid' hid
  rename_i hid
  have hid : stream.id = job.streamId := by simpa using hid
  split at h
  · cases h
  rename_i job' status' hw
  split at h
  · rename_i hst
    cases h
    simp only [resetStream, hs]
    exact .torn stream _ o.deleted _ hk hs hid hst
  · rename_i hst
    have hst : status' = .ok := by simpa using hst
    subst hst
    cases h
    exact .appended stream _ hk hs hid (writeAll_ok hw)

theorem processStreamCommit_cases (hk : job.kind = .streamCommit)
    (h : f.processStreamCommit job o = some (f', status)) : StreamStep f job f' status := by
  have hnb : job.kind = .streamBegin → status ≠ .ok := by simp [hk]
  unfold processStreamCommit at h
  split at h
  · rename_i hnone
    cases h
    exact .refused _ (by simp [hnone]) hnb
  rename_i stream hs
  split at h
  · rename_i hid
    cases h
    refine .refused _ ?_ hnb
    intro stream' hs' hid'
    rw [hs] at hs'
    cases hs'
    exact absurd hid' hid
  rename_i hid
  have hid : stream.id = job.streamId := by simpa using hid
  simp only at h
  split at h
  · cases h
  · rename_i hheld
    unfold AtomicStream.commit at h
    split at h
    · rename_i ho
      cases h
      -- the stream that was committed is no longer active, so nothing is deleted
      simp only [AtomicStream.abort, Bool.false_eq_true, false_and, if_false]
      refine .committed stream hk hs hid ?_
      intro log hlog hpath
      exact hheld ⟨ho.1, ho.2, by simp [held, hlog, hpath]⟩
    · cases h
      exact .lost stream o.deleted hk hs hid

theorem processStreamAbort_cases (hk : job.kind = .streamAbort)
    (h : f.processStreamAbort job o = some (f', status)) : StreamStep f job f' status := by
  have hnb : job.kind = .streamBegin → status ≠ .ok := by simp [hk]
  unfold processStreamAbort at h
  split at h
  · rename_i hnone
    cases h
    exact .refused _ (by simp [hnone]) hnb
  rename_i stream hs
  split at h
  · rename_i hid
    cases h
    refine .refused _ ?_ hnb
    intro stream' hs' hid'
    rw [hs] at hs'
    cases hs'
    exact absurd hid' hid
  · rename_i hid
    cases h
    simp only [resetStream, hs]
    exact .aborted stream o.deleted hk hs (by simpa using hid)

theorem processStream_cases (hk : job.kind.isStream = true)
    (h : f.processAsync job o = some (f', status)) : StreamStep f job f' status := by
  unfold processAsync at h
  cases hkind : job.kind <;> rw [hkind] at hk h
  case streamBegin => exact processStreamBegin_cases hkind h
  case streamAppend => exact processStreamAppend_cases hkind h
  case streamCommit => exact processStreamCommit_cases hkind h
  case streamAbort => exact processStreamAbort_cases hkind h
  all_goals cases hk

/-! ## The files of a stream request -/

theorem abort_other (stream : AtomicStream) (deleted : Bool) (fs : FileSystem) {path : Path}
    (hne : path ≠ stream.temporary) : stream.abort deleted fs path = fs path := by
  unfold AtomicStream.abort
  split
  · exact Function.update_of_ne hne _ _
  · rfl

theorem extend_other (fs : FileSystem) (bytes : List UInt8) {path file : Path}
    (hne : path ≠ file) : fs.extend file bytes path = fs path :=
  Function.update_of_ne hne _ _

theorem move_other (fs : FileSystem) {path source destination : Path} (hs : path ≠ source)
    (hd : path ≠ destination) : fs.move source destination path = fs path := by
  rw [FileSystem.move, FileSystem.delete, Function.update_of_ne hs, Function.update_of_ne hd]

theorem move_destination (fs : FileSystem) {source destination : Path}
    (hne : source ≠ destination) : fs.move source destination destination = fs source := by
  rw [FileSystem.move, FileSystem.delete, Function.update_of_ne hne.symm, Function.update_self]

/-- What the answer to a stream request says about the files: a request that does not
name the active stream changes nothing; a stream begins empty; its appends are kept
whole or it ends; it ends with its commit, which replaces the destination by just the
bytes appended or not at all, and with its abort; and no file changes but the temporary
one and, by a commit, the destination. -/
structure StreamAnswered (f : FileState) (job : FileJob) (f' : FileState)
    (status : XcomStatus) : Prop where
  foreign : (∀ stream, f.atomicStream = some stream → stream.id ≠ job.streamId) →
    job.kind ≠ .streamBegin → f' = f
  busy : job.kind = .streamBegin → f.atomicStream ≠ none → f' = f ∧ status ≠ .ok
  begun : job.kind = .streamBegin → f.atomicStream = none →
    f'.atomicStream = if status = .ok then some
      { id := job.streamId, destination := job.path
        temporary := temporaryPath job.path job.streamId } else none
  appended : ∀ stream, f.atomicStream = some stream → stream.id = job.streamId →
    job.kind = .streamAppend → f'.atomicStream = if status = .ok then
      some { stream with appended := stream.appended ++ job.data } else none
  committed : ∀ stream, f.atomicStream = some stream → stream.id = job.streamId →
    job.kind = .streamCommit → f'.atomicStream = none ∧
      f'.fs stream.destination =
        if status = .ok then some stream.appended else f.fs stream.destination
  aborted : ∀ stream, f.atomicStream = some stream → stream.id = job.streamId →
    job.kind = .streamAbort → f'.atomicStream = none
  replaced : ∀ path, f'.fs path ≠ f.fs path →
    f.Temporary path ∨ f'.Temporary path ∨
      job.kind = .streamCommit ∧ status = .ok ∧
        ∃ stream, f.atomicStream = some stream ∧ stream.id = job.streamId ∧
          path = stream.destination

namespace StreamStep

theorem foreign (h : StreamStep f job f' status)
    (hforeign : ∀ stream, f.atomicStream = some stream → stream.id ≠ job.streamId)
    (hk : job.kind ≠ .streamBegin) : f' = f := by
  cases h with
  | refused => rfl
  | begun hb => exact absurd hb hk
  | appended stream _ _ hs hid | torn stream _ _ _ _ hs hid | committed stream _ hs hid
  | lost stream _ _ hs hid | aborted stream _ _ hs hid =>
    exact absurd hid (hforeign stream hs)

theorem busy (h : StreamStep f job f' status) (hk : job.kind = .streamBegin)
    (hbusy : f.atomicStream ≠ none) : f' = f ∧ status ≠ .ok := by
  cases h with
  | refused _ _ hst => exact ⟨rfl, hst hk⟩
  | begun _ hnone => exact absurd hnone hbusy
  | appended _ _ hk' | torn _ _ _ _ hk' | committed _ hk' | lost _ _ hk' | aborted _ _ hk' =>
    rw [hk] at hk'
    cases hk'

theorem begin_stream (h : StreamStep f job f' status) (hk : job.kind = .streamBegin)
    (hnone : f.atomicStream = none) :
    f'.atomicStream = if status = .ok then some
      { id := job.streamId, destination := job.path
        temporary := temporaryPath job.path job.streamId } else none := by
  cases h with
  | refused _ _ hst => rw [if_neg (hst hk), hnone]
  | begun => rfl
  | appended _ _ hk' | torn _ _ _ _ hk' | committed _ hk' | lost _ _ hk' | aborted _ _ hk' =>
    rw [hk] at hk'
    cases hk'

variable {stream : AtomicStream}

theorem append_stream (h : StreamStep f job f' status) (hs : f.atomicStream = some stream)
    (hid : stream.id = job.streamId) (hk : job.kind = .streamAppend) :
    f'.atomicStream = if status = .ok then
      some { stream with appended := stream.appended ++ job.data } else none := by
  cases h with
  | refused _ hno =>
    rw [hno stream hs hid] at hk
    cases hk
  | appended _ _ _ hs' =>
    rw [hs] at hs'
    cases hs'
    rfl
  | torn _ _ _ _ _ _ _ hst => rw [if_neg hst]
  | begun hk' | committed _ hk' | lost _ _ hk' | aborted _ _ hk' =>
    rw [hk] at hk'
    cases hk'

theorem ends_stream (h : StreamStep f job f' status) (hs : f.atomicStream = some stream)
    (hid : stream.id = job.streamId)
    (hk : job.kind = .streamCommit ∨ job.kind = .streamAbort) : f'.atomicStream = none := by
  cases h with
  | refused _ hno =>
    rw [hno stream hs hid] at hk
    rcases hk with hk | hk <;> cases hk
  | begun hk' | appended _ _ hk' =>
    rw [hk'] at hk
    rcases hk with hk | hk <;> cases hk
  | torn | committed | lost | aborted => rfl

/-- A commit replaces the destination by just the bytes appended, or not at all. -/
theorem commit_destination (h : StreamStep f job f' status) (howned : f.Owned)
    (hs : f.atomicStream = some stream) (hid : stream.id = job.streamId)
    (hk : job.kind = .streamCommit) :
    f'.fs stream.destination =
      if status = .ok then some stream.appended else f.fs stream.destination := by
  have howns := howned stream hs
  have hne : stream.temporary ≠ stream.destination := by
    rw [howns.temporary]
    exact temporaryPath_ne _ _
  cases h with
  | refused _ hno =>
    rw [hno stream hs hid] at hk
    cases hk
  | committed _ _ hs' =>
    rw [hs] at hs'
    cases hs'
    rw [if_pos rfl]
    exact (move_destination _ hne).trans howns.written
  | lost _ deleted _ hs' =>
    rw [hs] at hs'
    cases hs'
    exact abort_other stream deleted f.fs hne.symm
  | begun hk' | appended _ _ hk' | torn _ _ _ _ hk' | aborted _ _ hk' =>
    rw [hk] at hk'
    cases hk'

/-- No file changes but the temporary one and the destination of a commit. -/
theorem replaced (h : StreamStep f job f' status) {path : Path}
    (hchanged : f'.fs path ≠ f.fs path) :
    f.Temporary path ∨ f'.Temporary path ∨
      job.kind = .streamCommit ∧ status = .ok ∧
        ∃ stream, f.atomicStream = some stream ∧ stream.id = job.streamId ∧
          path = stream.destination := by
  cases h with
  | refused => exact absurd rfl hchanged
  | begun =>
    right; left
    refine ⟨_, rfl, ?_⟩
    by_contra hp
    exact hchanged (Function.update_of_ne hp _ _)
  | appended stream _ _ hs =>
    left
    refine ⟨stream, hs, ?_⟩
    by_contra hp
    exact hchanged (extend_other _ _ hp)
  | torn stream _ deleted _ _ hs =>
    left
    refine ⟨stream, hs, ?_⟩
    by_contra hp
    exact hchanged ((abort_other stream deleted _ hp).trans (extend_other _ _ hp))
  | committed stream hk hs hid =>
    by_cases hp : path = stream.temporary
    · exact .inl ⟨stream, hs, hp⟩
    by_cases hd : path = stream.destination
    · exact .inr (.inr ⟨hk, rfl, stream, hs, hid, hd⟩)
    · exact absurd (move_other _ hp hd) hchanged
  | lost stream deleted _ hs | aborted stream deleted _ hs =>
    left
    refine ⟨stream, hs, ?_⟩
    by_contra hp
    exact hchanged (abort_other stream deleted f.fs hp)

theorem answered (h : StreamStep f job f' status) (howned : f.Owned) :
    StreamAnswered f job f' status where
  foreign := h.foreign
  busy := h.busy
  begun := h.begin_stream
  appended _ hs hid hk := h.append_stream hs hid hk
  committed _ hs hid hk :=
    ⟨h.ends_stream hs hid (.inl hk), h.commit_destination howned hs hid hk⟩
  aborted _ hs hid hk := h.ends_stream hs hid (.inr hk)
  replaced _ hchanged := h.replaced hchanged

end StreamStep

/-! ## Who owns the temporary file -/

theorem not_held {path : Path} (h : f.held path = false) :
    (∀ log, f.logFile = some log → log.path ≠ path) ∧
      ∀ stream, f.atomicStream = some stream → stream.temporary ≠ path := by
  simpa [held, Option.any_eq_false] using h

theorem StreamStep.owned (h : StreamStep f job f' status) (howned : f.Owned)
    (hfresh : job.offset = 0) : f'.Owned := by
  cases h with
  | refused => exact howned
  | begun hk hnone hh =>
    rintro stream ⟨⟩
    constructor
    · rfl
    · rfl
    · exact Function.update_self _ _ _
    · exact (not_held hh).1
  | appended stream bytes hk hs hid hb =>
    have howns := howned stream hs
    rintro stream' ⟨⟩
    refine ⟨howns.active, howns.temporary, ?_, howns.apart⟩
    rw [hb hfresh]
    show FileSystem.extend _ _ _ _ = _
    rw [FileSystem.extend, FileSystem.put, Function.update_self, howns.written]
    rfl
  | torn | committed | lost | aborted =>
    intro stream' hs'
    cases hs'

/-! ## The other jobs -/

/-- A change of the files that leaves alone every file of the stream. -/
structure Spares (f f' : FileState) : Prop where
  stream : f'.atomicStream = f.atomicStream
  content : ∀ stream, f.atomicStream = some stream →
    f'.fs stream.temporary = f.fs stream.temporary
  log : ∀ stream log, f.atomicStream = some stream → f'.logFile = some log →
    (∃ old, f.logFile = some old ∧ log.path = old.path) ∨ log.path ≠ stream.temporary

theorem Spares.owned (h : f.Spares f') (howned : f.Owned) : f'.Owned := by
  intro stream hs
  rw [h.stream] at hs
  have howns := howned stream hs
  refine ⟨howns.active, howns.temporary, ?_, ?_⟩
  · rw [h.content stream hs]
    exact howns.written
  · intro log hlog
    rcases h.log stream log hs hlog with ⟨old, hold, hpath⟩ | hne
    · rw [hpath]
      exact howns.apart old hold
    · exact hne

theorem Spares.refl (f : FileState) : f.Spares f :=
  ⟨rfl, fun _ _ => rfl, fun _ log _ hlog => .inl ⟨log, hlog, rfl⟩⟩

theorem spares_dropLog (f : FileState) : f.Spares { f with logFile := none } :=
  ⟨rfl, fun _ _ => rfl, fun _ _ _ hlog => by cases hlog⟩

theorem spares_noteBlock (f : FileState) (block : Block) : f.Spares (f.noteBlock block) := by
  refine ⟨rfl, fun _ _ => rfl, ?_⟩
  intro stream log _ hlog
  obtain ⟨old, hold, rfl⟩ := Option.map_eq_some_iff.mp hlog
  exact .inl ⟨old, hold, rfl⟩

theorem spares_openLog (hh : f.held job.path = false) : f.Spares (f.openLog job) := by
  obtain ⟨-, hstream⟩ := not_held hh
  constructor
  · rfl
  · intro stream hs
    exact Function.update_of_ne (hstream stream hs) _ _
  · intro stream log hs hlog
    cases hlog
    exact .inr (hstream stream hs).symm

theorem spares_writeLog (howned : f.Owned) (bytes : List UInt8) :
    f.Spares (f.writeLog bytes) := by
  unfold writeLog
  cases hf : f.logFile with
  | none => exact .refl f
  | some log =>
    constructor
    · rfl
    · intro stream hs
      exact extend_other _ _ ((howned stream hs).apart log hf).symm
    · rintro stream _ _ ⟨⟩
      exact .inl ⟨log, hf, rfl⟩

/-- An atomic write touches no path with an open handle. -/
theorem processAtomic_held (h : f.processAtomic job o = some (f', status)) {path : Path}
    (hheld : f.held path = true) : f'.fs path = f.fs path := by
  have hne {other : Path} (hh : f.held other = false) : path ≠ other := by
    rintro rfl
    rw [hheld] at hh
    cases hh
  unfold processAtomic at h
  simp only at h
  split at h
  · cases h
    rfl
  split at h
  · cases h
    rfl
  split at h
  · cases h
  rename_i htemp
  have htemp := hne (by simpa using htemp)
  split at h
  · cases h
  split at h
  · split at h
    · cases h
    · rename_i hdest
      cases h
      exact (move_other _ htemp (hne (by simpa using hdest))).trans
        (Function.update_of_ne htemp _ _)
  · cases h
    show (if _ then _ else _ : FileSystem) path = _
    split
    · exact (Function.update_of_ne htemp _ _).trans (Function.update_of_ne htemp _ _)
    · exact Function.update_of_ne htemp _ _

theorem processAtomic_handles (h : f.processAtomic job o = some (f', status)) :
    f'.logFile = f.logFile ∧ f'.atomicStream = f.atomicStream := by
  unfold processAtomic at h
  simp only at h
  repeat' split at h
  all_goals cases h <;> exact ⟨rfl, rfl⟩

theorem spares_processAtomic (h : f.processAtomic job o = some (f', status)) :
    f.Spares f' := by
  obtain ⟨hlog, hstream⟩ := processAtomic_handles h
  refine ⟨hstream, ?_, ?_⟩
  · intro stream hs
    exact processAtomic_held h (by simp [held, hs])
  · intro stream log _ hl
    exact .inl ⟨log, hlog ▸ hl, rfl⟩

theorem StreamStep.logFile (h : StreamStep f job f' status) : f'.logFile = f.logFile := by
  cases h <;> rfl

theorem StreamStep.log_content (h : StreamStep f job f' status) (howned : f.Owned)
    {log : LogFile} (hlog : f.logFile = some log) : f'.fs log.path = f.fs log.path := by
  cases h with
  | refused => rfl
  | begun hk hnone hh => exact Function.update_of_ne ((not_held hh).1 log hlog) _ _
  | appended stream _ _ hs => exact extend_other _ _ ((howned stream hs).apart log hlog)
  | torn stream _ deleted _ _ hs =>
    have hne := (howned stream hs).apart log hlog
    exact (abort_other stream deleted _ hne).trans (extend_other _ _ hne)
  | committed stream _ hs _ hd =>
    exact move_other _ ((howned stream hs).apart log hlog) (hd log hlog)
  | lost stream deleted _ hs | aborted stream deleted _ hs =>
    exact abort_other stream deleted f.fs ((howned stream hs).apart log hlog)

/-- The asynchronous requests leave the log file open, or closed. -/
theorem processAsync_logFile (hk : job.kind.isAsync = true)
    (h : f.processAsync job o = some (f', status)) : f'.logFile = f.logFile := by
  rcases Kind.isAsync_cases hk with hstream | hatomic
  · exact (processStream_cases hstream h).logFile
  · simp only [processAsync, hatomic] at h
    exact (processAtomic_handles h).1

/-- They write nothing into it either. -/
theorem processAsync_log_content (hk : job.kind.isAsync = true) (howned : f.Owned)
    (h : f.processAsync job o = some (f', status)) {log : LogFile}
    (hlog : f.logFile = some log) : f'.fs log.path = f.fs log.path := by
  rcases Kind.isAsync_cases hk with hstream | hatomic
  · exact (processStream_cases hstream h).log_content howned hlog
  · simp only [processAsync, hatomic] at h
    exact processAtomic_held h (by simp [held, hlog])

end FileState

/-! ## The stream in the writer thread -/

/-- The writer thread serves a stream request, or closes the stream at its end. -/
def WriterPc.atStream : WriterPc → Bool
  | .process job => job.kind.isStream
  | .resetStream => true
  | _ => false

/-- The writer thread has closed the stream, or has not started. -/
def WriterPc.streamless : WriterPc → Bool
  | .exited | .absent => true
  | _ => false

/-- What a step of the writer thread does to the files. -/
inductive LogWriter.FileStep (s s' : LogWriter) : Prop
  | spared (hat : s.writer.atStream = false) (hf : s.files.Spares s'.files)
      (hpc : s'.writer.streamless = false)
  | request (job : FileJob) (status : XcomStatus) (hpc : s.writer = .process job)
      (hk : job.kind.isStream = true) (hs : s.files.StreamStep job s'.files status)
      (hpc' : s'.writer = .finish false job status)
  | closed (deleted : Bool) (hpc : s.writer = .resetStream)
      (hf : s'.files = s.files.resetStream deleted)

namespace LogWriter

variable {s s' : LogWriter}

theorem WriterStep.file (h : WriterStep s s') (howned : s.files.Owned) : FileStep s s' := by
  cases h with
  | work job o files status hpc hk hw =>
    rcases Kind.isAsync_cases hk with hstream | hatomic
    · exact .request job status hpc hstream (FileState.processStream_cases hstream hw) rfl
    · simp only [FileState.processAsync, hatomic] at hw
      exact .spared (by simp [hpc, hatomic, WriterPc.atStream, Kind.isStream])
        (FileState.spares_processAtomic hw) rfl
  | resetStream deleted hpc => exact .closed deleted hpc rfl
  | openCreated job hpc hk hf hh =>
    exact .spared (by simp [hpc, hk, WriterPc.atStream, Kind.isStream])
      (FileState.spares_openLog hh) rfl
  | appendStart job log hpc hk =>
    exact .spared (by simp [hpc, hk, WriterPc.atStream, Kind.isStream])
      (s.files.spares_noteBlock _) rfl
  | popRaw _ _ hpc | drain _ _ _ hpc | cancelRx _ _ hpc =>
    exact .spared (by simp [hpc, WriterPc.atStream]) (s.files.spares_noteBlock _) rfl
  | appendWrote _ _ hpc | rxWrote _ _ _ _ hpc =>
    exact .spared (by simp [hpc, WriterPc.atStream]) (FileState.spares_writeLog howned _) rfl
  | closeReset _ _ _ hpc | resetLog hpc =>
    exact .spared (by simp [hpc, WriterPc.atStream]) s.files.spares_dropLog rfl
  | openBusy job hpc hk | openFailed job hpc hk | appendNotOpen job hpc hk | flush job _ hpc hk
  | close job hpc hk =>
    exact .spared (by simp [hpc, hk, WriterPc.atStream, Kind.isStream]) (.refl _) rfl
  | top hpc =>
    refine .spared (by simp [hpc, WriterPc.atStream]) (.refl _) ?_
    cases s.stopping <;> rfl
  | rxBack _ _ caller hpc =>
    refine .spared (by simp [hpc, WriterPc.atStream]) (.refl _) ?_
    cases caller <;> rfl
  | completeNone cancelling _ _ hpc | dropCompletion cancelling _ hpc =>
    refine .spared (by simp [hpc, WriterPc.atStream]) (.refl _) ?_
    cases cancelling <;> rfl
  | _ => exact .spared (by simp [*, WriterPc.atStream]) (.refl _) rfl

end LogWriter

/-- The active stream owns its temporary file, and the thread leaves no stream behind. -/
structure StreamInv (s : LogWriter) : Prop where
  owned : s.files.Owned
  stopped : s.writer.streamless = true → s.files.atomicStream = none

theorem FileState.resetStream_atomicStream (f : FileState) (deleted : Bool) :
    (f.resetStream deleted).atomicStream = none := by
  unfold resetStream
  cases hs : f.atomicStream with
  | none => exact hs
  | some stream => rfl

theorem FileState.resetStream_fs (f : FileState) (deleted : Bool) {path : Path}
    (hchanged : (f.resetStream deleted).fs path ≠ f.fs path) : f.Temporary path := by
  unfold resetStream at hchanged
  cases hs : f.atomicStream with
  | none =>
    rw [hs] at hchanged
    exact absurd rfl hchanged
  | some stream =>
    rw [hs] at hchanged
    refine ⟨stream, hs, ?_⟩
    by_contra hp
    exact hchanged (abort_other stream deleted f.fs hp)

namespace LogWriter

variable {s s' : LogWriter}

theorem FileStep.stream (h : FileStep s s') (hjobs : JobsInv s) (hinv : StreamInv s) :
    StreamInv s' := by
  cases h with
  | spared hat hf hpc =>
    refine ⟨hf.owned hinv.owned, ?_⟩
    intro hnone
    rw [hpc] at hnone
    cases hnone
  | request job status hpc _ hs hpc' =>
    have hfresh := hjobs.writer
    rw [hpc] at hfresh
    refine ⟨hs.owned hinv.owned hfresh, ?_⟩
    intro hnone
    rw [hpc'] at hnone
    cases hnone
  | closed deleted hpc hf =>
    have hnone := s.files.resetStream_atomicStream deleted
    rw [← hf] at hnone
    constructor
    · intro stream hs
      rw [hnone] at hs
      cases hs
    · exact fun _ => hnone

/-- The caller starts and joins the thread, and leaves the files alone. -/
theorem CallerStep.files (h : CallerStep s s') : s'.files = s.files := by
  cases h <;> rfl

theorem CallerStep.streamless (h : CallerStep s s') (he : s'.writer.streamless = true) :
    s.writer.streamless = true := by
  cases h with
  | started => cases he
  | shutdownJoin hpc hw =>
    rw [hw]
    rfl
  | _ => exact he

end LogWriter

theorem streamInv_reach {fs : FileSystem} {s : LogWriter}
    (h : Transition.Reach (logWriterMachine fs) s) : StreamInv s := by
  refine h.invariantUsing (q := JobsInv) (fun _ h => jobsInv_reach h) ?_ ?_
  · constructor
    · intro stream hs
      cases hs
    · exact fun _ => rfl
  · intro s l s' hjobs hinv _ hstep
    cases l with
    | caller l =>
      have hs := LogWriter.callerStep_cases hstep
      constructor
      · rw [hs.files]
        exact hinv.owned
      · intro he
        rw [hs.files]
        exact hinv.stopped (hs.streamless he)
    | reader l =>
      cases LogWriter.readerStep_cases hstep <;> exact ⟨hinv.owned, hinv.stopped⟩
    | writer l => exact ((LogWriter.writerStep_cases hstep).file hinv.owned).stream hjobs hinv

/-- The atomic stream is safe in a state: the active one owns its temporary file, every
stream request is answered as `StreamAnswered` says, nothing else ends or changes the
stream but the end of the thread, and a thread that is gone has left none. -/
structure StreamSafe (s : LogWriter) : Prop where
  owned : s.files.Owned
  answered : ∀ job l s', s.writer = .process job → job.kind.isStream = true →
    s.step (.writer l) = some s' →
    ∃ status, s'.writer = .finish false job status ∧
      s.files.StreamAnswered job s'.files status
  closed : ∀ l s', s.writer = .resetStream → s.step (.writer l) = some s' →
    s'.files.atomicStream = none ∧
      ∀ path, s'.files.fs path ≠ s.files.fs path → s.files.Temporary path
  others : ∀ l s', s.step (.writer l) = some s' → s.writer.atStream = false →
    s'.files.atomicStream = s.files.atomicStream
  threads : ∀ l s', (∀ w, l ≠ .writer w) → s.step l = some s' → s'.files = s.files
  stopped : s.writer = .exited ∨ s.writer = .absent → s.files.atomicStream = none

/-- In every reachable state the atomic stream is safe. -/
theorem stream_safe {fs : FileSystem} {s : LogWriter}
    (h : Transition.Reach (logWriterMachine fs) s) : StreamSafe s := by
  have hinv := streamInv_reach h
  constructor
  · exact hinv.owned
  · intro job l s' hpc hk hstep
    cases (LogWriter.writerStep_cases hstep).file hinv.owned with
    | spared hat =>
      rw [hpc] at hat
      simp [WriterPc.atStream, hk] at hat
    | request job' status hpc' _ hs hfin =>
      rw [hpc] at hpc'
      cases hpc'
      exact ⟨status, hfin, hs.answered hinv.owned⟩
    | closed _ hpc' =>
      rw [hpc] at hpc'
      cases hpc'
  · intro l s' hpc hstep
    cases (LogWriter.writerStep_cases hstep).file hinv.owned with
    | spared hat =>
      rw [hpc] at hat
      cases hat
    | request _ _ hpc' =>
      rw [hpc] at hpc'
      cases hpc'
    | closed deleted _ hf =>
      rw [hf]
      exact ⟨s.files.resetStream_atomicStream deleted,
        fun _ hchanged => s.files.resetStream_fs deleted hchanged⟩
  · intro l s' hstep hat
    cases (LogWriter.writerStep_cases hstep).file hinv.owned with
    | spared _ hf => exact hf.stream
    | request job _ hpc hk =>
      rw [hpc] at hat
      simp [WriterPc.atStream, hk] at hat
    | closed _ hpc =>
      rw [hpc] at hat
      cases hat
  · intro l s' hl hstep
    cases l with
    | caller l => exact (LogWriter.callerStep_cases hstep).files
    | reader l => cases LogWriter.readerStep_cases hstep <;> rfl
    | writer l => exact absurd rfl (hl l)
  · rintro (hpc | hpc)
    all_goals
      apply hinv.stopped
      rw [hpc]
      rfl

/-- The writer thread takes a request from the queue, serves it and completes it. -/
def servedRun (o : Outcomes) : List Label :=
  List.replicate 2 (Label.writer .run) ++ [Label.writer (.work o)] ++
    List.replicate 3 (Label.writer .run)

/-- A stream is begun and appended to, in two goes, and its commit taken from the
queue. -/
def streamRun : List Label :=
  [Label.caller (.startCall true), .caller (.streamBeginCall (some [67]) 5 1), .caller .run,
    .caller .run] ++ servedRun {} ++
  [Label.caller (.streamAppendBorrowedCall 5 (some [1, 2, 3]) 2), .caller .run, .caller .run] ++
  servedRun { writes := [.wrote 2, .wrote 1] } ++
  [Label.caller (.streamCommitCall 5 3), .caller .run, .caller .run, .writer .run, .writer .run]

theorem stream_safe_commit :
    ∃ s : LogWriter, s.writer = .process { kind := .streamCommit, requestId := 3, streamId := 5 } ∧
      s.files.atomicStream.map (·.appended) = some [1, 2, 3] ∧ StreamSafe s := by
  obtain ⟨s, hs, hpc, happended⟩ := Transition.exists_of_execUnder
    (m := logWriterMachine fun _ => none) (c := fun _ _ => True)
    (p := fun s => s.writer =
        .process { kind := .streamCommit, requestId := 3, streamId := 5 } ∧
      s.files.atomicStream.map (·.appended) = some [1, 2, 3]) streamRun (by decide +kernel)
  exact ⟨s, hpc, happended, stream_safe hs⟩

end Xcom.File
