import Xcom.Transition.Machine
import Mathlib.Data.List.Basic

/-!
# The serial read thread

`WinSerialBackend::read_loop` beside the thread that closes the port: one overlapped read at a
time, what it brought handed on before a fault is reported, and the cases in which the thread
ends.
-/

namespace Xcom.Serial

/-- `kReadChunkBytes`. -/
def kReadChunkBytes : Nat := 4096

/-- `ERROR_OPERATION_ABORTED`. -/
def errorOperationAborted : Int := 995

/-- What the thread tells its owner. -/
inductive ReadEvent
  | read (data : List UInt8)
  | fault (error : Int)
  deriving DecidableEq, Repr

/-- Where the thread is behind bytes it hands on. -/
inductive AfterRead
  /-- A read that completed at once: the next iteration. -/
  | again
  /-- An overlapped read that was reaped: the stop is honoured first. -/
  | checkStop
  /-- A failed completion. -/
  | failed (error : Int)
  deriving DecidableEq, Repr

/-- The program counter of the thread. -/
inductive ReadPc
  | loop
  | readFile
  | pending
  /-- `WaitForMultipleObjects`, bounded where a stop was seen before. -/
  | wait (bounded : Bool)
  | deliver (data : List UInt8) (next : AfterRead)
  | checkStop
  | failed (error : Int)
  | report (error : Int)
  | clearOpen
  | done
  deriving DecidableEq, Repr

/-- What the driver makes of a pending read, and the wait of it.  A completion counts where the
event of the read is set, whether or not the stop event is set too. -/
inductive WaitResult
  | timeout
  | stopped
  | waitFailed (error : Int)
  | completed (data : List UInt8)
  | reapFailed (data : List UInt8) (error : Int)
  deriving DecidableEq, Repr

/-- What the driver makes of `ReadFile`. -/
inductive ReadFile
  | complete (data : List UInt8)
  | refused (error : Int)
  | pending
  deriving DecidableEq, Repr

/-- The backend, as far as its read thread goes.  `history` is what the owner was told and
`moved` what completed reads put into the buffer: the source has neither. -/
structure ReadLoop where
  pc : ReadPc := .loop
  stopRequested : Bool := false
  stopEvent : Bool := false
  isOpen : Bool := true
  history : List ReadEvent := []
  moved : List UInt8 := []
  deriving DecidableEq, Repr

namespace ReadLoop

/-- The steps of the thread that closes the port and of the read thread. -/
inductive Op
  | requestStop
  | signalStop
  | check
  | readFile (result : ReadFile)
  | wait (result : WaitResult)
  | go
  deriving DecidableEq, Repr

/-- A completed read: what the driver claims beyond the buffer is not there. -/
def complete (data : List UInt8) (next : AfterRead) (s : ReadLoop) : ReadLoop :=
  { s with
    pc := .deliver (data.take kReadChunkBytes) next
    moved := s.moved ++ data.take kReadChunkBytes }

/-- `on_read_`, unless nothing was received. -/
def handOn (data : List UInt8) (next : AfterRead) (s : ReadLoop) : ReadLoop :=
  { s with
    history := if data = [] then s.history else s.history ++ [.read data]
    pc := match next with
      | .again => .loop
      | .checkStop => .checkStop
      | .failed error => .failed error }

/-- A load of `stop_requested_`. -/
def checkStop (s : ReadLoop) : Option ReadLoop :=
  match s.pc with
  | .loop => some { s with pc := if s.stopRequested then .done else .readFile }
  | .pending => some { s with pc := .wait s.stopRequested }
  | .checkStop => some { s with pc := if s.stopRequested then .done else .loop }
  | .failed error => some { s with pc := if s.stopRequested then .done else .report error }
  | _ => none

/-- The wait for a pending read comes back. -/
def waited (bounded : Bool) (s : ReadLoop) : WaitResult → Option ReadLoop
  | .timeout =>
    if bounded then
      some { s with pc := .clearOpen, history := s.history ++ [.fault errorOperationAborted] }
    else none
  | .stopped => if s.stopEvent then some { s with pc := .done } else none
  | .waitFailed error => some { s with pc := .failed error }
  | .completed data => some (s.complete data .checkStop)
  | .reapFailed data error => some (s.complete data (.failed error))

/-- One step. -/
def step (s : ReadLoop) : Op → Option ReadLoop
  | .requestStop => some { s with stopRequested := true }
  | .signalStop => if s.stopRequested then some { s with stopEvent := true } else none
  | .check => s.checkStop
  | .readFile result =>
    if s.pc = .readFile then
      match result with
      | .complete data => some (s.complete data .again)
      | .refused error => some { s with pc := .failed error }
      | .pending => some { s with pc := .pending }
    else none
  | .wait result =>
    match s.pc with
    | .wait bounded => s.waited bounded result
    | _ => none
  | .go =>
    match s.pc with
    | .deliver data next => some (s.handOn data next)
    | .report error => some { s with pc := .clearOpen, history := s.history ++ [.fault error] }
    | .clearOpen => some { s with pc := .done, isOpen := false }
    | _ => none

/-- A session that was just opened. -/
def machine : Transition.Machine ReadLoop Op := ⟨{}, step⟩

/-! ## What holds in every interleaving -/

/-- What was read and is not handed on yet. -/
def inHand : ReadPc → List UInt8
  | .deliver data _ => data
  | _ => []

/-- The bytes that were handed on. -/
def handed (history : List ReadEvent) : List UInt8 :=
  history.flatMap fun e =>
    match e with
    | .read data => data
    | .fault _ => []

/-- Reads only. -/
def NoFault (history : List ReadEvent) : Prop := ∀ e ∈ history, ∃ data, e = .read data

/-- The last thing told was a fault, and the only one. -/
def EndsInFault (history : List ReadEvent) : Prop :=
  ∃ reads error, NoFault reads ∧ history = reads ++ [.fault error]

/-- Each byte read is handed on once, in order; a fault is told last; and the thread only ends
behind a stop or behind a fault with the port no longer open. -/
structure Kept (s : ReadLoop) : Prop where
  bytes : handed s.history ++ inHand s.pc = s.moved
  told : NoFault s.history ∧ s.isOpen = true ∨ EndsInFault s.history
  reported : EndsInFault s.history → s.pc = .clearOpen ∨ s.pc = .done ∧ s.isOpen = false
  cleared : s.pc = .clearOpen → EndsInFault s.history
  ended : s.pc = .done → s.stopRequested = true ∨ EndsInFault s.history
  stop : s.stopEvent = true → s.stopRequested = true

theorem handed_append (h h' : List ReadEvent) : handed (h ++ h') = handed h ++ handed h' :=
  List.flatMap_append

theorem NoFault.notEnds {h : List ReadEvent} (hno : NoFault h) : ¬ EndsInFault h := by
  rintro ⟨reads, error, -, rfl⟩
  obtain ⟨data, hdata⟩ := hno (.fault error) (by simp)
  cases hdata

theorem NoFault.append {h : List ReadEvent} (hno : NoFault h) (data : List UInt8) :
    NoFault (h ++ [.read data]) := by
  intro e he
  rcases List.mem_append.mp he with hold | hnew
  · exact hno e hold
  · exact ⟨data, List.mem_singleton.mp hnew⟩

/-- Before the thread is at its end nothing was reported. -/
theorem Kept.quiet {s : ReadLoop} (h : s.Kept) (hclear : s.pc ≠ .clearOpen)
    (hdone : s.pc ≠ .done) : NoFault s.history ∧ s.isOpen = true := by
  rcases h.told with hquiet | hends
  · exact hquiet
  · rcases h.reported hends with hpc | ⟨hpc, -⟩
    · exact absurd hpc hclear
    · exact absurd hpc hdone

/-- The thread goes on without telling anything. -/
theorem Kept.goes {s : ReadLoop} (h : s.Kept) {pc : ReadPc} (hclear : s.pc ≠ .clearOpen)
    (hdone : s.pc ≠ .done) (hhand : inHand pc = inHand s.pc) (hto : pc ≠ .clearOpen)
    (hstop : pc = .done → s.stopRequested = true) : Kept { s with pc := pc } := by
  have hquiet := h.quiet hclear hdone
  refine ⟨?_, Or.inl hquiet, fun hends => absurd hends hquiet.1.notEnds,
    fun hpc => absurd hpc hto, fun hpc => Or.inl (hstop hpc), h.stop⟩
  show handed s.history ++ inHand pc = s.moved
  rw [hhand]
  exact h.bytes

theorem Kept.complete {s : ReadLoop} (h : s.Kept) (hclear : s.pc ≠ .clearOpen)
    (hdone : s.pc ≠ .done) (hhand : inHand s.pc = []) (data : List UInt8) (next : AfterRead) :
    (s.complete data next).Kept := by
  have hquiet := h.quiet hclear hdone
  have hbytes := h.bytes
  rw [hhand, List.append_nil] at hbytes
  refine ⟨?_, Or.inl hquiet, fun hends => absurd hends hquiet.1.notEnds,
    (fun hpc => by cases hpc), (fun hpc => by cases hpc), h.stop⟩
  exact congrArg (· ++ data.take kReadChunkBytes) hbytes

theorem Kept.handOn {s : ReadLoop} (h : s.Kept) {data : List UInt8} {next : AfterRead}
    (hpc : s.pc = .deliver data next) : (s.handOn data next).Kept := by
  have hquiet := h.quiet (by simp [hpc]) (by simp [hpc])
  have hbytes := h.bytes
  rw [hpc] at hbytes
  have htold : NoFault (s.handOn data next).history := by
    unfold ReadLoop.handOn
    dsimp only
    split
    · exact hquiet.1
    · exact hquiet.1.append data
  refine ⟨?_, Or.inl ⟨htold, hquiet.2⟩, fun hends => absurd hends htold.notEnds, ?_, ?_, h.stop⟩
  · have hhistory : handed (s.handOn data next).history = handed s.history ++ data := by
      unfold ReadLoop.handOn
      dsimp only
      split
      · rename_i hnil
        rw [hnil, List.append_nil]
      · rw [handed_append]
        exact congrArg (handed s.history ++ ·) (List.append_nil data)
    have hempty : inHand (s.handOn data next).pc = [] := by cases next <;> rfl
    rw [hhistory, hempty, List.append_nil]
    exact hbytes
  · cases next <;> exact fun hgone => by cases hgone
  · cases next <;> exact fun hgone => by cases hgone

/-- A fault is told. -/
theorem Kept.tells {s : ReadLoop} (h : s.Kept) (hclear : s.pc ≠ .clearOpen)
    (hdone : s.pc ≠ .done) (hhand : inHand s.pc = []) (error : Int) :
    Kept { s with pc := .clearOpen, history := s.history ++ [.fault error] } := by
  have hquiet := h.quiet hclear hdone
  have hends : EndsInFault (s.history ++ [.fault error]) := ⟨s.history, error, hquiet.1, rfl⟩
  refine ⟨?_, Or.inr hends, fun _ => Or.inl rfl, fun _ => hends, (fun hpc => by cases hpc),
    h.stop⟩
  show handed (s.history ++ [.fault error]) ++ [] = s.moved
  rw [handed_append, List.append_nil, ← h.bytes, hhand]
  rfl

theorem Kept.checkStop {s s' : ReadLoop} (h : s.Kept) (hstep : s.checkStop = some s') :
    s'.Kept := by
  unfold ReadLoop.checkStop at hstep
  split at hstep
  all_goals first | cases hstep; done | skip
  all_goals
    rename_i hpc
    obtain rfl := Option.some.inj hstep
    refine h.goes (by simp [hpc]) (by simp [hpc]) ?_ ?_ ?_
  all_goals
    cases hstop : s.stopRequested <;> simp [hpc, inHand]

theorem Kept.waited {s s' : ReadLoop} (h : s.Kept) {bounded : Bool}
    (hpc : s.pc = .wait bounded) {result : WaitResult}
    (hstep : s.waited bounded result = some s') : s'.Kept := by
  have hhand : inHand s.pc = [] := by rw [hpc]; rfl
  have hclear : s.pc ≠ .clearOpen := by simp [hpc]
  have hdone : s.pc ≠ .done := by simp [hpc]
  cases result with
  | timeout =>
    unfold ReadLoop.waited at hstep
    dsimp only at hstep
    split at hstep
    · exact Option.some.inj hstep ▸ h.tells hclear hdone hhand _
    · cases hstep
  | stopped =>
    unfold ReadLoop.waited at hstep
    dsimp only at hstep
    split at hstep
    · rename_i hevent
      obtain rfl := Option.some.inj hstep
      exact h.goes hclear hdone (by rw [hhand]; rfl) (by simp) fun _ => h.stop hevent
    · cases hstep
  | waitFailed error =>
    obtain rfl := Option.some.inj hstep
    exact h.goes hclear hdone (by rw [hhand]; rfl) (by simp) fun hgone => by cases hgone
  | completed data =>
    obtain rfl := Option.some.inj hstep
    exact h.complete hclear hdone hhand data .checkStop
  | reapFailed data error =>
    obtain rfl := Option.some.inj hstep
    exact h.complete hclear hdone hhand data (.failed error)

theorem Kept.step {s s' : ReadLoop} (h : s.Kept) {op : Op} (hstep : s.step op = some s') :
    s'.Kept := by
  cases op with
  | requestStop =>
    obtain rfl := Option.some.inj hstep
    exact ⟨h.bytes, h.told, h.reported, h.cleared, fun _ => Or.inl rfl, fun _ => rfl⟩
  | signalStop =>
    unfold ReadLoop.step at hstep
    dsimp only at hstep
    split at hstep
    · rename_i hstop
      obtain rfl := Option.some.inj hstep
      exact ⟨h.bytes, h.told, h.reported, h.cleared, h.ended, fun _ => hstop⟩
    · cases hstep
  | check => exact h.checkStop hstep
  | readFile result =>
    unfold ReadLoop.step at hstep
    dsimp only at hstep
    split at hstep
    · rename_i hpc
      have hclear : s.pc ≠ .clearOpen := by simp [hpc]
      have hdone : s.pc ≠ .done := by simp [hpc]
      have hhand : inHand s.pc = [] := by rw [hpc]; rfl
      cases result with
      | complete data =>
        obtain rfl := Option.some.inj hstep
        exact h.complete hclear hdone hhand data .again
      | refused error =>
        obtain rfl := Option.some.inj hstep
        exact h.goes hclear hdone (by rw [hhand]; rfl) (by simp) fun hgone => by cases hgone
      | pending =>
        obtain rfl := Option.some.inj hstep
        exact h.goes hclear hdone (by rw [hhand]; rfl) (by simp) fun hgone => by cases hgone
    · cases hstep
  | wait result =>
    unfold ReadLoop.step at hstep
    dsimp only at hstep
    split at hstep
    · rename_i hpc
      exact h.waited hpc hstep
    · cases hstep
  | go =>
    unfold ReadLoop.step at hstep
    dsimp only at hstep
    split at hstep
    · rename_i hpc
      exact Option.some.inj hstep ▸ h.handOn hpc
    · rename_i hpc
      exact Option.some.inj hstep ▸
        h.tells (by simp [hpc]) (by simp [hpc]) (by rw [hpc]; rfl) _
    · rename_i hpc
      obtain rfl := Option.some.inj hstep
      have hends := h.cleared hpc
      refine ⟨?_, Or.inr hends, fun _ => Or.inr ⟨rfl, rfl⟩, fun hgone => (by cases hgone),
        fun _ => Or.inr hends, h.stop⟩
      have hbytes := h.bytes
      rw [hpc] at hbytes
      exact hbytes
    · cases hstep

theorem kept_reach {s : ReadLoop} (h : Transition.Reach machine s) : s.Kept := by
  refine h.invariant ⟨rfl, Or.inl ⟨fun e he => absurd he List.not_mem_nil, rfl⟩, ?_, ?_, ?_, ?_⟩
    fun _ _ _ hkept _ hstep => hkept.step hstep
  · rintro ⟨reads, error, -, hnil⟩
    simp [machine] at hnil
  · exact fun hpc => by cases hpc
  · exact fun hpc => by cases hpc
  · exact fun hevent => by cases hevent

/-- In every interleaving of the read thread with a close, and whatever the driver answers, what
completed reads brought is handed on once and in order, nothing is handed on behind a fault, and
a thread that has ended without a stop has told a fault and left the port not open. -/
theorem read_loop_reports {s : ReadLoop} (h : Transition.Reach machine s) :
    handed s.history ++ inHand s.pc = s.moved ∧
    (NoFault s.history ∨ EndsInFault s.history) ∧
    (s.pc = .done → s.stopRequested = false → EndsInFault s.history ∧ s.isOpen = false) ∧
    (EndsInFault s.history → s.pc = .clearOpen ∨ s.isOpen = false) := by
  have hkept := kept_reach h
  refine ⟨hkept.bytes, hkept.told.imp And.left id, fun hdone hstop => ?_, fun hends => ?_⟩
  · rcases hkept.ended hdone with hstopped | hends
    · rw [hstop] at hstopped
      cases hstopped
    · rcases hkept.reported hends with hpc | ⟨-, hclosed⟩
      · rw [hdone] at hpc
        cases hpc
      · exact ⟨hends, hclosed⟩
  · exact (hkept.reported hends).imp id And.right

theorem read_loop_reports_unplugged : ∃ s : ReadLoop,
    (s.pc = .done ∧ s.stopRequested = false) ∧ EndsInFault s.history ∧ s.isOpen = false := by
  obtain ⟨s, hs, hdone, hstop⟩ : ∃ s : ReadLoop, Transition.Reach machine s ∧
      (s.pc = .done ∧ s.stopRequested = false) :=
    Transition.exists_of_execUnder [.check, .readFile .pending, .check,
      .wait (.reapFailed [0x41] errorOperationAborted), .go, .check, .go, .go] (by decide)
  exact ⟨s, ⟨hdone, hstop⟩, (read_loop_reports hs).2.2.1 hdone hstop⟩

end ReadLoop

end Xcom.Serial
