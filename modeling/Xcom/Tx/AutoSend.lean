import Mathlib.Algebra.Order.Ring.Nat
import Xcom.Tx.Ownership

/-!
# One automatic packet

`autosend_armed` is set by a tick and cleared by whoever gives the packet up or completes
it, so that one automatic packet is under way at most.  A reconfiguration clears it too,
whether a packet is under way or not.
-/

namespace Xcom.Tx

/-! ## Automatic packets -/

def TimerPc.packets : TimerPc → Nat
  | .submit | .refused => 1
  | _ => 0

def TxEvent.packets : TxEvent → Nat
  | .autosend => 1
  | _ => 0

def TxOp.packets : TxOp → Nat
  | .autoLoadState | .autoAlloc | .autoLoadGeneration _ | .autoEnqueue _ | .autoDisarm
  | .rearm => 1
  | _ => 0

def Job.packets (job : Job) : Nat := job.autoSend.toNat

/-- The job the session writer has popped and not completed. -/
def WriterPc.job? : WriterPc → Option Job
  | .loadGeneration job | .loadState job | .writing job | .releasing job | .leftRelease job =>
    some job
  | _ => none

def WriterPc.packets : WriterPc → Nat
  | .rearming | .leftRearm => 1
  | pc => (pc.job?.map Job.packets).getD 0

namespace TxPath

/-- The automatic packets between the arming of the gate and its clearing. -/
def outstanding (s : TxPath) : Nat :=
  s.timer.packets + (s.events.map TxEvent.packets).sum + (s.ops.map TxOp.packets).sum +
    (s.jobs.map Job.packets).sum + s.writer.packets

/-- The automatic jobs that are queued or being written. -/
def autoJobs (s : TxPath) : Nat :=
  (s.jobs.map Job.packets).sum + (s.writer.job?.map Job.packets).getD 0

/-- An automatic job is complete and its gate about to be cleared. -/
def Completing (s : TxPath) : Prop :=
  s.writer = .rearming ∨ s.writer = .leftRearm ∨ s.ops.head? = some .rearm

instance (s : TxPath) : Decidable s.Completing := inferInstanceAs (Decidable (_ ∨ _))

/-- One automatic job at most is queued or being written, and the completion of one
clears the gate for no other. -/
def BackPressure (s : TxPath) : Prop :=
  s.autoJobs ≤ 1 ∧ (s.Completing → s.autoJobs = 0)

end TxPath

/-- A tick that finds the gate clear finds no automatic packet under way. -/
def ArmsForOne (s : TxPath) (l : Label) : Prop :=
  l = .timer .run → s.timer = .exchange → s.autosendArmed = false → s.outstanding = 0

instance (s : TxPath) (l : Label) : Decidable (ArmsForOne s l) :=
  inferInstanceAs (Decidable (_ → _ → _ → _))

/-! ## What the steps do to the packets -/

theorem packets_release (bs : List Block) :
    ((bs.map TxOp.release).map TxOp.packets).sum = 0 := by
  induction bs with
  | nil => rfl
  | cons b bs ih => simpa [TxOp.packets] using ih

theorem packets_action (event : TxEvent) :
    ((TxPath.action event).map TxOp.packets).sum = event.packets := by
  cases event with
  | autosendConfig d =>
    simp only [TxPath.action, TxPath.autosendConfigAction]
    split
    · exact packets_release _
    · split <;> rfl
  | _ => rfl

theorem packets_dispatched {events : List TxEvent} {i : Nat} {event : TxEvent}
    (h : events[i]? = some event) :
    ((events.eraseIdx i).map TxEvent.packets).sum + event.packets =
      (events.map TxEvent.packets).sum := by
  obtain ⟨hi, rfl⟩ := List.getElem?_eq_some_iff.mp h
  have hperm := (List.getElem_cons_eraseIdx_perm hi).map TxEvent.packets
  have hsum := hperm.sum_nat
  rw [List.map_cons, List.sum_cons] at hsum
  omega

theorem outstanding_cons {s : TxPath} {op : TxOp} {rest : List TxOp} (hops : s.ops = op :: rest) :
    s.outstanding = s.timer.packets + (s.events.map TxEvent.packets).sum +
      (op.packets + (rest.map TxOp.packets).sum) + (s.jobs.map Job.packets).sum +
      s.writer.packets := by
  rw [TxPath.outstanding, hops, List.map_cons, List.sum_cons]

theorem abiStep_outstanding {s s' : TxPath} {l : AbiLabel} (hs : s.abiStep l = some s') :
    s'.outstanding = s.outstanding := by
  unfold TxPath.abiStep at hs
  split at hs
  case h_1 =>
    split at hs
    · cases hs
    · split at hs <;> cases hs <;> rfl
  case h_2 =>
    split at hs
    · cases hs
    · split at hs
      · cases hs
        rfl
      · split at hs <;> cases hs <;> rfl
  case h_4 => split at hs <;> cases hs <;> rfl
  case h_6 => cases hs; split <;> simp [TxPath.outstanding, TxEvent.packets]
  case h_7 => split at hs <;> cases hs <;> rfl
  case h_8 =>
    cases hs
    split
    · simp [TxPath.outstanding, TxEvent.packets]
    · split <;> rfl
  case h_10 => cases hs
  all_goals cases hs; rfl

theorem drainJob_outstanding (s : TxPath) (rest : List TxOp) :
    (s.drainJob rest).outstanding = s.timer.packets + (s.events.map TxEvent.packets).sum +
      (rest.map TxOp.packets).sum + (s.jobs.map Job.packets).sum + s.writer.packets := by
  unfold TxPath.drainJob
  split
  · rename_i hjobs
    rw [TxPath.outstanding, hjobs]
  · rename_i job jobs hjobs
    cases hauto : job.autoSend <;>
      simp only [TxPath.outstanding, hjobs, hauto, TxOp.packets, Job.packets, if_true,
        Bool.false_eq_true, if_false, List.nil_append, List.cons_append, List.map_cons,
        List.sum_cons, Bool.toNat_false, Bool.toNat_true] <;>
      omega

/-- No step of an action starts a packet. -/
theorem opStep_outstanding {s s' : TxPath} {op : TxOp} {rest : List TxOp} {l : DispLabel}
    (hops : s.ops = op :: rest) (hs : s.opStep rest op l = some s') :
    s'.outstanding ≤ s.outstanding := by
  rw [outstanding_cons hops]
  have hl := opStep_label hs
  unfold TxPath.opStep at hs
  cases hl
  case stopTimer =>
    simp only at hs
    split at hs <;> cases hs
    simp only [TxPath.outstanding, TimerPc.packets]
    omega
  case startTimer started =>
    cases hs
    cases started <;> simp only [TxPath.outstanding, TimerPc.packets, if_true, Bool.false_eq_true,
      if_false] <;> omega
  case autoLoadState isOpen =>
    cases hs
    cases isOpen <;> simp [TxPath.outstanding, TxOp.packets]
  case autoAlloc =>
    cases hs
    split
    · simp [TxPath.outstanding, TxOp.packets]
    · split <;> simp [TxPath.outstanding, TxOp.packets]
  case autoEnqueue job =>
    have hone : job.autoSend.toNat ≤ 1 := Bool.toNat_le _
    cases hs
    split
    · simp only [TxPath.outstanding, TxOp.packets, Job.packets, List.map_append, List.map_cons,
        List.map_nil, List.sum_append, List.sum_cons, List.sum_nil]
      omega
    · simp [TxPath.outstanding, TxOp.packets]
  case userLoadGeneration d g => cases hs; split <;> simp [TxPath.outstanding, TxOp.packets]
  case userLoadState d isOpen => cases hs; split <;> simp [TxPath.outstanding, TxOp.packets]
  case userEnqueue d =>
    cases hs
    split
    · simp only [TxPath.outstanding, TxOp.packets, Job.packets, List.map_append, List.map_cons,
        List.map_nil, List.sum_append, List.sum_cons, List.sum_nil, Bool.toNat_false]
      omega
    · simp [TxPath.outstanding, TxOp.packets]
  case startWriter started =>
    cases hs
    split
    · simp only [TxPath.outstanding, WriterPc.packets, WriterPc.job?, Option.map_none,
        Option.getD_none, List.map_nil, List.sum_nil]
      omega
    · simp only [TxPath.outstanding]
      omega
  case checkWriter =>
    cases hs
    split <;> simp [TxPath.outstanding, TxOp.packets]
  case joinWriter =>
    simp only at hs
    split at hs <;> cases hs
    simp only [TxPath.outstanding, WriterPc.packets, WriterPc.job?, Option.map_none,
      Option.getD_none]
    omega
  case drainJobs =>
    cases hs
    rw [drainJob_outstanding]
    omega
  all_goals
    cases hs
    simp [TxPath.outstanding, TxOp.packets]

theorem dispStep_outstanding {s s' : TxPath} {l : DispLabel} (hs : s.dispStep l = some s') :
    s'.outstanding ≤ s.outstanding := by
  unfold TxPath.dispStep at hs
  split at hs
  case h_1 i hops =>
    split at hs
    · obtain ⟨event, hevent, rfl⟩ := Option.map_eq_some_iff.mp hs
      have hevents := packets_dispatched hevent
      simp only [TxPath.outstanding, hops, packets_action, List.map_nil, List.sum_nil]
      omega
    · cases hs
  case h_5 => exact opStep_outstanding ‹_› hs
  case h_6 => cases hs
  all_goals
    rename_i hops
    split at hs <;> cases hs
    simp [TxPath.outstanding, hops, TxOp.packets]

/-- A packet starts when a tick arms the gate. -/
theorem timerStep_outstanding {s s' : TxPath} {l : TimerLabel} (hs : s.timerStep l = some s') :
    s'.outstanding ≤ s.outstanding ∨
      (l = .run ∧ s.timer = .exchange ∧ s.autosendArmed = false ∧
        s'.outstanding = s.outstanding + 1) := by
  unfold TxPath.timerStep at hs
  split at hs
  case h_2 isOpen hpc =>
    cases hs
    cases isOpen <;> simp [TxPath.outstanding, hpc, TimerPc.packets]
  case h_3 hpc =>
    cases hs
    cases harmed : s.autosendArmed
    · right
      refine ⟨rfl, hpc, rfl, ?_⟩
      simp only [TxPath.outstanding, hpc, TimerPc.packets, Bool.false_eq_true, if_false]
      omega
    · left
      simp [TxPath.outstanding, hpc, TimerPc.packets]
  case h_4 accepted hpc =>
    cases hs
    left
    cases accepted
    · simp [TxPath.outstanding, hpc, TimerPc.packets]
    · simp only [TxPath.outstanding, hpc, TimerPc.packets, TxEvent.packets, if_true,
        List.map_append, List.map_cons, List.map_nil, List.sum_append, List.sum_cons, List.sum_nil]
      omega
  case h_6 => cases hs
  all_goals
    rename_i hpc
    cases hs
    simp [TxPath.outstanding, hpc, TimerPc.packets]

/-- The session writer completes packets and starts none. -/
theorem writerStep_outstanding {s s' : TxPath} {l : WriterLabel}
    (hs : s.writerStep l = some s') : s'.outstanding ≤ s.outstanding := by
  unfold TxPath.writerStep at hs
  split at hs
  case h_2 hpc | h_9 hpc =>
    cases hs
    split
    · simp [TxPath.outstanding, WriterPc.packets, WriterPc.job?]
    · rename_i job jobs hjobs
      simp only [TxPath.outstanding, hpc, hjobs, WriterPc.packets, WriterPc.job?, List.map_cons,
        List.sum_cons, Option.map_some, Option.map_none, Option.getD_some, Option.getD_none]
      omega
  case h_6 job hpc | h_10 job hpc =>
    cases hs
    cases hauto : job.autoSend <;>
      simp [TxPath.outstanding, hpc, hauto, WriterPc.packets, WriterPc.job?, Job.packets]
  case h_12 => cases hs
  all_goals
    cases hs
    try split
    all_goals simp_all [TxPath.outstanding, WriterPc.packets, WriterPc.job?]

theorem outstanding_reach {s : TxPath} (h : Transition.ReachUnder txMachine ArmsForOne s) :
    s.outstanding ≤ 1 := by
  refine h.invariant (p := fun s => s.outstanding ≤ 1) (by decide) ?_
  intro s l s' hone harms hs
  cases l with
  | abi l => exact (abiStep_outstanding hs).le.trans hone
  | disp l => exact (dispStep_outstanding hs).trans hone
  | timer l =>
    rcases timerStep_outstanding hs with hle | ⟨rfl, hpc, harmed, hmore⟩
    · exact hle.trans hone
    · rw [hmore, harms rfl hpc harmed]
  | writer l => exact (writerStep_outstanding hs).trans hone

/-- `xcom_set_auto_template` up to the started timer. -/
def configRun (size intervalMs : UInt32) : List Label :=
  [Label.abi (.setAutoTemplate false size intervalMs), .abi .run, .abi (.submit true)] ++
    onDispatcher [.dispatch 0, .run, .run, .run, .run, .start true]

/-- A tick that arms the gate, up to the queued automatic job. -/
def tickRun (generation : UInt32) : List Label :=
  [Label.timer .tick, .timer (.loadState true), .timer .run, .timer (.submit true)] ++
    onDispatcher [.dispatch 0, .loadState true, .run, .loadGeneration generation, .run]

/-- A second automatic job is queued behind one that is being written. -/
def reconfigureRun : List Label :=
  openRun ++ configRun 3 100 ++ tickRun 1 ++ (writeRun 1).take 4 ++ configRun 4 50 ++ tickRun 1

end Xcom.Tx
