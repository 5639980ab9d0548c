import Xcom.Tx.Send

/-!
# Who owns a transmit block

Every block that is not free is referred to once: by the ABI caller, a staged event, the
action under way, the template, a queued job or the session writer.
-/

namespace Xcom.Tx

/-! ## References -/

def AbiPc.held : AbiPc → List Block
  | .loadGeneration b _ | .release b => [b]
  | .submitWrite d => [d.block]
  | .submitConfig d => d.held
  | _ => []

def TxEvent.held : TxEvent → List Block
  | .send d => [d.block]
  | .autosend => []
  | .autosendConfig d => d.held

def TxOp.held : TxOp → List Block
  | .install d => d.block.toList
  | .autoLoadGeneration b | .release b => [b]
  | .autoEnqueue job => [job.block]
  | .userLoadGeneration d | .userLoadState d | .userEnqueue d => [d.block]
  | _ => []

def WriterPc.held : WriterPc → List Block
  | .loadGeneration job | .loadState job | .writing job | .releasing job
  | .leftRelease job => [job.block]
  | _ => []

/-- The blocks of the queue entries: the staged events and the jobs of the writer. -/
def TxPath.queued (s : TxPath) : List Block :=
  s.events.flatMap TxEvent.held ++ s.jobs.map (·.block)

/-- Every reference to a block. -/
def TxPath.references (s : TxPath) : List Block :=
  s.queued ++ s.writer.held ++ s.autosend.block.toList ++ s.ops.flatMap TxOp.held ++ s.abi.held

/-! ## What the steps of an action leave behind -/

/-- A template is installed only over an empty one.  `vacant` tells whether the template
is empty before the first step. -/
def TemplateSafe : Bool → List TxOp → Prop
  | _, [] => True
  | _, .releaseTemplate :: ops => TemplateSafe true ops
  | vacant, .install _ :: ops => vacant = true ∧ TemplateSafe false ops
  | vacant, _ :: ops => TemplateSafe vacant ops

/-- The writer is started only over an empty ring.  `drained` tells whether an absent
writer has left no jobs before the first step. -/
def WriterSafe : Bool → List TxOp → Prop
  | drained, [] => drained = true
  | drained, .startWriter :: ops => drained = true ∧ WriterSafe true ops
  | _, .joinWriter :: ops => WriterSafe false ops
  | _, .drainJobs :: ops => WriterSafe true ops
  | drained, _ :: ops => WriterSafe drained ops

theorem TemplateSafe.vacant {ops : List TxOp} (h : TemplateSafe false ops) (vacant : Bool) :
    TemplateSafe vacant ops := by
  induction ops with
  | nil => trivial
  | cons op ops ih =>
    cases op with
    | releaseTemplate => exact h
    | install d => cases h.1
    | _ => exact ih h

theorem WriterSafe.drained {drained : Bool} {ops : List TxOp} (h : WriterSafe drained ops) :
    WriterSafe true ops := by
  induction ops with
  | nil => rfl
  | cons op ops ih =>
    cases op with
    | startWriter => exact ⟨rfl, h.2⟩
    | joinWriter => exact h
    | drainJobs => exact h
    | _ => exact ih h

theorem templateSafe_action (vacant : Bool) (event : TxEvent) :
    TemplateSafe vacant (TxPath.action event) := by
  cases event with
  | autosendConfig d =>
    simp only [TxPath.action, TxPath.autosendConfigAction]
    split
    · cases d.held with
      | nil => trivial
      | cons b bs =>
        induction bs generalizing b with
        | nil => trivial
        | cons c bs ih => exact ih c
    · split <;> simp [TemplateSafe]
  | _ => trivial

theorem writerSafe_action (event : TxEvent) : WriterSafe true (TxPath.action event) := by
  cases event with
  | autosendConfig d =>
    simp only [TxPath.action, TxPath.autosendConfigAction]
    split
    · cases d.held with
      | nil => rfl
      | cons b bs =>
        induction bs generalizing b with
        | nil => rfl
        | cons c bs ih => exact ih c
    · split <;> simp [WriterSafe]
  | _ => rfl

theorem held_action (event : TxEvent) :
    (TxPath.action event).flatMap TxOp.held = event.held := by
  cases event with
  | send d => rfl
  | autosend => rfl
  | autosendConfig d =>
    simp only [TxPath.action, TxPath.autosendConfigAction, TxEvent.held]
    split
    · rw [List.flatMap_map]
      exact List.flatMap_singleton' d.held
    · split
      · rename_i hzero
        simp [TxOp.held, AutoTemplateDescriptor.held, hzero]
      · rename_i hne
        simp [TxOp.held, AutoTemplateDescriptor.held, hne]

theorem count_references (s : TxPath) (c : Block) :
    s.references.count c = (s.events.flatMap TxEvent.held).count c +
      (s.jobs.map (·.block)).count c + s.writer.held.count c +
      s.autosend.block.toList.count c + (s.ops.flatMap TxOp.held).count c +
      s.abi.held.count c := by
  simp only [TxPath.references, TxPath.queued, List.count_append]

/-- What keeps every block with one owner. -/
structure TxInv (s : TxPath) : Prop where
  holds : s.tx.Holds s.references
  template : TemplateSafe s.autosend.block.isNone s.ops
  writer : ∃ drained, (drained = true → s.writer = .absent → s.jobs = []) ∧
    WriterSafe drained s.ops
  enabling : ∀ size, s.abi ≠ .allocTemplate size 0

/-- A step of a thread other than the Dispatcher. -/
theorem TxInv.outside {s s' : TxPath} (h : TxInv s) (hholds : s'.tx.Holds s'.references)
    (hautosend : s'.autosend = s.autosend) (hops : s'.ops = s.ops)
    (hjobs : s.jobs = [] → s'.jobs = []) (hwriter : s'.writer = .absent → s.writer = .absent)
    (habi : ∀ size, s'.abi ≠ .allocTemplate size 0) : TxInv s' where
  holds := hholds
  template := by
    rw [hautosend, hops]
    exact h.template
  writer := by
    obtain ⟨drained, hdrained, hsafe⟩ := h.writer
    refine ⟨drained, ?_, hops ▸ hsafe⟩
    intro hd habsent
    exact hjobs (hdrained hd (hwriter habsent))
  enabling := habi

/-- A step of the ABI caller. -/
theorem TxInv.byAbi {s s' : TxPath} (h : TxInv s) (hholds : s'.tx.Holds s'.references)
    (hsame : s'.autosend = s.autosend ∧ s'.ops = s.ops ∧ s'.jobs = s.jobs ∧
      s'.writer = s.writer) (habi : ∀ size, s'.abi ≠ .allocTemplate size 0) : TxInv s' := by
  obtain ⟨hautosend, hops, hjobs, hwriter⟩ := hsame
  apply h.outside hholds hautosend hops
  · rw [hjobs]
    exact id
  · rw [hwriter]
    exact id
  · exact habi

/-- A step of the ABI caller that only hands on the blocks it holds. -/
theorem TxInv.handsOn {s s' : TxPath} (h : TxInv s)
    (hsame : s'.autosend = s.autosend ∧ s'.ops = s.ops ∧ s'.jobs = s.jobs ∧
      s'.writer = s.writer) (hqueued : s'.tx = s.tx ∧ s'.events = s.events)
    (hheld : s'.abi.held = s.abi.held) (habi : ∀ size, s'.abi ≠ .allocTemplate size 0) :
    TxInv s' := by
  obtain ⟨hautosend, hops, hjobs, hwriter⟩ := hsame
  obtain ⟨htx, hevents⟩ := hqueued
  refine h.byAbi ?_ ⟨hautosend, hops, hjobs, hwriter⟩ habi
  rw [htx]
  apply h.holds.perm
  intro c
  rw [count_references, count_references, hautosend, hops, hjobs, hwriter, hevents, hheld]

/-- A step that queues an event with blocks of the ABI caller. -/
theorem TxInv.posts {s s' : TxPath} (h : TxInv s) {event : TxEvent}
    (hsame : s'.autosend = s.autosend ∧ s'.ops = s.ops ∧ s'.jobs = s.jobs ∧
      s'.writer = s.writer) (hqueued : s'.tx = s.tx ∧ s'.events = s.events ++ [event])
    (hheld : s.abi.held = event.held ++ s'.abi.held)
    (habi : ∀ size, s'.abi ≠ .allocTemplate size 0) : TxInv s' := by
  obtain ⟨hautosend, hops, hjobs, hwriter⟩ := hsame
  obtain ⟨htx, hevents⟩ := hqueued
  refine h.byAbi ?_ ⟨hautosend, hops, hjobs, hwriter⟩ habi
  rw [htx]
  apply h.holds.perm
  intro c
  rw [count_references, count_references, hautosend, hops, hjobs, hwriter, hevents, hheld,
    List.flatMap_append, List.flatMap_singleton, List.count_append, List.count_append]
  omega

theorem TxInv.abiStep {s s' : TxPath} {l : AbiLabel} (h : TxInv s)
    (hs : s.abiStep l = some s') : TxInv s' := by
  have hholds := h.holds
  unfold TxPath.abiStep at hs
  split at hs
  case h_1 dataNull size hpc =>
    split at hs
    · cases hs
    · split at hs <;> cases hs
      · exact h
      · exact h.handsOn ⟨rfl, rfl, rfl, rfl⟩ ⟨rfl, rfl⟩ (by simp only [hpc, AbiPc.held]) nofun
  case h_2 dataNull size intervalMs hpc =>
    split at hs
    · cases hs
    · split at hs
      · cases hs
        exact h
      · split at hs <;> cases hs
        · exact h.handsOn ⟨rfl, rfl, rfl, rfl⟩ ⟨rfl, rfl⟩
            (by simp only [hpc, AbiPc.held, AutoTemplateDescriptor.held, if_true]) nofun
        · rename_i hne
          refine h.handsOn ⟨rfl, rfl, rfl, rfl⟩ ⟨rfl, rfl⟩ (by simp only [hpc, AbiPc.held]) ?_
          rintro size' heq
          cases heq
          exact hne rfl
  case h_3 size isOpen hpc =>
    cases hs
    refine h.handsOn ⟨rfl, rfl, rfl, rfl⟩ ⟨rfl, rfl⟩ ?_ (by cases isOpen <;> nofun)
    cases isOpen <;> simp [hpc, AbiPc.held]
  case h_4 size hpc =>
    cases hs
    split
    · rename_i b tx halloc
      refine h.byAbi ((hholds.tryAlloc halloc).perm ?_) ⟨rfl, rfl, rfl, rfl⟩ nofun
      intro c
      simp only [List.count_cons, count_references, hpc, AbiPc.held, List.count_nil]
      omega
    · exact h.handsOn ⟨rfl, rfl, rfl, rfl⟩ ⟨rfl, rfl⟩ (by simp only [hpc, AbiPc.held]) nofun
  case h_5 b size g hpc =>
    cases hs
    exact h.handsOn ⟨rfl, rfl, rfl, rfl⟩ ⟨rfl, rfl⟩ (by simp only [hpc, AbiPc.held]) nofun
  case h_6 d accepted hpc =>
    cases hs
    split
    · exact h.posts ⟨rfl, rfl, rfl, rfl⟩ ⟨rfl, rfl⟩
        (by simp only [hpc, AbiPc.held, TxEvent.held, List.append_nil]) nofun
    · exact h.handsOn ⟨rfl, rfl, rfl, rfl⟩ ⟨rfl, rfl⟩ (by simp only [hpc, AbiPc.held]) nofun
  case h_7 size intervalMs hpc =>
    have hne : intervalMs ≠ 0 := by
      rintro rfl
      exact h.enabling size hpc
    cases hs
    split
    · rename_i b tx halloc
      refine h.byAbi ((hholds.tryAlloc halloc).perm ?_) ⟨rfl, rfl, rfl, rfl⟩ nofun
      intro c
      simp only [List.count_cons, count_references, hpc, AbiPc.held, AutoTemplateDescriptor.held,
        if_neg hne, Option.toList_some, List.count_nil]
      omega
    · exact h.handsOn ⟨rfl, rfl, rfl, rfl⟩ ⟨rfl, rfl⟩ (by simp only [hpc, AbiPc.held]) nofun
  case h_8 d accepted hpc =>
    cases hs
    split
    · exact h.posts ⟨rfl, rfl, rfl, rfl⟩ ⟨rfl, rfl⟩
        (by simp only [hpc, AbiPc.held, TxEvent.held, List.append_nil]) nofun
    · split
      · rename_i b bs hheld
        have hsingle : d.held = [b] := by
          unfold AutoTemplateDescriptor.held at hheld ⊢
          split at hheld
          · cases hheld
          · rename_i hne
            rw [if_neg hne]
            cases hblock : d.block with
            | none => simp [hblock] at hheld
            | some b' =>
              simp only [hblock, Option.toList_some, List.cons.injEq] at hheld
              simp [hheld.1]
        exact h.handsOn ⟨rfl, rfl, rfl, rfl⟩ ⟨rfl, rfl⟩
          (by simp only [hpc, AbiPc.held, hsingle]) nofun
      · rename_i hheld
        exact h.handsOn ⟨rfl, rfl, rfl, rfl⟩ ⟨rfl, rfl⟩
          (by simp only [hpc, AbiPc.held, hheld]) nofun
  case h_9 b hpc =>
    cases hs
    refine h.byAbi (TxBlockPool.Holds.release (hholds.perm ?_)) ⟨rfl, rfl, rfl, rfl⟩ nofun
    intro c
    simp only [List.count_cons, count_references, hpc, AbiPc.held, List.count_nil]
    omega
  case h_10 => cases hs

/-- The timer thread owns no block. -/
theorem TxInv.timerStep {s s' : TxPath} {l : TimerLabel} (h : TxInv s)
    (hs : s.timerStep l = some s') : TxInv s' := by
  have hholds := h.holds
  unfold TxPath.timerStep at hs
  split at hs
  case h_4 accepted hpc =>
    cases hs
    split
    · exact h.posts ⟨rfl, rfl, rfl, rfl⟩ ⟨rfl, rfl⟩ (List.nil_append _).symm h.enabling
    · exact h.byAbi hholds ⟨rfl, rfl, rfl, rfl⟩ h.enabling
  case h_3 hpc =>
    cases hs
    split <;> exact h.byAbi hholds ⟨rfl, rfl, rfl, rfl⟩ h.enabling
  case h_6 => cases hs
  all_goals
    cases hs
    exact h.byAbi hholds ⟨rfl, rfl, rfl, rfl⟩ h.enabling

theorem TxInv.writerStep {s s' : TxPath} {l : WriterLabel} (h : TxInv s)
    (hs : s.writerStep l = some s') : TxInv s' := by
  have hholds := h.holds
  have hgone : s.jobs = [] → ∀ job jobs, s.jobs ≠ job :: jobs := by
    rintro hnil job jobs hcons
    rw [hnil] at hcons
    cases hcons
  unfold TxPath.writerStep at hs
  split at hs
  case h_1 hpc =>
    cases hs
    refine h.outside (hholds.perm ?_) rfl rfl id (by cases s.stop <;> nofun) h.enabling
    intro c
    cases s.stop <;> simp [count_references, hpc, WriterPc.held]
  case h_2 hpc | h_9 hpc =>
    cases hs
    split
    · refine h.outside (hholds.perm ?_) rfl rfl id nofun h.enabling
      intro c
      simp only [count_references, hpc, WriterPc.held]
    · rename_i job jobs hjobs
      refine h.outside (hholds.perm ?_) rfl rfl (fun hnil => absurd hjobs (hgone hnil _ _)) nofun
        h.enabling
      intro c
      simp only [count_references, hpc, hjobs, WriterPc.held, List.map_cons, List.count_cons,
        List.count_nil]
      omega
  case h_3 job _ hpc | h_4 job _ hpc =>
    cases hs
    refine h.outside (hholds.perm ?_) rfl rfl id (by split <;> nofun) h.enabling
    intro c
    split <;> simp only [count_references, hpc, WriterPc.held]
  case h_5 job hpc =>
    cases hs
    refine h.outside (hholds.perm ?_) rfl rfl id nofun h.enabling
    intro c
    simp only [count_references, hpc, WriterPc.held]
  case h_6 job hpc | h_10 job hpc =>
    cases hs
    refine h.outside (TxBlockPool.Holds.release (hholds.perm ?_)) rfl rfl id
      (by split <;> nofun) h.enabling
    intro c
    split <;> simp only [List.count_cons, count_references, hpc, WriterPc.held, List.count_nil] <;>
      omega
  case h_7 hpc | h_11 hpc =>
    cases hs
    refine h.outside (hholds.perm ?_) rfl rfl id nofun h.enabling
    intro c
    simp only [count_references, hpc, WriterPc.held]
  case h_8 hpc =>
    cases hs
    refine h.outside (hholds.perm ?_) rfl rfl id (by split <;> nofun) h.enabling
    intro c
    split <;> simp only [count_references, hpc, WriterPc.held]
  case h_12 => cases hs

/-- A step of an action that neither touches the template nor the writer. -/
theorem TxInv.byAction {s s' : TxPath} (h : TxInv s) (hholds : s'.tx.Holds s'.references)
    (hsame : s'.autosend = s.autosend ∧ s'.abi = s.abi ∧ s'.writer = s.writer)
    (hjobs : s.writer = .absent → s.jobs = [] → s'.jobs = [])
    (htemplate : TemplateSafe s.autosend.block.isNone s'.ops)
    (hwriter : ∀ drained, WriterSafe drained s.ops → WriterSafe drained s'.ops) : TxInv s' := by
  obtain ⟨hautosend, habi, hsame⟩ := hsame
  obtain ⟨drained, hdrained, hsafe⟩ := h.writer
  constructor
  · exact hholds
  · rw [hautosend]
    exact htemplate
  · refine ⟨drained, ?_, hwriter drained hsafe⟩
    intro hd habsent
    rw [hsame] at habsent
    exact hjobs habsent (hdrained hd habsent)
  · rw [habi]
    exact h.enabling

/-- A step of an action that moves no block. -/
theorem TxInv.bySameBlocks {s s' : TxPath} (h : TxInv s)
    (hsame : s'.tx = s.tx ∧ s'.events = s.events ∧ s'.jobs = s.jobs ∧ s'.autosend = s.autosend ∧
      s'.abi = s.abi ∧ s'.writer = s.writer)
    (hheld : ∀ c, (s'.ops.flatMap TxOp.held).count c = (s.ops.flatMap TxOp.held).count c)
    (htemplate : TemplateSafe s.autosend.block.isNone s'.ops)
    (hwriter : ∀ drained, WriterSafe drained s.ops → WriterSafe drained s'.ops) : TxInv s' := by
  obtain ⟨htx, hevents, hjobs, hautosend, habi, hpc⟩ := hsame
  refine h.byAction ?_ ⟨hautosend, habi, hpc⟩ (fun _ hnil => hjobs.trans hnil) htemplate hwriter
  rw [htx]
  apply h.holds.perm
  intro c
  rw [count_references, count_references, hevents, hjobs, hautosend, habi, hpc, hheld]

theorem TxInv.releaseTemplate {s : TxPath} {rest : List TxOp} (h : TxInv s)
    (hops : s.ops = .releaseTemplate :: rest) :
    TxInv { s with
      tx := match s.autosend.block with
        | some b => s.tx.release b
        | none => s.tx
      autosend := {}, ops := rest } := by
  have hholds := h.holds
  have htemplate := h.template
  obtain ⟨drained, hdrained, hsafe⟩ := h.writer
  rw [hops] at htemplate hsafe
  constructor
  · cases hblock : s.autosend.block with
    | none =>
      apply hholds.perm
      intro c
      simp only [count_references, hops, hblock, TxOp.held, List.flatMap_cons, List.nil_append]
    | some b =>
      apply TxBlockPool.Holds.release
      apply hholds.perm
      intro c
      simp only [List.count_cons, count_references, hops, hblock, TxOp.held, List.flatMap_cons,
        List.nil_append, Option.toList_some, Option.toList_none, List.count_nil]
      omega
  · exact htemplate
  · exact ⟨drained, hdrained, hsafe⟩
  · exact h.enabling

theorem TxInv.install {s : TxPath} {d : AutoTemplateDescriptor} {rest : List TxOp} (h : TxInv s)
    (hops : s.ops = .install d :: rest) :
    TxInv { s with autosend := ⟨d.block, d.length, d.intervalMs⟩, ops := rest } := by
  have hholds := h.holds
  have htemplate := h.template
  obtain ⟨drained, hdrained, hsafe⟩ := h.writer
  rw [hops] at htemplate hsafe
  obtain ⟨hnone, hrest⟩ := htemplate
  constructor
  · apply hholds.perm
    intro c
    simp only [count_references, hops, Option.isNone_iff_eq_none.mp hnone, TxOp.held,
      List.flatMap_cons, List.count_append, Option.toList_none, List.count_nil]
    omega
  · exact hrest.vacant _
  · exact ⟨drained, hdrained, hsafe⟩
  · exact h.enabling

theorem TxInv.startWriter {s : TxPath} {rest : List TxOp} (h : TxInv s)
    (hops : s.ops = .startWriter :: rest) (habsent : s.writer = .absent) :
    TxInv { s with jobs := [], stop := false, writer := .waiting, ops := rest } := by
  have htemplate := h.template
  obtain ⟨drained, hdrained, hsafe⟩ := h.writer
  rw [hops] at htemplate hsafe
  obtain ⟨hd, hrest⟩ := hsafe
  have hjobs := hdrained hd habsent
  constructor
  · apply h.holds.perm
    intro c
    simp only [count_references, hops, hjobs, habsent, WriterPc.held, TxOp.held,
      List.flatMap_cons, List.nil_append]
  · exact htemplate
  · exact ⟨true, nofun, hrest⟩
  · exact h.enabling

theorem TxInv.joinWriter {s : TxPath} {rest : List TxOp} (h : TxInv s)
    (hops : s.ops = .joinWriter :: rest) (hend : s.writer = .exited ∨ s.writer = .absent) :
    TxInv { s with writer := .absent, ops := rest } := by
  have htemplate := h.template
  obtain ⟨drained, -, hsafe⟩ := h.writer
  rw [hops] at htemplate hsafe
  have hheld : s.writer.held = [] := by
    rcases hend with hend | hend <;> rw [hend] <;> rfl
  constructor
  · apply h.holds.perm
    intro c
    rw [count_references, count_references, hheld, hops]
    rfl
  · exact htemplate
  · exact ⟨false, nofun, hsafe⟩
  · exact h.enabling

theorem TxInv.drainJob {s : TxPath} {rest : List TxOp} (h : TxInv s)
    (hops : s.ops = .drainJobs :: rest) : TxInv (s.drainJob rest) := by
  have htemplate := h.template
  obtain ⟨drained, -, hsafe⟩ := h.writer
  rw [hops] at htemplate hsafe
  unfold TxPath.drainJob
  split
  · rename_i hjobs
    constructor
    · apply h.holds.perm
      intro c
      simp only [count_references, hops, TxOp.held, List.flatMap_cons, List.nil_append]
    · exact htemplate
    · exact ⟨true, fun _ _ => hjobs, hsafe⟩
    · exact h.enabling
  · rename_i job jobs hjobs
    constructor
    · apply h.holds.perm
      intro c
      cases job.autoSend <;>
        simp only [count_references, hops, hjobs, TxOp.held, if_true, Bool.false_eq_true, if_false,
          List.flatMap_cons, List.nil_append, List.cons_append, List.map_cons, List.count_cons] <;>
        omega
    · cases job.autoSend <;> exact htemplate
    · refine ⟨false, nofun, ?_⟩
      cases job.autoSend <;> exact hsafe
    · exact h.enabling

theorem not_absent {s : TxPath} (h : s.canEnqueue = true) : s.writer ≠ .absent := by
  simp only [TxPath.canEnqueue, decide_eq_true_eq] at h
  exact h.1

/-- The label each operation steps with. -/
inductive OpLabel : TxOp → DispLabel → Prop
  | stopTimer : OpLabel .stopTimer .run
  | releaseTemplate : OpLabel .releaseTemplate .run
  | resetGate : OpLabel .resetGate .run
  | install (d : AutoTemplateDescriptor) : OpLabel (.install d) .run
  | startTimer (started : Bool) : OpLabel .startTimer (.start started)
  | autoLoadState (isOpen : Bool) : OpLabel .autoLoadState (.loadState isOpen)
  | autoAlloc : OpLabel .autoAlloc .run
  | autoLoadGeneration (b : Block) (g : UInt32) :
      OpLabel (.autoLoadGeneration b) (.loadGeneration g)
  | autoEnqueue (job : Job) : OpLabel (.autoEnqueue job) .run
  | autoDisarm : OpLabel .autoDisarm .run
  | userLoadGeneration (d : TxDescriptor) (g : UInt32) :
      OpLabel (.userLoadGeneration d) (.loadGeneration g)
  | userLoadState (d : TxDescriptor) (isOpen : Bool) :
      OpLabel (.userLoadState d) (.loadState isOpen)
  | userEnqueue (d : TxDescriptor) : OpLabel (.userEnqueue d) .run
  | release (b : Block) : OpLabel (.release b) .run
  | startWriter (started : Bool) : OpLabel .startWriter (.start started)
  | checkWriter : OpLabel .checkWriter .run
  | stopWriter : OpLabel .stopWriter .run
  | joinWriter : OpLabel .joinWriter .run
  | drainJobs : OpLabel .drainJobs .run
  | rearm : OpLabel .rearm .run

theorem opStep_label {s s' : TxPath} {op : TxOp} {rest : List TxOp} {l : DispLabel}
    (hs : s.opStep rest op l = some s') : OpLabel op l := by
  unfold TxPath.opStep at hs
  cases op <;> cases l <;> first | constructor | cases hs

theorem TxInv.opStep {s s' : TxPath} {op : TxOp} {rest : List TxOp} {l : DispLabel}
    (h : TxInv s) (hops : s.ops = op :: rest) (hs : s.opStep rest op l = some s') :
    TxInv s' := by
  have hholds := h.holds
  have htemplate := h.template
  rw [hops] at htemplate
  have hl := opStep_label hs
  unfold TxPath.opStep at hs
  cases hl
  case stopTimer =>
    simp only at hs
    split at hs <;> cases hs
    exact h.bySameBlocks ⟨rfl, rfl, rfl, rfl, rfl, rfl⟩ (hops ▸ fun _ => rfl) htemplate
      (hops ▸ fun _ => id)
  case releaseTemplate => cases hs; exact h.releaseTemplate hops
  case install d => cases hs; exact h.install hops
  case autoAlloc =>
    cases hs
    split
    · exact h.bySameBlocks ⟨rfl, rfl, rfl, rfl, rfl, rfl⟩ (hops ▸ fun _ => rfl) htemplate
        (hops ▸ fun _ => id)
    · split
      · rename_i b tx halloc
        refine h.byAction ((hholds.tryAlloc halloc).perm ?_) ⟨rfl, rfl, rfl⟩ (fun _ => id) htemplate
          (hops ▸ fun _ => id)
        intro c
        simp only [List.count_cons, count_references, hops, TxOp.held, List.flatMap_cons,
          List.nil_append, List.cons_append]
        omega
      · exact h.bySameBlocks ⟨rfl, rfl, rfl, rfl, rfl, rfl⟩ (hops ▸ fun _ => rfl) htemplate
          (hops ▸ fun _ => id)
  case autoLoadState isOpen =>
    cases hs
    cases isOpen <;>
    · exact h.bySameBlocks ⟨rfl, rfl, rfl, rfl, rfl, rfl⟩ (hops ▸ fun _ => rfl) htemplate
        (hops ▸ fun _ => id)
  case autoEnqueue _ | userEnqueue _ =>
    cases hs
    split
    · rename_i hcan
      refine h.byAction (hholds.perm ?_) ⟨rfl, rfl, rfl⟩ (absurd · (not_absent hcan)) htemplate
        (hops ▸ fun _ => id)
      intro c
      simp only [count_references, hops, TxOp.held, List.flatMap_cons, List.map_append,
        List.map_cons, List.map_nil, List.count_append]
      omega
    · exact h.bySameBlocks ⟨rfl, rfl, rfl, rfl, rfl, rfl⟩ (hops ▸ fun _ => rfl) htemplate
        (hops ▸ fun _ => id)
  case userLoadGeneration d _ | userLoadState d _ =>
    cases hs
    refine h.bySameBlocks ⟨rfl, rfl, rfl, rfl, rfl, rfl⟩ ?_ ?_ ?_
    · rw [hops]
      intro c
      split <;> rfl
    · split <;> exact htemplate
    · rw [hops]
      intro drained hd
      split <;> exact hd
  case release b =>
    cases hs
    refine h.byAction (TxBlockPool.Holds.release (hholds.perm ?_)) ⟨rfl, rfl, rfl⟩
      (fun _ => id) htemplate (hops ▸ fun _ => id)
    intro c
    simp only [List.count_cons, count_references, hops, TxOp.held, List.flatMap_cons,
      List.cons_append, List.nil_append]
    omega
  case startWriter started =>
    cases hs
    split
    · rename_i hstart
      exact h.startWriter hops hstart.1
    · refine h.bySameBlocks ⟨rfl, rfl, rfl, rfl, rfl, rfl⟩ (hops ▸ fun _ => rfl) htemplate ?_
      rw [hops]
      rintro drained ⟨rfl, hd⟩
      exact hd
  case checkWriter =>
    cases hs
    split
    · exact h.bySameBlocks ⟨rfl, rfl, rfl, rfl, rfl, rfl⟩ (hops ▸ fun _ => rfl) htemplate
        (hops ▸ fun _ => id)
    · rename_i hactive
      refine h.bySameBlocks ⟨rfl, rfl, rfl, rfl, rfl, rfl⟩ (hops ▸ fun _ => rfl) htemplate ?_
      rw [hops]
      intro drained hd
      exact hd.drained
  case joinWriter =>
    simp only at hs
    split at hs <;> cases hs
    exact h.joinWriter hops ‹_›
  case drainJobs => cases hs; exact h.drainJob hops
  all_goals
    cases hs
    exact h.bySameBlocks ⟨rfl, rfl, rfl, rfl, rfl, rfl⟩ (hops ▸ fun _ => rfl) htemplate
      (hops ▸ fun _ => id)

/-- A staged event that is dispatched hands its block to its action. -/
theorem count_dispatched {events : List TxEvent} {i : Nat} {event : TxEvent}
    (h : events[i]? = some event) (c : Block) :
    ((events.eraseIdx i).flatMap TxEvent.held).count c + event.held.count c =
      (events.flatMap TxEvent.held).count c := by
  obtain ⟨hi, rfl⟩ := List.getElem?_eq_some_iff.mp h
  have hperm := (List.getElem_cons_eraseIdx_perm hi).flatMap_right TxEvent.held
  have hcount := hperm.count_eq c
  rw [List.flatMap_cons, List.count_append] at hcount
  omega

theorem TxInv.dispStep {s s' : TxPath} {l : DispLabel} (h : TxInv s)
    (hs : s.dispStep l = some s') : TxInv s' := by
  have hholds := h.holds
  unfold TxPath.dispStep at hs
  split at hs
  case h_1 i hops =>
    split at hs
    · obtain ⟨event, hevent, rfl⟩ := Option.map_eq_some_iff.mp hs
      refine h.byAction (hholds.perm ?_) ⟨rfl, rfl, rfl⟩ (fun _ => id)
        (templateSafe_action _ event) ?_
      · intro c
        have hc := count_dispatched hevent c
        simp only [count_references, hops, held_action, List.flatMap_nil, List.count_nil]
        omega
      · rw [hops]
        rintro drained rfl
        exact writerSafe_action event
    · cases hs
  case h_2 hops =>
    split at hs <;> cases hs
    refine h.bySameBlocks ⟨rfl, rfl, rfl, rfl, rfl, rfl⟩ (hops ▸ fun _ => rfl) trivial ?_
    rw [hops]
    rintro drained rfl
    exact ⟨rfl, rfl⟩
  case h_3 hops =>
    split at hs <;> cases hs
    refine h.bySameBlocks ⟨rfl, rfl, rfl, rfl, rfl, rfl⟩ (hops ▸ fun _ => rfl) trivial ?_
    rw [hops]
    rintro drained rfl
    rfl
  case h_4 hops =>
    split at hs <;> cases hs
    refine h.bySameBlocks ⟨rfl, rfl, rfl, rfl, rfl, rfl⟩ (hops ▸ fun _ => rfl) trivial ?_
    rw [hops]
    rintro drained rfl
    rfl
  case h_5 => exact h.opStep ‹_› hs
  case h_6 => cases hs

theorem txInv_reach {s : TxPath} (h : Transition.Reach txMachine s) : TxInv s := by
  apply h.invariant
  · constructor
    · exact TxBlockPool.holds_init
    · trivial
    · exact ⟨true, fun _ _ => rfl, rfl⟩
    · nofun
  intro s l s' hinv _ hs
  cases l with
  | abi l => exact hinv.abiStep hs
  | disp l => exact hinv.dispStep hs
  | timer l => exact hinv.timerStep hs
  | writer l => exact hinv.writerStep hs

/-! ## What follows for the blocks -/

/-- No event is staged, no thread is at work on a block and no template is kept. -/
def TxPath.Settled (s : TxPath) : Prop :=
  s.events = [] ∧ s.ops = [] ∧ s.abi = .idle ∧ s.jobs = [] ∧ s.writer.held = [] ∧
    s.autosend.block = none

instance (s : TxPath) : Decidable s.Settled := inferInstanceAs (Decidable (_ ∧ _))

/-- Each acquired block has one reference until its one release. -/
structure TxPath.Owned (s : TxPath) : Prop where
  once : ∀ b, s.tx.acquired.count b = s.tx.released.count b + s.references.count b
  single : ∀ b, s.references.count b ≤ 1
  free : ∀ b ∈ s.tx.blocks.free,
    b ∉ s.queued ∧ b ∉ s.writer.held ∧ s.autosend.block ≠ some b
  settled : s.Settled → ∀ b, s.tx.acquired.count b = s.tx.released.count b

/-- Labels of the Dispatcher. -/
def onDispatcher (ls : List DispLabel) : List Label := ls.map .disp

/-- The session writer is started by an open. -/
def openRun : List Label := onDispatcher [.ownerOpen, .start true]

/-- `xcom_send` of an open session, up to its staged event. -/
def sendRun (size generation : UInt32) : List Label :=
  [.abi (.send false size), .abi (.loadState true), .abi .run,
    .abi (.loadGeneration generation), .abi (.submit true)]

/-- The session writer writes one manual job. -/
def writeRun (generation : UInt32) : List Label :=
  [.writer .wake, .writer .run, .writer (.loadGeneration generation), .writer (.loadState true),
    .writer .written, .writer .run]

end Xcom.Tx
