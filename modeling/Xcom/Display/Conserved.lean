import Xcom.Display.Buffers
import Xcom.Display.Core
import Xcom.Transition.Simulation

/-!
# The display path keeps its buffers

The display path counts its batches and the lane knows each by its buffer.  Every step
of the core is a step of the lane or none of its business, so the counts are those of a
reachable lane.
-/

namespace Xcom.Display

/-- The consumer is inside `drain_into`. -/
def ConsumerPc.draining : ConsumerPc → Bool
  | .checkActive _ _ | .popReady _ _ | .releaseStale _ _ | .copy _ _ | .releaseDrained => true
  | _ => false

/-- The drain of the lane stands where the consumer of the path does. -/
def DrainPc.Stands : DrainPc → ConsumerPc → Prop
  | .idle, pc => pc.draining = false
  | .checkActive capacity g, pc => pc = .checkActive capacity g
  | .popReady capacity g, pc => pc = .popReady capacity g
  | .releaseStale capacity g _, pc => pc = .releaseStale capacity g
  | .copy capacity g, pc => pc = .copy capacity g
  | .releaseDrained _, pc => pc = .releaseDrained

/-- The lane holds the batches of the path. -/
structure Occupies (p : Path) (s : DisplayLane) : Prop where
  free : s.buffers.free.length = p.free
  hand : s.hand.length = p.kick.batches
  ready : s.ready.map (·.batch) = p.ready
  active : s.active.map (fun a => (a.1.batch, a.2)) = p.active
  drain : s.drain.Stands p.consumer
  resetting : s.resetting = none
  asked : p.consumer ≠ .loadGeneration 0

/-- A step of the path that no operation of the lane is behind. -/
theorem Occupies.frame {p p' : Path} {s : DisplayLane} (h : Occupies p s)
    (hfree : p'.free = p.free) (hhand : p'.kick.batches = p.kick.batches)
    (hready : p'.ready = p.ready) (hactive : p'.active = p.active)
    (hdrain : p'.consumer = p.consumer ∨ p.consumer.draining = false ∧
      p'.consumer.draining = false ∧ p'.consumer ≠ .loadGeneration 0) : Occupies p' s where
  free := hfree ▸ h.free
  hand := hhand ▸ h.hand
  ready := hready ▸ h.ready
  active := hactive ▸ h.active
  drain := by
    have hd := h.drain
    rcases hdrain with heq | ⟨hout, hout', -⟩
    · exact heq ▸ hd
    · cases hs : s.drain <;> rw [hs] at hd
      case idle => exact hout'
      all_goals
        rw [show p.consumer = _ from hd] at hout
        cases hout
  resetting := h.resetting
  asked := by
    rcases hdrain with heq | ⟨-, -, hne⟩
    · exact heq ▸ h.asked
    · exact hne

theorem hand_singleton {s : DisplayLane} (h : s.hand.length = 1) : ∃ buf, s.hand = [buf] :=
  List.length_eq_one_iff.mp h

theorem Occupies.purge {p p' : Path} {s : DisplayLane} (h : Occupies p s)
    (hp : p.purge = some p') : ∃ s', Transition.Steps laneMachine s s' ∧ Occupies p' s' := by
  unfold Path.purge at hp
  split at hp
  · cases hp
  · rename_i b ready hready
    cases hp
    obtain ⟨slot, slots, hslots, rfl, rfl⟩ := List.map_eq_cons_iff.mp (h.ready.trans hready)
    let popped : DisplayLane := { s with ready := slots, resetting := some slot.buf }
    have hpop : laneMachine.step s .resetPop = some popped := by
      simp [laneMachine, DisplayLane.step, DisplayLane.resetPop, h.resetting, hslots, popped]
    have hrelease : laneMachine.step popped .resetRelease =
        some { popped with buffers := s.buffers.release slot.buf, resetting := none } := rfl
    refine ⟨_, Relation.ReflTransGen.tail (.single ⟨_, hpop⟩) ⟨_, hrelease⟩, ?_⟩
    constructor
    · exact congrArg Nat.succ h.free
    · exact h.hand
    · rfl
    · exact h.active
    · exact h.drain
    · rfl
    · exact h.asked

theorem Occupies.kick {env : Env} {p p' : Path} {l : KickLabel} {s : DisplayLane}
    (h : Occupies p s) (hinv : LaneInv s) (hk : KickStep env p l p') :
    ∃ s', Transition.Steps laneMachine s s' ∧ Occupies p' s' := by
  have hhand := h.hand
  cases hk with
  | acquire n d hpc hf =>
    rw [hpc] at hhand
    cases hfree : s.buffers.free with
    | nil =>
      exact absurd (h.free.symm.trans (by rw [hfree]; rfl)) hf
    | cons buf free =>
      have hstep : laneMachine.step s .tryAcquire =
          some { s with buffers := ⟨free⟩, hand := buf :: s.hand } := by
        simp [laneMachine, DisplayLane.step, DisplayLane.tryAcquire, FixedPool.allocate, hfree]
      refine ⟨_, .single ⟨_, hstep⟩, { h with free := ?_, hand := ?_ }⟩
      · show free.length = p.free - 1
        rw [← h.free, hfree]
        rfl
      · exact congrArg Nat.succ hhand
  | discard n d hpc =>
    rw [hpc] at hhand
    obtain ⟨buf, hbuf⟩ := hand_singleton hhand
    have hstep : laneMachine.step s (.releaseBuf buf) = some (s.releaseBuf buf) := by
      simp [laneMachine, DisplayLane.step, hbuf]
    refine ⟨_, .single ⟨_, hstep⟩, { h with free := congrArg Nat.succ h.free, hand := ?_ }⟩
    simp [DisplayLane.releaseBuf, hbuf, KickPc.batches]
  | push n d text hpc hr =>
    rw [hpc] at hhand
    obtain ⟨buf, hbuf⟩ := hand_singleton hhand
    have hroom : s.ready.length < kDisplayBatchCount := by
      rw [← List.length_map, h.ready]
      exact hr
    have hstep : laneMachine.step s (.pushReady buf (.push d text env.generation)) =
        some { s with
          hand := s.hand.erase buf, ready := s.ready ++ [⟨buf, .push d text env.generation⟩] } := by
      simp [laneMachine, DisplayLane.step, DisplayLane.pushReady, hbuf, hroom]
    refine ⟨_, .single ⟨_, hstep⟩, { h with hand := ?_, ready := ?_ }⟩
    · simp [hbuf, KickPc.batches]
    · simp [h.ready]
  | pushFull n d text hpc hr =>
    rw [hpc] at hhand
    have hroom := hinv.ready_room (List.ne_nil_of_length_eq_add_one hhand)
    rw [← List.length_map, h.ready] at hroom
    omega
  | _ =>
    refine ⟨s, .refl, h.frame rfl ?_ rfl rfl (.inl rfl)⟩
    simp_all [KickPc.batches]

/-- Where the consumer of the path is inside `drain_into`, the drain of the lane is too. -/
theorem DrainPc.Stands.eq {d : DrainPc} {pc : ConsumerPc} (h : d.Stands pc) :
    (∀ capacity g, pc = .checkActive capacity g → d = .checkActive capacity g) ∧
    (∀ capacity g, pc = .popReady capacity g → d = .popReady capacity g) ∧
    (∀ capacity g, pc = .releaseStale capacity g → ∃ buf, d = .releaseStale capacity g buf) ∧
    (∀ capacity g, pc = .copy capacity g → d = .copy capacity g) ∧
    (pc = .releaseDrained → ∃ buf, d = .releaseDrained buf) ∧
    (pc.draining = false → d = .idle) := by
  cases d <;> cases pc <;> simp_all [DrainPc.Stands, ConsumerPc.draining]

/-- The batch that is active is so on both sides. -/
theorem Occupies.slot {p : Path} {s : DisplayLane} {b : Batch} {offset : Nat}
    (h : Occupies p s) (ha : p.active = some (b, offset)) :
    ∃ slot, s.active = some (slot, offset) ∧ slot.batch = b := by
  obtain ⟨⟨slot, offset'⟩, hs, heq⟩ := Option.map_eq_some_iff.mp (h.active.trans ha)
  cases heq
  exact ⟨slot, hs, rfl⟩

theorem Occupies.none_active {p : Path} {s : DisplayLane} (h : Occupies p s)
    (ha : p.active = none) : s.active = none :=
  Option.map_eq_none_iff.mp (h.active.trans ha)

/-- The end of `drain_into` is the same on both sides. -/
theorem Occupies.copyOut {env : Env} {p p' : Path} {s : DisplayLane} {capacity : Nat}
    {g : UInt32} (h : Occupies p s) (hpc : p.consumer = .copy capacity g)
    (hc : p.consumerStep env .run = some p') :
    ∃ s', Transition.Steps laneMachine s s' ∧ Occupies p' s' := by
  have hdrain := h.drain.eq.2.2.2.1 capacity g hpc
  simp only [Path.consumerStep, hpc] at hc
  obtain ⟨⟨b, offset⟩, ha, rfl⟩ := Option.map_eq_some_iff.mp hc
  obtain ⟨slot, hs, rfl⟩ := h.slot ha
  have hstep : laneMachine.step s .run = some (s.copyOut capacity slot offset) := by
    simp [laneMachine, DisplayLane.step, DisplayLane.drainStep, hdrain, hs]
  refine ⟨_, .single ⟨_, hstep⟩, ?_⟩
  have hcount : ((slot.batch.text.drop offset).take capacity).length =
      min capacity (slot.batch.text.length - offset) := by
    rw [List.length_take, List.length_drop]
  unfold DisplayLane.copyOut Path.copyOut
  simp only [hcount]
  split
  · exact { h with active := rfl, drain := rfl, asked := nofun }
  · exact { h with active := rfl, drain := rfl, asked := nofun }

theorem Occupies.consumer {env : Env} {p p' : Path} {l : ConsumerLabel} {s : DisplayLane}
    (h : Occupies p s) (hc : p.consumerStep env l = some p') :
    ∃ s', Transition.Steps laneMachine s s' ∧ Occupies p' s' := by
  obtain ⟨hcheck, hpop, hstale, -, hdrained, hout⟩ := h.drain.eq
  cases consumerStep_cases hc with
  | drainCall capacity hpc =>
    refine ⟨s, .refl, h.frame rfl rfl rfl rfl (.inr ⟨by rw [hpc]; rfl, rfl, ?_⟩)⟩
    rintro heq
    cases heq
    simp only [Path.consumerStep, hpc, if_true, Option.some.injEq] at hc
    have hidle := congrArg Path.consumer hc
    cases hpc.symm.trans hidle
  | loadGeneration capacity hpc =>
    have hidle := hout (by rw [hpc]; rfl)
    have hasked : capacity ≠ 0 := by
      rintro rfl
      exact h.asked hpc
    have hstep : laneMachine.step s (.drainInto capacity env.generation) =
        some { s with drain := .checkActive capacity env.generation } := by
      simp [laneMachine, DisplayLane.step, hidle, hasked]
    exact ⟨_, .single ⟨_, hstep⟩, { h with drain := rfl, asked := nofun }⟩
  | dropActive capacity g b offset hpc ha hg =>
    obtain ⟨slot, hs, rfl⟩ := h.slot ha
    have hstep : laneMachine.step s .run = some { s with
        active := none, buffers := s.buffers.release slot.buf, drain := .popReady capacity g } := by
      simp [laneMachine, DisplayLane.step, DisplayLane.drainStep, hcheck _ _ hpc, hs, hg]
    exact ⟨_, .single ⟨_, hstep⟩, { h with
      free := congrArg Nat.succ h.free, active := rfl, drain := rfl, asked := nofun }⟩
  | keepActive capacity g b offset hpc ha hg =>
    obtain ⟨slot, hs, rfl⟩ := h.slot ha
    have hstep : laneMachine.step s .run = some { s with drain := .copy capacity g } := by
      simp [laneMachine, DisplayLane.step, DisplayLane.drainStep, hcheck _ _ hpc, hs, hg]
    exact ⟨_, .single ⟨_, hstep⟩, { h with drain := rfl, asked := nofun }⟩
  | noActive capacity g hpc ha =>
    have hs := h.none_active ha
    have hstep : laneMachine.step s .run = some { s with drain := .popReady capacity g } := by
      simp [laneMachine, DisplayLane.step, DisplayLane.drainStep, hcheck _ _ hpc, hs]
    exact ⟨_, .single ⟨_, hstep⟩, { h with drain := rfl, asked := nofun }⟩
  | nothing capacity g hpc hr =>
    have hs := List.map_eq_nil_iff.mp (h.ready.trans hr)
    have hstep : laneMachine.step s .run = some { s with drain := .idle } := by
      simp [laneMachine, DisplayLane.step, DisplayLane.drainStep, hpop _ _ hpc, hs]
    exact ⟨_, .single ⟨_, hstep⟩, { h with drain := rfl, asked := nofun }⟩
  | popReady capacity g b ready hpc hr hg =>
    obtain ⟨slot, slots, hs, rfl, rfl⟩ := List.map_eq_cons_iff.mp (h.ready.trans hr)
    have hstep : laneMachine.step s .run = some { s with
        ready := slots, active := some (slot, 0), drain := .copy capacity g } := by
      simp [laneMachine, DisplayLane.step, DisplayLane.drainStep, hpop _ _ hpc, hs, hg]
    exact ⟨_, .single ⟨_, hstep⟩, { h with
      ready := rfl, active := rfl, drain := rfl, asked := nofun }⟩
  | popStale capacity g b ready hpc hr hg =>
    obtain ⟨slot, slots, hs, rfl, rfl⟩ := List.map_eq_cons_iff.mp (h.ready.trans hr)
    have hstep : laneMachine.step s .run = some { s with
        ready := slots, drain := .releaseStale capacity g slot.buf } := by
      simp [laneMachine, DisplayLane.step, DisplayLane.drainStep, hpop _ _ hpc, hs, hg]
    exact ⟨_, .single ⟨_, hstep⟩, { h with ready := rfl, drain := rfl, asked := nofun }⟩
  | releaseStale capacity g hpc =>
    obtain ⟨buf, hs⟩ := hstale _ _ hpc
    have hstep : laneMachine.step s .run = some { s with
        buffers := s.buffers.release buf, drain := .popReady capacity g } := by
      simp [laneMachine, DisplayLane.step, DisplayLane.drainStep, hs]
    exact ⟨_, .single ⟨_, hstep⟩, { h with
      free := congrArg Nat.succ h.free, drain := rfl, asked := nofun }⟩
  | copyLast capacity g b offset chunk hpc ha => exact h.copyOut hpc hc
  | copyPart capacity g b offset offset' chunk hpc ha => exact h.copyOut hpc hc
  | releaseDrained hpc =>
    obtain ⟨buf, hs⟩ := hdrained hpc
    have hstep : laneMachine.step s .run = some { s with
        buffers := s.buffers.release buf, drain := .idle } := by
      simp [laneMachine, DisplayLane.step, DisplayLane.drainStep, hs]
    exact ⟨_, .single ⟨_, hstep⟩, { h with
      free := congrArg Nat.succ h.free, drain := rfl, asked := nofun }⟩
  | storePause o resume hpc =>
    refine ⟨s, .refl, h.frame rfl rfl rfl rfl (.inr ⟨by rw [hpc]; rfl, ?_⟩)⟩
    cases resume <;> simp [ConsumerPc.draining]
  | returned => exact ⟨s, .refl, h⟩
  | _ =>
    refine ⟨s, .refl, h.frame rfl rfl rfl rfl (.inr ?_)⟩
    simp_all [ConsumerPc.draining]

theorem occupies_simulation :
    Transition.Simulation coreMachine laneMachine (fun c s => Occupies c.path s) where
  init := ⟨rfl, rfl, rfl, rfl, rfl, rfl, nofun⟩
  step := by
    intro c l c' s _ hs h hstep
    cases coreStep_cases hstep with
    | session l path world ho heffect hw =>
      refine ⟨s, .refl, ?_⟩
      cases heffect with
      | none => exact h
      | releaseDeferred =>
        unfold Path.releaseDeferred
        split
        · exact h
        · split <;> exact h.frame rfl rfl rfl rfl (.inl rfl)
      | commitReset ha hr => exact h.frame rfl rfl rfl rfl (.inl rfl)
    | purge b ready ha hr =>
      apply h.purge
      rw [Path.purge, hr]
    | reader l path hw hmove =>
      refine ⟨s, .refl, ?_⟩
      cases hmove <;> exact h.frame rfl rfl rfl rfl (.inl rfl)
    | kick l path hw hmove => exact h.kick (laneInv_reach hs) hmove
    | consumer l path hw hmove =>
      obtain ⟨-, hmap⟩ := Option.ite_none_right_eq_some.mp hstep
      obtain ⟨path, hpath, heq⟩ := Option.map_eq_some_iff.mp hmap
      cases heq
      exact h.consumer hpath

/-- The display path of every reachable core is that of a reachable lane. -/
theorem occupies_reach {c : Core} (h : Transition.Reach coreMachine c) :
    ∃ s, LaneInv s ∧ Occupies c.path s := by
  obtain ⟨s, hs, hocc⟩ := occupies_simulation.reach h
  exact ⟨s, laneInv_reach hs, hocc⟩

/-- Each buffer has one place, and none is handed out that is not free. -/
structure DisplayLane.Conserved (s : DisplayLane) : Prop where
  places : ∀ buf, s.buffers.free.count buf + s.held.count buf = 1
  fresh : ∀ s', s.tryAcquire = some s' → ∃ buf, buf ∉ s.held ∧ s'.hand = buf :: s.hand
  pushes : ∀ buf ∈ s.hand, ∀ batch, s.pushReady buf batch ≠ none

theorem LaneInv.isConserved {s : DisplayLane} (h : LaneInv s) : s.Conserved where
  places buf := by
    have hcount := h.conserved.count_eq buf
    rw [List.count_append, List.count_finRange] at hcount
    omega
  fresh s' hs := by
    obtain ⟨⟨buf, buffers⟩, ha, rfl⟩ := Option.map_eq_some_iff.mp hs
    refine ⟨buf, ?_, rfl⟩
    have hnodup := (h.conserved.allocate ha).nodup
    exact (List.nodup_cons.mp hnodup).1
  pushes buf hmem batch := by
    unfold DisplayLane.pushReady
    rw [if_pos (h.ready_room (List.ne_nil_of_mem hmem))]
    simp

/-- Every buffer of the lane is in one place in every run, a push of an acquired buffer
does not fail, and `rx_kick_action` defers no block it has formatted. -/
theorem buffers_conserved :
    (∀ s, Transition.Reach laneMachine s → s.Conserved) ∧
    ∀ c c', Transition.Reach coreMachine c → ∀ n d text, c.path.kick = .push n d text →
      c.step (.path (.kick .run)) = some c' → c'.path.kick = .countPending n := by
  constructor
  · intro s hs
    exact (laneInv_reach hs).isConserved
  · intro c c' hc n d text hpc hstep
    obtain ⟨s, hs, hocc⟩ := occupies_reach hc
    have hroom : c.path.ready.length < kDisplayBatchCount := by
      have hhand := hocc.hand
      rw [hpc] at hhand
      rw [← hocc.ready, List.length_map]
      exact hs.ready_room (List.ne_nil_of_length_eq_add_one hhand)
    cases coreStep_cases hstep with
    | kick l path hw hk =>
      cases hk with
      | push n' d' text' hpc' hr =>
        cases hpc.symm.trans hpc'
        rfl
      | pushFull n' d' text' hpc' hr => omega
      | _ => simp_all

end Xcom.Display
