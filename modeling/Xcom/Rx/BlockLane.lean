import Xcom.Display.Lane
import Xcom.Foundation.EventPool
import Xcom.Transition.Machine

/-!
# The RX block lane

`RxBlockLane`: a pool of counted blocks and the two rings that hand each received
segment to the Dispatcher and to the LogWriter.  The read thread claims and publishes,
each consumer pops and releases in its own time, and a teardown drains either ring.
-/

namespace Xcom.Rx

open Display (kFileBackedLenMask kDisplayUnloggedBit)

/-- `kRxBlockCount`. -/
def kRxBlockCount : Nat := 128

/-- `kRxRawReserveBlocks`. -/
def kRxRawReserveBlocks : Nat := 96

/-- An RX block. -/
abbrev Block := Fin kRxBlockCount

/-- `RxBlockRef`. -/
structure RxBlockRef where
  event : Block
  len : UInt16
  gen : UInt16
  ingressMs : UInt32
  deriving DecidableEq, Repr

/-- Where the read thread stands between `try_alloc` and the end of `publish`. -/
inductive ProducerPc
  | idle
  | claimed (event : Block) (fileLane displayOk : Bool)
  | pushRaw (ref : RxBlockRef) (displayOk : Bool)
  | pushDisplay (ref : RxBlockRef) (fileLane : Bool)
  deriving DecidableEq, Repr

/-- Who pops a ring and releases what it has popped. -/
inductive Consumer
  | dispatcher
  | logWriter
  | teardown
  deriving DecidableEq, Repr

/-- The lane with what each consumer has popped and not released. -/
structure RxBlockLane where
  pool : EventPool kRxBlockCount := {}
  producer : ProducerPc := .idle
  displayReady : List RxBlockRef := []
  rawReady : List RxBlockRef := []
  popped : Consumer → List RxBlockRef := fun _ => []

/-- What a party does next.  `event` is the block the pool answers with. -/
inductive LaneLabel
  | tryAlloc (fileLane : Bool) (event : Block)
  | publish (len gen : UInt16) (ingressMs : UInt32)
  | push
  | popDisplay (consumer : Consumer)
  | popRaw (consumer : Consumer)
  | release (consumer : Consumer) (ref : RxBlockRef)
  deriving DecidableEq, Repr

namespace RxBlockLane

/-- `try_alloc`. -/
def tryAlloc (s : RxBlockLane) (fileLane : Bool) (event : Block) : RxBlockLane :=
  match s.pool.allocWithMargin (if fileLane then kRxRawReserveBlocks else 0) event with
  | some pool => { s with pool := pool, producer := .claimed event fileLane true }
  | none =>
    if ¬ fileLane then s
    else match s.pool.alloc event with
      | some pool => { s with pool := pool, producer := .claimed event fileLane false }
      | none => s

/-- The head of `publish`: the reference of a second lane. -/
def publish (s : RxBlockLane) (ref : RxBlockRef) (fileLane displayOk : Bool) : RxBlockLane :=
  { s with
    pool := if fileLane ∧ displayOk then s.pool.refInc ref.event else s.pool
    producer :=
      if fileLane then .pushRaw ref displayOk
      else if displayOk then .pushDisplay ref fileLane else .idle }

/-- The copy of a descriptor that goes to the display ring. -/
def displayCopy (ref : RxBlockRef) (fileLane : Bool) : RxBlockRef :=
  { ref with
    len := (ref.len &&& kFileBackedLenMask) ||| (if fileLane then 0 else kDisplayUnloggedBit) }

/-- Hands a popped descriptor to its consumer. -/
def take (s : RxBlockLane) (consumer : Consumer) (ref : RxBlockRef) : RxBlockLane :=
  { s with popped := Function.update s.popped consumer (ref :: s.popped consumer) }

/-- One step of the lane.  A push onto a full ring is an assertion failure and has no
step. -/
def step (s : RxBlockLane) : LaneLabel → Option RxBlockLane
  | .tryAlloc fileLane event =>
    if s.producer = .idle ∧ s.pool.Serves event then some (s.tryAlloc fileLane event) else none
  | .publish len gen ingressMs =>
    match s.producer with
    | .claimed event fileLane displayOk =>
      some (s.publish ⟨event, len, gen, ingressMs⟩ fileLane displayOk)
    | _ => none
  | .push =>
    match s.producer with
    | .pushRaw ref displayOk =>
      if s.rawReady.length < kRxBlockCount then
        some { s with
          rawReady := s.rawReady ++ [ref]
          producer := if displayOk then .pushDisplay ref true else .idle }
      else none
    | .pushDisplay ref fileLane =>
      if s.displayReady.length < kRxBlockCount then
        some { s with
          displayReady := s.displayReady ++ [displayCopy ref fileLane], producer := .idle }
      else none
    | _ => none
  | .popDisplay consumer =>
    if consumer = .logWriter then none
    else some (match s.displayReady with
      | [] => s
      | ref :: displayReady => { s.take consumer ref with displayReady := displayReady })
  | .popRaw consumer =>
    if consumer = .dispatcher then none
    else some (match s.rawReady with
      | [] => s
      | ref :: rawReady => { s.take consumer ref with rawReady := rawReady })
  | .release consumer ref =>
    if ref ∈ s.popped consumer then
      some { s with
        pool := s.pool.gc ref.event
        popped := Function.update s.popped consumer ((s.popped consumer).erase ref) }
    else none

end RxBlockLane

/-- The RX block lane of a handle. -/
def blockLaneMachine : Transition.Machine RxBlockLane LaneLabel where
  init := {}
  step := RxBlockLane.step

/-! ## Who holds the blocks -/

/-- The references the read thread has not handed on. -/
def ProducerPc.held : ProducerPc → List Block
  | .idle => []
  | .claimed event _ _ => [event]
  | .pushRaw ref displayOk => if displayOk then [ref.event, ref.event] else [ref.event]
  | .pushDisplay ref _ => [ref.event]

/-- The block that is still to be pushed onto the raw ring. -/
def ProducerPc.forRaw : ProducerPc → List Block
  | .claimed event fileLane _ => if fileLane then [event] else []
  | .pushRaw ref _ => [ref.event]
  | _ => []

/-- The block that is still to be pushed onto the display ring. -/
def ProducerPc.forDisplay : ProducerPc → List Block
  | .claimed event _ displayOk => if displayOk then [event] else []
  | .pushRaw ref displayOk => if displayOk then [ref.event] else []
  | .pushDisplay ref _ => [ref.event]
  | .idle => []

namespace RxBlockLane

/-- The blocks of the descriptors that have been popped and not released. -/
def poppedBlocks (s : RxBlockLane) : List Block :=
  (s.popped .dispatcher ++ s.popped .logWriter ++ s.popped .teardown).map (·.event)

/-- The holders of references, each by the block it refers to. -/
def holders (s : RxBlockLane) : List Block :=
  s.producer.held ++ s.rawReady.map (·.event) ++ s.displayReady.map (·.event) ++ s.poppedBlocks

/-- A claim serves a lane. -/
def ClaimServes (s : RxBlockLane) : Prop :=
  ∀ event, s.producer ≠ .claimed event false false

end RxBlockLane

/-- Every reference has a holder, and no block is on a ring twice. -/
structure BlockLaneInv (s : RxBlockLane) : Prop where
  counts : s.pool.Counts s.holders
  raw : (s.producer.forRaw ++ s.rawReady.map (·.event)).Nodup
  display : (s.producer.forDisplay ++ s.displayReady.map (·.event)).Nodup
  serves : s.ClaimServes

theorem count_poppedBlocks_take (s : RxBlockLane) (consumer : Consumer) (ref : RxBlockRef)
    (b : Block) : (s.take consumer ref).poppedBlocks.count b =
      s.poppedBlocks.count b + [ref.event].count b := by
  cases consumer <;>
    simp only [RxBlockLane.poppedBlocks, RxBlockLane.take, Function.update_self,
      Function.update_of_ne, ne_eq, reduceCtorEq, not_false_eq_true, List.map_append,
      List.count_append, List.map_cons, List.count_cons, List.count_nil] <;>
    omega

theorem count_poppedBlocks_erase {s : RxBlockLane} {consumer : Consumer} {ref : RxBlockRef}
    (hmem : ref ∈ s.popped consumer) (pool : EventPool kRxBlockCount) (b : Block) :
    (ref.event :: RxBlockLane.poppedBlocks { s with
      pool := pool, popped := Function.update s.popped consumer ((s.popped consumer).erase ref)
      }).count b = s.poppedBlocks.count b := by
  have herase := ((List.perm_cons_erase hmem).map (·.event)).count_eq b
  cases consumer <;>
    simp only [RxBlockLane.poppedBlocks, Function.update_self, Function.update_of_ne, ne_eq,
      reduceCtorEq, not_false_eq_true, List.map_append, List.count_append, List.map_cons,
      List.count_cons] at herase ⊢ <;>
    omega

theorem BlockLaneInv.tryAlloc {s : RxBlockLane} {fileLane : Bool} {event : Block}
    (h : BlockLaneInv s) (hidle : s.producer = .idle) (hserves : s.pool.Serves event) :
    BlockLaneInv (s.tryAlloc fileLane event) := by
  have hclaim : ∀ pool margin displayOk, s.pool.allocWithMargin margin event = some pool →
      (fileLane || displayOk) →
      BlockLaneInv { s with pool := pool, producer := .claimed event fileLane displayOk } := by
    intro pool margin displayOk halloc hlane
    obtain ⟨hfree, rfl⟩ := EventPool.allocWithMargin_some hserves halloc
    have hnone := (h.counts.free_iff event).mp hfree
    simp only [RxBlockLane.holders, hidle, ProducerPc.held, List.nil_append, List.mem_append,
      not_or] at hnone
    obtain ⟨⟨hraw, hdisplay⟩, -⟩ := hnone
    have hrawNodup := h.raw
    have hdisplayNodup := h.display
    rw [hidle] at hrawNodup hdisplayNodup
    constructor
    · have hcounts := h.counts.claim hfree
      rw [RxBlockLane.holders, hidle] at hcounts
      exact hcounts
    · cases fileLane
      · exact hrawNodup
      · exact List.nodup_cons.mpr ⟨hraw, hrawNodup⟩
    · cases displayOk
      · exact hdisplayNodup
      · exact List.nodup_cons.mpr ⟨hdisplay, hdisplayNodup⟩
    · rintro b heq
      cases heq
      cases hlane
  unfold RxBlockLane.tryAlloc
  split
  · exact hclaim _ _ _ ‹_› (by simp)
  · split
    · exact h
    · rename_i hfile
      split
      · exact hclaim _ _ _ ‹_› (by simpa using hfile)
      · exact h

theorem BlockLaneInv.publish {s : RxBlockLane} {ref : RxBlockRef} {fileLane displayOk : Bool}
    (h : BlockLaneInv s) (hpc : s.producer = .claimed ref.event fileLane displayOk) :
    BlockLaneInv (s.publish ref fileLane displayOk) := by
  have hcounts := h.counts
  have hraw := h.raw
  have hdisplay := h.display
  have hserves := h.serves ref.event
  simp only [RxBlockLane.holders, hpc, ProducerPc.held] at hcounts
  rw [hpc] at hraw hdisplay hserves
  unfold RxBlockLane.publish
  cases fileLane <;> cases displayOk
  · exact absurd rfl hserves
  · exact ⟨hcounts, hraw, hdisplay, nofun⟩
  · exact ⟨hcounts, hraw, hdisplay, nofun⟩
  · exact ⟨hcounts.refInc ref.event, hraw, hdisplay, nofun⟩

theorem BlockLaneInv.pushRaw {s : RxBlockLane} {ref : RxBlockRef} {displayOk : Bool}
    (h : BlockLaneInv s) (hpc : s.producer = .pushRaw ref displayOk) :
    BlockLaneInv { s with
      rawReady := s.rawReady ++ [ref]
      producer := if displayOk then .pushDisplay ref true else .idle } := by
  have hcounts := h.counts
  have hraw := h.raw
  have hdisplay := h.display
  simp only [RxBlockLane.holders, hpc, ProducerPc.held] at hcounts
  rw [hpc] at hraw hdisplay
  constructor
  · apply hcounts.perm
    intro b
    cases displayOk <;>
      simp only [RxBlockLane.holders, RxBlockLane.poppedBlocks, ProducerPc.held, if_true,
        Bool.false_eq_true, if_false, List.map_append, List.map_cons, List.map_nil,
        List.count_append, List.count_cons, List.count_nil] <;>
      omega
  · have hperm : ((s.rawReady ++ [ref]).map (·.event)).Perm
        (ref.event :: s.rawReady.map (·.event)) := by
      rw [List.map_append]
      exact List.perm_append_singleton _ _
    cases displayOk <;> exact hperm.nodup_iff.mpr hraw
  · cases displayOk <;> exact hdisplay
  · cases displayOk <;> nofun

theorem BlockLaneInv.pushDisplay {s : RxBlockLane} {ref : RxBlockRef} {fileLane : Bool}
    (h : BlockLaneInv s) (hpc : s.producer = .pushDisplay ref fileLane) :
    BlockLaneInv { s with
      displayReady := s.displayReady ++ [RxBlockLane.displayCopy ref fileLane]
      producer := .idle } := by
  have hcounts := h.counts
  have hraw := h.raw
  have hdisplay := h.display
  simp only [RxBlockLane.holders, hpc, ProducerPc.held] at hcounts
  rw [hpc] at hraw hdisplay
  constructor
  · apply hcounts.perm
    intro b
    simp only [RxBlockLane.holders, RxBlockLane.poppedBlocks, ProducerPc.held,
      RxBlockLane.displayCopy, List.map_append, List.map_cons, List.map_nil, List.count_append,
      List.count_cons, List.count_nil]
    omega
  · exact hraw
  · have hperm : ((s.displayReady ++ [RxBlockLane.displayCopy ref fileLane]).map
        (·.event)).Perm (ref.event :: s.displayReady.map (·.event)) := by
      rw [List.map_append]
      exact List.perm_append_singleton _ _
    exact hperm.nodup_iff.mpr hdisplay
  · nofun

/-- A block that leaves a ring is held by its consumer. -/
theorem BlockLaneInv.counts_take {s : RxBlockLane} (h : BlockLaneInv s) {ref : RxBlockRef}
    {raw display : List RxBlockRef} (consumer : Consumer)
    (hpop : (s.rawReady.map (·.event) ++ s.displayReady.map (·.event)).Perm
      (ref.event :: (raw.map (·.event) ++ display.map (·.event)))) :
    s.pool.Counts (RxBlockLane.holders { s.take consumer ref with
      rawReady := raw, displayReady := display }) := by
  apply h.counts.perm
  intro b
  have htake := count_poppedBlocks_take s consumer ref b
  have hcount := hpop.count_eq b
  simp only [RxBlockLane.holders, List.count_append, List.count_cons, List.count_nil]
    at htake hcount ⊢
  simp only [RxBlockLane.poppedBlocks, RxBlockLane.take] at htake ⊢
  omega

theorem BlockLaneInv.popDisplay {s : RxBlockLane} {ref : RxBlockRef} {rest : List RxBlockRef}
    (h : BlockLaneInv s) (hr : s.displayReady = ref :: rest) (consumer : Consumer) :
    BlockLaneInv { s.take consumer ref with displayReady := rest } := by
  have hdisplay := h.display
  rw [hr, List.map_cons] at hdisplay
  constructor
  · apply h.counts_take consumer
    rw [hr, List.map_cons]
    exact List.perm_middle
  · exact h.raw
  · exact hdisplay.sublist (List.Sublist.append_left (List.sublist_cons_self _ _) _)
  · exact h.serves

theorem BlockLaneInv.popRaw {s : RxBlockLane} {ref : RxBlockRef} {rest : List RxBlockRef}
    (h : BlockLaneInv s) (hr : s.rawReady = ref :: rest) (consumer : Consumer) :
    BlockLaneInv { s.take consumer ref with rawReady := rest } := by
  have hraw := h.raw
  rw [hr, List.map_cons] at hraw
  constructor
  · apply h.counts_take consumer
    rw [hr, List.map_cons]
    exact List.Perm.refl _
  · exact hraw.sublist (List.Sublist.append_left (List.sublist_cons_self _ _) _)
  · exact h.display
  · exact h.serves

theorem BlockLaneInv.release {s : RxBlockLane} {consumer : Consumer} {ref : RxBlockRef}
    (h : BlockLaneInv s) (hmem : ref ∈ s.popped consumer) :
    BlockLaneInv { s with
      pool := s.pool.gc ref.event
      popped := Function.update s.popped consumer ((s.popped consumer).erase ref) } := by
  constructor
  · apply EventPool.Counts.gc
    apply h.counts.perm
    intro b
    have herase := count_poppedBlocks_erase hmem (s.pool.gc ref.event) b
    simp only [RxBlockLane.holders, List.count_append, List.count_cons] at herase ⊢
    omega
  · exact h.raw
  · exact h.display
  · exact h.serves

theorem BlockLaneInv.step {s s' : RxBlockLane} {l : LaneLabel} (h : BlockLaneInv s)
    (hs : s.step l = some s') : BlockLaneInv s' := by
  unfold RxBlockLane.step at hs
  cases l with
  | tryAlloc fileLane event =>
    obtain ⟨⟨hidle, hserves⟩, hs⟩ := Option.ite_none_right_eq_some.mp hs
    cases hs
    exact h.tryAlloc hidle hserves
  | publish len gen ingressMs =>
    dsimp only at hs
    split at hs
    · cases hs
      exact h.publish ‹_›
    · cases hs
  | push =>
    dsimp only at hs
    split at hs
    · obtain ⟨-, hs⟩ := Option.ite_none_right_eq_some.mp hs
      cases hs
      exact h.pushRaw ‹_›
    · obtain ⟨-, hs⟩ := Option.ite_none_right_eq_some.mp hs
      cases hs
      exact h.pushDisplay ‹_›
    · cases hs
  | popDisplay consumer =>
    obtain ⟨-, hs⟩ := Option.ite_none_left_eq_some.mp hs
    cases hs
    split
    · exact h
    · exact h.popDisplay ‹_› consumer
  | popRaw consumer =>
    obtain ⟨-, hs⟩ := Option.ite_none_left_eq_some.mp hs
    cases hs
    split
    · exact h
    · exact h.popRaw ‹_› consumer
  | release consumer ref =>
    obtain ⟨hmem, hs⟩ := Option.ite_none_right_eq_some.mp hs
    cases hs
    exact h.release hmem

theorem blockLaneInv_reach {s : RxBlockLane} (h : Transition.Reach blockLaneMachine s) :
    BlockLaneInv s := by
  apply h.invariant
  · constructor
    · exact EventPool.counts_init
    · exact List.nodup_nil
    · exact List.nodup_nil
    · nofun
  · intro s l s' hinv _ hs
    exact hinv.step hs

/-! ## What the lane guarantees -/

/-- The references of the lane, its rings and its reserve. -/
structure RxBlockLane.Owned (s : RxBlockLane) : Prop where
  counted : ∀ b, s.pool.refs b = s.holders.count b
  free : ∀ b, s.pool.refs b = 0 ↔ b ∉ s.holders
  released : ∀ consumer, ∀ ref ∈ s.popped consumer, 0 < s.pool.refs ref.event
  raw : s.rawReady.length ≤ s.pool.used
  display : s.displayReady.length ≤ s.pool.used
  used : s.pool.used ≤ kRxBlockCount
  pushes : (∃ ref displayOk, s.producer = .pushRaw ref displayOk) ∨
    (∃ ref fileLane, s.producer = .pushDisplay ref fileLane) → s.step .push ≠ none
  reserve : ∀ event s', s.step (.tryAlloc true event) = some s' →
    s'.producer = .claimed event true true → kRxRawReserveBlocks ≤ s'.pool.freeBlocks

theorem BlockLaneInv.raw_le {s : RxBlockLane} (h : BlockLaneInv s) :
    (s.producer.forRaw ++ s.rawReady.map (·.event)).length ≤ s.pool.used := by
  apply h.counts.length_le_used h.raw
  intro b hb
  simp only [RxBlockLane.holders, List.mem_append] at hb ⊢
  rcases hb with hb | hb
  · refine .inl (.inl (.inl ?_))
    cases hpc : s.producer <;> rw [hpc] at hb <;> simp [ProducerPc.forRaw] at hb
    · simp [ProducerPc.held, hb.2]
    · rw [ProducerPc.held, hb]
      split <;> simp
  · exact .inl (.inl (.inr hb))

theorem BlockLaneInv.display_le {s : RxBlockLane} (h : BlockLaneInv s) :
    (s.producer.forDisplay ++ s.displayReady.map (·.event)).length ≤ s.pool.used := by
  apply h.counts.length_le_used h.display
  intro b hb
  simp only [RxBlockLane.holders, List.mem_append] at hb ⊢
  rcases hb with hb | hb
  · refine .inl (.inl (.inl ?_))
    cases hpc : s.producer <;> rw [hpc] at hb <;> simp [ProducerPc.forDisplay] at hb
    · simp [ProducerPc.held, hb.2]
    · simp [ProducerPc.held, hb.1, hb.2]
    · simp [ProducerPc.held, hb]
  · exact .inl (.inr hb)

theorem BlockLaneInv.pushes {s : RxBlockLane} (h : BlockLaneInv s)
    (hpc : (∃ ref displayOk, s.producer = .pushRaw ref displayOk) ∨
      (∃ ref fileLane, s.producer = .pushDisplay ref fileLane)) : s.step .push ≠ none := by
  have hused := s.pool.used_le
  rcases hpc with ⟨ref, displayOk, hpc⟩ | ⟨ref, fileLane, hpc⟩
  · have hroom := h.raw_le
    rw [hpc, List.length_append, List.length_map] at hroom
    simp only [ProducerPc.forRaw, List.length_singleton] at hroom
    simp only [RxBlockLane.step, hpc]
    rw [if_pos (by omega)]
    simp
  · have hroom := h.display_le
    rw [hpc, List.length_append, List.length_map] at hroom
    simp only [ProducerPc.forDisplay, List.length_singleton] at hroom
    simp only [RxBlockLane.step, hpc]
    rw [if_pos (by omega)]
    simp

/-- A claim that the display may share leaves the file lane its reserve. -/
theorem reserve_of_tryAlloc {s s' : RxBlockLane} {event : Block}
    (hs : s.step (.tryAlloc true event) = some s')
    (hpc : s'.producer = .claimed event true true) :
    kRxRawReserveBlocks ≤ s'.pool.freeBlocks := by
  obtain ⟨⟨hidle, hserves⟩, hs⟩ := Option.ite_none_right_eq_some.mp hs
  cases hs
  unfold RxBlockLane.tryAlloc at hpc ⊢
  split at hpc
  · rename_i pool halloc
    exact EventPool.margin_le_freeBlocks hserves halloc
  · simp only [not_true_eq_false, if_false] at hpc
    split at hpc
    · cases hpc
    · rw [hidle] at hpc
      cases hpc

/-- In every run of the lane each block counts its holders, the rings never hold more
descriptors than there are blocks in use, a push finds room, and the display shares a
block of the file lane only when the reserve stays free. -/
theorem block_lane_owned {s : RxBlockLane} (h : Transition.Reach blockLaneMachine s) :
    s.Owned := by
  have hinv := blockLaneInv_reach h
  have hraw := hinv.raw_le
  have hdisplay := hinv.display_le
  rw [List.length_append, List.length_map] at hraw hdisplay
  constructor
  · exact hinv.counts
  · exact hinv.counts.free_iff
  · intro consumer ref hmem
    apply Nat.pos_of_ne_zero
    intro hzero
    apply (hinv.counts.free_iff ref.event).mp hzero
    simp only [RxBlockLane.holders, RxBlockLane.poppedBlocks, List.mem_append, List.mem_map]
    refine .inr ⟨ref, ?_, rfl⟩
    cases consumer <;> simp [hmem]
  · omega
  · omega
  · exact s.pool.used_le
  · exact hinv.pushes
  · intro event s' hs hpc
    exact reserve_of_tryAlloc hs hpc

/-- The block of a single claim. -/
def someBlock : Block := ⟨5, by decide⟩

/-- A segment for both lanes that the Dispatcher has popped and released before the
LogWriter has popped it. -/
theorem block_lane_owned_shared :
    ∃ s : RxBlockLane, s.rawReady.length = 1 ∧ s.pool.refs someBlock = 1 ∧ s.Owned := by
  obtain ⟨s, hs, hraw, hrefs⟩ := Transition.exists_of_execUnder (m := blockLaneMachine)
    (c := fun _ _ => True) (p := fun s => s.rawReady.length = 1 ∧ s.pool.refs someBlock = 1)
    [.tryAlloc true someBlock, .publish 3 1 0, .push, .push, .popDisplay .dispatcher,
      .release .dispatcher ⟨someBlock, 3, 1, 0⟩] (by decide +kernel)
  exact ⟨s, hraw, hrefs, block_lane_owned hs⟩

end Xcom.Rx
