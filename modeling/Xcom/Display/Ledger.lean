import Mathlib.Data.List.Perm.Basic
import Xcom.Display.Isolation

/-!
# No silent loss on the display path

Every byte handed to the read callback has an index.  The indices of the bytes drained,
of those charged to the loss ledger and of those the path still holds are a partition of
all received ones, as long as no drain meets a batch of another session and the final
shutdown finds the path empty.
-/

namespace Xcom.Display

open DispOp

/-- Where a core stands between `xcom_create` and the end of `xcom_destroy`: running,
waiting for the Dispatcher to stop, tearing down its threads, and gone. -/
inductive Life
  | running
  | stopping
  | teardown (ops : List DispOp)
  | gone
  deriving DecidableEq, Repr

/-- A core and its lifetime. -/
structure Handle where
  core : Core := {}
  life : Life := .running
  deriving DecidableEq, Repr

/-- The steps of `CoreState::shutdown` between the stop of the Dispatcher and the drain of
the RX rings. -/
def shutdownOps : List DispOp :=
  [releaseDeferred, stopWriter, joinWriter, closeAdmission, stopReader, joinReader]

/-- What happens to a core: a step of one of its threads, the call of `xcom_destroy`, the
stop of its Dispatcher, and a step of the rest of `CoreState::shutdown`. -/
inductive HandleLabel
  | core (l : CoreLabel)
  | destroy
  | stopped
  | teardown
  deriving DecidableEq, Repr

/-- The ABI caller moves. -/
def CoreLabel.ofCaller : CoreLabel → Bool
  | .session (.abi _) | .path (.consumer _) => true
  | _ => false

/-- The Dispatcher moves. -/
def CoreLabel.ofDispatcher : CoreLabel → Bool
  | .session (.disp _) | .purge | .path (.kick _) => true
  | _ => false

/-- The threads that can still move. -/
def Life.admits (l : CoreLabel) : Life → Bool
  | .running => true
  | .stopping => !l.ofCaller
  | .teardown _ => !l.ofCaller && !l.ofDispatcher
  | .gone => false

namespace Handle

/-- One step of `CoreState::shutdown` behind the stop of the Dispatcher. -/
def teardownStep (h : Handle) : List DispOp → Option Handle
  | [] => some ⟨⟨h.core.world, { h.core.path with ring := [] }⟩, .gone⟩
  | op :: ops => (h.core.world.opStep [] op .run).map fun world =>
      ⟨⟨world, if op = releaseDeferred then h.core.path.releaseDeferred else h.core.path⟩,
        .teardown ops⟩

/-- One step of a core or of its end. -/
def step (h : Handle) : HandleLabel → Option Handle
  | .core l => if h.life.admits l then (h.core.step l).map fun core => ⟨core, h.life⟩ else none
  | .destroy =>
    if h.life = .running ∧ h.core.world.abi = .idle ∧ h.core.path.consumer = .idle then
      some { h with life := .stopping }
    else none
  | .stopped =>
    if h.life = .stopping ∧ h.core.world.agenda = [] ∧ h.core.path.kick = .idle then
      some { h with life := .teardown shutdownOps }
    else none
  | .teardown =>
    match h.life with
    | .teardown ops => h.teardownStep ops
    | _ => none

end Handle

/-- A core from `xcom_create` to the end of `xcom_destroy`. -/
def handleMachine : Transition.Machine Handle HandleLabel where
  init := {}
  step := Handle.step

/-! ## Where the bytes are -/

/-- The indices of the bytes behind a list of descriptors. -/
def bytesOf (ds : List RxDesc) : List Nat := ds.flatMap RxDesc.ids

@[simp] theorem bytesOf_nil : bytesOf [] = [] := rfl

@[simp] theorem bytesOf_cons (d : RxDesc) (ds : List RxDesc) :
    bytesOf (d :: ds) = d.ids ++ bytesOf ds := List.flatMap_cons ..

@[simp] theorem bytesOf_append (ds es : List RxDesc) :
    bytesOf (ds ++ es) = bytesOf ds ++ bytesOf es := List.flatMap_append ..

/-- The bytes an ingress has not handed on yet. -/
def IngressPc.hand : IngressPc → List Nat
  | .loadAdmission data first | .loadState data first | .reject data first
  | .acquireLease data first _ => List.range' first data.length
  | .alloc i | .publish i _ | .blockedAdmission i | .blockedState i | .unowned i =>
    List.range' i.first i.rest.length
  | _ => []

/-- The lease of an ingress was refused, and so its block is for the display. -/
def IngressPc.Unleased : IngressPc → Prop
  | .alloc i | .blockedAdmission i | .blockedState i | .unowned i => i.fileLane = false
  | .publish i displayOk => i.fileLane = false ∧ displayOk = true
  | _ => True

namespace Path

/-- The descriptors in the RX ring, the deferred slot and the display lane. -/
def stored (p : Path) : List RxDesc :=
  p.ring ++ p.deferred.toList ++ p.ready.map (·.source) ++
    p.active.toList.map (·.1.source)

/-- The descriptors the Dispatcher has in hand. -/
def inFlight (p : Path) : List RxDesc := p.kick.block?.toList ++ p.purged.map (·.source)

/-- What the path still holds. -/
def held (p : Path) : List Nat := bytesOf p.stored

/-- The loss ledger is exact: every received byte is in one place, and the counter of
rejected bytes counts the charged ones. -/
structure Ledger (p : Path) : Prop where
  conserved : (p.delivered ++ p.charged ++ p.held).Perm (List.range p.received)
  counted : p.saveRejectedBytes = UInt32.ofNat p.charged.length

end Path

/-- No thread is inside the display path. -/
def Handle.Quiescent (h : Handle) : Prop :=
  h.core.world.agenda = [] ∧ h.core.path.kick = .idle ∧ h.core.path.reader = .idle

instance (h : Handle) : Decidable h.Quiescent := inferInstanceAs (Decidable (_ ∧ _))

/-- No file lane is leased. -/
def NoFileLane : HandleLabel → Prop
  | .core (.path (.reader (.lease granted))) => granted = false
  | _ => True

instance : DecidablePred NoFileLane := fun l => by
  unfold NoFileLane
  split <;> infer_instance

/-- The next step of a drain meets no batch of another generation. -/
def Path.DrainsCurrent (p : Path) : Prop :=
  match p.consumer with
  | .checkActive _ g => ∀ a ∈ p.active, a.1.gen = g
  | .popReady _ g => ∀ b ∈ p.ready.head?, b.gen = g
  | _ => True

instance (p : Path) : Decidable p.DrainsCurrent := by
  unfold Path.DrainsCurrent
  split <;> infer_instance

/-- What leaves the path is drained or charged: no drain drops a batch of another
generation, and the shutdown finds the RX ring and the display lane empty. -/
def NothingDropped (h : Handle) : HandleLabel → Prop
  | .core (.path (.consumer .run)) => h.core.path.DrainsCurrent
  | .teardown => h.life = .teardown [] →
      h.core.path.ring = [] ∧ h.core.path.ready = [] ∧ h.core.path.active = none
  | _ => True

instance (h : Handle) : DecidablePred (NothingDropped h) := fun l => by
  unfold NothingDropped
  split <;> infer_instance

/-! ## One step of a thread -/

/-- What keeps the ledger exact. -/
structure LedgerInv (p : Path) : Prop where
  balanced : ∀ x, p.delivered.count x + p.charged.count x + p.reader.hand.count x +
    (bytesOf p.stored).count x + (bytesOf p.inFlight).count x = (List.range p.received).count x
  counted : p.saveRejectedBytes = UInt32.ofNat p.charged.length
  unlogged : ∀ d ∈ p.stored ++ p.inFlight, d.unlogged = true
  unleased : p.reader.Unleased
  taken : p.kick.pastDeferred = true → p.deferred = none

theorem counted_append {n : UInt32} {ids : List Nat} (h : n = UInt32.ofNat ids.length)
    (more : List Nat) : n + UInt32.ofNat more.length = UInt32.ofNat (ids ++ more).length := by
  rw [h, ← UInt32.ofNat_add, List.length_append]

theorem KickStep.taken {env : Env} {p p' : Path} {l : KickLabel} (h : KickStep env p l p')
    (hinv : p.kick.pastDeferred = true → p.deferred = none) :
    p'.kick.pastDeferred = true → p'.deferred = none := by
  cases h <;> simp_all [KickPc.pastDeferred]

/-- A step of the Dispatcher moves blocks on, and what it lets go of is shown. -/
theorem KickStep.blocks {env : Env} {p p' : Path} {l : KickLabel} (h : KickStep env p l p')
    (htaken : p.kick.pastDeferred = true → p.deferred = none) :
    ∃ gone, p'.delivered = p.delivered ++ bytesOf gone ∧
      (p.stored ++ p.inFlight).Perm (gone ++ (p'.stored ++ p'.inFlight)) := by
  have hcounts : ∃ gone, p'.delivered = p.delivered ++ bytesOf gone ∧
      ∀ d, (p.stored ++ p.inFlight).count d = (gone ++ (p'.stored ++ p'.inFlight)).count d := by
    cases h with
    | discard n d hpc =>
      refine ⟨[d], by simp, fun x => ?_⟩
      simp [Path.stored, Path.inFlight, KickPc.block?, hpc, List.count_cons]
      omega
    | _ =>
      -- The block in hand takes the place it had in the queue, or the next one.
      refine ⟨[], by simp, fun x => ?_⟩
      simp [Path.stored, Path.inFlight, KickPc.block?, KickPc.pastDeferred, Batch.push,
        List.count_cons, *] at htaken ⊢
      try omega
  obtain ⟨gone, hgone, hcount⟩ := hcounts
  exact ⟨gone, hgone, List.perm_iff_count.mpr hcount⟩

/-- A block that moves on in the Dispatcher stays in the balance. -/
theorem KickStep.ledger {env : Env} {p p' : Path} {l : KickLabel} (h : KickStep env p l p')
    (hinv : LedgerInv p) : LedgerInv p' := by
  obtain ⟨gone, hgone, hblocks⟩ := h.blocks hinv.taken
  have hbytes : (bytesOf (p.stored ++ p.inFlight)).Perm
      (bytesOf (gone ++ (p'.stored ++ p'.inFlight))) := hblocks.flatMap_right _
  have hrest : p'.charged = p.charged ∧ p'.reader = p.reader ∧ p'.received = p.received := by
    cases h <;> exact ⟨rfl, rfl, rfl⟩
  refine ⟨fun x => ?_, ?_, fun d hd => ?_, ?_, h.taken hinv.taken⟩
  · have hx := hinv.balanced x
    have hcount := hbytes.count_eq x
    simp only [bytesOf_append, List.count_append] at hcount
    rw [hgone, hrest.1, hrest.2.1, hrest.2.2, List.count_append]
    omega
  · have hcounted := hinv.counted
    cases h <;> exact hcounted
  · exact hinv.unlogged d (hblocks.mem_iff.mpr (List.mem_append_right gone hd))
  · rw [hrest.2.1]
    exact hinv.unleased

/-- The block cut off and the rest behind it are what the ingress had. -/
theorem block_ids_append (i : Ingress) (generation ms : UInt32) :
    (i.block generation ms).ids ++ List.range' i.next.first i.next.rest.length =
      List.range' i.first i.rest.length := by
  simp only [RxDesc.ids, Ingress.block, RxDesc.publish, Ingress.next, List.length_take,
    List.length_drop]
  generalize kRxBlockBytes = k
  have hlen : min k i.rest.length + (i.rest.length - k) = i.rest.length := by omega
  rw [List.range'_append_1, hlen]

theorem finish_hand (i : Ingress) : i.finish.hand = [] := by
  unfold Ingress.finish afterKick
  split
  · rfl
  · split <;> rfl

theorem finish_unleased (i : Ingress) : i.finish.Unleased := by
  unfold Ingress.finish afterKick
  split
  · trivial
  · split <;> trivial

/-- What is left of an ingress behind a published block. -/
theorem published_hand (i : Ingress) :
    (if i.next.rest = [] then i.next.finish else IngressPc.alloc i.next).hand =
      List.range' i.next.first i.next.rest.length := by
  split
  · rw [finish_hand, ‹i.next.rest = []›]
    rfl
  · rfl

theorem afterKick_hand (fileLane : Bool) : (afterKick fileLane).hand = [] := by
  cases fileLane <;> rfl

theorem afterKick_unleased (fileLane : Bool) : (afterKick fileLane).Unleased := by
  cases fileLane <;> trivial

/-- The read thread goes on with the bytes it has. -/
theorem LedgerInv.move {p : Path} (hinv : LedgerInv p) {pc : IngressPc} {gate : Bool}
    {kicks : Nat} (hhand : pc.hand = p.reader.hand) (hunl : pc.Unleased) :
    LedgerInv { p with reader := pc, gate := gate, kicks := kicks } := by
  refine { hinv with balanced := fun x => ?_, unleased := hunl }
  rw [← hinv.balanced x, ← hhand]
  rfl

/-- The read thread gives the bytes it has to the loss ledger. -/
theorem LedgerInv.charge {p : Path} (hinv : LedgerInv p) {ids : List Nat} (pc : IngressPc)
    (hhand : p.reader.hand = ids) (hpc : pc.hand = []) (hunl : pc.Unleased) {n : Nat}
    (hn : ids.length = n) : LedgerInv { p.countRejected n ids with reader := pc } := by
  subst hn
  refine { hinv with
    balanced := fun x => ?_, counted := counted_append hinv.counted ids, unleased := hunl }
  have hx := hinv.balanced x
  simp only [Path.countRejected, Path.stored, Path.inFlight, hhand, hpc, List.count_append,
    List.count_nil] at hx ⊢
  omega

theorem IngressStep.ledger {env : Env} {p p' : Path} {l : IngressLabel}
    (h : IngressStep env p l p') (hlease : NoFileLane (.core (.path (.reader l))))
    (hinv : LedgerInv p) : LedgerInv p' := by
  have hunleased := hinv.unleased
  cases h with
  | deliver data hpc hd =>
    refine { hinv with balanced := fun x => ?_, unleased := trivial }
    have hx := hinv.balanced x
    have hrange : List.range (p.received + data.length) =
        List.range p.received ++ List.range' p.received data.length := by
      rw [List.range_eq_range', List.range_eq_range', ← List.range'_append_1, Nat.zero_add]
    simp only [Path.stored, Path.inFlight, hpc, IngressPc.hand, hrange, List.count_append,
      List.count_nil] at hx ⊢
    omega
  | reject data first hpc =>
    exact hinv.charge .idle (by rw [hpc]; rfl) rfl trivial (List.length_range' ..)
  | unowned i hpc =>
    exact hinv.charge _ (by rw [hpc]; rfl) (finish_hand i) (finish_unleased i)
      (List.length_range' ..)
  | publish i displayOk ms hpc =>
    rw [hpc] at hunleased
    obtain ⟨hfile, hok⟩ := hunleased
    have hcut := block_ids_append i env.generation ms
    refine { hinv with balanced := fun x => ?_, unlogged := fun d hd => ?_, unleased := ?_ }
    · have hx := hinv.balanced x
      simp only [hpc, IngressPc.hand, ← hcut] at hx
      simp only [hok, if_true, published_hand]
      simp only [Path.stored, Path.inFlight, bytesOf_append, bytesOf_cons, bytesOf_nil,
        List.append_nil, List.count_append] at hx ⊢
      omega
    · simp only [hok, if_true, Path.stored, List.append_assoc, List.mem_append] at hd
      rcases hd with hd | hd | hd
      · exact hinv.unlogged d (by simp [Path.stored, hd])
      · obtain rfl := List.mem_singleton.mp hd
        simp [Ingress.block, hfile]
      · exact hinv.unlogged d (by
          simp only [Path.stored, List.append_assoc, List.mem_append]
          exact .inr hd)
    · dsimp only
      split
      · exact finish_unleased _
      · exact hfile
  | lease data first mark granted hpc => exact hinv.move (by rw [hpc]; rfl) hlease
  | allocated i displayOk hpc hok =>
    rw [hpc] at hunleased
    have hfile : i.fileLane = false := hunleased
    exact hinv.move (by rw [hpc]; rfl) ⟨hfile, hok.resolve_left (by simp [hfile])⟩
  | turnedAway data first hpc =>
    refine hinv.move ?_ trivial
    rcases hpc with hpc | hpc <;> rw [hpc] <;> rfl
  | closing i hpc =>
    refine hinv.move ?_ ?_
    · rcases hpc with hpc | hpc <;> rw [hpc] <;> rfl
    · rcases hpc with hpc | hpc <;> rw [hpc] at hunleased <;> exact hunleased
  | armFailed fileLane hpc hg =>
    exact hinv.move (by rw [hpc]; exact afterKick_hand _) (afterKick_unleased _)
  | submitted fileLane hpc =>
    exact hinv.move (by rw [hpc]; exact afterKick_hand _) (afterKick_unleased _)
  | refused fileLane hpc =>
    exact hinv.move (by rw [hpc]; exact afterKick_hand _) (afterKick_unleased _)
  | _ => refine hinv.move ?_ ?_ <;> simp_all [IngressPc.hand, IngressPc.Unleased]

theorem ConsumerStep.ledger {env : Env} {p p' : Path} {l : ConsumerLabel}
    (h : ConsumerStep env p l p') (hcur : l = .run → p.DrainsCurrent)
    (hpop : ∀ capacity g, p.consumer = .popReady capacity g → p.active = none)
    (hinv : LedgerInv p) : LedgerInv p' := by
  cases h with
  | dropActive capacity g b offset hpc ha hg =>
    have hcur := hcur rfl
    rw [Path.DrainsCurrent, hpc, ha] at hcur
    exact absurd (hcur (b, offset) rfl) hg
  | popStale capacity g b ready hpc hr hg =>
    have hcur := hcur rfl
    rw [Path.DrainsCurrent, hpc, hr] at hcur
    exact absurd (hcur b rfl) hg
  | popReady capacity g b ready hpc hr hg =>
    have hnone := hpop capacity g hpc
    refine { hinv with balanced := fun x => ?_, unlogged := fun d hd => hinv.unlogged d ?_ }
    · have hx := hinv.balanced x
      simp only [Path.stored, Path.inFlight, hr, hnone, List.map_cons, Option.toList_none,
        Option.toList_some, List.map_nil, bytesOf_append, bytesOf_cons, bytesOf_nil,
        List.count_append, List.count_nil] at hx ⊢
      omega
    · simp_all [Path.stored, Path.inFlight]
      grind
  | copyLast capacity g b offset chunk hpc ha =>
    refine { hinv with balanced := fun x => ?_, unlogged := fun d hd => hinv.unlogged d ?_ }
    · have hx := hinv.balanced x
      simp only [Path.stored, Path.inFlight, ha, List.map_cons, Option.toList_none,
        Option.toList_some, List.map_nil, bytesOf_append, bytesOf_cons, bytesOf_nil,
        List.count_append, List.count_nil] at hx ⊢
      omega
    · simp_all [Path.stored, Path.inFlight]
      grind
  | copyPart capacity g b offset offset' chunk hpc ha =>
    have hstored : Path.stored { p with active := some (b, offset') } = p.stored := by
      simp [Path.stored, ha]
    refine { hinv with balanced := fun x => ?_, unlogged := fun d hd => hinv.unlogged d ?_ }
    · rw [← hinv.balanced x, ← hstored]
      rfl
    · rw [← hstored]
      exact hd
  | _ => exact { hinv with }

/-! ## The owner -/

theorem LedgerInv.releaseDeferred {p : Path} (hinv : LedgerInv p) :
    LedgerInv p.releaseDeferred := by
  unfold Path.releaseDeferred
  split
  · exact hinv
  · rename_i d hd
    have hunl : d.unlogged = true := hinv.unlogged d (by simp [Path.stored, hd])
    rw [if_pos hunl]
    refine { hinv with
      balanced := fun x => ?_, counted := ?_, unlogged := fun e he => hinv.unlogged e ?_
      taken := fun _ => rfl }
    · have hx := hinv.balanced x
      simp only [Path.countRejected, Path.stored, Path.inFlight, hd, Option.toList_none,
        Option.toList_some, bytesOf_append, bytesOf_cons, bytesOf_nil, List.count_append,
        List.count_nil] at hx ⊢
      omega
    · rw [← d.length_ids]
      exact counted_append hinv.counted d.ids
    · simp_all [Path.stored, Path.inFlight]
      grind

theorem LedgerInv.purge {p : Path} (hinv : LedgerInv p) {b : Batch} {ready : List Batch}
    (hr : p.ready = b :: ready) :
    LedgerInv { p with ready := ready, free := p.free + 1, purged := p.purged ++ [b] } := by
  refine { hinv with balanced := fun x => ?_, unlogged := fun d hd => hinv.unlogged d ?_ }
  · have hx := hinv.balanced x
    simp only [Path.stored, Path.inFlight, hr, List.map_cons, List.map_append, List.map_nil,
      bytesOf_append, bytesOf_cons, bytesOf_nil, List.count_append, List.count_nil] at hx ⊢
    omega
  · simp_all [Path.stored, Path.inFlight]
    grind

theorem bytesOf_batches (bs : List Batch) :
    (bs.flatMap fun b => b.source.ids) = bytesOf (bs.map (·.source)) := by
  rw [bytesOf, List.flatMap_map]

theorem length_bytesOf_batches (bs : List Batch) :
    (bs.map fun b => lenOf b.rxMeta).sum = (bs.flatMap fun b => b.source.ids).length := by
  rw [List.length_flatMap]
  congr 1
  exact List.map_congr_left fun b _ => b.length_ids.symm

theorem LedgerInv.commitReset {p : Path} (hinv : LedgerInv p) : LedgerInv p.commitReset := by
  have hall : p.unloggedPurged = p.purged := by
    refine List.filter_eq_self.mpr fun b hb => ?_
    rw [b.unloggedOf_rxMeta]
    refine hinv.unlogged b.source ?_
    simp only [Path.inFlight, List.mem_append, List.mem_map]
    exact .inr (.inr ⟨b, hb, rfl⟩)
  refine { hinv with
    balanced := fun x => ?_, counted := ?_, unlogged := fun d hd => hinv.unlogged d ?_ }
  · have hx := hinv.balanced x
    simp only [Path.commitReset, hall, bytesOf_batches, Path.countRejected, Path.stored,
      Path.inFlight, List.map_nil, bytesOf_append, bytesOf_nil, List.count_append,
      List.count_nil] at hx ⊢
    omega
  · simp only [Path.commitReset, hall, length_bytesOf_batches]
    exact counted_append hinv.counted _
  · simp_all [Path.commitReset, Path.stored, Path.inFlight]
    grind

/-! ## Runs of a core -/

/-- A drain that looks for the next batch has none. -/
def ConsumerPc.popping : ConsumerPc → Bool
  | .popReady _ _ | .releaseStale _ _ => true
  | _ => false

theorem ConsumerStep.popping {env : Env} {p p' : Path} {l : ConsumerLabel}
    (h : ConsumerStep env p l p') (hinv : p.consumer.popping = true → p.active = none) :
    p'.consumer.popping = true → p'.active = none := by
  cases h with
  | storePause o resume hpc => cases resume <;> nofun
  | _ => simp_all [ConsumerPc.popping]

/-- What keeps the ledger exact over the steps of a core. -/
structure CoreInv (c : Core) : Prop where
  agenda : Agenda c.world.serialState c.world.agenda
  running : c.path.reader ≠ .idle → c.world.reader = .running
  popping : c.path.consumer.popping = true → c.path.active = none
  purging : c.path.purged ≠ [] → c.world.AtOp resetDisplay
  ledger : LedgerInv c.path

/-- What the steps of one thread of the path leave to the others. -/
theorem IngressStep.others {env : Env} {p p' : Path} {l : IngressLabel}
    (h : IngressStep env p l p') :
    p'.consumer = p.consumer ∧ p'.active = p.active ∧ p'.purged = p.purged ∧
      p'.deferred = p.deferred ∧ p'.kick = p.kick := by
  cases h <;> exact ⟨rfl, rfl, rfl, rfl, rfl⟩

theorem KickStep.others {env : Env} {p p' : Path} {l : KickLabel} (h : KickStep env p l p') :
    p'.consumer = p.consumer ∧ p'.active = p.active ∧ p'.purged = p.purged ∧
      p'.reader = p.reader := by
  cases h <;> exact ⟨rfl, rfl, rfl, rfl⟩

theorem releaseDeferred_others (p : Path) :
    p.releaseDeferred.consumer = p.consumer ∧ p.releaseDeferred.active = p.active ∧
      p.releaseDeferred.purged = p.purged ∧ p.releaseDeferred.reader = p.reader ∧
      p.releaseDeferred.kick = p.kick ∧ p.releaseDeferred.deferred = none := by
  unfold Path.releaseDeferred
  split
  · exact ⟨rfl, rfl, rfl, rfl, rfl, ‹_›⟩
  · split <;> exact ⟨rfl, rfl, rfl, rfl, rfl, rfl⟩

theorem CoreStep.ledger {c c' : Core} {l : CoreLabel} (h : CoreStep c l c')
    (hlease : NoFileLane (.core l))
    (hcur : l = .path (.consumer .run) → c.path.DrainsCurrent) (hinv : CoreInv c) :
    CoreInv c' := by
  cases h with
  | session l path world hocc heffect hmove =>
    have hrunning : c.path.reader ≠ .idle → world.reader = .running := by
      intro hne
      refine step_running hinv.agenda hmove (fun r hl => ?_) (hinv.running hne)
      rw [hl] at hocc
      simp [Core.occupied, hne] at hocc
    have hagenda := step_keeps_agenda hinv.agenda hmove
    cases heffect with
    | none hreset =>
      exact
        { hinv with
          agenda := hagenda
          running := hrunning
          purging := fun hp => step_atReset hmove (hinv.purging hp) (hreset (hinv.purging hp)) }
    | releaseDeferred ha =>
      obtain ⟨hc, hact, hpur, hr, -, -⟩ := releaseDeferred_others c.path
      refine ⟨hagenda, by rw [hr]; exact hrunning, by rw [hc, hact]; exact hinv.popping,
        fun hp => ?_, hinv.ledger.releaseDeferred⟩
      have hreset := hinv.purging (hpur ▸ hp)
      rw [World.AtOp, ha] at hreset
      cases hreset
    | commitReset ha hr =>
      exact ⟨hagenda, hrunning, hinv.popping, fun hp => absurd rfl hp,
        hinv.ledger.commitReset⟩
  | purge b ready ha hr =>
    exact { hinv with purging := fun _ => ha, ledger := hinv.ledger.purge hr }
  | reader l path hw hmove =>
    obtain ⟨hc, hact, hpur, -, -⟩ := hmove.others
    exact ⟨hinv.agenda, fun _ => hw, by rw [hc, hact]; exact hinv.popping,
      by rw [hpur]; exact hinv.purging, hmove.ledger hlease hinv.ledger⟩
  | kick l path hw hmove =>
    obtain ⟨hc, hact, hpur, hr⟩ := hmove.others
    exact ⟨hinv.agenda, by rw [hr]; exact hinv.running, by rw [hc, hact]; exact hinv.popping,
      by rw [hpur]; exact hinv.purging, hmove.ledger hinv.ledger⟩
  | consumer l path hw hmove =>
    have hsame : path.reader = c.path.reader ∧ path.purged = c.path.purged := by
      cases hmove <;> exact ⟨rfl, rfl⟩
    refine ⟨hinv.agenda, by rw [hsame.1]; exact hinv.running, hmove.popping hinv.popping,
      by rw [hsame.2]; exact hinv.purging, hmove.ledger (fun hl => ?_) ?_ hinv.ledger⟩
    · exact hcur (hl ▸ rfl)
    · exact fun capacity g hpc => hinv.popping (by rw [hpc]; rfl)

/-! ## The end of a core -/

/-- How far the end of a core has come. -/
def Handle.Ended (h : Handle) : Prop :=
  match h.life with
  | .running | .stopping => True
  | .teardown ops => ops <:+ shutdownOps ∧ h.core.world.agenda = [] ∧ h.core.path.kick = .idle ∧
      (releaseDeferred ∉ ops → h.core.path.deferred = none) ∧
      (joinReader ∉ ops → h.core.world.reader = .absent)
  | .gone => h.Quiescent ∧ h.core.path.held = []

/-- What keeps the ledger exact up to the end of a core. -/
structure HandleInv (h : Handle) : Prop where
  core : CoreInv h.core
  ended : h.Ended

/-- The read thread and the session writer leave the end of a core alone. -/
theorem CoreStep.ended {c c' : Core} {l : CoreLabel} {ops : List DispOp}
    (h : CoreStep c l c') (hl : (Life.teardown ops).admits l = true)
    (hend : Handle.Ended ⟨c, .teardown ops⟩) : Handle.Ended ⟨c', .teardown ops⟩ := by
  obtain ⟨hops, ha, hk, hd, hj⟩ := hend
  have ha : c.world.agenda = [] := ha
  have hj : joinReader ∉ ops → c.world.reader = .absent := hj
  cases h with
  | session l path world hocc heffect hmove =>
    have hnd : ∀ d, l ≠ .disp d := by
      rintro d rfl
      simp [Life.admits, CoreLabel.ofCaller, CoreLabel.ofDispatcher] at hl
    have hpath : path = c.path := by
      cases heffect with
      | none h => rfl
      | releaseDeferred hat => simp [World.AtOp, ha] at hat
      | commitReset hat hr => simp [World.AtOp, ha] at hat
    subst hpath
    refine ⟨hops, (step_agenda hmove hnd).trans ha, hk, hd, fun hno => ?_⟩
    have habsent := hj hno
    cases l with
    | abi l => simp [Life.admits, CoreLabel.ofCaller] at hl
    | disp l => exact absurd rfl (hnd l)
    | reader l => cases Xcom.readerStep_cases hmove <;> simp_all
    | writer l => cases writerStep_cases hmove <;> exact habsent
  | reader l path hw hmove =>
    obtain ⟨-, -, -, hdef, hkick⟩ := hmove.others
    exact ⟨hops, ha, by rw [hkick]; exact hk, by rw [hdef]; exact hd, hj⟩
  | purge b ready hat hr => simp [Life.admits, CoreLabel.ofCaller, CoreLabel.ofDispatcher] at hl
  | kick l path hw hmove =>
    simp [Life.admits, CoreLabel.ofCaller, CoreLabel.ofDispatcher] at hl
  | consumer l path hw hmove => simp [Life.admits, CoreLabel.ofCaller] at hl

/-- What one step of the shutdown does to the session. -/
theorem teardownOp {w w' : World} {op : DispOp} (hop : op ∈ shutdownOps)
    (h : w.opStep [] op .run = some w') :
    w'.agenda = [] ∧ w'.serialState = w.serialState ∧
      (op = joinReader → w.reader ≠ .running ∧ w'.reader = .absent) ∧
      (op ≠ joinReader → w'.reader = w.reader) := by
  simp only [shutdownOps, List.mem_cons, List.not_mem_nil, or_false] at hop
  rcases hop with rfl | rfl | rfl | rfl | rfl | rfl <;>
    simp only [World.opStep, Option.some.injEq, Option.ite_none_right_eq_some] at h
  · subst h; simp
  · subst h; simp
  · obtain ⟨-, rfl⟩ := h; simp
  · subst h; simp
  · subst h; simp
  · obtain ⟨hr, rfl⟩ := h
    refine ⟨rfl, rfl, fun _ => ⟨?_, rfl⟩, fun hne => absurd rfl hne⟩
    rcases hr with hr | hr <;> simp [hr]

theorem CoreInv.teardown {c : Core} (hinv : CoreInv c) {world : World} {path : Path}
    (ha : c.world.agenda = []) (ha' : world.agenda = [])
    (hs : world.serialState = c.world.serialState)
    (hr : path.reader ≠ .idle → world.reader = .running)
    (hpath : path = c.path ∨ path = c.path.releaseDeferred) : CoreInv ⟨world, path⟩ := by
  have hpurged : c.path.purged = [] := by
    refine by_contra fun hne => ?_
    have hat := hinv.purging hne
    simp [World.AtOp, ha] at hat
  have hagenda : Agenda world.serialState world.agenda := by
    rw [ha', hs, ← ha]
    exact hinv.agenda
  rcases hpath with rfl | rfl
  · exact ⟨hagenda, hr, hinv.popping, fun hp => absurd hpurged hp, hinv.ledger⟩
  · obtain ⟨hc, hact, hpur, -, -, -⟩ := releaseDeferred_others c.path
    exact ⟨hagenda, hr, by rw [hc, hact]; exact hinv.popping,
      by rw [hpur]; exact fun hp => absurd hpurged hp, hinv.ledger.releaseDeferred⟩

theorem HandleInv.teardownStep {h h' : Handle} {ops : List DispOp} (hinv : HandleInv h)
    (hlife : h.life = .teardown ops) (hclear : NothingDropped h .teardown)
    (hstep : h.teardownStep ops = some h') : HandleInv h' := by
  obtain ⟨hcore, hend⟩ := hinv
  rw [Handle.Ended, hlife] at hend
  obtain ⟨hops, ha, hk, hd, hj⟩ := hend
  cases ops with
  | nil =>
    cases hstep
    obtain ⟨hring, hready, hactive⟩ := hclear hlife
    have hsame : { h.core.path with ring := [] } = h.core.path := by rw [← hring]
    rw [hsame]
    have hnone := hd (by simp)
    have habsent := hj (by simp)
    have hreader : h.core.path.reader = .idle := by
      refine by_contra fun hne => ?_
      rw [hcore.running hne] at habsent
      cases habsent
    refine ⟨hcore, ⟨ha, hk, hreader⟩, ?_⟩
    simp [Path.held, Path.stored, hring, hready, hactive, hnone]
  | cons op ops =>
    obtain ⟨world, hworld, rfl⟩ := Option.map_eq_some_iff.mp hstep
    obtain ⟨ha', hs, hjoin, hother⟩ := teardownOp (hops.subset List.mem_cons_self) hworld
    have hsuffix := (List.suffix_cons op ops).trans hops
    have hreader : (if op = releaseDeferred then h.core.path.releaseDeferred
        else h.core.path).reader = h.core.path.reader := by
      split
      · exact (releaseDeferred_others _).2.2.2.1
      · rfl
    have hkick : (if op = releaseDeferred then h.core.path.releaseDeferred
        else h.core.path).kick = h.core.path.kick := by
      split
      · exact (releaseDeferred_others _).2.2.2.2.1
      · rfl
    refine ⟨hcore.teardown ha ha' hs ?_ ?_, hsuffix, ha', hkick.trans hk, fun hno => ?_,
      fun hno => ?_⟩
    · rw [hreader]
      intro hne
      have hrunning := hcore.running hne
      by_cases hop : op = joinReader
      · exact absurd hrunning (hjoin hop).1
      · rw [hother hop]
        exact hrunning
    · split
      · exact .inr rfl
      · exact .inl rfl
    · dsimp only
      split
      · exact (releaseDeferred_others _).2.2.2.2.2
      · rename_i hop
        exact hd (by simpa [hno] using Ne.symm hop)
    · by_cases hop : op = joinReader
      · exact (hjoin hop).2
      · rw [← hj (by simpa [hno] using Ne.symm hop)]
        exact hother hop

/-- The condition under which nothing is lost: no file lane is leased, and what leaves the
path is drained or charged. -/
def Ledgered (h : Handle) (l : HandleLabel) : Prop := NoFileLane l ∧ NothingDropped h l

instance (h : Handle) (l : HandleLabel) : Decidable (Ledgered h l) :=
  inferInstanceAs (Decidable (_ ∧ _))

theorem handleInv_reach {h : Handle}
    (hreach : Transition.ReachUnder handleMachine Ledgered h) : HandleInv h := by
  refine hreach.invariant (p := HandleInv) ?_ ?_
  · refine ⟨⟨.idle (by decide), ?_, ?_, ?_, ?_⟩, trivial⟩
    · simp [handleMachine]
    · simp [handleMachine, ConsumerPc.popping]
    · simp [handleMachine]
    · constructor <;> simp [handleMachine, Path.stored, Path.inFlight, KickPc.block?,
        IngressPc.hand, IngressPc.Unleased, KickPc.pastDeferred]
  rintro h l h' hinv ⟨hlease, hclear⟩ hstep
  cases l with
  | core l =>
    simp only [handleMachine, Handle.step] at hstep
    split at hstep
    · rename_i hl
      obtain ⟨core, hcore, rfl⟩ := Option.map_eq_some_iff.mp hstep
      have hmove := coreStep_cases hcore
      refine ⟨hmove.ledger hlease (fun hrun => ?_) hinv.core, ?_⟩
      · subst hrun
        exact hclear
      · have hend := hinv.ended
        unfold Handle.Ended at hend ⊢
        cases hlife : h.life with
        | running => trivial
        | stopping => trivial
        | teardown ops =>
          rw [hlife] at hend hl
          exact hmove.ended hl hend
        | gone =>
          rw [hlife] at hl
          cases hl
    · cases hstep
  | destroy =>
    simp only [handleMachine, Handle.step] at hstep
    split at hstep
    · cases hstep
      exact ⟨hinv.core, trivial⟩
    · cases hstep
  | stopped =>
    simp only [handleMachine, Handle.step] at hstep
    split at hstep
    · rename_i hidle
      cases hstep
      refine ⟨hinv.core, List.suffix_refl _, hidle.2.1, hidle.2.2, ?_, ?_⟩ <;>
        simp [shutdownOps]
    · cases hstep
  | teardown =>
    simp only [handleMachine, Handle.step] at hstep
    split at hstep
    · exact hinv.teardownStep ‹_› hclear hstep
    · cases hstep

/-- When nothing moves, nothing is in anyone's hands. -/
theorem CoreInv.ledger_exact {h : Handle} (hcore : CoreInv h.core) (hq : h.Quiescent) :
    h.core.path.Ledger := by
  obtain ⟨ha, hk, hr⟩ := hq
  have hpurged : h.core.path.purged = [] := by
    refine by_contra fun hne => ?_
    have hat := hcore.purging hne
    simp [World.AtOp, ha] at hat
  refine ⟨List.perm_iff_count.mpr fun x => ?_, hcore.ledger.counted⟩
  have hx := hcore.ledger.balanced x
  simp only [hr, Path.inFlight, hk, hpurged, IngressPc.hand, KickPc.block?, List.map_nil,
    Option.toList_none, bytesOf_nil, List.count_nil, List.append_nil] at hx
  simp only [List.count_append, Path.held]
  omega

/-- Without a file lane, and while no drain drops a batch of another session and the
shutdown finds the path empty, the loss ledger is exact whenever nothing moves, and when
the core is gone it is exact with nothing held. -/
theorem display_ledger {h : Handle} (hreach : Transition.ReachUnder handleMachine Ledgered h) :
    (h.Quiescent → h.core.path.Ledger) ∧
      (h.life = .gone → h.core.path.Ledger ∧ h.core.path.held = []) := by
  obtain ⟨hcore, hend⟩ := handleInv_reach hreach
  refine ⟨hcore.ledger_exact, fun hgone => ?_⟩
  rw [Handle.Ended, hgone] at hend
  exact ⟨hcore.ledger_exact hend.1, hend.2⟩

/-! ## Runs -/

/-- Labels of a running core. -/
def running (ls : List CoreLabel) : List HandleLabel := ls.map .core

/-- `CoreState::shutdown` of an open session whose threads are idle. -/
def shutdownRun : List HandleLabel :=
  [.destroy, .stopped, .teardown, .teardown, .core (.session (.writer .wake)), .teardown,
    .teardown, .teardown, .core (.session (.reader .stop)), .teardown, .teardown]

/-- A byte is drained and the core destroyed. -/
theorem display_ledger_drained :
    ∃ h : Handle, h.life = .gone ∧ h.core.path.delivered = [0] ∧ h.core.path.Ledger := by
  obtain ⟨h, hh, hgone, hdel⟩ := Transition.exists_of_execUnder (m := handleMachine)
    (c := Ledgered) (p := fun h => h.life = .gone ∧ h.core.path.delivered = [0])
    (running (inSession (openRun someConfig) ++
      onPath ((ingressRun [0x41]).map .reader ++ kickRun ++ drainRun 16 ++
        [.consumer .run, .consumer (.submit true)])) ++ shutdownRun) (by decide +kernel)
  exact ⟨h, hgone, hdel, ((display_ledger hh).2 hgone).1⟩

/-- A core is destroyed while its display is paused.  The block in the deferred slot is
charged, the one behind it in the RX ring is discarded without a charge. -/
theorem ring_dropped_at_shutdown :
    ∃ h : Handle, Transition.ReachUnder handleMachine (fun _ l => NoFileLane l) h ∧
      h.life = .gone ∧ h.core.path.held = [] ∧ ¬ h.core.path.Ledger := by
  obtain ⟨h, hh, hgone, hheld, hrec, hdel, hch⟩ := Transition.exists_of_execUnder
    (m := handleMachine) (c := fun _ l => NoFileLane l)
    (p := fun h => h.life = .gone ∧ h.core.path.held = [] ∧ h.core.path.received = 2 ∧
      h.core.path.delivered = [] ∧ h.core.path.charged = [0])
    (running (inSession (openRun someConfig) ++
      onPath ((optionsRun 1).map PathLabel.consumer ++ (ingressRun [0x41]).map PathLabel.reader ++
        pausedKickRun.map PathLabel.kick ++ [PathLabel.kick .run, .kick .run] ++
        (ingressRun [0x42]).map PathLabel.reader ++ pausedKickRun.map PathLabel.kick ++
        [PathLabel.kick .run, .kick .run])) ++ shutdownRun) (by decide +kernel)
  refine ⟨h, hh, hgone, hheld, fun hled => ?_⟩
  have hlen := hled.conserved.length_eq
  simp [hheld, hrec, hdel, hch] at hlen

end Xcom.Display
