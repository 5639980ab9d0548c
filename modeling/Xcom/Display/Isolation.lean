import Xcom.Display.Core

/-!
# Session isolation of the display

A batch is labelled with the generation that is current when it is pushed, not with the
one its bytes arrived under.  The two agree as long as no received byte outlives its
session in front of the display lane.
-/

namespace Xcom.Display

open DispOp

/-- The session an ingress received its bytes in, from its check of the port state to
its last block. -/
def IngressPc.mark? : IngressPc → Option Mark
  | .acquireLease _ _ m => some m
  | .alloc i | .publish i _ | .blockedAdmission i | .blockedState i | .unowned i => some i.mark
  | _ => none

/-- The block `rx_kick_action` has in hand. -/
def KickPc.block? : KickPc → Option RxDesc
  | .loadPause _ d | .acquire _ d | .format _ d | .discard _ d | .push _ d _ => some d
  | _ => none

/-- Drained text carries the generation its bytes were received under, and no OPEN has
been published since. -/
def Drained.Isolated (d : Drained) : Prop :=
  d.batch.gen = d.batch.source.mark.generation ∧ d.batch.source.mark.opens = d.opens

instance (d : Drained) : Decidable d.Isolated := inferInstanceAs (Decidable (_ ∧ _))

namespace Path

/-- `d` has not been formatted yet. -/
def Awaits (p : Path) (d : RxDesc) : Prop :=
  d ∈ p.ring ∨ p.deferred = some d ∨ p.kick.block? = some d

/-- `b` is in the display lane. -/
def Displays (p : Path) (b : Batch) : Prop := b ∈ p.ready ∨ ∃ offset, p.active = some (b, offset)

/-- Everything drained stayed in its session. -/
def DisplayIsolated (p : Path) : Prop := ∀ d ∈ p.drained, d.Isolated

end Path

/-- No block waits in front of the display lane when a session is committed or closed, no
drain is under way when a session is committed, and the generations do not wrap. -/
def CommitsClear (c : Core) : CoreLabel → Prop
  | .session (.disp _) =>
    (c.world.AtOp commitOpen → ¬ c.path.Undelivered ∧ c.path.consumer.loaded = none ∧
      c.world.core.openGeneration.toNat + 1 < 2 ^ 32) ∧
    (c.world.AtOp commitClose → ¬ c.path.Undelivered ∧
      c.world.core.generation.toNat + 1 < 2 ^ 32)
  | _ => True

instance (c : Core) : DecidablePred (CommitsClear c)
  | .session (.disp _) => inferInstanceAs (Decidable (_ ∧ _))
  | .session (.abi _) => inferInstanceAs (Decidable True)
  | .session (.reader _) => inferInstanceAs (Decidable True)
  | .session (.writer _) => inferInstanceAs (Decidable True)
  | .purge => inferInstanceAs (Decidable True)
  | .path _ => inferInstanceAs (Decidable True)

/-- `m` is the session that is open now. -/
structure Now (w : World) (m : Mark) : Prop where
  generation : m.generation = w.core.generation
  current : w.core.generation = w.core.openGeneration
  opens : m.opens = w.openings

/-- A batch of an earlier session, or of the open one. -/
structure Labelled (w : World) (b : Batch) : Prop where
  label : b.gen = b.source.mark.generation
  session : b.gen.toNat < w.core.openGeneration.toNat ∨
    b.gen = w.core.openGeneration ∧ ¬ Committed w.agenda ∧ b.source.mark.opens = w.openings

/-- What keeps the display isolated. -/
structure IsolationInv (c : Core) : Prop where
  ahead : c.world.core.openGeneration.toNat ≤ c.world.core.generation.toNat
  committed : Committed c.world.agenda → ¬ c.path.Undelivered
  running : c.path.reader ≠ .idle → c.world.reader = .running
  kicking : c.path.kick ≠ .idle → c.world.agenda = []
  receiving : ∀ m, c.path.reader.mark? = some m → Now c.world m ∧ c.world.ReaderLive
  awaiting : ∀ d, c.path.Awaits d → Now c.world d.mark
  displayed : ∀ b, c.path.Displays b → Labelled c.world b
  loaded : ∀ g, c.path.consumer.loaded = some g →
    c.world.core.openGeneration.toNat ≤ g.toNat
  copying : ∀ capacity g b offset, c.path.consumer = .copy capacity g →
    c.path.active = some (b, offset) → b.gen = g
  isolated : c.path.DisplayIsolated

theorem Now.quiet {w w' : World} {m : Mark} (h : Now w m) (hq : QuietStep w w') : Now w' m where
  generation := by rw [hq.generation]; exact h.generation
  current := by rw [hq.generation, hq.openGeneration]; exact h.current
  opens := by rw [hq.openings]; exact h.opens

theorem Labelled.quiet {w w' : World} {b : Batch} (h : Labelled w b) (hq : QuietStep w w') :
    Labelled w' b where
  label := h.label
  session := by
    rw [hq.openGeneration, hq.openings]
    exact h.session.imp_right fun ⟨hg, hc, ho⟩ => ⟨hg, fun hc' => hc (hq.committed hc'), ho⟩

theorem Labelled.le {w : World} {b : Batch} (h : Labelled w b) :
    b.gen.toNat ≤ w.core.openGeneration.toNat := by
  rcases h.session with hlt | ⟨heq, -⟩
  · exact hlt.le
  · rw [heq]

/-! ## The owner -/

/-- Nothing waits in front of a lane whose ring, slot and Dispatcher are empty. -/
theorem not_awaits {c : Core} (hkick : c.path.kick ≠ .idle → c.world.agenda = [])
    (ha : c.world.agenda ≠ []) (hu : ¬ c.path.Undelivered) (d : RxDesc) :
    ¬ c.path.Awaits d := by
  have hidle : c.path.kick = .idle := by_contra fun hne => ha (hkick hne)
  simp only [Path.Undelivered, not_or, not_not] at hu
  simp [Path.Awaits, hu.1, hu.2, hidle, KickPc.block?]

theorem IsolationInv.effect {c : Core} {l : Xcom.Label} {path : Path} {world : World}
    (h : OwnerEffect c l path)
    (hinv : IsolationInv ⟨world, c.path⟩) : IsolationInv ⟨world, path⟩ := by
  cases h with
  | none => exact hinv
  | releaseDeferred ha =>
    have hsame : c.path.releaseDeferred = c.path ∨ ∃ bytes charged,
        c.path.releaseDeferred = { c.path with
          saveRejectedBytes := bytes, charged := charged, deferred := none } := by
      unfold Path.releaseDeferred
      split
      · exact .inl rfl
      · split
        · exact .inr ⟨_, _, rfl⟩
        · exact .inr ⟨_, _, rfl⟩
    rcases hsame with heq | ⟨bytes, charged, heq⟩
    · rw [heq]
      exact hinv
    · rw [heq]
      refine { hinv with committed := fun hc hu => ?_, awaiting := fun d hd => ?_ }
      · exact hinv.committed hc (hu.imp_right fun hne => absurd rfl hne)
      · refine hinv.awaiting d (hd.imp_right (.imp_left ?_))
        exact fun hno => by cases hno
  | commitReset ha hr => exact { hinv with }

/-- A commit finds the read thread outside an ingress. -/
theorem IsolationInv.not_receiving {c : Core} (hinv : IsolationInv c)
    (hs : c.world.serialState ≠ .portOpen) (hj : joinReader ∉ c.world.agenda) (m : Mark) :
    c.path.reader.mark? ≠ some m := by
  intro hm
  rcases (hinv.receiving m hm).2 with ho | hl
  · exact hs ho
  · exact hj hl

/-- A session that begins or ends finds nothing of the path under way. -/
theorem IsolationInv.boundary {c : Core} {world : World} (hinv : IsolationInv c)
    (hrunning : c.path.reader ≠ .idle → world.reader = .running)
    (hkicking : c.path.kick ≠ .idle → world.agenda = [])
    (hs : c.world.serialState ≠ .portOpen) (hj : joinReader ∉ c.world.agenda)
    (ha : c.world.agenda ≠ []) (hclear : ¬ c.path.Undelivered)
    (hahead : world.core.openGeneration.toNat ≤ world.core.generation.toNat)
    (hdisplayed : ∀ b, c.path.Displays b → Labelled world b)
    (hloaded : ∀ g, c.path.consumer.loaded = some g →
      world.core.openGeneration.toNat ≤ g.toNat) :
    IsolationInv ⟨world, c.path⟩ :=
  { hinv with
    ahead := hahead
    committed := fun _ => hclear
    running := hrunning
    kicking := hkicking
    receiving := fun m hm => absurd hm (hinv.not_receiving hs hj m)
    awaiting := fun d hd => absurd hd (not_awaits hinv.kicking ha hclear d)
    displayed := hdisplayed
    loaded := hloaded }

theorem IsolationInv.session {c : Core} {l : Xcom.Label} {world : World}
    (hag : Agenda c.world.serialState c.world.agenda)
    (hocc : c.occupied l = false) (hstep : c.world.step l = some world)
    (hc : CommitsClear c (.session l)) (hinv : IsolationInv c) :
    IsolationInv ⟨world, c.path⟩ := by
  have hrunning : c.path.reader ≠ .idle → world.reader = .running := by
    intro hne
    refine step_running hag hstep (fun r hl => ?_) (hinv.running hne)
    rw [hl] at hocc
    simp [Core.occupied, hne] at hocc
  have hkicking : c.path.kick ≠ .idle → world.agenda = [] := by
    intro hne
    refine (step_agenda hstep fun d hl => ?_).trans (hinv.kicking hne)
    rw [hl] at hocc
    simp [Core.occupied, hne] at hocc
  cases step_boundary hag hstep with
  | commitOpen l ha hs =>
    obtain ⟨hclear, hdrain, hmax⟩ := hc.1 (by simp [World.AtOp, ha])
    have hnext : (c.world.core.openGeneration + 1).toNat =
        c.world.core.openGeneration.toNat + 1 := by
      rw [UInt32.toNat_add, UInt32.toNat_one, Nat.mod_eq_of_lt hmax]
    refine hinv.boundary hrunning hkicking (by simp [hs]) (by simp [ha]) (by simp [ha]) hclear
      (le_refl _) ?_ ?_
    · intro b hb
      have hle := (hinv.displayed b hb).le
      exact ⟨(hinv.displayed b hb).label, .inl (by dsimp only; omega)⟩
    · intro g hg
      rw [hdrain] at hg
      cases hg
  | publishOpen l ha hs =>
    have hcm : Committed c.world.agenda := .inr ha
    refine hinv.boundary hrunning hkicking (by simp [hs]) (by simp [ha]) (by simp [ha])
      (hinv.committed hcm) hinv.ahead ?_ hinv.loaded
    intro b hb
    exact ⟨(hinv.displayed b hb).label,
      (hinv.displayed b hb).session.imp_right fun hs => absurd hcm hs.2.1⟩
  | commitClose l ha hs =>
    obtain ⟨hclear, hmax⟩ := hc.2 (by simp [World.AtOp, ha])
    have hnext : (c.world.core.generation + 1).toNat = c.world.core.generation.toNat + 1 := by
      rw [UInt32.toNat_add, UInt32.toNat_one, Nat.mod_eq_of_lt hmax]
    have hahead := hinv.ahead
    refine hinv.boundary hrunning hkicking (by simp [hs]) (by simp [ha]) (by simp [ha]) hclear
      (by dsimp only; omega) ?_ hinv.loaded
    intro b hb
    exact ⟨(hinv.displayed b hb).label, (hinv.displayed b hb).session.imp_right
      fun hs => ⟨hs.1, by simp [Committed], hs.2.2⟩⟩
  | quiet l hq =>
    exact
      { hinv with
        ahead := by dsimp only; rw [hq.generation, hq.openGeneration]; exact hinv.ahead
        committed := fun hc' => hinv.committed (hq.committed hc')
        running := hrunning
        kicking := hkicking
        receiving := fun m hm => by
          obtain ⟨hnow, hlive⟩ := hinv.receiving m hm
          have hne : c.path.reader ≠ .idle := fun hidle => by
            simp [hidle, IngressPc.mark?] at hm
          exact ⟨hnow.quiet hq, hq.live (hinv.running hne) hlive⟩
        awaiting := fun d hd => (hinv.awaiting d hd).quiet hq
        displayed := fun b hb => (hinv.displayed b hb).quiet hq
        loaded := by dsimp only; rw [hq.openGeneration]; exact hinv.loaded }

/-! ## The three threads of the path -/

theorem finish_mark? (i : Ingress) : i.finish.mark? = none := by
  unfold Ingress.finish afterKick
  split
  · rfl
  · split <;> rfl

theorem IngressStep.isolation {c : Core} {l : IngressLabel} {path : Path}
    (h : IngressStep c.world.env c.path l path) (hw : c.world.reader = .running)
    (hag : Agenda c.world.serialState c.world.agenda) (hview : ViewInv c.world)
    (hgen : SessionGeneration c.world) (hinv : IsolationInv c) :
    IsolationInv ⟨c.world, path⟩ := by
  have hrec := hinv.receiving
  cases h with
  | opened data first hpc hs =>
    have hopen : c.world.serialState = .portOpen := by
      have hs : c.world.core.portState = .portOpen := hs
      rcases hview with heq | hf
      · exact heq ▸ hs
      · simp [hf] at hs
    refine { hinv with running := fun _ => hw, receiving := fun m hm => ?_ }
    cases hm
    exact ⟨⟨rfl, hgen (.inl hopen), rfl⟩, .inl hopen⟩
  | publish i displayOk ms hpc =>
    obtain ⟨hnow, hlive⟩ := hrec i.mark (by rw [hpc]; rfl)
    refine { hinv with
      running := fun _ => hw, committed := fun hcm _ => ?_, receiving := fun m hm => ?_
      awaiting := fun d hd => ?_ }
    · have hcm : Committed c.world.agenda := hcm
      rcases hlive with ho | hj
      · exact (ho ▸ hag).not_committed hcm
      · rcases hcm with ha | ha <;> simp [ha] at hj
    · have hm : m = i.mark := by
        dsimp only at hm
        split at hm
        · rw [finish_mark?] at hm
          cases hm
        · exact (Option.some.inj hm).symm
      exact hm ▸ ⟨hnow, hlive⟩
    · rcases hd with hd | hd
      · dsimp only at hd
        split at hd
        · rcases List.mem_append.mp hd with hd | hd
          · exact hinv.awaiting d (.inl hd)
          · obtain rfl := List.mem_singleton.mp hd
            exact hnow
        · exact hinv.awaiting d (.inl hd)
      · exact hinv.awaiting d (.inr hd)
  | unowned i hpc =>
    refine { hinv with running := fun _ => hw, receiving := fun m hm => ?_ }
    rw [finish_mark?] at hm
    cases hm
  | armFailed fileLane hpc hg =>
    exact { hinv with
      running := fun _ => hw, receiving := fun m hm => by cases fileLane <;> cases hm }
  | submitted fileLane hpc =>
    exact { hinv with
      running := fun _ => hw, receiving := fun m hm => by cases fileLane <;> cases hm }
  | refused fileLane hpc =>
    exact { hinv with
      running := fun _ => hw, receiving := fun m hm => by cases fileLane <;> cases hm }
  | closing i hpc =>
    refine { hinv with running := fun _ => hw, receiving := fun m hm => hrec m ?_ }
    rcases hpc with hpc | hpc <;> exact hpc ▸ hm
  | _ hpc =>
    refine { hinv with running := fun _ => hw, receiving := fun m hm => ?_ }
    simp_all [IngressPc.mark?]

theorem KickStep.isolation {c : Core} {l : KickLabel} {path : Path}
    (h : KickStep c.world.env c.path l path) (hw : c.world.agenda = [])
    (hinv : IsolationInv c) : IsolationInv ⟨c.world, path⟩ := by
  have hcm : ¬ Committed c.world.agenda := by simp [hw, Committed]
  have hawait := hinv.awaiting
  cases h with
  | push n d text hpc hr =>
    have hnow : Now c.world d.mark := hawait d (.inr (.inr (by rw [hpc]; rfl)))
    refine { hinv with
      committed := fun hc => absurd hc hcm, kicking := fun _ => hw
      awaiting := fun d hd => ?_, displayed := fun b hb => ?_ }
    · exact hawait d (hd.imp_right (.imp_right fun hd => by cases hd))
    · rcases hb with hb | hb
      · rcases List.mem_append.mp hb with hb | hb
        · exact hinv.displayed b (.inl hb)
        · obtain rfl := List.mem_singleton.mp hb
          exact ⟨hnow.generation.symm, .inr ⟨hnow.current, hcm, hnow.opens⟩⟩
      · exact hinv.displayed b (.inr hb)
  | _ =>
    refine { hinv with
      committed := fun hc => absurd hc hcm, kicking := fun _ => hw, awaiting := fun d hd => ?_ }
    refine hawait d ?_
    simp_all [Path.Awaits, KickPc.block?] <;> grind

/-- Text that is copied out of a batch of the loaded generation stayed in its session. -/
theorem IsolationInv.copied {c : Core} (hinv : IsolationInv c) {capacity : Nat} {g : UInt32}
    {b : Batch} {offset : Nat} (hpc : c.path.consumer = .copy capacity g)
    (ha : c.path.active = some (b, offset)) (chunk : List UInt8) :
    Drained.Isolated ⟨b, chunk, c.world.openings⟩ := by
  have hb := hinv.displayed b (.inr ⟨offset, ha⟩)
  have hg : b.gen = g := hinv.copying capacity g b offset hpc ha
  have hle := hinv.loaded g (by rw [hpc]; rfl)
  refine ⟨hb.label, ?_⟩
  rcases hb.session with hlt | ⟨-, -, ho⟩
  · rw [hg] at hlt
    omega
  · exact ho

theorem ConsumerStep.isolation {c : Core} {l : ConsumerLabel} {path : Path}
    (h : ConsumerStep c.world.env c.path l path) (hinv : IsolationInv c) :
    IsolationInv ⟨c.world, path⟩ := by
  have hloaded := hinv.loaded
  have hshown := hinv.displayed
  have hcopying := hinv.copying
  cases h with
  | returned l hpc => exact hinv
  | loadGeneration capacity hpc =>
    refine { hinv with loaded := fun g hg => ?_, copying := by simp }
    cases hg
    exact hinv.ahead
  | keepActive capacity g b offset hpc ha hg =>
    refine { hinv with loaded := ?_, copying := fun capacity' g' b' offset' hc ha' => ?_ }
    · simp_all [ConsumerPc.loaded]
    · cases hc
      simp_all
  | popReady capacity g b ready hpc hr hg =>
    refine { hinv with
      loaded := ?loaded, displayed := fun b' hb' => hshown b' ?_
      copying := fun capacity' g' b' offset' hc ha' => ?_ }
    case loaded => simp_all [ConsumerPc.loaded]
    · unfold Path.Displays
      rw [hr]
      rcases hb' with hb' | ⟨offset', hb'⟩
      · exact .inl (List.mem_cons_of_mem _ hb')
      · cases hb'
        exact .inl List.mem_cons_self
    · cases hc
      cases ha'
      exact hg
  | popStale capacity g b ready hpc hr hg =>
    refine { hinv with
      loaded := ?loaded, displayed := fun b' hb' => hshown b' (hb'.imp_left fun hb' => ?_)
      copying := by simp }
    case loaded => simp_all [ConsumerPc.loaded]
    · rw [hr]
      exact List.mem_cons_of_mem _ hb'
  | copyLast capacity g b offset chunk hpc ha =>
    refine { hinv with
      loaded := by simp [ConsumerPc.loaded]
      displayed := fun b' hb' => hshown b' (hb'.imp_right (by simp))
      copying := by simp, isolated := fun d hd => ?_ }
    rcases List.mem_cons.mp hd with rfl | hd
    · exact hinv.copied hpc ha chunk
    · exact hinv.isolated d hd
  | copyPart capacity g b offset offset' chunk hpc ha =>
    refine { hinv with
      loaded := by simp [ConsumerPc.loaded], displayed := fun b' hb' => hshown b' ?_
      copying := by simp, isolated := fun d hd => ?_ }
    · refine hb'.imp_right fun hb' => ?_
      obtain ⟨o, hb'⟩ := hb'
      cases hb'
      exact ⟨offset, ha⟩
    · rcases List.mem_cons.mp hd with rfl | hd
      · exact hinv.copied hpc ha chunk
      · exact hinv.isolated d hd
  | storePause o resume hpc =>
    refine { hinv with loaded := ?_, copying := ?_ } <;> cases resume <;> simp [ConsumerPc.loaded]
  | _ =>
    refine { hinv with
      loaded := ?_, displayed := fun b' hb' => hshown b' ?_, copying := ?_ }
    all_goals simp_all [ConsumerPc.loaded, Path.Displays]

theorem isolationInv_reach {c : Core}
    (h : Transition.ReachUnder coreMachine CommitsClear c) : IsolationInv c := by
  refine h.invariantUsing (q := fun c => Transition.Reach sessionMachine c.world)
    (fun _ h => session_reach h) ?_ ?_
  · constructor <;> simp [coreMachine, Committed, Path.Undelivered, IngressPc.mark?,
      Path.Awaits, KickPc.block?, Path.Displays, ConsumerPc.loaded, Path.DisplayIsolated]
  intro c l c' hw hinv hc hstep
  have hag := agenda_reach hw
  cases coreStep_cases hstep with
  | session l path world hocc heffect hmove =>
    exact (hinv.session hag hocc hmove hc).effect heffect
  | purge b ready ha hr =>
    exact { hinv with
      displayed := fun b' hb' => hinv.displayed b' (hb'.imp_left fun hb' => by
        rw [hr]; exact List.mem_cons_of_mem _ hb') }
  | reader l path hw' hmove =>
    exact hmove.isolation hw' hag (viewInv_reach hw) (sessionGeneration_reach hw) hinv
  | kick l path hw' hmove => exact hmove.isolation hw' hinv
  | consumer l path hw' hmove => exact hmove.isolation hinv

/-- Labels of the session. -/
def inSession (ls : List Xcom.Label) : List CoreLabel := ls.map .session

/-- Labels of the display path. -/
def onPath (ls : List PathLabel) : List CoreLabel := ls.map .path

/-- `rx_kick_action` of one block that formats to text and finds the ring empty after. -/
def kickRun : List PathLabel :=
  .kick .dispatch :: List.replicate 9 (.kick .run)

/-- One `xcom_drain_display` of a whole batch, up to its try of the gate. -/
def drainRun (capacity : Nat) : List PathLabel :=
  .consumer (.drainCall capacity) :: List.replicate 6 (.consumer .run)

/-- A close of a session whose read thread is still to submit the kick of its last
block, up to the return of `xcom_close`. -/
def closeDuringIngressRun : List CoreLabel :=
  onPath ((ingressRun [0x41]).dropLast.dropLast.map .reader) ++
    inSession (queueCloseRun.map Label.abi ++ [Label.disp (.dispatch 0), .disp .run]) ++
    onPath [.reader .run, .reader (.submit true)] ++
    inSession (closeRun.drop 2 ++ [Label.abi (.poll false)])

end Xcom.Display
