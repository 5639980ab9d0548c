import Xcom.Tx.BatchSenders

/-!
# The interlock of the batch senders

Run looks at the timer of the auto-cycle and at the busy flag, the auto-cycle at the timer
of the sequence and at the busy flag, and the file send at neither.
-/

namespace Xcom.Tx.Batch

open Script.SendFile (Tracks Sound Frame UiEvent Sent Ctx Plugin streaming)
open Script.Engine (Record Copy)

/-- A sender; every load of the script is one. -/
inductive Sender
  | sequence
  | cycle
  | file (n : Nat)
  deriving DecidableEq, Repr

/-- The sender is at work. -/
def Sender.active (s : State) : Sender → Bool
  | .sequence => s.isActive .sequence
  | .cycle => s.isActive .cycle
  | .file n => streaming (copy n) (s.ctx n)

/-- At most one sender is at work, and every refusal named a party that was. -/
structure Interlocked (s : State) : Prop where
  exclusive : ∀ a b : Sender, a.active s = true → b.active s = true → a = b
  honest : ∀ r ∈ s.refusals, r.active = true

/-- A stream is started while no other sender is at work, the script is not touched while it
streams, and Run is not asked for while the auto-cycle keeps a stopped timer. -/
def Guarded (s : State) : Op → Prop
  | .runSequence _ => s.multiTimer ≠ some false
  | .uiEvent e =>
    s.engine.isEnabled sendFile = true →
      Script.SendFile.starts e (s.ctx s.load) = true →
        s.sequence = none ∧ s.multiTimer ≠ some true
  | .enable _ | .disable | .reload _ => (s.files s.load).running = false
  | _ => True

instance (s : State) : (o : Op) → Decidable (Guarded s o)
  | .runSequence _ => inferInstanceAs (Decidable (_ ≠ _))
  | .uiEvent _ => inferInstanceAs (Decidable (_ → _ → _ ∧ _))
  | .enable _ | .disable | .reload _ => inferInstanceAs (Decidable (_ = _))
  | .multiAuto _ _ | .render _ _ | .close _ | .startReset _ | .finishReset | .sequenceStep _
  | .cycleFire | .fireTimer _ | .readDone _ _ _ => inferInstanceAs (Decidable True)

/-- The parts of the invariant that do not depend on timers and reads; `r` is the record of
the script. -/
structure Rest (r : Record) (s : State) : Prop where
  known : s.engine.known = [sendFile]
  record : s.engine.scripts sendFile = some r
  enabled : (s.files r.load).running = true → r.enabled = true
  handler : ∀ f, r.env.bind (·.uiEvent) = some f → f.owner = copy r.load
  old : ∀ n, n ≠ r.load → (s.files n).running = false
  alone : (s.files r.load).running = true → s.sequence = none ∧ s.multiTimer ≠ some true
  apart : s.sequence.isSome = true → s.multiTimer ≠ some true
  honest : ∀ q ∈ s.refusals, q.active = true

/-- Old copies are at rest, and the present one publishes what it does. -/
structure Inv (r : Record) (s : State) : Prop extends Rest r s where
  tracks : Tracks (copy r.load) (s.ctx r.load)

variable {r : Record} {s : State}

namespace Rest

theorem load (h : Rest r s) : s.load = r.load := by
  simp [State.load, Script.Engine.State.loadOf, h.record]

/-- The lists of timers and reads do not matter to a copy at rest. -/
theorem setEvents (h : Rest r s) (timers : List Script.Engine.Timer)
    (reads : List Script.Engine.Read) :
    Rest r { s with engine := { s.engine with timers := timers, reads := reads } } :=
  ⟨h.known, h.record, h.enabled, h.handler, h.old, h.alone, h.apart, h.honest⟩

end Rest

namespace Inv

theorem anyScriptBusy (h : Inv r s) :
    s.engine.anyScriptBusy = (s.files r.load).running := by
  have hbusy := h.tracks.busy
  simp only [copy, State.ctx, h.record, Option.map_some, Option.some.injEq] at hbusy
  cases hrun : (s.files r.load).running with
  | false => simp [Script.Engine.State.anyScriptBusy, h.known, h.record, hbusy, hrun]
  | true =>
    have hon := h.enabled hrun
    simp [Script.Engine.State.anyScriptBusy, h.known, h.record, hbusy, hrun, hon]

/-- A copy at work is the present one. -/
theorem streaming_load (h : Inv r s) {n : Nat} (hn : streaming (copy n) (s.ctx n) = true) :
    n = r.load ∧ (s.files r.load).running = true := by
  have hrun : (s.files n).running = true := by
    simp only [streaming, State.ctx, Bool.and_eq_true] at hn
    exact hn.1
  by_cases hload : n = r.load
  · exact ⟨hload, hload ▸ hrun⟩
  · rw [h.old n hload] at hrun
    cases hrun

theorem fileActive (h : Inv r s) (hrun : (s.files r.load).running = true) :
    s.fileActive = true := by
  unfold State.fileActive
  refine List.any_eq_true.mpr ⟨r.load, ?_, h.tracks.goesOn hrun⟩
  rw [h.load]
  exact List.mem_range.mpr (Nat.lt_succ_self _)

/-- What the invariant says of the senders. -/
theorem interlocked (h : Inv r s) : Interlocked s := by
  refine ⟨?_, h.honest⟩
  intro a b ha hb
  have hfile : ∀ {n}, (Sender.file n).active s = true →
      n = r.load ∧ s.sequence = none ∧ s.multiTimer ≠ some true := by
    intro n hn
    obtain ⟨hload, hrun⟩ := h.streaming_load hn
    exact ⟨hload, h.alone hrun⟩
  have hcycle : Sender.cycle.active s = true → s.multiTimer = some true := by
    intro hc
    simpa [Sender.active, State.isActive] using hc
  have hseq : Sender.sequence.active s = true → s.sequence.isSome = true := id
  cases a with
  | sequence =>
    cases b with
    | sequence => rfl
    | cycle => exact absurd (hcycle hb) (h.apart (hseq ha))
    | file n =>
      have hnone := (hfile hb).2.1
      simp [Sender.active, State.isActive, hnone] at ha
  | cycle =>
    cases b with
    | sequence => exact absurd (hcycle ha) (h.apart (hseq hb))
    | cycle => rfl
    | file n => exact absurd (hcycle ha) (hfile hb).2.2
  | file n =>
    cases b with
    | sequence =>
      have hnone := (hfile ha).2.1
      simp [Sender.active, State.isActive, hnone] at hb
    | cycle => exact absurd (hcycle hb) (hfile ha).2.2
    | file m => rw [(hfile ha).1, (hfile hb).1]

/-- A refusal that names a party at work. -/
theorem refuse (h : Inv r s) {b : Blocker} (hb : s.isActive b = true) :
    Inv r (s.refuse b) := by
  refine ⟨⟨h.known, h.record, h.enabled, h.handler, h.old, h.alone, h.apart, ?_⟩, h.tracks⟩
  intro q hq
  rcases List.mem_cons.mp hq with rfl | hq
  · exact hb
  · exact h.honest q hq

/-- The window stops its own senders, or starts one where the others are at rest. -/
theorem setWindow (h : Inv r s) {sequence : Option Sequence} {multiTimer : Option Bool}
    {multiSnapshot : Option Snapshot} {multiAuto reset : Bool}
    (halone : (s.files r.load).running = true → sequence = none ∧ multiTimer ≠ some true)
    (hapart : sequence.isSome = true → multiTimer ≠ some true) :
    Inv r { s with
      sequence := sequence, multiTimer := multiTimer, multiSnapshot := multiSnapshot
      multiAuto := multiAuto, reset := reset } :=
  ⟨⟨h.known, h.record, h.enabled, h.handler, h.old, halone, hapart, h.honest⟩, h.tracks⟩

end Inv

/-! ## The senders of the window -/

theorem inv_stopSequence (h : Inv r s) : Inv r (stopSequence s) :=
  h.setWindow (fun hrun => ⟨rfl, (h.alone hrun).2⟩) (by simp)

theorem stopMulti_ne (s : State) : (stopMulti s).multiTimer ≠ some true := by
  cases hm : s.multiTimer <;> simp [stopMulti, hm]

theorem inv_stopMulti (h : Inv r s) : Inv r (stopMulti s) :=
  h.setWindow (fun hrun => ⟨(h.alone hrun).1, stopMulti_ne s⟩) fun _ => stopMulti_ne s

theorem inv_runSequence (h : Inv r s) (page : Page) (hguard : s.multiTimer ≠ some false) :
    Inv r (runSequence page s) := by
  unfold runSequence
  split
  · exact inv_stopSequence h
  · split
    · rename_i htimer
      refine h.refuse ?_
      cases hm : s.multiTimer with
      | none => simp [hm] at htimer
      | some on =>
        cases on with
        | false => exact absurd hm hguard
        | true => simp [State.isActive, hm]
    · rename_i htimer
      have hnone : s.multiTimer = none := by simpa using htimer
      split
      · rename_i hbusy
        exact h.refuse (h.fileActive (h.anyScriptBusy ▸ hbusy))
      · rename_i hbusy
        dsimp only
        split
        · exact h
        · refine h.setWindow ?_ (by simp [hnone])
          intro hrun
          rw [h.anyScriptBusy] at hbusy
          exact absurd hrun hbusy

theorem inv_syncMultiAuto (h : Inv r s) (page : Page) : Inv r (syncMultiAuto page s) := by
  have hoff : Inv r { s with multiAuto := false } := h.setWindow h.alone h.apart
  unfold syncMultiAuto
  split
  · rename_i hreset
    exact hoff.refuse hreset
  · split
    · exact h.setWindow (fun hrun => ⟨(h.alone hrun).1, by simp⟩) (by simp)
    · split
      · rename_i hseq
        exact hoff.refuse hseq
      · rename_i hseq
        split
        · rename_i hbusy
          exact hoff.refuse (hoff.fileActive (h.anyScriptBusy ▸ hbusy))
        · rename_i hbusy
          rw [h.anyScriptBusy] at hbusy
          exact h.setWindow (fun hrun => absurd hrun hbusy) fun hsome => absurd hsome hseq

theorem inv_sequenceStep (h : Inv r s) {o : Entry} {t : State}
    (hstep : sequenceStep o s = some t) : Inv r t := by
  obtain ⟨q, hq, rfl⟩ := Option.map_eq_some_iff.mp hstep
  have hstop := inv_stopSequence h
  have hsome : s.sequence.isSome = true := by simp [hq]
  have hnext : Inv r (if q.batch.entries.length ≤ q.index + 1 then stopSequence s
      else { s with sequence := some { q with index := q.index + 1 } }) := by
    split
    · exact hstop
    · refine h.setWindow ?_ fun _ => h.apart hsome
      intro hrun
      rw [(h.alone hrun).1] at hsome
      cases hsome
  dsimp only
  split
  · exact hstop
  · cases o with
    | noPayload => exact hnext
    | sent result =>
      dsimp only
      split
      · exact hnext
      · exact hstop

theorem inv_setOpen (h : Inv r s) (connected : Bool) :
    Inv r { s with engine := { s.engine with isOpen := connected } } :=
  ⟨⟨h.known, h.record, h.enabled, h.handler, h.old, h.alone, h.apart, h.honest⟩,
    ⟨⟨h.tracks.busy, h.tracks.fresh⟩, h.tracks.goesOn⟩⟩

theorem inv_renderUiState (h : Inv r s) (connected : Bool) (page : Page) :
    Inv r (renderUiState connected page s) := by
  have hopen := inv_setOpen h connected
  have hstop := inv_stopMulti (inv_stopSequence hopen)
  unfold renderUiState
  cases s.engine.isOpen <;> cases connected
  · exact hopen
  · exact inv_syncMultiAuto hopen page
  · exact hstop
  · exact hopen

theorem inv_coreClose (h : Inv r s) (accepted : Bool) : Inv r (coreClose accepted s) := by
  unfold coreClose
  split
  · exact inv_stopMulti (inv_stopSequence h)
  · exact h

theorem inv_startReset (h : Inv r s) (inFlight : Bool) : Inv r (startReset inFlight s) := by
  have hstop := inv_stopMulti (inv_stopSequence h)
  unfold startReset
  split
  · exact h
  · exact hstop.setWindow hstop.alone hstop.apart

/-! ## The script -/

/-- What the present copy does, from a state that differs in timers and reads. -/
theorem Rest.put (h : Rest r s) {x : Ctx} (hframe : Frame s.engine x.engine)
    (htracks : Tracks (copy r.load) x)
    (hrun : x.plugin.running = true → (s.files r.load).running = true ∨
      r.enabled = true ∧ s.sequence = none ∧ s.multiTimer ≠ some true) :
    ∃ q, Inv q (s.put r.load x) := by
  have hrecord := hframe.record sendFile
  rw [h.record, Option.map_some] at hrecord
  obtain ⟨q, hq, hkey⟩ := Option.map_eq_some_iff.mp hrecord
  simp only [Prod.mk.injEq] at hkey
  obtain ⟨hload, hon, henv⟩ := hkey
  have hself : (s.put r.load x).files r.load = x.plugin := by simp [State.put]
  have hother : ∀ n, n ≠ r.load → (s.put r.load x).files n = s.files n := by
    intro n hn
    simp [State.put, hn]
  refine ⟨q, ⟨?_, hq, ?_, ?_, ?_, ?_, h.apart, h.honest⟩, ?_⟩
  · exact hframe.known.trans h.known
  · intro hx
    rw [hload, hself] at hx
    rcases hrun hx with hold | hnew
    · exact hon.trans (h.enabled hold)
    · exact hon.trans hnew.1
  · intro f hf
    rw [henv] at hf
    rw [hload]
    exact h.handler f hf
  · intro n hn
    rw [hload] at hn
    rw [hother n hn]
    exact h.old n hn
  · intro hx
    rw [hload, hself] at hx
    rcases hrun hx with hold | hnew
    · exact h.alone hold
    · exact hnew.2
  · have hctx : (s.put r.load x).ctx r.load = x := by
      unfold State.ctx
      rw [hself]
      rfl
    rw [hload, hctx]
    exact htracks

/-- A copy that does nothing. -/
theorem put_self (s : State) (n : Nat) : s.put n (s.ctx n) = s := by
  have hfiles : (fun m => if m = n then s.files n else s.files m) = s.files := by
    funext m
    by_cases hm : m = n
    · simp [hm]
    · simp [hm]
  cases s
  simpa [State.put, State.ctx] using hfiles

theorem inv_uiEvent (h : Inv r s) {e : UiEvent}
    (hguard : s.engine.isEnabled sendFile = true →
      Script.SendFile.starts e (s.ctx s.load) = true →
        s.sequence = none ∧ s.multiTimer ≠ some true) : ∃ q, Inv q (uiEvent e s) := by
  unfold uiEvent
  split
  · rename_i hon
    have henabled : r.enabled = true := by
      simpa [Script.Engine.State.isEnabled, h.record] using hon
    split
    · exact ⟨r, h⟩
    · rename_i f hf
      have howner : f.owner.load = r.load := by
        rw [h.record, Option.bind_some] at hf
        exact congrArg Copy.load (h.handler f hf)
      dsimp only
      rw [howner]
      have hframe := Script.SendFile.frame_uiEvent (copy r.load) e (s.ctx r.load)
      refine h.toRest.put hframe (Script.SendFile.tracks_uiEvent h.tracks e) ?_
      intro hrun
      rcases Script.SendFile.uiEvent_running hrun with hold | hstart
      · exact .inl hold
      · exact .inr ⟨henabled, hguard hon (h.load ▸ hstart)⟩
  · exact ⟨r, h⟩

/-- Removing an element that does not qualify does not change what is found. -/
theorem find?_eraseP_of_ne {α : Type*} {p q : α → Bool} (l : List α)
    (hne : ∀ a, p a = true → q a = false) : (l.eraseP p).find? q = l.find? q := by
  induction l with
  | nil => rfl
  | cons a rest ih =>
    cases hp : p a with
    | true => simp [hp, hne a hp]
    | false => simp [hp, List.find?_cons, ih]

/-- The timer of another copy leaves the list. -/
theorem tracks_timerDestroy {c : Copy} {x : Ctx} (h : Tracks c x) {handle : Nat}
    {t : Script.Engine.Timer} (ht : x.engine.timers.find? (·.handle = handle) = some t)
    (howner : t.fn.owner ≠ c) :
    Tracks c { x with engine := x.engine.timerDestroy handle } := by
  refine ⟨⟨h.busy, fun u hu => h.fresh u (List.mem_of_mem_eraseP hu)⟩, ?_⟩
  intro hrun
  obtain ⟨-, hgoes⟩ := Script.SendFile.streaming_iff.mp (h.goesOn hrun)
  refine Script.SendFile.streaming_iff.mpr ⟨hrun, hgoes.imp ?_ id⟩
  intro harmed
  obtain ⟨own, u, hown, hu, huc⟩ := Script.SendFile.timerArmed_iff.mp harmed
  have hne : own ≠ handle := by
    rintro rfl
    rw [ht] at hu
    cases hu
    exact howner huc
  refine Script.SendFile.timerArmed_iff.mpr ⟨own, u, hown, ?_, huc⟩
  have hfind := find?_eraseP_of_ne (p := fun v : Script.Engine.Timer => decide (v.handle = handle))
    (q := fun v => decide (v.handle = own)) x.engine.timers ?_
  · exact hfind.trans hu
  · intro v hv
    simp only [decide_eq_true_eq] at hv
    simp [hv, hne.symm]

/-- A read the copy does not wait for completes. -/
theorem tracks_eraseRead {c : Copy} {x : Ctx} (h : Tracks c x) {index : Nat}
    {q : Script.Engine.Read} (hq : x.engine.reads[index]? = some q)
    (hother : q.fn.owner = c → x.plugin.inflight ≠ some ⟨q.fd, q.offset.toNat⟩) :
    Tracks c { x with engine := { x.engine with reads := x.engine.reads.eraseIdx index } } := by
  refine ⟨⟨h.busy, h.fresh⟩, ?_⟩
  intro hrun
  obtain ⟨-, hgoes⟩ := Script.SendFile.streaming_iff.mp (h.goesOn hrun)
  refine Script.SendFile.streaming_iff.mpr ⟨hrun, hgoes.imp id ?_⟩
  intro hpending
  obtain ⟨f, hf, u, hu, huc, hfd, hoffset⟩ := Script.SendFile.readPending_iff.mp hpending
  refine Script.SendFile.readPending_iff.mpr ⟨f, hf, u, ?_, huc, hfd, hoffset⟩
  obtain ⟨i, hi⟩ := List.getElem?_of_mem hu
  refine List.mem_eraseIdx_iff_getElem?.mpr ⟨i, ?_, hi⟩
  rintro rfl
  rw [hq] at hi
  cases hi
  refine hother huc ?_
  rw [hf, hfd, hoffset]
  simp

/-- The present copy issues a read. -/
theorem inv_issueRead (h : Rest r s) (hsound : Sound (copy r.load) (s.ctx r.load)) :
    ∃ q, Inv q (s.put r.load (Script.SendFile.issueRead (copy r.load) (s.ctx r.load))) := by
  have hframe := Script.SendFile.frame_issueRead (copy r.load) (s.ctx r.load)
  refine h.put hframe (Script.SendFile.tracks_issueRead hsound) ?_
  intro hrun
  exact .inl (Script.SendFile.issueRead_running hrun)

/-- A read of the present copy has completed. -/
theorem inv_completion (h : Rest r s) (hsound : Sound (copy r.load) (s.ctx r.load))
    (flight : Script.SendFile.Flight) (data : Option Script.Bytes) (sent : Sent)
    (hother : (s.files r.load).inflight ≠ some flight →
      Tracks (copy r.load) (s.ctx r.load)) :
    ∃ q, Inv q (s.put r.load
      (Script.SendFile.completion (copy r.load) flight data sent (s.ctx r.load))) := by
  have hframe := Script.SendFile.frame_completion (copy r.load) flight data sent (s.ctx r.load)
  refine h.put hframe (Script.SendFile.tracks_completion hsound data sent hother) ?_
  intro hrun
  exact .inl (Script.SendFile.completion_running hrun)

theorem inv_fireTimer (h : Inv r s) {handle : Nat} {t : State}
    (hfire : fireTimer handle s = some t) : ∃ q, Inv q t := by
  obtain ⟨u, hu, rfl⟩ := Option.map_eq_some_iff.mp hfire
  -- the state between the end of the timer and its function
  obtain ⟨s₁, hs₁⟩ : ∃ v : State, v = { s with engine := s.engine.timerDestroy handle } :=
    ⟨_, rfl⟩
  have hrest : Rest r s₁ := hs₁ ▸ h.toRest.setEvents _ _
  have hsound : Sound (copy r.load) (s₁.ctx r.load) := by
    subst hs₁
    exact ⟨h.tracks.busy, fun v hv => h.tracks.fresh v (List.mem_of_mem_eraseP hv)⟩
  dsimp only
  rw [← hs₁]
  by_cases hload : u.fn.owner.load = r.load
  · rw [hload]
    exact inv_issueRead hrest hsound
  · have hstopped : (s₁.ctx u.fn.owner.load).plugin.running = false :=
      hrest.old _ hload
    have hne : u.fn.owner ≠ copy r.load := by
      intro heq
      exact hload (congrArg Copy.load heq)
    have htracks : Tracks (copy r.load) (s₁.ctx r.load) := by
      rw [hs₁]
      exact tracks_timerDestroy h.tracks hu hne
    rw [Script.SendFile.issueRead_stopped hstopped, put_self]
    exact ⟨r, hrest, htracks⟩

theorem inv_readDone (h : Inv r s) {index : Nat} {data : Option Script.Bytes} {sent : Sent}
    {t : State} (hdone : readDone index data sent s = some t) : ∃ q, Inv q t := by
  obtain ⟨u, hu, rfl⟩ := Option.map_eq_some_iff.mp hdone
  obtain ⟨s₁, hs₁⟩ : ∃ v : State,
      v = { s with engine := { s.engine with reads := s.engine.reads.eraseIdx index } } :=
    ⟨_, rfl⟩
  have hrest : Rest r s₁ := hs₁ ▸ h.toRest.setEvents _ _
  have hsound : Sound (copy r.load) (s₁.ctx r.load) := by
    subst hs₁
    exact ⟨h.tracks.busy, h.tracks.fresh⟩
  have htracks : (u.fn.owner = copy r.load →
      (s.files r.load).inflight ≠ some ⟨u.fd, u.offset.toNat⟩) →
      Tracks (copy r.load) (s₁.ctx r.load) := by
    intro hother
    rw [hs₁]
    exact tracks_eraseRead h.tracks hu hother
  have hfiles : s₁.files = s.files := by rw [hs₁]
  dsimp only
  rw [← hs₁]
  by_cases hload : u.fn.owner.load = r.load
  · rw [hload]
    refine inv_completion hrest hsound _ _ _ ?_
    intro hflight
    exact htracks fun _ => hfiles ▸ hflight
  · have hstopped : (s₁.ctx u.fn.owner.load).plugin.running = false :=
      hrest.old _ hload
    rw [Script.SendFile.completion_stopped hstopped, put_self]
    refine ⟨r, hrest, htracks ?_⟩
    intro heq
    exact absurd (congrArg Copy.load heq) hload

/-! ## Loads -/

/-- What a load or a disable makes of the record. -/
def Replaced (r q : Record) : Prop :=
  (q.load = r.load ∧ q.busy = r.busy ∧ q.env = r.env) ∨
    q.load = r.load + 1 ∧ q.busy = false ∧
      ∀ f, q.env.bind (·.uiEvent) = some f → f.owner = copy q.load

/-- The engine with another record of the script, and the rest as it was. -/
structure Swapped (e e' : Script.Engine.State) (r q : Record) : Prop where
  known : e'.known = e.known
  timers : e'.timers = e.timers
  nextHandle : e'.nextHandle = e.nextHandle
  record : e'.scripts sendFile = some q
  replaced : Replaced r q

theorem swapped_disable {e : Script.Engine.State} (hr : e.scripts sendFile = some r) :
    ∃ q, Swapped e (Script.Engine.disable sendFile e) r q := by
  refine ⟨{ r with enabled := false, strikesRecv := 0, strikesSend := 0 }, ?_⟩
  constructor <;> simp [Script.Engine.disable, hr, Script.Engine.State.touch,
    Script.Engine.State.modify, Script.Engine.State.retire, Script.Engine.State.note, Replaced]

theorem swapped_loadScript {e : Script.Engine.State} (hr : e.scripts sendFile = some r)
    (found : Found) :
    ∃ q, Swapped e (Script.Engine.loadScript sendFile found.file e).1 r q := by
  cases found with
  | missing =>
    refine ⟨{ r with enabled := false }, ?_⟩
    constructor <;> simp [Script.Engine.loadScript, hr, Found.file, Script.Engine.onReload,
      Script.Engine.State.touch, Script.Engine.State.modify, Script.Engine.State.retire,
      Script.Engine.State.note, Replaced]
  | runs =>
    refine ⟨{ r.fresh sendFile with env := some {
      copy := copy (r.load + 1)
      uiEvent := some ⟨copy (r.load + 1), Script.SendFile.uiEventId⟩ } }, ?_⟩
    constructor <;> simp [Script.Engine.loadScript, hr, Found.file, Script.Engine.onReload,
      Script.Engine.State.touch, Script.Engine.State.modify, Script.Engine.State.retire,
      Script.Engine.State.note, Script.Engine.exec, Script.Engine.callApi,
      Script.Engine.State.loadOf, Record.fresh, Replaced, copy]
  | fails =>
    refine ⟨{ r.fresh sendFile with enabled := false, env := none }, ?_⟩
    constructor <;> simp [Script.Engine.loadScript, hr, Found.file, Script.Engine.onReload,
      Script.Engine.State.touch, Script.Engine.State.modify, Script.Engine.State.retire,
      Script.Engine.State.note, Script.Engine.exec, Record.fresh, Replaced]

/-- Setting the flag of a record. -/
theorem Swapped.setEnabled {e e' : Script.Engine.State} {q : Record} (h : Swapped e e' r q)
    (b : Bool) :
    Swapped e (e'.modify sendFile fun p => { p with enabled := b }) r { q with enabled := b } :=
  ⟨h.known, h.timers, h.nextHandle, by simp [Script.Engine.State.modify, h.record],
    h.replaced⟩

theorem swapped_enable {e : Script.Engine.State} (hr : e.scripts sendFile = some r)
    (found : Found) : ∃ q, Swapped e (Script.Engine.enable sendFile found.file e) r q := by
  obtain ⟨q, hq⟩ := swapped_loadScript hr found
  unfold Script.Engine.enable
  rcases hres : Script.Engine.loadScript sendFile found.file e with ⟨e', ok⟩
  rw [hres] at hq
  cases ok with
  | false => exact ⟨_, hq.setEnabled false⟩
  | true =>
    obtain ⟨hknown, htimers, hnext, hrecord, hreplaced⟩ := hq.setEnabled true
    exact ⟨_, ⟨hknown, htimers, hnext, hrecord, hreplaced⟩⟩

/-- A script at rest is loaded or disabled. -/
theorem inv_swapped (h : Inv r s) (hidle : (s.files s.load).running = false)
    {e' : Script.Engine.State} {q : Record} (hq : Swapped s.engine e' r q) :
    Inv q { s with engine := e' } := by
  have hstopped : ∀ n, (s.files n).running = false := by
    intro n
    by_cases hn : n = r.load
    · rw [hn, ← h.load]
      exact hidle
    · exact h.old n hn
  have hrest : ∀ {n}, (s.files n).running = true → False := by
    intro n hrun
    rw [hstopped n] at hrun
    cases hrun
  have hbusy : r.busy = false := by
    have htracks := h.tracks.busy
    simp only [copy, State.ctx, h.record, Option.map_some, Option.some.injEq] at htracks
    rw [htracks, hstopped]
  have hq' : q.busy = false := by
    rcases hq.replaced with ⟨-, hsame, -⟩ | ⟨-, hnew, -⟩
    · exact hsame.trans hbusy
    · exact hnew
  refine ⟨⟨hq.known.trans h.known, hq.record, fun hrun => (hrest hrun).elim, ?_,
    fun n _ => hstopped n, fun hrun => (hrest hrun).elim, h.apart, h.honest⟩, ⟨?_, ?_⟩, ?_⟩
  · intro f hf
    rcases hq.replaced with ⟨hload, -, henv⟩ | ⟨-, -, hnew⟩
    · rw [henv] at hf
      rw [hload]
      exact h.handler f hf
    · exact hnew f hf
  · simp [copy, State.ctx, hq.record, hq', hstopped]
  · intro t ht
    have hfresh : t.handle < s.engine.nextHandle := by
      refine h.tracks.fresh t ?_
      exact hq.timers ▸ ht
    exact hq.nextHandle ▸ hfresh
  · intro hrun
    exact (hrest hrun).elim

/-! ## Runs -/

theorem inv_init : ∃ r, Inv r machine.init := by
  refine ⟨{}, ⟨rfl, rfl, by simp [machine], by simp, fun n _ => rfl, by simp [machine],
    by simp [machine], by simp [machine]⟩, ⟨rfl, ?_⟩, ?_⟩
  · simp [machine, State.ctx, Script.Engine.loadAll, Script.Engine.State.touch]
  · intro hrun
    cases hrun

/-- What one step keeps. -/
theorem inv_step (h : Inv r s) {o : Op} (hguard : Guarded s o) {t : State}
    (hstep : step s o = some t) : ∃ q, Inv q t := by
  cases o with
  | runSequence page =>
    cases hstep
    exact ⟨r, inv_runSequence h page hguard⟩
  | multiAuto on page =>
    cases hstep
    exact ⟨r, inv_syncMultiAuto (h.setWindow h.alone h.apart) page⟩
  | uiEvent e =>
    cases hstep
    exact inv_uiEvent h hguard
  | enable found =>
    cases hstep
    obtain ⟨q, hq⟩ := swapped_enable h.record found
    exact ⟨q, inv_swapped h hguard hq⟩
  | disable =>
    cases hstep
    obtain ⟨q, hq⟩ := swapped_disable h.record
    exact ⟨q, inv_swapped h hguard hq⟩
  | reload found =>
    cases hstep
    obtain ⟨q, hq⟩ := swapped_loadScript h.record found
    exact ⟨q, inv_swapped h hguard hq⟩
  | render connected page =>
    cases hstep
    exact ⟨r, inv_renderUiState h connected page⟩
  | close accepted =>
    cases hstep
    exact ⟨r, inv_coreClose h accepted⟩
  | startReset inFlight =>
    cases hstep
    exact ⟨r, inv_startReset h inFlight⟩
  | finishReset =>
    cases hstep
    exact ⟨r, h.setWindow h.alone h.apart⟩
  | sequenceStep o => exact ⟨r, inv_sequenceStep h hstep⟩
  | cycleFire =>
    simp only [step, cycleFire] at hstep
    split at hstep
    · cases hstep
      exact ⟨r, h⟩
    · cases hstep
  | fireTimer handle => exact inv_fireTimer h hstep
  | readDone index data sent => exact inv_readDone h hstep

/-- In every run of guarded steps at most one sender is at work, and what is refused is
refused for a party at work. -/
theorem senders_interlocked {s : State} (hs : Transition.ReachUnder machine Guarded s) :
    Interlocked s := by
  have hinv : ∃ r, Inv r s := by
    refine hs.invariant (p := fun s => ∃ r, Inv r s) inv_init ?_
    rintro s o t ⟨r, h⟩ hguard hstep
    exact inv_step h hguard hstep
  obtain ⟨r, h⟩ := hinv
  exact h.interlocked

/-- A page with one enabled slot. -/
def samplePage : Page := { slots := [([0x41], true)] }

theorem senders_interlocked_file :
    ∃ s, Interlocked s ∧ (Sender.file 1).active s = true ∧
      s.refusals = [⟨.file, true⟩] := by
  obtain ⟨s, hs, hfile, hrefused⟩ := Transition.exists_of_execUnder (m := machine)
    (c := Guarded)
    (p := fun s => (Sender.file 1).active s = true ∧ s.refusals = [⟨.file, true⟩])
    [.render true samplePage, .enable .runs,
      .uiEvent (.browse (some [0x66]) (some 2000) (some 3)), .uiEvent .start,
      .runSequence samplePage, .fireTimer 0, .readDone 0 (some [0x42]) .ok] (by decide)
  exact ⟨s, senders_interlocked hs, hfile, hrefused⟩

/-- After a reset the timer of the auto-cycle is kept, stopped, and Run is refused. -/
theorem senders_latched : ¬ ∀ s, Transition.Reach machine s → Interlocked s := by
  intro hall
  obtain ⟨s, hs, hrefused⟩ := Transition.exists_of_execUnder (m := machine)
    (c := fun _ _ => True) (p := fun s => ⟨.cycle, false⟩ ∈ s.refusals)
    [.render true samplePage, .multiAuto true samplePage, .startReset true, .finishReset,
      .runSequence samplePage] (by decide)
  exact absurd ((hall s hs).honest _ hrefused) (by decide)

end Xcom.Tx.Batch
