import Xcom.Script.Engine

/-!
# The streaming file send

`send_file.lua` reads a file chunk by chunk: a timer issues a read, the completion sends
the chunk and arms the next timer.  The script publishes that it streams with `sys.busy`.
-/

namespace Xcom.Script.SendFile

open Engine (Copy Api callApi)

/-- The tag of the read that is acted upon. -/
structure Flight where
  fd : Nat
  offset : Nat
  deriving DecidableEq, Repr

/-- The table `state` of one copy of the script. -/
structure Plugin where
  path : Option Bytes := none
  size : Nat := 0
  fd : Option Nat := none
  offset : Nat := 0
  chunk : Nat := 1024
  chunkIdx : Nat := 2
  interval : Nat := 50
  running : Bool := false
  timer : Option Nat := none
  stallRetries : Nat := 0
  inflight : Option Flight := none
  deriving DecidableEq, Repr

/-- What `uart.send` gives back. -/
inductive Sent
  | ok
  | refused (code : Option Int)
  deriving DecidableEq, Repr

/-- The table of a copy, and the engine. -/
structure Ctx where
  plugin : Plugin
  engine : Engine.State

/-- `MAX_STALL_RETRIES`. -/
def maxStallRetries : Nat := 100

/-- `CHUNK_ITEMS`. -/
def chunkItems : List Nat := [128, 512, 1024, 4096]

/-- `MAX_CHUNK`. -/
def maxChunk : Nat := 4096

/-- `ERR_BUSY` and `ERR_FULL`. -/
def transient (code : Option Int) : Bool := code = some (-4) ∨ code = some (-5)

/-- The functions the script hands to the engine. -/
def uiEventId : Nat := 0

/-- `issue_read`, as the function of a timer. -/
def issueReadId : Nat := 1

/-- The completion of a read. -/
def completionId : Nat := 2

/-- A call on the environment. -/
def Ctx.call (x : Ctx) (c : Copy) (a : Api) : Ctx := { x with engine := callApi c a x.engine }

/-- Takes the timer back. -/
def stopTimer (c : Copy) (x : Ctx) : Ctx :=
  match x.plugin.timer with
  | some handle =>
    { x.call c (.timerStop handle) with plugin := { x.plugin with timer := none } }
  | none => x

/-- `schedule(ms, issue_read)`. -/
def schedule (c : Copy) (ms : Nat) (x : Ctx) : Ctx :=
  let y := stopTimer c x
  { y.call c (.timerStart ms issueReadId) with
    plugin := { y.plugin with timer := some y.engine.nextHandle } }

/-- `stop_running`. -/
def stopRunning (c : Copy) (x : Ctx) : Ctx :=
  stopTimer c
    { x.call c (.busy false) with plugin := { x.plugin with running := false } }

/-- `close_file`. -/
def closeFile (x : Ctx) : Ctx := { x with plugin := { x.plugin with fd := none } }

/-- `issue_read`.  An empty read is refused, and its callback fails the stream in place. -/
def issueRead (c : Copy) (x : Ctx) : Ctx :=
  if !x.plugin.running then x
  else if x.plugin.size ≤ x.plugin.offset then stopRunning c (closeFile x)
  else
    match x.plugin.fd with
    | none => stopRunning c x
    | some fd =>
      let want := min x.plugin.chunk (x.plugin.size - x.plugin.offset)
      if want = 0 then
        stopRunning c (stopRunning c
          (closeFile { x with plugin := { x.plugin with inflight := none } }))
      else
        { x.call c (.fileReadAtAsync (some fd) x.plugin.offset want completionId) with
          plugin := { x.plugin with inflight := some ⟨fd, x.plugin.offset⟩ } }

/-- The completion of a read: `data` is none for an error, `sent` is what `uart.send` says
to the chunk. -/
def completion (c : Copy) (flight : Flight) (data : Option Bytes) (sent : Sent) (x : Ctx) :
    Ctx :=
  if !x.plugin.running then x
  else if x.plugin.inflight ≠ some flight then x
  else
    let y := { x with plugin := { x.plugin with inflight := none } }
    match data.getD [] with
    | [] => stopRunning c (closeFile y)
    | b :: rest =>
      match sent with
      | .ok =>
        schedule c y.plugin.interval
          { y with plugin := { y.plugin with
              stallRetries := 0, offset := flight.offset + (b :: rest).length } }
      | .refused code =>
        if transient code then
          if maxStallRetries ≤ y.plugin.stallRetries then stopRunning c (closeFile y)
          else
            schedule c y.plugin.interval
              { y with plugin := { y.plugin with stallRetries := y.plugin.stallRetries + 1 } }
        else
          stopRunning c (closeFile { y with plugin := { y.plugin with stallRetries := 0 } })

/-- The interactions `ui.event` knows.  A browse gives the path, the size and the opened
file, each where there is one; a value is none where it is no number. -/
inductive UiEvent
  | browse (path : Option Bytes) (size fd : Option Nat)
  | chunk (value : Option Int)
  | chunkIdx (value : Option Int)
  | interval (value : Option Int)
  | start
  | resume
  | stop
  deriving DecidableEq, Repr

/-- The start of a stream: `Send` from the beginning, `Resume` from the offset. -/
def begin (c : Copy) (offset : Nat) (x : Ctx) : Ctx :=
  schedule c 0
    { x.call c (.busy true) with
      plugin := { x.plugin with offset := offset, running := true, stallRetries := 0 } }

/-- `ui.event`. -/
def uiEvent (c : Copy) (e : UiEvent) (x : Ctx) : Ctx :=
  match e with
  | .browse path size fd =>
    match path, size, fd with
    | some path, some (n + 1), some fd =>
      let y := closeFile (stopRunning c x)
      { y with plugin := { y.plugin with
          path := some path, size := n + 1, fd := some fd, offset := 0 } }
    | _, _, _ => x
  | .chunk value =>
    let v := max 1 (value.getD x.plugin.chunk)
    { x with plugin := { x.plugin with chunk := min maxChunk v.toNat } }
  | .chunkIdx value =>
    let idx := value.getD 2
    match if idx < 0 then none else chunkItems[idx.toNat]? with
    | some n => { x with plugin := { x.plugin with chunkIdx := idx.toNat, chunk := n } }
    | none => x
  | .interval value =>
    let v := max 1 (value.getD x.plugin.interval)
    { x with plugin := { x.plugin with interval := v.toNat } }
  | .start =>
    if x.plugin.fd.isSome && x.engine.isOpen then begin c 0 x else x
  | .resume =>
    if x.plugin.fd.isSome && x.engine.isOpen then begin c x.plugin.offset x else x
  | .stop => stopRunning c x

/-- The event starts a stream: a file is open and the port is. -/
def starts (e : UiEvent) (x : Ctx) : Bool :=
  (e = .start ∨ e = .resume) && (x.plugin.fd.isSome && x.engine.isOpen)

/-! ## A stream that goes on -/

/-- The timer of the copy is in the engine's list. -/
def timerArmed (c : Copy) (x : Ctx) : Bool :=
  x.plugin.timer.any fun handle =>
    (x.engine.timers.find? (·.handle = handle)).any (·.fn.owner = c)

/-- The read the copy waits for is in flight. -/
def readPending (c : Copy) (x : Ctx) : Bool :=
  x.plugin.inflight.any fun f =>
    x.engine.reads.any fun r => r.fn.owner = c ∧ r.fd = f.fd ∧ r.offset = f.offset

/-- The copy will send another chunk, or find out that it cannot. -/
def streaming (c : Copy) (x : Ctx) : Bool :=
  x.plugin.running && (timerArmed c x || readPending c x)

theorem timerArmed_iff {c : Copy} {x : Ctx} : timerArmed c x = true ↔
    ∃ handle t, x.plugin.timer = some handle ∧
      x.engine.timers.find? (·.handle = handle) = some t ∧ t.fn.owner = c := by
  constructor
  · intro h
    obtain ⟨handle, hhandle, hfound⟩ := (Option.any_eq_true _ _).mp h
    obtain ⟨t, ht, howner⟩ := (Option.any_eq_true _ _).mp hfound
    exact ⟨handle, t, hhandle, ht, by simpa using howner⟩
  · rintro ⟨handle, t, hhandle, ht, howner⟩
    simp [timerArmed, hhandle, ht, howner]

theorem readPending_iff {c : Copy} {x : Ctx} : readPending c x = true ↔
    ∃ f, x.plugin.inflight = some f ∧
      ∃ r ∈ x.engine.reads, r.fn.owner = c ∧ r.fd = f.fd ∧ r.offset = f.offset := by
  simp [readPending, Option.any_eq_true, List.any_eq_true]

theorem streaming_iff {c : Copy} {x : Ctx} : streaming c x = true ↔
    x.plugin.running = true ∧ (timerArmed c x = true ∨ readPending c x = true) := by
  simp [streaming]

/-! ## What the handlers keep -/

/-- What the script cannot change in the engine. -/
structure Frame (e e' : Engine.State) : Prop where
  known : e'.known = e.known
  isOpen : e'.isOpen = e.isOpen
  record : ∀ n, (e'.scripts n).map (fun r => (r.load, r.enabled, r.env)) =
    (e.scripts n).map fun r => (r.load, r.enabled, r.env)

/-- The record publishes what the copy does, and handles are new. -/
structure Sound (c : Copy) (x : Ctx) : Prop where
  busy : (x.engine.scripts c.script).map (·.busy) = some x.plugin.running
  fresh : ∀ t ∈ x.engine.timers, t.handle < x.engine.nextHandle

/-- In addition a running copy goes on. -/
structure Tracks (c : Copy) (x : Ctx) : Prop extends Sound c x where
  goesOn : x.plugin.running = true → streaming c x = true

section Handlers

variable {c : Copy} {x : Ctx}

theorem Frame.refl (e : Engine.State) : Frame e e := ⟨rfl, rfl, fun _ => rfl⟩

theorem Frame.trans {e e' e'' : Engine.State} (h : Frame e e') (h' : Frame e' e'') :
    Frame e e'' :=
  ⟨h'.known.trans h.known, h'.isOpen.trans h.isOpen,
    fun n => (h'.record n).trans (h.record n)⟩

theorem frame_busy (e : Engine.State) (c : Copy) (b : Bool) :
    Frame e (callApi c (.busy b) e) := by
  refine ⟨rfl, rfl, fun n => ?_⟩
  by_cases hn : n = c.script
  · cases hr : e.scripts n <;> simp [callApi, Engine.State.modify, ← hn, hr]
  · simp [callApi, Engine.State.modify, hn]

theorem frame_stopTimer (c : Copy) (x : Ctx) : Frame x.engine (stopTimer c x).engine := by
  unfold stopTimer
  split
  · exact ⟨rfl, rfl, fun _ => rfl⟩
  · exact .refl _

theorem frame_schedule (c : Copy) (ms : Nat) (x : Ctx) :
    Frame x.engine (schedule c ms x).engine :=
  (frame_stopTimer c x).trans ⟨rfl, rfl, fun _ => rfl⟩

theorem frame_stopRunning (c : Copy) (x : Ctx) :
    Frame x.engine (stopRunning c x).engine := by
  unfold stopRunning
  refine Frame.trans ?_ (frame_stopTimer c _)
  exact frame_busy x.engine c false

theorem frame_begin (c : Copy) (offset : Nat) (x : Ctx) :
    Frame x.engine (begin c offset x).engine := by
  unfold begin
  refine Frame.trans ?_ (frame_schedule c 0 _)
  exact frame_busy x.engine c true

theorem Sound.setPlugin (h : Sound c x) {p : Plugin} (hp : p.running = x.plugin.running) :
    Sound c { x with plugin := p } :=
  ⟨by rw [hp]; exact h.busy, h.fresh⟩

/-- A change of the table that keeps what the stream waits for. -/
theorem Tracks.setPlugin (h : Tracks c x) {p : Plugin} (hp : p.running = x.plugin.running)
    (htimer : p.timer = x.plugin.timer) (hinflight : p.inflight = x.plugin.inflight) :
    Tracks c { x with plugin := p } := by
  refine ⟨h.toSound.setPlugin hp, ?_⟩
  intro hrunning
  have hstreaming := h.goesOn (hp ▸ hrunning)
  simp only [streaming, timerArmed, readPending] at hstreaming ⊢
  rw [hp, htimer, hinflight]
  exact hstreaming

theorem sound_busy (h : Sound c x) (b : Bool) {p : Plugin} (hp : p.running = b) :
    Sound c { x.call c (.busy b) with plugin := p } := by
  refine ⟨?_, h.fresh⟩
  obtain ⟨r, hr, -⟩ := Option.map_eq_some_iff.mp h.busy
  simp [Ctx.call, callApi, Engine.State.modify, hr, hp]

theorem stopTimer_running (c : Copy) (x : Ctx) :
    (stopTimer c x).plugin.running = x.plugin.running := by
  unfold stopTimer
  split <;> rfl

theorem sound_stopTimer (h : Sound c x) : Sound c (stopTimer c x) := by
  unfold stopTimer
  split
  · exact ⟨h.busy, fun t ht => h.fresh t (List.mem_of_mem_eraseP ht)⟩
  · exact h

/-- A scheduled copy has its timer. -/
theorem tracks_schedule (h : Sound c x) (ms : Nat) : Tracks c (schedule c ms x) := by
  have hsound := sound_stopTimer h
  refine ⟨⟨hsound.busy, ?_⟩, ?_⟩
  · intro t ht
    rcases List.mem_append.mp ht with ht | ht
    · exact Nat.lt_succ_of_lt (hsound.fresh t ht)
    · rw [List.mem_singleton.mp ht]
      exact Nat.lt_succ_self _
  · intro hrunning
    have hnone : (stopTimer c x).engine.timers.find?
        (·.handle = (stopTimer c x).engine.nextHandle) = none := by
      refine List.find?_eq_none.mpr ?_
      intro t ht
      simpa using Nat.ne_of_lt (hsound.fresh t ht)
    have harmed : timerArmed c (schedule c ms x) = true := by
      simp [timerArmed, schedule, Ctx.call, callApi, Engine.State.timerCreate,
        List.find?_append, hnone]
    simp [streaming, hrunning, harmed]

theorem stopRunning_running (c : Copy) (x : Ctx) :
    (stopRunning c x).plugin.running = false :=
  stopTimer_running c _

theorem tracks_stopRunning (h : Sound c x) : Tracks c (stopRunning c x) := by
  refine ⟨sound_stopTimer (sound_busy h false rfl), ?_⟩
  intro hrunning
  rw [stopRunning_running] at hrunning
  cases hrunning

theorem tracks_begin (h : Sound c x) (offset : Nat) : Tracks c (begin c offset x) :=
  tracks_schedule (sound_busy h true rfl) 0

/-- A copy at rest does nothing. -/
theorem issueRead_stopped (hstopped : x.plugin.running = false) : issueRead c x = x := by
  simp [issueRead, hstopped]

theorem completion_stopped (hstopped : x.plugin.running = false) (flight : Flight)
    (data : Option Bytes) (sent : Sent) : completion c flight data sent x = x := by
  simp [completion, hstopped]

/-- A read that is not empty is issued. -/
theorem callApi_read (c : Copy) (e : Engine.State) (fd offset : Nat) {want : Nat}
    (hwant : ¬want = 0) :
    callApi c (.fileReadAtAsync (some fd) offset want completionId) e =
      { e with reads := e.reads ++
          [⟨fd, offset, min (want : Int) Engine.fileWindowBytes, ⟨c, completionId⟩⟩] } := by
  have hargs : ¬ ((offset : Int) < 0 ∨ (want : Int) ≤ 0) := by omega
  simp only [callApi, if_neg hargs]

/-- Issuing a read needs no timer: the stream waits for the read, or has ended. -/
theorem tracks_issueRead (h : Sound c x) : Tracks c (issueRead c x) := by
  unfold issueRead
  split
  · rename_i hstopped
    refine ⟨h, ?_⟩
    intro hrunning
    simp [hrunning] at hstopped
  · rename_i hrunning
    split
    · exact tracks_stopRunning (h.setPlugin rfl)
    · split
      · exact tracks_stopRunning h
      · rename_i fd _
        dsimp only
        split
        · have hclosed : Sound c
              (closeFile { x with plugin := { x.plugin with inflight := none } }) :=
            h.setPlugin rfl
          exact tracks_stopRunning (tracks_stopRunning hclosed).toSound
        · rename_i hwant
          have hcall := callApi_read c x.engine fd x.plugin.offset hwant
          refine ⟨⟨?_, ?_⟩, ?_⟩
          · simp only [Ctx.call, hcall]
            exact h.busy
          · simp only [Ctx.call, hcall]
            exact h.fresh
          · intro _
            have hread : x.plugin.running = true := by simpa using hrunning
            simp only [streaming, readPending, Ctx.call, hcall, hread]
            simp

theorem frame_issueRead (c : Copy) (x : Ctx) : Frame x.engine (issueRead c x).engine := by
  unfold issueRead
  split
  · exact .refl _
  · split
    · exact frame_stopRunning c (closeFile x)
    · split
      · exact frame_stopRunning c x
      · dsimp only
        split
        · refine Frame.trans ?_ (frame_stopRunning c _)
          refine Frame.trans ?_ (frame_stopRunning c _)
          exact .refl _
        · refine ⟨?_, ?_, fun n => ?_⟩ <;> simp only [Ctx.call, callApi] <;> split <;> rfl

theorem issueRead_running (hrun : (issueRead c x).plugin.running = true) :
    x.plugin.running = true := by
  by_contra hstopped
  rw [issueRead_stopped (by simpa using hstopped)] at hrun
  exact hstopped hrun

/-- A completion that is acted upon ends in a new timer or in the end of the stream. -/
theorem tracks_completion (h : Sound c x) {flight : Flight} (data : Option Bytes)
    (sent : Sent) (hother : x.plugin.inflight ≠ some flight → Tracks c x) :
    Tracks c (completion c flight data sent x) := by
  unfold completion
  split
  · rename_i hstopped
    refine ⟨h, ?_⟩
    intro hrunning
    simp [hrunning] at hstopped
  · split
    · rename_i hflight
      exact hother hflight
    · have hset : ∀ {p : Plugin}, p.running = x.plugin.running →
          Sound c { x with plugin := p } := h.setPlugin
      dsimp only
      split
      · exact tracks_stopRunning (hset rfl)
      · split
        · refine tracks_schedule ?_ _
          exact hset rfl
        · split
          · split
            · exact tracks_stopRunning (hset rfl)
            · refine tracks_schedule ?_ _
              exact hset rfl
          · exact tracks_stopRunning (hset rfl)

theorem frame_completion (c : Copy) (flight : Flight) (data : Option Bytes) (sent : Sent)
    (x : Ctx) : Frame x.engine (completion c flight data sent x).engine := by
  unfold completion
  split
  · exact .refl _
  · split
    · exact .refl _
    · have hstop : ∀ {y : Ctx}, y.engine = x.engine →
          Frame x.engine (stopRunning c y).engine := fun he => he ▸ frame_stopRunning c _
      have hschedule : ∀ {y : Ctx} {ms : Nat}, y.engine = x.engine →
          Frame x.engine (schedule c ms y).engine := fun he => he ▸ frame_schedule c _ _
      dsimp only
      split
      · exact hstop rfl
      · split
        · exact hschedule rfl
        · split
          · split
            · exact hstop rfl
            · exact hschedule rfl
          · exact hstop rfl

theorem completion_running {flight : Flight} {data : Option Bytes} {sent : Sent}
    (hrun : (completion c flight data sent x).plugin.running = true) :
    x.plugin.running = true := by
  by_contra hstopped
  rw [completion_stopped (by simpa using hstopped)] at hrun
  exact hstopped hrun

theorem tracks_uiEvent (h : Tracks c x) (e : UiEvent) : Tracks c (uiEvent c e x) := by
  cases e with
  | browse path size fd =>
    have hstopped := tracks_stopRunning h.toSound
    simp only [uiEvent]
    split
    · exact hstopped.setPlugin rfl rfl rfl
    · exact h
  | chunk value => exact h.setPlugin rfl rfl rfl
  | chunkIdx value =>
    simp only [uiEvent]
    split
    · exact h.setPlugin rfl rfl rfl
    · exact h
  | interval value => exact h.setPlugin rfl rfl rfl
  | start =>
    simp only [uiEvent]
    split
    · exact tracks_begin h.toSound 0
    · exact h
  | resume =>
    simp only [uiEvent]
    split
    · exact tracks_begin h.toSound _
    · exact h
  | stop => exact tracks_stopRunning h.toSound

theorem frame_uiEvent (c : Copy) (e : UiEvent) (x : Ctx) :
    Frame x.engine (uiEvent c e x).engine := by
  cases e with
  | browse path size fd =>
    simp only [uiEvent]
    split
    · exact frame_stopRunning c x
    · exact .refl _
  | chunk value => exact .refl _
  | chunkIdx value =>
    simp only [uiEvent]
    split <;> exact .refl _
  | interval value => exact .refl _
  | start =>
    simp only [uiEvent]
    split
    · exact frame_begin c 0 x
    · exact .refl _
  | resume =>
    simp only [uiEvent]
    split
    · exact frame_begin c _ x
    · exact .refl _
  | stop => exact frame_stopRunning c x

/-- Only `Send` and `Resume` start a stream. -/
theorem uiEvent_running {e : UiEvent} (hrun : (uiEvent c e x).plugin.running = true) :
    x.plugin.running = true ∨ starts e x = true := by
  cases e with
  | browse path size fd =>
    simp only [uiEvent] at hrun
    split at hrun
    · simp [closeFile, stopRunning_running] at hrun
    · exact .inl hrun
  | chunk value => exact .inl hrun
  | chunkIdx value =>
    simp only [uiEvent] at hrun
    split at hrun <;> exact .inl hrun
  | interval value => exact .inl hrun
  | start =>
    simp only [uiEvent] at hrun
    split at hrun
    · rename_i hopen
      exact .inr (by simpa [starts] using hopen)
    · exact .inl hrun
  | resume =>
    simp only [uiEvent] at hrun
    split at hrun
    · rename_i hopen
      exact .inr (by simpa [starts] using hopen)
    · exact .inl hrun
  | stop =>
    rw [uiEvent, stopRunning_running] at hrun
    cases hrun

end Handlers

end Xcom.Script.SendFile
