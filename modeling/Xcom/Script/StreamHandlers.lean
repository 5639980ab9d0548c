import Xcom.Script.SendStream

/-!
# What a handler does to the stream

What a handler does is read off a few fields of the table of the copy and the reads that
are out.  Each handler leaves the stream as it is, halts it, starts it or moves it by the
chunk that was read; and the descriptors stay in order.
-/

namespace Xcom.Script.SendFile

open Engine (Copy)

/-! ## What the handlers do to the stream -/

/-- What the laws of the stream are about. -/
structure Core where
  fd : Option Nat
  size : Nat
  offset : Nat
  running : Bool
  stallRetries : Nat
  inflight : Option Flight
  reads : List Engine.Read

def Ctx.core (x : Ctx) : Core where
  fd := x.plugin.fd
  size := x.plugin.size
  offset := x.plugin.offset
  running := x.plugin.running
  stallRetries := x.plugin.stallRetries
  inflight := x.plugin.inflight
  reads := x.engine.reads

/-- The stream is halted; the file may be closed and the read given up. -/
structure Core.Halts (k k' : Core) : Prop where
  fd : k'.fd = k.fd ∨ k'.fd = none
  size : k'.size = k.size
  offset : k'.offset = k.offset
  running : k'.running = false
  inflight : k'.inflight = k.inflight ∨ k'.inflight = none
  reads : k'.reads = k.reads

section Handlers

variable {c : Copy} {x : Ctx}

@[simp] theorem core_stopTimer : (stopTimer c x).core = x.core := by
  unfold stopTimer
  split <;> rfl

@[simp] theorem core_schedule (ms : Nat) : (schedule c ms x).core = x.core :=
  core_stopTimer

@[simp] theorem core_stopRunning : (stopRunning c x).core = { x.core with running := false } :=
  core_stopTimer

@[simp] theorem core_closeFile : (closeFile x).core = { x.core with fd := none } := rfl

@[simp] theorem core_begin (offset : Nat) : (begin c offset x).core =
    { x.core with offset := offset, running := true, stallRetries := 0 } :=
  core_schedule 0

/-- A timer does nothing, halts the stream or issues a read at the offset. -/
theorem issueRead_core : (issueRead c x).core = x.core ∨ x.core.Halts (issueRead c x).core ∨
    ∃ r fd, x.core.fd = some fd ∧ r.fd = fd ∧ x.core.offset < x.core.size ∧
      (issueRead c x).core =
        { x.core with
          inflight := some ⟨fd, x.core.offset⟩
          reads := x.core.reads ++ [r] } := by
  unfold issueRead
  split
  · exact .inl rfl
  · split
    · refine .inr (.inl ?_)
      rw [core_stopRunning, core_closeFile]
      exact ⟨.inr rfl, rfl, rfl, rfl, .inl rfl, rfl⟩
    · rename_i hwithin
      split
      · refine .inr (.inl ?_)
        rw [core_stopRunning]
        exact ⟨.inl rfl, rfl, rfl, rfl, .inl rfl, rfl⟩
      · rename_i fd hfd
        dsimp only
        split
        · refine .inr (.inl ?_)
          rw [core_stopRunning, core_stopRunning, core_closeFile]
          exact ⟨.inr rfl, rfl, rfl, rfl, .inr rfl, rfl⟩
        · rename_i hwant
          have hcall := callApi_read c x.engine fd x.plugin.offset hwant
          rw [Ctx.call, hcall]
          exact .inr (.inr ⟨_, fd, hfd, rfl, Nat.lt_of_not_le hwithin, rfl⟩)

/-- A completion that belongs to no awaited read does nothing. -/
theorem completion_ignored {flight : Flight} (data : Option Bytes) (sent : Sent)
    (h : (x.plugin.running && x.plugin.inflight = some flight) = false) :
    completion c flight data sent x = x := by
  unfold completion
  by_cases hrunning : x.plugin.running = true
  · have hne : x.plugin.inflight ≠ some flight := by simpa [hrunning] using h
    simp [hrunning, hne]
  · simp [hrunning]

/-- A completion that is acted upon moves the stream by the chunk, has it read again, or
halts it with the file closed. -/
theorem completion_core {flight : Flight} (data : Option Bytes) (sent : Sent)
    (hrunning : x.plugin.running = true) (hflight : x.plugin.inflight = some flight) :
    (outcome data sent = .accepted ∧ data.getD [] ≠ [] ∧
      (completion c flight data sent x).core =
        { x.core with
          inflight := none
          stallRetries := 0
          offset := flight.offset + (data.getD []).length }) ∨
    (outcome data sent = .refused ∧ x.core.stallRetries < maxStallRetries ∧
      (completion c flight data sent x).core =
        { x.core with inflight := none, stallRetries := x.core.stallRetries + 1 }) ∨
    (outcome data sent ≠ .accepted ∧ x.core.Halts (completion c flight data sent x).core ∧
      (completion c flight data sent x).core.fd = none ∧
      (completion c flight data sent x).core.inflight = none) := by
  have hhalts : ∀ {y : Ctx}, y.core = { x.core with inflight := none, stallRetries :=
      y.core.stallRetries } → x.core.Halts (stopRunning c (closeFile y)).core ∧
        (stopRunning c (closeFile y)).core.fd = none ∧
        (stopRunning c (closeFile y)).core.inflight = none := by
    intro y hy
    rw [core_stopRunning, core_closeFile, hy]
    exact ⟨⟨.inr rfl, rfl, rfl, rfl, .inr rfl, rfl⟩, rfl, rfl⟩
  unfold completion outcome
  rw [if_neg (by simp [hrunning]), if_neg (by simp [hflight])]
  dsimp only
  cases hdata : data.getD [] with
  | nil =>
    exact .inr (.inr ⟨nofun, hhalts rfl⟩)
  | cons b rest =>
    cases sent with
    | ok =>
      refine .inl ⟨rfl, nofun, ?_⟩
      dsimp only
      rw [core_schedule]
      rfl
    | refused code =>
      dsimp only
      by_cases htransient : transient code = true
      · rw [if_pos htransient, if_pos htransient]
        by_cases hlimit : maxStallRetries ≤ x.plugin.stallRetries
        · rw [if_pos hlimit]
          exact .inr (.inr ⟨nofun, hhalts rfl⟩)
        · rw [if_neg hlimit, core_schedule]
          exact .inr (.inl ⟨rfl, Nat.lt_of_not_le hlimit, rfl⟩)
      · rw [if_neg htransient, if_neg htransient]
        exact .inr (.inr ⟨nofun, hhalts rfl⟩)

/-- An interaction other than a browse leaves the stream, halts it or starts it. -/
theorem uiEvent_core {e : UiEvent} (hui : ∀ path size fd, e ≠ .browse path size fd) :
    (starts e x = false ∧ (uiEvent c e x).core = x.core) ∨
    (starts e x = false ∧ x.core.Halts (uiEvent c e x).core) ∨
    (starts e x = true ∧ e = .start ∧ (uiEvent c e x).core =
      { x.core with offset := 0, running := true, stallRetries := 0 }) ∨
    (starts e x = true ∧ e = .resume ∧ (uiEvent c e x).core =
      { x.core with running := true, stallRetries := 0 }) := by
  cases e with
  | browse path size fd => exact absurd rfl (hui path size fd)
  | chunk value => exact .inl ⟨rfl, rfl⟩
  | chunkIdx value =>
    refine .inl ⟨rfl, ?_⟩
    simp only [uiEvent]
    split <;> rfl
  | interval value => exact .inl ⟨rfl, rfl⟩
  | start =>
    by_cases hready : (x.plugin.fd.isSome && x.engine.isOpen) = true
    · refine .inr (.inr (.inl ⟨by simpa [starts] using hready, rfl, ?_⟩))
      rw [uiEvent, if_pos hready, core_begin]
    · refine .inl ⟨by simpa [starts] using hready, ?_⟩
      rw [uiEvent, if_neg hready]
  | resume =>
    by_cases hready : (x.plugin.fd.isSome && x.engine.isOpen) = true
    · refine .inr (.inr (.inr ⟨by simpa [starts] using hready, rfl, ?_⟩))
      rw [uiEvent, if_pos hready, core_begin]
      rfl
    · refine .inl ⟨by simpa [starts] using hready, ?_⟩
      rw [uiEvent, if_neg hready]
  | stop =>
    refine .inr (.inl ⟨rfl, ?_⟩)
    rw [uiEvent, core_stopRunning]
    exact ⟨.inl rfl, rfl, rfl, rfl, .inl rfl, rfl⟩

/-- A browse of a file that can be read: the stream is halted at the beginning of it. -/
theorem browse_core (path : Bytes) (b : UInt8) (rest : Bytes) (fd : Nat) :
    (uiEvent c (.browse (some path) ((some (b :: rest)).map List.length) (some fd)) x).core =
      { x.core with
        fd := some fd
        size := (b :: rest).length
        offset := 0
        running := false } := by
  have hstopped : (stopRunning c x).core = _ := core_stopRunning
  simp only [Ctx.core, Core.mk.injEq] at hstopped
  simp [Ctx.core, uiEvent, closeFile, hstopped]

theorem browse_ignored {path : Option Bytes} {content : Option Bytes} {fd : Option Nat}
    (h : ∀ p b rest n, path = some p → content = some (b :: rest) → fd = some n → False) :
    uiEvent c (.browse path (content.map List.length) fd) x = x := by
  rcases path with _ | p
  · rfl
  · rcases content with _ | content
    · rfl
    · rcases content with _ | ⟨b, rest⟩
      · rfl
      · rcases fd with _ | n
        · rfl
        · exact (h p b rest n rfl rfl rfl).elim

end Handlers

/-! ## The descriptors -/

/-- The file browsed last is open and stays so; whatever waits to be closed or is read is
open. -/
structure Filed (s : State) : Prop where
  current : ∀ fd, s.ctx.plugin.fd = some fd →
    s.files fd = some s.content ∧ fd ∉ s.fsCloseDeferred
  deferred : ∀ fd ∈ s.fsCloseDeferred, (s.files fd).isSome
  reading : ∀ r ∈ s.ctx.engine.reads, (s.files r.fd).isSome

section Descriptors

variable {s : State} {f : Ctx → Ctx} {fd : Nat}

theorem reading_iff : s.reading fd = true ↔ ∃ r ∈ s.ctx.engine.reads, r.fd = fd := by
  simp [State.reading]

theorem isSome_update {files : Nat → Option Bytes} {n m : Nat} (hne : m ≠ n)
    (h : (files m).isSome) : (Function.update files n none m).isSome := by
  rw [Function.update_of_ne hne]
  exact h

theorem fileClose_frame (s : State) (fd : Nat) : (s.fileClose fd).ctx = s.ctx ∧
    (s.fileClose fd).content = s.content ∧ (s.fileClose fd).log = s.log := by
  unfold State.fileClose
  split <;> exact ⟨rfl, rfl, rfl⟩

theorem call_frame (s : State) (f : Ctx → Ctx) : (s.call f).ctx = f s.ctx ∧
    (s.call f).content = s.content ∧ (s.call f).log = s.log := by
  unfold State.call
  dsimp only
  split
  · split
    · exact ⟨rfl, rfl, rfl⟩
    · exact fileClose_frame _ _
  · exact ⟨rfl, rfl, rfl⟩

theorem completeRest_frame (s : State) (fd : Nat) : (s.completeRest fd).ctx = s.ctx ∧
    (s.completeRest fd).content = s.content ∧ (s.completeRest fd).log = s.log := by
  unfold State.completeRest
  split <;> exact ⟨rfl, rfl, rfl⟩

/-- A descriptor that is not the one of the stream is closed, now or later. -/
theorem Filed.fileClose (h : Filed s) (hother : s.ctx.plugin.fd ≠ some fd)
    (hopen : (s.files fd).isSome) (honce : fd ∉ s.fsCloseDeferred) :
    Filed (s.fileClose fd) := by
  have hne : ∀ {n}, s.ctx.plugin.fd = some n → n ≠ fd := by
    rintro n hn rfl
    exact hother hn
  unfold State.fileClose
  split
  · refine ⟨?_, ?_, h.reading⟩
    · intro n hn
      obtain ⟨hfile, hfree⟩ := h.current n hn
      exact ⟨hfile, List.not_mem_cons_of_ne_of_not_mem (hne hn) hfree⟩
    · intro n hn
      rcases List.mem_cons.mp hn with rfl | hn
      · exact hopen
      · exact h.deferred n hn
  · rename_i hidle
    refine ⟨?_, ?_, ?_⟩
    · intro n hn
      obtain ⟨hfile, hfree⟩ := h.current n hn
      refine ⟨?_, hfree⟩
      rw [← hfile]
      exact Function.update_of_ne (hne hn) _ _
    · intro n hn
      exact isSome_update (ne_of_mem_of_not_mem hn honce) (h.deferred n hn)
    · intro r hr
      apply isSome_update ?_ (h.reading r hr)
      exact fun heq => hidle (reading_iff.mpr ⟨r, hr, heq⟩)

/-- A handler that leaves the table of descriptors in order, with the one it had open. -/
theorem Filed.call (h : Filed { s with ctx := f s.ctx })
    (hold : ∀ fd, s.ctx.plugin.fd = some fd → (s.files fd).isSome ∧ fd ∉ s.fsCloseDeferred) :
    Filed (s.call f) := by
  unfold State.call
  dsimp only
  split
  · rename_i fd hfd
    split
    · exact h
    · rename_i hgone
      obtain ⟨hopen, honce⟩ := hold fd hfd
      exact h.fileClose hgone hopen honce
  · exact h

/-- A handler that keeps or closes the file, and reads from nothing else. -/
theorem Filed.handler (h : Filed s)
    (hfd : (f s.ctx).core.fd = s.ctx.core.fd ∨ (f s.ctx).core.fd = none)
    (hreads : ∀ r ∈ (f s.ctx).core.reads, r ∈ s.ctx.core.reads ∨ s.ctx.core.fd = some r.fd) :
    Filed (s.call f) := by
  have hold : ∀ fd, s.ctx.plugin.fd = some fd →
      (s.files fd).isSome ∧ fd ∉ s.fsCloseDeferred := by
    intro fd hfd
    obtain ⟨hfile, hfree⟩ := h.current fd hfd
    exact ⟨by rw [hfile]; rfl, hfree⟩
  refine Filed.call ⟨?_, h.deferred, ?_⟩ hold
  · intro fd hnow
    rcases hfd with hsame | hnone
    · exact h.current fd (hsame.symm.trans hnow)
    · cases hnone.symm.trans hnow
  · intro r hr
    rcases hreads r hr with hr | hr
    · exact h.reading r hr
    · exact (hold r.fd hr).1

theorem Filed.halts (h : Filed s) (hhalts : s.ctx.core.Halts (f s.ctx).core) :
    Filed (s.call f) := by
  apply h.handler hhalts.fd
  intro r hr
  exact .inl (hhalts.reads ▸ hr)

theorem Filed.completeRest (h : Filed s) (fd : Nat) : Filed (s.completeRest fd) := by
  unfold State.completeRest
  split
  · rename_i hlast
    refine ⟨?_, ?_, ?_⟩
    · intro n hn
      obtain ⟨hfile, hfree⟩ := h.current n hn
      refine ⟨?_, fun hmem => hfree (List.mem_filter.mp hmem).1⟩
      rw [← hfile]
      apply Function.update_of_ne
      rintro rfl
      exact hfree hlast.1
    · intro n hn
      obtain ⟨hmem, hne⟩ := List.mem_filter.mp hn
      exact isSome_update (of_decide_eq_true hne) (h.deferred n hmem)
    · intro r hr
      apply isSome_update ?_ (h.reading r hr)
      intro heq
      have hreading := (reading_iff (s := s)).mpr ⟨r, hr, heq⟩
      rw [hlast.2] at hreading
      cases hreading
  · exact h

end Descriptors

end Xcom.Script.SendFile
