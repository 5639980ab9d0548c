import Mathlib.Data.List.Perm.Basic
import Xcom.Script.OpenFiles

/-!
# Every file is closed once

A descriptor the system has open is listed, or its close waits for a completion, or `fs_close`
holds it across the run of the event loop, and only one of these.  Each of them closes it when
no read is out, and the count of the reads is the count of those that are out.
-/

namespace Xcom.Script.OpenFiles

open Transition (Handles)

/-- The descriptor of a frame of `fs_close`. -/
def Frame.closes : Frame → Option Nat
  | .closing fd => some fd
  | .completing _ => none

/-- The descriptors that `fs_close` holds across the event loop. -/
def State.held (s : State) : List Nat := s.stack.filterMap Frame.closes

/-- Where the open descriptors are, but for those in `hands` about to be closed, and that the
tables count what is out. -/
structure Kept (hands : List Nat) (s : State) : Prop where
  balanced : s.os.Balanced
  idle : ∀ n ∈ s.closesUnder, n = 0
  owned : ∀ fd, s.os.IsOpen fd ↔
    fd ∈ hands ∨ fd ∈ s.openFds ∨ fd ∈ s.fsCloseDeferred ∨ fd ∈ s.held
  inHand : hands.Nodup
  listed : s.openFds.Nodup
  heldOnce : s.held.Nodup
  taken : ∀ fd ∈ hands, fd ∉ s.openFds ∧ fd ∉ s.fsCloseDeferred ∧ fd ∉ s.held
  unlisted : ∀ fd ∈ s.openFds, fd ∉ s.fsCloseDeferred ∧ fd ∉ s.held
  waiting : ∀ fd ∈ s.fsCloseDeferred, fd ∉ s.held
  awaited : ∀ fd ∈ s.fsCloseDeferred, 0 < s.outstanding fd ∨ .completing fd ∈ s.stack
  present : ∀ r ∈ s.reads, r.load = s.load
  counted : ∀ fd, s.fsPending fd = s.outstanding fd
  marked : s.mark ≤ s.os.opened
  older : ∀ fd k, s.os.table fd = some k → k < s.mark → fd ∉ s.openFds

section Steps

variable {s s' : State} {hands : List Nat} {fd : Nat}

theorem Kept.fileOpen (h : Kept [] s) (hfree : ¬s.os.IsOpen fd) : Kept [] (s.fileOpen fd) := by
  have hnot := mt (h.owned fd).mpr hfree
  rw [not_or, not_or, not_or] at hnot
  obtain ⟨_, hunlisted, hundeferred, hunheld⟩ := hnot
  refine { h with
    balanced := h.balanced.openAt hfree
    owned := ?_, listed := ?_, taken := nofun, unlisted := ?_
    marked := Nat.le_succ_of_le h.marked, older := ?_ }
  · intro n
    have howned := h.owned n
    show (s.os.openAt fd).IsOpen n ↔ n ∈ [] ∨ n ∈ s.openFds ++ [fd] ∨ _
    rw [Handles.isOpen_openAt, howned, List.mem_append, List.mem_singleton]
    simp only [List.not_mem_nil, false_or, or_assoc]
    exact or_left_comm
  · refine List.nodup_append.mpr ⟨h.listed, List.nodup_singleton fd, ?_⟩
    rintro a ha b hb rfl
    exact hunlisted (List.mem_singleton.mp hb ▸ ha)
  · intro n hn
    rcases List.mem_append.mp hn with hn | hn
    · exact h.unlisted n hn
    · rw [List.mem_singleton.mp hn]
      exact ⟨hundeferred, hunheld⟩
  · intro n k hk hlt hn
    dsimp only [State.fileOpen, Handles.openAt] at hk
    by_cases hsame : n = fd
    · rw [hsame, Function.update_self] at hk
      rw [← Option.some.inj hk] at hlt
      exact absurd (Nat.lt_of_lt_of_le hlt h.marked) (Nat.lt_irrefl _)
    · rw [Function.update_of_ne hsame] at hk
      rcases List.mem_append.mp hn with hn | hn
      · exact h.older n k hk hlt hn
      · exact hsame (List.mem_singleton.mp hn)

theorem Kept.fileReadAtAsync (h : Kept [] s) (fd : Nat) : Kept [] (s.fileReadAtAsync fd) := by
  have hout : ∀ n, (s.fileReadAtAsync fd).outstanding n =
      s.outstanding n + if n = fd then 1 else 0 := by
    intro n
    rw [State.outstanding, State.fileReadAtAsync]
    dsimp only
    rw [List.countP_append, List.countP_singleton]
    simp [State.outstanding, eq_comm]
  refine { h with awaited := ?_, present := ?_, counted := ?_ }
  · intro n hn
    rcases h.awaited n hn with hpos | hmem
    · refine .inl ?_
      rw [hout]
      omega
    · exact .inr hmem
  · intro r hr
    rcases List.mem_append.mp hr with hr | hr
    · exact h.present r hr
    · rw [List.mem_singleton.mp hr]
      rfl
  · intro n
    rw [hout]
    dsimp only [State.fileReadAtAsync]
    by_cases hn : n = fd
    · rw [hn, Function.update_self, if_pos rfl, h.counted]
    · rw [Function.update_of_ne hn, if_neg hn, h.counted]
      rfl

/-! ## Closes -/

/-- A descriptor in hand is closed when no read of it is out. -/
theorem Kept.uvFsClose (h : Kept (fd :: hands) s) (hidle : s.outstanding fd = 0) :
    Kept hands (s.uvFsClose fd) := by
  obtain ⟨hnew, hrest⟩ := List.nodup_cons.mp h.inHand
  obtain ⟨hunlisted, hundeferred, hunheld⟩ := h.taken fd List.mem_cons_self
  have hopen : s.os.IsOpen fd := (h.owned fd).mpr (.inl List.mem_cons_self)
  refine { h with
    balanced := h.balanced.close hopen
    idle := ?_, owned := ?_, inHand := hrest
    taken := fun n hn => h.taken n (List.mem_cons_of_mem _ hn), older := ?_ }
  · intro n hn
    rcases List.mem_cons.mp hn with rfl | hn
    · exact hidle
    · exact h.idle n hn
  · intro n
    have howned := h.owned n
    show (s.os.close fd).IsOpen n ↔ n ∈ hands ∨ n ∈ s.openFds ∨ n ∈ s.fsCloseDeferred ∨ n ∈ s.held
    rw [Handles.isOpen_close, howned, List.mem_cons]
    by_cases hn : n = fd
    · subst hn
      simp [hnew, hunlisted, hundeferred, hunheld]
    · simp [hn]
  · intro n k hk
    dsimp only [State.uvFsClose, Handles.close] at hk
    by_cases hn : n = fd
    · rw [hn, Function.update_self] at hk
      cases hk
    · rw [Function.update_of_ne hn] at hk
      exact h.older n k hk

theorem mem_removeOpenFd (fd : Nat) (hlisted : s.openFds.Nodup) (n : Nat) :
    n ∈ (s.removeOpenFd fd).openFds ↔ n ≠ fd ∧ n ∈ s.openFds := by
  have hrev : s.openFds.reverse.Nodup := List.nodup_reverse.mpr hlisted
  rw [State.removeOpenFd, List.mem_reverse, hrev.mem_erase_iff, List.mem_reverse]

/-- A listed descriptor is taken in hand. -/
theorem Kept.removeOpenFd (h : Kept [] s) (hmem : fd ∈ s.openFds) :
    Kept [fd] (s.removeOpenFd fd) := by
  have hiff := mem_removeOpenFd fd h.listed
  obtain ⟨hundeferred, hunheld⟩ := h.unlisted fd hmem
  refine { h with
    owned := ?_, inHand := List.nodup_singleton fd, listed := ?_, taken := ?_
    unlisted := fun n hn => h.unlisted n ((hiff n).mp hn).2
    older := fun n k hk hlt hn => h.older n k hk hlt ((hiff n).mp hn).2 }
  · intro n
    have howned := h.owned n
    show s.os.IsOpen n ↔ _
    rw [howned, hiff, List.mem_singleton]
    by_cases hn : n = fd
    · simp [hn, hmem]
    · simp [hn, State.removeOpenFd, State.held]
  · exact List.nodup_reverse.mpr ((List.nodup_reverse.mpr h.listed).erase fd)
  · intro n hn
    rw [List.mem_singleton.mp hn]
    exact ⟨fun hin => ((hiff fd).mp hin).1 rfl, hundeferred, hunheld⟩

/-- `fs_close` keeps a descriptor in hand across the event loop. -/
theorem Kept.hold (h : Kept [fd] s) : Kept [] { s with stack := .closing fd :: s.stack } := by
  obtain ⟨hunlisted, hundeferred, hunheld⟩ := h.taken fd (List.mem_singleton_self fd)
  have hheld : ({ s with stack := .closing fd :: s.stack } : State).held = fd :: s.held := rfl
  refine { h with
    owned := ?_, inHand := List.nodup_nil, heldOnce := ?_, taken := nofun, unlisted := ?_
    waiting := ?_, awaited := ?_ }
  · intro n
    have howned := h.owned n
    rw [List.mem_singleton] at howned
    rw [hheld, List.mem_cons]
    show s.os.IsOpen n ↔ _
    rw [howned]
    simp only [List.not_mem_nil, false_or]
    exact or_left_comm.trans (or_congr_right or_left_comm)
  · rw [hheld]
    exact List.nodup_cons.mpr ⟨hunheld, h.heldOnce⟩
  · intro n hn
    obtain ⟨hnd, hnh⟩ := h.unlisted n hn
    refine ⟨hnd, ?_⟩
    rw [hheld, List.mem_cons, not_or]
    exact ⟨fun hsame => hunlisted (hsame ▸ hn), hnh⟩
  · intro n hn
    rw [hheld, List.mem_cons, not_or]
    exact ⟨fun hsame => hundeferred (hsame ▸ hn), h.waiting n hn⟩
  · intro n hn
    rcases h.awaited n hn with hpos | hmem
    · exact .inl hpos
    · exact .inr (List.mem_cons_of_mem _ hmem)

/-- `fs_close` takes the descriptor in hand again. -/
theorem Kept.unhold {rest : List Frame} (h : Kept [] s) (hstack : s.stack = .closing fd :: rest) :
    Kept [fd] { s with stack := rest } := by
  have hheld : s.held = fd :: ({ s with stack := rest } : State).held := by
    rw [State.held, hstack]
    rfl
  have honce := h.heldOnce
  rw [hheld, List.nodup_cons] at honce
  have hfd : fd ∈ s.held := hheld ▸ List.mem_cons_self
  have hsub : ∀ n, n ∈ ({ s with stack := rest } : State).held → n ∈ s.held := by
    intro n hn
    rw [hheld]
    exact List.mem_cons_of_mem _ hn
  refine { h with
    owned := ?_, inHand := List.nodup_singleton fd, heldOnce := honce.2, taken := ?_
    unlisted := fun n hn => ⟨(h.unlisted n hn).1, fun hin => (h.unlisted n hn).2 (hsub n hin)⟩
    waiting := fun n hn hin => h.waiting n hn (hsub n hin), awaited := ?_ }
  · intro n
    have howned := h.owned n
    rw [hheld, List.mem_cons] at howned
    show s.os.IsOpen n ↔ _
    rw [howned, List.mem_singleton]
    simp only [List.not_mem_nil, false_or]
    exact (or_left_comm.trans (or_congr_right or_left_comm)).symm
  · intro n hn
    rw [List.mem_singleton.mp hn]
    exact ⟨fun hin => (h.unlisted fd hin).2 hfd, fun hin => h.waiting fd hin hfd, honce.1⟩
  · intro n hn
    rcases h.awaited n hn with hpos | hmem
    · exact .inl hpos
    · rw [hstack] at hmem
      rcases List.mem_cons.mp hmem with hsame | hmem
      · cases hsame
      · exact .inr hmem

/-- A close that waits for a read. -/
theorem Kept.defer (h : Kept [fd] s) (hpos : 0 < s.outstanding fd) :
    Kept [] { s with fsCloseDeferred := List.insert fd s.fsCloseDeferred } := by
  obtain ⟨hunlisted, hundeferred, hunheld⟩ := h.taken fd (List.mem_singleton_self fd)
  refine { h with
    owned := ?_, inHand := List.nodup_nil, taken := nofun, unlisted := ?_, waiting := ?_
    awaited := ?_ }
  · intro n
    have howned := h.owned n
    rw [List.mem_singleton] at howned
    show s.os.IsOpen n ↔ n ∈ [] ∨ n ∈ s.openFds ∨ n ∈ List.insert fd s.fsCloseDeferred ∨ n ∈ s.held
    rw [howned, List.mem_insert_iff]
    simp only [List.not_mem_nil, false_or, or_assoc]
    exact or_left_comm
  · intro n hn
    obtain ⟨hnd, hnh⟩ := h.unlisted n hn
    refine ⟨?_, hnh⟩
    rw [List.mem_insert_iff, not_or]
    exact ⟨fun hsame => hunlisted (hsame ▸ hn), hnd⟩
  · intro n hn
    rcases List.mem_insert_iff.mp hn with rfl | hn
    · exact hunheld
    · exact h.waiting n hn
  · intro n hn
    rcases List.mem_insert_iff.mp hn with rfl | hn
    · exact .inl hpos
    · exact h.awaited n hn

theorem Kept.fsClose (h : Kept [] s) (hmem : fd ∈ s.openFds) : Kept [] (s.fsClose fd) := by
  have hhand := h.removeOpenFd hmem
  rw [State.fsClose]
  split
  · exact hhand.hold
  · rename_i hnone
    apply hhand.uvFsClose
    rw [← hhand.counted]
    exact Nat.eq_zero_of_not_pos hnone

theorem Kept.fsCloseRest {rest : List Frame} (h : Kept [] s)
    (hstack : s.stack = .closing fd :: rest) :
    Kept [] (({ s with stack := rest } : State).fsCloseRest fd) := by
  have hhand := h.unhold hstack
  rw [State.fsCloseRest]
  split
  · rename_i hnone
    apply hhand.uvFsClose
    rw [← hhand.counted]
    exact hnone
  · rename_i hsome
    apply hhand.defer
    rw [← hhand.counted]
    exact Nat.pos_of_ne_zero hsome

/-! ## Completions -/

theorem outstanding_complete {index : Nat} {r : Read} (hr : s.reads[index]? = some r) (n : Nat) :
    s.outstanding n = (s.complete index r).outstanding n + if r.fd = n then 1 else 0 := by
  obtain ⟨hlt, hget⟩ := List.getElem?_eq_some_iff.mp hr
  have hperm := List.getElem_cons_eraseIdx_perm hlt
  rw [hget] at hperm
  rw [State.outstanding, ← hperm.countP_eq, List.countP_cons]
  simp [State.outstanding, State.complete]

theorem Kept.complete {index : Nat} {r : Read} (h : Kept [] s) (hr : s.reads[index]? = some r) :
    Kept [] (s.complete index r) := by
  have hsplit := outstanding_complete hr
  refine { h with awaited := ?_, present := ?_, counted := ?_ }
  · intro n hn
    by_cases hsame : r.fd = n
    · rw [← hsame]
      exact .inr List.mem_cons_self
    · rcases h.awaited n hn with hpos | hmem
      · rw [hsplit n, if_neg hsame] at hpos
        exact .inl hpos
      · exact .inr (List.mem_cons_of_mem _ hmem)
  · exact fun q hq => h.present q (List.mem_of_mem_eraseIdx hq)
  · intro n
    have hcount := h.counted n
    rw [hsplit n] at hcount
    dsimp only [State.complete]
    by_cases hsame : r.fd = n
    · subst hsame
      rw [if_pos rfl] at hcount
      rw [Function.update_self]
      show _ = (s.complete index r).outstanding r.fd
      split <;> omega
    · rw [if_neg hsame] at hcount
      rw [Function.update_of_ne (Ne.symm hsame)]
      exact hcount

/-- A completion returns: where its descriptor waits for it and no read is out, it is closed. -/
theorem Kept.completeRest {rest : List Frame} (h : Kept [] s)
    (hstack : s.stack = .completing fd :: rest) :
    Kept [] (({ s with stack := rest } : State).completeRest fd) := by
  have hheld : ({ s with stack := rest } : State).held = s.held := by
    rw [State.held, State.held, hstack]
    rfl
  have hother : ∀ n ∈ s.fsCloseDeferred, n ≠ fd → 0 < s.outstanding n ∨ .completing n ∈ rest := by
    intro n hn hne
    rcases h.awaited n hn with hpos | hmem
    · exact .inl hpos
    · rw [hstack] at hmem
      rcases List.mem_cons.mp hmem with hsame | hmem
      · cases hsame
        exact absurd rfl hne
      · exact .inr hmem
  rw [State.completeRest]
  split
  · rename_i hdue
    obtain ⟨hnone, hdeferred⟩ := hdue
    have hhand : Kept [fd] { s with
        stack := rest, fsCloseDeferred := s.fsCloseDeferred.filter (· ≠ fd) } := by
      refine { h with
        owned := ?_, inHand := List.nodup_singleton fd, heldOnce := hheld ▸ h.heldOnce
        taken := ?_, unlisted := ?_, waiting := ?_, awaited := ?_ }
      · intro n
        have howned := h.owned n
        show s.os.IsOpen n ↔ n ∈ [fd] ∨ n ∈ s.openFds ∨ n ∈ s.fsCloseDeferred.filter _ ∨
          n ∈ ({ s with stack := rest } : State).held
        rw [howned, hheld, List.mem_singleton, List.mem_filter]
        by_cases hn : n = fd
        · simp [hn, hdeferred]
        · simp [hn]
      · intro n hn
        rw [List.mem_singleton.mp hn]
        refine ⟨fun hin => (h.unlisted fd hin).1 hdeferred, by simp, ?_⟩
        exact fun hin => h.waiting fd hdeferred (hheld ▸ hin)
      · intro n hn
        obtain ⟨hnd, hnh⟩ := h.unlisted n hn
        exact ⟨fun hin => hnd (List.mem_filter.mp hin).1, fun hin => hnh (hheld ▸ hin)⟩
      · exact fun n hn hin => h.waiting n (List.mem_filter.mp hn).1 (hheld ▸ hin)
      · intro n hn
        obtain ⟨hmem, hne⟩ := List.mem_filter.mp hn
        exact hother n hmem (of_decide_eq_true hne)
    apply hhand.uvFsClose
    rw [← hhand.counted]
    exact hnone
  · rename_i hdue
    refine { h with
      owned := fun n => hheld ▸ h.owned n, heldOnce := hheld ▸ h.heldOnce, taken := nofun
      unlisted := fun n hn => hheld ▸ h.unlisted n hn
      waiting := fun n hn => hheld ▸ h.waiting n hn, awaited := ?_ }
    intro n hn
    by_cases hne : n = fd
    · subst hne
      refine .inl ?_
      show 0 < s.outstanding n
      rw [← h.counted]
      exact Nat.pos_of_ne_zero fun hnone => hdue ⟨hnone, hn⟩
    · exact hother n hn hne

/-- A callback ends in an error: its completion is over, and no close waited for it. -/
theorem Kept.raise {rest : List Frame} (h : Kept [] s) (hstack : s.stack = .completing fd :: rest)
    (hnot : fd ∉ s.fsCloseDeferred) : Kept [] { s with stack := rest } := by
  have hrest := h.completeRest hstack
  have hsame : ({ s with stack := rest } : State).completeRest fd = { s with stack := rest } := by
    rw [State.completeRest, if_neg]
    exact fun hdue => hnot hdue.2
  rwa [hsame] at hrest

/-! ## Reload and shutdown -/

theorem Kept.teardown (h : Kept (fd :: hands) s) (hidle : s.outstanding fd = 0) :
    Kept hands (s.teardown fd) := by
  obtain ⟨_, hundeferred, _⟩ := h.taken fd List.mem_cons_self
  have hfilter : s.fsCloseDeferred.filter (· ≠ fd) = s.fsCloseDeferred := by
    rw [List.filter_eq_self]
    intro n hn
    exact decide_eq_true fun hsame => hundeferred (hsame ▸ hn)
  have hpending : Function.update s.fsPending fd 0 = s.fsPending := by
    rw [← hidle, ← h.counted]
    exact Function.update_eq_self fd s.fsPending
  rw [State.teardown, hfilter, hpending]
  exact h.uvFsClose hidle

theorem outstanding_teardown (s : State) (fd n : Nat) :
    (s.teardown fd).outstanding n = s.outstanding n := rfl

theorem Kept.teardown_all (h : Kept hands s) (hidle : ∀ fd ∈ hands, s.outstanding fd = 0) :
    Kept [] (hands.foldl State.teardown s) := by
  induction hands generalizing s with
  | nil => exact h
  | cons fd hands ih =>
    apply ih
    · exact h.teardown (hidle fd List.mem_cons_self)
    · intro n hn
      rw [outstanding_teardown]
      exact hidle n (List.mem_cons_of_mem _ hn)

/-- The list of the record goes at the end of the loop; it might as well go before it. -/
theorem closeRecordFds_eq (s : State) :
    s.closeRecordFds = s.openFds.reverse.foldl State.teardown { s with openFds := [] } := by
  rw [State.closeRecordFds]
  generalize s.openFds.reverse = fds
  induction fds generalizing s with
  | nil => rfl
  | cons fd fds ih => exact ih (s.teardown fd)

theorem teardown_frame (fds : List Nat) (s : State) :
    (fds.foldl State.teardown s).reads = s.reads ∧
      (fds.foldl State.teardown s).stack = s.stack ∧
      (fds.foldl State.teardown s).openFds = s.openFds ∧
      (fds.foldl State.teardown s).load = s.load ∧
      (fds.foldl State.teardown s).os.opened = s.os.opened := by
  induction fds generalizing s with
  | nil => exact ⟨rfl, rfl, rfl, rfl, rfl⟩
  | cons fd fds ih => exact ih (s.teardown fd)

theorem Kept.closeRecordFds (h : Kept [] s) (hidle : ∀ fd ∈ s.openFds, s.outstanding fd = 0) :
    Kept [] s.closeRecordFds := by
  rw [closeRecordFds_eq]
  have hhands : Kept s.openFds.reverse { s with openFds := [] } := by
    refine { h with
      owned := ?_, inHand := List.nodup_reverse.mpr h.listed, listed := List.nodup_nil
      taken := ?_, unlisted := nofun, older := fun _ _ _ _ => nofun }
    · intro n
      have howned := h.owned n
      show s.os.IsOpen n ↔ n ∈ s.openFds.reverse ∨ n ∈ [] ∨ n ∈ s.fsCloseDeferred ∨ n ∈ s.held
      rw [howned, List.mem_reverse]
      simp
    · intro n hn
      obtain ⟨hnd, hnh⟩ := h.unlisted n (List.mem_reverse.mp hn)
      exact ⟨List.not_mem_nil, hnd, hnh⟩
  apply hhands.teardown_all
  intro n hn
  exact hidle n (List.mem_reverse.mp hn)

theorem openFds_closeRecordFds (s : State) : s.closeRecordFds.openFds = [] := rfl

theorem opened_closeRecordFds (s : State) : s.closeRecordFds.os.opened = s.os.opened :=
  (teardown_frame s.openFds.reverse s).2.2.2.2

theorem Kept.shutdown (h : Kept [] s) (hidle : ∀ fd ∈ s.openFds, s.outstanding fd = 0) :
    Kept [] s.shutdown := by
  refine { h.closeRecordFds hidle with marked := ?_, older := fun _ _ _ _ => nofun }
  exact Nat.le_of_eq (opened_closeRecordFds s).symm

theorem deferred_teardown {fds : List Nat} (h : s.fsCloseDeferred = []) :
    (fds.foldl State.teardown s).fsCloseDeferred = [] := by
  induction fds generalizing s with
  | nil => exact h
  | cons fd fds ih =>
    apply ih
    show s.fsCloseDeferred.filter _ = []
    rw [h]
    rfl

theorem Kept.reload (h : Kept [] s) (hreads : s.reads = []) (hdeferred : s.fsCloseDeferred = []) :
    Kept [] s.reload := by
  have hidle : ∀ fd, s.outstanding fd = 0 := by
    intro fd
    rw [State.outstanding, hreads]
    rfl
  have hclosed := h.closeRecordFds fun fd _ => hidle fd
  have hnone : s.closeRecordFds.fsCloseDeferred = [] := deferred_teardown hdeferred
  have hout : s.closeRecordFds.reads = [] :=
    (teardown_frame s.openFds.reverse s).1.trans hreads
  refine { hclosed with
    owned := ?_, listed := List.nodup_nil, taken := nofun, unlisted := nofun, waiting := nofun
    awaited := nofun, present := ?_, counted := ?_, marked := ?_
    older := fun _ _ _ _ => nofun }
  · intro n
    have howned := hclosed.owned n
    rw [hnone, openFds_closeRecordFds] at howned
    exact howned
  · intro r hr
    have hmem : r ∈ s.closeRecordFds.reads := hr
    rw [hout] at hmem
    cases hmem
  · intro n
    show 0 = s.closeRecordFds.reads.countP _
    rw [hout]
    rfl
  · exact Nat.le_of_eq (opened_closeRecordFds s).symm

theorem Kept.step {e : Event} (h : Kept [] s) (hsafe : Safe s e = true)
    (hstep : s.step e = some s') : Kept [] s' := by
  cases e with
  | fileOpen fd =>
    rw [State.step] at hstep
    split at hstep
    · cases hstep
    · rename_i hfree
      cases hstep
      exact h.fileOpen hfree
  | fileReadAtAsync fd =>
    cases hstep
    exact h.fileReadAtAsync fd
  | fileClose fd =>
    cases hstep
    exact h.fsClose (List.contains_iff_mem.mp hsafe)
  | complete index =>
    rw [State.step] at hstep
    split at hstep
    · obtain ⟨r, hr, rfl⟩ := Option.map_eq_some_iff.mp hstep
      exact h.complete hr
    · cases hstep
  | resume =>
    rw [State.step] at hstep
    split at hstep
    · cases hstep
    · rename_i fd rest hstack
      cases hstep
      exact h.fsCloseRest hstack
    · rename_i fd rest hstack
      cases hstep
      exact h.completeRest hstack
  | raise =>
    rw [State.step] at hstep
    split at hstep
    · rename_i fd rest hstack
      cases hstep
      apply h.raise hstack
      intro hmem
      rw [Safe, hstack] at hsafe
      have hne := List.all_eq_true.mp hsafe fd hmem
      simp at hne
    · cases hstep
  | reload =>
    cases hstep
    rw [Safe, Bool.and_eq_true, List.isEmpty_iff, List.isEmpty_iff] at hsafe
    exact h.reload hsafe.1 hsafe.2
  | shutdown =>
    cases hstep
    apply h.shutdown
    intro fd hmem
    exact of_decide_eq_true (List.all_eq_true.mp hsafe fd hmem)

end Steps

/-! ## Every run -/

variable {s : State}

theorem run_kept (hs : Transition.ReachUnder machine (fun s e => Safe s e = true) s) :
    Kept [] s := by
  apply hs.invariant
  · refine ⟨Transition.Handles.balanced_empty, nofun, ?_, List.nodup_nil, List.nodup_nil,
      List.nodup_nil, nofun, nofun, nofun, nofun, nofun, fun _ => rfl, Nat.le_refl 0, nofun⟩
    intro n
    constructor
    · exact nofun
    · rintro (hn | hn | hn | hn) <;> cases hn
  · exact fun s e s' hs hsafe hstep => hs.step hsafe hstep

/-- In every run of safe steps every descriptor is closed once, and never under a read. -/
theorem descriptors_clean
    (hs : Transition.ReachUnder machine (fun s e => Safe s e = true) s) : Clean s := by
  have h := run_kept hs
  refine ⟨h.balanced, h.idle, ?_, h.present, h.counted⟩
  intro hreads hstack fd k hk
  by_contra hlt
  have hopen : s.os.IsOpen fd := by
    rw [Transition.Handles.IsOpen, hk]
    rfl
  rcases (h.owned fd).mp hopen with hn | hlisted | hdeferred | hheld
  · cases hn
  · exact h.older fd k hk (Nat.lt_of_not_le hlt) hlisted
  · rcases h.awaited fd hdeferred with hpos | hmem
    · rw [State.outstanding, hreads] at hpos
      cases hpos
    · rw [hstack] at hmem
      cases hmem
  · rw [State.held, hstack] at hheld
    cases hheld

/-- A close that finds its read completed in the event loop, the number used again, a load. -/
def sampleRun : List Event :=
  [.fileOpen 3, .fileReadAtAsync 3, .fileClose 3, .complete 0, .resume, .resume, .fileOpen 3,
    .reload]

theorem descriptors_clean_reused : ∃ s, Clean s ∧ s.os.closed = [some 1, some 0] := by
  obtain ⟨s, hrun, hclosed⟩ := Transition.exists_of_execUnder
    (m := machine) (c := fun s e => Safe s e = true)
    (p := fun s => s.os.closed = [some 1, some 0]) sampleRun (by decide)
  exact ⟨s, descriptors_clean hrun, hclosed⟩

/-- A load closes a descriptor under its read; and after a load no completion closes the
descriptor that waited for one. -/
theorem closed_under_read :
    (∃ s, Transition.Reach machine s ∧ 1 ∈ s.closesUnder ∧ ¬Clean s) ∧
      ∃ s, Transition.Reach machine s ∧ s.reads = [] ∧ s.stack = [] ∧ s.mark = 1 ∧
        s.os.table 3 = some 0 ∧ ¬Clean s := by
  constructor
  · obtain ⟨s, hrun, hunder⟩ := Transition.exists_of_execUnder
      (m := machine) (c := fun _ _ => True) (p := fun s => 1 ∈ s.closesUnder)
      [.fileOpen 3, .fileReadAtAsync 3, .reload] (by decide)
    exact ⟨s, hrun, hunder, fun hclean => nomatch hclean.idle 1 hunder⟩
  · obtain ⟨s, hrun, hreads, hstack, hmark, hopen⟩ := Transition.exists_of_execUnder
      (m := machine) (c := fun _ _ => True)
      (p := fun s => s.reads = [] ∧ s.stack = [] ∧ s.mark = 1 ∧ s.os.table 3 = some 0)
      [.fileOpen 3, .fileReadAtAsync 3, .fileClose 3, .resume, .reload, .complete 0, .resume]
      (by decide)
    refine ⟨s, hrun, hreads, hstack, hmark, hopen, ?_⟩
    intro hclean
    have hle := hclean.released hreads hstack 3 0 hopen
    rw [hmark] at hle
    cases hle

end Xcom.Script.OpenFiles
