import Xcom.Tx.SentBatches

/-!
# What was sent, in the view

The echoed rows of a session of the window are those of the payloads the core took.
-/

namespace Xcom.Tx.SendWindow

open Config (Bytes)
open Receive (Transcript)
open Transition (Reach)

/-- What the core took, in order. -/
def taken (w : Window) : List Bytes := (w.history.filterMap Send.took).filter (· ≠ [])

/-- The view and the log of the window are those of a session that sent what the core took. -/
def Shows (w : Window) : Prop :=
  ∃ ops, w.transcript = Transcript.run {} ops ∧ Transcript.payloads ops = taken w

theorem payloads_sent (payload : Bytes) (rc : Int) :
    Transcript.payloads [.sent payload rc] = [payload].filter (· ≠ []) := by
  by_cases hne : payload = [] <;> simp [Transcript.payloads, hne]

theorem Shows.same {w w' : Window} (h : Shows w) (htranscript : w'.transcript = w.transcript)
    (hhistory : w'.history = w.history) : Shows w' := by
  obtain ⟨ops, hrun, hsent⟩ := h
  exact ⟨ops, htranscript.trans hrun, by rw [hsent, taken, taken, hhistory]⟩

theorem Shows.view {w : Window} (h : Shows w) (op : Transcript.Op)
    (hop : Transcript.payloads [op] = []) :
    Shows { w with transcript := w.transcript.apply op } := by
  obtain ⟨ops, hrun, hsent⟩ := h
  refine ⟨ops ++ [op], ?_, ?_⟩
  · rw [Transcript.run_snoc, ← hrun]
  · rw [Transcript.payloads_snoc, hop, List.append_nil]
    exact hsent

/-- A call of `core_send` is echoed where the core took its payload. -/
theorem coreSend_transcript (data : Bytes) (answer : Answer) (w : Window) :
    ((coreSend data answer w).2.2 = none ∧
      (coreSend data answer w).1.transcript = w.transcript) ∨
    ∃ payload, (coreSend data answer w).2.2 = some payload ∧
      (coreSend data answer w).1.transcript =
        w.transcript.apply (.sent payload answer.logRc) := by
  unfold coreSend
  split
  · exact Or.inl ⟨rfl, rfl⟩
  · split
    · exact Or.inl ⟨rfl, rfl⟩
    · split
      · exact Or.inl ⟨rfl, rfl⟩
      · split
        · exact Or.inl ⟨rfl, rfl⟩
        · split
          · exact Or.inl ⟨rfl, rfl⟩
          · split
            · exact Or.inr ⟨_, rfl, rfl⟩
            · exact Or.inl ⟨rfl, rfl⟩

theorem Shows.call {w : Window} (h : Shows w) (sender : Sender) (payload : Bytes)
    (answer : Answer) : Shows (call sender payload answer w).1 := by
  obtain ⟨ops, hrun, hsent⟩ := h
  have htaken : taken (SendWindow.call sender payload answer w).1 = taken w ++
      ((coreSend payload answer w).2.2.toList).filter (· ≠ []) := by
    have hhistory : (SendWindow.call sender payload answer w).1.history =
        w.history ++ [⟨sender, payload, (coreSend payload answer w).2.2⟩] := rfl
    rw [taken, hhistory, List.filterMap_append, List.filter_append]
    cases (coreSend payload answer w).2.2 <;> rfl
  have htranscript : (SendWindow.call sender payload answer w).1.transcript =
      (coreSend payload answer w).1.transcript := rfl
  rcases coreSend_transcript payload answer w with ⟨hnone, hsame⟩ | ⟨took, hsome, happly⟩
  · refine ⟨ops, by rw [htranscript, hsame, hrun], ?_⟩
    rw [htaken, hnone, hsent]
    exact (List.append_nil _).symm
  · refine ⟨ops ++ [.sent took answer.logRc], ?_, ?_⟩
    · rw [htranscript, happly, hrun, Transcript.run_snoc]
    · rw [Transcript.payloads_snoc, hsent, htaken, hsome, payloads_sent]
      rfl

theorem Shows.sendSlots {w : Window} (h : Shows w) (sender : Sender) (hex crlf : Bool)
    (answers : Nat → Answer) (slots : List (Bytes × Nat)) (counts : Counts) :
    Shows (sendSlots sender hex crlf answers slots counts w).2 := by
  induction slots generalizing counts w with
  | nil => exact h
  | cons slot slots ih =>
    obtain ⟨text, line⟩ := slot
    rw [SendWindow.sendSlots]
    split
    · exact h
    · exact ih h _
    · exact ih h counts
    · rename_i payload _
      have hcall := h.call sender payload (answers line)
      split
      all_goals
        rename_i heq
        rw [heq] at hcall
        exact ih hcall _

theorem Shows.sendEnabled {w : Window} (h : Shows w) (sender : Sender)
    (batch : Option Batch.Snapshot) (answers : Nat → Answer) :
    Shows (sendEnabled sender batch answers w) := by
  have hslots := h.sendSlots sender (batch.getD (Batch.snapshotMultiBatch w.page)).hex
    (batch.getD (Batch.snapshotMultiBatch w.page)).crlf answers
    ((batch.getD (Batch.snapshotMultiBatch w.page)).entries.zip
      (batch.getD (Batch.snapshotMultiBatch w.page)).lines) {}
  unfold SendWindow.sendEnabled
  dsimp only
  split
  all_goals
    rename_i heq
    rw [heq] at hslots
  · exact hslots
  · exact hslots.same rfl rfl

theorem Shows.sendSlot {w : Window} (h : Shows w) (index : Nat) (answer : Answer) :
    Shows (sendSlot index answer w) := by
  unfold SendWindow.sendSlot
  dsimp only
  split
  · exact h.same rfl rfl
  · split
    · exact h
    · exact h
    · exact h.same rfl rfl
    · rename_i payload _
      have hcall := h.call (.slot index) payload answer
      split
      all_goals
        rename_i heq
        rw [heq] at hcall
      · exact hcall
      · exact hcall.same rfl rfl

theorem Shows.report {w : Window} (h : Shows w) (run : Run) : Shows (sequenceReport run w) := by
  unfold sequenceReport
  dsimp only
  split <;> exact h.same rfl rfl

theorem Shows.sequenceFire {w w' : Window} (h : Shows w) {answer : Answer}
    (hfire : sequenceFire answer w = some w') : Shows w' := by
  obtain ⟨run, -, rfl⟩ := Option.map_eq_some_iff.mp hfire
  dsimp only
  split
  · exact h.same rfl rfl
  · split
    · exact h.report _
    · exact h.report _
    · exact h.report _
    · rename_i payload _
      have hcall := h.call (.sequence run.number) payload answer
      split
      all_goals
        rename_i heq
        rw [heq] at hcall
      · exact hcall.report _
      · exact hcall.same rfl rfl

/-- The steps that neither send nor show anything. -/
theorem Shows.quiet {w : Window} (h : Shows w) : Shows (runSequence w) ∧
    Shows (syncMultiAuto w) ∧ ∀ said, Shows (stopBatches said w) := by
  refine ⟨?_, ?_, fun said => ?_⟩
  · unfold runSequence
    dsimp only
    split_ifs <;> exact h.same rfl rfl
  · unfold syncMultiAuto
    dsimp only
    split_ifs <;> exact h.same rfl rfl
  · unfold stopBatches
    dsimp only
    split <;> exact h.same rfl rfl

theorem Shows.step {w w' : Window} (h : Shows w) {op : Op}
    (hstep : step w op = some w') : Shows w' := by
  cases op with
  | edit _ | environment _ _ _ | finishReset =>
    obtain rfl := Option.some.inj hstep
    exact h.same rfl rfl
  | view op =>
    cases op with
    | sent _ _ => cases hstep
    | receive _ | clear | options _ | drag _ | logging _ =>
      exact Option.some.inj hstep ▸ h.view _ rfl
  | slot index answer => exact Option.some.inj hstep ▸ h.sendSlot index answer
  | enabled answers => exact Option.some.inj hstep ▸ h.sendEnabled .enabled none answers
  | runSequence => exact Option.some.inj hstep ▸ h.quiet.1
  | sequenceFire answer => exact h.sequenceFire hstep
  | multiAuto on =>
    have hset : Shows { w with multiAuto := on } := h.same rfl rfl
    exact Option.some.inj hstep ▸ hset.quiet.2.1
  | cycleFire answers =>
    unfold SendWindow.step cycleFire at hstep
    dsimp only at hstep
    split at hstep
    · exact Option.some.inj hstep ▸ h.sendEnabled _ _ answers
    · cases hstep
  | portClosed => exact Option.some.inj hstep ▸ h.quiet.2.2 _
  | connected => exact Option.some.inj hstep ▸ h.quiet.2.1
  | startReset inFlight =>
    unfold SendWindow.step at hstep
    dsimp only at hstep
    split at hstep
    · exact Option.some.inj hstep ▸ h
    · exact Option.some.inj hstep ▸ (h.quiet.2.2 "sequence stopped: reset").same rfl rfl

theorem shows_reach {w : Window} (h : Reach machine w) : Shows w :=
  h.invariant ⟨[], rfl, rfl⟩ fun _ _ _ hshows _ hstep => hshows.step hstep

end Xcom.Tx.SendWindow
