import Xcom.Tx.SendWindow

/-!
# What the batch senders put on the wire

A Run and a cycle send the snapshot they were started with, whatever is edited meanwhile, and
the last report of a Run tells what became of each line.
-/

namespace Xcom.Tx.SendWindow

open Config (Bytes)
open Batch (Snapshot snapshotMultiBatch)
open Transition (Reach)

/-! ## Snapshots as they are sent -/

/-- The entries of a snapshot as they are encoded, with their lines. -/
def encoded (batch : Snapshot) : List (Encoded × Nat) :=
  (batch.entries.zip batch.lines).map fun slot => (encode slot.1 batch.hex batch.crlf, slot.2)

/-- The payload of an entry that has one. -/
def payload? : Encoded × Nat → Option Bytes
  | (.payload payload, _) => some payload
  | _ => none

/-- The lines of the entries that came to `e`. -/
def linesOf (e : Encoded) (entries : List (Encoded × Nat)) : List Nat :=
  (entries.filter (·.1 = e)).map (·.2)

/-- The payloads of one firing of a cycle: an error ends it. -/
def round : List (Encoded × Nat) → List Bytes
  | [] => []
  | (.raised, _) :: _ => []
  | (.payload payload, _) :: entries => payload :: round entries
  | _ :: entries => round entries

/-- The calls of a sender so far. -/
def handed (sender : Sender) (w : Window) : List Send := w.history.filter (·.sender = sender)

/-- A step that leaves the batches alone and makes some calls. -/
structure Frame (w w' : Window) (sends : List Send) : Prop where
  batches : w'.batches = w.batches
  cycles : w'.cycles = w.cycles
  sequence : w'.sequence = w.sequence
  multiTimer : w'.multiTimer = w.multiTimer
  multiSnapshot : w'.multiSnapshot = w.multiSnapshot
  history : w'.history = w.history ++ sends

theorem Frame.refl (w : Window) : Frame w w [] :=
  ⟨rfl, rfl, rfl, rfl, rfl, (List.append_nil _).symm⟩

theorem Frame.trans {w w' w'' : Window} {sends more : List Send} (h : Frame w w' sends)
    (h' : Frame w' w'' more) : Frame w w'' (sends ++ more) :=
  ⟨h'.batches.trans h.batches, h'.cycles.trans h.cycles, h'.sequence.trans h.sequence,
    h'.multiTimer.trans h.multiTimer, h'.multiSnapshot.trans h.multiSnapshot,
    by rw [h'.history, h.history, List.append_assoc]⟩

theorem Frame.handed {w w' : Window} {sends : List Send} (h : Frame w w' sends)
    (sender : Sender) :
    handed sender w' = handed sender w ++ sends.filter (·.sender = sender) := by
  rw [SendWindow.handed, h.history, List.filter_append]
  rfl

theorem Frame.status {w w' : Window} {sends : List Send} (h : Frame w w' sends) (said : String) :
    Frame w { w' with statusDirty := said } sends :=
  ⟨h.batches, h.cycles, h.sequence, h.multiTimer, h.multiSnapshot, h.history⟩

/-! ## Calls -/

/-- `core_send` changes what is shown, and takes a payload just where it says so. -/
theorem coreSend_spec {data : Bytes} (hdata : data ≠ []) (answer : Answer) (w : Window) :
    Frame w (coreSend data answer w).1 [] ∧
    ((coreSend data answer w).2.1.1 = (coreSend data answer w).2.2.isSome) := by
  unfold coreSend
  split
  · exact ⟨Frame.refl w, rfl⟩
  · split
    · exact ⟨⟨rfl, rfl, rfl, rfl, rfl, (List.append_nil _).symm⟩, rfl⟩
    · split
      · exact ⟨⟨rfl, rfl, rfl, rfl, rfl, (List.append_nil _).symm⟩, rfl⟩
      · split
        · exact ⟨Frame.refl w, rfl⟩
        · split
          · exact ⟨⟨rfl, rfl, rfl, rfl, rfl, (List.append_nil _).symm⟩, rfl⟩
          · exact ⟨⟨rfl, rfl, rfl, rfl, rfl, (List.append_nil _).symm⟩, rfl⟩

theorem call_spec (sender : Sender) {payload : Bytes} (hpayload : payload ≠ []) (answer : Answer)
    (w : Window) : ∃ took : Option Bytes,
      Frame w (call sender payload answer w).1 [⟨sender, payload, took⟩] ∧
      (call sender payload answer w).2.1 = took.isSome := by
  obtain ⟨hframe, hresult⟩ := coreSend_spec hpayload answer w
  exact ⟨(coreSend payload answer w).2.2, ⟨hframe.batches, hframe.cycles, hframe.sequence,
    hframe.multiTimer, hframe.multiSnapshot, rfl⟩, hresult⟩

theorem encode_ne_nil {text : Bytes} {hex crlf : Bool} {payload : Bytes}
    (h : encode text hex crlf = .payload payload) : payload ≠ [] := by
  unfold encode at h
  split at h
  · cases h
  · cases h
  · cases h
  · rw [← Encoded.payload.inj h]
    exact List.cons_ne_nil _ _

/-- The loop over slots hands over the payloads in order, up to an error. -/
theorem sendSlots_spec (sender : Sender) (hex crlf : Bool) (answers : Nat → Answer)
    (slots : List (Bytes × Nat)) (counts : Counts) (w : Window) : ∃ sends : List Send,
      Frame w (sendSlots sender hex crlf answers slots counts w).2 sends ∧
      (∀ s ∈ sends, s.sender = sender) ∧
      sends.map Send.payload = round (slots.map fun slot => (encode slot.1 hex crlf, slot.2)) := by
  induction slots generalizing counts w with
  | nil => exact ⟨[], Frame.refl w, by simp, rfl⟩
  | cons slot slots ih =>
    obtain ⟨text, line⟩ := slot
    rw [sendSlots, List.map_cons]
    cases hencode : encode text hex crlf with
    | raised => exact ⟨[], Frame.refl w, by simp, rfl⟩
    | invalid => exact ih { counts with badHex := some (counts.badHex.getD line) } w
    | blank => exact ih counts w
    | payload payload =>
      obtain ⟨took, hframe, -⟩ :=
        call_spec sender (encode_ne_nil hencode) (answers line) w
      have hmore : ∀ counts' : Counts, ∃ sends : List Send,
          Frame w (sendSlots sender hex crlf answers slots counts'
            (call sender payload (answers line) w).1).2 sends ∧
          (∀ s ∈ sends, s.sender = sender) ∧ sends.map Send.payload = payload ::
            round (slots.map fun slot => (encode slot.1 hex crlf, slot.2)) := by
        intro counts'
        obtain ⟨sends, hrest, hsender, hpayloads⟩ := ih counts' _
        refine ⟨_, hframe.trans hrest, ?_, congrArg (payload :: ·) hpayloads⟩
        intro s hs
        rcases List.mem_cons.mp hs with rfl | hs
        · rfl
        · exact hsender s hs
      dsimp only
      split
      all_goals
        rename_i after _ hcall
        rw [hcall] at hmore
        exact hmore _

/-- `Send enabled`, of a batch or of the page. -/
theorem sendEnabled_spec (sender : Sender) (batch : Option Snapshot) (answers : Nat → Answer)
    (w : Window) : ∃ sends : List Send, Frame w (sendEnabled sender batch answers w) sends ∧
      (∀ s ∈ sends, s.sender = sender) ∧
      sends.map Send.payload = round (encoded (batch.getD (snapshotMultiBatch w.page))) := by
  obtain ⟨sends, hframe, hsender, hpayloads⟩ := sendSlots_spec sender
    (batch.getD (snapshotMultiBatch w.page)).hex (batch.getD (snapshotMultiBatch w.page)).crlf
    answers ((batch.getD (snapshotMultiBatch w.page)).entries.zip
      (batch.getD (snapshotMultiBatch w.page)).lines) {} w
  refine ⟨sends, ?_, hsender, hpayloads⟩
  unfold sendEnabled
  dsimp only
  split
  all_goals
    rename_i hslots
    rw [hslots] at hframe
  · exact hframe
  · exact hframe.status _

theorem sendSlot_spec (index : Nat) (answer : Answer) (w : Window) :
    ∃ sends : List Send, Frame w (sendSlot index answer w) sends ∧
      ∀ s ∈ sends, s.sender = .slot index := by
  unfold sendSlot
  dsimp only
  split
  · exact ⟨[], (Frame.refl w).status _, by simp⟩
  · split
    · exact ⟨[], Frame.refl w, by simp⟩
    · exact ⟨[], Frame.refl w, by simp⟩
    · exact ⟨[], (Frame.refl w).status _, by simp⟩
    · rename_i payload hencode
      obtain ⟨took, hframe, -⟩ := call_spec (.slot index) (encode_ne_nil hencode) answer w
      have hsender : ∀ s ∈ [(⟨.slot index, payload, took⟩ : Send)], s.sender = .slot index := by
        intro s hs
        rw [List.mem_singleton.mp hs]
      split
      all_goals
        rename_i hcall
        rw [hcall] at hframe
      · exact ⟨_, hframe, hsender⟩
      · exact ⟨_, hframe.status _, hsender⟩

/-! ## The law of the batches -/

/-- What a Run has done at an index: it has handed over the payloads before it, and knows the
lines without one. -/
structure RunLaw (w : Window) (run : Run) : Prop where
  number : run.number + 1 = w.batches.length
  batch : w.batches[run.number]? = some run.batch
  lines : run.batch.lines.length = run.batch.entries.length
  index : run.index ≤ run.batch.entries.length
  sent : (handed (.sequence run.number) w).map Send.payload =
    ((encoded run.batch).take run.index).filterMap payload?
  took : ∀ s ∈ handed (.sequence run.number) w, s.took.isSome = true
  bad : run.skippedBad = linesOf .invalid ((encoded run.batch).take run.index)
  blank : run.skippedBlank = linesOf .blank ((encoded run.batch).take run.index)

/-- What a Run has handed over: the first payloads of its snapshot, of which only the last one
may have been refused. -/
def SentFirst (batch : Snapshot) (sends : List Send) : Prop :=
  ∃ k, sends.map Send.payload = ((encoded batch).take k).filterMap payload? ∧
    ∀ s ∈ sends.dropLast, s.took.isSome = true

/-- What a cycle has handed over: its snapshot again and again. -/
def SentRounds (batch : Snapshot) (sends : List Send) : Prop :=
  ∃ k, sends.map Send.payload = (List.replicate k (round (encoded batch))).flatten

structure Law (w : Window) : Prop where
  current : ∀ run, w.sequence = some run →
    RunLaw w run ∧ run.index < run.batch.entries.length
  runs : ∀ i batch, w.batches[i]? = some batch → SentFirst batch (handed (.sequence i) w)
  unstarted : ∀ i, w.batches.length ≤ i → handed (.sequence i) w = []
  cycles : ∀ i batch, w.cycles[i]? = some batch → SentRounds batch (handed (.cycle i) w)
  unset : ∀ i, w.cycles.length ≤ i → handed (.cycle i) w = []
  timer : w.multiTimer.isSome = true → w.multiSnapshot.isSome = true ∧
    w.multiSnapshot = w.cycles.getLast?

/-- Calls of other senders change nothing for the batches. -/
theorem Law.frame {w w' : Window} {sends : List Send} (h : Law w) (hframe : Frame w w' sends)
    (hother : ∀ s ∈ sends, (∀ i, s.sender ≠ .sequence i) ∧ ∀ i, s.sender ≠ .cycle i) :
    Law w' := by
  have hsequence : ∀ i, handed (.sequence i) w' = handed (.sequence i) w := by
    intro i
    rw [hframe.handed, List.filter_eq_nil_iff.mpr, List.append_nil]
    intro s hs
    rw [decide_eq_true_eq]
    exact (hother s hs).1 i
  have hcycle : ∀ i, handed (.cycle i) w' = handed (.cycle i) w := by
    intro i
    rw [hframe.handed, List.filter_eq_nil_iff.mpr, List.append_nil]
    intro s hs
    rw [decide_eq_true_eq]
    exact (hother s hs).2 i
  refine ⟨?_, ?_, ?_, ?_, ?_, ?_⟩
  · intro run hrun
    rw [hframe.sequence] at hrun
    obtain ⟨hlaw, hindex⟩ := h.current run hrun
    exact ⟨⟨hframe.batches ▸ hlaw.number, hframe.batches ▸ hlaw.batch, hlaw.lines, hlaw.index,
      hsequence _ ▸ hlaw.sent, hsequence _ ▸ hlaw.took, hlaw.bad, hlaw.blank⟩, hindex⟩
  · intro i batch hbatch
    rw [hframe.batches] at hbatch
    rw [hsequence]
    exact h.runs i batch hbatch
  · intro i hi
    rw [hframe.batches] at hi
    rw [hsequence]
    exact h.unstarted i hi
  · intro i batch hbatch
    rw [hframe.cycles] at hbatch
    rw [hcycle]
    exact h.cycles i batch hbatch
  · intro i hi
    rw [hframe.cycles] at hi
    rw [hcycle]
    exact h.unset i hi
  · rw [hframe.multiTimer, hframe.multiSnapshot, hframe.cycles]
    exact h.timer

/-- A step that makes no call and starts nothing. -/
theorem Law.quiet {w w' : Window} (h : Law w) (hbatches : w'.batches = w.batches)
    (hcycles : w'.cycles = w.cycles) (hhistory : w'.history = w.history)
    (hsequence : ∀ run, w'.sequence = some run → w.sequence = some run)
    (htimer : w'.multiTimer.isSome = true → w.multiTimer.isSome = true)
    (hsnapshot : w'.multiTimer.isSome = true → w'.multiSnapshot = w.multiSnapshot) : Law w' := by
  have hhanded : ∀ sender, handed sender w' = handed sender w := fun sender => by
    rw [handed, hhistory]
    rfl
  refine ⟨?_, ?_, ?_, ?_, ?_, ?_⟩
  · intro run hrun
    obtain ⟨hlaw, hindex⟩ := h.current run (hsequence run hrun)
    exact ⟨⟨hbatches ▸ hlaw.number, hbatches ▸ hlaw.batch, hlaw.lines, hlaw.index,
      hhanded _ ▸ hlaw.sent, hhanded _ ▸ hlaw.took, hlaw.bad, hlaw.blank⟩, hindex⟩
  · exact fun i batch hbatch => hhanded _ ▸ h.runs i batch (hbatches ▸ hbatch)
  · exact fun i hi => (hhanded _).trans (h.unstarted i (hbatches ▸ hi))
  · exact fun i batch hbatch => hhanded _ ▸ h.cycles i batch (hcycles ▸ hbatch)
  · exact fun i hi => (hhanded _).trans (h.unset i (hcycles ▸ hi))
  · intro hrunning
    rw [hsnapshot hrunning, hcycles]
    exact h.timer (htimer hrunning)

theorem Law.said {w : Window} (h : Law w) (said : String) :
    Law { w with statusDirty := said } :=
  h.quiet rfl rfl rfl (fun _ hrun => hrun) id fun _ => rfl

theorem Law.stopSequence {w : Window} (h : Law w) (finalStatus : Option String) :
    Law (stopSequence finalStatus w) :=
  h.quiet rfl rfl rfl (fun _ hrun => by cases hrun) id fun _ => rfl

theorem Law.stopBatches {w : Window} (h : Law w) (finalStatus : String) :
    Law (stopBatches finalStatus w) := by
  have hisSome : (w.multiTimer.map fun _ => false).isSome = w.multiTimer.isSome :=
    Option.isSome_map
  unfold SendWindow.stopBatches
  dsimp only
  split
  · exact (h.stopSequence (some finalStatus)).quiet rfl rfl rfl (fun _ hrun => hrun)
      (fun hrunning => hisSome.symm.trans hrunning) fun _ => rfl
  · exact h.quiet rfl rfl rfl (fun _ hrun => hrun)
      (fun hrunning => hisSome.symm.trans hrunning) fun _ => rfl

/-! ## Runs -/

theorem lines_snapshot (page : Batch.Page) :
    (snapshotMultiBatch page).lines.length = (snapshotMultiBatch page).entries.length := by
  simp [snapshotMultiBatch]

theorem law_runSequence {w : Window} (h : Law w) : Law (runSequence w) := by
  unfold runSequence
  split
  · exact h.stopSequence none
  · split
    · exact h.said _
    · split
      · exact h.said _
      · dsimp only
        split
        · exact h.said _
        · rename_i hentries
          have hnew : handed (.sequence w.batches.length) w = [] :=
            h.unstarted w.batches.length (Nat.le_refl _)
          refine ⟨?_, ?_, ?_, h.cycles, h.unset, h.timer⟩
          · rintro run hrun
            obtain rfl := Option.some.inj hrun
            refine ⟨⟨?_, ?_, lines_snapshot w.page, Nat.zero_le _, ?_, ?_, rfl, rfl⟩,
              List.length_pos_iff.mpr hentries⟩
            · show w.batches.length + 1 = (w.batches ++ [snapshotMultiBatch w.page]).length
              rw [List.length_append, List.length_singleton]
            · exact List.getElem?_concat_length
            · exact congrArg (List.map Send.payload) hnew
            · intro s hs
              have hs' : s ∈ handed (.sequence w.batches.length) w := hs
              rw [hnew] at hs'
              exact absurd hs' List.not_mem_nil
          · intro i batch hbatch
            by_cases hi : i < w.batches.length
            · rw [List.getElem?_append_left hi] at hbatch
              exact h.runs i batch hbatch
            · refine ⟨0, ?_, ?_⟩
              all_goals
                have hnone : handed (.sequence i) w = [] := h.unstarted i (by omega)
              · exact congrArg (List.map Send.payload) hnone
              · intro s hs
                have hs' : s ∈ (handed (.sequence i) w).dropLast := hs
                rw [hnone] at hs'
                exact absurd hs' List.not_mem_nil
          · intro i hi
            exact h.unstarted i (by rw [List.length_append] at hi; omega)

/-- The entry at an index, encoded. -/
theorem encoded_getElem? {batch : Snapshot} (hlines : batch.lines.length = batch.entries.length)
    {i : Nat} {text : Bytes} (htext : batch.entries[i]? = some text) :
    (encoded batch)[i]? = some (encode text batch.hex batch.crlf, batch.lines.getD i 0) := by
  obtain ⟨hi, hget⟩ := List.getElem?_eq_some_iff.mp htext
  have hline : batch.lines[i]? = some (batch.lines.getD i 0) := by
    rw [List.getD_eq_getElem?_getD, List.getElem?_eq_getElem (by omega)]
    rfl
  have hslot : (batch.entries.zip batch.lines)[i]? = some (text, batch.lines.getD i 0) :=
    List.getElem?_zip_eq_some.mpr ⟨htext, hline⟩
  rw [encoded, List.getElem?_map, hslot]
  rfl

/-- Behind one more entry. -/
theorem take_encoded {batch : Snapshot} (hlines : batch.lines.length = batch.entries.length)
    {i : Nat} {text : Bytes} (htext : batch.entries[i]? = some text) :
    (encoded batch).take (i + 1) = (encoded batch).take i ++
      [(encode text batch.hex batch.crlf, batch.lines.getD i 0)] := by
  rw [List.take_add_one, encoded_getElem? hlines htext]
  rfl

theorem filterMap_snoc (entries : List (Encoded × Nat)) (e : Encoded) (line : Nat) :
    (entries ++ [(e, line)]).filterMap payload? =
      entries.filterMap payload? ++ (payload? (e, line)).toList := by
  rw [List.filterMap_append]
  cases hp : payload? (e, line) <;> simp [hp]

theorem linesOf_snoc (e f : Encoded) (entries : List (Encoded × Nat)) (line : Nat) :
    linesOf e (entries ++ [(f, line)]) =
      linesOf e entries ++ if f = e then [line] else [] := by
  rw [linesOf, List.filter_append, List.map_append]
  split <;> simp [linesOf, *]

/-- The end of a firing keeps the law, where the Run is told as far as it now is. -/
theorem law_sequenceReport {w : Window} (h : Law { w with sequence := none }) {run : Run}
    (hrun : RunLaw w run) : Law (sequenceReport run w) := by
  have hstopped : ∀ said, Law (stopSequence said w) := fun said =>
    h.quiet rfl rfl rfl (fun _ hnone => by cases hnone) id fun _ => rfl
  unfold sequenceReport
  dsimp only
  split
  · exact hstopped _
  · rename_i hindex
    refine ⟨?_, h.runs, h.unstarted, h.cycles, h.unset, h.timer⟩
    intro run' hrun'
    obtain rfl := Option.some.inj hrun'
    exact ⟨⟨hrun.number, hrun.batch, hrun.lines, hrun.index, hrun.sent, hrun.took, hrun.bad,
      hrun.blank⟩, Nat.lt_of_not_le hindex⟩

/-- Calls of a Run, told with its snapshot. -/
theorem Law.frameRun {w w' : Window} {s : Send} {i : Nat} {batch : Snapshot} (h : Law w)
    (hframe : Frame w w' [s]) (hsender : s.sender = .sequence i)
    (hbatch : w.batches[i]? = some batch) (hsent : SentFirst batch (handed (.sequence i) w')) :
    Law { w' with sequence := none } := by
  have hcycle : ∀ j, handed (.cycle j) w' = handed (.cycle j) w := by
    intro j
    rw [hframe.handed, List.filter_singleton, hsender]
    exact List.append_nil _
  have hothers : ∀ j, j ≠ i → handed (.sequence j) w' = handed (.sequence j) w := by
    intro j hj
    have hne : Sender.sequence i ≠ Sender.sequence j := fun heq => hj (Sender.sequence.inj heq).symm
    rw [hframe.handed, List.filter_singleton, hsender, decide_eq_false hne]
    exact List.append_nil _
  obtain ⟨hi, -⟩ := List.getElem?_eq_some_iff.mp hbatch
  refine ⟨fun run hrun => absurd hrun (by simp), ?_, ?_, ?_, ?_, ?_⟩
  · intro j other hother
    have hother' : w.batches[j]? = some other := hframe.batches ▸ hother
    by_cases hj : j = i
    · subst hj
      rw [← Option.some.inj (hbatch.symm.trans hother')]
      exact hsent
    · exact (hothers j hj).symm ▸ h.runs j other hother'
  · intro j hj
    have hj' : w.batches.length ≤ j := hframe.batches ▸ hj
    exact (hothers j (by omega)).trans (h.unstarted j hj')
  · intro j other hother
    exact (hcycle j).symm ▸ h.cycles j other (hframe.cycles ▸ hother)
  · intro j hj
    exact (hcycle j).trans (h.unset j (hframe.cycles ▸ hj))
  · show w'.multiTimer.isSome = true → w'.multiSnapshot.isSome = true ∧
      w'.multiSnapshot = w'.cycles.getLast?
    rw [hframe.multiTimer, hframe.multiSnapshot, hframe.cycles]
    exact h.timer

/-- The law without the Run at work. -/
theorem Law.unsequenced {w : Window} (h : Law w) : Law { w with sequence := none } :=
  h.quiet rfl rfl rfl (fun _ hnone => absurd hnone (by simp)) id fun _ => rfl

/-- An entry without a payload. -/
theorem RunLaw.skip {w : Window} {run next : Run} (h : RunLaw w run)
    (hindex : run.index < run.batch.entries.length) {text : Bytes}
    (htext : run.batch.entries[run.index]? = some text)
    (hnone : payload? (encode text run.batch.hex run.batch.crlf,
      run.batch.lines.getD run.index 0) = none)
    (hnumber : next.number = run.number) (hbatch : next.batch = run.batch)
    (hnext : next.index = run.index + 1)
    (hbad : next.skippedBad = run.skippedBad ++
      if encode text run.batch.hex run.batch.crlf = .invalid then
        [run.batch.lines.getD run.index 0] else [])
    (hblank : next.skippedBlank = run.skippedBlank ++
      if encode text run.batch.hex run.batch.crlf = .blank then
        [run.batch.lines.getD run.index 0] else []) : RunLaw w next := by
  have htake := take_encoded h.lines htext
  refine ⟨hnumber ▸ h.number, ?_, hbatch ▸ h.lines, ?_, ?_, hnumber ▸ h.took, ?_, ?_⟩
  · rw [hnumber, hbatch]
    exact h.batch
  · rw [hnext, hbatch]
    exact hindex
  · rw [hnumber, hbatch, hnext, htake, filterMap_snoc, hnone, Option.toList_none, List.append_nil]
    exact h.sent
  · rw [hbatch, hnext, htake, linesOf_snoc, hbad, h.bad]
  · rw [hbatch, hnext, htake, linesOf_snoc, hblank, h.blank]

/-- What a firing does: it goes on behind one more entry, or stops at a refused payload. -/
theorem sequenceFire_spec {w w' : Window} {answer : Answer} (h : Law w)
    (hfire : sequenceFire answer w = some w') : ∃ run, w.sequence = some run ∧
    ((∃ next after, next.number = run.number ∧ next.batch = run.batch ∧
        RunLaw after next ∧ Law { after with sequence := none } ∧
        w' = sequenceReport next after) ∨
      (∃ payload reason after, Law { after with sequence := none } ∧
        Frame w after [⟨.sequence run.number, payload, none⟩] ∧
        (handed (.sequence run.number) after).map Send.payload =
          ((encoded run.batch).take (run.index + 1)).filterMap payload? ∧
        w' = stopSequence (some ("sequence stopped at " ++
          progress (run.index + 1) run.batch.entries.length ++ ": send failed" ++ reason))
          after)) := by
  obtain ⟨run, hrun, hstep⟩ := Option.map_eq_some_iff.mp hfire
  obtain ⟨hlaw, hindex⟩ := h.current run hrun
  refine ⟨run, hrun, ?_⟩
  have htext : run.batch.entries[run.index]? = some run.batch.entries[run.index] :=
    List.getElem?_eq_getElem hindex
  generalize run.batch.entries[run.index] = text at htext
  rw [htext] at hstep
  dsimp only at hstep
  cases hencode : encode text run.batch.hex run.batch.crlf with
  | raised =>
    rw [hencode] at hstep
    refine Or.inl ⟨{ run with index := run.index + 1 }, w, rfl, rfl, ?_, h.unsequenced,
      hstep.symm⟩
    exact hlaw.skip hindex htext (by rw [hencode]; rfl) rfl rfl rfl (by simp [hencode])
      (by simp [hencode])
  | invalid =>
    rw [hencode] at hstep
    refine Or.inl ⟨{ run with
      index := run.index + 1
      skippedBad := run.skippedBad ++ [run.batch.lines.getD run.index 0] }, w, rfl, rfl, ?_,
      h.unsequenced, hstep.symm⟩
    exact hlaw.skip hindex htext (by rw [hencode]; rfl) rfl rfl rfl (by simp [hencode])
      (by simp [hencode])
  | blank =>
    rw [hencode] at hstep
    refine Or.inl ⟨{ run with
      index := run.index + 1
      skippedBlank := run.skippedBlank ++ [run.batch.lines.getD run.index 0] }, w, rfl, rfl, ?_,
      h.unsequenced, hstep.symm⟩
    exact hlaw.skip hindex htext (by rw [hencode]; rfl) rfl rfl rfl (by simp [hencode])
      (by simp [hencode])
  | payload payload =>
    rw [hencode] at hstep
    dsimp only at hstep
    obtain ⟨took, hframe, htook⟩ :=
      call_spec (.sequence run.number) (encode_ne_nil hencode) answer w
    have htake := take_encoded hlaw.lines htext
    have hhanded : handed (.sequence run.number) (call (.sequence run.number) payload answer w).1 =
        handed (.sequence run.number) w ++ [⟨.sequence run.number, payload, took⟩] := by
      rw [hframe.handed, List.filter_singleton]
      simp
    have hsent : (handed (.sequence run.number)
        (call (.sequence run.number) payload answer w).1).map Send.payload =
        ((encoded run.batch).take (run.index + 1)).filterMap payload? := by
      rw [hhanded, List.map_append, hlaw.sent, htake, filterMap_snoc, hencode]
      rfl
    have hfirst : SentFirst run.batch (handed (.sequence run.number)
        (call (.sequence run.number) payload answer w).1) := by
      refine ⟨run.index + 1, hsent, ?_⟩
      rw [hhanded, List.dropLast_concat]
      exact hlaw.took
    have hafter := h.frameRun hframe rfl hlaw.batch hfirst
    split at hstep
    · rename_i after rc hcall
      rw [hcall] at hframe htook hhanded hsent hafter
      refine Or.inl ⟨{ run with index := run.index + 1 }, after, rfl, rfl, ?_, hafter,
        hstep.symm⟩
      refine ⟨?_, ?_, hlaw.lines, hindex, hsent, ?_, ?_, ?_⟩
      · rw [hframe.batches]
        exact hlaw.number
      · rw [hframe.batches]
        exact hlaw.batch
      · intro s hs
        have hs' : s ∈ handed (.sequence run.number) after := hs
        rw [hhanded] at hs'
        rcases List.mem_append.mp hs' with hold | hnew
        · exact hlaw.took s hold
        · rw [List.mem_singleton.mp hnew]
          exact htook.symm
      · show run.skippedBad = linesOf .invalid ((encoded run.batch).take (run.index + 1))
        rw [htake, linesOf_snoc, hencode, if_neg (by simp), List.append_nil]
        exact hlaw.bad
      · show run.skippedBlank = linesOf .blank ((encoded run.batch).take (run.index + 1))
        rw [htake, linesOf_snoc, hencode, if_neg (by simp), List.append_nil]
        exact hlaw.blank
    · rename_i after rc hcall
      rw [hcall] at hframe htook hhanded hsent hafter
      obtain rfl : took = none :=
        Option.isNone_iff_eq_none.mp (Option.isSome_eq_false_iff.mp htook.symm)
      exact Or.inr ⟨payload, _, after, hafter, hframe, hsent, hstep.symm⟩

theorem law_sequenceFire {w w' : Window} {answer : Answer} (h : Law w)
    (hfire : sequenceFire answer w = some w') : Law w' := by
  obtain ⟨run, -, ⟨next, after, -, -, hlaw, hafter, rfl⟩ |
    ⟨payload, reason, after, hafter, -, -, rfl⟩⟩ := sequenceFire_spec h hfire
  · exact law_sequenceReport hafter hlaw
  · exact hafter.quiet rfl rfl rfl (fun _ hnone => absurd hnone (by simp [stopSequence])) id
      fun _ => rfl

/-! ## Cycles -/

theorem law_syncMultiAuto {w : Window} (h : Law w) : Law (syncMultiAuto w) := by
  unfold syncMultiAuto
  split
  · exact h.quiet rfl rfl rfl (fun _ hrun => hrun) id fun _ => rfl
  · split
    · exact h.quiet rfl rfl rfl (fun _ hrun => hrun) (fun hnone => absurd hnone (by simp))
        fun hnone => absurd hnone (by simp)
    · split
      · exact h.quiet rfl rfl rfl (fun _ hrun => hrun) id fun _ => rfl
      · rename_i hidle
        split
        · exact h.quiet rfl rfl rfl (fun _ hrun => hrun) id fun _ => rfl
        · refine ⟨?_, h.runs, h.unstarted, ?_, ?_, fun _ => ⟨rfl, ?_⟩⟩
          · intro run hrun
            have hrun' : w.sequence = some run := hrun
            exact absurd (by rw [hrun']; rfl) hidle
          · intro i batch hbatch
            by_cases hi : i < w.cycles.length
            · rw [List.getElem?_append_left hi] at hbatch
              exact h.cycles i batch hbatch
            · have hnone : handed (.cycle i) w = [] := h.unset i (by omega)
              exact ⟨0, congrArg (List.map Send.payload) hnone⟩
          · intro i hi
            exact h.unset i (by rw [List.length_append] at hi; omega)
          · exact (List.getLast?_concat ..).symm

theorem law_cycleFire {w w' : Window} {answers : Nat → Answer} (h : Law w)
    (hfire : cycleFire answers w = some w') : Law w' := by
  unfold cycleFire at hfire
  split at hfire
  · rename_i hrunning
    obtain rfl := Option.some.inj hfire
    obtain ⟨hsnapshot, hlast⟩ := h.timer (by rw [hrunning]; rfl)
    obtain ⟨batch, hbatch⟩ := Option.isSome_iff_exists.mp hsnapshot
    have hcurrent : w.cycles[w.cycles.length - 1]? = some batch := by
      rw [← List.getLast?_eq_getElem?, ← hlast, hbatch]
    obtain ⟨sends, hframe, hsender, hpayloads⟩ :=
      sendEnabled_spec (.cycle (w.cycles.length - 1)) w.multiSnapshot answers w
    generalize sendEnabled (.cycle (w.cycles.length - 1)) w.multiSnapshot answers w = w' at hframe
    rw [hbatch, Option.getD_some] at hpayloads
    have hsequence : ∀ i, handed (.sequence i) w' = handed (.sequence i) w := by
      intro i
      rw [hframe.handed, List.filter_eq_nil_iff.mpr, List.append_nil]
      intro s hs
      rw [hsender s hs]
      simp
    have hothers : ∀ i, i ≠ w.cycles.length - 1 → handed (.cycle i) w' = handed (.cycle i) w := by
      intro i hi
      rw [hframe.handed, List.filter_eq_nil_iff.mpr, List.append_nil]
      intro s hs
      rw [hsender s hs, decide_eq_true_eq]
      exact fun heq => hi (Sender.cycle.inj heq).symm
    have hown : handed (.cycle (w.cycles.length - 1)) w' =
        handed (.cycle (w.cycles.length - 1)) w ++ sends := by
      rw [hframe.handed, List.filter_eq_self.mpr]
      intro s hs
      rw [hsender s hs, decide_eq_true_eq]
    have hstarted := (List.getElem?_eq_some_iff.mp hcurrent).1
    refine ⟨?_, ?_, ?_, ?_, ?_, ?_⟩
    · intro run hrun
      rw [hframe.sequence] at hrun
      obtain ⟨hlaw, hindex⟩ := h.current run hrun
      exact ⟨⟨hframe.batches ▸ hlaw.number, hframe.batches ▸ hlaw.batch, hlaw.lines, hlaw.index,
        hsequence _ ▸ hlaw.sent, hsequence _ ▸ hlaw.took, hlaw.bad, hlaw.blank⟩, hindex⟩
    · exact fun i other hother => hsequence i ▸ h.runs i other (hframe.batches ▸ hother)
    · exact fun i hi => (hsequence i).trans (h.unstarted i (hframe.batches ▸ hi))
    · intro i other hother
      rw [hframe.cycles] at hother
      by_cases hi : i = w.cycles.length - 1
      · subst hi
        obtain rfl := Option.some.inj (hcurrent.symm.trans hother)
        obtain ⟨k, hk⟩ := h.cycles _ batch hcurrent
        refine ⟨k + 1, ?_⟩
        rw [hown, List.map_append, hk, hpayloads, List.replicate_succ', List.flatten_append]
        simp
      · rw [hothers i hi]
        exact h.cycles i other hother
    · intro i hi
      rw [hframe.cycles] at hi
      rw [hothers i (by omega)]
      exact h.unset i hi
    · rw [hframe.multiTimer, hframe.multiSnapshot, hframe.cycles]
      exact h.timer
  · cases hfire

/-! ## Whole sessions -/

theorem law_init : Law machine.init where
  current := fun _ hnone => absurd hnone (by simp [machine])
  runs := fun i _ hnone => absurd hnone (by simp [machine])
  unstarted := fun _ _ => rfl
  cycles := fun i _ hnone => absurd hnone (by simp [machine])
  unset := fun _ _ => rfl
  timer := fun hnone => absurd hnone (by simp [machine])

theorem law_step {w w' : Window} (h : Law w) {op : Op} (hstep : step w op = some w') : Law w' := by
  cases op with
  | edit _ | environment _ _ _ | finishReset =>
    obtain rfl := Option.some.inj hstep
    exact h.quiet rfl rfl rfl (fun _ hrun => hrun) id fun _ => rfl
  | view op =>
    cases op with
    | sent _ _ => cases hstep
    | receive _ | clear | options _ | drag _ | logging _ =>
      obtain rfl := Option.some.inj hstep
      exact h.quiet rfl rfl rfl (fun _ hrun => hrun) id fun _ => rfl
  | slot index answer =>
    obtain rfl := Option.some.inj hstep
    obtain ⟨sends, hframe, hsender⟩ := sendSlot_spec index answer w
    refine h.frame hframe fun s hs => ?_
    rw [hsender s hs]
    exact ⟨fun i => by simp, fun i => by simp⟩
  | enabled answers =>
    obtain rfl := Option.some.inj hstep
    obtain ⟨sends, hframe, hsender, -⟩ := sendEnabled_spec .enabled none answers w
    refine h.frame hframe fun s hs => ?_
    rw [hsender s hs]
    exact ⟨fun i => by simp, fun i => by simp⟩
  | runSequence =>
    obtain rfl := Option.some.inj hstep
    exact law_runSequence h
  | sequenceFire answer => exact law_sequenceFire h hstep
  | multiAuto on =>
    obtain rfl := Option.some.inj hstep
    have hset : Law { w with multiAuto := on } :=
      h.quiet rfl rfl rfl (fun _ hrun => hrun) id fun _ => rfl
    exact law_syncMultiAuto hset
  | cycleFire answers => exact law_cycleFire h hstep
  | portClosed =>
    obtain rfl := Option.some.inj hstep
    exact h.stopBatches _
  | connected =>
    obtain rfl := Option.some.inj hstep
    exact law_syncMultiAuto h
  | startReset inFlight =>
    unfold step at hstep
    dsimp only at hstep
    split at hstep
    · exact Option.some.inj hstep ▸ h
    · obtain rfl := Option.some.inj hstep
      exact (h.stopBatches "sequence stopped: reset").quiet rfl rfl rfl (fun _ hrun => hrun) id
        fun _ => rfl

theorem law_reach {w : Window} (h : Reach machine w) : Law w :=
  h.invariant law_init fun _ _ _ hlaw _ hstep => law_step hlaw hstep

/-- In every session each Run hands over the first payloads of the snapshot it was started with
and goes on behind no payload that was refused, and each cycle hands over its snapshot again and
again. -/
theorem batches_send_snapshots {w : Window} (h : Reach machine w) :
    (∀ i batch, w.batches[i]? = some batch → SentFirst batch (handed (.sequence i) w)) ∧
    (∀ i batch, w.cycles[i]? = some batch → SentRounds batch (handed (.cycle i) w)) :=
  ⟨(law_reach h).runs, (law_reach h).cycles⟩

/-- Two rows are ticked, and the page is emptied before the second one is due. -/
def editedRun : List Op :=
  [.edit { slots := [([0x41], true), ([0x42], true)] }, .runSequence, .sequenceFire {},
    .edit { slots := [] }]

theorem batches_send_snapshots_edited : ∃ w : Window, w.page.slots = [] ∧
    w.batches.length = 1 ∧
    ∀ batch, w.batches[0]? = some batch → SentFirst batch (handed (.sequence 0) w) := by
  obtain ⟨w, hw, hpage, hlen⟩ : ∃ w : Window, Reach machine w ∧
      (w.page.slots = [] ∧ w.batches.length = 1) :=
    Transition.exists_of_execUnder editedRun (by decide)
  exact ⟨w, hpage, hlen, (batches_send_snapshots hw).1 0⟩

/-- The end of a Run that went through: every payload was sent, and the lines without one are
named. -/
structure Done (run : Run) (w : Window) : Prop where
  status : w.statusDirty = "sequence done " ++
    (progress run.batch.entries.length run.batch.entries.length ++
      notice (linesOf .invalid (encoded run.batch)) (linesOf .blank (encoded run.batch)))
  sent : (handed (.sequence run.number) w).map Send.payload =
    (encoded run.batch).filterMap payload?
  took : ∀ s ∈ handed (.sequence run.number) w, s.took.isSome = true

/-- The end of a Run behind a payload that was refused: the entry is named. -/
def Stopped (run : Run) (w : Window) : Prop :=
  ∃ payload reason, w.statusDirty = "sequence stopped at " ++
      progress (run.index + 1) run.batch.entries.length ++ ": send failed" ++ reason ∧
    (handed (.sequence run.number) w).getLast? = some ⟨.sequence run.number, payload, none⟩ ∧
    (handed (.sequence run.number) w).map Send.payload =
      ((encoded run.batch).take (run.index + 1)).filterMap payload?

end Xcom.Tx.SendWindow
