import Xcom.Receive.Lines

/-!
# Whole lines

With charset conversion off, every byte of an unpaused batch leaves the whole-line bridge
once and in order, to the script stage or with a clear of the view, or is still held.  A
text handed to the script stage that does not end a line has been counted as forced.
-/

namespace Xcom.Receive

/-! ## The bridge -/

theorem lastNl_cases (text : List UInt8) (read : Nat) (last : Option Nat) :
    (0x0A ∉ text ∧ lastNl text read last = last) ∨
      ∃ front back, text = front ++ 0x0A :: back ∧ 0x0A ∉ back ∧
        lastNl text read last = some (read + (front.length + 1)) := by
  induction text generalizing read last with
  | nil => exact .inl ⟨by simp, rfl⟩
  | cons b text ih =>
    rcases ih (read + 1) (if b = 0x0A then some (read + 1) else last) with
      ⟨hnone, heq⟩ | ⟨front, back, rfl, hback, heq⟩
    · by_cases hb : b = 0x0A
      · refine .inr ⟨[], text, by rw [hb]; rfl, hnone, ?_⟩
        rw [lastNl, heq, if_pos hb]
        rfl
      · refine .inl ⟨?_, ?_⟩
        · intro hmem
          rcases List.mem_cons.mp hmem with h | h
          · exact hb h.symm
          · exact hnone h
        · rw [lastNl, heq, if_neg hb]
    · refine .inr ⟨b :: front, back, rfl, hback, ?_⟩
      rw [lastNl, heq, List.length_cons]
      congr 1
      omega

/-- The text does not end a line. -/
def endsOpen (text : List UInt8) : Bool := text ≠ [] ∧ text.getLast? ≠ some 0x0A

/-- Without an LF all of it is held. -/
theorem bridgeLines_none {pending text : List UInt8} (h : lastNl text 0 none = none) :
    bridgeLines pending text = ([], pending ++ text) := by
  unfold bridgeLines splitCompleteLines
  rw [h]
  split
  · rename_i hempty
    rw [hempty]
    rfl
  · rfl

theorem bridgeLines_some {pending text : List UInt8} {n : Nat}
    (h : lastNl text 0 none = some n) :
    bridgeLines pending text =
      if n = text.length then (pending ++ text, [])
      else (pending ++ text.take n, text.drop n) := by
  unfold bridgeLines splitCompleteLines
  rw [h]
  split
  · rename_i hempty
    rw [hempty]
    rfl
  · rfl

/-- The bridge loses nothing, hands out whole lines and holds none back. -/
theorem bridgeLines_spec {pending : List UInt8} (hpending : 0x0A ∉ pending)
    (text : List UInt8) :
    (bridgeLines pending text).1 ++ (bridgeLines pending text).2 = pending ++ text ∧
      0x0A ∉ (bridgeLines pending text).2 ∧ endsOpen (bridgeLines pending text).1 = false := by
  rcases lastNl_cases text 0 none with ⟨hnone, heq⟩ | ⟨front, back, rfl, hback, heq⟩
  · rw [bridgeLines_none heq]
    refine ⟨rfl, ?_, by simp [endsOpen]⟩
    intro hmem
    rcases List.mem_append.mp hmem with h | h
    · exact hpending h
    · exact hnone h
  · have htake : (front ++ 0x0A :: back).take (0 + (front.length + 1)) = front ++ [0x0A] := by
      rw [Nat.zero_add, List.take_length_add_append]
      rfl
    have hdrop : (front ++ 0x0A :: back).drop (0 + (front.length + 1)) = back := by
      rw [Nat.zero_add, List.drop_length_add_append]
      rfl
    rw [bridgeLines_some heq]
    split
    · rename_i hlen
      obtain rfl : back = [] := by
        rw [List.length_append, List.length_cons] at hlen
        exact List.length_eq_zero_iff.mp (by omega)
      refine ⟨List.append_nil _, by simp, ?_⟩
      simp [endsOpen]
    · rw [htake, hdrop]
      refine ⟨by simp, hback, ?_⟩
      simp [endsOpen]

/-! ## What leaves the bridge -/

/-- The text of a handout. -/
def Handout.text : Handout → List UInt8
  | .handed text => text
  | .discarded text => text

/-- The text discarded with a clear of the view. -/
def discardedText (hs : List Handout) : List UInt8 :=
  hs.flatMap fun h =>
    match h with
    | .handed _ => []
    | .discarded text => text

/-- The texts handed to the script stage that do not end a line. -/
def openHandouts (hs : List Handout) : List Handout :=
  hs.filter fun h =>
    match h with
    | .handed text => endsOpen text
    | .discarded _ => false

theorem length_openHandouts (hs : List Handout) (text : List UInt8) :
    (openHandouts (hs ++ [.handed text])).length =
      (openHandouts hs).length + if endsOpen text then 1 else 0 := by
  rw [openHandouts, List.filter_append, List.length_append]
  congr 1
  cases hopen : endsOpen text <;> simp only [List.filter, hopen] <;> rfl

/-- What holds while `owed` has been cut off for the script stage and `due` is the rest of
the batch at work. -/
structure Whole (owed due : List UInt8) (s : RxWindow) : Prop where
  passthrough : s.charsetActive = false
  flow : s.handouts.flatMap Handout.text ++ owed ++ s.rxLinePending ++ due = s.received
  noLf : 0x0A ∉ s.rxLinePending
  cap : s.rxLinePending.length ≤ rxLineCap
  counted : (discardedText s.handouts).length = s.rxLineDiscarded
  partials : 0x0A ∉ discardedText s.handouts
  forced : (openHandouts s.handouts).length + (if endsOpen owed then 1 else 0) =
    s.rxLineForced

section Steps

variable {cfg : RxConfig} {env : Env} {owed due : List UInt8} {s : RxWindow}

/-- What the invariant does not look at may change. -/
theorem Whole.frame (h : Whole owed due s) {s' : RxWindow}
    (hactive : s'.charsetActive = s.charsetActive) (hhandouts : s'.handouts = s.handouts)
    (hpending : s'.rxLinePending = s.rxLinePending) (hreceived : s'.received = s.received)
    (hdiscarded : s'.rxLineDiscarded = s.rxLineDiscarded)
    (hforced : s'.rxLineForced = s.rxLineForced) : Whole owed due s' where
  passthrough := hactive ▸ h.passthrough
  flow := by
    rw [hhandouts, hpending, hreceived]
    exact h.flow
  noLf := hpending ▸ h.noLf
  cap := hpending ▸ h.cap
  counted := by
    rw [hhandouts, hdiscarded]
    exact h.counted
  partials := hhandouts ▸ h.partials
  forced := by
    rw [hhandouts, hforced]
    exact h.forced

theorem whole_discard (h : Whole [] due s) : Whole [] due s.discardRxLines := by
  unfold RxWindow.discardRxLines
  split
  · exact h
  · constructor
    · exact h.passthrough
    · have hflow := h.flow
      simpa [Handout.text] using hflow
    · simp
    · simp
    · have hcounted := h.counted
      simp only [discardedText, List.flatMap_append, List.length_append,
        List.flatMap_singleton] at hcounted ⊢
      rw [hcounted]
    · have hpartials := h.partials
      have hpending := h.noLf
      simp only [discardedText, List.flatMap_append, List.flatMap_singleton,
        List.mem_append] at hpartials ⊢
      rintro (hmem | hmem)
      · exact hpartials hmem
      · exact hpending hmem
    · have hforced := h.forced
      simpa [openHandouts] using hforced

theorem whole_clear (h : Whole [] due s) : Whole [] due s.clearImguiView :=
  (whole_discard h).frame rfl rfl rfl rfl rfl rfl

theorem whole_append (h : Whole [] due s) (text : List UInt8) :
    Whole [] due (s.appendImguiReceive env text) := by
  unfold RxWindow.appendImguiReceive
  split
  · exact h
  · simp only
    split
    · exact whole_clear (h.frame rfl rfl rfl rfl rfl rfl)
    · exact h.frame rfl rfl rfl rfl rfl rfl

theorem whole_scripts (h : Whole owed due s) (text : List UInt8) :
    Whole owed due (s.runRxScripts text).2 := by
  unfold RxWindow.runRxScripts
  split
  · exact h.frame rfl rfl rfl rfl rfl rfl
  · exact h
  · exact h

theorem whole_stamp (h : Whole owed due s) (out : List UInt8) :
    Whole owed due (s.stampRxText cfg env out).2 := by
  unfold RxWindow.stampRxText
  split
  · exact h.frame rfl rfl rfl rfl rfl rfl
  · exact h

/-- The text that was cut off is handed to the script stage. -/
theorem whole_handed (h : Whole owed due s) :
    Whole [] due { s with handouts := s.handouts ++ [.handed owed] } where
  passthrough := h.passthrough
  flow := by
    have hflow := h.flow
    simpa [Handout.text] using hflow
  noLf := h.noLf
  cap := h.cap
  counted := by
    have hcounted := h.counted
    simpa [discardedText] using hcounted
  partials := by
    have hpartials := h.partials
    simpa [discardedText] using hpartials
  forced := by
    have hforced := h.forced
    rw [← hforced, length_openHandouts]
    rfl

theorem whole_emit (h : Whole owed due s) : Whole [] due (s.emitRxText cfg env owed) := by
  have hrun := whole_scripts (whole_handed h) owed
  unfold RxWindow.emitRxText
  simp only
  split
  · exact hrun
  · split
    · exact hrun
    · exact whole_append (whole_stamp hrun _) _

theorem whole_flush (h : Whole [] due s) : Whole [] due (s.flushRxLines cfg env) := by
  unfold RxWindow.flushRxLines
  split
  · exact h
  · rename_i hne
    apply whole_emit
    constructor
    · exact h.passthrough
    · have hflow := h.flow
      simpa using hflow
    · simp
    · simp
    · exact h.counted
    · exact h.partials
    · have hforced := h.forced
      have hlast : s.rxLinePending.getLast? ≠ some 0x0A := by
        intro hlast
        exact h.noLf (List.mem_of_getLast? hlast)
      have hopen : endsOpen s.rxLinePending = true := by simp [endsOpen, hne, hlast]
      rw [if_pos hopen]
      simpa [endsOpen] using hforced

theorem whole_newSegment (h : Whole owed due s) (ingressMs : Option Int) (tsSupported : Bool) :
    Whole owed due (s.rxBatchIsNewSegment cfg env ingressMs tsSupported).2 := by
  unfold RxWindow.rxBatchIsNewSegment
  split
  · exact h.frame rfl rfl rfl rfl rfl rfl
  · split
    · exact h.frame rfl rfl rfl rfl rfl rfl
    · simp only
      split <;> exact h.frame rfl rfl rfl rfl rfl rfl

theorem whole_breakFrame (h : Whole [] due s) : Whole [] due (s.breakFrame env) := by
  unfold RxWindow.breakFrame
  split
  · cases s.rxLastBatchMs with
    | none => exact h.frame rfl rfl rfl rfl rfl rfl
    | some last =>
      simp only
      split
      · exact (whole_append h _).frame rfl rfl rfl rfl rfl rfl
      · exact h.frame rfl rfl rfl rfl rfl rfl
  · exact h.frame rfl rfl rfl rfl rfl rfl

/-- The batch at work goes into the bridge: its lines are cut off, its tail is held. -/
theorem whole_bridge {text : List UInt8} (h : Whole [] text s) :
    Whole (s.bridgeBatch text).1 [] (s.bridgeBatch text).2 := by
  obtain ⟨hjoin, hnoLf, hopen⟩ := bridgeLines_spec h.noLf text
  have hflow : s.handouts.flatMap Handout.text ++
      ((bridgeLines s.rxLinePending text).1 ++ (bridgeLines s.rxLinePending text).2) =
        s.received := by
    rw [hjoin, ← h.flow, List.append_nil, List.append_assoc]
  have hforced := h.forced
  unfold RxWindow.bridgeBatch
  simp only
  split
  · rename_i hcap
    have hlast : (bridgeLines s.rxLinePending text).2.getLast? ≠ some 0x0A := by
      intro hlast
      exact hnoLf (List.mem_of_getLast? hlast)
    have hne : (bridgeLines s.rxLinePending text).2 ≠ [] := by
      intro hnil
      rw [hnil] at hcap
      exact absurd hcap (by decide)
    have howed : endsOpen ((bridgeLines s.rxLinePending text).1 ++
        (bridgeLines s.rxLinePending text).2) = true := by
      simp only [endsOpen, List.getLast?_append_of_ne_nil _ hne, decide_eq_true_eq]
      exact ⟨List.append_ne_nil_of_right_ne_nil _ hne, hlast⟩
    refine ⟨h.passthrough, ?_, by simp, by simp, h.counted, h.partials, ?_⟩
    · simpa using hflow
    · rw [if_pos howed]
      simpa [endsOpen] using hforced
  · rename_i hcap
    refine ⟨h.passthrough, ?_, hnoLf, Nat.le_of_not_lt hcap, h.counted, h.partials, ?_⟩
    · simpa using hflow
    · rw [hopen]
      simpa [endsOpen] using hforced

theorem whole_processText {text : List UInt8} (h : Whole [] text s) (new tsSupported : Bool)
    (ingressMs : Option Int) :
    Whole [] [] (s.processText cfg env new tsSupported ingressMs text) := by
  have hbroken : Whole [] text (s.breakFrame env) := whole_breakFrame h
  have hconvert : (s.breakFrame env).convertBatch cfg text = (some text, s.breakFrame env) := by
    rw [RxWindow.convertBatch, hbroken.passthrough]
    rfl
  have hbridge := whole_bridge hbroken
  have howe : Whole ((s.breakFrame env).bridgeBatch text).1 []
      (((s.breakFrame env).bridgeBatch text).2.oweStamp new tsSupported ingressMs) := by
    unfold RxWindow.oweStamp
    split
    · exact hbridge.frame rfl rfl rfl rfl rfl rfl
    · exact hbridge
  unfold RxWindow.processText
  simp only [hconvert]
  split
  · rename_i hnone
    rw [hnone] at howe
    exact howe
  · exact whole_emit howe

/-- One batch. -/
theorem whole_processRxBatch {batch : RxWindow.Batch} (h : Whole [] batch.text s) :
    Whole [] [] (s.processRxBatch cfg env batch) := by
  unfold RxWindow.processRxBatch
  split
  · rename_i hnone
    rw [hnone] at h
    exact h
  · apply whole_processText
    have harrived : Whole [] batch.text { s with rxIdleMs := some env.now } :=
      h.frame rfl rfl rfl rfl rfl rfl
    have hsegment : Whole [] batch.text ({ s with rxIdleMs := some env.now }.rxBatchIsNewSegment
        cfg env batch.ingressMs batch.tsSupported).2 :=
      whole_newSegment harrived batch.ingressMs batch.tsSupported
    split
    · exact whole_flush hsegment
    · exact hsegment

theorem whole_takeBatch (h : Whole [] [] s) (batch : RxWindow.Batch) :
    Whole [] [] (s.takeBatch cfg env batch) := by
  unfold RxWindow.takeBatch
  split
  · exact h.frame rfl rfl rfl rfl rfl rfl
  · apply whole_processRxBatch
    refine ⟨h.passthrough, ?_, h.noLf, h.cap, h.counted, h.partials, h.forced⟩
    have hflow := h.flow
    rw [List.append_nil] at hflow
    exact congrArg (· ++ batch.text) hflow

theorem whole_drainRounds (h : Whole [] [] s) (rounds : Nat)
    (drains : List (Option RxWindow.Batch)) :
    Whole [] [] (RxWindow.drainRounds cfg env rounds drains s) := by
  induction rounds generalizing s drains with
  | zero => exact h
  | succ rounds ih =>
    match drains with
    | [] => exact h
    | none :: _ => exact h
    | some batch :: drains =>
      rw [RxWindow.drainRounds]
      split
      · exact h
      · exact ih (whole_takeBatch h batch) drains

/-- With the conversion off the charset holds nothing back. -/
theorem whole_flushCharset (h : Whole [] [] s) : Whole [] [] (s.flushCharset cfg env) := by
  unfold RxWindow.flushCharset
  rw [h.passthrough]
  exact h

theorem whole_poll (h : Whole [] [] s) (drains : List (Option RxWindow.Batch)) :
    Whole [] [] (s.pollDisplay cfg env drains) := by
  have hdrained : Whole [] [] (RxWindow.drainRounds cfg env 8 drains s) :=
    whole_drainRounds h 8 drains
  unfold RxWindow.pollDisplay
  split
  · exact h
  · simp only
    split
    · exact hdrained
    · split
      · exact whole_flush hdrained
      · exact hdrained

theorem whole_finalDrain (h : Whole [] [] s) (drains : List (Option RxWindow.Batch)) :
    Whole [] [] (s.finalDrain cfg env drains) := by
  unfold RxWindow.finalDrain
  split
  · exact h
  · exact whole_flushCharset (whole_flush (whole_drainRounds h 500 drains))

theorem whole_renderConnected (h : Whole [] [] s) (connected : Bool) :
    Whole [] [] (s.renderConnected cfg env connected) := by
  unfold RxWindow.renderConnected
  split
  · have hclosed : Whole [] [] { s with connected := false } := h.frame rfl rfl rfl rfl rfl rfl
    exact (whole_flushCharset (whole_flush hclosed)).frame rfl rfl rfl rfl rfl rfl
  · exact h.frame rfl rfl rfl rfl rfl rfl

theorem whole_echoTx (h : Whole [] [] s) (payload : List UInt8) :
    Whole [] [] (s.echoTx cfg env payload) := by
  unfold RxWindow.echoTx
  split
  · exact h
  · simp only
    apply whole_append
    split
    · exact whole_append h _
    · exact h

/-! ## Every run -/

/-- The step leaves the charset conversion off: the charset is ASCII or UTF-8, or the view
is the hex view. -/
def ConversionOff (_ : RxWindow) (e : Env × RxWindow.Action) : Prop :=
  match e.2 with
  | .options o => o.receiveHex = true ∨ o.charset = .ascii ∨ o.charset = .utf8
  | _ => True

theorem whole_act (h : Whole [] [] s) {a : RxWindow.Action} (ha : ConversionOff s (env, a)) :
    Whole [] [] (s.act cfg env a) := by
  cases a with
  | poll drains => exact whole_poll h drains
  | finalDrain drains => exact whole_finalDrain h drains
  | options o =>
    refine ⟨?_, h.flow, h.noLf, h.cap, h.counted, h.partials, h.forced⟩
    rcases ha with ha | ha | ha <;> simp [RxWindow.act, RxWindow.pushDisplayOptions, ha]
  | connected connected => exact whole_renderConnected h connected
  | reload script => exact (whole_flush h).frame rfl rfl rfl rfl rfl rfl
  | clear => exact whole_clear h
  | closed => exact h.frame rfl rfl rfl rfl rfl rfl
  | echoTx payload => exact whole_echoTx h payload
  | noteLinkBoundary line =>
    simp only [RxWindow.act, RxWindow.noteLinkBoundary]
    split
    · exact h
    · exact whole_append h _

end Steps

/-- The whole-line bridge accounts for every byte of the unpaused input. -/
structure WholeLines (s : RxWindow) : Prop where
  flow : s.handouts.flatMap Handout.text ++ s.rxLinePending = s.received
  noLf : 0x0A ∉ s.rxLinePending
  cap : s.rxLinePending.length ≤ rxLineCap
  counted : (discardedText s.handouts).length = s.rxLineDiscarded
  partials : 0x0A ∉ discardedText s.handouts
  forced : (openHandouts s.handouts).length = s.rxLineForced

/-- In every run with charset conversion off, whatever the batches, segment gaps, idle
flushes, clears, reloads, pauses and other handlers: the texts handed to the script stage
are the unpaused input in order, without the partial lines a clear discarded and counted;
what is held has no LF and fits the cap; each text handed out without an LF at its end is
counted once. -/
theorem whole_lines (cfg : RxConfig) (o : Options) {s : RxWindow}
    (hs : Transition.ReachUnder (RxWindow.machine cfg o) ConversionOff s) : WholeLines s := by
  have hwhole : Whole [] [] s := by
    refine hs.invariant (p := Whole [] []) ?_ ?_
    · exact ⟨rfl, rfl, by simp [RxWindow.machine, RxWindow.start],
        Nat.zero_le _, rfl, by simp [RxWindow.machine, RxWindow.start, discardedText], rfl⟩
    · rintro t ⟨env, a⟩ t' ht hc hstep
      obtain rfl := Option.some.inj hstep
      exact whole_act ht hc
  have hflow := hwhole.flow
  have hforced := hwhole.forced
  simp only [List.append_nil] at hflow
  exact ⟨hflow, hwhole.noLf, hwhole.cap, hwhole.counted, hwhole.partials, hforced⟩

/-- A batch that ends mid-line, a clear, the rest of the line, and a reload that forces it
out. -/
theorem whole_lines_cleared :
    let cfg : RxConfig :=
      { timestampGapMs := 50, timestampPrefix := fun _ => [], kernel32 := none, txEcho := true }
    let env : Env := { now := 0, wallMs := 0, dragging := false }
    let batch := fun text => RxWindow.Action.poll [some ⟨text, none, false⟩]
    WholeLines (((((RxWindow.start {}).act cfg env (.connected true)).act cfg env
      (batch [0x61, 0x0A, 0x62])).act cfg env .clear).act cfg env (batch [0x63])
        |>.act cfg env (.reload .shown)) := by
  intro cfg env batch
  have hconnected : Transition.ReachUnder (RxWindow.machine cfg {}) ConversionOff _ :=
    .step .init (e := (env, .connected true)) trivial rfl
  have hfirst := hconnected.step (e := (env, batch [0x61, 0x0A, 0x62])) trivial rfl
  have hclear := hfirst.step (e := (env, RxWindow.Action.clear)) trivial rfl
  have hsecond := hclear.step (e := (env, batch [0x63])) trivial rfl
  exact whole_lines cfg {} (hsecond.step (e := (env, RxWindow.Action.reload .shown)) trivial rfl)

end Xcom.Receive
