import Xcom.Script.FilterFlag

/-!
# The line filter over batches

What the filter shows of a text are its complete lines that are visible, however the text
is cut into batches; the line that has not ended is held.
-/

namespace Xcom.Script.LineFilter

open Engine (State)
open Transition.Lines (lines pieces)

/-- The end of a line. -/
abbrev lf : UInt8 := 0x0A

/-! ## The two scans -/

theorem keptLines_eq (visible : Bytes → Bool) (line text : Bytes) :
    keptLines visible line text =
      ((lines lf line text).1.filter visible).flatten ++
        if !(lines lf line text).2.isEmpty && visible (lines lf line text).2 then
          (lines lf line text).2 else [] := by
  induction text generalizing line with
  | nil => simp [keptLines, lines, Transition.transduce]
  | cons b text ih =>
    rw [keptLines]
    by_cases hb : b = lf
    · subst hb
      rw [if_pos rfl, ih, Transition.Lines.lines_end]
      cases hvisible : visible (line ++ [lf]) <;> simp [hvisible]
    · rw [if_neg hb, ih, Transition.Lines.lines_go hb]

theorem keepsAll_eq (visible : Bytes → Bool) (line text : Bytes) :
    keepsAll visible line text =
      ((lines lf line text).1.all visible &&
        ((lines lf line text).2.isEmpty || visible (lines lf line text).2)) := by
  induction text generalizing line with
  | nil => simp [keepsAll, lines, Transition.transduce]
  | cons b text ih =>
    rw [keepsAll]
    by_cases hb : b = lf
    · subst hb
      rw [if_pos rfl, ih, Transition.Lines.lines_end, List.all_cons, Bool.and_assoc]
    · rw [if_neg hb, ih, Transition.Lines.lines_go hb]

theorem keptLines_pieces (visible : Bytes → Bool) (text : Bytes) :
    keptLines visible [] text = ((pieces lf text).filter visible).flatten := by
  rw [keptLines_eq, pieces, List.filter_append, List.flatten_append]
  cases hrest : (lines lf [] text).2 with
  | nil => rfl
  | cons b rest => cases hvisible : visible (b :: rest) <;> simp [hvisible]

theorem keepsAll_pieces (visible : Bytes → Bool) (text : Bytes) :
    keepsAll visible [] text = (pieces lf text).all visible := by
  rw [keepsAll_eq, pieces, List.all_append]
  cases hrest : (lines lf [] text).2 with
  | nil => rfl
  | cons b rest => simp

/-- The decided text without the pieces that are not visible. -/
theorem decideTo_output (now : Int) (combined : Bytes) (n : Nat) (f : Funnel) :
    (decideTo now combined n f).2 =
      ((pieces lf (combined.take n)).filter (lineVisible f.engine)).flatten := by
  unfold decideTo
  dsimp only
  split
  · rename_i hall
    rw [keepsAll_pieces, List.all_eq_true] at hall
    rw [List.filter_eq_self.mpr hall, Transition.Lines.pieces_flatten]
  · exact keptLines_pieces _ _

/-! ## One batch -/

/-- The engine has the rules of `s`, and its flag is right. -/
structure RulesOf (s : State) (f : Funnel) : Prop where
  scripts : f.engine.scripts = s.scripts
  order : f.engine.order = s.order
  flag : Current f.engine

theorem keeps_congr {s t : State} (hscripts : t.scripts = s.scripts) (horder : t.order = s.order) :
    keeps t = keeps s ∧ drops t = drops s := by
  have hgiven : ∀ rules, givenBy t rules = givenBy s rules := by
    intro rules
    funext name
    unfold givenBy
    rw [hscripts]
  unfold keeps drops keepsOf dropsOf
  rw [horder, hgiven, hgiven]
  exact ⟨rfl, rfl⟩

theorem RulesOf.visible {s : State} {f : Funnel} (h : RulesOf s f) :
    lineVisible f.engine = lineVisible s := by
  obtain ⟨hkeeps, hdrops⟩ := keeps_congr h.scripts h.order
  funext line
  rw [lineVisible_eq, lineVisible_eq, hkeeps, hdrops]

theorem RulesOf.filtering {s : State} {f : Funnel} (h : RulesOf s f) :
    filtering f.engine = filtering s :=
  filtering_congr h.order fun name => by rw [h.scripts]

theorem decideTo_rules {s : State} {f : Funnel} (h : RulesOf s f) (now : Int) (combined : Bytes)
    (n : Nat) : RulesOf s (decideTo now combined n f).1 :=
  ⟨h.scripts, h.order, h.flag⟩

/-- The last LF of a text divides its complete lines from what is left. -/
theorem lines_lastNl (text : Bytes) :
    (Receive.lastNl text 0 none = none ∧ lines lf [] text = ([], text)) ∨
      ∃ n, Receive.lastNl text 0 none = some n ∧ text.take n = (lines lf [] text).1.flatten ∧
        text.drop n = (lines lf [] text).2 := by
  rcases Receive.lastNl_cases text 0 none with ⟨hnone, heq⟩ | ⟨front, back, rfl, hback, heq⟩
  · exact .inl ⟨heq, Transition.Lines.lines_open [] hnone⟩
  · right
    refine ⟨0 + (front.length + 1), heq, ?_⟩
    have htake : (front ++ lf :: back).take (0 + (front.length + 1)) = front ++ [lf] := by
      rw [Nat.zero_add, List.take_length_add_append]
      rfl
    have hdrop : (front ++ lf :: back).drop (0 + (front.length + 1)) = back := by
      rw [Nat.zero_add, List.drop_length_add_append]
      rfl
    have hrest : (lines lf [] (front ++ lf :: back)).2 = back := by
      have hclosed : (lines lf [] (front ++ [lf])).2 = [] := by
        apply Transition.Lines.lines_closed _ List.not_mem_nil
        simp
      have hjoin : front ++ lf :: back = (front ++ [lf]) ++ back := by simp
      rw [hjoin, lines, Transition.transduce_append]
      show (lines lf (lines lf [] (front ++ [lf])).2 back).2 = back
      rw [hclosed, Transition.Lines.lines_open _ hback]
      rfl
    have hflat := Transition.Lines.lines_flatten lf [] (front ++ lf :: back)
    rw [hrest, List.nil_append] at hflat
    refine ⟨?_, hdrop.trans hrest.symm⟩
    rw [htake]
    have hsplit : front ++ [lf] ++ back = front ++ lf :: back := by simp
    exact (List.append_cancel_right (hflat.trans hsplit.symm)).symm

/-- What a filter that is there makes of a batch: some of the held text and the batch is
decided, and the rest, which ends no line, is held.  A batch that is not framed and leaves
no long rest has its complete lines decided. -/
theorem applyLineFilter_on {s : State} {f : Funnel} (h : RulesOf s f)
    (hrules : filtering s = true) (now : Int) (text : Bytes) (framed : Bool) :
    RulesOf s (applyLineFilter now text framed f).1 ∧
      (applyLineFilter now text framed f).1.pendingOutput = f.pendingOutput ∧
      lf ∉ (applyLineFilter now text framed f).1.filterPending ∧
      ∃ decided, f.filterPending ++ text =
          decided ++ (applyLineFilter now text framed f).1.filterPending ∧
        (applyLineFilter now text framed f).2 =
          ((pieces lf decided).filter (lineVisible s)).flatten ∧
        (framed = false → (lines lf [] (f.filterPending ++ text)).2.length ≤ pendingMax →
          decided = (lines lf [] (f.filterPending ++ text)).1.flatten) := by
  obtain ⟨hon, hscripts, horder, hflag⟩ := hasLineFilter_eq h.flag
  rw [h.filtering, hrules] at hon
  unfold applyLineFilter
  rcases hres : hasLineFilter f.engine with ⟨engine, on⟩
  rw [hres] at hon hscripts horder hflag
  obtain rfl : on = true := hon
  have hrulesOf : RulesOf s { f with engine := engine } :=
    ⟨hscripts.trans h.scripts, horder.trans h.order, hflag⟩
  obtain ⟨combined, hcombined⟩ : ∃ c, c = f.filterPending ++ text := ⟨_, rfl⟩
  have hdecide : ∀ n, lf ∉ combined.drop n →
      (framed = false → (lines lf [] combined).2.length ≤ pendingMax →
        combined.take n = (lines lf [] combined).1.flatten) →
      RulesOf s (decideTo now combined n { f with engine := engine }).1 ∧
      (decideTo now combined n { f with engine := engine }).1.pendingOutput = f.pendingOutput ∧
      lf ∉ (decideTo now combined n { f with engine := engine }).1.filterPending ∧
      ∃ decided, combined = decided ++
          (decideTo now combined n { f with engine := engine }).1.filterPending ∧
        (decideTo now combined n { f with engine := engine }).2 =
          ((pieces lf decided).filter (lineVisible s)).flatten ∧
        (framed = false → (lines lf [] combined).2.length ≤ pendingMax →
          decided = (lines lf [] combined).1.flatten) := by
    intro n hrest hn
    refine ⟨decideTo_rules hrulesOf now _ n, rfl, hrest, combined.take n,
      (List.take_append_drop n _).symm, ?_, hn⟩
    rw [decideTo_output, hrulesOf.visible]
  dsimp only
  rw [← hcombined]
  rcases lines_lastNl combined with ⟨hnone, hopen⟩ | ⟨n, hsome, htake, hdrop⟩
  · rw [hnone]
    dsimp only
    by_cases hforce : (framed || decide (pendingMax < combined.length)) = true
    · rw [if_pos hforce]
      apply hdecide _ (by simp)
      intro hframed hshort
      rw [hopen] at hshort
      change combined.length ≤ pendingMax at hshort
      rw [hframed, Bool.false_or, decide_eq_true_eq] at hforce
      omega
    · rw [if_neg hforce]
      refine ⟨⟨hrulesOf.scripts, hrulesOf.order, hrulesOf.flag⟩, rfl, ?_, [], rfl, rfl, ?_⟩
      · have hrest : lf ∉ (lines lf [] combined).2 := Transition.Lines.lines_rest List.not_mem_nil
        rwa [hopen] at hrest
      · intro _ _
        rw [hopen]
        rfl
  · rw [hsome]
    dsimp only
    have hlength : combined.length - n = (lines lf [] combined).2.length := by
      rw [← hdrop, List.length_drop]
    split
    · rename_i hforce
      apply hdecide _ (by simp)
      intro hframed hshort
      rw [hframed, Bool.false_and, Bool.or_false, decide_eq_true_eq, hlength] at hforce
      omega
    · apply hdecide n _ fun _ _ => htake
      rw [hdrop]
      exact Transition.Lines.lines_rest List.not_mem_nil

/-! ## Many batches -/

/-- Batches that are not framed, with the time of each: what they show, one behind another. -/
def applyAll : List (Int × Bytes) → Funnel → Funnel × Bytes
  | [], f => (f, [])
  | (now, text) :: batches, f =>
    ((applyAll batches (applyLineFilter now text false f).1).1,
      (applyLineFilter now text false f).2 ++
        (applyAll batches (applyLineFilter now text false f).1).2)

theorem applyAll_lines {s : State} (hrules : filtering s = true) (batches : List (Int × Bytes))
    {f : Funnel} (h : RulesOf s f) (hheld : lf ∉ f.filterPending)
    (hline : ∀ l ∈ (lines lf f.filterPending (batches.map Prod.snd).flatten).1,
      l.length ≤ pendingMax + 1)
    (hrest : (lines lf f.filterPending (batches.map Prod.snd).flatten).2.length ≤ pendingMax) :
    RulesOf s (applyAll batches f).1 ∧ (applyAll batches f).1.pendingOutput = f.pendingOutput ∧
      (applyAll batches f).1.filterPending =
        (lines lf f.filterPending (batches.map Prod.snd).flatten).2 ∧
      (applyAll batches f).2 =
        ((lines lf f.filterPending (batches.map Prod.snd).flatten).1.filter
          (lineVisible s)).flatten := by
  induction batches generalizing f with
  | nil => exact ⟨h, rfl, rfl, rfl⟩
  | cons batch batches ih =>
    obtain ⟨now, text⟩ := batch
    have hsplit : lines lf f.filterPending (((now, text) :: batches).map Prod.snd).flatten =
        ((lines lf f.filterPending text).1 ++
          (lines lf (lines lf f.filterPending text).2 (batches.map Prod.snd).flatten).1,
          (lines lf (lines lf f.filterPending text).2 (batches.map Prod.snd).flatten).2) := by
      rw [List.map_cons, List.flatten_cons, lines, Transition.transduce_append]
    rw [hsplit] at hline hrest ⊢
    have hlater : ∀ l ∈ (lines lf (lines lf f.filterPending text).2
        (batches.map Prod.snd).flatten).1, l.length ≤ pendingMax + 1 := by
      intro l hl
      exact hline l (List.mem_append_right _ hl)
    have hshort := Transition.Lines.held_le hlater hrest
    obtain ⟨hrulesOf, hpublished, -, decided, hsum, hout, hdecided⟩ :=
      applyLineFilter_on h hrules now text false
    rw [Transition.Lines.lines_held hheld] at hdecided
    have hlines := hdecided rfl hshort
    have hpending : (applyLineFilter now text false f).1.filterPending =
        (lines lf f.filterPending text).2 := by
      have hflat := Transition.Lines.lines_flatten lf f.filterPending text
      rw [hsum, hlines] at hflat
      exact (List.append_cancel_left hflat).symm
    have hshown : (applyLineFilter now text false f).2 =
        ((lines lf f.filterPending text).1.filter (lineVisible s)).flatten := by
      rw [hout, hlines, ← Transition.Lines.lines_held hheld, Transition.Lines.pieces_complete]
    have hnext : lf ∉ (applyLineFilter now text false f).1.filterPending := by
      rw [hpending]
      exact Transition.Lines.lines_rest hheld
    obtain ⟨hrulesOf', hpublished', hpending', hout'⟩ :=
      ih hrulesOf hnext (hpending ▸ hlater) (hpending ▸ hrest)
    refine ⟨hrulesOf', hpublished'.trans hpublished, hpending'.trans (by rw [hpending]), ?_⟩
    show (applyLineFilter now text false f).2 ++ _ = _
    rw [hshown, hout', hpending, List.filter_append, List.flatten_append]

/-- The flush of a held line: nothing yet, or its decision by the rules. -/
theorem flushPending_decides {s : State} {f : Funnel} (h : RulesOf s f) (now : Int) :
    flushPending now f = f ∨ f.filterPending ≠ [] ∧
      (flushPending now f).filterPending = [] ∧
        (flushPending now f).pendingOutput =
          if lineVisible s f.filterPending then some f.filterPending else f.pendingOutput := by
  unfold flushPending
  by_cases hempty : f.filterPending = []
  · rw [if_pos hempty]
    exact .inl rfl
  · rw [if_neg hempty]
    split
    · right
      dsimp only
      rw [h.visible]
      split <;> exact ⟨hempty, rfl, rfl⟩
    · exact .inl rfl

/-- However a text comes in, the filter shows its complete lines that are visible, in their
order, and holds what is left, for the flush to decide. -/
theorem filter_chunks {s : State} (hs : Transition.Reach Engine.machine s)
    (hrules : filtering s = true) (batches : List (Int × Bytes))
    (hline : ∀ l ∈ (lines lf [] (batches.map Prod.snd).flatten).1, l.length ≤ pendingMax + 1)
    (hrest : (lines lf [] (batches.map Prod.snd).flatten).2.length ≤ pendingMax) :
    (applyAll batches { engine := s }).2 =
        ((lines lf [] (batches.map Prod.snd).flatten).1.filter (lineVisible s)).flatten ∧
      (applyAll batches { engine := s }).1.filterPending =
        (lines lf [] (batches.map Prod.snd).flatten).2 ∧
      ∀ now, flushPending now (applyAll batches { engine := s }).1 =
          (applyAll batches { engine := s }).1 ∨
        (flushPending now (applyAll batches { engine := s }).1).filterPending = [] ∧
          (flushPending now (applyAll batches { engine := s }).1).pendingOutput =
            if lineVisible s (lines lf [] (batches.map Prod.snd).flatten).2 then
              some (lines lf [] (batches.map Prod.snd).flatten).2 else none := by
  have hstart : RulesOf s { engine := s } := ⟨rfl, rfl, reach_flag hs⟩
  obtain ⟨hrulesOf, hpublished, hpending, hout⟩ :=
    applyAll_lines hrules batches hstart List.not_mem_nil hline hrest
  refine ⟨hout, hpending, ?_⟩
  intro now
  have hflush := flushPending_decides hrulesOf now
  rw [hpending, hpublished] at hflush
  exact hflush.imp_right And.right

/-- A script that drops the lines with a `D`. -/
def dropD : Engine.File where
  chunk := some (.api (.filterDrop [[0x44]]) (.ret .nothing))

/-- The text `aDx`, `bc` and a begun line, in pieces. -/
def splitBatches : List (Int × Bytes) :=
  [(1, [0x61, 0x44]), (2, []), (3, [0x78, lf, 0x62]), (4, [0x63]), (5, [lf, 0x64])]

theorem filter_chunks_split :
    ∃ s, Transition.Reach Engine.machine s ∧ lineVisible s [0x61, 0x44, 0x78, lf] = false ∧
      lineVisible s [0x62, 0x63, lf] = true ∧
      (applyAll splitBatches { engine := s }).1.filterPending = [0x64] := by
  obtain ⟨s, hs, hrules, hdrop, hshow⟩ := Transition.exists_of_execUnder (m := Engine.machine)
    (c := fun _ _ => True)
    (p := fun s => filtering s = true ∧ lineVisible s [0x61, 0x44, 0x78, lf] = false ∧
      lineVisible s [0x62, 0x63, lf] = true)
    [.loadAll [[0x61]], .enable [0x61] dropD] (by decide +kernel)
  have hlines : lines lf [] (splitBatches.map Prod.snd).flatten =
      ([[0x61, 0x44, 0x78, lf], [0x62, 0x63, lf]], [0x64]) := by decide
  obtain ⟨-, hpending, -⟩ := filter_chunks hs hrules splitBatches
    (by rw [hlines]; simp [pendingMax]) (by rw [hlines]; decide)
  rw [hlines] at hpending
  exact ⟨s, hs, hdrop, hshow, hpending⟩

end Xcom.Script.LineFilter
