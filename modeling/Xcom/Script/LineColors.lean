import Xcom.Script.RulePacking
import Xcom.Text.Occurrences

/-!
# The colours of a line

The matches of a line are collected rule by rule, at most 64 of them, and drawn from left to
right; what is drawn is compared with the colours the rules ask for.
-/

namespace Xcom.Script.Highlighting

open Occurrences

/-! ## What is drawn -/

/-- `HitSpan`. -/
structure HitSpan where
  offset : Nat
  length : Nat
  rule : NativeRule
  deriving DecidableEq, Repr

/-- A match of a rule. -/
def spanAt (rule : NativeRule) (offset : Nat) : HitSpan := ⟨offset, rule.pattern.length, rule⟩

/-- The size of `hits`. -/
def maxHits : Nat := 64

/-- The loop over one rule from `scan` on; every round leaves less of the line, so that
`fuel` rounds are enough for `fuel` bytes. -/
def scanRule (line : Bytes) (rule : NativeRule) : Nat → Nat → List HitSpan → List HitSpan
  | 0, _, hits => hits
  | fuel + 1, scan, hits =>
    if scan + rule.pattern.length ≤ line.length ∧ hits.length < maxHits then
      match search rule.pattern (line.drop scan) with
      | none => hits
      | some n =>
        scanRule line rule fuel (scan + n + rule.pattern.length)
          (hits ++ [spanAt rule (scan + n)])
    else hits

/-- The collection of the matches. -/
def collect (line : Bytes) : List NativeRule → List HitSpan → List HitSpan
  | [], hits => hits
  | rule :: rules, hits =>
    collect line rules (if rule.pattern = [] then hits else scanRule line rule line.length 0 hits)

/-- A run of text drawn in one colour. -/
structure Segment where
  text : Bytes
  color : Color
  deriving DecidableEq, Repr

/-- The loop over the hits from the first text hit on. -/
def drawHits (line : Bytes) (base : Color) : Nat → List HitSpan → List Segment
  | cursor, [] => if cursor < line.length then [⟨line.drop cursor, base⟩] else []
  | cursor, span :: rest =>
    if line.length ≤ span.offset then
      if cursor < line.length then [⟨line.drop cursor, base⟩] else []
    else
      (if cursor < span.offset then
        [⟨(line.drop cursor).take (span.offset - cursor), base⟩] else []) ++
      ⟨(line.drop span.offset).take span.length, span.rule.color⟩ ::
        drawHits line base (span.offset + span.length) rest

/-- The colours of the layout, `RRGGBB`. -/
structure Layout where
  textBody : Nat
  txEcho : Nat

/-- The colour of the row, which is the reference red for what was sent. -/
def Layout.rowColor (layout : Layout) (line : Bytes) : Color :=
  .ofRgb (if line.take 4 = [0x54, 0x58, 0x3A, 0x20] then layout.txEcho else layout.textBody) false

/-- A line of the receive view: the segments of its text from left to right. -/
def drawLine (layout : Layout) (line : Bytes) (rules : List NativeRule) : List Segment :=
  let hits := collect line rules []
  match hits.dropWhile (·.rule.background) with
  | [] => [⟨line, layout.rowColor line⟩]
  | text => drawHits line (.ofRgb layout.textBody false) 0 text

/-- Every byte drawn with its colour. -/
def painted (segments : List Segment) : List (UInt8 × Color) :=
  segments.flatMap fun s => s.text.map (·, s.color)

/-! ## What is asked for -/

/-- The matches of a rule in a line. -/
def matchesOf (line : Bytes) (rule : NativeRule) : List HitSpan :=
  if rule.pattern = [] then []
  else (occurrences rule.pattern 0 0 line).map (spanAt rule)

/-- The span covers the byte at `i`. -/
def HitSpan.Covers (span : HitSpan) (i : Nat) : Prop :=
  span.offset ≤ i ∧ i < span.offset + span.length

instance (span : HitSpan) (i : Nat) : Decidable (span.Covers i) :=
  inferInstanceAs (Decidable (_ ∧ _))

/-- The rules that colour text. -/
def textRules (rules : List NativeRule) : List NativeRule := rules.filter (!·.background)

/-- The colour of the byte at `i`: that of the first text rule in the list one of whose matches
covers it, or that of the row. -/
def colorAt (line : Bytes) (rules : List NativeRule) (row : Color) (i : Nat) : Color :=
  (((textRules rules).find? fun rule => (matchesOf line rule).any (·.Covers i)).map
    (·.color)).getD row

/-- The bytes of a text that begins at `i`, once and in their order, with their colours. -/
def shaded (f : Nat → Color) (i : Nat) (text : Bytes) : List (UInt8 × Color) :=
  (text.zipIdx i).map fun p => (p.1, f p.2)

/-- The line as the rules ask for it. -/
def asked (layout : Layout) (line : Bytes) (rules : List NativeRule) : List (UInt8 × Color) :=
  shaded (colorAt line rules (layout.rowColor line)) 0 line

/-! ## The collection -/

variable {line : Bytes} {rules : List NativeRule} {rule : NativeRule}

theorem scanRule_eq (line : Bytes) (h : rule.pattern ≠ []) (fuel scan : Nat) (hits : List HitSpan)
    (hfuel : line.length ≤ scan + fuel) (hhits : hits.length ≤ maxHits) :
    scanRule line rule fuel scan hits =
      (hits ++ (occurrences rule.pattern 0 scan (line.drop scan)).map
        (spanAt rule)).take maxHits := by
  have hlen : 0 < rule.pattern.length := List.length_pos_iff.mpr h
  induction fuel generalizing scan hits with
  | zero =>
    have hdone : line.drop scan = [] := List.drop_of_length_le (by omega)
    rw [hdone]
    simp [scanRule, occurrences, List.take_of_length_le hhits]
  | succ fuel ih =>
    rw [scanRule, occurrences_search h]
    split
    · rename_i hgo
      cases hsearch : search rule.pattern (line.drop scan) with
      | none => simp [List.take_of_length_le hhits]
      | some n =>
        dsimp only
        rw [ih _ _ (by omega) (by rw [List.length_append, List.length_singleton]; omega),
          List.drop_drop, List.map_cons, List.append_assoc, List.singleton_append,
          ← Nat.add_assoc]
    · rename_i hstop
      by_cases hfull : hits.length < maxHits
      · have hnone : search rule.pattern (line.drop scan) = none := by
          by_contra hsome
          obtain ⟨n, hn⟩ := Option.ne_none_iff_exists'.mp hsome
          have hbound := search_bound hn
          rw [List.length_drop] at hbound
          omega
        simp [hnone, List.take_of_length_le hhits]
      · rw [List.take_append_of_le_length (by omega), List.take_of_length_le hhits]

theorem take_take_append {α : Type} (n : Nat) (xs ys : List α) :
    (xs.take n ++ ys).take n = (xs ++ ys).take n := by
  have hrest : n - min n xs.length = n - xs.length := by omega
  rw [List.take_append, List.take_append, List.take_take, Nat.min_self, List.length_take, hrest]

/-- All matches, rule by rule. -/
def allMatches (line : Bytes) (rules : List NativeRule) : List HitSpan :=
  rules.flatMap (matchesOf line)

/-- What is collected is the first matches. -/
theorem collect_eq (hits : List HitSpan) (hhits : hits.length ≤ maxHits) :
    collect line rules hits = (hits ++ allMatches line rules).take maxHits := by
  induction rules generalizing hits with
  | nil => simp [collect, allMatches, List.take_of_length_le hhits]
  | cons rule rules ih =>
    rw [collect, allMatches, List.flatMap_cons, ← List.append_assoc]
    by_cases hempty : rule.pattern = []
    · rw [if_pos hempty, ih hits hhits, matchesOf, if_pos hempty, List.append_nil, allMatches]
    · have hscan := scanRule_eq line hempty line.length 0 hits (by omega) hhits
      rw [List.drop_zero] at hscan
      rw [if_neg hempty, hscan, ih _ (List.length_take_le _ _), take_take_append, matchesOf,
        if_neg hempty, allMatches]

/-! ## Painting -/

theorem painted_append (xs ys : List Segment) :
    painted (xs ++ ys) = painted xs ++ painted ys := List.flatMap_append

theorem painted_cons (x : Segment) (xs : List Segment) :
    painted (x :: xs) = x.text.map (·, x.color) ++ painted xs := List.flatMap_cons

theorem length_painted (xs : List Segment) :
    (painted xs).length = (xs.map (·.text.length)).sum := by
  induction xs with
  | nil => rfl
  | cons x xs ih =>
    rw [painted_cons, List.length_append, List.length_map, ih, List.map_cons, List.sum_cons]

theorem length_shaded (f : Nat → Color) (i : Nat) (text : Bytes) :
    (shaded f i text).length = text.length := by
  rw [shaded, List.length_map, List.length_zipIdx]

theorem shaded_append (f : Nat → Color) (i : Nat) (xs ys : Bytes) :
    shaded f i (xs ++ ys) = shaded f i xs ++ shaded f (i + xs.length) ys := by
  rw [shaded, List.zipIdx_append, List.map_append]
  rfl

theorem shaded_congr_iff {f g : Nat → Color} {i : Nat} {text : Bytes} :
    shaded f i text = shaded g i text ↔ ∀ j, i ≤ j → j < i + text.length → f j = g j := by
  induction text generalizing i with
  | nil =>
    constructor
    · intro _ j hle hlt
      rw [List.length_nil] at hlt
      omega
    · exact fun _ => rfl
  | cons b text ih =>
    have hcons : ∀ h : Nat → Color,
        shaded h i (b :: text) = (b, h i) :: shaded h (i + 1) text := fun _ => rfl
    rw [hcons, hcons, List.cons.injEq, ih, Prod.mk.injEq]
    constructor
    · rintro ⟨⟨-, hhead⟩, htail⟩ j hle hlt
      rcases Nat.eq_or_lt_of_le hle with rfl | hlt'
      · exact hhead
      · rw [List.length_cons] at hlt
        exact htail j hlt' (by omega)
    · intro h
      refine ⟨⟨rfl, h i le_rfl (by rw [List.length_cons]; omega)⟩, ?_⟩
      intro j hle hlt
      exact h j (by omega) (by rw [List.length_cons]; omega)

theorem shaded_const {f : Nat → Color} {c : Color} {i : Nat} {text : Bytes}
    (h : ∀ j, i ≤ j → j < i + text.length → f j = c) : shaded f i text = text.map (·, c) := by
  induction text generalizing i with
  | nil => rfl
  | cons b text ih =>
    have hhead : f i = c := h i le_rfl (by rw [List.length_cons]; omega)
    have htail : shaded f (i + 1) text = text.map (·, c) := by
      apply ih
      intro j hle hlt
      exact h j (by omega) (by rw [List.length_cons]; omega)
    show (b, f i) :: shaded f (i + 1) text = _
    rw [hhead, htail, List.map_cons]

/-! ## Hits in order -/

/-- Every hit begins at or behind the end of the one before, the first at or behind the
cursor. -/
def InOrder : Nat → List HitSpan → Prop
  | _, [] => True
  | cursor, span :: rest => cursor ≤ span.offset ∧ InOrder (span.offset + span.length) rest

instance : ∀ (cursor : Nat) (hits : List HitSpan), Decidable (InOrder cursor hits)
  | _, [] => .isTrue trivial
  | _, _ :: rest => @instDecidableAnd _ _ _ (instDecidableInOrder _ rest)

/-- The hit is some bytes of the line. -/
def HitSpan.Within (line : Bytes) (span : HitSpan) : Prop :=
  0 < span.length ∧ span.offset + span.length ≤ line.length

/-- The colour hits in order paint the byte at `i` in. -/
def paintAt (hits : List HitSpan) (base : Color) (i : Nat) : Color :=
  ((hits.find? (·.Covers i)).map (·.rule.color)).getD base

theorem InOrder.le {cursor : Nat} {hits : List HitSpan} (h : InOrder cursor hits) {span : HitSpan}
    (hspan : span ∈ hits) : cursor ≤ span.offset := by
  induction hits generalizing cursor with
  | nil => cases hspan
  | cons head rest ih =>
    rcases List.mem_cons.mp hspan with rfl | hspan
    · exact h.1
    · have hle := ih h.2 hspan
      have hhead := h.1
      omega

/-- A hit does not cover what is behind it. -/
theorem find?_behind {span : HitSpan} {i : Nat} (h : span.offset + span.length ≤ i)
    (rest : List HitSpan) :
    (span :: rest).find? (·.Covers i) = rest.find? (·.Covers i) := by
  apply List.find?_cons_of_neg
  intro hcovers
  have hlt := (of_decide_eq_true hcovers).2
  omega

theorem paintAt_none {hits : List HitSpan} {base : Color} {i : Nat}
    (h : ∀ span ∈ hits, ¬ span.Covers i) : paintAt hits base i = base := by
  have hnone : hits.find? (·.Covers i) = none := by
    rw [List.find?_eq_none]
    intro span hspan
    simpa using h span hspan
  rw [paintAt, hnone]
  rfl

/-- Hits in order paint the first byte of each in its colour. -/
theorem paintAt_offset {cursor : Nat} {hits : List HitSpan} (h : InOrder cursor hits)
    {base : Color} {span : HitSpan} (hspan : span ∈ hits) (hlen : 0 < span.length) :
    paintAt hits base span.offset = span.rule.color := by
  have hfind : hits.find? (·.Covers span.offset) = some span := by
    induction hits generalizing cursor with
    | nil => cases hspan
    | cons head rest ih =>
      rcases List.mem_cons.mp hspan with rfl | hspan
      · exact List.find?_cons_of_pos (by simp [HitSpan.Covers, hlen])
      · have hbehind := h.2.le hspan
        rw [find?_behind hbehind]
        exact ih h.2 hspan
  rw [paintAt, hfind]
  rfl

/-- Hits of the line draw at least what is left of it, and no more exactly if they are in
order. -/
theorem length_drawHits (base : Color) {hits : List HitSpan}
    (hwithin : ∀ span ∈ hits, span.Within line) {cursor : Nat} (hcursor : cursor ≤ line.length) :
    line.length ≤ cursor + (painted (drawHits line base cursor hits)).length ∧
      (cursor + (painted (drawHits line base cursor hits)).length = line.length ↔
        InOrder cursor hits) := by
  induction hits generalizing cursor with
  | nil =>
    rw [drawHits]
    split
    · rw [length_painted]
      simp only [List.map_cons, List.map_nil, List.sum_cons, List.sum_nil, List.length_drop]
      exact ⟨by omega, fun _ => trivial, fun _ => by omega⟩
    · simp only [painted, List.flatMap_nil, List.length_nil]
      exact ⟨by omega, fun _ => trivial, fun _ => by omega⟩
  | cons span rest ih =>
    obtain ⟨hpos, hend⟩ := hwithin span List.mem_cons_self
    obtain ⟨hle, hiff⟩ := ih (fun s hs => hwithin s (List.mem_cons_of_mem _ hs)) hend
    have hgap : (painted (if cursor < span.offset then
        [⟨(line.drop cursor).take (span.offset - cursor), base⟩] else [])).length =
        span.offset - cursor := by
      split
      · rw [length_painted]
        simp only [List.map_cons, List.map_nil, List.sum_cons, List.sum_nil, List.length_take,
          List.length_drop]
        omega
      · rw [length_painted]
        simp only [List.map_nil, List.sum_nil]
        omega
    rw [drawHits, if_neg (by omega), painted_append, painted_cons, List.length_append, hgap,
      List.length_append, List.length_map, List.length_take, List.length_drop]
    refine ⟨by omega, ?_⟩
    constructor
    · intro heq
      exact ⟨by omega, hiff.mp (by omega)⟩
    · intro h
      have hrest := hiff.mpr h.2
      have hbehind := h.1
      omega

/-- Hits in order draw every byte that is left once. -/
theorem painted_drawHits (base : Color) {hits : List HitSpan}
    (hwithin : ∀ span ∈ hits, span.Within line) {cursor : Nat} (horder : InOrder cursor hits) :
    painted (drawHits line base cursor hits) =
      shaded (paintAt hits base) cursor (line.drop cursor) := by
  induction hits generalizing cursor with
  | nil =>
    have hplain : shaded (paintAt [] base) cursor (line.drop cursor) =
        (line.drop cursor).map (·, base) := shaded_const fun _ _ _ => rfl
    rw [hplain, drawHits]
    split
    · simp [painted]
    · rw [List.drop_of_length_le (by omega)]
      rfl
  | cons span rest ih =>
    obtain ⟨hpos, hend⟩ := hwithin span List.mem_cons_self
    obtain ⟨hbehind, hrest⟩ := horder
    have hsplit : line.drop cursor = (line.drop cursor).take (span.offset - cursor) ++
        ((line.drop span.offset).take span.length ++ line.drop (span.offset + span.length)) := by
      have hgap := (List.take_append_drop (span.offset - cursor) (line.drop cursor)).symm
      rw [List.drop_drop, show cursor + (span.offset - cursor) = span.offset by omega] at hgap
      have htext := (List.take_append_drop span.length (line.drop span.offset)).symm
      rw [List.drop_drop] at htext
      rw [← htext]
      exact hgap
    have hgapLength : ((line.drop cursor).take (span.offset - cursor)).length =
        span.offset - cursor := by
      rw [List.length_take, List.length_drop]
      omega
    have htextLength : ((line.drop span.offset).take span.length).length = span.length := by
      rw [List.length_take, List.length_drop]
      omega
    -- Before the hit nothing covers a byte; the hit covers its own; behind it the others do.
    have hgap : shaded (paintAt (span :: rest) base) cursor
        ((line.drop cursor).take (span.offset - cursor)) =
          ((line.drop cursor).take (span.offset - cursor)).map (·, base) := by
      apply shaded_const
      intro j hle hlt
      rw [hgapLength] at hlt
      apply paintAt_none
      intro s hs
      rcases List.mem_cons.mp hs with rfl | hs
      · exact fun hcovers => by have := hcovers.1; omega
      · have hle' := hrest.le hs
        exact fun hcovers => by have := hcovers.1; omega
    have htext : shaded (paintAt (span :: rest) base) span.offset
        ((line.drop span.offset).take span.length) =
          ((line.drop span.offset).take span.length).map (·, span.rule.color) := by
      apply shaded_const
      intro j hle hlt
      rw [htextLength] at hlt
      rw [paintAt, List.find?_cons_of_pos (by simp [HitSpan.Covers, hle, hlt])]
      rfl
    have htail : shaded (paintAt (span :: rest) base) (span.offset + span.length)
        (line.drop (span.offset + span.length)) =
          shaded (paintAt rest base) (span.offset + span.length)
            (line.drop (span.offset + span.length)) := by
      rw [shaded_congr_iff]
      intro j hle _
      rw [paintAt, find?_behind hle]
      rfl
    rw [drawHits, if_neg (by omega), painted_append, painted_cons,
      ih (fun s hs => hwithin s (List.mem_cons_of_mem _ hs)) hrest, hsplit, shaded_append,
      shaded_append, hgapLength, htextLength, show cursor + (span.offset - cursor) = span.offset
        by omega, hgap, htext, htail, ← hsplit]
    have hdrawn : painted (if cursor < span.offset then
        [⟨(line.drop cursor).take (span.offset - cursor), base⟩] else []) =
          ((line.drop cursor).take (span.offset - cursor)).map (·, base) := by
      split
      · simp [painted]
      · rw [show span.offset - cursor = 0 by omega]
        rfl
    rw [hdrawn]

/-! ## Where the colours come out -/

/-- The hits from the first text hit on, among the first 64 matches. -/
def shown (line : Bytes) (rules : List NativeRule) : List HitSpan :=
  ((allMatches line rules).take maxHits).dropWhile (·.rule.background)

/-- The matches of text rules that no longer fit. -/
def lost (line : Bytes) (rules : List NativeRule) : List HitSpan :=
  ((allMatches line rules).drop maxHits).filter (!·.rule.background)

/-- The colour of what no hit covers. -/
def gapColor (layout : Layout) (line : Bytes) (rules : List NativeRule) : Color :=
  if shown line rules = [] then layout.rowColor line else .ofRgb layout.textBody false

/-- The hits from the first text hit on are in order and all of text rules, and a byte that
none of them covers has, as the colour of gaps, that of the first lost match that covers it,
or that of the row. -/
structure InPlace (layout : Layout) (line : Bytes) (rules : List NativeRule) : Prop where
  ordered : InOrder 0 (shown line rules)
  text : ∀ span ∈ shown line rules, span.rule.background = false
  gaps : ∀ i < line.length, (∀ span ∈ shown line rules, ¬ span.Covers i) →
    gapColor layout line rules = paintAt (lost line rules) (layout.rowColor line) i

theorem allMatches_within {span : HitSpan} (h : span ∈ allMatches line rules) :
    span.Within line := by
  obtain ⟨rule, -, hspan⟩ := List.mem_flatMap.mp h
  rw [matchesOf] at hspan
  split at hspan
  · cases hspan
  · rename_i hpattern
    obtain ⟨n, hn, rfl⟩ := List.mem_map.mp hspan
    have hbound := occurrences_bound hn
    rw [Nat.zero_add] at hbound
    exact ⟨List.length_pos_iff.mpr hpattern, hbound⟩

theorem shown_within {span : HitSpan} (h : span ∈ shown line rules) : span.Within line :=
  allMatches_within (List.mem_of_mem_take ((List.dropWhile_sublist _).subset h))

theorem matchesOf_rule {span : HitSpan} (h : span ∈ matchesOf line rule) : span.rule = rule := by
  rw [matchesOf] at h
  split at h
  · cases h
  · obtain ⟨n, -, rfl⟩ := List.mem_map.mp h
    rfl

/-- The first rule with a match is the rule of the first match. -/
theorem colorAt_eq (row : Color) (i : Nat) :
    colorAt line rules row i =
      paintAt ((allMatches line rules).filter (!·.rule.background)) row i := by
  unfold colorAt paintAt
  congr 1
  induction rules with
  | nil => rfl
  | cons rule rules ih =>
    rw [allMatches, List.flatMap_cons, List.filter_append, List.find?_append]
    cases hbackground : rule.background with
    | true =>
      have hnone : (matchesOf line rule).filter (!·.rule.background) = [] := by
        rw [List.filter_eq_nil_iff]
        intro span hspan
        rw [matchesOf_rule hspan, hbackground]
        decide
      rw [textRules, List.filter_cons_of_neg (by simp [hbackground]), hnone]
      exact ih
    | false =>
      have hall : (matchesOf line rule).filter (!·.rule.background) = matchesOf line rule := by
        rw [List.filter_eq_self]
        intro span hspan
        rw [matchesOf_rule hspan, hbackground]
        decide
      rw [textRules, List.filter_cons_of_pos (by simp [hbackground]), hall]
      cases hfind : (matchesOf line rule).find? (·.Covers i) with
      | some span =>
        have hspan := List.mem_of_find?_eq_some hfind
        have hcovers := List.find?_some hfind
        have hany : (matchesOf line rule).any (·.Covers i) = true :=
          List.any_eq_true.mpr ⟨span, hspan, hcovers⟩
        rw [List.find?_cons_of_pos (p := fun rule => (matchesOf line rule).any (·.Covers i)) hany]
        simp [matchesOf_rule hspan]
      | none =>
        have hany : ¬ (matchesOf line rule).any (·.Covers i) = true := by
          intro hany
          obtain ⟨span, hspan, hcovers⟩ := List.any_eq_true.mp hany
          exact List.find?_eq_none.mp hfind span hspan hcovers
        rw [List.find?_cons_of_neg (p := fun rule => (matchesOf line rule).any (·.Covers i)) hany]
        exact ih

/-- What is asked for is opaque, as rows are. -/
theorem colorAt_alpha {row : Color} (hrow : row.a = 255) (i : Nat) :
    (colorAt line rules row i).a = 255 := by
  unfold colorAt
  cases hfind : (textRules rules).find? fun rule => (matchesOf line rule).any (·.Covers i) with
  | none => exact hrow
  | some rule =>
    have htext := List.of_mem_filter (List.mem_of_find?_eq_some hfind)
    have halpha := rule.alpha
    rw [if_neg (by simpa using htext)] at halpha
    exact halpha

/-- Background rules do not count. -/
theorem colorAt_textRules (row : Color) (i : Nat) :
    colorAt line (textRules rules) row i = colorAt line rules row i := by
  rw [colorAt, colorAt, textRules, textRules, List.filter_filter]
  simp only [Bool.and_self]

/-- The text matches are those shown and those lost, if only text is shown. -/
theorem filter_allMatches (h : ∀ span ∈ shown line rules, span.rule.background = false) :
    (allMatches line rules).filter (!·.rule.background) =
      shown line rules ++ lost line rules := by
  have hdropped : (((allMatches line rules).take maxHits).takeWhile (·.rule.background)).filter
      (!·.rule.background) = [] := by
    rw [List.filter_eq_nil_iff]
    intro span hspan
    simp [List.mem_takeWhile_imp hspan]
  have hshown : (shown line rules).filter (!·.rule.background) = shown line rules := by
    rw [List.filter_eq_self]
    intro span hspan
    simp [h span hspan]
  have hfirst : ((allMatches line rules).take maxHits).filter (!·.rule.background) =
      shown line rules := by
    rw [← List.takeWhile_append_dropWhile (p := fun span : HitSpan => span.rule.background)
      (l := (allMatches line rules).take maxHits), List.filter_append, hdropped]
    exact hshown
  rw [← hfirst, lost, ← List.filter_append, List.take_append_drop]

/-- Where there is a text hit, the hits are drawn. -/
theorem painted_drawLine (layout : Layout) :
    painted (drawLine layout line rules) =
      if shown line rules = [] then line.map (·, gapColor layout line rules)
      else painted (drawHits line (gapColor layout line rules) 0 (shown line rules)) := by
  have hcollect : (collect line rules []).dropWhile (·.rule.background) = shown line rules := by
    rw [collect_eq [] (Nat.zero_le _), List.nil_append]
    rfl
  unfold drawLine gapColor
  dsimp only
  rw [hcollect]
  cases hshown : shown line rules with
  | nil =>
    rw [if_pos rfl, if_pos rfl]
    exact List.append_nil _
  | cons span rest =>
    rw [if_neg (List.cons_ne_nil _ _), if_neg (List.cons_ne_nil _ _)]

/-- Hits in order paint the line with the colour of gaps between them. -/
theorem painted_ordered (layout : Layout) (h : InOrder 0 (shown line rules)) :
    painted (drawLine layout line rules) =
      shaded (paintAt (shown line rules) (gapColor layout line rules)) 0 line := by
  rw [painted_drawLine]
  split
  · rename_i hnone
    rw [hnone]
    exact (shaded_const fun _ _ _ => rfl).symm
  · have hpainted := painted_drawHits (gapColor layout line rules)
      (fun span hspan => shown_within hspan) h
    rw [List.drop_zero] at hpainted
    exact hpainted

/-- The line comes out as asked for exactly where the hits are in place. -/
theorem painted_iff (layout : Layout) (line : Bytes) (rules : List NativeRule) :
    painted (drawLine layout line rules) = asked layout line rules ↔
      InPlace layout line rules := by
  have hrow : (layout.rowColor line).a = 255 := rfl
  constructor
  · intro heq
    have hordered : InOrder 0 (shown line rules) := by
      by_cases hnone : shown line rules = []
      · rw [hnone]
        trivial
      · rw [painted_drawLine, if_neg hnone] at heq
        have hlen := congrArg List.length heq
        rw [asked, length_shaded] at hlen
        apply (length_drawHits (gapColor layout line rules)
          (fun span hspan => shown_within hspan) (Nat.zero_le line.length)).2.mp
        omega
    rw [painted_ordered layout hordered, asked, shaded_congr_iff] at heq
    have htext : ∀ span ∈ shown line rules, span.rule.background = false := by
      intro span hspan
      obtain ⟨hpos, hend⟩ := shown_within hspan
      have hcolor := heq span.offset (Nat.zero_le _) (by omega)
      rw [paintAt_offset hordered hspan hpos] at hcolor
      have halpha := span.rule.alpha
      rw [hcolor, colorAt_alpha hrow] at halpha
      by_contra hbackground
      rw [if_pos (by simpa using hbackground)] at halpha
      exact absurd halpha (by decide)
    refine ⟨hordered, htext, ?_⟩
    intro i hi hnone
    have hcolor := heq i (Nat.zero_le _) (by omega)
    rw [colorAt_eq, filter_allMatches htext, paintAt_none hnone] at hcolor
    have hskip : (shown line rules).find? (·.Covers i) = none := by
      rw [List.find?_eq_none]
      intro span hspan
      simpa using hnone span hspan
    rw [hcolor, paintAt, paintAt, List.find?_append, hskip]
    rfl
  · intro h
    rw [painted_ordered layout h.ordered, asked, shaded_congr_iff]
    intro i _ hi
    rw [colorAt_eq, filter_allMatches h.text]
    cases hfind : (shown line rules).find? (·.Covers i) with
    | some span =>
      rw [paintAt, paintAt, List.find?_append, hfind]
      rfl
    | none =>
      have hnone : ∀ span ∈ shown line rules, ¬ span.Covers i := by
        intro span hspan
        simpa using List.find?_eq_none.mp hfind span hspan
      rw [paintAt_none hnone, h.gaps i (by omega) hnone, paintAt, paintAt, List.find?_append,
        hfind]
      rfl

/-- Every byte of the line is drawn once, in order and in the colour of the first text rule
that covers it, and as without the background rules, exactly where the hits are in place
with those rules and without them. -/
theorem line_colors_iff (layout : Layout) (line : Bytes) (rules : List NativeRule) :
    (painted (drawLine layout line rules) = asked layout line rules ∧
        painted (drawLine layout line rules) =
          painted (drawLine layout line (textRules rules))) ↔
      InPlace layout line rules ∧ InPlace layout line (textRules rules) := by
  have hsame : asked layout line (textRules rules) = asked layout line rules := by
    rw [asked, asked, shaded_congr_iff]
    exact fun i _ _ => colorAt_textRules _ i
  rw [← painted_iff, ← painted_iff, hsame]
  constructor
  · exact fun h => ⟨h.1, h.2.symm.trans h.1⟩
  · exact fun h => ⟨h.1, h.1.trans h.2.symm⟩

/-- Two text rules, of which the later one matches first. -/
def crossedRules : List NativeRule := [.ofRgb [0x42] 0xFF0000 false, .ofRgb [0x41] 0x00FF00 false]

/-- A text rule and a background rule that matches behind it. -/
def mixedRules : List NativeRule := [.ofRgb [0x41] 0xFF0000 false, .ofRgb [0x42] 0x00FF00 true]

/-- The first rules draw the line twice over; with the others the background rule colours
text. -/
theorem line_drawn_twice :
    painted (drawLine ⟨0x1B1B1B, 0xD04138⟩ [0x41, 0x42] crossedRules) ≠
      asked ⟨0x1B1B1B, 0xD04138⟩ [0x41, 0x42] crossedRules ∧
    (drawLine ⟨0x1B1B1B, 0xD04138⟩ [0x41, 0x42] crossedRules).map (·.text) =
      [[0x41], [0x42], [0x41], [0x42]] ∧
    painted (drawLine ⟨0x1B1B1B, 0xD04138⟩ [0x41, 0x42] mixedRules) ≠
      painted (drawLine ⟨0x1B1B1B, 0xD04138⟩ [0x41, 0x42] (textRules mixedRules)) := by
  decide

end Xcom.Script.Highlighting
