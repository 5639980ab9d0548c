import Mathlib.Data.List.Infix
import Xcom.Transition.Machine

/-!
# The native receive window

The view keeps the tail of the received stream, where that tail starts in the stream, and
the line starts of the tail.  Three functions trim its front and shift the index in place;
while a selection is dragged the trim waits.
-/

namespace Xcom.Receive

/-- `kWindowMin`. -/
def kWindowMin : Nat := 16 * 1024

/-- `kWindowMax`. -/
def kWindowMax : Nat := 1024 * 1024

/-- `kDragTrimSlack`. -/
def kDragTrimSlack : Nat := 256 * 1024

/-- The selection anchor: `kNoSelAnchor` or `kSelDragging`. -/
inductive SelAnchor
  | none
  | dragging
  deriving DecidableEq, Repr

/-- The receive part of `ImGuiRuntime`.  `stream` records the bytes appended since the last
clear. -/
structure NativeView where
  receiveText : List UInt8 := []
  receiveBase : Nat := 0
  receiveLineOffsets : List Nat := [0]
  receiveLimit : Nat := 64 * 1024 - 1
  receiveSelAnchor : SelAnchor := .none
  receiveSelBegin : Nat := 0
  receiveSelEnd : Nat := 0
  receiveSelDragHit : Bool := false
  stream : List UInt8 := []
  deriving DecidableEq, Repr

/-- The scan for line starts: the position after every LF, counted from `pos`. -/
def lineStarts : List UInt8 → Nat → List Nat
  | [], _ => []
  | b :: rest, pos =>
    if b = 0x0A then (pos + 1) :: lineStarts rest (pos + 1) else lineStarts rest (pos + 1)

/-- The index without the first `erased` bytes. -/
def shiftOffsets (offsets : List Nat) (erased : Nat) : List Nat :=
  let kept := (offsets.dropWhile (· < erased)).map (· - erased)
  if kept.head? = some 0 then kept else 0 :: kept

namespace NativeView

/-- The trim all three functions share: the front goes, down to the limit. -/
def trimPrefix (v : NativeView) : NativeView :=
  let erased := v.receiveText.length - v.receiveLimit
  { v with
    receiveText := v.receiveText.drop erased
    receiveBase := v.receiveBase + erased
    receiveLineOffsets := shiftOffsets v.receiveLineOffsets erased }

/-- `xcom_imgui_set_receive_window`. -/
def setReceiveWindow (v : NativeView) (bytes : Nat) : NativeView :=
  let v := { v with receiveLimit := min (max bytes kWindowMin) kWindowMax - 1 }
  if v.receiveLimit < v.receiveText.length then v.trimPrefix else v

/-- `xcom_imgui_set_receive_text` with an empty text. -/
def clear (v : NativeView) : NativeView :=
  { receiveLimit := v.receiveLimit }

/-- The size from which an append trims. -/
def trimAt (v : NativeView) : Nat :=
  if v.receiveSelAnchor = .dragging then v.receiveLimit + kDragTrimSlack else v.receiveLimit

/-- `xcom_imgui_receive_append`. -/
def receiveAppend (v : NativeView) (delta : List UInt8) : NativeView :=
  if delta = [] then v
  else
    let v := { v with
      receiveText := v.receiveText ++ delta
      receiveLineOffsets :=
        v.receiveLineOffsets ++ lineStarts delta v.receiveText.length
      stream := v.stream ++ delta }
    if v.trimAt < v.receiveText.length then v.trimPrefix else v

/-- A frame of an empty view: there is nothing to select. -/
def emptyFrame (v : NativeView) : NativeView :=
  { v with
    receiveSelAnchor := .none
    receiveSelBegin := 0
    receiveSelEnd := 0
    receiveSelDragHit := false
    receiveBase := 0 }

/-- The frame of `ReceiveContent` in which a drag starts. -/
def dragStart (v : NativeView) : NativeView :=
  if v.receiveText = [] then v.emptyFrame
  else
    { v with
      receiveSelAnchor := .dragging
      receiveSelBegin := 0
      receiveSelEnd := 0
      receiveSelDragHit := false }

/-- A frame in which the drag reaches a byte of the window: the first one is the origin. -/
def dragOver (v : NativeView) (first last : Nat) : NativeView :=
  if v.receiveText = [] then v.emptyFrame
  else if v.receiveSelAnchor = .dragging then
    { v with
      receiveSelBegin := v.receiveBase + min first last
      receiveSelEnd := v.receiveBase + max first last
      receiveSelDragHit := true }
  else v

/-- The frame of `ReceiveContent` that finds the button released. -/
def dragRelease (v : NativeView) : NativeView :=
  if v.receiveText = [] then v.emptyFrame
  else if v.receiveSelAnchor = .dragging then
    let v := { v with
      receiveSelAnchor := .none
      receiveSelBegin := if v.receiveSelDragHit then v.receiveSelBegin else 0
      receiveSelEnd := if v.receiveSelDragHit then v.receiveSelEnd else 0 }
    if v.receiveLimit < v.receiveText.length then v.trimPrefix else v
  else v

/-- `QueueReceiveCopy`: the bytes of an absolute range that are still in the window. -/
def queueReceiveCopy (v : NativeView) (beginAbs endAbs : Nat) : Option (List UInt8) :=
  let lower := max beginAbs v.receiveBase
  let upper := min endAbs (v.receiveBase + v.receiveText.length)
  if upper ≤ lower then none
  else some ((v.receiveText.drop (lower - v.receiveBase)).take (upper - lower))

/-- What happens to the view. -/
inductive Op
  | append (delta : List UInt8)
  | setWindow (bytes : Nat)
  | clear
  | dragStart
  | dragOver (first last : Nat)
  | dragRelease
  deriving DecidableEq, Repr

def op (v : NativeView) : Op → NativeView
  | .append delta => v.receiveAppend delta
  | .setWindow bytes => v.setReceiveWindow bytes
  | .clear => v.clear
  | .dragStart => v.dragStart
  | .dragOver first last => v.dragOver first last
  | .dragRelease => v.dragRelease

/-- The view from a clear on. -/
def machine : Transition.Machine NativeView Op where
  init := {}
  step v o := some (v.op o)

end NativeView

/-! ## The index -/

@[simp] theorem lineStarts_nil (pos : Nat) : lineStarts [] pos = [] := rfl

theorem lineStarts_cons (b : UInt8) (rest : List UInt8) (pos : Nat) : lineStarts (b :: rest) pos =
    if b = 0x0A then (pos + 1) :: lineStarts rest (pos + 1) else lineStarts rest (pos + 1) := rfl

theorem lineStarts_append (front back : List UInt8) (pos : Nat) :
    lineStarts (front ++ back) pos =
      lineStarts front pos ++ lineStarts back (pos + front.length) := by
  induction front generalizing pos with
  | nil => rfl
  | cons b front ih =>
    have hpos : pos + 1 + front.length = pos + (front.length + 1) := by omega
    rw [List.cons_append, List.length_cons, lineStarts_cons, lineStarts_cons, ih, hpos]
    split <;> rfl

theorem lineStarts_shift (text : List UInt8) (pos n : Nat) :
    lineStarts text (pos + n) = (lineStarts text pos).map (· + n) := by
  induction text generalizing pos with
  | nil => rfl
  | cons b text ih =>
    have hrest := ih (pos + 1)
    rw [Nat.add_right_comm] at hrest
    rw [lineStarts_cons, lineStarts_cons, hrest]
    split
    · rw [List.map_cons, Nat.add_right_comm]
    · rfl

theorem lineStarts_mem {text : List UInt8} {pos n : Nat} (h : n ∈ lineStarts text pos) :
    pos < n ∧ n ≤ pos + text.length := by
  induction text generalizing pos with
  | nil => cases h
  | cons b text ih =>
    rw [List.length_cons]
    rw [lineStarts_cons] at h
    split at h
    · rcases List.mem_cons.mp h with rfl | h
      · omega
      · have hrest := ih h
        omega
    · have hrest := ih h
      omega

/-- The index lists the positions after the LFs, in order. -/
theorem mem_lineStarts (text : List UInt8) (pos n : Nat) :
    n ∈ lineStarts text pos ↔ ∃ i, n = pos + i + 1 ∧ text[i]? = some 0x0A := by
  induction text generalizing pos with
  | nil => simp
  | cons b text ih =>
    have hrest : n ∈ lineStarts text (pos + 1) ↔
        ∃ i, n = pos + (i + 1) + 1 ∧ (b :: text)[i + 1]? = some 0x0A := by
      rw [ih]
      constructor
      · rintro ⟨i, rfl, hi⟩
        exact ⟨i, by omega, hi⟩
      · rintro ⟨i, rfl, hi⟩
        exact ⟨i, by omega, hi⟩
    rw [lineStarts_cons]
    constructor
    · intro hmem
      split at hmem
      · rename_i hb
        rcases List.mem_cons.mp hmem with rfl | hmem
        · exact ⟨0, rfl, by rw [hb]; rfl⟩
        · obtain ⟨i, hi⟩ := hrest.mp hmem
          exact ⟨i + 1, hi⟩
      · obtain ⟨i, hi⟩ := hrest.mp hmem
        exact ⟨i + 1, hi⟩
    · rintro ⟨i, rfl, hi⟩
      cases i with
      | zero =>
        rw [if_pos (Option.some.inj hi)]
        exact List.mem_cons_self
      | succ i =>
        have hmem := hrest.mpr ⟨i, rfl, hi⟩
        split
        · exact List.mem_cons_of_mem _ hmem
        · exact hmem

theorem lineStarts_increasing (text : List UInt8) (pos : Nat) :
    (lineStarts text pos).Pairwise (· < ·) := by
  induction text generalizing pos with
  | nil => exact List.Pairwise.nil
  | cons b text ih =>
    rw [lineStarts_cons]
    split
    · exact List.Pairwise.cons (fun n hn => (lineStarts_mem hn).1) (ih (pos + 1))
    · exact ih (pos + 1)

theorem dropWhile_none {p : Nat → Bool} {l : List Nat} (h : ∀ n ∈ l, p n = false) :
    l.dropWhile p = l := by
  cases l with
  | nil => rfl
  | cons n l => simp [h n List.mem_cons_self]

/-- The shifted index is the index of the tail: a cut at a line start keeps the start, and
any other cut makes one. -/
theorem shiftOffsets_lineStarts {text : List UInt8} {erased : Nat} (hpos : 0 < erased)
    (hlen : erased ≤ text.length) :
    shiftOffsets (0 :: lineStarts text 0) erased = 0 :: lineStarts (text.drop erased) 0 := by
  obtain ⟨front, c, back, rfl, hfront⟩ :
      ∃ front c back, text = (front ++ [c]) ++ back ∧ (front ++ [c]).length = erased := by
    have hne : text.take erased ≠ [] := by
      intro hnil
      have hzero := congrArg List.length hnil
      rw [List.length_take, List.length_nil] at hzero
      omega
    refine ⟨(text.take erased).dropLast, (text.take erased).getLast hne, text.drop erased, ?_, ?_⟩
    · rw [List.dropLast_append_getLast, List.take_append_drop]
    · rw [List.dropLast_append_getLast, List.length_take]
      omega
  have hback : ∀ n ∈ lineStarts back erased, decide (n < erased) = false := by
    intro n hn
    have hlt := (lineStarts_mem hn).1
    simp only [decide_eq_false_iff_not]
    omega
  have hmap : (lineStarts back erased).map (· - erased) = lineStarts back 0 := by
    have hshift := lineStarts_shift back 0 erased
    rw [Nat.zero_add] at hshift
    have hback : (· - erased) ∘ (· + erased) = id := by
      funext n
      exact Nat.add_sub_cancel n erased
    rw [hshift, List.map_map, hback, List.map_id]
  have hsmall : ∀ n ∈ 0 :: lineStarts front 0, decide (n < erased) = true := by
    intro n hn
    rw [List.length_append, List.length_singleton] at hfront
    rcases List.mem_cons.mp hn with rfl | hn
    · simpa using hpos
    · have hle := (lineStarts_mem hn).2
      simp only [decide_eq_true_eq]
      omega
  have hdrop : ((front ++ [c]) ++ back).drop erased = back := by
    rw [← hfront, List.drop_left]
  have hsplit : 0 :: lineStarts ((front ++ [c]) ++ back) 0 =
      (0 :: lineStarts front 0) ++ (lineStarts [c] front.length ++ lineStarts back erased) := by
    rw [lineStarts_append, lineStarts_append, Nat.zero_add, Nat.zero_add, hfront,
      List.append_assoc]
    rfl
  rw [hdrop, shiftOffsets, hsplit, List.dropWhile_append_of_pos hsmall]
  by_cases hc : c = 0x0A
  · have hone : lineStarts [c] front.length = [erased] := by
      rw [List.length_append, List.length_singleton] at hfront
      rw [lineStarts_cons, if_pos hc, hfront]
      rfl
    have hkeep : ∀ n ∈ [erased] ++ lineStarts back erased, decide (n < erased) = false := by
      intro n hn
      rcases List.mem_append.mp hn with hn | hn
      · rw [List.mem_singleton.mp hn]
        exact decide_eq_false (Nat.lt_irrefl erased)
      · exact hback n hn
    have hzero : [erased].map (· - erased) = [0] := by simp
    rw [hone, dropWhile_none hkeep, List.map_append, hmap, hzero]
    exact if_pos rfl
  · have hnone : lineStarts [c] front.length = [] := by
      rw [lineStarts_cons, if_neg hc]
      rfl
    rw [hnone, List.nil_append, dropWhile_none hback, hmap, if_neg]
    intro hhead
    have hmem := List.mem_of_mem_head? hhead
    have hlt := (lineStarts_mem hmem).1
    omega

/-! ## Every run -/

/-- The window is the tail of the stream, with its index; outside a drag it is within the
limit. -/
structure Slides (v : NativeView) : Prop where
  base : v.receiveBase ≤ v.stream.length
  text : v.receiveText = v.stream.drop v.receiveBase
  index : v.receiveLineOffsets = 0 :: lineStarts v.receiveText 0
  limit : kWindowMin - 1 ≤ v.receiveLimit
  empty : v.receiveText = [] → v.stream = []
  size : v.receiveText.length ≤ v.trimAt

section Steps

variable {v : NativeView}

/-- A trim of a window that is over its limit. -/
theorem slides_trim (hbase : v.receiveBase ≤ v.stream.length)
    (htext : v.receiveText = v.stream.drop v.receiveBase)
    (hindex : v.receiveLineOffsets = 0 :: lineStarts v.receiveText 0)
    (hlimit : kWindowMin - 1 ≤ v.receiveLimit)
    (hover : v.receiveLimit < v.receiveText.length) : Slides v.trimPrefix := by
  have hlen := congrArg List.length htext
  rw [List.length_drop] at hlen
  have hmin : 0 < kWindowMin - 1 := by decide
  constructor
  · simp only [NativeView.trimPrefix]
    omega
  · simp only [NativeView.trimPrefix]
    rw [htext, List.drop_drop]
  · simp only [NativeView.trimPrefix]
    rw [hindex, shiftOffsets_lineStarts (by omega) (by omega)]
  · exact hlimit
  · intro hnil
    have hzero := congrArg List.length hnil
    simp only [NativeView.trimPrefix, List.length_drop, List.length_nil] at hzero
    omega
  · have hsize : v.trimPrefix.receiveText.length = v.receiveLimit := by
      simp only [NativeView.trimPrefix, List.length_drop]
      omega
    rw [hsize]
    unfold NativeView.trimAt
    split
    · exact Nat.le_add_right _ _
    · exact Nat.le_refl _

/-- Outside a drag, or with the drag ended, the limit holds as soon as it is checked. -/
theorem limit_le_trimAt (v : NativeView) : v.receiveLimit ≤ v.trimAt := by
  unfold NativeView.trimAt
  split
  · exact Nat.le_add_right _ _
  · exact Nat.le_refl _

theorem slides_append (h : Slides v) (delta : List UInt8) : Slides (v.receiveAppend delta) := by
  unfold NativeView.receiveAppend
  split
  · exact h
  · rename_i hdelta
    have htext : v.receiveText ++ delta = (v.stream ++ delta).drop v.receiveBase := by
      rw [List.drop_append_of_le_length h.base, ← h.text]
    have hindex : v.receiveLineOffsets ++ lineStarts delta v.receiveText.length =
        0 :: lineStarts (v.receiveText ++ delta) 0 := by
      rw [h.index, lineStarts_append, Nat.zero_add]
      rfl
    have hbase : v.receiveBase ≤ (v.stream ++ delta).length := by
      rw [List.length_append]
      exact Nat.le_trans h.base (Nat.le_add_right _ _)
    simp only
    split
    · rename_i hover
      exact slides_trim hbase htext hindex h.limit (Nat.lt_of_le_of_lt (limit_le_trimAt _) hover)
    · rename_i hsize
      refine ⟨hbase, htext, hindex, h.limit, ?_, Nat.le_of_not_lt hsize⟩
      intro hnil
      exact absurd (List.append_eq_nil_iff.mp hnil).2 hdelta

theorem slides_setWindow (h : Slides v) (bytes : Nat) : Slides (v.setReceiveWindow bytes) := by
  have hlimit : kWindowMin - 1 ≤ min (max bytes kWindowMin) kWindowMax - 1 := by
    have hmin : kWindowMin ≤ kWindowMax := by decide
    omega
  unfold NativeView.setReceiveWindow
  simp only
  split
  · exact slides_trim h.base h.text h.index hlimit ‹_›
  · rename_i hsize
    refine ⟨h.base, h.text, h.index, hlimit, h.empty, ?_⟩
    exact (Nat.le_of_not_lt hsize).trans (limit_le_trimAt { v with
      receiveLimit := min (max bytes kWindowMin) kWindowMax - 1 })

theorem slides_clear (h : Slides v) : Slides v.clear :=
  ⟨Nat.le_refl _, rfl, rfl, h.limit, fun _ => rfl, Nat.zero_le _⟩

theorem slides_emptyFrame (h : Slides v) (hempty : v.receiveText = []) :
    Slides v.emptyFrame := by
  have hstream := h.empty hempty
  refine ⟨Nat.zero_le _, ?_, h.index, h.limit, h.empty, ?_⟩
  · rw [NativeView.emptyFrame]
    rw [hempty, hstream]
    rfl
  · rw [NativeView.emptyFrame]
    rw [hempty]
    exact Nat.zero_le _

theorem slides_dragStart (h : Slides v) : Slides v.dragStart := by
  unfold NativeView.dragStart
  split
  · exact slides_emptyFrame h ‹_›
  · refine ⟨h.base, h.text, h.index, h.limit, h.empty, ?_⟩
    have hsize := h.size
    unfold NativeView.trimAt at hsize ⊢
    rw [if_pos rfl]
    split at hsize
    · exact hsize
    · exact Nat.le_trans hsize (Nat.le_add_right _ _)

theorem slides_dragOver (h : Slides v) (first last : Nat) : Slides (v.dragOver first last) := by
  unfold NativeView.dragOver
  split
  · exact slides_emptyFrame h ‹_›
  · split
    · exact ⟨h.base, h.text, h.index, h.limit, h.empty, h.size⟩
    · exact h

theorem slides_dragRelease (h : Slides v) : Slides v.dragRelease := by
  unfold NativeView.dragRelease
  split
  · exact slides_emptyFrame h ‹_›
  · split
    · simp only
      split
      · exact slides_trim h.base h.text h.index h.limit ‹_›
      · rename_i hsize
        exact ⟨h.base, h.text, h.index, h.limit, h.empty, Nat.le_of_not_lt hsize⟩
    · exact h

theorem slides_op (h : Slides v) (o : NativeView.Op) : Slides (v.op o) := by
  cases o with
  | append delta => exact slides_append h delta
  | setWindow bytes => exact slides_setWindow h bytes
  | clear => exact slides_clear h
  | dragStart => exact slides_dragStart h
  | dragOver first last => exact slides_dragOver h first last
  | dragRelease => exact slides_dragRelease h

/-- An absolute range is copied as the bytes of the stream it denotes, as far as the window
still holds them. -/
theorem slides_copy (h : Slides v) (beginAbs endAbs : Nat) :
    v.queueReceiveCopy beginAbs endAbs =
      if min endAbs v.stream.length ≤ max beginAbs v.receiveBase then none
      else some ((v.stream.take endAbs).drop (max beginAbs v.receiveBase)) := by
  have hbase := h.base
  have hend : v.receiveBase + v.receiveText.length = v.stream.length := by
    rw [h.text, List.length_drop]
    omega
  unfold NativeView.queueReceiveCopy
  simp only [hend]
  split
  · rfl
  · rename_i hrange
    have hlower : v.receiveBase + (max beginAbs v.receiveBase - v.receiveBase) =
        max beginAbs v.receiveBase := by omega
    rw [h.text, List.drop_drop, hlower, ← List.drop_take]
    congr 2
    apply List.take_eq_take_iff.mpr
    omega

end Steps

/-- The window in terms of the stream since the last clear. -/
structure WindowExact (v : NativeView) : Prop where
  tail : v.receiveText <:+ v.stream
  base : v.receiveBase + v.receiveText.length = v.stream.length
  first : v.receiveLineOffsets.head? = some 0
  lines : ∀ n, n ∈ v.receiveLineOffsets ↔
    n = 0 ∨ ∃ i, n = i + 1 ∧ v.receiveText[i]? = some 0x0A
  increasing : v.receiveLineOffsets.Pairwise (· < ·)
  appended : ∀ delta, (v.receiveAppend delta).receiveText.length ≤
    if v.receiveSelAnchor = .dragging then v.receiveLimit + kDragTrimSlack else v.receiveLimit
  selected : ∀ beginAbs endAbs, v.queueReceiveCopy beginAbs endAbs =
    if min endAbs v.stream.length ≤ max beginAbs v.receiveBase then none
    else some ((v.stream.take endAbs).drop (max beginAbs v.receiveBase))

theorem receiveAppend_trimAt (v : NativeView) (delta : List UInt8) :
    (v.receiveAppend delta).trimAt = v.trimAt := by
  unfold NativeView.receiveAppend
  split
  · rfl
  · simp only
    split <;> rfl

/-- From a clear on, in every run of appends, window changes, clears and drags, the window
is the tail of what was appended since the last clear, its base and its size add up to the
stream, its index lists the line starts in order, an append keeps to the limit, and an
absolute range denotes the same bytes of the stream however the window slides. -/
theorem window_exact {v : NativeView} (hv : Transition.Reach NativeView.machine v) :
    WindowExact v := by
  have hslides : Slides v := by
    refine hv.invariant (p := Slides) ?_ ?_
    · exact ⟨Nat.le_refl _, rfl, rfl, by decide, fun _ => rfl, Nat.zero_le _⟩
    · intro t o t' ht _ hstep
      obtain rfl := Option.some.inj hstep
      exact slides_op ht o
  constructor
  · rw [hslides.text]
    exact List.drop_suffix _ _
  · have hbase := hslides.base
    rw [hslides.text, List.length_drop]
    omega
  · rw [hslides.index]
    rfl
  · intro n
    rw [hslides.index, List.mem_cons, mem_lineStarts]
    simp only [Nat.zero_add]
  · rw [hslides.index]
    exact List.Pairwise.cons (fun n hn => (lineStarts_mem hn).1) (lineStarts_increasing _ _)
  · intro delta
    have hsize := (slides_append hslides delta).size
    rw [receiveAppend_trimAt] at hsize
    exact hsize
  · exact slides_copy hslides

/-- A drag over a window at its lower limit, with a line that ends while it lasts. -/
theorem window_exact_drag :
    WindowExact ((((((({} : NativeView).op (.setWindow 0)).op
      (.append (List.replicate 20000 0x61))).op .dragStart).op (.dragOver 3 5)).op
        (.append [0x0A, 0x62])).op .dragRelease) := by
  have hwindow := Transition.ReachUnder.init (m := NativeView.machine) (c := fun _ _ => True)
    |>.step (e := .setWindow 0) trivial rfl
  have hfull := hwindow.step (e := .append (List.replicate 20000 0x61)) trivial rfl
  have hdrag := (hfull.step (e := .dragStart) trivial rfl).step (e := .dragOver 3 5) trivial rfl
  have hline := hdrag.step (e := .append [0x0A, 0x62]) trivial rfl
  exact window_exact (hline.step (e := .dragRelease) trivial rfl)

end Xcom.Receive
