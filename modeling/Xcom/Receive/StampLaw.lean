import Xcom.Receive.Segments

/-!
# One stamp for each segment

What leaves the bridge belongs to the present segment, since a new one first flushes the
line that is held; so the flag for the stamp stands for the present segment alone.
-/

namespace Xcom.Receive

open Transition

section Bridge

variable {mark mark' : Nat → List UInt8} {cur : Nat} {owed : List UInt8} {s t : RxWindow}
  {items : List (Nat × UInt8)}

/-- The tags of what was shown of a converted text. -/
def shownTags (s : RxWindow) (items : List (Nat × UInt8)) : List Nat :=
  (shownPart s.handouts items).map Prod.fst

/-- The bridge within a converted text: what is `owed` has been cut off for the script
stage; with what is held it belongs to the segment `cur`. -/
structure Placed (mark : Nat → List UInt8) (cur : Nat) (owed : List UInt8) (s : RxWindow)
    (items : List (Nat × UInt8)) : Prop where
  flow : items.map Prod.snd = s.handouts.flatMap Handout.text ++ (owed ++ s.rxLinePending)
  rest : items.drop (leftCount s.handouts) = (owed ++ s.rxLinePending).map (Prod.mk cur)
  shown : s.shown.flatten = marked mark [] (shownPart s.handouts items)

theorem Placed.left_le (h : Placed mark cur owed s items) :
    leftCount s.handouts ≤ items.length := by
  have hlen := congrArg List.length h.flow
  rw [List.length_map, List.length_append] at hlen
  rw [hlen]
  exact Nat.le_add_right _ _

theorem Placed.frame (h : Placed mark cur owed s items) (hhandouts : t.handouts = s.handouts)
    (hpending : t.rxLinePending = s.rxLinePending) (hshown : t.shown = s.shown) :
    Placed mark cur owed t items where
  flow := by
    rw [hhandouts, hpending]
    exact h.flow
  rest := by
    rw [hhandouts, hpending]
    exact h.rest
  shown := by
    rw [hhandouts, hshown]
    exact h.shown

/-- The marks of the segments that occur. -/
theorem Placed.remark (h : Placed mark cur owed s items)
    (hmark : ∀ p ∈ items, mark p.1 = mark' p.1) : Placed mark' cur owed s items where
  flow := h.flow
  rest := h.rest
  shown := by
    rw [h.shown]
    apply marked_congr_mark
    intro tag htag
    obtain ⟨p, hp, rfl⟩ := List.mem_map.mp htag
    exact hmark p (mem_shownPart hp)

/-- With nothing held any segment may follow. -/
theorem Placed.retag (h : Placed mark cur [] s items) (hnone : s.rxLinePending = [])
    (next : Nat) : Placed mark next [] s items where
  flow := h.flow
  rest := by
    rw [h.rest, hnone]
    rfl
  shown := h.shown

/-- A clear of the view, after which the held line is discarded. -/
theorem Placed.keeps (h : Placed mark cur [] s items) (hkeeps : Keeps s t)
    (hshown : t.shown = s.shown) :
    Placed mark cur [] t items ∧ shownPart t.handouts items = shownPart s.handouts items := by
  rcases hkeeps with ⟨hhandouts, hpending⟩ | ⟨hhandouts, hpending⟩
  · exact ⟨h.frame hhandouts hpending hshown, by rw [hhandouts]⟩
  · have hsame : shownPart t.handouts items = shownPart s.handouts items := by
      rw [hhandouts, shownPart_append]
      exact List.append_nil _
    have hflow : items.map Prod.snd = t.handouts.flatMap Handout.text := by
      rw [h.flow, hhandouts, List.flatMap_append, List.flatMap_singleton]
      rfl
    refine ⟨⟨?_, ?_, ?_⟩, hsame⟩
    · rw [hflow, hpending]
      exact (List.append_nil _).symm
    · rw [hpending, leftCount, ← hflow, List.length_map, List.drop_length]
      rfl
    · rw [hshown, hsame]
      exact h.shown

/-- The text cut off is handed out, behind the mark of its segment if it is the first. -/
theorem Placed.emit (h : Placed mark cur owed s items) {front : List UInt8}
    (hemit : Emitted s t front owed) (howed : owed ≠ [])
    (hfront : front = if cur ∈ shownTags s items then [] else mark cur) :
    Placed mark cur [] t items ∧ cur ∈ shownTags t items := by
  have hlen : (owed.map (Prod.mk cur)).length = owed.length := List.length_map _
  have hcut : (items.drop (leftCount s.handouts)).take owed.length = owed.map (Prod.mk cur) := by
    rw [h.rest, List.map_append, ← hlen, List.take_left]
  have hpart : shownPart (s.handouts ++ [.handed owed]) items =
      shownPart s.handouts items ++ owed.map (Prod.mk cur) := by
    rw [shownPart_append, ← hcut]
    exact congrArg (_ ++ ·) (List.append_nil _)
  -- The state between the handout and a clear of the view.
  have hhanded : Placed mark cur [] { s with
      handouts := s.handouts ++ [.handed owed], shown := s.shown ++ [front ++ owed] } items := by
    refine ⟨?_, ?_, ?_⟩
    · rw [h.flow]
      simp [Handout.text]
    · have hcount : leftCount (s.handouts ++ [.handed owed]) =
          leftCount s.handouts + owed.length := by
        simp [leftCount, Handout.text]
      show items.drop (leftCount (s.handouts ++ [.handed owed])) = _
      rw [hcount, ← List.drop_drop, h.rest, List.map_append, ← hlen, List.drop_left]
      rfl
    · show (s.shown ++ [front ++ owed]).flatten = _
      rw [hpart, marked_append, List.append_nil, List.flatten_append, h.shown,
        List.flatten_singleton, hfront]
      congr 1
      show _ = marked mark (shownTags s items) _
      by_cases hseen : cur ∈ shownTags s items
      · rw [if_pos hseen, marked_block_seen hseen, List.nil_append]
      · rw [if_neg hseen, marked_block_new hseen howed]
  obtain ⟨hplaced, hsame⟩ := hhanded.keeps hemit.bridge hemit.shown
  refine ⟨hplaced, ?_⟩
  unfold shownTags
  rw [hsame, hpart, List.map_append, List.map_map]
  apply List.mem_append_right
  obtain ⟨b, bs, rfl⟩ := List.exists_cons_of_ne_nil howed
  exact List.mem_cons_self

/-- The bridge moves the held line only. -/
theorem bridge_same (w : RxWindow) (out : List UInt8) :
    (w.bridgeBatch out).2.settings = w.settings ∧ (w.bridgeBatch out).2.handouts = w.handouts ∧
      (w.bridgeBatch out).2.shown = w.shown ∧
      (w.bridgeBatch out).2.rxSegmentStampPending = w.rxSegmentStampPending := by
  unfold RxWindow.bridgeBatch
  dsimp only
  split <;> exact ⟨rfl, rfl, rfl, rfl⟩

/-- New text of the segment goes into the bridge: its lines are cut off, its tail is held. -/
theorem Placed.bridge (h : Placed mark cur [] s items) (text : List UInt8) :
    Placed mark cur (s.bridgeBatch text).1 (s.bridgeBatch text).2
      (items ++ text.map (Prod.mk cur)) := by
  have hjoin : (s.bridgeBatch text).1 ++ (s.bridgeBatch text).2.rxLinePending =
      s.rxLinePending ++ text := by
    unfold RxWindow.bridgeBatch
    dsimp only
    split
    · rw [List.append_nil]
      exact bridgeLines_join _ _
    · exact bridgeLines_join _ _
  obtain ⟨-, hhandouts, hshown, -⟩ := bridge_same s text
  have hmap : ((text.map (Prod.mk cur)).map Prod.snd : List UInt8) = text := by
    rw [List.map_map]
    exact List.map_id text
  refine ⟨?_, ?_, ?_⟩
  · rw [hjoin, hhandouts, List.map_append, h.flow, hmap, List.nil_append, List.append_assoc]
  · rw [hjoin, hhandouts, List.drop_append_of_le_length h.left_le, h.rest, List.nil_append,
      List.map_append]
  · rw [hhandouts, hshown, shownPart_extend h.left_le]
    exact h.shown

end Bridge

/-! ## Sessions -/

section Session

variable {cfg : RxConfig} {env : Env} {x : RxSession}

/-- What holds in a session in which no lost segment gives text. -/
structure Told (cfg : RxConfig) (x : RxSession) : Prop where
  timestamp : x.window.opts.timestamp = true
  frameGap : x.window.opts.frameGapEn = false
  script : x.window.script = .shown
  ingress : x.window.rxIngressMs = x.ingress
  anchor : x.window.rxTsAnchor = x.segments.head?.map fun t => (t, x.wall)
  started : x.ingress = none ↔ x.segments = []
  tags : ∀ p ∈ x.converted, p.1 < x.segments.length
  placed : Placed (x.stamp cfg) x.current [] x.window x.converted
  lostLine : x.lost = true → x.window.rxLinePending = []
  owes : x.lost = false → x.segments ≠ [] →
    (x.window.rxSegmentStampPending = true ↔ x.current ∉ shownTags x.window x.converted)
  time : x.lost = false → x.segments ≠ [] → x.window.rxSegmentStampPending = true →
    x.window.rxSegmentIngressMs = x.segments.getLast?

theorem told_fresh {w : RxWindow} (h : Fresh w) : Told cfg { window := w } where
  timestamp := h.timestamp
  frameGap := h.frameGap
  script := h.script
  ingress := h.ingress
  anchor := h.anchor
  started := ⟨fun _ => rfl, fun _ => rfl⟩
  tags p hp := absurd hp List.not_mem_nil
  placed := by
    refine ⟨?_, ?_, ?_⟩
    · simp [h.handouts, h.line]
    · simp [h.line]
    · simp [h.shown, h.handouts, shownPart, marked]
  lostLine hlost := Bool.noConfusion hlost
  owes _ hne := absurd rfl hne
  time _ hne := absurd rfl hne

/-- A line is held only in a segment that is not lost. -/
theorem Told.of_line (h : Told cfg x) (hline : x.window.rxLinePending ≠ []) :
    x.lost = false ∧ x.segments ≠ [] := by
  constructor
  · cases hlost : x.lost with
    | false => rfl
    | true => exact absurd (h.lostLine hlost) hline
  · intro hnone
    have hrest := h.placed.rest
    obtain ⟨b, bs, hb⟩ := List.exists_cons_of_ne_nil hline
    rw [List.nil_append, hb, List.map_cons] at hrest
    have hmem : (x.current, b) ∈ x.converted := by
      apply List.mem_of_mem_drop
      rw [hrest]
      exact List.mem_cons_self
    have hlt := h.tags _ hmem
    rw [hnone] at hlt
    exact Nat.not_lt_zero _ hlt

theorem Told.line_eq_nil (h : Told cfg x) (hnone : x.segments = []) :
    x.window.rxLinePending = [] := by
  by_contra hline
  exact (h.of_line hline).2 hnone

/-- The stamp that is owed is that of the present segment. -/
theorem front_eq {items : List (Nat × UInt8)} (hne : x.segments ≠ [])
    (hanchor : x.window.rxTsAnchor = x.segments.head?.map fun t => (t, x.wall))
    (howes : x.window.rxSegmentStampPending = true ↔ x.current ∉ shownTags x.window items)
    (htime : x.window.rxSegmentStampPending = true →
      x.window.rxSegmentIngressMs = x.segments.getLast?) :
    x.window.front cfg env =
      if x.current ∈ shownTags x.window items then [] else x.stamp cfg x.current := by
  unfold RxWindow.front
  by_cases hseen : x.current ∈ shownTags x.window items
  · rw [if_neg fun howed => howes.mp howed hseen, if_pos hseen]
  · have howed := howes.mpr hseen
    rw [if_pos howed, if_neg hseen]
    obtain ⟨first, rest, hsegments⟩ := List.exists_cons_of_ne_nil hne
    have hwall : x.window.segmentWall =
        some (x.wall + (x.segments.getD x.current 0 - x.segments.headD 0)) := by
      unfold RxWindow.segmentWall RxSession.current
      rw [htime howed, hanchor, List.getLast?_eq_getElem?, hsegments]
      simp
    rw [hwall]
    rfl

theorem Told.front (h : Told cfg x) (hlost : x.lost = false) (hne : x.segments ≠ []) :
    x.window.front cfg env =
      if x.current ∈ shownTags x.window x.converted then [] else x.stamp cfg x.current :=
  front_eq hne h.anchor (h.owes hlost hne) (h.time hlost hne)

/-- The held line of a segment is handed out. -/
theorem flush_spec {w : RxWindow} {mark : Nat → List UInt8} {cur : Nat}
    {items : List (Nat × UInt8)} (hscript : w.script = .shown)
    (htimestamp : w.opts.timestamp = true) (h : Placed mark cur [] w items)
    (hfront : w.rxLinePending ≠ [] →
      w.front cfg env = if cur ∈ shownTags w items then [] else mark cur) :
    Placed mark cur [] (w.flushRxLines cfg env) items ∧
      (w.flushRxLines cfg env).settings = w.settings ∧
      (w.flushRxLines cfg env).rxLinePending = [] ∧
      (w.flushRxLines cfg env = w ∨
        ((w.flushRxLines cfg env).rxSegmentStampPending = false ∧
          cur ∈ shownTags (w.flushRxLines cfg env) items)) := by
  unfold RxWindow.flushRxLines
  by_cases hline : w.rxLinePending = []
  · rw [if_pos hline]
    exact ⟨h, rfl, hline, .inl rfl⟩
  · rw [if_neg hline]
    have hemit := emit_spec cfg env
      (s := { w with rxLinePending := [], rxLineForced := w.rxLineForced + 1 })
      hscript htimestamp hline
    have howed : Placed mark cur w.rxLinePending
        { w with rxLinePending := [], rxLineForced := w.rxLineForced + 1 } items := by
      refine ⟨?_, ?_, h.shown⟩
      · rw [List.append_nil]
        exact h.flow
      · rw [List.append_nil]
        exact h.rest
    obtain ⟨hplaced, hseen⟩ := howed.emit hemit hline (hfront hline)
    refine ⟨hplaced, hemit.settings, ?_, .inr ⟨hemit.paid, hseen⟩⟩
    rcases hemit.bridge with ⟨-, hpending⟩ | ⟨-, hpending⟩
    · exact hpending
    · exact hpending

theorem Told.flush (h : Told cfg x) (env : Env) :
    Placed (x.stamp cfg) x.current [] (x.window.flushRxLines cfg env) x.converted ∧
      (x.window.flushRxLines cfg env).settings = x.window.settings ∧
      (x.window.flushRxLines cfg env).rxLinePending = [] ∧
      (x.window.flushRxLines cfg env = x.window ∨
        ((x.window.flushRxLines cfg env).rxSegmentStampPending = false ∧
          x.current ∈ shownTags (x.window.flushRxLines cfg env) x.converted)) :=
  flush_spec h.script h.timestamp h.placed fun hline =>
    h.front (h.of_line hline).1 (h.of_line hline).2

theorem told_flush (h : Told cfg x) (env : Env) :
    Told cfg { x with window := x.window.flushRxLines cfg env } := by
  obtain ⟨hplaced, hsettings, hnone, hsame⟩ := h.flush env
  rcases hsame with hsame | ⟨hpaid, hseen⟩
  · rw [hsame]
    exact h
  · obtain ⟨hopts, hscript, hingress, hanchor, -⟩ := settings_fields hsettings
    constructor
    · exact hopts ▸ h.timestamp
    · exact hopts ▸ h.frameGap
    · exact hscript.trans h.script
    · exact hingress.trans h.ingress
    · exact hanchor.trans h.anchor
    · exact h.started
    · exact h.tags
    · exact hplaced
    · exact fun _ => hnone
    · intro _ _
      constructor
      · intro howed
        rw [hpaid] at howed
        cases howed
      · exact fun hnot => absurd hseen hnot
    · intro _ _ howed
      rw [hpaid] at howed
      cases howed

theorem told_clear (h : Told cfg x) : Told cfg { x with window := x.window.clearImguiView } := by
  obtain ⟨hsettings, hshown, hpending, hkeeps⟩ := clear_spec x.window
  obtain ⟨hplaced, hsame⟩ := h.placed.keeps hkeeps hshown
  obtain ⟨hopts, hscript, hingress, hanchor, htime, -⟩ := settings_fields hsettings
  constructor
  · exact hopts ▸ h.timestamp
  · exact hopts ▸ h.frameGap
  · exact hscript.trans h.script
  · exact hingress.trans h.ingress
  · exact hanchor.trans h.anchor
  · exact h.started
  · exact h.tags
  · exact hplaced
  · intro hlost
    rcases hkeeps with ⟨-, hline⟩ | ⟨-, hline⟩
    · exact hline.trans (h.lostLine hlost)
    · exact hline
  · intro hlost hne
    have howes := h.owes hlost hne
    unfold shownTags at howes ⊢
    dsimp only [RxSession.current] at howes ⊢
    rw [hpending, hsame]
    exact howes
  · intro hlost hne howed
    exact htime.trans (h.time hlost hne (hpending ▸ howed))

theorem told_options (h : Told cfg x) {o : Options} (htimestamp : o.timestamp = true)
    (hgap : o.frameGapEn = false) :
    Told cfg { x with window := x.window.pushDisplayOptions o } where
  timestamp := htimestamp
  frameGap := hgap
  script := h.script
  ingress := h.ingress
  anchor := h.anchor
  started := h.started
  tags := h.tags
  placed := h.placed.frame rfl rfl rfl
  lostLine := h.lostLine
  owes := h.owes
  time := h.time

/-! ## A batch -/

/-- The segment decision with a supported clock. -/
theorem decision_spec (w : RxWindow) (t : Int) :
    w.rxBatchIsNewSegment cfg env (some t) true =
      (match w.rxIngressMs with
        | none => true
        | some last => decide (cfg.timestampGapMs ≤ t - last),
        { w with
          rxTsAnchor := some (w.rxTsAnchor.getD (t, env.wallMs))
          rxIngressMs := some t }) := by
  unfold RxWindow.rxBatchIsNewSegment
  cases hanchor : w.rxTsAnchor <;> cases w.rxIngressMs <;> simp [hanchor]

/-- A stamp stays what it is when a segment is added. -/
theorem stamp_added (cfg : RxConfig) {segment : Nat} (hsegment : segment < x.segments.length)
    {y : RxSession} {t : Int} (hsegments : y.segments = x.segments ++ [t])
    (hwall : y.wall = x.wall) :
    x.stamp cfg segment = y.stamp cfg segment := by
  unfold RxSession.stamp
  have hne : x.segments ≠ [] := by
    intro hnone
    rw [hnone] at hsegment
    exact Nat.not_lt_zero _ hsegment
  obtain ⟨first, rest, hx⟩ := List.exists_cons_of_ne_nil hne
  have hget : y.segments.getD segment 0 = x.segments.getD segment 0 := by
    rw [hsegments, List.getD_eq_getElem?_getD, List.getD_eq_getElem?_getD,
      List.getElem?_append_left hsegment]
  have hhead : y.segments.headD 0 = x.segments.headD 0 := by
    rw [hsegments, hx]
    rfl
  rw [hwall, hget, hhead]

/-- A batch arrives in a session that has begun. -/
theorem told_moved (h : Told cfg x) (hne : x.segments ≠ []) (t : Int) (idle : Option Int)
    (received : List UInt8) (wallMs : Int) :
    Told cfg { x with
      window := { x.window with
        received := received, rxIdleMs := idle
        rxTsAnchor := some (x.window.rxTsAnchor.getD (t, wallMs)), rxIngressMs := some t }
      ingress := some t } where
  timestamp := h.timestamp
  frameGap := h.frameGap
  script := h.script
  ingress := rfl
  anchor := by
    obtain ⟨first, rest, hsegments⟩ := List.exists_cons_of_ne_nil hne
    have hanchor := h.anchor
    rw [hsegments] at hanchor ⊢
    rw [hanchor]
    rfl
  started := ⟨fun hnone => absurd hnone (Option.some_ne_none t), fun hnone => absurd hnone hne⟩
  tags := h.tags
  placed := h.placed.frame rfl rfl rfl
  lostLine := h.lostLine
  owes := h.owes
  time := h.time

/-- A segment begins: of its text nothing has come, so it counts as lost. -/
theorem told_begins (h : Told cfg x) (hne : x.segments ≠ [])
    (hline : x.window.rxLinePending = []) (t : Int) :
    Told cfg { x with segments := x.segments ++ [t], lost := true } where
  timestamp := h.timestamp
  frameGap := h.frameGap
  script := h.script
  ingress := h.ingress
  anchor := by
    rw [h.anchor]
    obtain ⟨first, rest, hsegments⟩ := List.exists_cons_of_ne_nil hne
    rw [hsegments]
    rfl
  started := ⟨fun hnone => absurd (h.started.mp hnone) hne, fun hnone => by simp at hnone⟩
  tags p hp := by
    have hlt := h.tags p hp
    rw [List.length_append]
    exact Nat.lt_add_right _ hlt
  placed := by
    have hremarked : Placed _ x.current [] x.window x.converted :=
      h.placed.remark fun p hp => stamp_added cfg (h.tags p hp)
        (y := { x with segments := x.segments ++ [t], lost := true }) rfl rfl
    exact hremarked.retag hline _
  lostLine _ := hline
  owes hlost := Bool.noConfusion hlost
  time hlost := Bool.noConfusion hlost

/-- The first batch of a session arrives. -/
theorem told_first (h : Told cfg x) (hnone : x.segments = []) (t : Int) (idle : Option Int)
    (received : List UInt8) (wallMs : Int) :
    Told cfg { x with
      window := { x.window with
        received := received, rxIdleMs := idle
        rxTsAnchor := some (x.window.rxTsAnchor.getD (t, wallMs)), rxIngressMs := some t }
      ingress := some t
      segments := [t]
      wall := wallMs
      lost := true } := by
  have hitems : x.converted = [] := by
    apply List.eq_nil_iff_forall_not_mem.mpr
    intro p hp
    have hlt := h.tags p hp
    rw [hnone] at hlt
    exact Nat.not_lt_zero _ hlt
  have hline := h.line_eq_nil hnone
  constructor
  · exact h.timestamp
  · exact h.frameGap
  · exact h.script
  · rfl
  · have hanchor := h.anchor
    rw [hnone] at hanchor
    rw [hanchor]
    rfl
  · exact ⟨fun hnone => absurd hnone (Option.some_ne_none t), fun hnone => by simp at hnone⟩
  · intro p hp
    rw [hitems] at hp
    cases hp
  · have hplaced : Placed (RxSession.stamp cfg { x with segments := [t], wall := wallMs })
        x.current [] x.window x.converted := by
      apply h.placed.remark
      intro p hp
      rw [hitems] at hp
      cases hp
    exact (hplaced.retag hline _).frame rfl rfl rfl
  · exact fun _ => hline
  · exact fun hlost => Bool.noConfusion hlost
  · exact fun hlost => Bool.noConfusion hlost

/-- A new segment owes its stamp; else the debt stands as it is. -/
theorem owe_spec (w : RxWindow) (htimestamp : w.opts.timestamp = true) (new : Bool) (t : Int) :
    w.oweStamp new true (some t) =
      { w with
        rxSegmentStampPending := new || w.rxSegmentStampPending
        rxSegmentIngressMs := if new then some t else w.rxSegmentIngressMs } := by
  unfold RxWindow.oweStamp
  cases new with
  | true => simp [htimestamp]
  | false => simp

/-- A window that has the text of its segment and is still to hand out the lines `owed`. -/
structure Ready (cfg : RxConfig) (x : RxSession) (owed : List UInt8) (w : RxWindow)
    (items : List (Nat × UInt8)) : Prop where
  opts : w.opts = x.window.opts
  script : w.script = x.window.script
  ingress : w.rxIngressMs = x.window.rxIngressMs
  anchor : w.rxTsAnchor = x.window.rxTsAnchor
  tags : ∀ p ∈ items, p.1 < x.segments.length
  placed : Placed (x.stamp cfg) x.current owed w items
  owes : w.rxSegmentStampPending = true ↔ x.current ∉ shownTags w items
  time : w.rxSegmentStampPending = true → w.rxSegmentIngressMs = x.segments.getLast?

theorem ready_bridge (h : Told cfg x) (hne : x.segments ≠ []) (new : Bool) (t : Int)
    (out : List UInt8)
    (hcase : (new = true ∧ x.segments.getLast? = some t ∧ ∀ p ∈ x.converted, p.1 < x.current) ∨
      (new = false ∧ x.lost = false)) :
    Ready cfg x (x.window.bridgeBatch out).1
      ((x.window.bridgeBatch out).2.oweStamp new true (some t))
      (x.converted ++ out.map (Prod.mk x.current)) := by
  obtain ⟨hsettings, hhandouts, hshown, hpending⟩ := bridge_same x.window out
  obtain ⟨hopts, hscript, hingress, hanchor, htime, -⟩ := settings_fields hsettings
  have htimestamp : (x.window.bridgeBatch out).2.opts.timestamp = true := hopts ▸ h.timestamp
  have hseen : shownTags (x.window.bridgeBatch out).2
      (x.converted ++ out.map (Prod.mk x.current)) = shownTags x.window x.converted := by
    unfold shownTags
    rw [hhandouts, shownPart_extend h.placed.left_le]
  rw [owe_spec _ htimestamp]
  constructor
  · exact hopts
  · exact hscript
  · exact hingress
  · exact hanchor
  · intro p hp
    rcases List.mem_append.mp hp with hp | hp
    · exact h.tags p hp
    · obtain ⟨b, -, rfl⟩ := List.mem_map.mp hp
      exact Nat.sub_lt (List.length_pos_iff.mpr hne) Nat.one_pos
  · exact (h.placed.bridge out).frame rfl rfl rfl
  · show (new || (x.window.bridgeBatch out).2.rxSegmentStampPending) = true ↔
      x.current ∉ shownTags (x.window.bridgeBatch out).2 _
    rw [hseen, hpending]
    rcases hcase with ⟨rfl, -, hless⟩ | ⟨rfl, hlost⟩
    · constructor
      · intro _ hmem
        obtain ⟨p, hp, heq⟩ := List.mem_map.mp hmem
        have hlt := hless p (mem_shownPart hp)
        rw [heq] at hlt
        exact Nat.lt_irrefl _ hlt
      · exact fun _ => rfl
    · exact h.owes hlost hne
  · show (new || (x.window.bridgeBatch out).2.rxSegmentStampPending) = true →
      (if new then some t else (x.window.bridgeBatch out).2.rxSegmentIngressMs) = _
    rw [hpending]
    rcases hcase with ⟨rfl, hlast, -⟩ | ⟨rfl, hlost⟩
    · exact fun _ => hlast.symm
    · exact fun hstands => htime.trans (h.time hlost hne hstands)

/-- The lines are handed out, behind the stamp if it is owed. -/
theorem told_ready (h : Told cfg x) (hne : x.segments ≠ []) (env : Env) {owed : List UInt8}
    {w : RxWindow} {items : List (Nat × UInt8)} (hready : Ready cfg x owed w items) :
    Told cfg { x with
      window := if owed = [] then w else w.emitRxText cfg env owed
      converted := items
      lost := false } := by
  have htimestamp : w.opts.timestamp = true := hready.opts ▸ h.timestamp
  have hscript : w.script = .shown := hready.script.trans h.script
  by_cases howed : owed = []
  · subst howed
    rw [if_pos rfl]
    exact {
      timestamp := htimestamp
      frameGap := hready.opts ▸ h.frameGap
      script := hscript
      ingress := hready.ingress.trans h.ingress
      anchor := hready.anchor.trans h.anchor
      started := h.started
      tags := hready.tags
      placed := hready.placed
      lostLine := fun hlost => Bool.noConfusion hlost
      owes := fun _ _ => hready.owes
      time := fun _ _ => hready.time }
  · rw [if_neg howed]
    have hfront : w.front cfg env =
        if x.current ∈ shownTags w items then [] else x.stamp cfg x.current :=
      front_eq (x := { x with window := w }) hne (hready.anchor.trans h.anchor) hready.owes
        hready.time
    have hemit := emit_spec cfg env hscript htimestamp howed
    obtain ⟨hplaced, hseen⟩ := hready.placed.emit hemit howed hfront
    obtain ⟨hopts, hscript', hingress, hanchor, -⟩ := settings_fields hemit.settings
    have hpaid := hemit.paid
    exact {
      timestamp := hopts ▸ htimestamp
      frameGap := hopts ▸ hready.opts ▸ h.frameGap
      script := hscript'.trans hscript
      ingress := hingress.trans (hready.ingress.trans h.ingress)
      anchor := hanchor.trans (hready.anchor.trans h.anchor)
      started := h.started
      tags := hready.tags
      placed := hplaced
      lostLine := fun hlost => Bool.noConfusion hlost
      owes := fun _ _ =>
        ⟨fun hstands => Bool.noConfusion (hpaid.symm.trans hstands), fun hnot => absurd hseen hnot⟩
      time := fun _ _ hstands => Bool.noConfusion (hpaid.symm.trans hstands) }

/-- The window when a batch has arrived and its segment is decided. -/
def moved (env : Env) (w : RxWindow) (text : List UInt8) (t : Int) : RxWindow :=
  { w with
    received := w.received ++ text
    rxIdleMs := some env.now
    rxTsAnchor := some (w.rxTsAnchor.getD (t, env.wallMs))
    rxIngressMs := some t }

/-- The session between the segment decision and the text of a batch; a segment that has
just begun counts as lost, as none of its text has come. -/
def decided (cfg : RxConfig) (env : Env) (x : RxSession) (text : List UInt8) (t : Int) :
    RxSession where
  window :=
    if x.begins cfg t then (moved env x.window text t).flushRxLines cfg env
    else moved env x.window text t
  ingress := some t
  segments := if x.begins cfg t then x.segments ++ [t] else x.segments
  wall := if x.segments = [] then env.wallMs else x.wall
  converted := x.converted
  lost := if x.begins cfg t then true else x.lost

/-- A segment begins with the first batch. -/
theorem Told.begins_of_none (h : Told cfg x) (hnone : x.segments = []) (t : Int) :
    x.begins cfg t = true := by
  unfold RxSession.begins
  rw [h.started.mpr hnone]

theorem told_decided (h : Told cfg x) (env : Env) (text : List UInt8) (t : Int) :
    Told cfg (decided cfg env x text t) ∧
      (decided cfg env x text t).window.charset = x.window.charset ∧
      (decided cfg env x text t).window.charsetActive = x.window.charsetActive := by
  by_cases hnone : x.segments = []
  · have hline := h.line_eq_nil hnone
    have hflush : (moved env x.window text t).flushRxLines cfg env = moved env x.window text t :=
      if_pos hline
    unfold decided
    rw [h.begins_of_none hnone t, if_pos rfl, if_pos rfl, if_pos hnone, hflush, hnone]
    exact ⟨told_first h hnone t (some env.now) (x.window.received ++ text) env.wallMs, rfl, rfl⟩
  · have hmoved := told_moved h hnone t (some env.now) (x.window.received ++ text) env.wallMs
    cases hnew : x.begins cfg t with
    | false =>
      unfold decided
      rw [hnew, if_neg hnone]
      exact ⟨hmoved, rfl, rfl⟩
    | true =>
      have hflushed := told_flush hmoved env
      obtain ⟨-, hsettings, hline, -⟩ := hmoved.flush env
      obtain ⟨-, -, -, -, -, hcharset, hactive⟩ := settings_fields hsettings
      unfold decided
      rw [hnew, if_neg hnone]
      exact ⟨told_begins hflushed hnone hline t, hcharset, hactive⟩

/-- What a batch does behind the segment decision. -/
theorem processText_eq {w : RxWindow} (hgap : w.opts.frameGapEn = false) (new : Bool) (t : Int)
    (text : List UInt8) :
    w.processText cfg env new true (some t) text =
      match (w.convertBatch cfg text).1 with
      | none =>
        { w with rxLastBatchMs := none, charset := (w.convertBatch cfg text).2.charset }
      | some out =>
        let v : RxWindow :=
          { w with rxLastBatchMs := none, charset := (w.convertBatch cfg text).2.charset }
        if (v.bridgeBatch out).1 = [] then (v.bridgeBatch out).2.oweStamp new true (some t)
        else ((v.bridgeBatch out).2.oweStamp new true (some t)).emitRxText cfg env
          (v.bridgeBatch out).1 := by
  have hbreak : w.breakFrame env = { w with rxLastBatchMs := none } := by
    unfold RxWindow.breakFrame
    rw [hgap]
    rfl
  unfold RxWindow.processText
  rw [hbreak]
  unfold RxWindow.convertBatch
  by_cases hactive : w.charsetActive = true
  · cases (w.charset.convert cfg.kernel32 text).1 <;> simp only [if_pos hactive]
  · simp only [if_neg hactive]

/-- The window of a batch that is not skipped. -/
theorem takeBatch_eq (h : Told cfg x) {text : List UInt8} (htext : text ≠ [])
    (hpause : x.window.opts.pauseDisplay = false) (t : Int) :
    x.window.takeBatch cfg env ⟨text, some t, true⟩ =
      (decided cfg env x text t).window.processText cfg env (x.begins cfg t) true (some t)
        text := by
  have hdecision : ({ x.window with
      received := x.window.received ++ text, rxIdleMs := some env.now } :
      RxWindow).rxBatchIsNewSegment cfg env (some t) true =
        (x.begins cfg t, moved env x.window text t) := by
    rw [decision_spec]
    show ((match x.window.rxIngressMs with
      | none => true
      | some last => decide (cfg.timestampGapMs ≤ t - last)), _) = _
    rw [h.ingress]
    rfl
  unfold RxWindow.takeBatch
  rw [hpause]
  show RxWindow.processRxBatch cfg env { x.window with
    received := x.window.received ++ text } ⟨text, some t, true⟩ = _
  unfold RxWindow.processRxBatch
  rw [if_neg htext]
  dsimp only
  rw [hdecision]
  rfl

/-- The charset has converted a batch, and the frame break is off. -/
theorem told_converted (h : Told cfg x) (last : Option Int) (charset : Charset) :
    Told cfg { x with
      window := { x.window with rxLastBatchMs := last, charset := charset } } where
  timestamp := h.timestamp
  frameGap := h.frameGap
  script := h.script
  ingress := h.ingress
  anchor := h.anchor
  started := h.started
  tags := h.tags
  placed := h.placed.frame rfl rfl rfl
  lostLine := h.lostLine
  owes := h.owes
  time := h.time

/-- One batch, which gives text only in a segment that is not lost. -/
theorem told_arrive (h : Told cfg x) (env : Env) {text : List UInt8} (htext : text ≠ [])
    (hpause : x.window.opts.pauseDisplay = false) (t : Int)
    (hin : x.begins cfg t = true ∨ x.lost = false ∨ (x.window.convertBatch cfg text).1 = none) :
    Told cfg (x.arrive cfg env text t) := by
  obtain ⟨hdecided, hcharset, hactive⟩ := told_decided h env text t
  obtain ⟨y, hy⟩ : ∃ y, y = decided cfg env x text t := ⟨_, rfl⟩
  rw [← hy] at hdecided hcharset hactive
  have hconvert : (y.window.convertBatch cfg text).1 = (x.window.convertBatch cfg text).1 := by
    unfold RxWindow.convertBatch
    rw [hactive, hcharset]
    split <;> rfl
  have hwindow : x.window.takeBatch cfg env ⟨text, some t, true⟩ =
      y.window.processText cfg env (x.begins cfg t) true (some t) text := by
    rw [hy]
    exact takeBatch_eq h htext hpause t
  have hconverted := told_converted hdecided none (y.window.convertBatch cfg text).2.charset
  rw [processText_eq hdecided.frameGap, hconvert] at hwindow
  cases hout : (x.window.convertBatch cfg text).1 with
  | none =>
    rw [hout] at hwindow
    have harrive : x.arrive cfg env text t = { y with
        window := { y.window with
          rxLastBatchMs := none, charset := (y.window.convertBatch cfg text).2.charset } } := by
      have hitems : x.converted ++ ((none : Option (List UInt8)).getD []).map
          (Prod.mk ((if x.begins cfg t then x.segments ++ [t] else x.segments).length - 1)) =
            x.converted := List.append_nil _
      unfold RxSession.arrive
      rw [hwindow, hout]
      dsimp only
      rw [hitems, hy]
      rfl
    rw [harrive]
    exact hconverted
  | some out =>
    rw [hout] at hwindow
    have hcase : (x.begins cfg t = true ∧ y.segments.getLast? = some t ∧
          ∀ p ∈ y.converted, p.1 < y.current) ∨
        (x.begins cfg t = false ∧ y.lost = false) := by
      cases hnew : x.begins cfg t with
      | true =>
        have hsegments : y.segments = x.segments ++ [t] := by
          rw [hy]
          exact if_pos hnew
        refine .inl ⟨rfl, by rw [hsegments, List.getLast?_concat], ?_⟩
        intro p hp
        rw [hy] at hp
        rw [RxSession.current, hsegments, List.length_append]
        exact h.tags p hp
      | false =>
        refine .inr ⟨rfl, ?_⟩
        rw [hnew, hout] at hin
        have hlost : x.lost = false := by simpa using hin
        rw [hy, ← hlost]
        exact if_neg (by rw [hnew]; exact Bool.false_ne_true)
    have hne : y.segments ≠ [] := by
      intro hnone
      rcases hcase with ⟨-, hlast, -⟩ | ⟨-, -⟩
      · rw [hnone] at hlast
        cases hlast
      · have hingress : y.ingress = none := hdecided.started.mpr hnone
        rw [hy] at hingress
        cases hingress
    have hready := ready_bridge hconverted hne (x.begins cfg t) t out hcase
    have hlost : (if x.begins cfg t then (some out).isNone else x.lost) = false := by
      cases hnew : x.begins cfg t with
      | true => rfl
      | false =>
        rw [hnew, hout] at hin
        simpa using hin
    have harrive := told_ready hconverted hne env hready
    rw [← hlost] at harrive
    unfold RxSession.arrive
    rw [hwindow, hout]
    rw [hy] at harrive ⊢
    exact harrive

/-- A batch that is empty, or arrives while the display is paused. -/
theorem told_skipped (h : Told cfg x) (env : Env) {text : List UInt8} (t : Int)
    (hskip : x.window.opts.pauseDisplay = true ∨ text = []) :
    Told cfg { x with window := x.window.takeBatch cfg env ⟨text, some t, true⟩ } := by
  have hframe : ∀ paused received, Told cfg { x with
      window := { x.window with pausedDisplayBytes := paused, received := received } } :=
    fun _ _ => ⟨h.timestamp, h.frameGap, h.script, h.ingress, h.anchor, h.started, h.tags,
      h.placed.frame rfl rfl rfl, h.lostLine, h.owes, h.time⟩
  unfold RxWindow.takeBatch
  by_cases hpause : x.window.opts.pauseDisplay = true
  · rw [if_pos hpause]
    exact hframe _ _
  · rw [if_neg hpause]
    obtain rfl : text = [] := hskip.resolve_left hpause
    exact hframe _ _

theorem told_step (h : Told cfg x) {e : Env × Arrival} (hin : InSegment cfg x e)
    {y : RxSession} (hstep : RxSession.step cfg x e = some y) : Told cfg y := by
  obtain ⟨env, a⟩ := e
  cases a with
  | batch text t =>
    unfold RxSession.step at hstep
    by_cases hskip : x.window.opts.pauseDisplay = true ∨ text = []
    · simp only [if_pos hskip, Option.some.injEq] at hstep
      exact hstep ▸ told_skipped h env t hskip
    · simp only [if_neg hskip, Option.some.injEq] at hstep
      obtain ⟨hpause, htext⟩ := not_or.mp hskip
      have hcond : x.begins cfg t = true ∨ x.lost = false ∨
          (x.window.convertBatch cfg text).1 = none :=
        (hin.resolve_left hpause).resolve_left htext
      exact hstep ▸ told_arrive h env htext (Bool.eq_false_iff.mpr hpause) t hcond
  | flush =>
    obtain rfl := Option.some.inj hstep
    exact told_flush h env
  | clear =>
    obtain rfl := Option.some.inj hstep
    exact told_clear h
  | options o =>
    unfold RxSession.step at hstep
    by_cases hkeep : o.timestamp = true ∧ ¬ o.frameGapEn = true
    · simp only [if_pos hkeep, Option.some.injEq] at hstep
      exact hstep ▸ told_options h hkeep.1 (Bool.eq_false_iff.mpr hkeep.2)
    · simp only [if_neg hkeep] at hstep
      cases hstep

end Session

/-- In a session in which no batch gives text in a segment whose first batch the charset
withheld whole, every segment with text in the view has one stamp, before its first byte. -/
theorem segments_stamped (cfg : RxConfig) {w : RxWindow} (hw : Fresh w) {x : RxSession}
    (hx : ReachUnder (RxSession.machine cfg w) (InSegment cfg) x) : x.Stamped cfg := by
  have htold : Told cfg x :=
    hx.invariant (told_fresh hw) fun _ _ _ h hin hstep => told_step h hin hstep
  exact ⟨htold.placed.flow, htold.placed.shown⟩

/-! ## Polls -/

/-- A batch arrives at the window in one step of the session. -/
theorem step_batch (cfg : RxConfig) (env : Env) (x : RxSession) (text : List UInt8) (t : Int) :
    ∃ y, RxSession.step cfg x (env, .batch text t) = some y ∧
      y.window = x.window.takeBatch cfg env ⟨text, some t, true⟩ := by
  unfold RxSession.step
  by_cases hskip : x.window.opts.pauseDisplay = true ∨ text = []
  · exact ⟨_, if_pos hskip, rfl⟩
  · exact ⟨_, if_neg hskip, rfl⟩

/-- The rounds of a drain are arrivals. -/
theorem drain_arrives (cfg : RxConfig) (env : Env) {w : RxWindow} (rounds : Nat)
    (drains : List (Option RxWindow.Batch))
    (hclock : ∀ b, some b ∈ drains → ∃ t, b = ⟨b.text, some t, true⟩) {x : RxSession}
    (hx : Reach (RxSession.machine cfg w) x) :
    ∃ y, Reach (RxSession.machine cfg w) y ∧
      y.window = RxWindow.drainRounds cfg env rounds drains x.window := by
  induction rounds generalizing drains x with
  | zero => exact ⟨x, hx, rfl⟩
  | succ rounds ih =>
    match drains with
    | [] => exact ⟨x, hx, rfl⟩
    | none :: _ => exact ⟨x, hx, rfl⟩
    | some batch :: drains =>
      obtain ⟨t, hbatch⟩ := hclock batch List.mem_cons_self
      by_cases hempty : batch.text = []
      · exact ⟨x, hx, (if_pos hempty).symm⟩
      · obtain ⟨y, hstep, hwindow⟩ := step_batch cfg env x batch.text t
        have hy : Reach (RxSession.machine cfg w) y :=
          hx.step (e := (env, .batch batch.text t)) trivial hstep
        obtain ⟨z, hz, hrounds⟩ := ih drains (fun b hb => hclock b (.tail _ hb)) hy
        refine ⟨z, hz, ?_⟩
        rw [hrounds, hwindow, ← hbatch]
        exact (if_neg hempty).symm

/-- A poll of the display is a number of arrivals, or a flush of the held line. -/
theorem poll_arrives (cfg : RxConfig) (env : Env) {w : RxWindow}
    (drains : List (Option RxWindow.Batch))
    (hclock : ∀ b, some b ∈ drains → ∃ t, b = ⟨b.text, some t, true⟩) {x : RxSession}
    (hx : Reach (RxSession.machine cfg w) x) :
    ∃ y, Reach (RxSession.machine cfg w) y ∧
      y.window = x.window.pollDisplay cfg env drains := by
  obtain ⟨y, hy, hwindow⟩ := drain_arrives cfg env 8 drains hclock hx
  unfold RxWindow.pollDisplay
  split
  · exact ⟨x, hx, rfl⟩
  · dsimp only
    rw [← hwindow]
    split
    · exact ⟨y, hy, rfl⟩
    · split
      · exact ⟨_, hy.step (e := (env, .flush)) trivial rfl, rfl⟩
      · exact ⟨y, hy, rfl⟩

/-! ## Sessions with stamps -/

/-- The stamp of a wall time within the first minute of a day. -/
def minuteStamp (ms : Int) : List UInt8 :=
  let digit := fun unit => UInt8.ofNat (0x30 + ms.toNat / unit % 10)
  [0x5B, 0x30, 0x30, 0x3A, 0x30, 0x30, 0x3A, digit 10000, digit 1000, 0x2E, digit 100, digit 10,
    digit 1, 0x5D, 0x20]

/-- The character U+4F60 and a line feed, as GB2312 and as UTF-8. -/
def oneCharacter : Kernel32 where
  multiByteToWideChar _ bytes := if bytes = [0xC4, 0xE3, 0x0A] then some [0x4F60, 0x0A] else none
  wideCharToUtf8 wide :=
    if wide = [0x4F60, 0x0A] then some [0xE4, 0xBD, 0xA0, 0x0A] else none

/-- The default gap. -/
def stampConfig : RxConfig :=
  { timestampGapMs := 200, timestampPrefix := minuteStamp, kernel32 := some oneCharacter
    txEcho := false }

/-- A window with stamps on. -/
def stampWindow : RxWindow :=
  { opts := { timestamp := true }, core := true, connected := true }

def atSecond (n : Int) : Env := { now := 1000 * n, wallMs := 1000 * n, dragging := false }

/-- A line in two batches of a segment, and the next segment while its rest is held. -/
theorem segments_stamped_twice :
    ∃ x : RxSession, x.window.shown = [minuteStamp 1000 ++ [0x61, 0x62, 0x63, 0x0A], [0x64],
        minuteStamp 1300 ++ [0x65, 0x0A]] ∧ x.Stamped stampConfig := by
  obtain ⟨x, hx, hshown⟩ := exists_of_execUnder (m := RxSession.machine stampConfig stampWindow)
    (c := InSegment stampConfig)
    (p := fun x => x.window.shown = [minuteStamp 1000 ++ [0x61, 0x62, 0x63, 0x0A], [0x64],
      minuteStamp 1300 ++ [0x65, 0x0A]])
    [(atSecond 1, .batch [0x61, 0x62] 0), (atSecond 1, .batch [0x63, 0x0A, 0x64] 100),
      (atSecond 2, .batch [0x65, 0x0A] 300)] (by decide +kernel)
  exact ⟨x, hshown, segments_stamped stampConfig ⟨rfl, rfl, rfl, rfl, rfl, rfl, rfl, rfl, rfl⟩ hx⟩

/-- A window that shows GB2312. -/
def gbWindow : RxWindow :=
  { stampWindow with
    opts := { timestamp := true, charset := .gb2312 }
    charset := { currentName := "GB2312", currentCp := some (.page 936) }
    charsetActive := true }

/-- The first byte of a character comes in a batch of its own, and the character gets no
stamp. -/
theorem withheld_batch_unstamped :
    ¬ ∀ cfg w, Fresh w → ∀ x, Reach (RxSession.machine cfg w) x → x.Stamped cfg := by
  intro h
  obtain ⟨x, hx, hshown⟩ := exists_of_execUnder (m := RxSession.machine stampConfig gbWindow)
    (c := fun _ _ => True)
    (p := fun x => x.window.shown.flatten ≠
      marked (x.stamp stampConfig) [] (shownPart x.window.handouts x.converted))
    [(atSecond 1, .batch [0xC4] 0), (atSecond 1, .batch [0xE3, 0x0A] 1)] (by decide +kernel)
  exact hshown (h stampConfig gbWindow ⟨rfl, rfl, rfl, rfl, rfl, rfl, rfl, rfl, rfl⟩ x hx).shown

end Xcom.Receive
