import Xcom.Pages.Store
import Xcom.Receive.AnsiGrammar

/-!
# Streams of the ANSI parser

The feeds of a stream show what one feed of it shows, where no sequence is malformed, none ends
a feed, and no colour is in effect between two feeds that is not set anew.
-/

namespace Xcom.Receive.Ansi

open Pages Transition

/-! ## Colours in effect -/

/-- A parameter that sets the foreground, or takes its colour away. -/
def setsFg (p : Nat) : Bool := p = 0 || p = 39 || (30 ≤ p && p ≤ 37) || (90 ≤ p && p ≤ 97)

/-- A parameter that sets the background, or takes its colour away. -/
def setsBg (p : Nat) : Bool := p = 0 || p = 49 || (40 ≤ p && p ≤ 47) || (100 ≤ p && p ≤ 107)

/-- The parameters that are obeyed before the first visible byte, if there is one. -/
def leading : List Token → Option (List Nat)
  | [] => none
  | .char _ :: _ => some []
  | .csi params term :: ts =>
    (leading ts).map ((if term = 109 then parseParams params else []) ++ ·)

/-- A colour in effect is set anew before the first visible byte. -/
def repainted (s : Style) (ts : List Token) : Bool :=
  match leading ts with
  | none => true
  | some ps => (s.fg = none || ps.any setsFg) && (s.bg = none || ps.any setsBg)

variable (g : Grammar) (pal : Palette)

/-- What is asked of each feed, read in the mode and the style that the feeds before it lead
to. -/
def Kept : Mode → Style → List (List UInt8) → Prop
  | _, _, [] => True
  | m, s, f :: feeds =>
    (scan g m f).2 ≠ .malformed ∧ endsInFinal (scan g m f) = false ∧
      repainted s (scan g m f).1 = true ∧
      Kept (scan g m f).2 (styleAfter pal s (scan g m f).1) feeds

instance decidableKept : ∀ m s feeds, Decidable (Kept g pal m s feeds)
  | _, _, [] => .isTrue trivial
  | m, s, f :: feeds =>
    have := decidableKept (scan g m f).2 (styleAfter pal s (scan g m f).1) feeds
    inferInstanceAs (Decidable (_ ∧ _ ∧ _ ∧ _))

/-- What the feeds of a stream are to show. -/
structure StreamLaw (palette : Option Palette) (feeds : List (List UInt8)) : Prop where
  /-- The text does not depend on how the stream is cut. -/
  text : textOf (feedAll palette [] feeds).1 = textOf (feed palette [] feeds.flatten).1
  /-- Nor do the colours. -/
  colour : cells (feedAll palette [] feeds).1 = cells (feed palette [] feeds.flatten).1
  /-- Behind a control sequence that a byte breaks off the text goes on. -/
  malformed : ∀ before b behind params, feeds.flatten = before ++ b :: behind →
    (scan g .text before).2 = .csi params → isFinal b = false → g.isParam b = false →
    ∃ shown, textOf (feed palette [] feeds.flatten).1 =
      chars (scan g .text before).1 ++ shown ++ textOf (feed palette [] behind).1
  /-- The residue is one incomplete escape sequence at most. -/
  residue : ∀ feeds', feeds' <+: feeds → Incomplete g (feedAll palette [] feeds').2

/-! ## Where colours agree -/

variable {pal}

theorem applyParam_fg (s : Style) (p : Nat) : (applyParam pal s p).fg =
    if p = 0 ∨ p = 39 then none
    else if 30 ≤ p ∧ p ≤ 37 ∨ 90 ≤ p ∧ p ≤ 97 then fgColor p pal
    else s.fg := by
  unfold applyParam
  (repeat' split) <;> first | rfl | omega

theorem applyParam_bg (s : Style) (p : Nat) : (applyParam pal s p).bg =
    if p = 0 ∨ p = 49 then none
    else if 40 ≤ p ∧ p ≤ 47 ∨ 100 ≤ p ∧ p ≤ 107 then bgColor p pal
    else s.bg := by
  unfold applyParam
  (repeat' split) <;> first | rfl | omega

theorem setsFg_iff (p : Nat) : setsFg p = true ↔
    (p = 0 ∨ p = 39) ∨ 30 ≤ p ∧ p ≤ 37 ∨ 90 ≤ p ∧ p ≤ 97 := by
  simp only [setsFg, Bool.or_eq_true, Bool.and_eq_true, decide_eq_true_eq, or_assoc]

theorem setsBg_iff (p : Nat) : setsBg p = true ↔
    (p = 0 ∨ p = 49) ∨ 40 ≤ p ∧ p ≤ 47 ∨ 100 ≤ p ∧ p ≤ 107 := by
  simp only [setsBg, Bool.or_eq_true, Bool.and_eq_true, decide_eq_true_eq, or_assoc]

/-- Styles agree in a colour behind parameters that set it, and where they agreed before. -/
theorem applySgr_iff {colour : Style → Option Nat} {sets : Nat → Bool}
    (hsets : ∀ p, sets p = true → ∀ s s',
      colour (applyParam pal s p) = colour (applyParam pal s' p))
    (hkeeps : ∀ p, ¬ sets p = true → ∀ s, colour (applyParam pal s p) = colour s)
    (ps : List Nat) (s s' : Style) :
    colour (applySgr pal ps s) = colour (applySgr pal ps s') ↔
      colour s = colour s' ∨ ps.any sets = true := by
  induction ps generalizing s s' with
  | nil => simp [applySgr]
  | cons p ps ih =>
    show colour (applySgr pal ps (applyParam pal s p)) =
      colour (applySgr pal ps (applyParam pal s' p)) ↔ _
    rw [ih]
    by_cases hp : sets p = true
    · simp [hsets p hp s s', hp]
    · simp [hkeeps p hp, hp]

theorem applySgr_fg_iff (ps : List Nat) (s s' : Style) :
    (applySgr pal ps s).fg = (applySgr pal ps s').fg ↔
      s.fg = s'.fg ∨ ps.any setsFg = true := by
  apply applySgr_iff
  · intro p hp s s'
    rw [applyParam_fg, applyParam_fg]
    rcases (setsFg_iff p).mp hp with hreset | hset
    · rw [if_pos hreset, if_pos hreset]
    · rw [if_pos hset, if_pos hset]
  · intro p hp s
    obtain ⟨hreset, hset⟩ := not_or.mp ((setsFg_iff p).not.mp hp)
    rw [applyParam_fg, if_neg hreset, if_neg hset]

theorem applySgr_bg_iff (ps : List Nat) (s s' : Style) :
    (applySgr pal ps s).bg = (applySgr pal ps s').bg ↔
      s.bg = s'.bg ∨ ps.any setsBg = true := by
  apply applySgr_iff
  · intro p hp s s'
    rw [applyParam_bg, applyParam_bg]
    rcases (setsBg_iff p).mp hp with hreset | hset
    · rw [if_pos hreset, if_pos hreset]
    · rw [if_pos hset, if_pos hset]
  · intro p hp s
    obtain ⟨hreset, hset⟩ := not_or.mp ((setsBg_iff p).not.mp hp)
    rw [applyParam_bg, if_neg hreset, if_neg hset]

/-- A control sequence as parameters before others. -/
theorem applySgr_obey (ps : List Nat) (s : Style) (params : List UInt8) (term : UInt8) :
    applySgr pal ps (obey pal s params term) =
      applySgr pal ((if term = 109 then parseParams params else []) ++ ps) s := by
  unfold obey
  split
  · exact List.foldl_append.symm
  · rfl

/-- The colours of what is read are those from another style on where the two agree behind the
parameters before the first visible byte. -/
theorem paint_iff (s s' : Style) (ts : List Token) : paint pal s ts = paint pal s' ts ↔
    ∀ ps, leading ts = some ps → (applySgr pal ps s).fg = (applySgr pal ps s').fg ∧
      (applySgr pal ps s).bg = (applySgr pal ps s').bg := by
  induction ts generalizing s s' with
  | nil => simp [paint, leading]
  | cons t ts ih =>
    cases t with
    | char b =>
      have hhead : (∀ ps, leading (.char b :: ts) = some ps →
          (applySgr pal ps s).fg = (applySgr pal ps s').fg ∧
            (applySgr pal ps s).bg = (applySgr pal ps s').bg) ↔ s.fg = s'.fg ∧ s.bg = s'.bg := by
        simp [leading, applySgr]
      rw [hhead]
      constructor
      · intro h
        obtain ⟨hcell, -⟩ := List.cons.inj h
        exact Prod.mk.inj (Prod.mk.inj hcell).2
      · rintro ⟨hfg, hbg⟩
        have htail : paint pal s ts = paint pal s' ts :=
          (ih s s').mpr fun ps _ =>
            ⟨(applySgr_fg_iff ps s s').mpr (.inl hfg), (applySgr_bg_iff ps s s').mpr (.inl hbg)⟩
        simp only [paint, hfg, hbg, htail]
    | csi params term =>
      show paint pal (obey pal s params term) ts = paint pal (obey pal s' params term) ts ↔ _
      rw [ih]
      simp only [applySgr_obey, leading, Option.map_eq_some_iff]
      constructor
      · rintro h ps ⟨later, hlater, rfl⟩
        exact h later hlater
      · intro h later hlater
        exact h _ ⟨later, hlater, rfl⟩

theorem paint_default_iff (s : Style) (ts : List Token) :
    paint pal s ts = paint pal {} ts ↔ repainted s ts = true := by
  rw [paint_iff]
  unfold repainted
  cases hleading : leading ts with
  | none => simp
  | some ps => simp [applySgr_fg_iff, applySgr_bg_iff]

/-! ## Feeds and the stream -/

variable {feeds : List (List UInt8)} {tss : List (List Token)} {palette : Option Palette}

/-- Each feed is painted from the default style on as the stream would paint it. -/
def Agrees (pal : Palette) : Style → List (List Token) → Prop
  | _, [] => True
  | s, ts :: tss => paint pal s ts = paint pal {} ts ∧ Agrees pal (styleAfter pal s ts) tss

theorem agrees_iff (s : Style) (tss : List (List Token)) :
    tss.flatMap (paint pal {}) = paint pal s tss.flatten ↔ Agrees pal s tss := by
  induction tss generalizing s with
  | nil => simp [Agrees, paint]
  | cons ts tss ih =>
    rw [List.flatMap_cons, List.flatten_cons, paint_append, Agrees, ← ih]
    constructor
    · intro h
      have hlen : (paint pal {} ts).length = (paint pal s ts).length := by
        rw [paint_length, paint_length]
      obtain ⟨hhead, htail⟩ := List.append_inj h hlen
      exact ⟨hhead.symm, htail⟩
    · rintro ⟨hhead, htail⟩
      rw [hhead, htail]

theorem feed_once (palette : Option Palette) {buf r : List UInt8} {ts : List Token}
    (h : Reads buf ts r) :
    (feed palette [] buf).2 = r ∧
      cells (feed palette [] buf).1 = paint (palette.getD light) {} ts ∧
      textOf (feed palette [] buf).1 = chars ts := by
  obtain ⟨segments, hfeed, hcells⟩ := feed_reads palette (show Reads ([] ++ buf) ts r from h)
  rw [hfeed, ← cells_text]
  exact ⟨rfl, hcells, by rw [hcells, paint_text]⟩

/-- The text does not depend on how a stream is cut. -/
theorem text_uncut (palette : Option Palette) (feeds : List (List UInt8)) :
    textOf (feedAll palette [] feeds).1 = textOf (feed palette [] feeds.flatten).1 := by
  obtain ⟨tss, r, hreads⟩ := readsAll_total [] feeds
  obtain ⟨-, -, honce⟩ := feed_once palette (hreads.flatten .nil)
  obtain ⟨-, hcells⟩ := feedAll_reads palette hreads
  rw [List.nil_append] at honce
  rw [honce, ← cells_text, hcells]
  clear hcells honce hreads
  induction tss with
  | nil => rfl
  | cons ts tss ih =>
    rw [List.flatMap_cons, List.map_append, paint_text, List.flatten_cons, chars_append, ih]

/-- The colours do not where each feed is painted as the stream would paint it. -/
theorem colour_uncut_iff {r : List UInt8} (h : ReadsAll [] feeds tss r) :
    cells (feedAll palette [] feeds).1 = cells (feed palette [] feeds.flatten).1 ↔
      Agrees (palette.getD light) {} tss := by
  have hflat := h.flatten .nil
  rw [List.nil_append] at hflat
  rw [(feedAll_reads palette h).2, (feed_once palette hflat).2.1, agrees_iff]

variable {g}

theorem Kept.of_prefix {m : Mode} {s : Style} {feeds' : List (List UInt8)}
    (h : Kept g pal m s feeds) (hfront : feeds' <+: feeds) : Kept g pal m s feeds' := by
  induction feeds' generalizing m s feeds with
  | nil => trivial
  | cons f feeds' ih =>
    obtain ⟨more, rfl⟩ := hfront
    obtain ⟨hgood, hend, hpaint, hlater⟩ := h
    exact ⟨hgood, hend, hpaint, ih hlater (List.prefix_append feeds' more)⟩

/-- Feeds that are as asked are read as the machine reads them. -/
theorem Kept.reads {m : Mode} {s : Style} (hm : m.Fine g) (hgood : m ≠ .malformed)
    (h : Kept g pal m s feeds) :
    (scan g m feeds.flatten).2 ≠ .malformed ∧
      ∃ tss, ReadsAll m.pending feeds tss (scan g m feeds.flatten).2.pending ∧
        Agrees pal s tss := by
  induction feeds generalizing m s with
  | nil => exact ⟨hgood, [], .nil, trivial⟩
  | cons f feeds ih =>
    obtain ⟨hnext, hend, hpaint, hlater⟩ := h
    obtain ⟨hlast, tss, hreads, hagree⟩ := ih (scan_fine hm f) hnext hlater
    rw [List.flatten_cons, scan_append]
    exact ⟨hlast, _, .cons (reads_feed hm hnext hend) hreads,
      (paint_default_iff s _).mpr hpaint, hagree⟩

/-- Feeds that the machine can read, leave nothing but incomplete sequences and are painted as
the stream would paint them are as asked. -/
theorem kept_of_reads {m : Mode} {s : Style} {r : List UInt8} (hm : m.Fine g)
    (hgood : (scan g m feeds.flatten).2 ≠ .malformed) (hreads : ReadsAll m.pending feeds tss r)
    (hresidue : ∀ feeds' tss' r', feeds' <+: feeds → ReadsAll m.pending feeds' tss' r' →
      Incomplete g r')
    (hagree : Agrees pal s tss) : Kept g pal m s feeds := by
  induction feeds generalizing m s tss with
  | nil => trivial
  | cons f feeds ih =>
    obtain _ | ⟨hhead, htail⟩ := hreads
    rw [List.flatten_cons, scan_append] at hgood
    have hnext : (scan g m f).2 ≠ .malformed := by
      intro hmode
      rw [hmode, scan_malformed] at hgood
      exact hgood rfl
    have hend : endsInFinal (scan g m f) = false := by
      rw [Bool.eq_false_iff]
      intro hfinal
      obtain ⟨ts, r', hread, hbad⟩ := reads_final hm hfinal
      exact hbad (hresidue [f] [ts] r' (List.prefix_append [f] feeds) (.cons hread .nil))
    have hread := reads_feed hm hnext hend
    obtain ⟨rfl, rfl⟩ := hread.unique hhead
    refine ⟨hnext, hend, (paint_default_iff s _).mp hagree.1, ?_⟩
    apply ih (scan_fine hm f) hgood htail _ hagree.2
    intro feeds' tss' r' hprefix hreads'
    exact hresidue (f :: feeds') _ r' (List.cons_prefix_cons.mpr ⟨rfl, hprefix⟩)
      (.cons hread hreads')

/-- Where the law holds no sequence is malformed. -/
theorem StreamLaw.good (h : StreamLaw g palette feeds) :
    (scan g .text feeds.flatten).2 ≠ .malformed := by
  intro hmode
  obtain ⟨before, b, behind, params, hsplit, hopen, hfinal, hparam⟩ :=
    malformed_split Mode.noConfusion hmode
  have hparams : (Mode.csi params).Fine g := hopen ▸ scan_fine (m := .text) trivial before
  obtain ⟨ts, r, hbroken⟩ := reads_total (27 :: 91 :: (params ++ b :: behind))
  have hwhole : Reads feeds.flatten ((scan g .text before).1 ++ ts) r := by
    have hrest : Reads ((scan g .text before).2.pending ++ b :: behind) ts r := by
      rw [hopen]
      exact hbroken
    have hreads := reads_scan (m := .text) trivial (by rw [hopen]; exact Mode.noConfusion)
      (fun hnil => absurd hnil (List.cons_ne_nil b behind)) hrest
    rw [hsplit]
    exact hreads
  rcases reads_broken hparams hfinal hparam hbroken with hbad | ⟨ts', r', hbehind, hless⟩
  · obtain ⟨tss, r', hreads⟩ := readsAll_total [] feeds
    obtain ⟨-, rfl⟩ := (hreads.flatten .nil).unique hwhole
    have hresidue := h.residue feeds (List.prefix_refl feeds)
    rw [(feedAll_reads palette hreads).1] at hresidue
    exact hbad hresidue
  · obtain ⟨shown, htext⟩ := h.malformed before b behind params hsplit hopen hfinal hparam
    rw [(feed_once palette hwhole).2.2, (feed_once palette hbehind).2.2, chars_append,
      List.append_assoc] at htext
    have hlen := congrArg List.length (List.append_cancel_left htext)
    rw [List.length_append] at hlen
    omega

/-- The law holds of a stream and its feeds exactly where no control sequence is malformed, no
feed ends behind one, and each colour in effect between two feeds is set anew before anything
is shown. -/
theorem ansi_stream_iff (g : Grammar) (palette : Option Palette) (feeds : List (List UInt8)) :
    StreamLaw g palette feeds ↔ Kept g (palette.getD light) .text {} feeds := by
  constructor
  · intro h
    obtain ⟨tss, r, hreads⟩ := readsAll_total [] feeds
    apply kept_of_reads (m := .text) trivial h.good hreads
    · intro feeds' tss' r' hprefix hreads'
      have hresidue := h.residue feeds' hprefix
      have hleft : (feedAll palette [] feeds').2 = r' := (feedAll_reads palette hreads').1
      rwa [hleft] at hresidue
    · exact (colour_uncut_iff hreads).mp h.colour
  · intro h
    obtain ⟨hgood, tss, hreads, hagree⟩ := h.reads (m := .text) trivial Mode.noConfusion
    refine ⟨text_uncut palette feeds, (colour_uncut_iff hreads).mpr hagree, ?_, ?_⟩
    · intro before b behind params hsplit hopen hfinal hparam
      rw [hsplit, scan_append, hopen, scan_cons] at hgood
      simp only [scanByte, hfinal, hparam, Bool.false_eq_true, if_false, scan_malformed] at hgood
      exact absurd rfl hgood
    · intro feeds' hprefix
      obtain ⟨-, tss', hreads', -⟩ := (h.of_prefix hprefix).reads (m := .text) trivial
        Mode.noConfusion
      have hleft : (feedAll palette [] feeds').2 = (scan g .text feeds'.flatten).2.pending :=
        (feedAll_reads palette hreads').1
      rw [hleft]
      exact incomplete_pending (scan_fine (m := .text) trivial feeds'.flatten)

/-- A sequence that two feeds straddle, and a colour that is taken away before more is shown. -/
example : Kept anyPassed light .text {}
    [27 :: bytes "[3", bytes "1mred" ++ 27 :: bytes "[0mplain", bytes "more"] := by decide

/-- A word in one colour that two feeds show parts of, a line break within a sequence, and a
sequence that ends a feed. -/
theorem ansi_stream_broken :
    ¬ StreamLaw anyPassed none [27 :: bytes "[31mRE", bytes "D"] ∧
      ¬ StreamLaw anyPassed none [27 :: bytes "[3\n1mhello"] ∧
      ¬ StreamLaw anyPassed none [27 :: bytes "[31m"] := by
  refine ⟨?_, ?_, ?_⟩
  · intro h
    have hcolour := h.colour
    revert hcolour
    decide
  · intro h
    have hnothing : textOf (feed none [] [27 :: bytes "[3\n1mhello"].flatten).1 = [] := by decide
    have hbehind : textOf (feed none [] (bytes "1mhello")).1 = bytes "1mhello" := by decide
    obtain ⟨shown, htext⟩ := h.malformed (27 :: bytes "[3") 10 (bytes "1mhello") (bytes "3")
      (by decide) (by decide) (by decide) (by decide)
    rw [hnothing, hbehind] at htext
    have hlost := (List.append_eq_nil_iff.mp htext.symm).2
    revert hlost
    decide
  · intro h
    have hleft : (feedAll none [] [27 :: bytes "[31m"]).2 = 27 :: 91 :: (bytes "31" ++ 109 :: []) :=
      by decide
    have hresidue := h.residue _ (List.prefix_refl [27 :: bytes "[31m"])
    rw [hleft] at hresidue
    exact not_incomplete (by decide) hresidue

end Xcom.Receive.Ansi
